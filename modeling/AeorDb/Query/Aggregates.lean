import AeorDb.Query.FieldIndex
import AeorDb.Library.BigEndian

/-! Query literals as bytes, and aggregates over the raw values of an index. -/

namespace AeorDb.Query

open Store Library

inductive JsonNumber where
  | posInt (n : UInt64)
  | negInt (n : Int64)
  | float (x : Float)

inductive JsonValue where
  | null
  | bool (flag : Bool)
  | number (n : JsonNumber)
  | string (text : Str)
  | composite (display : String)

def utf8Bytes (text : Str) : List UInt8 := text.flatMap String.utf8EncodeChar

def jsonQueryValueToBytes : JsonValue → Except String (List UInt8)
  | .number (.posInt n) => .ok (beBytes 8 n.toNat)
  | .number (.negInt n) => .ok (beBytes 8 n.toUInt64.toNat)
  | .number (.float x) => .ok (beBytes 8 x.toUInt64.toNat)
  | .string text => .ok (utf8Bytes text)
  | .bool flag => .ok [if flag then 1 else 0]
  | .null => .error "Unsupported value type: null"
  | .composite display => .error ("Unsupported value type: " ++ display)

def signedJson (x : Int64) : JsonValue := .number (if 0 ≤ x.toInt then .posInt x.toUInt64 else .negInt x)

structure TextCodec where
  utf8 : List UInt8 → Option Str
  lossy : List UInt8 → Str
  hex : List UInt8 → Str

section

variable (bytes : List UInt8)

def unsignedOf (width : ℕ) : Option ℕ := if width ≤ bytes.length then some (beValue (bytes.take width)) else none

def signedOf : Option Int64 := (unsignedOf bytes 8).map fun n => (UInt64.ofNat n).toInt64

def floatOf : Option Float := (unsignedOf bytes 8).map fun n => Float.ofBits (UInt64.ofNat n)

def bytesToF64 : ConverterType → Option Float
  | .u8 => (unsignedOf bytes 1).map Nat.toFloat
  | .u16 => (unsignedOf bytes 2).map Nat.toFloat
  | .u32 => (unsignedOf bytes 4).map Nat.toFloat
  | .u64 => (unsignedOf bytes 8).map fun n => (UInt64.ofNat n).toFloat
  | .i64 | .timestamp => (signedOf bytes).map Int64.toFloat
  | .f64 => floatOf bytes
  | .hash | .string | .trigram | .phonetic => none

def unsignedJson (width : ℕ) : JsonValue :=
  match unsignedOf bytes width with
  | some n => .number (.posInt (UInt64.ofNat n))
  | none => .null

def bytesToJsonValue (text : TextCodec) : ConverterType → JsonValue
  | .u8 => unsignedJson bytes 1
  | .u16 => unsignedJson bytes 2
  | .u32 => unsignedJson bytes 4
  | .u64 => unsignedJson bytes 8
  | .i64 | .timestamp =>
    match signedOf bytes with
    | some x => signedJson x
    | none => .null
  | .f64 =>
    match floatOf bytes with
    | some x => if x.isFinite then .number (.float x) else .null
    | none => .null
  | .string => .string (text.lossy bytes)
  | .hash | .trigram | .phonetic => .string ((text.utf8 bytes).getD (text.hex bytes))

end

variable {F : Type} [DecidableEq F]

abbrev FieldIndexMap (F : Type) := Str → Option (Table (Prod.fst : F × List UInt8 → F) × ConverterType)

structure AggregateQuery where
  sum : List Str
  avg : List Str
  min : List Str
  max : List Str

structure ComputedAggregates where
  sum : Str → Option Float
  avg : Str → Option Float
  min : Str → Option JsonValue
  max : Str → Option JsonValue

def fieldBytes (indexes : FieldIndexMap F) (file : F) (field : Str) : Option (List UInt8 × ConverterType) := do
  let (values, tag) ← indexes field
  let (_, bytes) ← values.get file
  pure (bytes, tag)

def fieldNumber (indexes : FieldIndexMap F) (file : F) (field : Str) : Option Float := do
  let (bytes, tag) ← fieldBytes indexes file field
  bytesToF64 bytes tag

def sumStep (indexes : FieldIndexMap F) (file : F) (sums : Str → Option Float) (field : Str) : Str → Option Float :=
  match fieldNumber indexes file field with
  | some x => Function.update sums field (some ((sums field).getD 0 + x))
  | none => sums

def avgStep (indexes : FieldIndexMap F) (file : F) (counts : Str → Option (Float × ℕ)) (field : Str) : Str → Option (Float × ℕ) :=
  match fieldNumber indexes file field with
  | some x =>
    let (sum, count) := (counts field).getD (0, 0)
    Function.update counts field (some (sum + x, count + 1))
  | none => counts

def improve (better : List UInt8 → List UInt8 → Bool) (text : TextCodec) (kept : Option (JsonValue × List UInt8))
    (found : List UInt8 × ConverterType) : Option (JsonValue × List UInt8) :=
  match kept with
  | none => some (bytesToJsonValue found.1 text found.2, found.1)
  | some current => if better found.1 current.2 then some (bytesToJsonValue found.1 text found.2, found.1) else some current

def extremeStep (better : List UInt8 → List UInt8 → Bool) (text : TextCodec) (indexes : FieldIndexMap F) (file : F)
    (kept : Str → Option (JsonValue × List UInt8)) (field : Str) : Str → Option (JsonValue × List UInt8) :=
  match fieldBytes indexes file field with
  | some found => Function.update kept field (improve better text (kept field) found)
  | none => kept

def minStep (text : TextCodec) (indexes : FieldIndexMap F) (file : F) :=
  extremeStep (fun bytes current => bytes < current) text indexes file

def maxStep (text : TextCodec) (indexes : FieldIndexMap F) (file : F) :=
  extremeStep (fun bytes current => current < bytes) text indexes file

def computeAggregates (text : TextCodec) (hashSet : List F) (agg : AggregateQuery) (indexes : FieldIndexMap F) : ComputedAggregates where
  sum := hashSet.foldl (fun sums file => agg.sum.foldl (sumStep indexes file) sums) fun _ => none
  avg field := (hashSet.foldl (fun counts file => agg.avg.foldl (avgStep indexes file) counts) (fun _ => none) field).map
    fun (sum, count) => if 0 < count then sum / count.toFloat else 0
  min field := (hashSet.foldl (fun kept file => agg.min.foldl (minStep text indexes file) kept) (fun _ => none) field).map (·.1)
  max field := (hashSet.foldl (fun kept file => agg.max.foldl (maxStep text indexes file) kept) (fun _ => none) field).map (·.1)

end AeorDb.Query
