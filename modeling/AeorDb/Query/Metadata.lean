import AeorDb.Store.Paths
import AeorDb.Query.FieldIndex
import AeorDb.Library.BigEndian

/-! Fields that are read from a file's record. -/

namespace AeorDb.Query

open Store Library

variable {H : Type}

inductive QueryOp where
  | eq (value : List UInt8)
  | gt (value : List UInt8)
  | lt (value : List UInt8)
  | between (min max : List UInt8)
  | isIn (values : List (List UInt8))
  deriving DecidableEq

structure MetadataCodec (H : Type) where
  encode : Str → List UInt8
  decode : List UInt8 → Option Str
  hashHex : H → Str

inductive VirtualField where
  | path | filename | extension | contentType | size | createdAt | updatedAt | hash
  deriving DecidableEq

def canonicalVirtualFieldName (fieldName : Str) : Option VirtualField :=
  match String.ofList fieldName with
  | "@path" => some .path
  | "@filename" | "@file_name" => some .filename
  | "@extension" => some .extension
  | "@content_type" => some .contentType
  | "@size" => some .size
  | "@created_at" => some .createdAt
  | "@updated_at" => some .updatedAt
  | "@hash" => some .hash
  | _ => none

def VirtualField.name : VirtualField → Str
  | .path => "@path".toList
  | .filename => "@filename".toList
  | .extension => "@extension".toList
  | .contentType => "@content_type".toList
  | .size => "@size".toList
  | .createdAt => "@created_at".toList
  | .updatedAt => "@updated_at".toList
  | .hash => "@hash".toList

def afterLast (c : Char) (s : Str) : Str :=
  match rfind c s with
  | some i => s.drop (i + 1)
  | none => s

def extensionOf (filename : Str) : Str :=
  let extension := afterLast '.' filename
  if extension = filename then [] else extension

def i64Bytes (x : ℤ) : List UInt8 := beBytes 8 (x % 2 ^ 64).toNat

variable (codec : MetadataCodec H)

def extractMetadataFieldValue (record : FileRecord H) : VirtualField → List UInt8
  | .path => codec.encode record.path
  | .filename => codec.encode ((fileName record.path).getD [])
  | .extension => codec.encode (extensionOf ((fileName record.path).getD []))
  | .hash => codec.encode (codec.hashHex record.contentHash)
  | .createdAt => i64Bytes record.createdAt
  | .updatedAt => i64Bytes record.updatedAt
  | .size => beBytes 8 record.totalSize
  | .contentType => codec.encode (record.contentType.getD [])

def virtualStringMatches (value : Str) : QueryOp → EngineResult Bool
  | .eq query => .ok (value = (codec.decode query).getD [])
  | .isIn queries => .ok (queries.any fun query => value = (codec.decode query).getD [])
  | .gt query => .ok ((codec.decode query).getD [] < value)
  | .lt query => .ok (value < (codec.decode query).getD [])
  | .between _ _ => .error (.invalidInput "Operation 'Discriminant(3)' is not supported for string virtual fields")

def bytesToU64 (bytes : List UInt8) : ℕ := if bytes.length = 8 then beValue bytes else 0

def bytesToI64 (bytes : List UInt8) : ℤ := if bytes.length = 8 then (UInt64.ofNat (beValue bytes)).toInt64.toInt else 0

def virtualNumberMatches {α : Type} [LinearOrder α] (decode : List UInt8 → α) (value : α) : QueryOp → Bool
  | .eq query => value = decode query
  | .gt query => decode query < value
  | .lt query => value < decode query
  | .between min max => decode min ≤ value ∧ value ≤ decode max
  | .isIn queries => queries.any fun query => value = decode query

def virtualU64Matches (value : ℕ) (op : QueryOp) : Bool := virtualNumberMatches bytesToU64 value op

def virtualI64Matches (value : ℤ) (op : QueryOp) : Bool := virtualNumberMatches bytesToI64 value op

def virtualFieldMatches (record : FileRecord H) (op : QueryOp) : VirtualField → EngineResult Bool
  | .path => virtualStringMatches codec record.path op
  | .filename => virtualStringMatches codec (afterLast '/' record.path) op
  | .extension => virtualStringMatches codec (extensionOf (afterLast '/' record.path)) op
  | .contentType => virtualStringMatches codec (record.contentType.getD []) op
  | .hash => virtualStringMatches codec (codec.hashHex record.contentHash) op
  | .size => .ok (virtualU64Matches record.totalSize op)
  | .createdAt => .ok (virtualI64Matches record.createdAt op)
  | .updatedAt => .ok (virtualI64Matches record.updatedAt op)

def pathIsUnderQueryPath (path queryPath : Str) : Bool :=
  if queryPath = ['/'] then true
  else if normalizePath path = normalizePath queryPath then true
  else (trimEnd (· = '/') (normalizePath queryPath) ++ ['/']).isPrefixOf (normalizePath path)

def ancestorPaths : ℕ → Str → List Str
  | 0, _ => []
  | fuel + 1, path =>
    match parentPath path with
    | none => []
    | some dir => dir :: if dir = ['/'] then [] else ancestorPaths fuel dir

def virtualIndexAncestorPaths (path : Str) : List Str := ancestorPaths (normalizePath path).length (normalizePath path)

end AeorDb.Query
