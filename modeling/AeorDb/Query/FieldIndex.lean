import AeorDb.Store.Records
import AeorDb.Library.Table
import AeorDb.Library.Blocks

/-! Field indexes: sorted scalars with a table of buckets over them, and the raw value of each file. -/

namespace AeorDb.Query

open Store Library List

variable {V S F : Type}

inductive ConverterType where
  | hash | u8 | u16 | u32 | u64 | i64 | f64 | string | timestamp | trigram | phonetic
  deriving DecidableEq

structure ScalarConverter (V S : Type) where
  toScalar : V → S
  isOrderPreserving : Bool
  name : String
  typeTag : ConverterType
  expandValue : V → List V

def wholeValue (toScalar : V → S) (isOrderPreserving : Bool) (name : String) (typeTag : ConverterType) : ScalarConverter V S where
  toScalar := toScalar
  isOrderPreserving := isOrderPreserving
  name := name
  typeTag := typeTag
  expandValue value := [value]

/-- What the index uses of floating point numbers. `close` compares up to `f64::EPSILON`, `near` up to `1e-10`,
and `position` is where a binary search of a sorted list ends. -/
structure Scale (S : Type) [LinearOrder S] where
  bucketCount : ℕ
  bucketOf : S → ℕ
  close : S → S → Bool
  near : S → S → Bool
  position : List S → S → ℕ
  bucketOf_lt : ∀ s, bucketOf s < bucketCount
  bucketOf_mono : Monotone bucketOf
  close_self : ∀ s, close s s = true
  near_self : ∀ s, near s s = true
  position_spec : ∀ (l : List S) (s : S), l.Pairwise (· ≤ ·) →
    (∀ x ∈ l.take (position l s), x ≤ s) ∧ ∀ x ∈ l.drop (position l s), s ≤ x

structure IndexEntry (S F : Type) where
  scalar : S
  fileHash : F
  deriving DecidableEq

structure NVTBucket where
  kvBlockOffset : ℕ
  entryCount : ℕ
  deriving DecidableEq

structure FieldIndex (V S F : Type) where
  fieldName : Str
  converter : ScalarConverter V S
  entries : List (IndexEntry S F)
  nvt : List NVTBucket
  values : Table (Prod.fst : F × V → F)
  dirty : Bool

namespace FieldIndex

variable [LinearOrder S] [DecidableEq F] [DecidableEq V] (sc : Scale S)

def new (fieldName : Str) (converter : ScalarConverter V S) : FieldIndex V S F where
  fieldName := fieldName
  converter := converter
  entries := []
  nvt := List.replicate sc.bucketCount ⟨0, 0⟩
  values := .empty
  dirty := false

def insertEntry (ix : FieldIndex V S F) (scalar : S) (fileHash : F) : FieldIndex V S F :=
  { ix with
    entries :=
      let i := sc.position (ix.entries.map (·.scalar)) scalar
      ix.entries.take i ++ ⟨scalar, fileHash⟩ :: ix.entries.drop i
    dirty := true }

def insertExpanded (ix : FieldIndex V S F) (value : V) (fileHash : F) : FieldIndex V S F :=
  (ix.converter.expandValue value).foldl (fun ix token => ix.insertEntry sc (ix.converter.toScalar token) fileHash)
    { ix with values := ix.values.insert (fileHash, value) }

def remove (ix : FieldIndex V S F) (fileHash : F) : FieldIndex V S F :=
  let kept := ix.entries.filter (·.fileHash ≠ fileHash)
  { ix with values := ix.values.erase fileHash, entries := kept, dirty := ix.dirty || kept.length ≠ ix.entries.length }

def updateIndex (ix : FieldIndex V S F) (fieldValues : List V) (fileKey : F) : FieldIndex V S F :=
  fieldValues.foldl (fun ix value => ix.insertExpanded sc value fileKey) (ix.remove fileKey)

def rebuildNvt (ix : FieldIndex V S F) : FieldIndex V S F :=
  if ix.entries = [] then { ix with nvt := List.replicate sc.bucketCount ⟨0, 0⟩, dirty := false }
  else
    let found := Blocks.scan (fun entry => sc.bucketOf entry.scalar) ix.entries
    { ix with nvt := (List.range sc.bucketCount).map fun b => ⟨(found.starts b).getD 0, found.counts b⟩, dirty := false }

def ensureNvtCurrent (ix : FieldIndex V S F) : FieldIndex V S F := if ix.dirty then ix.rebuildNvt sc else ix

def bucketEntries (ix : FieldIndex V S F) (b : ℕ) : List (IndexEntry S F) :=
  let bucket := ix.nvt.getD b ⟨0, 0⟩
  if bucket.entryCount = 0 then [] else Blocks.slice ix.entries bucket.kvBlockOffset bucket.entryCount

def supportsScalarExactLookup (ix : FieldIndex V S F) : Bool :=
  ix.converter.typeTag ≠ .trigram ∧ ix.converter.typeTag ≠ .phonetic

def lookupStoredValuesExact (ix : FieldIndex V S F) (values : List V) : List F :=
  (ix.values.entries.filter fun stored => stored.2 ∈ values).map (·.1)

def lookupExact (ix : FieldIndex V S F) (value : V) : List (IndexEntry S F) :=
  let ix := ix.ensureNvtCurrent sc
  let target := ix.converter.toScalar value
  (ix.bucketEntries (sc.bucketOf target)).filter fun entry =>
    sc.close entry.scalar target &&
      match ix.values.get entry.fileHash with
      | some stored => stored.2 = value
      | none => true

def lookupBuckets (ix : FieldIndex V S F) (first last : ℕ) (accepts : V → Bool) (acceptsScalar : S → Bool) :
    List (IndexEntry S F) :=
  (((List.range' first (last + 1 - first)).takeWhile (· < sc.bucketCount)).flatMap ix.bucketEntries).filter fun entry =>
    match ix.values.get entry.fileHash with
    | some stored => accepts stored.2
    | none => acceptsScalar entry.scalar

variable [LinearOrder V]

def lookupRange (ix : FieldIndex V S F) (minValue maxValue : V) : EngineResult (List (IndexEntry S F)) :=
  if ix.converter.isOrderPreserving = false then .error (.rangeQueryNotSupported ix.converter.name)
  else
    let ix := ix.ensureNvtCurrent sc
    let minScalar := ix.converter.toScalar minValue
    let maxScalar := ix.converter.toScalar maxValue
    .ok (ix.lookupBuckets sc (sc.bucketOf minScalar) (sc.bucketOf maxScalar) (fun v => minValue ≤ v ∧ v ≤ maxValue)
      fun s => minScalar ≤ s ∧ s ≤ maxScalar)

def lookupGt (ix : FieldIndex V S F) (value : V) : EngineResult (List (IndexEntry S F)) :=
  if ix.converter.isOrderPreserving = false then .error (.rangeQueryNotSupported ix.converter.name)
  else
    let ix := ix.ensureNvtCurrent sc
    let target := ix.converter.toScalar value
    .ok (ix.lookupBuckets sc (sc.bucketOf target) (sc.bucketCount - 1) (fun v => value < v) fun s => target < s)

def lookupLt (ix : FieldIndex V S F) (value : V) : EngineResult (List (IndexEntry S F)) :=
  if ix.converter.isOrderPreserving = false then .error (.rangeQueryNotSupported ix.converter.name)
  else
    let ix := ix.ensureNvtCurrent sc
    let target := ix.converter.toScalar value
    .ok (ix.lookupBuckets sc 0 (sc.bucketOf target) (fun v => v < value) fun s => s < target)

def lookupByScalar (ix : FieldIndex V S F) (scalar : S) : List (IndexEntry S F) :=
  let ix := ix.ensureNvtCurrent sc
  (ix.bucketEntries (sc.bucketOf scalar)).filter fun entry => sc.near entry.scalar scalar

end FieldIndex

inductive IndexOp (V F : Type) where
  | update (fileKey : F) (fieldValues : List V)
  | remove (fileKey : F)
  | lookup
  deriving DecidableEq

section

variable [LinearOrder S] [DecidableEq F] (sc : Scale S)

def applyOp (ix : FieldIndex V S F) : IndexOp V F → FieldIndex V S F
  | .update fileKey fieldValues => ix.updateIndex sc fieldValues fileKey
  | .remove fileKey => ix.remove fileKey
  | .lookup => ix.ensureNvtCurrent sc

def runOps (ix : FieldIndex V S F) (ops : List (IndexOp V F)) : FieldIndex V S F := ops.foldl (applyOp sc) ix

def assignOp (current : F → List V) : IndexOp V F → F → List V
  | .update fileKey fieldValues => Function.update current fileKey fieldValues
  | .remove fileKey => Function.update current fileKey []
  | .lookup => current

def assigned (ops : List (IndexOp V F)) : F → List V := ops.foldl assignOp fun _ => []

variable (ix : FieldIndex V S F)
include ix

lemma insertExpanded_converter (v : V) (f : F) : (ix.insertExpanded sc v f).converter = ix.converter := by
  rw [FieldIndex.insertExpanded]
  induction ix.converter.expandValue v using List.reverseRecOn with
  | nil => rfl
  | append_singleton tokens token ih =>
    rw [List.foldl_append]
    exact ih

lemma ensureNvtCurrent_converter : (ix.ensureNvtCurrent sc).converter = ix.converter := by
  rw [FieldIndex.ensureNvtCurrent, FieldIndex.rebuildNvt]
  split_ifs <;> rfl

lemma applyOp_converter (op : IndexOp V F) : (applyOp sc ix op).converter = ix.converter := by
  cases op with
  | update f vs =>
    rw [applyOp, FieldIndex.updateIndex]
    induction vs using List.reverseRecOn with
    | nil => rfl
    | append_singleton vs v ih =>
      rw [List.foldl_append]
      exact (insertExpanded_converter sc _ v f).trans ih
  | remove f => rfl
  | lookup => exact ensureNvtCurrent_converter sc ix

lemma runOps_converter (ops : List (IndexOp V F)) : (runOps sc ix ops).converter = ix.converter := by
  induction ops using List.reverseRecOn with
  | nil => rfl
  | append_singleton ops op ih =>
    rw [runOps, List.foldl_append]
    exact (applyOp_converter sc _ op).trans ih

end

lemma countP_lt_spec (l : List ℕ) (s : ℕ) (h : l.Pairwise (· ≤ ·)) :
    (∀ x ∈ l.take (l.countP (· < s)), x ≤ s) ∧ ∀ x ∈ l.drop (l.countP (· < s)), s ≤ x := by
  induction l with
  | nil => simp
  | cons a l ih =>
    obtain ⟨hle, hl⟩ := pairwise_cons.mp h
    by_cases ha : a < s
    · simpa [ha, ha.le] using ih hl
    · have hzero : l.countP (· < s) = 0 := by
        rw [countP_eq_zero]
        intro x hx
        have hax := hle x hx
        simpa using (by omega : s ≤ x)
      simp only [countP_cons, ha, hzero, decide_false, take_zero, drop_zero]
      refine ⟨by simp, fun x hx => ?_⟩
      rcases mem_cons.mp hx with rfl | hx
      · exact not_lt.mp ha
      · exact (not_lt.mp ha).trans (hle x hx)

def natScale : Scale ℕ where
  bucketCount := 1024
  bucketOf s := min s 1023
  close s t := s = t
  near s t := s = t
  position l s := l.countP (· < s)
  bucketOf_lt s := by omega
  bucketOf_mono s t h := by
    dsimp only
    omega
  close_self s := by simp
  near_self s := by simp
  position_spec l s h := countP_lt_spec l s h

end AeorDb.Query
