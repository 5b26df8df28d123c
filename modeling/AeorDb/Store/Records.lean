import Mathlib

/-! Records kept in the log. The bytes of a record are represented by the values they decode to: a
serializer returns the canonical form of its record, so two records share it iff they share their bytes. -/

namespace AeorDb.Store

abbrev Str := List Char

instance lawfulBEqStr : LawfulBEq Str := inferInstance

def utf8Len (s : Str) : ℕ := (s.map Char.utf8Size).sum

def u16Max : ℕ := 65535
def u32Max : ℕ := 4294967295

inductive EngineError where
  | notFound (what : String)
  | alreadyExists (what : String)
  | invalidInput (reason : String)
  | corruptEntry (offset : ℕ) (reason : String)
  | snapshotWritesDisabled
  | ioError (reason : String)
  | jsonParseError (reason : String)
  | rangeQueryNotSupported (converter : String)
  deriving DecidableEq

def tooLong (what : String) (bytes : ℕ) : EngineError :=
  .invalidInput (what ++ " too long: " ++ toString bytes ++ " bytes exceeds u16 max (65535)")

abbrev EngineResult (α : Type) := Except EngineError α

inductive EntryType where
  | chunk | fileRecord | directoryIndex | deletionRecord | snapshot | void | fork | symlink
  deriving DecidableEq

structure ChildEntry (H : Type) where
  entryType : EntryType
  hash : H
  totalSize : ℕ
  createdAt : ℤ
  updatedAt : ℤ
  name : Str
  contentType : Option Str
  virtualTime : ℕ
  nodeId : ℕ
  deriving DecidableEq

def storedContentType (contentType : Option Str) : Option Str :=
  contentType.filter (· ≠ [])

namespace ChildEntry

variable {H : Type}

def stored (c : ChildEntry H) : ChildEntry H :=
  { c with contentType := storedContentType c.contentType }

def serialize (c : ChildEntry H) : EngineResult (ChildEntry H) :=
  if u16Max < utf8Len c.name then .error (tooLong "Name" (utf8Len c.name))
  else if u16Max < utf8Len (c.contentType.getD []) then
    .error (tooLong "Content type" (utf8Len (c.contentType.getD [])))
  else .ok c.stored

structure Encodable (c : ChildEntry H) : Prop where
  name_fits : utf8Len c.name ≤ u16Max
  contentType_fits : utf8Len (c.contentType.getD []) ≤ u16Max
  contentType_ne : c.contentType ≠ some []

instance (c : ChildEntry H) : Decidable c.Encodable :=
  decidable_of_iff (utf8Len c.name ≤ u16Max ∧ utf8Len (c.contentType.getD []) ≤ u16Max ∧ c.contentType ≠ some [])
    ⟨fun h => ⟨h.1, h.2.1, h.2.2⟩, fun h => ⟨h.1, h.2, h.3⟩⟩

@[simp] lemma stored_name (c : ChildEntry H) : c.stored.name = c.name := rfl

section

variable (c : ChildEntry H)
include c

lemma stored_contentType_ne : c.stored.contentType ≠ some [] := by
  intro h
  simpa [stored, storedContentType] using (Option.filter_eq_some_iff.mp h).2

lemma stored_eq_self (h : c.contentType ≠ some []) : c.stored = c := by
  have ht : storedContentType c.contentType = c.contentType := by
    rcases hc : c.contentType with _ | t
    · rfl
    · have hne : t ≠ [] := fun ht => h (by rw [hc, ht])
      simp [storedContentType, hne]
  simp [stored, ht]

lemma stored_contentType_getD : c.stored.contentType.getD [] = c.contentType.getD [] := by
  rcases hc : c.contentType with _ | _ | ⟨a, t⟩ <;> simp [stored, storedContentType, hc, Option.filter]

lemma encodable_stored (hn : utf8Len c.name ≤ u16Max) (ht : utf8Len (c.contentType.getD []) ≤ u16Max) :
    c.stored.Encodable :=
  ⟨hn, c.stored_contentType_getD ▸ ht, c.stored_contentType_ne⟩

lemma serialize_stored : c.stored.serialize = c.serialize := by
  have hidem : c.stored.stored = c.stored := stored_eq_self _ (stored_contentType_ne c)
  simp only [serialize, hidem, stored_name, stored_contentType_getD]

lemma serialize_of_encodable (h : c.Encodable) : c.serialize = .ok c := by
  simp [serialize, h.name_fits.not_gt, h.contentType_fits.not_gt, stored_eq_self c h.contentType_ne]

end

lemma serialize_ok (c d : ChildEntry H) (h : c.serialize = .ok d) :
    utf8Len c.name ≤ u16Max ∧ utf8Len (c.contentType.getD []) ≤ u16Max ∧ d = c.stored := by
  unfold serialize at h
  split_ifs at h with hn ht
  exact ⟨by omega, by omega, by simpa using h.symm⟩

end ChildEntry

def serializeChildEntries {H : Type} (cs : List (ChildEntry H)) : EngineResult (List (ChildEntry H)) :=
  cs.mapM ChildEntry.serialize

structure FileRecord (H : Type) where
  path : Str
  contentType : Option Str
  totalSize : ℕ
  createdAt : ℤ
  updatedAt : ℤ
  metadata : List UInt8
  contentHash : H
  chunkHashes : List H
  deriving DecidableEq

def FileRecord.serialize {H : Type} (r : FileRecord H) : EngineResult (FileRecord H) :=
  if u16Max < utf8Len r.path then .error (tooLong "Path" (utf8Len r.path))
  else if u16Max < utf8Len (r.contentType.getD []) then
    .error (tooLong "Content type" (utf8Len (r.contentType.getD [])))
  else if u32Max < r.metadata.length then
    .error (.invalidInput ("Metadata too large: " ++ toString r.metadata.length ++ " bytes exceeds u32 max"))
  else if u32Max < r.chunkHashes.length then
    .error (.invalidInput ("Too many chunk hashes: " ++ toString r.chunkHashes.length ++ " exceeds u32 max"))
  else .ok { r with contentType := storedContentType r.contentType }

structure SymlinkRecord where
  path : Str
  target : Str
  createdAt : ℤ
  updatedAt : ℤ
  deriving DecidableEq

def SymlinkRecord.serialize (r : SymlinkRecord) : EngineResult SymlinkRecord :=
  if u16Max < utf8Len r.path then .error (tooLong "Path" (utf8Len r.path))
  else if u16Max < utf8Len r.target then .error (tooLong "Target" (utf8Len r.target))
  else .ok r

structure DeletionRecord where
  path : Str
  deletedAt : ℤ
  reason : Option Str
  deriving DecidableEq

structure SnapshotInfo (H : Type) where
  name : Str
  rootHash : Option H
  createdAt : ℤ
  metadata : List (Str × Str)
  deriving DecidableEq

structure ForkInfo (H : Type) where
  name : Str
  rootHash : Option H
  createdAt : ℤ
  deriving DecidableEq

inductive BTreeNode (H : Type) where
  | leaf (entries : List (ChildEntry H))
  | internal (keys : List Str) (children : List H)
  deriving DecidableEq

inductive DirData (H : Type) where
  | flat (entries : List (ChildEntry H))
  | node (root : BTreeNode H)
  deriving DecidableEq

inductive Value (H : Type) where
  | chunk (bytes : List UInt8)
  | file (record : FileRecord H)
  | link (target : H)
  | dir (data : DirData H)
  | symlink (record : SymlinkRecord)
  | deletion (record : DeletionRecord)
  | snapshot (info : SnapshotInfo H)
  | fork (info : ForkInfo H)
  deriving DecidableEq

end AeorDb.Store
