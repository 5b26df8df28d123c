import AeorDb.Index.Store
import AeorDb.Store.Hashing
import AeorDb.Store.Paths

/-! The index that a scan of the log gives. -/

namespace AeorDb.Wal

open Library Store Index

def toKvType : EntryType → UInt8
  | .chunk => 0x0
  | .fileRecord => 0x1
  | .directoryIndex => 0x2
  | .deletionRecord => 0x3
  | .snapshot => 0x4
  | .void => 0x5
  | .fork => 0x7
  | .symlink => 0x9

structure RebuildOrder where
  timestamp : ℤ
  offset : ℕ
  deriving DecidableEq

def RebuildOrder.isAfter (a b : RebuildOrder) : Bool :=
  b.timestamp < a.timestamp || a.timestamp = b.timestamp && b.offset < a.offset

structure RebuildKvRecord (H : Type) where
  typeFlags : UInt8
  hash : H
  offset : ℕ
  valueLength : ℕ
  totalLength : ℕ
  order : RebuildOrder
  deriving DecidableEq

variable {H : Type}

def RebuildKvRecord.toKvEntry (r : RebuildKvRecord H) : KVEntry H := ⟨r.typeFlags, r.hash, r.offset, r.totalLength⟩

-- Of two directory records under one key, one with children is preferred to an empty one whatever their order.
def shouldReplaceRebuildRecord (existing candidate : RebuildKvRecord H) : Bool :=
  let directories := existing.typeFlags &&& 0x0F = toKvType .directoryIndex && candidate.typeFlags &&& 0x0F = toKvType .directoryIndex
  if directories && candidate.valueLength = 0 && 0 < existing.valueLength then false
  else if directories && 0 < candidate.valueLength && existing.valueLength = 0 then true
  else candidate.order.isAfter existing.order

abbrev RebuildKvRecords (H : Type) := Table (RebuildKvRecord.hash (H := H))

variable [DecidableEq H]

def resolveRebuildRecord (resolved : RebuildKvRecords H) (record : RebuildKvRecord H) : RebuildKvRecords H :=
  match resolved.get record.hash with
  | some existing => if shouldReplaceRebuildRecord existing record then resolved.insert record else resolved
  | none => resolved.insert record

def markRebuildRecordDeletedIfOlder (order : RebuildOrder) (records : RebuildKvRecords H) (key : H) : RebuildKvRecords H :=
  match records.get key with
  | some entry =>
    if order.isAfter entry.order then records.insert { entry with typeFlags := entry.typeFlags &&& 0x0F ||| kvFlagDeleted }
    else records
  | none => records

def deletionKeys (hs : Hasher H) (path : Str) : List H :=
  let normalized := normalizePath path
  [hs.filePathHash normalized, hs.directoryPathHash normalized, hs.symlinkPathHash normalized, hs.compute (.text path)]

def replayDeletionRecord (hs : Hasher H) (records : RebuildKvRecords H) (deletion : Str × RebuildOrder) : RebuildKvRecords H :=
  (deletionKeys hs deletion.1).foldl (markRebuildRecordDeletedIfOlder deletion.2) records

def resolveRebuildRecords (hs : Hasher H) (records : List (RebuildKvRecord H)) (deletions : List (Str × RebuildOrder)) :
    RebuildKvRecords H :=
  deletions.foldl (replayDeletionRecord hs) (records.foldl resolveRebuildRecord Table.empty)

variable {hs : Hasher H} {records : List (RebuildKvRecord H)}

def Placed (records : List (RebuildKvRecord H)) (resolved : RebuildKvRecords H) : Prop :=
  ∀ y ∈ resolved.entries, ∃ r ∈ records, r.hash = y.hash ∧ r.offset = y.offset ∧ r.totalLength = y.totalLength

variable {resolved : RebuildKvRecords H}

lemma Placed.insert (h : Placed records resolved) {z : RebuildKvRecord H}
    (hz : ∃ r ∈ records, r.hash = z.hash ∧ r.offset = z.offset ∧ r.totalLength = z.totalLength) : Placed records (resolved.insert z) := by
  intro y hy
  rcases Table.mem_insert.mp hy with rfl | hy
  · exact hz
  · exact h y hy.1

lemma Placed.resolve (h : Placed records resolved) {r : RebuildKvRecord H} (hr : r ∈ records) :
    Placed records (resolveRebuildRecord resolved r) := by
  have hinsert := h.insert (z := r) ⟨r, hr, rfl, rfl, rfl⟩
  unfold resolveRebuildRecord
  split
  · split_ifs
    · exact hinsert
    · exact h
  · exact hinsert

lemma Placed.mark (h : Placed records resolved) (order : RebuildOrder) (key : H) :
    Placed records (markRebuildRecordDeletedIfOlder order resolved key) := by
  unfold markRebuildRecordDeletedIfOlder
  split
  · next entry hget =>
    split_ifs
    · exact h.insert (h entry (Table.get_eq_some.mp hget).1)
    · exact h
  · exact h

lemma Placed.replay (h : Placed records resolved) (deletion : Str × RebuildOrder) :
    Placed records (replayDeletionRecord hs resolved deletion) := by
  unfold replayDeletionRecord
  generalize deletionKeys hs deletion.1 = keys
  induction keys generalizing resolved with
  | nil => exact h
  | cons key keys ih => exact ih (h.mark _ key)

lemma placed_resolveRebuildRecords (hs : Hasher H) (records : List (RebuildKvRecord H)) (deletions : List (Str × RebuildOrder)) :
    Placed records (resolveRebuildRecords hs records deletions) := by
  have hscan : ∀ rs : List (RebuildKvRecord H), (∀ r ∈ rs, r ∈ records) → ∀ resolved, Placed records resolved →
      Placed records (rs.foldl resolveRebuildRecord resolved) := by
    intro rs
    induction rs with
    | nil => exact fun _ _ h => h
    | cons r rs ih =>
      intro hsub resolved h
      obtain ⟨hr, hrs⟩ := List.forall_mem_cons.mp hsub
      exact ih hrs _ (h.resolve hr)
  have hstart : Placed records (records.foldl resolveRebuildRecord Table.empty) :=
    hscan records (fun _ h => h) _ fun _ hy => absurd hy List.not_mem_nil
  unfold resolveRebuildRecords
  generalize records.foldl resolveRebuildRecord Table.empty = resolved at hstart
  induction deletions generalizing resolved with
  | nil => exact hstart
  | cons d deletions ih => exact ih _ (hstart.replay d)

end AeorDb.Wal
