import AeorDb.Store.Hashing

namespace AeorDb.Store

structure LogEntry (H : Type) where
  entryType : EntryType
  key : H
  value : Value H
  timestamp : ℤ
  deriving DecidableEq

structure IndexEntry where
  offset : ℕ
  deleted : Bool
  deriving DecidableEq

/-- The append-only log with its index. `head = none` is the all-zero HEAD of a new file; `clock` gives
the readings of the system clock in the order in which they are taken. -/
structure Engine (H : Type) where
  log : List (LogEntry H)
  index : H → Option IndexEntry
  head : Option H
  updatedAt : ℤ
  lastAutoSnapshotDelete : ℤ
  snapshotWritesEnabled : Bool
  clock : ℕ → ℤ
  ticks : ℕ
  indexed : ∀ h i, index h = some i → ∃ r, log[i.offset]? = some r ∧ r.key = h

abbrev EngineM (H : Type) := EStateM EngineError (Engine H)

abbrev WriteBatch (H : Type) := List (EntryType × H × Value H)

namespace Engine

variable {H : Type}

def empty (clock : ℕ → ℤ) : Engine H where
  log := []
  index := fun _ => none
  head := none
  updatedAt := 0
  lastAutoSnapshotDelete := 0
  snapshotWritesEnabled := true
  clock := clock
  ticks := 0
  indexed := by simp

def getRaw (e : Engine H) (h : H) : Option (LogEntry H) :=
  (e.index h).bind fun i => e.log[i.offset]?

def getEntry (e : Engine H) (h : H) : Option (LogEntry H) :=
  (e.index h).bind fun i => if i.deleted then none else e.log[i.offset]?

def get (e : Engine H) (h : H) : Option (Value H) :=
  (e.getEntry h).map LogEntry.value

def hasEntry (e : Engine H) (h : H) : Bool := (e.getEntry h).isSome

def isEntryDeleted (e : Engine H) (h : H) : Bool := (e.index h).any IndexEntry.deleted

def now (e : Engine H) : ℤ := e.clock e.ticks

def tick (e : Engine H) : Engine H := { e with ticks := e.ticks + 1 }

def nextEntryTimestamp (e : Engine H) : ℤ :=
  if e.now ≤ e.updatedAt then e.updatedAt + 1 else e.now

def updateHead (e : Engine H) (h : Option H) : Engine H :=
  { e with head := h, updatedAt := e.now, ticks := e.ticks + 1 }

variable [DecidableEq H]

def storeEntry (e : Engine H) (t : EntryType) (k : H) (v : Value H) : Engine H :=
  { e with
    log := e.log ++ [⟨t, k, v, e.nextEntryTimestamp⟩]
    index := Function.update e.index k (some ⟨e.log.length, false⟩)
    updatedAt := e.nextEntryTimestamp
    ticks := e.ticks + 1
    indexed := by
      intro h i hi
      by_cases hk : h = k
      · subst hk
        simp only [Function.update_self, Option.some.injEq] at hi
        subst hi
        exact ⟨⟨t, h, v, e.nextEntryTimestamp⟩, by simp, rfl⟩
      · rw [Function.update_of_ne hk] at hi
        obtain ⟨r, hr, hkey⟩ := e.indexed h i hi
        refine ⟨r, ?_, hkey⟩
        rw [List.getElem?_append_left (List.getElem?_eq_some_iff.mp hr).1, hr] }

def markDeleted (e : Engine H) (k : H) : Engine H :=
  { e with
    index := Function.update e.index k ((e.index k).map fun i => { i with deleted := true })
    indexed := by
      intro h i hi
      by_cases hk : h = k
      · subst hk
        simp only [Function.update_self, Option.map_eq_some_iff] at hi
        obtain ⟨j, hj, rfl⟩ := hi
        exact e.indexed h j hj
      · rw [Function.update_of_ne hk] at hi
        exact e.indexed h i hi }

def flushBatch (e : Engine H) (batch : WriteBatch H) : Engine H :=
  batch.foldl (fun e w => e.storeEntry w.1 w.2.1 w.2.2) e

def flushBatchAndUpdateHead (e : Engine H) (batch : WriteBatch H) (h : H) : Engine H :=
  (e.flushBatch batch).updateHead (some h)

lemma getEntry_storeEntry (e : Engine H) (t : EntryType) (k : H) (v : Value H) (h : H) : (e.storeEntry t k v).getEntry h =
      if h = k then some ⟨t, k, v, e.nextEntryTimestamp⟩ else e.getEntry h := by
  by_cases hk : h = k
  · simp [getEntry, storeEntry, hk]
  · simp only [getEntry, storeEntry, Function.update_of_ne hk, if_neg hk]
    rcases hi : e.index h with _ | i
    · rfl
    · obtain ⟨r, hr, _⟩ := e.indexed h i hi
      simp [List.getElem?_append_left (List.getElem?_eq_some_iff.mp hr).1]

@[simp] lemma get_storeEntry (e : Engine H) (t : EntryType) (k : H) (v : Value H) (h : H) :
    (e.storeEntry t k v).get h = if h = k then some v else e.get h := by
  by_cases hk : h = k <;> simp [get, getEntry_storeEntry, hk]

lemma getEntry_markDeleted (e : Engine H) (k h : H) : (e.markDeleted k).getEntry h = if h = k then none else e.getEntry h := by
  by_cases hk : h = k
  · subst hk
    rcases hi : e.index h with _ | i <;> simp [getEntry, markDeleted, hi]
  · simp [getEntry, markDeleted, hk]

@[simp] lemma get_markDeleted (e : Engine H) (k h : H) : (e.markDeleted k).get h = if h = k then none else e.get h := by
  by_cases hk : h = k <;> simp [get, getEntry_markDeleted, hk]

@[simp] lemma head_storeEntry (e : Engine H) (t : EntryType) (k : H) (v : Value H) : (e.storeEntry t k v).head = e.head := rfl

omit [DecidableEq H]

@[simp] lemma get_updateHead (e : Engine H) (r : Option H) (h : H) : (e.updateHead r).get h = e.get h := rfl

@[simp] lemma get_tick (e : Engine H) (h : H) : e.tick.get h = e.get h := rfl

lemma getEntry_key (e : Engine H) (h : H) (r : LogEntry H) (hr : e.getEntry h = some r) : r.key = h := by
  obtain ⟨i, hi, hr⟩ := Option.bind_eq_some_iff.mp hr
  obtain ⟨s, hs, hkey⟩ := e.indexed h i hi
  split at hr
  · cases hr
  · rw [hs, Option.some.injEq] at hr
    exact hr ▸ hkey

lemma getEntry_mem_log (e : Engine H) (h : H) (r : LogEntry H) (hr : e.getEntry h = some r) : r ∈ e.log := by
  obtain ⟨i, _, hr⟩ := Option.bind_eq_some_iff.mp hr
  split at hr
  · cases hr
  · exact List.mem_of_getElem? hr

lemma hasEntry_iff (e : Engine H) (h : H) : e.hasEntry h = true ↔ ∃ v, e.get h = some v := by
  simp [hasEntry, get, Option.isSome_iff_exists]

lemma hasEntry_congr {e e' : Engine H} {h h' : H} (hget : e'.get h' = e.get h) : e'.hasEntry h' = e.hasEntry h := by
  rw [Bool.eq_iff_iff, hasEntry_iff, hasEntry_iff, hget]

end Engine

end AeorDb.Store
