import AeorDb.Index.Runs
import AeorDb.Index.Snapshot
import AeorDb.Library.Trace
import AeorDb.Wal.Space

/-! The calls of the index besides insertion, and what every sequence of calls keeps. -/

namespace AeorDb.Index

open AeorDb.Library AeorDb.Store AeorDb.Wal

variable {H : Type} [DecidableEq H] (layout : Layout H)

namespace DiskKVStore

def maskVoided (voids : List VoidRecord) (acc : Entries H × ℕ) (e : KVEntry H) : Entries H × ℕ :=
  if acc.1.contains e.hash then acc
  else if HotIndex.entryOverlapsVoidRanges (HotIndex.buildMergedVoidRanges voids) e then
    (acc.1.insert (HotIndex.markedDeleted e), acc.2 + 1)
  else acc

def pageEntries (pages : ℕ → Page H) (bucketCount : ℕ) : List (KVEntry H) :=
  (List.range bucketCount).flatMap fun b => (pages b).entries

def opened (kvBlockOffset hotTailOffset stage : ℕ) (pages : ℕ → Page H) (hotEntries : List (KVEntry H)) (hotVoids : List VoidRecord) :
    DiskKVStore H :=
  let stage := min stage (kvStageSizes.length - 1)
  let (blockSize, bucketCount) := stageParams stage (pageSize layout.hashLength)
  let entryCount := ((List.range bucketCount).map fun b => (pages b).entries.length).sum
  let hot : Entries H := Table.empty.insertAll hotEntries
  let (writeBuffer, voided) := (pageEntries pages bucketCount).foldl (maskVoided hotVoids) (hot, 0)
  let effective := entryCount - voided + hot.entries.length
  { writeBuffer := writeBuffer
    pages := pages
    kvBlockOffset := kvBlockOffset
    kvBlockLength := blockSize
    hotTailOffset := hotTailOffset
    stage := stage
    bucketCount := bucketCount
    entryCount := effective
    snapshot := .new writeBuffer bucketCount bucketCount effective ((List.range bucketCount).map pages)
    sharedNvt := bucketCount
    needsExpansion := none
    iterations := 0 }

def markDeleted (s : DiskKVStore H) (h : H) : DiskKVStore H :=
  match s.get layout h with
  | none => s
  | some e =>
    { s with
      writeBuffer := s.writeBuffer.insert (HotIndex.markedDeleted e)
      entryCount := s.entryCount - 1 }.publishBufferOnly

def markFrom (snapshot : ReadSnapshot H) (s : DiskKVStore H) (h : H) : DiskKVStore H :=
  match (s.writeBuffer.get h).or (snapshot.getRaw layout h) with
  | none => s
  | some e =>
    if e.isDeleted then s
    else
      { s with
        writeBuffer := s.writeBuffer.insert (HotIndex.markedDeleted e)
        entryCount := s.entryCount - 1 }

def markDeletedBatch (s : DiskKVStore H) (hashes : List H) : DiskKVStore H :=
  (hashes.foldl (markFrom layout s.snapshot) s).publishBufferOnly

def withFlags (e : KVEntry H) (newFlags : UInt8) : KVEntry H :=
  { e with typeFlags := (e.typeFlags &&& 0x0F) ||| (newFlags &&& 0xF0) }

def updateFlags (s : DiskKVStore H) (h : H) (newFlags : UInt8) : DiskKVStore H × Bool :=
  match s.get layout h with
  | none => (s, false)
  | some e => ({ s with writeBuffer := s.writeBuffer.insert (withFlags e newFlags) }.publishBufferOnly, true)

inductive Call (H : Type) where
  | openStore (hotTailOffset : ℕ) (hotEntries : List (KVEntry H)) (hotVoids : List VoidRecord)
  | insert (e : KVEntry H)
  | bulkInsert (es : List (KVEntry H))
  | updateFlags (h : H) (newFlags : UInt8)
  | markDeleted (h : H)
  | markDeletedBatch (hashes : List H)
  | flush

def call (s : DiskKVStore H) : Call H → StoreResult H
  | .openStore hotTailOffset hotEntries hotVoids =>
    .ok () (opened layout s.kvBlockOffset hotTailOffset s.stage s.pages hotEntries hotVoids)
  | .insert e => s.insert layout e
  | .bulkInsert es => .ok () (s.bulkInsert layout es)
  | .updateFlags h newFlags => .ok () (s.updateFlags layout h newFlags).1
  | .markDeleted h => .ok () (s.markDeleted layout h)
  | .markDeletedBatch hashes => .ok () (s.markDeletedBatch layout hashes)
  | .flush => s.flush layout

def runCalls : List (Call H) → DiskKVStore H → StoreResult H
  | [], s => .ok () s
  | c :: cs, s =>
    match s.call layout c with
    | .ok _ s' => runCalls cs s'
    | .error err s' => .error err s'

def written (s : DiskKVStore H) : DiskKVStore H := (s.writePages layout).publishSnapshotIncremental (s.modifiedBuckets layout)

def writtenKept (s : DiskKVStore H) : DiskKVStore H :=
  (({ s.written layout with needsExpansion := some s.nextStage }.bufferOverflow (s.overflowEntries layout)).publishSnapshotIncremental
    (s.modifiedBuckets layout)).publishBufferOnly

lemma flushFrom_cases {s : DiskKVStore H} (hs : s.SizedToStage layout) (fuel : ℕ) :
    s.writeBuffer.entries = [] ∧ s.flushFrom layout fuel = .ok () s ∨
    s.writeBuffer.entries ≠ [] ∧ s.overflowEntries layout = [] ∧ s.flushFrom layout fuel = .ok () (s.written layout) ∨
    s.writeBuffer.entries ≠ [] ∧ s.flushFrom layout fuel = .ok () (s.writtenKept layout) ∨
    s.writeBuffer.entries ≠ [] ∧ ∃ err, s.flushFrom layout fuel = .error err (s.written layout) := by
  unfold flushFrom
  by_cases hempty : s.writeBuffer.entries = []
  · exact .inl ⟨hempty, by simp [hempty]⟩
  refine .inr ?_
  by_cases hover : s.overflowEntries layout = []
  · exact .inl ⟨hempty, hover, by simp [hempty, hover, written]⟩
  refine .inr ?_
  have hsized : (s.written layout).SizedToStage layout := hs
  by_cases hstage : s.nextStage = s.stage
  · have hresize : (s.written layout).resizeToNextStage layout =
        .error (.ioError "KV store at maximum stage — cannot resize further") (s.written layout) := if_pos hstage
    refine .inr ⟨hempty, .ioError "KV store at maximum stage — cannot resize further", ?_⟩
    rw [written] at hresize
    simp [hempty, hover, hresize, written]
  · have hfit := not_fitsInPlace_of_sized layout hsized hstage
    have hresize : (s.written layout).resizeToNextStage layout =
        .ok () { s.written layout with needsExpansion := some s.nextStage } := by
      refine (if_neg hstage).trans (if_pos ?_)
      exact Nat.lt_of_not_le hfit
    refine .inl ⟨hempty, ?_⟩
    rw [written] at hresize
    have hsame : ¬ (s.written layout).stage > s.stage := lt_irrefl _
    simp only [written] at hsame
    simp [hempty, hover, hresize, hsame, writtenKept, written]

structure WellKept (s : DiskKVStore H) : Prop where
  placed : s.Placed layout
  sized : s.SizedToStage layout
  bucketCount_eq : s.bucketCount = (stageParams s.stage (pageSize layout.hashLength)).2
  sharedNvt_eq : s.sharedNvt = s.bucketCount
  sound : s.snapshot.Sound layout s.bucketCount

variable {layout} {s : DiskKVStore H}

omit [DecidableEq H] in
lemma nodup_modifiedBuckets (layout : Layout H) (s : DiskKVStore H) : (s.modifiedBuckets layout).Nodup := List.nodup_dedup _

omit [DecidableEq H] in
lemma wellKept_create (kvBlockOffset hotTailOffset stage : ℕ) : (create layout kvBlockOffset hotTailOffset stage).WellKept layout := by
  refine ⟨placed_create layout _ _ _, ⟨Nat.lt_of_le_of_lt (Nat.min_le_right _ _) (by decide), rfl⟩, rfl, rfl, ?_⟩
  let n := (create layout kvBlockOffset hotTailOffset stage).bucketCount
  have hempty : ∀ b < n, ∀ e ∈ (Page.empty : Page H).entries, layout.bucketFor e.hash n = b := fun b _ e he => absurd he List.not_mem_nil
  have hsound := sound_new hempty ⟨[], List.nodup_nil⟩ 0
  rwa [List.map_const', List.length_range] at hsound

lemma wellKept_opened {kvBlockOffset hotTailOffset stage : ℕ} {pages : ℕ → Page H} {hotEntries : List (KVEntry H)} {hotVoids : List VoidRecord}
    (hpages : ∀ b < (opened layout kvBlockOffset hotTailOffset stage pages hotEntries hotVoids).bucketCount, ∀ e ∈ (pages b).entries,
      layout.bucketFor e.hash (opened layout kvBlockOffset hotTailOffset stage pages hotEntries hotVoids).bucketCount = b) :
    (opened layout kvBlockOffset hotTailOffset stage pages hotEntries hotVoids).WellKept layout :=
  ⟨⟨buckets_pos layout _, hpages⟩, ⟨Nat.lt_of_le_of_lt (Nat.min_le_right _ _) (by decide), rfl⟩, rfl, rfl, sound_new hpages _ _⟩

section

variable (hs : s.WellKept layout)
include hs

lemma bucketCount_opened (hotTailOffset : ℕ) (hotEntries : List (KVEntry H)) (hotVoids : List VoidRecord) :
    (opened layout s.kvBlockOffset hotTailOffset s.stage s.pages hotEntries hotVoids).bucketCount = s.bucketCount := by
  have hstage : min s.stage (kvStageSizes.length - 1) = s.stage := Nat.min_eq_left (Nat.le_sub_one_of_lt hs.sized.1)
  rw [hs.bucketCount_eq, ← congrArg (fun stage => (stageParams stage (pageSize layout.hashLength)).2) hstage]
  rfl

lemma wellKept_written : (s.written layout).WellKept layout := by
  have hplaced := placed_writePages layout hs.placed
  refine ⟨⟨hplaced.bucketCount_pos, hplaced.bucketFor_eq⟩, hs.sized, hs.bucketCount_eq, rfl, ?_⟩
  have hsound : (s.writePages layout).snapshot.Sound layout (s.writePages layout).bucketCount := hs.sound
  exact sound_publishSnapshotIncremental hsound hplaced.bucketFor_eq (nodup_modifiedBuckets layout s)

lemma wellKept_writtenKept : (s.writtenKept layout).WellKept layout := by
  have hw := wellKept_written hs
  refine ⟨⟨hw.placed.bucketCount_pos, hw.placed.bucketFor_eq⟩, hw.sized, hw.bucketCount_eq, rfl, ?_⟩
  let t := { s.written layout with needsExpansion := some s.nextStage }.bufferOverflow (s.overflowEntries layout)
  have hagain : (t.publishSnapshotIncremental (s.modifiedBuckets layout)).snapshot.Sound layout t.bucketCount :=
    sound_publishSnapshotIncremental (s := t) hw.sound hw.placed.bucketFor_eq (nodup_modifiedBuckets layout s)
  exact sound_publishBufferOnly (s := t.publishSnapshotIncremental (s.modifiedBuckets layout)) hagain rfl

lemma wellKept_flushFrom (fuel : ℕ) : (Trace.final (s.flushFrom layout fuel)).WellKept layout := by
  rcases flushFrom_cases layout hs.sized fuel with ⟨_, h⟩ | ⟨_, _, h⟩ | ⟨_, h⟩ | ⟨_, err, h⟩
  · rw [h]
    exact hs
  · rw [h]
    exact wellKept_written hs
  · rw [h]
    exact wellKept_writtenKept hs
  · rw [h]
    exact wellKept_written hs

end

omit [DecidableEq H] in
lemma WellKept.buffered (hs : s.WellKept layout) (buffer : Entries H) (entryCount : ℕ) :
    { s with writeBuffer := buffer, entryCount := entryCount }.WellKept layout :=
  ⟨⟨hs.placed.bucketCount_pos, hs.placed.bucketFor_eq⟩, hs.sized, hs.bucketCount_eq, hs.sharedNvt_eq, hs.sound⟩

omit [DecidableEq H] in
lemma WellKept.published (hs : s.WellKept layout) : s.publishBufferOnly.WellKept layout := by
  refine ⟨⟨hs.placed.bucketCount_pos, hs.placed.bucketFor_eq⟩, hs.sized, hs.bucketCount_eq, hs.sharedNvt_eq, ?_⟩
  have hsound := sound_publishBufferOnly hs.sound hs.sharedNvt_eq
  exact hsound

section

variable (hs : s.WellKept layout)
include hs

lemma wellKept_bulkInsertOne (e : KVEntry H) : (s.bulkInsertOne layout e).WellKept layout := by
  have hb : (s.bufferEntry layout e).WellKept layout := hs.buffered _ _
  rw [bulkInsertOne]
  split_ifs
  · rw [flushNoSnapshot]
    split_ifs
    · exact hb
    · exact ⟨placed_writePages layout hb.placed, hb.sized, hb.bucketCount_eq, hb.sharedNvt_eq, hb.sound⟩
  · exact hb

lemma wellKept_bulkInsert (es : List (KVEntry H)) : (s.bulkInsert layout es).WellKept layout := by
  induction es generalizing s with
  | nil => exact hs
  | cons e es ih => exact ih (wellKept_bulkInsertOne hs e)

lemma wellKept_markFrom (r : ReadSnapshot H) (h : H) : (markFrom layout r s h).WellKept layout := by
  rw [markFrom]
  split
  · exact hs
  · split_ifs
    · exact hs
    · exact hs.buffered _ _

lemma wellKept_foldl_markFrom (r : ReadSnapshot H) (hashes : List H) :
    (hashes.foldl (markFrom layout r) s).WellKept layout := by
  induction hashes generalizing s with
  | nil => exact hs
  | cons h hashes ih => exact ih (wellKept_markFrom hs r h)

lemma wellKept_call (c : Call H) : (Trace.final (s.call layout c)).WellKept layout := by
  cases c with
  | openStore hotTailOffset hotEntries hotVoids =>
    apply wellKept_opened
    rw [bucketCount_opened hs]
    exact hs.placed.bucketFor_eq
  | insert e =>
    have hb : (s.bufferEntry layout e).WellKept layout := hs.buffered _ _
    change (Trace.final (s.insert layout e)).WellKept layout
    rw [DiskKVStore.insert]
    split_ifs
    · exact wellKept_flushFrom hb _
    · exact hb.published
  | bulkInsert es => exact wellKept_bulkInsert hs es
  | updateFlags h newFlags =>
    change (s.updateFlags layout h newFlags).1.WellKept layout
    rw [updateFlags]
    split
    · exact hs
    · exact (hs.buffered _ s.entryCount).published
  | markDeleted h =>
    change (s.markDeleted layout h).WellKept layout
    rw [markDeleted]
    split
    · exact hs
    · exact (hs.buffered _ _).published
  | markDeletedBatch hashes => exact (wellKept_foldl_markFrom hs _ hashes).published
  | flush => exact wellKept_flushFrom hs _

end

variable (layout) in
/-- The stores that calls can lead to, failing calls included. A file may be opened with any pages that hold hashes of their buckets. -/
inductive Reachable : DiskKVStore H → Prop
  | create (kvBlockOffset hotTailOffset stage : ℕ) : Reachable (create layout kvBlockOffset hotTailOffset stage)
  | opened (kvBlockOffset hotTailOffset stage : ℕ) (pages : ℕ → Page H) (hotEntries : List (KVEntry H)) (hotVoids : List VoidRecord)
      (hpages : ∀ b < (opened layout kvBlockOffset hotTailOffset stage pages hotEntries hotVoids).bucketCount, ∀ e ∈ (pages b).entries,
        layout.bucketFor e.hash (opened layout kvBlockOffset hotTailOffset stage pages hotEntries hotVoids).bucketCount = b) :
      Reachable (opened layout kvBlockOffset hotTailOffset stage pages hotEntries hotVoids)
  | call {s : DiskKVStore H} (hs : Reachable s) (c : Call H) : Reachable (Trace.final (s.call layout c))

lemma Reachable.wellKept (hs : Reachable layout s) : s.WellKept layout := by
  induction hs with
  | create kvBlockOffset hotTailOffset stage => exact wellKept_create _ _ _
  | opened kvBlockOffset hotTailOffset stage pages hotEntries hotVoids hpages => exact wellKept_opened hpages
  | call _ c ih => exact wellKept_call ih c

end DiskKVStore

end AeorDb.Index
