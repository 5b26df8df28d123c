import AeorDb.Index.Calls

/-! What readers notice of a flush. -/

namespace AeorDb.Index.DiskKVStore

open AeorDb.Library AeorDb.Store List ReadSnapshot

variable {H : Type} [DecidableEq H] {layout : Layout H} {s : DiskKVStore H}

omit [DecidableEq H] in
lemma mem_modifiedBuckets {b : ℕ} :
    b ∈ s.modifiedBuckets layout ↔ ∃ e ∈ s.writeBuffer.entries, layout.bucketFor e.hash s.bucketCount = b := by
  simp [modifiedBuckets, mem_bufferEntries]

lemma lookup_written (hover : s.overflowEntries layout = []) (h : H) : (s.written layout).lookup layout h = s.lookup layout h := by
  rw [← s.lookup_writePages layout h, hover]
  rfl

lemma getRaw_written (hs : s.WellKept layout) (hover : s.overflowEntries layout = []) (h : H) :
    (s.written layout).snapshot.getRaw layout h =
      if layout.bucketFor h s.bucketCount ∈ s.modifiedBuckets layout then s.lookup layout h else s.snapshot.readFromDisk layout h true := by
  have hb := layout.bucketFor_lt h s.bucketCount hs.placed.bucketCount_pos
  obtain ⟨old, hold⟩ : ∃ old, s.snapshot.pages[layout.bucketFor h s.bucketCount]? = some old :=
    ⟨_, getElem?_eq_getElem (hb.trans_eq hs.sound.length_pages.symm)⟩
  have hpage : (s.written layout).snapshot.pages[layout.bucketFor h s.bucketCount]? =
      some (if layout.bucketFor h s.bucketCount ∈ s.modifiedBuckets layout then
        (s.writePages layout).pages (layout.bucketFor h s.bucketCount) else old) := by
    refine (getElem?_reread _ _ _ _).trans ?_
    rw [show (s.writePages layout).snapshot.pages = s.snapshot.pages from rfl, hold]
    rfl
  have hbuffer : (s.written layout).snapshot.buffer.get h = none := Table.get_empty h
  have hlookup : ((s.writePages layout).pages (layout.bucketFor h s.bucketCount)).get h = s.lookup layout h := lookup_written hover h
  rw [getRaw, hbuffer, Option.none_or, readFromDisk_true (wellKept_written hs).sound,
    show (s.written layout).bucketCount = s.bucketCount from rfl, hpage, readFromDisk_true hs.sound, hold]
  split_ifs
  · exact hlookup
  · rfl

def UpToDate (layout : Layout H) (s : DiskKVStore H) : Prop :=
  s.writeBuffer.entries = [] ∨ ∀ h, s.snapshot.getRaw layout h =
    if ∃ e ∈ s.writeBuffer.entries, layout.bucketFor e.hash s.bucketCount = layout.bucketFor h s.bucketCount then s.lookup layout h
    else s.snapshot.readFromDisk layout h true

def Current (s : DiskKVStore H) : Prop :=
  s.snapshot.buffer = s.writeBuffer ∧ s.snapshot.pages = (List.range s.bucketCount).map s.pages

lemma upToDate_of_current (hs : s.WellKept layout) (hcur : s.Current) : UpToDate layout s := by
  refine .inr fun h => ?_
  have hb := layout.bucketFor_lt h s.bucketCount hs.placed.bucketCount_pos
  have hraw : s.snapshot.getRaw layout h = s.lookup layout h := by
    rw [getRaw, readFromDisk_true hs.sound, hcur.1, hcur.2, lookup]
    simp [hb]
  split_ifs with hbuffered
  · exact hraw
  · have hnone : s.snapshot.buffer.get h = none := by
      refine Table.get_eq_none.mpr fun hkey => hbuffered ?_
      obtain ⟨e, he, rfl⟩ := Table.mem_keys.mp hkey
      exact ⟨e, hcur.1 ▸ he, rfl⟩
    rw [getRaw, hnone, Option.none_or]

/-- With room in every bucket, readers notice nothing of a flush exactly when the published snapshot was up to date. -/
theorem flush_unobservable_iff (hs : Reachable layout s) (hroom : Roomy layout s.bucketCount s.hashes) :
    ∃ s', s.flush layout = .ok () s' ∧
      (s.snapshot.SameAnswers layout s'.snapshot ∧ s'.snapshot.pageTypeCounts = buildPageTypeCounts s'.snapshot.pages ↔
        UpToDate layout s) := by
  have hkept := hs.wellKept
  have hover := overflowEntries_eq_nil layout hkept.placed hroom (Finset.Subset.refl _)
  by_cases hempty : s.writeBuffer.entries = []
  · refine ⟨s, by simp [flush, flushFrom, hempty], ?_⟩
    refine iff_of_true ⟨⟨fun _ => rfl, fun _ => rfl, fun _ => Iff.rfl, fun _ _ => rfl⟩, hkept.sound.counts_eq⟩ (.inl hempty)
  refine ⟨s.written layout, by simp [flush, flushFrom, hempty, hover, written], ?_⟩
  have hsound := (wellKept_written hkept).sound
  have hiff : UpToDate layout s ↔ ∀ h, (s.written layout).snapshot.getRaw layout h = s.snapshot.getRaw layout h := by
    simp only [UpToDate, hempty, false_or, getRaw_written hkept hover, mem_modifiedBuckets]
    exact forall_congr' fun h => eq_comm
  rw [hiff]
  constructor
  · exact fun h => h.1.getRaw_eq
  · exact fun h => ⟨sameAnswers_of_getRaw hkept.sound hsound h, hsound.counts_eq⟩

lemma snapshot_bulkInsert (s : DiskKVStore H) (es : List (KVEntry H)) : (s.bulkInsert layout es).snapshot = s.snapshot := by
  induction es generalizing s with
  | nil => rfl
  | cons e es ih =>
    refine (ih (s.bulkInsertOne layout e)).trans ?_
    rw [bulkInsertOne]
    split_ifs
    · rw [flushNoSnapshot]
      split_ifs <;> rfl
    · rfl

lemma Reachable.bulkInsert (hs : Reachable layout s) (es : List (KVEntry H)) : Reachable layout (s.bulkInsert layout es) :=
  .call hs (.bulkInsert es)

def spread : Layout ℕ := { clashing with bucketFor := fun h n => h % n, bucketFor_lt := fun h _ hn => Nat.mod_lt h hn }

def oneInserted : DiskKVStore ℕ := Trace.final ((create spread 256 65792 0).call spread (.insert (clashEntry 0)))

theorem flush_unobservable_oneInserted : ∃ s', oneInserted.flush spread = .ok () s' ∧ oneInserted.snapshot.SameAnswers spread s'.snapshot ∧
    s'.snapshot.pageTypeCounts = buildPageTypeCounts s'.snapshot.pages := by
  have hreach : Reachable spread oneInserted := .call (.create 256 65792 0) _
  have hroom : Roomy spread oneInserted.bucketCount oneInserted.hashes := by
    intro b _
    refine (Finset.card_filter_le _ _).trans ?_
    decide
  obtain ⟨s', hflush, hiff⟩ := flush_unobservable_iff hreach hroom
  refine ⟨s', hflush, hiff.mpr (upToDate_of_current hreach.wellKept ⟨rfl, ?_⟩)⟩
  rfl

def bulkEntries : List (KVEntry ℕ) := (List.range 510).map (fun i => clashEntry (i + 1)) ++ [clashEntry 511]

/-- The bulk insertion fills the buffer, which is written to the pages without being published, and one more entry is buffered. -/
def oneBuffered : DiskKVStore ℕ := (oneInserted.bulkInsert spread bulkEntries).bulkInsert spread [clashEntry 901]

def bulkHashes : Finset ℕ := Insert.insert 901 (Finset.range 512)

lemma roomy_bulkHashes : Roomy spread 45 bulkHashes := by
  intro b _
  have hsub : bulkHashes.filter (fun h => spread.bucketFor h 45 = b) ⊆ (Finset.range 21).image fun q => 45 * q + b := by
    intro h hh
    obtain ⟨hmem, hb⟩ := Finset.mem_filter.mp hh
    have hdiv : 45 * (h / 45) + b = h := by
      rw [← hb]
      exact Nat.div_add_mod h 45
    have hlt : h < 902 := by
      rcases Finset.mem_insert.mp hmem with rfl | hmem
      · decide
      · exact (Finset.mem_range.mp hmem).trans (by decide)
    exact Finset.mem_image.mpr ⟨h / 45, Finset.mem_range.mpr (by omega), hdiv⟩
  refine (Finset.card_le_card hsub).trans (Finset.card_image_le.trans ?_)
  rw [Finset.card_range]
  decide

lemma bulkEntries_hash {e : KVEntry ℕ} (he : e ∈ bulkEntries) : e.hash ∈ bulkHashes ∧ e.hash ≠ 0 := by
  rcases mem_append.mp he with he | he
  · obtain ⟨i, hi, rfl⟩ := mem_map.mp he
    have hlt : i + 1 < 512 := by
      have := mem_range.mp hi
      omega
    exact ⟨Finset.mem_insert_of_mem (Finset.mem_range.mpr hlt), Nat.succ_ne_zero i⟩
  · obtain rfl := mem_singleton.mp he
    exact ⟨Finset.mem_insert_of_mem (Finset.mem_range.mpr (Nat.lt_succ_self 511)), Nat.succ_ne_zero 510⟩

lemma writeBuffer_bulkEntries : (oneInserted.bulkInsert spread bulkEntries).writeBuffer = Table.empty := by
  have hkeys : oneInserted.writeBuffer.keys ∪ (((List.range 510).map fun i => clashEntry (i + 1)).map KVEntry.hash).toFinset =
      Finset.range 511 := by
    have hone : oneInserted.writeBuffer.keys = {0} := by decide
    ext i
    simp only [hone, clashEntry, Finset.mem_union, Finset.mem_singleton, mem_toFinset, mem_map, mem_range, Finset.mem_range,
      exists_exists_and_eq_and]
    constructor
    · rintro (rfl | ⟨j, hj, rfl⟩) <;> omega
    · exact fun hi => (Nat.eq_zero_or_pos i).imp_right fun hpos => ⟨i - 1, by omega, by omega⟩
  refine writeBuffer_bulkInsert_full spread oneInserted _ _ ?_ ?_
  · rw [hkeys, Finset.card_range]
    rfl
  · rw [hkeys]
    exact Finset.notMem_range_self

set_option maxRecDepth 20000 in
lemma hashes_oneInserted : oneInserted.hashes ⊆ bulkHashes := by decide

lemma hashes_bulkEntries : (oneInserted.bulkInsert spread bulkEntries).hashes ⊆ bulkHashes :=
  hashes_bulkInsert_subset spread hashes_oneInserted fun _ he => (bulkEntries_hash he).1

theorem flush_hides_entry : ∃ s', Reachable spread oneBuffered ∧ Roomy spread oneBuffered.bucketCount oneBuffered.hashes ∧
    oneBuffered.snapshot.get spread 0 = some (clashEntry 0) ∧ oneBuffered.flush spread = .ok () s' ∧
    s'.snapshot.get spread 0 = none ∧ s'.get spread 0 = some (clashEntry 0) := by
  have hone : Reachable spread oneInserted := .call (.create 256 65792 0) _
  have hbulk : Reachable spread (oneInserted.bulkInsert spread bulkEntries) := hone.bulkInsert bulkEntries
  have hreach : Reachable spread oneBuffered := hbulk.bulkInsert [clashEntry 901]
  have hlast : ∀ e ∈ [clashEntry 901], e.hash ∈ bulkHashes := by
    intro e he
    obtain rfl := mem_singleton.mp he
    exact Finset.mem_insert_self _ _
  have hcount : oneBuffered.bucketCount = 45 := (bucketCount_bulkInsert spread _ _).trans (bucketCount_bulkInsert spread _ _)
  have hbuckets : (oneInserted.bulkInsert spread bulkEntries).bucketCount = 45 := bucketCount_bulkInsert spread _ _
  have hhashes : oneBuffered.hashes ⊆ bulkHashes := hashes_bulkInsert_subset spread hashes_bulkEntries hlast
  have hroom : Roomy spread oneBuffered.bucketCount oneBuffered.hashes := by
    rw [hcount]
    exact fun b hb => (Finset.card_le_card (Finset.filter_subset_filter _ hhashes)).trans (roomy_bulkHashes b hb)
  have hsnap : oneBuffered.snapshot = oneInserted.snapshot := (snapshot_bulkInsert _ _).trans (snapshot_bulkInsert _ _)
  have hbuffer : oneBuffered.writeBuffer.entries = [clashEntry 901] := by
    have hlt := bulkInsert_of_lt spread (oneInserted.bulkInsert spread bulkEntries) [clashEntry 901]
      (by rw [writeBuffer_bulkEntries]; decide)
    rw [oneBuffered, hlt.1, writeBuffer_bulkEntries]
    rfl
  have hover := overflowEntries_eq_nil spread hreach.wellKept.placed hroom (Finset.Subset.refl _)
  have hlookup : oneBuffered.lookup spread 0 = some (clashEntry 0) := by
    have hnone : Table.latest KVEntry.hash bulkEntries 0 = none := Table.latest_eq_none_iff.mpr fun e he => (bulkEntries_hash he).2
    rw [oneBuffered, lookup_bulkInsert spread hbulk.wellKept.placed (hbuckets ▸ roomy_bulkHashes) hashes_bulkEntries hlast,
      lookup_bulkInsert spread hone.wellKept.placed roomy_bulkHashes hashes_oneInserted fun _ he => (bulkEntries_hash he).1, hnone]
    rfl
  refine ⟨oneBuffered.written spread, hreach, hroom, ?_, ?_, ?_, ?_⟩
  · rw [hsnap]
    rfl
  · simp [flush, flushFrom, hbuffer, hover, written]
  · rw [get_eq_getRaw (wellKept_written hreach.wellKept).sound, getRaw_written hreach.wellKept hover, if_neg, hsnap]
    · rfl
    · rw [mem_modifiedBuckets, hcount, hbuffer]
      decide
  · rw [get_eq_lookup, lookup_written hover, hlookup]
    rfl

end AeorDb.Index.DiskKVStore
