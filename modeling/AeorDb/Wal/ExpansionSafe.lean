import AeorDb.Wal.Relocation

namespace AeorDb.Wal

open AeorDb.Library AeorDb.Store AeorDb.Index ByteFile Option Finset DiskKVStore

variable {H : Type} [DecidableEq H] (layout : Layout H)

section

def liveHashes (s : DiskKVStore H) : Finset H := s.hashes.filter fun h => (s.get layout h).isSome

variable {s : DiskKVStore H} {targetStage : ℕ}

lemma mem_liveHashes (hs : s.Placed layout) {h : H} : h ∈ liveHashes layout s ↔ ∃ x, s.get layout h = some x := by
  rw [liveHashes, mem_filter, isSome_iff_exists]
  refine ⟨And.right, fun ⟨x, hx⟩ => ⟨?_, x, hx⟩⟩
  rw [get_eq_lookup, filter_eq_some_iff] at hx
  exact (lookup_mem_hashes layout hs hx.1).2

variable (oldKvEnd relocationEnd : ℕ) (offsetDelta : ℤ)

section

omit [DecidableEq H]

@[simp] lemma hash_adjustOffset (x : KVEntry H) : (adjustOffset oldKvEnd relocationEnd offsetDelta x).hash = x.hash := by
  unfold adjustOffset
  split <;> rfl

@[simp] lemma isDeleted_adjustOffset (x : KVEntry H) : (adjustOffset oldKvEnd relocationEnd offsetDelta x).isDeleted = x.isDeleted := by
  unfold adjustOffset
  split <;> rfl

@[simp] lemma totalLength_adjustOffset (x : KVEntry H) :
    (adjustOffset oldKvEnd relocationEnd offsetDelta x).totalLength = x.totalLength := by
  unfold adjustOffset
  split <;> rfl

end

lemma latest_map_adjustOffset (es : List (KVEntry H)) (h : H) :
    Table.latest KVEntry.hash (es.map (adjustOffset oldKvEnd relocationEnd offsetDelta)) h =
      (Table.latest KVEntry.hash es h).map (adjustOffset oldKvEnd relocationEnd offsetDelta) := by
  simp [Table.latest, ← List.map_reverse]

variable (hs : s.Placed layout)
  (hroom : DiskKVStore.Roomy layout (stageParams targetStage (pageSize layout.hashLength)).2 (liveHashes layout s)) (newHotTail : ℕ)
  (h : H)
include hs hroom newHotTail h

lemma finalizeExpansion_lookup : (finalizeExpansion layout s targetStage oldKvEnd relocationEnd offsetDelta newHotTail).lookup layout h =
      (s.get layout h).map (adjustOffset oldKvEnd relocationEnd offsetDelta) := by
  have hlive : ∀ x ∈ (s.iterAll layout).map (adjustOffset oldKvEnd relocationEnd offsetDelta),
      x.hash ∈ liveHashes layout s := by
    intro x hx
    obtain ⟨y, hy, rfl⟩ := List.mem_map.mp hx
    obtain ⟨hlookup, hdel⟩ := (mem_iterAll layout hs).mp hy
    rw [hash_adjustOffset, mem_liveHashes layout hs, get_eq_lookup, hlookup]
    exact ⟨y, by simp [Option.filter, hdel]⟩
  obtain ⟨_, _, _, hl⟩ := refill layout
    (t := { s.zeroPages (stageParams targetStage (pageSize layout.hashLength)).2 with
      kvBlockLength := (stageParams targetStage (pageSize layout.hashLength)).1
      stage := targetStage
      bucketCount := (stageParams targetStage (pageSize layout.hashLength)).2
      hotTailOffset := newHotTail
      entryCount := 0
      writeBuffer := Table.empty
      iterations := s.iterations + 2 })
    (buckets_pos layout _) (fun b hb => if_pos hb) hroom (empty_subset _) hlive
  refine (hl h).trans ?_
  rw [latest_map_adjustOffset, latest_iterAll layout hs]
  exact or_none

lemma finalizeExpansion_get : (finalizeExpansion layout s targetStage oldKvEnd relocationEnd offsetDelta newHotTail).get layout h =
      (s.get layout h).map (adjustOffset oldKvEnd relocationEnd offsetDelta) := by
  rw [get_eq_lookup, finalizeExpansion_lookup layout oldKvEnd relocationEnd offsetDelta hs hroom,
    get_eq_lookup]
  rcases s.lookup layout h with _ | x
  · rfl
  · by_cases hd : x.isDeleted = true <;> simp [Option.filter, hd]

end

namespace StorageEngine

variable (formats : Formats H layout.hashLength)

structure WellFormed (e : StorageEngine H) : Prop where
  kvBlockOffset_eq : e.kv.kvBlockOffset = e.header.kvBlockOffset
  placed : e.kv.Placed layout
  inLog : ∀ h x, e.kv.get layout h = some x → e.oldKvEnd ≤ x.offset ∧ x.offset + x.totalLength ≤ e.currentOffset
  magic : ∀ h x, e.kv.get layout h = some x → 4 ≤ x.totalLength ∧ e.file.region x.offset 4 = entryMagic
  currentOffset_le : e.currentOffset ≤ e.file.size

/-- What an expansion needs to keep all data: a log that covers the growth zone, an entry across its end that
ends at the first magic behind it, and pages with room. -/
structure Expandable (e : StorageEngine H) (targetStage : ℕ) : Prop where
  grows : e.oldKvEnd ≤ e.newKvEnd layout targetStage
  covered : e.newKvEnd layout targetStage ≤ e.currentOffset
  straddler : ∀ h x, e.kv.get layout h = some x → x.offset < e.newKvEnd layout targetStage →
    e.newKvEnd layout targetStage < x.offset + x.totalLength →
      x.offset + x.totalLength < e.newKvEnd layout targetStage + scanLimit ∧
      x.offset + x.totalLength + 4 ≤ e.currentOffset ∧
      e.file.region (x.offset + x.totalLength) 4 = entryMagic ∧
      ∀ i, e.newKvEnd layout targetStage ≤ i → i < x.offset + x.totalLength → e.file.region i 4 ≠ entryMagic
  room : DiskKVStore.Roomy layout (stageParams targetStage (pageSize layout.hashLength)).2 (liveHashes layout e.kv)

variable {layout} {formats}
variable {e e' : StorageEngine H} {targetStage : ℕ}

lemma expandKvBlockOnline_ok (hok : e.expandKvBlockOnline layout formats targetStage = .ok () e') :
    e.oldKvEnd ≤ e.copyEnd layout targetStage ∧ ∃ copied adjusted,
      copyRegion e.file e.oldKvEnd e.currentOffset (e.copyEnd layout targetStage - e.oldKvEnd) = .ok () copied ∧
      e'.file = e.finalizedFile layout formats targetStage copied adjusted ∧
      e'.currentOffset = e.newHotTail layout targetStage ∧
      e'.kv = finalizeExpansion layout e.kv targetStage e.oldKvEnd (e.copyEnd layout targetStage)
        ((e.currentOffset : ℤ) - e.oldKvEnd) (e.newHotTail layout targetStage) := by
  unfold expandKvBlockOnline at hok
  dsimp only at hok
  split at hok
  · cases hok
  next hle =>
    split at hok
    · cases hok
    next copied hcopy =>
      injection hok with _ hok
      subst hok
      exact ⟨Nat.le_of_not_lt hle, copied, _, hcopy, rfl, rfl, rfl⟩

omit [DecidableEq H] in
lemma data_finalizedFile (hkv : e.kv.kvBlockOffset = e.header.kvBlockOffset) (copied : ByteFile)
    (adjusted : List VoidRecord) {i : ℕ} (hlo : e.copyEnd layout targetStage ≤ i) (hhi : i < e.newHotTail layout targetStage) :
    (e.finalizedFile layout formats targetStage copied adjusted).data i = copied.data i := by
  have hend : e.newKvEnd layout targetStage ≤ e.copyEnd layout targetStage := actualCopyEnd_bounds.1
  have hblock : e.kv.kvBlockOffset + (List.replicate
      (stageParams targetStage (pageSize layout.hashLength)).1 (0 : UInt8)).length ≤ i := by
    rw [List.length_replicate, hkv]
    exact hend.trans hlo
  unfold finalizedFile
  rw [data_setLen_of_lt _ (by omega), data_write_of_lt _ _ hhi, data_write_of_ge _ _ hblock]
  split
  · next hvoid =>
    rw [data_write_of_ge, data_write_of_lt _ _ hhi]
    rw [formats.voidEntry_length _ hvoid.2]
    omega
  · rw [data_write_of_lt _ _ hhi]

omit [DecidableEq H] in
lemma data_finalizedFile_hotTail (copied : ByteFile) (adjusted : List VoidRecord) :
    (e.finalizedFile layout formats targetStage copied adjusted).data (e.newHotTail layout targetStage) = 0xAE := by
  unfold finalizedFile
  rw [data_setLen_of_lt _ (Nat.lt_add_of_pos_right (by simp [serializeHotTail, hotTailMagic]))]
  exact data_write_head _ _ _ _

variable {x : KVEntry H} {currentOffset : ℕ} {file : ByteFile}

lemma end_le_copyEnd (hsafe : e.Expandable layout targetStage) (hwf : e.WellFormed layout) {h : H}
    (hx : e.kv.get layout h = some x) (hlt : x.offset < e.newKvEnd layout targetStage) :
    x.offset + x.totalLength ≤ e.copyEnd layout targetStage := by
  by_cases hend : x.offset + x.totalLength ≤ e.newKvEnd layout targetStage
  · exact hend.trans actualCopyEnd_bounds.1
  · obtain ⟨hlimit, hlog, hmagic, hfirst⟩ := hsafe.straddler h x hx hlt (by omega)
    have hsize := hwf.currentOffset_le
    exact (actualCopyEnd_eq (by omega) hlimit (by omega) (by omega) hmagic hfirst).ge

lemma copyEnd_le_offset (hwf : e.WellFormed layout) {h : H} (hx : e.kv.get layout h = some x)
    (hge : e.newKvEnd layout targetStage ≤ x.offset) : e.copyEnd layout targetStage ≤ x.offset := by
  obtain ⟨hlen, hmagic⟩ := hwf.magic h x hx
  obtain ⟨_, hlog⟩ := hwf.inLog h x hx
  have hsize := hwf.currentOffset_le
  exact actualCopyEnd_le hge (by omega) (by omega) hmagic

lemma expandKvBlockOnline_succeeds (hold : e.oldKvEnd ≤ e.copyEnd layout targetStage) (hsize : e.copyEnd layout targetStage ≤ e.file.size) :
    ∃ e', e.expandKvBlockOnline layout formats targetStage = .ok () e' := by
  obtain ⟨copied, hcopy⟩ := @copyRegion_ok e.file e.oldKvEnd e.currentOffset
    (e.copyEnd layout targetStage - e.oldKvEnd) (by omega)
  unfold expandKvBlockOnline
  dsimp only
  rw [if_neg (by omega), hcopy]
  exact ⟨_, rfl⟩

def sampleFormats : Formats ℕ clashing.hashLength where
  hotTailBody := fun _ _ => []
  readHotTailWrites := fun _ _ => []
  voidEntry := fun size => List.replicate size 0
  voidEntry_length := fun _ _ => List.length_replicate

def blank (size : ℕ) : ByteFile := ⟨fun _ => 0, size, fun _ _ => rfl⟩

def sampleEngine (file : ByteFile) (currentOffset : ℕ) (x : KVEntry ℕ) : StorageEngine ℕ where
  file := file
  header := ⟨512, 65536, 0, currentOffset, false, 0⟩
  currentOffset := currentOffset
  kv := (create clashing 512 currentOffset 0).bufferEntry clashing x
  voids := []

lemma get_sampleEngine {x y : KVEntry ℕ} {h : ℕ}
    (hy : (sampleEngine file currentOffset x).kv.get clashing h = some y) : y = x := by
  rw [get_eq_lookup, filter_eq_some_iff] at hy
  have hl := hy.1
  rw [sampleEngine, lookup_bufferEntry] at hl
  split at hl
  · exact (some.inj hl).symm
  · cases hl

lemma oldKvEnd_sampleEngine (file : ByteFile) (currentOffset : ℕ) (x : KVEntry ℕ) :
    (sampleEngine file currentOffset x).oldKvEnd = 66048 := by
  have hsum : 512 + 65536 = 66048 := by norm_num
  exact hsum

lemma wellFormed_sampleEngine {x : KVEntry ℕ} (hold : 66048 ≤ x.offset)
    (hlog : x.offset + x.totalLength ≤ currentOffset) (hlen : 4 ≤ x.totalLength)
    (hmagic : file.region x.offset 4 = entryMagic) (hsize : currentOffset ≤ file.size) :
    (sampleEngine file currentOffset x).WellFormed clashing where
  kvBlockOffset_eq := rfl
  placed := placed_bufferEntry clashing (placed_create clashing 512 currentOffset 0) x
  inLog := fun _ _ hy => by
    rw [get_sampleEngine hy, oldKvEnd_sampleEngine]
    exact ⟨hold, hlog⟩
  magic := fun _ _ hy => by
    rw [get_sampleEngine hy]
    exact ⟨hlen, hmagic⟩
  currentOffset_le := hsize

lemma roomy_sampleEngine (file : ByteFile) (currentOffset : ℕ) (x : KVEntry ℕ) (n : ℕ) :
    DiskKVStore.Roomy clashing n (liveHashes clashing (sampleEngine file currentOffset x).kv) := by
  intro b _
  have hsub : (sampleEngine file currentOffset x).kv.hashes ⊆ {x.hash} := by
    rw [sampleEngine, hashes_bufferEntry]
    refine insert_subset (mem_singleton_self _) (hashes_subset.mpr ⟨?_, fun b _ => ?_⟩)
    · exact empty_subset _
    · exact empty_subset _
  refine (card_le_card ((filter_subset _ _).trans ((filter_subset _ _).trans hsub))).trans ?_
  rw [card_singleton]
  decide

def coveredEngine : StorageEngine ℕ :=
  sampleEngine ((blank 524800).write 66048 entryMagic) 524800 ⟨1, 7, 66048, 100⟩

lemma expandable_coveredEngine : coveredEngine.Expandable clashing 1 where
  grows := by decide
  covered := by decide
  straddler := by
    intro h y hy _ hend
    rw [get_sampleEngine hy] at hend
    exact absurd hend (by decide)
  room := roomy_sampleEngine _ _ _ _

def straddledEngine : StorageEngine ℕ :=
  sampleEngine (((blank 524900).write 524750 entryMagic).write 524810 entryMagic) 524900 ⟨1, 7, 524750, 150⟩

lemma copyEnd_straddledEngine : straddledEngine.copyEnd clashing 1 = 524810 := by decide

end StorageEngine

end AeorDb.Wal
