import AeorDb.Index.Bulk

namespace AeorDb.Index.DiskKVStore

open AeorDb.Library AeorDb.Store List Option Table KVEntry

variable {H : Type} [DecidableEq H] (layout : Layout H)

section

variable {s : DiskKVStore H} (hs : s.Placed layout)
include hs

lemma latest_pages (h : H) :
    latest hash ((List.range s.bucketCount).flatMap fun b => (s.pages b).entries) h =
      (s.pages (layout.bucketFor h s.bucketCount)).get h := by
  have hmem : ∀ e, e ∈ (List.range s.bucketCount).flatMap (fun b => (s.pages b).entries) ↔
      e ∈ (s.pages (layout.bucketFor e.hash s.bucketCount)).entries := by
    intro e
    simp only [mem_flatMap, mem_range]
    constructor
    · rintro ⟨b, hb, he⟩
      rwa [hs.bucketFor_eq b hb e he]
    · exact fun he => ⟨_, layout.bucketFor_lt _ _ hs.bucketCount_pos, he⟩
  ext e
  rw [latest_eq_some_iff, get_eq_some, hmem]
  · constructor <;> rintro ⟨he, rfl⟩ <;> exact ⟨he, rfl⟩
  · intro a ha b hb hab
    rw [hmem] at ha hb
    exact (s.pages _).unique a (hab ▸ ha) b hb hab

lemma get_allEntries (h : H) : (s.allEntries layout).get h = s.lookup layout h := by
  rw [allEntries, get_insertAll, get_insertAll, latest_pages layout hs, get_empty, or_none,
    latest_eq_get s.writeBuffer fun _ => mem_bufferEntries layout, lookup]

lemma mem_iterAll {e : KVEntry H} :
    e ∈ s.iterAll layout ↔ s.lookup layout e.hash = some e ∧ e.isDeleted = false := by
  rw [iterAll, mem_filter, (layout.order_perm _ _).mem_iff, ← get_allEntries layout hs, get_eq_some]
  simp

lemma latest_iterAll (h : H) : latest hash (s.iterAll layout) h = s.get layout h := by
  ext e
  rw [latest_eq_some_iff, mem_iterAll layout hs, get_eq_lookup, filter_eq_some_iff]
  · constructor
    · rintro ⟨⟨he, hd⟩, rfl⟩
      exact ⟨he, by simp [hd]⟩
    · rintro ⟨he, hd⟩
      obtain ⟨rfl, _⟩ := lookup_mem_hashes layout hs he
      exact ⟨⟨he, by simpa using hd⟩, rfl⟩
  · intro a ha b hb hab
    have ha := ((mem_iterAll layout hs).mp ha).1
    rw [hab, ((mem_iterAll layout hs).mp hb).1] at ha
    exact (some.inj ha).symm

end

lemma blockSize_ge (stage psize : ℕ) : 64 * 1024 ≤ (stageParams stage psize).1 := by
  unfold stageParams
  dsimp only
  split
  · next size hsize =>
    have hall : ∀ size ∈ kvStageSizes, 64 * 1024 ≤ size := by decide
    exact hall size (mem_of_getElem? hsize)
  · have := Nat.one_le_two_pow (n := min (stage - (kvStageSizes.length - 1)) 53)
    rw [le_min_iff]
    omega

section

omit [DecidableEq H]

lemma pageSize_bounds : 0 < pageSize layout.hashLength ∧ pageSize layout.hashLength ≤ 2474 := by
  have := layout.hashLength_le
  unfold pageSize pageHeaderSize maxEntriesPerPage
  omega

lemma buckets_pos (stage : ℕ) : 0 < (stageParams stage (pageSize layout.hashLength)).2 := by
  have hsize := blockSize_ge stage (pageSize layout.hashLength)
  obtain ⟨hpos, hpage⟩ := pageSize_bounds layout
  exact Nat.div_pos (hpage.trans (le_trans (by norm_num) hsize)) hpos

lemma placed_create (kvBlockOffset hotTailOffset stage : ℕ) : (create layout kvBlockOffset hotTailOffset stage).Placed layout where
  bucketCount_pos := buckets_pos layout _
  bucketFor_eq := by
    intro b _ e he
    simp [create, Page.empty] at he

end

def nextStage (s : DiskKVStore H) : ℕ := min (s.stage + 1) (kvStageSizes.length - 1)

def nextBuckets (s : DiskKVStore H) : ℕ := (stageParams s.nextStage (pageSize layout.hashLength)).2

def FitsInPlace (s : DiskKVStore H) : Prop := s.nextBuckets layout * pageSize layout.hashLength ≤ s.kvBlockLength

def CanGrow (s : DiskKVStore H) (T : Finset H) : Prop :=
  s.nextStage ≠ s.stage → s.FitsInPlace layout → Roomy layout (s.nextBuckets layout) T

variable {s s' : DiskKVStore H} {T : Finset H} {fuel : ℕ}

lemma resizeToNextStage_cases (hok : s.resizeToNextStage layout = .ok () s') :
    s' = { s with needsExpansion := some s.nextStage } ∨ s.nextStage ≠ s.stage ∧ s.FitsInPlace layout ∧ ∃ r,
      r = { s.zeroPages (s.nextBuckets layout) with
        stage := s.nextStage, bucketCount := s.nextBuckets layout, entryCount := 0, iterations := s.iterations + 2 } ∧
      s' = { (r.bulkInsert layout (s.iterAll layout)).flushNoSnapshot layout with
        entryCount := (s.iterAll layout).length }.publishFullSnapshotWithNewNvt := by
  unfold resizeToNextStage at hok
  dsimp only at hok
  split at hok
  · cases hok
  next hstage =>
    split at hok
    · left
      injection hok with _ hok
      exact hok.symm
    · next hfit =>
      refine .inr ⟨hstage, Nat.le_of_not_lt hfit, _, rfl, ?_⟩
      injection hok with _ hok
      exact hok.symm

lemma refill {t : DiskKVStore H} (hpos : 0 < t.bucketCount) (hblank : ∀ b < t.bucketCount, t.pages b = Page.empty)
 (hT : Roomy layout t.bucketCount T) (hbuffer : t.writeBuffer.keys ⊆ T) {es : List (KVEntry H)}
    (hes : ∀ e ∈ es, e.hash ∈ T) : ((t.bulkInsert layout es).flushNoSnapshot layout).Placed layout ∧
      ((t.bulkInsert layout es).flushNoSnapshot layout).hashes ⊆ T ∧
      ((t.bulkInsert layout es).flushNoSnapshot layout).bucketCount = t.bucketCount ∧
      ∀ h, ((t.bulkInsert layout es).flushNoSnapshot layout).lookup layout h =
        (Table.latest KVEntry.hash es h).or (t.writeBuffer.get h) := by
  have hplaced : t.Placed layout := ⟨hpos, fun b hb e he => by simp [hblank b hb, Page.empty] at he⟩
  have hsub : t.hashes ⊆ T := hashes_subset.mpr ⟨hbuffer, fun b hb => by simp [hblank b hb, Page.empty, Table.keys]⟩
  have hlookup : ∀ h, t.lookup layout h = t.writeBuffer.get h := fun h => by
    simp [lookup, hblank _ (layout.bucketFor_lt h _ hpos), Page.empty, Table.get]
  have hbp := placed_bulkInsert layout hplaced es
  have hbT := hashes_bulkInsert_subset layout hsub hes
  have hbn := bucketCount_bulkInsert layout t es
  refine ⟨placed_flushNoSnapshot layout hbp, (hashes_flushNoSnapshot_subset layout _).trans hbT, ?_, fun h => ?_⟩
  · rw [bucketCount_flushNoSnapshot, hbn]
  · rw [lookup_flushNoSnapshot layout (overflowEntries_eq_nil layout hbp (hbn ▸ hT) hbT),
      lookup_bulkInsert layout hplaced hT hsub hes, hlookup]

lemma resize_in_place {s r s' : DiskKVStore H} (hs : s.Placed layout)
    (hT : Roomy layout (s.nextBuckets layout) T) (hsub : s.hashes ⊆ T) (hr : r = { s.zeroPages (s.nextBuckets layout) with
        stage := s.nextStage, bucketCount := s.nextBuckets layout, entryCount := 0, iterations := s.iterations + 2 })
    (hs' : s' = { (r.bulkInsert layout (s.iterAll layout)).flushNoSnapshot layout with
        entryCount := (s.iterAll layout).length }.publishFullSnapshotWithNewNvt) :
    s'.Placed layout ∧ s'.hashes ⊆ T ∧ s'.bucketCount = s.nextBuckets layout ∧
      ∀ h, s'.lookup layout h = (s.get layout h).or (s.writeBuffer.get h) := by
  have hall : ∀ e ∈ s.iterAll layout, e.hash ∈ T := fun e he =>
    hsub (lookup_mem_hashes layout hs ((mem_iterAll layout hs).mp he).1).2
  obtain ⟨hp, hh, hn, hl⟩ := refill layout (t := r) (hr ▸ buckets_pos layout _) (hr ▸ fun b hb => if_pos hb)
    (hr ▸ hT) (hr ▸ s.writeBuffer_keys_subset.trans hsub) hall
  subst hs'
  refine ⟨⟨hp.bucketCount_pos, hp.bucketFor_eq⟩, hh, hn.trans (hr ▸ rfl), fun h => ?_⟩
  rw [← latest_iterAll layout hs]
  exact (hl h).trans (hr ▸ rfl)

lemma lookup_bufferOverflow (s : DiskKVStore H) (overflow : List (KVEntry H)) (h : H) :
    (s.bufferOverflow overflow).lookup layout h = (latest hash overflow h).or (s.lookup layout h) := by
  simp [lookup, bufferOverflow, get_insertAll, Option.or_assoc]

lemma hashes_bufferOverflow (s : DiskKVStore H) (overflow : List (KVEntry H)) :
    (s.bufferOverflow overflow).hashes = s.hashes ∪ (overflow.map hash).toFinset := by
  simp only [hashes, bufferOverflow, keys_insertAll]
  exact Finset.union_right_comm _ _ _

lemma flushFrom_roomy (hs : s.Placed layout)
    (hT : Roomy layout s.bucketCount T) (hsub : s.hashes ⊆ T) (hok : s.flushFrom layout fuel = .ok () s') :
    s'.Placed layout ∧ ∀ h, s'.lookup layout h = s.lookup layout h := by
  have hover := overflowEntries_eq_nil layout hs hT hsub
  unfold flushFrom at hok
  split at hok
  · injection hok with _ hok
    exact hok ▸ ⟨hs, fun _ => rfl⟩
  · rw [hover] at hok
    injection hok with _ hok
    have hw := placed_writePages layout hs
    refine hok ▸ ⟨⟨hw.bucketCount_pos, hw.bucketFor_eq⟩, fun h => ?_⟩
    rw [← s.lookup_writePages layout h, hover]
    rfl

variable (hs : s.Placed layout) (hgrow : s.CanGrow layout T) (hsub : s.hashes ⊆ T) (hok : s.flushFrom layout fuel = .ok () s')
include hs hgrow hsub hok

/-- A flush that grows in place drops the deleted entries that fit into the old pages; those that did not
fit are buffered again. Nothing else is lost, unless the new buckets have no room. -/
lemma flushFrom_lookup :
    s'.Placed layout ∧ ∃ kept : H → Bool, ∀ h, s'.lookup layout h = (s.lookup layout h).filter fun x => !x.isDeleted || kept h := by
  have hw := placed_writePages layout hs
  have hlookup := s.lookup_writePages layout
  have hoverT : ((s.overflowEntries layout).map KVEntry.hash).toFinset ⊆ T := by
    intro k hk
    obtain ⟨e, he, rfl⟩ := mem_map.mp (mem_toFinset.mp hk)
    exact hsub (s.writeBuffer_keys_subset (Table.mem_keys.mpr ⟨e, s.overflowEntries_subset layout he, rfl⟩))
  have hsame : ∀ {t : DiskKVStore H}, (∀ h, t.lookup layout h = s.lookup layout h) →
      ∃ kept : H → Bool, ∀ h, t.lookup layout h = (s.lookup layout h).filter fun x => !x.isDeleted || kept h :=
    fun ht => ⟨fun _ => true, fun h => by rw [ht]; cases s.lookup layout h <;> simp [Option.filter]⟩
  unfold flushFrom at hok
  dsimp only at hok
  split at hok
  · injection hok with _ hok
    exact hok ▸ ⟨hs, hsame fun _ => rfl⟩
  split at hok
  · next hover =>
    rw [List.isEmpty_iff] at hover
    injection hok with _ hok
    refine hok ▸ ⟨⟨hw.bucketCount_pos, hw.bucketFor_eq⟩, hsame fun h => ?_⟩
    rw [← hlookup h, hover]
    rfl
  split at hok
  · cases hok
  next s2 hresize =>
  have hpub : ((s.writePages layout).publishSnapshotIncremental (s.modifiedBuckets layout)).Placed layout :=
    ⟨hw.bucketCount_pos, hw.bucketFor_eq⟩
  have hpubT : ((s.writePages layout).publishSnapshotIncremental (s.modifiedBuckets layout)).hashes ⊆ T :=
    (s.hashes_writePages_subset layout).trans hsub
  rcases resizeToNextStage_cases layout hresize with hs2 | ⟨hstage, hfit, r, hr, hs2⟩
  · -- the block is too small: the overflow stays in the buffer
    have hstage : ¬ s2.stage > s.stage := by
      rw [hs2]
      exact lt_irrefl _
    rw [if_neg hstage] at hok
    injection hok with _ hok
    subst hok hs2
    refine ⟨⟨hw.bucketCount_pos, hw.bucketFor_eq⟩, hsame fun h => ?_⟩
    rw [← hlookup h]
    exact lookup_bufferOverflow layout _ _ h
  · have hT := hgrow hstage hfit
    obtain ⟨hp2, hT2, hn2, hl2⟩ := resize_in_place layout hpub hT hpubT hr hs2
    have hkept : ∀ h, (s2.bufferOverflow (s.overflowEntries layout)).lookup layout h = (s.lookup layout h).filter
        fun x => !x.isDeleted || (Table.latest KVEntry.hash (s.overflowEntries layout) h).isSome := by
      intro h
      have hpages : s2.lookup layout h = ((s.writePages layout).lookup layout h).filter fun e => !e.isDeleted := by
        rw [hl2, ← get_eq_lookup]
        exact or_none
      rw [← hlookup h, lookup_bufferOverflow, hpages]
      cases Table.latest KVEntry.hash (s.overflowEntries layout) h <;> simp [Option.filter]
    have hplaced : (s2.bufferOverflow (s.overflowEntries layout)).Placed layout := ⟨hp2.bucketCount_pos, hp2.bucketFor_eq⟩
    split at hok
    · split at hok
      · cases hok
      · have hroom : Roomy layout (s2.bufferOverflow (s.overflowEntries layout)).bucketCount T := by
          change Roomy layout s2.bucketCount T
          rw [hn2]
          exact hT
        obtain ⟨hp, hl⟩ := flushFrom_roomy layout hplaced hroom
          (by rw [hashes_bufferOverflow]; exact Finset.union_subset hT2 hoverT) hok
        exact ⟨hp, _, fun h => (hl h).trans (hkept h)⟩
    · injection hok with _ hok
      exact hok ▸ ⟨⟨hp2.bucketCount_pos, hp2.bucketFor_eq⟩, _, hkept⟩

lemma flushFrom_get :
    s'.Placed layout ∧ ∀ h, s'.get layout h = s.get layout h := by
  obtain ⟨hp, kept, hl⟩ := flushFrom_lookup layout hs hgrow hsub hok
  refine ⟨hp, fun h => ?_⟩
  rw [get_eq_lookup, get_eq_lookup, hl, Option.filter_filter]
  congr 1
  ext x
  cases x.isDeleted <;> simp

end AeorDb.Index.DiskKVStore
