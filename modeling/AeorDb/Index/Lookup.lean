import AeorDb.Index.Store

namespace AeorDb.Index

open AeorDb.Library AeorDb.Store Table KVEntry List

variable {H : Type} [DecidableEq H] {e : KVEntry H}

lemma upsertInPage_eq_some {page page' : Page H} (h : upsertInPage page e = some page') :
    page'.toTable = page.toTable.insert e := by
  unfold upsertInPage at h
  split at h
  · exact (Option.some.inj h) ▸ rfl
  · split at h
    · exact (Option.some.inj h) ▸ rfl
    · cases h

lemma upsertInPage_eq_none {page : Page H} (h : upsertInPage page e = none) :
    e.hash ∉ page.keys ∧ page.keys.card = maxEntriesPerPage := by
  unfold upsertInPage at h
  split at h
  · cases h
  · next hc =>
    split at h
    · cases h
    · next hlen =>
      refine ⟨fun hk => hc (contains_iff.mpr hk), ?_⟩
      have := page.size_le
      rw [← length_entries]
      omega

section

variable (page : Page H) (es : List (KVEntry H))
include page es

lemma fillPage_overflow_subset : (fillPage page es).2 ⊆ es := by
  induction es generalizing page with
  | nil => simp [fillPage]
  | cons e es ih =>
    rw [fillPage]
    split
    · exact fun x hx => mem_cons_of_mem e (ih _ hx)
    · exact cons_subset_cons e (ih page)

lemma mem_fillPage {x : KVEntry H} (hx : x ∈ (fillPage page es).1.entries) :
    x ∈ page.entries ∨ x ∈ es := by
  induction es generalizing page with
  | nil => exact .inl hx
  | cons e es ih =>
    rw [fillPage] at hx
    split at hx
    · next page' hp =>
      rcases ih page' hx with hx | hx
      · rw [upsertInPage_eq_some hp, mem_insert] at hx
        rcases hx with rfl | ⟨hx, _⟩
        · exact .inr mem_cons_self
        · exact .inl hx
      · exact .inr (mem_cons_of_mem e hx)
    · exact (ih page hx).imp_right (mem_cons_of_mem e)

lemma fillPage_lookup (hes : (es.map hash).Nodup) (h : H) :
    (latest hash (fillPage page es).2 h).or ((fillPage page es).1.get h) =
      (latest hash es h).or (page.get h) := by
  induction es generalizing page with
  | nil => rfl
  | cons e es ih =>
    obtain ⟨hnew, hes⟩ := nodup_cons.mp hes
    rw [fillPage, latest_cons, Option.or_assoc]
    split
    · next page' hp =>
      rw [ih page' hes, upsertInPage_eq_some hp, get_insert]
      by_cases hh : h = e.hash <;> simp [hh]
    · rw [latest_cons, Option.or_assoc]
      by_cases hh : h = e.hash
      · -- the hash occurs only once, so nothing later in the list can shadow it
        have hnone : ∀ fs : List (KVEntry H), fs ⊆ es → latest hash fs h = none := fun fs hfs =>
          latest_eq_none_iff.mpr fun x hx hxe => hnew (mem_map.mpr ⟨x, hfs hx, hxe.trans hh⟩)
        rw [hnone _ (fillPage_overflow_subset page es), hnone es (List.Subset.refl es)]
        simp [hh]
      · simpa [hh] using ih page hes

lemma fillPage_overflow_eq_nil {T : Finset H} (hT : T.card ≤ maxEntriesPerPage) (hpage : page.keys ⊆ T) (hes : ∀ e ∈ es, e.hash ∈ T) : (fillPage page es).2 = [] := by
  induction es generalizing page with
  | nil => rfl
  | cons e es ih =>
    obtain ⟨he, hes⟩ := forall_mem_cons.mp hes
    rw [fillPage]
    split
    · next page' hp =>
      refine ih page' ?_ hes
      rw [upsertInPage_eq_some hp, keys_insert]
      exact Finset.insert_subset he hpage
    · next hp =>
      obtain ⟨hnew, hfull⟩ := upsertInPage_eq_none hp
      have hcard := Finset.card_le_card (Finset.insert_subset he hpage)
      rw [Finset.card_insert_of_notMem hnew] at hcard
      omega

end

namespace DiskKVStore

variable (layout : Layout H)

def lookup (s : DiskKVStore H) (h : H) : Option (KVEntry H) :=
  (s.writeBuffer.get h).or ((s.pages (layout.bucketFor h s.bucketCount)).get h)

structure Placed (s : DiskKVStore H) : Prop where
  bucketCount_pos : 0 < s.bucketCount
  bucketFor_eq : ∀ b < s.bucketCount, ∀ e ∈ (s.pages b).entries, layout.bucketFor e.hash s.bucketCount = b

def hashes (s : DiskKVStore H) : Finset H :=
  s.writeBuffer.keys ∪ (Finset.range s.bucketCount).biUnion fun b => (s.pages b).keys

def Roomy (buckets : ℕ) (T : Finset H) : Prop :=
  ∀ b < buckets, (T.filter fun h => layout.bucketFor h buckets = b).card ≤ maxEntriesPerPage

lemma get_eq_lookup (s : DiskKVStore H) (h : H) : s.get layout h = (s.lookup layout h).filter fun e => !e.isDeleted := by
  unfold get lookup
  rcases hb : s.writeBuffer.get h with _ | e
  · generalize s.pages (layout.bucketFor h s.bucketCount) = page
    ext e
    simp only [Option.none_or, Option.filter_eq_some_iff, get_eq_some, findInPage]
    constructor
    · intro he
      have hp := find?_some he
      simp only [Bool.and_eq_true, decide_eq_true_eq] at hp
      exact ⟨⟨mem_of_find?_eq_some he, hp.1⟩, hp.2⟩
    · rintro ⟨⟨hmem, rfl⟩, hlive⟩
      rcases hf : page.entries.find? (fun x => x.hash = e.hash && !x.isDeleted) with _ | x
      · have := find?_eq_none.mp hf e hmem
        simp [hlive] at this
      · have hx := find?_some hf
        simp only [Bool.and_eq_true, decide_eq_true_eq] at hx
        rw [hf, page.unique x (mem_of_find?_eq_some hf) e hmem hx.1]
  · by_cases hd : e.isDeleted = true <;> simp [Option.filter, hd]

variable {s : DiskKVStore H}

section

omit [DecidableEq H]

lemma mem_bufferEntries : e ∈ s.bufferEntries layout ↔ e ∈ s.writeBuffer.entries :=
  (layout.order_perm _ _).mem_iff

lemma mem_newEntries {b : ℕ} :
    e ∈ s.newEntries layout b ↔ e ∈ s.writeBuffer.entries ∧ layout.bucketFor e.hash s.bucketCount = b := by
  simp [newEntries, mem_bufferEntries]

lemma newEntries_nodup (s : DiskKVStore H) (b : ℕ) : ((s.newEntries layout b).map hash).Nodup := by
  have hperm := (layout.order_perm s.iterations s.writeBuffer.entries).map hash
  exact (hperm.nodup_iff.mpr s.writeBuffer.nodup).sublist (filter_sublist.map _)

end

lemma mem_overflowEntries : e ∈ s.overflowEntries layout ↔
      e ∈ (fillPage (s.pages (layout.bucketFor e.hash s.bucketCount))
        (s.newEntries layout (layout.bucketFor e.hash s.bucketCount))).2 := by
  simp only [overflowEntries, mem_flatMap]
  constructor
  · rintro ⟨b, _, he⟩
    obtain ⟨_, rfl⟩ := (mem_newEntries layout).mp (fillPage_overflow_subset _ _ he)
    exact he
  · intro he
    refine ⟨_, ?_, he⟩
    obtain ⟨hmem, _⟩ := (mem_newEntries layout).mp (fillPage_overflow_subset _ _ he)
    rw [modifiedBuckets, mem_dedup]
    exact mem_map.mpr ⟨e, (mem_bufferEntries layout).mpr hmem, rfl⟩

lemma overflowEntries_subset (s : DiskKVStore H) : s.overflowEntries layout ⊆ s.writeBuffer.entries := fun _ he =>
  ((mem_newEntries layout).mp (fillPage_overflow_subset _ _ ((mem_overflowEntries layout).mp he))).1

lemma latest_newEntries (s : DiskKVStore H) (h : H) :
    latest hash (s.newEntries layout (layout.bucketFor h s.bucketCount)) h = s.writeBuffer.get h := by
  have huniq := unique ⟨_, s.newEntries_nodup layout (layout.bucketFor h s.bucketCount)⟩
  ext e
  rw [latest_eq_some_iff huniq, get_eq_some, mem_newEntries]
  constructor
  · rintro ⟨⟨he, _⟩, hh⟩
    exact ⟨he, hh⟩
  · rintro ⟨he, rfl⟩
    exact ⟨⟨he, rfl⟩, rfl⟩

lemma latest_overflowEntries (s : DiskKVStore H) (h : H) : latest hash (s.overflowEntries layout) h =
      latest hash (fillPage (s.pages (layout.bucketFor h s.bucketCount))
        (s.newEntries layout (layout.bucketFor h s.bucketCount))).2 h := by
  have huniq : ∀ es : List (KVEntry H), es ⊆ s.writeBuffer.entries → ∀ a ∈ es, ∀ b ∈ es, a.hash = b.hash → a = b :=
    fun es hes a ha b hb => s.writeBuffer.unique a (hes ha) b (hes hb)
  ext e
  rw [latest_eq_some_iff (huniq _ (s.overflowEntries_subset layout)), latest_eq_some_iff (huniq _ ?_),
    mem_overflowEntries]
  · constructor <;> rintro ⟨he, rfl⟩ <;> exact ⟨he, rfl⟩
  · exact fun x hx => ((mem_newEntries layout).mp (fillPage_overflow_subset _ _ hx)).1

lemma lookup_writePages (s : DiskKVStore H) (h : H) :
    (latest hash (s.overflowEntries layout) h).or ((s.writePages layout).lookup layout h) =
      s.lookup layout h := by
  rw [latest_overflowEntries]
  have hfill := fillPage_lookup (s.pages (layout.bucketFor h s.bucketCount)) _
    (s.newEntries_nodup layout (layout.bucketFor h s.bucketCount)) h
  rw [latest_newEntries] at hfill
  simpa [lookup, writePages] using hfill

lemma placed_writePages (hs : s.Placed layout) : (s.writePages layout).Placed layout where
  bucketCount_pos := hs.bucketCount_pos
  bucketFor_eq := by
    intro b hb e he
    rcases mem_fillPage _ _ he with he | he
    · exact hs.bucketFor_eq b hb e he
    · exact ((mem_newEntries layout).mp he).2

end DiskKVStore

end AeorDb.Index
