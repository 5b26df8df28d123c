import AeorDb.Index.Lookup

namespace AeorDb.Index.DiskKVStore

open AeorDb.Library AeorDb.Store Table Finset KVEntry

variable {H : Type} [DecidableEq H] (layout : Layout H)

lemma writeBuffer_keys_subset (s : DiskKVStore H) : s.writeBuffer.keys ⊆ s.hashes := subset_union_left

lemma page_keys_subset (s : DiskKVStore H) {b : ℕ} (hb : b < s.bucketCount) : (s.pages b).keys ⊆ s.hashes := fun _ hh =>
  mem_union_right _ (Finset.mem_biUnion.mpr ⟨b, Finset.mem_range.mpr hb, hh⟩)

variable {T : Finset H} {s : DiskKVStore H}

lemma hashes_subset :
    s.hashes ⊆ T ↔ s.writeBuffer.keys ⊆ T ∧ ∀ b < s.bucketCount, (s.pages b).keys ⊆ T := by
  simp [hashes, union_subset_iff, biUnion_subset_iff_forall_subset]

lemma lookup_mem_hashes (hs : s.Placed layout) {h : H} {e : KVEntry H}
    (he : s.lookup layout h = some e) : e.hash = h ∧ h ∈ s.hashes := by
  rcases Option.or_eq_some_iff.mp he with he | ⟨_, he⟩
  · obtain ⟨hmem, rfl⟩ := get_eq_some.mp he
    exact ⟨rfl, s.writeBuffer_keys_subset (mem_keys.mpr ⟨e, hmem, rfl⟩)⟩
  · obtain ⟨hmem, rfl⟩ := get_eq_some.mp he
    exact ⟨rfl, s.page_keys_subset (layout.bucketFor_lt _ _ hs.bucketCount_pos) (mem_keys.mpr ⟨e, hmem, rfl⟩)⟩

lemma hashes_writePages_subset (s : DiskKVStore H) : (s.writePages layout).hashes ⊆ s.hashes := by
  refine hashes_subset.mpr ⟨by simp [writePages], fun b hb h hh => ?_⟩
  obtain ⟨e, he, rfl⟩ := mem_keys.mp hh
  rcases mem_fillPage _ _ he with he | he
  · exact s.page_keys_subset hb (mem_keys.mpr ⟨e, he, rfl⟩)
  · exact s.writeBuffer_keys_subset (mem_keys.mpr ⟨e, ((mem_newEntries layout).mp he).1, rfl⟩)

lemma overflowEntries_eq_nil (hs : s.Placed layout) (hT : Roomy layout s.bucketCount T)
    (hsub : s.hashes ⊆ T) : s.overflowEntries layout = [] := by
  refine List.eq_nil_iff_forall_not_mem.mpr fun e he => ?_
  rw [mem_overflowEntries] at he
  have hb := layout.bucketFor_lt e.hash s.bucketCount hs.bucketCount_pos
  rw [fillPage_overflow_eq_nil _ _ (hT _ hb)] at he
  · simp at he
  · intro h hh
    obtain ⟨x, hx, rfl⟩ := mem_keys.mp hh
    exact Finset.mem_filter.mpr ⟨hsub (s.page_keys_subset hb hh), hs.bucketFor_eq _ hb x hx⟩
  · intro x hx
    obtain ⟨hmem, hbucket⟩ := (mem_newEntries layout).mp hx
    have hkey : x.hash ∈ s.writeBuffer.keys := mem_keys.mpr ⟨x, hmem, rfl⟩
    exact Finset.mem_filter.mpr ⟨hsub (s.writeBuffer_keys_subset hkey), hbucket⟩

variable {s : DiskKVStore H}

lemma lookup_flushNoSnapshot (hover : s.overflowEntries layout = []) (h : H) :
    (s.flushNoSnapshot layout).lookup layout h = s.lookup layout h := by
  unfold flushNoSnapshot
  split
  · rfl
  · rw [← s.lookup_writePages layout h, hover]
    rfl

lemma placed_flushNoSnapshot (hs : s.Placed layout) : (s.flushNoSnapshot layout).Placed layout := by
  unfold flushNoSnapshot
  split
  · exact hs
  · exact placed_writePages layout hs

lemma hashes_flushNoSnapshot_subset (s : DiskKVStore H) : (s.flushNoSnapshot layout).hashes ⊆ s.hashes := by
  unfold flushNoSnapshot
  split
  · exact Finset.Subset.refl _
  · exact s.hashes_writePages_subset layout

@[simp] lemma bucketCount_flushNoSnapshot (s : DiskKVStore H) : (s.flushNoSnapshot layout).bucketCount = s.bucketCount := by
  unfold flushNoSnapshot
  split <;> rfl

lemma lookup_bufferEntry (s : DiskKVStore H) (e : KVEntry H) (h : H) :
    (s.bufferEntry layout e).lookup layout h = if h = e.hash then some e else s.lookup layout h := by
  by_cases hh : h = e.hash <;> simp [lookup, bufferEntry, hh]

lemma placed_bufferEntry (hs : s.Placed layout) (e : KVEntry H) :
    (s.bufferEntry layout e).Placed layout := ⟨hs.bucketCount_pos, hs.bucketFor_eq⟩

lemma hashes_bufferEntry (s : DiskKVStore H) (e : KVEntry H) : (s.bufferEntry layout e).hashes = Insert.insert e.hash s.hashes := by
  simp [hashes, bufferEntry, insert_union]

@[simp] lemma bucketCount_bufferEntry (s : DiskKVStore H) (e : KVEntry H) : (s.bufferEntry layout e).bucketCount = s.bucketCount := rfl

@[simp] lemma bucketCount_bulkInsertOne (s : DiskKVStore H) (e : KVEntry H) : (s.bulkInsertOne layout e).bucketCount = s.bucketCount := by
  unfold bulkInsertOne
  dsimp only
  split <;> simp

lemma placed_bulkInsertOne (hs : s.Placed layout) (e : KVEntry H) : (s.bulkInsertOne layout e).Placed layout := by
  unfold bulkInsertOne
  dsimp only
  split
  · exact placed_flushNoSnapshot layout (placed_bufferEntry layout hs e)
  · exact placed_bufferEntry layout hs e

lemma hashes_bulkInsertOne_subset (s : DiskKVStore H) (e : KVEntry H) :
    (s.bulkInsertOne layout e).hashes ⊆ Insert.insert e.hash s.hashes := by
  rw [← hashes_bufferEntry layout]
  unfold bulkInsertOne
  dsimp only
  split
  · exact hashes_flushNoSnapshot_subset layout _
  · exact Finset.Subset.refl _

variable {es : List (KVEntry H)}

lemma lookup_bulkInsertOne (hs : s.Placed layout) (hT : Roomy layout s.bucketCount T)
    (hsub : s.hashes ⊆ T) {e : KVEntry H} (he : e.hash ∈ T) (h : H) :
    (s.bulkInsertOne layout e).lookup layout h = if h = e.hash then some e else s.lookup layout h := by
  rw [← lookup_bufferEntry layout]
  have hsub' : (s.bufferEntry layout e).hashes ⊆ T := by
    rw [hashes_bufferEntry]
    exact insert_subset he hsub
  unfold bulkInsertOne
  dsimp only
  split
  · exact lookup_flushNoSnapshot layout (overflowEntries_eq_nil layout (placed_bufferEntry layout hs e) hT hsub') h
  · rfl

lemma placed_bulkInsert (hs : s.Placed layout) (es : List (KVEntry H)) : (s.bulkInsert layout es).Placed layout := by
  induction es generalizing s with
  | nil => exact hs
  | cons e es ih => exact ih (placed_bulkInsertOne layout hs e)

@[simp] lemma bucketCount_bulkInsert (s : DiskKVStore H) (es : List (KVEntry H)) :
    (s.bulkInsert layout es).bucketCount = s.bucketCount := by
  induction es generalizing s with
  | nil => rfl
  | cons e es ih => exact (ih _).trans (bucketCount_bulkInsertOne layout s e)

lemma hashes_bulkInsert_subset (hsub : s.hashes ⊆ T)
    (hes : ∀ e ∈ es, e.hash ∈ T) : (s.bulkInsert layout es).hashes ⊆ T := by
  induction es generalizing s with
  | nil => exact hsub
  | cons e es ih =>
    obtain ⟨he, hes⟩ := List.forall_mem_cons.mp hes
    exact ih ((s.hashes_bulkInsertOne_subset layout e).trans (insert_subset he hsub)) hes

lemma lookup_bulkInsert (hs : s.Placed layout) (hT : Roomy layout s.bucketCount T)
    (hsub : s.hashes ⊆ T) (hes : ∀ e ∈ es, e.hash ∈ T) (h : H) :
    (s.bulkInsert layout es).lookup layout h = (latest hash es h).or (s.lookup layout h) := by
  induction es generalizing s with
  | nil => rfl
  | cons e es ih =>
    obtain ⟨he, hes⟩ := List.forall_mem_cons.mp hes
    have hsub' := (s.hashes_bulkInsertOne_subset layout e).trans (insert_subset he hsub)
    change ((s.bulkInsertOne layout e).bulkInsert layout es).lookup layout h = _
    rw [ih (placed_bulkInsertOne layout hs e) (by simpa using hT) hsub' hes, lookup_bulkInsertOne layout hs hT hsub he,
      latest_cons, Option.or_assoc]
    by_cases hh : h = e.hash <;> simp [hh]

lemma bulkInsert_of_lt (s : DiskKVStore H) (es : List (KVEntry H))
    (hlt : (s.writeBuffer.keys ∪ (es.map hash).toFinset).card < writeBufferThreshold) :
    (s.bulkInsert layout es).writeBuffer = s.writeBuffer.insertAll es ∧ (s.bulkInsert layout es).pages = s.pages := by
  induction es generalizing s with
  | nil => exact ⟨rfl, rfl⟩
  | cons e es ih =>
    have hset : s.writeBuffer.keys ∪ ((e :: es).map hash).toFinset =
        (s.bufferEntry layout e).writeBuffer.keys ∪ (es.map hash).toFinset := by
      ext k
      simp [bufferEntry]
    rw [hset] at hlt
    have hone : s.bulkInsertOne layout e = s.bufferEntry layout e := by
      refine if_neg ?_
      have hsub : (s.bufferEntry layout e).writeBuffer.keys ⊆ _ ∪ (es.map hash).toFinset := subset_union_left
      have hcard := card_le_card hsub
      rw [length_entries]
      omega
    have hcons : s.bulkInsert layout (e :: es) = (s.bufferEntry layout e).bulkInsert layout es :=
      congrArg (fun t => bulkInsert layout t es) hone
    rw [hcons]
    exact ih _ hlt

end AeorDb.Index.DiskKVStore
