import AeorDb.Index.Growth

/-! Sequences of insertions into the index. -/

namespace AeorDb.Index.DiskKVStore

open AeorDb.Library AeorDb.Store Table KVEntry Option Finset

variable {H : Type} [DecidableEq H] (layout : Layout H)

inductive Op (H : Type) where
  | insert (e : KVEntry H)
  | bulkInsert (es : List (KVEntry H))

def Op.entries : Op H → List (KVEntry H)
  | .insert e => [e]
  | .bulkInsert es => es

def step (s : DiskKVStore H) : Op H → StoreResult H
  | .insert e => s.insert layout e
  | .bulkInsert es => .ok () (s.bulkInsert layout es)

def run : List (Op H) → DiskKVStore H → StoreResult H
  | [], s => .ok () s
  | op :: ops, s =>
    match s.step layout op with
    | .ok _ s' => run ops s'
    | .error err s' => .error err s'

def Safe (s : DiskKVStore H) : Op H → Prop
  | .insert e =>
    e.isDeleted = false ∧
      ((Insert.insert e.hash s.writeBuffer.keys).card < writeBufferThreshold ∨
        s.CanGrow layout (Insert.insert e.hash s.hashes))
  | .bulkInsert es =>
    (∀ e ∈ es, e.isDeleted = false) ∧
      ((s.writeBuffer.keys ∪ (es.map hash).toFinset).card < writeBufferThreshold ∨
        Roomy layout s.bucketCount (s.hashes ∪ (es.map hash).toFinset))

def SafeRun : List (Op H) → DiskKVStore H → Prop
  | [], _ => True
  | op :: ops, s => s.Safe layout op ∧ ∀ s', s.step layout op = .ok () s' → SafeRun ops s'

lemma filter_or_of_live {es : List (KVEntry H)} (hes : ∀ e ∈ es, e.isDeleted = false) (h : H) (o : Option (KVEntry H)) :
    ((latest hash es h).or o).filter (fun e => !e.isDeleted) =
      (latest hash es h).or (o.filter fun e => !e.isDeleted) := by
  rcases hl : latest hash es h with _ | e
  · rfl
  · simp [Option.filter, hes e (latest_some hl).1]

variable {s s' : DiskKVStore H}

lemma insert_get (hs : s.Placed layout) {e : KVEntry H} (hsafe : s.Safe layout (.insert e))
    (hok : s.insert layout e = .ok () s') : s'.Placed layout ∧ ∀ h, s'.get layout h = (latest hash [e] h).or (s.get layout h) := by
  obtain ⟨hlive, hroom⟩ := hsafe
  have hget : ∀ h, (s.bufferEntry layout e).get layout h = (latest hash [e] h).or (s.get layout h) := by
    intro h
    rw [get_eq_lookup, get_eq_lookup, lookup_bufferEntry, latest_cons, latest_nil]
    by_cases hh : h = e.hash <;> simp [hh, hlive, Option.filter]
  unfold insert at hok
  dsimp only at hok
  split at hok
  · next hfull =>
    have hgrow : s.CanGrow layout (Insert.insert e.hash s.hashes) := by
      refine hroom.resolve_left fun hlt => ?_
      rw [length_entries, bufferEntry, keys_insert] at hfull
      omega
    obtain ⟨hp, hg⟩ := flushFrom_get layout (placed_bufferEntry layout hs e)
      (show (s.bufferEntry layout e).CanGrow layout _ from hgrow) (hashes_bufferEntry layout s e).subset hok
    exact ⟨hp, fun h => (hg h).trans (hget h)⟩
  · injection hok with _ hok
    exact hok ▸ ⟨⟨hs.bucketCount_pos, hs.bucketFor_eq⟩, hget⟩

lemma step_get (hs : s.Placed layout) {op : Op H} (hsafe : s.Safe layout op) (hok : s.step layout op = .ok () s') :
    s'.Placed layout ∧ ∀ h, s'.get layout h = (latest hash op.entries h).or (s.get layout h) := by
  cases op with
  | insert e => exact insert_get layout hs hsafe hok
  | bulkInsert es =>
    obtain ⟨hlive, hroom⟩ := hsafe
    injection hok with _ hok
    refine hok ▸ ⟨placed_bulkInsert layout hs es, fun h => ?_⟩
    have hlookup : (s.bulkInsert layout es).lookup layout h =
        (latest hash es h).or (s.lookup layout h) := by
      rcases hroom with hlt | hroom
      · obtain ⟨hbuffer, hpages⟩ := s.bulkInsert_of_lt layout es hlt
        rw [lookup, lookup, hbuffer, hpages, bucketCount_bulkInsert, get_insertAll, Option.or_assoc]
      · refine lookup_bulkInsert layout hs hroom subset_union_left (fun e he => ?_) h
        exact mem_union_right _ (List.mem_toFinset.mpr (List.mem_map.mpr ⟨e, he, rfl⟩))
    rw [get_eq_lookup, get_eq_lookup, hlookup]
    exact filter_or_of_live hlive h _

lemma run_get {ops : List (Op H)} (hs : s.Placed layout) (hsafe : SafeRun layout ops s)
    (hok : run layout ops s = .ok () s') : s'.Placed layout ∧
      ∀ h, s'.get layout h = (latest hash (ops.flatMap Op.entries) h).or (s.get layout h) := by
  induction ops generalizing s with
  | nil =>
    injection hok with _ hok
    exact hok ▸ ⟨hs, fun _ => rfl⟩
  | cons op ops ih =>
    obtain ⟨hop, hrest⟩ := hsafe
    rw [run] at hok
    split at hok
    · next s1 h1 =>
      obtain ⟨hs1, hg1⟩ := step_get layout hs hop h1
      obtain ⟨hs2, hg2⟩ := ih hs1 (hrest s1 h1) hok
      refine ⟨hs2, fun h => ?_⟩
      rw [hg2, hg1, List.flatMap_cons, latest_append, Option.or_assoc]
    · cases hok

theorem get_run_latest (ops : List (Op H)) {s s' : DiskKVStore H} (hs : s.Placed layout)
    (hsafe : SafeRun layout ops s) (hok : run layout ops s = .ok () s') {h : H} {e : KVEntry H}
    (he : Table.latest KVEntry.hash (ops.flatMap Op.entries) h = some e) : s'.get layout h = some e := by
  rw [(run_get layout hs hsafe hok).2 h, he, some_or]

def SizedToStage (s : DiskKVStore H) : Prop :=
  s.stage < kvStageSizes.length ∧ s.kvBlockLength = (stageParams s.stage (pageSize layout.hashLength)).1

lemma blockSize_eq {stage : ℕ} (h : stage < kvStageSizes.length) (psize : ℕ) : (stageParams stage psize).1 = kvStageSizes.getD stage 0 := by
  simp [stageParams, h]

lemma buckets_eq (stage psize : ℕ) : (stageParams stage psize).2 = (stageParams stage psize).1 / psize := rfl

omit [DecidableEq H] in
lemma not_fitsInPlace_of_sized {s : DiskKVStore H} (hs : s.SizedToStage layout) (hnext : s.nextStage ≠ s.stage) :
    ¬ s.FitsInPlace layout := by
  obtain ⟨hstage, hlen⟩ := hs
  obtain ⟨hpos, hpage⟩ := pageSize_bounds layout
  have hgap : ∀ i < kvStageSizes.length - 1, kvStageSizes.getD i 0 + 2474 ≤ kvStageSizes.getD (i + 1) 0 := by decide
  have hlt : s.stage < kvStageSizes.length - 1 := by
    unfold nextStage at hnext
    omega
  have hn : s.nextStage = s.stage + 1 := Nat.min_eq_left hlt
  have hdiv := Nat.lt_div_mul_add (a := (stageParams (s.stage + 1) (pageSize layout.hashLength)).1) hpos
  have hgap := hgap s.stage hlt
  rw [← blockSize_eq hstage (pageSize layout.hashLength), ← hlen,
    ← blockSize_eq (Nat.add_lt_of_lt_sub hlt) (pageSize layout.hashLength)] at hgap
  rw [FitsInPlace, nextBuckets, hn, buckets_eq]
  omega

def clashEntry (i : ℕ) : KVEntry ℕ := ⟨1, i, 65792 + 100 * i, 100⟩

def clashStore : DiskKVStore ℕ := create clashing 256 65792 0

theorem get_run_latest_clash :
    ∃ s', run clashing [.insert (clashEntry 0), .bulkInsert [clashEntry 1, clashEntry 2]] clashStore = .ok () s' ∧
      s'.get clashing 2 = some (clashEntry 2) := by
  refine ⟨_, rfl, ?_⟩
  refine get_run_latest clashing [.insert (clashEntry 0), .bulkInsert [clashEntry 1, clashEntry 2]]
    (placed_create clashing 256 65792 0) ?_ rfl rfl
  refine ⟨⟨by decide, .inl (by decide)⟩, ?_⟩
  rintro s' hs'
  injection hs' with _ hs'
  exact hs' ▸ ⟨⟨by decide, .inl (by decide)⟩, fun _ _ => trivial⟩

lemma writeBuffer_bulkInsert_full (s : DiskKVStore H) (es : List (KVEntry H)) (e : KVEntry H)
    (hcard : (s.writeBuffer.keys ∪ (es.map hash).toFinset).card + 1 = writeBufferThreshold)
    (hnew : e.hash ∉ s.writeBuffer.keys ∪ (es.map hash).toFinset) : (s.bulkInsert layout (es ++ [e])).writeBuffer = Table.empty := by
  obtain ⟨hbuffer, _⟩ := s.bulkInsert_of_lt layout es (by omega)
  have hlast : s.bulkInsert layout (es ++ [e]) = (s.bulkInsert layout es).bulkInsertOne layout e := List.foldl_append
  have hlen : ((s.bulkInsert layout es).bufferEntry layout e).writeBuffer.entries.length = writeBufferThreshold := by
    rw [length_entries, bufferEntry, keys_insert, hbuffer, keys_insertAll,
      card_insert_of_notMem hnew, hcard]
  rw [hlast, bulkInsertOne, if_pos hlen.ge, flushNoSnapshot, if_neg]
  · rfl
  · intro hnil
    rw [List.isEmpty_iff] at hnil
    simp [hnil, writeBufferThreshold] at hlen

def clashEntries : List (KVEntry ℕ) := (List.range writeBufferThreshold).map clashEntry

lemma writeBuffer_clash : (clashStore.bulkInsert clashing clashEntries).writeBuffer = Table.empty := by
  have hsplit : clashEntries = (List.range 511).map clashEntry ++ [clashEntry 511] := by
    rw [clashEntries, show writeBufferThreshold = 511 + 1 from rfl, List.range_succ, List.map_append]
    rfl
  have hkeys : clashStore.writeBuffer.keys ∪ (((List.range 511).map clashEntry).map hash).toFinset =
      Finset.range 511 := by
    ext i
    simp [clashStore, create, clashEntry, keys]
  rw [hsplit]
  refine writeBuffer_bulkInsert_full clashing clashStore _ _ ?_ ?_
  · rw [hkeys, card_range]
    rfl
  · rw [hkeys]
    exact notMem_range_self

lemma latest_clashEntries {i : ℕ} (hi : i < writeBufferThreshold) : latest hash clashEntries (clashEntry i).hash = some (clashEntry i) := by
  rw [latest_eq_some_iff]
  · exact ⟨List.mem_map.mpr ⟨i, List.mem_range.mpr hi, rfl⟩, rfl⟩
  · intro a ha b hb hab
    obtain ⟨j, _, rfl⟩ := List.mem_map.mp ha
    obtain ⟨k, _, rfl⟩ := List.mem_map.mp hb
    exact congrArg clashEntry hab

lemma exists_lost (s : DiskKVStore ℕ) (hbuffer : s.writeBuffer = empty) :
    ∃ e, latest hash clashEntries e.hash = some e ∧ s.get clashing e.hash = none := by
  by_contra hall
  push Not at hall
  have hsub : Finset.range writeBufferThreshold ⊆ (s.pages 0).keys := by
    intro i hi
    obtain ⟨e, he⟩ := ne_none_iff_exists'.mp
      (hall (clashEntry i) (latest_clashEntries (Finset.mem_range.mp hi)))
    rw [get, hbuffer, get_empty] at he
    have hp := List.find?_some he
    simp only [Bool.and_eq_true, decide_eq_true_eq] at hp
    exact mem_keys.mpr ⟨e, List.mem_of_find?_eq_some he, hp.1⟩
  have hcard := card_le_card hsub
  rw [card_range, ← length_entries] at hcard
  exact absurd (hcard.trans (Page.size_le _)) (by decide)

theorem bulkInsert_clash_loses :
    ∃ s', run clashing [.bulkInsert clashEntries] clashStore = .ok () s' ∧
      ∃ e, Table.latest KVEntry.hash clashEntries e.hash = some e ∧ s'.get clashing e.hash = none := by
  have hrun : ∀ es, run clashing [.bulkInsert es] clashStore = .ok () (clashStore.bulkInsert clashing es) :=
    fun _ => rfl
  exact ⟨_, hrun clashEntries, exists_lost _ writeBuffer_clash⟩

end AeorDb.Index.DiskKVStore
