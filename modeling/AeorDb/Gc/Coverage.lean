import AeorDb.Gc.MarkSpec

/-! Everything that is found from a version root by following live entries is marked. -/

namespace AeorDb.Gc

open Store BTree Dir Library Result List Finset.Subset SnapshotInfo

variable {H : Type} [DecidableEq H] {hs : Hasher H} {s : Heap H}

section

/-- The state of the walk inside a level: what is marked is waiting to be read or has its references marked
or passed on to the next level. -/
structure Level (hs : Hasher H) (s : Heap H) (live : Finset H) (unread : List (H × Str × ℕ)) (next : List (H × Str)) : Prop where
  covered : ∀ h ∈ live, TreeKey hs h → (∃ item ∈ unread, item.1 = h) ∨ ∀ c, Points s h c → c ∈ live ∨ ∃ item ∈ next, item.1 = c
  unread : ∀ item ∈ unread, TreeKey hs item.1 ∧ item.1 ∈ live ∧ ∃ r, s.entry item.1 = some r
  next : ∀ item ∈ next, TreeKey hs item.1

variable {live : Finset H} {unread : List (H × Str × ℕ)} {next : List (H × Str)}

lemma Level.mark {k : H} {items : List (H × Str × ℕ)} {item : H × Str} (h : Level hs s live unread (item :: next))
    (hitem : item.1 ∈ insert k live) (hunread : ∀ x ∈ unread, x ∈ items)
    (hnew : ∀ x ∈ items, x ∈ unread ∨ TreeKey hs x.1 ∧ x.1 = k ∧ ∃ r, s.entry x.1 = some r)
    (hk : TreeKey hs k → (∃ x ∈ items, x.1 = k) ∨ ∀ c, ¬ Points s k c) : Level hs s (insert k live) items next := by
  refine ⟨fun x hx htree => ?_, fun x hx => ?_, fun x hx => h.next x (mem_cons_of_mem _ hx)⟩
  · obtain rfl | hx := Finset.mem_insert.mp hx
    · obtain hk | hk := hk htree
      · exact Or.inl hk
      · exact Or.inr fun c hc => (hk c hc).elim
    · obtain ⟨y, hy, rfl⟩ | hcov := h.covered x hx htree
      · exact Or.inl ⟨y, hunread y hy, rfl⟩
      · refine Or.inr fun c hc => ?_
        obtain hc | ⟨y, hy, rfl⟩ := hcov c hc
        · exact Or.inl (Finset.mem_insert_of_mem hc)
        · obtain rfl | hy := mem_cons.mp hy
          · exact Or.inl hitem
          · exact Or.inr ⟨y, hy, rfl⟩
  · obtain hx | ⟨htree, rfl, hr⟩ := hnew x hx
    · obtain ⟨htree, hlive, hr⟩ := h.unread x hx
      exact ⟨htree, Finset.mem_insert_of_mem hlive, hr⟩
    · exact ⟨htree, Finset.mem_insert_self _ _, hr⟩

lemma Level.dedupe (hsound : Sound hs s) {item : H × Str} (h : Level hs s live unread (item :: next)) :
    Level hs s (dedupe hs s (live, unread) item).1 (dedupe hs s (live, unread) item).2 next := by
  have htree := h.next item mem_cons_self
  unfold Gc.dedupe
  by_cases hseen : item.1 ∈ live
  · rw [if_pos hseen]
    refine h.mark (Finset.mem_insert_of_mem hseen) (fun _ hx => hx) (fun _ hx => Or.inl hx) fun hkey => ?_
    exact (not_treeKey_directoryPathHash _ hkey).elim
  rw [if_neg hseen]
  cases hi : s.getKvEntry item.1 with
  | none =>
    refine h.mark (Finset.mem_insert_self _ _) (fun _ hx => hx) (fun _ hx => Or.inl hx) fun _ => Or.inr ?_
    rintro c ⟨r, hr, -⟩
    simp [Heap.entry, hi] at hr
  | some i =>
    obtain ⟨r, hr, -⟩ := hsound.own _ i hi
    have hentry : s.entry item.1 = some r := by simp [Heap.entry, hi, hr]
    simp only [hr, Option.map_some, Option.some.injEq]
    by_cases hchunk : r.entryType = .chunk
    · rw [if_pos hchunk]
      refine h.mark (Finset.mem_insert_self _ _) (fun _ hx => hx) (fun _ hx => Or.inl hx) fun _ => Or.inr ?_
      rintro c ⟨r', hr', hc⟩
      rw [hentry, Option.some.injEq] at hr'
      subst hr'
      rw [(hsound.typed_entry hentry).refs_of_leaf (by simp [hchunk]) (by simp [hchunk])] at hc
      cases hc
    · rw [if_neg hchunk]
      refine h.mark (Finset.mem_insert_self _ _) (fun _ hx => mem_append_left _ hx) (fun x hx => ?_) fun _ => Or.inl ?_
      · obtain hx | hx := mem_append.mp hx
        · exact Or.inl hx
        · obtain rfl := mem_singleton.mp hx
          exact Or.inr ⟨htree, rfl, r, hentry⟩
      · exact ⟨_, mem_append_right _ (mem_singleton_self _), rfl⟩

variable (hs s) in
lemma subset_dedupe (acc : Finset H × List (H × Str × ℕ)) (item : H × Str) :
    acc.1 ⊆ (dedupe hs s acc item).1 ∧ item.1 ∈ (dedupe hs s acc item).1 := by
  unfold dedupe
  split_ifs with hseen
  · exact ⟨Finset.subset_insert _ _, Finset.mem_insert_of_mem hseen⟩
  · split
    · exact ⟨Finset.subset_insert _ _, Finset.mem_insert_self _ _⟩
    · split_ifs <;> exact ⟨Finset.subset_insert _ _, Finset.mem_insert_self _ _⟩

variable (hs s) in
lemma subset_foldl_dedupe (frontier : List (H × Str)) (acc : Finset H × List (H × Str × ℕ)) :
    acc.1 ⊆ (frontier.foldl (dedupe hs s) acc).1 ∧ ∀ item ∈ frontier, item.1 ∈ (frontier.foldl (dedupe hs s) acc).1 := by
  induction frontier generalizing acc with
  | nil => simp
  | cons item frontier ih =>
    obtain ⟨hsub, hmem⟩ := subset_dedupe hs s acc item
    obtain ⟨hsub', hmem'⟩ := ih (Gc.dedupe hs s acc item)
    refine ⟨fun x hx => hsub' (hsub hx), fun x hx => ?_⟩
    obtain rfl | hx := mem_cons.mp hx
    · exact hsub' hmem
    · exact hmem' x hx

lemma Level.foldl_dedupe (hsound : Sound hs s) (h : Level hs s live unread next) :
    Level hs s (next.foldl (Gc.dedupe hs s) (live, unread)).1 (next.foldl (Gc.dedupe hs s) (live, unread)).2 [] := by
  induction next generalizing live unread with
  | nil => exact h
  | cons item next ih => exact ih (h.dedupe hsound)

omit [DecidableEq H] in
lemma partition_of_typed {children : List (ChildEntry H)} (h : ∀ child ∈ children, ChildTyped hs child) :
    children.partition walkable = (children, []) := by
  rw [partition_eq_filter_filter, filter_eq_self.mpr fun c hc => (h c hc).walkable]
  refine Prod.ext rfl (filter_eq_nil_iff.mpr fun c hc => ?_)
  simp [(h c hc).walkable]

variable {out : Finset H × List (H × Str)}

lemma Level.readItem (hsound : Sound hs s) {item : H × Str × ℕ}
    (h : Level hs s live (item :: unread) next) (hr : readItem hs s (live, next) item = .ok out) :
    Level hs s out.1 unread out.2 ∧ live ⊆ out.1 := by
  obtain ⟨htree, -, r, hentry⟩ := h.unread item mem_cons_self
  unfold Gc.readItem at hr
  rw [Heap.entry_including_deleted hentry] at hr
  obtain ⟨⟨live', children⟩, hv, hr⟩ := bind_eq_ok.mp hr
  have hcollects := visit_collects hsound hentry htree hv
  simp only [partition_of_typed hcollects.typed, map_nil, toFinset_nil, Finset.empty_union, Except.ok.injEq] at hr
  subst hr
  have hfound : ∀ c, Found (live', children) c →
      c ∈ live' ∨ ∃ x ∈ next ++ children.map (fun c => (c.hash, childPath item.2.1 c.name)), x.1 = c := by
    rintro c (hc | ⟨child, hchild, rfl⟩)
    · exact Or.inl hc
    · exact Or.inr ⟨_, mem_append_right _ (mem_map_of_mem hchild), rfl⟩
  refine ⟨⟨fun x hx hxtree => ?_, fun x hx => ?_, fun x hx => ?_⟩, hcollects.grown.grows⟩
  · obtain hx | hx := hcollects.grown.fresh x hx hxtree
    · obtain ⟨y, hy, rfl⟩ | hcov := h.covered x hx hxtree
      · obtain rfl | hy := mem_cons.mp hy
        · refine Or.inr fun c hc => ?_
          obtain ⟨r', hr', hc⟩ := hc
          rw [hentry, Option.some.injEq] at hr'
          subst hr'
          exact hfound c (hcollects.found c hc)
        · exact Or.inl ⟨y, hy, rfl⟩
      · refine Or.inr fun c hc => ?_
        obtain hc | ⟨y, hy, rfl⟩ := hcov c hc
        · exact Or.inl (hcollects.grown.grows hc)
        · exact Or.inr ⟨y, mem_append_left _ hy, rfl⟩
    · exact Or.inr fun c hc => hfound c (hx c hc)
  · obtain ⟨hxtree, hxlive, hxr⟩ := h.unread x (mem_cons_of_mem _ hx)
    exact ⟨hxtree, hcollects.grown.grows hxlive, hxr⟩
  · obtain hx | hx := mem_append.mp hx
    · exact h.next x hx
    · obtain ⟨child, hchild, rfl⟩ := mem_map.mp hx
      exact (hcollects.typed child hchild).tree

lemma Level.foldlM_readItem (hsound : Sound hs s) (h : Level hs s live unread next)
    (hr : unread.foldlM (Gc.readItem hs s) (live, next) = .ok out) : Level hs s out.1 [] out.2 ∧ live ⊆ out.1 := by
  induction unread generalizing live next with
  | nil =>
    cases hr
    exact ⟨h, Finset.Subset.refl _⟩
  | cons item unread ih =>
    rw [foldlM_cons] at hr
    obtain ⟨mid, hmid, hr⟩ := bind_eq_ok.mp hr
    obtain ⟨hlevel, hsub⟩ := h.readItem hsound hmid
    obtain ⟨hlevel', hsub'⟩ := ih hlevel hr
    exact ⟨hlevel', fun x hx => hsub' (hsub hx)⟩

omit [DecidableEq H] in
lemma Level.perm {unread' : List (H × Str × ℕ)} (h : Level hs s live unread next) (hp : unread.Perm unread') :
    Level hs s live unread' next := by
  refine ⟨fun x hx htree => ?_, fun x hx => h.unread x (hp.mem_iff.mpr hx), h.next⟩
  obtain ⟨y, hy, rfl⟩ | hcov := h.covered x hx htree
  · exact Or.inl ⟨y, hp.mem_iff.mp hy, rfl⟩
  · exact Or.inr hcov

lemma Level.readLevel (hsound : Sound hs s) (h : Level hs s live unread [])
    (hr : readLevel hs s unread live = .ok out) : Level hs s out.1 [] out.2 ∧ live ⊆ out.1 :=
  (h.perm (perm_insertionSort _ _).symm).foldlM_readItem hsound hr

variable (hs s) in
lemma not_mem_of_mem_foldl_dedupe (frontier : List (H × Str)) (acc : Finset H × List (H × Str × ℕ)) :
    ∀ x ∈ (frontier.foldl (dedupe hs s) acc).2, x ∈ acc.2 ∨ x.1 ∉ acc.1 := by
  induction frontier generalizing acc with
  | nil => exact fun x hx => Or.inl hx
  | cons item frontier ih =>
    intro x hx
    obtain hx | hx := ih _ x hx
    · unfold dedupe at hx
      split_ifs at hx with hseen
      · exact Or.inl hx
      · split at hx
        · exact Or.inl hx
        · split_ifs at hx
          · exact Or.inl hx
          · obtain hx | hx := mem_append.mp hx
            · exact Or.inl hx
            · obtain rfl := mem_singleton.mp hx
              exact Or.inr hseen
    · exact Or.inr fun hmem => hx ((subset_dedupe hs s acc item).1 hmem)

variable (s) in
def keys : Finset H := (s.cells.map LogEntry.key).toFinset

lemma Sound.mem_keys (hsound : Sound hs s) {h : H} {r : LogEntry H} (hr : s.entry h = some r) : h ∈ keys s := by
  rw [keys, mem_toFinset, ← hsound.key_eq hr]
  exact mem_map_of_mem (Heap.mem_cells (Heap.entry_including_deleted hr))

lemma walkVersionsBfs_covers (hsound : Sound hs s) {fuel : ℕ} {frontier : List (H × Str)} {out : Finset H}
    (hfuel : (keys s \ live).card + 2 ≤ fuel) (hlevel : Level hs s live [] frontier)
    (h : walkVersionsBfs hs s fuel frontier live = .ok out) : live ⊆ out ∧ (∀ item ∈ frontier, item.1 ∈ out) ∧ Level hs s out [] [] := by
  induction fuel generalizing frontier live with
  | zero => omega
  | succ fuel ih =>
    cases frontier with
    | nil =>
      cases h
      exact ⟨Finset.Subset.refl _, by simp, hlevel⟩
    | cons item frontier =>
      obtain ⟨hgrow, hmem⟩ := subset_foldl_dedupe hs s (item :: frontier) (live, [])
      have hlevel' := hlevel.foldl_dedupe hsound
      have hnew := not_mem_of_mem_foldl_dedupe hs s (item :: frontier) (live, [])
      rw [walkVersionsBfs] at h
      generalize (item :: frontier).foldl (dedupe hs s) (live, []) = mid at *
      obtain ⟨live₁, unread⟩ := mid
      obtain ⟨⟨live₂, next⟩, hread, hwalk⟩ := bind_eq_ok.mp h
      obtain ⟨hlevel₂, hgrow₂⟩ := hlevel'.readLevel hsound hread
      have hsub : live ⊆ live₂ := fun x hx => hgrow₂ (hgrow hx)
      cases unread with
      | nil =>
        cases hread
        have hout : out = live₁ := by cases fuel <;> cases hwalk <;> rfl
        subst hout
        exact ⟨hgrow, hmem, hlevel₂⟩
      | cons y ys =>
        obtain ⟨-, hlive, r, hr⟩ := hlevel'.unread y mem_cons_self
        have hlt : (keys s \ live₂).card < (keys s \ live).card := by
          apply Finset.card_lt_card
          refine ⟨Finset.sdiff_subset_sdiff (Finset.Subset.refl _) hsub, fun hcontra => ?_⟩
          have hy : y.1 ∈ keys s \ live := by
            refine Finset.mem_sdiff.mpr ⟨hsound.mem_keys hr, ?_⟩
            exact (hnew y mem_cons_self).resolve_left (by simp)
          exact (Finset.mem_sdiff.mp (hcontra hy)).2 (hgrow₂ hlive)
        have hfuel' : (keys s \ live₂).card + 2 ≤ fuel := by omega
        obtain ⟨hgrow₃, -, hdone⟩ := ih hfuel' hlevel₂ hwalk
        exact ⟨fun x hx => hgrow₃ (hsub hx), fun x hx => hgrow₃ (hgrow₂ (hmem x hx)), hdone⟩

end

section

variable {live out : Finset H}

lemma collectBtreeChildren_subset (fuel : ℕ) {v : Value H} {out : Marked H} (h : collectBtreeChildren s fuel v live = .ok out) :
    live ⊆ out.1 := by
  induction fuel generalizing v live out with
  | zero => cases h
  | succ fuel ih =>
    obtain ⟨node, -, h⟩ := bind_eq_ok.mp h
    cases node with
    | leaf es =>
      cases h
      exact Finset.Subset.refl _
    | internal ks cs =>
      refine foldlM_invariant (P := fun acc => live ⊆ acc.1) (fun acc c mid hacc hmid => ?_) (Finset.Subset.refl _) h
      unfold collectChild at hmid
      split at hmid
      · cases hmid
        exact fun x hx => Finset.mem_insert_of_mem (hacc hx)
      · obtain ⟨sub, hsub, hmid⟩ := bind_eq_ok.mp hmid
        cases hmid
        exact fun x hx => ih hsub (Finset.mem_insert_of_mem (hacc hx))

lemma visit_subset {path : Str} {r : LogEntry H} {out : Marked H} (h : visit hs s path r live = .ok out) : live ⊆ out.1 := by
  have hfollow : live ⊆ (follow hs s r.value live).2 := by
    unfold follow
    split
    · exact Finset.subset_insert _ _
    · split_ifs <;> exact Finset.Subset.refl _
  unfold visit at h
  split at h
  · rename_i live' heq
    cases h
    rwa [heq] at hfollow
  · rename_i v live' heq
    rw [heq] at hfollow
    refine fun x hx => ?_
    replace hx := hfollow hx
    split at h
    · unfold directoryChildren at h
      split at h
      · cases h
        exact Finset.mem_insert_of_mem hx
      · exact collectBtreeChildren_subset _ h (Finset.mem_insert_of_mem hx)
      · cases h
    · split at h
      · cases h
        exact Finset.mem_union_right _ hx
      · cases h
    · split at h <;> cases h <;> simp [show x ∈ live' from hx]
    · cases h
      exact hx

lemma markEntryRecursive_subset {fuel : ℕ} {h : H} {path : Str} (hm : markEntryRecursive hs s fuel h path live = .ok out) : live ⊆ out := by
  induction fuel generalizing h path live out with
  | zero =>
    cases hm
    exact Finset.Subset.refl _
  | succ fuel ih =>
    rw [markEntryRecursive] at hm
    split_ifs at hm
    · cases hm
      exact Finset.Subset.refl _
    · split at hm
      · cases hm
        exact Finset.subset_insert _ _
      · obtain ⟨⟨live', children⟩, hv, hm⟩ := bind_eq_ok.mp hm
        refine foldlM_invariant (P := fun acc => live ⊆ acc) (fun acc c mid hacc hmid x hx => ih hmid (hacc hx)) ?_ hm
        exact fun x hx => visit_subset hv (Finset.mem_insert_of_mem hx)

lemma mem_markEntry {h : H} {path : Str} (hm : markEntry hs s h path live = .ok out) : h ∈ out := by
  rw [markEntry, markEntryRecursive] at hm
  split_ifs at hm with hseen
  · cases hm
    exact hseen
  · split at hm
    · cases hm
      exact Finset.mem_insert_self _ _
    · obtain ⟨⟨live', children⟩, hv, hm⟩ := bind_eq_ok.mp hm
      refine foldlM_invariant (P := fun acc => h ∈ acc) (fun acc c mid hacc hmid => ?_) ?_ hm
      · exact markEntryRecursive_subset hmid hacc
      · exact visit_subset hv (Finset.mem_insert_self _ _)

lemma markSystemEntries_subset (h : markSystemEntries hs s live = .ok out) : live ⊆ out := by
  refine foldlM_invariant (P := fun acc => live ⊆ acc) (fun acc path mid hacc hmid => ?_) (Finset.Subset.refl _) h
  unfold markSystemRoot at hmid
  split at hmid
  · cases hmid
    exact hacc
  · exact fun x hx => markEntryRecursive_subset hmid (hacc hx)

lemma markLivePathFileRecords_subset (entries : List (LogEntry H)) : live ⊆ markLivePathFileRecords hs entries live := by
  induction entries generalizing live with
  | nil => exact Finset.Subset.refl _
  | cons r entries ih => exact fun x hx => ih (Finset.mem_union_right _ hx)

end

omit [DecidableEq H] in
lemma mem_cells_of_iterKvEntries {r : LogEntry H} (h : r ∈ s.iterKvEntries.map Prod.fst) : r ∈ s.cells := by
  obtain ⟨⟨r', i⟩, hmem, rfl⟩ := mem_map.mp h
  exact mem_of_getElem? (mem_zipIdx_iff_getElem?.mp (mem_filter.mp hmem).1)

variable {root : H}

omit [DecidableEq H] in
lemma treeKey_of_snapshot (hsound : Sound hs s) {snapshots : List (SnapshotInfo H)} (h : s.listSnapshots = .ok snapshots)
 (hroot : root ∈ snapshots.filterMap rootHash) : TreeKey hs root := by
  obtain ⟨info, hinfo, hroot⟩ := mem_filterMap.mp hroot
  obtain ⟨r, hr, hdecode⟩ := mapM_ok_mem_right h info hinfo
  have htyped := hsound.typed r (mem_cells_of_iterKvEntries (mem_filter.mp hr).1)
  cases hv : r.value with
  | snapshot info' =>
    rw [hv] at hdecode
    cases hdecode
    simp only [Typed, hv] at htyped
    exact htyped.2.2 root hroot
  | _ =>
    rw [hv] at hdecode
    cases hdecode

omit [DecidableEq H] in
lemma treeKey_of_fork (hsound : Sound hs s) {forks : List (ForkInfo H)} (h : s.listForks = .ok forks)
 (hroot : root ∈ forks.filterMap ForkInfo.rootHash) : TreeKey hs root := by
  obtain ⟨info, hinfo, hroot⟩ := mem_filterMap.mp hroot
  obtain ⟨r, hr, hdecode⟩ := mapM_ok_mem_right h info hinfo
  have htyped := hsound.typed r (mem_cells_of_iterKvEntries (mem_filter.mp hr).1)
  cases hv : r.value with
  | fork info' =>
    rw [hv] at hdecode
    cases hdecode
    simp only [Typed, hv] at htyped
    exact htyped.2.2 root hroot
  | _ =>
    rw [hv] at hdecode
    cases hdecode

def IsRoot (s : Heap H) (head : Option H) (root : H) : Prop :=
  head = some root ∨ (∃ snapshots, s.listSnapshots = .ok snapshots ∧ root ∈ snapshots.filterMap rootHash) ∨
    ∃ forks, s.listForks = .ok forks ∧ root ∈ forks.filterMap ForkInfo.rootHash

lemma gcMark_covers (hsound : Sound hs s) {head : Option H} (hhead : ∀ root, head = some root → TreeKey hs root) {live : Finset H}
    (h : gcMark hs s head = .ok live) {root c : H} (hroot : IsRoot s head root) (hreach : Reach s root c) : c ∈ live := by
  obtain ⟨snapshots, hsnapshots, h⟩ := bind_eq_ok.mp h
  obtain ⟨forks, hforks, h⟩ := bind_eq_ok.mp h
  obtain ⟨walked, hwalk, h⟩ := bind_eq_ok.mp h
  obtain ⟨marked, hsystem, h⟩ := bind_eq_ok.mp h
  cases h
  have htrees : ∀ x ∈ head.toList ++ snapshots.filterMap rootHash ++ forks.filterMap ForkInfo.rootHash, TreeKey hs x := by
    intro x hx
    obtain hx | hx := mem_append.mp hx
    · obtain hx | hx := mem_append.mp hx
      · exact hhead x (by simpa using hx)
      · exact treeKey_of_snapshot hsound hsnapshots hx
    · exact treeKey_of_fork hsound hforks hx
  have hmem : root ∈ head.toList ++ snapshots.filterMap rootHash ++ forks.filterMap ForkInfo.rootHash := by
    obtain rfl | ⟨snapshots', hs', hroot⟩ | ⟨forks', hf', hroot⟩ := hroot
    · simp
    · rw [hsnapshots, Except.ok.injEq] at hs'
      subst hs'
      exact mem_append_left _ (mem_append_right _ hroot)
    · rw [hforks, Except.ok.injEq] at hf'
      subst hf'
      exact mem_append_right _ hroot
  have hlevel : Level hs s ∅ [] ((head.toList ++ snapshots.filterMap rootHash ++
      forks.filterMap ForkInfo.rootHash).map fun h => (h, ['/'])) := by
    refine ⟨by simp, by simp, fun item hitem => ?_⟩
    obtain ⟨x, hx, rfl⟩ := mem_map.mp hitem
    exact htrees x hx
  have hfuel : (keys s \ ∅).card + 2 ≤ s.cells.length + 2 := by
    rw [Finset.sdiff_empty, keys]
    have := toFinset_card_le (s.cells.map LogEntry.key)
    rw [length_map] at this
    omega
  obtain ⟨-, hfrontier, hclosed⟩ := walkVersionsBfs_covers hsound hfuel hlevel hwalk
  have hwalked : c ∈ walked := by
    induction hreach with
    | refl => exact hfrontier (root, ['/']) (mem_map_of_mem hmem)
    | @tail k c hreach hpoints ih =>
      have htree := hsound.treeKey_of_reach (htrees root hmem) hreach
      obtain ⟨item, hitem, -⟩ | hcov := hclosed.covered k ih htree
      · cases hitem
      · exact (hcov c hpoints).resolve_right (by simp)
  refine Finset.mem_union_right _ (markLivePathFileRecords_subset _ (markSystemEntries_subset hsystem ?_))
  exact Finset.mem_union_right _ (Finset.mem_union_right _ hwalked)

end AeorDb.Gc
