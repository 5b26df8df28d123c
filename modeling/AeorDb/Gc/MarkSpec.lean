import AeorDb.Gc.Keys

/-! What reading one entry marks. -/

namespace AeorDb.Gc

open Store BTree Dir Library List

variable {H : Type} {hs : Hasher H} {s : Heap H}

structure Sound (hs : Hasher H) (s : Heap H) : Prop where
  typed : ∀ r ∈ s.cells, Typed hs r
  own : ∀ h i, s.getKvEntry h = some i → ∃ r, s.cells[i.offset]? = some r ∧ r.key = h

lemma Heap.entry_including_deleted {h : H} {r : LogEntry H} (hr : s.entry h = some r) : s.entryIncludingDeleted h = some r := by
  obtain ⟨i, hi, hr⟩ := Option.bind_eq_some_iff.mp hr
  obtain ⟨hi, -⟩ := Option.filter_eq_some_iff.mp hi
  exact Option.bind_eq_some_iff.mpr ⟨i, hi, hr⟩

lemma Heap.mem_cells {h : H} {r : LogEntry H} (hr : s.entryIncludingDeleted h = some r) : r ∈ s.cells := by
  obtain ⟨i, -, hr⟩ := Option.bind_eq_some_iff.mp hr
  exact mem_of_getElem? hr

section

variable (hsound : Sound hs s)
include hsound

lemma Sound.key_eq {h : H} {r : LogEntry H} (hr : s.entry h = some r) : r.key = h := by
  obtain ⟨i, hi, hr⟩ := Option.bind_eq_some_iff.mp hr
  obtain ⟨r', hr', hkey⟩ := hsound.own h i hi
  rw [hr, Option.some.injEq] at hr'
  exact hr' ▸ hkey

lemma Sound.typed_entry {h : H} {r : LogEntry H} (hr : s.entry h = some r) : Typed hs r :=
  hsound.typed r (Heap.mem_cells (Heap.entry_including_deleted hr))

lemma Sound.treeKey_of_points {k c : H} (h : Points s k c) : TreeKey hs c := by
  obtain ⟨r, hr, hc⟩ := h
  exact (hsound.typed_entry hr).treeKey_refs c hc

lemma Sound.treeKey_of_reach {root c : H} (hroot : TreeKey hs root) (h : Reach s root c) : TreeKey hs c := by
  induction h with
  | refl => exact hroot
  | tail _ hp _ => exact hsound.treeKey_of_points hp

lemma Sound.not_points_chunkHash (bytes : List UInt8) (c : H) : ¬ Points s (hs.chunkHash bytes) c := by
  rintro ⟨r, hr, hc⟩
  rw [(hsound.typed_entry hr).refs_of_chunkHash (hsound.key_eq hr)] at hc
  cases hc

end

section

abbrev Marked (H : Type) := Finset H × List (ChildEntry H)

def Found (out : Marked H) (c : H) : Prop := c ∈ out.1 ∨ ∃ child ∈ out.2, child.hash = c

structure Extends (hs : Hasher H) (s : Heap H) (a b : Marked H) : Prop where
  grows : a.1 ⊆ b.1
  keeps : a.2 ⊆ b.2
  fresh : ∀ k ∈ b.1, TreeKey hs k → k ∈ a.1 ∨ ∀ c, Points s k c → Found b c

lemma Extends.found {a b : Marked H} (h : Extends hs s a b) {c : H} (hc : Found a c) : Found b c := by
  obtain hc | ⟨child, hchild, rfl⟩ := hc
  · exact Or.inl (h.grows hc)
  · exact Or.inr ⟨child, h.keeps hchild, rfl⟩

lemma Extends.refl (a : Marked H) : Extends hs s a a :=
  ⟨Finset.Subset.refl _, List.Subset.refl _, fun _ hk _ => Or.inl hk⟩

lemma Extends.trans {a b c : Marked H} (h : Extends hs s a b) (h' : Extends hs s b c) : Extends hs s a c := by
  refine ⟨fun _ hx => h'.grows (h.grows hx), fun _ hx => h'.keeps (h.keeps hx), fun k hk htree => ?_⟩
  obtain hk | hk := h'.fresh k hk htree
  · obtain hk | hk := h.fresh k hk htree
    · exact Or.inl hk
    · exact Or.inr fun x hx => h'.found (hk x hx)
  · exact Or.inr hk

variable [DecidableEq H]

lemma Extends.insert {a : Marked H} {k : H} (hk : TreeKey hs k → ∀ c, ¬ Points s k c) : Extends hs s a (insert k a.1, a.2) := by
  refine ⟨Finset.subset_insert _ _, List.Subset.refl _, fun x hx htree => ?_⟩
  obtain rfl | hx := Finset.mem_insert.mp hx
  · exact Or.inr fun c hc => (hk htree c hc).elim
  · exact Or.inl hx

lemma Extends.union {a : Marked H} {ks : Finset H} (hks : ∀ k ∈ ks, TreeKey hs k → ∀ c, ¬ Points s k c) :
    Extends hs s a (ks ∪ a.1, a.2) := by
  refine ⟨Finset.subset_union_right, List.Subset.refl _, fun x hx htree => ?_⟩
  obtain hx | hx := Finset.mem_union.mp hx
  · exact Or.inr fun c hc => (hks x hx htree c hc).elim
  · exact Or.inl hx

omit [DecidableEq H] in
lemma nodeOfValue_ok {v : Value H} {node : BTreeNode H} (h : nodeOfValue v = .ok node) :
    refs v = nodeRefs node ∧ ∃ n, v = .dir (.node n) ∧ deserialize n = .ok node := by
  unfold nodeOfValue at h
  split at h
  · rename_i n
    exact ⟨by simp [refs, h], n, rfl, h⟩
  · cases h
  · cases h

structure Collects (hs : Hasher H) (s : Heap H) (v : Value H) (live : Finset H) (out : Marked H) : Prop where
  grown : Extends hs s (live, []) out
  found : ∀ c ∈ refs v, Found out c
  typed : ∀ child ∈ out.2, ChildTyped hs child

variable {collect : Value H → Finset H → EngineResult (Marked H)} {acc out : Marked H} {live : Finset H} {r : LogEntry H}

section

variable (hcollect : ∀ r ∈ s.cells, ∀ live out, collect r.value live = .ok out → Collects hs s r.value live out)
include hcollect

lemma collectChild_extends {c : H} (h : collectChild s collect acc c = .ok out) (hacc : ∀ child ∈ acc.2, ChildTyped hs child) :
    Extends hs s acc out ∧ c ∈ out.1 ∧ ∀ child ∈ out.2, ChildTyped hs child := by
  unfold collectChild at h
  cases hr : s.entryIncludingDeleted c with
  | none =>
    simp only [hr, Except.ok.injEq] at h
    subst h
    refine ⟨.insert fun _ x hx => ?_, Finset.mem_insert_self _ _, hacc⟩
    obtain ⟨r, hr', -⟩ := hx
    rw [Heap.entry_including_deleted hr'] at hr
    cases hr
  | some r =>
    simp only [hr] at h
    obtain ⟨sub, hsub, h⟩ := Result.bind_eq_ok.mp h
    cases h
    have hcollects := hcollect r (Heap.mem_cells hr) _ _ hsub
    have hfound : ∀ x, Found sub x → Found (sub.1, acc.2 ++ sub.2) x := by
      rintro x (hx | ⟨child, hchild, rfl⟩)
      · exact Or.inl hx
      · exact Or.inr ⟨child, mem_append_right _ hchild, rfl⟩
    refine ⟨⟨fun x hx => ?_, subset_append_left _ _, fun k hk htree => ?_⟩, ?_, fun child hchild => ?_⟩
    · exact hcollects.grown.grows (Finset.mem_insert_of_mem hx)
    · obtain hk | hk := hcollects.grown.fresh k hk htree
      · obtain rfl | hk := Finset.mem_insert.mp hk
        · refine Or.inr fun x hx => ?_
          obtain ⟨r', hr', hx⟩ := hx
          rw [Heap.entry_including_deleted hr', Option.some.injEq] at hr
          subst hr
          exact hfound x (hcollects.found x hx)
        · exact Or.inl hk
      · exact Or.inr fun x hx => hfound x (hk x hx)
    · exact hcollects.grown.grows (Finset.mem_insert_self _ _)
    · exact (mem_append.mp hchild).elim (hacc child) (hcollects.typed child)

lemma collectChildren_extends (cs : List H) (h : cs.foldlM (collectChild s collect) acc = .ok out) (hacc : ∀ child ∈ acc.2, ChildTyped hs child) :
    Extends hs s acc out ∧ (∀ c ∈ cs, c ∈ out.1) ∧ ∀ child ∈ out.2, ChildTyped hs child := by
  induction cs generalizing acc with
  | nil =>
    cases h
    exact ⟨.refl _, by simp, hacc⟩
  | cons c cs ih =>
    rw [foldlM_cons] at h
    obtain ⟨mid, hmid, h⟩ := Result.bind_eq_ok.mp h
    obtain ⟨hext, hc, hmidTyped⟩ := collectChild_extends hcollect hmid hacc
    obtain ⟨hext', hcs, houtTyped⟩ := ih h hmidTyped
    refine ⟨hext.trans hext', fun x hx => ?_, houtTyped⟩
    obtain rfl | hx := mem_cons.mp hx
    · exact hext'.grows hc
    · exact hcs x hx

end

lemma collectBtreeChildren_collects (hsound : Sound hs s) (fuel : ℕ) (hr : r ∈ s.cells)
 (h : collectBtreeChildren s fuel r.value live = .ok out) : Collects hs s r.value live out := by
  induction fuel generalizing r live out with
  | zero => cases h
  | succ fuel ih =>
    obtain ⟨node, hnode, h⟩ := Result.bind_eq_ok.mp h
    obtain ⟨hrefs, n, hv, hd⟩ := nodeOfValue_ok hnode
    have htyped : NodeTyped hs node := by
      have hr := hsound.typed r hr
      simp only [Typed, hv] at hr
      exact mem_deserialize hd hr.2.2
    cases node with
    | leaf es =>
      cases h
      refine ⟨⟨Finset.Subset.refl _, by simp, fun _ hk _ => Or.inl hk⟩, fun c hc => ?_, htyped⟩
      rw [hrefs] at hc
      exact Or.inr (mem_map.mp hc)
    | internal ks cs =>
      obtain ⟨hext, hmem, hchildren⟩ := collectChildren_extends (fun r hr live out h => ih hr h) cs h (by simp)
      refine ⟨hext, fun c hc => ?_, hchildren⟩
      rw [hrefs] at hc
      exact Or.inl (hmem c hc)

lemma directoryChildren_collects (hsound : Sound hs s) (hr : r ∈ s.cells)
    (h : directoryChildren s r.value live = .ok out) : Collects hs s r.value live out := by
  unfold directoryChildren at h
  split at h
  · rename_i es hv
    cases h
    have htyped := hsound.typed r hr
    simp only [Typed, hv] at htyped
    refine ⟨⟨Finset.Subset.refl _, by simp, fun _ hk _ => Or.inl hk⟩, fun c hc => ?_, htyped.2.2⟩
    rw [hv] at hc
    exact Or.inr (mem_map.mp hc)
  · rename_i n hv
    rw [← hv] at h
    exact collectBtreeChildren_collects hsound _ hr h
  · cases h

end

variable (hs) in
lemma lt_sum_childBytes (es : List (ChildEntry H)) (hne : es ≠ []) : hs.hashLength < (es.map (childBytes hs)).sum := by
  obtain ⟨c, es, rfl⟩ := exists_cons_of_ne_nil hne
  simp only [map_cons, sum_cons, childBytes]
  omega

lemma refs_of_isHashSized {v : Value H} (h : isHashSized hs v = true) (hlink : ∀ target, v ≠ .link target) : refs v = [] := by
  cases v with
  | link target => exact (hlink target rfl).elim
  | file r =>
    have hsize : fileBytes hs r = hs.hashLength := by simpa [isHashSized] using h
    unfold fileBytes at hsize
    omega
  | dir data =>
    simp only [isHashSized, decide_eq_true_eq] at h
    cases data with
    | flat es =>
      by_contra hne
      have := lt_sum_childBytes hs es (fun hes => hne (by simp [refs, hes]))
      simp only [dataBytes] at h
      omega
    | node n =>
      cases n with
      | leaf es =>
        by_contra hne
        have := lt_sum_childBytes hs es (fun hes => hne (by simp [refs, hes, deserialize, nodeRefs]))
        simp only [dataBytes, nodeBytes] at h
        omega
      | internal ks cs =>
        simp only [dataBytes, nodeBytes] at h
        have hcs : cs = [] := by
          by_contra hcs
          have := Nat.le_mul_of_pos_right hs.hashLength (length_pos_of_ne_nil hcs)
          omega
        simp [refs, deserialize, hcs]
  | _ => rfl

lemma Collects.of_refs_nil {v : Value H} {live : Finset H} {out : Marked H} (hext : Extends hs s (live, []) out)
    (hrefs : refs v = []) (hout : out.2 = []) : Collects hs s v live out :=
  ⟨hext, by simp [hrefs], by simp [hout]⟩

lemma Typed.not_link {r : LogEntry H} (h : Typed hs r) (htree : TreeKey hs r.key) (target : H) : r.value ≠ .link target := by
  intro hvalue
  simp only [Typed, hvalue] at h
  obtain ⟨path, hpath⟩ := h.2.1
  exact not_treeKey_directoryPathHash path (hpath ▸ htree)

variable [DecidableEq H]

lemma fileMarks_not_points (hsound : Sound hs s) {r : FileRecord H} (hchunks : ∀ c ∈ r.chunkHashes, ∃ bytes, c = hs.chunkHash bytes) :
    ∀ k ∈ fileMarks hs r, TreeKey hs k → ∀ c, ¬ Points s k c := by
  intro k hk htree c
  simp only [fileMarks, Finset.mem_insert, mem_toFinset] at hk
  obtain rfl | rfl | hk := hk
  · exact (not_treeKey_filePathHash _ htree).elim
  · exact (not_treeKey_fileContentHash _ htree).elim
  · obtain ⟨bytes, rfl⟩ := hchunks k hk
    exact hsound.not_points_chunkHash bytes c

lemma follow_of_not_link {v : Value H} {live : Finset H} (hlink : ∀ target, v ≠ .link target) :
    follow hs s v live = if isHashSized hs v then (none, live) else (some v, live) := by
  cases v with
  | link target => exact (hlink target rfl).elim
  | _ => rfl

lemma visit_collects (hsound : Sound hs s) {h : H} {r : LogEntry H} (hr : s.entry h = some r) (htree : TreeKey hs h) {path : Str}
    {live : Finset H} {out : Marked H} (hv : visit hs s path r live = .ok out) : Collects hs s r.value live out := by
  have htyped := hsound.typed_entry hr
  have hlink := htyped.not_link ((hsound.key_eq hr).symm ▸ htree)
  unfold visit at hv
  rw [follow_of_not_link hlink] at hv
  by_cases hsize : isHashSized hs r.value = true
  · simp only [hsize, if_true] at hv
    cases hv
    exact .of_refs_nil (.refl _) (refs_of_isHashSized hsize hlink) rfl
  simp only [hsize, if_false, Bool.false_eq_true] at hv
  cases ht : r.entryType with
  | directoryIndex =>
    simp only [ht] at hv
    have hcollects := directoryChildren_collects hsound (Heap.mem_cells (Heap.entry_including_deleted hr)) hv
    have hext : Extends hs s (live, []) (insert (hs.directoryPathHash path) live, []) :=
      .insert (a := (live, [])) fun hkey _ => (not_treeKey_directoryPathHash path hkey).elim
    exact ⟨hext.trans hcollects.grown, hcollects.found, hcollects.typed⟩
  | fileRecord =>
    simp only [ht] at hv
    split at hv
    · rename_i record hvalue
      cases hv
      simp only [Typed, hvalue] at htyped
      refine ⟨.union (a := (live, [])) (fileMarks_not_points hsound htyped.2.2), fun c hc => ?_, by simp⟩
      have hc : c ∈ record.chunkHashes := by simpa only [hvalue, refs] using hc
      exact Or.inl (Finset.mem_union_left _ (by simp [fileMarks, hc]))
    · cases hv
  | symlink =>
    have hrefs := htyped.refs_of_leaf (by simp [ht]) (by simp [ht])
    simp only [ht] at hv
    have hpath (a : Marked H) : Extends hs s a (insert (hs.symlinkPathHash path) a.1, a.2) :=
      .insert fun hkey _ => (not_treeKey_symlinkPathHash path hkey).elim
    split at hv
    · rename_i record hvalue
      cases hv
      have hcontent : Extends hs s (live, []) (insert (hs.symlinkContentHash record) live, []) :=
        .insert (a := (live, [])) fun hkey _ => (not_treeKey_symlinkContentHash record hkey).elim
      exact .of_refs_nil (hcontent.trans (hpath _)) hrefs rfl
    · cases hv
      exact .of_refs_nil (hpath (live, [])) hrefs rfl
  | _ =>
    have hrefs := htyped.refs_of_leaf (by simp [ht]) (by simp [ht])
    simp only [ht] at hv
    cases hv
    exact .of_refs_nil (.refl _) hrefs rfl

end AeorDb.Gc
