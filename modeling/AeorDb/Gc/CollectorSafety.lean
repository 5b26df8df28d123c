import AeorDb.Gc.WriterSafety

/-! The collection's own steps take away nothing that HEAD or a writer needs. -/

namespace AeorDb.Gc

open Store BTree Dir Library List Option Heap

variable {ι H : Type} [DecidableEq H] {hs : Hasher H} {st : World ι H}

omit [DecidableEq H] in
lemma Inv.aborted (hinv : Inv hs st) : Inv hs st.aborted := by
  refine ⟨⟨hinv.sound, hinv.head, hinv.held, hinv.present, hinv.voids, fun k hk => hinv.refs k ?_⟩, trivial⟩
  exact hk.imp_left fun hk => by simp [World.aborted] at hk

omit [DecidableEq H] in
lemma Inv.beginGcRecheck (hinv : Inv hs st) : Inv hs st.beginGcRecheck := by
  refine ⟨⟨hinv.sound, hinv.head, hinv.held, hinv.present, hinv.voids, fun k hk => hinv.refs k ?_⟩, rfl⟩
  exact hk.imp_left fun hk => by simp [World.beginGcRecheck] at hk

lemma Inv.record {r : LogEntry H} (hinv : Inv hs st) (hphase : st.phase = .begun) (htyped : Typed hs r) (hrefs : refs r.value = []) :
    Inv hs (st.record r) := by
  have hput := Puts.append st.heap r
  have hwrote : Wrote hs st (st.record r) [r] :=
    { put := hput.weaken
      typed := by simpa using htyped
      refs := by simp [hrefs]
      refsHeld := by simp [hrefs]
      grows := fun _ _ hk => hk
      held := fun _ _ hk => Or.inl hk
      head := fun root hroot => ⟨hinv.head root hroot, Or.inl hroot⟩
      voids := Finset.Subset.refl _
      unfree := fun r' hr' i hi hmem => by
        obtain ⟨j, hj, hoff, -⟩ := hput.fresh r' hr'
        obtain rfl : j = i := some.inj (hj.symm.trans hi)
        have hlt := (hinv.voids _ hmem).1
        have hle := hoff.resolve_left (by simp)
        omega
      pending := fun k hk => by
        obtain hk | hk := hk
        · cases hrecheck : st.recheck with
          | none => simp [World.record, hrecheck] at hk
          | some set =>
            simp only [World.record, hrecheck, map_some, getD_some, mem_cons] at hk
            obtain rfl | hk := hk
            · exact Or.inr ⟨r, mem_singleton_self r, rfl⟩
            · exact Or.inl (Or.inl (by simpa [hrecheck] using hk))
        · exact Or.inl (Or.inr hk) }
  refine ⟨hwrote.core hinv.toCore, ?_⟩
  have hsafe := hinv.phase
  unfold PhaseSafe at hsafe ⊢
  simp only [World.record, hphase] at hsafe ⊢
  simpa using hsafe

section

variable {s : Heap H}

lemma getKvEntry_remove (s : Heap H) (k h : H) : (s.remove k).getKvEntry h = if h = k then none else s.getKvEntry h := by
  by_cases hk : h = k
  · subst hk
    cases hi : s.index h <;> simp [getKvEntry, remove, hi, Option.filter]
  · simp [getKvEntry, remove, hk]

lemma getKvEntry_foldl_remove (ks : List H) (s : Heap H) (h : H) :
    (ks.foldl remove s).getKvEntry h = if h ∈ ks then none else s.getKvEntry h := by
  induction ks generalizing s with
  | nil => simp
  | cons k ks ih =>
    rw [foldl_cons, ih, getKvEntry_remove]
    by_cases hk : h = k <;> by_cases hks : h ∈ ks <;> simp [hk, hks]

lemma cells_foldl_remove (ks : List H) (s : Heap H) : (ks.foldl remove s).cells = s.cells := by
  induction ks generalizing s with
  | nil => rfl
  | cons k ks ih => exact ih (s.remove k)

lemma entry_foldl_remove (ks : List H) (s : Heap H) (h : H) : (ks.foldl remove s).entry h = if h ∈ ks then none else s.entry h := by
  rw [entry, getKvEntry_foldl_remove, cells_foldl_remove]
  split_ifs <;> rfl

variable {ks : List H}

lemma reach_foldl_remove {a c : H} (h : Reach (ks.foldl remove s) a c) : Reach s a c := by
  refine Relation.ReflTransGen.mono (fun k c hpoints => ?_) _ _ h
  obtain ⟨r, hr, hc⟩ := hpoints
  rw [entry_foldl_remove] at hr
  split_ifs at hr
  exact ⟨r, hr, hc⟩

lemma Core.foldl_remove (phase : Phase H) (hcore : Core hs st) (hks : ∀ k ∈ ks, ¬ Needed st k) :
    Core hs { st with heap := ks.foldl remove st.heap, phase := phase } := by
  have hneeded {c : H} (hc : Needed { st with heap := ks.foldl remove st.heap, phase := phase } c) : Needed st c := by
    obtain ⟨root, hroot, hc⟩ | ⟨w, k, hk, hc⟩ := hc
    · exact Or.inl ⟨root, hroot, reach_foldl_remove hc⟩
    · exact Or.inr ⟨w, k, hk, reach_foldl_remove hc⟩
  refine ⟨⟨fun r hr => ?_, fun h i hi => ?_⟩, hcore.head, hcore.held, fun c hc => ?_, fun p hp => ?_, fun k hk c hc => ?_⟩
  · rw [cells_foldl_remove] at hr
    exact hcore.sound.typed r hr
  · rw [getKvEntry_foldl_remove] at hi
    split_ifs at hi
    rw [cells_foldl_remove]
    exact hcore.sound.own h i hi
  · obtain ⟨r, hr⟩ := hcore.present c (hneeded hc)
    exact ⟨r, by rw [entry_foldl_remove, if_neg fun hmem => hks c hmem (hneeded hc), hr]⟩
  · obtain ⟨hlt, hdead⟩ := hcore.voids p hp
    refine ⟨by rw [cells_foldl_remove]; exact hlt, fun h i hi => ?_⟩
    rw [getKvEntry_foldl_remove] at hi
    split_ifs at hi
    exact hdead h i hi
  · obtain ⟨r, hr, hc⟩ := hc
    rw [entry_foldl_remove] at hr
    split_ifs at hr
    exact hcore.refs k hk c ⟨r, hr, hc⟩

end

lemma Inv.pruneSnapshot {name : Str} (hinv : Inv hs st) (hphase : st.phase = .begun) : Inv hs (st.dropSnapshot hs name) := by
  have hnot : ∀ k ∈ [hs.snapshotKey name], ¬ Needed st k := by
    intro k hk hneeded
    obtain rfl := mem_singleton.mp hk
    obtain ⟨root, hroot, hreach⟩ | ⟨w, k, hk, hreach⟩ := hneeded
    · exact (hinv.sound.treeKey_of_reach (hinv.head root hroot) hreach).ne_snapshotKey name rfl
    · obtain heq | ⟨b, -, hpoints⟩ := Relation.ReflTransGen.cases_tail hreach
      · exact hinv.held w k hk name heq.symm
      · exact (hinv.sound.treeKey_of_points hpoints).ne_snapshotKey name rfl
  have hcore := hinv.toCore.foldl_remove st.phase hnot
  refine ⟨hcore, ?_⟩
  have hsafe := hinv.phase
  unfold PhaseSafe at hsafe ⊢
  simp only [World.dropSnapshot, hphase] at hsafe ⊢
  exact hsafe

lemma Inv.mark (hinv : Inv hs st) (hphase : st.phase = .begun) (hshield : ∀ w, ∀ h ∈ st.held w, InHead st h ∨ Pending st h) :
    Inv hs (st.mark hs) := by
  unfold World.mark
  cases hmark : gcMark hs st.heap st.head with
  | error err => exact hinv.aborted
  | ok live =>
    refine ⟨⟨hinv.sound, hinv.head, hinv.held, hinv.present, hinv.voids, hinv.refs⟩, ?_⟩
    have hrecheck := hinv.phase
    unfold PhaseSafe at hrecheck
    simp only [hphase] at hrecheck
    refine ⟨hrecheck, fun c hc => ?_⟩
    have hclosed : ∀ k c, (InHead st k ∨ Pending st k) → Reach st.heap k c → InHead st c ∨ Pending st c := by
      intro k c hk hreach
      induction hreach with
      | refl => exact hk
      | @tail b c _ hpoints ih =>
        obtain ⟨root, hroot, hb⟩ | hb := ih
        · exact Or.inl ⟨root, hroot, hb.tail hpoints⟩
        · obtain ⟨w, hw⟩ := hinv.refs b hb c hpoints
          exact hshield w c hw
    have hcases : InHead st c ∨ Pending st c := by
      obtain hc | ⟨w, k, hk, hreach⟩ := hc
      · exact Or.inl hc
      · exact hclosed k c (hshield w k hk) hreach
    obtain ⟨root, hroot, hreach⟩ | hc := hcases
    · exact Or.inl (gcMark_covers hinv.sound hinv.head hmark (Or.inl hroot) hreach)
    · exact Or.inr hc

variable {s : Heap H} {freed : List (H × ℕ)}

lemma foldlM_markEntry {pending : List H} {live out : Finset H}
    (h : pending.foldlM (fun live h => markEntry hs s h [] live) live = .ok out) : live ⊆ out ∧ ∀ k ∈ pending, k ∈ out := by
  induction pending generalizing live with
  | nil =>
    cases h
    exact ⟨Finset.Subset.refl _, by simp⟩
  | cons k pending ih =>
    rw [foldlM_cons] at h
    obtain ⟨mid, hmid, h⟩ := Result.bind_eq_ok.mp h
    obtain ⟨hsub, hmem⟩ := ih h
    refine ⟨fun x hx => hsub (markEntryRecursive_subset hmid hx), fun x hx => ?_⟩
    obtain rfl | hx := mem_cons.mp hx
    · exact hsub (mem_markEntry hmid)
    · exact hmem x hx

lemma Inv.drain {live : Finset H} {pending : List H} (hinv : Inv hs st) (hphase : st.phase = .marked live)
    (hpending : ∀ h, h ∈ pending ↔ h ∈ st.recheck.getD []) : Inv hs (st.drain hs live pending) := by
  have hsafe := hinv.phase
  unfold PhaseSafe at hsafe
  simp only [hphase] at hsafe
  unfold World.drain
  split_ifs
  · exact ⟨⟨hinv.sound, hinv.head, hinv.held, hinv.present, hinv.voids, hinv.refs⟩, hsafe⟩
  cases hmark : pending.foldlM (fun live h => markEntry hs st.heap h [] live) live with
  | error err => exact hinv.aborted
  | ok live' =>
    obtain ⟨hsub, hmem⟩ := foldlM_markEntry hmark
    refine ⟨⟨hinv.sound, hinv.head, hinv.held, hinv.present, hinv.voids, fun k hk => hinv.refs k ?_⟩, rfl, fun c hc => ?_⟩
    · exact hk.imp_left fun hk => by simp at hk
    · obtain hc | hc | hc := hsafe.2 c hc
      · exact Or.inl (hsub hc)
      · exact Or.inl (hmem c ((hpending c).mpr hc))
      · exact Or.inr (Or.inr hc)

omit [DecidableEq H] in
lemma mem_iterKvEntries {r : LogEntry H} {p : ℕ} (h : (r, p) ∈ s.iterKvEntries) :
    s.getKvEntry r.key = some ⟨p, false⟩ ∧ p < s.cells.length := by
  obtain ⟨hmem, hindex⟩ := mem_filter.mp h
  have hindex : s.index r.key = some ⟨p, false⟩ := by simpa using hindex
  refine ⟨by simp [getKvEntry, hindex, Option.filter], ?_⟩
  exact (List.getElem?_eq_some_iff.mp (mem_zipIdx_iff_getElem?.mp hmem)).1

lemma Inv.scan {live : Finset H} (hinv : Inv hs st) (hphase : st.phase = .drained live) (hshield : ∀ w, st.unreported w = none) :
    Inv hs (st.scan live) := by
  have hsafe := hinv.phase
  unfold PhaseSafe at hsafe
  simp only [hphase] at hsafe
  refine ⟨⟨hinv.sound, hinv.head, hinv.held, hinv.present, hinv.voids, hinv.refs⟩, fun x hx => ?_⟩
  obtain ⟨hx, hspared⟩ := mem_filter.mp hx
  obtain ⟨⟨r, p⟩, hmem, rfl⟩ := mem_map.mp hx
  obtain ⟨hlive, hrecheck⟩ : r.key ∉ live ∧ r.key ∉ st.recheck.getD [] := by simpa using hspared
  obtain ⟨hindex, hlt⟩ := mem_iterKvEntries hmem
  refine ⟨⟨hlt, fun hvoid => (hinv.voids p hvoid).2 r.key _ hindex rfl⟩, fun i hneeded => ?_⟩
  obtain hc | hc | ⟨w, hw⟩ := hsafe.2 r.key hneeded
  · exact (hlive hc).elim
  · exact (hrecheck hc).elim
  · rw [hshield w] at hw
    cases hw

omit [DecidableEq H] in
lemma Inv.verify {candidates : List (H × ℕ)} (hinv : Inv hs st) (hphase : st.phase = .scanned candidates) :
    Inv hs (st.verify candidates) := by
  have hsafe := hinv.phase
  unfold PhaseSafe at hsafe
  simp only [hphase] at hsafe
  refine ⟨⟨hinv.sound, hinv.head, hinv.held, hinv.present, hinv.voids, hinv.refs⟩, fun x hx => ?_⟩
  obtain ⟨hx, hfresh⟩ := mem_filter.mp hx
  obtain ⟨i, hi, hoff⟩ := Option.map_eq_some_iff.mp (of_decide_eq_true hfresh)
  obtain ⟨r, hr, hkey⟩ := hinv.sound.own x.1 i hi
  obtain ⟨hkept, hmoved⟩ := hsafe x hx
  refine ⟨hkept, ?_, fun hneeded => hmoved i hneeded hi hoff⟩
  change (st.heap.cells[x.2]?).map LogEntry.key = some x.1
  rw [← hoff, hr, map_some, hkey]

lemma Inv.remove (hinv : Inv hs st) (hphase : st.phase = .verified freed) : Inv hs (st.remove freed) := by
  have hsafe := hinv.phase
  unfold PhaseSafe at hsafe
  simp only [hphase] at hsafe
  refine ⟨hinv.toCore.foldl_remove _ fun k hk => ?_, fun x hx => ?_⟩
  · obtain ⟨x, hx, rfl⟩ := mem_map.mp hk
    exact (hsafe x hx).2.2
  · obtain ⟨hkept, hkey, -⟩ := hsafe x hx
    refine ⟨⟨?_, hkept.2⟩, fun h i hi heq => ?_⟩
    · change x.2 < ((freed.map Prod.fst).foldl Heap.remove st.heap).cells.length
      rw [cells_foldl_remove]
      exact hkept.1
    · change ((freed.map Prod.fst).foldl Heap.remove st.heap).getKvEntry h = some i at hi
      rw [getKvEntry_foldl_remove] at hi
      split_ifs at hi with hmem
      obtain ⟨r, hr, hrkey⟩ := hinv.sound.own h i hi
      rw [← heq, hr, map_some, Option.some.injEq, hrkey] at hkey
      exact hmem (hkey ▸ mem_map_of_mem hx)

omit [DecidableEq H] in
lemma Inv.registerVoids (hinv : Inv hs st) (hphase : st.phase = .removed freed) :
    Inv hs (st.registerVoids freed) := by
  have hsafe := hinv.phase
  unfold PhaseSafe at hsafe
  simp only [hphase] at hsafe
  refine ⟨⟨hinv.sound, hinv.head, hinv.held, hinv.present, fun p hp => ?_, hinv.refs⟩, trivial⟩
  obtain hp | hp := Finset.mem_union.mp hp
  · obtain ⟨x, hx, rfl⟩ := mem_map.mp (mem_toFinset.mp hp)
    exact ⟨(hsafe x hx).1.1, (hsafe x hx).2⟩
  · exact hinv.voids p hp

end AeorDb.Gc
