import AeorDb.Gc.Puts

/-! The invariant of a collection beside writers, and that the writers' steps keep it. -/

namespace AeorDb.Gc

open Store BTree Dir Library List Option Function World

variable {ι H : Type} {hs : Hasher H} {st st' : World ι H} {rs : List (LogEntry H)}

def Needed (st : World ι H) (c : H) : Prop := InHead st c ∨ ∃ w, ∃ k ∈ st.held w, Reach st.heap k c

def Kept (st : World ι H) (p : ℕ) : Prop := p < st.heap.cells.length ∧ p ∉ st.voids

def PhaseSafe (st : World ι H) : Prop :=
  match st.phase with
  | .begun => st.recheck.isSome = true
  | .marked live | .drained live => st.recheck.isSome = true ∧ ∀ c, Needed st c → c ∈ live ∨ Pending st c
  | .scanned candidates =>
    ∀ x ∈ candidates, Kept st x.2 ∧ ∀ i, Needed st x.1 → st.heap.getKvEntry x.1 = some i → i.offset ≠ x.2
  | .verified freed =>
    ∀ x ∈ freed, Kept st x.2 ∧ (st.heap.cells[x.2]?).map LogEntry.key = some x.1 ∧ ¬ Needed st x.1
  | .removed freed => ∀ x ∈ freed, Kept st x.2 ∧ Dead st.heap x.2
  | .idle | .registered | .done => True

structure Core (hs : Hasher H) (st : World ι H) : Prop where
  sound : Sound hs st.heap
  head : ∀ root, st.head = some root → TreeKey hs root
  held : ∀ w, ∀ k ∈ st.held w, ∀ name, k ≠ hs.snapshotKey name
  present : ∀ c, Needed st c → ∃ r, st.heap.entry c = some r
  voids : ∀ p ∈ st.voids, p < st.heap.cells.length ∧ Dead st.heap p
  refs : ∀ k, Pending st k → ∀ c, Points st.heap k c → ∃ w, c ∈ st.held w

structure Inv (hs : Hasher H) (st : World ι H) : Prop extends Core hs st where
  phase : PhaseSafe st

lemma needed_of_held {w : ι} {k : H} (hk : k ∈ st.held w) : Needed st k := Or.inr ⟨w, k, hk, .refl⟩

lemma Needed.of_reach {k c : H} (h : Needed st k) (hreach : Reach st.heap k c) : Needed st c := by
  obtain ⟨root, hroot, h⟩ | ⟨w, k', hk', h⟩ := h
  · exact Or.inl ⟨root, hroot, h.trans hreach⟩
  · exact Or.inr ⟨w, k', hk', h.trans hreach⟩

section

structure Wrote (hs : Hasher H) (st st' : World ι H) (rs : List (LogEntry H)) : Prop where
  put : Puts st.voids st.heap st'.heap rs
  typed : ∀ r ∈ rs, Typed hs r
  refs : ∀ r ∈ rs, ∀ c ∈ refs r.value, (∃ w, c ∈ st.held w) ∨ ∃ r' ∈ rs, r'.key = c
  refsHeld : ∀ r ∈ rs, ∀ c ∈ Gc.refs r.value, ∃ w, c ∈ st'.held w
  grows : ∀ w, st.held w ⊆ st'.held w
  held : ∀ w, ∀ k ∈ st'.held w, k ∈ st.held w ∨ (∃ r ∈ rs, r.key = k) ∧ ∀ name, k ≠ hs.snapshotKey name
  head : ∀ root, st'.head = some root → TreeKey hs root ∧ (st.head = some root ∨ ∃ w, root ∈ st'.held w)
  voids : st'.voids ⊆ st.voids
  unfree : ∀ r ∈ rs, ∀ i, st'.heap.getKvEntry r.key = some i → i.offset ∉ st'.voids
  pending : ∀ k, Pending st' k → Pending st k ∨ ∃ r ∈ rs, r.key = k

variable (h : Wrote hs st st' rs) (hcore : Core hs st)

include h hcore

lemma Wrote.needed {c : H} (hc : Needed st' c) : Needed st c ∨ ∃ r ∈ rs, r.key = c := by
  have hreach {a : H} (ha : Needed st a ∨ ∃ r ∈ rs, r.key = a) (hac : Reach st'.heap a c) : Needed st c ∨ ∃ r ∈ rs, r.key = c := by
    obtain ⟨hac, hnot⟩ | hc | ⟨k, ⟨w, hk⟩, hkc⟩ := h.put.reach hcore.sound (fun p hp => (hcore.voids p hp).2) h.refs hac
    · obtain ha | ⟨r, hr, hkey⟩ := ha
      · exact Or.inl (ha.of_reach hac)
      · exact (hnot r hr hkey).elim
    · exact Or.inr hc
    · exact Or.inl ((needed_of_held hk).of_reach hkc)
  have hheld {w : ι} {k : H} (hk : k ∈ st'.held w) : Needed st k ∨ ∃ r ∈ rs, r.key = k := by
    obtain hk | ⟨hk, -⟩ := h.held w k hk
    · exact Or.inl (needed_of_held hk)
    · exact Or.inr hk
  obtain ⟨root, hroot, hc⟩ | ⟨w, k, hk, hc⟩ := hc
  · obtain ⟨-, hroot | ⟨w, hroot⟩⟩ := h.head root hroot
    · exact hreach (Or.inl (Or.inl ⟨root, hroot, .refl⟩)) hc
    · exact hreach (hheld hroot) hc
  · exact hreach (hheld hk) hc

lemma Wrote.core : Core hs st' where
  sound := h.put.sound hcore.sound (fun p hp => (hcore.voids p hp).2) h.typed
  head root hroot := (h.head root hroot).1
  held w k hk := by
    obtain hk | ⟨-, hk⟩ := h.held w k hk
    · exact hcore.held w k hk
    · exact hk
  present c hc := by
    by_cases hnew : ∃ r ∈ rs, r.key = c
    · obtain ⟨r, hr, rfl⟩ := hnew
      obtain ⟨r', -, -, hentry⟩ := h.put.entry_new hr
      exact ⟨r', hentry⟩
    · obtain ⟨r, hr⟩ := hcore.present c ((h.needed hcore hc).resolve_right hnew)
      refine ⟨r, ?_⟩
      rw [h.put.entry_old hcore.sound (fun p hp => (hcore.voids p hp).2) fun r hr heq => hnew ⟨r, hr, heq⟩, hr]
  voids p hp := by
    obtain ⟨hlt, hdead⟩ := hcore.voids p (h.voids hp)
    refine ⟨hlt.trans_le h.put.length, fun k i hi heq => ?_⟩
    by_cases hnew : ∃ r ∈ rs, r.key = k
    · obtain ⟨r, hr, rfl⟩ := hnew
      exact h.unfree r hr i hi (heq ▸ hp)
    · rw [h.put.index k fun r hr heq => hnew ⟨r, hr, heq⟩] at hi
      exact hdead k i hi heq
  refs k hk c hc := by
    obtain ⟨hc, hnot⟩ | ⟨r, hr, -, hc⟩ := h.put.points hcore.sound (fun p hp => (hcore.voids p hp).2) hc
    · obtain hk | ⟨r, hr, hkey⟩ := h.pending k hk
      · obtain ⟨w, hc⟩ := hcore.refs k hk c hc
        exact ⟨w, h.grows w hc⟩
      · exact (hnot r hr hkey).elim
    · exact h.refsHeld r hr c hc

omit hcore in
lemma Wrote.kept {p : ℕ} (hp : Kept st p) : Kept st' p ∧ st'.heap.cells[p]? = st.heap.cells[p]? ∧
    ∀ r ∈ rs, ∀ i, st'.heap.getKvEntry r.key = some i → i.offset ≠ p := by
  refine ⟨⟨hp.1.trans_le h.put.length, fun hv => hp.2 (h.voids hv)⟩, h.put.cells p hp.1 hp.2, fun r hr i hi heq => ?_⟩
  obtain ⟨j, hj, hoff, -⟩ := h.put.fresh r hr
  obtain rfl : j = i := some.inj (hj.symm.trans hi)
  obtain hoff | hoff := hoff
  · exact hp.2 (heq ▸ hoff)
  · have := hp.1
    omega

lemma Wrote.phaseSafe (hsafe : PhaseSafe st) (hphase : st'.phase = st.phase) (hrecheck : st.recheck.isSome = true → st'.recheck.isSome = true)
    (hkeeps : ∀ k, Pending st k → Pending st' k) (hkeys : st.phase.sweeping = true → ∀ r ∈ rs, Needed st r.key ∨ Pending st' r.key)
    (hfreed : ∀ freed, st.phase = .verified freed → ∀ x ∈ freed, ∀ r ∈ rs, x.1 ≠ r.key) : PhaseSafe st' := by
  unfold PhaseSafe at hsafe ⊢
  rw [hphase]
  have hmarked (hsweeping : st.phase.sweeping = true) {live : Finset H} (hlive : ∀ c, Needed st c → c ∈ live ∨ Pending st c) :
      ∀ c, Needed st' c → c ∈ live ∨ Pending st' c := by
    intro c hc
    have hold (hc : Needed st c) : c ∈ live ∨ Pending st' c := (hlive c hc).imp_right (hkeeps c)
    obtain hc | ⟨r, hr, rfl⟩ := h.needed hcore hc
    · exact hold hc
    · exact (hkeys hsweeping r hr).elim hold Or.inr
  cases hp : st.phase with
  | begun =>
    simp only [hp] at hsafe ⊢
    exact hrecheck hsafe
  | marked live =>
    simp only [hp] at hsafe ⊢
    exact ⟨hrecheck hsafe.1, hmarked (by simp [hp, Phase.sweeping]) hsafe.2⟩
  | drained live =>
    simp only [hp] at hsafe ⊢
    exact ⟨hrecheck hsafe.1, hmarked (by simp [hp, Phase.sweeping]) hsafe.2⟩
  | scanned candidates =>
    simp only [hp] at hsafe ⊢
    intro x hx
    obtain ⟨hkept, hmoved⟩ := hsafe x hx
    obtain ⟨hkept', -, hnew⟩ := h.kept hkept
    refine ⟨hkept', fun i hneeded hi => ?_⟩
    by_cases hwritten : ∃ r ∈ rs, r.key = x.1
    · obtain ⟨r, hr, hkey⟩ := hwritten
      exact hnew r hr i (hkey ▸ hi)
    · rw [h.put.index _ fun r hr heq => hwritten ⟨r, hr, heq⟩] at hi
      exact hmoved i ((h.needed hcore hneeded).resolve_right hwritten) hi
  | verified freed =>
    simp only [hp] at hsafe ⊢
    intro x hx
    obtain ⟨hkept, hkey, hneeded⟩ := hsafe x hx
    obtain ⟨hkept', hcell, -⟩ := h.kept hkept
    refine ⟨hkept', by rw [hcell, hkey], fun hneeded' => ?_⟩
    obtain hold | ⟨r, hr, heq⟩ := h.needed hcore hneeded'
    · exact hneeded hold
    · exact hfreed freed hp x hx r hr heq.symm
  | removed freed =>
    simp only [hp] at hsafe ⊢
    intro x hx
    obtain ⟨hkept, hdead⟩ := hsafe x hx
    obtain ⟨hkept', -, hnew⟩ := h.kept hkept
    refine ⟨hkept', fun k i hi heq => ?_⟩
    by_cases hwritten : ∃ r ∈ rs, r.key = k
    · obtain ⟨r, hr, rfl⟩ := hwritten
      exact hnew r hr i hi heq
    · rw [h.put.index _ fun r hr heq => hwritten ⟨r, hr, heq⟩] at hi
      exact hdead k i hi heq
  | _ => trivial

end

lemma PhaseSafe.of_same (hsafe : PhaseSafe st) (hphase : st'.phase = st.phase) (hheap : st'.heap = st.heap)
    (hvoids : st'.voids = st.voids) (hrecheck : st.recheck.isSome = true → st'.recheck.isSome = true)
    (hneeded : st.phase.sweeping = true → ∀ c, Needed st' c → Needed st c)
    (hpending : st.recheck.isSome = true → ∀ c, Pending st c → Pending st' c) : PhaseSafe st' := by
  unfold PhaseSafe Kept at hsafe ⊢
  rw [hphase, hheap, hvoids]
  cases hp : st.phase with
  | begun =>
    simp only [hp] at hsafe ⊢
    exact hrecheck hsafe
  | marked live =>
    simp only [hp] at hsafe ⊢
    refine ⟨hrecheck hsafe.1, fun c hc => ?_⟩
    exact (hsafe.2 c (hneeded (by simp [hp, Phase.sweeping]) c hc)).imp_right (hpending hsafe.1 c)
  | drained live =>
    simp only [hp] at hsafe ⊢
    refine ⟨hrecheck hsafe.1, fun c hc => ?_⟩
    exact (hsafe.2 c (hneeded (by simp [hp, Phase.sweeping]) c hc)).imp_right (hpending hsafe.1 c)
  | scanned candidates =>
    simp only [hp] at hsafe ⊢
    exact fun x hx => ⟨(hsafe x hx).1, fun i hc => (hsafe x hx).2 i (hneeded (by simp [hp, Phase.sweeping]) _ hc)⟩
  | verified freed =>
    simp only [hp] at hsafe ⊢
    refine fun x hx => ⟨(hsafe x hx).1, (hsafe x hx).2.1, fun hc => (hsafe x hx).2.2 ?_⟩
    exact hneeded (by simp [hp, Phase.sweeping]) _ hc
  | removed freed =>
    simp only [hp] at hsafe ⊢
    exact hsafe
  | _ => trivial

variable {w : ι} {ks : Finset H}

lemma Inv.updateHead {root : H} (hinv : Inv hs st) (htree : TreeKey hs root) (hroot : root ∈ st.held w) : Inv hs (st.updateHead root) := by
  have hneeded {c : H} (hc : Needed (st.updateHead root) c) : Needed st c := by
    obtain ⟨root', hroot', hc⟩ | hc := hc
    · obtain rfl : root = root' := some.inj hroot'
      exact (needed_of_held hroot).of_reach hc
    · exact Or.inr hc
  refine ⟨⟨hinv.sound, fun root' hroot' => ?_, hinv.held, fun c hc => hinv.present c (hneeded hc), hinv.voids, hinv.refs⟩, ?_⟩
  · obtain rfl : root = root' := some.inj hroot'
    exact htree
  · exact hinv.phase.of_same rfl rfl rfl id (fun _ c hc => hneeded hc) fun _ c hc => hc

variable [DecidableEq ι]

lemma Inv.report {k : H} (hinv : Inv hs st) (hk : st.unreported w = some k) : Inv hs (st.recordGcRecheck w k) := by
  have hback {x : H} (hx : Pending (st.recordGcRecheck w k) x) : Pending st x := by
    obtain hx | ⟨v, hv⟩ := hx
    · cases hrecheck : st.recheck with
      | none => simp [recordGcRecheck, hrecheck] at hx
      | some set =>
        simp only [recordGcRecheck, hrecheck, map_some, getD_some, mem_cons] at hx
        obtain rfl | hx := hx
        · exact Or.inr ⟨w, hk⟩
        · exact Or.inl (by simpa [hrecheck] using hx)
    · by_cases hvw : v = w
      · subst hvw
        simp [recordGcRecheck] at hv
      · exact Or.inr ⟨v, by simpa [recordGcRecheck, hvw] using hv⟩
  refine ⟨⟨hinv.sound, hinv.head, hinv.held, hinv.present, hinv.voids, fun x hx => hinv.refs x (hback hx)⟩, ?_⟩
  refine hinv.phase.of_same rfl rfl rfl ?_ (fun _ c hc => hc) fun hrecheck x hx => ?_
  · simp [recordGcRecheck]
  · obtain ⟨set, hset⟩ := Option.isSome_iff_exists.mp hrecheck
    obtain hx | ⟨v, hv⟩ := hx
    · refine Or.inl ?_
      simp only [hset, getD_some] at hx
      simp [recordGcRecheck, hset, hx]
    · by_cases hvw : v = w
      · subst hvw
        obtain rfl : k = x := some.inj (hk.symm.trans hv)
        exact Or.inl (by simp [recordGcRecheck, hset])
      · exact Or.inr ⟨v, by simpa [recordGcRecheck, hvw] using hv⟩

variable [DecidableEq H]

lemma mem_held_hold {v : ι} {k : H} (hk : k ∈ (st.hold w ks).held v) : k ∈ st.held v ∨ k ∈ ks := by
  by_cases hv : v = w
  · subst hv
    simp only [hold, update_self, Finset.mem_union] at hk
    exact hk.symm
  · simp only [hold, update_of_ne hv] at hk
    exact Or.inl hk

lemma held_subset_hold (v : ι) : st.held v ⊆ (st.hold w ks).held v := by
  by_cases hv : v = w
  · subst hv
    simp [hold]
  · simp [hold, hv]

lemma mem_hold_self {k : H} (hk : k ∈ ks) : k ∈ (st.hold w ks).held w := by
  simp [hold, hk]

lemma Inv.hold (hinv : Inv hs st) (hkind : ∀ k ∈ ks, ∀ name, k ≠ hs.snapshotKey name)
    (hpresent : ∀ k ∈ ks, ∀ c, Reach st.heap k c → ∃ r, st.heap.entry c = some r)
    (hneeded : st.phase.sweeping = true → ∀ k ∈ ks, Needed st k) : Inv hs (st.hold w ks) := by
  have hcases {c : H} (hc : Needed (st.hold w ks) c) : Needed st c ∨ ∃ k ∈ ks, Reach st.heap k c := by
    obtain hc | ⟨v, k, hk, hc⟩ := hc
    · exact Or.inl (Or.inl hc)
    · obtain hk | hk := mem_held_hold hk
      · exact Or.inl (Or.inr ⟨v, k, hk, hc⟩)
      · exact Or.inr ⟨k, hk, hc⟩
  have hsame (hsweeping : st.phase.sweeping = true) {c : H} (hc : Needed (st.hold w ks) c) : Needed st c := by
    obtain hc | ⟨k, hk, hc⟩ := hcases hc
    · exact hc
    · exact (hneeded hsweeping k hk).of_reach hc
  refine ⟨⟨hinv.sound, hinv.head, fun v k hk => ?_, fun c hc => ?_, hinv.voids, fun k hk c hc => ?_⟩, ?_⟩
  · obtain hk | hk := mem_held_hold hk
    · exact hinv.held v k hk
    · exact hkind k hk
  · obtain hc | ⟨k, hk, hc⟩ := hcases hc
    · exact hinv.present c hc
    · exact hpresent k hk c hc
  · obtain ⟨v, hv⟩ := hinv.refs k hk c hc
    exact ⟨v, held_subset_hold v hv⟩
  · exact hinv.phase.of_same rfl rfl rfl id (fun hsweeping c hc => hsame hsweeping hc) fun _ c hc => hc

variable (w) in
lemma wrote_of_put {heap : Heap H} {voids : Finset ℕ} (unreported : ι → Option H) (hcore : Core hs st) (hr : Writable hs (st.held w) rs)
    (hput : Puts st.voids st.heap heap rs) (hvoids : voids ⊆ st.voids)
    (hunfree : ∀ r ∈ rs, ∀ i, heap.getKvEntry r.key = some i → i.offset ∉ voids)
    (hunreported : ∀ v k, unreported v = some k → st.unreported v = some k ∨ ∃ r ∈ rs, r.key = k) :
    Wrote hs st { st.hold w (rs.map LogEntry.key).toFinset with heap := heap, voids := voids, unreported := unreported } rs where
  put := hput
  typed := hr.typed
  refs r hr' c hc := (hr.refs r hr' c hc).imp_left fun hc => ⟨w, hc⟩
  refsHeld r hr' c hc := by
    refine ⟨w, ?_⟩
    obtain hc | ⟨r', hr', rfl⟩ := hr.refs r hr' c hc
    · exact held_subset_hold w hc
    · exact mem_hold_self (mem_toFinset.mpr (mem_map_of_mem hr'))
  grows v := held_subset_hold v
  held v k hk := by
    refine (mem_held_hold hk).imp_right fun hk => ?_
    obtain ⟨r, hr', rfl⟩ := mem_map.mp (mem_toFinset.mp hk)
    exact ⟨⟨r, hr', rfl⟩, (hr.typed r hr').ne_snapshotKey (hr.kind r hr')⟩
  head root hroot := ⟨hcore.head root hroot, Or.inl hroot⟩
  voids := hvoids
  unfree := hunfree
  pending k hk := by
    obtain hk | ⟨v, hv⟩ := hk
    · exact Or.inl (Or.inl hk)
    · exact (hunreported v k hv).imp_left fun hv => Or.inr ⟨v, hv⟩

lemma Inv.storeEntry {r : LogEntry H} {void : Option ℕ} (hinv : Inv hs st) (hw : st.unreported w = none)
    (hr : Writable hs (st.held w) [r]) (hvoid : ∀ p, void = some p → p ∈ st.voids ∧ r.entryType = .chunk)
    (hshield : ∀ freed, st.phase = .verified freed → ∀ x ∈ freed, x.1 ≠ r.key) : Inv hs (st.storeEntry w r void) := by
  have hput : Puts st.voids st.heap (st.heap.put void r) [r] := by
    cases void with
    | none => exact (Puts.append st.heap r).weaken
    | some p => exact .overwrite st.heap r (hvoid p rfl).1 (hinv.voids p (hvoid p rfl).1).1
  have hunfree : ∀ r' ∈ [r], ∀ i, (st.heap.put void r).getKvEntry r'.key = some i → i.offset ∉ st.voids \ void.toFinset := by
    intro r' hr' i hi
    obtain rfl := mem_singleton.mp hr'
    cases void with
    | none =>
      rw [Heap.put, Heap.append, getKvEntry_update, if_pos rfl, Option.some.injEq] at hi
      subst hi
      intro hmem
      have := (hinv.voids _ (Finset.mem_sdiff.mp hmem).1).1
      simp at this
    | some p =>
      rw [Heap.put, Heap.overwrite, getKvEntry_update, if_pos rfl, Option.some.injEq] at hi
      subst hi
      simp
  have hwrote := wrote_of_put w (Function.update st.unreported w (some r.key)) hinv.toCore hr hput
    Finset.sdiff_subset hunfree fun v k hv => by
      by_cases hvw : v = w
      · subst hvw
        rw [update_self, Option.some.injEq] at hv
        exact Or.inr ⟨r, mem_singleton_self r, hv⟩
      · rw [update_of_ne hvw] at hv
        exact Or.inl hv
  have hreported : Pending (st.storeEntry w r void) r.key := Or.inr ⟨w, by simp [World.storeEntry]⟩
  refine ⟨hwrote.core hinv.toCore, hwrote.phaseSafe hinv.toCore hinv.phase rfl id (fun k hk => ?_) (fun _ r' hr' => ?_) ?_⟩
  · refine hk.imp_right ?_
    rintro ⟨v, hv⟩
    refine ⟨v, ?_⟩
    have hvw : v ≠ w := by
      rintro rfl
      rw [hw] at hv
      cases hv
    simpa [hvw] using hv
  · obtain rfl := mem_singleton.mp hr'
    exact Or.inr hreported
  · intro freed hp x hx r' hr'
    obtain rfl := mem_singleton.mp hr'
    exact hshield freed hp x hx

lemma Inv.flushBatch (hinv : Inv hs st) (hrs : Writable hs (st.held w) rs)
    (hshield : st.phase.sweeping = true → ∀ r ∈ rs, InHead st r.key ∨ ∃ v, r.key ∈ st.held v) : Inv hs (st.flushBatch w rs) := by
  have hneeded (hsweeping : st.phase.sweeping = true) : ∀ r ∈ rs, Needed st r.key := by
    intro r hr
    obtain hr | ⟨v, hr⟩ := hshield hsweeping r hr
    · exact Or.inl hr
    · exact needed_of_held hr
  have hput : Puts ∅ st.heap (rs.foldl Heap.append st.heap) rs := .foldl_append rs st.heap
  have hunfree : ∀ r ∈ rs, ∀ i, (rs.foldl Heap.append st.heap).getKvEntry r.key = some i → i.offset ∉ st.voids := by
    intro r hr i hi hmem
    obtain ⟨j, hj, hoff, -⟩ := hput.fresh r hr
    obtain rfl : j = i := some.inj (hj.symm.trans hi)
    have := (hinv.voids _ hmem).1
    have := hoff.resolve_left (by simp)
    omega
  have hwrote := wrote_of_put w st.unreported hinv.toCore hrs hput.weaken (Finset.Subset.refl _) hunfree
    fun v k hv => Or.inl hv
  refine ⟨hwrote.core hinv.toCore, hwrote.phaseSafe hinv.toCore hinv.phase rfl id (fun k hk => hk) ?_ ?_⟩
  · exact fun hsweeping r hr => Or.inl (hneeded hsweeping r hr)
  · intro freed hp x hx r hr heq
    have hsafe := hinv.phase
    unfold PhaseSafe at hsafe
    simp only [hp] at hsafe
    exact (hsafe x hx).2.2 (heq ▸ hneeded (by simp [hp, Phase.sweeping]) r hr)

end AeorDb.Gc
