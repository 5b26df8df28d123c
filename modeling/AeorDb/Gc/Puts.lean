import AeorDb.Gc.Writers

/-! Writing entries at positions that are free. -/

namespace AeorDb.Gc

open Store BTree Dir Library List Option Heap

variable {H : Type} {hs : Hasher H} {s t u : Heap H} {rs : List (LogEntry H)}

structure Puts (voids : Finset ℕ) (s t : Heap H) (rs : List (LogEntry H)) : Prop where
  fresh : ∀ r ∈ rs, ∃ i, t.getKvEntry r.key = some i ∧ (i.offset ∈ voids ∨ s.cells.length ≤ i.offset) ∧
    ∃ r' ∈ rs, t.cells[i.offset]? = some r' ∧ r'.key = r.key
  index : ∀ h, (∀ r ∈ rs, r.key ≠ h) → t.getKvEntry h = s.getKvEntry h
  cells : ∀ p, p < s.cells.length → p ∉ voids → t.cells[p]? = s.cells[p]?
  mem : ∀ r ∈ t.cells, r ∈ s.cells ∨ r ∈ rs
  length : s.cells.length ≤ t.cells.length

lemma Puts.nil (s : Heap H) : Puts ∅ s s [] where
  fresh := by simp
  index := by simp
  cells := by simp
  mem r hr := Or.inl hr
  length := Nat.le_refl _

lemma Puts.cons {r : LogEntry H} (h : Puts ∅ s t [r]) (h' : Puts ∅ t u rs) : Puts ∅ s u (r :: rs) where
  fresh := by
    intro x hx
    by_cases hlater : ∃ y ∈ rs, y.key = x.key
    · obtain ⟨y, hy, hkey⟩ := hlater
      obtain ⟨i, hi, hoff, r', hr', hcell, hkey'⟩ := h'.fresh y hy
      refine ⟨i, hkey ▸ hi, Or.inr ?_, r', mem_cons_of_mem _ hr', hcell, hkey'.trans hkey⟩
      exact h.length.trans (hoff.resolve_left (by simp))
    · have hx : x ∈ [r] := by
        obtain rfl | hx := mem_cons.mp hx
        · exact mem_singleton_self _
        · exact (hlater ⟨x, hx, rfl⟩).elim
      obtain ⟨i, hi, hoff, r', hr', hcell, hkey⟩ := h.fresh x hx
      refine ⟨i, ?_, hoff, r', mem_cons.mpr (Or.inl (mem_singleton.mp hr')), ?_, hkey⟩
      · rw [h'.index _ fun y hy heq => hlater ⟨y, hy, heq⟩, hi]
      · rw [h'.cells _ (List.getElem?_eq_some_iff.mp hcell).1 (by simp), hcell]
  index k hk := by
    rw [h'.index k fun x hx => hk x (mem_cons_of_mem _ hx), h.index k fun x hx => ?_]
    exact hk x (mem_cons.mpr (Or.inl (mem_singleton.mp hx)))
  cells p hp hvoid := by rw [h'.cells p (hp.trans_le h.length) hvoid, h.cells p hp hvoid]
  mem x hx := by
    obtain hx | hx := h'.mem x hx
    · obtain hx | hx := h.mem x hx
      · exact Or.inl hx
      · exact Or.inr (mem_cons.mpr (Or.inl (mem_singleton.mp hx)))
    · exact Or.inr (mem_cons_of_mem _ hx)
  length := h.length.trans h'.length

lemma Puts.weaken {voids : Finset ℕ} (h : Puts ∅ s t rs) : Puts voids s t rs := by
  refine ⟨fun r hr => ?_, h.index, fun p hp _ => h.cells p hp (by simp), h.mem, h.length⟩
  obtain ⟨i, hi, hoff, hcell⟩ := h.fresh r hr
  exact ⟨i, hi, Or.inr (hoff.resolve_left (by simp)), hcell⟩

section

variable [DecidableEq H]

lemma getKvEntry_update (s : Heap H) (cells : List (LogEntry H)) (k h : H) (p : ℕ) :
    (Heap.mk (Function.update s.index k (some ⟨p, false⟩)) cells).getKvEntry h =
      if h = k then some ⟨p, false⟩ else s.getKvEntry h := by
  by_cases hk : h = k
  · subst hk
    simp [getKvEntry, Option.filter]
  · simp [getKvEntry, hk]

lemma Puts.append (s : Heap H) (r : LogEntry H) : Puts ∅ s (s.append r) [r] where
  fresh := by
    intro r' hr'
    obtain rfl := mem_singleton.mp hr'
    refine ⟨⟨s.cells.length, false⟩, ?_, Or.inr (Nat.le_refl _), r', hr', ?_, rfl⟩
    · rw [Heap.append, getKvEntry_update, if_pos rfl]
    · simp [Heap.append]
  index h hh := by
    rw [Heap.append, getKvEntry_update, if_neg fun heq => hh r (mem_singleton_self r) heq.symm]
  cells p hp _ := getElem?_append_left hp
  mem r' hr' := mem_append.mp hr'
  length := by simp [Heap.append]

lemma Puts.overwrite (s : Heap H) (r : LogEntry H) {p : ℕ} {voids : Finset ℕ} (hp : p ∈ voids) (hlt : p < s.cells.length) :
    Puts voids s (s.overwrite p r) [r] where
  fresh := by
    intro r' hr'
    obtain rfl := mem_singleton.mp hr'
    refine ⟨⟨p, false⟩, ?_, Or.inl hp, r', hr', ?_, rfl⟩
    · rw [Heap.overwrite, getKvEntry_update, if_pos rfl]
    · simp [Heap.overwrite, hlt]
  index h hh := by
    rw [Heap.overwrite, getKvEntry_update, if_neg fun heq => hh r (mem_singleton_self r) heq.symm]
  cells q _ hq := by
    have hne : p ≠ q := fun heq => hq (heq ▸ hp)
    simp [Heap.overwrite, hne]
  mem r' hr' := by
    obtain hr' | rfl := mem_or_eq_of_mem_set hr'
    · exact Or.inl hr'
    · exact Or.inr (mem_singleton_self _)
  length := by simp [Heap.overwrite]

lemma Puts.foldl_append (rs : List (LogEntry H)) (s : Heap H) : Puts ∅ s (rs.foldl Heap.append s) rs := by
  induction rs generalizing s with
  | nil => exact .nil s
  | cons r rs ih => exact (Puts.append s r).cons (ih (s.append r))

end

variable {voids : Finset ℕ} (hput : Puts voids s t rs) (hsound : Sound hs s) (hdead : ∀ p ∈ voids, Dead s p)

include hput hsound hdead

lemma Puts.entry_old {h : H} (hh : ∀ r ∈ rs, r.key ≠ h) : t.entry h = s.entry h := by
  unfold entry
  rw [hput.index h hh]
  cases hi : s.getKvEntry h with
  | none => rfl
  | some i =>
    obtain ⟨r, hr, -⟩ := hsound.own h i hi
    rw [bind_some, bind_some]
    exact hput.cells _ (List.getElem?_eq_some_iff.mp hr).1 fun hp => hdead _ hp h i hi rfl

omit hsound hdead in
lemma Puts.entry_new {r : LogEntry H} (hr : r ∈ rs) : ∃ r' ∈ rs, r'.key = r.key ∧ t.entry r.key = some r' := by
  obtain ⟨i, hi, -, r', hr', hcell, hkey⟩ := hput.fresh r hr
  exact ⟨r', hr', hkey, by simp [entry, hi, hcell]⟩

lemma Puts.sound (htyped : ∀ r ∈ rs, Typed hs r) : Sound hs t := by
  refine ⟨fun r hr => (hput.mem r hr).elim (hsound.typed r) (htyped r), fun h i hi => ?_⟩
  by_cases hh : ∃ r ∈ rs, r.key = h
  · obtain ⟨r, hr, rfl⟩ := hh
    obtain ⟨j, hj, -, r', -, hcell, hkey⟩ := hput.fresh r hr
    obtain rfl : j = i := some.inj (hj.symm.trans hi)
    exact ⟨r', hcell, hkey⟩
  · have hh : ∀ r ∈ rs, r.key ≠ h := fun r hr heq => hh ⟨r, hr, heq⟩
    rw [hput.index h hh] at hi
    obtain ⟨r, hr, hkey⟩ := hsound.own h i hi
    refine ⟨r, ?_, hkey⟩
    rw [hput.cells _ (List.getElem?_eq_some_iff.mp hr).1 fun hp => hdead _ hp h i hi rfl, hr]

lemma Puts.points {k c : H} (h : Points t k c) : (Points s k c ∧ ∀ r ∈ rs, r.key ≠ k) ∨ ∃ r ∈ rs, r.key = k ∧ c ∈ refs r.value := by
  obtain ⟨x, hx, hc⟩ := h
  by_cases hk : ∃ r ∈ rs, r.key = k
  · obtain ⟨r, hr, rfl⟩ := hk
    obtain ⟨r', hr', hkey, hentry⟩ := hput.entry_new hr
    obtain rfl : r' = x := some.inj (hentry.symm.trans hx)
    exact Or.inr ⟨r', hr', hkey, hc⟩
  · have hk : ∀ r ∈ rs, r.key ≠ k := fun r hr heq => hk ⟨r, hr, heq⟩
    rw [hput.entry_old hsound hdead hk] at hx
    exact Or.inl ⟨⟨x, hx, hc⟩, hk⟩

lemma Puts.reach {P : H → Prop} (hrefs : ∀ r ∈ rs, ∀ c ∈ refs r.value, P c ∨ ∃ r' ∈ rs, r'.key = c) {a c : H} (h : Reach t a c) :
    (Reach s a c ∧ ∀ r ∈ rs, r.key ≠ a) ∨ (∃ r ∈ rs, r.key = c) ∨ ∃ k, P k ∧ Reach s k c := by
  induction h with
  | refl =>
    by_cases ha : ∃ r ∈ rs, r.key = a
    · exact Or.inr (Or.inl ha)
    · exact Or.inl ⟨.refl, fun r hr heq => ha ⟨r, hr, heq⟩⟩
  | @tail b c _ hpoints ih =>
    obtain ⟨hold, hnot⟩ | ⟨r, hr, -, hc⟩ := hput.points hsound hdead hpoints
    · obtain ⟨ih, ha⟩ | ⟨r, hr, hkey⟩ | ⟨k, hk, ih⟩ := ih
      · exact Or.inl ⟨ih.tail hold, ha⟩
      · exact (hnot r hr hkey).elim
      · exact Or.inr (Or.inr ⟨k, hk, ih.tail hold⟩)
    · obtain hc | hc := hrefs r hr c hc
      · exact Or.inr (Or.inr ⟨c, hc, .refl⟩)
      · exact Or.inr (Or.inl hc)

end AeorDb.Gc
