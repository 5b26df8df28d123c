import Mathlib

/-! Cutting a list into consecutive groups of a fixed size. -/

namespace AeorDb.Library.Grouping

open List

variable {α : Type}

def starts (size length : ℕ) : List ℕ := (List.range ((length + size - 1) / size)).map (· * size)

def groups (size : ℕ) (l : List α) : List (List α) := (starts size l.length).map fun i => (l.drop i).take size

variable {size length : ℕ} {l : List α}

lemma starts_of_le (hs : 0 < length) (h : length ≤ size) : starts size length = [0] := by
  have hdiv : (length + size - 1) / size = 1 := by
    rw [Nat.div_eq_iff (by omega)]
    omega
  simp [starts, hdiv]

lemma starts_of_lt (hs : 0 < size) (h : size < length) :
    starts size length = 0 :: (starts size (length - size)).map (· + size) := by
  have hdiv : (length + size - 1) / size = (length - size + size - 1) / size + 1 := by
    rw [← Nat.add_div_right _ hs]
    congr 1
    omega
  simp only [starts, hdiv, range_succ_eq_map, map_cons, map_map, Nat.zero_mul]
  congr 2
  funext i
  simp [Nat.succ_mul]

variable {size : ℕ}

lemma groups_of_le (hne : l ≠ []) (h : l.length ≤ size) : groups size l = [l] := by
  rw [groups, starts_of_le (length_pos_of_ne_nil hne) h]
  simp [take_of_length_le h]

lemma groups_of_lt (hs : 0 < size) (h : size < l.length) : groups size l = l.take size :: groups size (l.drop size) := by
  rw [groups, starts_of_lt hs h, groups, length_drop]
  simp [Function.comp_def, Nat.add_comm]

lemma group_induction (hs : 0 < size) {motive : (l : List α) → l ≠ [] → Prop} (last : ∀ l (hne : l ≠ []), l.length ≤ size → motive l hne)
    (step : ∀ l (hne : l ≠ []) (hd : l.drop size ≠ []), size < l.length → motive (l.drop size) hd → motive l hne)
    (l : List α) (hne : l ≠ []) : motive l hne := by
  induction hl : l.length using Nat.strong_induction_on generalizing l with
  | h n ih =>
    by_cases hle : l.length ≤ size
    · exact last l hne hle
    · have hd : l.drop size ≠ [] := by
        rw [ne_eq, drop_eq_nil_iff]
        omega
      refine step l hne hd (by omega) (ih (n - size) (by omega) (l.drop size) hd ?_)
      rw [length_drop]
      omega

lemma flatten_groups (hs : 0 < size) (l : List α) (hne : l ≠ []) : (groups size l).flatten = l := by
  induction l, hne using group_induction hs with
  | last l hne h => simp [groups_of_le hne h]
  | step l _ _ h ih => rw [groups_of_lt hs h, flatten_cons, ih, take_append_drop]

lemma length_groups (size : ℕ) (l : List α) : (groups size l).length = (l.length + size - 1) / size := by
  simp [groups, starts]

lemma groups_ne_nil (hs : 0 < size) (l : List α) (hne : l ≠ []) : ∀ g ∈ groups size l, g ≠ [] := by
  induction l, hne using group_induction hs with
  | last l hne h => simpa [groups_of_le hne h] using hne
  | step l _ _ h ih =>
    rw [groups_of_lt hs h]
    refine forall_mem_cons.mpr ⟨?_, ih⟩
    rw [ne_eq, take_eq_nil_iff]
    rintro (h0 | rfl)
    · omega
    · simp at h

lemma length_of_mem_groups {l g : List α} (hg : g ∈ groups size l) : g.length ≤ size := by
  obtain ⟨i, _, rfl⟩ := mem_map.mp hg
  simp

lemma mem_of_mem_groups {l g : List α} {a : α} (hg : g ∈ groups size l) (ha : a ∈ g) : a ∈ l := by
  obtain ⟨i, _, rfl⟩ := mem_map.mp hg
  exact mem_of_mem_drop (mem_of_mem_take ha)

lemma groups_map {β : Type} (f : α → β) (size : ℕ) (l : List α) : groups size (l.map f) = (groups size l).map (List.map f) := by
  simp [groups, map_drop, map_take]

lemma mem_starts {size length i : ℕ} : i ∈ starts size length ↔ ∃ j < (length + size - 1) / size, j * size = i := by
  simp [starts]

end AeorDb.Library.Grouping
