import Mathlib

/-! Walking through an ordered collection page by page, when every page is cut from an ordering of its own. -/

namespace AeorDb.Library.Paging

open List

variable {α κ : Type}

structure TotalPreorder (le : α → α → Bool) : Prop where
  trans : ∀ {a b c}, le a b = true → le b c = true → le a c = true
  total : ∀ a b, le a b = true ∨ le b a = true

def Ordered (le : α → α → Bool) (l : List α) : Prop := l.Pairwise (le · · = true)

def Pinned (le : α → α → Bool) (l : List α) (m : ℕ) : Prop :=
  ∀ x ∈ l, l.countP (fun y => !le x y) < m → m ≤ l.countP (le · x) → ∀ y ∈ l, le x y = true → le y x = true → y = x

section

variable {le : α → α → Bool} {l l' : List α} {i : ℕ}

lemma ordered_mergeSort (hle : TotalPreorder le) (l : List α) : Ordered le (l.mergeSort le) :=
  @List.pairwise_mergeSort α le (fun _ _ _ h h' => hle.trans h h') (fun a b => by simpa using hle.total a b) l

lemma TotalPreorder.refl (hle : TotalPreorder le) (a : α) : le a a = true := (hle.total a a).elim id id

variable {y : α}

section

variable (hle : TotalPreorder le) (h : Ordered le l) (hi : i < l.length)
include hle h hi

lemma Ordered.le_of_mem_drop (hy : y ∈ l.drop i) : le l[i] y = true := by
  rw [drop_eq_getElem_cons hi] at hy
  rcases mem_cons.mp hy with rfl | hy
  · exact hle.refl _
  · have hdrop : Ordered le (l[i] :: l.drop (i + 1)) := by
      rw [← drop_eq_getElem_cons hi]
      exact h.drop
    exact rel_of_pairwise_cons hdrop hy

lemma Ordered.le_of_mem_take (hy : y ∈ l.take (i + 1)) :
    le y l[i] = true := by
  rw [take_succ_eq_append_getElem hi] at hy
  rcases mem_append.mp hy with hy | hy
  · have htake : Ordered le (l.take i ++ [l[i]]) := by
      rw [← take_succ_eq_append_getElem hi]
      exact h.take
    exact (pairwise_append.mp htake).2.2 y hy _ (by simp)
  · rw [mem_singleton.mp hy]
    exact hle.refl _

lemma Ordered.countP_below : l.countP (fun y => !le l[i] y) < i + 1 := by
  have hcut : l.countP (fun y => !le l[i] y) = (l.take i).countP (fun y => !le l[i] y) + (l.drop i).countP (fun y => !le l[i] y) := by
    rw [← countP_append, take_append_drop]
  have hdrop : (l.drop i).countP (fun y => !le l[i] y) = 0 := by
    rw [countP_eq_zero]
    intro y hy
    simp [h.le_of_mem_drop hle hi hy]
  have htake : (l.take i).countP (fun y => !le l[i] y) ≤ i := le_trans countP_le_length (length_take_le i l)
  omega

lemma Ordered.countP_upto : i + 1 ≤ l.countP (le · l[i]) := by
  have htake : (l.take (i + 1)).countP (le · l[i]) = (l.take (i + 1)).length := countP_eq_length.mpr fun y hy => h.le_of_mem_take hle hi hy
  have hsub : (l.take (i + 1)).countP (le · l[i]) ≤ l.countP (le · l[i]) := (take_sublist (i + 1) l).countP_le
  rw [htake, length_take_of_le (by omega)] at hsub
  exact hsub

end

lemma TotalPreorder.le_of_countP (hle : TotalPreorder le) {a b : α} {m : ℕ} (hupto : m ≤ l.countP (le · b))
    (hbelow : l.countP (fun y => !le a y) < m) : le a b = true := by
  by_contra hnot
  have hmono : l.countP (le · b) ≤ l.countP (fun y => !le a y) := by
    refine countP_mono_left fun y _ hy => ?_
    by_contra hay
    exact hnot (hle.trans (by simpa using hay) hy)
  omega

lemma Ordered.le_getElem (hle : TotalPreorder le) (h : Ordered le l) (h' : Ordered le l') (hperm : l.Perm l') (hi : i < l.length)
    (hi' : i < l'.length) : le l[i] l'[i] = true := by
  have hupto := h'.countP_upto hle hi'
  rw [← hperm.countP_eq] at hupto
  exact hle.le_of_countP hupto (h.countP_below hle hi)

lemma Pinned.perm {m : ℕ} (h : Pinned le l m) (hperm : l.Perm l') : Pinned le l' m := by
  intro x hx hbelow hupto y hy hxy hyx
  rw [← hperm.countP_eq] at hbelow hupto
  exact h x (hperm.mem_iff.mpr hx) hbelow hupto y (hperm.mem_iff.mpr hy) hxy hyx

section

variable (hle : TotalPreorder le) (hpin : Pinned le l (i + 1)) (h : Ordered le l)
include hle hpin h

lemma Pinned.eq_getElem (hi : i < l.length) (hy : y ∈ l) (hxy : le l[i] y = true) (hyx : le y l[i] = true) : y = l[i] :=
  hpin l[i] (getElem_mem hi) (h.countP_below hle hi) (h.countP_upto hle hi) y hy hxy hyx

lemma Pinned.mem_take_iff (hi : i < l.length) :
    y ∈ l.take (i + 1) ↔ y ∈ l ∧ le y l[i] = true := by
  refine ⟨fun hy => ⟨mem_of_mem_take hy, h.le_of_mem_take hle hi hy⟩, ?_⟩
  rintro ⟨hy, hle'⟩
  have hsplit : y ∈ l.take i ++ l.drop i := by rwa [take_append_drop]
  rcases mem_append.mp hsplit with htake | hdrop
  · exact (take_subset_take_left l (Nat.le_succ i)) htake
  · rw [hpin.eq_getElem hle h hi hy (h.le_of_mem_drop hle hi hdrop) hle']
    exact mem_take_iff_getElem.mpr ⟨i, by omega, rfl⟩

lemma Pinned.getElem_eq (h' : Ordered le l') (hperm : l'.Perm l) (hi : i < l.length) (hi' : i < l'.length) : l'[i] = l[i] :=
  hpin.eq_getElem hle h hi (hperm.mem_iff.mp (getElem_mem hi')) (h.le_getElem hle h' hperm.symm hi hi') (h'.le_getElem hle h hperm hi' hi)

lemma Pinned.take_perm (h' : Ordered le l') (hperm : l'.Perm l) (hnodup : l.Nodup) (hi : i < l.length) : (l'.take (i + 1)).Perm (l.take (i + 1)) := by
  have hi' : i < l'.length := hperm.length_eq ▸ hi
  have hnodup' : l'.Nodup := hperm.nodup_iff.mpr hnodup
  rw [perm_ext_iff_of_nodup (hnodup'.sublist (take_sublist _ _)) (hnodup.sublist (take_sublist _ _))]
  intro y
  rw [hpin.mem_take_iff hle h hi, (hpin.perm hperm.symm).mem_take_iff hle h' hi', hpin.getElem_eq hle h h' hperm hi hi', hperm.mem_iff]

end

lemma exists_moved (hle : TotalPreorder le) (h : Ordered le l) (hnodup : l.Nodup) (hi : i < l.length)
    (hpin : ¬ Pinned le l (i + 1)) : ∃ l' j, ∃ hj : j < l'.length, Ordered le l' ∧ l'.Perm l ∧ l'[j] = l[i] ∧ j ≠ i := by
  classical
  simp only [Pinned, not_forall] at hpin
  obtain ⟨x, hx, hbelow, hupto, y, hy, hxy, hyx, hne⟩ := hpin
  have hxi : le x l[i] = true := hle.le_of_countP (h.countP_upto hle hi) hbelow
  have hix : le l[i] x = true := hle.le_of_countP hupto (h.countP_below hle hi)
  -- one of the two tied elements is not the one in the place
  obtain ⟨w, hw, hwi, hiw, hwne⟩ : ∃ w ∈ l, le w l[i] = true ∧ le l[i] w = true ∧ w ≠ l[i] := by
    by_cases hxeq : x = l[i]
    · exact ⟨y, hy, hxeq ▸ hyx, hxeq ▸ hxy, hxeq ▸ hne⟩
    · exact ⟨x, hx, hxi, hix, hxeq⟩
  obtain ⟨j, hj, rfl⟩ := getElem_of_mem hw
  have hswap : ∀ a, le (Equiv.swap l[i] l[j] a) a = true ∧ le a (Equiv.swap l[i] l[j] a) = true := by
    intro a
    rcases eq_or_ne a l[i] with rfl | hai
    · rw [Equiv.swap_apply_left]
      exact ⟨hwi, hiw⟩
    rcases eq_or_ne a l[j] with rfl | haj
    · rw [Equiv.swap_apply_right]
      exact ⟨hiw, hwi⟩
    · rw [Equiv.swap_apply_of_ne_of_ne hai haj]
      exact ⟨hle.refl a, hle.refl a⟩
  have hmem : ∀ a ∈ l, Equiv.swap l[i] l[j] a ∈ l := by
    intro a ha
    rcases eq_or_ne a l[i] with rfl | hai
    · simp
    rcases eq_or_ne a l[j] with rfl | haj
    · simp
    · rwa [Equiv.swap_apply_of_ne_of_ne hai haj]
  refine ⟨l.map (Equiv.swap l[i] l[j]), j, by simpa using hj, ?_, ?_, by simp, ?_⟩
  · exact pairwise_map.mpr (h.imp fun hab => hle.trans (hle.trans (hswap _).1 hab) (hswap _).2)
  · rw [perm_ext_iff_of_nodup (hnodup.map (Equiv.injective _)) hnodup]
    intro a
    rw [mem_map]
    constructor
    · rintro ⟨b, hb, rfl⟩
      exact hmem b hb
    · intro ha
      exact ⟨_, hmem a ha, Equiv.swap_apply_self ..⟩
  · rintro rfl
    exact hwne rfl

end

variable [DecidableEq κ] (key : α → κ) (n : ℕ)

def after (cursor : Option κ) (l : List α) : List α :=
  match cursor with
  | none => l
  | some c =>
    match l.findIdx? (key · = c) with
    | some i => l.drop (i + 1)
    | none => l

/-- The pages of `n` elements up to the first that is not followed by another; each starts behind the last element of the one before. -/
def walk : ℕ → Option κ → (ℕ → List α) → Option (List α)
  | 0, _, _ => none
  | fuel + 1, cursor, lists =>
    let rest := after key cursor (lists 0)
    if n < rest.length then (walk fuel ((rest.take n).getLast?.map key) (fun i => lists (i + 1))).map (rest.take n ++ ·)
    else some rest

def cursorAt (l : List α) : ℕ → Option κ
  | 0 => none
  | p + 1 => l[p]?.map key

variable {key n} {l l' : List α} {p : ℕ}

lemma after_cursorAt (hkeys : (l.map key).Nodup) (hp : p ≤ l.length) : after key (cursorAt key l p) l = l.drop p := by
  cases p with
  | zero => rfl
  | succ p =>
    have hfind : l.findIdx? (key · = key l[p]) = some p := by
      rw [findIdx?_eq_some_iff_getElem]
      refine ⟨hp, by simp, fun j hj heq => ?_⟩
      have hsame := inj_on_of_nodup_map hkeys (getElem_mem _) (getElem_mem hp) (by simpa using heq)
      exact absurd ((hkeys.of_map _).getElem_inj_iff.mp hsame) (by omega)
    simp only [cursorAt, getElem?_eq_getElem (show p < l.length from hp), Option.map_some, after, hfind]

variable {cursor : Option κ} {lists : ℕ → List α}

lemma walk_page (fuel : ℕ) (lists : ℕ → List α) (hn : 1 ≤ n) (hstart : after key cursor (lists 0) = (lists 0).drop p)
    (hmore : p + n < (lists 0).length) : walk key n (fuel + 1) cursor lists =
      (walk key n fuel (cursorAt key (lists 0) (p + n)) fun i => lists (i + 1)).map (((lists 0).drop p).take n ++ ·) := by
  have hlast : (((lists 0).drop p).take n).getLast?.map key = cursorAt key (lists 0) (p + n) := by
    obtain ⟨n, rfl⟩ : ∃ n', n = n' + 1 := ⟨n - 1, by omega⟩
    have hlen : (((lists 0).drop p).take (n + 1)).length = n + 1 := by
      simp
      omega
    rw [List.getLast?_eq_getElem?, hlen, Nat.add_sub_cancel, getElem?_take_of_lt (Nat.lt_succ_self n), getElem?_drop]
    rfl
  simp only [walk, hstart, hlast]
  rw [if_pos (by simp; omega)]

lemma walk_last {fuel : ℕ} (hstart : after key cursor (lists 0) = (lists 0).drop p)
    (hlast : (lists 0).length ≤ p + n) : walk key n (fuel + 1) cursor lists = some ((lists 0).drop p) := by
  simp only [walk, hstart]
  rw [if_neg (by simp; omega)]

lemma walk_unique {fuel fuel' : ℕ} {visited visited' : List α}
    (h : walk key n fuel cursor lists = some visited) (h' : walk key n fuel' cursor lists = some visited') : visited = visited' := by
  induction fuel generalizing fuel' lists cursor visited visited' with
  | zero => simp [walk] at h
  | succ fuel ih =>
    cases fuel' with
    | zero => simp [walk] at h'
    | succ fuel' =>
      simp only [walk] at h h'
      split_ifs at h h'
      · obtain ⟨rest, hrest, rfl⟩ := Option.map_eq_some_iff.mp h
        obtain ⟨rest', hrest', rfl⟩ := Option.map_eq_some_iff.mp h'
        rw [ih hrest hrest']
      · rw [← Option.some.inj h, ← Option.some.inj h']

structure Aligned (key : α → κ) (l' l : List α) (p : ℕ) : Prop where
  cursor : cursorAt key l p = cursorAt key l' p
  take_perm : (l.take p).Perm (l'.take p)

lemma walk_aligned (hn : 1 ≤ n) (lists : ℕ → List α) (hkeys : (l.map key).Nodup) (hperm : ∀ i, (lists i).Perm l) (hp : p ≤ l.length)
    (haligned : ∀ i k, p + k * n < l.length → Aligned key l (lists i) (p + k * n)) (hstart : ∀ i, Aligned key l (lists i) p) :
    ∃ fuel visited, walk key n fuel (cursorAt key l p) lists = some visited ∧ visited.Perm (l.drop p) := by
  induction hlen : l.length - p using Nat.strong_induction_on generalizing p lists with
  | _ len ih =>
    have hlength : (lists 0).length = l.length := (hperm 0).length_eq
    have hafter : after key (cursorAt key l p) (lists 0) = (lists 0).drop p := by
      rw [← (hstart 0).cursor]
      exact after_cursorAt (((hperm 0).map key).nodup_iff.mpr hkeys) (hlength ▸ hp)
    have hdrop : ∀ {q}, Aligned key l (lists 0) q → ((lists 0).drop q).Perm (l.drop q) := by
      intro q hq
      have hwhole : ((lists 0).take q ++ (lists 0).drop q).Perm (l.take q ++ l.drop q) := by
        rw [take_append_drop, take_append_drop]
        exact hperm 0
      exact (perm_append_left_iff _).mp (((hq.take_perm.append_right _).symm.trans hwhole))
    by_cases hmore : p + n < l.length
    · have hnext : ∀ i, Aligned key l (lists i) (p + n) := by
        intro i
        have := haligned i 1 (by omega)
        rwa [Nat.one_mul] at this
      obtain ⟨fuel, visited, hwalk, hvisited⟩ := ih (l.length - (p + n)) (by omega) (fun i => lists (i + 1))
        (fun i => hperm (i + 1)) hmore.le (fun i k hk => by
          have := haligned (i + 1) (k + 1) (by rw [Nat.succ_mul]; omega)
          rwa [Nat.succ_mul, Nat.add_comm (k * n), ← Nat.add_assoc] at this) (fun i => hnext (i + 1)) rfl
      refine ⟨fuel + 1, ((lists 0).drop p).take n ++ visited, ?_, ?_⟩
      · rw [walk_page fuel lists hn hafter (hlength ▸ hmore), (hnext 0).cursor, hwalk, Option.map_some]
      · have hpage : (((lists 0).drop p).take n ++ (lists 0).drop (p + n)).Perm (l.drop p) := by
          rw [← drop_drop, take_append_drop]
          exact hdrop (hstart 0)
        exact ((hvisited.trans (hdrop (hnext 0)).symm).append_left _).trans hpage
    · exact ⟨1, _, walk_last hafter (by omega), hdrop (hstart 0)⟩

lemma walk_switch (hn : 1 ≤ n) (hkeys : (l.map key).Nodup) (l' : List α) (fuel k : ℕ) (hp : p + k * n < l.length) :
    walk key n (fuel + k) (cursorAt key l p) (fun i => if i < k then l else l') =
      (walk key n fuel (cursorAt key l (p + k * n)) fun _ => l').map ((l.drop p).take (k * n) ++ ·) := by
  induction k generalizing p with
  | zero => simp
  | succ k ih =>
    rw [Nat.succ_mul] at hp
    have hfirst : (if 0 < k + 1 then l else l') = l := if_pos (Nat.succ_pos k)
    have hpage := walk_page (fuel + k) (fun i => if i < k + 1 then l else l') hn (hfirst.symm ▸ after_cursorAt hkeys (by omega))
      (hfirst.symm ▸ (by omega : p + n < l.length))
    simp only [Nat.zero_lt_succ, if_true, Nat.add_lt_add_iff_right] at hpage
    rw [← Nat.add_assoc, hpage, ih (by omega), Option.map_map, Nat.succ_mul, Nat.add_comm (k * n), ← Nat.add_assoc]
    congr 1
    funext rest
    rw [Function.comp_apply, ← append_assoc, take_add, drop_drop]

variable {le : α → α → Bool} (hle : TotalPreorder le) (hn : 1 ≤ n) (hkeys : (l.map key).Nodup)

include hle hn hkeys

lemma walk_complete_of_pinned (hpin : ∀ k, 0 < k → k * n < l.length → Pinned le l (k * n)) {lists : ℕ → List α}
    (hlists : ∀ i, (lists i).Perm l ∧ Ordered le (lists i)) : ∃ fuel visited, walk key n fuel none lists = some visited ∧ visited.Perm l := by
  have hnodup : l.Nodup := hkeys.of_map
  obtain ⟨hperm, hordered⟩ := hlists 0
  have hkeys' : ((lists 0).map key).Nodup := (hperm.map key).nodup_iff.mpr hkeys
  have haligned : ∀ i k, 0 + k * n < (lists 0).length → Aligned key (lists 0) (lists i) (0 + k * n) := by
    intro i k hk
    rw [Nat.zero_add] at hk ⊢
    rw [hperm.length_eq] at hk
    cases hm : k * n with
    | zero => exact ⟨rfl, by simp⟩
    | succ m =>
      have hk0 : 0 < k := Nat.pos_of_ne_zero fun h => by simp [h] at hm
      have hpinned := (hpin k hk0 hk).perm hperm.symm
      rw [hm] at hpinned hk
      have hpermi : (lists i).Perm (lists 0) := (hlists i).1.trans hperm.symm
      have hm0 : m < (lists 0).length := hperm.length_eq ▸ by omega
      have hmi : m < (lists i).length := hpermi.length_eq ▸ hm0
      constructor
      · simp only [cursorAt, getElem?_eq_getElem hm0, getElem?_eq_getElem hmi, hpinned.getElem_eq hle hordered (hlists i).2 hpermi hm0 hmi]
      · exact hpinned.take_perm hle hordered (hlists i).2 hpermi (hperm.nodup_iff.mpr hnodup) hm0
  obtain ⟨fuel, visited, hwalk, hvisited⟩ := walk_aligned hn lists hkeys' (fun i => (hlists i).1.trans hperm.symm) (Nat.zero_le _) haligned
    (fun i => ⟨rfl, by simp⟩)
  exact ⟨fuel, visited, hwalk, hvisited.trans (by simpa using hperm)⟩

lemma exists_incomplete {k : ℕ} (hk0 : 0 < k) (hk : k * n < l.length) (hpin : ¬ Pinned le l (k * n)) :
    ∃ lists : ℕ → List α, (∀ i, (lists i).Perm l ∧ Ordered le (lists i)) ∧
      ∀ fuel visited, walk key n fuel none lists = some visited → ¬ visited.Perm l := by
  set l₀ := l.mergeSort le
  have hperm : l₀.Perm l := mergeSort_perm ..
  have hordered : Ordered le l₀ := ordered_mergeSort hle l
  have hkeys₀ : (l₀.map key).Nodup := (hperm.map key).nodup_iff.mpr hkeys
  obtain ⟨m, hm⟩ : ∃ m, k * n = m + 1 := ⟨k * n - 1, by have := Nat.mul_pos hk0 hn; omega⟩
  have hm₀ : m < l₀.length := hperm.length_eq ▸ by omega
  have hpin₀ : ¬ Pinned le l₀ (m + 1) := fun h => hpin (hm ▸ h.perm hperm)
  obtain ⟨l', j, hj, hordered', hperm', hmoved, hne⟩ := exists_moved hle hordered hkeys₀.of_map hm₀ hpin₀
  have hkeys' : (l'.map key).Nodup := (hperm'.map key).nodup_iff.mpr hkeys₀
  refine ⟨fun i => if i < k then l₀ else l', fun i => ?_, fun fuel visited hwalk hvisited => ?_⟩
  · dsimp only
    split_ifs
    · exact ⟨hperm, hordered⟩
    · exact ⟨hperm'.trans hperm, hordered'⟩
  · -- the walk goes on in the second ordering, from where the cursor now is
    have hcursor : cursorAt key l₀ (0 + k * n) = cursorAt key l' (j + 1) := by
      simp only [Nat.zero_add, hm, cursorAt, getElem?_eq_getElem hm₀, getElem?_eq_getElem hj, hmoved]
    obtain ⟨fuel', rest, hrest, hrestPerm⟩ := walk_aligned hn (fun _ => l') hkeys' (fun _ => .refl _) hj
      (fun _ _ _ => ⟨rfl, .refl _⟩) (fun _ => ⟨rfl, .refl _⟩)
    have hwhole := walk_switch (p := 0) hn hkeys₀ l' fuel' k (by rw [hperm.length_eq]; omega)
    rw [hcursor, hrest, Option.map_some] at hwhole
    obtain rfl := walk_unique hwalk hwhole
    have hlen := hvisited.length_eq
    have hrestLen := hrestPerm.length_eq
    have hlen' := hperm'.length_eq
    simp only [drop_zero, length_append, length_take, length_drop] at hlen hrestLen
    rw [hperm.length_eq] at hlen hlen'
    omega

/-- The walk visits everything once, for all orderings of the pages, if and only if the ends of the pages are pinned. -/
theorem walk_complete_iff : (∀ lists : ℕ → List α, (∀ i, (lists i).Perm l ∧ Ordered le (lists i)) →
      ∃ fuel visited, walk key n fuel none lists = some visited ∧ visited.Perm l) ↔
    ∀ k, 0 < k → k * n < l.length → Pinned le l (k * n) := by
  constructor
  · intro h k hk0 hk
    by_contra hpin
    obtain ⟨lists, hlists, hnever⟩ := exists_incomplete hle hn hkeys hk0 hk hpin
    obtain ⟨fuel, visited, hwalk, hvisited⟩ := h lists hlists
    exact hnever fuel visited hwalk hvisited
  · intro hpin lists hlists
    exact walk_complete_of_pinned hle hn hkeys hpin hlists

end AeorDb.Library.Paging
