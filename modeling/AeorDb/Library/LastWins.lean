import Mathlib

/-! Folds in which the last opinion wins and the first failure stops, over walks that climb one step at a time. -/

namespace AeorDb.Library.LastWins

open List

variable {ι ε β : Type}

def lastSome (os : List (Option β)) : Option β := os.foldl (fun acc o => o.or acc) none

def run (rs : List (Except ε (Option β))) : Except ε (Option β) :=
  rs.foldlM (fun acc r => r.map fun o => o.or acc) none

lemma lastSome_concat (os : List (Option β)) (o : Option β) : lastSome (os ++ [o]) = o.or (lastSome os) := by
  simp [lastSome]

variable {os : List (Option β)} {b : β} {a : ι → Option β}

lemma lastSome_eq_none (h : ∀ o ∈ os, o = none) : lastSome os = none := by
  induction os using List.reverseRecOn with
  | nil => rfl
  | append_singleton os o ih =>
    rw [lastSome_concat, ih fun x hx => h x (mem_append_left _ hx), h o (by simp)]
    rfl

lemma lastSome_append_cons {us vs : List (Option β)} (h : ∀ o ∈ vs, o = none) : lastSome (us ++ some b :: vs) = some b := by
  induction vs using List.reverseRecOn with
  | nil => exact lastSome_concat us (some b)
  | append_singleton vs o ih =>
    rw [← cons_append, ← append_assoc, lastSome_concat, h o (by simp),
      ih fun x hx => h x (mem_append_left _ hx)]
    rfl

lemma lastSome_of_agree [DecidableEq β] (h : ∀ o ∈ os, o = none ∨ o = some b) :
    lastSome os = if some b ∈ os then some b else none := by
  induction os using List.reverseRecOn with
  | nil => rfl
  | append_singleton os o ih =>
    rw [lastSome_concat, ih fun x hx => h x (mem_append_left _ hx)]
    rcases h o (by simp) with rfl | rfl <;> simp

lemma run_concat (rs : List (Except ε (Option β))) (r : Except ε (Option β)) :
    run (rs ++ [r]) = run rs >>= fun acc => r.map fun o => o.or acc := by
  simp [run]

variable {g : ι → Except ε (Option β)} {l : List ι}

lemma run_ok (h : ∀ x ∈ l, g x = .ok (a x)) : run (l.map g) = .ok (lastSome (l.map a)) := by
  induction l using List.reverseRecOn with
  | nil => rfl
  | append_singleton l x ih =>
    rw [map_append, map_append, map_singleton, map_singleton, run_concat, lastSome_concat,
      ih fun y hy => h y (mem_append_left _ hy), h x (by simp)]
    rfl

lemma run_error {u v : List ι} {x : ι} {err : ε} (hu : ∀ y ∈ u, ∃ o, g y = .ok o)
    (hx : g x = .error err) : run ((u ++ x :: v).map g) = .error err := by
  have hstart : run ((u ++ [x]).map g) = .error err := by
    choose! a ha using hu
    rw [map_append, map_singleton, run_concat, run_ok ha, hx]
    rfl
  induction v using List.reverseRecOn with
  | nil => exact hstart
  | append_singleton v y ih =>
    rw [← cons_append, ← append_assoc, map_append, map_singleton, run_concat, ih]
    rfl

section

variable {p : ι → Prop} [DecidablePred p] {w : List ι}

lemma exists_first (h : ∃ x ∈ w, p x) : ∃ u x v, w = u ++ x :: v ∧ p x ∧ ∀ y ∈ u, ¬ p y := by
  classical
  obtain ⟨x, hx⟩ := Option.isSome_iff_exists.mp (find?_isSome.mpr (by simpa using h) : (w.find? (p ·)).isSome)
  obtain ⟨hpx, u, v, rfl, hu⟩ := find?_eq_some_iff_append.mp hx
  exact ⟨u, x, v, rfl, by simpa using hpx, by simpa using hu⟩

lemma exists_last (h : ∃ x ∈ w, p x) : ∃ u x v, w = u ++ x :: v ∧ p x ∧ ∀ y ∈ v, ¬ p y := by
  obtain ⟨u, x, v, heq, hx, hu⟩ := exists_first (w := w.reverse) (by simpa using h)
  exact ⟨v.reverse, x, u.reverse, by simpa using congrArg List.reverse heq, hx, by simpa using hu⟩

end

lemma lastSome_map_eq_some_iff :
    lastSome (l.map a) = some b ↔ ∃ u x v, l = u ++ x :: v ∧ a x = some b ∧ ∀ y ∈ v, a y = none := by
  have hsplit : ∀ u x v c, l = u ++ x :: v → a x = some c → (∀ y ∈ v, a y = none) → lastSome (l.map a) = some c := by
    rintro u x v c rfl hx hv
    rw [map_append, map_cons, hx]
    exact lastSome_append_cons (by simpa using hv)
  constructor
  · intro h
    by_cases hsome : ∃ x ∈ l, a x ≠ none
    · classical
      obtain ⟨u, x, v, heq, hx, hv⟩ := exists_last hsome
      obtain ⟨c, hc⟩ := Option.ne_none_iff_exists'.mp hx
      have hnone : ∀ y ∈ v, a y = none := fun y hy => not_not.mp (hv y hy)
      obtain rfl : c = b := by simpa [hsplit u x v c heq hc hnone] using h
      exact ⟨u, x, v, heq, hc, hnone⟩
    · push Not at hsome
      rw [lastSome_eq_none (by simpa using hsome)] at h
      simp at h
  · rintro ⟨u, x, v, heq, hx, hv⟩
    exact hsplit u x v b heq hx hv

lemma lastSome_map_eq_true_iff {a : ι → Option Bool} : lastSome (l.map a) = some true ↔
    ∃ u x v, l = u ++ x :: v ∧ a x = some true ∧ ∀ y ∈ v, a y ≠ some false := by
  rw [lastSome_map_eq_some_iff]
  constructor
  · rintro ⟨u, x, v, rfl, hx, hv⟩
    exact ⟨u, x, v, rfl, hx, fun y hy => by simp [hv y hy]⟩
  · rintro ⟨u, x, v, rfl, hx, hv⟩
    -- the last opinion from `x` on decides, and no opinion there is a refusal
    obtain ⟨u', y, v', heq, hy, hlast⟩ := exists_last (w := x :: v) (p := fun y => a y ≠ none) ⟨x, by simp, by simp [hx]⟩
    refine ⟨u ++ u', y, v', by simp [heq], ?_, fun z hz => not_not.mp (hlast z hz)⟩
    have hmem : y ∈ x :: v := by simp [heq]
    rcases mem_cons.mp hmem with rfl | hmem
    · exact hx
    · have hne := hv y hmem
      match h : a y with
      | none => exact absurd h hy
      | some false => exact absurd h hne
      | some true => rfl

lemma forall_ok_of_run {acc : Option β} (h : run (l.map g) = .ok acc) : ∀ x ∈ l, ∃ o, g x = .ok o := by
  by_contra hfail
  push Not at hfail
  classical
  obtain ⟨u, x, v, rfl, hx, hu⟩ := exists_first (p := fun x => ∀ o, g x ≠ .ok o) hfail
  cases hgx : g x with
  | ok o => exact hx o hgx
  | error err =>
    rw [run_error (fun y hy => by simpa using hu y hy) hgx] at h
    simp at h

lemma run_eq_ok_some_iff : run (l.map g) = .ok (some b) ↔
    (∀ x ∈ l, ∃ o, g x = .ok o) ∧ ∃ u x v, l = u ++ x :: v ∧ g x = .ok (some b) ∧ ∀ y ∈ v, g y = .ok none := by
  constructor
  · intro h
    have hok := forall_ok_of_run h
    refine ⟨hok, ?_⟩
    choose! a ha using hok
    rw [run_ok ha, Except.ok.injEq, lastSome_map_eq_some_iff] at h
    obtain ⟨u, x, v, rfl, hx, hv⟩ := h
    exact ⟨u, x, v, rfl, by rw [ha x (by simp), hx], fun y hy => by rw [ha y (by simp [hy]), hv y hy]⟩
  · rintro ⟨hok, u, x, v, rfl, hx, hv⟩
    choose! a ha using hok
    rw [run_ok ha, Except.ok.injEq, lastSome_map_eq_some_iff]
    refine ⟨u, x, v, rfl, ?_, fun y hy => ?_⟩
    · have heq := (ha x (by simp)).symm.trans hx
      simpa using heq
    · have heq := (ha y (by simp [hy])).symm.trans (hv y hy)
      simpa using heq

lemma last_unique (len : ι → ℕ) {u v u' v' : List ι} {x x' : ι} (h : u ++ x :: v = u' ++ x' :: v') (hx : len x = len x')
    (hv : ∀ y ∈ v, len x < len y) (hv' : ∀ y ∈ v', len x' < len y) : x = x' := by
  rcases append_eq_append_iff.mp h with ⟨as, rfl, hcons⟩ | ⟨bs, rfl, hcons⟩
  · cases as with
    | nil => exact (List.cons.inj hcons).1
    | cons a as =>
      have hmem : x' ∈ v := by
        rw [(List.cons.inj hcons).2]
        simp
      exact absurd (hv x' hmem) (by omega)
  · cases bs with
    | nil => exact ((List.cons.inj hcons).1).symm
    | cons b bs =>
      have hmem : x ∈ v' := by
        rw [(List.cons.inj hcons).2]
        simp
      exact absurd (hv' x hmem) (by omega)

lemma range_split {j m : ℕ} (hj : j ≤ m) : List.range (m + 1) = List.range j ++ j :: List.range' (j + 1) (m - j) := by
  have happ := range'_append_1 (s := 0) (m := j) (n := m - j + 1)
  rw [Nat.zero_add, range'_succ, ← range_eq_range', ← range_eq_range'] at happ
  rw [happ]
  congr 1
  omega

/-- A walk from level 0 to level `m` that climbs at most one level at a time and whose opinions are those of
the levels: a visit may have no opinion where its level has one, except for the last visit of that level. -/
structure Shadows (len : ι → ℕ) (g : ι → Except ε (Option β)) (h : ℕ → Except ε (Option β)) (w : List ι) (m : ℕ) : Prop where
  start : ∃ x ∈ w.head?, len x = 0
  step : w.IsChain fun x y => len y ≤ len x + 1
  bound : ∀ x ∈ w, len x ≤ m
  finish : ∃ x ∈ w.getLast?, len x = m
  fails : ∀ x ∈ w, ∀ err, h (len x) = .error err → g x = .error err
  weaker : ∀ x ∈ w, ∀ o, h (len x) = .ok o → ∃ a, g x = .ok a ∧ (o = none → a = none)
  exact : ∀ u x v, w = u ++ x :: v → (∀ y ∈ v, len x < len y) → g x = h (len x)

namespace Shadows

variable {len : ι → ℕ} {g : ι → Except ε (Option β)} {h : ℕ → Except ε (Option β)} {w : List ι} {m : ℕ} (hw : Shadows len g h w m)

include hw

lemma first_visit {j : ℕ} (hj : j ≤ m) : ∃ u x v, w = u ++ x :: v ∧ len x = j ∧ ∀ y ∈ u, len y < j := by
  obtain ⟨z, hz, hzm⟩ := hw.finish
  obtain ⟨u, x, v, rfl, hx, hu⟩ := exists_first (p := fun x => j ≤ len x) ⟨z, mem_of_getLast? hz, hzm ▸ hj⟩
  refine ⟨u, x, v, rfl, le_antisymm ?_ hx, fun y hy => not_le.mp (hu y hy)⟩
  rcases eq_nil_or_concat' u with rfl | ⟨u, y, rfl⟩
  · obtain ⟨z, hz, hzero⟩ := hw.start
    obtain rfl : x = z := by simpa using hz
    omega
  · have hstep := (isChain_append.mp hw.step).2.2 y (by simp) x (by simp)
    have hy := hu y (by simp)
    omega

lemma last_visit {j : ℕ} (hj : j ≤ m) : ∃ u x v, w = u ++ x :: v ∧ len x = j ∧ ∀ y ∈ v, j < len y := by
  obtain ⟨z, hz, hzero⟩ := hw.start
  obtain ⟨u, x, v, heq, hx, hv⟩ := exists_last (p := fun x => len x ≤ j) ⟨z, mem_of_head? hz, by omega⟩
  refine ⟨u, x, v, heq, le_antisymm hx ?_, fun y hy => not_le.mp (hv y hy)⟩
  have hstep := hw.step
  rw [heq] at hstep
  cases v with
  | nil =>
    obtain ⟨z, hz, hzm⟩ := hw.finish
    obtain rfl : x = z := by simpa [heq] using hz
    omega
  | cons y v =>
    have hxy := (isChain_cons_cons.mp (isChain_append.mp hstep).2.1).1
    have hy := hv y (by simp)
    omega

theorem run_eq : run (w.map g) = run ((List.range (m + 1)).map h) := by
  by_cases hfail : ∃ j, j ≤ m ∧ ∃ err, h j = .error err
  · -- the lowest level that fails is the first one met by both
    classical
    obtain ⟨hj, err, herr⟩ := Nat.find_spec hfail
    have hmin : ∀ i < Nat.find hfail, ∃ o, h i = .ok o := by
      intro i hi
      cases ho : h i with
      | ok o => exact ⟨o, rfl⟩
      | error err' => exact absurd ⟨by omega, err', ho⟩ (Nat.find_min hfail hi)
    set j := Nat.find hfail
    obtain ⟨u, x, v, heq, hx, hu⟩ := hw.first_visit hj
    have hleft : run (w.map g) = .error err := by
      rw [heq]
      refine run_error (fun y hy => ?_) (hw.fails x (by simp [heq]) err (hx ▸ herr))
      obtain ⟨o, ho⟩ := hmin (len y) (hu y hy)
      obtain ⟨a, ha, _⟩ := hw.weaker y (by simp [heq, hy]) o ho
      exact ⟨a, ha⟩
    rw [hleft, range_split hj, run_error (fun i hi => hmin i (mem_range.mp hi)) herr]
  · -- without failures the highest level with an opinion decides on both sides
    have hok : ∀ j ≤ m, ∃ o, h j = .ok o := by
      intro j hj
      cases ho : h j with
      | ok o => exact ⟨o, rfl⟩
      | error err => exact absurd ⟨j, hj, err, ho⟩ hfail
    choose! o ho using hok
    have hweak : ∀ x ∈ w, ∃ a, g x = .ok a ∧ (o (len x) = none → a = none) := fun x hx =>
      hw.weaker x hx _ (ho _ (hw.bound x hx))
    choose! a ha hnone using hweak
    have hmem : ∀ i ∈ List.range (m + 1), h i = .ok (o i) := fun i hi => ho i (by simpa [Nat.lt_succ_iff] using hi)
    rw [run_ok ha, run_ok hmem]
    congr 1
    by_cases hsome : ∃ j ≤ m, o j ≠ none ∧ ∀ i, j < i → i ≤ m → o i = none
    · obtain ⟨j, hj, hjs, habove⟩ := hsome
      obtain ⟨b, hb⟩ := Option.ne_none_iff_exists'.mp hjs
      obtain ⟨u, x, v, heq, hx, hv⟩ := hw.last_visit hj
      have hax : a x = some b := by
        have hgx := hw.exact u x v heq (by simpa [hx] using hv)
        rw [ha x (by simp [heq]), hx, ho j hj, hb] at hgx
        exact Except.ok.inj hgx
      have hleft : lastSome (w.map a) = some b := by
        rw [heq, map_append, map_cons, hax]
        refine lastSome_append_cons fun y hy => ?_
        obtain ⟨z, hz, rfl⟩ := mem_map.mp hy
        have hzw : z ∈ w := by simp [heq, hz]
        exact hnone z hzw (habove _ (hv z hz) (hw.bound z hzw))
      rw [hleft, range_split hj, map_append, map_cons, hb]
      refine (lastSome_append_cons fun y hy => ?_).symm
      obtain ⟨i, hi, rfl⟩ := mem_map.mp hy
      obtain ⟨hlo, hhi⟩ := mem_range'_1.mp hi
      exact habove i (by omega) (by omega)
    · have hall : ∀ j ≤ m, o j = none := by
        intro j hj
        by_contra hjs
        classical
        refine hsome ⟨Nat.findGreatest (fun i => o i ≠ none) m, Nat.findGreatest_le m,
          Nat.findGreatest_spec (P := fun i => o i ≠ none) hj hjs, fun i hlt hle => ?_⟩
        exact not_not.mp (Nat.findGreatest_is_greatest hlt hle)
      rw [lastSome_eq_none, lastSome_eq_none]
      · intro y hy
        obtain ⟨i, hi, rfl⟩ := mem_map.mp hy
        exact hall i (by simpa [Nat.lt_succ_iff] using hi)
      · intro y hy
        obtain ⟨x, hx, rfl⟩ := mem_map.mp hy
        exact hnone x hx (hall _ (hw.bound x hx))

end Shadows

end AeorDb.Library.LastWins
