import Mathlib

/-! Scans that look at one position after the other and end at a limit. -/

namespace AeorDb.Library

inductive Turn (α : Type) where
  | stop
  | yield (item : α) (position : ℕ)
  | skip (position : ℕ)
  deriving DecidableEq

namespace Turn

variable {α : Type} {turn : ℕ → Turn α} {limit p q : ℕ}

def next (turn : ℕ → Turn α) : ℕ → ℕ → Option (Option (α × ℕ))
  | 0, _ => none
  | n + 1, p =>
    match turn p with
    | .stop => some none
    | .yield item q => some (some (item, q))
    | .skip q => next turn n q

def scan (turn : ℕ → Turn α) : ℕ → ℕ → Option (List α)
  | 0, _ => none
  | n + 1, p =>
    match turn p with
    | .stop => some []
    | .yield item q => (scan turn n q).map (item :: ·)
    | .skip q => scan turn n q

def position? : Turn α → Option ℕ
  | .stop => none
  | .yield _ q => some q
  | .skip q => some q

/-- Every call that returns an item has moved forward, and the whole scan takes at most one turn for each position left,
and one to stop. -/
structure Progress (turn : ℕ → Turn α) (limit p : ℕ) : Prop where
  forward : ∀ n item q, next turn n p = some (some (item, q)) → p < q
  ends : ∃ items, scan turn (limit - p + 1) p = some items

section

variable {start : ℕ} (hforward : ∀ p q, start ≤ p → (turn p).position? = some q → p < q)

include hforward

lemma lt_of_next {n : ℕ} {item : α} (hp : start ≤ p) (h : next turn n p = some (some (item, q))) : p < q := by
  induction n generalizing p with
  | zero => cases h
  | succ n ih =>
    rw [next] at h
    cases hturn : turn p with
    | stop =>
      rw [hturn] at h
      cases h
    | yield item' q' =>
      rw [hturn] at h
      obtain ⟨rfl, rfl⟩ := Prod.mk.inj (Option.some.inj (Option.some.inj h))
      exact hforward p q' hp (by rw [hturn]; rfl)
    | skip q' =>
      rw [hturn] at h
      have hlt := hforward p q' hp (by rw [hturn]; rfl)
      exact hlt.trans (ih (hp.trans hlt.le) h)

lemma scan_ends (hstop : ∀ p, limit ≤ p → turn p = .stop) {n : ℕ} (hp : start ≤ p) (hn : limit - p < n) :
    ∃ items, scan turn n p = some items := by
  induction n generalizing p with
  | zero => omega
  | succ n ih =>
    have hlimit (q : ℕ) (hq : (turn p).position? = some q) : p < limit := by
      by_contra hle
      rw [hstop p (by omega)] at hq
      cases hq
    rw [scan]
    cases hturn : turn p with
    | stop => exact ⟨[], rfl⟩
    | yield item q =>
      have hq : (turn p).position? = some q := by rw [hturn]; rfl
      have hlt := hforward p q hp hq
      have hbefore := hlimit q hq
      obtain ⟨items, hitems⟩ := ih (hp.trans hlt.le) (by omega)
      exact ⟨item :: items, congrArg (Option.map (item :: ·)) hitems⟩
    | skip q =>
      have hq : (turn p).position? = some q := by rw [hturn]; rfl
      have hlt := hforward p q hp hq
      have hbefore := hlimit q hq
      exact ih (hp.trans hlt.le) (by omega)

lemma progress (hstop : ∀ p, limit ≤ p → turn p = .stop) (hp : start ≤ p) : Progress turn limit p :=
  ⟨fun _ _ _ h => lt_of_next hforward hp h, scan_ends hforward hstop hp (Nat.lt_succ_self _)⟩

end

lemma scan_eq_none_of_stays (h : turn p = .skip p) (n : ℕ) : scan turn n p = none := by
  induction n with
  | zero => rfl
  | succ n ih =>
    rw [scan, h]
    exact ih

lemma not_progress_of_stays (h : (turn p).position? = some p) : ¬ Progress turn limit p := by
  intro hprogress
  cases hturn : turn p with
  | stop =>
    rw [hturn] at h
    cases h
  | yield item q =>
    rw [hturn] at h
    obtain rfl := Option.some.inj h
    have hnext : next turn 1 q = some (some (item, q)) := by rw [next, hturn]
    exact lt_irrefl _ (hprogress.forward 1 item q hnext)
  | skip q =>
    rw [hturn] at h
    obtain rfl := Option.some.inj h
    obtain ⟨items, hitems⟩ := hprogress.ends
    rw [scan_eq_none_of_stays hturn] at hitems
    cases hitems

section

def Reaches (turn : ℕ → Turn α) : ℕ → ℕ → Prop := Relation.ReflTransGen fun p q => (turn p).position? = some q

variable {n : ℕ} {items : List α} {item : α}

lemma scan_of_position (hturn : (turn p).position? = some q) (hscan : scan turn (n + 1) p = some items) :
    ∃ rest, scan turn n q = some rest ∧ ∀ x ∈ rest, x ∈ items := by
  rw [scan] at hscan
  cases h : turn p with
  | stop =>
    rw [h] at hturn
    cases hturn
  | yield x r =>
    rw [h] at hturn hscan
    cases hturn
    obtain ⟨rest, hrest, rfl⟩ := Option.map_eq_some_iff.mp hscan
    exact ⟨rest, hrest, fun _ hx => List.mem_cons_of_mem _ hx⟩
  | skip r =>
    rw [h] at hturn hscan
    cases hturn
    exact ⟨items, hscan, fun _ hx => hx⟩

lemma mem_of_reaches (hreach : Reaches turn p q) {r : ℕ} (hturn : turn q = .yield item r) (hscan : scan turn n p = some items) :
    item ∈ items := by
  induction hreach using Relation.ReflTransGen.head_induction_on generalizing n items with
  | refl =>
    cases n with
    | zero => cases hscan
    | succ n =>
      rw [scan, hturn] at hscan
      obtain ⟨rest, -, rfl⟩ := Option.map_eq_some_iff.mp hscan
      exact List.mem_cons_self
  | head hstep _ ih =>
    cases n with
    | zero => cases hscan
    | succ n =>
      obtain ⟨rest, hrest, hsub⟩ := scan_of_position hstep hscan
      exact hsub item (ih hrest)

lemma exists_of_mem_scan (hscan : scan turn n p = some items) (hmem : item ∈ items) : ∃ q r, Reaches turn p q ∧ turn q = .yield item r := by
  induction n generalizing p items with
  | zero => cases hscan
  | succ n ih =>
    rw [scan] at hscan
    cases h : turn p with
    | stop =>
      rw [h] at hscan
      cases hscan
      cases hmem
    | yield x r =>
      rw [h] at hscan
      obtain ⟨rest, hrest, rfl⟩ := Option.map_eq_some_iff.mp hscan
      rcases List.mem_cons.mp hmem with rfl | hmem
      · exact ⟨p, r, .refl, h⟩
      · obtain ⟨q, r', hreach, hq⟩ := ih hrest hmem
        exact ⟨q, r', .head (by rw [h]; rfl) hreach, hq⟩
    | skip r =>
      rw [h] at hscan
      obtain ⟨q, r', hreach, hq⟩ := ih hscan hmem
      exact ⟨q, r', .head (by rw [h]; rfl) hreach, hq⟩

lemma Reaches.le (hforward : ∀ p q, (turn p).position? = some q → p < q) (h : Reaches turn p q) : p ≤ q := by
  induction h with
  | refl => exact le_rfl
  | tail _ hstep ih => exact ih.trans (hforward _ _ hstep).le

lemma Reaches.of_le (hforward : ∀ p q, (turn p).position? = some q → p < q) {r : ℕ} (hq : Reaches turn p q) (hr : Reaches turn p r)
    (hle : q ≤ r) : Reaches turn q r := by
  have hunique : Relator.RightUnique fun p q => (turn p).position? = some q := fun _ _ _ h h' => Option.some.inj (h.symm.trans h')
  rcases Relation.ReflTransGen.total_of_right_unique hunique hq hr with hqr | hrq
  · exact hqr
  · rw [le_antisymm hle (Reaches.le hforward hrq)]
    exact .refl

end

variable {β : Type} {turn' : ℕ → Turn β} {g : α → β} {shift start : ℕ}

def map (g : α → β) (shift : ℕ) : Turn α → Turn β
  | .stop => .stop
  | .yield item q => .yield (g item) (q + shift)
  | .skip q => .skip (q + shift)

lemma scan_map (hturn : ∀ p, start ≤ p → turn' (p + shift) = (turn p).map g shift)
    (hstart : ∀ p q, start ≤ p → (turn p).position? = some q → start ≤ q) (n : ℕ) (hp : start ≤ p) :
    scan turn' n (p + shift) = (scan turn n p).map (List.map g) := by
  induction n generalizing p with
  | zero => rfl
  | succ n ih =>
    rw [scan, scan, hturn p hp]
    cases h : turn p with
    | stop => rfl
    | yield item q =>
      have hq : start ≤ q := hstart p q hp (by rw [h]; rfl)
      change (scan turn' n (q + shift)).map (g item :: ·) = ((scan turn n q).map (item :: ·)).map (List.map g)
      rw [ih hq, Option.map_map, Option.map_map]
      rfl
    | skip q =>
      have hq : start ≤ q := hstart p q hp (by rw [h]; rfl)
      exact ih hq

end Turn

end AeorDb.Library
