import Mathlib

/-! Calls that take turns on a shared state, one atomic step at a time. -/

namespace AeorDb.Library

structure Threads (ι σ τ : Type) where
  shared : σ
  calls : ι → τ

namespace Threads

variable {ι σ τ : Type} [DecidableEq ι] (step : σ → τ → Option (σ × τ))

def turn (c : Threads ι σ τ) (i : ι) : Threads ι σ τ :=
  match step c.shared (c.calls i) with
  | none => c
  | some (s, t) => ⟨s, Function.update c.calls i t⟩

def run (c : Threads ι σ τ) (schedule : List ι) : Threads ι σ τ := schedule.foldl (turn step) c

variable {step} {c : Threads ι σ τ} {i j : ι} {schedule : List ι}

lemma run_append (c : Threads ι σ τ) (before after : List ι) : run step c (before ++ after) = run step (run step c before) after :=
  List.foldl_append

lemma run_concat (c : Threads ι σ τ) (schedule : List ι) (i : ι) : run step c (schedule ++ [i]) = turn step (run step c schedule) i :=
  run_append c schedule [i]

structure Moved (c : Threads ι σ τ) (i : ι) (s : σ) (t : τ) (c' : Threads ι σ τ) : Prop where
  shared : c'.shared = s
  self : c'.calls i = t
  other : ∀ j, j ≠ i → c'.calls j = c.calls j

lemma moved_of_step {s : σ} {t : τ} (hstep : step c.shared (c.calls i) = some (s, t)) : c.Moved i s t (turn step c i) := by
  rw [turn, hstep]
  exact ⟨rfl, Function.update_self _ _ _, fun j hj => Function.update_of_ne hj _ _⟩

lemma turn_cases (step : σ → τ → Option (σ × τ)) (c : Threads ι σ τ) (i : ι) :
    turn step c i = c ∨ ∃ s t, step c.shared (c.calls i) = some (s, t) ∧ c.Moved i s t (turn step c i) := by
  cases hstep : step c.shared (c.calls i) with
  | none =>
    rw [turn, hstep]
    exact .inl rfl
  | some next => exact .inr ⟨next.1, next.2, rfl, moved_of_step hstep⟩

section

variable {c' : Threads ι σ τ} {s : σ} {t : τ}

omit [DecidableEq ι]

lemma Moved.call_cases (h : c.Moved i s t c') (j : ι) : j = i ∧ c'.calls j = t ∨ j ≠ i ∧ c'.calls j = c.calls j := by
  by_cases hj : j = i
  · subst hj
    exact .inl ⟨rfl, h.self⟩
  · exact .inr ⟨hj, h.other j hj⟩

lemma Moved.forall (h : c.Moved i s t c') {P : τ → Prop} (hself : P t) (hother : ∀ j, j ≠ i → P (c.calls j)) (j : ι) : P (c'.calls j) := by
  obtain ⟨-, hj⟩ | ⟨hne, hj⟩ := h.call_cases j
  · rwa [hj]
  · rw [hj]
    exact hother j hne

lemma Moved.map_eq (h : c.Moved i s t c') {α : Type} {f : τ → α} (hself : f t = f (c.calls i)) (j : ι) : f (c'.calls j) = f (c.calls j) := by
  obtain ⟨rfl, hj⟩ | ⟨-, hj⟩ := h.call_cases j
  · rw [hj, hself]
  · rw [hj]

end

variable {P : Threads ι σ τ → Prop}

lemma run_invariant {allowed : Threads ι σ τ → ι → Prop} (hturn : ∀ c i, P c → allowed c i → P (turn step c i))
    (hc : P c) (hallowed : ∀ done i, done ++ [i] <+: schedule → allowed (run step c done) i) : P (run step c schedule) := by
  induction schedule using List.reverseRecOn with
  | nil => exact hc
  | append_singleton schedule i ih =>
    rw [run_concat]
    apply hturn
    · exact ih fun done j hdone => hallowed done j (hdone.trans (List.prefix_append _ _))
    · exact hallowed schedule i List.prefix_rfl

lemma run_always (hturn : ∀ c i, P c → P (turn step c i)) (hc : P c) (schedule : List ι) :
    P (run step c schedule) :=
  run_invariant (fun c i h (_ : True) => hturn c i h) hc fun _ _ _ => trivial

end Threads

end AeorDb.Library
