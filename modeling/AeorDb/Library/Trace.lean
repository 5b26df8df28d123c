import Mathlib

/-! Stateful computations described by the actions they perform. -/

namespace AeorDb.Library.Trace

open List

variable {σ A ε α β : Type} (act : σ → A → σ)

def Ran (P : A → Prop) (s t : σ) : Prop := ∃ as : List A, (∀ a ∈ as, P a) ∧ as.foldl act s = t

def final : EStateM.Result ε σ α → σ
  | .ok _ s => s
  | .error _ s => s

def succeeded : EStateM.Result ε σ α → Bool
  | .ok _ _ => true
  | .error _ _ => false

def value : EStateM.Result ε σ α → Option α
  | .ok a _ => some a
  | .error _ _ => none

def Performs (P : A → Prop) (m : EStateM ε σ α) : Prop := ∀ s, Ran act P s (final (m s))

variable {act} {P Q : A → Prop} {s t u : σ}

lemma Ran.refl : Ran act P s s := ⟨[], by simp, rfl⟩

lemma Ran.single {a : A} (ha : P a) : Ran act P s (act s a) := ⟨[a], by simpa using ha, rfl⟩

lemma Ran.trans (h : Ran act P s t) (h' : Ran act P t u) : Ran act P s u := by
  obtain ⟨as, has, rfl⟩ := h
  obtain ⟨bs, hbs, rfl⟩ := h'
  refine ⟨as ++ bs, fun a ha => ?_, List.foldl_append⟩
  exact (mem_append.mp ha).elim (has a) (hbs a)

lemma Ran.step {a : A} (h : Ran act P s t) (ha : P a) : Ran act P s (act t a) := h.trans (.single ha)

lemma Ran.mono (hPQ : ∀ a, P a → Q a) (h : Ran act P s t) : Ran act Q s t := by
  obtain ⟨as, has, ht⟩ := h
  exact ⟨as, fun a ha => hPQ a (has a ha), ht⟩

lemma Ran.invariant {I : σ → Prop} (h : Ran act P s t) (hI : ∀ s a, P a → I s → I (act s a)) (hs : I s) : I t := by
  obtain ⟨as, has, rfl⟩ := h
  induction as generalizing s with
  | nil => exact hs
  | cons a as ih =>
    obtain ⟨ha, has⟩ := forall_mem_cons.mp has
    exact ih (hI s a ha hs) has

lemma forall_prefix_iff {I : σ → Prop} {allowed : σ → A → Prop} (hI : ∀ s a, I s → (I (act s a) ↔ allowed s a)) (hs : I s) (as : List A) :
    (∀ done, done <+: as → I (done.foldl act s)) ↔ ∀ done a, done ++ [a] <+: as → allowed (done.foldl act s) a := by
  have hlast : ∀ done a, (done ++ [a]).foldl act s = act (done.foldl act s) a := fun done a => by
    rw [List.foldl_append, foldl_cons, foldl_nil]
  constructor
  · intro h done a hdone
    refine (hI _ a (h done ((prefix_append done [a]).trans hdone))).mp ?_
    rw [← hlast]
    exact h _ hdone
  · intro h done hdone
    induction done using List.reverseRecOn with
    | nil => exact hs
    | append_singleton done a ih =>
      rw [hlast]
      exact (hI _ a (ih ((prefix_append done [a]).trans hdone))).mpr (h done a hdone)

lemma eq_ok_final {r : EStateM.Result ε σ Unit} (h : succeeded r = true) : r = .ok () (final r) := by
  cases r with
  | ok _ _ => rfl
  | error _ _ => cases h

lemma eq_ok_of_value {r : EStateM.Result ε σ α} {a : α} (h : value r = some a) : r = .ok a (final r) := by
  cases r with
  | ok _ _ => exact congrArg (EStateM.Result.ok · _) (Option.some.inj h)
  | error _ _ => cases h

section

variable {m : EStateM ε σ α} {f : α → EStateM ε σ β}

lemma Performs.ok (h : Performs act P m) {a : α} (hm : m s = .ok a t) : Ran act P s t := by
  have hs := h s
  rwa [hm] at hs

lemma Performs.mono (hPQ : ∀ a, P a → Q a) (h : Performs act P m) : Performs act Q m := fun s => (h s).mono hPQ

lemma Performs.pure (a : α) : Performs act P (pure a : EStateM ε σ α) := fun _ => .refl

lemma Performs.throw (err : ε) : Performs act P (throw err : EStateM ε σ α) := fun _ => .refl

lemma Performs.bind_of_ok (hm : Performs act P m) (hf : ∀ s a t, m s = .ok a t → Performs act P (f a)) : Performs act P (m >>= f) := by
  intro s
  have hs := hm s
  change Ran act P s (final (EStateM.bind m f s))
  unfold EStateM.bind
  cases hr : m s with
  | ok a t =>
    rw [hr] at hs
    exact hs.trans (hf s a t hr t)
  | error err t =>
    rw [hr] at hs
    exact hs

lemma Performs.bind (hm : Performs act P m) (hf : ∀ a, Performs act P (f a)) : Performs act P (m >>= f) :=
  hm.bind_of_ok fun _ a _ _ => hf a

lemma Performs.ite {c : Prop} [Decidable c] {m' : EStateM ε σ α} (h : c → Performs act P m) (h' : ¬ c → Performs act P m') :
    Performs act P (if c then m else m') := by
  split_ifs with hc
  · exact h hc
  · exact h' hc

lemma Performs.forM {γ : Type} {g : γ → EStateM ε σ PUnit} (hg : ∀ c, Performs act P (g c)) (cs : List γ) : Performs act P (cs.forM g) := by
  induction cs with
  | nil => exact .pure _
  | cons c cs ih => exact .bind (hg c) fun _ => ih

end

def Maintains (I : σ → Prop) (m : EStateM ε σ α) (Q : α → Prop) : Prop :=
  ∀ s, I s → I (final (m s)) ∧ ∀ a t, m s = .ok a t → Q a

variable {I : σ → Prop} {m : EStateM ε σ α} {f : α → EStateM ε σ β} {R : α → Prop} {S : β → Prop}

lemma Maintains.pure {a : α} (ha : R a) : Maintains I (pure a : EStateM ε σ α) R := by
  refine fun s hs => ⟨hs, fun b t h => ?_⟩
  cases h
  exact ha

lemma Maintains.throw (err : ε) : Maintains I (throw err : EStateM ε σ α) R := fun _ hs => ⟨hs, fun _ _ h => nomatch h⟩

lemma Maintains.bind (hm : Maintains I m R) (hf : ∀ a, R a → Maintains I (f a) S) : Maintains I (m >>= f) S := by
  intro s hs
  obtain ⟨hI, hR⟩ := hm s hs
  change I (final (EStateM.bind m f s)) ∧ ∀ b t, EStateM.bind m f s = .ok b t → S b
  unfold EStateM.bind
  cases hr : m s with
  | ok a t =>
    rw [hr] at hI
    exact hf a (hR a t hr) t hI
  | error err t =>
    rw [hr] at hI
    exact ⟨hI, fun _ _ h => nomatch h⟩

lemma Maintains.throw_bind (err : ε) : Maintains I ((MonadExcept.throw err : EStateM ε σ α) >>= f) S :=
  .bind (R := fun _ => False) (.throw err) fun _ h => h.elim

lemma Maintains.ite {c : Prop} [Decidable c] {m' : EStateM ε σ α} (h : c → Maintains I m R) (h' : ¬ c → Maintains I m' R) :
    Maintains I (if c then m else m') R := by
  split_ifs with hc
  · exact h hc
  · exact h' hc

lemma Maintains.forM {γ : Type} {g : γ → EStateM ε σ PUnit} {cs : List γ} (hg : ∀ c ∈ cs, Maintains I (g c) fun _ => True) :
    Maintains I (cs.forM g) fun _ => True := by
  induction cs with
  | nil => exact .pure trivial
  | cons c cs ih =>
    obtain ⟨hc, hcs⟩ := forall_mem_cons.mp hg
    exact .bind hc fun _ _ => ih hcs

end AeorDb.Library.Trace
