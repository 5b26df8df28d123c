import Mathlib

/-! Peeling computations that fail or thread a state. -/

namespace AeorDb.Library.Result

open List

section

variable {ε α β : Type} {f : α → Except ε β} {x : Except ε α} {bs : List β} {b : β}

lemma bind_eq_ok : (x >>= f) = .ok b ↔ ∃ a, x = .ok a ∧ f a = .ok b := by
  cases x with
  | error err => simp [bind, Except.bind]
  | ok a => simp [bind, Except.bind]

lemma map_eq_ok {f : α → β} : x.map f = .ok b ↔ ∃ a, x = .ok a ∧ f a = b := by
  cases x with
  | error err => simp [Except.map]
  | ok a => simp [Except.map]

variable {as : List α}

lemma mapM_eq_ok : as.mapM f = .ok bs ↔ List.Forall₂ (fun a b => f a = .ok b) as bs := by
  induction as generalizing bs with
  | nil => simp [pure, Except.pure, eq_comm]
  | cons a as ih =>
    rw [mapM_cons, bind_eq_ok, forall₂_cons_left_iff]
    constructor
    · rintro ⟨b, hb, h⟩
      obtain ⟨bs', hbs, h⟩ := bind_eq_ok.mp h
      exact ⟨b, bs', hb, ih.mp hbs, (Except.ok.inj h).symm⟩
    · rintro ⟨b, bs', hb, hbs, rfl⟩
      exact ⟨b, hb, bind_eq_ok.mpr ⟨bs', ih.mpr hbs, rfl⟩⟩

lemma mapM_congr {f g : α → Except ε β} (h : ∀ a ∈ as, f a = g a) : as.mapM f = as.mapM g := by
  induction as with
  | nil => rfl
  | cons a as ih =>
    obtain ⟨ha, has⟩ := forall_mem_cons.mp h
    rw [mapM_cons, mapM_cons, ha, ih has]

lemma mapM_ok_mem (h : as.mapM f = .ok bs) : ∀ a ∈ as, ∃ b ∈ bs, f a = .ok b := by
  have hall := mapM_eq_ok.mp h
  clear h
  induction hall with
  | nil => simp
  | cons hab _ ih =>
    refine forall_mem_cons.mpr ⟨⟨_, mem_cons_self .., hab⟩, fun a ha => ?_⟩
    obtain ⟨b, hb, hf⟩ := ih a ha
    exact ⟨b, mem_cons_of_mem _ hb, hf⟩

lemma mapM_ok_mem_right (h : as.mapM f = .ok bs) : ∀ b ∈ bs, ∃ a ∈ as, f a = .ok b := by
  have hall := mapM_eq_ok.mp h
  clear h
  induction hall with
  | nil => simp
  | cons hab _ ih =>
    refine forall_mem_cons.mpr ⟨⟨_, mem_cons_self .., hab⟩, fun b hb => ?_⟩
    obtain ⟨a, ha, hf⟩ := ih b hb
    exact ⟨a, mem_cons_of_mem _ ha, hf⟩

lemma mapM_ok_eq_map {g : α → β} (hg : ∀ a b, f a = .ok b → b = g a) (h : as.mapM f = .ok bs) : bs = as.map g := by
  have hall := mapM_eq_ok.mp h
  clear h
  induction hall with
  | nil => rfl
  | cons hab _ ih => rw [map_cons, ih, hg _ _ hab]

lemma foldlM_invariant {f : β → α → Except ε β} {P : β → Prop} (hstep : ∀ acc a mid, P acc → f acc a = .ok mid → P mid)
    {b out : β} (hb : P b) (h : as.foldlM f b = .ok out) : P out := by
  induction as generalizing b with
  | nil =>
    cases h
    exact hb
  | cons a as ih =>
    rw [foldlM_cons] at h
    obtain ⟨mid, hmid, h⟩ := bind_eq_ok.mp h
    exact ih (hstep b a mid hb hmid) h

end

variable {ε σ α β : Type} {f : α → EStateM ε σ β} {x : EStateM ε σ α} {s s' : σ}

lemma estate_bind_eq_ok {b : β} :
    (x >>= f) s = .ok b s' ↔ ∃ a t, x s = .ok a t ∧ f a t = .ok b s' := by
  change EStateM.bind x f s = .ok b s' ↔ _
  unfold EStateM.bind
  cases x s with
  | ok a t => simp
  | error err t => simp

lemma estate_bind_of_ok {s t : σ} {a : α} (h : x s = .ok a t) : (x >>= f) s = f a t := by
  change EStateM.bind x f s = f a t
  simp only [EStateM.bind, h]

lemma estate_pure_eq_ok {a b : α} : (pure a : EStateM ε σ α) s = .ok b s' ↔ a = b ∧ s = s' := by
  change EStateM.Result.ok a s = .ok b s' ↔ _
  simp

end AeorDb.Library.Result
