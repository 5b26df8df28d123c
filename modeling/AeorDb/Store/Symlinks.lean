import AeorDb.Store.Paths

/-! Following symlinks to the file or directory behind them. -/

namespace AeorDb.Store

open Relation

structure Assignment (R : Type) where
  getSymlink : Str → Option Str
  getMetadata : Str → Option R
  isDirectory : Str → Bool

inductive ResolvedTarget (R : Type) where
  | file (record : R)
  | directory (path : Str)
  deriving DecidableEq

inductive ResolveError where
  | cyclicSymlink (chain : List Str)
  | symlinkDepthExceeded (path : Str)
  | notFound (target : Str)
  deriving DecidableEq

def maxSymlinkDepth : ℕ := 32

namespace Assignment

variable {R : Type} (a : Assignment R) {path p q : Str} {t : ResolvedTarget R} {m n : ℕ}

def targetAt (path : Str) : Option (ResolvedTarget R) :=
  match a.getMetadata path with
  | some record => some (.file record)
  | none => if a.isDirectory path then some (.directory path) else none

-- the paths visited are those of the chain; `left` is what is left of the depth
def resolveFrom (path : Str) (left : ℕ) (chain : List Str) (current : Str) : Except ResolveError (ResolvedTarget R) :=
  if current ∈ chain then .error (.cyclicSymlink (chain ++ [current]))
  else
    match left with
    | 0 => .error (.symlinkDepthExceeded path)
    | left + 1 =>
      match a.getSymlink current with
      | some target => resolveFrom path left (chain ++ [current]) (normalizePath target)
      | none =>
        match a.targetAt current with
        | some target => .ok target
        | none => .error (.notFound current)

def resolveSymlink (path : Str) : Except ResolveError (ResolvedTarget R) := a.resolveFrom path maxSymlinkDepth [] (normalizePath path)

def LinksTo (p q : Str) : Prop := (a.getSymlink p).map normalizePath = some q

/-- What stands at the path `n` links away, where that is not a symlink. -/
def endOf : ℕ → Str → Option (ResolvedTarget R)
  | 0, path => if a.getSymlink path = none then a.targetAt path else none
  | n + 1, path => (a.getSymlink path).bind fun target => endOf n (normalizePath target)

variable {a}

lemma endOf_of_link (h : a.endOf n p = some t) (hlink : a.LinksTo p q) : ∃ k < n, a.endOf k q = some t := by
  obtain ⟨target, htarget, rfl⟩ := Option.map_eq_some_iff.mp hlink
  cases n with
  | zero => simp [endOf, htarget] at h
  | succ n => exact ⟨n, n.lt_succ_self, by simpa [endOf, htarget] using h⟩

lemma endOf_of_links (h : a.endOf n p = some t) (hlinks : ReflTransGen a.LinksTo p q) : ∃ k ≤ n, a.endOf k q = some t := by
  induction hlinks with
  | refl => exact ⟨n, le_rfl, h⟩
  | tail _ hlink ih =>
    obtain ⟨k, hk, hend⟩ := ih
    obtain ⟨j, hj, hend'⟩ := endOf_of_link hend hlink
    exact ⟨j, hj.le.trans hk, hend'⟩

lemma endOf_ne_of_cycle (hcycle : TransGen a.LinksTo p p) : a.endOf n p ≠ some t := by
  obtain ⟨q, hlink, hback⟩ := TransGen.head'_iff.mp hcycle
  induction n using Nat.strong_induction_on with
  | _ n ih =>
    intro hend
    obtain ⟨k, hk, hend'⟩ := endOf_of_link hend hlink
    obtain ⟨j, hj, hend''⟩ := endOf_of_links hend' hback
    exact ih j (hj.trans_lt hk) hend''

lemma endOf_unique {t' : ResolvedTarget R} (h : a.endOf n p = some t) (h' : a.endOf m p = some t') : n = m := by
  induction n generalizing p m with
  | zero => cases m <;> cases hlink : a.getSymlink p <;> simp_all [endOf]
  | succ n ih =>
    cases hlink : a.getSymlink p with
    | none => simp [endOf, hlink] at h
    | some target =>
      cases m with
      | zero => simp [endOf, hlink] at h'
      | succ m =>
        simp only [endOf, hlink, Option.bind_some] at h h'
        rw [ih h h']

lemma resolveFrom_eq_ok {left : ℕ} {chain : List Str} (hchain : ∀ c ∈ chain, TransGen a.LinksTo c p) :
    a.resolveFrom path left chain p = .ok t ↔ ∃ n < left, a.endOf n p = some t := by
  induction left generalizing chain p with
  | zero =>
    refine iff_of_false ?_ (by simp)
    rw [resolveFrom]
    split_ifs <;> nofun
  | succ left ih =>
    rw [resolveFrom, Nat.exists_lt_succ_left]
    split_ifs with hmem
    · exact iff_of_false nofun (not_or.mpr ⟨endOf_ne_of_cycle (hchain p hmem), fun ⟨n, _, h⟩ => endOf_ne_of_cycle (hchain p hmem) h⟩)
    · cases hlink : a.getSymlink p with
      | some target =>
        have hstep : a.LinksTo p (normalizePath target) := by rw [LinksTo, hlink, Option.map_some]
        simp only [endOf, hlink, Option.bind_some, reduceCtorEq, if_false, false_or]
        refine ih fun c hc => ?_
        rcases List.mem_append.mp hc with hc | hc
        · exact (hchain c hc).tail hstep
        · obtain rfl := List.mem_singleton.mp hc
          exact .single hstep
      | none =>
        simp only [endOf, hlink, Option.bind_none, reduceCtorEq, and_false, exists_false, or_false, if_true]
        cases a.targetAt p <;> simp

/-- A chain is resolved when it has at most 31 links: the depth is compared before the path behind the last link is looked at. -/
theorem resolveSymlink_exact_iff (a : Assignment R) (path : Str) :
    ((∀ t, a.resolveSymlink path = .ok t ↔ ∃ n ≤ maxSymlinkDepth, a.endOf n (normalizePath path) = some t) ∧
      ∀ p, ReflTransGen a.LinksTo (normalizePath path) p → TransGen a.LinksTo p p → ∃ e, a.resolveSymlink path = .error e) ↔
      a.endOf maxSymlinkDepth (normalizePath path) = none := by
  have hok (t : ResolvedTarget R) : a.resolveSymlink path = .ok t ↔ ∃ n < maxSymlinkDepth, a.endOf n (normalizePath path) = some t :=
    resolveFrom_eq_ok (by simp)
  constructor
  · rintro ⟨hexact, -⟩
    by_contra hend
    obtain ⟨t, hend⟩ := Option.ne_none_iff_exists'.mp hend
    obtain ⟨n, hn, hend'⟩ := (hok t).mp ((hexact t).mpr ⟨_, le_rfl, hend⟩)
    exact hn.ne (endOf_unique hend' hend)
  · intro hfar
    refine ⟨fun t => (hok t).trans ⟨fun ⟨n, hn, h⟩ => ⟨n, hn.le, h⟩, fun ⟨n, hn, h⟩ => ⟨n, hn.lt_of_ne ?_, h⟩⟩, ?_⟩
    · rintro rfl
      cases hfar.symm.trans h
    · intro p hreach hcycle
      cases hresolve : a.resolveSymlink path with
      | error e => exact ⟨e, rfl⟩
      | ok t =>
        obtain ⟨n, -, hend⟩ := (hok t).mp hresolve
        obtain ⟨k, -, hend'⟩ := endOf_of_links hend hreach
        exact absurd hend' (endOf_ne_of_cycle hcycle)

/-- Every path of less than 34 characters links to a longer one. -/
def sampleLinks : Assignment Unit := ⟨fun p => if p.length < 34 then some (p ++ ['a']) else none, fun _ => some (), fun _ => false⟩

theorem resolveSymlink_32_links : sampleLinks.endOf maxSymlinkDepth (normalizePath "/a".toList) = some (.file ()) ∧
    sampleLinks.resolveSymlink "/a".toList = .error (.symlinkDepthExceeded "/a".toList) := by
  decide +kernel

/-- Every path on the way of a chain that is resolved leads to the same target. -/
theorem resolveSymlink_of_links (h : a.resolveSymlink path = .ok t) (hlinks : ReflTransGen a.LinksTo (normalizePath path) q)
    (hq : normalizePath q = q) : a.resolveSymlink q = .ok t := by
  obtain ⟨n, hn, hend⟩ := (resolveFrom_eq_ok (by simp)).mp h
  obtain ⟨k, hk, hend'⟩ := endOf_of_links hend hlinks
  rw [resolveSymlink, hq]
  exact (resolveFrom_eq_ok (by simp)).mpr ⟨k, hk.trans_lt hn, hend'⟩

theorem resolveSymlink_of_link : sampleLinks.resolveSymlink ('/' :: List.replicate 33 'a') = .ok (.file ()) := by
  have h : sampleLinks.resolveSymlink ('/' :: List.replicate 32 'a') = .ok (.file ()) := by decide +kernel
  refine resolveSymlink_of_links h (.single ?_) (by decide +kernel)
  rw [LinksTo]
  decide +kernel

end Assignment

end AeorDb.Store
