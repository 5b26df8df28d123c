import AeorDb.Library.Table
import AeorDb.Store.Records

/-! The limiter in front of the login routes: the times of the admitted requests, kept for each key. -/

namespace AeorDb.Auth

open Store Library List

/-- Times are in nanoseconds. -/
def second : ℕ := 1000000000

structure RateLimiter where
  maxRequests : ℕ
  windowSeconds : ℕ

inductive RateLimitOutcome where
  | ok
  | limited (retryAfterSeconds : ℕ)
  | panicked
  deriving DecidableEq

abbrev Windows := Table (Prod.fst : Str × List ℕ → Str)

namespace Windows

def timestamps (windows : Windows) (key : Str) : List ℕ := (windows.get key).elim [] Prod.snd

/-- The keys that were admitted longest ago go when there are too many. -/
def evict (windows : Windows) : Windows :=
  if 100000 < windows.entries.length then
    let entries := windows.entries.mergeSort fun a b => a.2.getLast?.elim 0 (· + 1) ≤ b.2.getLast?.elim 0 (· + 1)
    (entries.take 10000).foldl (fun windows x => windows.erase x.1) windows
  else windows

end Windows

namespace RateLimiter

variable (l : RateLimiter)

def inWindow (now t : ℕ) : Bool := now - t < l.windowSeconds * second

/-- The table is gone once a request has panicked with the lock in its hands. -/
def checkRateLimit (key : Str) (now : ℕ) : Option Windows → Option Windows × RateLimitOutcome
  | none => (none, .panicked)
  | some windows =>
    let timestamps := (windows.evict.timestamps key).filter (l.inWindow now)
    if l.maxRequests ≤ timestamps.length then
      match timestamps.head? with
      | none => (none, .panicked)
      | some oldest =>
        (some (windows.evict.insert (key, timestamps)), .limited (max (l.windowSeconds - (now - oldest) / second) 1))
    else (some (windows.evict.insert (key, timestamps ++ [now])), .ok)

end RateLimiter

structure RateLimitCall where
  key : Str
  time : ℕ
  outcome : RateLimitOutcome

/-- Calls at times that do not decrease. The table is a hash map: before each call it may list its entries in another order. -/
inductive LimiterRun (l : RateLimiter) (allowed : Windows → ℕ → Prop) : List RateLimitCall → Option Windows → Prop
  | start : LimiterRun l allowed [] (some .empty)
  | call {calls : List RateLimitCall} {windows windows' : Option Windows} (key : Str) (now : ℕ) : LimiterRun l allowed calls windows →
      (∀ c ∈ calls, c.time ≤ now) → Option.Rel (fun w w' => (∀ k, w.get k = w'.get k) ∧ allowed w' now) windows windows' →
      LimiterRun l allowed (calls ++ [⟨key, now, (l.checkRateLimit key now windows').2⟩]) (l.checkRateLimit key now windows').1

def admitted (calls : List RateLimitCall) (key : Str) : List ℕ :=
  (calls.filter fun c => c.key = key ∧ c.outcome = .ok).map RateLimitCall.time

/-- Evicting takes away no request that still counts. -/
def SparesWindow (l : RateLimiter) (windows : Windows) (now : ℕ) : Prop :=
  ∀ key, (windows.evict.timestamps key).filter (l.inWindow now) = (windows.timestamps key).filter (l.inWindow now)

structure LimiterInv (l : RateLimiter) (calls : List RateLimitCall) (windows : Windows) : Prop where
  stored : ∀ key now, (∀ c ∈ calls, c.time ≤ now) →
    (windows.timestamps key).filter (l.inWindow now) = (admitted calls key).filter (l.inWindow now)
  answered : ∀ c ∈ calls, c.outcome ≠ .panicked
  bounded : ∀ key t, (admitted calls key).countP (fun s => s ≤ t ∧ t < s + l.windowSeconds * second) ≤ l.maxRequests

section

variable {l : RateLimiter} {windows windows' : Windows} {calls : List RateLimitCall} {key : Str} {now : ℕ}

lemma timestamps_insert (windows : Windows) (key k : Str) (ts : List ℕ) :
    Windows.timestamps (windows.insert (key, ts)) k = if k = key then ts else windows.timestamps k := by
  rw [Windows.timestamps, Table.get_insert]
  split_ifs <;> rfl

lemma admitted_append (calls : List RateLimitCall) (c : RateLimitCall) (key : Str) :
    admitted (calls ++ [c]) key = admitted calls key ++ if c.key = key ∧ c.outcome = .ok then [c.time] else [] := by
  rw [admitted, filter_append, map_append, admitted]
  split_ifs with h <;> simp [h]

lemma filter_inWindow {later : ℕ} (h : now ≤ later) (ts : List ℕ) :
    (ts.filter (l.inWindow now)).filter (l.inWindow later) = ts.filter (l.inWindow later) := by
  rw [filter_filter]
  refine filter_congr fun t _ => ?_
  have himp : l.inWindow later t = true → l.inWindow now t = true := by
    simp only [RateLimiter.inWindow, decide_eq_true_eq]
    omega
  cases hl : l.inWindow later t <;> simp_all

/-- The admitted requests in a window are at most those in the window of the last one. -/
lemma bounded_append (hinv : LimiterInv l calls windows) (htimes : ∀ c ∈ calls, c.time ≤ now)
    (hroom : ((admitted calls key).filter (l.inWindow now)).length < l.maxRequests) (t : ℕ) :
    (admitted calls key ++ [now]).countP (fun s => s ≤ t ∧ t < s + l.windowSeconds * second) ≤ l.maxRequests := by
  rw [countP_append, countP_singleton]
  split_ifs with hnow
  · have hle : (admitted calls key).countP (fun s => s ≤ t ∧ t < s + l.windowSeconds * second) ≤
        ((admitted calls key).filter (l.inWindow now)).length := by
      rw [← countP_eq_length_filter]
      refine countP_mono_left fun s hs hin => ?_
      obtain ⟨c, hc, rfl⟩ := mem_map.mp hs
      have hsnow := htimes c (mem_of_mem_filter hc)
      simp only [decide_eq_true_eq] at hin hnow
      exact decide_eq_true (by omega)
    omega
  · exact hinv.bounded key t

lemma LimiterInv.call (hinv : LimiterInv l calls windows) (hmax : 0 < l.maxRequests) (htimes : ∀ c ∈ calls, c.time ≤ now)
    (hsame : ∀ k, windows.get k = windows'.get k) (hspares : SparesWindow l windows' now) :
    ∃ windows'', (l.checkRateLimit key now (some windows')).1 = some windows'' ∧
      LimiterInv l (calls ++ [⟨key, now, (l.checkRateLimit key now (some windows')).2⟩]) windows'' := by
  have hstamps (k : Str) : windows'.timestamps k = windows.timestamps k := by rw [Windows.timestamps, ← hsame, Windows.timestamps]
  -- what is left after the eviction agrees with the admitted requests in every later window
  have hkept (k : Str) {later : ℕ} (h : now ≤ later) :
      (windows'.evict.timestamps k).filter (l.inWindow later) = (admitted calls k).filter (l.inWindow later) := by
    rw [← filter_inWindow h, hspares, filter_inWindow h, hstamps]
    exact hinv.stored k later fun c hc => (htimes c hc).trans h
  have hstored (added : List ℕ) (k : Str) {later : ℕ} (h : now ≤ later) :
      (Windows.timestamps (windows'.evict.insert (key, (admitted calls key).filter (l.inWindow now) ++ added)) k).filter (l.inWindow later) =
        (admitted calls k ++ if key = k then added else []).filter (l.inWindow later) := by
    rw [timestamps_insert, filter_append]
    split_ifs with hk hk' hk'
    · rw [hk, filter_append, filter_inWindow h]
    · exact absurd hk.symm hk'
    · exact absurd hk'.symm hk
    · rw [hkept k h, filter_nil, append_nil]
  simp only [RateLimiter.checkRateLimit, hkept key le_rfl]
  split_ifs with hfull
  · obtain ⟨oldest, rest, hts⟩ := exists_cons_of_length_pos (hmax.trans_le hfull)
    rw [hts, head?_cons, ← hts]
    refine ⟨_, rfl, fun k later hlater => ?_, forall_mem_append.mpr ⟨hinv.answered, by simp⟩, fun k t => ?_⟩
    · simpa [admitted_append] using hstored [] k (hlater _ (mem_append_right _ (mem_singleton_self _)))
    · simpa [admitted_append] using hinv.bounded k t
  · refine ⟨_, rfl, fun k later hlater => ?_, forall_mem_append.mpr ⟨hinv.answered, by simp⟩, fun k t => ?_⟩
    · simpa [admitted_append] using hstored [now] k (hlater _ (mem_append_right _ (mem_singleton_self _)))
    · rw [admitted_append]
      by_cases hk : key = k
      · subst hk
        simpa using bounded_append hinv htimes (not_le.mp hfull) t
      · simpa [hk] using hinv.bounded k t

end

end AeorDb.Auth
