import AeorDb.Library.Threads

/-! The cache of loaded values beside writers that store a new value and then evict its key. -/

namespace AeorDb.Store

open Library Threads Option Function

structure Stamped (α : Type) where
  version : ℕ
  value : α
  deriving DecidableEq

structure CacheState (K D V : Type) where
  stored : K → Stamped D
  entries : K → Option (Stamped V)
  inFlight : K → Option ℕ
  held : ℕ → Bool
  nextLock : ℕ

inductive GetStage (E V : Type) where
  | start
  | arrange
  | wait (lock : ℕ)
  | recheck (lock : ℕ)
  | acquire (lock : ℕ)
  | load (lock : ℕ)
  | insert (lock : ℕ) (loaded : Stamped V)
  | cleanup (lock : ℕ) (result : Except E (Stamped V))
  | release (lock : ℕ) (result : Except E (Stamped V))
  | returned (result : Except E (Stamped V))

inductive WriteStage where
  | store
  | evict (version : ℕ)
  | returned (version : ℕ)

inductive CacheCall (K D E V : Type) where
  | get (key : K) (stage : GetStage E V)
  | write (key : K) (data : D) (all : Bool) (stage : WriteStage)

namespace CacheState

variable {K D E V : Type} [DecidableEq K] (loader : D → Except E V) (s : CacheState K D V)

def newLock : CacheState K D V := { s with nextLock := s.nextLock + 1 }

def acquired (lock : ℕ) : CacheState K D V := { s with held := Function.update s.held lock true }

def released (lock : ℕ) : CacheState K D V := { s with held := Function.update s.held lock false }

def insert (key : K) (loaded : Stamped V) : CacheState K D V := { s with entries := Function.update s.entries key (some loaded) }

def put (key : K) (data : D) : CacheState K D V :=
  { s with stored := Function.update s.stored key ⟨(s.stored key).version + 1, data⟩ }

def evict (key : K) : CacheState K D V := { s with entries := Function.update s.entries key none }

def evictAll : CacheState K D V := { s with entries := fun _ => none }

def getStep (key : K) : GetStage E V → Option (CacheState K D V × GetStage E V)
  | .start =>
    some (s, match s.entries key with
      | some value => .returned (.ok value)
      | none => .arrange)
  | .arrange =>
    match s.inFlight key with
    | some lock => some (s, .wait lock)
    | none => some ({ s.newLock with inFlight := Function.update s.inFlight key (some s.nextLock) }, .acquire s.nextLock)
  | .wait lock => if s.held lock then none else some (s.acquired lock, .recheck lock)
  | .recheck lock =>
    match s.entries key with
    | some value => some (s.released lock, .returned (.ok value))
    | none => some ((s.released lock).newLock, .acquire s.nextLock)
  | .acquire lock => if s.held lock then none else some (s.acquired lock, .load lock)
  | .load lock =>
    some (s, match loader (s.stored key).value with
      | .ok value => .insert lock ⟨(s.stored key).version, value⟩
      | .error error => .cleanup lock (.error error))
  | .insert lock loaded => some (s.insert key loaded, .cleanup lock (.ok loaded))
  | .cleanup lock result => some ({ s with inFlight := Function.update s.inFlight key none }, .release lock result)
  | .release lock result => some (s.released lock, .returned result)
  | .returned _ => none

def writeStep (key : K) (data : D) (all : Bool) : WriteStage → Option (CacheState K D V × WriteStage)
  | .store => some (s.put key data, .evict ((s.stored key).version + 1))
  | .evict version => some (if all then s.evictAll else s.evict key, .returned version)
  | .returned _ => none

def step : CacheCall K D E V → Option (CacheState K D V × CacheCall K D E V)
  | .get key stage => (getStep loader s key stage).map fun next => (next.1, .get key next.2)
  | .write key data all stage => (writeStep s key data all stage).map fun next => (next.1, .write key data all next.2)

lemma entries_insert (key k : K) (loaded : Stamped V) : (s.insert key loaded).entries k = if k = key then some loaded else s.entries k :=
  update_apply _ _ _ _

lemma stored_put (key k : K) (data : D) : (s.put key data).stored k = if k = key then ⟨(s.stored key).version + 1, data⟩ else s.stored k :=
  update_apply _ _ _ _

lemma entries_evict (key k : K) : (s.evict key).entries k = if k = key then none else s.entries k := update_apply _ _ _ _

end CacheState

namespace CacheCall

variable {K D E V : Type} [DecidableEq K] (key : K)

def pending : CacheCall K D E V → Option (Stamped V)
  | .get k (.insert _ loaded) => if k = key then some loaded else none
  | _ => none

def carried : CacheCall K D E V → Option (Stamped V)
  | .get k (.insert _ loaded) => if k = key then some loaded else none
  | .get k (.cleanup _ result) => if k = key then result.toOption else none
  | .get k (.release _ result) => if k = key then result.toOption else none
  | .get k (.returned result) => if k = key then result.toOption else none
  | _ => none

def AtStart : CacheCall K D E V → Prop
  | .get _ stage => stage = .start
  | .write _ _ _ stage => stage = .store

def written : CacheCall K D E V → Option ℕ
  | .write k _ _ (.evict version) => if k = key then some version else none
  | .write k _ _ (.returned version) => if k = key then some version else none
  | _ => none

end CacheCall

namespace CacheState

variable {K D E V : Type} [DecidableEq K] {loader : D → Except E V} {s s' : CacheState K D V} {t t' : CacheCall K D E V} {key : K}

structure Effect (key : K) (s : CacheState K D V) (t : CacheCall K D E V) (s' : CacheState K D V) (t' : CacheCall K D E V) : Prop where
  stored : (s.stored key).version ≤ (s'.stored key).version
  entries : ∀ e, s'.entries key = some e → s.entries key = some e ∨ t.pending key = some e
  pending : ∀ e, t'.pending key = some e → e.version = (s.stored key).version
  carried : ∀ e, t'.carried key = some e → t.carried key = some e ∨ s.entries key = some e ∨ e.version = (s.stored key).version
  written : ∀ v, t'.written key = some v → t.written key = some v ∨ v ≤ (s'.stored key).version

variable {k : K} {stage stage' : GetStage E V}

lemma Effect.of_quiet (hstored : s'.stored = s.stored) (hentries : s'.entries = s.entries)
    (hpending : (CacheCall.get k stage' : CacheCall K D E V).pending key = none)
    (hcarried : ∀ e, (CacheCall.get k stage' : CacheCall K D E V).carried key = some e →
      (CacheCall.get k stage : CacheCall K D E V).carried key = some e ∨ s.entries key = some e) :
    Effect key s (.get k stage : CacheCall K D E V) s' (.get k stage') where
  stored := by rw [hstored]
  entries e he := by
    rw [hentries] at he
    exact .inl he
  pending e he := by cases hpending.symm.trans he
  carried e he := (hcarried e he).imp_right .inl
  written v hv := nomatch hv

lemma effect_get (h : getStep loader s k stage = some (s', stage')) :
    Effect key s (.get k stage : CacheCall K D E V) s' (.get k stage') := by
  have hfound {value : Stamped V} (he : s.entries k = some value) {e : Stamped V} (hk : (if k = key then some value else none) = some e) :
      s.entries key = some e := by
    split_ifs at hk with hkey
    rwa [← hkey, ← some.inj hk]
  cases stage with
  | start =>
    cases h
    cases hentry : s.entries k with
    | some value => exact .of_quiet rfl rfl rfl fun e he => .inr (hfound hentry he)
    | none => exact .of_quiet rfl rfl rfl fun e he => nomatch he
  | arrange =>
    rw [getStep] at h
    cases hlock : s.inFlight k with
    | some lock =>
      rw [hlock] at h
      cases h
      exact .of_quiet rfl rfl rfl fun e he => nomatch he
    | none =>
      rw [hlock] at h
      cases h
      exact .of_quiet rfl rfl rfl fun e he => nomatch he
  | wait lock =>
    rw [getStep] at h
    split_ifs at h
    cases h
    exact .of_quiet rfl rfl rfl fun e he => nomatch he
  | recheck lock =>
    rw [getStep] at h
    cases hentry : s.entries k with
    | some value =>
      rw [hentry] at h
      cases h
      exact .of_quiet rfl rfl rfl fun e he => .inr (hfound hentry he)
    | none =>
      rw [hentry] at h
      cases h
      exact .of_quiet rfl rfl rfl fun e he => nomatch he
  | acquire lock =>
    rw [getStep] at h
    split_ifs at h
    cases h
    exact .of_quiet rfl rfl rfl fun e he => nomatch he
  | load lock =>
    cases h
    cases loader (s.stored k).value with
    | ok value =>
      have hversion (e : Stamped V) (he : (if k = key then some ⟨(s.stored k).version, value⟩ else none) = some e) :
          e.version = (s.stored key).version := by
        split_ifs at he with hkey
        rw [← hkey, ← some.inj he]
      exact ⟨le_rfl, fun e he => .inl he, hversion, fun e he => .inr (.inr (hversion e he)), fun v hv => nomatch hv⟩
    | error error =>
      refine .of_quiet rfl rfl rfl fun e he => ?_
      have hnone : (if k = key then none else none) = some e := he
      split_ifs at hnone
  | insert lock loaded =>
    cases h
    refine ⟨le_rfl, fun e he => ?_, (fun e he => nomatch he), fun e he => .inl he, fun v hv => nomatch hv⟩
    rw [entries_insert] at he
    by_cases hkey : key = k
    · rw [if_pos hkey] at he
      exact .inr ((if_pos hkey.symm).trans he)
    · rw [if_neg hkey] at he
      exact .inl he
  | cleanup lock result =>
    cases h
    exact .of_quiet rfl rfl rfl fun e he => .inl he
  | release lock result =>
    cases h
    exact .of_quiet rfl rfl rfl fun e he => .inl he
  | returned result => cases h

lemma effect_write {data : D} {all : Bool} {stage stage' : WriteStage} (h : writeStep s k data all stage = some (s', stage')) :
    Effect key s (.write k data all stage : CacheCall K D E V) s' (.write k data all stage') := by
  cases stage with
  | store =>
    cases h
    have hversion := stored_put s k key data
    by_cases hkey : key = k
    · subst hkey
      rw [if_pos rfl] at hversion
      refine ⟨?_, fun e he => .inl he, (fun e he => nomatch he), (fun e he => nomatch he), fun v hv => .inr ?_⟩
      · rw [hversion]
        exact Nat.le_succ _
      · rw [hversion]
        exact (some.inj ((if_pos rfl).symm.trans hv)).ge
    · rw [if_neg hkey] at hversion
      refine ⟨?_, fun e he => .inl he, (fun e he => nomatch he), (fun e he => nomatch he), fun v hv => ?_⟩
      · rw [hversion]
      · cases (if_neg (Ne.symm hkey)).symm.trans hv
  | evict version =>
    cases h
    cases all with
    | true => exact ⟨le_rfl, (fun e he => nomatch he), (fun e he => nomatch he), (fun e he => nomatch he), fun v hv => .inl hv⟩
    | false =>
      refine ⟨le_rfl, fun e he => ?_, (fun e he => nomatch he), (fun e he => nomatch he), fun v hv => .inl hv⟩
      rw [if_neg Bool.false_ne_true, entries_evict] at he
      split_ifs at he
      exact .inl he
  | returned version => cases h

lemma effect_step (key : K) (h : step loader s t = some (s', t')) : Effect key s t s' t' := by
  cases t with
  | get k stage =>
    obtain ⟨⟨_, stage'⟩, hstep, hnext⟩ := Option.map_eq_some_iff.mp h
    cases hnext
    exact effect_get hstep
  | write k data all stage =>
    obtain ⟨⟨_, stage'⟩, hstep, hnext⟩ := Option.map_eq_some_iff.mp h
    cases hnext
    exact effect_write hstep

variable {ι : Type} [DecidableEq ι] {c : Threads ι (CacheState K D V) (CacheCall K D E V)} {v : ℕ} {g w : ι} {schedule : List ι}

structure Fresh (key : K) (v : ℕ) (g : ι) (c : Threads ι (CacheState K D V) (CacheCall K D E V)) : Prop where
  stored : v ≤ (c.shared.stored key).version
  entries : ∀ e, c.shared.entries key = some e → v ≤ e.version
  pending : ∀ i e, (c.calls i).pending key = some e → v ≤ e.version
  carried : ∀ e, (c.calls g).carried key = some e → v ≤ e.version

lemma Fresh.turn (h : Fresh key v g c) (i : ι) : Fresh key v g (c.turn (step loader) i) := by
  obtain heq | ⟨s, t, hstep, hmoved⟩ := turn_cases (step loader) c i
  · rwa [heq]
  have heffect := effect_step key hstep
  refine ⟨?_, ?_, ?_, ?_⟩
  · rw [hmoved.shared]
    exact h.stored.trans heffect.stored
  · intro e he
    rw [hmoved.shared] at he
    exact (heffect.entries e he).elim (h.entries e) (h.pending i e)
  · refine hmoved.forall (P := fun t => ∀ e, t.pending key = some e → v ≤ e.version) ?_ fun j _ => h.pending j
    intro e he
    rw [heffect.pending e he]
    exact h.stored
  · intro e he
    obtain ⟨rfl, hg⟩ | ⟨-, hg⟩ := hmoved.call_cases g
    · rw [hg] at he
      obtain hcarried | hentry | hversion := heffect.carried e he
      · exact h.carried e hcarried
      · exact h.entries e hentry
      · rw [hversion]
        exact h.stored
    · rw [hg] at he
      exact h.carried e he

lemma Fresh.run (h : Fresh key v g c) (schedule : List ι) : Fresh key v g (c.run (step loader) schedule) :=
  run_always (fun _ i hinv => hinv.turn i) h schedule

def WrittenBehind (key : K) (c : Threads ι (CacheState K D V) (CacheCall K D E V)) : Prop :=
  ∀ i v, (c.calls i).written key = some v → v ≤ (c.shared.stored key).version

lemma WrittenBehind.turn (h : WrittenBehind key c) (i : ι) : WrittenBehind key (c.turn (step loader) i) := by
  obtain heq | ⟨s, t, hstep, hmoved⟩ := turn_cases (step loader) c i
  · rwa [heq]
  have heffect := effect_step key hstep
  intro j v hv
  rw [hmoved.shared]
  obtain ⟨rfl, hj⟩ | ⟨-, hj⟩ := hmoved.call_cases j
  · rw [hj] at hv
    exact (heffect.written v hv).elim (fun hbefore => (h j v hbefore).trans heffect.stored) id
  · rw [hj] at hv
    exact (h j v hv).trans heffect.stored

lemma writtenBehind_run (hstart : ∀ i, (c.calls i).AtStart) (schedule : List ι) : WrittenBehind key (c.run (step loader) schedule) := by
  refine run_always (fun _ i hinv => hinv.turn i) ?_ schedule
  intro i v hv
  have hi := hstart i
  cases hcall : c.calls i with
  | get k stage =>
    rw [hcall] at hv
    cases hv
  | write k data all stage =>
    rw [hcall] at hi hv
    obtain rfl : stage = .store := hi
    cases hv

variable {e : Stamped V}

lemma get_of_pending {t : CacheCall K D E V} (h : t.pending key = some e) : ∃ lock, t = .get key (.insert lock e) := by
  cases t with
  | write k data all stage => cases h
  | get k stage =>
    cases stage with
    | insert lock loaded =>
      have hkey : (if k = key then some loaded else none) = some e := h
      split_ifs at hkey with hk
      rw [hk, some.inj hkey]
      exact ⟨lock, rfl⟩
    | _ => cases h

lemma returned_of_pending {i : ι} (hi : (c.calls i).pending key = some e) (hg : c.calls g = .get key .start) :
    (c.run (step loader) [i, g]).calls g = .get key (.returned (.ok e)) := by
  obtain ⟨lock, hcall⟩ := get_of_pending hi
  have hne : g ≠ i := by
    rintro rfl
    rw [hg] at hcall
    cases hcall
  have hinsert : step loader c.shared (c.calls i) = some (c.shared.insert key e, .get key (.cleanup lock (.ok e))) := by
    rw [hcall]
    rfl
  have hmoved := moved_of_step hinsert
  change ((c.turn (step loader) i).turn (step loader) g).calls g = _
  generalize c.turn (step loader) i = c' at hmoved ⊢
  have hentry : c'.shared.entries key = some e := by
    rw [hmoved.shared, entries_insert, if_pos rfl]
  have hread : step loader c'.shared (c'.calls g) = some (c'.shared, .get key (.returned (.ok e))) := by
    rw [hmoved.other g hne, hg, step, getStep, hentry]
    rfl
  exact (moved_of_step hread).self

section

variable {data : D} {all : Bool}

lemma evicted (loader : D → Except E V) (hw : c.calls w = .write key data all (.evict v)) :
    (c.turn (step loader) w).shared.entries key = none ∧ (c.turn (step loader) w).shared.stored = c.shared.stored ∧
      (∀ g, (c.turn (step loader) w).calls g = .get key .start ↔ c.calls g = .get key .start) ∧
      ∀ i, ((c.turn (step loader) w).calls i).pending key = (c.calls i).pending key := by
  have hevict : step loader c.shared (c.calls w) =
      some (if all then c.shared.evictAll else c.shared.evict key, .write key data all (.returned v)) := by
    rw [hw]
    rfl
  have hmoved := moved_of_step hevict
  generalize c.turn (step loader) w = c' at hmoved ⊢
  rw [hmoved.shared]
  refine ⟨?_, ?_, ?_, ?_⟩
  · cases all with
    | true => rfl
    | false => exact (entries_evict _ _ _).trans (if_pos rfl)
  · cases all with
    | true => rfl
    | false => rfl
  · intro g
    obtain ⟨rfl, hg⟩ | ⟨-, hg⟩ := hmoved.call_cases g
    · rw [hg, hw]
      exact iff_of_false (by simp) (by simp)
    · rw [hg]
  · refine hmoved.map_eq ?_
    rw [hw]
    rfl

lemma reads_after_turn_iff (hw : c.calls w = .write key data all (.evict v)) (hstored : v ≤ (c.shared.stored key).version) :
    (∀ after g e, (c.turn (step loader) w).calls g = .get key .start →
        ((c.turn (step loader) w).run (step loader) after).calls g = .get key (.returned (.ok e)) → v ≤ e.version) ↔
      ∀ i e, (c.calls i).pending key = some e → e.version < v → ∀ g, c.calls g ≠ .get key .start := by
  obtain ⟨hentry, hdata, hget, hpending⟩ := evicted loader hw
  generalize c.turn (step loader) w = c' at hentry hdata hget hpending ⊢
  constructor
  · intro hfresh i e hi hold g hg
    have hg' := (hget g).mpr hg
    rw [← hpending] at hi
    exact absurd (hfresh [i, g] g e hg' (returned_of_pending hi hg')) (not_le.mpr hold)
  · intro hnone after g e hg hreturned
    have hinv : Fresh key v g c' := by
      refine ⟨?_, ?_, ?_, ?_⟩
      · rwa [hdata]
      · intro e he
        cases hentry.symm.trans he
      · intro i e he
        rw [hpending] at he
        by_contra hold
        exact hnone i e he (not_le.mp hold) g ((hget g).mp hg)
      · intro e he
        rw [hg] at he
        cases he
    apply (hinv.run after).carried
    rw [hreturned]
    exact if_pos rfl

/-- After an eviction every later get finds the new value or a later one, exactly when no get is about to insert an older value
while others are still to come. -/
theorem reads_after_evict_iff (hstart : ∀ i, (c.calls i).AtStart)
    (hw : (c.run (step loader) schedule).calls w = .write key data all (.evict v)) :
    (∀ after g e, (c.run (step loader) (schedule ++ [w])).calls g = .get key .start →
        (c.run (step loader) (schedule ++ [w] ++ after)).calls g = .get key (.returned (.ok e)) → v ≤ e.version) ↔
      ∀ i e, ((c.run (step loader) schedule).calls i).pending key = some e → e.version < v →
        ∀ g, (c.run (step loader) schedule).calls g ≠ .get key .start := by
  have hbehind : WrittenBehind key (c.run (step loader) schedule) := writtenBehind_run hstart schedule
  have hstored : v ≤ ((c.run (step loader) schedule).shared.stored key).version := by
    apply hbehind w
    rw [hw]
    exact if_pos rfl
  simp only [run_append _ (schedule ++ [w]), run_concat]
  exact reads_after_turn_iff hw hstored

end

def numbers : CacheState Unit ℕ ℕ := ⟨fun _ => ⟨0, 10⟩, fun _ => none, fun _ => none, fun _ => false, 0⟩

def beside : Threads (Fin 3) (CacheState Unit ℕ ℕ) (CacheCall Unit ℕ Empty ℕ) where
  shared := numbers
  calls i := if i = 1 then .write () 20 false .store else .get () .start

theorem reads_after_evict_in_turn :
    (beside.run (step Except.ok) [0, 0, 0, 0, 0, 0, 0, 1]).calls 1 = .write () 20 false (.evict 1) ∧
    (beside.run (step Except.ok) ([0, 0, 0, 0, 0, 0, 0, 1] ++ [1] ++ [2, 2, 2, 2, 2, 2, 2])).calls 2 = .get () (.returned (.ok ⟨1, 20⟩)) ∧
    1 ≤ (⟨1, 20⟩ : Stamped ℕ).version := by
  have hstart : ∀ i, (beside.calls i).AtStart := by
    intro i
    fin_cases i <;> rfl
  have hnone : ∀ i, ((beside.run (step Except.ok) [0, 0, 0, 0, 0, 0, 0, 1]).calls i).pending () = none := by decide
  have hwriter : (beside.run (step Except.ok) [0, 0, 0, 0, 0, 0, 0, 1]).calls 1 = .write () 20 false (.evict 1) := rfl
  refine ⟨hwriter, rfl, ?_⟩
  refine (reads_after_evict_iff hstart hwriter).mpr ?_ [2, 2, 2, 2, 2, 2, 2] 2 ⟨1, 20⟩ rfl rfl
  intro i e he
  cases (hnone i).symm.trans he

theorem stale_read_after_evict :
    (beside.run (step Except.ok) [0, 0, 0, 0, 1, 1]).calls 1 = .write () 20 false (.returned 1) ∧
    (beside.run (step Except.ok) [0, 0, 0, 0, 1, 1]).calls 2 = .get () .start ∧
    (beside.run (step Except.ok) [0, 0, 0, 0, 1, 1, 0, 2]).calls 2 = .get () (.returned (.ok ⟨0, 10⟩)) :=
  ⟨rfl, rfl, rfl⟩

end CacheState

end AeorDb.Store
