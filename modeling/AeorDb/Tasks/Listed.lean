import AeorDb.Tasks.Queue

/-! A task that was enqueued stays in the registry while no prune writes back an older one. -/

namespace AeorDb.Tasks

open Store Library TaskQueue List

namespace QueueCall

def chosen : QueueCall → List TaskRecord
  | .pruneCompleted _ _ _ (.remove _ removed _) => removed
  | .pruneCompleted _ _ _ (.saveRegistry _ removed) => removed
  | .pruneCompleted _ _ _ (.returned removed) => removed
  | _ => []

def held : QueueCall → Option (List Str)
  | .enqueue _ _ (.saveRegistry registry) => some registry
  | .pruneCompleted _ _ _ (.read registry _ _) => some registry
  | .pruneCompleted _ _ _ (.remove registry _ _) => some registry
  | .pruneCompleted _ _ _ (.saveRegistry registry _) => some registry
  | _ => none

def stored : QueueCall → Option Str
  | .enqueue id _ .loadRegistry => some id
  | .enqueue id _ (.saveRegistry _) => some id
  | .enqueue id _ .unlock => some id
  | .enqueue id _ .returned => some id
  | _ => none

def enqueued : QueueCall → Option Str
  | .enqueue id _ .unlock => some id
  | .enqueue id _ .returned => some id
  | _ => none

def Saves (t : QueueCall) (id : Str) : Prop := ∃ now registry, t = .enqueue id now (.saveRegistry registry)

def isPrune : QueueCall → Bool
  | .pruneCompleted _ _ _ _ => true
  | _ => false

def Sound : QueueCall → Prop
  | .pruneCompleted _ _ _ (.remove _ removed ids) => ∀ id ∈ ids, ∃ r ∈ removed, r.id = id
  | _ => True

def critical : QueueCall → Bool
  | .enqueue _ _ stage => match stage with
    | .lock | .returned => false
    | _ => true
  | .dequeueNext _ stage => match stage with
    | .lock | .returned _ => false
    | _ => true
  | _ => false

end QueueCall

variable {q q' : TaskQueue} {t t' : QueueCall}

lemma isTerminal_of_mem_prunable {now maxAge : ℤ} {maxCount : ℕ} {tasks : List TaskRecord} {r : TaskRecord}
    (h : r ∈ prunable now maxAge maxCount tasks) : r.status.isTerminal = true := by
  have hmem : r ∈ (tasks.filter fun task => task.status.isTerminal).insertionSort fun a b => finishTime b ≤ finishTime a := by
    rcases mem_append.mp h with haged | hrest
    · exact mem_of_mem_filter haged
    · exact mem_of_mem_filter (mem_of_mem_drop hrest)
  exact (mem_filter.mp ((mem_insertionSort _).mp hmem)).2

structure QueueCall.Aside (t : QueueCall) : Prop where
  chosen : t.chosen = []
  held : t.held = none
  stored : t.stored = none
  enqueued : t.enqueued = none
  critical : t.critical = false
  sound : t.Sound

variable {id : Str}

lemma Updates.aside {call : UpdateStage → QueueCall} {change : TaskRecord → TaskRecord} (h : Updates call id change)
    (stage : UpdateStage) : (call stage).Aside := by
  cases h with
  | status id status error now => exact ⟨rfl, rfl, rfl, rfl, rfl, trivial⟩
  | checkpoint id checkpoint => exact ⟨rfl, rfl, rfl, rfl, rfl, trivial⟩

lemma TaskQueue.found_store (q : TaskQueue) (record : TaskRecord) (h : (q.records.find id).isSome = true) :
    ((q.store record).records.find id).isSome = true := by
  rw [store, TaskRecords.find_put]
  split_ifs
  · rfl
  · exact h

lemma QueueCall.held_of_enqueued (h : t.enqueued = some id) : t.held = none := by
  cases t with
  | enqueue id now stage =>
    cases stage with
    | unlock => rfl
    | returned => rfl
    | _ => cases h
  | _ => cases h

lemma QueueCall.critical_of_held {ids : List Str} (h : t.held = some ids) (hprune : t.isPrune = false) : t.critical = true := by
  cases t with
  | enqueue id now stage =>
    cases stage with
    | saveRegistry registry => rfl
    | _ => cases h
  | pruneCompleted now maxAge maxCount stage => cases hprune
  | _ => cases h

lemma QueueCall.Saves.critical (h : t.Saves id) : t.critical = true := by
  obtain ⟨now, registry, rfl⟩ := h
  rfl

structure LockEffect (q : TaskQueue) (t : QueueCall) (q' : TaskQueue) (t' : QueueCall) : Prop where
  enters : t.critical = false → t'.critical = true → q.locked = false ∧ q'.locked = true
  stays : t'.critical = t.critical → q'.locked = q.locked

lemma LockEffect.of_same (hcritical : t'.critical = t.critical) (hlocked : q'.locked = q.locked) : LockEffect q t q' t' where
  enters hbefore hafter := by
    rw [hcritical, hbefore] at hafter
    cases hafter
  stays _ := hlocked

lemma Stepped.lockEffect (h : Stepped q t q' t') : LockEffect q t q' t' := by
  cases h with
  | enqueueLock id now hfree => exact ⟨fun _ _ => ⟨hfree, rfl⟩, fun hsame => nomatch hsame⟩
  | dequeueLock now hfree => exact ⟨fun _ _ => ⟨hfree, rfl⟩, fun hsame => nomatch hsame⟩
  | enqueueUnlock id now => exact ⟨(fun _ hafter => nomatch hafter), fun hsame => nomatch hsame⟩
  | dequeueUnlock now result => exact ⟨(fun _ hafter => nomatch hafter), fun hsame => nomatch hsame⟩
  | updateMissing hcall hfind => exact .of_same ((hcall.aside _).critical.trans (hcall.aside _).critical.symm) rfl
  | updateFound hcall record hfind => exact .of_same ((hcall.aside _).critical.trans (hcall.aside _).critical.symm) rfl
  | updateWrite hcall record => exact .of_same ((hcall.aside _).critical.trans (hcall.aside _).critical.symm) rfl
  | _ => exact .of_same rfl rfl

structure Effect (q : TaskQueue) (t : QueueCall) (q' : TaskQueue) (t' : QueueCall) : Prop where
  sound : t'.Sound
  chosen : ∀ r ∈ t.chosen, r ∈ t'.chosen
  terminal : ∀ r ∈ t'.chosen, r ∈ t.chosen ∨ r.status.isTerminal = true
  found : ∀ id, (q.records.find id).isSome = true → (q'.records.find id).isSome = true ∨ ∃ r ∈ t.chosen, r.id = id
  stored : ∀ id, t'.stored = some id → t.stored = some id ∨ (q'.records.find id).isSome = true
  registry : ∀ id ∈ q.registry, (∀ ids, t.held = some ids → id ∈ ids) → (∀ r ∈ t.chosen, r.id ≠ id) → id ∈ q'.registry
  held : ∀ ids, t'.held = some ids → t.held = some ids ∨ ids = q.registry
  enqueued : ∀ id, t'.enqueued = some id → t.enqueued = some id ∨ t.Saves id ∧ id ∈ q'.registry ∧ t.stored = some id

lemma Effect.of_same (hsound : t'.Sound) (hchosen : t'.chosen = t.chosen) (hstored : t'.stored = t.stored) (hheld : t'.held = t.held)
    (henqueued : t'.enqueued = t.enqueued) (hregistry : q'.registry = q.registry)
    (hfound : ∀ id, (q.records.find id).isSome = true → (q'.records.find id).isSome = true) : Effect q t q' t' where
  sound := hsound
  chosen _ hr := hchosen ▸ hr
  terminal _ hr := .inl (hchosen ▸ hr)
  found id hid := .inl (hfound id hid)
  stored _ hid := .inl (hstored ▸ hid)
  registry _ hid _ _ := hregistry ▸ hid
  held _ hids := .inl (hheld ▸ hids)
  enqueued _ hid := .inl (henqueued ▸ hid)

lemma Effect.of_aside (ht : t.Aside) (ht' : t'.Aside) (hregistry : q'.registry = q.registry)
    (hfound : ∀ id, (q.records.find id).isSome = true → (q'.records.find id).isSome = true) : Effect q t q' t' :=
  .of_same ht'.sound (ht'.chosen.trans ht.chosen.symm) (ht'.stored.trans ht.stored.symm) (ht'.held.trans ht.held.symm)
    (ht'.enqueued.trans ht.enqueued.symm) hregistry hfound

lemma Stepped.effect (h : Stepped q t q' t') (hsound : t.Sound) : Effect q t q' t' := by
  cases h with
  | enqueueStore id now =>
    refine ⟨trivial, fun _ hr => hr, fun _ hr => .inl hr, fun id' hid => .inl (q.found_store _ hid), ?_, fun _ hid _ _ => hid,
      (fun _ h => nomatch h), fun _ h => nomatch h⟩
    intro id' hid
    cases hid
    refine .inr ?_
    exact congrArg Option.isSome (if_pos rfl)
  | enqueueLoad id now =>
    exact ⟨trivial, fun _ hr => hr, fun _ hr => .inl hr, fun _ hid => .inl hid, fun _ hid => .inl hid, fun _ hid _ _ => hid,
      fun _ h => .inr (Option.some.inj h).symm, fun _ h => nomatch h⟩
  | enqueueSave id now registry =>
    refine ⟨trivial, fun _ hr => hr, fun _ hr => .inl hr, fun _ hid => .inl hid, fun _ hid => .inl hid, ?_, (fun _ h => nomatch h), ?_⟩
    · intro id' _ hheld _
      exact mem_append_left _ (hheld registry rfl)
    · intro id' hid
      cases hid
      exact .inr ⟨⟨now, registry, rfl⟩, mem_append_right _ (mem_singleton.mpr rfl), rfl⟩
  | dequeueWrite now task record => exact .of_same trivial rfl rfl rfl rfl rfl fun _ hid => q.found_store _ hid
  | updateMissing hcall hfind => exact .of_aside (hcall.aside _) (hcall.aside _) rfl fun _ hid => hid
  | updateFound hcall record hfind => exact .of_aside (hcall.aside _) (hcall.aside _) rfl fun _ hid => hid
  | updateWrite hcall record => exact .of_aside (hcall.aside _) (hcall.aside _) rfl fun _ hid => q.found_store _ hid
  | pruneLoad now maxAge maxCount =>
    exact ⟨trivial, fun _ hr => hr, fun _ hr => .inl hr, fun _ hid => .inl hid, fun _ hid => .inl hid, fun _ hid _ _ => hid,
      fun _ h => .inr (Option.some.inj h).symm, fun _ h => nomatch h⟩
  | pruneChoose now maxAge maxCount registry tasks =>
    refine ⟨?_, (fun _ hr => nomatch hr), ?_, fun _ hid => .inl hid, fun _ hid => .inl hid, fun _ hid _ _ => hid, fun _ h => .inl h,
      fun _ h => .inl h⟩
    · intro id hid
      obtain ⟨r, hr, rfl⟩ := mem_map.mp hid
      exact ⟨r, hr, rfl⟩
    · exact fun r hr => .inr (isTerminal_of_mem_prunable hr)
  | pruneDelete now maxAge maxCount registry removed id ids =>
    refine ⟨fun id' hid => hsound id' (mem_cons_of_mem _ hid), fun _ hr => hr, fun _ hr => .inl hr, ?_, fun _ hid => .inl hid,
      fun _ hid _ _ => hid, fun _ h => .inl h, fun _ h => .inl h⟩
    intro id' hid
    by_cases hsame : id' = id
    · rw [hsame]
      exact .inr (hsound id mem_cons_self)
    · refine .inl ?_
      rwa [TaskRecords.find_markDeleted, if_neg hsame]
  | pruneSave now maxAge maxCount registry removed =>
    refine ⟨trivial, fun _ hr => hr, fun _ hr => .inl hr, fun _ hid => .inl hid, fun _ hid => .inl hid, ?_, (fun _ h => nomatch h),
      fun _ h => .inl h⟩
    intro id _ hheld hchosen
    refine mem_filter.mpr ⟨hheld registry rfl, ?_⟩
    rw [decide_eq_true_eq, mem_map]
    rintro ⟨r, hr, hid⟩
    exact hchosen r hr hid
  | _ => exact .of_same trivial rfl rfl rfl rfl rfl fun _ hid => hid

variable {ι : Type} [DecidableEq ι] {c : Threads ι TaskQueue QueueCall} {schedule : List ι}

def Pruned (c : Threads ι TaskQueue QueueCall) (id : Str) : Prop :=
  ∃ i, ∃ r ∈ (c.calls i).chosen, r.id = id ∧ r.status.isTerminal = true

def PruneApart (c : Threads ι TaskQueue QueueCall) (i : ι) : Prop :=
  ∀ id, (c.calls i).Saves id → ∀ j, (c.calls j).isPrune = true → (c.calls j).held = none

structure LockInv (c : Threads ι TaskQueue QueueCall) : Prop where
  locked : ∀ i, (c.calls i).critical = true → c.shared.locked = true
  alone : ∀ i j, (c.calls i).critical = true → (c.calls j).critical = true → i = j

lemma LockInv.turn (h : LockInv c) (i : ι) : LockInv (c.turn step i) := by
  obtain heq | ⟨q, t, hstep, hmoved⟩ := Threads.turn_cases step c i
  · rwa [heq]
  generalize c.turn step i = c' at hmoved ⊢
  have heffect := (stepped_of_step hstep).lockEffect
  by_cases hsame : t.critical = (c.calls i).critical
  · have hcritical := hmoved.map_eq hsame
    refine ⟨fun j hj => ?_, fun j k hj hk => ?_⟩
    · rw [hcritical] at hj
      rw [hmoved.shared, heffect.stays hsame]
      exact h.locked j hj
    · rw [hcritical] at hj hk
      exact h.alone j k hj hk
  cases hbefore : (c.calls i).critical with
  | false =>
    -- the lock was free, so nobody else is inside
    obtain ⟨hfree, hlocked⟩ := heffect.enters hbefore (by simpa [hbefore] using hsame)
    have honly (j : ι) (hj : (c'.calls j).critical = true) : j = i := by
      obtain ⟨hji, -⟩ | ⟨-, hcall⟩ := hmoved.call_cases j
      · exact hji
      · rw [hcall] at hj
        exact absurd (h.locked j hj) (by rw [hfree]; exact Bool.false_ne_true)
    refine ⟨fun _ _ => ?_, fun j k hj hk => (honly j hj).trans (honly k hk).symm⟩
    rw [hmoved.shared, hlocked]
  | true =>
    have hnone (j : ι) : (c'.calls j).critical ≠ true := by
      obtain ⟨-, hcall⟩ | ⟨hji, hcall⟩ := hmoved.call_cases j
      · rwa [hcall, ← hbefore]
      · rw [hcall]
        exact fun hj => hji (h.alone j i hj hbefore)
    exact ⟨fun j hj => absurd hj (hnone j), fun j _ hj _ => absurd hj (hnone j)⟩

structure ListedInv (c : Threads ι TaskQueue QueueCall) : Prop where
  lock : LockInv c
  sound : ∀ i, (c.calls i).Sound
  terminal : ∀ i, ∀ r ∈ (c.calls i).chosen, r.status.isTerminal = true
  found : ∀ i id, (c.calls i).stored = some id → Pruned c id ∨ (c.shared.records.find id).isSome = true
  listed : ∀ i id, (c.calls i).enqueued = some id → Pruned c id ∨ id ∈ c.shared.registry
  held : ∀ i id, (c.calls i).enqueued = some id → ∀ j ids, (c.calls j).held = some ids → Pruned c id ∨ id ∈ ids

lemma ListedInv.turn (h : ListedInv c) (i : ι) (hapart : PruneApart c i) : ListedInv (c.turn step i) := by
  have hlock := h.lock.turn i
  obtain heq | ⟨q, t, hstep, hmoved⟩ := Threads.turn_cases step c i
  · rwa [heq]
  generalize c.turn step i = c' at hlock hmoved ⊢
  have heffect := (stepped_of_step hstep).effect (h.sound i)
  have hpruned {id : Str} : Pruned c id → Pruned c' id := by
    rintro ⟨j, r, hr, hid, hterminal⟩
    refine ⟨j, r, ?_, hid, hterminal⟩
    obtain ⟨rfl, hcall⟩ | ⟨-, hcall⟩ := hmoved.call_cases j
    · rw [hcall]
      exact heffect.chosen r hr
    · rwa [hcall]
  have hother {id : Str} {r : TaskRecord} (hr : r ∈ (c.calls i).chosen) (hid : r.id = id) : Pruned c' id :=
    hpruned ⟨i, r, hr, hid, h.terminal i r hr⟩
  have hfound {id : Str} (hid : (c.shared.records.find id).isSome = true) : Pruned c' id ∨ (c'.shared.records.find id).isSome = true := by
    rw [hmoved.shared]
    obtain hkept | ⟨r, hr, hid⟩ := heffect.found id hid
    · exact .inr hkept
    · exact .inl (hother hr hid)
  have hlisted {j : ι} {id : Str} (hj : (c.calls j).enqueued = some id) : Pruned c' id ∨ id ∈ c'.shared.registry := by
    by_cases hgone : Pruned c' id
    · exact .inl hgone
    refine .inr ?_
    rw [hmoved.shared]
    apply heffect.registry id
    · exact (h.listed j id hj).resolve_left fun hp => hgone (hpruned hp)
    · exact fun ids hids => (h.held j id hj i ids hids).resolve_left fun hp => hgone (hpruned hp)
    · exact fun r hr hid => hgone (hother hr hid)
  have hheld {j k : ι} {id : Str} {ids : List Str} (hj : (c.calls j).enqueued = some id) (hk : (c'.calls k).held = some ids) :
      Pruned c' id ∨ id ∈ ids := by
    obtain ⟨rfl, hcall⟩ | ⟨-, hcall⟩ := hmoved.call_cases k
    · rw [hcall] at hk
      obtain hk | rfl := heffect.held ids hk
      · exact (h.held j id hj k ids hk).imp_left hpruned
      · exact (h.listed j id hj).imp_left hpruned
    · rw [hcall] at hk
      exact (h.held j id hj k ids hk).imp_left hpruned
  refine ⟨hlock, hmoved.forall heffect.sound fun j _ => h.sound j, ?_, ?_, ?_, ?_⟩
  · refine hmoved.forall (P := fun t => ∀ r ∈ t.chosen, r.status.isTerminal = true) ?_ fun j _ => h.terminal j
    exact fun r hr => (heffect.terminal r hr).elim (h.terminal i r) id
  · intro j id hj
    obtain ⟨rfl, hcall⟩ | ⟨-, hcall⟩ := hmoved.call_cases j
    · rw [hcall] at hj
      obtain hj | hnew := heffect.stored id hj
      · exact (h.found j id hj).elim (fun hp => .inl (hpruned hp)) hfound
      · rw [hmoved.shared]
        exact .inr hnew
    · rw [hcall] at hj
      exact (h.found j id hj).elim (fun hp => .inl (hpruned hp)) hfound
  · intro j id hj
    obtain ⟨rfl, hcall⟩ | ⟨-, hcall⟩ := hmoved.call_cases j
    · rw [hcall] at hj
      obtain hj | ⟨-, hnew, -⟩ := heffect.enqueued id hj
      · exact hlisted hj
      · rw [hmoved.shared]
        exact .inr hnew
    · rw [hcall] at hj
      exact hlisted hj
  · intro j id hj k ids hk
    obtain ⟨rfl, hcall⟩ | ⟨-, hcall⟩ := hmoved.call_cases j
    · rw [hcall] at hj
      obtain hold | ⟨hsaves, -⟩ := heffect.enqueued id hj
      · exact hheld hold hk
      · -- the call that saves now is the only one that holds a registry
        exfalso
        obtain ⟨-, hk'⟩ | ⟨hkj, hk'⟩ := hmoved.call_cases k
        · rw [hk', QueueCall.held_of_enqueued hj] at hk
          cases hk
        · rw [hk'] at hk
          cases hprune : (c.calls k).isPrune with
          | true => cases (hapart id hsaves k hprune).symm.trans hk
          | false => exact hkj (h.lock.alone k j (QueueCall.critical_of_held hk hprune) hsaves.critical)
    · rw [hcall] at hj
      exact hheld hj hk

lemma QueueCall.AtStart.aside (h : t.AtStart) : t.Aside := by
  cases t with
  | enqueue id now stage =>
    obtain rfl : stage = .lock := h
    exact ⟨rfl, rfl, rfl, rfl, rfl, trivial⟩
  | dequeueNext now stage =>
    obtain rfl : stage = .lock := h
    exact ⟨rfl, rfl, rfl, rfl, rfl, trivial⟩
  | updateStatus id status error now stage => exact (Updates.status id status error now).aside stage
  | updateCheckpoint id checkpoint stage => exact (Updates.checkpoint id checkpoint).aside stage
  | pruneCompleted now maxAge maxCount stage =>
    obtain rfl : stage = .loadRegistry := h
    exact ⟨rfl, rfl, rfl, rfl, rfl, trivial⟩

omit [DecidableEq ι] in
lemma listedInv_start (hstart : ∀ i, (c.calls i).AtStart) : ListedInv c := by
  refine ⟨⟨fun i hi => ?_, fun i j hi _ => ?_⟩, fun i => (hstart i).aside.sound, fun i r hr => ?_, fun i id hi => ?_, fun i id hi => ?_,
    fun i id hi => ?_⟩
  · cases (hstart i).aside.critical.symm.trans hi
  · cases (hstart i).aside.critical.symm.trans hi
  · rw [(hstart i).aside.chosen] at hr
    cases hr
  · cases (hstart i).aside.stored.symm.trans hi
  · cases (hstart i).aside.enqueued.symm.trans hi
  · cases (hstart i).aside.enqueued.symm.trans hi

/-- While enqueues and prunes do not write the registry across one another, a task whose enqueue has returned is listed until a prune
has found it finished. -/
theorem enqueued_stays_listed (hstart : ∀ i, (c.calls i).AtStart)
    (hapart : ∀ done i, done ++ [i] <+: schedule → PruneApart (c.run step done) i) {i : ι} {id : Str} {now : ℤ}
    (hi : (c.run step schedule).calls i = .enqueue id now .returned) :
    (∃ r ∈ (c.run step schedule).shared.listTasks, r.id = id) ∨ Pruned (c.run step schedule) id := by
  have hinv : ListedInv (c.run step schedule) := Threads.run_invariant (fun c i h hapart => h.turn i hapart) (listedInv_start hstart) hapart
  have henqueued : ((c.run step schedule).calls i).enqueued = some id := by
    rw [hi]
    rfl
  have hstored : ((c.run step schedule).calls i).stored = some id := by
    rw [hi]
    rfl
  obtain hpruned | hregistry := hinv.listed i id henqueued
  · exact .inr hpruned
  obtain hpruned | hfound := hinv.found i id hstored
  · exact .inr hpruned
  obtain ⟨r, hr⟩ := Option.isSome_iff_exists.mp hfound
  exact .inl ⟨r, mem_filterMap.mpr ⟨id, hregistry, hr⟩, TaskRecords.keyed _ id r hr⟩

lemma keyed_none (id : Str) (r : TaskRecord) (h : none = some r) : r.id = id := by cases h

def emptyQueue : TaskQueue := ⟨⟨fun _ => none, keyed_none⟩, [], false⟩

def enqueueAndPrune : Threads (Fin 2) TaskQueue QueueCall where
  shared := emptyQueue
  calls i := if i = 0 then .enqueue ['t'] 0 .lock else .pruneCompleted 0 0 0 .loadRegistry

theorem enqueued_stays_listed_in_turn :
    (enqueueAndPrune.run step [0, 0, 0, 0, 0, 1, 1, 1, 1, 1]).calls 0 = .enqueue ['t'] 0 .returned ∧
    ((∃ r ∈ (enqueueAndPrune.run step [0, 0, 0, 0, 0, 1, 1, 1, 1, 1]).shared.listTasks, r.id = ['t']) ∨
      Pruned (enqueueAndPrune.run step [0, 0, 0, 0, 0, 1, 1, 1, 1, 1]) ['t']) := by
  have hstart : ∀ i, (enqueueAndPrune.calls i).AtStart := by
    intro i
    fin_cases i <;> rfl
  have hfree : ∀ done ∈ [0, 0, 0, 0, 0, 1, 1, 1, 1, 1].inits, ∀ i j : Fin 2,
      ((enqueueAndPrune.run step done).calls i).isPrune = false →
      ((enqueueAndPrune.run step done).calls i).held.isSome = true →
      ((enqueueAndPrune.run step done).calls j).isPrune = true →
        ((enqueueAndPrune.run step done).calls j).held = none := by
    decide
  have hreturned : (enqueueAndPrune.run step [0, 0, 0, 0, 0, 1, 1, 1, 1, 1]).calls 0 = .enqueue ['t'] 0 .returned := rfl
  refine ⟨hreturned, enqueued_stays_listed hstart ?_ hreturned⟩
  intro done i hdone id hsaves j hprune
  obtain ⟨now, registry, hcall⟩ := hsaves
  refine hfree done ((mem_inits _ _).mpr ((prefix_append done [i]).trans hdone)) i j ?_ ?_ hprune
  · rw [hcall]
    rfl
  · rw [hcall]
    rfl

theorem enqueued_task_lost :
    (enqueueAndPrune.run step [1, 0, 0, 0, 0, 0, 1, 1, 1]).calls 0 = .enqueue ['t'] 0 .returned ∧
    (enqueueAndPrune.run step [1, 0, 0, 0, 0, 0, 1, 1, 1]).calls 1 = .pruneCompleted 0 0 0 (.returned []) ∧
    (enqueueAndPrune.run step [1, 0, 0, 0, 0, 0, 1, 1, 1]).shared.records.find ['t'] = some (newTask ['t'] 0) ∧
    (enqueueAndPrune.run step [1, 0, 0, 0, 0, 0, 1, 1, 1]).shared.listTasks = [] :=
  ⟨rfl, rfl, rfl, rfl⟩

end AeorDb.Tasks
