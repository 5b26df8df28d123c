import AeorDb.Tasks.Queue

/-! The status of a task while workers, cancellations and checkpoints write its record. -/

namespace AeorDb.Tasks

open Store Library TaskQueue List Option

namespace QueueCall

def WorksOnQueued : QueueCall → Prop
  | .dequeueNext _ _ => True
  | .updateStatus _ status _ _ _ => status.isTerminal = true
  | .updateCheckpoint _ _ _ => True
  | _ => False

def writes : QueueCall → Option Str
  | .dequeueNext _ (.updateWrite _ record) => some record.id
  | .updateStatus _ _ _ _ (.write record) => some record.id
  | .updateCheckpoint _ _ (.write record) => some record.id
  | _ => none

def relies : QueueCall → List TaskRecord
  | .dequeueNext _ (.read _ tasks) => tasks.filter fun task => task.status = .pending
  | .dequeueNext _ (.updateRead task) => [task]
  | .dequeueNext _ (.updateWrite task record) => [task, record]
  | .updateCheckpoint _ _ (.write record) => [record]
  | _ => []

def dequeued : QueueCall → Option Str
  | .dequeueNext _ (.unlock (.ok (some task))) => some task.id
  | .dequeueNext _ (.returned (.ok (some task))) => some task.id
  | _ => none

def Picked : QueueCall → Prop
  | .dequeueNext _ (.updateRead task) => task.status = .pending
  | .dequeueNext _ (.updateWrite task record) => task.status = .pending ∧ record.id = task.id
  | _ => True

end QueueCall

variable {q q' : TaskQueue} {t t' : QueueCall}

lemma mem_of_oldestPending {tasks : List TaskRecord} {task : TaskRecord} (h : oldestPending tasks = some task) :
    task ∈ tasks ∧ task.status = .pending := by
  refine List.foldlRecOn (motive := fun oldest => ∀ task, oldest = some task → task ∈ tasks ∧ task.status = .pending) tasks _
    ?_ (fun oldest holdest head hhead => ?_) task h
  · intro task hnone
    cases hnone
  split_ifs with hpending
  · have hself : ∀ task, some head = some task → task ∈ tasks ∧ task.status = .pending := by
      intro task htask
      cases htask
      exact ⟨hhead, hpending⟩
    cases oldest with
    | none => exact hself
    | some current =>
      dsimp only
      split_ifs
      · exact hself
      · exact holdest
  · exact holdest

@[simp] lemma id_setStatus (status : TaskStatus) (error : Option Str) (now : ℤ) (record : TaskRecord) :
    (setStatus status error now record).id = record.id := by
  cases status <;> rfl

@[simp] lemma status_setStatus (status : TaskStatus) (error : Option Str) (now : ℤ) (record : TaskRecord) :
    (setStatus status error now record).status = status := rfl

lemma TaskQueue.find_store (q : TaskQueue) (record : TaskRecord) (id : Str) :
    (q.store record).records.find id = if id = record.id then some record else q.records.find id :=
  q.records.find_put record id

structure StatusEffect (q : TaskQueue) (t : QueueCall) (q' : TaskQueue) (t' : QueueCall) : Prop where
  works : t'.WorksOnQueued
  picked : t'.Picked
  current : ∀ r ∈ t'.relies, q'.records.find r.id = some r
  unchanged : ∀ id, t.writes ≠ some id → q'.records.find id = q.records.find id
  terminal : ∀ id r, q.records.find id = some r → r.status.isTerminal = true →
    ∃ r', q'.records.find id = some r' ∧ r'.status.isTerminal = true
  begun : ∀ id r, q.records.find id = some r → r.status ≠ .pending → ∃ r', q'.records.find id = some r' ∧ r'.status ≠ .pending
  dequeued : ∀ id, t'.dequeued = some id → t.dequeued = some id ∨
    (∃ r, q.records.find id = some r ∧ r.status = .pending) ∧ ∃ r', q'.records.find id = some r' ∧ r'.status ≠ .pending

lemma StatusEffect.of_read (hlocked : q'.records = q.records) (hworks : t'.WorksOnQueued) (hpicked : t'.Picked)
    (hcurrent : ∀ r ∈ t'.relies, q.records.find r.id = some r) (hdequeued : ∀ id, t'.dequeued = some id → t.dequeued = some id) :
    StatusEffect q t q' t' where
  works := hworks
  picked := hpicked
  current := by rwa [hlocked]
  unchanged _ _ := by rw [hlocked]
  terminal _ r hr hterminal := ⟨r, hlocked ▸ hr, hterminal⟩
  begun _ r hr hbegun := ⟨r, hlocked ▸ hr, hbegun⟩
  dequeued id hid := .inl (hdequeued id hid)

lemma StatusEffect.of_store {record : TaskRecord} (hwrites : t.writes = some record.id) (hworks : t'.WorksOnQueued) (hpicked : t'.Picked)
    (hcurrent : t'.relies = [])
    (hterminal : ∀ r, q.records.find record.id = some r → r.status.isTerminal = true → record.status.isTerminal = true)
    (hbegun : ∀ r, q.records.find record.id = some r → r.status ≠ .pending → record.status ≠ .pending)
    (hdequeued : ∀ id, t'.dequeued = some id → record.id = id ∧ record.status ≠ .pending ∧ ∃ r, q.records.find id = some r ∧ r.status = .pending) :
    StatusEffect q t (q.store record) t' where
  works := hworks
  picked := hpicked
  current := by
    intro r hr
    rw [hcurrent] at hr
    cases hr
  unchanged id hid := by
    rw [find_store, if_neg]
    rintro rfl
    exact hid hwrites
  terminal id r hr hold := by
    rw [find_store]
    split_ifs with hsame
    · subst hsame
      exact ⟨record, rfl, hterminal r hr hold⟩
    · exact ⟨r, hr, hold⟩
  begun id r hr hold := by
    rw [find_store]
    split_ifs with hsame
    · subst hsame
      exact ⟨record, rfl, hbegun r hr hold⟩
    · exact ⟨r, hr, hold⟩
  dequeued id hid := by
    obtain ⟨rfl, hrunning, hpending⟩ := hdequeued id hid
    refine .inr ⟨hpending, record, ?_, hrunning⟩
    rw [find_store, if_pos rfl]

lemma Stepped.statusEffect (h : Stepped q t q' t') (hworks : t.WorksOnQueued) (hpicked : t.Picked)
    (hcurrent : ∀ r ∈ t.relies, q.records.find r.id = some r) : StatusEffect q t q' t' := by
  cases h with
  | dequeueLock now hfree => exact .of_read rfl trivial trivial (fun r hr => nomatch hr) fun _ h => nomatch h
  | dequeueLoad now => exact .of_read rfl trivial trivial (fun r hr => nomatch hr) fun _ h => nomatch h
  | dequeueRead now id ids tasks =>
    refine .of_read rfl trivial trivial (fun r hr => ?_) fun _ h => nomatch h
    obtain ⟨hmem, hpending⟩ := mem_filter.mp hr
    rcases mem_append.mp hmem with hmem | hmem
    · exact hcurrent r (mem_filter.mpr ⟨hmem, hpending⟩)
    · have hfind : q.records.find id = some r := by simpa using hmem
      rw [q.records.keyed id r hfind]
      exact hfind
  | dequeueNone now tasks hnone => exact .of_read rfl trivial trivial (fun r hr => nomatch hr) fun _ h => nomatch h
  | dequeuePick now tasks task hpick =>
    obtain ⟨hmem, hpending⟩ := mem_of_oldestPending hpick
    refine .of_read rfl trivial hpending (fun r hr => ?_) fun _ h => nomatch h
    obtain rfl := mem_singleton.mp hr
    exact hcurrent r (mem_filter.mpr ⟨hmem, decide_eq_true hpending⟩)
  | dequeueMissing now task hfind => exact .of_read rfl trivial trivial (fun r hr => nomatch hr) fun _ h => nomatch h
  | dequeueFound now task record hfind =>
    have hid := q.records.keyed _ _ hfind
    refine .of_read rfl trivial ⟨hpicked, hid⟩ (fun r hr => ?_) fun _ h => nomatch h
    rcases mem_cons.mp hr with rfl | hr
    · exact hcurrent r (mem_singleton.mpr rfl)
    · obtain rfl := mem_singleton.mp hr
      rw [hid]
      exact hfind
  | dequeueWrite now task record =>
    -- the record is the one that was pending when it was read
    obtain ⟨hpending, hid⟩ := hpicked
    have htask : q.records.find task.id = some task := hcurrent task mem_cons_self
    have hrecord : q.records.find task.id = some record := by
      rw [← hid]
      exact hcurrent record (mem_cons_of_mem _ (mem_singleton.mpr rfl))
    obtain rfl := some.inj (htask.symm.trans hrecord)
    refine .of_store ?_ trivial trivial rfl (fun r hr hterminal => ?_) (fun r hr hbegun => ?_) fun id hdequeued => ?_
    · rfl
    · obtain rfl := some.inj (htask.symm.trans hr)
      rw [hpending] at hterminal
      cases hterminal
    · rw [status_setStatus]
      decide
    · cases hdequeued
      exact ⟨id_setStatus _ _ _ _, by rw [status_setStatus]; decide, task, htask, hpending⟩
  | dequeueUnlock now result =>
    refine .of_read rfl trivial trivial (fun r hr => ?_) fun id h => ?_
    · cases hr
    · rcases result with error | _ | task
      · cases h
      · cases h
      · exact h
  | updateMissing hcall hfind =>
    cases hcall with
    | status id status error now => exact .of_read rfl hworks trivial (fun r hr => nomatch hr) fun _ h => nomatch h
    | checkpoint id checkpoint => exact .of_read rfl trivial trivial (fun r hr => nomatch hr) fun _ h => nomatch h
  | updateFound hcall record hfind =>
    cases hcall with
    | status id status error now => exact .of_read rfl hworks trivial (fun r hr => nomatch hr) fun _ h => nomatch h
    | checkpoint id checkpoint =>
      refine .of_read rfl trivial trivial (fun r hr => ?_) fun _ h => nomatch h
      obtain rfl := mem_singleton.mp hr
      rw [q.records.keyed _ _ hfind]
      exact hfind
  | updateWrite hcall record =>
    cases hcall with
    | status id status error now =>
      refine .of_store ?_ hworks trivial rfl (fun r _ _ => hworks) (fun r _ _ hpending => ?_) fun _ h => nomatch h
      · rw [id_setStatus]
        rfl
      · subst hpending
        cases hworks
    | checkpoint id checkpoint =>
      have hrecord := hcurrent record (mem_singleton.mpr rfl)
      refine .of_store rfl trivial trivial rfl (fun r hr hterminal => ?_) (fun r hr hbegun => ?_) fun _ h => nomatch h
      · obtain rfl := some.inj (hrecord.symm.trans hr)
        exact hterminal
      · obtain rfl := some.inj (hrecord.symm.trans hr)
        exact hbegun
  | _ => exact hworks.elim

variable {ι : Type} [DecidableEq ι] {c : Threads ι TaskQueue QueueCall} {schedule : List ι}

def WritesApart (c : Threads ι TaskQueue QueueCall) (i : ι) : Prop :=
  ∀ id, (c.calls i).writes = some id → ∀ j, j ≠ i → ∀ r ∈ (c.calls j).relies, r.id ≠ id

structure StatusInv (c : Threads ι TaskQueue QueueCall) : Prop where
  works : ∀ i, (c.calls i).WorksOnQueued
  picked : ∀ i, (c.calls i).Picked
  current : ∀ i, ∀ r ∈ (c.calls i).relies, c.shared.records.find r.id = some r
  begun : ∀ i id, (c.calls i).dequeued = some id → ∃ r, c.shared.records.find id = some r ∧ r.status ≠ .pending
  once : ∀ i j id, (c.calls i).dequeued = some id → (c.calls j).dequeued = some id → i = j

omit [DecidableEq ι] in
lemma StatusInv.statusEffect (h : StatusInv c) {i : ι} {q : TaskQueue} {t : QueueCall}
    (hstep : c.shared.step (c.calls i) = some (q, t)) : StatusEffect c.shared (c.calls i) q t :=
  (stepped_of_step hstep).statusEffect (h.works i) (h.picked i) (h.current i)

lemma StatusInv.turn (h : StatusInv c) (i : ι) (hapart : WritesApart c i) : StatusInv (c.turn step i) := by
  obtain heq | ⟨q, t, hstep, hmoved⟩ := Threads.turn_cases step c i
  · rwa [heq]
  generalize c.turn step i = c' at hmoved ⊢
  have heffect := h.statusEffect hstep
  have hkept {j : ι} {id : Str} (hj : (c.calls j).dequeued = some id) : ∃ r, c'.shared.records.find id = some r ∧ r.status ≠ .pending := by
    obtain ⟨r, hr, hbegun⟩ := h.begun j id hj
    rw [hmoved.shared]
    exact heffect.begun id r hr hbegun
  -- a task that is dequeued now was pending, so nobody has dequeued it before
  have hfresh {j : ι} {id : Str} (hj : (c.calls j).dequeued = some id) (hi : t.dequeued = some id) : (c.calls i).dequeued = some id := by
    obtain hold | ⟨⟨r, hr, hpending⟩, -⟩ := heffect.dequeued id hi
    · exact hold
    · obtain ⟨r', hr', hbegun⟩ := h.begun j id hj
      obtain rfl := some.inj (hr.symm.trans hr')
      exact absurd hpending hbegun
  refine ⟨hmoved.forall heffect.works fun j _ => h.works j, hmoved.forall heffect.picked fun j _ => h.picked j, ?_, ?_, ?_⟩
  · intro j r hr
    rw [hmoved.shared]
    obtain ⟨-, hcall⟩ | ⟨hji, hcall⟩ := hmoved.call_cases j
    · rw [hcall] at hr
      exact heffect.current r hr
    · rw [hcall] at hr
      rw [heffect.unchanged r.id fun hwrites => hapart r.id hwrites j hji r hr rfl]
      exact h.current j r hr
  · intro j id hj
    obtain ⟨rfl, hcall⟩ | ⟨-, hcall⟩ := hmoved.call_cases j
    · rw [hcall] at hj
      obtain hold | ⟨-, hnew⟩ := heffect.dequeued id hj
      · exact hkept hold
      · rwa [hmoved.shared]
    · rw [hcall] at hj
      exact hkept hj
  · intro j k id hj hk
    obtain ⟨rfl, hjcall⟩ | ⟨-, hjcall⟩ := hmoved.call_cases j
    · obtain ⟨rfl, -⟩ | ⟨-, hkcall⟩ := hmoved.call_cases k
      · rfl
      · rw [hjcall] at hj
        rw [hkcall] at hk
        exact h.once j k id (hfresh hk hj) hk
    · rw [hjcall] at hj
      obtain ⟨rfl, hkcall⟩ | ⟨-, hkcall⟩ := hmoved.call_cases k
      · rw [hkcall] at hk
        exact h.once j k id hj (hfresh hj hk)
      · rw [hkcall] at hk
        exact h.once j k id hj hk

omit [DecidableEq ι] in
lemma statusInv_start (hstart : ∀ i, (c.calls i).AtStart) (hworks : ∀ i, (c.calls i).WorksOnQueued) : StatusInv c := by
  have hidle (i : ι) : (c.calls i).Picked ∧ (c.calls i).relies = [] ∧ (c.calls i).dequeued = none := by
    have hi := hstart i
    generalize c.calls i = t at hi
    cases t with
    | enqueue id now stage => exact ⟨trivial, rfl, rfl⟩
    | dequeueNext now stage =>
      obtain rfl : stage = .lock := hi
      exact ⟨trivial, rfl, rfl⟩
    | updateStatus id status error now stage => exact ⟨trivial, rfl, rfl⟩
    | updateCheckpoint id checkpoint stage =>
      obtain rfl : stage = .read := hi
      exact ⟨trivial, rfl, rfl⟩
    | pruneCompleted now maxAge maxCount stage => exact ⟨trivial, rfl, rfl⟩
  refine ⟨hworks, fun i => (hidle i).1, fun i r hr => ?_, fun i id hi => ?_, fun i j id hi _ => ?_⟩
  · rw [(hidle i).2.1] at hr
    cases hr
  · cases (hidle i).2.2.symm.trans hi
  · cases (hidle i).2.2.symm.trans hi

lemma statusInv_run (hstart : ∀ i, (c.calls i).AtStart) (hworks : ∀ i, (c.calls i).WorksOnQueued)
    (hapart : ∀ done i, done ++ [i] <+: schedule → WritesApart (c.run step done) i) : StatusInv (c.run step schedule) :=
  Threads.run_invariant (fun _ i h hapart => h.turn i hapart) (statusInv_start hstart hworks) hapart

def Finished (c : Threads ι TaskQueue QueueCall) (id : Str) : Prop :=
  ∃ r, c.shared.records.find id = some r ∧ r.status.isTerminal = true

lemma Finished.turn {id : Str} (hid : Finished c id) (h : StatusInv c) (i : ι) : Finished (c.turn step i) id := by
  obtain heq | ⟨q, t, hstep, hmoved⟩ := Threads.turn_cases step c i
  · rwa [heq]
  obtain ⟨r, hr, hterminal⟩ := hid
  rw [Finished, hmoved.shared]
  exact (h.statusEffect hstep).terminal id r hr hterminal

lemma Finished.run {id : Str} (hid : Finished c id) (h : StatusInv c)
    (hapart : ∀ done i, done ++ [i] <+: schedule → WritesApart (c.run step done) i) : Finished (c.run step schedule) id :=
  (Threads.run_invariant (P := fun c => Finished c id ∧ StatusInv c) (fun _ i h hapart => ⟨h.1.turn h.2 i, h.2.turn i hapart⟩) ⟨hid, h⟩
    hapart).1

/-- While no record is written that another call counts on, a finished task stays finished and no task is dequeued twice. -/
theorem finished_stays_finished (hstart : ∀ i, (c.calls i).AtStart) (hworks : ∀ i, (c.calls i).WorksOnQueued)
    (hapart : ∀ done i, done ++ [i] <+: schedule → WritesApart (c.run step done) i) :
    (∀ before, before <+: schedule → ∀ id, Finished (c.run step before) id → Finished (c.run step schedule) id) ∧
    ∀ i j now now' task task', (c.run step schedule).calls i = .dequeueNext now (.returned (.ok (some task))) →
      (c.run step schedule).calls j = .dequeueNext now' (.returned (.ok (some task'))) → task.id = task'.id → i = j := by
  constructor
  · rintro before ⟨after, rfl⟩ id hid
    have hbefore : StatusInv (c.run step before) :=
      statusInv_run hstart hworks fun done i hdone => hapart done i (hdone.trans (prefix_append _ _))
    rw [Threads.run_append]
    apply hid.run hbefore
    intro done i hdone
    rw [← Threads.run_append]
    apply hapart
    rw [append_assoc]
    exact (prefix_append_right_inj before).mpr hdone
  · intro i j now now' task task' hi hj hid
    apply (statusInv_run hstart hworks hapart).once i j task.id
    · rw [hi]
      rfl
    · rw [hj, hid]
      rfl

def pendingTask : TaskRecord := newTask ['t'] 0

def workersOnOneTask : Threads (Fin 4) TaskQueue QueueCall where
  shared := ⟨(TaskRecords.mk (fun _ => none) fun _ _ h => nomatch h).put pendingTask, [['t']], false⟩
  calls i :=
    if i = 0 then .dequeueNext 1 .lock
    else if i = 1 then .dequeueNext 2 .lock
    else if i = 2 then .cancel ['t'] 3
    else .updateCheckpoint ['t'] ['c'] .read

def inTurn : List (Fin 4) := [3, 3, 0, 0, 0, 0, 0, 0, 0, 2, 2, 1, 1, 1, 1, 1]

instance (c : Threads (Fin 4) TaskQueue QueueCall) (i : Fin 4) : Decidable (WritesApart c i) :=
  decidable_of_iff (∀ id ∈ (c.calls i).writes, ∀ j, j ≠ i → ∀ r ∈ (c.calls j).relies, r.id ≠ id) (by
    simp only [WritesApart, Option.mem_def])

theorem finished_stays_finished_in_turn :
    Finished (workersOnOneTask.run step inTurn) ['t'] ∧
    ((∀ before, before <+: inTurn → ∀ id, Finished (workersOnOneTask.run step before) id →
        Finished (workersOnOneTask.run step inTurn) id) ∧
      ∀ i j now now' task task', (workersOnOneTask.run step inTurn).calls i = .dequeueNext now (.returned (.ok (some task))) →
        (workersOnOneTask.run step inTurn).calls j = .dequeueNext now' (.returned (.ok (some task'))) → task.id = task'.id →
          i = j) := by
  have hapart : ∀ done ∈ inTurn.inits, ∀ i, WritesApart (workersOnOneTask.run step done) i := by
    decide
  refine ⟨⟨_, rfl, rfl⟩, finished_stays_finished ?_ ?_ fun done i hdone => ?_⟩
  · intro i
    fin_cases i <;> rfl
  · intro i
    fin_cases i <;> trivial
  · exact hapart done ((mem_inits _ _).mpr ((prefix_append done [i]).trans hdone)) i

/-- A worker that has read the record before the cancellation marks it as running afterwards; and a checkpoint that has read it before the
first worker makes it pending again for the second one. -/
theorem finished_task_runs_again :
    ((workersOnOneTask.run step [0, 0, 0, 0, 0, 2, 2]).shared.records.find ['t']).map TaskRecord.status = some .cancelled ∧
    ((workersOnOneTask.run step [0, 0, 0, 0, 0, 2, 2, 0]).shared.records.find ['t']).map TaskRecord.status = some .running ∧
    (workersOnOneTask.run step [3, 0, 0, 0, 0, 0, 0, 0, 3, 1, 1, 1, 1, 1, 1, 1]).calls 0 =
      .dequeueNext 1 (.returned (.ok (some pendingTask))) ∧
    (workersOnOneTask.run step [3, 0, 0, 0, 0, 0, 0, 0, 3, 1, 1, 1, 1, 1, 1, 1]).calls 1 =
      .dequeueNext 2 (.returned (.ok (some (setCheckpoint ['c'] pendingTask)))) :=
  ⟨rfl, rfl, rfl, rfl⟩

end AeorDb.Tasks
