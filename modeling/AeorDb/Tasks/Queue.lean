import AeorDb.Library.Threads
import AeorDb.Store.Records

/-! The queue of background tasks: records, the registry of their ids, and calls that run at the same time. -/

namespace AeorDb.Tasks

open Store Library

inductive TaskStatus where
  | pending | running | completed | failed | cancelled
  deriving DecidableEq

def TaskStatus.isTerminal : TaskStatus → Bool
  | .completed | .failed | .cancelled => true
  | .pending | .running => false

structure TaskRecord where
  id : Str
  status : TaskStatus
  createdAt : ℤ
  startedAt : Option ℤ
  completedAt : Option ℤ
  error : Option Str
  checkpoint : Option Str
  deriving DecidableEq

structure TaskRecords where
  find : Str → Option TaskRecord
  keyed : ∀ id r, find id = some r → r.id = id

namespace TaskRecords

def put (records : TaskRecords) (record : TaskRecord) : TaskRecords where
  find := Function.update records.find record.id (some record)
  keyed id r hr := by
    by_cases hid : id = record.id
    · subst hid
      rw [Function.update_self] at hr
      rw [Option.some.inj hr]
    · rw [Function.update_of_ne hid] at hr
      exact records.keyed id r hr

def markDeleted (records : TaskRecords) (id : Str) : TaskRecords where
  find := Function.update records.find id none
  keyed id' r hr := by
    by_cases hid : id' = id
    · subst hid
      rw [Function.update_self] at hr
      cases hr
    · rw [Function.update_of_ne hid] at hr
      exact records.keyed id' r hr

lemma find_put (records : TaskRecords) (record : TaskRecord) (id : Str) :
    (records.put record).find id = if id = record.id then some record else records.find id :=
  Function.update_apply _ _ _ _

lemma find_markDeleted (records : TaskRecords) (id id' : Str) :
    (records.markDeleted id).find id' = if id' = id then none else records.find id' :=
  Function.update_apply _ _ _ _

end TaskRecords

structure TaskQueue where
  records : TaskRecords
  registry : List Str
  locked : Bool

inductive QueueError where
  | notFound (id : Str)

def newTask (id : Str) (now : ℤ) : TaskRecord := ⟨id, .pending, now, none, none, none, none⟩

def setStatus (status : TaskStatus) (error : Option Str) (now : ℤ) (record : TaskRecord) : TaskRecord :=
  let stamped :=
    match status with
    | .running => { record with startedAt := some now }
    | .completed | .failed | .cancelled => { record with completedAt := some now }
    | .pending => record
  { stamped with status, error }

def setCheckpoint (checkpoint : Str) (record : TaskRecord) : TaskRecord := { record with checkpoint := some checkpoint }

def oldestPending (tasks : List TaskRecord) : Option TaskRecord :=
  tasks.foldl (fun oldest task =>
    if task.status = .pending then
      match oldest with
      | none => some task
      | some current => if task.createdAt < current.createdAt then some task else oldest
    else oldest) none

def finishTime (task : TaskRecord) : ℤ := task.completedAt.getD task.createdAt

def prunable (now maxAge : ℤ) (maxCount : ℕ) (tasks : List TaskRecord) : List TaskRecord :=
  let terminal := (tasks.filter fun task => task.status.isTerminal).insertionSort fun a b => finishTime b ≤ finishTime a
  let aged := terminal.filter fun task => maxAge < now - finishTime task
  let remaining := terminal.filter fun task => task.id ∉ aged.map TaskRecord.id
  aged ++ remaining.drop maxCount

inductive EnqueueStage where
  | lock
  | store
  | loadRegistry
  | saveRegistry (registry : List Str)
  | unlock
  | returned

inductive DequeueStage where
  | lock
  | loadRegistry
  | read (ids : List Str) (tasks : List TaskRecord)
  | updateRead (task : TaskRecord)
  | updateWrite (task record : TaskRecord)
  | unlock (result : Except QueueError (Option TaskRecord))
  | returned (result : Except QueueError (Option TaskRecord))

inductive UpdateStage where
  | read
  | write (record : TaskRecord)
  | returned (result : Except QueueError Unit)

inductive PruneStage where
  | loadRegistry
  | read (registry ids : List Str) (tasks : List TaskRecord)
  | remove (registry : List Str) (removed : List TaskRecord) (ids : List Str)
  | saveRegistry (registry : List Str) (removed : List TaskRecord)
  | returned (removed : List TaskRecord)

inductive QueueCall where
  | enqueue (id : Str) (now : ℤ) (stage : EnqueueStage)
  | dequeueNext (now : ℤ) (stage : DequeueStage)
  | updateStatus (id : Str) (status : TaskStatus) (error : Option Str) (now : ℤ) (stage : UpdateStage)
  | updateCheckpoint (id checkpoint : Str) (stage : UpdateStage)
  | pruneCompleted (now maxAge : ℤ) (maxCount : ℕ) (stage : PruneStage)

namespace TaskQueue

variable (q : TaskQueue)

def store (record : TaskRecord) : TaskQueue := { q with records := q.records.put record }

def listTasks : List TaskRecord := q.registry.filterMap q.records.find

def enqueueStep (id : Str) (now : ℤ) : EnqueueStage → Option (TaskQueue × EnqueueStage)
  | .lock => if q.locked then none else some ({ q with locked := true }, .store)
  | .store => some (q.store (newTask id now), .loadRegistry)
  | .loadRegistry => some (q, .saveRegistry q.registry)
  | .saveRegistry registry => some ({ q with registry := registry ++ [id] }, .unlock)
  | .unlock => some ({ q with locked := false }, .returned)
  | .returned => none

def dequeueStep (now : ℤ) : DequeueStage → Option (TaskQueue × DequeueStage)
  | .lock => if q.locked then none else some ({ q with locked := true }, .loadRegistry)
  | .loadRegistry => some (q, .read q.registry [])
  | .read (id :: ids) tasks => some (q, .read ids (tasks ++ (q.records.find id).toList))
  | .read [] tasks =>
    some (q, match oldestPending tasks with
      | none => .unlock (.ok none)
      | some task => .updateRead task)
  | .updateRead task =>
    some (q, match q.records.find task.id with
      | none => .unlock (.error (.notFound task.id))
      | some record => .updateWrite task record)
  | .updateWrite task record => some (q.store (setStatus .running none now record), .unlock (.ok (some task)))
  | .unlock result => some ({ q with locked := false }, .returned result)
  | .returned _ => none

def updateStep (id : Str) (change : TaskRecord → TaskRecord) : UpdateStage → Option (TaskQueue × UpdateStage)
  | .read =>
    some (q, match q.records.find id with
      | none => .returned (.error (.notFound id))
      | some record => .write record)
  | .write record => some (q.store (change record), .returned (.ok ()))
  | .returned _ => none

def updateStatusStep (id : Str) (status : TaskStatus) (error : Option Str) (now : ℤ) : UpdateStage → Option (TaskQueue × UpdateStage) :=
  q.updateStep id (setStatus status error now)

def updateCheckpointStep (id checkpoint : Str) : UpdateStage → Option (TaskQueue × UpdateStage) := q.updateStep id (setCheckpoint checkpoint)

def pruneStep (now maxAge : ℤ) (maxCount : ℕ) : PruneStage → Option (TaskQueue × PruneStage)
  | .loadRegistry => some (q, .read q.registry q.registry [])
  | .read registry (id :: ids) tasks => some (q, .read registry ids (tasks ++ (q.records.find id).toList))
  | .read registry [] tasks =>
    let removed := prunable now maxAge maxCount tasks
    some (q, .remove registry removed (removed.map TaskRecord.id))
  | .remove registry removed (id :: ids) => some ({ q with records := q.records.markDeleted id }, .remove registry removed ids)
  | .remove registry removed [] => some (q, .saveRegistry registry removed)
  | .saveRegistry registry removed =>
    some ({ q with registry := registry.filter fun id => id ∉ removed.map TaskRecord.id }, .returned removed)
  | .returned _ => none

def step : QueueCall → Option (TaskQueue × QueueCall)
  | .enqueue id now stage => (q.enqueueStep id now stage).map fun next => (next.1, .enqueue id now next.2)
  | .dequeueNext now stage => (q.dequeueStep now stage).map fun next => (next.1, .dequeueNext now next.2)
  | .updateStatus id status error now stage =>
    (q.updateStatusStep id status error now stage).map fun next => (next.1, .updateStatus id status error now next.2)
  | .updateCheckpoint id checkpoint stage =>
    (q.updateCheckpointStep id checkpoint stage).map fun next => (next.1, .updateCheckpoint id checkpoint next.2)
  | .pruneCompleted now maxAge maxCount stage =>
    (q.pruneStep now maxAge maxCount stage).map fun next => (next.1, .pruneCompleted now maxAge maxCount next.2)

end TaskQueue

namespace QueueCall

def cancel (id : Str) (now : ℤ) : QueueCall := .updateStatus id .cancelled none now .read

def AtStart : QueueCall → Prop
  | .enqueue _ _ stage => stage = .lock
  | .dequeueNext _ stage => stage = .lock
  | .updateStatus _ _ _ _ stage => stage = .read
  | .updateCheckpoint _ _ stage => stage = .read
  | .pruneCompleted _ _ _ stage => stage = .loadRegistry

end QueueCall

inductive Updates : (UpdateStage → QueueCall) → Str → (TaskRecord → TaskRecord) → Prop where
  | status (id : Str) (status : TaskStatus) (error : Option Str) (now : ℤ) :
      Updates (.updateStatus id status error now) id (setStatus status error now)
  | checkpoint (id checkpoint : Str) : Updates (.updateCheckpoint id checkpoint) id (setCheckpoint checkpoint)

inductive Stepped (q : TaskQueue) : QueueCall → TaskQueue → QueueCall → Prop where
  | enqueueLock (id : Str) (now : ℤ) (hfree : q.locked = false) :
      Stepped q (.enqueue id now .lock) { q with locked := true } (.enqueue id now .store)
  | enqueueStore (id : Str) (now : ℤ) : Stepped q (.enqueue id now .store) (q.store (newTask id now)) (.enqueue id now .loadRegistry)
  | enqueueLoad (id : Str) (now : ℤ) : Stepped q (.enqueue id now .loadRegistry) q (.enqueue id now (.saveRegistry q.registry))
  | enqueueSave (id : Str) (now : ℤ) (registry : List Str) :
      Stepped q (.enqueue id now (.saveRegistry registry)) { q with registry := registry ++ [id] } (.enqueue id now .unlock)
  | enqueueUnlock (id : Str) (now : ℤ) : Stepped q (.enqueue id now .unlock) { q with locked := false } (.enqueue id now .returned)
  | dequeueLock (now : ℤ) (hfree : q.locked = false) :
      Stepped q (.dequeueNext now .lock) { q with locked := true } (.dequeueNext now .loadRegistry)
  | dequeueLoad (now : ℤ) : Stepped q (.dequeueNext now .loadRegistry) q (.dequeueNext now (.read q.registry []))
  | dequeueRead (now : ℤ) (id : Str) (ids : List Str) (tasks : List TaskRecord) :
      Stepped q (.dequeueNext now (.read (id :: ids) tasks)) q (.dequeueNext now (.read ids (tasks ++ (q.records.find id).toList)))
  | dequeueNone (now : ℤ) (tasks : List TaskRecord) (hnone : oldestPending tasks = none) :
      Stepped q (.dequeueNext now (.read [] tasks)) q (.dequeueNext now (.unlock (.ok none)))
  | dequeuePick (now : ℤ) (tasks : List TaskRecord) (task : TaskRecord) (hpick : oldestPending tasks = some task) :
      Stepped q (.dequeueNext now (.read [] tasks)) q (.dequeueNext now (.updateRead task))
  | dequeueMissing (now : ℤ) (task : TaskRecord) (hfind : q.records.find task.id = none) :
      Stepped q (.dequeueNext now (.updateRead task)) q (.dequeueNext now (.unlock (.error (.notFound task.id))))
  | dequeueFound (now : ℤ) (task record : TaskRecord) (hfind : q.records.find task.id = some record) :
      Stepped q (.dequeueNext now (.updateRead task)) q (.dequeueNext now (.updateWrite task record))
  | dequeueWrite (now : ℤ) (task record : TaskRecord) :
      Stepped q (.dequeueNext now (.updateWrite task record)) (q.store (setStatus .running none now record))
        (.dequeueNext now (.unlock (.ok (some task))))
  | dequeueUnlock (now : ℤ) (result : Except QueueError (Option TaskRecord)) :
      Stepped q (.dequeueNext now (.unlock result)) { q with locked := false } (.dequeueNext now (.returned result))
  | updateMissing {call : UpdateStage → QueueCall} {id : Str} {change : TaskRecord → TaskRecord} (hcall : Updates call id change)
      (hfind : q.records.find id = none) : Stepped q (call .read) q (call (.returned (.error (.notFound id))))
  | updateFound {call : UpdateStage → QueueCall} {id : Str} {change : TaskRecord → TaskRecord} (hcall : Updates call id change)
      (record : TaskRecord) (hfind : q.records.find id = some record) : Stepped q (call .read) q (call (.write record))
  | updateWrite {call : UpdateStage → QueueCall} {id : Str} {change : TaskRecord → TaskRecord} (hcall : Updates call id change)
      (record : TaskRecord) : Stepped q (call (.write record)) (q.store (change record)) (call (.returned (.ok ())))
  | pruneLoad (now maxAge : ℤ) (maxCount : ℕ) :
      Stepped q (.pruneCompleted now maxAge maxCount .loadRegistry) q (.pruneCompleted now maxAge maxCount (.read q.registry q.registry []))
  | pruneRead (now maxAge : ℤ) (maxCount : ℕ) (registry : List Str) (id : Str) (ids : List Str) (tasks : List TaskRecord) :
      Stepped q (.pruneCompleted now maxAge maxCount (.read registry (id :: ids) tasks)) q
        (.pruneCompleted now maxAge maxCount (.read registry ids (tasks ++ (q.records.find id).toList)))
  | pruneChoose (now maxAge : ℤ) (maxCount : ℕ) (registry : List Str) (tasks : List TaskRecord) :
      Stepped q (.pruneCompleted now maxAge maxCount (.read registry [] tasks)) q
        (.pruneCompleted now maxAge maxCount (.remove registry (prunable now maxAge maxCount tasks)
          ((prunable now maxAge maxCount tasks).map TaskRecord.id)))
  | pruneDelete (now maxAge : ℤ) (maxCount : ℕ) (registry : List Str) (removed : List TaskRecord) (id : Str) (ids : List Str) :
      Stepped q (.pruneCompleted now maxAge maxCount (.remove registry removed (id :: ids))) { q with records := q.records.markDeleted id }
        (.pruneCompleted now maxAge maxCount (.remove registry removed ids))
  | pruneDeleted (now maxAge : ℤ) (maxCount : ℕ) (registry : List Str) (removed : List TaskRecord) :
      Stepped q (.pruneCompleted now maxAge maxCount (.remove registry removed [])) q
        (.pruneCompleted now maxAge maxCount (.saveRegistry registry removed))
  | pruneSave (now maxAge : ℤ) (maxCount : ℕ) (registry : List Str) (removed : List TaskRecord) :
      Stepped q (.pruneCompleted now maxAge maxCount (.saveRegistry registry removed))
        { q with registry := registry.filter fun id => id ∉ removed.map TaskRecord.id } (.pruneCompleted now maxAge maxCount (.returned removed))

variable {q q' : TaskQueue} {t t' : QueueCall} {id : Str} {now : ℤ}

lemma stepped_enqueue {stage stage' : EnqueueStage} (h : q.enqueueStep id now stage = some (q', stage')) :
    Stepped q (.enqueue id now stage) q' (.enqueue id now stage') := by
  cases stage with
  | lock =>
    rw [TaskQueue.enqueueStep] at h
    split_ifs at h with hlocked
    cases h
    exact .enqueueLock id now (by simpa using hlocked)
  | store =>
    cases h
    exact .enqueueStore id now
  | loadRegistry =>
    cases h
    exact .enqueueLoad id now
  | saveRegistry registry =>
    cases h
    exact .enqueueSave id now registry
  | unlock =>
    cases h
    exact .enqueueUnlock id now
  | returned => cases h

lemma stepped_dequeue {stage stage' : DequeueStage} (h : q.dequeueStep now stage = some (q', stage')) :
    Stepped q (.dequeueNext now stage) q' (.dequeueNext now stage') := by
  cases stage with
  | lock =>
    rw [TaskQueue.dequeueStep] at h
    split_ifs at h with hlocked
    cases h
    exact .dequeueLock now (by simpa using hlocked)
  | loadRegistry =>
    cases h
    exact .dequeueLoad now
  | read ids tasks =>
    cases ids with
    | nil =>
      cases h
      cases hpick : oldestPending tasks with
      | none => exact .dequeueNone now tasks hpick
      | some task => exact .dequeuePick now tasks task hpick
    | cons id ids =>
      cases h
      exact .dequeueRead now id ids tasks
  | updateRead task =>
    cases h
    cases hfind : q.records.find task.id with
    | none => exact .dequeueMissing now task hfind
    | some record => exact .dequeueFound now task record hfind
  | updateWrite task record =>
    cases h
    exact .dequeueWrite now task record
  | unlock result =>
    cases h
    exact .dequeueUnlock now result
  | returned result => cases h

lemma stepped_update {call : UpdateStage → QueueCall} {change : TaskRecord → TaskRecord} (hcall : Updates call id change)
    {stage stage' : UpdateStage} (h : q.updateStep id change stage = some (q', stage')) : Stepped q (call stage) q' (call stage') := by
  cases stage with
  | read =>
    cases h
    cases hfind : q.records.find id with
    | none => exact .updateMissing hcall hfind
    | some record => exact .updateFound hcall record hfind
  | write record =>
    cases h
    exact .updateWrite hcall record
  | returned result => cases h

lemma stepped_prune {now maxAge : ℤ} {maxCount : ℕ} {stage stage' : PruneStage} (h : q.pruneStep now maxAge maxCount stage = some (q', stage')) :
    Stepped q (.pruneCompleted now maxAge maxCount stage) q' (.pruneCompleted now maxAge maxCount stage') := by
  cases stage with
  | loadRegistry =>
    cases h
    exact .pruneLoad now maxAge maxCount
  | read registry ids tasks =>
    cases ids with
    | nil =>
      cases h
      exact .pruneChoose now maxAge maxCount registry tasks
    | cons id ids =>
      cases h
      exact .pruneRead now maxAge maxCount registry id ids tasks
  | remove registry removed ids =>
    cases ids with
    | nil =>
      cases h
      exact .pruneDeleted now maxAge maxCount registry removed
    | cons id ids =>
      cases h
      exact .pruneDelete now maxAge maxCount registry removed id ids
  | saveRegistry registry removed =>
    cases h
    exact .pruneSave now maxAge maxCount registry removed
  | returned removed => cases h

lemma stepped_of_step (h : q.step t = some (q', t')) : Stepped q t q' t' := by
  cases t with
  | enqueue id now stage =>
    obtain ⟨⟨_, stage'⟩, hstep, hnext⟩ := Option.map_eq_some_iff.mp h
    cases hnext
    exact stepped_enqueue hstep
  | dequeueNext now stage =>
    obtain ⟨⟨_, stage'⟩, hstep, hnext⟩ := Option.map_eq_some_iff.mp h
    cases hnext
    exact stepped_dequeue hstep
  | updateStatus id status error now stage =>
    obtain ⟨⟨_, stage'⟩, hstep, hnext⟩ := Option.map_eq_some_iff.mp h
    cases hnext
    exact stepped_update (.status id status error now) hstep
  | updateCheckpoint id checkpoint stage =>
    obtain ⟨⟨_, stage'⟩, hstep, hnext⟩ := Option.map_eq_some_iff.mp h
    cases hnext
    exact stepped_update (.checkpoint id checkpoint) hstep
  | pruneCompleted now maxAge maxCount stage =>
    obtain ⟨⟨_, stage'⟩, hstep, hnext⟩ := Option.map_eq_some_iff.mp h
    cases hnext
    exact stepped_prune hstep

end AeorDb.Tasks
