import AeorDb.Store.Actions

/-! Snapshots and forks: named records of root hashes. -/

namespace AeorDb.Version

open Store EngineM

variable {H : Type} [DecidableEq H] (hs : Hasher H)

section

omit [DecidableEq H]

def snapshotTypeKey : Str := "type".toList
def snapshotTypeAuto : Str := "auto".toList
def snapshotTypeManual : Str := "manual".toList

def serializeSnapshot (info : SnapshotInfo H) : EngineResult (SnapshotInfo H) :=
  if u16Max < utf8Len info.name then .error (tooLong "Snapshot name" (utf8Len info.name)) else .ok info

def serializeFork (info : ForkInfo H) : EngineResult (ForkInfo H) :=
  if u16Max < utf8Len info.name then .error (tooLong "Fork name" (utf8Len info.name)) else .ok info

def snapshotOf : Value H → EngineResult (SnapshotInfo H)
  | .snapshot info => .ok info
  | _ => .error (.corruptEntry 0 "SnapshotInfo data too short for name_length")

def forkOf : Value H → EngineResult (ForkInfo H)
  | .fork info => .ok info
  | _ => .error (.corruptEntry 0 "ForkInfo data too short for name_length")

def missing (what : String) (name : Str) : EngineError := .notFound (what ++ " not found: " ++ String.ofList name)
def taken (what : String) (name : Str) : EngineError := .alreadyExists (what ++ " already exists: " ++ String.ofList name)

def liveEntries (e : Engine H) : List (LogEntry H) :=
  e.log.zipIdx.filterMap fun (r, i) => if e.index r.key = some ⟨i, false⟩ then some r else none

def listSnapshots (e : Engine H) : EngineResult (List (SnapshotInfo H)) := do
  let infos ← ((liveEntries e).filter (·.entryType = .snapshot)).mapM fun r => snapshotOf r.value
  .ok (infos.insertionSort fun a b => a.createdAt ≤ b.createdAt)

def listForks (e : Engine H) : EngineResult (List (ForkInfo H)) :=
  ((liveEntries e).filter (·.entryType = .fork)).mapM fun r => forkOf r.value

def getSnapshotHash (e : Engine H) (name : Str) : EngineResult (Option H) :=
  match e.get (hs.snapshotKey name) with
  | none => .error (missing "Snapshot" name)
  | some v => (snapshotOf v).map SnapshotInfo.rootHash

def getForkHash (e : Engine H) (name : Str) : EngineResult (Option (Option H)) :=
  match e.get (hs.forkKey name) with
  | none => .ok none
  | some v => (forkOf v).map fun info => some info.rootHash

def isTaken (e : Engine H) (k : H) : Bool := e.hasEntry k && !e.isEntryDeleted k

end

def ensureSnapshotWritesEnabled : EngineM H Unit :=
  query fun e => if e.snapshotWritesEnabled then .ok () else .error .snapshotWritesDisabled

def ensureFree (k : H) (err : EngineError) : EngineM H Unit :=
  query fun e => if isTaken e k then .error err else .ok ()

def ensureTaken (k : H) (err : EngineError) : EngineM H Unit :=
  query fun e => if isTaken e k then .ok () else .error err

def createSnapshot (name : Str) (metadata : List (Str × Str)) : EngineM H (SnapshotInfo H) := do
  ensureSnapshotWritesEnabled
  ensureFree (hs.snapshotKey name) (taken "Snapshot" name)
  let rootHash ← query fun e => .ok e.head
  let createdAt ← now
  let existing ← query listSnapshots
  match existing.find? (·.rootHash = rootHash) with
  | some info => pure info
  | none =>
    let metadata := if metadata.any (·.1 = snapshotTypeKey) then metadata else metadata ++ [(snapshotTypeKey, snapshotTypeManual)]
    let info ← attempt (serializeSnapshot ⟨name, rootHash, createdAt, metadata⟩)
    perform (.store .snapshot (hs.snapshotKey name) (.snapshot info))
    pure info

def restoreSnapshot (name : Str) : EngineM H Unit := do
  let rootHash ← query fun e => getSnapshotHash hs e name
  perform (.updateHead rootHash)

def persistDeletion (path : Str) : EngineM H Unit := do
  let deletedAt ← now
  perform (.store .deletionRecord (hs.deletionKey path deletedAt) (.deletion ⟨path, deletedAt, none⟩))

def deleteSnapshot (name : Str) : EngineM H Unit := do
  ensureTaken (hs.snapshotKey name) (missing "Snapshot" name)
  perform (.markDeleted (hs.snapshotKey name))
  persistDeletion hs ("snap:".toList ++ name)

def renameSnapshot (oldName newName : Str) : EngineM H (SnapshotInfo H) := do
  ensureSnapshotWritesEnabled
  let old ← query fun e =>
    match e.get (hs.snapshotKey oldName) with
    | none => .error (missing "Snapshot" oldName)
    | some v => snapshotOf v
  ensureFree (hs.snapshotKey newName) (taken "Snapshot" newName)
  let metadata := old.metadata.filter (·.1 ≠ snapshotTypeKey) ++ [(snapshotTypeKey, snapshotTypeManual)]
  let info ← attempt (serializeSnapshot ⟨newName, old.rootHash, old.createdAt, metadata⟩)
  perform (.store .snapshot (hs.snapshotKey newName) (.snapshot info))
  perform (.markDeleted (hs.snapshotKey oldName))
  pure info

def createFork (name : Str) (base : Option Str) : EngineM H (ForkInfo H) := do
  ensureFree (hs.forkKey name) (taken "Fork" name)
  let rootHash ← query fun e =>
    match base with
    | none => .ok e.head
    | some snapshot => if snapshot = "HEAD".toList then .ok e.head else getSnapshotHash hs e snapshot
  let createdAt ← now
  let info ← attempt (serializeFork ⟨name, rootHash, createdAt⟩)
  perform (.store .fork (hs.forkKey name) (.fork info))
  pure info

def abandonFork (name : Str) : EngineM H Unit := do
  ensureTaken (hs.forkKey name) (missing "Fork" name)
  perform (.markDeleted (hs.forkKey name))
  persistDeletion hs ("::aeordb:fork:".toList ++ name)

def promoteFork (name : Str) : EngineM H Unit := do
  let rootHash ← query fun e => getForkHash hs e name
  match rootHash with
  | none => throw (missing "Fork" name)
  | some rootHash =>
    perform (.updateHead rootHash)
    abandonFork hs name

end AeorDb.Version
