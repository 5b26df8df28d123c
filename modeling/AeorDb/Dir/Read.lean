import AeorDb.BTree.Update
import AeorDb.Store.Paths

/-! Reading directories: through their path keys, and from HEAD down. -/

namespace AeorDb.Dir

open Store BTree EngineM

variable {H : Type}

def childrenOf (e : Engine H) : Value H → EngineResult (List (ChildEntry H))
  | .dir (.flat es) => .ok es
  | .dir (.node n) => btreeListFromNode e n false
  | _ => .error (.corruptEntry 0 "Unexpected directory data")

def walk (e : Engine H) : H → List Str → EngineResult (Option H)
  | h, [] => .ok (some h)
  | h, segment :: segments =>
    match e.get h with
    | none => .ok none
    | some (.dir (.flat [])) => .ok none
    | some v => do
      let children ← childrenOf e v
      match children.find? (·.name = segment) with
      | none => .ok none
      | some c => if c.entryType = .directoryIndex then walk e c.hash segments else .ok none

def walkPath (e : Engine H) : List Str → H → List Str → EngineResult (List (Str × H))
  | seen, h, [] => .ok [(pathOf seen, h)]
  | seen, h, segment :: segments =>
    match e.get h with
    | none => .ok [(pathOf seen, h)]
    | some (.dir (.flat [])) => .ok [(pathOf seen, h)]
    | some v => do
      let children ← childrenOf e v
      match children.find? (·.name = segment) with
      | none => .ok [(pathOf seen, h)]
      | some c =>
        if c.entryType = .directoryIndex then do
          let rest ← walkPath e (seen ++ [segment]) c.hash segments
          .ok ((pathOf seen, h) :: rest)
        else .ok [(pathOf seen, h)]

variable [DecidableEq H] (hs : Hasher H)

def recoverDirectoryDataIfStale (e : Engine H) (path : Str) (dirKey : H) : EngineResult (Option (Value H)) :=
  match e.get dirKey, e.head with
  | some (.link target), some head => do
    match ← walk e head (splitSegments (normalizePath path)) with
    | none => .ok none
    | some canonical => if target = canonical then .ok none else .ok (e.get canonical)
  | _, _ => .ok none

def readDirectoryData (e : Engine H) (dirKey : H) : Option (Value H) :=
  match e.get dirKey with
  | some (.link target) => e.get target
  | v => v

def existingData (e : Engine H) (path : Str) : EngineResult (Option (Value H)) := do
  match ← recoverDirectoryDataIfStale e path (hs.directoryPathHash path) with
  | some v => .ok (some v)
  | none => .ok (readDirectoryData e (hs.directoryPathHash path))

def healStaleDirKey (path : Str) (canonical : H) : EngineM H Unit := do
  match ← query fun e => .ok (e.get (hs.directoryPathHash path)) with
  | some (.link target) =>
    if target = canonical then pure ()
    else perform (.store .directoryIndex (hs.directoryPathHash path) (.link canonical))
  | _ => pure ()

def healStaleDirKeysAlongPath (path : Str) : EngineM H Unit := do
  match ← query fun e => .ok e.head with
  | none => pure ()
  | some head =>
    let walked ← query fun e => walkPath e [] head (splitSegments (normalizePath path))
    walked.forM fun w => healStaleDirKey hs w.1 w.2

def isLiveChild (e : Engine H) (parent : Str) (c : ChildEntry H) : Bool :=
  match c.entryType with
  | .fileRecord => e.hasEntry (hs.filePathHash (childPath parent c.name))
  | .directoryIndex => e.hasEntry (hs.directoryPathHash (childPath parent c.name))
  | .symlink => e.hasEntry (hs.symlinkPathHash (childPath parent c.name))
  | _ => true

def listData (e : Engine H) (path : Str) (v : Value H) : List (ChildEntry H) :=
  match childrenOf e v with
  | .ok children => children.filter (isLiveChild hs e path)
  | .error _ => []

def listDirectory (path : Str) : EngineM H (List (ChildEntry H)) := do
  let normalized := normalizePath path
  let dirKey := hs.directoryPathHash normalized
  let data ← (do
    match ← query fun e => recoverDirectoryDataIfStale e normalized dirKey with
    | some v =>
      ignore (healStaleDirKeysAlongPath hs normalized)
      pure (some v)
    | none => query fun e => .ok (readDirectoryData e dirKey))
  match data with
  | some v => query fun e => .ok (listData hs e normalized v)
  | none => throw (.notFound (String.ofList normalized))

def listing (e : Engine H) (path : Str) : EngineResult (List (ChildEntry H)) :=
  match listDirectory hs path e with
  | .ok children _ => .ok children
  | .error err _ => .error err

end AeorDb.Dir
