import AeorDb.Sync.Conflicts
import AeorDb.Version.Walk

/-! One sync cycle of a node against another one in the same process. -/

namespace AeorDb.Sync

open Store Dir Merge Version EngineM

section

variable {H R : Type}

def filterKind (keep : Str → Bool) (d : KindDiff H R) : KindDiff H R where
  added := d.added.filter fun x => keep x.1
  modified := d.modified.filter fun x => keep x.1
  deleted := d.deleted.filter keep

def filterTreeDiffByPaths (keep : Str → Bool) (d : TreeDiff H) : TreeDiff H where
  files := filterKind keep d.files
  symlinks := filterKind keep d.symlinks

def selected (syncPaths : Option (Str → Bool)) (d : TreeDiff H) : TreeDiff H :=
  match syncPaths with
  | none => d
  | some keep => filterTreeDiffByPaths keep d

def isEmptyKind (d : KindDiff H R) : Bool := d.added.entries.isEmpty && d.modified.entries.isEmpty && d.deleted.isEmpty

def isEmptyDiff (d : TreeDiff H) : Bool := isEmptyKind d.files && isEmptyKind d.symlinks

end

section

variable {H : Type} [DecidableEq H] (hs : Hasher H) (env : Env)

def transferEntry (remote : Engine H) (h : H) : EngineM H Unit := do
  if ← query fun e => .ok (e.hasEntry h) then pure ()
  else
    match remote.getEntry h with
    | none => pure ()
    | some r => perform (.store r.entryType h r.value)

def transferMissingChunks (remoteTree : WalkedTree H) (remote : Engine H) : EngineM H Unit := do
  remoteTree.chunks.forM (transferEntry remote)
  remoteTree.files.entries.forM fun x => transferEntry remote x.2.1

def missingChunk (path : Str) : EngineError := .notFound ("Missing chunk during merge for " ++ String.ofList path)

def verifyChunksExist (e : Engine H) : List (MergeOp H) → EngineResult Unit
  | [] => .ok ()
  | .addFile path _ record :: ops =>
    if record.chunkHashes.all e.hasEntry then verifyChunksExist e ops else .error (missingChunk path)
  | _ :: ops => verifyChunksExist e ops

def applyMergeOperation : MergeOp H → EngineM H Unit
  | .addFile path _ record => do
    let data ← query fun e => collectChunks e record.chunkHashes
    let _ ← storeFileBuffered hs env path data record.contentType
  | .deleteFile path => ignore (deleteFile hs env path)
  | .addSymlink path _ record => do
    let _ ← storeSymlink hs path record.target
  | .deleteSymlink path => ignore (deleteSymlink hs path)

def applyMergeOperations (operations : List (MergeOp H)) : EngineM H Unit := do
  query fun e => verifyChunksExist e operations
  operations.forM (applyMergeOperation hs env)

end

variable {H : Type} [LinearOrder H] (hs : Hasher H) (env : Env) (codec : MetaCodec H)

def mergeTrees (syncPaths : Option (Str → Bool)) (base localTree remoteTree : VersionTree H) : Option (MergeResult H) :=
  let localDiff := diffTrees base localTree
  let remoteDiff := diffTrees base remoteTree
  if isEmptyDiff localDiff && isEmptyDiff remoteDiff then none else some (threeWayMerge localDiff (selected syncPaths remoteDiff))

def applyMerge (merged : MergeResult H) : EngineM H (Option H) := do
  if merged.operations.isEmpty then pure () else applyMergeOperations hs env merged.operations
  merged.conflicts.forM (storeConflict hs env codec)
  query fun e => .ok e.head

/-- The cycle returns the root hash that is saved as the base of the next one. `base` is what the last cycle
saved, and nothing when there was none. -/
def syncWithLocalEngine (syncPaths : Option (Str → Bool)) (base : Option H) (remote : Engine H) : EngineM H (Option H) := do
  let localHead ← query fun e => .ok e.head
  if localHead = remote.head then pure remote.head
  else
    let localTree ← query fun e => walkRoot e localHead
    let remoteTree ← attempt (walkRoot remote remote.head)
    transferMissingChunks remoteTree remote
    let baseTree ← query fun e => walkRoot e base
    match mergeTrees syncPaths baseTree.toVersionTree localTree.toVersionTree remoteTree.toVersionTree with
    | none => pure remote.head
    | some merged => applyMerge hs env codec merged

end AeorDb.Sync
