import AeorDb.Auth.Grants
import AeorDb.Version.Walk

/-! The two routes by which a client syncs: the changes of the tree, and chunks by their hashes. -/

namespace AeorDb.Sync

open Library Store Dir Merge Version Auth List

structure SyncFileEntry (H : Type) where
  path : Str
  hash : H
  size : ℕ
  contentType : Option Str
  chunkHashes : List H
  deriving DecidableEq

structure SyncSymlinkEntry (H : Type) where
  path : Str
  hash : H
  target : Str
  deriving DecidableEq

structure SyncChanges (H : Type) where
  filesAdded : List (SyncFileEntry H)
  filesModified : List (SyncFileEntry H)
  filesDeleted : List Str
  symlinksAdded : List (SyncSymlinkEntry H)
  symlinksModified : List (SyncSymlinkEntry H)
  symlinksDeleted : List Str
  deriving DecidableEq

structure SyncDiffRequest where
  sinceRootHash : Option Str
  paths : Option (List Str)

structure SyncDiffResponse (H : Type) where
  rootHash : Option H
  changes : SyncChanges H
  chunkHashesNeeded : List H
  deriving DecidableEq

structure SyncChunk where
  hash : Str
  data : List UInt8
  deriving DecidableEq

inductive SyncCaller where
  | peer
  | rootUser
  | scopedUser (user : Uuid) (keyRules : List KeyRule)

inductive SyncError where
  | tooManyFilters
  | invalidSinceRootHash
  | failedToWalk (tree : Str) (cause : EngineError)
  | tooManyHashes
  | scopedKey
  | tooLarge (chunksSoFar : ℕ)
  deriving DecidableEq

def SyncError.status : SyncError → ℕ
  | .tooManyFilters | .invalidSinceRootHash | .tooManyHashes => 400
  | .failedToWalk _ _ => 500
  | .scopedKey => 403
  | .tooLarge _ => 413

def SyncCaller.includeSystem : SyncCaller → Bool
  | .peer => true
  | _ => false

def SyncCaller.keyRules : SyncCaller → List KeyRule
  | .scopedUser _ keyRules => keyRules
  | _ => []

/-- What the routes read. `systemEntry` is the flag of the stored entries, `withSystem` adds the system's own subtrees for a peer;
hashes come as text, where the all-zero hash is that of a database without HEAD. -/
structure SyncServer (H : Type) where
  engine : Engine H
  systemEntry : H → Bool
  policy : Policy
  withSystem : VersionTree H → VersionTree H
  decodeHash : Str → Option (Option H)
  globMatch : GlobMatch
  isPermissionsName : Str → Str → Bool

variable {H : Type} [DecidableEq H] (hs : Hasher H)

section

omit [DecidableEq H]

def fileRecordToSyncEntry (x : Str × H × FileRecord H) : SyncFileEntry H :=
  ⟨x.1, x.2.1, x.2.2.totalSize, x.2.2.contentType, x.2.2.chunkHashes⟩

def symlinkRecordToSyncEntry (x : Str × H × SymlinkRecord) : SyncSymlinkEntry H := ⟨x.1, x.2.1, x.2.2.target⟩

def pathMatchesFilter (globMatch : GlobMatch) (path : Str) (patterns : List Str) : Bool := patterns.any fun pattern => globMatch pattern path

def kept (globMatch : GlobMatch) (filter : Option (List Str)) (includeSystem : Bool) (path : Str) : Bool :=
  (includeSystem || !isSystemPath path) && filter.all (pathMatchesFilter globMatch path)

def filterAndCollect {α β : Type} (keep : Str → Bool) (pathOf : α → Str) (convert : α → β) (source : List α) : List β :=
  ((source.filter fun x => keep (pathOf x)).map convert)

def sortByPath {α : Type} (path : α → Str) (entries : List α) : List α := entries.insertionSort fun a b => path a ≤ path b

def collectFiles (keep : Str → Bool) (files : PathMap H (FileRecord H)) : List (SyncFileEntry H) :=
  sortByPath SyncFileEntry.path (filterAndCollect keep Prod.fst fileRecordToSyncEntry files.entries)

def collectSymlinks (keep : Str → Bool) (symlinks : PathMap H SymlinkRecord) : List (SyncSymlinkEntry H) :=
  sortByPath SyncSymlinkEntry.path (filterAndCollect keep Prod.fst symlinkRecordToSyncEntry symlinks.entries)

def collectDeleted (keep : Str → Bool) (deleted : List Str) : List Str := sortByPath id (filterAndCollect keep id id deleted)

def buildFullSyncResponse (keep : Str → Bool) (tree : VersionTree H) : SyncChanges H where
  filesAdded := collectFiles keep tree.files
  filesModified := []
  filesDeleted := []
  symlinksAdded := collectSymlinks keep tree.symlinks
  symlinksModified := []
  symlinksDeleted := []

def buildSyncResponseFromDiff (keep : Str → Bool) (diff : TreeDiff H) : SyncChanges H where
  filesAdded := collectFiles keep diff.files.added
  filesModified := collectFiles keep diff.files.modified
  filesDeleted := collectDeleted keep diff.files.deleted
  symlinksAdded := collectSymlinks keep diff.symlinks.added
  symlinksModified := collectSymlinks keep diff.symlinks.modified
  symlinksDeleted := collectDeleted keep diff.symlinks.deleted

def SyncChanges.retain (keep : Str → Bool) (changes : SyncChanges H) : SyncChanges H where
  filesAdded := changes.filesAdded.filter fun x => keep x.path
  filesModified := changes.filesModified.filter fun x => keep x.path
  filesDeleted := changes.filesDeleted.filter keep
  symlinksAdded := changes.symlinksAdded.filter fun x => keep x.path
  symlinksModified := changes.symlinksModified.filter fun x => keep x.path
  symlinksDeleted := changes.symlinksDeleted.filter keep

def SyncChanges.paths (changes : SyncChanges H) : List Str :=
  changes.filesAdded.map SyncFileEntry.path ++ changes.filesModified.map SyncFileEntry.path ++ changes.filesDeleted ++
    changes.symlinksAdded.map SyncSymlinkEntry.path ++ changes.symlinksModified.map SyncSymlinkEntry.path ++ changes.symlinksDeleted

end

namespace SyncServer

variable (st : SyncServer H)

def pathAllowedByKeyRules (rules : List KeyRule) (path : Str) : Bool :=
  rules = [] || rulesPermit st.globMatch rules path 'r'

def filterChangesByKeyRules (rules : List KeyRule) (changes : SyncChanges H) : SyncChanges H :=
  if rules = [] then changes else changes.retain (st.pathAllowedByKeyRules rules)

def isAllowed (user : Uuid) (path : Str) : Bool :=
  !isSystemPath path && !isInternalPath path && (checkPathPermission st.policy user path .read).toOption.getD false

def filterChangesByUserPermissions (user : Uuid) (changes : SyncChanges H) : SyncChanges H := changes.retain (st.isAllowed user)

def userHasGrantScope (user : Uuid) : Bool :=
  (hasDescendantGrants st.policy (permissionFiles hs st.engine st.isPermissionsName) user ['/']).toOption.getD false

def walkTree (includeSystem : Bool) : EngineResult (VersionTree H) :=
  (walkRoot st.engine st.engine.head).map fun tree =>
    if includeSystem then st.withSystem tree.toVersionTree else tree.toVersionTree

def allChanges (includeSystem : Bool) (request : SyncDiffRequest) : Except SyncError (SyncChanges H) :=
  let keep := kept st.globMatch request.paths includeSystem
  match request.sinceRootHash with
  | none => do
    let tree ← (st.walkTree includeSystem).mapError (.failedToWalk "tree".toList)
    .ok (buildFullSyncResponse keep tree)
  | some since =>
    match st.decodeHash since with
    | none => .error .invalidSinceRootHash
    | some root => do
      let base ← (walkRoot st.engine root).mapError (.failedToWalk "base tree".toList)
      let current ← (st.walkTree includeSystem).mapError (.failedToWalk "current tree".toList)
      .ok (buildSyncResponseFromDiff keep (diffTrees base.toVersionTree current))

def hideFrom (caller : SyncCaller) (changes : SyncChanges H) : SyncChanges H :=
  let changes := st.filterChangesByKeyRules caller.keyRules changes
  match caller with
  | .scopedUser user [] => if st.userHasGrantScope hs user then st.filterChangesByUserPermissions user changes else changes
  | _ => changes

def maxPathFilters : ℕ := 100

def syncDiff (caller : SyncCaller) (request : SyncDiffRequest) : Except SyncError (SyncDiffResponse H) :=
  if request.paths.any fun paths => maxPathFilters < paths.length then .error .tooManyFilters
  else do
    let changes ← st.allChanges caller.includeSystem request
    let changes := st.hideFrom hs caller changes
    .ok ⟨st.engine.head, changes, ((changes.filesAdded ++ changes.filesModified).flatMap SyncFileEntry.chunkHashes).dedup⟩

omit [DecidableEq H]

def maxResponseBytes : ℕ := 512 * 1024 * 1024
def maxHashes : ℕ := 10000

def projectedSize (hash : Str) (data : List UInt8) : ℕ := data.length * 4 / 3 + utf8Len hash + 64

def chunkFor (filterSystem : Bool) (text : Str) : Option (List UInt8) :=
  match st.decodeHash text with
  | some (some h) =>
    match st.engine.getRaw h with
    | some ⟨.chunk, _, .chunk data, _⟩ => if filterSystem && st.systemEntry h then none else some data
    | _ => none
  | _ => none

def collectChunks (filterSystem : Bool) : List Str → List SyncChunk → ℕ → Except SyncError (List SyncChunk)
  | [], chunks, _ => .ok chunks
  | text :: texts, chunks, payload =>
    match st.chunkFor filterSystem text with
    | none => collectChunks filterSystem texts chunks payload
    | some data =>
      if maxResponseBytes < payload + projectedSize text data then .error (.tooLarge chunks.length)
      else collectChunks filterSystem texts (chunks ++ [⟨text, data⟩]) (payload + projectedSize text data)

def syncChunks (caller : SyncCaller) (hashes : List Str) : Except SyncError (List SyncChunk) :=
  if maxHashes < hashes.length then .error .tooManyHashes
  else if caller.keyRules ≠ [] then .error .scopedKey
  else st.collectChunks (!caller.includeSystem) hashes [] 0

end SyncServer

omit [DecidableEq H]

variable {keep : Str → Bool} {p : Str}

lemma mem_paths_retain {changes : SyncChanges H} : p ∈ (changes.retain keep).paths ↔ p ∈ changes.paths ∧ keep p = true := by
  simp only [SyncChanges.retain, SyncChanges.paths, mem_append, mem_map, mem_filter]
  grind

lemma mem_collectFiles {files : PathMap H (FileRecord H)} :
    p ∈ (collectFiles keep files).map SyncFileEntry.path ↔ keep p = true ∧ p ∈ files.entries.map Prod.fst := by
  simp only [collectFiles, sortByPath, filterAndCollect, mem_map, mem_insertionSort, mem_filter]
  constructor
  · rintro ⟨_, ⟨x, ⟨hx, hkeep⟩, rfl⟩, rfl⟩
    exact ⟨hkeep, x, hx, rfl⟩
  · rintro ⟨hkeep, x, hx, rfl⟩
    exact ⟨_, ⟨x, ⟨hx, hkeep⟩, rfl⟩, rfl⟩

lemma mem_collectSymlinks {symlinks : PathMap H SymlinkRecord} :
    p ∈ (collectSymlinks keep symlinks).map SyncSymlinkEntry.path ↔ keep p = true ∧ p ∈ symlinks.entries.map Prod.fst := by
  simp only [collectSymlinks, sortByPath, filterAndCollect, mem_map, mem_insertionSort, mem_filter]
  constructor
  · rintro ⟨_, ⟨x, ⟨hx, hkeep⟩, rfl⟩, rfl⟩
    exact ⟨hkeep, x, hx, rfl⟩
  · rintro ⟨hkeep, x, hx, rfl⟩
    exact ⟨_, ⟨x, ⟨hx, hkeep⟩, rfl⟩, rfl⟩

lemma mem_collectDeleted {deleted : List Str} : p ∈ collectDeleted keep deleted ↔ keep p = true ∧ p ∈ deleted := by
  simp only [collectDeleted, sortByPath, filterAndCollect, map_id, mem_insertionSort, mem_filter, id]
  exact and_comm

lemma mem_paths_full {tree : VersionTree H} : p ∈ (buildFullSyncResponse keep tree).paths ↔
    keep p = true ∧ (p ∈ tree.files.entries.map Prod.fst ∨ p ∈ tree.symlinks.entries.map Prod.fst) := by
  simp only [SyncChanges.paths, buildFullSyncResponse, mem_append, mem_collectFiles, mem_collectSymlinks, map_nil, not_mem_nil]
  tauto

lemma mem_paths_diff {diff : TreeDiff H} : p ∈ (buildSyncResponseFromDiff keep diff).paths ↔
    keep p = true ∧ (p ∈ diff.files.paths ∨ p ∈ diff.symlinks.paths) := by
  simp only [SyncChanges.paths, buildSyncResponseFromDiff, KindDiff.paths, mem_append, mem_collectFiles, mem_collectSymlinks,
    mem_collectDeleted]
  tauto

end AeorDb.Sync
