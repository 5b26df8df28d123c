import AeorDb.Dir.Propagate
import AeorDb.Version.Snapshots

/-! Operations on files, directories and symlinks. -/

namespace AeorDb.Dir

open Store BTree Version Library EngineM

structure Env where
  detectContentType : List UInt8 → Option Str → Str
  autoSnapshotName : ℤ → Str

section

variable {H : Type}

def fileOf : Value H → EngineResult (FileRecord H)
  | .file record => .ok record
  | _ => .error (.corruptEntry 0 "Unexpected file record data")

def symlinkOf : Value H → EngineResult SymlinkRecord
  | .symlink record => .ok record
  | _ => .error (.corruptEntry 0 "Unexpected symlink record data")

def chunkOf : Value H → EngineResult (List UInt8)
  | .chunk bytes => .ok bytes
  | _ => .error (.corruptEntry 0 "Unexpected chunk data")

def notFoundPath (path : Str) : EngineError := .notFound (String.ofList path)

def lookupRecord {α : Type} (e : Engine H) (k : H) (decode : Value H → EngineResult α) : EngineResult (Option α) :=
  match e.get k with
  | none => .ok none
  | some v => (decode v).map some

def requireRecord {α : Type} (e : Engine H) (k : H) (decode : Value H → EngineResult α) (path : Str) : EngineResult α := do
  match ← lookupRecord e k decode with
  | some record => .ok record
  | none => .error (notFoundPath path)

def fetchChunk (e : Engine H) (h : H) : EngineResult (List UInt8) :=
  match e.get h with
  | none => .error (.notFound "Chunk not found")
  | some v => chunkOf v

def collectChunks (e : Engine H) (hashes : List H) : EngineResult (List UInt8) :=
  (hashes.mapM (fetchChunk e)).map List.flatten

def readFileBuffered (hs : Hasher H) (e : Engine H) (path : Str) : EngineResult (List UInt8) := do
  let record ← requireRecord e (hs.filePathHash (normalizePath path)) fileOf (normalizePath path)
  collectChunks e record.chunkHashes

end

variable {H : Type} [DecidableEq H] (hs : Hasher H) (env : Env)

def createDirectory (path : Str) : EngineM H Unit := do
  let normalized := normalizePath path
  perform (.store .directoryIndex (hs.directoryPathHash normalized) (.dir (.flat [])))
  perform (.store .directoryIndex (hs.directoryContentHash (.flat [])) (.dir (.flat [])))
  let now ← now
  if normalized = ['/'] then pure ()
  else updateParentDirectories hs normalized (directoryChild hs normalized (emptyDirectory hs) now)

def ensureRootDirectory : EngineM H Unit := do
  if ← query fun e => .ok (e.hasEntry (hs.directoryPathHash ['/'])) then ignore (listDirectory hs ['/'])
  else
    perform (.store .directoryIndex (hs.directoryPathHash ['/']) (.dir (.flat [])))
    perform (.store .directoryIndex (hs.directoryContentHash (.flat [])) (.dir (.flat [])))
    perform (.updateHead (some (hs.directoryContentHash (.flat []))))

def deleteDirectory (path : Str) : EngineM H Unit := do
  let normalized := normalizePath path
  if normalized = ['/'] then throw (.invalidInput "Cannot delete root directory")
  let children ← listDirectory hs normalized
  if children ≠ [] then
    throw (.invalidInput ("Directory '" ++ String.ofList normalized ++ "' is not empty (" ++ toString children.length ++ " children)"))
  persistDeletion hs normalized
  perform (.markDeleted (hs.directoryPathHash normalized))
  removeFromParentDirectory hs normalized

def storeChunk (bytes : List UInt8) : EngineM H H := do
  let known ← query fun e => .ok (e.hasEntry (hs.chunkHash bytes))
  if known then pure ()
  else perform (.store .chunk (hs.chunkHash bytes) (.chunk bytes))
  pure (hs.chunkHash bytes)

def defaultChunkSize : ℕ := 262144

def storeChunks : List (List UInt8) → EngineM H (List H)
  | [] => pure []
  | bytes :: rest => do
    let h ← storeChunk hs bytes
    let hashes ← storeChunks rest
    pure (h :: hashes)

def materializeFileRecord (path : Str) (record : FileRecord H) : EngineM H H := do
  let data ← attempt record.serialize
  let identityKey := hs.fileIdentityHash path record.contentType record.chunkHashes
  perform (.store .fileRecord (hs.fileContentHash data) (.file data))
  perform (.store .fileRecord identityKey (.file data))
  perform (.store .fileRecord (hs.filePathHash path) (.file data))
  pure identityKey

def fileChild (path : Str) (record : FileRecord H) (identityKey : H) (now : ℤ) : ChildEntry H where
  entryType := .fileRecord
  hash := identityKey
  totalSize := record.totalSize
  createdAt := record.createdAt
  updatedAt := record.updatedAt
  name := (fileName path).getD []
  contentType := record.contentType
  virtualTime := now.toNat
  nodeId := 0

structure PublishInput (H : Type) where
  path : Str
  contentType : Option Str
  totalSize : ℕ
  chunkHashes : List H
  contentHash : H
  createdAt : Option ℤ

structure Published (H : Type) where
  path : Str
  record : FileRecord H
  child : ChildEntry H

def publishFileRecord (input : PublishInput H) : EngineM H (Published H) := do
  let path := normalizePath input.path
  let existing ← EngineM.query fun e => lookupRecord e (hs.filePathHash path) fileOf
  let now ← EngineM.now
  let createdAt := match existing with
    | some record => record.createdAt
    | none => input.createdAt.getD now
  let record := ⟨path, input.contentType, input.totalSize, createdAt, now, [], input.contentHash, input.chunkHashes⟩
  let identityKey ← materializeFileRecord hs path record
  let now ← EngineM.now
  pure ⟨path, record, fileChild path record identityKey now⟩

def storeFileBuffered (path : Str) (data : List UInt8) (contentType : Option Str) : EngineM H (FileRecord H) := do
  let normalized := normalizePath path
  if normalized = ['/'] then throw (.invalidInput "Cannot store at root path")
  let chunkHashes ← storeChunks hs (Grouping.groups defaultChunkSize data)
  let published ← publishFileRecord hs
    ⟨normalized, some (env.detectContentType data contentType), data.length, chunkHashes, hs.compute (.whole data), none⟩
  updateParentDirectories hs published.path published.child
  pure published.record

def restoreFileFromRecord (path : Str) (source : FileRecord H) : EngineM H Unit := do
  let contentType := source.contentType.getD "application/octet-stream".toList
  let published ← publishFileRecord hs
    ⟨normalizePath path, some contentType, source.totalSize, source.chunkHashes, source.contentHash, some source.createdAt⟩
  updateParentDirectories hs published.path published.child

def autoSnapshotBeforeDelete : EngineM H Unit := do
  if ← EngineM.query fun e => .ok e.snapshotWritesEnabled then
    let now ← EngineM.now
    let last ← EngineM.query fun e => .ok e.lastAutoSnapshotDelete
    if now - last < 60000 ∧ 0 < last then pure ()
    else
      EngineM.perform (.claimAutoSnapshot now)
      let date ← EngineM.now
      let snapshot := createSnapshot hs (env.autoSnapshotName date) [(snapshotTypeKey, snapshotTypeAuto)]
      fun e =>
        match snapshot e with
        | .ok _ e => .ok () e
        | .error _ e => EngineM.perform (.claimAutoSnapshot last) e
  else pure ()

def deleteFile (path : Str) : EngineM H Unit := do
  let normalized := normalizePath path
  let _ ← query fun e => requireRecord e (hs.filePathHash normalized) fileOf normalized
  if isSystemPath normalized then pure () else autoSnapshotBeforeDelete hs env
  persistDeletion hs normalized
  perform (.markDeleted (hs.filePathHash normalized))
  removeFromParentDirectory hs normalized

def copyFile (source target : Str) : EngineM H (FileRecord H) := do
  let source := normalizePath source
  let target := normalizePath target
  if source = ['/'] ∨ target = ['/'] then throw (.invalidInput "Cannot copy root path")
  if source = target then throw (.invalidInput "Source and destination are the same")
  if isSystemPath source ∨ isSystemPath target then throw (.invalidInput "Cannot copy system paths")
  let record ← query fun e => requireRecord e (hs.filePathHash source) fileOf source
  restoreFileFromRecord hs target record
  query fun e => requireRecord e (hs.filePathHash target) fileOf target

def ensureRenamable (oldPath newPath : Str) : EngineM H Unit := do
  if oldPath = ['/'] ∨ newPath = ['/'] then throw (.invalidInput "Cannot rename root path")
  if oldPath = newPath then throw (.invalidInput "Source and destination paths are the same")
  if isSystemPath oldPath ≠ isSystemPath newPath then throw (.invalidInput "Cannot rename across system boundary")

def ensureVacant (path : Str) : EngineM H Unit :=
  query fun e =>
    if e.hasEntry (hs.filePathHash path) ∨ e.hasEntry (hs.symlinkPathHash path) then .error (.alreadyExists (String.ofList path))
    else .ok ()

def renameFile (oldPath newPath : Str) : EngineM H (FileRecord H) := do
  let oldPath := normalizePath oldPath
  let newPath := normalizePath newPath
  ensureRenamable oldPath newPath
  let old ← EngineM.query fun e => requireRecord e (hs.filePathHash oldPath) fileOf oldPath
  ensureVacant hs newPath
  let now ← EngineM.now
  let record := ⟨newPath, old.contentType, old.totalSize, old.createdAt, now, [], old.contentHash, old.chunkHashes⟩
  let identityKey ← materializeFileRecord hs newPath record
  let now ← EngineM.now
  updateParentDirectories hs newPath (fileChild newPath record identityKey now)
  persistDeletion hs oldPath
  EngineM.perform (.markDeleted (hs.filePathHash oldPath))
  removeFromParentDirectory hs oldPath
  pure record

def hasControlCharacters (s : Str) : Bool := s.any fun c => (c.toNat < 0x20 && c.toNat ≠ 0) || c.toNat = 0x7F

def symlinkChild (path : Str) (record : SymlinkRecord) (identityKey : H) (now : ℤ) : ChildEntry H where
  entryType := .symlink
  hash := identityKey
  totalSize := 0
  createdAt := record.createdAt
  updatedAt := record.updatedAt
  name := (fileName path).getD []
  contentType := none
  virtualTime := now.toNat
  nodeId := 0

def publishSymlink (path : Str) (record : SymlinkRecord) : EngineM H Unit := do
  let data ← attempt record.serialize
  let identityKey := hs.symlinkIdentityHash path record.target
  perform (.store .symlink (hs.symlinkContentHash data) (.symlink data))
  perform (.store .symlink identityKey (.symlink data))
  perform (.store .symlink (hs.symlinkPathHash path) (.symlink data))
  let now ← now
  updateParentDirectories hs path (symlinkChild path record identityKey now)

def storeSymlink (path target : Str) : EngineM H SymlinkRecord := do
  if hasControlCharacters path then throw (.invalidInput "Symlink path contains control characters")
  if hasControlCharacters target then throw (.invalidInput "Symlink target contains control characters")
  let path := normalizePath path
  let target := normalizePath target
  if path = ['/'] then throw (.invalidInput "Cannot store at root path")
  if path = target then throw (.invalidInput ("Symlink cannot point to itself: " ++ String.ofList path))
  let existing ← query fun e => lookupRecord e (hs.symlinkPathHash path) symlinkOf
  let now ← now
  let createdAt := match existing with
    | some record => record.createdAt
    | none => now
  let record : SymlinkRecord := ⟨path, target, createdAt, now⟩
  publishSymlink hs path record
  pure record

def deleteSymlink (path : Str) : EngineM H Unit := do
  let normalized := normalizePath path
  let _ ← query fun e => requireRecord e (hs.symlinkPathHash normalized) symlinkOf normalized
  persistDeletion hs normalized
  perform (.markDeleted (hs.symlinkPathHash normalized))
  removeFromParentDirectory hs normalized

def renameSymlink (oldPath newPath : Str) : EngineM H SymlinkRecord := do
  let oldPath := normalizePath oldPath
  let newPath := normalizePath newPath
  ensureRenamable oldPath newPath
  let old ← query fun e => requireRecord e (hs.symlinkPathHash oldPath) symlinkOf oldPath
  ensureVacant hs newPath
  let now ← now
  let record : SymlinkRecord := ⟨newPath, old.target, old.createdAt, now⟩
  publishSymlink hs newPath record
  persistDeletion hs oldPath
  perform (.markDeleted (hs.symlinkPathHash oldPath))
  removeFromParentDirectory hs oldPath
  pure record

def copyChildren (copy : Str → Str → EngineM H (Option (List Str))) (source target : Str) :
    List (ChildEntry H) → EngineM H (Option (List Str))
  | [] => pure (some [])
  | c :: children => do
    match ← copy (trimEnd (· = '/') source ++ '/' :: c.name) (trimEnd (· = '/') target ++ '/' :: c.name) with
    | none => pure none
    | some copied =>
      match ← copyChildren copy source target children with
      | none => pure none
      | some rest => pure (some (copied ++ rest))

def copyPath : ℕ → Str → Str → EngineM H (Option (List Str))
  | 0, _, _ => pure none
  | fuel + 1, source, target => do
    let source := normalizePath source
    let target := normalizePath target
    if ← query fun e => .ok (e.hasEntry (hs.directoryPathHash source)) then
      ignore (createDirectory hs target)
      let children ← listDirectory hs source
      copyChildren (copyPath fuel) source target children
    else
      let _ ← copyFile hs source target
      pure (some [target])

end AeorDb.Dir
