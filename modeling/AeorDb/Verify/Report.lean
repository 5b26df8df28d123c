import AeorDb.Dir.Operations
import AeorDb.Library.Table

/-! The integrity check and its report. -/

namespace AeorDb.Verify

open Store BTree Dir Version Library

variable {H : Type}

inductive Broken (H : Type) where
  | dirEntryMissing (path : Str)
  | corruptBtree (path : Str)
  | corruptFlatIndex (path : Str)
  | chunkMissing (path : Str) (hash : H)
  | corruptFileRecord (path : Str)
  | fileRecordMissing (path : Str)
  | entryMissing (path : Str)

structure VerifyReport (H : Type) where
  corruptHash : ℕ
  corruptHeader : ℕ
  missingChildren : List (Str × EngineError)
  unlistedFiles : List Str
  danglingFileRecords : List (Str × List H)
  staleKvEntries : ℕ
  missingKvEntries : ℕ
  invalidKvOffsets : ℕ
  invalidHotTailVoids : ℕ
  brokenSnapshots : List (Str × List (Broken H))
  staleDirPathKeys : List Str

def VerifyReport.hasIssues (report : VerifyReport H) : Bool :=
  0 < report.corruptHash || 0 < report.corruptHeader || !report.missingChildren.isEmpty || !report.unlistedFiles.isEmpty ||
    !report.danglingFileRecords.isEmpty || 0 < report.staleKvEntries || 0 < report.missingKvEntries || 0 < report.invalidKvOffsets ||
    0 < report.invalidHotTailVoids || !report.brokenSnapshots.isEmpty || !report.staleDirPathKeys.isEmpty

structure FileFindings where
  corruptHash : ℕ
  corruptHeader : ℕ
  swept : ℕ → Bool
  invalidKvOffsets : ℕ
  invalidHotTailVoids : ℕ

section

structure ExpectedKvEntry where
  offset : ℕ
  emptyValue : Bool
  directory : Bool
  timestamp : ℤ

abbrev ExpectedKvIndex (H : Type) := Table (Prod.fst : H × ExpectedKvEntry → H)

def shouldReplaceExpectedEntry (existing candidate : ExpectedKvEntry) : Bool :=
  if existing.directory && candidate.directory && candidate.emptyValue && !existing.emptyValue then false
  else if existing.directory && candidate.directory && !candidate.emptyValue && existing.emptyValue then true
  else existing.timestamp < candidate.timestamp ∨ existing.timestamp = candidate.timestamp ∧ existing.offset < candidate.offset

variable [DecidableEq H]

def scanEntry (expected : ExpectedKvIndex H) (r : LogEntry H) (offset : ℕ) : ExpectedKvIndex H :=
  if r.entryType = .void then expected
  else
    let candidate := ⟨offset, r.value = .dir (.flat []) ∨ r.value = .chunk [], r.entryType = .directoryIndex, r.timestamp⟩
    match expected.get r.key with
    | some existing => if shouldReplaceExpectedEntry existing.2 candidate then expected.insert (r.key, candidate) else expected
    | none => expected.insert (r.key, candidate)

def scanEntries (log : List (LogEntry H)) : ExpectedKvIndex H := log.zipIdx.foldl (fun expected x => scanEntry expected x.1 x.2) .empty

def removeExpectedIfOlder (expected : ExpectedKvIndex H) (key : H) (timestamp : ℤ) (offset : ℕ) : ExpectedKvIndex H :=
  match expected.get key with
  | some (_, entry) =>
    if entry.timestamp < timestamp ∨ entry.timestamp = timestamp ∧ entry.offset < offset then expected.erase key else expected
  | none => expected

def applyDeletionRecord (hs : Hasher H) (expected : ExpectedKvIndex H) (r : LogEntry H) (offset : ℕ) : ExpectedKvIndex H :=
  match r.entryType, r.value with
  | .deletionRecord, .deletion record =>
    let normalized := normalizePath record.path
    [hs.filePathHash normalized, hs.directoryPathHash normalized, hs.symlinkPathHash normalized, hs.compute (.text record.path)].foldl
      (fun expected key => removeExpectedIfOlder expected key r.timestamp offset) expected
  | _, _ => expected

def expectedKeys (hs : Hasher H) (file : FileFindings) (e : Engine H) : List H :=
  let expected := (scanEntries e.log).filter fun x => !file.swept x.2.offset
  (e.log.zipIdx.foldl (fun expected x => applyDeletionRecord hs expected x.1 x.2) expected).entries.map (·.1)

def actualKeys (e : Engine H) : List H := ((liveEntries e).filter (·.entryType ≠ .void)).map (·.key)

variable (hs : Hasher H)

structure Checked where
  stale : List Str
  missing : List (Str × EngineError)

def caught {α : Type} (m : EngineM H α) : EngineM H (Option α) := fun e =>
  match m e with
  | .ok a e => .ok (some a) e
  | .error _ e => .ok none e

def childOf (path name : Str) : Str := if path = ['/'] then '/' :: name else trimEnd (· = '/') path ++ '/' :: name

def checkChild (check : Str → EngineM H Checked) (path : Str) : EntryType → EngineM H Checked
  | .directoryIndex => check path
  | .fileRecord => do
    match ← EngineM.query fun e => .ok (readFileBuffered hs e path) with
    | .ok _ => pure ⟨[], []⟩
    | .error err => pure ⟨[], [(path, err)]⟩
  | _ => pure ⟨[], []⟩

def checkChildren (check : Str → EngineM H Checked) (path : Str) : List (ChildEntry H) → EngineM H Checked
  | [] => pure ⟨[], []⟩
  | c :: children => do
    let here ← checkChild hs check (childOf path c.name) c.entryType
    let others ← checkChildren check path children
    pure ⟨here.stale ++ others.stale, here.missing ++ others.missing⟩

def checkDirectoryRecursive : ℕ → Str → EngineM H Checked
  | 0, _ => pure ⟨[], []⟩
  | levels + 1, path => do
    let stale ← EngineM.query fun e => .ok <|
      match recoverDirectoryDataIfStale e path (hs.directoryPathHash path) with
      | .ok (some _) => [path]
      | _ => []
    match ← caught (listDirectory hs path) with
    | none => pure ⟨stale, []⟩
    | some children =>
      let found ← checkChildren hs (checkDirectoryRecursive levels) path children
      pure ⟨stale ++ found.stale, found.missing⟩

def visitedLevels : ℕ := 101

def checkPathFileRecords (e : Engine H) : List (Str × List H) :=
  (liveEntries e).filterMap fun r =>
    match r.entryType, r.value with
    | .fileRecord, .file record =>
      let normalized := normalizePath record.path
      if normalized = ['/'] ∨ startsWith normalized "/.aeordb-".toList ∨ r.key ≠ hs.filePathHash normalized then none
      else
        let missing := record.chunkHashes.filter fun h => !e.hasEntry h
        if missing = [] then none else some (normalized, missing)
    | _, _ => none

end

def snapshotChildren (e : Engine H) (path : Str) : Value H → List (ChildEntry H) ⊕ Broken H
  | .dir (.flat es) => .inl es
  | .dir (.node n) =>
    match btreeListFromNode e n true with
    | .ok es => .inl es
    | .error _ => .inr (.corruptBtree path)
  | _ => .inr (.corruptFlatIndex path)

def checkSnapshotFile (e : Engine H) (path : Str) (h : H) : List (Broken H) :=
  match e.getRaw h with
  | none => [.fileRecordMissing path]
  | some r =>
    match r.value with
    | .file record => (record.chunkHashes.filter fun chunk => (e.getRaw chunk).isNone).map (.chunkMissing path)
    | _ => [.corruptFileRecord path]

def walkSnapshotTree (e : Engine H) : ℕ → Str → Option H → List (Broken H)
  | 0, _, _ => []
  | levels + 1, path, root =>
    match root.bind e.getRaw with
    | none => [.dirEntryMissing path]
    | some r =>
      match snapshotChildren e path r.value with
      | .inr broken => [broken]
      | .inl children => children.flatMap fun c =>
        let child := if path = ['/'] then '/' :: c.name else path ++ '/' :: c.name
        match c.entryType with
        | .directoryIndex => walkSnapshotTree e levels child (some c.hash)
        | .fileRecord => checkSnapshotFile e child c.hash
        | _ => if (e.getRaw c.hash).isNone then [.entryMissing child] else []

def checkSnapshotIntegrity [DecidableEq H] (e : Engine H) : List (Str × List (Broken H)) :=
  match listSnapshots e with
  | .error _ => []
  | .ok snapshots => snapshots.filterMap fun snapshot =>
    match walkSnapshotTree e visitedLevels ['/'] snapshot.rootHash with
    | [] => none
    | missing => some (snapshot.name, missing)

variable [DecidableEq H]

def verify (hs : Hasher H) (file : FileFindings) : EngineM H (VerifyReport H) := do
  let e ← EngineM.query .ok
  let expected := expectedKeys hs file e
  let actual := actualKeys e
  let checked ← checkDirectoryRecursive hs visitedLevels ['/']
  let e ← EngineM.query .ok
  pure {
    corruptHash := file.corruptHash
    corruptHeader := file.corruptHeader
    missingChildren := checked.missing
    unlistedFiles := []
    danglingFileRecords := checkPathFileRecords hs e
    staleKvEntries := (actual.filter (· ∉ expected)).length
    missingKvEntries := (expected.filter (· ∉ actual)).length
    invalidKvOffsets := file.invalidKvOffsets
    invalidHotTailVoids := file.invalidHotTailVoids
    brokenSnapshots := checkSnapshotIntegrity e
    staleDirPathKeys := checked.stale }

end AeorDb.Verify
