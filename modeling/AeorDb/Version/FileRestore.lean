import AeorDb.Dir.Restore
import AeorDb.Version.Walk

/-! Restoring a file from a version, and the snapshot that is taken of HEAD before. -/

namespace AeorDb.Version

open Store BTree Dir Library Trace Hasher EngineM Result Digest List

section

variable {H : Type} [DecidableEq H] (e : Engine H)

def missingAt (what : String) (name : Str) : EngineError :=
  .notFound (what ++ " '" ++ String.ofList name ++ "' not found at version")

def directoryAt (path : Str) : Value H → List Str → EngineResult (Value H)
  | dir, [] => .ok dir
  | dir, segment :: segments =>
    match versionChildren e dir with
    | .error _ => .error (missingAt "File" path)
    | .ok children =>
      match (children.find? fun c => c.name = segment ∧ c.entryType = .directoryIndex).bind fun c => e.getRaw c.hash with
      | none => .error (missingAt "Directory" segment)
      | some r => directoryAt path r.value segments

def resolveFileAtVersion (root : Option H) (path : Str) : EngineResult (H × FileRecord H) :=
  let segments := splitSegments (normalizePath path)
  match segments.getLast?, root.bind e.getRaw with
  | none, _ => .error (.notFound "Empty path")
  | some _, none => .error (.notFound ("Directory not found at version for path '" ++ String.ofList path ++ "'"))
  | some name, some r => do
    let children ← match ← directoryAt e path r.value segments.dropLast with
      | .dir (.flat es) => .ok es
      | .dir (.node n) => btreeListFromNode e n true
      | _ => .error (missingAt "File" path)
    if children.any fun c => c.name = name ∧ c.entryType = .symlink then
      .error (.notFound ("Path '" ++ String.ofList path ++ "' is a symlink at this version, not a file"))
    else
      match children.find? fun c => c.name = name ∧ c.entryType = .fileRecord with
      | none => .error (missingAt "File" path)
      | some c =>
        match e.getRaw c.hash with
        | none => .error (missingAt "File" path)
        | some r => do .ok (c.hash, ← fileOf r.value)

def readFileAtVersion (root : Option H) (path : Str) : EngineResult (List UInt8) := do
  let (_, record) ← resolveFileAtVersion e root path
  let blocks ← record.chunkHashes.mapM fun h =>
    match e.getRaw h with
    | none => .error (.notFound "Chunk not found")
    | some r => chunkOf r.value
  .ok blocks.flatten

def resolveRootHash (hs : Hasher H) (version : Str) : EngineResult (Option H) :=
  if version = "HEAD".toList then .ok e.head
  else do
    match ← getForkHash hs e version with
    | some root => .ok root
    | none => getSnapshotHash hs e version

end

variable {H : Type} [DecidableEq H] (hs : Hasher H)

def preRestoreMetadata (path : Str) : List (Str × Str) :=
  [("reason".toList, "auto-snapshot before file restore".toList), ("restored_path".toList, path), (snapshotTypeKey, snapshotTypeAuto)]

/-- Tries `base`, `base-2` and so on until one call succeeds; `left` failures are passed over. -/
def createUnderFreeName (base : Str) (metadata : List (Str × Str)) : ℕ → ℕ → Str → EngineM H Str
  | 0, _, name => do
    let _ ← createSnapshot hs name metadata
    pure name
  | left + 1, attempt, name => fun e =>
    match createSnapshot hs name metadata e with
    | .ok _ e => .ok name e
    | .error _ e => createUnderFreeName base metadata left (attempt + 1) (base ++ '-' :: (Nat.repr (attempt + 1)).toList) e

def preRestoreSnapshot (stamp : ℤ → Str) (path : Str) : EngineM H Str := do
  if ← query fun e => .ok e.snapshotWritesEnabled then
    let base := "pre-restore-".toList ++ stamp (← now)
    createUnderFreeName hs base (preRestoreMetadata path) 9 1 base
  else pure []

def fileRestoreFromVersion (env : Env) (stamp : ℤ → Str) (path : Str) (snapshotName : Option Str) (versionHash : Option H) :
    EngineM H (Str × ℕ) := do
  let root ← query fun e =>
    match snapshotName, versionHash with
    | some name, _ => resolveRootHash e hs name
    | none, some h => .ok (some h)
    | none, none => .error (.invalidInput "Must provide snapshot_name or version_hash")
  let (_, record) ← query fun e => resolveFileAtVersion e root path
  let name ← preRestoreSnapshot hs stamp path
  let content ← query fun e => readFileAtVersion e root path
  let _ ← storeFileBuffered hs env path content record.contentType
  pure (name, content.length)

variable {hs} {e e' : Engine H} {name : Str} {metadata : List (Str × Str)}

/-- No snapshot that is listed has HEAD as its root. -/
def HeadUnsaved (e : Engine H) : Prop := ∀ snapshots, listSnapshots e = .ok snapshots → ∀ info ∈ snapshots, info.rootHash ≠ e.head

omit [DecidableEq H] in
lemma get_of_not_taken {k : H} (h : ¬ isTaken e k) : e.get k = none := by
  simp only [isTaken, Engine.hasEntry, Engine.isEntryDeleted, Engine.get, Engine.getEntry] at h ⊢
  cases hi : e.index k with
  | none => rfl
  | some i => cases hd : i.deleted <;> simp_all

variable (hs) in
/-- A call that fails has at most read the clock. -/
lemma createSnapshot_spec (e : Engine H) (name : Str) (metadata : List (Str × Str)) :
    match createSnapshot hs name metadata e with
    | .ok _ e' => getSnapshotHash hs e' name = .ok e.head ↔ HeadUnsaved e
    | .error _ e' => e' = e ∨ e' = e.tick := by
  simp only [createSnapshot, ensureSnapshotWritesEnabled, ensureFree, query, now, attempt, bind, EStateM.bind]
  by_cases hon : e.snapshotWritesEnabled
  swap
  · simp [hon]
  by_cases htaken : isTaken e (hs.snapshotKey name)
  · simp [hon, htaken]
  have hlisted : listSnapshots e.tick = listSnapshots e := rfl
  cases hlist : listSnapshots e with
  | error err => simp [hon, htaken, hlisted, hlist]
  | ok existing =>
    cases hfind : existing.find? (·.rootHash = e.head) with
    | some saved =>
      have hnone : e.tick.get (hs.snapshotKey name) = none := get_of_not_taken htaken
      have hsaved : ¬ HeadUnsaved e := fun hall => hall existing hlist saved (mem_of_find?_eq_some hfind) (by simpa using find?_some hfind)
      simp [hon, htaken, hlisted, hlist, hfind, pure, EStateM.pure, getSnapshotHash, hnone, hsaved]
    | none =>
      have hunsaved : HeadUnsaved e := fun snapshots hs' saved hmem => by
        obtain rfl : existing = snapshots := Except.ok.inj (hlist.symm.trans hs')
        simpa using find?_eq_none.mp hfind saved hmem
      by_cases hlong : u16Max < utf8Len name
      · simp [hon, htaken, hlisted, hlist, hfind, serializeSnapshot, hlong, query, EStateM.bind]
      · simp [hon, htaken, hlisted, hlist, hfind, serializeSnapshot, hlong, query, perform, EStateM.bind, pure, EStateM.pure,
          getSnapshotHash, Engine.act, snapshotOf, Except.map, hunsaved]

lemma createUnderFreeName_resolves_iff {base : Str} {left attempt : ℕ} {shown : Str}
    (h : createUnderFreeName hs base metadata left attempt name e = .ok shown e') :
    getSnapshotHash hs e' shown = .ok e.head ↔ HeadUnsaved e := by
  have hspec := createSnapshot_spec hs e name metadata
  induction left generalizing attempt name e with
  | zero =>
    obtain ⟨info, _, hcreate, h⟩ := estate_bind_eq_ok.mp h
    obtain ⟨rfl, rfl⟩ := estate_pure_eq_ok.mp h
    rwa [hcreate] at hspec
  | succ left ih =>
    simp only [createUnderFreeName] at h
    split at h
    case h_1 info e₁ hcreate =>
      cases h
      rwa [hcreate] at hspec
    case h_2 err e₁ hcreate =>
      have hlater := ih h (createSnapshot_spec ..)
      rw [hcreate] at hspec
      rcases hspec with rfl | rfl
      · exact hlater
      · exact hlater

/-- The entries of snapshots are left alone. -/
def SparesSnapshots (hs : Hasher H) : Action H → Prop
  | .store _ k _ | .markDeleted k => ∀ name, k ≠ hs.snapshotKey name
  | _ => True

omit [DecidableEq H] in
lemma allowsFile_sparesSnapshots (path : Str) : AllowsFile hs (SparesSnapshots hs) path where
  chunk _ := by simp [SparesSnapshots, chunkHash, snapshotKey]
  content _ := by simp [SparesSnapshots, fileContentHash, snapshotKey]
  identity _ _ _ := by simp [SparesSnapshots, fileIdentityHash, snapshotKey]
  path _ := by simp [SparesSnapshots, filePathHash, snapshotKey]

omit [DecidableEq H] in
lemma allowsPublish_sparesSnapshots : AllowsPublish hs (SparesSnapshots hs) where
  flat _ := by simp [SparesSnapshots, directoryContentHash, snapshotKey]
  node _ := by simp [SparesSnapshots, btreeHash, snapshotKey]
  link _ _ := by simp [SparesSnapshots, directoryPathHash, snapshotKey]
  head _ := trivial
  tick := trivial

lemma getSnapshotHash_storeFileBuffered {env : Env} {path : Str} {data : List UInt8} {t : Option Str} {r : FileRecord H}
    (h : storeFileBuffered hs env path data t e = .ok r e') (name : Str) : getSnapshotHash hs e' name = getSnapshotHash hs e name := by
  have hspares : Performs Engine.act (SparesSnapshots hs) (storeFileBuffered hs env path data t) :=
    (allowsFile_sparesSnapshots _).storeFileBuffered allowsPublish_sparesSnapshots.everywhere (fun _ _ => trivial) data t
  have hran := hspares.ok h
  have hget : e'.get (hs.snapshotKey name) = e.get (hs.snapshotKey name) :=
    Engine.get_eq_of_ran hran (fun _ _ hstore => hstore name rfl) fun hmark => hmark name rfl
  rw [getSnapshotHash, getSnapshotHash, hget]

/-- The name that a restore returns is the name of a snapshot of the old HEAD exactly if no listed
snapshot has that HEAD as its root: otherwise the call of `createSnapshot` returns the listed one and stores none. -/
theorem fileRestoreFromVersion_snapshot_iff {env : Env} {stamp : ℤ → Str} {path : Str} {snapshotName : Option Str}
    {versionHash : Option H} {size : ℕ}
    (h : fileRestoreFromVersion hs env stamp path snapshotName versionHash e = .ok (name, size) e') (hname : name ≠ []) :
    getSnapshotHash hs e' name = .ok e.head ↔
      ∀ snapshots, listSnapshots e = .ok snapshots → ∀ info ∈ snapshots, info.rootHash ≠ e.head := by
  simp only [fileRestoreFromVersion, estate_bind_eq_ok, query_eq_ok] at h
  obtain ⟨root, e, ⟨-, rfl⟩, found, e, ⟨-, rfl⟩, shown, e₁, hcreate, content, _, ⟨-, rfl⟩, record, e₂, hstore, h⟩ := h
  obtain ⟨heq, rfl⟩ := estate_pure_eq_ok.mp h
  obtain ⟨rfl, rfl⟩ := Prod.mk.inj heq
  rw [getSnapshotHash_storeFileBuffered hstore]
  obtain ⟨enabled, _, henabled, hcreate⟩ := estate_bind_eq_ok.mp hcreate
  obtain ⟨-, rfl⟩ := query_eq_ok.mp henabled
  cases enabled with
  | false => exact absurd (estate_pure_eq_ok.mp hcreate).1.symm hname
  | true =>
    obtain ⟨t, _, hnow, hcreate⟩ := estate_bind_eq_ok.mp hcreate
    obtain ⟨rfl, rfl⟩ := now_eq_ok.mp hnow
    have hresolves := createUnderFreeName_resolves_iff hcreate
    exact hresolves

def preRestore : Str := "pre-restore-".toList

def restoreF (e : Engine Digest) : EStateM.Result EngineError (Engine Digest) (Str × ℕ) :=
  fileRestoreFromVersion hasher plainEnv (fun _ => []) "/f".toList none e.head e

theorem fileRestoreFromVersion_snapshot_rootFile : restoreF rootFile = .ok (preRestore, 1) (final (restoreF rootFile)) ∧
    (getSnapshotHash hasher (final (restoreF rootFile)) preRestore = .ok rootFile.head ↔
      ∀ snapshots, listSnapshots rootFile = .ok snapshots → ∀ info ∈ snapshots, info.rootHash ≠ rootFile.head) :=
  have hrun := eq_ok_of_value (by decide +kernel)
  ⟨hrun, fileRestoreFromVersion_snapshot_iff hrun (by decide)⟩

def savedFile : Engine Digest := final (createSnapshot hasher "s".toList [] rootFile)

theorem fileRestoreFromVersion_snapshot_missing : restoreF savedFile = .ok (preRestore, 1) (final (restoreF savedFile)) ∧
    getSnapshotHash hasher (final (restoreF savedFile)) preRestore = .error (missing "Snapshot" preRestore) :=
  ⟨eq_ok_of_value (by decide +kernel), by decide +kernel⟩

end AeorDb.Version
