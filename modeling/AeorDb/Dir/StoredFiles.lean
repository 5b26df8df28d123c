import AeorDb.Dir.Consistency
import AeorDb.Dir.StoreTotal

/-! Storing a file below consistent directories succeeds, and the file reads back. -/

namespace AeorDb.Dir

open Store BTree Version Library Trace Hasher EngineM Result Grouping Engine

variable {H : Type} {hs : Hasher H} {e e' : Engine H}

structure FileEntry (hs : Hasher H) (k : H) (v : Value H) : Prop where
  chunk : ∀ bytes, k = hs.chunkHash bytes → v = .chunk bytes
  path : ∀ p, k = hs.filePathHash p → ∃ r, v = .file r ∧ ∀ h ∈ r.chunkHashes, ∃ bytes, h = hs.chunkHash bytes
  identity : ∀ p t cs, k = hs.fileIdentityHash p t cs → ∃ r, v = .file r ∧ r.chunkHashes = cs ∧ utf8Len (r.contentType.getD []) ≤ u16Max

def FilesTyped (hs : Hasher H) (e : Engine H) : Prop := e.Sound (FileEntry hs)

inductive FileWrite (hs : Hasher H) (path : Str) : Action H → Prop
  | chunk (bytes : List UInt8) : FileWrite hs path (.store .chunk (hs.chunkHash bytes) (.chunk bytes))
  | content (r : FileRecord H) : FileWrite hs path (.store .fileRecord (hs.fileContentHash r) (.file r))
  | identity (t : Option Str) (r : FileRecord H) : utf8Len (r.contentType.getD []) ≤ u16Max →
      FileWrite hs path (.store .fileRecord (hs.fileIdentityHash path t r.chunkHashes) (.file r))
  | path (r : FileRecord H) : (∀ h ∈ r.chunkHashes, ∃ bytes, h = hs.chunkHash bytes) →
      FileWrite hs path (.store .fileRecord (hs.filePathHash path) (.file r))
  | tick : FileWrite hs path .tick

inductive TreeWrite (hs : Hasher H) : Action H → Prop
  | flat (es : List (ChildEntry H)) : TreeWrite hs (.store .directoryIndex (hs.directoryContentHash (.flat es)) (.dir (.flat es)))
  | node (n : BTreeNode H) : TreeWrite hs (.store .directoryIndex (hs.btreeHash n) (.dir (.node n)))
  | link (path : Str) (t : H) : TreeWrite hs (.store .directoryIndex (hs.directoryPathHash path) (.link t))
  | head (r : Option H) : TreeWrite hs (.updateHead r)
  | tick : TreeWrite hs .tick

variable (hs) in
lemma allowsPublish_treeWrite : AllowsPublish hs (TreeWrite hs) := ⟨⟨.flat, .node⟩, .link, .head, .tick⟩

inductive DeleteWrite (hs : Hasher H) (path : Str) : Action H → Prop
  | tree (a : Action H) : TreeWrite hs a → DeleteWrite hs path a
  | claim (t : ℤ) : DeleteWrite hs path (.claimAutoSnapshot t)
  | snapshot (name : Str) (info : SnapshotInfo H) : DeleteWrite hs path (.store .snapshot (hs.snapshotKey name) (.snapshot info))
  | deletion (t : ℤ) (r : DeletionRecord) : DeleteWrite hs path (.store .deletionRecord (hs.deletionKey path t) (.deletion r))
  | mark : DeleteWrite hs path (.markDeleted (hs.filePathHash path))

structure OffTree (hs : Hasher H) (k : H) : Prop where
  content : NotContent hs k
  path : ∀ p, k ≠ hs.directoryPathHash p

lemma offTree_chunkHash (bytes : List UInt8) : OffTree hs (hs.chunkHash bytes) :=
  ⟨⟨by simp [chunkHash, directoryContentHash], by simp [chunkHash, btreeHash]⟩,
    by simp [chunkHash, directoryPathHash]⟩

lemma offTree_filePathHash (p : Str) : OffTree hs (hs.filePathHash p) :=
  ⟨notContent_text _, by simp [filePathHash, directoryPathHash]⟩

variable [DecidableEq H] {k : H}

lemma get_of_treeWrite (hran : Ran act (TreeWrite hs) e e') (hk : OffTree hs k) : e'.get k = e.get k := by
  refine get_eq_of_ran hran (fun t v h => ?_) (fun h => nomatch h)
  generalize hk' : k = k' at h
  cases h with
  | flat es => exact hk.content.1 es hk'
  | node n => exact hk.content.2 n hk'
  | link path t => exact hk.path path hk'

variable {path : Str} {P : Action H → Prop}

lemma get_of_deleteWrite (hran : Ran act (DeleteWrite hs path) e e') (hk : OffTree hs k)
    (hsnap : ∀ name, k ≠ hs.snapshotKey name) (hdel : ∀ t, k ≠ hs.deletionKey path t) (hfile : k ≠ hs.filePathHash path) :
    e'.get k = e.get k := by
  refine get_eq_of_ran hran (fun t v h => ?_) (fun h => ?_)
  · generalize hk' : k = k' at h
    cases h with
    | tree _ ha =>
      cases ha with
      | flat es => exact hk.content.1 es hk'
      | node n => exact hk.content.2 n hk'
      | link path t => exact hk.path path hk'
    | snapshot name info => exact hsnap name hk'
    | deletion t r => exact hdel t hk'
  · generalize hk' : k = k' at h
    cases h with
    | tree _ ha => cases ha
    | mark => exact hfile hk'

lemma get_chunk_of_deleteWrite (hran : Ran act (DeleteWrite hs path) e e') (bytes : List UInt8) :
    e'.get (hs.chunkHash bytes) = e.get (hs.chunkHash bytes) := by
  refine get_of_deleteWrite hran (offTree_chunkHash bytes) (fun name => ?_) (fun t => ?_) ?_
  · simp [chunkHash, snapshotKey]
  · simp [chunkHash, deletionKey]
  · simp [chunkHash, filePathHash]

lemma get_file_of_deleteWrite {path p : Str} (hran : Ran act (DeleteWrite hs path) e e') (hne : p ≠ path) :
    e'.get (hs.filePathHash p) = e.get (hs.filePathHash p) := by
  refine get_of_deleteWrite hran (offTree_filePathHash p) (fun name => ?_) (fun t => ?_) ?_
  · simp [filePathHash, snapshotKey]
  · simp [filePathHash, deletionKey]
  · simpa [filePathHash] using hne

variable (hs) in
lemma performs_createSnapshot (htick : P .tick)
    (hstore : ∀ name info, P (.store .snapshot (hs.snapshotKey name) (.snapshot info))) (name : Str) (metadata : List (Str × Str)) :
    Performs act P (createSnapshot hs name metadata) := by
  refine .bind (performs_query _) fun _ => .bind (performs_query _) fun _ => .bind (performs_query _) fun _ =>
    .bind (performs_now htick) fun _ => .bind (performs_query _) fun existing => ?_
  split
  · exact .pure _
  · exact .bind (performs_query _) fun info => .bind (performs_perform (hstore name info)) fun _ => .pure _

lemma performs_persistDeletion : Performs act (DeleteWrite hs path) (persistDeletion hs path) :=
  .bind (performs_now (.tree _ .tick)) fun t => performs_perform (.deletion t _)

lemma performs_autoSnapshotBeforeDelete (htick : P .tick) (hclaim : ∀ t, P (.claimAutoSnapshot t))
    (hstore : ∀ name info, P (.store .snapshot (hs.snapshotKey name) (.snapshot info))) (env : Env) :
    Performs act P (autoSnapshotBeforeDelete hs env) := by
  refine .bind (performs_query _) fun enabled => .ite (fun _ => ?_) fun _ => .pure _
  refine .bind (performs_now htick) fun now => .bind (performs_query _) fun last => ?_
  refine .ite (fun _ => .pure _) fun _ => .bind (performs_perform (hclaim now)) fun _ => ?_
  refine .bind (performs_now htick) fun date e => ?_
  have hran := performs_createSnapshot hs htick hstore (env.autoSnapshotName date) [(snapshotTypeKey, snapshotTypeAuto)] e
  cases h : createSnapshot hs (env.autoSnapshotName date) [(snapshotTypeKey, snapshotTypeAuto)] e with
  | ok info s =>
    rw [h] at hran
    exact hran
  | error err s =>
    rw [h] at hran
    exact hran.step (hclaim last)

variable (hs) in
lemma performs_deleteFile (env : Env) (path : Str) :
    Performs act (DeleteWrite hs (normalizePath path)) (deleteFile hs env path) := by
  have hdir := performs_removeFromParentDirectory (allowsPublish_treeWrite hs) (normalizePath path)
  have hrest : Performs act (DeleteWrite hs (normalizePath path)) (do
      persistDeletion hs (normalizePath path)
      perform (.markDeleted (hs.filePathHash (normalizePath path)))
      removeFromParentDirectory hs (normalizePath path)) :=
    .bind performs_persistDeletion fun _ => .bind (performs_perform .mark) fun _ => hdir.mono .tree
  refine .bind (performs_query _) fun _ => .ite (fun _ => hrest) fun _ => ?_
  exact .bind (performs_autoSnapshotBeforeDelete (.tree _ .tick) .claim .snapshot env) fun _ => hrest

section

variable {path : Str}

lemma near_of_fileWrite (hran : Ran act (FileWrite hs path) e e') (n : ℕ) : Near hs e e' n := by
  refine ⟨⟨fun es hes => ?_, fun node hnode => ?_⟩, fun q _ _ => ?_, ?_⟩
  · refine (get_eq_of_ran hran (fun t v h => ?_) (by rintro ⟨⟩)).trans hes
    generalize hk : hs.directoryContentHash (.flat es) = k at h
    cases h <;> simp [directoryContentHash, chunkHash, fileContentHash, fileIdentityHash, filePathHash] at hk
  · refine (get_eq_of_ran hran (fun t v h => ?_) (by rintro ⟨⟩)).trans hnode
    generalize hk : hs.btreeHash node = k at h
    cases h <;> simp [btreeHash, chunkHash, fileContentHash, fileIdentityHash, filePathHash] at hk
  · refine get_eq_of_ran hran (fun t v h => ?_) (by rintro ⟨⟩)
    generalize hk : hs.directoryPathHash (pathOf q) = k at h
    cases h <;> simp [directoryPathHash, chunkHash, fileContentHash, fileIdentityHash, filePathHash] at hk
  · refine hran.invariant (I := fun s => s.head = e.head) (fun s a ha hI => ?_) rfl
    cases ha <;> exact hI

lemma get_chunk_of_fileWrite (hran : Ran act (FileWrite hs path) e e') {bytes : List UInt8}
    (h : e.get (hs.chunkHash bytes) = some (.chunk bytes)) : e'.get (hs.chunkHash bytes) = some (.chunk bytes) := by
  refine get_keep_of_ran hran (fun t v hw => ?_) (fun h => nomatch h) h
  generalize hk : hs.chunkHash bytes = k at hw
  cases hw with
  | chunk bytes' =>
    obtain rfl : bytes = bytes' := by simpa [chunkHash] using hk
    rfl
  | content r => simp [chunkHash, fileContentHash] at hk
  | identity t r _ => simp [chunkHash, fileIdentityHash] at hk
  | path r _ => simp [chunkHash, filePathHash] at hk

lemma storeChunk_spec (path : Str) (ht : FilesTyped hs e) (bytes : List UInt8) :
    ∃ e', storeChunk hs bytes e = .ok (hs.chunkHash bytes) e' ∧ Ran act (FileWrite hs path) e e' ∧
      e'.get (hs.chunkHash bytes) = some (.chunk bytes) := by
  cases hlive : e.hasEntry (hs.chunkHash bytes) with
  | true =>
    obtain ⟨v, hv⟩ := (hasEntry_iff _ _).mp hlive
    obtain rfl := (ht _ v hv).chunk bytes rfl
    refine ⟨e, ?_, .refl, hv⟩
    simp [storeChunk, query, hlive, bind, EStateM.bind, pure, EStateM.pure]
  | false =>
    refine ⟨e.act (.store .chunk (hs.chunkHash bytes) (.chunk bytes)), ?_, .single (.chunk bytes), by simp [act]⟩
    simp [storeChunk, query, perform, hlive, bind, EStateM.bind, pure, EStateM.pure]

variable {t : EntryType} {v : Value H} {r : FileRecord H} {input : PublishInput H} {s : FileRecord H}

omit [DecidableEq H] in
lemma fileEntry_of_fileWrite (h : FileWrite hs path (.store t k v)) : FileEntry hs k v := by
  cases h with
  | chunk bytes =>
    refine ⟨fun b hb => ?_, fun p hp => ?_, fun p t cs hp => ?_⟩
    · simp_all [chunkHash]
    · simp [chunkHash, filePathHash] at hp
    · simp [chunkHash, fileIdentityHash] at hp
  | content r =>
    refine ⟨fun b hb => ?_, fun p hp => ?_, fun p t cs hp => ?_⟩
    · simp [fileContentHash, chunkHash] at hb
    · simp [fileContentHash, filePathHash] at hp
    · simp [fileContentHash, fileIdentityHash] at hp
  | identity t r htype =>
    refine ⟨fun b hb => ?_, fun p hp => ?_, fun p t cs hp => ⟨r, rfl, ?_, htype⟩⟩
    · simp [fileIdentityHash, chunkHash] at hb
    · simp [fileIdentityHash, filePathHash] at hp
    · simp only [fileIdentityHash, compute_inj, Preimage.fileIdentity.injEq] at hp
      exact hp.2
  | path r hchunks =>
    refine ⟨fun b hb => ?_, fun p _ => ⟨r, rfl, hchunks⟩, fun p t cs hp => ?_⟩
    · simp [filePathHash, chunkHash] at hb
    · simp [filePathHash, fileIdentityHash] at hp

omit [DecidableEq H] in
lemma fileEntry_of_treeWrite (h : TreeWrite hs (.store t k v)) : FileEntry hs k v := by
  refine ⟨fun b hb => ?_, fun p hp => ?_, fun p t cs hp => ?_⟩
  · cases h <;> simp [chunkHash, directoryContentHash, btreeHash, directoryPathHash] at hb
  · cases h <;> simp [filePathHash, directoryContentHash, btreeHash, directoryPathHash] at hp
  · cases h <;> simp [fileIdentityHash, directoryContentHash, btreeHash, directoryPathHash] at hp

lemma FilesTyped.of_fileWrite (ht : FilesTyped hs e) (hran : Ran act (FileWrite hs path) e e') : FilesTyped hs e' :=
  Engine.Sound.of_ran hran (fun _ _ _ h => fileEntry_of_fileWrite h) ht

lemma storeChunks_spec (path : Str) (ht : FilesTyped hs e) (blocks : List (List UInt8)) :
    ∃ e', storeChunks hs blocks e = .ok (blocks.map hs.chunkHash) e' ∧ Ran act (FileWrite hs path) e e' ∧
      ∀ b ∈ blocks, e'.get (hs.chunkHash b) = some (.chunk b) := by
  induction blocks generalizing e with
  | nil => exact ⟨e, rfl, .refl, by simp⟩
  | cons b blocks ih =>
    obtain ⟨e₁, hb, hran₁, hlive⟩ := storeChunk_spec path ht b
    obtain ⟨e₂, hrest, hran₂, hall⟩ := ih (ht.of_fileWrite hran₁)
    refine ⟨e₂, ?_, hran₁.trans hran₂, List.forall_mem_cons.mpr ⟨get_chunk_of_fileWrite hran₂ hlive, hall⟩⟩
    rw [storeChunks, estate_bind_of_ok hb, estate_bind_of_ok hrest]
    rfl

lemma getD_storedContentType (t : Option Str) : (storedContentType t).getD [] = t.getD [] := by
  rcases t with _ | _ | ⟨c, t⟩ <;> simp [storedContentType, Option.filter]

omit [DecidableEq H] in
lemma serialize_file (hpath : utf8Len r.path ≤ u16Max) (htype : utf8Len (r.contentType.getD []) ≤ u16Max)
    (hmeta : r.metadata = []) (hchunks : r.chunkHashes.length ≤ u32Max) :
    r.serialize = .ok { r with contentType := storedContentType r.contentType } := by
  simp [FileRecord.serialize, hpath.not_gt, htype.not_gt, hmeta, hchunks.not_gt]

structure Fits (hs : Hasher H) (input : PublishInput H) (path : Str) : Prop where
  normalized : normalizePath input.path = path
  path_fits : utf8Len path ≤ u16Max
  type_fits : utf8Len (input.contentType.getD []) ≤ u16Max
  count_fits : input.chunkHashes.length ≤ u32Max
  chunks : ∀ h ∈ input.chunkHashes, ∃ bytes, h = hs.chunkHash bytes

omit [DecidableEq H] in
lemma serialize_eq_ok (hser : r.serialize = .ok s) :
    s = { r with contentType := storedContentType r.contentType } ∧ utf8Len (r.contentType.getD []) ≤ u16Max := by
  unfold FileRecord.serialize at hser
  split_ifs at hser with _ htype
  exact ⟨(Except.ok.inj hser).symm, not_lt.mp htype⟩

variable (e path) in
lemma materializeFileRecord_of_serialize (hser : r.serialize = .ok s)
    (hchunks : ∀ h ∈ r.chunkHashes, ∃ bytes, h = hs.chunkHash bytes) :
    ∃ e', materializeFileRecord hs path r e = .ok (hs.fileIdentityHash path r.contentType r.chunkHashes) e' ∧
      Ran act (FileWrite hs path) e e' ∧ e'.get (hs.filePathHash path) = some (.file s) := by
  obtain ⟨hs', htype⟩ := serialize_eq_ok hser
  have hcs : s.chunkHashes = r.chunkHashes := by rw [hs']
  have hstored : utf8Len (s.contentType.getD []) ≤ u16Max := by rwa [hs', getD_storedContentType]
  have hidentity : FileWrite hs path (.store .fileRecord (hs.fileIdentityHash path r.contentType r.chunkHashes) (.file s)) :=
    hcs ▸ .identity r.contentType s hstored
  refine ⟨_, estate_bind_eq_ok.mpr ⟨_, _, query_eq_ok.mpr ⟨hser, rfl⟩, rfl⟩, ?_, by simp [act]⟩
  exact ((Ran.single (.content s)).step hidentity).step (.path s (hcs ▸ hchunks))

variable (e) in
lemma materializeFileRecord_spec (hfit : Fits hs input path) (hpath : r.path = path)
    (htype : r.contentType = input.contentType) (hmeta : r.metadata = []) (hchunks : r.chunkHashes = input.chunkHashes) :
    ∃ e' s, materializeFileRecord hs path r e = .ok (hs.fileIdentityHash path r.contentType r.chunkHashes) e' ∧
      Ran act (FileWrite hs path) e e' ∧ e'.get (hs.filePathHash path) = some (.file s) ∧ s.chunkHashes = input.chunkHashes := by
  have hser := serialize_file (hpath ▸ hfit.path_fits) (htype ▸ hfit.type_fits) hmeta (hchunks ▸ hfit.count_fits)
  obtain ⟨e', hmat, hran, hget⟩ := materializeFileRecord_of_serialize e path hser (hchunks ▸ hfit.chunks)
  exact ⟨e', _, hmat, hran, hget, hchunks⟩

structure PublishedAt (hs : Hasher H) (e : Engine H) (path : Str) (input : PublishInput H) (published : Published H) : Prop where
  path_eq : published.path = path
  name_eq : published.child.name = (fileName path).getD []
  type_eq : published.child.contentType = input.contentType
  kind_eq : published.child.entryType = .fileRecord
  record : ∃ r, e.get (hs.filePathHash path) = some (.file r) ∧ r.chunkHashes = input.chunkHashes

lemma publishFileRecord_spec (ht : FilesTyped hs e) (hfit : Fits hs input path) :
    ∃ published e', publishFileRecord hs input e = .ok published e' ∧ Ran act (FileWrite hs path) e e' ∧
      PublishedAt hs e' path input published := by
  obtain ⟨existing, hlookup⟩ : ∃ existing, lookupRecord e (hs.filePathHash path) fileOf = .ok existing := by
    cases hget : e.get (hs.filePathHash path) with
    | none => exact ⟨none, by simp [lookupRecord, hget]⟩
    | some v =>
      obtain ⟨r, rfl, _⟩ := (ht _ v hget).path path rfl
      exact ⟨some r, by simp [lookupRecord, hget, fileOf, Except.map]⟩
  simp only [publishFileRecord, hfit.normalized]
  rw [estate_bind_of_ok (query_eq_ok.mpr ⟨hlookup, rfl⟩), estate_bind_of_ok (now_eq_ok.mpr ⟨rfl, rfl⟩)]
  obtain ⟨e₁, s, hmat, hran, hget, hchunks⟩ := materializeFileRecord_spec e.tick hfit
    (r := ⟨path, input.contentType, input.totalSize, _, e.now, [], input.contentHash, input.chunkHashes⟩) rfl rfl rfl rfl
  rw [estate_bind_of_ok hmat, estate_bind_of_ok (now_eq_ok.mpr ⟨rfl, rfl⟩)]
  have htick : ∀ s : Engine H, Ran act (FileWrite hs path) s s.tick := fun s => Ran.single FileWrite.tick
  exact ⟨_, _, rfl, ((htick e).trans hran).trans (htick e₁), rfl, rfl, rfl, rfl, s, hget, hchunks⟩

end

variable (hs) in
lemma filesTyped_rootOnly (clock : ℕ → ℤ) : FilesTyped hs (rootOnly hs clock) := by
  intro k v hv
  rw [get_rootOnly] at hv
  split_ifs at hv with hk
  refine ⟨fun b hb => ?_, fun p hp => ?_, fun p t cs hp => ?_⟩
  all_goals rcases hk with rfl | rfl
  · simp [directoryContentHash, chunkHash] at hb
  · simp [directoryPathHash, chunkHash] at hb
  · simp [directoryContentHash, filePathHash] at hp
  · simp [directoryPathHash, filePathHash] at hp
  · simp [directoryContentHash, fileIdentityHash] at hp
  · simp [directoryPathHash, fileIdentityHash] at hp

def Env.Sane (env : Env) : Prop :=
  ∀ data contentType, utf8Len (contentType.getD []) ≤ u16Max → utf8Len (env.detectContentType data contentType) ≤ u16Max

variable {env : Env} {segments : List Str} {data : List UInt8} {contentType : Option Str}

lemma length_groups_le (hdata : data.length ≤ u32Max * defaultChunkSize) : (groups defaultChunkSize data).length ≤ u32Max := by
  rw [length_groups, defaultChunkSize] at *
  omega

lemma flatten_blocks (data : List UInt8) : (groups defaultChunkSize data).flatten = data := by
  cases data with
  | nil => rfl
  | cons b data => exact flatten_groups (by decide) _ (by simp)

omit [DecidableEq H] in
lemma collectChunks_eq {blocks : List (List UInt8)} (h : ∀ b ∈ blocks, e.get (hs.chunkHash b) = some (.chunk b)) :
    collectChunks e (blocks.map hs.chunkHash) = .ok blocks.flatten := by
  refine map_eq_ok.mpr ⟨blocks, mapM_eq_ok.mpr ?_, rfl⟩
  rw [List.forall₂_map_left_iff, List.forall₂_same]
  intro b hb
  simp [fetchChunk, h b hb, chunkOf]

structure StoredAt (hs : Hasher H) (e e' : Engine H) (segments : List Str) (data : List UInt8) : Prop where
  publication : ∃ c, Publication hs e e' segments c
  typed : FilesTyped hs e'
  record : ∃ r, e'.get (hs.filePathHash (pathOf segments)) = some (.file r) ∧
    r.chunkHashes = (groups defaultChunkSize data).map hs.chunkHash
  blocks : ∀ b ∈ groups defaultChunkSize data, e'.get (hs.chunkHash b) = some (.chunk b)

omit [DecidableEq H] in
lemma StoredAt.read {e'' : Engine H} (h : StoredAt hs e e' segments data) (hs' : Clean segments)
    (hfile : e''.get (hs.filePathHash (pathOf segments)) = e'.get (hs.filePathHash (pathOf segments)))
    (hchunk : ∀ b, e''.get (hs.chunkHash b) = e'.get (hs.chunkHash b)) : readFileBuffered hs e'' (pathOf segments) = .ok data := by
  obtain ⟨r, hr, hcs⟩ := h.record
  have hrequire : requireRecord e'' (hs.filePathHash (pathOf segments)) fileOf (pathOf segments) = .ok r := by
    simp [requireRecord, lookupRecord, hfile, hr, fileOf, Except.map, bind, Except.bind]
  rw [readFileBuffered, normalizePath_pathOf hs', hrequire]
  change collectChunks e'' r.chunkHashes = .ok data
  rw [hcs, collectChunks_eq fun b hb => (hchunk b).trans (h.blocks b hb), flatten_blocks]

lemma storeFileBuffered_total (hc : Consistent hs e) (hroom : Roomy hs e) (ht : FilesTyped hs e) (hp : Publishable segments)
    (hpath : utf8Len (pathOf segments) ≤ u16Max) (henv : env.Sane) (htype : utf8Len (contentType.getD []) ≤ u16Max)
    (hdata : data.length ≤ u32Max * defaultChunkSize) :
    ∃ r e', storeFileBuffered hs env (pathOf segments) data contentType e = .ok r e' ∧ StoredAt hs e e' segments data := by
  have hnorm : normalizePath (pathOf segments) = pathOf segments := normalizePath_pathOf hp.clean
  obtain ⟨e₁, hchunks, hran₁, hlive⟩ := storeChunks_spec (pathOf segments) ht (groups defaultChunkSize data)
  have hfit : Fits hs ⟨pathOf segments, some (env.detectContentType data contentType), data.length,
      (groups defaultChunkSize data).map hs.chunkHash, hs.compute (.whole data), none⟩ (pathOf segments) := by
    refine ⟨hnorm, hpath, henv data contentType htype, by simpa using length_groups_le hdata, fun h hh => ?_⟩
    obtain ⟨b, _, rfl⟩ := List.mem_map.mp hh
    exact ⟨b, rfl⟩
  obtain ⟨published, e₂, hpub, hran₂, hat⟩ := publishFileRecord_spec (ht.of_fileWrite hran₁) hfit
  have hran := hran₁.trans hran₂
  have hnear := near_of_fileWrite hran segments.length
  obtain rfl | ⟨pre, name, rfl⟩ := List.eq_nil_or_concat' segments
  · exact absurd rfl hp.ne
  obtain ⟨hpre, hname⟩ := clean_append.mp hp.clean
  have hchild : published.child.name = name := by rw [hat.name_eq, fileName_append hpre hname]; rfl
  have hw : Writable published.child :=
    ⟨by rw [hchild]; exact hp.fits name (by simp), by rw [hat.type_eq]; exact hfit.type_fits⟩
  obtain ⟨e₃, hparents⟩ := updateParentDirectories_total hc hroom hnear hp hw
  have htree := (performs_updateParentDirectories (allowsPublish_treeWrite hs) _ _).ok hparents
  have hout := updateParentsFrom_spec hc hroom hnear hp.clean hp.ne (batchOk_nil _) hparents
  refine ⟨published.record, e₃, ?_, ⟨published.child, ?_⟩, ?_, ?_, fun b hb => ?_⟩
  · have hroot : pathOf (pre ++ [name]) ≠ ['/'] := pathOf_ne_root hp.clean hp.ne
    simp only [storeFileBuffered, hnorm, if_neg hroot]
    rw [estate_bind_of_ok hchunks, estate_bind_of_ok hpub, hat.path_eq, estate_bind_of_ok hparents]
    rfl
  · have hframe : ∀ q, Clean q → (q <+: pre ++ [name] → q = pre ++ [name]) →
        e₃.get (hs.directoryPathHash (pathOf q)) = e.get (hs.directoryPathHash (pathOf q)) := by
      intro q hq hoff
      refine (hout.frame _ (notContent_directoryPathHash _) (by simp) fun q' hpre' hne heq => ?_).trans
        ((near_of_fileWrite hran (q.length + 1)).keys q hq (Nat.lt_succ_self _))
      obtain rfl : q = q' := pathOf_inj hq (fun s hs => hp.clean s (hpre'.subset hs)) (directoryPathHash_inj.mp heq)
      exact hne (hoff hpre')
    exact ⟨hnear.content.trans hout.grows, fun q hq hnot => hframe q hq fun h => absurd h hnot, hout.propagated, ⟨pre, by rw [hchild]⟩,
      hp.clean, Or.inl ⟨hframe _ hp.clean fun _ => rfl, by rw [hat.kind_eq]; decide⟩⟩
  · exact Engine.Sound.of_ran htree (fun _ _ _ h => fileEntry_of_treeWrite h) ((ht.of_fileWrite hran₁).of_fileWrite hran₂)
  · obtain ⟨r, hr, hcs⟩ := hat.record
    exact ⟨r, (get_of_treeWrite htree (offTree_filePathHash _)).trans hr, hcs⟩
  · exact (get_of_treeWrite htree (offTree_chunkHash b)).trans (get_chunk_of_fileWrite hran₂ (hlive b hb))

end AeorDb.Dir
