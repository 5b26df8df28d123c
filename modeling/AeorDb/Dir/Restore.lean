import AeorDb.Dir.CreateSafe
import AeorDb.Dir.StoredFiles
import AeorDb.Wal.ExpansionSafe

/-! Bringing back a deleted file. The record is found through the index entry that its deletion flagged, so a
file can be restored for as long as every growth of the index carried that entry over. -/

namespace AeorDb.Store

variable {H : Type}

/-- The index is moved into a larger array: entries flagged as deleted are not moved, except those that
the flush still held in its buffer. -/
def Engine.grow (e : Engine H) (kept : H → Bool) : Engine H :=
  { e with
    index := fun h => (e.index h).filter fun i => !i.deleted || kept h
    indexed := fun h i hi => e.indexed h i (Option.filter_eq_some_iff.mp hi).1 }

namespace Engine

@[simp] lemma get_grow (e : Engine H) (kept : H → Bool) (k : H) : (e.grow kept).get k = e.get k := by
  simp only [get, getEntry, grow]
  rcases e.index k with _ | i
  · rfl
  · cases hd : i.deleted <;> cases kept k <;> simp [Option.filter, hd]

variable {k : H} {kept : H → Bool} {a : Action H}

lemma getRaw_grow_of_kept (e : Engine H) (hk : kept k = true) : (e.grow kept).getRaw k = e.getRaw k := by
  simp only [getRaw, grow, hk]
  cases e.index k <;> simp [Option.filter]

variable {e : Engine H}

lemma getRaw_grow_of_deleted (hget : e.get k = none) (hk : kept k = false) : (e.grow kept).getRaw k = none := by
  simp only [getRaw, grow, hk]
  rcases hi : e.index k with _ | i
  · rfl
  · obtain ⟨r, hr, _⟩ := e.indexed k i hi
    cases hd : i.deleted with
    | true => simp [Option.filter, hd]
    | false => simp [get, getEntry, hi, hd, hr] at hget

lemma getRaw_grow_none (kept : H → Bool) (hraw : e.getRaw k = none) : (e.grow kept).getRaw k = none := by
  cases hk : kept k with
  | true => rw [getRaw_grow_of_kept e hk, hraw]
  | false =>
    refine getRaw_grow_of_deleted ?_ hk
    rw [getRaw, Option.bind_eq_none_iff] at hraw
    rw [get, getEntry, Option.map_eq_none_iff, Option.bind_eq_none_iff]
    intro i hi
    split_ifs
    · rfl
    · exact hraw i hi

variable [DecidableEq H]

lemma getRaw_act (ha : ∀ t v, a ≠ .store t k v) : (e.act a).getRaw k = e.getRaw k := by
  cases a with
  | store t k' v =>
    have hne : k ≠ k' := fun heq => ha t v (heq ▸ rfl)
    simp only [act, storeEntry, getRaw, Function.update_of_ne hne]
    rcases hi : e.index k with _ | i
    · rfl
    · obtain ⟨r, hr, _⟩ := e.indexed k i hi
      exact List.getElem?_append_left (List.getElem?_eq_some_iff.mp hr).1
  | markDeleted k' =>
    by_cases hk : k = k'
    · subst hk
      simp only [act, markDeleted, getRaw, Function.update_self]
      cases e.index k <;> rfl
    · simp only [act, markDeleted, getRaw, Function.update_of_ne hk]
  | updateHead r => rfl
  | claimAutoSnapshot t => rfl
  | tick => rfl

lemma getRaw_eq_of_ran {P : Action H → Prop} {e e' : Engine H} (hran : Library.Trace.Ran act P e e')
    (hs : ∀ t v, ¬ P (.store t k v)) : e'.getRaw k = e.getRaw k := by
  refine hran.invariant (I := fun s => s.getRaw k = e.getRaw k) (fun s a ha hI => ?_) rfl
  exact (getRaw_act fun t v heq => hs t v (heq ▸ ha)).trans hI

lemma get_act_none (ha : ∀ t v, a ≠ .store t k v) (hget : e.get k = none) : (e.act a).get k = none := by
  cases a with
  | store t k' v =>
    have hne : k ≠ k' := fun heq => ha t v (heq ▸ rfl)
    rw [act, get_storeEntry, if_neg hne, hget]
  | markDeleted k' => rw [act, get_markDeleted, hget, ite_self]
  | updateHead r => exact hget
  | claimAutoSnapshot t => exact hget
  | tick => exact hget

structure Tombstone (e : Engine H) (k : H) (v : Value H) : Prop where
  hidden : e.get k = none
  recorded : (e.getRaw k).map LogEntry.value = some v

omit [DecidableEq H] in
lemma getRaw_of_get {v : Value H} (h : e.get k = some v) : (e.getRaw k).map LogEntry.value = some v := by
  obtain ⟨r, hr, rfl⟩ := Option.map_eq_some_iff.mp h
  obtain ⟨i, hi, hr⟩ := Option.bind_eq_some_iff.mp hr
  split_ifs at hr
  simp [getRaw, hi, hr]

end Engine

open Index Wal

variable [DecidableEq H] (layout : Layout H)

def Indexes (s : DiskKVStore H) (e : Engine H) : Prop :=
  ∀ h, (e.index h).map IndexEntry.deleted = (s.lookup layout h).map KVEntry.isDeleted

variable {e : Engine H}

lemma Indexes.grow {s s' : DiskKVStore H} {kept : H → Bool} (hi : Indexes layout s e)
    (hl : ∀ h, (s'.lookup layout h).map KVEntry.isDeleted =
      ((s.lookup layout h).filter fun x => !x.isDeleted || kept h).map KVEntry.isDeleted) : Indexes layout s' (e.grow kept) := by
  intro h
  have hcomm : ∀ {α : Type} (o : Option α) (f : α → Bool), (o.filter fun x => !f x || kept h).map f = (o.map f).filter fun b => !b || kept h :=
    fun o f => by
      cases o with
      | none => rfl
      | some x => cases hf : f x <;> cases kept h <;> simp [Option.filter, hf]
  rw [hl, hcomm, ← hi h]
  exact hcomm _ _

lemma indexes_flush {s s' : DiskKVStore H} {e : Engine H} {fuel : ℕ} {T : Finset H} (hs : s.Placed layout) (hgrow : s.CanGrow layout T)
    (hsub : s.hashes ⊆ T) (hok : s.flushFrom layout fuel = .ok () s') (hi : Indexes layout s e) :
    ∃ kept, Indexes layout s' (e.grow kept) := by
  obtain ⟨_, kept, hl⟩ := DiskKVStore.flushFrom_lookup layout hs hgrow hsub hok
  exact ⟨kept, hi.grow layout fun h => by rw [hl h]⟩

lemma indexes_finalizeExpansion {s : DiskKVStore H} (hs : s.Placed layout) {targetStage : ℕ}
    (hroom : DiskKVStore.Roomy layout (stageParams targetStage (pageSize layout.hashLength)).2 (liveHashes layout s))
    (oldKvEnd relocationEnd : ℕ) (offsetDelta : ℤ) (newHotTail : ℕ) (hi : Indexes layout s e) :
    Indexes layout (finalizeExpansion layout s targetStage oldKvEnd relocationEnd offsetDelta newHotTail) (e.grow fun _ => false) := by
  refine hi.grow layout fun h => ?_
  rw [finalizeExpansion_lookup layout oldKvEnd relocationEnd offsetDelta hs hroom, DiskKVStore.get_eq_lookup, Option.map_map]
  simp only [Bool.or_false]
  congr 1
  ext x
  exact isDeleted_adjustOffset oldKvEnd relocationEnd offsetDelta x

end AeorDb.Store

namespace AeorDb.Dir

open Store BTree Version Library Trace

variable {H : Type} (hs : Hasher H)

def deletedRecord (e : Engine H) (path : Str) : EngineResult (FileRecord H) :=
  match e.getRaw (hs.filePathHash path) with
  | none => .error (.notFound ("No record found for deleted file: " ++ String.ofList path))
  | some entry => fileOf entry.value

def restoreDeletedFile [DecidableEq H] (path : Str) : EngineM H Unit := do
  let normalized := normalizePath path
  let record ← EngineM.query fun e => deletedRecord hs e normalized
  let identityKey ← materializeFileRecord hs normalized record
  let now ← EngineM.now
  updateParentDirectories hs normalized { fileChild normalized record identityKey now with updatedAt := now, virtualTime := 0 }

structure Spares (path : Str) (a : Action H) : Prop where
  file : ∀ t v, a ≠ .store t (hs.filePathHash path) v
  typed : ∀ t bytes v, a = .store t (hs.chunkHash bytes) v → v = .chunk bytes
  chunk : ∀ bytes, a ≠ .markDeleted (hs.chunkHash bytes)

inductive Later [DecidableEq H] (path : Str) : List (H → Bool) → Engine H → Engine H → Prop
  | refl (e : Engine H) : Later path [] e e
  | act {growths : List (H → Bool)} {e e' : Engine H} {a : Action H} (h : Later path growths e e') (ha : Spares hs path a) :
      Later path growths e (e'.act a)
  | grow {growths : List (H → Bool)} {e e' : Engine H} (h : Later path growths e e') (kept : H → Bool) :
      Later path (kept :: growths) e (e'.grow kept)

variable {hs} {e e' e₁ e₂ : Engine H} {path : Str} {segments : List Str} {env : Env} {data : List UInt8} {growths : List (H → Bool)}
  {r : FileRecord H} {bytes : List UInt8} {v : Value H} {blocks : List (List UInt8)}

lemma requireRecord_eq_ok {k : H} : requireRecord e k fileOf path = .ok r ↔ e.get k = some (.file r) := by
  simp only [requireRecord, lookupRecord]
  cases hget : e.get k with
  | none => simp [bind, Except.bind]
  | some v =>
    cases v <;> simp [fileOf, Except.map, bind, Except.bind]

lemma readFileBuffered_eq_ok : readFileBuffered hs e path = .ok data ↔
    ∃ r, e.get (hs.filePathHash (normalizePath path)) = some (.file r) ∧ collectChunks e r.chunkHashes = .ok data := by
  rw [readFileBuffered, Result.bind_eq_ok]
  simp only [requireRecord_eq_ok]

lemma fetchChunk_eq_ok {h : H} : fetchChunk e h = .ok bytes ↔ e.get h = some (.chunk bytes) := by
  rw [fetchChunk]
  cases e.get h with
  | none => simp
  | some v => cases v <;> simp [chunkOf]

variable [DecidableEq H]

lemma Later.get_chunk (hl : Later hs path growths e e') (hget : e.get (hs.chunkHash bytes) = some (.chunk bytes)) :
    e'.get (hs.chunkHash bytes) = some (.chunk bytes) := by
  induction hl with
  | refl e => exact hget
  | act h ha ih =>
    refine Engine.get_keep_of_ran (Ran.single ha) (fun t w hw => ?_) (fun hm => ?_) (ih hget)
    · exact hw.typed t bytes w rfl
    · exact hm.chunk bytes rfl
  | grow h kept ih => rw [Engine.get_grow, ih hget]

lemma Later.tombstone (hl : Later hs path growths e e') (ht : e.Tombstone (hs.filePathHash path) v) :
    (∀ kept ∈ growths, kept (hs.filePathHash path) = true) ∧ e'.Tombstone (hs.filePathHash path) v ∨
    (∃ kept ∈ growths, kept (hs.filePathHash path) = false) ∧ e'.getRaw (hs.filePathHash path) = none := by
  induction hl with
  | refl e => exact .inl ⟨by simp, ht⟩
  | act h ha ih =>
    obtain ⟨hall, htomb⟩ | ⟨hsome, hnone⟩ := ih ht
    · refine .inl ⟨hall, Engine.get_act_none ha.file htomb.hidden, ?_⟩
      rw [Engine.getRaw_act ha.file, htomb.recorded]
    · exact .inr ⟨hsome, (Engine.getRaw_act ha.file).trans hnone⟩
  | grow h kept ih =>
    obtain ⟨hall, htomb⟩ | ⟨⟨kept', hmem, hlost⟩, hnone⟩ := ih ht
    · cases hk : kept (hs.filePathHash path) with
      | true =>
        refine .inl ⟨List.forall_mem_cons.mpr ⟨hk, hall⟩, (Engine.get_grow _ _ _).trans htomb.hidden, ?_⟩
        rw [Engine.getRaw_grow_of_kept _ hk, htomb.recorded]
      | false => exact .inr ⟨⟨kept, by simp, hk⟩, Engine.getRaw_grow_of_deleted htomb.hidden hk⟩
    · exact .inr ⟨⟨kept', List.mem_cons_of_mem _ hmem, hlost⟩, Engine.getRaw_grow_none kept hnone⟩

omit [DecidableEq H] in
lemma not_deleteWrite_file {t : EntryType} : ¬ DeleteWrite hs path (.store t (hs.filePathHash path) v) := by
  intro h
  generalize hk : hs.filePathHash path = k at h
  cases h with
  | tree _ ha =>
    cases ha with
    | flat es => simp [Hasher.filePathHash, Hasher.directoryContentHash] at hk
    | node n => simp [Hasher.filePathHash, Hasher.btreeHash] at hk
    | link path t => simp [Hasher.filePathHash, Hasher.directoryPathHash] at hk
  | snapshot name info => simp [Hasher.filePathHash, Hasher.snapshotKey] at hk
  | deletion t r => simp [Hasher.filePathHash, Hasher.deletionKey] at hk

lemma deleteFile_hides (hok : deleteFile hs env path e = .ok () e') : e'.get (hs.filePathHash (normalizePath path)) = none := by
  have hmark : ∀ {s s' : Engine H}, (do
      persistDeletion hs (normalizePath path)
      EngineM.perform (.markDeleted (hs.filePathHash (normalizePath path)))
      removeFromParentDirectory hs (normalizePath path) : EngineM H Unit) s = .ok () s' →
      s'.get (hs.filePathHash (normalizePath path)) = none := by
    intro s s' h
    obtain ⟨_, s₁, _, h⟩ := Result.estate_bind_eq_ok.mp h
    obtain ⟨_, s₂, hperform, h⟩ := Result.estate_bind_eq_ok.mp h
    have htree := (performs_removeFromParentDirectory (allowsPublish_treeWrite hs) _).ok h
    rw [get_of_treeWrite htree (offTree_filePathHash _), EngineM.perform_eq_ok.mp hperform]
    simp [Engine.act]
  obtain ⟨_, s, _, hok⟩ := Result.estate_bind_eq_ok.mp hok
  split_ifs at hok
  · exact hmark hok
  · obtain ⟨_, _, _, hok⟩ := Result.estate_bind_eq_ok.mp hok
    exact hmark hok

lemma deleteFile_tombstone (hok : deleteFile hs env path e = .ok () e')
    (hget : e.get (hs.filePathHash (normalizePath path)) = some v) : e'.Tombstone (hs.filePathHash (normalizePath path)) v := by
  refine ⟨deleteFile_hides hok, ?_⟩
  rw [Engine.getRaw_eq_of_ran ((performs_deleteFile hs env path).ok hok) fun _ _ => not_deleteWrite_file]
  exact Engine.getRaw_of_get hget

lemma restoreDeletedFile_total (hc : Consistent hs e) (hroom : Roomy hs e) (hp : Publishable segments)
    (hnorm : normalizePath path = pathOf segments) (htomb : e.Tombstone (hs.filePathHash (pathOf segments)) (.file r))
    (hser : r.serialize = .ok r) (hblocks : r.chunkHashes = blocks.map hs.chunkHash)
    (hlive : ∀ b ∈ blocks, e.get (hs.chunkHash b) = some (.chunk b)) :
    ∃ e', restoreDeletedFile hs path e = .ok () e' ∧ readFileBuffered hs e' path = .ok blocks.flatten := by
  obtain ⟨entry, hentry, hvalue⟩ := Option.map_eq_some_iff.mp htomb.recorded
  have hrecord : deletedRecord hs e (pathOf segments) = .ok r := by simp [deletedRecord, hentry, hvalue, fileOf]
  have hchunks : ∀ h ∈ r.chunkHashes, ∃ bytes, h = hs.chunkHash bytes := by
    rw [hblocks]
    intro h hh
    obtain ⟨b, _, rfl⟩ := List.mem_map.mp hh
    exact ⟨b, rfl⟩
  obtain ⟨e₁, hmat, hran, hget⟩ := materializeFileRecord_of_serialize e (pathOf segments) hser hchunks
  have hran' := hran.step FileWrite.tick
  obtain rfl | ⟨pre, name, rfl⟩ := List.eq_nil_or_concat' segments
  · exact absurd rfl hp.ne
  obtain ⟨hpre, hname⟩ := clean_append.mp hp.clean
  have hw : Writable { fileChild (pathOf (pre ++ [name])) r (hs.fileIdentityHash (pathOf (pre ++ [name])) r.contentType r.chunkHashes)
      e₁.now with updatedAt := e₁.now, virtualTime := 0 } := by
    refine ⟨?_, (serialize_eq_ok hser).2⟩
    change utf8Len ((fileName (pathOf (pre ++ [name]))).getD []) ≤ u16Max
    rw [fileName_append hpre hname]
    exact hp.fits name (by simp)
  obtain ⟨e₂, hparents⟩ := updateParentDirectories_total hc hroom (near_of_fileWrite hran' _) hp hw
  have htree := (performs_updateParentDirectories (allowsPublish_treeWrite hs) _ _).ok hparents
  refine ⟨e₂, ?_, readFileBuffered_eq_ok.mpr ⟨r, ?_, ?_⟩⟩
  · simp only [restoreDeletedFile, hnorm]
    rw [Result.estate_bind_of_ok (EngineM.query_eq_ok.mpr ⟨hrecord, rfl⟩), Result.estate_bind_of_ok hmat,
      Result.estate_bind_of_ok (EngineM.now_eq_ok.mpr ⟨rfl, rfl⟩)]
    exact hparents
  · rw [hnorm, get_of_treeWrite htree (offTree_filePathHash _)]
    exact hget
  · rw [hblocks]
    refine collectChunks_eq fun b hb => ?_
    rw [get_of_treeWrite htree (offTree_chunkHash b)]
    exact get_chunk_of_fileWrite hran' (hlive b hb)

lemma restoreDeletedFile_missing (hnone : e.getRaw (hs.filePathHash (normalizePath path)) = none) : restoreDeletedFile hs path e =
      .error (.notFound ("No record found for deleted file: " ++ String.ofList (normalizePath path))) e := by
  simp only [restoreDeletedFile, deletedRecord, EngineM.query, bind, EStateM.bind, hnone]

omit [DecidableEq H] in
lemma blocks_of_fetched (ht : FilesTyped hs e) {hashes : List H}
    (hall : List.Forall₂ (fun h b => fetchChunk e h = .ok b) hashes blocks) (hchunks : ∀ h ∈ hashes, ∃ bytes, h = hs.chunkHash bytes) :
    hashes = blocks.map hs.chunkHash ∧ ∀ b ∈ blocks, e.get (hs.chunkHash b) = some (.chunk b) := by
  induction hall with
  | nil => simp
  | cons hfetch _ ih =>
    obtain ⟨⟨bytes, rfl⟩, hrest⟩ := List.forall_mem_cons.mp hchunks
    obtain ⟨rfl, hlive⟩ := ih hrest
    have hget := fetchChunk_eq_ok.mp hfetch
    cases (ht _ _ hget).chunk bytes rfl
    exact ⟨rfl, List.forall_mem_cons.mpr ⟨hget, hlive⟩⟩

omit [DecidableEq H] in
lemma blocks_of_read (ht : FilesTyped hs e) (hget : e.get (hs.filePathHash path) = some (.file r))
    (hread : collectChunks e r.chunkHashes = .ok data) : ∃ blocks : List (List UInt8), r.chunkHashes = blocks.map hs.chunkHash ∧
      (∀ b ∈ blocks, e.get (hs.chunkHash b) = some (.chunk b)) ∧ blocks.flatten = data := by
  obtain ⟨blocks, hblocks, hflatten⟩ := Result.map_eq_ok.mp hread
  obtain ⟨r', hr', hchunks⟩ := (ht _ _ hget).path path rfl
  cases hr'
  obtain ⟨hmap, hlive⟩ := blocks_of_fetched ht (Result.mapM_eq_ok.mp hblocks) hchunks
  exact ⟨blocks, hmap, hlive, hflatten⟩

def rootFile : Engine Digest := final (storeFileBuffered Digest.hasher plainEnv "/f".toList [7] none start)

def rootFileDeleted : Engine Digest := final (deleteFile Digest.hasher plainEnv "/f".toList rootFile)

def isDirectoryKey : Digest → Bool
  | .mk t x _ _ => t == 2 && "dir:".toList.isPrefixOf x

lemma emptyRoot_rootFileDeleted : EmptyRoot Digest.hasher rootFileDeleted where
  content := by decide
  keyed := .link (by decide)
  only path hlive := by
    obtain ⟨r, hr⟩ := Option.isSome_iff_exists.mp hlive
    have hkeys : ∀ r ∈ rootFileDeleted.log, isDirectoryKey r.key = true → r.key = Digest.hasher.directoryPathHash (pathOf []) := by
      decide
    have hkey := Engine.getEntry_key _ _ _ hr
    have hroot := hkeys r (Engine.getEntry_mem_log _ _ _ hr) (by simp [hkey, isDirectoryKey, Hasher.directoryPathHash, Digest.hasher, Digest.ofPreimage])
    exact directoryPathHash_inj.mp (hkey.symm.trans hroot)
  head h hhead := (Option.some.inj ((show rootFileDeleted.head = some _ by decide).symm.trans hhead)).symm

lemma publishable_f : Publishable ["f".toList] := ⟨by decide, by simp, by decide, by decide⟩

lemma filesTyped_rootFile : FilesTyped Digest.hasher rootFile := by
  have htyped : FilesTyped Digest.hasher start := filesTyped_rootOnly _ _
  obtain ⟨r, e', hok, hstored⟩ : ∃ r e', storeFileBuffered Digest.hasher plainEnv (pathOf ["f".toList]) [7] none start = .ok r e' ∧
      StoredAt Digest.hasher start e' ["f".toList] [7] :=
    storeFileBuffered_total (consistent_rootOnly _ _) (roomy_rootOnly _) htyped publishable_f (by decide) (fun _ _ h => h) (by decide)
      (by decide)
  have hfinal : rootFile = e' := congrArg final hok
  exact hfinal ▸ hstored.typed

lemma serialize_rootFile (r : FileRecord Digest) (hr : rootFile.get (Digest.hasher.filePathHash (pathOf ["f".toList])) = some (.file r)) :
    r.serialize = .ok r := by
  have hs : rootFile.get (Digest.hasher.filePathHash (pathOf ["f".toList])) = some (.file
      ⟨"/f".toList, none, 1, 4, 4, [], Digest.hasher.compute (.whole [7]), [Digest.hasher.chunkHash [7]]⟩) := by
    decide
  cases hs.symm.trans hr
  decide

lemma deleteFile_rootFile : deleteFile Digest.hasher plainEnv "/f".toList rootFile = .ok () rootFileDeleted :=
  eq_ok_final (by decide)

end AeorDb.Dir
