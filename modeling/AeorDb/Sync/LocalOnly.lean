import AeorDb.Dir.CreateSafe
import AeorDb.Dir.StoredFiles
import AeorDb.Store.Normalize
import AeorDb.Sync.Cycle

/-! A file that only one node has, through the sync cycles of that node. -/

namespace AeorDb.Sync

open Store Dir Merge Version Library Trace Hasher EngineM Digest List Engine

section

variable {H : Type} {hs : Hasher H} {e e' : Engine H} {p q : Str} {data : List UInt8}

def Holds (hs : Hasher H) (e : Engine H) (p : Str) (data : List UInt8) : Prop :=
  ∃ (r : FileRecord H) (blocks : List (List UInt8)), e.get (hs.filePathHash p) = some (.file r) ∧ r.chunkHashes = blocks.map hs.chunkHash ∧
    (∀ b ∈ blocks, e.get (hs.chunkHash b) = some (.chunk b)) ∧ blocks.flatten = data

lemma Holds.read (h : Holds hs e p data) (hp : normalizePath p = p) : readFileBuffered hs e p = .ok data := by
  obtain ⟨r, blocks, hr, hcs, hblocks, rfl⟩ := h
  have hrequire : requireRecord e (hs.filePathHash p) fileOf p = .ok r := by
    simp [requireRecord, lookupRecord, hr, fileOf, Except.map, bind, Except.bind]
  rw [readFileBuffered, hp, hrequire]
  change collectChunks e r.chunkHashes = _
  rw [hcs, collectChunks_eq hblocks]

lemma Holds.of_keep (h : Holds hs e p data) (hkeep : ∀ k v, e.get k = some v → e'.get k = some v) : Holds hs e' p data := by
  obtain ⟨r, blocks, hr, hcs, hblocks, hdata⟩ := h
  exact ⟨r, blocks, hkeep _ _ hr, hcs, fun b hb => hkeep _ _ (hblocks b hb), hdata⟩

def Elsewhere (hs : Hasher H) (p : Str) : Action H → Prop
  | .store _ k v => k ≠ hs.filePathHash p ∧ ∀ b, k = hs.chunkHash b → v = .chunk b
  | .markDeleted k => k ≠ hs.filePathHash p ∧ ∀ b, k ≠ hs.chunkHash b
  | _ => True

lemma Holds.of_elsewhere [DecidableEq H] (h : Holds hs e p data) (hran : Ran act (Elsewhere hs p) e e') : Holds hs e' p data := by
  obtain ⟨r, blocks, hr, hcs, hblocks, hdata⟩ := h
  refine ⟨r, blocks, ?_, hcs, fun b hb => ?_, hdata⟩
  · exact get_keep_of_ran hran (fun t v ha => absurd rfl ha.1) (fun ha => ha.1 rfl) hr
  · exact get_keep_of_ran hran (fun t v ha => ha.2 b rfl) (fun ha => ha.2 b rfl) (hblocks b hb)

lemma elsewhere_tree {a : Action H} (h : TreeWrite hs a) : Elsewhere hs p a := by
  cases h with
  | flat es => simp [Elsewhere, directoryContentHash, filePathHash, chunkHash]
  | node n => simp [Elsewhere, btreeHash, filePathHash, chunkHash]
  | link path t => simp [Elsewhere, directoryPathHash, filePathHash, chunkHash]
  | head r => trivial
  | tick => trivial

lemma elsewhere_delete (hne : q ≠ p) {a : Action H} (h : DeleteWrite hs q a) : Elsewhere hs p a := by
  cases h with
  | tree _ ha => exact elsewhere_tree ha
  | claim t => trivial
  | snapshot name info => simp [Elsewhere, snapshotKey, filePathHash, chunkHash]
  | deletion t r => simp [Elsewhere, deletionKey, filePathHash, chunkHash]
  | mark => simpa [Elsewhere, filePathHash, chunkHash] using hne

lemma allowsPublish_elsewhere : AllowsPublish hs (Elsewhere hs p) where
  flat es := elsewhere_tree (.flat es)
  node n := elsewhere_tree (.node n)
  link path t := elsewhere_tree (.link path t)
  head _ := trivial
  tick := trivial

lemma allowsFile_elsewhere (hne : q ≠ p) : AllowsFile hs (Elsewhere hs p) q where
  chunk _ := by simp [Elsewhere, chunkHash, filePathHash]
  content _ := by simp [Elsewhere, fileContentHash, filePathHash, chunkHash]
  identity _ _ _ := by simp [Elsewhere, fileIdentityHash, filePathHash, chunkHash]
  path _ := by simpa [Elsewhere, filePathHash, chunkHash] using hne

end

section

variable {H : Type} [DecidableEq H] {hs : Hasher H} {env : Env} {p q : Str}

lemma performs_storeFileBuffered (hne : normalizePath (normalizePath q) ≠ p) (data : List UInt8) (t : Option Str) :
    Performs act (Elsewhere hs p) (storeFileBuffered hs env q data t) :=
  (allowsFile_elsewhere hne).storeFileBuffered allowsPublish_elsewhere.everywhere (fun _ _ => trivial) data t

lemma performs_storeSymlink (path target : Str) : Performs act (Elsewhere hs p) (storeSymlink hs path target) := by
  refine .ite (fun _ => .throw _) fun _ => .ite (fun _ => .throw _) fun _ => .ite (fun _ => .throw _) fun _ => .ite (fun _ => .throw _) fun _ => ?_
  refine .bind (performs_query _) fun _ => .bind (performs_now trivial) fun now => .bind ?_ fun _ => .pure _
  refine .bind (performs_query _) fun data => .bind (performs_perform ?_) fun _ => .bind (performs_perform ?_) fun _ =>
    .bind (performs_perform ?_) fun _ => .bind (performs_now trivial) fun _ => performs_updateParentDirectories allowsPublish_elsewhere _ _
  · simp [Elsewhere, symlinkContentHash, filePathHash, chunkHash]
  · simp [Elsewhere, symlinkIdentityHash, filePathHash, chunkHash]
  · simp [Elsewhere, symlinkPathHash, filePathHash, chunkHash]

lemma performs_deleteSymlink (path : Str) : Performs act (Elsewhere hs p) (deleteSymlink hs path) := by
  refine .bind (performs_query _) fun _ => .bind (.bind (performs_now trivial) fun t => performs_perform ?_) fun _ =>
    .bind (performs_perform ?_) fun _ => performs_removeFromParentDirectory allowsPublish_elsewhere _
  · simp [Elsewhere, deletionKey, filePathHash, chunkHash]
  · simp [Elsewhere, symlinkPathHash, filePathHash, chunkHash]

def Spares (p : Str) : MergeOp H → Prop
  | .addFile q _ _ => normalizePath (normalizePath q) ≠ p
  | .deleteFile q => normalizePath q ≠ p
  | _ => True

lemma performs_applyMergeOperations {ops : List (MergeOp H)} (h : ∀ op ∈ ops, Spares p op) :
    Performs act (Elsewhere hs p) (applyMergeOperations hs env ops) := by
  refine .bind (performs_query _) fun _ => ?_
  induction ops with
  | nil => exact .pure _
  | cons op ops ih =>
    obtain ⟨hop, hops⟩ := forall_mem_cons.mp h
    refine .bind ?_ fun _ => ih hops
    cases op with
    | addFile q k r => exact .bind (performs_query _) fun _ => .bind (performs_storeFileBuffered hop _ _) fun _ => .pure _
    | deleteFile q => exact performs_ignore ((performs_deleteFile hs env q).mono fun _ => elsewhere_delete hop)
    | addSymlink q k r => exact .bind (performs_storeSymlink _ _) fun _ => .pure _
    | deleteSymlink q => exact performs_ignore (performs_deleteSymlink q)

lemma performs_storeConflict (codec : MetaCodec H) (c : ConflictEntry H) (hne : normalizePath (normalizePath (metaPath c.path)) ≠ p) :
    Performs act (Elsewhere hs p) (storeConflict hs env codec c) :=
  .bind (performs_now trivial) fun _ => .bind (performs_storeFileBuffered hne _ _) fun _ => .pure _

variable {e : Engine H} {k : H} {v : Value H}

lemma keeps_transferEntry (remote : Engine H) (h : H) : Maintains (fun e => e.get k = some v) (transferEntry remote h) fun _ => True := by
  refine fun e he => ⟨?_, fun _ _ _ => trivial⟩
  cases hlive : e.hasEntry h with
  | true =>
    have hskip : transferEntry remote h e = .ok () e := by
      simp [transferEntry, query, hlive, bind, EStateM.bind, pure, EStateM.pure]
    rw [hskip]
    exact he
  | false =>
    have hne : k ≠ h := by
      rintro rfl
      rw [(hasEntry_iff e k).mpr ⟨v, he⟩] at hlive
      cases hlive
    cases hr : remote.getEntry h with
    | none =>
      have hskip : transferEntry remote h e = .ok () e := by
        simp [transferEntry, query, hr, bind, EStateM.bind, pure, EStateM.pure]
      rw [hskip]
      exact he
    | some r =>
      have hstore : transferEntry remote h e = .ok () (e.storeEntry r.entryType h r.value) := by
        simp [transferEntry, query, perform, act, hlive, hr, bind, EStateM.bind]
      rw [hstore]
      simpa [final, hne] using he

lemma keeps_transferMissingChunks (remoteTree : WalkedTree H) (remote : Engine H) :
    Maintains (fun e => e.get k = some v) (transferMissingChunks remoteTree remote) fun _ => True :=
  .bind (.forM fun _ _ => keeps_transferEntry remote _) fun _ _ => .forM fun _ _ => keeps_transferEntry remote _

end

section

variable {H R : Type} [LinearOrder H] {k : Kind H R}

omit [LinearOrder H] in
lemma side_filterKind (keep : Str → Bool) (d : KindDiff H R) (q : Str) :
    (filterKind keep d).side q = if keep q then d.side q else ⟨none, false, false⟩ := by
  have hall : ∀ o : Option (H × R), (o.filter fun _ => true) = o := fun o => by cases o <;> rfl
  cases hq : keep q <;> simp [filterKind, KindDiff.side, lookup_filter, contains_iff_lookup, hq, hall]

lemma mem_mergePath {q : Str} {l r : Side H R} {op : MergeOp H} (h : op ∈ (k.mergePath q l r).1) :
    (∃ x, op = k.add q x ∧ r.change = some x) ∨ op = k.delete q ∧ l.change = none ∧ l.deleted = false ∧ r.deleted = true := by
  obtain ⟨lc, la, ld⟩ := l
  obtain ⟨rc, ra, rd⟩ := r
  cases lc with
  | none =>
    cases ld <;> cases rc <;> cases rd <;> simp [Kind.mergePath] at h
    · exact Or.inr ⟨h, rfl, rfl, rfl⟩
    · exact Or.inl ⟨_, h, rfl⟩
    · exact Or.inl ⟨_, h, rfl⟩
  | some y =>
    cases rc with
    | none => cases ld <;> cases rd <;> simp [Kind.mergePath] at h
    | some x =>
      cases ld <;> cases rd <;> simp [Kind.mergePath] at h
      by_cases hsame : k.identical y x = true
      · simp [hsame] at h
      · by_cases hwins : k.localWins y x = true
        · simp [hsame, Kind.resolveConflict, hwins] at h
        · exact Or.inl ⟨x, by simpa [hsame, Kind.resolveConflict, hwins] using h, rfl⟩

variable {p : Str} {base localTree remoteTree : VersionTree H} {syncPaths : Option (Str → Bool)}

def IsSelected (syncPaths : Option (Str → Bool)) (q : Str) : Prop := ∀ keep, syncPaths = some keep → keep q = true

variable (base remoteTree syncPaths) in
lemma side_selected (q : Str) : (selected syncPaths (diffTrees base remoteTree)).files.side q = ⟨none, false, false⟩ ∨
    IsSelected syncPaths q ∧ (selected syncPaths (diffTrees base remoteTree)).files.side q =
      sideOf fileChanged (base.files.lookup q) (remoteTree.files.lookup q) := by
  cases hpaths : syncPaths with
  | none => exact Or.inr ⟨by simp [IsSelected], side_diffKind _ _ _ _⟩
  | some keep =>
    have hside := side_filterKind keep (diffTrees base remoteTree).files q
    cases hq : keep q with
    | false => exact Or.inl (by simpa [selected, filterTreeDiffByPaths, hq] using hside)
    | true =>
      refine Or.inr ⟨fun _ hk => Option.some.inj hk ▸ hq, ?_⟩
      rw [hq, if_pos rfl] at hside
      exact hside.trans (side_diffKind _ _ _ _)

lemma spares_threeWayMerge (hunseen : ∀ q, normalizePath q = p ∨ normalizePath (normalizePath q) = p → remoteTree.files.lookup q = none)
    (hkept : ∀ q, normalizePath q = p → IsSelected syncPaths q → ∀ b x, base.files.lookup q = some b →
      localTree.files.lookup q = some x → b.2.chunkHashes ≠ x.2.chunkHashes) :
    ∀ op ∈ (threeWayMerge (diffTrees base localTree) (selected syncPaths (diffTrees base remoteTree))).operations, Spares p op := by
  intro op hop
  have hpath : op ∈ (threeWayMerge (diffTrees base localTree) (selected syncPaths (diffTrees base remoteTree))).operations.filter
      fun o => o.path = op.path := mem_filter.mpr ⟨hop, by simp⟩
  rw [filter_threeWayMerge] at hpath
  have hmem : op ∈ filePathOps (diffTrees base localTree) (selected syncPaths (diffTrees base remoteTree)) op.path ++
      symlinkPathOps (diffTrees base localTree) (selected syncPaths (diffTrees base remoteTree)) op.path := by
    rcases mem_append.mp hpath with h | h <;> exact (mem_filter.mp h).1
  generalize op.path = q at hmem
  rcases mem_append.mp hmem with hfile | hlink
  · have hlocal : (diffTrees base localTree).files.side q = sideOf fileChanged (base.files.lookup q) (localTree.files.lookup q) :=
      side_diffKind _ _ _ _
    rcases side_selected base remoteTree syncPaths q with hnone | ⟨hsel, hremote⟩
    · rcases mem_mergePath hfile with ⟨x, rfl, hx⟩ | ⟨rfl, _, _, hdel⟩
      · simp [hnone] at hx
      · simp [hnone] at hdel
    · rcases mem_mergePath hfile with ⟨x, rfl, hx⟩ | ⟨rfl, hsame, hnot, hdel⟩
      · intro hp
        rw [hremote, hunseen q (Or.inr hp)] at hx
        cases hb : base.files.lookup q <;> simp [hb, sideOf] at hx
      · intro hp
        rw [hlocal] at hsame hnot
        rw [hremote, hunseen q (Or.inl hp)] at hdel
        cases hb : base.files.lookup q with
        | none => simp [hb, sideOf] at hdel
        | some b =>
          cases hx : localTree.files.lookup q with
          | none => simp [hb, hx, sideOf] at hnot
          | some x => exact hkept q hp hsel b x hb hx (by simpa [hb, hx, sideOf, fileChanged] using hsame)
  · rcases mem_mergePath hlink with ⟨x, rfl, _⟩ | ⟨rfl, _⟩ <;> trivial

end

section

variable {H : Type} [LinearOrder H] {hs : Hasher H} {env : Env} {codec : MetaCodec H} {p : Str} {data : List UInt8}
  {syncPaths : Option (Str → Bool)} {base : Option H} {remote e : Engine H}

structure Unsynced (syncPaths : Option (Str → Bool)) (base : Option H) (remote e : Engine H) (p : Str) : Prop where
  unseen : ∀ remoteTree, walkRoot remote remote.head = .ok remoteTree →
    ∀ q, normalizePath q = p ∨ normalizePath (normalizePath q) = p → remoteTree.files.lookup q = none
  changed : ∀ localTree remoteTree baseTree, walkRoot e e.head = .ok localTree → walkRoot remote remote.head = .ok remoteTree →
    walkRoot (final (transferMissingChunks remoteTree remote e)) base = .ok baseTree →
    ∀ q, normalizePath q = p → IsSelected syncPaths q → ∀ b x, baseTree.files.lookup q = some b → localTree.files.lookup q = some x →
      b.2.chunkHashes ≠ x.2.chunkHashes

def NotMeta (p : Str) : Prop := ∀ q, normalizePath (normalizePath (metaPath q)) ≠ p

lemma notMeta_of_name {segments : List Str} {name : Str} (hs : ∀ s ∈ segments ++ [name], SegmentName s) (hne : name ≠ ".meta".toList) :
    NotMeta (pathOf (segments ++ [name])) := by
  intro q heq
  have hclean : CleanName ".meta".toList := by decide
  have hbase : conflictBase = '/' :: ".aeordb-conflicts".toList := by decide
  have hlast : "/.meta".toList = '/' :: ".meta".toList := by decide
  obtain ⟨names, hres⟩ : ∃ names, resolved (metaPath q) = names ++ [".meta".toList] := by
    rw [metaPath, hlast]
    exact ⟨_, resolved_append_name hclean (by rw [hbase]; rfl)⟩
  have hnames := resolved_names (metaPath q)
  rw [hres] at hnames
  have hform : NormalForm (names ++ [".meta".toList]) :=
    ⟨hnames, fun s hmem => by
      obtain rfl : ".meta".toList = s := by rwa [getLast?_concat, Option.mem_some_iff] at hmem
      exact hclean.trimmed⟩
  rw [normalizePath_eq_pathOf (metaPath q), hres, hform.normalizePath_eq] at heq
  exact hne (append_inj' (pathOf_inj_of_segmentNames hnames hs heq) rfl |>.2 |> singleton_inj.mp).symm

lemma performs_applyMerge {merged : MergeResult H} (hops : ∀ op ∈ merged.operations, Spares p op) (hmeta : NotMeta p) :
    Performs act (Elsewhere hs p) (applyMerge hs env codec merged) := by
  have hrest : Performs act (Elsewhere hs p) (do
      merged.conflicts.forM (storeConflict hs env codec)
      query fun e => .ok e.head) :=
    .bind (.forM (fun c => performs_storeConflict codec c (hmeta c.path)) _) fun _ => performs_query _
  exact .ite (fun _ => hrest) fun _ => .bind (performs_applyMergeOperations hops) fun _ => hrest

omit [LinearOrder H] in
lemma final_query_bind {α β : Type} (f : Engine H → EngineResult α) (g : α → EngineM H β) (e : Engine H) :
    final ((query f >>= g) e) = match f e with
      | .ok a => final (g a e)
      | .error _ => e := by
  change final (EStateM.bind (query f) g e) = _
  unfold EStateM.bind query
  cases f e <;> rfl

variable (env codec) in
lemma Holds.of_cycle (h : Holds hs e p data) (hun : Unsynced syncPaths base remote e p) (hmeta : NotMeta p) :
    Holds hs (final (syncWithLocalEngine hs env codec syncPaths base remote e)) p data := by
  rw [syncWithLocalEngine, final_query_bind]
  dsimp only
  by_cases hheads : e.head = remote.head
  · rw [if_pos hheads]
    exact h
  rw [if_neg hheads, final_query_bind]
  cases hlocal : walkRoot e e.head with
  | error err => exact h
  | ok localTree =>
    dsimp only
    rw [attempt, final_query_bind]
    cases hremote : walkRoot remote remote.head with
    | error err => exact h
    | ok remoteTree =>
      dsimp only
      have hkeep : Holds hs (final (transferMissingChunks remoteTree remote e)) p data :=
        h.of_keep fun k v hv => (keeps_transferMissingChunks remoteTree remote e hv).1
      have hchanged := hun.changed localTree remoteTree
      cases htransfer : transferMissingChunks remoteTree remote e with
      | error err e₁ =>
        rw [htransfer] at hkeep
        change Holds hs (final (EStateM.bind _ _ e)) p data
        unfold EStateM.bind
        rw [htransfer]
        exact hkeep
      | ok u e₁ =>
        rw [htransfer] at hkeep hchanged
        rw [Result.estate_bind_of_ok htransfer, final_query_bind]
        cases hbase : walkRoot e₁ base with
        | error err => exact hkeep
        | ok baseTree =>
          dsimp only
          cases hmerge : mergeTrees syncPaths baseTree.toVersionTree localTree.toVersionTree remoteTree.toVersionTree with
          | none => exact hkeep
          | some merged =>
            have hspares : ∀ op ∈ merged.operations, Spares p op := by
              simp only [mergeTrees] at hmerge
              split_ifs at hmerge
              cases hmerge
              exact spares_threeWayMerge (hun.unseen remoteTree hremote) (hchanged baseTree hlocal hremote hbase)
            exact hkeep.of_elsewhere (performs_applyMerge hspares hmeta e₁)

structure Node (H : Type) where
  engine : Engine H
  base : Option H
  contents : List UInt8

/-- What happens on the node: local changes elsewhere, rewrites of the file, and cycles against whatever the other
node has become. A cycle that fails leaves the saved base. -/
inductive Step (hs : Hasher H) (env : Env) (codec : MetaCodec H) (syncPaths : Option (Str → Bool)) (p : Str) : Node H → Node H → Prop
  | changed {n : Node H} {e : Engine H} : Ran act (Elsewhere hs p) n.engine e →
      Step hs env codec syncPaths p n { n with engine := e }
  | rewritten {n : Node H} {e : Engine H} {data : List UInt8} : Holds hs e p data →
      Step hs env codec syncPaths p n ⟨e, n.base, data⟩
  | synced {n : Node H} {remote e : Engine H} {base : Option H} : Unsynced syncPaths n.base remote n.engine p →
      syncWithLocalEngine hs env codec syncPaths n.base remote n.engine = .ok base e →
      Step hs env codec syncPaths p n ⟨e, base, n.contents⟩
  | failed {n : Node H} {remote e : Engine H} {err : EngineError} : Unsynced syncPaths n.base remote n.engine p →
      syncWithLocalEngine hs env codec syncPaths n.base remote n.engine = .error err e →
      Step hs env codec syncPaths p n { n with engine := e }

lemma Holds.of_step {n m : Node H} (h : Holds hs n.engine p n.contents) (hstep : Step hs env codec syncPaths p n m) (hmeta : NotMeta p) :
    Holds hs m.engine p m.contents := by
  cases hstep with
  | changed hran => exact h.of_elsewhere hran
  | rewritten hholds => exact hholds
  | synced hun hrun =>
    have hfinal := h.of_cycle env codec hun hmeta
    rw [hrun] at hfinal
    exact hfinal
  | failed hun hrun =>
    have hfinal := h.of_cycle env codec hun hmeta
    rw [hrun] at hfinal
    exact hfinal

end

def localPath : Str := "/a".toList

def nodeA : Engine Digest := final (storeFileBuffered hasher plainEnv localPath [1] none start)

def nodeB : Engine Digest := final (storeFileBuffered hasher plainEnv "/b".toList [2] none start)

def noCodec : MetaCodec Digest := ⟨fun _ _ => [], fun _ => .error (.jsonParseError "conflict")⟩

def cycle (base : Option Digest) (e : Engine Digest) : EStateM.Result EngineError (Engine Digest) (Option Digest) :=
  syncWithLocalEngine hasher plainEnv noCodec none base nodeB e

def savedBase (r : EStateM.Result EngineError (Engine Digest) (Option Digest)) : Option Digest :=
  match r with
  | .ok base _ => base
  | .error _ _ => none

def onceSynced : Engine Digest := final (cycle none nodeA)

def firstBase : Option Digest := savedBase (cycle none nodeA)

def localRecord : FileRecord Digest where
  path := localPath
  contentType := none
  totalSize := 1
  createdAt := 4
  updatedAt := 4
  metadata := []
  contentHash := hasher.compute (.whole [1])
  chunkHashes := [hasher.chunkHash [1]]

lemma holds_nodeA : Holds hasher nodeA localPath [1] :=
  ⟨localRecord, [[1]], by decide, by decide, by decide, rfl⟩

lemma unsynced_nodeA : Unsynced none none nodeB nodeA localPath where
  unseen remoteTree hwalk q hq := by
    have hpaths : (walkRoot nodeB nodeB.head).map (fun t => t.files.entries.map Prod.fst) = .ok ["/b".toList] := by decide
    rw [hwalk] at hpaths
    have hother : q ≠ "/b".toList := by
      rintro rfl
      revert hq
      decide
    rw [PathMap.lookup, Table.get_eq_none.mpr, Option.map_none]
    have hkeys : remoteTree.files.entries.map Prod.fst = ["/b".toList] := Except.ok.inj hpaths
    rw [Table.keys, hkeys]
    simpa using hother
  changed _ _ baseTree _ _ hbase q _ _ b x hb _ := by
    obtain rfl : WalkedTree.empty = baseTree := Except.ok.inj hbase
    cases hb

end AeorDb.Sync
