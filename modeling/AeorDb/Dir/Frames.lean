import AeorDb.Dir.Operations

/-! What the directory operations can do to the engine, stated once for all that follows. -/

namespace AeorDb.Dir

open Store BTree Version Library Trace EngineM Result List Engine

variable {H : Type} [DecidableEq H] {hs : Hasher H} {P : Action H → Prop}

structure AllowsContent (hs : Hasher H) (P : Action H → Prop) : Prop where
  flat : ∀ es, P (.store .directoryIndex (hs.directoryContentHash (.flat es)) (.dir (.flat es)))
  node : ∀ n, P (.store .directoryIndex (hs.btreeHash n) (.dir (.node n)))

section

variable (h : AllowsContent hs P)
include h

lemma performs_storeBtreeNode (node : BTreeNode H) : Performs act P (storeBtreeNode hs node) := by
  intro e
  unfold storeBtreeNode
  cases BTree.serialize node with
  | error err => exact .refl
  | ok data =>
    change Ran act P e (e.act (.store .directoryIndex (hs.btreeHash data) (.dir (.node data))))
    exact .single (h.node data)

lemma performs_storeNodes (nodes : List (BTreeNode H)) : Performs act P (storeNodes hs nodes) := by
  induction nodes with
  | nil => exact .pure _
  | cons node nodes ih => exact .bind (performs_storeBtreeNode h node) fun _ => .bind ih fun _ => .pure _

lemma performs_buildInternalLevel (fuel : ℕ) (children : List H) (keys : List Str) :
    Performs act P (buildInternalLevel hs fuel children keys) := by
  induction fuel generalizing children keys with
  | zero => exact .throw _
  | succ fuel ih =>
    unfold buildInternalLevel
    split
    · exact .pure _
    · refine .bind (performs_storeNodes h _) fun newChildren => ?_
      split
      · exact .pure _
      · exact ih _ _

lemma performs_btreeFromEntries (entries : List (ChildEntry H)) :
    Performs act P (btreeFromEntries hs entries) := by
  refine .ite (fun _ => performs_storeBtreeNode h _) fun _ => ?_
  refine .bind (performs_storeNodes h _) fun leafHashes => ?_
  split
  · exact .pure _
  · exact performs_buildInternalLevel h _ _ _

lemma performs_btreeInsertBatched (node : BTreeNode H) (c : ChildEntry H) :
    Performs act P (btreeInsertBatched hs node c) := by
  refine .bind (performs_query _) fun out => .bind ?_ fun _ => .pure _
  refine performs_flush fun w hw => ?_
  obtain ⟨data, _, rfl⟩ := mem_map.mp hw
  exact h.node data

lemma performs_deleteFrom (name : Str) (fuel : ℕ) (root : H) :
    Performs act P (deleteFrom hs name fuel root) := by
  have hstore : ∀ node, Performs act P (some <$> storeBtreeNode hs node) := fun node =>
    .bind (performs_storeBtreeNode h node) fun _ => .pure _
  induction fuel generalizing root with
  | zero => exact .throw _
  | succ fuel ih =>
    refine .bind (performs_query _) fun node => ?_
    split
    · exact .ite (fun _ => .pure _) fun _ => hstore _
    · dsimp only
      split
      · exact .throw _
      · refine .bind (ih _) fun deleted => ?_
        split
        · exact hstore _
        · split
          · exact .pure _
          · exact .pure _
          · exact hstore _

end

section

def WritesContent (hs : Hasher H) (batch : WriteBatch H) : Prop :=
  ∀ w ∈ batch, ∃ es, w = (.directoryIndex, hs.directoryContentHash (.flat es), .dir (.flat es))

variable {r : Rewritten H} {children : List (ChildEntry H)}

omit [DecidableEq H] in
lemma writesContent_writeFlat (h : writeFlat hs children = .ok r) : WritesContent hs r.batch := by
  obtain ⟨es, _, h⟩ := bind_eq_ok.mp h
  cases h
  intro w hw
  exact ⟨es, mem_singleton.mp hw⟩

omit [DecidableEq H] in
lemma writesContent_attempt {e e' : Engine H} (h : attempt (writeFlat hs children) e = .ok r e') : WritesContent hs r.batch :=
  writesContent_writeFlat (query_eq_ok.mp h).1

lemma writesContent_rewriteWith {existing : Option (Value H)} {c : ChildEntry H} {e e' : Engine H}
    (h : rewriteWith hs existing c e = .ok r e') : WritesContent hs r.batch := by
  unfold rewriteWith at h
  split at h
  · obtain ⟨_, _, _, h⟩ := estate_bind_eq_ok.mp h
    cases h
    simp [WritesContent]
  · obtain ⟨_, _, _, h⟩ := estate_bind_eq_ok.mp h
    split_ifs at h
    · obtain ⟨root, e₁, _, h⟩ := estate_bind_eq_ok.mp h
      obtain ⟨v, e₂, _, h⟩ := estate_bind_eq_ok.mp h
      split at h
      · cases h
        simp [WritesContent]
      · cases h
    · exact writesContent_attempt h
  · exact writesContent_attempt h

lemma writesContent_rewriteWithout {existing : Option (Value H)} {name : Str} {e e' : Engine H}
    (h : rewriteWithout hs existing name e = .ok r e') : WritesContent hs r.batch := by
  have hempty : WritesContent hs (emptyDirectory hs).batch := fun w hw => ⟨[], mem_singleton.mp hw⟩
  unfold rewriteWithout at h
  split at h
  · obtain ⟨_, _, _, h⟩ := estate_bind_eq_ok.mp h
    obtain ⟨_, _, _, h⟩ := estate_bind_eq_ok.mp h
    obtain ⟨_, _, _, h⟩ := estate_bind_eq_ok.mp h
    split at h
    · obtain ⟨_, _, _, h⟩ := estate_bind_eq_ok.mp h
      split at h
      · cases h
        simp [WritesContent]
      · cases h
    · cases h
      exact hempty
  · obtain ⟨_, _, _, h⟩ := estate_bind_eq_ok.mp h
    exact writesContent_attempt h
  · cases h
    exact hempty

lemma performs_convertToBtree (h : AllowsContent hs P) (children : List (ChildEntry H)) :
    Performs act P (convertToBtree hs children) := by
  refine .bind (performs_btreeFromEntries h _) fun root => .bind (performs_query _) fun v => ?_
  split
  · exact .pure _
  · exact .throw _

lemma performs_rewriteWith (h : AllowsContent hs P) (existing : Option (Value H)) (c : ChildEntry H) :
    Performs act P (rewriteWith hs existing c) := by
  unfold rewriteWith
  split
  · exact .bind (performs_btreeInsertBatched h _ _) fun _ => .pure _
  · exact .bind (performs_query _) fun _ =>
      .ite (fun _ => performs_convertToBtree h _) fun _ => performs_query _
  · exact performs_query _

lemma performs_rewriteWithout (h : AllowsContent hs P) (existing : Option (Value H)) (name : Str) :
    Performs act P (rewriteWithout hs existing name) := by
  unfold rewriteWithout
  split
  · refine .bind (performs_query _) fun _ => .bind (performs_query _) fun _ =>
      .bind (.bind (performs_query _) fun _ => performs_deleteFrom h _ _ _) fun _ => ?_
    split
    · refine .bind (performs_query _) fun _ => ?_
      split
      · exact .pure _
      · exact .throw _
    · exact .pure _
  · exact .bind (performs_query _) fun _ => performs_query _
  · exact .pure _

end

def Ancestor (a p : Str) : Prop := Relation.TransGen (fun p a => parentPath p = some a) p a

structure AllowsPublishAt (hs : Hasher H) (P : Action H → Prop) (A : Str → Prop) : Prop extends AllowsContent hs P where
  link : ∀ path, A path → ∀ t, P (.store .directoryIndex (hs.directoryPathHash path) (.link t))
  head : ∀ r, P (.updateHead r)
  tick : P .tick

structure AllowsPublish (hs : Hasher H) (P : Action H → Prop) : Prop extends AllowsContent hs P where
  link : ∀ path t, P (.store .directoryIndex (hs.directoryPathHash path) (.link t))
  head : ∀ r, P (.updateHead r)
  tick : P .tick

variable {A : Str → Prop}

section

omit [DecidableEq H]

lemma AllowsPublish.everywhere (h : AllowsPublish hs P) : AllowsPublishAt hs P fun _ => True :=
  ⟨h.toAllowsContent, fun path _ => h.link path, h.head, h.tick⟩

lemma AllowsContent.batch (h : AllowsContent hs P) {batch : WriteBatch H} (hb : WritesContent hs batch) :
    ∀ w ∈ batch, P (.store w.1 w.2.1 w.2.2) := by
  intro w hw
  obtain ⟨es, rfl⟩ := hb w hw
  exact h.flat es

lemma AllowsPublishAt.batch (h : AllowsPublishAt hs P A) {batch : WriteBatch H} (hb : WritesContent hs batch) {path : Str} (hpath : A path)
    (t : H) : ∀ w ∈ batch ++ [(.directoryIndex, hs.directoryPathHash path, .link t)], P (.store w.1 w.2.1 w.2.2) := by
  intro w hw
  rcases mem_append.mp hw with hw | hw
  · exact h.toAllowsContent.batch hb w hw
  · rw [mem_singleton.mp hw]
    exact h.link path hpath t

end

lemma AllowsPublishAt.updateParentsFrom (h : AllowsPublishAt hs P A) (depth : ℕ) (path : Str) (hpath : ∀ a, Ancestor a path → A a)
    (c : ChildEntry H) (batch : WriteBatch H) (hb : ∀ w ∈ batch, P (.store w.1 w.2.1 w.2.2)) :
    Performs act P (updateParentsFrom hs depth path c batch) := by
  induction depth generalizing path c batch with
  | zero => exact .throw _
  | succ depth ih =>
    unfold Dir.updateParentsFrom
    cases hparent : parentPath path with
    | none => exact performs_flush hb
    | some parent =>
      refine .ite (fun _ => performs_flush hb) fun _ => .bind (performs_query _) fun existing => ?_
      refine .bind_of_ok (performs_rewriteWith h.toAllowsContent _ _) fun s r t hr => ?_
      have hb' : ∀ w ∈ batch ++ r.batch ++ [(.directoryIndex, hs.directoryPathHash parent, .link r.contentKey)],
          P (.store w.1 w.2.1 w.2.2) := by
        intro w hw
        rw [append_assoc] at hw
        rcases mem_append.mp hw with hw | hw
        · exact hb w hw
        · exact h.batch (writesContent_rewriteWith hr) (hpath parent (.single hparent)) _ w hw
      refine .ite (fun _ => ?_) fun _ => ?_
      · exact .bind (performs_flush hb') fun _ => performs_perform (h.head _)
      · exact .bind (performs_now h.tick) fun _ => ih parent (fun a ha => hpath a (.head hparent ha)) _ _ hb'

section

variable (h : AllowsPublishAt hs P A) {path : Str} (hpath : ∀ a, Ancestor a path → A a)
include h hpath

lemma AllowsPublishAt.updateParentDirectories (c : ChildEntry H) : Performs act P (updateParentDirectories hs path c) :=
  h.updateParentsFrom _ path hpath _ _ (by simp)

lemma AllowsPublishAt.removeFromParentDirectory :
    Performs act P (removeFromParentDirectory hs path) := by
  unfold Dir.removeFromParentDirectory
  split
  · exact .pure _
  case h_2 parent hparent =>
    refine .bind (performs_query _) fun existing => ?_
    refine .bind_of_ok (performs_rewriteWithout h.toAllowsContent _ _) fun s r t hr => ?_
    refine .bind (performs_flush (h.batch (writesContent_rewriteWithout hr) (hpath parent (.single hparent)) _)) fun _ => ?_
    refine .ite (fun _ => performs_perform (h.head _)) fun _ => ?_
    exact .bind (performs_now h.tick) fun _ => h.updateParentDirectories (fun a ha => hpath a (.head hparent ha)) _

end

lemma performs_updateParentDirectories (h : AllowsPublish hs P) (path : Str) (c : ChildEntry H) :
    Performs act P (updateParentDirectories hs path c) :=
  h.everywhere.updateParentDirectories (fun _ _ => trivial) c

lemma performs_removeFromParentDirectory (h : AllowsPublish hs P) (path : Str) :
    Performs act P (removeFromParentDirectory hs path) :=
  h.everywhere.removeFromParentDirectory fun _ _ => trivial

structure AllowsFile (hs : Hasher H) (P : Action H → Prop) (path : Str) : Prop where
  chunk : ∀ bytes, P (.store .chunk (hs.chunkHash bytes) (.chunk bytes))
  content : ∀ r, P (.store .fileRecord (hs.fileContentHash r) (.file r))
  identity : ∀ t cs r, P (.store .fileRecord (hs.fileIdentityHash path t cs) (.file r))
  path : ∀ r, P (.store .fileRecord (hs.filePathHash path) (.file r))

variable {path : Str}

lemma AllowsFile.storeChunks (h : AllowsFile hs P path) (blocks : List (List UInt8)) :
    Performs act P (storeChunks hs blocks) := by
  induction blocks with
  | nil => exact .pure _
  | cons b blocks ih =>
    have hstore : Performs act P (storeChunk hs b) :=
      .bind (performs_query _) fun known => .ite (fun _ => .pure _) fun _ => .bind (performs_perform (h.chunk b)) fun _ => .pure _
    exact .bind hstore fun _ => .bind ih fun _ => .pure _

lemma AllowsFile.materialize (h : AllowsFile hs P path) (record : FileRecord H) :
    Performs act P (materializeFileRecord hs path record) :=
  .bind (performs_query _) fun _ => .bind (performs_perform (h.content _)) fun _ =>
    .bind (performs_perform (h.identity _ _ _)) fun _ => .bind (performs_perform (h.path _)) fun _ => .pure _

lemma path_of_publishFileRecord {input : PublishInput H} {published : Published H} {e e' : Engine H}
    (h : publishFileRecord hs input e = .ok published e') : published.path = normalizePath input.path := by
  obtain ⟨_, _, _, h⟩ := estate_bind_eq_ok.mp h
  obtain ⟨_, _, _, h⟩ := estate_bind_eq_ok.mp h
  obtain ⟨_, _, _, h⟩ := estate_bind_eq_ok.mp h
  obtain ⟨_, _, _, h⟩ := estate_bind_eq_ok.mp h
  cases h
  rfl

lemma AllowsFile.storeFileBuffered {env : Env} (h : AllowsFile hs P (normalizePath (normalizePath path))) (hA : AllowsPublishAt hs P A)
    (hpath : ∀ a, Ancestor a (normalizePath (normalizePath path)) → A a) (data : List UInt8) (t : Option Str) :
    Performs act P (storeFileBuffered hs env path data t) := by
  refine .ite (fun _ => .throw _) fun _ => .bind (h.storeChunks _) fun _ => .bind_of_ok ?_ fun s published s' hpub => ?_
  · exact .bind (performs_query _) fun _ => .bind (performs_now hA.tick) fun _ =>
      .bind (h.materialize _) fun _ => .bind (performs_now hA.tick) fun _ => .pure _
  · rw [path_of_publishFileRecord hpub]
    exact .bind (hA.updateParentDirectories hpath _) fun _ => .pure _

end AeorDb.Dir
