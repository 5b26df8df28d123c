import AeorDb.Dir.CreateSafe
import AeorDb.Dir.StoredFiles
import AeorDb.Store.Normalize

/-! Whether a path is a file, a directory or a symlink, and what operations on it do to the files below. -/

namespace AeorDb.Dir

open Store BTree Version Library Trace EngineM Digest Hasher Result List Engine

inductive PathKind where
  | file | directory | symlink
  deriving DecidableEq

def PathKind.key {H : Type} (hs : Hasher H) : PathKind → Str → H
  | .file => hs.filePathHash
  | .directory => hs.directoryPathHash
  | .symlink => hs.symlinkPathHash

inductive NamespaceOp where
  | storeFile (path : Str) (data : List UInt8) (contentType : Option Str)
  | storeSymlink (path target : Str)
  | createDirectory (path : Str)
  | renameFile (old new : Str)
  | renameSymlink (old new : Str)
  | deleteFile (path : Str)
  | deleteSymlink (path : Str)
  | deleteDirectory (path : Str)

namespace NamespaceOp

def run {H : Type} [DecidableEq H] (hs : Hasher H) (env : Env) : NamespaceOp → EngineM H Unit
  | .storeFile path data contentType => do let _ ← storeFileBuffered hs env path data contentType
  | .storeSymlink path target => do let _ ← Dir.storeSymlink hs path target
  | .createDirectory path => Dir.createDirectory hs path
  | .renameFile old new => do let _ ← Dir.renameFile hs old new
  | .renameSymlink old new => do let _ ← Dir.renameSymlink hs old new
  | .deleteFile path => Dir.deleteFile hs env path
  | .deleteSymlink path => Dir.deleteSymlink hs path
  | .deleteDirectory path => Dir.deleteDirectory hs path

def target : NamespaceOp → Option (PathKind × Str)
  | .storeFile path _ _ => some (.file, normalizePath (normalizePath path))
  | .storeSymlink path _ => some (.symlink, normalizePath path)
  | .createDirectory path => some (.directory, normalizePath path)
  | .renameFile _ new => some (.file, normalizePath new)
  | .renameSymlink _ new => some (.symlink, normalizePath new)
  | _ => none

def source : NamespaceOp → Option Str
  | .renameFile old _ => some (normalizePath old)
  | .renameSymlink old _ => some (normalizePath old)
  | .deleteFile path => some (normalizePath path)
  | .deleteSymlink path => some (normalizePath path)
  | .deleteDirectory path => some (normalizePath path)
  | _ => none

def paths (op : NamespaceOp) : List Str := (op.target.map (·.2)).toList ++ op.source.toList

end NamespaceOp

variable {H : Type} [DecidableEq H] {hs : Hasher H} {env : Env} {e e' : Engine H}

def LiveAs (hs : Hasher H) (e : Engine H) (kind : PathKind) (p : Str) : Prop := e.hasEntry (kind.key hs p) = true

def OneKind (hs : Hasher H) (e : Engine H) : Prop := ∀ p k k', LiveAs hs e k p → LiveAs hs e k' p → k = k'

def listedFrom (hs : Hasher H) (e : Engine H) (t : EntryType) : List Str → List Str → Bool
  | _, [] => false
  | seen, s :: rest =>
    match listing hs e (pathOf seen) with
    | .error _ => false
    | .ok children => children.any fun c => c.name = s &&
      if rest = [] then c.entryType = t else c.entryType = .directoryIndex && listedFrom hs e t (seen ++ [s]) rest

section

omit [DecidableEq H]

lemma key_inj {k k' : PathKind} {p p' : Str} : k.key hs p = k'.key hs p' ↔ k = k' ∧ p = p' := by
  cases k <;> cases k' <;> simp [PathKind.key, filePathHash, directoryPathHash, symlinkPathHash]

def MayStore (hs : Hasher H) (own : PathKind → Str → Prop) : Action H → Prop
  | .store _ key _ => ∀ k p, key = k.key hs p → own k p
  | _ => True

variable {own : PathKind → Str → Prop}

lemma mayStore_key {t : EntryType} {k : PathKind} {p : Str} {v : Value H} (h : own k p) : MayStore hs own (.store t (k.key hs p) v) := by
  intro k' p' heq
  obtain ⟨rfl, rfl⟩ := key_inj.mp heq
  exact h

lemma mayStore_of_ne {t : EntryType} {key : H} {v : Value H} (h : ∀ k p, key ≠ PathKind.key hs k p) : MayStore hs own (.store t key v) :=
  fun k p heq => absurd heq (h k p)

lemma ne_key_of_compute {x : Preimage H} (hx : ∀ s, x ≠ .text s) (k : PathKind) (p : Str) : hs.compute x ≠ k.key hs p := by
  cases k <;> simpa [PathKind.key, filePathHash, directoryPathHash, symlinkPathHash] using hx _

lemma allowsPublishAt_mayStore {A : Str → Prop} (hA : ∀ a, A a → own .directory a) : AllowsPublishAt hs (MayStore hs own) A where
  flat es := mayStore_of_ne (ne_key_of_compute (by simp))
  node n := mayStore_of_ne (ne_key_of_compute (by simp))
  link path hpath t := mayStore_key (k := .directory) (hA path hpath)
  head _ := trivial
  tick := trivial

end

section

variable {own : PathKind → Str → Prop}

lemma live_of_ran (h : Ran act (MayStore hs own) e e') {k : PathKind} {p : Str} (hlive : LiveAs hs e' k p) :
    own k p ∨ LiveAs hs e k p := by
  refine h.invariant (I := fun s => LiveAs hs s k p → own k p ∨ LiveAs hs e k p) ?_ .inr hlive
  intro s a ha hI hlive
  cases a with
  | store t key v =>
    rw [LiveAs, act, hasEntry_storeEntry, Bool.or_eq_true, decide_eq_true_eq] at hlive
    rcases hlive with heq | hlive
    · exact .inl (ha k p heq.symm)
    · exact hI hlive
  | markDeleted key =>
    rw [LiveAs, act, hasEntry, getEntry_markDeleted] at hlive
    split_ifs at hlive
    · cases hlive
    · exact hI hlive
  | updateHead r => exact hI hlive
  | claimAutoSnapshot t => exact hI hlive
  | tick => exact hI hlive

lemma mayStore_persistDeletion (path : Str) : Performs act (MayStore hs own) (persistDeletion hs path) :=
  .bind (performs_now trivial) fun t => performs_perform <| mayStore_of_ne fun k p => by
    cases k <;> simp [PathKind.key, deletionKey, filePathHash, directoryPathHash, symlinkPathHash]

lemma mayStore_autoSnapshot : Performs act (MayStore hs own) (autoSnapshotBeforeDelete hs env) :=
  performs_autoSnapshotBeforeDelete trivial (fun _ => trivial) (fun name info => mayStore_of_ne fun k p => by
    cases k <;> simp [PathKind.key, snapshotKey, filePathHash, directoryPathHash, symlinkPathHash]) env

omit [DecidableEq H] in
lemma allowsFile_mayStore {path : Str} (h : own .file path) : AllowsFile hs (MayStore hs own) path where
  chunk _ := mayStore_of_ne (ne_key_of_compute (by simp))
  content _ := mayStore_of_ne (ne_key_of_compute (by simp))
  identity _ _ _ := mayStore_of_ne (ne_key_of_compute (by simp))
  path _ := mayStore_key (k := .file) h

lemma mayStore_publishSymlink {path : Str} (h : own .symlink path) (habove : ∀ a, Ancestor a path → own .directory a)
    (record : SymlinkRecord) : Performs act (MayStore hs own) (publishSymlink hs path record) := by
  refine .bind (performs_query _) fun data => .bind (performs_perform ?_) fun _ => .bind (performs_perform ?_) fun _ =>
    .bind (performs_perform ?_) fun _ => .bind (performs_now trivial) fun _ =>
      (allowsPublishAt_mayStore habove).updateParentDirectories (fun _ ha => ha) _
  · exact mayStore_of_ne (ne_key_of_compute (by simp))
  · refine mayStore_of_ne fun k p => ?_
    cases k <;> simp [PathKind.key, symlinkIdentityHash, filePathHash, directoryPathHash, symlinkPathHash]
  · exact mayStore_key (k := .symlink) h

lemma mayStore_createDirectory {path : Str} (h : own .directory (normalizePath path))
    (habove : ∀ a, Ancestor a (normalizePath path) → own .directory a) : Performs act (MayStore hs own) (createDirectory hs path) :=
  .bind (performs_perform (mayStore_key (k := .directory) h)) fun _ =>
    .bind (performs_perform (mayStore_of_ne (ne_key_of_compute (by simp)))) fun _ =>
      .bind (performs_now trivial) fun _ => .ite (fun _ => .pure _) fun _ =>
        (allowsPublishAt_mayStore habove).updateParentDirectories (fun _ ha => ha) _

variable (hs) in
lemma mayStore_clear {path : Str} (key : H) (habove : ∀ a, Ancestor a path → own .directory a) : Performs act (MayStore hs own) (do
      persistDeletion hs path
      perform (.markDeleted key)
      removeFromParentDirectory hs path) :=
  .bind (mayStore_persistDeletion path) fun _ => .bind (performs_perform trivial) fun _ =>
    (allowsPublishAt_mayStore habove).removeFromParentDirectory fun _ ha => ha

lemma performs_ensureRenamable {P : Action H → Prop} (old new : Str) : Performs act P (ensureRenamable old new) :=
  .ite (fun _ => .throw _) fun _ => .ite (fun _ => .throw _) fun _ => .ite (fun _ => .throw _) fun _ => .pure _

lemma mayStore_renameFile {old new : Str} (h : own .file (normalizePath new))
    (habove : ∀ a, Ancestor a (normalizePath new) ∨ Ancestor a (normalizePath old) → own .directory a) :
    Performs act (MayStore hs own) (renameFile hs old new) := by
  have hpublish : AllowsPublishAt hs (MayStore hs own) _ := allowsPublishAt_mayStore habove
  refine .bind (performs_ensureRenamable _ _) fun _ => .bind (performs_query _) fun _ => .bind (performs_query _) fun _ =>
    .bind (performs_now trivial) fun _ => .bind ((allowsFile_mayStore h).materialize _) fun _ => .bind (performs_now trivial) fun _ => ?_
  refine .bind (hpublish.updateParentDirectories (fun _ => .inl) _) fun _ => .bind (mayStore_persistDeletion _) fun _ =>
    .bind (performs_perform trivial) fun _ => .bind (hpublish.removeFromParentDirectory fun _ => .inr) fun _ => .pure _

lemma mayStore_renameSymlink {old new : Str} (h : own .symlink (normalizePath new))
    (habove : ∀ a, Ancestor a (normalizePath new) ∨ Ancestor a (normalizePath old) → own .directory a) :
    Performs act (MayStore hs own) (renameSymlink hs old new) := by
  have hpublish : AllowsPublishAt hs (MayStore hs own) _ := allowsPublishAt_mayStore habove
  refine .bind (performs_ensureRenamable _ _) fun _ => .bind (performs_query _) fun _ => .bind (performs_query _) fun _ =>
    .bind (performs_now trivial) fun _ => .bind (mayStore_publishSymlink h (fun a ha => habove a (.inl ha)) _) fun _ => ?_
  exact .bind (mayStore_persistDeletion _) fun _ => .bind (performs_perform trivial) fun _ =>
    .bind (hpublish.removeFromParentDirectory fun _ => .inr) fun _ => .pure _

structure Healed (e₀ e : Engine H) : Prop where
  live : ∀ key, e.hasEntry key = e₀.hasEntry key
  kept : ∀ key v, (∀ t, v ≠ .link t) → e₀.get key = some v → e.get key = some v
  longer : e₀.log.length ≤ e.log.length

omit [DecidableEq H] in
lemma maintains_read {I : Engine H → Prop} {α : Type} (f : Engine H → EngineResult α) : Maintains I (query f) fun _ => True := by
  intro s hs
  refine ⟨?_, fun _ _ _ => trivial⟩
  rw [query]
  cases f s with
  | ok a => exact hs
  | error err => exact hs

variable {e₀ : Engine H}

omit [DecidableEq H] in
lemma Healed.refl (e : Engine H) : Healed e e := ⟨fun _ => rfl, fun _ _ _ h => h, le_rfl⟩

lemma Healed.store_link {s : Engine H} (h : Healed e₀ s) {key : H} {target : H} (hget : s.get key = some (.link target)) (t : H) :
    Healed e₀ (s.storeEntry .directoryIndex key (.link t)) where
  live k := by
    rw [hasEntry_storeEntry, ← h.live k, Bool.or_eq_right_iff_imp, decide_eq_true_eq]
    rintro rfl
    exact (hasEntry_iff _ _).mpr ⟨_, hget⟩
  kept k v hv hk := by
    rw [get_storeEntry, if_neg, h.kept k v hv hk]
    rintro rfl
    exact hv target (Option.some.inj ((h.kept k v hv hk).symm.trans hget))
  longer := h.longer.trans (by simp [storeEntry])

lemma healed_healStaleDirKey (path : Str) (canonical : H) : Maintains (Healed e₀) (healStaleDirKey hs path canonical) fun _ => True := by
  intro s hs'
  refine ⟨?_, fun _ _ _ => trivial⟩
  simp only [healStaleDirKey, query, bind, EStateM.bind]
  cases hget : s.get (hs.directoryPathHash path) with
  | none => exact hs'
  | some v =>
    cases v with
    | link target =>
      dsimp only
      split_ifs
      · exact hs'
      · exact hs'.store_link hget canonical
    | _ => exact hs'

lemma healed_healStaleDirKeysAlongPath (path : Str) : Maintains (Healed e₀) (healStaleDirKeysAlongPath hs path) fun _ => True := by
  refine .bind (maintains_read _) fun head _ => ?_
  split
  · exact .pure trivial
  · exact .bind (maintains_read _) fun walked _ => .forM fun w _ => healed_healStaleDirKey _ _

lemma healed_listDirectory (path : Str) : Maintains (Healed e₀) (listDirectory hs path) fun _ => True := by
  refine .bind (R := fun _ => True) (.bind (maintains_read _) fun recovered _ => ?_) fun data _ => ?_
  · split
    · exact .bind (R := fun _ => True) (fun s hs' => ⟨(healed_healStaleDirKeysAlongPath _ s hs').1, fun _ _ _ => trivial⟩) fun _ _ => .pure trivial
    · exact maintains_read _
  · split
    · exact maintains_read _
    · exact .throw _

end

namespace NamespaceOp

variable {op : NamespaceOp}

def Makes (op : NamespaceOp) (k : PathKind) (p : Str) : Prop :=
  op.target = some (k, p) ∨ k = .directory ∧ ∃ q ∈ op.paths, Ancestor p q

lemma deleteDirectory_eq_ok {path : Str} (h : Dir.deleteDirectory hs path e = .ok () e') : ∃ e₁,
    listDirectory hs (normalizePath path) e = .ok [] e₁ ∧ (do
      persistDeletion hs (normalizePath path)
      perform (.markDeleted (hs.directoryPathHash (normalizePath path)))
      removeFromParentDirectory hs (normalizePath path)) e₁ = .ok () e' := by
  rw [Dir.deleteDirectory] at h
  dsimp only at h
  split_ifs at h
  · cases h
  · obtain ⟨children, e₁, hlist, h⟩ := estate_bind_eq_ok.mp h
    split_ifs at h with hne
    · cases h
    · rw [not_not.mp hne] at hlist
      exact ⟨e₁, hlist, h⟩

lemma mayStore_run (hop : ∀ path, op ≠ .deleteDirectory path) : Performs act (MayStore hs op.Makes) (op.run hs env) := by
  have habove : ∀ p ∈ op.paths, ∀ a, Ancestor a p → op.Makes .directory a := fun p hp a ha => .inr ⟨rfl, p, hp, ha⟩
  cases op with
  | storeFile path data t =>
    exact .bind ((allowsFile_mayStore (.inl rfl)).storeFileBuffered (allowsPublishAt_mayStore (habove _ (by simp [paths, target])))
      (fun _ ha => ha) data t) fun _ => .pure _
  | storeSymlink path link =>
    refine .bind ?_ fun _ => .pure _
    refine .ite (fun _ => .throw _) fun _ => .ite (fun _ => .throw _) fun _ => .ite (fun _ => .throw _) fun _ => .ite (fun _ => .throw _) fun _ => ?_
    exact .bind (performs_query _) fun _ => .bind (performs_now trivial) fun _ =>
      .bind (mayStore_publishSymlink (.inl rfl) (habove _ (by simp [paths, target])) _) fun _ => .pure _
  | createDirectory path => exact mayStore_createDirectory (.inl rfl) (habove _ (by simp [paths, target]))
  | renameFile old new =>
    refine .bind (mayStore_renameFile (.inl rfl) ?_) fun _ => .pure _
    rintro a (ha | ha)
    · exact habove _ (by simp [paths, target]) a ha
    · exact habove _ (by simp [paths, source]) a ha
  | renameSymlink old new =>
    refine .bind (mayStore_renameSymlink (.inl rfl) ?_) fun _ => .pure _
    rintro a (ha | ha)
    · exact habove _ (by simp [paths, target]) a ha
    · exact habove _ (by simp [paths, source]) a ha
  | deleteFile path =>
    have hclear := mayStore_clear hs (hs.filePathHash (normalizePath path)) (habove (normalizePath path) (by simp [paths, source]))
    exact .bind (performs_query _) fun _ => .ite (fun _ => hclear) fun _ => .bind mayStore_autoSnapshot fun _ => hclear
  | deleteSymlink path => exact .bind (performs_query _) fun _ => mayStore_clear hs _ (habove _ (by simp [paths, source]))
  | deleteDirectory path => exact absurd rfl (hop path)

lemma live_of_run (hrun : op.run hs env e = .ok () e') {k : PathKind} {p : Str} (h : LiveAs hs e' k p) : op.Makes k p ∨ LiveAs hs e k p := by
  by_cases hop : ∀ path, op ≠ .deleteDirectory path
  · exact live_of_ran ((mayStore_run hop).ok hrun) h
  · simp only [not_forall, not_not] at hop
    obtain ⟨path, rfl⟩ := hop
    obtain ⟨e₁, hlist, hclear⟩ := deleteDirectory_eq_ok hrun
    have hperforms : Performs act (MayStore hs (NamespaceOp.deleteDirectory path).Makes) _ :=
      mayStore_clear hs (hs.directoryPathHash (normalizePath path)) fun a ha =>
        .inr ⟨rfl, normalizePath path, by simp [paths, source], ha⟩
    refine (live_of_ran (hperforms.ok hclear) h).imp_right fun hlive => ?_
    have hhealed : Healed e (final (listDirectory hs (normalizePath path) e)) := (healed_listDirectory _ e (.refl e)).1
    rw [hlist] at hhealed
    rw [LiveAs, ← hhealed.live]
    exact hlive

end NamespaceOp

lemma Ancestor.length_lt {a p : Str} (h : Ancestor a p) : (resolved a).length < (resolved p).length := by
  induction h with
  | single h => exact length_resolved_parentPath_lt h
  | tail _ h ih => exact (length_resolved_parentPath_lt h).trans ih

/-- The operation finds at its path nothing of another kind, only directories above, and does not create a directory over a filled one. -/
structure Apart (hs : Hasher H) (e : Engine H) (op : NamespaceOp) : Prop where
  kind : ∀ k p, op.target = some (k, p) → ∀ k', LiveAs hs e k' p → k' = k
  above : ∀ p ∈ op.paths, ∀ a, Ancestor a p → ∀ k, LiveAs hs e k a → k = .directory
  beside : ∀ k p, op.target = some (k, p) → ∀ q ∈ op.source, ¬ Ancestor p q
  empty : ∀ p, op.target = some (.directory, p) → LiveAs hs e .directory p → listing hs e p = .ok []

section

variable {op : NamespaceOp}

omit [DecidableEq H] in
lemma mem_paths {p : Str} : p ∈ op.paths ↔ (∃ k, op.target = some (k, p)) ∨ op.source = some p := by
  simp [NamespaceOp.paths]

lemma Apart.not_above (hop : Apart hs e op) {k : PathKind} {p q : Str} (ht : op.target = some (k, p)) (hq : q ∈ op.paths) : ¬ Ancestor p q := by
  rcases mem_paths.mp hq with ⟨k', ht'⟩ | hsource
  · obtain ⟨_, rfl⟩ := Prod.mk.inj (Option.some.inj (ht.symm.trans ht'))
    exact fun h => lt_irrefl _ h.length_lt
  · exact hop.beside k p ht q hsource

lemma Apart.oneKind (hop : Apart hs e op) (h : OneKind hs e) (hrun : op.run hs env e = .ok () e') : OneKind hs e' := by
  -- what the operation makes agrees with what is there and with what else it makes
  have hmade : ∀ p k k', op.Makes k p → LiveAs hs e k' p → k' = k := by
    rintro p k k' (ht | ⟨rfl, q, hq, ha⟩) hlive
    · exact hop.kind k p ht k' hlive
    · exact hop.above q hq p ha k' hlive
  have hboth : ∀ p k k', op.Makes k p → op.Makes k' p → k = k' := by
    rintro p k k' (ht | ⟨rfl, q, hq, ha⟩) (ht' | ⟨rfl, q', hq', ha'⟩)
    · exact (Prod.mk.inj (Option.some.inj (ht.symm.trans ht'))).1
    · exact absurd ha' (hop.not_above ht hq')
    · exact absurd ha (hop.not_above ht' hq)
    · rfl
  intro p k k' hk hk'
  rcases NamespaceOp.live_of_run hrun hk with hm | hl <;> rcases NamespaceOp.live_of_run hrun hk' with hm' | hl'
  · exact hboth p k k' hm hm'
  · exact (hmade p k k' hm hl').symm
  · exact hmade p k' k hm' hl
  · exact h p k k' hl hl'

lemma listing_of_listedFrom {t : EntryType} {seen pre rest : List Str} (hrest : rest ≠ [])
    (h : listedFrom hs e t seen (pre ++ rest) = true) : ∃ l, listing hs e (pathOf (seen ++ pre)) = .ok l ∧ l ≠ [] := by
  induction pre generalizing seen with
  | nil =>
    obtain ⟨s, rest, rfl⟩ := exists_cons_of_ne_nil hrest
    rw [nil_append, listedFrom] at h
    rw [append_nil]
    split at h
    · cases h
    case h_2 l hl =>
      obtain ⟨c, hc, _⟩ := any_eq_true.mp h
      exact ⟨l, hl, ne_nil_of_mem hc⟩
  | cons s pre ih =>
    rw [cons_append, listedFrom] at h
    split at h
    · cases h
    · obtain ⟨c, _, hc⟩ := any_eq_true.mp h
      rw [Bool.and_eq_true, if_neg (by simp [hrest]), Bool.and_eq_true] at hc
      obtain ⟨l, hl, hne⟩ := ih hc.2.2
      exact ⟨l, by rwa [append_assoc] at hl, hne⟩

lemma live_of_listing {path : Str} {l : List (ChildEntry H)} (h : listing hs e path = .ok l) :
    LiveAs hs e .directory (normalizePath path) := by
  cases hget : e.get (hs.directoryPathHash (normalizePath path)) with
  | some v => exact (hasEntry_iff _ _).mpr ⟨v, hget⟩
  | none =>
    have hrecover : recoverDirectoryDataIfStale e (normalizePath path) (hs.directoryPathHash (normalizePath path)) = .ok none := by
      rw [recoverDirectoryDataIfStale, hget]
    have hread : readDirectoryData e (hs.directoryPathHash (normalizePath path)) = none := by
      rw [readDirectoryData, hget]
    simp only [listing, listDirectory, hrecover, hread, query, bind, EStateM.bind] at h
    cases h

omit [DecidableEq H] in
lemma live_of_requireRecord {α : Type} {k : PathKind} {p path : Str} {decode : Value H → EngineResult α} {a : α}
    (h : query (fun e => requireRecord e (k.key hs p) decode path) e = .ok a e') : LiveAs hs e k p ∧ e' = e := by
  obtain ⟨h, heq⟩ := query_eq_ok.mp h
  obtain ⟨o, ho, h⟩ := bind_eq_ok.mp h
  refine ⟨?_, heq⟩
  cases hget : e.get (k.key hs p) with
  | some v => exact (hasEntry_iff _ _).mpr ⟨v, hget⟩
  | none =>
    rw [lookupRecord, hget] at ho
    cases ho
    cases h

lemma eq_of_ensureRenamable {old new : Str} {u : Unit} (h : ensureRenamable old new e = .ok u e') : e' = e :=
  ((performs_ensureRenamable (P := fun _ => False) old new).ok h).invariant (I := fun s => s = e) (fun _ _ hnone => hnone.elim) rfl

lemma of_source (hrun : op.run hs env e = .ok () e') {p : Str} (hsource : op.source = some p) :
    LiveAs hs e .file p ∨ LiveAs hs e .symlink p ∨ listing hs e p = .ok [] := by
  cases op with
  | renameFile old new =>
    cases hsource
    obtain ⟨_, _, h, _⟩ := estate_bind_eq_ok.mp hrun
    obtain ⟨_, _, hcheck, h⟩ := estate_bind_eq_ok.mp h
    obtain ⟨_, _, hrecord, _⟩ := estate_bind_eq_ok.mp h
    rw [eq_of_ensureRenamable hcheck] at hrecord
    exact .inl (live_of_requireRecord (k := .file) hrecord).1
  | renameSymlink old new =>
    cases hsource
    obtain ⟨_, _, h, _⟩ := estate_bind_eq_ok.mp hrun
    obtain ⟨_, _, hcheck, h⟩ := estate_bind_eq_ok.mp h
    obtain ⟨_, _, hrecord, _⟩ := estate_bind_eq_ok.mp h
    rw [eq_of_ensureRenamable hcheck] at hrecord
    exact .inr (.inl (live_of_requireRecord (k := .symlink) hrecord).1)
  | deleteFile path =>
    cases hsource
    obtain ⟨_, _, h, _⟩ := estate_bind_eq_ok.mp hrun
    exact .inl (live_of_requireRecord (k := .file) h).1
  | deleteSymlink path =>
    cases hsource
    obtain ⟨_, _, h, _⟩ := estate_bind_eq_ok.mp hrun
    exact .inr (.inl (live_of_requireRecord (k := .symlink) h).1)
  | deleteDirectory path =>
    cases hsource
    obtain ⟨e₁, hlist, _⟩ := NamespaceOp.deleteDirectory_eq_ok hrun
    refine .inr (.inr ?_)
    rw [listing, hlist]
  | _ => cases hsource

lemma Apart.nothing_below (hop : Apart hs e op) (h : OneKind hs e) (hrun : op.run hs env e = .ok () e') {pre rest : List Str}
    (hpre : Clean pre) (hrest : rest ≠ []) (hp : pathOf pre ∈ op.paths) {t : EntryType} : listedFrom hs e t [] (pre ++ rest) = false := by
  rw [← Bool.not_eq_true]
  intro hlisted
  obtain ⟨l, hl, hne⟩ := listing_of_listedFrom hrest hlisted
  rw [nil_append] at hl
  have hdir := live_of_listing hl
  rw [normalizePath_pathOf hpre] at hdir
  have hfilled : listing hs e (pathOf pre) ≠ .ok [] := by
    rw [hl]
    exact fun heq => hne (Except.ok.inj heq)
  rcases mem_paths.mp hp with ⟨k, htarget⟩ | hsource
  · obtain rfl := hop.kind k _ htarget _ hdir
    exact hfilled (hop.empty _ htarget hdir)
  · rcases of_source hrun hsource with hfile | hlink | hempty
    · cases h _ _ _ hdir hfile
    · cases h _ _ _ hdir hlink
    · exact hfilled hempty

end

inductive ReachedApart (hs : Hasher H) (env : Env) (clock : ℕ → ℤ) : Engine H → Prop where
  | start : ReachedApart hs env clock (rootOnly hs clock)
  | step {e e' : Engine H} {op : NamespaceOp} : ReachedApart hs env clock e → Apart hs e op → op.run hs env e = .ok () e' →
      ReachedApart hs env clock e'

lemma live_rootOnly {clock : ℕ → ℤ} {k : PathKind} {p : Str} (h : LiveAs hs (rootOnly hs clock) k p) : k = .directory ∧ p = pathOf [] := by
  obtain ⟨v, hv⟩ := (hasEntry_iff _ _).mp h
  rw [get_rootOnly] at hv
  split_ifs at hv with hkey
  rcases hkey with hkey | hkey
  · exact absurd hkey.symm (ne_key_of_compute (by simp) k p)
  · exact key_inj.mp (hkey : PathKind.key hs k p = PathKind.key hs .directory (pathOf []))

lemma oneKind_rootOnly (clock : ℕ → ℤ) : OneKind hs (rootOnly hs clock) := by
  intro p k k' hk hk'
  rw [(live_rootOnly hk).1, (live_rootOnly hk').1]

lemma ReachedApart.oneKind {clock : ℕ → ℤ} (h : ReachedApart hs env clock e) : OneKind hs e := by
  induction h with
  | start => exact oneKind_rootOnly clock
  | step _ hop hrun ih => exact hop.oneKind ih hrun

def storeA : NamespaceOp := .storeFile "/a".toList [7] none

def fileA : Engine Digest := final (storeA.run hasher plainEnv start)

lemma apart_storeA : Apart hasher start storeA where
  kind k p ht k' hlive := by
    obtain ⟨_, rfl⟩ := live_rootOnly hlive
    obtain ⟨_, hp⟩ := Prod.mk.inj (Option.some.inj ht)
    exact absurd hp (by decide)
  above p hp a ha k hlive := (live_rootOnly hlive).1
  beside k p ht q hq := nomatch hq
  empty p ht := nomatch ht

lemma reached_fileA : ReachedApart hasher plainEnv (fun n => n) fileA :=
  .step .start apart_storeA (eq_ok_final (by decide))

def storeInA : NamespaceOp := .storeFile "/a/f".toList [7] none

def fileInA : Engine Digest := final (storeInA.run hasher plainEnv start)

end AeorDb.Dir
