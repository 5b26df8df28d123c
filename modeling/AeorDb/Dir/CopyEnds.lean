import AeorDb.Dir.CreateSafe
import AeorDb.Dir.Invariants

/-! Recursive copy ends when the names in the tree are clean. -/

namespace AeorDb.Dir

open Store BTree Library Trace EngineM Hasher List

variable {H : Type} {hs : Hasher H} {D : ℕ}

structure Named (hs : Hasher H) (D : ℕ) (k : H) (v : Value H) : Prop where
  names : ∀ c ∈ entriesOf v, CleanName c.name
  deep : ∀ segments, Clean segments → D < segments.length → k = hs.directoryPathHash (pathOf segments) → v = .dir (.flat [])

lemma entryInvariant_named : EntryInvariant hs (fun c => CleanName c.name) (Named hs D) where
  stored _ hc := hc
  flat es hes := ⟨hes, fun _ _ _ hk => by simp [directoryContentHash, directoryPathHash] at hk⟩
  node n hn := ⟨hn, fun _ _ _ hk => by simp [btreeHash, directoryPathHash] at hk⟩
  entries _ _ h := h.names

lemma named_inline (k : H) : Named hs D k (.dir (.flat [])) := ⟨by simp [entriesOf], fun _ _ _ _ => rfl⟩

lemma named_link {q : List Str} (hq : Clean q) (hlen : q.length ≤ D) (t : H) : Named hs D (hs.directoryPathHash (pathOf q)) (.link t) := by
  refine ⟨by simp [entriesOf], fun segments hs' hlt hk => ?_⟩
  rw [pathOf_inj hq hs' (directoryPathHash_inj.mp hk)] at hlen
  omega

section

variable [DecidableEq H] {segments : List Str}

lemma cleanName_fileName (hs' : Clean segments) (hne : segments ≠ []) : CleanName ((fileName (pathOf segments)).getD []) := by
  obtain ⟨pre, s, rfl⟩ := (eq_nil_or_concat' segments).resolve_left hne
  obtain ⟨hpre, hs⟩ := clean_append.mp hs'
  rw [fileName_append hpre hs]
  exact hs

variable {c : ChildEntry H} {path : Str}

lemma maintains_updateParentsFrom (hD : maxDirectoryDepth ≤ D) {depth : ℕ} (hdepth : depth ≤ maxDirectoryDepth)
    (hs' : Clean segments) (hne : segments ≠ []) (hc : CleanName c.name)
    {batch : WriteBatch H} (hb : segments.length ≤ depth → GoodBatch (Named hs D) batch) :
    Maintains (Engine.Sound (Named hs D)) (updateParentsFrom hs depth (pathOf segments) c batch) fun _ => True := by
  induction depth generalizing segments c batch with
  | zero => exact .throw _
  | succ depth ih =>
    obtain ⟨pre, s, rfl⟩ := (eq_nil_or_concat' segments).resolve_left hne
    obtain ⟨hpre, hs''⟩ := clean_append.mp hs'
    have hlen : (pre ++ [s]).length = pre.length + 1 := by simp
    have hroot : pathOf pre = ['/'] → pre = [] := fun hp => by
      by_contra hnil
      exact pathOf_ne_root hpre hnil hp
    simp only [updateParentsFrom, parentPath_append hpre hs'']
    refine .ite (fun hsys => ?_) fun _ => ?_
    · exact maintains_flush (hb (by simp [hroot hsys.1]))
    · refine .bind (R := fun o => ∀ v, o = some v → ∀ x ∈ entriesOf v, CleanName x.name) (maintains_query ?_) ?_
      · rintro e he o ho v rfl
        exact entries_existingData entryInvariant_named he ho
      intro existing hv
      refine .bind (maintains_rewriteWith entryInvariant_named hv hc) fun r hr => ?_
      have hb' : pre.length ≤ depth → GoodBatch (Named hs D) (batch ++ r.batch ++
          [(.directoryIndex, hs.directoryPathHash (pathOf pre), .link r.contentKey)]) := by
        intro hle w hw
        rcases mem_append.mp hw with hw | hw
        · rcases mem_append.mp hw with hw | hw
          · exact hb (by omega) w hw
          · exact hr w hw
        · rw [mem_singleton.mp hw]
          exact named_link hpre (by omega) _
      refine .ite (fun hp => ?_) fun hp => ?_
      · exact .bind (maintains_flush (hb' (by simp [hroot hp]))) fun _ _ => (fun _ he => ⟨he, fun _ _ _ => trivial⟩)
      · have hnil : pre ≠ [] := fun hnil => hp (by rw [hnil]; rfl)
        exact .bind maintains_now fun now _ => ih (by omega) hpre hnil (cleanName_fileName hpre hnil) hb'

lemma maintains_updateParentDirectories (hD : maxDirectoryDepth ≤ D) (hs' : Clean segments)
    (hne : segments ≠ []) (hc : CleanName c.name) :
    Maintains (Engine.Sound (Named hs D)) (updateParentDirectories hs (pathOf segments) c) fun _ => True :=
  maintains_updateParentsFrom hD le_rfl hs' hne hc fun _ => by simp [GoodBatch]

lemma maintains_createDirectory (hD : maxDirectoryDepth ≤ D) (hs' : Clean segments)
    (hp : normalizePath path = pathOf segments) : Maintains (Engine.Sound (Named hs D)) (createDirectory hs path) fun _ => True := by
  unfold createDirectory
  simp only [hp]
  refine .bind (maintains_store _ (named_inline _)) fun _ _ => .bind (maintains_store _ (named_inline _)) fun _ _ =>
    .bind maintains_now fun now _ => .ite (fun _ => .pure trivial) fun hroot => ?_
  have hne : segments ≠ [] := fun hnil => hroot (by rw [hnil]; rfl)
  exact maintains_updateParentDirectories hD hs' hne (cleanName_fileName hs' hne)

lemma maintains_healStaleDirKey (path : Str) (canonical : H) :
    Maintains (Engine.Sound (Named hs D)) (healStaleDirKey hs path canonical) fun _ => True := by
  refine .bind (R := fun o => ∀ t, o = some (.link t) → Named hs D (hs.directoryPathHash path) (.link canonical))
    (maintains_query ?_) fun o ho => ?_
  · intro e he o ho t heq
    cases ho
    refine ⟨by simp [entriesOf], fun segments hs' hlt hk => ?_⟩
    cases (he _ _ heq).deep segments hs' hlt hk
  · split
    · exact .ite (fun _ => .pure trivial) fun _ => maintains_store _ (ho _ rfl)
    · exact .pure trivial

lemma maintains_healStaleDirKeysAlongPath (path : Str) :
    Maintains (Engine.Sound (Named hs D)) (healStaleDirKeysAlongPath hs path) fun _ => True := by
  refine .bind (R := fun _ => True) (maintains_query fun _ _ _ _ => trivial) fun o _ => ?_
  split
  · exact .pure trivial
  · exact .bind (R := fun _ => True) (maintains_query fun _ _ _ _ => trivial) fun walked _ =>
      .forM fun w _ => maintains_healStaleDirKey w.1 w.2

lemma maintains_listDirectory (hs' : Clean segments) (hp : normalizePath path = pathOf segments) :
    Maintains (Engine.Sound (Named hs D)) (listDirectory hs path)
      fun l => (∀ c ∈ l, CleanName c.name) ∧ (D < segments.length → l = []) := by
  unfold listDirectory
  simp only [hp]
  refine .bind (R := fun o => ∀ v, o = some v → (∀ x ∈ entriesOf v, CleanName x.name) ∧ (D < segments.length → v = .dir (.flat [])))
    ?_ fun o ho => ?_
  · refine .bind (R := fun o => ∀ v, o = some v → (∀ x ∈ entriesOf v, CleanName x.name) ∧ ¬ D < segments.length)
      (maintains_query ?_) fun o ho => ?_
    · rintro e he o ho v rfl
      refine ⟨entries_recover entryInvariant_named he ho, fun hlt => ?_⟩
      unfold recoverDirectoryDataIfStale at ho
      split at ho
      · next hget _ => cases (he _ _ hget).deep segments hs' hlt rfl
      · cases ho
    · split
      · refine .bind (maintains_ignore (maintains_healStaleDirKeysAlongPath _)) fun _ _ => .pure ?_
        rintro v ⟨⟩
        exact ⟨(ho _ rfl).1, fun hlt => absurd hlt (ho _ rfl).2⟩
      · refine maintains_query ?_
        rintro e he o ho' v rfl
        refine ⟨entries_readDirectoryData entryInvariant_named he (Except.ok.inj ho'), fun hlt => ?_⟩
        have hread := Except.ok.inj ho'
        unfold readDirectoryData at hread
        split at hread
        · next hget => cases (he _ _ hget).deep segments hs' hlt rfl
        · exact (he _ _ hread).deep segments hs' hlt rfl
  · split
    · next v =>
      obtain ⟨hnames, hdeep⟩ := ho v rfl
      refine maintains_query ?_
      rintro e he l ⟨⟩
      unfold listData
      split
      · next children hchildren =>
        refine ⟨fun c hc => ?_, fun hlt => ?_⟩
        · exact entries_childrenOf entryInvariant_named he hnames hchildren c (mem_of_mem_filter hc)
        · rw [hdeep hlt] at hchildren
          cases hchildren
          rfl
      · exact ⟨by simp, fun _ => rfl⟩
    · exact .throw _

lemma maintains_publishFileRecord (hs' : Clean segments) (hne : segments ≠ []) (input : PublishInput H)
    (hp : normalizePath input.path = pathOf segments) : Maintains (Engine.Sound (Named hs D)) (publishFileRecord hs input)
      fun p => p.path = pathOf segments ∧ CleanName p.child.name := by
  have hfile : ∀ {k : H} (record : FileRecord H), (∀ path, k ≠ hs.directoryPathHash path) →
      Maintains (Engine.Sound (Named hs D)) (perform (.store .fileRecord k (.file record))) fun _ => True :=
    fun record hk => maintains_store _ ⟨by simp [entriesOf], fun _ _ _ h => absurd h (hk _)⟩
  unfold publishFileRecord
  simp only [hp]
  refine .bind (R := fun _ => True) (maintains_query fun _ _ _ _ => trivial) fun existing _ =>
    .bind maintains_now fun now _ => .bind (R := fun _ => True) ?_ fun _ _ => .bind maintains_now fun now _ => .pure ?_
  · refine .bind (R := fun _ => True) (maintains_attempt fun _ _ => trivial) fun data _ => ?_
    refine .bind (hfile _ ?_) fun _ _ => .bind (hfile _ ?_) fun _ _ => .bind (hfile _ ?_) fun _ _ => .pure trivial
    · simp [fileContentHash, directoryPathHash]
    · simp [fileIdentityHash, directoryPathHash]
    · simp [filePathHash, directoryPathHash]
  · exact ⟨rfl, cleanName_fileName hs' hne⟩

lemma maintains_copyFile (hD : maxDirectoryDepth ≤ D) (hs' : Clean segments) {source target : Str}
    (hp : normalizePath target = pathOf segments) : Maintains (Engine.Sound (Named hs D)) (copyFile hs source target) fun _ => True := by
  unfold copyFile
  simp only [hp]
  refine .ite (fun _ => .throw_bind _) fun hroot => .ite (fun _ => .throw_bind _) fun _ => .ite (fun _ => .throw_bind _) fun _ => ?_
  have hne : segments ≠ [] := fun hnil => hroot (Or.inr (by rw [hnil]; rfl))
  have hp' : normalizePath (normalizePath (pathOf segments)) = pathOf segments := by
    rw [normalizePath_pathOf hs', normalizePath_pathOf hs']
  refine .bind (R := fun _ => True) (maintains_query fun _ _ _ _ => trivial) fun record _ => .bind (R := fun _ => True) ?_
    fun _ _ => maintains_query fun _ _ _ _ => trivial
  refine .bind (maintains_publishFileRecord hs' hne _ hp') fun p hpub => ?_
  rw [hpub.1]
  exact maintains_updateParentDirectories hD hs' hne hpub.2

lemma normalizePath_copyChild {segments : List Str} (hs' : Clean segments) {name : Str} (hn : CleanName name) :
    normalizePath (trimEnd (· = '/') (pathOf segments) ++ '/' :: name) = pathOf (segments ++ [name]) := by
  rw [trimEnd_slash_pathOf hs', ← slashed_append, ← pathOf_eq_slashed (by simp)]
  exact normalizePath_pathOf (clean_append.mpr ⟨hs', hn⟩)

variable {source target : Str}

omit [DecidableEq H] in
lemma maintains_copyChildren {copy : Str → Str → EngineM H (Option (List Str))} {children : List (ChildEntry H)}
    (hcopy : ∀ c ∈ children, Maintains (Engine.Sound (Named hs D))
      (copy (trimEnd (· = '/') source ++ '/' :: c.name) (trimEnd (· = '/') target ++ '/' :: c.name)) (· ≠ none)) :
    Maintains (Engine.Sound (Named hs D)) (copyChildren copy source target children) (· ≠ none) := by
  induction children with
  | nil => exact .pure (by simp)
  | cons c children ih =>
    obtain ⟨hc, hrest⟩ := forall_mem_cons.mp hcopy
    refine .bind hc fun o ho => ?_
    cases o with
    | none => exact absurd rfl ho
    | some copied =>
      refine .bind (ih hrest) fun o ho => ?_
      cases o with
      | none => exact absurd rfl ho
      | some rest => exact .pure (by simp)

lemma maintains_copyPath (hD : maxDirectoryDepth ≤ D) {fuel : ℕ} {ss ts : List Str} (hss : Clean ss) (hts : Clean ts)
 (hsource : normalizePath source = pathOf ss) (htarget : normalizePath target = pathOf ts)
    (hfuel : D + 2 ≤ fuel + ss.length) (hpos : 0 < fuel) :
    Maintains (Engine.Sound (Named hs D)) (copyPath hs fuel source target) (· ≠ none) := by
  induction fuel generalizing ss ts source target with
  | zero => omega
  | succ fuel ih =>
    unfold copyPath
    simp only [hsource, htarget]
    refine .bind (R := fun _ => True) (maintains_query fun _ _ _ _ => trivial) fun isDir _ => .ite (fun _ => ?_) fun _ => ?_
    · refine .bind (maintains_ignore (maintains_createDirectory hD hts (normalizePath_pathOf hts))) fun _ _ => ?_
      refine .bind (maintains_listDirectory hss (normalizePath_pathOf hss)) fun children hchildren => ?_
      refine maintains_copyChildren fun c hc => ?_
      have hname := hchildren.1 c hc
      have hshallow : ss.length ≤ D := by
        by_contra hlt
        rw [hchildren.2 (by omega)] at hc
        cases hc
      exact ih (clean_append.mpr ⟨hss, hname⟩) (clean_append.mpr ⟨hts, hname⟩) (normalizePath_copyChild hss hname)
        (normalizePath_copyChild hts hname) (by simp; omega) (by omega)
    · exact .bind (maintains_copyFile hD hts (normalizePath_pathOf hts)) fun _ _ => .pure (by simp)

end

def CleanNames (e : Engine H) : Prop := ∀ k v, e.get k = some v → ∀ c ∈ entriesOf v, CleanName c.name

lemma cleanNames_of_log {e : Engine H} (h : ∀ r ∈ e.log, ∀ c ∈ entriesOf r.value, CleanName c.name) : CleanNames e := by
  intro k v hget
  obtain ⟨r, hr, rfl⟩ := Option.map_eq_some_iff.mp hget
  exact h r (e.getEntry_mem_log k r hr)

lemma exists_depth (hs : Hasher H) (e : Engine H) : ∃ D, ∀ segments, Clean segments →
    e.hasEntry (hs.directoryPathHash (pathOf segments)) = true → segments.length ≤ D := by
  have hfinite : {segments | Clean segments ∧ e.hasEntry (hs.directoryPathHash (pathOf segments)) = true}.Finite := by
    refine Set.Finite.of_finite_image (f := fun segments => hs.directoryPathHash (pathOf segments)) ?_ ?_
    · refine Set.Finite.subset (finite_toSet (e.log.map LogEntry.key)) ?_
      rintro _ ⟨segments, ⟨_, hlive⟩, rfl⟩
      obtain ⟨r, hr⟩ := Option.isSome_iff_exists.mp hlive
      exact mem_map.mpr ⟨r, e.getEntry_mem_log _ r hr, e.getEntry_key _ r hr⟩
    · intro p hp q hq heq
      exact pathOf_inj hp.1 hq.1 (directoryPathHash_inj.mp heq)
  obtain ⟨D, hbound⟩ := (hfinite.image List.length).bddAbove
  exact ⟨D, fun segments hs' hlive => hbound ⟨segments, ⟨hs', hlive⟩, rfl⟩⟩

end AeorDb.Dir
