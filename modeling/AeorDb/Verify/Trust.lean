import AeorDb.Dir.Kinds
import AeorDb.Verify.Report

/-! What a clean report says about the tree below HEAD. -/

namespace AeorDb.Verify

open Store BTree Dir Version Library Trace Result Digest EngineM List Option Engine Except

variable {H : Type} {hs : Hasher H} {e e₁ : Engine H} {q : List Str} {h : H} {es : List (ChildEntry H)}

def ChildrenAt (e : Engine H) (h : H) (es : List (ChildEntry H)) : Prop := ∃ v, e.get h = some v ∧ childrenOf e v = .ok es

def TreeDir (e : Engine H) (q : List Str) (h : H) : Prop := ∃ head, e.head = some head ∧ walk e head q = .ok (some h)

variable {s : Str} {t : H}

lemma walk_cons_some {rest : List Str} (hwalk : walk e h (s :: rest) = .ok (some t)) :
    ∃ es c, ChildrenAt e h es ∧ es.find? (·.name = s) = some c ∧ c.entryType = .directoryIndex ∧ walk e c.hash rest = .ok (some t) := by
  rw [walk] at hwalk
  split at hwalk
  · cases hwalk
  · cases hwalk
  case h_3 v _ hget =>
    obtain ⟨children, hchildren, hwalk⟩ := bind_eq_ok.mp hwalk
    split at hwalk
    · cases hwalk
    case h_2 c hfind =>
      split_ifs at hwalk with hdir
      · exact ⟨children, c, ⟨v, hget, hchildren⟩, hfind, hdir, hwalk⟩
      · cases hwalk

lemma walk_append_some {pre : List Str} (hwalk : walk e h (pre ++ [s]) = .ok (some t)) :
    ∃ hp es c, walk e h pre = .ok (some hp) ∧ ChildrenAt e hp es ∧ c ∈ es ∧ c.name = s ∧ c.entryType = .directoryIndex := by
  induction pre generalizing h with
  | nil =>
    obtain ⟨es, c, hes, hfind, hdir, _⟩ := walk_cons_some hwalk
    exact ⟨h, es, c, rfl, hes, mem_of_find?_eq_some hfind, by simpa using find?_some hfind, hdir⟩
  | cons a pre ih =>
    obtain ⟨es, c, hes, hfind, hdir, hwalk⟩ := walk_cons_some hwalk
    obtain ⟨hp, es', c', hpre, hrest⟩ := ih hwalk
    refine ⟨hp, es', c', ?_, hrest⟩
    obtain ⟨v, hget, hchildren⟩ := hes
    rw [walk, hget]
    split
    · next heq => cases heq
    · next heq =>
      cases heq
      cases hchildren
      cases hfind
    · next heq =>
      cases heq
      rw [hchildren]
      simpa [bind, Except.bind, hfind, hdir] using hpre

lemma TreeDir.parent {s : Str} (ht : TreeDir e (q ++ [s]) h) : ∃ hp es c, TreeDir e q hp ∧ ChildrenAt e hp es ∧ c ∈ es ∧ c.name = s ∧
    c.entryType = .directoryIndex := by
  obtain ⟨head, hhead, hwalk⟩ := ht
  obtain ⟨hp, es, c, hpre, hes, hc⟩ := walk_append_some hwalk
  exact ⟨hp, es, c, ⟨head, hhead, hpre⟩, hes, hc⟩

lemma readNode_healed (hh : Healed e e₁) {missing : String} {node : BTreeNode H} (hread : readNode e false h missing = .ok node) :
    readNode e₁ false h missing = .ok node := by
  rw [readNode, fetch] at hread ⊢
  cases hget : e.get h with
  | none =>
    rw [hget] at hread
    cases hread
  | some v =>
    rw [hget] at hread
    have hlink : ∀ t, v ≠ .link t := by
      rintro t rfl
      cases hread
    rw [hh.kept h v hlink hget]
    exact hread

lemma listFrom_healed (hh : Healed e e₁) {fuel fuel' : ℕ} (hle : fuel ≤ fuel') (hlist : listFrom e false fuel h = .ok es) :
    listFrom e₁ false fuel' h = .ok es := by
  induction fuel generalizing fuel' h es with
  | zero => cases hlist
  | succ fuel ih =>
    obtain ⟨fuel', rfl⟩ := Nat.exists_eq_succ_of_ne_zero (by omega : fuel' ≠ 0)
    obtain ⟨node, hnode, hlist⟩ := bind_eq_ok.mp hlist
    rw [listFrom, readNode_healed hh hnode]
    cases node with
    | leaf es' => exact hlist
    | internal ks cs =>
      obtain ⟨ess, hess, rfl⟩ := map_eq_ok.mp hlist
      have hmap : cs.mapM (listFrom e₁ false fuel') = .ok ess := mapM_eq_ok.mpr ((mapM_eq_ok.mp hess).imp fun _ _ hc => ih (by omega) hc)
      exact map_eq_ok.mpr ⟨ess, hmap, rfl⟩

lemma childrenOf_healed (hh : Healed e e₁) {v : Value H} (hchildren : childrenOf e v = .ok es) : childrenOf e₁ v = .ok es := by
  cases v with
  | dir data =>
    cases data with
    | flat fs => exact hchildren
    | node n =>
      obtain ⟨node, hnode, hlist⟩ := bind_eq_ok.mp hchildren
      rw [childrenOf, btreeListFromNode, hnode]
      cases node with
      | leaf es' => exact hlist
      | internal ks cs =>
        obtain ⟨ess, hess, rfl⟩ := map_eq_ok.mp hlist
        have hmap : cs.mapM (btreeList e₁ · false) = .ok ess :=
          mapM_eq_ok.mpr ((mapM_eq_ok.mp hess).imp fun _ _ hc => listFrom_healed hh hh.longer hc)
        exact map_eq_ok.mpr ⟨ess, hmap, rfl⟩
  | _ => cases hchildren

section

variable [DecidableEq H]

/-- The children that a listing of the directory `q` of HEAD's tree starts from: those of the tree if the path key is a link. -/
def keyChildren (hs : Hasher H) (e : Engine H) (q : List Str) (es : List (ChildEntry H)) : Option (List (ChildEntry H)) :=
  match e.get (hs.directoryPathHash (pathOf q)) with
  | none => none
  | some (.link _) => some es
  | some v => some ((childrenOf e v).toOption.getD [])

variable {v : Value H}

omit [DecidableEq H] in
lemma listData_eq {path : Str} : listData hs e path v = ((childrenOf e v).toOption.getD []).filter (isLiveChild hs e path) := by
  rw [listData]
  cases childrenOf e v with
  | ok es => rfl
  | error err => rfl

lemma listing_link (hq : Clean q) (ht : TreeDir e q h) (hes : ChildrenAt e h es) {t : H}
    (hkey : e.get (hs.directoryPathHash (pathOf q)) = some (.link t)) :
    listing hs e (pathOf q) = .ok (es.filter (isLiveChild hs e (pathOf q))) := by
  obtain ⟨head, hhead, hwalk⟩ := ht
  obtain ⟨v, hget, hchildren⟩ := hes
  have hrecover : recoverDirectoryDataIfStale e (pathOf q) (hs.directoryPathHash (pathOf q)) =
      if t = h then .ok none else .ok (some v) := by
    rw [recoverDirectoryDataIfStale, hkey, hhead]
    dsimp only
    rw [normalizePath_pathOf hq, splitSegments_pathOf hq, hwalk]
    change (if t = h then Except.ok none else Except.ok (e.get h)) = _
    rw [hget]
  have hread : t = h → readDirectoryData e (hs.directoryPathHash (pathOf q)) = some v := by
    rintro rfl
    rw [readDirectoryData, hkey]
    exact hget
  by_cases hstale : t = h
  · rw [if_pos hstale] at hrecover
    simp only [listing, listDirectory, normalizePath_pathOf hq, hrecover, hread hstale, query, bind, EStateM.bind, listData, hchildren]
  · rw [if_neg hstale] at hrecover
    have hhealed : Healed e (final (healStaleDirKeysAlongPath hs (pathOf q) e)) := (healed_healStaleDirKeysAlongPath _ e (.refl e)).1
    simp only [listing, listDirectory, normalizePath_pathOf hq, hrecover, query, bind, EStateM.bind, ignore, pure, EStateM.pure,
      listData, childrenOf_healed hhealed hchildren]
    refine congrArg _ (filter_congr fun c _ => ?_)
    unfold isLiveChild
    split
    · exact hhealed.live _
    · exact hhealed.live _
    · exact hhealed.live _
    · rfl

lemma listing_other (hq : Clean q) (hkey : e.get (hs.directoryPathHash (pathOf q)) = some v) (hv : ∀ t, v ≠ .link t) :
    listing hs e (pathOf q) = .ok (listData hs e (pathOf q) v) := by
  have hrecover : recoverDirectoryDataIfStale e (pathOf q) (hs.directoryPathHash (pathOf q)) = .ok none := by
    rw [recoverDirectoryDataIfStale, hkey]
    cases v with
    | link t => exact absurd rfl (hv t)
    | _ => rfl
  have hread : readDirectoryData e (hs.directoryPathHash (pathOf q)) = some v := by
    rw [readDirectoryData, hkey]
    cases v with
    | link t => exact absurd rfl (hv t)
    | _ => rfl
  simp only [listing, listDirectory, normalizePath_pathOf hq, hrecover, hread, query, bind, EStateM.bind]

lemma listing_eq_ok_iff (hq : Clean q) (ht : TreeDir e q h) (hes : ChildrenAt e h es) {l : List (ChildEntry H)} :
    listing hs e (pathOf q) = .ok l ↔ ∃ cs, keyChildren hs e q es = some cs ∧ l = cs.filter (isLiveChild hs e (pathOf q)) := by
  rw [keyChildren]
  cases hkey : e.get (hs.directoryPathHash (pathOf q)) with
  | none =>
    have hdead : ¬ LiveAs hs e .directory (pathOf q) := by
      intro hlive
      obtain ⟨v, hv⟩ := (hasEntry_iff _ _).mp hlive
      cases hkey.symm.trans hv
    constructor
    · intro hl
      have hlive := live_of_listing hl
      rw [normalizePath_pathOf hq] at hlive
      exact absurd hlive hdead
    · rintro ⟨cs, hcs, _⟩
      cases hcs
  | some v =>
    by_cases hlink : ∃ t, v = .link t
    · obtain ⟨t, rfl⟩ := hlink
      rw [listing_link hq ht hes hkey]
      simp [eq_comm]
    · rw [listing_other hq hkey fun t ht => hlink ⟨t, ht⟩, listData_eq]
      cases v with
      | link t => exact absurd ⟨t, rfl⟩ hlink
      | _ => simp [eq_comm]

def FilesRead (hs : Hasher H) (e : Engine H) (q : List Str) (es : List (ChildEntry H)) : Prop :=
  ∀ c ∈ es, c.entryType = .fileRecord → ∃ bytes, readFileBuffered hs e (pathOf (q ++ [c.name])) = .ok bytes

def Readable (hs : Hasher H) (e : Engine H) : Prop :=
  ∀ q h, TreeDir e q h → ∃ es, ChildrenAt e h es ∧ (∃ l, listing hs e (pathOf q) = .ok l ∧ ∀ c ∈ es, c ∈ l) ∧ FilesRead hs e q es

/-- Every directory of HEAD's tree is stored and has a live path key, which is a link or holds all the children; each child has a live
path key; what is below the depth of the check can be read. -/
def Shown (hs : Hasher H) (e : Engine H) : Prop :=
  ∀ q h, TreeDir e q h → ∃ es, ChildrenAt e h es ∧
    (∃ cs, keyChildren hs e q es = some cs ∧ ∀ c ∈ es, c ∈ cs ∧ isLiveChild hs e (pathOf q) c = true) ∧
    (100 < q.length → FilesRead hs e q es)

def CleanListings (hs : Hasher H) (e : Engine H) : Prop :=
  ∀ q l, Clean q → listing hs e (pathOf q) = .ok l → ∀ c ∈ l, CleanName c.name

def Listed (hs : Hasher H) (e : Engine H) : Prop :=
  ∀ q h, Clean q → TreeDir e q h → ∃ es l, ChildrenAt e h es ∧ listing hs e (pathOf q) = .ok l ∧ ∀ c ∈ es, c ∈ l

omit [DecidableEq H] in
lemma ChildrenAt.unique {es' : List (ChildEntry H)} (hes : ChildrenAt e h es) (hes' : ChildrenAt e h es') : es = es' := by
  obtain ⟨v, hget, hchildren⟩ := hes
  obtain ⟨v', hget', hchildren'⟩ := hes'
  obtain rfl := some.inj (hget.symm.trans hget')
  exact ok.inj (hchildren.symm.trans hchildren')

lemma Readable.listed (hread : Readable hs e) : Listed hs e := by
  intro q h _ ht
  obtain ⟨es, hes, ⟨l, hl, hsub⟩, _⟩ := hread q h ht
  exact ⟨es, l, hes, hl, hsub⟩

lemma Shown.listed (hshown : Shown hs e) : Listed hs e := by
  intro q h hq ht
  obtain ⟨es, hes, ⟨cs, hcs, hlive⟩, _⟩ := hshown q h ht
  refine ⟨es, _, hes, (listing_eq_ok_iff hq ht hes).mpr ⟨cs, hcs, rfl⟩, fun c hc => ?_⟩
  exact mem_filter.mpr (hlive c hc)

lemma Listed.clean (hlisted : Listed hs e) (hnames : CleanListings hs e) (ht : TreeDir e q h) : Clean q := by
  induction q using List.reverseRecOn generalizing h with
  | nil => exact fun s hs => nomatch hs
  | append_singleton q s ih =>
    obtain ⟨hp, es, c, hparent, hes, hc, rfl, _⟩ := ht.parent
    have hq := ih hparent
    obtain ⟨es', l, hes', hl, hsub⟩ := hlisted q hp hq hparent
    obtain rfl := hes.unique hes'
    exact cleanNames_append hq (hnames q l hq hl c (hsub c hc))

omit [DecidableEq H] in
lemma childOf_pathOf (hq : Clean q) (name : Str) : childOf (pathOf q) name = pathOf (q ++ [name]) := by
  rw [childOf, pathOf_append, trimEnd_slash_pathOf hq]
  split_ifs with hroot
  · obtain rfl : q = [] := by_contra fun hne => pathOf_ne_root hq hne hroot
    rfl
  · rfl

lemma caught_listDirectory (hq : Clean q) (hfresh : ∀ v, recoverDirectoryDataIfStale e (pathOf q) (hs.directoryPathHash (pathOf q)) ≠ .ok (some v)) :
    caught (listDirectory hs (pathOf q)) e = .ok (listing hs e (pathOf q)).toOption e := by
  simp only [caught, listing, listDirectory, normalizePath_pathOf hq]
  cases hrecover : recoverDirectoryDataIfStale e (pathOf q) (hs.directoryPathHash (pathOf q)) with
  | error err => simp only [hrecover, query, bind, EStateM.bind, Except.toOption]
  | ok found =>
    cases found with
    | some v => exact absurd hrecover (hfresh v)
    | none =>
      simp only [hrecover, query, bind, EStateM.bind]
      cases readDirectoryData e (hs.directoryPathHash (pathOf q)) with
      | none => rfl
      | some v => rfl

variable {e' : Engine H} {check : Str → EngineM H Checked} {n : ℕ} {path : Str}

omit [DecidableEq H] in
lemma checkChild_clean {type : EntryType} {found : Checked}
    (hcheck : ∀ e', check path e = .ok found e' → e' = e) (hrun : checkChild hs check path type e = .ok found e') : e' = e := by
  cases type with
  | directoryIndex => exact hcheck e' hrun
  | fileRecord =>
    obtain ⟨bytes, e₁, hread, hrun⟩ := estate_bind_eq_ok.mp hrun
    obtain ⟨_, rfl⟩ := query_eq_ok.mp hread
    cases bytes with
    | ok bytes => exact (estate_pure_eq_ok.mp hrun).2.symm
    | error err => exact (estate_pure_eq_ok.mp hrun).2.symm
  | _ => exact (estate_pure_eq_ok.mp hrun).2.symm

omit [DecidableEq H] in
lemma checkChildren_clean {l : List (ChildEntry H)}
    (hcheck : ∀ c ∈ l, ∀ e', check (childOf path c.name) e = .ok ⟨[], []⟩ e' → e' = e)
    (hrun : checkChildren hs check path l e = .ok ⟨[], []⟩ e') :
    e' = e ∧ ∀ c ∈ l, checkChild hs check (childOf path c.name) c.entryType e = .ok ⟨[], []⟩ e := by
  induction l with
  | nil =>
    obtain ⟨_, rfl⟩ := estate_pure_eq_ok.mp hrun
    exact ⟨rfl, fun c hc => nomatch hc⟩
  | cons c l ih =>
    obtain ⟨hfirst, hrest⟩ := forall_mem_cons.mp hcheck
    obtain ⟨⟨stale, missing⟩, e₁, hhere, hrun⟩ := estate_bind_eq_ok.mp hrun
    obtain ⟨⟨stale', missing'⟩, e₂, hothers, hrun⟩ := estate_bind_eq_ok.mp hrun
    obtain ⟨hnone, rfl⟩ := estate_pure_eq_ok.mp hrun
    obtain ⟨hstale, hmissing⟩ := Checked.mk.inj hnone
    obtain ⟨rfl, rfl⟩ := append_eq_nil_iff.mp hstale
    obtain ⟨rfl, rfl⟩ := append_eq_nil_iff.mp hmissing
    obtain rfl := checkChild_clean hfirst hhere
    obtain ⟨rfl, hall⟩ := ih hrest hothers
    exact ⟨rfl, forall_mem_cons.mpr ⟨hhere, hall⟩⟩

lemma checkDirectoryRecursive_clean (hnames : CleanListings hs e) (hq : Clean q)
    (hrun : checkDirectoryRecursive hs n (pathOf q) e = .ok ⟨[], []⟩ e') : e' = e ∧ (0 < n → ∀ l, listing hs e (pathOf q) = .ok l →
      ∀ c ∈ l, checkChild hs (checkDirectoryRecursive hs (n - 1)) (pathOf (q ++ [c.name])) c.entryType e = .ok ⟨[], []⟩ e) := by
  induction n generalizing q e' with
  | zero =>
    obtain ⟨_, rfl⟩ := estate_pure_eq_ok.mp hrun
    exact ⟨rfl, fun h => absurd h (lt_irrefl 0)⟩
  | succ n ih =>
    rw [checkDirectoryRecursive] at hrun
    obtain ⟨stale, e₁, hquery, hrest⟩ := estate_bind_eq_ok.mp hrun
    obtain ⟨hstale, rfl⟩ := query_eq_ok.mp hquery
    clear hrun hquery
    obtain ⟨children, e₂, hcaught, hrun⟩ := estate_bind_eq_ok.mp hrest
    obtain rfl : stale = [] := by
      cases children with
      | none => exact (Checked.mk.inj (estate_pure_eq_ok.mp hrun).1).1
      | some children =>
        obtain ⟨found, _, _, hrun⟩ := estate_bind_eq_ok.mp hrun
        exact (append_eq_nil_iff.mp (Checked.mk.inj (estate_pure_eq_ok.mp hrun).1).1).1
    have hfresh : ∀ v, recoverDirectoryDataIfStale e₁ (pathOf q) (hs.directoryPathHash (pathOf q)) ≠ .ok (some v) := by
      intro v hrecover
      rw [hrecover] at hstale
      cases hstale
    obtain ⟨rfl, rfl⟩ := EStateM.Result.ok.inj ((caught_listDirectory hq hfresh).symm.trans hcaught)
    cases hlist : listing hs e₁ (pathOf q) with
    | error err =>
      rw [hlist] at hrun
      exact ⟨(estate_pure_eq_ok.mp hrun).2.symm, fun _ l hl => nomatch hl⟩
    | ok l =>
      rw [hlist] at hrun
      obtain ⟨⟨stale, missing⟩, e₂, hchildren, hrun⟩ := estate_bind_eq_ok.mp hrun
      obtain ⟨hnone, rfl⟩ := estate_pure_eq_ok.mp hrun
      obtain ⟨rfl, rfl⟩ := Checked.mk.inj hnone
      have hclean : ∀ c ∈ l, Clean (q ++ [c.name]) := fun c hc => cleanNames_append hq (hnames q l hq hlist c hc)
      obtain ⟨rfl, hall⟩ := checkChildren_clean (fun c hc e' hrun => (ih (hclean c hc) (childOf_pathOf hq c.name ▸ hrun)).1) hchildren
      refine ⟨rfl, fun _ l' hl' c hc => ?_⟩
      obtain rfl := ok.inj hl'
      exact childOf_pathOf hq c.name ▸ hall c hc

section

variable (hlisted : Listed hs e) (hnames : CleanListings hs e) (hrun : checkDirectoryRecursive hs n (pathOf []) e = .ok ⟨[], []⟩ e')
  (ht : TreeDir e q h)
include hlisted hnames hrun ht

lemma Listed.checked (hn : q.length ≤ n) :
    ∃ e', checkDirectoryRecursive hs (n - q.length) (pathOf q) e = .ok ⟨[], []⟩ e' := by
  induction q using List.reverseRecOn generalizing h with
  | nil => exact ⟨e', hrun⟩
  | append_singleton q s ih =>
    obtain ⟨hp, es, c, hparent, hes, hc, rfl, hdir⟩ := ht.parent
    rw [length_append, length_singleton] at hn ⊢
    obtain ⟨e₁, hrun⟩ := ih hparent (by omega)
    have hq := hlisted.clean hnames hparent
    obtain ⟨es', l, hes', hl, hsub⟩ := hlisted q hp hq hparent
    obtain rfl := hes.unique hes'
    have hchild := (checkDirectoryRecursive_clean hnames hq hrun).2 (by omega) l hl c (hsub c hc)
    rw [hdir] at hchild
    exact ⟨e, by rwa [Nat.sub_add_eq]⟩

lemma Listed.filesRead (hn : q.length < n) (hes : ChildrenAt e h es) :
    FilesRead hs e q es := by
  intro c hc hfile
  have hq := hlisted.clean hnames ht
  obtain ⟨e₁, hrun⟩ := hlisted.checked hnames hrun ht hn.le
  obtain ⟨es', l, hes', hl, hsub⟩ := hlisted q h hq ht
  obtain rfl := hes.unique hes'
  have hchild := (checkDirectoryRecursive_clean hnames hq hrun).2 (by omega) l hl c (hsub c hc)
  rw [hfile] at hchild
  obtain ⟨bytes, e₂, hread, hchild⟩ := estate_bind_eq_ok.mp hchild
  obtain ⟨hread, rfl⟩ := query_eq_ok.mp hread
  cases bytes with
  | ok bytes => exact ⟨bytes, ok.inj hread⟩
  | error err => cases (estate_pure_eq_ok.mp hchild).1

end

lemma verify_clean {file : FileFindings} {report : VerifyReport H} (hrun : verify hs file e = .ok report e')
    (hclean : report.hasIssues = false) : ∃ e', checkDirectoryRecursive hs visitedLevels (pathOf []) e = .ok ⟨[], []⟩ e' := by
  obtain ⟨e₀, e₁, hbefore, hcheck⟩ := estate_bind_eq_ok.mp hrun
  obtain ⟨_, rfl⟩ := query_eq_ok.mp hbefore
  obtain ⟨⟨stale, missing⟩, e₂, hfound, hafter⟩ := estate_bind_eq_ok.mp hcheck
  obtain ⟨e₃, e₄, _, hreport⟩ := estate_bind_eq_ok.mp hafter
  obtain ⟨rfl, _⟩ := estate_pure_eq_ok.mp hreport
  simp only [VerifyReport.hasIssues, Bool.or_eq_false_iff, Bool.not_eq_false', List.isEmpty_iff] at hclean
  obtain ⟨⟨⟨⟨⟨⟨⟨⟨⟨⟨_, _⟩, rfl⟩, _⟩, _⟩, _⟩, _⟩, _⟩, _⟩, _⟩, rfl⟩ := hclean
  exact ⟨e₂, hfound⟩

end

def intact : FileFindings := ⟨0, 0, fun _ => false, 0, 0⟩

def restoredA : Engine Digest :=
  final (listDirectory hasher ['/'] (final (restoreSnapshot hasher "auto".toList
    (final (deleteFile hasher plainEnv "/a".toList fileA)))))

def noIssues (r : EStateM.Result EngineError (Engine Digest) (VerifyReport Digest)) : Bool :=
  match r with
  | .ok report _ => !report.hasIssues
  | .error _ _ => false

lemma exists_of_noIssues {r : EStateM.Result EngineError (Engine Digest) (VerifyReport Digest)} (h : noIssues r = true) :
    ∃ report e', r = .ok report e' ∧ report.hasIssues = false := by
  cases r with
  | ok report e' => exact ⟨report, e', rfl, by simpa [noIssues] using h⟩
  | error err e' => cases h

def headChildren (e : Engine Digest) : List (ChildEntry Digest) :=
  match e.head.bind e.get with
  | some v => (childrenOf e v).toOption.getD []
  | none => []

variable {e : Engine Digest} {head : Digest}

lemma ChildrenAt.eq_headChildren {es : List (ChildEntry Digest)} (hhead : e.head = some head)
    (hes : ChildrenAt e head es) : es = headChildren e := by
  obtain ⟨v, hget, hchildren⟩ := hes
  simp only [headChildren, hhead, bind_some, hget, hchildren]
  rfl

def keyText : Digest → Str
  | .mk _ text _ _ => text

lemma directories_fileA {p : Str} (hlive : LiveAs hasher fileA .directory p) : p = pathOf [] := by
  have hkeys : ∀ r ∈ fileA.log, "dir:".toList <+: keyText r.key → keyText r.key = "dir:".toList ++ pathOf [] := by decide
  obtain ⟨r, hr⟩ := Option.isSome_iff_exists.mp hlive
  have hkey := getEntry_key _ _ _ hr
  have htext := hkeys r (getEntry_mem_log _ _ _ hr)
  rw [hkey] at htext
  exact append_cancel_left (htext (prefix_append _ _))

lemma cleanListings_fileA : CleanListings hasher fileA := by
  intro q l hq hl c hc
  have hlive := live_of_listing hl
  rw [normalizePath_pathOf hq] at hlive
  rw [directories_fileA hlive] at hl
  have hall : ∀ c ∈ (listing hasher fileA (pathOf [])).toOption.getD [], CleanName c.name := by decide
  rw [hl] at hall
  exact hall c hc

lemma shown_fileA : Shown hasher fileA := by
  rintro q h ⟨head, hhead, hwalk⟩
  cases q with
  | nil =>
    rw [walk] at hwalk
    obtain rfl := some.inj (ok.inj hwalk)
    have hstored : ((fileA.head.bind fileA.get).bind fun v => (childrenOf fileA v).toOption).isSome = true := by decide
    obtain ⟨es, hes⟩ : ∃ es, ChildrenAt fileA head es := by
      obtain ⟨es, hes⟩ := Option.isSome_iff_exists.mp hstored
      obtain ⟨v, hget, hes⟩ := Option.bind_eq_some_iff.mp hes
      rw [hhead] at hget
      cases hchildren : childrenOf fileA v with
      | ok children => exact ⟨children, v, hget, hchildren⟩
      | error err =>
        rw [hchildren] at hes
        cases hes
    refine ⟨es, hes, ⟨es, ?_, fun c hc => ⟨hc, ?_⟩⟩, fun h => absurd h (by decide)⟩
    · rw [hes.eq_headChildren hhead]
      decide
    · have hall : ∀ c ∈ headChildren fileA, isLiveChild hasher fileA (pathOf []) c = true := by decide
      rw [← hes.eq_headChildren hhead] at hall
      exact hall c hc
  | cons s rest =>
    obtain ⟨es, c, hes, hfind, hdir, _⟩ := walk_cons_some hwalk
    have hfiles : ∀ c ∈ headChildren fileA, c.entryType ≠ .directoryIndex := by decide
    rw [← hes.eq_headChildren hhead] at hfiles
    exact absurd hdir (hfiles c (mem_of_find?_eq_some hfind))

end AeorDb.Verify
