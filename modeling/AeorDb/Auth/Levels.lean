import AeorDb.Auth.Permissions
import AeorDb.Store.Normalize
import AeorDb.Library.LastWins

/-! The walk over the levels of a path, as a sequence of opinions on one operation. -/

namespace AeorDb.Auth

open Store Dir Library List

def dirNames (level : Str) : List Str := (splitSegments (level.filter (· ≠ '\x00'))).foldl resolveSegment []

def enter (names : List Str) (part : Str) : List Str :=
  if part.filter (· ≠ '\x00') = [] then names else resolveSegment names (part.filter (· ≠ '\x00'))

def targetAt (path level : Str) : Option Str :=
  if trimEnd (· = '/') level = trimEnd (· = '/') (targetParent path) then some (targetName path) else none

def fits (target : Option Str) (link : PermissionLink) : Bool :=
  match link.pathPattern with
  | none => true
  | some pattern => target = some pattern

def linksOpinion (groups : List Str) (op : CrudlifyOp) (links : List PermissionLink) : Option Bool :=
  if (levelFlags groups links).2 op = some true then some false
  else if (levelFlags groups links).1 op = some true then some true
  else none

def opinionAt (policy : Policy) (groups : List Str) (op : CrudlifyOp) (names : List Str) (target : Option Str) :
    EngineResult (Option Bool) :=
  (policy.permissions (pathOf (names ++ [permissionsName]))).map fun file =>
    file.bind fun permissions => linksOpinion groups op (permissions.links.filter (fits target))

section

variable {x y : Str} {ps : List Str}

lemma dirNames_concat_slash (x : Str) : dirNames (x ++ ['/']) = dirNames x := by
  have hfilter : (x ++ ['/']).filter (· ≠ '\x00') = x.filter (· ≠ '\x00') ++ '/' :: [] := by simp
  rw [dirNames, hfilter, splitSegments_append_cons, splitSegments_of_no_slash (show '/' ∉ ([] : Str) by simp), filter_cons_of_neg (by simp),
    filter_nil, append_nil, dirNames]

lemma dirNames_trimEnd (x : Str) : dirNames (trimEnd (· = '/') x) = dirNames x := by
  induction x using List.reverseRecOn with
  | nil => rfl
  | append_singleton x c ih =>
    by_cases hc : c = '/'
    · subst hc
      rw [dirNames_concat_slash, ← ih]
      simp [trimEnd]
    · rw [trimEnd_append (by simpa using hc)]

lemma dirNames_pathOf_append (hx : '/' ∉ x) : dirNames (pathOf (ps ++ [x])) = enter (dirNames (pathOf ps)) x := by
  have hslashed : dirNames (slashed ps) = dirNames (pathOf ps) := by
    cases ps with
    | nil => rfl
    | cons p ps => rw [pathOf_eq_slashed (by simp)]
  have hfilter : (slashed ps ++ '/' :: x).filter (· ≠ '\x00') = (slashed ps).filter (· ≠ '\x00') ++ '/' :: x.filter (· ≠ '\x00') := by
    simp
  have hslash : '/' ∉ x.filter (· ≠ '\x00') := fun hmem => hx (mem_of_mem_filter hmem)
  rw [pathOf_append, dirNames, hfilter, splitSegments_append_cons, splitSegments_of_no_slash hslash, List.foldl_append,
    ← dirNames, hslashed, enter]
  split_ifs with hnil
  · rw [hnil]
    rfl
  · rw [filter_cons_of_pos (by exact decide_eq_true hnil)]
    rfl

lemma dirNames_append_of_segmentName (hx : SegmentName x) : dirNames (pathOf (ps ++ [x])) = dirNames (pathOf ps) ++ [x] := by
  have hnul : x.filter (· ≠ '\x00') = x := filter_eq_self.mpr fun c hc => by
    simp only [ne_eq, decide_eq_true_eq]
    rintro rfl
    exact hx.no_nul hc
  rw [dirNames_pathOf_append hx.no_slash, enter, hnul]
  simp [hx.ne_nil, resolveSegment, hx.ne_dot, hx.ne_dotdot]

lemma dirNames_pathOf (hs : ∀ p ∈ ps, SegmentName p) : dirNames (pathOf ps) = ps := by
  induction ps using List.reverseRecOn with
  | nil => decide
  | append_singleton ps p ih =>
    rw [dirNames_append_of_segmentName (hs p (by simp)), ih fun q hq => hs q (mem_append_left _ hq)]

lemma dirNames_names (level : Str) : ∀ x ∈ dirNames level, SegmentName x := by
  refine foldl_resolveSegment_names (fun x hx => ?_) (by simp)
  obtain ⟨hsplit, hne⟩ := mem_filter.mp hx
  have hchars := mem_of_mem_splitOn hsplit
  refine ⟨by simpa using hne, fun hc => (hchars _ hc).2 rfl, fun hc => ?_⟩
  simpa using (hchars _ hc).1

lemma segmentNames_permissions {names : List Str} (hs : ∀ x ∈ names, SegmentName x) : ∀ x ∈ names ++ [permissionsName], SegmentName x := by
  intro x hx
  rcases mem_append.mp hx with hx | hx
  · exact hs x hx
  · rw [mem_singleton.mp hx]
    exact ⟨by decide, by decide, by decide, by decide, by decide⟩

lemma normalizePath_permissionsPath (hx : x.head? = some '/') : normalizePath (permissionsPath x) = pathOf (dirNames x ++ [permissionsName]) := by
  obtain ⟨y, hy, hnames⟩ : ∃ y, permissionsPath x = y ++ '/' :: permissionsName ∧ dirNames y = dirNames x := by
    rw [permissionsPath]
    split_ifs with hend
    · obtain ⟨y, rfl⟩ : ∃ y, x = y ++ ['/'] := by
        rcases hend with rfl | hend
        · exact ⟨[], rfl⟩
        · exact getLast?_eq_some_iff.mp hend
      exact ⟨y, by simp, (dirNames_concat_slash y).symm⟩
    · exact ⟨x, rfl, rfl⟩
  have hhead : (permissionsPath x).head? = some '/' := by
    obtain ⟨z, rfl⟩ : ∃ z, x = '/' :: z := head?_eq_some_iff.mp hx
    rw [permissionsPath]
    split_ifs <;> rfl
  have hclean : CleanName permissionsName := by decide
  rw [normalizePath_eq_pathOf, hy, resolved_append_name hclean (hy ▸ hhead), ← dirNames, hnames]

end

variable {policy : Policy} {groups : List Str} {op : CrudlifyOp} {path level : Str}

def allows (groups : List Str) (op : CrudlifyOp) (link : PermissionLink) : Prop :=
  (mergeLink groups (fun _ => none, fun _ => none) link).1 op = some true

def denies (groups : List Str) (op : CrudlifyOp) (link : PermissionLink) : Prop :=
  (mergeLink groups (fun _ => none, fun _ => none) link).2 op = some true

lemma mergeFlags_iff (target source : Flags) (op : CrudlifyOp) :
    mergeFlags target source op = some true ↔ target op = some true ∨ source op = some true := by
  rw [mergeFlags]
  split_ifs with h <;> simp [h]

lemma mergeLink_iff (groups : List Str) (flags : Flags × Flags) (link : PermissionLink) (op : CrudlifyOp) :
    ((mergeLink groups flags link).1 op = some true ↔ flags.1 op = some true ∨ allows groups op link) ∧
      ((mergeLink groups flags link).2 op = some true ↔ flags.2 op = some true ∨ denies groups op link) := by
  rw [allows, denies, mergeLink, mergeLink]
  split_ifs
  · simp [mergeFlags_iff]
  · cases link.othersAllow <;> cases link.othersDeny <;> simp [mergeOthers, mergeFlags_iff]

lemma levelFlags_iff (groups : List Str) (links : List PermissionLink) (op : CrudlifyOp) :
    ((levelFlags groups links).1 op = some true ↔ ∃ link ∈ links, allows groups op link) ∧
      ((levelFlags groups links).2 op = some true ↔ ∃ link ∈ links, denies groups op link) := by
  induction links using List.reverseRecOn with
  | nil => simp [levelFlags]
  | append_singleton links link ih =>
    rw [levelFlags, List.foldl_append, foldl_cons, foldl_nil, ← levelFlags]
    have hmerge := mergeLink_iff groups (levelFlags groups links) link op
    rw [hmerge.1, hmerge.2, ih.1, ih.2]
    constructor <;> constructor
    all_goals
      simp only [mem_append, mem_singleton]
      grind

variable {links : List PermissionLink} {names : List Str} {target : Option Str}

lemma linksOpinion_eq_none_iff :
    linksOpinion groups op links = none ↔ ∀ link ∈ links, ¬ allows groups op link ∧ ¬ denies groups op link := by
  rw [linksOpinion]
  split_ifs with hdeny hallow
  · obtain ⟨link, hmem, hlink⟩ := (levelFlags_iff groups links op).2.mp hdeny
    simpa using ⟨link, hmem, fun _ => hlink⟩
  · obtain ⟨link, hmem, hlink⟩ := (levelFlags_iff groups links op).1.mp hallow
    simpa using ⟨link, hmem, fun hnot => absurd hlink hnot⟩
  · rw [(levelFlags_iff groups links op).1, not_exists] at hallow
    rw [(levelFlags_iff groups links op).2, not_exists] at hdeny
    simpa using fun link hmem => ⟨fun h => hallow link ⟨hmem, h⟩, fun h => hdeny link ⟨hmem, h⟩⟩

lemma linksOpinion_eq_false_iff :
    linksOpinion groups op links = some false ↔ ∃ link ∈ links, denies groups op link := by
  rw [linksOpinion, ← (levelFlags_iff groups links op).2]
  split_ifs <;> simp_all

lemma opinionAt_none {o : Option Bool} (h : opinionAt policy groups op names target = .ok o) :
    ∃ a, opinionAt policy groups op names none = .ok a ∧ (o = none → a = none) := by
  rw [opinionAt] at h ⊢
  cases hfile : policy.permissions (pathOf (names ++ [permissionsName])) with
  | error err => simp [hfile, Except.map] at h
  | ok file =>
    refine ⟨_, rfl, ?_⟩
    rintro rfl
    cases file with
    | none => rfl
    | some permissions =>
      have hnone : linksOpinion groups op (permissions.links.filter (fits target)) = none := by simpa [hfile, Except.map] using h
      refine linksOpinion_eq_none_iff.mpr fun link hmem => ?_
      obtain ⟨hlink, hfits⟩ := mem_filter.mp hmem
      refine linksOpinion_eq_none_iff.mp hnone link (mem_filter.mpr ⟨hlink, ?_⟩)
      rw [fits] at hfits ⊢
      cases hpattern : link.pathPattern with
      | none => rfl
      | some pattern => simp [hpattern] at hfits

lemma opinionAt_error {err : EngineError} (h : opinionAt policy groups op names target = .error err)
    (target' : Option Str) : opinionAt policy groups op names target' = .error err := by
  rw [opinionAt] at h ⊢
  cases hfile : policy.permissions (pathOf (names ++ [permissionsName])) with
  | error err' => simpa [hfile, Except.map] using h
  | ok file => simp [hfile, Except.map] at h

lemma linkApplies_eq (path level : Str) : linkApplies path level = fits (targetAt path level) := by
  funext link
  rw [linkApplies, fits, targetAt]
  cases link.pathPattern with
  | none => rfl
  | some pattern => split_ifs with h <;> simp [h]

lemma stepLevel_op (policy : Policy) (groups : List Str) (path : Str) (op : CrudlifyOp) (state : CrudlifyOp → Bool)
    (hlevel : level.head? = some '/') : (stepLevel policy groups path state level).map (· op) =
    (opinionAt policy groups op (dirNames level) (targetAt path level)).map (·.getD (state op)) := by
  rw [stepLevel, opinionAt, Policy.load, normalizePath_permissionsPath hlevel]
  cases policy.permissions (pathOf (dirNames level ++ [permissionsName])) with
  | error err => rfl
  | ok file =>
    cases file with
    | none => rfl
    | some permissions =>
      simp only [linkApplies_eq, Except.map, Option.bind, bind, Except.bind, linksOpinion]
      split_ifs <;> rfl

lemma foldlM_stepLevel_op {levels : List Str} (hlevels : ∀ level ∈ levels, level.head? = some '/') :
    (levels.foldlM (stepLevel policy groups path) fun _ => false).map (· op) =
      (LastWins.run (levels.map fun level => opinionAt policy groups op (dirNames level) (targetAt path level))).map (·.getD false) := by
  induction levels using List.reverseRecOn with
  | nil => rfl
  | append_singleton levels level ih =>
    have hprev := ih fun x hx => hlevels x (mem_append_left _ hx)
    rw [foldlM_append, map_append, map_singleton, LastWins.run_concat]
    cases hstate : levels.foldlM (stepLevel policy groups path) fun _ => false with
    | error err =>
      cases hrun : LastWins.run (levels.map fun level => opinionAt policy groups op (dirNames level) (targetAt path level)) with
      | error err' =>
        rw [hstate, hrun] at hprev
        simpa [Except.map, bind, Except.bind] using hprev
      | ok acc => simp [hstate, hrun, Except.map] at hprev
    | ok state =>
      cases hrun : LastWins.run (levels.map fun level => opinionAt policy groups op (dirNames level) (targetAt path level)) with
      | error err => simp [hstate, hrun, Except.map] at hprev
      | ok acc =>
        have hacc : state op = acc.getD false := by simpa [hstate, hrun, Except.map] using hprev
        have hstep := stepLevel_op policy groups path op state (hlevels level (by simp))
        rw [hacc] at hstep
        simp only [foldlM_cons, foldlM_nil, bind_pure]
        refine hstep.trans ?_
        cases opinionAt policy groups op (dirNames level) (targetAt path level) with
        | error err => rfl
        | ok o => cases o <;> rfl

lemma levelsFrom_eq (current : List Str) (segments : List Str) :
    levelsFrom (slashed current) segments = segments.inits.tail.map fun ps => slashed (current ++ ps) := by
  induction segments generalizing current with
  | nil => rfl
  | cons x segments ih =>
    rw [levelsFrom, ← slashed_append, ih (current ++ [x])]
    cases segments <;> simp [List.inits]

lemma levels_eq_inits (ps : List Str) : ['/'] :: levelsFrom [] ps = ps.inits.map pathOf := by
  have hinits : ps.inits = [] :: ps.inits.tail := by cases ps <;> rfl
  rw [hinits, map_cons]
  congr 1
  refine (levelsFrom_eq [] ps).trans (map_congr_left fun x hx => ?_)
  rw [nil_append, pathOf_eq_slashed]
  rintro rfl
  cases ps <;> simp at hx

lemma exists_pathLevels (path : Str) : ∃ ps : List Str, pathLevels path = ps.inits.map pathOf ∧ ∀ p ∈ ps, '/' ∉ p := by
  rw [pathLevels]
  by_cases h : trimSlashes path = []
  · rw [if_pos h]
    exact ⟨[], rfl, by simp⟩
  · rw [if_neg h]
    exact ⟨_, levels_eq_inits _, fun p hp hmem => (mem_of_mem_splitOn (mem_of_mem_take hp) _ hmem).2 rfl⟩

lemma head?_of_mem_pathLevels (hlevel : level ∈ pathLevels path) : level.head? = some '/' := by
  obtain ⟨ps, hps, _⟩ := exists_pathLevels path
  obtain ⟨qs, _, rfl⟩ := mem_map.mp (hps ▸ hlevel)
  cases qs <;> rfl

lemma checkDirectPermission_eq (policy : Policy) (user : Uuid) (path : Str) (op : CrudlifyOp) :
    checkDirectPermission policy user path op = if isRoot user then .ok true else
      policy.groups user >>= fun groups =>
        (LastWins.run ((pathLevels (rooted path)).map fun level =>
          opinionAt policy groups op (dirNames level) (targetAt (rooted path) level))).map (·.getD false) := by
  rw [checkDirectPermission]
  refine if_congr Iff.rfl rfl ?_
  refine congrArg _ (funext fun groups => ?_)
  rw [← foldlM_stepLevel_op fun level hlevel => head?_of_mem_pathLevels hlevel]
  rfl

end AeorDb.Auth
