import AeorDb.Auth.Walks

/-! When the answer for a path is the answer for its normalized form. -/

namespace AeorDb.Auth

open Store Library List LastWins

def keptPath (s : Str) : Str :=
  if s.getLast? = some '/' ∧ normalizePath s ≠ ['/'] then normalizePath s ++ ['/'] else normalizePath s

def finalDir (s : Str) : List Str := if s.getLast? = some '/' then resolved s else (resolved s).dropLast

def finalName (s : Str) : Str := (resolved s).getLast?.getD []

section

variable {s : Str}

lemma head?_rooted (s : Str) : (rooted s).head? = some '/' := by
  rw [rooted]
  split_ifs with h
  · exact h
  · rfl

lemma rooted_keptPath (s : Str) : rooted (keptPath s) = keptPath s := by
  refine if_pos ?_
  rw [keptPath, normalizePath_eq_pathOf]
  split_ifs <;> cases resolved s <;> rfl

lemma keptPath_eq (s : Str) : keptPath s = if resolved s = [] then ['/'] else
    slashed (resolved s) ++ List.replicate (if s.getLast? = some '/' then 1 else 0) '/' := by
  have hroot : normalizePath s = ['/'] ↔ resolved s = [] := by
    rw [normalizePath_eq_pathOf]
    constructor
    · intro h
      by_contra hne
      exact pathOf_ne_root_of_segmentNames (resolved_names s) hne h
    · intro h
      rw [h]
      rfl
  rw [keptPath]
  by_cases hnil : resolved s = []
  · rw [if_pos hnil, if_neg fun h => h.2 (hroot.mpr hnil), hroot.mpr hnil]
  · rw [if_neg hnil, normalizePath_eq_pathOf, pathOf_eq_slashed hnil]
    rw [normalizePath_eq_pathOf, pathOf_eq_slashed hnil] at hroot
    split_ifs with h1 h2 h2
    · rfl
    · exact absurd h1.1 h2
    · exact absurd ⟨h2, fun heq => hnil (hroot.mp heq)⟩ h1
    · simp

lemma spelled_keptPath {parents : List Str} {name : Str} (h : resolved s = parents ++ [name]) :
    Spelled (keptPath s) 0 parents name (if s.getLast? = some '/' then 1 else 0) := by
  have hnames := h ▸ resolved_names s
  refine ⟨?_, fun x hx => (hnames x hx).no_slash, fun x hx => ?_, (hnames name (by simp)).ne_nil⟩
  · rw [keptPath_eq, h, if_neg (by simp)]
    rfl
  · exact (hnames x (mem_append_left _ (mem_of_head? hx))).ne_nil

lemma leads_keptPath (s : Str) : Leads (keptPath s) (finalDir s) (finalName s) := by
  rcases eq_nil_or_concat' (resolved s) with hnil | ⟨parents, name, heq⟩
  · have hkept : keptPath s = ['/'] := by rw [keptPath_eq, if_pos hnil]
    have hdir : finalDir s = [] := by simp [finalDir, hnil]
    rw [hkept, hdir, finalName, hnil]
    exact ⟨by decide, by decide, by decide, by decide⟩
  · have hs := spelled_keptPath heq
    have hnames := heq ▸ resolved_names s
    have hlevels := hs.pathLevels_eq
    have hdir : finalDir s = if (if s.getLast? = some '/' then 1 else 0) = 0 then parents else parents ++ [name] := by
      rw [finalDir, heq]
      split_ifs <;> simp_all
    rw [← hdir] at hlevels
    have hsegments : ∀ ps, ps <+: finalDir s → dirNames (pathOf ps) = ps := by
      intro ps hps
      refine dirNames_pathOf fun x hx => hnames x ?_
      rw [← heq]
      have hmem := hps.subset hx
      rw [finalDir] at hmem
      split_ifs at hmem
      · exact hmem
      · exact mem_of_mem_dropLast hmem
    refine ⟨?_, ?_, ?_, ?_⟩
    · intro level hlevel
      obtain ⟨ps, hps, rfl⟩ := mem_map.mp (hlevels ▸ hlevel)
      rw [mem_inits] at hps
      rwa [hsegments ps hps]
    · intro level hlevel
      obtain ⟨u, hu⟩ := exists_inits (finalDir s)
      rw [hlevels, hu, map_append, map_singleton] at hlevel
      obtain rfl : pathOf (finalDir s) = level := by simpa using hlevel
      exact hsegments _ prefix_rfl
    · rw [hs.targetName_eq, finalName, heq]
      simp
    · exact fun hstart => absurd rfl (hs.extra_ne_zero hstart)

lemma getLast?_keptPath (hlast : (keptPath s).getLast? = some '/') : (finalDir s).getLast?.getD [] = finalName s := by
  rcases eq_nil_or_concat' (resolved s) with hnil | ⟨parents, name, heq⟩
  · simp [finalDir, finalName, hnil]
  · rw [(spelled_keptPath heq).getLast?_path] at hlast
    have hslash : s.getLast? = some '/' := by
      by_contra hno
      simp [hno] at hlast
    rw [finalDir, if_pos hslash, finalName]

lemma getLast?_rooted (hlast : (rooted s).getLast? = some '/') : (finalDir s).getLast?.getD [] = finalName s := by
  rcases s with _ | ⟨c, s⟩
  · decide
  · have hslash : (c :: s).getLast? = some '/' := by
      rw [rooted] at hlast
      split_ifs at hlast
      · exact hlast
      · simpa using hlast
    rw [finalDir, if_pos hslash, finalName]

lemma parentDepth_rooted (s : Str) : parentDepth (rooted s) (finalDir s) = parentDepth (keptPath s) (finalDir s) := by
  rcases eq_nil_or_concat' (resolved s) with hnil | ⟨parents, name, heq⟩
  · have hdir : finalDir s = [] := by simp [finalDir, hnil]
    simp [parentDepth, hdir]
  · have hlast : (rooted s).getLast? = some '/' ↔ s.getLast? = some '/' := by
      rcases s with _ | ⟨c, s⟩
      · simp [resolved, rawSegments, splitSegments, trim, trimEnd] at heq
      · rw [rooted]
        split_ifs <;> simp
    simp only [parentDepth, hlast, (spelled_keptPath heq).getLast?_path]
    split_ifs <;> simp_all

theorem checkDirectPermission_of_leads (h : Leads (rooted s) (finalDir s) (finalName s)) (policy : Policy) (user : Uuid) (op : CrudlifyOp) :
    checkDirectPermission policy user s op = checkDirectPermission policy user (keptPath s) op := by
  have hkept := leads_keptPath s
  have hhead : (keptPath s).head? = some '/' := rooted_keptPath s ▸ head?_rooted (keptPath s)
  rw [checkDirectPermission_eq, checkDirectPermission_eq, rooted_keptPath]
  refine if_congr Iff.rfl rfl (congrArg _ (funext fun groups => ?_))
  rw [h.run_eq getLast?_rooted (head?_rooted s), hkept.run_eq getLast?_keptPath hhead, parentDepth_rooted]

end

def posted (files : List (List Str × PermissionLink)) : Policy where
  permissions path := .ok ((files.find? fun f => path = pathOf (f.1 ++ [permissionsName])).map fun f => ⟨[f.2]⟩)
  groups _ := .ok [[]]

def allowRead (pattern : Option Str) : PermissionLink := ⟨[], ".r".toList, [], none, none, pattern⟩

def denyRead : PermissionLink := ⟨[], [], ".r".toList, none, none, none⟩

variable {s : Str}

lemma linksOpinion_allowRead (pattern target : Option Str) : linksOpinion [[]] .read ([allowRead pattern].filter (fits target)) =
    if fits target (allowRead pattern) = true then some true else none := by
  rw [filter_singleton]
  cases fits target (allowRead pattern) <;> rfl

lemma linksOpinion_denyRead (target : Option Str) : linksOpinion [[]] .read ([denyRead].filter (fits target)) = some false := rfl

lemma opinionAt_posted (files : List (List Str × PermissionLink)) {names : List Str} (hnames : ∀ x ∈ names, SegmentName x)
    (hfiles : ∀ f ∈ files, ∀ x ∈ f.1, SegmentName x) (groups : List Str) (op : CrudlifyOp) (target : Option Str) :
    opinionAt (posted files) groups op names target =
      .ok ((files.find? fun f => names = f.1).bind fun f => linksOpinion groups op ([f.2].filter (fits target))) := by
  have hfind : (files.find? fun f => decide (pathOf (names ++ [permissionsName]) = pathOf (f.1 ++ [permissionsName]))) =
      files.find? fun f => decide (names = f.1) := by
    refine find?_congr fun f hf => ?_
    rw [decide_eq_decide]
    constructor
    · intro heq
      exact append_cancel_right
        (pathOf_inj_of_segmentNames (segmentNames_permissions hnames) (segmentNames_permissions (hfiles f hf)) heq)
    · intro heq
      rw [heq]
  rw [opinionAt, posted]
  dsimp only
  rw [hfind]
  cases files.find? fun f => decide (names = f.1) <;> rfl

lemma check_of_last {files : List (List Str × PermissionLink)} (hfiles : ∀ f ∈ files, ∀ x ∈ f.1, SegmentName x)
    {path level : Str} {b : Bool} (hlevel : level ∈ (pathLevels (rooted path)).getLast?)
    (hb : (files.find? fun f => dirNames level = f.1).bind (fun f => linksOpinion [[]] .read ([f.2].filter (fits (targetAt (rooted path) level)))) = some b) :
    checkDirectPermission (posted files) 1 path .read = .ok b := by
  obtain ⟨u, hu⟩ := getLast?_eq_some_iff.mp hlevel
  have hok := run_ok (l := pathLevels (rooted path)) fun x _ =>
    opinionAt_posted files (dirNames_names x) hfiles [[]] .read (targetAt (rooted path) x)
  rw [checkDirectPermission_eq, if_neg (by decide)]
  change Except.map _ (run _) = _
  rw [hok, hu, map_append, map_singleton, lastSome_concat, hb]
  rfl

lemma check_single {dir : List Str} (hdir : ∀ x ∈ dir, SegmentName x) (pattern : Option Str) (path : Str) :
    checkDirectPermission (posted [(dir, allowRead pattern)]) 1 path .read = .ok true ↔
      ∃ level ∈ pathLevels (rooted path), dirNames level = dir ∧ fits (targetAt (rooted path) level) (allowRead pattern) = true := by
  have hok := run_ok (l := pathLevels (rooted path)) fun x _ =>
    opinionAt_posted [(dir, allowRead pattern)] (dirNames_names x) (by simpa using hdir) [[]] .read (targetAt (rooted path) x)
  have hopinion : ∀ level, ([(dir, allowRead pattern)].find? fun f => decide (dirNames level = f.1)).bind
      (fun f => linksOpinion [[]] .read ([f.2].filter (fits (targetAt (rooted path) level)))) =
        if dirNames level = dir ∧ fits (targetAt (rooted path) level) (allowRead pattern) = true then some true else none := by
    intro level
    by_cases hlevel : dirNames level = dir
    · simp [hlevel, linksOpinion_allowRead]
    · simp [hlevel]
  rw [checkDirectPermission_eq, if_neg (by decide)]
  change Except.map _ (run _) = _ ↔ _
  simp only [hopinion] at hok
  rw [hok, lastSome_of_agree (b := true)]
  · split_ifs with hmem
    · obtain ⟨level, hlevel, heq⟩ := mem_map.mp hmem
      refine iff_of_true rfl ⟨level, hlevel, ?_⟩
      by_contra hno
      simp [hno] at heq
    · refine iff_of_false (by simp [Except.map]) ?_
      rintro ⟨level, hlevel, hboth⟩
      exact hmem (mem_map.mpr ⟨level, hlevel, if_pos hboth⟩)
  · intro o ho
    obtain ⟨level, _, rfl⟩ := mem_map.mp ho
    split_ifs <;> simp

theorem leads_of_checkDirectPermission (h : ∀ policy user op, checkDirectPermission policy user s op = checkDirectPermission policy user (keptPath s) op) :
    Leads (rooted s) (finalDir s) (finalName s) := by
  have hkept := leads_keptPath s
  have hfinal : ∀ x ∈ finalDir s, SegmentName x := by
    intro x hx
    rw [finalDir] at hx
    split_ifs at hx
    · exact resolved_names s x hx
    · exact resolved_names s x (mem_of_mem_dropLast hx)
  have hname : ∃ level ∈ pathLevels (rooted s), targetAt (rooted s) level = some (finalName s) := by
    have hhead : (keptPath s).head? = some '/' := rooted_keptPath s ▸ head?_rooted (keptPath s)
    obtain ⟨u, parent, v, hlevels, htarget, hparent, _⟩ := hkept.exists_parent getLast?_keptPath hhead
    have hdir : ∀ x ∈ (finalDir s).take (parentDepth (keptPath s) (finalDir s)), SegmentName x := fun x hx => hfinal x (mem_of_mem_take hx)
    have hgrant := (check_single hdir (some (finalName s)) (keptPath s)).mpr
      ⟨parent, by simp [rooted_keptPath, hlevels], hparent, by rw [rooted_keptPath, htarget]; simp [fits, allowRead]⟩
    rw [← h] at hgrant
    obtain ⟨level, hlevel, _, hfits⟩ := (check_single hdir _ s).mp hgrant
    exact ⟨level, hlevel, by simpa [fits, allowRead] using hfits⟩
  refine ⟨?_, ?_, ?_, ?_⟩
  · intro level hlevel
    have hgrant := (check_single (dirNames_names level) none s).mpr ⟨level, hlevel, rfl, rfl⟩
    rw [h] at hgrant
    obtain ⟨level', hlevel', heq, _⟩ := (check_single (dirNames_names level) none _).mp hgrant
    rw [rooted_keptPath] at hlevel'
    exact heq ▸ hkept.within level' hlevel'
  · intro level hlevel
    by_contra hne
    have hfiles : ∀ f ∈ [(dirNames level, denyRead), (finalDir s, allowRead none)], ∀ x ∈ f.1, SegmentName x := by
      simpa using ⟨dirNames_names level, hfinal⟩
    have hraw := check_of_last (b := false) hfiles hlevel (by simp [linksOpinion_denyRead])
    obtain ⟨level', hlevel'⟩ : ∃ level', level' ∈ (pathLevels (rooted (keptPath s))).getLast? := by
      rcases eq_nil_or_concat' (pathLevels (rooted (keptPath s))) with hnil | ⟨u, x, hu⟩
      · have hhead := head?_pathLevels (rooted (keptPath s))
        simp [hnil] at hhead
      · exact ⟨x, by simp [hu]⟩
    have hdir : dirNames level' = finalDir s := hkept.arrives level' (rooted_keptPath s ▸ hlevel')
    have hnorm := check_of_last (b := true) hfiles hlevel' (by
      rw [hdir, find?_cons_of_neg (by simpa using Ne.symm hne)]
      rw [find?_cons_of_pos (by simp), Option.bind_some, linksOpinion_allowRead]
      rfl)
    rw [h, hnorm] at hraw
    simp at hraw
  · obtain ⟨level, _, htarget⟩ := hname
    have hcases := targetAt_cases (rooted s) level
    rw [htarget] at hcases
    simpa [eq_comm] using hcases
  · intro hstart hslash
    obtain ⟨level, hlevel, htarget⟩ := hname
    have hne : trimSlashes (rooted s) ≠ [] := by
      intro hnil
      simp [hnil] at hslash
    obtain ⟨extra, parents, name, trailing, hs⟩ := exists_spelled (head?_rooted s) hne
    have hparents : parents ≠ [] := by
      rintro rfl
      have hbody := hs.trimSlashes_eq
      have hno := hs.no_slash name (by simp)
      simp only [nil_append, slashed, flatMap_singleton, List.cons.injEq, true_and] at hbody
      exact hno (hbody ▸ hslash)
    obtain ⟨ps, hps, rfl⟩ := hs.exists_of_mem_pathLevels hlevel
    rw [hs.targetAt_eq_none (hs.extra_ne_zero hstart) hparents hps] at htarget
    simp at htarget

theorem checkDirectPermission_keptPath_iff (s : Str) :
    (∀ policy user op, checkDirectPermission policy user s op = checkDirectPermission policy user (keptPath s) op) ↔
      Leads (rooted s) (finalDir s) (finalName s) :=
  ⟨leads_of_checkDirectPermission, fun h policy user op => checkDirectPermission_of_leads h policy user op⟩

theorem checkDirectPermission_detour :
    checkDirectPermission (posted [(["public".toList], allowRead none)]) 1 "/public/../secret/f".toList .read = .ok true ∧
      checkDirectPermission (posted [(["public".toList], allowRead none)]) 1 (keptPath "/public/../secret/f".toList) .read = .ok false := by
  constructor <;> decide

end AeorDb.Auth
