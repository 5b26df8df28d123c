import AeorDb.Auth.Levels

/-! What the walk over the levels of a path decides, told by the links alone. -/

namespace AeorDb.Auth

open Store Library

section

variable (groups : List Str) (op : CrudlifyOp)

def FlagSet (flags : Str) : Prop := flags[op.index]? = some op.letter

/-- Members of the link's group are under its own flags, everybody else is under those for others. -/
def LinkAllows (link : PermissionLink) : Prop :=
  if link.group ∈ groups then FlagSet op link.allow else ∃ flags ∈ link.othersAllow, FlagSet op flags

def LinkDenies (link : PermissionLink) : Prop :=
  if link.group ∈ groups then FlagSet op link.deny else ∃ flags ∈ link.othersDeny, FlagSet op flags

def linksAt (policy : Policy) (path level : Str) : EngineResult (List PermissionLink) :=
  (policy.load level).map fun file => (file.elim [] PathPermissions.links).filter (linkApplies path level)

/-- The same files with the links of each in another order. -/
def Policy.reordered (policy : Policy) (order : Str → List PermissionLink → List PermissionLink) : Policy where
  permissions file := (policy.permissions file).map (Option.map fun permissions => ⟨order file permissions.links⟩)
  groups := policy.groups

lemma mergeFlags_none_iff (flags : Str) : mergeFlags (fun _ => none) (parseCrudlifyFlags flags) op = some true ↔ FlagSet op flags := by
  rw [mergeFlags_iff, parseCrudlifyFlags, FlagSet]
  simp

lemma mergeOthers_none_iff (flags : Option Str) : mergeOthers (fun _ => none) flags op = some true ↔ ∃ f ∈ flags, FlagSet op f := by
  cases flags with
  | none => simp [mergeOthers]
  | some flags => simp [mergeOthers, mergeFlags_none_iff]

lemma allows_iff (link : PermissionLink) : allows groups op link ↔ LinkAllows groups op link := by
  rw [allows, LinkAllows, mergeLink]
  split_ifs
  · exact mergeFlags_none_iff op link.allow
  · exact mergeOthers_none_iff op link.othersAllow

lemma denies_iff (link : PermissionLink) : denies groups op link ↔ LinkDenies groups op link := by
  rw [denies, LinkDenies, mergeLink]
  split_ifs
  · exact mergeFlags_none_iff op link.deny
  · exact mergeOthers_none_iff op link.othersDeny

end

section

variable {policy : Policy} {groups : List Str} {op : CrudlifyOp} {path level : Str} {links links' : List PermissionLink}

lemma linksOpinion_eq_true_iff : linksOpinion groups op links = some true ↔
    (∃ link ∈ links, LinkAllows groups op link) ∧ ∀ link ∈ links, ¬ LinkDenies groups op link := by
  have hallow := (levelFlags_iff groups links op).1
  have hdeny := not_congr (levelFlags_iff groups links op).2
  simp only [allows_iff, denies_iff, not_exists, not_and] at hallow hdeny
  rw [linksOpinion, ← hallow, ← hdeny]
  split_ifs <;> simp_all

lemma linksOpinion_perm (h : links.Perm links') : linksOpinion groups op links = linksOpinion groups op links' := by
  have hallow := (levelFlags_iff groups links op).1
  have hdeny := (levelFlags_iff groups links op).2
  simp only [h.mem_iff, ← (levelFlags_iff groups links' op).1, ← (levelFlags_iff groups links' op).2] at hallow hdeny
  simp only [linksOpinion, hallow, hdeny]

lemma opinionAt_eq_linksAt (hlevel : level.head? = some '/') : opinionAt policy groups op (dirNames level) (targetAt path level) =
      (linksAt policy path level).map (linksOpinion groups op) := by
  rw [opinionAt, linksAt, Policy.load, normalizePath_permissionsPath hlevel]
  cases policy.permissions (pathOf (dirNames level ++ [permissionsName])) with
  | error err => rfl
  | ok file =>
    cases file with
    | none => rfl
    | some permissions =>
      simp only [Except.map, Option.bind, Option.elim, linkApplies_eq]

lemma run_opinions_eq_true_iff {levels : List Str} (hlevels : ∀ level ∈ levels, level.head? = some '/') :
    (LastWins.run (levels.map fun level => opinionAt policy groups op (dirNames level) (targetAt path level))).map
        (·.getD false) = .ok true ↔
      ∃ links : Str → List PermissionLink, (∀ level ∈ levels, linksAt policy path level = .ok (links level)) ∧
        ∃ u level v, levels = u ++ level :: v ∧ (∃ link ∈ links level, LinkAllows groups op link) ∧
          ∀ level' ∈ level :: v, ∀ link ∈ links level', ¬ LinkDenies groups op link := by
  have hopinion : ∀ level ∈ levels, opinionAt policy groups op (dirNames level) (targetAt path level) =
      (linksAt policy path level).map (linksOpinion groups op) := fun level hlevel => opinionAt_eq_linksAt (hlevels level hlevel)
  rw [List.map_congr_left hopinion]
  by_cases hok : ∀ level ∈ levels, ∃ links, linksAt policy path level = .ok links
  · choose! links hlinks using hok
    have hrun := LastWins.run_ok (g := fun level => (linksAt policy path level).map (linksOpinion groups op))
      (a := fun level => linksOpinion groups op (links level)) fun level hlevel => by rw [hlinks level hlevel]; rfl
    have hgetD : ∀ o : Option Bool, (Except.ok o : EngineResult (Option Bool)).map (·.getD false) = .ok true ↔ o = some true := by
      rintro (_ | _ | _) <;> simp [Except.map]
    rw [hrun, hgetD, LastWins.lastSome_map_eq_true_iff]
    simp only [linksOpinion_eq_true_iff, ne_eq, linksOpinion_eq_false_iff, denies_iff, not_exists, not_and]
    constructor
    · rintro ⟨u, level, v, rfl, ⟨hallow, hdeny⟩, hdeeper⟩
      refine ⟨links, hlinks, u, level, v, rfl, hallow, ?_⟩
      rintro level' (_ | ⟨_, hmem⟩)
      · exact hdeny
      · exact hdeeper level' hmem
    · rintro ⟨links', hlinks', u, level, v, rfl, hallow, hdeny⟩
      have hsame : ∀ level' ∈ level :: v, links' level' = links level' := by
        intro level' hmem
        have hmem' : level' ∈ u ++ level :: v := List.mem_append_right u hmem
        exact Except.ok.inj ((hlinks' level' hmem').symm.trans (hlinks level' hmem'))
      rw [hsame level (by simp)] at hallow
      refine ⟨u, level, v, rfl, ⟨hallow, ?_⟩, fun level' hmem => ?_⟩
      · exact hsame level (by simp) ▸ hdeny level (by simp)
      · exact hsame level' (by simp [hmem]) ▸ hdeny level' (by simp [hmem])
  · refine iff_of_false (fun h => hok fun level hlevel => ?_) fun ⟨links, hlinks, _⟩ => hok fun level hlevel => ⟨_, hlinks level hlevel⟩
    obtain ⟨acc, hacc, _⟩ := Result.map_eq_ok.mp h
    obtain ⟨o, ho⟩ := LastWins.forall_ok_of_run hacc level hlevel
    obtain ⟨l, hl, _⟩ := Result.map_eq_ok.mp ho
    exact ⟨l, hl⟩

lemma opinionAt_reordered {order : Str → List PermissionLink → List PermissionLink} (horder : ∀ file links, (order file links).Perm links)
    (names : List Str) (target : Option Str) :
    opinionAt (policy.reordered order) groups op names target = opinionAt policy groups op names target := by
  simp only [opinionAt, Policy.reordered]
  cases policy.permissions (pathOf (names ++ [permissionsName])) with
  | error err => rfl
  | ok file =>
    cases file with
    | none => rfl
    | some permissions => exact congrArg Except.ok (linksOpinion_perm ((horder _ _).filter _))

end

theorem checkDirectPermission_eq_true_iff (policy : Policy) (user : Uuid) (path : Str) (op : CrudlifyOp) :
    (checkDirectPermission policy user path op = .ok true ↔ isRoot user ∨ ∃ groups, policy.groups user = .ok groups ∧
      ∃ links : Str → List PermissionLink,
        (∀ level ∈ pathLevels (rooted path), linksAt policy (rooted path) level = .ok (links level)) ∧
        ∃ u level v, pathLevels (rooted path) = u ++ level :: v ∧ (∃ link ∈ links level, LinkAllows groups op link) ∧
          ∀ level' ∈ level :: v, ∀ link ∈ links level', ¬ LinkDenies groups op link) ∧
      ∀ order : Str → List PermissionLink → List PermissionLink, (∀ file links, (order file links).Perm links) →
        checkDirectPermission (policy.reordered order) user path op = checkDirectPermission policy user path op := by
  refine ⟨?_, fun order horder => ?_⟩
  · rw [checkDirectPermission_eq]
    by_cases hroot : isRoot user
    · simp [hroot]
    · rw [if_neg hroot, Result.bind_eq_ok]
      simp only [run_opinions_eq_true_iff fun level hlevel => head?_of_mem_pathLevels hlevel, hroot, Bool.false_eq_true, false_or]
  · simp only [checkDirectPermission_eq, opinionAt_reordered horder]
    rfl

/-- Root needs no link at all. -/
theorem checkDirectPermission_root : ∃ policy user path op, checkDirectPermission policy user path op = .ok true ∧
    ∀ level ∈ pathLevels (rooted path), linksAt policy (rooted path) level = .ok [] :=
  ⟨⟨fun _ => .ok none, fun _ => .ok []⟩, 0, ['/', 'a'], .read, by decide, by decide⟩

end AeorDb.Auth
