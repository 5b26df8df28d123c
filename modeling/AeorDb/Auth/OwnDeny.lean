import AeorDb.Auth.PathForms

/-! What a directory's own permission file can take back from a path without trailing slash. -/

namespace AeorDb.Auth

open Store Library List

structure GrantedAbove (policy : Policy) (groups : List Str) (op : CrudlifyOp) (p : Str) : Prop where
  readable : ∀ level ∈ pathLevels (rooted p), ∃ o, opinionAt policy groups op (dirNames level) (targetAt (rooted p) level) = .ok o
  granted : ∃ u level v, pathLevels (rooted p) = u ++ level :: v ∧
    opinionAt policy groups op (dirNames level) (targetAt (rooted p) level) = .ok (some true) ∧
    ∀ below ∈ v, opinionAt policy groups op (dirNames below) (targetAt (rooted p) below) = .ok none

def OwnConsents (policy : Policy) (groups : List Str) (op : CrudlifyOp) (p : Str) : Prop :=
  ∃ file, policy.permissions (pathOf (dirNames (rooted p) ++ [permissionsName])) = .ok file ∧
    ∀ permissions ∈ file, ∀ link ∈ permissions.links, link.pathPattern = none → ¬ denies groups op link

section

variable {p : Str}

lemma spelled_rooted (hne : p ≠ []) (hp : p.getLast? ≠ some '/') :
    ∃ extra parents name, Spelled (rooted p) extra parents name 0 ∧ Spelled (rooted (p ++ ['/'])) extra parents name 1 := by
  obtain ⟨c, p, rfl⟩ := exists_cons_of_ne_nil hne
  have hlast : (rooted (c :: p)).getLast? ≠ some '/' := by
    rw [rooted]
    split_ifs
    · exact hp
    · simpa using hp
  have hslash : rooted (c :: p ++ ['/']) = rooted (c :: p) ++ ['/'] := by
    rw [rooted, rooted]
    split_ifs <;> simp_all
  have htrim : trimSlashes (rooted (c :: p)) ≠ [] := by
    intro hnil
    obtain ⟨n, hn⟩ := all_slashes hnil
    have hhead := head?_rooted (c :: p)
    rw [hn] at hlast hhead
    cases n with
    | zero => simp at hhead
    | succ n => simp [replicate_succ'] at hlast
  obtain ⟨extra, parents, name, trailing, hs⟩ := exists_spelled (head?_rooted (c :: p)) htrim
  obtain rfl : trailing = 0 := by
    by_contra ht
    exact hlast (hs.getLast?_path.mpr ht)
  refine ⟨extra, parents, name, hs, ?_, hs.no_slash, hs.first, hs.name_ne⟩
  have heq := hs.eq
  rw [replicate_zero, append_nil] at heq
  rw [hslash, heq, append_assoc]
  rfl

lemma targetAt_concat_slash (hne : p ≠ []) (level : Str) : targetAt (rooted (p ++ ['/'])) level = targetAt (rooted p) level := by
  have hslash : trimEnd (· = '/') (rooted (p ++ ['/'])) = trimEnd (· = '/') (rooted p) := by
    obtain ⟨c, p, rfl⟩ := exists_cons_of_ne_nil hne
    have heq : rooted (c :: p ++ ['/']) = rooted (c :: p) ++ List.replicate 1 '/' := by
      rw [rooted, rooted]
      split_ifs <;> simp_all
    rw [heq, trimEnd_append_replicate]
  rw [targetAt, targetAt, targetParent, targetParent, targetName, targetName, hslash]

lemma dirNames_replicate (n : ℕ) (x : Str) : dirNames (List.replicate n '/' ++ x) = dirNames x := by
  induction n with
  | zero => rfl
  | succ n ih =>
    rw [← ih, replicate_succ, cons_append]
    have hfilter : ('/' :: (List.replicate n '/' ++ x)).filter (· ≠ '\x00') = [] ++ '/' :: (List.replicate n '/' ++ x).filter (· ≠ '\x00') := by
      rw [filter_cons_of_pos (by decide)]
      rfl
    rw [dirNames, hfilter, splitSegments_append_cons]
    rfl

lemma Spelled.targetAt_own {path : Str} {extra : ℕ} {parents : List Str} {name : Str} {trailing : ℕ}
    (h : Spelled path extra parents name trailing) : targetAt path (pathOf (parents ++ [name])) = none := by
  by_cases hboth : extra ≠ 0 ∧ parents ≠ []
  · exact h.targetAt_eq_none hboth.1 hboth.2 prefix_rfl
  refine if_neg fun heq => ?_
  have hshort : (trimEnd (· = '/') (targetParent path)).length ≤ (slashed parents).length := by
    rw [h.trimEnd_targetParent]
    rcases not_and_or.mp hboth with hextra | hparents
    · rw [not_not.mp hextra]
      exact length_trimEnd_le _ _
    · rw [not_not.mp hparents, slashed, flatMap_nil, append_nil]
      exact (congrArg List.length (trimEnd_append_replicate [] extra)).le
  rw [← heq, pathOf_append, trimEnd_append_name (h.no_slash name (by simp)) h.name_ne] at hshort
  simp at hshort

lemma opinionAt_own_iff {policy : Policy} {groups : List Str} {op : CrudlifyOp} :
    (∃ o, opinionAt policy groups op (dirNames (rooted p)) none = .ok o ∧ o ≠ some false) ↔ OwnConsents policy groups op p := by
  rw [OwnConsents, opinionAt]
  cases policy.permissions (pathOf (dirNames (rooted p) ++ [permissionsName])) with
  | error err => simp [Except.map]
  | ok file =>
    have hfits : ∀ link : PermissionLink, fits none link = true ↔ link.pathPattern = none := by
      intro link
      rw [fits]
      cases link.pathPattern <;> simp
    cases file with
    | none => simp [Except.map]
    | some permissions =>
      simp only [Except.map, Option.bind_some, Except.ok.injEq, exists_eq_left', ne_eq, linksOpinion_eq_false_iff, mem_filter, hfits]
      grind

end

variable {policy : Policy} {user : Uuid} {groups : List Str} {op : CrudlifyOp} {p : Str}

lemma check_eq_true_iff (hroot : isRoot user = false) (hgroups : policy.groups user = .ok groups) :
    checkDirectPermission policy user p op = .ok true ↔ GrantedAbove policy groups op p := by
  have hgetD : ∀ r : EngineResult (Option Bool), r.map (·.getD false) = .ok true ↔ r = .ok (some true) := by
    rintro (err | (_ | b)) <;> simp [Except.map]
  rw [checkDirectPermission_eq, hroot, if_neg (by simp), hgroups]
  refine (hgetD _).trans (LastWins.run_eq_ok_some_iff.trans ?_)
  exact ⟨fun h => ⟨h.1, h.2⟩, fun h => ⟨h.1, h.2⟩⟩

lemma check_concat_slash (hroot : isRoot user = false) (hgroups : policy.groups user = .ok groups) (hne : p ≠ [])
    (hp : p.getLast? ≠ some '/') (habove : GrantedAbove policy groups op p) :
    checkDirectPermission policy user (p ++ ['/']) op = .ok true ↔ OwnConsents policy groups op p := by
  obtain ⟨extra, parents, name, hs, hs'⟩ := spelled_rooted hne hp
  have hlevels : pathLevels (rooted (p ++ ['/'])) = pathLevels (rooted p) ++ [pathOf (parents ++ [name])] := by
    rw [hs.pathLevels_eq, hs'.pathLevels_eq, if_pos rfl, if_neg (by simp), inits_concat, map_append]
    rfl
  have hown : dirNames (pathOf (parents ++ [name])) = dirNames (rooted p) := by
    rw [hs.eq, dirNames_replicate, replicate_zero, append_nil, pathOf_eq_slashed (by simp)]
  have hrun : LastWins.run ((pathLevels (rooted p)).map fun level =>
      opinionAt policy groups op (dirNames level) (targetAt (rooted p) level)) = .ok (some true) :=
    LastWins.run_eq_ok_some_iff.mpr ⟨habove.readable, habove.granted⟩
  rw [checkDirectPermission_eq, hroot, if_neg (by simp), hgroups, ← opinionAt_own_iff]
  change Except.map _ (LastWins.run _) = _ ↔ _
  simp only [targetAt_concat_slash hne]
  rw [hlevels, map_append, map_singleton, LastWins.run_concat, hrun, hs.targetAt_own, hown]
  cases opinionAt policy groups op (dirNames (rooted p)) none with
  | error err => simp [bind, Except.bind, Except.map]
  | ok o => rcases o with _ | _ | _ <;> simp [bind, Except.bind, Except.map]

end AeorDb.Auth
