import AeorDb.Query.Pipeline

/-! The merge of a patch into a JSON document, with its depth bound, against the merge of RFC 7396. -/

namespace AeorDb.Query

open Store Library List Option

inductive MergeDepth where
  | unbounded
  | fullReplace
  | replaceBeyond (n : ℕ)
  | preserveBeyond (n : ℕ)

inductive BeyondPolicy where
  | replace
  | preserve

inductive ActiveDepth where
  | unbounded
  | bounded (levels : ℕ) (beyond : BeyondPolicy)

namespace ActiveDepth

def descend : ActiveDepth → ActiveDepth
  | .unbounded => .unbounded
  | .bounded levels beyond => .bounded (levels - 1) beyond

def allowsMerge : ActiveDepth → Bool
  | .unbounded => true
  | .bounded levels _ => 0 < levels

def beyond : ActiveDepth → BeyondPolicy
  | .unbounded => .replace
  | .bounded _ beyond => beyond

end ActiveDepth

abbrev Members := List (Str × Json)

namespace Json

def fields : Json → Members
  | .object fields => fields
  | _ => []

def put (key : Str) (value : Json) : Members → Members
  | [] => [(key, value)]
  | field :: fields => if field.1 = key then (key, value) :: fields else field :: put key value fields

def remove (key : Str) (fields : Members) : Members := fields.filter (·.1 ≠ key)

/-- The members below `key`, none when the key is missing or its value is no object. -/
def membersAt (key : Str) (target : Members) : Members := ((object target).get key).elim [] fields

def applyObjectMerge (depth : ActiveDepth) (target : Members) : Members → Members
  | [] => target
  | (key, .null) :: patch => applyObjectMerge depth (remove key target) patch
  | (key, .object members) :: patch =>
    if depth.descend.allowsMerge then
      applyObjectMerge depth (put key (.object (applyObjectMerge depth.descend (membersAt key target) members)) target) patch
    else
      match depth.beyond with
      | .replace => applyObjectMerge depth (put key (.object members) target) patch
      | .preserve => applyObjectMerge depth target patch
  | (key, other) :: patch => applyObjectMerge depth (put key other target) patch

def applyActive (active : ActiveDepth) (target patch : Json) : Json :=
  if active.allowsMerge then
    match patch with
    | .object members => .object (applyObjectMerge active target.fields members)
    | other => other
  else
    match active.beyond with
    | .replace => patch
    | .preserve => target

def applyMergePatch (target patch : Json) : MergeDepth → Json
  | .fullReplace => patch
  | .unbounded => applyActive .unbounded target patch
  | .replaceBeyond n => applyActive (.bounded n .replace) target patch
  | .preserveBeyond n => applyActive (.bounded n .preserve) target patch

mutual

/-- `MergePatch` of RFC 7396. A member that the target lacks is merged like one that is no object. -/
def mergePatch (target : Json) : Json → Json
  | .object patch => .object (mergeMembers target.fields patch)
  | other => other

def mergeMembers (target : Members) : Members → Members
  | [] => target
  | (name, .null) :: patch => mergeMembers (remove name target) patch
  | (name, value) :: patch => mergeMembers (put name (mergePatch (((object target).get name).getD .null) value) target) patch

end

section

variable {key k : Str} {value : Json} {field : Str × Json} {target patch members : Members} {depth : ActiveDepth}

def assign (key : Str) (target : Members) : Option Json → Members
  | none => remove key target
  | some value => put key value target

lemma get_cons (field : Str × Json) (fields : Members) (k : Str) :
    (object (field :: fields)).get k = if field.1 = k then some field.2 else (object fields).get k := by
  by_cases h : field.1 = k <;> simp [get, h]

lemma get_put : (object (put key value target)).get k = if k = key then some value else (object target).get k := by
  induction target with
  | nil => simp [put, get, eq_comm]
  | cons field fields ih =>
    by_cases hfield : field.1 = key <;> by_cases hk : k = key <;> simp_all [put, get_cons, eq_comm]

lemma get_assign (o : Option Json) : (object (assign key target o)).get k = if k = key then o else (object target).get k := by
  cases o with
  | some value => exact get_put
  | none =>
    induction target with
    | nil => simp [assign, remove, get]
    | cons field fields ih =>
      simp only [assign, remove] at ih ⊢
      by_cases hfield : field.1 = key
      · rw [filter_cons_of_neg (by simpa using hfield), get_cons, hfield]
        split_ifs <;> simp_all
      · rw [filter_cons_of_pos (by simpa using hfield), get_cons, get_cons]
        split_ifs <;> simp_all

lemma assign_get (key : Str) (target : Members) : assign key target ((object target).get key) = target := by
  induction target with
  | nil => rfl
  | cons field fields ih =>
    by_cases hfield : field.1 = key
    · subst hfield
      simp [get_cons, assign, put]
    · rw [get_cons, if_neg hfield]
      cases hget : (object fields).get key <;> rw [hget] at ih <;> simp_all only [assign, put, remove]
      · rw [filter_cons_of_pos (by simpa using hfield), ih]
      · rw [if_false]

/-- What becomes of a member whose value was `old`. -/
def merged (depth : ActiveDepth) (old : Option Json) : Json → Option Json
  | .null => none
  | .object members =>
    if depth.descend.allowsMerge then some (.object (applyObjectMerge depth.descend (old.elim [] fields) members))
    else
      match depth.beyond with
      | .replace => some (.object members)
      | .preserve => old
  | other => some other

/-- The members of the patch are taken one after the other, each changed by `change`. -/
def mergeBy (change : Option Json → Json → Option Json) (target patch : Members) : Members :=
  patch.foldl (fun target field => assign field.1 target (change ((object target).get field.1) field.2)) target

lemma applyObjectMerge_eq (depth : ActiveDepth) (target patch : Members) :
    applyObjectMerge depth target patch = mergeBy (merged depth) target patch := by
  induction patch generalizing target with
  | nil => rw [applyObjectMerge, mergeBy, foldl_nil]
  | cons field patch ih =>
    obtain ⟨key, value⟩ := field
    rw [mergeBy, foldl_cons, ← mergeBy, ← ih]
    cases value with
    | object members =>
      rw [applyObjectMerge, merged]
      split_ifs
      · rfl
      · cases depth.beyond
        · rfl
        · rw [assign_get]
    | _ => simp [applyObjectMerge, merged, assign]

variable {change change' : Option Json → Json → Option Json}

lemma get_mergeBy (hpatch : (patch.map Prod.fst).Nodup) (k : Str) : (object (mergeBy change target patch)).get k =
    ((object patch).get k).elim ((object target).get k) (change ((object target).get k)) := by
  induction patch generalizing target with
  | nil => rfl
  | cons field patch ih =>
    obtain ⟨hnew, hrest⟩ := nodup_cons.mp hpatch
    rw [mergeBy, foldl_cons, ← mergeBy, ih hrest, get_assign, get_cons]
    by_cases hk : field.1 = k
    · have hnone : (object patch).get k = none := by
        rw [← hk, get, map_eq_none_iff, find?_eq_none]
        exact fun x hx heq => hnew (mem_map.mpr ⟨x, hx, of_decide_eq_true heq⟩)
      simp [hk, hnone]
    · simp [hk, Ne.symm hk]

lemma mergeBy_of_stable (h : ∀ field ∈ patch, change ((object target).get field.1) field.2 = (object target).get field.1) :
    mergeBy change target patch = target := by
  induction patch with
  | nil => rfl
  | cons field patch ih =>
    obtain ⟨hfield, hrest⟩ := forall_mem_cons.mp h
    rw [mergeBy, foldl_cons, hfield, assign_get, ← mergeBy, ih hrest]

lemma mergeBy_congr (h : ∀ field ∈ patch, ∀ old, change old field.2 = change' old field.2) (target : Members) :
    mergeBy change target patch = mergeBy change' target patch :=
  foldl_ext _ _ _ fun target field hfield => by rw [h field hfield]

/-- Members with one value for each key, at every level of objects. -/
inductive Distinct : Members → Prop
  | intro {members : Members} (keys : (members.map Prod.fst).Nodup)
      (below : ∀ key inner, (key, object inner) ∈ members → Distinct inner) : Distinct members

lemma get_eq_some_of_mem (hkeys : (members.map Prod.fst).Nodup) (h : field ∈ members) : (object members).get field.1 = some field.2 :=
  Option.map_eq_some_iff.mpr ⟨field, (Table.get_eq_some (t := ⟨members, hkeys⟩)).mpr ⟨h, rfl⟩, rfl⟩

lemma mem_of_get (h : (object members).get key = some value) : (key, value) ∈ members := by
  obtain ⟨field, hfield, rfl⟩ := Option.map_eq_some_iff.mp h
  have hkey : field.1 = key := by simpa using find?_some hfield
  exact hkey ▸ mem_of_find?_eq_some hfield

lemma applyObjectMerge_twice (hpatch : Distinct patch) (depth : ActiveDepth) (target : Members) :
    applyObjectMerge depth (applyObjectMerge depth target patch) patch = applyObjectMerge depth target patch := by
  induction hpatch generalizing depth target with
  | intro keys _ ih =>
    simp only [applyObjectMerge_eq] at ih ⊢
    refine mergeBy_of_stable fun field hfield => ?_
    rw [get_mergeBy keys, get_eq_some_of_mem keys hfield, elim_some]
    obtain ⟨key, value⟩ := field
    cases value with
    | object members =>
      simp only [merged, applyObjectMerge_eq]
      split_ifs with hallowed
      · rw [elim_some, fields, ih key members hfield]
      · cases depth.beyond <;> rfl
    | _ => rfl

mutual

/-- How many objects are nested in one another, those inside arrays apart. -/
def nesting : Json → ℕ
  | .object members => nestingBelow members + 1
  | _ => 0

def nestingBelow : Members → ℕ
  | [] => 0
  | (_, value) :: members => max (nesting value) (nestingBelow members)

end

lemma nesting_le (h : field ∈ members) : nesting field.2 ≤ nestingBelow members := by
  induction members with
  | nil => cases h
  | cons first members ih =>
    rcases mem_cons.mp h with rfl | h
    · exact le_max_left _ _
    · exact (ih h).trans (le_max_right _ _)

lemma applyObjectMerge_bounded (hpatch : Distinct patch) {levels : ℕ} (hlevels : nestingBelow patch < levels)
    (beyond : BeyondPolicy) (target : Members) :
    applyObjectMerge (.bounded levels beyond) target patch = applyObjectMerge .unbounded target patch := by
  induction hpatch generalizing levels target with
  | intro _ _ ih =>
    rw [applyObjectMerge_eq, applyObjectMerge_eq]
    refine mergeBy_congr (fun field hfield old => ?_) target
    obtain ⟨key, value⟩ := field
    have hnesting := nesting_le hfield
    cases value with
    | object members =>
      rw [nesting] at hnesting
      have hallowed : (ActiveDepth.bounded levels beyond).descend.allowsMerge = true := decide_eq_true (by omega)
      simp only [merged, if_pos hallowed]
      exact congrArg (some ∘ object) (ih key members hfield (by omega) _)
    | _ => rfl

/-- What the merge of the RFC makes of a member. -/
def rfcMerged (old : Option Json) : Json → Option Json
  | .null => none
  | value => some (mergePatch (old.getD .null) value)

lemma mergeMembers_eq (target patch : Members) : mergeMembers target patch = mergeBy rfcMerged target patch := by
  induction patch generalizing target with
  | nil => rw [mergeMembers, mergeBy, foldl_nil]
  | cons field patch ih =>
    obtain ⟨name, value⟩ := field
    rw [mergeBy, foldl_cons, ← mergeBy, ← ih]
    cases value <;> rw [mergeMembers, rfcMerged] <;> first | rfl | (intro h; cases h)

lemma applyObjectMerge_unbounded (hpatch : Distinct patch) (target : Members) :
    applyObjectMerge .unbounded target patch = mergeMembers target patch := by
  induction hpatch generalizing target with
  | intro _ _ ih =>
    rw [applyObjectMerge_eq, mergeMembers_eq]
    refine mergeBy_congr (fun field hfield old => ?_) target
    obtain ⟨key, value⟩ := field
    cases value with
    | object members =>
      have hold : (old.getD .null).fields = old.elim [] fields := by cases old <;> rfl
      rw [rfcMerged, mergePatch, hold, ← ih key members hfield]
      · rfl
      · intro h; cases h
    | _ => simp [merged, rfcMerged, mergePatch]

def at? (document : Json) : List Str → Option Json
  | [] => some document
  | key :: keys => (document.get key).bind (·.at? keys)

lemma eq_object_of_at? {document : Json} {keys : List Str} {members : Members} (h : document.at? keys = some (.object members)) :
    document = .object document.fields := by
  cases keys with
  | nil => rw [some.inj h]; rfl
  | cons key keys => cases document <;> first | rfl | cases h

lemma at?_applyObjectMerge (hpatch : Distinct patch) {levels : ℕ} {beyond : BeyondPolicy}
    {above : List Str} (habove : above.length < levels) {q s : Members} (hq : (object patch).at? above = some (.object q))
    (hs : (object target).at? above = some (.object s)) {key : Str} (hkey : (object q).get key = none) :
    (object (applyObjectMerge (.bounded levels beyond) target patch)).at? (above ++ [key]) = (object s).get key := by
  induction above generalizing target patch levels with
  | nil =>
    cases hq
    cases hs
    cases hpatch with
    | intro keys _ => simp [at?, applyObjectMerge_eq, get_mergeBy keys, hkey]
  | cons name above ih =>
    obtain ⟨v, hv, hq⟩ := Option.bind_eq_some_iff.mp hq
    obtain ⟨w, hw, hs⟩ := Option.bind_eq_some_iff.mp hs
    rw [eq_object_of_at? hq] at hv hq
    rw [eq_object_of_at? hs] at hw hs
    rw [length_cons] at habove
    have hallowed : (ActiveDepth.bounded levels beyond).descend.allowsMerge = true := decide_eq_true (by omega)
    cases hpatch with
    | intro keys below =>
      rw [cons_append, at?, applyObjectMerge_eq, get_mergeBy keys, hv, hw, elim_some, merged, if_pos hallowed]
      exact ih (below name _ (mem_of_get hv)) (by omega) hq hs

end

section

variable {target patch : Json} (hpatch : Distinct patch.fields)

include hpatch

lemma applyActive_twice (active : ActiveDepth) : applyActive active (applyActive active target patch) patch = applyActive active target patch := by
  unfold applyActive
  split_ifs
  · cases patch with
    | object members => exact congrArg object (applyObjectMerge_twice hpatch active target.fields)
    | _ => rfl
  · cases active.beyond <;> rfl

lemma applyActive_bounded {n : ℕ} (hn : 1 ≤ n) (hnesting : nesting patch ≤ n) (beyond : BeyondPolicy) :
    applyActive (.bounded n beyond) target patch = applyActive .unbounded target patch := by
  have hallowed : (ActiveDepth.bounded n beyond).allowsMerge = true := decide_eq_true hn
  unfold applyActive
  rw [if_pos hallowed]
  cases patch with
  | object members =>
    rw [nesting] at hnesting
    exact congrArg object (applyObjectMerge_bounded hpatch hnesting beyond target.fields)
  | _ => rfl

lemma at?_applyActive {n : ℕ} {above : List Str} (habove : above.length < n) {q s : Members} (hq : patch.at? above = some (.object q))
    (hs : target.at? above = some (.object s)) {key : Str} (hkey : (object q).get key = none) (beyond : BeyondPolicy) :
    (applyActive (.bounded n beyond) target patch).at? (above ++ [key]) = (object s).get key := by
  have hallowed : (ActiveDepth.bounded n beyond).allowsMerge = true := decide_eq_true (by omega)
  rw [eq_object_of_at? hs] at hs
  cases patch with
  | object members =>
    unfold applyActive
    rw [if_pos hallowed]
    exact at?_applyObjectMerge hpatch habove hq hs hkey
  | _ => cases eq_object_of_at? hq

end

theorem applyMergePatch_follows_rfc (target patch : Json) (hpatch : Distinct patch.fields) :
    applyMergePatch target patch .unbounded = mergePatch target patch ∧
    (∀ n, 1 ≤ n → nesting patch ≤ n → applyMergePatch target patch (.replaceBeyond n) = applyMergePatch target patch .unbounded ∧
      applyMergePatch target patch (.preserveBeyond n) = applyMergePatch target patch .unbounded) ∧
    (∀ depth, applyMergePatch (applyMergePatch target patch depth) patch depth = applyMergePatch target patch depth) ∧
    (∀ n above q s key, above.length < n → patch.at? above = some (.object q) → target.at? above = some (.object s) → (object q).get key = none →
      (applyMergePatch target patch (.replaceBeyond n)).at? (above ++ [key]) = (object s).get key ∧
      (applyMergePatch target patch (.preserveBeyond n)).at? (above ++ [key]) = (object s).get key) := by
  refine ⟨?_, fun n hn hnesting => ?_, fun depth => ?_, fun n above q s key habove hq hs hkey => ?_⟩
  · cases patch with
    | object members =>
      exact congrArg object (applyObjectMerge_unbounded hpatch target.fields)
    | _ => simp [applyMergePatch, applyActive, ActiveDepth.allowsMerge, mergePatch]
  · exact ⟨applyActive_bounded hpatch hn hnesting .replace, applyActive_bounded hpatch hn hnesting .preserve⟩
  · cases depth with
    | fullReplace => rfl
    | _ => exact applyActive_twice hpatch _
  · exact ⟨at?_applyActive hpatch habove hq hs hkey .replace, at?_applyActive hpatch habove hq hs hkey .preserve⟩

theorem applyMergePatch_follows_rfc_nested :
    Distinct [(['a'], object [(['b'], null)])] ∧
      (applyMergePatch (object [(['a'], object [(['b'], bool true), (['c'], bool false)])]) (object [(['a'], object [(['b'], null)])])
        (.replaceBeyond 2)).at? [['a'], ['c']] = some (bool false) := by
  have hinner : Distinct [(['b'], null)] := .intro (by decide) (by simp)
  have houter : Distinct [(['a'], object [(['b'], null)])] := .intro (by decide) (by simpa using hinner)
  have hkept := (applyMergePatch_follows_rfc (object [(['a'], object [(['b'], bool true), (['c'], bool false)])]) (object _) houter).2.2.2
  exact ⟨houter, (hkept 2 [['a']] _ [(['b'], bool true), (['c'], bool false)] ['c'] (by decide) rfl rfl rfl).1⟩

end Json

end AeorDb.Query
