import AeorDb.Auth.Levels
import AeorDb.Auth.Middleware

/-! The index of all grants of a database, and what becomes of a permission when a grant is withdrawn. -/

namespace AeorDb.Auth

open Store Dir Library List

structure GrantRecord where
  dirPath : Str
  link : PermissionLink
  deriving DecidableEq

def GrantRecord.targetPath (r : GrantRecord) : Str :=
  match r.link.pathPattern with
  | some name => childPath r.dirPath name
  | none => r.dirPath

def normalizeForCompare (path : Str) : Str := if 1 < path.length then trimEnd (· = '/') path else path

def pathIsAncestorOrEqual (ancestor target : Str) : Bool :=
  let ancestor := normalizeForCompare ancestor
  let target := normalizeForCompare target
  if ancestor = target then true
  else if ancestor = ['/'] then startsWith target ['/']
  else startsWith target ancestor && startsWith (target.drop ancestor.length) ['/']

def pathIsStrictAncestor (ancestor target : Str) : Bool :=
  let a := normalizeForCompare ancestor
  let t := normalizeForCompare target
  if a = t then false else pathIsAncestorOrEqual a t

def userHasDescendantGrants (index : List GrantRecord) (groups : List Str) (path : Str) : Bool :=
  groups.any fun group => (index.filter fun r => r.link.group = group).any fun r => pathIsStrictAncestor path r.targetPath

section

variable {H : Type} [DecidableEq H] (hs : Hasher H) (e : Engine H) (isMatch : Str → Str → Bool) (cap : ℕ)

def listChild (descend : Str → List Str → EngineResult (List Str)) (path : Str) (results : List Str) (c : ChildEntry H) :
    EngineResult (List Str) :=
  if cap ≤ results.length then .ok results
  else
    match c.entryType with
    | .fileRecord | .symlink =>
      .ok (if isMatch (childPath path c.name) c.name then results ++ [childPath path c.name] else results)
    | .directoryIndex => descend (childPath path c.name) results
    | _ => .ok results

def listDirectoryRecursive : ℕ → Str → List Str → EngineResult (List Str)
  | 0, path, results => do
    (← listing hs e path).foldlM (listChild isMatch cap (fun _ results => .ok results) path) results
  | depth + 1, path, results => do
    (← listing hs e path).foldlM (listChild isMatch cap (listDirectoryRecursive depth) path) results

def maxScanDepth : ℕ := 10
def maxPermFiles : ℕ := 1000

def permissionFiles : EngineResult (List Str) := listDirectoryRecursive hs e isMatch maxPermFiles maxScanDepth ['/'] []

end

def permissionsDirectory (path : Str) : Option Str :=
  if endsWith path ('/' :: permissionsName) then
    let stripped := path.take (path.length - ('/' :: permissionsName).length)
    some (if stripped = [] then ['/'] else stripped)
  else none

def fileGrants (policy : Policy) (path : Str) : List GrantRecord :=
  match policy.permissions (normalizePath path), permissionsDirectory path with
  | .ok (some permissions), some dir => permissions.links.map fun link => ⟨dir, link⟩
  | _, _ => []

def loadGrants (policy : Policy) (files : EngineResult (List Str)) : List GrantRecord :=
  match files with
  | .ok paths => paths.flatMap (fileGrants policy)
  | .error _ => []

def hasDescendantGrants (policy : Policy) (files : EngineResult (List Str)) (user : Uuid) (path : Str) : EngineResult Bool :=
  if isRoot user then .ok true
  else do
    let groups ← policy.groups user
    if groups = [] then .ok false else .ok (userHasDescendantGrants (loadGrants policy files) groups (rooted path))

/-- What is left of the links of a file when one of its grants is withdrawn: a link that denies nothing is taken
out, or a link is left with fewer permissions. -/
inductive LinkWithdrawn (groups : List Str) : List PermissionLink → List PermissionLink → Prop where
  | dropped (before after : List PermissionLink) (link : PermissionLink) (hdeny : ∀ op, ¬ denies groups op link) :
      LinkWithdrawn groups (before ++ link :: after) (before ++ after)
  | narrowed (before after : List PermissionLink) (link : PermissionLink) (allow : Str) (othersAllow : Option Str)
      (hallow : ∀ op, allows groups op { link with allow, othersAllow } → allows groups op link) :
      LinkWithdrawn groups (before ++ link :: after) (before ++ { link with allow, othersAllow } :: after)

structure GrantWithdrawn (policy policy' : Policy) (user : Uuid) (file : Str) : Prop where
  groups : policy'.groups = policy.groups
  others : ∀ path, path ≠ file → policy'.permissions path = policy.permissions path
  links : ∃ links links', policy.permissions file = .ok (some ⟨links⟩) ∧ policy'.permissions file = .ok (some ⟨links'⟩) ∧
    ∀ groups, policy.groups user = .ok groups → LinkWithdrawn groups links links'

variable {policy policy' : Policy} {user : Uuid} {file : Str} {groups : List Str} {op : CrudlifyOp}

lemma denies_narrowed (groups : List Str) (op : CrudlifyOp) (link : PermissionLink) (allow : Str) (othersAllow : Option Str) :
    denies groups op { link with allow, othersAllow } ↔ denies groups op link := by
  rw [denies, denies, mergeLink, mergeLink]
  split_ifs <;> rfl

lemma LinkWithdrawn.flags {links links' : List PermissionLink} (h : LinkWithdrawn groups links links') (path level : Str) (op : CrudlifyOp) :
    ((∃ link ∈ links'.filter (linkApplies path level), allows groups op link) →
      ∃ link ∈ links.filter (linkApplies path level), allows groups op link) ∧
    ((∃ link ∈ links'.filter (linkApplies path level), denies groups op link) ↔
      ∃ link ∈ links.filter (linkApplies path level), denies groups op link) := by
  cases h with
  | dropped before after link hdeny =>
    have hno := hdeny op
    simp only [mem_filter, mem_append, mem_cons]
    grind
  | narrowed before after link allow othersAllow hallow =>
    have happlies : linkApplies path level { link with allow, othersAllow } = linkApplies path level link := rfl
    have hallow := hallow op
    have hdeny := denies_narrowed groups op link allow othersAllow
    generalize ({ link with allow, othersAllow } : PermissionLink) = link' at happlies hallow hdeny ⊢
    simp only [mem_filter, mem_append, mem_cons]
    grind

lemma stepLevel_some (groups : List Str) (path : Str) (state : CrudlifyOp → Bool) {links : List PermissionLink} {level : Str}
    (hload : policy.load level = .ok (some ⟨links⟩)) : ∃ state', stepLevel policy groups path state level = .ok state' ∧ ∀ op,
      (state' op = true ↔ (¬ ∃ link ∈ links.filter (linkApplies path level), denies groups op link) ∧
        ((∃ link ∈ links.filter (linkApplies path level), allows groups op link) ∨ state op = true)) := by
  refine ⟨fun op => if (levelFlags groups (links.filter (linkApplies path level))).2 op = some true then false
    else if (levelFlags groups (links.filter (linkApplies path level))).1 op = some true then true else state op, ?_, fun op => ?_⟩
  · rw [stepLevel, hload]
    rfl
  · rw [← (levelFlags_iff groups _ op).1, ← (levelFlags_iff groups _ op).2]
    dsimp only
    split_ifs with hdeny hallow
    · simp [hdeny]
    · simp [hdeny, hallow]
    · simp [hdeny, hallow]

variable {state state' next' : CrudlifyOp → Bool} {path : Str} (h : GrantWithdrawn policy policy' user file)
include h

lemma GrantWithdrawn.stepLevel (hgroups : policy.groups user = .ok groups) {path level : Str} (hstate : ∀ op, state' op = true → state op = true) (hstep : stepLevel policy' groups path state' level = .ok next') :
    ∃ next, stepLevel policy groups path state level = .ok next ∧ ∀ op, next' op = true → next op = true := by
  by_cases hfile : normalizePath (permissionsPath level) = file
  · obtain ⟨links, links', hlinks, hlinks', hwithdrawn⟩ := h.links
    have hload : policy.load level = .ok (some ⟨links⟩) := by rw [Policy.load, hfile, hlinks]
    have hload' : policy'.load level = .ok (some ⟨links'⟩) := by rw [Policy.load, hfile, hlinks']
    obtain ⟨next, hnext, hspec⟩ := stepLevel_some groups path state hload
    obtain ⟨next₂, hnext₂, hspec'⟩ := stepLevel_some groups path state' hload'
    obtain rfl := Except.ok.inj (hstep.symm.trans hnext₂)
    refine ⟨next, hnext, fun op hop => ?_⟩
    have hflags := (hwithdrawn groups hgroups).flags path level op
    obtain ⟨hdeny, hallow⟩ := (hspec' op).mp hop
    exact (hspec op).mpr ⟨fun hdenies => hdeny (hflags.2.mpr hdenies), hallow.imp hflags.1 (hstate op)⟩
  · have hload : policy'.load level = policy.load level := h.others _ hfile
    rw [Auth.stepLevel, hload] at hstep
    rw [Auth.stepLevel]
    cases hfound : policy.load level with
    | error err =>
      rw [hfound] at hstep
      cases hstep
    | ok found =>
      rw [hfound] at hstep
      cases found with
      | none =>
        cases hstep
        exact ⟨state, rfl, hstate⟩
      | some permissions =>
        cases hstep
        refine ⟨_, rfl, fun op hop => ?_⟩
        dsimp only at hop ⊢
        split_ifs at hop ⊢
        · rfl
        · exact hstate op hop

lemma GrantWithdrawn.foldlM (hgroups : policy.groups user = .ok groups) (levels : List Str) (hstate : ∀ op, state' op = true → state op = true) (hrun : levels.foldlM (Auth.stepLevel policy' groups path) state' = .ok next') :
    ∃ next, levels.foldlM (Auth.stepLevel policy groups path) state = .ok next ∧ ∀ op, next' op = true → next op = true := by
  induction levels generalizing state state' with
  | nil =>
    cases hrun
    exact ⟨state, rfl, hstate⟩
  | cons level levels ih =>
    rw [foldlM_cons] at hrun
    obtain ⟨mid', hmid', hrest⟩ := Result.bind_eq_ok.mp hrun
    obtain ⟨mid, hmid, hle⟩ := h.stepLevel hgroups hstate hmid'
    obtain ⟨next, hnext, hlast⟩ := ih hle hrest
    refine ⟨next, ?_, hlast⟩
    rw [foldlM_cons, hmid]
    exact hnext

lemma GrantWithdrawn.checkDirectPermission {granted' : Bool} (hcheck : checkDirectPermission policy' user path op = .ok granted') :
    ∃ granted, checkDirectPermission policy user path op = .ok granted ∧ (granted' = true → granted = true) := by
  rw [Auth.checkDirectPermission] at hcheck ⊢
  split_ifs at hcheck ⊢
  · exact ⟨true, rfl, fun _ => rfl⟩
  · rw [h.groups] at hcheck
    obtain ⟨groups, hgroups, hrun⟩ := Result.bind_eq_ok.mp hcheck
    obtain ⟨state', hstate', hop⟩ := Result.bind_eq_ok.mp hrun
    obtain ⟨state, hstate, hle⟩ := h.foldlM hgroups _ (fun _ hfalse => hfalse) hstate'
    cases hop
    exact ⟨state op, Result.bind_eq_ok.mpr ⟨groups, hgroups, Result.bind_eq_ok.mpr ⟨state, hstate, rfl⟩⟩, hle op⟩

lemma GrantWithdrawn.checkPathPermission (hcheck : checkPathPermission policy' user path op = .ok true) : checkPathPermission policy user path op = .ok true := by
  obtain ⟨direct', hdirect', hrest⟩ := Result.bind_eq_ok.mp hcheck
  obtain ⟨direct, hdirect, hle⟩ := h.checkDirectPermission hdirect'
  refine Result.bind_eq_ok.mpr ⟨direct, hdirect, ?_⟩
  cases direct with
  | true => rfl
  | false =>
    cases direct' with
    | true => cases hle rfl
    | false =>
      simp only [Bool.false_eq_true, if_false] at hrest ⊢
      split_ifs at hrest ⊢
      · cases hrest
      · obtain ⟨granted, hgranted, hle⟩ := h.checkDirectPermission hrest
        rw [hgranted, hle rfl]

end AeorDb.Auth
