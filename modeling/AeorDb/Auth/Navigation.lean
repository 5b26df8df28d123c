import AeorDb.Auth.Grants
import AeorDb.Auth.Meaning

/-! Directories on the way to a grant: what the index of grants adds to the walk over the levels. -/

namespace AeorDb.Auth

open Store Library List

def checkPermission (policy : Policy) (files : EngineResult (List Str)) (user : Uuid) (path : Str) (op : CrudlifyOp) : EngineResult Bool :=
  if isRoot user then .ok true
  else do
    if ← checkDirectPermission policy user path op then .ok true
    else if op = .read ∨ op = .list then hasDescendantGrants policy files user path
    else .ok false

/-- A link of a permission file, with the directory of the file. -/
def InForce (policy : Policy) (r : GrantRecord) : Prop :=
  ∃ permissions, policy.permissions (normalizePath (permissionsPath r.dirPath)) = .ok (some permissions) ∧ r.link ∈ permissions.links

/-- Some link gives the user a permission on a path strictly below. -/
def GrantedBelow (policy : Policy) (groups : List Str) (path : Str) : Prop :=
  ∃ r, InForce policy r ∧ (∃ op, LinkAllows groups op r.link) ∧ pathIsStrictAncestor (rooted path) r.targetPath

/-- The scan finds a link for a group of the user with a target strictly below. -/
def ListedBelow (policy : Policy) (files : EngineResult (List Str)) (groups : List Str) (path : Str) : Prop :=
  ∃ paths, files = .ok paths ∧ ∃ file ∈ paths, ∃ dir permissions, permissionsDirectory file = some dir ∧
    policy.permissions (normalizePath file) = .ok (some permissions) ∧
    ∃ link ∈ permissions.links, link.group ∈ groups ∧ pathIsStrictAncestor (rooted path) (GrantRecord.targetPath ⟨dir, link⟩)

section

variable {policy : Policy} {user : Uuid} {path : Str} {groups : List Str}

lemma mem_loadGrants_iff {files : EngineResult (List Str)} {r : GrantRecord} : r ∈ loadGrants policy files ↔
    ∃ paths, files = .ok paths ∧ ∃ file ∈ paths, ∃ permissions, permissionsDirectory file = some r.dirPath ∧
      policy.permissions (normalizePath file) = .ok (some permissions) ∧ r.link ∈ permissions.links := by
  cases files with
  | error err => simp [loadGrants]
  | ok paths =>
    simp only [loadGrants, mem_flatMap, Except.ok.injEq, exists_eq_left']
    refine exists_congr fun file => and_congr_right fun _ => ?_
    rw [fileGrants]
    split
    · rename_i permissions dir hload hdir
      simp only [mem_map, hload, hdir, Option.some.injEq, Except.ok.injEq, exists_eq_left', exists_and_left]
      constructor
      · rintro ⟨link, hlink, rfl⟩
        exact ⟨rfl, hlink⟩
      · rintro ⟨rfl, hlink⟩
        exact ⟨r.link, hlink, rfl⟩
    · rename_i hother
      simp only [not_mem_nil, false_iff]
      rintro ⟨permissions, hdir, hload, _⟩
      exact hother permissions r.dirPath hload hdir

lemma hasDescendantGrants_iff (hroot : ¬ isRoot user) (hgroups : policy.groups user = .ok groups) (files : EngineResult (List Str)) :
    hasDescendantGrants policy files user path = .ok true ↔ ListedBelow policy files groups path := by
  have hlisted : userHasDescendantGrants (loadGrants policy files) groups (rooted path) = true ↔
      ListedBelow policy files groups path := by
    simp only [userHasDescendantGrants, any_eq_true, mem_filter, decide_eq_true_eq, mem_loadGrants_iff]
    constructor
    · rintro ⟨group, hgroup, r, ⟨⟨paths, hpaths, file, hfile, permissions, hdir, hload, hlink⟩, rfl⟩, hbelow⟩
      exact ⟨paths, hpaths, file, hfile, r.dirPath, permissions, hdir, hload, r.link, hlink, hgroup, hbelow⟩
    · rintro ⟨paths, hpaths, file, hfile, dir, permissions, hdir, hload, link, hlink, hgroup, hbelow⟩
      exact ⟨link.group, hgroup, ⟨dir, link⟩, ⟨⟨paths, hpaths, file, hfile, permissions, hdir, hload, hlink⟩, rfl⟩, hbelow⟩
  rw [hasDescendantGrants, if_neg hroot, hgroups]
  simp only [bind, Except.bind]
  split_ifs with hempty
  · rw [← hlisted, hempty]
    simp [userHasDescendantGrants]
  · rw [← hlisted, Except.ok.injEq]

end

def shareLink : PermissionLink := ⟨['g'], "....l...".toList, [], some ".r......".toList, none, none⟩

/-- Everybody may read `/a/b`, and members of a group may list it. -/
def sharedBelow : Policy where
  permissions path := if path = "/a/b/.aeordb-permissions".toList then .ok (some ⟨[shareLink]⟩) else .ok none
  groups user := .ok (if user = 1 then [['g']] else [['o']])

def sharedFiles : EngineResult (List Str) := .ok ["/a/b/.aeordb-permissions".toList]

lemma grantedBelow_sharedBelow {groups : List Str} {op : CrudlifyOp} (hallow : LinkAllows groups op shareLink) :
    GrantedBelow sharedBelow groups ['/', 'a'] := by
  have hload : sharedBelow.permissions (normalizePath (permissionsPath "/a/b".toList)) = .ok (some ⟨[shareLink]⟩) := by decide
  exact ⟨⟨"/a/b".toList, shareLink⟩, ⟨_, hload, mem_singleton_self _⟩, ⟨op, hallow⟩, by decide⟩

end AeorDb.Auth
