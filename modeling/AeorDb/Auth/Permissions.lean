import AeorDb.Dir.Operations

/-! Permission files and the walk that resolves them. -/

namespace AeorDb.Auth

open Store Dir

inductive CrudlifyOp where
  | create | read | update | delete | list | invoke | configure | deploy
  deriving DecidableEq

def CrudlifyOp.index : CrudlifyOp → ℕ
  | .create => 0
  | .read => 1
  | .update => 2
  | .delete => 3
  | .list => 4
  | .invoke => 5
  | .configure => 6
  | .deploy => 7

def CrudlifyOp.letter : CrudlifyOp → Char
  | .create => 'c'
  | .read => 'r'
  | .update => 'u'
  | .delete => 'd'
  | .list => 'l'
  | .invoke => 'i'
  | .configure => 'f'
  | .deploy => 'y'

structure PermissionLink where
  group : Str
  allow : Str
  deny : Str
  othersAllow : Option Str
  othersDeny : Option Str
  pathPattern : Option Str
  deriving DecidableEq

structure PathPermissions where
  links : List PermissionLink
  deriving DecidableEq

abbrev Flags := CrudlifyOp → Option Bool

def parseCrudlifyFlags (flags : Str) : Flags := fun op => if flags[op.index]? = some op.letter then some true else none

def mergeFlags (target source : Flags) : Flags := fun op => if source op = some true then some true else target op

def mergeOthers (target : Flags) : Option Str → Flags
  | some flags => mergeFlags target (parseCrudlifyFlags flags)
  | none => target

abbrev Uuid := BitVec 128

def isRoot (user : Uuid) : Bool := user = 0

structure Policy where
  permissions : Str → EngineResult (Option PathPermissions)
  groups : Uuid → EngineResult (List Str)

def permissionsName : Str := ".aeordb-permissions".toList

def permissionsPath (level : Str) : Str :=
  if level = ['/'] ∨ level.getLast? = some '/' then level ++ permissionsName else level ++ '/' :: permissionsName

def Policy.load (policy : Policy) (level : Str) : EngineResult (Option PathPermissions) :=
  policy.permissions (normalizePath (permissionsPath level))

def enginePolicy {H : Type} (hs : Hasher H) (e : Engine H) (decode : List UInt8 → EngineResult PathPermissions)
    (groups : Uuid → EngineResult (List Str)) : Policy where
  permissions path :=
    match readFileBuffered hs e path with
    | .ok data => (decode data).map some
    | .error (.notFound _) => .ok none
    | .error err => .error err
  groups := groups

def trimSlashes (path : Str) : Str := trimEnd (· = '/') (path.dropWhile (· = '/'))

def levelsFrom (current : Str) : List Str → List Str
  | [] => []
  | segment :: segments => (current ++ '/' :: segment) :: levelsFrom (current ++ '/' :: segment) segments

def pathLevels (path : Str) : List Str :=
  if trimSlashes path = [] then [['/']]
  else
    let segments := (trimSlashes path).splitOn '/'
    let count := if path.getLast? = some '/' then segments.length else segments.length - 1
    ['/'] :: levelsFrom [] (segments.take count)

def targetParent (path : Str) : Str :=
  let trimmed := trimEnd (· = '/') path
  match rfind '/' trimmed with
  | some 0 => ['/']
  | some i => trimmed.take i
  | none => ['/']

def targetName (path : Str) : Str := ((trimEnd (· = '/') path).splitOn '/').getLast?.getD []

def linkApplies (path level : Str) (link : PermissionLink) : Bool :=
  match link.pathPattern with
  | none => true
  | some pattern => trimEnd (· = '/') level = trimEnd (· = '/') (targetParent path) ∧ targetName path = pattern

def mergeLink (groups : List Str) (flags : Flags × Flags) (link : PermissionLink) : Flags × Flags :=
  if link.group ∈ groups then
    (mergeFlags flags.1 (parseCrudlifyFlags link.allow), mergeFlags flags.2 (parseCrudlifyFlags link.deny))
  else (mergeOthers flags.1 link.othersAllow, mergeOthers flags.2 link.othersDeny)

def levelFlags (groups : List Str) (links : List PermissionLink) : Flags × Flags :=
  links.foldl (mergeLink groups) (fun _ => none, fun _ => none)

def stepLevel (policy : Policy) (groups : List Str) (path : Str) (state : CrudlifyOp → Bool) (level : Str) :
    EngineResult (CrudlifyOp → Bool) := do
  match ← policy.load level with
  | none => .ok state
  | some permissions =>
    let (allow, deny) := levelFlags groups (permissions.links.filter (linkApplies path level))
    .ok fun op => if deny op = some true then false else if allow op = some true then true else state op

def rooted (path : Str) : Str := if path.head? = some '/' then path else '/' :: path

def checkDirectPermission (policy : Policy) (user : Uuid) (path : Str) (op : CrudlifyOp) : EngineResult Bool :=
  if isRoot user then .ok true
  else do
    let groups ← policy.groups user
    let state ← (pathLevels (rooted path)).foldlM (stepLevel policy groups (rooted path)) fun _ => false
    .ok (state op)

def checkPathPermission (policy : Policy) (user : Uuid) (path : Str) (op : CrudlifyOp) : EngineResult Bool := do
  if ← checkDirectPermission policy user path op then .ok true
  else if path.getLast? = some '/' then .ok false
  else checkDirectPermission policy user (path ++ ['/']) op

end AeorDb.Auth
