import AeorDb.Auth.KeyRules

/-! The permission check in front of every route. -/

namespace AeorDb.Auth

open Store Dir

inductive Subject where
  | share (key : Uuid)
  | user (id : Uuid)
  | invalid
  deriving DecidableEq

structure TokenClaims where
  sub : Subject
  keyId : Option Uuid
  deriving DecidableEq

structure ApiKeyRecord where
  keyId : Uuid
  keyHash : Str
  userId : Option Uuid
  isRevoked : Bool
  expiresAt : ℤ
  rules : List KeyRule
  deriving DecidableEq

structure ServerState (H : Type) where
  engine : Engine H
  policy : Policy
  apiKeys : EngineResult (List ApiKeyRecord)
  hasDescendantGrants : Uuid → Str → EngineResult Bool
  accessibleChildNames : Uuid → Str → EngineResult (List Str)
  now : ℤ

structure Response where
  status : ℕ
  error : Str
  deriving DecidableEq

structure Admitted where
  activeKeyRules : Option (List KeyRule)
  allowedChildren : Option (List Str)
  deriving DecidableEq

inductive Method where
  | get | head | put | post | delete | patch | other
  deriving DecidableEq

structure Request where
  path : Str
  method : Method
  claims : Option TokenClaims

def endsWith (s suffix : Str) : Bool := suffix.isSuffixOf s

def containsText (s text : Str) : Bool := s.tails.any fun t => startsWith t text

def filesRoute : Str := "/files/".toList
def linksRoute : Str := "/links/".toList

def administrativeRoutes : List Str :=
  ["/files/query", "/files/search", "/files/fetch", "/files/download", "/files/mkdir", "/files/copy", "/files/share",
    "/files/shares", "/files/share-link", "/files/shared-with-me", "/files/deleted", "/files/restore"].map String.toList

def enginePath (path : Str) : Option Str :=
  if startsWith path linksRoute then some (path.drop linksRoute.length)
  else if startsWith path filesRoute && !(path ∈ administrativeRoutes : Bool) && !startsWith path "/files/share-links".toList then
    some (path.drop filesRoute.length)
  else none

def decodeSlashes : Str → Str
  | '%' :: '2' :: 'F' :: s => '/' :: decodeSlashes s
  | c :: s => c :: decodeSlashes s
  | [] => []

def mergeSlashes : Str → Str
  | '/' :: '/' :: s => '/' :: mergeSlashes s
  | c :: s => c :: mergeSlashes s
  | [] => []

def matchPath (path : Str) : Str := mergeSlashes (decodeSlashes ('/' :: path))

variable {H : Type} (hs : Hasher H) (globMatch : GlobMatch) (st : ServerState H)

def pathExists (e : Engine H) (path : Str) : Bool :=
  e.hasEntry (hs.filePathHash (normalizePath path)) || e.hasEntry (hs.directoryPathHash (normalizePath path))

def configureFiles : List Str := [".aeordb-config".toList, permissionsName]
def deployFiles : List Str := [".aeordb-functions".toList]

def httpToCrudlify (method : Method) (path : Str) : CrudlifyOp :=
  let fileName := (path.splitOn '/').getLast?.getD []
  match method with
  | .put =>
    if configureFiles.any fun special => fileName = special || containsText path ('/' :: special ++ ['/']) then .configure
    else if fileName ∈ deployFiles then .deploy
    else if pathExists hs st.engine path then .update
    else .create
  | .post => if endsWith path "/invoke".toList && startsWith path "plugins/".toList then .invoke else .create
  | .get => if endsWith path ['/'] then .list else .read
  | .head => .read
  | .delete => .delete
  | .patch => .update
  | .other => .read

def findKey (id : Uuid) : EngineResult (Option ApiKeyRecord) := st.apiKeys.map fun keys => keys.find? fun k => k.keyId = id

def requireKey (id : Uuid) : Except Response ApiKeyRecord :=
  match findKey st id with
  | .error _ => .error ⟨500, "Failed to verify API key".toList⟩
  | .ok none => .error ⟨401, "API key not found".toList⟩
  | .ok (some record) =>
    if record.isRevoked then .error ⟨401, "API key has been revoked".toList⟩
    else if record.expiresAt ≤ st.now then .error ⟨401, "API key expired".toList⟩
    else .ok record

def notFoundAt (path : Str) : Response := ⟨404, "Not found: ".toList ++ path⟩

def checkRules (rules : List KeyRule) (path : Str) (operation : CrudlifyOp) : Except Response Unit :=
  let flag := operationToFlagChar operation
  if rules = [] then .ok ()
  else if isAncestorOfAnyRule rules (matchPath path) && (flag = 'r' || flag = 'l') then .ok ()
  else if rulesPermit globMatch rules (matchPath path) flag then .ok ()
  else .error (notFoundAt path)

def attachedRules (rules : List KeyRule) : Option (List KeyRule) := if rules = [] then none else some rules

def enforceKey (claims : TokenClaims) (path : Str) (operation : CrudlifyOp) : Except Response (Option (List KeyRule)) :=
  match claims.keyId with
  | none => .ok none
  | some id => do
    let record ← requireKey st id
    checkRules globMatch record.rules path operation
    .ok (attachedRules record.rules)

def activeKeyRules (claims : Option TokenClaims) : Option (List KeyRule) :=
  match claims.bind TokenClaims.keyId with
  | none => none
  | some id =>
    match findKey st id with
    | .ok (some record) => if !record.isRevoked && decide (st.now < record.expiresAt) then attachedRules record.rules else none
    | _ => none

def shareHasNoRules (claims : TokenClaims) : Bool :=
  match claims.keyId with
  | none => false
  | some id =>
    match findKey st id with
    | .ok (some record) => record.rules = []
    | _ => false

def checkUser (user : Uuid) (path : Str) (operation : CrudlifyOp) : Except Response (Option (List Str)) :=
  match checkPathPermission st.policy user path operation with
  | .error _ => .error ⟨500, "Permission check failed".toList⟩
  | .ok true => .ok none
  | .ok false =>
    if (operation = .read || operation = .list) && (st.hasDescendantGrants user path).toOption.getD false then
      .ok (some ((st.accessibleChildNames user path).toOption.getD []))
    else .error ⟨403, "Permission denied".toList⟩

def parseSubject : Subject → Except Response (Option Uuid)
  | .share _ => .ok none
  | .user id => .ok (some id)
  | .invalid => .error ⟨403, "Invalid user identity".toList⟩

def checkSubject (claims : TokenClaims) (path : Str) (operation : CrudlifyOp) : Option Uuid → Except Response (Option (List Str))
  | none => if shareHasNoRules st claims then .error ⟨403, "Share key has no permission rules".toList⟩ else .ok none
  | some user => checkUser st user path operation

def permitPath (claims : TokenClaims) (method : Method) (path : Str) : Except Response Admitted :=
  if isSystemPath (rooted path) then .error (notFoundAt ('/' :: path))
  else do
    let user ← parseSubject claims.sub
    let operation := httpToCrudlify hs st method path
    let rules ← enforceKey globMatch st claims path operation
    let children ← checkSubject st claims path operation user
    .ok ⟨rules, children⟩

def permissionMiddleware (request : Request) : Except Response Admitted :=
  match enginePath request.path with
  | none =>
    if startsWith request.path "/blobs/chunks/".toList then .ok ⟨none, none⟩ else .ok ⟨activeKeyRules st request.claims, none⟩
  | some path =>
    match request.claims with
    | none => .error ⟨401, "Authentication required".toList⟩
    | some claims => permitPath hs globMatch st claims request.method path

variable {hs globMatch st} {claims : TokenClaims} {method : Method} {path : Str}

lemma enginePath_links (path : Str) : enginePath (linksRoute ++ path) = some path := by
  simp [enginePath, startsWith]

variable {id : Uuid} {operation : CrudlifyOp}

lemma requireKey_eq_ok {record : ApiKeyRecord} :
    requireKey st id = .ok record ↔ findKey st id = .ok (some record) ∧ record.isRevoked = false ∧ st.now < record.expiresAt := by
  rw [requireKey]
  rcases findKey st id with err | _ | found
  · simp
  · simp
  · dsimp only
    split_ifs with hrevoked hexpired
    · simp only [Except.ok.injEq, Option.some.injEq, false_iff]
      rintro ⟨rfl, hr, _⟩
      exact absurd hrevoked (by simp [hr])
    · simp only [Except.ok.injEq, Option.some.injEq, false_iff]
      rintro ⟨rfl, _, he⟩
      omega
    · simp only [Except.ok.injEq, Option.some.injEq]
      constructor
      · rintro rfl
        exact ⟨rfl, by simpa using hrevoked, by omega⟩
      · exact And.left

def Navigates (rules : List KeyRule) (path : Str) (operation : CrudlifyOp) : Prop :=
  (operation = .read ∨ operation = .list) ∧
    ∃ rule ∈ rules, rule.glob ≠ "**".toList ∧ LeadsTo (trimEnd (· = '/') (matchPath path)) (ruleTarget rule)

lemma checkRules_eq_ok {rules : List KeyRule} : checkRules globMatch rules path operation = .ok () ↔
      rules = [] ∨ Navigates rules path operation ∨ rulesPermit globMatch rules (matchPath path) (operationToFlagChar operation) = true := by
  have hflag : (operationToFlagChar operation = 'r' ∨ operationToFlagChar operation = 'l') ↔ (operation = .read ∨ operation = .list) := by
    cases operation <;> decide
  have hnavigate : (isAncestorOfAnyRule rules (matchPath path) &&
      (operationToFlagChar operation = 'r' || operationToFlagChar operation = 'l')) = true ↔ Navigates rules path operation := by
    rw [Bool.and_eq_true, isAncestorOfAnyRule_iff, Bool.or_eq_true, decide_eq_true_eq, decide_eq_true_eq, hflag, and_comm]
    rfl
  simp only [checkRules, hnavigate]
  split_ifs with hnil hnav hpermit <;> simp_all

lemma enforceKey_eq_ok {rules : Option (List KeyRule)} (hid : claims.keyId = some id) :
    enforceKey globMatch st claims path operation = .ok rules ↔
      ∃ record, requireKey st id = .ok record ∧ checkRules globMatch record.rules path operation = .ok () ∧ attachedRules record.rules = rules := by
  rw [enforceKey, hid]
  dsimp only
  rw [Library.Result.bind_eq_ok]
  refine exists_congr fun record => and_congr_right fun _ => ?_
  rw [Library.Result.bind_eq_ok]
  constructor
  · rintro ⟨⟨⟩, hcheck, h⟩
    exact ⟨hcheck, Except.ok.inj h⟩
  · rintro ⟨hcheck, rfl⟩
    exact ⟨(), hcheck, rfl⟩

lemma permitPath_eq_ok {admitted : Admitted} : permitPath hs globMatch st claims method path = .ok admitted ↔
      isSystemPath (rooted path) = false ∧ ∃ user, parseSubject claims.sub = .ok user ∧
        enforceKey globMatch st claims path (httpToCrudlify hs st method path) = .ok admitted.activeKeyRules ∧
        checkSubject st claims path (httpToCrudlify hs st method path) user = .ok admitted.allowedChildren := by
  rw [permitPath]
  split_ifs with hsystem
  · simp [hsystem]
  · rw [Library.Result.bind_eq_ok, Bool.eq_false_iff.mpr hsystem]
    simp only [true_and]
    refine exists_congr fun user => and_congr_right fun _ => ?_
    rw [Library.Result.bind_eq_ok]
    constructor
    · rintro ⟨rules, hrules, h⟩
      obtain ⟨children, hchildren, h⟩ := Library.Result.bind_eq_ok.mp h
      cases h
      exact ⟨hrules, hchildren⟩
    · rintro ⟨hrules, hchildren⟩
      exact ⟨_, hrules, Library.Result.bind_eq_ok.mpr ⟨_, hchildren, rfl⟩⟩

lemma permissionMiddleware_path {target : Str} (htarget : enginePath target = some path) :
    permissionMiddleware hs globMatch st ⟨target, method, some claims⟩ = permitPath hs globMatch st claims method path := by
  simp only [permissionMiddleware, htarget]

end AeorDb.Auth
