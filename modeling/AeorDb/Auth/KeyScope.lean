import AeorDb.Auth.Middleware
import AeorDb.Store.Digest

/-! What the rules of a key keep out, and what gets past them. -/

namespace AeorDb.Auth

open Store

variable {H : Type}

def ScopedBy (st : ServerState H) (claims : TokenClaims) (rules : List KeyRule) : Prop :=
  ∃ id record, claims.keyId = some id ∧ findKey st id = .ok (some record) ∧ record.rules = rules

section

variable {rules : List KeyRule} {path : Str}

def shareServer (rules : List KeyRule) : ServerState H where
  engine := Engine.empty fun _ => 0
  policy := ⟨fun _ => .ok none, fun _ => .ok []⟩
  apiKeys := .ok [⟨1, [], none, false, 1, rules⟩]
  hasDescendantGrants := fun _ _ => .ok false
  accessibleChildNames := fun _ _ => .ok []
  now := 0

def shareClaims : TokenClaims := ⟨.share 1, some 1⟩

lemma scopedBy_shareServer (rules : List KeyRule) : ScopedBy (shareServer rules : ServerState H) shareClaims rules :=
  ⟨1, _, rfl, rfl, rfl⟩

lemma permitPath_shareServer (hs : Hasher H) (globMatch : GlobMatch) (method : Method) (hne : rules ≠ [])
    (hsystem : isSystemPath (rooted path) = false)
    (hcheck : checkRules globMatch rules path (httpToCrudlify hs (shareServer rules) method path) = .ok ()) :
    permitPath hs globMatch (shareServer rules) shareClaims method path = .ok ⟨some rules, none⟩ := by
  refine permitPath_eq_ok.mpr ⟨hsystem, none, rfl, ?_, ?_⟩
  · refine (enforceKey_eq_ok rfl).mpr ⟨⟨1, [], none, false, 1, rules⟩, rfl, hcheck, ?_⟩
    rw [attachedRules, if_neg hne]
  · have hrules : shareHasNoRules (shareServer rules : ServerState H) shareClaims = false := by
      change decide (rules = []) = false
      exact decide_eq_false hne
    rw [checkSubject, if_neg (by simp [hrules])]

end

section

variable {hs : Hasher H} {globMatch : GlobMatch} {st : ServerState H} {claims : TokenClaims} {rules : List KeyRule}
  {method : Method} {path : Str}

def readOperation (method : Method) (path : Str) : Option CrudlifyOp :=
  match method with
  | .get => some (if endsWith path ['/'] then .list else .read)
  | .head => some .read
  | .other => some .read
  | _ => none

lemma readOperation_of_reads (h : httpToCrudlify hs st method path = .read ∨ httpToCrudlify hs st method path = .list) :
    readOperation method path = some (httpToCrudlify hs st method path) := by
  cases method with
  | get => rfl
  | head => rfl
  | other => rfl
  | delete => simp [httpToCrudlify] at h
  | patch => simp [httpToCrudlify] at h
  | put =>
    simp only [httpToCrudlify] at h
    split_ifs at h <;> simp at h
  | post =>
    simp only [httpToCrudlify] at h
    split_ifs at h <;> simp at h

lemma exists_error_of_forall_ne_ok {ε α : Type} {x : Except ε α} (h : ∀ a, x ≠ .ok a) : ∃ err, x = .error err := by
  cases x with
  | error err => exact ⟨err, rfl⟩
  | ok a => exact absurd rfl (h a)

lemma checkRules_of_admitted {admitted : Admitted} (hscope : ScopedBy st claims rules)
    (h : permitPath hs globMatch st claims method path = .ok admitted) :
    checkRules globMatch rules path (httpToCrudlify hs st method path) = .ok () := by
  obtain ⟨id, record, hid, hfound, rfl⟩ := hscope
  obtain ⟨_, user, _, henforce, _⟩ := permitPath_eq_ok.mp h
  obtain ⟨record', hkey, hcheck, _⟩ := (enforceKey_eq_ok hid).mp henforce
  have heq := hfound.symm.trans (requireKey_eq_ok.mp hkey).1
  obtain rfl : record = record' := by simpa using heq
  exact hcheck

theorem denyingRule_enforced_iff (hs : Hasher H) (globMatch : GlobMatch) (rules : List KeyRule) (target : Str) (method : Method) :
    (∀ (st : ServerState H) (claims : TokenClaims) (path : Str) (rule : KeyRule), ScopedBy st claims rules →
        enginePath target = some path → matchRules globMatch rules (matchPath path) = some rule →
        checkOperationPermitted rule.permitted (operationToFlagChar (httpToCrudlify hs st method path)) = false →
        ∃ response, permissionMiddleware hs globMatch st ⟨target, method, some claims⟩ = .error response) ↔
      ∀ (path : Str) (operation : CrudlifyOp) (rule : KeyRule), enginePath target = some path → isSystemPath (rooted path) = false →
        readOperation method path = some operation → Navigates rules path operation →
        matchRules globMatch rules (matchPath path) = some rule →
        checkOperationPermitted rule.permitted (operationToFlagChar operation) = true := by
  constructor
  · intro henforced path operation rule htarget hsystem hread hnavigates hmatch
    by_contra hdenied
    have hoperation : httpToCrudlify hs (shareServer rules) method path = operation := by
      clear henforced
      cases method <;> simp_all [readOperation, httpToCrudlify]
    obtain ⟨response, hresponse⟩ := henforced (shareServer rules) shareClaims path rule (scopedBy_shareServer rules) htarget hmatch
      (by rw [hoperation]; simpa using hdenied)
    have hne : rules ≠ [] := by
      rintro rfl
      simp [matchRules] at hmatch
    have hadmitted := permitPath_shareServer hs globMatch method hne hsystem
      (by rw [hoperation]; exact checkRules_eq_ok.mpr (Or.inr (Or.inl hnavigates)))
    rw [permissionMiddleware_path htarget, hadmitted] at hresponse
    cases hresponse
  · intro hread st claims path rule hscope htarget hmatch hdenied
    rw [permissionMiddleware_path htarget]
    apply exists_error_of_forall_ne_ok
    intro admitted hadmitted
    have hsystem := (permitPath_eq_ok.mp hadmitted).1
    rcases checkRules_eq_ok.mp (checkRules_of_admitted hscope hadmitted) with rfl | hnavigates | hpermit
    · simp [matchRules] at hmatch
    · have hpermitted := hread path _ rule htarget hsystem (readOperation_of_reads hnavigates.1) hnavigates hmatch
      rw [hdenied] at hpermitted
      cases hpermitted
    · obtain ⟨rule', hmatch', hpermitted⟩ := (rulesPermit_iff globMatch rules _ _).mp hpermit
      obtain rfl := Option.some.inj (hmatch.symm.trans hmatch')
      rw [hdenied] at hpermitted
      cases hpermitted

theorem denyingRule_on_target_admits :
    permissionMiddleware Digest.hasher (fun glob path => glob = path) (shareServer [⟨"/secret".toList, "--------".toList⟩])
        ⟨"/files/secret".toList, .get, some shareClaims⟩ = .ok ⟨some [⟨"/secret".toList, "--------".toList⟩], none⟩ ∧
      matchRules (fun glob path => glob = path) [⟨"/secret".toList, "--------".toList⟩] (matchPath "secret".toList) =
        some ⟨"/secret".toList, "--------".toList⟩ ∧
      checkOperationPermitted "--------".toList (operationToFlagChar .read) = false := by
  decide

end

def hexValue (b : UInt8) : Option UInt8 :=
  if 48 ≤ b ∧ b ≤ 57 then some (b - 48)
  else if 65 ≤ b ∧ b ≤ 70 then some (b - 55)
  else if 97 ≤ b ∧ b ≤ 102 then some (b - 87)
  else none

def percentDecode : List UInt8 → List UInt8
  | 37 :: a :: b :: s =>
    match hexValue a, hexValue b with
    | some x, some y => (16 * x + y) :: percentDecode s
    | _, _ => 37 :: percentDecode (a :: b :: s)
  | c :: s => c :: percentDecode s
  | [] => []

def utf8Bytes (s : Str) : List UInt8 := s.flatMap String.utf8EncodeChar

def DecodesTo (s d : Str) : Prop := percentDecode (utf8Bytes s) = utf8Bytes d

variable {globMatch : GlobMatch} {p q : Str}

def SameMatches (globMatch : GlobMatch) (p q : Str) : Prop :=
  (∀ glob, globMatch glob p = false) ∨ ∀ glob, globMatch glob p = globMatch glob q

lemma exists_separating_rules (h : ¬ SameMatches globMatch p q) :
    ∃ rules, rulesPermit globMatch rules p 'd' = true ∧ rulesPermit globMatch rules q 'd' = false := by
  simp only [SameMatches, not_or, not_forall] at h
  obtain ⟨⟨any, hany⟩, glob, hglob⟩ := h
  rw [Bool.not_eq_false] at hany
  by_cases hp : globMatch glob p = true
  · have hq : globMatch glob q = false := by simpa [hp] using hglob
    exact ⟨[⟨glob, "crudlify".toList⟩], by simp [rulesPermit, matchRules, hp, checkOperationPermitted, flagIndex],
      by simp [rulesPermit, matchRules, hq]⟩
  · have hq : globMatch glob q = true := by
      rw [Bool.not_eq_true] at hp
      simpa [hp] using hglob
    exact ⟨[⟨glob, "--------".toList⟩, ⟨any, "crudlify".toList⟩],
      by simp [rulesPermit, matchRules, hp, hany, checkOperationPermitted, flagIndex],
      by simp [rulesPermit, matchRules, hq, checkOperationPermitted, flagIndex]⟩

theorem spelling_keeps_scope_iff (hs : Hasher H) (globMatch : GlobMatch) (s : Str) :
    (∀ (d target : Str) (rules : List KeyRule) (st : ServerState H) (claims : TokenClaims) (method : Method) (admitted : Admitted),
        DecodesTo s d → enginePath target = some s → ScopedBy st claims rules → rules ≠ [] →
        permissionMiddleware hs globMatch st ⟨target, method, some claims⟩ = .ok admitted →
        ¬ Navigates rules s (httpToCrudlify hs st method s) →
        ∃ rule, matchRules globMatch rules (normalizePath d) = some rule ∧
          checkOperationPermitted rule.permitted (operationToFlagChar (httpToCrudlify hs st method s)) = true) ↔
      isSystemPath (rooted s) = true ∨ ∀ d, DecodesTo s d → SameMatches globMatch (matchPath s) (normalizePath d) := by
  constructor
  · intro hkept
    rw [or_iff_not_imp_left, Bool.not_eq_true]
    intro hsystem d hd
    by_contra hdiffer
    obtain ⟨rules, hpermit, hdeny⟩ := exists_separating_rules hdiffer
    have hne : rules ≠ [] := by
      rintro rfl
      simp [rulesPermit, matchRules] at hpermit
    have hadmitted := permitPath_shareServer hs globMatch .delete hne hsystem
      (checkRules_eq_ok.mpr (Or.inr (Or.inr hpermit)))
    have hpermitted := hkept d (linksRoute ++ s) rules (shareServer rules) shareClaims .delete _ hd (enginePath_links s)
      (scopedBy_shareServer rules) hne ((permissionMiddleware_path (enginePath_links s)).trans hadmitted)
      (by simp [Navigates, httpToCrudlify])
    rw [← rulesPermit_iff] at hpermitted
    change rulesPermit globMatch rules (normalizePath d) 'd' = true at hpermitted
    rw [hdeny] at hpermitted
    cases hpermitted
  · intro hsame d target rules st claims method admitted hd htarget hscope hne hadmitted hnavigates
    rw [permissionMiddleware_path htarget] at hadmitted
    have hsystem := (permitPath_eq_ok.mp hadmitted).1
    have hpermit : rulesPermit globMatch rules (matchPath s) (operationToFlagChar (httpToCrudlify hs st method s)) = true := by
      rcases checkRules_eq_ok.mp (checkRules_of_admitted hscope hadmitted) with hnil | hnav | hpermit
      · exact absurd hnil hne
      · exact absurd hnav hnavigates
      · exact hpermit
    obtain ⟨rule, hmatch, hpermitted⟩ := (rulesPermit_iff globMatch rules _ _).mp hpermit
    rcases hsame.resolve_left (by simp [hsystem]) d hd with hnone | hall
    · have hglob := List.find?_some hmatch
      rw [hnone] at hglob
      cases hglob
    · exact ⟨rule, by simpa only [matchRules, hall] using hmatch, hpermitted⟩

theorem dotdot_leaves_scope :
    permissionMiddleware Digest.hasher (fun glob path => startsWith path (glob.takeWhile (· ≠ '*')))
        (shareServer [⟨"/pub/**".toList, "crudlify".toList⟩]) ⟨"/files/pub/../secret".toList, .delete, some shareClaims⟩ =
        .ok ⟨some [⟨"/pub/**".toList, "crudlify".toList⟩], none⟩ ∧
      DecodesTo "pub/../secret".toList "pub/../secret".toList ∧
      matchRules (fun glob path => startsWith path (glob.takeWhile (· ≠ '*'))) [⟨"/pub/**".toList, "crudlify".toList⟩]
        (normalizePath "pub/../secret".toList) = none := by
  unfold DecodesTo
  decide

end AeorDb.Auth
