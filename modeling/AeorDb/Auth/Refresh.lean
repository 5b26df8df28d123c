import AeorDb.Auth.Tokens

/-! What a refreshed token may do, against a new exchange of its key. -/

namespace AeorDb.Auth

open Store Library.Result List

variable {H : Type}

section

variable {crypto : Crypto} {apiKey : Str} {k : ApiKeyRecord} {r : RefreshTokenRecord}

inductive IssuedFor (H : Type) (crypto : Crypto) (apiKey : Str) (k : ApiKeyRecord) : RefreshTokenRecord → Prop where
  | exchange {st st' : AuthServer H} {token : Str} {r : RefreshTokenRecord}
      (h : authToken crypto st apiKey (some token) = .ok (tokenOf k, st'))
      (hr : st'.refreshTokens (crypto.hashRefreshToken token) = some r) : IssuedFor H crypto apiKey k r
  | refresh {st st' : AuthServer H} {token fresh : Str} {claims : TokenClaims} {r r' : RefreshTokenRecord}
      (issued : IssuedFor H crypto apiKey k r) (hr : st.refreshTokens (crypto.hashRefreshToken token) = some r)
      (h : refreshToken crypto st token fresh = .ok (claims, st'))
      (hr' : st'.refreshTokens (crypto.hashRefreshToken fresh) = some r') : IssuedFor H crypto apiKey k r'

lemma keyIdPrefix_of_found {st : AuthServer H} {head : Str} {record : ApiKeyRecord} (h : keyByPrefix st head = .ok (some record)) :
    keyIdPrefix record.keyId = head := by
  obtain ⟨keys, _, hfind⟩ := map_eq_ok.mp h
  simpa using find?_some hfind

lemma IssuedFor.parses (h : IssuedFor H crypto apiKey k r) : parseApiKey apiKey = some (keyIdPrefix k.keyId) := by
  induction h with
  | exchange h hr =>
    obtain ⟨head, record, hex, htoken, _⟩ := authToken_ok h
    have hid : k.keyId = record.keyId := Option.some.inj (congrArg TokenClaims.keyId htoken)
    rw [hex.parses, hid, keyIdPrefix_of_found hex.found]
  | refresh _ _ _ _ ih => exact ih

lemma IssuedFor.keeps (h : IssuedFor H crypto apiKey k r) : r.keyId = some k.keyId ∧ r.userSubject = subjectOf k := by
  induction h with
  | exchange h hr =>
    obtain ⟨head, record, hex, htoken, hstored⟩ := authToken_ok h
    obtain rfl := Option.some.inj (hr.symm.trans (hstored _ rfl))
    exact ⟨(congrArg TokenClaims.keyId htoken).symm, (congrArg TokenClaims.sub htoken).symm⟩
  | refresh _ hr h hr' ih =>
    obtain ⟨_, _, _, _, rfl⟩ := (refreshToken_eq_ok hr).mp h
    rw [storeRefreshToken, refreshRecord] at hr'
    simp only [Function.update_self, Option.some.injEq] at hr'
    subst hr'
    exact ih

end

section

variable {hs : Hasher H} {globMatch : GlobMatch} {st : ServerState H} {k : ApiKeyRecord} {method : Method} {path : Str}

def Admits (hs : Hasher H) (globMatch : GlobMatch) (st : ServerState H) (claims : TokenClaims) (method : Method) (target : Str) : Prop :=
  ∃ admitted, permissionMiddleware hs globMatch st ⟨target, method, some claims⟩ = .ok admitted

def OwnAdmits (st : ServerState H) (user : Option Uuid) (path : Str) (operation : CrudlifyOp) : Prop :=
  ∀ id ∈ user, ∃ children, checkUser st id path operation = .ok children

lemma admits_iff_permitPath {claims : TokenClaims} {target : Str} (h : enginePath target = some path) :
    Admits hs globMatch st claims method target ↔ ∃ admitted, permitPath hs globMatch st claims method path = .ok admitted := by
  rw [Admits, permissionMiddleware_path h]

lemma permits_unscoped : (∃ admitted, permitPath hs globMatch st ⟨subjectOf k, none⟩ method path = .ok admitted) ↔
      isSystemPath (rooted path) = false ∧ OwnAdmits st k.userId path (httpToCrudlify hs st method path) := by
  constructor
  · rintro ⟨admitted, h⟩
    obtain ⟨hsystem, user, huser, _, hsubject⟩ := permitPath_eq_ok.mp h
    refine ⟨hsystem, fun id hid => ?_⟩
    rw [subjectOf, Option.mem_def.mp hid] at huser
    cases huser
    exact ⟨_, hsubject⟩
  · rintro ⟨hsystem, hown⟩
    cases huser : k.userId with
    | none =>
      refine ⟨⟨none, none⟩, permitPath_eq_ok.mpr ⟨hsystem, none, ?_, rfl, rfl⟩⟩
      rw [subjectOf, huser]
      rfl
    | some id =>
      obtain ⟨children, hchildren⟩ := hown id huser
      refine ⟨⟨none, children⟩, permitPath_eq_ok.mpr ⟨hsystem, some id, ?_, rfl, hchildren⟩⟩
      rw [subjectOf, huser]
      rfl

lemma permits_scoped (hlive : requireKey st k.keyId = .ok k) :
    (∃ admitted, permitPath hs globMatch st (tokenOf k) method path = .ok admitted) ↔
      isSystemPath (rooted path) = false ∧ checkRules globMatch k.rules path (httpToCrudlify hs st method path) = .ok () ∧
        (k.userId = none → k.rules ≠ []) ∧ OwnAdmits st k.userId path (httpToCrudlify hs st method path) := by
  have henforce : ∀ {operation rules}, enforceKey globMatch st (tokenOf k) path operation = .ok rules ↔
      checkRules globMatch k.rules path operation = .ok () ∧ attachedRules k.rules = rules := by
    intro operation rules
    rw [enforceKey_eq_ok (show (tokenOf k).keyId = some k.keyId from rfl)]
    simp [hlive]
  have hshare : shareHasNoRules st (tokenOf k) = decide (k.rules = []) := by
    simp [shareHasNoRules, tokenOf, (requireKey_eq_ok.mp hlive).1]
  constructor
  · rintro ⟨admitted, h⟩
    obtain ⟨hsystem, user, huser, hkey, hsubject⟩ := permitPath_eq_ok.mp h
    refine ⟨hsystem, (henforce.mp hkey).1, fun hnone hnil => ?_, fun id hid => ?_⟩
    · rw [tokenOf, subjectOf, hnone] at huser
      cases huser
      rw [checkSubject, hshare, if_pos (by simpa using hnil)] at hsubject
      cases hsubject
    · rw [tokenOf, subjectOf, Option.mem_def.mp hid] at huser
      cases huser
      exact ⟨_, hsubject⟩
  · rintro ⟨hsystem, hcheck, hruled, hown⟩
    cases huser : k.userId with
    | none =>
      refine ⟨⟨attachedRules k.rules, none⟩, permitPath_eq_ok.mpr ⟨hsystem, none, ?_, henforce.mpr ⟨hcheck, rfl⟩, ?_⟩⟩
      · rw [tokenOf, subjectOf, huser]
        rfl
      · rw [checkSubject, hshare, if_neg (by simpa using hruled huser)]
    | some id =>
      obtain ⟨children, hchildren⟩ := hown id huser
      refine ⟨⟨attachedRules k.rules, children⟩, permitPath_eq_ok.mpr ⟨hsystem, some id, ?_, henforce.mpr ⟨hcheck, rfl⟩, hchildren⟩⟩
      rw [tokenOf, subjectOf, huser]
      rfl

structure RulesCover (hs : Hasher H) (globMatch : GlobMatch) (st : ServerState H) (k : ApiKeyRecord) : Prop where
  ruled : k.userId = none → k.rules ≠ []
  covers : ∀ method path, isSystemPath (rooted path) = false → OwnAdmits st k.userId path (httpToCrudlify hs st method path) →
    k.rules = [] ∨ Navigates k.rules path (httpToCrudlify hs st method path) ∨
      rulesPermit globMatch k.rules (matchPath path) (operationToFlagChar (httpToCrudlify hs st method path)) = true

lemma admits_imp_iff (hlive : requireKey st k.keyId = .ok k) :
    (∀ method target, Admits hs globMatch st ⟨subjectOf k, none⟩ method target → Admits hs globMatch st (tokenOf k) method target) ↔
      RulesCover hs globMatch st k := by
  constructor
  · intro h
    have hpath : ∀ method path, isSystemPath (rooted path) = false →
        OwnAdmits st k.userId path (httpToCrudlify hs st method path) → _ := fun method path hsystem hown =>
      (permits_scoped hlive).mp ((admits_iff_permitPath (enginePath_links path)).mp
        (h method (linksRoute ++ path) ((admits_iff_permitPath (enginePath_links path)).mpr (permits_unscoped.mpr ⟨hsystem, hown⟩))))
    refine ⟨fun hnone => ?_, fun method path hsystem hown => checkRules_eq_ok.mp (hpath method path hsystem hown).2.1⟩
    have hroot : OwnAdmits st k.userId [] (httpToCrudlify hs st .get []) := by simp [OwnAdmits, hnone]
    exact (hpath .get [] (by decide) hroot).2.2.1 hnone
  · intro hcover method target h
    cases hpath : enginePath target with
    | none =>
      rw [Admits, permissionMiddleware, hpath]
      dsimp only
      split_ifs <;> simp
    | some path =>
      obtain ⟨hsystem, hown⟩ := permits_unscoped.mp ((admits_iff_permitPath hpath).mp h)
      apply (admits_iff_permitPath hpath).mpr
      apply (permits_scoped hlive).mpr
      exact ⟨hsystem, checkRules_eq_ok.mpr (hcover.covers method path hsystem hown), hcover.ruled, hown⟩

end

variable {hs : Hasher H} {globMatch : GlobMatch} {crypto : Crypto} {st : AuthServer H} {apiKey token fresh : Str}
  {k k' k₁ : ApiKeyRecord} {r : RefreshTokenRecord}

structure KeyKept (crypto : Crypto) (st : AuthServer H) (apiKey : Str) (k : ApiKeyRecord) : Prop where
  owner : ∀ k', findKey st.toServerState k.keyId = .ok (some k') → k'.userId = k.userId
  secret : ∀ keys, st.apiKeys = .ok keys → ∀ k' ∈ keys, crypto.verifyApiKey apiKey k'.keyHash = true ↔ k'.keyId = k.keyId

def RefreshWithin (hs : Hasher H) (globMatch : GlobMatch) (crypto : Crypto) (st : AuthServer H) (apiKey token fresh : Str) : Prop :=
  ∀ claims st', refreshToken crypto st token fresh = .ok (claims, st') →
    ∃ claims' st'', authToken crypto st apiKey none = .ok (claims', st'') ∧ ∀ method target,
      Admits hs globMatch st.toServerState claims method target → Admits hs globMatch st.toServerState claims' method target

structure StillExchanges (hs : Hasher H) (globMatch : GlobMatch) (st : AuthServer H) (k : ApiKeyRecord) : Prop where
  unexpired : st.now ≠ k.expiresAt
  unlimited : st.rateLimited ("token:".toList ++ keyIdPrefix k.keyId) = false
  first : keyByPrefix st (keyIdPrefix k.keyId) = .ok (some k)
  active : ownerInactive st k = false
  rules : RulesCover hs globMatch st.toServerState k

lemma mem_of_findKey {st : ServerState H} {id : Uuid} (h : findKey st id = .ok (some k)) :
    ∃ keys, st.apiKeys = .ok keys ∧ k ∈ keys ∧ k.keyId = id ∧ keys.find? (fun k => k.keyId = id) = some k := by
  obtain ⟨keys, hkeys, hfind⟩ := map_eq_ok.mp h
  exact ⟨keys, hkeys, mem_of_find?_eq_some hfind, by simpa using find?_some hfind, hfind⟩

lemma findKey_of_keyByPrefix {head : Str} (h : keyByPrefix st head = .ok (some k)) : findKey st.toServerState k.keyId = .ok (some k) := by
  obtain ⟨keys, hkeys, hfind⟩ := map_eq_ok.mp h
  apply map_eq_ok.mpr
  refine ⟨keys, hkeys, ?_⟩
  obtain ⟨hhead, before, after, hsplit, hbefore⟩ := find?_eq_some_iff_append.mp hfind
  apply find?_eq_some_iff_append.mpr
  refine ⟨by simp, before, after, hsplit, fun k' hk' => ?_⟩
  have hother := hbefore k' hk'
  simp only [decide_eq_true_eq, Bool.not_eq_true', decide_eq_false_iff_not] at hhead hother ⊢
  rintro hid
  exact hother (hid ▸ hhead)

lemma exchanged_key_eq {head : Str} (hkept : KeyKept crypto st apiKey k)
    (hfound : findKey st.toServerState k.keyId = .ok (some k')) (hex : Exchanges crypto st apiKey head k₁) :
    k₁ = k' ∧ head = keyIdPrefix k'.keyId := by
  have hfirst := findKey_of_keyByPrefix hex.found
  obtain ⟨keys, hkeys, hmem, _, _⟩ := mem_of_findKey hfirst
  have hid : k₁.keyId = k.keyId := (hkept.secret keys hkeys k₁ hmem).mp hex.verified
  rw [hid, hfound] at hfirst
  obtain rfl : k' = k₁ := by simpa using hfirst
  exact ⟨rfl, (keyIdPrefix_of_found hex.found).symm⟩

def plainCrypto : Crypto := ⟨id, fun apiKey hash => apiKey = hash⟩

def sampleKey : Str := "aeor_k_0000000000000000_s".toList

lemma storeRefreshToken_self (st : AuthServer H) (record : RefreshTokenRecord) :
    (storeRefreshToken st record).refreshTokens record.tokenHash = some record := by
  simp [storeRefreshToken]

def keyServer (user : Option Uuid) (rules : List KeyRule) : AuthServer Digest where
  toServerState := { (shareServer rules : ServerState Digest) with apiKeys := .ok [⟨1, sampleKey, user, false, 1, rules⟩] }
  users := fun _ => .ok none
  refreshTokens := fun _ => none
  rateLimited := fun _ => false

def exchangedServer (user : Option Uuid) (rules : List KeyRule) : AuthServer Digest :=
  storeRefreshToken (keyServer user rules)
    (refreshRecord plainCrypto (keyServer user rules) ['r'] (subjectOf ⟨1, sampleKey, user, false, 1, rules⟩) (some 1))

lemma keyKept_exchangedServer (user : Option Uuid) (rules : List KeyRule) :
    KeyKept plainCrypto (exchangedServer user rules) sampleKey ⟨1, sampleKey, user, false, 1, rules⟩ where
  owner k' h := by
    obtain ⟨keys, hkeys, hmem, _, _⟩ := mem_of_findKey h
    cases hkeys
    rw [mem_singleton.mp hmem]
  secret keys hkeys k' hmem := by
    cases hkeys
    rw [mem_singleton.mp hmem]
    simp [plainCrypto]

end AeorDb.Auth
