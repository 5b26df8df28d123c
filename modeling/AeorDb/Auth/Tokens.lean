import AeorDb.Auth.Revocation

/-! Exchanging an API key for a token, and refreshing the token. -/

namespace AeorDb.Auth

open Store Library.Result

structure RefreshTokenRecord where
  tokenHash : Str
  userSubject : Subject
  createdAt : ℤ
  expiresAt : ℤ
  isRevoked : Bool
  keyId : Option Uuid
  deriving DecidableEq

structure User where
  isActive : Bool
  deriving DecidableEq

structure AuthServer (H : Type) extends ServerState H where
  users : Uuid → EngineResult (Option User)
  refreshTokens : Str → Option RefreshTokenRecord
  rateLimited : Str → Bool

structure Crypto where
  hashRefreshToken : Str → Str
  verifyApiKey : Str → Str → Bool

def keyMarker : Str := "aeor_k_".toList

def keyIdPrefix (id : Uuid) : Str := (List.range 16).map fun i => Nat.digitChar (id.toNat >>> (124 - 4 * i) % 16)

def parseApiKey (key : Str) : Option Str :=
  if startsWith key keyMarker then
    let rest := key.drop keyMarker.length
    let head := rest.takeWhile (· ≠ '_')
    if '_' ∈ rest ∧ utf8Len head = 16 then some head else none
  else none

def defaultRefreshExpiryMillis : ℤ := 30 * 24 * 3600 * 1000

variable {H : Type} (crypto : Crypto) (st : AuthServer H)

def keyByPrefix (head : Str) : EngineResult (Option ApiKeyRecord) :=
  st.apiKeys.map fun keys => keys.find? fun k => keyIdPrefix k.keyId = head

def ownerInactive (record : ApiKeyRecord) : Bool :=
  match record.userId with
  | none => false
  | some id =>
    if isRoot id then false
    else
      match st.users id with
      | .ok (some user) => !user.isActive
      | _ => false

def refreshRecord (token : Str) (subject : Subject) (keyId : Option Uuid) : RefreshTokenRecord where
  tokenHash := crypto.hashRefreshToken token
  userSubject := subject
  createdAt := st.now
  expiresAt := st.now + defaultRefreshExpiryMillis
  isRevoked := false
  keyId := keyId

def storeRefreshToken (record : RefreshTokenRecord) : AuthServer H :=
  { st with refreshTokens := Function.update st.refreshTokens record.tokenHash (some record) }

def invalidKeyMessage : Str := "That API key didn't work. Please double-check it and try again.".toList

def authToken (apiKey : Str) (refresh : Option Str) : Except Response (TokenClaims × AuthServer H) :=
  match parseApiKey apiKey with
  | none => .error ⟨401, invalidKeyMessage⟩
  | some head =>
    if st.rateLimited ("token:".toList ++ head) then
      .error ⟨429, "Too many authentication attempts for this key. Wait a moment and retry.".toList⟩
    else
      match keyByPrefix st head with
      | .error _ => .error ⟨500, "Something went wrong on our end. Please try again in a moment.".toList⟩
      | .ok none => .error ⟨401, invalidKeyMessage⟩
      | .ok (some record) =>
        if record.isRevoked then
          .error ⟨401, "This API key has been revoked. Please contact an administrator for a new one.".toList⟩
        else if !crypto.verifyApiKey apiKey record.keyHash then .error ⟨401, invalidKeyMessage⟩
        else if record.expiresAt ≤ st.now then .error ⟨401, "This API key has expired. Please create a new one.".toList⟩
        else if ownerInactive st record then .error ⟨401, "Account deactivated. Contact your administrator.".toList⟩
        else
          .ok (tokenOf record, match refresh with
            | none => st
            | some token => storeRefreshToken st (refreshRecord crypto st token (subjectOf record) (some record.keyId)))

def checkIssuingKey : Option Uuid → Except Response Unit
  | none => .ok ()
  | some id =>
    match findKey st.toServerState id with
    | .error _ => .error ⟨500, "Failed to validate API key during refresh".toList⟩
    | .ok none => .error ⟨401, "Issuing API key no longer exists. Re-authenticate via POST /auth/token".toList⟩
    | .ok (some record) =>
      if record.isRevoked then .error ⟨401, "API key has been revoked. Re-authenticate via POST /auth/token".toList⟩
      else if record.expiresAt < st.now then .error ⟨401, "API key has expired. Re-authenticate via POST /auth/token".toList⟩
      else .ok ()

def revokeRefreshToken (record : RefreshTokenRecord) (hash : Str) : AuthServer H :=
  { st with refreshTokens := Function.update st.refreshTokens hash (some { record with isRevoked := true }) }

def refreshToken (token fresh : Str) : Except Response (TokenClaims × AuthServer H) :=
  match st.refreshTokens (crypto.hashRefreshToken token) with
  | none => .error ⟨401, "Invalid refresh token: no matching token found. Re-authenticate via POST /auth/token".toList⟩
  | some record =>
    if record.isRevoked then .error ⟨401, "Refresh token has been revoked. Re-authenticate via POST /auth/token".toList⟩
    else if record.expiresAt < st.now then .error ⟨401, "Refresh token expired. Re-authenticate via POST /auth/token".toList⟩
    else do
      checkIssuingKey st record.keyId
      let rotated := revokeRefreshToken st record (crypto.hashRefreshToken token)
      .ok (⟨record.userSubject, none⟩,
        storeRefreshToken rotated (refreshRecord crypto rotated fresh record.userSubject record.keyId))

variable {crypto st} {apiKey token fresh : Str} {refresh : Option Str} {claims : TokenClaims} {st' : AuthServer H}

structure Exchanges (crypto : Crypto) (st : AuthServer H) (apiKey head : Str) (record : ApiKeyRecord) : Prop where
  parses : parseApiKey apiKey = some head
  unlimited : st.rateLimited ("token:".toList ++ head) = false
  found : keyByPrefix st head = .ok (some record)
  unrevoked : record.isRevoked = false
  verified : crypto.verifyApiKey apiKey record.keyHash = true
  unexpired : st.now < record.expiresAt
  active : ownerInactive st record = false

lemma Exchanges.authToken_eq {head : Str} {record : ApiKeyRecord} (h : Exchanges crypto st apiKey head record) :
    authToken crypto st apiKey none = .ok (tokenOf record, st) := by
  simp only [authToken, h.parses, h.unlimited, h.found, h.unrevoked, h.verified, h.active, not_le.mpr h.unexpired]
  rfl

lemma authToken_ok (h : authToken crypto st apiKey refresh = .ok (claims, st')) :
    ∃ head record, Exchanges crypto st apiKey head record ∧ claims = tokenOf record ∧
      ∀ token, refresh = some token →
        st'.refreshTokens (crypto.hashRefreshToken token) = some (refreshRecord crypto st token (subjectOf record) (some record.keyId)) := by
  rw [authToken] at h
  split at h
  · cases h
  case _ head hparse =>
    split_ifs at h with hlimited
    split at h
    · cases h
    · cases h
    case _ record hfound =>
      split_ifs at h with hrevoked hverify hexpired hinactive
      cases h
      refine ⟨head, record, ⟨hparse, by simpa using hlimited, hfound, by simpa using hrevoked, by simpa using hverify,
        not_le.mp hexpired, by simpa using hinactive⟩, rfl, ?_⟩
      rintro token rfl
      simp [storeRefreshToken, refreshRecord]

lemma refreshToken_eq_ok {record : RefreshTokenRecord} (hrecord : st.refreshTokens (crypto.hashRefreshToken token) = some record) :
    refreshToken crypto st token fresh = .ok (claims, st') ↔
      record.isRevoked = false ∧ st.now ≤ record.expiresAt ∧ checkIssuingKey st record.keyId = .ok () ∧ claims = ⟨record.userSubject, none⟩ ∧
        st' = storeRefreshToken (revokeRefreshToken st record (crypto.hashRefreshToken token))
          (refreshRecord crypto (revokeRefreshToken st record (crypto.hashRefreshToken token)) fresh record.userSubject record.keyId) := by
  rw [refreshToken, hrecord]
  dsimp only
  split_ifs with hrevoked hexpired
  · simp [hrevoked]
  · simp [hexpired]
  · rw [bind_eq_ok]
    simp only [Except.ok.injEq, Prod.mk.injEq]
    constructor
    · rintro ⟨⟨⟩, hkey, rfl, rfl⟩
      exact ⟨by simpa using hrevoked, not_lt.mp hexpired, hkey, rfl, rfl⟩
    · rintro ⟨_, _, hkey, rfl, rfl⟩
      exact ⟨(), hkey, rfl, rfl⟩

lemma checkIssuingKey_eq_ok {id : Uuid} : checkIssuingKey st (some id) = .ok () ↔
    ∃ record, findKey st.toServerState id = .ok (some record) ∧ record.isRevoked = false ∧ st.now ≤ record.expiresAt := by
  rw [checkIssuingKey]
  rcases findKey st.toServerState id with err | _ | record
  · simp
  · simp
  · dsimp only
    split_ifs with hrevoked hexpired
    · simp [hrevoked]
    · simp [hexpired]
    · simpa [hrevoked] using hexpired

end AeorDb.Auth
