import AeorDb.Auth.Refresh
import AeorDb.Library.Threads

/-! Magic links and refresh tokens presented by requests that run at the same time. -/

namespace AeorDb.Auth

open Store Library Option Function Bool

structure MagicLinkRecord where
  codeHash : Str
  email : Str
  createdAt : ℤ
  expiresAt : ℤ
  isUsed : Bool
  deriving DecidableEq

structure MagicLinks where
  find : Str → Option MagicLinkRecord
  keyed : ∀ h r, find h = some r → r.codeHash = h

def MagicLinks.put (links : MagicLinks) (record : MagicLinkRecord) : MagicLinks where
  find := Function.update links.find record.codeHash (some record)
  keyed h r hr := by
    by_cases hkey : h = record.codeHash
    · subst hkey
      rw [Function.update_self] at hr
      rw [Option.some.inj hr]
    · rw [Function.update_of_ne hkey] at hr
      exact links.keyed h r hr

lemma MagicLinks.find_put (links : MagicLinks) (record : MagicLinkRecord) (h : Str) :
    (links.put record).find h = if h = record.codeHash then some record else links.find h :=
  update_apply _ _ _ _

structure LoginServer (H : Type) extends AuthServer H where
  magicLinks : MagicLinks
  usersByName : Str → EngineResult (Option (Uuid × User))

structure LoginCrypto extends Crypto where
  hashMagicLinkCode : Str → Str

abbrev Outcome := Except Response TokenClaims

inductive VerifyStage where
  | lookup
  | markRead (record : MagicLinkRecord)
  | markWrite (record stored : MagicLinkRecord)
  | findUser (record : MagicLinkRecord)
  | returned (outcome : Outcome)

inductive RefreshStage where
  | lookup
  | checkKey (record : RefreshTokenRecord)
  | revokeRead (record : RefreshTokenRecord)
  | revokeWrite (record stored : RefreshTokenRecord)
  | storeNew (record : RefreshTokenRecord)
  | returned (outcome : Outcome)

inductive LoginCall where
  | verifyMagicLink (code : Str) (stage : VerifyStage)
  | refreshToken (token fresh : Str) (stage : RefreshStage)
  | clock (now : ℤ)

variable {H : Type} (crypto : LoginCrypto)

section

variable (st : LoginServer H)

def unauthorized (error : String) : Outcome := .error ⟨401, error.toList⟩

def internalError (error : String) : Outcome := .error ⟨500, error.toList⟩

def linkOwner (record : MagicLinkRecord) : Outcome :=
  match st.usersByName record.email with
  | .error _ =>
    internalError "An unexpected error occurred while looking up the user account. If this persists, check GET /system/health for system status"
  | .ok none => unauthorized "No user account exists for this email address. Contact your administrator to create an account"
  | .ok (some (id, user)) =>
    if !user.isActive then
      unauthorized "No active user account exists for this email address. Contact your administrator to activate the account"
    else .ok ⟨.user id, none⟩

def verifyStep (code : Str) : VerifyStage → Option (LoginServer H × VerifyStage)
  | .lookup =>
    some (st, match st.magicLinks.find (crypto.hashMagicLinkCode code) with
      | none => .returned (unauthorized "Invalid or expired magic link. Request a new one via POST /auth/magic-link")
      | some record =>
        if record.isUsed then
          .returned (unauthorized "Magic link already used. Each link can only be used once — request a new one via POST /auth/magic-link")
        else if record.expiresAt < st.now then
          .returned (unauthorized "Magic link expired. Request a new one via POST /auth/magic-link")
        else .markRead record)
  | .markRead record =>
    some (st, match st.magicLinks.find (crypto.hashMagicLinkCode code) with
      | none =>
        .returned (internalError "An unexpected error occurred while processing the magic link. If this persists, check GET /system/health for system status")
      | some stored => .markWrite record stored)
  | .markWrite record stored => some ({ st with magicLinks := st.magicLinks.put { stored with isUsed := true } }, .findUser record)
  | .findUser record => some (st, .returned (linkOwner st record))
  | .returned _ => none

def refreshStep (token fresh : Str) : RefreshStage → Option (LoginServer H × RefreshStage)
  | .lookup =>
    some (st, match st.refreshTokens (crypto.hashRefreshToken token) with
      | none => .returned (unauthorized "Invalid refresh token: no matching token found. Re-authenticate via POST /auth/token")
      | some record =>
        if record.isRevoked then .returned (unauthorized "Refresh token has been revoked. Re-authenticate via POST /auth/token")
        else if record.expiresAt < st.now then .returned (unauthorized "Refresh token expired. Re-authenticate via POST /auth/token")
        else .checkKey record)
  | .checkKey record =>
    some (st, match checkIssuingKey st.toAuthServer record.keyId with
      | .error response => .returned (.error response)
      | .ok () => .revokeRead record)
  | .revokeRead record =>
    -- a record that is gone by now is not missed
    some (st, match st.refreshTokens (crypto.hashRefreshToken token) with
      | none => .storeNew record
      | some stored => .revokeWrite record stored)
  | .revokeWrite record stored =>
    some ({ st with toAuthServer := revokeRefreshToken st.toAuthServer stored (crypto.hashRefreshToken token) }, .storeNew record)
  | .storeNew record =>
    let renewed := refreshRecord crypto.toCrypto st.toAuthServer fresh record.userSubject record.keyId
    some ({ st with toAuthServer := storeRefreshToken st.toAuthServer renewed }, .returned (.ok ⟨record.userSubject, none⟩))
  | .returned _ => none

def loginStep : LoginCall → Option (LoginServer H × LoginCall)
  | .verifyMagicLink code stage => (verifyStep crypto st code stage).map fun next => (next.1, .verifyMagicLink code next.2)
  | .refreshToken token fresh stage => (refreshStep crypto st token fresh stage).map fun next => (next.1, .refreshToken token fresh next.2)
  | .clock now => some ({ st with now }, .clock now)

end

inductive Credential where
  | code (code : Str)
  | token (token : Str)

namespace LoginCall

def credential : LoginCall → Option Credential
  | verifyMagicLink code _ => some (.code code)
  | refreshToken token _ _ => some (.token token)
  | clock _ => none

def jwt : LoginCall → Option TokenClaims
  | verifyMagicLink _ (.returned outcome) => outcome.toOption
  | refreshToken _ _ (.returned outcome) => outcome.toOption
  | _ => none

def Checked : LoginCall → Prop
  | verifyMagicLink _ (.markRead _) => True
  | verifyMagicLink _ (.markWrite _ _) => True
  | refreshToken _ _ (.checkKey _) => True
  | refreshToken _ _ (.revokeRead _) => True
  | refreshToken _ _ (.revokeWrite _ _) => True
  | _ => False

def Marked : LoginCall → Prop
  | verifyMagicLink _ (.findUser _) => True
  | refreshToken _ _ (.storeNew _) => True
  | r => r.jwt.isSome

def AtStart : LoginCall → Prop
  | verifyMagicLink _ stage => stage = .lookup
  | refreshToken _ _ stage => stage = .lookup
  | clock _ => True

def fresh : LoginCall → Option Str
  | refreshToken _ fresh _ => some fresh
  | _ => none

def Passed (r : LoginCall) : Prop := r.Checked ∨ r.Marked

end LoginCall

section

variable {crypto} {st st' : LoginServer H} {r r' : LoginCall} {k : Credential}

def Closed (crypto : LoginCrypto) (st : LoginServer H) : Credential → Prop
  | .code code => ∀ r, st.magicLinks.find (crypto.hashMagicLinkCode code) = some r → r.isUsed = true
  | .token token => ∀ r, st.refreshTokens (crypto.hashRefreshToken token) = some r → r.isRevoked = true

def LoginCall.Sound (crypto : LoginCrypto) : LoginCall → Prop
  | verifyMagicLink code (.markWrite _ stored) => stored.codeHash = crypto.hashMagicLinkCode code
  | _ => True

def Spares (crypto : LoginCrypto) (fresh : Option Str) (k : Credential) : Prop :=
  ∀ f ∈ fresh, ∀ token, k = .token token → crypto.hashRefreshToken f ≠ crypto.hashRefreshToken token

structure Effect (crypto : LoginCrypto) (st : LoginServer H) (r : LoginCall) (st' : LoginServer H) (r' : LoginCall) : Prop where
  credential : r'.credential = r.credential
  fresh : r'.fresh = r.fresh
  sound : r'.Sound crypto
  closed : ∀ k, Spares crypto r.fresh k → Closed crypto st k → Closed crypto st' k
  checks : ∀ k, r.credential = some k → r'.Checked → r.Checked ∨ ¬ Closed crypto st k
  marks : ∀ k, r.credential = some k → r'.Marked → r.Marked ∨ r.Checked ∧ (Spares crypto r.fresh k → Closed crypto st' k)

section

variable {record : MagicLinkRecord} {code token : Str} {renewed : RefreshTokenRecord}

lemma Closed.put (h : Closed crypto st k) (hused : record.isUsed = true) :
    Closed crypto { st with magicLinks := st.magicLinks.put record } k := by
  cases k with
  | token token => exact h
  | code code =>
    intro r hr
    rw [MagicLinks.find_put] at hr
    split_ifs at hr with hkey
    · rwa [← some.inj hr]
    · exact h r hr

lemma refreshTokens_revoke (stored : RefreshTokenRecord) (h : Str) :
    (revokeRefreshToken st.toAuthServer stored (crypto.hashRefreshToken token)).refreshTokens h =
      if h = crypto.hashRefreshToken token then some { stored with isRevoked := true } else st.refreshTokens h :=
  update_apply _ _ _ _

lemma Closed.revoke (h : Closed crypto st k) (token : Str) (stored : RefreshTokenRecord) :
    Closed crypto { st with toAuthServer := revokeRefreshToken st.toAuthServer stored (crypto.hashRefreshToken token) } k := by
  cases k with
  | code code => exact h
  | token token' =>
    intro r hr
    rw [refreshTokens_revoke] at hr
    split_ifs at hr with hkey
    · rw [← some.inj hr]
    · exact h r hr

lemma Closed.store (h : Closed crypto st k) (hspares : ∀ token, k = .token token → renewed.tokenHash ≠ crypto.hashRefreshToken token) :
    Closed crypto { st with toAuthServer := storeRefreshToken st.toAuthServer renewed } k := by
  cases k with
  | code code => exact h
  | token token =>
    intro r hr
    exact h r ((update_of_ne (hspares token rfl).symm _ _).symm.trans hr)

end

variable {code token fresh : Str}

lemma effect_refused_link (response : Response) (stage : VerifyStage) :
    Effect crypto st (.verifyMagicLink code stage) st (.verifyMagicLink code (.returned (.error response))) where
  credential := rfl
  fresh := rfl
  sound := trivial
  closed _ _ h := h
  checks _ _ h := h.elim
  marks _ _ h := (false_ne_true h).elim

lemma effect_refused_token (response : Response) (stage : RefreshStage) :
    Effect crypto st (.refreshToken token fresh stage) st (.refreshToken token fresh (.returned (.error response))) where
  credential := rfl
  fresh := rfl
  sound := trivial
  closed _ _ h := h
  checks _ _ h := h.elim
  marks _ _ h := (false_ne_true h).elim

lemma effect_verify {stage stage' : VerifyStage} (hsound : LoginCall.Sound crypto (.verifyMagicLink code stage))
    (h : verifyStep crypto st code stage = some (st', stage')) :
    Effect crypto st (.verifyMagicLink code stage) st' (.verifyMagicLink code stage') := by
  cases stage with
  | lookup =>
    cases h
    cases hfind : st.magicLinks.find (crypto.hashMagicLinkCode code) with
    | none => exact effect_refused_link _ _
    | some record =>
      dsimp only
      split_ifs with hused hexpired
      · exact effect_refused_link _ _
      · exact effect_refused_link _ _
      · refine ⟨rfl, rfl, trivial, fun _ _ hc => hc, fun k hk _ => .inr fun hclosed => ?_, fun _ _ hm => (false_ne_true hm).elim⟩
        cases hk
        exact hused (hclosed record hfind)
  | markRead record =>
    cases h
    cases hfind : st.magicLinks.find (crypto.hashMagicLinkCode code) with
    | none => exact effect_refused_link _ _
    | some stored =>
      exact ⟨rfl, rfl, st.magicLinks.keyed _ _ hfind, fun _ _ hc => hc, fun _ _ _ => .inl trivial, fun _ _ hm => (false_ne_true hm).elim⟩
  | markWrite record stored =>
    cases h
    refine ⟨rfl, rfl, trivial, fun _ _ hc => hc.put rfl, fun _ _ hc => hc.elim, fun k hk _ => .inr ⟨trivial, fun _ => ?_⟩⟩
    cases hk
    intro r hr
    rw [MagicLinks.find_put, if_pos hsound.symm] at hr
    rw [← some.inj hr]
  | findUser record =>
    cases h
    exact ⟨rfl, rfl, trivial, fun _ _ hc => hc, fun _ _ hc => hc.elim, fun _ _ _ => .inl trivial⟩
  | returned outcome => cases h

lemma effect_refresh {stage stage' : RefreshStage} (h : refreshStep crypto st token fresh stage = some (st', stage')) :
    Effect crypto st (.refreshToken token fresh stage) st' (.refreshToken token fresh stage') := by
  cases stage with
  | lookup =>
    cases h
    cases hfind : st.refreshTokens (crypto.hashRefreshToken token) with
    | none => exact effect_refused_token _ _
    | some record =>
      dsimp only
      split_ifs with hrevoked hexpired
      · exact effect_refused_token _ _
      · exact effect_refused_token _ _
      · refine ⟨rfl, rfl, trivial, fun _ _ hc => hc, fun k hk _ => .inr fun hclosed => ?_, fun _ _ hm => (false_ne_true hm).elim⟩
        cases hk
        exact hrevoked (hclosed record hfind)
  | checkKey record =>
    cases h
    cases checkIssuingKey st.toAuthServer record.keyId with
    | error response => exact effect_refused_token _ _
    | ok _ => exact ⟨rfl, rfl, trivial, fun _ _ hc => hc, fun _ _ _ => .inl trivial, fun _ _ hm => (false_ne_true hm).elim⟩
  | revokeRead record =>
    cases h
    cases hfind : st.refreshTokens (crypto.hashRefreshToken token) with
    | none =>
      refine ⟨rfl, rfl, trivial, fun _ _ hc => hc, fun _ _ hc => hc.elim, fun k hk _ => .inr ⟨trivial, fun _ => ?_⟩⟩
      cases hk
      intro r hr
      cases hfind.symm.trans hr
    | some stored => exact ⟨rfl, rfl, trivial, fun _ _ hc => hc, fun _ _ _ => .inl trivial, fun _ _ hm => (false_ne_true hm).elim⟩
  | revokeWrite record stored =>
    cases h
    refine ⟨rfl, rfl, trivial, fun _ _ hc => hc.revoke _ _, fun _ _ hc => hc.elim, fun k hk _ => .inr ⟨trivial, fun _ => ?_⟩⟩
    cases hk
    intro r hr
    rw [refreshTokens_revoke, if_pos rfl] at hr
    rw [← some.inj hr]
  | storeNew record =>
    cases h
    exact ⟨rfl, rfl, trivial, fun _ hspares hc => hc.store (hspares fresh rfl), fun _ _ hc => hc.elim, fun _ _ _ => .inl trivial⟩
  | returned outcome => cases h

lemma effect_step (hsound : r.Sound crypto) (h : loginStep crypto st r = some (st', r')) : Effect crypto st r st' r' := by
  cases r with
  | verifyMagicLink code stage =>
    obtain ⟨⟨_, stage'⟩, hstep, hnext⟩ := Option.map_eq_some_iff.mp h
    cases hnext
    exact effect_verify hsound hstep
  | refreshToken token fresh stage =>
    obtain ⟨⟨_, stage'⟩, hstep, hnext⟩ := Option.map_eq_some_iff.mp h
    cases hnext
    exact effect_refresh hstep
  | clock now =>
    cases h
    refine ⟨rfl, rfl, trivial, fun k _ hc => ?_, (fun _ hk => nomatch hk), fun _ hk => nomatch hk⟩
    cases k with
    | code code => exact hc
    | token token => exact hc

end

variable {ι : Type} [DecidableEq ι] {crypto} {c : Threads ι (LoginServer H) LoginCall} {schedule : List ι}

def Exclusive (c : Threads ι (LoginServer H) LoginCall) : Prop :=
  ∀ i j k, i ≠ j → (c.calls i).credential = some k → (c.calls j).credential = some k → (c.calls i).Checked → ¬ (c.calls j).Checked

structure LoginInv (crypto : LoginCrypto) (c : Threads ι (LoginServer H) LoginCall) : Prop where
  sound : ∀ i, (c.calls i).Sound crypto
  spares : ∀ i j k, (c.calls j).credential = some k → Spares crypto (c.calls i).fresh k
  closed : ∀ i k, (c.calls i).credential = some k → (c.calls i).Marked → Closed crypto c.shared k
  alone : ∀ i j k, i ≠ j → (c.calls i).credential = some k → (c.calls j).credential = some k → (c.calls i).Passed → ¬ (c.calls j).Passed

lemma LoginInv.turn (hinv : LoginInv crypto c) (i : ι) (hafter : Exclusive (Threads.turn (loginStep crypto) c i)) :
    LoginInv crypto (Threads.turn (loginStep crypto) c i) := by
  obtain heq | ⟨st', r', hstep, hmoved⟩ := Threads.turn_cases (loginStep crypto) c i
  · rwa [heq]
  generalize Threads.turn (loginStep crypto) c i = c' at hafter hmoved ⊢
  have heffect := effect_step (hinv.sound i) hstep
  have hcred := hmoved.map_eq heffect.credential
  have hfresh := hmoved.map_eq heffect.fresh
  have hstays (j : ι) (k : Credential) (hk : (c.calls j).credential = some k) (hclosed : Closed crypto c.shared k) :
      Closed crypto c'.shared k := by
    rw [hmoved.shared]
    exact heffect.closed k (hinv.spares i j k hk) hclosed
  -- the one that moves passes its check only while nobody else has passed it
  have hpasses (j : ι) (k : Credential) (hj : j ≠ i) (hi : (c.calls i).credential = some k) (hk : (c.calls j).credential = some k)
      (hpassed : r'.Passed) : ¬ (c.calls j).Passed := by
    intro hother
    by_cases hbefore : (c.calls i).Passed
    · exact hinv.alone i j k hj.symm hi hk hbefore hother
    rcases hpassed with hchecked | hmarked
    · have hopen : ¬ Closed crypto c.shared k := (heffect.checks k hi hchecked).resolve_left fun h => hbefore (.inl h)
      rcases hother with hother | hother
      · apply hafter i j k hj.symm
        · rw [hcred, hi]
        · rw [hcred, hk]
        · rwa [hmoved.self]
        · rwa [hmoved.other j hj]
      · exact hopen (hinv.closed j k hk hother)
    · rcases heffect.marks k hi hmarked with h | ⟨h, -⟩
      · exact hbefore (.inr h)
      · exact hbefore (.inl h)
  refine ⟨hmoved.forall heffect.sound fun j _ => hinv.sound j, ?_, ?_, ?_⟩
  · intro j j' k hk
    rw [hcred] at hk
    rw [hfresh]
    exact hinv.spares j j' k hk
  · intro j k hk hmarked
    rw [hcred] at hk
    obtain ⟨rfl, hj⟩ | ⟨-, hj⟩ := hmoved.call_cases j
    · rw [hj] at hmarked
      rcases heffect.marks k hk hmarked with h | ⟨-, h⟩
      · exact hstays j k hk (hinv.closed j k hk h)
      · rw [hmoved.shared]
        exact h (hinv.spares j j k hk)
    · rw [hj] at hmarked
      exact hstays j k hk (hinv.closed j k hk hmarked)
  · intro j j' k hne hk hk' hpassed
    rw [hcred] at hk hk'
    obtain ⟨rfl, hj⟩ | ⟨hji, hj⟩ := hmoved.call_cases j
    · rw [hj] at hpassed
      rw [hmoved.other j' hne.symm]
      exact hpasses j' k hne.symm hk hk' hpassed
    · rw [hj] at hpassed
      obtain ⟨rfl, hj'⟩ | ⟨-, hj'⟩ := hmoved.call_cases j'
      · rw [hj']
        exact fun h => hpasses j k hji hk' hk h hpassed
      · rw [hj']
        exact hinv.alone j j' k hne hk hk' hpassed

variable {r : LoginCall}

lemma LoginCall.AtStart.not_passed (h : r.AtStart) : ¬ r.Passed := by
  cases r with
  | verifyMagicLink code stage =>
    obtain rfl : stage = .lookup := h
    rintro (hchecked | hmarked)
    · exact hchecked
    · exact false_ne_true hmarked
  | refreshToken token fresh stage =>
    obtain rfl : stage = .lookup := h
    rintro (hchecked | hmarked)
    · exact hchecked
    · exact false_ne_true hmarked
  | clock now =>
    rintro (hchecked | hmarked)
    · exact hchecked
    · exact false_ne_true hmarked

lemma LoginCall.AtStart.sound (h : r.AtStart) : r.Sound crypto := by
  cases r with
  | verifyMagicLink code stage =>
    obtain rfl : stage = .lookup := h
    trivial
  | refreshToken token fresh stage => trivial
  | clock now => trivial

lemma LoginCall.passed_of_jwt (h : r.jwt.isSome = true) : r.Passed := by
  refine .inr ?_
  cases r with
  | verifyMagicLink code stage =>
    cases stage with
    | findUser record => trivial
    | _ => exact h
  | refreshToken token fresh stage =>
    cases stage with
    | storeNew record => trivial
    | _ => exact h
  | clock now => exact h

/-- When the requests that present a credential check and mark it one after the other, one of them at most gets a token. -/
theorem one_time_credentials (hstart : ∀ i, (c.calls i).AtStart)
    (hfresh : ∀ i j k, (c.calls j).credential = some k → Spares crypto (c.calls i).fresh k)
    (hexclusive : ∀ done, done <+: schedule → Exclusive (c.run (loginStep crypto) done)) (i j : ι) {k : Credential}
    (hi : ((c.run (loginStep crypto) schedule).calls i).credential = some k)
    (hj : ((c.run (loginStep crypto) schedule).calls j).credential = some k)
    (hijwt : ((c.run (loginStep crypto) schedule).calls i).jwt.isSome = true)
    (hjjwt : ((c.run (loginStep crypto) schedule).calls j).jwt.isSome = true) : i = j := by
  have hinv : LoginInv crypto c := by
    refine ⟨fun i => (hstart i).sound, hfresh, ?_, ?_⟩
    · intro i k _ hmarked
      exact absurd (.inr hmarked) (hstart i).not_passed
    · intro i j k _ _ _ hpassed
      exact absurd hpassed (hstart i).not_passed
  have hend : LoginInv crypto (c.run (loginStep crypto) schedule) :=
    Threads.run_invariant (fun c i hinv hafter => hinv.turn i hafter) hinv fun done i hdone => by
      rw [← Threads.run_concat]
      exact hexclusive _ hdone
  by_contra hne
  exact hend.alone i j k hne hi hj (LoginCall.passed_of_jwt hijwt) (LoginCall.passed_of_jwt hjjwt)

def plainLogin : LoginCrypto := ⟨plainCrypto, id⟩

def loginServer : LoginServer Digest where
  toAuthServer := exchangedServer (some 0) []
  magicLinks := ⟨fun h => if h = ['m'] then some ⟨['m'], ['e'], 0, 1, false⟩ else none, by
    intro h r hr
    split_ifs at hr with hkey
    rw [← Option.some.inj hr, hkey]⟩
  usersByName _ := .ok (some (5, ⟨true⟩))

def verifies (n : ℕ) : Threads (Fin n) (LoginServer Digest) LoginCall := ⟨loginServer, fun _ => .verifyMagicLink ['m'] .lookup⟩

instance : DecidablePred LoginCall.Checked
  | .verifyMagicLink _ stage => match stage with
    | .lookup | .findUser _ | .returned _ => .isFalse id
    | .markRead _ | .markWrite _ _ => .isTrue trivial
  | .refreshToken _ _ stage => match stage with
    | .lookup | .storeNew _ | .returned _ => .isFalse id
    | .checkKey _ | .revokeRead _ | .revokeWrite _ _ => .isTrue trivial
  | .clock _ => .isFalse id

theorem one_time_credentials_in_turn :
    (((verifies 2).run (loginStep plainLogin) [0, 0, 0, 0, 1]).calls 0).jwt = some ⟨.user 5, none⟩ ∧
    ((((verifies 2).run (loginStep plainLogin) [0, 0, 0, 0, 1]).calls 1).jwt.isSome = true → (0 : Fin 2) = 1) := by
  have hwins : (((verifies 2).run (loginStep plainLogin) [0, 0, 0, 0, 1]).calls 0).jwt = some ⟨.user 5, none⟩ := by decide
  have halone : ∀ done ∈ [0, 0, 0, 0, 1].inits, ∀ i j : Fin 2, i ≠ j → (((verifies 2).run (loginStep plainLogin) done).calls i).Checked →
      ¬ (((verifies 2).run (loginStep plainLogin) done).calls j).Checked := by
    decide
  refine ⟨hwins, fun hsecond => ?_⟩
  have hstart : ∀ i, ((verifies 2).calls i).AtStart := fun _ => rfl
  refine one_time_credentials (k := .code ['m']) hstart ?_ ?_ 0 1 rfl rfl (by rw [hwins]; rfl) hsecond
  · intro i j k _ f hf
    cases hf
  · intro done hdone i j k hne _ _
    exact halone done ((List.mem_inits _ _).mpr hdone) i j hne

section

local instance neZeroFour : NeZero 4 := ⟨by decide⟩

def inPairs : Threads (Fin 4) (LoginServer Digest) LoginCall where
  shared := loginServer
  calls i :=
    if i = 0 ∨ i = 1 then .verifyMagicLink ['m'] .lookup
    else .refreshToken ['r'] (if i = 2 then ['s'] else ['t']) .lookup

def pairTurns : List (Fin 4) := [0, 1, 0, 1, 0, 1, 0, 1, 2, 3, 2, 3, 2, 3, 2, 3, 2, 3]

end

theorem credentials_used_twice :
    ((inPairs.run (loginStep plainLogin) pairTurns).calls 0).jwt = some ⟨.user 5, none⟩ ∧
    ((inPairs.run (loginStep plainLogin) pairTurns).calls 1).jwt = some ⟨.user 5, none⟩ ∧
    ((inPairs.run (loginStep plainLogin) pairTurns).calls 2).jwt = some ⟨.user 0, none⟩ ∧
    ((inPairs.run (loginStep plainLogin) pairTurns).calls 3).jwt = some ⟨.user 0, none⟩ := by
  decide

end AeorDb.Auth
