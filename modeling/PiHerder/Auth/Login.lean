import PiHerder.Auth.Password
import PiHerder.Lib.Runs

/-!
# Logging in

The six ways a browser may come by a session, or closer to one: the password form, the SSO callback, the
2FA form, the two passkey requests, and the forced password change. `cleared` is kept beside the state: the
users whose second factor this browser has passed, or was excused from, since its last password or SSO step.

| here | there |
| --- | --- |
| `afterFirstStep`    | the 2FA branch of `login` (`routers/auth.py:408`) and of `_finish_login` (`auth_oidc.py:126`) |
| `twoFactorSubmit`   | `routers/auth.py:513` |
| `passkeyOptions`, `passkeyVerify` | `two_factor_webauthn_options` (`:589`), `two_factor_webauthn_verify` (`:623`) |
| `forcePassword`     | `force_password_submit` (`:1666`) behind `get_current_user` |
| `idpMfaSatisfiesLogin` | `services/account_stepup.py:209` |

Cookies come with each request, as whatever the browser sends. What other people do between two requests, and
the passing of time, is the event `world`. The user whom an SSO callback stands for comes with the event.
-/
namespace PiHerder.Auth
open Lib Lib.Str

/-! ## The routes -/

/-- The claims of an id token: at each dotted path the texts of its values. -/
abbrev IdpClaims := Dict Str (List Str)

/-- `_IDP_MFA_AMR` (account_stepup.py:35). -/
def idpMfaAmr : List Str :=
  [lit "mfa", lit "otp", lit "totp", lit "hotp", lit "hwk", lit "sms", lit "swk", lit "face", lit "fpt"]

def idpMfaSatisfiesLogin (p : Policy) (claims : IdpClaims) : Bool :=
  let named := strip p.idpMfaClaim
  let path := if named.isEmpty then lit "amr" else named
  p.idpMfaSatisfiesLogin && match claims.get? path with
    | none => false
    | some raw =>
      let norm := (raw.map fun t => lower (strip t)).filter fun t => !t.isEmpty
      if (split '.' path).getLast?.map lower = some (lit "acr") then
        norm.any fun t => t == lit "mfa" || t == lit "https://refeds.org/profile/mfa" || endsWith (lit "/mfa") t
      else norm.any fun t => idpMfaAmr.contains t

/-- What a log-in request is answered with: where it leads, or the error of a JSON answer; whom it signs in
with `create_user_access_token`; and the other cookies it sets. -/
structure LoginReply where
  location : Str
  signedIn : Option User := none
  pending : Option Payload := none
  challenge : Option Payload := none
  trusted : Option Str := none
deriving Repr

section Routes
variable (k : Crypto) (p : Policy) (now : Nat) (db : Db)

/-- A valid device cookie, and a policy that lets it stand for the second factor. -/
def trustedSkips (userId : Nat) (cookies : LoginCookies) : Bool :=
  p.loginTrustedSkip2fa && cookies.trusted.any fun raw => (db.findValidTrustedDevice k.sha256 now userId raw).isSome

/-- After the password, or after SSO. A user who must change the password is not asked for a second factor. -/
def afterFirstStep (u : User) (cookies : LoginCookies) (idpMfa : Bool) : LoginReply :=
  let dest := postLoginPath k p now db u cookies
  if db.userHas2fa u && !u.mustChangePassword then
    if idpMfa then { location := dest, signedIn := some u }
    else if trustedSkips k p now db u.id cookies then { location := dest, signedIn := some u, trusted := cookies.trusted }
    else { location := lit "/auth/2fa", pending := some (createPending2faToken p now u.id) }
  else { location := dest, signedIn := some u }

/-- `authenticate_user` (security/auth.py:659). -/
def authenticateUser (email password : Str) : Option User :=
  match db.users.find? fun u => u.email == email with
  | some u => if u.passwordLoginEnabled && verifyPassword k password u.hashedPassword then some u else none
  | none => none

structure LoginForm where
  email : Str
  password : Str
  cookies : LoginCookies := {}
  rateOk : Bool := true
  /-- The code of a failed captcha. -/
  captchaError : Option Str := none
deriving Repr

/-- The user whom the password form lets in. -/
def loginUser (f : LoginForm) : Option User :=
  if !f.rateOk || f.captchaError.isSome then none
  else (authenticateUser k db f.email f.password).filter fun u => !(p.oidcRequireSso && u.role != .admin)

def login (f : LoginForm) : LoginReply :=
  if !f.rateOk then { location := lit "/auth/login?error=rate" }
  else match f.captchaError with
    | some code => { location := lit "/auth/login?error=captcha&code=" ++ code }
    | none => match authenticateUser k db f.email f.password with
      | none => { location := lit "/auth/login?error=invalid" }
      | some u =>
        if p.oidcRequireSso && u.role != .admin then { location := lit "/auth/login?error=sso_required" }
        else afterFirstStep k p now db u f.cookies false

/-- `_finish_login`; the device cookie is not set again. -/
def finishLogin (u : User) (cookies : LoginCookies) (claims : IdpClaims) : LoginReply :=
  { afterFirstStep k p now db u cookies (idpMfaSatisfiesLogin p claims) with trusted := none }

/-- The form of `/auth/2fa`, with the device token that would be drawn. -/
structure TwoFactorForm where
  pending : Option Payload
  code : Str
  trustDevice : Bool := false
  cookies : LoginCookies := {}
  rateOk : Bool := true
  freshDevice : Str := []
deriving Repr

/-- `ensure_trusted_device`: the device of the cookie lives on, or a new one is stored. -/
def ensureTrustedDevice (userId : Nat) (cookies : LoginCookies) (fresh : Str) : Str × Db :=
  let expires := now + 86400000 * p.trustedDeviceDays
  match cookies.trusted.bind fun raw => (db.findValidTrustedDevice k.sha256 now userId raw).map fun d => (raw, d) with
  | some (raw, d) =>
    (raw, { db with trustedDevices := db.trustedDevices.map fun d' => if d' = d then { d with expiresAt := expires } else d' })
  | none => (fresh, { db with trustedDevices := db.trustedDevices ++ [⟨userId, k.sha256 fresh, expires⟩] })

/-- The code of the form, tried as TOTP and then as a backup code, each where the policy has it. A stored
secret that does not decrypt ends the attempt. -/
def loginCode (u : User) (code : Str) : Bool × Db :=
  let backup := if p.factorAllowed .login .backup then consumeBackupCode k now db u.id code else (false, db)
  if code.isEmpty then (false, db)
  else if p.factorAllowed .login .totp && u.totpActive then
    match u.totpSecretEncrypted.bind k.decrypt with
    | none => (false, db)
    | some secret => if verifyTotpCode k now secret code then (true, db) else backup
  else backup

/-- The form sends a user without TOTP to the passkey page, unless a backup code may be tried. -/
def usePasskeyOnly (u : User) : Bool :=
  (!u.totpActive || !p.factorAllowed .login .totp) &&
    ((db.hasPasskeys u.id && p.factorAllowed .login .passkey) || !p.factorAllowed .login .backup)

def twoFactorSubmit (f : TwoFactorForm) : LoginReply × Db :=
  if !f.rateOk then ({ location := lit "/auth/2fa?error=rate" }, db)
  else match pending2faUser now db f.pending with
    | none => ({ location := lit "/auth/login" }, db)
    | some u =>
      if usePasskeyOnly p db u then ({ location := lit "/auth/2fa?error=use_passkey" }, db)
      else match loginCode k p now db u (strip f.code) with
        | (false, db) => ({ location := lit "/auth/2fa?error=invalid" }, db)
        | (true, db) =>
          let dest := postLoginPath k p now db u f.cookies
          if f.trustDevice then
            let (raw, db) := ensureTrustedDevice k p now db u.id f.cookies f.freshDevice
            ({ location := dest, signedIn := some u, trusted := some raw }, db)
          else ({ location := dest, signedIn := some u }, db)

/-- `challengeB64` is the challenge that the library draws. -/
def passkeyOptions (rateOk : Bool) (pending : Option Payload) (challengeB64 : Str) : LoginReply :=
  if !rateOk then { location := lit "rate" }
  else match pending2faUser now db pending with
    | none => { location := lit "session" }
    | some u =>
      if (db.listCredentials u.id).all fun r => (k.b64urlDecode r.credentialId).isNone then
        { location := lit "No usable passkeys for this account" }
      else { location := lit "ok", challenge := some (mintChallengeToken p now .auth u.id challengeB64) }

structure PasskeyForm where
  pending : Option Payload
  challenge : Option Payload
  credential : Option Assertion
  trustDevice : Bool := false
  cookies : LoginCookies := {}
  rateOk : Bool := true
  freshDevice : Str := []
deriving Repr

/-- The login factor matrix is not asked here. -/
def passkeyVerify (f : PasskeyForm) : LoginReply × Db :=
  if !f.rateOk then ({ location := lit "rate" }, db)
  else match pending2faUser now db f.pending with
    | none => ({ location := lit "session" }, db)
    | some u => match f.credential with
      | none => ({ location := lit "missing_credential" }, db)
      | some a => match verifyAuthentication k now db u a f.challenge with
        | none => ({ location := lit "verify_failed" }, db)
        | some (_, db) =>
          let dest := postLoginPath k p now db u f.cookies
          if f.trustDevice then
            let (raw, db) := ensureTrustedDevice k p now db u.id f.cookies f.freshDevice
            ({ location := dest, signedIn := some u, trusted := some raw }, db)
          else ({ location := dest, signedIn := some u }, db)

/-- The forced change, of a browser that `get_current_user` lets in. -/
def forcePassword (pw : PasswordPolicy) (r : Request) (cookies : LoginCookies) (f : NewPassword) : LoginReply × Db :=
  match getCurrentUser k.toCodec p now db r with
  | .error _ => ({ location := lit "/auth/login" }, db)
  | .ok u =>
    let (reply, db) := forcePasswordSubmit k p now pw db u cookies f
    ({ location := reply.location, signedIn := if reply.session.isSome then some u else none }, db)

end Routes

/-! ## A browser and its requests -/

structure LoginState where
  db : Db
  policy : Policy := {}
  pw : PasswordPolicy := {}
  now : Nat
  cleared : List Nat := []

inductive LoginEvent
  | world (db : Db) (policy : Policy) (pw : PasswordPolicy) (now : Nat)
  | login (f : LoginForm)
  | ssoCallback (u : User) (cookies : LoginCookies) (claims : IdpClaims)
  | twoFactor (f : TwoFactorForm)
  | passkeyOptions (rateOk : Bool) (pending : Option Payload) (challengeB64 : Str)
  | passkeyVerify (f : PasskeyForm)
  | resetPassword (rateOk : Bool) (token : Str) (f : NewPassword)
  | forcePassword (r : Request) (cookies : LoginCookies) (f : NewPassword)

variable (k : Crypto)

def serve (s : LoginState) : LoginEvent → LoginReply × Db
  | .world db _ _ _ => ({ location := [] }, db)
  | .login f => (login k s.policy s.now s.db f, s.db)
  | .ssoCallback u cookies claims => (finishLogin k s.policy s.now s.db u cookies claims, s.db)
  | .twoFactor f => twoFactorSubmit k s.policy s.now s.db f
  | .passkeyOptions rateOk pending chal => (passkeyOptions k s.policy s.now s.db rateOk pending chal, s.db)
  | .passkeyVerify f => passkeyVerify k s.policy s.now s.db f
  | .resetPassword rateOk token f =>
    let (reply, db) := resetPasswordSubmit k s.now s.pw s.db rateOk token f
    ({ location := reply.location }, db)
  | .forcePassword r cookies f => forcePassword k s.policy s.now s.db s.pw r cookies f

/-- A proof of a factor that the login matrix has, in the code of a form. -/
def codeProves (p : Policy) (now : Nat) (db : Db) (u : User) (code : Str) : Bool :=
  !code.isEmpty && ((p.factorAllowed .login .totp && u.totpActive && totpMatches k now u code) ||
    (p.factorAllowed .login .backup && (consumeBackupCode k now db u.id code).1))

/-- Whose second factor a request passes, or is excused from by a rule of the policy. -/
def passedBy (s : LoginState) : LoginEvent → List Nat
  | .login f => match loginUser k s.policy s.db f with
    | some u => if trustedSkips k s.policy s.now s.db u.id f.cookies then [u.id] else []
    | none => []
  | .ssoCallback u cookies claims =>
    if idpMfaSatisfiesLogin s.policy claims || trustedSkips k s.policy s.now s.db u.id cookies then [u.id] else []
  | .twoFactor f => match pending2faUser s.now s.db f.pending with
    | some u => if f.rateOk && codeProves k s.policy s.now s.db u (strip f.code) then [u.id] else []
    | none => []
  | .passkeyVerify f => match pending2faUser s.now s.db f.pending, f.credential with
    | some u, some a =>
      if f.rateOk && s.policy.factorAllowed .login .passkey && (verifyAuthentication k s.now s.db u a f.challenge).isSome then [u.id]
      else []
    | _, _ => []
  | _ => []

/-- A password or SSO step that the browser passes. -/
def isFirstStep (s : LoginState) : LoginEvent → Bool
  | .login f => (loginUser k s.policy s.db f).isSome
  | .ssoCallback .. => true
  | _ => false

def loginStep (s : LoginState) (e : LoginEvent) : LoginState :=
  let db := (serve k s e).2
  let cleared := (if isFirstStep k s e then [] else s.cleared) ++ passedBy k s e
  match e with
  | .world _ policy pw now => { s with db := db, policy := policy, pw := pw, now := now, cleared := cleared }
  | _ => { s with db := db, cleared := cleared }

/-- **A session of a user with a second factor goes to a browser that has passed it.** -/
def Justified (s : LoginState) (e : LoginEvent) : Prop :=
  ∀ u, (serve k s e).1.signedIn = some u → s.db.userHas2fa u = true → u.id ∈ (loginStep k s e).cleared

/-- The request takes no way around the second factor of a user who has one:

* the password or SSO log-in of a user who must change the password brings a trusted device, or MFA of the IdP;
* a passkey that is verified is a login factor, or the browser had passed one before;
* a forced change comes from a browser that had passed one before. -/
structure NoWayAround (s : LoginState) (e : LoginEvent) : Prop where
  login : ∀ f u, e = .login f → loginUser k s.policy s.db f = some u → s.db.userHas2fa u = true → u.mustChangePassword = true →
    trustedSkips k s.policy s.now s.db u.id f.cookies = true
  sso : ∀ u cookies claims, e = .ssoCallback u cookies claims → s.db.userHas2fa u = true → u.mustChangePassword = true →
    idpMfaSatisfiesLogin s.policy claims = true ∨ trustedSkips k s.policy s.now s.db u.id cookies = true
  passkey : ∀ f u a, e = .passkeyVerify f → f.rateOk = true → pending2faUser s.now s.db f.pending = some u →
    f.credential = some a → (verifyAuthentication k s.now s.db u a f.challenge).isSome = true → s.db.userHas2fa u = true →
    s.policy.factorAllowed .login .passkey = true ∨ u.id ∈ s.cleared
  forced : ∀ r cookies f u, e = .forcePassword r cookies f → getCurrentUser k.toCodec s.policy s.now s.db r = .ok u →
    u.mustChangePassword = true → f.newPassword = f.confirmPassword → validatePassword s.pw f.newPassword = true →
    verifyPassword k f.newPassword u.hashedPassword = false → s.db.userHas2fa u = true → u.id ∈ s.cleared

/-! ## One request -/

section Request
variable {k : Crypto} {p : Policy} {now : Nat} {db : Db}

theorem afterFirstStep_signedIn {u : User} {cookies : LoginCookies} {idpMfa : Bool} :
    (afterFirstStep k p now db u cookies idpMfa).signedIn = some u ∨
      ((afterFirstStep k p now db u cookies idpMfa).signedIn = none ∧ db.userHas2fa u = true ∧ u.mustChangePassword = false) := by
  unfold afterFirstStep
  by_cases h : (db.userHas2fa u && !u.mustChangePassword) = true
  · rw [if_pos h]
    simp only [Bool.and_eq_true, Bool.not_eq_true'] at h
    repeat' split
    · exact Or.inl rfl
    · exact Or.inl rfl
    · exact Or.inr ⟨rfl, h⟩
  · rw [if_neg h]
    exact Or.inl rfl

/-- Who is signed in after the first step, with a second factor, was excused from it or must change the password. -/
theorem afterFirstStep_excused {u u' : User} {cookies : LoginCookies} {idpMfa : Bool}
    (h : (afterFirstStep k p now db u cookies idpMfa).signedIn = some u') (h2fa : db.userHas2fa u = true) :
    u' = u ∧ (u.mustChangePassword = true ∨ idpMfa = true ∨ trustedSkips k p now db u.id cookies = true) := by
  unfold afterFirstStep at h
  cases hm : u.mustChangePassword with
  | true =>
    simp only [hm, Bool.not_true, Bool.and_false, Bool.false_eq_true, if_false, Option.some.injEq] at h
    exact ⟨h.symm, Or.inl rfl⟩
  | false =>
    simp only [hm, h2fa, Bool.not_false, Bool.and_self, if_true] at h
    cases hi : idpMfa with
    | true =>
      simp only [hi, if_true, Option.some.injEq] at h
      exact ⟨h.symm, Or.inr (Or.inl rfl)⟩
    | false =>
      simp only [hi, Bool.false_eq_true, if_false] at h
      split at h
      · rename_i ht
        exact ⟨(Option.some.inj h).symm, Or.inr (Or.inr ht)⟩
      · cases h

theorem login_eq (f : LoginForm) {u : User} (h : loginUser k p db f = some u) :
    login k p now db f = afterFirstStep k p now db u f.cookies false := by
  unfold loginUser at h
  unfold login
  split at h
  · cases h
  · rename_i hok
    simp only [Bool.or_eq_true, Bool.not_eq_true', not_or, Bool.not_eq_false, Bool.not_eq_true, Option.isSome_eq_false_iff,
      Option.isNone_iff_eq_none] at hok
    obtain ⟨hsome, hfilter⟩ := Option.filter_eq_some_iff.1 h
    simp only [hok.1, hok.2, hsome, Bool.not_true, Bool.false_eq_true, if_false]
    have hsso : (p.oidcRequireSso && u.role != .admin) = false := by
      rwa [Bool.not_eq_true'] at hfilter
    simp only [hsso, Bool.false_eq_true, if_false]

theorem login_signedIn {f : LoginForm} {u : User} (h : (login k p now db f).signedIn = some u) :
    loginUser k p db f = some u := by
  cases hl : loginUser k p db f with
  | some u' =>
    rw [login_eq f hl] at h
    rcases @afterFirstStep_signedIn k p now db u' f.cookies false with hs | ⟨hs, -⟩
    · rw [hs] at h
      exact h
    · rw [hs] at h
      cases h
  | none =>
    exfalso
    unfold loginUser at hl
    unfold login at h
    split at hl
    · rename_i hbad
      simp only [Bool.or_eq_true, Bool.not_eq_true'] at hbad
      rcases hbad with hbad | hbad
      · simp [hbad] at h
      · obtain ⟨code, hc⟩ := Option.isSome_iff_exists.1 hbad
        rw [hc] at h
        simp only at h
        split at h <;> cases h
    · rename_i hok
      simp only [Bool.or_eq_true, Bool.not_eq_true', not_or, Bool.not_eq_false, Bool.not_eq_true, Option.isSome_eq_false_iff,
        Option.isNone_iff_eq_none] at hok
      simp only [hok.1, hok.2, Bool.not_true, Bool.false_eq_true, if_false] at h
      cases ha : authenticateUser k db f.email f.password with
      | none => simp [ha] at h
      | some u' =>
        rw [ha] at hl h
        simp only at h
        split at h
        · cases h
        · rename_i hsso
          rw [Bool.not_eq_true] at hsso
          simp only [Option.filter_some, hsso, Bool.not_false, if_true] at hl
          cases hl

/-- A code that the form takes proves a factor of the login matrix. -/
theorem codeProves_of_loginCode {u : User} {code : Str} (h : (loginCode k p now db u code).1 = true) :
    codeProves k p now db u code = true := by
  have hbackup : (if p.factorAllowed .login .backup then consumeBackupCode k now db u.id code else (false, db)).1 = true →
      (p.factorAllowed .login .backup && (consumeBackupCode k now db u.id code).1) = true := by
    intro hb
    split at hb
    · rename_i ha
      simp [ha, hb]
    · cases hb
  unfold loginCode at h
  unfold codeProves
  by_cases hc : code.isEmpty = true
  · rw [if_pos hc] at h
    cases h
  · rw [if_neg hc] at h
    simp only [hc, Bool.not_false, Bool.true_and]
    by_cases ht : (p.factorAllowed .login .totp && u.totpActive) = true
    · rw [if_pos ht] at h
      cases hs : u.totpSecretEncrypted.bind k.decrypt with
      | none =>
        rw [hs] at h
        cases h
      | some secret =>
        rw [hs] at h
        simp only at h
        by_cases hv : verifyTotpCode k now secret code = true
        · have hm : totpMatches k now u code = true := by
            unfold totpMatches secretMatches
            cases he : u.totpSecretEncrypted with
            | none => simp [he] at hs
            | some enc =>
              rw [he, Option.bind_some] at hs
              simp only [hs]
              exact hv
          simp [ht, hm]
        · rw [if_neg hv] at h
          rw [hbackup h, Bool.or_true]
    · rw [if_neg ht] at h
      rw [hbackup h, Bool.or_true]

theorem twoFactorSubmit_signedIn {f : TwoFactorForm} {u : User} (h : (twoFactorSubmit k p now db f).1.signedIn = some u) :
    f.rateOk = true ∧ pending2faUser now db f.pending = some u ∧ codeProves k p now db u (strip f.code) = true := by
  unfold twoFactorSubmit at h
  by_cases hr : f.rateOk = true
  · simp only [hr, Bool.not_true, Bool.false_eq_true, if_false] at h
    cases hu : pending2faUser now db f.pending with
    | none => simp [hu] at h
    | some u' =>
      rw [hu] at h
      simp only at h
      split at h
      · cases h
      · have hproof : (loginCode k p now db u' (strip f.code)).1 = true ∧ u' = u := by
          split at h
          · cases h
          · rename_i db' hcode
            split at h
            · exact ⟨by rw [hcode], Option.some.inj h⟩
            · exact ⟨by rw [hcode], Option.some.inj h⟩
        obtain ⟨hp, rfl⟩ := hproof
        exact ⟨hr, rfl, codeProves_of_loginCode hp⟩
  · simp [hr] at h

theorem passkeyVerify_signedIn {f : PasskeyForm} {u : User} : (passkeyVerify k p now db f).1.signedIn = some u ↔
    f.rateOk = true ∧ pending2faUser now db f.pending = some u ∧
      ∃ a, f.credential = some a ∧ (verifyAuthentication k now db u a f.challenge).isSome = true := by
  unfold passkeyVerify
  by_cases hr : f.rateOk = true
  · simp only [hr, Bool.not_true, Bool.false_eq_true, if_false, true_and]
    cases hu : pending2faUser now db f.pending with
    | none => simp
    | some u' =>
      cases hc : f.credential with
      | none => simp
      | some a =>
        simp only [Option.some.injEq, exists_eq_left']
        cases hv : verifyAuthentication k now db u' a f.challenge with
        | none =>
          simp only [reduceCtorEq, false_iff, not_and]
          rintro rfl
          simp [hv]
        | some r =>
          have hsigned : ∀ x : LoginReply × Db, x.1.signedIn = some u' →
              (x.1.signedIn = some u ↔ u' = u ∧ (verifyAuthentication k now db u a f.challenge).isSome = true) := by
            intro x hx
            rw [hx, Option.some.injEq]
            constructor
            · rintro rfl
              exact ⟨rfl, by rw [hv]; rfl⟩
            · exact And.left
          refine hsigned _ ?_
          by_cases ht : f.trustDevice = true
          · simp only [ht, if_true]
          · simp only [ht, Bool.false_eq_true, if_false]
  · simp [hr]

theorem forcePassword_signedIn {pw : PasswordPolicy} {r : Request} {cookies : LoginCookies} {f : NewPassword} {u : User} :
    (forcePassword k p now db pw r cookies f).1.signedIn = some u ↔ getCurrentUser k.toCodec p now db r = .ok u ∧
      u.mustChangePassword = true ∧ f.newPassword = f.confirmPassword ∧ validatePassword pw f.newPassword = true ∧
      verifyPassword k f.newPassword u.hashedPassword = false := by
  unfold forcePassword
  cases hc : getCurrentUser k.toCodec p now db r with
  | error e => simp
  | ok u' =>
    have hreply : (forcePasswordSubmit k p now pw db u' cookies f).1.session.isSome = true ↔ u'.mustChangePassword = true ∧
        f.newPassword = f.confirmPassword ∧ validatePassword pw f.newPassword = true ∧
        verifyPassword k f.newPassword u'.hashedPassword = false := by
      unfold forcePasswordSubmit
      cases h1 : u'.mustChangePassword
      · simp
      by_cases h2 : f.newPassword = f.confirmPassword
      · cases h3 : validatePassword pw f.newPassword
        · simp [h2]
        cases h4 : verifyPassword k f.newPassword u'.hashedPassword
        · simp [h2]
        · simp [h2]
      · simp [h2]
    simp only [Except.ok.injEq]
    by_cases hs : (forcePasswordSubmit k p now pw db u' cookies f).1.session.isSome = true
    · rw [if_pos hs, Option.some.injEq]
      constructor
      · rintro rfl
        exact ⟨rfl, hreply.1 hs⟩
      · exact And.left
    · rw [if_neg hs]
      simp only [reduceCtorEq, false_iff, not_and]
      rintro rfl h1 h2 h3 h4
      exact hs (hreply.2 ⟨h1, h2, h3, h4⟩)

theorem afterFirstStep_mustChange {u : User} {cookies : LoginCookies} {idpMfa : Bool} (h : u.mustChangePassword = true) :
    (afterFirstStep k p now db u cookies idpMfa).signedIn = some u := by
  rcases @afterFirstStep_signedIn k p now db u cookies idpMfa with hs | ⟨-, -, hm⟩
  · exact hs
  · rw [h] at hm
    cases hm

end Request

/-! ## Runs -/

section Runs
variable {k}

theorem justified_login_iff (s : LoginState) (f : LoginForm) : Justified k s (.login f) ↔ NoWayAround k s (.login f) := by
  have hcleared : ∀ u, loginUser k s.policy s.db f = some u →
      (loginStep k s (.login f)).cleared = passedBy k s (.login f) := by
    intro u hu
    simp [loginStep, isFirstStep, hu]
  constructor
  · intro h
    refine ⟨?_, by simp, by simp, by simp⟩
    rintro _ u ⟨rfl⟩ hu h2fa hmust
    have hin : (serve k s (.login f)).1.signedIn = some u := by
      simp only [serve, login_eq f hu]
      exact afterFirstStep_mustChange hmust
    have hmem := h u hin h2fa
    rw [hcleared u hu] at hmem
    simp only [passedBy, hu] at hmem
    by_contra hskip
    simp [hskip] at hmem
  · intro h u hin h2fa
    have hu : loginUser k s.policy s.db f = some u := login_signedIn hin
    simp only [serve, login_eq f hu] at hin
    have hskip : trustedSkips k s.policy s.now s.db u.id f.cookies = true := by
      obtain ⟨-, hmust | habs | hskip⟩ := afterFirstStep_excused hin h2fa
      · exact h.login f u rfl hu h2fa hmust
      · cases habs
      · exact hskip
    rw [hcleared u hu]
    simp [passedBy, hu, hskip]

theorem justified_sso_iff (s : LoginState) (u : User) (cookies : LoginCookies) (claims : IdpClaims) :
    Justified k s (.ssoCallback u cookies claims) ↔ NoWayAround k s (.ssoCallback u cookies claims) := by
  have hcleared : (loginStep k s (.ssoCallback u cookies claims)).cleared = passedBy k s (.ssoCallback u cookies claims) := by
    simp [loginStep, isFirstStep]
  constructor
  · intro h
    refine ⟨by simp, ?_, by simp, by simp⟩
    rintro _ _ _ ⟨rfl, rfl, rfl⟩ h2fa hmust
    have hmem := h u (afterFirstStep_mustChange hmust) h2fa
    rw [hcleared] at hmem
    simp only [passedBy] at hmem
    by_contra hno
    simp only [not_or, Bool.not_eq_true] at hno
    simp [hno.1, hno.2] at hmem
  · intro h u' hin h2fa
    have hu : u' = u := by
      rcases @afterFirstStep_signedIn k s.policy s.now s.db u cookies (idpMfaSatisfiesLogin s.policy claims) with hs | ⟨hs, -⟩
      · simp only [serve, finishLogin, hs] at hin
        exact (Option.some.inj hin).symm
      · simp only [serve, finishLogin, hs] at hin
        cases hin
    subst hu
    have hexcused : idpMfaSatisfiesLogin s.policy claims = true ∨ trustedSkips k s.policy s.now s.db u'.id cookies = true := by
      obtain ⟨-, hmust | hexcused⟩ := afterFirstStep_excused hin h2fa
      · exact h.sso u' cookies claims rfl h2fa hmust
      · exact hexcused
    rw [hcleared]
    rcases hexcused with hx | hx
    · simp [passedBy, hx]
    · simp [passedBy, hx]

theorem justified_twoFactor (s : LoginState) (f : TwoFactorForm) : Justified k s (.twoFactor f) := by
  intro u hin _
  obtain ⟨hrate, hu, hproof⟩ := twoFactorSubmit_signedIn hin
  simp [loginStep, passedBy, hu, hrate, hproof]

theorem justified_passkey_iff (s : LoginState) (f : PasskeyForm) :
    Justified k s (.passkeyVerify f) ↔ NoWayAround k s (.passkeyVerify f) := by
  have hcleared : ∀ u a, f.rateOk = true → pending2faUser s.now s.db f.pending = some u → f.credential = some a →
      (verifyAuthentication k s.now s.db u a f.challenge).isSome = true →
      (u.id ∈ (loginStep k s (.passkeyVerify f)).cleared ↔
        s.policy.factorAllowed .login .passkey = true ∨ u.id ∈ s.cleared) := by
    intro u a hrate hu ha hv
    simp only [loginStep, passedBy, hu, ha, hrate, hv, isFirstStep, Bool.true_and, Bool.and_true,
      Bool.false_eq_true, if_false, List.mem_append]
    by_cases hf : s.policy.factorAllowed .login .passkey = true
    · simp [hf]
    · simp [hf]
  constructor
  · intro h
    refine ⟨by simp, by simp, ?_, by simp⟩
    rintro _ u a ⟨rfl⟩ hrate hu ha hv h2fa
    exact (hcleared u a hrate hu ha hv).1 (h u (passkeyVerify_signedIn.2 ⟨hrate, hu, a, ha, hv⟩) h2fa)
  · intro h u hin h2fa
    obtain ⟨hrate, hu, a, ha, hv⟩ := passkeyVerify_signedIn.1 hin
    exact (hcleared u a hrate hu ha hv).2 (h.passkey f u a rfl hrate hu ha hv h2fa)

theorem justified_forced_iff (s : LoginState) (r : Request) (cookies : LoginCookies) (f : NewPassword) :
    Justified k s (.forcePassword r cookies f) ↔ NoWayAround k s (.forcePassword r cookies f) := by
  have hcleared : (loginStep k s (.forcePassword r cookies f)).cleared = s.cleared := by
    simp [loginStep, isFirstStep, passedBy]
  constructor
  · intro h
    refine ⟨by simp, by simp, by simp, ?_⟩
    rintro _ _ _ u ⟨rfl, rfl, rfl⟩ hu hmust heq hvalid hsame h2fa
    rw [← hcleared]
    exact h u (forcePassword_signedIn.2 ⟨hu, hmust, heq, hvalid, hsame⟩) h2fa
  · intro h u hin h2fa
    obtain ⟨hu, hmust, heq, hvalid, hsame⟩ := forcePassword_signedIn.1 hin
    rw [hcleared]
    exact h.forced r cookies f u rfl hu hmust heq hvalid hsame h2fa

theorem justified_iff (s : LoginState) (e : LoginEvent) : Justified k s e ↔ NoWayAround k s e := by
  have hnone : (∀ u, (serve k s e).1.signedIn ≠ some u) → Justified k s e := fun h u hin => absurd hin (h u)
  cases e with
  | login f => exact justified_login_iff s f
  | ssoCallback u cookies claims => exact justified_sso_iff s u cookies claims
  | twoFactor f => exact iff_of_true (justified_twoFactor s f) ⟨by simp, by simp, by simp, by simp⟩
  | passkeyVerify f => exact justified_passkey_iff s f
  | forcePassword r cookies f => exact justified_forced_iff s r cookies f
  | world db policy pw now => exact iff_of_true (hnone (by simp [serve])) ⟨by simp, by simp, by simp, by simp⟩
  | resetPassword rateOk token f => exact iff_of_true (hnone (by simp [serve])) ⟨by simp, by simp, by simp, by simp⟩
  | passkeyOptions rateOk pending chal =>
    refine iff_of_true (hnone ?_) ⟨by simp, by simp, by simp, by simp⟩
    intro u
    simp only [serve, passkeyOptions]
    repeat' split
    all_goals simp

/-- **Every session of a user with a second factor goes to a browser that passed it, exactly when no request of
the run goes one of the three ways around.** -/
theorem sessions_justified_iff (s : LoginState) (es : List LoginEvent) :
    (∀ pre e post, es = pre ++ e :: post → Justified k (runs (loginStep k) s pre) e) ↔
      Guarded (loginStep k) (NoWayAround k) s es := by
  rw [guarded_iff]
  constructor
  · intro h pre e post hsplit
    exact (justified_iff _ e).1 (h pre e post hsplit)
  · intro h pre e post hsplit
    exact (justified_iff _ e).2 (h pre e post hsplit)

/-- An admin resets the password of a user with TOTP and keeps the second factor: the new password alone signs in. -/
theorem reset_opens_a_way : ¬ ∀ (k : Crypto) (s : LoginState) (es : List LoginEvent), s.cleared = [] →
    ∀ pre e post, es = pre ++ e :: post → Justified k (runs (loginStep k) s pre) e := by
  intro h
  let alice : User := { id := 1, email := lit "alice", totpEnabled := true, totpSecretEncrypted := some (lit "JBSW") }
  let db := adminResetPassword clearText { users := [alice] } 1 (lit "Temp-12345") false 0
  let e := LoginEvent.login { email := lit "alice", password := lit "Temp-12345" }
  have hin := h clearText { db := db, now := 0 } [e] rfl [] e [] rfl
  have hmem := hin _ rfl rfl
  revert hmem
  decide

end Runs

end PiHerder.Auth
