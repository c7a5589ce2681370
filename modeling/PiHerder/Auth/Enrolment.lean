import PiHerder.Auth.Revocation

/-!
# Enrolling and managing second factors

| here | there |
| --- | --- |
| `twoFactorStart`, `twoFactorConfirm` | `two_factor_start` (`routers/auth.py:1218`), `two_factor_confirm` (`:1246`) |
| `twoFactorDisable`, `regenerateBackupCodes` | `:1288`, `:1330` |
| `verifyRegistration`, `webauthnRegisterVerify` | `services/webauthn_svc.py:316`, `routers/auth.py:1404` |
| `webauthnRevoke` | `:1528` |

Disabling, new backup codes and revoking ask `verifyStepup`; starting asks whether TOTP is on; confirming and
registering ask nothing of a factor that is there already.
-/
namespace PiHerder.Auth
open Lib Lib.Str

/-! ## The routes -/

/-- Where a route leads, and the cookies `totp_setup_secret` and `backup_codes_flash` it sets. -/
structure EnrolReply where
  location : Str
  setupSecret : Option Str := none
  flash : Option Payload := none
deriving Repr

section Routes
variable (k : Crypto) (p : Policy) (now : Nat) (db : Db)

/-- `secret` is the one that `generate_totp_secret` draws. -/
def twoFactorStart (u : User) (secret : Str) : EnrolReply × Db :=
  if u.totpEnabled then ({ location := lit "/auth/account?error=2fa_already#account-2fa" }, db)
  else
    ({ location := lit "/auth/account?msg=2fa_setup#account-2fa", setupSecret := some secret },
      db.setUser u.id fun u => { u with totpSecretEncrypted := some (k.encrypt secret), totpEnabled := false })

/-- The secret that is confirmed: that of the cookie, else one that is stored and not in use yet. -/
def setupSecret (u : User) (cookie : Option Str) : Option Str :=
  ((cookie.filter fun c => !c.isEmpty).orElse fun _ =>
    if u.totpEnabled then none else (u.totpSecretEncrypted.filter fun c => !c.isEmpty).bind k.decrypt).filter fun c => !c.isEmpty

/-- `replace_backup_codes`. -/
def replaceBackupCodes (userId : Nat) (codes : List Str) : Db :=
  { db with backupCodes := (db.backupCodes.filter fun r => r.userId != userId) ++
      codes.map fun c => ⟨userId, hashBackupCode k c, none⟩ }

/-- `codes` are those that `generate_backup_codes` draws. -/
def twoFactorConfirm (u : User) (cookie : Option Str) (code : Str) (codes : List Str) : EnrolReply × Db :=
  match setupSecret k u cookie with
  | none => ({ location := lit "/auth/account?error=2fa_no_setup#account-2fa" }, db)
  | some secret =>
    if !verifyTotpCode k now secret code then ({ location := lit "/auth/account?error=2fa_bad_code#account-2fa" }, db)
    else
      let db := db.setUser u.id fun u => { u with totpSecretEncrypted := some (k.encrypt secret), totpEnabled := true }
      ({ location := lit "/auth/account?msg=2fa_enabled", flash := some (setBackupCodesFlash p now u.id codes) },
        replaceBackupCodes k db u.id codes)

def twoFactorDisable (u : User) (f : StepupForm) : EnrolReply × Db :=
  match verifyStepup k p now db u f .account with
  | (.error e, db) => ({ location := lit "/auth/account?error=" ++ e.code ++ lit "#account-2fa" }, db)
  | (.ok (), db) =>
    let db := db.setUser u.id fun u => { u with totpEnabled := false, totpSecretEncrypted := none }
    let db := { db with backupCodes := db.backupCodes.filter fun r => r.userId != u.id }
    ({ location := lit "/auth/account?msg=2fa_disabled" }, revokeAllTrustedDevices db u.id)

/-- The password is not asked for where a factor is enrolled. -/
def regenerateBackupCodes (u : User) (f : StepupForm) (codes : List Str) : EnrolReply × Db :=
  if !u.totpEnabled then ({ location := lit "/auth/account?error=2fa_off#account-2fa" }, db)
  else match verifyStepup k p now db u { f with password := if db.userHas2fa u then none else f.password } .account with
    | (.error e, db) => ({ location := lit "/auth/account?error=" ++ e.code ++ lit "#account-2fa" }, db)
    | (.ok (), db) =>
      ({ location := lit "/auth/account?msg=backup_codes", flash := some (setBackupCodesFlash p now u.id codes) },
        revokeAllTrustedDevices (replaceBackupCodes k db u.id codes) u.id)

/-- `MAX_CREDENTIALS_PER_USER`. -/
def maxCredentialsPerUser : Nat := 10

/-- The next primary key. -/
def nextPasskeyId : Nat := (db.passkeys.map Passkey.id).foldl max 0 + 1

/-- `verify_registration`: the tables with the new passkey. -/
def verifyRegistration (u : User) (a : Assertion) (challengeToken : Option Payload) : Option Db :=
  match readChallengeToken k.toCodec now .reg u.id challengeToken with
  | none => none
  | some challenge =>
    if challenge.isEmpty || decide (maxCredentialsPerUser ≤ (db.listCredentials u.id).length) then none
    else match k.verifyRegistration challenge a with
      | none => none
      | some (credentialId, publicKey, signCount) =>
        if db.passkeys.any fun r => r.credentialId == credentialId then none
        else some { db with passkeys := db.passkeys ++ [⟨nextPasskeyId db, u.id, credentialId, publicKey, signCount⟩] }

def webauthnRegisterVerify (u : User) (credential : Option Assertion) (challengeToken : Option Payload) : EnrolReply × Db :=
  match credential with
  | none => ({ location := lit "missing_credential" }, db)
  | some a => match verifyRegistration k now db u a challengeToken with
    | none => ({ location := lit "verify_failed" }, db)
    | some db => ({ location := lit "/auth/account?msg=passkey_added#account-passkeys" }, db)

def webauthnRevoke (u : User) (credId : Nat) (f : StepupForm) : EnrolReply × Db :=
  match verifyStepup k p now db u f .account with
  | (.error e, db) => ({ location := lit "/auth/account?error=" ++ e.code ++ lit "#account-passkeys" }, db)
  | (.ok (), db) =>
    if db.passkeys.any fun r => r.id == credId && r.userId == u.id then
      ({ location := lit "/auth/account?msg=passkey_revoked#account-passkeys" },
        { db with passkeys := db.passkeys.filter fun r => r.id != credId })
    else ({ location := lit "/auth/account?error=passkey_not_found#account-passkeys" }, db)

end Routes

/-! ## A sequence of requests -/

inductive EnrolRequest
  | start (secret : Str)
  | confirm (cookie : Option Str) (code : Str) (codes : List Str)
  | disable (f : StepupForm)
  | regenerate (f : StepupForm) (codes : List Str)
  | register (credential : Option Assertion) (challenge : Option Payload)
  | revoke (credId : Nat) (f : StepupForm)

structure EnrolState where
  db : Db
  policy : Policy := {}
  now : Nat

inductive EnrolEvent
  | world (policy : Policy) (ms : Nat)
  | request (r : Request) (q : EnrolRequest)

variable (k : Crypto)

def EnrolRequest.run (s : EnrolState) (u : User) : EnrolRequest → EnrolReply × Db
  | .start secret => twoFactorStart k s.db u secret
  | .confirm cookie code codes => twoFactorConfirm k s.policy s.now s.db u cookie code codes
  | .disable f => twoFactorDisable k s.policy s.now s.db u f
  | .regenerate f codes => regenerateBackupCodes k s.policy s.now s.db u f codes
  | .register credential challenge => webauthnRegisterVerify k s.now s.db u credential challenge
  | .revoke credId f => webauthnRevoke k s.policy s.now s.db u credId f

def enrolStep (s : EnrolState) : EnrolEvent → EnrolState
  | .world policy ms => { s with policy := policy, now := s.now + ms }
  | .request r q =>
    match getCurrentUser k.toCodec s.policy s.now s.db r with
    | .error _ => s
    | .ok u => { s with db := (q.run k s u).2 }

/-- The second factors of a user. -/
structure Enrolled where
  totpEnabled : Bool
  totpSecret : Option Str
  passkeys : List Passkey
  backupCodes : List BackupCode
deriving DecidableEq, Repr

def Db.enrolled (db : Db) (userId : Nat) : Option Enrolled :=
  (db.user userId).map fun u =>
    ⟨u.totpEnabled, u.totpSecretEncrypted, db.passkeys.filter fun r => r.userId == userId,
      db.backupCodes.filter fun r => r.userId == userId⟩

/-- A code of the TOTP secret, or an unused backup code. -/
def Enrolled.proves (now : Nat) (f : Enrolled) (code : Str) : Bool :=
  (f.totpEnabled && secretMatches k now f.totpSecret code) ||
    f.backupCodes.any fun r => r.codeHash == hashBackupCode k code && r.usedAt.isNone

/-- The code that `verify_stepup` makes of a form value. -/
def formCode (code : Str) : Str := (strip code).filter (· != ' ')

def EnrolRequest.code : EnrolRequest → Str
  | .confirm _ code _ => formCode code
  | .disable f | .regenerate f _ | .revoke _ f => formCode (f.totpCode.getD [])
  | _ => []

def EnrolRequest.stepupCookie : EnrolRequest → Option Payload
  | .disable f | .regenerate f _ | .revoke _ f => f.stepupCookie
  | _ => none

/-- The request comes with a session of `userId`, and without a proof of the factors `f`. -/
structure SessionOnly (userId : Nat) (f : Enrolled) (s : EnrolState) (r : Request) (q : EnrolRequest) : Prop where
  session : ∀ u, getCurrentUser k.toCodec s.policy s.now s.db r = .ok u → u.id = userId
  code : f.proves k s.now q.code = false
  stepup : accountStepupActive s.now userId q.stepupCookie = false

def EnrolEvent.IsSessionOnly (userId : Nat) (f : Enrolled) (s : EnrolState) : EnrolEvent → Prop
  | .world _ _ => True
  | .request r q => SessionOnly k userId f s r q

/-- No route that asks for no proof gets to its end: a set-up is started with TOTP on, the code is none of the
secret in the cookie, and the registration does not verify. -/
def AsksProof (s : EnrolState) (u : User) : EnrolRequest → Prop
  | .start _ => u.totpEnabled = true
  | .confirm cookie code _ => ∀ secret, setupSecret k u cookie = some secret → verifyTotpCode k s.now secret code = false
  | .register credential challenge => ∀ a, credential = some a → verifyRegistration k s.now s.db u a challenge = none
  | _ => True

def EnrolEvent.IsAskingProof (s : EnrolState) : EnrolEvent → Prop
  | .world _ _ => True
  | .request r q => ∀ u, getCurrentUser k.toCodec s.policy s.now s.db r = .ok u → AsksProof k s u q

/-! ## Without a proof -/

section NoProof
variable {k : Crypto} {p : Policy} {now : Nat}

theorem consumeBackupCode_none {db : Db} {userId : Nat} {code : Str}
    (h : (db.backupCodes.filter fun r => r.userId == userId).any
      (fun r => r.codeHash == hashBackupCode k code && r.usedAt.isNone) = false) :
    consumeBackupCode k now db userId code = (false, db) := by
  have hnone : ∀ rows : List BackupCode, (rows.filter fun r => r.userId == userId).any
      (fun r => r.codeHash == hashBackupCode k code && r.usedAt.isNone) = false →
      useFirst now userId (hashBackupCode k code) rows = none := by
    intro rows
    induction rows with
    | nil => intro _; rfl
    | cons r rows ih =>
      intro hrows
      unfold useFirst
      by_cases hu : r.userId = userId
      · rw [List.filter_cons_of_pos (by simpa using hu), List.any_cons, Bool.or_eq_false_iff] at hrows
        have hmiss : ¬ (r.userId = userId ∧ r.codeHash = hashBackupCode k code ∧ r.usedAt = none) := by
          rintro ⟨-, hh, hn⟩
          simp [hh, hn] at hrows
        rw [if_neg hmiss, ih hrows.2, Option.map_none]
      · rw [List.filter_cons_of_neg (by simpa using hu)] at hrows
        rw [if_neg (fun hc => hu hc.1), ih hrows, Option.map_none]
  unfold consumeBackupCode
  rw [hnone _ h]

/-- **No step-up without a proof** of a user who has a second factor. -/
theorem verifyStepup_refused {db : Db} {u : User} {e : Enrolled} (hu : db.user u.id = some u) (he : db.enrolled u.id = some e)
    (h2fa : db.userHas2fa u = true) {f : StepupForm} {surf : Surface} (hcode : e.proves k now (formCode (f.totpCode.getD [])) = false)
    (hcookie : accountStepupActive now u.id f.stepupCookie = false) :
    (∃ err, (verifyStepup k p now db u f surf).1 = .error err) ∧ (verifyStepup k p now db u f surf).2 = db := by
  simp only [Db.enrolled, hu, Option.map_some, Option.some.injEq] at he
  subst he
  simp only [Enrolled.proves, Bool.or_eq_false_iff] at hcode
  obtain ⟨htotp, hbackup⟩ := hcode
  have hconsume : ∀ code, code = formCode (f.totpCode.getD []) → consumeBackupCode k now db u.id code = (false, db) := by
    rintro code rfl
    exact consumeBackupCode_none hbackup
  unfold verifyStepup
  rw [if_pos h2fa, hcookie, Bool.and_false, if_neg Bool.false_ne_true]
  dsimp only
  have hno : (p.factorAllowed surf .totp && u.totpActive && totpMatches k now u (formCode (f.totpCode.getD []))) = false := by
    rw [Bool.and_eq_false_iff]
    by_contra hc
    simp only [not_or, Bool.not_eq_false, Bool.and_eq_true] at hc
    obtain ⟨⟨-, hactive⟩, hm⟩ := hc
    have henabled : u.totpEnabled = true := by
      unfold User.totpActive at hactive
      simp only [Bool.and_eq_true] at hactive
      exact hactive.1
    unfold totpMatches at hm
    rw [henabled, hm] at htotp
    cases htotp
  rw [show (strip (f.totpCode.getD [])).filter (· != ' ') = formCode (f.totpCode.getD []) from rfl, hno, hconsume _ rfl]
  by_cases hempty : (formCode (f.totpCode.getD [])).isEmpty = true
  · rw [if_pos hempty]
    repeat' split
    all_goals exact ⟨⟨_, rfl⟩, rfl⟩
  · rw [if_neg hempty, if_neg Bool.false_ne_true]
    by_cases hb : p.factorAllowed surf .backup = true
    · rw [if_pos hb]
      exact ⟨⟨_, rfl⟩, rfl⟩
    · rw [if_neg hb]
      exact ⟨⟨_, rfl⟩, rfl⟩

/-- A request that proves nothing, and asks for nothing without a proof, leaves the tables as they are. -/
theorem EnrolRequest.run_eq {s : EnrolState} {u : User} {e : Enrolled} (hu : s.db.user u.id = some u)
    (he : s.db.enrolled u.id = some e) (h2fa : s.db.userHas2fa u = true) {q : EnrolRequest}
    (hcode : e.proves k s.now q.code = false) (hcookie : accountStepupActive s.now u.id q.stepupCookie = false)
    (hasks : AsksProof k s u q) : (q.run k s u).2 = s.db := by
  have hrefused : ∀ f : StepupForm, formCode (f.totpCode.getD []) = q.code → f.stepupCookie = q.stepupCookie →
      ∃ err, verifyStepup k s.policy s.now s.db u f .account = (.error err, s.db) := by
    intro f hf hc
    obtain ⟨⟨err, herr⟩, hdb⟩ := @verifyStepup_refused k s.policy s.now s.db u e hu he h2fa f .account (hf ▸ hcode) (hc ▸ hcookie)
    exact ⟨err, Prod.ext herr hdb⟩
  cases q with
  | start secret =>
    have hon : u.totpEnabled = true := hasks
    simp only [EnrolRequest.run, twoFactorStart, hon, if_true]
  | confirm cookie code codes =>
    simp only [EnrolRequest.run, twoFactorConfirm]
    cases hs : setupSecret k u cookie with
    | none => rfl
    | some secret =>
      have hno : verifyTotpCode k s.now secret code = false := hasks secret hs
      dsimp only
      rw [hno, if_pos Bool.not_false]
  | register credential challenge =>
    cases credential with
    | none => rfl
    | some a =>
      have hno : verifyRegistration k s.now s.db u a challenge = none := hasks a rfl
      change (match verifyRegistration k s.now s.db u a challenge with
        | none => _
        | some db => _ : EnrolReply × Db).2 = s.db
      rw [hno]
  | disable f =>
    obtain ⟨err, herr⟩ := hrefused f rfl rfl
    simp only [EnrolRequest.run, twoFactorDisable, herr]
  | revoke credId f =>
    obtain ⟨err, herr⟩ := hrefused f rfl rfl
    simp only [EnrolRequest.run, webauthnRevoke, herr]
  | regenerate f codes =>
    obtain ⟨err, herr⟩ := hrefused { f with password := if s.db.userHas2fa u then none else f.password } rfl rfl
    simp only [EnrolRequest.run, regenerateBackupCodes, herr]
    split <;> rfl

/-- **A session cookie alone changes no second factor, and passes no step-up**, as long as no route that asks for
no proof gets to its end. -/
theorem factors_unchanged {s : EnrolState} {u : User} {e : Enrolled} (hu : s.db.user u.id = some u)
    (he : s.db.enrolled u.id = some e) (h2fa : s.db.userHas2fa u = true) {es : List EnrolEvent}
    (hg : Guarded (enrolStep k) (fun s ev => ev.IsSessionOnly k u.id e s ∧ ev.IsAskingProof k s) s es)
    {pre post : List EnrolEvent} (hsplit : es = pre ++ post) :
    (runs (enrolStep k) s pre).db.enrolled u.id = some e ∧
      ∀ (f : StepupForm) (surf : Surface), e.proves k (runs (enrolStep k) s pre).now (formCode (f.totpCode.getD [])) = false →
        accountStepupActive (runs (enrolStep k) s pre).now u.id f.stepupCookie = false →
        ∃ err, (verifyStepup k (runs (enrolStep k) s pre).policy (runs (enrolStep k) s pre).now
          (runs (enrolStep k) s pre).db u f surf).1 = .error err := by
  -- the tables are those of the start
  have hsame : (runs (enrolStep k) s pre).db = s.db := by
    rw [hsplit] at hg
    refine @runs_invariant _ _ (enrolStep k) _ (fun s' => s'.db = s.db) ?_ pre s rfl hg.of_append
    rintro s' ev hdb ⟨honly, hasks⟩
    cases ev with
    | world policy ms => exact hdb
    | request r q =>
      simp only [enrolStep]
      cases hc : getCurrentUser k.toCodec s'.policy s'.now s'.db r with
      | error err => exact hdb
      | ok u' =>
        have hid : u'.id = u.id := honly.session u' hc
        have heq : u' = u := by
          have hrow := getCurrentUser_user hc
          rw [hid, hdb, hu] at hrow
          exact (Option.some.inj hrow).symm
        subst heq
        have hrun := @EnrolRequest.run_eq k s' u' e (hdb ▸ hu) (hdb ▸ he) (hdb ▸ h2fa) q honly.code honly.stepup (hasks u' hc)
        exact hrun.trans hdb
  rw [hsame]
  exact ⟨he, fun f surf hcode hcookie => (verifyStepup_refused hu he h2fa hcode hcookie).1⟩

/-- Alice has TOTP on; her session cookie comes with a wrong code for disabling it. -/
theorem factors_unchanged_disable :
    (runs (enrolStep clearText) ⟨{ users := [{ id := 1, totpEnabled := true, totpSecretEncrypted := some (lit "OLD") }] }, {}, 0⟩
      [.request ⟨some (createUserAccessToken {} 0 { id := 1 }), lit "/auth/account/2fa/disable", lit "POST", none⟩
        (.disable { totpCode := some (lit "123456") })]).db.enrolled 1 = some ⟨true, some (lit "OLD"), [], []⟩ := by
  let alice : User := { id := 1, totpEnabled := true, totpSecretEncrypted := some (lit "OLD") }
  let es : List EnrolEvent := [.request
    ⟨some (createUserAccessToken {} 0 { id := 1 }), lit "/auth/account/2fa/disable", lit "POST", none⟩
    (.disable { totpCode := some (lit "123456") })]
  refine (@factors_unchanged clearText ⟨{ users := [alice] }, {}, 0⟩ alice ⟨true, some (lit "OLD"), [], []⟩ rfl rfl rfl es
    ⟨⟨⟨?_, by decide +kernel, by decide +kernel⟩, fun _ _ => trivial⟩, trivial⟩ es [] (List.append_nil _).symm).1
  intro u hu
  have hrow : u ∈ [alice] := Table.lookup_mem (getCurrentUser_user hu)
  rw [List.mem_singleton.1 hrow]

/-- The same cookie confirms a new TOTP secret, which comes from the client. -/
theorem session_replaces_totp : ¬ ∀ (k : Crypto) (s : EnrolState) (u : User) (e : Enrolled) (es : List EnrolEvent),
    s.db.user u.id = some u → s.db.enrolled u.id = some e → s.db.userHas2fa u = true →
    Guarded (enrolStep k) (fun s ev => ev.IsSessionOnly k u.id e s) s es → ∀ pre post, es = pre ++ post →
    (runs (enrolStep k) s pre).db.enrolled u.id = some e := by
  intro h
  let alice : User := { id := 1, totpEnabled := true, totpSecretEncrypted := some (lit "OLD") }
  let es : List EnrolEvent := [.request
    ⟨some (createUserAccessToken {} 0 alice), lit "/auth/account/2fa/confirm", lit "POST", none⟩
    (.confirm (some (lit "NEW")) (lit "NEW0") [lit "AAAA-BBBB"])]
  have hkept := h clearText ⟨{ users := [alice] }, {}, 0⟩ alice ⟨true, some (lit "OLD"), [], []⟩ es rfl rfl rfl
    ⟨⟨?_, by decide +kernel, by decide +kernel⟩, trivial⟩ es [] (List.append_nil _).symm
  · revert hkept
    decide +kernel
  · intro u hu
    have hrow : u ∈ [alice] := Table.lookup_mem (getCurrentUser_user hu)
    rw [List.mem_singleton.1 hrow]

end NoProof

end PiHerder.Auth
