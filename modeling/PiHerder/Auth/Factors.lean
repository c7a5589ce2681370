import PiHerder.Auth.Tokens

/-!
# Second factors

TOTP codes, backup codes and passkey assertions, and `verify_stepup`, which asks for one of them before an
account is changed. The primitives of the libraries (bcrypt, pyotp, webauthn, Fernet) are parameters.

| here | there |
| --- | --- |
| `verifyTotpCode`, `consumeBackupCode` | `security/auth.py:700`, `:724` |
| `verifyAuthentication` | `services/webauthn_svc.py:440` |
| `verifyStepup` | `services/account_stepup.py:234` |
-/
namespace PiHerder.Auth
open Lib Lib.Str

/-- The credential object that a browser sends back; `response` is the part that only the library reads. -/
structure Assertion where
  id : Option Str
  rawId : Option Str
  response : Str
deriving DecidableEq, Repr

structure Crypto extends Codec where
  /-- bcrypt: `verify(plain, hashed)`, and the hash with some salt. -/
  checkpw : Str → Str → Bool
  hashpw : Str → Nat → Str
  /-- Fernet; decrypting may fail. -/
  encrypt : Str → Str
  decrypt : Str → Option Str
  /-- `pyotp.TOTP(secret).at` of a time step. -/
  totpAt : Str → Nat → Str
  b64urlEncodeText : Str → Str
  /-- `verify_authentication_response`: the new sign count, when the response answers this challenge under
  this public key and current sign count. -/
  verifyAssertion : List Nat → Assertion → Str → Nat → Option Nat
  /-- `verify_registration_response`: the new credential's id and public key, as base64url texts, and its sign count. -/
  verifyRegistration : List Nat → Assertion → Option (Str × Str × Nat)

/-- Nothing is hashed or encrypted, and a TOTP code is the secret followed by its time step. -/
def clearText : Crypto where
  sha256 := id
  b64urlDecode s := some (s.map Char.toNat)
  checkpw plain hashed := plain == hashed
  hashpw plain _ := plain
  encrypt := id
  decrypt := some
  totpAt secret step := secret ++ ofNat step
  b64urlEncodeText := id
  verifyAssertion challenge a publicKey count :=
    if a.response = publicKey ++ challenge.map Char.ofNat then some count else none
  verifyRegistration challenge a :=
    if a.response = challenge.map Char.ofNat then a.id.map fun i => (i, i, 0) else none

variable (k : Crypto) (p : Policy) (now : Nat)

/-- `encode("utf-8")[:72].decode(errors="ignore")`: what bcrypt gets to see. -/
def first72Bytes : Nat → Str → Str
  | _, [] => []
  | used, c :: cs => if used + c.utf8Size ≤ 72 then c :: first72Bytes (used + c.utf8Size) cs else []

def verifyPassword (plain hashed : Str) : Bool := k.checkpw (first72Bytes 0 plain) hashed

def getPasswordHash (plain : Str) (salt : Nat) : Str := k.hashpw (first72Bytes 0 plain) salt

/-- `timecode`: steps of thirty seconds. -/
def totpStep : Nat := now / 30000

/-- `verify_totp_code`, with `valid_window=1`. -/
def verifyTotpCode (secret code : Str) : Bool :=
  let code := (strip code).filter (· != ' ')
  !code.isEmpty &&
    (code == k.totpAt secret (totpStep now - 1) || code == k.totpAt secret (totpStep now) ||
      code == k.totpAt secret (totpStep now + 1))

def hashBackupCode (code : Str) : Str := k.sha256 (upper (strip code))

/-- `consume_backup_code`: the first unused row with this hash is marked. -/
def useFirst (userId : Nat) (hash : Str) : List BackupCode → Option (List BackupCode)
  | [] => none
  | r :: rs =>
    if r.userId = userId ∧ r.codeHash = hash ∧ r.usedAt = none then some ({ r with usedAt := some now } :: rs)
    else (useFirst userId hash rs).map (r :: ·)

def consumeBackupCode (db : Db) (userId : Nat) (code : Str) : Bool × Db :=
  match useFirst now userId (hashBackupCode k code) db.backupCodes with
  | some rows => (true, { db with backupCodes := rows })
  | none => (false, db)

/-! ## Passkeys -/

/-- `list_credentials`: newest first. -/
def Db.listCredentials (db : Db) (userId : Nat) : List Passkey := (db.passkeys.filter fun r => r.userId == userId).reverse

/-- The id as the browser sent it, or encoded again when it does not decode. -/
def credIdB64 (rawId : Str) : Str :=
  if startsWith (lit "http") rawId then rawId
  else if (k.b64urlDecode rawId).isSome then rawId
  else k.b64urlEncodeText rawId

/-- The row of `credential_id == cand`. -/
def Db.credentialRow (db : Db) (userId : Nat) (cand : Str) : Option Passkey :=
  db.passkeys.find? fun r => r.credentialId == cand && r.userId == userId

/-- The last resort of the look-up: the decoded ids are compared until one does not decode. -/
def findDecoded (want : List Nat) : List Passkey → Option Passkey
  | [] => none
  | r :: rs => match k.b64urlDecode r.credentialId with
    | none => none
    | some b => if b = want then some r else findDecoded want rs

/-- Which of the user's passkeys an assertion names. -/
def findCredential (db : Db) (userId : Nat) (a : Assertion) : Option Passkey :=
  let idField := (a.id.filter fun s => !s.isEmpty).orElse fun _ => a.rawId
  let rawId := (a.rawId.filter fun s => !s.isEmpty).orElse fun _ => a.id
  match idField, rawId with
  | some i, some raw =>
    if raw.isEmpty then none
    else
      let known := (db.credentialRow userId i).orElse fun _ =>
        (db.credentialRow userId (rstrip '=' i)).orElse fun _ => db.credentialRow userId (credIdB64 k raw)
      known.orElse fun _ => match k.b64urlDecode i with
        | some want => findDecoded k want (db.listCredentials userId)
        | none => none
  | _, _ => none

/-- `verify_authentication`: the row with its new sign count, and the database that has it. -/
def verifyAuthentication (db : Db) (u : User) (a : Assertion) (challengeToken : Option Payload) : Option (Passkey × Db) :=
  match readChallengeToken k.toCodec now .auth u.id challengeToken with
  | none => none
  | some challenge =>
    if challenge.isEmpty then none
    else match findCredential k db u.id a with
      | none => none
      | some row => match k.verifyAssertion challenge a row.publicKey row.signCount with
        | none => none
        | some newCount =>
          if newCount ≠ 0 ∧ newCount < row.signCount then none
          else
            let row' := { row with signCount := max newCount row.signCount }
            some (row', { db with passkeys := db.passkeys.map fun r => if r.id = row.id then row' else r })

/-! ## Step-up -/

/-- A verified code of a stored secret; one that does not decrypt verifies none. -/
def secretMatches (stored : Option Str) (code : Str) : Bool :=
  match stored with
  | some enc => match k.decrypt enc with
    | some secret => verifyTotpCode k now secret code
    | none => false
  | none => false

def totpMatches (u : User) (code : Str) : Bool := secretMatches k now u.totpSecretEncrypted code

/-- The error codes of `verify_stepup`. -/
inductive StepupError | usePasskey | twofaRequired | badCode | passwordRequired
deriving DecidableEq, Repr

def StepupError.code : StepupError → Str
  | .usePasskey => lit "use_passkey"
  | .twofaRequired => lit "2fa_required"
  | .badCode => lit "2fa_bad_code"
  | .passwordRequired => lit "password_required"

/-- What a form for a guarded action carries, with the cookie of an earlier passkey step-up. -/
structure StepupForm where
  password : Option Str := none
  totpCode : Option Str := none
  stepupCookie : Option Payload := none
deriving Repr

def verifyStepup (db : Db) (u : User) (f : StepupForm) (surf : Surface) : Except StepupError Unit × Db :=
  if db.userHas2fa u then
    if p.factorAllowed surf .passkey && accountStepupActive now u.id f.stepupCookie then (.ok (), db)
    else
      let code := (strip (f.totpCode.getD [])).filter (· != ' ')
      let hasPk := db.hasPasskeys u.id
      if code.isEmpty then
        if p.factorAllowed surf .passkey && hasPk && !(p.factorAllowed surf .totp && u.totpActive) then (.error .usePasskey, db)
        else if p.factorAllowed surf .totp || p.factorAllowed surf .backup then (.error .twofaRequired, db)
        else if p.factorAllowed surf .passkey && hasPk then (.error .usePasskey, db)
        else (.error .twofaRequired, db)
      else if p.factorAllowed surf .totp && u.totpActive && totpMatches k now u code then (.ok (), db)
      else if p.factorAllowed surf .backup then
        match consumeBackupCode k now db u.id code with
        | (true, db) => (.ok (), db)
        | (false, db) => (.error .badCode, db)
      else (.error .badCode, db)
  else if u.passwordLoginEnabled then
    if f.password.any fun pw => !pw.isEmpty && verifyPassword k pw u.hashedPassword then (.ok (), db)
    else (.error .passwordRequired, db)
  else (.ok (), db)

end PiHerder.Auth
