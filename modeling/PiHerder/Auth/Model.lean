import PiHerder.Lib.Dict
import PiHerder.Lib.PyStr
import PiHerder.Lib.Table

/-!
# Accounts (`models.py`, `security/auth.py`)

Rows of `models.User` and of the tables that hang on a user, with the columns the sign-in code reads, and the
settings it asks. Times are in milliseconds. Demo mode, a public sandbox with guards of its own, is off.
-/
namespace PiHerder.Auth
open Lib Lib.Str

/-- `normalize_role`: an unknown or empty role is a viewer. -/
inductive Role | viewer | operator | admin
deriving DecidableEq, Repr

/-- `ROLE_RANK` (auth.py:277). -/
def Role.rank : Role → Nat
  | .viewer => 1
  | .operator => 2
  | .admin => 3

structure User where
  id : Nat
  email : Str := []
  hashedPassword : Str := []
  isActive : Bool := true
  role : Role := .admin
  totpSecretEncrypted : Option Str := none
  totpEnabled : Bool := false
  mustChangePassword : Bool := false
  passwordLoginEnabled : Bool := true
  sessionVersion : Int := 0
deriving DecidableEq, Repr

structure BackupCode where
  userId : Nat
  codeHash : Str
  usedAt : Option Nat := none
deriving DecidableEq, Repr

structure TrustedDevice where
  userId : Nat
  tokenHash : Str
  expiresAt : Nat
deriving DecidableEq, Repr

structure Passkey where
  id : Nat
  userId : Nat
  credentialId : Str
  publicKey : Str
  signCount : Nat := 0
deriving DecidableEq, Repr

structure PasswordResetToken where
  userId : Nat
  tokenHash : Str
  createdAt : Nat
  expiresAt : Nat
  usedAt : Option Nat := none
deriving DecidableEq, Repr

structure Db where
  users : List User := []
  backupCodes : List BackupCode := []
  trustedDevices : List TrustedDevice := []
  passkeys : List Passkey := []
  resetTokens : List PasswordResetToken := []
deriving Repr

/-- `session.get(User, id)`. -/
def Db.user (db : Db) (id : Nat) : Option User := Table.lookup User.id id db.users

theorem Db.user_id {db : Db} {id : Nat} {u : User} (h : db.user id = some u) : u.id = id := Table.lookup_key h

/-- A write of the row of one user. -/
def Db.setUser (db : Db) (id : Nat) (f : User → User) : Db :=
  { db with users := db.users.map fun u => if u.id = id then f u else u }

theorem Db.user_setUser {db : Db} {id : Nat} {f : User → User} (hf : ∀ u, u.id = id → (f u).id = id) (i : Nat) :
    (db.setUser id f).user i = (db.user i).map fun u => if u.id = id then f u else u := by
  refine Table.lookup_map (fun u => ?_) i db.users
  by_cases h : u.id = id
  · rw [if_pos h, hf u h, h]
  · rw [if_neg h]

/-- `totp_active` (webauthn_svc.py:39). -/
def User.totpActive (u : User) : Bool := u.totpEnabled && (u.totpSecretEncrypted.any fun s => !s.isEmpty)

def Db.hasPasskeys (db : Db) (id : Nat) : Bool := db.passkeys.any fun p => p.userId == id

/-- `user_has_2fa` (webauthn_svc.py:54), `user_has_second_factor` and `user_requires_2fa_stepup`. -/
def Db.userHas2fa (db : Db) (u : User) : Bool := u.totpActive || db.hasPasskeys u.id

/-! ## Settings -/

/-- Which users must enrol a second factor. -/
inductive ForceScope | off | admins | operators | all
deriving DecidableEq, Repr

/-- `SURFACES` (account_stepup.py:17). -/
inductive Surface | login | account | secrets | console
deriving DecidableEq, Repr

/-- `FACTORS` (account_stepup.py:18). -/
inductive Factor | totp | passkey | backup
deriving DecidableEq, Repr

/-- The settings of `account_stepup.py` and `ssh_console.py`: each field is the value as configured, before
the clamp of its reader. -/
structure Policy where
  accessTokenExpireMinutes : Nat := 10080
  forceScope : ForceScope := .off
  /-- `force_2fa_grace_since` with its days added. -/
  graceUntil : Option Nat := none
  forceTrustedSkipEnroll : Bool := false
  loginTrustedSkip2fa : Bool := true
  stepupAccountMinutes : Int := 5
  stepupSecretsMinutes : Int := 10
  /-- The `factor_{surface}_{factor}` that are set. -/
  factors : Dict (Surface × Factor) Bool := []
  oidcRequireSso : Bool := false
  /-- `oidc_idp_mfa_satisfies_login_2fa` and `oidc_idp_mfa_claim`. -/
  idpMfaSatisfiesLogin : Bool := false
  idpMfaClaim : Str := lit "amr"
  trustedDeviceDays : Nat := 30
  consoleEnabled : Bool := false
  consoleGrantMinutes : Int := 10
  consoleTicketSec : Int := 60
  consoleBindIp : Bool := true
  consoleBindDevice : Bool := true
  consoleRequire2faEveryShell : Bool := false
  consoleRequirePasskey : Bool := false
  consoleAllowBackupCodes : Bool := false
  /-- `console_privileged_role` is "operator", not "admin". -/
  consolePrivilegedOperator : Bool := false
  consoleIdleSec : Int := 900
  consoleMaxSec : Int := 3600
  consoleHoldSec : Int := 0
  consoleMaxPerUser : Int := 4
  consoleMaxGlobal : Int := 20
deriving DecidableEq, Repr

/-- `_as_int` after `int()`. -/
def clamp (lo hi n : Int) : Nat := (max lo (min hi n)).toNat

namespace Policy
variable (p : Policy)

/-- `stepup_minutes("account")`: from 1 to 120. -/
def accountStepupMinutes : Nat := clamp 1 120 p.stepupAccountMinutes
def secretsUnlockMinutes : Nat := clamp 1 120 p.stepupSecretsMinutes
/-- `grant_minutes` (ssh_console.py:388). -/
def grantMinutes : Nat := (max 2 p.consoleGrantMinutes).toNat
/-- `ticket_ttl_sec` (ssh_console.py:324). -/
def ticketTtlSec : Nat := clamp 15 300 p.consoleTicketSec

def idleSec : Nat := clamp 60 28800 p.consoleIdleSec
/-- `max_session_sec`: never below the idle time. -/
def maxSessionSec : Nat := max (clamp 120 43200 p.consoleMaxSec) p.idleSec
/-- `_clamp_hold`: 0 is no limit. -/
def holdSec : Nat := if p.consoleHoldSec ≤ 0 then 0 else clamp 30 3600 p.consoleHoldSec
def maxPerUser : Nat := clamp 1 16 p.consoleMaxPerUser
/-- `max_global`: never below the limit of one user. -/
def maxGlobal : Nat := max (clamp 1 64 p.consoleMaxGlobal) p.maxPerUser

/-- `_DEFAULT_FACTORS` (account_stepup.py:27): backup codes are off for secrets and the console. -/
def defaultFactor : Surface → Factor → Bool
  | .secrets, .backup | .console, .backup => false
  | _, _ => true

/-- `factor_allowed` (account_stepup.py:162). -/
def factorAllowed (s : Surface) (f : Factor) : Bool := (p.factors.get? (s, f)).getD (defaultFactor s f)

end Policy

/-! ## Trusted devices -/

/-- `find_valid_trusted_device` (auth.py:783); `sha256` is the hex digest. -/
def Db.findValidTrustedDevice (sha256 : Str → Str) (now : Nat) (db : Db) (userId : Nat) (raw : Str) : Option TrustedDevice :=
  if raw.isEmpty then none
  else match db.trustedDevices.find? fun d => d.userId == userId && d.tokenHash == sha256 raw with
    | some d => if d.expiresAt < now then none else some d
    | none => none

/-- `force_2fa_applies` (account_stepup.py:117); `trusted` is the device cookie that `read_trusted_device_token`
finds. -/
def force2faApplies (sha256 : Str → Str) (now : Nat) (p : Policy) (db : Db) (u : User) (trusted : Option Str) : Bool :=
  let matchesScope : Bool := match p.forceScope with
    | .off => false
    | .all => true
    | .admins => u.role == .admin
    | .operators => u.role == .admin || u.role == .operator
  let inGrace := p.graceUntil.any fun t => decide (now < t)
  let skipped := p.forceTrustedSkipEnroll &&
    trusted.any fun raw => (db.findValidTrustedDevice sha256 now u.id raw).isSome
  matchesScope && !inGrace && !skipped

end PiHerder.Auth
