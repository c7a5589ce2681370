import PiHerder.Auth.Factors

/-!
# Changing a password

The reset link, the account page, the forced change after an admin's reset, the admin's reset itself and the
password set by an account that had none.

| here | there |
| --- | --- |
| `validatePassword` | `services/password_policy.py:172` |
| `bumpSessionVersion`, `adminResetPassword`, `adminSignOutSessions` | `services/user_admin.py:28`–`90` |
| `createResetToken`, `consumeToken` | `services/password_reset.py:50`, `:95` |
| `resetPasswordSubmit`, `changePassword`, `forcePasswordSubmit` | `routers/auth.py:302`, `:1107`, `:1666` |
| `passwordSet` | `routers/auth_oidc.py:528` |

The routes of a signed-in user get that user from `getCurrentUser`.
-/
namespace PiHerder.Auth
open Lib Lib.Str

variable (k : Crypto) (p : Policy) (now : Nat)

/-- The password policy after `clamp_policy`. -/
structure PasswordPolicy where
  minLength : Nat := 10
  maxLength : Nat := 72
  requireUpper : Bool := true
  requireLower : Bool := true
  requireDigit : Bool := true
  requireSpecial : Bool := false
deriving DecidableEq, Repr

def isUpper (c : Char) : Bool := decide ('A' ≤ c ∧ c ≤ 'Z')
def isLower (c : Char) : Bool := decide ('a' ≤ c ∧ c ≤ 'z')

def validatePassword (pw : PasswordPolicy) (password : Str) : Bool :=
  decide ((password.map Char.utf8Size).sum ≤ pw.maxLength) && decide (pw.minLength ≤ password.length) &&
    (!pw.requireUpper || password.any isUpper) && (!pw.requireLower || password.any isLower) &&
    (!pw.requireDigit || password.any isDigit) &&
    (!pw.requireSpecial || password.any fun c => !(isUpper c || isLower c || isDigit c))

/-! ## Helpers -/

def bumpSessionVersion (u : User) : User := { u with sessionVersion := u.sessionVersion + 1 }

def revokeAllTrustedDevices (db : Db) (userId : Nat) : Db :=
  { db with trustedDevices := db.trustedDevices.filter fun d => d.userId != userId }

/-- `clear_user_2fa`: secret, backup codes and passkeys go. -/
def clearUser2fa (db : Db) (userId : Nat) : Db :=
  let db := db.setUser userId fun u => { u with totpEnabled := false, totpSecretEncrypted := none }
  { db with
    backupCodes := db.backupCodes.filter fun r => r.userId != userId
    passkeys := db.passkeys.filter fun r => r.userId != userId }

def adminResetPassword (db : Db) (userId : Nat) (password : Str) (clear2fa : Bool) (salt : Nat) : Db :=
  let db := db.setUser userId fun u => { u with hashedPassword := getPasswordHash k password salt, mustChangePassword := true }
  let db := if clear2fa then clearUser2fa db userId else db
  (revokeAllTrustedDevices db userId).setUser userId bumpSessionVersion

def adminSignOutSessions (db : Db) (userId : Nat) : Db :=
  (revokeAllTrustedDevices db userId).setUser userId bumpSessionVersion

/-! ## Reset links -/

/-- `while len(open_rows) >= MAX_OPEN_PER_USER`: the oldest open rows of the user go, until two are left. -/
def dropOldest : Nat → List PasswordResetToken → List PasswordResetToken
  | 0, rows => rows
  | n + 1, rows => match rows with
    | [] => []
    | r :: rs =>
      if 3 ≤ rows.length then
        let oldest := rs.foldl (fun o x => if x.createdAt < o.createdAt then x else o) r
        dropOldest n (rows.erase oldest)
      else rows

/-- `create_reset_token`; `raw` is the fresh `token_urlsafe`. The link lives for one hour. -/
def createResetToken (db : Db) (userId : Nat) (raw : Str) : Db :=
  let mine := fun r : PasswordResetToken => r.userId == userId && r.usedAt.isNone
  let open_ := (db.resetTokens.filter mine).filter fun r => decide (now ≤ r.expiresAt)
  let kept := dropOldest open_.length open_
  let rows := (db.resetTokens.filter fun r => !mine r || kept.contains r)
  { db with resetTokens := rows ++ [⟨userId, k.sha256 raw, now, now + 3600000, none⟩] }

/-- The row of a usable link. -/
def usableToken (db : Db) (raw : Str) : Option PasswordResetToken :=
  let t := strip raw
  if t.isEmpty || decide (200 < t.length) then none
  else match db.resetTokens.find? fun r => r.tokenHash == k.sha256 t with
    | some row => if row.usedAt.isSome || decide (row.expiresAt < now) then none else some row
    | none => none

/-- `consume_token`: the user of the link, which is used up. -/
def consumeToken (db : Db) (raw : Str) : Option (User × Db) :=
  match usableToken k now db raw with
  | none => none
  | some row => match db.user row.userId with
    | none => none
    | some u =>
      if u.isActive then
        some (u, { db with resetTokens := db.resetTokens.map fun r => if r = row then { r with usedAt := some now } else r })
      else none

/-! ## Where a log-in leads -/

/-- The cookies of a browser that a log-in reads: the device cookie that `read_trusted_device_token` finds, and
`ph_mcp_oauth_return`. -/
structure LoginCookies where
  trusted : Option Str := none
  mcpReturn : Option Str := none
deriving DecidableEq, Repr

/-- `mcp_oauth_return_target` (auth.py:405). -/
def mcpOauthReturnTarget (cookie : Option Str) : Option Str :=
  let raw := strip (cookie.getD [])
  if !startsWith (lit "/mcp/oauth/authorize?") raw then none
  else if decide (2000 < raw.length) || raw.contains '\\' || hasInfix (lit "://") raw || startsWith (lit "//") raw then none
  else some raw

/-- `post_login_path` (auth.py:440). -/
def postLoginPath (db : Db) (u : User) (cookies : LoginCookies) : Str :=
  if u.mustChangePassword then lit "/auth/force-password"
  else if force2faApplies k.sha256 now p db u cookies.trusted && !db.userHas2fa u then lit "/auth/force-2fa"
  else (mcpOauthReturnTarget cookies.mcpReturn).getD (lit "/")

/-! ## The routes -/

/-- The redirect that a route answers with, and the session cookie it sets. `changed` is kept beside it: whose
password has been set. -/
structure Reply where
  location : Str
  session : Option Payload := none
  changed : Option Nat := none
deriving DecidableEq, Repr

structure NewPassword where
  newPassword : Str
  confirmPassword : Str
  /-- The salt that bcrypt draws. -/
  salt : Nat := 0
deriving DecidableEq, Repr

def resetPasswordSubmit (pw : PasswordPolicy) (db : Db) (rateOk : Bool) (token : Str) (f : NewPassword) : Reply × Db :=
  if !rateOk then ({ location := lit "/auth/reset-password?token=" ++ token ++ lit "&error=rate" }, db)
  else if f.newPassword ≠ f.confirmPassword then ({ location := lit "/auth/reset-password?token=" ++ token ++ lit "&error=mismatch" }, db)
  else if !validatePassword pw f.newPassword then ({ location := lit "/auth/reset-password?token=" ++ token ++ lit "&error=policy" }, db)
  else match consumeToken k now db token with
    | none => ({ location := lit "/auth/reset-password?error=invalid" }, db)
    | some (u, db) =>
      let db := db.setUser u.id fun u =>
        { u with hashedPassword := getPasswordHash k f.newPassword f.salt, mustChangePassword := false }
      let db := (revokeAllTrustedDevices db u.id).setUser u.id bumpSessionVersion
      ({ location := lit "/auth/login?msg=password_reset", changed := some u.id }, db)

def changePassword (pw : PasswordPolicy) (db : Db) (u : User) (currentPassword : Str) (f : NewPassword) : Reply × Db :=
  if !verifyPassword k currentPassword u.hashedPassword then ({ location := lit "/auth/account?error=bad_password#account-password" }, db)
  else if f.newPassword ≠ f.confirmPassword then ({ location := lit "/auth/account?error=password_mismatch#account-password" }, db)
  else if !validatePassword pw f.newPassword then ({ location := lit "/auth/account?error=password_policy#account-password" }, db)
  else
    let changed := bumpSessionVersion
      { u with hashedPassword := getPasswordHash k f.newPassword f.salt, mustChangePassword := false }
    let db := (revokeAllTrustedDevices db u.id).setUser u.id fun _ => changed
    ({ location := lit "/auth/account?msg=password_changed", session := some (createUserAccessToken p now changed),
       changed := some u.id }, db)

/-- The forced change leaves the session version as it is. -/
def forcePasswordSubmit (pw : PasswordPolicy) (db : Db) (u : User) (cookies : LoginCookies) (f : NewPassword) : Reply × Db :=
  if !u.mustChangePassword then ({ location := postLoginPath k p now db u cookies }, db)
  else if f.newPassword ≠ f.confirmPassword then ({ location := lit "/auth/force-password?error=mismatch" }, db)
  else if !validatePassword pw f.newPassword then ({ location := lit "/auth/force-password?error=policy" }, db)
  else if verifyPassword k f.newPassword u.hashedPassword then ({ location := lit "/auth/force-password?error=same" }, db)
  else
    let changed := { u with hashedPassword := getPasswordHash k f.newPassword f.salt, mustChangePassword := false }
    let db := revokeAllTrustedDevices (db.setUser u.id fun _ => changed) u.id
    ({ location := postLoginPath k p now db changed cookies, session := some (createUserAccessToken p now changed),
       changed := some u.id }, db)

def passwordSet (pw : PasswordPolicy) (db : Db) (u : User) (totpCode : Str) (stepupCookie : Option Payload) (f : NewPassword) :
    Reply × Db :=
  if u.passwordLoginEnabled then ({ location := lit "/auth/account?error=use_change_password#account-password" }, db)
  else if f.newPassword ≠ f.confirmPassword then ({ location := lit "/auth/account?error=password_mismatch#account-password" }, db)
  else if !validatePassword pw f.newPassword then ({ location := lit "/auth/account?error=password_policy#account-password" }, db)
  else
    let step := if db.userHas2fa u then verifyStepup k p now db u { totpCode := some totpCode, stepupCookie := stepupCookie } .account
      else (.ok (), db)
    match step with
    | (.error e, db) => ({ location := lit "/auth/account?error=" ++ e.code ++ lit "#account-password" }, db)
    | (.ok (), db) =>
      let db := db.setUser u.id fun u =>
        { u with hashedPassword := getPasswordHash k f.newPassword f.salt, passwordLoginEnabled := true, mustChangePassword := false }
      let db := (revokeAllTrustedDevices db u.id).setUser u.id bumpSessionVersion
      ({ location := lit "/auth/account?msg=password_set#account-password", changed := some u.id }, db)

end PiHerder.Auth
