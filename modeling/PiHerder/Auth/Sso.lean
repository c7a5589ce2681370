import PiHerder.Auth.Admins
import PiHerder.Auth.Password
import PiHerder.Lib.JsonValue

/-!
# Single sign-on (`services/oidc_svc.py`, `routers/auth_oidc.py`)

Who an OpenID Connect log-in is: the claims of the identity provider, the identities that users have linked, and the
three ways in which a log-in finds its user.

| here | there |
| --- | --- |
| `normalizeIssuer`                                   | `oidc_svc.py:58` |
| `getIdentityByIssSub`, `getIdentityForUserIssuer`   | `:198`, `:213` |
| `extractGroupValues`, `mapRoleFromClaims`           | `:253`, `:268` |
| `emailFromClaims`, `emailVerifiedOk`, `domainAllowed` | `:538`, `:543`, `:554` |
| `createLink`, `findUserForLogin`, `maybeSyncRole`   | `:566`, `:622`, `:692` |
| `oidcCallback`, `oidcUnlink`, `passwordRemove`      | `routers/auth_oidc.py:265`, `:440`, `:492` |

The claims are a JSON object of any shape. The name and the snapshot that a link keeps for the account page are left
out, and so is what a log-in does once it has its user.
-/
namespace PiHerder.Auth
open Lib Lib.Str

abbrev Claims := Dict Str JsonValue

structure OidcIdentity where
  id : Nat
  userId : Nat
  issuer : Str
  subject : Str
  emailAtLink : Option Str := none
deriving DecidableEq, Repr

structure SsoConfig where
  oidcIssuer : Str
  requireEmailVerified : Bool := true
  autoLinkByEmail : Bool := true
  allowedEmailDomains : Str := []
  roleClaim : Str := lit "groups"
  /-- `_role_map_from_cfg`. -/
  roleMap : Dict Str Role := []
  defaultRole : Role := .viewer
  syncRolesOnLogin : Bool := true

/-- The user and identity rows. -/
structure Directory where
  users : List User := []
  identities : List OidcIdentity := []
deriving Repr

inductive SsoError
  /-- `OidcConfigError`. -/
  | config
  /-- `OidcFlowError`, with its message. -/
  | flow (message : String)
  /-- Another exception. -/
  | other
deriving DecidableEq, Repr

def normalizeIssuer (issuer : Str) : Str := rstrip '/' (strip issuer)

namespace Directory
variable (db : Directory)

def user (id : Nat) : Option User := Table.lookup User.id id db.users

def setUser (id : Nat) (f : User → User) : Directory :=
  { db with users := db.users.map fun u => if u.id = id then f u else u }

def getIdentityByIssSub (issuer subject : Str) : Option OidcIdentity :=
  if (normalizeIssuer issuer).isEmpty || (strip subject).isEmpty then none
  else db.identities.find? fun i => i.issuer == normalizeIssuer issuer && i.subject == strip subject

def getIdentityForUserIssuer (userId : Nat) (issuer : Str) : Option OidcIdentity :=
  db.identities.find? fun i => i.userId == userId && i.issuer == normalizeIssuer issuer

def hasOidcLink (userId : Nat) : Bool := db.identities.any fun i => i.userId == userId

/-- `select(User).where(User.email == email)`. -/
def byEmail (email : Str) : List User := db.users.filter fun u => u.email == email

end Directory

section Claims
variable (repr : JsonValue → Str) (cfg : SsoConfig) (claims : Claims)

/-- `_claim_path_get`. -/
def claimPathGet : List Str → JsonValue → JsonValue
  | [], v => v
  | part :: path, .obj items => match Dict.get? part items with
    | some v => claimPathGet path v
    | none => .null
  | _ :: _, _ => .null

def extractGroupValues : List Str :=
  let claim := strip cfg.roleClaim
  let path := split '.' (if claim.isEmpty then lit "groups" else claim)
  let plain := fun s : Str => if (strip s).isEmpty then [] else [strip s]
  match claimPathGet path (.obj claims) with
  | .null => []
  | .str s => if (strip s).isEmpty then [] else [s]
  | .arr items => items.flatMap fun v => plain (v.text repr)
  | .obj items => items.flatMap fun kv => plain kv.1
  | v => plain (v.text repr)

def mapRoleFromClaims : Role :=
  (extractGroupValues repr cfg claims).foldl (fun best g =>
    match (cfg.roleMap.get? g).or ((cfg.roleMap.find? fun kv => lower kv.1 == lower g).map (·.2)) with
    | some mapped => if best.rank < mapped.rank then mapped else best
    | none => best) cfg.defaultRole

/-- A claim that is there and is no string has no `strip`. -/
def emailFromClaims : Except SsoError (Option Str) :=
  match JsonValue.get claims (lit "email") with
  | .str s => .ok (if (lower (strip s)).isEmpty then none else some (lower (strip s)))
  | v => if v.truthy then .error .other else .ok none

/-- A missing claim is not verified; any other is read as a truth value. -/
def emailVerifiedOk : Bool :=
  !cfg.requireEmailVerified || (JsonValue.get claims (lit "email_verified")).truthy

/-- `domain_allowed`, on a list that `,` and `;` separate. -/
def domainAllowed (email : Option Str) : Bool :=
  let raw := strip cfg.allowedEmailDomains
  if raw.isEmpty then true
  else match email with
    | none => false
    | some email =>
      if !email.contains '@' then false
      else
        let domain := lower ((split '@' email).getLast?.getD [])
        let allowed := ((split ',' (raw.map fun c => if c = ';' then ',' else c)).filter fun d => !(strip d).isEmpty).map
          fun d => lstrip '@' (lower (strip d))
        allowed.contains domain

/-- `str(claims.get("sub") or "").strip()`. -/
def subject : Str :=
  let v := JsonValue.get claims (lit "sub")
  if v.truthy then strip (v.text repr) else []

end Claims

/-- `create_link`. The index on issuer and subject is unique. -/
def createLink (db : Directory) (userId : Nat) (issuer subject : Str) (claims : Claims) : Except SsoError Directory :=
  let iss := normalizeIssuer issuer
  let sub := strip subject
  match db.getIdentityByIssSub iss sub with
  | some existing =>
    if existing.userId ≠ userId then .error (.flow "This SSO identity is already linked to another account") else .ok db
  | none =>
    if (db.getIdentityForUserIssuer userId iss).isSome then
      .error (.flow "This account is already linked to SSO for this provider")
    else match emailFromClaims claims with
      | .error e => .error e
      | .ok email =>
        if db.identities.any fun i => i.issuer == iss && i.subject == sub then .error .other
        else .ok { db with identities := db.identities ++
          [{ id := freshId (db.identities.map (·.id)), userId := userId, issuer := iss, subject := sub, emailAtLink := email }] }

/-- `link_reason`. -/
inductive LinkReason | existing | emailMatch | jit
deriving DecidableEq, Repr

section Login
variable (repr : JsonValue → Str) (cfg : SsoConfig) (claims : Claims)

/-- `find_user_for_login`; `hash` is of a password that nobody knows. The new user of the third way is flushed. -/
def findUserForLogin (db : Directory) (hash : Str) : Except SsoError (Directory × User × LinkReason) :=
  let issuer := normalizeIssuer cfg.oidcIssuer
  let sub := subject repr claims
  if sub.isEmpty then .error (.flow "Missing subject from identity provider")
  else match db.getIdentityByIssSub issuer sub with
    | some ident => match db.user ident.userId with
      | some u => if u.isActive then .ok (db, u, .existing) else .error (.flow "Account is disabled")
      | none => .error (.flow "Account is disabled")
    | none => match emailFromClaims claims with
      | .error e => .error e
      | .ok email =>
        if !domainAllowed cfg email then .error (.flow "Email domain is not allowed for SSO")
        else
          let matches_ : List User := match email with
            | some email => if cfg.autoLinkByEmail && emailVerifiedOk cfg claims then (db.byEmail email).filter (·.isActive) else []
            | none => []
          match matches_ with
          | _ :: _ :: _ => .error (.flow "Multiple accounts share this email; contact an admin")
          | [u] =>
            if (db.getIdentityForUserIssuer u.id issuer).isSome then
              .error (.flow "This account is already linked to a different SSO identity")
            else .ok (db, u, .emailMatch)
          | [] => match email with
            | none => .error (.flow "Identity provider did not return an email address")
            | some email =>
              if !emailVerifiedOk cfg claims then .error (.flow "Email address is not verified at the identity provider")
              else if !(db.byEmail email).isEmpty then
                .error (.flow "An account with this email already exists. Sign in locally and link SSO from Account.")
              else
                let u : User :=
                  { id := freshId (db.users.map User.id), email := email, hashedPassword := hash,
                    role := mapRoleFromClaims repr cfg claims, passwordLoginEnabled := false }
                .ok ({ db with users := db.users ++ [u] }, u, .jit)

/-- `maybe_sync_role`: the sole admin keeps the role. -/
def maybeSyncRole (db : Directory) (u : User) : Directory :=
  let role := mapRoleFromClaims repr cfg claims
  if !cfg.syncRolesOnLogin || role == u.role || (u.role == .admin && role != .admin && isSoleAdmin db.users u) then db
  else db.setUser u.id fun u => { u with role := role }

/-- `claims_from_tokens` refuses claims without a subject, and the exchange before it an empty issuer. -/
def tokensOk : Except SsoError Unit :=
  if (normalizeIssuer (normalizeIssuer cfg.oidcIssuer)).isEmpty then .error .config
  else if !(JsonValue.get claims (lit "sub")).truthy then .error (.flow "Identity provider did not return a subject")
  else .ok ()

/-- `oidc_callback` for a log-in. The audit row of a failure commits what was flushed before it, unless the flush
itself failed. -/
def oidcLogin (db : Directory) (hash : Str) : Except SsoError (User × LinkReason) × Directory :=
  match tokensOk cfg claims with
  | .error e => (.error e, db)
  | .ok () => match findUserForLogin repr cfg claims db hash with
    | .error e => (.error e, db)
    | .ok (found, u, .existing) => (.ok (u, .existing), maybeSyncRole repr cfg claims found u)
    | .ok (found, u, reason) =>
      match createLink found u.id (normalizeIssuer cfg.oidcIssuer) ((JsonValue.get claims (lit "sub")).text repr) claims with
      | .error .other => (.error .other, db)
      | .error e => (.error e, found)
      | .ok linked => (.ok (u, reason), maybeSyncRole repr cfg claims linked u)

/-- `oidc_callback` for an account that links an identity. -/
def oidcLink (db : Directory) (userId : Nat) : Except SsoError Unit × Directory :=
  match tokensOk cfg claims with
  | .error e => (.error e, db)
  | .ok () => match db.user userId with
    | none => (.error (.flow "sso_inactive"), db)
    | some u =>
      if !u.isActive then (.error (.flow "sso_inactive"), db)
      else match createLink db u.id (normalizeIssuer cfg.oidcIssuer) ((JsonValue.get claims (lit "sub")).text repr) claims with
        | .error e => (.error e, db)
        | .ok db => (.ok (), db)

end Login

section Account
variable (k : Crypto) (pw : PasswordPolicy)

/-- `oidc_unlink` of a signed-in user; `stepUp` is the answer of `verify_stepup_2fa`. -/
def oidcUnlink (db : Directory) (userId identityId : Nat) (stepUp : Bool) (f : NewPassword) : Directory :=
  let unlink := fun db : Directory => { db with identities := db.identities.filter fun i => i.id != identityId }
  match db.user userId, db.identities.find? fun i => i.id == identityId with
  | some u, some row =>
    if !u.isActive || row.userId ≠ u.id || !stepUp then db
    else if u.passwordLoginEnabled then unlink db
    else if f.newPassword.isEmpty || f.newPassword ≠ f.confirmPassword then db
    else if !validatePassword pw f.newPassword then db
    else unlink (db.setUser u.id fun u =>
      { u with hashedPassword := getPasswordHash k f.newPassword f.salt, passwordLoginEnabled := true, mustChangePassword := false })
  | _, _ => db

/-- `password_remove` of a signed-in user; `hash` is of a password that nobody knows. -/
def passwordRemove (db : Directory) (userId : Nat) (stepUp : Bool) (hash : Str) : Directory :=
  match db.user userId with
  | some u =>
    if !u.isActive || !db.hasOidcLink u.id || !u.passwordLoginEnabled || !stepUp then db
    else db.setUser u.id fun u => { u with hashedPassword := hash, passwordLoginEnabled := false }
  | none => db

end Account

/-! ## What each does -/

/-- The columns by which a user signs in. -/
def User.account (u : User) : Nat × Str × Bool × Bool := (u.id, u.email, u.isActive, u.passwordLoginEnabled)

section Effects
variable {repr : JsonValue → Str} {cfg : SsoConfig} {claims : Claims} {db db' : Directory} {hash : Str} {u : User} {reason : LinkReason}

theorem findUserForLogin_ok (h : findUserForLogin repr cfg claims db hash = .ok (db', u, reason)) :
    (subject repr claims).isEmpty = false ∧
      ((reason = .existing ∧ db' = db ∧ ∃ i, db.getIdentityByIssSub (normalizeIssuer cfg.oidcIssuer) (subject repr claims) = some i ∧
          db.user i.userId = some u ∧ u.isActive = true) ∨
        (db.getIdentityByIssSub (normalizeIssuer cfg.oidcIssuer) (subject repr claims) = none ∧
          ∃ email, emailFromClaims claims = .ok (some email) ∧ domainAllowed cfg (some email) = true ∧ emailVerifiedOk cfg claims = true ∧
            ((reason = .emailMatch ∧ db' = db ∧ cfg.autoLinkByEmail = true ∧ (db.byEmail email).filter (·.isActive) = [u] ∧
                db.getIdentityForUserIssuer u.id (normalizeIssuer cfg.oidcIssuer) = none) ∨
              (reason = .jit ∧ db' = { db with users := db.users ++ [u] } ∧ db.byEmail email = [] ∧ u.id = freshId (db.users.map User.id) ∧
                u.email = email ∧ u.isActive = true ∧ u.passwordLoginEnabled = false)))) := by
  unfold findUserForLogin at h
  simp only at h
  split at h
  · cases h
  rename_i hsub
  refine ⟨Bool.eq_false_iff.2 hsub, ?_⟩
  split at h
  · rename_i i hident
    split at h
    · rename_i v hv
      split at h
      · rename_i hactive
        cases h
        exact Or.inl ⟨rfl, rfl, i, hident, hv, hactive⟩
      · cases h
    · cases h
  rename_i hnone
  refine Or.inr ⟨hnone, ?_⟩
  split at h
  · cases h
  rename_i email hemail
  split at h
  · cases h
  rename_i hdomain
  rw [Bool.not_eq_true, Bool.not_eq_false'] at hdomain
  cases email with
  | none =>
    simp only at h
    cases h
  | some email =>
    refine ⟨email, hemail, hdomain, ?_⟩
    simp only at h
    split at h
    · cases h
    · rename_i v hmatch
      split at h
      · cases h
      · rename_i hother
        cases h
        by_cases hauto : (cfg.autoLinkByEmail && emailVerifiedOk cfg claims) = true
        · rw [if_pos hauto] at hmatch
          obtain ⟨hauto, hverified⟩ := Bool.and_eq_true_iff.1 hauto
          exact ⟨hverified, Or.inl ⟨rfl, rfl, hauto, hmatch, by simpa using hother⟩⟩
        · rw [if_neg hauto] at hmatch
          cases hmatch
    · split at h
      · cases h
      · rename_i hverified
        split at h
        · cases h
        · rename_i htaken
          cases h
          exact ⟨by simpa using hverified, Or.inr ⟨rfl, rfl, by simpa using htaken, rfl, rfl, rfl, rfl⟩⟩

/-- A link that is made: the user has it already, or it is the user's first of this issuer and nobody's of this
subject. -/
theorem createLink_ok {userId : Nat} {issuer sub : Str} (h : createLink db userId issuer sub claims = .ok db') :
    (db' = db ∧ ∃ i, db.getIdentityByIssSub (normalizeIssuer issuer) (strip sub) = some i ∧ i.userId = userId) ∨
      (db.getIdentityForUserIssuer userId (normalizeIssuer issuer) = none ∧
        (∀ i ∈ db.identities, i.issuer = normalizeIssuer issuer → i.subject ≠ strip sub) ∧
        ∃ email, db' = { db with identities := db.identities ++ [⟨freshId (db.identities.map (·.id)), userId, normalizeIssuer issuer, strip sub, email⟩] }) := by
  unfold createLink at h
  simp only at h
  split at h
  · rename_i i hident
    split at h
    · cases h
    · rename_i hsame
      cases h
      exact Or.inl ⟨rfl, i, hident, not_not.1 hsame⟩
  · split at h
    · cases h
    rename_i hother
    split at h
    · cases h
    rename_i email _
    split at h
    · cases h
    · rename_i hfree
      cases h
      refine Or.inr ⟨by simpa using hother, fun i hi hiss hsub => hfree ?_, email, rfl⟩
      rw [List.any_eq_true]
      exact ⟨i, hi, by simp [hiss, hsub]⟩

theorem setUser_account {id : Nat} {f : User → User} (hf : ∀ u, (f u).account = u.account) :
    (db.setUser id f).users.map User.account = db.users.map User.account := by
  simp only [Directory.setUser, List.map_map]
  refine List.map_congr_left fun u _ => ?_
  simp only [Function.comp_apply]
  split
  · exact hf u
  · rfl

theorem maybeSyncRole_account : (maybeSyncRole repr cfg claims db u).users.map User.account = db.users.map User.account ∧
    (maybeSyncRole repr cfg claims db u).identities = db.identities := by
  unfold maybeSyncRole
  simp only
  split
  · exact ⟨rfl, rfl⟩
  · exact ⟨setUser_account fun _ => rfl, rfl⟩

/-- A new user of a log-in: the address is the claim's, and nobody had it. -/
structure Provisioned (claims : Claims) (db : Directory) (u : User) : Prop where
  email : emailFromClaims claims = .ok (some u.email)
  free : db.byEmail u.email = []
  id : u.id = freshId (db.users.map User.id)
  active : u.isActive = true

/-- **What a log-in does to the users**: it adds one at most, and changes no column by which they sign in. -/
theorem oidcLogin_users (repr : JsonValue → Str) (cfg : SsoConfig) (claims : Claims) (db : Directory) (hash : Str) :
    ∃ added, (oidcLogin repr cfg claims db hash).2.users.map User.account = (db.users ++ added).map User.account ∧
      (added = [] ∨ ∃ u, added = [u] ∧ Provisioned claims db u) := by
  unfold oidcLogin
  split
  · exact ⟨[], by simp, Or.inl rfl⟩
  split
  · exact ⟨[], by simp, Or.inl rfl⟩
  · rename_i found u hfound
    obtain ⟨-, ⟨-, rfl, -⟩ | ⟨-, email, -, -, -, ⟨h, -⟩ | ⟨h, -⟩⟩⟩ := findUserForLogin_ok hfound
    · exact ⟨[], by rw [List.append_nil]; exact maybeSyncRole_account.1, Or.inl rfl⟩
    · cases h
    · cases h
  · rename_i found u reason hreason hfound
    -- the users as the search leaves them
    have hadded : ∃ added, found.users = db.users ++ added ∧ (added = [] ∨ ∃ u, added = [u] ∧ Provisioned claims db u) := by
      obtain ⟨-, ⟨-, rfl, -⟩ | ⟨-, email, hemail, -, -, ⟨-, rfl, -⟩ | ⟨-, rfl, hfree, hid, rfl, hactive, -⟩⟩⟩ := findUserForLogin_ok hfound
      · exact ⟨[], (List.append_nil _).symm, Or.inl rfl⟩
      · exact ⟨[], (List.append_nil _).symm, Or.inl rfl⟩
      · exact ⟨[u], rfl, Or.inr ⟨u, rfl, hemail, hfree, hid, hactive⟩⟩
    obtain ⟨added, heq, hadded⟩ := hadded
    split
    · exact ⟨[], by simp, Or.inl rfl⟩
    · exact ⟨added, by rw [heq], hadded⟩
    · rename_i linked hlink
      refine ⟨added, ?_, hadded⟩
      rw [maybeSyncRole_account.1, ← heq]
      rcases createLink_ok hlink with ⟨rfl, -⟩ | ⟨-, -, email, rfl⟩ <;> rfl

end Effects

end PiHerder.Auth
