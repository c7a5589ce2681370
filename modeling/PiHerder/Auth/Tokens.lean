import PiHerder.Auth.Model

/-!
# Signed tokens and who accepts them

Every token is a JWT signed with the one `SECRET_KEY`. A token is here the dictionary of its claims, so a
bearer cannot alter it; `decodeTokenPayload` fails on an expired one.

| here | there |
| --- | --- |
| `createAccessToken`, `decodeTokenPayload` | `security/auth.py:158`, `:248` |
| `createUserAccessToken`, `createPending2faToken`, `createSecretsUnlockToken`, `createAccountStepupToken` | `security/auth.py:179`–`232` |
| `mintChallengeToken`, `readChallengeToken` | `services/webauthn_svc.py:222`, `:235` |
| `mintTicket`, `mintStepupProof`, `mintGrant`, and their checks | `services/ssh_console.py:842`–`1023`, `:1080` |
| `setBackupCodesFlash`, `readBackupCodesFlash` | `routers/auth.py:81`, `:94` |
| `setLinkOkCookie`, `linkOkValid` | `routers/auth_oidc.py:85`, `:97` |
| `getCurrentUser` | `security/auth.py:536` |

`consume_ticket` and `consume_stepup_proof` use up the `jti` that their checks return. Fixed inputs of the
functions, such as the cookie's name, are left out.
-/
namespace PiHerder.Auth
open Lib Lib.Str

/-- The names of the claims. -/
inductive Claim
  | sub | sv | exp | twofaPending | secretsUnlock | accountStepup | waChal | waKind | chal
  | console | sid | jti | iid | role | why | n | iph | did | consoleStepup | consoleGrant | fleet | lastSid
  | bc | backupCodes | oidcLink
deriving DecidableEq, Repr

inductive Json
  | bool (b : Bool)
  | num (n : Int)
  | str (s : Str)
  | strs (l : List Str)
deriving DecidableEq, Repr

abbrev Payload := Dict Claim Json

/-- `bool(payload.get(k))`. -/
def truthy : Option Json → Bool
  | none => false
  | some (.bool b) => b
  | some (.num n) => decide (n ≠ 0)
  | some (.str s) => !s.isEmpty
  | some (.strs l) => !l.isEmpty

/-- `int(x)`; the texts that the tokens carry are made of digits. -/
def pyInt : Option Json → Option Int
  | some (.bool b) => some (if b then 1 else 0)
  | some (.num n) => some n
  | some (.str s) => if isdigit s then some (int s) else none
  | _ => none

/-- `int(payload.get("sv", 0) or 0)`. -/
def payloadSv (p : Payload) : Option Int :=
  if truthy (p.get? .sv) then pyInt (p.get? .sv) else some 0

/-- `if b: payload[k] = v`. -/
def claimIf (b : Bool) (k : Claim) (v : Json) : Payload := if b then [(k, v)] else []

theorem get?_claimIf (b : Bool) (k k' : Claim) (v : Json) :
    Dict.get? k' (claimIf b k v) = if k' = k ∧ b = true then some v else none := by
  cases b <;> simp [claimIf, Dict.get?]

/-- What the code computes with the standard library's hashes and encodings. -/
structure Codec where
  sha256 : Str → Str
  b64urlDecode : Str → Option (List Nat)

section Minters
variable (c : Codec) (p : Policy) (now : Nat)

/-- `expires_delta or timedelta(minutes=ACCESS_TOKEN_EXPIRE_MINUTES)`, then `exp` in whole seconds. -/
def createAccessToken (data : Payload) (expiresSec : Option Nat) : Payload :=
  let life := match expiresSec with
    | some (k + 1) => k + 1
    | _ => 60 * p.accessTokenExpireMinutes
  data.set .exp (.num (now / 1000 + life : Nat))

def decodeTokenPayload (t : Payload) : Option Payload :=
  match t.get? .exp with
  | some (.num e) => if (now : Int) < 1000 * e then some t else none
  | _ => some t

def createUserAccessToken (u : User) : Payload :=
  createAccessToken p now [(.sub, .str (ofNat u.id)), (.sv, .num u.sessionVersion)] none

/-- `PENDING_2FA_MINUTES = 10`. -/
def createPending2faToken (userId : Nat) : Payload :=
  createAccessToken p now [(.sub, .str (ofNat userId)), (.twofaPending, .bool true)] (some 600)

def createSecretsUnlockToken (userId : Nat) : Payload :=
  createAccessToken p now [(.sub, .str (ofNat userId)), (.secretsUnlock, .bool true)] (some (60 * p.secretsUnlockMinutes))

def createAccountStepupToken (userId : Nat) : Payload :=
  createAccessToken p now [(.sub, .str (ofNat userId)), (.accountStepup, .bool true)] (some (60 * p.accountStepupMinutes))

inductive ChallengeKind | reg | auth
deriving DecidableEq, Repr

def ChallengeKind.text : ChallengeKind → Str
  | .reg => lit "reg"
  | .auth => lit "auth"

/-- `CHALLENGE_MINUTES = 5`. -/
def mintChallengeToken (kind : ChallengeKind) (userId : Nat) (challengeB64 : Str) : Payload :=
  createAccessToken p now
    [(.waChal, .bool true), (.waKind, .str kind.text), (.sub, .str (ofNat userId)), (.chal, .str challengeB64)] (some 300)

/-- `BACKUP_CODES_FLASH_MINUTES = 5`. -/
def setBackupCodesFlash (userId : Nat) (codes : List Str) : Payload :=
  createAccessToken p now [(.sub, .str (ofNat userId)), (.bc, .bool true), (.backupCodes, .strs codes)] (some 300)

def setLinkOkCookie (userId : Nat) : Payload :=
  createAccessToken p now [(.sub, .str (ofNat userId)), (.oidcLink, .bool true)] (some 120)

/-- `_hash_binding` (ssh_console.py:824). -/
def hashBinding (value : Str) : Str := (c.sha256 (strip value)).take 32

/-- `normalize_ip`: without the IPv6 zone. -/
def normalizeIp (ip : Option Str) : Str := (strip (ip.getD [])).takeWhile (· != '%')

/-- Where a request comes from. -/
structure Origin where
  clientIp : Option Str := none
  deviceId : Option Str := none
deriving DecidableEq, Repr

/-- The claims that bind a console token to an address and a browser. -/
def bindingClaims (o : Origin) : Payload :=
  claimIf (p.consoleBindIp && o.clientIp.any fun ip => !ip.isEmpty) .iph (.str (hashBinding c (normalizeIp o.clientIp))) ++
  claimIf (p.consoleBindDevice && o.deviceId.any fun d => !d.isEmpty) .did (.str (hashBinding c (o.deviceId.getD [])))

structure TicketRequest where
  userId : Nat
  serverId : Int
  sessionVersion : Int := 0
  origin : Origin := {}
  identityId : Option Int := none
  identityRole : Option Str := none
  reason : Option Str := none
  tab : Int := 0
  /-- `secrets.token_urlsafe(16)`. -/
  jti : Str
deriving DecidableEq, Repr

def mintTicket (r : TicketRequest) : Payload :=
  let role := lower (strip (r.identityRole.getD []))
  let why := (strip (r.reason.getD [])).take 200
  createAccessToken p now
    ([(.console, .bool true), (.sub, .str (ofNat r.userId)), (.sid, .num r.serverId), (.sv, .num r.sessionVersion),
        (.jti, .str r.jti)] ++
      claimIf (r.identityId.any fun i => i != 0) .iid (.num (r.identityId.getD 0)) ++
      claimIf (role == lit "fleet" || role == lit "privileged") .role (.str role) ++
      claimIf (!why.isEmpty) .why (.str why) ++
      [(.n, .num (max 0 (min r.tab 99)))] ++
      bindingClaims c p r.origin)
    (some p.ticketTtlSec)

/-- `STEPUP_SEC = 90`. -/
def mintStepupProof (userId : Nat) (sessionVersion : Int) (o : Origin) (jti : Str) : Payload :=
  createAccessToken p now
    ([(.consoleStepup, .bool true), (.sub, .str (ofNat userId)), (.sv, .num sessionVersion), (.jti, .str jti)] ++
      bindingClaims c p o)
    (some 90)

def mintGrant (userId : Nat) (serverId : Int) (sessionVersion : Int) (o : Origin) : Payload :=
  createAccessToken p now
    ([(.consoleGrant, .bool true), (.fleet, .num 1), (.sub, .str (ofNat userId)), (.sv, .num sessionVersion)] ++
      claimIf (serverId != 0) .lastSid (.num serverId) ++ bindingClaims c p o)
    (some (60 * p.grantMinutes))

end Minters

/-! ## The checks -/

section Checks
variable (c : Codec) (p : Policy) (now : Nat)

/-- A token that carries this flag and names this user: the check of the four plain kinds. -/
def flaggedFor (flag : Claim) (userId : Nat) (raw : Option Payload) : Option Payload :=
  match raw.bind (decodeTokenPayload now) with
  | some t => if truthy (t.get? flag) ∧ pyInt (t.get? .sub) = some (userId : Int) then some t else none
  | none => none

def secretsUnlockActive (userId : Nat) (raw : Option Payload) : Bool := (flaggedFor now .secretsUnlock userId raw).isSome

def accountStepupActive (userId : Nat) (raw : Option Payload) : Bool := (flaggedFor now .accountStepup userId raw).isSome

def linkOkValid (userId : Nat) (raw : Option Payload) : Bool := (flaggedFor now .oidcLink userId raw).isSome

/-- `_read_backup_codes_flash`: at most twenty codes, and none when there is none. -/
def readBackupCodesFlash (userId : Nat) (raw : Option Payload) : Option (List Str) :=
  match flaggedFor now .bc userId raw with
  | some t =>
    let codes := match t.get? .backupCodes with
      | some (.strs l) => l
      | some (.str s) => ((split ',' s).map strip).filter fun s => !s.isEmpty
      | _ => []
    let out := ((codes.map strip).filter fun s => !s.isEmpty).take 20
    if out.isEmpty then none else some out
  | none => none

/-- `_pending_2fa_user` (routers/auth.py:469). -/
def pending2faUser (db : Db) (raw : Option Payload) : Option User :=
  match raw.bind (decodeTokenPayload now) with
  | some t =>
    if truthy (t.get? .twofaPending) then
      match pyInt (t.get? .sub) with
      | some i => if i < 0 then none else db.user i.toNat
      | none => none
    else none
  | none => none

def readChallengeToken (kind : ChallengeKind) (userId : Nat) (raw : Option Payload) : Option (List Nat) :=
  match flaggedFor now .waChal userId raw with
  | some t =>
    if t.get? .waKind = some (.str kind.text) then
      match t.get? .chal with
      | some (.str chal) => if chal.isEmpty then none else c.b64urlDecode chal
      | _ => none
    else none
  | none => none

/-- `binding_still_valid`: address and browser are those of the token, where it names them. -/
def bindingHolds (o : Origin) (t : Payload) : Bool :=
  (!(p.consoleBindIp && truthy (t.get? .iph)) || t.get? .iph == some (.str (hashBinding c (normalizeIp o.clientIp)))) &&
  (!(p.consoleBindDevice && truthy (t.get? .did)) || t.get? .did == some (.str (hashBinding c (o.deviceId.getD []))))

/-- Who calls a console check. -/
structure Caller where
  userId : Nat
  sessionVersion : Int
  origin : Origin := {}
deriving DecidableEq, Repr

/-- The part that `grant_valid` and `consume_stepup_proof` share. -/
def consoleTokenFor (flag : Claim) (who : Caller) (raw : Option Payload) : Option Payload :=
  match flaggedFor now flag who.userId raw with
  | some t => if payloadSv t = some who.sessionVersion ∧ bindingHolds c p who.origin t = true then some t else none
  | none => none

def grantValid (who : Caller) (raw : Option Payload) : Bool :=
  !p.consoleRequire2faEveryShell && (consoleTokenFor c p now .consoleGrant who raw).isSome

/-- `str(payload.get("jti") or "")`, of the texts that the minters write. -/
def payloadJti (t : Payload) : Str :=
  match t.get? .jti with
  | some (.str s) => s
  | _ => []

/-- `consume_stepup_proof` up to the single use. -/
def checkStepupProof (who : Caller) (raw : Option Payload) : Option Str :=
  match consoleTokenFor c p now .consoleStepup who raw with
  | some t => if (payloadJti t).isEmpty then none else some (lit "stepup:" ++ payloadJti t)
  | none => none

/-- The texts of `ConsoleDenied`. -/
inductive TicketError
  | disabled | invalidOrExpired | invalid | otherSession | sessionChanged | otherAddress | otherDevice | alreadyUsed
deriving DecidableEq, Repr

/-- `consume_ticket` up to the single use. -/
def checkTicket (who : Caller) (serverId : Int) (raw : Payload) : Except TicketError (Payload × Str) :=
  if !p.consoleEnabled then .error .disabled
  else match decodeTokenPayload now raw with
    | none => .error .invalidOrExpired
    | some t =>
      if !truthy (t.get? .console) then .error .invalidOrExpired
      else match pyInt (t.get? .sub), pyInt (t.get? .sid), payloadSv t with
        | some tid, some sid, some tsv =>
          if tid ≠ (who.userId : Int) ∨ sid ≠ serverId then .error .otherSession
          else if tsv ≠ who.sessionVersion then .error .sessionChanged
          else if (p.consoleBindIp && truthy (t.get? .iph)) = true ∧
              t.get? .iph ≠ some (.str (hashBinding c (normalizeIp who.origin.clientIp))) then .error .otherAddress
          else if (p.consoleBindDevice && truthy (t.get? .did)) = true ∧
              t.get? .did ≠ some (.str (hashBinding c (who.origin.deviceId.getD []))) then .error .otherDevice
          else if (payloadJti t).isEmpty then .error .invalid
          else .ok (t, payloadJti t)
        | _, _, _ => .error .invalid

end Checks

/-! ## The session -/

/-- What of a request `get_current_user` reads; `token` is what `_extract_token` finds, in the header or in
the cookie `access_token`. -/
structure Request where
  token : Option Payload
  path : Str
  method : Str
  trusted : Option Str := none
deriving Repr

inductive Refusal
  | loginRequired
  | onboarding (location : Str)
  | forbidden (detail : Str)
deriving DecidableEq, Repr

/-- `_path_allowed`; its tests with a slash added are cases of the plain one. -/
def pathAllowed (path : Str) (allowed : List Str) : Bool := allowed.any fun a => startsWith a path

/-- `_FORCE_PASSWORD_ALLOW` (auth.py:315). -/
def forcePasswordAllow : List Str :=
  [lit "/auth/force-password", lit "/auth/logout", lit "/auth/login", lit "/static", lit "/favicon.ico", lit "/sw.js",
    lit "/manifest.webmanifest", lit "/health"]

/-- `_FORCE_2FA_ALLOW` (auth.py:326). -/
def force2faAllow : List Str :=
  [lit "/auth/force-2fa", lit "/auth/account", lit "/auth/logout", lit "/auth/login", lit "/auth/me/", lit "/static",
    lit "/favicon.ico", lit "/health"]

/-- `_VIEWER_WRITE_PREFIXES` (auth.py:280). -/
def viewerWriteAllow : List Str :=
  [lit "/auth/logout", lit "/auth/account", lit "/auth/2fa", lit "/auth/force-password", lit "/auth/force-2fa",
    lit "/auth/me/", lit "/notifications/", lit "/api/push", lit "/reports/layout"]

/-- `_ADMIN_ONLY_PREFIXES` (auth.py:292). -/
def adminOnly : List Str :=
  [lit "/auth/users", lit "/herder-backups/run", lit "/herder-backups/restore", lit "/herder-backups/download",
    lit "/herder-backups/config", lit "/herder-backups/security", lit "/herder-backups/console",
    lit "/herder-backups/files", lit "/herder-backups/update-checks", lit "/herder-backups/timezone",
    lit "/herder-backups/delete", lit "/herder-backups/api-tokens", lit "/herder-backups/status"]

section Session
variable (c : Codec) (p : Policy) (now : Nat) (db : Db)

/-- `get_current_user` up to the session-version check: whose session the token is. -/
def sessionUser (token : Option Payload) : Option User :=
  match token.bind (decodeTokenPayload now) with
  | none => none
  | some t =>
    if truthy (t.get? .twofaPending) then none
    else match pyInt (t.get? .sub) with
      | none => none
      | some i =>
        if i < 0 then none
        else match db.user i.toNat with
          | none => none
          | some u =>
            if !u.isActive then none
            else if (payloadSv t).getD 0 ≠ u.sessionVersion then none
            else some u

/-- What is asked of a session before it may go on. -/
def gates (r : Request) (u : User) : Except Refusal Unit :=
  if u.mustChangePassword && !pathAllowed r.path forcePasswordAllow then .error (.onboarding (lit "/auth/force-password"))
  else if !u.mustChangePassword && force2faApplies c.sha256 now p db u r.trusted && !db.userHas2fa u &&
      !pathAllowed r.path force2faAllow then .error (.onboarding (lit "/auth/force-2fa"))
  else if r.method ∈ [lit "POST", lit "PUT", lit "PATCH", lit "DELETE"] then
    if (hasInfix (lit "/npm/proxy-hosts") r.path || pathAllowed r.path adminOnly) && u.role != .admin then
      .error (.forbidden (lit "Admin role required"))
    else if u.role == .viewer && !pathAllowed r.path viewerWriteAllow then
      .error (.forbidden (lit "Read-only account — operator or admin required for this action"))
    else .ok ()
  else .ok ()

def getCurrentUser (r : Request) : Except Refusal User :=
  match sessionUser now db r.token with
  | none => .error .loginRequired
  | some u => match gates c p now db r u with
    | .error e => .error e
    | .ok () => .ok u

/-- Only the token decides whether a log-in is asked for. -/
theorem getCurrentUser_loginRequired {r : Request} :
    getCurrentUser c p now db r = .error .loginRequired ↔ sessionUser now db r.token = none := by
  unfold getCurrentUser
  cases h : sessionUser now db r.token with
  | none => simp
  | some u =>
    have hgates : gates c p now db r u ≠ .error .loginRequired := by
      unfold gates
      repeat' split
      all_goals simp
    simp only [reduceCtorEq, iff_false]
    split
    · rename_i e he
      intro heq
      rw [Except.error.inj heq] at he
      exact hgates he
    · simp

end Session

/-! ## Kinds of tokens -/

inductive TokenKind
  | session | pending2fa | secretsUnlock | accountStepup | challenge | ticket | stepupProof | grant | backupCodes | linkOk
deriving DecidableEq, Repr

/-- The claim that a kind is told by; a session is told by none. -/
def TokenKind.flag : TokenKind → Option Claim
  | .session => none
  | .pending2fa => some .twofaPending
  | .secretsUnlock => some .secretsUnlock
  | .accountStepup => some .accountStepup
  | .challenge => some .waChal
  | .ticket => some .console
  | .stepupProof => some .consoleStepup
  | .grant => some .consoleGrant
  | .backupCodes => some .bc
  | .linkOk => some .oidcLink

/-- A call of one of the minters. -/
inductive Minting
  | session (u : User)
  | pending2fa (userId : Nat)
  | secretsUnlock (userId : Nat)
  | accountStepup (userId : Nat)
  | challenge (kind : ChallengeKind) (userId : Nat) (challengeB64 : Str)
  | ticket (r : TicketRequest)
  | stepupProof (userId : Nat) (sessionVersion : Int) (o : Origin) (jti : Str)
  | grant (userId : Nat) (serverId : Int) (sessionVersion : Int) (o : Origin)
  | backupCodes (userId : Nat) (codes : List Str)
  | linkOk (userId : Nat)

namespace Minting

def kind : Minting → TokenKind
  | .session _ => .session
  | .pending2fa _ => .pending2fa
  | .secretsUnlock _ => .secretsUnlock
  | .accountStepup _ => .accountStepup
  | .challenge .. => .challenge
  | .ticket _ => .ticket
  | .stepupProof .. => .stepupProof
  | .grant .. => .grant
  | .backupCodes .. => .backupCodes
  | .linkOk _ => .linkOk

def userId : Minting → Nat
  | .session u => u.id
  | .pending2fa i | .secretsUnlock i | .accountStepup i | .challenge _ i _ | .stepupProof i _ _ _ | .grant i _ _ _
  | .backupCodes i _ | .linkOk i => i
  | .ticket r => r.userId

/-- The session version in the token, which is 0 when it carries none. -/
def sessionVersion : Minting → Int
  | .session u => u.sessionVersion
  | .ticket r => r.sessionVersion
  | .stepupProof _ sv _ _ | .grant _ _ sv _ => sv
  | _ => 0

def token (c : Codec) (p : Policy) (now : Nat) : Minting → Payload
  | .session u => createUserAccessToken p now u
  | .pending2fa i => createPending2faToken p now i
  | .secretsUnlock i => createSecretsUnlockToken p now i
  | .accountStepup i => createAccountStepupToken p now i
  | .challenge kind i chal => mintChallengeToken p now kind i chal
  | .ticket r => mintTicket c p now r
  | .stepupProof i sv o jti => mintStepupProof c p now i sv o jti
  | .grant i sid sv o => mintGrant c p now i sid sv o
  | .backupCodes i codes => setBackupCodesFlash p now i codes
  | .linkOk i => setLinkOkCookie p now i

end Minting

/-- A call that a token is handed to. -/
inductive Use
  | session (r : Request)
  | pending2fa
  | secretsUnlock (userId : Nat)
  | accountStepup (userId : Nat)
  | challenge (kind : ChallengeKind) (userId : Nat)
  | ticket (who : Caller) (serverId : Int)
  | stepupProof (who : Caller)
  | grant (who : Caller)
  | backupCodes (userId : Nat)
  | linkOk (userId : Nat)

def Use.kind : Use → TokenKind
  | .session _ => .session
  | .pending2fa => .pending2fa
  | .secretsUnlock _ => .secretsUnlock
  | .accountStepup _ => .accountStepup
  | .challenge .. => .challenge
  | .ticket .. => .ticket
  | .stepupProof _ => .stepupProof
  | .grant _ => .grant
  | .backupCodes _ => .backupCodes
  | .linkOk _ => .linkOk

/-- The call takes the token. A session token is taken when `get_current_user` does not ask for a log-in. -/
def Use.Accepts (c : Codec) (p : Policy) (now : Nat) (db : Db) (t : Payload) : Use → Prop
  | .session r => getCurrentUser c p now db { r with token := some t } ≠ .error .loginRequired
  | .pending2fa => (pending2faUser now db (some t)).isSome
  | .secretsUnlock i => secretsUnlockActive now i (some t) = true
  | .accountStepup i => accountStepupActive now i (some t) = true
  | .challenge kind i => (readChallengeToken c now kind i (some t)).isSome
  | .ticket who sid => ∃ x, checkTicket c p now who sid t = .ok x
  | .stepupProof who => (checkStepupProof c p now who (some t)).isSome
  | .grant who => grantValid c p now who (some t) = true
  | .backupCodes i => (readBackupCodesFlash now i (some t)).isSome
  | .linkOk i => linkOkValid now i (some t) = true

/-- **A token works only for the purpose it was minted for.** -/
def PurposeKept (c : Codec) (p : Policy) (now : Nat) (db : Db) (t : Payload) (kind : TokenKind) (u : Use) : Prop :=
  u.kind ≠ kind → ¬ u.Accepts c p now db t

/-! ## What a token carries -/

section Carries
variable (c : Codec) (p : Policy) (now : Nat)

theorem get?_bindingClaims {k : Claim} (o : Origin) (hi : k ≠ .iph) (hd : k ≠ .did) :
    (bindingClaims c p o).get? k = none := by
  simp [bindingClaims, Dict.get?_append, get?_claimIf, hi, hd]

theorem token_sub (m : Minting) : (m.token c p now).get? .sub = some (.str (ofNat m.userId)) := by
  cases m <;> simp [Minting.token, Minting.userId, createUserAccessToken, createPending2faToken, createSecretsUnlockToken,
    createAccountStepupToken, mintChallengeToken, mintTicket, mintStepupProof, mintGrant, setBackupCodesFlash, setLinkOkCookie,
    createAccessToken, Dict.get?_set, Dict.get?]

/-- A token carries the flag of its own kind and no other. -/
theorem token_flag (m : Minting) (k : TokenKind) {flag : Claim} (hk : k.flag = some flag) :
    truthy ((m.token c p now).get? flag) = true ↔ m.kind = k := by
  cases k with
  | session => cases hk
  | _ =>
    obtain rfl := Option.some.inj hk
    cases m <;> simp [Minting.token, Minting.kind, createUserAccessToken, createPending2faToken, createSecretsUnlockToken,
      createAccountStepupToken, mintChallengeToken, mintTicket, mintStepupProof, mintGrant, setBackupCodesFlash,
      setLinkOkCookie, createAccessToken, Dict.get?_set, Dict.get?_append, Dict.get?, get?_bindingClaims, get?_claimIf, truthy]

theorem token_sv (m : Minting) : payloadSv (m.token c p now) = some m.sessionVersion := by
  have hnum : ∀ n : Int, (if truthy (some (.num n)) = true then pyInt (some (.num n)) else some 0) = some n := by
    intro n
    by_cases h : n = 0 <;> simp [truthy, pyInt, h]
  have hnone : (if truthy none = true then pyInt none else some 0) = some 0 := rfl
  unfold payloadSv
  cases m <;> simp only [Minting.token, Minting.sessionVersion, createUserAccessToken, createPending2faToken,
    createSecretsUnlockToken, createAccountStepupToken, mintChallengeToken, mintTicket, mintStepupProof, mintGrant,
    setBackupCodesFlash, setLinkOkCookie, createAccessToken, Dict.get?_set, Dict.get?, List.cons_append, reduceCtorEq,
    if_true, if_false, hnum, hnone]

theorem token_user (m : Minting) : pyInt ((m.token c p now).get? .sub) = some (m.userId : Int) := by
  rw [token_sub]
  simp [pyInt, isdigit_ofNat, int_ofNat]

end Carries

/-! ## Who accepts what -/

section Accepts
variable (c : Codec) (p : Policy) (now : Nat) (db : Db)

theorem decodeTokenPayload_eq {now : Nat} {t t' : Payload} (h : decodeTokenPayload now t = some t') : t' = t := by
  unfold decodeTokenPayload at h
  split at h
  · split at h
    · exact (Option.some.inj h).symm
    · cases h
  · exact (Option.some.inj h).symm

theorem flaggedFor_eq_some {now : Nat} {flag : Claim} {i : Nat} {t t' : Payload} (h : flaggedFor now flag i (some t) = some t') :
    t' = t ∧ decodeTokenPayload now t = some t ∧ truthy (t.get? flag) = true ∧ pyInt (t.get? .sub) = some (i : Int) := by
  unfold flaggedFor at h
  rw [Option.bind_some] at h
  cases hd : decodeTokenPayload now t with
  | none =>
    rw [hd] at h
    cases h
  | some t₀ =>
    obtain rfl := decodeTokenPayload_eq hd
    rw [hd] at h
    simp only at h
    split at h
    · rename_i hc
      exact ⟨(Option.some.inj h).symm, rfl, hc⟩
    · cases h

/-- A console token is good until it expires, for the user and the session version in it. -/
theorem consoleTokenFor_eq_some {flag : Claim} {who : Caller} {t t' : Payload}
    (h : consoleTokenFor c p now flag who (some t) = some t') :
    decodeTokenPayload now t = some t ∧ truthy (t.get? flag) = true ∧ pyInt (t.get? .sub) = some (who.userId : Int) ∧
      payloadSv t = some who.sessionVersion := by
  unfold consoleTokenFor at h
  split at h
  · rename_i t₀ hf
    obtain ⟨rfl, hd, hflag, huser⟩ := flaggedFor_eq_some hf
    split at h
    · rename_i hc
      exact ⟨hd, hflag, huser, hc.1⟩
    · cases h
  · cases h

theorem checkTicket_ok {who : Caller} {sid : Int} {t : Payload} {x : Payload × Str} (h : checkTicket c p now who sid t = .ok x) :
    decodeTokenPayload now t = some t ∧ truthy (t.get? .console) = true ∧ pyInt (t.get? .sub) = some (who.userId : Int) ∧
      payloadSv t = some who.sessionVersion := by
  unfold checkTicket at h
  split at h
  · cases h
  · split at h
    · cases h
    · rename_i t₀ hd
      obtain rfl := decodeTokenPayload_eq hd
      split at h
      · cases h
      · rename_i hflag
        split at h
        · rename_i tid sid' tsv htid _ htsv
          split at h
          · cases h
          · rename_i huser
            split at h
            · cases h
            · rename_i hsv
              simp only [not_or, not_not] at huser hsv
              refine ⟨hd, by simpa using hflag, ?_, ?_⟩
              · rw [htid, huser.1]
              · rw [htsv, hsv]
        · cases h

/-- Every check but that of the session wants a live token with the flag of its own kind. -/
theorem Use.Accepts.flag {u : Use} {t : Payload} (h : u.Accepts c p now db t) {flag : Claim} (hk : u.kind.flag = some flag) :
    decodeTokenPayload now t = some t ∧ truthy (t.get? flag) = true := by
  have hplain : ∀ flag' i, (flaggedFor now flag' i (some t)).isSome = true →
      decodeTokenPayload now t = some t ∧ truthy (t.get? flag') = true := by
    intro flag' i hs
    obtain ⟨t', ht⟩ := Option.isSome_iff_exists.1 hs
    obtain ⟨-, hd, hflag, -⟩ := flaggedFor_eq_some ht
    exact ⟨hd, hflag⟩
  cases u with
  | session r => cases hk
  | pending2fa =>
    obtain rfl := Option.some.inj hk
    have h' : (pending2faUser now db (some t)).isSome = true := h
    unfold pending2faUser at h'
    rw [Option.bind_some] at h'
    split at h'
    · rename_i t₀ hd
      obtain rfl := decodeTokenPayload_eq hd
      split at h'
      · rename_i hflag
        exact ⟨hd, hflag⟩
      · cases h'
    · cases h'
  | secretsUnlock i =>
    obtain rfl := Option.some.inj hk
    exact hplain _ i h
  | accountStepup i =>
    obtain rfl := Option.some.inj hk
    exact hplain _ i h
  | linkOk i =>
    obtain rfl := Option.some.inj hk
    exact hplain _ i h
  | challenge kind i =>
    obtain rfl := Option.some.inj hk
    refine hplain _ i ?_
    have h' : (readChallengeToken c now kind i (some t)).isSome = true := h
    unfold readChallengeToken at h'
    split at h'
    · rename_i t₀ hf
      rw [hf]
      rfl
    · cases h'
  | backupCodes i =>
    obtain rfl := Option.some.inj hk
    refine hplain _ i ?_
    have h' : (readBackupCodesFlash now i (some t)).isSome = true := h
    unfold readBackupCodesFlash at h'
    split at h'
    · rename_i t₀ hf
      rw [hf]
      rfl
    · cases h'
  | stepupProof who =>
    obtain rfl := Option.some.inj hk
    have h' : (checkStepupProof c p now who (some t)).isSome = true := h
    unfold checkStepupProof at h'
    split at h'
    · rename_i t₀ hf
      obtain ⟨hd, hflag, -⟩ := consoleTokenFor_eq_some c p now hf
      exact ⟨hd, hflag⟩
    · cases h'
  | grant who =>
    obtain rfl := Option.some.inj hk
    have h' : (!p.consoleRequire2faEveryShell && (consoleTokenFor c p now .consoleGrant who (some t)).isSome) = true := h
    rw [Bool.and_eq_true] at h'
    obtain ⟨t₀, hf⟩ := Option.isSome_iff_exists.1 h'.2
    obtain ⟨hd, hflag, -⟩ := consoleTokenFor_eq_some c p now hf
    exact ⟨hd, hflag⟩
  | ticket who sid =>
    obtain rfl := Option.some.inj hk
    obtain ⟨x, hx⟩ := h
    obtain ⟨hd, hflag, -⟩ := checkTicket_ok c p now hx
    exact ⟨hd, hflag⟩

/-- Whose session a minted token is taken for. -/
theorem sessionUser_token (pm : Policy) (tm : Nat) (m : Minting) :
    sessionUser now db (some (m.token c pm tm)) = none ↔ m.kind = .pending2fa ∨
      decodeTokenPayload now (m.token c pm tm) = none ∨
      ∀ u, db.user m.userId = some u → u.isActive = true → u.sessionVersion ≠ m.sessionVersion := by
  have hflag := token_flag c pm tm m .pending2fa rfl
  have huser := token_user c pm tm m
  have hsv := token_sv c pm tm m
  unfold sessionUser
  rw [Option.bind_some]
  cases hd : decodeTokenPayload now (m.token c pm tm) with
  | none => simp
  | some t =>
    obtain rfl := decodeTokenPayload_eq hd
    simp only [huser, hsv, hflag, reduceCtorEq, false_or, Option.getD_some]
    by_cases hk : m.kind = .pending2fa
    · simp [hk]
    · rw [if_neg hk, if_neg (by omega), Int.toNat_natCast]
      simp only [hk, false_or]
      cases hu : db.user m.userId with
      | none => simp
      | some u =>
        simp only [Option.some.injEq, forall_eq']
        by_cases ha : u.isActive = true
        · simp only [ha, Bool.not_true, Bool.false_eq_true, if_false, forall_const]
          by_cases hv : m.sessionVersion = u.sessionVersion
          · simp [hv]
          · rw [if_pos hv]
            simp [Ne.symm hv]
        · simp [ha]

end Accepts

/-- **A token is used for its own purpose only, except that `get_current_user` takes every other kind but the
pending one for a session**: until the token expires, and as long as its user is active and has the session
version in it, which is 0 for the kinds that carry none. -/
theorem purpose_kept_iff (c : Codec) (pm : Policy) (tm : Nat) (m : Minting) (p : Policy) (now : Nat) (db : Db) (u : Use) :
    PurposeKept c p now db (m.token c pm tm) m.kind u ↔
      (u.kind = .session → m.kind = .session ∨ m.kind = .pending2fa ∨ decodeTokenPayload now (m.token c pm tm) = none ∨
        ∀ user, db.user m.userId = some user → user.isActive = true → user.sessionVersion ≠ m.sessionVersion) := by
  unfold PurposeKept
  cases hk : u.kind.flag with
  | some flag =>
    -- a check by flag: only the token's own kind has it
    have hns : u.kind ≠ .session := by
      intro h
      rw [h] at hk
      cases hk
    simp only [hns, false_imp_iff, iff_true]
    intro hne hacc
    exact hne ((token_flag c pm tm m u.kind hk).1 (hacc.flag c p now db hk).2).symm
  | none =>
    cases u with
    | session r =>
      have hr : Use.Accepts c p now db (m.token c pm tm) (.session r) ↔
          sessionUser now db (some (m.token c pm tm)) ≠ none :=
        not_congr (getCurrentUser_loginRequired c p now db)
      rw [hr, not_not, sessionUser_token]
      show (TokenKind.session ≠ m.kind → _) ↔ (TokenKind.session = .session → _)
      simp only [forall_const, or_iff_not_imp_left, ne_eq, eq_comm]
    | _ => cases hk

/-- The user of the counterexample, with a passkey challenge that was handed out after the password. -/
theorem challenge_is_a_session : ¬ ∀ (c : Codec) (pm : Policy) (tm : Nat) (m : Minting) (p : Policy) (now : Nat) (db : Db)
    (u : Use), m.kind ≠ .session → PurposeKept c p now db (m.token c pm tm) m.kind u := by
  intro h
  have hrefused := h ⟨id, fun _ => none⟩ {} 0 (.challenge .auth 1 (lit "x")) {} 1000 { users := [{ id := 1 }] }
    (.session ⟨none, lit "/", lit "GET", none⟩) (by decide) (by decide)
  apply hrefused
  unfold Use.Accepts
  decide

end PiHerder.Auth
