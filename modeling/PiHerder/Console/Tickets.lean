import Mathlib
import PiHerder.Console.SingleUse

/-!
# Opening a console (`routers/server_console.py`)

A ticket is handed out for a second factor: a code sent along, a grant that an earlier one left behind, or, for a
privileged identity, a step-up proof of the last ninety seconds. With `require_2fa_every_shell` a verified passkey
is answered with a ticket at once.

| here | there |
| --- | --- |
| `verifyConsole2fa`      | `_verify_console_2fa` (`:78`) |
| `mintConsoleTicket`     | `mint_console_ticket` (`:404`) |
| `consoleWebauthnVerify` | `:738` |

`given` and `used` are kept beside a reply: the second factor that the request has proven, and the key of the
step-up proof that it has used up. Requests are served by one process, as the compose file runs it.
-/
namespace PiHerder.Console
open Lib Lib.Str Auth

/-- A proof of a second factor: a TOTP time step, a backup code, or the answer of a passkey to a challenge. -/
inductive FactorProof
  | totp (step : Nat)
  | backup (hash : Str)
  | passkey (credential : Nat) (challenge : List Nat)
deriving DecidableEq, Repr

section Factor
variable (k : Crypto) (p : Policy) (now : Nat)

/-- The time step whose code was sent: the first of the three that `verify_totp_code` tries. -/
def matchedStep (secret code : Str) : Option Nat :=
  let code := (strip code).filter (· != ' ')
  if code.isEmpty then none
  else [totpStep now - 1, totpStep now, totpStep now + 1].find? fun t => code == k.totpAt secret t

def consoleCode (code : Str) : Str := (strip code).filter (· != ' ')

/-- The TOTP time step of a code, by the user's secret. -/
def totpProof (u : User) (code : Str) : Option Nat :=
  if u.totpActive then (u.totpSecretEncrypted.bind k.decrypt).bind fun secret => matchedStep k now secret code else none

/-- `console_allow_backup_codes`. -/
def allowBackupCodes : Bool := p.factorAllowed .console .backup && p.consoleAllowBackupCodes

/-- The proof that a code is. -/
def codeProof (db : Db) (u : User) (code : Str) : Option FactorProof :=
  match totpProof k now u (consoleCode code) with
  | some step => some (.totp step)
  | none =>
    if allowBackupCodes p && (consumeBackupCode k now db u.id (consoleCode code)).1 then
      some (.backup (hashBackupCode k (consoleCode code)))
    else none

def verifyConsole2fa (db : Db) (u : User) (code : Str) : Except Str FactorProof × Db :=
  if !db.userHas2fa u then (.error (lit "enroll_2fa"), db)
  else if p.consoleRequirePasskey && db.hasPasskeys u.id then (.error (lit "passkey_required"), db)
  else
    let code := consoleCode code
    if code.isEmpty then (.error (lit "2fa_required"), db)
    else match totpProof k now u code with
      | some step => (.ok (.totp step), db)
      | none =>
        if allowBackupCodes p then
          match consumeBackupCode k now db u.id code with
          | (true, db) => (.ok (.backup (hashBackupCode k code)), db)
          | (false, db) => (.error (lit "2fa_bad_code"), db)
        else if decide (8 ≤ code.length) && !isdigit code then (.error (lit "backup_not_allowed"), db)
        else (.error (lit "2fa_bad_code"), db)

end Factor

/-! ## The routes -/

/-- A row of `ServerSshIdentity`. -/
structure SshIdentity where
  id : Int
  privileged : Bool := false
  enabled : Bool := true
  hasKey : Bool := true
deriving DecidableEq, Repr

/-- A request for a ticket. `stepup` is the cookie `console_stepup`, by the `jti` of the token in it. -/
structure MintForm where
  sameSite : Bool := true
  rateOk : Bool := true
  serverId : Int
  serverFound : Bool := true
  serverHasCredential : Bool := true
  /-- What `get_by_id` or `ensure_fleet_identity` finds. -/
  identity : Option SshIdentity
  totpCode : Str := []
  confirmPrivileged : Str := []
  reason : Str := []
  tab : Int := 0
  origin : Origin := {}
  grant : Option Payload := none
  stepup : Option Str := none
  redis : RedisCall := .answers
  /-- The `jti` that are drawn for the ticket and for a step-up proof. -/
  ticketJti : Str
  stepupJti : Str
deriving Repr

def MintForm.privileged (f : MintForm) : Bool := f.identity.any SshIdentity.privileged

structure ConsoleReply where
  error : Option Str := none
  ticket : Option Payload := none
  grant : Option Payload := none
  stepup : Option Payload := none
  challenge : Option Payload := none
  given : Option FactorProof := none
  used : Option Str := none

/-- `slots_remaining`. -/
def slotsRemaining (p : Policy) (s : Slots) (userId : Nat) : Nat :=
  min (p.maxPerUser - s.live userId) (p.maxGlobal - s.liveGlobal)

/-- `can_open_privileged`. -/
def canOpenPrivileged (p : Policy) (u : User) : Bool :=
  if p.consolePrivilegedOperator then decide (Role.operator.rank ≤ u.role.rank) else u.role == .admin

/-- What a request for a ticket is refused for before the second factor is looked at. -/
def mintRefusal (p : Policy) (u : User) (f : MintForm) : Option Str :=
  if !f.sameSite then some (lit "cross_site")
  else if !f.rateOk then some (lit "rate")
  else if !f.serverFound then some (lit "not_found")
  else if !p.consoleEnabled then some (lit "disabled")
  else match f.identity with
    | none => some (lit "identity_missing")
    | some ident =>
      if ident.privileged then
        if !canOpenPrivileged p u then some (lit "privileged_forbidden")
        else if !([lit "1", lit "on", lit "true", lit "yes"].contains (strip f.confirmPrivileged)) then some (lit "privileged_confirm")
        else if !ident.enabled || !ident.hasKey then some (lit "no_ssh")
        else none
      else if !f.serverHasCredential && !ident.hasKey then some (lit "no_ssh")
      else none

section Routes
variable (k : Crypto) (p : Policy) (now : Nat) (slots : Slots)

def caller (u : User) (o : Origin) : Caller := ⟨u.id, u.sessionVersion, o⟩

/-- The second factor of a request: proven by a code, or paid for by a step-up proof (privileged) or a grant
(fleet). -/
def consoleFactor (db : Db) (store : JtiStore) (u : User) (f : MintForm) (stepup : Option Payload) :
    Except Str (Option FactorProof × Option Str) × Db × JtiStore :=
  if f.privileged then
    match consumeStepupProof k.toCodec p now 0 f.redis stepup (caller u f.origin) store with
    | (true, store) => (.ok (none, checkStepupProof k.toCodec p now (caller u f.origin) stepup), db, store)
    | (false, store) => match verifyConsole2fa k p now db u f.totpCode with
      | (.ok pr, db) => (.ok (some pr, none), db, store)
      | (.error e, db) => (.error e, db, store)
  else if grantValid k.toCodec p now (caller u f.origin) f.grant then (.ok (none, none), db, store)
  else match verifyConsole2fa k p now db u f.totpCode with
    | (.ok pr, db) => (.ok (some pr, none), db, store)
    | (.error e, db) => (.error e, db, store)

def ticketFor (u : User) (f : MintForm) : Payload :=
  mintTicket k.toCodec p now
    { userId := u.id, serverId := f.serverId, sessionVersion := u.sessionVersion, origin := f.origin
      identityId := f.identity.map SshIdentity.id
      identityRole := f.identity.map fun i => if i.privileged then lit "privileged" else lit "fleet"
      reason := if f.privileged then some (strip f.reason) else none
      tab := f.tab, jti := f.ticketJti }

def mintConsoleTicket (db : Db) (store : JtiStore) (u : User) (f : MintForm) (stepup : Option Payload) :
    ConsoleReply × Db × JtiStore :=
  match mintRefusal p u f with
  | some e => ({ error := some e }, db, store)
  | none => match consoleFactor k p now db store u f stepup with
    | (.error e, db, store) => ({ error := some e }, db, store)
    | (.ok (given, used), db, store) =>
      if slotsRemaining p slots u.id = 0 then ({ error := some (lit "limit"), given := given, used := used }, db, store)
      else
        let paid := f.privileged || given.isSome
        ({ ticket := some (ticketFor k p now u f)
           grant := if paid && !p.consoleRequire2faEveryShell then
             some (mintGrant k.toCodec p now u.id f.serverId u.sessionVersion f.origin) else none
           stepup := if !f.privileged && given.isSome then
             some (mintStepupProof k.toCodec p now u.id u.sessionVersion f.origin f.stepupJti) else none
           given := given, used := used }, db, store)

structure VerifyForm where
  sameSite : Bool := true
  serverId : Int
  credential : Option Assertion
  challenge : Option Payload
  origin : Origin := {}
  ticketJti : Str
  stepupJti : Str
deriving Repr

/-- The proof that an assertion is, when it verifies. -/
def assertionProof (db : Db) (u : User) (f : VerifyForm) : Option FactorProof :=
  match f.credential with
  | none => none
  | some a => match verifyAuthentication k now db u a f.challenge with
    | none => none
    | some (row, _) => (readChallengeToken k.toCodec now .auth u.id f.challenge).map (.passkey row.id)

def consoleWebauthnVerify (db : Db) (u : User) (f : VerifyForm) : ConsoleReply × Db :=
  if !f.sameSite then ({ error := some (lit "cross_site") }, db)
  else if !p.consoleEnabled then ({ error := some (lit "disabled") }, db)
  else match f.credential with
    | none => ({ error := some (lit "bad_credential") }, db)
    | some a => match verifyAuthentication k now db u a f.challenge with
      | none => ({ error := some (lit "2fa_bad_code") }, db)
      | some (_, db') =>
        let given := assertionProof k now db u f
        let every := p.consoleRequire2faEveryShell
        if every ∧ slotsRemaining p slots u.id = 0 then ({ error := some (lit "limit"), given := given }, db')
        else
          ({ ticket := if every then some (mintTicket k.toCodec p now
               { userId := u.id, serverId := f.serverId, sessionVersion := u.sessionVersion, origin := f.origin, jti := f.ticketJti })
               else none
             grant := if every then none else some (mintGrant k.toCodec p now u.id f.serverId u.sessionVersion f.origin)
             stepup := some (mintStepupProof k.toCodec p now u.id u.sessionVersion f.origin f.stepupJti)
             given := given }, db')

end Routes

/-! ## Runs -/

/-- A step-up cookie, with the proof it was set for. -/
structure Stepup where
  jti : Str
  token : Payload
  proof : FactorProof
  mintedAt : Nat

/-- A ticket that was handed out, with the proof that paid for it and when that was given. -/
structure Handed where
  privileged : Bool
  at_ : Nat
  paid : Option (FactorProof × Nat)

structure TicketState where
  now : Nat
  policy : Policy := {}
  slots : Slots := {}
  db : Db
  store : JtiStore := {}
  stepups : List Stepup := []
  usedUp : List Str := []
  given : List FactorProof := []
  tickets : List Handed := []

inductive TicketEvent
  /-- What other people and other routes do, and the passing of time. -/
  | world (policy : Policy) (slots : Slots) (ms : Nat)
  | mint (f : MintForm)
  | options (sameSite : Bool) (challengeB64 : Str)
  | verify (f : VerifyForm)

section Steps
variable (k : Crypto) (userId : Nat)

def TicketState.stepup (s : TicketState) (jti : Str) : Option Stepup := s.stepups.find? fun x => x.jti == jti

/-- The token of the cookie that a request carries. -/
def TicketState.cookie (s : TicketState) (f : MintForm) : Option Payload := (f.stepup.bind s.stepup).map Stepup.token

/-- What paid for a ticket: the proof of its request, or that of the step-up proof it used up. -/
def TicketState.payment (s : TicketState) (r : ConsoleReply) (f : Option MintForm) : Option (FactorProof × Nat) :=
  match r.given with
  | some pr => some (pr, s.now)
  | none => if r.used.isSome then ((f.bind MintForm.stepup).bind s.stepup).map fun x => (x.proof, x.mintedAt) else none

/-- The books after a reply. -/
def TicketState.enter (s : TicketState) (r : ConsoleReply) (f : Option MintForm) (stepupJti : Str) : TicketState :=
  { s with
    given := s.given ++ r.given.toList
    usedUp := s.usedUp ++ r.used.toList
    stepups := s.stepups ++ match r.stepup, r.given with
      | some t, some pr => [⟨stepupJti, t, pr, s.now⟩]
      | _, _ => []
    tickets := s.tickets ++ if r.ticket.isSome then [⟨f.any MintForm.privileged, s.now, s.payment r f⟩] else [] }

/-- A user who is an operator sends a request. No `jti` is drawn twice. -/
def ticketStep (s : TicketState) : TicketEvent → TicketState
  | .world policy slots ms => { s with policy := policy, slots := slots, now := s.now + ms }
  | .mint f =>
    match s.db.user userId with
    | none => s
    | some u =>
      if u.role.rank < Role.operator.rank ∨ (s.stepup f.stepupJti).isSome then s
      else
        let (r, db, store) := mintConsoleTicket k s.policy s.now s.slots s.db s.store u f (s.cookie f)
        { s.enter r (some f) f.stepupJti with db := db, store := store }
  | .options _ _ => s
  | .verify f =>
    match s.db.user userId with
    | none => s
    | some u =>
      if u.role.rank < Role.operator.rank ∨ (s.stepup f.stepupJti).isSome then s
      else
        let (r, db) := consoleWebauthnVerify k s.policy s.now s.slots s.db u f
        { s.enter r none f.stepupJti with db := db }

/-- The proofs that paid for these tickets. -/
def payers (ts : List Handed) : List FactorProof := ts.filterMap fun t => t.paid.map Prod.fst

/-- The proofs that have paid for a ticket, or are in a step-up cookie. -/
def TicketState.spent (s : TicketState) : List FactorProof := payers s.tickets ++ s.stepups.map Stepup.proof

/-- A request that gives a proof gives one that is not spent yet; and with a second factor for every shell, no
step-up proof opens one. -/
def TicketEvent.Pays (every : Bool) (s : TicketState) : TicketEvent → Prop
  | .world policy _ _ => policy.consoleRequire2faEveryShell = every
  | .mint f => ∀ u, s.db.user userId = some u →
      let stepup := (consumeStepupProof k.toCodec s.policy s.now 0 f.redis (s.cookie f) (caller u f.origin) s.store).1
      let grant := grantValid k.toCodec s.policy s.now (caller u f.origin) f.grant
      (every = true → f.privileged = true → stepup = false) ∧
      ((if f.privileged then stepup else grant) = false →
        ∀ pr, codeProof k s.policy s.now s.db u f.totpCode = some pr → pr ∉ s.spent)
  | .options _ _ => True
  | .verify f => ∀ u, s.db.user userId = some u → ∀ pr, assertionProof k s.now s.db u f = some pr → pr ∉ s.spent

/-- **With a second factor for every shell there are no more tickets than proofs; without, every privileged ticket
has a proof of its own, given within `STEPUP_SEC`.** -/
def PaidFor (every : Bool) (s : TicketState) : Prop :=
  if every then s.tickets.length ≤ s.given.dedup.length
  else (payers (s.tickets.filter Handed.privileged)).Nodup ∧
    ∀ t ∈ s.tickets, t.privileged = true → ∃ pr at_, t.paid = some (pr, at_) ∧ pr ∈ s.given ∧ t.at_ ≤ at_ + 90000

end Steps

/-! ## One request -/

section Requests
variable {k : Crypto} {p : Policy} {now : Nat} {slots : Slots} {db db' : Db} {u : User}

theorem verifyConsole2fa_proof {code : Str} {pr : FactorProof} (h : (verifyConsole2fa k p now db u code).1 = .ok pr) :
    codeProof k p now db u code = some pr := by
  unfold verifyConsole2fa at h
  split at h
  · cases h
  split at h
  · cases h
  dsimp only at h
  split at h
  · cases h
  unfold codeProof
  split at h
  · exact congrArg some (Except.ok.inj h)
  · split at h
    · rename_i hallow
      obtain ⟨ok, db', hc⟩ : ∃ ok db', consumeBackupCode k now db u.id (consoleCode code) = (ok, db') := ⟨_, _, rfl⟩
      rw [hc] at h
      cases ok with
      | true =>
        rw [hallow, hc]
        exact congrArg some (Except.ok.inj h)
      | false => cases h
    · split at h <;> cases h

section Mint
variable {store store' : JtiStore} {f : MintForm} {cookie : Option Payload}

/-- The step-up proof of a request is accepted when its `jti` is. -/
theorem consumeStepupProof_eq : consumeStepupProof k.toCodec p now 0 f.redis cookie (caller u f.origin) store =
    match checkStepupProof k.toCodec p now (caller u f.origin) cookie with
    | none => (false, store)
    | some key => consumeJti p now 0 f.redis key store := rfl

/-- The three ways in: a grant, a code that is proven, a step-up proof that is used up. -/
theorem consoleFactor_ok {given : Option FactorProof} {used : Option Str}
    (h : consoleFactor k p now db store u f cookie = (.ok (given, used), db', store')) :
    (given = none ∧ used = none ∧ f.privileged = false ∧ grantValid k.toCodec p now (caller u f.origin) f.grant = true) ∨
      (∃ pr, given = some pr ∧ used = none ∧ codeProof k p now db u f.totpCode = some pr ∧
        (if f.privileged then (consumeStepupProof k.toCodec p now 0 f.redis cookie (caller u f.origin) store).1
          else grantValid k.toCodec p now (caller u f.origin) f.grant) = false) ∨
      (given = none ∧ f.privileged = true ∧ used = checkStepupProof k.toCodec p now (caller u f.origin) cookie ∧
        (consumeStepupProof k.toCodec p now 0 f.redis cookie (caller u f.origin) store).1 = true) := by
  have hcode : ∀ {e pr db₁}, verifyConsole2fa k p now db u f.totpCode = (e, db₁) → e = .ok pr →
      codeProof k p now db u f.totpCode = some pr := by
    intro e pr db₁ hv he
    apply verifyConsole2fa_proof
    rw [hv, he]
  unfold consoleFactor at h
  cases hp : f.privileged with
  | true =>
    rw [hp, if_pos rfl] at h
    obtain ⟨ok, store₁, hc⟩ : ∃ ok st, consumeStepupProof k.toCodec p now 0 f.redis cookie (caller u f.origin) store = (ok, st) :=
      ⟨_, _, rfl⟩
    rw [hc] at h ⊢
    cases ok with
    | true =>
      cases h
      exact Or.inr (Or.inr ⟨rfl, rfl, rfl, rfl⟩)
    | false =>
      obtain ⟨e, db₁, hv⟩ : ∃ e db₁, verifyConsole2fa k p now db u f.totpCode = (e, db₁) := ⟨_, _, rfl⟩
      rw [hv] at h
      cases e with
      | error e => cases h
      | ok pr =>
        cases h
        exact Or.inr (Or.inl ⟨pr, rfl, rfl, hcode hv rfl, rfl⟩)
  | false =>
    rw [hp, if_neg Bool.false_ne_true] at h
    cases hg : grantValid k.toCodec p now (caller u f.origin) f.grant with
    | true =>
      rw [hg, if_pos rfl] at h
      cases h
      exact Or.inl ⟨rfl, rfl, rfl, rfl⟩
    | false =>
      rw [hg, if_neg Bool.false_ne_true] at h
      obtain ⟨e, db₁, hv⟩ : ∃ e db₁, verifyConsole2fa k p now db u f.totpCode = (e, db₁) := ⟨_, _, rfl⟩
      rw [hv] at h
      cases e with
      | error e => cases h
      | ok pr =>
        cases h
        exact Or.inr (Or.inl ⟨pr, rfl, rfl, hcode hv rfl, rfl⟩)

theorem consoleFactor_store : (consoleFactor k p now db store u f cookie).2.2 =
    if f.privileged then (consumeStepupProof k.toCodec p now 0 f.redis cookie (caller u f.origin) store).2 else store := by
  unfold consoleFactor
  split
  · split
    · rename_i hc
      rw [hc]
    · rename_i hc
      rw [hc]
      split <;> rfl
  · split
    · rfl
    · split <;> rfl

/-- What a request for a ticket comes to: nothing is proven, and a ticket is handed out only for a grant; a code is
proven; or a step-up proof is used up. -/
theorem mintConsoleTicket_cases {r : ConsoleReply} (h : mintConsoleTicket k p now slots db store u f cookie = (r, db', store')) :
    (r.given = none ∧ r.used = none ∧ r.stepup = none ∧
        (r.ticket.isSome = true → f.privileged = false ∧ grantValid k.toCodec p now (caller u f.origin) f.grant = true)) ∨
      (∃ pr, r.given = some pr ∧ r.used = none ∧ codeProof k p now db u f.totpCode = some pr ∧
        (if f.privileged then (consumeStepupProof k.toCodec p now 0 f.redis cookie (caller u f.origin) store).1
          else grantValid k.toCodec p now (caller u f.origin) f.grant) = false ∧
        ∀ t, r.stepup = some t → f.privileged = false ∧
          t = mintStepupProof k.toCodec p now u.id u.sessionVersion f.origin f.stepupJti) ∨
      (r.given = none ∧ r.stepup = none ∧ f.privileged = true ∧
        r.used = checkStepupProof k.toCodec p now (caller u f.origin) cookie ∧
        (consumeStepupProof k.toCodec p now 0 f.redis cookie (caller u f.origin) store).1 = true ∧
        store' = (consumeStepupProof k.toCodec p now 0 f.redis cookie (caller u f.origin) store).2) := by
  unfold mintConsoleTicket at h
  split at h
  · cases h
    exact Or.inl ⟨rfl, rfl, rfl, fun h => absurd h Bool.false_ne_true⟩
  obtain ⟨e, db₁, store₁, hc⟩ : ∃ e db₁ st, consoleFactor k p now db store u f cookie = (e, db₁, st) := ⟨_, _, _, rfl⟩
  have hstore := @consoleFactor_store k p now db u store f cookie
  rw [hc] at h hstore
  cases e with
  | error e =>
    cases h
    exact Or.inl ⟨rfl, rfl, rfl, fun h => absurd h Bool.false_ne_true⟩
  | ok x =>
    obtain ⟨given, used⟩ := x
    dsimp only at h hstore
    rcases consoleFactor_ok hc with ⟨rfl, rfl, hp, hg⟩ | ⟨pr, rfl, rfl, hcode, hno⟩ | ⟨rfl, hp, hused, hok⟩
    · refine Or.inl ?_
      split at h <;> cases h
      · exact ⟨rfl, rfl, rfl, fun h => absurd h Bool.false_ne_true⟩
      · exact ⟨rfl, rfl, by simp, fun _ => ⟨hp, hg⟩⟩
    · refine Or.inr (Or.inl ⟨pr, ?_⟩)
      split at h <;> cases h
      · exact ⟨rfl, rfl, hcode, hno, by simp⟩
      · refine ⟨rfl, rfl, hcode, hno, ?_⟩
        intro t ht
        cases hp : f.privileged with
        | true => simp [hp] at ht
        | false =>
          simp only [hp] at ht
          exact ⟨rfl, (Option.some.inj ht).symm⟩
    · refine Or.inr (Or.inr ?_)
      rw [hp, if_pos rfl] at hstore
      split at h <;> cases h
      · exact ⟨rfl, rfl, hp, hused, hok, hstore⟩
      · exact ⟨rfl, by simp, hp, hused, hok, hstore⟩

theorem mintConsoleTicket_store : (mintConsoleTicket k p now slots db store u f cookie).2.2 = store ∨
    (mintConsoleTicket k p now slots db store u f cookie).2.2 =
      (consumeStepupProof k.toCodec p now 0 f.redis cookie (caller u f.origin) store).2 := by
  have hstore := @consoleFactor_store k p now db u store f cookie
  unfold mintConsoleTicket
  split
  · exact Or.inl rfl
  obtain ⟨e, db₁, store₁, hc⟩ : ∃ e db₁ st, consoleFactor k p now db store u f cookie = (e, db₁, st) := ⟨_, _, _, rfl⟩
  rw [hc] at hstore ⊢
  have hone : store₁ = store ∨ store₁ = (consumeStepupProof k.toCodec p now 0 f.redis cookie (caller u f.origin) store).2 := by
    rw [show store₁ = _ from hstore]
    split
    · exact Or.inr rfl
    · exact Or.inl rfl
  cases e with
  | error e => exact hone
  | ok x =>
    dsimp only
    split <;> exact hone

end Mint

/-- A verified assertion answers a challenge. -/
theorem assertionProof_isSome {f : VerifyForm} {a : Assertion} {x : Passkey × Db} (hf : f.credential = some a)
    (h : verifyAuthentication k now db u a f.challenge = some x) : ∃ pr, assertionProof k now db u f = some pr := by
  simp only [assertionProof, hf, h]
  unfold verifyAuthentication at h
  split at h
  · cases h
  · rename_i challenge hc
    rw [hc]
    exact ⟨_, rfl⟩

theorem consoleWebauthnVerify_cases {f : VerifyForm} {r : ConsoleReply}
    (h : consoleWebauthnVerify k p now slots db u f = (r, db')) :
    r.used = none ∧ ((r.given = none ∧ r.stepup = none ∧ r.ticket = none) ∨
      (∃ pr, assertionProof k now db u f = some pr ∧ r.given = some pr ∧
        (r.ticket.isSome = true → p.consoleRequire2faEveryShell = true) ∧
        ∀ t, r.stepup = some t → t = mintStepupProof k.toCodec p now u.id u.sessionVersion f.origin f.stepupJti)) := by
  unfold consoleWebauthnVerify at h
  split at h
  · cases h
    exact ⟨rfl, Or.inl ⟨rfl, rfl, rfl⟩⟩
  split at h
  · cases h
    exact ⟨rfl, Or.inl ⟨rfl, rfl, rfl⟩⟩
  split at h
  · cases h
    exact ⟨rfl, Or.inl ⟨rfl, rfl, rfl⟩⟩
  split at h
  · cases h
    exact ⟨rfl, Or.inl ⟨rfl, rfl, rfl⟩⟩
  rename_i hcred _ _ _ hv
  obtain ⟨pr, hpr⟩ := assertionProof_isSome hcred hv
  dsimp only at h
  rw [hpr] at h
  split at h <;> cases h
  · exact ⟨rfl, Or.inr ⟨pr, hpr, rfl, by simp, by simp⟩⟩
  · refine ⟨rfl, Or.inr ⟨pr, hpr, rfl, ?_, ?_⟩⟩
    · intro ht
      by_contra hevery
      simp [hevery] at ht
    · intro t ht
      exact (Option.some.inj ht).symm

/-- What the step-up proof of a cookie is checked for: the key is that of its `jti`, and it has not expired. -/
theorem checkStepupProof_live {who : Caller} {cookie : Option Payload} {key : Str} {t : Payload} {e : Nat}
    (h : checkStepupProof k.toCodec p now who cookie = some key) (ht : cookie = some t) (he : t.get? .exp = some (.num e)) :
    key = lit "stepup:" ++ payloadJti t ∧ now < 1000 * e := by
  subst ht
  obtain ⟨hd, hkey⟩ := checkStepupProof_jti h
  refine ⟨hkey, ?_⟩
  unfold decodeTokenPayload at hd
  rw [he] at hd
  dsimp only at hd
  split at hd
  · omega
  · cases hd

@[simp] theorem mintStepupProof_exp (c : Codec) (i : Nat) (sv : Int) (o : Origin) (jti : Str) :
    (mintStepupProof c p now i sv o jti).get? .exp = some (.num (now / 1000 + 90 : Nat)) := by
  simp [mintStepupProof, createAccessToken, Dict.get?_set]

@[simp] theorem mintStepupProof_jti (c : Codec) (i : Nat) (sv : Int) (o : Origin) (jti : Str) :
    payloadJti (mintStepupProof c p now i sv o jti) = jti := by
  simp [payloadJti, mintStepupProof, createAccessToken, Dict.get?_set, Dict.get?]

end Requests

/-! ## The books -/

section Books
variable {k : Crypto} {userId : Nat} {s : TicketState}

theorem stepup_mem {jti : Str} {x : Stepup} (h : s.stepup jti = some x) : x ∈ s.stepups ∧ x.jti = jti :=
  ⟨List.mem_of_find?_eq_some h, by simpa using List.find?_some h⟩

theorem stepup_none {jti : Str} (h : s.stepup jti = none) : ∀ x ∈ s.stepups, x.jti ≠ jti := by
  intro x hx
  simpa using List.find?_eq_none.1 h x hx

theorem cookie_eq_some {f : MintForm} {t : Payload} (h : s.cookie f = some t) :
    ∃ x ∈ s.stepups, f.stepup.bind s.stepup = some x ∧ x.token = t := by
  obtain ⟨x, hx, ht⟩ := Option.map_eq_some_iff.1 h
  obtain ⟨jti, -, hj⟩ := Option.bind_eq_some_iff.1 hx
  exact ⟨x, (stepup_mem hj).1, hx, ht⟩

theorem payment_of_given {r : ConsoleReply} {f : Option MintForm} {pr : FactorProof} (h : r.given = some pr) :
    s.payment r f = some (pr, s.now) := by
  unfold TicketState.payment
  rw [h]

/-- What a request does to the books: at most a ticket for a grant; a new proof, with at most a ticket and a
step-up proof for it; or the use of a step-up proof, with at most a ticket for that. -/
inductive Effect (every : Bool) (s s' : TicketState) : Prop
  | free (ts : List Handed) (tickets : s'.tickets = s.tickets ++ ts) (fleet : ∀ t ∈ ts, every = false ∧ t.privileged = false)
      (given : s'.given = s.given) (stepups : s'.stepups = s.stepups) (usedUp : s'.usedUp = s.usedUp)
  | proven (pr : FactorProof) (fresh : pr ∉ s.spent) (ts : List Handed) (xs : List Stepup)
      (tickets : s'.tickets = s.tickets ++ ts) (paid : ts = [] ∨ ∃ b, ts = [⟨b, s.now, some (pr, s.now)⟩])
      (given : s'.given = s.given ++ [pr]) (stepups : s'.stepups = s.stepups ++ xs)
      (issued : xs = [] ∨ ∃ jti t, xs = [⟨jti, t, pr, s.now⟩] ∧ s.stepup jti = none ∧ payloadJti t = jti ∧
        t.get? .exp = some (.num (s.now / 1000 + 90 : Nat)) ∧ (every = false → ∀ t ∈ ts, t.privileged = false))
      (usedUp : s'.usedUp = s.usedUp)
  | spent (x : Stepup) (mem : x ∈ s.stepups) (off : every = false) (ts : List Handed) (tickets : s'.tickets = s.tickets ++ ts)
      (paid : ts = [] ∨ ts = [⟨true, s.now, some (x.proof, x.mintedAt)⟩]) (given : s'.given = s.given)
      (stepups : s'.stepups = s.stepups) (usedUp : s'.usedUp = s.usedUp ++ [lit "stepup:" ++ payloadJti x.token])
      (live : ∀ e : Nat, x.token.get? .exp = some (.num e) → s.now < 1000 * e)
      (once : ∃ redis, consumeJti s.policy s.now 0 redis (lit "stepup:" ++ payloadJti x.token) s.store = (true, s'.store))

/-- The store is as it was, or has had one `jti` consumed. -/
def StoreMoves (s s' : TicketState) : Prop :=
  s'.store = s.store ∨ ∃ redis key, s'.store = (consumeJti s.policy s.now 0 redis key s.store).2

theorem consumeStepupProof_moves (p : Policy) (now : Nat) (redis : RedisCall) (cookie : Option Payload) (who : Caller) (st : JtiStore) :
    (consumeStepupProof k.toCodec p now 0 redis cookie who st).2 = st ∨
      ∃ key, (consumeStepupProof k.toCodec p now 0 redis cookie who st).2 = (consumeJti p now 0 redis key st).2 := by
  unfold consumeStepupProof
  split
  · exact Or.inl rfl
  · exact Or.inr ⟨_, rfl⟩

theorem handed_cases {r : ConsoleReply} {b : Bool} {n : Nat} {paid : Option (FactorProof × Nat)} :
    (if r.ticket.isSome then [(⟨b, n, paid⟩ : Handed)] else []) = [] ∨
      (if r.ticket.isSome then [(⟨b, n, paid⟩ : Handed)] else []) = [⟨b, n, paid⟩] := by
  split
  · exact Or.inr rfl
  · exact Or.inl rfl

/-- A request for a ticket. -/
theorem mint_effect {every : Bool} {f : MintForm} {u : User} {r : ConsoleReply} {db : Db} {store : JtiStore}
    (hu : s.db.user userId = some u) (hfresh : s.stepup f.stepupJti = none) (hflag : s.policy.consoleRequire2faEveryShell = every)
    (hok : TicketEvent.Pays k userId every s (.mint f))
    (h : mintConsoleTicket k s.policy s.now s.slots s.db s.store u f (s.cookie f) = (r, db, store)) :
    Effect every s { s.enter r (some f) f.stepupJti with db := db, store := store } := by
  obtain ⟨hno, hpr⟩ := hok u hu
  rcases mintConsoleTicket_cases h with ⟨hgiven, hused, hstep, htick⟩ | ⟨pr, hgiven, hused, hcode, hpaid, hstep⟩ |
    ⟨hgiven, hstep, hp, hused, hcons, hstore⟩
  · refine Effect.free _ rfl ?_ ?_ ?_ ?_
    · intro t ht
      split at ht
      · rename_i hsome
        obtain ⟨hp, hg⟩ := htick hsome
        obtain rfl := List.mem_singleton.1 ht
        unfold grantValid at hg
        refine ⟨?_, hp⟩
        rw [← hflag]
        simpa using (Bool.and_eq_true_iff.1 hg).1
      · cases ht
    · simp [TicketState.enter, hgiven]
    · simp [TicketState.enter, hstep]
    · simp [TicketState.enter, hused]
  · refine Effect.proven pr (hpr hpaid pr hcode) _ _ rfl ?_ ?_ rfl ?_ ?_
    · rw [payment_of_given hgiven]
      exact handed_cases.imp_right fun h => ⟨_, h⟩
    · simp [TicketState.enter, hgiven]
    · cases ht : r.stepup with
      | none => exact Or.inl rfl
      | some t =>
        obtain ⟨hfleet, rfl⟩ := hstep t ht
        rw [hgiven]
        refine Or.inr ⟨_, _, rfl, hfresh, mintStepupProof_jti .., mintStepupProof_exp .., ?_⟩
        intro _ t ht
        split at ht
        · obtain rfl := List.mem_singleton.1 ht
          exact hfleet
        · cases ht
    · simp [TicketState.enter, hused]
  · -- the cookie holds a step-up proof of the books
    obtain ⟨key, hkey⟩ : ∃ key, checkStepupProof k.toCodec s.policy s.now (caller u f.origin) (s.cookie f) = some key := by
      unfold consumeStepupProof at hcons
      split at hcons
      · cases hcons
      · exact ⟨_, ‹_›⟩
    obtain ⟨t, ht⟩ : ∃ t, s.cookie f = some t := by
      cases hc : s.cookie f with
      | some t => exact ⟨t, rfl⟩
      | none =>
        rw [hc] at hkey
        cases hkey
    obtain ⟨x, hx, hfind, rfl⟩ := cookie_eq_some ht
    have hkeyx : key = lit "stepup:" ++ payloadJti x.token := by
      rw [ht] at hkey
      exact (checkStepupProof_jti hkey).2
    have hpay : s.payment r (some f) = some (x.proof, x.mintedAt) := by
      simp only [TicketState.payment, hgiven, hused, hkey, Option.isSome_some, if_true, Option.bind_some, hfind, Option.map_some]
    refine Effect.spent x hx ?_ _ rfl ?_ ?_ ?_ ?_ ?_ ⟨f.redis, ?_⟩
    · cases every with
      | false => rfl
      | true =>
        rw [hno rfl hp] at hcons
        cases hcons
    · rw [hpay, Option.any_some, hp]
      exact handed_cases
    · simp [TicketState.enter, hgiven]
    · simp [TicketState.enter, hstep]
    · simp [TicketState.enter, hused, hkey, hkeyx]
    · exact fun e he => (checkStepupProof_live hkey ht he).2
    · rw [consumeStepupProof_eq, hkey] at hcons hstore
      rw [← hkeyx]
      exact Prod.ext hcons hstore.symm

/-- A verified passkey. -/
theorem verify_effect {every : Bool} {f : VerifyForm} {u : User} {r : ConsoleReply} {db : Db}
    (hu : s.db.user userId = some u) (hfresh : s.stepup f.stepupJti = none) (hflag : s.policy.consoleRequire2faEveryShell = every)
    (hok : TicketEvent.Pays k userId every s (.verify f))
    (h : consoleWebauthnVerify k s.policy s.now s.slots s.db u f = (r, db)) :
    Effect every s { s.enter r none f.stepupJti with db := db } := by
  obtain ⟨hused, ⟨hgiven, hstep, htick⟩ | ⟨pr, hpr, hgiven, htick, hstep⟩⟩ := consoleWebauthnVerify_cases h
  · refine Effect.free [] ?_ (fun t ht => by cases ht) ?_ ?_ ?_
    · simp [TicketState.enter, htick]
    · simp [TicketState.enter, hgiven]
    · simp [TicketState.enter, hstep]
    · simp [TicketState.enter, hused]
  · refine Effect.proven pr (hok u hu pr hpr) _ _ rfl ?_ ?_ rfl ?_ ?_
    · rw [payment_of_given hgiven]
      exact handed_cases.imp_right fun h => ⟨_, h⟩
    · simp [TicketState.enter, hgiven]
    · cases ht : r.stepup with
      | none => exact Or.inl rfl
      | some t =>
        obtain rfl := hstep t ht
        rw [hgiven]
        refine Or.inr ⟨_, _, rfl, hfresh, mintStepupProof_jti .., mintStepupProof_exp .., ?_⟩
        intro hoff t ht
        split at ht
        · rename_i hsome
          have hon := htick hsome
          rw [hflag, hoff] at hon
          cases hon
        · cases ht
    · simp [TicketState.enter, hused]

/-- What an event does: the world moves on, or a request has its effect on the books and the store. -/
theorem ticketStep_effect {every : Bool} {e : TicketEvent} (hflag : s.policy.consoleRequire2faEveryShell = every)
    (hok : e.Pays k userId every s) :
    (∃ policy slots ms, policy.consoleRequire2faEveryShell = every ∧
        ticketStep k userId s e = { s with policy := policy, slots := slots, now := s.now + ms }) ∨
      (Effect every s (ticketStep k userId s e) ∧ StoreMoves s (ticketStep k userId s e) ∧
        (ticketStep k userId s e).policy = s.policy ∧ (ticketStep k userId s e).now = s.now) := by
  have hidle : Effect every s s ∧ StoreMoves s s ∧ s.policy = s.policy ∧ s.now = s.now :=
    ⟨.free [] (List.append_nil _).symm (fun t ht => by cases ht) rfl rfl rfl, Or.inl rfl, rfl, rfl⟩
  cases e with
  | world policy slots ms => exact Or.inl ⟨policy, slots, ms, hok, rfl⟩
  | options sameSite challengeB64 => exact Or.inr hidle
  | mint f =>
    refine Or.inr ?_
    simp only [ticketStep]
    cases hu : s.db.user userId with
    | none => exact hidle
    | some u =>
      dsimp only
      split
      · exact hidle
      · rename_i hno
        have hfresh : s.stepup f.stepupJti = none := by simpa using fun h => hno (Or.inr h)
        obtain ⟨r, db, store, h⟩ : ∃ r db st, mintConsoleTicket k s.policy s.now s.slots s.db s.store u f (s.cookie f) = (r, db, st) :=
          ⟨_, _, _, rfl⟩
        have hmoves := @mintConsoleTicket_store k s.policy s.now s.slots s.db u s.store f (s.cookie f)
        rw [h] at hmoves ⊢
        refine ⟨mint_effect hu hfresh hflag hok h, ?_, rfl, rfl⟩
        rcases hmoves with hsame | hmoved
        · exact Or.inl hsame
        · rcases @consumeStepupProof_moves k s.policy s.now f.redis (s.cookie f) (caller u f.origin) s.store with hsame | ⟨key, hkey⟩
          · exact Or.inl (Eq.trans hmoved hsame)
          · exact Or.inr ⟨f.redis, key, Eq.trans hmoved hkey⟩
  | verify f =>
    refine Or.inr ?_
    simp only [ticketStep]
    cases hu : s.db.user userId with
    | none => exact hidle
    | some u =>
      dsimp only
      split
      · exact hidle
      · rename_i hno
        have hfresh : s.stepup f.stepupJti = none := by simpa using fun h => hno (Or.inr h)
        obtain ⟨r, db, h⟩ : ∃ r db, consoleWebauthnVerify k s.policy s.now s.slots s.db u f = (r, db) := ⟨_, _, rfl⟩
        rw [h]
        exact ⟨verify_effect hu hfresh hflag hok h, Or.inl rfl, rfl, rfl⟩

end Books

/-! ## With a second factor for every shell -/

section Runs
variable {k : Crypto} {userId : Nat}

theorem mem_payers {ts : List Handed} {pr : FactorProof} : pr ∈ payers ts ↔ ∃ t ∈ ts, ∃ at_, t.paid = some (pr, at_) := by
  simp [payers, List.mem_filterMap]

/-- Tickets stay apart when at most one is added, for a proof that has not paid yet. -/
theorem payers_append_nodup {ts us : List Handed} {pr : FactorProof} (h : (payers ts).Nodup) (hpr : pr ∉ payers ts)
    (hus : us = [] ∨ ∃ b n at_, us = [⟨b, n, some (pr, at_)⟩]) : (payers (ts ++ us)).Nodup := by
  unfold payers at *
  rw [List.filterMap_append]
  refine List.Nodup.append h ?_ ?_ <;> rcases hus with rfl | ⟨b, n, at_, rfl⟩ <;> simp_all

/-- Every ticket has a proof of its own. -/
structure Counted (s : TicketState) : Prop where
  flag : s.policy.consoleRequire2faEveryShell = true
  paid : ∀ t ∈ s.tickets, ∃ pr at_, t.paid = some (pr, at_) ∧ pr ∈ s.given
  apart : (payers s.tickets).Nodup

theorem ticketStep_counted (s : TicketState) (e : TicketEvent) (h : Counted s) (hok : e.Pays k userId true s) :
    Counted (ticketStep k userId s e) := by
  rcases ticketStep_effect h.flag hok with ⟨policy, slots, ms, hp, heq⟩ | ⟨heff, -, hpolicy, -⟩
  · rw [heq]
    exact ⟨hp, h.paid, h.apart⟩
  · obtain hflag : (ticketStep k userId s e).policy.consoleRequire2faEveryShell = true := hpolicy ▸ h.flag
    cases heff with
    | free ts htick hfleet hgiven =>
      obtain rfl : ts = [] := List.eq_nil_iff_forall_not_mem.2 fun t ht => Bool.noConfusion (hfleet t ht).1
      rw [List.append_nil] at htick
      exact ⟨hflag, by rw [htick, hgiven]; exact h.paid, by rw [htick]; exact h.apart⟩
    | proven pr fresh ts xs htick hpaid hgiven =>
      refine ⟨hflag, ?_, ?_⟩
      · intro t ht
        rw [htick] at ht
        rw [hgiven]
        rcases List.mem_append.1 ht with ht | ht
        · obtain ⟨pr', at_, hp, hin⟩ := h.paid t ht
          exact ⟨pr', at_, hp, List.mem_append_left _ hin⟩
        · rcases hpaid with rfl | ⟨b, rfl⟩
          · cases ht
          · obtain rfl := List.mem_singleton.1 ht
            exact ⟨pr, s.now, rfl, by simp⟩
      · rw [htick]
        refine payers_append_nodup h.apart (fun hin => fresh (List.mem_append_left _ hin)) ?_
        exact hpaid.imp_right fun ⟨b, hb⟩ => ⟨b, _, _, hb⟩
    | spent x mem off => cases off

theorem Counted.le {s : TicketState} (h : Counted s) : s.tickets.length ≤ s.given.dedup.length := by
  have hall : (payers s.tickets).length = s.tickets.length := by
    refine List.filterMap_length_eq_length.2 fun t ht => ?_
    obtain ⟨pr, at_, hpaid, -⟩ := h.paid t ht
    rw [hpaid]
    rfl
  have hsub : payers s.tickets ⊆ s.given.dedup := by
    intro pr hpr
    obtain ⟨t, ht, at_, hpaid⟩ := mem_payers.1 hpr
    obtain ⟨pr', at', hpaid', hgiven⟩ := h.paid t ht
    rw [hpaid] at hpaid'
    cases hpaid'
    exact List.mem_dedup.2 hgiven
  rw [← hall]
  exact (h.apart.subperm hsub).length_le

/-! ## Without -/

/-- The key under which a step-up proof is used up. -/
def Stepup.key (x : Stepup) : Str := lit "stepup:" ++ x.jti

theorem Stepup.key_inj {x y : Stepup} (h : x.key = y.key) : x.jti = y.jti := List.append_cancel_left h

/-- Every privileged ticket has a proof of its own; one paid by a step-up proof has used that up, and the process
remembers it for as long as it is alive. -/
structure Backed (s : TicketState) : Prop where
  flag : s.policy.consoleRequire2faEveryShell = false
  apart : (payers (s.tickets.filter Handed.privileged)).Nodup
  paid : ∀ t ∈ s.tickets, t.privileged = true → ∃ pr at_, t.paid = some (pr, at_) ∧ pr ∈ s.given ∧ t.at_ ≤ at_ + 90000
  token : ∀ x ∈ s.stepups, payloadJti x.token = x.jti ∧ x.token.get? .exp = some (.num (x.mintedAt / 1000 + 90 : Nat)) ∧
    x.mintedAt ≤ s.now ∧ x.proof ∈ s.given
  jtis : (s.stepups.map Stepup.jti).Nodup
  proofs : (s.stepups.map Stepup.proof).Nodup
  used : ∀ key ∈ s.usedUp, ∃ x ∈ s.stepups, key = x.key
  paidUp : ∀ x ∈ s.stepups, x.proof ∈ payers (s.tickets.filter Handed.privileged) → x.key ∈ s.usedUp
  known : ∀ x ∈ s.stepups, x.key ∈ s.usedUp → s.now < 1000 * (x.mintedAt / 1000 + 90) →
    ∃ ts, (s.store.locals 0).get? x.key = some ts ∧ x.mintedAt ≤ ts

/-- The process forgets nothing that is younger than 135 seconds. -/
theorem jtiTtl_le (p : Policy) : 135000 ≤ jtiTtl p := by
  unfold jtiTtl Policy.ticketTtlSec clamp
  omega

theorem Backed.keeps {s s' : TicketState} (h : Backed s) (hmoves : StoreMoves s s') {x : Stepup} (hx : x ∈ s.stepups)
    (hused : x.key ∈ s.usedUp) (hlive : s.now < 1000 * (x.mintedAt / 1000 + 90)) :
    ∃ ts, (s'.store.locals 0).get? x.key = some ts ∧ x.mintedAt ≤ ts := by
  obtain ⟨ts, hget, hts⟩ := h.known x hx hused hlive
  rcases hmoves with hsame | ⟨redis, key, hmoved⟩
  · exact ⟨ts, by rw [hsame]; exact hget, hts⟩
  · have hfresh : s.now - ts ≤ jtiTtl s.policy := by
      have := jtiTtl_le s.policy
      omega
    obtain ⟨ts', hget', hor⟩ := @consumeJti_keeps s.policy s.now 0 redis key s.store _ _ hget hfresh
    have hmint := (h.token x hx).2.2.1
    exact ⟨ts', by rw [hmoved]; exact hget', by omega⟩

theorem ticketStep_backed (s : TicketState) (e : TicketEvent) (h : Backed s) (hok : e.Pays k userId false s) :
    Backed (ticketStep k userId s e) := by
  rcases ticketStep_effect h.flag hok with ⟨policy, slots, ms, hp, heq⟩ | ⟨heff, hmoves, hpolicy, hnow⟩
  · rw [heq]
    refine ⟨hp, h.apart, h.paid, ?_, h.jtis, h.proofs, h.used, h.paidUp, ?_⟩
    · intro x hx
      obtain ⟨hj, hexp, hmint, hin⟩ := h.token x hx
      exact ⟨hj, hexp, Nat.le_trans hmint (Nat.le_add_right ..), hin⟩
    · exact fun x hx hused hlive => h.known x hx hused (Nat.lt_of_le_of_lt (Nat.le_add_right ..) hlive)
  · generalize ticketStep k userId s e = s' at *
    have hflag : s'.policy.consoleRequire2faEveryShell = false := hpolicy ▸ h.flag
    cases heff with
    | free ts htick hfleet hgiven hstep hused =>
      have hnone : ts.filter Handed.privileged = [] := List.filter_eq_nil_iff.2 fun t ht => by simp [(hfleet t ht).2]
      have hsame : s'.tickets.filter Handed.privileged = s.tickets.filter Handed.privileged := by
        rw [htick, List.filter_append, hnone, List.append_nil]
      refine ⟨hflag, hsame ▸ h.apart, ?_, ?_, hstep ▸ h.jtis, hstep ▸ h.proofs, ?_, ?_, ?_⟩
      · intro t ht hpriv
        have hin : t ∈ s.tickets := by
          have := List.mem_filter.2 ⟨ht, hpriv⟩
          rw [hsame] at this
          exact (List.mem_filter.1 this).1
        rw [hgiven]
        exact h.paid t hin hpriv
      · rw [hstep, hgiven, hnow]
        exact h.token
      · rw [hstep, hused]
        exact h.used
      · rw [hstep, hused, hsame]
        exact h.paidUp
      · rw [hstep, hused, hnow]
        exact fun x hx hu hlive => h.keeps hmoves hx hu hlive
    | proven pr fresh ts xs htick hpaid hgiven hstep hissued hused =>
      have hnew : pr ∉ payers (s.tickets.filter Handed.privileged) := by
        intro hin
        obtain ⟨t, ht, at_, hp⟩ := mem_payers.1 hin
        exact fresh (List.mem_append_left _ (mem_payers.2 ⟨t, (List.mem_filter.1 ht).1, at_, hp⟩))
      have hunissued : ∀ x ∈ s.stepups, x.proof ≠ pr := by
        rintro x hx rfl
        exact fresh (List.mem_append_right _ (List.mem_map_of_mem hx))
      have hadded : ts.filter Handed.privileged = [] ∨ ∃ b, ts.filter Handed.privileged = [⟨b, s.now, some (pr, s.now)⟩] := by
        rcases hpaid with rfl | ⟨b, rfl⟩
        · exact Or.inl rfl
        · cases b with
          | false => exact Or.inl rfl
          | true => exact Or.inr ⟨true, rfl⟩
      have hsplit : s'.tickets.filter Handed.privileged = s.tickets.filter Handed.privileged ++ ts.filter Handed.privileged := by
        rw [htick, List.filter_append]
      refine ⟨hflag, ?_, ?_, ?_, ?_, ?_, ?_, ?_, ?_⟩
      · rw [hsplit]
        exact payers_append_nodup h.apart hnew (hadded.imp_right fun ⟨b, hb⟩ => ⟨b, _, _, hb⟩)
      · intro t ht hpriv
        rw [htick] at ht
        rw [hgiven]
        rcases List.mem_append.1 ht with ht | ht
        · obtain ⟨pr', at_, hp, hin, hle⟩ := h.paid t ht hpriv
          exact ⟨pr', at_, hp, List.mem_append_left _ hin, hle⟩
        · rcases hpaid with rfl | ⟨b, rfl⟩
          · cases ht
          · obtain rfl := List.mem_singleton.1 ht
            exact ⟨pr, s.now, rfl, by simp, Nat.le_add_right ..⟩
      · intro x hx
        rw [hstep] at hx
        rw [hgiven, hnow]
        rcases List.mem_append.1 hx with hx | hx
        · obtain ⟨hj, hexp, hmint, hin⟩ := h.token x hx
          exact ⟨hj, hexp, hmint, List.mem_append_left _ hin⟩
        · rcases hissued with rfl | ⟨jti, t, rfl, -, hj, hexp, -⟩
          · cases hx
          · obtain rfl := List.mem_singleton.1 hx
            exact ⟨hj, hexp, Nat.le_refl _, by simp⟩
      · rw [hstep, List.map_append]
        rcases hissued with rfl | ⟨jti, t, rfl, hfree, -⟩
        · simpa using h.jtis
        · refine List.Nodup.append h.jtis (List.nodup_singleton _) ?_
          rintro j hj hj'
          obtain ⟨x, hx, rfl⟩ := List.mem_map.1 hj
          exact stepup_none hfree x hx (List.mem_singleton.1 hj')
      · rw [hstep, List.map_append]
        rcases hissued with rfl | ⟨jti, t, rfl, -⟩
        · simpa using h.proofs
        · refine List.Nodup.append h.proofs (List.nodup_singleton _) ?_
          rintro q hq hq'
          obtain ⟨x, hx, rfl⟩ := List.mem_map.1 hq
          exact hunissued x hx (List.mem_singleton.1 hq')
      · intro key hkey
        rw [hused] at hkey
        obtain ⟨x, hx, hk⟩ := h.used key hkey
        exact ⟨x, by rw [hstep]; exact List.mem_append_left _ hx, hk⟩
      · intro x hx hpays
        rw [hused]
        rw [hstep] at hx
        rw [hsplit, payers, List.filterMap_append] at hpays
        rcases List.mem_append.1 hx with hx | hx
        · rcases List.mem_append.1 hpays with hpays | hpays
          · exact h.paidUp x hx hpays
          · rcases hadded with hno | ⟨b, hone⟩
            · rw [hno] at hpays
              cases hpays
            · rw [hone] at hpays
              exact absurd (List.mem_singleton.1 hpays) (hunissued x hx)
        · -- a step-up proof comes with no privileged ticket
          rcases hissued with rfl | ⟨jti, t, rfl, -, -, -, hfleet⟩
          · cases hx
          · obtain rfl := List.mem_singleton.1 hx
            have hnone : ts.filter Handed.privileged = [] := List.filter_eq_nil_iff.2 fun t ht => by simp [hfleet rfl t ht]
            rw [hnone, List.filterMap_nil, List.append_nil] at hpays
            exact absurd hpays hnew
      · intro x hx hu hlive
        rw [hstep] at hx
        rw [hused] at hu
        rw [hnow] at hlive
        rcases List.mem_append.1 hx with hx | hx
        · exact h.keeps hmoves hx hu hlive
        · rcases hissued with rfl | ⟨jti, t, rfl, hfree, -⟩
          · cases hx
          · obtain rfl := List.mem_singleton.1 hx
            obtain ⟨y, hy, hk⟩ := h.used _ hu
            exact absurd (Stepup.key_inj hk).symm (stepup_none hfree y hy)
    | spent x hx off ts htick hpaid hgiven hstep hused live once =>
      obtain ⟨hj, hexp, hmint, hin⟩ := h.token x hx
      obtain ⟨redis, honce⟩ := once
      have hlive := live _ hexp
      have hkey : lit "stepup:" ++ payloadJti x.token = x.key := by rw [hj]; rfl
      rw [hkey] at hused honce
      have hnotused : x.key ∉ s.usedUp := by
        intro hu
        obtain ⟨ts₀, hget, hts⟩ := h.known x hx hu hlive
        have hage := jtiTtl_le s.policy
        have hno := @consumeJti_refused s.policy s.now 0 redis x.key s.store ts₀ hget (by omega)
        rw [honce] at hno
        cases hno
      have hnew : x.proof ∉ payers (s.tickets.filter Handed.privileged) := fun hp => hnotused (h.paidUp x hx hp)
      have hsplit : s'.tickets.filter Handed.privileged = s.tickets.filter Handed.privileged ++ ts := by
        rw [htick, List.filter_append]
        rcases hpaid with rfl | rfl <;> rfl
      refine ⟨hflag, ?_, ?_, ?_, hstep ▸ h.jtis, hstep ▸ h.proofs, ?_, ?_, ?_⟩
      · rw [hsplit]
        exact payers_append_nodup h.apart hnew (hpaid.imp_right fun hp => ⟨_, _, _, hp⟩)
      · intro t ht hpriv
        rw [htick] at ht
        rw [hgiven]
        rcases List.mem_append.1 ht with ht | ht
        · exact h.paid t ht hpriv
        · rcases hpaid with rfl | rfl
          · cases ht
          · obtain rfl := List.mem_singleton.1 ht
            exact ⟨x.proof, x.mintedAt, rfl, hin, by simp only; omega⟩
      · rw [hstep, hgiven, hnow]
        exact h.token
      · intro key hk
        rw [hused] at hk
        rw [hstep]
        rcases List.mem_append.1 hk with hk | hk
        · exact h.used key hk
        · exact ⟨x, hx, List.mem_singleton.1 hk⟩
      · intro y hy hpays
        rw [hstep] at hy
        rw [hused]
        rw [hsplit, payers, List.filterMap_append] at hpays
        rcases List.mem_append.1 hpays with hpays | hpays
        · exact List.mem_append_left _ (h.paidUp y hy hpays)
        · rcases hpaid with rfl | rfl
          · cases hpays
          · obtain rfl := List.inj_on_of_nodup_map h.proofs hy hx (List.mem_singleton.1 hpays)
            simp
      · intro y hy hu hlivey
        rw [hstep] at hy
        rw [hused] at hu
        rw [hnow] at hlivey
        rcases List.mem_append.1 hu with hu | hu
        · exact h.keeps hmoves hy hu hlivey
        · rw [List.mem_singleton.1 hu]
          have hrem := @consumeJti_remembers s.policy s.now 0 redis x.key s.store (by rw [honce])
          rw [honce] at hrem
          exact ⟨s.now, hrem, (h.token y hy).2.2.1⟩

theorem Backed.paidFor {s : TicketState} (h : Backed s) : PaidFor false s := ⟨h.apart, h.paid⟩

/-- **One proof, one shell**, where every request that gives a proof gives a new one, and with a second factor for
every shell no privileged one is opened by a step-up proof. -/
theorem one_proof_one_shell {every : Bool} {s : TicketState} (hflag : s.policy.consoleRequire2faEveryShell = every)
    (h0 : s.tickets = [] ∧ s.given = [] ∧ s.stepups = [] ∧ s.usedUp = []) {es : List TicketEvent}
    (hg : Guarded (ticketStep k userId) (fun s e => e.Pays k userId every s) s es) :
    ∀ pre post, es = pre ++ post → PaidFor every (runs (ticketStep k userId) s pre) := by
  rintro pre post rfl
  obtain ⟨ht, -, hs, hu⟩ := h0
  cases every with
  | true =>
    have hstart : Counted s := ⟨hflag, by simp [ht], by simp [ht, payers]⟩
    exact (runs_invariant ticketStep_counted pre s hstart hg.of_append).le
  | false =>
    have hstart : Backed s :=
      ⟨hflag, by simp [ht, payers], by simp [ht], by simp [hs], by simp [hs], by simp [hs], by simp [hu], by simp [hs], by simp [hs]⟩
    exact (runs_invariant ticketStep_backed pre s hstart hg.of_append).paidFor

/-- Alice with TOTP on, and a console of host 7 asked for with the code of the first time step. -/
def testBooks (every : Bool) : TicketState :=
  { now := 0, policy := { consoleEnabled := true, consoleRequire2faEveryShell := every }
    db := { users := [{ id := 1, totpEnabled := true, totpSecretEncrypted := some (lit "S") }] } }

def testMint (stepupJti : Str) : TicketEvent :=
  .mint { serverId := 7, identity := some { id := 3 }, totpCode := lit "S0", ticketJti := lit "T", stepupJti := stepupJti }

/-- One code, one ticket. -/
theorem one_proof_one_shell_once :
    (runs (ticketStep clearText 1) (testBooks true) [testMint (lit "A")]).tickets.length = 1 ∧
      PaidFor true (runs (ticketStep clearText 1) (testBooks true) [testMint (lit "A")]) := by
  refine ⟨by decide +kernel, @one_proof_one_shell clearText 1 true (testBooks true) rfl ⟨rfl, rfl, rfl, rfl⟩ [testMint (lit "A")]
    ⟨?_, trivial⟩ [testMint (lit "A")] [] rfl⟩
  intro u _
  exact ⟨fun _ hp => Bool.noConfusion hp, fun _ pr _ hin => by cases hin⟩

/-- The code is sent again before its time step has passed, and opens a second shell. -/
theorem code_opens_two_shells : ¬ ∀ (k : Crypto) (userId : Nat) (every : Bool) (s : TicketState) (es : List TicketEvent),
    s.policy.consoleRequire2faEveryShell = every → s.tickets = [] ∧ s.given = [] ∧ s.stepups = [] ∧ s.usedUp = [] →
    (∀ policy slots ms, .world policy slots ms ∈ es → policy.consoleRequire2faEveryShell = every) →
    ∀ pre post, es = pre ++ post → PaidFor every (runs (ticketStep k userId) s pre) := by
  intro h
  let es : List TicketEvent := [testMint (lit "A"), testMint (lit "B")]
  have hle : (runs (ticketStep clearText 1) (testBooks true) es).tickets.length ≤
      (runs (ticketStep clearText 1) (testBooks true) es).given.dedup.length :=
    h clearText 1 true (testBooks true) es rfl ⟨rfl, rfl, rfl, rfl⟩ (by simp [es, testMint]) es [] rfl
  revert hle
  decide +kernel

end Runs

end PiHerder.Console
