import PiHerder.Auth.Login
import PiHerder.Console.Model

/-!
# What a password change ends

Credentials are handed out, the password is changed in one of five ways, and what was handed out before should
not be taken any more. `issued` and `ended` are kept beside the state: every credential handed out, and those
handed out before a password change of their user. `drawn` has the hash of every random token: `secrets` draws
none a second time.

Three things revoke: a higher session version, rows that are deleted, a link that is used up. A token that
carries no session version lives until it expires.
-/
namespace PiHerder.Auth
open Lib Lib.Str Console

/-! ## Credentials -/

inductive Credential
  | token (m : Minting) (policy : Policy) (mintedAt : Nat)
  | parked (h : HeldConsole)
  | device (userId : Nat) (raw : Str)
  | link (userId : Nat) (raw : Str)

def Credential.userId : Credential → Nat
  | .token m _ _ => m.userId
  | .parked h => h.userId
  | .device i _ | .link i _ => i

/-- The kinds of tokens that a password change should end. -/
def TokenKind.isCredential : TokenKind → Bool
  | .session | .pending2fa | .secretsUnlock | .accountStepup | .ticket | .grant => true
  | _ => false

/-- The kinds that carry the session version. -/
def TokenKind.versioned : TokenKind → Bool
  | .session | .ticket | .stepupProof | .grant => true
  | _ => false

/-- The minter is called with the row of its user as it is. -/
def Minting.isCurrent (u : User) (m : Minting) : Bool :=
  m.kind.isCredential && (!m.kind.versioned || m.sessionVersion == u.sessionVersion)

/-- The session version in a credential that carries one. -/
def Credential.version : Credential → Option Int
  | .token m _ _ => if m.kind.versioned then some m.sessionVersion else none
  | .parked h => some h.sessionVersion
  | _ => none

/-! ## The five operations -/

inductive PasswordChange
  | resetLink (rateOk : Bool) (token : Str) (f : NewPassword)
  | account (r : Request) (currentPassword : Str) (f : NewPassword)
  | forced (r : Request) (cookies : LoginCookies) (f : NewPassword)
  | adminReset (userId : Nat) (password : Str) (clear2fa : Bool) (salt : Nat)
  | setAfterSso (r : Request) (totpCode : Str) (stepupCookie : Option Payload) (f : NewPassword)

section Operations
variable (k : Crypto) (p : Policy) (now : Nat) (pw : PasswordPolicy) (db : Db)

/-- A route of a signed-in user. -/
def signedIn (r : Request) (route : User → Reply × Db) : Reply × Db :=
  match getCurrentUser k.toCodec p now db r with
  | .error _ => ({ location := lit "/auth/login" }, db)
  | .ok u => route u

def PasswordChange.run : PasswordChange → Reply × Db
  | .resetLink rateOk token f => resetPasswordSubmit k now pw db rateOk token f
  | .account r currentPassword f => signedIn k p now db r fun u => changePassword k p now pw db u currentPassword f
  | .forced r cookies f => signedIn k p now db r fun u => forcePasswordSubmit k p now pw db u cookies f
  | .adminReset userId password clear2fa salt =>
    match db.user userId with
    | none => ({ location := lit "/auth/users" }, db)
    | some _ => ({ location := lit "/auth/users", changed := some userId }, adminResetPassword k db userId password clear2fa salt)
  | .setAfterSso r totpCode stepupCookie f =>
    signedIn k p now db r fun u => passwordSet k p now pw db u totpCode stepupCookie f

/-- What an operation revokes by design: everything with a session version, unless the change was forced; every
trusted device; the link that it came by. -/
def PasswordChange.Revokes (op : PasswordChange) (c : Credential) : Prop :=
  match c, op with
  | .device _ _, _ => True
  | .link _ raw, .resetLink _ token _ => strip token = strip raw
  | .link _ _, _ => False
  | _, .forced _ _ _ => False
  | c, _ => c.version.isSome = true

end Operations

/-! ## The site -/

structure Site where
  db : Db
  policy : Policy := {}
  pw : PasswordPolicy := {}
  now : Nat
  slots : Slots := {}
  drawn : List Str := []
  issued : List Credential := []
  ended : List Credential := []

inductive SiteEvent
  | tick (ms : Nat)
  | configure (policy : Policy) (pw : PasswordPolicy)
  /-- Any change of a user's row that leaves the session version. -/
  | edit (userId : Nat) (row : User)
  | signOut (userId : Nat)
  | mint (m : Minting)
  | trust (userId : Nat) (cookies : LoginCookies) (fresh : Str)
  | sendLink (userId : Nat) (raw : Str)
  | park (h : HeldConsole)
  | claim (resumeId : Str) (who : Caller) (serverId : Int)
  | discardAll (userId : Nat)
  | change (op : PasswordChange)

variable (k : Crypto)

def Site.issue (s : Site) (c : Credential) : Site := { s with issued := s.issued ++ [c] }

def siteStep (s : Site) : SiteEvent → Site
  | .tick ms => { s with now := s.now + ms }
  | .configure policy pw => { s with policy := policy, pw := pw }
  | .edit i row =>
    { s with db := s.db.setUser i fun u => { row with id := i, sessionVersion := u.sessionVersion } }
  | .signOut i => { s with db := adminSignOutSessions s.db i }
  | .mint m =>
    match s.db.user m.userId with
    | none => s
    | some u => if m.isCurrent u then s.issue (.token m s.policy s.now) else s
  | .trust i cookies fresh =>
    if k.sha256 fresh ∈ s.drawn then s
    else
      let (raw, db) := ensureTrustedDevice k s.policy s.now s.db i cookies fresh
      { s with db := db, drawn := k.sha256 fresh :: s.drawn }.issue (.device i raw)
  | .sendLink i raw =>
    if k.sha256 raw ∈ s.drawn ∨ strip raw ≠ raw then s
    else { s with db := createResetToken k s.now s.db i raw, drawn := k.sha256 raw :: s.drawn }.issue (.link i raw)
  | .park h =>
    -- the socket was opened under the session version that the user had then
    match s.db.user h.userId with
    | none => s
    | some u =>
      if h.sessionVersion ≤ u.sessionVersion then { s with slots := parkConsole h s.slots }.issue (.parked h) else s
  | .claim resumeId who serverId =>
    { s with slots := (claimResume k.toCodec s.policy s.now resumeId who serverId s.slots).2 }
  | .discardAll i => { s with slots := discardAllParkedForUser i s.slots }
  | .change op =>
    let (reply, db) := op.run k s.policy s.now s.pw s.db
    match reply.changed with
    | none => { s with db := db }
    | some i =>
      let reissued := match reply.session, db.user i with
        | some _, some u => [Credential.token (.session u) s.policy s.now]
        | _, _ => []
      { s with
        db := db
        issued := s.issued ++ reissued
        ended := s.ended ++ s.issued.filter fun c => c.userId == i }

/-- The caller is known by the session version that the row of its user has. -/
def Db.Knows (db : Db) (who : Caller) : Prop := ∃ u, db.user who.userId = some u ∧ u.sessionVersion = who.sessionVersion

/-- A call whose caller, where it has one, is known. -/
def Use.Known (db : Db) : Use → Prop
  | .ticket who _ | .stepupProof who | .grant who => db.Knows who
  | _ => True

/-- Some call takes the credential. -/
def Credential.Accepted (s : Site) : Credential → Prop
  | .token m p t => ∃ use : Use, use.kind = m.kind ∧ use.Known s.db ∧ use.Accepts k.toCodec s.policy s.now s.db (m.token k.toCodec p t)
  | .parked h => ∃ who serverId, s.db.Knows who ∧
      (claimResume k.toCodec s.policy s.now h.resumeId who serverId s.slots).1 = .ok h
  | .device i raw => (s.db.findValidTrustedDevice k.sha256 s.now i raw).isSome = true
  | .link i raw => ∃ u db, consumeToken k s.now s.db raw = some (u, db) ∧ u.id = i

/-- A session version below that of the user, an expired token, a device without a row, a link whose rows are
used or expired. -/
def Credential.Dead (s : Site) (c : Credential) : Prop :=
  (∃ v, c.version = some v ∧ ∀ u, s.db.user c.userId = some u → v < u.sessionVersion) ∨
  match c with
  | .token m p t => decodeTokenPayload s.now (m.token k.toCodec p t) = none
  | .parked _ => False
  | .device i raw => ∀ d ∈ s.db.trustedDevices, d.userId = i → d.tokenHash ≠ k.sha256 raw
  | .link i raw => ∀ r ∈ s.db.resetTokens, r.userId = i → r.tokenHash = k.sha256 (strip raw) →
      r.usedAt.isSome = true ∨ r.expiresAt < s.now

/-- Where the event changes a password, every credential of the user is dead already or of those that the
operation revokes. -/
def EndsAll (s : Site) : SiteEvent → Prop
  | .change op => ∀ i, (op.run k s.policy s.now s.pw s.db).1.changed = some i →
      ∀ c ∈ s.issued, c.userId = i → c.Dead k s ∨ op.Revokes c
  | _ => True

/-- Nothing has been handed out yet, and the hashes in the tables are of tokens drawn before, no two links' the same. -/
structure Site.Fresh (s : Site) : Prop where
  issued : s.issued = []
  ended : s.ended = []
  devices : ∀ d ∈ s.db.trustedDevices, d.tokenHash ∈ s.drawn
  links : ∀ r ∈ s.db.resetTokens, r.tokenHash ∈ s.drawn
  nodup : (s.db.resetTokens.map PasswordResetToken.tokenHash).Nodup

/-! ## What the operations do to the tables -/

/-- From `db` to `db'` no session version falls, and no row of a device or a usable link is new. -/
structure Db.Keeps (db db' : Db) : Prop where
  version : ∀ i u', db'.user i = some u' → ∃ u, db.user i = some u ∧ u.sessionVersion ≤ u'.sessionVersion
  devices : ∀ d' ∈ db'.trustedDevices, ∃ d ∈ db.trustedDevices, d.userId = d'.userId ∧ d.tokenHash = d'.tokenHash
  links : ∀ r' ∈ db'.resetTokens, ∃ r ∈ db.resetTokens, r.userId = r'.userId ∧ r.tokenHash = r'.tokenHash ∧
    r.expiresAt = r'.expiresAt ∧ (r.usedAt.isSome = true → r'.usedAt.isSome = true)
  hashes : (db'.resetTokens.map PasswordResetToken.tokenHash).Sublist (db.resetTokens.map PasswordResetToken.tokenHash)

namespace Db.Keeps
variable {db db' db'' : Db}

theorem of_same (hu : db'.users = db.users) (hd : db'.trustedDevices = db.trustedDevices) (hr : db'.resetTokens = db.resetTokens) :
    Db.Keeps db db' where
  version i u' h := ⟨u', by rwa [Db.user, ← hu], Int.le_refl _⟩
  devices d' h := ⟨d', hd ▸ h, rfl, rfl⟩
  links r' h := ⟨r', hr ▸ h, rfl, rfl, rfl, id⟩
  hashes := by rw [hr]

theorem refl (db : Db) : Db.Keeps db db := of_same rfl rfl rfl

theorem trans (h : Db.Keeps db db') (h' : Db.Keeps db' db'') : Db.Keeps db db'' where
  version i u'' hu := by
    obtain ⟨u', hu', hle'⟩ := h'.version i u'' hu
    obtain ⟨u, hu, hle⟩ := h.version i u' hu'
    exact ⟨u, hu, Int.le_trans hle hle'⟩
  devices d'' hd := by
    obtain ⟨d', hd', hi', hh'⟩ := h'.devices d'' hd
    obtain ⟨d, hd, hi, hh⟩ := h.devices d' hd'
    exact ⟨d, hd, hi.trans hi', hh.trans hh'⟩
  links r'' hr := by
    obtain ⟨r', hr', hi', hh', he', hu'⟩ := h'.links r'' hr
    obtain ⟨r, hr, hi, hh, he, hu⟩ := h.links r' hr'
    exact ⟨r, hr, hi.trans hi', hh.trans hh', he.trans he', fun hs => hu' (hu hs)⟩
  hashes := h'.hashes.trans h.hashes

theorem setUser {i : Nat} {f : User → User} (hid : ∀ u, u.id = i → (f u).id = i)
    (hsv : ∀ u, db.user i = some u → u.sessionVersion ≤ (f u).sessionVersion) : Db.Keeps db (db.setUser i f) where
  version j u' h := by
    rw [Db.user_setUser hid] at h
    obtain ⟨u, hu, rfl⟩ := Option.map_eq_some_iff.1 h
    refine ⟨u, hu, ?_⟩
    by_cases hi : u.id = i
    · rw [if_pos hi]
      have hj : j = i := (Db.user_id hu).symm.trans hi
      exact hsv u (hj ▸ hu)
    · exact Int.le_of_eq (by rw [if_neg hi])
  devices d' h := ⟨d', h, rfl, rfl⟩
  links r' h := ⟨r', h, rfl, rfl, rfl, id⟩
  hashes := List.Sublist.refl _

theorem revokeDevices (db : Db) (i : Nat) : Db.Keeps db (revokeAllTrustedDevices db i) where
  version _ u' h := ⟨u', h, Int.le_refl _⟩
  devices d' h := ⟨d', (List.mem_filter.1 h).1, rfl, rfl⟩
  links r' h := ⟨r', h, rfl, rfl, rfl, id⟩
  hashes := List.Sublist.refl _

theorem bump (db : Db) (i : Nat) : Db.Keeps db (db.setUser i bumpSessionVersion) :=
  setUser (fun _ h => h) (fun u _ => by simp only [bumpSessionVersion]; omega)

theorem clear2fa (db : Db) (i : Nat) : Db.Keeps db (clearUser2fa db i) :=
  (setUser (f := fun u => { u with totpEnabled := false, totpSecretEncrypted := none }) (fun _ h => h) (fun _ _ => Int.le_refl _)).trans
    (of_same rfl rfl rfl)

end Db.Keeps

/-- The devices of `i` are gone, and its session version has risen. -/
structure Db.Ends (i : Nat) (db db' : Db) : Prop where
  version : ∀ u', db'.user i = some u' → ∃ u, db.user i = some u ∧ u.sessionVersion < u'.sessionVersion
  devices : ∀ d ∈ db'.trustedDevices, d.userId ≠ i

/-- The end of every operation but the forced change. -/
theorem ends_revoke_bump {db db' : Db} {i : Nat} (h : Db.Keeps db db') :
    Db.Ends i db ((revokeAllTrustedDevices db' i).setUser i bumpSessionVersion) where
  version u' hu' := by
    rw [@Db.user_setUser _ i bumpSessionVersion (fun _ h => h)] at hu'
    obtain ⟨u, hu, rfl⟩ := Option.map_eq_some_iff.1 hu'
    obtain ⟨u₀, hu₀, hle⟩ := h.version i u hu
    refine ⟨u₀, hu₀, ?_⟩
    rw [if_pos (Db.user_id hu)]
    simp only [bumpSessionVersion]
    omega
  devices d hd := by
    have hd' := (List.mem_filter.1 hd).2
    simpa using hd'

theorem keeps_revoke_bump {db db' : Db} {i : Nat} (h : Db.Keeps db db') :
    Db.Keeps db ((revokeAllTrustedDevices db' i).setUser i bumpSessionVersion) :=
  (h.trans (.revokeDevices db' i)).trans (.bump _ i)

theorem sessionUser_user {now : Nat} {db : Db} {t : Option Payload} {u : User} (h : sessionUser now db t = some u) :
    db.user u.id = some u := by
  unfold sessionUser at h
  cases hd : t.bind (decodeTokenPayload now) with
  | none => simp [hd] at h
  | some t' =>
    rw [hd] at h
    simp only at h
    split at h
    · cases h
    · cases hi : pyInt (t'.get? .sub) with
      | none => simp [hi] at h
      | some i =>
        rw [hi] at h
        simp only at h
        split at h
        · cases h
        · cases hu : db.user i.toNat with
          | none => simp [hu] at h
          | some u' =>
            rw [hu] at h
            simp only at h
            split at h
            · cases h
            · split at h
              · cases h
              · obtain rfl := Option.some.inj h
                rw [Db.user_id hu]
                exact hu

theorem getCurrentUser_user {c : Codec} {p : Policy} {now : Nat} {db : Db} {r : Request} {u : User}
    (h : getCurrentUser c p now db r = .ok u) : db.user u.id = some u := by
  unfold getCurrentUser at h
  cases hs : sessionUser now db r.token with
  | none => simp [hs] at h
  | some u' =>
    rw [hs] at h
    simp only at h
    split at h
    · cases h
    · obtain rfl := Except.ok.inj h
      exact sessionUser_user hs

section Specs
variable {k : Crypto} {p : Policy} {now : Nat} {pw : PasswordPolicy} {db : Db}

theorem consumeToken_spec {raw : Str} {u : User} {db' : Db} (h : consumeToken k now db raw = some (u, db')) :
    db.user u.id = some u ∧ ∃ row, db.resetTokens.find? (fun r => r.tokenHash == k.sha256 (strip raw)) = some row ∧
      row.usedAt = none ∧ now ≤ row.expiresAt ∧ row.userId = u.id ∧
      db' = { db with resetTokens := db.resetTokens.map fun r => if r = row then { r with usedAt := some now } else r } := by
  unfold consumeToken at h
  cases ht : usableToken k now db raw with
  | none => simp [ht] at h
  | some row =>
    simp only [ht] at h
    have hrow : db.resetTokens.find? (fun r => r.tokenHash == k.sha256 (strip raw)) = some row ∧ row.usedAt = none ∧
        now ≤ row.expiresAt := by
      unfold usableToken at ht
      dsimp only at ht
      split at ht
      · cases ht
      · split at ht
        · rename_i row' hfind
          split at ht
          · cases ht
          · rename_i hok
            obtain rfl := Option.some.inj ht
            simp only [Bool.or_eq_true, decide_eq_true_eq, not_or, Bool.not_eq_true, Option.isSome_eq_false_iff,
              Option.isNone_iff_eq_none, Nat.not_lt] at hok
            exact ⟨hfind, hok⟩
        · cases ht
    cases hu : db.user row.userId with
    | none => simp [hu] at h
    | some u' =>
      simp only [hu] at h
      split at h
      · simp only [Option.some.injEq, Prod.mk.injEq] at h
        obtain ⟨rfl, rfl⟩ := h
        rw [Db.user_id hu]
        exact ⟨hu, row, hrow.1, hrow.2.1, hrow.2.2, rfl, rfl⟩
      · cases h

theorem keeps_markUsed (db : Db) (row : PasswordResetToken) (now : Nat) : Db.Keeps db
    { db with resetTokens := db.resetTokens.map fun r => if r = row then { r with usedAt := some now } else r } where
  version _ u' h := ⟨u', h, Int.le_refl _⟩
  devices d' h := ⟨d', h, rfl, rfl⟩
  links r' h := by
    obtain ⟨r, hr, rfl⟩ := List.mem_map.1 h
    refine ⟨r, hr, ?_⟩
    split <;> simp
  hashes := by
    have hsame : ∀ r ∈ db.resetTokens,
        (PasswordResetToken.tokenHash ∘ fun r => if r = row then { r with usedAt := some now } else r) r = r.tokenHash := by
      intro r _
      simp only [Function.comp_apply]
      split <;> rfl
    rw [List.map_map, List.map_congr_left hsame]

theorem consumeBackupCode_keeps (db : Db) (i : Nat) (code : Str) : Db.Keeps db (consumeBackupCode k now db i code).2 := by
  unfold consumeBackupCode
  split
  · exact .of_same rfl rfl rfl
  · exact .refl db

/-- A step-up uses up a backup code at most. -/
theorem verifyStepup_db (db : Db) (u : User) (f : StepupForm) (surf : Surface) :
    (verifyStepup k p now db u f surf).2 = db ∨
      ∃ code, (verifyStepup k p now db u f surf).2 = (consumeBackupCode k now db u.id code).2 := by
  unfold verifyStepup
  dsimp only
  repeat' split
  all_goals first
    | exact Or.inl rfl
    | exact Or.inr ⟨_, (congrArg Prod.snd ‹consumeBackupCode _ _ _ _ _ = _›).symm⟩

theorem verifyStepup_keeps (db : Db) (u : User) (f : StepupForm) (surf : Surface) :
    Db.Keeps db (verifyStepup k p now db u f surf).2 := by
  rcases verifyStepup_db db u f surf with h | ⟨code, h⟩
  · rw [h]
    exact .refl db
  · rw [h]
    exact consumeBackupCode_keeps db u.id code

theorem signedIn_spec {r : Request} {route : User → Reply × Db} (P : Reply × Db → Prop)
    (hno : P ({ location := lit "/auth/login" }, db)) (hroute : ∀ u, db.user u.id = some u → P (route u)) :
    P (signedIn k p now db r route) := by
  unfold signedIn
  cases h : getCurrentUser k.toCodec p now db r with
  | error e => exact hno
  | ok u => exact hroute u (getCurrentUser_user h)

/-- What a committed operation that is not forced leaves of its user. -/
def Committed (db : Db) (x : Reply × Db) : Prop := Db.Keeps db x.2 ∧ ∀ i, x.1.changed = some i → Db.Ends i db x.2

theorem Committed.of_none {x : Reply × Db} (h : Db.Keeps db x.2) (hn : x.1.changed = none) : Committed db x :=
  ⟨h, fun i hi => by rw [hn] at hi; cases hi⟩

theorem resetPasswordSubmit_committed (rateOk : Bool) (token : Str) (f : NewPassword) :
    Committed db (resetPasswordSubmit k now pw db rateOk token f) := by
  unfold resetPasswordSubmit
  repeat' split
  · exact .of_none (.refl db) rfl
  · exact .of_none (.refl db) rfl
  · exact .of_none (.refl db) rfl
  · exact .of_none (.refl db) rfl
  · rename_i u db' hc
    obtain ⟨hu, row, -, -, -, -, rfl⟩ := consumeToken_spec hc
    have hkeeps := (keeps_markUsed db row now).trans (@Db.Keeps.setUser _ u.id
      (fun u => { u with hashedPassword := getPasswordHash k f.newPassword f.salt, mustChangePassword := false })
      (fun _ h => h) (fun _ _ => Int.le_refl _))
    refine ⟨keeps_revoke_bump hkeeps, ?_⟩
    rintro i ⟨rfl⟩
    exact ends_revoke_bump hkeeps

theorem changePassword_committed {u : User} (hu : db.user u.id = some u) (currentPassword : Str) (f : NewPassword) :
    Committed db (changePassword k p now pw db u currentPassword f) := by
  unfold changePassword
  repeat' split
  · exact .of_none (.refl db) rfl
  · exact .of_none (.refl db) rfl
  · exact .of_none (.refl db) rfl
  · set changed := bumpSessionVersion
      { u with hashedPassword := getPasswordHash k f.newPassword f.salt, mustChangePassword := false } with hchanged
    have hsv : changed.sessionVersion = u.sessionVersion + 1 := rfl
    have hid : changed.id = u.id := rfl
    have hkeeps := (Db.Keeps.revokeDevices db u.id).trans (@Db.Keeps.setUser _ u.id (fun _ => changed) (fun _ _ => hid) (by
      intro u₀ hu₀
      have heq : u₀ = u := Option.some.inj (hu₀.symm.trans hu)
      rw [heq, hsv]
      omega))
    refine ⟨hkeeps, ?_⟩
    rintro i ⟨rfl⟩
    refine ⟨?_, ?_⟩
    · intro u' hu'
      rw [@Db.user_setUser _ u.id (fun _ => changed) (fun _ _ => hid)] at hu'
      obtain ⟨u₀, hu₀, rfl⟩ := Option.map_eq_some_iff.1 hu'
      have heq : u₀ = u := Option.some.inj (hu₀.symm.trans hu)
      refine ⟨u₀, hu₀, ?_⟩
      rw [heq, if_pos rfl, hsv]
      omega
    · intro d hd
      simpa using (List.mem_filter.1 hd).2

theorem adminResetPassword_committed (i : Nat) (password : Str) (clear2fa : Bool) (salt : Nat) :
    Db.Keeps db (adminResetPassword k db i password clear2fa salt) ∧
      Db.Ends i db (adminResetPassword k db i password clear2fa salt) := by
  have hset := @Db.Keeps.setUser db i
    (fun u => { u with hashedPassword := getPasswordHash k password salt, mustChangePassword := true })
    (fun _ h => h) (fun _ _ => Int.le_refl _)
  unfold adminResetPassword
  cases clear2fa with
  | true => exact ⟨keeps_revoke_bump (hset.trans (.clear2fa _ i)), ends_revoke_bump (hset.trans (.clear2fa _ i))⟩
  | false => exact ⟨keeps_revoke_bump hset, ends_revoke_bump hset⟩

theorem passwordSet_committed {u : User} (totpCode : Str) (stepupCookie : Option Payload) (f : NewPassword) :
    Committed db (passwordSet k p now pw db u totpCode stepupCookie f) := by
  have hstep : Db.Keeps db (if db.userHas2fa u then
      verifyStepup k p now db u { totpCode := some totpCode, stepupCookie := stepupCookie } .account else (.ok (), db)).2 := by
    split
    · exact verifyStepup_keeps db u _ _
    · exact .refl db
  unfold passwordSet
  split
  · exact .of_none (.refl db) rfl
  split
  · exact .of_none (.refl db) rfl
  split
  · exact .of_none (.refl db) rfl
  dsimp only
  generalize (if db.userHas2fa u = true then
      verifyStepup k p now db u { totpCode := some totpCode, stepupCookie := stepupCookie } .account else (.ok (), db)) = step at hstep ⊢
  obtain ⟨result, db'⟩ := step
  cases result with
  | error e => exact .of_none hstep rfl
  | ok x =>
    have hkeeps := hstep.trans (@Db.Keeps.setUser _ u.id
      (fun u =>
        { u with
          hashedPassword := getPasswordHash k f.newPassword f.salt
          passwordLoginEnabled := true
          mustChangePassword := false })
      (fun _ h => h) (fun _ _ => Int.le_refl _))
    refine ⟨keeps_revoke_bump hkeeps, ?_⟩
    rintro i ⟨rfl⟩
    exact ends_revoke_bump hkeeps

/-- The forced change takes the devices only. -/
theorem forcePasswordSubmit_keeps {u : User} (hu : db.user u.id = some u) (cookies : LoginCookies) (f : NewPassword) :
    Db.Keeps db (forcePasswordSubmit k p now pw db u cookies f).2 ∧
      ∀ i, (forcePasswordSubmit k p now pw db u cookies f).1.changed = some i →
        ∀ d ∈ (forcePasswordSubmit k p now pw db u cookies f).2.trustedDevices, d.userId ≠ i := by
  unfold forcePasswordSubmit
  repeat' split
  · exact ⟨.refl db, by simp⟩
  · exact ⟨.refl db, by simp⟩
  · exact ⟨.refl db, by simp⟩
  · exact ⟨.refl db, by simp⟩
  · have hset := @Db.Keeps.setUser db u.id
      (fun _ => { u with hashedPassword := getPasswordHash k f.newPassword f.salt, mustChangePassword := false })
      (fun _ _ => rfl) (by
        intro u₀ hu₀
        have heq : u₀ = u := Option.some.inj (hu₀.symm.trans hu)
        exact Int.le_of_eq (by rw [heq]))
    refine ⟨hset.trans (.revokeDevices _ u.id), ?_⟩
    rintro i ⟨rfl⟩ d hd
    simpa using (List.mem_filter.1 hd).2

theorem PasswordChange.run_keeps (op : PasswordChange) : Db.Keeps db (op.run k p now pw db).2 := by
  cases op with
  | resetLink rateOk token f => exact (resetPasswordSubmit_committed rateOk token f).1
  | account r currentPassword f =>
    exact signedIn_spec (fun x => Db.Keeps db x.2) (.refl db) fun u hu => (changePassword_committed hu currentPassword f).1
  | forced r cookies f =>
    exact signedIn_spec (fun x => Db.Keeps db x.2) (.refl db) fun u hu => (forcePasswordSubmit_keeps hu cookies f).1
  | setAfterSso r totpCode stepupCookie f =>
    exact signedIn_spec (fun x => Db.Keeps db x.2) (.refl db) fun u _ => (passwordSet_committed totpCode stepupCookie f).1
  | adminReset i password clear2fa salt =>
    simp only [PasswordChange.run]
    cases db.user i with
    | none => exact .refl db
    | some u => exact (adminResetPassword_committed i password clear2fa salt).1

def PasswordChange.isForced : PasswordChange → Bool
  | .forced _ _ _ => true
  | _ => false

theorem PasswordChange.run_ends {op : PasswordChange} (hf : op.isForced = false) {i : Nat}
    (h : (op.run k p now pw db).1.changed = some i) : Db.Ends i db (op.run k p now pw db).2 := by
  cases op with
  | resetLink rateOk token f => exact (resetPasswordSubmit_committed rateOk token f).2 i h
  | account r currentPassword f =>
    exact (signedIn_spec (Committed db) (.of_none (.refl db) rfl) fun u hu => changePassword_committed hu currentPassword f).2 i h
  | forced r cookies f => cases hf
  | setAfterSso r totpCode stepupCookie f =>
    exact (signedIn_spec (Committed db) (.of_none (.refl db) rfl) fun u _ => passwordSet_committed totpCode stepupCookie f).2 i h
  | adminReset j password clear2fa salt =>
    simp only [PasswordChange.run] at h ⊢
    cases hu : db.user j with
    | none => simp [hu] at h
    | some u =>
      simp only [hu] at h ⊢
      obtain rfl := Option.some.inj h
      exact (adminResetPassword_committed j password clear2fa salt).2

theorem PasswordChange.run_devices {op : PasswordChange} {i : Nat} (h : (op.run k p now pw db).1.changed = some i) :
    ∀ d ∈ (op.run k p now pw db).2.trustedDevices, d.userId ≠ i := by
  cases hf : op.isForced with
  | false => exact (PasswordChange.run_ends hf h).devices
  | true =>
    cases op with
    | forced r cookies f =>
      exact signedIn_spec (fun x => ∀ i, x.1.changed = some i → ∀ d ∈ x.2.trustedDevices, d.userId ≠ i) (by simp)
        (fun u hu => (forcePasswordSubmit_keeps hu cookies f).2) i h
    | _ => cases hf

/-- The link that a reset came by is used up. -/
theorem resetPasswordSubmit_usesUp (hnodup : (db.resetTokens.map PasswordResetToken.tokenHash).Nodup) {rateOk : Bool}
    {token : Str} {f : NewPassword} {i : Nat} (h : (resetPasswordSubmit k now pw db rateOk token f).1.changed = some i) :
    ∀ r ∈ (resetPasswordSubmit k now pw db rateOk token f).2.resetTokens, r.tokenHash = k.sha256 (strip token) →
      r.usedAt.isSome = true := by
  unfold resetPasswordSubmit at h ⊢
  split at h
  · cases h
  rename_i h1
  split at h
  · cases h
  rename_i h2
  split at h
  · cases h
  rename_i h3
  rw [if_neg h1, if_neg h2, if_neg h3]
  cases hc : consumeToken k now db token with
  | none => simp [hc] at h
  | some x =>
    obtain ⟨u, db'⟩ := x
    obtain ⟨-, row, hfind, -, -, -, rfl⟩ := consumeToken_spec hc
    intro r hr hhash
    obtain ⟨r₀, hr₀, rfl⟩ := List.mem_map.1 (show r ∈ db.resetTokens.map _ from hr)
    have hrow : row.tokenHash = k.sha256 (strip token) := by simpa using List.find?_some hfind
    have heq : r₀ = row := by
      refine List.inj_on_of_nodup_map hnodup hr₀ (List.mem_of_find?_eq_some hfind) ?_
      rw [hrow, ← hhash]
      split <;> rfl
    rw [if_pos heq]
    rfl

end Specs

/-! ## The dead stay dead, and are not accepted -/

section Dead
variable {k : Crypto}

theorem decodeTokenPayload_later {now later : Nat} {t : Payload} (hle : now ≤ later) (h : decodeTokenPayload now t = none) :
    decodeTokenPayload later t = none := by
  unfold decodeTokenPayload at h ⊢
  split at h
  · split at h
    · cases h
    · rw [if_neg (by omega)]
  · cases h

theorem Credential.Dead.mono {s s' : Site} {c : Credential} (hk : Db.Keeps s.db s'.db) (hnow : s.now ≤ s'.now)
    (h : c.Dead k s) : c.Dead k s' := by
  rcases h with ⟨v, hv, hlt⟩ | h
  · refine Or.inl ⟨v, hv, fun u' hu' => ?_⟩
    obtain ⟨u, hu, hle⟩ := hk.version _ u' hu'
    have hvu := hlt u hu
    omega
  · refine Or.inr ?_
    cases c with
    | token m p t => exact decodeTokenPayload_later hnow h
    | parked x => exact h
    | device i raw =>
      intro d' hd' hi
      obtain ⟨d, hd, hdi, hdh⟩ := hk.devices d' hd'
      rw [← hdh]
      exact h d hd (hdi.trans hi)
    | link i raw =>
      intro r' hr' hi hh
      obtain ⟨r, hr, hri, hrh, hre, hru⟩ := hk.links r' hr'
      rcases h r hr (hri.trans hi) (hrh.trans hh) with hused | hexp
      · exact Or.inl (hru hused)
      · refine Or.inr ?_
        rw [← hre]
        omega

/-- A versioned token is taken for the session version its user has. -/
theorem accepts_version {s : Site} {m : Minting} {p : Policy} {t : Nat} {use : Use} (hkind : use.kind = m.kind)
    (hv : m.kind.versioned = true) (hknown : use.Known s.db)
    (h : use.Accepts k.toCodec s.policy s.now s.db (m.token k.toCodec p t)) :
    ∃ u, s.db.user m.userId = some u ∧ u.sessionVersion = m.sessionVersion := by
  have huser := token_user k.toCodec p t m
  have hsv := token_sv k.toCodec p t m
  have hcaller : ∀ who : Caller, s.db.Knows who → pyInt ((m.token k.toCodec p t).get? .sub) = some (who.userId : Int) →
      payloadSv (m.token k.toCodec p t) = some who.sessionVersion →
      ∃ u, s.db.user m.userId = some u ∧ u.sessionVersion = m.sessionVersion := by
    rintro who ⟨u, hu, husv⟩ hid hver
    rw [huser, Option.some.injEq] at hid
    rw [hsv, Option.some.injEq] at hver
    rw [show m.userId = who.userId by omega, hver]
    exact ⟨u, hu, husv⟩
  cases use with
  | session r =>
    have hsome : sessionUser s.now s.db (some (m.token k.toCodec p t)) ≠ none :=
      fun hn => h ((getCurrentUser_loginRequired _ _ _ _).2 hn)
    rw [ne_eq, sessionUser_token] at hsome
    simp only [not_or, not_forall, not_not] at hsome
    obtain ⟨-, -, u, hu, -, hver⟩ := hsome
    exact ⟨u, hu, hver⟩
  | ticket who sid =>
    obtain ⟨x, hx⟩ := h
    obtain ⟨-, -, hid, hver⟩ := checkTicket_ok _ _ _ hx
    exact hcaller who hknown hid hver
  | stepupProof who =>
    have h' : (checkStepupProof k.toCodec s.policy s.now who (some (m.token k.toCodec p t))).isSome = true := h
    unfold checkStepupProof at h'
    split at h'
    · rename_i t₀ hf
      obtain ⟨-, -, hid, hver⟩ := consoleTokenFor_eq_some _ _ _ hf
      exact hcaller who hknown hid hver
    · cases h'
  | grant who =>
    have h' : (!s.policy.consoleRequire2faEveryShell &&
      (consoleTokenFor k.toCodec s.policy s.now .consoleGrant who (some (m.token k.toCodec p t))).isSome) = true := h
    rw [Bool.and_eq_true] at h'
    obtain ⟨t₀, hf⟩ := Option.isSome_iff_exists.1 h'.2
    obtain ⟨-, -, hid, hver⟩ := consoleTokenFor_eq_some _ _ _ hf
    exact hcaller who hknown hid hver
  | _ => rw [← hkind] at hv; cases hv

/-- No call takes an expired token. -/
theorem accepts_decodes {c : Codec} {p : Policy} {now : Nat} {db : Db} {use : Use} {t : Payload} (h : use.Accepts c p now db t) :
    decodeTokenPayload now t ≠ none := by
  cases hk : use.kind.flag with
  | some flag =>
    rw [(h.flag c p now db hk).1]
    simp
  | none =>
    cases use with
    | session r =>
      intro hn
      refine h ((getCurrentUser_loginRequired _ _ _ _).2 ?_)
      simp [sessionUser, hn]
    | _ => cases hk

theorem claimResume_ok {c : Codec} {p : Policy} {now : Nat} {rid : Str} {who : Caller} {sid : Int} {s : Slots} {h : HeldConsole}
    (hok : (claimResume c p now rid who sid s).1 = .ok h) : h.userId = who.userId ∧ h.sessionVersion = who.sessionVersion := by
  unfold claimResume at hok
  dsimp only at hok
  split at hok
  · cases hok
  · split at hok
    · cases hok
    · split at hok
      · cases hok
      · split at hok
        · cases hok
        · split at hok
          · cases hok
          · rename_i hcheck
            obtain rfl := Except.ok.inj hok
            unfold resumeCheck at hcheck
            dsimp only at hcheck
            split at hcheck
            · cases hcheck
            · rename_i hid
              split at hcheck
              · cases hcheck
              · rename_i hsv
                simp only [not_or, not_not] at hid hsv
                exact ⟨hid.1, hsv⟩

theorem Credential.Dead.not_accepted {s : Site} {c : Credential} (h : c.Dead k s) : ¬ c.Accepted k s := by
  intro hacc
  rcases h with ⟨v, hv, hlt⟩ | h
  · cases c with
    | token m p t =>
      obtain ⟨use, hkind, hknown, hacc⟩ := hacc
      simp only [Credential.version] at hv
      split at hv
      · rename_i hver
        obtain ⟨u, hu, husv⟩ := accepts_version hkind hver hknown hacc
        obtain rfl := Option.some.inj hv
        have := hlt u hu
        omega
      · cases hv
    | parked x =>
      obtain ⟨who, sid, ⟨u, hu, husv⟩, hok⟩ := hacc
      obtain ⟨hid, hsv⟩ := claimResume_ok hok
      obtain rfl := Option.some.inj hv
      have := hlt u (by rw [Credential.userId, hid]; exact hu)
      omega
    | device i raw => cases hv
    | link i raw => cases hv
  · cases c with
    | token m p t =>
      obtain ⟨use, -, -, hacc⟩ := hacc
      exact accepts_decodes hacc h
    | parked x => exact h
    | device i raw =>
      have hsome : (s.db.findValidTrustedDevice k.sha256 s.now i raw).isSome = true := hacc
      unfold Db.findValidTrustedDevice at hsome
      split at hsome
      · cases hsome
      · split at hsome
        · rename_i d hd
          have hmatch := List.find?_some hd
          simp only [Bool.and_eq_true, beq_iff_eq] at hmatch
          exact h d (List.mem_of_find?_eq_some hd) hmatch.1 hmatch.2
        · cases hsome
    | link i raw =>
      obtain ⟨u, db', hc, hi⟩ := hacc
      obtain ⟨-, row, hfind, hunused, hlive, hrow, -⟩ := consumeToken_spec hc
      have hhash : row.tokenHash = k.sha256 (strip raw) := by simpa using List.find?_some hfind
      rcases h row (List.mem_of_find?_eq_some hfind) (hrow.trans hi) hhash with hused | hexp
      · rw [hunused] at hused
        cases hused
      · omega

end Dead

/-! ## Runs -/

section Runs
variable {k : Crypto}

/-- The hash under which the row of a credential is stored. -/
def Credential.rowHash (k : Crypto) : Credential → Option Str
  | .device _ raw => some (k.sha256 raw)
  | .link _ raw => some (k.sha256 (strip raw))
  | _ => none

/-- The session version in a credential is not above that of its user, and its random token has been drawn. -/
structure Credential.Known (k : Crypto) (s : Site) (c : Credential) : Prop where
  version : ∀ v, c.version = some v → ∀ u, s.db.user c.userId = some u → v ≤ u.sessionVersion
  drawn : ∀ h, c.rowHash k = some h → h ∈ s.drawn

/-- What holds all along: `ended` is dead. -/
structure Site.Wf (k : Crypto) (s : Site) : Prop where
  known : ∀ c ∈ s.issued, c.Known k s
  ended : ∀ c ∈ s.ended, c ∈ s.issued ∧ c.Dead k s
  devices : ∀ d ∈ s.db.trustedDevices, d.tokenHash ∈ s.drawn
  links : ∀ r ∈ s.db.resetTokens, r.tokenHash ∈ s.drawn
  nodup : (s.db.resetTokens.map PasswordResetToken.tokenHash).Nodup

theorem Site.Fresh.wf {s : Site} (h : s.Fresh) : s.Wf k where
  known := by simp [h.issued]
  ended := by simp [h.ended]
  devices := h.devices
  links := h.links
  nodup := h.nodup

theorem Credential.Known.mono {s s' : Site} {c : Credential} (hk : Db.Keeps s.db s'.db) (hd : s.drawn ⊆ s'.drawn)
    (h : c.Known k s) : c.Known k s' where
  version v hv u' hu' := by
    obtain ⟨u, hu, hle⟩ := hk.version _ u' hu'
    exact Int.le_trans (h.version v hv u hu) hle
  drawn x hx := hd (h.drawn x hx)

/-- A step that hands out nothing, and adds no row. -/
theorem Site.Wf.keeps {s s' : Site} (h : s.Wf k) (hk : Db.Keeps s.db s'.db) (hnow : s.now ≤ s'.now) (hd : s'.drawn = s.drawn)
    (hi : s'.issued = s.issued) (he : s'.ended = s.ended) : s'.Wf k where
  known c hc := (h.known c (hi ▸ hc)).mono hk (by rw [hd]; exact List.Subset.refl _)
  ended c hc := by
    obtain ⟨hin, hdead⟩ := h.ended c (he ▸ hc)
    exact ⟨hi ▸ hin, hdead.mono hk hnow⟩
  devices d' hd' := by
    obtain ⟨d, hmem, -, hh⟩ := hk.devices d' hd'
    rw [hd, ← hh]
    exact h.devices d hmem
  links r' hr' := by
    obtain ⟨r, hmem, -, hh, -⟩ := hk.links r' hr'
    rw [hd, ← hh]
    exact h.links r hmem
  nodup := hk.hashes.nodup h.nodup

theorem Site.Wf.issue {s : Site} {c : Credential} (h : s.Wf k) (hc : c.Known k s) : (s.issue c).Wf k where
  known c' hc' := by
    rcases List.mem_append.1 hc' with hc' | hc'
    · exact ⟨(h.known c' hc').version, (h.known c' hc').drawn⟩
    · obtain rfl := List.mem_singleton.1 hc'
      exact ⟨hc.version, hc.drawn⟩
  ended c' hc' := by
    obtain ⟨hin, hdead⟩ := h.ended c' hc'
    exact ⟨List.mem_append_left _ hin, hdead⟩
  devices := h.devices
  links := h.links
  nodup := h.nodup

/-- A step that draws a token: the rows of devices and links are old ones, or have the new hash. -/
theorem Site.Wf.draw {s s' : Site} {x : Str} (h : s.Wf k) (hx : x ∉ s.drawn) (hu : s'.db.users = s.db.users)
    (hnow : s'.now = s.now) (hdrawn : s'.drawn = x :: s.drawn) (hi : s'.issued = s.issued) (he : s'.ended = s.ended)
    (hdev : ∀ d' ∈ s'.db.trustedDevices,
      (∃ d ∈ s.db.trustedDevices, d.userId = d'.userId ∧ d.tokenHash = d'.tokenHash) ∨ d'.tokenHash = x)
    (hlinks : ∀ r' ∈ s'.db.resetTokens, r' ∈ s.db.resetTokens ∨ r'.tokenHash = x)
    (hnodup : (s'.db.resetTokens.map PasswordResetToken.tokenHash).Nodup) : s'.Wf k := by
  have huser : ∀ j, s'.db.user j = s.db.user j := fun j => by rw [Db.user, Db.user, hu]
  have hne : ∀ y, y ∈ s.drawn → y ≠ x := by
    rintro y hy rfl
    exact hx hy
  refine ⟨?_, ?_, ?_, ?_, hnodup⟩
  · intro c hc
    rw [hi] at hc
    refine ⟨fun v hv u hcu => (h.known c hc).version v hv u (by rwa [← huser]), fun y hy => ?_⟩
    rw [hdrawn]
    exact List.mem_cons_of_mem _ ((h.known c hc).drawn y hy)
  · intro c hc
    rw [he] at hc
    obtain ⟨hin, hdead⟩ := h.ended c hc
    have hhash := (h.known c hin).drawn
    refine ⟨hi ▸ hin, ?_⟩
    rcases hdead with ⟨v, hv, hlt⟩ | hdead
    · exact Or.inl ⟨v, hv, fun u hcu => hlt u (by rwa [← huser])⟩
    · refine Or.inr ?_
      cases c with
      | token m p t => rwa [← hnow] at hdead
      | parked y => exact hdead
      | device j raw =>
        intro d' hd' hj hh
        rcases hdev d' hd' with ⟨d, hd, hdi, hdh⟩ | hnew
        · exact hdead d hd (hdi.trans hj) (hdh.trans hh)
        · exact hne _ (hhash _ rfl) (hh.symm.trans hnew)
      | link j raw =>
        intro r' hr' hj hh
        rcases hlinks r' hr' with hr | hnew
        · rw [hnow]
          exact hdead r' hr hj hh
        · exact absurd (hh.symm.trans hnew) (hne _ (hhash _ rfl))
  · intro d' hd'
    rw [hdrawn]
    rcases hdev d' hd' with ⟨d, hd, -, hdh⟩ | hnew
    · rw [← hdh]
      exact List.mem_cons_of_mem _ (h.devices d hd)
    · rw [hnew]
      exact List.mem_cons_self
  · intro r' hr'
    rw [hdrawn]
    rcases hlinks r' hr' with hr | hnew
    · exact List.mem_cons_of_mem _ (h.links r' hr)
    · rw [hnew]
      exact List.mem_cons_self

theorem findValidTrustedDevice_mem {sha256 : Str → Str} {now : Nat} {db : Db} {i : Nat} {raw : Str} {d : TrustedDevice}
    (h : db.findValidTrustedDevice sha256 now i raw = some d) : d ∈ db.trustedDevices ∧ d.userId = i ∧ d.tokenHash = sha256 raw := by
  unfold Db.findValidTrustedDevice at h
  split at h
  · cases h
  · split at h
    · rename_i d' hd
      have hmatch := List.find?_some hd
      simp only [Bool.and_eq_true, beq_iff_eq] at hmatch
      split at h
      · cases h
      · obtain rfl := Option.some.inj h
        exact ⟨List.mem_of_find?_eq_some hd, hmatch⟩
    · cases h

theorem ensureTrustedDevice_spec (p : Policy) (now : Nat) (db : Db) (i : Nat) (cookies : LoginCookies) (fresh : Str) :
    (ensureTrustedDevice k p now db i cookies fresh).2.users = db.users ∧
    (ensureTrustedDevice k p now db i cookies fresh).2.resetTokens = db.resetTokens ∧
    (∀ d' ∈ (ensureTrustedDevice k p now db i cookies fresh).2.trustedDevices,
      (∃ d ∈ db.trustedDevices, d.userId = d'.userId ∧ d.tokenHash = d'.tokenHash) ∨ d'.tokenHash = k.sha256 fresh) ∧
    ((∃ d ∈ db.trustedDevices, k.sha256 (ensureTrustedDevice k p now db i cookies fresh).1 = d.tokenHash) ∨
      (ensureTrustedDevice k p now db i cookies fresh).1 = fresh) := by
  unfold ensureTrustedDevice
  dsimp only
  split
  · rename_i raw d hfound
    obtain ⟨raw', -, hmap⟩ := Option.bind_eq_some_iff.1 hfound
    obtain ⟨d', hd', heq⟩ := Option.map_eq_some_iff.1 hmap
    obtain ⟨rfl, rfl⟩ := Prod.mk.inj heq
    obtain ⟨hmem, -, hhash⟩ := findValidTrustedDevice_mem hd'
    refine ⟨rfl, rfl, ?_, Or.inl ⟨d', hmem, hhash.symm⟩⟩
    intro x hx
    obtain ⟨y, hy, rfl⟩ := List.mem_map.1 hx
    refine Or.inl ⟨y, hy, ?_⟩
    by_cases hyd : y = d'
    · simp [hyd]
    · simp [hyd]
  · refine ⟨rfl, rfl, ?_, Or.inr rfl⟩
    intro x hx
    rcases List.mem_append.1 hx with hx | hx
    · exact Or.inl ⟨x, hx, rfl, rfl⟩
    · obtain rfl := List.mem_singleton.1 hx
      exact Or.inr rfl

theorem Site.Wf.trust {s : Site} (h : s.Wf k) (i : Nat) (cookies : LoginCookies) (fresh : Str) :
    (siteStep k s (.trust i cookies fresh)).Wf k := by
  simp only [siteStep]
  split
  · exact h
  rename_i hnew
  obtain ⟨husers, hresets, hdev, hraw⟩ := @ensureTrustedDevice_spec k s.policy s.now s.db i cookies fresh
  refine Site.Wf.issue (h.draw hnew husers rfl rfl rfl rfl hdev ?_ ?_) ⟨?_, ?_⟩
  · intro r' hr'
    exact Or.inl (hresets ▸ hr')
  · simp only [hresets]
    exact h.nodup
  · intro v hv
    cases hv
  · intro y hy
    obtain rfl := Option.some.inj hy
    rcases hraw with ⟨d, hd, hh⟩ | hh
    · rw [hh]
      exact List.mem_cons_of_mem _ (h.devices d hd)
    · rw [hh]
      exact List.mem_cons_self

theorem createResetToken_rows (now : Nat) (db : Db) (i : Nat) (raw : Str) :
    ∃ kept : List PasswordResetToken, kept.Sublist db.resetTokens ∧
      createResetToken k now db i raw = { db with resetTokens := kept ++ [⟨i, k.sha256 raw, now, now + 3600000, none⟩] } :=
  ⟨_, List.filter_sublist, rfl⟩

theorem Site.Wf.sendLink {s : Site} (h : s.Wf k) (i : Nat) (raw : Str) : (siteStep k s (.sendLink i raw)).Wf k := by
  simp only [siteStep]
  split
  · exact h
  rename_i hnew
  simp only [not_or, not_not] at hnew
  obtain ⟨kept, hkept, heq⟩ := @createResetToken_rows k s.now s.db i raw
  simp only [heq]
  refine Site.Wf.issue (h.draw hnew.1 rfl rfl rfl rfl rfl ?_ ?_ ?_) ⟨?_, ?_⟩
  · intro d hd
    exact Or.inl ⟨d, hd, rfl, rfl⟩
  · intro r' hr'
    rcases List.mem_append.1 hr' with hr' | hr'
    · exact Or.inl (hkept.subset hr')
    · obtain rfl := List.mem_singleton.1 hr'
      exact Or.inr rfl
  · rw [List.map_append, List.nodup_append]
    refine ⟨(hkept.map _).nodup h.nodup, by simp, ?_⟩
    intro a ha b hb
    obtain ⟨r, hr, rfl⟩ := List.mem_map.1 ha
    obtain rfl := List.mem_singleton.1 hb
    intro heq
    have hhash : r.tokenHash = k.sha256 raw := heq
    exact hnew.1 (hhash ▸ h.links r (hkept.subset hr))
  · intro v hv
    cases hv
  · intro y hy
    obtain rfl := Option.some.inj hy
    rw [hnew.2]
    exact List.mem_cons_self

/-- What an operation revokes is dead when it has committed. -/
theorem revoked_dead {s : Site} (h : s.Wf k) {op : PasswordChange} {i : Nat}
    (hc : (op.run k s.policy s.now s.pw s.db).1.changed = some i) {c : Credential} (hin : c ∈ s.issued) (hi : c.userId = i)
    (hr : op.Revokes c) : c.Dead k { s with db := (op.run k s.policy s.now s.pw s.db).2 } := by
  have hversion : ∀ v, c.version = some v → op.isForced = false →
      c.Dead k { s with db := (op.run k s.policy s.now s.pw s.db).2 } := by
    intro v hv hf
    refine Or.inl ⟨v, hv, fun u' hu' => ?_⟩
    rw [hi] at hu'
    obtain ⟨u, hu, hlt⟩ := (PasswordChange.run_ends hf hc).version u' hu'
    have hle := (h.known c hin).version v hv u (hi ▸ hu)
    omega
  cases c with
  | device j raw =>
    refine Or.inr fun d hd hj => ?_
    exact absurd (hj.trans hi) (PasswordChange.run_devices hc d hd)
  | link j raw =>
    cases op with
    | resetLink rateOk token f =>
      refine Or.inr fun r hmem _ hh => Or.inl ?_
      have hstrip : strip token = strip raw := hr
      exact resetPasswordSubmit_usesUp h.nodup hc r hmem (by rw [hstrip]; exact hh)
    | _ => cases hr
  | parked y =>
    refine hversion _ rfl ?_
    cases op with
    | forced => cases hr
    | _ => rfl
  | token m p t =>
    have hf : op.isForced = false ∧ (Credential.token m p t).version.isSome = true := by
      cases op with
      | forced => cases hr
      | _ => exact ⟨rfl, hr⟩
    obtain ⟨v, hv⟩ := Option.isSome_iff_exists.1 hf.2
    exact hversion v hv hf.1

theorem Site.Wf.change {s : Site} (h : s.Wf k) (op : PasswordChange) (hok : EndsAll k s (.change op)) :
    (siteStep k s (.change op)).Wf k := by
  have hkeeps : Db.Keeps s.db (op.run k s.policy s.now s.pw s.db).2 := op.run_keeps
  simp only [siteStep]
  cases hc : (op.run k s.policy s.now s.pw s.db).1.changed with
  | none => exact h.keeps hkeeps (Nat.le_refl _) rfl rfl rfl
  | some i =>
    have hbase : ({ s with db := (op.run k s.policy s.now s.pw s.db).2 } : Site).Wf k :=
      h.keeps hkeeps (Nat.le_refl _) rfl rfl rfl
    refine ⟨?_, ?_, hbase.devices, hbase.links, hbase.nodup⟩
    · intro c hmem
      rcases List.mem_append.1 hmem with hmem | hmem
      · exact ⟨(hbase.known c hmem).version, (hbase.known c hmem).drawn⟩
      · -- the cookie that was issued again carries the new version
        split at hmem
        · rename_i u _ hu
          obtain rfl := List.mem_singleton.1 hmem
          refine ⟨fun v hv u' hu' => ?_, fun y hy => by cases hy⟩
          have hid : u.id = i := Db.user_id hu
          have heq : u' = u := Option.some.inj (hu'.symm.trans (by rw [Credential.userId, Minting.userId, hid]; exact hu))
          obtain rfl := Option.some.inj hv
          rw [heq]
          exact Int.le_refl _
        · cases hmem
    · intro c hmem
      rcases List.mem_append.1 hmem with hmem | hmem
      · obtain ⟨hin, hdead⟩ := hbase.ended c hmem
        exact ⟨List.mem_append_left _ hin, hdead⟩
      · obtain ⟨hin, hi⟩ := List.mem_filter.1 hmem
        have hi' : c.userId = i := by simpa using hi
        refine ⟨List.mem_append_left _ hin, ?_⟩
        rcases hok i hc c hin hi' with hdead | hr
        · exact hdead.mono hkeeps (Nat.le_refl _)
        · exact revoked_dead h hc hin hi' hr

theorem siteStep_wf (s : Site) (e : SiteEvent) (h : s.Wf k) (hok : EndsAll k s e) : (siteStep k s e).Wf k := by
  cases e with
  | tick ms => exact h.keeps (.refl _) (Nat.le_add_right _ _) rfl rfl rfl
  | configure policy pw => exact h.keeps (.refl _) (Nat.le_refl _) rfl rfl rfl
  | edit i row => exact h.keeps (.setUser (fun _ _ => rfl) (fun _ _ => Int.le_refl _)) (Nat.le_refl _) rfl rfl rfl
  | signOut i => exact h.keeps (keeps_revoke_bump (.refl _)) (Nat.le_refl _) rfl rfl rfl
  | claim resumeId who serverId => exact h.keeps (.refl _) (Nat.le_refl _) rfl rfl rfl
  | discardAll i => exact h.keeps (.refl _) (Nat.le_refl _) rfl rfl rfl
  | trust i cookies fresh => exact h.trust i cookies fresh
  | sendLink i raw => exact h.sendLink i raw
  | change op => exact h.change op hok
  | mint m =>
    simp only [siteStep]
    cases hu : s.db.user m.userId with
    | none => exact h
    | some u =>
      simp only
      split
      · rename_i hcur
        refine h.issue ⟨fun v hv u' hu' => ?_, fun y hy => by cases hy⟩
        obtain rfl := Option.some.inj (hu'.symm.trans hu)
        simp only [Credential.version] at hv
        split at hv
        · rename_i hver
          obtain rfl := Option.some.inj hv
          simp only [Minting.isCurrent, hver, Bool.not_true, Bool.false_or, Bool.and_eq_true, beq_iff_eq] at hcur
          omega
        · cases hv
      · exact h
  | park x =>
    simp only [siteStep]
    cases hu : s.db.user x.userId with
    | none => exact h
    | some u =>
      simp only
      split
      · rename_i hle
        refine Site.Wf.issue (h.keeps (.refl _) (Nat.le_refl _) rfl rfl rfl) ⟨fun v hv u' hu' => ?_, fun y hy => by cases hy⟩
        obtain rfl := Option.some.inj (hu'.symm.trans hu)
        obtain rfl := Option.some.inj hv
        exact hle
      · exact h

/-- **Nothing handed out to a user before a password change is accepted after it**, in every history whose
changes find alive only what they revoke. -/
theorem nothing_outlives {s : Site} (hs : s.Fresh) {es : List SiteEvent} (hg : Guarded (siteStep k) (EndsAll k) s es)
    {pre post : List SiteEvent} (hsplit : es = pre ++ post) :
    ∀ c ∈ (runs (siteStep k) s pre).ended, ¬ c.Accepted k (runs (siteStep k) s pre) := by
  intro c hc
  rw [hsplit] at hg
  have hwf := runs_invariant siteStep_wf pre s hs.wf hg.of_append
  exact (hwf.ended c hc).2.not_accepted

theorem mem_ended_of_change {s : Site} {op : PasswordChange} {c : Credential}
    (h : (op.run k s.policy s.now s.pw s.db).1.changed = some c.userId) (hc : c ∈ s.issued) :
    c ∈ (siteStep k s (.change op)).ended := by
  simp only [siteStep, h]
  exact List.mem_append_right _ (List.mem_filter.2 ⟨hc, by simp⟩)

/-- A session, and an admin's reset after it. -/
theorem nothing_outlives_reset :
    Credential.token (.session { id := 1 }) {} 0 ∈ (runs (siteStep clearText) { db := { users := [{ id := 1 }] }, now := 0 }
        [.mint (.session { id := 1 }), .change (.adminReset 1 (lit "Temp-12345") false 0)]).ended ∧
      ¬ Credential.Accepted clearText (runs (siteStep clearText) { db := { users := [{ id := 1 }] }, now := 0 }
        [.mint (.session { id := 1 }), .change (.adminReset 1 (lit "Temp-12345") false 0)])
        (.token (.session { id := 1 }) {} 0) := by
  let es : List SiteEvent := [.mint (.session { id := 1 }), .change (.adminReset 1 (lit "Temp-12345") false 0)]
  have hended : Credential.token (.session { id := 1 }) {} 0 ∈
      (runs (siteStep clearText) { db := { users := [{ id := 1 }] }, now := 0 } es).ended := by
    rw [runs_cons, runs_cons, runs_nil]
    exact mem_ended_of_change rfl (List.mem_singleton.2 rfl)
  refine ⟨hended, @nothing_outlives clearText _ ⟨rfl, rfl, by simp, by simp, by simp⟩ es ⟨trivial, ?_, trivial⟩ es []
    (List.append_nil _).symm _ hended⟩
  intro i _ c hc _
  have hsession : c = .token (.session { id := 1 }) {} 0 := List.mem_singleton.1 hc
  rw [hsession]
  exact Or.inr rfl

/-- The session cookie of a forced change lives on beside the one that is issued again. -/
theorem forced_change_keeps_session : ¬ ∀ (k : Crypto) (s : Site) (es : List SiteEvent), s.Fresh →
    ∀ pre post, es = pre ++ post → ∀ c ∈ (runs (siteStep k) s pre).ended, ¬ c.Accepted k (runs (siteStep k) s pre) := by
  intro h
  let alice : User := { id := 1, mustChangePassword := true }
  let op := PasswordChange.forced
    ⟨some (createUserAccessToken {} 0 alice), lit "/auth/force-password", lit "POST", none⟩ {} ⟨lit "New-123456", lit "New-123456", 0⟩
  let start : Site := { db := { users := [alice] }, now := 0 }
  let before := siteStep clearText start (.mint (.session alice))
  have hchanged : (op.run clearText before.policy before.now before.pw before.db).1.changed = some 1 := by decide +kernel
  have hended : Credential.token (.session alice) {} 0 ∈
      (runs (siteStep clearText) start [.mint (.session alice), .change op]).ended := by
    rw [runs_cons, runs_cons, runs_nil]
    exact @mem_ended_of_change clearText before op _ hchanged (List.mem_singleton.2 rfl)
  refine h clearText start _ ⟨rfl, rfl, by simp [start], by simp [start], by simp [start]⟩ _ []
    (List.append_nil _).symm _ hended ⟨.session ⟨none, lit "/", lit "GET", none⟩, rfl, trivial, ?_⟩
  unfold Use.Accepts
  decide +kernel

end Runs

end PiHerder.Auth
