import PiHerder.Auth.Sso
import PiHerder.Lib.Runs

/-!
# Whom a log-in by single sign-on signs in

Log-ins, links, unlinks and the removal of a password, over any run. A log-in by a link, or by an address that the
provider calls verified; each subject of an issuer linked to one user, and each user to one subject of an issuer; and
a way back in for everybody.

Two texts of an issuer are compared after `normalize_issuer` has been applied twice, or three times: it strips blanks
first and slashes then, and is not idempotent (`Settled`).
-/
namespace PiHerder.Auth
open Lib Lib.Str

inductive IdentityEvent
  | login (cfg : SsoConfig) (claims : Claims) (hash : Str)
  | link (cfg : SsoConfig) (claims : Claims) (userId : Nat)
  | unlink (userId identityId : Nat) (stepUp : Bool) (f : NewPassword)
  | removePassword (userId : Nat) (stepUp : Bool) (hash : Str)

section Step
variable (k : Crypto) (pw : PasswordPolicy) (repr : JsonValue → Str)

def identityStep (db : Directory) : IdentityEvent → Directory
  | .login cfg claims hash => (oidcLogin repr cfg claims db hash).2
  | .link cfg claims userId => (oidcLink repr cfg claims db userId).2
  | .unlink userId identityId stepUp f => oidcUnlink k pw db userId identityId stepUp f
  | .removePassword userId stepUp hash => passwordRemove db userId stepUp hash

end Step

/-- The text under which an identity of the configured issuer is stored. -/
def issuerOf (cfg : SsoConfig) : Str := normalizeIssuer (normalizeIssuer cfg.oidcIssuer)

/-- The provider states the address verified: the boolean, or the text `true`. -/
def StatedVerified (cfg : SsoConfig) (claims : Claims) : Prop :=
  cfg.requireEmailVerified = true → match JsonValue.get claims (lit "email_verified") with
    | .bool b => b = true
    | .str s => s = lit "true"
    | _ => False

/-- Why a log-in may sign in a user who is there. -/
structure Rightful (repr : JsonValue → Str) (cfg : SsoConfig) (claims : Claims) (db : Directory) (u : User) : Prop where
  active : u.isActive = true
  why : (∃ i ∈ db.identities, i.userId = u.id ∧ i.issuer = issuerOf cfg ∧ i.subject = subject repr claims) ∨
    (emailFromClaims claims = .ok (some u.email) ∧ StatedVerified cfg claims ∧ domainAllowed cfg (some u.email) = true ∧
      ∀ i ∈ db.identities, i.userId = u.id → i.issuer ≠ issuerOf cfg)

/-- A subject of an issuer is one user's, and a user has one subject of an issuer. -/
structure OneLink (db : Directory) : Prop where
  user : ∀ i ∈ db.identities, ∀ j ∈ db.identities, i.issuer = j.issuer → i.subject = j.subject → i.userId = j.userId
  subject : ∀ i ∈ db.identities, ∀ j ∈ db.identities, i.issuer = j.issuer → i.userId = j.userId → i.subject = j.subject

/-- A password, or a link by which some log-in finds the user. -/
def CanSignIn (repr : JsonValue → Str) (db : Directory) (u : User) : Prop :=
  u.passwordLoginEnabled = true ∨ ∃ cfg claims hash, findUserForLogin repr cfg claims db hash = .ok (db, u, .existing)

/-- What holds after an event in the state it finds. -/
structure SafeEvent (k : Crypto) (pw : PasswordPolicy) (repr : JsonValue → Str) (db : Directory) (e : IdentityEvent) : Prop where
  rightful : ∀ cfg claims hash, e = .login cfg claims hash → ∀ found u reason,
    findUserForLogin repr cfg claims db hash = .ok (found, u, reason) → u ∈ db.users → Rightful repr cfg claims db u
  oneLink : OneLink (identityStep k pw repr db e)
  wayIn : ∀ u ∈ (identityStep k pw repr db e).users, u.isActive = true → CanSignIn repr (identityStep k pw repr db e) u

/-! ## The condition -/

/-- The log-in has no link to go by, and its address is that of one active user without a link of this issuer. -/
def MatchesByEmail (repr : JsonValue → Str) (cfg : SsoConfig) (claims : Claims) (db : Directory) : Prop :=
  (∀ i ∈ db.identities, i.issuer = issuerOf cfg → i.subject ≠ subject repr claims) ∧ cfg.autoLinkByEmail = true ∧
    ∃ u ∈ db.users, u.isActive = true ∧ emailFromClaims claims = .ok (some u.email) ∧ domainAllowed cfg (some u.email) = true ∧
      ∀ i ∈ db.identities, i.userId = u.id → i.issuer ≠ issuerOf cfg

/-- The issuer has no more blanks and slashes at its end to lose, or no identity of it is stored yet. -/
def Settled (cfg : SsoConfig) (db : Directory) : Prop :=
  normalizeIssuer (issuerOf cfg) = issuerOf cfg ∨
    ∀ i ∈ db.identities, i.issuer ≠ issuerOf cfg ∧ i.issuer ≠ normalizeIssuer (issuerOf cfg)

example : ¬ Settled { oidcIssuer := lit "https://idp/ / /" } { identities := [⟨1, 1, lit "https://idp/ ", lit "a", none⟩] } := by
  unfold Settled
  decide +kernel

def IdentityEvent.Ok (repr : JsonValue → Str) (db : Directory) : IdentityEvent → Prop
  | .login cfg claims _ => Settled cfg db ∧ (MatchesByEmail repr cfg claims db →
      (JsonValue.get claims (lit "email_verified")).truthy = true → StatedVerified cfg claims)
  | .link cfg _ _ => Settled cfg db
  | .unlink _ _ _ _ => True
  | .removePassword userId _ _ => db.hasOidcLink userId = true → ∃ i ∈ db.identities, i.userId = userId ∧ i.subject ≠ []

/-! ## The invariant -/

/-- Rows with ids of their own, and links that say whose they are. -/
structure Directory.Linked (db : Directory) : Prop extends OneLink db where
  userIds : (db.users.map User.id).Nodup
  identityIds : (db.identities.map OidcIdentity.id).Nodup
  owner : ∀ i ∈ db.identities, i.userId ∈ db.users.map User.id
  issuer : ∀ i ∈ db.identities, i.issuer ≠ [] ∧ ∃ cfg, issuerOf cfg = i.issuer
  stripped : ∀ i ∈ db.identities, strip i.subject = i.subject

/-- Every active user has a password, or a link with a subject. -/
def Directory.WayIn (db : Directory) : Prop :=
  ∀ u ∈ db.users, u.isActive = true → u.passwordLoginEnabled = true ∨ ∃ i ∈ db.identities, i.userId = u.id ∧ i.subject ≠ []

section Lookups
variable {db : Directory}

/-- The lookup normalizes the issuer once more. -/
theorem getIdentityByIssSub_some {issuer sub : Str} {i : OidcIdentity} (h : db.getIdentityByIssSub issuer sub = some i) :
    i ∈ db.identities ∧ i.issuer = normalizeIssuer issuer ∧ i.subject = strip sub := by
  unfold Directory.getIdentityByIssSub at h
  split at h
  · cases h
  · have hkey := List.find?_some h
    simp only [Bool.and_eq_true, beq_iff_eq] at hkey
    exact ⟨List.mem_of_find?_eq_some h, hkey.1, hkey.2⟩

theorem getIdentityForUserIssuer_none {userId : Nat} {issuer : Str} (h : db.getIdentityForUserIssuer userId issuer = none) :
    ∀ i ∈ db.identities, i.userId = userId → i.issuer ≠ normalizeIssuer issuer := by
  unfold Directory.getIdentityForUserIssuer at h
  intro i hi hu hiss
  exact absurd (List.find?_eq_none.1 h i hi) (by simp [hu, hiss])

theorem subject_strip (repr : JsonValue → Str) (claims : Claims) : strip (subject repr claims) = subject repr claims := by
  unfold subject
  simp only
  split
  · exact strip_strip _
  · rfl

theorem getIdentityByIssSub_none {issuer sub : Str} (h : db.getIdentityByIssSub issuer sub = none) (hiss : normalizeIssuer issuer ≠ [])
    (hsub : strip sub ≠ []) : ∀ i ∈ db.identities, i.issuer = normalizeIssuer issuer → i.subject ≠ strip sub := by
  intro i hi hissuer hsubject
  unfold Directory.getIdentityByIssSub at h
  rw [if_neg (by simp [hiss, hsub])] at h
  exact absurd (List.find?_eq_none.1 h i hi) (by simp [hissuer, hsubject])

/-- **A log-in finds the right account.** -/
theorem findUserForLogin_rightful {repr : JsonValue → Str} {cfg : SsoConfig} {claims : Claims} {found : Directory} {hash : Str} {u : User}
    {reason : LinkReason} (hl : db.Linked) (h : findUserForLogin repr cfg claims db hash = .ok (found, u, reason)) (hu : u ∈ db.users)
    (hok : MatchesByEmail repr cfg claims db → (JsonValue.get claims (lit "email_verified")).truthy = true → StatedVerified cfg claims) :
    Rightful repr cfg claims db u := by
  obtain ⟨hsub, ⟨-, -, i, hident, huser, hactive⟩ | ⟨hnone, email, hemail, hdomain, hverified, hcase⟩⟩ := findUserForLogin_ok h
  · obtain ⟨hi, hiss, hsub⟩ := getIdentityByIssSub_some hident
    rw [subject_strip] at hsub
    exact ⟨hactive, Or.inl ⟨i, hi, (Table.lookup_key huser).symm, hiss, hsub⟩⟩
  rcases hcase with ⟨-, -, hauto, hmatch, hother⟩ | ⟨-, -, -, hid, -⟩
  · have hmem : u ∈ (db.byEmail email).filter (·.isActive) := hmatch ▸ List.mem_singleton_self u
    obtain ⟨hrow, hactive⟩ := List.mem_filter.1 hmem
    obtain rfl : u.email = email := beq_iff_eq.1 (List.mem_filter.1 hrow).2
    have hother' := getIdentityForUserIssuer_none hother
    refine ⟨hactive, Or.inr ⟨hemail, fun hreq => ?_, hdomain, hother'⟩⟩
    -- a claim that was taken for verified is a true value
    have htruthy : (JsonValue.get claims (lit "email_verified")).truthy = true := by
      unfold emailVerifiedOk at hverified
      simpa [hreq] using hverified
    refine hok ⟨fun i hi hiss => ?_, hauto, u, hu, hactive, hemail, hdomain, hother'⟩ htruthy hreq
    have hne := (hl.issuer i hi).1
    have := getIdentityByIssSub_none hnone (fun hnil => hne (hiss.trans hnil)) (by rw [subject_strip]; simpa using hsub) i hi hiss
    rwa [subject_strip] at this
  · exact absurd (List.mem_map_of_mem hu) (hid ▸ freshId_not_mem _)

/-- **A link with a subject is a way in.** -/
theorem Directory.Linked.canSignIn {repr : JsonValue → Str} (hl : db.Linked) (hw : db.WayIn) {u : User} (hu : u ∈ db.users)
    (hactive : u.isActive = true) : CanSignIn repr db u := by
  rcases hw u hu hactive with hpass | ⟨i, hi, huser, hsub⟩
  · exact Or.inl hpass
  obtain ⟨hiss, cfg, hcfg⟩ := hl.issuer i hi
  refine Or.inr ⟨cfg, [(lit "sub", .str i.subject)], [], ?_⟩
  have hsubject : subject repr [(lit "sub", .str i.subject)] = i.subject := by
    simp [subject, JsonValue.get, Dict.get?, JsonValue.truthy, JsonValue.text, hsub, hl.stripped i hi]
  have hrow : ∃ j, db.getIdentityByIssSub (normalizeIssuer cfg.oidcIssuer) i.subject = some j ∧ j.userId = u.id := by
    cases hj : db.getIdentityByIssSub (normalizeIssuer cfg.oidcIssuer) i.subject with
    | none =>
      have hne := getIdentityByIssSub_none hj (by rw [← hcfg] at hiss; exact hiss) (by rwa [hl.stripped i hi]) i hi hcfg.symm
      exact absurd (hl.stripped i hi).symm hne
    | some j =>
      obtain ⟨hj, hjiss, hjsub⟩ := getIdentityByIssSub_some hj
      refine ⟨j, rfl, (hl.user j hj i hi (hjiss.trans hcfg) (hjsub.trans (hl.stripped i hi))).trans huser⟩
  obtain ⟨j, hj, hjuser⟩ := hrow
  have hlook : db.user j.userId = some u := by
    rw [hjuser]
    cases hfind : db.user u.id with
    | none => exact absurd (List.find?_eq_none.1 hfind u hu) (by simp)
    | some v => rw [List.inj_on_of_nodup_map hl.userIds (Table.lookup_mem hfind) hu (Table.lookup_key hfind)]
  unfold findUserForLogin
  simp only [hsubject, hj, hlook, hactive, if_true]
  rw [if_neg (by simpa using hsub)]

end Lookups
/-! ## One event -/

section Events
variable {db db' : Directory} {cfg : SsoConfig} {claims : Claims} {repr : JsonValue → Str}

/-- Users that sign in as before keep what holds of the links. -/
theorem Directory.Linked.of_account (hl : db.Linked) (hu : db'.users.map User.account = db.users.map User.account)
    (hi : db'.identities = db.identities) : db'.Linked := by
  have hids : db'.users.map User.id = db.users.map User.id := by
    simpa [List.map_map, Function.comp_def, User.account] using congrArg (List.map fun a : Nat × Str × Bool × Bool => a.1) hu
  exact ⟨⟨hi ▸ hl.user, hi ▸ hl.subject⟩, hids ▸ hl.userIds, hi ▸ hl.identityIds, by rw [hi, hids]; exact hl.owner, hi ▸ hl.issuer, hi ▸ hl.stripped⟩

theorem Directory.WayIn.of_account (hw : db.WayIn) (hu : db'.users.map User.account = db.users.map User.account)
    (hi : db'.identities = db.identities) : db'.WayIn := by
  intro u humem hactive
  have hmem : u.account ∈ db.users.map User.account := hu ▸ List.mem_map_of_mem humem
  obtain ⟨v, hv, hva⟩ := List.mem_map.1 hmem
  have hid : v.id = u.id := congrArg (·.1) hva
  have hact : v.isActive = u.isActive := congrArg (·.2.2.1) hva
  have hpass : v.passwordLoginEnabled = u.passwordLoginEnabled := congrArg (·.2.2.2) hva
  rw [hi, ← hid, ← hpass]
  exact hw v hv (hact.trans hactive)

/-- A user who is added keeps what holds of the links. -/
theorem Directory.Linked.addUser (hl : db.Linked) {u : User} (hid : u.id = freshId (db.users.map User.id)) :
    Directory.Linked { db with users := db.users ++ [u] } where
  user := hl.user
  subject := hl.subject
  userIds := by
    rw [List.map_append, List.nodup_append]
    refine ⟨hl.userIds, List.nodup_singleton _, fun a ha b hb => ?_⟩
    obtain rfl := List.mem_singleton.1 hb
    rintro rfl
    exact freshId_not_mem _ (hid ▸ ha)
  identityIds := hl.identityIds
  owner i hi := by
    rw [List.map_append]
    exact List.mem_append_left _ (hl.owner i hi)
  issuer := hl.issuer
  stripped := hl.stripped

/-- Nothing stored under the issuer's text says that nothing is stored under the text of the third lookup. -/
theorem Settled.third (hs : Settled cfg db) {p : OidcIdentity → Prop} (h : ∀ i ∈ db.identities, p i → i.issuer ≠ issuerOf cfg) :
    ∀ i ∈ db.identities, p i → i.issuer ≠ normalizeIssuer (issuerOf cfg) := by
  rcases hs with hs | hs
  · rwa [hs]
  · exact fun i hi _ => (hs i hi).2

theorem Settled.second (hs : Settled cfg db) {p : OidcIdentity → Prop} (h : ∀ i ∈ db.identities, p i → i.issuer ≠ normalizeIssuer (issuerOf cfg)) :
    ∀ i ∈ db.identities, p i → i.issuer ≠ issuerOf cfg := by
  rcases hs with hs | hs
  · rwa [hs] at h
  · exact fun i hi _ => (hs i hi).1

/-- **A link that is made** keeps the two laws, where the issuer is settled. -/
theorem Directory.Linked.createLink (hl : db.Linked) (hs : Settled cfg db) {userId : Nat} {sub : Str}
    (hu : userId ∈ db.users.map User.id) (hiss : issuerOf cfg ≠ [])
    (h : createLink db userId (normalizeIssuer cfg.oidcIssuer) sub claims = .ok db') :
    db'.Linked ∧ db'.users = db.users ∧ (∀ i ∈ db.identities, i ∈ db'.identities) ∧
      ∀ i ∈ db'.identities, i ∈ db.identities ∨ i.userId = userId ∧ i.subject = strip sub := by
  rcases createLink_ok h with ⟨rfl, -⟩ | ⟨hother, hfree, email, rfl⟩
  · exact ⟨hl, rfl, fun _ hi => hi, fun _ hi => Or.inl hi⟩
  have hother' := hs.second (getIdentityForUserIssuer_none hother)
  change ∀ i ∈ db.identities, i.issuer = issuerOf cfg → i.subject ≠ strip sub at hfree
  refine ⟨⟨⟨?_, ?_⟩, hl.userIds, ?_, ?_, ?_, ?_⟩, rfl, fun i hi => List.mem_append_left _ hi, ?_⟩
  · intro i hi j hj hissuer hsubject
    rcases List.mem_append.1 hi with hi | hi <;> rcases List.mem_append.1 hj with hj | hj
    · exact hl.user i hi j hj hissuer hsubject
    · rw [List.mem_singleton.1 hj] at hissuer hsubject
      exact absurd hsubject (hfree i hi hissuer)
    · rw [List.mem_singleton.1 hi] at hissuer hsubject
      exact absurd hsubject.symm (hfree j hj hissuer.symm)
    · rw [List.mem_singleton.1 hi, List.mem_singleton.1 hj]
  · intro i hi j hj hissuer huser
    rcases List.mem_append.1 hi with hi | hi <;> rcases List.mem_append.1 hj with hj | hj
    · exact hl.subject i hi j hj hissuer huser
    · rw [List.mem_singleton.1 hj] at hissuer huser
      exact absurd hissuer (hother' i hi huser)
    · rw [List.mem_singleton.1 hi] at hissuer huser
      exact absurd hissuer.symm (hother' j hj huser.symm)
    · rw [List.mem_singleton.1 hi, List.mem_singleton.1 hj]
  · rw [List.map_append, List.nodup_append]
    refine ⟨hl.identityIds, List.nodup_singleton _, fun a ha b hb => ?_⟩
    obtain rfl := List.mem_singleton.1 hb
    rintro rfl
    exact freshId_not_mem _ ha
  · intro i hi
    rcases List.mem_append.1 hi with hi | hi
    · exact hl.owner i hi
    · rw [List.mem_singleton.1 hi]
      exact hu
  · intro i hi
    rcases List.mem_append.1 hi with hi | hi
    · exact hl.issuer i hi
    · rw [List.mem_singleton.1 hi]
      exact ⟨hiss, cfg, rfl⟩
  · intro i hi
    rcases List.mem_append.1 hi with hi | hi
    · exact hl.stripped i hi
    · rw [List.mem_singleton.1 hi]
      exact strip_strip _
  · intro i hi
    rcases List.mem_append.1 hi with hi | hi
    · exact Or.inl hi
    · rw [List.mem_singleton.1 hi]
      exact Or.inr ⟨rfl, rfl⟩

/-- Where the search found no link and the user has none of this issuer, the link is made. -/
theorem createLink_new (hs : Settled cfg db) {userId : Nat} {sub : Str} {email : Str} (hemail : emailFromClaims claims = .ok (some email))
    (hfree : ∀ i ∈ db.identities, i.issuer = issuerOf cfg → i.subject ≠ strip sub)
    (hother : ∀ i ∈ db.identities, i.userId = userId → i.issuer ≠ issuerOf cfg) :
    ∃ db' i, createLink db userId (normalizeIssuer cfg.oidcIssuer) sub claims = .ok db' ∧ i ∈ db'.identities ∧ i.userId = userId ∧
      i.subject = strip sub := by
  have hthird := hs.third hother
  have hident : db.getIdentityByIssSub (issuerOf cfg) (strip sub) = none := by
    cases hi : db.getIdentityByIssSub (issuerOf cfg) (strip sub) with
    | none => rfl
    | some i =>
      obtain ⟨hmem, hissuer, hsubject⟩ := getIdentityByIssSub_some hi
      rw [strip_strip] at hsubject
      have hno := hs.third (p := fun i => i.subject = strip sub) (fun i hi hsub hiss => hfree i hi hiss hsub)
      exact absurd hissuer (hno i hmem hsubject)
  have huser : db.getIdentityForUserIssuer userId (issuerOf cfg) = none := by
    unfold Directory.getIdentityForUserIssuer
    rw [List.find?_eq_none]
    intro i hi hkey
    simp only [Bool.and_eq_true, beq_iff_eq] at hkey
    exact hthird i hi hkey.1 hkey.2
  have hindex : db.identities.any (fun i => i.issuer == issuerOf cfg && i.subject == strip sub) = false := by
    rw [List.any_eq_false]
    intro i hi hkey
    simp only [Bool.and_eq_true, beq_iff_eq] at hkey
    exact hfree i hi hkey.1 hkey.2
  unfold issuerOf at hident huser hindex
  refine ⟨{ db with identities := db.identities ++
      [⟨freshId (db.identities.map (·.id)), userId, normalizeIssuer (normalizeIssuer cfg.oidcIssuer), strip sub, some email⟩] }, _, ?_,
    List.mem_append_right _ (List.mem_singleton_self _), rfl, rfl⟩
  unfold createLink
  simp only [hident, huser, hemail, hindex, Option.isSome_none, Bool.false_eq_true, if_false]

theorem tokensOk_ok (h : tokensOk cfg claims = .ok ()) :
    issuerOf cfg ≠ [] ∧ subject repr claims = strip ((JsonValue.get claims (lit "sub")).text repr) := by
  unfold tokensOk at h
  split at h
  · cases h
  rename_i hiss
  split at h
  · cases h
  rename_i hsub
  refine ⟨by simpa [issuerOf] using hiss, ?_⟩
  unfold subject
  simp only
  rw [if_pos (by simpa using hsub)]

/-- A way in is kept where the users stay and no link goes. -/
theorem Directory.WayIn.mono (hw : db.WayIn) (hu : db'.users = db.users) (hi : ∀ i ∈ db.identities, i ∈ db'.identities) : db'.WayIn := by
  intro u humem hactive
  rw [hu] at humem
  refine (hw u humem hactive).imp_right ?_
  rintro ⟨i, hmem, huser, hsub⟩
  exact ⟨i, hi i hmem, huser, hsub⟩

theorem oidcLogin_linked (hl : db.Linked) (hw : db.WayIn) (hs : Settled cfg db) (hash : Str) :
    (oidcLogin repr cfg claims db hash).2.Linked ∧ (oidcLogin repr cfg claims db hash).2.WayIn := by
  unfold oidcLogin
  split
  · exact ⟨hl, hw⟩
  rename_i htokens
  obtain ⟨hiss, htext⟩ := @tokensOk_ok cfg claims repr htokens
  split
  · exact ⟨hl, hw⟩
  · rename_i found u hfound
    obtain ⟨-, ⟨-, rfl, -⟩ | ⟨-, email, -, -, -, ⟨h, -⟩ | ⟨h, -⟩⟩⟩ := findUserForLogin_ok hfound
    · exact ⟨hl.of_account maybeSyncRole_account.1 maybeSyncRole_account.2, hw.of_account maybeSyncRole_account.1 maybeSyncRole_account.2⟩
    · cases h
    · cases h
  · rename_i found u reason hreason hfound
    obtain ⟨hsub, ⟨rfl, -, -⟩ | ⟨hnone, email, hemail, -, -, ⟨-, rfl, -, hmatch, -⟩ | ⟨-, rfl, -, hid, -⟩⟩⟩ := findUserForLogin_ok hfound
    · exact (hreason rfl).elim
    · -- an account that is there: at worst nothing is linked
      have hu : u.id ∈ found.users.map User.id := by
        have hmem : u ∈ (found.byEmail email).filter (·.isActive) := hmatch ▸ List.mem_singleton_self u
        exact List.mem_map_of_mem (List.mem_filter.1 (List.mem_filter.1 hmem).1).1
      split
      · exact ⟨hl, hw⟩
      · exact ⟨hl, hw⟩
      · rename_i linked hlink
        obtain ⟨hl', husers, hold, -⟩ := hl.createLink hs hu hiss hlink
        exact ⟨hl'.of_account maybeSyncRole_account.1 maybeSyncRole_account.2,
          (hw.mono husers hold).of_account maybeSyncRole_account.1 maybeSyncRole_account.2⟩
    · -- a new account: it is linked, since nobody has the link
      have hfree : ∀ i ∈ db.identities, i.issuer = issuerOf cfg → i.subject ≠ strip ((JsonValue.get claims (lit "sub")).text repr) := by
        rw [← htext]
        have := getIdentityByIssSub_none hnone hiss (by rw [subject_strip]; simpa using hsub)
        rwa [subject_strip] at this
      have hother : ∀ i ∈ db.identities, i.userId = u.id → i.issuer ≠ issuerOf cfg := by
        intro i hi huser
        exact absurd (hl.owner i hi) (by rw [huser, hid]; exact freshId_not_mem _)
      have hl₁ := hl.addUser hid
      obtain ⟨linked, i, hlink, hi, huser, hsubject⟩ := @createLink_new { db with users := db.users ++ [u] } _ _ hs _ _ _ hemail hfree hother
      rw [hlink]
      obtain ⟨hl', husers, hold, -⟩ := hl₁.createLink hs (by simp) hiss hlink
      have hw' : linked.WayIn := by
        intro v hv hactive
        rw [husers] at hv
        rcases List.mem_append.1 hv with hv | hv
        · refine (hw v hv hactive).imp_right ?_
          rintro ⟨j, hj, hjuser, hjsub⟩
          exact ⟨j, hold j hj, hjuser, hjsub⟩
        · refine Or.inr ⟨i, hi, by rw [List.mem_singleton.1 hv, huser], ?_⟩
          rw [hsubject, ← htext]
          simpa using hsub
      exact ⟨hl'.of_account maybeSyncRole_account.1 maybeSyncRole_account.2, hw'.of_account maybeSyncRole_account.1 maybeSyncRole_account.2⟩

theorem oidcLink_linked (hl : db.Linked) (hw : db.WayIn) (hs : Settled cfg db) (userId : Nat) :
    (oidcLink repr cfg claims db userId).2.Linked ∧ (oidcLink repr cfg claims db userId).2.WayIn := by
  unfold oidcLink
  split
  · exact ⟨hl, hw⟩
  rename_i htokens
  obtain ⟨hiss, -⟩ := @tokensOk_ok cfg claims repr htokens
  split
  · exact ⟨hl, hw⟩
  rename_i u hu
  split
  · exact ⟨hl, hw⟩
  split
  · exact ⟨hl, hw⟩
  · rename_i linked hlink
    obtain ⟨hl', husers, hold, -⟩ := hl.createLink hs (List.mem_map_of_mem (Table.lookup_mem hu)) hiss hlink
    exact ⟨hl', hw.mono husers hold⟩

/-- A write of one user that keeps the id keeps what holds of the links. -/
theorem Directory.Linked.setUser (hl : db.Linked) (id : Nat) {f : User → User} (hf : ∀ u, (f u).id = u.id) : (db.setUser id f).Linked := by
  have hids : (db.setUser id f).users.map User.id = db.users.map User.id := by
    simp only [Directory.setUser, List.map_map]
    refine List.map_congr_left fun v _ => ?_
    simp only [Function.comp_apply]
    split
    · exact hf v
    · rfl
  exact ⟨⟨hl.user, hl.subject⟩, hids ▸ hl.userIds, hl.identityIds, fun i hi => hids ▸ hl.owner i hi, hl.issuer, hl.stripped⟩

theorem Directory.Linked.dropIdentity (hl : db.Linked) (id : Nat) :
    Directory.Linked { db with identities := db.identities.filter fun i => i.id != id } where
  user i hi j hj := hl.user i (List.mem_of_mem_filter hi) j (List.mem_of_mem_filter hj)
  subject i hi j hj := hl.subject i (List.mem_of_mem_filter hi) j (List.mem_of_mem_filter hj)
  userIds := hl.userIds
  identityIds := hl.identityIds.sublist (List.filter_sublist.map _)
  owner i hi := hl.owner i (List.mem_of_mem_filter hi)
  issuer i hi := hl.issuer i (List.mem_of_mem_filter hi)
  stripped i hi := hl.stripped i (List.mem_of_mem_filter hi)

/-- A link of a user with a password may go: the others keep theirs. -/
theorem Directory.WayIn.dropIdentity (hw : db.WayIn) (hl : db.Linked) {row : OidcIdentity} (hrow : row ∈ db.identities)
    (hpass : ∀ u ∈ db.users, u.id = row.userId → u.passwordLoginEnabled = true) :
    Directory.WayIn { db with identities := db.identities.filter fun i => i.id != row.id } := by
  intro u hu hactive
  by_cases hid : u.id = row.userId
  · exact Or.inl (hpass u hu hid)
  · refine (hw u hu hactive).imp_right ?_
    rintro ⟨i, hi, huser, hsub⟩
    refine ⟨i, List.mem_filter.2 ⟨hi, ?_⟩, huser, hsub⟩
    simp only [bne_iff_ne, ne_eq]
    intro hsame
    obtain rfl := List.inj_on_of_nodup_map hl.identityIds hi hrow hsame
    exact hid huser.symm

theorem user_eq (hl : db.Linked) {id : Nat} {u : User} (h : db.user id = some u) {v : User} (hv : v ∈ db.users) (hid : v.id = u.id) : v = u :=
  List.inj_on_of_nodup_map hl.userIds hv (Table.lookup_mem h) hid

theorem oidcUnlink_linked (k : Crypto) (pw : PasswordPolicy) (hl : db.Linked) (hw : db.WayIn) (userId identityId : Nat) (stepUp : Bool)
    (f : NewPassword) :
    (oidcUnlink k pw db userId identityId stepUp f).Linked ∧ (oidcUnlink k pw db userId identityId stepUp f).WayIn := by
  unfold oidcUnlink
  simp only
  split
  · rename_i u row hu hrow
    have hrowmem : row ∈ db.identities := List.mem_of_find?_eq_some hrow
    obtain rfl : row.id = identityId := by simpa using List.find?_some hrow
    split
    · exact ⟨hl, hw⟩
    rename_i hguard
    have howner : row.userId = u.id := by
      by_contra hne
      exact hguard (by simp [hne])
    split
    · rename_i hpass
      refine ⟨hl.dropIdentity _, hw.dropIdentity hl hrowmem fun v hv hid => ?_⟩
      rw [user_eq hl hu hv (hid.trans howner)]
      exact hpass
    split
    · exact ⟨hl, hw⟩
    split
    · exact ⟨hl, hw⟩
    · -- the new password is the way in that stays
      have hl' := hl.setUser u.id (f := fun u =>
        { u with hashedPassword := getPasswordHash k f.newPassword f.salt, passwordLoginEnabled := true, mustChangePassword := false })
        fun _ => rfl
      refine ⟨hl'.dropIdentity _, Directory.WayIn.dropIdentity ?_ hl' hrowmem fun v hv hid => ?_⟩
      · intro v hv hactive
        obtain ⟨w, hw', rfl⟩ := List.mem_map.1 hv
        split
        · exact Or.inl rfl
        · rename_i hne
          rw [if_neg hne] at hactive
          exact hw w hw' hactive
      · obtain ⟨w, hw', rfl⟩ := List.mem_map.1 hv
        split
        · rfl
        · rename_i hne
          rw [if_neg hne] at hid
          exact absurd (hid.trans howner) hne
  · exact ⟨hl, hw⟩

theorem passwordRemove_linked (hl : db.Linked) (hw : db.WayIn) (userId : Nat) (stepUp : Bool) (hash : Str)
    (hok : db.hasOidcLink userId = true → ∃ i ∈ db.identities, i.userId = userId ∧ i.subject ≠ []) :
    (passwordRemove db userId stepUp hash).Linked ∧ (passwordRemove db userId stepUp hash).WayIn := by
  unfold passwordRemove
  split
  · rename_i u hu
    obtain rfl : u.id = userId := Table.lookup_key hu
    split
    · exact ⟨hl, hw⟩
    · rename_i hguard
      simp only [Bool.or_eq_true, Bool.not_eq_true', not_or, Bool.not_eq_false] at hguard
      obtain ⟨i, hi, huser, hsub⟩ := hok hguard.1.1.2
      refine ⟨hl.setUser u.id fun _ => rfl, fun v hv hactive => ?_⟩
      obtain ⟨w, hw', rfl⟩ := List.mem_map.1 hv
      split
      · rename_i hid
        exact Or.inr ⟨i, hi, huser.trans hid.symm, hsub⟩
      · rename_i hne
        rw [if_neg hne] at hactive
        exact hw w hw' hactive
  · exact ⟨hl, hw⟩

theorem identityStep_linked (k : Crypto) (pw : PasswordPolicy) (hl : db.Linked) (hw : db.WayIn) {e : IdentityEvent} (hok : e.Ok repr db) :
    (identityStep k pw repr db e).Linked ∧ (identityStep k pw repr db e).WayIn := by
  cases e with
  | login cfg claims hash => exact oidcLogin_linked hl hw hok.1 hash
  | link cfg claims userId => exact oidcLink_linked hl hw hok userId
  | unlink userId identityId stepUp f => exact oidcUnlink_linked k pw hl hw userId identityId stepUp f
  | removePassword userId stepUp hash => exact passwordRemove_linked hl hw userId stepUp hash hok

theorem safeEvent (k : Crypto) (pw : PasswordPolicy) (hl : db.Linked) (hw : db.WayIn) {e : IdentityEvent} (hok : e.Ok repr db) :
    SafeEvent k pw repr db e := by
  obtain ⟨hl', hw'⟩ := identityStep_linked k pw hl hw hok
  refine ⟨fun cfg claims hash he found u reason h hu => ?_, hl'.toOneLink, fun u hu hactive => hl'.canSignIn hw' hu hactive⟩
  subst he
  exact findUserForLogin_rightful hl h hu hok.2

end Events

/-! ## Over a run -/

namespace OneUser

def ann : User := { id := 1, email := lit "ann@example.org" }

def idp : SsoConfig := { oidcIssuer := lit "https://idp.example.org/" }

/-- The claims of a provider about an address, and what it says of its verification. -/
def claims (sub : String) (verified : JsonValue) : Claims :=
  [(lit "sub", .str (lit sub)), (lit "email", .str (lit "Ann@example.org")), (lit "email_verified", verified)]

/-- Nothing but strings is written. -/
def repr : JsonValue → Str := fun _ => []

/-- Ann logs in by her address and gives up her password. -/
def events : List IdentityEvent := [.login idp (claims "a1" (.bool true)) [], .removePassword 1 true []]

theorem events_ok : Guarded (identityStep clearText {} repr) (IdentityEvent.Ok repr) { users := [ann] } events :=
  ⟨⟨Or.inl (by decide +kernel), fun _ _ _ => rfl⟩, fun _ => by decide +kernel, trivial⟩

end OneUser

end PiHerder.Auth
