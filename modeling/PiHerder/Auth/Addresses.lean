import PiHerder.Auth.Login
import PiHerder.Auth.Sso

/-!
# One account for each address

The four requests that write an e-mail address, and the three that look one up.

| here | there |
| --- | --- |
| `register`, `updateProfile` | `routers/auth.py:730`, `:1070` |
| `createUser`                | `routers/auth_users.py:158` |
| `loginLookup`               | `authenticate_user` (`security/auth.py:661`) |
| `resetLookup`               | `request_reset_email` (`services/password_reset.py:113`) |
| `ssoLookup`                 | the e-mail match of `find_user_for_login` |

`register` and `authenticate_user` take the text as it is typed; the others strip it and lower its case.
-/
namespace PiHerder.Auth
open Lib Lib.Str

/-- `(email or "").strip().lower()`. -/
def normalEmail (email : Str) : Str := lower (strip email)

section Requests
variable (k : Crypto) (pw : PasswordPolicy)

structure RegisterForm where
  email : Str
  password : Str
  salt : Nat := 0
  rateOk : Bool := true
  /-- `ALLOW_OPEN_REGISTRATION`. -/
  openRegistration : Bool := false

/-- The first user is the administrator. A form field that is required is not empty. -/
def register (db : Directory) (f : RegisterForm) : Directory :=
  if f.email.isEmpty || f.password.isEmpty then db
  else if !f.rateOk || !(f.openRegistration || db.users.isEmpty) then db
  else if !(db.byEmail f.email).isEmpty || !validatePassword pw f.password then db
  else { db with users := db.users ++
    [{ id := freshId (db.users.map User.id), email := f.email, hashedPassword := getPasswordHash k f.password f.salt,
       role := if db.users.isEmpty then .admin else .operator }] }

def createUser (db : Directory) (admin : Nat) (email password role : Str) (salt : Nat) : Directory :=
  let email := normalEmail email
  if !(db.user admin).any (fun u => u.isActive && u.role == .admin) then db
  else if email.isEmpty || !email.contains '@' || !validatePassword pw password || !(db.byEmail email).isEmpty then db
  else { db with users := db.users ++
    [{ id := freshId (db.users.map User.id), email := email, hashedPassword := getPasswordHash k password salt,
       role := normalizeRole role, mustChangePassword := true }] }

/-- `update_profile` of a signed-in user. The address is compared with the user's own in lower case. -/
def updateProfile (db : Directory) (userId : Nat) (email currentPassword : Str) : Directory :=
  match db.user userId with
  | none => db
  | some u =>
    let address := normalEmail email
    if !u.isActive || email.isEmpty || address == lower u.email then db
    else if currentPassword.isEmpty || !verifyPassword k currentPassword u.hashedPassword then db
    else if (db.byEmail address).head?.any fun taken => taken.id != u.id then db
    else db.setUser u.id fun u => { u with email := address }

end Requests

inductive AccountOp
  | register (f : RegisterForm)
  | createUser (admin : Nat) (email password role : Str) (salt : Nat)
  | updateProfile (userId : Nat) (email currentPassword : Str)
  | ssoLogin (cfg : SsoConfig) (claims : Claims) (hash : Str)

def accountStep (k : Crypto) (pw : PasswordPolicy) (repr : JsonValue → Str) (db : Directory) : AccountOp → Directory
  | .register f => register k pw db f
  | .createUser admin email password role salt => createUser k pw db admin email password role salt
  | .updateProfile userId email currentPassword => updateProfile k db userId email currentPassword
  | .ssoLogin cfg claims hash => (oidcLogin repr cfg claims db hash).2

section Lookups
variable (db : Directory) (email : Str)

/-- The row that a password is checked against. -/
def loginLookup : Option User := db.users.find? fun u => u.email == email

/-- The user whom a reset mail goes to. -/
def resetLookup : Option User := (db.users.find? fun u => u.email == normalEmail email).filter (·.isActive)

/-- The users that a log-in with this e-mail claim matches. -/
def ssoLookup : List User :=
  match emailFromClaims [(lit "email", .str email)] with
  | .ok (some email) => (db.byEmail email).filter (·.isActive)
  | _ => []

end Lookups

/-- Texts that differ in case and surrounding blanks only. -/
def Spells (e address : Str) : Prop := normalEmail e = normalEmail address

/-- No two users share an address, and reset mail and single sign-on find its user however it is spelled. -/
structure OneAddress (db : Directory) : Prop where
  apart : ∀ u ∈ db.users, ∀ v ∈ db.users, lower u.email = lower v.email → u = v
  reset : ∀ u ∈ db.users, ∀ e, Spells e u.email → resetLookup db e = some u
  sso : ∀ u ∈ db.users, ∀ e, Spells e u.email → ssoLookup db e = [u]

/-- And so does the password login. -/
structure OneAccount (db : Directory) : Prop extends OneAddress db where
  login : ∀ u ∈ db.users, ∀ e, Spells e u.email → loginLookup db e = some u

/-! ## What every run keeps -/

/-- Addresses are unique as texts, and nobody is switched off. -/
structure Directory.Sound (db : Directory) : Prop where
  ids : (db.users.map User.id).Nodup
  emails : (db.users.map User.email).Nodup
  active : ∀ u ∈ db.users, u.isActive = true

theorem Directory.sound_empty : Directory.Sound {} := ⟨List.nodup_nil, List.nodup_nil, fun _ hu => absurd hu List.not_mem_nil⟩

theorem normalEmail_normalEmail (email : Str) : normalEmail (normalEmail email) = normalEmail email := by
  unfold normalEmail
  rw [strip_lower, lower_lower, strip_strip]

theorem byEmail_eq_nil {db : Directory} {email : Str} : db.byEmail email = [] ↔ email ∉ db.users.map User.email := by
  simp [Directory.byEmail, List.filter_eq_nil_iff]

/-- Accounts that look alike are sound alike. -/
theorem Directory.Sound.of_account {db db' : Directory} (h : db.Sound) (heq : db'.users.map User.account = db.users.map User.account) :
    db'.Sound := by
  have hids : db'.users.map User.id = db.users.map User.id := by
    simpa [List.map_map, Function.comp_def, User.account] using congrArg (List.map fun a : Nat × Str × Bool × Bool => a.1) heq
  have hemails : db'.users.map User.email = db.users.map User.email := by
    simpa [List.map_map, Function.comp_def, User.account] using congrArg (List.map fun a : Nat × Str × Bool × Bool => a.2.1) heq
  refine ⟨hids ▸ h.ids, hemails ▸ h.emails, fun u hu => ?_⟩
  have hmem : u.account ∈ db.users.map User.account := heq ▸ List.mem_map_of_mem hu
  obtain ⟨v, hv, hva⟩ := List.mem_map.1 hmem
  have hactive : v.isActive = u.isActive := congrArg (·.2.2.1) hva
  exact hactive ▸ h.active v hv

theorem Directory.Sound.add {db : Directory} (h : db.Sound) {u : User} (hid : u.id = freshId (db.users.map User.id))
    (hfree : u.email ∉ db.users.map User.email) (hactive : u.isActive = true) {ids : List OidcIdentity} :
    Directory.Sound { users := db.users ++ [u], identities := ids } where
  ids := by
    rw [List.map_append, List.nodup_append]
    refine ⟨h.ids, List.nodup_singleton _, fun a ha b hb => ?_⟩
    obtain rfl := List.mem_singleton.1 hb
    rintro rfl
    exact freshId_not_mem _ (hid ▸ ha)
  emails := by
    rw [List.map_append, List.nodup_append]
    refine ⟨h.emails, List.nodup_singleton _, fun a ha b hb => ?_⟩
    obtain rfl := List.mem_singleton.1 hb
    rintro rfl
    exact hfree ha
  active v hv := by
    rcases List.mem_append.1 hv with hv | hv
    · exact h.active v hv
    · rw [List.mem_singleton.1 hv]
      exact hactive

section Steps
variable {k : Crypto} {pw : PasswordPolicy} {db : Directory}

theorem register_cases (f : RegisterForm) : register k pw db f = db ∨
    ∃ u : User, register k pw db f = { db with users := db.users ++ [u] } ∧ u.id = freshId (db.users.map User.id) ∧
      u.email = f.email ∧ u.email ∉ db.users.map User.email ∧ u.isActive = true ∧ u.email ≠ [] := by
  unfold register
  split
  · exact Or.inl rfl
  rename_i hempty
  split
  · exact Or.inl rfl
  split
  · exact Or.inl rfl
  · rename_i htaken
    simp only [Bool.or_eq_true, Bool.not_eq_true', not_or, Bool.not_eq_false, List.isEmpty_iff] at hempty htaken
    exact Or.inr ⟨_, rfl, rfl, rfl, byEmail_eq_nil.1 htaken.1, rfl, hempty.1⟩

theorem createUser_cases (admin : Nat) (email password role : Str) (salt : Nat) :
    createUser k pw db admin email password role salt = db ∨
      ∃ u : User, createUser k pw db admin email password role salt = { db with users := db.users ++ [u] } ∧
        u.id = freshId (db.users.map User.id) ∧ u.email = normalEmail email ∧ u.email ∉ db.users.map User.email ∧
        u.isActive = true ∧ u.email ≠ [] := by
  unfold createUser
  simp only
  split
  · exact Or.inl rfl
  split
  · exact Or.inl rfl
  · rename_i hform
    simp only [Bool.or_eq_true, Bool.not_eq_true', not_or, Bool.not_eq_false, List.isEmpty_iff] at hform
    exact Or.inr ⟨_, rfl, rfl, rfl, byEmail_eq_nil.1 hform.2, rfl, hform.1.1.1⟩

theorem updateProfile_cases (hs : db.Sound) (userId : Nat) (email currentPassword : Str) :
    updateProfile k db userId email currentPassword = db ∨
      ∃ u ∈ db.users, updateProfile k db userId email currentPassword = db.setUser u.id (fun u => { u with email := normalEmail email }) ∧
        ∀ v ∈ db.users, v.email = normalEmail email → v = u := by
  unfold updateProfile
  split
  · exact Or.inl rfl
  rename_i u hu
  simp only
  split
  · exact Or.inl rfl
  split
  · exact Or.inl rfl
  split
  · exact Or.inl rfl
  · rename_i htaken
    have humem : u ∈ db.users := Table.lookup_mem hu
    refine Or.inr ⟨u, humem, rfl, fun v hv hemail => ?_⟩
    have hmem : v ∈ db.byEmail (normalEmail email) := List.mem_filter.2 ⟨hv, beq_iff_eq.2 hemail⟩
    obtain ⟨w, rest, hrows⟩ := List.exists_cons_of_ne_nil (List.ne_nil_of_mem hmem)
    have hw : w ∈ db.users ∧ w.email = normalEmail email := by
      have hwmem : w ∈ db.byEmail (normalEmail email) := hrows ▸ List.mem_cons_self
      exact ⟨(List.mem_filter.1 hwmem).1, beq_iff_eq.1 (List.mem_filter.1 hwmem).2⟩
    have hid : w.id = u.id := by simpa [hrows] using htaken
    obtain rfl := List.inj_on_of_nodup_map hs.ids hw.1 humem hid
    exact List.inj_on_of_nodup_map hs.emails hv hw.1 (hemail.trans hw.2.symm)

theorem setUser_email_sound (hs : db.Sound) {u : User} (hu : u ∈ db.users) {email : Str}
    (hfree : ∀ v ∈ db.users, v.email = email → v = u) : (db.setUser u.id fun u => { u with email := email }).Sound where
  ids := by
    have hids : (db.setUser u.id fun u => { u with email := email }).users.map User.id = db.users.map User.id := by
      simp only [Directory.setUser, List.map_map]
      refine List.map_congr_left fun v _ => ?_
      simp only [Function.comp_apply]
      split <;> rfl
    exact hids ▸ hs.ids
  emails := by
    -- two rows with one address were one row, or one of them is the row that is written
    simp only [Directory.setUser, List.map_map]
    refine List.Nodup.map_on (fun v hv w hw heq => ?_) (List.Nodup.of_map _ hs.ids)
    simp only [Function.comp_apply] at heq
    have hrow : ∀ v ∈ db.users, v.id = u.id → v = u := fun v hv hid => List.inj_on_of_nodup_map hs.ids hv hu hid
    split at heq <;> split at heq
    · rename_i hv' hw'
      rw [hrow v hv hv', hrow w hw hw']
    · rename_i hv' _
      rw [hrow v hv hv', hfree w hw heq.symm]
    · rename_i _ hw'
      rw [hrow w hw hw', hfree v hv heq]
    · exact List.inj_on_of_nodup_map hs.emails hv hw heq
  active v hv := by
    obtain ⟨w, hw, rfl⟩ := List.mem_map.1 hv
    split
    · exact hs.active w hw
    · exact hs.active w hw

theorem accountStep_sound {repr : JsonValue → Str} (hs : db.Sound) (op : AccountOp) : (accountStep k pw repr db op).Sound := by
  cases op with
  | register f =>
    rcases register_cases (k := k) f with h | ⟨u, h, hid, -, hfree, hactive, -⟩
    · exact (congrArg Directory.Sound h).mpr hs
    · exact (congrArg Directory.Sound h).mpr (hs.add hid hfree hactive)
  | createUser admin email password role salt =>
    rcases createUser_cases (k := k) admin email password role salt with h | ⟨u, h, hid, -, hfree, hactive, -⟩
    · exact (congrArg Directory.Sound h).mpr hs
    · exact (congrArg Directory.Sound h).mpr (hs.add hid hfree hactive)
  | updateProfile userId email currentPassword =>
    rcases updateProfile_cases (k := k) hs userId email currentPassword with h | ⟨u, hu, h, hfree⟩
    · exact (congrArg Directory.Sound h).mpr hs
    · exact (congrArg Directory.Sound h).mpr (setUser_email_sound hs hu hfree)
  | ssoLogin cfg claims hash =>
    obtain ⟨added, heq, rfl | ⟨u, rfl, hnew⟩⟩ := oidcLogin_users repr cfg claims db hash
    · rw [List.append_nil] at heq
      exact hs.of_account heq
    · have hadd : Directory.Sound { db with users := db.users ++ [u] } := hs.add hnew.id (byEmail_eq_nil.1 hnew.free) hnew.active
      exact hadd.of_account heq

/-- The address is one that the lookups look for. -/
def User.Normal (u : User) : Prop := normalEmail u.email = u.email ∧ u.email ≠ []

/-- A registration types the address stripped and in lower case, and no profile blanks it. -/
def AccountOp.Normal : AccountOp → Prop
  | .register f => normalEmail f.email = f.email
  | .updateProfile _ email _ => strip email ≠ []
  | _ => True

theorem normal_add {u : User} (hn : ∀ v ∈ db.users, v.Normal) (hu : u.Normal) : ∀ v ∈ db.users ++ [u], v.Normal := by
  intro v hv
  rcases List.mem_append.1 hv with hv | hv
  · exact hn v hv
  · rw [List.mem_singleton.1 hv]
    exact hu

theorem emailFromClaims_normal {claims : Claims} {email : Str} (h : emailFromClaims claims = .ok (some email)) :
    normalEmail email = email ∧ email ≠ [] := by
  unfold emailFromClaims at h
  split at h
  · split at h
    · cases h
    · rename_i hempty
      cases h
      exact ⟨normalEmail_normalEmail _, by simpa using hempty⟩
  · split at h <;> cases h

theorem accountStep_normal {repr : JsonValue → Str} (hs : db.Sound) (hn : ∀ u ∈ db.users, u.Normal) {op : AccountOp} (hop : op.Normal) :
    ∀ u ∈ (accountStep k pw repr db op).users, u.Normal := by
  cases op with
  | register f =>
    rcases register_cases (k := k) f with h | ⟨u, h, -, hemail, -, -, hne⟩
    · exact (congrArg (fun db => ∀ u ∈ db.users, u.Normal) h).mpr hn
    · refine (congrArg (fun db => ∀ u ∈ db.users, u.Normal) h).mpr (normal_add hn ⟨?_, hne⟩)
      rw [hemail]
      exact hop
  | createUser admin email password role salt =>
    rcases createUser_cases (k := k) admin email password role salt with h | ⟨u, h, -, hemail, -, -, hne⟩
    · exact (congrArg (fun db => ∀ u ∈ db.users, u.Normal) h).mpr hn
    · refine (congrArg (fun db => ∀ u ∈ db.users, u.Normal) h).mpr (normal_add hn ⟨?_, hne⟩)
      rw [hemail, normalEmail_normalEmail]
  | updateProfile userId email currentPassword =>
    rcases updateProfile_cases (k := k) hs userId email currentPassword with h | ⟨u, hu, h, -⟩
    · exact (congrArg (fun db => ∀ u ∈ db.users, u.Normal) h).mpr hn
    · refine (congrArg (fun db => ∀ u ∈ db.users, u.Normal) h).mpr fun v hv => ?_
      obtain ⟨w, hw, rfl⟩ := List.mem_map.1 hv
      split
      · have hne : normalEmail email ≠ [] := by simpa [normalEmail, lower, AccountOp.Normal] using hop
        exact ⟨normalEmail_normalEmail _, hne⟩
      · exact hn w hw
  | ssoLogin cfg claims hash =>
    obtain ⟨added, heq, hadded⟩ := oidcLogin_users repr cfg claims db hash
    have hall : ∀ v ∈ db.users ++ added, v.Normal := by
      rcases hadded with rfl | ⟨u, rfl, hnew⟩
      · rwa [List.append_nil]
      · exact normal_add hn (emailFromClaims_normal hnew.email)
    intro v hv
    have hmem : v.account ∈ (db.users ++ added).map User.account := heq ▸ List.mem_map_of_mem hv
    obtain ⟨w, hw, hwv⟩ := List.mem_map.1 hmem
    have hemail : w.email = v.email := congrArg (·.2.1) hwv
    unfold User.Normal
    rw [← hemail]
    exact hall w hw

end Steps

/-! ## What is found -/

section Found
variable {db : Directory}

theorem find?_email (hs : db.Sound) {u : User} (hu : u ∈ db.users) : db.users.find? (fun v => v.email == u.email) = some u := by
  cases hfind : db.users.find? fun v => v.email == u.email with
  | none => exact absurd (List.find?_eq_none.1 hfind u hu) (by simp)
  | some v =>
    have hemail : v.email = u.email := by simpa using List.find?_some hfind
    rw [List.inj_on_of_nodup_map hs.emails (List.mem_of_find?_eq_some hfind) hu hemail]

theorem loginLookup_iff (hs : db.Sound) {u : User} (hu : u ∈ db.users) (e : Str) : loginLookup db e = some u ↔ e = u.email := by
  constructor
  · intro h
    unfold loginLookup at h
    have hemail := List.find?_some h
    exact (beq_iff_eq.1 hemail).symm
  · rintro rfl
    exact find?_email hs hu

/-- **Where every address is in the normal form, two spellings of one are one account.** -/
theorem oneAddress_iff (hs : db.Sound) : OneAddress db ↔ ∀ u ∈ db.users, u.Normal := by
  constructor
  · intro h u hu
    have hsso := h.sso u hu u.email rfl
    unfold ssoLookup at hsso
    split at hsso
    · rename_i email hemail
      obtain ⟨hnormal, hne⟩ := emailFromClaims_normal hemail
      have hmem : u ∈ (db.byEmail email).filter (·.isActive) := hsso ▸ List.mem_singleton_self u
      have heq : u.email = email := by simpa using (List.mem_filter.1 (List.mem_filter.1 hmem).1).2
      unfold User.Normal
      rw [heq]
      exact ⟨hnormal, hne⟩
    · cases hsso
  · intro hn
    refine ⟨fun u hu v hv heq => ?_, fun u hu e he => ?_, fun u hu e he => ?_⟩
    · have hlower : ∀ u ∈ db.users, lower u.email = u.email := fun u hu => by
        rw [← (hn u hu).1]
        exact lower_lower _
      rw [hlower u hu, hlower v hv] at heq
      exact List.inj_on_of_nodup_map hs.emails hu hv heq
    · unfold resetLookup
      rw [he, (hn u hu).1, find?_email hs hu]
      simp [hs.active u hu]
    · have hclaim : emailFromClaims [(lit "email", .str e)] = .ok (some u.email) := by
        have hnormal : lower (strip e) = u.email := he.trans (hn u hu).1
        simp [emailFromClaims, JsonValue.get, Dict.get?, hnormal, (hn u hu).2]
      unfold ssoLookup
      rw [hclaim]
      have hnodup : ((db.byEmail u.email).filter (·.isActive)).Nodup := ((List.Nodup.of_map _ hs.ids).filter _).filter _
      refine List.perm_singleton.1 ((List.perm_ext_iff_of_nodup hnodup (List.nodup_singleton u)).2 fun v => ?_)
      rw [List.mem_singleton, List.mem_filter, Directory.byEmail, List.mem_filter]
      constructor
      · rintro ⟨⟨hv, hemail⟩, -⟩
        exact List.inj_on_of_nodup_map hs.emails hv hu (beq_iff_eq.1 hemail)
      · rintro rfl
        exact ⟨⟨hu, beq_self_eq_true _⟩, hs.active v hu⟩

/-- A blank before the address is enough for the password login to miss its user. -/
theorem oneAccount_iff (hs : db.Sound) : OneAccount db ↔ db.users = [] := by
  constructor
  · intro h
    refine List.eq_nil_iff_forall_not_mem.2 fun u hu => ?_
    have hspells : Spells (' ' :: u.email) u.email := by
      unfold Spells normalEmail strip lstripWhere
      rw [List.dropWhile_cons_of_pos (by decide)]
    have hlook := (loginLookup_iff hs hu _).1 (h.login u hu _ hspells)
    exact absurd (congrArg List.length hlook) (by simp)
  · intro hnil
    refine ⟨⟨?_, ?_, ?_⟩, ?_⟩ <;> simp [hnil]

end Found

section Run
variable (k : Crypto) (pw : PasswordPolicy) (repr : JsonValue → Str)

theorem accountRun_sound (ops : List AccountOp) : (runs (accountStep k pw repr) {} ops).Sound :=
  runs_keeps (I := Directory.Sound) (fun _ op hs => accountStep_sound hs op) ops {} Directory.sound_empty

theorem accountRun_normal {ops : List AccountOp} (h : ∀ op ∈ ops, op.Normal) : ∀ u ∈ (runs (accountStep k pw repr) {} ops).users, u.Normal :=
  (runs_invariant (I := fun db : Directory => db.Sound ∧ ∀ u ∈ db.users, u.Normal)
    (fun _ op hs hop => ⟨accountStep_sound hs.1 op, accountStep_normal hs.1 hs.2 hop⟩) ops {}
    ⟨Directory.sound_empty, fun _ hu => absurd hu List.not_mem_nil⟩ (Guarded.of_forall h)).2

/-- **One account for each address**, after any run from an empty directory: it holds of nobody, because the password
login finds a user by the stored text alone; the rest of it holds exactly while every stored address is stripped and
in lower case, which registrations that are typed so keep. -/
theorem one_account (ops : List AccountOp) :
    (OneAccount (runs (accountStep k pw repr) {} ops) ↔ (runs (accountStep k pw repr) {} ops).users = []) ∧
      (∀ u ∈ (runs (accountStep k pw repr) {} ops).users, ∀ e, loginLookup (runs (accountStep k pw repr) {} ops) e = some u ↔ e = u.email) ∧
      (OneAddress (runs (accountStep k pw repr) {} ops) ↔ ∀ u ∈ (runs (accountStep k pw repr) {} ops).users, u.Normal) ∧
      ((∀ op ∈ ops, op.Normal) → OneAddress (runs (accountStep k pw repr) {} ops)) := by
  have hs := accountRun_sound k pw repr ops
  exact ⟨oneAccount_iff hs, fun u hu e => loginLookup_iff hs hu e, oneAddress_iff hs,
    fun h => (oneAddress_iff hs).2 (accountRun_normal k pw repr h)⟩

end Run

section Twins

/-- Two registrations, the second with a capital letter. -/
def twins : Directory :=
  runs (accountStep clearText { minLength := 1, requireUpper := false, requireLower := false, requireDigit := false } fun _ => []) {}
    [.register { email := lit "ann@example.org", password := lit "secret" },
     .register { email := lit "Ann@example.org", password := lit "secret", openRegistration := true }]

/-- **Two accounts of one address**, and a blank that the password login does not see through. -/
theorem twins_differ : ¬ OneAccount twins ∧ ¬ OneAddress twins ∧ loginLookup twins (lit " ann@example.org") = none := by
  have hs : twins.Sound := accountRun_sound _ _ _ _
  refine ⟨fun h => ?_, fun h => ?_, by decide +kernel⟩
  · exact absurd ((oneAccount_iff hs).1 h) (by decide +kernel)
  · have hlower : twins.users.all (fun u => normalEmail u.email == u.email) = true := by
      rw [List.all_eq_true]
      exact fun u hu => beq_iff_eq.2 ((oneAddress_iff hs).1 h u hu).1
    revert hlower
    decide +kernel

end Twins
end PiHerder.Auth
