import PiHerder.Auth.Model
import PiHerder.Lib.Runs

/-!
# The last administrator

Three requests take the admin role away. Each asks `is_sole_admin` first and writes later, in a transaction that
other requests do not wait for: a request is a step that reads and checks, and one that commits.

| here | there |
| --- | --- |
| `normalizeRole`, `countActiveAdmins`, `isSoleAdmin` | `security/auth.py:477`, `:491`, `:497` |
| `checkSetUserRole`, `checkDeleteUser` | `routers/auth_users.py:381`, `:427` |
| `checkSyncRole`                       | `maybe_sync_role` (`services/oidc_svc.py:692`) |
| `AdminWrite.commit`                   | the `session.commit()` of each, and of a user that SSO provisions |
-/
namespace PiHerder.Auth
open Lib Lib.Str

/-- `normalize_role` (auth.py:477). -/
def normalizeRole (role : Str) : Role :=
  let r := lower (strip role)
  if r = lit "admin" then .admin else if r = lit "operator" then .operator else .viewer

def activeAdmins (users : List User) : List User := users.filter fun u => u.isActive && u.role == .admin

def countActiveAdmins (users : List User) : Nat := (activeAdmins users).length

def isSoleAdmin (users : List User) (user : User) : Bool := user.role == .admin && decide (countActiveAdmins users ≤ 1)

/-- What a request has decided to write. -/
inductive AdminWrite
  | setRole (target : Nat) (role : Role)
  | delete (target : Nat)
  | provision (role : Role)
deriving DecidableEq, Repr

/-- The users, and the requests that have checked and not committed. -/
structure AdminState where
  users : List User
  pending : Dict Nat AdminWrite := []

def AdminState.user (s : AdminState) (id : Nat) : Option User := Table.lookup User.id id s.users

/-- `get_admin_user`. -/
def AdminState.isAdmin (s : AdminState) (id : Nat) : Bool := (s.user id).any fun u => u.isActive && u.role == .admin

section Checks
variable (s : AdminState)

def checkSetUserRole (admin target : Nat) (role : Str) : Option AdminWrite :=
  if !s.isAdmin admin then none
  else match s.user target with
    | none => none
    | some u =>
      if (u.role == .admin && normalizeRole role != .admin && isSoleAdmin s.users u) = true then none
      else if u.role = normalizeRole role then none
      else some (.setRole target (normalizeRole role))

def checkDeleteUser (admin target : Nat) (confirmed : Bool) : Option AdminWrite :=
  if !s.isAdmin admin then none
  else match s.user target with
    | none => none
    | some u => if target = admin ∨ isSoleAdmin s.users u = true ∨ confirmed = false then none else some (.delete target)

/-- `mapped` is `map_role_from_claims`, and `sync` is `oidc_sync_roles_on_login`. -/
def checkSyncRole (sync : Bool) (userId : Nat) (mapped : Role) : Option AdminWrite :=
  match s.user userId with
  | none => none
  | some u =>
    if !u.isActive || !sync || mapped == u.role then none
    else if u.role == .admin && mapped != .admin && isSoleAdmin s.users u then none
    else some (.setRole userId mapped)

end Checks

/-- The write of a request; a row that is gone by then is not written. -/
def AdminWrite.commit (users : List User) : AdminWrite → List User
  | .setRole target role => users.map fun u => if u.id = target then { u with role := role } else u
  | .delete target => users.filter fun u => u.id != target
  | .provision role =>
    users ++ [{ id := freshId (users.map (·.id)), role := role, passwordLoginEnabled := false }]

inductive AdminEvent
  | setUserRole (request admin target : Nat) (role : Str)
  | deleteUser (request admin target : Nat) (confirmed : Bool)
  | ssoLogin (request userId : Nat) (sync : Bool) (mapped : Role)
  | ssoProvision (request : Nat) (mapped : Role)
  | commit (request : Nat)
deriving DecidableEq, Repr

/-- A request that passes its check waits for its commit. -/
def AdminState.await (s : AdminState) (request : Nat) : Option AdminWrite → AdminState
  | none => s
  | some w => { s with pending := s.pending.set request w }

def adminStep (s : AdminState) : AdminEvent → AdminState
  | .setUserRole request admin target role => s.await request (checkSetUserRole s admin target role)
  | .deleteUser request admin target confirmed => s.await request (checkDeleteUser s admin target confirmed)
  | .ssoLogin request userId sync mapped => s.await request (checkSyncRole s sync userId mapped)
  | .ssoProvision request mapped => s.await request (some (.provision mapped))
  | .commit request =>
    match s.pending.get? request with
    | none => s
    | some w => ⟨w.commit s.users, s.pending.del request⟩

/-- An administrator is left. -/
def AdminState.HasAdmin (s : AdminState) : Prop := ∃ u ∈ s.users, u.isActive = true ∧ u.role = .admin

instance (s : AdminState) : Decidable s.HasAdmin :=
  inferInstanceAs (Decidable (∃ u ∈ s.users, u.isActive = true ∧ u.role = .admin))

/-- Does the write take the admin role away from a user? -/
def AdminWrite.Demotes (u : User) : AdminWrite → Prop
  | .setRole target role => u.id = target ∧ role ≠ .admin
  | .delete target => u.id = target
  | .provision _ => False

/-- The request's own check passes again in the state its commit finds. -/
def AdminEvent.StillSafe (s : AdminState) : AdminEvent → Prop
  | .commit request => ∀ w, s.pending.get? request = some w → ∀ u ∈ s.users, u.isActive = true → w.Demotes u →
      isSoleAdmin s.users u = false
  | _ => True

/-! ## Counting administrators -/

theorem mem_activeAdmins {users : List User} {u : User} : u ∈ activeAdmins users ↔ u ∈ users ∧ u.isActive = true ∧ u.role = .admin := by
  simp [activeAdmins]

/-- Users have ids of their own. -/
def AdminState.Sound (s : AdminState) : Prop := (s.users.map (·.id)).Nodup

/-- **The check.** An active admin is the sole one where every other is it. -/
theorem isSoleAdmin_iff {users : List User} (hn : (users.map (·.id)).Nodup) {u : User} (hu : u ∈ users) (hactive : u.isActive = true)
    (hadmin : u.role = .admin) :
    isSoleAdmin users u = true ↔ ∀ v ∈ users, v.isActive = true → v.role = .admin → v.id = u.id := by
  have hmem : u ∈ activeAdmins users := mem_activeAdmins.2 ⟨hu, hactive, hadmin⟩
  have hnodup : (activeAdmins users).Nodup := (List.Nodup.of_map _ hn).filter _
  unfold isSoleAdmin countActiveAdmins
  rw [hadmin, Bool.and_eq_true, decide_eq_true_eq, and_iff_right (by rfl)]
  constructor
  · intro hlen v hv hvactive hvadmin
    have hone : activeAdmins users = [u] := by
      match hl : activeAdmins users, hlen with
      | [], _ => simp [hl] at hmem
      | [w], _ =>
        rw [hl] at hmem
        rw [List.mem_singleton.1 hmem]
    have hvmem : v ∈ activeAdmins users := mem_activeAdmins.2 ⟨hv, hvactive, hvadmin⟩
    rw [hone] at hvmem
    rw [List.mem_singleton.1 hvmem]
  · intro hall
    have hsub : ∀ v ∈ activeAdmins users, v = u := fun v hv => by
      obtain ⟨hv, hva, hvr⟩ := mem_activeAdmins.1 hv
      exact List.inj_on_of_nodup_map hn hv hu (hall v hv hva hvr)
    match hl : activeAdmins users with
    | [] => simp
    | [_] => simp
    | a :: b :: rest =>
      rw [hl] at hsub hnodup
      have hab : a = b := (hsub a (by simp)).trans (hsub b (by simp)).symm
      rw [hab] at hnodup
      simp at hnodup

/-! ## One step -/

theorem AdminState.await_users (s : AdminState) (request : Nat) (w : Option AdminWrite) : (s.await request w).users = s.users := by
  cases w <;> rfl

theorem AdminWrite.commit_nodup {users : List User} (h : (users.map (·.id)).Nodup) (w : AdminWrite) :
    ((w.commit users).map (·.id)).Nodup := by
  cases w with
  | setRole target role =>
    have hids : (users.map fun u => if u.id = target then { u with role := role } else u).map (·.id) = users.map (·.id) := by
      rw [List.map_map]
      refine List.map_congr_left fun u _ => ?_
      simp only [Function.comp_apply]
      split <;> rfl
    simp only [AdminWrite.commit]
    rwa [hids]
  | delete target => exact h.sublist (List.filter_sublist.map _)
  | provision role =>
    simp only [AdminWrite.commit, List.map_append, List.map_cons, List.map_nil]
    rw [List.nodup_append]
    refine ⟨h, List.nodup_singleton _, fun a ha b hb => ?_⟩
    obtain rfl := List.mem_singleton.1 hb
    rintro rfl
    exact freshId_not_mem _ ha

theorem adminStep_sound {s : AdminState} (h : s.Sound) (e : AdminEvent) : (adminStep s e).Sound := by
  unfold AdminState.Sound at h ⊢
  cases e with
  | setUserRole | deleteUser | ssoLogin | ssoProvision => simpa only [adminStep, AdminState.await_users] using h
  | commit request =>
    simp only [adminStep]
    split
    · exact h
    · exact AdminWrite.commit_nodup h _

/-- Where a demoted admin is not the sole one, another is left. -/
theorem exists_other_admin {users : List User} (hn : (users.map (·.id)).Nodup) {u : User} (hu : u ∈ users) (hactive : u.isActive = true)
    (hadmin : u.role = .admin) (h : isSoleAdmin users u = false) :
    ∃ v ∈ users, v.isActive = true ∧ v.role = .admin ∧ v.id ≠ u.id := by
  by_contra hno
  push Not at hno
  rw [(isSoleAdmin_iff hn hu hactive hadmin).2 hno] at h
  cases h

theorem isSoleAdmin_of_others {users : List User} {u : User} (hn : (users.map (·.id)).Nodup) (hu : u ∈ users) (hactive : u.isActive = true)
    {v : User} (hv : v ∈ users) (hvactive : v.isActive = true) (hvadmin : v.role = .admin) (hne : v.id ≠ u.id) :
    isSoleAdmin users u = false := by
  rw [Bool.eq_false_iff]
  intro hsole
  have hadmin : u.role = .admin := by simpa using (Bool.and_eq_true_iff.1 hsole).1
  exact hne ((isSoleAdmin_iff hn hu hactive hadmin).1 hsole v hv hvactive hvadmin)

/-- **A commit leaves an administrator** exactly when the check of its request passes again. -/
theorem AdminWrite.commit_iff {users : List User} (hn : (users.map (·.id)).Nodup) (h : ∃ u ∈ users, u.isActive = true ∧ u.role = .admin)
    (w : AdminWrite) :
    (∃ u ∈ w.commit users, u.isActive = true ∧ u.role = .admin) ↔
      ∀ u ∈ users, u.isActive = true → w.Demotes u → isSoleAdmin users u = false := by
  obtain ⟨a, ha, haactive, haadmin⟩ := h
  constructor
  · rintro ⟨v', hv', hvactive, hvadmin⟩ u hu hactive hdemotes
    cases w with
    | setRole target role =>
      obtain ⟨rfl, hrole⟩ := hdemotes
      obtain ⟨v, hv, rfl⟩ := List.mem_map.1 hv'
      by_cases hid : v.id = u.id
      · rw [if_pos hid] at hvadmin
        exact absurd hvadmin hrole
      · rw [if_neg hid] at hvactive hvadmin
        exact isSoleAdmin_of_others hn hu hactive hv hvactive hvadmin hid
    | delete target =>
      obtain rfl : u.id = target := hdemotes
      obtain ⟨hv, hid⟩ := List.mem_filter.1 hv'
      exact isSoleAdmin_of_others hn hu hactive hv hvactive hvadmin (by simpa using hid)
    | provision role => exact hdemotes.elim
  · intro hsafe
    -- an admin that the write does not touch: the one there is, or another beside it
    have hleft : w.Demotes a → ∃ v ∈ users, v.isActive = true ∧ v.role = .admin ∧ v.id ≠ a.id := fun hd =>
      exists_other_admin hn ha haactive haadmin (hsafe a ha haactive hd)
    cases w with
    | setRole target role =>
      by_cases hid : a.id = target
      · by_cases hrole : role = .admin
        · exact ⟨_, List.mem_map_of_mem ha, by rw [if_pos hid]; exact haactive, by rw [if_pos hid]; exact hrole⟩
        · obtain ⟨v, hv, hvactive, hvadmin, hne⟩ := hleft ⟨hid, hrole⟩
          rw [hid] at hne
          exact ⟨_, List.mem_map_of_mem hv, by rw [if_neg hne]; exact hvactive, by rw [if_neg hne]; exact hvadmin⟩
      · exact ⟨_, List.mem_map_of_mem ha, by rw [if_neg hid]; exact haactive, by rw [if_neg hid]; exact haadmin⟩
    | delete target =>
      by_cases hid : a.id = target
      · obtain ⟨v, hv, hvactive, hvadmin, hne⟩ := hleft hid
        exact ⟨v, List.mem_filter.2 ⟨hv, by simpa [← hid] using hne⟩, hvactive, hvadmin⟩
      · exact ⟨a, List.mem_filter.2 ⟨ha, by simpa using hid⟩, haactive, haadmin⟩
    | provision role => exact ⟨a, List.mem_append_left _ ha, haactive, haadmin⟩

theorem adminStep_hasAdmin_iff {s : AdminState} (hs : s.Sound) (h : s.HasAdmin) (e : AdminEvent) :
    (adminStep s e).HasAdmin ↔ e.StillSafe s := by
  cases e with
  | setUserRole | deleteUser | ssoLogin | ssoProvision =>
    refine iff_of_true ?_ trivial
    unfold AdminState.HasAdmin at h ⊢
    simpa only [adminStep, AdminState.await_users] using h
  | commit request =>
    unfold AdminEvent.StillSafe
    cases hw : s.pending.get? request with
    | none =>
      refine iff_of_true ?_ fun _ hsome => absurd (hw.symm.trans hsome) nofun
      simpa only [adminStep, hw] using h
    | some w =>
      simp only [adminStep, hw, Option.some.injEq, forall_eq']
      exact w.commit_iff hs h

/-! ## Over a run -/

/-- **An administrator remains in every state of a run exactly when every commit still passes the check of its
request.** -/
theorem admin_remains_iff (s : AdminState) (hs : s.Sound) (h : s.HasAdmin) (es : List AdminEvent) :
    (∀ pre post, es = pre ++ post → (runs adminStep s pre).HasAdmin) ↔ Guarded adminStep AdminEvent.StillSafe s es := by
  have hiff := @runs_hold_iff _ _ adminStep AdminEvent.StillSafe (fun _ _ => True) AdminState.Sound AdminState.HasAdmin s
    (fun s e hs => adminStep_sound hs e) (fun s e hs h => by rw [and_true]; exact adminStep_hasAdmin_iff hs h e) hs h es
  simpa using hiff

/-- Two admins. -/
def twoAdmins : AdminState := ⟨[{ id := 1, role := .admin }, { id := 2, role := .admin }], []⟩

/-- The first demotes the second, who then asks to delete the first, and is refused. -/
def serialRequests : List AdminEvent := [.setUserRole 0 1 2 (lit "viewer"), .commit 0, .deleteUser 1 2 1 true, .commit 1]

/-- Each demotes the other, and both checks come before the commits. -/
def crossedRequests : List AdminEvent :=
  [.setUserRole 0 1 2 (lit "viewer"), .setUserRole 1 2 1 (lit "viewer"), .commit 0, .commit 1]

theorem admin_remains_serial : Guarded adminStep AdminEvent.StillSafe twoAdmins serialRequests :=
  (admin_remains_iff twoAdmins (show (twoAdmins.users.map (·.id)).Nodup by decide) (by decide) serialRequests).1 fun pre post heq => by
    have hall : ∀ pre ∈ serialRequests.inits, (runs adminStep twoAdmins pre).HasAdmin := by decide +kernel
    exact hall pre ((List.mem_inits _ _).2 ⟨post, heq.symm⟩)

theorem crossed_demotions_leave_none :
    ¬ ∀ pre post, crossedRequests = pre ++ post → (runs adminStep twoAdmins pre).HasAdmin := by
  intro h
  have hlast := h crossedRequests [] (List.append_nil _).symm
  revert hlast
  decide +kernel

end PiHerder.Auth
