import PiHerder.Config.Restore

/-!
# Whose a restored credential is

A restore matches users by id, and then by e-mail, while the rows that belong to them keep the archived id of their user. A
user keeps their id unless another account already has their e-mail (`KeepsId`); a row of a user who does not keep it refers
to nobody. A foreign key refuses such a row and with it the whole restore, but the passkeys of an upgraded database have none.
-/
namespace PiHerder.Config
open Lib

/-! ## Owners -/

inductive Credential
  | totpBackupCode | trustedDevice | webAuthnCredential | apiToken | userFavourite | pushSubscription
deriving DecidableEq, Repr

namespace Credential

def table : Credential → TableName
  | totpBackupCode => .totpBackupCode
  | trustedDevice => .trustedDevice
  | webAuthnCredential => .webAuthnCredential
  | apiToken => .apiToken
  | userFavourite => .userFavourite
  | pushSubscription => .pushSubscription

/-- The column with the id of the owner. -/
def owner : Credential → Column
  | apiToken => .createdByUserId
  | _ => .userId

/-- The row `r` came from the archived row `c`: it has its id, or its endpoint. -/
def CameFrom (k : Credential) (c r : Row) : Prop :=
  if k = .pushSubscription then (c .endpoint).truthy = true ∧ r .endpoint = c .endpoint else r .id = c .id

end Credential

/-- Each credential that came from the archive belongs to a user with its owner's e-mail, and to nobody else. -/
def StayWithOwners (p : Payload) (fin : Db) : Prop :=
  ∀ k : Credential, ∀ c ∈ p k.table, ∀ o ∈ p .user, c k.owner = o .id → ∀ r ∈ fin.rows k.table, k.CameFrom c r →
    (∃ x ∈ fin.rows .user, r k.owner = x .id ∧ x .email = o .email) ∧
      ∀ x ∈ fin.rows .user, r k.owner = x .id → x .email = o .email

/-- The users that the archive lists before `o`. -/
def listedBefore (users : List Row) (o : Row) : List Row := users.takeWhile fun o' => decide (o' .id ≠ o .id)

/-- A user of the archive gets their own id: it is there, or they have a password and whoever has their e-mail is renamed
before their turn comes. -/
def KeepsId (cur : Db) (users : List Row) (o : Row) : Prop :=
  (∃ x ∈ cur.rows .user, x .id = o .id) ∨
    (o .hashedPassword).truthy = true ∧ ((o .email).truthy = true →
      ∀ x ∈ cur.rows .user, x .email = o .email → ∃ o' ∈ listedBefore users o, o' .id = x .id)

/-- Accounts as a database has them. -/
structure Accounts (users : List Row) : Prop where
  ids : (users.map (· .id)).Nodup
  emails : ∀ o ∈ users, ∀ o' ∈ users, o .email = o' .email → o .id = o' .id
  numbers : ∀ o ∈ users, ∃ n : Nat, o .id = .int (n + 1)

/-! ## One user -/

section OneUser
variable {S : Schema} {db db' : Db} {raw : Row}

/-- What a call does with a user: an account with their id, or else with their e-mail, takes their columns, or they are
skipped, or they are new. -/
theorem upsertUser_cases (hid : ∃ n : Nat, raw .id = .int (n + 1)) (h : upsertUser S db raw = some db') :
    (∃ row, Store.Wrote (constraints S) .user row db db' ∧ row .id = raw .id ∧ row .email = raw .email ∧
        ∃ x ∈ db.rows .user, x .id = raw .id) ∨
    (∀ x ∈ db.rows .user, x .id ≠ raw .id) ∧
      ((∃ x ∈ db.rows .user, (raw .email).truthy = true ∧ x .email = raw .email ∧
          ∃ row, Store.Wrote (constraints S) .user row db db' ∧ row .id = x .id ∧ row .email = raw .email) ∨
       ((raw .email).truthy = true → ∀ x ∈ db.rows .user, x .email ≠ raw .email) ∧
        (db' = db ∧ (raw .hashedPassword).truthy = false ∨
          (raw .hashedPassword).truthy = true ∧
            ∃ row, Store.Wrote (constraints S) .user row db db' ∧ row .id = raw .id ∧ row .email = raw .email)) := by
  obtain ⟨n, hn⟩ := hid
  have hcid : cleanRow raw .id = raw .id := cleanRow_plain raw nofun
  have hcemail : cleanRow raw .email = raw .email := cleanRow_plain raw nofun
  have hcpass : cleanRow raw .hashedPassword = raw .hashedPassword := cleanRow_plain raw nofun
  have htruthy : (raw .id).truthy = true := by
    rw [hn]
    simp only [Value.truthy, bne_iff_ne, ne_eq]
    omega
  have hnull : raw .id ≠ .null := by rw [hn]; exact nofun
  unfold upsertUser userMatch at h
  simp only [hcid, hcemail, hcpass, htruthy, Bool.not_true, Bool.and_false, Bool.false_eq_true, if_false, hnull] at h
  cases hget : db.get (constraints S) .user (raw .id) with
  | some x =>
    simp only [hget, Option.some_or] at h
    obtain ⟨hx, hxid⟩ := Store.get_mem hget
    obtain ⟨row, hwrote, hrow⟩ := save_wrote h
    refine Or.inl ⟨row, hwrote, ?_, ?_, x, hx, hxid⟩
    · rw [hrow .id nofun, Function.update_self]
      exact hxid
    · rw [hrow .email nofun, Function.update_of_ne (by decide), hcemail]
  | none =>
    simp only [hget, Option.none_or] at h
    refine Or.inr ⟨Store.get_eq_none.1 hget, ?_⟩
    cases hmatch : (if (raw .email).truthy then (db.rows .user).find? fun r => decide (r .email = raw .email) else none) with
    | some x =>
      rw [hmatch] at h
      split at hmatch
      · rename_i hemail
        obtain ⟨row, hwrote, hrow⟩ := save_wrote h
        refine Or.inl ⟨x, List.mem_of_find?_eq_some hmatch, hemail, by simpa using List.find?_some hmatch, row, hwrote, ?_, ?_⟩
        · rw [hrow .id nofun, Function.update_self]
        · rw [hrow .email nofun, Function.update_of_ne (by decide), hcemail]
      · exact nomatch hmatch
    | none =>
      simp only [hmatch] at h
      refine Or.inr ⟨fun hemail x hx => ?_, ?_⟩
      · rw [if_pos hemail] at hmatch
        simpa using List.find?_eq_none.1 hmatch x hx
      · split at h
        · rename_i hpass
          exact Or.inl ⟨(Option.some.inj h).symm, by simpa using hpass⟩
        · rename_i hpass
          obtain ⟨row, hwrote, hrow⟩ := save_wrote h
          refine Or.inr ⟨by simpa using hpass, row, hwrote, ?_, ?_⟩
          · rw [hrow .id nofun, hcid]
          · rw [hrow .email nofun, hcemail]

end OneUser

/-! ## All users -/

section AllUsers
variable {S : Schema} {cur : Db} {users pre post : List Row} {a : Row}

/-- The users after those in `pre` are restored. -/
structure Settled (cur : Db) (users pre : List Row) (m : Db) : Prop where
  old : ∀ x ∈ cur.rows .user, ∃ y ∈ m.rows .user, y .id = x .id
  ids : ∀ y ∈ m.rows .user, (∃ x ∈ cur.rows .user, x .id = y .id) ∨ ∃ o ∈ pre, o .id = y .id
  mine : ∀ o ∈ pre, ∀ y ∈ m.rows .user, y .id = o .id → y .email = o .email
  others : ∀ y ∈ m.rows .user, (∀ o ∈ pre, o .id ≠ y .id) → ∃ x ∈ cur.rows .user, x .id = y .id ∧ x .email = y .email
  kept : ∀ o ∈ pre, (∃ y ∈ m.rows .user, y .id = o .id) ↔ KeepsId cur users o

theorem settled_start (cur : Db) (users : List Row) : Settled cur users [] cur :=
  ⟨fun x hx => ⟨x, hx, rfl⟩, fun y hy => Or.inl ⟨y, hy, rfl⟩, fun _ ho => (nomatch ho), fun y hy _ => ⟨y, hy, rfl, rfl⟩,
    fun _ ho => (nomatch ho)⟩

/-- What is listed before a user is what comes before it. -/
theorem listedBefore_split (h : ((pre ++ a :: post).map (· .id)).Nodup) : listedBefore (pre ++ a :: post) a = pre := by
  rw [List.map_append, List.nodup_append] at h
  have hne : ∀ o ∈ pre, decide (o .id ≠ a .id) = true := fun o ho =>
    decide_eq_true (h.2.2 (o .id) (List.mem_map_of_mem ho) (a .id) (by simp))
  rw [listedBefore, List.takeWhile_append_of_pos hne, List.takeWhile_cons_of_neg (by simp), List.append_nil]

/-- An account that no archived id stands for has the e-mail it had. -/
theorem Settled.unchanged {m : Db} (hcur : cur.Whole (constraints S)) (h : Settled cur users pre m) {x : Row}
    (hx : x ∈ cur.rows .user) (hpre : ∀ o ∈ pre, o .id ≠ x .id) : ∃ y ∈ m.rows .user, y .id = x .id ∧ y .email = x .email := by
  obtain ⟨y, hy, hyx⟩ := h.old x hx
  obtain ⟨x', hx', hid, hemail⟩ := h.others y hy fun o ho => hyx ▸ hpre o ho
  obtain rfl := hcur.row_eq hx' hx (hid.trans hyx)
  exact ⟨y, hy, hyx, hemail.symm⟩

/-- A row is written under the id of `a`, or nobody has that id and the row is under the id of whoever has its e-mail. -/
theorem Settled.wrote {m m' : Db} {row : Row} (hm : Settled cur users pre m) (hne : ∀ o ∈ pre, o .id ≠ a .id)
    (hwrote : Store.Wrote (constraints S) .user row m m') (hemail : row .email = a .email)
    (hrow : row .id = a .id ∨ (∀ x ∈ m.rows .user, x .id ≠ a .id) ∧ ∃ x ∈ m.rows .user, x .id = row .id ∧ x .email = a .email)
    (hkeeps : row .id = a .id ↔ KeepsId cur users a) : Settled cur users (pre ++ [a]) m' := by
  have hback : ∀ y ∈ m'.rows .user, y = row ∨ y ∈ m.rows .user ∧ y .id ≠ row .id := fun y hy => hwrote.mem.1 hy
  have hlater : ∀ y ∈ m.rows .user, (∃ x ∈ cur.rows .user, x .id = y .id) ∨ ∃ o ∈ pre ++ [a], o .id = y .id :=
    fun y hy => (hm.ids y hy).imp_right fun ⟨o, ho, hoy⟩ => ⟨o, List.mem_append_left _ ho, hoy⟩
  refine ⟨fun x hx => ?_, fun y hy => ?_, fun o ho y hy hid => ?_, fun y hy hpre => ?_, fun o ho => ?_⟩
  · obtain ⟨y, hy, hyx⟩ := hm.old x hx
    obtain ⟨z, hz, hzy⟩ := hwrote.ids .user hy
    exact ⟨z, hz, hzy.trans hyx⟩
  · rcases hback y hy with rfl | ⟨hy, -⟩
    · rcases hrow with hrow | ⟨-, x, hx, hxid, -⟩
      · exact Or.inr ⟨a, by simp, hrow.symm⟩
      · rw [← hxid]
        exact hlater x hx
    · exact hlater y hy
  · rcases hback y hy with rfl | ⟨hy, hyne⟩ <;> rcases List.mem_append.1 ho with ho | ho
    · rcases hrow with hrow | ⟨-, x, hx, hxid, hxemail⟩
      · exact absurd (hid.symm.trans hrow) (hne o ho)
      · rw [hemail, ← hxemail]
        exact hm.mine o ho x hx (hxid.trans hid)
    · obtain rfl := List.mem_singleton.1 ho
      exact hemail
    · exact hm.mine o ho y hy hid
    · obtain rfl := List.mem_singleton.1 ho
      rcases hrow with hrow | ⟨hnone, -⟩
      · exact absurd (hid.trans hrow.symm) hyne
      · exact absurd hid (hnone y hy)
  · have hpre' : ∀ o ∈ pre, o .id ≠ y .id := fun o ho => hpre o (List.mem_append_left _ ho)
    rcases hback y hy with rfl | ⟨hy, -⟩
    · rcases hrow with hrow | ⟨-, x, hx, hxid, hxemail⟩
      · exact absurd hrow.symm (hpre a (by simp))
      · obtain ⟨x', hx', hid', hemail'⟩ := hm.others x hx fun o ho => hxid ▸ hpre' o ho
        exact ⟨x', hx', hid'.trans hxid, by rw [hemail', hxemail, hemail]⟩
    · exact hm.others y hy hpre'
  · rcases List.mem_append.1 ho with ho | ho
    · rw [← hm.kept o ho]
      constructor
      · rintro ⟨y, hy, hid⟩
        rcases hback y hy with rfl | ⟨hy, -⟩
        · rcases hrow with hrow | ⟨-, x, hx, hxid, -⟩
          · exact absurd (hid.symm.trans hrow) (hne o ho)
          · exact ⟨x, hx, hxid.trans hid⟩
        · exact ⟨y, hy, hid⟩
      · rintro ⟨y, hy, hid⟩
        obtain ⟨z, hz, hzy⟩ := hwrote.ids .user hy
        exact ⟨z, hz, hzy.trans hid⟩
    · obtain rfl := List.mem_singleton.1 ho
      rw [← hkeeps]
      constructor
      · rintro ⟨y, hy, hid⟩
        rcases hback y hy with rfl | ⟨hy, -⟩
        · exact hid
        · exact hrow.elim id fun h => absurd hid (h.1 y hy)
      · intro hid
        exact ⟨row, hwrote.mem.2 (Or.inl rfl), hid⟩

/-- Nobody has the id of `a`, and nothing is written. -/
theorem Settled.skipped {m : Db} (hm : Settled cur users pre m) (hnone : ∀ x ∈ m.rows .user, x .id ≠ a .id)
    (hkeeps : ¬ KeepsId cur users a) : Settled cur users (pre ++ [a]) m := by
  refine ⟨hm.old, fun y hy => (hm.ids y hy).imp_right fun ⟨o, ho, hoy⟩ => ⟨o, List.mem_append_left _ ho, hoy⟩,
    fun o ho y hy hid => ?_, fun y hy hpre => hm.others y hy fun o ho => hpre o (List.mem_append_left _ ho), fun o ho => ?_⟩
  · rcases List.mem_append.1 ho with ho | ho
    · exact hm.mine o ho y hy hid
    · obtain rfl := List.mem_singleton.1 ho
      exact absurd hid (hnone y hy)
  · rcases List.mem_append.1 ho with ho | ho
    · exact hm.kept o ho
    · obtain rfl := List.mem_singleton.1 ho
      exact ⟨fun ⟨y, hy, hid⟩ => absurd hid (hnone y hy), fun h => absurd h hkeeps⟩

/-- **One more user.** -/
theorem settled_step (hcur : cur.Whole (constraints S)) (husers : Accounts (pre ++ a :: post)) {m m' : Db}
    (hm : Settled cur (pre ++ a :: post) pre m) (h : upsertUser S m a = some m') :
    Settled cur (pre ++ a :: post) (pre ++ [a]) m' := by
  have ha : a ∈ pre ++ a :: post := by simp
  have hsplit := listedBefore_split husers.ids
  have hne : ∀ o ∈ pre, o .id ≠ a .id := by
    have hids := husers.ids
    rw [List.map_append, List.nodup_append] at hids
    exact fun o ho => hids.2.2 (o .id) (List.mem_map_of_mem ho) (a .id) (by simp)
  -- Who has no id now had none before the restore.
  have hnew : (∀ x ∈ m.rows .user, x .id ≠ a .id) → ¬ ∃ x ∈ cur.rows .user, x .id = a .id := by
    rintro hnone ⟨x, hx, hid⟩
    obtain ⟨y, hy, hyx⟩ := hm.old x hx
    exact hnone y hy (hyx.trans hid)
  rcases upsertUser_cases (husers.numbers a ha) h with ⟨row, hwrote, hid, hemail, x, hx, hxid⟩ |
    ⟨hnone, ⟨x, hx, htruthy, hxemail, row, hwrote, hid, hemail⟩ | ⟨hfree, ⟨rfl, hpass⟩ | ⟨hpass, row, hwrote, hid, hemail⟩⟩⟩
  · refine hm.wrote hne hwrote hemail (Or.inl hid) ⟨fun _ => Or.inl ?_, fun _ => hid⟩
    rcases hm.ids x hx with ⟨x', hx', hid'⟩ | ⟨o, ho, hid'⟩
    · exact ⟨x', hx', hid'.trans hxid⟩
    · exact absurd (hid'.trans hxid) (hne o ho)
  · refine hm.wrote hne hwrote hemail (Or.inr ⟨hnone, x, hx, hid.symm, hxemail⟩)
      ⟨fun hrow => absurd (hid.symm.trans hrow) (hnone x hx), ?_⟩
    rintro (hold | ⟨-, hrenamed⟩)
    · exact absurd hold (hnew hnone)
    · -- Whoever has the e-mail is no earlier user of the archive, so it had the e-mail before.
      have hlisted : ∀ o ∈ pre, o .id ≠ x .id := fun o ho hox =>
        hne o ho (husers.emails o (List.mem_append_left _ ho) a ha ((hm.mine o ho x hx hox.symm).symm.trans hxemail))
      obtain ⟨x', hx', hid', hemail'⟩ := hm.others x hx hlisted
      obtain ⟨o, ho, hox⟩ := hrenamed htruthy x' hx' (hemail'.trans hxemail)
      rw [hsplit] at ho
      exact absurd (hox.trans hid') (hlisted o ho)
  · refine hm.skipped hnone ?_
    rintro (hold | ⟨hpass', -⟩)
    · exact absurd hold (hnew hnone)
    · rw [hpass] at hpass'
      exact nomatch hpass'
  · refine hm.wrote hne hwrote hemail (Or.inl hid) ⟨fun _ => Or.inr ⟨hpass, fun htruthy x hx hxemail => ?_⟩, fun _ => hid⟩
    rw [hsplit]
    by_contra hlisted
    push Not at hlisted
    obtain ⟨y, hy, -, hyemail⟩ := hm.unchanged hcur hx hlisted
    exact hfree htruthy y hy (hyemail.trans hxemail)

/-- **After the users are restored**, those who keep their id are there, under their own e-mail. -/
theorem users_restored {users : List Row} {cur m : Db} (hcur : cur.Whole (constraints S)) (husers : Accounts users)
    (h : upsertUsers S users cur = some m) : Settled cur users users m := by
  refine foldlM_keeps_all (P := fun pre m => Settled cur users pre m) (fun pre a post hsplit m m' hm ha => ?_)
    (settled_start cur users) h
  subst hsplit
  exact settled_step hcur husers hm ha

end AllUsers

/-! ## Their rows -/

section Rows
variable {S : Schema} {t : TableName} {m m' : Db}

/-- Rows that are restored by id: each is there, as the archive has it. -/
theorem rows_restored {rows : List Row} (hids : (rows.map (· .id)).Nodup) (hnull : ∀ c ∈ rows, c .id ≠ .null)
    (h : upsertRows S t rows m = some m') : ∀ c ∈ rows, (∃ r ∈ m'.rows t, r .id = c .id) ∧
      ∀ r ∈ m'.rows t, r .id = c .id → ∀ col, Plain col → r col = c col := by
  refine foldlM_keeps_all (P := fun pre m' => ∀ c ∈ pre, (∃ r ∈ m'.rows t, r .id = c .id) ∧
    ∀ r ∈ m'.rows t, r .id = c .id → ∀ col, Plain col → r col = c col) ?_ (fun _ hc => nomatch hc) h
  rintro pre a post rfl n n' hn ha c hc
  obtain ⟨row, hwrote, hrow⟩ := upsertRow_wrote (hnull a (by simp)) ha
  rcases List.mem_append.1 hc with hc | hc
  · obtain ⟨⟨r, hr, hid⟩, hall⟩ := hn c hc
    have hne : c .id ≠ a .id := by
      rw [List.map_append, List.nodup_append] at hids
      exact hids.2.2 _ (List.mem_map_of_mem hc) _ (by simp)
    obtain ⟨z, hz, hzr⟩ := hwrote.ids t hr
    refine ⟨⟨z, hz, hzr.trans hid⟩, fun r hr hid => ?_⟩
    rcases hwrote.mem.1 hr with rfl | ⟨hr, -⟩
    · exact absurd (hid.symm.trans (hrow .id nofun)) hne
    · exact hall r hr hid
  · obtain rfl := List.mem_singleton.1 hc
    refine ⟨⟨row, hwrote.mem.2 (Or.inl rfl), hrow .id nofun⟩, fun r hr hid => ?_⟩
    rcases hwrote.mem.1 hr with rfl | ⟨-, hne⟩
    · exact hrow
    · exact absurd (hid.trans (hrow .id nofun).symm) hne

/-- Subscriptions are found by their endpoint, and then are their owner's. -/
theorem subscriptions_restored {rows : List Row} (hends : ∀ c ∈ rows, ∀ c' ∈ rows, c .endpoint = c' .endpoint → c = c')
    (huser : ∀ c ∈ rows, (c .userId).truthy = true) (h : rows.foldlM (upsertPushSubscription S) m = some m') :
    ∀ c ∈ rows, (c .endpoint).truthy = true → ∀ r ∈ m'.rows .pushSubscription, r .endpoint = c .endpoint →
      r .userId = c .userId := by
  refine foldlM_keeps_all (P := fun pre m' => ∀ c ∈ pre, (c .endpoint).truthy = true →
    ∀ r ∈ m'.rows .pushSubscription, r .endpoint = c .endpoint → r .userId = c .userId) ?_
    (fun _ hc => nomatch hc) h
  rintro pre a post rfl n n' hn ha c hc htruthy r hr hend
  rcases upsertPushSubscription_puts ha with ⟨rfl, hskip⟩ | ⟨row, hwrote, hrow⟩
  · rcases List.mem_append.1 hc with hc | hc
    · exact hn c hc htruthy r hr hend
    · obtain rfl := List.mem_singleton.1 hc
      rw [htruthy, huser c (by simp)] at hskip
      simp at hskip
  · have hrend : row .endpoint = a .endpoint := hrow _ nofun (by decide)
    have hruser : row .userId = a .userId := hrow _ nofun (by decide)
    rcases hwrote.mem.1 hr with rfl | ⟨hr, hne⟩
    · rw [hruser, hends a (by simp) c ?_ (hrend.symm.trans hend)]
      exact List.mem_append.2 ((List.mem_append.1 hc).imp_right fun hc => by simp [List.mem_singleton.1 hc])
    · rcases List.mem_append.1 hc with hc | hc
      · exact hn c hc htruthy r hr hend
      · -- No other row has the endpoint: the database would have refused the write.
        obtain rfl := List.mem_singleton.1 hc
        refine absurd (fun col hcol => ?_) (hwrote.admits.1 r hr hne [.endpoint] (by simp [constraints, TableName.uniques]))
        obtain rfl := List.mem_singleton.1 hcol
        refine ⟨hend.trans hrend.symm, fun hnull => ?_⟩
        rw [← hend, show r .endpoint = .null from hnull] at htruthy
        exact nomatch htruthy

end Rows

/-! ## Every credential -/

section Restored
variable {S S' : Schema} {ago : Nat → Datetime} {o : Options} {other cur fin : Db} {json : JsonText} {restoreAudit : Bool}

theorem accounts_of_consistent (h : Consistent S' other) : Accounts (buildBackupPayload ago o other .user) := by
  have hrows : buildBackupPayload ago o other .user = (other.rows .user).map jsonRow := rfl
  rw [hrows]
  refine ⟨?_, fun a ha b hb hemail => ?_, fun a ha => ?_⟩
  · rw [map_jsonRow_id (h.typed .user)]
    exact h.whole.ids .user
  · obtain ⟨x, hx, rfl⟩ := List.mem_map.1 ha
    obtain ⟨y, hy, rfl⟩ := List.mem_map.1 hb
    have hxt := h.typed .user x hx
    have hyt := h.typed .user y hy
    rw [jsonRow_plain hxt .email nofun, jsonRow_plain hyt .email nofun] at hemail
    rw [jsonRow_plain hxt .id nofun, jsonRow_plain hyt .id nofun]
    refine h.whole.uniques .user [.email] (by simp [constraints, TableName.uniques]) x hx y hy fun col hcol => ?_
    obtain rfl := List.mem_singleton.1 hcol
    exact ⟨hemail, hxt.notNull .email (by simp [TableName.required])⟩
  · obtain ⟨x, hx, rfl⟩ := List.mem_map.1 ha
    rw [jsonRow_plain (h.typed .user x hx) .id nofun]
    exact (h.typed .user x hx).id

/-- A row of the archive has an id, and the archive has it once. -/
theorem archived_ids {t : TableName} (h : Consistent S' other) (ht : snapshot ago o other t = other.rows t) :
    ((buildBackupPayload ago o other t).map (· .id)).Nodup ∧ ∀ c ∈ buildBackupPayload ago o other t, c .id ≠ .null := by
  have hrows : buildBackupPayload ago o other t = (other.rows t).map jsonRow := by rw [buildBackupPayload, ht]
  rw [hrows]
  refine ⟨?_, fun c hc hnull => ?_⟩
  · rw [map_jsonRow_id (h.typed t)]
    exact h.whole.ids t
  · obtain ⟨x, hx, rfl⟩ := List.mem_map.1 hc
    obtain ⟨n, hn⟩ := (h.typed t x hx).id
    rw [jsonRow_plain (h.typed t x hx) .id nofun, hn] at hnull
    exact nomatch hnull

/-- Subscriptions of the archive have different endpoints, and owners. -/
theorem archived_subscriptions (h : Consistent S' other) :
    (∀ c ∈ buildBackupPayload ago o other .pushSubscription, ∀ c' ∈ buildBackupPayload ago o other .pushSubscription,
        c .endpoint = c' .endpoint → c = c') ∧
      ∀ c ∈ buildBackupPayload ago o other .pushSubscription, (c .userId).truthy = true := by
  have hrows : buildBackupPayload ago o other .pushSubscription = (other.rows .pushSubscription).map jsonRow := rfl
  rw [hrows]
  refine ⟨fun a ha b hb hend => ?_, fun a ha => ?_⟩
  · obtain ⟨x, hx, rfl⟩ := List.mem_map.1 ha
    obtain ⟨y, hy, rfl⟩ := List.mem_map.1 hb
    have hxt := h.typed _ x hx
    have hyt := h.typed _ y hy
    rw [jsonRow_plain hxt .endpoint nofun, jsonRow_plain hyt .endpoint nofun] at hend
    have hid := h.whole.uniques .pushSubscription [.endpoint] (by simp [constraints, TableName.uniques]) x hx y hy
      fun col hcol => by
        obtain rfl := List.mem_singleton.1 hcol
        exact ⟨hend, hxt.notNull .endpoint (by simp [TableName.required])⟩
    rw [h.whole.row_eq hx hy hid]
  · obtain ⟨x, hx, rfl⟩ := List.mem_map.1 ha
    have hxt := h.typed _ x hx
    rw [jsonRow_plain hxt .userId nofun]
    rcases h.whole.refs .pushSubscription x hx (.userId, .user) (by simp [constraints, TableName.refs]) with hnull | ⟨p, hp, hid⟩
    · exact absurd hnull (hxt.notNull .userId (by simp [TableName.required]))
    · obtain ⟨n, hn⟩ := (h.typed .user p hp).id
      rw [show x .userId = .int (n + 1) from hid.symm.trans hn]
      simp only [Value.truthy, bne_iff_ne, ne_eq]
      omega

/-- What a restore makes of the users and of the rows that belong to them. -/
structure OwnersRestored (S : Schema) (cur : Db) (p : Payload) (fin : Db) : Prop where
  whole : fin.Whole (constraints S)
  users : Settled cur (p .user) (p .user) fin
  came : ∀ k : Credential, ∀ c ∈ p k.table, ∀ r ∈ fin.rows k.table, k.CameFrom c r → r k.owner = c k.owner
  passkeys : ∀ c ∈ p .webAuthnCredential, ∃ r ∈ fin.rows .webAuthnCredential, r .id = c .id

theorem owners_restored (hother : Consistent S' other) (hcur : Consistent S cur)
    (h : restoreHerderBackup S json (buildBackupPayload ago o other) restoreAudit cur = some fin) :
    OwnersRestored S cur (buildBackupPayload ago o other) fin := by
  obtain ⟨users, tables, vapid, subs, prefs, notes, husers, htables, hvapid, hsubs, hprefs, hnotes, haudit⟩ := restore_phases h
  have hin : Within S .user cur users := foldlM_within (fun _ _ _ h => within_of_puts (upsertUser_puts h)) husers
  have hsubsIn : Within S .pushSubscription vapid subs :=
    foldlM_within (fun _ _ _ h => within_of_puts ((upsertPushSubscription_puts h).imp_left And.left)) hsubs
  obtain ⟨hsame, hwhole, hsteps⟩ := tables_restored (restoreOrder_nodup json _) htables
  -- What no phase after the tables touches is as they leave it.
  have hlate : ∀ t : TableName, t ≠ .pushVapidConfig → t ≠ .pushSubscription → t ≠ .pushPreference → t ≠ .notification →
      t ≠ .auditLog → fin.rows t = tables.rows t := fun t h1 h2 h3 h4 h5 => by
    rw [haudit.other t h5, hnotes.other t h4, hprefs.other t h3, hsubsIn.other t h2, hvapid.other t h1]
  have hsubsFin : fin.rows .pushSubscription = subs.rows .pushSubscription := by
    rw [haudit.other _ (by decide), hnotes.other _ (by decide), hprefs.other _ (by decide)]
  have husersFin : fin.rows .user = users.rows .user := by
    rw [hlate .user (by decide) (by decide) (by decide) (by decide) (by decide)]
    exact hsame .user (by simp [restoreOrder])
  have hsettled : Settled cur (buildBackupPayload ago o other .user) (buildBackupPayload ago o other .user) fin := by
    obtain ⟨h1, h2, h3, h4, h5⟩ := users_restored hcur.whole (accounts_of_consistent hother) husers
    exact ⟨husersFin ▸ h1, husersFin ▸ h2, husersFin ▸ h3, husersFin ▸ h4, husersFin ▸ h5⟩
  have hrows : ∀ t, (t, buildBackupPayload ago o other t) ∈ restoreOrder json (buildBackupPayload ago o other) →
      snapshot ago o other t = other.rows t → fin.rows t = tables.rows t → ∀ c ∈ buildBackupPayload ago o other t,
      (∃ r ∈ fin.rows t, r .id = c .id) ∧ ∀ r ∈ fin.rows t, r .id = c .id → ∀ col, Plain col → r col = c col := by
    intro t hstep hsnap hfin c hc
    obtain ⟨m, m', -, hrun, hm'⟩ := hsteps _ hstep
    obtain ⟨hids, hnull⟩ := archived_ids hother hsnap
    rw [hfin, ← hm']
    exact rows_restored hids hnull hrun c hc
  have hbyId : ∀ k : Credential, k ≠ .pushSubscription → ∀ c ∈ buildBackupPayload ago o other k.table,
      (∃ r ∈ fin.rows k.table, r .id = c .id) ∧
        ∀ r ∈ fin.rows k.table, r .id = c .id → ∀ col, Plain col → r col = c col := by
    intro k hk
    refine hrows k.table ?_ ?_ (hlate _ ?_ ?_ ?_ ?_ ?_) <;> cases k <;>
      first | exact absurd rfl hk | rfl | decide | simp [restoreOrder, Credential.table]
  refine ⟨haudit.whole (hnotes.whole (hprefs.whole (hsubsIn.whole (hvapid.whole (hwhole (hin.whole hcur.whole)))))), hsettled,
    fun k c hc r hr hcame => ?_, fun c hc => (hbyId .webAuthnCredential (by decide) c hc).1⟩
  by_cases hk : k = .pushSubscription
  · subst hk
    obtain ⟨htruthy, hend⟩ : (c .endpoint).truthy = true ∧ r .endpoint = c .endpoint := by
      simpa [Credential.CameFrom] using hcame
    obtain ⟨hends, huser⟩ := archived_subscriptions hother
    exact subscriptions_restored hends huser hsubs c hc htruthy r (hsubsFin ▸ hr) hend
  · refine (hbyId k hk c hc).2 r hr (by simpa [Credential.CameFrom, hk] using hcame) k.owner ?_
    cases k <;> nofun

/-- **Restored credentials stay with their owners, if and only if** the passkeys have their foreign key or the owner of each
one keeps their id. -/
theorem credentials_stay_iff (hother : Consistent S' other) (hcur : Consistent S cur)
    (h : restoreHerderBackup S json (buildBackupPayload ago o other) restoreAudit cur = some fin) :
    StayWithOwners (buildBackupPayload ago o other) fin ↔
      S.webAuthnRefs = true ∨ ∀ c ∈ buildBackupPayload ago o other .webAuthnCredential,
        ∀ u ∈ buildBackupPayload ago o other .user, c .userId = u .id → KeepsId cur (buildBackupPayload ago o other .user) u := by
  have hdone := owners_restored hother hcur h
  constructor
  · intro hstay
    by_cases hrefs : S.webAuthnRefs = true
    · exact Or.inl hrefs
    · refine Or.inr fun c hc u hu hcu => (hdone.users.kept u hu).1 ?_
      obtain ⟨r, hr, hid⟩ := hdone.passkeys c hc
      have hcame : Credential.CameFrom .webAuthnCredential c r := by simpa [Credential.CameFrom] using hid
      obtain ⟨x, hx, hxr, -⟩ := (hstay .webAuthnCredential c hc u hu hcu r hr hcame).1
      exact ⟨x, hx, hxr.symm.trans ((hdone.came .webAuthnCredential c hc r hr hcame).trans hcu)⟩
  · intro hkeeps k c hc u hu hcu r hr hcame
    have hru : r k.owner = u .id := (hdone.came k c hc r hr hcame).trans hcu
    have hmine : ∀ x ∈ fin.rows .user, r k.owner = x .id → x .email = u .email :=
      fun x hx hxr => hdone.users.mine u hu x hx (hxr.symm.trans hru)
    suffices hthere : ∃ x ∈ fin.rows .user, x .id = u .id by
      obtain ⟨x, hx, hxu⟩ := hthere
      exact ⟨⟨x, hx, hru.trans hxu.symm, hmine x hx (hru.trans hxu.symm)⟩, hmine⟩
    by_cases hfree : k = .webAuthnCredential ∧ S.webAuthnRefs = false
    · obtain ⟨rfl, hfalse⟩ := hfree
      rcases hkeeps with htrue | hkeeps
      · rw [hfalse] at htrue
        exact nomatch htrue
      · exact (hdone.users.kept u hu).2 (hkeeps c hc u hu hcu)
    · -- The foreign key is there, so the row refers to somebody.
      have href : (k.owner, TableName.user) ∈ (constraints S).refs k.table := by
        cases k <;> simp_all [constraints, TableName.refs, Credential.table, Credential.owner]
      obtain ⟨n, hn⟩ := (accounts_of_consistent hother).numbers u hu
      rcases hdone.whole.refs k.table r hr _ href with hnull | ⟨x, hx, hxr⟩
      · rw [hru, hn] at hnull
        exact nomatch hnull
      · exact ⟨x, hx, hxr.trans hru⟩

end Restored

/-! ## A passkey of nobody -/

open Str in
def alice (n : Int) : Row :=
  rowOf [(.id, .int n), (.email, .text (lit "alice@example.org")), (.hashedPassword, .text (lit "$2b$12$Q9"))]

open Str in
def passkey : Row := rowOf [(.id, .int 1), (.userId, .int 1), (.credentialId, .text (lit "dGVzdA"))]

/-- Alice is user 1, and has a passkey. -/
def archivedHost : Db := ⟨fun | .user => [alice 1] | .webAuthnCredential => [passkey] | _ => [], fun _ => 1⟩

/-- Alice is user 5. -/
def currentHost : Db := ⟨fun | .user => [alice 5] | _ => [], fun _ => 5⟩

def noJson : JsonText := ⟨fun _ => none, fun _ => []⟩

def noon : Datetime := ⟨2026, 1, 31, 12, 0, 0, 0, by decide⟩

def withoutAudit : Options := ⟨false, true, 90⟩

theorem typed_alice (n : Nat) : Typed .user (alice (n + 1)) := by
  refine typed_rowOf rfl ⟨n, rfl⟩ fun c hc => ?_
  obtain rfl := List.mem_singleton.1 hc
  exact nofun

theorem archivedHost_consistent (S : Schema) : Consistent S archivedHost := by
  refine ⟨⟨fun t => ?_, fun t cs hcs r hr r' hr' _ => ?_, fun t r hr k hk => ?_⟩, fun t r hr => ?_⟩
  · cases t <;> simp [archivedHost]
  · cases t <;> simp_all [archivedHost]
  · cases t <;> simp [archivedHost] at hr
    · simp [constraints, TableName.refs] at hk
    · subst hr
      have hk : k = (.userId, .user) := by
        cases hS : S.webAuthnRefs <;> simp [constraints, TableName.refs, hS] at hk
        exact hk
      subst hk
      exact Or.inr ⟨alice 1, List.mem_singleton.2 rfl, rfl⟩
  · cases t <;> simp [archivedHost] at hr
    · subst hr
      exact typed_alice 0
    · subst hr
      exact typed_rowOf rfl ⟨0, rfl⟩ (fun c hc => nomatch hc)

theorem currentHost_consistent (S : Schema) : Consistent S currentHost := by
  refine ⟨⟨fun t => ?_, fun t cs hcs r hr r' hr' _ => ?_, fun t r hr k hk => ?_⟩, fun t r hr => ?_⟩
  · cases t <;> simp [currentHost]
  · cases t <;> simp_all [currentHost]
  · cases t <;> simp [currentHost] at hr
    simp [constraints, TableName.refs] at hk
  · cases t <;> simp [currentHost] at hr
    subst hr
    exact typed_alice 4

theorem passkey_of_nobody : Consistent .upgraded archivedHost ∧ Consistent .upgraded currentHost ∧
    ∃ fin, restoreHerderBackup .upgraded noJson (buildBackupPayload (fun _ => noon) withoutAudit archivedHost) false currentHost =
      some fin ∧ ¬ StayWithOwners (buildBackupPayload (fun _ => noon) withoutAudit archivedHost) fin := by
  refine ⟨archivedHost_consistent _, currentHost_consistent _, ?_⟩
  have hrun : (restoreHerderBackup .upgraded noJson (buildBackupPayload (fun _ => noon) withoutAudit archivedHost) false
      currentHost).any (fun fin => ((fin.rows .webAuthnCredential).any fun r => decide (r .id = .int 1 ∧ r .userId = .int 1)) &&
        (fin.rows .user).all fun x => decide (x .id ≠ .int 1)) = true := by decide
  obtain ⟨fin, hfin, hcheck⟩ := (Option.any_eq_true _ _).1 hrun
  rw [Bool.and_eq_true, List.any_eq_true, List.all_eq_true] at hcheck
  obtain ⟨⟨r, hr, hrow⟩, hnobody⟩ := hcheck
  obtain ⟨hid, howner⟩ := of_decide_eq_true hrow
  refine ⟨fin, hfin, fun hstay => ?_⟩
  obtain ⟨⟨x, hx, hxr, -⟩, -⟩ := hstay .webAuthnCredential (jsonRow passkey) (List.mem_singleton.2 rfl) (jsonRow (alice 1))
    (List.mem_singleton.2 rfl) rfl r hr hid
  exact of_decide_eq_true (hnobody x hx) (hxr.symm.trans howner)

/-- Where Alice has the same id, her passkey stays hers. -/
theorem passkey_of_alice : ∃ fin, restoreHerderBackup .upgraded noJson (buildBackupPayload (fun _ => noon) withoutAudit archivedHost)
    false archivedHost = some fin ∧ (StayWithOwners (buildBackupPayload (fun _ => noon) withoutAudit archivedHost) fin ↔
      Schema.upgraded.webAuthnRefs = true ∨ ∀ c ∈ buildBackupPayload (fun _ => noon) withoutAudit archivedHost .webAuthnCredential,
        ∀ u ∈ buildBackupPayload (fun _ => noon) withoutAudit archivedHost .user, c .userId = u .id →
          KeepsId archivedHost (buildBackupPayload (fun _ => noon) withoutAudit archivedHost .user) u) := by
  have hrun : (restoreHerderBackup .upgraded noJson (buildBackupPayload (fun _ => noon) withoutAudit archivedHost) false
      archivedHost).isSome = true := by decide
  obtain ⟨fin, hfin⟩ := Option.isSome_iff_exists.1 hrun
  exact ⟨fin, hfin, credentials_stay_iff (archivedHost_consistent .upgraded) (archivedHost_consistent .upgraded) hfin⟩

end PiHerder.Config
