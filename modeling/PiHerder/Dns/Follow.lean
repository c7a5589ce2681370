import PiHerder.Dns.Records

/-!
# The Pi-holes follow the fabric

The edits of a call are worked out from the rows as they are when it writes: each call has to send just what its rows
take back and add. What the Pi-holes are to hold is read off the tables; a call is `Tidy` where its edits make up the
difference.
-/
namespace PiHerder.Dns
open Lib Lib.Str Lib.Mirror
open Migrate (ServiceDnsRecord RecordType Upsert normalizeFqdn isHostIdentityName hostIpForDns isValidFqdn isValidIpv4)

/-! ## What the Pi-holes are to hold -/

/-- The host entry of a server that manages it. -/
def ServerEntry (s : Server) (e : Str × Str) : Prop := s.dnsManageA = true ∧ e = (hostIpForDns s.toServer, s.dnsName)

def HostRow (r : ServiceDnsRecord) : Prop := r.managedOnPihole = true ∧ r.recordType = .a

def CnameRow (r : ServiceDnsRecord) : Prop := r.managedOnPihole = true ∧ r.recordType = .cname

def Tables.addressOf (t : Tables) (r : ServiceDnsRecord) : Option Str := (t.server r.backendServerId).map fun s => hostIpForDns s.toServer

def Tables.targetName (t : Tables) (r : ServiceDnsRecord) : Option Str := (t.server r.targetServerId).map fun s => s.dnsName

/-- The entry of a record that is a host's own: its backend's address. -/
def RowHost (t : Tables) (r : ServiceDnsRecord) (e : Str × Str) : Prop := HostRow r ∧ t.addressOf r = some e.1 ∧ e.2 = r.fqdn

def RowCname (t : Tables) (r : ServiceDnsRecord) (e : Str × Str) : Prop := CnameRow r ∧ e.1 = r.fqdn ∧ t.targetName r = some e.2

def WantsHost (t : Tables) (e : Str × Str) : Prop := (∃ s ∈ t.servers.rows, ServerEntry s e) ∨ ∃ r ∈ t.records.rows, RowHost t r e

def WantsCname (t : Tables) (e : Str × Str) : Prop := ∃ r ∈ t.records.rows, RowCname t r e

/-- The enabled Pi-holes take every edit. -/
structure Fabric where
  tables : Tables
  piholes : List Pihole

def Fabric.call (w : Fabric) (e : DnsCall) : Call := e.run (!w.piholes.isEmpty) w.tables

def Fabric.step (w : Fabric) (e : DnsCall) : Fabric := ⟨(w.call e).tables, w.piholes.map fun z => (w.call e).writes.foldl Pihole.take z⟩

/-- **Each Pi-hole has what the tables say**, and nothing else. -/
def Fabric.Follows (w : Fabric) : Prop :=
  ∀ z ∈ w.piholes, Mirrors z.hosts (WantsHost w.tables) ∧ Mirrors z.cnames (WantsCname w.tables)

/-- Nothing is recorded yet: no service record, no managed host, no entry on a Pi-hole. -/
structure Fabric.Blank (w : Fabric) : Prop where
  records : w.tables.records.rows = []
  servers : ∀ s ∈ w.tables.servers.rows, s.dnsManageA = false ∧ s.key ≠ 0
  piholes : ∀ z ∈ w.piholes, z = ⟨[], []⟩

/-- The calls of the run: an upsert syncs, and the call returns. -/
def Fabric.Returns (w : Fabric) (e : DnsCall) : Prop :=
  (w.call e).error = none ∧ match e with
    | .upsertServiceRecord u => u.syncNow = true
    | .syncServiceDns _ => False
    | _ => True

/-! ## When a call is tidy -/

/-- The address that the entry of a row has once the server `id` is written. -/
def addressAfter (t : Tables) (id : Nat) (new : Server) (r : ServiceDnsRecord) : Option Str :=
  if r.backendServerId = id then some (hostIpForDns new.toServer) else t.addressOf r

/-- A save that renames finds no CNAME for the host; one that changes the address no record of the host's own, but for
the one of its managed name; the entry it drops is nobody else's, and one it pushes unmanaged is wanted by a record. A
name that is managed is a normal one: a stray dot and a blank go in two passes. -/
structure TidySave (t : Tables) (old new : Server) (syncNow : Bool) : Prop where
  normal : new.dnsManageA = true → normalizeFqdn new.dnsName = new.dnsName
  renames : new.dnsName = old.dnsName ∨ ∀ r ∈ t.records.rows, CnameRow r → r.targetServerId ≠ old.key
  moves : hostIpForDns new.toServer = hostIpForDns old.toServer ∨ ∀ r ∈ t.records.rows, HostRow r → r.backendServerId = old.key →
    old.dnsManageA = true ∧ new.dnsManageA = true ∧ r.fqdn = old.dnsName ∧ new.dnsName = old.dnsName
  drops : ∀ e, ServerEntry old e → ¬ ServerEntry new e → (∀ s ∈ t.servers.rows, s.key ≠ old.key → ¬ ServerEntry s e) ∧
    ∀ r ∈ t.records.rows, HostRow r → addressAfter t old.key new r = some e.1 → r.fqdn ≠ e.2
  pushes : old.dnsManageA = false → new.dnsManageA = false → new.dnsName ≠ [] → syncNow = true →
    ∃ r ∈ t.records.rows, HostRow r ∧ addressAfter t old.key new r = some (hostIpForDns new.toServer) ∧ r.fqdn = normalizeFqdn new.dnsName

/-- The entry of a record's own host stays wanted without the record. -/
def WantedWithout (t : Tables) (id : Nat) (e : Str × Str) : Prop :=
  (∃ s ∈ t.servers.rows, ServerEntry s e) ∨ ∃ r ∈ t.records.rows, r.id ≠ id ∧ RowHost t r e

/-- The name makes the record of an upsert a host's own. -/
def OwnName (u : Upsert) (target backend : Migrate.Server) : Prop :=
  isHostIdentityName (normalizeFqdn u.fqdn) backend = true ∨ isHostIdentityName (normalizeFqdn u.fqdn) target = true

/-- An upsert of a CNAME stays a managed one, one of a host's own entry leaves that wanted, and a CNAME entry that is
dropped is no other row's. The names that are pushed are normal ones. -/
structure TidyUpsert (t : Tables) (u : Upsert) (target backend : Migrate.Server) (row : Option Nat) : Prop where
  normal : u.managedOnPihole = true → normalizeFqdn (normalizeFqdn u.fqdn) = normalizeFqdn u.fqdn ∧
    (¬ OwnName u target backend → normalizeFqdn target.dnsName = target.dnsName)
  stays : ∀ r, row.bind t.record = some r → CnameRow r → u.managedOnPihole = true ∧ ¬ OwnName u target backend
  leaves : ∀ r, row.bind t.record = some r → ∀ e, RowHost t r e → WantedWithout t r.id e ∨
    u.managedOnPihole = true ∧ OwnName u target backend ∧ e = (hostIpForDns backend, normalizeFqdn u.fqdn)
  drops : ∀ r ∈ t.records.rows, r.id ≠ t.rowId row → Dropped t u target backend row = true → ¬ RowCname t r (oldEntry t (row.bind t.record))

/-- The record is deleted from the Pi-holes as a CNAME: its name is not its backend's own. -/
def DeletedAsCname (t : Tables) (r : ServiceDnsRecord) : Prop :=
  ((t.server r.backendServerId <|> t.server r.targetServerId).any fun s => isHostIdentityName (normalizeFqdn r.fqdn) s.toServer) = false

def Tidy (t : Tables) : DnsCall → Prop
  | .updateServerDns u => ∀ s, t.server u.serverId = some s → TidySave t s (u.write s) u.syncNow
  | .upsertServiceRecord u => ∀ target backend row, u.check t.plane = .ok (target, backend, row) → TidyUpsert t u target backend row
  | .linkServiceProject id _ direct => ∀ r, t.record id = some r → direct = true → CnameRow r → ∀ b, t.server r.backendServerId = some b →
      t.targetName r = some b.dnsName ∧ isHostIdentityName r.fqdn b.toServer = false
  | .syncServiceDns _ => True
  | .deleteServiceRecord id remove => ∀ r, t.record id = some r →
      (CnameRow r → remove = true ∧ DeletedAsCname t r) ∧ (∀ e, RowHost t r e → WantedWithout t r.id e) ∧
        ∀ o ∈ t.records.rows, o.id ≠ r.id → ∀ e, RowCname t o e → e.1 = normalizeFqdn r.fqdn →
          (t.server r.targetServerId).map (fun s => normalizeFqdn s.dnsName) ≠ some e.2

/-! ## Addresses -/

theorem strip_hostIpForDns (s : Migrate.Server) : strip (hostIpForDns s) = hostIpForDns s := by
  unfold hostIpForDns
  cases hfound : ([s.dnsIpOverride, s.ipAddress, s.hostname].map strip).find? isValidIpv4 with
  | none => rfl
  | some ip =>
    obtain ⟨x, -, rfl⟩ := List.mem_map.1 (List.mem_of_find?_eq_some hfound)
    exact strip_strip x

/-! ## The edits, on a Pi-hole -/

def Write.onHosts : Write → Option (Edit (Str × Str))
  | .host e => some e
  | .cname _ => none

def Write.onCnames : Write → Option (Edit (Str × Str))
  | .host _ => none
  | .cname e => some e

theorem take_hosts (ws : List Write) (z : Pihole) : (ws.foldl Pihole.take z).hosts = edits z.hosts (ws.filterMap Write.onHosts) := by
  induction ws generalizing z with
  | nil => rfl
  | cons w ws ih =>
    rw [List.foldl_cons, ih]
    cases w <;> rfl

theorem take_cnames (ws : List Write) (z : Pihole) : (ws.foldl Pihole.take z).cnames = edits z.cnames (ws.filterMap Write.onCnames) := by
  induction ws generalizing z with
  | nil => rfl
  | cons w ws ih =>
    rw [List.foldl_cons, ih]
    cases w <;> rfl

/-- Edits that turn one mirror into the other. -/
def Turns (W W' : Str × Str → Prop) (es : List (Edit (Str × Str))) : Prop := ∀ s, Mirrors s W → Mirrors (edits s es) W'

/-- **The step rule**: the Pi-holes follow where the edits of the call turn what was wanted into what is. -/
theorem Fabric.Follows.step {w : Fabric} {e : DnsCall} (h : w.Follows)
    (hhosts : Turns (WantsHost w.tables) (WantsHost (w.call e).tables) ((w.call e).writes.filterMap Write.onHosts))
    (hcnames : Turns (WantsCname w.tables) (WantsCname (w.call e).tables) ((w.call e).writes.filterMap Write.onCnames)) : (w.step e).Follows := by
  intro z' hz'
  obtain ⟨z, hz, rfl⟩ := List.mem_map.1 hz'
  rw [take_hosts, take_cnames]
  exact ⟨hhosts _ (h z hz).1, hcnames _ (h z hz).2⟩

section turns
variable {W W' : Str × Str → Prop} {a b : Str × Str}

theorem turns_nil (h : ∀ e, W e ↔ W' e) : Turns W W' [] := fun _ hs => hs.congr h

theorem turns_add (h : ∀ e, e = a ∨ W e ↔ W' e) : Turns W W' [.add a] := fun _ hs => (hs.add a).congr h

theorem turns_delete (h : ∀ e, e ≠ a ∧ W e ↔ W' e) : Turns W W' [.delete a] := fun _ hs => (hs.delete a).congr h

theorem turns_replace (h : ∀ e, e = b ∨ e ≠ a ∧ W e ↔ W' e) : Turns W W' [.delete a, .add b] := fun _ hs => ((hs.delete a).add b).congr h

end turns

/-! ## Tables after a save -/

section saves
variable {t : Tables} {s : Server}

/-- What the calls keep of the tables. -/
structure Tables.Sound (t : Tables) : Prop where
  managed : ∀ s ∈ t.servers.rows, s.dnsManageA = true → s.dnsName ≠ [] ∧ normalizeFqdn s.dnsName = s.dnsName ∧ hostIpForDns s.toServer ≠ []
  positive : ∀ s ∈ t.servers.rows, s.key ≠ 0
  named : ∀ r ∈ t.records.rows, CnameRow r → r.fqdn ≠ [] ∧ normalizeFqdn r.fqdn = r.fqdn ∧
    ∀ n, t.targetName r = some n → n ≠ [] ∧ normalizeFqdn n = n

variable {f : Server → Server} {hf : ∀ s, (f s).key = s.key}

theorem server_writeServer (hs : t.server s.key = some s) (id : Nat) :
    (t.writeServer s.key f hf).server id = if id = s.key then some (f s) else t.server id := by
  have hmap : (t.writeServer s.key f hf).server id = (t.server id).map fun r => if r.key = s.key then f r else r :=
    Table.lookup_map (fun r => by split <;> simp [hf]) id t.servers.rows
  rw [hmap]
  by_cases hid : id = s.key
  · rw [if_pos hid, hid, hs, Option.map_some, if_pos rfl]
  · rw [if_neg hid]
    cases hr : t.server id with
    | none => rfl
    | some r => rw [Option.map_some, if_neg ((Tables.server_mem hr).2 ▸ hid)]

theorem addressOf_writeServer (hs : t.server s.key = some s) (r : ServiceDnsRecord) :
    (t.writeServer s.key f hf).addressOf r = addressAfter t s.key (f s) r := by
  unfold Tables.addressOf addressAfter
  rw [server_writeServer hs]
  split <;> rfl

theorem targetName_writeServer (hs : t.server s.key = some s) (r : ServiceDnsRecord) :
    (t.writeServer s.key f hf).targetName r = if r.targetServerId = s.key then some (f s).dnsName else t.targetName r := by
  unfold Tables.targetName
  rw [server_writeServer hs]
  split <;> rfl

/-- The other servers' entries. -/
def Others (t : Tables) (id : Nat) (e : Str × Str) : Prop := ∃ o ∈ t.servers.rows, o.key ≠ id ∧ ServerEntry o e

theorem wantsHost_split (hs : t.server s.key = some s) (e : Str × Str) :
    WantsHost t e ↔ ServerEntry s e ∨ Others t s.key e ∨ ∃ r ∈ t.records.rows, RowHost t r e := by
  unfold WantsHost Others
  rw [← or_assoc]
  refine or_congr_left ⟨?_, ?_⟩
  · rintro ⟨o, ho, hentry⟩
    by_cases hid : o.key = s.key
    · rw [t.servers.eq_of_key ho (Tables.server_mem hs).1 hid] at hentry
      exact .inl hentry
    · exact .inr ⟨o, ho, hid, hentry⟩
  · rintro (hentry | ⟨o, ho, -, hentry⟩)
    · exact ⟨s, (Tables.server_mem hs).1, hentry⟩
    · exact ⟨o, ho, hentry⟩

theorem mem_writeServer (hs : t.server s.key = some s) {o : Server} :
    o ∈ (t.writeServer s.key f hf).servers.rows ↔ o = f s ∨ o.key ≠ s.key ∧ o ∈ t.servers.rows := by
  have hmem := @Keyed.mem_modify _ _ _ _ t.servers s.key f hf o
  refine hmem.trans ⟨?_, ?_⟩
  · rintro ⟨r, hr, rfl⟩
    by_cases hid : r.key = s.key
    · rw [if_pos hid, t.servers.eq_of_key hr (Tables.server_mem hs).1 hid]
      exact .inl rfl
    · rw [if_neg hid]
      exact .inr ⟨hid, hr⟩
  · rintro (rfl | ⟨hid, hr⟩)
    · exact ⟨s, (Tables.server_mem hs).1, (if_pos rfl).symm⟩
    · exact ⟨o, hr, (if_neg hid).symm⟩

/-- The records' entries once the server `id` is written. -/
def RowsAfter (t : Tables) (id : Nat) (new : Server) (e : Str × Str) : Prop :=
  ∃ r ∈ t.records.rows, HostRow r ∧ addressAfter t id new r = some e.1 ∧ e.2 = r.fqdn

theorem wantsHost_writeServer (hs : t.server s.key = some s) (e : Str × Str) :
    WantsHost (t.writeServer s.key f hf) e ↔ ServerEntry (f s) e ∨ Others t s.key e ∨ RowsAfter t s.key (f s) e := by
  have hothers : (∃ o ∈ (t.writeServer s.key f hf).servers.rows, ServerEntry o e) ↔ ServerEntry (f s) e ∨ Others t s.key e := by
    simp only [mem_writeServer hs, or_and_right, exists_or, exists_eq_left, Others, and_assoc, and_left_comm (a := _ ≠ _)]
  have hrows : (∃ r ∈ t.records.rows, RowHost (t.writeServer s.key f hf) r e) ↔ RowsAfter t s.key (f s) e := by
    simp only [RowHost, RowsAfter, addressOf_writeServer hs]
  rw [← or_assoc, ← hothers, ← hrows]
  exact Iff.rfl

variable {syncNow answers : Bool} {new : Server}

/-- A record keeps its address, or is the host's own under the name that is managed before and after. -/
theorem row_address (htidy : TidySave t s new syncNow) (hs : t.server s.key = some s) {r : ServiceDnsRecord} (hr : r ∈ t.records.rows) (hrow : HostRow r) :
    addressAfter t s.key new r = t.addressOf r ∨ (s.dnsManageA = true ∧ new.dnsManageA = true) ∧ r.fqdn = s.dnsName ∧ new.dnsName = s.dnsName ∧
      t.addressOf r = some (hostIpForDns s.toServer) ∧ addressAfter t s.key new r = some (hostIpForDns new.toServer) := by
  unfold addressAfter
  by_cases hid : r.backendServerId = s.key
  · have haddress : t.addressOf r = some (hostIpForDns s.toServer) := by
      unfold Tables.addressOf
      rw [hid, hs, Option.map_some]
    rw [if_pos hid, haddress]
    rcases htidy.moves with hsame | hmoves
    · exact .inl (by rw [hsame])
    · obtain ⟨hold, hnew, hname, hnames⟩ := hmoves r hr hrow hid
      exact .inr ⟨⟨hold, hnew⟩, hname, hnames, rfl, rfl⟩
  · exact .inl (if_neg hid)

/-- The entries of the records stay, unless the host is managed before and after. -/
theorem rows_kept (htidy : TidySave t s new syncNow) (hs : t.server s.key = some s) (hboth : ¬ (s.dnsManageA = true ∧ new.dnsManageA = true)) (e : Str × Str) :
    RowsAfter t s.key new e ↔ ∃ r ∈ t.records.rows, RowHost t r e := by
  refine exists_congr fun r => and_congr_right fun hr => and_congr_right fun hrow => ?_
  rcases row_address htidy hs hr hrow with hsame | ⟨hmanaged, -⟩
  · rw [hsame]
  · exact absurd hmanaged hboth

/-- Of the records' entries a save takes the host's old one at most, -/
theorem rows_lost (htidy : TidySave t s new syncNow) (hs : t.server s.key = some s) {e : Str × Str} (h : ∃ r ∈ t.records.rows, RowHost t r e) :
    RowsAfter t s.key new e ∨ e = (hostIpForDns s.toServer, s.dnsName) := by
  obtain ⟨r, hr, hrow, haddress, hname⟩ := h
  rcases row_address htidy hs hr hrow with hsame | ⟨-, hfqdn, -, hold, -⟩
  · exact .inl ⟨r, hr, hrow, hsame.trans haddress, hname⟩
  · exact .inr (Prod.ext (Option.some.inj (haddress.symm.trans hold)) (hname.trans hfqdn))

/-- and it gives the new one at most. -/
theorem rows_gained (htidy : TidySave t s new syncNow) (hs : t.server s.key = some s) {e : Str × Str} (h : RowsAfter t s.key new e) :
    (∃ r ∈ t.records.rows, RowHost t r e) ∨ e = (hostIpForDns new.toServer, new.dnsName) := by
  obtain ⟨r, hr, hrow, haddress, hname⟩ := h
  rcases row_address htidy hs hr hrow with hsame | ⟨-, hfqdn, hnames, -, hnew⟩
  · exact .inl ⟨r, hr, hrow, hsame.symm.trans haddress, hname⟩
  · exact .inr (Prod.ext (Option.some.inj (haddress.symm.trans hnew)) (hname.trans (hfqdn.trans hnames.symm)))

theorem syncHostA_writes (hname : normalizeFqdn new.dnsName ≠ []) (hip : hostIpForDns new.toServer ≠ []) :
    (syncHostA answers new).2 = [.host (.add (hostIpForDns new.toServer, normalizeFqdn new.dnsName))] := by
  unfold syncHostA
  dsimp only
  rw [if_neg hname, if_neg hip]

theorem syncHostA_error (h : (syncHostA answers new).1 = none) : normalizeFqdn new.dnsName ≠ [] ∧ hostIpForDns new.toServer ≠ [] := by
  unfold syncHostA at h
  dsimp only at h
  constructor
  · intro hname
    rw [if_pos hname] at h
    cases h
  · intro hip
    simp only [hip, if_true] at h
    split at h <;> cases h

theorem removeHostA_writes {domain ip : Str} (hdomain : domain ≠ []) (hname : normalizeFqdn domain = domain) (hip : ip ≠ []) (haddr : strip ip = ip) :
    removeHostA s domain ip = [.host (.delete (ip, domain))] := by
  unfold removeHostA
  simp only [if_pos hdomain, if_pos hip, hname, haddr, hdomain, hip, or_self, if_false]

/-- An entry that a save drops is wanted no more. -/
theorem dropped_unwanted (htidy : TidySave t s new syncNow) {e : Str × Str} (hold : ServerEntry s e) (hnew : ¬ ServerEntry new e) :
    ¬ Others t s.key e ∧ ¬ RowsAfter t s.key new e := by
  obtain ⟨hothers, hrows⟩ := htidy.drops e hold hnew
  exact ⟨fun ⟨o, ho, hid, hentry⟩ => hothers o ho hid hentry, fun ⟨r, hr, hrow, haddress, hname⟩ => hrows r hr hrow haddress hname.symm⟩

/-- A save that drops the entry. -/
theorem turns_drop (htidy : TidySave t s (f s) syncNow) (hs : t.server s.key = some s) (hold : s.dnsManageA = true) (hnew : (f s).dnsManageA = false) :
    Turns (WantsHost t) (WantsHost (t.writeServer s.key f hf)) [.delete (hostIpForDns s.toServer, s.dnsName)] := by
  have hnone : ∀ e, ¬ ServerEntry (f s) e := fun e h => by rw [h.1] at hnew; cases hnew
  have hkept := rows_kept htidy hs fun h => by rw [h.2] at hnew; cases hnew
  obtain ⟨hothers, hrows⟩ := dropped_unwanted htidy ⟨hold, rfl⟩ (hnone _)
  refine turns_delete fun e => ?_
  rw [wantsHost_split hs, wantsHost_writeServer hs, hkept]
  constructor
  · rintro ⟨hne, hentry | h⟩
    · exact absurd hentry.2 hne
    · exact .inr h
  · rintro (hentry | hother | hrow)
    · exact absurd hentry (hnone e)
    · exact ⟨fun heq => hothers (heq ▸ hother), .inr (.inl hother)⟩
    · exact ⟨fun heq => hrows (heq ▸ (hkept e).2 hrow), .inr (.inr hrow)⟩

/-- A save that manages the entry: the old one goes where it is another. -/
theorem turns_manage (htidy : TidySave t s (f s) syncNow) (hs : t.server s.key = some s) (hnew : (f s).dnsManageA = true)
    {moved : Bool} (hmoved : moved = true → s.dnsManageA = true)
    (hstays : moved = false → s.dnsManageA = true → hostIpForDns s.toServer = hostIpForDns (f s).toServer ∧ s.dnsName = (f s).dnsName) :
    Turns (WantsHost t) (WantsHost (t.writeServer s.key f hf))
      ((if moved then [.delete (hostIpForDns s.toServer, s.dnsName)] else []) ++ [.add (hostIpForDns (f s).toServer, (f s).dnsName)]) := by
  obtain ⟨O, hO⟩ : ∃ O, (hostIpForDns s.toServer, s.dnsName) = O := ⟨_, rfl⟩
  obtain ⟨N, hN⟩ : ∃ N, (hostIpForDns (f s).toServer, (f s).dnsName) = N := ⟨_, rfl⟩
  have hbefore : ∀ e, WantsHost t e → ServerEntry s e ∨ Others t s.key e ∨ RowsAfter t s.key (f s) e ∨ s.dnsManageA = true ∧ e = O := by
    intro e h
    rcases (wantsHost_split hs e).1 h with hentry | hother | hrow
    · exact .inl hentry
    · exact .inr (.inl hother)
    · by_cases hold : s.dnsManageA = true
      · exact .inr (.inr ((rows_lost htidy hs hrow).imp_right fun h => ⟨hold, h.trans hO⟩))
      · exact .inr (.inr (.inl ((rows_kept htidy hs (fun h => hold h.1) e).2 hrow)))
  have hafter : ∀ e, WantsHost (t.writeServer s.key f hf) e ↔ e = N ∨ Others t s.key e ∨ RowsAfter t s.key (f s) e := fun e => by
    rw [wantsHost_writeServer hs, ServerEntry, and_iff_right hnew, hN]
  have hback : ∀ e, WantsHost (t.writeServer s.key f hf) e → e = N ∨ Others t s.key e ∨ ∃ r ∈ t.records.rows, RowHost t r e := by
    intro e h
    rcases (hafter e).1 h with rfl | hother | hrow
    · exact .inl rfl
    · exact .inr (.inl hother)
    · rcases rows_gained htidy hs hrow with hrow | heq
      · exact .inr (.inr hrow)
      · exact .inl (heq.trans hN)
  rw [hO, hN]
  cases moved with
  | true =>
    refine turns_replace fun e => ⟨?_, fun h => ?_⟩
    · rintro (rfl | ⟨hne, h⟩)
      · exact (hafter _).2 (.inl rfl)
      · rcases hbefore e h with hentry | hother | hrow | ⟨-, heq⟩
        · exact absurd (hentry.2.trans hO) hne
        · exact (hafter e).2 (.inr (.inl hother))
        · exact (hafter e).2 (.inr (.inr hrow))
        · exact absurd heq hne
    · by_cases heq : e = N
      · exact .inl heq
      · refine .inr ⟨?_, (wantsHost_split hs e).2 (.inr ((hback e h).resolve_left heq))⟩
        rintro rfl
        have hgone := dropped_unwanted htidy ⟨hmoved rfl, hO.symm⟩ fun hentry => heq (hentry.2.trans hN)
        exact ((hafter _).1 h).elim heq fun h => h.elim hgone.1 hgone.2
  | false =>
    have hsame : s.dnsManageA = true → O = N := fun hold => by
      obtain ⟨hip, hname⟩ := hstays rfl hold
      rw [← hO, ← hN, hip, hname]
    refine turns_add fun e => ⟨?_, fun h => ?_⟩
    · rintro (rfl | h)
      · exact (hafter _).2 (.inl rfl)
      · rcases hbefore e h with hentry | hother | hrow | ⟨hold, heq⟩
        · exact (hafter e).2 (.inl ((hentry.2.trans hO).trans (hsame hentry.1)))
        · exact (hafter e).2 (.inr (.inl hother))
        · exact (hafter e).2 (.inr (.inr hrow))
        · exact (hafter e).2 (.inl (heq.trans (hsame hold)))
    · exact (hback e h).imp_right fun h => (wantsHost_split hs e).2 (.inr h)

/-- A save of a host that is managed neither before nor after; what it pushes is wanted already. -/
theorem turns_unmanaged (htidy : TidySave t s (f s) syncNow) (hs : t.server s.key = some s) (hold : s.dnsManageA = false) (hnew : (f s).dnsManageA = false) (e : Str × Str) :
    WantsHost t e ↔ WantsHost (t.writeServer s.key f hf) e := by
  have hnone : ¬ ServerEntry (f s) e := fun h => by rw [h.1] at hnew; cases hnew
  have hnone' : ¬ ServerEntry s e := fun h => by rw [h.1] at hold; cases hold
  rw [wantsHost_split hs, wantsHost_writeServer hs, rows_kept htidy hs fun h => by rw [h.2] at hnew; cases hnew]
  simp only [hnone, hnone', false_or]

/-- **The save, on the host entries.** -/
theorem turns_save (hsound : t.Sound) (htidy : TidySave t s (f s) syncNow) (hs : t.server s.key = some s)
    (hmanage : (f s).dnsManageA = true → (f s).dnsName ≠ []) (herror : (hostEdits answers syncNow s (f s)).1 = none) :
    Turns (WantsHost t) (WantsHost (t.writeServer s.key f hf)) ((hostEdits answers syncNow s (f s)).2.filterMap Write.onHosts) := by
  have hmanaged := hsound.managed s (Tables.server_mem hs).1
  have hunmanaged : ¬ (s.dnsManageA = true ∧ normalizeFqdn s.dnsName ≠ []) → s.dnsManageA = false := by
    intro hold
    by_contra hyes
    rw [Bool.not_eq_false] at hyes
    obtain ⟨hname, hnormal, -⟩ := hmanaged hyes
    exact hold ⟨hyes, hnormal.symm ▸ hname⟩
  rcases @hostEdits_cases answers syncNow s (f s) hmanage with ⟨hnew, hold, -, heq⟩ | ⟨-, -, heq⟩ | ⟨hnew, hip, heq⟩ |
    ⟨hnew, hold, hname, hnow, heq⟩ | ⟨hnew, hold, hnow, heq⟩
  · obtain ⟨hname, hnormal, hip⟩ := hmanaged hold
    rw [heq, hnormal, removeHostA_writes hname hnormal hip (strip_hostIpForDns _)]
    exact turns_drop htidy hs hold hnew
  · rw [heq] at herror
    cases herror
  · have hnormal := htidy.normal hnew
    rw [heq, syncHostA_writes (hnormal.symm ▸ hmanage hnew) hip, hnormal, List.filterMap_append]
    have hsplit := @turns_manage t s f hf syncNow htidy hs hnew (decide (Moved s (f s))) (fun h => (of_decide_eq_true h).1) fun h hold => by
      obtain ⟨hname, hnormal', hip'⟩ := hmanaged hold
      have hsame := of_decide_eq_false h
      simp only [Moved, hold, hnormal', ne_eq, hname, hip', not_false_eq_true, true_and, not_or, not_not] at hsame
      exact ⟨hsame.2, hsame.1⟩
    by_cases hmoved : Moved s (f s)
    · rw [decide_eq_true hmoved] at hsplit
      rw [if_pos hmoved, (hmanaged hmoved.1).2.1]
      exact hsplit
    · rw [decide_eq_false hmoved] at hsplit
      rw [if_neg hmoved]
      exact hsplit
  · rw [heq] at herror ⊢
    obtain ⟨hname', hip⟩ := syncHostA_error herror
    rw [syncHostA_writes hname' hip]
    refine turns_add fun e => ?_
    rw [turns_unmanaged htidy hs (hunmanaged hold) hnew e, or_iff_right_iff_imp]
    rintro rfl
    obtain ⟨r, hr, hrow, haddress, hfqdn⟩ := htidy.pushes (hunmanaged hold) hnew hname hnow
    exact (@wantsHost_writeServer t s f hf hs _).2 (.inr (.inr ⟨r, hr, hrow, haddress, hfqdn.symm⟩))
  · rw [heq]
    exact turns_nil (turns_unmanaged htidy hs (hunmanaged hold) hnew)

/-- **The save, on the CNAMEs**: no record's target changes its name. -/
theorem wantsCname_writeServer (htidy : TidySave t s (f s) syncNow) (hs : t.server s.key = some s) (e : Str × Str) :
    WantsCname t e ↔ WantsCname (t.writeServer s.key f hf) e := by
  refine exists_congr fun r => and_congr_right fun hr => and_congr_right fun hrow => and_congr_right fun _ => ?_
  rw [targetName_writeServer hs]
  by_cases hid : r.targetServerId = s.key
  · have htarget : t.targetName r = some s.dnsName := by
      unfold Tables.targetName
      rw [hid, hs, Option.map_some]
    rcases htidy.renames with hsame | hnone
    · rw [if_pos hid, hsame, htarget]
    · exact absurd hid (hnone r hr hrow)
  · rw [if_neg hid]

theorem hostEdits_address (hmanage : new.dnsManageA = true → new.dnsName ≠ []) (herror : (hostEdits answers syncNow s new).1 = none)
    (hnew : new.dnsManageA = true) : hostIpForDns new.toServer ≠ [] := by
  intro hip
  rcases @hostEdits_cases answers syncNow s new hmanage with ⟨hno, -⟩ | ⟨-, -, heq⟩ | ⟨-, hyes, -⟩ | ⟨hno, -⟩ | ⟨hno, -⟩
  · rw [hnew] at hno
    cases hno
  · rw [heq] at herror
    cases herror
  · exact hyes hip
  · rw [hnew] at hno
    cases hno
  · rw [hnew] at hno
    cases hno

theorem Tables.Sound.writeServer (hsound : t.Sound) (htidy : TidySave t s (f s) syncNow) (hs : t.server s.key = some s)
    (hmanage : (f s).dnsManageA = true → (f s).dnsName ≠ [] ∧ hostIpForDns (f s).toServer ≠ []) : (t.writeServer s.key f hf).Sound where
  managed o ho hon := by
    rcases (mem_writeServer hs).1 ho with rfl | ⟨-, ho⟩
    · exact ⟨(hmanage hon).1, htidy.normal hon, (hmanage hon).2⟩
    · exact hsound.managed o ho hon
  positive o ho := by
    rcases (mem_writeServer hs).1 ho with rfl | ⟨-, ho⟩
    · rw [hf s]
      exact hsound.positive s (Tables.server_mem hs).1
    · exact hsound.positive o ho
  named r hr hrow := by
    obtain ⟨hne, hnormal, hnames⟩ := hsound.named r hr hrow
    refine ⟨hne, hnormal, fun n hn => hnames n ?_⟩
    rw [targetName_writeServer hs] at hn
    by_cases hid : r.targetServerId = s.key
    · rw [if_pos hid] at hn
      rcases htidy.renames with hsame | hnone
      · unfold Tables.targetName
        rw [hid, hs, Option.map_some, ← hsame, hn]
      · exact absurd hid (hnone r hr hrow)
    · rwa [if_neg hid] at hn

end saves

/-! ## Tables after an upsert -/

section upserts
variable {t : Tables} {u : Upsert} {target backend : Migrate.Server} {row : Option Nat} {answers : Bool}

/-- The hosts of an upsert, and the names its checks have seen. -/
theorem check_hosts (h : u.check t.plane = .ok (target, backend, row)) :
    (∃ g, t.server u.targetServerId = some g ∧ g.toServer = target) ∧ (∃ b, t.server u.backendServerId = some b ∧ b.toServer = backend) := by
  have hserver : ∀ id, t.plane.server id = (t.server id).map Server.toServer := fun id => List.find?_map ..
  obtain ⟨htarget, hbackend, -⟩ := Upsert.check_ok h
  rw [hserver, Option.map_eq_some_iff] at htarget hbackend
  exact ⟨htarget, hbackend⟩

theorem check_names {w : Migrate.Plane} (h : u.check w = .ok (target, backend, row)) :
    normalizeFqdn (normalizeFqdn u.fqdn) ≠ [] ∧ normalizeFqdn target.dnsName ≠ [] := by
  unfold Upsert.check at h
  simp only at h
  split at h
  · cases h
  · rename_i hvalid
    have hname : normalizeFqdn (normalizeFqdn u.fqdn) ≠ [] := by
      rw [not_not] at hvalid
      unfold isValidFqdn at hvalid
      simp only [Bool.and_eq_true, decide_eq_true_eq] at hvalid
      exact hvalid.1.1.1
    split at h
    · split at h
      · cases h
      · rename_i htarget
        split at h
        · split at h
          · cases h
          · split at h
            · cases h
              exact ⟨hname, htarget⟩
            · cases h
        · cases h
          exact ⟨hname, htarget⟩
    · cases h

/-- A row that is as it is written. -/
theorem writeRecord_eq {id : Nat} {f : ServiceDnsRecord → ServiceDnsRecord} {hf : ∀ r, (f r).id = r.id}
    (h : ∀ r ∈ t.records.rows, r.id = id → f r = r) : t.writeRecord id f hf = t := by
  have hrows : t.records.rows.map (fun r => if r.id = id then f r else r) = t.records.rows := by
    refine (List.map_congr_left fun r hr => ?_).trans (List.map_id _)
    by_cases hid : r.id = id
    · rw [if_pos hid, h r hr hid, id_eq]
    · rw [if_neg hid, id_eq]
  obtain ⟨servers, rows, nodup⟩ := t
  simp only at hrows
  simp only [Tables.writeRecord, Keyed.modify, Keyed.map, hrows]

theorem committed_eq (h : u.check t.plane = .ok (target, backend, row)) {r : ServiceDnsRecord} (hr : r ∈ (t.commit u target backend row).records.rows)
    (hid : r.id = t.rowId row) : r = committedRow u target backend (t.rowId row) := by
  rcases (mem_commit h).1 hr with heq | ⟨hne, -⟩
  · exact heq
  · exact absurd hid hne

theorem committed_own (hown : OwnName u target backend) (id : Nat) : (committedRow u target backend id).recordType = .a ∧
    (committedRow u target backend id).viaProxy = false ∧ (committedRow u target backend id).targetServerId = backend.id := by
  have hyes := Bool.or_eq_true_iff.2 hown
  exact ⟨if_pos hyes, (congrArg (fun x => u.viaProxy && !x) hyes).trans (Bool.and_false _), if_pos hyes⟩

theorem committed_cname (hown : ¬ OwnName u target backend) (id : Nat) :
    (committedRow u target backend id).recordType = .cname ∧ (committedRow u target backend id).targetServerId = u.targetServerId :=
  ⟨if_neg fun hyes => hown (Bool.or_eq_true_iff.1 hyes), if_neg fun hyes => hown (Bool.or_eq_true_iff.1 hyes)⟩

/-- A push that returns: of a host's own record, or of a CNAME. -/
theorem sync_returns {r : ServiceDnsRecord} {g b : Server} (hg : t.server r.targetServerId = some g) (hb : t.server r.backendServerId = some b)
    (herror : (syncServiceDns answers t r).error = none) :
    (isIdentity r g b = true ∧ (syncServiceDns answers t r).tables = t.writeRecord r.id (fun r => { r with recordType := .a, viaProxy := false }) (fun _ => rfl) ∧
      (syncServiceDns answers t r).writes = [.host (.add (hostIpForDns b.toServer, normalizeFqdn r.fqdn))]) ∨
    (isIdentity r g b = false ∧ (syncServiceDns answers t r).tables = t.writeRecord r.id (fun r => { r with recordType := .cname }) (fun _ => rfl) ∧
      (syncServiceDns answers t r).writes = [.cname (.add (normalizeFqdn r.fqdn, normalizeFqdn g.dnsName))]) := by
  unfold syncServiceDns at herror ⊢
  simp only [hg, hb, Option.getD_some] at herror ⊢
  by_cases hname : normalizeFqdn g.dnsName = []
  · rw [if_pos hname] at herror
    cases herror
  · rw [if_neg hname] at herror ⊢
    cases hid : isIdentity r g b with
    | true =>
      simp only [hid, if_true] at herror ⊢
      by_cases hip : hostIpForDns b.toServer = []
      · rw [if_pos hip] at herror
        cases herror
      · rw [if_neg hip]
        exact .inl ⟨trivial, rfl, rfl⟩
    | false => exact .inr ⟨rfl, rfl, rfl⟩

/-- **What an upsert commits and sends**: nothing for a row that is not managed, else its entry, after the one it drops. -/
theorem upsert_returns (h : u.check t.plane = .ok (target, backend, row)) (hnow : u.syncNow = true)
    (hnormal : u.managedOnPihole = true → normalizeFqdn (normalizeFqdn u.fqdn) = normalizeFqdn u.fqdn ∧
      (¬ OwnName u target backend → normalizeFqdn target.dnsName = target.dnsName))
    (herror : (upsertServiceRecord answers t u).error = none) :
    (upsertServiceRecord answers t u).tables = t.commit u target backend row ∧
      (u.managedOnPihole = false ∧ (upsertServiceRecord answers t u).writes = [] ∨
        u.managedOnPihole = true ∧ OwnName u target backend ∧
          (upsertServiceRecord answers t u).writes = [.host (.add (hostIpForDns backend, normalizeFqdn u.fqdn))] ∨
        u.managedOnPihole = true ∧ ¬ OwnName u target backend ∧
          (upsertServiceRecord answers t u).writes = (if Dropped t u target backend row then [.cname (.delete (oldEntry t (row.bind t.record)))] else []) ++
            [.cname (.add (normalizeFqdn u.fqdn, target.dnsName))]) := by
  rw [upsert_ok h, hnow] at herror ⊢
  cases hmanaged : u.managedOnPihole with
  | false => exact ⟨rfl, .inl ⟨rfl, rfl⟩⟩
  | true =>
    obtain ⟨⟨g, hg, rfl⟩, b, hb, rfl⟩ := check_hosts h
    obtain ⟨hname, htarget⟩ := hnormal hmanaged
    obtain ⟨c, hc⟩ : ∃ c, committedRow u g.toServer b.toServer (t.rowId row) = c := ⟨_, rfl⟩
    have hkeep : ∀ r ∈ (t.commit u g.toServer b.toServer row).records.rows, r.id = c.id → r = c := fun r hr hid => by
      rw [← hc] at hid ⊢
      exact committed_eq h hr hid
    simp only [hmanaged, Bool.and_self, if_true, hc] at herror ⊢
    have hfqdn : c.fqdn = normalizeFqdn u.fqdn := by rw [← hc]; rfl
    have hbackend : (t.commit u g.toServer b.toServer row).server c.backendServerId = some b := by rw [← hc]; exact hb
    by_cases hown : OwnName u g.toServer b.toServer
    · obtain ⟨htype, hproxy, hsame⟩ := committed_own hown (t.rowId row)
      rw [hc] at htype hproxy hsame
      rw [show b.toServer.id = u.backendServerId from (Tables.server_mem hb).2] at hsame
      have hnot : Dropped t u g.toServer b.toServer row = false := by
        unfold Dropped
        simp only [Bool.or_eq_true_iff.2 hown, Bool.not_true, Bool.false_and]
      rcases sync_returns (hsame ▸ hb) hbackend herror with ⟨-, htables, hwrites⟩ | ⟨hid, -⟩
      · refine ⟨htables.trans (writeRecord_eq fun r hr hid => ?_), .inr (.inl ⟨trivial, hown, ?_⟩)⟩
        · rw [hkeep r hr hid, ← htype, ← hproxy]
        · rw [hwrites, hnot, hfqdn, hname]
          rfl
      · simp only [isIdentity, htype, decide_true, Bool.true_or] at hid
        cases hid
    · obtain ⟨htype, hsame⟩ := committed_cname hown (t.rowId row)
      rw [hc] at htype hsame
      have hnames := not_or.1 hown
      simp only [Bool.not_eq_true] at hnames
      rcases sync_returns (hsame ▸ hg) hbackend herror with ⟨hid, -⟩ | ⟨-, htables, hwrites⟩
      · simp only [isIdentity, htype, hfqdn, hname, hnames.1, hnames.2, reduceCtorEq, decide_false, Bool.or_self] at hid
      · refine ⟨htables.trans (writeRecord_eq fun r hr hid => ?_), .inr (.inr ⟨trivial, hown, ?_⟩)⟩
        · rw [hkeep r hr hid, ← htype]
        · rw [hwrites, hfqdn, hname, htarget hown]

/-- The row an upsert is about, and the others. -/
theorem exists_row_split (row : Option Nat) (P : ServiceDnsRecord → Prop) :
    (∃ r ∈ t.records.rows, P r) ↔ (∃ r, row.bind t.record = some r ∧ P r) ∨ ∃ r ∈ t.records.rows, r.id ≠ t.rowId row ∧ P r := by
  constructor
  · rintro ⟨r, hr, hP⟩
    by_cases hid : r.id = t.rowId row
    · refine .inl ⟨r, ?_, hP⟩
      cases row with
      | some rid => exact (congrArg t.record hid).symm.trans (Tables.record_of_mem hr)
      | none => exact absurd (List.mem_map.2 ⟨r, hr, hid⟩) (freshId_not_mem _)
    · exact .inr ⟨r, hr, hid, hP⟩
  · rintro (⟨r, hold, hP⟩ | ⟨r, hr, -, hP⟩)
    · obtain ⟨rid, -, hfound⟩ := Option.bind_eq_some_iff.1 hold
      exact ⟨r, Table.lookup_mem hfound, hP⟩
    · exact ⟨r, hr, hP⟩

/-- What the other rows want. -/
def ElseCname (t : Tables) (id : Nat) (e : Str × Str) : Prop := ∃ r ∈ t.records.rows, r.id ≠ id ∧ RowCname t r e

theorem wantsCname_before (row : Option Nat) (e : Str × Str) :
    WantsCname t e ↔ (∃ r, row.bind t.record = some r ∧ RowCname t r e) ∨ ElseCname t (t.rowId row) e := exists_row_split row _

theorem wantsCname_commit (h : u.check t.plane = .ok (target, backend, row)) (e : Str × Str) :
    WantsCname (t.commit u target backend row) e ↔ RowCname t (committedRow u target backend (t.rowId row)) e ∨ ElseCname t (t.rowId row) e := by
  have hsame : ∀ r, RowCname (t.commit u target backend row) r e ↔ RowCname t r e := fun _ => Iff.rfl
  simp only [WantsCname, ElseCname, mem_commit h, or_and_right, exists_or, exists_eq_left, hsame, and_assoc, and_left_comm (a := _ ≠ _)]

theorem wantsHost_before (row : Option Nat) (e : Str × Str) :
    WantsHost t e ↔ (∃ r, row.bind t.record = some r ∧ RowHost t r e) ∨ WantedWithout t (t.rowId row) e := by
  unfold WantsHost WantedWithout
  rw [exists_row_split row, or_left_comm]

theorem wantsHost_commit (h : u.check t.plane = .ok (target, backend, row)) (e : Str × Str) :
    WantsHost (t.commit u target backend row) e ↔ RowHost t (committedRow u target backend (t.rowId row)) e ∨ WantedWithout t (t.rowId row) e := by
  have hsame : ∀ r, RowHost (t.commit u target backend row) r e ↔ RowHost t r e := fun _ => Iff.rfl
  have hservers : (t.commit u target backend row).servers = t.servers := rfl
  simp only [WantsHost, WantedWithout, hservers, mem_commit h, or_and_right, exists_or, exists_eq_left, hsame, and_assoc, and_left_comm (a := _ ≠ _),
    or_left_comm (b := RowHost _ _ _)]

/-- The row an upsert is about has the id it is written under. -/
theorem rowId_of_found {r : ServiceDnsRecord} (h : row.bind t.record = some r) : r.id = t.rowId row := by
  obtain ⟨rid, rfl, hfound⟩ := Option.bind_eq_some_iff.1 h
  exact Table.lookup_key hfound

/-- **The upsert, on the host entries.** -/
theorem turns_upsert_hosts (htidy : TidyUpsert t u target backend row) (h : u.check t.plane = .ok (target, backend, row)) (hnow : u.syncNow = true)
    (herror : (upsertServiceRecord answers t u).error = none) :
    Turns (WantsHost t) (WantsHost (upsertServiceRecord answers t u).tables) ((upsertServiceRecord answers t u).writes.filterMap Write.onHosts) := by
  obtain ⟨htables, hwrites⟩ := upsert_returns h hnow htidy.normal herror
  have hafter := wantsHost_commit h
  have hstays : ¬ (u.managedOnPihole = true ∧ OwnName u target backend) → ∀ e, WantsHost t e ↔ WantsHost (t.commit u target backend row) e := by
    intro hnot e
    have hnone : ¬ RowHost t (committedRow u target backend (t.rowId row)) e := by
      rintro ⟨⟨hmanaged, htype⟩, -⟩
      refine hnot ⟨hmanaged, ?_⟩
      by_contra hown
      rw [(committed_cname hown _).1] at htype
      cases htype
    rw [wantsHost_before row, hafter, or_iff_right hnone, or_iff_right_iff_imp]
    rintro ⟨r, hfound, hrow⟩
    rcases htidy.leaves r hfound e hrow with hleft | ⟨hmanaged, hown, -⟩
    · rwa [rowId_of_found hfound] at hleft
    · exact absurd ⟨hmanaged, hown⟩ hnot
  rw [htables]
  rcases hwrites with ⟨hmanaged, heq⟩ | ⟨hmanaged, hown, heq⟩ | ⟨hmanaged, hown, heq⟩ <;> rw [heq]
  · refine turns_nil (hstays fun hyes => ?_)
    rw [hmanaged] at hyes
    cases hyes.1
  · refine turns_add fun e => ?_
    have hnew : RowHost t (committedRow u target backend (t.rowId row)) e ↔ e = (hostIpForDns backend, normalizeFqdn u.fqdn) := by
      obtain ⟨-, b, hb, rfl⟩ := check_hosts h
      have haddress : t.addressOf (committedRow u target b.toServer (t.rowId row)) = some (hostIpForDns b.toServer) := congrArg (Option.map _) hb
      rw [RowHost, and_iff_right ⟨hmanaged, (committed_own hown _).1⟩, haddress, Option.some.injEq, eq_comm (a := hostIpForDns _)]
      exact (@Prod.ext_iff _ _ e (hostIpForDns b.toServer, normalizeFqdn u.fqdn)).symm
    rw [hafter, hnew, wantsHost_before row]
    constructor
    · rintro (heq | ⟨r, hfound, hrow⟩ | hleft)
      · exact .inl heq
      · rcases htidy.leaves r hfound e hrow with hleft | ⟨-, -, heq⟩
        · exact .inr (rowId_of_found hfound ▸ hleft)
        · exact .inl heq
      · exact .inr hleft
    · exact Or.imp_right .inr
  · have hnone : ((if Dropped t u target backend row then [Write.cname (.delete (oldEntry t (row.bind t.record)))] else []) ++
        [Write.cname (.add (normalizeFqdn u.fqdn, target.dnsName))]).filterMap Write.onHosts = [] := by
      split <;> rfl
    rw [hnone]
    exact turns_nil (hstays fun hyes => hown hyes.2)

/-- The entry of a CNAME is the one that is worked out from its row. -/
theorem entry_of_cname (hsound : t.Sound) {r : ServiceDnsRecord} (hr : r ∈ t.records.rows) {e : Str × Str} (hrow : RowCname t r e) :
    e = (normalizeFqdn r.fqdn, ((t.server r.targetServerId).map fun s => normalizeFqdn s.dnsName).getD []) ∧ e.1 ≠ [] ∧ e.2 ≠ [] ∧ r.targetServerId ≠ 0 := by
  obtain ⟨hcname, hname, htarget⟩ := hrow
  obtain ⟨hne, hnormal, hnames⟩ := hsound.named r hr hcname
  obtain ⟨hne', hnormal'⟩ := hnames _ htarget
  obtain ⟨g, hg, hgname⟩ := Option.map_eq_some_iff.1 htarget
  have hpositive : r.targetServerId ≠ 0 := by
    rw [← (Tables.server_mem hg).2]
    exact hsound.positive g (Tables.server_mem hg).1
  refine ⟨?_, hname ▸ hne, hne', hpositive⟩
  rw [hg, Option.map_some, Option.getD_some, hgname, hnormal', hnormal]
  exact Prod.ext hname rfl

theorem oldEntry_of_cname (hsound : t.Sound) {r : ServiceDnsRecord} (hfound : row.bind t.record = some r) {e : Str × Str} (hrow : RowCname t r e) :
    e = oldEntry t (row.bind t.record) ∧ e.1 ≠ [] ∧ e.2 ≠ [] := by
  obtain ⟨rid, -, hmem⟩ := Option.bind_eq_some_iff.1 hfound
  obtain ⟨heq, hname, htarget, hpositive⟩ := entry_of_cname hsound (Table.lookup_mem hmem) hrow
  refine ⟨?_, hname, htarget⟩
  rw [hfound, heq]
  exact (if_neg hpositive).symm

/-- **The upsert, on the CNAMEs.** -/
theorem turns_upsert_cnames (hsound : t.Sound) (htidy : TidyUpsert t u target backend row) (h : u.check t.plane = .ok (target, backend, row)) (hnow : u.syncNow = true)
    (herror : (upsertServiceRecord answers t u).error = none) :
    Turns (WantsCname t) (WantsCname (upsertServiceRecord answers t u).tables) ((upsertServiceRecord answers t u).writes.filterMap Write.onCnames) := by
  obtain ⟨htables, hwrites⟩ := upsert_returns h hnow htidy.normal herror
  have hafter := wantsCname_commit h
  have hstays : ¬ (u.managedOnPihole = true ∧ ¬ OwnName u target backend) → ∀ e, WantsCname t e ↔ WantsCname (t.commit u target backend row) e := by
    intro hnot e
    have hnone : ¬ RowCname t (committedRow u target backend (t.rowId row)) e := by
      rintro ⟨⟨hmanaged, htype⟩, -⟩
      refine hnot ⟨hmanaged, fun hown => ?_⟩
      rw [(committed_own hown _).1] at htype
      cases htype
    rw [wantsCname_before row, hafter, or_iff_right hnone, or_iff_right_iff_imp]
    rintro ⟨r, hfound, hrow⟩
    exact absurd (htidy.stays r hfound hrow.1) hnot
  rw [htables]
  rcases hwrites with ⟨hmanaged, heq⟩ | ⟨hmanaged, hown, heq⟩ | ⟨hmanaged, hown, heq⟩ <;> rw [heq]
  · refine turns_nil (hstays fun hyes => ?_)
    rw [hmanaged] at hyes
    cases hyes.1
  · exact turns_nil (hstays fun hyes => hyes.2 hown)
  · obtain ⟨O, hO⟩ : ∃ O, oldEntry t (row.bind t.record) = O := ⟨_, rfl⟩
    have hnew : ∀ e, RowCname t (committedRow u target backend (t.rowId row)) e ↔ e = (normalizeFqdn u.fqdn, target.dnsName) := by
      obtain ⟨⟨g, hg, rfl⟩, -⟩ := check_hosts h
      obtain ⟨htype, hid⟩ := committed_cname hown (t.rowId row)
      have htarget : t.targetName (committedRow u g.toServer backend (t.rowId row)) = some g.dnsName := by
        unfold Tables.targetName
        rw [hid, hg, Option.map_some]
      intro e
      rw [RowCname, and_iff_right ⟨hmanaged, htype⟩, htarget, Option.some.injEq, eq_comm (a := g.dnsName)]
      exact (@Prod.ext_iff _ _ e (normalizeFqdn u.fqdn, g.dnsName)).symm
    have hold : ∀ e, (∃ r, row.bind t.record = some r ∧ RowCname t r e) → e = O ∧ e.1 ≠ [] ∧ e.2 ≠ [] := fun e ⟨r, hfound, hrow⟩ =>
      hO ▸ oldEntry_of_cname hsound hfound hrow
    rw [hO]
    cases hdropped : Dropped t u target backend row with
    | true =>
      refine turns_replace fun e => ?_
      rw [hafter, hnew, wantsCname_before row]
      constructor
      · rintro (heq | ⟨hne, hwas | hother⟩)
        · exact .inl heq
        · exact absurd (hold e hwas).1 hne
        · exact .inr hother
      · rintro (heq | hother)
        · exact .inl heq
        · refine .inr ⟨?_, .inr hother⟩
          rintro rfl
          obtain ⟨r, hr, hid, hrow⟩ := hother
          exact htidy.drops r hr hid hdropped (hO.symm ▸ hrow)
    | false =>
      have hsame : ∀ e, e = O ∧ e.1 ≠ [] ∧ e.2 ≠ [] → e = (normalizeFqdn u.fqdn, target.dnsName) := by
        rintro e ⟨rfl, hne, hne'⟩
        have hown' : ¬ _ := fun hyes => hown (Bool.or_eq_true_iff.1 hyes)
        unfold Dropped at hdropped
        simp only [hO, Bool.eq_false_iff.2 hown', bne_iff_ne.2 hne, bne_iff_ne.2 hne', Bool.not_false, Bool.true_and, Bool.or_eq_false_iff,
          bne_eq_false_iff_eq, (htidy.normal hmanaged).2 hown] at hdropped
        exact Prod.ext hdropped.1 hdropped.2
      refine turns_add fun e => ?_
      rw [hafter, hnew, wantsCname_before row]
      constructor
      · rintro (heq | hwas | hother)
        · exact .inl heq
        · exact .inl (hsame e (hold e hwas))
        · exact .inr hother
      · exact Or.imp_right .inr

theorem Tables.Sound.commit (hsound : t.Sound) (h : u.check t.plane = .ok (target, backend, row)) (htidy : TidyUpsert t u target backend row) :
    (t.commit u target backend row).Sound where
  managed := hsound.managed
  positive := hsound.positive
  named r hr hrow := by
    rcases (mem_commit h).1 hr with rfl | ⟨-, hr⟩
    · obtain ⟨hmanaged, htype⟩ := hrow
      have hown : ¬ OwnName u target backend := fun hown => by
        rw [(committed_own hown _).1] at htype
        cases htype
      obtain ⟨hnormal, htarget⟩ := htidy.normal hmanaged
      obtain ⟨hname, htname⟩ := check_names h
      obtain ⟨⟨g, hg, rfl⟩, -⟩ := check_hosts h
      have hname' : normalizeFqdn u.fqdn ≠ [] := hnormal ▸ hname
      refine ⟨hname', hnormal, fun n hn => ?_⟩
      have htargetName : (t.commit u g.toServer backend row).targetName (committedRow u g.toServer backend (t.rowId row)) = some g.dnsName := by
        show (t.server (committedRow u g.toServer backend (t.rowId row)).targetServerId).map (fun s => s.dnsName) = _
        rw [(committed_cname hown _).2, hg, Option.map_some]
      obtain rfl := Option.some.inj (htargetName.symm.trans hn)
      exact ⟨fun hnil => htname ((htarget hown).trans hnil), htarget hown⟩
    · exact hsound.named r hr hrow

end upserts

/-! ## Tables after a link and a delete -/

section records
variable {t : Tables} {r : ServiceDnsRecord}

/-- A write of a record that leaves its entries alone. -/
theorem wants_writeRecord {f : ServiceDnsRecord → ServiceDnsRecord} {hf : ∀ r, (f r).id = r.id} (hr : t.record r.id = some r)
    (hhost : ∀ e, RowHost t r e ↔ RowHost t (f r) e) (hcname : ∀ e, RowCname t r e ↔ RowCname t (f r) e) :
    (∀ e, WantsHost t e ↔ WantsHost (t.writeRecord r.id f hf) e) ∧ ∀ e, WantsCname t e ↔ WantsCname (t.writeRecord r.id f hf) e := by
  have hrow : ∀ P : ServiceDnsRecord → Prop, (P r ↔ P (f r)) → ((∃ o ∈ t.records.rows, P o) ↔ ∃ o ∈ (t.writeRecord r.id f hf).records.rows, P o) := by
    intro P hP
    have hwritten : ∀ o, o ∈ (t.writeRecord r.id f hf).records.rows ↔ ∃ o' ∈ t.records.rows, o = if o'.id = r.id then f o' else o' :=
      fun o => Keyed.mem_modify hf
    have heach : ∀ o ∈ t.records.rows, (P o ↔ P (if o.id = r.id then f o else o)) := by
      intro o ho
      by_cases hid : o.id = r.id
      · rw [if_pos hid, t.records.eq_of_key ho (Table.lookup_mem hr) hid]
        exact hP
      · rw [if_neg hid]
    constructor
    · rintro ⟨o, ho, hold⟩
      exact ⟨_, (hwritten _).2 ⟨o, ho, rfl⟩, (heach o ho).1 hold⟩
    · rintro ⟨o, ho, hnew⟩
      obtain ⟨o', ho', rfl⟩ := (hwritten o).1 ho
      exact ⟨o', ho', (heach o' ho').2 hnew⟩
  exact ⟨fun e => or_congr_right (hrow (fun o => RowHost t o e) (hhost e)), fun e => hrow (fun o => RowCname t o e) (hcname e)⟩

/-- The columns a link writes. -/
theorem link_returns {project : Str} {direct : Bool} (herror : (linkServiceProject t r project direct).error = none) :
    ∃ (b : Server) (f : ServiceDnsRecord → ServiceDnsRecord) (hf : ∀ r, (f r).id = r.id), t.server r.backendServerId = some b ∧
      (linkServiceProject t r project direct).tables = t.writeRecord r.id f hf ∧ (f r).fqdn = r.fqdn ∧ (f r).managedOnPihole = r.managedOnPihole ∧
        (f r).backendServerId = r.backendServerId ∧ (f r).targetServerId = (if direct then b.id else r.targetServerId) ∧
          (f r).recordType = if direct && isHostIdentityName r.fqdn b.toServer then .a else r.recordType := by
  unfold linkServiceProject at herror ⊢
  dsimp only at herror ⊢
  split at herror
  · cases herror
  · rename_i hproject
    rw [if_neg hproject]
    split at herror
    · cases herror
    · rename_i hlength
      rw [if_neg hlength]
      cases hb : t.server r.backendServerId with
      | none =>
        rw [hb] at herror
        cases herror
      | some b =>
        refine ⟨b, _, _, rfl, rfl, ?_⟩
        cases direct with
        | true => exact ⟨rfl, rfl, rfl, rfl, rfl⟩
        | false => exact ⟨rfl, rfl, rfl, rfl, rfl⟩

/-- A link leaves what is wanted: a CNAME keeps its type and the name of its target. -/
theorem link_keeps {project : Str} {direct : Bool} (hsound : t.Sound) (hr : t.record r.id = some r) (htidy : Tidy t (.linkServiceProject r.id project direct))
    (herror : (linkServiceProject t r project direct).error = none) :
    (∀ e, WantsHost t e ↔ WantsHost (linkServiceProject t r project direct).tables e) ∧
      (∀ e, WantsCname t e ↔ WantsCname (linkServiceProject t r project direct).tables e) ∧ (linkServiceProject t r project direct).tables.Sound := by
  obtain ⟨b, f, hf, hb, htables, hfqdn, hmanaged, hbackend, htarget, htype⟩ := link_returns herror
  have hkept : r.managedOnPihole = true → (f r).recordType = r.recordType ∧ (CnameRow r → t.targetName (f r) = t.targetName r) := by
    intro hon
    rw [htype]
    unfold Tables.targetName
    rw [htarget]
    cases direct with
    | false => exact ⟨rfl, fun _ => rfl⟩
    | true =>
      cases hold : r.recordType with
      | a =>
        refine ⟨ite_self _, fun hcname => ?_⟩
        rw [hcname.2] at hold
        cases hold
      | cname =>
        obtain ⟨hname, hother⟩ := htidy r hr rfl ⟨hon, hold⟩ b hb
        refine ⟨by rw [hother]; rfl, fun _ => ?_⟩
        have hself : t.server b.id = some b := Tables.server_of_mem (Tables.server_mem hb).1
        rw [if_pos rfl, hself]
        exact hname.symm
  have hhost : HostRow (f r) ↔ HostRow r := by
    unfold HostRow
    rw [hmanaged]
    exact and_congr_right fun hon => by rw [(hkept hon).1]
  have hcname : CnameRow (f r) ↔ CnameRow r := by
    unfold CnameRow
    rw [hmanaged]
    exact and_congr_right fun hon => by rw [(hkept hon).1]
  have haddress : t.addressOf (f r) = t.addressOf r := by
    unfold Tables.addressOf
    rw [hbackend]
  obtain ⟨hhosts, hcnames⟩ := @wants_writeRecord t r f hf hr (fun e => by rw [RowHost, RowHost, hhost, haddress, hfqdn])
    fun e => by
      rw [RowCname, RowCname, hcname, hfqdn]
      exact and_congr_right fun hrow => by rw [(hkept hrow.1).2 hrow]
  rw [htables]
  refine ⟨hhosts, hcnames, hsound.managed, hsound.positive, fun o ho hrow => ?_⟩
  obtain ⟨o', ho', rfl⟩ := (Keyed.mem_modify hf).1 ho
  by_cases hid : o'.id = r.id
  · obtain rfl := t.records.eq_of_key ho' (Table.lookup_mem hr) hid
    rw [if_pos rfl] at hrow ⊢
    rw [hfqdn]
    obtain ⟨hne, hnormal, hnames⟩ := hsound.named o' ho' (hcname.1 hrow)
    exact ⟨hne, hnormal, fun n hn => hnames n (((hkept (hcname.1 hrow).1).2 (hcname.1 hrow)).symm.trans hn)⟩
  · rw [if_neg hid] at hrow ⊢
    exact hsound.named o' ho' hrow

theorem mem_dropRecord {id : Nat} {o : ServiceDnsRecord} : o ∈ (t.dropRecord id).records.rows ↔ o ∈ t.records.rows ∧ o.id ≠ id := by
  show o ∈ t.records.rows.filter (fun r => r.id != id) ↔ _
  rw [List.mem_filter, bne_iff_ne]

/-- **The delete**: a host's own entry stays wanted, and a CNAME's is the one that is worked out for it. -/
theorem turns_delete_record {remove : Bool} (hsound : t.Sound) (hr : t.record r.id = some r) (htidy : Tidy t (.deleteServiceRecord r.id remove)) :
    Turns (WantsHost t) (WantsHost (t.dropRecord r.id)) ((deleteServiceRecord t r remove).writes.filterMap Write.onHosts) ∧
      Turns (WantsCname t) (WantsCname (t.dropRecord r.id)) ((deleteServiceRecord t r remove).writes.filterMap Write.onCnames) := by
  obtain ⟨hcname, hhost, hdrops⟩ := htidy r hr
  have hfound : ∀ o, (some r.id).bind t.record = some o → o = r := fun o ho => Option.some.inj (ho.symm.trans hr)
  have hhosts : ∀ e, WantsHost t e ↔ WantsHost (t.dropRecord r.id) e := by
    intro e
    have hafter : WantsHost (t.dropRecord r.id) e ↔ WantedWithout t r.id e := by
      simp only [WantsHost, WantedWithout, mem_dropRecord, and_assoc]
      exact Iff.rfl
    rw [hafter, wantsHost_before (some r.id), show t.rowId (some r.id) = r.id from rfl, or_iff_right_iff_imp]
    rintro ⟨o, ho, hrow⟩
    obtain rfl := hfound o ho
    exact hhost e hrow
  have hcnames : ∀ e, WantsCname (t.dropRecord r.id) e ↔ ElseCname t r.id e := by
    intro e
    simp only [WantsCname, ElseCname, mem_dropRecord, and_assoc]
    exact Iff.rfl
  have hbefore : ∀ e, WantsCname t e ↔ RowCname t r e ∨ ElseCname t r.id e := by
    intro e
    rw [wantsCname_before (some r.id), show t.rowId (some r.id) = r.id from rfl]
    exact or_congr_left ⟨fun ⟨o, ho, hrow⟩ => hfound o ho ▸ hrow, fun hrow => ⟨r, hr, hrow⟩⟩
  have hentry := fun e => @entry_of_cname t hsound r (Table.lookup_mem hr) e
  obtain ⟨tname, htname⟩ : ∃ tname, ((t.server r.targetServerId).map fun s => normalizeFqdn s.dnsName).getD [] = tname := ⟨_, rfl⟩
  simp only [htname] at hentry
  unfold deleteServiceRecord
  simp only [htname]
  split
  · rename_i hsent
    simp only [Bool.and_eq_true, bne_iff_ne] at hsent
    refine ⟨turns_nil hhosts, turns_delete fun e => ?_⟩
    rw [hbefore, hcnames]
    constructor
    · rintro ⟨hne, hrow | hother⟩
      · exact absurd (hentry e hrow).1 hne
      · exact hother
    · intro hother
      refine ⟨?_, .inr hother⟩
      rintro rfl
      obtain ⟨o, ho, hid, hrow⟩ := hother
      refine hdrops o ho hid _ hrow rfl ?_
      cases htarget : t.server r.targetServerId with
      | none =>
        rw [htarget] at htname
        exact absurd htname.symm hsent.2
      | some g =>
        rw [htarget] at htname
        exact congrArg some htname
  · rename_i hsent
    refine ⟨turns_nil hhosts, turns_nil fun e => ?_⟩
    rw [hbefore, hcnames, or_iff_right_iff_imp]
    intro hrow
    obtain ⟨heq, hname, htarget, -⟩ := hentry e hrow
    obtain ⟨hremove, hdeleted⟩ := hcname hrow.1
    unfold DeletedAsCname at hdeleted
    rw [heq] at hname htarget
    refine absurd ?_ hsent
    simp only [hremove, bne_iff_ne.2 hname, bne_iff_ne.2 htarget, hrow.1.2, hdeleted, reduceCtorEq, decide_false, Bool.or_self, Bool.not_false, Bool.and_self]

end records

/-! ## Runs -/

section runs
variable {t : Tables} {answers : Bool}

/-- A save that returns. -/
theorem update_returns {u : HostUpdate} (herror : (updateServerDns answers t u).error = none) :
    ∃ s, t.server s.key = some s ∧ s.key = u.serverId ∧ (hostEdits answers u.syncNow s (u.write s)).1 = none ∧
      (updateServerDns answers t u).tables = t.writeServer s.key u.write (fun _ => rfl) ∧
        (updateServerDns answers t u).writes = (hostEdits answers u.syncNow s (u.write s)).2 := by
  unfold updateServerDns at herror ⊢
  cases hs : t.server u.serverId with
  | none =>
    rw [hs] at herror
    cases herror
  | some s =>
    cases hcheck : u.check t with
    | some message =>
      simp only [hs, hcheck] at herror
      cases herror
    | none =>
      simp only [hs, hcheck] at herror
      have hkey := (Tables.server_mem hs).2
      exact ⟨s, hkey ▸ hs, hkey, herror, by rw [hkey], rfl⟩

theorem upsert_checked {u : Upsert} (herror : (upsertServiceRecord answers t u).error = none) :
    ∃ target backend row, u.check t.plane = .ok (target, backend, row) := by
  cases hcheck : u.check t.plane with
  | error message =>
    rw [upsert_error hcheck] at herror
    cases herror
  | ok found => exact ⟨found.1, found.2.1, found.2.2, rfl⟩

/-- **One call**: a tidy one that returns leaves the Pi-holes as the tables are. -/
theorem Fabric.Follows.keeps {w : Fabric} {e : DnsCall} (h : w.Follows) (hsound : w.tables.Sound) (hreturns : w.Returns e) (htidy : Tidy w.tables e) :
    (w.step e).Follows ∧ (w.step e).tables.Sound := by
  obtain ⟨herror, hnow⟩ := hreturns
  obtain ⟨answers, hanswers⟩ : ∃ answers, (!w.piholes.isEmpty) = answers := ⟨_, rfl⟩
  have hcall : w.call e = e.run answers w.tables := by rw [← hanswers]; rfl
  have htables : (w.step e).tables = (w.call e).tables := rfl
  rw [htables]
  suffices hturns : (Turns (WantsHost w.tables) (WantsHost (w.call e).tables) ((w.call e).writes.filterMap Write.onHosts) ∧
      Turns (WantsCname w.tables) (WantsCname (w.call e).tables) ((w.call e).writes.filterMap Write.onCnames)) ∧ (w.call e).tables.Sound from
    ⟨h.step hturns.1.1 hturns.1.2, hturns.2⟩
  rw [hcall] at herror ⊢
  cases e with
  | updateServerDns u =>
    simp only [DnsCall.run] at herror ⊢
    obtain ⟨s, hs, hkey, hsaved, htables, hwrites⟩ := update_returns herror
    have hsave := htidy s (hkey ▸ hs)
    have hmanage : (u.write s).dnsManageA = true → (u.write s).dnsName ≠ [] := fun hon => bne_iff_ne.1 (Bool.and_eq_true _ _ ▸ hon).2
    have hcnames : (hostEdits answers u.syncNow s (u.write s)).2.filterMap Write.onCnames = [] := by
      refine List.filterMap_eq_nil_iff.2 fun x hx => ?_
      obtain ⟨e, rfl⟩ := hostEdits_hosts hmanage x hx
      rfl
    rw [htables, hwrites, hcnames]
    exact ⟨⟨turns_save hsound hsave hs hmanage hsaved, turns_nil (wantsCname_writeServer hsave hs)⟩,
      hsound.writeServer hsave hs fun hon => ⟨hmanage hon, hostEdits_address hmanage hsaved hon⟩⟩
  | upsertServiceRecord u =>
    simp only [DnsCall.run] at herror ⊢
    obtain ⟨target, backend, row, hcheck⟩ := upsert_checked herror
    have hupsert := htidy target backend row hcheck
    refine ⟨⟨turns_upsert_hosts hupsert hcheck hnow herror, turns_upsert_cnames hsound hupsert hcheck hnow herror⟩, ?_⟩
    rw [(upsert_returns hcheck hnow hupsert.normal herror).1]
    exact hsound.commit hcheck hupsert
  | linkServiceProject id project direct =>
    simp only [DnsCall.run] at herror ⊢
    cases hr : w.tables.record id with
    | none =>
      rw [hr] at herror
      cases herror
    | some r =>
      rw [hr, Option.elim_some] at herror
      obtain rfl : r.id = id := Table.lookup_key hr
      rw [Option.elim_some, linkServiceProject_writes]
      obtain ⟨hhosts, hcnames, hkept⟩ := link_keeps hsound hr htidy herror
      exact ⟨⟨turns_nil hhosts, turns_nil hcnames⟩, hkept⟩
  | syncServiceDns id => exact hnow.elim
  | deleteServiceRecord id remove =>
    simp only [DnsCall.run] at herror ⊢
    cases hr : w.tables.record id with
    | none =>
      rw [hr] at herror
      cases herror
    | some r =>
      obtain rfl : r.id = id := Table.lookup_key hr
      rw [Option.elim_some]
      refine ⟨turns_delete_record hsound hr htidy, hsound.managed, hsound.positive, fun o ho hrow => ?_⟩
      exact hsound.named o (mem_dropRecord.1 ho).1 hrow

theorem Fabric.Blank.follows {w : Fabric} (h : w.Blank) : w.Follows ∧ w.tables.Sound := by
  have hrecord : ∀ r, r ∉ w.tables.records.rows := fun r hr => by rw [h.records] at hr; cases hr
  have hserver : ∀ s ∈ w.tables.servers.rows, s.dnsManageA ≠ true := fun s hs hon => by
    rw [(h.servers s hs).1] at hon
    cases hon
  refine ⟨fun z hz => ?_, fun s hs hon => absurd hon (hserver s hs), fun s hs => (h.servers s hs).2, fun r hr => absurd hr (hrecord r)⟩
  rw [h.piholes z hz]
  constructor
  · refine fun e => iff_of_false List.not_mem_nil ?_
    rintro (⟨s, hs, hentry⟩ | ⟨r, hr, -⟩)
    · exact hserver s hs hentry.1
    · exact hrecord r hr
  · exact fun e => iff_of_false List.not_mem_nil fun ⟨r, hr, _⟩ => hrecord r hr

end runs

/-- **The Pi-holes follow the fabric**, after each call of every run from the blank tables whose calls return and are tidy. -/
theorem piholes_follow {w : Fabric} (hblank : w.Blank) {es : List DnsCall}
    (h : Guarded Fabric.step (fun w e => w.Returns e ∧ Tidy w.tables e) w es) (pre post : List DnsCall) (heq : es = pre ++ post) :
    (runs Fabric.step w pre).Follows := by
  obtain ⟨hfollows, hsound⟩ := hblank.follows
  refine (@runs_invariant _ _ Fabric.step (fun w e => w.Returns e ∧ Tidy w.tables e) (fun w => w.Follows ∧ w.tables.Sound) ?_ pre w
    ⟨hfollows, hsound⟩ (heq ▸ h).of_append).1
  rintro w e ⟨hfollows, hsound⟩ ⟨hreturns, htidy⟩
  exact hfollows.keeps hsound hreturns htidy

instance (r : ServiceDnsRecord) : Decidable (CnameRow r) := inferInstanceAs (Decidable (_ ∧ _))

instance (t : Tables) (r : ServiceDnsRecord) (e : Str × Str) : Decidable (RowCname t r e) := inferInstanceAs (Decidable (_ ∧ _ ∧ _))

instance (t : Tables) (e : Str × Str) : Decidable (WantsCname t e) := inferInstanceAs (Decidable (∃ r ∈ t.records.rows, RowCname t r e))

/-- Three hosts with their names, and a Pi-hole. -/
def blankFabric : Fabric := ⟨threeHosts, [⟨[], []⟩]⟩

theorem blankFabric_blank : blankFabric.Blank := ⟨rfl, by decide, by decide⟩

/-- A service behind the first host. -/
def wikiRecord : Upsert := pathRecord (lit "wiki.lan") 1 2 true true

def edgeUpdate (name : Str) (manage : Bool) : HostUpdate where
  serverId := 1
  dnsName := name
  dnsManageA := manage
  dnsIpOverride := []
  syncNow := false

/-- The first host is managed, and a service is put behind it. -/
def managedThenServed : List DnsCall := [.updateServerDns (edgeUpdate (lit "edge.lan") true), .upsertServiceRecord wikiRecord]

theorem piholes_follow_served : (runs Fabric.step blankFabric managedThenServed).Follows := by
  refine @piholes_follow blankFabric blankFabric_blank managedThenServed ⟨⟨⟨by decide, trivial⟩, ?_⟩, ⟨⟨by decide, rfl⟩, ?_⟩, trivial⟩ managedThenServed []
    (List.append_nil _).symm
  · intro s hs
    obtain rfl : s = { id := 1, name := lit "edge", dnsName := lit "edge.lan", ipAddress := lit "10.0.0.1" } := Option.some.inj (hs.symm.trans (by decide))
    exact ⟨fun _ => by decide, .inl (by decide), .inl (by decide), fun e h => absurd h.1 Bool.false_ne_true, fun _ h => absurd h (by decide)⟩
  · intro target backend row h
    have hchecked : wikiRecord.check (runs Fabric.step blankFabric [.updateServerDns (edgeUpdate (lit "edge.lan") true)]).tables.plane =
        .ok ({ id := 1, name := lit "edge", dnsName := lit "edge.lan", ipAddress := lit "10.0.0.1" },
          { id := 2, name := lit "app", dnsName := lit "app.lan", ipAddress := lit "10.0.0.2" }, none) := rfl
    cases h.symm.trans hchecked
    exact ⟨fun _ => ⟨by decide, fun _ => by decide⟩, fun r h => (nomatch h), fun r h => (nomatch h), fun r hr => (nomatch hr)⟩

/-- A service is put behind the first host, and the host is renamed. -/
def servedThenRenamed : List DnsCall := [.upsertServiceRecord wikiRecord, .updateServerDns (edgeUpdate (lit "gw.lan") false)]

/-- A renamed host leaves the CNAME to its old name. -/
theorem rename_leaves_cname : blankFabric.Blank ∧ Guarded Fabric.step Fabric.Returns blankFabric servedThenRenamed ∧
    ¬ (runs Fabric.step blankFabric servedThenRenamed).Follows := by
  refine ⟨blankFabric_blank, ⟨⟨by decide, rfl⟩, ⟨by decide, trivial⟩, trivial⟩, fun h => ?_⟩
  have hfollows := h _ (List.mem_singleton_self _)
  have hwanted := (hfollows.2 (lit "wiki.lan", lit "edge.lan")).1 (by decide)
  exact absurd hwanted (by decide)

end PiHerder.Dns
