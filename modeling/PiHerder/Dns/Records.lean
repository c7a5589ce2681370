import PiHerder.Lib.Mirror
import PiHerder.Lib.Runs
import PiHerder.Migrate.Fabric

/-!
# The DNS fabric and its Pi-holes

Servers have a DNS name and an address, service records a name and two hosts; each call writes a row and sends its edits
to every enabled Pi-hole (`services/dns_fabric/core.py`). The rows and pure functions are those of `Migrate/State.lean`
and `Migrate/Fabric.lean`; a server has its `dns_manage_a` here.

| here | there |
| --- | --- |
| `HostUpdate`, `updateServerDns` | `update_server_dns` (1187–1278), `_assert_unique_dns_name` (1177–1184) |
| `syncHostA`, `removeHostA` | `sync_host_a`, `remove_host_a` (1281–1342) |
| `linkServiceProject` | `link_service_project` (1349–1404) |
| `upsertServiceRecord` | `upsert_service_record` (1423–1547), with the checks of `Upsert.check` |
| `syncServiceDns` | `sync_service_dns` (1550–1617) |
| `deleteServiceRecord` | `delete_service_record` (1625–1665) |
| `Pihole.take` | one round of `fanout_pihole_dns` (1006–1077) on a Pi-hole that takes every edit |

`answers` is whether some Pi-hole takes an entry that is added: the call raises otherwise, once the rows are committed.
-/
namespace PiHerder.Dns
open Lib Lib.Str Lib.Mirror
open Migrate (ServiceDnsRecord RecordType RecordTable Upsert Plane normalizeFqdn isHostIdentityName hostIpForDns isValidFqdn isValidIpv4)

/-! ## Tables and edits -/

structure Server extends Migrate.Server where
  dnsManageA : Bool := false
deriving DecidableEq, Repr

def Server.key (s : Server) : Nat := s.id

structure Tables where
  servers : Keyed Server Nat Server.key
  records : RecordTable

def Tables.server (t : Tables) (id : Nat) : Option Server := Table.lookup Server.key id t.servers.rows

def Tables.record (t : Tables) (id : Nat) : Option ServiceDnsRecord := Table.lookup ServiceDnsRecord.id id t.records.rows

/-- What the checks of an upsert read. -/
def Tables.plane (t : Tables) : Plane := { servers := t.servers.rows.map Server.toServer, records := t.records }

/-- A host entry is an address and a name, a CNAME entry a name and its target. -/
inductive Write
  | host (e : Edit (Str × Str))
  | cname (e : Edit (Str × Str))
deriving DecidableEq, Repr

structure Pihole where
  hosts : List (Str × Str)
  cnames : List (Str × Str)
deriving DecidableEq, Repr

def Pihole.take (z : Pihole) : Write → Pihole
  | .host e => { z with hosts := edit z.hosts e }
  | .cname e => { z with cnames := edit z.cnames e }

/-- What a call does: the error it raises, the rows it commits, the edits it sends. -/
structure Call where
  error : Option Str
  tables : Tables
  writes : List Write

/-! ## The calls -/

structure HostUpdate where
  serverId : Nat
  dnsName : Str
  dnsManageA : Bool
  dnsIpOverride : Str
  syncNow : Bool

def HostUpdate.name (u : HostUpdate) : Str := normalizeFqdn u.dnsName

/-- The columns that are written. -/
def HostUpdate.write (u : HostUpdate) (s : Server) : Server :=
  { s with dnsName := u.name, dnsManageA := u.dnsManageA && u.name != [], dnsIpOverride := strip u.dnsIpOverride }

/-- The column is compared as it stands. -/
def HostUpdate.check (u : HostUpdate) (t : Tables) : Option Str :=
  if u.name ≠ [] ∧ ¬ isValidFqdn u.name then some (lit "Invalid DNS name: " ++ u.dnsName)
  else
    match (if u.name ≠ [] then t.servers.rows.find? fun row => row.dnsName = u.name && row.id != u.serverId else none) with
    | some row => some (lit "DNS name " ++ u.name ++ lit " already used by server " ++ row.name)
    | none =>
      if strip u.dnsIpOverride ≠ [] ∧ ¬ isValidIpv4 (strip u.dnsIpOverride) then some (lit "Invalid IP override: " ++ strip u.dnsIpOverride)
      else none

def Tables.writeServer (t : Tables) (id : Nat) (f : Server → Server) (hf : ∀ s, (f s).key = s.key) : Tables :=
  { t with servers := t.servers.modify id f hf }

def Tables.writeRecord (t : Tables) (id : Nat) (f : ServiceDnsRecord → ServiceDnsRecord) (hf : ∀ r, (f r).id = r.id) : Tables :=
  { t with records := t.records.modify id f hf }

def syncHostA (answers : Bool) (s : Server) : Option Str × List Write :=
  let name := normalizeFqdn s.dnsName
  let ip := hostIpForDns s.toServer
  if name = [] then (some (lit "Server has no DNS name"), [])
  else if ip = [] then (some (lit "No IP for A record — set IP address or DNS IP override"), [])
  else (if answers then none else some (lit "Pi-hole A sync failed"), [.host (.add (ip, name))])

def removeHostA (s : Server) (domain ip : Str) : List Write :=
  let name := normalizeFqdn (if domain ≠ [] then domain else s.dnsName)
  let addr := strip (if ip ≠ [] then ip else hostIpForDns s.toServer)
  if name = [] ∨ addr = [] then [] else [.host (.delete (addr, name))]

/-- The fields are saved already. -/
def savedWithoutIp : Str := lit "DNS name saved, but no IP for A record — set IP address and save again"

/-- What the save sends, from the row as it was to the row as it is. -/
def hostEdits (answers syncNow : Bool) (old new : Server) : Option Str × List Write :=
  let oldName := normalizeFqdn old.dnsName
  let oldIp := hostIpForDns old.toServer
  let ipNow := hostIpForDns new.toServer
  if !new.dnsManageA && old.dnsManageA && oldName != [] then (none, removeHostA new oldName oldIp)
  else if new.dnsName != [] && new.dnsManageA then
    if ipNow = [] then (some savedWithoutIp, [])
    else
      let moved := old.dnsManageA && oldName != [] && (oldName != new.dnsName || oldIp != ipNow) && oldIp != []
      let sync := syncHostA answers new
      (sync.1, (if moved then [.host (.delete (oldIp, oldName))] else []) ++ sync.2)
  else if new.dnsName != [] && syncNow then syncHostA answers new
  else (none, [])

def updateServerDns (answers : Bool) (t : Tables) (u : HostUpdate) : Call :=
  match t.server u.serverId with
  | none => ⟨some (lit "Server not found"), t, []⟩
  | some s =>
    match u.check t with
    | some message => ⟨some message, t, []⟩
    | none =>
      let sent := hostEdits answers u.syncNow s (u.write s)
      ⟨sent.1, t.writeServer u.serverId u.write fun _ => rfl, sent.2⟩

/-- The record type, or the name, makes it a host's own. -/
def isIdentity (r : ServiceDnsRecord) (target backend : Server) : Bool :=
  r.recordType = .a || isHostIdentityName (normalizeFqdn r.fqdn) backend.toServer || isHostIdentityName (normalizeFqdn r.fqdn) target.toServer

def syncServiceDns (answers : Bool) (t : Tables) (r : ServiceDnsRecord) : Call :=
  match t.server r.targetServerId with
  | none => ⟨some (lit "Target host missing DNS name"), t, []⟩
  | some target =>
    let backend := (t.server r.backendServerId).getD target
    let domain := normalizeFqdn r.fqdn
    let tname := normalizeFqdn target.dnsName
    let failed := if answers then none else some (lit "Pi-hole DNS sync failed")
    if tname = [] then ⟨some (lit "Target host missing DNS name"), t, []⟩
    else if isIdentity r target backend then
      let ip := hostIpForDns backend.toServer
      if ip = [] then ⟨some (lit "Host identity needs an IP for the A record"), t, []⟩
      else ⟨failed, t.writeRecord r.id (fun r => { r with recordType := .a, viaProxy := false }) fun _ => rfl, [.host (.add (ip, domain))]⟩
    else ⟨failed, t.writeRecord r.id (fun r => { r with recordType := .cname }) fun _ => rfl, [.cname (.add (domain, tname))]⟩

/-- The name and target a row had before it is written. -/
def oldEntry (t : Tables) (old : Option ServiceDnsRecord) : Str × Str :=
  match old with
  | some r => if r.targetServerId = 0 then ([], []) else (normalizeFqdn r.fqdn, ((t.server r.targetServerId).map fun s => normalizeFqdn s.dnsName).getD [])
  | none => ([], [])

/-- The row an upsert is about: the one found, or the next one. -/
def Tables.rowId (t : Tables) (row : Option Nat) : Nat := row.getD (freshId (t.records.rows.map ServiceDnsRecord.id))

def Tables.commit (t : Tables) (u : Upsert) (target backend : Migrate.Server) (row : Option Nat) : Tables :=
  { t with records := (u.commit target backend row t.plane).records }

def upsertServiceRecord (answers : Bool) (t : Tables) (u : Upsert) : Call :=
  match u.check t.plane with
  | .error message => ⟨some message, t, []⟩
  | .ok (target, backend, row) =>
    let name := normalizeFqdn u.fqdn
    let old := oldEntry t (row.bind t.record)
    let hostIdentity := isHostIdentityName name backend || isHostIdentityName name target
    let t' := t.commit u target backend row
    if u.syncNow && u.managedOnPihole then
      match t'.record (t.rowId row) with
      | none => ⟨none, t', []⟩
      | some r =>
        let sync := syncServiceDns answers t' r
        let moved := !hostIdentity && old.1 != [] && old.2 != [] && (old.1 != name || old.2 != normalizeFqdn target.dnsName)
        { sync with writes := (if moved then [.cname (.delete old)] else []) ++ sync.writes }
    else ⟨none, t', []⟩

def linkServiceProject (t : Tables) (r : ServiceDnsRecord) (dockerProject : Str) (markDirect : Bool) : Call :=
  let proj := strip dockerProject
  if proj = [] then ⟨some (lit "Compose project is required"), t, []⟩
  else if proj.length > 200 then ⟨some (lit "Compose project name is too long"), t, []⟩
  else
    match t.server r.backendServerId with
    | none => ⟨some (lit "Backend host not found"), t, []⟩
    | some backend =>
      let linked := fun r : ServiceDnsRecord =>
        let r := { r with dockerProject := proj, label := if strip r.label = [] then proj else r.label }
        if markDirect then
          { r with viaProxy := false, npmHint := [], targetServerId := backend.id,
                   recordType := if isHostIdentityName r.fqdn backend.toServer then .a else r.recordType }
        else r
      ⟨none, t.writeRecord r.id linked fun r => by cases markDirect <;> rfl, []⟩

def Tables.dropRecord (t : Tables) (id : Nat) : Tables :=
  { t with records := ⟨t.records.rows.filter fun r => r.id != id, List.Nodup.sublist (List.filter_sublist.map _) t.records.nodup⟩ }

def deleteServiceRecord (t : Tables) (r : ServiceDnsRecord) (removeFromPihole : Bool) : Call :=
  let target := t.server r.targetServerId
  let backend := t.server r.backendServerId <|> target
  let tname := (target.map fun s => normalizeFqdn s.dnsName).getD []
  let domain := normalizeFqdn r.fqdn
  let hostIdentity := r.recordType = .a || backend.any fun s => isHostIdentityName domain s.toServer
  let sent := if removeFromPihole && domain != [] && !hostIdentity && tname != [] then [Write.cname (.delete (domain, tname))] else []
  ⟨none, t.dropRecord r.id, sent⟩

inductive DnsCall
  | updateServerDns (u : HostUpdate)
  | upsertServiceRecord (u : Upsert)
  | linkServiceProject (record : Nat) (dockerProject : Str) (markDirect : Bool)
  | syncServiceDns (record : Nat)
  | deleteServiceRecord (record : Nat) (removeFromPihole : Bool)

def Call.missing (t : Tables) : Call := ⟨some (lit "Record not found"), t, []⟩

def DnsCall.run (answers : Bool) (t : Tables) : DnsCall → Call
  | .updateServerDns u => Dns.updateServerDns answers t u
  | .upsertServiceRecord u => Dns.upsertServiceRecord answers t u
  | .linkServiceProject id project direct => (t.record id).elim (.missing t) fun r => Dns.linkServiceProject t r project direct
  | .syncServiceDns id => (t.record id).elim (.missing t) fun r => Dns.syncServiceDns answers t r
  | .deleteServiceRecord id remove => (t.record id).elim (.missing t) fun r => Dns.deleteServiceRecord t r remove

/-! ## What a save sends -/

section saves
variable {answers syncNow : Bool} {old new : Server}

/-- The entry the server had is gone or another one. -/
def Moved (old new : Server) : Prop :=
  old.dnsManageA = true ∧ normalizeFqdn old.dnsName ≠ [] ∧ hostIpForDns old.toServer ≠ [] ∧
    (normalizeFqdn old.dnsName ≠ new.dnsName ∨ hostIpForDns old.toServer ≠ hostIpForDns new.toServer)

instance (old new : Server) : Decidable (Moved old new) := by
  unfold Moved
  infer_instance

/-- **The saves**: one that drops the entry, one that manages it without an address or with one, one that pushes it
unmanaged, and one that sends nothing. -/
theorem hostEdits_cases (hmanage : new.dnsManageA = true → new.dnsName ≠ []) :
    (new.dnsManageA = false ∧ old.dnsManageA = true ∧ normalizeFqdn old.dnsName ≠ [] ∧
      hostEdits answers syncNow old new = (none, removeHostA new (normalizeFqdn old.dnsName) (hostIpForDns old.toServer))) ∨
    (new.dnsManageA = true ∧ hostIpForDns new.toServer = [] ∧ hostEdits answers syncNow old new = (some savedWithoutIp, [])) ∨
    (new.dnsManageA = true ∧ hostIpForDns new.toServer ≠ [] ∧ hostEdits answers syncNow old new = ((syncHostA answers new).1,
      (if Moved old new then [.host (.delete (hostIpForDns old.toServer, normalizeFqdn old.dnsName))] else []) ++ (syncHostA answers new).2)) ∨
    (new.dnsManageA = false ∧ ¬ (old.dnsManageA = true ∧ normalizeFqdn old.dnsName ≠ []) ∧ new.dnsName ≠ [] ∧ syncNow = true ∧
      hostEdits answers syncNow old new = syncHostA answers new) ∨
    (new.dnsManageA = false ∧ ¬ (old.dnsManageA = true ∧ normalizeFqdn old.dnsName ≠ []) ∧ ¬ (new.dnsName ≠ [] ∧ syncNow = true) ∧
      hostEdits answers syncNow old new = (none, [])) := by
  unfold hostEdits
  cases hnew : new.dnsManageA with
  | true =>
    have hname : (new.dnsName != []) = true := bne_iff_ne.2 (hmanage hnew)
    simp only [hname, Bool.not_true, Bool.false_and, Bool.false_eq_true, if_false, Bool.and_true, if_true]
    by_cases hip : hostIpForDns new.toServer = []
    · exact .inr (.inl ⟨trivial, hip, if_pos hip⟩)
    · refine .inr (.inr (.inl ⟨trivial, hip, ?_⟩))
      rw [if_neg hip]
      have hmoved : (old.dnsManageA && normalizeFqdn old.dnsName != [] && (normalizeFqdn old.dnsName != new.dnsName ||
          hostIpForDns old.toServer != hostIpForDns new.toServer) && hostIpForDns old.toServer != []) = decide (Moved old new) := by
        rw [Bool.eq_iff_iff, decide_eq_true_eq]
        simp only [Bool.and_eq_true, Bool.or_eq_true, bne_iff_ne, Moved]
        exact ⟨fun ⟨⟨⟨a, b⟩, d⟩, c⟩ => ⟨a, b, c, d⟩, fun ⟨a, b, c, d⟩ => ⟨⟨⟨a, b⟩, d⟩, c⟩⟩
      rw [hmoved]
      simp only [decide_eq_true_eq]
  | false =>
    simp only [Bool.not_false, Bool.true_and, Bool.and_false, Bool.false_eq_true, if_false]
    by_cases hdrop : (old.dnsManageA && normalizeFqdn old.dnsName != []) = true
    · have hboth := hdrop
      rw [Bool.and_eq_true, bne_iff_ne] at hboth
      exact .inl ⟨trivial, hboth.1, hboth.2, if_pos hdrop⟩
    · have hboth := hdrop
      rw [Bool.and_eq_true, bne_iff_ne] at hboth
      rw [if_neg hdrop]
      by_cases hnow : (new.dnsName != [] && syncNow) = true
      · have hpush := hnow
        rw [Bool.and_eq_true, bne_iff_ne] at hpush
        exact .inr (.inr (.inr (.inl ⟨trivial, hboth, hpush.1, hpush.2, if_pos hnow⟩)))
      · have hpush := hnow
        rw [Bool.and_eq_true, bne_iff_ne] at hpush
        exact .inr (.inr (.inr (.inr ⟨trivial, hboth, hpush, if_neg hnow⟩)))

theorem removeHostA_deletes {s : Server} {domain ip : Str} : ∀ x ∈ removeHostA s domain ip, ∃ e, x = .host (.delete e) := by
  obtain ⟨name, hname⟩ : ∃ name, normalizeFqdn (if domain ≠ [] then domain else s.dnsName) = name := ⟨_, rfl⟩
  obtain ⟨addr, haddr⟩ : ∃ addr, strip (if ip ≠ [] then ip else hostIpForDns s.toServer) = addr := ⟨_, rfl⟩
  unfold removeHostA
  simp only [hname, haddr]
  by_cases hnone : name = [] ∨ addr = []
  · rw [if_pos hnone]
    exact fun _ h => nomatch h
  · rw [if_neg hnone]
    exact fun x h => ⟨_, List.mem_singleton.1 h⟩

theorem hostEdits_hosts (hmanage : new.dnsManageA = true → new.dnsName ≠ []) :
    ∀ x ∈ (hostEdits answers syncNow old new).2, ∃ e, x = .host e := by
  have hsync : ∀ x ∈ (syncHostA answers new).2, ∃ e, x = .host e := by
    unfold syncHostA
    dsimp only
    split
    · exact fun _ h => nomatch h
    · split
      · exact fun _ h => nomatch h
      · exact fun x h => ⟨_, List.mem_singleton.1 h⟩
  rcases @hostEdits_cases answers syncNow old new hmanage with ⟨-, -, -, heq⟩ | ⟨-, -, heq⟩ | ⟨-, -, heq⟩ | ⟨-, -, -, -, heq⟩ | ⟨-, -, -, heq⟩ <;> rw [heq]
  · intro x h
    dsimp only at h
    obtain ⟨e, rfl⟩ := removeHostA_deletes x h
    exact ⟨_, rfl⟩
  · exact fun _ h => nomatch h
  · intro x h
    rcases List.mem_append.1 h with h | h
    · split at h
      · exact ⟨_, List.mem_singleton.1 h⟩
      · cases h
    · exact hsync x h
  · exact hsync
  · exact fun _ h => nomatch h

end saves

/-! ## What an upsert commits -/

section upserts
variable {t : Tables} {answers : Bool} {u : Upsert} {target backend : Migrate.Server} {row : Option Nat}

/-- The row of an upsert, but for its id. -/
def upsertRow (u : Upsert) (target backend : Migrate.Server) : ServiceDnsRecord :=
  u.write target backend { id := 0, fqdn := [], targetServerId := 0, backendServerId := 0 }

def committedRow (u : Upsert) (target backend : Migrate.Server) (id : Nat) : ServiceDnsRecord := { upsertRow u target backend with id := id }

/-- The row an upsert is about is there. -/
theorem check_row {w : Plane} {rid : Nat} (h : u.check w = .ok (target, backend, some rid)) : ∃ r ∈ w.records.rows, r.id = rid := by
  unfold Upsert.check at h
  simp only at h
  split at h
  · cases h
  · split at h
    · split at h
      · cases h
      · split at h
        · split at h
          · cases h
          · split at h
            · rename_i hany
              obtain ⟨r, hr, hid⟩ := List.any_eq_true.1 hany
              cases h
              exact ⟨r, hr, of_decide_eq_true hid⟩
            · cases h
        · obtain ⟨r, hfound, hid⟩ := Option.map_eq_some_iff.1 (Prod.mk.inj (Prod.mk.inj (Except.ok.inj h)).2).2
          exact ⟨r, List.mem_of_find?_eq_some hfound, hid⟩
    · cases h

theorem Tables.server_mem {id : Nat} {s : Server} (h : t.server id = some s) : s ∈ t.servers.rows ∧ s.key = id :=
  ⟨Table.lookup_mem h, Table.lookup_key h⟩

theorem Tables.server_of_mem {s : Server} (h : s ∈ t.servers.rows) : t.server s.key = some s := by
  unfold Tables.server
  cases hfound : Table.lookup Server.key s.key t.servers.rows with
  | none => exact absurd (List.find?_eq_none.1 hfound s h) (by simp)
  | some s' => rw [t.servers.eq_of_key (Table.lookup_mem hfound) h (Table.lookup_key hfound)]

theorem Tables.record_of_mem {r : ServiceDnsRecord} (h : r ∈ t.records.rows) : t.record r.id = some r := by
  unfold Tables.record
  cases hfound : Table.lookup ServiceDnsRecord.id r.id t.records.rows with
  | none => exact absurd (List.find?_eq_none.1 hfound r h) (by simp)
  | some r' => rw [t.records.eq_of_key (Table.lookup_mem hfound) h (Table.lookup_key hfound)]

/-- The rows after an upsert: its own, and the others. -/
theorem mem_commit (h : u.check t.plane = .ok (target, backend, row)) {r : ServiceDnsRecord} :
    r ∈ (t.commit u target backend row).records.rows ↔ r = committedRow u target backend (t.rowId row) ∨ r.id ≠ t.rowId row ∧ r ∈ t.records.rows := by
  cases row with
  | some rid =>
    obtain ⟨old, hold, rfl⟩ := check_row h
    have hmem := @Keyed.mem_modify _ _ _ _ t.records old.id (u.write target backend) (fun _ => rfl) r
    refine hmem.trans ?_
    constructor
    · rintro ⟨r, hr, rfl⟩
      by_cases hid : r.id = old.id
      · rw [if_pos hid]
        exact .inl (by rw [t.records.eq_of_key hr hold hid]; rfl)
      · rw [if_neg hid]
        exact .inr ⟨hid, hr⟩
    · rintro (rfl | ⟨hid, hr⟩)
      · exact ⟨old, hold, (if_pos rfl).symm⟩
      · exact ⟨r, hr, (if_neg hid).symm⟩
  | none =>
    rw [show r ∈ (t.commit u target backend none).records.rows ↔ _ from List.mem_append, List.mem_singleton, or_comm]
    refine or_congr Iff.rfl ⟨fun hr => ⟨fun hid => ?_, hr⟩, fun hr => hr.2⟩
    exact freshId_not_mem (t.records.rows.map ServiceDnsRecord.id) (List.mem_map.2 ⟨r, hr, hid⟩)

theorem upsert_error {message : Str} (h : u.check t.plane = .error message) : upsertServiceRecord answers t u = ⟨some message, t, []⟩ := by
  unfold upsertServiceRecord
  rw [h]

/-- The old CNAME entry is dropped where the row is one again, under another name or for another target. -/
def Dropped (t : Tables) (u : Upsert) (target backend : Migrate.Server) (row : Option Nat) : Bool :=
  let name := normalizeFqdn u.fqdn
  let old := oldEntry t (row.bind t.record)
  !(isHostIdentityName name backend || isHostIdentityName name target) && old.1 != [] && old.2 != [] &&
    (old.1 != name || old.2 != normalizeFqdn target.dnsName)

theorem upsert_ok (h : u.check t.plane = .ok (target, backend, row)) : upsertServiceRecord answers t u =
    if u.syncNow && u.managedOnPihole then
      let sync := syncServiceDns answers (t.commit u target backend row) (committedRow u target backend (t.rowId row))
      { sync with writes := (if Dropped t u target backend row then [.cname (.delete (oldEntry t (row.bind t.record)))] else []) ++ sync.writes }
    else ⟨none, t.commit u target backend row, []⟩ := by
  have hrow : (t.commit u target backend row).record (t.rowId row) = some (committedRow u target backend (t.rowId row)) :=
    Tables.record_of_mem ((mem_commit h).2 (.inl rfl))
  unfold upsertServiceRecord
  rw [h]
  simp only [hrow]
  rfl

end upserts

theorem linkServiceProject_writes {t : Tables} {r : ServiceDnsRecord} {project : Str} {direct : Bool} :
    (linkServiceProject t r project direct).writes = [] := by
  unfold linkServiceProject
  simp only
  split
  · rfl
  · split
    · rfl
    · split <;> rfl

/-! ## A small fabric -/

/-- Three hosts with their names. -/
def threeHosts : Tables where
  servers := ⟨[{ id := 1, name := lit "edge", dnsName := lit "edge.lan", ipAddress := lit "10.0.0.1" },
    { id := 2, name := lit "app", dnsName := lit "app.lan", ipAddress := lit "10.0.0.2" },
    { id := 3, name := lit "nas", dnsName := lit "nas.lan", ipAddress := lit "10.0.0.3" }], by decide⟩
  records := ⟨[], List.nodup_nil⟩

def pathRecord (fqdn : Str) (target backend : Nat) (managed syncNow : Bool) : Upsert where
  fqdn := fqdn
  targetServerId := target
  backendServerId := backend
  dockerProject := []
  label := []
  managedOnPihole := managed
  viaProxy := target != backend
  npmHint := []
  certificateId := none
  externalDnsStatus := []
  notes := []
  syncNow := syncNow

end PiHerder.Dns
