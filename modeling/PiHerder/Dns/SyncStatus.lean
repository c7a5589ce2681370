import Mathlib
import PiHerder.Dns.Follow

/-!
# The sync status of a service record

The calls that store a `last_sync_status`, with what each enabled Pi-hole answers (`services/dns_fabric/core.py`).

| here | there |
| --- | --- |
| `isAlreadyPresentError` | `_is_already_present_error` (989–1003) |
| `PiholeIntegration.ask`, `World.fanoutPiholeDns` | `fanout_pihole_dns` (1006–1077), on all of them |
| `summarizeResults` | `_summarize_results` (1161–1174) |
| `World.deliver`, `World.syncServiceDns`, `World.upsertServiceRecord` | what `sync_service_dns` (1550–1617) and `upsert_service_record` (1423–1547) do once the rows are written, which is `Dns.syncServiceDns` and `Dns.upsertServiceRecord` |
| `World.listPiholeCnames` | `list_pihole_cnames` (533–571) |
| `planFromPiholeCname`, `Plan.upsert` | `plan_from_pihole_cname` (594–682), `attach_service_dns_from_plan` (889–924) |
| `World.importPiholeCnames` | `import_pihole_cnames` (835–886) |

A Pi-hole that has a CNAME for a name adds no other for it, and none twice. One that fails takes nothing. Names are compared in their normal
form. What a plan says of a record besides its hosts (`Env.details`) comes from the rest of the database. Timestamps are left out.
-/
namespace PiHerder.Dns
open Lib Lib.Str Lib.Mirror
open Migrate (ServiceDnsRecord RecordType Upsert normalizeFqdn isHostIdentityName hostIpForDns isValidFqdn isValidIpv4)

/-! ## A Pi-hole -/

def sameName (a b : Str) : Bool := normalizeFqdn a == normalizeFqdn b

/-- What a Pi-hole is asked for: an address for a name, or a target. -/
inductive Entry
  | host (e : Str × Str)
  | cname (e : Str × Str)
deriving DecidableEq, Repr

def Entry.add : Entry → Write
  | .host e => .host (.add e)
  | .cname e => .cname (.add e)

def Entry.name : Entry → Str
  | .host e => e.2
  | .cname e => e.1

/-- The entry is there. -/
def Pihole.has (z : Pihole) : Entry → Bool
  | .host e => decide (e ∈ z.hosts)
  | .cname e => z.cnames.any fun c => sameName c.1 e.1 && sameName c.2 e.2

/-- The entry is not added: it is there, or the name has a target. -/
def Pihole.refuses (z : Pihole) : Entry → Bool
  | .host e => decide (e ∈ z.hosts)
  | .cname e => z.cnames.any fun c => sameName c.1 e.1

def duplicateHost : Str := lit "add host failed HTTP 400: Item already present"

def duplicateCname : Str := lit "add cname failed HTTP 400: duplicate CNAME"

def Pihole.answer (z : Pihole) : Write → Except Str Pihole
  | .host (.add e) => if z.refuses (.host e) then .error duplicateHost else .ok { z with hosts := z.hosts ++ [e] }
  | .host (.delete e) => .ok { z with hosts := z.hosts.erase e }
  | .cname (.add e) => if z.refuses (.cname e) then .error duplicateCname else .ok { z with cnames := z.cnames ++ [e] }
  | .cname (.delete e) => .ok { z with cnames := z.cnames.eraseP fun c => sameName c.1 e.1 && sameName c.2 e.2 }

/-! ## The fan-out -/

def isAlreadyPresentError (err : Str) : Bool :=
  [lit "duplicate", lit "already exist", lit "already exists", lit "already present", lit "item already present", lit "uniqueness of items",
    lit "dnsmasq: duplicate"].any fun s => hasInfix s (lower err)

structure PiholeIntegration where
  id : Nat
  name : Str
  enabled : Bool
  primary : Bool
  /-- What the instance behind it holds. -/
  zone : Pihole
deriving DecidableEq, Repr

/-- What an instance fails with when it does not take a request. -/
abbrev Faults : Type := Nat → Write → Option Str

structure FanoutResult where
  name : Str
  ok : Bool
  error : Str
  alreadyPresent : Bool
deriving DecidableEq, Repr

def Write.isAdd : Write → Bool
  | .host (.add _) | .cname (.add _) => true
  | _ => false

def PiholeIntegration.ask (faults : Faults) (x : Write) (i : PiholeIntegration) : PiholeIntegration × FanoutResult :=
  match (faults i.id x).elim (i.zone.answer x) Except.error with
  | .ok z => ({ i with zone := z }, ⟨i.name, true, [], false⟩)
  | .error e =>
    let err := e.take 200
    if x.isAdd && isAlreadyPresentError err then (i, ⟨i.name, true, [], true⟩) else (i, ⟨i.name, false, err, false⟩)

/-- The primary one comes first. -/
def inOrder (rows : List PiholeIntegration) : List PiholeIntegration :=
  rows.insertionSort fun a b => ((a.primary && !b.primary) || (a.primary == b.primary && decide (a.id ≤ b.id))) = true

def PiholeIntegration.after (faults : Faults) (x : Write) (i : PiholeIntegration) : PiholeIntegration :=
  if i.enabled then (i.ask faults x).1 else i

def fanoutPiholeDns (faults : Faults) (x : Write) (piholes : List PiholeIntegration) : List PiholeIntegration × List FanoutResult :=
  (piholes.map (PiholeIntegration.after faults x), (inOrder (piholes.filter (·.enabled))).map fun i => (i.ask faults x).2)

def summarizeResults (results : List FanoutResult) : Str × Str :=
  if results = [] then (lit "error", lit "No enabled Pi-hole instances")
  else
    let ok := results.countP (·.ok)
    let detail := (lit "; ").intercalate
      (results.map fun r => r.name ++ lit ":" ++ if r.ok then lit "ok" else if r.error ≠ [] then r.error else lit "fail")
    if ok = results.length then (lit "ok", detail) else if ok = 0 then (lit "error", detail) else (lit "partial", detail)

/-! ## The calls -/

structure World where
  tables : Tables
  piholes : List PiholeIntegration
  /-- `last_sync_status` and `last_sync_detail`. -/
  synced : Nat → Option (Str × Str)

/-- The edits of a call are sent, and the last answers stored with the record. -/
def World.deliver (w : World) (faults : Faults) (id : Nat) (call : Call) : Option Str × World :=
  let w := { w with tables := call.tables }
  if call.error ≠ none ∨ call.writes = [] then (call.error, w)
  else
    let sent := call.writes.foldl (fun sent x => fanoutPiholeDns faults x sent.1) (w.piholes, [])
    let status := summarizeResults sent.2
    (if status.1 = lit "error" then some (lit "Pi-hole DNS sync failed: " ++ status.2) else none,
      { w with piholes := sent.1, synced := Function.update w.synced id (some (status.1, status.2.take 2000)) })

def World.syncServiceDns (w : World) (faults : Faults) (r : ServiceDnsRecord) : Option Str × World :=
  w.deliver faults r.id (Dns.syncServiceDns true w.tables r)

/-- The record an upsert is about. -/
def World.upsertId (w : World) (u : Upsert) : Nat :=
  match u.check w.tables.plane with
  | .ok (_, _, row) => w.tables.rowId row
  | .error _ => 0

/-- A new row has no status. -/
def World.upsertServiceRecord (w : World) (faults : Faults) (u : Upsert) : Option Str × World :=
  match u.check w.tables.plane with
  | .error message => (some message, w)
  | .ok (_, _, row) =>
    let synced := if row = none then Function.update w.synced (w.tables.rowId row) none else w.synced
    { w with synced := synced }.deliver faults (w.tables.rowId row) (Dns.upsertServiceRecord true w.tables u)

/-! ## The import -/

/-- A proxy host of the last NPM poll, with its binding. -/
structure NpmProxyHost where
  domainNames : List Str
  serverId : Option Nat
  dockerProject : Str
  forwardHost : Str

structure Env where
  faults : Faults
  /-- The instance lists its CNAMEs. -/
  lists : Nat → Bool
  npm : List NpmProxyHost
  /-- A record's project and NPM hint, by name, backend and the project that NPM gives. -/
  details : Str → Nat → Str → Str × Str

structure Plan where
  targetServerId : Nat
  backendServerId : Nat
  backendName : Str
  dockerProject : Str
  viaProxy : Bool
  npmHint : Str

/-- The first of each name. -/
def firstOfEach : List Str → List (Str × Str) → List (Str × Str)
  | _, [] => []
  | seen, e :: es => if e.1 = [] ∨ e.1 ∈ seen then firstOfEach seen es else e :: firstOfEach (e.1 :: seen) es

/-- Of the first instance that lists them. -/
def World.listPiholeCnames (w : World) (env : Env) : List (Str × Str) :=
  match (inOrder (w.piholes.filter (·.enabled))).find? fun i => env.lists i.id with
  | none => []
  | some i => firstOfEach [] (i.zone.cnames.map fun e => (normalizeFqdn e.1, normalizeFqdn e.2))

def Tables.serverByDnsName (t : Tables) (name : Str) : Option Server :=
  if normalizeFqdn name = [] then none else t.servers.rows.find? fun s => normalizeFqdn s.dnsName == normalizeFqdn name

def Tables.serverByIp (t : Tables) (ip : Str) : Option Server :=
  if isValidIpv4 (strip ip) then t.servers.rows.find? fun s => hostIpForDns s.toServer == strip ip || strip s.hostname == strip ip else none

/-- The target is the host with the name; NPM may say which host is behind it. -/
def planFromPiholeCname (env : Env) (t : Tables) (domain target : Str) : Except Str Plan :=
  let fqdn := normalizeFqdn domain
  let tname := normalizeFqdn target
  match t.serverByDnsName tname with
  | none => .error (lit "No fleet host with DNS name " ++ tname ++ lit " (CNAME target) — set Host DNS first")
  | some edge =>
    let npmHit := env.npm.find? fun h => decide (fqdn ∈ h.domainNames)
    let bound := (npmHit.bind fun h => h.serverId.bind t.server).getD edge
    let backend := (npmHit.bind fun h =>
      let fwd := strip h.forwardHost
      if isValidIpv4 fwd then t.serverByIp fwd else t.serverByDnsName fwd).getD bound
    let details := env.details fqdn backend.id ((npmHit.map fun h => strip h.dockerProject).getD [])
    .ok { targetServerId := edge.id, backendServerId := backend.id, backendName := backend.name, dockerProject := details.1,
          viaProxy := npmHit.isSome || edge.id != backend.id, npmHint := details.2 }

def Plan.upsert (plan : Plan) (fqdn : Str) : Upsert where
  fqdn := fqdn
  targetServerId := plan.targetServerId
  backendServerId := plan.backendServerId
  dockerProject := plan.dockerProject
  label := if plan.dockerProject ≠ [] then plan.dockerProject else if plan.backendName ≠ [] then plan.backendName else fqdn
  managedOnPihole := true
  viaProxy := plan.viaProxy
  npmHint := plan.npmHint
  certificateId := none
  externalDnsStatus := lit "checklist"
  notes := []
  syncNow := true

/-- The records that are imported, and the world then. An error goes to the next name. -/
def World.importFrom (env : Env) (want : List Str) : List (Str × Str) → List Str → World → List Nat × World
  | [], _, w => ([], w)
  | (domain, target) :: rest, existing, w =>
    if (want ≠ [] ∧ domain ∉ want) ∨ domain ∈ existing then World.importFrom env want rest existing w
    else
      match planFromPiholeCname env w.tables domain target with
      | .error _ => World.importFrom env want rest existing w
      | .ok plan =>
        let u := plan.upsert (normalizeFqdn domain)
        match w.upsertServiceRecord env.faults u with
        | (some _, w') => World.importFrom env want rest existing w'
        | (none, w') =>
          let more := World.importFrom env want rest (normalizeFqdn u.fqdn :: existing) w'
          (w.upsertId u :: more.1, more.2)

def World.importPiholeCnames (w : World) (env : Env) (fqdns : List Str) : List Nat × World :=
  World.importFrom env ((fqdns.filter fun f => decide (f ≠ [])).map normalizeFqdn) (w.listPiholeCnames env)
    (w.tables.records.rows.map fun r => normalizeFqdn r.fqdn) w

/-! ## What a status says -/

inductive SyncCall
  /-- With `sync_now`. -/
  | upsertServiceRecord (u : Upsert)
  | syncServiceDns (record : Nat)
  | importPiholeCnames (fqdns : List Str)

/-- The records a call returns, and the world then. -/
def World.run (w : World) (env : Env) : SyncCall → List Nat × World
  | .upsertServiceRecord u =>
    let u := { u with syncNow := true }
    match w.upsertServiceRecord env.faults u with
    | (none, w') => ([w.upsertId u], w')
    | (some _, w') => ([], w')
  | .syncServiceDns id =>
    match w.tables.record id with
    | none => ([], w)
    | some r =>
      match w.syncServiceDns env.faults r with
      | (none, w') => ([r.id], w')
      | (some _, w') => ([], w')
  | .importPiholeCnames fqdns => w.importPiholeCnames env fqdns

/-- The status of a record is that every Pi-hole took it. -/
def World.SaysOk (w : World) (id : Nat) : Prop := (w.synced id).map Prod.fst = some (lit "ok")

/-- What a record asks for: its backend's address where it is a host's own, else its target's name. -/
def Tables.entryOf (t : Tables) (id : Nat) : Option Entry :=
  (t.record id).bind fun r => (t.server r.targetServerId).map fun target =>
    if r.recordType = .a then .host (hostIpForDns ((t.server r.backendServerId).getD target).toServer, normalizeFqdn r.fqdn)
    else .cname (normalizeFqdn r.fqdn, normalizeFqdn target.dnsName)

def World.Answers (w : World) (x : Entry) : Prop := ∀ i ∈ w.piholes, i.enabled = true → i.zone.has x = true

/-- The CNAME entry that an upsert takes back first. -/
def World.removal (w : World) (u : Upsert) : Option Write :=
  match u.check w.tables.plane with
  | .ok (target, backend, row) =>
    if Dropped w.tables u target backend row then some (.cname (.delete (oldEntry w.tables (row.bind w.tables.record)))) else none
  | .error _ => none

/-- Where an entry is refused, or the instance fails, it is there. -/
def Agrees (faults : Faults) (id : Nat) (z : Pihole) (x : Entry) : Prop := z.refuses x = true ∨ faults id x.add ≠ none → z.has x = true

/-- The instances agree to the entry before the call, but for the one that the call takes back. A record that is not managed is sent nowhere:
the entry has to be there. -/
def World.Agree (w : World) (env : Env) (x : Entry) : SyncCall → Prop
  | .upsertServiceRecord u =>
    if u.managedOnPihole then
      ∀ i ∈ w.piholes, i.enabled = true →
        Agrees env.faults i.id ((w.removal { u with syncNow := true }).elim i.zone fun d => (i.ask env.faults d).1.zone) x
    else w.Answers x
  | _ => ∀ i ∈ w.piholes, i.enabled = true → Agrees env.faults i.id i.zone x

/-! ## One instance -/

section fanout
variable {faults : Faults} {x y : Entry} {d : Write} {i : PiholeIntegration} {z : Pihole}

/-- The Pi-hole with one more entry. -/
def Pihole.with (z : Pihole) : Entry → Pihole
  | .host e => { z with hosts := z.hosts ++ [e] }
  | .cname e => { z with cnames := z.cnames ++ [e] }

def duplicate : Entry → Str
  | .host _ => duplicateHost
  | .cname _ => duplicateCname

theorem answer_add (z : Pihole) (x : Entry) : z.answer x.add = if z.refuses x then .error (duplicate x) else .ok (z.with x) := by
  cases x <;> rfl

theorem duplicate_present (x : Entry) : isAlreadyPresentError ((duplicate x).take 200) = true := by
  have hhost : isAlreadyPresentError (duplicateHost.take 200) = true := by decide +kernel
  have hcname : isAlreadyPresentError (duplicateCname.take 200) = true := by decide +kernel
  cases x with
  | host e => exact hhost
  | cname e => exact hcname

theorem isAdd_add (x : Entry) : x.add.isAdd = true := by
  cases x <;> rfl

theorem sameName_refl (a : Str) : sameName a a = true := by
  simp [sameName]

theorem has_with (z : Pihole) (x : Entry) : (z.with x).has x = true := by
  cases x with
  | host e => simp [Pihole.with, Pihole.has]
  | cname e => simp [Pihole.with, Pihole.has, sameName_refl]

/-- **An instance that takes an entry, or is taken to have it,** has it where it agrees to it. -/
theorem ask_has (hok : (i.ask faults x.add).2.ok = true) : (i.ask faults x.add).1.zone.has x = true ↔ Agrees faults i.id i.zone x := by
  unfold PiholeIntegration.ask at hok ⊢
  unfold Agrees
  cases hfault : faults i.id x.add with
  | some err =>
    rw [hfault] at hok
    simp only [Option.elim_some, isAdd_add, Bool.true_and] at hok ⊢
    split at hok
    · rename_i hpresent
      rw [if_pos hpresent]
      simp
    · cases hok
  | none =>
    simp only [Option.elim_none, answer_add]
    cases hrefuses : i.zone.refuses x with
    | true => simp [isAdd_add, duplicate_present]
    | false => simp [has_with]

theorem ask_id (i : PiholeIntegration) (d : Write) : (i.ask faults d).1.id = i.id ∧ (i.ask faults d).1.enabled = i.enabled := by
  unfold PiholeIntegration.ask
  split
  · exact ⟨rfl, rfl⟩
  · dsimp only
    split <;> exact ⟨rfl, rfl⟩

theorem after_enabled (i : PiholeIntegration) (d : Write) : (i.after faults d).enabled = i.enabled := by
  unfold PiholeIntegration.after
  split
  · exact (ask_id i d).2
  · rfl

/-! ## All instances -/

theorem summarize_ok {results : List FanoutResult} (h : (summarizeResults results).1 = lit "ok") : ∀ r ∈ results, r.ok = true := by
  have herror : lit "error" ≠ lit "ok" := by decide
  have hsome : lit "partial" ≠ lit "ok" := by decide
  unfold summarizeResults at h
  split at h
  · exact absurd h herror
  · dsimp only at h
    split at h
    · rename_i hall
      exact List.countP_eq_length.1 hall
    · split at h
      · exact absurd h herror
      · exact absurd h hsome

theorem fanout_ok {piholes : List PiholeIntegration} (h : (summarizeResults (fanoutPiholeDns faults d piholes).2).1 = lit "ok")
    (hi : i ∈ piholes) (henabled : i.enabled = true) : (i.ask faults d).2.ok = true := by
  refine summarize_ok h _ (List.mem_map.2 ⟨i, ?_, rfl⟩)
  unfold inOrder
  rw [List.mem_insertionSort, List.mem_filter]
  exact ⟨hi, henabled⟩

/-- After a fan-out that all took, the entry is everywhere, if and only if all agreed to it. -/
theorem fanout_has {piholes : List PiholeIntegration} (h : (summarizeResults (fanoutPiholeDns faults x.add piholes).2).1 = lit "ok") :
    (∀ i ∈ (fanoutPiholeDns faults x.add piholes).1, i.enabled = true → i.zone.has x = true) ↔
      ∀ i ∈ piholes, i.enabled = true → Agrees faults i.id i.zone x := by
  show (∀ i ∈ piholes.map (PiholeIntegration.after faults x.add), _) ↔ _
  rw [List.forall_mem_map]
  refine forall₂_congr fun i hi => ?_
  rw [after_enabled]
  refine imp_congr_right fun henabled => ?_
  rw [← ask_has (fanout_ok h hi henabled)]
  unfold PiholeIntegration.after
  rw [if_pos henabled]

/-- The same, with an entry taken back first. -/
theorem fanouts_has {piholes : List PiholeIntegration} {removal : Option Write} {sent : List PiholeIntegration × List FanoutResult}
    (hsent : (removal.toList ++ [x.add]).foldl (fun sent x => fanoutPiholeDns faults x sent.1) (piholes, []) = sent)
    (h : (summarizeResults sent.2).1 = lit "ok") : (∀ i ∈ sent.1, i.enabled = true → i.zone.has x = true) ↔
      ∀ i ∈ piholes, i.enabled = true → Agrees faults i.id (removal.elim i.zone fun d => (i.ask faults d).1.zone) x := by
  subst hsent
  cases removal with
  | none => exact fanout_has h
  | some d =>
    refine (fanout_has h).trans ?_
    show (∀ i ∈ piholes.map (PiholeIntegration.after faults d), _) ↔ _
    rw [List.forall_mem_map]
    refine forall₂_congr fun i _ => ?_
    rw [after_enabled]
    refine imp_congr_right fun henabled => ?_
    unfold PiholeIntegration.after
    rw [if_pos henabled, (ask_id i d).1]
    rfl

end fanout

/-! ## What is delivered -/

section deliver
variable {w w' : World} {faults : Faults} {id : Nat} {call : Call} {x : Entry}

theorem deliver_synced {id' : Nat} (h : id' ≠ id) : (w.deliver faults id call).2.synced id' = w.synced id' := by
  unfold World.deliver
  dsimp only
  split
  · rfl
  · exact Function.update_of_ne h ..

/-- A call that is delivered and returns. -/
theorem deliver_returns (hrun : w.deliver faults id call = (none, w')) : call.error = none ∧ w'.tables = call.tables := by
  unfold World.deliver at hrun
  dsimp only at hrun
  split at hrun
  · obtain ⟨herror, rfl⟩ := Prod.mk.inj hrun
    exact ⟨herror, rfl⟩
  · rename_i hsends
    obtain ⟨-, rfl⟩ := Prod.mk.inj hrun
    exact ⟨not_not.1 (not_or.1 hsends).1, rfl⟩

/-- **One with the status ok** leaves its entry everywhere, if and only if all agreed to it. -/
theorem deliver_answers {removal : Option Write} (hrun : w.deliver faults id call = (none, w')) (hwrites : call.writes = removal.toList ++ [x.add])
    (hok : w'.SaysOk id) : w'.Answers x ↔
      ∀ i ∈ w.piholes, i.enabled = true → Agrees faults i.id (removal.elim i.zone fun d => (i.ask faults d).1.zone) x := by
  have hsends : ¬ (call.error ≠ none ∨ call.writes = []) := by
    rw [hwrites]
    simp [(deliver_returns hrun).1]
  unfold World.deliver at hrun
  simp only [if_neg hsends] at hrun
  obtain ⟨-, rfl⟩ := Prod.mk.inj hrun
  unfold World.SaysOk at hok
  simp only [Function.update_self, Option.map_some, Option.some.injEq] at hok
  exact fanouts_has (by rw [hwrites]) hok

/-- One that sends nothing leaves the instances as they are. -/
theorem deliver_nothing (hwrites : call.writes = []) : w.deliver faults id call = (call.error, { w with tables := call.tables }) := by
  unfold World.deliver
  dsimp only
  rw [if_pos (Or.inr hwrites)]

end deliver

/-! ## What is asked for -/

section asked
variable {t : Tables} {r : ServiceDnsRecord} {id : Nat} {x : Entry}

theorem record_writeRecord {f : ServiceDnsRecord → ServiceDnsRecord} {hf : ∀ r, (f r).id = r.id} (h : t.record r.id = some r) :
    (t.writeRecord r.id f hf).record r.id = some (f r) := by
  have hmap : (t.writeRecord r.id f hf).record r.id = (t.record r.id).map fun s => if s.id = r.id then f s else s :=
    Table.lookup_map (fun s => by split <;> simp [hf]) r.id t.records.rows
  rw [hmap, h, Option.map_some, if_pos rfl]

theorem record_writeRecord_of_ne {f : ServiceDnsRecord → ServiceDnsRecord} {hf : ∀ r, (f r).id = r.id} {id' : Nat} (h : id' ≠ id) :
    (t.writeRecord id f hf).record id' = t.record id' := by
  have hmap : (t.writeRecord id f hf).record id' = (t.record id').map fun s => if s.id = id then f s else s :=
    Table.lookup_map (fun s => by split <;> simp [hf]) id' t.records.rows
  rw [hmap]
  cases hr : t.record id' with
  | none => rfl
  | some s => rw [Option.map_some, if_neg (by rw [Table.lookup_key hr]; exact h)]

/-- **A sync asks for the entry of its record**, as the record is then. -/
theorem syncServiceDns_asks (h : t.record r.id = some r) (herror : (syncServiceDns true t r).error = none) :
    ∃ x, (syncServiceDns true t r).writes = [x.add] ∧ (syncServiceDns true t r).tables.entryOf r.id = some x ∧ x.name = normalizeFqdn r.fqdn := by
  unfold syncServiceDns at herror ⊢
  cases htarget : t.server r.targetServerId with
  | none =>
    rw [htarget] at herror
    cases herror
  | some target =>
    rw [htarget] at herror
    simp only [if_true] at herror ⊢
    split at herror
    · cases herror
    · rename_i hname
      rw [if_neg hname]
      split at herror
      · rename_i hidentity
        split at herror
        · cases herror
        · rename_i hip
          rw [if_pos hidentity, if_neg hip]
          refine ⟨.host _, rfl, ?_, rfl⟩
          unfold Tables.entryOf
          rw [record_writeRecord h, Option.bind_some]
          show (t.server r.targetServerId).map _ = _
          rw [htarget]
          rfl
      · rename_i hidentity
        rw [if_neg hidentity]
        refine ⟨.cname _, rfl, ?_, rfl⟩
        unfold Tables.entryOf
        rw [record_writeRecord h, Option.bind_some]
        show (t.server r.targetServerId).map _ = _
        rw [htarget]
        rfl

theorem syncServiceDns_others {id' : Nat} (h : id' ≠ r.id) :
    (syncServiceDns true t r).tables.record id' = t.record id' ∧ (syncServiceDns true t r).tables.servers = t.servers := by
  unfold syncServiceDns
  cases t.server r.targetServerId with
  | none => exact ⟨rfl, rfl⟩
  | some target =>
    simp only [if_true]
    split_ifs
    · exact ⟨rfl, rfl⟩
    · exact ⟨rfl, rfl⟩
    · exact ⟨record_writeRecord_of_ne h, rfl⟩
    · exact ⟨record_writeRecord_of_ne h, rfl⟩

end asked

/-! ## Upserts -/

section upserts
variable {w w' : World} {faults : Faults} {u : Upsert} {target backend : Migrate.Server} {row : Option Nat} {id : Nat}

theorem upsertId_eq (h : u.check w.tables.plane = .ok (target, backend, row)) : w.upsertId u = w.tables.rowId row := by
  unfold World.upsertId
  rw [h]

theorem removal_eq (h : u.check w.tables.plane = .ok (target, backend, row)) : w.removal u =
    if Dropped w.tables u target backend row then some (.cname (.delete (oldEntry w.tables (row.bind w.tables.record)))) else none := by
  unfold World.removal
  rw [h]

/-- The row that an upsert commits asks for an entry. -/
theorem commit_entryOf (h : u.check w.tables.plane = .ok (target, backend, row)) :
    ∃ x, (w.tables.commit u target backend row).entryOf (w.tables.rowId row) = some x := by
  obtain ⟨⟨g, hg, rfl⟩, b, hb, rfl⟩ := check_hosts h
  have hrow : (w.tables.commit u g.toServer b.toServer row).record (w.tables.rowId row) =
      some (committedRow u g.toServer b.toServer (w.tables.rowId row)) := Tables.record_of_mem ((mem_commit h).2 (.inl rfl))
  have htarget : ∃ s, (w.tables.commit u g.toServer b.toServer row).server (committedRow u g.toServer b.toServer (w.tables.rowId row)).targetServerId = some s := by
    by_cases hown : OwnName u g.toServer b.toServer
    · rw [(committed_own hown _).2.2, show b.toServer.id = u.backendServerId from (Tables.server_mem hb).2]
      exact ⟨b, hb⟩
    · rw [(committed_cname hown _).2]
      exact ⟨g, hg⟩
  obtain ⟨s, hs⟩ := htarget
  unfold Tables.entryOf
  rw [hrow, Option.bind_some, hs]
  exact ⟨_, rfl⟩

/-- **An upsert that returns** asks for its entry; with the status ok it leaves that everywhere, if and only if all agreed to it. -/
theorem upsert_answers (h : u.check w.tables.plane = .ok (target, backend, row)) (hnow : u.syncNow = true)
    (hrun : w.upsertServiceRecord faults u = (none, w')) :
    ∃ x, w'.tables.entryOf (w.tables.rowId row) = some x ∧ (u.managedOnPihole = true → x.name = normalizeFqdn (normalizeFqdn u.fqdn)) ∧
      (w'.SaysOk (w.tables.rowId row) → (w'.Answers x ↔ if u.managedOnPihole then
        ∀ i ∈ w.piholes, i.enabled = true → Agrees faults i.id ((w.removal u).elim i.zone fun d => (i.ask faults d).1.zone) x
      else w.Answers x)) := by
  have hrow : (w.tables.commit u target backend row).record (w.tables.rowId row) = some (committedRow u target backend (w.tables.rowId row)) :=
    Tables.record_of_mem ((mem_commit h).2 (.inl rfl))
  unfold World.upsertServiceRecord at hrun
  rw [h] at hrun
  dsimp only at hrun
  rw [upsert_ok h, hnow] at hrun
  cases hmanaged : u.managedOnPihole with
  | false =>
    simp only [hmanaged, Bool.and_false, Bool.false_eq_true, if_false] at hrun ⊢
    rw [deliver_nothing rfl] at hrun
    obtain rfl := (Prod.mk.inj hrun).2
    obtain ⟨x, hx⟩ := commit_entryOf h
    exact ⟨x, hx, nofun, fun _ => Iff.rfl⟩
  | true =>
    simp only [hmanaged, Bool.and_self, if_true] at hrun ⊢
    obtain ⟨herror, htables⟩ := deliver_returns hrun
    have hrow' : (w.tables.commit u target backend row).record (committedRow u target backend (w.tables.rowId row)).id = _ := hrow
    obtain ⟨x, hwrites, hentry, hname⟩ := syncServiceDns_asks hrow' herror
    have hsent : (if Dropped w.tables u target backend row then [.cname (.delete (oldEntry w.tables (row.bind w.tables.record)))] else []) ++
        (syncServiceDns true (w.tables.commit u target backend row) (committedRow u target backend (w.tables.rowId row))).writes =
          (w.removal u).toList ++ [x.add] := by
      rw [hwrites, removal_eq h]
      cases Dropped w.tables u target backend row <;> rfl
    refine ⟨x, ?_, fun _ => hname, fun hok => ?_⟩
    · rw [htables]
      exact hentry
    · have hiff := deliver_answers hrun hsent hok
      exact hiff

end upserts

/-! ## Syncs -/

theorem sync_answers {w w' : World} {faults : Faults} {r : ServiceDnsRecord} (h : w.tables.record r.id = some r)
    (hrun : w.syncServiceDns faults r = (none, w')) (hok : w'.SaysOk r.id) :
    ∃ x, w'.tables.entryOf r.id = some x ∧ (w'.Answers x ↔ ∀ i ∈ w.piholes, i.enabled = true → Agrees faults i.id i.zone x) := by
  unfold World.syncServiceDns at hrun
  obtain ⟨herror, htables⟩ := deliver_returns hrun
  obtain ⟨x, hwrites, hentry, -⟩ := syncServiceDns_asks h herror
  have hwrites' : (syncServiceDns true w.tables r).writes = (none : Option Write).toList ++ [x.add] := hwrites
  refine ⟨x, ?_, deliver_answers hrun hwrites' hok⟩
  rw [htables]
  exact hentry

/-! ## Names beside each other -/

section beside
variable {faults : Faults} {x y : Entry} {ns ms : List Str} {i i' : PiholeIntegration} {w w' w'' : World}

def Entry.key (x : Entry) : Str := normalizeFqdn x.name

/-- Only entries of these names came to the instance. -/
structure Beside (ns : List Str) (i i' : PiholeIntegration) : Prop where
  id : i'.id = i.id
  enabled : i'.enabled = i.enabled
  refuses : ∀ x : Entry, x.key ∉ ns → i'.zone.refuses x = i.zone.refuses x
  has : ∀ x : Entry, x.key ∉ ns → i'.zone.has x = i.zone.has x

theorem Beside.refl (ns : List Str) (i : PiholeIntegration) : Beside ns i i := ⟨rfl, rfl, fun _ _ => rfl, fun _ _ => rfl⟩

theorem Beside.trans {i'' : PiholeIntegration} (h : Beside ns i i') (h' : Beside ms i' i'') : Beside (ns ++ ms) i i'' where
  id := h'.id.trans h.id
  enabled := h'.enabled.trans h.enabled
  refuses x hx := by
    rw [List.mem_append, not_or] at hx
    rw [h'.refuses x hx.2, h.refuses x hx.1]
  has x hx := by
    rw [List.mem_append, not_or] at hx
    rw [h'.has x hx.2, h.has x hx.1]

theorem Beside.mono (h : Beside ns i i') (hsub : ns ⊆ ms) : Beside ms i i' :=
  ⟨h.id, h.enabled, fun x hx => h.refuses x fun hmem => hx (hsub hmem), fun x hx => h.has x fun hmem => hx (hsub hmem)⟩

/-- An entry of another name is neither here nor there. -/
theorem with_beside (z : Pihole) (hkey : x.key ≠ y.key) : (z.with y).refuses x = z.refuses x ∧ (z.with y).has x = z.has x := by
  cases x with
  | host e =>
    cases y with
    | host f =>
      have hne : e ≠ f := by
        rintro rfl
        exact hkey rfl
      simp [Pihole.with, Pihole.refuses, Pihole.has, hne]
    | cname f => exact ⟨rfl, rfl⟩
  | cname e =>
    cases y with
    | host f => exact ⟨rfl, rfl⟩
    | cname f =>
      have hne : sameName f.1 e.1 = false := by
        simp only [sameName, beq_eq_false_iff_ne, ne_eq]
        exact fun heq => hkey heq.symm
      simp [Pihole.with, Pihole.refuses, Pihole.has, hne]

theorem ask_zone (i : PiholeIntegration) (x : Entry) : (i.ask faults x.add).1.zone = i.zone ∨ (i.ask faults x.add).1.zone = i.zone.with x := by
  unfold PiholeIntegration.ask
  split
  · rename_i z hz
    cases hfault : faults i.id x.add with
    | some err =>
      rw [hfault] at hz
      cases hz
    | none =>
      rw [hfault, Option.elim_none, answer_add] at hz
      split at hz
      · cases hz
      · exact Or.inr (Except.ok.inj hz).symm
  · dsimp only
    split <;> exact Or.inl rfl

theorem after_beside (i : PiholeIntegration) (y : Entry) : Beside [y.key] i (i.after faults y.add) := by
  unfold PiholeIntegration.after
  split
  · obtain ⟨hid, henabled⟩ := @ask_id faults i y.add
    refine ⟨hid, henabled, fun x hx => ?_, fun x hx => ?_⟩ <;> rw [List.mem_singleton] at hx <;>
      rcases @ask_zone faults i y with hzone | hzone <;> rw [hzone]
    · exact (with_beside i.zone hx).1
    · exact (with_beside i.zone hx).2
  · exact .refl _ _

/-- Records of these names were added. -/
structure Extends (ns : List Str) (w w' : World) : Prop where
  servers : w'.tables.servers = w.tables.servers
  records : ∀ id r, w.tables.record id = some r → w'.tables.record id = some r
  synced : ∀ id r, w.tables.record id = some r → w'.synced id = w.synced id
  fqdns : ∀ r ∈ w'.tables.records.rows, r.fqdn ∈ ns ∨ ∃ s ∈ w.tables.records.rows, r.fqdn = s.fqdn
  piholes : List.Forall₂ (Beside ns) w.piholes w'.piholes

theorem Extends.refl (ns : List Str) (w : World) : Extends ns w w :=
  ⟨rfl, fun _ _ h => h, fun _ _ _ => rfl, fun r hr => Or.inr ⟨r, hr, rfl⟩, List.forall₂_same.2 fun i _ => .refl ns i⟩

theorem Extends.trans (h : Extends ns w w') (h' : Extends ms w' w'') : Extends (ns ++ ms) w w'' where
  servers := h'.servers.trans h.servers
  records id r hr := h'.records id r (h.records id r hr)
  synced id r hr := (h'.synced id r (h.records id r hr)).trans (h.synced id r hr)
  fqdns r hr := by
    rcases h'.fqdns r hr with hmem | ⟨s, hs, hrs⟩
    · exact Or.inl (List.mem_append_right _ hmem)
    · rcases h.fqdns s hs with hmem | ⟨o, ho, hso⟩
      · exact Or.inl (List.mem_append_left _ (hrs ▸ hmem))
      · exact Or.inr ⟨o, ho, hrs.trans hso⟩
  piholes := by
    refine forall₂_trans ?_ (h.piholes.imp fun _ _ hb => hb.mono (List.subset_append_left ns ms))
      (h'.piholes.imp fun _ _ hb => hb.mono (List.subset_append_right ns ms))
    intro a b c hab hbc
    exact (hab.trans hbc).mono fun n hn => (List.mem_append.1 hn).elim id id

/-- What is said of the instances about another name. -/
theorem Extends.forall_piholes (h : Extends ns w w') {P Q : PiholeIntegration → Prop} (hPQ : ∀ i i', Beside ns i i' → (Q i' ↔ P i)) :
    (∀ i ∈ w'.piholes, Q i) ↔ ∀ i ∈ w.piholes, P i := by
  have hlists := h.piholes
  generalize w.piholes = is at hlists
  generalize w'.piholes = is' at hlists
  induction hlists with
  | nil => simp
  | cons hb _ ih => simp only [List.forall_mem_cons, hPQ _ _ hb, ih]

theorem Extends.answers (h : Extends ns w w') (hx : x.key ∉ ns) : w'.Answers x ↔ w.Answers x :=
  h.forall_piholes fun i i' hb => by rw [hb.enabled, hb.has x hx]

theorem Extends.agrees (h : Extends ns w w') (hx : x.key ∉ ns) :
    (∀ i ∈ w'.piholes, i.enabled = true → Agrees faults i.id i.zone x) ↔ ∀ i ∈ w.piholes, i.enabled = true → Agrees faults i.id i.zone x :=
  h.forall_piholes fun i i' hb => by
    unfold Agrees
    rw [hb.enabled, hb.id, hb.refuses x hx, hb.has x hx]

/-- A record that is there asks for the same. -/
theorem Extends.entryOf (h : Extends ns w w') {id : Nat} (hx : w.tables.entryOf id = some x) : w'.tables.entryOf id = some x ∧ w'.synced id = w.synced id := by
  unfold Tables.entryOf at hx ⊢
  obtain ⟨r, hr, hentry⟩ := Option.bind_eq_some_iff.1 hx
  rw [h.records id r hr, h.synced id r hr, Option.bind_some]
  refine ⟨?_, rfl⟩
  unfold Tables.server
  rw [h.servers]
  exact hentry

end beside

/-! ## The import -/

section imports
variable {w w' : World} {faults : Faults} {u : Upsert} {target backend : Migrate.Server} {row : Option Nat} {n : Str}

/-- A sync sends its entry, or nothing. -/
theorem syncServiceDns_writes (t : Tables) (r : ServiceDnsRecord) : (syncServiceDns true t r).writes = [] ∨
    ∃ x : Entry, (syncServiceDns true t r).writes = [x.add] ∧ x.name = normalizeFqdn r.fqdn := by
  unfold syncServiceDns
  cases t.server r.targetServerId with
  | none => exact Or.inl rfl
  | some target =>
    dsimp only
    split
    · exact Or.inl rfl
    · split
      · split
        · exact Or.inl rfl
        · exact Or.inr ⟨.host _, rfl, rfl⟩
      · exact Or.inr ⟨.cname _, rfl, rfl⟩

theorem syncServiceDns_fqdns {t : Tables} {r s : ServiceDnsRecord} (hs : s ∈ (syncServiceDns true t r).tables.records.rows) :
    ∃ o ∈ t.records.rows, s.fqdn = o.fqdn := by
  have hwrite : ∀ (f : ServiceDnsRecord → ServiceDnsRecord) (hf : ∀ r, (f r).id = r.id), (∀ r, (f r).fqdn = r.fqdn) →
      s ∈ (t.writeRecord r.id f hf).records.rows → ∃ o ∈ t.records.rows, s.fqdn = o.fqdn := by
    intro f hf hfqdn hmem
    obtain ⟨o, ho, rfl⟩ := (@Keyed.mem_modify _ _ _ _ t.records r.id f hf s).1 hmem
    refine ⟨o, ho, ?_⟩
    split
    · exact hfqdn o
    · rfl
  unfold syncServiceDns at hs
  cases htarget : t.server r.targetServerId with
  | none =>
    rw [htarget] at hs
    exact ⟨s, hs, rfl⟩
  | some target =>
    rw [htarget] at hs
    simp only [if_true] at hs
    split_ifs at hs
    · exact ⟨s, hs, rfl⟩
    · exact ⟨s, hs, rfl⟩
    · exact hwrite (fun r => { r with recordType := .a, viaProxy := false }) (fun _ => rfl) (fun _ => rfl) hs
    · exact hwrite (fun r => { r with recordType := .cname }) (fun _ => rfl) (fun _ => rfl) hs

theorem deliver_tables (w : World) (faults : Faults) (id : Nat) (call : Call) : (w.deliver faults id call).2.tables = call.tables := by
  unfold World.deliver
  dsimp only
  split <;> rfl

theorem deliver_beside {id : Nat} {call : Call} (h : call.writes = [] ∨ ∃ x : Entry, call.writes = [x.add] ∧ x.key = n) :
    List.Forall₂ (Beside [n]) w.piholes (w.deliver faults id call).2.piholes := by
  unfold World.deliver
  dsimp only
  split
  · exact List.forall₂_same.2 fun i _ => .refl _ i
  · rename_i hsends
    obtain ⟨x, hx, rfl⟩ := h.resolve_left (not_or.1 hsends).2
    rw [hx]
    exact List.forall₂_map_right_iff.2 (List.forall₂_same.2 fun i _ => after_beside i x)

/-- The row of a name that no record has is new. -/
theorem check_fresh (h : u.check w.tables.plane = .ok (target, backend, row)) (hid : u.recordId = none)
    (hfresh : ∀ r ∈ w.tables.records.rows, r.fqdn ≠ normalizeFqdn u.fqdn) : row = none := by
  rw [(Upsert.check_ok h).2.2.2 hid, Option.map_eq_none_iff, List.find?_eq_none]
  intro r hr heq
  exact hfresh r hr (of_decide_eq_true heq)

/-- **An upsert of a new name** adds its record and its entry, and leaves all else. -/
theorem upsert_extends (hid : u.recordId = none) (hfresh : ∀ r ∈ w.tables.records.rows, r.fqdn ≠ normalizeFqdn u.fqdn)
    (hn : normalizeFqdn u.fqdn = n) (hnormal : normalizeFqdn n = n) : Extends [n] w (w.upsertServiceRecord faults u).2 := by
  unfold World.upsertServiceRecord
  cases h : u.check w.tables.plane with
  | error message => exact .refl _ w
  | ok found =>
    obtain ⟨target, backend, row⟩ := found
    obtain rfl := check_fresh h hid hfresh
    dsimp only
    obtain ⟨id, hnew⟩ : ∃ id, w.tables.rowId none = id := ⟨_, rfl⟩
    have hne : ∀ id' r, w.tables.record id' = some r → id' ≠ id := by
      rintro id' r hr rfl
      refine freshId_not_mem (w.tables.records.rows.map ServiceDnsRecord.id) (List.mem_map.2 ⟨r, Table.lookup_mem hr, ?_⟩)
      exact (Table.lookup_key hr).trans hnew.symm
    have hcommit : ∀ id' r, w.tables.record id' = some r → (w.tables.commit u target backend none).record id' = some r := by
      intro id' r hr
      obtain rfl : r.id = id' := Table.lookup_key hr
      exact Tables.record_of_mem ((mem_commit h).2 (Or.inr ⟨hnew ▸ hne _ r hr, Table.lookup_mem hr⟩))
    have hrows : ∀ r ∈ (w.tables.commit u target backend none).records.rows, r.fqdn ∈ [n] ∨ ∃ s ∈ w.tables.records.rows, r.fqdn = s.fqdn := by
      intro r hr
      rcases (mem_commit h).1 hr with rfl | ⟨-, hold⟩
      · exact Or.inl (List.mem_singleton.2 hn)
      · exact Or.inr ⟨r, hold, rfl⟩
    have hdropped : Dropped w.tables u target backend none = false := by
      unfold Dropped oldEntry
      simp
    rw [upsert_ok h, hdropped, if_pos rfl]
    split
    · obtain ⟨c, hc⟩ : ∃ c, committedRow u target backend id = c := ⟨_, rfl⟩
      have hcid : c.id = id := by rw [← hc]; rfl
      have hcname : normalizeFqdn c.fqdn = n := by rw [← hc]; exact (congrArg normalizeFqdn hn).trans hnormal
      simp only [hc, hnew, Bool.false_eq_true, if_false, List.nil_append]
      constructor
      · rw [deliver_tables]
        exact (@syncServiceDns_others _ c (c.id + 1) (by omega)).2
      · intro id' r hr
        rw [deliver_tables, (syncServiceDns_others (hcid ▸ hne id' r hr)).1]
        exact hcommit id' r hr
      · intro id' r hr
        rw [deliver_synced (hne id' r hr)]
        exact Function.update_of_ne (hne id' r hr) ..
      · intro r hr
        rw [deliver_tables] at hr
        obtain ⟨o, ho, hfqdn⟩ := syncServiceDns_fqdns hr
        rw [hfqdn]
        exact hrows o ho
      · have hwrites : (syncServiceDns true (w.tables.commit u target backend none) c).writes = [] ∨
            ∃ x : Entry, (syncServiceDns true (w.tables.commit u target backend none) c).writes = [x.add] ∧ x.key = n := by
          refine (syncServiceDns_writes _ c).imp_right ?_
          rintro ⟨x, hx, hname⟩
          refine ⟨x, hx, ?_⟩
          unfold Entry.key
          rw [hname, hcname, hnormal]
        exact (deliver_beside hwrites : List.Forall₂ _ ({ w with synced := Function.update w.synced id none } : World).piholes _)
    · rw [deliver_nothing rfl]
      exact ⟨rfl, hcommit, fun id' r hr => Function.update_of_ne (hnew ▸ hne id' r hr) .., hrows, List.forall₂_same.2 fun i _ => .refl _ i⟩

end imports

section importRuns
variable {env : Env} {want : List Str}

/-- **The run of an import**: each name adds its record and its entry, and what a status says of a record holds if and only if all agreed to its
entry before the import. The induction is on the names that are left, none of which has a record. -/
theorem importFrom_spec : ∀ {names : List (Str × Str)} {existing : List Str} {w w' : World} {ids : List Nat}, (names.map Prod.fst).Nodup →
    (∀ e ∈ names, normalizeFqdn e.1 = e.1) → (∀ r ∈ w.tables.records.rows, ∀ e ∈ names, e.1 ∉ existing → r.fqdn ≠ e.1) →
    World.importFrom env want names existing w = (ids, w') →
      Extends (names.map Prod.fst) w w' ∧ ∀ id ∈ ids, w'.SaysOk id → ∃ x, w'.tables.entryOf id = some x ∧ x.key ∈ names.map Prod.fst ∧
        (w'.Answers x ↔ ∀ i ∈ w.piholes, i.enabled = true → Agrees env.faults i.id i.zone x)
  | [], existing, w, w', ids, _, _, _, hrun => by
    obtain ⟨rfl, rfl⟩ := Prod.mk.inj hrun
    exact ⟨.refl _ w, fun id hid => absurd hid List.not_mem_nil⟩
  | (name, target) :: names, existing, w, w', ids, hnodup, hnormal, hfresh, hrun => by
    obtain ⟨hnew, hnodup⟩ := List.nodup_cons.1 hnodup
    have hname : normalizeFqdn name = name := hnormal _ List.mem_cons_self
    have hnormal' : ∀ e ∈ names, normalizeFqdn e.1 = e.1 := fun e he => hnormal e (List.mem_cons_of_mem _ he)
    have hapart : ∀ e ∈ names, e.1 ≠ name := fun e he heq => hnew (List.mem_map.2 ⟨e, he, heq⟩)
    -- the rest, from where the name left the world
    have hrest : ∀ {seen : List Str} {mid : World} {more : List Nat}, Extends [name] w mid → existing ⊆ seen →
        World.importFrom env want names seen mid = (more, w') →
          Extends (name :: names.map Prod.fst) w w' ∧ Extends (names.map Prod.fst) mid w' ∧
            ∀ id ∈ more, w'.SaysOk id → ∃ x, w'.tables.entryOf id = some x ∧ x.key ∈ name :: names.map Prod.fst ∧
              (w'.Answers x ↔ ∀ i ∈ w.piholes, i.enabled = true → Agrees env.faults i.id i.zone x) := by
      intro seen mid more hmid hseen hmore
      have hfresh' : ∀ r ∈ mid.tables.records.rows, ∀ e ∈ names, e.1 ∉ seen → r.fqdn ≠ e.1 := by
        intro r hr e he hunseen heq
        rcases hmid.fqdns r hr with hmem | ⟨s, hs, hfqdn⟩
        · exact hapart e he (heq ▸ List.mem_singleton.1 hmem)
        · exact hfresh s hs e (List.mem_cons_of_mem _ he) (fun hex => hunseen (hseen hex)) (hfqdn ▸ heq)
      obtain ⟨hext, hids⟩ := importFrom_spec hnodup hnormal' hfresh' hmore
      refine ⟨hmid.trans hext, hext, fun id hid hok => ?_⟩
      obtain ⟨x, hx, hkey, hiff⟩ := hids id hid hok
      have hother : x.key ∉ [name] := fun hmem => hnew (List.mem_singleton.1 hmem ▸ hkey)
      exact ⟨x, hx, List.mem_cons_of_mem _ hkey, hiff.trans (hmid.agrees hother)⟩
    unfold World.importFrom at hrun
    by_cases hskip : (want ≠ [] ∧ name ∉ want) ∨ name ∈ existing
    · rw [if_pos hskip] at hrun
      obtain ⟨hext, -, hids⟩ := hrest (.refl _ w) (fun _ h => h) hrun
      exact ⟨hext, hids⟩
    · rw [if_neg hskip] at hrun
      have hunseen := (not_or.1 hskip).2
      cases hplan : planFromPiholeCname env w.tables name target with
      | error message =>
        rw [hplan] at hrun
        obtain ⟨hext, -, hids⟩ := hrest (.refl _ w) (fun _ h => h) hrun
        exact ⟨hext, hids⟩
      | ok plan =>
        rw [hplan] at hrun
        dsimp only at hrun
        obtain ⟨u, hu⟩ : ∃ u, plan.upsert (normalizeFqdn name) = u := ⟨_, rfl⟩
        have hufqdn : normalizeFqdn u.fqdn = name := by rw [← hu]; exact (congrArg normalizeFqdn hname).trans hname
        have hmid : Extends [name] w (w.upsertServiceRecord env.faults u).2 :=
          upsert_extends (by rw [← hu]; rfl) (fun r hr => hufqdn ▸ hfresh r hr _ List.mem_cons_self hunseen) hufqdn hname
        rw [hu] at hrun
        cases hturn : w.upsertServiceRecord env.faults u with
        | mk error mid =>
          rw [hturn] at hrun hmid
          cases error with
          | some message =>
            obtain ⟨hext, -, hids⟩ := hrest hmid (fun _ h => h) hrun
            exact ⟨hext, hids⟩
          | none =>
            dsimp only at hrun
            obtain ⟨more, hmore⟩ : ∃ more, World.importFrom env want names (normalizeFqdn u.fqdn :: existing) mid = more := ⟨_, rfl⟩
            rw [hmore] at hrun
            obtain ⟨rfl, rfl⟩ := Prod.mk.inj hrun
            obtain ⟨hext, hlater, hids⟩ := hrest hmid (fun _ h => List.mem_cons_of_mem _ h) hmore
            refine ⟨hext, fun id hid hok => ?_⟩
            rcases List.mem_cons.1 hid with rfl | hid
            · cases hcheck : u.check w.tables.plane with
              | error message =>
                unfold World.upsertServiceRecord at hturn
                rw [hcheck] at hturn
                cases hturn
              | ok found =>
                obtain ⟨g, b, row⟩ := found
                obtain rfl := check_fresh hcheck (by rw [← hu]; rfl) fun r hr => hufqdn ▸ hfresh r hr _ List.mem_cons_self hunseen
                have hmanaged : u.managedOnPihole = true := by rw [← hu]; rfl
                obtain ⟨x, hx, hxname, hiff⟩ := upsert_answers hcheck (by rw [← hu]; rfl) hturn
                rw [upsertId_eq hcheck] at hok ⊢
                obtain ⟨hx', hsynced⟩ := hlater.entryOf hx
                have hkey : x.key = name := by
                  unfold Entry.key
                  rw [hxname hmanaged, hufqdn, hname, hname]
                have hnone : w.removal u = none := by
                  rw [removal_eq hcheck]
                  simp [Dropped, oldEntry]
                have hok' : mid.SaysOk (w.tables.rowId none) := by
                  unfold World.SaysOk at hok ⊢
                  rw [← hsynced]
                  exact hok
                refine ⟨x, hx', hkey ▸ List.mem_cons_self, (hlater.answers (hkey ▸ hnew)).trans ((hiff hok').trans ?_)⟩
                rw [if_pos hmanaged, hnone]
                rfl
            · exact hids id hid hok

end importRuns

theorem firstOfEach_spec : ∀ (seen : List Str) (es : List (Str × Str)), ((firstOfEach seen es).map Prod.fst).Nodup ∧
    ∀ e ∈ firstOfEach seen es, e ∈ es ∧ e.1 ∉ seen
  | seen, [] => by simp [firstOfEach]
  | seen, e :: es => by
    unfold firstOfEach
    split
    · obtain ⟨hnodup, hmem⟩ := firstOfEach_spec seen es
      exact ⟨hnodup, fun x hx => ⟨List.mem_cons_of_mem _ (hmem x hx).1, (hmem x hx).2⟩⟩
    · rename_i hnew
      obtain ⟨hnodup, hmem⟩ := firstOfEach_spec (e.1 :: seen) es
      refine ⟨?_, fun x hx => ?_⟩
      · rw [List.map_cons, List.nodup_cons]
        refine ⟨fun hin => ?_, hnodup⟩
        obtain ⟨x, hx, heq⟩ := List.mem_map.1 hin
        exact (hmem x hx).2 (heq ▸ List.mem_cons_self)
      · rcases List.mem_cons.1 hx with rfl | hx
        · exact ⟨List.mem_cons_self, (not_or.1 hnew).2⟩
        · exact ⟨List.mem_cons_of_mem _ (hmem x hx).1, fun hseen => (hmem x hx).2 (List.mem_cons_of_mem _ hseen)⟩

/-- A text without blanks. -/
def Word (s : Str) : Prop := ∀ c ∈ s, isSpace c = false

theorem Word.strip_eq {s : Str} (h : Word s) : strip s = s :=
  strip_eq_self (fun c hc => h c (List.mem_of_mem_head? hc)) fun c hc => h c (List.mem_of_getLast? hc)

/-- The normal form of a word is its own. -/
theorem normalizeFqdn_word {s : Str} (h : Word s) : normalizeFqdn (normalizeFqdn s) = normalizeFqdn s := by
  have hmem : ∀ c ∈ normalizeFqdn s, ∃ b ∈ s, c = b.toLower := by
    intro c hc
    unfold normalizeFqdn at hc
    rw [h.strip_eq] at hc
    obtain ⟨b, hb, rfl⟩ := List.mem_map.1 ((List.rdropWhile_prefix _ _).subset hc)
    exact ⟨b, hb, rfl⟩
  have hword : Word (normalizeFqdn s) := by
    intro c hc
    obtain ⟨b, hb, rfl⟩ := hmem c hc
    rw [isSpace_toLower]
    exact h b hb
  have hlower : lower (normalizeFqdn s) = normalizeFqdn s := by
    refine (List.map_congr_left fun c hc => ?_).trans (List.map_id _)
    obtain ⟨b, -, rfl⟩ := hmem c hc
    exact toLower_toLower b
  show rstrip '.' (lower (strip (normalizeFqdn s))) = _
  rw [hword.strip_eq, hlower]
  exact List.rdropWhile_idempotent _ _

theorem import_spec {w w' : World} {env : Env} {fqdns : List Str} {ids : List Nat}
    (hwords : ∀ i ∈ w.piholes, ∀ e ∈ i.zone.cnames, Word e.1) (hrun : w.importPiholeCnames env fqdns = (ids, w')) {id : Nat} (hid : id ∈ ids)
    (hok : w'.SaysOk id) : ∃ x, w'.tables.entryOf id = some x ∧
      (w'.Answers x ↔ ∀ i ∈ w.piholes, i.enabled = true → Agrees env.faults i.id i.zone x) := by
  have hlisted : ((w.listPiholeCnames env).map Prod.fst).Nodup ∧ ∀ e ∈ w.listPiholeCnames env, normalizeFqdn e.1 = e.1 := by
    unfold World.listPiholeCnames
    cases hfind : (inOrder (w.piholes.filter (·.enabled))).find? fun i => env.lists i.id with
    | none => exact ⟨List.nodup_nil, fun e he => absurd he List.not_mem_nil⟩
    | some i =>
      have hi : i ∈ w.piholes := by
        have hmem := List.mem_of_find?_eq_some hfind
        unfold inOrder at hmem
        rw [List.mem_insertionSort] at hmem
        exact (List.mem_filter.1 hmem).1
      obtain ⟨hnodup, hmem⟩ := firstOfEach_spec [] (i.zone.cnames.map fun e => (normalizeFqdn e.1, normalizeFqdn e.2))
      refine ⟨hnodup, fun e he => ?_⟩
      obtain ⟨c, hc, rfl⟩ := List.mem_map.1 (hmem e he).1
      exact normalizeFqdn_word (hwords i hi c hc)
  unfold World.importPiholeCnames at hrun
  have hfresh : ∀ r ∈ w.tables.records.rows, ∀ e ∈ w.listPiholeCnames env,
      e.1 ∉ w.tables.records.rows.map (fun r => normalizeFqdn r.fqdn) → r.fqdn ≠ e.1 := by
    intro r hr e he hnew heq
    refine hnew (List.mem_map.2 ⟨r, hr, ?_⟩)
    rw [heq, hlisted.2 e he]
  obtain ⟨x, hx, -, hiff⟩ := (importFrom_spec hlisted.1 hlisted.2 hfresh hrun).2 id hid hok
  exact ⟨x, hx, hiff⟩

/-! ## The status -/

/-- **The status ok says that every enabled Pi-hole answers as asked**, if and only if all agreed to the record's entry before the call. The names
on a Pi-hole have no blanks. -/
theorem ok_iff_agree {w w' : World} {env : Env} {call : SyncCall} {left : List Nat} (hwords : ∀ i ∈ w.piholes, ∀ e ∈ i.zone.cnames, Word e.1)
    (hrun : w.run env call = (left, w')) {id : Nat} (hid : id ∈ left) (hok : w'.SaysOk id) :
    ∃ x, w'.tables.entryOf id = some x ∧ (w'.Answers x ↔ w.Agree env x call) := by
  cases call with
  | upsertServiceRecord u =>
    unfold World.run at hrun
    dsimp only at hrun
    split at hrun
    · rename_i mid hturn
      obtain ⟨rfl, rfl⟩ := Prod.mk.inj hrun
      obtain rfl := List.mem_singleton.1 hid
      cases hcheck : ({ u with syncNow := true } : Upsert).check w.tables.plane with
      | error message =>
        unfold World.upsertServiceRecord at hturn
        rw [hcheck] at hturn
        cases hturn
      | ok found =>
        obtain ⟨target, backend, row⟩ := found
        rw [upsertId_eq hcheck] at hok ⊢
        obtain ⟨x, hx, -, hiff⟩ := upsert_answers hcheck rfl hturn
        exact ⟨x, hx, hiff hok⟩
    · obtain ⟨rfl, -⟩ := Prod.mk.inj hrun
      cases hid
  | syncServiceDns record =>
    unfold World.run at hrun
    dsimp only at hrun
    split at hrun
    · obtain ⟨rfl, -⟩ := Prod.mk.inj hrun
      cases hid
    · rename_i r hr
      split at hrun
      · rename_i mid hturn
        obtain ⟨rfl, rfl⟩ := Prod.mk.inj hrun
        obtain rfl := List.mem_singleton.1 hid
        have hrecord : w.tables.record r.id = some r := by rw [show r.id = record from Table.lookup_key hr]; exact hr
        exact sync_answers hrecord hturn hok
      · obtain ⟨rfl, -⟩ := Prod.mk.inj hrun
        cases hid
  | importPiholeCnames fqdns => exact import_spec hwords hrun hid hok

/-! ## A name with two targets -/

def plainEnv : Env := ⟨fun _ _ => none, fun _ => true, [], fun _ _ project => (project, [])⟩

/-- The three hosts, and two Pi-holes, of which the first has a CNAME for the wiki. -/
def wikiWorld (target : Str) : World where
  tables := threeHosts
  piholes := [⟨1, lit "pihole", true, true, ⟨[], [(lit "wiki.lan", target)]⟩⟩, ⟨2, lit "pihole2", true, false, ⟨[], []⟩⟩]
  synced := fun _ => none

/-- The import of the wiki's name, which the second Pi-hole does not have yet. -/
theorem wiki_imported :
    let run := (wikiWorld (lit "edge.lan")).run plainEnv (.importPiholeCnames [])
    ∃ x, run.2.tables.entryOf 1 = some x ∧ (run.2.Answers x ↔ (wikiWorld (lit "edge.lan")).Agree plainEnv x (.importPiholeCnames [])) := by
  intro run
  have hall : (wikiWorld (lit "edge.lan")).piholes.all (fun i => i.zone.cnames.all fun e => e.1.all fun c => !isSpace c) = true := by decide +kernel
  have hwords : ∀ i ∈ (wikiWorld (lit "edge.lan")).piholes, ∀ e ∈ i.zone.cnames, Word e.1 := by
    intro i hi e he c hc
    simpa using List.all_eq_true.1 (List.all_eq_true.1 (List.all_eq_true.1 hall i hi) e he) c hc
  have hid : 1 ∈ run.1 := by decide +kernel
  have hok : (run.2.synced 1).map Prod.fst = some (lit "ok") := by decide +kernel
  have hrun : (wikiWorld (lit "edge.lan")).run plainEnv (.importPiholeCnames []) = (run.1, run.2) := rfl
  exact ok_iff_agree hwords hrun hid hok

/-- The wiki is to be on the edge; the first Pi-hole keeps it on the NAS, and the status is ok. -/
theorem wiki_elsewhere :
    let run := (wikiWorld (lit "nas.lan")).run plainEnv (.upsertServiceRecord (pathRecord (lit "wiki.lan") 1 2 true true))
    run.1 = [1] ∧ run.2.SaysOk 1 ∧ run.2.tables.entryOf 1 = some (.cname (lit "wiki.lan", lit "edge.lan")) ∧
      run.2.piholes.map (·.zone.cnames) = [[(lit "wiki.lan", lit "nas.lan")], [(lit "wiki.lan", lit "edge.lan")]] ∧
      ¬ run.2.Answers (.cname (lit "wiki.lan", lit "edge.lan")) := by
  intro run
  have hok : (run.2.synced 1).map Prod.fst = some (lit "ok") := by decide +kernel
  have hall : run.2.piholes.all (fun i => !i.enabled || i.zone.has (.cname (lit "wiki.lan", lit "edge.lan"))) = false := by decide +kernel
  refine ⟨by decide +kernel, hok, by decide +kernel, by decide +kernel, fun hanswers => ?_⟩
  rw [Bool.eq_false_iff] at hall
  refine hall (List.all_eq_true.2 fun i hi => ?_)
  cases henabled : i.enabled with
  | true => exact hanswers i hi henabled
  | false => rfl

end PiHerder.Dns
