import PiHerder.Dns.Records

/-!
# Whose name a service record carries

A record is pushed as a CNAME, or, where its name is a host's own, as a host entry. Which host that is, is decided twice,
and each time from the record's target and backend alone.
-/
namespace PiHerder.Dns
open Lib Lib.Str Lib.Mirror
open Migrate (ServiceDnsRecord RecordType Upsert normalizeFqdn isHostIdentityName hostIpForDns)

/-! ## The property -/

/-- The server of this name. -/
def NamedHost (t : Tables) (name : Str) (s : Server) : Prop :=
  s ∈ t.servers.rows ∧ normalizeFqdn s.dnsName ≠ [] ∧ normalizeFqdn s.dnsName = name

/-- A host entry of a server's name has that server's address, and no CNAME is of such a name. -/
def Rightful (t : Tables) : Write → Prop
  | .host (.add e) => ∀ s, NamedHost t e.2 s → e.1 = hostIpForDns s.toServer
  | .cname (.add e) => ∀ s, ¬ NamedHost t e.1 s
  | _ => True

def CallRightful (c : Call) : Prop := ∀ x ∈ c.writes, Rightful c.tables x

/-- A call, and whether the Pi-holes answer it. -/
def turn (t : Tables) (e : DnsCall × Bool) : Tables := (e.1.run e.2 t).tables

/-- **No record hijacks a host's name**, in any call of the run. -/
def NoHijack (t : Tables) (es : List (DnsCall × Bool)) : Prop :=
  ∀ pre e post, es = pre ++ e :: post → CallRightful (e.1.run e.2 (runs turn t pre))

/-! ## When a push is rightful -/

/-- The record is pushed: its target has a name, and a host's own record has an address. -/
structure Pushed (t : Tables) (r : ServiceDnsRecord) (target backend : Server) : Prop where
  found : t.server r.targetServerId = some target
  serves : backend = (t.server r.backendServerId).getD target
  named : normalizeFqdn target.dnsName ≠ []
  address : isIdentity r target backend = true → hostIpForDns backend.toServer ≠ []

/-- A server of the record's name is the one the record is pushed for: as a host's own, with that server's address. -/
def PushFits (t : Tables) (r : ServiceDnsRecord) : Prop :=
  ∀ target backend, Pushed t r target backend → ∀ s, NamedHost t (normalizeFqdn r.fqdn) s →
    isIdentity r target backend = true ∧ hostIpForDns backend.toServer = hostIpForDns s.toServer

/-- The save of a host pushes its entry. -/
def HostUpdate.Pushes (u : HostUpdate) (s : Server) : Prop :=
  ((u.write s).dnsManageA = true ∨ u.name ≠ [] ∧ u.syncNow = true ∧ ¬ (s.dnsManageA = true ∧ normalizeFqdn s.dnsName ≠ [])) ∧
    normalizeFqdn u.name ≠ [] ∧ hostIpForDns (u.write s).toServer ≠ []

def Fits (t : Tables) : DnsCall → Prop
  | .updateServerDns u => ∀ s, t.server u.serverId = some s → u.check t = none → u.Pushes s →
      ∀ o, NamedHost t (normalizeFqdn u.name) o → o.key ≠ u.serverId → hostIpForDns (u.write s).toServer = hostIpForDns o.toServer
  | .upsertServiceRecord u => ∀ target backend row, u.check t.plane = .ok (target, backend, row) →
      u.syncNow = true → u.managedOnPihole = true → PushFits t (upsertRow u target backend)
  | .syncServiceDns id => ∀ r, t.record id = some r → PushFits t r
  | _ => True

/-! ## One call -/

section calls
variable {t t' : Tables} {answers : Bool}

theorem Rightful.congr (h : t'.servers = t.servers) (x : Write) : Rightful t' x ↔ Rightful t x := by
  have hnamed : ∀ n s, NamedHost t' n s ↔ NamedHost t n s := fun n s => by unfold NamedHost; rw [h]
  rcases x with (e | e) | (e | e) <;> simp only [Rightful, hnamed]

theorem syncServiceDns_servers (r : ServiceDnsRecord) : (syncServiceDns answers t r).tables.servers = t.servers := by
  unfold syncServiceDns
  split
  · rfl
  · simp only
    split
    · rfl
    · split
      · split <;> rfl
      · rfl

/-- What a push sends is rightful exactly where the push fits. -/
theorem sync_rightful_iff (r : ServiceDnsRecord) : (∀ x ∈ (syncServiceDns answers t r).writes, Rightful t x) ↔ PushFits t r := by
  unfold syncServiceDns
  cases htarget : t.server r.targetServerId with
  | none =>
    refine iff_of_true (List.forall_mem_nil _) fun target backend hpush => ?_
    rw [hpush.found] at htarget
    cases htarget
  | some target =>
    obtain ⟨backend, hbackend⟩ : ∃ backend, (t.server r.backendServerId).getD target = backend := ⟨_, rfl⟩
    have honly : ∀ {target' backend'}, Pushed t r target' backend' → target' = target ∧ backend' = backend := by
      intro target' backend' hpush
      have hsame := Option.some.inj (hpush.found.symm.trans htarget)
      exact ⟨hsame, by rw [hpush.serves, hsame, hbackend]⟩
    simp only [hbackend]
    by_cases hname : normalizeFqdn target.dnsName = []
    · rw [if_pos hname]
      exact iff_of_true (List.forall_mem_nil _) fun _ _ hpush => absurd ((honly hpush).1 ▸ hname) hpush.named
    · rw [if_neg hname]
      by_cases hid : isIdentity r target backend = true
      · rw [if_pos hid]
        by_cases hip : hostIpForDns backend.toServer = []
        · rw [if_pos hip]
          refine iff_of_true (List.forall_mem_nil _) fun target' backend' hpush => ?_
          obtain ⟨rfl, rfl⟩ := honly hpush
          exact absurd hip (hpush.address hid)
        · rw [if_neg hip]
          simp only [List.mem_singleton, forall_eq, Rightful]
          constructor
          · intro h target' backend' hpush s hs
            obtain ⟨rfl, rfl⟩ := honly hpush
            exact ⟨hid, h s hs⟩
          · exact fun h s hs => (h target backend ⟨htarget, hbackend.symm, hname, fun _ => hip⟩ s hs).2
      · rw [if_neg hid]
        simp only [List.mem_singleton, forall_eq, Rightful]
        constructor
        · intro h target' backend' hpush s hs
          exact absurd hs (h s)
        · exact fun h s hs => hid (h target backend ⟨htarget, hbackend.symm, hname, fun hid' => absurd hid' hid⟩ s hs).1

theorem mem_syncHostA {s : Server} {e : Str × Str} : Write.host (.add e) ∈ (syncHostA answers s).2 ↔
    normalizeFqdn s.dnsName ≠ [] ∧ hostIpForDns s.toServer ≠ [] ∧ e = (hostIpForDns s.toServer, normalizeFqdn s.dnsName) := by
  unfold syncHostA
  simp only
  by_cases hname : normalizeFqdn s.dnsName = []
  · rw [if_pos hname]
    exact iff_of_false List.not_mem_nil fun h => h.1 hname
  · rw [if_neg hname, and_iff_right hname]
    by_cases hip : hostIpForDns s.toServer = []
    · rw [if_pos hip]
      exact iff_of_false List.not_mem_nil fun h => h.1 hip
    · rw [if_neg hip, and_iff_right hip, List.mem_singleton, Write.host.injEq, Edit.add.injEq]

/-- What a save adds: the entry of the row as it is, where it manages it, or where it is asked to and drops none. -/
theorem hostEdits_add {syncNow : Bool} {old new : Server} {e : Str × Str} (hmanage : new.dnsManageA = true → new.dnsName ≠ []) :
    Write.host (.add e) ∈ (hostEdits answers syncNow old new).2 ↔
      (new.dnsManageA = true ∨ new.dnsName ≠ [] ∧ syncNow = true ∧ ¬ (old.dnsManageA = true ∧ normalizeFqdn old.dnsName ≠ [])) ∧
        normalizeFqdn new.dnsName ≠ [] ∧ hostIpForDns new.toServer ≠ [] ∧ e = (hostIpForDns new.toServer, normalizeFqdn new.dnsName) := by
  rcases @hostEdits_cases answers syncNow old new hmanage with ⟨hnew, hold, hname, heq⟩ | ⟨-, hip, heq⟩ | ⟨hnew, -, heq⟩ |
    ⟨-, hold, hname, hnow, heq⟩ | ⟨hnew, hold, hnow, heq⟩ <;> rw [heq]
  · dsimp only
    refine iff_of_false (fun h => nomatch removeHostA_deletes _ h) fun h => ?_
    rcases h.1 with hmanaged | ⟨-, -, hno⟩
    · rw [hnew] at hmanaged
      cases hmanaged
    · exact hno ⟨hold, hname⟩
  · exact iff_of_false List.not_mem_nil fun h => h.2.2.1 hip
  · rw [List.mem_append, mem_syncHostA, and_iff_right (Or.inl hnew)]
    refine or_iff_right fun h => ?_
    split at h
    · exact nomatch List.mem_singleton.1 h
    · exact List.not_mem_nil h
  · rw [mem_syncHostA, and_iff_right (Or.inr ⟨hname, hnow, hold⟩)]
  · refine iff_of_false List.not_mem_nil fun h => ?_
    rcases h.1 with hmanaged | ⟨hname, hnow', -⟩
    · rw [hnew] at hmanaged
      cases hmanaged
    · exact hnow ⟨hname, hnow'⟩

/-- The servers of a name once one is written. -/
theorem namedHost_writeServer {id : Nat} {s : Server} {f : Server → Server} {hf : ∀ s, (f s).key = s.key} (hs : t.server id = some s) {n : Str} {o : Server} :
    NamedHost (t.writeServer id f hf) n o ↔
      o = f s ∧ normalizeFqdn o.dnsName ≠ [] ∧ normalizeFqdn o.dnsName = n ∨ o.key ≠ id ∧ NamedHost t n o := by
  obtain ⟨hmem, hkey⟩ := Tables.server_mem hs
  unfold NamedHost
  rw [show o ∈ (t.writeServer id f hf).servers.rows ↔ _ from Keyed.mem_modify hf]
  constructor
  · rintro ⟨⟨r, hr, rfl⟩, hname⟩
    by_cases hid : r.key = id
    · rw [if_pos hid] at hname ⊢
      exact .inl ⟨by rw [t.servers.eq_of_key hr hmem (hid.trans hkey.symm)], hname⟩
    · rw [if_neg hid] at hname ⊢
      exact .inr ⟨hid, hr, hname⟩
  · rintro (⟨rfl, hname⟩ | ⟨hid, hr, hname⟩)
    · exact ⟨⟨s, hmem, (if_pos hkey).symm⟩, hname⟩
    · exact ⟨⟨o, hr, (if_neg hid).symm⟩, hname⟩

theorem update_rightful_iff (u : HostUpdate) : CallRightful (updateServerDns answers t u) ↔ Fits t (.updateServerDns u) := by
  unfold CallRightful Fits updateServerDns
  cases hs : t.server u.serverId with
  | none => exact iff_of_true (fun _ h => (nomatch h)) fun _ h => by rw [hs] at h; cases h
  | some s =>
    cases hcheck : u.check t with
    | some message => exact iff_of_true (fun _ h => (nomatch h)) fun _ _ h => by rw [hcheck] at h; cases h
    | none =>
      have hmanage : (u.write s).dnsManageA = true → (u.write s).dnsName ≠ [] := fun h => bne_iff_ne.1 (Bool.and_eq_true _ _ ▸ h).2
      have hadds : ∀ e, Write.host (.add e) ∈ (hostEdits answers u.syncNow s (u.write s)).2 ↔
          u.Pushes s ∧ e = (hostIpForDns (u.write s).toServer, normalizeFqdn u.name) := fun e => by
        rw [hostEdits_add hmanage]
        unfold HostUpdate.Pushes
        simp only [and_assoc, show (u.write s).dnsName = u.name from rfl]
      constructor
      · intro h s' hs' _ hpush o ho hother
        obtain rfl := Option.some.inj (hs.symm.trans hs')
        have hadded := h _ ((hadds _).2 ⟨hpush, rfl⟩)
        simp only [Rightful] at hadded
        exact hadded o ((namedHost_writeServer hs).2 (.inr ⟨hother, ho⟩))
      · intro h x hx
        dsimp only at hx
        obtain ⟨e, rfl⟩ := hostEdits_hosts hmanage x hx
        cases e with
        | delete e => trivial
        | add e =>
          obtain ⟨hpush, rfl⟩ := (hadds e).1 hx
          intro o ho
          dsimp only at ho ⊢
          rcases (namedHost_writeServer hs).1 ho with ⟨rfl, -⟩ | ⟨hother, ho⟩
          · rfl
          · exact h s hs hcheck hpush o ho hother

/-- A push reads the servers, and of the row all but its id. -/
theorem PushFits.congr {r : ServiceDnsRecord} (h : t'.servers = t.servers) (id : Nat) : PushFits t' { r with id := id } ↔ PushFits t r := by
  have hserver : ∀ i, t'.server i = t.server i := fun i => by unfold Tables.server; rw [h]
  have hnamed : ∀ n s, NamedHost t' n s ↔ NamedHost t n s := fun n s => by unfold NamedHost; rw [h]
  have hpushed : ∀ target backend, Pushed t' { r with id := id } target backend ↔ Pushed t r target backend := fun target backend =>
    ⟨fun p => ⟨hserver _ ▸ p.found, hserver _ ▸ p.serves, p.named, p.address⟩, fun p => ⟨(hserver _).trans p.found, (hserver _).symm ▸ p.serves, p.named, p.address⟩⟩
  exact forall_congr' fun target => forall_congr' fun backend => imp_congr (hpushed target backend) (forall_congr' fun s => imp_congr (hnamed _ s) Iff.rfl)

theorem upsert_rightful_iff (u : Upsert) : CallRightful (upsertServiceRecord answers t u) ↔ Fits t (.upsertServiceRecord u) := by
  simp only [CallRightful, Fits]
  cases hcheck : u.check t.plane with
  | error message =>
    rw [upsert_error hcheck]
    exact iff_of_true (fun _ h => nomatch h) fun _ _ _ h => nomatch h
  | ok found =>
    obtain ⟨target, backend, row⟩ := found
    have honly : (∀ target' backend' row', (.ok (target, backend, row) : Except Str _) = .ok (target', backend', row') →
        u.syncNow = true → u.managedOnPihole = true → PushFits t (upsertRow u target' backend')) ↔
        (u.syncNow = true → u.managedOnPihole = true → PushFits t (upsertRow u target backend)) :=
      ⟨fun h => h _ _ _ rfl, fun h _ _ _ heq => by cases heq; exact h⟩
    rw [honly, upsert_ok hcheck]
    by_cases hsync : (u.syncNow && u.managedOnPihole) = true
    · rw [if_pos hsync]
      rw [Bool.and_eq_true] at hsync
      have hsame := @syncServiceDns_servers (t.commit u target backend row) answers (committedRow u target backend (t.rowId row))
      have hsent : _ ↔ PushFits t (upsertRow u target backend) :=
        (@sync_rightful_iff (t.commit u target backend row) answers (committedRow u target backend (t.rowId row))).trans
          (@PushFits.congr t (t.commit u target backend row) (upsertRow u target backend) rfl _)
      simp only [hsync.1, hsync.2, forall_const, List.mem_append, or_imp, forall_and, Rightful.congr hsame]
      rw [hsent]
      refine and_iff_right fun x hx => ?_
      split at hx
      · obtain rfl := List.mem_singleton.1 hx
        trivial
      · cases hx
    · rw [if_neg hsync]
      refine iff_of_true (fun _ h => nomatch h) fun hnow hmanaged => ?_
      rw [hnow, hmanaged] at hsync
      exact absurd rfl hsync

/-- **One call** is rightful exactly where it fits. -/
theorem call_rightful_iff (e : DnsCall) : CallRightful (e.run answers t) ↔ Fits t e := by
  cases e with
  | updateServerDns u =>
    simp only [DnsCall.run]
    exact update_rightful_iff u
  | upsertServiceRecord u =>
    simp only [DnsCall.run]
    exact upsert_rightful_iff u
  | linkServiceProject id project direct =>
    refine iff_of_true ?_ trivial
    simp only [DnsCall.run, CallRightful]
    cases t.record id with
    | none => exact fun _ h => nomatch h
    | some r =>
      rw [Option.elim_some, linkServiceProject_writes]
      exact fun _ h => nomatch h
  | syncServiceDns id =>
    simp only [DnsCall.run, Fits]
    cases hr : t.record id with
    | none => exact iff_of_true (fun _ h => (nomatch h)) fun _ h => nomatch h
    | some r =>
      simp only [Option.elim_some, Option.some.injEq, forall_eq']
      rw [← @sync_rightful_iff _ answers]
      exact forall_congr' fun x => imp_congr_right fun _ => Rightful.congr (syncServiceDns_servers r) x
  | deleteServiceRecord id remove =>
    refine iff_of_true ?_ trivial
    simp only [DnsCall.run, CallRightful]
    cases t.record id with
    | none => exact fun _ h => nomatch h
    | some r =>
      intro x hx
      simp only [Option.elim_some, deleteServiceRecord] at hx
      split at hx
      · obtain rfl := List.mem_singleton.1 hx
        trivial
      · cases hx

end calls

/-- **No service record hijacks a host's name** in exactly those runs whose every call fits: a record that is pushed under
a server's name is that host's own, and its backend has that server's address. -/
theorem no_hijack_iff (t : Tables) (es : List (DnsCall × Bool)) : NoHijack t es ↔ Guarded turn (fun t e => Fits t e.1) t es := by
  rw [guarded_iff]
  exact forall_congr' fun pre => forall_congr' fun e => forall_congr' fun post => imp_congr_right fun _ => call_rightful_iff e.1

/-- A record under a third host's name becomes a CNAME of that name. -/
theorem cname_of_third_host : ¬ NoHijack threeHosts [(.upsertServiceRecord (pathRecord (lit "nas.lan") 1 2 true true), true)] := by
  intro h
  have hpushed := h [] _ [] rfl (.cname (.add (lit "nas.lan", lit "edge.lan"))) (by decide)
  exact hpushed { id := 3, name := lit "nas", dnsName := lit "nas.lan", ipAddress := lit "10.0.0.3" } ⟨by decide, by decide, by decide⟩

end PiHerder.Dns
