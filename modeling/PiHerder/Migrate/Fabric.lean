import PiHerder.Migrate.State

/-!
# Writing the DNS fabric and NPM

`upsert_service_record` with its Pi-hole sync (`dns_fabric/core.py:1423`), and `_put_npm_backend` over
`retarget_proxy_host_backend` (`service_migrate/cutover.py:95`, `integrations/npm.py:253`). Each comes
with the one thing it changes: a record row, a proxy host.
-/
namespace PiHerder.Migrate
open Lib Lib.Str

/-! ## `upsert_service_record` -/

/-- One label of `_FQDN_RE`. -/
def isFqdnLabel (s : Str) : Bool :=
  decide (s ≠ []) && decide (s.length ≤ 63) && s.all (fun c => c.isAlphanum || c == '-') &&
    decide (s.head? ≠ some '-') && decide (s.getLast? ≠ some '-')

/-- `is_valid_fqdn` (core.py:56). -/
def isValidFqdn (value : Str) : Bool :=
  let s := normalizeFqdn value
  decide (s ≠ []) && decide (s.length ≤ 253) && decide ('.' ∈ s) && (split '.' s).all isFqdnLabel

/-- `is_valid_ipv4` (core.py:66). -/
def isValidIpv4 (value : Str) : Bool :=
  let parts := split '.' (strip value)
  decide (parts.length = 4) && parts.all fun p => isdigit p && decide (p.length ≤ 3) && decide (int p ≤ 255)

/-- `host_ip_for_dns` (core.py:70). -/
def hostIpForDns (s : Server) : Str :=
  (([s.dnsIpOverride, s.ipAddress, s.hostname].map strip).find? isValidIpv4).getD []

/-- The arguments of `upsert_service_record`. -/
structure Upsert where
  fqdn : Str
  targetServerId : Nat
  backendServerId : Nat
  stackDeploymentId : Option Nat := none
  dockerProject : Str
  label : Str
  managedOnPihole : Bool
  viaProxy : Bool
  npmHint : Str
  certificateId : Option Nat
  externalDnsStatus : Str
  notes : Str
  recordId : Option Nat := none
  syncNow : Bool

/-- The columns the call writes. A name that is the host name of its backend or target becomes that
host's A record: the target follows the backend and the row is no longer proxied. -/
def Upsert.write (u : Upsert) (target backend : Server) (r : ServiceDnsRecord) : ServiceDnsRecord :=
  let name := normalizeFqdn u.fqdn
  let hostIdentity := isHostIdentityName name backend || isHostIdentityName name target
  { r with
    fqdn := name
    recordType := if hostIdentity then .a else .cname
    targetServerId := if hostIdentity then backend.id else u.targetServerId
    backendServerId := u.backendServerId
    stackDeploymentId := u.stackDeploymentId
    dockerProject := strip u.dockerProject
    label := strip u.label
    managedOnPihole := u.managedOnPihole
    viaProxy := u.viaProxy && !hostIdentity
    npmHint := strip u.npmHint
    certificateId := u.certificateId
    externalDnsStatus := if strip u.externalDnsStatus ≠ [] then strip u.externalDnsStatus else lit "checklist"
    notes := u.notes }

/-- The checks: both servers, a DNS name on the target, and a name no other record has. The answer is
the row to write, `none` for a new one. -/
def Upsert.check (u : Upsert) (w : Plane) : Except Str (Server × Server × Option Nat) :=
  let name := normalizeFqdn u.fqdn
  if ¬ isValidFqdn name then .error (lit "Invalid service FQDN: " ++ u.fqdn)
  else match w.server u.targetServerId, w.server u.backendServerId with
  | some target, some backend =>
    if normalizeFqdn target.dnsName = [] then
      .error (lit "Target host " ++ target.name ++ lit " needs a DNS name first")
    else
      let existing := w.records.rows.find? fun r => decide (r.fqdn = name)
      match u.recordId with
      | some rid =>
        if existing.any (fun r => decide (r.id ≠ rid)) then .error (lit "FQDN " ++ name ++ lit " already registered")
        else if (w.records.rows.any fun r => decide (r.id = rid)) then .ok (target, backend, some rid)
        else .error (lit "Record not found")
      | none => .ok (target, backend, existing.map (·.id))
  | _, _ => .error (lit "Target or backend server not found")

/-- A row of the table that is not there yet. -/
def Upsert.newRow (u : Upsert) (target backend : Server) (w : Plane) : ServiceDnsRecord :=
  u.write target backend
    { id := freshId (w.records.rows.map (·.id)), fqdn := normalizeFqdn u.fqdn, targetServerId := 0, backendServerId := 0 }

/-- `session.add(row); session.commit()`. -/
def Upsert.commit (u : Upsert) (target backend : Server) (row : Option Nat) (w : Plane) : Plane :=
  match row with
  | some rid => { w with records := w.records.modify rid (u.write target backend) fun _ => rfl }
  | none => { w with records := w.records.insert (u.newRow target backend w) (freshId_not_mem _) }

/-- `sync_service_dns` (core.py:1550): it raises for a host name without an address, and when no
Pi-hole took the record. -/
def syncServiceDns (net : Nat → Reply) (hostIdentity : Bool) (backend : Server) : PlaneM Unit :=
  if hostIdentity ∧ hostIpForDns backend = [] then
    Eff.raise (.dnsFabric (lit "Host identity needs an IP for the A record"))
  else do
    match ← ask net with
    | .ok () => pure ()
    | .error detail => Eff.raise (.dnsFabric (lit "Pi-hole DNS sync failed: " ++ detail))

/-- `upsert_service_record` (core.py:1423). -/
def upsertServiceRecord (net : Nat → Reply) (u : Upsert) : PlaneM Unit := do
  let w ← Eff.get
  match u.check w with
  | .error message => Eff.raise (.dnsFabric message)
  | .ok (target, backend, row) => do
    Eff.modify (u.commit target backend row)
    let name := normalizeFqdn u.fqdn
    if u.syncNow ∧ u.managedOnPihole then
      syncServiceDns net (isHostIdentityName name backend || isHostIdentityName name target) backend
    else pure ()

/-! ## `_put_npm_backend` -/

/-- `retarget_proxy_host_backend` (npm.py:253) on one instance: the forward host, and the port when
one is given; `none` when the instance has no such host. -/
def putLive (hostId newHost : Str) (port : Option Nat) (hosts : List ProxyHost) : Option (List ProxyHost) :=
  if hosts.any fun h => decide (h.id = hostId) then
    some (hosts.map fun h =>
      if h.id = hostId then { h with forwardHost := newHost, forwardPort := port.getD h.forwardPort } else h)
  else none

/-- The loop of `_put_npm_backend`: the first enabled integration that answers and has the host id.
`n` counts the questions, `lastErr` is the last failure. -/
def putNpm (net : Nat → Reply) (fqdn hostId newHost : Str) (port : Option Nat) :
    List NpmIntegration → Nat → Str → Except Str Unit × List NpmIntegration × Nat
  | [], n, lastErr => (.error lastErr, [], n)
  | i :: is, n, lastErr =>
    let next (n : Nat) (err : Str) : Except Str Unit × List NpmIntegration × Nat :=
      let r := putNpm net fqdn hostId newHost port is n err
      (r.1, i :: r.2.1, r.2.2)
    if ¬ i.enabled then next n lastErr
    else match net n with
    | .error detail => next (n + 1) ((i.name ++ lit ": " ++ detail).take 300)
    | .ok () =>
      if hostId = [] then next (n + 1) (fqdn ++ lit ": unmatched proxy host on " ++ i.name)
      else match putLive hostId newHost port i.live with
      | some live => (.ok (), { i with live := live } :: is, n + 1)
      | none => next (n + 1) ((i.name ++ lit ": NPM proxy host " ++ hostId ++ lit " not found").take 300)

/-- The host id of a PUT: the given one, else the one the cached lists have for the name. -/
def npmHostId (hosts : List CachedHost) (fqdn cachedId : Str) : Str :=
  if strip cachedId ≠ [] then strip cachedId
  else match matchNpm hosts fqdn with
    | some h => h.id
    | none => []

/-- `_put_npm_backend` (cutover.py:95); it returns the id of the host it wrote. -/
def putNpmBackend (net : Nat → Reply) (fqdn cachedId newHost : Str) (port : Option Nat) : PlaneM Str := fun w =>
  if w.enabledNpm = [] then (.error (.cutover (fqdn ++ lit ": no enabled NPM integration")), w)
  else
    let hostId := npmHostId w.npmHostsCached fqdn cachedId
    let r := putNpm net fqdn hostId newHost port w.npm w.asked (lit "no matching proxy host")
    let w' := { w with npm := r.2.1, asked := r.2.2 }
    match r.1 with
    | .ok () => (.ok hostId, w')
    | .error lastErr =>
      (.error (.cutover (lit "NPM backend retarget failed for " ++ fqdn ++ lit ": " ++ lastErr)), w')

/-! ## What they change -/

/-- The tables and caches that cutover never writes. -/
structure SameBase (w w' : Plane) : Prop where
  servers : w'.servers = w.servers
  bindings : w'.bindings = w.bindings
  deployments : w'.deployments = w.deployments
  visualStacks : w'.visualStacks = w.visualStacks
  annotations : w'.annotations = w.annotations
  ports : w'.ports = w.ports
  edges : w'.edges = w.edges
  certTargets : w'.certTargets = w.certTargets

theorem SameBase.refl (w : Plane) : SameBase w w := ⟨rfl, rfl, rfl, rfl, rfl, rfl, rfl, rfl⟩

/-- A call that passes its checks: the servers it names, and the row it is about. -/
theorem Upsert.check_ok {u : Upsert} {w : Plane} {target backend : Server} {row : Option Nat}
    (h : u.check w = .ok (target, backend, row)) :
    w.server u.targetServerId = some target ∧ w.server u.backendServerId = some backend ∧
      (∀ rid, u.recordId = some rid → row = some rid) ∧
      (u.recordId = none → row = (w.records.rows.find? fun r => decide (r.fqdn = normalizeFqdn u.fqdn)).map (·.id)) := by
  unfold Upsert.check at h
  simp only at h
  split at h
  · cases h
  · split at h
    · rename_i t b ht hb
      split at h
      · cases h
      · cases hrec : u.recordId with
        | some rid =>
          simp only [hrec] at h
          split at h
          · cases h
          · split at h <;> cases h
            exact ⟨ht, hb, fun _ e => e, nofun⟩
        | none =>
          simp only [hrec] at h
          cases h
          exact ⟨ht, hb, nofun, fun _ => rfl⟩
    · cases h

/-- The sync asks at most one question and writes nothing. -/
theorem syncServiceDns_spec (net : Nat → Reply) (hostIdentity : Bool) (backend : Server) (w : Plane) :
    ∃ n, (syncServiceDns net hostIdentity backend w).2 = { w with asked := n } := by
  unfold syncServiceDns
  split
  · exact ⟨w.asked, rfl⟩
  · rw [Eff.bind_apply]
    refine ⟨w.asked + 1, ?_⟩
    simp only [ask]
    cases net w.asked <;> rfl

/-- **What `upsert_service_record` does**: it refuses and writes nothing, or it commits one row, and
then returns or raises from the sync. -/
theorem upsert_spec (net : Nat → Reply) (u : Upsert) (w : Plane) :
    (∃ message, u.check w = .error message ∧
      upsertServiceRecord net u w = (.error (.dnsFabric message), w)) ∨
    (∃ target backend row n, u.check w = .ok (target, backend, row) ∧
      (upsertServiceRecord net u w).2 = { u.commit target backend row w with asked := n }) := by
  unfold upsertServiceRecord
  rw [Eff.bind_apply, Eff.get_apply]
  cases hc : u.check w with
  | error message => exact Or.inl ⟨message, rfl, by simp only [hc, Eff.raise_apply]⟩
  | ok t =>
    obtain ⟨target, backend, row⟩ := t
    refine Or.inr ⟨target, backend, row, ?_⟩
    simp only [hc, Eff.bind_apply, Eff.modify_apply]
    split
    · obtain ⟨n, hn⟩ := syncServiceDns_spec net
        (isHostIdentityName (normalizeFqdn u.fqdn) backend || isHostIdentityName (normalizeFqdn u.fqdn) target)
        backend (u.commit target backend row w)
      exact ⟨n, trivial, hn⟩
    · exact ⟨(u.commit target backend row w).asked, trivial, rfl⟩

/-- A proxy host after the PUTs: its own, or with another forward host and perhaps another port. -/
def PutHost (touched : Str → Prop) (h h' : ProxyHost) : Prop :=
  h' = h ∨ (touched h.id ∧ h'.id = h.id ∧ h'.domains = h.domains)

/-- The integrations after the PUTs: the live hosts one by one, and everything else as it was. -/
def PutIntegration (touched : Str → Prop) (i i' : NpmIntegration) : Prop :=
  { i' with live := i.live } = i ∧ List.Forall₂ (PutHost touched) i.live i'.live

def PutAll (touched : Str → Prop) (is is' : List NpmIntegration) : Prop :=
  List.Forall₂ (PutIntegration touched) is is'

theorem PutHost.trans {touched : Str → Prop} {a b c : ProxyHost} (h : PutHost touched a b) (h' : PutHost touched b c) :
    PutHost touched a c := by
  rcases h with rfl | ⟨ht, hid, hd⟩
  · exact h'
  · rcases h' with rfl | ⟨-, hid', hd'⟩
    · exact Or.inr ⟨ht, hid, hd⟩
    · exact Or.inr ⟨ht, hid'.trans hid, hd'.trans hd⟩

theorem PutIntegration.refl (touched : Str → Prop) (i : NpmIntegration) : PutIntegration touched i i :=
  ⟨rfl, List.forall₂_same.2 fun _ _ => Or.inl rfl⟩

theorem PutIntegration.trans {touched : Str → Prop} {a b c : NpmIntegration} (h : PutIntegration touched a b)
    (h' : PutIntegration touched b c) : PutIntegration touched a c := by
  refine ⟨?_, ?_⟩
  · have hb := h.1
    have hc := h'.1
    rw [← hb]
    cases a; cases b; cases c
    simp_all
  · exact forall₂_trans (r := PutHost touched) (fun _ _ _ hab hbc => hab.trans hbc) h.2 h'.2

theorem PutAll.refl (touched : Str → Prop) (is : List NpmIntegration) : PutAll touched is is :=
  List.forall₂_same.2 fun i _ => PutIntegration.refl touched i

theorem PutAll.trans {touched : Str → Prop} {as bs cs : List NpmIntegration} (h : PutAll touched as bs)
    (h' : PutAll touched bs cs) : PutAll touched as cs :=
  forall₂_trans (r := PutIntegration touched) (fun _ _ _ hab hbc => hab.trans hbc) h h'

/-- What writes live hosts only leaves the cached lists and the `enabled` flags alone. -/
theorem cached_of_same {r : NpmIntegration → NpmIntegration → Prop} (hr : ∀ i i', r i i' → { i' with live := i.live } = i)
    {is is' : List NpmIntegration} (h : List.Forall₂ r is is') :
    (is'.filter (·.enabled)).flatMap (·.cached) = (is.filter (·.enabled)).flatMap (·.cached) := by
  induction h with
  | nil => rfl
  | @cons i i' _ _ hi _ ih =>
    have henabled : i'.enabled = i.enabled := by rw [← hr i i' hi]
    have hcached : i'.cached = i.cached := by rw [← hr i i' hi]
    simp only [List.filter_cons, henabled]
    split
    · simp only [List.flatMap_cons, hcached, ih]
    · exact ih

theorem PutAll.cached {touched : Str → Prop} {is is' : List NpmIntegration} (h : PutAll touched is is') :
    (is'.filter (·.enabled)).flatMap (·.cached) = (is.filter (·.enabled)).flatMap (·.cached) :=
  cached_of_same (fun _ _ hi => hi.1) h

theorem putLive_forall₂ {touched : Str → Prop} {hostId newHost : Str} {port : Option Nat} {hosts live : List ProxyHost}
    (ht : touched hostId) (h : putLive hostId newHost port hosts = some live) :
    List.Forall₂ (PutHost touched) hosts live := by
  unfold putLive at h
  split at h
  · cases h
    rw [List.forall₂_map_right_iff, List.forall₂_same]
    intro host _
    by_cases hid : host.id = hostId
    · rw [if_pos hid]
      exact Or.inr ⟨hid ▸ ht, rfl, rfl⟩
    · rw [if_neg hid]
      exact Or.inl rfl
  · cases h

/-- The loop of `_put_npm_backend` writes the hosts of the requested id only. -/
theorem putNpm_putAll {touched : Str → Prop} {hostId : Str} (ht : touched hostId) (net : Nat → Reply)
    (fqdn newHost : Str) (port : Option Nat) (is : List NpmIntegration) :
    ∀ n lastErr, PutAll touched is (putNpm net fqdn hostId newHost port is n lastErr).2.1 := by
  induction is with
  | nil => intro n lastErr; exact .nil
  | cons i is ih =>
    intro n lastErr
    have hskip : ∀ n err, PutAll touched (i :: is) (i :: (putNpm net fqdn hostId newHost port is n err).2.1) :=
      fun n err => .cons (PutIntegration.refl touched i) (ih n err)
    unfold putNpm
    simp only
    split
    · exact hskip _ _
    · split
      · exact hskip _ _
      · split
        · exact hskip _ _
        · split
          · rename_i live hlive
            exact .cons ⟨rfl, putLive_forall₂ ht hlive⟩ (PutAll.refl touched is)
          · exact hskip _ _

/-- `_put_npm_backend`, whichever way it ends. -/
theorem putNpmBackend_spec {touched : Str → Prop} (net : Nat → Reply) (fqdn cachedId newHost : Str)
    (port : Option Nat) (w : Plane) (ht : touched (npmHostId w.npmHostsCached fqdn cachedId)) :
    ∃ is n, PutAll touched w.npm is ∧
      (putNpmBackend net fqdn cachedId newHost port w).2 = { w with npm := is, asked := n } := by
  unfold putNpmBackend
  split
  · exact ⟨w.npm, w.asked, PutAll.refl touched _, rfl⟩
  · have hput := putNpm_putAll ht net fqdn newHost port w.npm w.asked (lit "no matching proxy host")
    simp only
    generalize putNpm net fqdn (npmHostId w.npmHostsCached fqdn cachedId) newHost port w.npm w.asked
      (lit "no matching proxy host") = r at hput ⊢
    refine ⟨r.2.1, r.2.2, hput, ?_⟩
    cases r.1 <;> rfl

end PiHerder.Migrate
