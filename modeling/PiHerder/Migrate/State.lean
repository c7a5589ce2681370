import PiHerder.Lib.Eff
import PiHerder.Lib.Table
import PiHerder.Migrate.Names

/-!
# The control plane a Move rewrites

Rows of `models.py` with the columns that cutover, rebind and undo read or write, the NPM proxy hosts
they PUT, and the queries of `service_migrate/preflight.py` over them. A nullable text column is `[]`
for NULL. Timestamps and the Pi-hole sync status of a record are left out.

What lies outside PiHerder (an NPM or Pi-hole answering or not) is a sequence of replies: `net n` is the
answer to the `n`-th question of a run, and `asked` counts them.
-/
namespace PiHerder.Migrate
open Lib Lib.Str

/-! ## Rows -/

structure Server where
  id : Nat
  name : Str
  dnsName : Str := []
  ipAddress : Str := []
  hostname : Str := []
  dnsIpOverride : Str := []
deriving DecidableEq, Repr

inductive RecordType
  | cname | a
deriving DecidableEq, Repr

structure ServiceDnsRecord where
  id : Nat
  fqdn : Str
  recordType : RecordType := .cname
  targetServerId : Nat
  backendServerId : Nat
  stackDeploymentId : Option Nat := none
  dockerProject : Str := []
  label : Str := []
  managedOnPihole : Bool := true
  viaProxy : Bool := false
  npmHint : Str := []
  certificateId : Option Nat := none
  externalDnsStatus : Str := lit "checklist"
  notes : Str := []
deriving DecidableEq, Repr

inductive Role
  | service | dashboard | proxyHost | other (name : Str)
deriving DecidableEq, Repr

inductive GrafanaKind
  | metrics | containers | logs
deriving DecidableEq, Repr

structure IntegrationBinding where
  id : Nat
  integrationId : Nat
  serverId : Nat
  role : Role
  dockerProject : Str := []
  dockerContainer : Str := []
  externalId : Str
  externalLabel : Str := []
  metaKind : Option GrafanaKind := none
deriving DecidableEq, Repr

/-- `binding_grafana_kind` (registry.py:757) of a row: the kind its meta names, else the docker columns. -/
def bindingGrafanaKind (b : IntegrationBinding) : GrafanaKind :=
  match b.metaKind with
  | some k => k
  | none => if strip b.dockerProject ≠ [] ∨ strip b.dockerContainer ≠ [] then .containers else .metrics

/-- A proxy host as the last poll stored it. -/
structure CachedHost where
  id : Str
  domains : List Str
  forwardPort : Option Nat
deriving DecidableEq, Repr

/-- A proxy host as NPM has it. -/
structure ProxyHost where
  id : Str
  domains : List Str
  forwardHost : Str
  forwardPort : Nat
deriving DecidableEq, Repr

/-- An `Integration` of type NPM: the host name in its base URL, the cached list of the last poll, and
the proxy hosts of the instance behind it. -/
structure NpmIntegration where
  id : Nat
  name : Str
  enabled : Bool := true
  baseHost : Str
  cached : List CachedHost
  live : List ProxyHost
deriving DecidableEq, Repr

structure StackDeployment where
  id : Nat
  serverId : Nat
  projectName : Str
deriving DecidableEq, Repr

structure VisualServiceStack where
  id : Nat
  serverId : Nat
  composeProject : Str
deriving DecidableEq, Repr

structure ContainerAnnotation where
  id : Nat
  serverId : Nat
  composeProject : Str
deriving DecidableEq, Repr

structure PortAnnotation where
  id : Nat
  serverId : Option Nat
  ownerProject : Str := []
deriving DecidableEq, Repr

structure RuntimeEdge where
  id : Nat
  fromServerId : Nat
  fromProject : Str
  toServerId : Nat
  toProject : Str
deriving DecidableEq, Repr

/-- The columns a certificate target's clone copies. -/
structure TargetSettings where
  label : Str := []
  remoteDir : Str := lit "~/certs"
  layout : Str := lit "pair"
  writeMode : Str := lit "direct"
  fullchainFilename : Str := lit "fullchain.pem"
  privkeyFilename : Str := lit "privkey.pem"
  combinedFilename : Str := lit "snakeoil.pem"
  pfxFilename : Str := lit "Certificate.pfx"
  fileMode : Str := lit "600"
  fileOwner : Str := []
  fileGroup : Str := []
  pfxExportPasswordEncrypted : Str := []
  postDeployCommand : Str := []
  verifyUrl : Str := []
  enabled : Bool := true
deriving DecidableEq, Repr

structure CertificateTarget where
  id : Nat
  certificateId : Nat
  serverId : Nat
  settings : TargetSettings := {}
deriving DecidableEq, Repr

abbrev RecordTable := Keyed ServiceDnsRecord Nat ServiceDnsRecord.id

structure Plane where
  servers : List Server
  records : RecordTable
  npm : List NpmIntegration := []
  bindings : List IntegrationBinding := []
  deployments : List StackDeployment := []
  visualStacks : List VisualServiceStack := []
  annotations : List ContainerAnnotation := []
  ports : List PortAnnotation := []
  edges : List RuntimeEdge := []
  certTargets : List CertificateTarget := []
  asked : Nat := 0
deriving DecidableEq

/-! ## Scopes -/

/-- A row's host and project, as one pair of columns. -/
def StackDeployment.scope : Lens StackDeployment (Nat × Str) where
  get r := (r.serverId, r.projectName)
  set s r := { r with serverId := s.1, projectName := s.2 }
  get_set _ _ := rfl
  set_get _ := rfl
  set_set _ _ _ := rfl

def VisualServiceStack.scope : Lens VisualServiceStack (Nat × Str) where
  get r := (r.serverId, r.composeProject)
  set s r := { r with serverId := s.1, composeProject := s.2 }
  get_set _ _ := rfl
  set_get _ := rfl
  set_set _ _ _ := rfl

def ContainerAnnotation.scope : Lens ContainerAnnotation (Nat × Str) where
  get r := (r.serverId, r.composeProject)
  set s r := { r with serverId := s.1, composeProject := s.2 }
  get_set _ _ := rfl
  set_get _ := rfl
  set_set _ _ _ := rfl

def PortAnnotation.scope : Lens PortAnnotation (Option Nat × Str) where
  get r := (r.serverId, r.ownerProject)
  set s r := { r with serverId := s.1, ownerProject := s.2 }
  get_set _ _ := rfl
  set_get _ := rfl
  set_set _ _ _ := rfl

/-- The two ends of an edge. -/
def RuntimeEdge.fromEnd : Lens RuntimeEdge (Nat × Str) where
  get r := (r.fromServerId, r.fromProject)
  set s r := { r with fromServerId := s.1, fromProject := s.2 }
  get_set _ _ := rfl
  set_get _ := rfl
  set_set _ _ _ := rfl

def RuntimeEdge.toEnd : Lens RuntimeEdge (Nat × Str) where
  get r := (r.toServerId, r.toProject)
  set s r := { r with toServerId := s.1, toProject := s.2 }
  get_set _ _ := rfl
  set_get _ := rfl
  set_set _ _ _ := rfl

/-! ## Queries -/

/-- `normalize_fqdn` (dns_fabric/core.py:51). -/
def normalizeFqdn (value : Str) : Str := rstrip '.' (lower (strip value))

/-- `is_host_identity_name` (dns_fabric/core.py:1894). -/
def isHostIdentityName (fqdn : Str) (server : Server) : Bool :=
  decide (fqdn ≠ []) && decide (normalizeFqdn server.dnsName ≠ []) &&
    decide (normalizeFqdn server.dnsName = normalizeFqdn fqdn)

/-- `session.get(Server, sid)`. -/
def Plane.server (w : Plane) (sid : Nat) : Option Server := Table.lookup Server.id sid w.servers

/-- A record of project `project` on host `host`. -/
def ServiceDnsRecord.onHost (r : ServiceDnsRecord) (host : Nat) (project : Str) : Bool :=
  decide (r.backendServerId = host) && decide (r.dockerProject = project)

/-- `_dns_rows` (preflight.py:201): the project's records on the source, then those on the destination,
which a cutover that stopped half way has already moved. -/
def Plane.dnsRows (w : Plane) (sourceId : Nat) (project : Str) (destId : Option Nat) : List ServiceDnsRecord :=
  w.records.rows.filter (·.onHost sourceId project) ++
    match destId with
    | some d => if d ≠ sourceId then w.records.rows.filter (·.onHost d project) else []
    | none => []

/-- The enabled NPM integrations. -/
def Plane.enabledNpm (w : Plane) : List NpmIntegration := w.npm.filter (·.enabled)

/-- `npm_edge_fqdns` (preflight.py:232). -/
def Plane.npmEdgeFqdns (w : Plane) : List Str :=
  (w.enabledNpm.map fun i => normalizeFqdn i.baseHost).filter (· ≠ [])

/-- The proxy-host bindings of a project, on any host. -/
def Plane.proxyBindings (w : Plane) (project : Str) : List IntegrationBinding :=
  w.bindings.filter fun b => decide (b.role = .proxyHost) && decide (b.dockerProject = project)

/-- `npm_edge_server` (preflight.py:249). -/
def Plane.npmEdgeServer (w : Plane) : Option Server :=
  let edges := w.npmEdgeFqdns
  if edges = [] then none
  else
    (w.records.rows.filter fun r => decide (normalizeFqdn r.fqdn ∈ edges)).findSome? (fun r =>
        w.server (if r.backendServerId ≠ 0 then r.backendServerId else r.targetServerId))
      <|> (w.bindings.filter fun b => decide (b.role = .proxyHost) && decide (normalizeFqdn b.externalLabel ∈ edges)).findSome?
        (fun b => w.server b.serverId)

/-- `is_npm_edge_project` (preflight.py:274) with its `rows`. -/
def Plane.isNpmEdgeProject (w : Plane) (serverId : Nat) (project : Str) (rows : List ServiceDnsRecord) : Bool :=
  let edges := w.npmEdgeFqdns
  rows.any (fun r => decide (normalizeFqdn r.fqdn ∈ edges)) ||
    (w.proxyBindings project).any fun b =>
      decide (b.serverId = serverId) && decide (normalizeFqdn b.externalLabel ∈ edges)

/-- `npm_edge_dependents` (preflight.py:300): is this one of them? -/
def isEdgeDependent (sourceId destId : Nat) (skipIds : List Nat) (r : ServiceDnsRecord) : Bool :=
  r.viaProxy && (decide (r.targetServerId = sourceId) || decide (r.targetServerId = destId)) &&
    decide (r.id ∉ skipIds)

/-- `_npm_hosts_cached` (preflight.py:327). -/
def Plane.npmHostsCached (w : Plane) : List CachedHost := w.enabledNpm.flatMap (·.cached)

/-- `_match_npm` (preflight.py:346). -/
def matchNpm (hosts : List CachedHost) (fqdn : Str) : Option CachedHost :=
  if normalizeFqdn fqdn = [] then none
  else hosts.find? fun h => h.domains.any fun d => decide (normalizeFqdn d = normalizeFqdn fqdn)

/-- `_match_npm_id` (preflight.py:361). -/
def matchNpmId (hosts : List CachedHost) (hostId : Str) : Option CachedHost :=
  if strip hostId = [] then none
  else hosts.find? fun h => decide (strip h.id = strip hostId)

/-- An entry of `npm_proxy_hosts_for_project`. -/
structure BoundHost where
  fqdn : Str
  npmId : Str
  forwardPort : Option Nat
deriving DecidableEq, Repr

/-- The cached host a proxy-host binding stands for: by its label, else by its id. -/
def matchBinding (hosts : List CachedHost) (b : IntegrationBinding) : Option CachedHost :=
  matchNpm hosts (strip b.externalLabel) <|> matchNpmId hosts b.externalId

/-- The names and the host id of one binding, before names seen twice are dropped. -/
def boundHosts (hosts : List CachedHost) (b : IntegrationBinding) : List BoundHost :=
  let label := strip b.externalLabel
  let found := matchBinding hosts b
  let domains := match found with
    | some h => (h.domains.map strip).filter (· ≠ [])
    | none => []
  let domains := if label ≠ [] ∧ domains = [] then [label] else domains
  let npmId := match found with
    | some h => if h.id ≠ [] then h.id else strip b.externalId
    | none => strip b.externalId
  domains.map fun d => ⟨d, npmId, found.bind (·.forwardPort)⟩

/-- Keep the first entry of every name (`seen`). -/
def dedupeBound (seen : List Str) : List BoundHost → List BoundHost
  | [] => []
  | e :: es =>
    let key := rstrip '.' (lower e.fqdn)
    if key = [] ∨ key ∈ seen then dedupeBound seen es else e :: dedupeBound (key :: seen) es

/-- `npm_proxy_hosts_for_project` (preflight.py:372): by project alone, whatever host the binding is on. -/
def Plane.npmProxyHostsForProject (w : Plane) (project : Str) : List BoundHost :=
  dedupeBound [] ((w.proxyBindings project).flatMap (boundHosts w.npmHostsCached))

/-- `dest_forward_host` (cutover.py:41). -/
def destForwardHost (dest : Server) : Str :=
  if strip dest.ipAddress ≠ [] then strip dest.ipAddress
  else if strip dest.hostname ≠ [] then strip dest.hostname
  else strip dest.dnsName

/-! ## The outside -/

/-- The answer to a question put to NPM or Pi-hole: it worked, or the text of the failure. -/
abbrev Reply := Except Str Unit

inductive MoveFailure
  | hostLock (message : Str)
  | cutover (message : Str)
  | dnsFabric (message : Str)
deriving DecidableEq, Repr

abbrev PlaneM := Eff Plane MoveFailure

/-- Put the next question to the outside. -/
def ask (net : Nat → Reply) : PlaneM Reply := fun w => (.ok (net w.asked), { w with asked := w.asked + 1 })

end PiHerder.Migrate
