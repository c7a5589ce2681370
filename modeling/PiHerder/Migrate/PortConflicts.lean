import Mathlib
import PiHerder.Docker.Ports
import PiHerder.Lib.Dict
import PiHerder.Migrate.Preflight

/-!
# The ports of a Move and its preflight (`service_migrate/preflight.py`)

| here | there |
| --- | --- |
| `containerHostNetwork`, `parsePortToken`, `exposedPorts` | 536–569 |
| `hostNetworkPorts`, `publishedPorts` | `_host_network_ports` (581–594), `_published_ports` (635–655) |
| `liveDestPorts`, `runningContainers`, `leftoverContainers` | 124–154 |
| `DestView.ports`, `DestView.blocks` | what `run_preflight` reads of the destination (773–845) |
| `placedPort`, `portBlocks` | the loop over `src_ports` (999–1065), over `mapped_host_port` |

The check of the map compares the destinations it names with each other, and the rows are compared with the
destination. A port that the map leaves where it is is compared with neither: another port can be mapped onto it.
-/
namespace PiHerder.Migrate
open Lib Lib.Str

/-! ## The source -/

/-- A container of the inventory with what it publishes. -/
structure ServiceContainer extends Container where
  portsDisplay : Str := []
  ports : Docker.PortsField := .absent
  networkMode : Str := []
  networks : List Str := []
  exposedPorts : List Str := []

def containerHostNetwork (c : ServiceContainer) : Bool :=
  lower (strip c.networkMode) == lit "host" || c.networks.any fun n => lower (strip n) == lit "host"

/-- A port and its protocol, which is `tcp` where none is written. -/
def parsePortToken (raw : Str) : Option (Str × Str) :=
  let s := lower (strip raw)
  let port := if '/' ∈ s then strip (s.reverse.dropWhile (· != '/')).tail.reverse else s
  let proto := if '/' ∈ s then strip (basename s) else []
  if isdigit port then some (port, if proto = [] then lit "tcp" else proto) else none

def exposedPorts (c : ServiceContainer) : List (Str × Str) := c.exposedPorts.filterMap parsePortToken

/-- The ports `docker ps` shows for a container. -/
def shownPorts (c : ServiceContainer) : List (Str × Str) := Docker.portsUsed ⟨c.portsDisplay, c.ports, c.placeholder⟩

def hostNetworkPorts (row : List ServiceContainer) : List (Str × Str) :=
  (row.filter fun c => !c.placeholder && containerHostNetwork c).flatMap fun c => shownPorts c ++ exposedPorts c

def publishedPorts (row : List ServiceContainer) : List (Str × Str) :=
  ((row.filter fun c => !c.placeholder).flatMap fun c =>
    shownPorts c ++ if containerHostNetwork c then exposedPorts c else []).eraseDups

/-! ## The destination -/

/-- An entry of a list of ports that a probe gives. -/
inductive PortItem
  | pair (host proto : Str)
  | text (s : Str)
  | other

def PortItem.read : PortItem → Option (Str × Str)
  | .pair host proto => some (strip host, strip (if proto = [] then lit "tcp" else proto))
  | .text s => if '/' ∈ s then some (strip (s.reverse.dropWhile (· != '/')).tail.reverse, strip (basename s)) else none
  | .other => none

def liveDestPorts (items : List PortItem) : List (Str × Str) :=
  ((items.filterMap PortItem.read).map fun p => (p.1, if p.2 = [] then lit "tcp" else p.2)).filter fun p => decide (p.1 ≠ [])

/-- What `probe_dest_occupancy` gives. -/
structure Occupancy where
  error : Str := []
  nonempty : Bool := false
  files : List Str := []
  containers : List Str := []
  ports : List PortItem := []
  projectPorts : List PortItem := []
  listenPorts : List PortItem := []

def liveDestStates : List Str := ["running", "restarting", "paused"].map lit

def destContainerState (line : Str) : Str := lower ((split ' ' (strip line)).getLast?.getD [])

def runningContainers (occ : Occupancy) : List Str :=
  (occ.containers.map strip).filter fun raw => decide (raw ≠ [] ∧ destContainerState raw ∈ liveDestStates)

def leftoverContainers (occ : Occupancy) : List Str := occ.containers.filter fun x => decide (strip x ≠ [])

/-- How the destination is looked at: over SSH, or in the stored inventory with the names of its projects. -/
inductive DestView
  | live (occ : Occupancy)
  | stored (inv : Docker.PortInventory) (projects : List Str)

/-- `dest_ports`. What leftovers of the project hold is not in use: the Move removes them. -/
def DestView.ports : DestView → List (Str × Str)
  | .stored inv _ => Docker.destUsedPorts inv
  | .live occ =>
    if occ.error ≠ [] then []
    else
      let used := liveDestPorts occ.ports ++ liveDestPorts occ.listenPorts
      if leftoverContainers occ ≠ [] ∧ runningContainers occ = [] then
        used.filter fun p => decide (p ∉ liveDestPorts occ.projectPorts)
      else used

def DestView.blocks (destName : Str) : DestView → List Str
  | .stored _ projects => if destName ∈ projects then [lit "dest_project_exists:" ++ destName] else []
  | .live occ =>
    if occ.error ≠ [] then [lit "dest_live_failed:" ++ occ.error]
    else if runningContainers occ ≠ [] then [lit "dest_project_exists:" ++ destName]
    else []

/-! ## The rows -/

/-- What the map has for a published port. -/
def mappedTo (portMap : PortMap) (p : Str × Str) : Option Nat :=
  (Proto.parse (lower p.2)).bind fun proto => portMap.get? ⟨int p.1, proto⟩

/-- `mapped_host_port`, for any protocol. -/
def placedPort (portMap : PortMap) (p : Str × Str) : Str := ofNat ((mappedTo portMap p).getD (int p.1))

def portName (p : Str × Str) : Str := p.1 ++ '/' :: p.2

/-- `host_network_remap` and `port_clash`. -/
def portBlocks (portMap : PortMap) (row : List ServiceContainer) (destPorts : List (Str × Str)) : List Str :=
  let rows := publishedPorts row
  let remapped := rows.filter fun p => decide (p ∈ hostNetworkPorts row ∧ placedPort portMap p ≠ p.1)
  let clashes := rows.filter fun p => decide ((placedPort portMap p, p.2) ∈ destPorts)
  (if remapped ≠ [] then [lit "host_network_remap:" ++ join ',' (remapped.map portName)] else []) ++
    if clashes ≠ [] then [lit "port_clash:" ++ join ',' (clashes.map fun p => portName (placedPort portMap p, p.2))] else []

/-- A Move with the source's containers and the view of the destination. -/
structure PortMove extends PreflightInput where
  row : Option (List ServiceContainer)
  dest : DestView

/-- The map that counts. -/
def PortMove.ports (i : PortMove) : PortMap := (validatePortMap i.portMap).1

def PortMove.published (i : PortMove) : List (Str × Str) := publishedPorts (i.row.getD [])

/-- `run_preflight` with its checks of the destination and of the ports. The mounts are those of the same containers. -/
def PortMove.preflight (i : PortMove) : Preflight :=
  runPreflight { i.toPreflightInput with
    containers := i.row.map fun cs => cs.map (·.toContainer)
    otherBlocks := i.otherBlocks ++ i.dest.blocks (normalizeDestProject i.project i.destProject).1 ++
      portBlocks i.ports (i.row.getD []) i.dest.ports }

/-! ## The law -/

/-- Where a published port will be on the destination. -/
def placed (portMap : PortMap) (p : Str × Str) : Str × Str := (placedPort portMap p, p.2)

/-- **No port conflict**: the ports of the project are apart, and none is in use. -/
structure NoPortConflict (i : PortMove) : Prop where
  apart : (i.published.map (placed i.ports)).Nodup
  free : ∀ p ∈ i.published, placed i.ports p ∉ i.dest.ports

/-- No published port is written twice in different ways, and no port is mapped onto one that stays where it is. -/
structure PortsApart (portMap : PortMap) (published : List (Str × Str)) : Prop where
  once : ∀ p ∈ published, ∀ q ∈ published, p.2 = q.2 → int p.1 = int q.1 → p = q
  clear : ∀ p ∈ published, ∀ q ∈ published, p.2 = q.2 → mappedTo portMap q = none → mappedTo portMap p ≠ some (int q.1)

/-! ## What an ok says -/

theorem portBlocks_of_ok {i : PortMove} (h : i.preflight.ok = true) : portBlocks i.ports (i.row.getD []) i.dest.ports = [] := by
  have hblocks := of_decide_eq_true h
  unfold PortMove.preflight runPreflight at hblocks
  simp only [List.append_eq_nil_iff] at hblocks
  exact hblocks.1.1.2.2

theorem notMem_of_portBlocks {portMap : PortMap} {row : List ServiceContainer} {destPorts : List (Str × Str)}
    (h : portBlocks portMap row destPorts = []) : ∀ p ∈ publishedPorts row, placed portMap p ∉ destPorts := by
  intro p hp hused
  unfold portBlocks at h
  simp only [List.append_eq_nil_iff] at h
  have hclash : p ∈ (publishedPorts row).filter fun p => decide ((placedPort portMap p, p.2) ∈ destPorts) :=
    List.mem_filter.2 ⟨hp, decide_eq_true hused⟩
  have := h.2
  rw [if_pos (List.ne_nil_of_mem hclash)] at this
  cases this

theorem publishedPorts_nodup (row : List ServiceContainer) : (publishedPorts row).Nodup := nodup_eraseDups _

/-- Two ports of one protocol that the map places at one port are one port, or one is mapped onto the other. -/
theorem placed_inj {portMap : PortMap} (hinj : portMap.Injective) {p q : Str × Str} (h : placed portMap p = placed portMap q)
    (hp : mappedTo portMap p ≠ none) (hq : mappedTo portMap q ≠ none) : int p.1 = int q.1 := by
  obtain ⟨hport, hproto⟩ := Prod.mk.inj h
  obtain ⟨v, hv⟩ := Option.ne_none_iff_exists'.1 hp
  obtain ⟨w, hw⟩ := Option.ne_none_iff_exists'.1 hq
  have hvw : v = w := by
    have := congrArg int hport
    rwa [placedPort, placedPort, int_ofNat, int_ofNat, hv, hw] at this
  subst hvw
  unfold mappedTo at hv hw
  rw [hproto] at hv
  obtain ⟨proto, hparse, hget⟩ := Option.bind_eq_some_iff.1 hv
  rw [hparse, Option.bind_some] at hw
  exact congrArg PortKey.host (hinj _ _ v hget hw rfl)

/-- **The ports of the project are apart** on the destination iff they are written once each and none is mapped onto
one that stays. -/
theorem nodup_placed_iff {portMap : PortMap} (hinj : portMap.Injective) {published : List (Str × Str)} (hn : published.Nodup) :
    (published.map (placed portMap)).Nodup ↔ PortsApart portMap published := by
  have hsame : ∀ {p q : Str × Str}, placed portMap p = placed portMap q ↔
      (mappedTo portMap p).getD (int p.1) = (mappedTo portMap q).getD (int q.1) ∧ p.2 = q.2 := by
    intro p q
    unfold placed placedPort
    rw [Prod.mk.injEq]
    refine and_congr_left fun _ => ⟨fun h => ?_, congrArg ofNat⟩
    have := congrArg int h
    rwa [int_ofNat, int_ofNat] at this
  rw [List.nodup_map_iff_inj_on hn]
  constructor
  · intro h
    refine ⟨fun p hp q hq hproto hint => h p hp q hq (hsame.2 ⟨?_, hproto⟩), fun p hp q hq hproto hstay hdest => ?_⟩
    · have : mappedTo portMap p = mappedTo portMap q := by
        unfold mappedTo
        rw [hproto, hint]
      rw [this, hint]
    · have := h p hp q hq (hsame.2 ⟨by rw [hdest, hstay, Option.getD_some, Option.getD_none], hproto⟩)
      rw [this, hstay] at hdest
      cases hdest
  · intro h p hp q hq heq
    obtain ⟨hport, hproto⟩ := hsame.1 heq
    cases hmp : mappedTo portMap p with
    | none =>
      cases hmq : mappedTo portMap q with
      | none =>
        rw [hmp, hmq] at hport
        exact h.once p hp q hq hproto hport
      | some dest =>
        rw [hmp, hmq] at hport
        exact absurd (hmq.trans (congrArg some hport.symm)) (h.clear q hq p hp hproto.symm hmp)
    | some dest =>
      cases hmq : mappedTo portMap q with
      | none =>
        rw [hmp, hmq] at hport
        exact absurd (hmp.trans (congrArg some hport)) (h.clear p hp q hq hproto hmq)
      | some dest' =>
        exact h.once p hp q hq hproto (placed_inj hinj heq (by simp [hmp]) (by simp [hmq]))

/-! ## The result -/

/-- **A preflight that is ok leaves no port conflict** iff the published ports are written once each and none is mapped
onto one that stays. -/
theorem preflight_ports_iff (i : PortMove) (h : i.preflight.ok = true) : NoPortConflict i ↔ PortsApart i.ports i.published := by
  refine Iff.trans ?_ (nodup_placed_iff (validatePortMap_injective i.portMap) (publishedPorts_nodup (i.row.getD [])))
  exact ⟨fun hno => hno.apart, fun hn => ⟨hn, notMem_of_portBlocks (portBlocks_of_ok h)⟩⟩

/-- A web server on 8080 and 9090. -/
def webRow : List ServiceContainer := [{ portsDisplay := lit "0.0.0.0:8080->80/tcp, 0.0.0.0:9090->90/tcp" }]

/-- The web server with its map, on a destination that has nothing. -/
def webMove (portMap : Dict Str Str) : PortMove where
  project := lit "web"
  destProject := none
  portMap := portMap
  srcBase := lit "/srv/docker"
  dstBase := lit "/srv/docker"
  containers := none
  row := some webRow
  dest := .live {}

theorem both_moved : NoPortConflict (webMove [(lit "8080/tcp", lit "9090"), (lit "9090/tcp", lit "9091")]) := by
  have hpub : (webMove [(lit "8080/tcp", lit "9090"), (lit "9090/tcp", lit "9091")]).published =
      [(lit "8080", lit "tcp"), (lit "9090", lit "tcp")] := by decide +kernel
  refine (preflight_ports_iff _ (by decide +kernel)).2 ⟨?_, ?_⟩
  · rw [hpub]
    decide +kernel
  · rw [hpub]
    decide +kernel

/-- **Mapped onto a port that stays.** -/
theorem mapped_onto_unmapped :
    (webMove [(lit "8080/tcp", lit "9090")]).preflight.ok = true ∧ ¬ NoPortConflict (webMove [(lit "8080/tcp", lit "9090")]) := by
  refine ⟨by decide +kernel, fun h => ?_⟩
  have := h.apart
  exact absurd this (by decide +kernel)

end PiHerder.Migrate
