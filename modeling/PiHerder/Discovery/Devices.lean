import PiHerder.Lib.IpAddress
import PiHerder.Lib.Runs
import PiHerder.Lib.Table

/-!
# Discovered devices

The table `NmapDevice` and the calls that write it: scans, staleness sweeps and the operator's calls.

| here | there (`services/nmap/`) |
| --- | --- |
| `normMac`, `deviceIdentityKey`, `resolve`, `upsertHost`, `upsertHostsFromParse` | `upsert.py` (15–225) |
| `setDeviceMapIdentity`, `applyStaleDeviceStates`, `setDeviceState`, `markDeviceKnown`, `markDeviceNew`, `linkDevice`, `unlinkDevice`, `purgeDevice` | `device_ops.py` (161–552) |
| `scanInterval`, `nicPairs`, `replaceStaleMac` | `nic_change.py` (18–233) |

A `Session` has the rows as its queries see them and the rows that are committed; a call that raises leaves its writes
in the first ones, where the next commit of the session finds them. Notifications and audit rows are best effort after
the commit and read by none of these calls. An operator's call takes the id of the row it was given.
-/
namespace PiHerder.Discovery
open Lib Lib.Str Lib.Ip

/-! ## Rows -/

inductive DeviceState
  | new | known | linked | ignored | stale
deriving DecidableEq, Repr

def DeviceState.ofStr (s : Str) : Option DeviceState :=
  [(lit "new", DeviceState.new), (lit "known", .known), (lit "linked", .linked), (lit "ignored", .ignored), (lit "stale", .stale)].lookup s

/-- Microseconds. -/
abbrev Time := Int

def hour : Time := 3600000000
def day : Time := 24 * hour

structure ParsedPort where
  port : Nat
  protocol : Str
  state : Str
  service : Str := []
  product : Str := []
  version : Str := []
deriving DecidableEq, Repr

structure ParsedScript where
  scriptId : Str
  output : Str
  cveIds : List Str
  port : Option Nat
  protocol : Option Str
deriving DecidableEq, Repr

structure ParsedHost where
  ipAddress : Str
  hostname : Option Str := none
  macAddress : Option Str := none
  macVendor : Option Str := none
  status : Str := lit "up"
  osSummary : Option Str := none
  ports : List ParsedPort := []
  scripts : List ParsedScript := []
deriving DecidableEq, Repr

structure NmapDevice where
  id : Nat
  integrationId : Nat
  identityKey : Str
  ipAddress : Str
  hostname : Option Str := none
  displayName : Option Str := none
  kindOverride : Option Str := none
  mapRole : Option Str := none
  macAddress : Option Str := none
  macVendor : Option Str := none
  state : DeviceState := .new
  linkedServerId : Option Nat := none
  osSummary : Option Str := none
  ports : Option (List ParsedPort) := none
  lastSeenAt : Option Time
  firstSeenAt : Time
  lastRunId : Option Nat := none
  notes : Option Str := none
  updatedAt : Time
deriving DecidableEq, Repr

structure NmapScriptResult where
  deviceId : Nat
  runId : Option Nat
  scriptId : Str
  output : Option Str
  cveIds : Option (List Str)
  port : Option Nat
  protocol : Option Str
deriving DecidableEq, Repr

structure NmapScanSchedule where
  integrationId : Nat
  enabled : Bool
  intervalHours : Option Int
  cron : Option Str
deriving DecidableEq, Repr

structure Tables where
  devices : List NmapDevice := []
  scripts : List NmapScriptResult := []
  schedules : List NmapScanSchedule := []
  /-- The ids from here on were never given out. -/
  serial : Nat := 1
deriving DecidableEq, Repr

/-- The attributes of one row. -/
def Tables.put (t : Tables) (row : NmapDevice) : Tables :=
  { t with devices := t.devices.map fun d => if d.id = row.id then row else d }

/-- `session.get`. -/
def Tables.get (t : Tables) (id : Nat) : Option NmapDevice := Table.lookup NmapDevice.id id t.devices

/-- The text a column holds, empty for null. -/
def text (s : Option Str) : Str := s.getD []

/-- `s or None`. -/
def orNone (s : Str) : Option Str := if s = [] then none else some s

/-! ## Scans -/

/-- `":".join(s[i : i + 2] ...)`. -/
def octets : Str → Str
  | a :: b :: c :: rest => a :: b :: ':' :: octets (c :: rest)
  | s => s

def normMac (mac : Option Str) : Option Str :=
  if text mac = [] then none
  else
    let s := upper ((text mac).filter isHexDigit)
    if s.length ≠ 12 then orNone (upper (strip (text mac))) else some (octets s)

def deviceIdentityKey (mac : Option Str) (ip : Str) : Str :=
  match normMac mac with
  | some m => lit "mac:" ++ m
  | none => lit "ip:" ++ strip ip

/-- What a query without an order returns first. -/
structure FirstRow (R : Type) where
  first : List R → Option R
  first_mem : ∀ {l r}, first l = some r → r ∈ l
  first_isSome : ∀ {l}, l ≠ [] → (first l).isSome

/-- In the order of the table. -/
def FirstRow.head (R : Type) : FirstRow R where
  first := List.head?
  first_mem := List.mem_of_head?
  first_isSome := fun h => by rw [List.isSome_head?]; simpa using h

/-- The values a host is resolved by. -/
def ParsedHost.ip (h : ParsedHost) : Str := strip h.ipAddress
def ParsedHost.mac (h : ParsedHost) : Option Str := normMac h.macAddress
def ParsedHost.key (h : ParsedHost) : Str := deviceIdentityKey h.mac h.ip

/-- Down hosts are skipped by default, and so is a host without an address. -/
def ParsedHost.skipped (onlyUp : Bool) (h : ParsedHost) : Bool :=
  (onlyUp && lower h.status == lit "down") || h.ip == []

/-- The row of a host, with the columns that are written while it is searched. -/
def resolve (q : FirstRow NmapDevice) (integrationId : Nat) (t : Tables) (h : ParsedHost) : Option NmapDevice :=
  match q.first (t.devices.filter fun d => d.integrationId = integrationId && d.identityKey = h.key) with
  | some row => some row
  | none =>
    match h.mac with
    | none => none
    | some mac =>
      match q.first (t.devices.filter fun d => d.integrationId = integrationId && d.macAddress = some mac) with
      | some byMac => some { byMac with identityKey := h.key }
      | none =>
        match q.first (t.devices.filter fun d => d.integrationId = integrationId && d.ipAddress = h.ip && d.state ≠ .ignored) with
        | some byIp => if text byIp.macAddress = [] then some { byIp with identityKey := h.key, macAddress := some mac } else none
        | none => none

/-- One call's arguments. -/
structure Scan where
  integrationId : Nat
  hosts : List ParsedHost
  runId : Option Nat
  onlyUp : Bool
  now : Time
  query : FirstRow NmapDevice

structure Counts where
  created : Nat := 0
  updated : Nat := 0
  skipped : Nat := 0
  scriptsWritten : Nat := 0
deriving DecidableEq, Repr

def vendor (h : ParsedHost) : Option Str := orNone ((strip (text h.macVendor)).take 128)

def portsPayload (h : ParsedHost) : List ParsedPort := h.ports.take 512

def newDevice (scan : Scan) (t : Tables) (h : ParsedHost) : NmapDevice where
  id := t.serial
  integrationId := scan.integrationId
  identityKey := h.key
  ipAddress := h.ip
  hostname := h.hostname
  macAddress := h.mac
  macVendor := vendor h
  osSummary := h.osSummary
  ports := if h.ports = [] then none else some (portsPayload h)
  lastSeenAt := some scan.now
  firstSeenAt := scan.now
  lastRunId := scan.runId
  updatedAt := scan.now

/-- Where a scan takes the state of a row it sees; `ignored` rows are not reached. -/
def DeviceState.seen : DeviceState → DeviceState
  | .stale => .known
  | s => s

/-- The row of a host that was seen again. -/
def refresh (scan : Scan) (h : ParsedHost) (d : NmapDevice) : NmapDevice :=
  { d with
    ipAddress := h.ip
    hostname := if text h.hostname = [] then d.hostname else h.hostname
    macAddress := if h.mac = none then d.macAddress else h.mac
    identityKey := if h.mac = none then d.identityKey else h.key
    macVendor := if vendor h = none then d.macVendor else vendor h
    osSummary := if text h.osSummary = [] then d.osSummary else h.osSummary
    ports := if h.ports = [] then d.ports else some (portsPayload h)
    lastSeenAt := some scan.now
    lastRunId := scan.runId
    updatedAt := scan.now
    state := d.state.seen }

def scriptResult (runId : Option Nat) (deviceId : Nat) (sc : ParsedScript) : NmapScriptResult where
  deviceId := deviceId
  runId := runId
  scriptId := sc.scriptId.take 128
  output := orNone (sc.output.take 50000)
  cveIds := if sc.cveIds = [] then none else some sc.cveIds
  port := sc.port
  protocol :=
    if sc.port.isSome then some ((if text sc.protocol = [] then lit "tcp" else text sc.protocol).take 16)
    else if text sc.protocol = [] then none
    else some ((text sc.protocol).take 16)

/-- The results of this run replace those it wrote before. -/
def writeScripts (scan : Scan) (deviceId : Nat) (h : ParsedHost) (t : Tables) : Tables :=
  if h.scripts = [] then t
  else
    { t with
      scripts := (if scan.runId.isSome then t.scripts.filter fun s => !(s.deviceId == deviceId && s.runId == scan.runId) else t.scripts)
        ++ h.scripts.map (scriptResult scan.runId deviceId) }

/-- The columns written while the row was searched stay written when it turns out to be ignored. -/
def upsertHost (scan : Scan) (acc : Counts × Tables) (h : ParsedHost) : Counts × Tables :=
  let (n, t) := acc
  if h.skipped scan.onlyUp then ({ n with skipped := n.skipped + 1 }, t)
  else
    match resolve scan.query scan.integrationId t h with
    | none =>
      ({ n with created := n.created + 1, scriptsWritten := n.scriptsWritten + h.scripts.length },
        writeScripts scan t.serial h { t with devices := t.devices ++ [newDevice scan t h], serial := t.serial + 1 })
    | some existing =>
      if existing.state = .ignored then ({ n with skipped := n.skipped + 1 }, t.put existing)
      else
        ({ n with updated := n.updated + 1, scriptsWritten := n.scriptsWritten + h.scripts.length },
          writeScripts scan existing.id h (t.put (refresh scan h existing)))

/-- The hosts of a report, in turn. -/
def upsertHosts (scan : Scan) (t : Tables) (hosts : List ParsedHost) : Counts × Tables :=
  hosts.foldl (upsertHost scan) ({}, t)

/-! ## The session -/

structure Session where
  /-- As the queries of the session see them. -/
  live : Tables := {}
  committed : Tables := {}
  /-- The setting `network_gateway_ip`, kept outside the database. -/
  networkGatewayIp : Str := []
deriving DecidableEq, Repr

def Session.commit (s : Session) : Session := { s with committed := s.live }

/-- The session ends, or is rolled back. -/
def Session.close (s : Session) : Session := { s with live := s.committed }

/-- Writes every row. -/
def Session.writeAll (s : Session) (f : NmapDevice → NmapDevice) : Session :=
  { s with live := { s.live with devices := s.live.devices.map f } }

/-- Writes one row, if it is there. -/
def Session.write (s : Session) (id : Nat) (f : NmapDevice → NmapDevice) : Session :=
  s.writeAll fun d => if d.id = id then f d else d

/-- What a call raises, and what it leaves. -/
abbrev Outcome := Option Str × Session

def upsertHostsFromParse (scan : Scan) (s : Session) : Outcome :=
  (none, Session.commit { s with live := (upsertHosts scan s.live scan.hosts).2 })

/-! ## Staleness -/

def staleAfterDays : Int := 14

/-- `max(1, min(365, int(days or STALE_AFTER_DAYS)))`. -/
def clampDays (days : Int) : Int := max 1 (min 365 (if days = 0 then staleAfterDays else days))

structure Sweep where
  days : Int
  integrationId : Option Nat
  /-- The two readings of the clock. -/
  now : Time
  updated : Time

/-- A row that the sweep marks. -/
def Sweep.takes (w : Sweep) (d : NmapDevice) : Bool :=
  (d.state == .new || d.state == .known)
    && d.lastSeenAt.any (fun seen => decide (seen < w.now - clampDays w.days * day))
    && w.integrationId.all (fun i => d.integrationId == i)

def Sweep.mark (w : Sweep) (d : NmapDevice) : NmapDevice :=
  if w.takes d then { d with state := .stale, updatedAt := w.updated } else d

/-- Nothing is committed when no row is marked. -/
def applyStaleDeviceStates (w : Sweep) (s : Session) : Outcome :=
  let marked := s.writeAll w.mark
  (none, if s.live.devices.any w.takes then marked.commit else marked)

/-! ## The operator's calls -/

def linkedServerIdRequired : Str := lit "linked_server_id required for linked state"

/-- The state is written before the server is asked for. -/
def setDeviceState (now : Time) (id : Nat) (state : Str) (linkedServerId : Option Nat) (s : Session) : Outcome :=
  match DeviceState.ofStr state with
  | none => (some (lit "invalid state " ++ state), s)
  | some .linked =>
    match linkedServerId.filter (· ≠ 0) with
    | none => (some linkedServerIdRequired, s.write id fun d => { d with state := .linked })
    | some server =>
      (none, (s.write id fun d => { d with state := .linked, linkedServerId := some server, updatedAt := now }).commit)
  | some state => (none, (s.write id fun d => { d with state, linkedServerId := none, updatedAt := now }).commit)

/-- The state of the row that an operator's call is given. -/
def Session.stateOf (s : Session) (id : Nat) : Option DeviceState := (s.live.get id).map NmapDevice.state

def markDeviceKnown (now : Time) (id : Nat) (s : Session) : Outcome :=
  if s.stateOf id = some .linked then (none, s) else setDeviceState now id (lit "known") none s

def markDeviceNew (now : Time) (id : Nat) (s : Session) : Outcome :=
  if s.stateOf id = some .linked then (some (lit "unlink before marking new"), s) else setDeviceState now id (lit "new") none s

/-- The callers look the server up first. -/
def linkDevice (now : Time) (id serverId : Nat) (s : Session) : Outcome :=
  (none, (s.write id fun d => { d with state := .linked, linkedServerId := some serverId, updatedAt := now }).commit)

def unlinkDevice (now : Time) (id : Nat) (s : Session) : Outcome :=
  (none, (s.write id fun d => { d with state := .known, linkedServerId := none, updatedAt := now }).commit)

def mapRoleGateway : Str := lit "gateway"

/-- `(raw or "").strip().lower().replace("-", "_").replace(" ", "_")`. -/
def folded (raw : Option Str) : Str := (lower (strip (text raw))).map fun c => if c = '-' ∨ c = ' ' then '_' else c

def validKinds : List Str :=
  [lit "unknown", lit "raspberry_pi", lit "server", lit "windows", lit "nas", lit "printer", lit "router", lit "access_point",
    lit "phone", lit "tv", lit "camera", lit "iot", lit "media", lit "network"]

def kindAliases : List (Str × Str) :=
  [(lit "pi", lit "raspberry_pi"), (lit "raspberry", lit "raspberry_pi"), (lit "rpi", lit "raspberry_pi"), (lit "gateway", lit "router"),
    (lit "ap", lit "access_point"), (lit "wifi", lit "access_point"), (lit "pc", lit "windows"), (lit "host", lit "server")]

def normalizeKindOverride (raw : Option Str) : Option Str :=
  let val := folded raw
  if val = [] ∨ val ∈ [lit "auto", lit "none", lit "default"] then none
  else
    match kindAliases.lookup val with
    | some kind => some kind
    | none => if val ∈ validKinds then some val else none

/-- `gateway` is the only role. -/
def normalizeMapRole (raw : Option Str) : Option Str :=
  if folded raw ∈ [lit "router", lit "gw", lit "lan_gateway", mapRoleGateway] then some mapRoleGateway else none

structure MapIdentity where
  displayName : Option Str
  kindOverride : Option Str
  mapRole : Option Str
  syncNetworkGateway : Bool
  markKnown : Bool
  now : Time

/-- Runs of blanks become one, and the name is cut. -/
def MapIdentity.name (m : MapIdentity) (d : NmapDevice) : Option Str :=
  orNone ((join ' ' (words (text (m.displayName <|> d.displayName)))).take 128)

def MapIdentity.write (m : MapIdentity) (d : NmapDevice) : NmapDevice :=
  { d with
    displayName := m.name d
    kindOverride := normalizeKindOverride m.kindOverride
    mapRole := normalizeMapRole m.mapRole
    state := if m.markKnown && (d.state == .new || d.state == .stale) then .known else d.state
    updatedAt := m.now }

def MapIdentity.isGateway (m : MapIdentity) : Bool := normalizeMapRole m.mapRole == some mapRoleGateway

/-- There is one gateway: the role is taken from every other row. -/
def MapIdentity.clear (m : MapIdentity) (id : Nat) (d : NmapDevice) : NmapDevice :=
  if m.isGateway && d.mapRole == some mapRoleGateway && d.id != id then { d with mapRole := none, updatedAt := m.now } else d

/-- The setting is written before the row is committed. -/
def setDeviceMapIdentity (m : MapIdentity) (id : Nat) (s : Session) : Outcome :=
  let ip := ((s.live.get id).map fun d => strip d.ipAddress).getD []
  let synced := if m.isGateway && m.syncNetworkGateway && ip != [] then { s with networkGatewayIp := ip } else s
  (none, ((synced.writeAll (m.clear id)).write id m.write).commit)

/-- The script results go with the row. -/
def purgeDevice (id : Nat) (s : Session) : Outcome :=
  (none, Session.commit { s with
    live := { s.live with
      devices := s.live.devices.filter fun d => d.id != id
      scripts := s.live.scripts.filter fun r => r.deviceId != id } })

/-! ## A new network card -/

/-- The shortest enabled schedule, a day without one; `cronGap` is the time between the next two firings. -/
def scanInterval (cronGap : Str → Option Time) (integrationId : Nat) (t : Tables) : Time :=
  let gap (row : NmapScanSchedule) : Option Time :=
    if 0 < row.intervalHours.getD 0 then some (row.intervalHours.getD 0 * hour)
    else if strip (text row.cron) = [] then none
    else (cronGap (strip (text row.cron))).filter (0 < ·)
  (((t.schedules.filter fun row => row.integrationId = integrationId && row.enabled).filterMap gap).min?).getD day

def hostIp (d : NmapDevice) : Option (Str × Str) :=
  let host := lower (strip (text d.hostname))
  let ip := strip d.ipAddress
  if host = [] ∨ ip = [] then none else some (host, ip)

def macOf (d : NmapDevice) : Str := upper (strip (text d.macAddress))

def nicPairs (cronGap : Str → Option Time) (now : Time) (integrationId : Nat) (t : Tables) : List (NmapDevice × NmapDevice) :=
  let cutoff := now - scanInterval cronGap integrationId t
  let recent (d : NmapDevice) : Bool := d.lastSeenAt.any (fun seen => decide (cutoff ≤ seen))
  let rows := t.devices.filter fun d => d.integrationId = integrationId && d.state ≠ .ignored
  (rows.filterMap hostIp).eraseDups.flatMap fun key =>
    let group := rows.filter fun d => hostIp d = some key
    (group.filter recent).flatMap fun newer =>
      if macOf newer = [] then []
      else ((group.filter (!recent ·)).filter fun older => older.id ≠ newer.id ∧ macOf older ≠ macOf newer).map (newer, ·)

structure NicChange where
  integrationId : Nat
  newDeviceId : Nat
  staleDeviceId : Nat
  cronGap : Str → Option Time
  now : Time

/-- The custom fields that the stale row has go onto the new one. -/
def takeFields (older : NmapDevice) (now : Time) (newer : NmapDevice) : NmapDevice :=
  { newer with
    displayName := if strip (text older.displayName) = [] then newer.displayName else older.displayName
    kindOverride := if strip (text older.kindOverride) = [] then newer.kindOverride else older.kindOverride
    notes := if strip (text older.notes) = [] then newer.notes else older.notes
    updatedAt := now }

def replaceStaleMac (c : NicChange) (s : Session) : Outcome :=
  match s.live.get c.newDeviceId, s.live.get c.staleDeviceId with
  | some newer, some older =>
    if newer.integrationId ≠ c.integrationId ∨ older.integrationId ≠ c.integrationId then (some (lit "missing"), s)
    else if (nicPairs c.cronGap c.now c.integrationId s.live).any fun p => p.1.id = newer.id && p.2.id = older.id then
      setDeviceState c.now c.staleDeviceId (lit "ignored") none (s.write c.newDeviceId (takeFields older c.now))
    else (some (lit "not_a_nic_change"), s)
  | _, _ => (some (lit "missing"), s)

/-! ## Calls -/

inductive Call
  | scan (scan : Scan)
  | sweep (sweep : Sweep)
  | setState (now : Time) (id : Nat) (state : Str) (linkedServerId : Option Nat)
  | markKnown (now : Time) (id : Nat)
  | markNew (now : Time) (id : Nat)
  | mapIdentity (identity : MapIdentity) (id : Nat)
  | link (now : Time) (id serverId : Nat)
  | unlink (now : Time) (id : Nat)
  | replaceStaleMac (change : NicChange)
  | purge (id : Nat)
  /-- A commit of the session by its owner, after a call that raised. -/
  | commit
  /-- The session ends without a commit. -/
  | close

def Call.outcome : Call → Session → Outcome
  | .scan c, s => upsertHostsFromParse c s
  | .sweep w, s => applyStaleDeviceStates w s
  | .setState now id state server, s => setDeviceState now id state server s
  | .markKnown now id, s => markDeviceKnown now id s
  | .markNew now id, s => markDeviceNew now id s
  | .mapIdentity m id, s => setDeviceMapIdentity m id s
  | .link now id server, s => linkDevice now id server s
  | .unlink now id, s => unlinkDevice now id s
  | .replaceStaleMac c, s => Discovery.replaceStaleMac c s
  | .purge id, s => purgeDevice id s
  | .commit, s => (none, s.commit)
  | .close, s => (none, s.close)

def step (s : Session) (c : Call) : Session := (c.outcome s).2

end PiHerder.Discovery
