import PiHerder.Lib.IpAddress

/-!
# What a LAN scan is told to scan

| here | there (`services/nmap/`) |
| --- | --- |
| `parseNetwork`, `validateCidrs`, `targetInScope`, `hostExcluded`, `filterTargets`, `nmapExcludeArgs`, `effectiveExcludes` | `allowlist.py` |
| `dumpNmapConfig`, `parseNmapConfig`, `parseCidrsTextarea` | `config.py` (22–80), `device_ops.py` (566–572) |
| `normalizePortMode`, `buildNmapArgv` | `options.py` (50–60), `argv.py` |
| `integrationCidrs`, `scriptArgsForPreset`, `streamed`, `runNmapScan` | `scan.py` (34–226, 233–520) |

A run gives the command lines that it executes: none where it fails before, and a second one where nmap refused a SYN
scan. The options of a run are those `parse_scan_options` returns; any are taken here.
-/
namespace PiHerder.Discovery
open Lib Lib.Str Lib.Ip

/-! ## Networks -/

/-- A network, or the address alone. -/
def readNetwork (s : Str) : Option Network :=
  if '/' ∈ s then ipNetwork s else (ipAddress s).bind fun addr => ipNetwork (addr.str ++ '/' :: ofNat addr.width)

def parseNetwork (raw : Str) : Option Network := if strip raw = [] then none else readNetwork (strip raw)

/-- What parses, as it is written, and what does not. -/
def validateCidrs (cidrs : List Str) : List Str × List Str :=
  let entries := (cidrs.map strip).filter (· ≠ [])
  (entries.filterMap fun s => (parseNetwork s).map Network.str, entries.filter fun s => (parseNetwork s).isNone)

/-- One allowed network and the target's own. -/
def withinNetwork (tgt al : Network) : Bool :=
  tgt.addr.isV6 == al.addr.isV6 && (tgt.subnetOf al || (tgt.numAddresses == 1 && al.contains tgt.addr))

def targetInScope (target : Str) (allowedCidrs : List Str) : Bool :=
  match parseNetwork target with
  | none => false
  | some tgt => (allowedCidrs.filterMap parseNetwork).any (withinNetwork tgt)

/-- A single address inside an excluded network; a larger target is left to nmap. -/
def hostExcluded (target : Str) (excludes : List Str) : Bool :=
  match parseNetwork target with
  | none => false
  | some tgt =>
    tgt.numAddresses == 1 && (excludes.filterMap parseNetwork).any fun ex => tgt.addr.isV6 == ex.addr.isV6 && ex.contains tgt.addr

def targetAllowed (target : Str) (allowedCidrs excludes : List Str) : Bool :=
  targetInScope target allowedCidrs && !hostExcluded target excludes

/-- The allowed ones; the others are only counted in the error. -/
def filterTargets (targets allowedCidrs excludes : List Str) : List Str :=
  ((targets.map strip).filter (· ≠ [])).filter fun s => targetAllowed s allowedCidrs excludes

/-- A single address goes without its prefix. -/
def excludeToken (net : Network) : Str := if net.numAddresses = 1 then net.addr.str else net.str

def nmapExcludeArgs (excludes : List Str) : List Str :=
  let parts := ((excludes.filterMap parseNetwork).map excludeToken).eraseDups
  if parts = [] then [] else [lit "--exclude", join ',' parts]

/-! ## Intensities -/

def intensities : List Str := [lit "discovery", lit "inventory", lit "detailed", lit "deep"]

/-- `(intensity or "discovery").strip().lower()`. -/
def normIntensity (intensity : Str) : Str := lower (strip (if intensity = [] then lit "discovery" else intensity))

/-- The entries that were not there yet. -/
def addEntries (out items : List Str) : List Str :=
  items.foldl (fun out raw => if strip raw = [] ∨ strip raw ∈ out then out else out ++ [strip raw]) out

def effectiveExcludes (always : List Str) (intensity : Str) (excludesPortScans excludesDeep : List Str) : List Str :=
  let intensity := normIntensity intensity
  let out := addEntries [] always
  let out := if intensity ∈ [lit "inventory", lit "detailed", lit "deep"] then addEntries out excludesPortScans else out
  if intensity = lit "deep" then addEntries out excludesDeep else out

/-! ## The configuration -/

structure NmapConfig where
  cidrs : List Str
  excludes : List Str
  excludesPortScans : List Str
  excludesDeep : List Str
  skipDns : Bool := false
  useSyn : Bool := false
  vulnEnabled : Bool := false
  notes : Str := []
deriving DecidableEq, Repr

/-- The list that has entries which do not parse, and these. -/
inductive ConfigError
  | cidrs (bad : List Str)
  | always (bad : List Str)
  | portScan (bad : List Str)
  | deep (bad : List Str)
deriving DecidableEq, Repr

def ConfigError.message (repr : Str → Str) : ConfigError → Str
  | .cidrs bad => errors bad
  | .always bad => lit "always exclude: " ++ errors bad
  | .portScan bad => lit "port-scan exclude: " ++ errors bad
  | .deep bad => lit "deep exclude: " ++ errors bad
where
  errors (bad : List Str) : Str := (lit "; ").intercalate (bad.map fun s => lit "invalid CIDR or IP: " ++ repr s)

/-- What `create_nmap` and `update_nmap` write. -/
def dumpNmapConfig (cfg : NmapConfig) : Except ConfigError NmapConfig :=
  let (ok, errs) := validateCidrs cfg.cidrs
  let (exOk, exErrs) := validateCidrs cfg.excludes
  let (exPort, exPortErrs) := validateCidrs cfg.excludesPortScans
  let (exDeep, exDeepErrs) := validateCidrs cfg.excludesDeep
  if errs ≠ [] then .error (.cidrs errs)
  else if exErrs ≠ [] then .error (.always exErrs)
  else if exPortErrs ≠ [] then .error (.portScan exPortErrs)
  else if exDeepErrs ≠ [] then .error (.deep exDeepErrs)
  else .ok { cfg with cidrs := ok, excludes := exOk, excludesPortScans := exPort, excludesDeep := exDeep, notes := cfg.notes.take 500 }

def cfgCidrList (raw : List Str) : List Str := (raw.map strip).filter (· ≠ [])

def parseNmapConfig (cfg : NmapConfig) : NmapConfig :=
  { cfg with
    cidrs := cfgCidrList cfg.cidrs
    excludes := cfgCidrList cfg.excludes
    excludesPortScans := cfgCidrList cfg.excludesPortScans
    excludesDeep := cfgCidrList cfg.excludesDeep }

/-- How both routes read the form's text areas. -/
def parseCidrsTextarea (raw : Str) : List Str :=
  ((splitlines (raw.map fun c => if c = ',' then '\n' else c)).map strip).filter fun s => s ≠ [] && s.head? ≠ some '#'

def integrationCidrs (cfg : NmapConfig) (intensity : Str) : List Str × List Str :=
  let cfg := parseNmapConfig cfg
  ((validateCidrs cfg.cidrs).1,
    (validateCidrs (effectiveExcludes cfg.excludes intensity cfg.excludesPortScans cfg.excludesDeep)).1)

/-! ## The command line -/

inductive PortMode
  | top | all | list
deriving DecidableEq, Repr

inductive ScriptPreset
  | none | cpe | offline | full
deriving DecidableEq, Repr

structure ScanOptions where
  scriptPreset : ScriptPreset := .none
  timing : Option Int := some 4
  topPorts : Int := 100
  includeUdp : Bool := false
  portList : Option Str := none
  portMode : Option Str := none
deriving DecidableEq, Repr

def normalizePortMode (raw : Str) (portList : Str) : PortMode :=
  let s := lower (strip raw)
  match [(lit "top", PortMode.top), (lit "all", .all), (lit "list", .list), (lit "all ports", .all), (lit "full", .all), (lit "-p-", .all),
      (lit "p-", .all)].lookup s with
  | some mode => mode
  | none => if portList ≠ [] then .list else .top

def forbiddenScriptFragments : List Str :=
  [lit "brute", lit "slowloris", lit "dos", lit "http-google-malware", lit "malware"]

/-- `-p` as its mode has it; without a list the mode is one of the other two. -/
def portArgs (mode : PortMode) (ports : Str) (topPorts : Int) : List Str :=
  let top := [lit "--top-ports", ofNat (max 1 (min 1000 (if topPorts = 0 then 100 else topPorts))).toNat]
  match mode with
  | .list => if ports ≠ [] then [lit "-p", ports] else []
  | .all => [lit "-p-"]
  | .top => top

/-- Inventory falls back to the top ports, the deeper scans to all. -/
def intensityPortArgs (intensity : Str) (mode : PortMode) (ports : Str) (topPorts : Int) : List Str :=
  if mode = .list ∧ ports = [] then portArgs (if intensity = lit "inventory" then .top else .all) ports topPorts
  else portArgs mode ports topPorts

def timingArgs (timing : Option Int) : List Str :=
  match timing with
  | some t => if 3 ≤ t ∧ t ≤ 5 then [lit "-T" ++ ofNat t.toNat] else []
  | none => []

/-- Scripts that flood, brute-force or report to others are not passed. -/
def keptExtraArgs (extraArgs : List Str) : List Str :=
  ((extraArgs.map strip).filter (· ≠ [])).filter fun s => !forbiddenScriptFragments.any fun f => hasInfix f (lower s)

/-- `none` is the `ValueError` of a scan without a target. -/
def buildNmapArgv (intensity : Str) (targets : List Str) (outputXml : Str) (skipDns useSyn vulnScripts : Bool) (opts : ScanOptions)
    (excludeHosts extraArgs : List Str) : Option (List Str) :=
  let intensity := if normIntensity intensity ∈ intensities then normIntensity intensity else lit "discovery"
  let scanFlag := if useSyn then lit "-sS" else lit "-sT"
  let ports := strip (opts.portList.getD [])
  let portMode := opts.portMode.getD []
  let mode := normalizePortMode portMode ports
  let mode := if ports ≠ [] ∧ portMode = [] then .list else mode
  let mode := if (intensity = lit "detailed" ∨ intensity = lit "deep") ∧ portMode = [] ∧ ports = [] then .all else mode
  let args :=
    if intensity = lit "discovery" then [lit "-sn", lit "-PR"]
    else
      [scanFlag, lit "-sV"] ++ intensityPortArgs intensity mode ports opts.topPorts
        ++ (if intensity = lit "deep" ∧ vulnScripts then [lit "--script", lit "vuln,vulners"] else [])
        ++ timingArgs opts.timing ++ if opts.includeUdp then [lit "-sU"] else []
  let words := (targets.map strip).filter (· ≠ [])
  if words = [] then none
  else
    some ([lit "nmap", lit "-oX", outputXml] ++ (if skipDns then [lit "-n"] else []) ++ args ++ nmapExcludeArgs excludeHosts
      ++ keptExtraArgs extraArgs ++ words)

/-- The pack's scripts that are there. -/
structure VulnPack where
  ready : Bool
  vulscan : Option Str
  httpVulnersRegex : Option Str

def scriptArgsForPreset (pack : VulnPack) : ScriptPreset → List Str
  | .none => []
  | .cpe => [lit "--script", lit "vulners"]
  | .offline => [lit "--script", pack.vulscan.getD (lit "vulners")]
  | .full => [lit "--script", join ',' (lit "vuln" :: (pack.vulscan.toList ++ pack.httpVulnersRegex.toList))]

/-- The command line that is executed. -/
def streamed : List Str → List Str
  | [] => [lit "-v"]
  | binary :: args => if lit "-v" ∈ binary :: args ∨ lit "-vv" ∈ binary :: args then binary :: args else binary :: lit "-v" :: args

/-- What a run meets on the worker. -/
structure Worker where
  outPath : Str
  lockFree : Bool
  root : Bool
  /-- nmap left no file and asked for root. -/
  refused : Bool
  pack : VulnPack

structure NmapScanRun where
  intensity : Str
  /-- `targets_json`. -/
  targets : List Str
deriving DecidableEq, Repr

/-- The command lines of a run, the retried one last. -/
def runNmapScan (worker : Worker) (enabled : Bool) (config : NmapConfig) (run : NmapScanRun) (opts : ScanOptions) (useSyn : Option Bool) :
    List (List Str) :=
  if !enabled then []
  else
    let (allowed, excludes) := integrationCidrs config run.intensity
    let asked := (run.targets.map strip).filter (· ≠ [])
    let okTargets := filterTargets (if asked = [] then allowed else asked) allowed excludes
    if allowed = [] ∨ okTargets = [] ∨ ¬ worker.lockFree then []
    else
      let wantVuln := opts.scriptPreset != .none && run.intensity == lit "deep" && (worker.pack.ready || opts.scriptPreset == .cpe)
      let cfg := parseNmapConfig config
      let effectiveSyn := useSyn.getD cfg.useSyn && worker.root
      let buildArgv (withSyn : Bool) : Option (List Str) :=
        (buildNmapArgv run.intensity okTargets worker.outPath cfg.skipDns withSyn false opts excludes []).map fun argv =>
          if wantVuln && cfg.vulnEnabled then argv ++ scriptArgsForPreset worker.pack opts.scriptPreset else argv
      let commands := if effectiveSyn && worker.refused then [effectiveSyn, false] else [effectiveSyn]
      (commands.filterMap buildArgv).map streamed

end PiHerder.Discovery
