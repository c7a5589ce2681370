import PiHerder.Discovery.Targets

/-!
# The options of a scan on their way to nmap

A record of options is parsed and dumped at each hop: by the form or a schedule, when the scan is enqueued, and by the task.

| here | there (`services/nmap/`) |
| --- | --- |
| `normalizeScriptPreset` … `normalizePortList` | `options.py` (61–132) |
| `parseScanOptions`, `formScanOptions`, `dumpScanOptions` | `options.py` (135–227) |
| `dumpScheduleOptions`, `createSchedule`, `parseScheduleOptions`, `fireSchedule` | `schedules.py` (25–148, 275–349), as far as they are about the options |
| `enqueueNmapScan` | `scan.py` (675–796): the arguments of the task that it sends |
| `runTask` | `run_nmap_scan` (`scan.py` 267–291), and `runNmapScan` from there on |

A dictionary has for each of its keys whether it is there, and whether its value is `None`. What goes through JSON comes out as it went
in. Numbers are given as numbers.
-/
namespace PiHerder.Discovery
open Lib Lib.Str

/-! ## The code -/

def ScriptPreset.text : ScriptPreset → Str
  | .none => lit "none"
  | .cpe => lit "cpe"
  | .offline => lit "offline"
  | .full => lit "full"

def PortMode.text : PortMode → Str
  | .top => lit "top"
  | .all => lit "all"
  | .list => lit "list"

def normalizeScriptPreset (raw : Option Str) (vulnScriptsFallback : Bool) : ScriptPreset :=
  let s := lower (strip (raw.getD []))
  match [ScriptPreset.none, .cpe, .offline, .full].find? fun preset => preset.text == s with
  | some preset => preset
  | none => if s ∈ [lit "on", lit "1", lit "true", lit "yes"] then .full else if vulnScriptsFallback then .full else .none

def normalizeTiming (raw : Option Int) : Option Int :=
  match raw with
  | none => some 4
  | some t => if t < 3 ∨ 5 < t then some 4 else some t

def normalizeTopPorts (raw : Option Int) : Int :=
  match raw with
  | none => 100
  | some n => max 1 (min 1000 n)

def portChar (c : Char) : Bool := isDigit c || c == ',' || c == '-' || isSpace c

def portToken (p : Str) : Option Str :=
  match splitOnce '-' p with
  | some (a, b) =>
    if isdigit a ∧ isdigit b ∧ 1 ≤ int a ∧ int b ≤ 65535 ∧ int a ≤ int b then some (ofNat (int a) ++ lit "-" ++ ofNat (int b)) else none
  | none => if isdigit p ∧ 1 ≤ int p ∧ int p ≤ 65535 then some (ofNat (int p)) else none

def normalizePortList (raw : Option Str) : Option Str :=
  let s := (strip (raw.getD [])).filter fun c => decide (c ≠ ' ')
  let parts := (split ',' s).filter fun p => decide (p ≠ [])
  if s = [] ∨ s.all portChar = false ∨ parts = [] then none else (parts.mapM portToken).map (join ',')

/-- The outer option is whether the key is there. -/
structure ScanData where
  scriptPreset : Option (Option Str) := none
  vulnScripts : Option Bool := none
  timing : Option (Option Int) := none
  topPorts : Option (Option Int) := none
  includeUdp : Option Bool := none
  portList : Option (Option Str) := none
  ports : Option (Option Str) := none
  portMode : Option (Option Str) := none
  useSyn : Option (Option Bool) := none
deriving DecidableEq

structure ParsedOptions where
  scriptPreset : ScriptPreset
  vulnScripts : Bool
  timing : Option Int
  topPorts : Int
  includeUdp : Bool
  portList : Option Str
  portMode : PortMode
  useSyn : Option Bool
deriving DecidableEq

/-- `str(d.get("port_list") or d.get("ports") or "") or None`. -/
def ScanData.listed (d : ScanData) : Option Str :=
  [d.portList.join, d.ports.join].findSome? fun s => s.filter fun s => decide (s ≠ [])

def parseScanOptions (d : ScanData) : ParsedOptions :=
  let legacyVuln := d.vulnScripts.getD false
  let preset := normalizeScriptPreset d.scriptPreset.join legacyVuln
  let preset := if d.scriptPreset = none ∧ d.vulnScripts ≠ none ∧ legacyVuln = false then .none else preset
  let portList := normalizePortList d.listed
  let portMode := normalizePortMode (d.portMode.join.getD []) (portList.getD [])
  { scriptPreset := preset
    vulnScripts := preset != .none
    timing := if d.timing = some none then none else normalizeTiming (d.timing.getD (some 4))
    topPorts := normalizeTopPorts d.topPorts.join
    includeUdp := d.includeUdp.getD false
    portList := portList
    portMode := if portMode = .list ∧ portList = none then .top else portMode
    useSyn := d.useSyn.join }

/-- The dictionary that `parse_scan_options` returns. -/
def ParsedOptions.data (p : ParsedOptions) : ScanData where
  scriptPreset := some (some p.scriptPreset.text)
  vulnScripts := some p.vulnScripts
  timing := some p.timing
  topPorts := some (some p.topPorts)
  includeUdp := some p.includeUdp
  portList := some p.portList
  portMode := some (some p.portMode.text)
  useSyn := some p.useSyn

/-- The arguments of `form_scan_options`; `timing` may be left out. -/
structure ScanForm where
  scriptPreset : Option Str := none
  vulnScripts : Bool := false
  timing : Option (Option Int) := none
  topPorts : Option Int := none
  includeUdp : Bool := false
  portList : Option Str := none
  portMode : Option Str := none
  useSyn : Option Bool := none

def formScanOptions (f : ScanForm) : ParsedOptions :=
  parseScanOptions
    { scriptPreset := some (some (f.scriptPreset.getD (if f.vulnScripts then lit "full" else lit "none")))
      vulnScripts := some f.vulnScripts
      topPorts := some (some (f.topPorts.getD 100))
      includeUdp := some f.includeUdp
      portList := some f.portList
      portMode := some f.portMode
      useSyn := some f.useSyn
      timing := some (f.timing.getD (some 4)) }

def dumpScanOptions (opts : ScanData) : ScanData :=
  let norm := parseScanOptions opts
  { scriptPreset := some (some norm.scriptPreset.text)
    vulnScripts := some norm.vulnScripts
    includeUdp := some norm.includeUdp
    topPorts := some (some norm.topPorts)
    portMode := some (some norm.portMode.text)
    timing := norm.timing.map some
    portList := norm.portList.map some
    useSyn := norm.useSyn.map some }

/-- The arguments of `enqueue_nmap_scan` and of the task. -/
structure ScanArgs where
  vulnScripts : Bool := false
  useSyn : Option Bool := none
  scriptPreset : Option Str := none
  timing : Option Int := none
  topPorts : Option Int := none
  includeUdp : Bool := false
  portList : Option Str := none
  portMode : Option Str := none
deriving DecidableEq

/-- What both make of the options they are given: an argument that is given is written over them. -/
def ScanArgs.over (a : ScanArgs) (base : ScanData) (preset : Str) : ScanData :=
  { base with
    scriptPreset := match a.scriptPreset with
      | some p => some (some p)
      | none => if base.scriptPreset = none then some (some preset) else base.scriptPreset
    timing := if a.timing = none then base.timing else some a.timing
    topPorts := if a.topPorts = none then base.topPorts else some a.topPorts
    includeUdp := if a.includeUdp then some true else base.includeUdp
    portList := if a.portList = none then base.portList else some a.portList
    portMode := if a.portMode = none then base.portMode else some a.portMode
    useSyn := if a.useSyn = none then base.useSyn else some a.useSyn }

def enqueueNmapScan (a : ScanArgs) (scanOptions : Option ScanData) : ScanArgs :=
  let optsIn := a.over (scanOptions.getD {}) (if a.vulnScripts then lit "full" else lit "none")
  let optsIn := if optsIn.useSyn = none then { optsIn with useSyn := some none } else optsIn
  let opts := dumpScanOptions (parseScanOptions optsIn).data
  { vulnScripts := opts.vulnScripts.getD false
    scriptPreset := opts.scriptPreset.join
    timing := opts.timing.join
    topPorts := opts.topPorts.join
    includeUdp := opts.includeUdp.getD false
    portList := opts.portList.join
    portMode := opts.portMode.join
    useSyn := opts.useSyn.join }

/-- What a task reads of its arguments. -/
def taskOptions (a : ScanArgs) : ScanOptions :=
  let opts := parseScanOptions (a.over {} (normalizeScriptPreset none a.vulnScripts).text)
  { scriptPreset := opts.scriptPreset
    timing := opts.timing
    topPorts := if opts.topPorts = 0 then 100 else opts.topPorts
    includeUdp := opts.includeUdp
    portList := opts.portList
    portMode := some opts.portMode.text }

def runTask (worker : Worker) (enabled : Bool) (config : NmapConfig) (run : NmapScanRun) (a : ScanArgs) : List (List Str) :=
  runNmapScan worker enabled config run (taskOptions a) a.useSyn

/-- Of an `NmapScanSchedule`. -/
structure ScheduleRow where
  intensity : Str
  /-- `options_json`. -/
  options : ScanData

/-- The arguments of `dump_schedule_options`. -/
structure ScheduleArgs where
  vulnScripts : Bool := false
  useSyn : Option Bool := none
  scriptPreset : Option Str := none
  timing : Option Int := some 4
  topPorts : Int := 100
  includeUdp : Bool := false
  portList : Option Str := none

def dumpScheduleOptions (a : ScheduleArgs) : ScanData :=
  let opts := formScanOptions
    { scriptPreset := a.scriptPreset, vulnScripts := a.vulnScripts, timing := some a.timing, topPorts := some a.topPorts, includeUdp := a.includeUdp,
      portList := a.portList, useSyn := a.useSyn }
  { dumpScanOptions opts.data with useSyn := a.useSyn.map some }

/-- `none` where the intensity is none. Scripts are for deep scans. -/
def createSchedule (intensity : Str) (a : ScheduleArgs) : Option ScheduleRow :=
  let intensity := normIntensity intensity
  if intensity ∈ intensities then
    some ⟨intensity, dumpScheduleOptions (if intensity ≠ lit "deep" then { a with vulnScripts := false, scriptPreset := some (lit "none") } else a)⟩
  else none

def parseScheduleOptions (row : ScheduleRow) : ParsedOptions :=
  { parseScanOptions row.options with useSyn := row.options.useSyn.join }

/-- Scripts that cannot run are left out. -/
def fireSchedule (config : NmapConfig) (pack : VulnPack) (row : ScheduleRow) : ScanArgs :=
  let opts := parseScheduleOptions row
  let wantVuln := opts.vulnScripts && row.intensity == lit "deep" && config.vulnEnabled && (pack.ready || opts.scriptPreset == .cpe)
  enqueueNmapScan
    { vulnScripts := wantVuln, useSyn := opts.useSyn, scriptPreset := some (if wantVuln then opts.scriptPreset.text else lit "none"), timing := opts.timing,
      topPorts := some opts.topPorts, includeUdp := opts.includeUdp, portList := opts.portList } none

/-! ## The routes -/

/-- The form keeps what is given: a script preset, a timing or `None`, a number of ports, and a port list and a mode or neither. -/
structure Accepted (o : ScanOptions) : Prop where
  timing : ∀ t ∈ o.timing, 3 ≤ t ∧ t ≤ 5
  topPorts : 1 ≤ o.topPorts ∧ o.topPorts ≤ 1000
  portList : ∀ l ∈ o.portList, normalizePortList (some l) = some l
  portMode : ∀ m ∈ o.portMode, m ∈ [lit "top", lit "all", lit "list"]

section routes
variable (o : ScanOptions) (syn : Option Bool)

def formOf : ScanForm where
  scriptPreset := some o.scriptPreset.text
  vulnScripts := o.scriptPreset != .none
  timing := some o.timing
  topPorts := some o.topPorts
  includeUdp := o.includeUdp
  portList := o.portList
  portMode := o.portMode
  useSyn := syn

def argsOf : ScanArgs where
  vulnScripts := o.scriptPreset != .none
  useSyn := syn
  scriptPreset := some o.scriptPreset.text
  timing := o.timing
  topPorts := some o.topPorts
  includeUdp := o.includeUdp
  portList := o.portList
  portMode := o.portMode

def scheduleOf : ScheduleArgs where
  vulnScripts := o.scriptPreset != .none
  useSyn := syn
  scriptPreset := some o.scriptPreset.text
  timing := o.timing
  topPorts := o.topPorts
  includeUdp := o.includeUdp
  portList := o.portList

/-- The form's options, handed on as they are. -/
def formRoute : ScanArgs := enqueueNmapScan {} (some (formScanOptions (formOf o syn)).data)

/-- The options as arguments. -/
def callRoute : ScanArgs := enqueueNmapScan (argsOf o syn) none

/-- A schedule with the options that fires. It takes no port mode. -/
def scheduleRoute (intensity : Str) (config : NmapConfig) (pack : VulnPack) : Option ScanArgs :=
  (createSchedule intensity (scheduleOf o syn)).map (fireSchedule config pack)

/-- By every route the task runs what the options themselves make of a run. -/
def ReachNmap (intensity : Str) : Prop :=
  ∀ worker enabled config targets,
    let direct := runNmapScan worker enabled config ⟨intensity, targets⟩ o syn
    runTask worker enabled config ⟨intensity, targets⟩ (formRoute o syn) = direct ∧
      runTask worker enabled config ⟨intensity, targets⟩ (callRoute o syn) = direct ∧
      (o.portMode = none → ∃ a ∈ scheduleRoute o syn intensity config worker.pack, runTask worker enabled config ⟨intensity, targets⟩ a = direct)

/-- The ports are named: by a list, or by a mode that needs none. -/
def PicksPorts : Prop := o.portList ≠ none ∨ o.portMode = some (lit "top") ∨ o.portMode = some (lit "all")

instance : Decidable (PicksPorts o) := inferInstanceAs (Decidable (_ ∨ _ ∨ _))

end routes

/-! ## The hops -/

/-- The mode that is parsed of a mode and a list. -/
def modeOf (m l : Option Str) : PortMode :=
  if normalizePortMode (m.getD []) (l.getD []) = .list ∧ l = none then .top else normalizePortMode (m.getD []) (l.getD [])

/-- What every hop makes of the options, and how the task has them: a timing, and a mode. -/
def settled (o : ScanOptions) : ScanOptions :=
  { o with timing := some (o.timing.getD 4), portMode := some (modeOf o.portMode o.portList).text }

section hops
variable {o : ScanOptions} {syn : Option Bool} {preset : ScriptPreset} {t : Option Int} {n : Int} {l m : Option Str}

theorem normalizeScriptPreset_text (preset : ScriptPreset) (fallback : Bool) : normalizeScriptPreset (some preset.text) fallback = preset := by
  cases preset <;> cases fallback <;> decide

theorem modeOf_text (m l : Option Str) : modeOf (some (modeOf m l).text) l = modeOf m l := by
  have htext : ∀ (mode : PortMode) (ports : Str), normalizePortMode ((some mode.text).getD []) ports = mode := by
    intro mode ports
    cases mode <;> rfl
  generalize hmode : modeOf m l = mode
  unfold modeOf
  rw [htext]
  refine if_neg fun h => ?_
  unfold modeOf at hmode
  rw [← hmode] at h
  split at h
  · cases h.1
  · rename_i hno
    exact hno h

theorem normalizeTiming_self {x : Int} (h : 3 ≤ x ∧ x ≤ 5) : normalizeTiming (some x) = some x := by
  unfold normalizeTiming
  simp only
  rw [if_neg (by omega)]

theorem normalizeTopPorts_self (h : 1 ≤ n ∧ n ≤ 1000) : normalizeTopPorts (some n) = n := by
  unfold normalizeTopPorts
  simp only
  omega

/-- **What is parsed of options** that are each what their own check makes of them. -/
theorem parse_eq {d : ScanData} (hpreset : d.scriptPreset = some (some preset.text)) (ht : d.timing.getD (some 4) = t) (ht' : ∀ x ∈ t, 3 ≤ x ∧ x ≤ 5)
    (hn : d.topPorts.join = some n) (hn' : 1 ≤ n ∧ n ≤ 1000) (hports : d.ports = none) (hl : d.portList.join = l)
    (hl' : ∀ s ∈ l, normalizePortList (some s) = some s) (hm : d.portMode.join = m) :
    parseScanOptions d = ⟨preset, preset != .none, t, n, d.includeUdp.getD false, l, modeOf m l, d.useSyn.join⟩ := by
  have hlist : normalizePortList d.listed = l := by
    unfold ScanData.listed
    rw [hports, hl]
    cases l with
    | none => rfl
    | some s =>
      have hs : s ≠ [] := by
        rintro rfl
        exact absurd (hl' [] rfl) (by decide)
      simpa [Option.filter, hs] using hl' s rfl
  have htiming : (if d.timing = some none then none else normalizeTiming (d.timing.getD (some 4))) = t := by
    rw [ht]
    cases t with
    | none =>
      refine if_pos ?_
      cases hd : d.timing with
      | none => rw [hd] at ht; cases ht
      | some x => rw [hd] at ht; exact congrArg some ht
    | some x =>
      rw [if_neg, normalizeTiming_self (ht' x rfl)]
      intro hd
      rw [hd] at ht
      cases ht
  unfold parseScanOptions
  simp only [hpreset, hlist, htiming, hn, hm, normalizeTopPorts_self hn', Option.join_some, normalizeScriptPreset_text]
  rfl

/-- A record that is accepted, as the hops have it. -/
def parsed (o : ScanOptions) (t : Option Int) (syn : Option Bool) : ParsedOptions :=
  ⟨o.scriptPreset, o.scriptPreset != .none, t, o.topPorts, o.includeUdp, o.portList, modeOf o.portMode o.portList, syn⟩

theorem formScanOptions_eq (h : Accepted o) : formScanOptions (formOf o syn) = parsed o o.timing syn :=
  parse_eq rfl rfl h.timing rfl h.topPorts rfl rfl h.portList rfl

/-- The arguments a record is sent with. -/
def sent (o : ScanOptions) (t : Option Int) (syn : Option Bool) : ScanArgs :=
  ⟨o.scriptPreset != .none, syn, some o.scriptPreset.text, t, some o.topPorts, o.includeUdp, o.portList, some (modeOf o.portMode o.portList).text⟩

/-- What is dumped of a record. -/
theorem dump_eq (h : Accepted o) (ht : ∀ x ∈ t, 3 ≤ x ∧ x ≤ 5) :
    dumpScanOptions (parsed o t syn).data = { (parsed o t syn).data with timing := t.map some, portList := o.portList.map some, useSyn := syn.map some } := by
  have hparse : parseScanOptions (parsed o t syn).data = parsed o t syn := by
    refine (parse_eq (t := t) (n := o.topPorts) (l := o.portList) (m := some (modeOf o.portMode o.portList).text) rfl rfl ht rfl h.topPorts rfl rfl
      h.portList rfl).trans ?_
    rw [modeOf_text]
    rfl
  unfold dumpScanOptions
  rw [hparse]
  rfl

theorem enqueue_eq {a : ScanArgs} {base : Option ScanData} (h : Accepted o) (ht : ∀ x ∈ t, 3 ≤ x ∧ x ≤ 5)
    (hparse : parseScanOptions (let optsIn := a.over (base.getD {}) (if a.vulnScripts then lit "full" else lit "none")
      if optsIn.useSyn = none then { optsIn with useSyn := some none } else optsIn) = parsed o t syn) : enqueueNmapScan a base = sent o t syn := by
  unfold enqueueNmapScan
  simp only at hparse ⊢
  rw [hparse, dump_eq h ht]
  cases t <;> cases syn <;> cases hl : o.portList <;> simp [sent, parsed, ParsedOptions.data, hl]

/-- The timing that is taken where there is none is one that is accepted. -/
theorem timing_default (ht : ∀ x ∈ t, 3 ≤ x ∧ x ≤ 5) : ∀ x ∈ some (t.getD 4), 3 ≤ x ∧ x ≤ 5 := by
  intro x hx
  cases t with
  | none => obtain rfl := Option.some.inj hx; decide
  | some y => exact ht x hx

theorem Accepted.default (h : Accepted o) : ∀ x ∈ some (o.timing.getD 4), 3 ≤ x ∧ x ≤ 5 := timing_default h.timing

/-- **What the task reads** of what is sent: without a timing it is the default. -/
theorem taskOptions_sent (h : Accepted o) (ht : ∀ x ∈ t, 3 ≤ x ∧ x ≤ 5) :
    taskOptions (sent o t syn) = { o with timing := some (t.getD 4), portMode := some (modeOf o.portMode o.portList).text } := by
  have hdefault := timing_default ht
  have hparse : parseScanOptions ((sent o t syn).over {} (normalizeScriptPreset none (sent o t syn).vulnScripts).text) = parsed o (some (t.getD 4)) syn := by
    refine (parse_eq (t := some (t.getD 4)) (n := o.topPorts) (l := o.portList) (m := some (modeOf o.portMode o.portList).text) rfl ?_ hdefault ?_ h.topPorts rfl ?_
      h.portList ?_).trans ?_
    · cases t <;> rfl
    · rfl
    · cases hl : o.portList <;> simp [ScanArgs.over, sent, hl]
    · rfl
    · rw [modeOf_text]
      cases hs : syn <;> cases hu : o.includeUdp <;> simp [ScanArgs.over, sent, parsed, hu]
  have hne : (parsed o (some (t.getD 4)) syn).topPorts ≠ 0 := by
    have := h.topPorts
    show o.topPorts ≠ 0
    omega
  unfold taskOptions
  simp only [hparse]
  rw [if_neg hne]
  rfl

theorem formRoute_eq (h : Accepted o) : formRoute o syn = sent o o.timing syn := by
  unfold formRoute
  rw [formScanOptions_eq h]
  refine enqueue_eq h h.timing ?_
  refine (parse_eq (t := o.timing) (n := o.topPorts) (l := o.portList) (m := some (modeOf o.portMode o.portList).text) rfl rfl h.timing rfl h.topPorts rfl rfl
      h.portList rfl).trans ?_
  rw [modeOf_text]
  rfl

/-- An argument that is `None` is not given. -/
theorem over_eq (h : Accepted o) (a : ScanArgs) (ha : a = { argsOf o syn with timing := t }) (ht : ∀ x ∈ t, 3 ≤ x ∧ x ≤ 5) (preset : Str) :
    parseScanOptions (let optsIn := a.over {} preset
      if optsIn.useSyn = none then { optsIn with useSyn := some none } else optsIn) = parsed o (some (t.getD 4)) syn := by
  have hdefault := timing_default ht
  subst ha
  refine (@parse_eq o.scriptPreset (some (t.getD 4)) o.topPorts o.portList o.portMode _ ?_ ?_ hdefault ?_ h.topPorts ?_ ?_ h.portList ?_).trans ?_
  · cases syn <;> rfl
  · cases syn <;> cases t <;> rfl
  · cases syn <;> rfl
  · cases syn <;> rfl
  · cases syn <;> cases hl : o.portList <;> simp [ScanArgs.over, argsOf, hl]
  · cases syn <;> cases hm : o.portMode <;> simp [ScanArgs.over, argsOf, hm]
  · cases syn <;> cases hu : o.includeUdp <;> simp [ScanArgs.over, argsOf, parsed, hu]

theorem callRoute_eq (h : Accepted o) : callRoute o syn = sent o (some (o.timing.getD 4)) syn :=
  enqueue_eq h h.default (over_eq h (argsOf o syn) rfl h.timing _)

/-- What a schedule keeps of the scripts: those that can run. -/
def scheduled (o : ScanOptions) (intensity : Str) (config : NmapConfig) (pack : VulnPack) : ScanOptions :=
  { o with
    scriptPreset :=
      if o.scriptPreset != .none && intensity == lit "deep" && config.vulnEnabled && (pack.ready || o.scriptPreset == .cpe) then o.scriptPreset else .none
    portMode := none }

theorem Accepted.withPreset (h : Accepted o) (preset : ScriptPreset) : Accepted { o with scriptPreset := preset, portMode := none } :=
  ⟨h.timing, h.topPorts, h.portList, fun m hm => by cases hm⟩

theorem dumpScheduleOptions_eq (h : Accepted o) (hmode : o.portMode = none) :
    dumpScheduleOptions (scheduleOf o syn) = { (parsed o o.timing syn).data with
      timing := o.timing.map some, portList := o.portList.map some, useSyn := syn.map some } := by
  have hform : formScanOptions (formOf o syn) = parsed o o.timing syn := formScanOptions_eq h
  unfold formOf at hform
  rw [hmode] at hform
  unfold dumpScheduleOptions scheduleOf
  simp only
  rw [hform, dump_eq h h.timing]

theorem parseScheduleOptions_eq (h : Accepted o) (hmode : o.portMode = none) (intensity : Str) :
    parseScheduleOptions ⟨intensity, dumpScheduleOptions (scheduleOf o syn)⟩ = parsed o (some (o.timing.getD 4)) syn := by
  have hdefault := h.default
  unfold parseScheduleOptions
  rw [dumpScheduleOptions_eq h hmode]
  simp only
  rw [@parse_eq o.scriptPreset (some (o.timing.getD 4)) o.topPorts o.portList (some (modeOf o.portMode o.portList).text) _ rfl ?_ hdefault rfl h.topPorts rfl ?_
    h.portList rfl, modeOf_text]
  · cases syn <;> rfl
  · cases o.timing <;> rfl
  · cases hl : o.portList <;> rfl

theorem fireSchedule_eq (h : Accepted o) (hmode : o.portMode = none) (intensity : Str) (config : NmapConfig) (pack : VulnPack) :
    fireSchedule config pack ⟨intensity, dumpScheduleOptions (scheduleOf o syn)⟩ =
      sent (scheduled o intensity config pack) (some (o.timing.getD 4)) syn := by
  have hdefault := h.default
  have hkept : Accepted (scheduled o intensity config pack) := h.withPreset _
  unfold fireSchedule
  rw [parseScheduleOptions_eq h hmode]
  refine enqueue_eq hkept hdefault (over_eq hkept _ ?_ hdefault _)
  unfold parsed argsOf scheduled
  simp only
  generalize hwant : (o.scriptPreset != .none && intensity == lit "deep" && config.vulnEnabled && (pack.ready || o.scriptPreset == .cpe)) = want
  cases want with
  | true =>
    simp only [Bool.and_eq_true] at hwant
    simp [hwant.1.1.1]
  | false => simp [ScriptPreset.text]

/-- Scripts are not stored for other scans than deep ones, and not run with them. -/
theorem scheduled_deep {intensity : Str} (hi : intensity ≠ lit "deep") (config : NmapConfig) (pack : VulnPack) :
    scheduled { o with scriptPreset := .none, portMode := none } intensity config pack = scheduled o intensity config pack := by
  unfold scheduled
  simp [hi]

theorem scheduleRoute_eq {intensity : Str} (hi : intensity ∈ intensities) (h : Accepted o) (config : NmapConfig) (pack : VulnPack) :
    scheduleRoute o syn intensity config pack = some (sent (scheduled o intensity config pack) (some (o.timing.getD 4)) syn) := by
  have hnorm : ∀ i ∈ intensities, normIntensity i = i := by decide
  unfold scheduleRoute createSchedule
  simp only [hnorm intensity hi]
  rw [if_pos hi, Option.map_some]
  congr 1
  by_cases hdeep : intensity = lit "deep"
  · rw [if_neg (not_not_intro hdeep)]
    exact fireSchedule_eq (o := { o with portMode := none }) (h.withPreset _) rfl intensity config pack
  · rw [if_pos hdeep, ← scheduled_deep hdeep]
    exact fireSchedule_eq (o := { o with scriptPreset := .none, portMode := none }) (h.withPreset _) rfl intensity config pack

end hops

/-! ## The command line -/

/-- The mode that a command line is built with. -/
def scanMode (intensity portMode ports : Str) : PortMode :=
  if (intensity = lit "detailed" ∨ intensity = lit "deep") ∧ portMode = [] ∧ ports = [] then .all
  else if ports ≠ [] ∧ portMode = [] then .list
  else normalizePortMode portMode ports

def portPart (intensity : Str) (o : ScanOptions) : List Str :=
  intensityPortArgs intensity (scanMode intensity (o.portMode.getD []) (strip (o.portList.getD []))) (strip (o.portList.getD [])) o.topPorts

/-- The part of a command line that the options make. -/
def optionArgs (intensity : Str) (useSyn : Bool) (o : ScanOptions) : List Str :=
  if intensity = lit "discovery" then [lit "-sn", lit "-PR"]
  else [if useSyn then lit "-sS" else lit "-sT", lit "-sV"] ++ portPart intensity o ++ timingArgs o.timing ++ if o.includeUdp then [lit "-sU"] else []

section argv
variable {o o' : ScanOptions} {syn : Option Bool} {intensity : Str}

theorem buildNmapArgv_eq (hi : intensity ∈ intensities) (targets : List Str) (outputXml : Str) (skipDns useSyn : Bool) (excludeHosts : List Str) :
    buildNmapArgv intensity targets outputXml skipDns useSyn false o excludeHosts [] =
      let words := (targets.map strip).filter (· ≠ [])
      if words = [] then none
      else some ([lit "nmap", lit "-oX", outputXml] ++ (if skipDns then [lit "-n"] else []) ++ optionArgs intensity useSyn o ++
        nmapExcludeArgs excludeHosts ++ words) := by
  have hnorm : ∀ i ∈ intensities, normIntensity i = i := by decide
  unfold buildNmapArgv optionArgs portPart scanMode
  simp only [hnorm intensity hi, if_pos hi]
  simp [keptExtraArgs]

/-- Whether the scripts of the options are run. -/
def Scripted (worker : Worker) (config : NmapConfig) (intensity : Str) (o : ScanOptions) : Bool :=
  o.scriptPreset != .none && intensity == lit "deep" && (worker.pack.ready || o.scriptPreset == .cpe) && config.vulnEnabled

/-- **A run depends on the command line's part and the scripts only.** -/
theorem runNmapScan_congr {worker : Worker} {config : NmapConfig} {enabled : Bool} {targets : List Str} (hi : intensity ∈ intensities)
    (hargs : ∀ useSyn, optionArgs intensity useSyn o = optionArgs intensity useSyn o')
    (hscripted : Scripted worker config intensity o = Scripted worker config intensity o')
    (hpreset : Scripted worker config intensity o = true → o.scriptPreset = o'.scriptPreset) :
    runNmapScan worker enabled config ⟨intensity, targets⟩ o syn = runNmapScan worker enabled config ⟨intensity, targets⟩ o' syn := by
  have hbuild : ∀ (ts : List Str) (out : Str) (dns useSyn : Bool) (ex : List Str),
      (buildNmapArgv intensity ts out dns useSyn false o ex []).map (fun argv =>
        if Scripted worker config intensity o then argv ++ scriptArgsForPreset worker.pack o.scriptPreset else argv) =
      (buildNmapArgv intensity ts out dns useSyn false o' ex []).map fun argv =>
        if Scripted worker config intensity o' then argv ++ scriptArgsForPreset worker.pack o'.scriptPreset else argv := by
    intro ts out dns useSyn ex
    rw [buildNmapArgv_eq hi, buildNmapArgv_eq hi, hargs, ← hscripted]
    cases hs : Scripted worker config intensity o with
    | true => rw [hpreset hs]
    | false => rfl
  unfold Scripted at hbuild
  unfold runNmapScan
  simp only [show (parseNmapConfig config).vulnEnabled = config.vulnEnabled from rfl, hbuild]

/-- A worker and a configuration with which a scan runs. -/
def freeWorker : Worker := ⟨lit "-v", true, false, false, ⟨false, none, none⟩⟩

def oneNetwork : NmapConfig := { cidrs := [lit "10.0.0.0/24"], excludes := [], excludesPortScans := [], excludesDeep := [] }

theorem run_oneNetwork (hi : intensity ∈ intensities) : runNmapScan freeWorker true oneNetwork ⟨intensity, []⟩ o syn =
    [[lit "nmap", lit "-oX", lit "-v"] ++ optionArgs intensity false o ++ [lit "10.0.0.0/24"]] := by
  have hcidrs : ∀ i ∈ intensities, integrationCidrs oneNetwork i = ([lit "10.0.0.0/24"], []) := by decide +kernel
  have htargets : filterTargets [lit "10.0.0.0/24"] [lit "10.0.0.0/24"] [] = [lit "10.0.0.0/24"] := by decide +kernel
  have hwords : ([lit "10.0.0.0/24"].map strip).filter (· ≠ []) = [lit "10.0.0.0/24"] := by decide +kernel
  unfold runNmapScan
  simp only [hcidrs intensity hi, List.map_nil, List.filter_nil, if_true, htargets, buildNmapArgv_eq hi, hwords]
  have hdns : (parseNmapConfig oneNetwork).skipDns = false := rfl
  have hvuln : (parseNmapConfig oneNetwork).vulnEnabled = false := rfl
  have hroot : freeWorker.root = false := rfl
  have hfree : freeWorker.lockFree = true := rfl
  have hout : freeWorker.outPath = lit "-v" := rfl
  have hexcludes : nmapExcludeArgs [] = [] := rfl
  have hstreamed : ∀ rest : List Str, streamed ([lit "nmap", lit "-oX", lit "-v"] ++ rest) = [lit "nmap", lit "-oX", lit "-v"] ++ rest := by
    intro rest
    show streamed (lit "nmap" :: (lit "-oX" :: lit "-v" :: rest)) = _
    rw [streamed, if_pos (Or.inl (List.mem_cons_of_mem _ (List.mem_cons_of_mem _ List.mem_cons_self)))]
    rfl
  simp only [hdns, hvuln, hroot, hfree, hout, hexcludes, Bool.not_true, Bool.false_eq_true, if_false, List.cons_ne_nil, not_true_eq_false, or_self, Bool.and_false,
    Bool.false_and, List.append_nil, Option.map_some, List.filterMap_cons, List.filterMap_nil, List.map_cons, List.map_nil, List.append_assoc, hstreamed]

/-! ## The condition -/

theorem strip_list (h : Accepted o) {s : Str} (hs : o.portList = some s) : strip s ≠ [] := by
  intro hnil
  have hself := h.portList s hs
  unfold normalizePortList at hself
  simp only [Option.getD_some, hnil, List.filter_nil] at hself
  cases hself

theorem portMode_cases (h : Accepted o) : o.portMode = none ∨ o.portMode = some (lit "top") ∨ o.portMode = some (lit "all") ∨ o.portMode = some (lit "list") := by
  cases hm : o.portMode with
  | none => exact Or.inl rfl
  | some m =>
    have := h.portMode m hm
    simp only [List.mem_cons, List.not_mem_nil, or_false] at this
    rcases this with rfl | rfl | rfl
    · exact Or.inr (Or.inl rfl)
    · exact Or.inr (Or.inr (Or.inl rfl))
    · exact Or.inr (Or.inr (Or.inr rfl))

theorem normalizePortMode_none (ports : Str) : normalizePortMode [] ports = if ports ≠ [] then .list else .top := rfl

theorem scanMode_text (mode : PortMode) (ports : Str) : scanMode intensity mode.text ports = mode := by
  have hne : mode.text ≠ [] := by cases mode <;> decide
  unfold scanMode
  rw [if_neg fun h => hne h.2.1, if_neg fun h => hne h.2]
  cases mode <;> rfl

/-- The ports as the task has them. -/
theorem portPart_settled (o : ScanOptions) : portPart intensity (settled o) =
    intensityPortArgs intensity (modeOf o.portMode o.portList) (strip (o.portList.getD [])) o.topPorts := by
  unfold portPart settled
  simp only [Option.getD_some, scanMode_text]

/-- With a list the mode is the same on both sides. -/
theorem scanMode_list {s : Str} (hs : s ≠ []) (hs' : strip s ≠ []) (h : Accepted o) :
    scanMode intensity (o.portMode.getD []) (strip s) = modeOf o.portMode (some s) := by
  unfold scanMode modeOf
  rw [if_neg fun h => hs' h.2.2]
  rcases portMode_cases h with hm | hm | hm | hm <;> rw [hm]
  · simp [hs', hs, normalizePortMode_none]
  · rw [if_neg fun h => absurd h.2 (by decide), if_neg fun h => Option.some_ne_none s h.2]
    rfl
  · rw [if_neg fun h => absurd h.2 (by decide), if_neg fun h => Option.some_ne_none s h.2]
    rfl
  · rw [if_neg fun h => absurd h.2 (by decide), if_neg fun h => Option.some_ne_none s h.2]
    rfl

/-- **The ports of a scan** stay what they are, if they are named or it is an inventory; else all of them become the top ports. -/
theorem portPart_cases (hi : intensity ∈ [lit "inventory", lit "detailed", lit "deep"]) (h : Accepted o) :
    (intensity = lit "inventory" ∨ PicksPorts o → portPart intensity (settled o) = portPart intensity o) ∧
      (¬ (intensity = lit "inventory" ∨ PicksPorts o) → (portPart intensity (settled o)).length = 2 ∧ (portPart intensity o).length = 1) := by
  rw [portPart_settled]
  unfold portPart PicksPorts
  cases hl : o.portList with
  | some s =>
    have hs : s ≠ [] := by
      rintro rfl
      exact strip_list h hl (by decide)
    rw [Option.getD_some, scanMode_list hs (strip_list h hl) h]
    exact ⟨fun _ => rfl, fun hno => absurd (Or.inr (Or.inl (Option.some_ne_none s))) hno⟩
  | none =>
    simp only [List.mem_cons, List.not_mem_nil, or_false] at hi
    -- the two differ where a deeper scan has no mode, or a list for a mode
    rcases hi with rfl | rfl | rfl <;> rcases portMode_cases h with hm | hm | hm | hm <;> rw [hm] <;>
      first
      | exact ⟨fun _ => rfl, fun hno => absurd (by decide) hno⟩
      | exact ⟨fun hyes => absurd hyes (by decide), fun _ => ⟨rfl, rfl⟩⟩

/-- A part of a command line that nothing settles differently. -/
def Unchanged (intensity : Str) (o : ScanOptions) : Prop :=
  intensity = lit "discovery" ∨ (o.timing ≠ none ∧ (intensity = lit "inventory" ∨ PicksPorts o))

theorem optionArgs_settled (hi : intensity ∈ intensities) (h : Accepted o) (useSyn : Bool) :
    optionArgs intensity useSyn (settled o) = optionArgs intensity useSyn o ↔ Unchanged intensity o := by
  unfold optionArgs Unchanged
  by_cases hdiscovery : intensity = lit "discovery"
  · rw [if_pos hdiscovery, if_pos hdiscovery]
    exact iff_of_true rfl (Or.inl hdiscovery)
  · rw [if_neg hdiscovery, if_neg hdiscovery, or_iff_right hdiscovery]
    obtain ⟨hsame, hother⟩ := portPart_cases ((List.mem_cons.1 hi).resolve_left hdiscovery) h
    constructor
    · intro heq
      have hlength := congrArg List.length heq
      simp only [List.length_append] at hlength
      have htiming : (timingArgs (settled o).timing).length = 1 := by
        show (timingArgs (some (o.timing.getD 4))).length = 1
        cases ht : o.timing with
        | none => rfl
        | some t => exact congrArg List.length (if_pos (h.timing t ht))
      have hle : (timingArgs o.timing).length ≤ 1 := by
        unfold timingArgs
        split
        · split <;> simp
        · simp
      have hudp : (settled o).includeUdp = o.includeUdp := rfl
      rw [htiming, hudp] at hlength
      by_cases hports : intensity = lit "inventory" ∨ PicksPorts o
      · refine ⟨fun hnone => ?_, hports⟩
        rw [hsame hports, hnone, show (timingArgs none).length = 0 from rfl] at hlength
        omega
      · obtain ⟨htwo, hone⟩ := hother hports
        rw [htwo, hone] at hlength
        omega
    · rintro ⟨ht, hports⟩
      obtain ⟨t, ht⟩ := Option.ne_none_iff_exists'.1 ht
      have htiming : (settled o).timing = o.timing := by
        rw [ht]
        show some (o.timing.getD 4) = some t
        rw [ht]
        rfl
      rw [hsame hports, htiming]
      rfl

/-- What is left out of the scripts of a schedule would not run. -/
theorem scripted_scheduled (worker : Worker) (config : NmapConfig) (intensity : Str) (o : ScanOptions) :
    Scripted worker config intensity (scheduled o intensity config worker.pack) = Scripted worker config intensity o ∧
      (Scripted worker config intensity o = true → (scheduled o intensity config worker.pack).scriptPreset = o.scriptPreset) := by
  have hcond : (o.scriptPreset != .none && intensity == lit "deep" && config.vulnEnabled && (worker.pack.ready || o.scriptPreset == .cpe)) =
      Scripted worker config intensity o := Bool.and_right_comm _ _ _
  unfold scheduled
  rw [hcond]
  cases hs : Scripted worker config intensity o with
  | true => exact ⟨hs, fun _ => rfl⟩
  | false => exact ⟨rfl, fun h => absurd h Bool.false_ne_true⟩

/-- **Scan options reach nmap** by every route, as long as nothing is settled that they leave open. -/
theorem reachNmap_iff (hi : intensity ∈ intensities) (h : Accepted o) : ReachNmap o syn intensity ↔ Unchanged intensity o := by
  have hdefault := h.default
  constructor
  · intro hreach
    obtain ⟨hform, -⟩ := hreach freeWorker true oneNetwork []
    unfold runTask at hform
    rw [formRoute_eq h, taskOptions_sent h h.timing, run_oneNetwork hi, run_oneNetwork hi] at hform
    have hargs := List.append_cancel_left (List.append_cancel_right (List.cons.inj hform).1)
    exact (optionArgs_settled hi h false).1 hargs
  · intro hu worker enabled config targets
    have hsettled : runNmapScan worker enabled config ⟨intensity, targets⟩ (settled o) syn = runNmapScan worker enabled config ⟨intensity, targets⟩ o syn :=
      runNmapScan_congr hi (fun useSyn => (optionArgs_settled hi h useSyn).2 hu) rfl fun _ => rfl
    refine ⟨?_, ?_, fun hmode => ⟨_, scheduleRoute_eq hi h config worker.pack, ?_⟩⟩
    · unfold runTask
      rw [formRoute_eq h, taskOptions_sent h h.timing]
      exact hsettled
    · unfold runTask
      rw [callRoute_eq h, taskOptions_sent h hdefault]
      exact hsettled
    · unfold runTask
      have hkept : Accepted (scheduled o intensity config worker.pack) := h.withPreset _
      rw [taskOptions_sent hkept hdefault, ← hsettled]
      obtain ⟨hscripted, hpreset⟩ := scripted_scheduled worker config intensity o
      refine runNmapScan_congr hi (fun useSyn => ?_) hscripted fun hs => hpreset (hscripted ▸ hs)
      unfold settled
      rw [hmode]
      rfl

/-- A deep scan of all ports, with the full scripts. -/
theorem deep_reaches : ReachNmap { scriptPreset := .full, timing := some 5, portMode := some (lit "all") } none (lit "deep") :=
  (reachNmap_iff (by decide) ⟨by decide, by decide, by decide, by decide⟩).2 (Or.inr ⟨by decide, Or.inr (by decide)⟩)

/-- A detailed scan for which neither ports nor a mode are picked. -/
theorem detailed_top_ports : ∃ o : ScanOptions, Accepted o ∧ o.timing = some 4 ∧ o.portMode = none ∧ o.portList = none ∧
    runNmapScan freeWorker true oneNetwork ⟨lit "detailed", []⟩ o none =
      [[lit "nmap", lit "-oX", lit "-v", lit "-sT", lit "-sV", lit "-p-", lit "-T4", lit "10.0.0.0/24"]] ∧
    runTask freeWorker true oneNetwork ⟨lit "detailed", []⟩ (formRoute o none) =
      [[lit "nmap", lit "-oX", lit "-v", lit "-sT", lit "-sV", lit "--top-ports", lit "100", lit "-T4", lit "10.0.0.0/24"]] ∧
    ¬ ReachNmap o none (lit "detailed") := by
  have hdirect : runNmapScan freeWorker true oneNetwork ⟨lit "detailed", []⟩ { timing := some 4 } none =
      [[lit "nmap", lit "-oX", lit "-v", lit "-sT", lit "-sV", lit "-p-", lit "-T4", lit "10.0.0.0/24"]] := by decide +kernel
  have htask : runTask freeWorker true oneNetwork ⟨lit "detailed", []⟩ (formRoute { timing := some 4 } none) =
      [[lit "nmap", lit "-oX", lit "-v", lit "-sT", lit "-sV", lit "--top-ports", lit "100", lit "-T4", lit "10.0.0.0/24"]] := by decide +kernel
  refine ⟨{ timing := some 4 }, ⟨by decide, by decide, by decide, by decide⟩, rfl, rfl, rfl, hdirect, htask, fun hreach => ?_⟩
  have hform := (hreach freeWorker true oneNetwork []).1
  rw [hdirect, htask] at hform
  exact absurd hform (by decide +kernel)

end argv

end PiHerder.Discovery
