import PiHerder.Lib.Dict
import PiHerder.Lib.PyStr
import PiHerder.Lib.Runs
import PiHerder.Lib.Table
import PiHerder.Schedule.Stagger

/-!
# The scheduler's jobs of each host

| here | there |
| --- | --- |
| `jobId` | `services/scheduler.py:246` (`server_cron_job_ids`) |
| `wanted`, `syncServer`, `unregister`, `syncAll` | `services/scheduler.py:28`, `:105`–`:150`, `:259`–`:430`, `:470` |
| `effectiveFleetCron`, `staggeredCron`, `applyDefaults` | `services/update_check_config.py:22`, `:104`–`:122`, `:231` |
| `cronFor` | `services/schedule_watch.py:171`–`:220` |
| `ScheduleCall` | the calls that write what the jobs are made from: `routers/server_patch.py:363`–`:530`, `routers/server_backups.py:461`–`:507`, `routers/api_v1.py:540`–`:577`, `routers/server_wizard.py:573`–`:597`, `routers/servers.py:666`–`:697`, `:1351`–`:1376`, `routers/settings.py:2382`–`:2470`, `:2535`, `services/server_lifecycle.py:193`, `main.py:192` |

APScheduler is a table of jobs by id (`CronLib` stands for its triggers and for the check of an expression). Most calls that change a
setting register the host's jobs anew; those that do not are `unsynced`, and the scheduler goes on with what it had.
-/
namespace PiHerder.Schedule
open Lib Lib.Str

inductive CronKind
  | backup
  | osCheck
  | containerCheck
  | osApply
  | containerApply
  | dockerPrune
deriving DecidableEq, Repr

/-- In the order in which a host's jobs are registered. -/
def cronKinds : List CronKind := [.backup, .osCheck, .containerCheck, .osApply, .containerApply, .dockerPrune]

def CronKind.jobPrefix : CronKind → Str
  | .backup => lit "backup_"
  | .osCheck => lit "os_check_"
  | .containerCheck => lit "container_check_"
  | .osApply => lit "os_apply_"
  | .containerApply => lit "container_apply_"
  | .dockerPrune => lit "docker_prune_"

def jobId (kind : CronKind) (sid : Nat) : Str := kind.jobPrefix ++ ofNat sid

/-- A schedule that was never set is the empty text. -/
structure Host where
  id : Nat
  numbered : id ≠ 0
  backupEnabled : Bool := false
  backupSchedule : Str := []
  osPatchEnabled : Bool := false
  containerPatchEnabled : Bool := false
  osCheckEnabled : Bool := false
  osCheckSchedule : Str := []
  containerCheckEnabled : Bool := false
  containerCheckSchedule : Str := []
  osApplyEnabled : Bool := false
  osApplySchedule : Str := []
  containerApplyEnabled : Bool := false
  containerApplySchedule : Str := []
  dockerPruneSchedule : Str := []
deriving DecidableEq, Repr

structure FleetSettings where
  containerCheckGlobalEnabled : Bool := true
  backupCron : Str := []
  timezone : Str := lit "UTC"
deriving DecidableEq, Repr

/-- `CronTrigger` of five fields in a timezone, and `pycron.is_now` going through. -/
structure CronLib (τ : Type) where
  trigger : List Str → Str → Option τ
  valid : Str → Bool

structure CronJob (τ : Type) where
  kind : CronKind
  serverId : Nat
  trigger : τ
deriving DecidableEq

structure Fleet (τ : Type) where
  hosts : Keyed Host Nat Host.id
  settings : FleetSettings
  registry : Dict Str (CronJob τ)

section Code
variable {τ : Type} (lib : CronLib τ)

/-- `_cron_trigger` -/
def triggerOf (timezone cron : Str) : Option τ :=
  let parts := words (strip cron)
  if parts.length = 5 then lib.trigger parts timezone else none

/-- `validate_cron_expression` -/
def validateCron (cron : Str) : Option Str :=
  let expr := strip cron
  if (words expr).length = 5 ∧ lib.valid expr then some expr else none

def orDefault (s d : Str) : Str := if s = [] then d else s

def effectiveFleetCron (settings : FleetSettings) (sid : Nat) : Option Str :=
  let base := orDefault (strip (orDefault settings.backupCron defaultBackupCron)) defaultBackupCron
  fleetBackupCron 2 ((validateCron lib base).getD defaultBackupCron) sid

def containerCheckShouldRun (settings : FleetSettings) (h : Host) : Bool :=
  if strip h.containerCheckSchedule = [] then false else h.containerCheckEnabled || settings.containerCheckGlobalEnabled

/-- The cron of a job that a host is to have. -/
def wanted (settings : FleetSettings) (h : Host) : CronKind → Option Str
  | .backup =>
    if h.backupEnabled then
      if strip h.backupSchedule = [] then effectiveFleetCron lib settings h.id else some (strip h.backupSchedule)
    else none
  | .osCheck => if h.osCheckEnabled && h.osCheckSchedule != [] then some h.osCheckSchedule else none
  | .containerCheck => if containerCheckShouldRun settings h then some h.containerCheckSchedule else none
  | .osApply => if h.osPatchEnabled && h.osApplyEnabled && h.osApplySchedule != [] then some h.osApplySchedule else none
  | .containerApply =>
    if h.containerPatchEnabled && h.containerApplyEnabled && h.containerApplySchedule != [] then some h.containerApplySchedule else none
  | .dockerPrune => if h.containerPatchEnabled && strip h.dockerPruneSchedule != [] then some (strip h.dockerPruneSchedule) else none

/-- The job that a host is to have; none where its cron is not understood. -/
def wantedJob (settings : FleetSettings) (h : Host) (kind : CronKind) : Option (CronJob τ) :=
  ((wanted lib settings h kind).bind (triggerOf lib settings.timezone)).map (CronJob.mk kind h.id)

/-- Remove the job, and add it again where it is wanted. -/
def register (settings : FleetSettings) (h : Host) (registry : Dict Str (CronJob τ)) (kind : CronKind) : Dict Str (CronJob τ) :=
  let removed := Dict.del (jobId kind h.id) registry
  match wantedJob lib settings h kind with
  | some job => Dict.set (jobId kind h.id) job removed
  | none => removed

def registerAll (settings : FleetSettings) (registry : Dict Str (CronJob τ)) (h : Host) : Dict Str (CronJob τ) :=
  cronKinds.foldl (register lib settings h) registry

/-- `_restore_container_check_flag` of a host whose container check is registered. -/
def restoreFlag (settings : FleetSettings) (h : Host) : Host :=
  if containerCheckShouldRun settings h then { h with containerCheckEnabled := true } else h

theorem restoreFlag_id (settings : FleetSettings) (h : Host) : (restoreFlag settings h).id = h.id := by
  unfold restoreFlag
  split <;> rfl

def syncServer (sid : Nat) (st : Fleet τ) : Fleet τ :=
  match Table.lookup Host.id sid st.hosts.rows with
  | none => st
  | some h =>
    if h.id = 0 then st
    else
      { st with
        hosts := st.hosts.modify sid (restoreFlag st.settings) (restoreFlag_id st.settings)
        registry := registerAll lib st.settings st.registry h }

def syncAll (st : Fleet τ) : Fleet τ :=
  { st with
    hosts := st.hosts.map (restoreFlag st.settings) (restoreFlag_id st.settings)
    registry := st.hosts.rows.foldl (registerAll lib st.settings) st.registry }

/-- `unregister_server_cron_jobs` -/
def unregister (sid : Nat) (registry : Dict Str (CronJob τ)) : Dict Str (CronJob τ) :=
  cronKinds.foldl (fun registry kind => Dict.del (jobId kind sid) registry) registry

/-- `_cron_for` of the kinds that the missed-run watch knows. -/
def cronFor (settings : FleetSettings) (h : Host) : CronKind → Option Str
  | .backup =>
    if h.backupEnabled then
      if strip h.backupSchedule ≠ [] then some (strip h.backupSchedule)
      else if h.id = 0 then none
      else (effectiveFleetCron lib settings h.id).bind fun cron => if strip cron = [] then none else some (strip cron)
    else none
  | .containerCheck =>
    if containerCheckShouldRun settings h then
      if strip h.containerCheckSchedule = [] then none else some (strip h.containerCheckSchedule)
    else none
  | .dockerPrune =>
    if h.containerPatchEnabled then
      if strip h.dockerPruneSchedule = [] then none else some (strip h.dockerPruneSchedule)
    else none
  | _ => none

/-! ## The calls -/

def defaultMidnightCron : Str := lit "0 0 * * *"

def staggeredCron (baseCron : Str) (sid offset : Nat) : Str :=
  let parts := words (strip (orDefault baseCron defaultMidnightCron))
  let parts := if parts.length = 5 then parts else words defaultMidnightCron
  spaced (parts.set 0 (ofNat ((sid + offset) % 60)))

/-- The form of the fleet's defaults. -/
structure FleetForm where
  osOn : Bool
  osCron : Str
  containerOn : Bool
  containerCron : Str
  jitter : Bool
  backupCron : Str
  apply : Bool
  featureFlags : Bool
  backups : Bool
deriving DecidableEq, Repr

/-- `apply_global_update_checks_to_all`, on one host. -/
def applyDefaults (form : FleetForm) (osCron containerCron : Str) (h : Host) : Host :=
  let h := if form.osOn then
      { h with
        osCheckEnabled := true
        osCheckSchedule := if form.jitter then staggeredCron osCron h.id 0 else osCron
        osPatchEnabled := form.featureFlags || h.osPatchEnabled }
    else { h with osCheckEnabled := false }
  let h := if form.containerOn then
      { h with
        containerCheckEnabled := true
        containerCheckSchedule := if form.jitter then staggeredCron containerCron h.id 15 else containerCron
        containerPatchEnabled := form.featureFlags || h.containerPatchEnabled }
    else { h with containerCheckEnabled := false, containerCheckSchedule := [] }
  if form.backups then { h with backupEnabled := true } else h

theorem applyDefaults_id (form : FleetForm) (osCron containerCron : Str) (h : Host) : (applyDefaults form osCron containerCron h).id = h.id := by
  unfold applyDefaults
  split_ifs <;> rfl

inductive ScheduleCall
  | addServer
  | saveOsCheck (sid : Nat) (on : Bool) (cron : Str)
  | saveContainerCheck (sid : Nat) (on : Bool) (cron : Str)
  | saveOsApply (sid : Nat) (on : Bool) (cron : Str)
  | saveContainerApply (sid : Nat) (on : Bool) (cron : Str)
  | savePrune (sid : Nat) (cron : Str)
  | saveBackups (sid : Nat) (schedule : Option Str)
  | apiFeatures (sid : Nat) (backup os docker : Option Bool)
  | wizardFeatures (sid : Nat) (backup os docker : Bool)
  | editServer (sid : Nat) (backup os docker : Bool)
  | saveFleet (form : FleetForm)
  | saveTimezone (timezone : Str)
  | deleteServer (sid : Nat) (deleted : Bool)
  | fireContainerCheck (sid : Nat)
  | restart

def writeHost (sid : Nat) (f : Host → Host) (hf : ∀ h, (f h).id = h.id) (st : Fleet τ) : Fleet τ :=
  { st with hosts := st.hosts.modify sid f hf }

/-- A page that is refused for a host without the feature. -/
def refusing (sid : Nat) (feature : Host → Bool) (st st' : Fleet τ) : Fleet τ :=
  if (Table.lookup Host.id sid st.hosts.rows).any feature then st' else st

theorem freshId_ne_zero (ids : List Nat) : freshId ids ≠ 0 := by simp [freshId]

def createServer (st : Fleet τ) : Fleet τ :=
  let h : Host := { id := freshId (st.hosts.rows.map Host.id), numbered := freshId_ne_zero _, backupEnabled := true }
  syncServer lib h.id { st with hosts := st.hosts.insert h (freshId_not_mem _) }

def deleteHost (sid : Nat) (hosts : Keyed Host Nat Host.id) : Keyed Host Nat Host.id :=
  ⟨hosts.rows.filter fun h => h.id != sid, hosts.nodup.sublist (List.filter_sublist.map _)⟩

def setBackupSchedule (schedule : Option Str) (h : Host) : Host :=
  match schedule with
  | none => h
  | some cron => { h with backupSchedule := strip cron, backupEnabled := decide (strip cron ≠ []) || h.backupEnabled }

theorem setBackupSchedule_id (schedule : Option Str) (h : Host) : (setBackupSchedule schedule h).id = h.id := by cases schedule <;> rfl

def setFeatures (backup os docker : Option Bool) (h : Host) : Host :=
  { h with
    backupEnabled := backup.getD h.backupEnabled
    osPatchEnabled := os.getD h.osPatchEnabled
    containerPatchEnabled := docker.getD h.containerPatchEnabled }

/-- `save_update_check_defaults`: refused, saved, or saved and registered; a cron that only the apply looks at ends the save halfway. -/
def saveUpdateCheckDefaults (form : FleetForm) (st : Fleet τ) : Fleet τ :=
  let osCron := orDefault (strip form.osCron) defaultMidnightCron
  let containerCron := orDefault (strip form.containerCron) defaultMidnightCron
  let backupCron := orDefault (strip form.backupCron) defaultBackupCron
  if (form.osOn ∧ validateCron lib osCron = none) ∨ (form.containerOn ∧ validateCron lib containerCron = none) ∨ validateCron lib backupCron = none then st
  else
    let old := orDefault (strip (orDefault st.settings.backupCron defaultBackupCron)) defaultBackupCron
    let saved := { st with settings := { st.settings with containerCheckGlobalEnabled := form.containerOn, backupCron := backupCron } }
    if form.apply then
      match validateCron lib osCron, validateCron lib containerCron with
      | some os, some container => syncAll lib { saved with hosts := saved.hosts.map (applyDefaults form os container) (applyDefaults_id form os container) }
      | _, _ => saved
    else if (validateCron lib old).getD old ≠ backupCron then syncAll lib saved else saved

def ScheduleCall.run (st : Fleet τ) : ScheduleCall → Fleet τ
  | .addServer => createServer lib st
  | .saveOsCheck sid on cron =>
    syncServer lib sid (writeHost sid (fun h => { h with osCheckSchedule := cron, osCheckEnabled := on && cron != [] }) (fun _ => rfl) st)
  | .saveContainerCheck sid on cron =>
    syncServer lib sid (writeHost sid (fun h => { h with
      containerCheckEnabled := on && cron != []
      containerCheckSchedule := if on then cron else [] }) (fun _ => rfl) st)
  | .saveOsApply sid on cron =>
    refusing sid Host.osPatchEnabled st
      (syncServer lib sid (writeHost sid (fun h => { h with osApplySchedule := cron, osApplyEnabled := on && cron != [] }) (fun _ => rfl) st))
  | .saveContainerApply sid on cron =>
    refusing sid Host.containerPatchEnabled st
      (syncServer lib sid (writeHost sid (fun h => { h with containerApplySchedule := cron, containerApplyEnabled := on && cron != [] }) (fun _ => rfl) st))
  | .savePrune sid cron =>
    refusing sid Host.containerPatchEnabled st (syncServer lib sid (writeHost sid (fun h => { h with dockerPruneSchedule := cron }) (fun _ => rfl) st))
  | .saveBackups sid schedule => syncServer lib sid (writeHost sid (setBackupSchedule schedule) (setBackupSchedule_id schedule) st)
  | .apiFeatures sid backup os docker =>
    let written := writeHost sid (setFeatures backup os docker) (fun _ => rfl) st
    if backup.isSome then syncServer lib sid written else written
  | .wizardFeatures sid backup os docker => syncServer lib sid (writeHost sid (setFeatures (some backup) (some os) (some docker)) (fun _ => rfl) st)
  | .editServer sid backup os docker =>
    let written := writeHost sid (setFeatures (some backup) (some os) (some docker)) (fun _ => rfl) st
    if (Table.lookup Host.id sid st.hosts.rows).any fun h => h.backupEnabled != backup then syncServer lib sid written else written
  | .saveFleet form => saveUpdateCheckDefaults lib form st
  | .saveTimezone timezone => { st with settings := { st.settings with timezone := timezone } }
  | .deleteServer sid deleted =>
    { st with
      hosts := if deleted then deleteHost sid st.hosts else st.hosts
      registry := unregister sid st.registry }
  | .fireContainerCheck sid => writeHost sid (restoreFlag st.settings) (restoreFlag_id st.settings) st
  | .restart => syncAll lib { st with registry := [] }

end Code

/-! ## Which calls register -/

section Keeps
variable {τ : Type} (lib : CronLib τ)

/-- The job that the settings call for. -/
def expected (st : Fleet τ) (kind : CronKind) (sid : Nat) : Option (CronJob τ) :=
  (Table.lookup Host.id sid st.hosts.rows).bind fun h => wantedJob lib st.settings h kind

def AgreesAt (st : Fleet τ) (sid : Nat) : Prop := ∀ kind, Dict.get? (jobId kind sid) st.registry = expected lib st kind sid

/-- The scheduler has the jobs that the settings call for, and no others of a host. -/
def Agrees (st : Fleet τ) : Prop := ∀ sid, AgreesAt lib st sid

/-- The form saves a new base time of the backups. -/
def FleetForm.movesBackups (form : FleetForm) (settings : FleetSettings) : Bool :=
  let old := orDefault (strip (orDefault settings.backupCron defaultBackupCron)) defaultBackupCron
  decide ((validateCron lib old).getD old ≠ orDefault (strip form.backupCron) defaultBackupCron)

/-- The form is applied to the hosts. -/
def FleetForm.applies (form : FleetForm) : Bool :=
  form.apply && (validateCron lib (orDefault (strip form.osCron) defaultMidnightCron)).isSome &&
    (validateCron lib (orDefault (strip form.containerCron) defaultMidnightCron)).isSome

/-- The call may change a setting without registering the jobs that are made from it. -/
def ScheduleCall.unsynced (st : Fleet τ) : ScheduleCall → Bool
  | .apiFeatures _ backup _ _ => backup.isNone
  | .editServer sid backup _ _ => !(Table.lookup Host.id sid st.hosts.rows).any fun h => h.backupEnabled != backup
  | .saveFleet form => !(form.applies lib || (!form.apply && form.movesBackups lib st.settings))
  | .saveTimezone _ => true
  | _ => false

/-- A call that does not register leaves what is wanted as it was; a delete that fails is of a host without jobs. -/
def Keeps (st : Fleet τ) : ScheduleCall → Prop
  | .deleteServer sid deleted => deleted = false → ∀ kind, expected lib st kind sid = none
  | call => call.unsynced lib st = true → ∀ sid kind, expected lib (call.run lib st) kind sid = expected lib st kind sid

def noFleet : Fleet τ := ⟨⟨[], List.nodup_nil⟩, {}, []⟩

end Keeps

/-! ## The ids of the jobs -/

/-- The number is the digits at the end of an id. -/
theorem jobId_cut (kind : CronKind) (sid : Nat) :
    (jobId kind sid).reverse.takeWhile isDigit = (ofNat sid).reverse ∧ (jobId kind sid).reverse.dropWhile isDigit = kind.jobPrefix.reverse := by
  have hdigits : ∀ c ∈ (ofNat sid).reverse, isDigit c = true := by
    have h := isdigit_ofNat sid
    unfold isdigit at h
    simp only [Bool.and_eq_true, List.all_eq_true] at h
    intro c hc
    exact h.2 c (List.mem_reverse.1 hc)
  have hlead : kind.jobPrefix.reverse.takeWhile isDigit = [] ∧ kind.jobPrefix.reverse.dropWhile isDigit = kind.jobPrefix.reverse := by
    cases kind <;> decide
  rw [jobId, List.reverse_append, List.takeWhile_append_of_pos hdigits, List.dropWhile_append_of_pos hdigits, hlead.1, hlead.2, List.append_nil]
  exact ⟨rfl, rfl⟩

theorem jobId_inj {kind kind' : CronKind} {sid sid' : Nat} : jobId kind sid = jobId kind' sid' ↔ kind = kind' ∧ sid = sid' := by
  constructor
  · intro h
    obtain ⟨hnumber, hlead⟩ := jobId_cut kind sid
    obtain ⟨hnumber', hlead'⟩ := jobId_cut kind' sid'
    rw [h] at hnumber hlead
    have hsid : ofNat sid = ofNat sid' := List.reverse_injective (hnumber.symm.trans hnumber')
    have hkind : kind.jobPrefix = kind'.jobPrefix := List.reverse_injective (hlead.symm.trans hlead')
    constructor
    · revert hkind
      cases kind <;> cases kind' <;> decide
    · rw [← int_ofNat sid, hsid, int_ofNat]
  · rintro ⟨rfl, rfl⟩
    rfl

theorem mem_cronKinds (kind : CronKind) : kind ∈ cronKinds := by cases kind <;> decide

/-! ## What a host's jobs are -/

section Sync
variable {τ : Type} {lib : CronLib τ} {settings : FleetSettings} {registry : Dict Str (CronJob τ)} {h : Host}

theorem get?_register (kind : CronKind) (key : Str) :
    Dict.get? key (register lib settings h registry kind) = if key = jobId kind h.id then wantedJob lib settings h kind else Dict.get? key registry := by
  unfold register
  cases hjob : wantedJob lib settings h kind with
  | none => rw [Dict.get?_del]
  | some job =>
    simp only [Dict.get?_set, Dict.get?_del]
    split <;> rfl

theorem get?_foldl_register (kinds : List CronKind) (kind : CronKind) (sid : Nat) :
    Dict.get? (jobId kind sid) (kinds.foldl (register lib settings h) registry) =
      if sid = h.id ∧ kind ∈ kinds then wantedJob lib settings h kind else Dict.get? (jobId kind sid) registry := by
  induction kinds generalizing registry with
  | nil => simp
  | cons k kinds ih =>
    rw [List.foldl_cons, ih, get?_register]
    simp only [jobId_inj, List.mem_cons]
    by_cases hsid : sid = h.id
    · by_cases hin : kind ∈ kinds
      · simp [hsid, hin]
      · by_cases hk : kind = k
        · simp [hsid, hk]
        · simp [hsid, hin, hk]
    · simp [hsid]

/-- The jobs of the host, and no other ids. -/
theorem get?_registerAll (kind : CronKind) (sid : Nat) :
    Dict.get? (jobId kind sid) (registerAll lib settings registry h) =
      if sid = h.id then wantedJob lib settings h kind else Dict.get? (jobId kind sid) registry := by
  rw [registerAll, get?_foldl_register]
  simp [mem_cronKinds]

theorem get?_foldl_del (kinds : List CronKind) (kind : CronKind) (sid sid' : Nat) :
    Dict.get? (jobId kind sid') (kinds.foldl (fun registry kind => Dict.del (jobId kind sid) registry) registry) =
      if kind ∈ kinds ∧ sid' = sid then none else Dict.get? (jobId kind sid') registry := by
  induction kinds generalizing registry with
  | nil => simp
  | cons k kinds ih =>
    rw [List.foldl_cons, ih, Dict.get?_del]
    simp only [jobId_inj, List.mem_cons]
    by_cases hsid : sid' = sid <;> by_cases hk : kind = k <;> simp [hsid, hk]

theorem get?_unregister (kind : CronKind) (sid sid' : Nat) :
    Dict.get? (jobId kind sid') (unregister sid registry) = if sid' = sid then none else Dict.get? (jobId kind sid') registry := by
  rw [unregister, get?_foldl_del]
  simp [mem_cronKinds]

/-- The flag that a sync puts back is one that was not looked at. -/
theorem wantedJob_restoreFlag (kind : CronKind) : wantedJob lib settings (restoreFlag settings h) kind = wantedJob lib settings h kind := by
  have hwanted : wanted lib settings (restoreFlag settings h) kind = wanted lib settings h kind := by
    unfold restoreFlag
    split
    · rename_i hrun
      cases kind <;> simp only [wanted]
      have hstrip : strip h.containerCheckSchedule ≠ [] := by
        intro hnil
        simp [containerCheckShouldRun, hnil] at hrun
      rw [if_pos hrun, if_pos (by simp [containerCheckShouldRun, hstrip])]
    · rfl
  rw [wantedJob, hwanted, restoreFlag_id]
  rfl

theorem lookup_modify {t : Keyed Host Nat Host.id} {id : Nat} {f : Host → Host} (hf : ∀ h, (f h).id = h.id) (sid : Nat) :
    Table.lookup Host.id sid (t.modify id f hf).rows = (Table.lookup Host.id sid t.rows).map fun h => if h.id = id then f h else h := by
  refine Table.lookup_map (fun h => ?_) sid t.rows
  split <;> simp [hf]

variable {st : Fleet τ} {sid : Nat}

theorem expected_lookup (kind : CronKind) {h : Host} (hh : Table.lookup Host.id sid st.hosts.rows = some h) :
    expected lib st kind sid = wantedJob lib st.settings h kind := by rw [expected, hh, Option.bind_some]

/-- A sync of a host sets its jobs right, and leaves the others' alone. -/
theorem syncServer_agrees (hothers : ∀ sid', sid' ≠ sid → AgreesAt lib st sid')
    (hnone : Table.lookup Host.id sid st.hosts.rows = none → AgreesAt lib st sid) : Agrees lib (syncServer lib sid st) := by
  unfold syncServer
  cases hfound : Table.lookup Host.id sid st.hosts.rows with
  | none =>
    intro sid'
    by_cases hsid : sid' = sid
    · rw [hsid]
      exact hnone hfound
    · exact hothers sid' hsid
  | some h =>
    have hid : h.id = sid := Table.lookup_key hfound
    simp only
    rw [if_neg h.numbered]
    intro sid' kind
    have hexpected : expected lib { st with hosts := st.hosts.modify sid (restoreFlag st.settings) (restoreFlag_id st.settings), registry := registerAll lib st.settings st.registry h } kind sid' =
        expected lib st kind sid' := by
      simp only [expected, lookup_modify, Option.bind_map]
      congr 1
      funext h'
      simp only [Function.comp]
      split
      · exact wantedJob_restoreFlag kind
      · rfl
    rw [hexpected, get?_registerAll, hid]
    split
    · rename_i hsid
      rw [hsid, expected_lookup kind hfound]
    · rename_i hsid
      exact hothers sid' hsid kind

/-- A sync of all hosts. -/
theorem get?_registerAll_foldl {hosts : List Host} (hnodup : (hosts.map Host.id).Nodup) (kind : CronKind) (sid : Nat) :
    Dict.get? (jobId kind sid) (hosts.foldl (registerAll lib settings) registry) =
      match Table.lookup Host.id sid hosts with
      | some h => wantedJob lib settings h kind
      | none => Dict.get? (jobId kind sid) registry := by
  induction hosts generalizing registry with
  | nil => rfl
  | cons h hosts ih =>
    rw [List.map_cons, List.nodup_cons] at hnodup
    rw [List.foldl_cons, ih hnodup.2, get?_registerAll]
    by_cases hsid : h.id = sid
    · have hnone : Table.lookup Host.id sid hosts = none := Table.lookup_eq_none.2 (hsid ▸ hnodup.1)
      have hfirst : Table.lookup Host.id sid (h :: hosts) = some h := by simp [Table.lookup, hsid]
      rw [hnone, hfirst]
      simp [hsid]
    · have hrest : Table.lookup Host.id sid (h :: hosts) = Table.lookup Host.id sid hosts := by simp [Table.lookup, hsid]
      rw [hrest, if_neg (Ne.symm hsid)]

theorem syncAll_agrees (hgone : ∀ sid, Table.lookup Host.id sid st.hosts.rows = none → ∀ kind, Dict.get? (jobId kind sid) st.registry = none) :
    Agrees lib (syncAll lib st) := by
  intro sid kind
  have hrows : Table.lookup Host.id sid (syncAll lib st).hosts.rows = (Table.lookup Host.id sid st.hosts.rows).map (restoreFlag st.settings) :=
    Table.lookup_map (restoreFlag_id st.settings) sid st.hosts.rows
  have hjobs := @get?_registerAll_foldl τ lib st.settings st.registry st.hosts.rows st.hosts.nodup kind sid
  rw [expected, hrows]
  cases hfound : Table.lookup Host.id sid st.hosts.rows with
  | none =>
    rw [hfound] at hjobs
    exact hjobs.trans (hgone sid hfound kind)
  | some h =>
    rw [hfound] at hjobs
    refine hjobs.trans ?_
    rw [Option.map_some, Option.bind_some]
    exact (wantedJob_restoreFlag kind).symm

/-! ## One call -/

/-- Where the scheduler is left as it is, it agrees as long as the same jobs are wanted. -/
theorem agrees_iff_same {st' : Fleet τ} (hregistry : st'.registry = st.registry) (h : Agrees lib st) :
    Agrees lib st' ↔ ∀ sid kind, expected lib st' kind sid = expected lib st kind sid := by
  unfold Agrees AgreesAt
  rw [hregistry]
  refine forall_congr' fun sid => forall_congr' fun kind => ?_
  rw [h sid kind, eq_comm]

section Write
variable {f : Host → Host} (hf : ∀ h, (f h).id = h.id)

theorem lookup_writeHost (sid' : Nat) : Table.lookup Host.id sid' (writeHost sid f hf st).hosts.rows =
    (Table.lookup Host.id sid' st.hosts.rows).map fun h => if h.id = sid then f h else h := lookup_modify hf sid'

theorem expected_writeHost_ne {sid' : Nat} (hne : sid' ≠ sid) (kind : CronKind) :
    expected lib (writeHost sid f hf st) kind sid' = expected lib st kind sid' := by
  rw [expected, lookup_writeHost, expected]
  cases hfound : Table.lookup Host.id sid' st.hosts.rows with
  | none => rfl
  | some h =>
    have hid : h.id ≠ sid := by rwa [Table.lookup_key hfound]
    rw [Option.map_some, if_neg hid]
    rfl

/-- A page that writes a host and registers its jobs. -/
theorem Agrees.save (h : Agrees lib st) : Agrees lib (syncServer lib sid (Schedule.writeHost sid f hf st)) := by
  refine syncServer_agrees (fun sid' hne kind => ?_) fun hnone kind => ?_
  · rw [expected_writeHost_ne hf hne]
    exact h sid' kind
  · rw [lookup_writeHost, Option.map_eq_none_iff] at hnone
    have hbefore := h sid kind
    rw [expected, hnone] at hbefore
    rw [expected, lookup_writeHost, hnone]
    exact hbefore

end Write

/-- A host that is gone has no jobs. -/
theorem Agrees.gone (h : Agrees lib st) (hnone : Table.lookup Host.id sid st.hosts.rows = none) (kind : CronKind) :
    Dict.get? (jobId kind sid) st.registry = none := by
  rw [h sid kind, expected, hnone]
  rfl

theorem lookup_map_none {f : Host → Host} (hf : ∀ h, (f h).id = h.id) {hosts : List Host} (hnone : Table.lookup Host.id sid (hosts.map f) = none) :
    Table.lookup Host.id sid hosts = none := by
  rw [Table.lookup_map hf, Option.map_eq_none_iff] at hnone
  exact hnone

theorem createServer_agrees (h : Agrees lib st) : Agrees lib (createServer lib st) := by
  have hfresh : freshId (st.hosts.rows.map Host.id) ∉ st.hosts.rows.map Host.id := freshId_not_mem _
  refine syncServer_agrees (fun sid' hne kind => ?_) fun hnone => ?_
  · refine (h sid' kind).trans ?_
    have hrest : Table.lookup Host.id sid' (st.hosts.rows ++ [{ id := freshId (st.hosts.rows.map Host.id), numbered := freshId_ne_zero _, backupEnabled := true }]) =
        Table.lookup Host.id sid' st.hosts.rows := by
      have hnew : ¬ freshId (st.hosts.rows.map Host.id) = sid' := fun heq => hne heq.symm
      simp only [Table.lookup, List.find?_append, List.find?_cons, hnew, decide_false, List.find?_nil, Option.or_none]
    rw [expected, ← hrest]
    rfl
  · have hin := Table.lookup_eq_none.1 hnone
    simp at hin

theorem syncAll_keeps (h : Agrees lib st) {f : Host → Host} (hf : ∀ h, (f h).id = h.id) (settings : FleetSettings) :
    Agrees lib (syncAll lib { st with settings := settings, hosts := st.hosts.map f hf }) :=
  syncAll_agrees fun _ hnone => h.gone (lookup_map_none hf hnone)

theorem lookup_filter_ne (hosts : List Host) (sid' : Nat) :
    Table.lookup Host.id sid' (hosts.filter fun h => h.id != sid) = if sid' = sid then none else Table.lookup Host.id sid' hosts := by
  unfold Table.lookup
  induction hosts with
  | nil => simp
  | cons x hosts ih =>
    by_cases hx : x.id = sid
    · rw [List.filter_cons_of_neg (by simp [hx]), ih]
      by_cases hsid : sid' = sid
      · simp [hsid]
      · have hne : ¬ sid = sid' := Ne.symm hsid
        simp [hx, hsid, hne]
    · rw [List.filter_cons_of_pos (by simp [hx]), List.find?_cons, ih, List.find?_cons]
      by_cases hsid : sid' = sid <;> simp [hsid, hx]

theorem deleteServer_iff (h : Agrees lib st) (deleted : Bool) :
    Agrees lib ((ScheduleCall.deleteServer sid deleted).run lib st) ↔ (deleted = false → ∀ kind, expected lib st kind sid = none) := by
  cases deleted with
  | true =>
    refine iff_of_true (fun sid' kind => ?_) (by simp)
    simp only [ScheduleCall.run, if_true, get?_unregister, expected, deleteHost, lookup_filter_ne]
    split
    · rfl
    · exact h sid' kind
  | false =>
    have hexpected : ∀ kind sid', expected lib ((ScheduleCall.deleteServer sid false).run lib st) kind sid' = expected lib st kind sid' := fun _ _ => rfl
    constructor
    · intro hagrees _ kind
      have hat := hagrees sid kind
      rw [hexpected] at hat
      rw [← hat]
      simp only [ScheduleCall.run, get?_unregister, if_true]
    · intro hnone sid' kind
      rw [hexpected]
      simp only [ScheduleCall.run, get?_unregister]
      split
      · rename_i hsid
        rw [hsid, hnone rfl kind]
      · exact h sid' kind

theorem saveFleet_iff (h : Agrees lib st) (form : FleetForm) :
    Agrees lib ((ScheduleCall.saveFleet form).run lib st) ↔ Keeps lib st (.saveFleet form) := by
  by_cases hsynced : ScheduleCall.unsynced lib st (.saveFleet form) = true
  · -- the form is refused, or ends before the jobs are registered
    have hregistry : ((ScheduleCall.saveFleet form).run lib st).registry = st.registry := by
      simp only [ScheduleCall.unsynced, FleetForm.applies, FleetForm.movesBackups] at hsynced
      simp only [ScheduleCall.run, saveUpdateCheckDefaults]
      split_ifs with _ happly hmoves
      · rfl
      · split
        · rename_i os container hos hcontainer
          simp [happly, hos, hcontainer] at hsynced
        · rfl
      · simp [happly, hmoves] at hsynced
      · rfl
    rw [agrees_iff_same hregistry h]
    simp only [Keeps, hsynced, forall_true_left]
  · refine iff_of_true ?_ fun hyes => absurd hyes hsynced
    simp only [ScheduleCall.run, saveUpdateCheckDefaults]
    simp only [ScheduleCall.unsynced, FleetForm.applies, FleetForm.movesBackups] at hsynced
    split_ifs with _ happly hmoves
    · exact h
    · split
      · exact syncAll_keeps h _ _
      · rename_i hfails
        have hvalid : (validateCron lib (orDefault (strip form.osCron) defaultMidnightCron)).isSome = true ∧
            (validateCron lib (orDefault (strip form.containerCron) defaultMidnightCron)).isSome = true := by
          simpa [happly, Option.isSome_iff_ne_none] using hsynced
        obtain ⟨os, hos⟩ := Option.isSome_iff_exists.1 hvalid.1
        obtain ⟨container, hcontainer⟩ := Option.isSome_iff_exists.1 hvalid.2
        exact (hfails os container hos hcontainer).elim
    · exact syncAll_agrees fun _ => h.gone
    · simp [happly, hmoves] at hsynced

/-- **One call**: the scheduler still agrees exactly when the call registers what it changes, or changes nothing that is wanted. -/
theorem agrees_run_iff (h : Agrees lib st) (call : ScheduleCall) : Agrees lib (call.run lib st) ↔ Keeps lib st call := by
  have hsave : ∀ {sid f} (hf : ∀ h, (f h).id = h.id), Agrees lib (syncServer lib sid (writeHost sid f hf st)) := fun hf => h.save hf
  have hrefusing : ∀ {sid feature} {st' : Fleet τ}, Agrees lib st' → Agrees lib (refusing sid feature st st') := by
    intro sid feature st' h'
    unfold refusing
    split <;> assumption
  cases call with
  | addServer => exact iff_of_true (createServer_agrees h) (by simp [Keeps, ScheduleCall.unsynced])
  | saveOsCheck sid on cron => exact iff_of_true (hsave _) (by simp [Keeps, ScheduleCall.unsynced])
  | saveContainerCheck sid on cron => exact iff_of_true (hsave _) (by simp [Keeps, ScheduleCall.unsynced])
  | saveOsApply sid on cron => exact iff_of_true (hrefusing (hsave _)) (by simp [Keeps, ScheduleCall.unsynced])
  | saveContainerApply sid on cron => exact iff_of_true (hrefusing (hsave _)) (by simp [Keeps, ScheduleCall.unsynced])
  | savePrune sid cron => exact iff_of_true (hrefusing (hsave _)) (by simp [Keeps, ScheduleCall.unsynced])
  | saveBackups sid schedule => exact iff_of_true (hsave _) (by simp [Keeps, ScheduleCall.unsynced])
  | wizardFeatures sid backup os docker => exact iff_of_true (hsave _) (by simp [Keeps, ScheduleCall.unsynced])
  | apiFeatures sid backup os docker =>
    cases backup with
    | some on => exact iff_of_true (hsave _) (by simp [Keeps, ScheduleCall.unsynced])
    | none =>
      have hregistry : ((ScheduleCall.apiFeatures sid none os docker).run lib st).registry = st.registry := rfl
      rw [agrees_iff_same hregistry h]
      simp [Keeps, ScheduleCall.unsynced]
  | editServer sid backup os docker =>
    by_cases hchanged : (Table.lookup Host.id sid st.hosts.rows).any (fun h => h.backupEnabled != backup) = true
    · refine iff_of_true ?_ (by simp [Keeps, ScheduleCall.unsynced, hchanged])
      simp only [ScheduleCall.run, if_pos hchanged]
      exact hsave _
    · have hregistry : ((ScheduleCall.editServer sid backup os docker).run lib st).registry = st.registry := by
        simp only [ScheduleCall.run, if_neg hchanged]
        rfl
      rw [agrees_iff_same hregistry h]
      simp [Keeps, ScheduleCall.unsynced, hchanged]
  | saveFleet form => exact saveFleet_iff h form
  | saveTimezone timezone =>
    have hregistry : ((ScheduleCall.saveTimezone timezone).run lib st).registry = st.registry := rfl
    rw [agrees_iff_same hregistry h]
    simp [Keeps, ScheduleCall.unsynced]
  | deleteServer sid deleted => exact deleteServer_iff h deleted
  | fireContainerCheck sid =>
    have hregistry : ((ScheduleCall.fireContainerCheck sid).run lib st).registry = st.registry := rfl
    refine iff_of_true ((agrees_iff_same hregistry h).2 fun sid' kind => ?_) (by simp [Keeps, ScheduleCall.unsynced])
    rw [ScheduleCall.run, expected, lookup_writeHost, expected, Option.bind_map]
    congr 1
    funext x
    simp only [Function.comp]
    split
    · exact wantedJob_restoreFlag kind
    · rfl
  | restart => exact iff_of_true (syncAll_agrees fun _ _ _ => rfl) (by simp [Keeps, ScheduleCall.unsynced])

/-! ## What the missed-run watch expects -/

theorem triggerOf_strip (timezone cron : Str) : triggerOf lib timezone (strip cron) = triggerOf lib timezone cron := by
  unfold triggerOf
  rw [strip_strip]

theorem triggerOf_blank {timezone cron : Str} (h : strip cron = []) : triggerOf lib timezone cron = none := by
  unfold triggerOf
  rw [h]
  rfl

/-- The watch works out a cron of its own; it is the one that the job was made from. -/
theorem cronFor_eq (settings : FleetSettings) (h : Host) {kind : CronKind} (hkind : kind ∈ [.backup, .containerCheck, .dockerPrune]) :
    (cronFor lib settings h kind).bind (triggerOf lib settings.timezone) = (wanted lib settings h kind).bind (triggerOf lib settings.timezone) := by
  have hcases : kind = .backup ∨ kind = .containerCheck ∨ kind = .dockerPrune := by simpa using hkind
  obtain rfl | rfl | rfl := hcases
  · simp only [cronFor, wanted]
    split
    · by_cases hown : strip h.backupSchedule = []
      · simp only [hown, ne_eq, not_true_eq_false, if_false, if_true, if_neg h.numbered]
        cases hfleet : effectiveFleetCron lib settings h.id with
        | none => rfl
        | some cron =>
          simp only [Option.bind_some]
          split
          · rename_i hblank
            rw [triggerOf_blank hblank]
            rfl
          · exact triggerOf_strip _ _
      · simp [hown]
    · rfl
  · simp only [cronFor, wanted]
    split
    · split
      · rename_i hblank
        exact (triggerOf_blank hblank).symm
      · exact triggerOf_strip _ _
    · rfl
  · simp only [cronFor, wanted]
    by_cases hpatch : h.containerPatchEnabled = true <;> by_cases hblank : strip h.dockerPruneSchedule = [] <;> simp [hpatch, hblank]

/-- **The scheduler's jobs**, after any run of the calls from the empty fleet: they are those that the settings call for all along exactly when no
call that does not register changes what is wanted, and no delete fails of a host that has jobs. While that is so, the watch for missed runs
expects a run of exactly the backup, container check and prune jobs that are there, at the times at which they run. -/
theorem registry_agrees_iff (lib : CronLib τ) (calls : List ScheduleCall) :
    ((∀ pre post, calls = pre ++ post → Agrees lib (runs (ScheduleCall.run lib) noFleet pre)) ↔
      Guarded (ScheduleCall.run lib) (Keeps lib) noFleet calls) ∧
    (Guarded (ScheduleCall.run lib) (Keeps lib) noFleet calls →
      let st := runs (ScheduleCall.run lib) noFleet calls
      ∀ h ∈ st.hosts.rows, ∀ kind ∈ [CronKind.backup, .containerCheck, .dockerPrune],
        (Dict.get? (jobId kind h.id) st.registry).map CronJob.trigger =
          (cronFor lib st.settings h kind).bind (triggerOf lib st.settings.timezone)) := by
  have hiff := @runs_hold_iff _ _ (ScheduleCall.run lib) (Keeps lib) (fun _ _ => True) (fun _ => True) (Agrees lib) noFleet
    (fun _ _ _ => trivial) (fun _ call _ h => by simpa using agrees_run_iff h call) trivial (fun _ _ => rfl) calls
  have hagrees : (∀ pre post, calls = pre ++ post → Agrees lib (runs (ScheduleCall.run lib) noFleet pre)) ↔
      Guarded (ScheduleCall.run lib) (Keeps lib) noFleet calls := by simpa using hiff
  refine ⟨hagrees, ?_⟩
  intro hguarded st h hh kind hkind
  have hat := hagrees.2 hguarded calls [] (List.append_nil calls).symm h.id kind
  have hfound : Table.lookup Host.id h.id st.hosts.rows = some h := (Table.lookup_iff st.hosts.nodup).2 ⟨hh, rfl⟩
  rw [hat, expected_lookup kind hfound, cronFor_eq st.settings h hkind, wantedJob, Option.map_map]
  exact Option.map_id'

/-- A trigger that is its own fields and timezone. -/
def plainCron : CronLib (List Str × Str) := ⟨fun parts timezone => some (parts, timezone), fun _ => true⟩

/-- A prune that is saved, taken away with the feature, and not there again when the feature is turned on over the API. -/
def pruneLost : List ScheduleCall :=
  [.addServer, .wizardFeatures 1 true true true, .savePrune 1 (lit "0 3 * * 0"), .wizardFeatures 1 true true false, .apiFeatures 1 none none (some true)]

theorem registry_agrees_iff_pruneLost : ¬ ∀ pre post, pruneLost = pre ++ post → Agrees plainCron (runs (ScheduleCall.run plainCron) noFleet pre) := by
  rw [(registry_agrees_iff plainCron pruneLost).1, guarded_iff]
  intro h
  have hkeeps := h (pruneLost.take 4) (.apiFeatures 1 none none (some true)) [] rfl rfl 1 .dockerPrune
  revert hkeeps
  decide

end Sync

end PiHerder.Schedule
