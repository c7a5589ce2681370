import PiHerder.Backup.Ownership

/-!
# What is alerted, and how loudly

| here | there (`services/alert_policy.py`) |
| --- | --- |
| `Severity`, `categories`, `TypeSpec`, `catalog` | `SEVERITIES`, `CATEGORIES`, `CATALOG` (17–164) |
| `clampInt`, `clampDebounce`, `clampRealert` | 172–185 |
| `asDict`, `specFor`, `categoryOf`, `labelOf`, `typesInCategory` | 188–228 |
| `overlay`, `effective`, `resolveSeverity` | 235–312 |
| `policyFromForm` | 355–381 |
| `parseAllowlist`, `allowlistFromForm`, `categoryAllowed` | 402–450 |

A stored number is an `int` of Python's: infinity makes it raise. `Fin` carries the bounds of a clamped number.
-/
namespace PiHerder.Alerts
open Lib Lib.Str Backup

/-! ## The catalog -/

inductive Severity
  | info | warning | critical
deriving DecidableEq, Repr

namespace Severity

def str : Severity → Str
  | info => lit "info"
  | warning => lit "warning"
  | critical => lit "critical"

def all : List Severity := [info, warning, critical]

def ofStr (s : Str) : Option Severity := all.find? fun v => v.str == s

end Severity

/-- Ids and labels. -/
def categories : List (Str × Str) :=
  [(lit "host", lit "Hosts"), (lit "inventory", lit "Inventory"), (lit "integration", lit "Kuma services"), (lit "map_infra", lit "Map infra"),
    (lit "discovery", lit "LAN discovery"), (lit "stack", lit "PiHerder stack"), (lit "cert", lit "Certificates"), (lit "backup", lit "Backups"),
    (lit "updates", lit "Updates"), (lit "template", lit "Templates"), (lit "admin", lit "Admin")]

def categoryIds : List Str := categories.map Prod.fst

/-- Minutes of a debounce: at most a week. -/
abbrev Minutes := Fin 10081

/-- Hours of a re-alert: at most a week. -/
abbrev Hours := Fin 169

/-- No severity of its own: the emitter's hint. -/
structure TypeSpec where
  id : Str
  category : Str
  label : Str
  defaultSeverity : Option Severity
  enabled : Bool := true
  debounceMinutes : Minutes := 0
  realertHours : Hours := 0
deriving DecidableEq, Repr

structure EffectivePolicy where
  typeId : Str
  category : Str
  label : Str
  enabled : Bool
  severity : Option Severity
  debounceMinutes : Minutes
  realertHours : Hours
deriving DecidableEq, Repr

def catalog : List TypeSpec :=
  [⟨lit "host_down", lit "host", lit "Host down (Kuma SSH)", some .critical, true, 15, 24⟩,
    ⟨lit "stack_container_down", lit "inventory", lit "Monitored container down", some .critical, true, 15, 0⟩,
    ⟨lit "integration_monitor_down", lit "integration", lit "Kuma service down", some .critical, true, 15, 0⟩,
    ⟨lit "map_infra_down", lit "map_infra", lit "Gateway / WAN down", some .warning, true, 15, 0⟩,
    ⟨lit "nmap_new_device", lit "discovery", lit "New LAN device", some .warning, true, 60, 0⟩,
    ⟨lit "nmap_device_offline", lit "discovery", lit "LAN device offline", some .info, true, 0, 0⟩,
    ⟨lit "lan_discovery", lit "discovery", lit "Possible NIC change", some .info, true, 0, 0⟩,
    ⟨lit "stack_health", lit "stack", lit "PiHerder stack health", none, true, 0, 0⟩,
    ⟨lit "stuck_queue", lit "stack", lit "Job queue stuck", some .warning, true, 0, 0⟩,
    ⟨lit "cert_expiring", lit "cert", lit "Certificate expiring", some .warning, true, 0, 0⟩,
    ⟨lit "cert_renew_failed", lit "cert", lit "Certificate renew failed", some .critical, true, 0, 0⟩,
    ⟨lit "cert_deploy_failed", lit "cert", lit "Certificate deploy failed", some .critical, true, 0, 0⟩,
    ⟨lit "cert_verify_failed", lit "cert", lit "Certificate verify failed", none, true, 0, 0⟩,
    ⟨lit "backup_failed", lit "backup", lit "Host backup failed", some .critical, true, 0, 0⟩,
    ⟨lit "herder_backup_failed", lit "backup", lit "PiHerder self-backup failed", some .critical, true, 0, 0⟩,
    ⟨lit "backup_destination_auth_failed", lit "backup", lit "Backup destination needs Connect again", some .critical, true, 0, 0⟩,
    ⟨lit "backup_stale", lit "backup", lit "Host backup is stale", some .warning, true, 0, 0⟩,
    ⟨lit "backup_schedule_missed", lit "backup", lit "Scheduled backup did not start", some .warning, true, 0, 0⟩,
    ⟨lit "backup_copy_early", lit "backup", lit "Destination copy runs before host backups", some .warning, true, 0, 0⟩,
    ⟨lit "container_check_missed", lit "updates", lit "Scheduled container check did not start", some .warning, true, 0, 0⟩,
    ⟨lit "docker_prune_missed", lit "updates", lit "Scheduled Docker prune did not start", some .warning, true, 0, 0⟩,
    ⟨lit "os_updates", lit "updates", lit "OS updates", some .warning, true, 0, 0⟩,
    ⟨lit "reboot_pending", lit "updates", lit "Reboot pending", some .warning, true, 0, 0⟩,
    ⟨lit "container_updates", lit "updates", lit "Container image updates", some .warning, true, 0, 0⟩,
    ⟨lit "template_drift", lit "template", lit "Template config drift", some .warning, true, 0, 0⟩,
    ⟨lit "admin_change", lit "admin", lit "User, token, or 2FA change", some .warning, true, 0, 0⟩]

/-- `PINNED_CRITICAL`. -/
def pinnedCritical : List Str := [lit "backup_destination_auth_failed"]

def specFor (typeId : Str) : Option TypeSpec := catalog.find? fun t => t.id == strip typeId

def categoryOf (typeId : Str) : Str := ((specFor typeId).map TypeSpec.category).getD (lit "other")

def labelOf (typeId : Str) : Str :=
  match specFor typeId with
  | some spec => spec.label
  | none => (if strip typeId = [] then lit "other" else strip typeId).map fun c => if c = '_' then ' ' else c

def typesInCategory (category : Str) : List Str := (catalog.filter fun t => t.category == strip category).map TypeSpec.id

/-! ## Overlays -/

abbrev Obj := Dict Str JsonValue

/-- `d.get(key)` where it is a dict. -/
def dictAt (d : Obj) (key : Str) : Option Obj :=
  match JsonValue.get d key with
  | .obj items => some items
  | _ => none

/-- `_as_dict`, of what the settings have under `alert_type_policy`. -/
def asDict (loads : Str → Option JsonValue) : JsonValue → Obj
  | .obj items => items
  | .str raw =>
    if strip raw = [] then []
    else match loads raw with
      | some (.obj items) => items
      | _ => []
  | _ => []

theorem min_lt (hi n : Nat) : min hi n < hi + 1 := by omega

/-- `max(0, min(hi, n))`, of a number that is not negative. -/
def cap (hi n : Nat) : Fin (hi + 1) := ⟨min hi n, min_lt hi n⟩

section Policy
variable (py : Python)

/-- `_clamp_int` from 0 up; `.error` where `int` raises an `OverflowError`. -/
def clampInt {hi : Nat} (raw : JsonValue) (default : Fin (hi + 1)) : Except Unit (Fin (hi + 1)) :=
  (intOf py raw).map fun number =>
    match number with
    | none => default
    | some n => cap hi n.toNat

def clampDebounce (raw : JsonValue) (default : Minutes) : Except Unit Minutes := clampInt py raw default

def clampRealert (raw : JsonValue) (default : Hours) : Except Unit Hours := clampInt py raw default

/-- `v is not None and str(v) != ""`. -/
def isGiven : JsonValue → Bool
  | .null => false
  | .str s => s != []
  | _ => true

/-- `_overlay` -/
def overlay (base : EffectivePolicy) : Option Obj → Except Unit EffectivePolicy
  | none => .ok base
  | some ov =>
    if ov.isEmpty then .ok base
    else do
      let enabled := ((ov.get? (lit "enabled")).map JsonValue.truthy).getD base.enabled
      let severity := match JsonValue.get ov (lit "severity") with
        | .null => base.severity
        | v => (Severity.ofStr (lower (strip (v.text py.repr)))).or base.severity
      let debounce ← if isGiven (JsonValue.get ov (lit "debounce_minutes")) then
        clampDebounce py (JsonValue.get ov (lit "debounce_minutes")) base.debounceMinutes else .ok base.debounceMinutes
      let realert ← if isGiven (JsonValue.get ov (lit "realert_hours")) then
        clampRealert py (JsonValue.get ov (lit "realert_hours")) base.realertHours else .ok base.realertHours
      return { base with enabled := enabled, severity := severity, debounceMinutes := debounce, realertHours := realert }

/-- The policy of a type that is not in the catalog. -/
def unlisted (tid label : Str) : EffectivePolicy := ⟨tid, lit "other", label, true, none, 0, 0⟩

/-- The catalog's own word on a type. -/
def basePolicy (tid : Str) : EffectivePolicy :=
  match specFor tid with
  | some spec => ⟨spec.id, spec.category, spec.label, spec.enabled, spec.defaultSeverity, spec.debounceMinutes, spec.realertHours⟩
  | none => unlisted tid (labelOf tid)

def effective (policy : Obj) (typeId : Str) : Except Unit EffectivePolicy := do
  let tid := if strip typeId = [] then lit "other" else strip typeId
  let base := basePolicy tid
  let out ← overlay py base (dictAt ((dictAt policy (lit "categories")).getD []) base.category)
  let out ← overlay py out (dictAt ((dictAt policy (lit "types")).getD []) tid)
  return if pinnedCritical.contains out.typeId then { out with severity := some .critical } else out

/-- `resolve_severity`, of a hint that is a text. -/
def resolveSeverity (policy : EffectivePolicy) (hint : Str) : Severity :=
  policy.severity.getD ((Severity.ofStr (lower (strip (if hint = [] then lit "warning" else hint)))).getD .warning)

/-! ## The settings page -/

/-- `form.get(key)` -/
def formValue (form : Dict Str Str) (key : Str) : JsonValue :=
  match form.get? key with
  | some s => .str s
  | none => .null

def formOn (form : Dict Str Str) (key : Str) : Bool :=
  [lit "1", lit "on", lit "true", lit "yes"].contains ((form.get? key).getD [])

/-- The largest debounce of the category's types. -/
def specDebounce (cid : Str) : Minutes := (catalog.filter fun t => t.category == cid).foldl (fun d t => max d t.debounceMinutes) 0

def specRealert (cid : Str) : Hours := (catalog.filter fun t => t.category == cid).foldl (fun d t => max d t.realertHours) 0

/-- What the page says of a category. -/
structure CategoryRow where
  enabled : Bool
  debounceMinutes : Minutes
  realertHours : Hours
  severity : Option Severity
deriving DecidableEq, Repr

def CategoryRow.toObj (row : CategoryRow) : Obj :=
  [(lit "enabled", .bool row.enabled), (lit "debounce_minutes", .int row.debounceMinutes.val), (lit "realert_hours", .int row.realertHours.val)] ++
    match row.severity with
    | some v => [(lit "severity", .str v.str)]
    | none => []

def categoryRow (form : Dict Str Str) (cid : Str) : Except Unit CategoryRow := do
  let debounce ← clampDebounce py (formValue form (lit "cat_debounce_" ++ cid)) (specDebounce cid)
  let realert ← clampRealert py (formValue form (lit "cat_realert_" ++ cid)) (specRealert cid)
  let given := (form.get? (lit "cat_severity_" ++ cid)).getD []
  let sev := lower (strip (if given = [] then lit "default" else given))
  return ⟨formOn form (lit "cat_enabled_" ++ cid), debounce, realert, Severity.ofStr sev⟩

/-- The types' own overlays stay. -/
def policyFromForm (prev : Obj) (form : Dict Str Str) : Except Unit Obj := do
  let rows ← categoryIds.mapM fun cid => (categoryRow py form cid).map fun row => (cid, JsonValue.obj row.toObj)
  return [(lit "categories", .obj rows), (lit "types", .obj ((dictAt prev (lit "types")).getD []))]

/-- `NONE_SENTINEL` -/
def noneSentinel : Str := lit "_none"

/-- Is it this text? -/
def isText (s : Str) : JsonValue → Bool
  | .str t => t == s
  | _ => false

/-- All categories, where it is `none`. -/
def parseAllowlist (loads : Str → Option JsonValue) (raw : JsonValue) : Option (List Str) :=
  let ofItems (data : List JsonValue) : Option (List Str) :=
    if data.isEmpty then none
    else if data.any (isText noneSentinel) && data.all (isText noneSentinel) then some []
    else
      let cats := (data.map fun c => strip (c.text py.repr)).filter fun c => categoryIds.contains c
      if cats.isEmpty then none else some cats
  match raw with
  | .str [] => none
  | .str text =>
    let t := strip text
    if t = [] ∨ t = lit "[]" ∨ t = lit "*" then none
    else match loads t with
      | some (.arr data) => ofItems data
      | some _ => none
      | none => ofItems ((((split ',' t).map strip).filter fun x => !x.isEmpty).map .str)
  | .arr data => ofItems data
  | _ => none

end Policy

/-- What is stored: `none` where the page did not ask. -/
def allowlistFromForm (form : Dict Str Str) (pfx submittedKey : Str) : Option (List Str) :=
  if !formOn form submittedKey then none
  else
    let checked := categoryIds.filter fun cid => formOn form (pfx ++ cid)
    if checked.length = categoryIds.length then some []
    else if checked = [] then some [noneSentinel]
    else some checked

def categoryAllowed (category : Str) : Option (List Str) → Bool
  | none => true
  | some [] => false
  | some allowlist => allowlist.contains (if strip category = [] then lit "other" else strip category)

/-- Which boxes the page ticks. -/
def checkedCategories : Option (List Str) → List Str
  | none => categoryIds
  | some allowlist => categoryIds.filter fun c => allowlist.contains c

/-! ## A saved page -/

variable {py : Python}

theorem intOf_formValue (form : Dict Str Str) (key : Str) : ∃ n, intOf py (formValue form key) = .ok n := by
  unfold formValue
  split
  · exact ⟨_, rfl⟩
  · exact ⟨_, rfl⟩

/-- A form never makes `int` raise what is not caught. -/
theorem categoryRow_ok (form : Dict Str Str) (cid : Str) : ∃ row, categoryRow py form cid = .ok row := by
  obtain ⟨d, hd⟩ := @intOf_formValue py form (lit "cat_debounce_" ++ cid)
  obtain ⟨r, hr⟩ := @intOf_formValue py form (lit "cat_realert_" ++ cid)
  unfold categoryRow clampDebounce clampRealert clampInt
  rw [hd, hr]
  exact ⟨_, rfl⟩

theorem mapM_rows (form : Dict Str Str) (row : Str → CategoryRow) : ∀ cids : List Str, (∀ cid ∈ cids, categoryRow py form cid = .ok (row cid)) →
    (cids.mapM fun cid => (categoryRow py form cid).map fun row => (cid, JsonValue.obj row.toObj)) =
      .ok (cids.map fun cid => (cid, JsonValue.obj (row cid).toObj)) := by
  intro cids
  induction cids with
  | nil => intro _; rfl
  | cons cid cids ih =>
    intro h
    rw [List.mapM_cons, h cid (by simp), ih fun c hc => h c (by simp [hc])]
    rfl

theorem get?_rows (row : Str → CategoryRow) (cid : Str) : ∀ cids : List Str, cid ∈ cids →
    Dict.get? cid (cids.map fun c => (c, JsonValue.obj (row c).toObj)) = some (.obj (row cid).toObj) := by
  intro cids
  induction cids with
  | nil => intro h; cases h
  | cons c cids ih =>
    intro h
    by_cases hc : c = cid
    · simp [Dict.get?, hc]
    · have hne : cid ≠ c := Ne.symm hc
      have hin : cid ∈ cids := by simpa [hne] using h
      simpa [Dict.get?, hne] using ih hin

theorem clampInt_val {hi : Nat} (v d : Fin (hi + 1)) : clampInt py (.int v.val) d = .ok v := by
  have hv := v.isLt
  simp only [clampInt, intOf, Except.map]
  congr 1
  ext
  simp only [cap, Int.toNat_natCast]
  omega

/-- What a row of the page makes of a type. -/
def CategoryRow.policy (row : CategoryRow) (t : TypeSpec) : EffectivePolicy :=
  ⟨t.id, t.category, t.label, row.enabled, row.severity.or t.defaultSeverity, row.debounceMinutes, row.realertHours⟩

namespace CategoryRow
variable (row : CategoryRow)

theorem toObj_enabled : row.toObj.get? (lit "enabled") = some (.bool row.enabled) := rfl

theorem toObj_debounce : JsonValue.get row.toObj (lit "debounce_minutes") = .int row.debounceMinutes.val := rfl

theorem toObj_realert : JsonValue.get row.toObj (lit "realert_hours") = .int row.realertHours.val := rfl

theorem toObj_severity : JsonValue.get row.toObj (lit "severity") = (row.severity.map fun v => JsonValue.str v.str).getD .null := by
  cases row with
  | mk enabled d r sev => cases sev <;> rfl

end CategoryRow

/-- A row of the page leaves nothing of the catalog's numbers. -/
theorem overlay_row (row : CategoryRow) (t : TypeSpec) :
    overlay py ⟨t.id, t.category, t.label, t.enabled, t.defaultSeverity, t.debounceMinutes, t.realertHours⟩ (some row.toObj) =
      .ok (row.policy t) := by
  have hd : clampDebounce py (.int row.debounceMinutes.val) t.debounceMinutes = .ok row.debounceMinutes := clampInt_val _ _
  have hr : clampRealert py (.int row.realertHours.val) t.realertHours = .ok row.realertHours := clampInt_val _ _
  have hne : row.toObj.isEmpty = false := rfl
  simp only [overlay, hne, Bool.false_eq_true, if_false, row.toObj_enabled, row.toObj_debounce, row.toObj_realert, row.toObj_severity,
    isGiven, if_true, hd, hr]
  cases hsev : row.severity with
  | none => simp [CategoryRow.policy, hsev, JsonValue.truthy, bind, Except.bind, pure, Except.pure]
  | some v =>
    have hread : Severity.ofStr (lower (strip v.str)) = some v := by cases v <;> decide
    simp [CategoryRow.policy, hsev, JsonValue.truthy, JsonValue.text, hread, bind, Except.bind, pure, Except.pure]

theorem catalog_sound : ∀ t ∈ catalog, t.category ∈ categoryIds ∧ strip t.id = t.id ∧ t.id ≠ [] ∧ specFor t.id = some t := by
  decide +kernel

/-- The last word on a type whose quiet is not for the operator to choose. -/
def pin (p : EffectivePolicy) : EffectivePolicy := if pinnedCritical.contains p.typeId then { p with severity := some .critical } else p

/-- **What a saved page means.** Saving never fails; every type of a category then has the numbers the page has for the category,
whatever numbers the catalog has for the type, and only the types' own overlays come after that. -/
theorem saved_policy (prev : Obj) (form : Dict Str Str) :
    ∃ policy, policyFromForm py prev form = .ok policy ∧ ∀ t ∈ catalog, ∃ row, categoryRow py form t.category = .ok row ∧
      effective py policy t.id = (overlay py (row.policy t) (dictAt ((dictAt prev (lit "types")).getD []) t.id)).map pin := by
  choose row hrow using fun cid => @categoryRow_ok py form cid
  refine ⟨[(lit "categories", .obj (categoryIds.map fun cid => (cid, JsonValue.obj (row cid).toObj))),
    (lit "types", .obj ((dictAt prev (lit "types")).getD []))], ?_, fun t ht => ⟨row t.category, hrow _, ?_⟩⟩
  · unfold policyFromForm
    rw [mapM_rows form row categoryIds fun cid _ => hrow cid]
    rfl
  · obtain ⟨hcat, hstrip, hne, hspec⟩ := catalog_sound t ht
    have hcats : dictAt ((dictAt [(lit "categories", JsonValue.obj (categoryIds.map fun cid => (cid, JsonValue.obj (row cid).toObj))),
        (lit "types", .obj ((dictAt prev (lit "types")).getD []))] (lit "categories")).getD []) t.category = some (row t.category).toObj := by
      show dictAt (categoryIds.map fun cid => (cid, JsonValue.obj (row cid).toObj)) t.category = _
      rw [dictAt, JsonValue.get, get?_rows row t.category categoryIds hcat]
      rfl
    have htypes : (dictAt [(lit "categories", JsonValue.obj (categoryIds.map fun cid => (cid, JsonValue.obj (row cid).toObj))),
        (lit "types", .obj ((dictAt prev (lit "types")).getD []))] (lit "types")).getD [] = (dictAt prev (lit "types")).getD [] := rfl
    have hbase : basePolicy t.id = ⟨t.id, t.category, t.label, t.enabled, t.defaultSeverity, t.debounceMinutes, t.realertHours⟩ := by
      simp [basePolicy, hspec]
    unfold effective
    simp only [hstrip, if_neg hne, hbase, hcats, htypes, overlay_row]
    rfl

/-! ## The lists of the channels -/

theorem isText_map (s : Str) (xs : List Str) : (xs.map JsonValue.str).any (isText s) = xs.contains s ∧
    (xs.map JsonValue.str).all (isText s) = xs.all (· == s) := by
  constructor
  · rw [List.any_map, List.contains_eq_any_beq]
    congr 1
    funext t
    simp [isText, Bool.beq_comm]
  · rw [List.all_map]
    rfl

/-- Categories that are stored are read back. -/
theorem parseAllowlist_cats {loads : Str → Option JsonValue} {cats : List Str} (hne : cats ≠ []) (hcats : ∀ c ∈ cats, c ∈ categoryIds) :
    parseAllowlist py loads (.arr (cats.map .str)) = some cats := by
  have hknown : ∀ c ∈ categoryIds, strip c = c ∧ c ≠ noneSentinel := by decide
  have hnone : cats.contains noneSentinel = false := by
    simpa using fun hmem => (hknown _ (hcats _ hmem)).2 rfl
  have htexts : (cats.map JsonValue.str).map (fun c => strip (c.text py.repr)) = cats := by
    rw [List.map_map]
    exact (List.map_congr_left fun c hc => (hknown c (hcats c hc)).1).trans (List.map_id' _)
  have hfilter : cats.filter (fun c => categoryIds.contains c) = cats :=
    List.filter_eq_self.2 fun c hc => by simpa using hcats c hc
  have hempty : cats.isEmpty = false := by simpa using hne
  simp only [parseAllowlist, (isText_map _ _).1, hnone, Bool.false_and, Bool.false_eq_true, if_false, htexts, hfilter, hempty, List.isEmpty_map]

/-- **A channel is sent what is ticked.** A page that is stored lets the ticked categories pass and shows them ticked again; a type
that no category has passes only where all are ticked. -/
theorem allowlist_as_ticked (loads : Str → Option JsonValue) {form : Dict Str Str} {pfx submittedKey : Str} (h : formOn form submittedKey = true) :
    ∃ stored, allowlistFromForm form pfx submittedKey = some stored ∧
      (∀ cid ∈ categoryIds, categoryAllowed cid (parseAllowlist py loads (.arr (stored.map .str))) = formOn form (pfx ++ cid)) ∧
      checkedCategories (parseAllowlist py loads (.arr (stored.map .str))) = categoryIds.filter (fun cid => formOn form (pfx ++ cid)) ∧
      (∀ typeId, specFor typeId = none →
        categoryAllowed (categoryOf typeId) (parseAllowlist py loads (.arr (stored.map .str))) = categoryIds.all fun cid => formOn form (pfx ++ cid)) := by
  have hknown : ∀ c ∈ categoryIds, strip c = c ∧ c ≠ [] ∧ c ≠ lit "other" := by decide
  have hother : ∀ typeId, specFor typeId = none → categoryOf typeId = lit "other" := fun typeId hnone => by simp [categoryOf, hnone]
  unfold allowlistFromForm
  rw [h]
  simp only [Bool.not_true, Bool.false_eq_true, if_false]
  generalize hticked : (fun cid => formOn form (pfx ++ cid)) = ticked
  have hform : ∀ cid, formOn form (pfx ++ cid) = ticked cid := fun cid => congrFun hticked cid
  simp only [hform]
  split
  · -- all of them
    rename_i hall
    have hall : ∀ cid ∈ categoryIds, ticked cid = true := by simpa using hall
    refine ⟨[], rfl, fun cid hcid => (hall cid hcid).symm, ?_, fun _ _ => ?_⟩
    · exact (List.filter_eq_self.2 hall).symm
    · exact (List.all_eq_true.2 hall).symm
  · rename_i hall
    split
    · -- none of them
      rename_i hnone
      have hoff : ∀ cid ∈ categoryIds, ticked cid = false := by simpa [List.filter_eq_nil_iff] using hnone
      refine ⟨[noneSentinel], rfl, fun cid hcid => (hoff cid hcid).symm, ?_, fun _ _ => ?_⟩
      · rw [hnone]
        rfl
      · have hmiss : categoryIds.all ticked = false :=
          List.all_eq_false.2 ⟨lit "host", by decide, by simp [hoff (lit "host") (by decide)]⟩
        rw [hmiss]
        rfl
    · rename_i hsome
      have hread : parseAllowlist py loads (.arr ((categoryIds.filter ticked).map .str)) = some (categoryIds.filter ticked) :=
        parseAllowlist_cats hsome fun c hc => (List.mem_filter.1 hc).1
      have hallowed : ∀ c, categoryAllowed c (some (categoryIds.filter ticked)) =
          (categoryIds.filter ticked).contains (if strip c = [] then lit "other" else strip c) := by
        intro c
        cases hcats : categoryIds.filter ticked with
        | nil => exact absurd hcats hsome
        | cons d ds => rfl
      refine ⟨_, rfl, fun cid hcid => ?_, ?_, fun typeId hnone => ?_⟩
      · obtain ⟨hstrip, hne, -⟩ := hknown cid hcid
        rw [hread, hallowed, hstrip, if_neg hne]
        cases htick : ticked cid <;> simp [hcid, htick]
      · rw [hread, checkedCategories]
        refine List.filter_congr fun c hc => ?_
        cases htick : ticked c <;> simp [hc, htick]
      · have hmiss : categoryIds.all ticked = false := by
          rw [Bool.eq_false_iff]
          exact fun hyes => hall (by rw [List.filter_eq_self.2 (List.all_eq_true.1 hyes)])
        have hout : lit "other" ∉ categoryIds := by decide
        rw [hread, hallowed, hother typeId hnone, hmiss, show (if strip (lit "other") = [] then lit "other" else strip (lit "other")) = lit "other" from by decide]
        simp [hout]

/-- No float is read here. -/
def noFloats : Python := ⟨fun _ => [], fun _ => .ok none⟩

theorem allowlist_as_ticked_two :
    ∃ stored, allowlistFromForm [(lit "ok", lit "1"), (lit "c_host", lit "on"), (lit "c_backup", lit "on")] (lit "c_") (lit "ok") = some stored ∧
      categoryAllowed (lit "backup") (parseAllowlist noFloats (fun _ => none) (.arr (stored.map .str))) = true ∧
      categoryAllowed (lit "cert") (parseAllowlist noFloats (fun _ => none) (.arr (stored.map .str))) = false := by
  obtain ⟨stored, hstored, hallowed, -⟩ := @allowlist_as_ticked noFloats (fun _ => none)
    [(lit "ok", lit "1"), (lit "c_host", lit "on"), (lit "c_backup", lit "on")] (lit "c_") (lit "ok") (by decide)
  exact ⟨stored, hstored, (hallowed _ (by decide)).trans (by decide), (hallowed _ (by decide)).trans (by decide)⟩

end PiHerder.Alerts
