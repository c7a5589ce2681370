import PiHerder.Lib.Eff
import PiHerder.Stacks.Templates

/-!
# Merging what was merged

The variables of a stack are saved as `merge_variable_values` made them and merged again by every redeploy (`schema.py` 437–529,
640–659). `outcome` is what the merging makes of one variable; `remerges_iff` says of which definitions and values the second merging
gives back the first one's.
-/
namespace PiHerder.Stacks
open Lib Lib.Str

/-! ## One variable -/

/-- The words that a boolean takes for its true value. -/
def isTruthy (var : TemplateVar) (s : Str) : Bool :=
  lower (strip s) ∈ [lit "1", lit "true", lit "yes", lit "on", lit "y", lower var.trueValue]

/-- A boolean comes out as its true value. -/
def comesOutTrue (var : TemplateVar) (raw : Option Str) : Bool :=
  !decide (isBlank raw ∧ var.default = [] ∧ ¬ var.required) && isTruthy var (if isBlank raw then var.default else raw.getD [])

def booleanText (var : TemplateVar) (raw : Option Str) : Str := if comesOutTrue var raw then var.trueValue else var.falseValue

/-- The mode that a volume is mounted in. -/
def mountMode (var : TemplateVar) (provided : Dict Str Str) : Str :=
  let stored := (provided.get? (modeKey var.name)).getD []
  strip (if stored = [] then var.volumeDefaultMode.str else stored)

structure VarOutcome where
  entries : Dict Str Str
  named : List Str := []
  managed : List Str := []
deriving DecidableEq, Repr

def Merged.add (out : Merged) (o : VarOutcome) : Merged :=
  { values := out.values.update o.entries, namedVolumes := out.namedVolumes ++ o.named,
    managedVolumeNames := out.managedVolumeNames ++ o.managed }

def volumeOutcome (provided : Dict Str Str) (var : TemplateVar) : Except TemplateError VarOutcome :=
  let mode := mountMode var provided
  let source := volumeSourceFromProvided var provided
  if source = [] then
    if var.required then .error (.required var.name) else .ok { entries := [(var.name, []), (modeKey var.name, mode)] }
  else
    (buildVolumeMount var mode source).bind fun m => (validateVolumeSource mode source var.name).map fun src =>
      { entries := [(var.name, m.1), (modeKey var.name, mode), (sourceKey var.name, src)], named := m.2.toList,
        managed := managedDefault var ++ m.2.toList }

/-- What the merging makes of one variable. -/
def outcome (provided : Dict Str Str) (autoGenerate : Bool) (fresh : Str → Str) (var : TemplateVar) : Except TemplateError VarOutcome :=
  match var.type with
  | .boolean => .ok { entries := [(var.name, booleanText var (provided.get? var.name))] }
  | .volume => volumeOutcome provided var
  | _ =>
    (plainValue var (provided.get? var.name) autoGenerate (fresh var.name)).bind fun value =>
      (checkNumber var value).map fun _ => { entries := [(var.name, value)] }

section
variable {provided : Dict Str Str} {auto : Bool} {fresh : Str → Str}

theorem booleanText_eq (var : TemplateVar) (raw : Option Str) :
    (if isBlank raw ∧ var.default = [] ∧ ¬ var.required then var.falseValue else coerceBooleanValue var raw) = booleanText var raw := by
  unfold booleanText comesOutTrue
  by_cases h : isBlank raw ∧ var.default = [] ∧ ¬ var.required
  · rw [if_pos h, decide_eq_true h]
    rfl
  · rw [if_neg h, decide_eq_false h, Bool.not_false, Bool.true_and]
    unfold coerceBooleanValue isTruthy
    simp only [decide_eq_true_eq]

theorem mergeVar_eq (out : Merged) (var : TemplateVar) :
    mergeVar provided auto fresh out var = (outcome provided auto fresh var).map out.add := by
  have hplain : (do
      let value ← plainValue var (provided.get? var.name) auto (fresh var.name)
      checkNumber var value
      Except.ok { out with values := out.values.set var.name value }) =
      ((plainValue var (provided.get? var.name) auto (fresh var.name)).bind fun value =>
        (checkNumber var value).map fun _ => ({ entries := [(var.name, value)] } : VarOutcome)).map out.add := by
    cases plainValue var (provided.get? var.name) auto (fresh var.name) with
    | error e => rfl
    | ok value =>
      change (checkNumber var value).bind _ = ((checkNumber var value).map _).map _
      cases checkNumber var value with
      | error e => rfl
      | ok u => simp [Except.bind, Except.map, Merged.add, Dict.update]
  unfold mergeVar outcome
  cases var.type with
  | boolean =>
    simp only [booleanText_eq]
    simp [Except.map, Merged.add, Dict.update]
  | volume =>
    unfold volumeOutcome mountMode
    dsimp only
    split
    · split
      · rfl
      · simp [Except.map, Merged.add, Dict.update]
    · cases buildVolumeMount var _ _ with
      | error e => rfl
      | ok m =>
        change (validateVolumeSource _ _ _).bind _ = ((validateVolumeSource _ _ _).map _).map _
        cases validateVolumeSource _ _ _ with
        | error e => rfl
        | ok src => simp [Except.bind, Except.map, Merged.add, Dict.update]
  | string => exact hplain
  | int => exact hplain
  | port => exact hplain
  | password => exact hplain
  | email => exact hplain
  | url => exact hplain

/-- The variables one after the other. -/
theorem foldlM_mergeVar {vars : List TemplateVar} {out out' : Merged} :
    vars.foldlM (mergeVar provided auto fresh) out = .ok out' ↔
      ∃ os, List.Forall₂ (fun var o => outcome provided auto fresh var = .ok o) vars os ∧ out' = os.foldl Merged.add out := by
  induction vars generalizing out with
  | nil =>
    simp only [List.foldlM_nil, List.forall₂_nil_left_iff, exists_eq_left, List.foldl_nil]
    exact ⟨fun h => (Except.ok.inj h).symm, fun h => h ▸ rfl⟩
  | cons var vars ih =>
    rw [List.foldlM_cons, mergeVar_eq, except_bind_eq_ok]
    constructor
    · rintro ⟨m, hm, hrest⟩
      cases ho : outcome provided auto fresh var with
      | error e =>
        rw [ho] at hm
        cases hm
      | ok o =>
        rw [ho] at hm
        obtain rfl := Except.ok.inj hm
        obtain ⟨os, hos, rfl⟩ := ih.1 hrest
        exact ⟨o :: os, .cons ho hos, rfl⟩
    · rintro ⟨os, hos, rfl⟩
      cases hos with
      | cons ho hos => exact ⟨_, by rw [ho]; rfl, ih.2 ⟨_, hos, rfl⟩⟩

theorem foldl_add : ∀ (os : List VarOutcome) (out : Merged), os.foldl Merged.add out =
    { values := out.values.update (os.flatMap VarOutcome.entries), namedVolumes := out.namedVolumes ++ os.flatMap VarOutcome.named,
      managedVolumeNames := out.managedVolumeNames ++ os.flatMap VarOutcome.managed }
  | [], out => by simp [Dict.update]
  | o :: os, out => by
    rw [List.foldl_cons, foldl_add os]
    simp [Merged.add, Dict.update, List.foldl_append]

theorem merge_eq_ok {definition : TemplateDefinition} {r : Merged} :
    mergeVariableValues definition provided auto fresh = .ok r ↔
      ∃ os values, List.Forall₂ (fun var o => outcome provided auto fresh var = .ok o) definition.vars os ∧
        mergeProjectName provided (Dict.update [] (os.flatMap VarOutcome.entries)) = .ok values ∧
        r = ⟨values, os.flatMap VarOutcome.named, os.flatMap VarOutcome.managed⟩ := by
  unfold mergeVariableValues
  rw [except_bind_eq_ok]
  constructor
  · rintro ⟨out, hout, hrest⟩
    obtain ⟨values, hvalues, hr⟩ := except_bind_eq_ok.1 hrest
    obtain ⟨os, hos, rfl⟩ := foldlM_mergeVar.1 hout
    rw [foldl_add] at hvalues hr
    exact ⟨os, values, hos, hvalues, (Except.ok.inj hr).symm⟩
  · rintro ⟨os, values, hos, hvalues, rfl⟩
    refine ⟨_, foldlM_mergeVar.2 ⟨os, hos, rfl⟩, ?_⟩
    rw [foldl_add]
    exact except_bind_eq_ok.2 ⟨values, hvalues, rfl⟩

/-! ## Every variable its own keys -/

/-- The keys that the merging sets for a variable. -/
def ownKeys (var : TemplateVar) : List Str :=
  if var.type = .volume then [var.name, modeKey var.name, sourceKey var.name] else [var.name]

/-- No key belongs to two variables, none is dropped from what is saved, and the project's name is no boolean or volume. -/
structure Separate (definition : TemplateDefinition) : Prop where
  apart : definition.vars.Pairwise fun v w => (ownKeys v).Disjoint (ownKeys w)
  kept : ∀ v ∈ definition.vars, ∀ k ∈ ownKeys v, startsWith (lit "__") k = false
  plainName : ∀ v ∈ definition.vars, v.name = projectNameKey → v.type ≠ .boolean ∧ v.type ≠ .volume

theorem name_mem_ownKeys (var : TemplateVar) : var.name ∈ ownKeys var := by
  unfold ownKeys
  split <;> exact List.mem_cons_self

theorem modeKey_ne (name : Str) : name ≠ modeKey name := fun h => by
  have := congrArg List.length h
  simp [modeKey] at this

theorem sourceKey_ne (name : Str) : name ≠ sourceKey name := fun h => by
  have := congrArg List.length h
  simp [sourceKey] at this

theorem modeKey_ne_sourceKey (name : Str) : modeKey name ≠ sourceKey name := fun h =>
  absurd (List.append_cancel_left h) (by decide)

/-- A volume without a source, and one with it. -/
inductive VolumeCase (provided : Dict Str Str) (var : TemplateVar) : VarOutcome → Prop
  | empty (hsource : volumeSourceFromProvided var provided = []) (hoptional : var.required = false) :
      VolumeCase provided var { entries := [(var.name, []), (modeKey var.name, mountMode var provided)] }
  | mounted (src : Str) (hsource : volumeSourceFromProvided var provided ≠ [])
      (hsrc : validateVolumeSource (mountMode var provided) (volumeSourceFromProvided var provided) var.name = .ok src)
      (htarget : startsWith (lit "/") (strip var.volumeTarget) = true) :
      VolumeCase provided var
        { entries := [(var.name, src ++ ':' :: strip var.volumeTarget), (modeKey var.name, mountMode var provided), (sourceKey var.name, src)]
          named := if mountMode var provided = VolumeMode.named.str then [src] else []
          managed := managedDefault var ++ if mountMode var provided = VolumeMode.named.str then [src] else [] }

theorem volumeOutcome_eq_ok {var : TemplateVar} {o : VarOutcome} : volumeOutcome provided var = .ok o ↔ VolumeCase provided var o := by
  unfold volumeOutcome buildVolumeMount
  dsimp only
  constructor
  · intro h
    split at h
    · rename_i hsource
      split at h
      · cases h
      · rename_i hoptional
        obtain rfl := Except.ok.inj h
        exact .empty hsource (by simpa using hoptional)
    · rename_i hsource
      split at h
      · rename_i htarget
        cases hsrc : validateVolumeSource (mountMode var provided) (volumeSourceFromProvided var provided) var.name with
        | error e =>
          rw [hsrc] at h
          cases h
        | ok src =>
          rw [hsrc] at h
          obtain rfl := Except.ok.inj h
          have hcase := VolumeCase.mounted src hsource hsrc htarget
          split <;> simp_all
      · cases h
  · rintro (⟨hsource, hoptional⟩ | ⟨src, hsource, hsrc, htarget⟩)
    · rw [if_pos hsource, hoptional]
      rfl
    · rw [if_neg hsource, if_pos htarget, hsrc]
      by_cases hmode : mountMode var provided = VolumeMode.named.str <;> simp [Except.map, Except.bind, hmode]

theorem outcome_volume {var : TemplateVar} (h : var.type = .volume) : outcome provided auto fresh var = volumeOutcome provided var := by
  unfold outcome
  rw [h]

/-- A variable that is neither a boolean nor a volume. -/
theorem outcome_plain {var : TemplateVar} (hb : var.type ≠ .boolean) (hv : var.type ≠ .volume) : outcome provided auto fresh var =
    (plainValue var (provided.get? var.name) auto (fresh var.name)).bind fun value =>
      (checkNumber var value).map fun _ => { entries := [(var.name, value)] } := by
  unfold outcome
  split
  · rename_i h
    exact absurd h hb
  · rename_i h
    exact absurd h hv
  · rfl

theorem outcome_boolean {var : TemplateVar} (h : var.type = .boolean) :
    outcome provided auto fresh var = .ok { entries := [(var.name, booleanText var (provided.get? var.name))] } := by
  unfold outcome
  rw [h]

theorem outcome_plain_eq_ok {var : TemplateVar} (hb : var.type ≠ .boolean) (hv : var.type ≠ .volume) {o : VarOutcome} :
    outcome provided auto fresh var = .ok o ↔
      ∃ value, plainValue var (provided.get? var.name) auto (fresh var.name) = .ok value ∧ checkNumber var value = .ok () ∧
        o = { entries := [(var.name, value)] } := by
  rw [outcome_plain hb hv]
  cases plainValue var (provided.get? var.name) auto (fresh var.name) with
  | error e => simp [Except.bind]
  | ok value =>
    change (checkNumber var value).map _ = _ ↔ _
    cases hcheck : checkNumber var value with
    | error e => simp [Except.map, hcheck]
    | ok u => simp [Except.map, hcheck, eq_comm]

/-- The entries of a variable are under its own keys, its name among them. -/
theorem entries_own {var : TemplateVar} {o : VarOutcome} (h : outcome provided auto fresh var = .ok o) :
    (∀ k ∈ o.entries.keys, k ∈ ownKeys var) ∧ o.entries.keys.Nodup ∧ var.name ∈ o.entries.keys := by
  have hm := modeKey_ne var.name
  have hs := sourceKey_ne var.name
  have hms := modeKey_ne_sourceKey var.name
  by_cases hv : var.type = .volume
  · rw [outcome_volume hv, volumeOutcome_eq_ok] at h
    have hown : ownKeys var = [var.name, modeKey var.name, sourceKey var.name] := if_pos hv
    cases h <;> simp [Dict.keys, hown, hm, hs, hms]
  · have hown : ownKeys var = [var.name] := if_neg hv
    by_cases hb : var.type = .boolean
    · rw [outcome_boolean hb] at h
      obtain rfl := Except.ok.inj h
      simp [Dict.keys, hown]
    · obtain ⟨value, -, -, rfl⟩ := (outcome_plain_eq_ok hb hv).1 h
      simp [Dict.keys, hown]

section
variable {vars : List TemplateVar} {os : List VarOutcome}

theorem keys_gathered (h : List.Forall₂ (fun var o => outcome provided auto fresh var = .ok o) vars os) :
    ∀ k ∈ Dict.keys (os.flatMap VarOutcome.entries), ∃ v ∈ vars, k ∈ ownKeys v := by
  induction h with
  | nil => exact fun k hk => absurd hk List.not_mem_nil
  | @cons var o vars os ho _ ih =>
    intro k hk
    rw [List.flatMap_cons, Dict.keys, List.map_append] at hk
    rcases List.mem_append.1 hk with hk | hk
    · exact ⟨var, List.mem_cons_self, (entries_own ho).1 k hk⟩
    · obtain ⟨v, hv, hown⟩ := ih k hk
      exact ⟨v, List.mem_cons_of_mem var hv, hown⟩

theorem nodup_gathered (hapart : vars.Pairwise fun v w => (ownKeys v).Disjoint (ownKeys w))
    (h : List.Forall₂ (fun var o => outcome provided auto fresh var = .ok o) vars os) : (Dict.keys (os.flatMap VarOutcome.entries)).Nodup := by
  induction h with
  | nil => exact List.nodup_nil
  | @cons var o vars os ho hos ih =>
    obtain ⟨hfirst, hrest⟩ := List.pairwise_cons.1 hapart
    rw [List.flatMap_cons, Dict.keys, List.map_append]
    refine List.nodup_append.2 ⟨(entries_own ho).2.1, ih hrest, fun k hk l hl heq => ?_⟩
    obtain ⟨v, hv, hown⟩ := keys_gathered hos l hl
    exact hfirst v hv ((entries_own ho).1 k hk) (heq ▸ hown)

/-- Under a key of a variable stands what the variable set there. -/
theorem get?_gathered (hapart : vars.Pairwise fun v w => (ownKeys v).Disjoint (ownKeys w))
    (h : List.Forall₂ (fun var o => outcome provided auto fresh var = .ok o) vars os) {var : TemplateVar} (hvar : var ∈ vars) {o : VarOutcome}
    (ho : outcome provided auto fresh var = .ok o) {k : Str} (hk : k ∈ ownKeys var) :
    (Dict.update [] (os.flatMap VarOutcome.entries)).get? k = o.entries.get? k := by
  rw [Dict.get?_update (nodup_gathered hapart h), show Dict.get? k ([] : Dict Str Str) = none from rfl, Option.or_none]
  induction h with
  | nil => cases hvar
  | @cons v o' vars os ho' hos ih =>
    obtain ⟨hfirst, hrest⟩ := List.pairwise_cons.1 hapart
    rw [List.flatMap_cons, Dict.get?_append]
    rcases List.mem_cons.1 hvar with rfl | hvar
    · obtain rfl := Except.ok.inj (ho.symm.trans ho')
      have hnone : Dict.get? k (os.flatMap VarOutcome.entries) = none := by
        refine Dict.get?_eq_none.2 fun hmem => ?_
        obtain ⟨w, hw, hown⟩ := keys_gathered hos k hmem
        exact hfirst w hw hk hown
      rw [hnone, Option.or_none]
    · have hnone : Dict.get? k o'.entries = none :=
        Dict.get?_eq_none.2 fun hmem => hfirst var hvar ((entries_own ho').1 k hmem) hk
      rw [hnone, Option.none_or]
      exact ih hrest hvar

theorem exists_outcome (h : List.Forall₂ (fun var o => outcome provided auto fresh var = .ok o) vars os) {var : TemplateVar}
    (hvar : var ∈ vars) : ∃ o ∈ os, outcome provided auto fresh var = .ok o := by
  induction h with
  | nil => cases hvar
  | @cons v o vars os ho _ ih =>
    rcases List.mem_cons.1 hvar with rfl | hvar
    · exact ⟨o, List.mem_cons_self, ho⟩
    · obtain ⟨o', ho', heq⟩ := ih hvar
      exact ⟨o', List.mem_cons_of_mem o ho', heq⟩

theorem exists_var (h : List.Forall₂ (fun var o => outcome provided auto fresh var = .ok o) vars os) {o : VarOutcome} (hmem : o ∈ os) :
    ∃ var ∈ vars, outcome provided auto fresh var = .ok o := by
  induction h with
  | nil => cases hmem
  | @cons v o' vars os ho _ ih =>
    rcases List.mem_cons.1 hmem with rfl | hmem
    · exact ⟨v, List.mem_cons_self, ho⟩
    · obtain ⟨w, hw, heq⟩ := ih hmem
      exact ⟨w, List.mem_cons_of_mem v hw, heq⟩

/-- One outcome for each variable, where each has one. -/
theorem exists_outcomes : ∀ {vars : List TemplateVar}, (∀ var ∈ vars, ∃ o, outcome provided auto fresh var = .ok o) →
    ∃ os, List.Forall₂ (fun var o => outcome provided auto fresh var = .ok o) vars os
  | [], _ => ⟨[], .nil⟩
  | var :: vars, h => by
    obtain ⟨o, ho⟩ := h var List.mem_cons_self
    obtain ⟨os, hos⟩ := exists_outcomes fun v hv => h v (List.mem_cons_of_mem var hv)
    exact ⟨o :: os, .cons ho hos⟩

end

/-! ## What is saved -/

/-- What a redeploy merges: the public values and the secrets that were saved. -/
def saved (definition : TemplateDefinition) (values : Dict Str Str) : Dict Str Str :=
  (splitSecrets definition values).1.update (splitSecrets definition values).2

theorem get?_saved {definition : TemplateDefinition} {values : Dict Str Str} (hnd : values.keys.Nodup) (k : Str) :
    (saved definition values).get? k = if startsWith (lit "__") k then none else values.get? k := by
  unfold saved splitSecrets
  rw [Dict.get?_update (Dict.keys_filter_nodup (Dict.keys_filter_nodup hnd _) _),
    Dict.get?_filter_key (fun k => decide (k ∈ definition.secretVarNames)), Dict.get?_filter_key (fun k => decide (k ∉ definition.secretVarNames)),
    Dict.get?_filter_key (fun k => !startsWith (lit "__") k)]
  by_cases hdrop : startsWith (lit "__") k = true
  · simp [hdrop]
  · by_cases hsecret : k ∈ definition.secretVarNames <;> simp [hdrop, hsecret]

/-- The name that the project gets: the one that is provided, or as it came out. -/
def projectName (provided values : Dict Str Str) : Str :=
  let given := (provided.get? projectNameKey).getD []
  if strip given ≠ [] then given else (values.get? projectNameKey).getD []

theorem mergeProjectName_eq_ok {values values' : Dict Str Str} : mergeProjectName provided values = .ok values' ↔
    (projectName provided values = [] ∧ values' = values) ∨
      (isShortName (strip (projectName provided values)) = true ∧ values' = values.set projectNameKey (strip (projectName provided values))) := by
  unfold mergeProjectName
  change (if projectName provided values = [] then .ok values
    else (validateProjectName (projectName provided values)).map (values.set projectNameKey)) = _ ↔ _
  generalize projectName provided values = name
  by_cases hnil : name = []
  · rw [if_pos hnil, hnil]
    simp [isShortName, strip, lstripWhere, rstripWhere, eq_comm]
  · rw [if_neg hnil, validateProjectName]
    by_cases hshort : isShortName (strip name) = true
    · rw [if_pos hshort]
      simp [hnil, hshort, Except.map, eq_comm]
    · rw [if_neg hshort]
      simp [hnil, hshort, Except.map]

theorem nodup_merged {values values' : Dict Str Str} (hnd : values.keys.Nodup) (h : mergeProjectName provided values = .ok values') :
    values'.keys.Nodup := by
  rcases mergeProjectName_eq_ok.1 h with ⟨-, rfl⟩ | ⟨-, rfl⟩
  · exact hnd
  · exact Dict.keys_set_nodup hnd

theorem get?_merged_of_ne {values values' : Dict Str Str} (h : mergeProjectName provided values = .ok values') {k : Str}
    (hk : k ≠ projectNameKey) : values'.get? k = values.get? k := by
  rcases mergeProjectName_eq_ok.1 h with ⟨-, rfl⟩ | ⟨-, rfl⟩
  · rfl
  · rw [Dict.get?_set, if_neg hk]

theorem modeKey_ne_project (name : Str) : modeKey name ≠ projectNameKey := by
  intro h
  have hsuffix : lit "__mode" <:+ projectNameKey := ⟨name, h⟩
  revert hsuffix
  decide

theorem sourceKey_ne_project (name : Str) : sourceKey name ≠ projectNameKey := by
  intro h
  have hsuffix : lit "__source" <:+ projectNameKey := ⟨name, h⟩
  revert hsuffix
  decide

/-! ## Sources -/

/-- A bind below the project is cleaned once. -/
theorem bind_again {src cleaned : Str} (hpath : isRelBind cleaned = true) (heq : lstripWhere (fun c => c == '.' || c == '/') src = cleaned)
    (hdots : hasInfix (lit "..") src = false) :
    strip (lit "./" ++ cleaned) = lit "./" ++ cleaned ∧ lstripWhere (fun c => c == '.' || c == '/') (lit "./" ++ cleaned) = cleaned ∧
      ¬ (lit "./" ++ cleaned = [] ∨ hasInfix (lit "..") (lit "./" ++ cleaned) ∨ '\n' ∈ lit "./" ++ cleaned ∨ '\r' ∈ lit "./" ++ cleaned) := by
  have hchars : ∀ c ∈ lit "./" ++ cleaned, isPathChar c = true := by
    intro c hc
    rcases List.mem_append.1 hc with hc | hc
    · rcases List.mem_cons.1 hc with rfl | hc
      · rfl
      · rcases List.mem_singleton.1 hc with rfl
        rfl
    · exact List.all_eq_true.1 (Bool.and_eq_true_iff.1 hpath).1 c hc
  refine ⟨strip_eq_self (fun c hc => isSpace_of_isPathChar (hchars c (List.mem_of_mem_head? hc)))
    fun c hc => isSpace_of_isPathChar (hchars c (List.mem_of_mem_getLast? hc)), ?_, ?_⟩
  · have hagain := List.dropWhile_idempotent (fun c => c == '.' || c == '/') src
    rw [← heq]
    exact hagain
  · rintro (hnil | hinfix | hline | hline)
    · cases hnil
    · have htail : lit ".." <:+: cleaned := by
        have h : lit ".." <:+: '.' :: '/' :: cleaned := of_decide_eq_true hinfix
        rcases List.infix_cons_iff.1 h with ⟨t, ht⟩ | h
        · cases ht
        · rcases List.infix_cons_iff.1 h with ⟨t, ht⟩ | h
          · cases ht
          · exact h
      have hsrc : lit ".." <:+: src := htail.trans (heq ▸ (List.dropWhile_suffix _).isInfix)
      rw [hasInfix, decide_eq_true hsrc] at hdots
      cases hdots
    · cases hchars _ hline
    · cases hchars _ hline

theorem strip_ne_nil_of_isShortName {s : Str} (h : isShortName s = true) : s ≠ [] := by
  rintro rfl
  cases h

/-- A source that was accepted in a mode is accepted again, as it is. -/
theorem validate_again {mode source name src : Str} (h : validateVolumeSource mode source name = .ok src) :
    validateVolumeSource mode src name = .ok src ∧ src ≠ [] ∧ strip src = src := by
  unfold validateVolumeSource at h
  dsimp only at h
  split at h
  · cases h
  rename_i hplain
  split at h
  · cases h
  · rename_i hmode
    split at h
    · rename_i hshort
      obtain rfl := Except.ok.inj h
      refine ⟨?_, strip_ne_nil_of_isShortName hshort, strip_strip source⟩
      unfold validateVolumeSource
      rw [strip_strip, if_neg hplain, hmode]
      exact if_pos hshort
    · cases h
  · rename_i hmode
    split at h
    · rename_i hrel
      obtain rfl := Except.ok.inj h
      have hdots : hasInfix (lit "..") (strip source) = false := Bool.eq_false_iff.2 fun h => hplain (Or.inr (Or.inl h))
      obtain ⟨hstrip, hclean, hok⟩ := bind_again hrel.2 rfl hdots
      refine ⟨?_, List.cons_ne_nil _ _, hstrip⟩
      unfold validateVolumeSource
      rw [hstrip, if_neg hok, hmode]
      dsimp only
      rw [hclean, if_pos hrel]
    · cases h
  · rename_i hmode
    split at h
    · rename_i habs
      obtain rfl := Except.ok.inj h
      refine ⟨?_, fun hnil => hplain (Or.inl hnil), strip_strip source⟩
      unfold validateVolumeSource
      rw [strip_strip, if_neg hplain, hmode]
      exact if_pos habs
    · cases h

/-! ## A variable once more -/

theorem isBlank_some {raw : Option Str} : isBlank (some (raw.getD [])) = isBlank raw := rfl

theorem isBlank_eq_false {s : Str} : isBlank (some s) = false ↔ strip s ≠ [] := beq_eq_false_iff_ne

/-- A plain value is taken as it is. -/
theorem plain_again {var : TemplateVar} {raw : Option Str} {f f' v : Str} (hf : isBlank (some f) = false)
    (h : plainValue var raw auto f = .ok v) : plainValue var (some v) false f' = .ok v := by
  have hnon : ∀ w : Str, isBlank (some w) = false → plainValue var (some w) false f' = .ok w := by
    intro w hw
    unfold plainValue
    rw [hw]
    rfl
  unfold plainValue at h
  split at h
  · split at h
    · obtain rfl := Except.ok.inj h
      exact hnon f hf
    · split at h
      · rename_i hdefault
        obtain rfl := Except.ok.inj h
        unfold plainValue
        by_cases hblank : isBlank (some var.default) = true
        · rw [if_pos hblank, if_neg (fun h => Bool.false_ne_true h.1), if_pos hdefault]
        · rw [if_neg hblank]
          rfl
      · rename_i hdefault
        split at h
        · cases h
        · rename_i hoptional
          obtain rfl := Except.ok.inj h
          unfold plainValue
          rw [if_pos (show isBlank (some []) = true from rfl), if_neg (fun h => Bool.false_ne_true h.1), if_neg hdefault, if_neg hoptional]
  · rename_i hblank
    obtain rfl := Except.ok.inj h
    exact hnon _ (by rwa [isBlank_some, Bool.not_eq_true] at *)

/-- So is the project's name, which is stripped in between. -/
theorem plain_again_strip {var : TemplateVar} {raw : Option Str} {f f' v : Str} (hf : isBlank (some f) = false)
    (h : plainValue var raw auto f = .ok v) (hv : v = [] ∨ strip v ≠ []) : plainValue var (some (strip v)) false f' = .ok (strip v) := by
  rcases hv with rfl | hv
  · exact plain_again hf h
  · have hblank : isBlank (some (strip v)) = false := by rwa [isBlank_eq_false, strip_strip]
    unfold plainValue
    rw [hblank]
    rfl

theorem checkNumber_strip (var : TemplateVar) {v : Str} (hv : v = [] ∨ strip v ≠ []) : checkNumber var (strip v) = checkNumber var v := by
  rcases hv with rfl | hv
  · rfl
  · have hne : v ≠ [] := fun hnil => hv (by rw [hnil]; rfl)
    have hint : pyInt (strip v) = pyInt v := by
      unfold pyInt
      rw [strip_strip]
    unfold checkNumber
    rw [hint]
    simp only [hv, hne, ne_eq, not_false_eq_true, and_true]

theorem strip_str (m : VolumeMode) : strip m.str = m.str := by cases m <;> decide

theorem mountMode_again {provided' : Dict Str Str} (var : TemplateVar)
    (h : provided'.get? (modeKey var.name) = some (mountMode var provided)) :
    mountMode var provided' = if mountMode var provided = [] then var.volumeDefaultMode.str else mountMode var provided := by
  have hstrip : strip (mountMode var provided) = mountMode var provided := strip_strip _
  generalize mountMode var provided = mode at h hstrip
  unfold mountMode
  dsimp only
  rw [h, Option.getD_some]
  split
  · exact strip_str _
  · exact hstrip

theorem source_again_empty {provided' : Dict Str Str} (var : TemplateVar) (hname : provided'.get? var.name = some [])
    (hsource : provided'.get? (sourceKey var.name) = none) : volumeSourceFromProvided var provided' = strip var.default := by
  unfold volumeSourceFromProvided
  rw [hname, hsource]
  simp [isBlank, strip, lstripWhere, rstripWhere]

theorem source_again_mounted {provided' : Dict Str Str} (var : TemplateVar) {src : Str} (hstrip : strip src = src) (hne : src ≠ [])
    (hsource : provided'.get? (sourceKey var.name) = some src) : volumeSourceFromProvided var provided' = src := by
  have hblank : isBlank (some src) = false := by rwa [isBlank_eq_false, hstrip]
  unfold volumeSourceFromProvided
  rw [hsource, hblank, Option.getD_some, hstrip]
  rfl

theorem plain_outcome_again {provided' : Dict Str Str} {var : TemplateVar} (hb : var.type ≠ .boolean) (hv : var.type ≠ .volume) {v w : Str}
    (hf : isBlank (some (fresh var.name)) = false) (hplain : plainValue var (provided.get? var.name) auto (fresh var.name) = .ok v)
    (hnumber : checkNumber var v = .ok ()) (hw : w = v ∨ (w = strip v ∧ (v = [] ∨ strip v ≠ [])))
    (hget : provided'.get? var.name = some w) : outcome provided' false fresh var = .ok { entries := [(var.name, w)] } := by
  refine (outcome_plain_eq_ok hb hv).2 ⟨w, ?_, ?_, rfl⟩ <;> rcases hw with rfl | ⟨rfl, hne⟩
  · rw [hget]
    exact plain_again hf hplain
  · rw [hget]
    exact plain_again_strip hf hplain hne
  · exact hnumber
  · rwa [checkNumber_strip var hne]

/-! ## A whole run -/

/-- A merging that succeeds: what it makes of each variable, and the values. -/
structure Run (definition : TemplateDefinition) (provided : Dict Str Str) (auto : Bool) (fresh : Str → Str) (os : List VarOutcome)
    (values : Dict Str Str) : Prop where
  outcomes : List.Forall₂ (fun var o => outcome provided auto fresh var = .ok o) definition.vars os
  project : mergeProjectName provided (Dict.update [] (os.flatMap VarOutcome.entries)) = .ok values

theorem merge_eq_ok_iff_run {definition : TemplateDefinition} {r : Merged} : mergeVariableValues definition provided auto fresh = .ok r ↔
    ∃ os values, Run definition provided auto fresh os values ∧ r = ⟨values, os.flatMap VarOutcome.named, os.flatMap VarOutcome.managed⟩ := by
  rw [merge_eq_ok]
  exact ⟨fun ⟨os, values, hos, hvalues, hr⟩ => ⟨os, values, ⟨hos, hvalues⟩, hr⟩,
    fun ⟨os, values, ⟨hos, hvalues⟩, hr⟩ => ⟨os, values, hos, hvalues, hr⟩⟩

section
variable {definition : TemplateDefinition} {os : List VarOutcome} {values : Dict Str Str} {var : TemplateVar} {o : VarOutcome}

theorem Run.nodup (hrun : Run definition provided auto fresh os values) : values.keys.Nodup :=
  nodup_merged (Dict.keys_update_nodup (show (Dict.keys ([] : Dict Str Str)).Nodup from List.nodup_nil) _) hrun.project

theorem Run.get?_own (hrun : Run definition provided auto fresh os values) (hsep : Separate definition) (hvar : var ∈ definition.vars)
    (ho : outcome provided auto fresh var = .ok o) {k : Str} (hk : k ∈ ownKeys var) (hne : k ≠ projectNameKey) :
    values.get? k = o.entries.get? k := by
  rw [get?_merged_of_ne hrun.project hne, get?_gathered hsep.apart hrun.outcomes hvar ho hk]

theorem Run.get?_saved_own (hrun : Run definition provided auto fresh os values) (hsep : Separate definition)
    (hvar : var ∈ definition.vars) {k : Str} (hk : k ∈ ownKeys var) : (saved definition values).get? k = values.get? k := by
  rw [get?_saved hrun.nodup, hsep.kept var hvar k hk]
  rfl

/-- The variable of the project's name. -/
theorem Run.get?_project (hrun : Run definition provided auto fresh os values) (hsep : Separate definition) (hvar : var ∈ definition.vars)
    (hname : var.name = projectNameKey) (ho : outcome provided auto fresh var = .ok o) :
    ∃ v, plainValue var (provided.get? var.name) auto (fresh var.name) = .ok v ∧ checkNumber var v = .ok () ∧
      o = { entries := [(var.name, v)] } ∧ values.get? var.name = some (strip v) ∧ (v = [] ∨ strip v ≠ []) := by
  obtain ⟨hb, hv⟩ := hsep.plainName var hvar hname
  obtain ⟨v, hplain, hnumber, rfl⟩ := (outcome_plain_eq_ok hb hv).1 ho
  have hget : (Dict.update [] (os.flatMap VarOutcome.entries)).get? projectNameKey = some v := by
    rw [← hname, get?_gathered hsep.apart hrun.outcomes hvar ho (name_mem_ownKeys var), Dict.get?, if_pos rfl]
  have hprojectName : projectName provided (Dict.update [] (os.flatMap VarOutcome.entries)) = v := by
    unfold projectName
    dsimp only
    rw [hget, Option.getD_some]
    split
    · rename_i hgiven
      have hblank : isBlank (provided.get? var.name) = false := by
        rw [hname]
        exact beq_eq_false_iff_ne.2 hgiven
      unfold plainValue at hplain
      rw [hblank] at hplain
      rw [← hname]
      exact Except.ok.inj hplain
    · rfl
  refine ⟨v, hplain, hnumber, rfl, ?_⟩
  rcases mergeProjectName_eq_ok.1 hrun.project with ⟨hnil, rfl⟩ | ⟨hshort, rfl⟩
  · rw [hprojectName] at hnil
    rw [hname, hget, hnil]
    exact ⟨rfl, Or.inl rfl⟩
  · rw [hprojectName] at hshort ⊢
    rw [hname, Dict.get?_set, if_pos rfl]
    exact ⟨rfl, Or.inr (strip_ne_nil_of_isShortName hshort)⟩

/-- The project's name is accepted again, and stays. -/
theorem mergeProjectName_again {values' values'' provided' : Dict Str Str} (h : mergeProjectName provided values = .ok values')
    (hget : provided'.get? projectNameKey = values'.get? projectNameKey)
    (hsame : values''.get? projectNameKey = none ∨ values''.get? projectNameKey = values'.get? projectNameKey) :
    ∃ out, mergeProjectName provided' values'' = .ok out ∧
      (values''.get? projectNameKey = values'.get? projectNameKey → out.get? projectNameKey = values'.get? projectNameKey) := by
  rcases mergeProjectName_eq_ok.1 h with ⟨hnil, rfl⟩ | ⟨hshort, rfl⟩
  · have hempty : (values'.get? projectNameKey).getD [] = [] := by
      unfold projectName at hnil
      dsimp only at hnil
      split at hnil
      · rename_i hgiven
        rw [hnil] at hgiven
        exact absurd rfl hgiven
      · exact hnil
    have hnil' : projectName provided' values'' = [] := by
      unfold projectName
      dsimp only
      rw [hget, hempty, if_neg (fun h => h rfl)]
      rcases hsame with hnone | hsame
      · rw [hnone]
        rfl
      · rw [hsame, hempty]
    exact ⟨values'', mergeProjectName_eq_ok.2 (Or.inl ⟨hnil', rfl⟩), id⟩
  · generalize projectName provided values = given at hshort hget hsame ⊢
    have hvalue : (Dict.set projectNameKey (strip given) values).get? projectNameKey = some (strip given) := by
      rw [Dict.get?_set, if_pos rfl]
    rw [hvalue] at hget ⊢
    have hproject : projectName provided' values'' = strip given := by
      unfold projectName
      dsimp only
      rw [hget, Option.getD_some, strip_strip, if_pos (strip_ne_nil_of_isShortName hshort)]
    refine ⟨_, mergeProjectName_eq_ok.2 (Or.inr ⟨?_, rfl⟩), fun _ => ?_⟩
    · rwa [hproject, strip_strip]
    · rw [Dict.get?_set, if_pos rfl, hproject, strip_strip]

/-! ## What comes out again -/

/-- A boolean's word reads as what it stands for. A volume that is left out has no default, and one without a mode is as well named by
another variable, since its default mode names it the second time. -/
def Steady (definition : TemplateDefinition) (provided : Dict Str Str) (var : TemplateVar) : Prop :=
  match var.type with
  | .boolean => var.trueValue = var.falseValue ∨
      if comesOutTrue var (provided.get? var.name) then comesOutTrue var (some var.trueValue) = true
      else comesOutTrue var (some var.falseValue) = false
  | .volume =>
    if volumeSourceFromProvided var provided = [] then strip var.default = []
    else mountMode var provided ≠ [] ∨ (var.volumeDefaultMode = .named ∧
      ∃ w ∈ definition.vars, w.type = .volume ∧ mountMode w provided = VolumeMode.named.str ∧
        strip (volumeSourceFromProvided w provided) = strip (volumeSourceFromProvided var provided))
  | _ => True

theorem booleanText_again (var : TemplateVar) (raw : Option Str) : booleanText var (some (booleanText var raw)) = booleanText var raw ↔
    var.trueValue = var.falseValue ∨
      if comesOutTrue var raw then comesOutTrue var (some var.trueValue) = true else comesOutTrue var (some var.falseValue) = false := by
  by_cases hsame : var.trueValue = var.falseValue
  · simp [booleanText, hsame]
  · by_cases hraw : comesOutTrue var raw = true
    · by_cases hagain : comesOutTrue var (some var.trueValue) = true
      · simp [booleanText, hraw, hagain]
      · simp [booleanText, hraw, hagain, hsame, Ne.symm hsame]
    · by_cases hagain : comesOutTrue var (some var.falseValue) = true
      · simp [booleanText, hraw, hagain, hsame]
      · simp [booleanText, hraw, hagain]

/-- The empty mode is read as `named`. -/
theorem validate_empty_mode (source name : Str) :
    validateVolumeSource [] source name = validateVolumeSource VolumeMode.named.str source name := rfl

theorem validate_named {source name src : Str} (h : validateVolumeSource VolumeMode.named.str source name = .ok src) :
    src = strip source ∧ isShortName src = true := by
  have hmode : VolumeMode.ofStr (strip (if VolumeMode.named.str = [] then lit "named" else VolumeMode.named.str)) = some .named := by decide
  unfold validateVolumeSource at h
  dsimp only at h
  split at h
  · cases h
  · rw [hmode] at h
    dsimp only at h
    split at h
    · rename_i hshort
      obtain rfl := Except.ok.inj h
      exact ⟨rfl, hshort⟩
    · cases h

/-- A name is no source of the other modes that comes out as it was. -/
theorem validate_bind {m : VolumeMode} {source name : Str} (hshort : isShortName source = true)
    (h : validateVolumeSource m.str source name = .ok source) : m = .named := by
  have hmode : VolumeMode.ofStr (strip (if m.str = [] then lit "named" else m.str)) = some m := by cases m <;> decide
  have hhead : ∀ c ∈ source.head?, isAlnum c = true := by
    intro c hc
    cases source with
    | nil => cases hc
    | cons d s =>
      obtain rfl := Option.some.inj hc
      exact (Bool.and_eq_true_iff.1 (Bool.and_eq_true_iff.1 hshort).1).1
  unfold validateVolumeSource at h
  dsimp only at h
  split at h
  · cases h
  · rw [hmode] at h
    cases m with
    | named => rfl
    | bindRelative =>
      dsimp only at h
      split at h
      · have hdot := Except.ok.inj h
        rw [← hdot] at hhead
        cases hhead '.' rfl
      · cases h
    | bindAbsolute =>
      dsimp only at h
      split at h
      · rename_i habs
        have hsource := Except.ok.inj h
        rw [hsource] at habs
        cases source with
        | nil => cases hshort
        | cons c s =>
          have hslash : ('/' == c) = true := (Bool.and_eq_true_iff.1 habs.1).1
          rw [← beq_iff_eq.1 hslash] at hhead
          cases hhead '/' rfl
      · cases h

/-- What is named is managed. -/
theorem named_managed (ho : outcome provided auto fresh var = .ok o) {x : Str} (hx : x ∈ o.named) : x ∈ o.managed := by
  by_cases hv : var.type = .volume
  · rw [outcome_volume hv, volumeOutcome_eq_ok] at ho
    cases ho with
    | empty => cases hx
    | mounted src => exact List.mem_append_right _ hx
  · by_cases hb : var.type = .boolean
    · rw [outcome_boolean hb] at ho
      obtain rfl := Except.ok.inj ho
      cases hx
    · obtain ⟨value, -, -, rfl⟩ := (outcome_plain_eq_ok hb hv).1 ho
      cases hx

/-- A volume's keys are saved as they came out. -/
theorem Run.saved_volume (hrun : Run definition provided auto fresh os values) (hsep : Separate definition) (hvar : var ∈ definition.vars)
    (hv : var.type = .volume) (ho : outcome provided auto fresh var = .ok o) :
    ∀ k ∈ [var.name, modeKey var.name, sourceKey var.name],
      values.get? k = o.entries.get? k ∧ (saved definition values).get? k = o.entries.get? k := by
  intro k hk
  have hown : ownKeys var = [var.name, modeKey var.name, sourceKey var.name] := if_pos hv
  have hne : k ≠ projectNameKey := by
    simp only [List.mem_cons, List.not_mem_nil, or_false] at hk
    rcases hk with rfl | rfl | rfl
    · exact fun hname => (hsep.plainName var hvar hname).2 hv
    · exact modeKey_ne_project var.name
    · exact sourceKey_ne_project var.name
  rw [← hown] at hk
  have hget := hrun.get?_own hsep hvar ho hk hne
  exact ⟨hget, (hrun.get?_saved_own hsep hvar hk).trans hget⟩

/-- A volume that is mounted in no mode is named by another one. -/
theorem mem_named_of_namesake (hos : List.Forall₂ (fun var o => outcome provided auto fresh var = .ok o) definition.vars os)
    {w : TemplateVar} (hw : w ∈ definition.vars) (hv : w.type = .volume) (hmode : mountMode w provided = VolumeMode.named.str) {src : Str}
    (hne : src ≠ []) (hsource : strip (volumeSourceFromProvided w provided) = src) : src ∈ os.flatMap VarOutcome.named := by
  obtain ⟨o, hmem, ho⟩ := exists_outcome hos hw
  refine List.mem_flatMap.2 ⟨o, hmem, ?_⟩
  rw [outcome_volume hv, volumeOutcome_eq_ok] at ho
  cases ho with
  | empty hempty =>
    rw [hempty] at hsource
    exact absurd hsource.symm hne
  | mounted src' _ hsrc =>
    rw [hmode] at hsrc ⊢
    obtain ⟨rfl, -⟩ := validate_named hsrc
    rw [hsource, if_pos rfl]
    exact List.mem_cons_self

theorem namesake_of_mem_named (hos : List.Forall₂ (fun var o => outcome provided auto fresh var = .ok o) definition.vars os) {x : Str}
    (hx : x ∈ os.flatMap VarOutcome.named) : ∃ w ∈ definition.vars, w.type = .volume ∧ mountMode w provided = VolumeMode.named.str ∧
      strip (volumeSourceFromProvided w provided) = x := by
  obtain ⟨o, hmem, hx⟩ := List.mem_flatMap.1 hx
  obtain ⟨w, hw, ho⟩ := exists_var hos hmem
  by_cases hv : w.type = .volume
  · rw [outcome_volume hv, volumeOutcome_eq_ok] at ho
    cases ho with
    | empty => cases hx
    | mounted src hsource hsrc htarget =>
      by_cases hmode : mountMode w provided = VolumeMode.named.str
      · rw [if_pos hmode] at hx
        rw [hmode] at hsrc
        obtain rfl := List.mem_singleton.1 hx
        exact ⟨w, hw, hv, hmode, (validate_named hsrc).1.symm⟩
      · rw [if_neg hmode] at hx
        cases hx
  · by_cases hb : w.type = .boolean
    · rw [outcome_boolean hb] at ho
      obtain rfl := Except.ok.inj ho
      cases hx
    · obtain ⟨value, -, -, rfl⟩ := (outcome_plain_eq_ok hb hv).1 ho
      cases hx

/-- A variable that meets the condition comes out again as it was; only its name may be counted twice. -/
theorem Run.steady_again (hrun : Run definition provided auto fresh os values) (hsep : Separate definition)
    (hfresh : isBlank (some (fresh var.name)) = false) (hvar : var ∈ definition.vars) (ho : outcome provided auto fresh var = .ok o)
    (hsteady : Steady definition provided var) :
    ∃ o', outcome (saved definition values) false fresh var = .ok o' ∧ o'.entries.get? var.name = values.get? var.name ∧
      ((o'.named = o.named ∧ o'.managed = o.managed) ∨
        ∃ x ∈ os.flatMap VarOutcome.named, o'.named = o.named ++ [x] ∧ o'.managed = o.managed ++ [x]) := by
  have hown := hrun.get?_saved_own hsep hvar (name_mem_ownKeys var)
  by_cases hv : var.type = .volume
  · have hkeys := hrun.saved_volume hsep hvar hv ho
    obtain ⟨hvalue, hname⟩ := hkeys var.name (by simp)
    obtain ⟨-, hmode⟩ := hkeys (modeKey var.name) (by simp)
    obtain ⟨-, hsourceKey⟩ := hkeys (sourceKey var.name) (by simp)
    have hm := modeKey_ne var.name
    have hs := sourceKey_ne var.name
    have hms := modeKey_ne_sourceKey var.name
    unfold Steady at hsteady
    rw [hv] at hsteady
    dsimp only at hsteady
    rw [outcome_volume hv, volumeOutcome_eq_ok] at ho
    rw [outcome_volume hv]
    cases ho with
    | empty hsource hoptional =>
      rw [if_pos hsource] at hsteady
      simp only [Dict.get?, hs.symm, hms.symm, if_true, if_false] at hname hsourceKey hvalue
      have hagain := source_again_empty var hname hsourceKey
      rw [hsteady] at hagain
      refine ⟨_, volumeOutcome_eq_ok.2 (.empty hagain hoptional), ?_, Or.inl ⟨rfl, rfl⟩⟩
      rw [hvalue, Dict.get?, if_pos rfl]
    | mounted src hsource hsrc htarget =>
      rw [if_neg hsource] at hsteady
      simp only [Dict.get?, hm.symm, hs.symm, hms.symm, if_true, if_false] at hmode hsourceKey hvalue
      obtain ⟨hvalid, hne, hstrip⟩ := validate_again hsrc
      have hagain := source_again_mounted var hstrip hne hsourceKey
      have hmode' := mountMode_again var hmode
      have hne' : volumeSourceFromProvided var (saved definition values) ≠ [] := by rwa [hagain]
      by_cases hnil : mountMode var provided = []
      · rw [if_pos hnil] at hmode'
        obtain ⟨hnamed, w, hw, hwv, hwmode, hwsource⟩ := hsteady.resolve_left (fun h => h hnil)
        rw [hnamed] at hmode'
        rw [hnil, validate_empty_mode] at hsrc hvalid
        obtain ⟨hsrc, -⟩ := validate_named hsrc
        have hmem := mem_named_of_namesake hrun.outcomes hw hwv hwmode hne (hwsource.trans hsrc.symm)
        have hvalid' : validateVolumeSource (mountMode var (saved definition values)) (volumeSourceFromProvided var (saved definition values))
            var.name = .ok src := by rwa [hagain, hmode']
        refine ⟨_, volumeOutcome_eq_ok.2 (.mounted src hne' hvalid' htarget), ?_, Or.inr ⟨src, hmem, ?_, ?_⟩⟩
        · rw [hvalue, Dict.get?, if_pos rfl]
        · rw [hmode', hnil, if_pos rfl, if_neg (by decide)]
          rfl
        · rw [hmode', hnil, if_pos rfl, if_neg (by decide), List.append_nil]
      · rw [if_neg hnil] at hmode'
        have hvalid' : validateVolumeSource (mountMode var (saved definition values)) (volumeSourceFromProvided var (saved definition values))
            var.name = .ok src := by rwa [hagain, hmode']
        refine ⟨_, volumeOutcome_eq_ok.2 (.mounted src hne' hvalid' htarget), ?_, Or.inl ⟨?_, ?_⟩⟩
        · rw [hvalue, Dict.get?, if_pos rfl]
        · rw [hmode']
        · rw [hmode']
  · by_cases hb : var.type = .boolean
    · have hne : var.name ≠ projectNameKey := fun hname => (hsep.plainName var hvar hname).1 hb
      have hvalue := hrun.get?_own hsep hvar ho (name_mem_ownKeys var) hne
      rw [outcome_boolean hb] at ho
      obtain rfl := Except.ok.inj ho
      unfold Steady at hsteady
      rw [hb] at hsteady
      rw [Dict.get?, if_pos rfl] at hvalue
      refine ⟨_, outcome_boolean hb, ?_, Or.inl ⟨rfl, rfl⟩⟩
      rw [hown, hvalue, (booleanText_again var _).2 hsteady, Dict.get?, if_pos rfl]
    · by_cases hname : var.name = projectNameKey
      · obtain ⟨v, hplain, hnumber, rfl, hget, hv'⟩ := hrun.get?_project hsep hvar hname ho
        refine ⟨_, plain_outcome_again hb hv hfresh hplain hnumber (Or.inr ⟨rfl, hv'⟩) (hown.trans hget), ?_, Or.inl ⟨rfl, rfl⟩⟩
        rw [hget, Dict.get?, if_pos rfl]
      · have hvalue := hrun.get?_own hsep hvar ho (name_mem_ownKeys var) hname
        obtain ⟨v, hplain, hnumber, rfl⟩ := (outcome_plain_eq_ok hb hv).1 ho
        rw [Dict.get?, if_pos rfl] at hvalue
        refine ⟨_, plain_outcome_again hb hv hfresh hplain hnumber (Or.inl rfl) (hown.trans hvalue), ?_, Or.inl ⟨rfl, rfl⟩⟩
        rw [hvalue, Dict.get?, if_pos rfl]

/-- A variable that comes out again as it was meets the condition. -/
theorem Run.again_steady (hrun : Run definition provided auto fresh os values) (hsep : Separate definition) (hvar : var ∈ definition.vars)
    (ho : outcome provided auto fresh var = .ok o) {o' : VarOutcome} (ho' : outcome (saved definition values) false fresh var = .ok o')
    (hvalue' : o'.entries.get? var.name = values.get? var.name) (hnamed : ∀ x ∈ o'.named, x ∈ os.flatMap VarOutcome.named) :
    Steady definition provided var := by
  have hown := hrun.get?_saved_own hsep hvar (name_mem_ownKeys var)
  unfold Steady
  split
  · rename_i hb
    have hne : var.name ≠ projectNameKey := fun hname => (hsep.plainName var hvar hname).1 hb
    have hvalue := hrun.get?_own hsep hvar ho (name_mem_ownKeys var) hne
    rw [outcome_boolean hb] at ho ho'
    obtain rfl := Except.ok.inj ho
    obtain rfl := Except.ok.inj ho'
    rw [Dict.get?, if_pos rfl] at hvalue hvalue'
    rw [hown, hvalue] at hvalue'
    exact (booleanText_again var _).1 (Option.some.inj hvalue')
  · rename_i hv
    have hkeys := hrun.saved_volume hsep hvar hv ho
    obtain ⟨hvalue, hname⟩ := hkeys var.name (by simp)
    obtain ⟨-, hmode⟩ := hkeys (modeKey var.name) (by simp)
    obtain ⟨-, hsourceKey⟩ := hkeys (sourceKey var.name) (by simp)
    have hm := modeKey_ne var.name
    have hs := sourceKey_ne var.name
    have hms := modeKey_ne_sourceKey var.name
    rw [outcome_volume hv, volumeOutcome_eq_ok] at ho ho'
    cases ho with
    | empty hsource hoptional =>
      rw [if_pos hsource]
      simp only [Dict.get?, hs.symm, hms.symm, if_true, if_false] at hname hsourceKey hvalue
      rw [← source_again_empty var hname hsourceKey]
      cases ho' with
      | empty hsource' => exact hsource'
      | mounted src =>
        rw [hvalue, Dict.get?, if_pos rfl] at hvalue'
        exact absurd (List.append_eq_nil_iff.1 (Option.some.inj hvalue')).2 (List.cons_ne_nil _ _)
    | mounted src hsource hsrc htarget =>
      rw [if_neg hsource]
      simp only [Dict.get?, hm.symm, hs.symm, hms.symm, if_true, if_false] at hmode hsourceKey hvalue
      obtain ⟨-, hne, hstrip⟩ := validate_again hsrc
      have hagain := source_again_mounted var hstrip hne hsourceKey
      by_cases hnil : mountMode var provided = []
      · right
        have hmode' := mountMode_again var hmode
        rw [if_pos hnil] at hmode'
        rw [hnil, validate_empty_mode] at hsrc
        obtain ⟨hsrc, hshort⟩ := validate_named hsrc
        cases ho' with
        | empty hempty =>
          rw [hagain] at hempty
          exact absurd hempty hne
        | mounted src' _ hsrc' =>
          rw [hvalue, Dict.get?, if_pos rfl] at hvalue'
          obtain rfl := List.append_cancel_right (Option.some.inj hvalue')
          rw [hagain, hmode'] at hsrc'
          have hdefault := validate_bind hshort hsrc'
          rw [hmode', hdefault, if_pos rfl] at hnamed
          obtain ⟨w, hw, hwv, hwmode, hwsource⟩ := namesake_of_mem_named hrun.outcomes (hnamed src' List.mem_cons_self)
          exact ⟨hdefault, w, hw, hwv, hwmode, hwsource.trans hsrc⟩
      · exact Or.inl hnil
  · trivial

end

end

/-! ## The second merging -/

/-- The second merging gives every variable its value and the same lists of named volumes. -/
def Remerges (definition : TemplateDefinition) (fresh : Str → Str) (r : Merged) : Prop :=
  ∃ r', mergeVariableValues definition (saved definition r.values) false fresh = .ok r' ∧
    (∀ var ∈ definition.vars, r'.values.get? var.name = r.values.get? var.name) ∧
    sortedSet r'.namedVolumes = sortedSet r.namedVolumes ∧ sortedSet r'.managedVolumeNames = sortedSet r.managedVolumeNames

/-- The lists are the same when they have the same names. -/
theorem sortedSet_eq_iff {l m : List Str} : sortedSet l = sortedSet m ↔ ∀ x, x ∈ l ↔ x ∈ m := by
  constructor
  · intro h x
    rw [← mem_sortedSet, h, mem_sortedSet]
  · intro h
    have hset : l.eraseDups.Perm m.eraseDups :=
      (List.perm_ext_iff_of_nodup (nodup_eraseDups l) (nodup_eraseDups m)).2 fun x => by rw [List.mem_eraseDups, List.mem_eraseDups, h]
    have hsort : (sortedSet l).Perm (sortedSet m) :=
      ((List.perm_insertionSort _ _).trans hset).trans (List.perm_insertionSort _ _).symm
    exact hsort.eq_of_pairwise' (List.pairwise_insertionSort _ _) (List.pairwise_insertionSort _ _)

/-- What is generated is no blank. -/
def Generates (fresh : Str → Str) : Prop := ∀ name, (fresh name).length = 24 ∧ (fresh name).all isAlnum = true

/-- Member by member, the second merging's lists are the first one's where each outcome's are, but for what is listed anyway. -/
theorem mem_lists_again (P : VarOutcome → List Str) {os os' : List VarOutcome} (named : List Str) (hsub : ∀ x ∈ named, x ∈ os.flatMap P)
    (hto : ∀ o' ∈ os', ∃ o ∈ os, P o' = P o ∨ ∃ x ∈ named, P o' = P o ++ [x])
    (hfrom : ∀ o ∈ os, ∃ o' ∈ os', P o' = P o ∨ ∃ x ∈ named, P o' = P o ++ [x]) (y : Str) :
    y ∈ os'.flatMap P ↔ y ∈ os.flatMap P := by
  constructor
  · intro hy
    obtain ⟨o', hmem', hy⟩ := List.mem_flatMap.1 hy
    obtain ⟨o, hmem, heq | ⟨x, hx, heq⟩⟩ := hto o' hmem'
    · exact List.mem_flatMap.2 ⟨o, hmem, heq ▸ hy⟩
    · rw [heq] at hy
      rcases List.mem_append.1 hy with hy | hy
      · exact List.mem_flatMap.2 ⟨o, hmem, hy⟩
      · exact List.mem_singleton.1 hy ▸ hsub x hx
  · intro hy
    obtain ⟨o, hmem, hy⟩ := List.mem_flatMap.1 hy
    obtain ⟨o', hmem', heq | ⟨x, -, heq⟩⟩ := hfrom o hmem
    · exact List.mem_flatMap.2 ⟨o', hmem', heq.symm ▸ hy⟩
    · exact List.mem_flatMap.2 ⟨o', hmem', heq.symm ▸ List.mem_append_left _ hy⟩

theorem Generates.not_blank {fresh : Str → Str} (h : Generates fresh) (name : Str) : isBlank (some (fresh name)) = false := by
  obtain ⟨hlen, halnum⟩ := h name
  have hchars : ∀ c ∈ fresh name, isSpace c = false := fun c hc => isSpace_of_isPathChar (by
    unfold isPathChar
    rw [List.all_eq_true.1 halnum c hc]
    rfl)
  have hstrip : strip (fresh name) = fresh name :=
    strip_eq_self (fun c hc => hchars c (List.mem_of_mem_head? hc)) fun c hc => hchars c (List.mem_of_mem_getLast? hc)
  rw [isBlank_eq_false, hstrip]
  intro hnil
  rw [hnil] at hlen
  cases hlen

theorem name_of_project_mem_ownKeys {var : TemplateVar} (h : projectNameKey ∈ ownKeys var) : var.name = projectNameKey := by
  unfold ownKeys at h
  split at h
  · simp only [List.mem_cons, List.not_mem_nil, or_false] at h
    rcases h with h | h | h
    · exact h.symm
    · exact absurd h.symm (modeKey_ne_project _)
    · exact absurd h.symm (sourceKey_ne_project _)
  · exact (List.mem_singleton.1 h).symm

section
variable {definition : TemplateDefinition} {provided : Dict Str Str} {auto : Bool} {fresh : Str → Str} {os os' : List VarOutcome}
  {values : Dict Str Str}

/-- Each outcome of the second merging is the first one's, but for a name that is listed anyway. -/
def SameBut (definition : TemplateDefinition) (provided : Dict Str Str) (auto : Bool) (fresh : Str → Str) (os : List VarOutcome)
    (values : Dict Str Str) : Prop :=
  ∀ var ∈ definition.vars, ∀ o o', outcome provided auto fresh var = .ok o → outcome (saved definition values) false fresh var = .ok o' →
    o'.entries.get? var.name = values.get? var.name ∧ ((o'.named = o.named ∧ o'.managed = o.managed) ∨
      ∃ x ∈ os.flatMap VarOutcome.named, o'.named = o.named ++ [x] ∧ o'.managed = o.managed ++ [x])

theorem Run.lists_again (hrun : Run definition provided auto fresh os values)
    (hos' : List.Forall₂ (fun var o => outcome (saved definition values) false fresh var = .ok o) definition.vars os')
    (hpair : SameBut definition provided auto fresh os values) {P : VarOutcome → List Str} (hP : P = VarOutcome.named ∨ P = VarOutcome.managed)
    (y : Str) : y ∈ os'.flatMap P ↔ y ∈ os.flatMap P := by
  have heq : ∀ var ∈ definition.vars, ∀ o o', outcome provided auto fresh var = .ok o →
      outcome (saved definition values) false fresh var = .ok o' → P o' = P o ∨ ∃ x ∈ os.flatMap VarOutcome.named, P o' = P o ++ [x] := by
    intro var hvar o o' ho ho'
    rcases hpair var hvar o o' ho ho' with ⟨-, ⟨hn, hm⟩ | ⟨x, hx, hn, hm⟩⟩ <;> rcases hP with rfl | rfl
    · exact Or.inl hn
    · exact Or.inl hm
    · exact Or.inr ⟨x, hx, hn⟩
    · exact Or.inr ⟨x, hx, hm⟩
  refine mem_lists_again P (os.flatMap VarOutcome.named) ?_ ?_ ?_ y
  · intro x hx
    rcases hP with rfl | rfl
    · exact hx
    · obtain ⟨o, hmem, hx⟩ := List.mem_flatMap.1 hx
      obtain ⟨var, -, ho⟩ := exists_var hrun.outcomes hmem
      exact List.mem_flatMap.2 ⟨o, hmem, named_managed ho hx⟩
  · intro o' hmem'
    obtain ⟨var, hvar, ho'⟩ := exists_var hos' hmem'
    obtain ⟨o, hmem, ho⟩ := exists_outcome hrun.outcomes hvar
    exact ⟨o, hmem, heq var hvar o o' ho ho'⟩
  · intro o hmem
    obtain ⟨var, hvar, ho⟩ := exists_var hrun.outcomes hmem
    obtain ⟨o', hmem', ho'⟩ := exists_outcome hos' hvar
    exact ⟨o', hmem', heq var hvar o o' ho ho'⟩

/-- Where every variable comes out again, the second merging succeeds, with the same values. -/
theorem Run.run_again (hrun : Run definition provided auto fresh os values) (hsep : Separate definition)
    (hos' : List.Forall₂ (fun var o => outcome (saved definition values) false fresh var = .ok o) definition.vars os')
    (hpair : SameBut definition provided auto fresh os values) :
    ∃ values', Run definition (saved definition values) false fresh os' values' ∧
      ∀ var ∈ definition.vars, values'.get? var.name = values.get? var.name := by
  have hvalue : ∀ var ∈ definition.vars, ∃ o', outcome (saved definition values) false fresh var = .ok o' ∧
      o'.entries.get? var.name = values.get? var.name := by
    intro var hvar
    obtain ⟨o, -, ho⟩ := exists_outcome hrun.outcomes hvar
    obtain ⟨o', -, ho'⟩ := exists_outcome hos' hvar
    exact ⟨o', ho', (hpair var hvar o o' ho ho').1⟩
  have hgathered : ∀ var ∈ definition.vars,
      (Dict.update [] (os'.flatMap VarOutcome.entries)).get? var.name = values.get? var.name := by
    intro var hvar
    obtain ⟨o', ho', heq⟩ := hvalue var hvar
    rw [get?_gathered hsep.apart hos' hvar ho' (name_mem_ownKeys var), heq]
  have hget : (saved definition values).get? projectNameKey = values.get? projectNameKey := by
    rw [get?_saved hrun.nodup, if_neg (by decide)]
  have hsame : (Dict.update [] (os'.flatMap VarOutcome.entries)).get? projectNameKey = none ∨
      (Dict.update [] (os'.flatMap VarOutcome.entries)).get? projectNameKey = values.get? projectNameKey := by
    by_cases hmem : ∃ var ∈ definition.vars, var.name = projectNameKey
    · obtain ⟨var, hvar, hname⟩ := hmem
      exact Or.inr (hname ▸ hgathered var hvar)
    · left
      rw [Dict.get?_update (nodup_gathered hsep.apart hos'), Dict.get?_eq_none.2]
      · rfl
      · intro hkey
        obtain ⟨v, hv, hown⟩ := keys_gathered hos' projectNameKey hkey
        exact hmem ⟨v, hv, name_of_project_mem_ownKeys hown⟩
  obtain ⟨values', hvalues', hproject⟩ := mergeProjectName_again hrun.project hget hsame
  refine ⟨values', ⟨hos', hvalues'⟩, fun var hvar => ?_⟩
  by_cases hname : var.name = projectNameKey
  · rw [hname]
    exact hproject (hname ▸ hgathered var hvar)
  · rw [get?_merged_of_ne hvalues' hname, hgathered var hvar]

end

/-- A switch and a volume. -/
def mailStack : TemplateDefinition where
  slug := lit "mail"
  name := lit "Mail"
  vars := [{ name := lit "TLS", type := .boolean }, { name := lit "DATA", type := .volume, default := lit "mail", volumeTarget := lit "/data" }]

def generated (_ : Str) : Str := List.replicate 24 'x'

def mailMerged : Merged where
  values := [(lit "TLS", lit "true"), (lit "DATA", lit "mail:/data"), (lit "DATA__mode", lit "named"), (lit "DATA__source", lit "mail")]
  namedVolumes := [lit "mail"]
  managedVolumeNames := [lit "mail", lit "mail"]

/-- A switch whose words are the other way round. -/
def offSwitch : TemplateDefinition where
  slug := lit "mail"
  name := lit "Mail"
  vars := [{ name := lit "NO_TLS", type := .boolean, trueValue := lit "0", falseValue := lit "1" }]

end PiHerder.Stacks
