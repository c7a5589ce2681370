import PiHerder.Lib.Eff
import PiHerder.Stacks.Deployments

/-!
# What each call does

A call raises and leaves the row, or it saves one. `apply_cases`, `redeploy_cases`, `adopt_cases` and `migrate_cases` say which,
with all that a save goes by; what later modules prove about a call they prove from these. `held` is what the row's token
contains, whoever can open it.
-/
namespace PiHerder.Stacks
open Lib Lib.Str

/-! ## Tokens -/

section
variable {K : Type}

def StackDeployment.held (dep : StackDeployment K) : Dict Str Str := (dep.secretsEncrypted.map Sealed.secrets).getD []

/-- The key is the one the token was made with. -/
def Opens (env : Surroundings K) (dep : StackDeployment K) : Prop := ∀ token, dep.secretsEncrypted = some token → some token.key = env.key

theorem held_encryptSecrets {key : Option K} {secretsMap : Dict Str Str} {token : Option (Sealed K)}
    (h : encryptSecrets key secretsMap = .ok token) : (token.map Sealed.secrets).getD [] = secretsMap := by
  unfold encryptSecrets at h
  split at h
  · rename_i hnil
    cases h
    exact hnil.symm
  · split at h
    · cases h
    · cases h
      rfl

theorem encryptSecrets_some {key : Option K} {secretsMap : Dict Str Str} {token : Sealed K}
    (h : encryptSecrets key secretsMap = .ok (some token)) : secretsMap ≠ [] ∧ key ≠ none := by
  unfold encryptSecrets at h
  split at h
  · cases h
  · rename_i hne
    split at h
    · cases h
    · exact ⟨hne, by simp⟩

theorem encryptSecrets_isOk {key : Option K} {secretsMap : Dict Str Str} :
    (∃ token, encryptSecrets key secretsMap = .ok token) ↔ secretsMap = [] ∨ key ≠ none := by
  unfold encryptSecrets
  split
  · rename_i hnil
    exact iff_of_true ⟨_, rfl⟩ (Or.inl hnil)
  · rename_i hne
    cases key with
    | none => simp [hne]
    | some k => simp

/-- The assignments of the host's `.env`. -/
def hostEnv (env : Surroundings K) : Dict Str Str := parseEnvFile (envText (env.live.getD []))

theorem hostEnv_nodup (env : Surroundings K) : (hostEnv env).keys.Nodup := nodup_parseEnvFile _

theorem saveDesiredState_ok {key : Option K} {existing : Option (StackDeployment K)} {template : ServiceTemplate}
    {publicVars secretsMap files : Dict Str Str} {dep' : StackDeployment K}
    (h : saveDesiredState key existing template publicVars secretsMap files = .ok dep') :
    ∃ token, encryptSecrets key secretsMap = .ok token ∧ dep'.secretsEncrypted = token ∧ dep'.held = secretsMap ∧
      dep'.variablesJson = publicVars ∧ dep'.filesJson = filesForDbStorage files secretsMap ∧ dep'.templateSlug = some template.slug := by
  unfold saveDesiredState at h
  cases htoken : encryptSecrets key secretsMap with
  | error e =>
    rw [htoken] at h
    cases h
  | ok token =>
    rw [htoken] at h
    obtain rfl := Except.ok.inj h
    exact ⟨token, rfl, rfl, held_encryptSecrets htoken, rfl, rfl, rfl⟩

theorem saveWithoutTemplate_ok {key : Option K} {dep dep' : StackDeployment K} {desired : Desired} {files : Dict Str Str}
    (h : saveWithoutTemplate key dep desired files = .ok dep') :
    ∃ token, encryptSecrets key desired.secretsMap = .ok token ∧ dep'.secretsEncrypted = token ∧ dep'.held = desired.secretsMap ∧
      dep'.variablesJson = desired.publicVars ∧ dep'.filesJson = files ∧ dep'.templateSlug = dep.templateSlug := by
  unfold saveWithoutTemplate at h
  cases htoken : encryptSecrets key desired.secretsMap with
  | error e =>
    rw [htoken] at h
    cases h
  | ok token =>
    rw [htoken] at h
    obtain rfl := Except.ok.inj h
    exact ⟨token, rfl, rfl, held_encryptSecrets htoken, rfl, rfl, rfl⟩

theorem saveRedeployed_ok {env : Surroundings K} {dep : StackDeployment K} {desired : Desired} {files : Dict Str Str}
    (h : desired.secretsMap = [] ∨ env.key ≠ none) :
    ∃ dep', saveRedeployed env dep desired files = .ok dep' ∧ dep'.held = desired.secretsMap := by
  obtain ⟨token, htoken⟩ := encryptSecrets_isOk.2 h
  unfold saveRedeployed saveDesiredState saveWithoutTemplate
  rw [htoken]
  split <;> exact ⟨_, rfl, held_encryptSecrets htoken⟩

theorem saveRedeployed_error {env : Surroundings K} {dep : StackDeployment K} {desired : Desired} {files : Dict Str Str}
    (h : ¬ (desired.secretsMap = [] ∨ env.key ≠ none)) : ∃ e, saveRedeployed env dep desired files = .error e := by
  unfold saveRedeployed saveDesiredState saveWithoutTemplate
  cases hencrypt : encryptSecrets env.key desired.secretsMap with
  | ok token => exact absurd (encryptSecrets_isOk.1 ⟨token, hencrypt⟩) h
  | error e => split <;> exact ⟨e, rfl⟩

/-! ## Applying -/

/-- What is rendered of a template: its files with the merged values, and the secrets in the `.env`. -/
theorem renderForHost_ok {env : Surroundings K} {slug : Option Str} {templateId : Option Nat} {values : Dict Str Str} {autoGenerate : Bool}
    {r : Rendered} (h : renderForHost env slug templateId values autoGenerate = .ok r) :
    ∃ definition merged files, getTemplateDefinition env.catalog slug templateId = .ok definition ∧
      mergeVariableValues definition values autoGenerate env.fresh = .ok merged ∧ projectOf definition merged.values = .ok r.project ∧
      renderTemplateFiles definition { merged with values := merged.values.set projectNameKey r.project } = .ok files ∧
      r.publicVars = (splitSecrets definition (merged.values.set projectNameKey r.project)).1 ∧
      r.secretsMap = (splitSecrets definition (merged.values.set projectNameKey r.project)).2 ∧
      r.files = mergeSecretsIntoEnvFiles files r.secretsMap := by
  unfold renderForHost at h
  split at h
  · cases h
  · obtain ⟨definition, hdefinition, h⟩ := except_bind_eq_ok.1 h
    split at h
    · cases h
    · obtain ⟨merged, hmerged, h⟩ := except_bind_eq_ok.1 h
      obtain ⟨project, hproject, h⟩ := except_bind_eq_ok.1 h
      obtain ⟨files, hfiles, h⟩ := except_bind_eq_ok.1 h
      obtain rfl := Except.ok.inj h
      exact ⟨definition, merged, files, hdefinition, hmerged, hproject, hfiles, rfl, rfl, rfl⟩

/-- An apply writes what it rendered and saves it. It raises, or leaves the stack of another project, otherwise. -/
theorem apply_cases (env : Surroundings K) (slug : Option Str) (templateId : Option Nat) (values : Dict Str Str) (autoGenerate : Bool)
    (stack : Stack K) :
    let o := applyTemplateToHost env slug templateId values autoGenerate stack
    (∃ r host dep', renderForHost env slug templateId values autoGenerate = .ok r ∧ r.project = stack.project ∧
        writeProjectFiles env.fault stack.host (filesForSftp r.files) = (true, host) ∧
        saveDesiredState env.key stack.deployment r.template r.publicVars r.secretsMap r.files = .ok dep' ∧
        o = ⟨{ stack with host, deployment := some dep' }, .ok ()⟩) ∨
      (o.stack.project = stack.project ∧ o.stack.deployment = stack.deployment ∧
        (o.result.isOk = false ∨ ∃ r, renderForHost env slug templateId values autoGenerate = .ok r ∧ r.project ≠ stack.project)) := by
  intro o
  have ho : o = applyTemplateToHost env slug templateId values autoGenerate stack := rfl
  unfold applyTemplateToHost at ho
  cases hr : renderForHost env slug templateId values autoGenerate with
  | error e =>
    rw [hr] at ho
    rw [ho]
    exact Or.inr ⟨rfl, rfl, Or.inl rfl⟩
  | ok r =>
    rw [hr] at ho
    dsimp only at ho
    by_cases hproject : r.project = stack.project
    · rw [if_neg (not_not.2 hproject)] at ho
      rcases hwrite : writeProjectFiles env.fault stack.host (filesForSftp r.files) with ⟨written, host⟩
      rw [hwrite] at ho
      cases written with
      | false =>
        rw [ho]
        exact Or.inr ⟨rfl, rfl, Or.inl rfl⟩
      | true =>
        cases hsave : saveDesiredState env.key stack.deployment r.template r.publicVars r.secretsMap r.files with
        | error e =>
          rw [hsave] at ho
          rw [ho]
          exact Or.inr ⟨rfl, rfl, Or.inl rfl⟩
        | ok dep' =>
          rw [hsave] at ho
          exact Or.inl ⟨r, host, dep', rfl, hproject, hwrite, hsave, ho⟩
    · rw [if_pos hproject] at ho
      rw [ho]
      exact Or.inr ⟨rfl, rfl, Or.inr ⟨r, rfl, hproject⟩⟩

/-- The template is rendered again with the stored values, the project's name over them. -/
theorem rerender_ok_iff {env : Surroundings K} {project slug : Str} {publicVars secretsMap : Dict Str Str} {desired : Desired} :
    rerender env project slug publicVars secretsMap = .ok desired ↔
      ∃ definition merged files, getTemplateDefinition env.catalog (some slug) none = .ok definition ∧
        mergeVariableValues definition ((publicVars.update secretsMap).set projectNameKey project) false env.fresh = .ok merged ∧
        renderTemplateFiles definition { merged with values := merged.values.set projectNameKey project } = .ok files ∧
        desired = ⟨(splitSecrets definition (merged.values.set projectNameKey project)).1,
          (splitSecrets definition (merged.values.set projectNameKey project)).2, files⟩ := by
  unfold rerender
  constructor
  · intro h
    obtain ⟨definition, hdefinition, h⟩ := except_bind_eq_ok.1 h
    obtain ⟨merged, hmerged, h⟩ := except_bind_eq_ok.1 h
    obtain ⟨files, hfiles, h⟩ := except_bind_eq_ok.1 h
    exact ⟨definition, merged, files, hdefinition, hmerged, hfiles, (Except.ok.inj h).symm⟩
  · rintro ⟨definition, merged, files, hdefinition, hmerged, hfiles, rfl⟩
    refine except_bind_eq_ok.2 ⟨definition, hdefinition, except_bind_eq_ok.2 ⟨merged, hmerged, except_bind_eq_ok.2 ⟨files, hfiles, rfl⟩⟩⟩

end

section
variable {K : Type} [DecidableEq K]

theorem decrypt_of_opens {env : Surroundings K} {dep : StackDeployment K} (h : Opens env dep) :
    decryptDeploymentSecrets env.key dep = dep.held := by
  unfold decryptDeploymentSecrets StackDeployment.held
  cases htoken : dep.secretsEncrypted with
  | none => rfl
  | some token => exact if_pos (h token htoken)

theorem decrypt_of_not_opens {env : Surroundings K} {dep : StackDeployment K} (h : ¬ Opens env dep) :
    decryptDeploymentSecrets env.key dep = [] := by
  unfold decryptDeploymentSecrets
  cases htoken : dep.secretsEncrypted with
  | none => rfl
  | some token =>
    refine if_neg fun hkey => h fun token' htoken' => ?_
    obtain rfl := Option.some.inj (htoken.symm.trans htoken')
    exact hkey

theorem decrypt_of_no_key {env : Surroundings K} {dep : StackDeployment K} (h : env.key = none) :
    decryptDeploymentSecrets env.key dep = [] := by
  unfold decryptDeploymentSecrets
  rw [h]
  cases dep.secretsEncrypted with
  | none => rfl
  | some token => exact if_neg (by simp)

/-! ## Redeploying -/

/-- The desired state of a redeploy, with what it is given. -/
def planned (env : Surroundings K) (project : Str) (dep : StackDeployment K) (updatedPublic updatedSecrets : Dict Str Str) : Desired :=
  desiredOf env project dep (dep.variablesJson.update updatedPublic)
    ((decryptDeploymentSecrets env.key dep).update (updatedSecrets.filter (·.2 ≠ [])))

/-- Nothing raises before the row is saved: not the writing, not `docker compose`, not the encryption. -/
def RedeploySaves (env : Surroundings K) (host : Dict Str Str) (desired : Desired) (deployNow : Bool) : Prop :=
  (writeProjectFiles env.fault host (mergeSecretsIntoEnvFiles desired.files desired.secretsMap)).1 = true ∧
    (deployNow && env.composeFails) = false ∧ (desired.secretsMap = [] ∨ env.key ≠ none)

/-- A redeploy writes the desired files and saves them, or it raises and leaves the row. -/
theorem redeploy_cases (env : Surroundings K) (project : Str) (dep : StackDeployment K) (host : Dict Str Str)
    (updatedPublic updatedSecrets : Dict Str Str) (deployNow : Bool) :
    let desired := planned env project dep updatedPublic updatedSecrets
    let files := mergeSecretsIntoEnvFiles desired.files desired.secretsMap
    let o := redeployDesiredState env updatedPublic updatedSecrets deployNow ⟨project, some dep, host⟩
    (RedeploySaves env host desired deployNow ∧ ∃ dep', saveRedeployed env dep desired files = .ok dep' ∧ dep'.held = desired.secretsMap ∧
        o = ⟨⟨project, some dep', (writeProjectFiles env.fault host files).2⟩, .ok ()⟩) ∨
      (¬ RedeploySaves env host desired deployNow ∧ o.stack.project = project ∧ o.stack.deployment = some dep ∧ o.result.isOk = false) := by
  intro desired files o
  have ho : o = redeployDesiredState env updatedPublic updatedSecrets deployNow ⟨project, some dep, host⟩ := rfl
  unfold redeployDesiredState at ho
  dsimp only at ho
  rw [show desiredOf env project dep _ _ = desired from rfl] at ho
  by_cases hwritten : (writeProjectFiles env.fault host (mergeSecretsIntoEnvFiles desired.files desired.secretsMap)).1 = true
  · rw [hwritten, if_neg (by simp)] at ho
    by_cases hcompose : (deployNow && env.composeFails) = true
    · rw [if_pos hcompose] at ho
      rw [ho]
      exact Or.inr ⟨fun h => absurd h.2.1 (by simp [hcompose]), rfl, rfl, rfl⟩
    · rw [if_neg hcompose] at ho
      by_cases hkey : desired.secretsMap = [] ∨ env.key ≠ none
      · obtain ⟨dep', hdep', hheld⟩ := @saveRedeployed_ok _ env dep desired (mergeSecretsIntoEnvFiles desired.files desired.secretsMap) hkey
        rw [hdep'] at ho
        exact Or.inl ⟨⟨hwritten, by simpa using hcompose, hkey⟩, dep', hdep', hheld, ho⟩
      · obtain ⟨e, he⟩ := @saveRedeployed_error _ env dep desired (mergeSecretsIntoEnvFiles desired.files desired.secretsMap) hkey
        rw [he] at ho
        rw [ho]
        exact Or.inr ⟨fun h => hkey h.2.2, rfl, rfl, rfl⟩
  · rw [if_pos (by simpa using hwritten)] at ho
    rw [ho]
    exact Or.inr ⟨fun h => hwritten h.1, rfl, rfl, rfl⟩

/-! ## From the host -/

def refreshed (env : Surroundings K) (dep : StackDeployment K) : Dict Str Str :=
  refreshSecretsFromHostEnv (decryptDeploymentSecrets env.key dep) (hostEnv env)
    (secretNamesForDeployment env.catalog dep (decryptDeploymentSecrets env.key dep))

/-- An adopting saves the host's files with the refreshed secrets, and keeps the token where there are none. -/
theorem adopt_cases (env : Surroundings K) (project : Str) (dep : StackDeployment K) (host : Dict Str Str) :
    let o := adoptHostFilesAsDesired env ⟨project, some dep, host⟩
    (∃ live token, env.live = some live ∧ live ≠ [] ∧ encryptSecrets env.key (refreshed env dep) = .ok token ∧
        o = ⟨⟨project, some { dep with
          configVersion := dep.configVersion + 1
          filesJson := filesForDbStorage live (refreshed env dep)
          secretsEncrypted := token.or dep.secretsEncrypted
          driftStatus := .inSync }, host⟩, .ok ()⟩) ∨
      ((env.live.getD [] = [] ∨ refreshed env dep ≠ [] ∧ env.key = none) ∧ o.stack = ⟨project, some dep, host⟩ ∧ o.result.isOk = false) := by
  intro o
  have ho : o = adoptHostFilesAsDesired env ⟨project, some dep, host⟩ := rfl
  unfold adoptHostFilesAsDesired at ho
  cases hlive : env.live with
  | none =>
    rw [hlive] at ho
    rw [ho]
    exact Or.inr ⟨Or.inl rfl, rfl, rfl⟩
  | some live =>
    have hrefreshed : refreshSecretsFromHostEnv (decryptDeploymentSecrets env.key dep) (parseEnvFile (envText live))
        (secretNamesForDeployment env.catalog dep (decryptDeploymentSecrets env.key dep)) = refreshed env dep := by
      rw [refreshed, hostEnv, hlive, Option.getD_some]
    rw [hlive] at ho
    dsimp only at ho
    rw [hrefreshed] at ho
    by_cases hnil : live = []
    · rw [if_pos hnil] at ho
      rw [ho]
      exact Or.inr ⟨Or.inl hnil, rfl, rfl⟩
    · rw [if_neg hnil] at ho
      cases hencrypt : encryptSecrets env.key (refreshed env dep) with
      | error e =>
        rw [hencrypt] at ho
        rw [ho]
        refine Or.inr ⟨Or.inr ?_, rfl, rfl⟩
        by_contra hnot
        obtain ⟨token, htoken⟩ := encryptSecrets_isOk.2 (or_iff_not_imp_left.2 fun hne hkey => hnot ⟨hne, hkey⟩)
        rw [htoken] at hencrypt
        cases hencrypt
      | ok token =>
        rw [hencrypt] at ho
        exact Or.inl ⟨live, token, rfl, hnil, rfl, ho⟩

/-- The names that a migration knows for secrets'. -/
def migrateNames (env : Surroundings K) (dep : StackDeployment K) : List Str :=
  secretNamesForDeployment env.catalog dep (decryptDeploymentSecrets env.key dep)

def importedSecrets (env : Surroundings K) (dep : StackDeployment K) (secretKeys : Option (List Str)) : Dict Str Str × Dict Str Str :=
  imported (migrateNames env dep) dep.variablesJson (decryptDeploymentSecrets env.key dep) (hostEnv env)
    (migrateTargets (migrateNames env dep) (hostEnv env) secretKeys)

/-- A migration saves the imported values over the known ones, where there are any. -/
theorem migrate_cases (env : Surroundings K) (project : Str) (dep : StackDeployment K) (host : Dict Str Str) (secretKeys : Option (List Str)) :
    let updated := importedSecrets env dep secretKeys
    let secretsMap := (decryptDeploymentSecrets env.key dep).update updated.1
    let o := migrateHostEnvIntoDeployment env secretKeys ⟨project, some dep, host⟩
    (hostEnv env ≠ [] ∧ ¬ (updated.1 = [] ∧ updated.2 = []) ∧ ∃ token, encryptSecrets env.key secretsMap = .ok token ∧
        o = ⟨⟨project, some { dep with
          variablesJson := dep.variablesJson.update updated.2
          secretsEncrypted := token
          filesJson := filesForDbStorage (mergeSecretsIntoEnvFiles dep.filesJson secretsMap) secretsMap }, host⟩, .ok ()⟩) ∨
      ((hostEnv env = [] ∨ (updated.1 = [] ∧ updated.2 = []) ∨ ¬ (secretsMap = [] ∨ env.key ≠ none)) ∧
        o.stack = ⟨project, some dep, host⟩ ∧ o.result.isOk = false) := by
  intro updated secretsMap o
  have ho : o = migrateHostEnvIntoDeployment env secretKeys ⟨project, some dep, host⟩ := rfl
  unfold migrateHostEnvIntoDeployment at ho
  cases hlive : env.live with
  | none =>
    rw [hlive] at ho
    rw [ho]
    exact Or.inr ⟨Or.inl (by rw [hostEnv, hlive]; rfl), rfl, rfl⟩
  | some live =>
    have henv : parseEnvFile (envText live) = hostEnv env := by rw [hostEnv, hlive, Option.getD_some]
    have hupdated : imported (secretNamesForDeployment env.catalog dep (decryptDeploymentSecrets env.key dep)) dep.variablesJson
        (decryptDeploymentSecrets env.key dep) (hostEnv env)
        (migrateTargets (secretNamesForDeployment env.catalog dep (decryptDeploymentSecrets env.key dep)) (hostEnv env) secretKeys) =
          updated := rfl
    rw [hlive] at ho
    dsimp only at ho
    rw [henv, hupdated] at ho
    by_cases hnil : hostEnv env = []
    · rw [if_pos hnil] at ho
      rw [ho]
      exact Or.inr ⟨Or.inl hnil, rfl, rfl⟩
    · rw [if_neg hnil] at ho
      by_cases hnothing : updated.1 = [] ∧ updated.2 = []
      · rw [if_pos hnothing] at ho
        rw [ho]
        exact Or.inr ⟨Or.inr (Or.inl hnothing), rfl, rfl⟩
      · rw [if_neg hnothing] at ho
        rw [show (decryptDeploymentSecrets env.key dep).update updated.1 = secretsMap from rfl] at ho
        cases hencrypt : encryptSecrets env.key secretsMap with
        | error e =>
          rw [hencrypt] at ho
          rw [ho]
          refine Or.inr ⟨Or.inr (Or.inr fun h => ?_), rfl, rfl⟩
          obtain ⟨token, htoken⟩ := encryptSecrets_isOk.2 h
          rw [htoken] at hencrypt
          cases hencrypt
        | ok token =>
          rw [hencrypt] at ho
          exact Or.inl ⟨hnil, hnothing, token, rfl, ho⟩

end
end PiHerder.Stacks
