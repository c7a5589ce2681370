import PiHerder.Stacks.Storage

/-!
# Deployments of a stack

| here | there |
| --- | --- |
| `ServiceTemplate`, `getTemplateRow`, `getTemplateDefinition` | `service_templates/catalog.py` (227–250) |
| `validFileName`, `filesForSftp`, `writeProjectFiles` | `docker_versions.py` (58–72, 245–297) |
| `saveDesiredState`, `decryptDeploymentSecrets`, `applyTemplateToHost`, `redeployDesiredState`, `checkDeploymentDrift` | `service_templates/deploy.py` |
| `secretNamesForDeployment`, `refreshSecretsFromHostEnv`, `adoptHostFilesAsDesired`, `migrateHostEnvIntoDeployment` | `service_templates/host_sync.py` |

One stack of one host: its row and the files of its folder. What a call meets is its `Surroundings`: the catalog as it is by
then, the key of the encryption, what can be read of the folder, and where writing fails. A Fernet token is opened by the key
it was made with and by no other.
-/
namespace PiHerder.Stacks
open Lib Lib.Str

/-! ## The catalog -/

structure ServiceTemplate where
  id : Nat
  slug : Str
  enabled : Bool := true
  /-- `none` where `definition_json` is missing or does not parse. -/
  definition : Option TemplateDefinition
deriving DecidableEq, Repr

abbrev Catalog := List ServiceTemplate

def Catalog.byId (catalog : Catalog) (id : Nat) : Option ServiceTemplate := catalog.find? fun t => t.id = id
def Catalog.bySlug (catalog : Catalog) (slug : Str) : Option ServiceTemplate := catalog.find? fun t => t.slug = slug

def getTemplateRow (catalog : Catalog) (slug : Option Str) (templateId : Option Nat) : Option ServiceTemplate :=
  match templateId, slug with
  | some id, _ => catalog.byId id
  | none, some slug => if slug = [] then none else catalog.bySlug slug
  | none, none => none

def getTemplateDefinition (catalog : Catalog) (slug : Option Str) (templateId : Option Nat) : Except TemplateError TemplateDefinition :=
  match getTemplateRow catalog slug templateId with
  | none => .error .notFound
  | some row =>
    if !row.enabled then .error .disabled
    else match row.definition with
      | none => .error .noDefinition
      | some definition => .ok definition

/-! ## Rows -/

structure Sealed (K : Type) where
  key : K
  secrets : Dict Str Str
deriving DecidableEq, Repr

inductive DriftStatus
  | unknown | inSync | drifted
deriving DecidableEq, Repr

structure StackDeployment (K : Type) where
  templateId : Option Nat
  templateSlug : Option Str
  configVersion : Nat := 1
  variablesJson : Dict Str Str := []
  secretsEncrypted : Option (Sealed K) := none
  filesJson : Dict Str Str := []
  driftStatus : DriftStatus := .unknown
deriving DecidableEq, Repr

/-- Writing stops at a file, which may be gone by then. -/
structure WriteFault where
  after : Nat
  removed : Bool
deriving DecidableEq, Repr

structure Surroundings (K : Type) where
  catalog : Catalog
  /-- `none` where the master key is missing or is not a key. -/
  key : Option K
  containerPatchEnabled : Bool := true
  /-- What `get_project_live_files` reads, or that it raises. -/
  live : Option (Dict Str Str) := none
  fault : Option WriteFault := none
  /-- `redeploy_project` raises. -/
  composeFails : Bool := false
  /-- `generate_secret` for a variable. -/
  fresh : Str → Str := fun _ => []

structure Stack (K : Type) where
  project : Str
  deployment : Option (StackDeployment K)
  host : Dict Str Str

/-- The stack after a call, and how the call ended. -/
structure Outcome (K : Type) where
  stack : Stack K
  result : Except TemplateError Unit

section
variable {K : Type} [DecidableEq K]

/-- `decrypt_deployment_secrets`: an error is logged, and there are no secrets. -/
def decryptDeploymentSecrets (key : Option K) (dep : StackDeployment K) : Dict Str Str :=
  match dep.secretsEncrypted with
  | none => []
  | some token => if some token.key = key then token.secrets else []

/-- `encrypt_str(json.dumps(secrets_map)) if secrets_map else None`. -/
def encryptSecrets (key : Option K) (secretsMap : Dict Str Str) : Except TemplateError (Option (Sealed K)) :=
  if secretsMap = [] then .ok none
  else match key with
    | none => .error .encryption
    | some k => .ok (some ⟨k, secretsMap⟩)

/-! ## The host -/

def filesForSftp (files : Dict Str Str) : Dict Str Str := files.filter fun f => !isMetaKey f.1

def fileParts (fname : Str) : List Str := (split '/' fname).filter (· ≠ [])

/-- One folder deep at most. -/
def validFileName (fname : Str) : Bool :=
  !fname.contains '\\' && fileParts fname != [] && (fileParts fname).all (fun p => p != lit "." && p != lit "..") &&
    decide ((fileParts fname).length ≤ 2)

/-- Whether all were written, and the folder. -/
def writeFrom (fault : Option WriteFault) : Dict Str Str → List (Str × Str) → Nat → Bool × Dict Str Str
  | host, [], _ => (true, host)
  | host, (fname, content) :: rest, n =>
    let place := join '/' (fileParts fname)
    if !validFileName fname then (false, host)
    else if fault.any (·.after = n) then (false, if fault.any (·.removed) then host.del place else host)
    else writeFrom fault (host.set place content) rest (n + 1)

def writeProjectFiles (fault : Option WriteFault) (host files : Dict Str Str) : Bool × Dict Str Str :=
  let payload := filesForSftp files
  if payload = [] then (false, host) else writeFrom fault host payload 0

/-! ## Applying and redeploying -/

def saveDesiredState (key : Option K) (existing : Option (StackDeployment K)) (template : ServiceTemplate) (publicVars secretsMap files : Dict Str Str) :
    Except TemplateError (StackDeployment K) := do
  let secretsEncrypted ← encryptSecrets key secretsMap
  .ok { templateId := some template.id
        templateSlug := some template.slug
        configVersion := (existing.map fun dep => dep.configVersion + 1).getD 1
        variablesJson := publicVars
        secretsEncrypted
        filesJson := filesForDbStorage files secretsMap
        driftStatus := .unknown }

/-- What an apply writes, for which project. -/
structure Rendered where
  template : ServiceTemplate
  project : Str
  publicVars : Dict Str Str
  secretsMap : Dict Str Str
  files : Dict Str Str

/-- The project a template's values name. -/
def projectOf (definition : TemplateDefinition) (values : Dict Str Str) : Except TemplateError Str :=
  let given := (values.get? projectNameKey).getD []
  validateProjectName (if given ≠ [] then given else ((definition.varMap projectNameKey).map TemplateVar.default).getD definition.slug)

def renderForHost (env : Surroundings K) (slug : Option Str) (templateId : Option Nat) (values : Dict Str Str) (autoGenerate : Bool) :
    Except TemplateError Rendered := do
  if !env.containerPatchEnabled then .error .dockerDisabled
  else
    let definition ← getTemplateDefinition env.catalog slug templateId
    match getTemplateRow env.catalog (some ((slug.filter (· ≠ [])).getD definition.slug)) templateId with
    | none => .error .notFound
    | some row =>
      let merged ← mergeVariableValues definition values autoGenerate env.fresh
      let project ← projectOf definition merged.values
      let merged := { merged with values := merged.values.set projectNameKey project }
      let files ← renderTemplateFiles definition merged
      let (publicVars, secretsMap) := splitSecrets definition merged.values
      .ok ⟨row, project, publicVars, secretsMap, mergeSecretsIntoEnvFiles files secretsMap⟩

/-- Another project's call leaves this stack as it is. -/
def applyTemplateToHost (env : Surroundings K) (slug : Option Str) (templateId : Option Nat) (values : Dict Str Str) (autoGenerate : Bool)
    (stack : Stack K) : Outcome K :=
  match renderForHost env slug templateId values autoGenerate with
  | .error e => ⟨stack, .error e⟩
  | .ok r =>
    if r.project ≠ stack.project then ⟨stack, .ok ()⟩
    else
      let (written, host) := writeProjectFiles env.fault stack.host (filesForSftp r.files)
      if !written then ⟨{ stack with host }, .error .hostFiles⟩
      else match saveDesiredState env.key stack.deployment r.template r.publicVars r.secretsMap r.files with
        | .error e => ⟨{ stack with host }, .error e⟩
        | .ok dep => ⟨{ stack with host, deployment := some dep }, .ok ()⟩

/-- What a redeploy writes and saves. -/
structure Desired where
  publicVars : Dict Str Str
  secretsMap : Dict Str Str
  files : Dict Str Str

/-- From the template, where it is there and takes the values. -/
def rerender (env : Surroundings K) (project slug : Str) (publicVars secretsMap : Dict Str Str) : Except TemplateError Desired := do
  let definition ← getTemplateDefinition env.catalog (some slug) none
  let values := ((publicVars.update secretsMap).set projectNameKey project)
  let merged ← mergeVariableValues definition values false env.fresh
  let merged := { merged with values := merged.values.set projectNameKey project }
  let files ← renderTemplateFiles definition merged
  let (publicVars, secretsMap) := splitSecrets definition merged.values
  .ok ⟨publicVars, secretsMap, files⟩

/-- A line of the stored `.env` with the value of its key. -/
def patchLine (publicVars secretsMap : Dict Str Str) (line : Str) : Str :=
  if line.contains '=' && (strip line).head? != some '#' then
    match secretsMap.get? (lineKey line), publicVars.get? (lineKey line) with
    | some v, _ | none, some v => lineKey line ++ '=' :: v
    | none, none => line
  else line

/-- The stored files, when they are not rendered again. -/
def patchStored (publicVars secretsMap files : Dict Str Str) : Dict Str Str :=
  match files.get? envPath with
  | some text =>
    if secretsMap = [] then files
    else files.set envPath ((splitlines text).flatMap fun line => patchLine publicVars secretsMap line ++ ['\n'])
  | none => files

def desiredOf (env : Surroundings K) (project : Str) (dep : StackDeployment K) (publicVars secretsMap : Dict Str Str) : Desired :=
  match dep.templateSlug.filter (· ≠ []) with
  | none => ⟨publicVars, secretsMap, dep.filesJson⟩
  | some slug =>
    match rerender env project slug publicVars secretsMap with
    | .ok desired => desired
    | .error _ => ⟨publicVars, secretsMap, patchStored publicVars secretsMap dep.filesJson⟩

/-- The row it is saved under, with a definition that can be used. -/
def savedUnder (catalog : Catalog) (dep : StackDeployment K) : Option ServiceTemplate :=
  let row := (dep.templateId.bind catalog.byId).or (getTemplateRow catalog dep.templateSlug none)
  row.filter fun row => (getTemplateDefinition catalog none (some row.id)).isOk

/-- Without a template, the files are saved as they were written. -/
def saveWithoutTemplate (key : Option K) (dep : StackDeployment K) (desired : Desired) (files : Dict Str Str) :
    Except TemplateError (StackDeployment K) := do
  let secretsEncrypted ← encryptSecrets key desired.secretsMap
  .ok { dep with
    configVersion := dep.configVersion + 1
    variablesJson := desired.publicVars
    secretsEncrypted
    filesJson := files
    driftStatus := .unknown }

def saveRedeployed (env : Surroundings K) (dep : StackDeployment K) (desired : Desired) (files : Dict Str Str) :
    Except TemplateError (StackDeployment K) :=
  match savedUnder env.catalog dep with
  | some row => saveDesiredState env.key (some dep) row desired.publicVars desired.secretsMap files
  | none => saveWithoutTemplate env.key dep desired files

def redeployDesiredState (env : Surroundings K) (updatedPublic updatedSecrets : Dict Str Str) (deployNow : Bool) (stack : Stack K) : Outcome K :=
  match stack.deployment with
  | none => ⟨stack, .error .notFound⟩
  | some dep =>
    let publicVars := dep.variablesJson.update updatedPublic
    let secretsMap := (decryptDeploymentSecrets env.key dep).update (updatedSecrets.filter (·.2 ≠ []))
    let desired := desiredOf env stack.project dep publicVars secretsMap
    let files := mergeSecretsIntoEnvFiles desired.files desired.secretsMap
    let (written, host) := writeProjectFiles env.fault stack.host files
    if !written then ⟨{ stack with host }, .error .hostFiles⟩
    else if deployNow && env.composeFails then ⟨{ stack with host }, .error .composeUp⟩
    else match saveRedeployed env dep desired files with
      | .error e => ⟨{ stack with host }, .error e⟩
      | .ok dep => ⟨{ stack with host, deployment := some dep }, .ok ()⟩

def applyLastKnownConfig (env : Surroundings K) (deployNow : Bool) (stack : Stack K) : Outcome K := redeployDesiredState env [] [] deployNow stack

/-! ## From the host -/

/-- The known ones, and the template's. -/
def secretNamesForDeployment (catalog : Catalog) (dep : StackDeployment K) (knownSecrets : Dict Str Str) : List Str :=
  knownSecrets.keys ++ match dep.templateSlug.filter (· ≠ []) with
    | none => []
    | some slug => match getTemplateDefinition catalog (some slug) none with
      | .error _ => []
      | .ok definition => (definition.vars.filter fun v => v.secret || v.type = .password).map TemplateVar.name

/-- A known key takes the host's value, where that is not blank. -/
def takeKnown (hostEnv out : Dict Str Str) (k : Str) : Dict Str Str :=
  match hostEnv.get? k with
  | some v => if strip v = [] then out else out.set k v
  | none => out

/-- Another key of the host is taken where it looks like a secret's. -/
def takeOther (out : Dict Str Str) (e : Str × Str) : Dict Str Str :=
  if e.1 ∉ out.keys ∧ looksLikeSecretName e.1 ∧ strip e.2 ≠ [] then out.set e.1 e.2 else out

def refreshSecretsFromHostEnv (secretsMap hostEnv : Dict Str Str) (secretNameSet : List Str) : Dict Str Str :=
  hostEnv.foldl takeOther (secretNameSet.foldl (takeKnown hostEnv) secretsMap)

def adoptHostFilesAsDesired (env : Surroundings K) (stack : Stack K) : Outcome K :=
  match stack.deployment, env.live with
  | none, _ => ⟨stack, .error .notFound⟩
  | some _, none => ⟨stack, .error .noHostFiles⟩
  | some dep, some live =>
    if live = [] then ⟨stack, .error .noHostFiles⟩
    else
      let known := decryptDeploymentSecrets env.key dep
      let hostEnv := parseEnvFile (envText live)
      let secretsMap := refreshSecretsFromHostEnv known hostEnv (secretNamesForDeployment env.catalog dep known)
      match encryptSecrets env.key secretsMap with
      | .error e => ⟨stack, .error e⟩
      | .ok token =>
        ⟨{ stack with deployment := some { dep with
          configVersion := dep.configVersion + 1
          filesJson := filesForDbStorage live secretsMap
          secretsEncrypted := token.or dep.secretsEncrypted
          driftStatus := .inSync } }, .ok ()⟩

/-- A key of the host is taken for a secret or for a public value, or it is skipped. -/
def importKey (secretNameSet : List Str) (publicVars secretsMap hostEnv : Dict Str Str) (acc : Dict Str Str × Dict Str Str) (k : Str) :
    Dict Str Str × Dict Str Str :=
  match hostEnv.get? k with
  | none => acc
  | some v =>
    if k ∈ secretNameSet ∨ (k ∉ publicVars.keys ∧ k ∈ secretsMap.keys) ∨ looksLikeSecretName k then (acc.1.set k v, acc.2)
    else if k ∈ publicVars.keys ∨ k = projectNameKey then (acc.1, acc.2.set k v)
    else acc

def imported (secretNameSet : List Str) (publicVars secretsMap hostEnv : Dict Str Str) (targets : List Str) : Dict Str Str × Dict Str Str :=
  targets.foldl (importKey secretNameSet publicVars secretsMap hostEnv) ([], [])

/-- The keys that are asked for, the secret names, or every key of the host. -/
def migrateTargets (secretNameSet : List Str) (hostEnv : Dict Str Str) (secretKeys : Option (List Str)) : List Str :=
  match secretKeys with
  | some keys => keys.filter (· ≠ [])
  | none => if secretNameSet = [] then hostEnv.keys else secretNameSet

def migrateHostEnvIntoDeployment (env : Surroundings K) (secretKeys : Option (List Str)) (stack : Stack K) : Outcome K :=
  match stack.deployment, env.live with
  | none, _ => ⟨stack, .error .notFound⟩
  | some _, none => ⟨stack, .error .noHostFiles⟩
  | some dep, some live =>
    let hostEnv := parseEnvFile (envText live)
    if hostEnv = [] then ⟨stack, .error .noHostEnv⟩
    else
      let known := decryptDeploymentSecrets env.key dep
      let secretNameSet := secretNamesForDeployment env.catalog dep known
      let updated := imported secretNameSet dep.variablesJson known hostEnv (migrateTargets secretNameSet hostEnv secretKeys)
      if updated.1 = [] ∧ updated.2 = [] then ⟨stack, .error .nothingToImport⟩
      else
        let secretsMap := known.update updated.1
        match encryptSecrets env.key secretsMap with
        | .error e => ⟨stack, .error e⟩
        | .ok token =>
          let files := mergeSecretsIntoEnvFiles dep.filesJson secretsMap
          ⟨{ stack with deployment := some { dep with
            variablesJson := dep.variablesJson.update updated.2
            secretsEncrypted := token
            filesJson := filesForDbStorage files secretsMap } }, .ok ()⟩

/-! ## Calls -/

inductive Call
  | apply (slug : Option Str) (templateId : Option Nat) (values : Dict Str Str) (autoGenerate : Bool)
  | redeploy (updatedPublic updatedSecrets : Mapping Str Str) (deployNow : Bool)
  | applyLastKnown (deployNow : Bool)
  | adopt
  | migrate (secretKeys : Option (List Str))

def Call.run (env : Surroundings K) (stack : Stack K) : Call → Outcome K
  | apply slug templateId values autoGenerate => applyTemplateToHost env slug templateId values autoGenerate stack
  | redeploy updatedPublic updatedSecrets deployNow => redeployDesiredState env updatedPublic.items updatedSecrets.items deployNow stack
  | applyLastKnown deployNow => applyLastKnownConfig env deployNow stack
  | adopt => adoptHostFilesAsDesired env stack
  | migrate secretKeys => migrateHostEnvIntoDeployment env secretKeys stack

/-! ## Drift -/

/-- Whether a desired file differs from the host's. -/
def fileDiffers (live : Dict Str Str) (path want : Str) : Bool :=
  if startsWith (lit "secrets/") path then false
  else if path = envPath then (diffEnvDesiredVsHost want (live.get? envPath)).isSome
  else
    let alternate := if path ∈ composeBasenames then (primaryComposeKey live).bind (live.get? ·) else none
    match (live.get? path).or alternate with
    | none => true
    | some text => normalizeComposeText want != normalizeComposeText text

def checkDeploymentDrift (env : Surroundings K) (dep : StackDeployment K) : DriftStatus :=
  let desired := mergeSecretsIntoEnvFiles dep.filesJson (decryptDeploymentSecrets env.key dep)
  match env.live with
  | none => .unknown
  | some live => if live = [] ∨ desired.any fun f => fileDiffers live f.1 f.2 then .drifted else .inSync

end
end PiHerder.Stacks
