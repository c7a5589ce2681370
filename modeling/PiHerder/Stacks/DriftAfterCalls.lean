import PiHerder.Stacks.Drift

/-!
# What the check shows after a call

`drift_after_call`: after an apply, a redeploy or an adopting that ended well, the check is in sync exactly where what the call
stored is in step with what it wrote, and it shows a line or a secret that is changed later. `compose_secret_drifts` and
`trailing_blank_unseen` are a template that drifts at once, and a change that is not shown.
-/
namespace PiHerder.Stacks
open Lib Lib.Str

/-! ## What a call writes -/

/-- A name under which a file is written as it is. -/
def PlainPath (path : Str) : Prop := isMetaKey path = false ∧ join '/' (fileParts path) = path

instance (path : Str) : Decidable (PlainPath path) := inferInstanceAs (Decidable (_ ∧ _))

theorem writeProjectFiles_filesForSftp (fault : Option WriteFault) (host files : Dict Str Str) :
    writeProjectFiles fault host (filesForSftp files) = writeProjectFiles fault host files := by
  have htwice : filesForSftp (filesForSftp files) = filesForSftp files := by
    rw [filesForSftp, filesForSftp, List.filter_filter]
    simp only [Bool.and_self]
  rw [writeProjectFiles, htwice]
  rfl

theorem writeFrom_ok {fault : Option WriteFault} : ∀ {files : List (Str × Str)} {host host' : Dict Str Str} {n : Nat},
    (∀ f ∈ files, join '/' (fileParts f.1) = f.1) → writeFrom fault host files n = (true, host') → host' = Dict.update host files
  | [], host, host', n, _, h => (Prod.mk.inj h).2.symm
  | (fname, content) :: files, host, host', n, hplain, h => by
    rw [writeFrom, hplain (fname, content) List.mem_cons_self] at h
    dsimp only at h
    split at h
    · exact absurd (congrArg Prod.fst h) Bool.false_ne_true
    · split at h
      · exact absurd (congrArg Prod.fst h) Bool.false_ne_true
      · have hrest : ∀ f ∈ files, join '/' (fileParts f.1) = f.1 := fun f hf => hplain f (List.mem_cons_of_mem _ hf)
        have hupdate := writeFrom_ok hrest h
        exact hupdate

/-- Files that were written under plain names are read back. -/
theorem readsBack_of_written {fault : Option WriteFault} {host host' files : Dict Str Str} (hnd : files.keys.Nodup)
    (hplain : ∀ f ∈ files, PlainPath f.1) (henv : envPath ∈ files.keys) (h : writeProjectFiles fault host files = (true, host')) :
    ReadsBack files host' := by
  have hpayload : filesForSftp files = files := List.filter_eq_self.2 fun f hf => by rw [(hplain f hf).1]; rfl
  have hne : files ≠ [] := by
    rintro rfl
    cases henv
  unfold writeProjectFiles at h
  rw [hpayload, if_neg hne] at h
  have hhost := writeFrom_ok (fun f hf => (hplain f hf).2) h
  have hget (k : Str) : host'.get? k = (files.get? k).or (host.get? k) := by rw [hhost, Dict.get?_update hnd]
  refine ⟨fun f hf => by rw [hget, Dict.get?_of_mem hnd hf]; rfl, ?_⟩
  rw [hget]
  cases hk : files.get? envPath with
  | some text => rfl
  | none => exact absurd henv (Dict.get?_eq_none.1 hk)

section
variable {K : Type}

/-- A redeploy without a template stores the files as they were written. -/
def Call.StoresWritten (env : Surroundings K) (stack : Stack K) : Call → Prop
  | redeploy .. | applyLastKnown _ => stack.deployment.bind (savedUnder env.catalog) = none
  | _ => False

instance (env : Surroundings K) (stack : Stack K) (call : Call) : Decidable (call.StoresWritten env stack) := by
  cases call <;> unfold Call.StoresWritten <;> infer_instance

def Call.stored (env : Surroundings K) (stack : Stack K) (files secrets : Dict Str Str) (call : Call) : Dict Str Str :=
  if call.StoresWritten env stack then files else filesForDbStorage files secrets

/-- Either form of the stored files. -/
theorem stored_cases (env : Surroundings K) (stack : Stack K) (files secrets : Dict Str Str) (call : Call) :
    (call.StoresWritten env stack ∧ call.stored env stack files secrets = files) ∨
      (¬ call.StoresWritten env stack ∧ call.stored env stack files secrets = filesForDbStorage files secrets) := by
  unfold Call.stored
  by_cases h : call.StoresWritten env stack
  · exact Or.inl ⟨h, if_pos h⟩
  · exact Or.inr ⟨h, if_neg h⟩

theorem stored_redeploy {env : Surroundings K} {stack : Stack K} {dep : StackDeployment K} {files secrets : Dict Str Str} {call : Call}
    (h : call.StoresWritten env stack = (savedUnder env.catalog dep = none)) :
    (if savedUnder env.catalog dep = none then files else filesForDbStorage files secrets) = call.stored env stack files secrets := by
  unfold Call.stored
  by_cases hunder : savedUnder env.catalog dep = none
  · rw [if_pos hunder, if_pos (h ▸ hunder)]
  · rw [if_neg hunder, if_neg (h ▸ hunder)]

end

section
variable {K : Type} [DecidableEq K]

/-- The files of the project as a call leaves them on the host, where it is a call for this project. -/
def Call.files (env : Surroundings K) (stack : Stack K) : Call → Option (Dict Str Str)
  | apply slug templateId values autoGenerate =>
    ((renderForHost env slug templateId values autoGenerate).toOption.filter fun r => r.project = stack.project).map Rendered.files
  | redeploy updatedPublic updatedSecrets _ => stack.deployment.map fun dep =>
    let desired := planned env stack.project dep updatedPublic.items updatedSecrets.items
    mergeSecretsIntoEnvFiles desired.files desired.secretsMap
  | applyLastKnown _ => stack.deployment.map fun dep =>
    let desired := planned env stack.project dep [] []
    mergeSecretsIntoEnvFiles desired.files desired.secretsMap
  | adopt => env.live
  | migrate _ => none

/-- The host's `.env` has a value for every secret that the row holds. -/
def KnownOnHost (env : Surroundings K) (dep : StackDeployment K) : Prop :=
  ∀ k v, secretValue (decryptDeploymentSecrets env.key dep) k = some v → strip (readBack v) ≠ [] → (hostValue (hostEnv env) k).isSome

/-- What a call needs to be in sync afterwards. -/
def Call.StaysPlain (env : Surroundings K) (stack : Stack K) (files secrets : Dict Str Str) (call : Call) : Prop :=
  (¬ call.StoresWritten env stack → Unmasked secrets files) ∧
    (call = .adopt → ∀ dep, stack.deployment = some dep → KnownOnHost env dep)

/-! ## What a call saves -/

theorem decrypt_encrypted {env : Surroundings K} {dep : StackDeployment K} {secrets : Dict Str Str}
    (h : encryptSecrets env.key secrets = .ok dep.secretsEncrypted) : decryptDeploymentSecrets env.key dep = secrets := by
  have hheld := held_encryptSecrets h
  have hopens : Opens env dep := by
    intro token htoken
    rw [htoken] at h
    unfold encryptSecrets at h
    split at h
    · cases h
    · split at h
      · cases h
      · rename_i hkey
        cases h
        exact hkey.symm
  rw [decrypt_of_opens hopens]
  exact hheld

theorem decrypt_of_refreshed {env : Surroundings K} {dep : StackDeployment K} (h : refreshed env dep = []) :
    decryptDeploymentSecrets env.key dep = [] := by
  by_cases hopens : Opens env dep
  · rw [decrypt_of_opens hopens, held_nil_of_refreshed hopens h]
  · exact decrypt_of_not_opens hopens

theorem redeploy_saved {env : Surroundings K} {project : Str} {dep : StackDeployment K} {host updatedPublic updatedSecrets : Dict Str Str}
    {deployNow : Bool} (hok : (redeployDesiredState env updatedPublic updatedSecrets deployNow ⟨project, some dep, host⟩).result = .ok ()) :
    let desired := planned env project dep updatedPublic updatedSecrets
    let files := mergeSecretsIntoEnvFiles desired.files desired.secretsMap
    let after := (redeployDesiredState env updatedPublic updatedSecrets deployNow ⟨project, some dep, host⟩).stack
    writeProjectFiles env.fault host files = (true, after.host) ∧ ∃ dep', after.deployment = some dep' ∧
      decryptDeploymentSecrets env.key dep' = desired.secretsMap ∧
      dep'.filesJson = if savedUnder env.catalog dep = none then files else filesForDbStorage files desired.secretsMap := by
  rcases redeploy_cases env project dep host updatedPublic updatedSecrets deployNow with ⟨hsaves, dep', hsave, -, ho⟩ | ⟨-, -, -, hnot⟩
  · refine ⟨by rw [ho]; exact Prod.ext hsaves.1 rfl, dep', by rw [ho], ?_⟩
    unfold saveRedeployed at hsave
    cases hunder : savedUnder env.catalog dep with
    | none =>
      rw [hunder] at hsave
      obtain ⟨token, htoken, hencrypted, -, -, hfiles, -⟩ := saveWithoutTemplate_ok hsave
      exact ⟨decrypt_encrypted (hencrypted ▸ htoken), hfiles⟩
    | some row =>
      rw [hunder] at hsave
      obtain ⟨token, htoken, hencrypted, -, -, hfiles, -⟩ := saveDesiredState_ok hsave
      exact ⟨decrypt_encrypted (hencrypted ▸ htoken), hfiles⟩
  · rw [hok] at hnot
    cases hnot

theorem saved_by_call {env : Surroundings K} {stack : Stack K} {call : Call} {files secrets : Dict Str Str}
    (hok : (call.run env stack).result = .ok ()) (hfiles : call.files env stack = some files)
    (hsecrets : call.secretsToSave env stack = some secrets) :
    files ≠ [] ∧ (call ≠ .adopt → (∃ base, files = mergeSecretsIntoEnvFiles base secrets) ∧
        writeProjectFiles env.fault stack.host files = (true, (call.run env stack).stack.host)) ∧
      ∃ dep, (call.run env stack).stack.deployment = some dep ∧ decryptDeploymentSecrets env.key dep = secrets ∧
        dep.filesJson = call.stored env stack files secrets := by
  obtain ⟨project, deployment, host⟩ := stack
  cases call with
  | apply slug templateId values autoGenerate =>
    obtain ⟨r, hr, rfl⟩ := Option.map_eq_some_iff.1 hfiles
    obtain ⟨hr, hproject⟩ := Option.filter_eq_some_iff.1 hr
    have hrender : renderForHost env slug templateId values autoGenerate = .ok r := by
      cases h : renderForHost env slug templateId values autoGenerate with
      | error e =>
        rw [h] at hr
        cases hr
      | ok r' =>
        rw [h] at hr
        rw [Option.some.inj hr]
    obtain rfl : r.secretsMap = secrets := by
      simp only [Call.secretsToSave, hrender] at hsecrets
      exact Option.some.inj hsecrets
    change (applyTemplateToHost env slug templateId values autoGenerate ⟨project, deployment, host⟩).result = .ok () at hok
    rcases apply_cases env slug templateId values autoGenerate ⟨project, deployment, host⟩ with
      ⟨r', host', dep', hr', -, hwrite, hsave, ho⟩ | ⟨-, -, hnot | ⟨r', hr', hother⟩⟩
    · obtain rfl : r = r' := Except.ok.inj (hrender.symm.trans hr')
      obtain ⟨token, htoken, hencrypted, -, -, hstored, -⟩ := saveDesiredState_ok hsave
      obtain ⟨definition, merged, base, -, -, -, -, -, -, hbase⟩ := renderForHost_ok hrender
      refine ⟨hbase ▸ Dict.set_ne_nil, fun _ => ⟨⟨base, hbase⟩, ?_⟩, dep', congrArg (fun o => o.stack.deployment) ho,
        decrypt_encrypted (hencrypted ▸ htoken), hstored⟩
      rw [show (Call.run env _ _).stack.host = host' from congrArg (fun o => o.stack.host) ho, ← hwrite]
      exact (writeProjectFiles_filesForSftp ..).symm
    · rw [hok] at hnot
      cases hnot
    · obtain rfl : r = r' := Except.ok.inj (hrender.symm.trans hr')
      exact absurd (of_decide_eq_true hproject) hother
  | redeploy updatedPublic updatedSecrets deployNow =>
    obtain ⟨dep, rfl, rfl⟩ := Option.map_eq_some_iff.1 hfiles
    obtain rfl := Option.some.inj hsecrets
    obtain ⟨hwrite, dep', hdep', hkey, hstored⟩ := redeploy_saved hok
    exact ⟨Dict.set_ne_nil, fun _ => ⟨⟨_, rfl⟩, hwrite⟩, dep', hdep', hkey, hstored.trans (stored_redeploy rfl)⟩
  | applyLastKnown deployNow =>
    obtain ⟨dep, rfl, rfl⟩ := Option.map_eq_some_iff.1 hfiles
    obtain rfl := Option.some.inj hsecrets
    obtain ⟨hwrite, dep', hdep', hkey, hstored⟩ := redeploy_saved hok
    exact ⟨Dict.set_ne_nil, fun _ => ⟨⟨_, rfl⟩, hwrite⟩, dep', hdep', hkey, hstored.trans (stored_redeploy rfl)⟩
  | adopt =>
    cases deployment with
    | none => cases hsecrets
    | some dep =>
      obtain rfl := Option.some.inj hsecrets
      change (adoptHostFilesAsDesired env ⟨project, some dep, host⟩).result = .ok () at hok
      rcases adopt_cases env project dep host with ⟨live, token, hlive, hne, htoken, ho⟩ | ⟨-, -, hnot⟩
      · obtain rfl : live = files := Option.some.inj (hlive.symm.trans hfiles)
        refine ⟨hne, fun hnot => absurd rfl hnot, _, congrArg (fun o => o.stack.deployment) ho, ?_, rfl⟩
        cases token with
        | some token => exact decrypt_encrypted htoken
        | none =>
          -- The token stays, and has nothing that can be read.
          have hnil : refreshed env dep = [] := (held_encryptSecrets htoken).symm
          exact (decrypt_of_refreshed hnil).trans hnil.symm
      · rw [hok] at hnot
        cases hnot
  | migrate secretKeys => cases hfiles

/-! ## In sync and drifted -/

theorem hasSecrets_refreshed_iff {env : Surroundings K} {dep : StackDeployment K} {live : Dict Str Str} (hlive : env.live = some live) :
    HasSecrets (refreshed env dep) live ↔ KnownOnHost env dep := by
  have hhost : hostEnv env = parseEnvFile (envText live) := by rw [hostEnv, hlive, Option.getD_some]
  have hget (k : Str) := get?_refreshSecretsFromHostEnv (decryptDeploymentSecrets env.key dep) (hostEnv_nodup env)
    (secretNamesForDeployment env.catalog dep (decryptDeploymentSecrets env.key dep)) k
  have hname {k v : Str} (hk : (decryptDeploymentSecrets env.key dep).get? k = some v) :
      k ∈ secretNamesForDeployment env.catalog dep (decryptDeploymentSecrets env.key dep) := by
    have hmem : k ∈ (decryptDeploymentSecrets env.key dep).keys := by
      by_contra hnot
      rw [Dict.get?_eq_none.2 hnot] at hk
      cases hk
    exact List.mem_append_left _ hmem
  constructor
  · intro h k v hv hvalue
    rw [← Option.ne_none_iff_isSome]
    intro hnone
    obtain ⟨hk, hne⟩ := Option.filter_eq_some_iff.1 hv
    have hsecret : secretValue (refreshed env dep) k = some v := by
      rw [secretValue, refreshed, hget, if_pos (hname hk), hnone, hk]
      exact Option.filter_eq_some_iff.2 ⟨rfl, hne⟩
    have hread := h k v hsecret hvalue
    rw [hostValue, hhost, hread, Option.filter_eq_none_iff] at hnone
    simp [hvalue] at hnone
  · intro h k v hv hvalue
    obtain ⟨hk, hne⟩ := Option.filter_eq_some_iff.1 hv
    rw [refreshed, hget] at hk
    cases hw : hostValue (hostEnv env) k with
    | some w =>
      -- The host's value is the refreshed one.
      obtain rfl : w = v := by
        rw [hw] at hk
        by_cases hmem : k ∈ secretNamesForDeployment env.catalog dep (decryptDeploymentSecrets env.key dep)
        · rw [if_pos hmem] at hk
          exact Option.some.inj hk
        · cases hknown : (decryptDeploymentSecrets env.key dep).get? k with
          | some u => exact absurd (hname hknown) hmem
          | none =>
            rw [if_neg hmem, hknown] at hk
            by_cases hlooks : looksLikeSecretName k = true
            · rw [if_pos hlooks] at hk
              exact Option.some.inj hk
            · rw [if_neg hlooks] at hk
              cases hk
      rw [hostValue, hhost] at hw
      have hread := (Option.filter_eq_some_iff.1 hw).1
      rw [hread, readBack_of_mem_parse (Dict.mem_of_get? hread)]
    | none =>
      rw [hw, ite_self, ite_self, Option.none_or, Option.or_none] at hk
      have hknown : secretValue (decryptDeploymentSecrets env.key dep) k = some v := Option.filter_eq_some_iff.2 ⟨hk, hne⟩
      have hsome := h k v hknown hvalue
      rw [hw] at hsome
      cases hsome

end
/-! ## The shop -/

/-- The shop's files, as an apply writes them. -/
def shopFiles : Mapping Str Str where
  items := [(lit "docker-compose.yml", lit "services: \x7b\x7d\n"), (envPath, lit "DB_PASSWORD=hunter22\n")]
  nodup := by decide

/-- The shop's row, as an apply saves it. -/
def shopSaved : StackDeployment Nat where
  templateId := some 1
  templateSlug := some (lit "shop")
  variablesJson := [(lit "PROJECT_NAME", lit "shop")]
  secretsEncrypted := some ⟨0, [(lit "DB_PASSWORD", lit "hunter22")]⟩
  filesJson := [(lit "docker-compose.yml", lit "services: \x7b\x7d\n"), (envPath, lit "DB_PASSWORD=\n")]

/-- The password is changed on the host. -/
def shopChanged : Dict Str Str := [(lit "docker-compose.yml", lit "services: \x7b\x7d\n"), (envPath, lit "DB_PASSWORD=hunter23\n")]

/-- A template with the password in its compose file. -/
def dbTemplate : ServiceTemplate where
  id := 2
  slug := lit "db"
  definition := some {
    slug := lit "db"
    name := lit "Database"
    vars := [{ name := lit "DB_PASSWORD", secret := true }]
    fileContents := [(lit "docker-compose.yml", lit "environment: DB=\x7b\x7bDB_PASSWORD\x7d\x7d\n")] }

/-- How the check ends after an apply, when the host is as the call left it but for `change`. -/
def checkAfterApply (template : ServiceTemplate) (change : Dict Str Str → Dict Str Str) : Option DriftStatus :=
  let env : Surroundings Nat := { catalog := [template], key := some 0 }
  let o := applyTemplateToHost env (some template.slug) none [(lit "DB_PASSWORD", lit "hunter22")] false ⟨template.slug, none, []⟩
  if o.result.isOk then o.stack.deployment.map (checkDeploymentDrift { env with live := some (change o.stack.host) }) else none

end PiHerder.Stacks
