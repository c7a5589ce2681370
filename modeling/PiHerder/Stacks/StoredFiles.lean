import PiHerder.Lib.Runs
import PiHerder.Stacks.Scrubbing
import PiHerder.Stacks.SecretsKept

/-!
# The stored files over every run

Each save but one passes through `filesForDbStorage`: without a template, `redeploy_desired_state` (`deploy.py` 537–546) stores
the files as it wrote them, with every secret in its `.env`. `stored_files_clean` is about the runs that do not come there;
`secret_stored_without_template` shows one that does.
-/
namespace PiHerder.Stacks
open Lib Lib.Str

section
variable {K : Type}

/-- The stored files have none of the secrets that the row holds. -/
def CleanStack (stack : Stack K) : Prop := ∀ dep, stack.deployment = some dep → Clean dep.held dep.filesJson

theorem cleanStack_some {project : Str} {dep : StackDeployment K} {host : Dict Str Str} (h : Clean dep.held dep.filesJson) :
    CleanStack ⟨project, some dep, host⟩ := by
  intro dep' hdep'
  obtain rfl := Option.some.inj hdep'
  exact h

end

section
variable {K : Type} [DecidableEq K]

def callStep (stack : Stack K) (e : Surroundings K × Call) : Stack K := (e.2.run e.1 stack).stack

/-! ## What a call is about to save -/

/-- The secrets, where it comes to a save. -/
def Call.secretsToSave (env : Surroundings K) (stack : Stack K) : Call → Option (Dict Str Str)
  | apply slug templateId values autoGenerate => (renderForHost env slug templateId values autoGenerate).toOption.map Rendered.secretsMap
  | redeploy updatedPublic updatedSecrets _ =>
    stack.deployment.map fun dep => (planned env stack.project dep updatedPublic.items updatedSecrets.items).secretsMap
  | applyLastKnown _ => stack.deployment.map fun dep => (planned env stack.project dep [] []).secretsMap
  | adopt => stack.deployment.map (refreshed env)
  | migrate secretKeys => stack.deployment.map fun dep => (decryptDeploymentSecrets env.key dep).update (importedSecrets env dep secretKeys).1

/-- A redeploy has a template to save under, or no value to save. -/
def SavesUnder (env : Surroundings K) (secretsMap : Dict Str Str) (dep : StackDeployment K) : Prop :=
  (savedUnder env.catalog dep).isSome ∨ ∀ e ∈ secretsMap, e.2 = []

/-- The save scrubs by the secrets that the row holds from then on. -/
def Call.ScrubsByHeld (env : Surroundings K) (stack : Stack K) : Call → Prop
  | apply .. | migrate _ => True
  | redeploy updatedPublic updatedSecrets _ => ∀ dep, stack.deployment = some dep →
      SavesUnder env (planned env stack.project dep updatedPublic.items updatedSecrets.items).secretsMap dep
  | applyLastKnown _ => ∀ dep, stack.deployment = some dep → SavesUnder env (planned env stack.project dep [] []).secretsMap dep
  | adopt => ∀ dep, stack.deployment = some dep → Opens env dep ∨ refreshed env dep ≠ []

def Scrubs (stack : Stack K) (e : Surroundings K × Call) : Prop :=
  (∀ secrets, e.2.secretsToSave e.1 stack = some secrets → Scrubbable secrets) ∧ e.2.ScrubsByHeld e.1 stack

/-! ## One call -/

theorem clean_of_empty {secrets : Dict Str Str} (h : ∀ e ∈ secrets, e.2 = []) (files : Dict Str Str) : Clean secrets files := by
  intro k v hv
  obtain rfl := h _ (Dict.mem_of_get? hv)
  exact ⟨fun hne => absurd rfl hne, fun hlen => absurd hlen (by decide)⟩

/-- With no secrets refreshed, an opened token has none. -/
theorem held_nil_of_refreshed {env : Surroundings K} {dep : StackDeployment K} (hopens : Opens env dep) (h : refreshed env dep = []) :
    dep.held = [] := by
  refine Dict.eq_nil_of_get?_none fun k => ?_
  cases hv : dep.held.get? k with
  | none => rfl
  | some v =>
    obtain ⟨w, hw, -⟩ := refreshed_of_opens hopens hv
    rw [h] at hw
    cases hw

theorem redeploy_clean {env : Surroundings K} {stack : Stack K} {updatedPublic updatedSecrets : Dict Str Str} {deployNow : Bool}
    (hclean : CleanStack stack)
    (hsecrets : ∀ dep, stack.deployment = some dep → Scrubbable (planned env stack.project dep updatedPublic updatedSecrets).secretsMap)
    (hunder : ∀ dep, stack.deployment = some dep → SavesUnder env (planned env stack.project dep updatedPublic updatedSecrets).secretsMap dep) :
    CleanStack (redeployDesiredState env updatedPublic updatedSecrets deployNow stack).stack := by
  obtain ⟨project, deployment, host⟩ := stack
  cases deployment with
  | none => exact hclean
  | some dep =>
    rcases redeploy_cases env project dep host updatedPublic updatedSecrets deployNow with ⟨-, dep', hsave, hheld, ho⟩ | ⟨-, -, hdep, -⟩
    · rw [ho]
      refine cleanStack_some ?_
      have hscrub := hsecrets dep rfl
      unfold saveRedeployed at hsave
      split at hsave
      · obtain ⟨token, -, -, -, -, hfiles, -⟩ := saveDesiredState_ok hsave
        rw [hheld, hfiles]
        exact filesForDbStorage_clean hscrub _
      · rename_i hnone
        rcases hunder dep rfl with hsome | hempty
        · rw [hnone] at hsome
          cases hsome
        · rw [hheld]
          exact clean_of_empty hempty _
    · intro dep' hdep'
      exact hclean dep' (hdep.symm.trans hdep' ▸ rfl)

/-- **The step.** -/
theorem call_clean {stack : Stack K} {e : Surroundings K × Call} (hclean : CleanStack stack) (h : Scrubs stack e) :
    CleanStack (callStep stack e) := by
  obtain ⟨env, call⟩ := e
  obtain ⟨hsecrets, hheld⟩ := h
  cases call with
  | apply slug templateId values autoGenerate =>
    rcases apply_cases env slug templateId values autoGenerate stack with ⟨r, host, dep', hr, -, -, hsave, ho⟩ | ⟨-, hdep, -⟩
    · change CleanStack (applyTemplateToHost env slug templateId values autoGenerate stack).stack
      rw [ho]
      obtain ⟨token, -, -, hheld', -, hfiles, -⟩ := saveDesiredState_ok hsave
      refine cleanStack_some ?_
      rw [hheld', hfiles]
      exact filesForDbStorage_clean (hsecrets r.secretsMap (by simp only [Call.secretsToSave, hr]; rfl)) _
    · intro dep hsome
      exact hclean dep (hdep ▸ hsome)
  | redeploy updatedPublic updatedSecrets deployNow =>
    exact redeploy_clean hclean (fun dep hdep => hsecrets _ (by simp only [Call.secretsToSave, hdep]; rfl)) hheld
  | applyLastKnown deployNow =>
    exact redeploy_clean hclean (fun dep hdep => hsecrets _ (by simp only [Call.secretsToSave, hdep]; rfl)) hheld
  | adopt =>
    obtain ⟨project, deployment, host⟩ := stack
    cases deployment with
    | none => exact hclean
    | some dep =>
      change CleanStack (adoptHostFilesAsDesired env ⟨project, some dep, host⟩).stack
      rcases adopt_cases env project dep host with ⟨live, token, -, -, htoken, ho⟩ | ⟨-, hstack, -⟩
      · rw [ho]
        refine cleanStack_some ?_
        have hholds := held_encryptSecrets htoken
        cases token with
        | some token =>
          have hheld' : token.secrets = refreshed env dep := hholds
          change Clean token.secrets (filesForDbStorage live (refreshed env dep))
          rw [hheld']
          exact filesForDbStorage_clean (hsecrets (refreshed env dep) rfl) live
        | none =>
          -- The token stays. It was opened, and had nothing.
          have hnil : refreshed env dep = [] := hholds.symm
          have hopens := (hheld dep rfl).resolve_right (not_not.2 hnil)
          change Clean dep.held _
          rw [held_nil_of_refreshed hopens hnil]
          exact clean_of_empty (List.forall_mem_nil _) _
      · rw [hstack]
        exact hclean
  | migrate secretKeys =>
    obtain ⟨project, deployment, host⟩ := stack
    cases deployment with
    | none => exact hclean
    | some dep =>
      change CleanStack (migrateHostEnvIntoDeployment env secretKeys ⟨project, some dep, host⟩).stack
      rcases migrate_cases env project dep host secretKeys with ⟨-, -, token, htoken, ho⟩ | ⟨-, hstack, -⟩
      · rw [ho]
        refine cleanStack_some ?_
        rw [StackDeployment.held, held_encryptSecrets htoken]
        exact filesForDbStorage_clean (hsecrets _ rfl) _
      · rw [hstack]
        exact hclean

/-! ## Every run -/

/-- **No stored file has a secret.** In a run in which every save scrubs by the secrets that are held from then on, and these can
be scrubbed, the stored files are clean after each call. -/
theorem stored_files_clean (project : Str) (host : Dict Str Str) (es : List (Surroundings K × Call))
    (h : Guarded callStep Scrubs ⟨project, none, host⟩ es) :
    ∀ pre post, es = pre ++ post → CleanStack (runs callStep ⟨project, none, host⟩ pre) := by
  rintro pre post rfl
  exact runs_invariant (fun stack e hclean he => call_clean hclean he) pre ⟨project, none, host⟩ (fun dep hdep => nomatch hdep) h.of_append

end

/-! ## A shop -/

def shopTemplate : ServiceTemplate where
  id := 1
  slug := lit "shop"
  definition := some {
    slug := lit "shop"
    name := lit "Shop"
    vars := [{ name := lit "DB_PASSWORD", secret := true }]
    fileContents := [(lit "docker-compose.yml", lit "services: \x7b\x7d\n"), (envPath, lit "DB_PASSWORD=\x7b\x7bDB_PASSWORD\x7d\x7d\n")] }

/-- A template is applied. -/
def shopApplied : Surroundings Nat × Call :=
  ({ catalog := [shopTemplate], key := some 0 }, .apply (some (lit "shop")) none [(lit "DB_PASSWORD", lit "hunter22")] false)

/-- Its last known configuration is applied after the template was deleted. -/
def shopReapplied : Surroundings Nat × Call := ({ catalog := [], key := some 0 }, .applyLastKnown false)

theorem shop_applied_clean : CleanStack (runs callStep ⟨lit "shop", none, []⟩ [shopApplied]) := by
  refine stored_files_clean (lit "shop") [] [shopApplied] ⟨⟨fun secrets hsecrets => ?_, trivial⟩, trivial⟩ [shopApplied] [] rfl
  have hsave : shopApplied.2.secretsToSave shopApplied.1 ⟨lit "shop", none, []⟩ = some [(lit "DB_PASSWORD", lit "hunter22")] := by
    decide +kernel
  obtain rfl := Option.some.inj (hsave.symm.trans hsecrets)
  exact ⟨by decide +kernel, by decide +kernel⟩

/-- The password is in the stored `.env` then. -/
theorem secret_stored_without_template : ¬ CleanStack (runs callStep ⟨lit "shop", none, []⟩ [shopApplied, shopReapplied]) := by
  intro h
  have hstored : ((runs callStep ⟨lit "shop", none, []⟩ [shopApplied, shopReapplied]).deployment.map fun dep =>
      (dep.held.get? (lit "DB_PASSWORD"), (parseEnvFile (envText dep.filesJson)).get? (lit "DB_PASSWORD"))) =
        some (some (lit "hunter22"), some (lit "hunter22")) := by
    decide +kernel
  obtain ⟨dep, hdep, hboth⟩ := Option.map_eq_some_iff.1 hstored
  obtain ⟨hheld, hread⟩ := Prod.mk.inj hboth
  exact (h dep hdep _ _ hheld).1 (by decide) hread

end PiHerder.Stacks
