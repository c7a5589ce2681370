import PiHerder.Stacks.Steps

/-!
# Which secrets a call keeps

A token that cannot be opened reads as no secrets at all, and every call takes that for a stack without any. `held` is what
the token contains, whoever can open it. `redeploy_keeps_iff`, `adopt_keeps_iff` and `migrate_keeps_iff` say when each of it
is still held after a call, with its value or one that the call was given for it.
-/
namespace PiHerder.Stacks
open Lib Lib.Str

/-! ## Keys -/

theorem get?_splitSecrets (definition : TemplateDefinition) (values : Dict Str Str) (k : Str) :
    (splitSecrets definition values).2.get? k =
      if k ∈ definition.secretVarNames ∧ startsWith (lit "__") k = false then values.get? k else none := by
  unfold splitSecrets
  dsimp only
  rw [Dict.get?_filter_key fun k => decide (k ∈ definition.secretVarNames), Dict.get?_filter_key fun k => !startsWith (lit "__") k]
  by_cases hname : k ∈ definition.secretVarNames <;> by_cases hmeta : startsWith (lit "__") k = true <;> simp [hname, hmeta]

/-- A value of the host's that is not blank. -/
def hostValue (hostEnv : Dict Str Str) (k : Str) : Option Str := (hostEnv.get? k).filter fun v => strip v ≠ []

theorem get?_takeKnown (hostEnv out : Dict Str Str) (name k : Str) :
    (takeKnown hostEnv out name).get? k = (if k = name then hostValue hostEnv k else none).or (out.get? k) := by
  unfold takeKnown hostValue
  by_cases hk : k = name
  · subst hk
    cases hv : hostEnv.get? k with
    | none => simp
    | some v => by_cases hblank : strip v = [] <;> simp [hblank, Option.filter, Dict.get?_set]
  · rw [if_neg hk, Option.none_or]
    split
    · split
      · rfl
      · rw [Dict.get?_set, if_neg hk]
    · rfl

theorem get?_takeOther (out : Dict Str Str) (e : Str × Str) (k : Str) :
    (takeOther out e).get? k =
      (out.get? k).or (if looksLikeSecretName k ∧ k = e.1 then (some e.2).filter fun v => strip v ≠ [] else none) := by
  unfold takeOther
  by_cases hk : k = e.1
  · subst hk
    by_cases hset : e.1 ∉ out.keys ∧ looksLikeSecretName e.1 ∧ strip e.2 ≠ []
    · rw [if_pos hset, Dict.get?_set, if_pos rfl, Dict.get?_eq_none.2 hset.1]
      simp [Option.filter, hset.2]
    · rw [if_neg hset]
      cases hout : out.get? e.1 with
      | some v => rfl
      | none =>
        by_cases hlooks : looksLikeSecretName e.1 = true
        · have hblank : strip e.2 = [] := by
            by_contra h
            exact hset ⟨Dict.get?_eq_none.1 hout, hlooks, h⟩
          simp [hlooks, hblank, Option.filter]
        · simp [hlooks]
  · have hother : ¬ (looksLikeSecretName k = true ∧ k = e.1) := fun h => hk h.2
    rw [if_neg hother, Option.or_none]
    split
    · rw [Dict.get?_set, if_neg hk]
    · rfl

theorem get?_foldl_takeOther (k : Str) : ∀ {items : Dict Str Str}, items.keys.Nodup → ∀ out : Dict Str Str,
    Dict.get? k (items.foldl takeOther out) = (out.get? k).or (if looksLikeSecretName k then hostValue items k else none)
  | [], _, out => by simp [hostValue, Dict.get?]
  | e :: items, hnd, out => by
    obtain ⟨he, hnd⟩ := List.nodup_cons.1 hnd
    rw [List.foldl_cons, get?_foldl_takeOther k hnd, get?_takeOther, Option.or_assoc]
    congr 1
    by_cases hk : k = e.1
    · have hrest : hostValue items k = none := by
        rw [hostValue, Dict.get?_eq_none.2 (hk ▸ he)]
        rfl
      have hhere : hostValue (e :: items) k = (some e.2).filter fun v => strip v ≠ [] := by rw [hostValue, Dict.get?, if_pos hk]
      rw [hrest, hhere, ite_self, Option.or_none]
      simp [hk]
    · have hhere : hostValue (e :: items) k = hostValue items k := by rw [hostValue, hostValue, Dict.get?, if_neg hk]
      rw [hhere, if_neg fun h => hk h.2, Option.none_or]

/-- The host's values of the names, the known secrets, and the host's values of other secret names. -/
theorem get?_refreshSecretsFromHostEnv (known : Dict Str Str) {hostEnv : Dict Str Str} (hhost : hostEnv.keys.Nodup) (names : List Str) (k : Str) :
    (refreshSecretsFromHostEnv known hostEnv names).get? k =
      (if k ∈ names then hostValue hostEnv k else none).or
        ((known.get? k).or (if looksLikeSecretName k then hostValue hostEnv k else none)) := by
  have hnames := Dict.get?_foldl_keys (takeKnown hostEnv) id (hostValue hostEnv) (get?_takeKnown hostEnv) k names known
  rw [refreshSecretsFromHostEnv, get?_foldl_takeOther k hhost, ← Option.or_assoc]
  congr 1
  by_cases hk : k ∈ names
  · rw [if_pos hk]
    exact hnames.1 hk
  · rw [if_neg hk]
    exact hnames.2 hk

/-- A key that a migration takes for a secret's. -/
def TakenAsSecret (names : List Str) (publicVars known : Dict Str Str) (k : Str) : Prop :=
  k ∈ names ∨ (k ∉ publicVars.keys ∧ k ∈ known.keys) ∨ looksLikeSecretName k

/-- One that it takes for a public value's. -/
def TakenAsPublic (names : List Str) (publicVars known : Dict Str Str) (k : Str) : Prop :=
  ¬ TakenAsSecret names publicVars known k ∧ (k ∈ publicVars.keys ∨ k = projectNameKey)

section
variable (names : List Str) (publicVars known : Dict Str Str)

instance (k : Str) : Decidable (TakenAsSecret names publicVars known k) := inferInstanceAs (Decidable (_ ∨ _))
instance (k : Str) : Decidable (TakenAsPublic names publicVars known k) := inferInstanceAs (Decidable (_ ∧ _))

theorem importKey_eq (host : Dict Str Str) (acc : Dict Str Str × Dict Str Str) (k : Str) :
    importKey names publicVars known host acc k = match host.get? k with
      | none => acc
      | some v =>
        if TakenAsSecret names publicVars known k then (acc.1.set k v, acc.2)
        else if TakenAsPublic names publicVars known k then (acc.1, acc.2.set k v)
        else acc := by
  unfold importKey
  cases host.get? k with
  | none => rfl
  | some v =>
    by_cases h : TakenAsSecret names publicVars known k
    · exact (if_pos h).trans (if_pos h).symm
    · refine (if_neg h).trans (Eq.trans ?_ (if_neg h).symm)
      by_cases hpub : k ∈ publicVars.keys ∨ k = projectNameKey
      · exact (if_pos hpub).trans (if_pos ⟨h, hpub⟩).symm
      · exact (if_neg hpub).trans (if_neg fun h => hpub h.2).symm

theorem get?_importKey (host : Dict Str Str) (acc : Dict Str Str × Dict Str Str) (name k : Str) :
    (importKey names publicVars known host acc name).1.get? k =
        (if k = name then if TakenAsSecret names publicVars known k then host.get? k else none else none).or (acc.1.get? k) ∧
      (importKey names publicVars known host acc name).2.get? k =
        (if k = name then if TakenAsPublic names publicVars known k then host.get? k else none else none).or (acc.2.get? k) := by
  rw [importKey_eq]
  by_cases hk : k = name
  · subst hk
    cases host.get? k with
    | none => simp
    | some v =>
      by_cases h : TakenAsSecret names publicVars known k
      · have hpub : ¬ TakenAsPublic names publicVars known k := fun hpub => hpub.1 h
        simp [h, hpub, Dict.get?_set]
      · by_cases hpub : TakenAsPublic names publicVars known k <;> simp [h, hpub, Dict.get?_set]
  · rw [if_neg hk, if_neg hk]
    split
    · exact ⟨rfl, rfl⟩
    · split
      · exact ⟨by rw [Dict.get?_set, if_neg hk]; rfl, rfl⟩
      · split
        · exact ⟨rfl, by rw [Dict.get?_set, if_neg hk]; rfl⟩
        · exact ⟨rfl, rfl⟩

theorem get?_imported_secrets (host : Dict Str Str) (targets : List Str) (k : Str) :
    (imported names publicVars known host targets).1.get? k =
      if k ∈ targets then if TakenAsSecret names publicVars known k then host.get? k else none else none := by
  have h := Dict.get?_foldl_keys (importKey names publicVars known host) Prod.fst _
    (fun acc name k => (get?_importKey names publicVars known host acc name k).1) k targets ([], [])
  by_cases hk : k ∈ targets
  · rw [if_pos hk]
    exact (h.1 hk).trans (by simp [Dict.get?])
  · rw [if_neg hk]
    exact h.2 hk

theorem get?_imported_public (host : Dict Str Str) (targets : List Str) (k : Str) :
    (imported names publicVars known host targets).2.get? k =
      if k ∈ targets then if TakenAsPublic names publicVars known k then host.get? k else none else none := by
  have h := Dict.get?_foldl_keys (importKey names publicVars known host) Prod.snd _
    (fun acc name k => (get?_importKey names publicVars known host acc name k).2) k targets ([], [])
  by_cases hk : k ∈ targets
  · rw [if_pos hk]
    exact (h.1 hk).trans (by simp [Dict.get?])
  · rw [if_neg hk]
    exact h.2 hk

theorem nodup_imported (host : Dict Str Str) (targets : List Str) : (imported names publicVars known host targets).1.keys.Nodup := by
  unfold imported
  refine List.foldlRecOn (motive := fun acc : Dict Str Str × Dict Str Str => acc.1.keys.Nodup) targets _ List.nodup_nil fun acc hacc k _ => ?_
  rw [importKey_eq]
  split
  · exact hacc
  · split
    · exact Dict.keys_set_nodup hacc
    · split <;> exact hacc

end

/-! ## Tokens -/

section
variable {K : Type}

/-- The values that a call may give to secrets. -/
def Call.updates (env : Surroundings K) : Call → Dict Str Str
  | redeploy _ updatedSecrets _ => updatedSecrets.items.filter (·.2 ≠ [])
  | adopt | migrate _ => (parseEnvFile (envText (env.live.getD []))).filter (strip ·.2 ≠ [])
  | _ => []

def StillHolds (updates before after : Dict Str Str) : Prop :=
  ∀ k v, before.get? k = some v → ∃ w, after.get? k = some w ∧ (w = v ∨ updates.get? k = some w)

/-! ## Redeploying -/

/-- The template takes the stored values: it is there, it can be merged and rendered. -/
def Takes (env : Surroundings K) (project : Str) (dep : StackDeployment K) (publicVars secretsMap : Dict Str Str)
    (definition : TemplateDefinition) (values : Dict Str Str) : Prop :=
  ∃ slug merged files, dep.templateSlug.filter (· ≠ []) = some slug ∧ getTemplateDefinition env.catalog (some slug) none = .ok definition ∧
    mergeVariableValues definition ((publicVars.update secretsMap).set projectNameKey project) false env.fresh = .ok merged ∧
    values = merged.values.set projectNameKey project ∧ renderTemplateFiles definition { merged with values } = .ok files

theorem desiredOf_of_takes {env : Surroundings K} {project : Str} {dep : StackDeployment K} {publicVars secretsMap : Dict Str Str}
    {definition : TemplateDefinition} {values : Dict Str Str} (h : Takes env project dep publicVars secretsMap definition values) :
    (desiredOf env project dep publicVars secretsMap).secretsMap = (splitSecrets definition values).2 := by
  obtain ⟨slug, merged, files, hslug, hdefinition, hmerged, rfl, hfiles⟩ := h
  unfold desiredOf
  rw [hslug]
  dsimp only
  rw [rerender_ok_iff.2 ⟨definition, merged, files, hdefinition, hmerged, hfiles, rfl⟩]

theorem desiredOf_of_not_takes {env : Surroundings K} {project : Str} {dep : StackDeployment K} {publicVars secretsMap : Dict Str Str}
    (h : ∀ definition values, ¬ Takes env project dep publicVars secretsMap definition values) :
    (desiredOf env project dep publicVars secretsMap).secretsMap = secretsMap := by
  unfold desiredOf
  cases hslug : dep.templateSlug.filter (· ≠ []) with
  | none => rfl
  | some slug =>
    dsimp only
    cases hrerender : rerender env project slug publicVars secretsMap with
    | error e => rfl
    | ok desired =>
      obtain ⟨definition, merged, files, hdefinition, hmerged, hfiles, -⟩ := rerender_ok_iff.1 hrerender
      exact absurd ⟨slug, merged, files, hslug, hdefinition, hmerged, rfl, hfiles⟩ (h definition _)

theorem get?_updates_host (env : Surroundings K) (k : Str) : Dict.get? k ((hostEnv env).filter (strip ·.2 ≠ [])) = hostValue (hostEnv env) k :=
  Dict.get?_filter_value (fun v => decide (strip v ≠ [])) k (hostEnv_nodup env)

end

section
variable {K : Type} [DecidableEq K]

/-- Every secret is still held, or the call raised and left the token and the host's `.env`. -/
def NoSecretLost (env : Surroundings K) (stack : Stack K) (call : Call) : Prop :=
  let o := call.run env stack
  (∀ dep, stack.deployment = some dep → ∃ dep', o.stack.deployment = some dep' ∧ StillHolds (call.updates env) dep.held dep'.held) ∨
    (o.result.isOk = false ∧ o.stack.deployment = stack.deployment ∧ envText o.stack.host = envText stack.host)

/-- What the row holds after the call decides. -/
theorem noSecretLost_iff {env : Surroundings K} {project : Str} {dep dep' : StackDeployment K} {host : Dict Str Str} (call : Call)
    (h : (call.run env ⟨project, some dep, host⟩).stack.deployment = some dep') :
    NoSecretLost env ⟨project, some dep, host⟩ call ↔ StillHolds (call.updates env) dep.held dep'.held := by
  unfold NoSecretLost
  dsimp only
  rw [h]
  constructor
  · rintro (hkeeps | ⟨-, hsame, -⟩)
    · obtain ⟨dep'', hdep'', hholds⟩ := hkeeps dep rfl
      obtain rfl := Option.some.inj hdep''
      exact hholds
    · obtain rfl := Option.some.inj hsame
      exact fun k v hv => ⟨v, hv, Or.inl rfl⟩
  · intro hholds
    refine Or.inl fun dep₀ hdep₀ => ⟨dep', rfl, ?_⟩
    obtain rfl := Option.some.inj hdep₀
    exact hholds

/-- What a redeploy does to each held secret. -/
def RedeployCarries (env : Surroundings K) (project : Str) (dep : StackDeployment K) (updatedPublic updatedSecrets : Dict Str Str)
    (k v : Str) : Prop :=
  let publicVars := dep.variablesJson.update updatedPublic
  let secretsMap := (decryptDeploymentSecrets env.key dep).update (updatedSecrets.filter (·.2 ≠ []))
  (∀ definition values, Takes env project dep publicVars secretsMap definition values →
      (k ∈ definition.secretVarNames ∧ startsWith (lit "__") k = false) ∧
        ∃ w, values.get? k = some w ∧ (w = v ∨ Dict.get? k (updatedSecrets.filter (·.2 ≠ [])) = some w)) ∧
    ((∀ definition values, ¬ Takes env project dep publicVars secretsMap definition values) →
      Opens env dep ∨ (Dict.get? k (updatedSecrets.filter (·.2 ≠ []))).isSome)

theorem carries_iff {env : Surroundings K} {project : Str} {dep : StackDeployment K} {updatedPublic : Dict Str Str}
    {updatedSecrets : Mapping Str Str} {k v : Str} (hheld : dep.held.get? k = some v) :
    (∃ w, (planned env project dep updatedPublic updatedSecrets.items).secretsMap.get? k = some w ∧
        (w = v ∨ Dict.get? k (updatedSecrets.items.filter (·.2 ≠ [])) = some w)) ↔
      RedeployCarries env project dep updatedPublic updatedSecrets.items k v := by
  unfold RedeployCarries planned
  dsimp only
  by_cases htakes : ∃ definition values, Takes env project dep (dep.variablesJson.update updatedPublic)
      ((decryptDeploymentSecrets env.key dep).update (updatedSecrets.items.filter (·.2 ≠ []))) definition values
  · rw [and_iff_left fun hnot => absurd htakes fun ⟨definition, values, h⟩ => hnot definition values h]
    constructor
    · rintro ⟨w, hw, hvalue⟩ definition values h
      rw [desiredOf_of_takes h, get?_splitSecrets] at hw
      split at hw
      · rename_i hname
        exact ⟨hname, w, hw, hvalue⟩
      · cases hw
    · intro hall
      obtain ⟨definition, values, h⟩ := htakes
      obtain ⟨hname, w, hw, hvalue⟩ := hall definition values h
      refine ⟨w, ?_, hvalue⟩
      rw [desiredOf_of_takes h, get?_splitSecrets, if_pos hname, hw]
  · have hnot : ∀ definition values, ¬ Takes env project dep (dep.variablesJson.update updatedPublic)
        ((decryptDeploymentSecrets env.key dep).update (updatedSecrets.items.filter (·.2 ≠ []))) definition values :=
      fun definition values h => htakes ⟨definition, values, h⟩
    rw [and_iff_right fun definition values h => absurd h (hnot definition values), imp_iff_right hnot, desiredOf_of_not_takes hnot,
      Dict.get?_update (Dict.keys_filter_nodup updatedSecrets.nodup _)]
    by_cases hopens : Opens env dep
    · rw [decrypt_of_opens hopens, hheld]
      cases Dict.get? k (updatedSecrets.items.filter (·.2 ≠ [])) with
      | none => simp [hopens]
      | some u => simp [hopens]
    · rw [decrypt_of_not_opens hopens]
      cases Dict.get? k (updatedSecrets.items.filter (·.2 ≠ [])) with
      | none => simp [hopens, Dict.get?]
      | some u => simp [hopens]

theorem redeploy_keeps_iff (env : Surroundings K) (project : Str) (dep : StackDeployment K) (host : Dict Str Str)
    (updatedPublic updatedSecrets : Mapping Str Str) (deployNow : Bool) :
    NoSecretLost env ⟨project, some dep, host⟩ (.redeploy updatedPublic updatedSecrets deployNow) ↔
      (RedeploySaves env host (planned env project dep updatedPublic.items updatedSecrets.items) deployNow →
        ∀ k v, dep.held.get? k = some v → RedeployCarries env project dep updatedPublic.items updatedSecrets.items k v) := by
  rcases redeploy_cases env project dep host updatedPublic.items updatedSecrets.items deployNow with
    ⟨hsaves, dep', -, hheld, ho⟩ | ⟨hnot, -, hdep', -⟩
  · have hdep' := congrArg (fun o => o.stack.deployment) ho
    rw [noSecretLost_iff (.redeploy updatedPublic updatedSecrets deployNow) hdep', imp_iff_right hsaves]
    refine forall₂_congr fun k v => imp_congr_right fun hv => ?_
    rw [← carries_iff hv, hheld]
    rfl
  · rw [noSecretLost_iff (.redeploy updatedPublic updatedSecrets deployNow) hdep']
    exact iff_of_true (fun k v hv => ⟨v, hv, Or.inl rfl⟩) fun h => absurd h hnot

/-! ## From the host -/

/-- A key of the host's that an adopting takes for a secret, of a stack whose token it cannot open. -/
def HostSecret (env : Surroundings K) (dep : StackDeployment K) (k : Str) : Prop :=
  (hostValue (hostEnv env) k).isSome ∧ (k ∈ secretNamesForDeployment env.catalog dep [] ∨ looksLikeSecretName k)

/-- An adopting saves the refreshed secrets, where there are any, or it leaves the token. -/
theorem held_adopt (env : Surroundings K) (project : Str) (dep : StackDeployment K) (host : Dict Str Str) :
    ∃ dep', (adoptHostFilesAsDesired env ⟨project, some dep, host⟩).stack.deployment = some dep' ∧
      (dep'.held = dep.held ∧ (env.live.getD [] = [] ∨ refreshed env dep = [] ∨ env.key = none) ∨
        dep'.held = refreshed env dep ∧ refreshed env dep ≠ [] ∧ env.key ≠ none) := by
  rcases adopt_cases env project dep host with ⟨live, token, -, -, htoken, ho⟩ | ⟨hwhy, hstack, -⟩
  · have hheld := held_encryptSecrets htoken
    rw [ho]
    cases token with
    | none => exact ⟨_, rfl, Or.inl ⟨rfl, Or.inr (Or.inl hheld.symm)⟩⟩
    | some token => exact ⟨_, rfl, Or.inr ⟨hheld, encryptSecrets_some htoken⟩⟩
  · rw [hstack]
    exact ⟨dep, rfl, Or.inl ⟨rfl, hwhy.imp_right fun h => Or.inr h.2⟩⟩

/-- A held secret is refreshed with its own value or with the host's, where the token can be opened. -/
theorem refreshed_of_opens {env : Surroundings K} {dep : StackDeployment K} (h : Opens env dep) {k v : Str} (hv : dep.held.get? k = some v) :
    ∃ w, (refreshed env dep).get? k = some w ∧ (w = v ∨ hostValue (hostEnv env) k = some w) := by
  rw [refreshed, get?_refreshSecretsFromHostEnv _ (hostEnv_nodup env), decrypt_of_opens h, hv]
  split
  · cases hw : hostValue (hostEnv env) k with
    | none => exact ⟨v, rfl, Or.inl rfl⟩
    | some w => exact ⟨w, rfl, Or.inr rfl⟩
  · exact ⟨v, rfl, Or.inl rfl⟩

theorem refreshed_of_not_opens {env : Surroundings K} {dep : StackDeployment K} (h : ¬ Opens env dep) (k : Str) :
    ((refreshed env dep).get? k).isSome = true ↔ HostSecret env dep k := by
  rw [refreshed, get?_refreshSecretsFromHostEnv _ (hostEnv_nodup env), decrypt_of_not_opens h, HostSecret]
  cases hw : hostValue (hostEnv env) k with
  | none => simp [Dict.get?]
  | some w =>
    by_cases hname : k ∈ secretNamesForDeployment env.catalog dep [] <;> by_cases hlooks : looksLikeSecretName k = true <;>
      simp [Dict.get?, hname, hlooks]

/-- Without the token, only the host's values are refreshed. -/
theorem get?_refreshed_of_not_opens {env : Surroundings K} {dep : StackDeployment K} (h : ¬ Opens env dep) {k w : Str}
    (hw : (refreshed env dep).get? k = some w) : hostValue (hostEnv env) k = some w := by
  rw [refreshed, get?_refreshSecretsFromHostEnv _ (hostEnv_nodup env), decrypt_of_not_opens h] at hw
  by_cases hname : k ∈ secretNamesForDeployment env.catalog dep []
  · cases hvalue : hostValue (hostEnv env) k <;> simp_all [Dict.get?]
  · by_cases hlooks : looksLikeSecretName k = true <;> simp_all [Dict.get?]

/-- What an adopting needs to keep every secret. -/
def AdoptCarries (env : Surroundings K) (dep : StackDeployment K) : Prop :=
  Opens env dep ∨ env.key = none ∨ (∀ k, ¬ HostSecret env dep k) ∨ ∀ k v, dep.held.get? k = some v → HostSecret env dep k

theorem adopt_keeps_iff (env : Surroundings K) (project : Str) (dep : StackDeployment K) (host : Dict Str Str) :
    NoSecretLost env ⟨project, some dep, host⟩ .adopt ↔ AdoptCarries env dep := by
  obtain ⟨dep', hdep', hheld⟩ := held_adopt env project dep host
  rw [noSecretLost_iff .adopt hdep', AdoptCarries]
  change StillHolds ((hostEnv env).filter (strip ·.2 ≠ [])) dep.held dep'.held ↔ _
  rcases hheld with ⟨hheld, hwhy⟩ | ⟨hheld, hne, hkey⟩
  · refine iff_of_true (fun k v hv => ⟨v, by rw [hheld, hv], Or.inl rfl⟩) ?_
    by_cases hopens : Opens env dep
    · exact Or.inl hopens
    · rcases hwhy with hlive | hnil | hkey
      · refine Or.inr (Or.inr (Or.inl fun k hk => ?_))
        rw [HostSecret, hostEnv, hlive] at hk
        cases hk.1
      · refine Or.inr (Or.inr (Or.inl fun k hk => ?_))
        rw [← refreshed_of_not_opens hopens, hnil] at hk
        cases hk
      · exact Or.inr (Or.inl hkey)
  · rw [hheld]
    constructor
    · intro h
      by_cases hopens : Opens env dep
      · exact Or.inl hopens
      · refine Or.inr (Or.inr (Or.inr fun k v hv => ?_))
        obtain ⟨w, hw, -⟩ := h k v hv
        rw [← refreshed_of_not_opens hopens, hw]
        rfl
    · intro h k v hv
      rw [get?_updates_host]
      by_cases hopens : Opens env dep
      · exact refreshed_of_opens hopens hv
      · rcases h with h | h | h | h
        · exact absurd h hopens
        · exact absurd h hkey
        · refine absurd (Dict.eq_nil_of_get?_none fun k => ?_) hne
          rw [← Option.not_isSome_iff_eq_none, refreshed_of_not_opens hopens]
          exact h k
        · obtain ⟨w, hw⟩ := Option.isSome_iff_exists.1 ((refreshed_of_not_opens hopens k).2 (h k v hv))
          exact ⟨w, hw, Or.inr (get?_refreshed_of_not_opens hopens hw)⟩

/-! ## Migrating -/

/-- The host's value of a key is imported as a secret. -/
def ImportsSecret (env : Surroundings K) (dep : StackDeployment K) (secretKeys : Option (List Str)) (k w : Str) : Prop :=
  k ∈ migrateTargets (migrateNames env dep) (hostEnv env) secretKeys ∧
    TakenAsSecret (migrateNames env dep) dep.variablesJson (decryptDeploymentSecrets env.key dep) k ∧
      (hostEnv env).get? k = some w

def ImportsPublic (env : Surroundings K) (dep : StackDeployment K) (secretKeys : Option (List Str)) (k w : Str) : Prop :=
  k ∈ migrateTargets (migrateNames env dep) (hostEnv env) secretKeys ∧
    TakenAsPublic (migrateNames env dep) dep.variablesJson (decryptDeploymentSecrets env.key dep) k ∧
      (hostEnv env).get? k = some w

/-- Something is imported, and what is secret of it can be encrypted. -/
def MigrateSaves (env : Surroundings K) (dep : StackDeployment K) (secretKeys : Option (List Str)) : Prop :=
  ((∃ k w, ImportsSecret env dep secretKeys k w) ∨ ∃ k w, ImportsPublic env dep secretKeys k w) ∧
    (env.key ≠ none ∨ ∀ k w, ¬ ImportsSecret env dep secretKeys k w)

theorem get?_importedSecrets {env : Surroundings K} {dep : StackDeployment K} {secretKeys : Option (List Str)} {k w : Str} :
    (importedSecrets env dep secretKeys).1.get? k = some w ↔ ImportsSecret env dep secretKeys k w := by
  rw [importedSecrets, get?_imported_secrets, ImportsSecret]
  split
  · rename_i hmem
    split
    · rename_i htaken
      simp [hmem, htaken]
    · rename_i htaken
      simp [htaken]
  · rename_i hmem
    simp [hmem]

theorem get?_importedPublic {env : Surroundings K} {dep : StackDeployment K} {secretKeys : Option (List Str)} {k w : Str} :
    (importedSecrets env dep secretKeys).2.get? k = some w ↔ ImportsPublic env dep secretKeys k w := by
  rw [importedSecrets, get?_imported_public, ImportsPublic]
  split
  · rename_i hmem
    split
    · rename_i htaken
      simp [hmem, htaken]
    · rename_i htaken
      simp [htaken]
  · rename_i hmem
    simp [hmem]

theorem nodup_importedSecrets (env : Surroundings K) (dep : StackDeployment K) (secretKeys : Option (List Str)) :
    (importedSecrets env dep secretKeys).1.keys.Nodup := nodup_imported ..

/-- A dictionary is empty where nothing is found in it. -/
theorem eq_nil_iff_get? {d : Dict Str Str} {P : Str → Str → Prop} (h : ∀ k w, d.get? k = some w ↔ P k w) : d = [] ↔ ∀ k w, ¬ P k w := by
  constructor
  · rintro rfl k w hP
    exact absurd ((h k w).2 hP) (by simp [Dict.get?])
  · intro hnot
    refine Dict.eq_nil_of_get?_none fun k => ?_
    cases hk : d.get? k with
    | none => rfl
    | some w => exact absurd ((h k w).1 hk) (hnot k w)

/-- A migration saves the imported secrets over the known ones, or it raises. -/
theorem held_migrate (env : Surroundings K) (project : Str) (dep : StackDeployment K) (host : Dict Str Str) (secretKeys : Option (List Str)) :
    ∃ dep', (migrateHostEnvIntoDeployment env secretKeys ⟨project, some dep, host⟩).stack.deployment = some dep' ∧
      (¬ MigrateSaves env dep secretKeys ∧ dep'.held = dep.held ∨
        MigrateSaves env dep secretKeys ∧ dep'.held = (decryptDeploymentSecrets env.key dep).update (importedSecrets env dep secretKeys).1) := by
  have hsecrets := eq_nil_iff_get? fun k w => @get?_importedSecrets K _ env dep secretKeys k w
  have hpublic := eq_nil_iff_get? fun k w => @get?_importedPublic K _ env dep secretKeys k w
  have hsome : (∃ k w, ImportsSecret env dep secretKeys k w) ∨ (∃ k w, ImportsPublic env dep secretKeys k w) ↔
      ¬ ((importedSecrets env dep secretKeys).1 = [] ∧ (importedSecrets env dep secretKeys).2 = []) := by
    rw [hsecrets, hpublic, not_and_or]
    push Not
    rfl
  have hkey : env.key ≠ none ∨ (∀ k w, ¬ ImportsSecret env dep secretKeys k w) ↔
      (decryptDeploymentSecrets env.key dep).update (importedSecrets env dep secretKeys).1 = [] ∨ env.key ≠ none := by
    rw [← hsecrets]
    by_cases hkey : env.key = none
    · rw [decrypt_of_no_key hkey, Dict.update_nil_eq_nil (nodup_importedSecrets env dep secretKeys)]
      simp [hkey]
    · simp [hkey]
  have hsaves := and_congr hsome hkey
  rcases migrate_cases env project dep host secretKeys with ⟨-, hsome', token, htoken, ho⟩ | ⟨hwhy, hstack, -⟩
  · rw [ho]
    exact ⟨_, rfl, Or.inr ⟨hsaves.2 ⟨hsome', encryptSecrets_isOk.1 ⟨token, htoken⟩⟩, held_encryptSecrets htoken⟩⟩
  · rw [hstack]
    refine ⟨dep, rfl, Or.inl ⟨fun h => ?_, rfl⟩⟩
    rcases hwhy with hnil | hnothing | hkey'
    · rcases h.1 with ⟨k, w, -, -, hw⟩ | ⟨k, w, -, -, hw⟩ <;> rw [hnil] at hw <;> cases hw
    · exact (hsaves.1 h).1 hnothing
    · exact hkey' (hsaves.1 h).2

/-- What a migration needs to keep every secret. -/
def MigrateCarries (env : Surroundings K) (dep : StackDeployment K) (secretKeys : Option (List Str)) : Prop :=
  MigrateSaves env dep secretKeys → ∀ k v, dep.held.get? k = some v →
    (∃ w, ImportsSecret env dep secretKeys k w ∧ (w = v ∨ strip w ≠ [])) ∨ (Opens env dep ∧ ∀ w, ¬ ImportsSecret env dep secretKeys k w)

/-- The secret that is held after a migration. -/
theorem get?_migrated {env : Surroundings K} {dep : StackDeployment K} {secretKeys : Option (List Str)} {k v : Str}
    (hv : dep.held.get? k = some v) :
    (∃ w, ((decryptDeploymentSecrets env.key dep).update (importedSecrets env dep secretKeys).1).get? k = some w ∧
        (w = v ∨ hostValue (hostEnv env) k = some w)) ↔
      (∃ w, ImportsSecret env dep secretKeys k w ∧ (w = v ∨ strip w ≠ [])) ∨ (Opens env dep ∧ ∀ w, ¬ ImportsSecret env dep secretKeys k w) := by
  rw [Dict.get?_update (nodup_importedSecrets env dep secretKeys)]
  cases himport : (importedSecrets env dep secretKeys).1.get? k with
  | some w =>
    have hw := get?_importedSecrets.1 himport
    have hhost : hostValue (hostEnv env) k = some w ↔ strip w ≠ [] := by
      rw [hostValue, hw.2.2]
      by_cases hblank : strip w = [] <;> simp [Option.filter, hblank]
    constructor
    · rintro ⟨w', hw', hvalue⟩
      obtain rfl : w = w' := Option.some.inj hw'
      exact Or.inl ⟨w, hw, hvalue.imp_right hhost.1⟩
    · rintro (⟨w', hw', hvalue⟩ | ⟨-, hno⟩)
      · obtain rfl : w' = w := Option.some.inj (hw'.2.2.symm.trans hw.2.2)
        exact ⟨w', rfl, hvalue.imp_right hhost.2⟩
      · exact absurd hw (hno w)
  | none =>
    have hno : ∀ w, ¬ ImportsSecret env dep secretKeys k w := fun w h => by
      rw [get?_importedSecrets.2 h] at himport
      cases himport
    rw [Option.none_or]
    by_cases hopens : Opens env dep
    · rw [decrypt_of_opens hopens, hv]
      exact iff_of_true ⟨v, rfl, Or.inl rfl⟩ (Or.inr ⟨hopens, hno⟩)
    · rw [decrypt_of_not_opens hopens]
      refine iff_of_false (fun ⟨w, hw, _⟩ => nomatch hw) ?_
      rintro (⟨w, hw, -⟩ | ⟨h, -⟩)
      · exact hno w hw
      · exact hopens h

theorem migrate_keeps_iff (env : Surroundings K) (project : Str) (dep : StackDeployment K) (host : Dict Str Str) (secretKeys : Option (List Str)) :
    NoSecretLost env ⟨project, some dep, host⟩ (.migrate secretKeys) ↔ MigrateCarries env dep secretKeys := by
  obtain ⟨dep', hdep', hheld⟩ := held_migrate env project dep host secretKeys
  rw [noSecretLost_iff (.migrate secretKeys) hdep']
  rcases hheld with ⟨hnot, hheld⟩ | ⟨hsaves, hheld⟩
  · rw [hheld]
    exact iff_of_true (fun k v hv => ⟨v, hv, Or.inl rfl⟩) fun h => absurd h hnot
  · rw [hheld, MigrateCarries, imp_iff_right hsaves]
    refine forall₂_congr fun k v => imp_congr_right fun hv => ?_
    rw [← get?_migrated hv]
    change (∃ w, _ ∧ (w = v ∨ Dict.get? k ((hostEnv env).filter (strip ·.2 ≠ [])) = some w)) ↔ _
    rw [get?_updates_host]

/-! ## Every call -/

/-- **When no secret is lost.** A redeploy, an apply of the last known configuration, an adopting and a migration each keep
every secret exactly under its own condition. -/
theorem no_secret_lost_iff (env : Surroundings K) (project : Str) (dep : StackDeployment K) (host : Dict Str Str) :
    (∀ updatedPublic updatedSecrets deployNow,
        NoSecretLost env ⟨project, some dep, host⟩ (.redeploy updatedPublic updatedSecrets deployNow) ↔
          (RedeploySaves env host (planned env project dep updatedPublic.items updatedSecrets.items) deployNow →
            ∀ k v, dep.held.get? k = some v → RedeployCarries env project dep updatedPublic.items updatedSecrets.items k v)) ∧
      (∀ deployNow, NoSecretLost env ⟨project, some dep, host⟩ (.applyLastKnown deployNow) ↔
        (RedeploySaves env host (planned env project dep [] []) deployNow →
          ∀ k v, dep.held.get? k = some v → RedeployCarries env project dep [] [] k v)) ∧
      (NoSecretLost env ⟨project, some dep, host⟩ .adopt ↔ AdoptCarries env dep) ∧
      ∀ secretKeys, NoSecretLost env ⟨project, some dep, host⟩ (.migrate secretKeys) ↔ MigrateCarries env dep secretKeys :=
  ⟨redeploy_keeps_iff env project dep host, redeploy_keeps_iff env project dep host ⟨[], List.nodup_nil⟩ ⟨[], List.nodup_nil⟩,
    adopt_keeps_iff env project dep host, migrate_keeps_iff env project dep host⟩

end

/-- A stack whose template is gone, with a token made under key 0. -/
def shop : StackDeployment Nat where
  templateId := none
  templateSlug := none
  secretsEncrypted := some ⟨0, [(lit "DB_PASSWORD", lit "hunter22")]⟩
  filesJson := [(lit "docker-compose.yml", lit "services: {}\n"), (envPath, lit "DB_PASSWORD=\n")]

def shopHost : Dict Str Str := [(lit "docker-compose.yml", lit "services: {}\n"), (envPath, lit "DB_PASSWORD=hunter22\n")]

/-- Under another key, its last known configuration is applied without the password, which is gone from the row by then. -/
theorem changed_key_loses_secrets :
    ¬ NoSecretLost { catalog := [], key := some 1 } ⟨lit "shop", some shop, shopHost⟩ (.applyLastKnown false) := by
  rintro (h | ⟨h, -⟩)
  · obtain ⟨dep', hdep', hholds⟩ := h shop rfl
    obtain ⟨w, hw, -⟩ := hholds (lit "DB_PASSWORD") (lit "hunter22") (by decide +kernel)
    have hnone : ((Call.run { catalog := [], key := some 1 } ⟨lit "shop", some shop, shopHost⟩ (.applyLastKnown false)).stack.deployment.map
        StackDeployment.held) = some [] := by decide +kernel
    rw [hdep', Option.map_some, Option.some.injEq] at hnone
    rw [hnone] at hw
    cases hw
  · exact absurd h (by decide +kernel)

end PiHerder.Stacks
