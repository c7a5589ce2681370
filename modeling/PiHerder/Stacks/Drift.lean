import PiHerder.Stacks.ComposeLines
import PiHerder.Stacks.ReadBack
import PiHerder.Stacks.StoredFiles

/-!
# Drift after a call

What a call wrote is compared with what it stored, the secrets merged in again. `scrubbed_inSync_iff`: the files that
`filesForDbStorage` stored are in sync with those that were written exactly where masking changes nothing that is compared and
the `.env` has the secrets. `line_change_drifts`, `secret_change_drifts`: a later change is seen.
-/
namespace PiHerder.Stacks
open Lib Lib.Str

/-- The files are read as they were written, and no other `.env`. -/
structure ReadsBack (files live : Dict Str Str) : Prop where
  all : ∀ f ∈ files, live.get? f.1 = some f.2
  env : live.get? envPath = files.get? envPath

/-- Kept in the database. -/
def storedPath (path : Str) : Bool := !startsWith (lit "secrets/") (path.map fun c => if c = '\\' then '/' else c)

/-- What is stored, with the secrets, compares as what was written does: each file but for blanks at ends of lines, and every
assignment of the `.env` that is not blank. -/
structure InStep (stored files secrets : Dict Str Str) : Prop where
  texts : ∀ f ∈ stored, f.1 ≠ envPath → startsWith (lit "secrets/") f.1 = false → ∀ text, (f.1, text) ∈ files →
    normalizeComposeText f.2 = normalizeComposeText text
  env : ∀ k v, (parseEnvFile (envText (mergeSecretsIntoEnvFiles stored secrets))).get? k = some v → strip v ≠ [] →
    (parseEnvFile (envText files)).get? k = some v

/-- Masking the secrets changes no file but for blanks at ends of lines, and no public value. -/
structure Unmasked (secrets files : Dict Str Str) : Prop where
  texts : ∀ f ∈ files, f.1 ≠ envPath → storedPath f.1 = true → normalizeComposeText (maskText secrets f.2) = normalizeComposeText f.2
  publicValues : ∀ k v, k ∉ secrets.keys → (parseEnvFile (maskText secrets (envText files))).get? k = some v → strip v ≠ [] →
    (parseEnvFile (envText files)).get? k = some v

/-- The `.env` has every secret that is not blank. -/
def HasSecrets (secrets files : Dict Str Str) : Prop :=
  ∀ k v, secretValue secrets k = some v → strip (readBack v) ≠ [] → (parseEnvFile (envText files)).get? k = some (readBack v)

/-! ## Comparing -/

theorem diffEnv_eq_none {want : Str} {host : Option Str} :
    diffEnvDesiredVsHost want host = none ↔
      ∀ k v, (parseEnvFile want).get? k = some v → strip v ≠ [] → (parseEnvFile (host.getD [])).get? k = some v := by
  have hmeaningful : (∀ k v, (parseEnvFile want).get? k = some v → strip v ≠ [] → (parseEnvFile (host.getD [])).get? k = some v) ↔
      ∀ e ∈ (parseEnvFile want).filter (strip ·.2 ≠ []), (parseEnvFile (host.getD [])).get? e.1 = some e.2 := by
    constructor
    · intro h e he
      obtain ⟨hmem, hvalue⟩ := List.mem_filter.1 he
      exact h e.1 e.2 (Dict.get?_of_mem (nodup_parseEnvFile want) hmem) (of_decide_eq_true hvalue)
    · intro h k v hk hv
      exact h (k, v) (List.mem_filter.2 ⟨Dict.mem_of_get? hk, decide_eq_true hv⟩)
  rw [hmeaningful]
  unfold diffEnvDesiredVsHost
  dsimp only
  by_cases hnil : (parseEnvFile want).filter (strip ·.2 ≠ []) = []
  · rw [if_pos hnil, hnil]
    exact iff_of_true rfl fun e he => nomatch he
  · rw [if_neg hnil]
    cases host with
    | none =>
      rw [Option.isNone_none, if_pos rfl]
      refine iff_of_false (by simp) fun h => ?_
      obtain ⟨e, he⟩ := List.exists_mem_of_ne_nil _ hnil
      exact nomatch h e he
    | some text =>
      rw [if_neg (by simp), Option.getD_some]
      constructor
      · intro h e he
        split at h
        · rename_i hboth
          have hmissing := List.filter_eq_nil_iff.1 hboth.1 e he
          have hchanged := List.filter_eq_nil_iff.1 hboth.2 e he
          cases hk : (parseEnvFile text).get? e.1 with
          | none => simp [hk] at hmissing
          | some v => simpa [hk] using hchanged
        · cases h
      · intro h
        refine if_pos ⟨List.filter_eq_nil_iff.2 fun e he => ?_, List.filter_eq_nil_iff.2 fun e he => ?_⟩
        · simp [h e he]
        · simp [h e he]

theorem storedPath_of_compose {path : Str} (h : path ∈ composeBasenames) : path ≠ envPath ∧ storedPath path = true := by
  revert path
  decide

theorem not_secrets_of_stored {path : Str} (h : storedPath path = true) : startsWith (lit "secrets/") path = false := by
  rw [← Bool.not_eq_true]
  intro hsecrets
  obtain ⟨rest, rfl⟩ := List.isPrefixOf_iff_prefix.1 hsecrets
  have hmapped : startsWith (lit "secrets/") ((lit "secrets/" ++ rest).map fun c => if c = '\\' then '/' else c) = true := by
    rw [List.map_append]
    exact List.isPrefixOf_iff_prefix.2 (List.prefix_append _ _)
  rw [storedPath, hmapped] at h
  cases h

/-- A file that the host has differs in its lines. -/
theorem fileDiffers_eq_false {live : Dict Str Str} {path want text : Str} (hpath : path ≠ envPath) (hsecrets : startsWith (lit "secrets/") path = false)
    (hlive : live.get? path = some text) : fileDiffers live path want = false ↔ normalizeComposeText want = normalizeComposeText text := by
  unfold fileDiffers
  rw [hsecrets, if_neg hpath, hlive]
  simp

theorem envDiffers_eq_false {live : Dict Str Str} {want : Str} :
    fileDiffers live envPath want = false ↔
      ∀ k v, (parseEnvFile want).get? k = some v → strip v ≠ [] → (parseEnvFile (envText live)).get? k = some v := by
  unfold fileDiffers
  rw [if_neg (by decide), if_pos rfl, Option.isSome_eq_false_iff, Option.isNone_iff_eq_none, diffEnv_eq_none]
  rfl

/-! ## The desired files -/

section
variable {files secrets : Dict Str Str}

theorem forall_mem_mergeSecrets (h : files.keys.Nodup) {P : Str × Str → Prop} :
    (∀ f ∈ mergeSecretsIntoEnvFiles files secrets, P f) ↔
      P (envPath, envText (mergeSecretsIntoEnvFiles files secrets)) ∧
        ∀ f ∈ files, f.1 ≠ envPath → startsWith (lit "secrets/") f.1 = false → P f := by
  have henv : envText (mergeSecretsIntoEnvFiles files secrets) =
      if withSecrets (parseEnvFile (envText (files.filter fun f => !startsWith (lit "secrets/") f.1))) secrets = [] then
        envText (files.filter fun f => !startsWith (lit "secrets/") f.1)
      else formatEnvFile (withSecrets (parseEnvFile (envText (files.filter fun f => !startsWith (lit "secrets/") f.1))) secrets) := by
    rw [envText, mergeSecretsIntoEnvFiles, Dict.get?_set, if_pos rfl]
    rfl
  rw [henv]
  unfold mergeSecretsIntoEnvFiles
  simp only [Dict.mem_set_iff (Dict.keys_filter_nodup h _), List.mem_filter, Bool.not_eq_true', forall_eq_or_imp]
  exact and_congr_right fun _ => ⟨fun hall f hf hpath hsecrets => hall f ⟨⟨hf, hsecrets⟩, hpath⟩,
    fun hall f hf => hall f hf.1.1 hf.2 hf.1.2⟩

theorem keys_maskSecretsInFiles (files secrets : Dict Str Str) : (maskSecretsInFiles files secrets).keys = files.keys := by
  rw [Dict.keys, maskSecretsInFiles, List.map_map]
  rfl

theorem nodup_filesForDbStorage (h : files.keys.Nodup) : (filesForDbStorage files secrets).keys.Nodup := by
  refine Dict.keys_set_nodup ?_
  rw [keys_maskSecretsInFiles]
  exact Dict.keys_filter_nodup h _

theorem mem_stored (h : files.keys.Nodup) {path text : Str} (hmem : (path, text) ∈ files) (hpath : path ≠ envPath)
    (hstored : storedPath path = true) : (path, maskText secrets text) ∈ filesForDbStorage files secrets := by
  have hnd : (maskSecretsInFiles (files.filter fun f => storedPath f.1) secrets).keys.Nodup := by
    rw [keys_maskSecretsInFiles]
    exact Dict.keys_filter_nodup h _
  exact (Dict.mem_set_iff hnd).2 (Or.inr ⟨List.mem_map.2 ⟨(path, text), List.mem_filter.2 ⟨hmem, hstored⟩, rfl⟩, hpath⟩)

theorem forall_mem_stored (h : files.keys.Nodup) {P : Str × Str → Prop} :
    (∀ f ∈ filesForDbStorage files secrets, f.1 ≠ envPath → P f) ↔
      ∀ f ∈ files, f.1 ≠ envPath → storedPath f.1 = true → P (f.1, maskText secrets f.2) := by
  have hnd : (maskSecretsInFiles (files.filter fun f => storedPath f.1) secrets).keys.Nodup := by
    rw [keys_maskSecretsInFiles]
    exact Dict.keys_filter_nodup h _
  constructor
  · exact fun hall f hf hpath hstored => hall _ (mem_stored h hf hpath hstored) hpath
  · intro hall f hf hpath
    rcases (Dict.mem_set_iff hnd).1 hf with rfl | ⟨hf, -⟩
    · exact absurd rfl hpath
    · obtain ⟨g, hg, rfl⟩ := List.mem_map.1 hf
      exact hall g (List.mem_filter.1 hg).1 hpath (List.mem_filter.1 hg).2

/-! ## In step -/

theorem forall_stored_texts (hfiles : files.keys.Nodup) :
    (∀ f ∈ filesForDbStorage files secrets, f.1 ≠ envPath → startsWith (lit "secrets/") f.1 = false → ∀ text, (f.1, text) ∈ files →
        normalizeComposeText f.2 = normalizeComposeText text) ↔
      ∀ f ∈ files, f.1 ≠ envPath → storedPath f.1 = true → normalizeComposeText (maskText secrets f.2) = normalizeComposeText f.2 := by
  rw [forall_mem_stored (P := fun f => startsWith (lit "secrets/") f.1 = false → ∀ text, (f.1, text) ∈ files →
    normalizeComposeText f.2 = normalizeComposeText text) hfiles]
  refine forall₂_congr fun f hf => forall₂_congr fun hpath hstored => ?_
  rw [imp_iff_right (not_secrets_of_stored hstored)]
  constructor
  · exact fun h => h f.2 hf
  · intro h text htext
    have heq := (Dict.get?_of_mem hfiles htext).symm.trans (Dict.get?_of_mem hfiles hf)
    rw [Option.some.inj heq]
    exact h

/-- What is stored through `filesForDbStorage`, with secrets that a `.env` can hold. -/
theorem inStep_scrubbed_iff (hfiles : files.keys.Nodup) (hsecrets : StorableSecrets secrets) :
    InStep (filesForDbStorage files secrets) files secrets ↔ Unmasked secrets files ∧ HasSecrets secrets files := by
  have hwant (k : Str) : (parseEnvFile (envText (mergeSecretsIntoEnvFiles (filesForDbStorage files secrets) secrets))).get? k =
      ((secretValue secrets k).map readBack).or
        (if k ∈ secrets.keys then some [] else (parseEnvFile (maskText secrets (envText files))).get? k) := by
    rw [get?_parse_merged hsecrets, get?_parse_stored hsecrets]
  constructor
  · rintro ⟨htexts, henv⟩
    refine ⟨⟨(forall_stored_texts hfiles).1 htexts, fun k v hk hv hvalue => henv k v ?_ hvalue⟩,
      fun k v hv hvalue => henv k (readBack v) ?_ hvalue⟩
    · rw [hwant, if_neg hk, secretValue, Dict.get?_eq_none.2 hk, Option.filter_none, Option.map_none, Option.none_or, hv]
    · rw [hwant, hv]
      rfl
  · rintro ⟨⟨htexts, hpublic⟩, hhas⟩
    refine ⟨(forall_stored_texts hfiles).2 htexts, fun k v hv hvalue => ?_⟩
    rw [hwant] at hv
    cases hsecret : secretValue secrets k with
    | some w =>
      rw [hsecret] at hv
      obtain rfl := Option.some.inj hv
      exact hhas k w hsecret hvalue
    | none =>
      rw [hsecret, Option.map_none, Option.none_or] at hv
      split at hv
      · obtain rfl := Option.some.inj hv
        exact absurd rfl hvalue
      · rename_i hk
        exact hpublic k v hk hv hvalue

/-- A merge leaves every secret in the `.env`. -/
theorem hasSecrets_merged (hsecrets : StorableSecrets secrets) : HasSecrets secrets (mergeSecretsIntoEnvFiles files secrets) := by
  intro k v hv _
  rw [get?_parse_merged hsecrets, hv]
  rfl

/-- What is stored as it was written. -/
theorem inStep_written (hfiles : (mergeSecretsIntoEnvFiles files secrets).keys.Nodup) (hsecrets : StorableSecrets secrets) :
    InStep (mergeSecretsIntoEnvFiles files secrets) (mergeSecretsIntoEnvFiles files secrets) secrets := by
  refine ⟨fun f hf _ _ text htext => ?_, fun k v hv _ => ?_⟩
  · have heq := (Dict.get?_of_mem hfiles hf).symm.trans (Dict.get?_of_mem hfiles htext)
    rw [Option.some.inj heq]
  · rw [get?_parse_merged hsecrets] at hv
    rw [get?_parse_merged hsecrets] at hv ⊢
    cases hsecret : secretValue secrets k <;> rw [hsecret] at hv <;> exact hv

end

section
variable {K : Type} [DecidableEq K] {env : Surroundings K} {dep : StackDeployment K} {live : Dict Str Str}

theorem check_cases (hlive : env.live = some live) : checkDeploymentDrift env dep = .inSync ∨ checkDeploymentDrift env dep = .drifted := by
  unfold checkDeploymentDrift
  rw [hlive]
  dsimp only
  split
  · exact Or.inr rfl
  · exact Or.inl rfl

theorem check_inSync_iff (hlive : env.live = some live) :
    checkDeploymentDrift env dep = .inSync ↔
      live ≠ [] ∧ ∀ f ∈ mergeSecretsIntoEnvFiles dep.filesJson (decryptDeploymentSecrets env.key dep), fileDiffers live f.1 f.2 = false := by
  unfold checkDeploymentDrift
  rw [hlive]
  dsimp only
  by_cases h : live = [] ∨ ((mergeSecretsIntoEnvFiles dep.filesJson (decryptDeploymentSecrets env.key dep)).any fun f =>
      fileDiffers live f.1 f.2) = true
  · rw [if_pos h]
    refine iff_of_false (by simp) fun ⟨hne, hall⟩ => ?_
    rcases h with hnil | hany
    · exact hne hnil
    · obtain ⟨f, hf, hdiffers⟩ := List.any_eq_true.1 hany
      rw [hall f hf] at hdiffers
      cases hdiffers
  · rw [if_neg h]
    rw [not_or, List.any_eq_true] at h
    exact iff_of_true rfl ⟨h.1, fun f hf => by
      rw [← Bool.not_eq_true]
      exact fun hdiffers => h.2 ⟨f, hf, hdiffers⟩⟩

variable {files secrets : Dict Str Str}

/-- What was written and is read back is in sync exactly where what is stored is in step with it. -/
theorem inSync_iff (hstored : dep.filesJson.keys.Nodup) (hpaths : ∀ f ∈ dep.filesJson, f.1 ≠ envPath → f.1 ∈ files.keys)
    (hkey : decryptDeploymentSecrets env.key dep = secrets) (hlive : env.live = some live) (hne : live ≠ []) (hread : ReadsBack files live) :
    checkDeploymentDrift env dep = .inSync ↔ InStep dep.filesJson files secrets := by
  have htext : envText live = envText files := by rw [envText, hread.env]; rfl
  rw [check_inSync_iff hlive, and_iff_right hne, hkey, forall_mem_mergeSecrets hstored, envDiffers_eq_false, htext]
  constructor
  · rintro ⟨henv, htexts⟩
    exact ⟨fun f hf hpath hsecrets text htext =>
      (fileDiffers_eq_false hpath hsecrets (hread.all (f.1, text) htext)).1 (htexts f hf hpath hsecrets), henv⟩
  · rintro ⟨htexts, henv⟩
    refine ⟨henv, fun f hf hpath hsecrets => ?_⟩
    obtain ⟨g, hg, hgf⟩ := List.mem_map.1 (hpaths f hf hpath)
    have hmem : (f.1, g.2) ∈ files := hgf ▸ hg
    exact (fileDiffers_eq_false hpath hsecrets (hread.all (f.1, g.2) hmem)).2 (htexts f hf hpath hsecrets g.2 hmem)

/-! ## Drifted -/

theorem drifted_of_differs (path want : Str) (hlive : env.live = some live)
    (hmem : (path, want) ∈ mergeSecretsIntoEnvFiles dep.filesJson (decryptDeploymentSecrets env.key dep))
    (hdiffers : fileDiffers live path want = true) : checkDeploymentDrift env dep = .drifted := by
  refine (check_cases hlive).resolve_left fun hsync => ?_
  have hsame := ((check_inSync_iff hlive).1 hsync).2 (path, want) hmem
  rw [hdiffers] at hsame
  cases hsame

/-- A secret that the host's `.env` has another value for is seen. -/
theorem secret_change_drifts (hsecrets : StorableSecrets secrets) (hkey : decryptDeploymentSecrets env.key dep = secrets)
    (hlive : env.live = some live) {k v : Str} (hv : secretValue secrets k = some v) (hvalue : strip (readBack v) ≠ [])
    (hchange : (parseEnvFile (envText live)).get? k ≠ some (readBack v)) : checkDeploymentDrift env dep = .drifted := by
  refine drifted_of_differs envPath (envText (mergeSecretsIntoEnvFiles dep.filesJson secrets)) hlive ?_ ?_
  · rw [hkey]
    refine Dict.mem_of_get? ?_
    rw [envText, mergeSecretsIntoEnvFiles, Dict.get?_set, if_pos rfl]
    rfl
  · rw [← Bool.not_eq_false, envDiffers_eq_false]
    intro hall
    refine hchange (hall k (readBack v) ?_ hvalue)
    rw [get?_parse_merged hsecrets, hv]
    rfl

/-- A line of a compose file that is changed is seen, where it holds no secret. -/
theorem line_change_drifts (want : Str) {path text line : Str} {i : Nat} (hpath : path ∈ composeBasenames) (hlive : env.live = some live)
    (hnd : dep.filesJson.keys.Nodup) (hmem : (path, want) ∈ dep.filesJson) (hget : live.get? path = some (changeLine text i line))
    (hdiffers : normalizeComposeText want ≠ normalizeComposeText (changeLine text i line)) : checkDeploymentDrift env dep = .drifted := by
  obtain ⟨hnot, hstored⟩ := storedPath_of_compose hpath
  have hsecrets := not_secrets_of_stored hstored
  refine drifted_of_differs path want hlive ?_ ?_
  · exact (Dict.mem_set_iff (Dict.keys_filter_nodup hnd _)).2 (Or.inr ⟨List.mem_filter.2 ⟨hmem, by simp [hsecrets]⟩, hnot⟩)
  · rw [← Bool.not_eq_false, fileDiffers_eq_false hnot hsecrets hget]
    exact hdiffers

end

end PiHerder.Stacks
