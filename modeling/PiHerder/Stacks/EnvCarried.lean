import PiHerder.Stacks.Masking
import PiHerder.Stacks.ReadBack

/-!
# The `.env` on the host

`merge_secrets_into_env_files` reads the public body, puts the secrets that have a value over it and writes the whole file anew
(`deploy.py` 37–57). `carries_iff` says when the file reads as what it was given and loses no line.
-/
namespace PiHerder.Stacks
open Lib Lib.Str

/-- A line that is neither blank nor a comment, and no plain `KEY=value`. -/
def isOther (line : Str) : Bool := !isRemark line && (envFileLine (strip line)).isNone

/-- The merged `.env` reads as the secrets that have a value over the body, and has every line of the body that assigns nothing. -/
structure CarriesEnv (files secrets : Dict Str Str) : Prop where
  values : ∀ k, (parseEnvFile (envText (mergeSecretsIntoEnvFiles files secrets))).get? k =
    (secretValue secrets k).or ((parseEnvFile (envText files)).get? k)
  lines : ∀ line ∈ splitlines (envText files), isOther line = true →
    line ∈ splitlines (envText (mergeSecretsIntoEnvFiles files secrets))

/-- A value that a line of a `.env` can hold: one line that does not end in a blank. -/
def FitsLine (v : Str) : Prop := OneLine v ∧ rstripWhere isSpace v = v

instance (v : Str) : Decidable (FitsLine v) := inferInstanceAs (Decidable (_ ∧ _))

section
variable {files secrets : Dict Str Str}

theorem readBack_of_fits {v : Str} (h : FitsLine v) : readBack v = v := by
  rw [readBack, firstLine_of_oneLine h.1, h.2]

/-- What a `.env` is read as fits a line. -/
theorem fits_of_mem_parse {text : Str} {e : Str × Str} (h : e ∈ parseEnvFile text) : FitsLine e.2 := by
  have hone := oneLine_parseEnvFile text e h
  refine ⟨hone, ?_⟩
  have hread := readBack_of_mem_parse h
  rwa [readBack, firstLine_of_oneLine hone] at hread

theorem storable_of_fits {e : Str × Str} (hname : isName e.1 = true) (h : FitsLine e.2) : Storable e := by
  have hone : OneLine (envLine e) := oneLine_append_cons (oneLine_name hname) h.1
  refine ⟨hname, ?_⟩
  rw [show envLine e ++ ['\n'] = envLine e ++ '\n' :: [] from rfl, splitlines_append_newline hone]
  exact List.forall_mem_nil _

/-- A secret without a value is as none. -/
theorem mergeSecrets_filter : mergeSecretsIntoEnvFiles files (secrets.filter (·.2 ≠ [])) = mergeSecretsIntoEnvFiles files secrets := by
  unfold mergeSecretsIntoEnvFiles withSecrets
  rw [List.filter_filter]
  simp only [Bool.and_self]

theorem secretValue_filter (hnd : secrets.keys.Nodup) (k : Str) : secretValue (secrets.filter (·.2 ≠ [])) k = secretValue secrets k := by
  unfold secretValue
  rw [Dict.get?_filter_value (fun v : Str => decide (v ≠ [])) k hnd, Option.filter_filter]
  simp

theorem mem_filter_of_secretValue {k v : Str} (h : secretValue secrets k = some v) : (k, v) ∈ secrets ∧ v ≠ [] := by
  obtain ⟨hget, hne⟩ := Option.filter_eq_some_iff.1 h
  exact ⟨Dict.mem_of_get? hget, by simpa using hne⟩

/-- The body, as the merging reads it. -/
theorem envText_kept : envText (files.filter fun f => !startsWith (lit "secrets/") f.1) = envText files :=
  envText_filter (p := fun path => !startsWith (lit "secrets/") path) (by decide)

/-- Nothing is written anew: the body has no assignment and no secret a value. -/
theorem withSecrets_eq_nil (hnd : secrets.keys.Nodup) :
    withSecrets (parseEnvFile (envText files)) secrets = [] ↔ parseEnvFile (envText files) = [] ∧ ∀ e ∈ secrets, e.2 = [] := by
  constructor
  · intro h
    have hget := fun k => get?_withSecrets hnd (parseEnvFile (envText files)) k
    rw [h] at hget
    have hboth : ∀ k, secretValue secrets k = none ∧ (parseEnvFile (envText files)).get? k = none := fun k =>
      Option.or_eq_none_iff.1 (hget k).symm
    refine ⟨Dict.eq_nil_of_get?_none fun k => (hboth k).2, fun e he => ?_⟩
    by_contra hne
    have hvalue : secretValue secrets e.1 = some e.2 :=
      Option.filter_eq_some_iff.2 ⟨Dict.get?_of_mem hnd he, by simpa using hne⟩
    rw [(hboth e.1).1] at hvalue
    cases hvalue
  · rintro ⟨hparse, hsecrets⟩
    rw [withSecrets, hparse, List.filter_eq_nil_iff.2 fun e he => by simpa using hsecrets e he]
    rfl

/-- Every line that is written anew is an assignment. -/
theorem not_isOther_of_written {d : Dict Str Str} (h : ∀ e ∈ d, isName e.1 = true ∧ OneLine e.2) {line : Str}
    (hline : line ∈ splitlines (formatEnvFile d)) : isOther line = false := by
  have hone : ∀ e ∈ d, OneLine (envLine e) := fun e he => oneLine_append_cons (oneLine_name (h e he).1) (h e he).2
  obtain ⟨e, he, rfl⟩ := (mem_splitlines_formatEnvFile hone).1 hline
  have hassigned : assigned (envLine e) = some (e.1, rstripWhere isSpace e.2) := assigned_envLine (h e he).1 e.2
  unfold assigned at hassigned
  split at hassigned
  · cases hassigned
  · simp [isOther, hassigned]

/-- **What a `.env` carries.** It reads as the secrets over the body and loses no line exactly where every secret with a value has a
name for a key and a value that fits a line, and the body has only assignments, unless nothing is written anew. -/
theorem carriesEnv_iff (files : Dict Str Str) (secrets : Mapping Str Str) :
    CarriesEnv files secrets.items ↔
      (∀ e ∈ secrets.items, e.2 ≠ [] → isName e.1 = true ∧ FitsLine e.2) ∧
        ((∀ e ∈ secrets.items, e.2 = []) ∧ parseEnvFile (envText files) = [] ∨
          ∀ line ∈ splitlines (envText files), isOther line = false) := by
  constructor
  · intro h
    have hfit : ∀ e ∈ secrets.items, e.2 ≠ [] → isName e.1 = true ∧ FitsLine e.2 := by
      intro e he hne
      have hvalue : secretValue secrets.items e.1 = some e.2 :=
        Option.filter_eq_some_iff.2 ⟨Dict.get?_of_mem secrets.nodup he, by simpa using hne⟩
      have hget := h.values e.1
      rw [hvalue, Option.some_or] at hget
      have hmem := Dict.mem_of_get? hget
      exact ⟨(mem_parseEnvFile _ hmem).1, fits_of_mem_parse hmem⟩
    refine ⟨hfit, ?_⟩
    by_cases hnil : withSecrets (parseEnvFile (envText files)) secrets.items = []
    · exact Or.inl ((withSecrets_eq_nil secrets.nodup).1 hnil).symm
    · refine Or.inr fun line hline => ?_
      by_contra hother
      have hkept := h.lines line hline (by simpa using hother)
      rw [envText, mergeSecretsIntoEnvFiles, Dict.get?_set, if_pos rfl, Option.getD_some, envText_kept, if_neg hnil] at hkept
      refine hother (not_isOther_of_written (fun e he => ?_) hkept)
      rcases Dict.mem_update he with he | he
      · exact ⟨(mem_parseEnvFile e he).1, oneLine_parseEnvFile _ e he⟩
      · obtain ⟨hmem, hne⟩ := List.mem_filter.1 he
        obtain ⟨hname, hfits⟩ := hfit e hmem (by simpa using hne)
        exact ⟨hname, hfits.1⟩
  · rintro ⟨hfit, hlines⟩
    have hstorable : StorableSecrets (secrets.items.filter (·.2 ≠ [])) := by
      refine ⟨Dict.keys_filter_nodup secrets.nodup _, fun e he => ?_⟩
      obtain ⟨hmem, hne⟩ := List.mem_filter.1 he
      obtain ⟨hname, hfits⟩ := hfit e hmem (by simpa using hne)
      exact storable_of_fits hname hfits
    constructor
    · intro k
      have hget := @get?_parse_merged files _ hstorable k
      rw [mergeSecrets_filter, secretValue_filter secrets.nodup] at hget
      rw [hget]
      cases hvalue : secretValue secrets.items k with
      | none => rfl
      | some v =>
        obtain ⟨hmem, hne⟩ := mem_filter_of_secretValue hvalue
        rw [Option.map_some, readBack_of_fits (hfit _ hmem hne).2]
    · intro line hline hother
      rcases hlines with hnone | hlines
      · rw [envText, mergeSecretsIntoEnvFiles, Dict.get?_set, if_pos rfl, Option.getD_some, envText_kept,
          if_pos ((withSecrets_eq_nil secrets.nodup).2 hnone.symm)]
        exact hline
      · rw [hlines line hline] at hother
        cases hother

end

/-- A password of two lines: the second is an assignment of its own. -/
theorem second_line_assigns :
    ¬ CarriesEnv [(envPath, lit "export TZ=UTC\n")] [(lit "DB_PASSWORD", lit "s3cret\nADMIN=true")] := by
  intro h
  have hget := h.values (lit "ADMIN")
  revert hget
  decide +kernel

end PiHerder.Stacks
