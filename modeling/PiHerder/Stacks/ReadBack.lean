import PiHerder.Stacks.Scrubbing

/-!
# Reading a `.env` back

What `format_env_file` writes reads as what it was given, where no value brings an assignment of its own: `get?_parse_format`. A
value is read as its first line, without the blanks at the end. `get?_parse_merged` and `get?_parse_stored` say how the `.env`
reads that `merge_secrets_into_env_files` and `files_for_db_storage` make.
-/
namespace PiHerder.Stacks
open Lib Lib.Str

/-! ## One line -/

/-- A line's assignment. -/
def assigned (line : Str) : Option (Str × Str) := if isRemark line then none else envFileLine (strip line)

theorem parseEnvFile_eq (text : Str) : parseEnvFile text = Dict.update [] ((splitlines text).filterMap assigned) := by
  rw [Dict.update, List.foldl_filterMap, parseEnvFile]
  congr 1
  funext out line
  unfold assigned
  by_cases h : isRemark line = true
  · rw [if_pos h, if_pos h]
  · rw [if_neg h, if_neg h]
    cases envFileLine (strip line) <;> rfl

/-- As a value of a `.env` is read. -/
def readBack (v : Str) : Str := rstripWhere isSpace (firstLine v)

/-- Written for a key that is a name, a value brings no other assignment. -/
def Storable (e : Str × Str) : Prop :=
  isName e.1 = true ∧ ∀ line ∈ (splitlines (envLine e ++ ['\n'])).tail, assigned line = none

instance (e : Str × Str) : Decidable (Storable e) := inferInstanceAs (Decidable (_ ∧ ∀ line ∈ (splitlines (envLine e ++ ['\n'])).tail, _))

theorem oneLine_name {k : Str} (h : isName k = true) : OneLine k := by
  intro c hc
  rw [← Bool.not_eq_true]
  exact fun hend => notMem_of_isName h (isNameChar_of_isSpace (isSpace_of_endsLine hend)) hc

theorem strip_assignment {k : Str} (h : isName k = true) (v : Str) : strip (envLine (k, v)) = envLine (k, rstripWhere isSpace v) := by
  rw [envLine, strip_append (by decide), lstrip_name h]
  rfl

theorem assigned_envLine {k : Str} (h : isName k = true) (v : Str) : assigned (envLine (k, v)) = some (k, rstripWhere isSpace v) := by
  have hremark : isRemark (envLine (k, v)) = false := by
    cases k with
    | nil => cases h
    | cons c k =>
      have hc : c ≠ '#' := by
        rintro rfl
        exact notMem_of_isName h (by decide) List.mem_cons_self
      rw [isRemark, strip_assignment h]
      simp [envLine, hc]
  rw [assigned, if_neg (by rw [hremark]; exact Bool.false_ne_true)]
  exact envFileLine_eq_some.2 ⟨strip_assignment h v, h⟩

/-- The first line of an assignment has the first line of its value. -/
theorem splitlines_envLine {e : Str × Str} (h : isName e.1 = true) :
    splitlines (envLine e ++ ['\n']) = envLine (e.1, firstLine e.2) :: (splitlines (envLine e ++ ['\n'])).tail := by
  have hhead : (splitlines (envLine e ++ ['\n'])).head? = some (envLine (e.1, firstLine e.2)) := by
    have hkey : OneLine (e.1 ++ ['=']) := by
      intro c hc
      rcases List.mem_append.1 hc with hc | hc
      · exact oneLine_name h c hc
      · rw [List.mem_singleton.1 hc]
        decide
    have heq : envLine e = (e.1 ++ ['=']) ++ e.2 := by simp [envLine]
    rw [head_splitlines (by simp), firstLine_newline, heq, firstLine_append hkey]
    simp [envLine]
  cases hlines : splitlines (envLine e ++ ['\n']) with
  | nil =>
    rw [hlines] at hhead
    cases hhead
  | cons l ls =>
    rw [hlines] at hhead
    rw [List.tail_cons, Option.some.inj hhead]

theorem filterMap_assigned {e : Str × Str} (h : Storable e) :
    (splitlines (envLine e ++ ['\n'])).filterMap assigned = [(e.1, readBack e.2)] := by
  rw [splitlines_envLine h.1, List.filterMap_cons, assigned_envLine h.1, List.filterMap_eq_nil_iff.2 h.2]
  rfl

/-! ## A whole file -/

theorem splitlines_flatMap_newline : ∀ ls : List Str, splitlines (ls.flatMap (· ++ ['\n'])) = ls.flatMap fun l => splitlines (l ++ ['\n'])
  | [] => rfl
  | l :: ls => by
    rw [List.flatMap_cons, List.append_assoc, List.singleton_append, splitlines_append, splitlines_flatMap_newline ls, List.flatMap_cons]

/-- Where the lines of each item have one assignment, to its key, the file has these. -/
theorem get?_update_blocks {d : Dict Str Str} (hd : d.keys.Nodup) (lines : Str × Str → List Str) (value : Str → Str → Str)
    (h : ∀ e ∈ d, (lines e).filterMap assigned = [(e.1, value e.1 e.2)]) (k : Str) :
    Dict.get? k (Dict.update [] (((d.insertionSort fun a b => a.1 ≤ b.1).flatMap lines).filterMap assigned)) = (d.get? k).map (value k) := by
  have hperm := List.perm_insertionSort (fun a b : Str × Str => a.1 ≤ b.1) d
  have hassigned : ∀ es : Dict Str Str, (∀ e ∈ es, e ∈ d) → (es.flatMap lines).filterMap assigned = es.map fun e => (e.1, value e.1 e.2) := by
    intro es hes
    induction es with
    | nil => rfl
    | cons e es ih =>
      rw [List.flatMap_cons, List.filterMap_append, h e (hes e List.mem_cons_self), ih fun x hx => hes x (List.mem_cons_of_mem _ hx)]
      rfl
  rw [hassigned _ fun e he => hperm.mem_iff.1 he, Dict.get?_update, Dict.get?_map_item, Dict.get?_perm hd hperm.symm]
  · exact Option.or_none
  · rw [Dict.keys, List.map_map]
    exact (hperm.map Prod.fst).nodup_iff.2 hd

/-- What is written reads as what it was given. -/
theorem get?_parse_format {d : Dict Str Str} (hd : d.keys.Nodup) (h : ∀ e ∈ d, Storable e) (k : Str) :
    (parseEnvFile (formatEnvFile d)).get? k = (d.get? k).map readBack := by
  rw [parseEnvFile_eq, formatEnvFile_eq, splitlines_flatMap_newline, List.flatMap_map]
  exact get?_update_blocks hd (fun e => splitlines (envLine e ++ ['\n'])) (fun _ v => readBack v) (fun e he => filterMap_assigned (h e he)) k

/-- What was read is written back as it reads. -/
theorem storable_of_mem_parse {text : Str} {e : Str × Str} (h : e ∈ parseEnvFile text) : Storable e := by
  refine ⟨(mem_parseEnvFile e h).1, ?_⟩
  rw [show envLine e ++ ['\n'] = envLine e ++ '\n' :: [] from rfl, splitlines_append_newline (oneLine_envLine h)]
  exact List.forall_mem_nil _

theorem readBack_of_mem_parse {text : Str} {e : Str × Str} (h : e ∈ parseEnvFile text) : readBack e.2 = e.2 := by
  obtain ⟨-, line, -, heq⟩ := mem_parseEnvFile e h
  have hone : OneLine e.2 := fun c hc => oneLine_envLine h c (by simp [envLine, hc])
  have hstrip : strip (envLine (e.1, e.2)) = envLine (e.1, e.2) := by
    rw [show envLine (e.1, e.2) = strip line from heq.symm, strip_strip]
  rw [strip_assignment (mem_parseEnvFile e h).1] at hstrip
  rw [readBack, firstLine_of_oneLine hone]
  simpa [envLine] using hstrip

/-! ## Merged and stored -/

/-- Secrets that a `.env` can hold, each as one assignment. -/
structure StorableSecrets (secrets : Dict Str Str) : Prop where
  nodup : secrets.keys.Nodup
  items : ∀ e ∈ secrets, Storable e

/-- A secret's value, where there is one. -/
def secretValue (secrets : Dict Str Str) (k : Str) : Option Str := (secrets.get? k).filter (· ≠ [])

section
variable {files secrets : Dict Str Str}

theorem get?_withSecrets (hnd : secrets.keys.Nodup) (env : Dict Str Str) (k : Str) :
    (withSecrets env secrets).get? k = (secretValue secrets k).or (env.get? k) := by
  change Dict.get? k (Dict.update env (secrets.filter (·.2 ≠ []))) = _
  rw [Dict.get?_update (Dict.keys_filter_nodup hnd _), Dict.get?_filter_value (fun v : Str => decide (v ≠ [])) k hnd]
  rfl

theorem envText_filter {p : Str → Bool} (h : p envPath = true) : envText (files.filter fun f => p f.1) = envText files := by
  rw [envText, Dict.get?_filter_key, if_pos h]
  rfl

theorem withSecrets_storable (h : StorableSecrets secrets) (text : Str) : ∀ e ∈ withSecrets (parseEnvFile text) secrets, Storable e := by
  intro e he
  rcases Dict.mem_update he with he | he
  · exact storable_of_mem_parse he
  · exact h.items e (List.mem_filter.1 he).1

/-- The `.env` with the secrets in it. -/
theorem get?_parse_merged (h : StorableSecrets secrets) (k : Str) :
    (parseEnvFile (envText (mergeSecretsIntoEnvFiles files secrets))).get? k =
      ((secretValue secrets k).map readBack).or ((parseEnvFile (envText files)).get? k) := by
  have hout : envText (files.filter fun f => !startsWith (lit "secrets/") f.1) = envText files :=
    envText_filter (p := fun path => !startsWith (lit "secrets/") path) (by decide)
  have hread : (Dict.get? k (withSecrets (parseEnvFile (envText files)) secrets)).map readBack =
      ((secretValue secrets k).map readBack).or ((parseEnvFile (envText files)).get? k) := by
    rw [get?_withSecrets h.nodup, Option.map_or]
    congr 1
    cases hk : (parseEnvFile (envText files)).get? k with
    | none => rfl
    | some v => exact congrArg some (readBack_of_mem_parse (Dict.mem_of_get? hk))
  rw [envText, mergeSecretsIntoEnvFiles, Dict.get?_set, if_pos rfl, Option.getD_some, hout, ← hread]
  split
  · rename_i hnil
    -- Nothing is written: the file had no assignment either.
    rw [hnil]
    have hnone := get?_withSecrets h.nodup (parseEnvFile (envText files)) k
    rw [hnil] at hnone
    cases hv : secretValue secrets k with
    | some v =>
      rw [hv] at hnone
      cases hnone
    | none =>
      rw [hv, Option.none_or] at hnone
      exact hnone.symm
  · exact get?_parse_format (Dict.keys_update_nodup (nodup_parseEnvFile _) _) (withSecrets_storable h _) k

/-- The `.env` as it is stored. -/
theorem get?_parse_stored (h : StorableSecrets secrets) (k : Str) :
    (parseEnvFile (envText (filesForDbStorage files secrets))).get? k =
      if k ∈ secrets.keys then some [] else (parseEnvFile (maskText secrets (envText files))).get? k := by
  have hout : envText (files.filter fun f => !startsWith (lit "secrets/") (f.1.map fun c => if c = '\\' then '/' else c)) = envText files :=
    envText_filter (p := fun path => !startsWith (lit "secrets/") (path.map fun c => if c = '\\' then '/' else c)) (by decide)
  have hstored : storedEnv files secrets = emptied (parseEnvFile (maskText secrets (envText files))) secrets := by
    rw [storedEnv, envText_maskSecretsInFiles, hout]
  have hitems : ∀ e ∈ storedEnv files secrets, Storable e := by
    intro e he
    rw [hstored] at he
    rcases mem_emptied (nodup_parseEnvFile _) he with ⟨hk, hnil⟩ | ⟨-, he⟩
    · obtain ⟨e', he', hkey⟩ := List.mem_map.1 hk
      have hname := (h.items e' he').1
      rw [hkey] at hname
      refine ⟨hname, ?_⟩
      have hone : OneLine (envLine e) := by
        rw [envLine, hnil]
        exact oneLine_append_cons (oneLine_name hname) (List.forall_mem_nil _)
      rw [show envLine e ++ ['\n'] = envLine e ++ '\n' :: [] from rfl, splitlines_append_newline hone]
      exact List.forall_mem_nil _
    · exact storable_of_mem_parse he
  rw [envText_filesForDbStorage, get?_parse_format (hstored ▸ nodup_emptied (nodup_parseEnvFile _) _) hitems, hstored, get?_emptied]
  split
  · rfl
  · cases hk : (parseEnvFile (maskText secrets (envText files))).get? k with
    | none => rfl
    | some v => exact congrArg some (readBack_of_mem_parse (Dict.mem_of_get? hk))

end

end PiHerder.Stacks
