import PiHerder.Lib.Lines
import PiHerder.Stacks.Storage

/-!
# What scrubbing leaves

`filesForDbStorage` replaces the secret values in every file and rebuilds the `.env` from its keys. `filesForDbStorage_clean`:
no value is left where none is a part of the mask or of the `.env` as it is rebuilt.
-/
namespace PiHerder.Stacks
open Lib Lib.Str

/-! ## Masking -/

theorem mem_maskedValues {secrets : Dict Str Str} {v : Str} : v ∈ maskedValues secrets ↔ (∃ k, (k, v) ∈ secrets) ∧ 4 ≤ v.length := by
  rw [maskedValues, (List.perm_insertionSort _ _).mem_iff, List.mem_filter, decide_eq_true_iff]
  exact and_congr_left fun _ => ⟨fun h => by
    obtain ⟨⟨k, w⟩, hmem, rfl⟩ := List.mem_map.1 h
    exact ⟨k, hmem⟩, fun ⟨k, hmem⟩ => List.mem_map.2 ⟨(k, v), hmem, rfl⟩⟩

theorem infix_of_infix_foldl_replaceAll {q : Str} (hq : Apart secretMask q) : ∀ {values : List Str} {text : Str},
    q <:+: values.foldl (fun text value => replaceAll value secretMask text) text → q <:+: text
  | [], _, h => h
  | _ :: values, _, h => by
    rw [List.foldl_cons] at h
    exact infix_of_infix_replaceAll hq (infix_of_infix_foldl_replaceAll hq h)

/-- A value that is apart from the mask is masked out. -/
theorem not_infix_maskText {secrets : Dict Str Str} {v : Str} (hv : v ∈ maskedValues secrets) (hapart : Apart secretMask v) (text : Str) :
    ¬ v <:+: maskText secrets text := by
  have hne : v ≠ [] := by
    rintro rfl
    exact absurd (mem_maskedValues.1 hv).2 (by decide)
  intro h
  rw [maskText] at h
  obtain ⟨before, after, hsplit⟩ := List.append_of_mem hv
  rw [hsplit, List.foldl_append, List.foldl_cons] at h
  exact not_infix_replaceAll hne hapart _ (infix_of_infix_foldl_replaceAll hapart h)

/-! ## Assignments -/

/-- `KEY=value`. -/
def envLine (e : Str × Str) : Str := e.1 ++ '=' :: e.2

theorem formatEnvFile_eq (values : Dict Str Str) :
    formatEnvFile values = ((values.insertionSort fun a b => a.1 ≤ b.1).map envLine).flatMap (· ++ ['\n']) := by
  rw [formatEnvFile, List.flatMap_map]
  rfl

theorem mem_splitlines_formatEnvFile {values : Dict Str Str} (h : ∀ e ∈ values, OneLine (envLine e)) {line : Str} :
    line ∈ splitlines (formatEnvFile values) ↔ ∃ e ∈ values, envLine e = line := by
  have hsorted : ∀ e, e ∈ values.insertionSort (fun a b => a.1 ≤ b.1) ↔ e ∈ values := fun e => (List.perm_insertionSort _ _).mem_iff
  rw [formatEnvFile_eq, splitlines_flatMap]
  · simp only [List.mem_map, hsorted]
  · intro l hl
    obtain ⟨e, he, rfl⟩ := List.mem_map.1 hl
    exact h e ((hsorted e).1 he)

/-- A text without a newline stands in one of the lines. -/
theorem infix_flatMap_newline {q : Str} (hne : q ≠ []) (hq : '\n' ∉ q) : ∀ {lines : List Str}, q <:+: lines.flatMap (· ++ ['\n']) →
    ∃ l ∈ lines, q <:+: l
  | [], h => absurd (List.infix_nil.1 h) hne
  | l :: lines, h => by
    rw [List.flatMap_cons, List.append_assoc, List.singleton_append] at h
    rcases infix_of_append_cons hq h with hl | hrest
    · exact ⟨l, List.mem_cons_self, hl⟩
    · obtain ⟨k, hk, hin⟩ := infix_flatMap_newline hne hq hrest
      exact ⟨k, List.mem_cons_of_mem _ hk, hin⟩

/-- A text between two newlines is one of the lines. -/
theorem mem_of_infix_flatMap_newline {l : Str} (hl : '\n' ∉ l) : ∀ {lines : List Str}, (∀ m ∈ lines, '\n' ∉ m) →
    '\n' :: l ++ ['\n'] <:+: lines.flatMap (· ++ ['\n']) → l ∈ lines
  | [], _, h => by simp at h
  | m :: lines, hlines, h => by
    have hrest := fun m' hm' => hlines m' (List.mem_cons_of_mem m hm')
    rw [List.flatMap_cons, List.append_assoc, List.singleton_append] at h
    -- It begins with a newline, so not inside `m`.
    rcases List.infix_cons_iff.1 (infix_of_infix_append (not_beginsIn_of_notMem (hlines m List.mem_cons_self)) h) with hpre | hin
    · obtain ⟨after, heq⟩ := (List.cons_prefix_cons.1 hpre).2
      cases lines with
      | nil => simp at heq
      | cons m' lines =>
        have heq : l ++ '\n' :: after = m' ++ '\n' :: lines.flatMap (· ++ ['\n']) := by simpa using heq
        have hfirst := congrArg (List.takeWhile (· != '\n')) heq
        rw [takeWhile_append_cons hl, takeWhile_append_cons (hrest m' List.mem_cons_self)] at hfirst
        exact hfirst ▸ List.mem_cons_of_mem m List.mem_cons_self
    · exact List.mem_cons_of_mem m (mem_of_infix_flatMap_newline hl hrest hin)

/-- A text without a newline stands in one of the assignments. -/
theorem infix_formatEnvFile {values : Dict Str Str} {q : Str} (hne : q ≠ []) (hq : '\n' ∉ q) (h : q <:+: formatEnvFile values) :
    ∃ e ∈ values, q <:+: envLine e := by
  rw [formatEnvFile_eq] at h
  obtain ⟨l, hl, hin⟩ := infix_flatMap_newline hne hq h
  obtain ⟨e, he, rfl⟩ := List.mem_map.1 hl
  exact ⟨e, (List.perm_insertionSort _ _).mem_iff.1 he, hin⟩

theorem notMem_of_isName {k : Str} (h : isName k = true) {c : Char} (hc : isNameChar c = false) : c ∉ k := by
  intro hmem
  cases k with
  | nil => cases hmem
  | cons d k =>
    simp only [isName, Bool.and_eq_true] at h
    rcases List.mem_cons.1 hmem with rfl | hmem
    · simp [isNameChar, h.1] at hc
    · rw [List.all_eq_true.1 h.2 c hmem] at hc
      cases hc

theorem isNameChar_of_isSpace {c : Char} (h : isSpace c = true) : isNameChar c = false := by
  simp only [isSpace, Bool.or_eq_true, Bool.and_eq_true, decide_eq_true_eq, beq_iff_eq] at h
  simp only [isNameChar, isNameStart, isDigit, Bool.or_eq_false_iff, decide_eq_false_iff_not, beq_eq_false_iff_ne, Char.le_def,
    UInt32.le_iff_toNat_le, ne_eq, ← Char.toNat_inj]
  have hnat : c.val.toNat = c.toNat := rfl
  simp only [hnat]
  refine ⟨⟨⟨?_, ?_⟩, ?_⟩, ?_⟩ <;> simp only [Char.reduceToNat, Char.reduceVal, UInt32.reduceToNat] <;> omega

/-- Names have no blanks around them. -/
theorem lstrip_name {k : Str} (h : isName k = true) : lstripWhere isSpace k = k := by
  cases k with
  | nil => rfl
  | cons c k =>
    have hc : isSpace c = false := by
      rw [← Bool.not_eq_true]
      intro hspace
      exact notMem_of_isName h (isNameChar_of_isSpace hspace) List.mem_cons_self
    exact List.dropWhile_cons_of_neg (by simp [hc])

/-- A line is read as an assignment to a name. -/
theorem envFileLine_eq_some {s k v : Str} : envFileLine s = some (k, v) ↔ s = envLine (k, v) ∧ isName k = true := by
  unfold envFileLine envLine
  constructor
  · intro h
    obtain ⟨hsplit, hname⟩ := Option.filter_eq_some_iff.1 h
    unfold splitOnce at hsplit
    split at hsplit
    · rename_i hmem
      obtain ⟨rfl, rfl⟩ := Prod.mk.inj (Option.some.inj hsplit)
      exact ⟨(parted hmem).symm, hname⟩
    · cases hsplit
  · rintro ⟨rfl, hname⟩
    rw [splitOnce_append_cons (notMem_of_isName hname (by decide))]
    exact Option.filter_eq_some_iff.2 ⟨rfl, hname⟩

/-- Every assignment of a file stands on a line of it. -/
theorem mem_parseEnvFile {text : Str} : ∀ e ∈ parseEnvFile text, isName e.1 = true ∧ ∃ line ∈ splitlines text, strip line = envLine e := by
  refine parseEnvFile_induction (P := fun out => ∀ e ∈ out, isName e.1 = true ∧ ∃ line ∈ splitlines text, strip line = envLine e)
    (fun e he => nomatch he) ?_
  intro out line k v hline hkv hout e he
  rcases Dict.mem_set he with rfl | he
  · obtain ⟨heq, hname⟩ := envFileLine_eq_some.1 hkv
    exact ⟨hname, line, hline, heq⟩
  · exact hout e he

theorem envLine_infix {text : Str} {e : Str × Str} (h : e ∈ parseEnvFile text) : envLine e <:+: text := by
  obtain ⟨-, line, hline, heq⟩ := mem_parseEnvFile e h
  rw [← heq]
  exact (infix_of_strip line).trans (infix_of_mem_splitlines hline)

theorem oneLine_envLine {text : Str} {e : Str × Str} (h : e ∈ parseEnvFile text) : OneLine (envLine e) := by
  obtain ⟨-, line, hline, heq⟩ := mem_parseEnvFile e h
  rw [← heq]
  exact fun c hc => oneLine_of_mem_splitlines hline c (mem_of_mem_strip hc)

/-! ## Scrubbing -/

theorem get?_emptied (env secrets : Dict Str Str) (k : Str) :
    (emptied env secrets).get? k = if k ∈ secrets.keys then some [] else env.get? k := by
  have heq : emptied env secrets = secrets.keys.foldl (fun env k => env.set k []) env := by
    rw [Dict.keys, List.foldl_map]
    rfl
  have hstep (s : Dict Str Str) (name k : Str) : Dict.get? k (id (s.set name [])) = (if k = name then some [] else none).or (Dict.get? k (id s)) := by
    by_cases hk : k = name <;> simp [Dict.get?_set, hk]
  have hkeys := Dict.get?_foldl_keys (fun env k => Dict.set k [] env) id (fun _ => some []) hstep k secrets.keys env
  rw [heq]
  split
  · rename_i hk
    exact hkeys.1 hk
  · rename_i hk
    exact hkeys.2 hk

theorem nodup_emptied {env : Dict Str Str} (h : env.keys.Nodup) (secrets : Dict Str Str) : (emptied env secrets).keys.Nodup := by
  refine List.foldlRecOn (motive := fun env : Dict Str Str => env.keys.Nodup) secrets _ h fun env henv e _ => ?_
  exact Dict.keys_set_nodup henv

/-- A secret's key has no value; another item was there. -/
theorem mem_emptied {env secrets : Dict Str Str} (henv : env.keys.Nodup) {e : Str × Str} (he : e ∈ emptied env secrets) :
    (e.1 ∈ secrets.keys ∧ e.2 = []) ∨ (e.1 ∉ secrets.keys ∧ e ∈ env) := by
  have hget := Dict.get?_of_mem (nodup_emptied henv secrets) he
  rw [get?_emptied] at hget
  split at hget
  · rename_i hk
    exact Or.inl ⟨hk, (Option.some.inj hget).symm⟩
  · rename_i hk
    exact Or.inr ⟨hk, Dict.mem_of_get? hget⟩

/-- No file has a secret's value: not as that of its key, and one of four characters nowhere. -/
def Clean (secrets files : Dict Str Str) : Prop :=
  ∀ k v, secrets.get? k = some v →
    (v ≠ [] → (parseEnvFile (envText files)).get? k ≠ some v) ∧ (4 ≤ v.length → ∀ f ∈ files, ¬ v <:+: f.2)

/-- Neither a part of what is written for a key, nor with a line of its own that assigns nothing. -/
def StaysOut (keys : List Str) (v : Str) : Prop :=
  ('\n' ∉ v ∧ ∀ k ∈ keys, ¬ v <:+: k ++ ['=']) ∨ ∃ line ∈ split '\n' v, '=' ∉ line ∧ '\n' :: line ++ ['\n'] <:+: v

instance (keys : List Str) (v : Str) : Decidable (StaysOut keys v) := inferInstanceAs (Decidable (_ ∨ ∃ line ∈ split '\n' v, _))

/-- Keys that stay on their own line, and values that the mask does not touch and a `.env` of keys does not hold. -/
structure Scrubbable (secrets : Dict Str Str) : Prop where
  keys : ∀ k ∈ secrets.keys, OneLine k ∧ '=' ∉ k
  values : ∀ e ∈ secrets, 4 ≤ e.2.length → Apart secretMask e.2 ∧ StaysOut secrets.keys e.2

/-- The `.env` as it is stored, before it is written out. -/
def storedEnv (files secrets : Dict Str Str) : Dict Str Str :=
  emptied (parseEnvFile (envText (maskSecretsInFiles
    (files.filter fun f => !startsWith (lit "secrets/") (f.1.map fun c => if c = '\\' then '/' else c)) secrets))) secrets

theorem envText_filesForDbStorage (files secrets : Dict Str Str) :
    envText (filesForDbStorage files secrets) = formatEnvFile (storedEnv files secrets) := by
  rw [envText, filesForDbStorage, Dict.get?_set, if_pos rfl]
  rfl

theorem maskText_nil (secrets : Dict Str Str) : maskText secrets [] = [] := by
  unfold maskText
  exact List.foldlRecOn (motive := (· = [])) (maskedValues secrets) _ rfl fun text htext value _ => by rw [htext]; rfl

theorem envText_maskSecretsInFiles (files secrets : Dict Str Str) :
    envText (maskSecretsInFiles files secrets) = maskText secrets (envText files) := by
  rw [envText, envText, maskSecretsInFiles, Dict.get?_map_value]
  cases files.get? envPath with
  | none => exact (maskText_nil secrets).symm
  | some text => rfl

theorem mem_storedEnv {files secrets : Dict Str Str} {e : Str × Str} (he : e ∈ storedEnv files secrets) :
    (e.1 ∈ secrets.keys ∧ e.2 = []) ∨
      (e.1 ∉ secrets.keys ∧ isName e.1 = true ∧ OneLine (envLine e) ∧ ∃ text, envLine e <:+: maskText secrets text) := by
  rcases mem_emptied (nodup_parseEnvFile _) he with h | ⟨hk, he⟩
  · exact Or.inl h
  · refine Or.inr ⟨hk, (mem_parseEnvFile e he).1, oneLine_envLine he, ?_⟩
    have hin := envLine_infix he
    rw [envText_maskSecretsInFiles] at hin
    exact ⟨_, hin⟩

theorem oneLine_append_cons {a b : Str} (ha : OneLine a) (hb : OneLine b) : OneLine (a ++ '=' :: b) := by
  intro c hc
  rcases List.mem_append.1 hc with hc | hc
  · exact ha c hc
  · rcases List.mem_cons.1 hc with rfl | hc
    · decide
    · exact hb c hc

theorem oneLine_storedEnv {files secrets : Dict Str Str} (h : ∀ k ∈ secrets.keys, OneLine k) :
    ∀ e ∈ storedEnv files secrets, OneLine (envLine e) := by
  intro e he
  rcases mem_storedEnv he with ⟨hk, hv⟩ | ⟨-, -, hone, -⟩
  · rw [envLine, hv]
    exact oneLine_append_cons (h e.1 hk) fun c hc => nomatch hc
  · exact hone

/-- An assignment reads back as its key without blanks before it and its value without blanks behind it. -/
theorem strip_envLine {e f : Str × Str} (he : '=' ∉ e.1) (hf : '=' ∉ f.1) (h : strip (envLine e) = envLine f) :
    f.1 = lstripWhere isSpace e.1 ∧ f.2 = rstripWhere isSpace e.2 := by
  rw [envLine, strip_append (by decide), envLine] at h
  have hnot : '=' ∉ lstripWhere isSpace e.1 := fun hin => he ((List.dropWhile_sublist _).mem hin)
  have hkey := congrArg (List.takeWhile (· != '=')) h
  have hvalue := congrArg (fun s : Str => (s.dropWhile (· != '=')).tail) h
  rw [takeWhile_append_cons hnot, takeWhile_append_cons hf] at hkey
  rw [dropWhile_append_cons hnot, dropWhile_append_cons hf] at hvalue
  exact ⟨hkey.symm, hvalue.symm⟩

/-- A secret's key is stored without a value. -/
theorem parse_storedEnv {files secrets : Dict Str Str} (h : ∀ k ∈ secrets.keys, OneLine k ∧ '=' ∉ k) {k v : Str}
    (hk : k ∈ secrets.keys) (hv : (parseEnvFile (formatEnvFile (storedEnv files secrets))).get? k = some v) : v = [] := by
  obtain ⟨hname, line, hline, hstrip⟩ := mem_parseEnvFile _ (Dict.mem_of_get? hv)
  obtain ⟨e, he, rfl⟩ := (mem_splitlines_formatEnvFile (oneLine_storedEnv fun k hk => (h k hk).1)).1 hline
  have hkey : '=' ∉ k := notMem_of_isName hname (by decide)
  rcases mem_storedEnv he with ⟨hmem, hnil⟩ | ⟨hmem, hname', -, -⟩
  · obtain ⟨-, hvalue⟩ := strip_envLine (h e.1 hmem).2 hkey hstrip
    rw [hnil] at hvalue
    exact hvalue
  · obtain ⟨hsame, -⟩ := strip_envLine (notMem_of_isName hname' (by decide)) hkey hstrip
    rw [lstrip_name hname'] at hsame
    exact absurd (hsame ▸ hk) hmem

/-- No value stands in the rebuilt `.env`. -/
theorem not_infix_storedEnv {files secrets : Dict Str Str} (h : ∀ k ∈ secrets.keys, OneLine k ∧ '=' ∉ k) {v : Str} (hlen : 4 ≤ v.length)
    (hv : v ∈ maskedValues secrets) (hapart : Apart secretMask v) (hout : StaysOut secrets.keys v) :
    ¬ v <:+: formatEnvFile (storedEnv files secrets) := by
  intro hin
  rcases hout with ⟨hnewline, hkeys⟩ | ⟨line, hsplit, hline, hinv⟩
  · have hne : v ≠ [] := by
      rintro rfl
      exact absurd hlen (by decide)
    obtain ⟨e, he, hine⟩ := infix_formatEnvFile hne hnewline hin
    rcases mem_storedEnv he with ⟨hkey, hnil⟩ | ⟨-, -, -, text, htext⟩
    · rw [envLine, hnil] at hine
      exact hkeys e.1 hkey hine
    · exact not_infix_maskText hv hapart text (hine.trans htext)
  · rw [formatEnvFile_eq] at hin
    have hmem := mem_of_infix_flatMap_newline (notMem_of_mem_split hsplit) (fun m hm => ?_) (hinv.trans hin)
    · obtain ⟨e, -, rfl⟩ := List.mem_map.1 hmem
      exact hline (by simp [envLine])
    · obtain ⟨e, he, rfl⟩ := List.mem_map.1 hm
      have hone := oneLine_storedEnv (fun k hk => (h k hk).1) e ((List.perm_insertionSort _ _).mem_iff.1 he)
      exact fun hmem => absurd (hone _ hmem) (by decide)

theorem filesForDbStorage_clean {secrets : Dict Str Str} (h : Scrubbable secrets) (files : Dict Str Str) :
    Clean secrets (filesForDbStorage files secrets) := by
  intro k v hv
  have hmem := Dict.mem_of_get? hv
  have hk : k ∈ secrets.keys := List.mem_map.2 ⟨(k, v), hmem, rfl⟩
  constructor
  · intro hne hget
    rw [envText_filesForDbStorage] at hget
    exact hne (parse_storedEnv h.keys hk hget)
  · intro hlen f hf hin
    obtain ⟨hapart, hout⟩ := h.values _ hmem hlen
    have hmasked : v ∈ maskedValues secrets := mem_maskedValues.2 ⟨⟨k, hmem⟩, hlen⟩
    rcases Dict.mem_set hf with rfl | hf
    · exact not_infix_storedEnv h.keys hlen hmasked hapart hout hin
    · obtain ⟨g, -, rfl⟩ := List.mem_map.1 hf
      exact not_infix_maskText hmasked hapart g.2 hin

end PiHerder.Stacks
