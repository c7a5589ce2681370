import Mathlib
import PiHerder.Stacks.EnvFile

/-!
# What saving the masked editor changes

A masked line has lost its value, and the blanks around its `=`: it comes back as `KEY=value` with the value `parse_env_file`
has for the key, which is the last one of the file that stands on a strict `KEY=value` line. Another line is at risk where its
value is blank. `Kept` says when a text survives both; `SavedAsTyped` when a submitted line does.
-/
namespace PiHerder.Stacks
open Lib Lib.Str

/-! ## Lines -/

theorem lineKey_append {a : Str} (h : '=' ∉ a) (v : Str) : lineKey (a ++ '=' :: v) = strip a := by
  rw [lineKey, takeWhile_append_cons h]

theorem lineValue_append {a : Str} (h : '=' ∉ a) (v : Str) : lineValue (a ++ '=' :: v) = v := by
  rw [lineValue, dropWhile_append_cons h, List.tail_cons]

theorem notMem_lineKey (line : Str) : '=' ∉ lineKey line := fun h => notMem_takeWhile '=' line (mem_of_mem_strip h)

theorem lineKey_lineKey (line v : Str) : lineKey (lineKey line ++ '=' :: v) = lineKey line := by
  rw [lineKey_append (notMem_lineKey line)]
  exact strip_strip _

theorem lineValue_lineKey (line v : Str) : lineValue (lineKey line ++ '=' :: v) = v := lineValue_append (notMem_lineKey line) v

/-- A key that begins with `#` is a comment's. -/
theorem isRemark_append (a v : Str) : isRemark (a ++ '=' :: v) = ((strip a).head? == some '#') := by
  rw [isRemark, strip_append (by decide)]
  cases hl : lstripWhere isSpace a with
  | nil =>
    have hstrip : strip a = [] := by
      unfold strip
      rw [hl]
      rfl
    rw [hstrip]
    rfl
  | cons c t =>
    have hc : isSpace c = false := by
      have hdrop := List.head?_dropWhile_not isSpace a
      rw [lstripWhere] at hl
      rwa [hl] at hdrop
    have hpre : strip a <+: c :: t := hl ▸ List.rdropWhile_prefix isSpace (lstripWhere isSpace a)
    have hne : strip a ≠ [] := by
      unfold strip rstripWhere
      rw [hl, Ne, List.rdropWhile_eq_nil_iff]
      exact fun hall => absurd (hall c List.mem_cons_self) (by simp [hc])
    obtain ⟨d, u, hstrip⟩ := List.exists_cons_of_ne_nil hne
    rw [hstrip, List.cons_prefix_cons] at hpre
    rw [hstrip, hpre.1]
    rfl

theorem isAssignment_iff {line : Str} : isAssignment line = true ↔ '=' ∈ line ∧ (lineKey line).head? ≠ some '#' := by
  by_cases h : '=' ∈ line
  · have hremark := isRemark_append (line.takeWhile (· != '=')) (lineValue line)
    rw [lineValue, parted h] at hremark
    simp [isAssignment, hremark, h, lineKey]
  · simp [isAssignment, h]

theorem isAssignment_lineKey {line : Str} (h : isAssignment line = true) (v : Str) : isAssignment (lineKey line ++ '=' :: v) = true := by
  rw [isAssignment_iff, lineKey_lineKey]
  exact ⟨by simp, (isAssignment_iff.1 h).2⟩

theorem isAssignment_ne_nil {line : Str} (h : isAssignment line = true) : line ≠ [] := by
  rintro rfl
  cases h

theorem oneLine_lineKey {line : Str} (h : OneLine line) : OneLine (lineKey line) :=
  fun c hc => h c ((List.takeWhile_sublist _).mem (mem_of_mem_strip hc))

theorem oneLine_assignment {line v : Str} (h : OneLine line) (hv : OneLine v) : OneLine (lineKey line ++ '=' :: v) := by
  intro c hc
  rcases List.mem_append.1 hc with hc | hc
  · exact oneLine_lineKey h c hc
  · rcases List.mem_cons.1 hc with rfl | hc
    · decide
    · exact hv c hc

theorem lineEdit_redactLine (extra : List Str) : LineEdit (redactLine extra) where
  oneLine := by
    intro line h
    unfold redactLine
    split
    · exact oneLine_assignment h (by decide)
    · exact h
  eq_nil := by
    intro line
    unfold redactLine
    split
    · rename_i hmasked
      simp only [isMasked, Bool.and_eq_true] at hmasked
      exact iff_of_false (by simp) (isAssignment_ne_nil hmasked.1)
    · rfl

/-! ## The live file -/

theorem oneLine_envFileLine {line k v : Str} (h : OneLine line) (hline : envFileLine (strip line) = some (k, v)) : OneLine v := by
  unfold envFileLine splitOnce at hline
  split at hline
  · obtain ⟨hkv, -⟩ := Option.filter_eq_some_iff.1 hline
    obtain ⟨-, rfl⟩ := Prod.mk.inj (Option.some.inj hkv)
    exact fun c hc => h c (mem_of_mem_strip ((List.dropWhile_sublist _).mem (List.mem_of_mem_tail hc)))
  · cases hline

/-- A value of a file is on one line of it. -/
theorem oneLine_parseEnvFile (text : Str) : ∀ e ∈ parseEnvFile text, OneLine e.2 := by
  refine parseEnvFile_induction (P := fun out => ∀ e ∈ out, OneLine e.2) (fun e he => nomatch he) ?_
  intro out line k v hline hkv hout e he
  rcases Dict.mem_set he with rfl | he
  · exact oneLine_envFileLine (oneLine_of_mem_splitlines hline) hkv
  · exact hout e he

theorem oneLine_liveOf {text key v : Str} (h : liveOf (parseEnvFile text) key = some v) : OneLine v :=
  oneLine_parseEnvFile text _ (Dict.mem_of_get? (Option.filter_eq_some_iff.1 h).1)

theorem lineEdit_restoreLine (text : Str) : LineEdit (restoreLine (parseEnvFile text)) where
  oneLine := by
    intro line h
    unfold restoreLine
    split
    · split
      · rename_i v hv
        exact oneLine_assignment h (oneLine_liveOf hv)
      · exact h
    · exact h
  eq_nil := by
    intro line
    unfold restoreLine
    split
    · rename_i hline
      simp only [Bool.and_eq_true] at hline
      split
      · exact iff_of_false (by simp) (isAssignment_ne_nil hline.1)
      · rfl
    · rfl

/-! ## What comes back -/

/-- A submitted line is not taken for one that was left as it was. -/
def SavedAsTyped (live : Dict Str Str) (line : Str) : Prop :=
  isLeftBlank line = true → ∀ v, liveOf live (lineKey line) = some v → line = lineKey line ++ '=' :: v

/-- What a masked line comes back as is what it was; another one is not blank. -/
def LineKept (live : Dict Str Str) (extra : List Str) (line : Str) : Prop :=
  if isMasked extra line then line = lineKey line ++ '=' :: (liveOf live (lineKey line)).getD secretMask
  else isAssignment line = true → SavedAsTyped live line

def Kept (extra : List Str) (text : Str) : Prop := OnlyNewlines text ∧ ∀ line ∈ splitlines text, LineKept (parseEnvFile text) extra line

theorem restoreLine_eq_iff {live : Dict Str Str} {line : Str} (h : isAssignment line = true) :
    restoreLine live line = line ↔ SavedAsTyped live line := by
  unfold restoreLine SavedAsTyped
  rw [h, Bool.true_and]
  by_cases hblank : isLeftBlank line = true
  · rw [if_pos hblank]
    cases liveOf live (lineKey line) with
    | none => simp
    | some v => simp [hblank, eq_comm]
  · rw [if_neg hblank]
    exact iff_of_true rfl fun h => absurd h hblank

theorem restoreLine_redactLine_iff {live : Dict Str Str} {extra : List Str} {line : Str} :
    restoreLine live (redactLine extra line) = line ↔ LineKept live extra line := by
  unfold LineKept redactLine
  split
  · rename_i hmasked
    simp only [isMasked, Bool.and_eq_true] at hmasked
    have hblank : isLeftBlank (lineKey line ++ '=' :: secretMask) = true := by
      rw [isLeftBlank, lineValue_lineKey]
      decide
    rw [restoreLine, isAssignment_lineKey hmasked.1, hblank, lineKey_lineKey]
    cases liveOf live (lineKey line) with
    | none => exact eq_comm
    | some v => exact eq_comm
  · by_cases h : isAssignment line = true
    · rw [restoreLine_eq_iff h]
      simp [h]
    · rw [restoreLine]
      simp [h]

theorem restoreEnvContent_iff {extra : List Str} {text : Str} :
    SameText (restoreEnvContent (redactEnvContent text extra) text) text ↔ Kept extra text := by
  refine (mapLines_mapLines_iff (lineEdit_redactLine extra) (lineEdit_restoreLine text)).trans (and_congr_right fun _ => ?_)
  exact forall₂_congr fun line _ => restoreLine_redactLine_iff

/-! ## Files -/

/-- The same paths, with the same texts. -/
def SameFiles (a b : Dict Str Str) : Prop := List.Forall₂ (fun f g => f.1 = g.1 ∧ SameText f.2 g.2) a b

theorem restoreFile_redactFile {extra : List Str} {path text : Str} :
    SameText (restoreFile path (redactFile extra path text) text) text ↔
      (isSecretsPath path = false → isEnvFilename path = true → Kept extra text) := by
  unfold restoreFile redactFile
  by_cases hsecrets : isSecretsPath path = true
  · rw [if_pos hsecrets, if_pos hsecrets]
    refine iff_of_true (Or.inl ?_) fun h => absurd hsecrets (by simp [h])
    by_cases htext : text = []
    · simp [htext]
    · rw [if_neg htext, if_pos ⟨Or.inr (by decide), htext⟩]
  · rw [if_neg hsecrets, if_neg hsecrets]
    by_cases henv : isEnvFilename path = true
    · rw [if_pos henv, if_pos henv, restoreEnvContent_iff]
      simp [hsecrets, henv]
    · rw [if_neg henv, if_neg henv]
      exact iff_of_true (Or.inl rfl) fun _ h => absurd h henv

/-- Every file is laid over its own live one. -/
theorem restore_redact (files : Mapping Str Str) (extra : List Str) :
    restoreProjectFilesOnSave (redactProjectFilesForUi files.items false extra) files.items =
      files.items.map fun f => (f.1, restoreFile f.1 (redactFile extra f.1 f.2) f.2) := by
  unfold restoreProjectFilesOnSave redactProjectFilesForUi
  rw [if_neg (by simp), List.foldl_map]
  rw [Dict.foldl_set_self (fun f => restoreFile f.1 (redactFile extra f.1 f.2) ((Dict.get? f.1 files.items).getD [])) files.nodup]
  refine List.map_congr_left fun f hf => ?_
  rw [Dict.get?_of_mem files.nodup hf, Option.getD_some]

/-- **What saving the masked editor changes.** Saving what is shown gives back every file exactly where every `.env` text is
kept; and an assignment that is submitted is what is saved, exactly where it is not taken for one that was left blank. -/
theorem saved_as_shown_and_as_typed (files : Mapping Str Str) (extra : List Str) :
    (SameFiles (restoreProjectFilesOnSave (redactProjectFilesForUi files.items false extra) files.items) files.items ↔
        ∀ f ∈ files.items, isSecretsPath f.1 = false → isEnvFilename f.1 = true → Kept extra f.2) ∧
      ∀ (submitted : Mapping Str Str) (path text : Str), submitted.items.get? path = some text → isSecretsPath path = false →
        isEnvFilename path = true → ∃ saved, (restoreProjectFilesOnSave submitted.items files.items).get? path = some saved ∧
          ∀ (j : Nat) (line : Str), (splitlines text)[j]? = some line → isAssignment line = true →
            ((splitlines saved)[j]? = some line ↔ SavedAsTyped (parseEnvFile ((files.items.get? path).getD [])) line) := by
  constructor
  · rw [restore_redact, SameFiles, List.forall₂_map_left_iff, List.forall₂_same]
    refine forall₂_congr fun f _ => ?_
    exact (and_iff_right rfl).trans restoreFile_redactFile
  · intro submitted path text hpath hsecrets henv
    refine ⟨restoreEnvContent text ((files.items.get? path).getD []), ?_, fun j line hline hassign => ?_⟩
    · unfold restoreProjectFilesOnSave
      rw [Dict.get?_writes (fun f => restoreFile f.1 f.2 ((Dict.get? f.1 files.items).getD [])) path submitted.nodup, hpath]
      simp [restoreFile, hsecrets, henv]
    · rw [restoreEnvContent, getElem_mapLines (lineEdit_restoreLine _) hline (isAssignment_ne_nil hassign), Option.some.injEq,
        restoreLine_eq_iff hassign]

/-- A password that is written with blanks around its `=` is lost to the mask, and a setting that is emptied stays. -/
theorem mask_written_setting_kept :
    restoreProjectFilesOnSave (redactProjectFilesForUi [(lit ".env", lit "DB_PASSWORD = hunter2\n")] false [])
        [(lit ".env", lit "DB_PASSWORD = hunter2\n")] = [(lit ".env", lit "DB_PASSWORD=********\n")] ∧
      ¬ SameFiles [(lit ".env", lit "DB_PASSWORD=********\n")] [(lit ".env", lit "DB_PASSWORD = hunter2\n")] ∧
      restoreProjectFilesOnSave [(lit ".env", lit "PORT=\n")] [(lit ".env", lit "PORT=8080\n")] = [(lit ".env", lit "PORT=8080\n")] := by
  refine ⟨by decide +kernel, ?_, by decide +kernel⟩
  intro h
  obtain ⟨⟨-, hsame⟩, -⟩ := List.forall₂_cons.1 h
  exact absurd hsame (by unfold SameText; decide)

end PiHerder.Stacks
