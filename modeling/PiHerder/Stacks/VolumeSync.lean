import PiHerder.Lib.Lines
import PiHerder.Stacks.Templates

/-!
# Whose settings a volume has (`services/service_templates/schema.py`)

| here | there |
| --- | --- |
| `readVolumes`, `listed` | what a `volumes:` block says, line by line |
| `sync_touches_only_managed_iff` | `sync_compose_named_volumes`, 532–597 |

The function takes a block apart into keys and other lines. It sorts the keys and puts all other lines behind the last of them, so that the
settings of every volume become the settings of the one that sorts last.
-/
namespace PiHerder.Stacks
open Lib Lib.Str

/-! ## Lines that keep their ends -/

/-- A line that ends, so that what follows is on the next. -/
def Ended (l : Str) : Prop := ∀ s : Str, s.head? ≠ some '\n' → splitlinesKeep (l ++ s) = l :: splitlinesKeep s

theorem splitlinesKeep_end {c : Char} {s : Str} (h : endsLine c = true) (hlf : s.head? ≠ some '\n') :
    splitlinesKeep (c :: s) = [c] :: splitlinesKeep s := by
  rw [splitlinesKeep]
  · rw [if_pos h]
  · rintro s' - rfl
    exact hlf rfl

theorem splitlinesKeep_cons {c : Char} (h : endsLine c = false) (s : Str) :
    splitlinesKeep (c :: s) = match splitlinesKeep s with
      | [] => [[c]]
      | l :: ls => (c :: l) :: ls := by
  have hne : c ≠ '\r' := by
    rintro rfl
    exact absurd h (by decide)
  rw [splitlinesKeep]
  · rw [h]
    rfl
  · exact fun _ hc => absurd hc hne

theorem splitlinesKeep_newline (s : Str) : splitlinesKeep ('\n' :: s) = ['\n'] :: splitlinesKeep s := by
  rw [splitlinesKeep]
  · rfl
  · exact fun _ h => nomatch h

theorem Ended.cons {c : Char} {l : Str} (h : endsLine c = false) (hl : Ended l) : Ended (c :: l) := by
  intro s hs
  rw [List.cons_append, splitlinesKeep_cons h, hl s hs]

theorem ended_newline : Ended ['\n'] := fun s _ => splitlinesKeep_newline s

theorem ended_of_oneLine {l : Str} (h : OneLine l) : Ended (l ++ ['\n']) := by
  induction l with
  | nil => exact ended_newline
  | cons c l ih => exact (ih fun d hd => h d (List.mem_cons_of_mem c hd)).cons (h c List.mem_cons_self)

theorem Ended.alone {l : Str} (h : Ended l) : splitlinesKeep l = [l] := by
  have hl := h [] (by simp)
  rwa [List.append_nil, splitlinesKeep] at hl

/-- Every line of a text is a line by itself, and all but the last end. -/
theorem splitlinesKeep_lines (s : Str) :
    (splitlinesKeep s).Pairwise (fun l _ => Ended l) ∧ ∀ l ∈ splitlinesKeep s, splitlinesKeep l = [l] := by
  fun_induction splitlinesKeep s with
  | case1 => exact ⟨List.Pairwise.nil, fun l h => absurd h List.not_mem_nil⟩
  | case2 s ih =>
    have hended : Ended ['\r', '\n'] := fun t _ => by rw [List.cons_append, List.cons_append, splitlinesKeep, List.nil_append]
    exact ⟨List.pairwise_cons.2 ⟨fun _ _ => hended, ih.1⟩, List.forall_mem_cons.2 ⟨hended.alone, ih.2⟩⟩
  | case3 c s hcr hend ih =>
    have hended : Ended [c] := fun t ht => splitlinesKeep_end hend ht
    exact ⟨List.pairwise_cons.2 ⟨fun _ _ => hended, ih.1⟩, List.forall_mem_cons.2 ⟨hended.alone, ih.2⟩⟩
  | case4 c s hcr hend hnil ih =>
    rw [Bool.not_eq_true] at hend
    refine ⟨List.pairwise_singleton _ _, fun l hl => ?_⟩
    rw [List.mem_singleton.1 hl, splitlinesKeep_cons hend, splitlinesKeep]
  | case5 c s hcr hend l ls hcons ih =>
    rw [Bool.not_eq_true] at hend
    rw [hcons] at ih
    obtain ⟨hpair, hall⟩ := ih
    have hl := hall l List.mem_cons_self
    refine ⟨List.pairwise_cons.2 ⟨fun m hm => ((List.pairwise_cons.1 hpair).1 m hm).cons hend, (List.pairwise_cons.1 hpair).2⟩,
      List.forall_mem_cons.2 ⟨?_, fun m hm => hall m (List.mem_cons_of_mem l hm)⟩⟩
    rw [splitlinesKeep_cons hend, hl]

/-- A line that does not begin with a newline and is one by itself. -/
theorem head_of_line {l : Str} (h : splitlinesKeep l = [l]) (hblank : strip l ≠ []) : l.head? ≠ some '\n' := by
  cases l with
  | nil => simp
  | cons c t =>
    rintro hc
    obtain rfl : c = '\n' := Option.some.inj hc
    rw [splitlinesKeep_newline] at h
    injection h with h _
    injection h with _ ht
    subst ht
    exact hblank (by decide)

/-- Lines of a text, put together again. -/
theorem splitlinesKeep_flatten : ∀ {ls : List Str}, ls.Pairwise (fun l _ => Ended l) → (∀ l ∈ ls, splitlinesKeep l = [l] ∧ strip l ≠ []) →
    splitlinesKeep ls.flatten = ls
  | [], _, _ => rfl
  | [l], _, h => by
    rw [List.flatten_cons, List.flatten_nil, List.append_nil]
    exact (h l List.mem_cons_self).1
  | l :: m :: ls, hpair, h => by
    obtain ⟨hfirst, hrest⟩ := List.pairwise_cons.1 hpair
    have hm := h m (List.mem_cons_of_mem l List.mem_cons_self)
    have hhead : (m :: ls).flatten.head? ≠ some '\n' := by
      have hline := head_of_line hm.1 hm.2
      cases m with
      | nil => exact absurd rfl hm.2
      | cons c m => simpa using hline
    rw [List.flatten_cons, hfirst m List.mem_cons_self _ hhead, splitlinesKeep_flatten hrest fun k hk => h k (List.mem_cons_of_mem l hk)]

/-- Ended lines in front. -/
theorem splitlinesKeep_append : ∀ {ls : List Str} {s : Str}, (∀ l ∈ ls, Ended l) → (∀ l ∈ ls, l.head? ≠ some '\n' ∧ l ≠ []) → s.head? ≠ some '\n' →
    splitlinesKeep (ls.flatten ++ s) = ls ++ splitlinesKeep s
  | [], _, _, _, _ => rfl
  | l :: ls, s, h, hhead, hs => by
    have hnext : (ls.flatten ++ s).head? ≠ some '\n' := by
      cases ls with
      | nil => exact hs
      | cons m ls =>
        obtain ⟨hm, hne⟩ := hhead m (List.mem_cons_of_mem l List.mem_cons_self)
        cases m with
        | nil => exact absurd rfl hne
        | cons c m => simpa using hm
    rw [List.flatten_cons, List.append_assoc, h l List.mem_cons_self _ hnext, List.cons_append,
      splitlinesKeep_append (fun k hk => h k (List.mem_cons_of_mem l hk)) (fun k hk => hhead k (List.mem_cons_of_mem l hk)) hs]

/-! ## What a block says -/

def isKeyChar (c : Char) : Bool := isAlnum c || c == '_' || c == '.' || c == '-'

/-- What the code takes for the name of a volume. -/
def IsVolumeName (n : Str) : Prop := n.head?.any isAlnum = true ∧ ∀ c ∈ n, isKeyChar c = true

instance (n : Str) : Decidable (IsVolumeName n) := inferInstanceAs (Decidable (_ ∧ _))

def keyOf (line : Str) : Option Str := volumeKey (rstrip '\n' line)

def isComment (line : Str) : Bool := (strip line).head? == some '#'

/-- A line that belongs to the key above it. -/
def isSetting (line : Str) : Bool := (keyOf line).isNone && strip line != [] && !isComment line

/-- The settings above the first key, and each volume with its own. -/
def readVolumes : List Str → List Str × List (Str × List Str)
  | [] => ([], [])
  | line :: lines =>
    match keyOf line with
    | some n => ([], (n, (readVolumes lines).1) :: (readVolumes lines).2)
    | none => (if isSetting line then line :: (readVolumes lines).1 else (readVolumes lines).1, (readVolumes lines).2)

/-- The volumes of a block, with their settings. -/
def listed (block : Str) : List (Str × List Str) := (readVolumes (splitlinesKeep block)).2

def names (block : Str) : List Str := (listed block).map Prod.fst

/-- The line that the code writes for a volume. -/
def entry (n : Str) : Str := lit "  " ++ n ++ lit ":\n"

section
variable {n line : Str} {lines ns : List Str}

theorem isVolumeName_of_keyOf (h : keyOf line = some n) : IsVolumeName n := by
  unfold keyOf volumeKey at h
  dsimp only at h
  split at h
  · split at h
    · obtain ⟨hhead, -, -⟩ := ‹_ ∧ _ ∧ _›
      obtain rfl := Option.some.inj h
      exact ⟨hhead, fun c hc => @List.mem_takeWhile_imp _ isKeyChar _ _ hc⟩
    · cases h
  · cases h

theorem volumeKey_eq (line : Str) : volumeKey line =
    if startsWith (lit "  ") line then
      if (((line.drop 2).takeWhile isKeyChar).head?.any isAlnum) ∧ startsWith (lit ":") (line.drop (2 + ((line.drop 2).takeWhile isKeyChar).length)) ∧
          ((lstripWhere isSpace (line.drop (2 + ((line.drop 2).takeWhile isKeyChar).length)).tail).head?.all (· == '#')) then
        some ((line.drop 2).takeWhile isKeyChar)
      else none
    else none := rfl

theorem keyOf_entry (h : IsVolumeName n) : keyOf (entry n) = some n := by
  have hstrip : rstrip '\n' (entry n) = lit "  " ++ n ++ lit ":" := by
    rw [entry, show lit ":\n" = lit ":" ++ ['\n'] from rfl, ← List.append_assoc, rstrip, rstripWhere, List.rdropWhile_concat_pos _ _ _ (by decide)]
    exact rstrip_append (by decide) (by decide)
  have hname : ((lit "  " ++ n ++ lit ":").drop 2).takeWhile isKeyChar = n := by
    change (n ++ lit ":").takeWhile isKeyChar = n
    rw [List.takeWhile_append_of_pos h.2]
    exact List.append_nil n
  have hrest : (lit "  " ++ n ++ lit ":").drop (2 + n.length) = lit ":" := by
    rw [← List.drop_drop]
    exact List.drop_left
  rw [keyOf, hstrip, volumeKey_eq, hname, hrest, if_pos (by rfl), if_pos ⟨h.1, by decide, by decide⟩]

/-- The lines that are neither keys nor blanks nor comments, as settings. -/
theorem filter_isSetting (lines : List Str) :
    lines.filter isSetting = (readVolumes lines).1 ++ (readVolumes lines).2.flatMap Prod.snd := by
  induction lines with
  | nil => rfl
  | cons line lines ih =>
    rw [List.filter_cons, ih, readVolumes]
    cases hkey : keyOf line with
    | some n =>
      have hnot : isSetting line = false := by simp [isSetting, hkey]
      simp [hnot]
    | none =>
      by_cases hset : isSetting line = true
      · simp [hset]
      · simp [hset]

theorem map_fst_readVolumes (lines : List Str) : (readVolumes lines).2.map Prod.fst = lines.filterMap keyOf := by
  induction lines with
  | nil => rfl
  | cons line lines ih =>
    rw [readVolumes, List.filterMap_cons]
    cases hkey : keyOf line with
    | some n => simp [ih]
    | none => exact ih

/-- Without a key all is above the first. -/
theorem readVolumes_of_no_key (h : ∀ line ∈ lines, keyOf line = none) : readVolumes lines = (lines.filter isSetting, []) := by
  induction lines with
  | nil => rfl
  | cons line lines ih =>
    rw [readVolumes, h line List.mem_cons_self, ih fun l hl => h l (List.mem_cons_of_mem line hl), List.filter_cons]

/-- Behind a row of keys, every other line is the last key's. -/
theorem readVolumes_keys (n : Str) (hns : ∀ m ∈ ns ++ [n], IsVolumeName m) (h : ∀ line ∈ lines, keyOf line = none) :
    readVolumes ((ns ++ [n]).map entry ++ lines) = ([], ns.map (fun m => (m, [])) ++ [(n, lines.filter isSetting)]) := by
  induction ns with
  | nil =>
    rw [List.nil_append, List.map_singleton, List.singleton_append, readVolumes, keyOf_entry (hns n (by simp)), readVolumes_of_no_key h]
    rfl
  | cons m ns ih =>
    rw [List.cons_append, List.map_cons, List.cons_append, readVolumes, keyOf_entry (hns m (by simp)),
      ih fun k hk => hns k (List.mem_cons_of_mem m hk)]
    rfl

end

/-! ## The block in its text -/

section
variable {f : Bool} {c : Char} {s t l : Str}

/-- A line's start is where a key may stand. -/
theorem noTop_of_start (h : (untilTopKey true s).2 = []) : (untilTopKey f s).2 = [] := by
  cases f with
  | true => exact h
  | false =>
    cases s with
    | nil => rfl
    | cons c s =>
      rw [untilTopKey] at h ⊢
      split at h
      · cases h
      · exact h

theorem line_tail {t : Str} (h : splitlinesKeep (c :: t) = [c :: t]) (ht : t ≠ []) : c ≠ '\n' ∧ splitlinesKeep t = [t] := by
  have hc : c ≠ '\n' := by
    rintro rfl
    rw [splitlinesKeep_newline] at h
    injection h with h _
    injection h with _ h
    exact ht h.symm
  refine ⟨hc, ?_⟩
  by_cases hend : endsLine c = true
  · by_cases hlf : t.head? = some '\n'
    · by_cases hcr : c = '\r'
      · -- the two characters of one end
        subst hcr
        cases t with
        | nil => exact absurd rfl ht
        | cons d u =>
          obtain rfl : d = '\n' := Option.some.inj hlf
          rw [splitlinesKeep] at h
          injection h with h _
          injection h with _ h
          injection h with _ h
          subst h
          rfl
      · rw [splitlinesKeep] at h
        · rw [if_pos hend] at h
          injection h with h _
          injection h with _ h
          exact absurd h.symm ht
        · exact fun _ heq => absurd heq hcr
    · rw [splitlinesKeep_end hend hlf] at h
      injection h with h _
      injection h with _ h
      exact absurd h.symm ht
  · rw [Bool.not_eq_true] at hend
    rw [splitlinesKeep_cons hend] at h
    cases hsplit : splitlinesKeep t with
    | nil =>
      rw [hsplit] at h
      injection h with h _
      injection h with _ h
      exact absurd h.symm ht
    | cons m ms =>
      rw [hsplit] at h
      injection h with h hms
      injection h with _ h
      rw [h, hms]

/-- No key begins within a line. -/
theorem noTop_line (h : splitlinesKeep l = [l]) (hs : (untilTopKey true s).2 = [])
    (hhead : f = true → ∀ c, l.head? = some c → (isAlnum c && !isDigit c) = false) : (untilTopKey f (l ++ s)).2 = [] := by
  induction l generalizing f with
  | nil => exact noTop_of_start hs
  | cons c t ih =>
    have hstop : (f && (isAlnum c && !isDigit c)) = false := by
      cases f with
      | false => rfl
      | true => exact hhead rfl c rfl
    rw [List.cons_append, untilTopKey, hstop, if_neg Bool.false_ne_true]
    by_cases ht : t = []
    · subst ht
      exact noTop_of_start hs
    · obtain ⟨hc, htail⟩ := line_tail h ht
      have hflag : (c == '\n') = false := beq_false_of_ne hc
      rw [hflag]
      exact ih htail fun h => absurd h Bool.false_ne_true

/-- The key that ends a block ends it whatever follows. -/
theorem untilTopKey_again {s y : Str} (h : untilTopKey f (s ++ c :: t) = (s, c :: t)) : untilTopKey f (s ++ c :: y) = (s, c :: y) := by
  induction s generalizing f with
  | nil =>
    rw [List.nil_append, untilTopKey] at h ⊢
    split at h
    · exact if_pos ‹_›
    · cases h
  | cons d s ih =>
    rw [List.cons_append, untilTopKey] at h ⊢
    split at h
    · cases h
    · rename_i hstop
      injection h with h₁ h₂
      injection h₁ with _ h₁
      rw [if_neg hstop, ih (Prod.ext h₁ h₂)]

/-- A block has no key in it. -/
theorem noTop_of_cut (h : untilTopKey f (s ++ t) = (s, t)) : (untilTopKey f s).2 = [] := by
  induction s generalizing f with
  | nil => rfl
  | cons d s ih =>
    rw [List.cons_append, untilTopKey] at h
    rw [untilTopKey]
    split at h
    · cases h
    · rename_i hstop
      injection h with h₁ h₂
      injection h₁ with _ h₁
      rw [if_neg hstop]
      exact ih (Prod.ext h₁ h₂)

/-- A letter behind a newline is a key. -/
theorem top_of_newline (hc : (isAlnum c && !isDigit c) = true) (s t : Str) : (untilTopKey f (s ++ '\n' :: c :: t)).2 ≠ [] := by
  induction s generalizing f with
  | nil =>
    have hnl : (isAlnum '\n' && !isDigit '\n') = false := by decide
    rw [List.nil_append, untilTopKey, hnl, Bool.and_false, if_neg Bool.false_ne_true]
    change (untilTopKey true (c :: t)).2 ≠ []
    rw [untilTopKey, if_pos (by simpa using hc)]
    exact List.cons_ne_nil c t
  | cons d s ih =>
    rw [List.cons_append, untilTopKey]
    split
    · exact List.cons_ne_nil d _
    · exact ih

end

/-! ## What is kept -/

/-- A text with a `volumes:` block; whether the block's own line bears a comment. -/
inductive HasBlock (text before body after : Str) : Bool → Prop
  | plain (rest : Str) (hheader : volumesHeader true text = some (before, rest)) (hcut : untilTopKey true rest = (body, after)) :
      HasBlock text before body after false
  | commented (gap : Str) (hheader : volumesHeader true text = none) (htext : text = before ++ (lit "volumes:" ++ gap ++ ['\n'] ++ (body ++ after)))
      (hgap : '\n' ∉ gap ∧ isComment gap = true) (hcut : untilTopKey true (body ++ after) = (body, after)) : HasBlock text before body after true

/-- Keys behind two blanks, settings behind more, and comments. -/
structure TwoSpace (body : Str) : Prop where
  lines : ∀ line ∈ splitlinesKeep body, strip line = [] ∨ isComment line = true ∨ (keyOf line).isSome ∨ startsWith (lit "   ") line = true
  headed : (readVolumes (splitlinesKeep body)).1 = []
  once : (names body).Nodup

section
variable (before body after : Str) (named managed : List Str)

/-- A volume that is to be listed. -/
def Remains (n : Str) : Prop := (n ∈ named ∧ n ≠ []) ∨ (n ∈ names body ∧ n ∉ managed)

/-- The text around the block is kept; every volume that remains has its own settings, and a new one none. -/
structure TouchesOnlyManaged (out header block : Str) : Prop where
  outside : out = before ++ (header ++ (block ++ after))
  header : (header = [] ∧ block = []) ∨ ∃ gap, header = lit "volumes:" ++ gap ++ ['\n'] ∧ '\n' ∉ gap
  whole : (untilTopKey true block).2 = []
  volumes : ∀ n s, (n, s) ∈ listed block ↔
    ((n, s) ∈ listed body ∧ (n ∉ managed ∨ n ∈ named)) ∨ (n ∈ named ∧ n ≠ [] ∧ n ∉ names body ∧ s = [])

/-- The active names are names; the only settings are those of the volume that sorts last; and a block that goes leaves no gap. -/
structure SyncCalm : Prop where
  valid : ∀ n ∈ named, n ≠ [] → IsVolumeName n
  owner : ∀ v ∈ listed body, v.2 ≠ [] → ∀ m, Remains body named managed m → Remains body named managed v.1 ∧ m ≤ v.1
  seam : (∀ n, ¬ Remains body named managed n) → (∀ line ∈ splitlinesKeep body, strip line = [] ∨ (keyOf line).isSome) →
    rstripWhere isSpace before ++ ['\n'] = before

/-- Where the code does what it says: with a comment behind `volumes:` it does not see the block, and there must be nothing to do. -/
def SyncsWell : Bool → Prop
  | false => SyncCalm before body named managed
  | true => (∀ n ∈ named, n = []) ∧ ∀ n ∈ names body, n ∉ managed

/-- The names that the code lists. -/
def finalNames : List Str :=
  let active := named.filter (· ≠ [])
  sortedSet (((splitlinesKeep body).filterMap fun line => volumeKey (rstrip '\n' line)).filter (· ∉ managed ++ active) ++ active)

/-- The lines that are put behind them. -/
def otherLines : List Str := (splitlinesKeep body).filter fun line => (volumeKey (rstrip '\n' line)).isNone && strip line != []

end

section
variable {text before rest body after : Str} {named managed : List Str} {n : Str} {commented : Bool}

theorem names_eq (body : Str) : names body = (splitlinesKeep body).filterMap keyOf := map_fst_readVolumes _

theorem isVolumeName_of_mem (h : n ∈ names body) : IsVolumeName n := by
  rw [names_eq] at h
  obtain ⟨line, -, hline⟩ := List.mem_filterMap.1 h
  exact isVolumeName_of_keyOf hline

theorem mem_finalNames : n ∈ finalNames body named managed ↔ Remains body named managed n := by
  unfold finalNames Remains
  dsimp only
  rw [mem_sortedSet, show ((splitlinesKeep body).filterMap fun line => volumeKey (rstrip '\n' line)) = names body from (names_eq body).symm,
    List.mem_append, List.mem_filter, List.mem_filter]
  simp only [decide_eq_true_eq, List.mem_append, not_or, List.mem_filter]
  tauto

theorem finalNames_eq_nil : finalNames body named managed = [] ↔ ∀ n, ¬ Remains body named managed n := by
  rw [List.eq_nil_iff_forall_not_mem]
  exact forall_congr' fun n => not_congr mem_finalNames

theorem sync_plain (hheader : volumesHeader true text = some (before, rest)) (hcut : untilTopKey true rest = (body, after)) :
    syncComposeNamedVolumes text named managed =
      if finalNames body named managed = [] ∧ otherLines body = [] then rstripWhere isSpace before ++ '\n' :: after
      else before ++ lit "volumes:\n" ++ (finalNames body named managed).flatMap entry ++
        (if finalNames body named managed = [] then [] else (otherLines body).flatten) ++ after := by
  unfold syncComposeNamedVolumes
  dsimp only
  rw [hheader]
  dsimp only
  rw [hcut]
  rfl

theorem otherLines_key {line : Str} (h : line ∈ otherLines body) : keyOf line = none := by
  have hline := (List.mem_filter.1 h).2
  rw [Bool.and_eq_true, Option.isNone_iff_eq_none] at hline
  exact hline.1

theorem otherLines_filter (hbody : TwoSpace body) : (otherLines body).filter isSetting = (listed body).flatMap Prod.snd := by
  have hall := filter_isSetting (splitlinesKeep body)
  rw [hbody.headed, List.nil_append] at hall
  refine Eq.trans ?_ hall
  rw [otherLines, List.filter_filter]
  refine List.filter_congr fun line _ => ?_
  unfold isSetting keyOf
  cases (volumeKey (rstrip '\n' line)).isNone <;> cases strip line != [] <;> cases isComment line <;> rfl

theorem endsLine_keyChar {c : Char} (h : isKeyChar c = true) : endsLine c = false := by
  have hpath : isPathChar c = true := by
    simp only [isKeyChar, Bool.or_eq_true] at h
    simp only [isPathChar, Bool.or_eq_true]
    tauto
  by_contra hend
  rw [Bool.not_eq_false] at hend
  exact absurd (isSpace_of_endsLine hend) (by rw [isSpace_of_isPathChar hpath]; exact Bool.false_ne_true)

theorem oneLine_key (h : IsVolumeName n) : OneLine (lit "  " ++ n ++ lit ":") := by
  intro c hc
  rw [List.mem_append, List.mem_append] at hc
  obtain (hc | hc) | hc := hc
  · exact (show OneLine (lit "  ") by decide) c hc
  · exact endsLine_keyChar (h.2 c hc)
  · exact (show OneLine (lit ":") by decide) c hc

theorem ended_entry (h : IsVolumeName n) : Ended (entry n) := by
  rw [entry, show lit ":\n" = lit ":" ++ ['\n'] from rfl, ← List.append_assoc]
  exact ended_of_oneLine (oneLine_key h)

/-- The lines of the new block. -/
theorem splitlinesKeep_block {ns : List Str} (h : ∀ n ∈ ns, IsVolumeName n) :
    splitlinesKeep (ns.flatMap entry ++ (otherLines body).flatten) = ns.map entry ++ otherLines body := by
  obtain ⟨hpair, hall⟩ := splitlinesKeep_lines body
  have hothers : splitlinesKeep (otherLines body).flatten = otherLines body := by
    refine splitlinesKeep_flatten (hpair.filter _) fun l hl => ?_
    have hl := List.mem_filter.1 hl
    rw [Bool.and_eq_true, bne_iff_ne] at hl
    exact ⟨hall l hl.1, hl.2.2⟩
  rw [List.flatMap, splitlinesKeep_append, hothers]
  · intro l hl
    obtain ⟨n, hn, rfl⟩ := List.mem_map.1 hl
    exact ended_entry (h n hn)
  · intro l hl
    obtain ⟨n, -, rfl⟩ := List.mem_map.1 hl
    exact ⟨by simp [entry, lit], by simp [entry, lit]⟩
  · cases hcons : otherLines body with
    | nil => simp
    | cons m ms =>
      have hm := List.mem_filter.1 (show m ∈ otherLines body by rw [hcons]; exact List.mem_cons_self)
      rw [Bool.and_eq_true, bne_iff_ne] at hm
      have hhead := head_of_line (hall m hm.1) hm.2.2
      cases m with
      | nil => exact absurd rfl hm.2.2
      | cons c m => simpa using hhead

/-- The last name of the new block gets all the settings. -/
theorem mem_listed_block {ns : List Str} {l : Str} (hbody : TwoSpace body) (hnodup : (ns ++ [l]).Nodup) (h : ∀ n ∈ ns ++ [l], IsVolumeName n)
    {s : List Str} : (n, s) ∈ listed ((ns ++ [l]).flatMap entry ++ (otherLines body).flatten) ↔
      n ∈ ns ++ [l] ∧ s = if n = l then (listed body).flatMap Prod.snd else [] := by
  have hread := readVolumes_keys l h fun line hline => @otherLines_key body line hline
  rw [otherLines_filter hbody] at hread
  have hnot : l ∉ ns := fun hmem => (List.disjoint_of_nodup_append hnodup) hmem (List.mem_singleton.2 rfl)
  rw [listed, splitlinesKeep_block h, hread, List.mem_append, List.mem_map, List.mem_singleton, List.mem_append, List.mem_singleton]
  constructor
  · rintro (⟨m, hm, heq⟩ | heq)
    · obtain ⟨rfl, rfl⟩ := Prod.mk.inj heq
      have hne : m ≠ l := fun heq => hnot (heq ▸ hm)
      exact ⟨Or.inl hm, (if_neg hne).symm⟩
    · obtain ⟨rfl, rfl⟩ := Prod.mk.inj heq
      exact ⟨Or.inr rfl, (if_pos rfl).symm⟩
  · rintro ⟨hm | rfl, rfl⟩
    · have hne : n ≠ l := fun heq => hnot (heq ▸ hm)
      exact Or.inl ⟨n, hm, by rw [if_neg hne]⟩
    · exact Or.inr (by rw [if_pos rfl])

/-! ## Whose settings are whose -/

/-- The settings of all volumes are the ones of `v`, where no other has any. -/
theorem flatMap_settings {vols : List (Str × List Str)} (honce : (vols.map Prod.fst).Nodup) {v : Str × List Str} (hv : v ∈ vols)
    (hrest : ∀ w ∈ vols, w.1 ≠ v.1 → w.2 = []) : vols.flatMap Prod.snd = v.2 := by
  induction vols with
  | nil => cases hv
  | cons w vols ih =>
    rw [List.map_cons, List.nodup_cons] at honce
    rw [List.flatMap_cons]
    obtain rfl | hv := List.mem_cons.1 hv
    · have hnil : vols.flatMap Prod.snd = [] := by
        rw [List.flatMap_eq_nil_iff]
        refine fun u hu => hrest u (List.mem_cons_of_mem v hu) fun heq => honce.1 ?_
        exact heq ▸ List.mem_map_of_mem hu
      rw [hnil, List.append_nil]
    · have hne : w.1 ≠ v.1 := fun heq => honce.1 (heq ▸ List.mem_map_of_mem hv)
      rw [hrest w List.mem_cons_self hne, List.nil_append]
      exact ih honce.2 hv fun u hu => hrest u (List.mem_cons_of_mem w hu)

/-- Where all the settings are one volume's, the others have none. -/
theorem settings_of_flatMap {vols : List (Str × List Str)} {v w : Str × List Str} (hv : v ∈ vols) (hw : w ∈ vols) (hne : v ≠ w)
    (hall : vols.flatMap Prod.snd = v.2) : w.2 = [] := by
  obtain ⟨pre, post, rfl⟩ := List.append_of_mem hv
  have hmem : w ∈ pre ++ post := by
    rw [List.mem_append, List.mem_cons] at hw
    rw [List.mem_append]
    obtain hw | rfl | hw := hw
    · exact Or.inl hw
    · exact absurd rfl hne
    · exact Or.inr hw
  have hlength := congrArg List.length hall
  rw [List.flatMap_append, List.flatMap_cons, List.length_append, List.length_append] at hlength
  have hpre : pre.flatMap Prod.snd = [] := List.eq_nil_of_length_eq_zero (by omega)
  have hpost : post.flatMap Prod.snd = [] := List.eq_nil_of_length_eq_zero (by omega)
  obtain hw | hw := List.mem_append.1 hmem
  · exact List.flatMap_eq_nil_iff.1 hpre w hw
  · exact List.flatMap_eq_nil_iff.1 hpost w hw

theorem mem_names {s : List Str} (h : (n, s) ∈ listed body) : n ∈ names body := List.mem_map.2 ⟨(n, s), h, rfl⟩

/-- What is to be listed, by name. -/
theorem remains_of_listed {s : List Str} (h : ((n, s) ∈ listed body ∧ (n ∉ managed ∨ n ∈ named)) ∨ (n ∈ named ∧ n ≠ [] ∧ n ∉ names body ∧ s = [])) :
    Remains body named managed n := by
  obtain ⟨hmem, hnot | hin⟩ | ⟨hin, hne, -⟩ := h
  · exact Or.inr ⟨mem_names hmem, hnot⟩
  · refine Or.inl ⟨hin, ?_⟩
    rintro rfl
    have hname := (isVolumeName_of_mem (mem_names hmem)).1
    cases hname
  · exact Or.inl ⟨hin, hne⟩

/-- A volume that remains is to be listed with the settings that it has. -/
theorem listed_iff_of_remains (hn : Remains body named managed n) (own : List Str)
    (hown : ∀ s, (n, s) ∈ listed body → s = own) (hnew : n ∉ names body → own = []) {s : List Str} :
    (((n, s) ∈ listed body ∧ (n ∉ managed ∨ n ∈ named)) ∨ (n ∈ named ∧ n ≠ [] ∧ n ∉ names body ∧ s = [])) ↔ s = own := by
  constructor
  · rintro (⟨hmem, -⟩ | ⟨-, -, hnot, rfl⟩)
    · exact hown s hmem
    · exact (hnew hnot).symm
  · rintro rfl
    by_cases hmem : n ∈ names body
    · obtain ⟨⟨m, t⟩, ht, rfl⟩ := List.mem_map.1 hmem
      have := hown t ht
      subst this
      exact Or.inl ⟨ht, hn.elim (fun h => Or.inr h.1) fun h => Or.inl h.2⟩
    · obtain ⟨hin, hne⟩ | ⟨hin, -⟩ := hn
      · exact Or.inr ⟨hin, hne, hmem, hnew hmem⟩
      · exact absurd hin hmem

theorem finalNames_le {ns : List Str} {l m : Str} (hfinal : finalNames body named managed = ns ++ [l]) (hm : Remains body named managed m) : m ≤ l := by
  have hsorted : (ns ++ [l]).Pairwise (· ≤ ·) := hfinal ▸ List.pairwise_insertionSort _ _
  have hmem : m ∈ ns ++ [l] := hfinal ▸ mem_finalNames.2 hm
  obtain hns | heq := List.mem_append.1 hmem
  · exact (List.pairwise_append.1 hsorted).2.2 m hns l (List.mem_singleton.2 rfl)
  · exact le_of_eq (List.mem_singleton.1 heq)

theorem finalNames_nodup : (finalNames body named managed).Nodup :=
  (List.perm_insertionSort _ _).nodup_iff.2 (nodup_eraseDups _)

/-- Every volume has its own settings when only the last one has any. -/
theorem block_iff (hbody : TwoSpace body) {ns : List Str} {l : Str} (hfinal : finalNames body named managed = ns ++ [l])
    (hvalid : ∀ n ∈ named, n ≠ [] → IsVolumeName n) :
    (∀ n s, (n, s) ∈ listed ((ns ++ [l]).flatMap entry ++ (otherLines body).flatten) ↔
      ((n, s) ∈ listed body ∧ (n ∉ managed ∨ n ∈ named)) ∨ (n ∈ named ∧ n ≠ [] ∧ n ∉ names body ∧ s = [])) ↔
      ∀ v ∈ listed body, v.2 ≠ [] → ∀ m, Remains body named managed m → Remains body named managed v.1 ∧ m ≤ v.1 := by
  have hmem : ∀ n, n ∈ ns ++ [l] ↔ Remains body named managed n := fun n => hfinal ▸ mem_finalNames
  have hnames : ∀ n ∈ ns ++ [l], IsVolumeName n := fun n hn =>
    ((hmem n).1 hn).elim (fun h => hvalid n h.1 h.2) fun h => isVolumeName_of_mem h.1
  have hlast : Remains body named managed l := (hmem l).1 (by simp)
  have hblock := fun n s => @mem_listed_block body n ns l hbody (hfinal ▸ finalNames_nodup) hnames s
  constructor
  · intro h v hv hne m hm
    by_cases hvl : v.1 = l
    · rw [hvl]
      exact ⟨hlast, finalNames_le hfinal hm⟩
    · -- the last one has got the settings of `v`
      have hown := (h l ((listed body).flatMap Prod.snd)).1 ((hblock _ _).2 ⟨(hmem l).2 hlast, (if_pos rfl).symm⟩)
      refine absurd ?_ hne
      obtain ⟨hl, -⟩ | ⟨-, -, -, hnil⟩ := hown
      · exact settings_of_flatMap hl hv (fun heq => hvl (heq ▸ rfl)) rfl
      · exact List.flatMap_eq_nil_iff.1 hnil v hv
  · intro howner n s
    have hothers : ∀ v ∈ listed body, v.1 ≠ l → v.2 = [] := by
      intro v hv hne
      by_contra hset
      obtain ⟨hremains, hle⟩ := howner v hv hset l hlast
      exact hne (le_antisymm (finalNames_le hfinal hremains) hle)
    rw [hblock, hmem]
    by_cases hn : Remains body named managed n
    · rw [listed_iff_of_remains hn (if n = l then (listed body).flatMap Prod.snd else [])]
      · exact and_iff_right hn
      · intro t ht
        by_cases hnl : n = l
        · subst hnl
          rw [if_pos rfl]
          exact (flatMap_settings hbody.once ht hothers).symm
        · rw [if_neg hnl]
          exact hothers (n, t) ht hnl
      · intro hnot
        by_cases hnl : n = l
        · subst hnl
          rw [if_pos rfl, List.flatMap_eq_nil_iff]
          exact fun v hv => hothers v hv fun heq => hnot (heq ▸ List.mem_map_of_mem hv)
        · exact if_neg hnl
    · exact iff_of_false (fun h => hn h.1) fun h => hn (remains_of_listed h)

/-- The lines of the new block begin no key. -/
theorem noTop_block (hbody : TwoSpace body) {ns : List Str} (h : ∀ n ∈ ns, IsVolumeName n) :
    (untilTopKey true (ns.flatMap entry ++ (otherLines body).flatten)).2 = [] := by
  have hlines : ∀ ls : List Str, (∀ l ∈ ls, splitlinesKeep l = [l] ∧ ∀ c, l.head? = some c → (isAlnum c && !isDigit c) = false) → ∀ s,
      (untilTopKey true s).2 = [] → (untilTopKey true (ls.flatten ++ s)).2 = [] := by
    intro ls hls s hs
    induction ls with
    | nil => exact hs
    | cons l ls ih =>
      rw [List.flatten_cons, List.append_assoc]
      exact noTop_line (hls l List.mem_cons_self).1 (ih fun m hm => hls m (List.mem_cons_of_mem l hm)) fun _ => (hls l List.mem_cons_self).2
  rw [List.flatMap]
  refine hlines _ ?_ _ ?_
  · intro l hl
    obtain ⟨n, hn, rfl⟩ := List.mem_map.1 hl
    refine ⟨(ended_entry (h n hn)).alone, fun c hc => ?_⟩
    obtain rfl : ' ' = c := Option.some.inj hc
    decide
  · rw [← List.append_nil (otherLines body).flatten]
    refine hlines _ ?_ _ rfl
    intro l hl
    have hl := List.mem_filter.1 hl
    rw [Bool.and_eq_true, bne_iff_ne, Option.isNone_iff_eq_none] at hl
    refine ⟨(splitlinesKeep_lines body).2 l hl.1, fun c hc => ?_⟩
    obtain hblank | hcomment | hkey | hnested := hbody.lines l hl.1
    · exact absurd hblank hl.2.2
    · by_contra hletter
      rw [Bool.not_eq_false] at hletter
      cases l with
      | nil => cases hc
      | cons d t =>
        obtain rfl : d = c := Option.some.inj hc
        have hspace : isSpace d = false := isSpace_of_isPathChar (by simp [isPathChar, (Bool.and_eq_true_iff.1 hletter).1])
        have hstrip : strip (d :: t) = d :: rstripWhere isSpace t := strip_append hspace [] t
        rw [isComment, hstrip, List.head?_cons, beq_iff_eq] at hcomment
        rw [Option.some.inj hcomment] at hletter
        exact absurd hletter (by decide)
    · rw [keyOf, hl.2.1] at hkey
      cases hkey
    · cases l with
      | nil => cases hc
      | cons d t =>
        obtain rfl : d = c := Option.some.inj hc
        obtain ⟨r, hr⟩ := List.isPrefixOf_iff_prefix.1 hnested
        injection hr with hr _
        rw [← hr]
        decide

/-! ## The whole text -/

/-- Two block headers at one place are one, and so is what follows. -/
theorem same_rest {header block gap rest : Str} (tail : Str) (hgap : '\n' ∉ gap)
    (hheader : (header = [] ∧ block = []) ∨ ∃ gap, header = lit "volumes:" ++ gap ++ ['\n'] ∧ '\n' ∉ gap)
    (h : header ++ (block ++ after) = lit "volumes:" ++ gap ++ ['\n'] ++ (rest ++ (after ++ tail))) : block ++ after = rest ++ (after ++ tail) := by
  obtain ⟨rfl, rfl⟩ | ⟨gap', rfl, hgap'⟩ := hheader
  · have hlength := congrArg List.length h
    simp only [List.length_append, List.length_nil, List.length_singleton] at hlength
    omega
  · rw [List.append_assoc, List.append_assoc, List.append_assoc (lit "volumes:" ++ gap), List.append_assoc (lit "volumes:"),
      List.append_cancel_left_eq] at h
    have hdrop := congrArg (List.dropWhile (· != '\n')) h
    rw [List.singleton_append, List.singleton_append, dropWhile_append_cons hgap', dropWhile_append_cons hgap] at hdrop
    exact List.tail_eq_of_cons_eq hdrop

theorem sync_plain_iff (hbody : TwoSpace body) (hheader : volumesHeader true text = some (before, rest)) (hcut : untilTopKey true rest = (body, after)) :
    (∃ header block, TouchesOnlyManaged before body after named managed (syncComposeNamedVolumes text named managed) header block) ↔
      SyncCalm before body named managed := by
  rw [sync_plain hheader hcut]
  have hrstrip : (rstripWhere isSpace before).length ≤ before.length := (List.rdropWhile_prefix _ _).length_le
  rcases List.eq_nil_or_concat (finalNames body named managed) with hfinal | ⟨ns, l, hfinal⟩
  · have hnone := finalNames_eq_nil.1 hfinal
    have hvalid : ∀ n ∈ named, n ≠ [] → IsVolumeName n := fun n hn hne => absurd (Or.inl ⟨hn, hne⟩) (hnone n)
    have howner : ∀ v ∈ listed body, v.2 ≠ [] → ∀ m, Remains body named managed m → Remains body named managed v.1 ∧ m ≤ v.1 :=
      fun v _ _ m hm => absurd hm (hnone m)
    have hlisted : ∀ n s, (n, s) ∈ listed [] ↔
        ((n, s) ∈ listed body ∧ (n ∉ managed ∨ n ∈ named)) ∨ (n ∈ named ∧ n ≠ [] ∧ n ∉ names body ∧ s = []) :=
      fun n s => iff_of_false List.not_mem_nil fun h => hnone n (remains_of_listed h)
    rw [hfinal]
    by_cases hothers : otherLines body = []
    · -- the block goes
      have hlines : ∀ line ∈ splitlinesKeep body, strip line = [] ∨ (keyOf line).isSome := by
        intro line hline
        have hnot := List.filter_eq_nil_iff.1 hothers line hline
        rw [Bool.and_eq_true, bne_iff_ne, Option.isNone_iff_eq_none, not_and_or, not_not] at hnot
        exact hnot.symm.imp id fun h => Option.isSome_iff_ne_none.2 h
      rw [if_pos ⟨rfl, hothers⟩]
      constructor
      · rintro ⟨header, block, h⟩
        refine ⟨hvalid, howner, fun _ _ => ?_⟩
        have hout := h.outside
        rw [← List.singleton_append, ← List.append_assoc, ← List.append_assoc header, ← List.append_assoc before,
          List.append_cancel_right_eq] at hout
        obtain ⟨hnil, hblock⟩ | ⟨gap, hgap, -⟩ := h.header
        · rw [hout, hnil, hblock, List.append_nil, List.append_nil]
        · have hlength := congrArg List.length hout
          rw [hgap] at hlength
          have hword : (lit "volumes:").length = 8 := rfl
          simp only [List.length_append, List.length_singleton, hword] at hlength
          omega
      · intro h
        refine ⟨[], [], ⟨?_, Or.inl ⟨rfl, rfl⟩, rfl, hlisted⟩⟩
        rw [← List.singleton_append, ← List.append_assoc, h.seam hnone hlines]
        rfl
    · rw [if_neg fun h => hothers h.2, if_pos rfl]
      constructor
      · intro _
        refine ⟨hvalid, howner, fun _ hlines => absurd ?_ hothers⟩
        rw [otherLines, List.filter_eq_nil_iff]
        intro line hline
        rw [Bool.and_eq_true, bne_iff_ne, Option.isNone_iff_eq_none, not_and_or, not_not]
        exact (hlines line hline).symm.imp (fun h => Option.isSome_iff_ne_none.1 h) id
      · intro _
        refine ⟨lit "volumes:\n", [], ⟨?_, Or.inr ⟨[], rfl, List.not_mem_nil⟩, rfl, hlisted⟩⟩
        rw [List.flatMap_nil, List.append_nil, List.append_nil, List.append_assoc]
        rfl
  · rw [List.concat_eq_append] at hfinal
    have hne : finalNames body named managed ≠ [] := by
      rw [hfinal]
      simp
    rw [if_neg fun h => hne h.1, if_neg hne, hfinal]
    have hnone : ¬ ∀ n, ¬ Remains body named managed n := fun h => hne (finalNames_eq_nil.2 h)
    have hassoc : before ++ lit "volumes:\n" ++ (ns ++ [l]).flatMap entry ++ (otherLines body).flatten ++ after =
        before ++ (lit "volumes:\n" ++ ((ns ++ [l]).flatMap entry ++ (otherLines body).flatten ++ after)) := by
      simp only [List.append_assoc]
    rw [hassoc]
    constructor
    · rintro ⟨header, block, h⟩
      have hout := List.append_cancel_left h.outside
      have hblock : block ++ after = (ns ++ [l]).flatMap entry ++ (otherLines body).flatten ++ (after ++ []) :=
        same_rest [] List.not_mem_nil h.header (by rw [← hout, List.append_nil after]; rfl)
      rw [List.append_nil, List.append_cancel_right_eq] at hblock
      have hvolumes := h.volumes
      rw [hblock] at hvolumes
      have hvalid : ∀ n ∈ named, n ≠ [] → IsVolumeName n := by
        intro n hn hne
        by_cases hmem : n ∈ names body
        · exact isVolumeName_of_mem hmem
        · exact isVolumeName_of_mem (mem_names ((hvolumes n []).2 (Or.inr ⟨hn, hne, hmem, rfl⟩)))
      exact ⟨hvalid, (block_iff hbody hfinal hvalid).1 hvolumes, fun h => absurd h hnone⟩
    · intro h
      have hnames : ∀ n ∈ ns ++ [l], IsVolumeName n := fun n hn =>
        (mem_finalNames.1 (hfinal ▸ hn)).elim (fun hin => h.valid n hin.1 hin.2) fun hin => isVolumeName_of_mem hin.1
      exact ⟨lit "volumes:\n", (ns ++ [l]).flatMap entry ++ (otherLines body).flatten,
        ⟨rfl, Or.inr ⟨[], rfl, List.not_mem_nil⟩, noTop_block hbody hnames, (block_iff hbody hfinal h.valid).2 h.owner⟩⟩

/-- A block that the code does not see is kept as it is, and a second one is put behind the text. -/
theorem sync_unseen (hheader : volumesHeader true text = none) :
    (named.filter (· ≠ []) = [] ∧ syncComposeNamedVolumes text named managed = text) ∨
      (named.filter (· ≠ []) ≠ [] ∧ ∃ gap tail, syncComposeNamedVolumes text named managed = text ++ gap ++ '\n' :: 'v' :: tail) := by
  unfold syncComposeNamedVolumes
  dsimp only
  rw [hheader]
  dsimp only
  by_cases hnamed : named.filter (· ≠ []) = []
  · exact Or.inl ⟨hnamed, if_pos hnamed⟩
  · refine Or.inr ⟨hnamed, ?_⟩
    rw [if_neg hnamed]
    split
    · exact ⟨lit "\n", _, by rw [List.append_assoc]; rfl⟩
    · exact ⟨[], _, by rw [List.append_nil, List.append_assoc]; rfl⟩

theorem sync_commented_iff {gap : Str} (hheader : volumesHeader true text = none)
    (htext : text = before ++ (lit "volumes:" ++ gap ++ ['\n'] ++ (body ++ after))) (hgap : '\n' ∉ gap)
    (hcut : untilTopKey true (body ++ after) = (body, after)) :
    (∃ header block, TouchesOnlyManaged before body after named managed (syncComposeNamedVolumes text named managed) header block) ↔
      (∀ n ∈ named, n = []) ∧ ∀ n ∈ names body, n ∉ managed := by
  obtain ⟨hnamed, hsync⟩ | ⟨hnamed, mid, tail, hsync⟩ := @sync_unseen text named managed hheader
  · have hempty : ∀ n ∈ named, n = [] := by
      intro n hn
      by_contra hne
      exact List.filter_eq_nil_iff.1 hnamed n hn (decide_eq_true hne)
    have hnot : ∀ n ∈ names body, n ∉ named := fun n hn hin => by
      have hname := (isVolumeName_of_mem hn).1
      rw [hempty n hin] at hname
      cases hname
    rw [hsync]
    constructor
    · rintro ⟨header, block, h⟩
      have hout := List.append_cancel_left (htext.symm.trans h.outside)
      have hblock := same_rest [] hgap h.header (by rw [← hout, List.append_nil])
      rw [List.append_nil, List.append_cancel_right_eq] at hblock
      refine ⟨hempty, fun n hn => ?_⟩
      obtain ⟨⟨m, s⟩, hs, rfl⟩ := List.mem_map.1 hn
      obtain ⟨-, hmanaged | hin⟩ | ⟨hin, -⟩ := (h.volumes m s).1 (hblock ▸ hs)
      · exact hmanaged
      · exact absurd hin (hnot m hn)
      · exact absurd hin (hnot m hn)
    · rintro ⟨-, hmanaged⟩
      refine ⟨lit "volumes:" ++ gap ++ ['\n'], body, ⟨htext, Or.inr ⟨gap, rfl, hgap⟩, ?_, fun n s => ?_⟩⟩
      · exact noTop_of_cut hcut
      · constructor
        · exact fun hs => Or.inl ⟨hs, Or.inl (hmanaged n (mem_names hs))⟩
        · rintro (⟨hs, -⟩ | ⟨hin, hne, -⟩)
          · exact hs
          · exact absurd (hempty n hin) hne
  · -- a second block stands behind the text
    rw [hsync]
    refine iff_of_false ?_ fun h => ?_
    · rintro ⟨header, block, h⟩
      have hout : lit "volumes:" ++ gap ++ ['\n'] ++ (body ++ (after ++ (mid ++ '\n' :: 'v' :: tail))) = header ++ (block ++ after) := by
        refine List.append_cancel_left (Eq.trans ?_ h.outside)
        rw [htext]
        simp only [List.append_assoc]
      have hblock := same_rest _ hgap h.header hout.symm
      cases after with
      | nil =>
        rw [List.append_nil, List.nil_append, ← List.append_assoc] at hblock
        have hwhole := h.whole
        rw [hblock] at hwhole
        exact top_of_newline (by decide) _ _ hwhole
      | cons c t =>
        obtain ⟨z, hz, htail⟩ | ⟨z, hz, htail⟩ := List.append_eq_append_iff.1 hblock
        · have hlength := congrArg List.length htail
          simp only [List.length_append, List.length_cons] at hlength
          omega
        · have hwhole := h.whole
          cases z with
          | nil =>
            have hlength := congrArg List.length htail
            simp only [List.length_append, List.length_cons, List.length_nil] at hlength
            omega
          | cons d y =>
            obtain rfl : c = d := by
              rw [List.cons_append, List.cons_append] at htail
              exact List.head_eq_of_cons_eq htail
            rw [hz, untilTopKey_again hcut] at hwhole
            cases hwhole
    · refine hnamed (List.filter_eq_nil_iff.2 fun n hn => ?_)
      simp [h.1 n hn]

/-- `sync_compose_named_volumes` touches only managed names exactly where it works well. -/
theorem sync_touches_only_managed_iff {text before body after : Str} {commented : Bool} (htext : HasBlock text before body after commented)
    (hbody : TwoSpace body) (named managed : List Str) :
    (∃ header block, TouchesOnlyManaged before body after named managed (syncComposeNamedVolumes text named managed) header block) ↔
      SyncsWell before body named managed commented := by
  cases htext with
  | plain rest hheader hcut => exact sync_plain_iff hbody hheader hcut
  | commented gap hheader htext hgap hcut => exact sync_commented_iff hheader htext hgap.1 hcut

end

/-- Two volumes of a template, the first with a driver of its own; none is managed. -/
def twoVolumes : Str := lit "services:\n  web:\nvolumes:\n  data:\n    driver: local\n  logs:\n"

def twoVolumesBody : Str := lit "\n  data:\n    driver: local\n  logs:\n"

theorem hasBlock_twoVolumes : HasBlock twoVolumes (lit "services:\n  web:\n") twoVolumesBody [] false :=
  .plain twoVolumesBody (by decide +kernel) (by decide +kernel)

theorem twoSpace_twoVolumes : TwoSpace twoVolumesBody := ⟨by decide +kernel, by decide +kernel, by decide +kernel⟩

theorem driver_goes_to_the_last :
    ¬ ∀ (text before body after : Str) (commented : Bool) (named managed : List Str), HasBlock text before body after commented → TwoSpace body →
      ∃ header block, TouchesOnlyManaged before body after named managed (syncComposeNamedVolumes text named managed) header block := by
  intro h
  have hsync := h twoVolumes _ _ _ false [] [] hasBlock_twoVolumes twoSpace_twoVolumes
  have hheader : volumesHeader true twoVolumes = some (lit "services:\n  web:\n", twoVolumesBody) := by decide +kernel
  have hcalm := (sync_plain_iff twoSpace_twoVolumes hheader (by decide +kernel)).1 hsync
  have howner := hcalm.owner (lit "data", [lit "    driver: local\n"]) (by decide +kernel) (by decide +kernel) (lit "logs") (Or.inr (by decide +kernel))
  exact absurd howner.2 (by decide +kernel)

theorem driver_of_the_last :
    HasBlock twoVolumes (lit "services:\n  web:\n") twoVolumesBody [] false ∧ TwoSpace twoVolumesBody ∧
      ((∃ header block, TouchesOnlyManaged (lit "services:\n  web:\n") twoVolumesBody [] [lit "web"] [lit "data", lit "logs"]
          (syncComposeNamedVolumes twoVolumes [lit "web"] [lit "data", lit "logs"]) header block) ↔
        SyncsWell (lit "services:\n  web:\n") twoVolumesBody [lit "web"] [lit "data", lit "logs"] false) :=
  ⟨hasBlock_twoVolumes, twoSpace_twoVolumes, sync_touches_only_managed_iff hasBlock_twoVolumes twoSpace_twoVolumes _ _⟩

end PiHerder.Stacks
