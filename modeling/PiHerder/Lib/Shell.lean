import PiHerder.Lib.Path

/-!
# Words of a POSIX shell line

`quote` is `shlex.quote`; `shellWords` reads a line as the shell does, as far as it is made of plain words and
quotes. **A quoted line comes apart into the words it was made of** (`shellWords_join`). `beforeSlash` and
`afterSlash` are the parameter expansions that walk down a path.
-/
namespace Lib
namespace Shell
open Str

/-- A character that `shlex.quote` leaves bare, and that means only itself to the shell. -/
def safeChar (c : Char) : Bool :=
  isDigit c || decide ('a' ≤ c ∧ c ≤ 'z') || decide ('A' ≤ c ∧ c ≤ 'Z') || decide (c ∈ lit "_@%+=:,./-")

/-- `s.replace("'", "'\\"'\\"'")`. -/
def escapeQuotes : Str → Str
  | [] => []
  | c :: s => if c = '\'' then lit "'\"'\"'" ++ escapeQuotes s else c :: escapeQuotes s

/-- `shlex.quote`. -/
def quote (s : Str) : Str :=
  if s = [] then lit "''"
  else if s.all safeChar then s
  else '\'' :: escapeQuotes s ++ lit "'"

inductive Quoting
  | bare
  | single
  | double

/-- What ends an expansion-free double-quoted text: `$`, a backquote, a backslash. -/
def expands (c : Char) : Bool := decide (c = '$' ∨ c = Char.ofNat 96 ∨ c = '\\')

/-- `w` is the word under way. A line that needs more than words and quotes has no words here. -/
def lexWords : Quoting → Option Str → Str → Option (List Str)
  | .bare, w, [] => some w.toList
  | .single, _, [] => none
  | .double, _, [] => none
  | .bare, w, c :: s =>
    if c = ' ' ∨ c = '\t' then (lexWords .bare none s).map (w.toList ++ ·)
    else if c = '\'' then lexWords .single (some (w.getD [])) s
    else if c = '"' then lexWords .double (some (w.getD [])) s
    else if safeChar c then lexWords .bare (some (w.getD [] ++ [c])) s
    else none
  | .single, w, c :: s =>
    if c = '\'' then lexWords .bare w s else lexWords .single (some (w.getD [] ++ [c])) s
  | .double, w, c :: s =>
    if c = '"' then lexWords .bare w s
    else if expands c then none
    else lexWords .double (some (w.getD [] ++ [c])) s

def shellWords (line : Str) : Option (List Str) := lexWords .bare none line

theorem safe_ne {c : Char} (h : safeChar c = true) : ¬ (c = ' ' ∨ c = '\t') ∧ c ≠ '\'' ∧ c ≠ '"' := by
  refine ⟨?_, ?_, ?_⟩
  · rintro (rfl | rfl) <;> exact absurd h (by decide)
  · rintro rfl
    exact absurd h (by decide)
  · rintro rfl
    exact absurd h (by decide)

/-- A safe character goes on with a word, or begins one. -/
theorem lexWords_cons_safe {c : Char} (h : safeChar c = true) (w : Option Str) (s : Str) :
    lexWords .bare w (c :: s) = lexWords .bare (some (w.getD [] ++ [c])) s := by
  obtain ⟨hblank, hsingle, hdouble⟩ := safe_ne h
  rw [lexWords, if_neg hblank, if_neg hsingle, if_neg hdouble, if_pos h]

theorem lexWords_safe {s : Str} (hs : s.all safeChar = true) (t : Str) : ∀ w : Str,
    lexWords .bare (some w) (s ++ t) = lexWords .bare (some (w ++ s)) t := by
  induction s with
  | nil =>
    intro w
    rw [List.append_nil]
    rfl
  | cons c s ih =>
    intro w
    rw [List.all_cons, Bool.and_eq_true] at hs
    rw [List.cons_append, lexWords_cons_safe hs.1, ih hs.2]
    simp

theorem lexWords_escaped (s t : Str) : ∀ w : Str,
    lexWords .single (some w) (escapeQuotes s ++ '\'' :: t) = lexWords .bare (some (w ++ s)) t := by
  induction s with
  | nil =>
    intro w
    rw [List.append_nil, escapeQuotes, List.nil_append, lexWords, if_pos rfl]
  | cons c s ih =>
    intro w
    unfold escapeQuotes
    by_cases hc : c = '\''
    · have hquote : ∀ rest, lexWords .single (some w) (lit "'\"'\"'" ++ rest) = lexWords .single (some (w ++ ['\''])) rest := by
        intro rest
        have hbare : ¬ (('\'' : Char) = ' ' ∨ ('\'' : Char) = '\t') ∧ ¬ (('"' : Char) = ' ' ∨ ('"' : Char) = '\t') := by decide
        have hexp : expands '\'' = false := by decide
        show lexWords .single (some w) ('\'' :: '"' :: '\'' :: '"' :: '\'' :: rest) = _
        rw [lexWords, if_pos rfl, lexWords, if_neg hbare.2, if_neg (by decide), if_pos rfl, lexWords, if_neg (by decide),
          hexp, if_neg (by simp), lexWords, if_pos rfl, lexWords, if_neg hbare.1, if_pos rfl]
        rfl
      rw [if_pos hc, List.append_assoc, hquote, ih, hc]
      simp
    · rw [if_neg hc, List.cons_append, lexWords, if_neg hc, Option.getD_some, ih]
      simp

/-- A quoted text at the start of a word. -/
theorem lexWords_quote (s t : Str) : lexWords .bare none (quote s ++ t) = lexWords .bare (some s) t := by
  have hstart : ∀ rest, lexWords .bare none ('\'' :: rest) = lexWords .single (some []) rest := by
    intro rest
    rw [lexWords, if_neg (by decide), if_pos rfl]
    rfl
  unfold quote
  by_cases hnil : s = []
  · rw [if_pos hnil, hnil]
    show lexWords .bare none ('\'' :: '\'' :: t) = _
    rw [hstart, lexWords, if_pos rfl]
  · rw [if_neg hnil]
    by_cases hsafe : s.all safeChar = true
    · rw [if_pos hsafe]
      obtain ⟨c, s, rfl⟩ := List.exists_cons_of_ne_nil hnil
      rw [List.all_cons, Bool.and_eq_true] at hsafe
      rw [List.cons_append, lexWords_cons_safe hsafe.1, lexWords_safe hsafe.2]
      rfl
    · have hquoted : '\'' :: escapeQuotes s ++ lit "'" ++ t = '\'' :: (escapeQuotes s ++ '\'' :: t) := by
        rw [List.cons_append, List.cons_append, List.append_assoc]
        rfl
      rw [if_neg hsafe, hquoted, hstart]
      exact lexWords_escaped s t []

/-- **A line of quoted words has these words.** -/
theorem shellWords_join : ∀ ws : List Str, shellWords (join ' ' (ws.map quote)) = some ws
  | [] => rfl
  | [w] => by
    have := lexWords_quote w []
    rw [List.append_nil] at this
    exact this
  | w :: v :: ws => by
    have ih := shellWords_join (v :: ws)
    unfold shellWords at ih ⊢
    rw [List.map_cons, List.map_cons, join, lexWords_quote, lexWords, if_pos (Or.inl rfl)]
    · rw [List.map_cons] at ih
      rw [ih]
      rfl
    · simp

/-- `${s%%/*}`. -/
def beforeSlash (s : Str) : Str := s.takeWhile (· != '/')

/-- `${s#*/}`. -/
def afterSlash (s : Str) : Str := if '/' ∈ s then (s.dropWhile (· != '/')).tail else s

theorem slash_notMem_beforeSlash (s : Str) : '/' ∉ beforeSlash s := by
  intro h
  have := List.mem_takeWhile_imp h
  simp at this

theorem beforeSlash_of_notMem {s : Str} (h : '/' ∉ s) : beforeSlash s = s :=
  List.takeWhile_eq_self_iff.2 fun c hc => by
    rw [bne_iff_ne]
    rintro rfl
    exact h hc

/-- The two expansions take a path apart at its first slash. -/
theorem before_after {s : Str} (h : '/' ∈ s) : s = beforeSlash s ++ '/' :: afterSlash s := by
  unfold beforeSlash afterSlash
  rw [if_pos h]
  induction s with
  | nil => cases h
  | cons c s ih =>
    by_cases hc : c = '/'
    · rw [hc]
      rfl
    · have hmem : '/' ∈ s := (List.mem_cons.1 h).resolve_left fun heq => hc heq.symm
      have hne : (c != '/') = true := bne_iff_ne.2 hc
      calc c :: s = c :: (s.takeWhile (· != '/') ++ '/' :: (s.dropWhile (· != '/')).tail) := by rw [← ih hmem]
        _ = _ := by rw [List.takeWhile_cons, List.dropWhile_cons, if_pos hne, if_pos hne, List.cons_append]

theorem eq_beforeSlash_iff {s : Str} : s = beforeSlash s ↔ '/' ∉ s :=
  ⟨fun h => h ▸ slash_notMem_beforeSlash s, fun h => (beforeSlash_of_notMem h).symm⟩

theorem length_afterSlash_lt {s : Str} (h : '/' ∈ s) : (afterSlash s).length < s.length := by
  have := congrArg List.length (before_after h)
  rw [List.length_append, List.length_cons] at this
  omega

theorem split_afterSlash {s : Str} (h : '/' ∈ s) : split '/' s = beforeSlash s :: split '/' (afterSlash s) := by
  conv_lhs => rw [before_after h]
  rw [split_append_cons, split_of_notMem (slash_notMem_beforeSlash s)]
  rfl

example : quote (lit "a'b c") = lit "'a'\"'\"'b c'" := by decide +kernel
example : shellWords (lit "apply_rel 'my files' 0 0 0755") = some [lit "apply_rel", lit "my files", lit "0", lit "0", lit "0755"] := by
  decide +kernel

end Shell
end Lib
