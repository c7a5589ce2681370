import PiHerder.Lib.PyStr
import PiHerder.Lib.Scan

/-!
# `str.format`

A format string is literal text, doubled braces, and replacement fields: a name, a conversion after `!`, a specification
after `:`. What a field gives is a parameter; `none` is an exception.
-/
namespace Lib.Format
open Lib.Str

/-- Up to the end of the field's name; in brackets nothing ends it. -/
def fieldName : Bool → Str → Option (Str × Char × Str)
  | _, [] => none
  | true, c :: s => (fieldName (c != ']') s).map fun (name, stop, rest) => (c :: name, stop, rest)
  | false, c :: s =>
    if c = '{' then none
    else if c = '}' ∨ c = ':' ∨ c = '!' then some ([], c, s)
    else (fieldName (c == '[') s).map fun (name, stop, rest) => (c :: name, stop, rest)

/-- Up to the brace that closes the specification. -/
def fieldSpec : Nat → Str → Option (Str × Str)
  | _, [] => none
  | depth, c :: s =>
    if c = '}' ∧ depth = 0 then some ([], s)
    else (fieldSpec (if c = '{' then depth + 1 else if c = '}' then depth - 1 else depth) s).map fun (spec, rest) => (c :: spec, rest)

structure Field where
  name : Str
  conversion : Option Char
  spec : Str
deriving DecidableEq, Repr

/-- What follows an opening brace, and the rest. -/
def parseField (s : Str) : Option (Field × Str) :=
  match fieldName false s with
  | none => none
  | some (name, stop, rest) =>
    if stop = '}' then some (⟨name, none, []⟩, rest)
    else if stop = ':' then (fieldSpec 0 rest).map fun (spec, rest) => (⟨name, none, spec⟩, rest)
    else match rest with
      | c :: '}' :: rest => some (⟨name, some c, []⟩, rest)
      | c :: ':' :: rest => (fieldSpec 0 rest).map fun (spec, rest) => (⟨name, some c, spec⟩, rest)
      | _ => none

theorem fieldName_suffix {b : Bool} {s name rest : Str} {stop : Char} (h : fieldName b s = some (name, stop, rest)) : rest <:+ s := by
  induction s generalizing b name with
  | nil => cases b <;> cases h
  | cons c s ih =>
    cases b with
    | true =>
      unfold fieldName at h
      obtain ⟨⟨name', stop', rest'⟩, hs, heq⟩ := Option.map_eq_some_iff.1 h
      simp only [Prod.mk.injEq] at heq
      obtain ⟨-, rfl, rfl⟩ := heq
      exact (ih hs).trans (List.suffix_cons c s)
    | false =>
      unfold fieldName at h
      split at h
      · cases h
      · split at h
        · simp only [Option.some.injEq, Prod.mk.injEq] at h
          obtain ⟨-, -, rfl⟩ := h
          exact List.suffix_cons c s
        · obtain ⟨⟨name', stop', rest'⟩, hs, heq⟩ := Option.map_eq_some_iff.1 h
          simp only [Prod.mk.injEq] at heq
          obtain ⟨-, rfl, rfl⟩ := heq
          exact (ih hs).trans (List.suffix_cons c s)

theorem fieldSpec_suffix {depth : Nat} {s spec rest : Str} (h : fieldSpec depth s = some (spec, rest)) : rest <:+ s := by
  induction s generalizing depth spec with
  | nil => cases h
  | cons c s ih =>
    unfold fieldSpec at h
    split at h
    · simp only [Option.some.injEq, Prod.mk.injEq] at h
      obtain ⟨-, rfl⟩ := h
      exact List.suffix_cons c s
    · obtain ⟨⟨spec', rest'⟩, hs, heq⟩ := Option.map_eq_some_iff.1 h
      simp only [Prod.mk.injEq] at heq
      obtain ⟨-, rfl⟩ := heq
      exact (ih hs).trans (List.suffix_cons c s)

theorem parseField_suffix {s rest : Str} {f : Field} (h : parseField s = some (f, rest)) : rest <:+ s := by
  unfold parseField at h
  cases hname : fieldName false s with
  | none =>
    rw [hname] at h
    cases h
  | some out =>
    obtain ⟨name, stop, after⟩ := out
    have hafter := fieldName_suffix hname
    rw [hname] at h
    simp only at h
    split at h
    · simp only [Option.some.injEq, Prod.mk.injEq] at h
      obtain ⟨-, rfl⟩ := h
      exact hafter
    · split at h
      · obtain ⟨⟨spec, rest'⟩, hs, heq⟩ := Option.map_eq_some_iff.1 h
        simp only [Prod.mk.injEq] at heq
        obtain ⟨-, rfl⟩ := heq
        exact (fieldSpec_suffix hs).trans hafter
      · split at h
        · simp only [Option.some.injEq, Prod.mk.injEq] at h
          obtain ⟨-, rfl⟩ := h
          exact ((List.suffix_cons _ _).trans (List.suffix_cons _ _)).trans hafter
        · obtain ⟨⟨spec, rest'⟩, hs, heq⟩ := Option.map_eq_some_iff.1 h
          simp only [Prod.mk.injEq] at heq
          obtain ⟨-, rfl⟩ := heq
          exact ((fieldSpec_suffix hs).trans ((List.suffix_cons _ _).trans (List.suffix_cons _ _))).trans hafter
        · cases h

inductive Piece
  | char (c : Char)
  | field (f : Field)
  | single
deriving DecidableEq, Repr

/-- One piece; a brace that belongs to nothing is `single`. -/
def nextPiece : Str → Option (Piece × Str)
  | [] => none
  | c :: s =>
    if c = '{' then
      if s.head? = some '{' then some (.char c, s.tail)
      else match parseField s with
        | some (f, rest) => some (.field f, rest)
        | none => some (.single, s)
    else if c = '}' then (if s.head? = some '}' then some (.char c, s.tail) else some (.single, s))
    else some (.char c, s)

theorem nextPiece_cons (c : Char) (s : Str) : nextPiece (c :: s) =
    if c = '{' then
      if s.head? = some '{' then some (.char c, s.tail)
      else match parseField s with
        | some (f, rest) => some (.field f, rest)
        | none => some (.single, s)
    else if c = '}' then (if s.head? = some '}' then some (.char c, s.tail) else some (.single, s))
    else some (.char c, s) := rfl

theorem nextPiece_suffix {c : Char} {s rest : Str} {t : Piece} (h : nextPiece (c :: s) = some (t, rest)) : rest <:+ s := by
  rw [nextPiece_cons] at h
  split_ifs at h
  · obtain ⟨-, rfl⟩ := Prod.mk.inj (Option.some.inj h)
    exact List.tail_suffix s
  · cases hfield : parseField s with
    | none =>
      rw [hfield] at h
      obtain ⟨-, rfl⟩ := Prod.mk.inj (Option.some.inj h)
      exact List.suffix_refl s
    | some out =>
      rw [hfield] at h
      obtain ⟨-, rfl⟩ := Prod.mk.inj (Option.some.inj h)
      exact parseField_suffix hfield
  · obtain ⟨-, rfl⟩ := Prod.mk.inj (Option.some.inj h)
    exact List.tail_suffix s
  · obtain ⟨-, rfl⟩ := Prod.mk.inj (Option.some.inj h)
    exact List.suffix_refl s
  · obtain ⟨-, rfl⟩ := Prod.mk.inj (Option.some.inj h)
    exact List.suffix_refl s

def scanner : Scanner Char Piece where
  next := nextPiece
  takes {s t rest} h := by
    cases s with
    | nil => cases h
    | cons c s =>
      obtain ⟨u, rfl⟩ := nextPiece_suffix h
      exact ⟨c :: u, by simp, rfl⟩

/-- `field` is what a replacement field gives. -/
def Piece.render (field : Field → Option Str) : Piece → Option Str
  | .char c => some [c]
  | .field f => field f
  | .single => none

def renderAll (field : Field → Option Str) : List Piece → Option Str
  | [] => some []
  | t :: ts => (t.render field).bind fun x => (renderAll field ts).map (x ++ ·)

def format (field : Field → Option Str) (s : Str) : Option Str := renderAll field (scanner.scan s).1

variable {field : Field → Option Str}

theorem renderAll_isSome {ts : List Piece} : (renderAll field ts).isSome = true ↔ ∀ t ∈ ts, (t.render field).isSome = true := by
  induction ts with
  | nil => simp [renderAll]
  | cons t ts ih =>
    rw [List.forall_mem_cons, ← ih]
    cases h : t.render field <;> simp [renderAll, h]

/-- **A format fails at a piece that fails.** -/
theorem format_isSome {s : Str} : (format field s).isSome = true ↔ ∀ t ∈ (scanner.scan s).1, (t.render field).isSome = true :=
  renderAll_isSome

theorem format_char {c : Char} (hopen : c ≠ '{') (hclose : c ≠ '}') (s : Str) : format field (c :: s) = (format field s).map (c :: ·) := by
  have hnext : scanner.next (c :: s) = some (.char c, s) := by
    show nextPiece (c :: s) = _
    rw [nextPiece_cons, if_neg hopen, if_neg hclose]
  rw [format, Scanner.scan_some hnext]
  simp only [renderAll, Piece.render, Option.bind_some]
  rfl

/-- **Text without braces is its own format**, before whatever follows. -/
theorem format_literal {a : Str} (hopen : '{' ∉ a) (hclose : '}' ∉ a) (s : Str) : format field (a ++ s) = (format field s).map (a ++ ·) := by
  induction a with
  | nil => simp
  | cons c a ih =>
    rw [List.mem_cons, not_or] at hopen hclose
    rw [List.cons_append, format_char (Ne.symm hopen.1) (Ne.symm hclose.1), ih hopen.2 hclose.2, Option.map_map]
    rfl

/-- A field whose name is plain. -/
theorem format_field {name : Str} (hplain : ∀ c ∈ name, c ∉ ['{', '}', ':', '!', '[']) (s : Str) :
    format field ('{' :: (name ++ '}' :: s)) = (field ⟨name, none, []⟩).bind fun x => (format field s).map (x ++ ·) := by
  have hname : ∀ u : Str, (∀ c ∈ u, c ∉ ['{', '}', ':', '!', '[']) → fieldName false (u ++ '}' :: s) = some (u, '}', s) := by
    intro u
    induction u with
    | nil => exact fun _ => rfl
    | cons c u ih =>
      intro hu
      have hc := hu c List.mem_cons_self
      simp only [List.mem_cons, List.not_mem_nil, or_false, not_or] at hc
      obtain ⟨h1, h2, h3, h4, h5⟩ := hc
      have hb : (c == '[') = false := beq_eq_false_iff_ne.2 h5
      rw [List.cons_append]
      unfold fieldName
      rw [if_neg h1, if_neg (by simp [h2, h3, h4]), hb, ih fun x hx => hu x (List.mem_cons_of_mem c hx)]
      rfl
  have hhead : ¬ (name ++ '}' :: s).head? = some '{' := by
    cases name with
    | nil => simp
    | cons c u =>
      have hc := hplain c List.mem_cons_self
      intro h
      rw [Option.some.inj h] at hc
      simp at hc
  have hfield : parseField (name ++ '}' :: s) = some (⟨name, none, []⟩, s) := by
    unfold parseField
    rw [hname name hplain]
    rfl
  have hnext : scanner.next ('{' :: (name ++ '}' :: s)) = some (.field ⟨name, none, []⟩, s) := by
    show nextPiece ('{' :: (name ++ '}' :: s)) = _
    rw [nextPiece_cons, if_pos rfl, if_neg hhead, hfield]
  rw [format, Scanner.scan_some hnext]
  rfl

end Lib.Format
