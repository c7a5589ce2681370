import PiHerder.Lib.IpAddress

/-!
# Dates and times as texts

A `Datetime` is a naive `datetime.datetime`; `str` is what Python writes for it, and `fromisoformat` reads the texts that
`isoformat` and `str` write, with any separator and an offset, which it drops.
-/
namespace Lib
open Str

/-! ## Numbers of a fixed width -/

/-- `f"{n:0kd}"`, for a number of at most `k` digits. -/
def digits (k n : Nat) : Str := (toBase 10 k n).map Nat.digitChar

/-- A number of `k` digits, and the rest of the text. -/
def readDigits (k : Nat) (s : Str) : Option (Nat × Str) :=
  if (s.take k).length = k ∧ (s.take k).all isDigit then some (Str.int (s.take k), s.drop k) else none

/-- The rest of the text, after one character. -/
def expect (p : Char → Bool) : Str → Option Str
  | [] => none
  | c :: s => if p c then some s else none

/-! ## Dates -/

def isLeap (year : Nat) : Bool := year % 4 == 0 && (year % 100 != 0 || year % 400 == 0)

def daysInMonth (year month : Nat) : Nat :=
  if month = 2 then if isLeap year then 29 else 28
  else if month = 4 ∨ month = 6 ∨ month = 9 ∨ month = 11 then 30 else 31

structure Datetime where
  year : Nat
  month : Nat
  day : Nat
  hour : Nat
  minute : Nat
  second : Nat
  microsecond : Nat
  valid : (1 ≤ year ∧ year ≤ 9999) ∧ (1 ≤ month ∧ month ≤ 12) ∧ (1 ≤ day ∧ day ≤ daysInMonth year month) ∧ hour < 24 ∧
    minute < 60 ∧ second < 60 ∧ microsecond < 1000000
deriving DecidableEq, Repr

namespace Datetime

/-- A number that orders them. -/
def stamp (d : Datetime) : Nat :=
  (((((d.year * 12 + d.month) * 31 + d.day) * 24 + d.hour) * 60 + d.minute) * 60 + d.second) * 1000000 + d.microsecond

/-- `str(d)`. -/
def str (d : Datetime) : Str :=
  digits 4 d.year ++ '-' :: (digits 2 d.month ++ '-' :: (digits 2 d.day ++ ' ' :: (digits 2 d.hour ++ ':' ::
    (digits 2 d.minute ++ ':' :: (digits 2 d.second ++
      if d.microsecond = 0 then [] else '.' :: digits 6 d.microsecond)))))

/-- The digits of a second, and what follows them. -/
def fraction : Str → Option (Nat × Str)
  | '.' :: s => readDigits 6 s
  | s => some (0, s)

/-- Nothing, or an offset such as `+00:00`. -/
def isOffset (s : Str) : Bool :=
  match expect (fun c => c == '+' || c == '-') s >>= readDigits 2 with
  | none => s.isEmpty
  | some (_, s) => (expect (· == ':') s >>= readDigits 2).any (·.2.isEmpty)

/-- `datetime.fromisoformat(s).replace(tzinfo=None)`; `none` is its `ValueError`. -/
def fromisoformat (s : Str) : Option Datetime := do
  let (year, s) ← readDigits 4 s
  let s ← expect (· == '-') s
  let (month, s) ← readDigits 2 s
  let s ← expect (· == '-') s
  let (day, s) ← readDigits 2 s
  let s ← expect (fun _ => true) s
  let (hour, s) ← readDigits 2 s
  let s ← expect (· == ':') s
  let (minute, s) ← readDigits 2 s
  let s ← expect (· == ':') s
  let (second, s) ← readDigits 2 s
  let (microsecond, s) ← fraction s
  if h : _ then if isOffset s then some ⟨year, month, day, hour, minute, second, microsecond, h⟩ else none else none

end Datetime
end Lib
