import Mathlib

/-!
# Python strings as lists of characters

`Str` is a string as the list of its code points. The functions are the `str` methods and
`posixpath` functions of the same names. `lower` and `upper` map ASCII letters only, and `isdigit` and `int`
know the ASCII digits only.
-/
namespace Lib

abbrev Str := List Char

instance lawfulBEqStr : LawfulBEq Str := inferInstance

instance lawfulBEqStrs : LawfulBEq (List Str) := inferInstance

instance lawfulBEqStrPair : LawfulBEq (Str × Str) := inferInstance

namespace Str

/-- The string of a literal. -/
abbrev lit (s : String) : Str := s.toList

/-- `str.isspace` of one code point, which is what `strip()` trims. -/
def isSpace (c : Char) : Bool :=
  let n := c.toNat
  (9 ≤ n && n ≤ 13) || (28 ≤ n && n ≤ 32) || n == 133 || n == 160 || n == 5760 ||
    (8192 ≤ n && n ≤ 8202) || n == 8232 || n == 8233 || n == 8239 || n == 8287 || n == 12288

/-- `s.lstrip()` over a class of characters. -/
def lstripWhere (p : Char → Bool) (s : Str) : Str := s.dropWhile p

/-- `s.rstrip()` over a class of characters. -/
def rstripWhere (p : Char → Bool) (s : Str) : Str := s.rdropWhile p

def strip (s : Str) : Str := rstripWhere isSpace (lstripWhere isSpace s)

/-- `s.rstrip(c)`. -/
def rstrip (c : Char) (s : Str) : Str := rstripWhere (· == c) s

/-- `s.lstrip(c)`. -/
def lstrip (c : Char) (s : Str) : Str := lstripWhere (· == c) s

def lower (s : Str) : Str := s.map Char.toLower

def upper (s : Str) : Str := s.map Char.toUpper

/-- `s.startswith(p)`. -/
def startsWith (p s : Str) : Bool := p.isPrefixOf s

/-- `s.endswith(p)`. -/
def endsWith (p s : Str) : Bool := p.isSuffixOf s

/-- `p in s`. -/
def hasInfix (p s : Str) : Bool := decide (p <:+: s)

/-- `s.split(c)`. -/
def split (c : Char) : Str → List Str
  | [] => [[]]
  | x :: xs =>
    if x = c then [] :: split c xs
    else match split c xs with
      | [] => [[x]]
      | p :: ps => (x :: p) :: ps

/-- `s.split(c, 1)`, when `c` is there. -/
def splitOnce (c : Char) (s : Str) : Option (Str × Str) :=
  if c ∈ s then some (s.takeWhile (· != c), (s.dropWhile (· != c)).tail) else none

/-- `c.join(parts)`. -/
def join (c : Char) : List Str → Str
  | [] => []
  | [p] => p
  | p :: ps => p ++ c :: join c ps

/-- The ends of a line for `str.splitlines`. -/
def endsLine (c : Char) : Bool := [10, 11, 12, 13, 28, 29, 30, 133, 8232, 8233].contains c.toNat

/-- `s.splitlines()`: no line after the last end. -/
def splitlines : Str → List Str
  | [] => []
  | '\r' :: '\n' :: s => [] :: splitlines s
  | c :: s =>
    if endsLine c then [] :: splitlines s
    else match splitlines s with
      | [] => [[c]]
      | l :: ls => (c :: l) :: ls

/-- `s.split()`. -/
def words (s : Str) : List Str := (split ' ' (s.map fun c => if isSpace c then ' ' else c)).filter fun w => !w.isEmpty

def isDigit (c : Char) : Bool := decide ('0' ≤ c ∧ c ≤ '9')

/-- `s.isdigit()`. -/
def isdigit (s : Str) : Bool := !s.isEmpty && s.all isDigit

/-- `int(s)` of a string of digits. -/
def int (s : Str) : Nat := s.foldl (fun n c => n * 10 + (c.toNat - '0'.toNat)) 0

/-- `str(n)`. -/
def ofNat (n : Nat) : Str := Nat.toDigits 10 n

/-- `int(str(n)) = n`. -/
theorem int_ofNat (n : Nat) : int (ofNat n) = n := by
  have h := Nat.ofDigitChars_ten_toDigits (n := n)
  rw [Nat.ofDigitChars_eq_foldl] at h
  unfold int ofNat
  simpa only [Nat.mul_comm] using h

theorem isdigit_ofNat (n : Nat) : isdigit (ofNat n) = true := by
  unfold isdigit ofNat
  rw [Bool.and_eq_true, List.all_eq_true]
  refine ⟨by simp [Nat.toDigits_ne_nil], fun c hc => ?_⟩
  have h := Nat.isDigit_of_mem_toDigits (by omega) (by omega) hc
  simpa [isDigit, Char.isDigit, Char.le_def] using h

/-! ## `posixpath` -/

/-- One component of the loop of `posixpath.normpath`; `acc` is `new_comps`, last one first. -/
def normStep (rooted : Bool) (acc : List Str) (comp : Str) : List Str :=
  if comp = [] ∨ comp = lit "." then acc
  else if comp ≠ lit ".." ∨ (rooted = false ∧ acc = []) ∨ acc.head? = some (lit "..") then comp :: acc
  else acc.tail

/-- The components that `normpath` keeps. -/
def normComps (s : Str) : List Str :=
  ((split '/' s).foldl (normStep (startsWith (lit "/") s)) []).reverse

/-- The slashes `normpath` puts in front: two stay two, three and more become one. -/
def initialSlashes (s : Str) : Str :=
  if startsWith (lit "//") s && !startsWith (lit "///") s then lit "//"
  else if startsWith (lit "/") s then lit "/"
  else []

/-- `os.path.normpath`. -/
def normpath (s : Str) : Str :=
  let p := initialSlashes s ++ join '/' (normComps s)
  if p = [] then lit "." else p

/-- `os.path.basename`. -/
def basename (s : Str) : Str := (s.reverse.takeWhile (· != '/')).reverse

/-! ## Stripping twice -/

theorem dropWhile_strip (s : Str) : (strip s).dropWhile isSpace = strip s := by
  have hpre : strip s <+: s.dropWhile isSpace := List.rdropWhile_prefix _ _
  rw [List.dropWhile_eq_self_iff]
  intro hlen
  have hfirst := List.dropWhile_eq_self_iff.1 (List.dropWhile_idempotent isSpace s)
  rw [hpre.getElem hlen]
  exact hfirst (by have := hpre.length_le; omega)

theorem strip_strip (s : Str) : strip (strip s) = strip s := by
  calc strip (strip s) = ((strip s).dropWhile isSpace).rdropWhile isSpace := rfl
    _ = (strip s).rdropWhile isSpace := by rw [dropWhile_strip]
    _ = strip s := List.rdropWhile_idempotent _ _

/-- A stripped string begins with no blank. -/
theorem head_strip {s : Str} {c : Char} {t : Str} (h : strip s = c :: t) : isSpace c = false := by
  have hdrop := dropWhile_strip s
  rw [h] at hdrop
  cases hc : isSpace c with
  | false => rfl
  | true =>
    rw [List.dropWhile_cons_of_pos hc] at hdrop
    have hlen := (List.dropWhile_sublist (l := t) isSpace).length_le
    rw [hdrop, List.length_cons] at hlen
    omega

/-- And it ends with none. -/
theorem last_strip {s : Str} {c : Char} (h : (strip s).getLast? = some c) : isSpace c = false := by
  have hne : strip s ≠ [] := by
    intro hnil
    rw [hnil] at h
    cases h
  have hlast := List.rdropWhile_eq_self_iff.1 (List.rdropWhile_idempotent isSpace (lstripWhere isSpace s)) hne
  obtain rfl := Option.some.inj ((List.getLast?_eq_some_getLast hne).symm.trans h)
  exact Bool.eq_false_iff.2 hlast

/-- A string without blanks at its ends. -/
theorem strip_eq_self {s : Str} (hhead : ∀ c ∈ s.head?, isSpace c = false) (hlast : ∀ c ∈ s.getLast?, isSpace c = false) :
    strip s = s := by
  have hdrop : s.dropWhile isSpace = s := by
    cases s with
    | nil => rfl
    | cons c s => rw [List.dropWhile_cons_of_neg (by simp [hhead c rfl])]
  unfold strip lstripWhere rstripWhere
  rw [hdrop, List.rdropWhile_eq_self_iff]
  intro hne
  rw [hlast _ (List.getLast?_eq_some_getLast hne)]
  simp

theorem dropWhile_append_of_false {p : Char → Bool} {c : Char} (hc : p c = false) (a b : Str) :
    (a ++ c :: b).dropWhile p = a.dropWhile p ++ c :: b := by
  induction a with
  | nil => simp [hc]
  | cons x xs ih =>
    cases hx : p x with
    | true => simp [hx, ih]
    | false => simp [hx]

/-- Stripping a string works on what stands before a kept character and on what stands behind it. -/
theorem strip_append {c : Char} (hc : isSpace c = false) (a b : Str) :
    strip (a ++ c :: b) = lstripWhere isSpace a ++ c :: rstripWhere isSpace b := by
  unfold strip lstripWhere rstripWhere List.rdropWhile
  rw [dropWhile_append_of_false hc, List.reverse_append, List.reverse_cons, List.append_assoc, List.singleton_append,
    dropWhile_append_of_false hc]
  simp

/-- A string that ends in other characters than `c` loses none. -/
theorem rstrip_append {c : Char} {s t : Str} (ht : t ≠ []) (hc : c ∉ t) : rstrip c (s ++ t) = s ++ t := by
  refine List.rdropWhile_eq_self_iff.2 fun hne hlast => hc ?_
  rw [List.getLast_append_of_ne_nil hne ht, beq_iff_eq] at hlast
  exact hlast ▸ List.getLast_mem ht

/-! ## At a character -/

theorem takeWhile_append_cons {c : Char} {a : Str} (h : c ∉ a) (b : Str) : (a ++ c :: b).takeWhile (· != c) = a := by
  have hall : ∀ x ∈ a, (x != c) = true := fun x hx => bne_iff_ne.2 fun hxc => h (hxc ▸ hx)
  rw [List.takeWhile_append_of_pos hall, List.takeWhile_cons_of_neg (by simp), List.append_nil]

theorem dropWhile_append_cons {c : Char} {a : Str} (h : c ∉ a) (b : Str) : (a ++ c :: b).dropWhile (· != c) = c :: b := by
  have hall : ∀ x ∈ a, (x != c) = true := fun x hx => bne_iff_ne.2 fun hxc => h (hxc ▸ hx)
  rw [List.dropWhile_append_of_pos hall, List.dropWhile_cons_of_neg (by simp)]

theorem notMem_takeWhile (c : Char) (s : Str) : c ∉ s.takeWhile (· != c) := by
  intro h
  have := List.mem_takeWhile_imp h
  simp at this

/-- What stands before the first one and what stands behind it. -/
theorem parted {c : Char} {s : Str} (h : c ∈ s) : s.takeWhile (· != c) ++ c :: (s.dropWhile (· != c)).tail = s := by
  obtain ⟨a, b, rfl, ha⟩ := List.eq_append_cons_of_mem h
  rw [takeWhile_append_cons ha, dropWhile_append_cons ha, List.tail_cons]

theorem splitOnce_append_cons {c : Char} {a : Str} (h : c ∉ a) (b : Str) : splitOnce c (a ++ c :: b) = some (a, b) := by
  unfold splitOnce
  rw [if_pos (by simp), takeWhile_append_cons h, dropWhile_append_cons h]
  rfl

/-- What is evaluated on every character of a text that is written out. -/
theorem forall_of_all {p : Char → Prop} [DecidablePred p] {s : Str} (h : s.all (fun c => decide (p c)) = true) : ∀ c ∈ s, p c :=
  fun c hc => of_decide_eq_true (List.all_eq_true.1 h c hc)

theorem mem_of_mem_strip {c : Char} {s : Str} (h : c ∈ strip s) : c ∈ s :=
  (List.dropWhile_sublist isSpace).mem ((List.rdropWhile_prefix _ _).sublist.mem h)

/-! ## Lower case -/

theorem toNat_toLower (c : Char) : c.toLower.toNat = if 65 ≤ c.toNat ∧ c.toNat ≤ 90 then c.toNat + 32 else c.toNat := by
  unfold Char.toLower
  split
  · rename_i h
    have hle : 65 ≤ c.toNat ∧ c.toNat ≤ 90 := ⟨UInt32.le_iff_toNat_le.1 h.1, UInt32.le_iff_toNat_le.1 h.2⟩
    rw [if_pos hle]
    show (c.val + 32).toNat = c.val.toNat + 32
    have : c.val.toNat ≤ 90 := hle.2
    rw [UInt32.toNat_add, Nat.mod_eq_of_lt (by simp; omega)]
    rfl
  · rename_i h
    rw [if_neg]
    rintro ⟨h1, h2⟩
    exact h ⟨UInt32.le_iff_toNat_le.2 h1, UInt32.le_iff_toNat_le.2 h2⟩

theorem toLower_toLower (c : Char) : c.toLower.toLower = c.toLower := by
  refine Char.toNat_inj.1 ?_
  rw [toNat_toLower, toNat_toLower]
  split
  · rw [if_neg (by omega)]
  · rfl

theorem isSpace_toLower (c : Char) : isSpace c.toLower = isSpace c := by
  unfold isSpace
  simp only [toNat_toLower]
  split
  · rw [Bool.eq_iff_iff]
    simp
    omega
  · rfl

theorem lower_lower (s : Str) : lower (lower s) = lower s := by
  rw [lower, lower, List.map_map]
  exact List.map_congr_left fun c _ => toLower_toLower c

theorem strip_lower (s : Str) : strip (lower s) = lower (strip s) := by
  have hcomp : isSpace ∘ Char.toLower = isSpace := funext isSpace_toLower
  unfold strip lower lstripWhere rstripWhere List.rdropWhile
  rw [List.dropWhile_map, hcomp, ← List.map_reverse, List.dropWhile_map, hcomp, List.map_reverse]

/-! ## Upper case -/

theorem toNat_toUpper (c : Char) : c.toUpper.toNat = if 97 ≤ c.toNat ∧ c.toNat ≤ 122 then c.toNat - 32 else c.toNat := by
  unfold Char.toUpper
  split
  · rename_i h
    have hle : 97 ≤ c.toNat ∧ c.toNat ≤ 122 := ⟨UInt32.le_iff_toNat_le.1 h.1, UInt32.le_iff_toNat_le.1 h.2⟩
    rw [if_pos hle]
    have hval : 97 ≤ c.val.toNat ∧ c.val.toNat ≤ 122 := hle
    show (c.val + ('A'.val - 'a'.val)).toNat = c.val.toNat - 32
    rw [UInt32.toNat_add, show ('A'.val - 'a'.val).toNat = 4294967264 from rfl]
    omega
  · rename_i h
    rw [if_neg]
    rintro ⟨h1, h2⟩
    exact h ⟨UInt32.le_iff_toNat_le.2 h1, UInt32.le_iff_toNat_le.2 h2⟩

theorem toUpper_toUpper (c : Char) : c.toUpper.toUpper = c.toUpper := by
  refine Char.toNat_inj.1 ?_
  rw [toNat_toUpper, toNat_toUpper]
  split
  · rw [if_neg (by omega)]
  · rfl

theorem isSpace_toUpper (c : Char) : isSpace c.toUpper = isSpace c := by
  unfold isSpace
  simp only [toNat_toUpper]
  split
  · rw [Bool.eq_iff_iff]
    simp
    omega
  · rfl

theorem upper_upper (s : Str) : upper (upper s) = upper s := by
  rw [upper, upper, List.map_map]
  exact List.map_congr_left fun c _ => toUpper_toUpper c

theorem strip_upper (s : Str) : strip (upper s) = upper (strip s) := by
  have hcomp : isSpace ∘ Char.toUpper = isSpace := funext isSpace_toUpper
  unfold strip upper lstripWhere rstripWhere List.rdropWhile
  rw [List.dropWhile_map, hcomp, ← List.map_reverse, List.dropWhile_map, hcomp, List.map_reverse]

/-! ## Lines -/

/-- The characters of a line are the text's. -/
theorem mem_of_mem_splitlines {x : Char} {s : Str} : ∀ {l : Str}, l ∈ splitlines s → x ∈ l → x ∈ s := by
  fun_induction splitlines s with
  | case1 => exact fun hl => nomatch hl
  | case2 s ih =>
    intro l hl hx
    rcases List.mem_cons.1 hl with rfl | hl
    · cases hx
    · exact List.mem_cons_of_mem _ (List.mem_cons_of_mem _ (ih hl hx))
  | case3 c s _ hend ih =>
    intro l hl hx
    rcases List.mem_cons.1 hl with rfl | hl
    · cases hx
    · exact List.mem_cons_of_mem _ (ih hl hx)
  | case4 c s _ hend hnil ih =>
    intro l hl hx
    obtain rfl := List.mem_singleton.1 hl
    obtain rfl := List.mem_singleton.1 hx
    exact List.mem_cons_self
  | case5 c s _ hend k ks hcons ih =>
    intro l hl hx
    rw [hcons] at ih
    rcases List.mem_cons.1 hl with rfl | hl
    · rcases List.mem_cons.1 hx with rfl | hx
      · exact List.mem_cons_self
      · exact List.mem_cons_of_mem _ (ih List.mem_cons_self hx)
    · exact List.mem_cons_of_mem _ (ih (List.mem_cons_of_mem _ hl) hx)

example : normpath (lit "/home/pi//docker/./web/../db/") = lit "/home/pi/docker/db" := by decide
example : basename (lit "/srv/data") = lit "data" := by decide
example : strip (lit " web\n") = lit "web" := by decide

end Str
end Lib
