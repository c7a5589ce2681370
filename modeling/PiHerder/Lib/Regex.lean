import PiHerder.Lib.PyStr
import PiHerder.Lib.Scan

/-!
# Regular expressions that backtrack

`run` gives every way in which an expression can match the front of a text, in the order in which a backtracking matcher tries
them; the first one is the match. Repetitions are greedy, and of one class of characters.

* `mem_run` — the matches are the texts of the language;
* `head?_seq`, `head?_seq_of_unique` — the match of two expressions after each other;
* `finditer_hit` — `re.finditer`, at a match.
-/
namespace Lib
open Str

/-- `times p m n` is `p{m,n}` and `many p` is `p+`. -/
inductive Regex
  | one (p : Char → Bool)
  | times (p : Char → Bool) (least most : Nat)
  | many (p : Char → Bool)
  | seq (a b : Regex)
  | alt (a b : Regex)
  | opt (a : Regex)
  | group (name : Str) (a : Regex)

namespace Regex

/-- What is matched, the groups that took part, and what is left. -/
structure Hit where
  text : Str
  groups : List (Str × Str)
  rest : Str
deriving DecidableEq

/-- `m.group(name)`. -/
def Hit.group (h : Hit) (name : Str) : Option Str := (h.groups.find? fun g => g.1 == name).map Prod.snd

def Hit.append (x y : Hit) : Hit := ⟨x.text ++ y.text, x.groups ++ y.groups, y.rest⟩

/-- The text cut after at most `n` characters of a class, the longest cut first. -/
def splits (p : Char → Bool) : Nat → Str → List (Str × Str)
  | n + 1, c :: s => (if p c then (splits p n s).map fun x => (c :: x.1, x.2) else []) ++ [([], c :: s)]
  | 0, s => [([], s)]
  | _ + 1, [] => [([], [])]

def run : Regex → Str → List Hit
  | one p, c :: s => if p c then [⟨[c], [], s⟩] else []
  | one _, [] => []
  | times p least most, s => ((splits p most s).filter fun x => decide (least ≤ x.1.length)).map fun x => ⟨x.1, [], x.2⟩
  | many p, s => ((splits p s.length s).filter fun x => decide (1 ≤ x.1.length)).map fun x => ⟨x.1, [], x.2⟩
  | seq a b, s => (a.run s).flatMap fun x => (b.run x.rest).map x.append
  | alt a b, s => a.run s ++ b.run s
  | opt a, s => a.run s ++ [⟨[], [], s⟩]
  | group name a, s => (a.run s).map fun x => { x with groups := x.groups ++ [(name, x.text)] }

/-- A text, case aside. -/
def word : Str → Regex
  | [] => times (fun _ => false) 0 0
  | [c] => one fun d => d.toLower == c.toLower
  | c :: s => seq (one fun d => d.toLower == c.toLower) (word s)

def char (c : Char) : Regex := one (· == c)

/-- A text as it is. -/
def literal : Str → Regex
  | [] => times (fun _ => false) 0 0
  | [c] => char c
  | c :: s => seq (char c) (literal s)

def thrice (a : Regex) : Regex := seq a (seq a a)

/-- `re.match` of an expression that ends in `$`, which stands before a last newline too. -/
def matchLine (r : Regex) (s : Str) : Option Hit := (r.run s).find? fun x => decide (x.rest = [] ∨ x.rest = ['\n'])

/-- What a group matched; the empty text where it took no part. -/
def Hit.get (h : Hit) (name : Str) : Str := (h.group name).getD []

/-- The whole text matches. -/
def fullmatch (r : Regex) (s : Str) : Bool := (r.run s).any fun x => decide (x.rest = [])

/-! ## The language -/

def Lang : Regex → Str → List (Str × Str) → Prop
  | one p, t, gs => (∃ c, p c = true ∧ t = [c]) ∧ gs = []
  | times p least most, t, gs => (∀ c ∈ t, p c = true) ∧ least ≤ t.length ∧ t.length ≤ most ∧ gs = []
  | many p, t, gs => (∀ c ∈ t, p c = true) ∧ t ≠ [] ∧ gs = []
  | seq a b, t, gs => ∃ t₁ gs₁ t₂ gs₂, Lang a t₁ gs₁ ∧ Lang b t₂ gs₂ ∧ t = t₁ ++ t₂ ∧ gs = gs₁ ++ gs₂
  | alt a b, t, gs => Lang a t gs ∨ Lang b t gs
  | opt a, t, gs => Lang a t gs ∨ (t = [] ∧ gs = [])
  | group name a, t, gs => ∃ gs', Lang a t gs' ∧ gs = gs' ++ [(name, t)]

theorem mem_splits {p : Char → Bool} {x : Str × Str} : ∀ {n : Nat} {s : Str},
    x ∈ splits p n s ↔ s = x.1 ++ x.2 ∧ (∀ c ∈ x.1, p c = true) ∧ x.1.length ≤ n
  | 0, s => by
    obtain ⟨u, v⟩ := x
    simp only [splits, List.mem_singleton, Prod.mk.injEq, Nat.le_zero, List.length_eq_zero_iff]
    constructor
    · rintro ⟨rfl, rfl⟩
      simp
    · rintro ⟨rfl, -, rfl⟩
      simp
  | n + 1, [] => by
    obtain ⟨u, v⟩ := x
    simp only [splits, List.mem_singleton, Prod.mk.injEq]
    constructor
    · rintro ⟨rfl, rfl⟩
      simp
    · rintro ⟨h, -, -⟩
      obtain ⟨rfl, rfl⟩ := List.append_eq_nil_iff.1 h.symm
      exact ⟨rfl, rfl⟩
  | n + 1, c :: s => by
    obtain ⟨u, v⟩ := x
    rw [splits, List.mem_append, List.mem_singleton]
    constructor
    · rintro (h | h)
      · split at h
        · rename_i hc
          obtain ⟨y, hy, heq⟩ := List.mem_map.1 h
          obtain ⟨rfl, hall, hlen⟩ := mem_splits.1 hy
          obtain ⟨rfl, rfl⟩ := Prod.mk.inj heq
          exact ⟨rfl, List.forall_mem_cons.2 ⟨hc, hall⟩, Nat.succ_le_succ hlen⟩
        · cases h
      · obtain ⟨rfl, rfl⟩ := Prod.mk.inj h
        simp
    · rintro ⟨heq, hall, hlen⟩
      cases u with
      | nil => exact Or.inr (by rw [show v = c :: s from heq.symm])
      | cons d u =>
        obtain ⟨rfl, rfl⟩ := List.cons.inj heq
        rw [if_pos (hall c List.mem_cons_self)]
        exact Or.inl (List.mem_map.2 ⟨(u, v), mem_splits.2 ⟨rfl, fun d hd => hall d (List.mem_cons_of_mem c hd), Nat.le_of_succ_le_succ hlen⟩, rfl⟩)

/-- **The matches of the front of a text** are the texts of the language it begins with. -/
theorem mem_run {x : Hit} : ∀ {r : Regex} {s : Str}, x ∈ r.run s ↔ s = x.text ++ x.rest ∧ Lang r x.text x.groups
  | one p, [] => by
    obtain ⟨t, gs, rest⟩ := x
    simp only [run, List.not_mem_nil, false_iff, Lang]
    rintro ⟨h, ⟨c, -, rfl⟩, -⟩
    cases h
  | one p, c :: s => by
    obtain ⟨t, gs, rest⟩ := x
    unfold run Lang
    constructor
    · intro h
      split at h
      · rename_i hc
        obtain ⟨rfl, rfl, rfl⟩ := Hit.mk.inj (List.mem_singleton.1 h)
        exact ⟨rfl, ⟨c, hc, rfl⟩, rfl⟩
      · cases h
    · rintro ⟨heq, ⟨d, hd, rfl⟩, rfl⟩
      obtain ⟨rfl, rfl⟩ := List.cons.inj heq
      rw [if_pos hd]
      exact List.mem_singleton.2 rfl
  | times p least most, s => by
    unfold run Lang
    rw [List.mem_map]
    constructor
    · rintro ⟨y, hy, rfl⟩
      obtain ⟨hmem, hlen⟩ := List.mem_filter.1 hy
      obtain ⟨heq, hall, hmost⟩ := mem_splits.1 hmem
      exact ⟨heq, hall, of_decide_eq_true hlen, hmost, rfl⟩
    · rintro ⟨heq, hall, hleast, hmost, hgs⟩
      exact ⟨(x.text, x.rest), List.mem_filter.2 ⟨mem_splits.2 ⟨heq, hall, hmost⟩, decide_eq_true hleast⟩, by rw [← hgs]⟩
  | many p, s => by
    unfold run Lang
    rw [List.mem_map]
    constructor
    · rintro ⟨y, hy, rfl⟩
      obtain ⟨hmem, hlen⟩ := List.mem_filter.1 hy
      obtain ⟨heq, hall, -⟩ := mem_splits.1 hmem
      exact ⟨heq, hall, List.length_pos_iff.1 (of_decide_eq_true hlen), rfl⟩
    · rintro ⟨heq, hall, hne, hgs⟩
      have hmost : x.text.length ≤ s.length := by rw [heq, List.length_append]; exact Nat.le_add_right _ _
      exact ⟨(x.text, x.rest), List.mem_filter.2 ⟨mem_splits.2 ⟨heq, hall, hmost⟩, decide_eq_true (List.length_pos_iff.2 hne)⟩, by rw [← hgs]⟩
  | seq a b, s => by
    unfold run Lang
    rw [List.mem_flatMap]
    constructor
    · rintro ⟨y, hy, hx⟩
      obtain ⟨z, hz, rfl⟩ := List.mem_map.1 hx
      obtain ⟨heqy, hy⟩ := mem_run.1 hy
      obtain ⟨heqz, hz⟩ := mem_run.1 hz
      refine ⟨?_, y.text, y.groups, z.text, z.groups, hy, hz, rfl, rfl⟩
      rw [heqy, heqz, Hit.append, List.append_assoc]
    · rintro ⟨heq, t₁, gs₁, t₂, gs₂, ha, hb, ht, hgs⟩
      refine ⟨⟨t₁, gs₁, t₂ ++ x.rest⟩, mem_run.2 ⟨?_, ha⟩, List.mem_map.2 ⟨⟨t₂, gs₂, x.rest⟩, mem_run.2 ⟨rfl, hb⟩, ?_⟩⟩
      · rw [heq, ht, List.append_assoc]
      · rw [Hit.append, ← ht, ← hgs]
  | alt a b, s => by
    unfold run Lang
    rw [List.mem_append, mem_run, mem_run, ← and_or_left]
  | opt a, s => by
    obtain ⟨t, gs, rest⟩ := x
    unfold run Lang
    rw [List.mem_append, mem_run, List.mem_singleton, Hit.mk.injEq, and_or_left]
    refine or_congr Iff.rfl ⟨?_, ?_⟩
    · rintro ⟨rfl, rfl, rfl⟩
      exact ⟨rfl, rfl, rfl⟩
    · rintro ⟨rfl, rfl, rfl⟩
      exact ⟨rfl, rfl, rfl⟩
  | group name a, s => by
    unfold run Lang
    rw [List.mem_map]
    constructor
    · rintro ⟨y, hy, rfl⟩
      obtain ⟨heq, hy⟩ := mem_run.1 hy
      exact ⟨heq, y.groups, hy, rfl⟩
    · rintro ⟨heq, gs, ha, hgs⟩
      exact ⟨⟨x.text, gs, x.rest⟩, mem_run.2 ⟨heq, ha⟩, by rw [← hgs]⟩

theorem fullmatch_iff {r : Regex} {s : Str} : r.fullmatch s = true ↔ ∃ gs, Lang r s gs := by
  unfold fullmatch
  rw [List.any_eq_true]
  constructor
  · rintro ⟨x, hx, hrest⟩
    obtain ⟨heq, hlang⟩ := mem_run.1 hx
    rw [of_decide_eq_true hrest, List.append_nil] at heq
    exact ⟨x.groups, heq ▸ hlang⟩
  · rintro ⟨gs, h⟩
    exact ⟨⟨s, gs, []⟩, mem_run.2 ⟨(List.append_nil s).symm, h⟩, decide_eq_true rfl⟩

/-- The characters a match can have. -/
def uses : Regex → Char → Bool
  | one p, c => p c
  | times p _ _, c => p c
  | many p, c => p c
  | seq a b, c => uses a c || uses b c
  | alt a b, c => uses a c || uses b c
  | opt a, c => uses a c
  | group _ a, c => uses a c

theorem Lang.uses {c : Char} : ∀ {r : Regex} {t : Str} {gs : List (Str × Str)}, Lang r t gs → c ∈ t → r.uses c = true
  | one p, t, gs, ⟨⟨d, hd, ht⟩, _⟩, hc => by
    rw [ht, List.mem_singleton] at hc
    rwa [hc]
  | times p least most, t, gs, h, hc => h.1 c hc
  | many p, t, gs, h, hc => h.1 c hc
  | seq a b, t, gs, ⟨t₁, gs₁, t₂, gs₂, ha, hb, ht, _⟩, hc => by
    rw [ht, List.mem_append] at hc
    unfold Regex.uses
    rw [Bool.or_eq_true]
    exact hc.imp (fun hc => Lang.uses ha hc) fun hc => Lang.uses hb hc
  | alt a b, t, gs, h, hc => by
    unfold Regex.uses
    rw [Bool.or_eq_true]
    exact h.imp (fun h => Lang.uses h hc) fun h => Lang.uses h hc
  | opt a, t, gs, h, hc => by
    rcases h with h | ⟨rfl, -⟩
    · exact Lang.uses (r := a) h hc
    · cases hc
  | group name a, t, gs, ⟨gs', h, _⟩, hc => Lang.uses (r := a) h hc

/-- It has no group. -/
def plain : Regex → Bool
  | seq a b => plain a && plain b
  | alt a b => plain a && plain b
  | opt a => plain a
  | group _ _ => false
  | _ => true

theorem Lang.groups_nil : ∀ {r : Regex} {t : Str} {gs : List (Str × Str)}, r.plain = true → Lang r t gs → gs = []
  | one p, t, gs, _, h => h.2
  | times p least most, t, gs, _, h => h.2.2.2
  | many p, t, gs, _, h => h.2.2
  | seq a b, t, gs, hp, ⟨t₁, gs₁, t₂, gs₂, ha, hb, _, hgs⟩ => by
    have hab := Bool.and_eq_true_iff.1 hp
    rw [hgs, Lang.groups_nil hab.1 ha, Lang.groups_nil hab.2 hb, List.append_nil]
  | alt a b, t, gs, hp, h => by
    have hab := Bool.and_eq_true_iff.1 hp
    exact h.elim (Lang.groups_nil hab.1) (Lang.groups_nil hab.2)
  | opt a, t, gs, hp, h => h.elim (Lang.groups_nil (r := a) hp) And.right
  | group name a, t, gs, hp, h => by cases hp

/-! ## The match -/

section head
variable {a b : Regex} {s : Str} {x y : Hit}

theorem run_eq_nil_iff {r : Regex} : r.run s = [] ↔ ∀ t rest gs, s = t ++ rest → ¬ Lang r t gs := by
  rw [List.eq_nil_iff_forall_not_mem]
  constructor
  · exact fun h t rest gs heq hlang => h ⟨t, gs, rest⟩ (mem_run.2 ⟨heq, hlang⟩)
  · exact fun h x hx => h _ _ _ (mem_run.1 hx).1 (mem_run.1 hx).2

theorem head?_seq (ha : (a.run s).head? = some x) (hb : (b.run x.rest).head? = some y) : ((seq a b).run s).head? = some (x.append y) := by
  obtain ⟨xs, hxs⟩ := List.head?_eq_some_iff.1 ha
  obtain ⟨ys, hys⟩ := List.head?_eq_some_iff.1 hb
  rw [run, hxs, List.flatMap_cons, hys]
  rfl

/-- Where the first part can match in one way only. -/
theorem head?_seq_of_unique (hx : x ∈ a.run s) (hunique : ∀ z ∈ a.run s, z = x) (hb : (b.run x.rest).head? = some y) :
    ((seq a b).run s).head? = some (x.append y) := by
  refine head?_seq ?_ hb
  cases hrun : a.run s with
  | nil => rw [hrun] at hx; cases hx
  | cons z zs => rw [List.head?_cons, hunique z (by rw [hrun]; exact List.mem_cons_self)]

theorem head?_group {name : Str} (h : (a.run s).head? = some x) :
    ((group name a).run s).head? = some { x with groups := x.groups ++ [(name, x.text)] } := by
  rw [run, List.head?_map, h]
  rfl

/-- The longest repetition is tried first. -/
theorem head?_splits {p : Char → Bool} {rest : Str} (hrest : ∀ c ∈ rest.head?, p c = false) : ∀ {n : Nat} {u : Str},
    (∀ c ∈ u, p c = true) → u.length ≤ n → (splits p n (u ++ rest)).head? = some (u, rest)
  | 0, u, _, hlen => by
    obtain rfl := List.length_eq_zero_iff.1 (Nat.le_zero.1 hlen)
    rfl
  | n + 1, [], _, _ => by
    cases rest with
    | nil => rfl
    | cons c rest =>
      rw [List.nil_append, splits, if_neg (by rw [hrest c rfl]; exact Bool.noConfusion)]
      rfl
  | n + 1, c :: u, hall, hlen => by
    rw [List.cons_append, splits, if_pos (hall c List.mem_cons_self), List.head?_append, List.head?_map,
      head?_splits hrest (fun d hd => hall d (List.mem_cons_of_mem c hd)) (Nat.le_of_succ_le_succ hlen)]
    rfl

theorem head?_times {p : Char → Bool} {least most : Nat} {u rest : Str} (hall : ∀ c ∈ u, p c = true) (hrest : ∀ c ∈ rest.head?, p c = false)
    (hleast : least ≤ u.length) (hmost : u.length ≤ most) : ((times p least most).run (u ++ rest)).head? = some ⟨u, [], rest⟩ := by
  obtain ⟨xs, hxs⟩ := List.head?_eq_some_iff.1 (head?_splits hrest hall hmost)
  rw [run, hxs, List.filter_cons, if_pos (decide_eq_true hleast)]
  rfl

end head

/-! ## All matches -/

/-- A match, if it has any characters, or one character that is passed over. -/
def scanner (r : Regex) : Scanner Char (Option Hit) where
  next s := match s, (r.run s).head? with
    | _ :: s, some x => if x.text = [] then some (none, s) else some (some x, x.rest)
    | _ :: s, none => some (none, s)
    | [], _ => none
  takes {s t rest} h := by
    split at h
    · rename_i c s x hx
      split at h
      · obtain ⟨-, rfl⟩ := Prod.mk.inj (Option.some.inj h)
        exact ⟨[c], List.cons_ne_nil c [], rfl⟩
      · rename_i hne
        obtain ⟨-, rfl⟩ := Prod.mk.inj (Option.some.inj h)
        exact ⟨x.text, hne, (mem_run.1 (List.mem_of_head? hx)).1⟩
    · rename_i c s hx
      obtain ⟨-, rfl⟩ := Prod.mk.inj (Option.some.inj h)
      exact ⟨[c], List.cons_ne_nil c [], rfl⟩
    · cases h

/-- `re.finditer`, of an expression that matches no empty text. -/
def finditer (r : Regex) (s : Str) : List Hit := (r.scanner.scan s).1.filterMap id

section all
variable {r : Regex} {s a b : Str} {x : Hit} {c : Char}

theorem finditer_nil : r.finditer [] = [] := by
  rw [finditer, Scanner.scan_nil]
  rfl

theorem finditer_hit (h : (r.run s).head? = some x) (hne : x.text ≠ []) : r.finditer s = x :: r.finditer x.rest := by
  have hnext : r.scanner.next s = some (some x, x.rest) := by
    cases s with
    | nil =>
      obtain ⟨hnil, -⟩ := List.append_eq_nil_iff.1 (mem_run.1 (List.mem_of_head? h)).1.symm
      exact absurd hnil hne
    | cons c s =>
      unfold scanner
      simp only [h, if_neg hne]
  rw [finditer, Scanner.scan_some hnext]
  rfl

theorem finditer_cons (h : r.run (c :: s) = []) : r.finditer (c :: s) = r.finditer s := by
  have hnext : r.scanner.next (c :: s) = some (none, s) := by
    unfold scanner
    simp only [h, List.head?_nil]
  rw [finditer, Scanner.scan_some hnext]
  rfl

end all
end Regex
end Lib
