import PiHerder.Lib.Path

/-!
# Parts of a text, and replacing them

`replaceAll p r s` is `s.replace(p, r)` for a `p` that is not empty. Two texts are `Apart` where neither begins inside the other.
Where `p` is apart from `r`, nothing of it is left (`not_infix_replaceAll`); no text apart from `r` appears that was not there
(`infix_of_infix_replaceAll`).
-/
namespace Lib
namespace Str

/-- `n` characters of a replaced part are still to be passed over. -/
def replaceFrom (p r : Str) : Nat → Str → Str
  | _, [] => []
  | n + 1, _ :: s => replaceFrom p r n s
  | 0, c :: s => if startsWith p (c :: s) then r ++ replaceFrom p r (p.length - 1) s else c :: replaceFrom p r 0 s

def replaceAll (p r s : Str) : Str := replaceFrom p r 0 s

/-! ## Texts apart -/

/-- In some text `b` begins inside `a`. -/
def BeginsIn (b a : Str) : Prop := ∃ t ∈ a.tails, t ≠ [] ∧ (b <+: t ∨ t <+: b)

/-- In no text do they share a place. -/
def Apart (a b : Str) : Prop := ¬ BeginsIn a b ∧ ¬ BeginsIn b a

instance (a b : Str) : Decidable (BeginsIn b a) := inferInstanceAs (Decidable (∃ t ∈ a.tails, _))
instance (a b : Str) : Decidable (Apart a b) := inferInstanceAs (Decidable (_ ∧ _))

theorem BeginsIn.cons {a b : Str} (h : BeginsIn b a) (c : Char) : BeginsIn b (c :: a) := by
  obtain ⟨t, ht, hne, hmeet⟩ := h
  exact ⟨t, by rw [List.tails_cons]; exact List.mem_cons_of_mem _ ht, hne, hmeet⟩

theorem beginsIn_of_prefix_append {a b x : Str} (ha : a ≠ []) (h : b <+: a ++ x) : BeginsIn b a :=
  ⟨a, (List.mem_tails _ _).2 List.suffix_rfl, ha, List.prefix_or_prefix_of_prefix h (List.prefix_append _ _)⟩

theorem not_beginsIn_of_notMem {c : Char} {a b : Str} (hc : c ∉ a) : ¬ BeginsIn (c :: b) a := by
  rintro ⟨t, ht, hne, hmeet⟩
  obtain ⟨d, t, rfl⟩ := List.exists_cons_of_ne_nil hne
  have hd : d ∈ a := ((List.mem_tails _ _).1 ht).subset List.mem_cons_self
  rcases hmeet with hpre | hpre
  · exact hc ((List.cons_prefix_cons.1 hpre).1 ▸ hd)
  · exact hc ((List.cons_prefix_cons.1 hpre).1 ▸ hd)

/-- A text that does not begin in the one in front stands behind it. -/
theorem infix_of_infix_append {q r x : Str} (hq : ¬ BeginsIn q r) (h : q <:+: r ++ x) : q <:+: x := by
  induction r with
  | nil => exact h
  | cons c r ih =>
    rcases List.infix_cons_iff.1 h with hpre | hin
    · exact absurd (beginsIn_of_prefix_append (List.cons_ne_nil c r) hpre) hq
    · exact ih (fun hbegins => hq (hbegins.cons c)) hin

theorem prefix_of_prefix_append_cons {c : Char} {q b : Str} (hq : c ∉ q) : ∀ {a : Str}, q <+: a ++ c :: b → q <+: a
  | [], h => by
    cases q with
    | nil => exact List.nil_prefix
    | cons d q =>
      obtain ⟨rfl, -⟩ := List.cons_prefix_cons.1 h
      exact absurd List.mem_cons_self hq
  | x :: a, h => by
    cases q with
    | nil => exact List.nil_prefix
    | cons d q =>
      obtain ⟨rfl, hrest⟩ := List.cons_prefix_cons.1 h
      exact List.cons_prefix_cons.2 ⟨rfl, prefix_of_prefix_append_cons (fun h => hq (List.mem_cons_of_mem _ h)) hrest⟩

/-- A text without `c` is a part of what stands before it or of what stands behind it. -/
theorem infix_of_append_cons {c : Char} {q b : Str} (hq : c ∉ q) : ∀ {a : Str}, q <:+: a ++ c :: b → q <:+: a ∨ q <:+: b
  | [], h => by
    rcases List.infix_cons_iff.1 h with hpre | hin
    · exact Or.inl (prefix_of_prefix_append_cons (a := []) hq hpre).isInfix
    · exact Or.inr hin
  | x :: a, h => by
    rcases List.infix_cons_iff.1 h with hpre | hin
    · exact Or.inl (prefix_of_prefix_append_cons (a := x :: a) hq hpre).isInfix
    · exact (infix_of_append_cons hq hin).imp_left List.infix_cons

theorem infix_of_strip (s : Str) : strip s <:+: s :=
  (List.rdropWhile_prefix _ _).isInfix.trans (List.dropWhile_suffix _).isInfix

/-! ## What is left -/

section
variable {p r : Str}

/-- What the new text begins with, the old one does. -/
theorem prefix_of_prefix_replaceFrom {q s : Str} (hq : ¬ BeginsIn r q) (h : q <+: replaceFrom p r 0 s) : q <+: s := by
  induction s generalizing q with
  | nil => exact h
  | cons c s ih =>
    cases q with
    | nil => exact List.nil_prefix
    | cons d q =>
      rw [replaceFrom] at h
      split at h
      · rcases List.prefix_or_prefix_of_prefix h (List.prefix_append r _) with hpre | hpre
        · exact absurd ⟨d :: q, (List.mem_tails _ _).2 List.suffix_rfl, List.cons_ne_nil d q, Or.inr hpre⟩ hq
        · exact absurd ⟨d :: q, (List.mem_tails _ _).2 List.suffix_rfl, List.cons_ne_nil d q, Or.inl hpre⟩ hq
      · obtain ⟨rfl, hrest⟩ := List.cons_prefix_cons.1 h
        exact List.cons_prefix_cons.2 ⟨rfl, ih (fun hbegins => hq (hbegins.cons d)) hrest⟩

/-- No text apart from `r` appears that was not there. -/
theorem infix_of_infix_replaceFrom {q s : Str} (hq : Apart r q) {n : Nat} (h : q <:+: replaceFrom p r n s) : q <:+: s := by
  induction s generalizing n with
  | nil => cases n <;> exact h
  | cons c s ih =>
    cases n with
    | succ n => exact List.infix_cons (ih h)
    | zero =>
      rw [replaceFrom] at h
      split at h
      · exact List.infix_cons (ih (infix_of_infix_append hq.2 h))
      · rename_i hstart
        rcases List.infix_cons_iff.1 h with hpre | hin
        · refine (prefix_of_prefix_replaceFrom (p := p) hq.1 ?_).isInfix
          rw [replaceFrom, if_neg hstart]
          exact hpre
        · exact List.infix_cons (ih hin)

theorem not_infix_replaceFrom (hne : p ≠ []) (hp : Apart r p) {s : Str} {n : Nat} : ¬ p <:+: replaceFrom p r n s := by
  induction s generalizing n with
  | nil =>
    intro h
    cases n <;> exact hne (List.infix_nil.1 h)
  | cons c s ih =>
    cases n with
    | succ n => exact ih
    | zero =>
      intro h
      rw [replaceFrom] at h
      split at h
      · exact ih (infix_of_infix_append hp.2 h)
      · rename_i hstart
        rcases List.infix_cons_iff.1 h with hpre | hin
        · refine hstart (List.isPrefixOf_iff_prefix.2 (prefix_of_prefix_replaceFrom (p := p) hp.1 ?_))
          rw [replaceFrom, if_neg hstart]
          exact hpre
        · exact ih hin

theorem infix_of_infix_replaceAll {q s : Str} (hq : Apart r q) (h : q <:+: replaceAll p r s) : q <:+: s :=
  infix_of_infix_replaceFrom hq h

/-- Nothing of `p` is left. -/
theorem not_infix_replaceAll (hne : p ≠ []) (hp : Apart r p) (s : Str) : ¬ p <:+: replaceAll p r s :=
  not_infix_replaceFrom hne hp

end

/-! ## Piece by piece -/

section
variable {p r : Str}

theorem mem_replaceFrom {x : Char} : ∀ {s : Str} {n : Nat}, x ∈ replaceFrom p r n s → x ∈ s ∨ x ∈ r
  | [], n, h => by cases n <;> exact absurd h List.not_mem_nil
  | c :: s, n + 1, h => (mem_replaceFrom (s := s) (n := n) h).imp_left (List.mem_cons_of_mem c)
  | c :: s, 0, h => by
    rw [replaceFrom] at h
    split at h
    · rcases List.mem_append.1 h with h | h
      · exact Or.inr h
      · exact (mem_replaceFrom h).imp_left (List.mem_cons_of_mem c)
    · rcases List.mem_cons.1 h with rfl | h
      · exact Or.inl List.mem_cons_self
      · exact (mem_replaceFrom h).imp_left (List.mem_cons_of_mem c)

theorem replaceFrom_append (x : Str) : ∀ u : Str, replaceFrom p r u.length (u ++ x) = replaceFrom p r 0 x
  | [] => rfl
  | _ :: u => replaceFrom_append x u

/-- The part at the start is replaced. -/
theorem replaceAll_append (hne : p ≠ []) (x : Str) : replaceAll p r (p ++ x) = r ++ replaceAll p r x := by
  obtain ⟨c, q, rfl⟩ := List.exists_cons_of_ne_nil hne
  have hstart : startsWith (c :: q) (c :: (q ++ x)) = true := List.isPrefixOf_iff_prefix.2 (List.prefix_append (c :: q) x)
  rw [List.cons_append, replaceAll, replaceFrom, if_pos hstart]
  exact congrArg (r ++ ·) (replaceFrom_append x q)

/-- Nothing is replaced across a character that the part does not have. -/
theorem replaceAll_append_cons {c : Char} (hne : p ≠ []) (hp : c ∉ p) (b : Str) (a : Str) :
    replaceAll p r (a ++ c :: b) = replaceAll p r a ++ c :: replaceAll p r b := by
  induction hn : a.length using Nat.strong_induction_on generalizing a with
  | _ n ih =>
    cases a with
    | nil =>
      have hstart : ¬ startsWith p (c :: b) = true := by
        intro h
        obtain ⟨d, q, rfl⟩ := List.exists_cons_of_ne_nil hne
        obtain ⟨rfl, -⟩ := List.cons_prefix_cons.1 (List.isPrefixOf_iff_prefix.1 h)
        exact hp List.mem_cons_self
      rw [List.nil_append, replaceAll, replaceFrom, if_neg hstart]
      rfl
    | cons d a =>
      by_cases hstart : p <+: d :: a
      · obtain ⟨a', ha'⟩ := hstart
        have hlen : a'.length < n := by
          have hpos : 0 < p.length := List.length_pos_iff.2 hne
          have := congrArg List.length ha'
          simp only [List.length_append] at this
          omega
        rw [← ha', List.append_assoc, replaceAll_append hne, ih a'.length hlen a' rfl, replaceAll_append hne, List.append_assoc]
      · have hlong : ¬ startsWith p (d :: (a ++ c :: b)) = true := fun h =>
          hstart (prefix_of_prefix_append_cons (a := d :: a) hp (List.isPrefixOf_iff_prefix.1 h))
        have hshort : ¬ startsWith p (d :: a) = true := fun h => hstart (List.isPrefixOf_iff_prefix.1 h)
        rw [List.cons_append, replaceAll, replaceFrom, if_neg hlong, replaceAll, replaceFrom, if_neg hshort]
        exact congrArg (d :: ·) (ih a.length (by simp [← hn]) a rfl)

/-- Every piece is replaced in by itself. -/
theorem split_replaceAll {c : Char} (hne : p ≠ []) (hp : c ∉ p) (hr : c ∉ r) (s : Str) :
    split c (replaceAll p r s) = (split c s).map (replaceAll p r) := by
  induction hn : s.length using Nat.strong_induction_on generalizing s with
  | _ n ih =>
    by_cases hs : c ∈ s
    · obtain ⟨a, b, rfl, ha⟩ := List.eq_append_cons_of_mem hs
      have hb : split c (replaceAll p r b) = (split c b).map (replaceAll p r) := ih b.length (by simp [← hn]; omega) b rfl
      have hnot : c ∉ replaceAll p r a := fun h => (mem_replaceFrom h).elim ha hr
      rw [replaceAll_append_cons hne hp, split_append_cons, split_append_cons, hb, split_of_notMem hnot, split_of_notMem ha]
      rfl
    · have hnot : c ∉ replaceAll p r s := fun h => (mem_replaceFrom h).elim hs hr
      rw [split_of_notMem hnot, split_of_notMem hs]
      rfl

end

end Str
end Lib
