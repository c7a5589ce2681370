import PiHerder.Lib.Path

/-!
# At or below, on the text of a path

`child == parent or child.startswith(parent + "/")` is the prefix order of what `split("/")` gives:

* `under_iff` — the order read off the components, for any two texts;
* `Under.total` — what lies above one path lies on one line;
* `length_normpath_le` — normalizing does not make a text longer.
-/
namespace Lib
namespace Str

/-- `child == parent or child.startswith(parent + "/")`. -/
def Under (parent child : Str) : Prop := child = parent ∨ startsWith (parent ++ lit "/") child = true

instance (parent child : Str) : Decidable (Under parent child) := inferInstanceAs (Decidable (_ ∨ _))

theorem join_append (c : Char) {a b : List Str} (ha : a ≠ []) (hb : b ≠ []) : join c (a ++ b) = join c a ++ c :: join c b := by
  induction a with
  | nil => exact absurd rfl ha
  | cons x a ih =>
    cases a with
    | nil =>
      obtain ⟨y, ys, rfl⟩ := List.exists_cons_of_ne_nil hb
      rfl
    | cons z a =>
      have hrest := ih (by simp)
      simp only [List.cons_append] at hrest ⊢
      simp only [join, hrest]
      simp

theorem mem_of_mem_normComps {s c : Str} {x : Char} (hc : c ∈ normComps s) (hx : x ∈ c) : x ∈ s := by
  unfold normComps at hc
  rw [List.mem_reverse] at hc
  rcases mem_foldl_normStep _ hc with hc | hc
  · cases hc
  · exact mem_of_mem_split hc hx

theorem split_injective {c : Char} {a b : Str} (h : split c a = split c b) : a = b := by
  rw [← join_split c a, h, join_split]

/-- **At or below is the prefix order of the components.** -/
theorem under_iff {parent child : Str} : Under parent child ↔ split '/' parent <+: split '/' child := by
  constructor
  · rintro (rfl | h)
    · exact List.prefix_refl _
    · obtain ⟨t, rfl⟩ := List.isPrefixOf_iff_prefix.1 h
      rw [List.append_assoc]
      exact ⟨split '/' t, (split_append_cons '/' parent t).symm⟩
  · rintro ⟨rest, h⟩
    by_cases hrest : rest = []
    · rw [hrest, List.append_nil] at h
      exact Or.inl (split_injective h.symm)
    · refine Or.inr (List.isPrefixOf_iff_prefix.2 ⟨join '/' rest, ?_⟩)
      calc parent ++ lit "/" ++ join '/' rest = join '/' (split '/' parent) ++ '/' :: join '/' rest := by
            rw [join_split, List.append_assoc]
            rfl
        _ = join '/' (split '/' child) := by rw [← join_append '/' (split_ne_nil '/' parent) hrest, h]
        _ = child := join_split '/' child

theorem Under.refl (a : Str) : Under a a := Or.inl rfl

theorem Under.trans {a b c : Str} (hab : Under a b) (hbc : Under b c) : Under a c :=
  under_iff.2 ((under_iff.1 hab).trans (under_iff.1 hbc))

theorem Under.antisymm {a b : Str} (hab : Under a b) (hba : Under b a) : a = b :=
  split_injective ((under_iff.1 hab).eq_of_length ((under_iff.1 hab).length_le.antisymm (under_iff.1 hba).length_le))

/-- What lies above one path lies on one line. -/
theorem Under.total {a b x : Str} (ha : Under a x) (hb : Under b x) : Under a b ∨ Under b a :=
  (List.prefix_or_prefix_of_prefix (under_iff.1 ha) (under_iff.1 hb)).imp under_iff.2 under_iff.2

/-! ## The length of a normalized path -/

/-- The characters of some components, each with a separator. -/
def weight (cs : List Str) : Nat := (cs.map fun c => c.length + 1).sum

@[simp] theorem weight_nil : weight [] = 0 := rfl

@[simp] theorem weight_cons (c : Str) (cs : List Str) : weight (c :: cs) = c.length + 1 + weight cs := by simp [weight]

theorem weight_split (c : Char) (s : Str) : weight (split c s) = s.length + 1 := by
  induction s with
  | nil => rfl
  | cons x xs ih =>
    unfold split
    by_cases hx : x = c
    · rw [if_pos hx, weight_cons, ih, List.length_nil, List.length_cons]
      omega
    · rw [if_neg hx]
      cases h : split c xs with
      | nil => exact absurd h (split_ne_nil c xs)
      | cons p ps =>
        rw [h] at ih
        simp only [weight_cons, List.length_cons] at ih ⊢
        omega

theorem length_join (c : Char) {cs : List Str} (h : cs ≠ []) : (join c cs).length + 1 = weight cs := by
  induction cs with
  | nil => exact absurd rfl h
  | cons x cs ih =>
    cases cs with
    | nil => simp [join]
    | cons y cs =>
      have hrest := ih (by simp)
      simp only [join, List.length_append, List.length_cons, weight_cons] at hrest ⊢
      omega

theorem weight_reverse (cs : List Str) : weight cs.reverse = weight cs := by simp [weight, List.sum_reverse]

theorem weight_filter_le (q : Str → Bool) (cs : List Str) : weight (cs.filter q) ≤ weight cs := by
  induction cs with
  | nil => exact Nat.le_refl _
  | cons c cs ih =>
    rw [List.filter_cons, weight_cons]
    split
    · rw [weight_cons]
      omega
    · omega

theorem weight_foldl {r : Bool} (cs : List Str) : ∀ acc, weight (cs.foldl (normStep r) acc) ≤ weight acc + weight cs := by
  induction cs with
  | nil => exact fun acc => Nat.le_refl _
  | cons c cs ih =>
    intro acc
    have hstep : weight (normStep r acc c) ≤ weight acc + (c.length + 1) := by
      unfold normStep
      split
      · omega
      · split
        · rw [weight_cons]
          omega
        · cases acc with
          | nil => simp
          | cons a as =>
            rw [List.tail_cons, weight_cons]
            omega
    have := ih (normStep r acc c)
    rw [List.foldl_cons, weight_cons]
    omega

theorem length_normpath_le {s : Str} (hs : s ≠ []) : (normpath s).length ≤ s.length := by
  have hpos : 0 < s.length := List.length_pos_iff.2 hs
  have hfold : ∀ {r : Bool} (u : Str), weight ((split '/' u).foldl (normStep r) []).reverse ≤ u.length + 1 := by
    intro r u
    have := weight_foldl (r := r) (split '/' u) []
    rw [weight_split] at this
    rw [weight_reverse]
    simpa using this
  have hjoin : ∀ cs : List Str, (join '/' cs).length ≤ weight cs - 1 := by
    intro cs
    by_cases hcs : cs = []
    · rw [hcs]
      exact Nat.le_refl _
    · have := length_join '/' hcs
      omega
  rcases normpath_shape s with ⟨hp, -⟩ | ⟨hp, -⟩ | ⟨hp, hr⟩ | ⟨hp, -, u, rfl⟩
  · rw [hp]
    exact hpos
  · have hw : weight (normComps s) ≤ s.length + 1 := hfold s
    have := hjoin (normComps s)
    rw [hp]
    omega
  · obtain ⟨u, rfl⟩ := List.isPrefixOf_iff_prefix.1 hr
    have hw : weight (normComps (lit "/" ++ u)) ≤ u.length + 1 := by
      rw [show lit "/" ++ u = '/' :: u from rfl, normComps_slash]
      exact hfold u
    have := hjoin (normComps (lit "/" ++ u))
    rw [hp, List.length_cons, List.length_append]
    have hone : (lit "/").length = 1 := rfl
    omega
  · have hempty : normStep true [] [] = [] := by simp [normStep]
    have hw : weight (normComps ('/' :: '/' :: u)) ≤ u.length + 1 := by
      rw [normComps_slash, split_slash, List.foldl_cons, hempty]
      exact hfold u
    have := hjoin (normComps ('/' :: '/' :: u))
    rw [hp]
    simp only [List.length_cons]
    omega

end Str
end Lib
