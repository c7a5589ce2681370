import PiHerder.Backup.Direct

/-!
# A copy narrowed to a scope

What `paths_for_scope` (`backup_replicate.py` 1220) gives of a normalized selection, path by path.

| here | there |
| --- | --- |
| `scopePath` | `scope.strip().strip("/")` |
| `narrowedChecked`, `scopedSkip` | `narrowed` and `scoped_skip`, before they are normalized |
| `ScopedTo` | what the narrowed selection should include |
-/
namespace PiHerder.Backup
open Lib Lib.Str Lib.Selection

def scopePath (scope : Str) : Str := rstrip '/' (lstrip '/' (strip scope))

/-- The checked paths below the scope, and the scope where one is above it. -/
def narrowedChecked (checked : List Str) (front : Str) : List Str :=
  (checked.filter fun p => p == front || under p front || under front p).map fun path =>
    if under front path && path != front then front else path

def scopedSkip (checked skipped : List Str) (front : Str) : List Str :=
  skipped.filter fun p => p == front || under p front || (narrowedChecked checked front).any (under p)

/-- **What narrowing should do**: at the scope and below it nothing changes, elsewhere nothing is included. -/
def ScopedTo (before after : List Str × List Str) (front : Str) : Prop :=
  ∀ q, pathIncluded q after.1 after.2 =
    match cleanRel q with
    | .ok r => if Under front r then pathIncluded q before.1 before.2 else .ok false
    | .error e => .error e

/-- Either the scope is a clean path that is not skipped, and no path narrowed to it has a blank at its ends; or nothing
is included below it, and nothing is checked at it or above it, unless it cleans to nothing. -/
def ScopeKept (checked skipped : List Str) (front : Str) : Prop :=
  (Clean front ∧ (¬ ∃ k ∈ skipped, Under k front) ∧ Stripped (narrow Under checked skipped front)) ∨
    ((¬ Clean front ∨ ∃ k ∈ skipped, Under k front) ∧ ((∃ c ∈ checked, Under c front) → again front = none))

section
variable {C S : List Str} {scope front : Str}

theorem pathsForScope_eq (C S : List Str) (hne : scopePath scope ≠ []) :
    pathsForScope C S scope = normalizeSelection (narrowedChecked C (scopePath scope)) (scopedSkip C S (scopePath scope)) := by
  have hscope : scope ≠ [] := by
    rintro rfl
    exact hne rfl
  unfold pathsForScope
  exact if_neg (by rw [not_or]; exact ⟨hscope, hne⟩)

theorem under_scope (x scope : Str) : under x (scopePath scope) = decide (Under (scopePath scope) x) := by
  have hidem : rstrip '/' (scopePath scope) = scopePath scope := List.rdropWhile_idempotent _ _
  unfold under
  rw [hidem, Bool.eq_iff_iff, Bool.or_eq_true, beq_iff_eq, decide_eq_true_eq]
  rfl

/-- What is above a clean path is clean. -/
theorem Clean.of_under {a b : Str} (hb : Clean b) (h : Under a b) : Clean a := by
  refine ⟨fun c hc => hb.parts c ((under_iff.1 h).subset hc), fun hback => hb.noBackslash ?_⟩
  rcases h with rfl | hpre
  · exact hback
  · exact (List.isPrefixOf_iff_prefix.1 hpre).subset (List.mem_append_left _ hback)

theorem mem_narrowedChecked (hC : ∀ x ∈ C, Clean x) {x : Str} :
    x ∈ narrowedChecked C (scopePath scope) ↔ (x = scopePath scope ∧ ∃ c ∈ C, Under c (scopePath scope)) ∨ (x ∈ C ∧ Under (scopePath scope) x) := by
  have hkeep : ∀ c ∈ C, (c == scopePath scope || under c (scopePath scope) || under (scopePath scope) c) = true ↔
      Under (scopePath scope) c ∨ Under c (scopePath scope) := by
    intro c hc
    rw [under_scope, under_eq (hC c hc), Bool.or_eq_true, Bool.or_eq_true, beq_iff_eq, decide_eq_true_eq, decide_eq_true_eq, or_assoc]
    exact or_iff_right_of_imp fun heq => Or.inl (heq ▸ Under.refl _)
  have hmove : ∀ c ∈ C, (under (scopePath scope) c && c != scopePath scope) = true ↔ Under c (scopePath scope) ∧ c ≠ scopePath scope := by
    intro c hc
    rw [under_eq (hC c hc), Bool.and_eq_true, decide_eq_true_eq, bne_iff_ne]
  unfold narrowedChecked
  rw [List.mem_map]
  constructor
  · rintro ⟨c, hc, rfl⟩
    obtain ⟨hcC, hcomp⟩ := List.mem_filter.1 hc
    by_cases hup : Under c (scopePath scope) ∧ c ≠ scopePath scope
    · rw [if_pos ((hmove c hcC).2 hup)]
      exact Or.inl ⟨rfl, c, hcC, hup.1⟩
    · rw [if_neg (mt (hmove c hcC).1 hup)]
      rcases (hkeep c hcC).1 hcomp with hdown | habove
      · exact Or.inr ⟨hcC, hdown⟩
      · have heq : c = scopePath scope := by_contra fun hne => hup ⟨habove, hne⟩
        exact Or.inl ⟨heq, c, hcC, habove⟩
  · rintro (⟨rfl, c, hc, habove⟩ | ⟨hx, hdown⟩)
    · refine ⟨c, List.mem_filter.2 ⟨hc, (hkeep c hc).2 (Or.inr habove)⟩, ?_⟩
      by_cases heq : c = scopePath scope
      · rw [heq, bne_self_eq_false, Bool.and_false, if_neg (by simp)]
      · exact if_pos ((hmove c hc).2 ⟨habove, heq⟩)
    · refine ⟨x, List.mem_filter.2 ⟨hx, (hkeep x hx).2 (Or.inl hdown)⟩, if_neg ?_⟩
      rw [hmove x hx]
      rintro ⟨habove, hne⟩
      exact hne (habove.antisymm hdown)

theorem mem_scopedSkip (hC : ∀ x ∈ C, Clean x) {k : Str} :
    k ∈ scopedSkip C S (scopePath scope) ↔ k ∈ S ∧ Under (scopePath scope) k := by
  unfold scopedSkip
  rw [List.mem_filter, under_scope, Bool.or_eq_true, Bool.or_eq_true, beq_iff_eq, decide_eq_true_eq, List.any_eq_true]
  refine and_congr_right fun _ => ⟨?_, fun h => Or.inl (Or.inr h)⟩
  rintro ((rfl | h) | ⟨c, hc, hck⟩)
  · exact Under.refl _
  · exact h
  · rcases (mem_narrowedChecked hC).1 hc with ⟨rfl, -⟩ | ⟨hcC, hdown⟩
    · rwa [under_scope, decide_eq_true_eq] at hck
    · rw [under_eq (hC c hcC), decide_eq_true_eq] at hck
      exact hdown.trans hck

theorem scopedTo_iff {before after : List Str × List Str} (hb : CleanSelection before) (ha : CleanSelection after) (hne : front ≠ []) :
    ScopedTo before after front ↔
      ∀ r, Clean r → (Included Under after.1 after.2 r ↔ Included Under before.1 before.2 r ∧ Under front r) := by
  constructor
  · intro h r hr
    have hq := h ('/' :: (r ++ lit "/"))
    rw [pathIncluded_eq ha.checked ha.skipped, pathIncluded_eq hb.checked hb.skipped, hr.reachable] at hq
    simp only [Except.map, and_iff_right hr.ne_nil] at hq
    by_cases hu : Under front r
    · rw [if_pos hu] at hq
      simpa [hu] using decide_eq_decide.1 (Except.ok.inj hq)
    · rw [if_neg hu] at hq
      simpa [hu] using Except.ok.inj hq
  · intro h q
    rw [pathIncluded_eq ha.checked ha.skipped, pathIncluded_eq hb.checked hb.skipped]
    cases hq : cleanRel q with
    | error e => rfl
    | ok r =>
      simp only [Except.map]
      by_cases hnil : r = []
      · have hno : ¬ Under front r := by
          rintro (heq | hpre)
          · exact hne (heq ▸ hnil)
          · have := (List.isPrefixOf_iff_prefix.1 hpre).length_le
            rw [hnil] at this
            simp at this
        rw [if_neg hno]
        simp [hnil]
      · have hr := h r (cleanRel_clean hq hnil)
        by_cases hu : Under front r
        · rw [if_pos hu]
          simp [hnil, hr, hu]
        · rw [if_neg hu]
          simp [hnil, hr, hu]

/-- **A normalized selection includes nothing** iff none of its checked paths cleans to one. -/
theorem normalizeSelection_empty {C S : List Str} :
    (∀ r, Clean r → ¬ Included Under (normalizeSelection C S).1 (normalizeSelection C S).2 r) ↔ ∀ c ∈ C, again c = none := by
  constructor
  · intro h c hc
    cases hagain : again c with
    | none => rfl
    | some d =>
      obtain ⟨m, hm, -⟩ := exists_minimal forest_under (mem_cleanChecked.2 (mem_cleaned.2 ⟨c, hc, hagain⟩))
      have hmem : m ∈ (normalizeSelection C S).1 := by
        rw [normalizeSelection_eq]
        exact hm
      exact absurd ((normalizeSelection_canonical C S).included_checked forest_under hmem) (h m (normalizeSelection_clean.1 m hmem))
  · rintro h r - hin
    obtain ⟨⟨d, hd, -⟩, -⟩ := (normalizeSelection_included C S r).1 hin
    obtain ⟨c, hc, hcd⟩ := mem_cleaned.1 (mem_cleanChecked.1 hd)
    rw [h c hc] at hcd
    cases hcd

/-- Where the scope is skipped or not a clean path, at most the scope itself is kept. -/
theorem narrowedChecked_odd (hC : ∀ x ∈ C, Clean x) (hcan : Canonical Under C S)
    (h : ¬ Clean (scopePath scope) ∨ ∃ k ∈ S, Under k (scopePath scope)) {x : Str} :
    x ∈ narrowedChecked C (scopePath scope) ↔ x = scopePath scope ∧ ∃ c ∈ C, Under c (scopePath scope) := by
  rw [mem_narrowedChecked hC]
  refine or_iff_left_of_imp ?_
  rintro ⟨hx, hdown⟩
  rcases h with hunclean | ⟨k, hk, hkp⟩
  · exact absurd ((hC x hx).of_under hdown) hunclean
  · obtain ⟨c, hc, hck, -⟩ := hcan.below k hk
    have hcp := hck.trans hkp
    have hcx := hcan.checkedApart c hc x hx (hcp.trans hdown)
    exact ⟨(hcx ▸ hcp).antisymm hdown, c, hc, hcp⟩

/-- Where the scope is a path of its own, the code keeps what lies within it. -/
theorem mem_narrowed (hC : ∀ x ∈ C, Clean x) (hcan : Canonical Under C S) (hskip : ¬ ∃ k ∈ S, Under k (scopePath scope)) :
    (∀ x, x ∈ narrowedChecked C (scopePath scope) ↔ x ∈ (narrow Under C S (scopePath scope)).1) ∧
      ∀ x, x ∈ scopedSkip C S (scopePath scope) ↔ x ∈ (narrow Under C S (scopePath scope)).2 :=
  ⟨fun _ => (mem_narrowedChecked hC).trans (mem_narrow_checked forest_under hcan.checkedApart hskip).symm,
    fun _ => (mem_scopedSkip hC).trans (mem_narrow_skipped hskip).symm⟩

theorem scopeKept_iff (hclean : CleanSelection (C, S)) (hcan : Canonical Under C S) (hne : scopePath scope ≠ []) :
    ScopedTo (C, S) (pathsForScope C S scope) (scopePath scope) ↔ ScopeKept C S (scopePath scope) := by
  rw [pathsForScope_eq C S hne, scopedTo_iff hclean ⟨normalizeSelection_clean.1, normalizeSelection_clean.2⟩ hne]
  by_cases hodd : ¬ Clean (scopePath scope) ∨ ∃ k ∈ S, Under k (scopePath scope)
  · -- nothing below the scope was included
    have hnone : ∀ r, Clean r → ¬ (Included Under C S r ∧ Under (scopePath scope) r) := by
      rintro r hr ⟨hin, hu⟩
      rcases hodd with hunclean | ⟨k, hk, hkp⟩
      · exact hunclean (hr.of_under hu)
      · exact hin.2 k hk (hkp.trans hu)
    have hempty : (∀ r, Clean r → (Included Under (normalizeSelection (narrowedChecked C (scopePath scope)) (scopedSkip C S (scopePath scope))).1
        (normalizeSelection (narrowedChecked C (scopePath scope)) (scopedSkip C S (scopePath scope))).2 r ↔
        Included Under C S r ∧ Under (scopePath scope) r)) ↔ ∀ c ∈ narrowedChecked C (scopePath scope), again c = none := by
      rw [← normalizeSelection_empty]
      exact forall₂_congr fun r hr => iff_false_right (hnone r hr)
    rw [hempty]
    constructor
    · intro h
      exact Or.inr ⟨hodd, fun habove => h _ ((narrowedChecked_odd hclean.checked hcan hodd).2 ⟨rfl, habove⟩)⟩
    · rintro (⟨hc, hskip, -⟩ | ⟨-, h⟩) x hx
      · exact absurd hodd (by rw [not_or, not_not]; exact ⟨hc, hskip⟩)
      · obtain ⟨rfl, habove⟩ := (narrowedChecked_odd hclean.checked hcan hodd).1 hx
        exact h habove
  · obtain ⟨hfront, hskip⟩ := not_or.1 hodd
    rw [not_not] at hfront
    obtain ⟨hD, hK⟩ := mem_narrowed hclean.checked hcan hskip
    obtain ⟨hncan, hninc⟩ := hcan.narrow (p := scopePath scope) forest_under
    have hDclean : ∀ x ∈ narrowedChecked C (scopePath scope), Clean x := by
      intro x hx
      rcases (mem_narrowedChecked hclean.checked).1 hx with ⟨rfl, -⟩ | ⟨hx, -⟩
      · exact hfront
      · exact hclean.checked x hx
    have hKclean : ∀ x ∈ scopedSkip C S (scopePath scope), Clean x := fun x hx =>
      hclean.skipped x ((mem_scopedSkip hclean.checked).1 hx).1
    have hcan' : Canonical Under (narrowedChecked C (scopePath scope)) (scopedSkip C S (scopePath scope)) := by
      refine ⟨fun a ha b hb => hncan.checkedApart a ((hD a).1 ha) b ((hD b).1 hb),
        fun a ha b hb => hncan.skippedApart a ((hK a).1 ha) b ((hK b).1 hb), fun k hk => ?_⟩
      obtain ⟨c, hc, hck⟩ := hncan.below k ((hK k).1 hk)
      exact ⟨c, (hD c).2 hc, hck⟩
    have hinc : ∀ r, Included Under (narrowedChecked C (scopePath scope)) (scopedSkip C S (scopePath scope)) r ↔
        Included Under C S r ∧ Under (scopePath scope) r := by
      intro r
      rw [← hninc r]
      refine and_congr (exists_congr fun c => and_congr_left fun _ => hD c) (forall_congr' fun k => ?_)
      rw [hK k]
    have hagain := normalize_again_iff hDclean hKclean hcan'
    simp only [hinc] at hagain
    rw [hagain]
    have hstripped : Stripped (narrowedChecked C (scopePath scope), scopedSkip C S (scopePath scope)) ↔
        Stripped (narrow Under C S (scopePath scope)) := by
      unfold Stripped
      simp only [List.mem_append, hD, hK]
    rw [hstripped]
    constructor
    · exact fun h => Or.inl ⟨hfront, hskip, h⟩
    · rintro (⟨-, -, h⟩ | ⟨h, -⟩)
      · exact h
      · exact absurd h hodd

/-- **When narrowing a copy is intersecting it.** -/
theorem pathsForScope_iff (checked skipped : List Str) (hne : scopePath scope ≠ []) :
    let selection := normalizeSelection checked skipped
    ScopedTo selection (pathsForScope selection.1 selection.2 scope) (scopePath scope) ↔
      ScopeKept selection.1 selection.2 (scopePath scope) :=
  scopeKept_iff ⟨normalizeSelection_clean.1, normalizeSelection_clean.2⟩ (normalizeSelection_canonical checked skipped) hne

end

/-- A ticked host folder with a skipped one in it, narrowed to a third. -/
theorem pathsForScope_web :
    ScopedTo (normalizeSelection [lit "pi"] [lit "pi/data"])
      (pathsForScope (normalizeSelection [lit "pi"] [lit "pi/data"]).1 (normalizeSelection [lit "pi"] [lit "pi/data"]).2 (lit "pi/web"))
      (scopePath (lit "pi/web")) := by
  have hsel : normalizeSelection [lit "pi"] [lit "pi/data"] = ([lit "pi"], [lit "pi/data"]) := by decide +kernel
  refine (pathsForScope_iff [lit "pi"] [lit "pi/data"] (by decide +kernel)).2 ?_
  rw [hsel]
  have hself : cleanRel (lit "pi/web") = .ok (scopePath (lit "pi/web")) := by decide +kernel
  refine Or.inl ⟨cleanRel_clean hself (by decide +kernel), by decide +kernel, ?_⟩
  intro x hx
  have hnarrow : narrow Under [lit "pi"] [lit "pi/data"] (scopePath (lit "pi/web")) = ([lit "pi/web"], []) := by decide +kernel
  rw [hnarrow] at hx
  obtain rfl := List.mem_singleton.1 hx
  decide +kernel

/-- **A skipped folder as the scope is copied.** -/
theorem skipped_scope_is_copied :
    ¬ ScopedTo (normalizeSelection [lit "pi"] [lit "pi/data"])
      (pathsForScope (normalizeSelection [lit "pi"] [lit "pi/data"]).1 (normalizeSelection [lit "pi"] [lit "pi/data"]).2 (lit "pi/data"))
      (scopePath (lit "pi/data")) := by
  intro h
  have hq := h (lit "pi/data")
  revert hq
  decide +kernel

end PiHerder.Backup
