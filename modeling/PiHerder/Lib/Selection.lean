import Mathlib

/-!
# Choosing subtrees of a forest

`r a b` says that `a` is `b` or above it; what lies above one node lies on one line (`Forest`). A selection is a
list of checked nodes and a list of skipped ones: included is what is at or below a checked node and not at or
below a skipped one.

* `normalized_canonical`, `normalized_included` — dropping what is covered anyway gives a canonical selection;
* `Canonical.ext` — **a canonical selection is determined by what it includes**;
* `Canonical.switchOn`, `Canonical.switchOff` — switching one subtree on or off;
* `Canonical.narrow` — intersecting with one subtree;
* `fixed_of_cover` — a finite set that a shrinking map covers is left alone by it.
-/
namespace Lib
namespace Selection

structure Forest {α : Type} (r : α → α → Prop) (rank : α → Nat) : Prop where
  refl : ∀ a, r a a
  trans : ∀ {a b c}, r a b → r b c → r a c
  comparable : ∀ {a b x}, r a x → r b x → r a b ∨ r b a
  rank : ∀ {a b}, r a b → a ≠ b → rank a < rank b

variable {α : Type} {r : α → α → Prop} {rank : α → Nat}

theorem Forest.antisymm (hr : Forest r rank) {a b : α} (hab : r a b) (hba : r b a) : a = b := by
  by_contra hne
  have := hr.rank hab hne
  have := hr.rank hba (Ne.symm hne)
  omega

/-- What a selection includes. -/
def Included (r : α → α → Prop) (checked skipped : List α) (x : α) : Prop :=
  (∃ c ∈ checked, r c x) ∧ ∀ s ∈ skipped, ¬ r s x

instance [DecidableRel r] (checked skipped : List α) (x : α) : Decidable (Included r checked skipped x) :=
  inferInstanceAs (Decidable (_ ∧ _))

/-- No node of the list is above another. -/
def Antichain (r : α → α → Prop) (l : List α) : Prop := ∀ a ∈ l, ∀ b ∈ l, r a b → a = b

/-- Nothing in the selection is idle: every skipped node is below a checked one, and none covers another. -/
structure Canonical (r : α → α → Prop) (checked skipped : List α) : Prop where
  checkedApart : Antichain r checked
  skippedApart : Antichain r skipped
  below : ∀ s ∈ skipped, ∃ c ∈ checked, r c s ∧ c ≠ s

section canonical
variable {C S C' S' : List α}

/-- A checked node is included. -/
theorem Canonical.included_checked (hr : Forest r rank) (h : Canonical r C S) {c : α} (hc : c ∈ C) : Included r C S c := by
  refine ⟨⟨c, hc, hr.refl c⟩, fun s hs hsc => ?_⟩
  obtain ⟨b, hb, hbs, hne⟩ := h.below s hs
  have := h.checkedApart b hb c hc (hr.trans hbs hsc)
  subst this
  exact hne (hr.antisymm hbs hsc)

theorem Canonical.not_included_skipped (hr : Forest r rank) {s : α} (hs : s ∈ S) : ¬ Included r C S s := fun h =>
  h.2 s hs (hr.refl s)

theorem Canonical.checked_subset (hr : Forest r rank) (h : Canonical r C S) (h' : Canonical r C' S')
    (heq : ∀ x, x ∈ C ∨ x ∈ C' → (Included r C S x ↔ Included r C' S' x)) {c : α} (hc : c ∈ C) : c ∈ C' := by
  obtain ⟨b, hb, hbc⟩ := ((heq c (Or.inl hc)).1 (h.included_checked hr hc)).1
  obtain ⟨a, ha, hab⟩ := ((heq b (Or.inr hb)).2 (h'.included_checked hr hb)).1
  have := h.checkedApart a ha c hc (hr.trans hab hbc)
  subst this
  exact hr.antisymm hab hbc ▸ hb

theorem Canonical.skipped_subset (hr : Forest r rank) (h : Canonical r C S) (h' : Canonical r C' S')
    (hC : ∀ x, x ∈ C ↔ x ∈ C') (heq : ∀ x, x ∈ S ∨ x ∈ S' → (Included r C S x ↔ Included r C' S' x)) {s : α} (hs : s ∈ S) :
    s ∈ S' := by
  -- a skipped node is below a checked one, so the other side has to skip it too
  have habove : ∀ {D T D' T' : List α}, Canonical r D T → (∀ x, x ∈ D → x ∈ D') → ∀ {t}, t ∈ T → ¬ Included r D' T' t →
      ∃ u ∈ T', r u t := by
    intro D T D' T' hcan hsub t ht hno
    obtain ⟨c, hc, hct, -⟩ := hcan.below t ht
    by_contra hnone
    exact hno ⟨⟨c, hsub c hc, hct⟩, fun u hu hut => hnone ⟨u, hu, hut⟩⟩
  obtain ⟨u, hu, hus⟩ := habove h (fun x => (hC x).1) hs fun hin =>
    Canonical.not_included_skipped hr hs ((heq s (Or.inl hs)).2 hin)
  obtain ⟨v, hv, hvu⟩ := habove h' (fun x => (hC x).2) hu fun hin =>
    Canonical.not_included_skipped hr hu ((heq u (Or.inr hu)).1 hin)
  have := h.skippedApart v hv s hs (hr.trans hvu hus)
  subst this
  exact hr.antisymm hvu hus ▸ hu

/-- **A canonical selection is determined by what it includes** of its own nodes and the other's. -/
theorem Canonical.ext (hr : Forest r rank) (h : Canonical r C S) (h' : Canonical r C' S')
    (heq : ∀ x, x ∈ C ++ S ++ (C' ++ S') → (Included r C S x ↔ Included r C' S' x)) :
    (∀ x, x ∈ C ↔ x ∈ C') ∧ ∀ x, x ∈ S ↔ x ∈ S' := by
  simp only [List.mem_append] at heq
  have hC : ∀ x, x ∈ C ↔ x ∈ C' := fun x =>
    ⟨h.checked_subset hr h' fun y hy => heq y (hy.elim (fun hy => Or.inl (Or.inl hy)) fun hy => Or.inr (Or.inl hy)),
      h'.checked_subset hr h fun y hy => (heq y (hy.elim (fun hy => Or.inr (Or.inl hy)) fun hy => Or.inl (Or.inl hy))).symm⟩
  refine ⟨hC, fun x => ⟨?_, ?_⟩⟩
  · exact h.skipped_subset hr h' hC fun y hy => heq y (hy.elim (fun hy => Or.inl (Or.inr hy)) fun hy => Or.inr (Or.inr hy))
  · exact h'.skipped_subset hr h (fun y => (hC y).symm) fun y hy =>
      (heq y (hy.elim (fun hy => Or.inr (Or.inr hy)) fun hy => Or.inl (Or.inr hy))).symm

/-- What a selection includes hangs together: nothing is included below an excluded node that is below an included one. -/
theorem Included.not_below_gap (hr : Forest r rank) {c s p : α} (hc : Included r C S c) (hcs : r c s) (hs : ¬ Included r C S s)
    (hsp : r s p) : ¬ Included r C S p := by
  rintro ⟨-, hp⟩
  obtain ⟨b, hb, hbc⟩ := hc.1
  exact hs ⟨⟨b, hb, hr.trans hbc hcs⟩, fun t ht hts => hp t ht (hr.trans hts hsp)⟩

end canonical

/-! ## Normal forms -/

variable [DecidableRel r]

section normal
variable [DecidableEq α]

/-- The nodes with no other node of the list above them. -/
def minimals (r : α → α → Prop) [DecidableRel r] (l : List α) : List α := l.filter fun a => decide (∀ b ∈ l, r b a → b = a)

/-- The checked nodes none covers, and the skipped nodes below one of them that no other one covers. -/
def normalized (r : α → α → Prop) [DecidableRel r] (checked skipped : List α) : List α × List α :=
  let kept := minimals r checked
  (kept, minimals r (skipped.filter fun s => decide (s ∉ kept ∧ ∃ c ∈ kept, r c s)))

theorem mem_minimals {l : List α} {a : α} : a ∈ minimals r l ↔ a ∈ l ∧ ∀ b ∈ l, r b a → b = a := by
  unfold minimals
  rw [List.mem_filter, decide_eq_true_eq]

theorem antichain_minimals (l : List α) : Antichain r (minimals r l) := fun a ha _ hb hab =>
  (mem_minimals.1 hb).2 a (mem_minimals.1 ha).1 hab

/-- Every node of the list is covered by one that stays. -/
theorem exists_minimal (hr : Forest r rank) {l : List α} {x : α} (hx : x ∈ l) : ∃ m ∈ minimals r l, r m x := by
  induction hn : rank x using Nat.strongRecOn generalizing x with
  | _ n ih =>
    by_cases hmin : ∀ b ∈ l, r b x → b = x
    · exact ⟨x, mem_minimals.2 ⟨hx, hmin⟩, hr.refl x⟩
    · push Not at hmin
      obtain ⟨b, hb, hbx, hne⟩ := hmin
      obtain ⟨m, hm, hmb⟩ := ih (rank b) (hn ▸ hr.rank hbx hne) hb rfl
      exact ⟨m, hm, hr.trans hmb hbx⟩

theorem minimals_of_antichain {l : List α} (h : Antichain r l) (x : α) : x ∈ minimals r l ↔ x ∈ l := by
  rw [mem_minimals]
  exact and_iff_left_of_imp fun hx b hb hbx => h b hb x hx hbx

theorem mem_normalized_skipped {X Y : List α} {s : α} (h : s ∈ (normalized r X Y).2) :
    s ∈ Y ∧ s ∉ (normalized r X Y).1 ∧ ∃ c ∈ (normalized r X Y).1, r c s := by
  have := (mem_minimals.1 h).1
  rw [List.mem_filter, decide_eq_true_eq] at this
  exact this

theorem normalized_canonical (X Y : List α) : Canonical r (normalized r X Y).1 (normalized r X Y).2 := by
  refine ⟨antichain_minimals X, antichain_minimals _, fun s hs => ?_⟩
  obtain ⟨-, hnot, c, hc, hcs⟩ := mem_normalized_skipped hs
  exact ⟨c, hc, hcs, fun heq => hnot (heq ▸ hc)⟩

/-- **A normal form includes** what is below a checked node, and not below a skipped node with a checked one above
it. -/
theorem normalized_included (hr : Forest r rank) (X Y : List α) (x : α) :
    Included r (normalized r X Y).1 (normalized r X Y).2 x ↔
      (∃ c ∈ X, r c x) ∧ ∀ s ∈ Y, r s x → ¬ ∃ c ∈ (normalized r X Y).1, r c s ∧ c ≠ s := by
  have hkept : (∃ c ∈ (normalized r X Y).1, r c x) ↔ ∃ c ∈ X, r c x := by
    constructor
    · rintro ⟨c, hc, hcx⟩
      exact ⟨c, (mem_minimals.1 hc).1, hcx⟩
    · rintro ⟨c, hc, hcx⟩
      obtain ⟨m, hm, hmc⟩ := exists_minimal hr hc
      exact ⟨m, hm, hr.trans hmc hcx⟩
  refine and_congr hkept ⟨fun h s hs hsx hex => ?_, fun h s hs hsx => ?_⟩
  · obtain ⟨c, hc, hcs, hne⟩ := hex
    have hnot : s ∉ (normalized r X Y).1 := fun hin => hne (antichain_minimals X c hc s hin hcs)
    have hmem : s ∈ Y.filter fun s => decide (s ∉ (normalized r X Y).1 ∧ ∃ c ∈ (normalized r X Y).1, r c s) := by
      rw [List.mem_filter, decide_eq_true_eq]
      exact ⟨hs, hnot, c, hc, hcs⟩
    obtain ⟨m, hm, hms⟩ := exists_minimal hr hmem
    exact h m hm (hr.trans hms hsx)
  · obtain ⟨hY, hnot, c, hc, hcs⟩ := mem_normalized_skipped hs
    exact h s hY hsx ⟨c, hc, hcs, fun heq => hnot (heq ▸ hc)⟩

end normal

/-! ## Switching one subtree -/

/-- The nodes of a list that are not at or below `p`. -/
def outside (r : α → α → Prop) [DecidableRel r] (p : α) (l : List α) : List α := l.filter fun x => decide (¬ r p x)

theorem mem_outside {p x : α} {l : List α} : x ∈ outside r p l ↔ x ∈ l ∧ ¬ r p x := by
  unfold outside
  rw [List.mem_filter, decide_eq_true_eq]

/-- The selection with the subtree of `p` checked. -/
def switchOn (r : α → α → Prop) [DecidableRel r] (checked skipped : List α) (p : α) : List α × List α :=
  (outside r p checked ++ if ∃ c ∈ outside r p checked, r c p then [] else [p], outside r p skipped)

/-- The selection with the subtree of `p` skipped. -/
def switchOff (r : α → α → Prop) [DecidableRel r] (checked skipped : List α) (p : α) : List α × List α :=
  (outside r p checked,
    outside r p skipped ++
      if (∃ c ∈ outside r p checked, r c p) ∧ ¬ ∃ s ∈ outside r p skipped, r s p then [p] else [])

section switch
variable {C S : List α} {p : α}

theorem antichain_outside {l : List α} (h : Antichain r l) : Antichain r (outside r p l) := fun a ha b hb =>
  h a (mem_outside.1 ha).1 b (mem_outside.1 hb).1

/-- A node that covers nothing outside and is covered by nothing there goes with the others. -/
theorem antichain_concat {l : List α} (h : Antichain r (outside r p l)) (hno : ¬ ∃ c ∈ outside r p l, r c p) :
    Antichain r (outside r p l ++ [p]) := by
  intro a ha b hb hab
  rw [List.mem_append, List.mem_singleton] at ha hb
  rcases ha with ha | rfl
  · rcases hb with hb | rfl
    · exact h a ha b hb hab
    · exact absurd ⟨a, ha, hab⟩ hno
  · rcases hb with hb | rfl
    · exact absurd hab (mem_outside.1 hb).2
    · rfl

/-- **Switching on** a subtree that is not inside a skipped one: it is included, the rest stays. -/
theorem Canonical.switchOn (hr : Forest r rank) (h : Canonical r C S) (hin : ∀ s ∈ S, r s p → s = p) :
    Canonical r (Selection.switchOn r C S p).1 (Selection.switchOn r C S p).2 ∧
      ∀ x, Included r (Selection.switchOn r C S p).1 (Selection.switchOn r C S p).2 x ↔ r p x ∨ Included r C S x := by
  have hcover : ∃ c ∈ (Selection.switchOn r C S p).1, r c p := by
    unfold Selection.switchOn
    simp only
    by_cases hex : ∃ c ∈ outside r p C, r c p
    · rw [if_pos hex, List.append_nil]
      exact hex
    · rw [if_neg hex]
      exact ⟨p, by simp, hr.refl p⟩
  have hmem : ∀ c ∈ (Selection.switchOn r C S p).1, c ∈ outside r p C ∨ c = p := by
    intro c hc
    unfold Selection.switchOn at hc
    simp only at hc
    split at hc
    · rw [List.append_nil] at hc
      exact Or.inl hc
    · rw [List.mem_append, List.mem_singleton] at hc
      exact hc
  have hold : ∀ c ∈ outside r p C, c ∈ (Selection.switchOn r C S p).1 := fun c hc => List.mem_append_left _ hc
  -- a skipped node outside is not on the way to what is below `p`
  have hskip : ∀ s ∈ outside r p S, ∀ x, r p x → ¬ r s x := by
    intro s hs x hpx hsx
    obtain ⟨hsS, hps⟩ := mem_outside.1 hs
    rcases hr.comparable hpx hsx with hle | hle
    · exact hps hle
    · exact hps (hin s hsS hle ▸ hr.refl s)
  refine ⟨⟨?_, antichain_outside h.skippedApart, fun s hs => ?_⟩, fun x => ?_⟩
  · have hbase := antichain_outside (p := p) h.checkedApart
    unfold Selection.switchOn
    simp only
    by_cases hex : ∃ c ∈ outside r p C, r c p
    · rw [if_pos hex, List.append_nil]
      exact hbase
    · rw [if_neg hex]
      exact antichain_concat hbase hex
  · obtain ⟨hsS, hps⟩ := mem_outside.1 hs
    obtain ⟨c, hc, hcs, hne⟩ := h.below s hsS
    exact ⟨c, hold c (mem_outside.2 ⟨hc, fun hpc => hps (hr.trans hpc hcs)⟩), hcs, hne⟩
  · constructor
    · rintro ⟨⟨c, hc, hcx⟩, hs⟩
      by_cases hpx : r p x
      · exact Or.inl hpx
      · refine Or.inr ⟨?_, fun s hsS hsx => ?_⟩
        · rcases hmem c hc with hc | rfl
          · exact ⟨c, (mem_outside.1 hc).1, hcx⟩
          · exact absurd hcx hpx
        · exact hs s (mem_outside.2 ⟨hsS, fun hps => hpx (hr.trans hps hsx)⟩) hsx
    · rintro (hpx | ⟨⟨c, hc, hcx⟩, hs⟩)
      · obtain ⟨c, hc, hcp⟩ := hcover
        exact ⟨⟨c, hc, hr.trans hcp hpx⟩, fun s hs => hskip s hs x hpx⟩
      · refine ⟨?_, fun s hsS => hs s (mem_outside.1 hsS).1⟩
        by_cases hpc : r p c
        · obtain ⟨d, hd, hdp⟩ := hcover
          exact ⟨d, hd, hr.trans hdp (hr.trans hpc hcx)⟩
        · exact ⟨c, hold c (mem_outside.2 ⟨hc, hpc⟩), hcx⟩

/-- **Switching off** a subtree: it is excluded, the rest stays. -/
theorem Canonical.switchOff (hr : Forest r rank) (h : Canonical r C S) :
    Canonical r (Selection.switchOff r C S p).1 (Selection.switchOff r C S p).2 ∧
      ∀ x, Included r (Selection.switchOff r C S p).1 (Selection.switchOff r C S p).2 x ↔ ¬ r p x ∧ Included r C S x := by
  have hmem : ∀ s ∈ (Selection.switchOff r C S p).2, s ∈ outside r p S ∨ s = p := by
    intro s hs
    unfold Selection.switchOff at hs
    simp only at hs
    split at hs
    · rw [List.mem_append, List.mem_singleton] at hs
      exact hs
    · rw [List.append_nil] at hs
      exact Or.inl hs
  -- below `p` nothing is left included
  have hgone : ∀ x, r p x → ¬ Included r (Selection.switchOff r C S p).1 (Selection.switchOff r C S p).2 x := by
    rintro x hpx ⟨⟨c, hc, hcx⟩, hs⟩
    have hcp : r c p := (hr.comparable hcx hpx).resolve_right (mem_outside.1 hc).2
    by_cases hin : ∃ s ∈ outside r p S, r s p
    · obtain ⟨s, hsS, hsp⟩ := hin
      exact hs s (List.mem_append_left _ hsS) (hr.trans hsp hpx)
    · refine hs p ?_ hpx
      unfold Selection.switchOff
      simp only
      rw [if_pos ⟨⟨c, hc, hcp⟩, hin⟩]
      simp
  refine ⟨⟨antichain_outside h.checkedApart, ?_, fun s hs => ?_⟩, fun x => ⟨fun hx => ?_, ?_⟩⟩
  · have hbase := antichain_outside (p := p) h.skippedApart
    unfold Selection.switchOff
    simp only
    split
    · rename_i hex
      exact antichain_concat hbase hex.2
    · rw [List.append_nil]
      exact hbase
  · unfold Selection.switchOff at hs
    simp only at hs
    rw [List.mem_append] at hs
    rcases hs with hs | hs
    · obtain ⟨hsS, hps⟩ := mem_outside.1 hs
      obtain ⟨c, hc, hcs, hne⟩ := h.below s hsS
      exact ⟨c, mem_outside.2 ⟨hc, fun hpc => hps (hr.trans hpc hcs)⟩, hcs, hne⟩
    · split at hs
      · rename_i hex
        obtain ⟨c, hc, hcp⟩ := hex.1
        obtain rfl := List.mem_singleton.1 hs
        exact ⟨c, hc, hcp, fun heq => (mem_outside.1 hc).2 (heq ▸ hr.refl c)⟩
      · cases hs
  · by_cases hpx : r p x
    · exact absurd hx (hgone x hpx)
    · obtain ⟨⟨c, hc, hcx⟩, hs⟩ := hx
      refine ⟨hpx, ⟨c, (mem_outside.1 hc).1, hcx⟩, fun s hsS hsx => ?_⟩
      exact hs s (List.mem_append_left _ (mem_outside.2 ⟨hsS, fun hps => hpx (hr.trans hps hsx)⟩)) hsx
  · rintro ⟨hpx, ⟨c, hc, hcx⟩, hs⟩
    refine ⟨⟨c, mem_outside.2 ⟨hc, fun hpc => hpx (hr.trans hpc hcx)⟩, hcx⟩, fun s hsS hsx => ?_⟩
    rcases hmem s hsS with hsS | rfl
    · exact hs s (mem_outside.1 hsS).1 hsx
    · exact hpx hsx

end switch

/-! ## One subtree of it -/

/-- The selection within the subtree of `p`. -/
def narrow (r : α → α → Prop) [DecidableRel r] (checked skipped : List α) (p : α) : List α × List α :=
  if ∃ s ∈ skipped, r s p then ([], [])
  else (if ∃ c ∈ checked, r c p then [p] else checked.filter fun c => decide (r p c), skipped.filter fun s => decide (r p s))

section narrow
variable {C S : List α} {p : α}

theorem narrow_of_skipped (h : ∃ s ∈ S, r s p) : narrow r C S p = ([], []) := if_pos h

theorem mem_narrow_skipped (h : ¬ ∃ s ∈ S, r s p) {s : α} : s ∈ (narrow r C S p).2 ↔ s ∈ S ∧ r p s := by
  unfold narrow
  rw [if_neg h, List.mem_filter, decide_eq_true_eq]

/-- What is checked within the subtree: `p`, or what was below it. -/
theorem mem_narrow_checked (hr : Forest r rank) (hC : Antichain r C) (h : ¬ ∃ s ∈ S, r s p) {x : α} :
    x ∈ (narrow r C S p).1 ↔ (x = p ∧ ∃ c ∈ C, r c p) ∨ (x ∈ C ∧ r p x) := by
  unfold narrow
  rw [if_neg h]
  by_cases habove : ∃ c ∈ C, r c p
  · simp only [if_pos habove, List.mem_singleton]
    refine ⟨fun hx => Or.inl ⟨hx, habove⟩, ?_⟩
    rintro (⟨hx, -⟩ | ⟨hx, hpx⟩)
    · exact hx
    · obtain ⟨c, hc, hcp⟩ := habove
      have hcx := hC c hc x hx (hr.trans hcp hpx)
      exact hr.antisymm (hcx ▸ hcp) hpx
  · simp only [if_neg habove, List.mem_filter, decide_eq_true_eq]
    exact ⟨Or.inr, fun hx => hx.resolve_left fun hx => habove hx.2⟩

/-- **Narrowing to a subtree** is intersection with it. -/
theorem Canonical.narrow (hr : Forest r rank) (h : Canonical r C S) :
    Canonical r (Selection.narrow r C S p).1 (Selection.narrow r C S p).2 ∧
      ∀ x, Included r (Selection.narrow r C S p).1 (Selection.narrow r C S p).2 x ↔ Included r C S x ∧ r p x := by
  by_cases hskip : ∃ s ∈ S, r s p
  · rw [narrow_of_skipped hskip]
    refine ⟨⟨fun a ha => absurd ha List.not_mem_nil, fun a ha => absurd ha List.not_mem_nil, fun s hs => absurd hs List.not_mem_nil⟩, fun x => ?_⟩
    obtain ⟨s, hs, hsp⟩ := hskip
    refine ⟨?_, ?_⟩
    · rintro ⟨⟨c, hc, -⟩, -⟩
      exact absurd hc List.not_mem_nil
    · rintro ⟨⟨-, hno⟩, hpx⟩
      exact absurd (hr.trans hsp hpx) (hno s hs)
  · have hchecked := fun x => mem_narrow_checked (x := x) hr h.checkedApart hskip
    have hskipped := fun s => mem_narrow_skipped (C := C) (s := s) hskip
    refine ⟨⟨fun a ha b hb hab => ?_, fun a ha b hb => ?_, fun s hs => ?_⟩, fun x => ⟨?_, ?_⟩⟩
    · rcases (hchecked a).1 ha with ⟨rfl, c, hc, hca⟩ | ⟨ha, hpa⟩
      · rcases (hchecked b).1 hb with ⟨rfl, -⟩ | ⟨hb, -⟩
        · rfl
        · have hcb := h.checkedApart c hc b hb (hr.trans hca hab)
          exact hr.antisymm hab (hcb ▸ hca)
      · rcases (hchecked b).1 hb with ⟨rfl, -⟩ | ⟨hb, -⟩
        · exact hr.antisymm hab hpa
        · exact h.checkedApart a ha b hb hab
    · exact h.skippedApart a ((hskipped a).1 ha).1 b ((hskipped b).1 hb).1
    · obtain ⟨hsS, hps⟩ := (hskipped s).1 hs
      obtain ⟨c, hc, hcs, hne⟩ := h.below s hsS
      rcases hr.comparable hcs hps with hcp | hpc
      · exact ⟨p, (hchecked p).2 (Or.inl ⟨rfl, c, hc, hcp⟩), hps, fun heq => hskip ⟨s, hsS, heq ▸ hr.refl p⟩⟩
      · exact ⟨c, (hchecked c).2 (Or.inr ⟨hc, hpc⟩), hcs, hne⟩
    · rintro ⟨⟨c, hc, hcx⟩, hs⟩
      have hbase : (∃ b ∈ C, r b x) ∧ r p x := by
        rcases (hchecked c).1 hc with ⟨rfl, b, hb, hbp⟩ | ⟨hc, hpc⟩
        · exact ⟨⟨b, hb, hr.trans hbp hcx⟩, hcx⟩
        · exact ⟨⟨c, hc, hcx⟩, hr.trans hpc hcx⟩
      refine ⟨⟨hbase.1, fun s hsS hsx => ?_⟩, hbase.2⟩
      rcases hr.comparable hsx hbase.2 with hsp | hps
      · exact hskip ⟨s, hsS, hsp⟩
      · exact hs s ((hskipped s).2 ⟨hsS, hps⟩) hsx
    · rintro ⟨⟨⟨c, hc, hcx⟩, hs⟩, hpx⟩
      refine ⟨?_, fun s hsN => hs s ((hskipped s).1 hsN).1⟩
      rcases hr.comparable hcx hpx with hcp | hpc
      · exact ⟨p, (hchecked p).2 (Or.inl ⟨rfl, c, hc, hcp⟩), hpx⟩
      · exact ⟨c, (hchecked c).2 (Or.inr ⟨hc, hpc⟩), hcx⟩

end narrow

/-! ## Shrinking maps -/

/-- **A finite set that a shrinking map covers is left alone by it.** -/
theorem fixed_of_cover {f : α → Option α} {l : List α} (hshrink : ∀ {a b}, a ∈ l → f a = some b → a ≠ b → rank b < rank a)
    (hcover : ∀ c ∈ l, ∃ a ∈ l, f a = some c) : ∀ c ∈ l, f c = some c := by
  -- what moves onto `c` is larger than `c`, and nothing in the list is larger than all of it
  have hbound : ∀ n, ∀ c ∈ l, (l.map rank).max?.getD 0 - rank c < n → f c = some c := by
    intro n
    induction n with
    | zero => exact fun c _ h => absurd h (Nat.not_lt_zero _)
    | succ n ih =>
      intro c hc hlt
      obtain ⟨a, ha, hac⟩ := hcover c hc
      by_cases heq : a = c
      · exact heq ▸ hac
      · have hrank := hshrink ha hac heq
        have hle : rank a ≤ (l.map rank).max?.getD 0 := List.le_max?_getD_of_mem (List.mem_map_of_mem ha)
        have hfix := ih a ha (by omega)
        rw [hac] at hfix
        exact absurd (Option.some.inj hfix).symm heq
  exact fun c hc => hbound _ c hc (Nat.lt_succ_self _)

end Selection
end Lib
