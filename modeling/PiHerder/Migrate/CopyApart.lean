import PiHerder.Migrate.PushSafety

/-!
# Do two copies of a Move meet?

Named volumes are renamed by `remap_named_volume`, binds are sent to the shown destination or to the
suggested one. Nothing compares two of these destinations: they are apart when the names, the last
components and the chosen destinations of the dataset are.
-/
namespace PiHerder.Migrate
open Lib Lib.Str

/-! ## Volume names -/

/-- The separators behind a project's name in a volume's. -/
def seps : List Char := ['_', '-']

/-- The volume's name begins with the project's. -/
def CarriesName (project vol : Str) : Prop := ∃ sep ∈ seps, startsWith (project ++ [sep]) vol = true

/-- Renaming the first volume after the destination project gives it the name that the second one keeps. -/
def TakesName (project destProject vol other : Str) : Prop :=
  ∃ sep ∈ seps, ∃ rest, vol = project ++ sep :: rest ∧ other = destProject ++ sep :: rest ∧ ¬ CarriesName project other

theorem startsWith_sep {p v : Str} {sep : Char} : startsWith (p ++ [sep]) v = true ↔ ∃ rest, v = p ++ sep :: rest := by
  constructor
  · intro h
    obtain ⟨rest, rfl⟩ := List.isPrefixOf_iff_prefix.1 h
    exact ⟨rest, by simp⟩
  · rintro ⟨rest, rfl⟩
    exact List.isPrefixOf_iff_prefix.2 ⟨rest, by simp⟩

theorem remapNamedVolume_same (v p : Str) : remapNamedVolume v p p = strip v := by
  unfold remapNamedVolume
  simp

section Volumes
variable {p q : Str} (hp : strip p = p ∧ p ≠ []) (hq : strip q = q ∧ q ≠ [])
include hp

theorem remapNamedVolume_kept {v : Str} (hv : ¬ CarriesName p (strip v)) : remapNamedVolume v p q = strip v := by
  have hsep : ∀ sep ∈ seps, ¬ startsWith (p ++ [sep]) (strip v) = true := fun sep hsep h => hv ⟨sep, hsep, h⟩
  unfold remapNamedVolume
  simp only
  rw [hp.1, if_neg (hsep '_' (by simp [seps])), if_neg (hsep '-' (by simp [seps])), ite_self]

include hq

theorem remapNamedVolume_carried (hpq : p ≠ q) {v rest : Str} {sep : Char} (hsep : sep ∈ seps) (hv : strip v = p ++ sep :: rest) :
    remapNamedVolume v p q = q ++ sep :: rest := by
  have hne : strip v ≠ [] := by simp [hv]
  have hnot : ¬ (strip v = [] ∨ strip p = [] ∨ strip q = [] ∨ strip p = strip q) := by
    simp [hne, hp.1, hp.2, hq.1, hq.2, hpq]
  have hdrop : (strip v).drop (p.length + 1) = rest := by
    rw [hv, show p ++ sep :: rest = (p ++ [sep]) ++ rest by simp, List.drop_left' (by simp)]
  unfold remapNamedVolume
  simp only
  rw [if_neg hnot, hp.1, hq.1, hdrop]
  simp only [seps, List.mem_cons, List.not_mem_nil, or_false] at hsep
  rcases hsep with rfl | rfl
  · rw [if_pos (startsWith_sep.2 ⟨rest, hv⟩)]
  · have hother : ¬ startsWith (p ++ ['_']) (strip v) = true := by
      intro h
      obtain ⟨rest', hrest'⟩ := startsWith_sep.1 h
      rw [hv, List.append_cancel_left_eq] at hrest'
      exact absurd (List.cons.inj hrest').1 (by decide)
    rw [if_neg hother, if_pos (startsWith_sep.2 ⟨rest, hv⟩)]

/-- **When two volumes get one name.** -/
theorem remapNamedVolume_eq_iff (hpq : p ≠ q) (v v' : Str) :
    remapNamedVolume v p q = remapNamedVolume v' p q ↔
      strip v = strip v' ∨ TakesName p q (strip v) (strip v') ∨ TakesName p q (strip v') (strip v) := by
  have hcarried : ∀ u, CarriesName p (strip u) → ∃ sep ∈ seps, ∃ rest, strip u = p ++ sep :: rest ∧
      remapNamedVolume u p q = q ++ sep :: rest := by
    rintro u ⟨sep, hsep, hu⟩
    obtain ⟨rest, hrest⟩ := startsWith_sep.1 hu
    exact ⟨sep, hsep, rest, hrest, remapNamedVolume_carried hp hq hpq hsep hrest⟩
  have htakes : ∀ u w, TakesName p q (strip u) (strip w) → remapNamedVolume u p q = remapNamedVolume w p q := by
    rintro u w ⟨sep, hsep, rest, hu, hw, hkept⟩
    rw [remapNamedVolume_carried hp hq hpq hsep hu, remapNamedVolume_kept hp hkept, hw]
  have hcross : ∀ u w, CarriesName p (strip u) → ¬ CarriesName p (strip w) →
      remapNamedVolume u p q = remapNamedVolume w p q → TakesName p q (strip u) (strip w) := by
    intro u w hu hw heq
    obtain ⟨sep, hsep, rest, hrest, hremap⟩ := hcarried u hu
    rw [hremap, remapNamedVolume_kept hp hw] at heq
    exact ⟨sep, hsep, rest, hrest, heq.symm, hw⟩
  constructor
  · intro heq
    by_cases hv : CarriesName p (strip v) <;> by_cases hv' : CarriesName p (strip v')
    · obtain ⟨sep, -, rest, hrest, hremap⟩ := hcarried v hv
      obtain ⟨sep', -, rest', hrest', hremap'⟩ := hcarried v' hv'
      rw [hremap, hremap', List.append_cancel_left_eq] at heq
      rw [hrest, hrest', heq]
      exact Or.inl rfl
    · exact Or.inr (Or.inl (hcross v v' hv hv' heq))
    · exact Or.inr (Or.inr (hcross v' v hv' hv heq.symm))
    · rw [remapNamedVolume_kept hp hv, remapNamedVolume_kept hp hv'] at heq
      exact Or.inl heq
  · rintro (heq | h | h)
    · unfold remapNamedVolume
      rw [heq]
    · exact htakes v v' h
    · exact (htakes v' v h).symm

end Volumes

/-! ## Places of shown and of unseen binds -/

/-- A bind that the loop copies to the destination the preflight has shown. -/
structure Reviewed (m : MoveInput) (name x : Str) : Prop where
  listed : ∃ it ∈ (m.preflight name).dataset.items, it.kind = .bindAbsolute ∧ it.source = x
  shown : x ∈ (m.preflight name).dataset.outsideJail
  copies : CopiesBind (m.copyInput name) x

/-- The operator has chosen no destination for the bind, and a second look at its path does not take it for
a socket or device. -/
structure ByDefault (m : MoveInput) (name x : Str) : Prop where
  noDest : ∀ o, overrideOf (m.preflightInput name).overrides x = some o → o.dest = []
  notLocal : isHostLocalBind (normpath x) = false

/-- The folders below the docker base of a destination shown by default. The blanks at its end are cut. -/
def shownFolders (m : MoveInput) (name x : Str) : List Str :=
  folders (rstripWhere isSpace (tailText m.source.dockerBase m.dest.dockerBase (m.preflight name).destProject x))

/-- The place of a bind the preflight has not shown: a socket or device keeps its path, any other bind lands
at its `destTail` below the docker base. -/
def unseenPlace (c : CopyInput) (x : Str) : Bool × List Str :=
  if isHostLocalBind (normpath x) = true then (rooted x, normComps x)
  else (rooted (strip c.dstBase), normComps (strip c.dstBase) ++ destTail c.srcBase c.dstBase c.destName x)

/-- The names and the places that the Move gives out are apart:

* two binds that nobody has seen do not have one basename (when folded into the project folder), one
  normalized path, or a path below the docker base that is the other's folder in the project;
* none of them lands where a shown one does;
* two binds shown by default do not have one basename;
* a chosen destination is not that of another bind. -/
structure BindsApart (m : MoveInput) (name : Str) : Prop where
  unseen : ∀ x x', Unreviewed m name x → Unreviewed m name x' → x ≠ x' →
    unseenPlace (m.copyInput name) x ≠ unseenPlace (m.copyInput name) x'
  crossed : ∀ x x', Reviewed m name x → Unreviewed m name x' →
    (rooted (m.shownDest name x), normComps (m.shownDest name x)) ≠ unseenPlace (m.copyInput name) x'
  byDefault : ∀ x x', Reviewed m name x → Reviewed m name x' → x ≠ x' → ByDefault m name x → ByDefault m name x' →
    shownFolders m name x ≠ shownFolders m name x'
  chosen : ∀ x x', Reviewed m name x → Reviewed m name x' → x ≠ x' → ¬ (ByDefault m name x ∧ ByDefault m name x') →
    ¬ SamePlace (m.shownDest name x) (m.shownDest name x')

/-- A named volume of the dataset. -/
def ListedVolume (m : MoveInput) (name v : Str) : Prop :=
  v ≠ [] ∧ ∃ it ∈ (m.preflight name).dataset.items, it.kind = .named ∧ it.volumeName = v

/-- No two volumes of the dataset are told apart by blanks around them only, and no volume that is renamed
after the destination project gets a name that another one has and keeps. -/
def VolumesApart (m : MoveInput) (name : Str) : Prop :=
  ∀ v v', ListedVolume m name v → ListedVolume m name v' → v ≠ v' → strip v ≠ strip v' ∧
    (name ≠ (m.preflight name).destProject → ¬ TakesName name (m.preflight name).destProject (strip v) (strip v'))

section Places
variable {m : MoveInput} {name : Str}

theorem suggestDestBind_unseenPlace {c : CopyInput} (hq : ValidProject c.destName) {x : Str} (hx : Absolute x) :
    (rooted (suggestDestBind x c.srcBase c.dstBase c.destName), normComps (suggestDestBind x c.srcBase c.dstBase c.destName)) =
      unseenPlace c x := by
  unfold unseenPlace
  cases hlocal : isHostLocalBind (normpath x) with
  | true =>
    have hsuggest : suggestDestBind x c.srcBase c.dstBase c.destName = normpath x := by
      unfold suggestDestBind
      simp only [hx.stripped, hlocal, if_true]
    have hplace := normpath_samePlace x
    rw [hsuggest, if_pos rfl, hplace.1, hplace.2]
  | false =>
    obtain ⟨hroot, hcomps⟩ := suggestDestBind_place c.srcBase c.dstBase hq hx hlocal
    rw [if_neg (by simp), hroot, hcomps]

/-- The text of a destination shown by default. -/
theorem shownDest_byDefault (hq : ValidProject (m.preflight name).destProject) {x : Str} (hx : Absolute x)
    (h : ByDefault m name x) :
    m.shownDest name x = lstripWhere isSpace (rstrip '/' (normpath (strip m.dest.dockerBase))) ++
      '/' :: rstripWhere isSpace (tailText m.source.dockerBase m.dest.dockerBase (m.preflight name).destProject x) := by
  obtain ⟨htext, -, -⟩ := suggestDestBind_eq m.source.dockerBase m.dest.dockerBase hq hx h.notLocal
  have hshown : m.shownDest name x =
      strip (suggestDestBind x m.source.dockerBase m.dest.dockerBase (m.preflight name).destProject) := by
    unfold MoveInput.shownDest PreflightInput.reviewedDest
    cases ho : overrideOf (m.preflightInput name).overrides x with
    | none => rfl
    | some o =>
      simp only
      rw [h.noDest o ho]
      rfl
  rw [hshown, htext, strip_append (by decide)]

theorem bindMap_reviewed (hgate : m.gate name = .ok ()) {x : Str} (h : Reviewed m name x) :
    (m.copyInput name).destOf x = m.shownDest name x ∧
      validateDestBindPath (m.shownDest name x) m.dest.dockerBase = none := by
  obtain ⟨it, hit, -, rfl⟩ := h.listed
  obtain ⟨hstrip, hne, -⟩ := item_facts hit
  have hmap := bindMap_shown (destOf_shown hgate ⟨hstrip, hne⟩ h.shown h.copies)
  rw [hmap.2.1] at *
  exact ⟨rfl, hmap.2.2⟩

/-- **Two destinations shown by default** are one place iff their folders below the docker base are. -/
theorem shownDest_samePlace_iff (hname : composeProjectName m.project = .ok name) (hgate : m.gate name = .ok ()) {x x' : Str}
    (hx : Reviewed m name x) (hx' : Reviewed m name x') (hd : ByDefault m name x) (hd' : ByDefault m name x') :
    SamePlace (m.shownDest name x) (m.shownDest name x') ↔ shownFolders m name x = shownFolders m name x' := by
  have hq := destName_valid hname
  have hdown : ∀ {y}, Reviewed m name y → ByDefault m name y →
      lit ".." ∉ split '/' (rstripWhere isSpace
        (tailText m.source.dockerBase m.dest.dockerBase (m.preflight name).destProject y)) ∧
      m.shownDest name y = lstripWhere isSpace (rstrip '/' (normpath (strip m.dest.dockerBase))) ++
        '/' :: rstripWhere isSpace (tailText m.source.dockerBase m.dest.dockerBase (m.preflight name).destProject y) := by
    intro y hy hyd
    obtain ⟨it, hit, hkind, rfl⟩ := hy.listed
    have htext := shownDest_byDefault hq ((item_facts hit).2.2.2 hkind) hyd
    refine ⟨fun hup => ?_, htext⟩
    have hvalid := (validateDestBindPath_eq_none (bindMap_reviewed hgate hy).2).2.2
    have hstrip : strip (m.shownDest name it.source) = m.shownDest name it.source := strip_strip _
    rw [hstrip, htext, split_append_cons] at hvalid
    exact hvalid (List.mem_append_right _ hup)
  obtain ⟨hup, htext⟩ := hdown hx hd
  obtain ⟨hup', htext'⟩ := hdown hx' hd'
  rw [htext, htext']
  exact samePlace_below hup hup'

end Places

/-! ## The copies of a Move -/

/-- The plan copies the bind `x` to `d`, with the project tree or by a push of its own. -/
def CopiesTo (plan : List CopyStep) (x d : Str) : Prop := .fold x d ∈ plan ∨ .bind x d ∈ plan

/-- No two sources of the plan are copied to one destination. -/
structure Apart (plan : List CopyStep) : Prop where
  volumes : ∀ v v' d, .volume v d ∈ plan → .volume v' d ∈ plan → v = v'
  binds : ∀ x x' d d', CopiesTo plan x d → CopiesTo plan x' d' → x ≠ x' → ¬ SamePlace d d'

section Copies
variable {m : MoveInput} {name : Str}

/-- The binds that are copied: the reviewed and the unseen ones, each to `destOf`. -/
theorem copiesTo_iff (hgate : m.gate name = .ok ()) {x d : Str} :
    CopiesTo (m.plan name) x d ↔ (Reviewed m name x ∨ Unreviewed m name x) ∧ d = (m.copyInput name).destOf x := by
  constructor
  · intro h
    have hstep : ∃ step ∈ m.plan name, (∀ v e, step ≠ .volume v e) ∧ (step = .fold x d ∨ step = .bind x d) := by
      rcases h with h | h
      · exact ⟨_, h, by simp, Or.inl rfl⟩
      · exact ⟨_, h, by simp, Or.inr rfl⟩
    obtain ⟨step, hmem, hne, hstep⟩ := hstep
    obtain ⟨it, hit, hkind, hbind⟩ := (bind_mem_copyPlan hne).1 hmem
    obtain ⟨hstrip, -, ht, -⟩ := item_facts hit
    rw [hstrip] at hbind
    obtain ⟨hk, hcopies, heq⟩ := bindStep_some hbind ht hkind
    have hsplit : x = it.source ∧ d = (m.copyInput name).destOf it.source := by
      split at heq <;> rcases hstep with rfl | rfl <;> cases heq <;> exact ⟨rfl, rfl⟩
    obtain ⟨rfl, rfl⟩ := hsplit
    refine ⟨?_, rfl⟩
    by_cases hshown : it.source ∈ (m.preflight name).dataset.outsideJail
    · exact Or.inl ⟨⟨it, hit, hk, rfl⟩, hshown, hcopies⟩
    · exact Or.inr ⟨⟨it, hit, hk, rfl⟩, hshown, hcopies⟩
  · rintro ⟨h, rfl⟩
    have hlisted : (∃ it ∈ (m.preflight name).dataset.items, it.kind = .bindAbsolute ∧ it.source = x) ∧
        CopiesBind (m.copyInput name) x ∧ (m.copyInput name).destOf x ≠ [] := by
      rcases h with h | h
      · refine ⟨h.listed, h.copies, ?_⟩
        obtain ⟨hdest, hvalid⟩ := bindMap_reviewed hgate h
        rw [hdest]
        intro hnil
        rw [hnil] at hvalid
        exact (validateDestBindPath_eq_none hvalid).1 (by decide)
      · refine ⟨h.listed, h.copies, ?_⟩
        rw [destOf_unshown h.unshown]
        exact suggestDestBind_ne_nil _ _ _ _
    obtain ⟨⟨it, hit, hkind, rfl⟩, hcopies, hnil⟩ := hlisted
    obtain ⟨hstrip, -, ht, -⟩ := item_facts hit
    have hstep := bindStep_eq hcopies ht hnil
    have hplan : ∀ step, (∀ v e, step ≠ .volume v e) →
        (m.copyInput name).bindStep .bindAbsolute it.source = some step → step ∈ m.plan name := by
      intro step hne h
      exact (bind_mem_copyPlan hne).2 ⟨it, hit, Or.inl hkind, by rw [hkind, hstrip, h]⟩
    by_cases hin : inTree (m.copyInput name).dstProj ((m.copyInput name).destOf it.source) = true
    · rw [if_pos hin] at hstep
      exact Or.inl (hplan _ (by simp) hstep)
    · rw [if_neg hin] at hstep
      exact Or.inr (hplan _ (by simp) hstep)

/-- The place of a copied bind. -/
theorem destOf_unseenPlace (hname : composeProjectName m.project = .ok name) {x : Str} (h : Unreviewed m name x) :
    (rooted ((m.copyInput name).destOf x), normComps ((m.copyInput name).destOf x)) = unseenPlace (m.copyInput name) x := by
  obtain ⟨it, hit, hkind, rfl⟩ := h.listed
  rw [destOf_unshown h.unshown]
  exact suggestDestBind_unseenPlace (destName_valid hname) ((item_facts hit).2.2.2 hkind)

theorem samePlace_iff {p q : Str} : SamePlace p q ↔ (rooted p, normComps p) = (rooted q, normComps q) := by
  rw [Prod.mk.injEq]
  rfl

theorem binds_apart_iff (hname : composeProjectName m.project = .ok name) (hgate : m.gate name = .ok ()) :
    (∀ x x' d d', CopiesTo (m.plan name) x d → CopiesTo (m.plan name) x' d' → x ≠ x' → ¬ SamePlace d d') ↔
      BindsApart m name := by
  constructor
  · intro h
    have hpair : ∀ x x', Reviewed m name x ∨ Unreviewed m name x → Reviewed m name x' ∨ Unreviewed m name x' → x ≠ x' →
        ¬ SamePlace ((m.copyInput name).destOf x) ((m.copyInput name).destOf x') := fun x x' hx hx' hne =>
      h x x' _ _ ((copiesTo_iff hgate).2 ⟨hx, rfl⟩) ((copiesTo_iff hgate).2 ⟨hx', rfl⟩) hne
    refine ⟨fun x x' hx hx' hne heq => ?_, fun x x' hx hx' heq => ?_, fun x x' hx hx' hne hd hd' heq => ?_,
      fun x x' hx hx' hne _ heq => ?_⟩
    · refine hpair x x' (Or.inr hx) (Or.inr hx') hne (samePlace_iff.2 ?_)
      rw [destOf_unseenPlace hname hx, destOf_unseenPlace hname hx', heq]
    · have hne : x ≠ x' := by
        rintro rfl
        exact hx'.unshown hx.shown
      refine hpair x x' (Or.inl hx) (Or.inr hx') hne (samePlace_iff.2 ?_)
      rw [destOf_unseenPlace hname hx', (bindMap_reviewed hgate hx).1, heq]
    · refine hpair x x' (Or.inl hx) (Or.inl hx') hne ?_
      rw [(bindMap_reviewed hgate hx).1, (bindMap_reviewed hgate hx').1]
      exact (shownDest_samePlace_iff hname hgate hx hx' hd hd').2 heq
    · refine hpair x x' (Or.inl hx) (Or.inl hx') hne ?_
      rw [(bindMap_reviewed hgate hx).1, (bindMap_reviewed hgate hx').1]
      exact heq
  · intro h x x' d d' hx hx' hne hsame
    obtain ⟨hcopied, rfl⟩ := (copiesTo_iff hgate).1 hx
    obtain ⟨hcopied', rfl⟩ := (copiesTo_iff hgate).1 hx'
    rcases hcopied with hr | hu <;> rcases hcopied' with hr' | hu'
    · rw [(bindMap_reviewed hgate hr).1, (bindMap_reviewed hgate hr').1] at hsame
      by_cases hd : ByDefault m name x ∧ ByDefault m name x'
      · exact h.byDefault x x' hr hr' hne hd.1 hd.2 ((shownDest_samePlace_iff hname hgate hr hr' hd.1 hd.2).1 hsame)
      · exact h.chosen x x' hr hr' hne hd hsame
    · rw [samePlace_iff, destOf_unseenPlace hname hu', (bindMap_reviewed hgate hr).1] at hsame
      exact h.crossed x x' hr hu' hsame
    · rw [samePlace_iff, destOf_unseenPlace hname hu, (bindMap_reviewed hgate hr').1] at hsame
      exact h.crossed x' x hr' hu hsame.symm
    · rw [samePlace_iff, destOf_unseenPlace hname hu, destOf_unseenPlace hname hu'] at hsame
      exact h.unseen x x' hu hu' hne hsame

theorem volumes_apart_iff (hname : composeProjectName m.project = .ok name) :
    (∀ v v' d, .volume v d ∈ m.plan name → .volume v' d ∈ m.plan name → v = v') ↔ VolumesApart m name := by
  have hp := (composeProjectName_valid hname).1
  have hq := destName_valid hname
  have hplan : ∀ v d, .volume v d ∈ m.plan name ↔
      ListedVolume m name v ∧ d = remapNamedVolume v name (m.preflight name).destProject := by
    intro v d
    unfold MoveInput.plan ListedVolume
    rw [volume_mem_copyPlan]
    simp only [List.not_mem_nil, not_false_eq_true, true_and]
    rfl
  have hkey : ∀ v v', remapNamedVolume v name (m.preflight name).destProject =
        remapNamedVolume v' name (m.preflight name).destProject ↔
      strip v = strip v' ∨ (name ≠ (m.preflight name).destProject ∧
        (TakesName name (m.preflight name).destProject (strip v) (strip v') ∨
          TakesName name (m.preflight name).destProject (strip v') (strip v))) := by
    intro v v'
    by_cases hpq : name = (m.preflight name).destProject
    · rw [← hpq, remapNamedVolume_same, remapNamedVolume_same]
      simp
    · rw [remapNamedVolume_eq_iff ⟨hp.stripped, hp.nonempty⟩ ⟨hq.stripped, hq.nonempty⟩ hpq]
      simp [hpq]
  constructor
  · intro h v v' hv hv' hne
    have hdiff : remapNamedVolume v name (m.preflight name).destProject ≠
        remapNamedVolume v' name (m.preflight name).destProject := fun heq =>
      hne (h v v' _ ((hplan v _).2 ⟨hv, rfl⟩) ((hplan v' _).2 ⟨hv', heq⟩))
    rw [Ne, hkey] at hdiff
    exact ⟨fun hs => hdiff (Or.inl hs), fun hpq ht => hdiff (Or.inr ⟨hpq, Or.inl ht⟩)⟩
  · intro h v v' d hv hv'
    obtain ⟨hl, rfl⟩ := (hplan v _).1 hv
    obtain ⟨hl', heq⟩ := (hplan v' _).1 hv'
    by_contra hne
    rcases (hkey v v').1 heq with hs | ⟨hpq, ht | ht⟩
    · exact (h v v' hl hl' hne).1 hs
    · exact (h v v' hl hl' hne).2 hpq ht
    · exact (h v' v hl' hl (Ne.symm hne)).2 hpq ht

end Copies

/-! ### One Move whose sources stay apart and one that merges two -/

/-- A project with two binds of one basename. -/
def twoBinds : MoveInput :=
  { oneBind [] with
    containers := some [{ mountsDetail := [{ source := lit "/mnt/a/data", mtype := lit "bind" },
      { source := lit "/mnt/b/data", mtype := lit "bind" }] }] }

end PiHerder.Migrate
