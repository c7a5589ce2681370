import PiHerder.Migrate.Calls
import PiHerder.Migrate.CopyTargets

/-!
# What a Move overwrites on the destination

A push with `--delete` replaces what is at its destination. The project tree and the binds the preflight
has shown go where the operator agreed; a bind in the source's docker base is not shown, and goes where
`suggest_dest_bind` puts it.
-/
namespace PiHerder.Migrate
open Lib Lib.Str

/-! ## What the bind review decides -/

/-- What the review has recorded for the paths it has seen. -/
structure BindReview.Ok (i : PreflightInput) (destName : Str) (seen : List Str) (s : BindReview) : Prop where
  shown : ∀ x d, s.bindMap.get? x = some d →
    x ∈ seen ∧ d = i.reviewedDest destName x ∧ validateDestBindPath d i.dstBase = none
  decided : s.blocks = [] → ∀ x ∈ seen, isHostLocalBind x = false → x ∈ s.skipBinds ∨ ∃ d, s.bindMap.get? x = some d

theorem BindReview.bind_ok {i : PreflightInput} {destName : Str} {seen : List Str} {s : BindReview}
    (h : s.Ok i destName seen) (path : Str) : (s.bind i destName path).Ok i destName (seen ++ [path]) := by
  have hseen : ∀ x, x ∈ seen ++ [path] ↔ x ∈ seen ∨ x = path := fun x => by simp
  have hshown : ∀ x d, s.bindMap.get? x = some d →
      x ∈ seen ++ [path] ∧ d = i.reviewedDest destName x ∧ validateDestBindPath d i.dstBase = none :=
    fun x d hx => ⟨(hseen x).2 (Or.inl (h.shown x d hx).1), (h.shown x d hx).2⟩
  unfold BindReview.bind
  split
  · rename_i hlocal
    refine ⟨hshown, fun hb x hx hx' => ?_⟩
    rcases (hseen x).1 hx with hx | rfl
    · exact (h.decided hb x hx hx').imp_left (List.mem_append_left _)
    · rw [hx'] at hlocal
      cases hlocal
  · split
    · refine ⟨hshown, fun hb x hx hx' => ?_⟩
      rcases (hseen x).1 hx with hx | rfl
      · exact (h.decided hb x hx hx').imp_left (List.mem_append_left _)
      · exact Or.inl (by simp)
    · split
      · refine ⟨hshown, fun hb => ?_⟩
        simp at hb
      · rename_i hvalid
        refine ⟨fun x d hx => ?_, fun hb x hx hx' => ?_⟩
        · rw [Dict.get?_set] at hx
          split at hx
          · rename_i hxp
            cases hx
            exact ⟨(hseen x).2 (Or.inr hxp), by rw [hxp], hvalid⟩
          · exact hshown x d hx
        · rw [Dict.get?_set]
          by_cases hxp : x = path
          · exact Or.inr ⟨_, if_pos hxp⟩
          · rw [if_neg hxp]
            exact h.decided hb x (((hseen x).1 hx).resolve_right hxp) hx'

theorem bindReview_ok (i : PreflightInput) (destName : Str) (paths : List Str) :
    (paths.foldl (BindReview.bind i destName) {}).Ok i destName paths := by
  have hrun : ∀ (rest seen : List Str) (s : BindReview), s.Ok i destName seen →
      (rest.foldl (BindReview.bind i destName) s).Ok i destName (seen ++ rest) := by
    intro rest
    induction rest with
    | nil => intro seen s hs; simpa using hs
    | cons path rest ih =>
      intro seen s hs
      have := ih _ _ (BindReview.bind_ok hs path)
      simpa using this
  have hinit : BindReview.Ok i destName [] {} := ⟨fun x d h => (by cases h), fun _ x hx => (by cases hx)⟩
  exact hrun paths [] {} hinit

/-- What a destination that passes the review is. -/
theorem validateDestBindPath_eq_none {path destBase : Str} (h : validateDestBindPath path destBase = none) :
    strip path ≠ [] ∧ startsWith (lit "/") (strip path) = true ∧ lit ".." ∉ split '/' (strip path) := by
  unfold validateDestBindPath at h
  simp only at h
  by_cases hnil : strip path = []
  · rw [if_pos hnil] at h
    cases h
  · rw [if_neg hnil] at h
    by_cases hbad : ¬ startsWith (lit "/") (strip path) = true ∨ lit ".." ∈ split '/' (strip path) ∨ '\x00' ∈ strip path
    · rw [if_pos hbad] at h
      cases h
    · simp only [not_or, not_not] at hbad
      exact ⟨hnil, hbad.1, hbad.2.1⟩

/-! ## Binds on their way to the destination -/

section Binds
variable {m : MoveInput} {name : Str}

theorem gate_ok (hgate : m.gate name = .ok ()) : (m.preflight name).blocks = [] := by
  unfold MoveInput.gate at hgate
  simp only at hgate
  split at hgate
  · cases hgate
  · rename_i hok
    simpa [Preflight.ok] using hok

/-- The destination the preflight shows for a bind. -/
def MoveInput.shownDest (m : MoveInput) (name x : Str) : Str :=
  (m.preflightInput name).reviewedDest (m.preflight name).destProject x

theorem bindMap_shown {x d : Str} (h : (m.preflight name).bindMap.get? x = some d) :
    x ∈ (m.preflight name).dataset.outsideJail ∧ d = m.shownDest name x ∧
      validateDestBindPath d m.dest.dockerBase = none := (bindReview_ok _ _ _).shown x d h

theorem bindMap_ne_nil {x d : Str} (h : (m.preflight name).bindMap.get? x = some d) : d ≠ [] := by
  rintro rfl
  exact (validateDestBindPath_eq_none (bindMap_shown h).2.2).1 (by decide)

theorem outsideJail_decided (hgate : m.gate name = .ok ()) {x : Str} (hx : x ∈ (m.preflight name).dataset.outsideJail)
    (hlocal : isHostLocalBind x = false) :
    x ∈ (m.preflight name).skipBinds ∨ ∃ d, (m.preflight name).bindMap.get? x = some d := by
  refine (bindReview_ok _ _ _).decided ?_ x hx hlocal
  have hblocks := gate_ok hgate
  unfold MoveInput.preflight runPreflight at hblocks
  simp only [List.append_eq_nil_iff] at hblocks
  exact hblocks.2

/-- An item of the dataset has the source of a mount, stripped and whole. -/
theorem item_facts {it : DatasetItem} (hit : it ∈ (m.preflight name).dataset.items) :
    strip it.source = it.source ∧ it.source ≠ [] ∧ isTruncatedHostPath it.source = false ∧
      (it.kind = .bindAbsolute → Absolute it.source) := by
  obtain ⟨containers, -, mt, hmt, ht, rfl⟩ := mem_dataset_items hit
  have hfresh := mem_freshMounts hmt
  have hstrip := projectMounts_stripped hfresh.1
  rw [item_source]
  refine ⟨hstrip, hfresh.2.1, ht, fun hkind => ?_⟩
  have hclass : classifyVolumeSource mt.src = .bindAbsolute := by
    unfold Mount.item bindItemKind at hkind
    split at hkind
    · cases hkind
    · simp only at hkind
      split at hkind
      · cases hkind
      · exact hkind
  unfold classifyVolumeSource at hclass
  simp only [hstrip] at hclass
  rw [if_neg hfresh.2.1] at hclass
  by_cases habs : startsWith (lit "/") mt.src = true ∧ ¬ startsWith (lit "//") mt.src = true
  · exact ⟨hstrip, habs.1, by simpa using habs.2⟩
  · rw [if_neg habs] at hclass
    grind

theorem destName_valid (hname : composeProjectName m.project = .ok name) : ValidProject (m.preflight name).destProject := by
  have hvalid := (composeProjectName_valid hname).1
  show ValidProject (normalizeDestProject name (some m.destProject)).1
  unfold normalizeDestProject
  simp only
  split
  · exact hvalid
  · split
    · rename_i d hd
      exact (composeProjectName_valid hd).1
    · exact hvalid

/-- What the loop asks of a bind before it copies it. -/
structure CopiesBind (c : CopyInput) (x : Str) : Prop where
  notProject : inTree c.srcProj x = false
  copied : c.leaves .bindAbsolute x = false
  data : c.kindOf x ≠ .special

/-- A bind that the loop copies goes where `destOf` says: into the staged tree, or by a push of its own. -/
theorem bindStep_eq {c : CopyInput} {x : Str} (h : CopiesBind c x) (ht : isTruncatedHostPath x = false)
    (hd : c.destOf x ≠ []) :
    c.bindStep .bindAbsolute x =
      some (if inTree c.dstProj (c.destOf x) then .fold x (c.destOf x) else .bind x (c.destOf x)) := by
  unfold CopyInput.bindStep
  simp only [ht, h.notProject, h.copied, hd, h.data, Bool.false_eq_true, if_false]
  split <;> rfl

theorem bindStep_some {c : CopyInput} {kind : ItemKind} {x : Str} {step : CopyStep} (h : c.bindStep kind x = some step)
    (ht : isTruncatedHostPath x = false) (hkind : kind = .bindAbsolute ∨ kind = .bindHostLocal) :
    kind = .bindAbsolute ∧ CopiesBind c x ∧
      step = if inTree c.dstProj (c.destOf x) then .fold x (c.destOf x) else .bind x (c.destOf x) := by
  unfold CopyInput.bindStep at h
  rw [if_neg (by simp [ht])] at h
  by_cases hproj : inTree c.srcProj x = true
  · rw [if_pos hproj] at h
    cases h
  rw [if_neg hproj] at h
  by_cases hleaves : c.leaves kind x = true
  · rw [if_pos hleaves] at h
    cases h
  rw [if_neg hleaves] at h
  have hk : kind = .bindAbsolute := by
    rcases hkind with hk | hk
    · exact hk
    · exact absurd (by simp [CopyInput.leaves, hk]) hleaves
  subst hk
  by_cases hnil : c.destOf x = []
  · rw [if_pos hnil] at h
    cases h
  rw [if_neg hnil] at h
  by_cases hspecial : c.kindOf x = .special
  · rw [if_pos hspecial] at h
    cases h
  rw [if_neg hspecial] at h
  refine ⟨rfl, ⟨by simpa using hproj, by simpa using hleaves, hspecial⟩, ?_⟩
  by_cases hin : inTree c.dstProj (c.destOf x) = true
  · rw [if_pos hin] at h ⊢
    exact (Option.some.inj h).symm
  · rw [if_neg hin] at h ⊢
    exact (Option.some.inj h).symm

end Binds

/-! ## Binds the preflight has not shown -/

/-- A bind that the loop copies although the preflight has not shown it: one in the source's docker base. -/
structure Unreviewed (m : MoveInput) (name x : Str) : Prop where
  listed : ∃ it ∈ (m.preflight name).dataset.items, it.kind = .bindAbsolute ∧ it.source = x
  unshown : x ∉ (m.preflight name).dataset.outsideJail
  copies : CopiesBind (m.copyInput name) x

/-- Does the bind land in the destination's project folder? A socket or device keeps its path; any other
bind lands at its `destTail` below the docker base. -/
def LandsInProject (c : CopyInput) (x : Str) : Prop :=
  if isHostLocalBind (normpath x) = true then Inside c.dstProj x
  else rooted (strip c.dstBase) = rooted c.dstProj ∧
    normComps c.dstProj <+: normComps (strip c.dstBase) ++ destTail c.srcBase c.dstBase c.destName x

theorem dstProj_ne_nil (c : CopyInput) : c.dstProj ≠ [] := by simp [CopyInput.dstProj]

theorem normComps_dstProj {c : CopyInput} (hq : ValidProject c.destName) (hbase : c.dstBase ≠ []) :
    normComps c.dstProj = normComps c.dstBase ++ folderComps c.destName := by
  unfold CopyInput.dstProj
  rw [normComps_append hbase, split_of_notMem hq.noSlash, List.foldl_cons, List.foldl_nil, foldl_folder hq,
    List.reverse_append, List.reverse_reverse, List.reverse_reverse]

/-- A bind folded into the project folder lands there, when the docker base is not the root and has no
blanks around it. -/
theorem landsInProject_of_folded {c : CopyInput} (hq : ValidProject c.destName) (hbase : c.dstBase ≠ [])
    (htrim : strip c.dstBase = c.dstBase) {x : Str} (hlocal : isHostLocalBind (normpath x) = false)
    (hfold : ¬ Relocates c.srcBase c.dstBase x) : LandsInProject c x := by
  unfold LandsInProject destTail
  rw [if_neg (by simp [hlocal]), if_neg hfold, htrim, normComps_dstProj hq hbase]
  exact ⟨(rooted_append hbase _).symm, by rw [← List.append_assoc]; exact List.prefix_append _ _⟩

/-- A bind of the docker base lands in the project folder only when its own place there begins with it. -/
theorem landsInProject_relocated_iff {c : CopyInput} (hq : ValidProject c.destName) (hbase : c.dstBase ≠ [])
    (htrim : strip c.dstBase = c.dstBase) {x : Str} (hlocal : isHostLocalBind (normpath x) = false)
    (hrel : Relocates c.srcBase c.dstBase x) :
    LandsInProject c x ↔ folderComps c.destName <+: belowBase c.srcBase x := by
  unfold LandsInProject destTail
  rw [if_neg (by simp [hlocal]), if_pos hrel, htrim, normComps_dstProj hq hbase, List.prefix_append_right_inj]
  exact and_iff_right (rooted_append hbase _).symm

theorem suggested_inside_iff {c : CopyInput} (hq : ValidProject c.destName) {x : Str} (hx : Absolute x) :
    Inside c.dstProj (suggestDestBind x c.srcBase c.dstBase c.destName) ↔ LandsInProject c x := by
  unfold LandsInProject
  cases hlocal : isHostLocalBind (normpath x) with
  | true =>
    have hsuggest : suggestDestBind x c.srcBase c.dstBase c.destName = normpath x := by
      unfold suggestDestBind
      simp only [hx.stripped, hlocal, if_true]
    have hplace := normpath_samePlace x
    rw [hsuggest, if_pos rfl]
    unfold Inside
    rw [hplace.1, hplace.2]
  | false =>
    obtain ⟨hroot, hcomps⟩ := suggestDestBind_place c.srcBase c.dstBase hq hx hlocal
    rw [if_neg (by simp)]
    unfold Inside
    rw [hroot, hcomps]

/-- A suggested destination whose text is below the project folder is a place inside it. -/
theorem suggested_inside_of_inTree {c : CopyInput} (hq : ValidProject c.destName) {x : Str} (hx : Absolute x)
    (h : inTree c.dstProj (suggestDestBind x c.srcBase c.dstBase c.destName) = true) :
    Inside c.dstProj (suggestDestBind x c.srcBase c.dstBase c.destName) := by
  unfold inTree at h
  rw [Bool.or_eq_true, decide_eq_true_eq] at h
  rcases h with heq | hpre
  · rw [heq]
    exact Inside.refl _
  · obtain ⟨w, hw⟩ := List.isPrefixOf_iff_prefix.1 hpre
    rw [List.append_assoc] at hw
    replace hw : c.dstProj ++ '/' :: w = suggestDestBind x c.srcBase c.dstBase c.destName := hw
    have hdown : lit ".." ∉ split '/' w := by
      cases hlocal : isHostLocalBind (normpath x) with
      | true =>
        have hsuggest : suggestDestBind x c.srcBase c.dstBase c.destName = '/' :: join '/' (normComps x) := by
          unfold suggestDestBind
          simp only [hx.stripped, hlocal, if_true]
          exact hx.normpath
        rw [hsuggest] at hw
        have hsplit := congrArg (split '/') hw
        rw [split_append_cons, split_slash] at hsplit
        intro hup
        have hmem : lit ".." ∈ [] :: split '/' (join '/' (normComps x)) := hsplit ▸ List.mem_append_right _ hup
        by_cases hnil : normComps x = []
        · rw [hnil] at hmem
          revert hmem
          decide
        · rw [split_join hnil fun d hd => notMem_of_mem_normComps hd] at hmem
          rcases List.mem_cons.1 hmem with hmem | hmem
          · revert hmem
            decide
          · exact (plain_of_mem_normComps hx.rooted hmem).2.2 rfl
      | false =>
        obtain ⟨hv, hnot, -⟩ := suggestDestBind_eq c.srcBase c.dstBase hq hx hlocal
        have hwhole : rstrip '/' (normpath (strip c.dstBase)) ++ '/' :: tailText c.srcBase c.dstBase c.destName x =
            c.dstBase ++ '/' :: (c.destName ++ '/' :: w) := by
          rw [← hv, ← hw]
          simp [CopyInput.dstProj]
        have hbelow := goesDown_of_append hnot (length_split_strip c.dstBase) hwhole
        rw [split_append_cons] at hbelow
        exact fun hup => hbelow (List.mem_append_right _ hup)
    rw [← hw]
    exact inside_append (dstProj_ne_nil c) hdown

/-! ## The pushes of a run -/

/-- A destination the operator agreed to: in the destination's project folder, or shown by the preflight
for a bind outside the source's docker base. -/
def Agreed (m : MoveInput) (name t : Str) : Prop :=
  Inside (m.copyInput name).dstProj t ∨
    ∃ src ∈ (m.preflight name).dataset.outsideJail, (m.preflight name).bindMap.get? src = some t

section Pushes
variable {m : MoveInput} {name : Str}

theorem destOf_unshown {x : Str} (h : x ∉ (m.preflight name).dataset.outsideJail) :
    (m.copyInput name).destOf x =
      suggestDestBind x (m.copyInput name).srcBase (m.copyInput name).dstBase (m.copyInput name).destName := by
  have hnone : (m.copyInput name).bindMap.get? x = none := by
    cases hget : (m.copyInput name).bindMap.get? x with
    | none => rfl
    | some d => exact absurd (bindMap_shown hget).1 h
  unfold CopyInput.destOf
  rw [hnone]

theorem suggestDestBind_ne_nil (x srcBase destBase destProject : Str) : suggestDestBind x srcBase destBase destProject ≠ [] := by
  have hnorm : normpath (strip x) ≠ [] := by
    unfold normpath
    simp only
    split
    · decide
    · assumption
  unfold suggestDestBind
  simp only
  split
  · exact hnorm
  · split
    · rename_i hcond
      simp [hcond.2.1]
    · simp

/-- A shown bind that the loop copies goes where it was shown. -/
theorem destOf_shown (hgate : m.gate name = .ok ()) {x : Str} (hx : strip x = x ∧ x ≠ [])
    (hshown : x ∈ (m.preflight name).dataset.outsideJail) (hcopies : CopiesBind (m.copyInput name) x) :
    (m.preflight name).bindMap.get? x = some ((m.copyInput name).destOf x) := by
  have hleaves := hcopies.copied
  unfold CopyInput.leaves at hleaves
  simp only [Bool.or_eq_false_iff, decide_eq_false_iff_not] at hleaves
  rcases outsideJail_decided hgate hshown hleaves.1.1.2 with hskip | ⟨d, hd⟩
  · refine absurd ?_ hleaves.1.2
    unfold skipSet
    refine List.mem_map.2 ⟨x, List.mem_filter.2 ⟨List.mem_append_right _ hskip, by simp [hx]⟩, by rw [hx.1]⟩
  · have hdest : (m.copyInput name).destOf x = d := by
      unfold CopyInput.destOf
      rw [show (m.copyInput name).bindMap.get? x = some d from hd]
      exact if_pos (bindMap_ne_nil hd)
    rw [hdest, hd]

/-- **A Move's deleting pushes stay where the operator agreed** exactly when every bind it copies unseen
lands in the destination's project folder, or happens to land where another bind was shown to. -/
theorem deletingPushes_agreed_iff (hname : composeProjectName m.project = .ok name) (hgate : m.gate name = .ok ()) :
    (∀ world t, .push t true ∈ (runCopyAndStart world m {}).2.calls → Agreed m name t) ↔
      ∀ x, Unreviewed m name x → LandsInProject (m.copyInput name) x ∨
        ∃ src ∈ (m.preflight name).dataset.outsideJail, (m.preflight name).bindMap.get? src =
          some (suggestDestBind x (m.copyInput name).srcBase (m.copyInput name).dstBase (m.copyInput name).destName) := by
  have hq : ValidProject (m.copyInput name).destName := destName_valid hname
  constructor
  · intro hagreed x hx
    obtain ⟨it, hit, hkind, rfl⟩ := hx.listed
    obtain ⟨hstrip, hne, ht, habs⟩ := item_facts hit
    have hdest := destOf_unshown hx.unshown
    have hnil : (m.copyInput name).destOf it.source ≠ [] := hdest ▸ suggestDestBind_ne_nil _ _ _ _
    have hstep := bindStep_eq hx.copies ht hnil
    by_cases hin : inTree (m.copyInput name).dstProj ((m.copyInput name).destOf it.source) = true
    · rw [hdest] at hin
      exact Or.inl ((suggested_inside_iff hq (habs hkind)).1 (suggested_inside_of_inTree hq (habs hkind) hin))
    · rw [if_neg hin] at hstep
      have hplan : .bind it.source ((m.copyInput name).destOf it.source) ∈ m.plan name := by
        refine (bind_mem_copyPlan (by simp)).2 ⟨it, hit, Or.inl hkind, ?_⟩
        rw [hkind, hstrip, hstep]
      have hpush := ((runCopyAndStart_allOk hname hgate).made _ hplan).2.1
      have hagree := hagreed allOk _ hpush
      rw [hdest] at hagree
      exact hagree.imp_left (suggested_inside_iff hq (habs hkind)).1
  · intro hlands world t hpush
    have hcall := runCopyAndStart_calls hname hpush
    cases hcall with
    | push => exact Or.inl (Inside.refl _)
    | copy hstep hc =>
      rename_i cs
      cases cs with
      | volume v d => simp [CopyStep.calls] at hc
      | fold src dest => simp [CopyStep.calls] at hc
      | refuse src => simp [CopyStep.calls] at hc
      | bind src dest =>
        obtain rfl : t = dest := by simpa [CopyStep.calls] using hc
        obtain ⟨it, hit, hkind, hbind⟩ := (bind_mem_copyPlan (by simp)).1 hstep
        obtain ⟨hstrip, hne, ht, habs⟩ := item_facts hit
        rw [hstrip] at hbind
        obtain ⟨hk, hcopies, heq⟩ := bindStep_some hbind ht hkind
        have hsplit : src = it.source ∧ t = (m.copyInput name).destOf it.source := by
          split at heq
          · cases heq
          · cases heq
            exact ⟨rfl, rfl⟩
        obtain ⟨rfl, rfl⟩ := hsplit
        by_cases hshown : it.source ∈ (m.preflight name).dataset.outsideJail
        · exact Or.inr ⟨it.source, hshown, destOf_shown hgate ⟨hstrip, hne⟩ hshown hcopies⟩
        · rcases hlands it.source ⟨⟨it, hit, hk, rfl⟩, hshown, hcopies⟩ with hin | hother
          · rw [destOf_unshown hshown]
            exact Or.inl ((suggested_inside_iff hq (habs hk)).2 hin)
          · rw [destOf_unshown hshown]
            exact Or.inr hother

end Pushes

/-! ### One Move inside the agreement and one outside -/

/-- A project with one bind. -/
def oneBind (source : Str) : MoveInput where
  source := { id := 1, dockerBase := lit "/home/pi/docker" }
  dest := { id := 2, dockerBase := lit "/srv/docker" }
  project := lit "web"
  destProject := lit "web"
  containers := some [{ mountsDetail := [{ source := source, mtype := lit "bind" }] }]

theorem deletingPushes_agreed_media :
    composeProjectName (oneBind (lit "/mnt/media")).project = .ok (lit "web") ∧
      (oneBind (lit "/mnt/media")).gate (lit "web") = .ok () ∧
      ∀ world t, .push t true ∈ (runCopyAndStart world (oneBind (lit "/mnt/media")) {}).2.calls →
        Agreed (oneBind (lit "/mnt/media")) (lit "web") t := by
  refine ⟨by decide, by decide, ?_⟩
  refine (deletingPushes_agreed_iff (m := oneBind (lit "/mnt/media")) (by decide) (by decide)).2 fun x hx => ?_
  obtain ⟨it, hit, -, rfl⟩ := hx.listed
  have hitems : ((oneBind (lit "/mnt/media")).preflight (lit "web")).dataset.items = [⟨lit "/mnt/media", .bindAbsolute, []⟩] := by
    decide
  rw [hitems, List.mem_singleton] at hit
  exact absurd (hit ▸ by decide) hx.unshown

/-- A bind of the source's docker base itself is pushed over the destination's docker base. -/
theorem dockerBase_overwritten :
    composeProjectName (oneBind (lit "/home/pi/docker")).project = .ok (lit "web") ∧
      (oneBind (lit "/home/pi/docker")).gate (lit "web") = .ok () ∧
      ¬ ∀ world t, .push t true ∈ (runCopyAndStart world (oneBind (lit "/home/pi/docker")) {}).2.calls →
        Agreed (oneBind (lit "/home/pi/docker")) (lit "web") t := by
  refine ⟨by decide, by decide, fun h => ?_⟩
  have hpush : .push (lit "/srv/docker/") true ∈ (runCopyAndStart allOk (oneBind (lit "/home/pi/docker")) {}).2.calls := by
    decide
  have hjail : ((oneBind (lit "/home/pi/docker")).preflight (lit "web")).dataset.outsideJail = [] := by decide
  rcases h allOk _ hpush with hin | ⟨src, hsrc, -⟩
  · revert hin
    decide
  · rw [hjail] at hsrc
    cases hsrc

end PiHerder.Migrate
