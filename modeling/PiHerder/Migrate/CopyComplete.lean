import PiHerder.Migrate.PushSafety

/-!
# What a Move that returns has copied and removed

The loop walks the dataset, `items[:80]` of what the preflight has counted; the leftover removes named
volumes of the same list. So nothing is removed that was not copied, while a mount that was not counted,
or that the loop does not take for a bind, stays behind.
-/
namespace PiHerder.Migrate
open Lib Lib.Str

/-! ## Listed and counted mounts -/

/-- The mounts that the project's containers list. -/
def listedMounts (row : Option (List Container)) : List Mount :=
  (row.elim [] projectMounts).filter fun mt => decide (mt.src ≠ [])

/-- The mounts that the dataset counts: the first one of each source, whole paths only, up to `items[:80]`. -/
def countedMounts (row : Option (List Container)) : List Mount :=
  ((row.elim [] projectFresh).filter fun mt => !isTruncatedHostPath mt.src).take maxItems

theorem dataset_items (row : Option (List Container)) (dockerBase : Str) :
    (datasetFromProject row dockerBase).items = (countedMounts row).map (·.item) := by
  cases row with
  | none => rfl
  | some containers =>
    show (scanMounts dockerBase (projectMounts containers)).items.take maxItems = _
    rw [scanMounts, (scan_eq dockerBase _ _).1, List.nil_append, ← List.map_take]
    rfl

theorem countedMounts_listed {row : Option (List Container)} {mt : Mount} (h : mt ∈ countedMounts row) :
    mt ∈ listedMounts row := by
  have hmem := List.mem_of_mem_take h
  rw [List.mem_filter] at hmem
  cases row with
  | none => cases hmem.1
  | some containers =>
    have hfresh := mem_freshMounts hmem.1
    exact List.mem_filter.2 ⟨hfresh.1, by simpa using hfresh.2.1⟩

/-- A bind that has to be copied: no socket or device, and not skipped by the operator. -/
structure Owed (c : CopyInput) (x : Str) : Prop where
  notLocal : isHostLocalBind x = false
  data : c.kindOf x ≠ .special
  notSkipped : rstrip '/' x ∉ skipSet c.skips ∧ x ∉ skipSet c.skips

/-- The mounts of the inventory are counted, and counted as what the loop copies:

* a named volume is the volume of a counted mount. It is not when the cut at 80 leaves it out, or when its
  source was counted before under another name;
* a bind is in the project folder, or a counted bind with one slash in front whose text is not that of a
  path of the project folder. -/
structure CountedAll (m : MoveInput) (name : Str) : Prop where
  volumes : ∀ mt ∈ listedMounts m.containers, mt.item.kind = .named →
    ∃ f ∈ countedMounts m.containers, f.item.kind = .named ∧ f.item.volumeName = mt.item.volumeName
  binds : ∀ mt ∈ listedMounts m.containers, mt.item.kind ≠ .named → Owed (m.copyInput name) mt.src →
    Inside (m.copyInput name).srcProj mt.src ∨ (inTree (m.copyInput name).srcProj mt.src = false ∧
      ∃ f ∈ countedMounts m.containers, f.src = mt.src ∧ f.item.kind = .bindAbsolute)

/-! ## What a run has copied and removed -/

def VolumeCopied (m : MoveInput) (name : Str) (world : Nat → Answer) (calls : List Call) (v : Str) : Prop :=
  ∃ d, .volume v d ∈ m.plan name ∧ (CopyStep.volume v d).Made m.kindOf world calls

/-- The bind was pulled, and pushed by itself or into the staged project tree. -/
def BindCopied (m : MoveInput) (name : Str) (world : Nat → Answer) (calls : List Call) (x : Str) : Prop :=
  ∃ d, ∃ step ∈ m.plan name, (step = .fold x d ∨ step = .bind x d) ∧ step.Made m.kindOf world calls

/-- Everything the containers list was copied or lies in the project tree, which was copied as a whole. -/
structure CopiedAll (m : MoveInput) (name : Str) (world : Nat → Answer) (calls : List Call) : Prop where
  tree : Tried world calls .pullProject .pullProject ∧
    Tried world calls (.push (m.copyInput name).dstProj true) (.push (m.copyInput name).dstProj false)
  volumes : ∀ mt ∈ listedMounts m.containers, mt.item.kind = .named → VolumeCopied m name world calls mt.item.volumeName
  binds : ∀ mt ∈ listedMounts m.containers, mt.item.kind ≠ .named → Owed (m.copyInput name) mt.src →
    Inside (m.copyInput name).srcProj mt.src ∨ BindCopied m name world calls mt.src

/-- Every removed volume was copied, and the one directory that is removed is the project's, which was. -/
structure RemovedCopied (m : MoveInput) (name : Str) (world : Nat → Answer) (calls : List Call) : Prop where
  volumes : ∀ v, .removeVolume v ∈ calls → VolumeCopied m name world calls v
  trees : ∀ path, .removeTree path ∈ calls → path = (m.copyInput name).srcProj ∧ Tried world calls .pullProject .pullProject ∧
    Tried world calls (.push (m.copyInput name).dstProj true) (.push (m.copyInput name).dstProj false)

section Complete
variable {m : MoveInput} {name : Str}

theorem preflight_items (m : MoveInput) (name : Str) :
    (m.preflight name).dataset.items = (countedMounts m.containers).map (·.item) := dataset_items _ _

theorem listed_stripped {mt : Mount} (h : mt ∈ listedMounts m.containers) : strip mt.src = mt.src ∧ mt.src ≠ [] := by
  obtain ⟨hmem, hne⟩ := List.mem_filter.1 h
  refine ⟨?_, by simpa using hne⟩
  cases hrow : m.containers with
  | none => rw [hrow] at hmem; cases hmem
  | some containers =>
    rw [hrow] at hmem
    exact projectMounts_stripped hmem

theorem volumeName_ne_nil {it : DatasetItem} (hstrip : strip it.source = it.source) (hne : it.source ≠ []) : it.volumeName ≠ [] := by
  unfold DatasetItem.volumeName
  simp only [hstrip]
  generalize (if strip it.volume ≠ [] then strip it.volume else (namedVolumeId it.source [] []).getD []) = vol
  split
  · assumption
  · exact hne

/-- The volumes of the plan are those of the counted mounts. -/
theorem volume_mem_plan {v : Str} :
    (∃ d, .volume v d ∈ m.plan name) ↔ ∃ f ∈ countedMounts m.containers, f.item.kind = .named ∧ f.item.volumeName = v := by
  unfold MoveInput.plan
  rw [preflight_items]
  constructor
  · rintro ⟨d, h⟩
    obtain ⟨⟨-, -, it, hit, hkind, hv⟩, -⟩ := volume_mem_copyPlan.1 h
    obtain ⟨f, hf, rfl⟩ := List.mem_map.1 hit
    exact ⟨f, hf, hkind, hv⟩
  · rintro ⟨f, hf, hkind, rfl⟩
    obtain ⟨hstrip, hne⟩ := listed_stripped (countedMounts_listed hf)
    have hname : f.item.volumeName ≠ [] := volumeName_ne_nil (by rwa [item_source]) (by rwa [item_source])
    exact ⟨_, volume_mem_copyPlan.2 ⟨⟨by simp, hname, f.item, List.mem_map_of_mem hf, hkind, rfl⟩, rfl⟩⟩

/-- The binds of the plan are the counted ones that `CopiesBind` lets through. -/
theorem bind_mem_plan {x : Str} :
    (∃ d, ∃ step ∈ m.plan name, step = .fold x d ∨ step = .bind x d) ↔
      CopiesBind (m.copyInput name) x ∧ (m.copyInput name).destOf x ≠ [] ∧
        ∃ f ∈ countedMounts m.containers, f.src = x ∧ f.item.kind = .bindAbsolute := by
  constructor
  · rintro ⟨d, step, hmem, hstep⟩
    have hne : ∀ v e, step ≠ .volume v e := by rcases hstep with rfl | rfl <;> simp
    obtain ⟨it, hit, hkind, hbind⟩ := (bind_mem_copyPlan hne).1 hmem
    obtain ⟨hstrip, -, ht, -⟩ := item_facts hit
    rw [hstrip] at hbind
    have hnil : (m.copyInput name).destOf it.source ≠ [] := by
      intro hnil
      unfold CopyInput.bindStep at hbind
      rw [if_neg (by simp [ht]), if_pos hnil] at hbind
      split at hbind
      · cases hbind
      · split at hbind <;> cases hbind
    obtain ⟨hk, hcopies, heq⟩ := bindStep_some hbind ht hkind
    have hx : x = it.source := by
      split at heq <;> rcases hstep with rfl | rfl <;> cases heq <;> rfl
    subst hx
    rw [preflight_items] at hit
    obtain ⟨f, hf, rfl⟩ := List.mem_map.1 hit
    exact ⟨hcopies, hnil, f, hf, (item_source f).symm, hk⟩
  · rintro ⟨hcopies, hnil, f, hf, rfl, hk⟩
    have hit : f.item ∈ (m.preflight name).dataset.items := by
      rw [preflight_items]
      exact List.mem_map_of_mem hf
    obtain ⟨hstrip, -, ht, -⟩ := item_facts hit
    rw [item_source] at hstrip ht
    have hstep := bindStep_eq hcopies ht hnil
    have hmem : ∀ step, (∀ v e, step ≠ .volume v e) →
        (m.copyInput name).bindStep .bindAbsolute f.src = some step → step ∈ m.plan name := by
      intro step hne h
      exact (bind_mem_copyPlan hne).2 ⟨f.item, hit, Or.inl hk, by rw [hk, item_source, hstrip, h]⟩
    by_cases hin : inTree (m.copyInput name).dstProj ((m.copyInput name).destOf f.src) = true
    · rw [if_pos hin] at hstep
      exact ⟨_, _, hmem _ (by simp) hstep, Or.inl rfl⟩
    · rw [if_neg hin] at hstep
      exact ⟨_, _, hmem _ (by simp) hstep, Or.inr rfl⟩

theorem copiesBind_iff {x : Str} (hx : Owed (m.copyInput name) x) :
    CopiesBind (m.copyInput name) x ↔ inTree (m.copyInput name).srcProj x = false := by
  constructor
  · exact fun h => h.notProject
  · intro h
    refine ⟨h, ?_, hx.data⟩
    unfold CopyInput.leaves
    simp [hx.notLocal, hx.notSkipped.1, hx.notSkipped.2]

theorem listed_absolute_destOf (hgate : m.gate name = .ok ()) {f : Mount} (hf : f ∈ countedMounts m.containers)
    (hcopies : CopiesBind (m.copyInput name) f.src) : (m.copyInput name).destOf f.src ≠ [] := by
  obtain ⟨hstrip, hne⟩ := listed_stripped (countedMounts_listed hf)
  by_cases hshown : f.src ∈ (m.preflight name).dataset.outsideJail
  · exact bindMap_ne_nil (destOf_shown hgate ⟨hstrip, hne⟩ hshown hcopies)
  · rw [destOf_unshown hshown]
    exact suggestDestBind_ne_nil _ _ _ _

/-- **A Move that returns has copied everything listed** iff everything listed was counted. -/
theorem copiedAll_iff {world : Nat → Answer} {calls : List Call} (hgate : m.gate name = .ok ())
    (h : Copied m name world calls) : CopiedAll m name world calls ↔ CountedAll m name := by
  constructor
  · intro hall
    refine ⟨fun mt hmt hk => ?_, fun mt hmt hk howed => ?_⟩
    · obtain ⟨d, hd, -⟩ := hall.volumes mt hmt hk
      exact volume_mem_plan.1 ⟨d, hd⟩
    · rcases hall.binds mt hmt hk howed with hin | ⟨d, step, hstep, heq, -⟩
      · exact Or.inl hin
      · obtain ⟨hcopies, -, hcounted⟩ := bind_mem_plan.1 ⟨d, step, hstep, heq⟩
        exact Or.inr ⟨hcopies.notProject, hcounted⟩
  · intro hcounted
    refine ⟨⟨h.pulled, h.pushed⟩, fun mt hmt hk => ?_, fun mt hmt hk howed => ?_⟩
    · obtain ⟨d, hd⟩ := volume_mem_plan.2 (hcounted.volumes mt hmt hk)
      exact ⟨d, hd, h.made _ hd⟩
    · rcases hcounted.binds mt hmt hk howed with hin | ⟨hproj, f, hf, hsrc, hfk⟩
      · exact Or.inl hin
      · have hcopies := (copiesBind_iff howed).2 hproj
        rw [← hsrc] at hcopies ⊢
        obtain ⟨d, step, hstep, heq⟩ := bind_mem_plan.2 ⟨hcopies, listed_absolute_destOf hgate hf hcopies, f, hf, rfl, hfk⟩
        exact Or.inr ⟨d, step, hstep, heq, h.made _ hstep⟩

/-- What the leftover takes for a volume of the dataset is one the loop takes for it. -/
theorem mem_namedVolumes {v : Str} {items : List DatasetItem}
    (hit : ∀ it ∈ items, strip it.source = it.source ∧ (strip it.volume ≠ [] → it.kind = .named)) : ∀ {seen},
    v ∈ namedVolumesFromDataset seen items → ∃ it ∈ items, it.kind = .named ∧ it.volumeName = v := by
  induction items with
  | nil => intro seen h; cases h
  | cons it items ih =>
    intro seen h
    unfold namedVolumesFromDataset at h
    simp only at h
    generalize hdef : (if it.kind = .named ∧ strip it.volume = [] then (namedVolumeId it.source [] []).getD []
      else strip it.volume) = vol at h
    have hrest : ∀ {seen}, v ∈ namedVolumesFromDataset seen items →
        ∃ it' ∈ it :: items, it'.kind = .named ∧ it'.volumeName = v := by
      intro seen h
      obtain ⟨it', hit', hv⟩ := ih (fun it' h' => hit it' (List.mem_cons_of_mem _ h')) h
      exact ⟨it', List.mem_cons_of_mem _ hit', hv⟩
    split at h
    · exact hrest h
    · rename_i hvol
      rw [not_or] at hvol
      rcases List.mem_cons.1 h with rfl | h
      · obtain ⟨hstrip, hnamed⟩ := hit it List.mem_cons_self
        have hkind : it.kind = .named := by
          by_contra hk
          have hnil : strip it.volume = [] := by
            by_contra hne
            exact hk (hnamed hne)
          rw [if_neg (by simp [hk]), hnil] at hdef
          exact hvol.1 hdef.symm
        refine ⟨it, List.mem_cons_self, hkind, ?_⟩
        unfold DatasetItem.volumeName
        simp only [hstrip]
        by_cases hnil : strip it.volume = []
        · rw [if_pos ⟨hkind, hnil⟩] at hdef
          simp only [hnil, hdef, hvol.1, ne_eq, not_true_eq_false, not_false_eq_true, if_true, if_false]
        · rw [if_neg (by simp [hnil])] at hdef
          rw [if_pos hnil, if_pos hnil, hdef]
      · exact hrest h

theorem item_volume (m : Mount) : strip m.item.volume ≠ [] → m.item.kind = .named := by
  unfold Mount.item
  split
  · exact fun _ => rfl
  · exact fun h => absurd rfl h

/-- The project's directory is what `jailed_source_project_path` says, when it says anything. -/
theorem leftoverPath_srcProj (hname : composeProjectName m.project = .ok name) {path : Str}
    (h : leftoverPath m.source name (m.copyInput name).srcProj = .ok path) : path = (m.copyInput name).srcProj := by
  have hvalid := (composeProjectName_valid hname).1
  have hrstrip : rstrip '/' (m.copyInput name).srcProj = (m.copyInput name).srcProj := by
    have := rstrip_append (s := (m.copyInput name).srcBase ++ ['/']) hvalid.nonempty hvalid.noSlash
    simpa [CopyInput.srcProj, MoveInput.copyInput] using this
  unfold leftoverPath at h
  rw [hrstrip, if_pos (by simp [CopyInput.srcProj])] at h
  cases h
  rfl

/-- **Nothing is removed that was not copied**, whatever was counted. -/
theorem removedCopied {world : Nat → Answer} (hname : composeProjectName m.project = .ok name) {t : RunState}
    (h : runCopyAndStart world m {} = (.ok (), t)) : RemovedCopied m name world t.calls := by
  have hcopied := (runCopyAndStart_copied hname h).2
  have hcall : ∀ {c}, c ∈ t.calls → MoveCall m name c := by
    intro c hc
    have hrun : c ∈ (runCopyAndStart world m {}).2.calls := by rwa [h]
    exact runCopyAndStart_calls hname hrun
  refine ⟨fun v hv => ?_, fun path hpath => ?_⟩
  · cases hcall hv with
    | copy hstep hc => rename_i cs; cases cs <;> simp [CopyStep.calls] at hc
    | removeVolume hvol =>
      rw [preflight_items] at hvol
      have hitems : ∀ it ∈ (countedMounts m.containers).map (·.item),
          strip it.source = it.source ∧ (strip it.volume ≠ [] → it.kind = .named) := by
        intro it hit
        obtain ⟨f, hf, rfl⟩ := List.mem_map.1 hit
        rw [item_source]
        exact ⟨(listed_stripped (countedMounts_listed hf)).1, item_volume f⟩
      obtain ⟨it, hit, hkind, hvn⟩ := mem_namedVolumes hitems hvol
      obtain ⟨f, hf, rfl⟩ := List.mem_map.1 hit
      obtain ⟨d, hd⟩ := volume_mem_plan.2 ⟨f, hf, hkind, hvn⟩
      exact ⟨d, hd, hcopied.made _ hd⟩
  · cases hcall hpath with
    | copy hstep hc => rename_i cs; cases cs <;> simp [CopyStep.calls] at hc
    | removeTree hleft => exact ⟨leftoverPath_srcProj hname hleft, hcopied.pulled, hcopied.pushed⟩

/-- **A successful Move has copied everything and removed nothing else** iff everything listed was counted. -/
theorem move_complete_iff {world : Nat → Answer} (hname : composeProjectName m.project = .ok name) {t : RunState}
    (h : runCopyAndStart world m {} = (.ok (), t)) :
    CopiedAll m name world t.calls ∧ RemovedCopied m name world t.calls ↔ CountedAll m name := by
  obtain ⟨hgate, hcopied⟩ := runCopyAndStart_copied hname h
  rw [copiedAll_iff hgate hcopied]
  exact and_iff_left (removedCopied hname h)

end Complete

/-! ### A Move of two mounts and one of too many -/

/-- A project with a bind and a named volume. -/
def smallMove : MoveInput :=
  { oneBind [] with
    leftover := lit "remove"
    containers := some [{ mountsDetail := [{ source := lit "/mnt/media", mtype := lit "bind" },
      { name := lit "web_db", mtype := lit "volume" }] }] }

theorem smallMove_complete : (runCopyAndStart allOk smallMove {}).1 = .ok () ∧
    CopiedAll smallMove (lit "web") allOk (runCopyAndStart allOk smallMove {}).2.calls ∧
      RemovedCopied smallMove (lit "web") allOk (runCopyAndStart allOk smallMove {}).2.calls := by
  have hok : (runCopyAndStart allOk smallMove {}).1 = .ok () := by decide
  have hlisted : listedMounts smallMove.containers = [⟨lit "/mnt/media", lit "bind", []⟩, ⟨lit "web_db", lit "volume", lit "web_db"⟩] := by
    decide
  have hcounted : countedMounts smallMove.containers = listedMounts smallMove.containers := by decide
  refine ⟨hok, (move_complete_iff (m := smallMove) (by decide) (Prod.ext hok rfl)).2 ⟨fun mt hmt hk => ?_, fun mt hmt hk _ => ?_⟩⟩
  · exact ⟨mt, hcounted ▸ hmt, hk, rfl⟩
  · refine Or.inr ?_
    rw [hcounted, hlisted] at *
    rcases List.mem_cons.1 hmt with rfl | hmt
    · exact ⟨by decide, _, hmt, rfl, by decide⟩
    · rw [List.mem_singleton] at hmt
      subst hmt
      exact absurd (by decide) hk

/-- A project with 81 named volumes. -/
def bigMove : MoveInput :=
  { oneBind [] with
    leftover := lit "remove"
    containers := some [{ mountsDetail := (List.range 81).map fun i => { name := Str.ofNat i, mtype := lit "volume" } }] }

/-- The 81st is left out of the dataset: the Move returns without it. -/
theorem bigMove_incomplete : (runCopyAndStart allOk bigMove {}).1 = .ok () ∧
    ¬ CopiedAll bigMove (lit "web") allOk (runCopyAndStart allOk bigMove {}).2.calls := by
  refine ⟨by decide +kernel, fun h => ?_⟩
  have hlast : (⟨lit "80", lit "volume", lit "80"⟩ : Mount) ∈ listedMounts bigMove.containers := by decide +kernel
  obtain ⟨d, hd, -⟩ := h.volumes _ hlast (by decide)
  obtain ⟨f, hf, -, hv⟩ := volume_mem_plan.1 ⟨d, hd⟩
  have hnone : ∀ f ∈ countedMounts bigMove.containers, f.item.volumeName ≠ lit "80" := by decide +kernel
  exact hnone f hf hv

end PiHerder.Migrate
