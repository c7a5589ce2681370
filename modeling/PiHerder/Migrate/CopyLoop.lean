import PiHerder.Migrate.Preflight

/-!
# What the copy loop sends where

The loop of `run_copy_and_start` over the dataset (`pipeline.py:221-337`), as the list of copies it
makes in order: `copyPlan`. The kind of a remote path (`remote_path_kind`) is an answer of the source
host, `kindOf`; a host that does not answer counts as a directory.
-/
namespace PiHerder.Migrate
open Lib Lib.Str

/-- The answers of `remote_path_kind` that the loop tells apart. -/
inductive RemoteKind
  | special | file | dir
deriving DecidableEq, Repr

/-- What the loop reads. -/
structure CopyInput where
  name : Str
  destName : Str
  /-- `docker_base_abs(…).rstrip("/")` of the two hosts. -/
  srcBase : Str
  dstBase : Str
  bindMap : Dict Str Str
  skips : List Str
  kindOf : Str → RemoteKind

def CopyInput.srcProj (c : CopyInput) : Str := c.srcBase ++ '/' :: c.name
def CopyInput.dstProj (c : CopyInput) : Str := c.dstBase ++ '/' :: c.destName

/-- `path == dir or path.startswith(dir + "/")`. -/
def inTree (dir path : Str) : Bool := decide (path = dir) || startsWith (dir ++ lit "/") path

/-- `skip_set`. -/
def skipSet (skips : List Str) : List Str := (skips.filter fun s => strip s ≠ []).map fun s => rstrip '/' (strip s)

inductive CopyStep
  /-- A named volume, under its name on the destination. -/
  | volume (name destName : Str)
  /-- A bind pulled into the staged project tree, which is pushed as a whole. -/
  | fold (src dest : Str)
  /-- A bind with a push of its own, `--delete`. -/
  | bind (src dest : Str)
  /-- A path the loop refuses. -/
  | refuse (src : Str)
deriving DecidableEq, Repr

/-- The name of the volume of an item of kind `named`. -/
def DatasetItem.volumeName (it : DatasetItem) : Str :=
  let vol := strip it.volume
  let vol := if vol ≠ [] then vol else (namedVolumeId (strip it.source) [] []).getD []
  if vol ≠ [] then vol else strip it.source

/-- Is the bind left where it is: a host socket or device, or one the operator skips? -/
def CopyInput.leaves (c : CopyInput) (kind : ItemKind) (src : Str) : Bool :=
  decide (kind = .bindHostLocal) || isHostLocalBind src || decide (rstrip '/' src ∈ skipSet c.skips) ||
    decide (src ∈ skipSet c.skips)

/-- Where a bind goes. -/
def CopyInput.destOf (c : CopyInput) (src : Str) : Str :=
  match c.bindMap.get? src with
  | some dest => if dest ≠ [] then dest else suggestDestBind src c.srcBase c.dstBase c.destName
  | none => suggestDestBind src c.srcBase c.dstBase c.destName

/-- One bind of the loop. -/
def CopyInput.bindStep (c : CopyInput) (kind : ItemKind) (src : Str) : Option CopyStep :=
  if isTruncatedHostPath src then some (.refuse src)
  else if inTree c.srcProj src then none
  else if c.leaves kind src then none
  else if c.destOf src = [] then none
  else if c.kindOf src = .special then none
  else if inTree c.dstProj (c.destOf src) then some (.fold src (c.destOf src))
  else some (.bind src (c.destOf src))

/-- The loop; `seen` is `seen_vol`. -/
def CopyInput.copyPlan (c : CopyInput) : List Str → List DatasetItem → List CopyStep
  | _, [] => []
  | seen, it :: items =>
    match it.kind with
    | .named =>
      let vol := it.volumeName
      if vol = [] ∨ vol ∈ seen then c.copyPlan seen items
      else .volume vol (remapNamedVolume vol c.name c.destName) :: c.copyPlan (vol :: seen) items
    | .bindAbsolute | .bindHostLocal => (c.bindStep it.kind (strip it.source)).toList ++ c.copyPlan seen items
    | .bindRelative => c.copyPlan seen items

/-! ## Which steps the loop makes -/

theorem bindStep_ne_volume {c : CopyInput} {kind : ItemKind} {src v d : Str} :
    c.bindStep kind src ≠ some (.volume v d) := by
  unfold CopyInput.bindStep
  grind

/-- The named volumes of the plan are those of the items, each under its remapped name. -/
theorem volume_mem_copyPlan {c : CopyInput} {v d : Str} {items : List DatasetItem} : ∀ {seen},
    .volume v d ∈ c.copyPlan seen items ↔
      (v ∉ seen ∧ v ≠ [] ∧ ∃ it ∈ items, it.kind = .named ∧ it.volumeName = v) ∧
        d = remapNamedVolume v c.name c.destName := by
  induction items with
  | nil => simp [CopyInput.copyPlan]
  | cons it items ih =>
    intro seen
    unfold CopyInput.copyPlan
    cases hk : it.kind with
    | named =>
      simp only
      split
      · rename_i hskip
        rw [ih]
        simp only [List.mem_cons, exists_eq_or_imp, hk, true_and]
        grind
      · rename_i hnew
        rw [List.mem_cons, ih]
        simp only [List.mem_cons, exists_eq_or_imp, hk, true_and, CopyStep.volume.injEq, not_or]
        grind
    | bindRelative =>
      simp only [ih, List.mem_cons, exists_eq_or_imp, hk, reduceCtorEq, false_and, false_or]
    | bindAbsolute =>
      simp only [List.mem_append, Option.mem_toList, bindStep_ne_volume, false_or, ih, List.mem_cons,
        exists_eq_or_imp, hk, reduceCtorEq, false_and]
    | bindHostLocal =>
      simp only [List.mem_append, Option.mem_toList, bindStep_ne_volume, false_or, ih, List.mem_cons,
        exists_eq_or_imp, hk, reduceCtorEq, false_and]

/-- The other steps of the plan are those of the binds. -/
theorem bind_mem_copyPlan {c : CopyInput} {step : CopyStep} (hstep : ∀ v d, step ≠ .volume v d) {items : List DatasetItem} :
    ∀ {seen}, step ∈ c.copyPlan seen items ↔
      ∃ it ∈ items, (it.kind = .bindAbsolute ∨ it.kind = .bindHostLocal) ∧ c.bindStep it.kind (strip it.source) = some step := by
  induction items with
  | nil => simp [CopyInput.copyPlan]
  | cons it items ih =>
    intro seen
    unfold CopyInput.copyPlan
    cases hk : it.kind with
    | named =>
      simp only
      split
      · simp [ih, hk]
      · rw [List.mem_cons, or_iff_right (hstep _ _), ih]
        simp [hk]
    | bindRelative => simp [ih, hk]
    | bindAbsolute => simp [ih, hk]
    | bindHostLocal => simp [ih, hk]

end PiHerder.Migrate
