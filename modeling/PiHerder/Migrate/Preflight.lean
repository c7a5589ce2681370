import PiHerder.Migrate.Binds

/-!
# The dataset of a Move and its preflight

| here | there |
| --- | --- |
| `Container.mounts`       | the two listings of a container (`preflight.py:444`, `:491`) |
| `DatasetScan.add`        | the body of both loops of `_dataset_from_project` (`:448-490`, `:492-508`) |
| `datasetFromProject`     | `_dataset_from_project` (`:420`) |
| `BindReview.bind`        | the loop over `outside_jail` (`:920-983`) |
| `runPreflight`           | `run_preflight` (`:704`) |

Sizes are left out. The checks that read the two hosts, the job table and the fabric (HAOS, host lock,
architecture, disk, ports, busy jobs, DNS and NPM matches) are the blocks `otherBlocks` of the input.
-/
namespace PiHerder.Migrate
open Lib Lib.Str

/-! ## The dataset -/

/-- An entry of `mounts_detail`. -/
structure MountDetail where
  source : Str := []
  name : Str := []
  mtype : Str := []
deriving DecidableEq, Repr

structure Container where
  placeholder : Bool := false
  mountsDetail : List MountDetail := []
  mountsList : List Str := []
deriving DecidableEq, Repr

/-- A mount as the loops of `_dataset_from_project` read it. -/
structure Mount where
  src : Str
  mtype : Str := []
  name : Str := []
deriving DecidableEq, Repr

/-- `_mount_source_from_line` (preflight.py:65). -/
def mountSourceFromLine (line : Str) : Str :=
  let s := strip line
  let s := if '→' ∈ s then strip (s.takeWhile (· != '→')) else s
  if ':' ∈ s then strip (s.takeWhile (· != ':')) else s

/-- The mounts of a container: its inspected ones, else the lines of the listing. -/
def Container.mounts (c : Container) : List Mount :=
  if c.placeholder then []
  else if c.mountsDetail ≠ [] then
    c.mountsDetail.map fun m => ⟨strip (if m.source ≠ [] then m.source else m.name), m.mtype, m.name⟩
  else c.mountsList.map fun line => ⟨mountSourceFromLine line, [], []⟩

structure DatasetItem where
  source : Str
  kind : ItemKind
  volume : Str := []
deriving DecidableEq, Repr

/-- The lists of `_dataset_from_project` while it walks the mounts. -/
structure DatasetScan where
  items : List DatasetItem := []
  outside : List Str := []
  truncated : List Str := []
  seen : List Str := []
deriving DecidableEq, Repr

/-- The item of a mount. -/
def Mount.item (m : Mount) : DatasetItem :=
  match namedVolumeId m.src m.mtype m.name with
  | some vol => ⟨m.src, .named, vol⟩
  | none => ⟨m.src, bindItemKind m.src, []⟩

/-- Does the preflight show the mount to the operator, as a bind outside the docker base? -/
def Mount.outside (dockerBase : Str) (m : Mount) : Bool :=
  (namedVolumeId m.src m.mtype m.name).isNone && isOutsideJailBind m.src (bindItemKind m.src) dockerBase

/-- A mount is counted at the first sight of its source. -/
def DatasetScan.add (dockerBase : Str) (s : DatasetScan) (m : Mount) : DatasetScan :=
  if m.src = [] ∨ m.src ∈ s.seen then s
  else if isTruncatedHostPath m.src then { s with truncated := s.truncated ++ [m.src], seen := m.src :: s.seen }
  else
    { s with
      items := s.items ++ [m.item]
      outside := if m.outside dockerBase then s.outside ++ [m.src] else s.outside
      seen := m.src :: s.seen }

structure Dataset where
  items : List DatasetItem := []
  outsideJail : List Str := []
  truncated : List Str := []
deriving DecidableEq, Repr

/-- The bound of `items[:80]`. -/
def maxItems : Nat := 80

def projectMounts (containers : List Container) : List Mount := containers.flatMap (·.mounts)

def scanMounts (dockerBase : Str) (mounts : List Mount) : DatasetScan := mounts.foldl (DatasetScan.add dockerBase) {}

def datasetFromProject (row : Option (List Container)) (dockerBase : Str) : Dataset :=
  match row with
  | none => {}
  | some containers =>
    let s := scanMounts dockerBase (projectMounts containers)
    ⟨s.items.take maxItems, s.outside, s.truncated⟩

/-! ## The preflight -/

/-- A row of `bind_overrides`. -/
structure BindOverride where
  source : Str
  dest : Str
  skip : Bool
deriving DecidableEq, Repr

structure PreflightInput where
  project : Str
  destProject : Option Str
  portMap : Dict Str Str := []
  overrides : List BindOverride := []
  /-- `docker_base_abs` of the two hosts. -/
  srcBase : Str
  dstBase : Str
  /-- The project's row in the source's Docker inventory. -/
  containers : Option (List Container)
  /-- What the other checks of `run_preflight` block. -/
  otherBlocks : List Str := []

structure Preflight where
  destProject : Str
  portMap : PortMap
  dataset : Dataset
  bindMap : Dict Str Str
  skipBinds : List Str
  blocks : List Str

def Preflight.ok (pf : Preflight) : Bool := decide (pf.blocks = [])

/-- `by_src`: the last override of a source counts. -/
def overrideOf (overrides : List BindOverride) (path : Str) : Option BindOverride :=
  (overrides.filter fun o => decide (o.source ≠ [])).reverse.find? fun o => decide (o.source = path)

/-- The place the operator is shown for a bind outside the docker base: the override's, else the default. -/
def PreflightInput.reviewedDest (i : PreflightInput) (destName path : Str) : Str :=
  let dest := match overrideOf i.overrides path with
    | some o => o.dest
    | none => []
  strip (if dest ≠ [] then dest else suggestDestBind path i.srcBase i.dstBase destName)

/-- The dictionaries of the bind review. -/
structure BindReview where
  bindMap : Dict Str Str := []
  skipBinds : List Str := []
  blocks : List Str := []

def BindReview.bind (i : PreflightInput) (destName : Str) (s : BindReview) (path : Str) : BindReview :=
  if isHostLocalBind path then { s with skipBinds := s.skipBinds ++ [path] }
  else if (overrideOf i.overrides path).any (·.skip) then { s with skipBinds := s.skipBinds ++ [path] }
  else match validateDestBindPath (i.reviewedDest destName path) i.dstBase with
    | some _ => { s with blocks := s.blocks ++ [lit "bind_outside_jail:" ++ path] }
    | none => { s with bindMap := s.bindMap.set path (i.reviewedDest destName path) }

/-- `run_preflight` of a project whose name has been checked. -/
def runPreflight (i : PreflightInput) : Preflight :=
  let dest := normalizeDestProject i.project i.destProject
  let ports := validatePortMap i.portMap
  let dataset := datasetFromProject i.containers i.srcBase
  let binds := dataset.outsideJail.foldl (BindReview.bind i dest.1) {}
  { destProject := dest.1
    portMap := ports.1
    dataset := dataset
    bindMap := binds.bindMap
    skipBinds := binds.skipBinds
    blocks :=
      (dest.2.map (lit "dest_project_invalid:" ++ ·)).toList ++ ports.2.map (lit "port_map_invalid:" ++ ·) ++
        (if i.containers = none then [lit "source_missing"] else []) ++ i.otherBlocks ++
        dataset.truncated.map (lit "bind_truncated:" ++ ·) ++ binds.blocks }

/-! ## What the dataset holds -/

/-- The mounts whose source is seen for the first time. -/
def freshMounts : List Str → List Mount → List Mount
  | _, [] => []
  | seen, m :: ms => if m.src = [] ∨ m.src ∈ seen then freshMounts seen ms else m :: freshMounts (m.src :: seen) ms

/-- **The scan**, list by list: one item for every first sight that is not truncated. -/
theorem scan_eq (dockerBase : Str) (ms : List Mount) : ∀ s : DatasetScan,
    (ms.foldl (DatasetScan.add dockerBase) s).items =
        s.items ++ ((freshMounts s.seen ms).filter fun m => !isTruncatedHostPath m.src).map (·.item) ∧
      (ms.foldl (DatasetScan.add dockerBase) s).outside =
        s.outside ++ ((freshMounts s.seen ms).filter fun m => !isTruncatedHostPath m.src && m.outside dockerBase).map (·.src) ∧
      (ms.foldl (DatasetScan.add dockerBase) s).truncated =
        s.truncated ++ ((freshMounts s.seen ms).filter fun m => isTruncatedHostPath m.src).map (·.src) := by
  induction ms with
  | nil => intro s; simp [freshMounts]
  | cons m ms ih =>
    intro s
    obtain ⟨hitems, houtside, htruncated⟩ := ih (s.add dockerBase m)
    rw [List.foldl_cons, hitems, houtside, htruncated]
    simp only [DatasetScan.add, freshMounts]
    by_cases hseen : m.src = [] ∨ m.src ∈ s.seen
    · simp only [if_pos hseen, and_self]
    · simp only [if_neg hseen]
      by_cases ht : isTruncatedHostPath m.src = true
      · simp [ht]
      · by_cases ho : m.outside dockerBase = true <;> simp [ht, ho]

theorem mem_freshMounts {m : Mount} {ms : List Mount} : ∀ {seen}, m ∈ freshMounts seen ms →
    m ∈ ms ∧ m.src ≠ [] ∧ m.src ∉ seen := by
  induction ms with
  | nil => intro seen h; cases h
  | cons a ms ih =>
    intro seen h
    unfold freshMounts at h
    split at h
    · exact ⟨List.mem_cons_of_mem _ (ih h).1, (ih h).2⟩
    · rename_i hnew
      rw [not_or] at hnew
      rcases List.mem_cons.1 h with rfl | h
      · exact ⟨List.mem_cons_self, hnew⟩
      · have := ih h
        simp only [List.mem_cons, not_or] at this
        exact ⟨List.mem_cons_of_mem _ this.1, this.2.1, this.2.2.2⟩

theorem mountSourceFromLine_stripped (line : Str) : strip (mountSourceFromLine line) = mountSourceFromLine line := by
  unfold mountSourceFromLine
  simp only
  generalize hs : (if '→' ∈ strip line then strip ((strip line).takeWhile (· != '→')) else strip line) = s
  have hstrip : strip s = s := by
    rw [← hs]
    split
    · rw [strip_strip]
    · rw [strip_strip]
  split
  · rw [strip_strip]
  · exact hstrip

/-- The sources of the listing are stripped. -/
theorem projectMounts_stripped {containers : List Container} {m : Mount} (h : m ∈ projectMounts containers) :
    strip m.src = m.src := by
  obtain ⟨c, -, hm⟩ := List.mem_flatMap.1 h
  unfold Container.mounts at hm
  split at hm
  · cases hm
  · split at hm
    · obtain ⟨d, -, rfl⟩ := List.mem_map.1 hm
      exact strip_strip _
    · obtain ⟨line, -, rfl⟩ := List.mem_map.1 hm
      exact mountSourceFromLine_stripped line

/-- The first mounts of a project's containers. -/
def projectFresh (containers : List Container) : List Mount := freshMounts [] (projectMounts containers)

/-- An item stands for a first mount with a whole path. -/
theorem mem_dataset_items {row : Option (List Container)} {dockerBase : Str} {it : DatasetItem}
    (h : it ∈ (datasetFromProject row dockerBase).items) :
    ∃ containers, row = some containers ∧ ∃ m ∈ projectFresh containers, isTruncatedHostPath m.src = false ∧ it = m.item := by
  cases row with
  | none => cases h
  | some containers =>
    have hmem := List.mem_of_mem_take h
    rw [scanMounts, (scan_eq dockerBase _ _).1] at hmem
    simp only [List.nil_append, List.mem_map, List.mem_filter, Bool.not_eq_true'] at hmem
    obtain ⟨m, ⟨hm, ht⟩, rfl⟩ := hmem
    exact ⟨containers, rfl, m, hm, ht, rfl⟩

theorem item_source (m : Mount) : m.item.source = m.src := by
  unfold Mount.item
  split <;> rfl

end PiHerder.Migrate
