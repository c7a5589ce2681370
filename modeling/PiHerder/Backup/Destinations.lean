import PiHerder.Backup.PathPolicy
import PiHerder.Lib.PurePath

/-!
# Where a host's sources are backed up

Each source is copied with `rsync --delete` into a folder of its own below the host's backup root
(`services/backup.py`, `services/backup_profiles.py`). Names come from the source path, from the host, or from the
operator.

| here | there |
| --- | --- |
| `orElse` | `a or b` |
| `Source`, `Host`, `Defaults` | the source entries, the columns of `Server` and the global defaults that are read |
| `backupRootForServer` | `get_backup_root_for_server` (153–168) |
| `destName` | `item.get("dest_name") or Path(src).name or "root"` |
| `runBackup` | `run_backup` (487–571): what is handed to rsync, source by source |
| `addBackupSource` | `add_backup_source` (222–250); the `ValueError` as an error, `False` as `none` |
-/
namespace PiHerder.Backup
open Lib Lib.Str

/-! ## The code -/

/-- `a or b`: an empty text counts as none. -/
def orElse (a : Option Str) (b : Str) : Str := (a.filter (· ≠ [])).getD b

structure Source where
  source : Str
  destName : Option Str
  enabled : Bool
deriving DecidableEq, Repr

structure Host where
  hostname : Str
  backupDestRoot : Option Str
  backupFolderName : Option Str
  backupPathRules : Rules
  sources : List Source
  backupDirect : Bool
  backupEnabled : Bool
deriving DecidableEq, Repr

structure Defaults where
  destRoot : Option Str
  folderName : Option Str
deriving DecidableEq, Repr

def replaceSlash (s : Str) : Str := s.map fun c => if c = '/' then '_' else c

def backupRootForServer (BACKUP_ROOT : Str) (g : Defaults) (s : Host) : PurePath :=
  let root := orElse s.backupDestRoot (orElse g.destRoot BACKUP_ROOT)
  let folder := orElse s.backupFolderName (orElse g.folderName (replaceSlash s.hostname))
  (PurePath.ofStr root).join folder

def destName (item : Source) : Str := orElse item.destName (orElse (some (PurePath.ofStr item.source).name) (lit "root"))

/-- The sources that are copied, each with its destination. A direct host has none here. -/
def runBackup (home : Option Str) (BACKUP_ROOT : Str) (g : Defaults) (s : Host) : List (Source × PurePath) :=
  let allowed := s.sources.filter fun item => (validateBackupPath home item.source s.backupPathRules).isOk
  if s.backupDirect then [] else (allowed.filter (·.enabled)).map fun item => (item, (backupRootForServer BACKUP_ROOT g s).join (destName item))

def addBackupSource (home : Option Str) (s : Host) (source : Str) (destName : Option Str) : Except Str (Option Host) :=
  if strip source = [] then .ok none
  else
    let source := strip source
    match validateBackupPath home source s.backupPathRules with
    | .error reason => .error reason
    | .ok () =>
      if s.sources.any (·.source = source) then .ok none
      else .ok (some { s with sources := s.sources ++ [⟨source, (destName.filter (· ≠ [])).map strip, true⟩] })

/-! ## Apart -/

/-- Neither place is the other or inside it. -/
def Apart (a b : List Str) : Prop := ¬ a <+: b ∧ ¬ b <+: a

instance (a b : List Str) : Decidable (Apart a b) := inferInstanceAs (Decidable (_ ∧ _))

theorem Apart.symm {a b : List Str} (h : Apart a b) : Apart b a := ⟨h.2, h.1⟩

theorem apart_append (r : List Str) {a b : List Str} : Apart (r ++ a) (r ++ b) ↔ Apart a b := by
  unfold Apart
  rw [List.prefix_append_right_inj, List.prefix_append_right_inj]

/-- Below places that are not on one line everything is apart. -/
theorem Apart.append {r s : List Str} (h : Apart r s) (a b : List Str) : Apart (r ++ a) (s ++ b) := by
  refine ⟨fun hpre => ?_, fun hpre => ?_⟩
  · exact (List.prefix_or_prefix_of_prefix ((List.prefix_append r a).trans hpre) (List.prefix_append s b)).elim h.1 h.2
  · exact (List.prefix_or_prefix_of_prefix ((List.prefix_append s b).trans hpre) (List.prefix_append r a)).elim h.2 h.1

/-- Two places below roots `r` and `s`: either the roots are apart, or what is left of the longer root decides. -/
theorem apart_below {r s a b : List Str} :
    Apart (r ++ a) (s ++ b) ↔ (∀ d, s = r ++ d → Apart a (d ++ b)) ∧ (∀ d, r = s ++ d → Apart (d ++ a) b) := by
  constructor
  · intro h
    refine ⟨?_, ?_⟩
    · rintro d rfl
      rwa [List.append_assoc, apart_append] at h
    · rintro d rfl
      rwa [List.append_assoc, apart_append] at h
  · rintro ⟨hrs, hsr⟩
    by_cases h1 : r <+: s
    · obtain ⟨d, rfl⟩ := h1
      rw [List.append_assoc, apart_append]
      exact hrs d rfl
    · by_cases h2 : s <+: r
      · obtain ⟨d, rfl⟩ := h2
        rw [List.append_assoc, apart_append]
        exact hsr d rfl
      · exact Apart.append ⟨h1, h2⟩ a b

/-! ## The destinations of a fleet -/

section fleet
variable (home : Option Str) (BACKUP_ROOT : Str) (g : Defaults) (cwd : List Str)

/-- The source is enabled, the path policy of its host lets it through, and the host is no direct one. -/
def Copied (s : Host) (item : Source) : Prop :=
  s.backupDirect = false ∧ item ∈ s.sources ∧ item.enabled = true ∧ (validateBackupPath home item.source s.backupPathRules).isOk = true

/-- Where the host's backup root is: its own folder or the default one, below its own root or the default one. -/
def hostRoot (s : Host) : List Str :=
  PurePath.reach (PurePath.reach cwd (orElse s.backupDestRoot (orElse g.destRoot BACKUP_ROOT)))
    (orElse s.backupFolderName (orElse g.folderName (replaceSlash s.hostname)))

/-- Two sources that are not one and the same: of one host, or of hosts with different names. -/
def Different (s t : Host) (i j : Source) : Prop := s = t ∧ i.source ≠ j.source ∨ s.hostname ≠ t.hostname

/-- **Backups never overwrite each other**: destinations are strictly below their host's root, and apart. -/
def BackupsApart (fleet : List Host) : Prop :=
  (∀ s ∈ fleet, ∀ d ∈ runBackup home BACKUP_ROOT g s,
    (backupRootForServer BACKUP_ROOT g s).place cwd <+: d.2.place cwd ∧ (backupRootForServer BACKUP_ROOT g s).place cwd ≠ d.2.place cwd) ∧
  ∀ s ∈ fleet, ∀ t ∈ fleet, ∀ d ∈ runBackup home BACKUP_ROOT g s, ∀ e ∈ runBackup home BACKUP_ROOT g t,
    Different s t d.1 e.1 → Apart (d.2.place cwd) (e.2.place cwd)

/-- The name of the source leads from the host's root to `k` below it. -/
def OwnFolder (s : Host) (item : Source) (k : List Str) : Prop :=
  k ≠ [] ∧ PurePath.reach (hostRoot BACKUP_ROOT g cwd s) (destName item) = hostRoot BACKUP_ROOT g cwd s ++ k

/-- Every source has a folder of its own; those of one host are apart, and so are those of two hosts, as seen from
the upper one of their roots, if these are on one line. -/
structure NamesApart (fleet : List Host) : Prop where
  own : ∀ s ∈ fleet, ∀ i, Copied home s i → ∃ k, OwnFolder BACKUP_ROOT g cwd s i k
  oneHost : ∀ s ∈ fleet, ∀ i j, Copied home s i → Copied home s j → i.source ≠ j.source →
    ∀ k l, OwnFolder BACKUP_ROOT g cwd s i k → OwnFolder BACKUP_ROOT g cwd s j l → Apart k l
  twoHosts : ∀ s ∈ fleet, ∀ t ∈ fleet, s.hostname ≠ t.hostname → ∀ i j, Copied home s i → Copied home t j →
    ∀ k l, OwnFolder BACKUP_ROOT g cwd s i k → OwnFolder BACKUP_ROOT g cwd t j l →
      ∀ d, hostRoot BACKUP_ROOT g cwd t = hostRoot BACKUP_ROOT g cwd s ++ d → Apart k (d ++ l)

theorem place_backupRoot (s : Host) : (backupRootForServer BACKUP_ROOT g s).place cwd = hostRoot BACKUP_ROOT g cwd s := by
  unfold backupRootForServer hostRoot
  simp only
  rw [PurePath.place_join, PurePath.place_ofStr]

theorem mem_runBackup {s : Host} {d : Source × PurePath} :
    d ∈ runBackup home BACKUP_ROOT g s ↔ Copied home s d.1 ∧ d.2 = (backupRootForServer BACKUP_ROOT g s).join (destName d.1) := by
  unfold runBackup Copied
  by_cases hdirect : s.backupDirect = true
  · rw [hdirect]
    exact iff_of_false List.not_mem_nil fun h => Bool.noConfusion h.1.1
  · rw [Bool.not_eq_true] at hdirect
    rw [hdirect]
    simp only [Bool.false_eq_true, if_false, List.mem_map, List.mem_filter]
    constructor
    · rintro ⟨item, ⟨⟨hmem, hok⟩, hen⟩, rfl⟩
      exact ⟨⟨trivial, hmem, hen, hok⟩, rfl⟩
    · rintro ⟨⟨-, hmem, hen, hok⟩, hd⟩
      exact ⟨d.1, ⟨⟨hmem, hok⟩, hen⟩, Prod.ext rfl hd.symm⟩

theorem place_dest {s : Host} {d : Source × PurePath} (h : d ∈ runBackup home BACKUP_ROOT g s) :
    d.2.place cwd = PurePath.reach (hostRoot BACKUP_ROOT g cwd s) (destName d.1) := by
  rw [((mem_runBackup home BACKUP_ROOT g).1 h).2, PurePath.place_join, place_backupRoot]

theorem copied_mem {s : Host} {item : Source} (h : Copied home s item) :
    (item, (backupRootForServer BACKUP_ROOT g s).join (destName item)) ∈ runBackup home BACKUP_ROOT g s :=
  (mem_runBackup home BACKUP_ROOT g).2 ⟨h, rfl⟩

end fleet

end PiHerder.Backup
