import PiHerder.Backup.Direct

/-!
# Where a restore reads

A restore looks for a source's backup on the backup drive, or pulls it from a copy first (`services/backup_restore.py`).
It works both places out anew, from other fields than the backup and the copy used.

| here | there |
| --- | --- |
| `profileDestination` | `"destination"` of `get_backup_profiles_db` (54–80) |
| `restoreFolder` | `dest_path` of `restore_backup_source` (78–109); what the path policy refuses as an error |
| `sourceCopyRel`, `pulledRel` | `source_copy_rel` (65–71), and what `pull_rel` (`backup_replicate.py` 1567–1569) makes of it |
-/
namespace PiHerder.Backup
open Lib Lib.Str Lib.Selection Lib.Globs

/-! ## The code -/

section code
variable (home : Option Str) (BACKUP_ROOT : Str) (g : Defaults) (s : Host)

def profileFolder : Str :=
  let root := orElse s.backupDestRoot BACKUP_ROOT
  let folder := orElse s.backupFolderName (replaceSlash s.hostname)
  root ++ '/' :: folder

def profileDestination (item : Source) : Str := profileFolder BACKUP_ROOT s ++ '/' :: destName item

/-- The first entry of the profile list with this source, up to slashes at the end. -/
def profileOf (source : Str) : Option Source := s.sources.find? fun p => rstrip '/' p.source = rstrip '/' source

def restoreFolder (source : Str) : Except Str PurePath :=
  let source := strip source
  if source = [] then .error (lit "source path required")
  else
    match validateBackupPath home source s.backupPathRules with
    | .error reason => .error (lit "Path policy blocked restore target: " ++ reason)
    | .ok () =>
      match profileOf s source with
      | some p => .ok (PurePath.ofStr (profileDestination BACKUP_ROOT s p))
      | none => .ok ((backupRootForServer BACKUP_ROOT g s).join (orElse (some (PurePath.ofStr source).name) (lit "root")))

def sourceCopyRel (source : Str) : Str :=
  let name := orElse (some (PurePath.ofStr source).name) (lit "root")
  let folder := hostFolderName s
  if folder ≠ [] then folder ++ lit "/" ++ name else name

/-- The folder of the copy that is pulled; some are refused. -/
def pulledRel (source : Str) : Option Str :=
  let rel := rstrip '/' (lstrip '/' (strip (sourceCopyRel s (strip source))))
  if rel = [] ∨ lit ".." ∈ split '/' rel then none else some rel

end code

/-! ## The places -/

/-- **A restore reads what was written**: on the backup drive from where the backup went; and from a copy what copying
that folder wrote, or, for a direct host, what pushing the source wrote. -/
structure ReadsBack (home : Option Str) (BACKUP_ROOT : Str) (g : Defaults) (cwd : List Str) (s : Host) (item : Source) : Prop where
  drive : ∀ dest, (item, dest) ∈ runBackup home BACKUP_ROOT g s → ∀ folder, restoreFolder home BACKUP_ROOT g s item.source = .ok folder →
    folder.place cwd = dest.place cwd
  copy : ∀ dest, (item, dest) ∈ runBackup home BACKUP_ROOT g s → ∀ rel, pulledRel s item.source = some rel →
    ∀ r, dest.place cwd = PurePath.reach cwd (orElse (some BACKUP_ROOT) (lit "/backups")) ++ r → folders rel = r
  push : s.backupDirect = true → ∀ rel, pulledRel s item.source = some rel → PurePath.walk [] (copyBase s item) = folders rel

/-- A name that goes down from where it is joined. -/
def GoesDown (name : Str) : Prop := rooted name = false ∧ lit ".." ∉ split '/' name

instance (name : Str) : Decidable (GoesDown name) := inferInstanceAs (Decidable (_ ∧ _))

/-- The host's folder as the profile list has it, without the global defaults. -/
def listedRoot (BACKUP_ROOT : Str) (cwd : List Str) (s : Host) : List Str := PurePath.reach cwd (profileFolder BACKUP_ROOT s)

/-- The name that the restore goes on with: that of the first entry with this source. -/
def listedName (s : Host) (source : Str) : Option Str := (profileOf s (strip source)).map destName

/-- The overrides and defaults that the four places read agree: for a copied source, the host's folder is the same with
and without the defaults, and the names are; and below the backup drive the folder and the name are those that the
copy path has. -/
structure SettingsAgree (home : Option Str) (BACKUP_ROOT : Str) (g : Defaults) (cwd : List Str) (s : Host) (item : Source) : Prop where
  listed : Copied home s item → strip item.source ≠ [] → ∀ name, listedName s item.source = some name →
    (GoesDown (destName item) ∧ name = destName item → listedRoot BACKUP_ROOT cwd s = hostRoot BACKUP_ROOT g cwd s) ∧
      (¬ (GoesDown (destName item) ∧ name = destName item) →
        PurePath.walk (listedRoot BACKUP_ROOT cwd s) name = PurePath.reach (hostRoot BACKUP_ROOT g cwd s) (destName item))
  unlisted : Copied home s item → strip item.source ≠ [] → listedName s item.source = none →
    PurePath.reach (hostRoot BACKUP_ROOT g cwd s) (orElse (some (PurePath.ofStr (strip item.source)).name) (lit "root")) =
      PurePath.reach (hostRoot BACKUP_ROOT g cwd s) (destName item)
  copied : Copied home s item → ∀ rel, pulledRel s item.source = some rel →
    ∀ r, PurePath.reach (hostRoot BACKUP_ROOT g cwd s) (destName item) = PurePath.reach cwd (orElse (some BACKUP_ROOT) (lit "/backups")) ++ r →
      folders rel = r
  pushed : s.backupDirect = true → ∀ rel, pulledRel s item.source = some rel →
    (GoesDown (destName item) → PurePath.walk [] (hostFolderName s) ++ folders (destName item) = folders rel) ∧
      (¬ GoesDown (destName item) → PurePath.walk [] (copyBase s item) = folders rel)

section places
variable {home : Option Str} {BACKUP_ROOT : Str} {g : Defaults} {cwd : List Str} {s : Host} {item : Source}

theorem place_profile (p : Source) :
    (PurePath.ofStr (profileDestination BACKUP_ROOT s p)).place cwd = PurePath.walk (listedRoot BACKUP_ROOT cwd s) (destName p) := by
  have hne : profileFolder BACKUP_ROOT s ≠ [] := by
    unfold profileFolder
    simp
  rw [PurePath.place_ofStr]
  unfold profileDestination listedRoot PurePath.reach
  rw [rooted_append hne, PurePath.walk_append]

/-- Where the restore reads. -/
theorem restoreFolder_place {folder : PurePath} (h : restoreFolder home BACKUP_ROOT g s item.source = .ok folder) :
    folder.place cwd = match listedName s item.source with
      | some name => PurePath.walk (listedRoot BACKUP_ROOT cwd s) name
      | none => PurePath.reach (hostRoot BACKUP_ROOT g cwd s) (orElse (some (PurePath.ofStr (strip item.source)).name) (lit "root")) := by
  unfold restoreFolder at h
  simp only at h
  unfold listedName
  split at h
  · cases h
  · split at h
    · cases h
    · split at h
      · rename_i p hp
        obtain rfl := Except.ok.inj h
        rw [hp, place_profile]
        rfl
      · rename_i hp
        obtain rfl := Except.ok.inj h
        rw [hp, PurePath.place_join, place_backupRoot]
        rfl

/-- A source that is copied is not refused, when it is not blank. -/
theorem restoreFolder_ok (h : Copied home s item) (hne : strip item.source ≠ []) :
    ∃ folder, restoreFolder home BACKUP_ROOT g s item.source = .ok folder := by
  have hval : validateBackupPath home (strip item.source) s.backupPathRules = validateBackupPath home item.source s.backupPathRules := by
    unfold validateBackupPath
    simp only [strip_strip]
  have hok := h.2.2.2
  unfold restoreFolder
  simp only
  rw [if_neg hne, hval]
  cases hv : validateBackupPath home item.source s.backupPathRules with
  | error e =>
    rw [hv] at hok
    exact Bool.noConfusion hok
  | ok u =>
    simp only
    split
    · exact ⟨_, rfl⟩
    · exact ⟨_, rfl⟩

theorem walk_copyBase (h : GoesDown (destName item)) :
    PurePath.walk [] (copyBase s item) = PurePath.walk [] (hostFolderName s) ++ folders (destName item) := by
  have hdown : ∀ r, PurePath.walk r (destName item) = r ++ folders (destName item) := PurePath.walk_down h.2
  unfold copyBase
  simp only
  by_cases hne : hostFolderName s ≠ []
  · rw [if_pos hne, List.append_assoc, show lit "/" ++ destName item = '/' :: destName item from rfl, PurePath.walk_append, hdown]
  · rw [if_neg hne, hdown, not_not.1 hne]
    rfl

/-- With one name that goes down on both sides the host folders decide. -/
theorem walk_eq_reach_iff {r t : List Str} {name : Str} (h : GoesDown name) :
    PurePath.walk r name = PurePath.reach t name ↔ r = t := by
  unfold PurePath.reach
  rw [h.1, if_neg Bool.false_ne_true, PurePath.walk_down h.2, PurePath.walk_down h.2, List.append_left_inj]

end places

end PiHerder.Backup
