import PiHerder.Lib.PurePath

/-!
# Data files in a config archive

Restoring an archive writes its `data/` members under `DATA_ROOT` (`services/herder_backup.py`), with one loop for an
archive that holds a database dump and one for an archive that holds JSON. Reading a member and writing a file are
the outside: `extractfile`, `mkdir` and `copy` of an `Outside`.

| here | there |
| --- | --- |
| `relOf` | the name behind `data/`, with `/` for each backslash |
| `extract` | the two loops: `skips` is what each leaves out |
| `restoreAvatarsFromTar` | `_restore_avatars_from_tar` (1105–1127) |
| `restoreDataMembers` | the loop behind `restore_pg_dump` (1239–1254) |
| `restoreHerderBackup` | which of the two `restore_herder_backup` runs; `restored` tells that the database part got through |
-/
namespace PiHerder.Backup
open Lib Lib.Str

/-! ## The code -/

inductive MemberKind
  | file
  | dir
  | other
deriving DecidableEq, Repr

/-- A `TarInfo`. -/
structure Member where
  name : Str
  kind : MemberKind
deriving DecidableEq, Repr

/-- The archive's contents and the file system. `extractfile` raises for a link whose target is missing, and has
nothing for a device; the others raise where the file system refuses. -/
structure Outside (σ β : Type) where
  extractfile : Member → Except Unit (Option β)
  mkdir : σ → PurePath → Option σ
  copy : σ → PurePath → β → Option σ

def relOf (m : Member) : Option Str :=
  let name := m.name.map fun c => if c = '\\' then '/' else c
  if startsWith (lit "data/") name then some (name.drop (lit "data/").length) else none

def parent (p : PurePath) : PurePath := ⟨p.root, p.parts.dropLast⟩

/-- The members written, by their names behind `data/`, each with its file. -/
def extract {σ β : Type} (out : Outside σ β) (skips : Member → Str → Bool) (dataRoot : PurePath) : σ → List Member → List (Str × PurePath)
  | _, [] => []
  | fs, m :: ms =>
    match relOf m with
    | none => extract out skips dataRoot fs ms
    | some rel =>
      if skips m rel || (split '/' rel).any (· = lit "..") then extract out skips dataRoot fs ms
      else
        let dest := dataRoot.join rel
        match out.mkdir fs (parent dest) with
        | none => []
        | some fs =>
          match out.extractfile m with
          | .error _ => []
          | .ok none => extract out skips dataRoot fs ms
          | .ok (some f) =>
            match out.copy fs dest f with
            | none => []
            | some fs => (rel, dest) :: extract out skips dataRoot fs ms

section
variable {σ β : Type} (out : Outside σ β)

def restoreAvatarsFromTar (dataRoot : PurePath) (fs : σ) (members : List Member) : List (Str × PurePath) :=
  match out.mkdir fs dataRoot with
  | none => []
  | some fs => extract out (fun m _ => m.kind = .dir) dataRoot fs members

def restoreDataMembers (dataRoot : PurePath) (fs : σ) (members : List Member) : List (Str × PurePath) :=
  extract out (fun m rel => m.kind ≠ .file || rel.isEmpty) dataRoot fs members

def restoreHerderBackup (restored : Bool) (DATA_ROOT : Str) (fs : σ) (members : List Member) : List (Str × PurePath) :=
  let dataRoot := PurePath.ofStr (if DATA_ROOT = [] then lit "/data" else DATA_ROOT)
  if !restored then []
  else if members.any (·.name = lit "database.dump") then restoreDataMembers out dataRoot fs members
  else restoreAvatarsFromTar out dataRoot fs members

end

/-! ## Where the files are -/

/-- A relative text joined to `DATA_ROOT`, that leads below it. -/
def InDataRoot (dataRoot dest : PurePath) : Prop :=
  (∃ rel : Str, rooted rel = false ∧ dest = dataRoot.join rel) ∧ dataRoot.Below dest

/-- The text is no path of its own, or one that starts with the names of `DATA_ROOT`. -/
def Harmless (dataRoot : PurePath) (rel : Str) : Prop :=
  rooted rel = true → initialSlashes rel = dataRoot.root ∧ dataRoot.parts <+: folders rel

instance (dataRoot : PurePath) (rel : Str) : Decidable (Harmless dataRoot rel) := inferInstanceAs (Decidable (_ → _))

/-- **One member**: its file is in `DATA_ROOT` iff its name behind `data/` is harmless. -/
theorem inDataRoot_join {dataRoot : PurePath} {rel : Str} (hup : lit ".." ∉ split '/' rel) :
    InDataRoot dataRoot (dataRoot.join rel) ↔ Harmless dataRoot rel := by
  unfold InDataRoot Harmless
  by_cases hr : rooted rel = true
  · rw [PurePath.join_rooted hr, forall_prop_of_true hr]
    constructor
    · rintro ⟨⟨rel', hrel', heq⟩, -⟩
      rw [PurePath.join_relative hrel'] at heq
      obtain ⟨hroot, hparts⟩ := PurePath.mk.inj heq
      exact ⟨hroot, hparts ▸ List.prefix_append _ _⟩
    · rintro ⟨hroot, ks, hks⟩
      have hplain : ∀ k ∈ ks, Plain k ∧ '/' ∉ k := fun k hk => by
        have hmem : k ∈ folders rel := hks ▸ List.mem_append_right _ hk
        exact ⟨PurePath.plain_folders hup k hmem, notMem_of_mem_split (PurePath.mem_folders.1 hmem).1⟩
      have heq : PurePath.ofStr rel = dataRoot.join (join '/' ks) := by
        rw [PurePath.join_relative (PurePath.rooted_join hplain), PurePath.folders_join hplain, hks, ← hroot]
        rfl
      refine ⟨⟨_, PurePath.rooted_join hplain, heq⟩, ?_⟩
      rw [heq, PurePath.join_relative (PurePath.rooted_join hplain), PurePath.folders_join hplain]
      refine ⟨rfl, ?_⟩
      rw [PurePath.comps_append fun k hk => (hplain k hk).1]
      exact List.prefix_append _ _
  · rw [Bool.not_eq_true] at hr
    refine iff_of_true ⟨⟨rel, hr, rfl⟩, PurePath.below_join hr hup dataRoot⟩ fun h => ?_
    rw [hr] at h
    exact Bool.noConfusion h

section
variable {σ β : Type} {out : Outside σ β} {dataRoot : PurePath}

/-- What a loop writes does not lead up, and is where joining puts it. -/
theorem mem_extract {skips : Member → Str → Bool} {members : List Member} {fs : σ} {rel : Str} {dest : PurePath}
    (h : (rel, dest) ∈ extract out skips dataRoot fs members) : dest = dataRoot.join rel ∧ lit ".." ∉ split '/' rel := by
  induction members generalizing fs with
  | nil => cases h
  | cons m ms ih =>
    unfold extract at h
    cases hrel : relOf m with
    | none =>
      rw [hrel] at h
      exact ih h
    | some rel' =>
      rw [hrel] at h
      simp only at h
      split at h
      · exact ih h
      · rename_i hkeep
        split at h
        · cases h
        · split at h
          · cases h
          · exact ih h
          · split at h
            · cases h
            · rcases List.mem_cons.1 h with heq | h
              · obtain ⟨rfl, rfl⟩ := Prod.mk.inj heq
                refine ⟨rfl, fun hup => hkeep ?_⟩
                rw [Bool.or_eq_true, List.any_eq_true]
                exact Or.inr ⟨_, hup, decide_eq_true rfl⟩
              · exact ih h

theorem mem_restoreHerderBackup {restored : Bool} {DATA_ROOT : Str} {fs : σ} {members : List Member} {rel : Str} {dest : PurePath}
    (h : (rel, dest) ∈ restoreHerderBackup out restored DATA_ROOT fs members) :
    dest = (PurePath.ofStr (if DATA_ROOT = [] then lit "/data" else DATA_ROOT)).join rel ∧ lit ".." ∉ split '/' rel := by
  unfold restoreHerderBackup at h
  simp only at h
  split at h
  · cases h
  · split at h
    · exact mem_extract h
    · unfold restoreAvatarsFromTar at h
      split at h
      · cases h
      · exact mem_extract h

end

/-- **All data files are in `DATA_ROOT`** iff no member is written whose name goes on with a slash behind `data/`, unless
that name is itself a path in `DATA_ROOT`. -/
theorem restoreHerderBackup_inDataRoot_iff {σ β : Type} (out : Outside σ β) (restored : Bool) (DATA_ROOT : Str) (fs : σ)
    (members : List Member) :
    let dataRoot := PurePath.ofStr (if DATA_ROOT = [] then lit "/data" else DATA_ROOT)
    let written := restoreHerderBackup out restored DATA_ROOT fs members
    (∀ w ∈ written, InDataRoot dataRoot w.2) ↔ ∀ w ∈ written, Harmless dataRoot w.1 := by
  intro dataRoot written
  refine forall₂_congr fun w hw => ?_
  obtain ⟨hdest, hup⟩ := mem_restoreHerderBackup hw
  rw [hdest]
  exact inDataRoot_join hup

/-- **`data//etc/passwd` is written to `/etc/passwd`**, from either kind of archive. -/
theorem absolute_member_escapes :
    let out : Outside Unit Unit := ⟨fun _ => .ok (some ()), fun _ _ => some (), fun _ _ _ => some ()⟩
    let member : Member := ⟨lit "data//etc/passwd", .file⟩
    restoreHerderBackup out true (lit "/data") () [member] = [(lit "/etc/passwd", PurePath.ofStr (lit "/etc/passwd"))] ∧
      restoreHerderBackup out true (lit "/data") () [⟨lit "database.dump", .file⟩, member] =
        [(lit "/etc/passwd", PurePath.ofStr (lit "/etc/passwd"))] ∧
      ¬ (PurePath.ofStr (lit "/data")).Below (PurePath.ofStr (lit "/etc/passwd")) := by
  decide +kernel

end PiHerder.Backup
