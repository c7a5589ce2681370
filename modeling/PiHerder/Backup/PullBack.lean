import PiHerder.Backup.Replicate
import PiHerder.Lib.Path

/-!
# A copy pulled back

`rclone sync` up leaves out what the selection skips; `rclone sync` down has no such filter.

| here | there |
| --- | --- |
| `rclonePullCmd` | `rclone_pull_cmd` (`backup_replicate.py` 254–275) |
| `executeItem`, `executeCopy` | the loop of `execute` (1470–1487) and of `_execute_smb`; an exception ends it |
| `pulledPlace`, `pullRel` | `pull_rel` (1554–1608): its checks, and what it leaves of the files |
| `dryRunFlag`, `rcloneSynced`, `rclonePulled` | **rclone**: its flags, and what a sync leaves of the files of its target |

The drive is a folder, the copy a set of files; each file is the path to it. `herder` says which checked paths `_take_direct`
leaves to this machine, and `hasDir` that the copy has the pulled folder although no file of it.
-/
namespace PiHerder.Backup
open Lib Lib.Str Lib.Selection Lib.Globs

/-! ## rclone -/

/-- What a sync leaves: what it transfers, and what its patterns keep it from. A pattern that is refused ends it. -/
def rcloneSynced (g : Glob) (argv : List Str) (source : Folder) (target : List (List Str)) : List (List Str) :=
  if (excludeFlags argv).all g.valid then rcloneSync g argv source ++ target.filter (excludesFile g (excludeFlags argv)) else target

/-- `--dry-run`, which may be the value of no other flag. -/
def dryRunFlag : List Str → Bool
  | arg :: value :: rest =>
    if arg = lit "--config" ∨ arg = lit "--stats" then dryRunFlag rest else arg == lit "--dry-run" || dryRunFlag (value :: rest)
  | [arg] => arg == lit "--dry-run"
  | [] => false

def rclonePulled (g : Glob) (argv : List Str) (source target : List (List Str)) : List (List Str) :=
  if dryRunFlag argv then target
  else if (excludeFlags argv).all g.valid then
    (source.filter fun f => !excludesFile g (excludeFlags argv) f) ++ target.filter (excludesFile g (excludeFlags argv))
  else target

/-! ## The code -/

def rclonePullCmd (configPath localDir remotePath : Str) (dryRun : Bool) : List Str :=
  [lit "rclone", lit "sync", REMOTE_NAME ++ lit ":" ++ remotePath, localDir, lit "--config", configPath,
    lit "--stats-one-line", lit "--stats", lit "0"] ++ if dryRun then [lit "--dry-run"] else []

/-- The files below a path, as seen from there. -/
def filesBelow (path : List Str) (files : List (List Str)) : List (List Str) :=
  files.filterMap fun f => if path <+: f then some (f.drop path.length) else none

/-- The files with those below a path replaced. -/
def replaceBelow (path : List Str) (files new : List (List Str)) : List (List Str) :=
  (files.filter fun f => decide (¬ path <+: f)) ++ new.map (path ++ ·)

/-- Where a copy goes, and how. -/
structure CopyConfig where
  root : Str
  remoteRoot : Str
  configPath : Str
  useTrash : Bool
  rooted : startsWith (lit "/") root = true

section code
variable (g : Glob) (cfg : CopyConfig) (drive : Folder)

/-- One round of the loop; `none` where `resolve_under_root` raises. -/
def executeItem (remote : List (List Str)) (item : Str × List Str × Bool) : Option (List (List Str)) :=
  match cleanRel item.1 with
  | .error _ => none
  | .ok cleaned =>
    let far := split '/' item.1
    if folders cleaned ∈ drive.files then some (if far ∈ remote then remote else remote ++ [far])
    else if drive.isDir (folders cleaned) = false then some remote
    else
      let argv := rcloneSyncCmd cfg.configPath (cfg.root ++ '/' :: cleaned) (cfg.remoteRoot ++ '/' :: item.1) item.2.1 cfg.useTrash
      some (replaceBelow far remote (rcloneSynced g argv (drive.inside (folders cleaned)) (filesBelow far remote)))

def executeCopy : List (Str × List Str × Bool) → List (List Str) → List (List Str)
  | [], remote => remote
  | item :: rest, remote =>
    match executeItem g cfg drive remote item with
    | none => remote
    | some remote => executeCopy rest remote

/-- The folder as it is asked for and as it is cleaned to, where it is selected. -/
def pulledPlace (checked skipped : List Str) (rel : Str) : Option (Str × Str) :=
  let cleaned := rstrip '/' (lstrip '/' (strip rel))
  if cleaned = [] ∨ lit ".." ∈ split '/' cleaned then none
  else match pathIncluded cleaned checked skipped, cleanRel cleaned with
    | .ok true, .ok r => some (cleaned, r)
    | _, _ => none

/-- The files of the drive after a pull. `rclone` stops where the copy does not have the folder. -/
def pullRel (checked skipped : List Str) (rel : Str) (dryRun : Bool) (localDir : Option (List Str)) (hasDir : Bool)
    (remote files : List (List Str)) : List (List Str) :=
  match pulledPlace checked skipped rel with
  | none => files
  | some (far, r) =>
    let place := localDir.getD (folders r)
    let source := filesBelow (folders far) remote
    if hasDir = false ∧ source = [] then files
    else
      let argv := rclonePullCmd cfg.configPath (cfg.root ++ '/' :: join '/' place) (cfg.remoteRoot ++ '/' :: far) dryRun
      replaceBelow place files (rclonePulled g argv source (filesBelow place files))

end code

/-! ## What the copy has -/

/-- The patterns that keep files of a checked folder out of the copy. -/
def patternsOf (skipped : List Str) (c : Str) : List Str :=
  ((skipped.filter (startsWith (rstrip '/' c ++ lit "/"))).map fun skip => skip.drop (rstrip '/' c ++ lit "/").length).filterMap excludeArg

/-- The checked paths that are copied before one raises. -/
def ran (herder : Str → Bool) (checked : List Str) : List Str := (checked.filter herder).takeWhile fun c => (cleanRel c).isOk

/-- Where a checked path is on the drive. -/
def placeOf (c : Str) : List Str :=
  match cleanRel c with
  | .ok cleaned => folders cleaned
  | .error _ => []

/-- The copy has the file `u` of a checked path, if it had it before (`was`): a file is copied, and of a folder what no
pattern matches; what is matched stays as it was. -/
def ItemHas (g : Glob) (drive : Folder) (skipped : List Str) (c : Str) (u : List Str) (was : Prop) : Prop :=
  if placeOf c ∈ drive.files then was ∨ u = []
  else if drive.isDir (placeOf c) = false ∨ ¬ ∀ p ∈ patternsOf skipped c, g.valid p = true then was
  else if excludesFile g (patternsOf skipped c) u = true then was
  else u ∈ (drive.inside (placeOf c)).files

instance {g : Glob} {drive : Folder} {skipped : List Str} {c : Str} {u : List Str} {was : Prop} [Decidable was] :
    Decidable (ItemHas g drive skipped c u was) :=
  inferInstanceAs (Decidable (if placeOf c ∈ drive.files then was ∨ u = []
    else if drive.isDir (placeOf c) = false ∨ ¬ ∀ p ∈ patternsOf skipped c, g.valid p = true then was
    else if excludesFile g (patternsOf skipped c) u = true then was else u ∈ (drive.inside (placeOf c)).files))

/-- The copy has the file: by the checked path above it, or from before. -/
def CopyHas (g : Glob) (drive : Folder) (skipped : List Str) (old : List (List Str)) (cs : List Str) (f : List Str) : Prop :=
  match cs.find? fun c => decide (split '/' c <+: f) with
  | some c => ItemHas g drive skipped c (f.drop (split '/' c).length) (f ∈ old)
  | none => f ∈ old

section has
variable {g : Glob} {cfg : CopyConfig} {drive : Folder} {C S : List Str} {path f u : List Str} {files new remote old : List (List Str)} {c : Str}

theorem mem_filesBelow : u ∈ filesBelow path files ↔ path ++ u ∈ files := by
  unfold filesBelow
  rw [List.mem_filterMap]
  constructor
  · rintro ⟨f, hf, heq⟩
    split at heq
    · rename_i hpre
      obtain ⟨v, rfl⟩ := hpre
      rw [List.drop_left] at heq
      exact Option.some.inj heq ▸ hf
    · cases heq
  · intro h
    exact ⟨_, h, by rw [if_pos (List.prefix_append path u), List.drop_left]⟩

theorem mem_replaceBelow : f ∈ replaceBelow path files new ↔ if path <+: f then f.drop path.length ∈ new else f ∈ files := by
  unfold replaceBelow
  rw [List.mem_append, List.mem_filter, List.mem_map, decide_eq_true_eq]
  by_cases hpre : path <+: f
  · rw [if_pos hpre]
    obtain ⟨v, rfl⟩ := hpre
    rw [List.drop_left]
    constructor
    · rintro (⟨-, h⟩ | ⟨w, hw, heq⟩)
      · exact absurd (List.prefix_append path v) h
      · exact List.append_cancel_left heq ▸ hw
    · exact fun h => Or.inr ⟨v, h, rfl⟩
  · rw [if_neg hpre]
    constructor
    · rintro (⟨h, -⟩ | ⟨w, -, rfl⟩)
      · exact h
      · exact absurd (List.prefix_append path w) hpre
    · exact fun h => Or.inl ⟨h, hpre⟩

theorem ItemHas.idem {was : Prop} : ItemHas g drive S c u (ItemHas g drive S c u was) ↔ ItemHas g drive S c u was := by
  unfold ItemHas
  split_ifs <;> simp

theorem syncPlan_eq (C S : List Str) : syncPlan C S = C.map fun c =>
    (c, (S.filter (startsWith (rstrip '/' c ++ lit "/"))).map fun skip => skip.drop (rstrip '/' c ++ lit "/").length, true) := rfl

theorem placeOf_ok {cleaned : Str} (h : cleanRel c = .ok cleaned) : placeOf c = folders cleaned := by
  unfold placeOf
  rw [h]

/-- **What one round leaves of the copy.** -/
theorem mem_executeItem (hg : g.Documented) {cleaned : Str} (hclean : cleanRel c = .ok cleaned) :
    ∃ remote', executeItem g cfg drive remote (c, (S.filter (startsWith (rstrip '/' c ++ lit "/"))).map
        (fun skip => skip.drop (rstrip '/' c ++ lit "/").length), true) = some remote' ∧
      (∀ u, split '/' c ++ u ∈ remote' ↔ ItemHas g drive S c u (split '/' c ++ u ∈ remote)) ∧
      ∀ f, ¬ split '/' c <+: f → (f ∈ remote' ↔ f ∈ remote) := by
  unfold executeItem ItemHas
  simp only [hclean, placeOf_ok hclean]
  by_cases hfile : folders cleaned ∈ drive.files
  · simp only [if_pos hfile]
    refine ⟨_, rfl, fun u => ?_, fun f hf => ?_⟩
    · by_cases hin : split '/' c ∈ remote
      · rw [if_pos hin]
        exact ⟨Or.inl, fun h => h.elim id fun hu => by rwa [hu, List.append_nil]⟩
      · rw [if_neg hin, List.mem_append, List.mem_singleton, List.append_right_eq_self]
    · by_cases hin : split '/' c ∈ remote
      · rw [if_pos hin]
      · rw [if_neg hin, List.mem_append, List.mem_singleton]
        exact or_iff_left fun heq => hf (heq ▸ List.prefix_refl _)
  · rw [if_neg hfile]
    simp only [if_neg hfile]
    by_cases hdir : drive.isDir (folders cleaned) = false
    · simp only [if_pos hdir, if_pos (Or.inl hdir)]
      exact ⟨_, rfl, fun u => Iff.rfl, fun f _ => Iff.rfl⟩
    · rw [if_neg hdir]
      have hlocal : startsWith (lit "/") (cfg.root ++ '/' :: cleaned) = true :=
        List.isPrefixOf_iff_prefix.2 ((List.isPrefixOf_iff_prefix.1 cfg.rooted).trans (List.prefix_append _ _))
      have hflags : excludeFlags (rcloneSyncCmd cfg.configPath (cfg.root ++ '/' :: cleaned) (cfg.remoteRoot ++ '/' :: c)
          ((S.filter (startsWith (rstrip '/' c ++ lit "/"))).map fun skip => skip.drop (rstrip '/' c ++ lit "/").length) cfg.useTrash) =
            patternsOf S c := excludeFlags_cmd hlocal _ _ _ _
      refine ⟨_, rfl, fun u => ?_, fun f hf => ?_⟩
      · rw [mem_replaceBelow, if_pos (List.prefix_append _ _), List.drop_left]
        unfold rcloneSynced rcloneSync
        rw [hflags]
        by_cases hv : ∀ p ∈ patternsOf S c, g.valid p = true
        · rw [if_pos (List.all_eq_true.2 hv), if_neg (by rw [not_or, not_not]; exact ⟨hdir, hv⟩), List.mem_append, mem_copied hg, List.mem_filter,
            mem_filesBelow]
          by_cases hex : excludesFile g (patternsOf S c) u = true
          · rw [if_pos hex]
            refine ⟨fun h => h.elim (fun h => ?_) fun h => h.1, fun h => Or.inr ⟨h, hex⟩⟩
            exact absurd (hex.symm.trans h.2.2) Bool.noConfusion
          · rw [if_neg hex]
            exact ⟨fun h => h.elim (fun h => h.1) fun h => absurd h.2 hex, fun h => Or.inl ⟨h, hv, by simpa using hex⟩⟩
        · rw [if_neg (fun h => hv (List.all_eq_true.1 h)), if_pos (Or.inr hv), mem_filesBelow]
      · rw [mem_replaceBelow, if_neg hf]

/-- **What `execute` leaves of the copy**, when no checked path is above another. -/
theorem mem_executeCopy (hg : g.Documented) : ∀ {cs : List Str} {old : List (List Str)},
    (∀ a ∈ cs, ∀ b ∈ cs, split '/' a <+: split '/' b → a = b) →
      ∀ f, f ∈ executeCopy g cfg drive (syncPlan cs S) old ↔ CopyHas g drive S old (cs.takeWhile fun c => (cleanRel c).isOk) f
  | [], old, _, f => Iff.rfl
  | c :: cs, old, hcs, f => by
    rw [syncPlan_eq, List.map_cons, ← syncPlan_eq]
    unfold executeCopy
    cases hclean : cleanRel c with
    | error e =>
      have hnone : ∀ item : List Str × Bool, executeItem g cfg drive old (c, item) = none := by
        intro item
        unfold executeItem
        simp only [hclean]
      rw [hnone, List.takeWhile_cons_of_neg (by rw [hclean]; exact Bool.noConfusion)]
      exact Iff.rfl
    | ok cleaned =>
      obtain ⟨remote', hitem, hin, hout⟩ := @mem_executeItem g cfg drive S old c hg cleaned hclean
      rw [hitem, List.takeWhile_cons_of_pos (by rw [hclean]; rfl)]
      simp only
      rw [mem_executeCopy hg (fun a ha b hb => hcs a (List.mem_cons_of_mem c ha) b (List.mem_cons_of_mem c hb))]
      unfold CopyHas
      by_cases habove : split '/' c <+: f
      · rw [List.find?_cons_of_pos (by simpa using habove)]
        obtain ⟨u, rfl⟩ := habove
        simp only [List.drop_left]
        cases hfind : (cs.takeWhile fun c => (cleanRel c).isOk).find? fun c' => decide (split '/' c' <+: split '/' c ++ u) with
        | none => exact hin u
        | some c' =>
          -- the same path twice
          have hmem := (List.takeWhile_prefix _).subset (List.mem_of_find?_eq_some hfind)
          have hpre : split '/' c' <+: split '/' c ++ u := by simpa using List.find?_some hfind
          have heq : c' = c := (List.prefix_or_prefix_of_prefix hpre (List.prefix_append _ u)).elim
            (hcs c' (List.mem_cons_of_mem c hmem) c List.mem_cons_self) fun h => (hcs c List.mem_cons_self c' (List.mem_cons_of_mem c hmem) h).symm
          rw [heq]
          simp only [List.drop_left, hin u]
          exact ItemHas.idem
      · rw [List.find?_cons_of_neg (by simpa using habove)]
        simp only [hout f habove]

end has

/-! ## What a pull keeps -/

/-- No skipped file of the drive goes, and a dry run changes nothing. -/
def PullKeeps (skipped : List Str) (files afterDry afterReal : List (List Str)) : Prop :=
  (∀ f, f ∈ afterDry ↔ f ∈ files) ∧ ∀ f ∈ files, (∃ k ∈ skipped, split '/' k <+: f) → f ∈ afterReal

section pull
variable {g : Glob} {cfg : CopyConfig} {drive : Folder} {C S : List Str} {path f place : List Str} {files remote old : List (List Str)}
  {rel far r : Str} {localDir : Option (List Str)} {hasDir : Bool}

theorem dryRunFlag_other {arg : Str} {rest : List Str} (hc : arg ≠ lit "--config") (hs : arg ≠ lit "--stats") (hd : arg ≠ lit "--dry-run") :
    dryRunFlag (arg :: rest) = dryRunFlag rest := by
  have hno : (arg == lit "--dry-run") = false := beq_eq_false_iff_ne.2 hd
  cases rest with
  | nil => rw [dryRunFlag, hno, dryRunFlag]
  | cons value rest => rw [dryRunFlag, if_neg fun h => h.elim hc hs, hno, Bool.false_or]

theorem dryRunFlag_value {arg value : Str} {rest : List Str} (h : arg = lit "--config" ∨ arg = lit "--stats") :
    dryRunFlag (arg :: value :: rest) = dryRunFlag rest := by
  rw [dryRunFlag, if_pos h]

/-- **The pull command has no exclude**, and the dry run flag where it is asked for. -/
theorem rclonePullCmd_flags {localDir : Str} (h : startsWith (lit "/") localDir = true) (configPath remotePath : Str) (dryRun : Bool) :
    excludeFlags (rclonePullCmd configPath localDir remotePath dryRun) = [] ∧
      dryRunFlag (rclonePullCmd configPath localDir remotePath dryRun) = dryRun := by
  have hlocal : ∀ flag : Str, flag.head? = some '-' → localDir ≠ flag := by
    rintro flag hflag rfl
    obtain ⟨t, rfl⟩ := List.isPrefixOf_iff_prefix.1 h
    exact absurd (Option.some.inj hflag) (by decide)
  have hremote : ∀ flag : Str, flag.head? = some '-' → REMOTE_NAME ++ lit ":" ++ remotePath ≠ flag := by
    rintro flag hflag rfl
    exact absurd (Option.some.inj hflag) (by decide)
  unfold rclonePullCmd
  simp only [List.cons_append, List.nil_append]
  constructor
  · rw [excludeFlags_other (by decide) (by decide) (by decide), excludeFlags_other (by decide) (by decide) (by decide),
      excludeFlags_other (hremote _ rfl) (hremote _ rfl) (hremote _ rfl),
      excludeFlags_other (hlocal _ rfl) (hlocal _ rfl) (hlocal _ rfl), excludeFlags, if_neg (by decide), if_pos (Or.inl rfl),
      excludeFlags_other (by decide) (by decide) (by decide), excludeFlags, if_neg (by decide), if_pos (Or.inr rfl)]
    cases dryRun with
    | true => rfl
    | false => rfl
  · rw [dryRunFlag_other (by decide) (by decide) (by decide), dryRunFlag_other (by decide) (by decide) (by decide),
      dryRunFlag_other (hremote _ rfl) (hremote _ rfl) (hremote _ rfl), dryRunFlag_other (hlocal _ rfl) (hlocal _ rfl) (hlocal _ rfl),
      dryRunFlag_value (Or.inl rfl), dryRunFlag_other (by decide) (by decide) (by decide), dryRunFlag_value (Or.inr rfl)]
    cases dryRun with
    | true => rfl
    | false => rfl

/-- Without a pattern the target becomes the source. -/
theorem mem_rclonePulled {argv : List Str} (h : excludeFlags argv = []) {source target : List (List Str)} :
    f ∈ rclonePulled g argv source target ↔ if dryRunFlag argv = true then f ∈ target else f ∈ source := by
  have hnone : ∀ f, excludesFile g [] f = false := fun _ => rfl
  unfold rclonePulled
  rw [h]
  by_cases hdry : dryRunFlag argv = true
  · rw [if_pos hdry, if_pos hdry]
  · rw [if_neg hdry, if_neg hdry, if_pos (show ([] : List Str).all g.valid = true from rfl), List.mem_append, List.mem_filter, List.mem_filter,
      hnone, Bool.not_false, and_iff_left rfl, or_iff_left fun h => Bool.noConfusion h.2]

/-- A pull of a place, without its checks. -/
theorem mem_pullRel (h : pulledPlace C S rel = some (far, r)) (dryRun : Bool) :
    f ∈ pullRel g cfg C S rel dryRun localDir hasDir remote files ↔
      if dryRun = true ∨ (hasDir = false ∧ filesBelow (folders far) remote = []) then f ∈ files
      else if localDir.getD (folders r) <+: f then folders far ++ f.drop (localDir.getD (folders r)).length ∈ remote else f ∈ files := by
  unfold pullRel
  rw [h]
  simp only
  generalize localDir.getD (folders r) = place
  by_cases hgone : hasDir = false ∧ filesBelow (folders far) remote = []
  · rw [if_pos hgone, if_pos (Or.inr hgone)]
  · have hlocal : startsWith (lit "/") (cfg.root ++ '/' :: join '/' place) = true :=
      List.isPrefixOf_iff_prefix.2 ((List.isPrefixOf_iff_prefix.1 cfg.rooted).trans (List.prefix_append _ _))
    obtain ⟨hexcludes, hdry⟩ := rclonePullCmd_flags hlocal cfg.configPath (cfg.remoteRoot ++ '/' :: far) dryRun
    rw [if_neg hgone, mem_replaceBelow, mem_rclonePulled hexcludes, hdry, mem_filesBelow, mem_filesBelow]
    simp only [or_iff_left hgone]
    by_cases hpre : place <+: f
    · rw [if_pos hpre, if_pos hpre]
      obtain ⟨u, rfl⟩ := hpre
      rw [List.drop_left]
    · rw [if_neg hpre, if_neg hpre, ite_self]

theorem pullKeeps_iff (hrel : pulledPlace C S rel = some (far, r)) :
    PullKeeps S files (pullRel g cfg C S rel true localDir hasDir remote files) (pullRel g cfg C S rel false localDir hasDir remote files) ↔
      (hasDir = false ∧ ∀ u, folders far ++ u ∉ remote) ∨
        ∀ u, localDir.getD (folders r) ++ u ∈ files → (∃ k ∈ S, split '/' k <+: localDir.getD (folders r) ++ u) → folders far ++ u ∈ remote := by
  have hempty : filesBelow (folders far) remote = [] ↔ ∀ u, folders far ++ u ∉ remote := by
    rw [List.eq_nil_iff_forall_not_mem]
    exact forall_congr' fun u => not_congr mem_filesBelow
  unfold PullKeeps
  rw [and_iff_right fun f => by rw [mem_pullRel hrel true, if_pos (Or.inl rfl)]]
  by_cases hgone : hasDir = false ∧ filesBelow (folders far) remote = []
  · refine iff_of_true (fun f hf _ => ?_) (Or.inl ⟨hgone.1, hempty.1 hgone.2⟩)
    rw [mem_pullRel hrel false, if_pos (Or.inr hgone)]
    exact hf
  · rw [or_iff_right fun h => hgone ⟨h.1, hempty.2 h.2⟩]
    have hafter : ∀ f, f ∈ pullRel g cfg C S rel false localDir hasDir remote files ↔
        if localDir.getD (folders r) <+: f then folders far ++ f.drop (localDir.getD (folders r)).length ∈ remote else f ∈ files := by
      intro f
      rw [mem_pullRel hrel false, if_neg fun h => h.elim Bool.noConfusion hgone]
    constructor
    · intro h u hu hskip
      have hin := (hafter _).1 (h _ hu hskip)
      rwa [if_pos (List.prefix_append _ u), List.drop_left] at hin
    · intro h f hf hskip
      rw [hafter]
      by_cases hpre : localDir.getD (folders r) <+: f
      · rw [if_pos hpre]
        obtain ⟨u, rfl⟩ := hpre
        rw [List.drop_left]
        exact h u hf hskip
      · rw [if_neg hpre]
        exact hf

/-- **A pull keeps what the selection skips** iff the copy has none of the folder, or has every skipped file below it that is on
the drive. -/
theorem pullRel_keeps_iff (hg : g.Documented) {checked skipped : List Str} (herder : Str → Bool)
    (hrel : pulledPlace (normalizeSelection checked skipped).1 (normalizeSelection checked skipped).2 rel = some (far, r)) :
    let sel := normalizeSelection checked skipped
    let place := localDir.getD (folders r)
    let copy := executeCopy g cfg drive (syncPlan (sel.1.filter herder) sel.2) old
    PullKeeps sel.2 files (pullRel g cfg sel.1 sel.2 rel true localDir hasDir copy files)
        (pullRel g cfg sel.1 sel.2 rel false localDir hasDir copy files) ↔
      (hasDir = false ∧ ∀ u, ¬ CopyHas g drive sel.2 old (ran herder sel.1) (folders far ++ u)) ∨
        ∀ u, place ++ u ∈ files → (∃ k ∈ sel.2, split '/' k <+: place ++ u) →
          CopyHas g drive sel.2 old (ran herder sel.1) (folders far ++ u) := by
  intro sel place copy
  have hapart : ∀ a ∈ sel.1.filter herder, ∀ b ∈ sel.1.filter herder, split '/' a <+: split '/' b → a = b := fun a ha b hb hab =>
    (normalizeSelection_canonical checked skipped).checkedApart a (List.mem_of_mem_filter ha) b (List.mem_of_mem_filter hb) (under_iff.2 hab)
  have hcopy : ∀ f, f ∈ copy ↔ CopyHas g drive sel.2 old (ran herder sel.1) f := mem_executeCopy hg hapart
  rw [pullKeeps_iff hrel]
  simp only [hcopy]
  rfl

end pull

/-- A machine's folder on the drive, with one folder in it that is skipped. -/
def piDrive : Folder :=
  .sub ⟨lit "pi", by decide⟩ (.sub ⟨lit "data", by decide⟩ (.file ⟨lit "x", by decide⟩ .empty) (.file ⟨lit "app", by decide⟩ .empty)) .empty

def toPiHerder : CopyConfig := ⟨lit "/backups", lit "PiHerder", lit "/tmp/ph.conf", true, by decide⟩

/-- What is skipped was copied before it was. -/
theorem pull_keeps_earlier :
    pulledPlace (normalizeSelection [lit "pi"] [lit "pi/data"]).1 (normalizeSelection [lit "pi"] [lit "pi/data"]).2 (lit "pi") = some (lit "pi", lit "pi") ∧
      let sel := normalizeSelection [lit "pi"] [lit "pi/data"]
      let copy := executeCopy Glob.plain toPiHerder piDrive (syncPlan (sel.1.filter fun _ => true) sel.2) [[lit "pi", lit "data", lit "x"]]
      PullKeeps sel.2 piDrive.files (pullRel Glob.plain toPiHerder sel.1 sel.2 (lit "pi") true none true copy piDrive.files)
        (pullRel Glob.plain toPiHerder sel.1 sel.2 (lit "pi") false none true copy piDrive.files) := by
  have hrel : pulledPlace (normalizeSelection [lit "pi"] [lit "pi/data"]).1 (normalizeSelection [lit "pi"] [lit "pi/data"]).2 (lit "pi") =
      some (lit "pi", lit "pi") := by decide +kernel
  refine ⟨hrel, (pullRel_keeps_iff Glob.plain_documented (fun _ => true) hrel).2 (Or.inr fun u hu hskip => ?_)⟩
  have hskips : (normalizeSelection [lit "pi"] [lit "pi/data"]).2 = [lit "pi/data"] := by decide +kernel
  have hplace : folders (lit "pi") = [lit "pi"] := by decide +kernel
  have hfiles : piDrive.files = [[lit "pi", lit "data", lit "x"], [lit "pi", lit "app"]] := by decide +kernel
  obtain ⟨k, hk, hpre⟩ := hskip
  rw [hskips] at hk
  obtain rfl := List.mem_singleton.1 hk
  rw [hfiles, Option.getD_none, hplace] at hu
  rw [hplace]
  rw [Option.getD_none, hplace] at hpre
  rcases List.mem_cons.1 hu with heq | hu
  · obtain rfl : u = [lit "data", lit "x"] := (List.cons.inj heq).2
    have hfind : (ran (fun _ => true) (normalizeSelection [lit "pi"] [lit "pi/data"]).1).find? (fun c =>
        decide (split '/' c <+: [lit "pi"] ++ [lit "data", lit "x"])) = some (lit "pi") := by decide +kernel
    unfold CopyHas
    rw [hfind]
    decide +kernel
  · rw [List.mem_singleton.1 hu] at hpre
    exact absurd hpre (by decide)

/-- **Skipped, so not in the copy, so deleted** by a pull of the folder above it. -/
theorem pull_deletes_skipped :
    let sel := normalizeSelection [lit "pi"] [lit "pi/data"]
    let copy := executeCopy Glob.plain toPiHerder piDrive (syncPlan (sel.1.filter fun _ => true) sel.2) []
    pathIncluded (lit "pi") sel.1 sel.2 = .ok true ∧ [lit "pi", lit "data", lit "x"] ∈ piDrive.files ∧
      pullRel Glob.plain toPiHerder sel.1 sel.2 (lit "pi") false none true copy piDrive.files = [[lit "pi", lit "app"]] ∧
      ¬ PullKeeps sel.2 piDrive.files (pullRel Glob.plain toPiHerder sel.1 sel.2 (lit "pi") true none true copy piDrive.files)
        (pullRel Glob.plain toPiHerder sel.1 sel.2 (lit "pi") false none true copy piDrive.files) := by
  intro sel copy
  have hafter : pullRel Glob.plain toPiHerder sel.1 sel.2 (lit "pi") false none true copy piDrive.files = [[lit "pi", lit "app"]] := by decide +kernel
  refine ⟨by decide +kernel, by decide +kernel, hafter, fun h => ?_⟩
  have hin := h.2 [lit "pi", lit "data", lit "x"] (by decide +kernel) ⟨lit "pi/data", by decide +kernel, by decide +kernel⟩
  rw [hafter] at hin
  exact absurd hin (by decide)

end PiHerder.Backup
