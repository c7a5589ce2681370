import PiHerder.Files.Browse
import PiHerder.Files.Unzip

/-!
# Zipping on the host

| here | there |
| --- | --- |
| `walkFiles` | `_walk_files` (1391–1437) |
| `zipBasename` | `zip_basename` (1440–1450) |
| `zipOnHost` | `zip_on_host` up to the list it writes (1600–1660) |
| `zipPyReads` | the loop of `_ZIP_PY` (1586–1597) |

The list has one path on a line, and it is read in text mode and stripped: a name may hold a newline, and may begin or end
with a blank.
-/
namespace PiHerder.Files
open Lib Lib.Str Lib.FileTree

section Zip
variable (links : Nat) (w : Site) (t : Tree)

/-- A file or a folder that the walk gives. -/
structure Walked where
  arc : Str
  path : Str
deriving DecidableEq, Repr

/-- What is walked so far and how many files it has. -/
abbrev WalkedSoFar := List Walked × Nat

/-- The first argument is how many levels are left. -/
def walkFiles (jail : Str) : Nat → Str → Str → Nat → Except FilesError WalkedSoFar
  | 0, _, _, _ => .error ⟨.tooMany, lit "Folder is too deep to zip"⟩
  | level + 1, absPath, rel, budget => do
    let path ← w.assertInJail links t absPath
    let kind ← lstat links t path
    match ← followInJail links w t jail path kind with
    | none => pure ([], budget)
    | some (path, kind) =>
      if kind ≠ .dir then do
        raiseIf (ZIP_MEMBERS_MAX < budget + 1) ⟨.tooMany, lit "Zip is limited to " ++ ofNat ZIP_MEMBERS_MAX ++ lit " files"⟩
        pure ([⟨if rel ≠ [] then rel else basename path, path⟩], budget + 1)
      else do
        let names ← listdirNames links t path
        let folder : List Walked := if rel ≠ [] then [⟨rstrip '/' rel ++ lit "/", path⟩] else []
        (names.insertionSort fun a b => decide (a ≤ b)).foldlM (fun (out : WalkedSoFar) name => do
          let inside ← walkFiles jail level (posixNorm (posixJoin path name)) (if rel ≠ [] then rel ++ lit "/" ++ name else name) out.2
          pure (out.1 ++ inside.1, inside.2)) (folder, budget)

def zipBasename (suggested : Str) (names : List Str) : Except FilesError Str :=
  if strip suggested ≠ [] then do
    let base ← sanitizeBasename (strip suggested)
    pure (if endsWith (lit ".zip") (lower base) then base else base ++ lit ".zip")
  else
    match names with
    | [name] => (sanitizeBasename (if basename name = [] then lit "files" else basename name)).map (· ++ lit ".zip")
    | _ => pure (lit "files.zip")

/-- What is zipped: the paths of the files, and the list that names them. -/
structure ZipPlan where
  jail : Str
  destRel : Str
  files : List Str
  members : List Str
deriving DecidableEq, Repr

def ZipPlan.body (z : ZipPlan) : Str := join '\n' z.members ++ lit "\n"

/-- The files below one selected path. -/
def walkSelected (fname rel : Str) (out : WalkedSoFar) : Except FilesError WalkedSoFar :=
  if basename rel = fname then pure out
  else do
    let (jail, absPath) ← w.resolveLogical rel
    let inside ← walkFiles links w t jail (WALK_DEPTH_MAX + 1) absPath (if rel ≠ [] then basename rel else lit "files") out.2
    pure (out.1 ++ inside.1, inside.2)

def zipOnHost (rels : List Str) (destDir destName : Str) : Except FilesError ZipPlan := do
  let names := moveNames rels
  raiseIf (names = []) ⟨.invalid, lit "Nothing selected to zip"⟩
  let _ ← normalizeRole w.role
  let fname ← zipBasename destName names
  let (jail, destDirAbs) ← w.resolveLogical destDir
  let inner ← relOf destDirAbs jail
  let destDirAbs ← w.assertInJail links t destDirAbs
  raiseBlocked w (posixNorm (posixJoin destDirAbs fname)) jail
  let walked ← names.foldlM (fun out rel => walkSelected links w t fname rel out) ([], 0)
  let files := (walked.1.filter fun x => !endsWith (lit "/") x.arc).map (·.path)
  let members := files.filterMap fun path => (relOf path jail).toOption
  raiseIf (members = []) ⟨.invalid, lit "Nothing to zip"⟩
  pure ⟨jail, rstrip '/' (lstrip '/' (inner ++ lit "/" ++ fname)), files, members⟩

end Zip

/-! ## The list -/

/-- Text mode: every end of a line is a newline. -/
def universalNewlines : Str → Str
  | '\r' :: '\n' :: s => '\n' :: universalNewlines s
  | '\r' :: s => '\n' :: universalNewlines s
  | c :: s => c :: universalNewlines s
  | [] => []

/-- The paths that `_ZIP_PY` archives. -/
def zipPyReads (body : Str) : List Str := ((split '\n' (universalNewlines body)).map strip).filter fun p => decide (p ≠ [])

/-- A path that stands on a line of its own. -/
structure Line (m : Str) : Prop where
  someText : m ≠ []
  stripped : strip m = m
  noNewline : '\n' ∉ m
  noReturn : '\r' ∉ m

theorem universalNewlines_eq_self {s : Str} (h : '\r' ∉ s) : universalNewlines s = s := by
  fun_induction universalNewlines s with
  | case1 | case2 => exact absurd List.mem_cons_self h
  | case3 c s _ _ ih => rw [ih fun hs => h (List.mem_cons_of_mem _ hs)]
  | case4 => rfl

theorem notMem_universalNewlines (s : Str) : '\r' ∉ universalNewlines s := by
  fun_induction universalNewlines s with
  | case1 s ih | case2 s _ ih => exact fun h => (List.mem_cons.1 h).elim (by decide) ih
  | case3 c s _ hc ih => exact fun h => (List.mem_cons.1 h).elim (fun heq => hc heq.symm) ih
  | case4 => exact List.not_mem_nil

/-- What is read is a line, whatever was written. -/
theorem line_of_mem_reads {body m : Str} (h : m ∈ zipPyReads body) : Line m := by
  obtain ⟨hm, hne⟩ := List.mem_filter.1 h
  obtain ⟨l, hl, rfl⟩ := List.mem_map.1 hm
  exact ⟨of_decide_eq_true hne, strip_strip l, fun hc => notMem_of_mem_split hl (mem_of_mem_strip hc),
    fun hc => notMem_universalNewlines body (mem_of_mem_split hl (mem_of_mem_strip hc))⟩

/-- **The list is read back** when each of its paths is a line, and only then. -/
theorem zipPyReads_join {ms : List Str} : zipPyReads (join '\n' ms ++ lit "\n") = ms ↔ ∀ m ∈ ms, Line m := by
  constructor
  · intro h m hm
    rw [← h] at hm
    exact line_of_mem_reads hm
  · intro h
    have hret : '\r' ∉ join '\n' ms ++ lit "\n" := by
      intro hc
      rcases List.mem_append.1 hc with hc | hc
      · rcases mem_join hc with hc | ⟨m, hm, hc⟩
        · exact absurd hc (by decide)
        · exact (h m hm).noReturn hc
      · exact absurd hc (by decide)
    have hlines : ∀ c : List Str, c ≠ [] → (∀ m ∈ c, '\n' ∉ m) → split '\n' (join '\n' c ++ lit "\n") = c ++ [[]] := by
      intro c hne hc
      have hone : lit "\n" = '\n' :: [] := rfl
      rw [hone, split_append_cons, split_join hne hc]
      rfl
    have hstrip : ms.map strip = ms := (List.map_congr_left fun m hm => (h m hm).stripped).trans (List.map_id ms)
    have hkept : ms.filter (fun p => decide (p ≠ [])) = ms := List.filter_eq_self.2 fun m hm => decide_eq_true (h m hm).someText
    unfold zipPyReads
    rw [universalNewlines_eq_self hret]
    by_cases hne : ms = []
    · subst hne
      decide
    · rw [hlines ms hne fun m hm => (h m hm).noNewline, List.map_append, List.filter_append, hstrip, hkept]
      exact List.append_nil ms

/-! ## What is walked lies in the jail -/

section Walk
variable {links : Nat} {w : Site} {t : Tree}

def AllInJail (w : Site) (xs : List Walked) : Prop := ∀ x ∈ xs, InJail w x.path

theorem AllInJail.append {xs ys : List Walked} (hx : AllInJail w xs) (hy : AllInJail w ys) : AllInJail w (xs ++ ys) :=
  fun x hmem => (List.mem_append.1 hmem).elim (hx x) (hy x)

/-- **The walk stays in the jail**: at each level the path is resolved and checked again, and so is what a link leads to. -/
theorem walkFiles_inJail {jail : Str} (hjail : w.jailPath = .ok jail) : ∀ {level : Nat} {cs : List Name} {rel : Str} {budget : Nat} {out : WalkedSoFar},
    Clean cs → walkFiles links w t jail level (pathText cs) rel budget = .ok out → AllInJail w out.1 := by
  intro level
  induction level with
  | zero => exact fun _ h => by cases h
  | succ level ih =>
    intro cs rel budget out hcs h
    obtain ⟨path, hpath, h⟩ := except_bind_eq_ok.1 h
    obtain ⟨kind, -, h⟩ := except_bind_eq_ok.1 h
    obtain ⟨followed, hfollow, h⟩ := except_bind_eq_ok.1 h
    have hin := inJail_of_assert hcs hpath
    cases followed with
    | none =>
      obtain rfl := Except.ok.inj h
      exact fun x hx => absurd hx List.not_mem_nil
    | some p =>
      obtain ⟨path', kind'⟩ := p
      have hin' : InJail w path' := inJail_of_follow hjail hin hfollow
      simp only at h
      split at h
      · obtain ⟨_, -, h⟩ := except_bind_eq_ok.1 h
        obtain rfl := Except.ok.inj h
        exact fun x hx => List.mem_singleton.1 hx ▸ hin'
      · obtain ⟨names, -, h⟩ := except_bind_eq_ok.1 h
        refine except_foldlM_keeps (P := fun out => AllInJail w out.1) (fun name _ sofar out' hsofar hstep => ?_) ?_ h
        · obtain ⟨inside, hinside, hstep⟩ := except_bind_eq_ok.1 hstep
          obtain rfl := Except.ok.inj hstep
          obtain ⟨js, rest, -, rfl, -⟩ := hin'
          obtain ⟨ds, hds, hclean⟩ := posixNorm_abs (slash_posixJoin (b := name) (slash_pathText (js ++ rest)))
          rw [hds] at hinside
          exact hsofar.append (ih hclean hinside)
        · intro x hx
          split at hx
          · exact List.mem_singleton.1 hx ▸ hin'
          · exact absurd hx List.not_mem_nil

theorem walkSelected_inJail {fname rel : Str} {out out' : WalkedSoFar} (hout : AllInJail w out.1)
    (h : walkSelected links w t fname rel out = .ok out') : AllInJail w out'.1 := by
  unfold walkSelected at h
  split at h
  · obtain rfl := Except.ok.inj h
    exact hout
  · obtain ⟨⟨jail, absPath⟩, hres, h⟩ := except_bind_eq_ok.1 h
    obtain ⟨inside, hinside, h⟩ := except_bind_eq_ok.1 h
    obtain rfl := Except.ok.inj h
    obtain ⟨hjail, cs, rfl, hcs⟩ := resolveLogical_ok hres
    exact hout.append (walkFiles_inJail hjail hcs hinside)

/-! ## What is archived -/

/-- **The files that were walked are archived**, and so nothing outside the jail and nothing that was not selected. -/
structure ArchivesWalked (z : ZipPlan) : Prop where
  exact : (zipPyReads z.body).map Except.ok = z.files.map (relOf · z.jail)
  inside : ∀ m ∈ zipPyReads z.body, underJail (posixJoin z.jail m) z.jail = true ∧ posixJoin z.jail m ∈ z.files

/-- What the list is made of. -/
structure Listed (w : Site) (z : ZipPlan) : Prop where
  jail : w.jailPath = .ok z.jail
  files : ∀ path ∈ z.files, InJail w path
  members : z.members = z.files.filterMap fun path => (relOf path z.jail).toOption

theorem listed_of_ok {rels : List Str} {destDir destName : Str} {z : ZipPlan} (h : zipOnHost links w t rels destDir destName = .ok z) :
    Listed w z := by
  obtain ⟨_, -, h⟩ := except_bind_eq_ok.1 h
  obtain ⟨_, -, h⟩ := except_bind_eq_ok.1 h
  obtain ⟨fname, -, h⟩ := except_bind_eq_ok.1 h
  obtain ⟨⟨jail, dir⟩, hres, h⟩ := except_bind_eq_ok.1 h
  obtain ⟨inner, -, h⟩ := except_bind_eq_ok.1 h
  obtain ⟨_, -, h⟩ := except_bind_eq_ok.1 h
  obtain ⟨_, -, h⟩ := except_bind_eq_ok.1 h
  obtain ⟨walked, hwalked, h⟩ := except_bind_eq_ok.1 h
  obtain ⟨_, -, h⟩ := except_bind_eq_ok.1 h
  obtain rfl := Except.ok.inj h
  have hall : AllInJail w walked.1 := except_foldlM_keeps (P := fun out => AllInJail w out.1)
    (fun rel _ out out' hout hstep => walkSelected_inJail hout hstep) (fun x hx => absurd hx List.not_mem_nil) hwalked
  refine ⟨(resolveLogical_ok hres).1, fun path hpath => ?_, rfl⟩
  obtain ⟨x, hx, rfl⟩ := List.mem_map.1 hpath
  exact hall x (List.mem_filter.1 hx).1

section Plan
variable {z : ZipPlan} (h : Listed w z)
include h

theorem Listed.relOf_eq {path : Str} (hpath : path ∈ z.files) : ∃ js rest, z.jail = pathText js ∧ path = pathText (js ++ rest) ∧
    Clean (js ++ rest) ∧ relOf path z.jail = .ok (join '/' rest) := by
  obtain ⟨js, rest, hjs, rfl, hclean⟩ := h.files path hpath
  have hjail : z.jail = pathText js := Except.ok.inj (h.jail.symm.trans hjs)
  exact ⟨js, rest, hjail, rfl, hclean, hjail ▸ relOf_pathText hclean⟩

theorem Listed.members_eq : z.members.map Except.ok = z.files.map (relOf · z.jail) := by
  have hok : ∀ paths : List Str, (∀ path ∈ paths, path ∈ z.files) →
      (paths.filterMap fun path => (relOf path z.jail).toOption).map Except.ok = paths.map (relOf · z.jail) := by
    intro paths
    induction paths with
    | nil => exact fun _ => rfl
    | cons path paths ih =>
      intro hsub
      obtain ⟨js, rest, -, -, -, hrel⟩ := h.relOf_eq (hsub path List.mem_cons_self)
      rw [List.filterMap_cons, List.map_cons, hrel]
      exact congrArg _ (ih fun p hp => hsub p (List.mem_cons_of_mem _ hp))
  rw [h.members]
  exact hok z.files fun _ hp => hp

/-- A member leads back to its file. -/
theorem Listed.leads_back {m : Str} (hm : m ∈ z.members) (hne : m ≠ []) :
    underJail (posixJoin z.jail m) z.jail = true ∧ posixJoin z.jail m ∈ z.files := by
  have hmem : Except.ok m ∈ z.files.map (relOf · z.jail) := h.members_eq ▸ List.mem_map_of_mem hm
  obtain ⟨path, hpath, hrel⟩ := List.mem_map.1 hmem
  obtain ⟨js, rest, hjail, rfl, hclean, hrel'⟩ := h.relOf_eq hpath
  obtain rfl := Except.ok.inj (hrel'.symm.trans hrel)
  have hrest : rest ≠ [] := by
    rintro rfl
    exact hne rfl
  have hjs : Clean js := hclean.of_prefix (List.prefix_append js rest)
  have hback : posixJoin z.jail (join '/' rest) = pathText (js ++ rest) := by
    rw [hjail]
    exact posixJoin_join (fun x hx => ⟨(hjs x hx).1.1, (hjs x hx).2.1⟩) hrest
      (rooted_join_clean fun c hc => hclean c (List.mem_append_right _ hc))
  rw [hback, hjail]
  exact ⟨(underJail_iff hjs hclean).2 (List.prefix_append js rest), hpath⟩

theorem Listed.archivesWalked_iff : ArchivesWalked z ↔ ∀ path ∈ z.files, ∀ rel, relOf path z.jail = .ok rel → Line rel := by
  have hlines : (∀ path ∈ z.files, ∀ rel, relOf path z.jail = .ok rel → Line rel) ↔ ∀ m ∈ z.members, Line m := by
    constructor
    · intro hall m hm
      have hmem : Except.ok m ∈ z.files.map (relOf · z.jail) := h.members_eq ▸ List.mem_map_of_mem hm
      obtain ⟨path, hpath, hrel⟩ := List.mem_map.1 hmem
      exact hall path hpath m hrel
    · intro hall path hpath rel hrel
      have hmem : (.ok rel : Except FilesError Str) ∈ z.members.map Except.ok := by
        rw [h.members_eq, ← hrel]
        exact List.mem_map_of_mem hpath
      obtain ⟨m, hm, heq⟩ := List.mem_map.1 hmem
      exact Except.ok.inj heq ▸ hall m hm
  rw [hlines, ← zipPyReads_join]
  constructor
  · intro harch
    have hmap := harch.exact.trans h.members_eq.symm
    exact List.map_injective_iff.2 (fun _ _ heq => Except.ok.inj heq) hmap
  · intro hread
    refine ⟨(congrArg (List.map Except.ok) hread).trans h.members_eq, fun m hm => ?_⟩
    have hmem : m ∈ z.members := hread ▸ hm
    exact h.leads_back hmem (line_of_mem_reads hm).someText

end Plan

/-- **The archive has the files that were walked** when the path of each below the jail is a line, and only then. -/
theorem zipOnHost_archives_iff {rels : List Str} {destDir destName : Str} {z : ZipPlan}
    (h : zipOnHost links w t rels destDir destName = .ok z) :
    ArchivesWalked z ↔ ∀ path ∈ z.files, ∀ rel, relOf path z.jail = .ok rel → Line rel :=
  (listed_of_ok h).archivesWalked_iff

end Walk

/-- A folder with two files. -/
def someFolder : Tree where
  nodes := homeNodes [([lit "docs", lit "a b"], .other), ([lit "docs", lit "sub"], .dir), ([lit "docs", lit "sub", lit "c"], .other)]
  nodup := by decide
  legal := by decide

def someZip : ZipPlan :=
  ⟨lit "/home/pi", lit "docs.zip", [lit "/home/pi/docs/a b", lit "/home/pi/docs/sub/c"], [lit "docs/a b", lit "docs/sub/c"]⟩

theorem someZip_archives : ArchivesWalked someZip := by
  have hok : zipOnHost 40 piHome someFolder [lit "docs"] [] [] = .ok someZip := by decide +kernel
  refine (zipOnHost_archives_iff hok).2 fun path hpath rel hrel => ?_
  have hall : ∀ path ∈ someZip.files, ∃ m ∈ [lit "docs/a b", lit "docs/sub/c"], relOf path someZip.jail = .ok m := by decide +kernel
  obtain ⟨m, hm, hrel'⟩ := hall path hpath
  obtain rfl := Except.ok.inj (hrel.symm.trans hrel')
  have hlines : ∀ m ∈ [lit "docs/a b", lit "docs/sub/c"], m ≠ [] ∧ strip m = m ∧ '\n' ∉ m ∧ '\r' ∉ m := by decide +kernel
  obtain ⟨hsome, hstrip, hnl, hret⟩ := hlines rel hm
  exact ⟨hsome, hstrip, hnl, hret⟩

/-- A folder whose name ends a line with what follows it: `docs/x`, and `../ann/key` next. -/
def splitFolder : Tree where
  nodes := homeNodes [([lit "docs", lit "x\n.."], .dir), ([lit "docs", lit "x\n..", lit "ann"], .dir),
    ([lit "docs", lit "x\n..", lit "ann", lit "key"], .other)]
  nodup := by decide
  legal := by decide

/-- The key of another user is archived, and the file that was selected is not. -/
theorem splitFolder_archives_ann : ¬ ∀ (links : Nat) (w : Site) (t : Tree) (rels : List Str) (destDir destName : Str) (z : ZipPlan),
    zipOnHost links w t rels destDir destName = .ok z → ArchivesWalked z := by
  intro h
  have hok : zipOnHost 40 piHome splitFolder [lit "docs"] [] [] =
      .ok ⟨lit "/home/pi", lit "docs.zip", [lit "/home/pi/docs/x\n../ann/key"], [lit "docs/x\n../ann/key"]⟩ := by decide +kernel
  have hreads : zipPyReads (lit "docs/x\n../ann/key\n") = [lit "docs/x", lit "../ann/key"] := by decide +kernel
  have hin := (h 40 piHome splitFolder [lit "docs"] [] [] _ hok).inside (lit "../ann/key")
    (by rw [ZipPlan.body]; exact hreads ▸ List.mem_cons_of_mem _ List.mem_cons_self)
  exact absurd hin.1 (by decide +kernel)

end PiHerder.Files
