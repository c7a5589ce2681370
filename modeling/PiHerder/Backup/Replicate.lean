import PiHerder.Backup.Selection
import PiHerder.Lib.Globs

/-!
# What a cloud copy ships

Each checked folder becomes one `rclone sync` with the skipped paths below it as exclude patterns
(`services/backup_replicate.py`). What rclone makes of one pattern is a parameter `Glob`.

| here | there |
| --- | --- |
| `syncPlan` | `sync_plan` (233–253) |
| `pathName` | `Path(pattern).name` |
| `excludeArg`, `rcloneSyncCmd` | `rclone_sync_cmd` (278–306); one round of its loop, and the whole command |
| `excludeFlags`, `rcloneSync` | **rclone**: the values of `--exclude` on its command line, and the files it transfers |
-/
namespace PiHerder.Backup
open Lib Lib.Str Lib.Selection Lib.Globs

/-! ## The code -/

/-- For each checked folder the skipped paths below it, as seen from there. -/
def syncPlan (checked skipped : List Str) : List (Str × List Str × Bool) :=
  checked.map fun folder =>
    let front := rstrip '/' folder ++ lit "/"
    (folder, (skipped.filter (startsWith front)).map fun skip => skip.drop front.length, true)

def pathName (p : Str) : Str := ((split '/' p).filter fun c => decide (c ≠ [] ∧ c ≠ lit ".")).getLast?.getD []

def excludeArg (rel : Str) : Option Str :=
  let pattern := rstrip '/' rel
  if pattern = [] ∨ startsWith (lit "/") pattern ∨ lit ".." ∈ split '/' pattern then none
  else some (if '.' ∈ pathName pattern then pattern else pattern ++ lit "/**")

def REMOTE_NAME : Str := lit "dest"

def rcloneSyncCmd (configPath localDir remotePath : Str) (excludes : List Str) (useTrash : Bool) : List Str :=
  [lit "rclone", lit "sync", localDir, REMOTE_NAME ++ lit ":" ++ remotePath, lit "--config", configPath] ++
    (if useTrash then [lit "--drive-use-trash"] else []) ++
    [lit "--stats-one-line", lit "--stats", lit "0"] ++
    (excludes.filterMap excludeArg).flatMap fun pattern => [lit "--exclude", pattern]

/-- The values of `--exclude`. Of the other flags used here two take a value. -/
def excludeFlags : List Str → List Str
  | arg :: value :: rest =>
    if arg = lit "--exclude" then value :: excludeFlags rest
    else if arg = lit "--config" ∨ arg = lit "--stats" then excludeFlags rest
    else excludeFlags (value :: rest)
  | _ => []

def rcloneSync (g : Glob) (argv : List Str) (folder : Folder) : List (List Str) := copied g (excludeFlags argv) folder

/-! ## The command -/

theorem excludeFlags_other {arg : Str} {rest : List Str} (he : arg ≠ lit "--exclude") (hc : arg ≠ lit "--config")
    (hs : arg ≠ lit "--stats") : excludeFlags (arg :: rest) = excludeFlags rest := by
  cases rest with
  | nil => rfl
  | cons value rest => rw [excludeFlags, if_neg he, if_neg fun h => h.elim hc hs]

theorem excludeFlags_excludes (patterns : List Str) :
    excludeFlags (patterns.flatMap fun pattern => [lit "--exclude", pattern]) = patterns := by
  induction patterns with
  | nil => rfl
  | cons p patterns ih =>
    have hcons : ((p :: patterns).flatMap fun pattern => [lit "--exclude", pattern]) =
        lit "--exclude" :: p :: patterns.flatMap fun pattern => [lit "--exclude", pattern] := rfl
    rw [hcons, excludeFlags, if_pos rfl, ih]

/-- **The command hands rclone the excludes**, each as the pattern made of it. -/
theorem excludeFlags_cmd {localDir : Str} (h : startsWith (lit "/") localDir = true) (configPath remotePath : Str)
    (excludes : List Str) (useTrash : Bool) :
    excludeFlags (rcloneSyncCmd configPath localDir remotePath excludes useTrash) = excludes.filterMap excludeArg := by
  have hlocal : ∀ flag : Str, flag.head? = some '-' → localDir ≠ flag := by
    rintro flag hflag rfl
    obtain ⟨t, rfl⟩ := List.isPrefixOf_iff_prefix.1 h
    exact absurd (Option.some.inj hflag) (by decide)
  have hremote : ∀ flag : Str, flag.head? = some '-' → REMOTE_NAME ++ lit ":" ++ remotePath ≠ flag := by
    rintro flag hflag rfl
    exact absurd (Option.some.inj hflag) (by decide)
  have htrash : ∀ rest : List Str, excludeFlags ((if useTrash then [lit "--drive-use-trash"] else []) ++ rest) = excludeFlags rest := by
    intro rest
    cases useTrash with
    | true => exact excludeFlags_other (by decide) (by decide) (by decide)
    | false => rfl
  unfold rcloneSyncCmd
  rw [List.append_assoc, List.append_assoc]
  simp only [List.cons_append, List.nil_append]
  rw [excludeFlags_other (by decide) (by decide) (by decide), excludeFlags_other (by decide) (by decide) (by decide),
    excludeFlags_other (hlocal _ rfl) (hlocal _ rfl) (hlocal _ rfl),
    excludeFlags_other (hremote _ rfl) (hremote _ rfl) (hremote _ rfl), excludeFlags, if_neg (by decide), if_pos (Or.inl rfl),
    htrash, excludeFlags_other (by decide) (by decide) (by decide), excludeFlags, if_neg (by decide), if_pos (Or.inr rfl),
    excludeFlags_excludes]

/-! ## The plan of a normalized selection -/

section plan
variable {C S : List Str} {c e : Str} {excludes : List Str} {isDir : Bool}

/-- What `skip[len(front):]` leaves of the skipped paths below a folder. -/
theorem mem_cut {base : Str} (hbase : Clean base) {skipped : List Str} :
    e ∈ (skipped.filter (startsWith (rstrip '/' base ++ lit "/"))).map (fun skip => skip.drop (rstrip '/' base ++ lit "/").length) ↔
      base ++ '/' :: e ∈ skipped := by
  rw [hbase.rstrip, List.mem_map]
  constructor
  · rintro ⟨s, hs, rfl⟩
    obtain ⟨hsS, hstart⟩ := List.mem_filter.1 hs
    obtain ⟨t, rfl⟩ := List.isPrefixOf_iff_prefix.1 hstart
    rw [List.drop_left]
    rwa [List.append_assoc] at hsS
  · intro hs
    refine ⟨base ++ lit "/" ++ e, List.mem_filter.2 ⟨?_, ?_⟩, List.drop_left⟩
    · rwa [List.append_assoc]
    · exact List.isPrefixOf_iff_prefix.2 (List.prefix_append _ e)

theorem mem_syncPlan (hC : ∀ x ∈ C, Clean x) (h : (c, excludes, isDir) ∈ syncPlan C S) :
    c ∈ C ∧ ∀ e, e ∈ excludes ↔ c ++ '/' :: e ∈ S := by
  obtain ⟨folder, hmem, heq⟩ := List.mem_map.1 h
  simp only [Prod.mk.injEq] at heq
  obtain ⟨rfl, rfl, -⟩ := heq
  exact ⟨hmem, fun e => mem_cut (hC _ hmem)⟩

/-- A path below a clean one. -/
theorem Clean.of_append (h : Clean (c ++ '/' :: e)) : Clean e := by
  refine ⟨fun x hx => h.parts x ?_, fun hback => h.noBackslash (List.mem_append_right _ (List.mem_cons_of_mem _ hback))⟩
  rw [split_append_cons]
  exact List.mem_append_right _ hx

theorem Clean.excludeArg (h : Clean e) :
    Backup.excludeArg e = some (if '.' ∈ pathName e then e else e ++ lit "/**") := by
  have hfront : startsWith (lit "/") e = false := by
    rw [Bool.eq_false_iff]
    intro hstart
    obtain ⟨t, rfl⟩ := List.isPrefixOf_iff_prefix.1 hstart
    refine (h.parts [] ?_).1 rfl
    rw [show lit "/" ++ t = '/' :: t from rfl, split_slash]
    exact List.mem_cons_self
  unfold Backup.excludeArg
  simp only
  rw [h.rstrip, if_neg]
  rintro (hnil | hstart | hup)
  · exact h.ne_nil hnil
  · rw [hfront] at hstart
    exact Bool.noConfusion hstart
  · exact h.notUp hup

end plan

/-! ## The condition -/

/-- `e`, read as a glob, matches a run of the components of `f`: one that ends with `f` if the name of `e` has a dot,
and above it if it has none. -/
def Met (g : Glob) (e : Str) (f : List Str) : Prop := Run g e (decide ('.' ∉ pathName e)) f

/-- The file is where the pattern made of `e` is meant to reach: at `e` itself if its name has a dot, and below it if it
has none. As a glob `e` has to match itself. -/
def Served (g : Glob) (e : Str) (f : List Str) : Prop :=
  split '/' e <+: f ∧ (f = split '/' e ↔ '.' ∈ pathName e) ∧ g.reads e e = true

/-- The pattern matches elsewhere: deeper down, or by its special characters. -/
def Strays (g : Glob) (e : Str) (f : List Str) : Prop :=
  ∃ u a v, f = u ++ a ++ v ∧ a ≠ [] ∧ (v = [] ↔ '.' ∈ pathName e) ∧ g.reads e (join '/' a) = true ∧ (u ≠ [] ∨ a ≠ split '/' e)

/-- `_clean_rel` leaves the path of `f` below `c` as it is. -/
def Straight (c : Str) (f : List Str) : Prop :=
  strip (c ++ '/' :: join '/' f) = c ++ '/' :: join '/' f ∧ '\\' ∉ c ++ '/' :: join '/' f

instance (c : Str) (f : List Str) : Decidable (Straight c f) := inferInstanceAs (Decidable (_ ∧ _))

/-- The file is selected: no skipped path is above it. A path that cleaning changes is looked up as what it is
cleaned to. -/
def Kept (C S : List Str) (c : Str) (excludes : List Str) (f : List Str) : Prop :=
  (Straight c f → ∀ e ∈ excludes, ¬ split '/' e <+: f) ∧
    (¬ Straight c f → ∃ r, again (c ++ '/' :: join '/' f) = some r ∧ Included Under C S r)

section ships
variable {g : Glob} {C S : List Str} {c : Str} {excludes : List Str} {isDir : Bool} {f : List Str}

theorem met_iff {e : Str} : Met g e f ↔ Served g e f ∨ Strays g e f := by
  have hdeep : decide ('.' ∉ pathName e) = false ↔ '.' ∈ pathName e := by rw [decide_eq_false_iff_not, not_not]
  unfold Met Run
  simp only [hdeep]
  constructor
  · rintro ⟨u, a, v, rfl, hne, hv, h⟩
    by_cases hown : u = [] ∧ a = split '/' e
    · obtain ⟨rfl, rfl⟩ := hown
      rw [join_split] at h
      refine Or.inl ⟨List.prefix_append _ v, ?_, h⟩
      rw [← hv, List.nil_append, List.append_right_eq_self]
    · exact Or.inr ⟨u, a, v, rfl, hne, hv, h, not_and_or.1 hown⟩
  · rintro (⟨⟨v, rfl⟩, hv, h⟩ | ⟨u, a, v, hf, hne, hv, h, -⟩)
    · rw [List.append_right_eq_self] at hv
      exact ⟨[], split '/' e, v, rfl, split_ne_nil '/' e, hv, by rwa [join_split]⟩
    · exact ⟨u, a, v, hf, hne, hv, h⟩

theorem excludesFile_iff (hg : g.Documented) (he : ∀ e ∈ excludes, Clean e) (hf : Below f) :
    excludesFile g (excludes.filterMap excludeArg) f = true ↔ ∃ e ∈ excludes, Met g e f := by
  have hone : ∀ e, hits g (if '.' ∈ pathName e then e else e ++ lit "/**") f [] = true ↔ Met g e f := by
    intro e
    unfold Met
    by_cases hdot : '.' ∈ pathName e
    · rw [if_pos hdot, decide_eq_false (not_not_intro hdot)]
      exact hits_iff
    · rw [if_neg hdot, decide_eq_true hdot]
      exact hits_deep hg hf
  unfold excludesFile
  rw [List.any_eq_true]
  constructor
  · rintro ⟨p, hp, hhit⟩
    obtain ⟨e, hmem, harg⟩ := List.mem_filterMap.1 hp
    rw [(he e hmem).excludeArg] at harg
    obtain rfl := Option.some.inj harg
    exact ⟨e, hmem, (hone e).1 hhit⟩
  · rintro ⟨e, hmem, hmet⟩
    exact ⟨_, List.mem_filterMap.2 ⟨e, hmem, (he e hmem).excludeArg⟩, (hone e).2 hmet⟩

theorem valid_iff (hg : g.Documented) (he : ∀ e ∈ excludes, Clean e) :
    (∀ p ∈ excludes.filterMap excludeArg, g.valid p = true) ↔ ∀ e ∈ excludes, g.valid e = true := by
  have hone : ∀ e, g.valid (if '.' ∈ pathName e then e else e ++ lit "/**") = g.valid e := by
    intro e
    split
    · rfl
    · exact hg.deep_valid e
  constructor
  · intro h e hmem
    rw [← hone]
    exact h _ (List.mem_filterMap.2 ⟨e, hmem, (he e hmem).excludeArg⟩)
  · intro h p hp
    obtain ⟨e, hmem, harg⟩ := List.mem_filterMap.1 hp
    rw [(he e hmem).excludeArg] at harg
    rw [← Option.some.inj harg, hone]
    exact h e hmem

theorem pathIncluded_iff_again (hC : ∀ x ∈ C, Clean x) (hS : ∀ x ∈ S, Clean x) (q : Str) :
    pathIncluded q C S = .ok true ↔ ∃ r, again q = some r ∧ Included Under C S r := by
  rw [pathIncluded_eq hC hS]
  simp only [again_eq_some]
  cases cleanRel q with
  | error e => simp [Except.map]
  | ok r => simp [Except.map, and_assoc]

/-- A path below a clean one is clean, unless a name has a backslash. -/
theorem Straight.clean (hc : Clean c) (hf : Below f) (h : Straight c f) : Clean (c ++ '/' :: join '/' f) := by
  refine ⟨fun x hx => ?_, h.2⟩
  rw [split_append_cons, split_join hf.1 fun x hx => (hf.2 x hx).2] at hx
  exact (List.mem_append.1 hx).elim (hc.parts x) fun hx => (hf.2 x hx).1

/-- **What `path_included` keeps** of the files below a checked folder. -/
theorem pathIncluded_iff_kept (hC : ∀ x ∈ C, Clean x) (hS : ∀ x ∈ S, Clean x) (hcan : Canonical Under C S) (hc : c ∈ C)
    (hplan : ∀ e, e ∈ excludes ↔ c ++ '/' :: e ∈ S) (hf : Below f) :
    pathIncluded (c ++ '/' :: join '/' f) C S = .ok true ↔ Kept C S c excludes f := by
  rw [pathIncluded_iff_again hC hS]
  have hsplit : split '/' (join '/' f) = f := split_join hf.1 fun x hx => (hf.2 x hx).2
  unfold Kept
  by_cases hstraight : Straight c f
  · have hclean := hstraight.clean (hC c hc) hf
    rw [hclean.again_self hstraight.1, and_iff_left fun hno => absurd hstraight hno, forall_prop_of_true hstraight]
    have hbelow : ∀ e, Under (c ++ '/' :: e) (c ++ '/' :: join '/' f) ↔ split '/' e <+: f := by
      intro e
      rw [under_iff, split_append_cons, split_append_cons, hsplit, List.prefix_append_right_inj]
    constructor
    · rintro ⟨r, hr, hin⟩ e he hpre
      obtain rfl := Option.some.inj hr
      exact hin.2 _ ((hplan e).1 he) ((hbelow e).2 hpre)
    · intro h
      have hcf : Under c (c ++ '/' :: join '/' f) := under_iff.2 (by
        rw [split_append_cons]
        exact List.prefix_append _ _)
      refine ⟨_, rfl, ⟨c, hc, hcf⟩, fun s hs hsf => ?_⟩
      -- a skipped path above the file lies below `c`, so it is one of the excludes
      obtain ⟨d, hd, hds, hne⟩ := hcan.below s hs
      obtain rfl : d = c := (hds.trans hsf).total hcf |>.elim (hcan.checkedApart d hd c hc) fun h => (hcan.checkedApart c hc d hd h).symm
      have hsc : startsWith (d ++ lit "/") s = true := hds.resolve_left fun heq => hne heq.symm
      obtain ⟨e, rfl⟩ := List.isPrefixOf_iff_prefix.1 hsc
      rw [List.append_assoc] at hs hsf
      exact h e ((hplan e).2 hs) ((hbelow e).1 hsf)
  · rw [and_iff_right fun h => absurd h hstraight, forall_prop_of_true hstraight]

end ships

end PiHerder.Backup
