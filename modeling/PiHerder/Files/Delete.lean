import PiHerder.Files.Paths

/-!
# Deleting on the host

| here | there |
| --- | --- |
| `fsRemove`, `fsRmdir`, `lstat`, `listdirNames` | `sftp.remove`, `sftp.rmdir`, `_lstat`, `_listdir_names` (626–632, 1329–1334) |
| `rm`, `removeTree` | `remove_tree` (1337–1374) |
| `remove` | `remove` (1126–1158) |

The state is the tree with what has been deleted. A deletion is noted with the entry that the call was made for: the
selected one, or one that a listing gave.
-/
namespace PiHerder.Files
open Lib Lib.Str Lib.FileTree Lib.Eff

structure Deleted where
  entry : Option (List Name)
  place : List Name
  dir : Bool
deriving DecidableEq, Repr

structure Removal where
  tree : Tree
  removed : List Deleted

section Verbs
variable (links : Nat) (w : Site)

/-- One deletion, at the place that the server finds. -/
def deleteFound (entry : Option (List Name)) (dir : Bool) (found : Tree → Option (List Name)) : Eff Removal FilesError Unit := fun s =>
  match found s.tree with
  | some p => (.ok (), ⟨s.tree.del p, s.removed ++ [⟨entry, p, dir⟩]⟩)
  | none => (.error sshError, s)

def fsRemove (entry : Option (List Name)) (path : Str) : Eff Removal FilesError Unit :=
  deleteFound entry false fun t => (entryAt t.shape links path).filter fun p => decide (t.shape p ≠ some .dir)

def fsRmdir (entry : Option (List Name)) (path : Str) : Eff Removal FilesError Unit :=
  deleteFound entry true fun t => (entryAt t.shape links path).filter fun p =>
    decide (p ≠ [] ∧ t.shape p = some .dir ∧ t.listdir p = [])

def listdirNames (t : Tree) (path : Str) : Except FilesError (List Name) :=
  match follow t.shape links [] (split '/' path) with
  | some (_, d) => if t.shape d = some .dir then .ok (t.listdir d) else .error sshError
  | none => .error sshError

/-- `_rm`; the first argument is how many levels are left. -/
def rm (jail : Str) : Nat → Option (List Name) → Str → Eff Removal FilesError Unit
  | 0, _, _ => raise ⟨.tooMany, lit "Folder is too deep to delete"⟩
  | level + 1, entry, absPath => do
    let path ← asks fun s => w.assertInJail links s.tree absPath
    asks fun _ => raiseIf (path = jail) ⟨.denied, lit "Cannot delete the jail root"⟩
    let kind ← asks fun s => lstat links s.tree path
    if kind = .dir then do
      let names ← asks fun s => listdirNames links s.tree path
      let dir ← asks fun s => .ok (entryAt s.tree.shape links path)
      forEach (fun name => rm jail level (dir.map (· ++ [name])) (posixNorm (posixJoin path name))) names
      fsRmdir links entry path
    else fsRemove links entry path

structure RemovedTree where
  jail : Str
  rel : Str
  files : Nat
  dirs : Nat
deriving DecidableEq, Repr

def removeTree (rel : Str) : Eff Removal FilesError RemovedTree := do
  let (jail, absPath) ← asks fun _ => w.resolveLogical rel
  let entry ← asks fun s => .ok (entryAt s.tree.shape links absPath)
  rm links w jail (WALK_DEPTH_MAX + 1) entry absPath
  asks fun s => .ok ⟨jail, rel, (s.removed.filter fun d => !d.dir).length, (s.removed.filter fun d => d.dir).length⟩

/-- A link is deleted when it leads into the jail. -/
def checkLink (jail : Str) (t : Tree) (path : Str) (kind : Kind) : Except FilesError Unit :=
  match kind with
  | .link _ => do
    let target := normalizeRemote links t path
    let denied ← w.isDenied target
    raiseIf (underJail target jail = false ∨ denied = true) ⟨.escape, lit "Symlink leaves the jail"⟩
  | _ => .ok ()

structure RemovedEntry where
  jail : Str
  rel : Str
  absPath : Str
  kind : Kind
deriving DecidableEq, Repr

def remove (rel : Str) : Eff Removal FilesError RemovedEntry := do
  let (jail, absPath) ← asks fun _ => w.resolveLogical rel
  let entry ← asks fun s => .ok (entryAt s.tree.shape links absPath)
  let path ← asks fun s => w.assertInJail links s.tree absPath
  asks fun _ => raiseIf (path = jail) ⟨.denied, lit "Cannot delete the jail root"⟩
  let kind ← asks fun s => lstat links s.tree path
  asks fun s => checkLink links w jail s.tree path kind
  if kind = .dir then do
    let names ← asks fun s => listdirNames links s.tree path
    asks fun _ => raiseIf (names ≠ []) ⟨.notEmpty, lit "Directory is not empty"⟩
    fsRmdir links entry path
  else fsRemove links entry path
  asks fun _ => (relOf absPath jail).map fun rel => ⟨jail, rel, absPath, kind⟩

end Verbs

/-! ## What is to be deleted -/

variable {links : Nat} {w : Site} {t : Tree}

/-- The entry that a path selects. -/
def selected (links : Nat) (w : Site) (t : Tree) (rel : Str) : Option (List Name) :=
  match w.resolveLogical rel with
  | .ok (_, absPath) => entryAt t.shape links absPath
  | .error _ => none

/-- **Only what was selected**: every deletion is of the entry that it was made for, at or below the selected one, and
all else stays. -/
structure OnlySelected (sel : Option (List Name)) (t : Tree) (s : Removal) : Prop where
  own : ∀ d ∈ s.removed, d.entry = some d.place
  below : ∀ d ∈ s.removed, ∃ p, sel = some p ∧ p <+: d.place
  rest : ∀ p, (∀ d ∈ s.removed, d.place ≠ p) → s.tree.shape p = t.shape p

/-- What `_assert_in_jail` makes of the path names this entry, or nothing. -/
def LeadsItself (links : Nat) (w : Site) (t : Tree) (absPath : Str) (e : Option (List Name)) : Prop :=
  ∀ path, w.assertInJail links t absPath = .ok path → ∀ x, entryAt t.shape links path = some x → e = some x

/-- The selection is not mistaken: no name in it has a backslash, and no path to one of its entries leads to another. -/
structure OwnPaths (links : Nat) (w : Site) (t : Tree) (absPath : Str) : Prop where
  top : LeadsItself links w t absPath (entryAt t.shape links absPath)
  names : ∀ p e, entryAt t.shape links absPath = some p → p <+: e → e ≠ p → (t.shape e).isSome →
    posixNorm (pathText e) = pathText e
  below : ∀ p e, entryAt t.shape links absPath = some p → p <+: e → e ≠ p → (t.shape e).isSome →
    LeadsItself links w t (pathText e) (some e)

instance (links : Nat) (w : Site) (t : Tree) (absPath : Str) (e : Option (List Name)) : Decidable (LeadsItself links w t absPath e) :=
  match hres : w.assertInJail links t absPath with
  | .ok path => decidable_of_iff (∀ x ∈ entryAt t.shape links path, e = some x)
      ⟨fun h path' hpath => by cases hres.symm.trans hpath; exact h, fun h => h path hres⟩
  | .error _ => isTrue fun _ hpath => by cases hres.symm.trans hpath

/-- The entries to look at are those of the tree. -/
theorem OwnPaths.of_nodes {absPath : Str} (htop : LeadsItself links w t absPath (entryAt t.shape links absPath))
    (h : ∀ p ∈ entryAt t.shape links absPath, ∀ e ∈ t.nodes.keys, p <+: e → e ≠ p →
      posixNorm (pathText e) = pathText e ∧ LeadsItself links w t (pathText e) (some e)) : OwnPaths links w t absPath := by
  have hnode : ∀ p e, p <+: e → e ≠ p → (t.shape e).isSome → e ∈ t.nodes.keys := by
    intro p e hpe hne hsome
    have hroot : e ≠ [] := by
      rintro rfl
      exact hne (List.prefix_nil.1 hpe).symm
    rwa [Tree.shape, if_neg hroot, Option.isSome_iff_ne_none, Ne, Dict.get?_eq_none, not_not] at hsome
  exact ⟨htop, fun p e hp hpe hne hsome => (h p hp e (hnode p e hpe hne hsome) hpe hne).1,
    fun p e hp hpe hne hsome => (h p hp e (hnode p e hpe hne hsome) hpe hne).2⟩

/-! ## One step -/

/-- From one state to the other, only at and below `e`, each time the entry of the call. -/
def Below (e : List Name) (s s' : Removal) : Prop :=
  ∃ ds, s'.removed = s.removed ++ ds ∧ (∀ d ∈ ds, d.entry = some d.place ∧ e <+: d.place) ∧
    ∀ p, s'.tree.shape p = if p ∈ ds.map Deleted.place then none else s.tree.shape p

theorem Below.refl (e : List Name) (s : Removal) : Below e s s := ⟨[], by simp, by simp, by simp⟩

theorem Below.trans {e : List Name} {s s' s'' : Removal} (h : Below e s s') (h' : Below e s' s'') : Below e s s'' := by
  obtain ⟨ds, hds, hown, hshape⟩ := h
  obtain ⟨ds', hds', hown', hshape'⟩ := h'
  refine ⟨ds ++ ds', by rw [hds', hds, List.append_assoc], ?_, fun p => ?_⟩
  · intro d hd
    exact (List.mem_append.1 hd).elim (hown d) (hown' d)
  · rw [hshape', hshape, List.map_append]
    by_cases hp : p ∈ ds.map Deleted.place <;> by_cases hp' : p ∈ ds'.map Deleted.place <;> simp [hp, hp']

theorem Below.mono {e e' : List Name} {s s' : Removal} (h : Below e' s s') (he : e <+: e') : Below e s s' := by
  obtain ⟨ds, hds, hown, hshape⟩ := h
  exact ⟨ds, hds, fun d hd => ⟨(hown d hd).1, he.trans (hown d hd).2⟩, hshape⟩

/-- What is there now was there before. -/
theorem Below.le {e : List Name} {s s' : Removal} (h : Below e s s') {p : List Name} {k : Kind} (hk : s'.tree.shape p = some k) :
    s.tree.shape p = some k := by
  obtain ⟨ds, -, -, hshape⟩ := h
  rw [hshape] at hk
  split at hk
  · cases hk
  · exact hk

/-- What is not below stays. -/
theorem Below.keeps {e : List Name} {s s' : Removal} (h : Below e s s') {p : List Name} (hp : ¬ e <+: p) :
    s'.tree.shape p = s.tree.shape p := by
  obtain ⟨ds, -, hown, hshape⟩ := h
  rw [hshape, if_neg]
  intro hmem
  obtain ⟨d, hd, rfl⟩ := List.mem_map.1 hmem
  exact hp (hown d hd).2

/-- What is gone was below. -/
theorem Below.gone {e : List Name} {s s' : Removal} (h : Below e s s') {p : List Name} (hnone : s'.tree.shape p = none)
    (hsome : (s.tree.shape p).isSome) : e <+: p := by
  by_contra hp
  rw [h.keeps hp] at hnone
  rw [hnone] at hsome
  cases hsome

theorem deleteFound_below {e : List Name} {entry : Option (List Name)} {dir : Bool} {found : Tree → Option (List Name)} {s : Removal}
    (h : ∀ p, found s.tree = some p → p ≠ [] ∧ entry = some p ∧ e <+: p) : Below e s (deleteFound entry dir found s).2 := by
  unfold deleteFound
  cases hf : found s.tree with
  | none => exact Below.refl e s
  | some p =>
    obtain ⟨hp, rfl, hep⟩ := h p hf
    refine ⟨[⟨some p, p, dir⟩], rfl, ?_, fun q => ?_⟩
    · intro d hd
      obtain rfl := List.mem_singleton.1 hd
      exact ⟨rfl, hep⟩
    · rw [Tree.shape_del hp]
      simp

/-- The directory outlives what is deleted below it. -/
theorem Below.through {q : List Name} {c : Name} {s s' : Removal} (h : Below (q ++ [c]) s s') (ht : Through s.tree.shape [] q) :
    Through s'.tree.shape [] q := by
  refine Through.congr (fun p hp => h.keeps fun hle => ?_) ht
  have hlen := (hle.trans hp).length_le
  rw [List.nil_append, List.length_append, List.length_singleton] at hlen
  omega

/-! ## One call -/

/-- What a call for the entry `e` does, when its path leads to `e` and its calls for what is in `e` do as they should. -/
theorem rm_step {jail absPath : Str} {level : Nat} {e : List Name} {s : Removal}
    (hlead : ∀ path, w.assertInJail links s.tree absPath = .ok path → ∀ x, entryAt s.tree.shape links path = some x → e = x)
    (htext : ∀ path, w.assertInJail links s.tree absPath = .ok path → entryAt s.tree.shape links path = some e →
      s.tree.shape e = some .dir → s.tree.listdir e ≠ [] → path = pathText e)
    (hkid : ∀ name s', name ∈ s.tree.listdir e → Below e s s' → Through s'.tree.shape [] e →
      Below (e ++ [name]) s' (rm links w jail level (some (e ++ [name])) (posixNorm (posixJoin (pathText e) name)) s').2) :
    Below e s (rm links w jail (level + 1) (some e) absPath s).2 := by
  unfold rm
  simp only [bind_apply, asks]
  cases hpath : w.assertInJail links s.tree absPath with
  | error err => exact Below.refl e s
  | ok path =>
    simp only
    by_cases hjail : path = jail
    · rw [raiseIf, if_pos hjail]
      exact Below.refl e s
    · rw [raiseIf, if_neg hjail]
      simp only
      unfold lstat
      cases hentry : entryAt s.tree.shape links path with
      | none => exact Below.refl e s
      | some x =>
        obtain rfl := hlead path hpath x hentry
        have hfound : ∀ {s'}, Below e s s' → ∀ y, entryAt s'.tree.shape links path = some y → y = e := by
          intro s' hs' y hy
          have hmono : entryAt s.tree.shape links path = some y := lplace_mono (fun _ _ hk => hs'.le hk) hy
          rw [hentry] at hmono
          exact (Option.some.inj hmono).symm
        cases hkind : s.tree.shape e with
        | none =>
          rw [Option.bind_some, hkind]
          exact Below.refl e s
        | some kind =>
          rw [Option.bind_some, hkind]
          simp only
          by_cases hdir : kind = .dir
          · subst hdir
            obtain ⟨m, hm⟩ := follow_of_lplace hentry hkind
            rw [if_pos rfl]
            simp only [bind_apply, asks, listdirNames, hm, hkind, if_true, hentry, Option.map_some]
            have hthrough : Through s.tree.shape [] e := (lplace_standing Tree.shape_root hentry).through hkind
            have hloop : Keeps (fun s' => Below e s s' ∧ Through s'.tree.shape [] e)
                (forEach (fun name => rm links w jail level (some (e ++ [name])) (posixNorm (posixJoin path name))) (s.tree.listdir e)) := by
              refine Keeps.forEach fun name hname s' hs' => ?_
              have hpt := htext path hpath hentry hkind (List.ne_nil_of_mem hname)
              have hstep := hkid name s' hname hs'.1 hs'.2
              rw [hpt]
              exact ⟨hs'.1.trans (hstep.mono (List.prefix_append e [name])), hstep.through hs'.2⟩
            have hdone := hloop.run ⟨Below.refl e s, hthrough⟩
            split
            · rename_i s' hs'
              rw [hs'] at hdone
              refine hdone.1.trans (deleteFound_below fun p hp => ?_)
              obtain ⟨hp, hempty⟩ := Option.filter_eq_some_iff.1 hp
              obtain rfl := hfound hdone.1 p hp
              exact ⟨(of_decide_eq_true hempty).1, rfl, List.prefix_refl _⟩
            · rename_i err s' hs'
              rw [hs'] at hdone
              exact hdone.1
          · rw [if_neg hdir]
            refine deleteFound_below fun p hp => ?_
            obtain ⟨hp, hnot⟩ := Option.filter_eq_some_iff.1 hp
            obtain rfl := hfound (Below.refl _ s) p hp
            exact ⟨Tree.ne_root_of_shape (of_decide_eq_true hnot), rfl, List.prefix_refl _⟩

/-- A path whose entry is none deletes nothing. -/
theorem rm_nothing {jail absPath : Str} {level : Nat} {entry : Option (List Name)} {s : Removal}
    (h : ∀ path, w.assertInJail links s.tree absPath = .ok path → entryAt s.tree.shape links path = none) :
    (rm links w jail (level + 1) entry absPath s).2 = s := by
  unfold rm
  simp only [bind_apply, asks]
  cases hpath : w.assertInJail links s.tree absPath with
  | error err => rfl
  | ok path =>
    simp only
    by_cases hjail : path = jail
    · rw [raiseIf, if_pos hjail]
    · rw [raiseIf, if_neg hjail]
      simp only
      rw [lstat, h path hpath]
      rfl

/-! ## In the middle of a deletion -/

section Run
variable {absPath : Str} {p : List Name} {s : Removal}

/-- A directory without backslashes is where its text leads. -/
theorem assertInJail_dir {sh : Tree} {q : List Name} (hq : Through sh.shape [] q) (hclean : Clean q) {path : Str}
    (h : w.assertInJail links sh (pathText q) = .ok path) : path = pathText q := by
  obtain ⟨rfl, -, -⟩ := assertInJail_ok h
  rw [posixNorm_pathText hclean]
  rw [normalizeRemote, realpath_pathText hq hclean.noSlash]
  exact posixNorm_pathText hclean

theorem concat_ne_of_le {p q : List Name} (h : p <+: q) (c : Name) : q ++ [c] ≠ p := by
  rintro rfl
  have hlen := h.length_le
  rw [List.length_append, List.length_singleton] at hlen
  omega

theorem assertInJail_congr {sh sh' : Tree} {absPath : Str} (h : normalizeRemote links sh (posixNorm absPath) = normalizeRemote links sh' (posixNorm absPath)) :
    w.assertInJail links sh absPath = w.assertInJail links sh' absPath := by
  unfold Site.assertInJail
  rw [h]

/-- **In the tree as it has become, a path to an entry of the selection leads to it**, or to nothing. -/
theorem leads_now (hown : OwnPaths links w t absPath) (hp : entryAt t.shape links absPath = some p) (hs : Below p ⟨t, []⟩ s)
    {q : List Name} {name : Name} (hpq : p <+: q) (hsome : (t.shape (q ++ [name])).isSome) (hthrough : Through s.tree.shape [] q)
    {path : Str} (h : w.assertInJail links s.tree (pathText (q ++ [name])) = .ok path) {x : List Name}
    (hx : entryAt s.tree.shape links path = some x) : q ++ [name] = x := by
  have hle : p <+: q ++ [name] := hpq.trans (List.prefix_append q [name])
  have hne := concat_ne_of_le hpq name
  have hmono : ∀ p k, s.tree.shape p = some k → t.shape p = some k := fun _ _ hk => hs.le hk
  have hclean : ∀ e, p <+: e → e ≠ p → (t.shape e).isSome → Clean e := fun e hpe hep he =>
    clean_of_posixNorm (fun c hc => ⟨(Tree.legal_of_shape he c hc).1.1, (Tree.legal_of_shape he c hc).2.1⟩) (hown.names p e hp hpe hep he)
  have hclean_e := hclean _ hle hne hsome
  have htext := posixNorm_pathText hclean_e
  obtain ⟨hpath, -, -⟩ := assertInJail_ok h
  rw [htext] at hpath
  unfold normalizeRemote at hpath
  cases hreal : realpath s.tree.shape links (split '/' (pathText (q ++ [name]))) with
  | none =>
    -- the server does not resolve the path: it stays as it is
    rw [hreal] at hpath
    simp only at hpath
    rw [hpath, htext, entryAt_pathText hthrough (hclean_e name (by simp)).1 hclean_e.noSlash] at hx
    split at hx
    · exact Option.some.inj hx
    · cases hx
  | some r =>
    rw [hreal] at hpath
    simp only at hpath
    rcases realpath_mono hmono Tree.shape_root hreal with hthen | ⟨hgone, hthen⟩
    · -- it led there from the start
      have hsame : w.assertInJail links t (pathText (q ++ [name])) = .ok path := by
        rw [← h]
        refine assertInJail_congr ?_
        rw [htext, normalizeRemote, normalizeRemote, hreal, hthen]
      exact Option.some.inj (hown.below p _ hp hle hne hsome path hsame x (lplace_mono hmono hx))
    · -- it leads to what has been deleted
      have hpr := hs.gone hgone hthen
      have hclean_r : Clean r := by
        by_cases hrp : r = p
        · rw [hrp]
          exact hclean_e.of_prefix hle
        · exact hclean r hpr hrp hthen
      rcases realpath_spec Tree.shape_root hreal with ⟨-, hthere⟩ | ⟨d, c, rfl, hd, hc, -⟩
      · rw [hgone] at hthere
        cases hthere
      · rw [hpath, posixNorm_pathText hclean_r, entryAt_pathText hd hc hclean_r.noSlash, hgone] at hx
        cases hx

/-- **A call for an entry of the selection deletes only that entry and what is below it.** -/
theorem rm_below (hown : OwnPaths links w t absPath) (hp : entryAt t.shape links absPath = some p) {jail : Str} :
    ∀ {level : Nat} {q : List Name} {name : Name} {s : Removal}, Below p ⟨t, []⟩ s → p <+: q → (t.shape (q ++ [name])).isSome →
      Through s.tree.shape [] q → Below (q ++ [name]) s (rm links w jail level (some (q ++ [name])) (pathText (q ++ [name])) s).2
  | 0, _, _, s, _, _, _, _ => Below.refl _ s
  | level + 1, q, name, s, hs, hpq, hsome, hthrough => by
    have hle : p <+: q ++ [name] := hpq.trans (List.prefix_append q [name])
    have hlegal := Tree.legal_of_shape hsome
    refine rm_step (fun path hpath x hx => leads_now hown hp hs hpq hsome hthrough hpath hx) (fun path hpath hentry hdir _ => ?_) ?_
    · have hne := concat_ne_of_le hpq name
      refine assertInJail_dir (hthrough.concat (hlegal name (by simp)).1 hdir) ?_ hpath
      exact clean_of_posixNorm (fun c hc => ⟨(hlegal c hc).1.1, (hlegal c hc).2.1⟩) (hown.names p _ hp hle hne hsome)
    · intro c s' hc hs' hthrough'
      have hin := Tree.mem_listdir.1 hc
      obtain ⟨k, hk⟩ := Option.isSome_iff_exists.1 hin
      have hkt : (t.shape (q ++ [name] ++ [c])).isSome := by rw [hs.le hk]; rfl
      rw [posixJoin_pathText (fun x hx => ⟨(hlegal x hx).1.1, (hlegal x hx).2.1⟩) (Tree.legal_of_shape hkt c (by simp)).2.1]
      have hne := concat_ne_of_le (hle : p <+: q ++ [name]) c
      have hpc : p <+: q ++ [name] ++ [c] := hle.trans (List.prefix_append _ _)
      rw [hown.names p _ hp hpc hne hkt]
      exact rm_below hown hp (hs.trans (hs'.mono hle)) hle hkt hthrough'

end Run

/-! ## Whole calls -/

section Calls
variable {rel jail absPath : Str}

theorem onlySelected_start (sel : Option (List Name)) (t : Tree) : OnlySelected sel t ⟨t, []⟩ :=
  ⟨by simp, by simp, fun _ _ => rfl⟩

theorem Below.onlySelected {p : List Name} {s : Removal} (h : Below p ⟨t, []⟩ s) : OnlySelected (some p) t s := by
  obtain ⟨ds, hds, hown, hshape⟩ := h
  rw [List.nil_append] at hds
  refine ⟨fun d hd => (hown d (hds ▸ hd)).1, fun d hd => ⟨p, rfl, (hown d (hds ▸ hd)).2⟩, fun q hq => ?_⟩
  rw [hshape, if_neg]
  intro hmem
  obtain ⟨d, hd, hdq⟩ := List.mem_map.1 hmem
  exact hq d (hds.symm ▸ hd) hdq

theorem removeTree_tree (s : Removal) (h : w.resolveLogical rel = .ok (jail, absPath)) :
    (removeTree links w rel s).2 = (rm links w jail (WALK_DEPTH_MAX + 1) (entryAt s.tree.shape links absPath) absPath s).2 := by
  unfold removeTree
  simp only [bind_apply, asks, h]
  split
  · rename_i heq
    rw [heq]
  · rename_i heq
    rw [heq]

/-- **A recursive delete of a selection that is not mistaken deletes that only.** -/
theorem removeTree_onlySelected (hown : ∀ jail absPath, w.resolveLogical rel = .ok (jail, absPath) → OwnPaths links w t absPath) :
    OnlySelected (selected links w t rel) t (removeTree links w rel ⟨t, []⟩).2 := by
  cases hres : w.resolveLogical rel with
  | error err =>
    unfold removeTree
    simp only [bind_apply, asks, hres]
    exact onlySelected_start _ t
  | ok pair =>
    obtain ⟨jail, absPath⟩ := pair
    have hown := hown jail absPath hres
    rw [removeTree_tree _ hres, selected, hres]
    simp only
    cases hp : entryAt t.shape links absPath with
    | none =>
      have htop := hown.top
      rw [hp] at htop
      rw [rm_nothing fun path hpath => Option.eq_none_iff_forall_ne_some.2 fun x hx => by cases htop path hpath x hx]
      exact onlySelected_start _ t
    | some p =>
      obtain ⟨-, cs, rfl, hcs⟩ := resolveLogical_ok hres
      refine (rm_step (fun path hpath x hx => ?_) (fun path hpath hentry hdir hnames => ?_) ?_).onlySelected
      · exact Option.some.inj (hp.symm.trans (hown.top path hpath x hx))
      · obtain ⟨c, hc⟩ := List.exists_mem_of_ne_nil _ hnames
        have hsome := Tree.mem_listdir.1 hc
        have hclean : Clean (p ++ [c]) := clean_of_posixNorm
          (fun x hx => ⟨(Tree.legal_of_shape hsome x hx).1.1, (Tree.legal_of_shape hsome x hx).2.1⟩)
          (hown.names p _ hp (List.prefix_append p [c]) (concat_ne_of_le (List.prefix_refl p) c) hsome)
        obtain ⟨hpath, -, -⟩ := assertInJail_ok hpath
        rw [hpath, posixNorm_pathText hcs, normalizeRemote, realpath_of_lplace hp hdir]
        exact posixNorm_pathText (hclean.of_prefix (List.prefix_append p [c]))
      · intro c s' hc hs' hthrough
        have hsome := Tree.mem_listdir.1 hc
        have hlegal := Tree.legal_of_shape hsome
        rw [posixJoin_pathText (fun x hx => ⟨(hlegal x (by simp [hx])).1.1, (hlegal x (by simp [hx])).2.1⟩) (hlegal c (by simp)).2.1,
          hown.names p _ hp (List.prefix_append p [c]) (concat_ne_of_le (List.prefix_refl p) c) hsome]
        exact rm_below hown hp hs' (List.prefix_refl p) hsome hthrough

/-- `remove` leaves the entry that its path leads to: the jail, a folder that is not empty, a link out of the jail. -/
def Left (links : Nat) (w : Site) (t : Tree) (jail path : Str) (x : List Name) : Prop :=
  path = jail ∨ (∃ kind e, t.shape x = some kind ∧ checkLink links w jail t path kind = .error e) ∨
    t.shape x = some .dir ∧ (x = [] ∨ t.listdir x ≠ [])

theorem remove_tree_of_error (h : ∀ path, w.assertInJail links t absPath = .ok path → entryAt t.shape links path = none)
    (hres : w.resolveLogical rel = .ok (jail, absPath)) : (remove links w rel ⟨t, []⟩).2 = ⟨t, []⟩ := by
  unfold remove
  simp only [bind_apply, asks, hres]
  cases hpath : w.assertInJail links t absPath with
  | error err => rfl
  | ok path =>
    simp only
    by_cases hjail : path = jail
    · rw [raiseIf, if_pos hjail]
    · rw [raiseIf, if_neg hjail]
      simp only
      rw [lstat, h path hpath]
      rfl

/-- `remove` leaves the entry or deletes it. -/
theorem remove_tree_cases {path : Str} {x : List Name} (hres : w.resolveLogical rel = .ok (jail, absPath))
    (hpath : w.assertInJail links t absPath = .ok path) (hx : entryAt t.shape links path = some x) :
    Left links w t jail path x ∧ (remove links w rel ⟨t, []⟩).2 = ⟨t, []⟩ ∨
      ¬ Left links w t jail path x ∧ x ≠ [] ∧ ∃ dir, (remove links w rel ⟨t, []⟩).2 =
        ⟨t.del x, [⟨entryAt t.shape links absPath, x, dir⟩]⟩ := by
  obtain ⟨kind, hkind⟩ := Option.isSome_iff_exists.1 (lplace_isSome Tree.shape_root hx)
  have hlstat : lstat links t path = .ok kind := by rw [lstat, hx, Option.bind_some, hkind]
  unfold remove
  simp only [bind_apply, asks, hres, hpath]
  by_cases hjail : path = jail
  · rw [raiseIf, if_pos hjail]
    exact Or.inl ⟨Or.inl hjail, rfl⟩
  · rw [raiseIf, if_neg hjail]
    simp only [hlstat]
    cases hlink : checkLink links w jail t path kind with
    | error e => exact Or.inl ⟨Or.inr (Or.inl ⟨kind, e, hkind, hlink⟩), rfl⟩
    | ok u =>
      have hleft : Left links w t jail path x → kind = .dir ∧ (x = [] ∨ t.listdir x ≠ []) := by
        rintro (h | ⟨kind', e, hk, he⟩ | ⟨hdir, h⟩)
        · exact absurd h hjail
        · obtain rfl := Option.some.inj (hkind.symm.trans hk)
          rw [hlink] at he
          cases he
        · exact ⟨Option.some.inj (hkind.symm.trans hdir), h⟩
      simp only
      by_cases hdir : kind = .dir
      · subst hdir
        obtain ⟨m, hm⟩ := follow_of_lplace hx hkind
        rw [if_pos rfl]
        simp only [bind_apply, asks, listdirNames, hm, hkind, if_true]
        by_cases hnames : t.listdir x = []
        · rw [raiseIf, if_neg (not_not.2 hnames)]
          unfold fsRmdir deleteFound
          simp only [hx]
          by_cases hroot : x = []
          · refine Or.inl ⟨Or.inr (Or.inr ⟨hkind, Or.inl hroot⟩), ?_⟩
            rw [Option.filter_some, if_neg (by simp [hroot])]
          · refine Or.inr ⟨fun h => ?_, hroot, true, ?_⟩
            · exact (hleft h).2.elim hroot fun h => h hnames
            · rw [Option.filter_some, if_pos (by simp [hroot, hkind, hnames])]
              rfl
        · rw [raiseIf, if_pos hnames]
          exact Or.inl ⟨Or.inr (Or.inr ⟨hkind, Or.inr hnames⟩), rfl⟩
      · rw [if_neg hdir]
        have hne : t.shape x ≠ some .dir := fun h => hdir (Option.some.inj (hkind.symm.trans h))
        refine Or.inr ⟨fun h => hdir (hleft h).1, Tree.ne_root_of_shape hne, false, ?_⟩
        unfold fsRemove deleteFound
        simp only [bind_apply, hx]
        rw [Option.filter_some, if_pos (by simp [hne])]
        rfl

/-- **A delete of one entry** deletes the selected one only iff its path leads to that, or what it leads to is left. -/
theorem remove_onlySelected_iff : OnlySelected (selected links w t rel) t (remove links w rel ⟨t, []⟩).2 ↔
    ∀ jail absPath path x, w.resolveLogical rel = .ok (jail, absPath) → w.assertInJail links t absPath = .ok path →
      entryAt t.shape links path = some x → entryAt t.shape links absPath = some x ∨ Left links w t jail path x := by
  constructor
  · intro h jail absPath path x hres hpath hx
    rcases remove_tree_cases hres hpath hx with ⟨hleft, -⟩ | ⟨-, -, dir, heq⟩
    · exact Or.inr hleft
    · rw [heq] at h
      exact Or.inl (h.own _ List.mem_cons_self)
  · intro h
    cases hres : w.resolveLogical rel with
    | error err =>
      unfold remove
      simp only [bind_apply, asks, hres]
      exact onlySelected_start _ t
    | ok pair =>
      obtain ⟨jail, absPath⟩ := pair
      have hsel : selected links w t rel = entryAt t.shape links absPath := by rw [selected, hres]
      by_cases hnone : ∀ path, w.assertInJail links t absPath = .ok path → entryAt t.shape links path = none
      · rw [remove_tree_of_error hnone hres]
        exact onlySelected_start _ t
      · push Not at hnone
        obtain ⟨path, hpath, hx⟩ := hnone
        obtain ⟨x, hx⟩ := Option.ne_none_iff_exists'.1 hx
        rcases remove_tree_cases hres hpath hx with ⟨-, heq⟩ | ⟨hleft, hroot, dir, heq⟩
        · rw [heq]
          exact onlySelected_start _ t
        · have hown := (h jail absPath path x hres hpath hx).resolve_right hleft
          rw [heq, hsel, hown]
          refine Below.onlySelected ⟨[⟨some x, x, dir⟩], rfl, by simp, fun q => ?_⟩
          rw [Tree.shape_del hroot]
          simp

end Calls

/-- A folder with a link out of the jail, one to nothing and a file, next to another. -/
def plainFolder : Tree where
  nodes := homeNodes [([lit "docs", lit "a"], .other), ([lit "docs", lit "l"], .link (lit "gone/x")),
    ([lit "docs", lit "out"], .link (lit "/etc")), ([lit "keep"], .other)]
  nodup := by decide
  legal := by decide

/-- A folder whose link leads to the file beside it. -/
def linkedFolder : Tree where
  nodes := homeNodes [([lit "docs", lit "l"], .link (lit "../keep")), ([lit "keep"], .other)]
  nodup := by decide
  legal := by decide

end PiHerder.Files
