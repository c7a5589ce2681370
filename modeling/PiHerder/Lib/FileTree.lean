import PiHerder.Lib.PyStr

/-!
# A file tree with symbolic links

Places are named from the root of the file system. `follow` is path resolution as the kernel does it: through
directories, and on from the target of every symbolic link, `n` links at most. `lplace` does not follow the
last component, as `lstat` and `lchown` do not.

* `follow_append` — a path that goes on is resolved on from where it was;
* `follow_through`, `lplace_through` — down through directories no link is followed;
* `target` — where a relative path leads when no link may be passed on the way.
-/
namespace Lib
namespace FileTree
open Str

/-- A path component. -/
abbrev Name := Str

inductive Kind
  | dir
  | link (dest : Str)
  | other
deriving DecidableEq, Repr

/-- What is where. -/
abbrev Shape := List Name → Option Kind

structure Attr where
  uid : Nat
  gid : Nat
  mode : Nat
deriving DecidableEq, Repr

/-- Owner, group and mode of every node. -/
abbrev Attrs := List Name → Attr

/-- A component that names an entry of a directory. -/
def Entry (c : Name) : Prop := c ≠ [] ∧ c ≠ lit "." ∧ c ≠ lit ".."

instance (c : Name) : Decidable (Entry c) := inferInstanceAs (Decidable (_ ∧ _))

variable {shape : Shape}

/-- Down through directories; `onLink` goes on from a link, with the path its target starts from. -/
def goDown (shape : Shape) (n : Nat) (onLink : List Name → List Name → Option (Nat × List Name)) (cur : List Name) :
    List Name → Option (Nat × List Name)
  | [] => some (n, cur)
  | c :: rest =>
    if shape cur ≠ some .dir then none
    else if c = [] ∨ c = lit "." then goDown shape n onLink cur rest
    else if c = lit ".." then goDown shape n onLink cur.dropLast rest
    else match shape (cur ++ [c]) with
      | none => none
      | some (.link dest) => onLink (if startsWith (lit "/") dest then [] else cur) (split '/' dest ++ rest)
      | some _ => goDown shape n onLink (cur ++ [c]) rest

/-- Path resolution from a directory: the place, and how many links may still be followed. -/
def follow (shape : Shape) : Nat → List Name → List Name → Option (Nat × List Name)
  | 0 => goDown shape 0 fun _ _ => none
  | n + 1 => goDown shape (n + 1) (follow shape n)

/-- Resolution that does not follow the last component. -/
def lplace (shape : Shape) (n : Nat) (cur path : List Name) : Option (List Name) :=
  match path.getLast? with
  | some c =>
    if Entry c then
      (follow shape n cur path.dropLast).bind fun d =>
        if shape d.2 = some .dir ∧ (shape (d.2 ++ [c])).isSome then some (d.2 ++ [c]) else none
    else (follow shape n cur path).map (·.2)
  | none => (follow shape n cur path).map (·.2)

theorem goDown_append {n : Nat} {onLink : List Name → List Name → Option (Nat × List Name)}
    (h : ∀ cur a b, onLink cur (a ++ b) = (onLink cur a).bind fun r => follow shape r.1 r.2 b) (b : List Name)
    (hend : ∀ cur, goDown shape n onLink cur b = follow shape n cur b) :
    ∀ (a cur : List Name), goDown shape n onLink cur (a ++ b) =
      (goDown shape n onLink cur a).bind fun r => follow shape r.1 r.2 b
  | [], cur => hend cur
  | c :: a, cur => by
    have ih := goDown_append h b hend a
    rw [List.cons_append]
    unfold goDown
    split
    · rfl
    · split
      · exact ih cur
      · split
        · exact ih cur.dropLast
        · cases hk : shape (cur ++ [c]) with
          | none => rfl
          | some k =>
            cases k with
            | dir => exact ih (cur ++ [c])
            | other => exact ih (cur ++ [c])
            | link dest =>
              simp only
              rw [← List.append_assoc]
              exact h _ _ b

/-- **A path that goes on is resolved on from where it was.** -/
theorem follow_append (n : Nat) (cur a b : List Name) :
    follow shape n cur (a ++ b) = (follow shape n cur a).bind fun r => follow shape r.1 r.2 b := by
  induction n generalizing cur a b with
  | zero => exact goDown_append (fun _ _ _ => rfl) b (fun _ => rfl) a cur
  | succ n ih => exact goDown_append (fun cur a b => ih cur a b) b (fun _ => rfl) a cur

/-- Every place from `d` down along `path` is a directory. -/
def Through (shape : Shape) (d : List Name) : List Name → Prop
  | [] => shape d = some .dir
  | c :: rest => shape d = some .dir ∧ Entry c ∧ Through shape (d ++ [c]) rest

theorem Through.start {d path : List Name} (h : Through shape d path) : shape d = some .dir := by
  cases path with
  | nil => exact h
  | cons c rest => exact h.1

theorem Through.end {path : List Name} : ∀ {d : List Name}, Through shape d path → shape (d ++ path) = some .dir := by
  induction path with
  | nil =>
    intro d h
    rwa [List.append_nil]
  | cons c rest ih =>
    intro d h
    have := ih h.2.2
    rwa [List.append_assoc] at this

theorem Through.concat {path : List Name} {c : Name} (hc : Entry c) : ∀ {d : List Name}, Through shape d path →
    shape (d ++ path ++ [c]) = some .dir → Through shape d (path ++ [c]) := by
  induction path with
  | nil =>
    intro d h hdir
    rw [List.append_nil] at hdir
    exact ⟨h, hc, hdir⟩
  | cons x rest ih =>
    intro d h hdir
    refine ⟨h.1, h.2.1, ih h.2.2 ?_⟩
    rwa [List.append_assoc d [x] rest]

theorem goDown_entry {n : Nat} {onLink : List Name → List Name → Option (Nat × List Name)} {cur rest : List Name} {c : Name}
    (hd : shape cur = some .dir) (hc : Entry c) (hk : shape (cur ++ [c]) = some .dir) :
    goDown shape n onLink cur (c :: rest) = goDown shape n onLink (cur ++ [c]) rest := by
  rw [goDown, if_neg (not_not.2 hd), if_neg (not_or.2 ⟨hc.1, hc.2.1⟩), if_neg hc.2.2, hk]

theorem goDown_through {n : Nat} {onLink : List Name → List Name → Option (Nat × List Name)} {path : List Name} :
    ∀ {d : List Name}, Through shape d path → goDown shape n onLink d path = some (n, d ++ path) := by
  induction path with
  | nil =>
    intro d _
    rw [goDown, List.append_nil]
  | cons c rest ih =>
    intro d h
    rw [goDown_entry h.1 h.2.1 h.2.2.start, ih h.2.2, List.append_assoc]
    rfl

/-- Through directories the path is its own place, and no link is used up. -/
theorem follow_through {n : Nat} {d path : List Name} (h : Through shape d path) :
    follow shape n d path = some (n, d ++ path) := by
  cases n with
  | zero => exact goDown_through h
  | succ n => exact goDown_through h

theorem lplace_concat {n : Nat} {cur path : List Name} {c : Name} (hc : Entry c) :
    lplace shape n cur (path ++ [c]) = (follow shape n cur path).bind fun d =>
      if shape d.2 = some .dir ∧ (shape (d.2 ++ [c])).isSome then some (d.2 ++ [c]) else none := by
  unfold lplace
  rw [List.getLast?_concat, List.dropLast_concat]
  exact if_pos hc

/-- A path to the directory `d`, as the kernel resolves it. -/
def LeadsTo (shape : Shape) (n : Nat) (cur path d : List Name) : Prop := ∃ m, follow shape n cur path = some (m, d)

theorem LeadsTo.through {n : Nat} {cur root d path : List Name} (h : LeadsTo shape n cur root d) (ht : Through shape d path) :
    LeadsTo shape n cur (root ++ path) (d ++ path) := by
  obtain ⟨m, hm⟩ := h
  exact ⟨m, by rw [follow_append, hm, Option.bind_some, follow_through ht]⟩

/-- Below directories the last component is looked up where it stands. -/
theorem LeadsTo.lplace {n : Nat} {cur path d : List Name} (h : LeadsTo shape n cur path d) (hd : shape d = some .dir) {c : Name}
    (hc : Entry c) : FileTree.lplace shape n cur (path ++ [c]) = if (shape (d ++ [c])).isSome then some (d ++ [c]) else none := by
  obtain ⟨m, hm⟩ := h
  rw [lplace_concat hc, hm, Option.bind_some]
  simp only [hd, true_and]

/-- What is not a link is where the path says, followed or not. -/
theorem LeadsTo.follow {n : Nat} {cur path d : List Name} (h : LeadsTo shape n cur path d) (hd : shape d = some .dir) {c : Name}
    (hc : Entry c) {k : Kind} (hk : shape (d ++ [c]) = some k) (hlink : ∀ dest, k ≠ .link dest) :
    LeadsTo shape n cur (path ++ [c]) (d ++ [c]) := by
  obtain ⟨m, hm⟩ := h
  refine ⟨m, ?_⟩
  rw [follow_append, hm, Option.bind_some]
  have hstep : ∀ onLink, goDown shape m onLink d [c] = some (m, d ++ [c]) := by
    intro onLink
    rw [goDown, if_neg (not_not.2 hd), if_neg (not_or.2 ⟨hc.1, hc.2.1⟩), if_neg hc.2.2, hk]
    cases k with
    | dir => rfl
    | other => rfl
    | link dest => exact absurd rfl (hlink dest)
  cases m with
  | zero => exact hstep _
  | succ m => exact hstep _

/-- **Where a relative path leads when no link may be passed on the way**; its last component may be one. -/
def target (shape : Shape) (d : List Name) : List Name → Option (List Name)
  | [] => some d
  | [c] => if (shape (d ++ [c])).isSome then some (d ++ [c]) else none
  | c :: rest => if shape (d ++ [c]) = some .dir then target shape (d ++ [c]) rest else none

theorem target_dir {d : List Name} {c : Name} (h : shape (d ++ [c]) = some .dir) (rest : List Name) :
    target shape d (c :: rest) = target shape (d ++ [c]) rest := by
  cases rest with
  | nil =>
    unfold target
    rw [h]
    rfl
  | cons x rest =>
    rw [target, if_pos h]
    simp

theorem target_notDir {d : List Name} {c : Name} (h : shape (d ++ [c]) ≠ some .dir) {rest : List Name} (hrest : rest ≠ []) :
    target shape d (c :: rest) = none := by
  rw [target, if_neg h]
  exact hrest

/-- What a target is: the start, or an entry of a directory that is reached through directories. -/
theorem target_eq_some {path : List Name} : ∀ {d p : List Name}, shape d = some .dir → (∀ c ∈ path, Entry c) →
    target shape d path = some p → path = [] ∧ p = d ∨
      ∃ init c, path = init ++ [c] ∧ Through shape d init ∧ Entry c ∧ p = d ++ init ++ [c] ∧ (shape p).isSome := by
  induction path with
  | nil =>
    intro d p _ _ h
    exact Or.inl ⟨rfl, (Option.some.inj h).symm⟩
  | cons c rest ih =>
    intro d p hd hentry h
    have hc := hentry c List.mem_cons_self
    by_cases hdir : shape (d ++ [c]) = some .dir
    · rw [target_dir hdir] at h
      rcases ih hdir (fun x hx => hentry x (List.mem_cons_of_mem _ hx)) h with ⟨rfl, rfl⟩ | ⟨init, x, rfl, ht, hx, rfl, hp⟩
      · exact Or.inr ⟨[], c, rfl, hd, hc, by simp, by rw [hdir]; rfl⟩
      · exact Or.inr ⟨c :: init, x, rfl, ⟨hd, hc, ht⟩, hx, by simp, hp⟩
    · cases rest with
      | nil =>
        rw [target] at h
        split at h
        · rename_i hsome
          obtain rfl := Option.some.inj h
          exact Or.inr ⟨[], c, rfl, hd, hc, by simp, hsome⟩
        · cases h
      | cons x rest =>
        rw [target_notDir hdir (by simp)] at h
        cases h

/-- A path that names the directory `d` itself, not a link to it. -/
structure Names (shape : Shape) (n : Nat) (cur path d : List Name) : Prop where
  leads : LeadsTo shape n cur path d
  isDir : shape d = some .dir
  place : lplace shape n cur path = some d

/-- **Below a named directory a target is where its path is looked up**, and where it is followed to, when it is
no link itself. -/
theorem Names.target {n : Nat} {cur root d path p : List Name} (h : Names shape n cur root d) (hentry : ∀ c ∈ path, Entry c)
    (ht : FileTree.target shape d path = some p) :
    FileTree.lplace shape n cur (root ++ path) = some p ∧
      ((∀ dest, shape p ≠ some (.link dest)) → LeadsTo shape n cur (root ++ path) p) := by
  rcases target_eq_some h.isDir hentry ht with ⟨rfl, rfl⟩ | ⟨init, c, rfl, hthrough, hc, rfl, hp⟩
  · rw [List.append_nil]
    exact ⟨h.place, fun _ => h.leads⟩
  · have hinit := h.leads.through hthrough
    rw [← List.append_assoc]
    refine ⟨?_, fun hlink => ?_⟩
    · rw [hinit.lplace hthrough.end hc, if_pos hp]
    · obtain ⟨k, hk⟩ := Option.isSome_iff_exists.1 hp
      exact hinit.follow hthrough.end hc hk fun dest heq => hlink dest (heq ▸ hk)

/-- What is not there is not found, followed or not. -/
theorem LeadsTo.missing {n : Nat} {cur path d : List Name} (h : LeadsTo shape n cur path d) (hd : shape d = some .dir) {c : Name}
    (hc : Entry c) (hk : shape (d ++ [c]) = none) :
    FileTree.lplace shape n cur (path ++ [c]) = none ∧ FileTree.follow shape n cur (path ++ [c]) = none := by
  refine ⟨by rw [h.lplace hd hc, hk]; rfl, ?_⟩
  obtain ⟨m, hm⟩ := h
  have hstep : ∀ onLink, goDown shape m onLink d [c] = none := by
    intro onLink
    rw [goDown, if_neg (not_not.2 hd), if_neg (not_or.2 ⟨hc.1, hc.2.1⟩), if_neg hc.2.2, hk]
  rw [follow_append, hm, Option.bind_some]
  cases m with
  | zero => exact hstep _
  | succ m => exact hstep _

/-- A directory names itself from within. -/
theorem names_self {n : Nat} {d : List Name} (hd : shape d = some .dir) : Names shape n d [lit "."] d := by
  have hstep : ∀ m onLink, goDown shape m onLink d [lit "."] = some (m, d) := by
    intro m onLink
    rw [goDown, if_neg (not_not.2 hd), if_pos (Or.inr rfl), goDown]
  have hfollow : FileTree.follow shape n d [lit "."] = some (n, d) := by
    cases n with
    | zero => exact hstep _ _
    | succ n => exact hstep _ _
  refine ⟨⟨n, hfollow⟩, hd, ?_⟩
  have hdot : ¬ Entry (lit ".") := by decide
  unfold FileTree.lplace
  simp only [List.getLast?_singleton]
  rw [if_neg hdot, hfollow]
  rfl

section mono
variable {shape' : Shape} (h : ∀ p k, shape p = some k → shape' p = some k)
include h

theorem goDown_mono {n : Nat} {onLink onLink' : List Name → List Name → Option (Nat × List Name)}
    (hon : ∀ cur path r, onLink cur path = some r → onLink' cur path = some r) : ∀ {path cur : List Name} {r : Nat × List Name},
      goDown shape n onLink cur path = some r → goDown shape' n onLink' cur path = some r
  | [], _, _, hr => hr
  | c :: rest, cur, r, hr => by
    unfold goDown at hr ⊢
    by_cases hdir : shape cur = some .dir
    · rw [if_neg (not_not.2 hdir)] at hr
      rw [if_neg (not_not.2 (h _ _ hdir))]
      split at hr
      · rename_i hdot
        rw [if_pos hdot]
        exact goDown_mono hon hr
      · rename_i hdot
        rw [if_neg hdot]
        split at hr
        · rename_i hup
          rw [if_pos hup]
          exact goDown_mono hon hr
        · rename_i hup
          rw [if_neg hup]
          cases hk : shape (cur ++ [c]) with
          | none =>
            rw [hk] at hr
            cases hr
          | some k =>
            rw [hk] at hr
            rw [h _ _ hk]
            cases k with
            | link dest => exact hon _ _ _ hr
            | dir => exact goDown_mono hon hr
            | other => exact goDown_mono hon hr
    · rw [if_pos hdir] at hr
      cases hr

/-- **A path that is found is found** where there is more. -/
theorem follow_mono {n : Nat} : ∀ {cur path : List Name} {r : Nat × List Name}, follow shape n cur path = some r → follow shape' n cur path = some r := by
  induction n with
  | zero => exact goDown_mono h fun _ _ _ hr => by simp at hr
  | succ n ih => exact goDown_mono h fun _ _ _ hr => ih hr

end mono

end FileTree
end Lib
