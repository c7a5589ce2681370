import Mathlib
import PiHerder.Lib.FileTree

/-!
# Files with their contents

`Files` adds contents to the shape of `FileTree`. `touch`, `write` and `rename` are what Python does to one entry of a
directory: the first two follow a link that stands there, also to a file that is not there yet. Where no link stands
they change that entry alone.
-/
namespace Lib
namespace FileTree
open Str

/-- A socket, a pipe or a device is `special`. -/
inductive Node (β : Type)
  | dir
  | link (dest : Str)
  | file (content : β)
  | special
deriving DecidableEq, Repr

variable {β : Type}

def Node.kind : Node β → Kind
  | .dir => .dir
  | .link dest => .link dest
  | .file _ => .other
  | .special => .other

/-- What is where, with the contents. -/
abbrev Files (β : Type) := List Name → Option (Node β)

def Files.shape (f : Files β) : Shape := fun p => (f p).map Node.kind

/-- Where `open` makes a file that is not there: through links to its name. -/
def creatPlace (shape : Shape) : Nat → Nat → List Name → List Name → Option (List Name)
  | 0, _, _, _ => none
  | fuel + 1, n, cur, path =>
    match path.getLast? with
    | none => none
    | some c =>
      if Entry c then
        (follow shape n cur path.dropLast).bind fun d =>
          if shape d.2 ≠ some .dir then none
          else match shape (d.2 ++ [c]) with
            | none => some (d.2 ++ [c])
            | some (.link dest) => if d.1 = 0 then none else creatPlace shape fuel (d.1 - 1) (if startsWith (lit "/") dest then [] else d.2) (split '/' dest)
            | some _ => none
      else none

/-- Every link that is followed uses one of the `n`. -/
def creat (shape : Shape) (n : Nat) (cur path : List Name) : Option (List Name) := creatPlace shape (n + 1) n cur path

/-- `Path.touch` of an entry of `d`: what is there stays. -/
def touch (empty : β) (n : Nat) (f : Files β) (d : List Name) (c : Name) : Option (Files β) :=
  match follow f.shape n d [c] with
  | some _ => some f
  | none => (creat f.shape n d [c]).map fun p => Function.update f p (some (.file empty))

/-- `Path.write_text`; a special file may take what is written, or not open. -/
def write (opens : Bool) (n : Nat) (f : Files β) (d : List Name) (c : Name) (content : β) : Option (Files β) :=
  match follow f.shape n d [c] with
  | some (_, p) =>
    match f p with
    | some (.file _) => some (Function.update f p (some (.file content)))
    | some .special => if opens then some f else none
    | _ => none
  | none => (creat f.shape n d [c]).map fun p => Function.update f p (some (.file content))

/-- `Path.replace` of an entry that is no directory. -/
def rename (f : Files β) (d : List Name) (a b : Name) : Option (Files β) :=
  match f (d ++ [a]) with
  | none => none
  | some .dir => none
  | some node => if f.shape (d ++ [b]) = some .dir then none else some (Function.update (Function.update f (d ++ [a]) none) (d ++ [b]) (some node))

/-- `d` holds the tree and nothing else. -/
def mirror (f : Files β) (d : List Name) (tree : Files β) : Files β := fun p => if d <+: p then tree (p.drop d.length) else f p

theorem mirror_below (f : Files β) (d : List Name) (tree : Files β) (q : List Name) : mirror f d tree (d ++ q) = tree q := by
  unfold mirror
  rw [if_pos (List.prefix_append d q), List.drop_left]

theorem follow_nil (shape : Shape) (n : Nat) (d : List Name) : follow shape n d [] = some (n, d) := by
  cases n <;> rfl

section entries
variable {f f' : Files β} {n : Nat} {d : List Name} {c : Name}

theorem shape_dir (hd : f d = some .dir) : f.shape d = some .dir := by
  unfold Files.shape
  rw [hd]
  rfl

/-- What stands there, and is no link, is found. -/
theorem follow_entry (hd : f d = some .dir) (hc : Entry c) {node : Node β} (hnode : f (d ++ [c]) = some node) (hlink : ∀ dest, node ≠ .link dest) :
    ∃ m, follow f.shape n d [c] = some (m, d ++ [c]) := by
  have hself : LeadsTo f.shape n d [] d := ⟨n, follow_nil f.shape n d⟩
  have hkind : f.shape (d ++ [c]) = some node.kind := by
    unfold Files.shape
    rw [hnode]
    rfl
  refine hself.follow (shape_dir hd) hc hkind fun dest heq => ?_
  cases node with
  | link dest' => exact hlink dest' rfl
  | dir => cases heq
  | file content => cases heq
  | special => cases heq

/-- What is not there is made there. -/
theorem creat_entry (hd : f d = some .dir) (hc : Entry c) (hnone : f (d ++ [c]) = none) :
    follow f.shape n d [c] = none ∧ creat f.shape n d [c] = some (d ++ [c]) := by
  have hself : LeadsTo f.shape n d [] d := ⟨n, follow_nil f.shape n d⟩
  have hmissing : f.shape (d ++ [c]) = none := by
    unfold Files.shape
    rw [hnone]
    rfl
  refine ⟨(hself.missing (shape_dir hd) hc hmissing).2, ?_⟩
  unfold creat creatPlace
  simp only [List.getLast?_singleton, List.dropLast_singleton, if_pos hc, follow_nil, Option.bind_some, shape_dir hd, hmissing, ne_eq, not_true_eq_false, if_false]

/-- **A touch** makes an empty file where nothing is. -/
theorem touch_entry {empty : β} (hd : f d = some .dir) (hc : Entry c) (hlink : ∀ dest, f (d ++ [c]) ≠ some (.link dest)) (h : touch empty n f d c = some f') :
    f' = f ∨ f' = Function.update f (d ++ [c]) (some (.file empty)) := by
  unfold touch at h
  cases hnode : f (d ++ [c]) with
  | none =>
    obtain ⟨hfollow, hcreat⟩ := creat_entry (n := n) hd hc hnode
    rw [hfollow, hcreat] at h
    exact .inr (Option.some.inj h).symm
  | some node =>
    obtain ⟨m, hfollow⟩ := follow_entry (n := n) hd hc hnode fun dest heq => hlink dest (heq ▸ hnode)
    rw [hfollow] at h
    exact .inl (Option.some.inj h).symm

/-- **A write** leaves what is written, or the special file that took it. -/
theorem write_entry {opens : Bool} {content : β} (hd : f d = some .dir) (hc : Entry c) (hlink : ∀ dest, f (d ++ [c]) ≠ some (.link dest))
    (h : write opens n f d c content = some f') : ∃ node, (node = .file content ∨ node = .special) ∧ f' = Function.update f (d ++ [c]) (some node) := by
  unfold write at h
  cases hnode : f (d ++ [c]) with
  | none =>
    obtain ⟨hfollow, hcreat⟩ := creat_entry (n := n) hd hc hnode
    rw [hfollow, hcreat] at h
    exact ⟨_, .inl rfl, (Option.some.inj h).symm⟩
  | some node =>
    obtain ⟨m, hfollow⟩ := follow_entry (n := n) hd hc hnode fun dest heq => hlink dest (heq ▸ hnode)
    simp only [hfollow, hnode] at h
    cases node with
    | dir => cases h
    | link dest => cases h
    | file content' => exact ⟨_, .inl rfl, (Option.some.inj h).symm⟩
    | special =>
      refine ⟨_, .inr rfl, ?_⟩
      simp only at h
      split at h
      · rw [← Option.some.inj h, ← hnode, Function.update_eq_self]
      · cases h

/-- **A rename** moves the entry. -/
theorem rename_entry {a b : Name} {node : Node β} (hnode : f (d ++ [a]) = some node) (h : rename f d a b = some f') :
    f' = Function.update (Function.update f (d ++ [a]) none) (d ++ [b]) (some node) := by
  unfold rename at h
  rw [hnode] at h
  cases node with
  | dir => cases h
  | link dest =>
    simp only at h
    split at h
    · cases h
    · exact (Option.some.inj h).symm
  | file content =>
    simp only at h
    split at h
    · cases h
    · exact (Option.some.inj h).symm
  | special =>
    simp only at h
    split at h
    · cases h
    · exact (Option.some.inj h).symm

end entries

end FileTree
end Lib
