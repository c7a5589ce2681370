import PiHerder.Lib.Path

/-!
# `pathlib`

A `PurePosixPath` is a root and its names: empty components and `.` are dropped where a text is read, and `..`
stays. A rooted text joined to a path replaces it.

* `join_relative`, `join_rooted` — the two cases of `/`;
* `place_join` — where a joined path leads, as a place from the root;
* `below_join` — a relative text that does not lead up stays below.
-/
namespace Lib
open Str

structure PurePath where
  root : Str
  parts : List Str
deriving DecidableEq, Repr

namespace PurePath

/-- `Path(s)`. -/
def ofStr (s : Str) : PurePath := ⟨initialSlashes s, folders s⟩

/-- `p / s`. -/
def join (p : PurePath) (s : Str) : PurePath := if rooted s then ofStr s else ⟨p.root, p.parts ++ folders s⟩

/-- `p.name`. -/
def name (p : PurePath) : Str := p.parts.getLast?.getD []

/-- `str(p)`. -/
def text (p : PurePath) : Str :=
  let t := p.root ++ Str.join '/' p.parts
  if t = [] then lit "." else t

/-- `p.is_absolute()`. -/
def absolute (p : PurePath) : Bool := !p.root.isEmpty

/-- Where the path leads, read without the file system: `..` takes the name before it away. -/
def comps (p : PurePath) : List Str := (p.parts.foldl (normStep p.absolute) []).reverse

/-- `q` is `p` or leads below it. -/
def Below (p q : PurePath) : Prop := p.absolute = q.absolute ∧ p.comps <+: q.comps

instance (p q : PurePath) : Decidable (Below p q) := inferInstanceAs (Decidable (_ ∧ _))

theorem mem_folders {s c : Str} : c ∈ folders s ↔ c ∈ split '/' s ∧ c ≠ [] ∧ c ≠ lit "." := by
  unfold folders
  rw [List.mem_filter, decide_eq_true_eq]

theorem join_rooted {s : Str} (h : rooted s = true) (p : PurePath) : p.join s = ofStr s := by
  unfold join
  rw [if_pos h]

theorem join_relative {s : Str} (h : rooted s = false) (p : PurePath) : p.join s = ⟨p.root, p.parts ++ folders s⟩ := by
  unfold join
  rw [h, if_neg Bool.false_ne_true]

theorem initialSlashes_eq_nil {s : Str} : initialSlashes s = [] ↔ rooted s = false := by
  unfold initialSlashes rooted
  by_cases h : startsWith (lit "/") s = true
  · rw [if_pos h, h]
    refine iff_of_false ?_ Bool.noConfusion
    split
    · decide
    · decide
  · have htwo : startsWith (lit "//") s = false := by
      rw [Bool.eq_false_iff]
      intro htwo
      obtain ⟨t, rfl⟩ := List.isPrefixOf_iff_prefix.1 htwo
      exact h rfl
    rw [if_neg h, htwo, Bool.false_and, if_neg Bool.false_ne_true]
    exact iff_of_true rfl (Bool.eq_false_iff.2 h)

theorem absolute_ofStr (s : Str) : (ofStr s).absolute = rooted s := by
  have hnil : (initialSlashes s).isEmpty = !rooted s := by
    rw [Bool.eq_iff_iff, List.isEmpty_iff, initialSlashes_eq_nil, Bool.not_eq_true']
  show (!(initialSlashes s).isEmpty) = rooted s
  rw [hnil, Bool.not_not]

theorem comps_append {p : PurePath} {ks : List Str} (h : ∀ k ∈ ks, Plain k) :
    (⟨p.root, p.parts ++ ks⟩ : PurePath).comps = p.comps ++ ks := by
  unfold comps
  rw [List.foldl_append, foldl_plain h, List.reverse_append, List.reverse_reverse]
  rfl

theorem plain_folders {s : Str} (h : lit ".." ∉ split '/' s) : ∀ c ∈ folders s, Plain c := fun _ hc =>
  ⟨(mem_folders.1 hc).2.1, (mem_folders.1 hc).2.2, fun heq => h (heq ▸ (mem_folders.1 hc).1)⟩

/-- A relative text that does not lead up stays below. -/
theorem below_join {s : Str} (h : rooted s = false) (hup : lit ".." ∉ split '/' s) (p : PurePath) : Below p (p.join s) := by
  rw [join_relative h]
  refine ⟨rfl, ?_⟩
  rw [comps_append (plain_folders hup)]
  exact List.prefix_append _ _

/-- The names of a path, as a text. -/
theorem folders_join {ks : List Str} (h : ∀ k ∈ ks, Plain k ∧ '/' ∉ k) : folders (Str.join '/' ks) = ks := by
  by_cases hks : ks = []
  · subst hks
    decide
  · unfold folders
    rw [split_join hks fun k hk => (h k hk).2]
    exact List.filter_eq_self.2 fun k hk => decide_eq_true ⟨(h k hk).1.1, (h k hk).1.2.1⟩

theorem rooted_join {ks : List Str} (h : ∀ k ∈ ks, Plain k ∧ '/' ∉ k) : rooted (Str.join '/' ks) = false := by
  by_cases hks : ks = []
  · subst hks
    decide
  · rw [Bool.eq_false_iff]
    intro hroot
    obtain ⟨t, ht⟩ := List.isPrefixOf_iff_prefix.1 hroot
    have hmem : ([] : Str) ∈ split '/' (Str.join '/' ks) := by
      rw [← ht, show lit "/" ++ t = '/' :: t from rfl, split_slash]
      exact List.mem_cons_self
    rw [split_join hks fun k hk => (h k hk).2] at hmem
    exact (h [] hmem).1.1 rfl

/-! ## With a working folder -/

/-- Where a text leads that is read on from the place `r`. -/
def walk (r : List Str) (s : Str) : List Str := ((folders s).foldl (normStep true) r.reverse).reverse

/-- Where `r / s` leads. -/
def reach (r : List Str) (s : Str) : List Str := walk (if rooted s then [] else r) s

/-- Where the path leads, from the root. A relative one starts in the working folder. -/
def place (cwd : List Str) (p : PurePath) : List Str :=
  (p.parts.foldl (normStep true) (if p.absolute then [] else cwd.reverse)).reverse

theorem place_ofStr (cwd : List Str) (s : Str) : (ofStr s).place cwd = reach cwd s := by
  unfold place reach walk
  rw [absolute_ofStr]
  by_cases hs : rooted s = true
  · rw [if_pos hs, if_pos hs]
    rfl
  · rw [if_neg hs, if_neg hs]
    rfl

theorem place_join (cwd : List Str) (p : PurePath) (s : Str) : (p.join s).place cwd = reach (p.place cwd) s := by
  by_cases hs : rooted s = true
  · rw [join_rooted hs, place_ofStr]
    unfold reach
    rw [if_pos hs, if_pos hs]
  · rw [Bool.not_eq_true] at hs
    rw [join_relative hs]
    unfold reach walk place
    rw [hs, if_neg Bool.false_ne_true, List.foldl_append, List.reverse_reverse]
    rfl

/-- Without a `..` the names are added. -/
theorem walk_down {s : Str} (h : lit ".." ∉ split '/' s) (r : List Str) : walk r s = r ++ folders s := by
  unfold walk
  rw [foldl_plain (plain_folders h), List.reverse_append, List.reverse_reverse, List.reverse_reverse]

/-- A text that goes on behind a slash is read on from where it was. -/
theorem walk_append (r : List Str) (s t : Str) : walk r (s ++ '/' :: t) = walk (walk r s) t := by
  have hfolders : folders (s ++ '/' :: t) = folders s ++ folders t := by
    unfold folders
    rw [split_append_cons, List.filter_append]
  unfold walk
  rw [hfolders, List.foldl_append, List.reverse_reverse]

end PurePath
end Lib
