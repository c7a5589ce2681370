import Mathlib
import PiHerder.Lib.Under

/-!
# Leaving files out by patterns

A copier walks a folder and leaves out what its exclude patterns match. A pattern is matched against the end of a
path, from some component on, and against files only, unless it ends in `/**`. What a single pattern matches is a
parameter `Glob`; `Glob.Documented` is what is relied on, `Glob.plain` one that has it.

* `mem_walk` — a folder that is left out as a whole holds no file that would be copied;
* `hits_iff`, `hits_deep` — what `q` and `q/**` leave out, as runs of components;
* `Glob.plain_documented` — the assumption can be met.
-/
namespace Lib
namespace Globs
open Str

/-- The name of a file or a folder. -/
abbrev Name := {c : Str // Plain c ∧ '/' ∉ c}

/-- What a folder holds, entry by entry. -/
inductive Folder
  | empty
  | file (name : Name) (rest : Folder)
  | sub (name : Name) (inside rest : Folder)

/-- The files of a folder, at every depth. -/
def Folder.files : Folder → List (List Str)
  | empty => []
  | file name rest => [name.1] :: rest.files
  | sub name inside rest => (inside.files.map fun f => name.1 :: f) ++ rest.files

/-- Which patterns are taken, and which texts each matches from end to end. -/
structure Glob where
  valid : Str → Bool
  reads : Str → Str → Bool

def metacharacters : List Char := ['*', '?', '[', ']', '{', '}', '\\']

def Literal (p : Str) : Prop := ∀ c ∈ p, c ∉ metacharacters

instance (p : Str) : Decidable (Literal p) := inferInstanceAs (Decidable (∀ c ∈ p, _))

/-- A character that is not special stands for itself, and `**` for anything. -/
structure Glob.Documented (g : Glob) : Prop where
  literal_valid : ∀ {p}, Literal p → g.valid p = true
  literal : ∀ {p t}, Literal p → (g.reads p t = true ↔ t = p)
  deep_valid : ∀ p, g.valid (p ++ lit "/**") = g.valid p
  deep : ∀ p t, g.reads (p ++ lit "/**") t = true ↔ ∃ a b, t = a ++ '/' :: b ∧ g.reads p a = true

variable (g : Glob)

/-- A pattern, not rooted by a slash, meets a path from some component on. -/
def hits (p : Str) (path : List Str) (slash : Str) : Bool :=
  path.tails.any fun t => !t.isEmpty && g.reads p (join '/' t ++ slash)

def excludesFile (patterns : List Str) (path : List Str) : Bool := patterns.any fun p => hits g p path []

/-- Only a pattern that ends in `/**` is matched against folders. -/
def excludesDir (patterns : List Str) (path : List Str) : Bool :=
  patterns.any fun p => endsWith (lit "/**") p && hits g p path (lit "/")

/-- The files met on a walk that does not enter excluded folders. -/
def walk (patterns : List Str) (path : List Str) : Folder → List (List Str)
  | .empty => []
  | .file name rest =>
    (if excludesFile g patterns (path ++ [name.1]) then [] else [path ++ [name.1]]) ++ walk patterns path rest
  | .sub name inside rest =>
    (if excludesDir g patterns (path ++ [name.1]) then [] else walk patterns (path ++ [name.1]) inside) ++
      walk patterns path rest

/-- What is copied. One pattern that is not taken stops the whole run. -/
def copied (patterns : List Str) (folder : Folder) : List (List Str) :=
  if patterns.all g.valid then walk g patterns [] folder else []

/-- A path below some folder: at least one name. -/
def Below (f : List Str) : Prop := f ≠ [] ∧ ∀ c ∈ f, Plain c ∧ '/' ∉ c

instance (f : List Str) : Decidable (Below f) := inferInstanceAs (Decidable (_ ∧ _))

theorem Folder.files_below {folder : Folder} {f : List Str} (h : f ∈ folder.files) : Below f := by
  induction folder generalizing f with
  | empty => cases h
  | file name rest ih =>
    rcases List.mem_cons.1 h with rfl | h
    · exact ⟨List.cons_ne_nil _ _, fun c hc => List.mem_singleton.1 hc ▸ name.2⟩
    · exact ih h
  | sub name inside rest ihInside ihRest =>
    rcases List.mem_append.1 h with h | h
    · obtain ⟨f', hf', rfl⟩ := List.mem_map.1 h
      refine ⟨List.cons_ne_nil _ _, fun c hc => ?_⟩
      rcases List.mem_cons.1 hc with rfl | hc
      · exact name.2
      · exact (ihInside hf').2 c hc
    · exact ihRest h

def Folder.append : Folder → Folder → Folder
  | empty, d => d
  | file name rest, d => file name (rest.append d)
  | sub name inside rest, d => sub name inside (rest.append d)

/-- What lies in the folders of this name. -/
def Folder.within (n : Str) : Folder → Folder
  | empty => empty
  | file _ rest => rest.within n
  | sub name inside rest => if name.1 = n then inside.append (rest.within n) else rest.within n

/-- What lies in the folder at this path. -/
def Folder.inside : List Str → Folder → Folder
  | [], d => d
  | n :: path, d => (d.within n).inside path

def Folder.hasSub (n : Str) : Folder → Bool
  | empty => false
  | file _ rest => rest.hasSub n
  | sub name _ rest => name.1 == n || rest.hasSub n

/-- A folder stands at this path. -/
def Folder.isDir : List Str → Folder → Bool
  | [], _ => true
  | n :: path, d => d.hasSub n && (d.within n).isDir path

variable {g}

theorem hits_eq_true {p slash : Str} {path : List Str} :
    hits g p path slash = true ↔ ∃ u t, path = u ++ t ∧ t ≠ [] ∧ g.reads p (join '/' t ++ slash) = true := by
  unfold hits
  rw [List.any_eq_true]
  constructor
  · rintro ⟨t, ht, h⟩
    obtain ⟨u, rfl⟩ := (List.mem_tails t path).1 ht
    rw [Bool.and_eq_true, Bool.not_eq_true', List.isEmpty_eq_false_iff] at h
    exact ⟨u, t, rfl, h.1, h.2⟩
  · rintro ⟨u, t, rfl, hne, h⟩
    refine ⟨t, (List.mem_tails t _).2 (List.suffix_append u t), ?_⟩
    rw [Bool.and_eq_true, Bool.not_eq_true', List.isEmpty_eq_false_iff]
    exact ⟨hne, h⟩

/-- What lies in an excluded folder is excluded itself. -/
theorem excludesFile_of_dir (hg : g.Documented) {patterns d rest : List Str} (hrest : rest ≠ []) (h : excludesDir g patterns d = true) :
    excludesFile g patterns (d ++ rest) = true := by
  unfold excludesDir at h
  obtain ⟨p, hp, hhit⟩ := List.any_eq_true.1 h
  rw [Bool.and_eq_true] at hhit
  obtain ⟨q, rfl⟩ := List.isSuffixOf_iff_suffix.1 hhit.1
  obtain ⟨u, t, rfl, htne, hreads⟩ := hits_eq_true.1 hhit.2
  obtain ⟨a, b, hab, hq⟩ := (hg.deep q _).1 hreads
  refine List.any_eq_true.2 ⟨_, hp, hits_eq_true.2 ⟨u, t ++ rest, List.append_assoc u t rest, by simp [htne], ?_⟩⟩
  refine (hg.deep q _).2 ⟨a, b ++ join '/' rest, ?_, hq⟩
  calc join '/' (t ++ rest) ++ [] = join '/' t ++ lit "/" ++ join '/' rest := by
        rw [List.append_nil, join_append '/' htne hrest, List.append_assoc]
        rfl
    _ = a ++ '/' :: (b ++ join '/' rest) := by rw [hab, List.append_assoc, List.cons_append]

/-- **The walk meets every file that no pattern excludes.** -/
theorem mem_walk (hg : g.Documented) {patterns : List Str} {folder : Folder} {path f : List Str} :
    f ∈ walk g patterns path folder ↔ ∃ f' ∈ folder.files, f = path ++ f' ∧ excludesFile g patterns f = false := by
  induction folder generalizing path f with
  | empty => simp [walk, Folder.files]
  | file name rest ih =>
    have hone : f ∈ (if excludesFile g patterns (path ++ [name.1]) then [] else [path ++ [name.1]]) ↔
        f = path ++ [name.1] ∧ excludesFile g patterns f = false := by
      by_cases hex : excludesFile g patterns (path ++ [name.1]) = true
      · rw [if_pos hex]
        refine iff_of_false List.not_mem_nil fun h => ?_
        rw [h.1, hex] at h
        exact Bool.noConfusion h.2
      · rw [if_neg hex, List.mem_singleton]
        exact (and_iff_left_of_imp fun h => h ▸ Bool.eq_false_iff.2 hex).symm
    rw [walk, List.mem_append, hone, ih, Folder.files]
    simp only [List.mem_cons, exists_eq_or_imp]
  | sub name inside rest ihInside ihRest =>
    have hin : f ∈ (if excludesDir g patterns (path ++ [name.1]) then [] else walk g patterns (path ++ [name.1]) inside) ↔
        ∃ f' ∈ inside.files, f = path ++ (name.1 :: f') ∧ excludesFile g patterns f = false := by
      have happ : ∀ f' : List Str, path ++ [name.1] ++ f' = path ++ (name.1 :: f') := fun f' => by
        rw [List.append_assoc, List.singleton_append]
      by_cases hex : excludesDir g patterns (path ++ [name.1]) = true
      · rw [if_pos hex]
        refine iff_of_false List.not_mem_nil ?_
        rintro ⟨f', hf', rfl, hno⟩
        have := excludesFile_of_dir hg (Folder.files_below hf').1 hex
        rw [happ, hno] at this
        exact Bool.noConfusion this
      · rw [if_neg hex, ihInside]
        simp only [happ]
    rw [walk, List.mem_append, hin, ihRest, Folder.files]
    constructor
    · rintro (⟨f', hf', h⟩ | ⟨f', hf', h⟩)
      · exact ⟨_, List.mem_append_left _ (List.mem_map_of_mem hf'), h⟩
      · exact ⟨f', List.mem_append_right _ hf', h⟩
    · rintro ⟨f', hf', h⟩
      rcases List.mem_append.1 hf' with hf' | hf'
      · obtain ⟨f'', hf'', rfl⟩ := List.mem_map.1 hf'
        exact Or.inl ⟨f'', hf'', h⟩
      · exact Or.inr ⟨f', hf', h⟩

theorem mem_copied (hg : g.Documented) {patterns : List Str} {folder : Folder} {f : List Str} :
    f ∈ copied g patterns folder ↔
      f ∈ folder.files ∧ (∀ p ∈ patterns, g.valid p = true) ∧ excludesFile g patterns f = false := by
  unfold copied
  by_cases hv : patterns.all g.valid = true
  · rw [if_pos hv, mem_walk hg]
    rw [and_iff_right (List.all_eq_true.1 hv)]
    simp only [List.nil_append]
    exact ⟨fun ⟨f', hf', heq, hno⟩ => ⟨heq ▸ hf', hno⟩, fun h => ⟨f, h.1, rfl, h.2⟩⟩
  · rw [if_neg hv]
    exact iff_of_false List.not_mem_nil fun h => hv (List.all_eq_true.2 h.2.1)

/-! ## What one pattern leaves out -/

/-- `q` matches a run of the components of a path, up to its end, or, if `deep`, ending above it. -/
def Run (g : Glob) (q : Str) (deep : Bool) (f : List Str) : Prop :=
  ∃ u a v, f = u ++ a ++ v ∧ a ≠ [] ∧ (v = [] ↔ deep = false) ∧ g.reads q (join '/' a) = true

theorem hits_iff {q : Str} {f : List Str} : hits g q f [] = true ↔ Run g q false f := by
  rw [hits_eq_true]
  constructor
  · rintro ⟨u, t, rfl, hne, h⟩
    rw [List.append_nil] at h
    exact ⟨u, t, [], (List.append_nil _).symm, hne, iff_of_true rfl rfl, h⟩
  · rintro ⟨u, a, v, rfl, hne, hv, h⟩
    obtain rfl := hv.2 rfl
    rw [List.append_nil]
    exact ⟨u, a, rfl, hne, by rwa [List.append_nil]⟩

theorem hits_deep (hg : g.Documented) {q : Str} {f : List Str} (hf : Below f) :
    hits g (q ++ lit "/**") f [] = true ↔ Run g q true f := by
  rw [hits_eq_true]
  constructor
  · rintro ⟨u, t, rfl, hne, h⟩
    obtain ⟨x, b, hxb, hq⟩ := (hg.deep q _).1 h
    rw [List.append_nil] at hxb
    have ht : t = split '/' x ++ split '/' b := by
      rw [← split_append_cons, ← hxb]
      exact (split_join hne fun c hc => (hf.2 c (List.mem_append_right u hc)).2).symm
    refine ⟨u, split '/' x, split '/' b, ?_, split_ne_nil '/' x, ?_, ?_⟩
    · rw [ht, List.append_assoc]
    · exact iff_of_false (split_ne_nil '/' b) Bool.noConfusion
    · rwa [join_split]
  · rintro ⟨u, a, v, rfl, hne, hv, h⟩
    have hvne : v ≠ [] := fun heq => Bool.noConfusion (hv.1 heq)
    refine ⟨u, a ++ v, List.append_assoc u a v, by simp [hne], ?_⟩
    rw [List.append_nil]
    exact (hg.deep q _).2 ⟨join '/' a, join '/' v, join_append '/' hne hvne, h⟩

/-! ## A glob -/

/-- A pattern without special characters but for `/**` at its end; the pattern is given backwards. -/
def plainReads : Str → Str → Bool
  | '*' :: '*' :: '/' :: q, t => (List.range t.length).any fun i => t[i]? == some '/' && plainReads q (t.take i)
  | q, t => q.reverse == t

def Glob.plain : Glob := ⟨fun _ => true, fun p t => plainReads p.reverse t⟩

theorem Glob.plain_reads (p t : Str) : Glob.plain.reads p t = plainReads p.reverse t := rfl

theorem Glob.plain_documented : Glob.plain.Documented where
  literal_valid := fun _ => rfl
  literal := by
    intro p t hp
    have hstar : '*' ∉ p.reverse := fun h => hp '*' (List.mem_reverse.1 h) (by decide)
    have : plainReads p.reverse t = (p.reverse.reverse == t) := by
      unfold plainReads
      split
      · rename_i q heq
        rw [heq] at hstar
        exact absurd List.mem_cons_self hstar
      · rfl
    rw [Glob.plain_reads, this, List.reverse_reverse, beq_iff_eq]
    exact eq_comm
  deep_valid := fun _ => rfl
  deep := by
    intro p t
    have hrev : (p ++ lit "/**").reverse = '*' :: '*' :: '/' :: p.reverse := by
      rw [List.reverse_append]
      rfl
    simp only [Glob.plain_reads]
    rw [hrev, plainReads, List.any_eq_true]
    constructor
    · rintro ⟨i, hi, h⟩
      rw [Bool.and_eq_true, beq_iff_eq] at h
      obtain ⟨hlt, hget⟩ := List.getElem?_eq_some_iff.1 h.1
      refine ⟨t.take i, t.drop (i + 1), ?_, h.2⟩
      rw [← hget, ← List.drop_eq_getElem_cons, List.take_append_drop]
    · rintro ⟨a, b, rfl, h⟩
      refine ⟨a.length, List.mem_range.2 (by simp), ?_⟩
      rw [Bool.and_eq_true, beq_iff_eq, List.take_left]
      exact ⟨by simp, h⟩

end Globs
end Lib
