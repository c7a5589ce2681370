import Mathlib
import PiHerder.Lib.Dict
import PiHerder.Lib.Files
import PiHerder.Lib.Path

/-!
# What an SFTP server has

A finite tree with links, its entries in the order in which the server lists them. Paths come as texts from the root:

* `realpath` — every link is followed, and the last component may be missing;
* `follow_standing`, `lplace_standing`, `realpath_standing` — what is found stands below directories;
* `realpath_mono` — where entries are gone, a path leads where it led, to what is gone, or nowhere.
-/
namespace Lib
namespace FileTree
open Str

/-- A name that a directory can hold: any but the dots, without slash and NUL. -/
def Legal (c : Name) : Prop := Entry c ∧ '/' ∉ c ∧ Char.ofNat 0 ∉ c

instance (c : Name) : Decidable (Legal c) := inferInstanceAs (Decidable (_ ∧ _))

structure Tree where
  nodes : Dict (List Name) Kind
  nodup : nodes.keys.Nodup
  legal : ∀ p ∈ nodes.keys, ∀ c ∈ p, Legal c

namespace Tree
variable (t : Tree)

/-- The root is a directory. -/
def shape : Shape := fun p => if p = [] then some .dir else t.nodes.get? p

/-- The names in a directory. -/
def listdir (d : List Name) : List Name := t.nodes.keys.filterMap fun p => if p.dropLast = d then p.getLast? else none

def del (p : List Name) : Tree where
  nodes := t.nodes.del p
  nodup := Dict.keys_del_nodup t.nodup
  legal q hq := t.legal q (by rw [Dict.keys_del] at hq; exact (List.mem_filter.1 hq).1)

variable {t}

@[simp] theorem shape_root : t.shape [] = some .dir := if_pos rfl

theorem shape_concat (d : List Name) (c : Name) : t.shape (d ++ [c]) = t.nodes.get? (d ++ [c]) := if_neg (by simp)

theorem shape_del {p : List Name} (hp : p ≠ []) (q : List Name) : (t.del p).shape q = if q = p then none else t.shape q := by
  unfold shape
  by_cases hq : q = []
  · rw [if_pos hq, if_pos hq, if_neg fun h : q = p => hp (h.symm.trans hq)]
  · rw [if_neg hq, if_neg hq]
    exact Dict.get?_del p q t.nodes

theorem mem_listdir {d : List Name} {c : Name} : c ∈ t.listdir d ↔ (t.shape (d ++ [c])).isSome := by
  rw [shape_concat, Option.isSome_iff_ne_none, Ne, Dict.get?_eq_none, not_not]
  unfold listdir
  rw [List.mem_filterMap]
  constructor
  · rintro ⟨p, hp, hc⟩
    split at hc
    · rename_i hd
      obtain ⟨q, rfl⟩ := List.getLast?_eq_some_iff.1 hc
      rw [List.dropLast_concat] at hd
      exact hd ▸ hp
    · cases hc
  · intro h
    refine ⟨d ++ [c], h, ?_⟩
    rw [List.dropLast_concat, if_pos rfl, List.getLast?_concat]

/-- What is there has legal names. -/
theorem legal_of_shape {p : List Name} (h : (t.shape p).isSome) : ∀ c ∈ p, Legal c := by
  by_cases hp : p = []
  · rw [hp]
    exact fun c hc => absurd hc List.not_mem_nil
  · unfold shape at h
    rw [if_neg hp, Option.isSome_iff_ne_none, Ne, Dict.get?_eq_none, not_not] at h
    exact t.legal p h

theorem ne_root_of_shape {p : List Name} (h : t.shape p ≠ some .dir) : p ≠ [] := fun hp => h (hp ▸ shape_root)

end Tree

/-! ## Paths from the root -/

variable (shape : Shape) (n : Nat)

/-- Every link is followed, and the last component may be missing. -/
def realpath (path : List Name) : Option (List Name) :=
  match follow shape n [] path with
  | some (_, p) => some p
  | none => creat shape n [] path

/-- `posixpath.join`. -/
def posixJoin (a b : Str) : Str :=
  if startsWith (lit "/") b then b else if a = [] ∨ endsWith (lit "/") a then a ++ b else a ++ lit "/" ++ b

/-- The text of a place. -/
def pathText (p : List Name) : Str := '/' :: join '/' p

/-- The entry that a path names: its last component is not followed. -/
def entryAt (path : Str) : Option (List Name) := lplace shape n [] (split '/' path)

variable {shape n}

/-- A place below directories, where something is. -/
def Standing (shape : Shape) (p : List Name) : Prop :=
  shape [] = some .dir ∧ (p = [] ∨ ∃ d c, p = d ++ [c] ∧ Through shape [] d ∧ Entry c ∧ (shape p).isSome)

theorem Through.append_left {a b : List Name} : ∀ {d : List Name}, Through shape d (a ++ b) → Through shape d a := by
  induction a with
  | nil => exact fun h => h.start
  | cons c a ih => exact fun h => ⟨h.1, h.2.1, ih h.2.2⟩

/-- A directory that stands is reached through directories. -/
theorem Standing.through {p : List Name} (h : Standing shape p) (hdir : shape p = some .dir) : Through shape [] p := by
  obtain ⟨hroot, rfl | ⟨d, c, rfl, ht, hc, -⟩⟩ := h
  · exact hroot
  · exact ht.concat hc hdir

theorem Through.standing {d : List Name} (h : Through shape [] d) : Standing shape d := by
  refine ⟨h.start, ?_⟩
  rcases List.eq_nil_or_concat d with rfl | ⟨q, c, rfl⟩
  · exact Or.inl rfl
  · rw [List.concat_eq_append] at h ⊢
    have hend := h.end
    rw [List.nil_append] at hend
    have hentry : ∀ {q b : List Name}, Through shape b (q ++ [c]) → Entry c := by
      intro q
      induction q with
      | nil => exact fun h => h.2.1
      | cons x q ih => exact fun h => ih h.2.2
    exact Or.inr ⟨q, c, rfl, h.append_left, hentry h, by rw [hend]; rfl⟩

theorem Through.standing_concat {d : List Name} {c : Name} (h : Through shape [] d) (hc : Entry c) (hsome : (shape (d ++ [c])).isSome) :
    Standing shape (d ++ [c]) := ⟨h.start, Or.inr ⟨d, c, rfl, h, hc, hsome⟩⟩

theorem Through.dropLast {d : List Name} (h : Through shape [] d) : Through shape [] d.dropLast := by
  rcases List.eq_nil_or_concat d with rfl | ⟨q, c, rfl⟩
  · exact h
  · rw [List.concat_eq_append] at h ⊢
    rw [List.dropLast_concat]
    exact h.append_left

theorem goDown_standing {m : Nat} {onLink : List Name → List Name → Option (Nat × List Name)}
    (hon : ∀ cur path r, Through shape [] cur → onLink cur path = some r → Standing shape r.2) :
    ∀ {path cur : List Name} {r : Nat × List Name}, Standing shape cur → goDown shape m onLink cur path = some r → Standing shape r.2
  | [], _, _, hcur, h => by
    obtain rfl := Option.some.inj h
    exact hcur
  | c :: rest, cur, r, hcur, h => by
    unfold goDown at h
    by_cases hdir : shape cur = some .dir
    · have ht := hcur.through hdir
      rw [if_neg (not_not.2 hdir)] at h
      split at h
      · exact goDown_standing hon hcur h
      · rename_i hdot
        split at h
        · exact goDown_standing hon ht.dropLast.standing h
        · rename_i hup
          have hc : Entry c := ⟨fun h => hdot (Or.inl h), fun h => hdot (Or.inr h), hup⟩
          cases hk : shape (cur ++ [c]) with
          | none =>
            rw [hk] at h
            cases h
          | some k =>
            have hnext : Standing shape (cur ++ [c]) := ht.standing_concat hc (by rw [hk]; rfl)
            rw [hk] at h
            cases k with
            | link dest =>
              refine hon _ _ _ ?_ h
              split
              · exact ht.start
              · exact ht
            | dir => exact goDown_standing hon hnext h
            | other => exact goDown_standing hon hnext h
    · rw [if_pos hdir] at h
      cases h

/-- **What a path leads to stands below directories.** -/
theorem follow_standing : ∀ {n : Nat} {cur path : List Name} {r : Nat × List Name},
    Standing shape cur → follow shape n cur path = some r → Standing shape r.2
  | 0, _, _, _, hcur, h => goDown_standing (fun _ _ _ _ h => by cases h) hcur h
  | n + 1, _, _, _, hcur, h => goDown_standing (fun _ _ _ ht h => follow_standing (n := n) ht.standing h) hcur h

theorem standing_root (h : shape [] = some .dir) : Standing shape [] := ⟨h, Or.inl rfl⟩

/-- The entry that is found stands below directories. -/
theorem lplace_standing {path p : List Name} (hroot : shape [] = some .dir) (h : lplace shape n [] path = some p) : Standing shape p := by
  have hmap : ∀ {path p}, (follow shape n [] path).map (·.2) = some p → Standing shape p := by
    intro path p h
    obtain ⟨r, hr, rfl⟩ := Option.map_eq_some_iff.1 h
    exact follow_standing (standing_root hroot) hr
  unfold lplace at h
  cases hlast : path.getLast? with
  | none =>
    rw [hlast] at h
    exact hmap h
  | some c =>
    rw [hlast] at h
    simp only at h
    split at h
    · rename_i hc
      obtain ⟨r, hr, h⟩ := Option.bind_eq_some_iff.1 h
      split at h
      · rename_i hthere
        obtain rfl := Option.some.inj h
        exact ((follow_standing (standing_root hroot) hr).through hthere.1).standing_concat hc hthere.2
      · cases h
    · exact hmap h

theorem lplace_isSome {path p : List Name} (hroot : shape [] = some .dir) (h : lplace shape n [] path = some p) : (shape p).isSome := by
  obtain ⟨-, rfl | ⟨d, c, rfl, -, -, hsome⟩⟩ := lplace_standing hroot h
  · rw [hroot]
    rfl
  · exact hsome

/-! ## The text of a place -/

theorem split_pathText {p : List Name} (h : p ≠ []) (hs : ∀ c ∈ p, '/' ∉ c) : split '/' (pathText p) = [] :: p := by
  rw [pathText, split_slash, split_join h hs]

theorem goDown_skip {m : Nat} {onLink : List Name → List Name → Option (Nat × List Name)} (hroot : shape [] = some .dir) (path : List Name) :
    goDown shape m onLink [] ([] :: path) = goDown shape m onLink [] path := by
  rw [goDown, if_neg (not_not.2 hroot), if_pos (Or.inl rfl)]

theorem follow_skip (hroot : shape [] = some .dir) (path : List Name) : follow shape n [] ([] :: path) = follow shape n [] path := by
  cases n with
  | zero => exact goDown_skip hroot path
  | succ n => exact goDown_skip hroot path

theorem lplace_skip (hroot : shape [] = some .dir) {path : List Name} (h : path ≠ []) :
    lplace shape n [] ([] :: path) = lplace shape n [] path := by
  have hdrop : ([] :: path).dropLast = [] :: path.dropLast := List.dropLast_cons_of_ne_nil h
  unfold lplace
  rw [List.getLast?_cons_of_ne_nil h, hdrop, follow_skip hroot, follow_skip hroot]

theorem creat_skip (hroot : shape [] = some .dir) {path : List Name} (h : path ≠ []) :
    creat shape n [] ([] :: path) = creat shape n [] path := by
  have hdrop : ([] :: path).dropLast = [] :: path.dropLast := List.dropLast_cons_of_ne_nil h
  unfold creat creatPlace
  rw [List.getLast?_cons_of_ne_nil h, hdrop, follow_skip hroot]

/-- The text of what stands names it. -/
theorem entryAt_pathText {d : List Name} {c : Name} (h : Through shape [] d) (hc : Entry c) (hs : ∀ x ∈ d ++ [c], '/' ∉ x) :
    entryAt shape n (pathText (d ++ [c])) = if (shape (d ++ [c])).isSome then some (d ++ [c]) else none := by
  have hself : LeadsTo shape n [] d ([] ++ d) := ⟨n, follow_through h⟩
  rw [entryAt, split_pathText (by simp) hs, lplace_skip h.start (by simp), hself.lplace (by simpa using h.end) hc]
  rfl

/-- A directory is where its path leads. -/
theorem follow_of_lplace {path p : List Name} (h : lplace shape n [] path = some p) (hdir : shape p = some .dir) :
    ∃ m, follow shape n [] path = some (m, p) := by
  have hmap : (follow shape n [] path).map (·.2) = some p → ∃ m, follow shape n [] path = some (m, p) := by
    intro h
    obtain ⟨r, hr, rfl⟩ := Option.map_eq_some_iff.1 h
    exact ⟨r.1, hr⟩
  unfold lplace at h
  cases hlast : path.getLast? with
  | none =>
    rw [hlast] at h
    exact hmap h
  | some c =>
    rw [hlast] at h
    simp only at h
    split at h
    · rename_i hc
      obtain ⟨r, hr, h⟩ := Option.bind_eq_some_iff.1 h
      split at h
      · rename_i hthere
        obtain rfl := Option.some.inj h
        obtain ⟨q, rfl⟩ := List.getLast?_eq_some_iff.1 hlast
        rw [List.dropLast_concat] at hr
        exact LeadsTo.follow ⟨r.1, hr⟩ hthere.1 hc hdir fun dest heq => by cases heq
      · cases h
    · exact hmap h

theorem realpath_of_lplace {path p : List Name} (h : lplace shape n [] path = some p) (hdir : shape p = some .dir) :
    realpath shape n path = some p := by
  obtain ⟨m, hm⟩ := follow_of_lplace h hdir
  rw [realpath, hm]

/-! ## Where the last component is missing -/

theorem creatPlace_spec : ∀ {fuel n : Nat} {cur path p : List Name}, Standing shape cur → creatPlace shape fuel n cur path = some p →
    ∃ d c, p = d ++ [c] ∧ Through shape [] d ∧ Entry c ∧ shape p = none
  | 0, _, _, _, _, _, h => by cases h
  | fuel + 1, n, cur, path, p, hcur, h => by
    unfold creatPlace at h
    cases hlast : path.getLast? with
    | none =>
      rw [hlast] at h
      cases h
    | some c =>
      rw [hlast] at h
      simp only at h
      split at h
      · rename_i hc
        obtain ⟨r, hr, h⟩ := Option.bind_eq_some_iff.1 h
        split at h
        · cases h
        · rename_i hdir
          have ht := (follow_standing hcur hr).through (not_not.1 hdir)
          split at h
          · rename_i hnone
            obtain rfl := Option.some.inj h
            exact ⟨r.2, c, rfl, ht, hc, hnone⟩
          · split at h
            · cases h
            · refine creatPlace_spec ?_ h
              split
              · exact (Through.standing ht.start)
              · exact ht.standing
          · cases h
      · cases h

/-- What would be made is missing from a directory that stands. -/
theorem creat_spec {path p : List Name} (hroot : shape [] = some .dir) (h : creat shape n [] path = some p) :
    ∃ d c, p = d ++ [c] ∧ Through shape [] d ∧ Entry c ∧ shape p = none := creatPlace_spec (standing_root hroot) h

theorem follow_concat_none {m : Nat} {d : List Name} {c : Name} (hdir : shape d = some .dir) (hc : Entry c) (hnone : shape (d ++ [c]) = none) :
    follow shape m d [c] = none := by
  have hstep : ∀ onLink, goDown shape m onLink d [c] = none := by
    intro onLink
    rw [goDown, if_neg (not_not.2 hdir), if_neg (not_or.2 ⟨hc.1, hc.2.1⟩), if_neg hc.2.2, hnone]
  cases m with
  | zero => exact hstep _
  | succ m => exact hstep _

theorem follow_concat_link {m : Nat} {d : List Name} {c : Name} {dest : Str} (hdir : shape d = some .dir) (hc : Entry c)
    (hlink : shape (d ++ [c]) = some (.link dest)) :
    follow shape m d [c] = if m = 0 then none else follow shape (m - 1) (if startsWith (lit "/") dest then [] else d) (split '/' dest) := by
  cases m with
  | zero =>
    rw [follow, goDown, if_neg (not_not.2 hdir), if_neg (not_or.2 ⟨hc.1, hc.2.1⟩), if_neg hc.2.2, hlink]
    rfl
  | succ m =>
    rw [follow, goDown, if_neg (not_not.2 hdir), if_neg (not_or.2 ⟨hc.1, hc.2.1⟩), if_neg hc.2.2, hlink, if_neg (Nat.succ_ne_zero m)]
    simp

theorem path_eq_concat {path : List Name} {c : Name} (h : path.getLast? = some c) : path = path.dropLast ++ [c] := by
  obtain ⟨q, rfl⟩ := List.getLast?_eq_some_iff.1 h
  rw [List.dropLast_concat]

/-- A path to what is missing leads nowhere. -/
theorem creatPlace_missing : ∀ {fuel n : Nat} {cur path p : List Name}, creatPlace shape fuel n cur path = some p → follow shape n cur path = none
  | 0, _, _, _, _, h => by cases h
  | fuel + 1, n, cur, path, p, h => by
    unfold creatPlace at h
    cases hlast : path.getLast? with
    | none =>
      rw [hlast] at h
      cases h
    | some c =>
      rw [hlast] at h
      simp only at h
      rw [path_eq_concat hlast, follow_append]
      split at h
      · rename_i hc
        obtain ⟨r, hr, h⟩ := Option.bind_eq_some_iff.1 h
        rw [hr, Option.bind_some]
        split at h
        · cases h
        · rename_i hdir
          split at h
          · rename_i hnone
            exact follow_concat_none (not_not.1 hdir) hc hnone
          · rename_i dest hlink
            rw [follow_concat_link (not_not.1 hdir) hc hlink]
            split at h
            · rename_i hzero
              rw [if_pos hzero]
            · rename_i hzero
              rw [if_neg hzero]
              exact creatPlace_missing h
          · cases h
      · cases h

/-- What a path resolves to stands, or is missing from a directory that stands. -/
theorem realpath_spec {path p : List Name} (hroot : shape [] = some .dir) (h : realpath shape n path = some p) :
    Standing shape p ∧ (shape p).isSome ∨ ∃ d c, p = d ++ [c] ∧ Through shape [] d ∧ Entry c ∧ shape p = none := by
  unfold realpath at h
  cases hf : follow shape n [] path with
  | some r =>
    rw [hf] at h
    obtain rfl := Option.some.inj h
    have hstand := follow_standing (standing_root hroot) hf
    refine Or.inl ⟨hstand, ?_⟩
    obtain ⟨-, hp | ⟨d, c, hp, -, -, hsome⟩⟩ := hstand
    · rw [hp, hroot]
      rfl
    · exact hsome
  | none =>
    rw [hf] at h
    exact Or.inr (creat_spec hroot h)

/-- A directory's text leads to it. -/
theorem realpath_pathText {q : List Name} (h : Through shape [] q) (hs : ∀ c ∈ q, '/' ∉ c) :
    realpath shape n (split '/' (pathText q)) = some q := by
  by_cases hq : q = []
  · subst hq
    have hsplit : split '/' (pathText []) = [[], []] := rfl
    rw [hsplit, realpath, follow_skip h, follow_skip h, follow_nil]
  · rw [split_pathText hq hs, realpath, follow_skip h.start, follow_through h]
    rfl

/-! ## Changing the tree -/

/-- Where a path would make an entry: its last component is not followed. -/
def newPlace (shape : Shape) (n : Nat) (path : Str) : Option (List Name) :=
  match (split '/' path).getLast? with
  | some c =>
    if Entry c then (follow shape n [] (split '/' path).dropLast).bind fun d => if shape d.2 = some .dir then some (d.2 ++ [c]) else none
    else none
  | none => none

/-- What `open(path, "wb")` empties or makes: links are followed to the end. -/
def openPlace (shape : Shape) (n : Nat) (path : Str) : Option (List Name) :=
  match follow shape n [] (split '/' path) with
  | some (_, p) => if shape p = some .other then some p else none
  | none => creat shape n [] (split '/' path)

/-- Where no link stands, `open` stays there. -/
theorem openPlace_pathText {d p : List Name} {c : Name} (h : Through shape [] d) (hc : Entry c) (hs : ∀ x ∈ d ++ [c], '/' ∉ x)
    (hlink : ∀ dest, shape (d ++ [c]) ≠ some (.link dest)) (hp : openPlace shape n (pathText (d ++ [c])) = some p) : p = d ++ [c] := by
  have hself : LeadsTo shape n [] d d := ⟨n, follow_through h⟩
  have hdir : shape d = some .dir := by simpa using h.end
  unfold openPlace at hp
  rw [split_pathText (by simp) hs, follow_skip h.start, creat_skip h.start (by simp)] at hp
  cases hk : shape (d ++ [c]) with
  | none =>
    rw [(hself.missing hdir hc hk).2] at hp
    unfold creat creatPlace at hp
    rw [List.getLast?_concat, List.dropLast_concat] at hp
    simp only [if_pos hc, follow_through h, Option.bind_some, List.nil_append, hdir, hk, ne_eq, not_true_eq_false, if_false] at hp
    exact (Option.some.inj hp).symm
  | some k =>
    obtain ⟨m, hm⟩ := hself.follow hdir hc hk fun dest heq => hlink dest (heq ▸ hk)
    rw [hm] at hp
    simp only at hp
    split at hp
    · exact (Option.some.inj hp).symm
    · cases hp

theorem Through.congr {shape' : Shape} {q : List Name} : ∀ {d : List Name}, (∀ p, p <+: d ++ q → shape' p = shape p) → Through shape d q →
    Through shape' d q := by
  induction q with
  | nil =>
    intro d h ht
    exact (h d ⟨[], rfl⟩).trans ht
  | cons c q ih =>
    intro d h ht
    refine ⟨(h d (List.prefix_append d _)).trans ht.1, ht.2.1, ih (fun p hp => h p ?_) ht.2.2⟩
    rwa [List.append_assoc] at hp

namespace Tree
variable {t : Tree}

/-- A new entry, or another kind for one. -/
def put (t : Tree) (p : List Name) (k : Kind) (h : ∀ c ∈ p, Legal c) : Tree where
  nodes := t.nodes.set p k
  nodup := Dict.keys_set_nodup t.nodup
  legal q hq c hc := by
    obtain ⟨e, he, rfl⟩ := List.mem_map.1 hq
    rcases Dict.mem_set he with rfl | he
    · exact h c hc
    · exact t.legal e.1 (List.mem_map_of_mem he) c hc

theorem shape_put {p : List Name} {k : Kind} (hp : p ≠ []) (h : ∀ c ∈ p, Legal c) (q : List Name) :
    (t.put p k h).shape q = if q = p then some k else t.shape q := by
  unfold shape
  by_cases hq : q = []
  · rw [if_pos hq, if_pos hq, if_neg fun h : q = p => hp (h.symm.trans hq)]
  · rw [if_neg hq, if_neg hq]
    exact Dict.get?_set p k q t.nodes

/-- Where an entry is after the move. -/
def moved (p q x : List Name) : List Name := if p <+: x then q ++ x.drop p.length else x

/-- The entry at `p` and all below it, to `q`. -/
def move (t : Tree) (p q : List Name) (h : ∀ c ∈ q, Legal c) : Tree where
  nodes := (t.nodes.filter fun e => !decide (q <+: e.1)).map fun e => (moved p q e.1, e.2)
  nodup := by
    have hkeys : Dict.keys ((t.nodes.filter fun e => !decide (q <+: e.1)).map fun e => (moved p q e.1, e.2)) =
        (Dict.keys (t.nodes.filter fun e => !decide (q <+: e.1))).map (moved p q) := by
      simp [Dict.keys, Function.comp_def]
    rw [hkeys]
    refine List.Nodup.map_on ?_ (Dict.keys_filter_nodup t.nodup _)
    intro x hx y hy heq
    have hout : ∀ {z}, z ∈ Dict.keys (t.nodes.filter fun e => !decide (q <+: e.1)) → ¬ q <+: z := by
      intro z hz
      obtain ⟨e, he, rfl⟩ := List.mem_map.1 hz
      simpa using (List.mem_filter.1 he).2
    unfold moved at heq
    by_cases hpx : p <+: x <;> by_cases hpy : p <+: y
    · rw [if_pos hpx, if_pos hpy] at heq
      obtain ⟨a, rfl⟩ := hpx
      obtain ⟨b, rfl⟩ := hpy
      rw [List.drop_left, List.drop_left] at heq
      rw [List.append_cancel_left heq]
    · rw [if_pos hpx, if_neg hpy] at heq
      exact absurd ⟨_, heq⟩ (hout hy)
    · rw [if_neg hpx, if_pos hpy] at heq
      exact absurd ⟨_, heq.symm⟩ (hout hx)
    · rwa [if_neg hpx, if_neg hpy] at heq
  legal x hx c hc := by
    obtain ⟨e, he, rfl⟩ := List.mem_map.1 hx
    obtain ⟨e', he', rfl⟩ := List.mem_map.1 he
    have hold := t.legal e'.1 (List.mem_map_of_mem (List.mem_filter.1 he').1)
    unfold moved at hc
    simp only at hc
    split at hc
    · exact (List.mem_append.1 hc).elim (h c) fun hc => hold c (List.mem_of_mem_drop hc)
    · exact hold c hc

end Tree

/-! ## Where entries are gone -/

section mono
variable {shape' : Shape} (h : ∀ p k, shape p = some k → shape' p = some k)
include h

theorem lplace_mono {path p : List Name} (hp : lplace shape n [] path = some p) : lplace shape' n [] path = some p := by
  have hmap : ∀ {path p}, (follow shape n [] path).map (·.2) = some p → (follow shape' n [] path).map (·.2) = some p := by
    intro path p hp
    obtain ⟨r, hr, rfl⟩ := Option.map_eq_some_iff.1 hp
    rw [follow_mono h hr]
    rfl
  unfold lplace at hp ⊢
  cases hlast : path.getLast? with
  | none =>
    rw [hlast] at hp
    exact hmap hp
  | some c =>
    rw [hlast] at hp
    simp only at hp ⊢
    split at hp
    · rename_i hc
      obtain ⟨r, hr, hp⟩ := Option.bind_eq_some_iff.1 hp
      rw [if_pos hc, follow_mono h hr, Option.bind_some]
      split at hp
      · rename_i hthere
        obtain ⟨k, hk⟩ := Option.isSome_iff_exists.1 hthere.2
        rw [if_pos ⟨h _ _ hthere.1, by rw [h _ _ hk]; rfl⟩]
        exact hp
      · cases hp
    · rename_i hc
      rw [if_neg hc]
      exact hmap hp

theorem newPlace_mono {path : Str} {p : List Name} (hp : newPlace shape n path = some p) : newPlace shape' n path = some p := by
  unfold newPlace at hp ⊢
  cases hlast : (split '/' path).getLast? with
  | none =>
    rw [hlast] at hp
    cases hp
  | some c =>
    rw [hlast] at hp
    simp only at hp ⊢
    split at hp
    · rename_i hc
      obtain ⟨r, hr, hp⟩ := Option.bind_eq_some_iff.1 hp
      rw [if_pos hc, follow_mono h hr, Option.bind_some]
      split at hp
      · rename_i hdir
        rw [if_pos (h _ _ hdir)]
        exact hp
      · cases hp
    · cases hp

theorem creatPlace_mono : ∀ {fuel n : Nat} {cur path p : List Name}, creatPlace shape fuel n cur path = some p → shape' p = none →
    creatPlace shape' fuel n cur path = some p
  | 0, _, _, _, _, hp, _ => by cases hp
  | fuel + 1, n, cur, path, p, hp, hnone => by
    unfold creatPlace at hp ⊢
    cases hlast : path.getLast? with
    | none =>
      rw [hlast] at hp
      cases hp
    | some c =>
      rw [hlast] at hp
      simp only at hp ⊢
      split at hp
      · rename_i hc
        obtain ⟨r, hr, hp⟩ := Option.bind_eq_some_iff.1 hp
        rw [if_pos hc, follow_mono h hr, Option.bind_some]
        split at hp
        · cases hp
        · rename_i hdir
          rw [if_neg (not_not.2 (h _ _ (not_not.1 hdir)))]
          split at hp
          · obtain rfl := Option.some.inj hp
            rw [hnone]
          · rename_i dest hlink
            rw [h _ _ hlink]
            simp only
            split at hp
            · cases hp
            · rename_i hzero
              rw [if_neg hzero]
              exact creatPlace_mono hp hnone
          · cases hp
      · cases hp

/-- **Where entries are gone a path leads where it led**, or to one that is gone. -/
theorem realpath_mono {path p : List Name} (hroot : shape [] = some .dir) (hp : realpath shape n path = some p) :
    realpath shape' n path = some p ∨ shape p = none ∧ (shape' p).isSome := by
  unfold realpath at hp
  cases hf : follow shape n [] path with
  | some r =>
    rw [hf] at hp
    rw [realpath, follow_mono h hf]
    exact Or.inl hp
  | none =>
    rw [hf] at hp
    cases hnone : shape' p with
    | none =>
      have hcreat : creat shape' n [] path = some p := creatPlace_mono h hp hnone
      rw [realpath, creatPlace_missing hcreat]
      exact Or.inl hcreat
    | some k =>
      refine Or.inr ⟨?_, rfl⟩
      cases hk : shape p with
      | none => rfl
      | some k' =>
        obtain ⟨-, -, -, -, -, hgone⟩ := creat_spec hroot hp
        rw [hk] at hgone
        cases hgone

end mono

end FileTree
end Lib
