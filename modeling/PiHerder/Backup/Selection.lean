import PiHerder.Lib.Selection
import PiHerder.Lib.Under

/-!
# What a cloud copy selects

A copy has checked paths and skipped ones below them (`services/backup_replicate.py`). Every path goes through
`_clean_rel` where it comes in, and once more each time the selection is normalized.

| here | there |
| --- | --- |
| `cleanRel` | `_clean_rel` (82–87); the `ValueError` as an error |
| `under` | `_under` (90–91) |
| `cleanChecked`, `cleanSkipped`, `dropCovered` | the loops of `normalize_selection` (94–127) |
| `applyToggle` | `apply_toggle` (130–149) |
| `pathIncluded` | `path_included` (152–158) |
-/
namespace PiHerder.Backup
open Lib Lib.Str Lib.Selection

/-! ## The code -/

def cleanRel (path : Str) : Except Str Str :=
  let text := lstrip '/' ((strip path).map fun c => if c = '\\' then '/' else c)
  let parts := (split '/' text).filter fun p => decide (p ≠ [] ∧ p ≠ lit ".")
  if parts.any fun p => p = lit ".." then .error (lit "path escapes the backup drive") else .ok (join '/' parts)

def under (child parent : Str) : Bool := child == parent || startsWith (rstrip '/' parent ++ lit "/") child

/-- The checked paths, cleaned, each once. What does not clean is left out. -/
def cleanChecked (raws : List Str) : List Str :=
  raws.foldl (fun out raw =>
    match cleanRel raw with
    | .ok rel => if rel ≠ [] ∧ rel ∉ out then out ++ [rel] else out
    | .error _ => out) []

/-- The skipped paths, cleaned, that lie below a kept one. -/
def cleanSkipped (kept raws : List Str) : List Str :=
  raws.filterMap fun raw =>
    match cleanRel raw with
    | .ok rel => if rel = [] ∨ rel ∈ kept then none else if kept.any (under rel) then some rel else none
    | .error _ => none

/-- Paths that another path of the list covers are dropped. -/
def dropCovered (paths : List Str) : List Str :=
  paths.filter fun path => !paths.any fun other => under path other && path != other

def normalizeSelection (checked skipped : List Str) : List Str × List Str :=
  let kept := dropCovered (cleanChecked checked)
  (kept, dropCovered (cleanSkipped kept skipped))

def applyToggle (checked skipped : List Str) (path : Str) (on : Bool) : Except Str (List Str × List Str) :=
  match cleanRel path with
  | .error e => .error e
  | .ok rel =>
    if rel = [] then .error (lit "Choose a folder or file inside the backup drive")
    else
      let (checked, skipped) := normalizeSelection checked skipped
      if on then
        let skipped := skipped.filter fun s => s != rel && !under s rel
        let checked := checked.filter fun c => !under c rel
        .ok (normalizeSelection (if checked.any (under rel) then checked else checked ++ [rel]) skipped)
      else
        let checked := checked.filter fun c => c != rel && !under c rel
        let skipped := skipped.filter fun s => s != rel && !under s rel
        .ok (normalizeSelection checked (if checked.any (under rel) then skipped ++ [rel] else skipped))

def pathIncluded (path : Str) (checked skipped : List Str) : Except Str Bool :=
  match if path = [] then .ok [] else cleanRel path with
  | .error e => .error e
  | .ok rel =>
    if rel = [] then .ok false
    else if skipped.any fun s => rel == s || under rel s then .ok false
    else .ok (checked.any fun c => rel == c || under rel c)

/-! ## Clean paths -/

/-- A path as `_clean_rel` gives it: names of folders and files, joined. -/
structure Clean (rel : Str) : Prop where
  parts : ∀ c ∈ split '/' rel, Plain c
  noBackslash : '\\' ∉ rel

/-- Paths are a forest under `Under`, and what lies below is longer. -/
theorem forest_under : Forest Under List.length where
  refl := Under.refl
  trans := Under.trans
  comparable := Under.total
  rank := by
    intro a b hab hne
    have hlen := (under_iff.1 hab)
    rcases hab with heq | hpre
    · exact absurd heq.symm hne
    · have := (List.isPrefixOf_iff_prefix.1 hpre).length_le
      rw [List.length_append] at this
      exact Nat.lt_of_lt_of_le (Nat.lt_succ_self _) this

theorem Clean.ne_nil {rel : Str} (h : Clean rel) : rel ≠ [] := by
  rintro rfl
  exact (h.parts [] (by decide)).1 rfl

/-- A clean path begins with a name. -/
theorem Clean.lstrip {rel : Str} (h : Clean rel) (t : Str) : Str.lstrip '/' (rel ++ t) = rel ++ t := by
  obtain ⟨x, xs, hx⟩ := List.exists_cons_of_ne_nil h.ne_nil
  have hslash : x ≠ '/' := by
    rintro rfl
    refine (h.parts [] ?_).1 rfl
    rw [hx, split_slash]
    exact List.mem_cons_self
  unfold Str.lstrip lstripWhere
  rw [hx, List.cons_append, List.dropWhile_cons_of_neg (by simpa using hslash)]

theorem Clean.rstrip {rel : Str} (h : Clean rel) : Str.rstrip '/' rel = rel := by
  obtain ⟨a, t, heq, ht, hslash⟩ := join_ends (split_ne_nil '/' rel) fun c hc => ⟨(h.parts c hc).1, notMem_of_mem_split hc⟩
  rw [join_split] at heq
  rw [heq]
  exact rstrip_append ht hslash

theorem map_backslash {s : Str} (h : '\\' ∉ s) : (s.map fun c => if c = '\\' then '/' else c) = s := by
  refine (List.map_congr_left fun c hc => ?_).trans (List.map_id s)
  refine if_neg fun heq => h ?_
  exact heq ▸ hc

/-- What `_clean_rel` makes of a text, once it is stripped. -/
theorem cleanRel_of_parts {path text : Str} {parts : List Str}
    (htext : lstrip '/' ((strip path).map fun c => if c = '\\' then '/' else c) = text)
    (hparts : (split '/' text).filter (fun p => decide (p ≠ [] ∧ p ≠ lit ".")) = parts) :
    cleanRel path = if lit ".." ∈ parts then .error (lit "path escapes the backup drive") else .ok (join '/' parts) := by
  unfold cleanRel
  simp only [htext, hparts]
  by_cases hup : lit ".." ∈ parts
  · rw [if_pos hup, if_pos (by simpa using hup)]
  · rw [if_neg hup, if_neg (by simpa using hup)]

theorem cleanRel_eq_ok {path rel : Str} (h : cleanRel path = .ok rel) :
    ∃ parts : List Str, rel = join '/' parts ∧ (∀ c ∈ parts, Plain c ∧ '/' ∉ c ∧ '\\' ∉ c) ∧
      weight parts ≤ (strip path).length + 1 := by
  obtain ⟨text, htext⟩ : ∃ text, lstrip '/' ((strip path).map fun c => if c = '\\' then '/' else c) = text := ⟨_, rfl⟩
  rw [cleanRel_of_parts htext rfl] at h
  split at h
  · cases h
  · rename_i hup
    refine ⟨_, (Except.ok.inj h).symm, fun c hc => ?_, ?_⟩
    · have hmem := List.mem_filter.1 hc
      have hkeep := of_decide_eq_true hmem.2
      refine ⟨⟨hkeep.1, hkeep.2, fun heq => hup (heq ▸ hc)⟩, notMem_of_mem_split hmem.1, fun hback => ?_⟩
      have hin : '\\' ∈ lstrip '/' ((strip path).map fun c => if c = '\\' then '/' else c) :=
        htext ▸ mem_of_mem_split hmem.1 hback
      obtain ⟨x, -, hx⟩ := List.mem_map.1 ((List.dropWhile_suffix _).subset hin)
      split at hx
      · exact absurd hx (by decide)
      · rename_i hne
        exact hne hx
    · refine Nat.le_trans (weight_filter_le _ _) ?_
      rw [weight_split, ← htext]
      refine Nat.succ_le_succ (Nat.le_trans (List.dropWhile_suffix _).length_le ?_)
      rw [List.length_map]

theorem cleanRel_clean {path rel : Str} (h : cleanRel path = .ok rel) (hne : rel ≠ []) : Clean rel := by
  obtain ⟨parts, rfl, hparts, -⟩ := cleanRel_eq_ok h
  have hpne : parts ≠ [] := by
    rintro rfl
    exact hne rfl
  refine ⟨fun c hc => ?_, fun hback => ?_⟩
  · rw [split_join hpne fun c hc => (hparts c hc).2.1] at hc
    exact (hparts c hc).1
  · rcases mem_join hback with heq | ⟨c, hc, hin⟩
    · exact absurd heq (by decide)
    · exact (hparts c hc).2.2 hin

theorem Clean.filter_parts {rel : Str} (h : Clean rel) :
    (split '/' rel).filter (fun p => decide (p ≠ [] ∧ p ≠ lit ".")) = split '/' rel :=
  List.filter_eq_self.2 fun c hc => decide_eq_true ⟨(h.parts c hc).1, (h.parts c hc).2.1⟩

theorem Clean.notUp {rel : Str} (h : Clean rel) : lit ".." ∉ split '/' rel := fun hup => (h.parts _ hup).2.2 rfl

/-- A clean path without blanks at its ends stays as it is. -/
theorem Clean.cleanRel_self {rel : Str} (h : Clean rel) (hs : strip rel = rel) : cleanRel rel = .ok rel := by
  have htext : Str.lstrip '/' ((strip rel).map fun c => if c = '\\' then '/' else c) = rel := by
    rw [hs, map_backslash h.noBackslash]
    have := h.lstrip []
    rwa [List.append_nil] at this
  rw [cleanRel_of_parts htext h.filter_parts, if_neg h.notUp, join_split]

/-- Every clean path is what some text is cleaned to. -/
theorem Clean.reachable {rel : Str} (h : Clean rel) : cleanRel ('/' :: (rel ++ lit "/")) = .ok rel := by
  have hstrip : strip ('/' :: (rel ++ lit "/")) = '/' :: (rel ++ lit "/") := by
    refine strip_eq_self (fun c hc => ?_) fun c hc => ?_
    · obtain rfl := Option.some.inj hc
      decide
    · rw [← List.cons_append, List.getLast?_append_of_ne_nil _ (by decide)] at hc
      obtain rfl := Option.some.inj hc
      decide
  have hback : '\\' ∉ '/' :: (rel ++ lit "/") := by
    rw [List.mem_cons, List.mem_append, not_or, not_or]
    exact ⟨by decide, h.noBackslash, by decide⟩
  have htext : Str.lstrip '/' ((strip ('/' :: (rel ++ lit "/"))).map fun c => if c = '\\' then '/' else c) = rel ++ lit "/" := by
    rw [hstrip, map_backslash hback]
    unfold Str.lstrip lstripWhere
    rw [List.dropWhile_cons_of_pos (by simp)]
    exact h.lstrip _
  have hsplit : split '/' (rel ++ lit "/") = split '/' rel ++ [[]] := split_append_cons '/' rel []
  have hparts : (split '/' (rel ++ lit "/")).filter (fun p => decide (p ≠ [] ∧ p ≠ lit ".")) = split '/' rel := by
    rw [hsplit, List.filter_append, h.filter_parts]
    simp
  rw [cleanRel_of_parts htext hparts, if_neg h.notUp, join_split]

/-! ## Cleaning again -/

/-- What normalizing makes of one path of a selection: nothing where it does not clean, or cleans to the drive
itself. -/
def again (path : Str) : Option Str :=
  match cleanRel path with
  | .ok rel => if rel = [] then none else some rel
  | .error _ => none

theorem again_eq_some {path rel : Str} : again path = some rel ↔ cleanRel path = .ok rel ∧ rel ≠ [] := by
  unfold again
  cases cleanRel path with
  | error e => simp
  | ok x =>
    by_cases hx : x = []
    · simp only [if_pos hx, Except.ok.injEq]
      exact ⟨fun h => (nomatch h), fun h => absurd (h.1 ▸ hx) h.2⟩
    · simp only [if_neg hx, Option.some.injEq, Except.ok.injEq]
      exact ⟨fun h => ⟨h, h ▸ hx⟩, fun h => h.1⟩

theorem again_clean {path rel : Str} (h : again path = some rel) : Clean rel :=
  cleanRel_clean (again_eq_some.1 h).1 (again_eq_some.1 h).2

theorem Clean.again_self {rel : Str} (h : Clean rel) (hs : strip rel = rel) : again rel = some rel :=
  again_eq_some.2 ⟨h.cleanRel_self hs, h.ne_nil⟩

/-- Blanks at the ends are lost. -/
theorem again_shorter {a b : Str} (h : again a = some b) (hs : strip a ≠ a) : b.length < a.length := by
  obtain ⟨hclean, hne⟩ := again_eq_some.1 h
  obtain ⟨parts, rfl, -, hweight⟩ := cleanRel_eq_ok hclean
  have hpne : parts ≠ [] := by
    rintro rfl
    exact hne rfl
  have hpart : strip a <:+: a := (List.rdropWhile_prefix _ _).isInfix.trans (List.dropWhile_suffix _).isInfix
  have hlt : (strip a).length < a.length := Nat.lt_of_le_of_ne hpart.length_le fun heq => hs (hpart.eq_of_length heq)
  have := length_join '/' hpne
  omega

theorem Clean.again_iff {a : Str} (h : Clean a) : again a = some a ↔ strip a = a := by
  refine ⟨fun hself => by_contra fun hs => ?_, h.again_self⟩
  exact absurd (again_shorter hself hs) (Nat.lt_irrefl _)

theorem Clean.again_lt {a b : Str} (h : Clean a) (hab : again a = some b) (hne : a ≠ b) : b.length < a.length := by
  refine again_shorter hab fun hs => hne ?_
  rw [h.again_self hs] at hab
  exact Option.some.inj hab

/-- What lies below a path without blanks at its ends is cleaned to something below it. -/
theorem Clean.under_again {s p t : Str} (hs : Clean s) (hstrip : strip s = s) (hp : Clean p) (hsp : Under s p)
    (ht : again p = some t) : Under s t := by
  rcases hsp with rfl | hpre
  · rw [hs.again_self hstrip] at ht
    exact Or.inl (Option.some.inj ht).symm
  · obtain ⟨u, hu⟩ := List.isPrefixOf_iff_prefix.1 hpre
    obtain ⟨hclean, hne⟩ := again_eq_some.1 ht
    have hpu : p = s ++ '/' :: u := by
      rw [← hu, List.append_assoc]
      rfl
    have hfront : lstripWhere isSpace s = s := by
      have := dropWhile_strip s
      rwa [hstrip] at this
    have hback : '\\' ∉ s ++ '/' :: rstripWhere isSpace u := by
      intro hin
      refine hp.noBackslash ?_
      rw [hpu]
      rcases List.mem_append.1 hin with hin | hin
      · exact List.mem_append_left _ hin
      · rcases List.mem_cons.1 hin with heq | hin
        · exact absurd heq (by decide)
        · exact List.mem_append_right _ (List.mem_cons_of_mem _ ((List.rdropWhile_prefix _ _).subset hin))
    have htext : Str.lstrip '/' ((strip p).map fun c => if c = '\\' then '/' else c) = s ++ '/' :: rstripWhere isSpace u := by
      rw [hpu, strip_append (c := '/') (by decide), hfront, map_backslash hback, hs.lstrip]
    have hparts : (split '/' (s ++ '/' :: rstripWhere isSpace u)).filter (fun p => decide (p ≠ [] ∧ p ≠ lit ".")) =
        split '/' s ++ (split '/' (rstripWhere isSpace u)).filter (fun p => decide (p ≠ [] ∧ p ≠ lit ".")) := by
      rw [split_append_cons, List.filter_append, hs.filter_parts]
    rw [cleanRel_of_parts htext hparts] at hclean
    split at hclean
    · cases hclean
    · obtain rfl := Except.ok.inj hclean
      rw [under_iff, split_join]
      · exact List.prefix_append _ _
      · simp [split_ne_nil]
      · intro c hc
        rcases List.mem_append.1 hc with hc | hc
        · exact notMem_of_mem_split hc
        · exact notMem_of_mem_split (List.mem_filter.1 hc).1

/-! ## The code on clean paths -/

/-- The paths of a list that clean. -/
def cleanedPaths (raws : List Str) : List Str := raws.filterMap again

theorem mem_cleaned {raws : List Str} {x : Str} : x ∈ cleanedPaths raws ↔ ∃ raw ∈ raws, again raw = some x := List.mem_filterMap

theorem clean_of_mem_cleaned {raws : List Str} {x : Str} (h : x ∈ cleanedPaths raws) : Clean x := by
  obtain ⟨raw, -, hraw⟩ := mem_cleaned.1 h
  exact again_clean hraw

/-- The checked paths are cleaned, and each is kept at its first sight. -/
theorem cleanChecked_eq (raws : List Str) : cleanChecked raws = (cleanedPaths raws).eraseDups := by
  have hfold : ∀ (l out : List Str), l.foldl (fun out raw =>
      match cleanRel raw with
      | .ok rel => if rel ≠ [] ∧ rel ∉ out then out ++ [rel] else out
      | .error _ => out) out = out ++ ((cleanedPaths l).filter fun x => decide (x ∉ out)).eraseDups := by
    intro l
    induction l with
    | nil => simp [cleanedPaths]
    | cons raw l ih =>
      intro out
      rw [List.foldl_cons, ih]
      unfold cleanedPaths again
      rw [List.filterMap_cons]
      cases cleanRel raw with
      | error e => rfl
      | ok rel =>
        by_cases hnil : rel = []
        · simp [hnil]
        · by_cases hin : rel ∈ out
          · simp [hnil, hin]
          · simp only [hnil, hin, ne_eq, not_false_eq_true, and_self, if_true, if_false, List.filter_cons, decide_true,
              List.eraseDups_cons, List.filter_filter, List.append_assoc, List.singleton_append]
            refine congrArg (out ++ rel :: ·) (congrArg List.eraseDups (List.filter_congr fun x _ => ?_))
            rw [Bool.eq_iff_iff]
            simp [and_comm]
  have hall : (cleanedPaths raws).filter (fun x => decide (x ∉ ([] : List Str))) = cleanedPaths raws := by simp
  exact (hfold raws []).trans (by rw [hall, List.nil_append])

theorem mem_cleanChecked {raws : List Str} {x : Str} : x ∈ cleanChecked raws ↔ x ∈ cleanedPaths raws := by
  rw [cleanChecked_eq, List.mem_eraseDups]

theorem under_eq {child parent : Str} (h : Clean parent) : under child parent = decide (Under parent child) := by
  unfold under
  rw [h.rstrip, Bool.eq_iff_iff, Bool.or_eq_true, beq_iff_eq, decide_eq_true_eq]
  rfl

theorem dropCovered_eq {paths : List Str} (h : ∀ x ∈ paths, Clean x) : dropCovered paths = minimals Under paths := by
  unfold dropCovered minimals
  refine List.filter_congr fun a _ => ?_
  rw [Bool.eq_iff_iff, Bool.not_eq_true', List.any_eq_false, decide_eq_true_eq]
  refine forall₂_congr fun b hb => ?_
  rw [under_eq (h b hb)]
  simp only [Bool.and_eq_true, decide_eq_true_eq, bne_iff_ne, not_and, not_not]
  exact forall_congr' fun _ => eq_comm

theorem cleanSkipped_eq {kept raws : List Str} (h : ∀ x ∈ kept, Clean x) :
    cleanSkipped kept raws = (cleanedPaths raws).filter fun s => decide (s ∉ kept ∧ ∃ c ∈ kept, Under c s) := by
  have hany : ∀ rel, kept.any (under rel) = decide (∃ c ∈ kept, Under c rel) := by
    intro rel
    rw [Bool.eq_iff_iff, List.any_eq_true, decide_eq_true_eq]
    exact exists_congr fun c => and_congr_right fun hc => by rw [under_eq (h c hc), decide_eq_true_eq]
  unfold cleanSkipped cleanedPaths
  rw [List.filter_filterMap]
  refine List.filterMap_congr fun raw _ => ?_
  unfold again
  cases cleanRel raw with
  | error e => rfl
  | ok rel =>
    simp only [hany]
    by_cases hnil : rel = []
    · rw [if_pos (Or.inl hnil), if_pos hnil]
      rfl
    · rw [if_neg hnil]
      by_cases hin : rel ∈ kept
      · rw [if_pos (Or.inr hin)]
        simp [Option.filter, hin]
      · rw [if_neg (by simp [hnil, hin])]
        by_cases hcov : ∃ c ∈ kept, Under c rel
        · simp [Option.filter, hin, hcov]
        · simp [Option.filter, hcov]

theorem clean_minimals {paths : List Str} (h : ∀ x ∈ paths, Clean x) : ∀ x ∈ minimals Under paths, Clean x := fun x hx =>
  h x (mem_minimals.1 hx).1

/-- **Normalizing a selection** is its normal form, on what its paths clean to. -/
theorem normalizeSelection_eq (checked skipped : List Str) :
    normalizeSelection checked skipped = normalized Under (cleanChecked checked) (cleanedPaths skipped) := by
  have hchecked : ∀ x ∈ cleanChecked checked, Clean x := fun x hx => clean_of_mem_cleaned (mem_cleanChecked.1 hx)
  unfold normalizeSelection normalized
  simp only
  rw [dropCovered_eq hchecked, cleanSkipped_eq (clean_minimals hchecked),
    dropCovered_eq fun x hx => clean_of_mem_cleaned (List.mem_filter.1 hx).1]
  exact congrArg (Prod.mk _) (congrArg _ (List.filter_congr fun s _ => decide_eq_decide.2 Iff.rfl))

theorem normalizeSelection_clean {checked skipped : List Str} :
    (∀ x ∈ (normalizeSelection checked skipped).1, Clean x) ∧ ∀ x ∈ (normalizeSelection checked skipped).2, Clean x := by
  rw [normalizeSelection_eq]
  exact ⟨clean_minimals fun x hx => clean_of_mem_cleaned (mem_cleanChecked.1 hx),
    fun x hx => clean_of_mem_cleaned (mem_normalized_skipped hx).1⟩

theorem normalizeSelection_canonical (checked skipped : List Str) :
    Canonical Under (normalizeSelection checked skipped).1 (normalizeSelection checked skipped).2 := by
  rw [normalizeSelection_eq]
  exact normalized_canonical _ _

theorem normalizeSelection_included (checked skipped : List Str) (x : Str) :
    Included Under (normalizeSelection checked skipped).1 (normalizeSelection checked skipped).2 x ↔
      (∃ c ∈ cleanChecked checked, Under c x) ∧
        ∀ s ∈ cleanedPaths skipped, Under s x → ¬ ∃ c ∈ minimals Under (cleanChecked checked), Under c s ∧ c ≠ s := by
  rw [normalizeSelection_eq]
  exact normalized_included forest_under _ _ _

/-- `path_included` is inclusion of the cleaned path. -/
theorem pathIncluded_eq {q : Str} {C S : List Str} (hC : ∀ x ∈ C, Clean x) (hS : ∀ x ∈ S, Clean x) :
    pathIncluded q C S = (cleanRel q).map fun rel => decide (rel ≠ [] ∧ Included Under C S rel) := by
  have hself : ∀ {l : List Str}, (∀ x ∈ l, Clean x) → ∀ rel,
      (l.any fun s => rel == s || under rel s) = decide (∃ s ∈ l, Under s rel) := by
    intro l hl rel
    rw [Bool.eq_iff_iff, List.any_eq_true, decide_eq_true_eq]
    refine exists_congr fun s => and_congr_right fun hs => ?_
    rw [under_eq (hl s hs), Bool.or_eq_true, beq_iff_eq, decide_eq_true_eq]
    exact or_iff_right_of_imp fun heq => heq ▸ Under.refl _
  have hempty : (if q = [] then .ok [] else cleanRel q) = cleanRel q := by
    by_cases hq : q = []
    · rw [if_pos hq, hq]
      rfl
    · rw [if_neg hq]
  unfold pathIncluded
  rw [hempty]
  cases cleanRel q with
  | error e => rfl
  | ok rel =>
    simp only [hself hC, hself hS]
    by_cases hnil : rel = []
    · rw [if_pos hnil]
      simp [Except.map, hnil]
    · rw [if_neg hnil]
      by_cases hs : ∃ s ∈ S, Under s rel
      · rw [if_pos (by simpa using hs)]
        have hno : ¬ Included Under C S rel := fun h => hs.elim fun s hs => h.2 s hs.1 hs.2
        simp [Except.map, hno]
      · rw [if_neg (by simpa using hs)]
        have hall : ∀ s ∈ S, ¬ Under s rel := fun s hsS hsr => hs ⟨s, hsS, hsr⟩
        exact congrArg Except.ok (decide_eq_decide.2 ⟨fun h => ⟨hnil, h, hall⟩, fun h => h.2.1⟩)

/-! ## Toggling -/

/-- **What a toggle should do**: at `rel` and below it everything is on or off, elsewhere nothing changes. -/
def ToggledTo (before after : List Str × List Str) (rel : Str) (on : Bool) : Prop :=
  ∀ q, pathIncluded q after.1 after.2 =
    match cleanRel q with
    | .ok r => if Under rel r then .ok on else pathIncluded q before.1 before.2
    | .error _ => pathIncluded q before.1 before.2

/-- `rel` lies below a skipped path. -/
def InsideSkipped (skipped : List Str) (rel : Str) : Prop := ∃ s ∈ skipped, Under s rel ∧ s ≠ rel

/-- The selection with the subtree of `rel` on or off: the paths outside it, and `rel` itself where it is needed. -/
def toggled (before : List Str × List Str) (rel : Str) (on : Bool) : List Str × List Str :=
  if on then switchOn Under before.1 before.2 rel else switchOff Under before.1 before.2 rel

/-- No path of the selection has a blank at its ends. -/
def Stripped (sel : List Str × List Str) : Prop := ∀ x ∈ sel.1 ++ sel.2, strip x = x

/-- The paths of a selection are clean. -/
structure CleanSelection (sel : List Str × List Str) : Prop where
  checked : ∀ x ∈ sel.1, Clean x
  skipped : ∀ x ∈ sel.2, Clean x

theorem toggledTo_iff {before after : List Str × List Str} (hb : CleanSelection before) (ha : CleanSelection after)
    {rel : Str} (hrel : Clean rel) {on : Bool} :
    ToggledTo before after rel on ↔
      ∀ r, Clean r → (Included Under after.1 after.2 r ↔ if Under rel r then on = true else Included Under before.1 before.2 r) := by
  constructor
  · intro h r hr
    have hq := h ('/' :: (r ++ lit "/"))
    rw [pathIncluded_eq ha.checked ha.skipped, pathIncluded_eq hb.checked hb.skipped, hr.reachable] at hq
    simp only [Except.map] at hq
    by_cases hu : Under rel r
    · rw [if_pos hu] at hq ⊢
      have := Except.ok.inj hq
      rw [← this, decide_eq_true_eq]
      exact (and_iff_right hr.ne_nil).symm
    · rw [if_neg hu] at hq ⊢
      have := decide_eq_decide.1 (Except.ok.inj hq)
      rwa [and_iff_right hr.ne_nil, and_iff_right hr.ne_nil] at this
  · intro h q
    rw [pathIncluded_eq ha.checked ha.skipped, pathIncluded_eq hb.checked hb.skipped]
    cases hq : cleanRel q with
    | error e => rfl
    | ok r =>
      simp only [Except.map]
      by_cases hnil : r = []
      · have hno : ¬ Under rel r := by
          rintro (heq | hpre)
          · exact hrel.ne_nil (heq ▸ hnil)
          · rw [hnil] at hpre
            have := (List.isPrefixOf_iff_prefix.1 hpre).length_le
            simp at this
        rw [if_neg hno]
        simp [hnil]
      · have hr := cleanRel_clean hq hnil
        by_cases hu : Under rel r
        · have := h r hr
          rw [if_pos hu] at this ⊢
          simp [hnil, this]
        · have := h r hr
          rw [if_neg hu] at this ⊢
          simp [hnil, this]

/-- **Normalizing a canonical selection once more** keeps what it includes iff its paths have no blanks at their
ends. -/
theorem normalize_again_iff {C S : List Str} (hC : ∀ x ∈ C, Clean x) (hS : ∀ x ∈ S, Clean x) (hcan : Canonical Under C S) :
    (∀ r, Clean r → (Included Under (normalizeSelection C S).1 (normalizeSelection C S).2 r ↔ Included Under C S r)) ↔
      Stripped (C, S) := by
  have hnorm := normalizeSelection_eq C S
  constructor
  · intro h x hx
    have hclean : ∀ x, x ∈ (normalizeSelection C S).1 ++ (normalizeSelection C S).2 ++ (C ++ S) → Clean x := by
      intro x hx
      simp only [List.mem_append] at hx
      rcases hx with (hx | hx) | (hx | hx)
      · exact normalizeSelection_clean.1 x hx
      · exact normalizeSelection_clean.2 x hx
      · exact hC x hx
      · exact hS x hx
    obtain ⟨hCeq, hSeq⟩ := (normalizeSelection_canonical C S).ext forest_under hcan fun x hx => h x (hclean x hx)
    -- a list that cleaning again covers is fixed by it, since cleaning makes a path shorter or leaves it
    have hfix : ∀ {l : List Str}, (∀ x ∈ l, Clean x) → (∀ x ∈ l, x ∈ cleanedPaths l) → ∀ x ∈ l, strip x = x := by
      intro l hl hcov x hx
      have hself := @fixed_of_cover _ List.length again l (fun ha hab hne => (hl _ ha).again_lt hab hne)
        (fun c hc => mem_cleaned.1 (hcov c hc)) x hx
      exact (hl x hx).again_iff.1 hself
    rcases List.mem_append.1 hx with hx | hx
    · refine hfix hC (fun y hy => ?_) x hx
      have := (hCeq y).2 hy
      rw [hnorm] at this
      exact mem_cleanChecked.1 (mem_minimals.1 this).1
    · refine hfix hS (fun y hy => ?_) x hx
      have := (hSeq y).2 hy
      rw [hnorm] at this
      exact (mem_normalized_skipped this).1
  · intro h r _
    have hself : ∀ {l : List Str}, (∀ x ∈ l, Clean x) → (∀ x ∈ l, strip x = x) → ∀ x, x ∈ cleanedPaths l ↔ x ∈ l := by
      intro l hl hs x
      rw [mem_cleaned]
      constructor
      · rintro ⟨y, hy, hyx⟩
        rw [(hl y hy).again_self (hs y hy)] at hyx
        exact Option.some.inj hyx ▸ hy
      · exact fun hx => ⟨x, hx, (hl x hx).again_self (hs x hx)⟩
    have hsC := hself hC fun x hx => h x (List.mem_append_left _ hx)
    have hsS := hself hS fun x hx => h x (List.mem_append_right _ hx)
    have hkept : ∀ x, x ∈ minimals Under (cleanChecked C) ↔ x ∈ C := by
      intro x
      have hmem : ∀ x, x ∈ cleanChecked C ↔ x ∈ C := fun x => mem_cleanChecked.trans (hsC x)
      rw [minimals_of_antichain fun a ha b hb => hcan.checkedApart a ((hmem a).1 ha) b ((hmem b).1 hb), hmem]
    rw [normalizeSelection_included]
    constructor
    · rintro ⟨⟨c, hc, hcr⟩, hs⟩
      refine ⟨⟨c, (hsC c).1 (mem_cleanChecked.1 hc), hcr⟩, fun s hsS' hsr => ?_⟩
      obtain ⟨b, hb, hbs, hne⟩ := hcan.below s hsS'
      exact hs s ((hsS s).2 hsS') hsr ⟨b, (hkept b).2 hb, hbs, hne⟩
    · rintro ⟨⟨c, hc, hcr⟩, hs⟩
      exact ⟨⟨c, mem_cleanChecked.2 ((hsC c).2 hc), hcr⟩, fun s hsY hsr _ => hs s ((hsS s).1 hsY) hsr⟩

theorem outside_eq {rel : Str} (h : Clean rel) (l : List Str) :
    (l.filter fun s => s != rel && !under s rel) = outside Under rel l ∧ (l.filter fun c => !under c rel) = outside Under rel l := by
  have hone : ∀ s, (!under s rel) = decide (¬ Under rel s) := fun s => by rw [under_eq h, decide_not]
  refine ⟨List.filter_congr fun s _ => ?_, List.filter_congr fun s _ => hone s⟩
  rw [hone, Bool.and_eq_right_iff_imp]
  intro hnot
  rw [bne_iff_ne]
  rintro rfl
  exact of_decide_eq_true hnot (Under.refl _)

theorem clean_outside {rel : Str} {l : List Str} (h : ∀ x ∈ l, Clean x) : ∀ x ∈ outside Under rel l, Clean x := fun x hx =>
  h x (mem_outside.1 hx).1

theorem any_under {l : List Str} (h : ∀ x ∈ l, Clean x) (rel : Str) : l.any (under rel) = true ↔ ∃ c ∈ l, Under c rel := by
  rw [List.any_eq_true]
  exact exists_congr fun c => and_congr_right fun hc => by rw [under_eq (h c hc), decide_eq_true_eq]

/-- The lists a toggle hands to the second normalization: those of the switch, and, where `rel` is inside a skipped
path already, `rel` once more. -/
theorem applyToggle_eq {checked skipped : List Str} {path rel : Str} {on : Bool} (h : cleanRel path = .ok rel) (hne : rel ≠ []) :
    let before := normalizeSelection checked skipped
    ∃ T, applyToggle checked skipped path on = .ok (normalizeSelection (toggled before rel on).1 T) ∧
      ((¬ InsideSkipped before.2 rel ∨ on = true) → T = (toggled before rel on).2) ∧
      (InsideSkipped before.2 rel → on = false → T = (toggled before rel on).2 ++ [rel]) := by
  intro before
  have hclean := cleanRel_clean h hne
  obtain ⟨hC, hS⟩ := @normalizeSelection_clean checked skipped
  have hout := outside_eq hclean
  have hany := any_under (@clean_outside rel _ hC) rel
  unfold applyToggle toggled
  rw [h]
  simp only
  rw [if_neg hne]
  cases on with
  | true =>
    refine ⟨outside Under rel before.2, ?_, fun _ => rfl, fun _ hoff => absurd hoff (by decide)⟩
    simp only [if_true, (hout _).1, (hout _).2, switchOn]
    by_cases hex : ∃ c ∈ outside Under rel before.1, Under c rel
    · rw [if_pos hex, if_pos (hany.2 hex), List.append_nil]
    · rw [if_neg hex, if_neg fun hc => hex (hany.1 hc)]
  | false =>
    refine ⟨if (outside Under rel before.1).any (under rel) then outside Under rel before.2 ++ [rel] else outside Under rel before.2,
      ?_, fun hin => ?_, fun hin _ => ?_⟩
    · simp only [Bool.false_eq_true, if_false, (hout _).1, switchOff]
      rfl
    · have hno : ¬ ∃ s ∈ outside Under rel before.2, Under s rel := by
        rintro ⟨s, hs, hsr⟩
        obtain ⟨hsS, hrs⟩ := mem_outside.1 hs
        exact hin.elim (fun hin => hin ⟨s, hsS, hsr, fun heq => hrs (heq ▸ Under.refl _)⟩) fun hon => absurd hon Bool.false_ne_true
      simp only [Bool.false_eq_true, if_false, switchOff]
      by_cases hex : ∃ c ∈ outside Under rel before.1, Under c rel
      · rw [if_pos (hany.2 hex), if_pos ⟨hex, hno⟩]
      · rw [if_neg fun hc => hex (hany.1 hc), if_neg fun hc => hex hc.1, List.append_nil]
    · obtain ⟨s, hs, hsr, hsne⟩ := hin
      obtain ⟨c, hc, hcs, -⟩ := (normalizeSelection_canonical checked skipped).below s hs
      have hrs : ¬ Under rel s := fun hrs => hsne (hsr.antisymm hrs)
      have hskip : ∃ s ∈ outside Under rel before.2, Under s rel := ⟨s, mem_outside.2 ⟨hs, hrs⟩, hsr⟩
      have hex : ∃ c ∈ outside Under rel before.1, Under c rel :=
        ⟨c, mem_outside.2 ⟨hc, fun hrc => hrs (hrc.trans hcs)⟩, hcs.trans hsr⟩
      simp only [Bool.false_eq_true, if_false, switchOff]
      rw [if_pos (hany.2 hex), if_neg fun hc => hc.2 hskip, List.append_nil]

theorem toggled_clean {checked skipped : List Str} {rel : Str} (hrel : Clean rel) (on : Bool) :
    CleanSelection (toggled (normalizeSelection checked skipped) rel on) := by
  obtain ⟨hC, hS⟩ := @normalizeSelection_clean checked skipped
  have hmem : ∀ {l : List Str} {q : Prop} [Decidable q], (∀ x ∈ l, Clean x) → ∀ x ∈ outside Under rel l ++ (if q then [] else [rel]), Clean x := by
    intro l q _ hl x hx
    rcases List.mem_append.1 hx with hx | hx
    · exact clean_outside hl x hx
    · split at hx
      · cases hx
      · exact List.mem_singleton.1 hx ▸ hrel
  unfold toggled
  cases on with
  | true => exact ⟨hmem hC, clean_outside hS⟩
  | false =>
    refine ⟨clean_outside hC, fun x hx => ?_⟩
    rcases List.mem_append.1 hx with hx | hx
    · exact clean_outside hS x hx
    · split at hx
      · exact List.mem_singleton.1 hx ▸ hrel
      · cases hx

/-- The switched selection includes what a toggle should include, when a ticked path is not inside a skipped one. -/
theorem toggled_included {checked skipped : List Str} {rel : Str} {on : Bool}
    (h : ¬ InsideSkipped (normalizeSelection checked skipped).2 rel ∨ on = false) :
    let before := normalizeSelection checked skipped
    Canonical Under (toggled before rel on).1 (toggled before rel on).2 ∧
      ∀ r, Included Under (toggled before rel on).1 (toggled before rel on).2 r ↔
        if Under rel r then on = true else Included Under before.1 before.2 r := by
  intro before
  have hcan := normalizeSelection_canonical checked skipped
  cases on with
  | true =>
    have hin : ∀ s ∈ before.2, Under s rel → s = rel := fun s hs hsr => by
      by_contra hne
      exact h.elim (fun h => h ⟨s, hs, hsr, hne⟩) fun hoff => (nomatch hoff)
    obtain ⟨hc, hi⟩ := hcan.switchOn forest_under hin
    refine ⟨hc, fun r => (hi r).trans ?_⟩
    by_cases hu : Under rel r
    · simp [hu]
    · simp [hu]
      rfl
  | false =>
    obtain ⟨hc, hi⟩ := hcan.switchOff (p := rel) forest_under
    refine ⟨hc, fun r => (hi r).trans ?_⟩
    by_cases hu : Under rel r
    · simp [hu]
    · simp [hu]
      rfl

/-- **A toggle means what it says** iff it does not tick a path inside a skipped folder and no path that it keeps or
adds has a blank at its ends. Unticking a path inside a skipped folder is right when no path kept has one. -/
theorem applyToggle_iff {checked skipped : List Str} {path rel : Str} {on : Bool} (h : cleanRel path = .ok rel) (hne : rel ≠ []) :
    let before := normalizeSelection checked skipped
    ∃ after, applyToggle checked skipped path on = .ok after ∧
      (InsideSkipped before.2 rel → on = true → ¬ ToggledTo before after rel on) ∧
      (¬ InsideSkipped before.2 rel → (ToggledTo before after rel on ↔ Stripped (toggled before rel on))) ∧
      (InsideSkipped before.2 rel → on = false → Stripped (toggled before rel on) → ToggledTo before after rel on) := by
  intro before
  have hrel := cleanRel_clean h hne
  have hb : CleanSelection before := ⟨normalizeSelection_clean.1, normalizeSelection_clean.2⟩
  obtain ⟨T, hrun, hsame, hextra⟩ := @applyToggle_eq checked skipped path rel on h hne
  have ha : CleanSelection (normalizeSelection (toggled before rel on).1 T) :=
    ⟨normalizeSelection_clean.1, normalizeSelection_clean.2⟩
  have hclean := @toggled_clean checked skipped rel hrel on
  refine ⟨_, hrun, fun hin hon hto => ?_, fun hin => ?_, fun hin hoff hstrip => ?_⟩
  · -- the skipped folder is below an included one and stays excluded, so nothing below it is included
    obtain ⟨s, hs, hsr, hsne⟩ := hin
    have hcan := normalizeSelection_canonical checked skipped
    obtain ⟨c, hc, hcs, -⟩ := hcan.below s hs
    have hrs : ¬ Under rel s := fun hrs => hsne (hsr.antisymm hrs)
    have hrc : ¬ Under rel c := fun hrc => hrs (hrc.trans hcs)
    have hiff := (toggledTo_iff hb ha hrel).1 hto
    have hic := (hiff c (hb.checked c hc)).2 (by rw [if_neg hrc]; exact hcan.included_checked forest_under hc)
    have his := (hiff s (hb.skipped s hs)).not.2 (by rw [if_neg hrs]; exact Canonical.not_included_skipped forest_under hs)
    have hip := (hiff rel hrel).2 (by rw [if_pos (Under.refl rel)]; exact hon)
    exact Included.not_below_gap forest_under hic hcs his hsr hip
  · obtain ⟨hcan, hinc⟩ := @toggled_included checked skipped rel on (Or.inl hin)
    rw [toggledTo_iff hb ha hrel, hsame (Or.inl hin), ← normalize_again_iff hclean.checked hclean.skipped hcan]
    exact forall₂_congr fun r _ => by rw [hinc r]
  · obtain ⟨hcan, hinc⟩ := @toggled_included checked skipped rel on (Or.inr hoff)
    rw [toggledTo_iff hb ha hrel, hextra hin hoff]
    intro r hr
    rw [← hinc r, ← (normalize_again_iff hclean.checked hclean.skipped hcan).2 hstrip r hr]
    refine (normalizeSelection_included _ _ r).trans (Iff.trans ?_ (normalizeSelection_included _ _ r).symm)
    refine and_congr_right fun _ => ⟨fun hall s hs => hall s ?_, fun hall y hy hyr hex => ?_⟩
    · obtain ⟨raw, hraw, hrs⟩ := mem_cleaned.1 hs
      exact mem_cleaned.2 ⟨raw, List.mem_append_left _ hraw, hrs⟩
    · obtain ⟨raw, hraw, hry⟩ := mem_cleaned.1 hy
      rcases List.mem_append.1 hraw with hraw | hraw
      · exact hall y (mem_cleaned.2 ⟨raw, hraw, hry⟩) hyr hex
      · -- what `rel` is cleaned to lies below the skipped path that `rel` is inside of
        obtain rfl := List.mem_singleton.1 hraw
        obtain ⟨s, hs, hsr, hsne⟩ := hin
        have hsT : s ∈ (toggled before raw on).2 := by
          rw [hoff]
          exact List.mem_append_left _ (mem_outside.2 ⟨hs, fun hrs => hsne (hsr.antisymm hrs)⟩)
        have hsclean := hclean.skipped s hsT
        have hss := hstrip s (List.mem_append_right _ hsT)
        have hsy := hsclean.under_again hss hrel hsr hry
        obtain ⟨b, hbT, hbs, hbne⟩ := hcan.below s hsT
        have hbclean := (hclean.checked b hbT).again_self (hstrip b (List.mem_append_left _ hbT))
        obtain ⟨k, hk, hkb⟩ := exists_minimal forest_under (mem_cleanChecked.2 (mem_cleaned.2 ⟨b, hbT, hbclean⟩))
        refine hall s (mem_cleaned.2 ⟨s, hsT, hsclean.again_self hss⟩) (hsy.trans hyr) ⟨k, hk, hkb.trans hbs, ?_⟩
        rintro rfl
        exact hbne (hbs.antisymm hkb)

/-- Skipping a folder below a ticked one and ticking it again. -/
theorem applyToggle_data :
    ∃ after, applyToggle [lit "pi"] [lit "pi/data"] (lit "pi/data/") true = .ok after ∧
      ToggledTo ([lit "pi"], [lit "pi/data"]) after (lit "pi/data") true := by
  have hbefore : normalizeSelection [lit "pi"] [lit "pi/data"] = ([lit "pi"], [lit "pi/data"]) := by decide +kernel
  have hclean : cleanRel (lit "pi/data/") = .ok (lit "pi/data") := by decide +kernel
  obtain ⟨after, hrun, -, hiff, -⟩ := @applyToggle_iff [lit "pi"] [lit "pi/data"] (lit "pi/data/") (lit "pi/data") true hclean (by decide)
  rw [hbefore] at hiff
  have hout : ¬ InsideSkipped [lit "pi/data"] (lit "pi/data") := by
    rintro ⟨s, hs, -, hne⟩
    exact hne (List.mem_singleton.1 hs)
  refine ⟨after, hrun, (hiff hout).2 ?_⟩
  have hkeep : toggled ([lit "pi"], [lit "pi/data"]) (lit "pi/data") true = ([lit "pi"], []) := by decide +kernel
  rw [hkeep]
  intro x hx
  rw [List.mem_singleton.1 hx]
  decide +kernel

/-- **Ticking a path inside a skipped folder does nothing.** -/
theorem tick_inside_skipped_is_lost :
    applyToggle [lit "pi"] [lit "pi/data"] (lit "pi/data/db") true = .ok ([lit "pi"], [lit "pi/data"]) ∧
      pathIncluded (lit "pi/data/db") [lit "pi"] [lit "pi/data"] = .ok false := by
  decide +kernel

end PiHerder.Backup
