import PiHerder.Backup.Selection
import PiHerder.Lib.Dict
import PiHerder.Lib.JsonValue

/-!
# The normal form of a selection

The column of a copy holds the JSON of its normalized selection, and what reads the column normalizes again
(`services/backup_replicate.py`).

| here | there |
| --- | --- |
| `SelectionText.parseSelection` | `parse_selection` (65–74) |
| `SelectionText.selectionJson` | `selection_json` (77–79) |

Three things spoil the normal form. The checked paths are gathered each once and the skipped ones are not. Cleaning
strips a path before its slashes go, so a name that begins or ends with a blank is another name the second time
(`Stripped`). And `path_included` compares with the entries as they are spelled (`SpelledAlike`).
-/
namespace PiHerder.Backup
open Lib Lib.Str Lib.Selection

/-! ## The column -/

/-- `json` of the standard library, and `str` of what it reads. -/
structure SelectionText (β : Type) where
  dumps : JsonValue → β
  loads : β → Option JsonValue
  loads_dumps : ∀ v, loads (dumps v) = some v
  repr : JsonValue → Str

/-- What a `for` runs through; a number has nothing to run through. -/
def itemsOf : JsonValue → Except Unit (List JsonValue)
  | .arr items => .ok items
  | .str s => .ok (s.map fun c => .str [c])
  | .obj items => .ok (items.map fun item => .str item.1)
  | _ => .error ()

namespace SelectionText
variable {β : Type} (t : SelectionText β)

def pathsOf (v : JsonValue) : Except Unit (List Str) :=
  (if v.truthy then itemsOf v else .ok []).map fun items => (items.map (·.text t.repr)).filter fun p => decide (strip p ≠ [])

/-- `raw` is `none` where the column is empty. -/
def parseSelection (raw : Option β) : Except Unit (List Str × List Str) :=
  let data := match raw with
    | some text => (t.loads text).getD (.obj [])
    | none => .obj []
  let data := match data with
    | .obj d => d
    | _ => []
  (t.pathsOf (JsonValue.get data (lit "checked"))).bind fun checked =>
    (t.pathsOf (JsonValue.get data (lit "skipped"))).map fun skipped => normalizeSelection checked skipped

def selectionJson (checked skipped : List Str) : β :=
  let selection := normalizeSelection checked skipped
  t.dumps (.obj [(lit "checked", .arr (selection.1.map .str)), (lit "skipped", .arr (selection.2.map .str))])

end SelectionText

/-! ## The law -/

/-- A skipped path is at or above a checked one that is kept. -/
def Overrides (checked skipped : List Str) : Prop :=
  ∃ s ∈ cleanedPaths skipped, ∃ c ∈ (normalizeSelection checked skipped).1, Under s c

/-- **The normal form** of a selection, its column, and what it includes. -/
structure NormalForm {β : Type} (t : SelectionText β) (checked skipped : List Str) : Prop where
  checkedOnce : (normalizeSelection checked skipped).1.Nodup
  skippedOnce : (normalizeSelection checked skipped).2.Nodup
  checkedApart : Antichain Under (normalizeSelection checked skipped).1
  skippedApart : Antichain Under (normalizeSelection checked skipped).2
  below : ∀ s ∈ (normalizeSelection checked skipped).2, ∃ c ∈ (normalizeSelection checked skipped).1, Under c s ∧ c ≠ s
  idempotent : normalizeSelection (normalizeSelection checked skipped).1 (normalizeSelection checked skipped).2 =
    normalizeSelection checked skipped
  roundTrip : t.parseSelection (some (t.selectionJson checked skipped)) = .ok (normalizeSelection checked skipped)
  included : ¬ Overrides checked skipped → ∀ q,
    pathIncluded q (normalizeSelection checked skipped).1 (normalizeSelection checked skipped).2 = pathIncluded q checked skipped

/-! ## When it holds -/

/-- A checked path with no other one above it. -/
def Topmost (checked : List Str) (p : Str) : Prop :=
  p ∈ cleanedPaths checked ∧ ∀ c ∈ cleanedPaths checked, Under c p → c = p

/-- A skipped path below a checked one. -/
def CutsOut (checked skipped : List Str) (p : Str) : Prop :=
  p ∈ cleanedPaths skipped ∧ ∃ c ∈ cleanedPaths checked, Under c p ∧ c ≠ p

/-- A skipped path below a checked one, with no other such path above it. -/
def TopmostCut (checked skipped : List Str) (p : Str) : Prop :=
  CutsOut checked skipped p ∧ ∀ s, CutsOut checked skipped s → Under s p → s = p

/-- No two entries of the skipped list are spellings of one topmost path. -/
def SkippedOnce (checked skipped : List Str) : Prop :=
  ∀ p, TopmostCut checked skipped p → (cleanedPaths skipped).count p ≤ 1

/-- The topmost paths have no blanks at their ends. -/
def BlankFree (checked skipped : List Str) : Prop :=
  ∀ p, Topmost checked p ∨ TopmostCut checked skipped p → strip p = p

/-- The entries say as they are spelled what they say cleaned. -/
def SpelledAlike (checked skipped : List Str) : Prop := ∀ q, Clean q →
  (checked.any (under q) && !skipped.any (under q)) =
    ((cleanedPaths checked).any (under q) && !(cleanedPaths skipped).any (under q))

/-! ## The two lists -/

variable {checked skipped : List Str}

theorem mem_kept {p : Str} : p ∈ (normalizeSelection checked skipped).1 ↔ Topmost checked p := by
  rw [normalizeSelection_eq]
  refine mem_minimals.trans ?_
  simp only [mem_cleanChecked, Topmost]

theorem checked_once : (normalizeSelection checked skipped).1.Nodup := by
  rw [normalizeSelection_eq, cleanChecked_eq]
  exact (nodup_eraseDups (cleanedPaths checked)).sublist List.filter_sublist

/-- What the second pass goes through: the skipped paths below a checked one. -/
theorem cutsOut_iff {p : Str} : (p ∈ cleanedPaths skipped ∧ p ∉ (normalizeSelection checked skipped).1 ∧
    ∃ c ∈ (normalizeSelection checked skipped).1, Under c p) ↔ CutsOut checked skipped p := by
  constructor
  · rintro ⟨hp, hnot, c, hc, hcp⟩
    exact ⟨hp, c, (mem_kept.1 hc).1, hcp, fun heq => hnot (heq ▸ hc)⟩
  · rintro ⟨hp, c, hc, hcp, hne⟩
    refine ⟨hp, fun hin => hne ((mem_kept.1 hin).2 c hc hcp), ?_⟩
    obtain ⟨m, hm, hmc⟩ := exists_minimal forest_under hc
    exact ⟨m, mem_kept.2 (mem_minimals.1 hm), hmc.trans hcp⟩

/-- The skipped paths below a checked one, in the order they were given. -/
def cuts (checked skipped : List Str) : List Str :=
  (cleanedPaths skipped).filter fun p =>
    decide (p ∉ (normalizeSelection checked skipped).1 ∧ ∃ c ∈ (normalizeSelection checked skipped).1, Under c p)

theorem leftOut_eq : (normalizeSelection checked skipped).2 = minimals Under (cuts checked skipped) := by
  unfold cuts
  rw [normalizeSelection_eq]
  exact congrArg (minimals Under) (List.filter_congr fun _ _ => decide_eq_decide.2 Iff.rfl)

theorem mem_cuts {p : Str} : p ∈ cuts checked skipped ↔ CutsOut checked skipped p := by
  unfold cuts
  rw [List.mem_filter, decide_eq_true_eq]
  exact cutsOut_iff

theorem mem_leftOut {p : Str} : p ∈ (normalizeSelection checked skipped).2 ↔ TopmostCut checked skipped p := by
  rw [leftOut_eq, mem_minimals, mem_cuts]
  exact and_congr_right fun _ => forall_congr' fun s => by rw [mem_cuts]

/-- The second pass does not look back, so a path is left out as often as it was written. -/
theorem count_leftOut {p : Str} (h : p ∈ (normalizeSelection checked skipped).2) :
    (normalizeSelection checked skipped).2.count p = (cleanedPaths skipped).count p := by
  have htop : ∀ {q : Str → Bool} {l : List Str}, p ∈ l.filter q → (l.filter q).count p = l.count p := fun hp =>
    List.count_filter (List.mem_filter.1 hp).2
  rw [leftOut_eq] at h ⊢
  exact (htop h).trans (htop (mem_minimals.1 h).1)

theorem skipped_once_iff : (normalizeSelection checked skipped).2.Nodup ↔ SkippedOnce checked skipped := by
  rw [List.nodup_iff_count]
  constructor
  · intro h p hp
    rw [← count_leftOut (mem_leftOut.2 hp)]
    exact h p
  · intro h p
    by_cases hp : p ∈ (normalizeSelection checked skipped).2
    · rw [count_leftOut hp]
      exact h p (mem_leftOut.1 hp)
    · rw [List.count_eq_zero.2 hp]
      exact Nat.zero_le 1

theorem blankFree_iff : Stripped (normalizeSelection checked skipped) ↔ BlankFree checked skipped := by
  unfold Stripped BlankFree
  simp only [List.mem_append, mem_kept, mem_leftOut]

/-! ## Normalizing again -/

theorem cleanedPaths_self {l : List Str} (h : ∀ x ∈ l, Clean x) (hs : ∀ x ∈ l, strip x = x) : cleanedPaths l = l := by
  unfold cleanedPaths
  rw [List.filterMap_congr fun x hx => (h x hx).again_self (hs x hx)]
  exact List.filterMap_some

theorem cleanChecked_self {l : List Str} (h : ∀ x ∈ l, Clean x) (hs : ∀ x ∈ l, strip x = x) (hl : l.Nodup) :
    cleanChecked l = l := by
  rw [cleanChecked_eq, cleanedPaths_self h hs, eraseDups_of_nodup hl]

/-- **The normal form is kept** iff its paths have no blanks at their ends. -/
theorem idempotent_iff :
    normalizeSelection (normalizeSelection checked skipped).1 (normalizeSelection checked skipped).2 = normalizeSelection checked skipped ↔
      BlankFree checked skipped := by
  have hclean := @normalizeSelection_clean checked skipped
  have hcan := normalizeSelection_canonical checked skipped
  rw [← blankFree_iff]
  constructor
  · intro h
    refine (normalize_again_iff hclean.1 hclean.2 hcan).1 fun r _ => ?_
    rw [h]
  · intro h
    have h₁ := cleanChecked_self hclean.1 (fun x hx => h x (List.mem_append_left _ hx)) checked_once
    have h₂ := cleanedPaths_self hclean.2 fun x hx => h x (List.mem_append_right _ hx)
    have hkept : minimals Under (normalizeSelection checked skipped).1 = (normalizeSelection checked skipped).1 :=
      List.filter_eq_self.2 fun a ha => decide_eq_true fun b hb hba => hcan.checkedApart b hb a ha hba
    have hleft : minimals Under (normalizeSelection checked skipped).2 = (normalizeSelection checked skipped).2 :=
      List.filter_eq_self.2 fun a ha => decide_eq_true fun b hb hba => hcan.skippedApart b hb a ha hba
    rw [normalizeSelection_eq (normalizeSelection checked skipped).1, h₁, h₂]
    unfold normalized
    simp only [hkept]
    rw [List.filter_eq_self.2 fun s hs => ?_, hleft]
    exact decide_eq_true (cutsOut_iff.2 (mem_leftOut.1 hs).1).2

/-! ## The column -/

section column
variable {β : Type} (t : SelectionText β)

theorem again_blank {p : Str} (h : strip p = []) : again p = none := by
  have : cleanRel p = .ok [] := by
    unfold cleanRel
    rw [h]
    rfl
  simp [again, this]

theorem normalizeSelection_nonblank (C S : List Str) :
    normalizeSelection (C.filter fun p => decide (strip p ≠ [])) (S.filter fun p => decide (strip p ≠ [])) = normalizeSelection C S := by
  have hcleaned : ∀ l : List Str, cleanedPaths (l.filter fun p => decide (strip p ≠ [])) = cleanedPaths l := by
    intro l
    unfold cleanedPaths
    rw [List.filterMap_filter]
    refine List.filterMap_congr fun p _ => ?_
    by_cases h : strip p = []
    · rw [again_blank h]
      simp
    · simp [h]
  rw [normalizeSelection_eq, normalizeSelection_eq, cleanChecked_eq, cleanChecked_eq, hcleaned, hcleaned]

theorem pathsOf_strings (l : List Str) : t.pathsOf (.arr (l.map .str)) = .ok (l.filter fun p => decide (strip p ≠ [])) := by
  have htext : (l.map JsonValue.str).map (·.text t.repr) = l := by
    rw [List.map_map]
    exact List.map_id l
  unfold SelectionText.pathsOf
  cases l with
  | nil => rfl
  | cons p l =>
    rw [if_pos (by rfl)]
    simp only [itemsOf, Except.map]
    rw [htext]

/-- Reading the column normalizes the normal form again. -/
theorem parse_selectionJson : t.parseSelection (some (t.selectionJson checked skipped)) =
    .ok (normalizeSelection (normalizeSelection checked skipped).1 (normalizeSelection checked skipped).2) := by
  unfold SelectionText.parseSelection SelectionText.selectionJson
  simp only [t.loads_dumps, Option.getD_some]
  have h₁ : ∀ a b : JsonValue, JsonValue.get [(lit "checked", a), (lit "skipped", b)] (lit "checked") = a := fun _ _ => rfl
  have h₂ : ∀ a b : JsonValue, JsonValue.get [(lit "checked", a), (lit "skipped", b)] (lit "skipped") = b := fun _ _ => rfl
  rw [h₁, h₂, pathsOf_strings, pathsOf_strings, Except.bind, Except.map, normalizeSelection_nonblank]

end column

/-! ## What is included -/

/-- `path_included` looks for the cleaned path under the entries as they are spelled. -/
theorem pathIncluded_spelled (q : Str) (C S : List Str) :
    pathIncluded q C S = (cleanRel q).map fun rel => decide (rel ≠ []) && (C.any (under rel) && !S.any (under rel)) := by
  have hself : ∀ (l : List Str) rel, (l.any fun s => rel == s || under rel s) = l.any (under rel) := by
    intro l rel
    refine congrArg (List.any l) (funext fun s => ?_)
    unfold under
    rw [← Bool.or_assoc, Bool.or_self]
  have hempty : (if q = [] then .ok [] else cleanRel q) = cleanRel q := by
    by_cases hq : q = []
    · rw [if_pos hq, hq]
      rfl
    · rw [if_neg hq]
  unfold pathIncluded
  rw [hempty]
  cases cleanRel q with
  | error e => rfl
  | ok rel =>
    simp only [hself, Except.map]
    by_cases hnil : rel = []
    · simp [hnil]
    · cases C.any (under rel) <;> cases S.any (under rel) <;> simp [hnil]

/-- Where no skipped path is at or above a kept one, the normal form includes what the cleaned entries do. -/
theorem included_cleaned (h : ¬ Overrides checked skipped) (r : Str) :
    Included Under (normalizeSelection checked skipped).1 (normalizeSelection checked skipped).2 r ↔
      Included Under (cleanedPaths checked) (cleanedPaths skipped) r := by
  rw [normalizeSelection_included]
  constructor
  · rintro ⟨⟨c, hc, hcr⟩, hs⟩
    refine ⟨⟨c, mem_cleanChecked.1 hc, hcr⟩, fun s hsY hsr => ?_⟩
    obtain ⟨m, hm, hmc⟩ := exists_minimal forest_under hc
    have hkept : m ∈ (normalizeSelection checked skipped).1 := by
      rw [normalizeSelection_eq]
      exact hm
    -- a kept path and a skipped one lie on the line above `r`, and the skipped one is not the upper
    rcases Under.total (hmc.trans hcr) hsr with hms | hsm
    · refine hs s hsY hsr ⟨m, hm, hms, ?_⟩
      rintro rfl
      exact h ⟨m, hsY, m, hkept, Under.refl m⟩
    · exact h ⟨s, hsY, m, hkept, hsm⟩
  · rintro ⟨⟨c, hc, hcr⟩, hs⟩
    exact ⟨⟨c, mem_cleanChecked.2 hc, hcr⟩, fun s hsY hsr _ => hs s hsY hsr⟩

theorem any_under_cleaned (l : List Str) (q : Str) : (cleanedPaths l).any (under q) = decide (∃ c ∈ cleanedPaths l, Under c q) := by
  rw [Bool.eq_iff_iff, decide_eq_true_eq]
  exact any_under (fun _ hc => clean_of_mem_cleaned hc) q

theorem included_iff : (¬ Overrides checked skipped → ∀ q,
    pathIncluded q (normalizeSelection checked skipped).1 (normalizeSelection checked skipped).2 = pathIncluded q checked skipped) ↔
      (¬ Overrides checked skipped → SpelledAlike checked skipped) := by
  refine forall_congr' fun h => ?_
  have hclean := @normalizeSelection_clean checked skipped
  have hcleaned : ∀ r, ((cleanedPaths checked).any (under r) && !(cleanedPaths skipped).any (under r)) =
      decide (Included Under (normalizeSelection checked skipped).1 (normalizeSelection checked skipped).2 r) := by
    intro r
    rw [any_under_cleaned, any_under_cleaned, Bool.eq_iff_iff, decide_eq_true_eq, included_cleaned h]
    simp [Included]
  constructor
  · intro hsame q hq
    have hrun := hsame ('/' :: (q ++ lit "/"))
    rw [pathIncluded_eq hclean.1 hclean.2, pathIncluded_spelled, hq.reachable] at hrun
    have := Except.ok.inj hrun
    rw [hcleaned]
    simpa [hq.ne_nil] using this.symm
  · intro halike q
    rw [pathIncluded_eq hclean.1 hclean.2, pathIncluded_spelled]
    cases hq : cleanRel q with
    | error e => rfl
    | ok r =>
      by_cases hnil : r = []
      · simp [Except.map, hnil]
      · have := halike r (cleanRel_clean hq hnil)
        rw [hcleaned] at this
        simp [Except.map, hnil, this]

/-! ## The result -/

/-- **A selection has its normal form** iff no two skipped entries are one topmost path, no topmost path has a blank
at its ends, and the entries mean what they spell, where no skipped one overrides a kept one. -/
theorem normalForm_iff {β : Type} (t : SelectionText β) (checked skipped : List Str) :
    NormalForm t checked skipped ↔
      SkippedOnce checked skipped ∧ BlankFree checked skipped ∧ (¬ Overrides checked skipped → SpelledAlike checked skipped) := by
  have hcan := normalizeSelection_canonical checked skipped
  constructor
  · intro h
    exact ⟨skipped_once_iff.1 h.skippedOnce, idempotent_iff.1 h.idempotent, included_iff.1 h.included⟩
  · rintro ⟨honce, hblank, halike⟩
    have hidem := idempotent_iff.2 hblank
    exact
      { checkedOnce := checked_once
        skippedOnce := skipped_once_iff.2 honce
        checkedApart := hcan.checkedApart
        skippedApart := hcan.skippedApart
        below := hcan.below
        idempotent := hidem
        roundTrip := (parse_selectionJson t).trans (congrArg Except.ok hidem)
        included := included_iff.2 halike }

/-- Texts that are their own values. -/
def plainText : SelectionText JsonValue := ⟨id, some, fun _ => rfl, fun _ => []⟩

/-- **A folder skipped twice is skipped twice**, and a name that begins with a blank is read as another name. -/
theorem skipped_twice :
    normalizeSelection [lit "pi"] [lit "pi/tmp", lit "pi/tmp/"] = ([lit "pi"], [lit "pi/tmp", lit "pi/tmp"]) ∧
      ¬ NormalForm plainText [lit "pi"] [lit "pi/tmp", lit "pi/tmp/"] ∧
      normalizeSelection [lit "/ pi"] [] = ([lit " pi"], []) ∧ normalizeSelection [lit " pi"] [] = ([lit "pi"], []) ∧
      ¬ NormalForm plainText [lit "/ pi"] [] := by
  have htwice : normalizeSelection [lit "pi"] [lit "pi/tmp", lit "pi/tmp/"] = ([lit "pi"], [lit "pi/tmp", lit "pi/tmp"]) := by
    decide +kernel
  have hblank : normalizeSelection [lit "/ pi"] [] = ([lit " pi"], []) := by decide +kernel
  have hagain : normalizeSelection [lit " pi"] [] = ([lit "pi"], []) := by decide +kernel
  refine ⟨htwice, fun h => ?_, hblank, hagain, fun h => ?_⟩
  · have := h.skippedOnce
    rw [htwice] at this
    exact absurd this (by decide +kernel)
  · have := h.idempotent
    rw [hblank, hagain] at this
    exact absurd (congrArg Prod.fst this) (by decide +kernel)

end PiHerder.Backup
