import PiHerder.Lib.Path
import PiHerder.Migrate.Pipeline

/-!
# Where the copies of a Move land

`suggest_dest_bind` as a map of places, and the destination of every bind the copy loop copies: the one
the preflight showed for a bind outside the source's docker base, the suggested one for any other.
-/
namespace PiHerder.Migrate
open Lib Lib.Str

/-! ## Places of suggested destinations -/

/-- The branch of `suggest_dest_bind` that keeps a path's place below the docker base. -/
def Relocates (srcBase destBase src : Str) : Prop :=
  let srcB := rstrip '/' (normpath (strip srcBase))
  srcB ≠ [] ∧ rstrip '/' (normpath (strip destBase)) ≠ [] ∧
    (normpath src = srcB ∨ startsWith (srcB ++ lit "/") (normpath src) = true)

instance (srcBase destBase src : Str) : Decidable (Relocates srcBase destBase src) :=
  inferInstanceAs (Decidable (_ ∧ _))

/-- The folder components of a project name: `.` is no folder. -/
def folderComps (project : Str) : List Str := if project = lit "." then [] else [project]

/-- The components of a bind below the source's docker base. -/
def belowBase (srcBase src : Str) : List Str := (normComps src).drop (normComps (strip srcBase)).length

/-- What a suggested destination adds to the destination's docker base. -/
def destTail (srcBase destBase destProject src : Str) : List Str :=
  if Relocates srcBase destBase src then belowBase srcBase src
  else folderComps destProject ++ [bindLeaf (normpath src)]

/-- Its text. -/
def tailText (srcBase destBase destProject src : Str) : Str :=
  if Relocates srcBase destBase src then join '/' (belowBase srcBase src)
  else destProject ++ '/' :: bindLeaf (normpath src)

/-- A host path as `classify_volume_source` calls it absolute: one slash in front. -/
structure Absolute (src : Str) : Prop where
  stripped : strip src = src
  one : startsWith (lit "/") src = true
  notTwo : startsWith (lit "//") src = false

theorem Absolute.rooted {src : Str} (h : Absolute src) : Str.rooted src = true := h.one

theorem Absolute.normpath {src : Str} (h : Absolute src) : normpath src = '/' :: join '/' (normComps src) := by
  have hslash : initialSlashes src = lit "/" := by
    unfold initialSlashes
    rw [h.notTwo, if_neg (by simp), if_pos h.one]
  unfold Str.normpath
  rw [hslash]
  exact if_neg (by simp)

theorem bindLeaf_plain (src : Str) : Plain (bindLeaf src) ∧ '/' ∉ bindLeaf src := by
  have hbase : '/' ∉ basename (rstrip '/' src) := by
    unfold basename
    rw [List.mem_reverse]
    intro h
    have := List.mem_takeWhile_imp h
    simp at this
  unfold bindLeaf
  simp only
  by_cases hnil : basename (rstrip '/' src) = []
  · rw [if_pos hnil, if_neg (by decide)]
    exact ⟨by decide, by decide⟩
  · rw [if_neg hnil]
    split
    · exact ⟨by decide, by decide⟩
    · rename_i hdots
      rw [not_or] at hdots
      exact ⟨⟨hnil, hdots.1, hdots.2⟩, hbase⟩

theorem foldl_folder {r : Bool} {project : Str} (h : ValidProject project) (acc : List Str) :
    normStep r acc project = (folderComps project).reverse ++ acc := by
  unfold folderComps
  by_cases hdot : project = lit "."
  · rw [if_pos hdot]
    unfold normStep
    rw [if_pos (Or.inr hdot)]
    rfl
  · rw [if_neg hdot]
    exact normStep_plain ⟨h.nonempty, hdot, h.notUp⟩

/-- **The text of a suggested destination**: behind the normalized docker base only folders, no `..`. -/
theorem suggestDestBind_eq (srcBase destBase : Str) {destProject src : Str} (hq : ValidProject destProject) (hx : Absolute src)
    (hlocal : isHostLocalBind (normpath src) = false) :
    suggestDestBind src srcBase destBase destProject =
        rstrip '/' (normpath (strip destBase)) ++ '/' :: tailText srcBase destBase destProject src ∧
      lit ".." ∉ split '/' (tailText srcBase destBase destProject src) ∧
      ∀ r acc, (split '/' (tailText srcBase destBase destProject src)).foldl (normStep r) acc =
        (destTail srcBase destBase destProject src).reverse ++ acc := by
  have hempty : ∀ r acc, normStep r acc [] = acc := fun r acc => by simp [normStep]
  unfold suggestDestBind destTail tailText
  simp only [hx.stripped, hlocal, Bool.false_eq_true, if_false]
  by_cases hrel : Relocates srcBase destBase src
  · obtain ⟨rel, hrel0, hx0⟩ : ∃ rel, (rel = [] ∨ startsWith (lit "/") rel = true) ∧
        normpath src = rstrip '/' (normpath (strip srcBase)) ++ rel := by
      rcases hrel.2.2 with heq | hpre
      · exact ⟨[], Or.inl rfl, by rw [heq, List.append_nil]⟩
      · obtain ⟨t, ht⟩ := List.isPrefixOf_iff_prefix.1 hpre
        exact ⟨'/' :: t, Or.inr ((rooted_cons '/' t).trans (by decide)), by rw [← ht, List.append_assoc]; rfl⟩
    obtain ⟨-, rest, hcomps, hplain, rfl⟩ := rel_of_below hx.normpath hx.rooted hrel.1 hrel0 hx0
    have hdrop : belowBase srcBase src = rest := by
      unfold belowBase
      rw [hcomps, List.drop_left]
    have hcond : rstrip '/' (normpath (strip srcBase)) ≠ [] ∧ rstrip '/' (normpath (strip destBase)) ≠ [] ∧
        (normpath src = rstrip '/' (normpath (strip srcBase)) ∨
          startsWith (rstrip '/' (normpath (strip srcBase)) ++ lit "/") (normpath src) = true) := hrel
    rw [if_pos hcond, if_pos hrel, if_pos hrel, hdrop, hx0, List.drop_left]
    refine ⟨?_, ?_, fun r acc => ?_⟩
    · by_cases hnil : rest = []
      · rw [if_pos hnil, if_neg (by simp), hnil]
        rfl
      · rw [if_neg hnil, if_pos (by simp)]
    · by_cases hnil : rest = []
      · rw [hnil]
        decide
      · rw [split_join hnil fun c hc => (hplain c hc).2]
        exact fun hup => (hplain _ hup).1.2.2 rfl
    · by_cases hnil : rest = []
      · rw [hnil]
        exact hempty r acc
      · rw [split_join hnil fun c hc => (hplain c hc).2, foldl_plain fun c hc => (hplain c hc).1]
  · have hproject : (if strip destProject ≠ [] then strip destProject else lit "project") = destProject := by
      rw [hq.stripped, if_pos hq.nonempty]
    have hleaf := bindLeaf_plain (normpath src)
    have hsplit : split '/' (destProject ++ '/' :: bindLeaf (normpath src)) = [destProject, bindLeaf (normpath src)] := by
      rw [split_append_cons, split_of_notMem hq.noSlash, split_of_notMem hleaf.2]
      rfl
    have hcond : ¬ (rstrip '/' (normpath (strip srcBase)) ≠ [] ∧ rstrip '/' (normpath (strip destBase)) ≠ [] ∧
        (normpath src = rstrip '/' (normpath (strip srcBase)) ∨
          startsWith (rstrip '/' (normpath (strip srcBase)) ++ lit "/") (normpath src) = true)) := hrel
    rw [if_neg hcond, if_neg hrel, if_neg hrel, hproject]
    refine ⟨by simp, ?_, fun r acc => ?_⟩
    · rw [hsplit]
      simp only [List.mem_cons, List.not_mem_nil, or_false, not_or]
      exact ⟨Ne.symm hq.notUp, Ne.symm hleaf.1.2.2⟩
    · rw [hsplit, List.foldl_cons, List.foldl_cons, List.foldl_nil, foldl_folder hq, normStep_plain hleaf.1]
      simp

/-- **The place of a suggested destination.** -/
theorem suggestDestBind_place (srcBase destBase : Str) {destProject src : Str} (hq : ValidProject destProject) (hx : Absolute src)
    (hlocal : isHostLocalBind (normpath src) = false) :
    rooted (suggestDestBind src srcBase destBase destProject) = rooted (strip destBase) ∧
      normComps (suggestDestBind src srcBase destBase destProject) =
        normComps (strip destBase) ++ destTail srcBase destBase destProject src := by
  obtain ⟨heq, -, hfold⟩ := suggestDestBind_eq srcBase destBase hq hx hlocal
  have hbelow := normComps_below (strip destBase) (tailText srcBase destBase destProject src)
  rw [heq]
  refine ⟨hbelow.1, ?_⟩
  rw [hbelow.2, hfold]
  simp

end PiHerder.Migrate
