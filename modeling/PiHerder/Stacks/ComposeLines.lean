import PiHerder.Stacks.Scrubbing

/-!
# Compose files by their lines

`normalize_compose_text` compares the lines of two texts without the blanks at their ends. `changed_line_differs`: a line that is
changed in more than those, and holds no secret, is seen in the masked text too.
-/
namespace PiHerder.Stacks
open Lib Lib.Str

/-! ## Lines without the blanks at their ends -/

def composeLines (text : Str) : List Str := (split '\n' text).map (rstripWhere isSpace)

theorem rstrip_cons (c : Char) (s : Str) :
    rstripWhere isSpace (c :: s) = if rstripWhere isSpace s = [] then (if isSpace c then [] else [c]) else c :: rstripWhere isSpace s := by
  unfold rstripWhere List.rdropWhile
  rw [List.reverse_cons, List.dropWhile_append]
  by_cases h : List.dropWhile isSpace s.reverse = []
  · by_cases hc : isSpace c = true <;> simp [h, hc]
  · simp [h]

/-- An end of line of two characters is one, with a blank before it. -/
theorem lines_crlf (s : Str) : (split '\n' (replaceAll (lit "\r\n") (lit "\n") s)).map (rstripWhere isSpace) = composeLines s := by
  induction hn : s.length using Nat.strong_induction_on generalizing s with
  | _ n ih =>
    unfold composeLines at ih ⊢
    by_cases hstart : lit "\r\n" <+: s
    · obtain ⟨s', rfl⟩ := hstart
      rw [replaceAll_append (by decide)]
      have hleft : split '\n' (lit "\n" ++ replaceAll (lit "\r\n") (lit "\n") s') = [] :: split '\n' (replaceAll (lit "\r\n") (lit "\n") s') :=
        split_append_cons '\n' [] _
      have hright : split '\n' (lit "\r\n" ++ s') = ['\r'] :: split '\n' s' := split_append_cons '\n' ['\r'] s'
      rw [hleft, hright, List.map_cons, List.map_cons, ih s'.length (by rw [← hn, List.length_append]; exact Nat.lt_add_of_pos_left (by decide)) s' rfl]
      rfl
    · cases s with
      | nil => rfl
      | cons c s =>
        have hnot : ¬ startsWith (lit "\r\n") (c :: s) = true := fun h => hstart (List.isPrefixOf_iff_prefix.1 h)
        have hreplace : replaceAll (lit "\r\n") (lit "\n") (c :: s) = c :: replaceAll (lit "\r\n") (lit "\n") s := by
          rw [replaceAll, replaceFrom, if_neg hnot]
          rfl
        have hrest := ih s.length (by simp [← hn]) s rfl
        rw [hreplace]
        by_cases hc : c = '\n'
        · subst hc
          have hsplit (x : Str) : split '\n' ('\n' :: x) = [] :: split '\n' x := split_append_cons '\n' [] x
          rw [hsplit, hsplit, List.map_cons, List.map_cons, hrest]
        · obtain ⟨w, ws, hw⟩ := List.exists_cons_of_ne_nil (split_ne_nil '\n' (replaceAll (lit "\r\n") (lit "\n") s))
          obtain ⟨w', ws', hw'⟩ := List.exists_cons_of_ne_nil (split_ne_nil '\n' s)
          rw [hw, hw', List.map_cons, List.map_cons] at hrest
          obtain ⟨hhead, htail⟩ := List.cons.inj hrest
          rw [split, split, if_neg hc, if_neg hc, hw, hw']
          simp only [List.map_cons]
          rw [rstrip_cons, rstrip_cons, hhead, htail]

theorem normalizeComposeText_eq (text : Str) :
    normalizeComposeText text = ((composeLines text).rdropWhile (· = [])).flatMap (· ++ ['\n']) := by
  rw [normalizeComposeText, lines_crlf]

/-! ## A changed line -/

theorem flatMap_newline_injective : ∀ {ls ks : List Str}, (∀ l ∈ ls, '\n' ∉ l) → (∀ k ∈ ks, '\n' ∉ k) →
    ls.flatMap (· ++ ['\n']) = ks.flatMap (· ++ ['\n']) → ls = ks
  | [], [], _, _, _ => rfl
  | [], k :: ks, _, _, h => by simp at h
  | l :: ls, [], _, _, h => by simp at h
  | l :: ls, k :: ks, hls, hks, h => by
    simp only [List.flatMap_cons, List.append_assoc, List.singleton_append] at h
    have hhead := congrArg (List.takeWhile (· != '\n')) h
    rw [takeWhile_append_cons (hls l List.mem_cons_self), takeWhile_append_cons (hks k List.mem_cons_self)] at hhead
    subst hhead
    have htail := (List.cons.inj (List.append_cancel_left h)).2
    rw [flatMap_newline_injective (fun x hx => hls x (List.mem_cons_of_mem l hx)) (fun x hx => hks x (List.mem_cons_of_mem l hx)) htail]

/-- Of one length, two lists that agree without their first blanks agree. -/
theorem eq_of_dropWhile_nil : ∀ {a b : List Str}, a.length = b.length →
    a.dropWhile (· = []) = b.dropWhile (· = []) → a = b
  | [], [], _, _ => rfl
  | x :: a, y :: b, hlen, h => by
    have hlen : a.length = b.length := by simpa using hlen
    by_cases hx : x = [] <;> by_cases hy : y = []
    · rw [List.dropWhile_cons_of_pos (by simp [hx]), List.dropWhile_cons_of_pos (by simp [hy])] at h
      rw [hx, hy, eq_of_dropWhile_nil hlen h]
    · rw [List.dropWhile_cons_of_pos (by simp [hx]), List.dropWhile_cons_of_neg (by simp [hy])] at h
      have hle := (List.dropWhile_sublist (fun l : Str => decide (l = [])) (l := a)).length_le
      rw [h, List.length_cons] at hle
      omega
    · rw [List.dropWhile_cons_of_neg (by simp [hx]), List.dropWhile_cons_of_pos (by simp [hy])] at h
      have hle := (List.dropWhile_sublist (fun l : Str => decide (l = [])) (l := b)).length_le
      rw [← h, List.length_cons] at hle
      omega
    · rwa [List.dropWhile_cons_of_neg (by simp [hx]), List.dropWhile_cons_of_neg (by simp [hy])] at h

theorem notMem_composeLines {text l : Str} (h : l ∈ composeLines text) : '\n' ∉ l := by
  obtain ⟨k, hk, rfl⟩ := List.mem_map.1 h
  exact fun hmem => notMem_of_mem_split hk ((List.rdropWhile_prefix isSpace k).sublist.mem hmem)

/-- Texts of as many lines compare line by line. -/
theorem composeLines_eq_of_normalize {s t : Str} (hlen : (composeLines s).length = (composeLines t).length)
    (h : normalizeComposeText s = normalizeComposeText t) : composeLines s = composeLines t := by
  rw [normalizeComposeText_eq, normalizeComposeText_eq] at h
  have hsub (text : Str) : ∀ l ∈ (composeLines text).rdropWhile (· = []), '\n' ∉ l := fun l hl =>
    notMem_composeLines ((List.rdropWhile_prefix _ _).sublist.mem hl)
  have hdrop := flatMap_newline_injective (hsub s) (hsub t) h
  rw [List.rdropWhile, List.rdropWhile, List.reverse_inj] at hdrop
  exact List.reverse_injective (eq_of_dropWhile_nil (by simpa using hlen) hdrop)

/-- The text with another line in the place of one. -/
def changeLine (text : Str) (i : Nat) (line : Str) : Str := join '\n' ((split '\n' text).set i line)

theorem composeLines_changeLine (text : Str) {line : Str} (i : Nat) (hline : '\n' ∉ line) :
    composeLines (changeLine text i line) = (composeLines text).set i (rstripWhere isSpace line) := by
  have hpieces : ∀ l ∈ (split '\n' text).set i line, '\n' ∉ l := by
    intro l hl
    rcases List.mem_or_eq_of_mem_set hl with hl | rfl
    · exact notMem_of_mem_split hl
    · exact hline
  have hne : (split '\n' text).set i line ≠ [] := by
    rw [Ne, List.set_eq_nil_iff]
    exact split_ne_nil '\n' text
  rw [composeLines, changeLine, split_join hne hpieces, List.map_set]
  rfl

/-- Values on one line are masked line by line. -/
theorem split_maskText {secrets : Dict Str Str} (h : ∀ v ∈ maskedValues secrets, '\n' ∉ v) (text : Str) :
    split '\n' (maskText secrets text) = (split '\n' text).map (maskText secrets) := by
  have hne : ∀ v ∈ maskedValues secrets, v ≠ [] := by
    rintro v hv rfl
    exact absurd (mem_maskedValues.1 hv).2 (by decide)
  unfold maskText
  generalize maskedValues secrets = values at h hne
  induction values generalizing text with
  | nil => simp
  | cons v values ih =>
    simp only [List.foldl_cons]
    rw [ih (replaceAll v secretMask text) (fun w hw => h w (List.mem_cons_of_mem v hw)) (fun w hw => hne w (List.mem_cons_of_mem v hw)),
      split_replaceAll (hne v List.mem_cons_self) (h v List.mem_cons_self) (by decide), List.map_map]
    rfl

/-- A line without a secret is seen to be changed, in the masked text as in the plain one. -/
theorem changed_line_differs (secrets : Dict Str Str) {text l line : Str} {i : Nat} (hl : (split '\n' text)[i]? = some l)
    (hclean : maskText secrets l = l) (hline : '\n' ∉ line) (hchange : rstripWhere isSpace l ≠ rstripWhere isSpace line)
    (hmask : (∀ v ∈ maskedValues secrets, '\n' ∉ v) ∨ normalizeComposeText (maskText secrets text) = normalizeComposeText text) :
    normalizeComposeText (maskText secrets text) ≠ normalizeComposeText (changeLine text i line) := by
  intro h
  have hset := composeLines_changeLine text i hline
  have hat : ∀ ls : List Str, ls = (composeLines text).set i (rstripWhere isSpace line) → ls[i]? = some (rstripWhere isSpace line) := by
    rintro ls rfl
    obtain ⟨hi, -⟩ := List.getElem?_eq_some_iff.1 hl
    exact List.getElem?_set_self (by simpa [composeLines] using hi)
  rcases hmask with hnewline | hsame
  · have hlines : composeLines (maskText secrets text) = (split '\n' text).map fun l => rstripWhere isSpace (maskText secrets l) := by
      rw [composeLines, split_maskText hnewline, List.map_map]
      rfl
    have heq := composeLines_eq_of_normalize (by rw [hset, hlines]; simp [composeLines]) h
    have hi := hat _ (heq.trans hset)
    rw [hlines, List.getElem?_map, hl, Option.map_some, hclean, Option.some.injEq] at hi
    exact hchange hi
  · have heq := composeLines_eq_of_normalize (by rw [hset]; simp) (hsame.symm.trans h)
    have hi := hat _ (heq.trans hset)
    rw [composeLines, List.getElem?_map, hl, Option.map_some, Option.some.injEq] at hi
    exact hchange hi

end PiHerder.Stacks
