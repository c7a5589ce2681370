import PiHerder.Files.Model
import PiHerder.Lib.Under

/-!
# The paths of the jail

`posix_norm` of an absolute path is the text of a place without backslashes, and such a text is its own. So are the
jail, every path that `join_jail` forms, and what `_assert_in_jail` returns.
-/
namespace PiHerder.Files
open Lib Lib.Str Lib.FileTree

/-- Names that `posix_norm` keeps. -/
def Clean (cs : List Name) : Prop := ∀ c ∈ cs, Entry c ∧ '/' ∉ c ∧ '\\' ∉ c

instance (cs : List Name) : Decidable (Clean cs) := inferInstanceAs (Decidable (∀ c ∈ cs, _))

theorem Clean.of_prefix {a b : List Name} (h : Clean b) (hab : a <+: b) : Clean a := fun c hc => h c (hab.subset hc)

theorem Clean.noSlash {cs : List Name} (h : Clean cs) : ∀ c ∈ cs, '/' ∉ c := fun c hc => (h c hc).2.1

theorem Clean.names {cs : List Name} (h : Clean cs) : ∀ c ∈ cs, c ≠ [] ∧ '/' ∉ c := fun c hc => ⟨(h c hc).1.1, (h c hc).2.1⟩

theorem slashed_eq_self {s : Str} (h : '\\' ∉ s) : slashed s = s := by
  refine (List.map_congr_left fun c hc => ?_).trans (List.map_id s)
  exact if_neg fun heq : c = '\\' => h (heq ▸ hc)

theorem notMem_slashed (s : Str) : '\\' ∉ slashed s := by
  intro h
  obtain ⟨c, -, hc⟩ := List.mem_map.1 h
  split at hc
  · exact absurd hc (by decide)
  · rename_i hne
    exact hne hc

theorem foldl_normSeg_mem {segs : List Str} (h : ∀ s ∈ segs, '/' ∉ s ∧ '\\' ∉ s) : ∀ {acc : List Str}, Clean acc →
    Clean (segs.foldl normSeg acc) := by
  induction segs with
  | nil => exact fun hacc => hacc
  | cons seg segs ih =>
    intro acc hacc
    refine ih (fun s hs => h s (List.mem_cons_of_mem _ hs)) ?_
    unfold normSeg
    split
    · exact hacc
    · rename_i hdot
      split
      · exact fun c hc => hacc c (List.mem_of_mem_tail hc)
      · rename_i hup
        intro c hc
        rcases List.mem_cons.1 hc with rfl | hc
        · exact ⟨⟨fun h => hdot (Or.inl h), fun h => hdot (Or.inr h), hup⟩, h c List.mem_cons_self⟩
        · exact hacc c hc

theorem foldl_normSeg_clean {segs : List Str} (h : ∀ s ∈ segs, Entry s) : ∀ acc, segs.foldl normSeg acc = segs.reverse ++ acc := by
  induction segs with
  | nil => exact fun acc => rfl
  | cons seg segs ih =>
    intro acc
    have hseg := h seg List.mem_cons_self
    have hstep : normSeg acc seg = seg :: acc := by
      unfold normSeg
      rw [if_neg (not_or.2 ⟨hseg.1, hseg.2.1⟩), if_neg hseg.2.2]
    rw [List.foldl_cons, hstep, ih fun s hs => h s (List.mem_cons_of_mem _ hs)]
    simp

/-- The segments that `posix_norm` keeps. -/
theorem clean_segs (s : Str) : Clean ((split '/' (slashed s)).foldl normSeg []).reverse := by
  intro c hc
  refine foldl_normSeg_mem (fun w hw => ⟨notMem_of_mem_split hw, fun hb => ?_⟩) (fun c (hc : c ∈ []) => absurd hc List.not_mem_nil) c
    (List.mem_reverse.1 hc)
  exact notMem_slashed s (mem_of_mem_split hw hb)

/-- **A normal path from the root** is the text of a place. -/
theorem posixNorm_slashed {s : Str} (h : startsWith (lit "/") (slashed s) = true) : ∃ cs, posixNorm s = pathText cs ∧ Clean cs :=
  ⟨_, if_pos h, clean_segs s⟩

theorem posixNorm_abs {s : Str} (h : startsWith (lit "/") s = true) : ∃ cs, posixNorm s = pathText cs ∧ Clean cs := by
  obtain ⟨u, rfl⟩ := List.isPrefixOf_iff_prefix.1 h
  exact posixNorm_slashed rfl

theorem rooted_join_clean {cs : List Name} (h : Clean cs) : ¬ startsWith (lit "/") (join '/' cs) = true := by
  intro hroot
  obtain ⟨u, hu⟩ := List.isPrefixOf_iff_prefix.1 hroot
  cases cs with
  | nil => cases hu
  | cons x xs =>
    obtain ⟨⟨hne, -⟩, hslash, -⟩ := h x List.mem_cons_self
    obtain ⟨y, ys, rfl⟩ := List.exists_cons_of_ne_nil hne
    have hy : y = '/' := by
      cases xs with
      | nil => exact (List.cons.inj hu).1.symm
      | cons z zs => exact (List.cons.inj hu).1.symm
    exact hslash (hy ▸ List.mem_cons_self)

/-- What is normal and starts at the root came from a path that did. -/
theorem posixNorm_of_slash {s : Str} (h : startsWith (lit "/") (posixNorm s) = true) : ∃ cs, posixNorm s = pathText cs ∧ Clean cs := by
  by_cases hrel : startsWith (lit "/") (slashed s) = true
  · exact posixNorm_slashed hrel
  · unfold posixNorm at h
    rw [if_neg hrel] at h
    exact absurd h (rooted_join_clean (clean_segs s))

theorem slash_pathText (p : List Name) : startsWith (lit "/") (pathText p) = true := List.isPrefixOf_iff_prefix.2 ⟨join '/' p, rfl⟩

theorem notMem_pathText {cs : List Name} (h : Clean cs) : '\\' ∉ pathText cs := by
  intro hb
  rcases List.mem_cons.1 hb with hb | hb
  · exact absurd hb (by decide)
  · rcases mem_join hb with hb | ⟨w, hw, hb⟩
    · exact absurd hb (by decide)
    · exact (h w hw).2.2 hb

theorem posixNorm_pathText {cs : List Name} (h : Clean cs) : posixNorm (pathText cs) = pathText cs := by
  unfold posixNorm
  rw [slashed_eq_self (notMem_pathText h), if_pos (slash_pathText cs)]
  by_cases hcs : cs = []
  · rw [hcs]
    rfl
  · rw [split_pathText hcs h.noSlash, List.foldl_cons]
    have hempty : normSeg [] [] = [] := if_pos (Or.inl rfl)
    rw [hempty, foldl_normSeg_clean fun s hs => (h s hs).1, List.append_nil, List.reverse_reverse]
    rfl

theorem pathText_injective {p q : List Name} (hp : ∀ c ∈ p, c ≠ [] ∧ '/' ∉ c) (hq : ∀ c ∈ q, c ≠ [] ∧ '/' ∉ c)
    (h : pathText p = pathText q) : p = q := by
  have hjoin : join '/' p = join '/' q := (List.cons.inj h).2
  by_cases hpn : p = []
  · by_cases hqn : q = []
    · rw [hpn, hqn]
    · rw [hpn] at hjoin
      exact absurd hjoin.symm (join_ne_nil hqn fun x hx => (hq x hx).1)
  · by_cases hqn : q = []
    · rw [hqn] at hjoin
      exact absurd hjoin (join_ne_nil hpn fun x hx => (hp x hx).1)
    · rw [← split_join hpn fun x hx => (hp x hx).2, hjoin, split_join hqn fun x hx => (hq x hx).2]

/-- A place that `posix_norm` keeps has no backslash in it. -/
theorem clean_of_posixNorm {p : List Name} (hp : ∀ c ∈ p, c ≠ [] ∧ '/' ∉ c) (h : posixNorm (pathText p) = pathText p) : Clean p := by
  obtain ⟨cs, hcs, hclean⟩ := posixNorm_abs (slash_pathText p)
  rw [h] at hcs
  rw [pathText_injective hp (fun c hc => ⟨(hclean c hc).1.1, (hclean c hc).2.1⟩) hcs]
  exact hclean

theorem posixJoin_join {q ps : List Name} (hq : ∀ x ∈ q, x ≠ [] ∧ '/' ∉ x) (hps : ps ≠ []) (hrel : ¬ startsWith (lit "/") (join '/' ps) = true) :
    posixJoin (pathText q) (join '/' ps) = pathText (q ++ ps) := by
  unfold posixJoin
  rw [if_neg hrel]
  by_cases hnil : q = []
  · subst hnil
    rfl
  · have hlast : ¬ (pathText q = [] ∨ endsWith (lit "/") (pathText q) = true) := by
      rintro (h | h)
      · cases h
      · obtain ⟨a, w, hj, hw, hslash⟩ := join_ends hnil hq
        obtain ⟨b, hb⟩ := List.isSuffixOf_iff_suffix.1 h
        have hend : (pathText q).getLast? = some '/' := by rw [← hb, List.getLast?_append]; rfl
        rw [pathText, hj, ← List.cons_append, List.getLast?_append_of_ne_nil _ hw] at hend
        exact hslash (List.mem_of_getLast? hend)
    rw [if_neg hlast]
    unfold pathText
    rw [join_append '/' hnil hps]
    simp only [List.cons_append, List.append_assoc]
    rfl

theorem posixJoin_pathText {q : List Name} {c : Name} (hq : ∀ x ∈ q, x ≠ [] ∧ '/' ∉ x) (hc : '/' ∉ c) :
    posixJoin (pathText q) c = pathText (q ++ [c]) := by
  have hne : [c] ≠ [] := List.cons_ne_nil c []
  refine posixJoin_join hq hne fun h => ?_
  obtain ⟨u, rfl⟩ := List.isPrefixOf_iff_prefix.1 h
  exact hc (List.mem_append_left _ List.mem_cons_self)

theorem slash_posixJoin {a b : Str} (h : startsWith (lit "/") a = true) : startsWith (lit "/") (posixJoin a b) = true := by
  obtain ⟨u, rfl⟩ := List.isPrefixOf_iff_prefix.1 h
  unfold posixJoin
  split
  · assumption
  · split <;> exact List.isPrefixOf_iff_prefix.2 ⟨_, rfl⟩

/-- What `rel_of` leaves of a path is the names below the jail. -/
theorem relOf_pathText {js rest : List Name} (h : Clean (js ++ rest)) : relOf (pathText (js ++ rest)) (pathText js) = .ok (join '/' rest) := by
  have hjs : Clean js := h.of_prefix (List.prefix_append js rest)
  have hnames : ∀ {cs : List Name}, Clean cs → ∀ c ∈ cs, c ≠ [] ∧ '/' ∉ c := fun hcs c hc => ⟨(hcs c hc).1.1, (hcs c hc).2.1⟩
  have hrest : Clean rest := fun c hc => h c (List.mem_append_right _ hc)
  unfold relOf
  simp only [posixNorm_pathText h, posixNorm_pathText hjs]
  by_cases hnil : rest = []
  · subst hnil
    rw [List.append_nil, if_pos rfl]
    rfl
  · have hne : pathText (js ++ rest) ≠ pathText js := fun heq =>
      hnil (List.append_right_eq_self.1 (pathText_injective (hnames h) (hnames hjs) heq))
    rw [if_neg hne]
    by_cases hroot : js = []
    · subst hroot
      have htext : pathText [] = lit "/" := rfl
      rw [if_pos htext, List.nil_append]
      have hhead : (join '/' rest).dropWhile (· == '/') = join '/' rest := by
        cases hj : join '/' rest with
        | nil => rfl
        | cons c s =>
          refine List.dropWhile_cons_of_neg fun hc => rooted_join_clean hrest ?_
          rw [hj, beq_iff_eq.1 hc]
          exact List.isPrefixOf_iff_prefix.2 ⟨s, rfl⟩
      exact congrArg Except.ok hhead
    · have hjail : pathText js ≠ lit "/" := fun heq => hroot (pathText_injective (q := []) (hnames hjs) (by simp) heq)
      have htext : pathText (js ++ rest) = pathText js ++ lit "/" ++ join '/' rest := by
        rw [pathText, join_append '/' hroot hnil, pathText, List.cons_append, List.cons_append, List.append_assoc]
        rfl
      have hunder : startsWith (pathText js ++ lit "/") (pathText js ++ lit "/" ++ join '/' rest) = true :=
        List.isPrefixOf_iff_prefix.2 (List.prefix_append _ _)
      rw [if_neg hjail, htext, if_pos hunder]
      exact congrArg Except.ok (List.drop_left' (by rw [List.length_append]; rfl))

/-- The names that `posix_norm` keeps. -/
def normNames (s : Str) : List Name := ((split '/' (slashed s)).foldl normSeg []).reverse

theorem normNames_append (a : Str) {c : Name} (hc : Entry c ∧ '/' ∉ c ∧ '\\' ∉ c) : normNames (a ++ '/' :: c) = normNames a ++ [c] := by
  have htext : slashed (a ++ '/' :: c) = slashed a ++ '/' :: c := by
    conv_rhs => rw [← slashed_eq_self hc.2.2]
    exact List.map_append
  have hstep : ∀ acc, normSeg acc c = c :: acc := fun acc => by
    unfold normSeg
    rw [if_neg (not_or.2 ⟨hc.1.1, hc.1.2.1⟩), if_neg hc.1.2.2]
  unfold normNames
  rw [htext, split_append_cons, split_of_notMem hc.2.1, List.foldl_append, List.foldl_cons, List.foldl_nil, hstep, List.reverse_cons]

theorem posixNorm_eq (p : List Name) : posixNorm (pathText p) = pathText (normNames (pathText p)) := by
  have hslash : startsWith (lit "/") (slashed (pathText p)) = true := List.isPrefixOf_iff_prefix.2 ⟨slashed (join '/' p), rfl⟩
  unfold posixNorm
  rw [if_pos hslash]
  rfl

/-- A name goes on behind what is normal. -/
theorem posixNorm_concat {d ds : List Name} {c : Name} (hd : posixNorm (pathText d) = pathText ds) (hds : Clean ds)
    (hc : Entry c ∧ '/' ∉ c ∧ '\\' ∉ c) : posixNorm (pathText (d ++ [c])) = pathText (ds ++ [c]) := by
  have hnames : normNames (pathText d) = ds :=
    pathText_injective (clean_segs (pathText d)).names hds.names ((posixNorm_eq d).symm.trans hd)
  have htext : ∃ a, pathText (d ++ [c]) = a ++ '/' :: c ∧ normNames a = normNames (pathText d) := by
    by_cases hnil : d = []
    · subst hnil
      exact ⟨[], rfl, by decide⟩
    · refine ⟨pathText d, ?_, rfl⟩
      rw [pathText, join_append '/' hnil (by simp)]
      rfl
  obtain ⟨a, ha, hsame⟩ := htext
  rw [posixNorm_eq, ha, normNames_append a hc, hsame, hnames]

/-! ## The jail and what lies in it -/

section Jail
variable {w : Site}

theorem normColumn_eq_ok {path p : Str} (h : normColumn path = .ok p) : p = posixNorm path := by
  obtain ⟨_, -, h⟩ := except_bind_eq_ok.1 h
  exact (Except.ok.inj h).symm

theorem jailPath_ok {jail : Str} (h : w.jailPath = .ok jail) : ∃ cs, jail = pathText cs ∧ Clean cs := by
  unfold Site.jailPath at h
  split at h
  · obtain rfl := Except.ok.inj h
    exact ⟨[lit "home", lit "demo", lit "docker"], rfl, by decide⟩
  · obtain ⟨role, -, h⟩ := except_bind_eq_ok.1 h
    simp only at h
    split at h
    · obtain rfl := Except.ok.inj h
      exact ⟨[], rfl, by decide⟩
    · obtain ⟨j, hj, h⟩ := except_bind_eq_ok.1 h
      obtain ⟨_, -, h⟩ := except_bind_eq_ok.1 h
      obtain ⟨_, habs, h⟩ := except_bind_eq_ok.1 h
      obtain rfl := normColumn_eq_ok hj
      rw [raiseIf_eq_ok, Bool.not_eq_false] at habs
      split at h
      · cases h
      · obtain rfl := Except.ok.inj h
        exact posixNorm_of_slash habs

/-- What `parse_rel` does not pass over. -/
def segKept (seg : Str) : Bool := decide (seg ≠ [] ∧ seg ≠ lit ".")

/-- The names that `parse_rel` reads. -/
def relSegs (s : Str) : List Name := (split '/' s).filter segKept

theorem parseSegs_ok : ∀ {segs parts : List Str}, parseSegs segs = .ok parts →
    parts = segs.filter segKept ∧ lit ".." ∉ parts
  | [], _, h => by
    obtain rfl := Except.ok.inj h
    exact ⟨rfl, List.not_mem_nil⟩
  | seg :: rest, parts, h => by
    unfold parseSegs at h
    split at h
    · rename_i hskip
      have hno : ¬ segKept seg = true := fun hname => (not_or.2 (of_decide_eq_true hname)) hskip
      rw [List.filter_cons_of_neg hno]
      exact parseSegs_ok h
    · rename_i hkeep
      split at h
      · cases h
      · rename_i hup
        split at h
        · cases h
        · cases hrest : parseSegs rest with
          | error e =>
            rw [hrest] at h
            cases h
          | ok ps =>
            rw [hrest] at h
            obtain rfl := Except.ok.inj h
            obtain ⟨rfl, hno⟩ := parseSegs_ok hrest
            have hyes : segKept seg = true := decide_eq_true (not_or.1 hkeep)
            rw [List.filter_cons_of_pos hyes]
            exact ⟨rfl, fun hmem => (List.mem_cons.1 hmem).elim (fun heq => hup heq.symm) hno⟩

theorem parseRel_ok {rel : Str} {parts : List Str} (h : parseRel rel = .ok parts) :
    parts = relSegs (strip rel) ∧ Clean parts ∧ '\\' ∉ strip rel := by
  unfold parseRel at h
  simp only at h
  split at h
  · rename_i hdot
    obtain rfl := Except.ok.inj h
    refine ⟨?_, fun c hc => absurd hc List.not_mem_nil, ?_⟩
    · rcases hdot with h | h | h <;> rw [h] <;> decide
    · rcases hdot with h | h | h <;> rw [h] <;> decide
  · split at h
    · cases h
    · rename_i hbad
      split at h
      · cases h
      · obtain ⟨rfl, hup⟩ := parseSegs_ok h
        refine ⟨rfl, fun c hc => ?_, fun hb => hbad (Or.inr hb)⟩
        obtain ⟨hmem, hkeep⟩ := List.mem_filter.1 hc
        have hkeep := of_decide_eq_true hkeep
        refine ⟨⟨hkeep.1, hkeep.2, ?_⟩, notMem_of_mem_split hmem, fun hb => hbad (Or.inr (mem_of_mem_split hmem hb))⟩
        rintro rfl
        exact hup hc

/-- What `join_jail` makes of a path in the jail. -/
theorem joinJail_text {jail rel absPath : Str} {js : List Name} (hjail : jail = pathText js) (hjs : Clean js)
    (h : joinJail jail rel = .ok absPath) :
    absPath = pathText (js ++ relSegs (strip rel)) ∧ Clean (js ++ relSegs (strip rel)) ∧ '\\' ∉ strip rel := by
  obtain ⟨parts, hparts, h⟩ := except_bind_eq_ok.1 h
  obtain ⟨rfl, hclean, hback⟩ := parseRel_ok hparts
  have hall : Clean (js ++ relSegs (strip rel)) := fun c hc => (List.mem_append.1 hc).elim (hjs c) (hclean c)
  obtain rfl := Except.ok.inj h
  refine ⟨?_, hall, hback⟩
  split
  · rename_i hnil
    rw [hnil, List.append_nil, hjail]
  · rename_i hnil
    split
    · rename_i hroot
      obtain rfl : js = [] := pathText_injective (q := []) (fun c hc => ⟨(hjs c hc).1.1, (hjs c hc).2.1⟩) (by simp) (hjail.symm.trans hroot)
      exact posixNorm_pathText hclean
    · rename_i hroot
      have hjsn : js ≠ [] := by
        rintro rfl
        exact hroot hjail
      have hhead : rstrip '/' jail = jail := by
        obtain ⟨a, x, hj, hx, hslash⟩ := join_ends hjsn fun c hc => ⟨(hjs c hc).1.1, (hjs c hc).2.1⟩
        rw [hjail, pathText, hj, ← List.cons_append]
        exact rstrip_append hx hslash
      have htext : jail ++ lit "/" ++ join '/' (relSegs (strip rel)) = pathText (js ++ relSegs (strip rel)) := by
        rw [hjail, pathText, pathText, join_append '/' hjsn hnil, List.cons_append, List.cons_append, List.append_assoc]
        rfl
      rw [hhead, htext, posixNorm_pathText hall]

/-- **What a rel is taken for**: the names of it, once it is stripped, below the jail. -/
theorem resolveLogical_text {rel jail absPath : Str} (h : w.resolveLogical rel = .ok (jail, absPath)) :
    ∃ js, w.jailPath = .ok jail ∧ jail = pathText js ∧ absPath = pathText (js ++ relSegs (strip rel)) ∧ Clean (js ++ relSegs (strip rel)) ∧
      '\\' ∉ strip rel := by
  obtain ⟨_, -, h⟩ := except_bind_eq_ok.1 h
  obtain ⟨j, hj, h⟩ := except_bind_eq_ok.1 h
  obtain ⟨a, ha, h⟩ := except_bind_eq_ok.1 h
  obtain ⟨_, -, h⟩ := except_bind_eq_ok.1 h
  obtain ⟨_, -, h⟩ := except_bind_eq_ok.1 h
  obtain ⟨_, -, h⟩ := except_bind_eq_ok.1 h
  obtain ⟨rfl, rfl⟩ := Prod.mk.inj (Except.ok.inj h)
  obtain ⟨js, hjs, hclean⟩ := jailPath_ok hj
  exact ⟨js, hj, hjs, joinJail_text hjs hclean ha⟩

theorem resolveLogical_ok {rel jail absPath : Str} (h : w.resolveLogical rel = .ok (jail, absPath)) :
    w.jailPath = .ok jail ∧ ∃ cs, absPath = pathText cs ∧ Clean cs := by
  obtain ⟨js, hjail, -, hpath, hclean, -⟩ := resolveLogical_text h
  exact ⟨hjail, _, hpath, hclean⟩

/-! ## The names of a rel -/

theorem relSegs_join {rest : List Name} (h : Clean rest) : relSegs (join '/' rest) = rest := by
  unfold relSegs
  by_cases hnil : rest = []
  · subst hnil
    decide
  · rw [split_join hnil h.noSlash]
    exact List.filter_eq_self.2 fun c hc => decide_eq_true ⟨(h c hc).1.1, (h c hc).1.2.1⟩

theorem length_join_relSegs (s : Str) : (join '/' (relSegs s)).length ≤ s.length := by
  by_cases hnil : relSegs s = []
  · rw [hnil]
    exact Nat.zero_le _
  · have hjoin := length_join '/' hnil
    have hle : weight (relSegs s) ≤ weight (split '/' s) := weight_filter_le _ _
    rw [weight_split] at hle
    omega

/-- **A rel is taken for the names it was made of** when it has no blanks at its ends, and only then. -/
theorem relSegs_strip_iff {rest : List Name} (h : Clean rest) :
    relSegs (strip (join '/' rest)) = rest ↔ strip (join '/' rest) = join '/' rest := by
  constructor
  · intro heq
    have hle := length_join_relSegs (strip (join '/' rest))
    rw [heq] at hle
    have hinfix : strip (join '/' rest) <:+: join '/' rest :=
      (List.rdropWhile_prefix _ _).isInfix.trans (List.dropWhile_suffix _).isInfix
    exact hinfix.eq_of_length (le_antisymm hinfix.length_le hle)
  · intro heq
    rw [heq, relSegs_join h]

/-- What `_assert_in_jail` returns: the path as the server resolves it, in the jail and not denied. -/
theorem assertInJail_ok {links : Nat} {t : Tree} {absPath path : Str} (h : w.assertInJail links t absPath = .ok path) :
    path = normalizeRemote links t (posixNorm absPath) ∧ (∃ jail, w.jailPath = .ok jail ∧ underJail path jail = true) ∧
      w.isDenied path = .ok false := by
  obtain ⟨j, hj, h⟩ := except_bind_eq_ok.1 h
  simp only at h
  obtain ⟨_, hunder, h⟩ := except_bind_eq_ok.1 h
  obtain ⟨d, hd, h⟩ := except_bind_eq_ok.1 h
  obtain ⟨_, hden, h⟩ := except_bind_eq_ok.1 h
  obtain rfl := Except.ok.inj h
  rw [raiseIf_eq_ok, Bool.not_eq_false] at hunder
  rw [raiseIf_eq_ok, Bool.not_eq_true] at hden
  exact ⟨rfl, ⟨j, hj, hunder⟩, hden ▸ hd⟩

end Jail

/-- The fleet user's home is the jail. -/
def piHome : Site := ⟨⟨some (lit "pi"), false, none⟩, lit "fleet", none, false⟩

def homeNodes (rest : Dict (List Name) Kind) : Dict (List Name) Kind :=
  [([lit "home"], .dir), ([lit "home", lit "pi"], .dir), ([lit "home", lit "pi", lit "docs"], .dir)] ++
    rest.map fun e => (lit "home" :: lit "pi" :: e.1, e.2)

end PiHerder.Files
