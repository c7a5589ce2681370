import PiHerder.Lib.Path

/-!
# Texts as lines

A text is edited line by line: `"\n".join(f(l) for l in s.splitlines())`, with the final newline put back where there was
one. `mapLines_mapLines_iff` says exactly when two such edits leave a text as it was, up to its final newline.
-/
namespace Lib
namespace Str

/-- Without an end of line. -/
def OneLine (l : Str) : Prop := ∀ c ∈ l, endsLine c = false

instance (l : Str) : Decidable (OneLine l) := List.decidableBAll (fun c => endsLine c = false) l

/-- No end of line but the newline. -/
def OnlyNewlines (s : Str) : Prop := ∀ c ∈ s, endsLine c = true → c = '\n'

/-- Equal, up to a final newline of one of them. -/
def SameText (s t : Str) : Prop := s = t ∨ s = t ++ ['\n'] ∨ s ++ ['\n'] = t

/-- `f` on every line. -/
def mapLines (f : Str → Str) (s : Str) : Str :=
  let out := join '\n' ((splitlines s).map f)
  if endsWith ['\n'] s = true ∧ out ≠ [] then out ++ ['\n'] else out

/-! ## Lines of a text -/

theorem splitlines_newline (s : Str) : splitlines ('\n' :: s) = [] :: splitlines s := by
  rw [splitlines]
  · rfl
  · exact fun _ h => nomatch h

theorem splitlines_cons {c : Char} (h : endsLine c = false) (s : Str) :
    splitlines (c :: s) = match splitlines s with
      | [] => [[c]]
      | l :: ls => (c :: l) :: ls := by
  have hne : c ≠ '\r' := by
    rintro rfl
    exact absurd h (by decide)
  rw [splitlines]
  · rw [h]
    rfl
  · exact fun _ hc => absurd hc hne

/-- A line before a newline is the first one. -/
theorem splitlines_append_newline {l : Str} (h : OneLine l) (s : Str) : splitlines (l ++ '\n' :: s) = l :: splitlines s := by
  induction l with
  | nil => exact splitlines_newline s
  | cons c l ih =>
    rw [List.cons_append, splitlines_cons (h c List.mem_cons_self), ih fun d hd => h d (List.mem_cons_of_mem _ hd)]

theorem splitlines_oneLine {l : Str} (h : OneLine l) (hne : l ≠ []) : splitlines l = [l] := by
  induction l with
  | nil => exact absurd rfl hne
  | cons c l ih =>
    rw [splitlines_cons (h c List.mem_cons_self)]
    by_cases hl : l = []
    · subst hl
      rfl
    · rw [ih (fun d hd => h d (List.mem_cons_of_mem _ hd)) hl]

theorem splitlines_crlf (s : Str) : splitlines ('\r' :: '\n' :: s) = [] :: splitlines s := by rw [splitlines]

theorem splitlines_end {c : Char} {s : Str} (h : endsLine c = true) (hlf : s.head? ≠ some '\n') : splitlines (c :: s) = [] :: splitlines s := by
  rw [splitlines]
  · rw [if_pos h]
  · rintro s' - rfl
    exact hlf rfl

theorem splitlines_ne_nil {s : Str} (h : s ≠ []) : splitlines s ≠ [] := by
  fun_induction splitlines s with
  | case1 => exact absurd rfl h
  | case2 | case3 | case4 | case5 => simp

/-- A newline ends a line, whatever stands before it. -/
theorem splitlines_append (b a : Str) : splitlines (a ++ '\n' :: b) = splitlines (a ++ ['\n']) ++ splitlines b := by
  cases a with
  | nil =>
    rw [List.nil_append, List.nil_append, splitlines_newline, splitlines_newline]
    rfl
  | cons c a =>
    have ih := splitlines_append b a
    have hhead : (a ++ '\n' :: b).head? = (a ++ ['\n']).head? := by cases a <;> rfl
    rw [List.cons_append, List.cons_append]
    by_cases hend : endsLine c = true
    · by_cases hlf : (a ++ ['\n']).head? = some '\n'
      · by_cases hcr : c = '\r'
        · -- The newline that follows belongs to the same end.
          subst hcr
          cases a with
          | nil => rw [List.nil_append, List.nil_append, splitlines_crlf, splitlines_crlf]; rfl
          | cons d a =>
            obtain rfl : d = '\n' := Option.some.inj hlf
            simp only [List.cons_append, splitlines_crlf]
            rw [splitlines_append b a]
        · have hskip (s : Str) : splitlines (c :: s) = [] :: splitlines s := by
            rw [splitlines]
            · rw [if_pos hend]
            · exact fun s' hc _ => hcr hc
          rw [hskip, hskip, ih, List.cons_append]
      · rw [splitlines_end hend (hhead ▸ hlf), splitlines_end hend hlf, ih, List.cons_append]
    · rw [Bool.not_eq_true] at hend
      rw [splitlines_cons hend, splitlines_cons hend, ih]
      have hne : splitlines (a ++ ['\n']) ≠ [] := splitlines_ne_nil (by simp)
      obtain ⟨l, ls, hls⟩ := List.exists_cons_of_ne_nil hne
      rw [hls]
      rfl

theorem isSpace_of_endsLine {c : Char} (h : endsLine c = true) : isSpace c = true := by
  simp only [endsLine, List.contains_iff_mem, List.mem_cons, List.not_mem_nil, or_false] at h
  simp only [isSpace, Bool.or_eq_true, Bool.and_eq_true, decide_eq_true_eq, beq_iff_eq]
  omega

/-- What stands before the first end of a line. -/
def firstLine (s : Str) : Str := s.takeWhile fun c => !endsLine c

theorem firstLine_append {a : Str} (h : OneLine a) (b : Str) : firstLine (a ++ b) = a ++ firstLine b :=
  List.takeWhile_append_of_pos fun c hc => by rw [h c hc]; rfl

theorem firstLine_of_oneLine {a : Str} (h : OneLine a) : firstLine a = a := by
  have happ := firstLine_append h []
  rw [List.append_nil] at happ
  exact happ.trans (List.append_nil a)

theorem firstLine_newline (v : Str) : firstLine (v ++ ['\n']) = firstLine v := by
  induction v with
  | nil => rfl
  | cons c v ih =>
    rw [List.cons_append, firstLine, firstLine, List.takeWhile_cons, List.takeWhile_cons]
    split
    · rw [show (v ++ ['\n']).takeWhile _ = firstLine (v ++ ['\n']) from rfl, ih]
      rfl
    · rfl

theorem head_splitlines {s : Str} (h : s ≠ []) : (splitlines s).head? = some (firstLine s) := by
  fun_induction splitlines s with
  | case1 => exact absurd rfl h
  | case2 s => rw [firstLine, List.takeWhile_cons_of_neg (by decide)]; rfl
  | case3 c s _ hend => rw [firstLine, List.takeWhile_cons_of_neg (by simp [hend])]; rfl
  | case4 c s _ hend hnil =>
    have hs : s = [] := by
      by_contra hne
      exact splitlines_ne_nil hne hnil
    rw [hs, firstLine, List.takeWhile_cons_of_pos (by simp [hend])]
    rfl
  | case5 c s _ hend k ks hcons ih =>
    have hs : s ≠ [] := by
      rintro rfl
      cases hcons
    have hk : k = firstLine s := by simpa [hcons] using ih hs
    rw [firstLine, List.takeWhile_cons_of_pos (by simp [hend]), hk]
    rfl

theorem oneLine_of_mem_splitlines {l s : Str} (h : l ∈ splitlines s) : OneLine l := by
  revert l
  fun_induction splitlines s with
  | case1 =>
    intro l h
    cases h
  | case2 s ih =>
    intro l h
    rcases List.mem_cons.1 h with rfl | h
    · exact List.forall_mem_nil _
    · exact ih h
  | case3 c s _ hend ih =>
    intro l h
    rcases List.mem_cons.1 h with rfl | h
    · exact List.forall_mem_nil _
    · exact ih h
  | case4 c s _ hend hnil ih =>
    intro l h
    obtain rfl := List.mem_singleton.1 h
    intro d hd
    obtain rfl := List.mem_singleton.1 hd
    simpa using hend
  | case5 c s _ hend k ks hcons ih =>
    intro l h
    rw [hcons] at ih
    rcases List.mem_cons.1 h with rfl | h
    · intro d hd
      rcases List.mem_cons.1 hd with rfl | hd
      · simpa using hend
      · exact ih List.mem_cons_self d hd
    · exact ih (List.mem_cons_of_mem _ h)

/-- Lines that are written with a newline behind each read back. -/
theorem splitlines_join_newline : ∀ {ls : List Str}, ls ≠ [] → (∀ l ∈ ls, OneLine l) → splitlines (join '\n' ls ++ ['\n']) = ls
  | [l], _, h => splitlines_append_newline (h l List.mem_cons_self) []
  | l :: k :: ls, _, h => by
    rw [join, List.append_assoc, List.cons_append, splitlines_append_newline (h l List.mem_cons_self),
      splitlines_join_newline (by simp) fun x hx => h x (List.mem_cons_of_mem _ hx)]
    · simp

/-- Without the last newline they do where the last line is not empty. -/
theorem splitlines_join : ∀ {ls : List Str}, ls.getLast? ≠ some [] → (∀ l ∈ ls, OneLine l) → splitlines (join '\n' ls) = ls
  | [], _, _ => rfl
  | [l], hlast, h => splitlines_oneLine (h l List.mem_cons_self) fun hl => hlast (congrArg some hl)
  | l :: k :: ls, hlast, h => by
    rw [join, splitlines_append_newline (h l List.mem_cons_self),
      splitlines_join (by simpa using hlast) fun x hx => h x (List.mem_cons_of_mem _ hx)]
    · simp

/-- An empty last line is lost with its newline. -/
theorem splitlines_join_nil : ∀ {ls : List Str}, (∀ l ∈ ls, OneLine l) → splitlines (join '\n' (ls ++ [[]])) = ls
  | [], _ => rfl
  | [l], h => splitlines_append_newline (h l List.mem_cons_self) []
  | l :: k :: ls, h => by
    have ih := @splitlines_join_nil (k :: ls) fun x hx => h x (List.mem_cons_of_mem _ hx)
    rw [List.cons_append, List.cons_append, join, splitlines_append_newline (h l List.mem_cons_self), ← List.cons_append, ih]
    · simp

/-- A text with newlines only is parted at these, with nothing behind the last one. -/
theorem split_newline : ∀ {s : Str}, OnlyNewlines s →
    split '\n' s = splitlines s ++ if s = [] ∨ s.getLast? = some '\n' then [[]] else []
  | [], _ => rfl
  | c :: s, h => by
    have ih := split_newline fun x hx => h x (List.mem_cons_of_mem c hx)
    by_cases hc : endsLine c = true
    · obtain rfl := h c List.mem_cons_self hc
      rw [splitlines_newline, split, if_pos rfl, ih]
      cases s <;> simp
    · rw [Bool.not_eq_true] at hc
      have hne : c ≠ '\n' := by
        rintro rfl
        exact absurd hc (by decide)
      rw [splitlines_cons hc, split, if_neg hne, ih]
      cases s with
      | nil => simp [splitlines, hne]
      | cons d s =>
        obtain ⟨l, ls, hls⟩ := List.exists_cons_of_ne_nil (splitlines_ne_nil (List.cons_ne_nil d s))
        simp [hls]

theorem join_concat_nil (c : Char) : ∀ {ls : List Str}, ls ≠ [] → join c (ls ++ [[]]) = join c ls ++ [c]
  | [l], _ => by simp [join]
  | l :: k :: ls, _ => by
    have ih := join_concat_nil c (List.cons_ne_nil k ls)
    change l ++ c :: join c ((k :: ls) ++ [[]]) = (l ++ c :: join c (k :: ls)) ++ [c]
    rw [ih, List.append_assoc, List.cons_append]

theorem endsWith_newline {s : Str} : endsWith ['\n'] s = true ↔ s.getLast? = some '\n' := by
  rw [endsWith, List.isSuffixOf_iff_suffix, List.getLast?_eq_some_iff]
  exact exists_congr fun t => eq_comm

/-- It is its lines again. -/
theorem eq_join_splitlines {s : Str} (hs : s ≠ []) (h : OnlyNewlines s) :
    s = join '\n' (splitlines s) ++ if endsWith ['\n'] s then ['\n'] else [] := by
  conv_lhs => rw [← join_split '\n' s, split_newline h]
  by_cases hend : s.getLast? = some '\n'
  · rw [if_pos (Or.inr hend), if_pos (endsWith_newline.2 hend), join_concat_nil _ (splitlines_ne_nil hs)]
  · rw [if_neg (by simp [hs, hend]), if_neg (by rwa [endsWith_newline]), List.append_nil, List.append_nil]

theorem onlyNewlines_join {ls : List Str} (h : ∀ l ∈ ls, OneLine l) : OnlyNewlines (join '\n' ls) := by
  intro c hc hend
  rcases mem_join hc with rfl | ⟨l, hl, hcl⟩
  · rfl
  · exact absurd hend (by rw [h l hl c hcl]; decide)

/-- Lines of two texts with as many of them. -/
theorem join_injective {ls ks : List Str} (hls : ∀ l ∈ ls, OneLine l) (hks : ∀ l ∈ ks, OneLine l) (hlen : ls.length = ks.length)
    (h : join '\n' ls = join '\n' ks) : ls = ks := by
  have hnot {ws : List Str} (hws : ∀ l ∈ ws, OneLine l) : ∀ l ∈ ws, '\n' ∉ l :=
    fun l hl hc => absurd (hws l hl _ hc) (by decide)
  cases ls with
  | nil => exact (List.length_eq_zero_iff.1 hlen.symm).symm
  | cons l ls =>
    cases ks with
    | nil => cases hlen
    | cons k ks => rw [← split_join (List.cons_ne_nil l ls) (hnot hls), h, split_join (List.cons_ne_nil k ks) (hnot hks)]

theorem count_join {ls : List Str} (hne : ls ≠ []) (h : ∀ l ∈ ls, OneLine l) : (join '\n' ls).count '\n' + 1 = ls.length := by
  rw [← length_split, split_join hne fun l hl hc => absurd (h l hl _ hc) (by decide)]

theorem splitlines_flatMap : ∀ {ls : List Str}, (∀ l ∈ ls, OneLine l) → splitlines (ls.flatMap (· ++ ['\n'])) = ls
  | [], _ => rfl
  | l :: ls, h => by
    rw [List.flatMap_cons, List.append_assoc, List.singleton_append, splitlines_append_newline (h l List.mem_cons_self),
      splitlines_flatMap fun x hx => h x (List.mem_cons_of_mem _ hx)]

theorem infix_of_mem_splitlines {l s : Str} (h : l ∈ splitlines s) : l <:+: s := by
  suffices hboth : (∀ l ∈ splitlines s, l <:+: s) ∧ ∀ l ∈ (splitlines s).head?, l <+: s from hboth.1 l h
  clear h l
  fun_induction splitlines s with
  | case1 => simp
  | case2 s ih =>
    refine ⟨fun l hl => ?_, fun l hl => ?_⟩
    · rcases List.mem_cons.1 hl with rfl | hl
      · exact List.nil_infix
      · exact List.infix_cons (List.infix_cons (ih.1 l hl))
    · obtain rfl := Option.some.inj hl
      exact List.nil_prefix
  | case3 c s _ hend ih =>
    refine ⟨fun l hl => ?_, fun l hl => ?_⟩
    · rcases List.mem_cons.1 hl with rfl | hl
      · exact List.nil_infix
      · exact List.infix_cons (ih.1 l hl)
    · obtain rfl := Option.some.inj hl
      exact List.nil_prefix
  | case4 c s _ hend hnil ih =>
    have hone : [c] <+: c :: s := List.cons_prefix_cons.2 ⟨rfl, List.nil_prefix⟩
    refine ⟨fun l hl => ?_, fun l hl => ?_⟩
    · rw [List.mem_singleton.1 hl]
      exact hone.isInfix
    · obtain rfl := Option.some.inj hl
      exact hone
  | case5 c s _ hend k ks hcons ih =>
    rw [hcons] at ih
    have hfirst : c :: k <+: c :: s := List.cons_prefix_cons.2 ⟨rfl, ih.2 k rfl⟩
    refine ⟨fun l hl => ?_, fun l hl => ?_⟩
    · rcases List.mem_cons.1 hl with rfl | hl
      · exact hfirst.isInfix
      · exact List.infix_cons (ih.1 l (List.mem_cons_of_mem _ hl))
    · obtain rfl := Option.some.inj hl
      exact hfirst

/-! ## Two edits -/

/-- A line becomes a line, and an empty one only where it was. -/
structure LineEdit (f : Str → Str) : Prop where
  oneLine : ∀ {l}, OneLine l → OneLine (f l)
  eq_nil : ∀ {l}, f l = [] ↔ l = []

section Edits
variable {f g : Str → Str} (hf : LineEdit f) (hg : LineEdit g)

include hf in
theorem oneLine_map (s : Str) : ∀ l ∈ (splitlines s).map f, OneLine l := by
  intro l hl
  obtain ⟨k, hk, rfl⟩ := List.mem_map.1 hl
  exact hf.oneLine (oneLine_of_mem_splitlines hk)

include hf in
theorem onlyNewlines_mapLines (s : Str) : OnlyNewlines (mapLines f s) := by
  have hjoin := onlyNewlines_join (oneLine_map hf s)
  unfold mapLines
  dsimp only
  split
  · intro c hc hend
    rcases List.mem_append.1 hc with hc | hc
    · exact hjoin c hc hend
    · exact List.mem_singleton.1 hc
  · exact hjoin

theorem OnlyNewlines.of_sameText {s t : Str} (hs : OnlyNewlines s) (h : SameText s t) : OnlyNewlines t := by
  rcases h with rfl | rfl | rfl
  · exact hs
  · exact fun c hc => hs c (List.mem_append_left _ hc)
  · intro c hc hend
    rcases List.mem_append.1 hc with hc | hc
    · exact hs c hc hend
    · exact List.mem_singleton.1 hc

/-- The last line of a text without a final newline is not empty. -/
theorem getLast_splitlines {s : Str} (h : OnlyNewlines s) (hend : s.getLast? ≠ some '\n') : (splitlines s).getLast? ≠ some [] := by
  intro hlast
  by_cases hs : s = []
  · subst hs
    cases hlast
  · have hsplit := split_newline h
    rw [if_neg (by simp [hs, hend]), List.append_nil] at hsplit
    obtain ⟨ls, hls⟩ := List.getLast?_eq_some_iff.1 hlast
    refine hend ?_
    rw [← join_split '\n' s, hsplit, hls]
    cases ls with
    | nil =>
      rw [← join_split '\n' s, hsplit, hls] at hs
      exact absurd rfl hs
    | cons k ks => rw [join_concat_nil _ (List.cons_ne_nil k ks), List.getLast?_concat]

include hf in
/-- The lines of an edited text are the edited lines, but for a text that is one empty line. -/
theorem splitlines_mapLines {s : Str} (h : join '\n' ((splitlines s).map f) ≠ []) (hs : OnlyNewlines s) :
    splitlines (mapLines f s) = (splitlines s).map f ∧ endsWith ['\n'] (mapLines f s) = endsWith ['\n'] s := by
  have hne : (splitlines s).map f ≠ [] := fun hnil => h (by rw [hnil, join])
  unfold mapLines
  by_cases hend : endsWith ['\n'] s = true
  · rw [if_pos ⟨hend, h⟩, splitlines_join_newline hne (oneLine_map hf s), hend, endsWith_newline, List.getLast?_concat]
    exact ⟨rfl, rfl⟩
  · rw [if_neg fun hif => hend hif.1]
    have hlast : ((splitlines s).map f).getLast? ≠ some [] := by
      rw [List.getLast?_map]
      intro hmap
      obtain ⟨l, hl, hfl⟩ := Option.map_eq_some_iff.1 hmap
      rw [hf.eq_nil.1 hfl] at hl
      exact getLast_splitlines hs (fun hnl => hend (endsWith_newline.2 hnl)) hl
    have hlines := splitlines_join hlast (oneLine_map hf s)
    refine ⟨hlines, ?_⟩
    rw [Bool.not_eq_true] at hend
    rw [hend, ← Bool.not_eq_true, endsWith_newline]
    -- With a newline at the end there was one part more.
    intro hnl
    have hsplit := split_newline (onlyNewlines_join (oneLine_map hf s))
    rw [hlines, if_pos (Or.inr hnl), split_join hne fun l hl hc => absurd (oneLine_map hf s l hl _ hc) (by decide)] at hsplit
    simpa using congrArg List.length hsplit

omit f g in
/-- With as many newlines and one end, the same text is the text itself. -/
theorem sameText_append {a b e : Str} (hcount : a.count '\n' = b.count '\n') : SameText (a ++ e) (b ++ e) ↔ a = b := by
  constructor
  · rintro (h | h | h)
    · exact List.append_cancel_right h
    · have := congrArg (List.count '\n') h
      simp only [List.count_append, List.count_singleton_self] at this
      omega
    · have := congrArg (List.count '\n') h
      simp only [List.count_append, List.count_singleton_self] at this
      omega
  · rintro rfl
    exact Or.inl rfl

include hf in
/-- Nothing is left only of no line and of one empty line. -/
theorem lines_of_join_eq_nil {s : Str} (h : join '\n' ((splitlines s).map f) = []) : splitlines s = [] ∨ splitlines s = [[]] := by
  match hlines : splitlines s with
  | [] => exact Or.inl rfl
  | [l] =>
    rw [hlines] at h
    exact Or.inr (by rw [hf.eq_nil.1 h])
  | l :: k :: ls =>
    rw [hlines] at h
    exact absurd h (by simp [join])

theorem mapLines_eq_nil {s : Str} (h : join '\n' ((splitlines s).map f) = []) : mapLines f s = [] := by
  rw [mapLines, h]
  exact if_neg fun h => h.2 rfl

include hf hg in
/-- An edit after an edit. -/
theorem LineEdit.comp : LineEdit (g ∘ f) :=
  ⟨fun h => hg.oneLine (hf.oneLine h), fun {l} => by rw [Function.comp, hg.eq_nil, hf.eq_nil]⟩

include hf hg in
/-- Two edits are one, where a text is more than one empty line. -/
theorem mapLines_mapLines {s : Str} (hnil : join '\n' ((splitlines s).map f) ≠ []) (hs : OnlyNewlines s) :
    mapLines g (mapLines f s) = join '\n' ((splitlines s).map (g ∘ f)) ++ if endsWith ['\n'] s then ['\n'] else [] := by
  obtain ⟨hlines, hend⟩ := splitlines_mapLines hf hnil hs
  have hstill : join '\n' ((splitlines s).map (g ∘ f)) ≠ [] := by
    intro h
    rcases lines_of_join_eq_nil (hf.comp hg) h with h | h
    · exact hnil (by rw [h]; rfl)
    · rw [h] at hnil
      exact hnil (hf.eq_nil.2 rfl)
  rw [mapLines, hlines, hend, List.map_map]
  by_cases h : endsWith ['\n'] s = true
  · rw [if_pos ⟨h, hstill⟩, if_pos h]
  · rw [if_neg fun hif => h hif.1, if_neg h, List.append_nil]

include hf hg in
/-- **Two edits leave a text as it was, up to a final newline,** where it has no other line ends and every line comes back. -/
theorem mapLines_mapLines_iff {s : Str} :
    SameText (mapLines g (mapLines f s)) s ↔ OnlyNewlines s ∧ ∀ l ∈ splitlines s, g (f l) = l := by
  by_cases hs : OnlyNewlines s
  swap
  · exact iff_of_false (fun h => hs ((onlyNewlines_mapLines hg _).of_sameText h)) fun h => hs h.1
  rw [and_iff_right hs]
  by_cases hs0 : s = []
  · subst hs0
    exact iff_of_true (Or.inl rfl) fun l hl => nomatch hl
  have hne := splitlines_ne_nil hs0
  by_cases hnil : join '\n' ((splitlines s).map f) = []
  · -- One empty line, whose newline is lost.
    obtain hlines := (lines_of_join_eq_nil hf hnil).resolve_left hne
    refine iff_of_true ?_ fun l hl => ?_
    · have hjoin := eq_join_splitlines hs0 hs
      rw [hlines] at hjoin
      rw [mapLines_eq_nil hnil]
      split at hjoin
      · exact Or.inr (Or.inr hjoin.symm)
      · exact absurd hjoin hs0
    · rw [hlines, List.mem_singleton] at hl
      rw [hl, hf.eq_nil.2 rfl, hg.eq_nil.2 rfl]
  · have hmap := oneLine_map (hf.comp hg) s
    have hone : ∀ l ∈ splitlines s, OneLine l := fun l hl => oneLine_of_mem_splitlines hl
    have hcount : (join '\n' ((splitlines s).map (g ∘ f))).count '\n' = (join '\n' (splitlines s)).count '\n' := by
      have h1 := count_join (by simpa using hne) hmap
      have h2 := count_join hne hone
      rw [List.length_map] at h1
      omega
    calc SameText (mapLines g (mapLines f s)) s
      _ ↔ SameText (join '\n' ((splitlines s).map (g ∘ f)) ++ if endsWith ['\n'] s then ['\n'] else [])
            (join '\n' (splitlines s) ++ if endsWith ['\n'] s then ['\n'] else []) := by
        rw [mapLines_mapLines hf hg hnil hs, ← eq_join_splitlines hs0 hs]
      _ ↔ join '\n' ((splitlines s).map (g ∘ f)) = join '\n' (splitlines s) := sameText_append hcount
      _ ↔ (splitlines s).map (g ∘ f) = (splitlines s).map id := by
        rw [List.map_id]
        exact ⟨join_injective hmap hone (List.length_map _), fun h => by rw [h]⟩
      _ ↔ ∀ l ∈ splitlines s, g (f l) = l := List.map_inj_left

include hf in
/-- A line of an edited text is the edited line. -/
theorem getElem_mapLines {s l : Str} {j : Nat} (hl : (splitlines s)[j]? = some l) (hne : l ≠ []) :
    (splitlines (mapLines f s))[j]? = some (f l) := by
  have hmap : ((splitlines s).map f)[j]? = some (f l) := by rw [List.getElem?_map, hl, Option.map_some]
  have hms : (splitlines s).map f ≠ [] := by
    intro h
    rw [h] at hmap
    cases hmap
  unfold mapLines
  dsimp only
  split
  · rwa [splitlines_join_newline hms (oneLine_map hf s)]
  · by_cases hlast : ((splitlines s).map f).getLast? = some []
    · -- The empty line that is lost is not this one.
      obtain ⟨ks, hks⟩ := List.getLast?_eq_some_iff.1 hlast
      have hone := oneLine_map hf s
      rw [hks] at hmap hone ⊢
      rw [splitlines_join_nil fun k hk => hone k (List.mem_append_left _ hk)]
      have hj : j < ks.length := by
        by_contra hj
        rw [List.getElem?_append_right (by omega)] at hmap
        have := List.mem_of_getElem? hmap
        exact hne (hf.eq_nil.1 (List.mem_singleton.1 this))
      rwa [List.getElem?_append_left hj] at hmap
    · rwa [splitlines_join hlast (oneLine_map hf s)]

end Edits
end Str
end Lib
