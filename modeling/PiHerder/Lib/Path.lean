import PiHerder.Lib.PyStr

/-!
# Where a path leads

`os.path.normpath` reads a path component by component. `normComps` are the components it keeps, and a
path's place is its root flag with them: two spellings of a place are `SamePlace`, and `Inside` is the
order of places. Joining and normalizing are stated on these components.

* `normComps_append` — a path that goes on is folded on from where it was;
* `normComps_normpath` — normalizing does not move a path;
* `normComps_below` — going down from a normalized base, as `base.rstrip("/") + "/" + …` does.
-/
namespace Lib
namespace Str

def rooted (s : Str) : Bool := startsWith (lit "/") s

theorem rooted_cons (x : Char) (xs : Str) : rooted (x :: xs) = ('/' == x) := by
  show ('/' == x && List.isPrefixOf [] xs) = ('/' == x)
  rw [List.isPrefixOf_nil_left, Bool.and_true]

theorem rooted_append {a : Str} (ha : a ≠ []) (t : Str) : rooted (a ++ t) = rooted a := by
  obtain ⟨x, xs, rfl⟩ := List.exists_cons_of_ne_nil ha
  rw [List.cons_append, rooted_cons, rooted_cons]

/-- Two spellings of one place. -/
def SamePlace (p q : Str) : Prop := rooted p = rooted q ∧ normComps p = normComps q

/-- `p` is the place `dir`, or below it. -/
def Inside (dir p : Str) : Prop := rooted p = rooted dir ∧ normComps dir <+: normComps p

instance (p q : Str) : Decidable (SamePlace p q) := inferInstanceAs (Decidable (_ ∧ _))
instance (dir p : Str) : Decidable (Inside dir p) := inferInstanceAs (Decidable (_ ∧ _))

theorem Inside.refl (p : Str) : Inside p p := ⟨rfl, List.prefix_refl _⟩

/-! ## Splitting and joining -/

theorem split_ne_nil (c : Char) (s : Str) : split c s ≠ [] := by
  cases s with
  | nil => simp [split]
  | cons x xs =>
    unfold split
    split
    · simp
    · split <;> simp

theorem split_append_cons (c : Char) (a b : Str) : split c (a ++ c :: b) = split c a ++ split c b := by
  induction a with
  | nil => simp [split]
  | cons x xs ih =>
    simp only [List.cons_append, split, ih]
    by_cases hx : x = c
    · simp only [if_pos hx, List.cons_append]
    · simp only [if_neg hx]
      cases h : split c xs with
      | nil => exact absurd h (split_ne_nil c xs)
      | cons p ps => rfl

theorem split_of_notMem {c : Char} {s : Str} (h : c ∉ s) : split c s = [s] := by
  induction s with
  | nil => rfl
  | cons x xs ih =>
    simp only [List.mem_cons, not_or] at h
    unfold split
    rw [if_neg (Ne.symm h.1), ih h.2]

theorem notMem_of_mem_split {c : Char} {s p : Str} (h : p ∈ split c s) : c ∉ p := by
  induction s generalizing p with
  | nil =>
    simp only [split, List.mem_singleton] at h
    simp [h]
  | cons x xs ih =>
    unfold split at h
    split at h
    · rcases List.mem_cons.1 h with rfl | h
      · simp
      · exact ih h
    · rename_i hx
      split at h
      · rename_i hs
        exact absurd hs (split_ne_nil c xs)
      · rename_i q qs hs
        rcases List.mem_cons.1 h with rfl | h
        · have := ih (p := q) (by rw [hs]; exact List.mem_cons_self)
          simp [this, Ne.symm hx]
        · exact ih (by rw [hs]; exact List.mem_cons_of_mem _ h)

theorem split_join {c : Char} : ∀ {cs : List Str}, cs ≠ [] → (∀ x ∈ cs, c ∉ x) → split c (join c cs) = cs
  | [x], _, h => split_of_notMem (h x (by simp))
  | x :: y :: ys, _, h => by
    have ih : split c (join c (y :: ys)) = y :: ys := split_join (by simp) fun z hz => h z (List.mem_cons_of_mem _ hz)
    rw [join, split_append_cons, split_of_notMem (h x (by simp)), ih]
    · rfl
    · simp

theorem mem_join {c x : Char} : ∀ {cs : List Str}, x ∈ join c cs → x = c ∨ ∃ w ∈ cs, x ∈ w
  | [w], h => Or.inr ⟨w, by simp, h⟩
  | w :: v :: cs, h => by
    rcases List.mem_append.1 h with h | h
    · exact Or.inr ⟨w, by simp, h⟩
    · rcases List.mem_cons.1 h with h | h
      · exact Or.inl h
      · exact (mem_join h).imp_right fun ⟨u, hu, hx⟩ => ⟨u, List.mem_cons_of_mem _ hu, hx⟩

theorem mem_join_of_mem {c x : Char} {w : Str} (hx : x ∈ w) : ∀ {cs : List Str}, w ∈ cs → x ∈ join c cs
  | [v], h => by
    obtain rfl := List.mem_singleton.1 h
    exact hx
  | v :: u :: cs, h => by
    rcases List.mem_cons.1 h with rfl | h
    · exact List.mem_append_left _ hx
    · exact List.mem_append_right _ (List.mem_cons_of_mem _ (mem_join_of_mem hx h))

/-- Words that are put together with blanks come apart again. -/
theorem words_join {ws : List Str} (h : ∀ w ∈ ws, w ≠ [] ∧ ∀ c ∈ w, isSpace c = false) : words (join ' ' ws) = ws := by
  by_cases hnil : ws = []
  · subst hnil
    rfl
  have hblank : (join ' ' ws).map (fun c => if isSpace c then ' ' else c) = join ' ' ws := by
    refine (List.map_congr_left fun c hc => ?_).trans (List.map_id _)
    rcases mem_join hc with rfl | ⟨w, hw, hcw⟩
    · rfl
    · simp [(h w hw).2 c hcw]
  have hsplit : split ' ' (join ' ' ws) = ws := by
    refine split_join hnil fun w hw hin => ?_
    have hspace := (h w hw).2 ' ' hin
    revert hspace
    decide
  unfold words
  rw [hblank, hsplit]
  exact List.filter_eq_self.2 fun w hw => by simp [(h w hw).1]

theorem join_split (c : Char) (s : Str) : join c (split c s) = s := by
  induction s with
  | nil => rfl
  | cons x xs ih =>
    unfold split
    by_cases hx : x = c
    · rw [if_pos hx, hx]
      cases h : split c xs with
      | nil => exact absurd h (split_ne_nil c xs)
      | cons p ps => rw [← ih, h]; rfl
    · rw [if_neg hx]
      cases h : split c xs with
      | nil => exact absurd h (split_ne_nil c xs)
      | cons p ps =>
        rw [h] at ih
        cases ps with
        | nil => simpa [join] using ih
        | cons q qs => simpa [join] using ih

theorem mem_of_mem_split {c x : Char} {w s : Str} (hw : w ∈ split c s) (hx : x ∈ w) : x ∈ s := by
  rw [← join_split c s]
  exact mem_join_of_mem hx hw

theorem split_cons_of_ne {c d : Char} (h : d ≠ c) (s : Str) : ∃ w ws, split c (d :: s) = (d :: w) :: ws := by
  unfold split
  rw [if_neg h]
  split
  · exact ⟨[], [], rfl⟩
  · exact ⟨_, _, rfl⟩

/-- A joined path ends in its last component. -/
theorem join_ends {c : Char} : ∀ {cs : List Str}, cs ≠ [] → (∀ x ∈ cs, x ≠ [] ∧ c ∉ x) →
    ∃ a t, join c cs = a ++ t ∧ t ≠ [] ∧ c ∉ t
  | [x], _, h => ⟨[], x, rfl, h x (by simp)⟩
  | x :: y :: ys, _, h => by
    have htail : ∀ z ∈ y :: ys, z ≠ [] ∧ c ∉ z := fun z hz => h z (List.mem_cons_of_mem _ hz)
    obtain ⟨a, t, heq, ht⟩ := join_ends (by simp) htail
    refine ⟨x ++ c :: a, t, ?_, ht⟩
    rw [join, heq]
    · simp
    · simp

theorem join_ne_nil {c : Char} : ∀ {cs : List Str}, cs ≠ [] → (∀ x ∈ cs, x ≠ []) → join c cs ≠ []
  | [x], _, h => h x (by simp)
  | x :: y :: ys, _, _ => by simp [join]

/-! ## The fold of `normpath` -/

/-- A component `normpath` keeps, whatever stands before it. -/
def Plain (c : Str) : Prop := c ≠ [] ∧ c ≠ lit "." ∧ c ≠ lit ".."

instance (c : Str) : Decidable (Plain c) := inferInstanceAs (Decidable (_ ∧ _))

theorem normStep_plain {r : Bool} {acc : List Str} {c : Str} (h : Plain c) : normStep r acc c = c :: acc := by
  unfold normStep
  rw [if_neg (by simp [h.1, h.2.1]), if_pos (Or.inl h.2.2)]

theorem foldl_plain {r : Bool} {cs : List Str} (h : ∀ c ∈ cs, Plain c) : ∀ acc,
    cs.foldl (normStep r) acc = cs.reverse ++ acc := by
  induction cs with
  | nil => intro acc; rfl
  | cons c cs ih =>
    intro acc
    rw [List.foldl_cons, normStep_plain (h c (by simp)), ih fun d hd => h d (List.mem_cons_of_mem _ hd)]
    simp

/-- Without a `..` only empty components and `.` are left out. -/
theorem foldl_goesDown {r : Bool} {cs : List Str} (h : lit ".." ∉ cs) : ∀ acc,
    cs.foldl (normStep r) acc = (cs.filter fun c => decide (c ≠ [] ∧ c ≠ lit ".")).reverse ++ acc := by
  induction cs with
  | nil => intro acc; rfl
  | cons c cs ih =>
    intro acc
    simp only [List.mem_cons, not_or] at h
    rw [List.foldl_cons, ih h.2]
    by_cases hc : c ≠ [] ∧ c ≠ lit "."
    · rw [normStep_plain ⟨hc.1, hc.2, Ne.symm h.1⟩, List.filter_cons_of_pos (by simpa using hc)]
      simp
    · have hskip : normStep r acc c = acc := by
        unfold normStep
        rw [if_pos (by rwa [not_and_or, not_not, not_not] at hc)]
      rw [hskip, List.filter_cons_of_neg (by simpa using hc)]

/-- What the loop of `normpath` has kept, last component first: plain ones, and below them the `..` that
lead out of a relative path. -/
def Normal (r : Bool) : List Str → Prop
  | [] => True
  | c :: acc => Normal r acc ∧ (Plain c ∨ (c = lit ".." ∧ r = false ∧ (acc = [] ∨ acc.head? = some (lit ".."))))

theorem normStep_normal {r : Bool} {acc : List Str} (h : Normal r acc) (c : Str) : Normal r (normStep r acc c) := by
  unfold normStep
  by_cases hdot : c = [] ∨ c = lit "."
  · rw [if_pos hdot]
    exact h
  · rw [if_neg hdot, not_or] at *
    by_cases hpush : c ≠ lit ".." ∨ (r = false ∧ acc = []) ∨ acc.head? = some (lit "..")
    · rw [if_pos hpush]
      refine ⟨h, ?_⟩
      by_cases hup : c = lit ".."
      · refine Or.inr ⟨hup, ?_⟩
        rcases hpush with hne | ⟨hr, hacc⟩ | hhead
        · exact absurd hup hne
        · exact ⟨hr, Or.inl hacc⟩
        · refine ⟨?_, Or.inr hhead⟩
          cases acc with
          | nil => cases hhead
          | cons a as =>
            obtain rfl : a = lit ".." := by simpa using hhead
            rcases h.2 with hplain | ⟨-, hr, -⟩
            · exact absurd rfl hplain.2.2
            · exact hr
      · exact Or.inl ⟨hdot.1, hdot.2, hup⟩
    · rw [if_neg hpush]
      cases acc with
      | nil => exact h
      | cons a as => exact h.1

theorem foldl_normal {r : Bool} (cs : List Str) : ∀ {acc}, Normal r acc → Normal r (cs.foldl (normStep r) acc) := by
  induction cs with
  | nil => exact fun h => h
  | cons c cs ih => exact fun h => ih (normStep_normal h c)

/-- What has been kept is kept when it is read again. -/
theorem foldl_reverse_of_normal {r : Bool} : ∀ {acc : List Str}, Normal r acc → acc.reverse.foldl (normStep r) [] = acc
  | [], _ => rfl
  | c :: acc, h => by
    rw [List.reverse_cons, List.foldl_append, foldl_reverse_of_normal h.1, List.foldl_cons, List.foldl_nil]
    rcases h.2 with hplain | ⟨rfl, hr, hacc⟩
    · exact normStep_plain hplain
    · unfold normStep
      rw [if_neg (by decide), if_pos]
      rcases hacc with hacc | hacc
      · exact Or.inr (Or.inl ⟨hr, hacc⟩)
      · exact Or.inr (Or.inr hacc)

theorem mem_foldl_normStep {r : Bool} {x : Str} (cs : List Str) : ∀ {acc}, x ∈ cs.foldl (normStep r) acc → x ∈ acc ∨ x ∈ cs := by
  induction cs with
  | nil => exact fun h => Or.inl h
  | cons c cs ih =>
    intro acc h
    rcases ih h with h | h
    · unfold normStep at h
      split at h
      · exact Or.inl h
      · split at h
        · rcases List.mem_cons.1 h with rfl | h
          · exact Or.inr List.mem_cons_self
          · exact Or.inl h
        · exact Or.inl (List.mem_of_mem_tail h)
    · exact Or.inr (List.mem_cons_of_mem _ h)

theorem normComps_normal (s : Str) : Normal (rooted s) (normComps s).reverse := by
  unfold normComps
  rw [List.reverse_reverse]
  exact foldl_normal _ trivial

theorem notMem_of_mem_normComps {s c : Str} (h : c ∈ normComps s) : '/' ∉ c := by
  unfold normComps at h
  rw [List.mem_reverse] at h
  rcases mem_foldl_normStep _ h with h | h
  · cases h
  · exact notMem_of_mem_split h

theorem Normal.ne_nil {r : Bool} {c : Str} : ∀ {acc : List Str}, Normal r acc → c ∈ acc → c ≠ [] ∧ c ≠ lit "."
  | a :: acc, h, hc => by
    rcases List.mem_cons.1 hc with rfl | hc
    · rcases h.2 with hplain | ⟨rfl, -⟩
      · exact ⟨hplain.1, hplain.2.1⟩
      · exact ⟨by decide, by decide⟩
    · exact Normal.ne_nil h.1 hc

/-- A rooted path has only plain components. -/
theorem Normal.plain {c : Str} : ∀ {acc : List Str}, Normal true acc → c ∈ acc → Plain c
  | a :: acc, h, hc => by
    rcases List.mem_cons.1 hc with rfl | hc
    · rcases h.2 with hplain | ⟨-, hr, -⟩
      · exact hplain
      · cases hr
    · exact Normal.plain h.1 hc

theorem plain_of_mem_normComps {s c : Str} (hs : rooted s = true) (h : c ∈ normComps s) : Plain c :=
  Normal.plain (hs ▸ normComps_normal s) (List.mem_reverse.2 h)

/-! ## Places -/

/-- The components of a path that goes on behind a slash. -/
theorem normComps_append {a : Str} (ha : a ≠ []) (t : Str) :
    normComps (a ++ '/' :: t) = ((split '/' t).foldl (normStep (rooted a)) (normComps a).reverse).reverse := by
  have hroot : startsWith (lit "/") (a ++ '/' :: t) = rooted a := rooted_append ha _
  unfold normComps
  rw [hroot, split_append_cons, List.foldl_append, List.reverse_reverse]
  rfl

theorem normComps_append_plain {a t : Str} (ha : a ≠ []) (h : ∀ c ∈ split '/' t, Plain c) :
    normComps (a ++ '/' :: t) = normComps a ++ split '/' t := by
  rw [normComps_append ha, foldl_plain h, List.reverse_append, List.reverse_reverse, List.reverse_reverse]

/-- Slashes in front are no components. -/
theorem normComps_slash (t : Str) : normComps ('/' :: t) = ((split '/' t).foldl (normStep true) []).reverse := by
  have hroot : startsWith (lit "/") ('/' :: t) = true := (rooted_cons '/' t).trans (by decide)
  have hempty : normStep true [] [] = [] := by simp [normStep]
  unfold normComps
  rw [hroot, show '/' :: t = [] ++ '/' :: t from rfl, split_append_cons]
  simp [split, hempty]

/-- A path of normal components behind its slashes has these components. -/
theorem normComps_join {r : Bool} {cs : List Str} (hn : Normal r cs.reverse) (hs : ∀ c ∈ cs, '/' ∉ c) {p : Str}
    (hp : p = join '/' cs ∧ r = false ∧ cs ≠ [] ∨ p = '/' :: join '/' cs ∧ r = true ∨
      p = '/' :: '/' :: join '/' cs ∧ r = true) : rooted p = r ∧ normComps p = cs := by
  have hfold : cs.foldl (normStep r) [] = cs.reverse := by
    have := foldl_reverse_of_normal hn
    rwa [List.reverse_reverse] at this
  have hempty : normStep true [] [] = [] := by simp [normStep]
  have hjoin : (split '/' (join '/' cs)).foldl (normStep r) [] = cs.reverse := by
    by_cases hcs : cs = []
    · subst hcs
      simp [join, split, normStep]
    · rw [split_join hcs hs, hfold]
  rcases hp with ⟨rfl, rfl, hcs⟩ | ⟨rfl, rfl⟩ | ⟨rfl, rfl⟩
  · have hroot : rooted (join '/' cs) = false := by
      obtain ⟨c, ds, rfl⟩ := List.exists_cons_of_ne_nil hcs
      have hc := hn.ne_nil (c := c) (by simp)
      obtain ⟨x, xs, rfl⟩ := List.exists_cons_of_ne_nil hc.1
      have hx : ('/' == x) = false := by
        have := hs (x :: xs) List.mem_cons_self
        simp only [List.mem_cons, not_or] at this
        simpa using this.1
      cases ds with
      | nil => rw [join, rooted_cons, hx]
      | cons d ds => rw [join, List.cons_append, rooted_cons, hx]; simp
    refine ⟨hroot, ?_⟩
    unfold normComps
    rw [show startsWith (lit "/") (join '/' cs) = false from hroot, hjoin, List.reverse_reverse]
  · exact ⟨by rw [rooted_cons]; decide, by rw [normComps_slash, hjoin, List.reverse_reverse]⟩
  · refine ⟨by rw [rooted_cons]; decide, ?_⟩
    rw [normComps_slash, show '/' :: join '/' cs = [] ++ '/' :: join '/' cs from rfl, split_append_cons,
      List.foldl_append]
    simp [split, hempty, hjoin]

/-- The three shapes of a normalized path. -/
theorem normpath_shape (s : Str) :
    (normpath s = lit "." ∧ rooted s = false ∧ normComps s = []) ∨
      (normpath s = join '/' (normComps s) ∧ rooted s = false ∧ normComps s ≠ []) ∨
      (normpath s = '/' :: join '/' (normComps s) ∧ rooted s = true) ∨
      (normpath s = '/' :: '/' :: join '/' (normComps s) ∧ rooted s = true ∧ ∃ u, s = '/' :: '/' :: u) := by
  unfold normpath initialSlashes
  simp only
  by_cases htwo : (startsWith (lit "//") s && !startsWith (lit "///") s) = true
  · have hpre := htwo
    rw [Bool.and_eq_true] at hpre
    obtain ⟨t, rfl⟩ := List.isPrefixOf_iff_prefix.1 hpre.1
    rw [if_pos htwo, if_neg (by simp)]
    exact Or.inr (Or.inr (Or.inr ⟨rfl, (rooted_cons '/' ('/' :: t)).trans (by decide), t, rfl⟩))
  · rw [if_neg htwo]
    by_cases hroot : rooted s = true
    · rw [if_pos (show startsWith (lit "/") s = true from hroot), if_neg (by simp)]
      exact Or.inr (Or.inr (Or.inl ⟨rfl, hroot⟩))
    · have hfalse : rooted s = false := by simpa using hroot
      rw [if_neg (show ¬ startsWith (lit "/") s = true from hroot), List.nil_append]
      by_cases hcs : normComps s = []
      · rw [hcs, if_pos (show join '/' [] = [] from rfl)]
        exact Or.inl ⟨rfl, hfalse, rfl⟩
      · rw [if_neg (join_ne_nil hcs fun c hc => ?_)]
        · exact Or.inr (Or.inl ⟨rfl, hfalse, hcs⟩)
        · exact ((normComps_normal s).ne_nil (List.mem_reverse.2 hc)).1

/-- **Normalizing does not move a path.** -/
theorem normpath_samePlace (s : Str) : SamePlace (normpath s) s := by
  have hn := normComps_normal s
  have hs : ∀ c ∈ normComps s, '/' ∉ c := fun c hc => notMem_of_mem_normComps hc
  rcases normpath_shape s with ⟨hp, hr, hcs⟩ | ⟨hp, hr, hcs⟩ | ⟨hp, hr⟩ | ⟨hp, hr, -⟩
  · rw [SamePlace, hp, hr, hcs]
    decide
  · rw [SamePlace, hr]
    exact normComps_join (hr ▸ hn) hs (Or.inl ⟨hp, rfl, hcs⟩)
  · rw [SamePlace, hr]
    exact normComps_join (hr ▸ hn) hs (Or.inr (Or.inl ⟨hp, rfl⟩))
  · rw [SamePlace, hr]
    exact normComps_join (hr ▸ hn) hs (Or.inr (Or.inr ⟨hp, rfl⟩))

/-! ## Going down from a normalized base -/

/-- `normpath(base).rstrip("/")` is empty for the root and leaves any other path as it is. -/
theorem rstrip_normpath (b : Str) :
    (rstrip '/' (normpath b) = [] ∧ rooted b = true ∧ normComps b = []) ∨
      (rstrip '/' (normpath b) = normpath b ∧ normpath b ≠ []) := by
  have hcomp : ∀ c ∈ normComps b, c ≠ [] ∧ '/' ∉ c := fun c hc =>
    ⟨((normComps_normal b).ne_nil (List.mem_reverse.2 hc)).1, notMem_of_mem_normComps hc⟩
  have hself : ∀ front : Str, normComps b ≠ [] →
      rstrip '/' (front ++ join '/' (normComps b)) = front ++ join '/' (normComps b) := by
    intro front hne
    obtain ⟨a, t, heq, ht, hslash⟩ := join_ends hne hcomp
    rw [heq, ← List.append_assoc]
    exact rstrip_append ht hslash
  rcases normpath_shape b with ⟨hp, -, -⟩ | ⟨hp, -, hcs⟩ | ⟨hp, hr⟩ | ⟨hp, hr, -⟩
  · rw [hp]
    exact Or.inr ⟨by decide, by decide⟩
  · rw [hp]
    exact Or.inr ⟨hself [] hcs, join_ne_nil hcs fun c hc => (hcomp c hc).1⟩
  · by_cases hcs : normComps b = []
    · rw [hp, hcs]
      exact Or.inl ⟨by decide, hr, rfl⟩
    · rw [hp]
      exact Or.inr ⟨hself ['/'] hcs, by simp⟩
  · by_cases hcs : normComps b = []
    · rw [hp, hcs]
      exact Or.inl ⟨by decide, hr, rfl⟩
    · rw [hp]
      exact Or.inr ⟨hself ['/', '/'] hcs, by simp⟩

/-- **A path below a normalized base** starts from the base's place. -/
theorem normComps_below (b t : Str) :
    rooted (rstrip '/' (normpath b) ++ '/' :: t) = rooted b ∧
      normComps (rstrip '/' (normpath b) ++ '/' :: t) =
        ((split '/' t).foldl (normStep (rooted b)) (normComps b).reverse).reverse := by
  rcases rstrip_normpath b with ⟨hb, hr, hcs⟩ | ⟨hb, hne⟩
  · rw [hb, hr, hcs]
    exact ⟨by rw [List.nil_append, rooted_cons]; decide, normComps_slash t⟩
  · obtain ⟨hroot, hcomps⟩ := normpath_samePlace b
    rw [hb, rooted_append hne, normComps_append hne, hroot, hcomps]
    exact ⟨rfl, rfl⟩

/-- Where a normalized rooted path lies below a normalized base: `rel` is what follows the base. -/
theorem rel_of_below {b x rel : Str} (hx : normpath x = '/' :: join '/' (normComps x)) (hroot : rooted x = true)
    (hb : rstrip '/' (normpath b) ≠ []) (hrel : rel = [] ∨ startsWith (lit "/") rel = true)
    (h : normpath x = rstrip '/' (normpath b) ++ rel) :
    rooted b = true ∧ ∃ rest, normComps x = normComps b ++ rest ∧ (∀ c ∈ rest, Plain c ∧ '/' ∉ c) ∧
      rel = (if rest = [] then [] else '/' :: join '/' rest) := by
  have hbase : rstrip '/' (normpath b) = normpath b := by
    rcases rstrip_normpath b with ⟨hnil, -⟩ | ⟨heq, -⟩
    · exact absurd hnil hb
    · exact heq
  rw [hbase] at h hb
  have hplace := normpath_samePlace x
  have hplaceb := normpath_samePlace b
  have hrootb : rooted b = true := by
    rw [← hplaceb.1, ← rooted_append hb rel, ← h, hplace.1, hroot]
  refine ⟨hrootb, ?_⟩
  rcases hrel with rfl | hrel
  · rw [List.append_nil] at h
    exact ⟨[], by rw [← hplace.2, h, hplaceb.2, List.append_nil], by simp, rfl⟩
  · obtain ⟨t, rfl⟩ := List.isPrefixOf_iff_prefix.1 hrel
    replace h : normpath x = normpath b ++ '/' :: t := h
    -- the components behind the base are among those of the path, so they are plain
    have hsplit : split '/' (normpath b) ++ split '/' t = [] :: split '/' (join '/' (normComps x)) := by
      rw [← split_append_cons, ← h, hx]
      exact split_append_cons '/' [] _
    have hne : normComps x ≠ [] := by
      intro hnil
      rw [hnil] at hx
      rw [hx] at h
      obtain ⟨y, ys, hy⟩ := List.exists_cons_of_ne_nil hb
      rw [hy] at h
      simp [join] at h
    have hcs : ∀ c ∈ normComps x, Plain c ∧ '/' ∉ c := fun c hc =>
      ⟨plain_of_mem_normComps hroot hc, notMem_of_mem_normComps hc⟩
    rw [split_join hne fun c hc => (hcs c hc).2] at hsplit
    obtain ⟨q, qs, hq⟩ := List.exists_cons_of_ne_nil (split_ne_nil '/' (normpath b))
    rw [hq, List.cons_append, List.cons.injEq] at hsplit
    have hrest : ∀ c ∈ split '/' t, Plain c ∧ '/' ∉ c := fun c hc => hcs c (hsplit.2 ▸ List.mem_append_right _ hc)
    refine ⟨split '/' t, ?_, hrest, ?_⟩
    · rw [← hplace.2, h, normComps_append_plain hb fun c hc => (hrest c hc).1, hplaceb.2]
    · rw [if_neg (split_ne_nil '/' t), join_split]
      rfl

/-! ## Only going down -/

/-- The folders of a text that only goes down. -/
def folders (t : Str) : List Str := (split '/' t).filter fun c => decide (c ≠ [] ∧ c ≠ lit ".")

/-- Two ways down from one base lead to one place iff their folders are the same. -/
theorem samePlace_below {a v w : Str} (hv : lit ".." ∉ split '/' v) (hw : lit ".." ∉ split '/' w) :
    SamePlace (a ++ '/' :: v) (a ++ '/' :: w) ↔ folders v = folders w := by
  by_cases ha : a = []
  · subst ha
    unfold SamePlace
    rw [List.nil_append, List.nil_append, rooted_cons, rooted_cons, normComps_slash, normComps_slash,
      foldl_goesDown hv, foldl_goesDown hw]
    simp [folders]
  · unfold SamePlace
    rw [rooted_append ha, rooted_append ha, normComps_append ha, normComps_append ha, foldl_goesDown hv, foldl_goesDown hw]
    simp [folders]

/-- Components without a `..` take nothing away. -/
theorem suffix_foldl_normStep {r : Bool} {cs : List Str} (h : lit ".." ∉ cs) : ∀ acc, acc <:+ cs.foldl (normStep r) acc := by
  induction cs with
  | nil => exact fun acc => List.suffix_refl acc
  | cons c cs ih =>
    intro acc
    simp only [List.mem_cons, not_or] at h
    refine List.IsSuffix.trans ?_ (ih h.2 _)
    unfold normStep
    split
    · exact List.suffix_refl acc
    · rw [if_pos (Or.inl (Ne.symm h.1))]
      exact List.suffix_cons c acc

theorem inside_append {a t : Str} (ha : a ≠ []) (h : lit ".." ∉ split '/' t) : Inside a (a ++ '/' :: t) := by
  refine ⟨rooted_append ha _, ?_⟩
  rw [normComps_append ha, ← List.reverse_suffix, List.reverse_reverse]
  exact suffix_foldl_normStep h _

theorem length_foldl_normStep {r : Bool} (cs : List Str) : ∀ acc,
    (cs.foldl (normStep r) acc).length ≤ acc.length + cs.length := by
  induction cs with
  | nil => exact fun acc => Nat.le_refl _
  | cons c cs ih =>
    intro acc
    have hstep : (normStep r acc c).length ≤ acc.length + 1 := by
      unfold normStep
      split
      · omega
      · split
        · rw [List.length_cons]
        · rw [List.length_tail]
          omega
    have := ih (normStep r acc c)
    rw [List.foldl_cons, List.length_cons]
    omega

theorem length_split_pos (c : Char) (s : Str) : 0 < (split c s).length := List.length_pos_iff.2 (split_ne_nil c s)

theorem split_slash (t : Str) : split '/' ('/' :: t) = [] :: split '/' t := split_append_cons '/' [] t

theorem length_split_join {cs : List Str} (hs : ∀ c ∈ cs, '/' ∉ c) {n : Nat} (hn : cs.length ≤ n) (hpos : 0 < n) :
    (split '/' (join '/' cs)).length ≤ n := by
  by_cases hcs : cs = []
  · rw [hcs]
    exact hpos
  · rwa [split_join hcs hs]

/-- Normalizing does not make a path longer. -/
theorem length_split_normpath (b : Str) : (split '/' (normpath b)).length ≤ (split '/' b).length := by
  have hs : ∀ c ∈ normComps b, '/' ∉ c := fun c hc => notMem_of_mem_normComps hc
  have hlen : ∀ u, (normComps ('/' :: u)).length ≤ (split '/' u).length := by
    intro u
    rw [normComps_slash, List.length_reverse]
    simpa using length_foldl_normStep (r := true) (split '/' u) []
  rcases normpath_shape b with ⟨hp, -⟩ | ⟨hp, -⟩ | ⟨hp, hr⟩ | ⟨hp, -, u, rfl⟩
  · rw [hp]
    exact length_split_pos '/' b
  · rw [hp]
    refine length_split_join hs ?_ (length_split_pos '/' b)
    unfold normComps
    rw [List.length_reverse]
    simpa using length_foldl_normStep (r := startsWith (lit "/") b) (split '/' b) []
  · obtain ⟨u, rfl⟩ := List.isPrefixOf_iff_prefix.1 hr
    rw [hp, split_slash, show lit "/" ++ u = '/' :: u from rfl, split_slash, List.length_cons, List.length_cons]
    exact Nat.succ_le_succ (length_split_join hs (hlen u) (length_split_pos '/' u))
  · rw [hp, split_slash, split_slash, split_slash, split_slash]
    simp only [List.length_cons]
    refine Nat.succ_le_succ (Nat.succ_le_succ (length_split_join hs ?_ (length_split_pos '/' u)))
    have hempty : normStep true [] [] = [] := by simp [normStep]
    rw [normComps_slash, split_slash, List.foldl_cons, hempty, List.length_reverse]
    simpa using length_foldl_normStep (r := true) (split '/' u) []

/-- A path that goes down from a normalized base and is also a continuation of a text with no fewer
components goes down there too. -/
theorem goesDown_of_append {t b v w : Str} (hv : lit ".." ∉ split '/' v) (hlen : (split '/' t).length ≤ (split '/' b).length)
    (h : rstrip '/' (normpath t) ++ '/' :: v = b ++ '/' :: w) : lit ".." ∉ split '/' w := by
  have hbase : (split '/' (rstrip '/' (normpath t))).length ≤ (split '/' b).length := by
    rcases rstrip_normpath t with ⟨hnil, -⟩ | ⟨heq, -⟩
    · rw [hnil]
      exact length_split_pos '/' b
    · rw [heq]
      exact Nat.le_trans (length_split_normpath t) hlen
  have hsplit := congrArg (split '/') h
  rw [split_append_cons, split_append_cons] at hsplit
  -- the text reaches at least as far as the base, so what follows it follows the base
  have hdrop : split '/' w = (split '/' v).drop ((split '/' b).length - (split '/' (rstrip '/' (normpath t))).length) := by
    have := congrArg (List.drop (split '/' b).length) hsplit
    rw [List.drop_left, List.drop_append, List.drop_of_length_le hbase, List.nil_append] at this
    exact this.symm
  rw [hdrop]
  exact fun hup => hv (List.mem_of_mem_drop hup)

theorem length_split (c : Char) (s : Str) : (split c s).length = s.count c + 1 := by
  induction s with
  | nil => rfl
  | cons x xs ih =>
    unfold split
    by_cases hx : x = c
    · rw [if_pos hx, List.length_cons, ih, hx, List.count_cons_self]
    · rw [if_neg hx, List.count_cons_of_ne hx]
      cases h : split c xs with
      | nil => exact absurd h (split_ne_nil c xs)
      | cons p ps =>
        rw [h] at ih
        simpa using ih

/-- Stripping blanks adds no component to a path. -/
theorem length_split_strip (s : Str) : (split '/' (strip s)).length ≤ (split '/' s).length := by
  have hsub : strip s <:+: s := (List.rdropWhile_prefix _ _).isInfix.trans (List.dropWhile_suffix _).isInfix
  rw [length_split, length_split]
  exact Nat.succ_le_succ (hsub.sublist.count_le '/')

end Str
end Lib
