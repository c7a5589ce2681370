import PiHerder.Lib.Under

/-!
# Which paths a backup may read

`validate_backup_path` with the allow and deny entries of a server (`services/backup_path_policy.py`). The
code compares texts: the path and every entry go through `normalize_path` once where they are read and once
more inside `_matches_prefix`. The policy itself is about places.

| here | there |
| --- | --- |
| `expanduser` | `os.path.expanduser` of `~` and `~/…`; `home` is `$HOME`, or else the password file's |
| `normalizePath` | `normalize_path` (61–76) |
| `matchesPrefix` | `_matches_prefix` (110–120) |
| `validateBackupPath` | `validate_backup_path` (137–178), its reasons as errors |
| `Allowed` | the policy: layers of rules on the component lists of places |
-/
namespace PiHerder.Backup
open Lib Lib.Str

/-! ## The code -/

def DEFAULT_DENY_PREFIXES : List Str :=
  [lit "/", lit "/boot", lit "/dev", lit "/proc", lit "/sys", lit "/run", lit "/tmp", lit "/var/run", lit "/etc",
    lit "/root", lit "/usr", lit "/bin", lit "/sbin", lit "/lib", lit "/lib64"]

def expanduser (home : Option Str) (p : Str) : Str :=
  match home with
  | none => p
  | some h =>
    let e := rstrip '/' h ++ p.drop 1
    if e = [] then lit "/" else e

def normalizePath (home : Option Str) (path : Str) : Str :=
  let p := strip path
  if p = [] then []
  else
    let p := normpath (if startsWith (lit "~/") p || p == lit "~" then expanduser home p else p)
    if !startsWith (lit "/") p then p
    else if p ≠ lit "/" && endsWith (lit "/") p then rstrip '/' p
    else p

/-- A server's `backup_path_rules`. -/
structure Rules where
  allow : List Str
  deny : List Str
deriving DecidableEq, Repr

def matchesPrefix (home : Option Str) (path pref : Str) : Bool :=
  let pathN := normalizePath home path
  let pref := normalizePath home pref
  if pathN = [] ∨ pref = [] then false
  -- only the root itself is the whole file system as a source
  else if pref = lit "/" then pathN == lit "/"
  else if pathN = pref then true
  else startsWith (pref ++ lit "/") pathN

/-- The first default entry that refuses `p`, with the reason. -/
def defaultDenied (home : Option Str) (p : Str) (allow : List Str) : List Str → Option Str
  | [] => none
  | d :: ds =>
    if matchesPrefix home p d then
      if d = lit "/" ∧ p = lit "/" then some (lit "Backing up filesystem root is not allowed")
      else if allow ≠ [] ∧ allow.any (matchesPrefix home p) then defaultDenied home p allow ds
      else some (lit "Denied by default policy: " ++ d ++ lit " (add an allow rule to override)")
    else defaultDenied home p allow ds

def validateBackupPath (home : Option Str) (path : Str) (rules : Rules) : Except Str Unit :=
  let raw := strip path
  if raw = [] then .error (lit "Path is empty")
  else
    let p := normalizePath home raw
    if !startsWith (lit "/") p then .error (lit "Path must be absolute (start with /)")
    else if lit ".." ∈ split '/' p then .error (lit "Path must not contain ..")
    else if '\x00' ∈ raw then .error (lit "Invalid path")
    else
      let allow := (rules.allow.filter (· ≠ [])).map (normalizePath home)
      let customDeny := (rules.deny.filter (· ≠ [])).map (normalizePath home)
      match customDeny.find? (matchesPrefix home p) with
      | some d => .error (lit "Denied by policy: " ++ d)
      | none =>
        match defaultDenied home p allow DEFAULT_DENY_PREFIXES with
        | some reason => .error reason
        | none =>
          if allow ≠ [] ∧ !allow.any (matchesPrefix home p) then .error (lit "Path is outside allow list")
          else .ok ()

/-! ## The policy -/

/-- The text a path or an entry stands for: without blanks around it, and with the home folder for `~`. -/
def given (home : Option Str) (path : Str) : Str :=
  let p := strip path
  if startsWith (lit "~/") p || p == lit "~" then expanduser home p else p

/-- `c` is the place `e` or below it; the root as an entry is the root alone. -/
def AtOrBelow (e c : List Str) : Prop := if e = [] then c = [] else e <+: c

instance (e c : List Str) : Decidable (AtOrBelow e c) := by
  unfold AtOrBelow
  infer_instance

/-- The place `c` is at or below an entry; a relative entry names no place. -/
def Covers (home : Option Str) (c : List Str) (entry : Str) : Prop :=
  rooted (given home entry) = true ∧ AtOrBelow (normComps (given home entry)) c

instance (home : Option Str) (c : List Str) : DecidablePred (Covers home c) := fun _ => inferInstanceAs (Decidable (_ ∧ _))

/-- Deny wins; the allow list, when there is one, is exhaustive; the defaults yield to it. -/
structure Permits {α : Type} (covers : α → Prop) (base allow deny : List α) : Prop where
  notDenied : ∀ d ∈ deny, ¬ covers d
  inAllowList : allow ≠ [] → ∃ a ∈ allow, covers a
  base : ∀ d ∈ base, covers d → ∃ a ∈ allow, covers a

/-- The entries of a rule set: an empty text is none. -/
def Rules.entries (l : List Str) : List Str := l.filter (· ≠ [])

/-- **The policy on places.** -/
structure Allowed (home : Option Str) (path : Str) (rules : Rules) : Prop where
  absolute : rooted (given home path) = true
  notRoot : normComps (given home path) ≠ []
  permits : Permits (Covers home (normComps (given home path))) DEFAULT_DENY_PREFIXES (Rules.entries rules.allow)
    (Rules.entries rules.deny)

/-! ## What the code reads -/

/-- `normalize_path` of a text that has been stripped and expanded. -/
def cleaned (y : Str) : Str :=
  let p := normpath y
  if !startsWith (lit "/") p then p
  else if p ≠ lit "/" && endsWith (lit "/") p then rstrip '/' p
  else p

/-- What the code compares of a path or an entry: normalized once where it is read, and once more to compare. -/
def reading (home : Option Str) (path : Str) : Str := normalizePath home (normalizePath home path)

/-- The one text of a rooted place. -/
def canonical (cs : List Str) : Str := '/' :: join '/' cs

/-- Components of a rooted place. -/
def Places (cs : List Str) : Prop := ∀ c ∈ cs, Plain c ∧ '/' ∉ c

theorem normalizePath_eq (home : Option Str) (path : Str) :
    normalizePath home path = if strip path = [] then [] else cleaned (given home path) := rfl

theorem normalizePath_strip (home : Option Str) (path : Str) : normalizePath home (strip path) = normalizePath home path := by
  rw [normalizePath_eq, normalizePath_eq, given, given, strip_strip]

theorem places_normComps {y : Str} (hy : rooted y = true) : Places (normComps y) := fun _ hc =>
  ⟨plain_of_mem_normComps hy hc, notMem_of_mem_normComps hc⟩

theorem Places.join_ne_nil {cs : List Str} (h : Places cs) (hne : cs ≠ []) : join '/' cs ≠ [] :=
  Str.join_ne_nil hne fun c hc => (h c hc).1.1

/-- The components of a place do not begin with a slash. -/
theorem Places.rooted_join {cs : List Str} (h : Places cs) (hne : cs ≠ []) : rooted (join '/' cs) = false := by
  obtain ⟨c, ds, rfl⟩ := List.exists_cons_of_ne_nil hne
  have hc := h c List.mem_cons_self
  obtain ⟨x, xs, rfl⟩ := List.exists_cons_of_ne_nil hc.1.1
  have hx : ('/' == x) = false := by
    have := hc.2
    simp only [List.mem_cons, not_or] at this
    simpa using this.1
  cases ds with
  | nil => rw [join, rooted_cons, hx]
  | cons d ds => rw [join, List.cons_append, rooted_cons, hx]; simp

theorem split_canonical {cs : List Str} (h : Places cs) (hne : cs ≠ []) : split '/' (canonical cs) = [] :: cs := by
  rw [canonical, split_slash, split_join hne fun c hc => (h c hc).2]

theorem rooted_slash (t : Str) : rooted ('/' :: t) = true := (rooted_cons '/' t).trans (by decide)

theorem normComps_canonical {cs : List Str} (h : Places cs) : normComps (canonical cs) = cs := by
  rw [canonical, normComps_slash]
  by_cases hne : cs = []
  · subst hne
    simp [join, split, normStep]
  · rw [split_join hne fun c hc => (h c hc).2, foldl_plain fun c hc => (h c hc).1]
    simp

/-- A text in front of the components that does not end in a slash itself. -/
theorem endsWith_join {cs : List Str} (h : Places cs) (hne : cs ≠ []) (front : Str) :
    endsWith (lit "/") (front ++ join '/' cs) = false := by
  obtain ⟨a, t, heq, ht, hslash⟩ := join_ends hne fun c hc => ⟨(h c hc).1.1, (h c hc).2⟩
  rw [heq, Bool.eq_false_iff]
  intro hend
  obtain ⟨u, hu⟩ := List.isSuffixOf_iff_suffix.1 hend
  have hlast := congrArg List.getLast? hu
  rw [← List.append_assoc, List.getLast?_append_of_ne_nil _ ht, List.getLast?_append_of_ne_nil _ (by decide)] at hlast
  exact hslash (List.mem_of_getLast? hlast.symm)

/-- The normalized text of a place other than the root. -/
theorem cleaned_eq {y : Str} (hy : rooted y = true) (hne : normComps y ≠ []) :
    cleaned y = initialSlashes y ++ join '/' (normComps y) := by
  have hp : normpath y = initialSlashes y ++ join '/' (normComps y) := by
    unfold normpath
    simp only
    rw [if_neg]
    simp [(places_normComps hy).join_ne_nil hne]
  unfold cleaned
  simp only
  rw [hp, endsWith_join (places_normComps hy) hne]
  simp

/-- The normalized text of the root is one slash, or nothing where two slashes were kept. -/
theorem cleaned_root {y : Str} (hy : rooted y = true) (hroot : normComps y = []) : cleaned y = lit "/" ∨ cleaned y = [] := by
  have hp : normpath y = initialSlashes y := by
    unfold normpath initialSlashes
    simp only [hroot, join, List.append_nil]
    rw [if_neg]
    split
    · decide
    · rw [if_pos (show startsWith (lit "/") y = true from hy)]
      decide
  unfold cleaned
  simp only
  rw [hp]
  unfold initialSlashes
  split
  · exact Or.inr (by decide)
  · rw [if_pos (show startsWith (lit "/") y = true from hy)]
    exact Or.inl (by decide)

/-! ## Texts that are read at their place -/

/-- A rooted text that does not begin with exactly two slashes, and whose last component does not end in a
blank; the root is one however it is written. -/
def PlainText (y : Str) : Prop :=
  normComps y = [] ∨ initialSlashes y ≠ lit "//" ∧ ∀ c ∈ (canonical (normComps y)).getLast?, isSpace c = false

theorem initialSlashes_rooted {y : Str} (hy : rooted y = true) : initialSlashes y = lit "//" ∨ initialSlashes y = lit "/" := by
  unfold initialSlashes
  split
  · exact Or.inl rfl
  · rw [if_pos (show startsWith (lit "/") y = true from hy)]
    exact Or.inr rfl

theorem initialSlashes_one {t : Str} (ht : rooted t = false) : initialSlashes ('/' :: t) = lit "/" := by
  have htwo : startsWith (lit "//") ('/' :: t) = false := ht
  unfold initialSlashes
  rw [htwo, if_neg (by simp)]
  exact if_pos (rooted_slash t)

theorem initialSlashes_two {t : Str} (ht : rooted t = false) : initialSlashes ('/' :: '/' :: t) = lit "//" := by
  have htwo : startsWith (lit "//") ('/' :: '/' :: t) = true := rfl
  have hthree : startsWith (lit "///") ('/' :: '/' :: t) = false := ht
  unfold initialSlashes
  rw [htwo, hthree, if_pos (by simp)]

theorem strip_slash (t : Str) : strip ('/' :: t) = '/' :: rstripWhere isSpace t :=
  strip_append (a := []) (by decide) t

theorem given_rooted (home : Option Str) {path : Str} (h : rooted (strip path) = true) : given home path = strip path := by
  obtain ⟨t, ht⟩ := List.isPrefixOf_iff_prefix.1 h
  have hslash : strip path = '/' :: t := ht.symm
  have hfolder : startsWith (lit "~/") ('/' :: t) = false := rfl
  have halone : ('/' :: t == lit "~") = false := rfl
  unfold given
  rw [hslash]
  simp only [hfolder, halone]
  rfl

theorem strip_ne_nil_of_rooted {home : Option Str} {path : Str} (h : rooted (given home path) = true) : strip path ≠ [] := by
  intro hnil
  have hgiven : given home path = [] := by
    unfold given
    rw [hnil]
    exact if_neg (by decide)
  rw [hgiven] at h
  cases h

theorem normalizePath_rooted {home : Option Str} {path : Str} (hr : rooted (given home path) = true) :
    normalizePath home path = cleaned (given home path) := by
  rw [normalizePath_eq, if_neg (strip_ne_nil_of_rooted hr)]

/-- The text of a place stays as it is, when no blank is at its end. -/
theorem normalizePath_canonical (home : Option Str) {cs : List Str} (h : Places cs) (hne : cs ≠ [])
    (hlast : ∀ c ∈ (canonical cs).getLast?, isSpace c = false) : normalizePath home (canonical cs) = canonical cs := by
  have hstrip : strip (canonical cs) = canonical cs :=
    strip_eq_self (fun c hc => by cases Option.some.inj hc; decide) hlast
  have hgiven : given home (canonical cs) = canonical cs := by
    rw [given_rooted home (by rw [hstrip]; exact rooted_slash _), hstrip]
  have hcomps := normComps_canonical h
  have hroot : rooted (canonical cs) = true := rooted_slash _
  rw [normalizePath_rooted (by rw [hgiven]; exact hroot), hgiven, cleaned_eq hroot (by rw [hcomps]; exact hne), hcomps,
    canonical, initialSlashes_one (h.rooted_join hne)]
  rfl

theorem reading_of_plain {home : Option Str} {path : Str} (hr : rooted (given home path) = true)
    (hne : normComps (given home path) ≠ []) (h : PlainText (given home path)) :
    reading home path = canonical (normComps (given home path)) := by
  obtain hroot | ⟨htwo, hlast⟩ := h
  · exact absurd hroot hne
  have hone : initialSlashes (given home path) = lit "/" := (initialSlashes_rooted hr).resolve_left htwo
  have hfirst : normalizePath home path = canonical (normComps (given home path)) := by
    rw [normalizePath_rooted hr, cleaned_eq hr hne, hone]
    rfl
  rw [reading, hfirst]
  exact normalizePath_canonical home (places_normComps hr) hne hlast

/-- Two slashes in front are still there after the second reading, or everything behind them is gone. -/
theorem reading_two {home : Option Str} {path : Str} (hr : rooted (given home path) = true)
    (hne : normComps (given home path) ≠ []) (h : initialSlashes (given home path) = lit "//") :
    reading home path = [] ∨ reading home path = lit "/" ∨ ∃ t, reading home path = '/' :: '/' :: t := by
  have hplaces := places_normComps hr
  have hfirst : normalizePath home path = '/' :: '/' :: join '/' (normComps (given home path)) := by
    rw [normalizePath_rooted hr, cleaned_eq hr hne, h]
    rfl
  obtain ⟨t, ht⟩ : ∃ t, t = rstripWhere isSpace (join '/' (normComps (given home path))) := ⟨_, rfl⟩
  have hstrip : strip (normalizePath home path) = '/' :: '/' :: t := by
    rw [hfirst, ht]
    exact strip_append (c := '/') (a := ['/']) (by decide) _
  have hroot : rooted t = false := by
    have hpre : t <+: join '/' (normComps (given home path)) := ht ▸ List.rdropWhile_prefix _ _
    rw [Bool.eq_false_iff]
    intro hslash
    have hjoin := hplaces.rooted_join hne
    rw [show rooted (join '/' (normComps (given home path))) = true from
      List.isPrefixOf_iff_prefix.2 ((List.isPrefixOf_iff_prefix.1 hslash).trans hpre)] at hjoin
    cases hjoin
  have hgiven : given home (normalizePath home path) = '/' :: '/' :: t := by
    rw [given_rooted home (by rw [hstrip]; exact rooted_slash _), hstrip]
  have hsecond : rooted (given home (normalizePath home path)) = true := by rw [hgiven]; exact rooted_slash _
  rw [reading, normalizePath_rooted hsecond]
  by_cases hcs : normComps (given home (normalizePath home path)) = []
  · exact (cleaned_root hsecond hcs).elim (fun hc => Or.inr (Or.inl hc)) Or.inl
  · rw [cleaned_eq hsecond hcs, hgiven, initialSlashes_two hroot]
    exact Or.inr (Or.inr ⟨_, rfl⟩)

theorem length_cleaned_le {y : Str} (hy : y ≠ []) : (cleaned y).length ≤ y.length := by
  have hle := length_normpath_le hy
  unfold cleaned
  simp only
  split
  · exact hle
  · split
    · exact Nat.le_trans (List.rdropWhile_prefix _ _).length_le hle
    · exact hle

/-- A blank at the end is taken off by the second reading, so another text is compared. -/
theorem reading_blank {home : Option Str} {path : Str} (hr : rooted (given home path) = true)
    (hne : normComps (given home path) ≠ []) (hone : initialSlashes (given home path) = lit "/") {c : Char}
    (hc : (canonical (normComps (given home path))).getLast? = some c) (hblank : isSpace c = true) :
    reading home path ≠ canonical (normComps (given home path)) := by
  have hfirst : normalizePath home path = canonical (normComps (given home path)) := by
    rw [normalizePath_rooted hr, cleaned_eq hr hne, hone]
    rfl
  obtain ⟨C, hC⟩ : ∃ C, C = canonical (normComps (given home path)) := ⟨_, rfl⟩
  rw [reading, hfirst, ← hC]
  rw [← hC] at hc
  have hstrip : strip C ≠ C := by
    intro hself
    have := last_strip (s := C) (c := c) (by rw [hself]; exact hc)
    rw [hblank] at this
    cases this
  have hpart : strip C <:+: C := (List.rdropWhile_prefix _ _).isInfix.trans (List.dropWhile_suffix _).isInfix
  have hlt : (strip C).length < C.length :=
    Nat.lt_of_le_of_ne hpart.length_le fun heq => hstrip (hpart.eq_of_length heq)
  have hrooted : rooted (strip C) = true := by
    rw [hC, canonical, strip_slash]
    exact rooted_slash _
  intro hself
  rw [normalizePath_rooted (by rw [given_rooted home hrooted]; exact hrooted), given_rooted home hrooted] at hself
  have hle := length_cleaned_le (y := strip C) (by rintro hnil; rw [hnil] at hrooted; cases hrooted)
  rw [hself] at hle
  omega

/-- **A text is compared as the place it names iff it is plain.** -/
theorem reading_iff {home : Option Str} {path : Str} (hr : rooted (given home path) = true)
    (hne : normComps (given home path) ≠ []) :
    reading home path = canonical (normComps (given home path)) ↔ PlainText (given home path) := by
  refine ⟨fun h => Or.inr ?_, reading_of_plain hr hne⟩
  have hplaces := places_normComps hr
  have htwo : initialSlashes (given home path) ≠ lit "//" := by
    intro htwo
    rcases reading_two hr hne htwo with h0 | h0 | ⟨t, h0⟩
    · rw [h0] at h
      cases h
    · rw [h0] at h
      exact hplaces.join_ne_nil hne (List.cons.inj h).2.symm
    · rw [h0] at h
      have hjoin := hplaces.rooted_join hne
      rw [← (List.cons.inj h).2, rooted_slash] at hjoin
      cases hjoin
  refine ⟨htwo, fun c hc => ?_⟩
  cases hblank : isSpace c with
  | false => rfl
  | true => exact absurd h (reading_blank hr hne ((initialSlashes_rooted hr).resolve_left htwo) hc hblank)

/-! ## What an entry reaches -/

/-- `_matches_prefix` on normalized texts. -/
def Reaches (pref pathN : Str) : Prop :=
  pathN ≠ [] ∧ pref ≠ [] ∧ if pref = lit "/" then pathN = lit "/" else Under pref pathN

theorem matchesPrefix_iff {home : Option Str} {path pref : Str} :
    matchesPrefix home path pref = true ↔ Reaches (normalizePath home pref) (normalizePath home path) := by
  unfold matchesPrefix Reaches Under
  simp only
  by_cases hnil : normalizePath home path = [] ∨ normalizePath home pref = []
  · rw [if_pos hnil]
    rcases hnil with hnil | hnil <;> simp [hnil]
  · rw [if_neg hnil]
    rw [not_or] at hnil
    by_cases hroot : normalizePath home pref = lit "/"
    · rw [if_pos hroot, if_pos hroot, beq_iff_eq]
      exact ⟨fun h => ⟨hnil.1, hnil.2, h⟩, fun h => h.2.2⟩
    · rw [if_neg hroot, if_neg hroot]
      by_cases heq : normalizePath home path = normalizePath home pref
      · rw [if_pos heq]
        exact ⟨fun _ => ⟨hnil.1, hnil.2, Or.inl heq⟩, fun _ => rfl⟩
      · rw [if_neg heq]
        exact ⟨fun h => ⟨hnil.1, hnil.2, Or.inr h⟩, fun h => h.2.2.resolve_left heq⟩

theorem Reaches.refl {x : Str} (hx : x ≠ []) : Reaches x x := by
  refine ⟨hx, hx, ?_⟩
  split
  · rename_i h
    exact h
  · exact Under.refl x

theorem Reaches.antisymm {a b : Str} (hab : Reaches a b) (hba : Reaches b a) : a = b := by
  have ha := hab.2.2
  have hb := hba.2.2
  by_cases haroot : a = lit "/"
  · rw [if_pos haroot] at ha
    rw [haroot, ha]
  · by_cases hbroot : b = lit "/"
    · rw [if_pos hbroot] at hb
      exact absurd hb haroot
    · rw [if_neg haroot] at ha
      rw [if_neg hbroot] at hb
      exact ha.antisymm hb

theorem canonical_ne_root {cs : List Str} (h : Places cs) (hne : cs ≠ []) : canonical cs ≠ lit "/" := fun heq =>
  h.join_ne_nil hne (List.cons.inj heq).2

/-- **On the texts of places the code compares places.** -/
theorem reaches_canonical {ds cs : List Str} (hd : Places ds) (hc : Places cs) (hdne : ds ≠ []) (hcne : cs ≠ []) :
    Reaches (canonical ds) (canonical cs) ↔ ds <+: cs := by
  unfold Reaches
  rw [if_neg (canonical_ne_root hd hdne), under_iff, split_canonical hd hdne, split_canonical hc hcne]
  simp [canonical, List.cons_prefix_cons]

/-- A text that is not rooted reaches no rooted one. -/
theorem not_reaches_of_relative {pref : Str} (h : rooted pref = false) {x : Str} (hx : rooted x = true) : ¬ Reaches pref x := by
  rintro ⟨-, hne, hreach⟩
  have hroot : pref ≠ lit "/" := by
    rintro rfl
    cases h
  rw [if_neg hroot] at hreach
  rcases hreach with rfl | hpre
  · rw [h] at hx
    cases hx
  · obtain ⟨t, rfl⟩ := List.isPrefixOf_iff_prefix.1 hpre
    rw [List.append_assoc, rooted_append hne, h] at hx
    cases hx

/-! ## The verdict of the code -/

theorem Permits.congr {α : Type} {covers covers' : α → Prop} {base allow deny : List α}
    (h : ∀ e ∈ base ++ (allow ++ deny), (covers e ↔ covers' e)) :
    Permits covers base allow deny ↔ Permits covers' base allow deny := by
  simp only [List.mem_append] at h
  have hallow : (∃ a ∈ allow, covers a) ↔ ∃ a ∈ allow, covers' a :=
    exists_congr fun a => and_congr_right fun ha => h a (Or.inr (Or.inl ha))
  constructor
  · rintro ⟨hd, ha, hb⟩
    exact ⟨fun d hm => (h d (Or.inr (Or.inr hm))).not.1 (hd d hm), fun hne => hallow.1 (ha hne),
      fun d hm hc => hallow.1 (hb d hm ((h d (Or.inl hm)).2 hc))⟩
  · rintro ⟨hd, ha, hb⟩
    exact ⟨fun d hm => (h d (Or.inr (Or.inr hm))).not.2 (hd d hm), fun hne => hallow.2 (ha hne),
      fun d hm hc => hallow.2 (hb d hm ((h d (Or.inl hm)).1 hc))⟩

theorem defaultDenied_eq_none {home : Option Str} {p : Str} {allow : List Str} (ds : List Str) :
    defaultDenied home p allow ds = none ↔ ∀ d ∈ ds, matchesPrefix home p d = true →
      ¬ (d = lit "/" ∧ p = lit "/") ∧ ∃ a ∈ allow, matchesPrefix home p a = true := by
  induction ds with
  | nil => simp [defaultDenied]
  | cons d ds ih =>
    rw [defaultDenied, List.forall_mem_cons]
    by_cases hm : matchesPrefix home p d = true
    · rw [if_pos hm]
      by_cases hroot : d = lit "/" ∧ p = lit "/"
      · rw [if_pos hroot]
        exact ⟨fun h => (nomatch h), fun h => absurd hroot (h.1 hm).1⟩
      · rw [if_neg hroot]
        by_cases hallow : allow ≠ [] ∧ allow.any (matchesPrefix home p) = true
        · rw [if_pos hallow, ih]
          exact ⟨fun h => ⟨fun _ => ⟨hroot, List.any_eq_true.1 hallow.2⟩, h⟩, fun h => h.2⟩
        · rw [if_neg hallow]
          refine ⟨fun h => (nomatch h), fun h => absurd ?_ hallow⟩
          obtain ⟨a, ha, hma⟩ := (h.1 hm).2
          exact ⟨List.ne_nil_of_mem ha, List.any_eq_true.2 ⟨a, ha, hma⟩⟩
    · rw [if_neg hm, ih]
      exact ⟨fun h => ⟨fun hm' => absurd hm' hm, h⟩, fun h => h.2⟩

/-- The built-in entries are compared as they stand. -/
theorem normalizePath_default (home : Option Str) {d : Str} (hd : d ∈ DEFAULT_DENY_PREFIXES) :
    normalizePath home d = d ∧ given home d = d := by
  have hall : ∀ d ∈ DEFAULT_DENY_PREFIXES, strip d = d ∧ rooted d = true ∧ cleaned d = d := by decide +kernel
  obtain ⟨hstrip, hroot, hclean⟩ := hall d hd
  have hgiven : given home d = d := by rw [given_rooted home (by rw [hstrip]; exact hroot), hstrip]
  exact ⟨by rw [normalizePath_rooted (by rw [hgiven]; exact hroot), hgiven, hclean], hgiven⟩

/-- The text of a rooted path that is not the root, before it is compared. -/
theorem normalizePath_place {home : Option Str} {path : Str} (hr : rooted (given home path) = true)
    (hne : normComps (given home path) ≠ []) :
    rooted (normalizePath home path) = true ∧ lit ".." ∉ split '/' (normalizePath home path) ∧
      normalizePath home path ≠ lit "/" := by
  have hplaces := places_normComps hr
  have hup : lit ".." ∉ normComps (given home path) := fun hup => (hplaces _ hup).1.2.2 rfl
  have hjoin : split '/' (join '/' (normComps (given home path))) = normComps (given home path) :=
    split_join hne fun c hc => (hplaces c hc).2
  rw [normalizePath_rooted hr, cleaned_eq hr hne]
  rcases initialSlashes_rooted hr with htwo | hone
  · have hsplit : split '/' (lit "//" ++ join '/' (normComps (given home path))) = [] :: [] :: normComps (given home path) := by
      show split '/' ('/' :: '/' :: join '/' (normComps (given home path))) = _
      rw [split_slash, split_slash, hjoin]
    rw [htwo, hsplit]
    refine ⟨rooted_slash _, ?_, fun heq => ?_⟩
    · simpa using hup
    · cases heq
  · have hsplit : split '/' (lit "/" ++ join '/' (normComps (given home path))) = [] :: normComps (given home path) := by
      show split '/' ('/' :: join '/' (normComps (given home path))) = _
      rw [split_slash, hjoin]
    rw [hone, hsplit]
    refine ⟨rooted_slash _, ?_, fun heq => hplaces.join_ne_nil hne (List.cons.inj heq).2⟩
    simpa using hup

theorem cleaned_relative {y : Str} (hy : rooted y = false) : rooted (cleaned y) = false := by
  have hp : rooted (normpath y) = false := (normpath_samePlace y).1.trans hy
  have hstart : startsWith (lit "/") (normpath y) = false := hp
  unfold cleaned
  simp only [hstart]
  exact hp

/-- The root, and whatever is relative, is refused. -/
theorem validateBackupPath_noPlace {home : Option Str} {path : Str} {rules : Rules}
    (h : rooted (given home path) = false ∨ normComps (given home path) = []) : validateBackupPath home path rules ≠ .ok () := by
  unfold validateBackupPath
  simp only
  rw [normalizePath_strip]
  by_cases hnil : strip path = []
  · rw [if_pos hnil]
    exact fun h => nomatch h
  rw [if_neg hnil]
  by_cases hstart : (!startsWith (lit "/") (normalizePath home path)) = true
  · rw [if_pos hstart]
    exact fun h => nomatch h
  rw [if_neg hstart]
  have hroot : normalizePath home path = lit "/" := by
    rw [normalizePath_eq, if_neg hnil] at hstart ⊢
    cases hr : rooted (given home path) with
    | false =>
      have : startsWith (lit "/") (cleaned (given home path)) = false := cleaned_relative hr
      simp [this] at hstart
    | true =>
      rcases cleaned_root hr (h.resolve_left (by simp [hr])) with hc | hc
      · exact hc
      · rw [hc] at hstart
        exact absurd rfl hstart
  have hself : matchesPrefix home (lit "/") (lit "/") = true := by
    have hd := (normalizePath_default home (d := lit "/") List.mem_cons_self).1
    rw [matchesPrefix_iff, hd]
    exact Reaches.refl (by decide)
  rw [hroot]
  intro hok
  split at hok
  · cases hok
  · split at hok
    · cases hok
    · split at hok
      · cases hok
      · split at hok
        · cases hok
        · rename_i hnone
          exact ((defaultDenied_eq_none _).1 hnone (lit "/") List.mem_cons_self hself).1 ⟨rfl, rfl⟩

/-- **What the code checks**, on the texts it compares. -/
theorem validateBackupPath_eq_ok {home : Option Str} {path : Str} {rules : Rules} (hr : rooted (given home path) = true)
    (hne : normComps (given home path) ≠ []) :
    validateBackupPath home path rules = .ok () ↔
      '\x00' ∉ strip path ∧ Permits (fun e => Reaches (reading home e) (reading home path)) DEFAULT_DENY_PREFIXES
        (Rules.entries rules.allow) (Rules.entries rules.deny) := by
  obtain ⟨hstart, hup, hroot⟩ := normalizePath_place hr hne
  have hstart : startsWith (lit "/") (normalizePath home path) = true := hstart
  have hmatch : ∀ e, matchesPrefix home (normalizePath home path) (normalizePath home e) = true ↔
      Reaches (reading home e) (reading home path) := fun e => matchesPrefix_iff
  have hmatchDefault : ∀ d ∈ DEFAULT_DENY_PREFIXES, (matchesPrefix home (normalizePath home path) d = true ↔
      Reaches (reading home d) (reading home path)) := by
    intro d hd
    rw [← hmatch, (normalizePath_default home hd).1]
  have hallow : (∃ a ∈ (rules.allow.filter (· ≠ [])).map (normalizePath home),
        matchesPrefix home (normalizePath home path) a = true) ↔
      ∃ a ∈ Rules.entries rules.allow, Reaches (reading home a) (reading home path) := by
    simp only [List.mem_map, Rules.entries]
    constructor
    · rintro ⟨_, ⟨a, ha, rfl⟩, hm⟩
      exact ⟨a, ha, (hmatch a).1 hm⟩
    · rintro ⟨a, ha, hm⟩
      exact ⟨_, ⟨a, ha, rfl⟩, (hmatch a).2 hm⟩
  have hdefaults : defaultDenied home (normalizePath home path) ((rules.allow.filter (· ≠ [])).map (normalizePath home))
        DEFAULT_DENY_PREFIXES = none ↔ ∀ d ∈ DEFAULT_DENY_PREFIXES, Reaches (reading home d) (reading home path) →
          ∃ a ∈ Rules.entries rules.allow, Reaches (reading home a) (reading home path) := by
    rw [defaultDenied_eq_none, hallow]
    refine forall₂_congr fun d hd => ?_
    rw [hmatchDefault d hd]
    exact forall_congr' fun _ => and_iff_right fun hboth => hroot hboth.2
  have hcustom : ((rules.deny.filter (· ≠ [])).map (normalizePath home)).find? (matchesPrefix home (normalizePath home path)) = none ↔
      ∀ d ∈ Rules.entries rules.deny, ¬ Reaches (reading home d) (reading home path) := by
    rw [List.find?_eq_none, List.forall_mem_map]
    exact forall₂_congr fun d _ => (hmatch d).not
  have hempty : (rules.allow.filter (· ≠ [])).map (normalizePath home) ≠ [] ↔ Rules.entries rules.allow ≠ [] := by
    simp [Rules.entries]
  unfold validateBackupPath
  simp only
  rw [normalizePath_strip, if_neg (strip_ne_nil_of_rooted hr), hstart, if_neg (by simp), if_neg hup]
  by_cases hnul : '\x00' ∈ strip path
  · rw [if_pos hnul]
    exact ⟨fun h => (nomatch h), fun h => absurd hnul h.1⟩
  rw [if_neg hnul]
  constructor
  · intro hok
    split at hok
    · cases hok
    · rename_i hc
      split at hok
      · cases hok
      · rename_i hd
        split at hok
        · cases hok
        · rename_i ha
          refine ⟨hnul, hcustom.1 hc, fun hal => ?_, hdefaults.1 hd⟩
          rw [not_and, Bool.not_eq_true, Bool.not_eq_false'] at ha
          exact hallow.1 (List.any_eq_true.1 (ha (hempty.2 hal)))
  · rintro ⟨-, hp⟩
    rw [hcustom.2 hp.notDenied, hdefaults.2 hp.base]
    refine if_neg ?_
    rintro ⟨hal, hany⟩
    rw [Bool.not_eq_true'] at hany
    have := List.any_eq_true.2 (hallow.2 (hp.inAllowList (hempty.1 hal)))
    rw [hany] at this
    cases this

/-! ## The policy is met where texts are plain -/

/-- A path that is taken for the place it names. What is relative or the root is refused in any case. -/
def PlainPath (home : Option Str) (path : Str) : Prop :=
  rooted (given home path) = true → normComps (given home path) ≠ [] → '\x00' ∉ strip path ∧ PlainText (given home path)

/-- An entry that is taken for the place it names: a relative one has to stay relative when it is read again. -/
structure PlainEntry (home : Option Str) (e : Str) : Prop where
  placed : rooted (given home e) = true → PlainText (given home e)
  relative : rooted (given home e) = false → rooted (given home (normpath (given home e))) = false

/-- The policy on the place of the path, with every entry as the code reads it. -/
structure AllowedAsRead (home : Option Str) (path : Str) (rules : Rules) : Prop where
  absolute : rooted (given home path) = true
  notRoot : normComps (given home path) ≠ []
  permits : Permits (fun e => Reaches (reading home e) (canonical (normComps (given home path)))) DEFAULT_DENY_PREFIXES
    (Rules.entries rules.allow) (Rules.entries rules.deny)

theorem rooted_reading_relative {home : Option Str} {e : Str} (hr : rooted (given home e) = false)
    (hrel : rooted (given home (normpath (given home e))) = false) : rooted (reading home e) = false := by
  have hstart : startsWith (lit "/") (normpath (given home e)) = false := (normpath_samePlace _).1.trans hr
  have hclean : cleaned (given home e) = normpath (given home e) := by
    unfold cleaned
    simp only [hstart]
    rfl
  have hempty : rooted ([] : Str) = false := rfl
  unfold reading
  rw [normalizePath_eq home e]
  split
  · exact hempty
  · rw [hclean, normalizePath_eq]
    split
    · exact hempty
    · exact cleaned_relative hrel

theorem reading_root {home : Option Str} {e : Str} (hr : rooted (given home e) = true) (hroot : normComps (given home e) = []) :
    reading home e = lit "/" ∨ reading home e = [] := by
  unfold reading
  rw [normalizePath_rooted hr]
  rcases cleaned_root hr hroot with hc | hc
  · rw [hc, (normalizePath_default home (d := lit "/") List.mem_cons_self).1]
    exact Or.inl rfl
  · rw [hc]
    exact Or.inr rfl

/-- A plain entry reaches the places at or below its own. -/
theorem PlainEntry.reaches_iff {home : Option Str} {e : Str} (h : PlainEntry home e) {cs : List Str} (hc : Places cs)
    (hne : cs ≠ []) : Reaches (reading home e) (canonical cs) ↔ Covers home cs e := by
  unfold Covers AtOrBelow
  cases hr : rooted (given home e) with
  | false =>
    have hno := not_reaches_of_relative (rooted_reading_relative hr (h.relative hr)) (rooted_slash (join '/' cs))
    exact ⟨fun hreach => absurd hreach hno, fun hcov => nomatch hcov.1⟩
  | true =>
    by_cases hroot : normComps (given home e) = []
    · rw [if_pos hroot]
      refine ⟨fun hreach => ?_, fun hcov => absurd hcov.2 hne⟩
      rcases reading_root hr hroot with hread | hread
      · rw [hread, Reaches, if_pos rfl] at hreach
        exact absurd hreach.2.2 (canonical_ne_root hc hne)
      · exact absurd hread hreach.2.1
    · rw [if_neg hroot, reading_of_plain hr hroot (h.placed hr), reaches_canonical (places_normComps hr) hc hroot hne]
      exact ⟨fun hpre => ⟨rfl, hpre⟩, fun hcov => hcov.2⟩

theorem plainEntry_default (home : Option Str) {d : Str} (hd : d ∈ DEFAULT_DENY_PREFIXES) : PlainEntry home d := by
  have hall : ∀ d ∈ DEFAULT_DENY_PREFIXES, rooted d = true ∧
      (normComps d = [] ∨ initialSlashes d ≠ lit "//" ∧ ((canonical (normComps d)).getLast?.all fun c => !isSpace c) = true) := by
    decide +kernel
  obtain ⟨hroot, hplain⟩ := hall d hd
  have hgiven := (normalizePath_default home hd).2
  refine ⟨fun _ => ?_, fun hrel => ?_⟩
  · rw [hgiven]
    refine hplain.imp_right fun h => ⟨h.1, fun c hc => ?_⟩
    simpa [Option.mem_def.1 hc] using h.2
  · rw [hgiven, hroot] at hrel
    cases hrel

/-- With plain entries the policy on their texts is the policy on their places. -/
theorem allowedAsRead_iff_allowed {home : Option Str} {path : Str} {rules : Rules}
    (he : ∀ e ∈ rules.allow ++ rules.deny, PlainEntry home e) : AllowedAsRead home path rules ↔ Allowed home path rules := by
  have hplain : ∀ e ∈ DEFAULT_DENY_PREFIXES ++ (Rules.entries rules.allow ++ Rules.entries rules.deny), PlainEntry home e := by
    simp only [Rules.entries, List.mem_append, List.mem_filter] at he ⊢
    rintro e (hd | ha | hd)
    · exact plainEntry_default home hd
    · exact he e (Or.inl ha.1)
    · exact he e (Or.inr hd.1)
  constructor
  · rintro ⟨hr, hne, hp⟩
    exact ⟨hr, hne, (Permits.congr fun e hm => (hplain e hm).reaches_iff (places_normComps hr) hne).1 hp⟩
  · rintro ⟨hr, hne, hp⟩
    exact ⟨hr, hne, (Permits.congr fun e hm => (hplain e hm).reaches_iff (places_normComps hr) hne).2 hp⟩

/-- A plain path gets the verdict of its place. -/
theorem PlainPath.verdict {home : Option Str} {path : Str} (h : PlainPath home path) (rules : Rules) :
    validateBackupPath home path rules = .ok () ↔ AllowedAsRead home path rules := by
  by_cases hno : rooted (given home path) = false ∨ normComps (given home path) = []
  · refine ⟨fun hok => absurd hok (validateBackupPath_noPlace hno), fun hal => ?_⟩
    rcases hno with hr | hroot
    · exact absurd hal.absolute (by simp [hr])
    · exact absurd hroot hal.notRoot
  · rw [not_or, Bool.not_eq_false] at hno
    obtain ⟨hr, hne⟩ := hno
    obtain ⟨hnul, hplain⟩ := h hr hne
    rw [validateBackupPath_eq_ok hr hne, reading_of_plain hr hne hplain]
    exact ⟨fun hok => ⟨hr, hne, hok.2⟩, fun hal => ⟨hnul, hal.permits⟩⟩

/-! ## Any other text is misjudged -/

/-- An entry that is compared as `canonical cs`, also where the last component ends in a blank. -/
def entryOf (cs : List Str) : Str := canonical cs ++ '/' :: lit " /."

theorem reading_entryOf (home : Option Str) {cs : List Str} (h : Places cs) (hne : cs ≠ []) :
    reading home (entryOf cs) = canonical cs := by
  have hblank : lit " " ≠ [] ∧ Plain (lit " ") ∧ '/' ∉ lit " " := by decide
  have hgo : Places (cs ++ [lit " "]) := fun c hc => by
    rcases List.mem_append.1 hc with hc | hc
    · exact h c hc
    · rw [List.mem_singleton.1 hc]
      exact hblank.2
  have hroot : ∀ t, rooted (canonical cs ++ t) = true := fun t => rooted_slash _
  have hone : ∀ t, initialSlashes (canonical cs ++ t) = lit "/" := fun t =>
    initialSlashes_one ((rooted_append (h.join_ne_nil hne) t).trans (h.rooted_join hne))
  have hcomps : ∀ t, normComps (canonical cs ++ '/' :: t) = ((split '/' t).foldl (normStep true) cs.reverse).reverse := fun t => by
    rw [normComps_append (by simp [canonical]), normComps_canonical h, show rooted (canonical cs) = true from rooted_slash _]
  -- the first reading leaves a component of one blank at the end
  have hstrip : strip (entryOf cs) = entryOf cs :=
    strip_eq_self (fun c hc => by cases Option.some.inj hc; decide) fun c hc => by
      unfold entryOf at hc
      rw [List.getLast?_append_of_ne_nil _ (by simp)] at hc
      cases Option.some.inj hc
      decide
  have hgiven : given home (entryOf cs) = entryOf cs := by
    rw [given_rooted home (by rw [hstrip]; exact hroot _), hstrip]
  have hgo1 : normComps (entryOf cs) = cs ++ [lit " "] := by
    have hsplit : split '/' (lit " /.") = [lit " ", lit "."] := by decide
    have hdot : ∀ acc, normStep true acc (lit ".") = acc := fun acc => if_pos (Or.inr rfl)
    rw [entryOf, hcomps, hsplit, List.foldl_cons, normStep_plain hblank.2.1, List.foldl_cons, hdot]
    simp
  have hfirst : normalizePath home (entryOf cs) = canonical cs ++ '/' :: lit " " := by
    have hrooted : rooted (entryOf cs) = true := hroot _
    rw [normalizePath_rooted (by rw [hgiven]; exact hrooted), hgiven, cleaned_eq hrooted (by rw [hgo1]; simp), hgo1, entryOf,
      hone, join_append '/' hne (by simp)]
    rfl
  -- the second one strips it, and then the slash in front of it
  have hstrip2 : strip (canonical cs ++ '/' :: lit " ") = canonical cs ++ lit "/" := by
    rw [strip_append (c := '/') (by decide)]
    rfl
  have hgiven2 : given home (canonical cs ++ '/' :: lit " ") = canonical cs ++ lit "/" := by
    rw [given_rooted home (by rw [hstrip2]; exact hroot _), hstrip2]
  have hgo2 : normComps (canonical cs ++ lit "/") = cs := by
    rw [show lit "/" = '/' :: [] from rfl, hcomps]
    simp [split, normStep]
  rw [reading, hfirst, normalizePath_rooted (by rw [hgiven2]; exact hroot _), hgiven2,
    cleaned_eq (hroot _) (by rw [hgo2]; exact hne), hgo2, hone]
  rfl

theorem entries_singleton {e : Str} (he : e ≠ []) : Rules.entries [e] = [e] := by simp [Rules.entries, he]

theorem ne_nil_of_strip {p : Str} (h : strip p ≠ []) : p ≠ [] := by
  rintro rfl
  exact h rfl

/-- **A path that always gets the verdict of its place is plain.** -/
theorem plainPath_of_verdict {home : Option Str} {path : Str}
    (h : ∀ rules, validateBackupPath home path rules = .ok () ↔ AllowedAsRead home path rules) : PlainPath home path := by
  intro hr hne
  have hplaces := places_normComps hr
  have hmem : canonical (normComps (given home path)) ≠ [] := by simp [canonical]
  have hentry : entryOf (normComps (given home path)) ≠ [] := by simp [entryOf, canonical]
  have hpath : path ≠ [] := ne_nil_of_strip (strip_ne_nil_of_rooted hr)
  have hread := reading_entryOf home hplaces hne
  -- with its own place on the allow list the path is allowed, so the code has to accept it
  have hown : AllowedAsRead home path ⟨[entryOf (normComps (given home path))], []⟩ := by
    have hcov : ∃ a ∈ Rules.entries [entryOf (normComps (given home path))],
        Reaches (reading home a) (canonical (normComps (given home path))) := by
      rw [entries_singleton hentry]
      exact ⟨_, List.mem_singleton_self _, by rw [hread]; exact Reaches.refl hmem⟩
    exact ⟨hr, hne, fun d hd => (nomatch hd), fun _ => hcov, fun _ _ _ => hcov⟩
  obtain ⟨hnul, hp⟩ := (validateBackupPath_eq_ok hr hne).1 ((h _).2 hown)
  refine ⟨hnul, (reading_iff hr hne).1 ?_⟩
  have hbelow : Reaches (canonical (normComps (given home path))) (reading home path) := by
    rw [entries_singleton hentry] at hp
    obtain ⟨a, ha, hreach⟩ := hp.inAllowList (by simp)
    rw [List.mem_singleton.1 ha, hread] at hreach
    exact hreach
  -- and what is read is the place itself: an entry for what is read denies the path
  have habove : Reaches (reading home path) (canonical (normComps (given home path))) := by
    by_contra hnot
    have hal : AllowedAsRead home path ⟨[entryOf (normComps (given home path))], [path]⟩ := by
      refine ⟨hr, hne, fun d hd => ?_, hown.permits.inAllowList, hown.permits.base⟩
      rw [entries_singleton hpath] at hd
      rwa [List.mem_singleton.1 hd]
    have hdenied := ((validateBackupPath_eq_ok hr hne).1 ((h _).2 hal)).2.notDenied path (by
      rw [entries_singleton hpath]
      exact List.mem_singleton_self _)
    exact hdenied (Reaches.refl hbelow.1)
  exact habove.antisymm hbelow

/-- A place below another, under a name that no blank ends. -/
theorem below_plain (home : Option Str) {cs : List Str} (h : Places cs) (hnul : ∀ c ∈ cs, '\x00' ∉ c) {w : Str}
    (hw : w ∈ [lit "a", lit "b"]) :
    Places (cs ++ [w]) ∧ given home (canonical (cs ++ [w])) = canonical (cs ++ [w]) ∧ PlainPath home (canonical (cs ++ [w])) ∧
      reading home (canonical (cs ++ [w])) = canonical (cs ++ [w]) := by
  have hwords : ∀ w ∈ [lit "a", lit "b"], (Plain w ∧ '/' ∉ w) ∧ '\x00' ∉ w ∧ w ≠ [] ∧ w.all (fun c => !isSpace c) = true := by
    decide +kernel
  obtain ⟨hplain, hzero, hne, hspace⟩ := hwords w hw
  have hplaces : Places (cs ++ [w]) := fun c hc => by
    rcases List.mem_append.1 hc with hc | hc
    · exact h c hc
    · rw [List.mem_singleton.1 hc]
      exact hplain
  have hlast : ∀ c ∈ (canonical (cs ++ [w])).getLast?, isSpace c = false := by
    intro c hc
    have hend : c ∈ w.getLast? := by
      have htext : ∃ front, canonical (cs ++ [w]) = front ++ w := by
        by_cases hcs : cs = []
        · exact ⟨['/'], by rw [hcs]; rfl⟩
        · refine ⟨canonical cs ++ lit "/", ?_⟩
          rw [canonical, join_append '/' hcs (by simp), canonical]
          exact (List.append_assoc ('/' :: join '/' cs) (lit "/") w).symm
      obtain ⟨front, hfront⟩ := htext
      rwa [hfront, List.getLast?_append_of_ne_nil _ hne] at hc
    simpa using List.all_eq_true.1 hspace c (List.mem_of_getLast? hend)
  have hstrip : strip (canonical (cs ++ [w])) = canonical (cs ++ [w]) :=
    strip_eq_self (fun c hc => by cases Option.some.inj hc; decide) hlast
  have hgiven : given home (canonical (cs ++ [w])) = canonical (cs ++ [w]) := by
    rw [given_rooted home (by rw [hstrip]; exact rooted_slash _), hstrip]
  have hself := normalizePath_canonical home hplaces (by simp) hlast
  refine ⟨hplaces, hgiven, fun _ _ => ⟨?_, Or.inr ⟨?_, ?_⟩⟩, by rw [reading, hself, hself]⟩
  · rw [hstrip, canonical, List.mem_cons, not_or]
    refine ⟨by decide, fun hin => ?_⟩
    rcases mem_join hin with hslash | ⟨c, hc, hin⟩
    · exact absurd hslash (by decide)
    · rcases List.mem_append.1 hc with hc | hc
      · exact hnul c hc hin
      · exact hzero (List.mem_singleton.1 hc ▸ hin)
  · rw [hgiven, canonical, initialSlashes_one (hplaces.rooted_join (by simp))]
    decide
  · rw [hgiven, normComps_canonical hplaces]
    exact hlast

/-- With one entry, on the allow list, the policy is what this entry covers. -/
theorem allowed_singleton {home : Option Str} {path e : Str} (he : e ≠ []) (hr : rooted (given home path) = true)
    (hne : normComps (given home path) ≠ []) :
    Allowed home path ⟨[e], []⟩ ↔ Covers home (normComps (given home path)) e := by
  have hone : Rules.entries [e] = [e] := entries_singleton he
  constructor
  · rintro ⟨-, -, hp⟩
    rw [hone] at hp
    obtain ⟨a, ha, hcov⟩ := hp.inAllowList (by simp)
    exact List.mem_singleton.1 ha ▸ hcov
  · intro hcov
    have hex : ∃ a ∈ Rules.entries [e], Covers home (normComps (given home path)) a :=
      ⟨e, by rw [hone]; exact List.mem_singleton_self e, hcov⟩
    exact ⟨hr, hne, ⟨fun d hd => (nomatch hd), fun _ => hex, fun _ _ _ => hex⟩⟩

theorem ok_singleton {home : Option Str} {path e : Str} (he : e ≠ []) (hr : rooted (given home path) = true)
    (hne : normComps (given home path) ≠ []) (hnul : '\x00' ∉ strip path) :
    validateBackupPath home path ⟨[e], []⟩ = .ok () ↔ Reaches (reading home e) (reading home path) := by
  have hone : Rules.entries [e] = [e] := entries_singleton he
  rw [validateBackupPath_eq_ok hr hne]
  constructor
  · rintro ⟨-, hp⟩
    rw [hone] at hp
    obtain ⟨a, ha, hreach⟩ := hp.inAllowList (by simp)
    exact List.mem_singleton.1 ha ▸ hreach
  · intro hreach
    have hex : ∃ a ∈ Rules.entries [e], Reaches (reading home a) (reading home path) :=
      ⟨e, by rw [hone]; exact List.mem_singleton_self e, hreach⟩
    exact ⟨hnul, ⟨fun d hd => (nomatch hd), fun _ => hex, fun _ _ _ => hex⟩⟩

/-- **An entry that opens exactly its place to every plain path is plain.** -/
theorem plainText_of_verdict {home : Option Str} {e : Str} (hr : rooted (given home e) = true) (hnul : '\x00' ∉ given home e)
    (h : ∀ path, PlainPath home path → (validateBackupPath home path ⟨[e], []⟩ = .ok () ↔ Allowed home path ⟨[e], []⟩)) :
    PlainText (given home e) := by
  by_cases hne : normComps (given home e) = []
  · exact Or.inl hne
  have he : e ≠ [] := ne_nil_of_strip (strip_ne_nil_of_rooted hr)
  have hplaces := places_normComps hr
  have hzero : ∀ c ∈ normComps (given home e), '\x00' ∉ c := fun c hc hin => hnul (mem_of_mem_normComps hc hin)
  -- below any place: what the code opens there, and what the policy opens there
  have hcode : ∀ cs, Places cs → (∀ c ∈ cs, '\x00' ∉ c) → ∀ w ∈ [lit "a", lit "b"],
      (Reaches (reading home e) (canonical (cs ++ [w])) ↔ normComps (given home e) <+: cs ++ [w]) := by
    intro cs hcs hcz w hw
    obtain ⟨hpl, hgiven, hpath, hread⟩ := below_plain home hcs hcz hw
    have hrooted : rooted (given home (canonical (cs ++ [w]))) = true := by rw [hgiven]; exact rooted_slash _
    have hcomps : normComps (given home (canonical (cs ++ [w]))) = cs ++ [w] := by rw [hgiven, normComps_canonical hpl]
    have hnempty : normComps (given home (canonical (cs ++ [w]))) ≠ [] := by rw [hcomps]; simp
    have hiff := h _ hpath
    rw [ok_singleton he hrooted hnempty (hpath hrooted hnempty).1, allowed_singleton he hrooted hnempty, hread, hcomps] at hiff
    rw [hiff, Covers, AtOrBelow, if_neg hne]
    exact and_iff_right hr
  refine (reading_iff hr hne).1 ?_
  -- the reading lies above both `…/a` and `…/b`, so at or above the place
  have hsplit : ∀ w ∈ [lit "a", lit "b"], split '/' (reading home e) <+: ([] :: normComps (given home e)) ++ [w] := by
    intro w hw
    have hreach := (hcode _ hplaces hzero w hw).2 (List.prefix_append _ _)
    have hpl := (below_plain home hplaces hzero hw).1
    have hroot : reading home e ≠ lit "/" := by
      intro hroot
      rw [Reaches, if_pos hroot] at hreach
      exact canonical_ne_root hpl (by simp) hreach.2.2
    rw [Reaches, if_neg hroot, under_iff, split_canonical hpl (by simp)] at hreach
    exact hreach.2.2
  have habove : split '/' (reading home e) <+: [] :: normComps (given home e) := by
    rcases List.prefix_concat_iff.1 (hsplit (lit "a") (by simp)) with ha | ha
    · rcases List.prefix_concat_iff.1 (hsplit (lit "b") (by simp)) with hb | hb
      · have := List.append_inj_right' (ha.symm.trans hb) rfl
        exact absurd this (by decide)
      · exact hb
    · exact ha
  obtain ⟨rest, hrest⟩ := habove
  obtain ⟨ds, hds⟩ : ∃ ds, split '/' (reading home e) = [] :: ds := by
    cases hs : split '/' (reading home e) with
    | nil => exact absurd hs (split_ne_nil '/' _)
    | cons d ds =>
      rw [hs] at hrest
      exact ⟨ds, by rw [(List.cons.inj hrest).1]⟩
  rw [hds] at hrest
  have hsum : ds ++ rest = normComps (given home e) := (List.cons.inj hrest).2
  by_cases hall : rest = []
  · rw [hall, List.append_nil] at hsum
    refine split_injective (c := '/') ?_
    rw [hds, hsum, split_canonical hplaces hne]
  -- strictly above its place the entry opens a neighbour
  exfalso
  have hpd : Places ds := fun c hc => hplaces c (hsum ▸ List.mem_append_left _ hc)
  have hzd : ∀ c ∈ ds, '\x00' ∉ c := fun c hc => hzero c (hsum ▸ List.mem_append_left _ hc)
  have hdne : ds ≠ [] := by
    intro hnil
    have hempty : reading home e = [] := split_injective (c := '/') (by rw [hds, hnil]; rfl)
    exact ((hcode _ hplaces hzero (lit "a") (by simp)).2 (List.prefix_append _ _)).2.1 hempty
  have hread : reading home e = canonical ds := split_injective (c := '/') (by rw [hds, split_canonical hpd hdne])
  have hother : ∃ w ∈ [lit "a", lit "b"], rest ≠ [w] := by
    by_cases hwa : rest = [lit "a"]
    · exact ⟨lit "b", by simp, by rw [hwa]; decide⟩
    · exact ⟨lit "a", by simp, hwa⟩
  obtain ⟨w, hw, hrw⟩ := hother
  have hopens := (hcode ds hpd hzd w hw).1 (by
    rw [hread]
    exact (reaches_canonical hpd (below_plain home hpd hzd hw).1 hdne (by simp)).2 (List.prefix_append _ _))
  rw [← hsum, List.prefix_append_right_inj] at hopens
  rcases List.prefix_concat_iff.1 (show rest <+: [] ++ [w] from hopens) with heq | heq
  · exact hrw heq
  · exact hall (List.prefix_nil.1 heq)

/-! ## The policy is exact on plain texts, and on no others -/

/-- **What is accepted is what the policy allows**, for plain paths and plain entries. A path spelled in any
other way is misjudged by some rule set, an absolute entry spelled in any other way misjudges some plain path, and
two plain spellings of a place get one answer from any rules. -/
theorem validateBackupPath_exact (home : Option Str) :
    (∀ path rules, PlainPath home path → (∀ e ∈ rules.allow ++ rules.deny, PlainEntry home e) →
      (validateBackupPath home path rules = .ok () ↔ Allowed home path rules)) ∧
    (∀ path, (∀ rules, validateBackupPath home path rules = .ok () ↔ AllowedAsRead home path rules) ↔ PlainPath home path) ∧
    (∀ e, rooted (given home e) = true → '\x00' ∉ given home e →
      ((∀ path, PlainPath home path → (validateBackupPath home path ⟨[e], []⟩ = .ok () ↔ Allowed home path ⟨[e], []⟩)) ↔
        PlainEntry home e)) ∧
    ∀ p q rules, PlainPath home p → PlainPath home q → SamePlace (given home p) (given home q) →
      (validateBackupPath home p rules = .ok () ↔ validateBackupPath home q rules = .ok ()) := by
  have hplain : ∀ path rules, PlainPath home path → (∀ e ∈ rules.allow ++ rules.deny, PlainEntry home e) →
      (validateBackupPath home path rules = .ok () ↔ Allowed home path rules) := fun path rules hp he =>
    (hp.verdict rules).trans (allowedAsRead_iff_allowed he)
  refine ⟨hplain, fun path => ⟨plainPath_of_verdict, fun hp => hp.verdict⟩, fun e hr hnul => ⟨fun h => ?_, fun he path hp => ?_⟩,
    fun p q rules hp hq hsame => ?_⟩
  · exact ⟨fun _ => plainText_of_verdict hr hnul h, fun hrel => absurd hrel (by simp [hr])⟩
  · exact hplain path _ hp (by simpa using he)
  · rw [hp.verdict, hq.verdict]
    constructor
    · rintro ⟨hr, hne, hal⟩
      exact ⟨hsame.1 ▸ hr, hsame.2 ▸ hne, hsame.2 ▸ hal⟩
    · rintro ⟨hr, hne, hal⟩
      exact ⟨hsame.1.symm ▸ hr, hsame.2.symm ▸ hne, hsame.2.symm ▸ hal⟩

/-- Two spellings of a folder under one allow entry. -/
theorem validateBackupPath_spellings :
    validateBackupPath (some (lit "/home/pi")) (lit "~/docker/") ⟨[lit "/home/pi"], []⟩ = .ok () ↔
      validateBackupPath (some (lit "/home/pi")) (lit "/home//pi/./docker") ⟨[lit "/home/pi"], []⟩ = .ok () :=
  (validateBackupPath_exact (some (lit "/home/pi"))).2.2.2 (lit "~/docker/") (lit "/home//pi/./docker") ⟨[lit "/home/pi"], []⟩
    (fun _ _ => ⟨by decide +kernel, Or.inr ⟨by decide +kernel, fun c hc => by cases Option.some.inj hc; decide⟩⟩)
    (fun _ _ => ⟨by decide +kernel, Or.inr ⟨by decide +kernel, fun c hc => by cases Option.some.inj hc; decide⟩⟩)
    (by decide +kernel)

/-- **Two slashes in front slip past the built-in entries**: `/etc` is refused, `//etc` is not. -/
theorem two_slashes_slip_past :
    validateBackupPath none (lit "//etc/passwd") ⟨[], []⟩ = .ok () ∧
      ¬ Allowed none (lit "//etc/passwd") ⟨[], []⟩ ∧
      SamePlace (lit "//etc/passwd") (lit "/etc/passwd") ∧
      validateBackupPath none (lit "/etc/passwd") ⟨[], []⟩ =
        .error (lit "Denied by default policy: /etc (add an allow rule to override)") := by
  refine ⟨by decide +kernel, fun h => ?_, by decide +kernel, by decide +kernel⟩
  obtain ⟨a, ha, -⟩ := h.permits.base (lit "/etc") (by decide) ⟨by decide +kernel, by decide +kernel⟩
  cases ha

example : validateBackupPath none (lit "/etc/piherder/config") ⟨[lit "/etc/piherder"], []⟩ = .ok () := by decide +kernel

end PiHerder.Backup
