import PiHerder.Lib.Dict
import PiHerder.Lib.Path
import PiHerder.Lib.Regex
import PiHerder.Stacks.Templates

/-!
# How compose files spell a bind (`service_migrate/overrides.py`)

| here | there |
| --- | --- |
| `composeBindAliases` | `compose_bind_aliases` (471–497) |
| `expandBindMapForCompose` | `expand_bind_map_for_compose` (500–511) |
| `SHORT_BIND`, `rewriteLinesBinds` | `_SHORT_BIND` (21–25), `_rewrite_lines_binds` (514–528) |

Every bind lends its destination to `~/<tail>`, where `<tail>` follows `/home/<user>/` for whatever user, and to `~/<leaf>`
for its last component alone. Neither needs to be the bind's own path under the home directory of the host.
-/
namespace PiHerder.Migrate
open Lib Lib.Str Lib.Regex

/-! ## The aliases -/

/-- The user and the tail of `/home/<user>/<tail>`. -/
def homeTail (src : Str) : Option (Str × Str) :=
  match split '/' src with
  | _ :: top :: user :: rest =>
    if rest ≠ [] ∧ top = lit "home" ∧ user ≠ [] ∧ join '/' rest ≠ [] then some (user, join '/' rest) else none
  | _ => none

def leafOf (src : Str) : Str := basename (rstrip '/' src)

def composeBindAliases (absSource : Str) : List Str :=
  let src := normpath (strip absSource)
  if !startsWith (lit "/") src then if src ≠ [] then [src] else []
  else
    let tails := match homeTail src with
      | some (user, tail) => [lit "~/" ++ tail, lit "$HOME/" ++ tail, lit "~" ++ user ++ lit "/" ++ tail]
      | none => []
    let leaf := leafOf src
    let leaves := if leaf ≠ [] then [lit "~/" ++ leaf, lit "$HOME/" ++ leaf] else []
    ((src :: tails ++ leaves).filter fun a => decide (a ≠ [])).eraseDups

/-- One bind of the map. -/
def addSpellings (out : Dict Str Str) (bind : Str × Str) : Dict Str Str :=
  let dest := strip bind.2
  let src := strip bind.1
  if src = [] ∨ dest = [] then out
  else (composeBindAliases src ++ [src]).foldl (fun out k => if k ≠ dest then out.set k dest else out) out

def expandBindMapForCompose (bindMap : Dict Str Str) : Dict Str Str := bindMap.foldl addSpellings []

/-! ## The lines -/

def blanks : Regex := opt (many isSpace)

def isQuote (c : Char) : Bool := c == '"' || c == '\''

def SHORT_BIND : Regex :=
  seq (group (lit "pre") (seq blanks (seq (char '-') blanks)))
    (seq (group (lit "q") (opt (one isQuote)))
      (seq (group (lit "src") (seq (alt (literal (lit "~/")) (alt (literal (lit "$HOME/")) (char '/')))
          (many fun c => !(c == ':' || isQuote c || isSpace c))))
        (group (lit "rest") (seq (char ':') (opt (many (· != '\n')))))))

/-- A line without its end, and the end. -/
def lineBody (line : Str) : Str × Str :=
  let nl := if endsWith (lit "\n") line then lit "\n" else []
  let body := if nl ≠ [] then line.dropLast else line
  if endsWith (lit "\r") body then (body.dropLast, if nl ≠ [] then lit "\r\n" else lit "\r") else (body, nl)

/-- The source of the bind a line lists. -/
def bindSource (line : Str) : Option Str := (SHORT_BIND.matchLine (lineBody line).1).bind (·.group (lit "src"))

def rewriteLineBind (bindMap : Dict Str Str) (line : Str) : Str :=
  let (body, nl) := lineBody line
  match SHORT_BIND.matchLine body with
  | none => body ++ nl
  | some m =>
    match bindMap.get? (m.get (lit "src")) with
    | some dest => m.get (lit "pre") ++ m.get (lit "q") ++ dest ++ m.get (lit "rest") ++ nl
    | none => body ++ nl

def rewriteLinesBinds (text : Str) (bindMap : Dict Str Str) : Str :=
  if bindMap = [] then text else (Stacks.splitlinesKeep text).flatMap (rewriteLineBind bindMap)

/-! ## Where a spelling leads -/

/-- The absolute path of a spelling on a host whose SSH user lives in `home`. -/
def resolve (home k : Str) : Option Str :=
  if startsWith (lit "/") k then some k
  else if startsWith (lit "~/") k then some (home ++ '/' :: k.drop 2)
  else if startsWith (lit "$HOME/") k then some (home ++ '/' :: k.drop 6)
  else none

/-- **Aliases point at their own destination**: in the expanded map, and in the lines that are rewritten with it. -/
structure AliasesAgree (home : Str) (bindMap : Dict Str Str) : Prop where
  keys : ∀ k s dest, (expandBindMapForCompose bindMap).get? k = some dest → resolve home k = some s → bindMap.get? s = some dest
  lines : ∀ text, ∀ line ∈ Stacks.splitlinesKeep text, ∀ t, bindSource line = some (lit "~/" ++ t) → bindMap.get? (home ++ '/' :: t) = none →
    rewriteLineBind (expandBindMapForCompose bindMap) line = line

/-! ## Who lends its destination -/

/-- The spellings of a source: as it stands, normalized, and by `~` or `$HOME` with the tail of a home directory or with
the last component. -/
def Spelled (src k : Str) : Prop :=
  k = src ∨ k = normpath src ∨
    startsWith (lit "/") (normpath src) = true ∧
      ((∃ x, homeTail (normpath src) = some x ∧ k ∈ [lit "~/" ++ x.2, lit "$HOME/" ++ x.2, lit "~" ++ x.1 ++ lit "/" ++ x.2]) ∨
        leafOf (normpath src) ≠ [] ∧ k ∈ [lit "~/" ++ leafOf (normpath src), lit "$HOME/" ++ leafOf (normpath src)])

/-- A bind with a source and a destination spells `k`, and not as its own destination. -/
def Lends (k : Str) (bind : Str × Str) : Prop :=
  strip bind.1 ≠ [] ∧ strip bind.2 ≠ [] ∧ k ≠ strip bind.2 ∧ Spelled (strip bind.1) k

/-- The last bind that lends its destination to `k`. -/
def LastLender (bindMap : Dict Str Str) (k : Str) (bind : Str × Str) : Prop :=
  ∃ before after, bindMap = before ++ bind :: after ∧ Lends k bind ∧ ∀ later ∈ after, ¬ Lends k later

theorem normpath_ne_nil (s : Str) : normpath s ≠ [] := by
  unfold normpath
  simp only
  split
  · decide
  · assumption

theorem lit_append_ne_nil {p : String} (hp : lit p ≠ []) (t : Str) : lit p ++ t ≠ [] := fun h => hp (List.append_eq_nil_iff.1 h).1

theorem mem_aliases {src k : Str} (hs : strip src = src) : k ∈ composeBindAliases src ++ [src] ↔ Spelled src k := by
  have hn := normpath_ne_nil src
  have htilde : ∀ t, lit "~/" ++ t ≠ [] := lit_append_ne_nil (by decide)
  have hhome : ∀ t, lit "$HOME/" ++ t ≠ [] := lit_append_ne_nil (by decide)
  have huser : ∀ u t, lit "~" ++ u ++ lit "/" ++ t ≠ [] := fun u t => by
    rw [List.append_assoc, List.append_assoc]
    exact lit_append_ne_nil (by decide) _
  unfold composeBindAliases Spelled
  rw [hs, List.mem_append, List.mem_singleton, or_comm]
  refine or_congr_right ?_
  by_cases hr : startsWith (lit "/") (normpath src) = true
  · simp only [hr, Bool.not_true, Bool.false_eq_true, if_false, true_and, List.mem_eraseDups]
    rw [List.filter_eq_self.2, List.cons_append, List.mem_cons, List.mem_append]
    · refine or_congr_right (or_congr ?_ ?_)
      · cases homeTail (normpath src) with
        | none => simp
        | some x => simp
      · by_cases hleaf : leafOf (normpath src) = []
        · simp [hleaf]
        · rw [if_pos hleaf, and_iff_right hleaf]
    · intro a ha
      rw [decide_eq_true_eq]
      rw [List.cons_append, List.mem_cons, List.mem_append] at ha
      rcases ha with rfl | ha | ha
      · exact hn
      · cases hx : homeTail (normpath src) with
        | none =>
          rw [hx] at ha
          cases ha
        | some x =>
          rw [hx] at ha
          simp only [List.mem_cons, List.not_mem_nil, or_false] at ha
          rcases ha with rfl | rfl | rfl
          · exact htilde _
          · exact hhome _
          · exact huser _ _
      · split at ha
        · simp only [List.mem_cons, List.not_mem_nil, or_false] at ha
          rcases ha with rfl | rfl
          · exact htilde _
          · exact hhome _
        · cases ha
  · simp [hr, hn]

theorem get?_addSpellings (out : Dict Str Str) (bind : Str × Str) (k : Str) :
    (Lends k bind → (addSpellings out bind).get? k = some (strip bind.2)) ∧
      (¬ Lends k bind → (addSpellings out bind).get? k = out.get? k) := by
  have hfold : ∀ (dest : Str) (ks : List Str) (out : Dict Str Str),
      (ks.foldl (fun out k => if k ≠ dest then out.set k dest else out) out).get? k =
        if k ∈ ks ∧ k ≠ dest then some dest else out.get? k := by
    intro dest ks
    induction ks with
    | nil => simp
    | cons a ks ih =>
      intro out
      rw [List.foldl_cons, ih]
      by_cases hk : k ∈ ks ∧ k ≠ dest
      · rw [if_pos hk, if_pos ⟨List.mem_cons_of_mem a hk.1, hk.2⟩]
      · rw [if_neg hk]
        by_cases ha : a = dest
        · rw [if_neg (by simpa using ha)]
          refine (if_neg ?_).symm
          rintro ⟨hin, hne⟩
          rcases List.mem_cons.1 hin with rfl | hin
          · exact hne ha
          · exact hk ⟨hin, hne⟩
        · rw [if_pos ha, Dict.get?_set]
          by_cases hka : k = a
          · rw [if_pos hka, if_pos ⟨hka ▸ List.mem_cons_self, hka ▸ ha⟩]
          · rw [if_neg hka]
            refine (if_neg ?_).symm
            rintro ⟨hin, hne⟩
            exact hk ⟨(List.mem_cons.1 hin).resolve_left hka, hne⟩
  unfold addSpellings Lends
  simp only
  by_cases hempty : strip bind.1 = [] ∨ strip bind.2 = []
  · rw [if_pos hempty]
    exact ⟨fun h => absurd hempty (not_or.2 ⟨h.1, h.2.1⟩), fun _ => rfl⟩
  · rw [if_neg hempty, hfold]
    have hne := not_or.1 hempty
    have hmem := @mem_aliases (strip bind.1) k (strip_strip _)
    exact ⟨fun h => if_pos ⟨hmem.2 h.2.2.2, h.2.2.1⟩, fun h => if_neg fun hk => h ⟨hne.1, hne.2, hk.2, hmem.1 hk.1⟩⟩

theorem lastLender_append {bindMap : Dict Str Str} {e bind : Str × Str} {k : Str} :
    LastLender (bindMap ++ [e]) k bind ↔ (Lends k e ∧ bind = e) ∨ (¬ Lends k e ∧ LastLender bindMap k bind) := by
  constructor
  · rintro ⟨before, after, heq, hl, hlast⟩
    rcases List.eq_nil_or_concat' after with rfl | ⟨after, a, rfl⟩
    · have := List.singleton_inj.1 (List.append_inj' heq rfl).2
      exact Or.inl ⟨this ▸ hl, this.symm⟩
    · rw [← List.cons_append, ← List.append_assoc] at heq
      have hinit := List.append_inj' heq rfl
      have hea := List.singleton_inj.1 hinit.2
      exact Or.inr ⟨hea ▸ hlast a (by simp), before, after, hinit.1, hl, fun x hx => hlast x (by simp [hx])⟩
  · rintro (⟨hl, rfl⟩ | ⟨hno, before, after, rfl, hl, hlast⟩)
    · exact ⟨bindMap, [], rfl, hl, fun _ h => nomatch h⟩
    · refine ⟨before, after ++ [e], by simp, hl, fun x hx => ?_⟩
      rcases List.mem_append.1 hx with hx | hx
      · exact hlast x hx
      · exact List.mem_singleton.1 hx ▸ hno

theorem get?_expand (bindMap : Dict Str Str) (k dest : Str) :
    (expandBindMapForCompose bindMap).get? k = some dest ↔ ∃ bind, LastLender bindMap k bind ∧ strip bind.2 = dest := by
  unfold expandBindMapForCompose
  induction bindMap using List.reverseRecOn with
  | nil =>
    constructor
    · intro h
      cases h
    · rintro ⟨bind, ⟨before, after, heq, -⟩, -⟩
      simp at heq
  | append_singleton bindMap e ih =>
    rw [List.foldl_append, List.foldl_cons, List.foldl_nil]
    have hadd := get?_addSpellings (bindMap.foldl addSpellings []) e k
    by_cases he : Lends k e
    · simp [hadd.1 he, lastLender_append, he]
    · rw [hadd.2 he, ih]
      simp [lastLender_append, he]

/-! ## The result -/

theorem lineBody_append (line : Str) : (lineBody line).1 ++ (lineBody line).2 = line := by
  have hends : ∀ (c : Char) (s : Str), endsWith [c] s = true → s.dropLast ++ [c] = s := by
    intro c s h
    obtain ⟨t, rfl⟩ := List.isSuffixOf_iff_suffix.1 h
    simp
  have hnl : lit "\n" ≠ [] := by decide
  unfold lineBody
  by_cases hn : endsWith (lit "\n") line = true
  · have hline := hends '\n' line hn
    by_cases hr : endsWith (lit "\r") line.dropLast = true
    · have hbody := hends '\r' line.dropLast hr
      simp only [if_pos hn, if_pos hnl, if_pos hr]
      calc line.dropLast.dropLast ++ lit "\r\n" = line.dropLast.dropLast ++ ['\r'] ++ ['\n'] := (List.append_assoc _ ['\r'] ['\n']).symm
        _ = line := by rw [hbody, hline]
    · simp only [if_pos hn, if_pos hnl, if_neg hr]
      exact hline
  · by_cases hr : endsWith (lit "\r") line = true
    · simp only [if_neg hn, if_neg (not_not.2 rfl : ¬ ([] : Str) ≠ []), if_pos hr]
      exact hends '\r' line hr
    · simp only [if_neg hn, if_neg (not_not.2 rfl : ¬ ([] : Str) ≠ []), if_neg hr]
      exact List.append_nil line

/-- A line whose bind the map does not have. -/
theorem rewriteLineBind_of_none {bindMap : Dict Str Str} {line k : Str} (hk : bindSource line = some k) (hnone : bindMap.get? k = none) :
    rewriteLineBind bindMap line = line := by
  have hsame := lineBody_append line
  unfold bindSource at hk
  unfold rewriteLineBind
  cases hm : SHORT_BIND.matchLine (lineBody line).1 with
  | none =>
    rw [hm] at hk
    cases hk
  | some m =>
    rw [hm, Option.bind_some] at hk
    simp only [hm, Hit.get, hk, Option.getD_some, hnone]
    exact hsame

/-- **Aliases agree** iff whoever lends its destination last to a spelling is the bind of the path the spelling leads to. -/
theorem aliasesAgree_iff (home : Str) (bindMap : Dict Str Str) :
    AliasesAgree home bindMap ↔
      ∀ k bind s, LastLender bindMap k bind → resolve home k = some s → bindMap.get? s = some (strip bind.2) := by
  have hkeys : (∀ k s dest, (expandBindMapForCompose bindMap).get? k = some dest → resolve home k = some s → bindMap.get? s = some dest) ↔
      ∀ k bind s, LastLender bindMap k bind → resolve home k = some s → bindMap.get? s = some (strip bind.2) := by
    constructor
    · intro h k bind s hlast hk
      exact h k s _ ((get?_expand bindMap k _).2 ⟨bind, hlast, rfl⟩) hk
    · intro h k s dest hget hk
      obtain ⟨bind, hlast, rfl⟩ := (get?_expand bindMap k dest).1 hget
      exact h k bind s hlast hk
  refine ⟨fun h => hkeys.1 h.keys, fun h => ⟨hkeys.2 h, fun text line _ t hline hno => ?_⟩⟩
  refine rewriteLineBind_of_none hline ?_
  cases hget : (expandBindMapForCompose bindMap).get? (lit "~/" ++ t) with
  | none => rfl
  | some dest =>
    have hlead : resolve home (lit "~/" ++ t) = some (home ++ '/' :: t) := rfl
    rw [hkeys.2 h _ _ dest hget hlead] at hno
    cases hno

/-- **A bind's leaf takes another folder's place.** -/
theorem leaf_taken :
    let bindMap : Dict Str Str := [(lit "/srv/data", lit "/opt/app/data")]
    (expandBindMapForCompose bindMap).get? (lit "~/data") = some (lit "/opt/app/data") ∧
      bindMap.get? (lit "/home/pi/data") = none ∧
      rewriteLinesBinds (lit "- ~/data:/data\n") (expandBindMapForCompose bindMap) = lit "- /opt/app/data:/data\n" ∧
      ¬ AliasesAgree (lit "/home/pi") bindMap := by
  have hkey : (expandBindMapForCompose [(lit "/srv/data", lit "/opt/app/data")]).get? (lit "~/data") = some (lit "/opt/app/data") := by
    decide +kernel
  refine ⟨hkey, by decide, by decide +kernel, fun h => ?_⟩
  have := h.keys (lit "~/data") (lit "/home/pi/data") _ hkey rfl
  exact absurd this (by decide)

end PiHerder.Migrate
