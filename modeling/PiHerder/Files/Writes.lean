import PiHerder.Files.Verbs
import PiHerder.Lib.Under

/-!
# Writing stays in the jail

Every verb checks a resolved directory and then forms the path that it writes. `Guard` says when that path is still the
place that the server writes: the resolved text is the real path, no link stands where `open`, `tee` or `docker cp` would
follow it, and the name itself is not denied. Under it every place that a verb makes, replaces or deletes is `Within` the
jail (`writes_within`).
-/
namespace PiHerder.Files
open Lib Lib.Str Lib.FileTree Lib.Eff

/-- Under the jail, and in none of the denied trees. -/
def Within (w : Site) (p : List Name) : Prop :=
  (∃ js, w.jailPath = .ok (pathText js) ∧ js <+: p) ∧
    ∀ denies, w.extraDenies = .ok denies → ∀ ds, ds ≠ [] → pathText ds ∈ denies → ¬ ds <+: p

/-! ## The checks on real paths -/

section Checks
variable {w : Site}

theorem under_pathText {a b : List Name} (ha : Clean a) (hb : Clean b) (hne : a ≠ []) : Under (pathText a) (pathText b) ↔ a <+: b := by
  rw [under_iff, split_pathText hne ha.noSlash]
  by_cases hbn : b = []
  · subst hbn
    have hsplit : split '/' (pathText []) = [[], []] := rfl
    rw [hsplit, List.cons_prefix_cons]
    constructor
    · rintro ⟨-, h⟩
      obtain ⟨x, xs, rfl⟩ := List.exists_cons_of_ne_nil hne
      have hx := (List.cons_prefix_cons.1 h).1
      exact absurd hx (ha x List.mem_cons_self).1.1
    · intro h
      exact absurd (List.prefix_nil.1 h) hne
  · rw [split_pathText hbn hb.noSlash, List.cons_prefix_cons]
    exact and_iff_right rfl

theorem underJail_iff {a b : List Name} (ha : Clean a) (hb : Clean b) : underJail (pathText b) (pathText a) = true ↔ a <+: b := by
  unfold underJail
  simp only [posixNorm_pathText ha, posixNorm_pathText hb]
  by_cases hne : a = []
  · subst hne
    have hroot : pathText [] = lit "/" := rfl
    rw [if_pos hroot]
    exact iff_of_true (slash_pathText b) List.nil_prefix
  · have hroot : pathText a ≠ lit "/" := fun h =>
      hne (pathText_injective (q := []) (fun c hc => ⟨(ha c hc).1.1, (ha c hc).2.1⟩) (by simp) h)
    rw [if_neg hroot, ← under_pathText ha hb hne, Bool.or_eq_true, decide_eq_true_iff]
    rfl

theorem prefixHit_iff {a b : List Name} (ha : Clean a) (hb : Clean b) (hne : a ≠ []) :
    prefixHit (pathText b) (pathText a) = true ↔ a <+: b := by
  have hroot : pathText a ≠ lit "/" := fun h =>
    hne (pathText_injective (q := []) (fun c hc => ⟨(ha c hc).1.1, (ha c hc).2.1⟩) (by simp) h)
  have hempty : ¬ (pathText b = [] ∨ pathText a = []) := by simp [pathText]
  unfold prefixHit
  simp only [posixNorm_pathText ha, posixNorm_pathText hb]
  rw [if_neg hempty, if_neg hroot, ← under_pathText ha hb hne, Bool.or_eq_true, decide_eq_true_iff]
  rfl

/-- **What the two checks pass is within**, when its text is its real path. -/
theorem within_of_checks {p : List Name} (hp : Clean p) {jail : Str} (hjail : w.jailPath = .ok jail) (hunder : underJail (pathText p) jail = true)
    (hdenied : w.isDenied (pathText p) = .ok false) : Within w p := by
  obtain ⟨js, rfl, hjs⟩ := jailPath_ok hjail
  refine ⟨⟨js, hjail, (underJail_iff hjs hp).1 hunder⟩, fun denies hdenies ds hds hmem hle => ?_⟩
  obtain ⟨denies', hd', h⟩ := except_bind_eq_ok.1 hdenied
  rw [hdenies] at hd'
  obtain rfl := Except.ok.inj hd'
  have hany := List.any_eq_false.1 (Except.ok.inj h) _ hmem
  exact hany ((prefixHit_iff (hp.of_prefix hle) hp hds).2 hle)

/-- No denied tree lies below the path. -/
def NoneBelow (w : Site) (path : Str) : Prop :=
  ∀ denies, w.extraDenies = .ok denies → ∀ d ∈ denies, startsWith (path ++ lit "/") d = false

/-- What is below a place within is within, when no denied tree is. -/
theorem Within.below {p x : List Name} (h : Within w p) (hp : p ≠ []) (hnone : NoneBelow w (pathText p)) (hx : p <+: x) : Within w x := by
  obtain ⟨⟨js, hjs, hle⟩, hden⟩ := h
  refine ⟨⟨js, hjs, hle.trans hx⟩, fun denies hd ds hds hmem hdx => ?_⟩
  rcases List.prefix_or_prefix_of_prefix hdx hx with hdp | hpd
  · exact hden denies hd ds hds hmem hdp
  · obtain ⟨rest, rfl⟩ := hpd
    by_cases hrest : rest = []
    · rw [hrest, List.append_nil] at hmem hds
      exact hden denies hd p hds hmem (List.prefix_refl p)
    · have htext : pathText (p ++ rest) = pathText p ++ lit "/" ++ join '/' rest := by
        rw [pathText, join_append '/' hp hrest, pathText, List.cons_append, List.cons_append, List.append_assoc]
        rfl
      have hno := hnone denies hd _ hmem
      rw [htext] at hno
      exact absurd (List.isPrefixOf_iff_prefix.2 (List.prefix_append _ _)) (Bool.eq_false_iff.1 hno)

/-- What ends in `.ssh` still does when it is normal. -/
theorem posixNorm_ssh (a : Str) : (posixNorm (a ++ lit "/.ssh")).getLast? = some 'h' := by
  have hslashed : slashed (a ++ lit "/.ssh") = slashed a ++ '/' :: lit ".ssh" := by
    unfold slashed
    rw [List.map_append]
    rfl
  have hfold : ((split '/' (slashed (a ++ lit "/.ssh"))).foldl normSeg []).reverse =
      ((split '/' (slashed a)).foldl normSeg []).reverse ++ [lit ".ssh"] := by
    have hlast : split '/' (lit ".ssh") = [lit ".ssh"] := by decide
    rw [hslashed, split_append_cons, hlast, List.foldl_append, List.foldl_cons, List.foldl_nil]
    have hstep : ∀ parts : List Str, normSeg parts (lit ".ssh") = lit ".ssh" :: parts := fun parts => by
      unfold normSeg
      rw [if_neg (by decide), if_neg (by decide)]
    rw [hstep, List.reverse_cons]
  have hjoin : ∀ cs : List Str, (join '/' (cs ++ [lit ".ssh"])).getLast? = some 'h' := by
    intro cs
    by_cases h : cs = []
    · subst h
      rfl
    · rw [join_append '/' h (by simp), List.getLast?_append_of_ne_nil _ (by simp)]
      rfl
  unfold posixNorm
  simp only [hfold]
  split
  · have hne : join '/' (((split '/' (slashed a)).foldl normSeg []).reverse ++ [lit ".ssh"]) ≠ [] := by
      intro h
      have := hjoin ((split '/' (slashed a)).foldl normSeg []).reverse
      rw [h] at this
      cases this
    rw [List.getLast?_cons_of_ne_nil hne]
    exact hjoin _
  · exact hjoin _

theorem expand_ssh (user : Str) : ∃ a, expandRemotePath (lit "~/.ssh") user = a ++ lit "/.ssh" := by
  have hstrip : strip (lit "~/.ssh") = lit "~/.ssh" := by decide
  unfold expandRemotePath
  simp only [hstrip]
  rw [if_neg (by decide), if_neg (by decide), if_pos (by decide)]
  have hrest : (lit "~/.ssh").drop 2 = lit ".ssh" := rfl
  have hsome : lit ".ssh" ≠ [] := by decide
  rw [hrest, if_neg hsome, if_neg hsome]
  generalize (if strip user = [] then lit "root" else strip user) = u
  split
  · exact ⟨lit "/root", rfl⟩
  · exact ⟨lit "/home/" ++ _, by rw [List.append_assoc, List.append_assoc]; rfl⟩

/-- No denied tree has the name of a temporary file. -/
theorem extraDenies_tmp {denies : List Str} (h : w.extraDenies = .ok denies) : ∀ d ∈ denies, endsWith (lit ".tmp") d = false := by
  have hssh : ∀ d : Str, d.getLast? = some 'h' → endsWith (lit ".tmp") d = false := by
    intro d hd
    rw [Bool.eq_false_iff]
    intro hend
    obtain ⟨a, rfl⟩ := List.isSuffixOf_iff_suffix.1 hend
    rw [List.getLast?_append_of_ne_nil _ (by simp)] at hd
    exact absurd (Option.some.inj hd) (by decide)
  have hconst : ∀ d ∈ VIRTUAL_DENY ++ FLEET_JAIL_FORBIDDEN, endsWith (lit ".tmp") d = false := by decide
  obtain ⟨role, -, h⟩ := except_bind_eq_ok.1 h
  split at h
  · obtain rfl := Except.ok.inj h
    exact fun d hd => hconst d (List.mem_append_left _ hd)
  · obtain ⟨jail, -, h⟩ := except_bind_eq_ok.1 h
    obtain ⟨home, hhome, h⟩ := except_bind_eq_ok.1 h
    obtain rfl := Except.ok.inj h
    obtain rfl := normColumn_eq_ok hhome
    obtain ⟨a, ha⟩ := expand_ssh (identityUsername w.server none)
    have hmem : ∀ (homes out : List Str) (d : Str), d ∈ homes.foldl (fun out s => if s ≠ [] ∧ s ∉ out then out ++ [s] else out) out →
        d ∈ out ∨ d ∈ homes := by
      intro homes
      induction homes with
      | nil => exact fun out d hd => Or.inl hd
      | cons x homes ih =>
        intro out d hd
        rcases ih _ d hd with hd | hd
        · simp only at hd
          split at hd
          · rcases List.mem_append.1 hd with hd | hd
            · exact Or.inl hd
            · exact Or.inr (List.mem_singleton.1 hd ▸ List.mem_cons_self)
          · exact Or.inl hd
        · exact Or.inr (List.mem_cons_of_mem _ hd)
    intro d hd
    rcases hmem _ _ d hd with hd | hd
    · refine hconst d ((List.mem_append.1 hd).elim (List.mem_append_left _) fun hd => List.mem_append_right _ (List.mem_filter.1 hd).1)
    · rcases List.mem_cons.1 hd with rfl | hd
      · exact hssh _ (posixNorm_ssh _)
      · rcases List.mem_cons.1 hd with rfl | hd
        · rw [ha]
          exact hssh _ (posixNorm_ssh a)
        · rw [List.mem_singleton.1 hd]
          decide

end Checks

/-! ## Where a path leads -/

section Places
variable {shape : Shape} {n : Nat} {cs p : List Name} {c : Name}

/-- A directory's path, if it leads anywhere, is its real path. -/
def OwnDir (links : Nat) (t : Tree) (path : Str) : Prop :=
  ∀ m d, follow t.shape links [] (split '/' path) = some (m, d) → pathText d = path

/-- No link stands at the path. -/
def NoLink (links : Nat) (t : Tree) (path : Str) : Prop :=
  ∀ p dest, entryAt t.shape links path = some p → t.shape p ≠ some (.link dest)

theorem follow_pathText (hroot : shape [] = some .dir) (hcs : Clean cs) : follow shape n [] (split '/' (pathText cs)) = follow shape n [] cs := by
  by_cases h : cs = []
  · subst h
    have hsplit : split '/' (pathText []) = [[], []] := rfl
    rw [hsplit, follow_skip hroot, follow_skip hroot]
  · rw [split_pathText h hcs.noSlash, follow_skip hroot]

theorem through_of_follow {m : Nat} (hroot : shape [] = some .dir) (h : follow shape n [] cs = some (m, cs)) (hdir : shape cs = some .dir) :
    Through shape [] cs := (follow_standing (standing_root hroot) h).through hdir

theorem OwnDir.eq {links : Nat} {t : Tree} (h : OwnDir links t (pathText cs)) (hcs : Clean cs) {m : Nat} {d : List Name}
    (hd : follow t.shape links [] cs = some (m, d)) : d = cs := by
  have hlegal : ∀ c ∈ d, c ≠ [] ∧ '/' ∉ c := by
    have hstand := follow_standing (standing_root Tree.shape_root) hd
    have hsome : (t.shape d).isSome := by
      obtain ⟨-, hp | ⟨q, c, hp, -, -, hsome⟩⟩ := hstand
      · simp only at hp
        rw [hp, Tree.shape_root]
        rfl
      · exact hsome
    exact fun c hc => ⟨(Tree.legal_of_shape hsome c hc).1.1, (Tree.legal_of_shape hsome c hc).2.1⟩
  refine pathText_injective hlegal (fun c hc => ⟨(hcs c hc).1.1, (hcs c hc).2.1⟩) (h m d ?_)
  rw [follow_pathText Tree.shape_root hcs, hd]

section Own
variable {links : Nat} {t : Tree} (hown : OwnDir links t (pathText cs)) (hc : Clean (cs ++ [c]))
include hown hc

theorem entryAt_own (hp : entryAt t.shape links (pathText (cs ++ [c])) = some p) : p = cs ++ [c] ∧ Through t.shape [] cs := by
  have hcs := hc.of_prefix (List.prefix_append cs [c])
  rw [entryAt, split_pathText (by simp) hc.noSlash, lplace_skip Tree.shape_root (by simp), lplace_concat (hc c (by simp)).1] at hp
  obtain ⟨⟨m, d⟩, hd, hfound⟩ := Option.bind_eq_some_iff.1 hp
  obtain rfl := hown.eq hcs hd
  split at hfound
  · rename_i hthere
    exact ⟨(Option.some.inj hfound).symm, through_of_follow Tree.shape_root hd hthere.1⟩
  · cases hfound

theorem newPlace_own (hp : newPlace t.shape links (pathText (cs ++ [c])) = some p) : p = cs ++ [c] ∧ Through t.shape [] cs := by
  have hcs := hc.of_prefix (List.prefix_append cs [c])
  have hsplit : split '/' (pathText (cs ++ [c])) = ([] :: cs) ++ [c] := split_pathText (by simp) hc.noSlash
  unfold newPlace at hp
  rw [hsplit, List.getLast?_concat, List.dropLast_concat] at hp
  simp only at hp
  rw [if_pos (hc c (by simp)).1, follow_skip Tree.shape_root] at hp
  obtain ⟨⟨m, d⟩, hd, hfound⟩ := Option.bind_eq_some_iff.1 hp
  obtain rfl := hown.eq hcs hd
  split at hfound
  · rename_i hdir
    exact ⟨(Option.some.inj hfound).symm, through_of_follow Tree.shape_root hd hdir⟩
  · cases hfound

end Own
end Places

/-! ## What one operation touches -/

section Operations
variable {r : Remote} {W : List Name → Prop} {s : Session} {path : Str}

/-- All that has been touched has the property. -/
def Touched (W : List Name → Prop) (s : Session) : Prop := ∀ p ∈ s.touched, W p

theorem change_touched {f : Tree → Except Fault (List (List Name) × Tree)} (hs : Touched W s)
    (h : ∀ ps t', f s.tree = .ok (ps, t') → ∀ p ∈ ps, W p) : Touched W (change f s).2 := by
  unfold change
  cases hf : f s.tree with
  | error e => exact hs
  | ok out =>
    obtain ⟨ps, t'⟩ := out
    exact fun p hp => (List.mem_append.1 hp).elim (hs p) (h ps t' hf p)

/-- A change that fails leaves all as it was. -/
theorem change_error {f : Tree → Except Fault (List (List Name) × Tree)} {e : Fault} (h : (change f s).1 = .error e) : (change f s).2 = s := by
  unfold change at h ⊢
  cases hf : f s.tree with
  | error e' => rfl
  | ok out =>
    rw [hf] at h
    cases h

variable (r s path) in
/-- What `open` does: the place it found, now a file. -/
theorem openWrite_cases (root : Bool) : (openWrite r root path s).2 = s ∨
    ∃ p h, openPlace s.tree.shape r.links path = some p ∧ (openWrite r root path s).2 = ⟨s.tree.put p .other h, s.touched ++ [p]⟩ := by
  unfold openWrite change
  simp only
  cases hp : openPlace s.tree.shape r.links path with
  | none => exact Or.inl rfl
  | some p =>
    simp only
    by_cases hmay : root = false ∧ r.may p = false
    · rw [if_pos hmay]
      exact Or.inl rfl
    · rw [if_neg hmay]
      by_cases hlegal : ∀ c ∈ p, Legal c
      · rw [dif_pos hlegal]
        exact Or.inr ⟨p, hlegal, rfl, rfl⟩
      · rw [dif_neg hlegal]
        exact Or.inl rfl

variable (r s path) in
theorem fsUnlink_cases : (fsUnlink r path s).2 = s ∨
    ∃ p, entryAt s.tree.shape r.links path = some p ∧ s.tree.shape p ≠ some .dir ∧ (fsUnlink r path s).2 = ⟨s.tree.del p, s.touched ++ [p]⟩ := by
  unfold fsUnlink change
  simp only
  cases hp : entryAt s.tree.shape r.links path with
  | none => exact Or.inl rfl
  | some p =>
    simp only
    by_cases hdir : s.tree.shape p = some .dir
    · rw [if_pos hdir]
      exact Or.inl rfl
    · rw [if_neg hdir]
      by_cases hmay : r.may p = false
      · rw [if_pos hmay]
        exact Or.inl rfl
      · rw [if_neg hmay]
        exact Or.inr ⟨p, rfl, hdir, rfl⟩

/-- What `open` has opened is a file. -/
theorem openWrite_ok {root : Bool} {u : Unit} (h : (openWrite r root path s).1 = .ok u) :
    ∃ p, openPlace s.tree.shape r.links path = some p ∧ (p ≠ [] → (openWrite r root path s).2.tree.shape p = some .other) := by
  unfold openWrite change at h ⊢
  simp only at h ⊢
  cases hp : openPlace s.tree.shape r.links path with
  | none =>
    rw [hp] at h
    cases h
  | some p =>
    rw [hp] at h
    simp only at h ⊢
    split at h
    · rename_i heq
      split at heq
      · cases heq
      · split at heq
        · rename_i hlegal
          obtain ⟨rfl, rfl⟩ := Prod.mk.inj (Except.ok.inj heq)
          refine ⟨p, rfl, fun hne => ?_⟩
          exact (Tree.shape_put hne hlegal p).trans (if_pos rfl)
        · cases heq
    · cases h

theorem fsUnlink_le {x : List Name} {k : Kind} (h : (fsUnlink r path s).2.tree.shape x = some k) : s.tree.shape x = some k := by
  rcases fsUnlink_cases r s path with heq | ⟨p, -, hdir, heq⟩
  · rwa [heq] at h
  · rw [heq, Tree.shape_del (Tree.ne_root_of_shape hdir)] at h
    split at h
    · cases h
    · exact h

variable (r s path) in
theorem fsMkdir_cases : (fsMkdir r path s).2 = s ∨
    ∃ p h, newPlace s.tree.shape r.links path = some p ∧ (fsMkdir r path s).2 = ⟨s.tree.put p .dir h, s.touched ++ [p]⟩ := by
  unfold fsMkdir change
  simp only
  cases hp : newPlace s.tree.shape r.links path with
  | none => exact Or.inl rfl
  | some p =>
    simp only
    by_cases hthere : (s.tree.shape p).isSome = true
    · rw [if_pos hthere]
      exact Or.inl rfl
    · rw [if_neg hthere]
      by_cases hmay : r.may p = false
      · rw [if_pos hmay]
        exact Or.inl rfl
      · rw [if_neg hmay]
        by_cases hlegal : ∀ c ∈ p, Legal c
        · rw [dif_pos hlegal]
          exact Or.inr ⟨p, hlegal, rfl, rfl⟩
        · rw [dif_neg hlegal]
          exact Or.inl rfl

variable (r s) in
theorem fsRename_cases (src dest : Str) : (fsRename r src dest s).2 = s ∨
    ∃ p q h, entryAt s.tree.shape r.links src = some p ∧ newPlace s.tree.shape r.links dest = some q ∧
      (fsRename r src dest s).2 = ⟨renamed s.tree p q h, s.touched ++ movedPlaces s.tree p q⟩ := by
  unfold fsRename change
  simp only
  cases hp : entryAt s.tree.shape r.links src with
  | none => exact Or.inl rfl
  | some p =>
    cases hq : newPlace s.tree.shape r.links dest with
    | none => exact Or.inl rfl
    | some q =>
      simp only
      by_cases hfree : (s.tree.shape q).isSome = true ∨ p <+: q
      · rw [if_pos hfree]
        exact Or.inl rfl
      · rw [if_neg hfree]
        by_cases hmay : r.may p = false ∨ r.may q = false
        · rw [if_pos hmay]
          exact Or.inl rfl
        · rw [if_neg hmay]
          by_cases hlegal : ∀ c ∈ q, Legal c
          · rw [dif_pos hlegal]
            exact Or.inr ⟨p, q, hlegal, rfl, rfl, rfl⟩
          · rw [dif_neg hlegal]
            exact Or.inl rfl

/-- After an operation that leaves all as it was, or touches these places. -/
theorem touched_append {places : List (List Name)} {t' : Tree} {s' : Session} (hs : Touched W s)
    (h : s' = s ∨ s' = ⟨t', s.touched ++ places⟩) (hplaces : ∀ p ∈ places, W p) : Touched W s' := by
  rcases h with rfl | rfl
  · exact hs
  · exact fun p hp => (List.mem_append.1 hp).elim (hs p) (hplaces p)

theorem openWrite_touched {root : Bool} (hs : Touched W s) (h : ∀ p, openPlace s.tree.shape r.links path = some p → W p) :
    Touched W (openWrite r root path s).2 := by
  rcases openWrite_cases r s path root with heq | ⟨p, _, hp, heq⟩
  · rwa [heq]
  · exact touched_append hs (Or.inr heq) fun q hq => List.mem_singleton.1 hq ▸ h p hp

theorem fsUnlink_touched (hs : Touched W s) (h : ∀ p, entryAt s.tree.shape r.links path = some p → W p) : Touched W (fsUnlink r path s).2 := by
  rcases fsUnlink_cases r s path with heq | ⟨p, hp, -, heq⟩
  · rwa [heq]
  · exact touched_append hs (Or.inr heq) fun q hq => List.mem_singleton.1 hq ▸ h p hp

theorem fsMkdir_touched (hs : Touched W s) (h : ∀ p, newPlace s.tree.shape r.links path = some p → W p) : Touched W (fsMkdir r path s).2 := by
  rcases fsMkdir_cases r s path with heq | ⟨p, _, hp, heq⟩
  · rwa [heq]
  · exact touched_append hs (Or.inr heq) fun q hq => List.mem_singleton.1 hq ▸ h p hp

/-- A rename touches the two names; of a directory also all that is in it. -/
theorem fsRename_touched {src dest : Str} (hs : Touched W s)
    (h : ∀ p q, entryAt s.tree.shape r.links src = some p → newPlace s.tree.shape r.links dest = some q →
      W p ∧ W q ∧ (s.tree.shape p = some .dir → ∀ x, p <+: x → W x ∧ W (Tree.moved p q x))) : Touched W (fsRename r src dest s).2 := by
  rcases fsRename_cases r s src dest with heq | ⟨p, q, _, hp, hq, heq⟩
  · rwa [heq]
  · obtain ⟨hwp, hwq, hbelow⟩ := h p q hp hq
    refine touched_append hs (Or.inr heq) fun x hx => ?_
    unfold movedPlaces at hx
    split at hx
    · rename_i hdir
      obtain ⟨y, hy, hxy⟩ := List.mem_flatMap.1 hx
      have hpy : p <+: y := of_decide_eq_true (List.mem_filter.1 hy).2
      rcases List.mem_cons.1 hxy with rfl | hxy
      · exact (hbelow hdir _ hpy).1
      · exact List.mem_singleton.1 hxy ▸ (hbelow hdir y hpy).2
    · rcases List.mem_cons.1 hx with rfl | hx
      · exact hwp
      · exact List.mem_singleton.1 hx ▸ hwq

end Operations

/-! ## A write beside the file -/

section WriteFile
variable {r : Remote} {w : Site} {cs : List Name} {name : Name}

theorem pathText_concat_append (cs : List Name) (c e : Name) : pathText (cs ++ [c]) ++ e = pathText (cs ++ [c ++ e]) := by
  by_cases h : cs = []
  · subst h
    rfl
  · unfold pathText
    rw [join_append '/' h (by simp), join_append '/' h (by simp)]
    simp [join]

/-- While the file is written: its directory stands, nothing outside has been touched, and `open` and `tee` meet no link. -/
structure Writing (r : Remote) (w : Site) (cs : List Name) (name : Name) (root : Bool) (s : Session) : Prop where
  through : Through s.tree.shape [] cs
  touched : Touched (Within w) s
  tmpLink : ∀ dest, s.tree.shape (cs ++ [name ++ lit ".tmp"]) ≠ some (.link dest)
  destLink : root = true → ∀ dest, s.tree.shape (cs ++ [name]) ≠ some (.link dest)

variable {root : Bool} {s : Session}

/-- Something that is no link comes to stand, or nothing does. -/
theorem Writing.update {c : Name} {k : Option Kind} {t' : Tree} {places : List (List Name)} (h : Writing r w cs name root s)
    (hk : ∀ dest, k ≠ some (.link dest)) (hshape : ∀ x, t'.shape x = if x = cs ++ [c] then k else s.tree.shape x)
    (hplaces : ∀ p ∈ places, Within w p) : Writing r w cs name root ⟨t', s.touched ++ places⟩ := by
  have hlink : ∀ {x}, (∀ dest, s.tree.shape x ≠ some (.link dest)) → ∀ dest, t'.shape x ≠ some (.link dest) := by
    intro x hx dest
    rw [hshape]
    split
    · exact hk dest
    · exact hx dest
  refine ⟨h.through.congr fun p hp => ?_, fun p hp => (List.mem_append.1 hp).elim (h.touched p) (hplaces p), hlink h.tmpLink,
    fun hroot => hlink (h.destLink hroot)⟩
  rw [hshape, if_neg]
  rintro rfl
  have hlen := hp.length_le
  rw [List.nil_append, List.length_append, List.length_singleton] at hlen
  omega

theorem ownDir_of_through {links : Nat} {t : Tree} (h : Through t.shape [] cs) (hcs : Clean cs) : OwnDir links t (pathText cs) := by
  intro m d hd
  rw [follow_pathText Tree.shape_root hcs, follow_through h] at hd
  rw [(Prod.mk.inj (Option.some.inj hd)).2.symm]
  rfl

/-- A deletion beside the file. -/
theorem Writing.unlink {c : Name} (h : Writing r w cs name root s) (hc : Clean (cs ++ [c])) (hw : Within w (cs ++ [c])) :
    Writing r w cs name root (fsUnlink r (pathText (cs ++ [c])) s).2 := by
  rcases fsUnlink_cases r s (pathText (cs ++ [c])) with heq | ⟨p, hp, -, heq⟩
  · rwa [heq]
  · obtain ⟨rfl, -⟩ := entryAt_own (ownDir_of_through h.through (hc.of_prefix (List.prefix_append cs [c]))) hc hp
    rw [heq]
    refine h.update (c := c) (k := none) (fun dest heq => by cases heq) (fun x => Tree.shape_del (by simp) x) ?_
    exact fun p hp => List.mem_singleton.1 hp ▸ hw

/-- `open` of the temporary file. -/
theorem Writing.openTmp (h : Writing r w cs name root s) (hc : Clean (cs ++ [name ++ lit ".tmp"])) (hw : Within w (cs ++ [name ++ lit ".tmp"])) :
    Writing r w cs name root (openWrite r false (pathText (cs ++ [name ++ lit ".tmp"])) s).2 := by
  rcases openWrite_cases r s (pathText (cs ++ [name ++ lit ".tmp"])) false with heq | ⟨p, hlegal, hp, heq⟩
  · rwa [heq]
  · obtain rfl := openPlace_pathText h.through (hc _ (by simp)).1 hc.noSlash h.tmpLink hp
    rw [heq]
    refine h.update (c := name ++ lit ".tmp") (k := some .other) (fun dest heq => by cases heq) (fun x => Tree.shape_put (by simp) hlegal x) ?_
    exact fun p hp => List.mem_singleton.1 hp ▸ hw

section Whole
variable {role : Role} {up : Upload} (hname : Clean (cs ++ [name])) (htmp : Clean (cs ++ [name ++ lit ".tmp"]))
  (hwname : Within w (cs ++ [name])) (hwtmp : Within w (cs ++ [name ++ lit ".tmp"]))
include hname htmp hwname hwtmp

omit htmp hwtmp in
theorem putViaSudo_touched (h : Writing r w cs name true s) : Touched (Within w) (putViaSudo r (pathText (cs ++ [name])) up.length s).2 := by
  unfold putViaSudo
  refine asks_state h.touched fun _ _ => attempt_state ?_
  have htee : Touched (Within w) ((if r.sudoTee then openWrite r true (pathText (cs ++ [name])) else raise .other : Eff Session Fault Unit) s).2 := by
    split
    · refine openWrite_touched h.touched fun p hp => ?_
      rw [openPlace_pathText h.through (hname name (by simp)).1 hname.noSlash (h.destLink rfl) hp]
      exact hwname
    · exact h.touched
  generalize (if r.sudoTee then openWrite r true (pathText (cs ++ [name])) else raise .other : Eff Session Fault Unit) s = out at htee ⊢
  obtain ⟨res, s'⟩ := out
  cases res <;> exact htee

/-- Whatever went wrong: the temporary file goes, and root may write in place. -/
theorem fault_touched (hroot : root = decide (role = .privileged)) (written : Nat) (f : Fault) (h : Writing r w cs name root s) :
    Touched (Within w) ((do
      let _ ← attempt (fsUnlink r (pathText (cs ++ [name ++ lit ".tmp"])))
      match f with
      | .perm =>
        if role = .privileged ∧ up.client = true ∧ ¬ (written ≠ 0 ∧ up.seekable = false) then putViaSudo r (pathText (cs ++ [name])) up.length
        else raise ⟨.denied, writeDeniedMsg role⟩
      | .other => raise sshError : Eff Session FilesError Unit) s).2 := by
  have hgone := h.unlink htmp hwtmp
  refine attempt_state ?_
  cases f with
  | other => exact hgone.touched
  | perm =>
    simp only
    split
    · rename_i hcond
      rw [hroot, decide_eq_true hcond.1] at hgone
      exact putViaSudo_touched hname hwname hgone
    · exact hgone.touched

theorem writeFile_touched (hroot : root = decide (role = .privileged)) (h : Writing r w cs name root s) :
    Touched (Within w) (writeFile r role up (pathText (cs ++ [name])) s).2 := by
  unfold writeFile
  simp only [pathText_concat_append]
  have hopen := h.openTmp htmp hwtmp
  refine attempt_state ?_
  cases hres : (openWrite r false (pathText (cs ++ [name ++ lit ".tmp"])) s).1 with
  | error f => exact fault_touched hname htmp hwname hwtmp hroot 0 f hopen
  | ok u =>
    simp only
    split
    · exact attempt_state (attempt_state ((hopen.unlink htmp hwtmp).unlink htmp hwtmp).touched)
    · have hgone := hopen.unlink hname hwname
      refine attempt_state (attempt_state ?_)
      cases hren : (fsRename r (pathText (cs ++ [name ++ lit ".tmp"])) (pathText (cs ++ [name]))
          (fsUnlink r (pathText (cs ++ [name])) (openWrite r false (pathText (cs ++ [name ++ lit ".tmp"])) s).2).2).1 with
      | error f =>
        simp only
        rw [show (fsRename r (pathText (cs ++ [name ++ lit ".tmp"])) (pathText (cs ++ [name])) _).2 = _ from change_error hren]
        exact fault_touched hname htmp hwname hwtmp hroot up.length f hgone
      | ok u =>
        refine fsRename_touched hgone.touched fun p q hp hq => ?_
        have hown : OwnDir r.links _ _ := ownDir_of_through hgone.through (hname.of_prefix (List.prefix_append cs [name]))
        obtain ⟨rfl, -⟩ := entryAt_own hown htmp hp
        obtain ⟨rfl, -⟩ := newPlace_own hown hname hq
        refine ⟨hwtmp, hwname, fun hdir => ?_⟩
        have hdir' := fsUnlink_le hdir
        obtain ⟨p, hp, hfile⟩ := openWrite_ok hres
        obtain rfl := openPlace_pathText h.through (htmp _ (by simp)).1 htmp.noSlash h.tmpLink hp
        rw [hfile (by simp)] at hdir'
        cases hdir'

end Whole

end WriteFile

/-! ## The verbs -/

section Verbs
variable {r : Remote} {w : Site} {t : Tree} {s : Session}

theorem notDenied_of_raise {path : Str} {u : Unit} (h : raiseDenied w path = .ok u) : w.isDenied path = .ok false := by
  obtain ⟨d, hd, h⟩ := except_bind_eq_ok.1 h
  rw [raiseIf_eq_ok, Bool.not_eq_true] at h
  rw [hd, h]

theorem checks_of_raise {path jail : Str} {u : Unit} (h : raiseBlocked w path jail = .ok u) :
    underJail path jail = true ∧ w.isDenied path = .ok false := by
  obtain ⟨_, hunder, h⟩ := except_bind_eq_ok.1 h
  rw [raiseIf_eq_ok, Bool.not_eq_false] at hunder
  exact ⟨hunder, notDenied_of_raise h⟩

theorem normalizeRemote_text (links : Nat) (t : Tree) (cs : List Name) : ∃ ds, normalizeRemote links t (pathText cs) = pathText ds ∧ Clean ds := by
  unfold normalizeRemote
  split <;> exact posixNorm_abs (slash_pathText _)

/-- What `_assert_in_jail` returns is the text of a place within. -/
theorem assertInJail_text {links : Nat} {cs : List Name} (hcs : Clean cs) {path : Str}
    (h : w.assertInJail links t (pathText cs) = .ok path) : ∃ ds, path = pathText ds ∧ Clean ds ∧ Within w ds := by
  obtain ⟨hpath, ⟨jail, hjail, hunder⟩, hdenied⟩ := assertInJail_ok h
  obtain ⟨ds, hds, hclean⟩ := normalizeRemote_text links t cs
  rw [posixNorm_pathText hcs, hds] at hpath
  subst hpath
  exact ⟨ds, rfl, hclean, within_of_checks hclean hjail hunder hdenied⟩

/-- The path is the text of a place below the jail. -/
def InJail (w : Site) (path : Str) : Prop :=
  ∃ js rest, w.jailPath = .ok (pathText js) ∧ path = pathText (js ++ rest) ∧ Clean (js ++ rest)

theorem inJail_of_under {jail : Str} {ds : List Name} (hds : Clean ds) (hjail : w.jailPath = .ok jail)
    (h : underJail (pathText ds) jail = true) : InJail w (pathText ds) := by
  obtain ⟨js, rfl, hjs⟩ := jailPath_ok hjail
  obtain ⟨rest, rfl⟩ := (underJail_iff hjs hds).1 h
  exact ⟨js, rest, hjail, rfl, hds⟩

theorem inJail_of_assert {links : Nat} {cs : List Name} (hcs : Clean cs) {path : Str} (h : w.assertInJail links t (pathText cs) = .ok path) :
    InJail w path := by
  obtain ⟨ds, rfl, hds, ⟨js, hjs, rest, rfl⟩, -⟩ := assertInJail_text hcs h
  exact ⟨js, rest, hjs, rfl, hds⟩

theorem clean_sanitized {name base : Str} (h : sanitizeBasename name = .ok base) : Entry base ∧ '/' ∉ base ∧ '\\' ∉ base := by
  unfold sanitizeBasename at h
  simp only at h
  split at h
  · cases h
  · split at h
    · cases h
    · rename_i hbad
      obtain rfl := Except.ok.inj h
      rw [not_or, not_or, not_or] at hbad
      refine ⟨⟨hbad.1, hbad.2.1, hbad.2.2.1⟩, fun hslash => ?_, fun hback => ?_⟩
      · have := mem_of_mem_strip hslash
        unfold basename at this
        exact notMem_takeWhile '/' _ (List.mem_reverse.1 this)
      · have := mem_of_mem_strip hback
        unfold basename at this
        have := (List.takeWhile_subset _) (List.mem_reverse.1 this)
        exact notMem_slashed name (mem_of_mem_strip (List.mem_reverse.1 this))

theorem clean_concat {cs : List Name} {c : Name} (hcs : Clean cs) (hc : Entry c ∧ '/' ∉ c ∧ '\\' ∉ c) : Clean (cs ++ [c]) :=
  fun x hx => (List.mem_append.1 hx).elim (hcs x) fun hx => List.mem_singleton.1 hx ▸ hc

theorem clean_tmp {c : Name} (hc : Entry c ∧ '/' ∉ c ∧ '\\' ∉ c) : Entry (c ++ lit ".tmp") ∧ '/' ∉ c ++ lit ".tmp" ∧ '\\' ∉ c ++ lit ".tmp" := by
  have hlong : ∀ u : Str, u.length < 4 → c ++ lit ".tmp" ≠ u := by
    intro u hu heq
    have hlen := congrArg List.length heq
    rw [List.length_append, show (lit ".tmp").length = 4 from rfl] at hlen
    omega
  refine ⟨⟨hlong [] (by decide), hlong (lit ".") (by decide), hlong (lit "..") (by decide)⟩, fun h => ?_, fun h => ?_⟩
  · exact (List.mem_append.1 h).elim hc.2.1 (by decide)
  · exact (List.mem_append.1 h).elim hc.2.2 (by decide)

theorem child_text {cs : List Name} {c : Name} (hcs : Clean cs) (hc : Entry c ∧ '/' ∉ c ∧ '\\' ∉ c) :
    posixNorm (posixJoin (pathText cs) c) = pathText (cs ++ [c]) := by
  rw [posixJoin_pathText (fun x hx => ⟨(hcs x hx).1.1, (hcs x hx).2.1⟩) hc.2.1, posixNorm_pathText (clean_concat hcs hc)]

theorem Within.child {cs : List Name} {c : Name} (h : Within w cs) (hclean : Clean (cs ++ [c]))
    (hden : w.isDenied (pathText (cs ++ [c])) = .ok false) : Within w (cs ++ [c]) := by
  obtain ⟨⟨js, hjs, hle⟩, -⟩ := h
  have hle := hle.trans (List.prefix_append cs [c])
  exact within_of_checks hclean hjs ((underJail_iff (hclean.of_prefix hle) hclean).2 hle) hden

/-- The temporary file stands beside. -/
theorem Within.tmp {cs : List Name} (hcs : Within w cs) (c : Name) : Within w (cs ++ [c ++ lit ".tmp"]) := by
  obtain ⟨⟨js, hjs, hle⟩, hden⟩ := hcs
  refine ⟨⟨js, hjs, hle.trans (List.prefix_append _ _)⟩, fun denies hd ds hds hmem hdx => ?_⟩
  rcases List.prefix_concat_iff.1 hdx with rfl | hdc
  · have hend := extraDenies_tmp hd _ hmem
    rw [← pathText_concat_append] at hend
    exact absurd (List.isSuffixOf_iff_suffix.2 (List.suffix_append _ _)) (Bool.eq_false_iff.1 hend)
  · exact hden denies hd ds hds hmem hdc

/-- A directory that `lstat` finds stands where its path says. -/
theorem through_of_lstat {links : Nat} {cs : List Name} (hcs : Clean cs) (hown : OwnDir links t (pathText cs))
    (h : lstat links t (pathText cs) = .ok .dir) : Through t.shape [] cs := by
  unfold lstat at h
  cases hp : entryAt t.shape links (pathText cs) with
  | none =>
    rw [hp] at h
    cases h
  | some p =>
    rw [hp, Option.bind_some] at h
    cases hk : t.shape p with
    | none =>
      rw [hk] at h
      cases h
    | some k =>
      rw [hk] at h
      obtain rfl := Except.ok.inj h
      obtain ⟨m, hm⟩ := follow_of_lplace hp hk
      rw [follow_pathText Tree.shape_root hcs] at hm
      obtain rfl := hown.eq hcs hm
      exact through_of_follow Tree.shape_root hm hk

theorem NoLink.place {links : Nat} {cs : List Name} {c : Name} (h : NoLink links t (pathText (cs ++ [c]))) (hthrough : Through t.shape [] cs)
    (hclean : Clean (cs ++ [c])) (dest : Str) : t.shape (cs ++ [c]) ≠ some (.link dest) := by
  intro hlink
  refine h (cs ++ [c]) dest ?_ hlink
  rw [entryAt_pathText hthrough (hclean c (by simp)).1 hclean.noSlash, hlink]
  rfl

/-- When a file is written where its path says. -/
def PutGuard (r : Remote) (w : Site) (t : Tree) (relDir filename : Str) : Prop :=
  ∀ name jail dir path, sanitizeBasename filename = .ok name → w.resolveLogical relDir = .ok (jail, dir) →
    w.assertInJail r.links t dir = .ok path →
    OwnDir r.links t path ∧
    w.isDenied (posixNorm (posixJoin path name)) = .ok false ∧
    NoLink r.links t (posixNorm (posixJoin path name) ++ lit ".tmp") ∧
    (normalizeRole w.role = .ok .privileged → NoLink r.links t (posixNorm (posixJoin path name)))

theorem putFile_touched {relDir filename : Str} {up : Upload} (hguard : PutGuard r w t relDir filename) :
    Touched (Within w) (putFile r w relDir filename up ⟨t, []⟩).2 := by
  have hs : Touched (Within w) ⟨t, []⟩ := fun p hp => absurd hp List.not_mem_nil
  unfold putFile
  refine asks_state hs fun _ _ => asks_state hs fun name hname => asks_state hs fun role hrole => asks_state hs fun _ _ =>
    asks_state hs fun pair hres => ?_
  obtain ⟨jail, dir⟩ := pair
  refine asks_state hs fun _ _ => asks_state hs fun _ _ => asks_state hs fun _ _ => asks_state hs fun path hpath =>
    asks_state hs fun kind hkind => asks_state hs fun _ hdir => asks_state hs fun _ _ => asks_state hs fun _ _ => ?_
  have hdone : Touched (Within w) (writeFile r role up (posixNorm (posixJoin path name)) ⟨t, []⟩).2 := by
    obtain ⟨-, ds, rfl, hds⟩ := resolveLogical_ok hres
    obtain ⟨hown, hden, htmp, hdest⟩ := hguard name jail _ path hname hres hpath
    obtain ⟨cs, rfl, hcs, hwcs⟩ := assertInJail_text hds hpath
    have hc := clean_sanitized hname
    have hclean := clean_concat hcs hc
    have hcleanTmp := clean_concat hcs (clean_tmp hc)
    rw [child_text hcs hc] at hden htmp hdest ⊢
    rw [pathText_concat_append] at htmp
    rw [raiseIf_eq_ok, not_not] at hdir
    have hthrough := through_of_lstat hcs hown (hdir ▸ hkind)
    have hwname := hwcs.child hclean hden
    refine writeFile_touched hclean hcleanTmp hwname (hwcs.tmp name) rfl ⟨hthrough, hs, htmp.place hthrough hcleanTmp, fun hroot => ?_⟩
    rw [of_decide_eq_true hroot] at hrole
    exact (hdest hrole).place hthrough hclean
  exact bind_state hdone fun _ s' hok => by
    rw [hok] at hdone
    exact asks_state hdone fun _ _ => hdone

/-- The folder of what is made is where its path says, and the new name is not denied. -/
def MkdirGuard (r : Remote) (w : Site) (t : Tree) (relDir name : Str) : Prop :=
  ∀ base jail dir path, sanitizeBasename name = .ok base → w.resolveLogical relDir = .ok (jail, dir) →
    w.assertInJail r.links t dir = .ok path → OwnDir r.links t path ∧ w.isDenied (posixNorm (posixJoin path base)) = .ok false

theorem mkdir_touched {relDir name : Str} (hguard : MkdirGuard r w t relDir name) : Touched (Within w) (mkdir r w relDir name ⟨t, []⟩).2 := by
  have hs : Touched (Within w) ⟨t, []⟩ := fun p hp => absurd hp List.not_mem_nil
  unfold mkdir
  refine asks_state hs fun _ _ => asks_state hs fun base hbase => asks_state hs fun pair hres => ?_
  obtain ⟨jail, dir⟩ := pair
  refine asks_state hs fun _ _ => asks_state hs fun _ _ => asks_state hs fun _ _ => asks_state hs fun path hpath =>
    asks_state hs fun _ _ => attempt_state ?_
  have hdone : Touched (Within w) (fsMkdir r (posixNorm (posixJoin path base)) ⟨t, []⟩).2 := by
    obtain ⟨-, ds, rfl, hds⟩ := resolveLogical_ok hres
    obtain ⟨hown, hden⟩ := hguard base jail _ path hbase hres hpath
    obtain ⟨cs, rfl, hcs, hwcs⟩ := assertInJail_text hds hpath
    have hc := clean_sanitized hbase
    have hclean := clean_concat hcs hc
    rw [child_text hcs hc] at hden ⊢
    refine fsMkdir_touched hs fun p hp => ?_
    obtain ⟨rfl, -⟩ := newPlace_own hown hclean hp
    exact hwcs.child hclean hden
  generalize fsMkdir r (posixNorm (posixJoin path base)) ⟨t, []⟩ = out at hdone ⊢
  obtain ⟨res, s'⟩ := out
  cases res with
  | error f => exact hdone
  | ok u => exact asks_state hdone fun _ _ => hdone

/-- The two names stand where their paths say, and what is moved with a folder is not denied. -/
def RenameGuard (r : Remote) (w : Site) (t : Tree) (relDir srcName destName : Str) : Prop :=
  ∀ src dest jail dir path, sanitizeBasename srcName = .ok src → sanitizeBasename destName = .ok dest →
    w.resolveLogical relDir = .ok (jail, dir) → w.assertInJail r.links t dir = .ok path →
    OwnDir r.links t path ∧
    (lstat r.links t (posixNorm (posixJoin path src)) = .ok .dir →
      NoneBelow w (posixNorm (posixJoin path src)) ∧ NoneBelow w (posixNorm (posixJoin path dest)))

theorem moved_le {p q x : List Name} (h : p <+: x) : q <+: Tree.moved p q x := by
  unfold Tree.moved
  rw [if_pos h]
  exact List.prefix_append q _

theorem rename_touched {relDir srcName destName : Str} (hguard : RenameGuard r w t relDir srcName destName) :
    Touched (Within w) (rename r w relDir srcName destName ⟨t, []⟩).2 := by
  have hs : Touched (Within w) ⟨t, []⟩ := fun p hp => absurd hp List.not_mem_nil
  unfold rename
  refine asks_state hs fun src hsrc => asks_state hs fun dest hdest => asks_state hs fun pair hres => ?_
  obtain ⟨jail, dir⟩ := pair
  refine asks_state hs fun path hpath => asks_state hs fun _ hcs => asks_state hs fun _ hcd => asks_state hs fun _ _ => attempt_state ?_
  have hdone : Touched (Within w) (fsRename r (posixNorm (posixJoin path src)) (posixNorm (posixJoin path dest)) ⟨t, []⟩).2 := by
    obtain ⟨-, ds, rfl, hds⟩ := resolveLogical_ok hres
    obtain ⟨hown, hbelow⟩ := hguard src dest jail _ path hsrc hdest hres hpath
    obtain ⟨cs, rfl, hclean, hwcs⟩ := assertInJail_text hds hpath
    have hs1 := clean_sanitized hsrc
    have hd1 := clean_sanitized hdest
    have hcleanSrc := clean_concat hclean hs1
    have hcleanDest := clean_concat hclean hd1
    rw [child_text hclean hs1] at hcs hbelow ⊢
    rw [child_text hclean hd1] at hcd hbelow ⊢
    have hws := hwcs.child hcleanSrc (checks_of_raise hcs).2
    have hwd := hwcs.child hcleanDest (checks_of_raise hcd).2
    refine fsRename_touched hs fun p q hp hq => ?_
    obtain ⟨rfl, -⟩ := entryAt_own hown hcleanSrc hp
    obtain ⟨rfl, -⟩ := newPlace_own hown hcleanDest hq
    refine ⟨hws, hwd, fun hdir x hx => ?_⟩
    obtain ⟨hns, hnd⟩ := hbelow (by rw [lstat, hp, Option.bind_some, hdir])
    exact ⟨hws.below (by simp) hns hx, hwd.below (by simp) hnd (moved_le hx)⟩
  generalize fsRename r (posixNorm (posixJoin path src)) (posixNorm (posixJoin path dest)) ⟨t, []⟩ = out at hdone ⊢
  obtain ⟨res, s'⟩ := out
  cases res with
  | error f => exact hdone
  | ok u => exact asks_state hdone fun _ _ => asks_state hdone fun _ _ => hdone

/-- What `docker cp` is documented to write: what its destination leads to, and what is below. -/
def CopiesBelow (r : Remote) : Prop :=
  ∀ spec t dest places t', r.dockerCp spec t dest = some (places, t') →
    ∀ p ∈ places, ∃ d, realpath t.shape r.links (split '/' dest) = some d ∧ d <+: p

/-- The destination stands where its path says, is no link, is not denied and holds nothing denied. -/
def CopyGuard (r : Remote) (w : Site) (t : Tree) (src destDir : Str) : Prop :=
  ∀ srcPath name jail dir path, parseContainerPath src = .ok srcPath →
    sanitizeBasename (if basename srcPath = [] then lit "copy" else basename srcPath) = .ok name →
    w.resolveLogical destDir = .ok (jail, dir) → w.assertInJail r.links t dir = .ok path →
    OwnDir r.links t path ∧ w.isDenied (posixNorm (posixJoin path name)) = .ok false ∧
    NoLink r.links t (posixNorm (posixJoin path name)) ∧ NoneBelow w (posixNorm (posixJoin path name))

/-- Where no link stands, a path resolves to itself. -/
theorem realpath_own {links : Nat} {cs p : List Name} {c : Name} (hown : OwnDir links t (pathText cs)) (hc : Clean (cs ++ [c]))
    (hlink : NoLink links t (pathText (cs ++ [c]))) (hp : realpath t.shape links (split '/' (pathText (cs ++ [c]))) = some p) :
    p = cs ++ [c] ∧ Through t.shape [] cs := by
  have hcs := hc.of_prefix (List.prefix_append cs [c])
  have hentry := (hc c (by simp)).1
  rw [split_pathText (by simp) hc.noSlash] at hp
  unfold realpath at hp
  rw [follow_skip Tree.shape_root, creat_skip Tree.shape_root (by simp), follow_append] at hp
  unfold creat creatPlace at hp
  rw [List.getLast?_concat, List.dropLast_concat] at hp
  simp only [if_pos hentry] at hp
  cases hf : follow t.shape links [] cs with
  | none =>
    rw [hf] at hp
    cases hp
  | some found =>
    obtain ⟨m, d⟩ := found
    obtain rfl := hown.eq hcs hf
    rw [hf] at hp
    simp only [Option.bind_some] at hp
    by_cases hdir : t.shape d = some .dir
    · have hthrough := through_of_follow Tree.shape_root hf hdir
      have hself : LeadsTo t.shape m d [] d := ⟨m, follow_nil t.shape m d⟩
      cases hk : t.shape (d ++ [c]) with
      | none =>
        rw [follow_concat_none hdir hentry hk] at hp
        simp only [hdir, hk, ne_eq, not_true_eq_false, if_false] at hp
        exact ⟨(Option.some.inj hp).symm, hthrough⟩
      | some k =>
        obtain ⟨m', hm⟩ := hself.follow hdir hentry hk fun dest heq => hlink.place hthrough hc dest (heq ▸ hk)
        rw [List.nil_append] at hm
        rw [hm] at hp
        exact ⟨(Option.some.inj hp).symm, hthrough⟩
    · have hstep : follow t.shape m d [c] = none := by
        cases m with
        | zero => exact if_pos hdir
        | succ m => exact if_pos hdir
      rw [hstep] at hp
      simp only [ne_eq, hdir, not_false_eq_true, if_true] at hp
      cases hp

theorem dockerCpInto_touched {client : Bool} {container src destDir : Str} (hdoc : CopiesBelow r) (hguard : CopyGuard r w t src destDir) :
    Touched (Within w) (dockerCpInto r w client container src destDir ⟨t, []⟩).2 := by
  have hs : Touched (Within w) ⟨t, []⟩ := fun p hp => absurd hp List.not_mem_nil
  unfold dockerCpInto
  refine asks_state hs fun _ _ => asks_state hs fun _ _ => asks_state hs fun srcPath hsrc => asks_state hs fun name hname =>
    asks_state hs fun pair hres => ?_
  obtain ⟨jail, dir⟩ := pair
  refine asks_state hs fun _ _ => asks_state hs fun path hpath => asks_state hs fun _ _ => asks_state hs fun _ _ => attempt_state ?_
  have hdone : Touched (Within w) (runDockerCp r (container ++ lit ":" ++ srcPath) (posixNorm (posixJoin path name)) ⟨t, []⟩).2 := by
    obtain ⟨-, ds, rfl, hds⟩ := resolveLogical_ok hres
    obtain ⟨hown, hden, hlink, hnone⟩ := hguard srcPath name jail _ path hsrc hname hres hpath
    obtain ⟨cs, rfl, hcs, hwcs⟩ := assertInJail_text hds hpath
    have hc := clean_sanitized hname
    have hclean := clean_concat hcs hc
    rw [child_text hcs hc] at hden hlink hnone ⊢
    refine change_touched hs fun ps t' hf p hp => ?_
    cases hcp : r.dockerCp (container ++ lit ":" ++ srcPath) t (pathText (cs ++ [name])) with
    | none =>
      rw [hcp] at hf
      cases hf
    | some out =>
      rw [hcp] at hf
      obtain rfl := Except.ok.inj hf
      obtain ⟨d, hd, hdp⟩ := hdoc _ _ _ _ _ hcp p hp
      obtain ⟨rfl, -⟩ := realpath_own hown hclean hlink hd
      exact (hwcs.child hclean hden).below (by simp) hnone hdp
  generalize runDockerCp r (container ++ lit ":" ++ srcPath) (posixNorm (posixJoin path name)) ⟨t, []⟩ = out at hdone ⊢
  obtain ⟨res, s'⟩ := out
  cases res with
  | error f => exact hdone
  | ok u => exact asks_state hdone fun _ _ => hdone

/-! ## Over several steps -/

/-- A missing directory is made where its resolved path says. -/
def SegGuard (r : Remote) (w : Site) (t : Tree) (acc seg : Str) : Prop :=
  ∀ base nxt, sanitizeBasename seg = .ok base → w.assertInJail r.links t (posixNorm (posixJoin acc base)) = .ok nxt →
    ∀ p, newPlace t.shape r.links nxt = some p → pathText p = nxt

theorem newPlace_names {links : Nat} {path : Str} {p : List Name} (h : newPlace t.shape links path = some p) : ∀ c ∈ p, c ≠ [] ∧ '/' ∉ c := by
  unfold newPlace at h
  cases hlast : (split '/' path).getLast? with
  | none =>
    rw [hlast] at h
    cases h
  | some c =>
    rw [hlast] at h
    simp only at h
    split at h
    · rename_i hc
      obtain ⟨d, -, h⟩ := Option.bind_eq_some_iff.1 h
      split at h
      · rename_i hdir
        obtain rfl := Option.some.inj h
        intro x hx
        rcases List.mem_append.1 hx with hx | hx
        · have hlegal := Tree.legal_of_shape (t := t) (by rw [hdir]; rfl) x hx
          exact ⟨hlegal.1.1, hlegal.2.1⟩
        · obtain rfl := List.mem_singleton.1 hx
          exact ⟨hc.1, notMem_of_mem_split (List.mem_of_getLast? hlast)⟩
      · cases h
    · cases h

/-- The path of one segment is resolved. -/
theorem ensureSeg_ok {jail acc seg : Str} {out : Str × Bool} {s' : Session} (h : ensureSeg r w jail acc seg s = (.ok out, s')) :
    ∃ base, sanitizeBasename seg = .ok base ∧ w.assertInJail r.links s.tree (posixNorm (posixJoin acc base)) = .ok out.1 := by
  unfold ensureSeg at h
  obtain ⟨base, s₁, hstep, h⟩ := bind_eq_ok.1 h
  obtain ⟨hbase, rfl⟩ := Prod.mk.inj hstep
  obtain ⟨nxt, s₂, hstep, h⟩ := bind_eq_ok.1 h
  obtain ⟨hnxt, rfl⟩ := Prod.mk.inj hstep
  obtain ⟨_, s₃, hblocked, h⟩ := bind_eq_ok.1 h
  obtain ⟨there, s₄, hthere, h⟩ := bind_eq_ok.1 h
  refine ⟨base, hbase, ?_⟩
  have hout : out.1 = nxt := by
    split at h
    · split at h
      · exact (congrArg Prod.fst (Except.ok.inj (Prod.mk.inj h).1)).symm
      · cases (Prod.mk.inj h).1
    · obtain ⟨res, s₅, hres, h⟩ := bind_eq_ok.1 h
      split at h
      · exact (congrArg Prod.fst (Except.ok.inj (Prod.mk.inj h).1)).symm
      · obtain ⟨again, s₆, hagain, h⟩ := bind_eq_ok.1 h
        split at h
        · exact (congrArg Prod.fst (Except.ok.inj (Prod.mk.inj h).1)).symm
        · cases (Prod.mk.inj h).1
  rw [hout]
  exact hnxt

theorem ensureSeg_text {jail seg : Str} {as : List Name} (has : Clean as) {out : Str × Bool} {s' : Session}
    (h : ensureSeg r w jail (pathText as) seg s = (.ok out, s')) : ∃ cs, out.1 = pathText cs ∧ Clean cs := by
  obtain ⟨base, hbase, hnxt⟩ := ensureSeg_ok h
  rw [child_text has (clean_sanitized hbase)] at hnxt
  obtain ⟨cs, hcs, hclean, -⟩ := assertInJail_text (clean_concat has (clean_sanitized hbase)) hnxt
  exact ⟨cs, hcs, hclean⟩

theorem ensureSeg_touched (jail : Str) {seg : Str} {as : List Name} (has : Clean as) (hs : Touched (Within w) s)
    (hguard : SegGuard r w s.tree (pathText as) seg) : Touched (Within w) (ensureSeg r w jail (pathText as) seg s).2 := by
  unfold ensureSeg
  refine asks_state hs fun base hbase => asks_state hs fun nxt hnxt => asks_state hs fun _ _ => asks_state hs fun there _ => ?_
  cases there with
  | ok kind =>
    simp only
    split
    · exact hs
    · exact hs
  | error e =>
    have hdone : Touched (Within w) (fsMkdir r nxt s).2 := by
      have hmade := hguard base nxt hbase hnxt
      rw [child_text has (clean_sanitized hbase)] at hnxt
      obtain ⟨cs, rfl, hcs, hw⟩ := assertInJail_text (clean_concat has (clean_sanitized hbase)) hnxt
      refine fsMkdir_touched hs fun p hp => ?_
      rw [pathText_injective (newPlace_names hp) (fun c hc => ⟨(hcs c hc).1.1, (hcs c hc).2.1⟩) (hmade p hp)]
      exact hw
    refine attempt_state ?_
    generalize fsMkdir r nxt s = out at hdone ⊢
    obtain ⟨res, s'⟩ := out
    cases res with
    | ok u => exact hdone
    | error f =>
      refine asks_state hdone fun again _ => ?_
      split
      · exact hdone
      · exact hdone

/-- Every segment of a run is made where its path says. -/
def EnsureGuard (r : Remote) (w : Site) (jail top : Str) (parts : List Str) (s : Session) : Prop :=
  ∀ pre seg post acc n s', parts = pre ++ seg :: post → ensureSegs r w jail top pre s = (.ok (acc, n), s') → SegGuard r w s'.tree acc seg

theorem ensureSegs_touched {jail : Str} {parts : List Str} : ∀ {as : List Name} {s : Session}, Clean as → Touched (Within w) s →
    EnsureGuard r w jail (pathText as) parts s → Touched (Within w) (ensureSegs r w jail (pathText as) parts s).2 := by
  induction parts with
  | nil => exact fun _ hs _ => hs
  | cons seg rest ih =>
    intro as s has hs hguard
    have hseg := ensureSeg_touched jail has hs (hguard [] seg rest _ 0 s rfl rfl)
    unfold ensureSegs
    refine bind_state hseg fun out s' hout => ?_
    rw [hout] at hseg
    obtain ⟨cs, htext, hcs⟩ := ensureSeg_text has hout
    obtain ⟨nxt, made⟩ := out
    obtain rfl : nxt = pathText cs := htext
    have hrest := ih hcs hseg fun pre seg' post acc n s'' hpre hrun => by
      have hrun' : ensureSegs r w jail (pathText as) (seg :: pre) s = (.ok (acc, n + if made then 1 else 0), s'') := by
        unfold ensureSegs
        rw [bind_of_ok hout]
        simp only
        rw [bind_of_ok hrun]
        rfl
      exact hguard (seg :: pre) seg' post acc _ s'' (by rw [hpre]; rfl) hrun'
    refine bind_state hrest fun out s'' hend => ?_
    rw [hend] at hrest
    exact hrest

def EnsureDirGuard (r : Remote) (w : Site) (t : Tree) (rel : Str) : Prop :=
  ∀ parts jail top acc, parseRel rel = .ok parts → w.resolveLogical [] = .ok (jail, top) → w.assertInJail r.links t top = .ok acc →
    EnsureGuard r w jail acc parts ⟨t, []⟩

theorem ensureDir_touched {rel : Str} (hguard : EnsureDirGuard r w t rel) : Touched (Within w) (ensureDir r w rel ⟨t, []⟩).2 := by
  have hs : Touched (Within w) ⟨t, []⟩ := fun p hp => absurd hp List.not_mem_nil
  unfold ensureDir
  refine asks_state hs fun parts hparts => asks_state hs fun pair hres => ?_
  obtain ⟨jail, top⟩ := pair
  refine asks_state hs fun acc hacc => ?_
  have hguard := hguard parts jail top acc hparts hres hacc
  obtain ⟨-, ds, rfl, hds⟩ := resolveLogical_ok hres
  obtain ⟨cs, rfl, hcs, -⟩ := assertInJail_text hds hacc
  have hdone := ensureSegs_touched hcs hs hguard
  refine bind_state hdone fun out s' hout => ?_
  rw [hout] at hdone
  exact asks_state hdone fun _ _ => hdone

theorem basename_pathText {q : List Name} {c : Name} (hc : '/' ∉ c) : basename (pathText (q ++ [c])) = c := by
  have htail : ∃ a, pathText (q ++ [c]) = a ++ '/' :: c := by
    by_cases h : q = []
    · subst h
      exact ⟨[], rfl⟩
    · refine ⟨pathText q, ?_⟩
      unfold pathText
      rw [join_append '/' h (by simp)]
      rfl
  obtain ⟨a, ha⟩ := htail
  unfold basename
  rw [ha, List.reverse_append, List.reverse_cons, List.append_assoc, List.singleton_append,
    takeWhile_append_cons (fun h => hc (List.mem_reverse.1 h)), List.reverse_reverse]

/-- What is moved stands where its path says, and so does the folder it goes to; with a folder nothing denied is moved. -/
def MoveGuard (r : Remote) (w : Site) (t : Tree) (destDir rel : Str) : Prop :=
  ∀ jail src path, w.resolveLogical rel = .ok (jail, src) → w.assertInJail r.links t src = .ok path →
    (∀ p, entryAt t.shape r.links path = some p → pathText p = path) ∧ OwnDir r.links t destDir ∧
    (lstat r.links t path = .ok .dir → NoneBelow w path ∧ NoneBelow w (posixNorm (posixJoin destDir (basename path))))

theorem OwnDir.mono {links : Nat} {t' : Tree} {path : Str} (h : OwnDir links t path)
    (hle : ∀ p k, t'.shape p = some k → t.shape p = some k) : OwnDir links t' path :=
  fun m d hd => h m d (follow_mono hle hd)

theorem moveOne_touched (overwrite : Bool) {jail rel : Str} {cs : List Name} (hcs : Clean cs) (hjail : w.jailPath = .ok jail)
    (hs : Touched (Within w) s) (hguard : MoveGuard r w s.tree (pathText cs) rel) :
    Touched (Within w) (moveOne r w jail (pathText cs) overwrite rel s).2 := by
  unfold moveOne
  refine asks_state hs fun pair hres => ?_
  obtain ⟨jail', src⟩ := pair
  refine asks_state hs fun path hpath => asks_state hs fun _ hroot => asks_state hs fun _ _ => asks_state hs fun _ hblocked => ?_
  obtain ⟨hentry, hown, hbelow⟩ := hguard jail' src path hres hpath
  obtain ⟨-, ds, rfl, hds⟩ := resolveLogical_ok hres
  obtain ⟨ss, rfl, hss, hwss⟩ := assertInJail_text hds hpath
  rw [raiseIf_eq_ok, not_or] at hroot
  obtain ⟨q, c, rfl⟩ : ∃ q c, ss = q ++ [c] := by
    rcases List.eq_nil_or_concat ss with rfl | ⟨q, c, rfl⟩
    · exact absurd rfl hroot.2
    · exact ⟨q, c, List.concat_eq_append⟩
  have hc := hss c (by simp)
  have hclean := clean_concat hcs hc
  rw [basename_pathText hc.2.1, child_text hcs hc] at hblocked hbelow ⊢
  have hwdest : Within w (cs ++ [c]) := within_of_checks hclean hjail (checks_of_raise hblocked).1 (checks_of_raise hblocked).2
  split
  · exact hs
  · refine asks_state hs fun _ _ => asks_state hs fun there _ => asks_state hs fun _ _ => asks_state hs fun _ _ => attempt_state ?_
    -- the rename, in a tree that has lost at most the file in its way
    have hrename : ∀ s', Touched (Within w) s' → (∀ p k, s'.tree.shape p = some k → s.tree.shape p = some k) →
        Touched (Within w) (fsRename r (pathText (q ++ [c])) (pathText (cs ++ [c])) s').2 := by
      intro s' hs' hle
      refine fsRename_touched hs' fun p p' hp hp' => ?_
      have hold : entryAt s.tree.shape r.links (pathText (q ++ [c])) = some p := lplace_mono hle hp
      obtain ⟨rfl, -⟩ := newPlace_own (hown.mono hle) hclean hp'
      have hsome := lplace_isSome Tree.shape_root hold
      obtain rfl : p = q ++ [c] := pathText_injective
        (fun x hx => ⟨(Tree.legal_of_shape hsome x hx).1.1, (Tree.legal_of_shape hsome x hx).2.1⟩)
        (fun x hx => ⟨(hss x hx).1.1, (hss x hx).2.1⟩) (hentry p hold)
      refine ⟨hwss, hwdest, fun hdir x hx => ?_⟩
      obtain ⟨hns, hnd⟩ := hbelow (by rw [lstat, hold, Option.bind_some, hle _ _ hdir])
      exact ⟨hwss.below (by simp) hns hx, hwdest.below (by simp) hnd (moved_le hx)⟩
    have hdone : Touched (Within w) ((do
        if there.isSome then fsUnlink r (pathText (cs ++ [c]))
        fsRename r (pathText (q ++ [c])) (pathText (cs ++ [c])) : Eff Session Fault Unit) s).2 := by
      split
      · have hgone : Touched (Within w) (fsUnlink r (pathText (cs ++ [c])) s).2 := by
          refine fsUnlink_touched hs fun p hp => ?_
          obtain ⟨rfl, -⟩ := entryAt_own hown hclean hp
          exact hwdest
        refine bind_state hgone fun _ s' hok => ?_
        have hs' : (fsUnlink r (pathText (cs ++ [c])) s).2 = s' := by rw [hok]
        rw [hs'] at hgone
        exact hrename s' hgone fun p k hk => fsUnlink_le (hs' ▸ hk)
      · exact hrename s hs fun _ _ hk => hk
    generalize (do
        if there.isSome then fsUnlink r (pathText (cs ++ [c]))
        fsRename r (pathText (q ++ [c])) (pathText (cs ++ [c])) : Eff Session Fault Unit) s = out at hdone ⊢
    obtain ⟨res, s'⟩ := out
    cases res with
    | error f => exact hdone
    | ok u => exact hdone

/-- Every step of a move meets the condition. -/
def MovesGuard (r : Remote) (w : Site) (jail destDir : Str) (overwrite : Bool) (names : List Str) (s : Session) : Prop :=
  ∀ pre rel post n s', names = pre ++ rel :: post → moveEach r w jail destDir overwrite pre s = (.ok n, s') → MoveGuard r w s'.tree destDir rel

theorem moveEach_touched {jail : Str} {overwrite : Bool} {cs : List Name} (hcs : Clean cs) (hjail : w.jailPath = .ok jail) {names : List Str} :
    ∀ {s : Session}, Touched (Within w) s → MovesGuard r w jail (pathText cs) overwrite names s →
      Touched (Within w) (moveEach r w jail (pathText cs) overwrite names s).2 := by
  induction names with
  | nil => exact fun hs _ => hs
  | cons rel rest ih =>
    intro s hs hguard
    have hone := moveOne_touched overwrite hcs hjail hs (hguard [] rel rest 0 s rfl rfl)
    unfold moveEach
    refine bind_state hone fun moved s' hmoved => ?_
    rw [hmoved] at hone
    have hrest := ih hone fun pre rel' post n s'' hpre hrun => by
      have hrun' : moveEach r w jail (pathText cs) overwrite (rel :: pre) s = (.ok (n + if moved then 1 else 0), s'') := by
        unfold moveEach
        rw [bind_of_ok hmoved, bind_of_ok hrun]
        rfl
      exact hguard (rel :: pre) rel' post _ s'' (by rw [hpre]; rfl) hrun'
    refine bind_state hrest fun n s'' hend => ?_
    rw [hend] at hrest
    exact hrest

def MoveManyGuard (r : Remote) (w : Site) (t : Tree) (srcRels : List Str) (destDirRel : Str) (overwrite : Bool) : Prop :=
  ∀ jail dir path, w.resolveLogical destDirRel = .ok (jail, dir) → w.assertInJail r.links t dir = .ok path →
    MovesGuard r w jail path overwrite (moveNames srcRels) ⟨t, []⟩

theorem moveMany_touched {srcRels : List Str} {destDirRel : Str} {overwrite : Bool} (hguard : MoveManyGuard r w t srcRels destDirRel overwrite) :
    Touched (Within w) (moveMany r w srcRels destDirRel overwrite ⟨t, []⟩).2 := by
  have hs : Touched (Within w) ⟨t, []⟩ := fun p hp => absurd hp List.not_mem_nil
  unfold moveMany
  refine asks_state hs fun _ _ => asks_state hs fun pair hres => ?_
  obtain ⟨jail, dir⟩ := pair
  refine asks_state hs fun path hpath => asks_state hs fun _ _ => asks_state hs fun _ _ => ?_
  have hguard := hguard jail dir path hres hpath
  obtain ⟨hjail, ds, rfl, hds⟩ := resolveLogical_ok hres
  obtain ⟨cs, rfl, hcs, -⟩ := assertInJail_text hds hpath
  have hdone := moveEach_touched hcs hjail hs hguard
  refine bind_state hdone fun n s' hmoved => ?_
  rw [hmoved] at hdone
  exact asks_state hdone fun _ _ => hdone

theorem writeText_touched {rel : Str} {length : Nat} {client : Bool}
    (hguard : PutGuard r w t (rpartition (slashed rel)).1 (if (rpartition (slashed rel)).2 = [] then rel else (rpartition (slashed rel)).2)) :
    Touched (Within w) (writeText r w rel length client ⟨t, []⟩).2 := by
  have hs : Touched (Within w) ⟨t, []⟩ := fun p hp => absurd hp List.not_mem_nil
  unfold writeText
  exact asks_state hs fun _ _ => asks_state hs fun _ _ => putFile_touched hguard

end Verbs

/-! ## Any verb -/

inductive Verb
  | putFile (relDir filename : Str) (up : Upload)
  | writeText (rel : Str) (length : Nat) (client : Bool)
  | mkdir (relDir name : Str)
  | ensureDir (rel : Str)
  | rename (relDir srcName destName : Str)
  | moveMany (srcRels : List Str) (destDirRel : Str) (overwrite : Bool)
  | dockerCpInto (client : Bool) (container src destDir : Str)

/-- The session after the verb. -/
def Verb.run (r : Remote) (w : Site) (s : Session) : Verb → Session
  | .putFile relDir filename up => (Files.putFile r w relDir filename up s).2
  | .writeText rel length client => (Files.writeText r w rel length client s).2
  | .mkdir relDir name => (Files.mkdir r w relDir name s).2
  | .ensureDir rel => (Files.ensureDir r w rel s).2
  | .rename relDir srcName destName => (Files.rename r w relDir srcName destName s).2
  | .moveMany srcRels destDirRel overwrite => (Files.moveMany r w srcRels destDirRel overwrite s).2
  | .dockerCpInto client container src destDir => (Files.dockerCpInto r w client container src destDir s).2

/-- What the verb writes is what it has checked. -/
def Verb.Guard (r : Remote) (w : Site) (t : Tree) : Verb → Prop
  | .putFile relDir filename _ => PutGuard r w t relDir filename
  | .writeText rel _ _ =>
    PutGuard r w t (rpartition (slashed rel)).1 (if (rpartition (slashed rel)).2 = [] then rel else (rpartition (slashed rel)).2)
  | .mkdir relDir name => MkdirGuard r w t relDir name
  | .ensureDir rel => EnsureDirGuard r w t rel
  | .rename relDir srcName destName => RenameGuard r w t relDir srcName destName
  | .moveMany srcRels destDirRel overwrite => MoveManyGuard r w t srcRels destDirRel overwrite
  | .dockerCpInto _ _ src destDir => CopyGuard r w t src destDir

/-- `docker cp` of one file. -/
def copyFile (_ : Str) (t : Tree) (dest : Str) : Option (List (List Name) × Tree) :=
  (realpath t.shape 40 (split '/' dest)).bind fun p => if h : ∀ c ∈ p, Legal c then some ([p], t.put p .other h) else none

/-- A host that lets its user write everywhere. -/
def openHost : Remote := ⟨40, fun _ => true, false, [], copyFile, 1000, fun _ => []⟩

theorem copyFile_copiesBelow : CopiesBelow openHost := by
  intro spec t dest places t' h p hp
  obtain ⟨d, hd, hthen⟩ := Option.bind_eq_some_iff.1 h
  split at hthen
  · obtain ⟨rfl, -⟩ := Prod.mk.inj (Option.some.inj hthen)
    exact ⟨d, hd, List.mem_singleton.1 hp ▸ List.prefix_refl d⟩
  · cases hthen

/-- A home with one folder. -/
def plainHome : Tree where
  nodes := homeNodes []
  nodup := by decide
  legal := by decide

/-- A home with a link where an upload of `x` writes first. -/
def linkedHome : Tree where
  nodes := homeNodes [([lit "x.tmp"], .link (lit "/etc/job"))] ++ [([lit "etc"], .dir)]
  nodup := by decide
  legal := by decide

end PiHerder.Files
