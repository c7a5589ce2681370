import PiHerder.Backup.Ownership

/-!
# The two ways of putting owners back agree

`apply_manifest_tree` and the script of `render_apply_script` come down to the same writes: a row that passes the
checks is written to the `target` of its path, the place it leads to when no link may be passed on the way
(`applyEntry_attrs`, `applyRel_row`). They differ in what `chmod` leaves of the set-id bits of a directory.
-/
namespace PiHerder.Backup
open Lib Lib.Str Lib.FileTree Lib.Shell

/-! ## Rows that pass the checks -/

/-- The path of a row, from the root of the tree. -/
def Row.path (e : Row) : List Name := if e.rel = [] then [] else split '/' e.rel

structure Row.Valid (e : Row) : Prop where
  entries : ∀ c ∈ e.path, FileTree.Entry c
  mode : ∃ m, m < 1024 ∧ e.mode = octal m

theorem safeRel_entries {py : Python} {raw : JsonValue} {rel : Str} (h : safeRel py raw = some rel) :
    rel = [] ∨ ∀ c ∈ split '/' rel, FileTree.Entry c := by
  unfold safeRel at h
  split at h
  · cases h
  · simp only at h
    split at h
    · exact Or.inl (Option.some.inj h).symm
    · split at h
      · cases h
      · split at h
        · cases h
        · rename_i hparts
          rw [Bool.not_eq_true, List.any_eq_false] at hparts
          obtain rfl := Option.some.inj h
          refine Or.inr fun c hc => ?_
          rw [join_split] at hc
          have := hparts c hc
          simp only [decide_eq_true_eq, not_or] at this
          exact this

theorem octDigit_toNat (n : Nat) : (octDigit n).toNat - '0'.toNat = n % 8 := by
  have hall : ∀ k : Fin 8, (Char.ofNat ('0'.toNat + k.1)).toNat - '0'.toNat = k.1 := by decide
  exact hall ⟨n % 8, Nat.mod_lt _ (by omega)⟩

/-- `int(format(n, "04o"), 8) = n`. -/
theorem ofOctal_octal {n : Nat} (h : n ≤ 0o7777) : ofOctal (octal n) = n := by
  unfold ofOctal octal
  simp only [List.foldl_cons, List.foldl_nil, octDigit_toNat]
  omega

theorem canonicalMode_strip {py : Python} {value : JsonValue} {mode : Str} (h : canonicalMode py value true = .ok (some mode)) :
    ∃ m, m < 1024 ∧ mode = octal m := by
  unfold canonicalMode at h
  cases hn : modeNumber py value with
  | error u => rw [hn] at h; cases h
  | ok number =>
    rw [hn] at h
    have h := Except.ok.inj h
    obtain ⟨k, -, hk⟩ := Option.bind_eq_some_iff.1 h
    split at hk
    · cases hk
    · refine ⟨k.toNat &&& 0o1777, ?_, (Option.some.inj hk).symm⟩
      exact Nat.lt_of_le_of_lt Nat.and_le_right (by decide)

theorem readEntry_valid {py : Python} {raw : JsonValue} {e : Row} (h : readEntry py raw = .ok (some e)) : e.Valid := by
  unfold readEntry at h
  split at h
  · rename_i d
    cases hmode : canonicalMode py (JsonValue.get d (lit "mode")) true with
    | error u => rw [hmode] at h; cases h
    | ok mode =>
      rw [hmode] at h
      cases huid : intOf py (JsonValue.get d (lit "uid")) with
      | error u => rw [huid] at h; cases h
      | ok uid =>
        rw [huid] at h
        simp only [Except.bind] at h
        split at h
        · cases h
        · cases hgid : intOf py (JsonValue.get d (lit "gid")) with
          | error u => rw [hgid] at h; cases h
          | ok gid =>
            rw [hgid] at h
            simp only at h
            split at h
            · cases h
            · split at h
              · rename_i rel mode hrel
                split at h
                · cases h
                · obtain rfl := Option.some.inj (Except.ok.inj h)
                  refine ⟨fun c hc => ?_, canonicalMode_strip hmode⟩
                  unfold Row.path at hc
                  rcases safeRel_entries hrel with hnil | hall
                  · rw [if_pos hnil] at hc
                    cases hc
                  · split at hc
                    · cases hc
                    · exact hall c hc
              · cases h
  · cases h

/-! ## One row on this machine -/

variable {shape : Shape} {root cwd d p path : List Name} {a : Attrs} {e : Row}

/-- A link stands at `p`. -/
def IsLink (shape : Shape) (p : List Name) : Prop := ∃ dest, shape p = some (.link dest)

instance (shape : Shape) (p : List Name) : Decidable (IsLink shape p) :=
  match h : shape p with
  | some (.link dest) => isTrue ⟨dest, h⟩
  | some .dir => isFalse fun ⟨_, hd⟩ => by rw [h] at hd; cases hd
  | some .other => isFalse fun ⟨_, hd⟩ => by rw [h] at hd; cases hd
  | none => isFalse fun ⟨_, hd⟩ => by rw [h] at hd; cases hd

theorem lstat_concat {cur x : List Name} (h : LeadsTo shape maxLinks [] cur x) (hd : shape x = some .dir) {c : Name}
    (hc : FileTree.Entry c) : lstat shape (cur ++ [c]) = shape (x ++ [c]) := by
  unfold lstat
  rw [h.lplace hd hc]
  cases hk : shape (x ++ [c]) with
  | none => rfl
  | some k => exact hk

/-- **The walk of `_within_target` finds the target**, under the name it walked. -/
theorem walkTarget_eq (hroot : LeadsTo shape maxLinks [] root d) : ∀ {rest cur x : List Name},
    LeadsTo shape maxLinks [] cur x → (rest ≠ [] → shape x = some .dir) → d <+: x → (∀ c ∈ rest, FileTree.Entry c) →
      walkTarget shape root cur rest = (target shape x rest).map fun _ => cur ++ rest
  | [], cur, x, hcur, _, hpre, _ => by
    obtain ⟨m, hm⟩ := hcur
    obtain ⟨k, hk⟩ := hroot
    have hbelow : resolvesBelow shape root cur = true := by
      unfold resolvesBelow
      rw [hm, hk]
      exact List.isPrefixOf_iff_prefix.2 hpre
    rw [walkTarget, if_pos hbelow, target, Option.map_some, List.append_nil]
  | c :: rest, cur, x, hcur, hdir, hpre, hentry => by
    have hx := hdir (by simp)
    have hc := hentry c List.mem_cons_self
    have hrest : ∀ y ∈ rest, FileTree.Entry y := fun y hy => hentry y (List.mem_cons_of_mem _ hy)
    have hpre' : d <+: x ++ [c] := hpre.trans (List.prefix_append _ _)
    have happ : cur ++ [c] ++ rest = cur ++ c :: rest := by simp
    unfold walkTarget
    simp only
    rw [lstat_concat hcur hx hc]
    cases hk : shape (x ++ [c]) with
    | none =>
      by_cases hnil : rest = []
      · rw [hnil, target, hk]
        rfl
      · rw [target_notDir (by rw [hk]; simp) hnil]
        rfl
    | some k =>
      have hsingle : target shape x [c] = some (x ++ [c]) := by
        rw [target, hk]
        rfl
      cases k with
      | link dest =>
        by_cases hnil : rest = []
        · rw [hnil, hsingle]
          rfl
        · simp only
          rw [if_pos hnil, target_notDir (by rw [hk]; simp) hnil]
          rfl
      | dir =>
        have hgo := @walkTarget_eq hroot rest _ _ (hcur.follow hx hc hk (by simp)) (fun _ => hk) hpre' hrest
        simp only
        rw [if_neg (by simp), hgo, happ, target_dir hk]
      | other =>
        by_cases hnil : rest = []
        · subst hnil
          have hgo := @walkTarget_eq hroot [] _ _ (hcur.follow hx hc hk (by simp)) (fun h => absurd rfl h) hpre' hrest
          simp only
          rw [if_neg (by simp), hgo, hsingle, happ, target]
        · simp only
          rw [if_pos ⟨hnil, by simp⟩, target_notDir (by rw [hk]; simp) hnil]
          rfl

theorem withinTarget_eq (hroot : Names shape maxLinks [] root d) (he : e.Valid) :
    withinTarget shape root e.rel = (target shape d e.path).map fun _ => root ++ e.path := by
  have hentry := he.entries
  unfold withinTarget
  unfold Row.path at hentry ⊢
  by_cases hnil : e.rel = []
  · rw [if_pos hnil, if_pos hnil, target, Option.map_some, List.append_nil]
  · rw [if_neg hnil] at hentry
    rw [if_neg hnil, if_neg hnil]
    exact walkTarget_eq hroot.leads hroot.leads (fun _ => hroot.isDir) (List.prefix_refl d) hentry

/-- What a row writes at its target, here. -/
def localPut (shape : Shape) (e : Row) (p : List Name) (a : Attrs) : Attrs :=
  let b := chown a p (if e.uid = maxId then (a p).uid else e.uid) (if e.gid = maxId then (a p).gid else e.gid)
  match shape p with
  | some (.link _) => b
  | _ => chmod b p (ofOctal e.mode)

/-- **A row is written to its target and nowhere else**; a row without a target is skipped. No call fails. -/
theorem applyEntry_eq (hroot : Names shape maxLinks [] root d) (he : e.Valid) (r : Report) :
    (applyEntry shape root r e).errors = r.errors ∧
      (applyEntry shape root r e).attrs =
        match target shape d e.path with
        | some p => localPut shape e p r.attrs
        | none => r.attrs := by
  unfold applyEntry
  simp only
  rw [withinTarget_eq hroot he]
  cases ht : target shape d e.path with
  | none => exact ⟨rfl, rfl⟩
  | some p =>
    obtain ⟨hplace, hfollow⟩ := hroot.target he.entries ht
    have hchown : lchown shape r.attrs (root ++ e.path) e.uid e.gid =
        some (chown r.attrs p (if e.uid = maxId then (r.attrs p).uid else e.uid)
          (if e.gid = maxId then (r.attrs p).gid else e.gid)) := by
      unfold lchown
      rw [hplace]
      rfl
    have hstat : lstat shape (root ++ e.path) = shape p := by
      unfold lstat
      rw [hplace]
      rfl
    simp only [Option.map_some, hchown, isSymlink, hstat, localPut]
    have hnotLink : (∀ dest, shape p ≠ some (.link dest)) → ∃ m, follow shape maxLinks [] (root ++ e.path) = some (m, p) := hfollow
    cases hk : shape p with
    | none =>
      obtain ⟨m, hm⟩ := hnotLink (by rw [hk]; simp)
      simp only [hm]
      exact ⟨rfl, rfl⟩
    | some k =>
      cases k with
      | link dest => exact ⟨rfl, rfl⟩
      | dir =>
        obtain ⟨m, hm⟩ := hnotLink (by rw [hk]; simp)
        simp only [hm]
        exact ⟨rfl, rfl⟩
      | other =>
        obtain ⟨m, hm⟩ := hnotLink (by rw [hk]; simp)
        simp only [hm]
        exact ⟨rfl, rfl⟩

/-! ## One row on the host -/

/-- What a row writes at its target on the host; `none` where `chown` refuses the id. -/
def hostPut (keepsSetId : Bool) (shape : Shape) (e : Row) (p : List Name) (a : Attrs) : Option Attrs :=
  if e.uid < maxId ∧ e.gid < maxId then
    let b := chown a p e.uid e.gid
    match shape p with
    | some (.link _) => some b
    | _ => some (chmod b p (chmodMode keepsSetId (decide (shape p = some .dir)) (ofOctal e.mode) (b p).mode))
  else none

theorem split_snoc {dir comp : Str} (hc : '/' ∉ comp) : split '/' (dir ++ '/' :: comp) = split '/' dir ++ [comp] := by
  rw [split_append_cons, split_of_notMem hc]

section
variable {x : List Name} {dir comp : Str}

theorem hostPlace_bind (h : LeadsTo shape maxLinks d (split '/' dir) x) (hx : shape x = some .dir) (hc : FileTree.Entry comp)
    (hs : '/' ∉ comp) : (hostPlace shape d (dir ++ '/' :: comp)).bind shape = shape (x ++ [comp]) := by
  unfold hostPlace
  rw [split_snoc hs, h.lplace hx hc]
  cases hk : shape (x ++ [comp]) with
  | none => rfl
  | some k => exact hk

theorem hostFollow_bind (h : LeadsTo shape maxLinks d (split '/' dir) x) (hx : shape x = some .dir) (hc : FileTree.Entry comp)
    (hs : '/' ∉ comp) (hlink : ¬ IsLink shape (x ++ [comp])) :
    (hostFollow shape d (dir ++ '/' :: comp)).bind shape = shape (x ++ [comp]) := by
  unfold hostFollow
  rw [split_snoc hs]
  cases hk : shape (x ++ [comp]) with
  | none =>
    rw [(h.missing hx hc hk).2]
    rfl
  | some k =>
    obtain ⟨m, hm⟩ := h.follow hx hc hk fun dest heq => hlink ⟨dest, heq ▸ hk⟩
    rw [hm]
    exact hk

theorem pathLink_iff (h : LeadsTo shape maxLinks d (split '/' dir) x) (hx : shape x = some .dir) (hc : FileTree.Entry comp)
    (hs : '/' ∉ comp) : pathLink shape d (dir ++ '/' :: comp) = true ↔ IsLink shape (x ++ [comp]) := by
  unfold pathLink IsLink
  rw [hostPlace_bind h hx hc hs]
  cases hk : shape (x ++ [comp]) with
  | none => simp
  | some k => cases k <;> simp

theorem pathExists_iff (h : LeadsTo shape maxLinks d (split '/' dir) x) (hx : shape x = some .dir) (hc : FileTree.Entry comp)
    (hs : '/' ∉ comp) : pathExists shape d (dir ++ '/' :: comp) = true ↔ (shape (x ++ [comp])).isSome = true := by
  unfold pathExists
  rw [Bool.or_eq_true, pathLink_iff h hx hc hs]
  by_cases hlink : IsLink shape (x ++ [comp])
  · obtain ⟨dest, hk⟩ := hlink
    exact ⟨fun _ => by rw [hk]; rfl, fun _ => Or.inr ⟨dest, hk⟩⟩
  · rw [hostFollow_bind h hx hc hs hlink]
    exact or_iff_left hlink

theorem pathDir_iff (h : LeadsTo shape maxLinks d (split '/' dir) x) (hx : shape x = some .dir) (hc : FileTree.Entry comp)
    (hs : '/' ∉ comp) (hlink : ¬ IsLink shape (x ++ [comp])) :
    pathDir shape d (dir ++ '/' :: comp) = true ↔ shape (x ++ [comp]) = some .dir := by
  unfold pathDir
  rw [hostFollow_bind h hx hc hs hlink, decide_eq_true_eq]

end

theorem splitOnce_ids {uid gid : Str} (h : ':' ∉ uid) : splitOnce ':' (uid ++ ':' :: gid) = some (uid, gid) := by
  have hcolon : ∀ c ∈ uid, (c != ':') = true := fun c hc => bne_iff_ne.2 fun heq => h (heq ▸ hc)
  unfold splitOnce
  rw [if_pos (by simp), List.takeWhile_append_of_pos hcolon, List.dropWhile_append_of_pos hcolon]
  simp

theorem colon_notMem_ofNat (n : Nat) : ':' ∉ ofNat n := by
  intro h
  have hdigits := isdigit_ofNat n
  unfold isdigit at hdigits
  rw [Bool.and_eq_true, List.all_eq_true] at hdigits
  exact absurd (hdigits.2 _ h) (by decide)

theorem chownCmd_eq {path : Str} (hplace : hostPlace shape d path = some p) (a : Attrs) (uid gid : Nat) :
    chownCmd shape d a (ofNat uid ++ ':' :: ofNat gid) path = if uid < maxId ∧ gid < maxId then some (chown a p uid gid) else none := by
  unfold chownCmd
  rw [splitOnce_ids (colon_notMem_ofNat uid), hplace]
  simp only [int_ofNat]

/-- The writes to one place, in the order of the script. -/
theorem hostPut_eq {keeps : Bool} {path : Str} (hplace : hostPlace shape d path = some p)
    (hfollow : ¬ IsLink shape p → hostFollow shape d path = some p) {link : Bool} (hlink : link = true ↔ IsLink shape p) :
    ((chownCmd shape d a (ofNat e.uid ++ ':' :: ofNat e.gid) path).bind fun a =>
      if link then some a else chmodCmd keeps shape d a e.mode path) = hostPut keeps shape e p a := by
  rw [chownCmd_eq hplace]
  unfold hostPut
  by_cases hid : e.uid < maxId ∧ e.gid < maxId
  · rw [if_pos hid, if_pos hid, Option.bind_some]
    by_cases hl : IsLink shape p
    · rw [if_pos (hlink.2 hl)]
      obtain ⟨dest, hk⟩ := hl
      rw [hk]
    · have hfalse : ¬ link = true := fun h => hl (hlink.1 h)
      rw [if_neg hfalse]
      unfold chmodCmd
      rw [hfollow hl, Option.map_some]
      cases hk : shape p with
      | none => rfl
      | some k =>
        cases k with
        | dir => rfl
        | other => rfl
        | link dest => exact absurd ⟨dest, hk⟩ hl
  · rw [if_neg hid, if_neg hid]
    rfl

/-- **The loop of the script writes to the target of the rest of the path.** -/
theorem walkRel_eq {keeps : Bool} (rest : Str) : ∀ {dir : Str} {x : List Name}, LeadsTo shape maxLinks d (split '/' dir) x →
    shape x = some .dir → (∀ c ∈ split '/' rest, FileTree.Entry c) →
      walkRel keeps shape d a (ofNat e.uid ++ ':' :: ofNat e.gid) e.mode rest dir =
        match target shape x (split '/' rest) with
        | some p => hostPut keeps shape e p a
        | none => some a := by
  intro dir x h hx hentry
  have hs : '/' ∉ beforeSlash rest := slash_notMem_beforeSlash rest
  have hcomp : FileTree.Entry (beforeSlash rest) := by
    by_cases hslash : '/' ∈ rest
    · exact hentry _ (by rw [split_afterSlash hslash]; exact List.mem_cons_self)
    · rw [beforeSlash_of_notMem hslash]
      exact hentry _ (by rw [split_of_notMem hslash]; exact List.mem_singleton_self _)
  rw [walkRel]
  simp only
  rw [if_neg (by simpa [not_or] using ⟨hcomp.1, hcomp.2.1, hcomp.2.2⟩)]
  by_cases hlast : rest = beforeSlash rest
  · -- the last component
    have hsplit : split '/' rest = [beforeSlash rest] := by
      rw [split_of_notMem (eq_beforeSlash_iff.1 hlast), ← hlast]
    rw [dif_pos hlast, hsplit, target]
    by_cases hsome : (shape (x ++ [beforeSlash rest])).isSome = true
    · have hexists := (pathExists_iff h hx hcomp hs).2 hsome
      have hplace : hostPlace shape d (dir ++ '/' :: beforeSlash rest) = some (x ++ [beforeSlash rest]) := by
        unfold hostPlace
        rw [split_snoc hs, h.lplace hx hcomp, if_pos hsome]
      rw [if_pos hsome, hexists, if_neg (by simp)]
      refine hostPut_eq hplace (fun hno => ?_) (pathLink_iff h hx hcomp hs)
      obtain ⟨k, hk⟩ := Option.isSome_iff_exists.1 hsome
      obtain ⟨m, hm⟩ := h.follow hx hcomp hk fun dest heq => hno ⟨dest, heq ▸ hk⟩
      unfold hostFollow
      rw [split_snoc hs, hm]
      rfl
    · have hexists : pathExists shape d (dir ++ '/' :: beforeSlash rest) = false := by
        rw [Bool.eq_false_iff]
        exact fun hex => hsome ((pathExists_iff h hx hcomp hs).1 hex)
      rw [if_neg hsome, hexists, if_pos (by simp)]
  · have hslash : '/' ∈ rest := by_contra fun hno => hlast (eq_beforeSlash_iff.2 hno)
    have hsplit := split_afterSlash hslash
    rw [dif_neg hlast, hsplit]
    by_cases hdir : shape (x ++ [beforeSlash rest]) = some .dir
    · have hno : ¬ IsLink shape (x ++ [beforeSlash rest]) := by
        rintro ⟨dest, hk⟩
        rw [hdir] at hk
        cases hk
      have hlink : pathLink shape d (dir ++ '/' :: beforeSlash rest) = false := by
        rw [Bool.eq_false_iff]
        exact fun hl => hno ((pathLink_iff h hx hcomp hs).1 hl)
      have hgo : LeadsTo shape maxLinks d (split '/' (dir ++ '/' :: beforeSlash rest)) (x ++ [beforeSlash rest]) := by
        rw [split_snoc hs]
        exact h.follow hx hcomp hdir (by simp)
      rw [hlink, (pathDir_iff h hx hcomp hs hno).2 hdir, if_neg (by simp), target_dir hdir]
      exact walkRel_eq (afterSlash rest) hgo hdir fun c hc => hentry c (by rw [hsplit]; exact List.mem_cons_of_mem _ hc)
    · have hstop : (pathLink shape d (dir ++ '/' :: beforeSlash rest) || !pathDir shape d (dir ++ '/' :: beforeSlash rest)) = true := by
        rw [Bool.or_eq_true, pathLink_iff h hx hcomp hs, Bool.not_eq_true']
        by_cases hl : IsLink shape (x ++ [beforeSlash rest])
        · exact Or.inl hl
        · refine Or.inr (Bool.eq_false_iff.2 fun hd => hdir ?_)
          exact (pathDir_iff h hx hcomp hs hl).1 hd
      rw [if_pos hstop, target_notDir hdir (split_ne_nil '/' _)]
termination_by rest.length
decreasing_by exact length_afterSlash_lt hslash

theorem octDigit_range (n : Nat) : decide ('0' ≤ octDigit n ∧ octDigit n ≤ '7') = true := by
  have hall : ∀ k : Fin 8, decide ('0' ≤ Char.ofNat ('0'.toNat + k.1) ∧ Char.ofNat ('0'.toNat + k.1) ≤ '7') = true := by decide
  exact hall ⟨n % 8, Nat.mod_lt _ (by omega)⟩

theorem modePattern_octal {m : Nat} (h : m < 1024) : modePattern (octal m) = true := by
  have hfirst : (octDigit (m / 512) == '0' || octDigit (m / 512) == '1') = true := by
    have hlt : m / 512 < 2 := by omega
    have hall : ∀ k : Fin 2, (octDigit k.1 == '0' || octDigit k.1 == '1') = true := by decide
    exact hall ⟨m / 512, hlt⟩
  unfold modePattern octal
  simp only [hfirst, List.all_cons, octDigit_range, List.all_nil, Bool.and_self]

/-- A path without a `..` passes the script's patterns. -/
theorem relPatterns {rel : Str} (h : ∀ c ∈ split '/' rel, FileTree.Entry c) :
    rel ≠ lit "." ∧ ¬ (startsWith (lit "/") rel = true ∨ rel = lit ".." ∨ startsWith (lit "../") rel = true ∨
      endsWith (lit "/..") rel = true ∨ hasInfix (lit "/../") rel = true) := by
  have hup : lit ".." ∉ split '/' rel := fun hup => (h _ hup).2.2 rfl
  have hsingle : split '/' (lit "..") = [lit ".."] := by decide
  refine ⟨?_, ?_⟩
  · rintro rfl
    exact (h (lit ".") (by decide)).2.1 rfl
  · rintro (hroot | rfl | hfront | hback | hmid)
    · obtain ⟨t, rfl⟩ := List.isPrefixOf_iff_prefix.1 hroot
      refine (h [] ?_).1 rfl
      rw [show lit "/" ++ t = '/' :: t from rfl, split_slash]
      exact List.mem_cons_self
    · exact hup (by decide)
    · obtain ⟨t, rfl⟩ := List.isPrefixOf_iff_prefix.1 hfront
      refine hup ?_
      rw [show lit "../" ++ t = lit ".." ++ '/' :: t from rfl, split_append_cons, hsingle]
      exact List.mem_cons_self
    · obtain ⟨t, rfl⟩ := List.isSuffixOf_iff_suffix.1 hback
      refine hup ?_
      rw [show t ++ lit "/.." = t ++ '/' :: lit ".." from rfl, split_append_cons, hsingle]
      exact List.mem_append_right _ (List.mem_singleton_self _)
    · obtain ⟨t, u, rfl⟩ := of_decide_eq_true hmid
      refine hup ?_
      rw [List.append_assoc, show lit "/../" ++ u = '/' :: (lit ".." ++ '/' :: u) from rfl, split_append_cons, split_append_cons,
        hsingle]
      exact List.mem_append_right _ (List.mem_append_left _ (List.mem_singleton_self _))

/-- **A line of the script writes its row to the target**, as the loop over the rows does here. -/
theorem runLine_callLine {keeps : Bool} (hd : shape d = some .dir) (he : e.Valid) (a : Attrs) :
    runLine keeps shape d a (callLine e) =
      match target shape d e.path with
      | some p => hostPut keeps shape e p a
      | none => some a := by
  have hself := names_self (n := maxLinks) hd
  obtain ⟨m, hm, hmode⟩ := he.mode
  have hentry := he.entries
  unfold runLine callLine
  simp only
  rw [show lit "apply_rel" = quote (lit "apply_rel") from by decide, ← List.map_cons, shellWords_join]
  simp only
  rw [if_pos (by decide)]
  unfold applyRel
  rw [isdigit_ofNat, isdigit_ofNat, hmode, modePattern_octal hm, ← hmode]
  simp only [Bool.not_true, Bool.false_eq_true, if_false]
  unfold Row.path at hentry ⊢
  by_cases hnil : e.rel = []
  · rw [if_pos hnil, if_pos hnil, if_pos rfl, target]
    have hdot : split '/' (lit ".") = [lit "."] := by decide
    have hplace : hostPlace shape d (lit ".") = some d := by
      unfold hostPlace
      rw [hdot]
      exact hself.place
    have hfollow : hostFollow shape d (lit ".") = some d := by
      obtain ⟨k, hk⟩ := hself.leads
      unfold hostFollow
      rw [hdot, hk]
      rfl
    have hno : false = true ↔ IsLink shape d := by
      refine iff_of_false Bool.false_ne_true ?_
      rintro ⟨dest, hk⟩
      rw [hd] at hk
      cases hk
    exact hostPut_eq hplace (fun _ => hfollow) hno
  · rw [if_neg hnil] at hentry ⊢
    rw [if_neg hnil]
    obtain ⟨hdot, hpatterns⟩ := relPatterns hentry
    rw [if_neg hdot, if_neg hpatterns]
    have hleads : LeadsTo shape maxLinks d (split '/' (lit ".")) d := by
      rw [show split '/' (lit ".") = [lit "."] from by decide]
      exact hself.leads
    exact walkRel_eq e.rel hleads hd hentry

/-! ## All rows -/

/-- The rows of a manifest that pass the checks. -/
def rowsOf (py : Python) (entries : List JsonValue) : List Row :=
  entries.filterMap fun raw =>
    match readEntry py raw with
    | .ok e => e
    | .error _ => none

/-- What one row does to the tree here. -/
def writeLocal (shape : Shape) (d : List Name) (a : Attrs) (e : Row) : Attrs :=
  match target shape d e.path with
  | some p => localPut shape e p a
  | none => a

theorem rowsOf_valid {py : Python} {entries : List JsonValue} (he : e ∈ rowsOf py entries) : e.Valid := by
  obtain ⟨raw, -, hraw⟩ := List.mem_filterMap.1 he
  split at hraw
  · rename_i hread
    exact readEntry_valid (hraw ▸ hread)
  · cases hraw

/-- The script has a line for each row. -/
theorem render_lines {py : Python} {entries : List JsonValue} : ∀ {lines : List Str}, renderApplyScript py entries = .ok lines →
    lines = (rowsOf py entries).map callLine := by
  induction entries with
  | nil => exact fun h => (Except.ok.inj h).symm
  | cons raw rest ih =>
    intro lines h
    rw [renderApplyScript] at h
    cases hread : readEntry py raw with
    | error u => rw [hread] at h; cases h
    | ok row =>
      rw [hread] at h
      cases hrest : renderApplyScript py rest with
      | error u => rw [hrest] at h; cases h
      | ok more =>
        rw [hrest] at h
        obtain rfl := Except.ok.inj h
        cases row with
        | none =>
          have hrows : rowsOf py (raw :: rest) = rowsOf py rest := List.filterMap_cons_none (by rw [hread])
          rw [hrows]
          exact ih hrest
        | some e =>
          have hrows : rowsOf py (raw :: rest) = e :: rowsOf py rest := List.filterMap_cons_some (by rw [hread])
          rw [hrows, List.map_cons, ih hrest]
          rfl

/-- A manifest that can be rendered is applied without a raise, row by row. -/
theorem apply_of_render {py : Python} (hroot : Names shape maxLinks [] root d) {entries : List JsonValue} : ∀ {lines : List Str} {r : Report},
    renderApplyScript py entries = .ok lines → ∃ r', applyManifestTree py shape root r entries = .ok r' ∧ r'.errors = r.errors ∧
      r'.attrs = (rowsOf py entries).foldl (writeLocal shape d) r.attrs := by
  induction entries with
  | nil => exact fun {_ r} _ => ⟨r, rfl, rfl, rfl⟩
  | cons raw rest ih =>
    intro lines r h
    rw [renderApplyScript] at h
    rw [applyManifestTree]
    cases hread : readEntry py raw with
    | error u => rw [hread] at h; cases h
    | ok row =>
      rw [hread] at h
      cases hrest : renderApplyScript py rest with
      | error u => rw [hrest] at h; cases h
      | ok more =>
        cases row with
        | none =>
          have hrows : rowsOf py (raw :: rest) = rowsOf py rest := List.filterMap_cons_none (by rw [hread])
          obtain ⟨r', hr', herr, hattrs⟩ := ih (r := { r with skipped := r.skipped + 1 }) hrest
          rw [hrows]
          exact ⟨r', hr', herr, hattrs⟩
        | some e =>
          have hrows : rowsOf py (raw :: rest) = e :: rowsOf py rest := List.filterMap_cons_some (by rw [hread])
          obtain ⟨r', hr', herr, hattrs⟩ := ih (r := applyEntry shape root r e) hrest
          obtain ⟨hkeep, hwrite⟩ := applyEntry_eq hroot (readEntry_valid hread) r
          rw [hrows, List.foldl_cons]
          refine ⟨r', hr', herr.trans hkeep, ?_⟩
          rw [hattrs, hwrite]
          rfl

/-! ## What stays as it is -/

/-- `p` is the root of the tree, or lies below it behind directories only. -/
def Reached (shape : Shape) (d p : List Name) : Prop :=
  p = d ∨ ∃ init c, Through shape d init ∧ FileTree.Entry c ∧ p = d ++ init ++ [c]

/-- What putting owners back may do to a tree: it writes to nodes that are reached through directories, of a link
only the owner, and it sets no set-id bit (bits 10 and 11 of a mode). -/
structure Confined (shape : Shape) (d : List Name) (before after : Attrs) : Prop where
  reached : ∀ p, after p ≠ before p → Reached shape d p
  link : ∀ p, IsLink shape p → (after p).mode = (before p).mode
  setId : ∀ p i, i = 10 ∨ i = 11 → (after p).mode.testBit i = true → (before p).mode.testBit i = true

theorem Confined.refl (a : Attrs) : Confined shape d a a := ⟨fun _ h => absurd rfl h, fun _ _ => rfl, fun _ _ _ h => h⟩

theorem Confined.trans {b c : Attrs} (hab : Confined shape d a b) (hbc : Confined shape d b c) : Confined shape d a c := by
  refine ⟨fun p hp => ?_, fun p hl => (hbc.link p hl).trans (hab.link p hl), fun p i hi h => hab.setId p i hi (hbc.setId p i hi h)⟩
  by_cases hb : c p = b p
  · exact hab.reached p (hb ▸ hp)
  · exact hbc.reached p hb

/-- A write to one reached node, of a mode without set-id bits of its own. -/
theorem confined_update (hp : Reached shape d p) {new : Attr} (hlink : IsLink shape p → new.mode = (a p).mode)
    (hbits : ∀ i, i = 10 ∨ i = 11 → new.mode.testBit i = true → (a p).mode.testBit i = true) :
    Confined shape d a (Function.update a p new) := by
  have hother : ∀ {q}, q ≠ p → Function.update a p new q = a q := fun h => Function.update_of_ne h _ _
  refine ⟨fun q hq => ?_, fun q hl => ?_, fun q i hi h => ?_⟩
  · by_cases hqp : q = p
    · exact hqp ▸ hp
    · exact absurd (hother hqp) hq
  · by_cases hqp : q = p
    · subst hqp
      rw [Function.update_self]
      exact hlink hl
    · rw [hother hqp]
  · by_cases hqp : q = p
    · subst hqp
      rw [Function.update_self] at h
      exact hbits i hi h
    · rwa [hother hqp] at h

theorem reached_target (hd : shape d = some .dir) (he : e.Valid) (ht : target shape d e.path = some p) : Reached shape d p := by
  rcases target_eq_some hd he.entries ht with ⟨-, rfl⟩ | ⟨init, c, -, hthrough, hc, rfl, -⟩
  · exact Or.inl rfl
  · exact Or.inr ⟨init, c, hthrough, hc, rfl⟩

/-- A stripped mode has no set-id bit. -/
theorem Row.Valid.testBit (he : e.Valid) {i : Nat} (hi : i = 10 ∨ i = 11) : (ofOctal e.mode).testBit i = false := by
  obtain ⟨m, hm, hmode⟩ := he.mode
  rw [hmode, ofOctal_octal (by omega)]
  refine Nat.testBit_lt_two_pow (Nat.lt_of_lt_of_le hm ?_)
  rcases hi with rfl | rfl <;> decide

/-- What is written to a target here, as one update of the node. -/
theorem localPut_eq (a : Attrs) : localPut shape e p a = Function.update a p
    ⟨if e.uid = maxId then (a p).uid else e.uid, if e.gid = maxId then (a p).gid else e.gid,
      if IsLink shape p then (a p).mode else ofOctal e.mode⟩ := by
  unfold localPut
  simp only
  by_cases hl : IsLink shape p
  · rw [if_pos hl]
    obtain ⟨dest, hk⟩ := hl
    rw [hk]
    rfl
  · rw [if_neg hl]
    have hchmod : ∀ uid gid m, chmod (chown a p uid gid) p m = Function.update a p ⟨uid, gid, m⟩ := fun uid gid m => by
      rw [chmod, chown, Function.update_self, Function.update_idem]
    cases hk : shape p with
    | none => exact hchmod _ _ _
    | some k =>
      cases k with
      | dir => exact hchmod _ _ _
      | other => exact hchmod _ _ _
      | link dest => exact absurd ⟨dest, hk⟩ hl

/-- And on the host. -/
theorem hostPut_eq_some {keeps : Bool} {a b : Attrs} (h : hostPut keeps shape e p a = some b) :
    e.uid < maxId ∧ e.gid < maxId ∧ b = Function.update a p ⟨e.uid, e.gid,
      if IsLink shape p then (a p).mode
      else chmodMode keeps (decide (shape p = some .dir)) (ofOctal e.mode) (a p).mode⟩ := by
  unfold hostPut at h
  split at h
  · rename_i hid
    refine ⟨hid.1, hid.2, ?_⟩
    simp only at h
    by_cases hl : IsLink shape p
    · rw [if_pos hl]
      obtain ⟨dest, hk⟩ := hl
      rw [hk] at h
      exact (Option.some.inj h).symm
    · rw [if_neg hl]
      have hchmod : ∀ m : Nat → Nat, chmod (chown a p e.uid e.gid) p (m ((chown a p e.uid e.gid) p).mode) =
          Function.update a p ⟨e.uid, e.gid, m (a p).mode⟩ := fun m => by
        rw [chmod, chown, Function.update_self, Function.update_idem]
      cases hk : shape p with
      | none =>
        rw [hk] at h
        exact (Option.some.inj h).symm.trans (hchmod fun old => chmodMode keeps (decide (none = some Kind.dir)) (ofOctal e.mode) old)
      | some k =>
        cases k with
        | dir =>
          rw [hk] at h
          exact (Option.some.inj h).symm.trans
            (hchmod fun old => chmodMode keeps (decide (some Kind.dir = some Kind.dir)) (ofOctal e.mode) old)
        | other =>
          rw [hk] at h
          exact (Option.some.inj h).symm.trans
            (hchmod fun old => chmodMode keeps (decide (some Kind.other = some Kind.dir)) (ofOctal e.mode) old)
        | link dest => exact absurd ⟨dest, hk⟩ hl
  · cases h

theorem localPut_confined (hd : shape d = some .dir) (he : e.Valid) (ht : target shape d e.path = some p) (a : Attrs) :
    Confined shape d a (localPut shape e p a) := by
  rw [localPut_eq]
  refine confined_update (reached_target hd he ht) (fun hl => if_pos hl) fun i hi h => ?_
  simp only at h
  split at h
  · exact h
  · rw [he.testBit hi] at h
    cases h

theorem hostPut_confined {keeps : Bool} (hd : shape d = some .dir) (he : e.Valid) (ht : target shape d e.path = some p) {a b : Attrs}
    (h : hostPut keeps shape e p a = some b) : Confined shape d a b := by
  obtain ⟨-, -, rfl⟩ := hostPut_eq_some h
  refine confined_update (reached_target hd he ht) (fun hl => if_pos hl) fun i hi h => ?_
  simp only at h
  split at h
  · exact h
  · unfold chmodMode at h
    split at h
    · rw [Nat.testBit_or, he.testBit hi, Bool.false_or, Nat.testBit_and, Bool.and_eq_true] at h
      exact h.1
    · rw [he.testBit hi] at h
      cases h

/-- **No run of rows leaves its bounds**, here … -/
theorem writeLocal_confined (hd : shape d = some .dir) {rows : List Row} : (∀ e ∈ rows, e.Valid) → ∀ a,
    Confined shape d a (rows.foldl (writeLocal shape d) a) := by
  induction rows with
  | nil => exact fun _ a => Confined.refl a
  | cons e rows ih =>
    intro hv a
    refine Confined.trans ?_ (ih (fun x hx => hv x (List.mem_cons_of_mem _ hx)) _)
    unfold writeLocal
    cases ht : target shape d e.path with
    | none => exact Confined.refl a
    | some p => exact localPut_confined hd (hv e List.mem_cons_self) ht a

/-- … and on the host. -/
theorem runLines_confined {keeps : Bool} (hd : shape d = some .dir) {rows : List Row} : (∀ e ∈ rows, e.Valid) → ∀ {a b},
    runLines keeps shape d a (rows.map callLine) = some b → Confined shape d a b := by
  induction rows with
  | nil =>
    intro _ a b h
    obtain rfl := Option.some.inj h
    exact Confined.refl a
  | cons e rows ih =>
    intro hv a b h
    have he := hv e List.mem_cons_self
    obtain ⟨a', hline, hrest⟩ := Option.bind_eq_some_iff.1 h
    refine Confined.trans ?_ (ih (fun x hx => hv x (List.mem_cons_of_mem _ hx)) hrest)
    rw [runLine_callLine hd he] at hline
    cases ht : target shape d e.path with
    | none =>
      rw [ht] at hline
      obtain rfl := Option.some.inj hline
      exact Confined.refl a
    | some p =>
      rw [ht] at hline
      exact hostPut_confined hd he ht hline

/-! ## Where the two differ -/

/-- The places the rows are written to. -/
def targets (shape : Shape) (d : List Name) (rows : List Row) : List (List Name) :=
  rows.filterMap fun e => target shape d e.path

/-- **The tree after the script**, from the tree after the rows here: where `chmod` keeps the set-id bits of a
directory, those that a written directory had before are still there. -/
def withSetId (keepsSetId : Bool) (shape : Shape) (before : Attrs) (written : List (List Name)) (a : Attrs) : Attrs := fun p =>
  if keepsSetId = true ∧ shape p = some .dir ∧ p ∈ written then
    { a p with mode := (a p).mode ||| ((before p).mode &&& 0o6000) }
  else a p

theorem or_and_setId {m o : Nat} (h : m &&& 0o6000 = 0) : (m ||| (o &&& 0o6000)) &&& 0o6000 = o &&& 0o6000 := by
  rw [Nat.and_or_distrib_right, h, Nat.zero_or, Nat.and_assoc, Nat.and_self]

theorem Row.Valid.setId (he : e.Valid) : ofOctal e.mode &&& 0o6000 = 0 := by
  obtain ⟨m, hm, hmode⟩ := he.mode
  rw [hmode, ofOctal_octal (by omega)]
  have hlow : m = m &&& 0o1777 := by
    rw [show (0o1777 : Nat) = 2 ^ 10 - 1 from rfl, Nat.and_two_pow_sub_one_eq_mod, Nat.mod_eq_of_lt hm]
  rw [hlow, Nat.and_assoc]
  exact Nat.and_zero m

/-- What holds between the two trees while the rows are written: what is not written yet is as before, and a
written directory has no set-id bit here. -/
structure Pending (keeps : Bool) (shape : Shape) (before : Attrs) (written : List (List Name)) (a b : Attrs) : Prop where
  host : b = withSetId keeps shape before written a
  rest : ∀ p, p ∉ written → a p = before p
  cleared : ∀ p, p ∈ written → shape p = some .dir → (a p).mode &&& 0o6000 = 0

theorem Pending.put {keeps : Bool} {before b b' : Attrs} {written : List (List Name)} (h : Pending keeps shape before written a b)
    (he : e.Valid) (hput : hostPut keeps shape e p b = some b') :
    Pending keeps shape before (p :: written) (localPut shape e p a) b' := by
  obtain ⟨huid, hgid, rfl⟩ := hostPut_eq_some hput
  have hids : e.uid ≠ maxId ∧ e.gid ≠ maxId := ⟨by omega, by omega⟩
  rw [localPut_eq, if_neg hids.1, if_neg hids.2]
  -- the mode the host's directory still shows its old set-id bits in
  have hold : shape p = some .dir → keeps = true → (b p).mode &&& 0o6000 = (before p).mode &&& 0o6000 := by
    intro hdir hkeep
    rw [h.host]
    unfold withSetId
    by_cases hmem : p ∈ written
    · rw [if_pos ⟨hkeep, hdir, hmem⟩]
      exact or_and_setId (h.cleared p hmem hdir)
    · rw [if_neg fun hc => hmem hc.2.2, h.rest p hmem]
  refine ⟨funext fun q => ?_, fun q hq => ?_, fun q hq hdir => ?_⟩
  · by_cases hqp : q = p
    · subst hqp
      unfold withSetId
      rw [Function.update_self, Function.update_self]
      by_cases hdir : shape q = some .dir
      · have hno : ¬ IsLink shape q := fun ⟨dest, hk⟩ => by rw [hdir] at hk; cases hk
        rw [if_neg hno, if_neg hno]
        by_cases hkeep : keeps = true
        · rw [if_pos ⟨hkeep, hdir, List.mem_cons_self⟩, chmodMode, if_pos (by simp [hkeep, hdir]), hold hdir hkeep]
        · rw [if_neg fun hc => hkeep hc.1, chmodMode, if_neg (by simp [hkeep])]
      · have hsame : (b q).mode = (a q).mode := by
          rw [h.host]
          unfold withSetId
          rw [if_neg fun hc => hdir hc.2.1]
        have hcond : ¬ (keeps = true ∧ shape q = some .dir ∧ q ∈ q :: written) := fun hc => hdir hc.2.1
        have hchmod : chmodMode keeps (decide (shape q = some .dir)) (ofOctal e.mode) (a q).mode = ofOctal e.mode := by
          rw [chmodMode, if_neg (by simp [hdir])]
        rw [if_neg hcond, hsame, hchmod]
    · unfold withSetId
      rw [Function.update_of_ne hqp, Function.update_of_ne hqp, h.host]
      unfold withSetId
      simp only [List.mem_cons, hqp, false_or]
  · rw [List.mem_cons, not_or] at hq
    rw [Function.update_of_ne hq.1, h.rest q hq.2]
  · by_cases hqp : q = p
    · subst hqp
      have hno : ¬ IsLink shape q := fun ⟨dest, hk⟩ => by rw [hdir] at hk; cases hk
      rw [Function.update_self, if_neg hno]
      exact he.setId
    · rw [Function.update_of_ne hqp]
      exact h.cleared q ((List.mem_cons.1 hq).resolve_left hqp) hdir

/-- **After all rows**: the host's tree is the tree here, with the set-id bits it kept. -/
theorem Pending.run {keeps : Bool} (hd : shape d = some .dir) {before : Attrs} {rows : List Row} : (∀ e ∈ rows, e.Valid) →
    ∀ {written : List (List Name)} {a b b' : Attrs}, Pending keeps shape before written a b →
      runLines keeps shape d b (rows.map callLine) = some b' →
        ∃ all, (∀ p, p ∈ all ↔ p ∈ written ∨ p ∈ targets shape d rows) ∧
          Pending keeps shape before all (rows.foldl (writeLocal shape d) a) b' := by
  induction rows with
  | nil =>
    intro _ written a b b' h hrun
    obtain rfl := Option.some.inj hrun
    exact ⟨written, fun p => by simp [targets], h⟩
  | cons e rows ih =>
    intro hv written a b b' h hrun
    have he := hv e List.mem_cons_self
    have hrows : ∀ x ∈ rows, x.Valid := fun x hx => hv x (List.mem_cons_of_mem _ hx)
    obtain ⟨c, hline, hrest⟩ := Option.bind_eq_some_iff.1 hrun
    rw [runLine_callLine hd he] at hline
    rw [List.foldl_cons, writeLocal]
    cases ht : target shape d e.path with
    | none =>
      rw [ht] at hline
      obtain rfl := Option.some.inj hline
      obtain ⟨all, hall, hp⟩ := ih hrows h hrest
      have htargets : targets shape d (e :: rows) = targets shape d rows := List.filterMap_cons_none ht
      exact ⟨all, fun p => by rw [hall, htargets], hp⟩
    | some p =>
      rw [ht] at hline
      obtain ⟨all, hall, hp⟩ := ih hrows (h.put he hline) hrest
      have htargets : targets shape d (e :: rows) = p :: targets shape d rows := List.filterMap_cons_some ht
      refine ⟨all, fun q => ?_, hp⟩
      rw [hall, htargets, List.mem_cons, List.mem_cons]
      exact ⟨fun hq => hq.elim (fun hq => hq.elim (fun hq => Or.inr (Or.inl hq)) Or.inl) fun hq => Or.inr (Or.inr hq),
        fun hq => hq.elim (fun hq => Or.inl (Or.inr hq)) fun hq => hq.elim (fun hq => Or.inl (Or.inl hq)) Or.inr⟩

/-- No row is written to a directory that has a set-id bit. -/
def NoSetIdDir (shape : Shape) (d : List Name) (a : Attrs) (rows : List Row) : Prop :=
  ∀ p ∈ targets shape d rows, shape p = some .dir → (a p).mode &&& 0o6000 = 0

theorem withSetId_eq_iff {keeps : Bool} {before a : Attrs} {written : List (List Name)}
    (hc : ∀ p, p ∈ written → shape p = some .dir → (a p).mode &&& 0o6000 = 0) :
    a = withSetId keeps shape before written a ↔
      (keeps = true → ∀ p ∈ written, shape p = some .dir → (before p).mode &&& 0o6000 = 0) := by
  constructor
  · intro h hkeep p hp hdir
    have hmode := congrArg (fun b : Attrs => (b p).mode &&& 0o6000) h
    unfold withSetId at hmode
    simp only at hmode
    rw [if_pos ⟨hkeep, hdir, hp⟩, or_and_setId (hc p hp hdir), hc p hp hdir] at hmode
    exact hmode.symm
  · intro h
    funext p
    unfold withSetId
    split
    · rename_i hcond
      rw [h hcond.1 p hcond.2.2 hcond.2.1, Nat.or_zero]
    · rfl

/-- **Both ways of putting owners back stay in their bounds, and they leave the same tree iff** the host's `chmod`
does not keep set-id bits, or no row is written to a directory that has one. `d` is the directory that `root`
names. -/
theorem ownership_agrees_iff (py : Python) {keeps : Bool} {entries : List JsonValue} {lines : List Str} {a b : Attrs}
    (hroot : Names shape maxLinks [] root d) (hrender : renderApplyScript py entries = .ok lines)
    (hrun : runScript keeps shape root a lines = some b) :
    ∃ r, applyManifestTree py shape root ⟨a, 0, 0, []⟩ entries = .ok r ∧ r.errors = [] ∧
      Confined shape d a r.attrs ∧ Confined shape d a b ∧
        (r.attrs = b ↔ (keeps = true → NoSetIdDir shape d a (rowsOf py entries))) := by
  have hd := hroot.isDir
  have hvalid : ∀ e ∈ rowsOf py entries, e.Valid := fun e he => rowsOf_valid he
  obtain ⟨r, hr, herr, hattrs⟩ := apply_of_render hroot (r := ⟨a, 0, 0, []⟩) hrender
  obtain rfl := render_lines hrender
  have hlines : runLines keeps shape d a ((rowsOf py entries).map callLine) = some b := by
    obtain ⟨m, hm⟩ := hroot.leads
    unfold runScript at hrun
    rw [hm] at hrun
    simp only at hrun
    rwa [if_pos hd] at hrun
  have hstart : Pending keeps shape a [] a a :=
    ⟨funext fun p => by rw [withSetId, if_neg fun hc => by cases hc.2.2], fun p _ => rfl, fun p hp => by cases hp⟩
  obtain ⟨all, hall, hend⟩ := Pending.run hd hvalid hstart hlines
  have hmem : ∀ p, p ∈ all ↔ p ∈ targets shape d (rowsOf py entries) := fun p => by rw [hall]; simp
  refine ⟨r, hr, herr, ?_, runLines_confined hd hvalid hlines, ?_⟩
  · rw [hattrs]
    exact writeLocal_confined hd hvalid a
  · rw [hattrs, hend.host, withSetId_eq_iff hend.cleared]
    exact ⟨fun h hk p hp => h hk p ((hmem p).2 hp), fun h hk p hp => h hk p ((hmem p).1 hp)⟩

/-- `/srv` with one directory, and nothing else. -/
def oneFolder : Shape := fun p => if p = [] ∨ p = [lit "srv"] then some .dir else none

/-- A row for the root of the tree. -/
def rootRow : JsonValue :=
  .obj [(lit "path", .str []), (lit "uid", .int 0), (lit "gid", .int 0), (lit "mode", .str (lit "0755"))]

/-- A Python whose texts of other values and floats are not asked for. -/
def plainPython : Python := ⟨fun _ => [], fun _ => .ok none⟩

theorem names_srv : Names oneFolder maxLinks [] [lit "srv"] [lit "srv"] :=
  ⟨⟨maxLinks, by decide +kernel⟩, by decide, by decide +kernel⟩

/-- A manifest for `/srv` alone, on a tree where it has an ordinary mode. -/
theorem ownership_agrees_srv :
    ∃ r, applyManifestTree plainPython oneFolder [lit "srv"] ⟨fun _ => ⟨1000, 1000, 0o700⟩, 0, 0, []⟩ [rootRow] = .ok r ∧
      r.attrs = Function.update (fun _ => ⟨1000, 1000, 0o700⟩) [lit "srv"] ⟨0, 0, 0o755⟩ := by
  have hrun : runScript true oneFolder [lit "srv"] (fun _ => ⟨1000, 1000, 0o700⟩) [lit "apply_rel . 0 0 0755"] =
      some (chmod (chown (fun _ => ⟨1000, 1000, 0o700⟩) [lit "srv"] 0 0) [lit "srv"] 0o755) := by rfl
  rw [chmod, chown, Function.update_self, Function.update_idem] at hrun
  have hrender : renderApplyScript plainPython [rootRow] = .ok [lit "apply_rel . 0 0 0755"] := by decide +kernel
  obtain ⟨r, hr, -, -, -, hiff⟩ := ownership_agrees_iff plainPython names_srv hrender hrun
  have hmode : 0o700 &&& 0o6000 = 0 := by decide
  exact ⟨r, hr, hiff.2 fun _ _ _ _ => hmode⟩

/-- **A set-group-id directory keeps its bit on the host** and loses it here. -/
theorem setgid_stays_on_host :
    (applyManifestTree plainPython oneFolder [lit "srv"] ⟨fun _ => ⟨0, 0, 0o2755⟩, 0, 0, []⟩ [rootRow]).toOption.map
        (fun r => r.attrs [lit "srv"]) = some ⟨0, 0, 0o755⟩ ∧
      renderApplyScript plainPython [rootRow] = .ok [lit "apply_rel . 0 0 0755"] ∧
      (runScript true oneFolder [lit "srv"] (fun _ => ⟨0, 0, 0o2755⟩) [lit "apply_rel . 0 0 0755"]).map
        (fun b => b [lit "srv"]) = some ⟨0, 0, 0o2755⟩ := by
  decide +kernel

end PiHerder.Backup
