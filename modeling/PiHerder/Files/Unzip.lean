import PiHerder.Files.Writes

/-!
# Unzipping in the jail

| here | there |
| --- | --- |
| `safeZipName` | `_safe_zip_name` (1377–1388) |
| `mkdirs`, `extractMember`, `unzipInto` | `unzip_into` (1729–1826) |

An archive is the list of its members, with the sizes that it states and what each gives when it is read.
-/
namespace PiHerder.Files
open Lib Lib.Str Lib.FileTree Lib.Eff

def ZIP_MEMBERS_MAX : Nat := 2000

/-- `opens` and `broken` say whether the member can be read, and to its end. -/
structure Member where
  filename : Str
  fileSize : Nat
  length : Nat
  opens : Bool
  broken : Bool
deriving DecidableEq, Repr

def Member.isDir (m : Member) : Bool := endsWith (lit "/") m.filename

/-- The parts of a member's name. -/
def zipParts (raw : Str) : List Str := (split '/' raw).filter fun p => decide (p ≠ [] ∧ p ≠ lit ".")

def safeZipName (member : Str) : Except FilesError Str :=
  let raw := strip (slashed member)
  if raw = [] ∨ Char.ofNat 0 ∈ raw then .error ⟨.escape, lit "Invalid path in zip"⟩
  else if startsWith (lit "/") raw ∨ startsWith (lit "\\") raw then .error ⟨.escape, lit "Zip path must not be absolute"⟩
  else if lit ".." ∈ zipParts raw then .error ⟨.escape, lit "Zip path escapes the folder"⟩
  else if WALK_DEPTH_MAX < (zipParts raw).length then .error ⟨.escape, lit "Zip path is too deep"⟩
  else .ok (join '/' (zipParts raw))

section Verbs
variable (r : Remote) (w : Site) (reprText : Str → Str) (destJail destAbs : Str)

/-- `_mkdirs`; there are no more levels than the path has characters. -/
def mkdirs : Nat → Str → Eff Session FilesError Unit
  | 0, _ => pure ()
  | n + 1, absDir =>
    let d := posixNorm absDir
    if d = [] ∨ d = lit "/" ∨ d = destAbs then pure ()
    else do
      if dirname d ≠ [] ∧ dirname d ≠ d then mkdirs n (dirname d)
      asks fun _ => raiseIf (underJail d destJail = false) ⟨.escape, lit "Unzip would leave the jail"⟩
      let _ ← attempt (fsMkdir r d)

structure Counts where
  files : Nat
  dirs : Nat
  bytes : Nat
deriving DecidableEq, Repr

def zipTooLarge : FilesError := ⟨.tooLarge, lit "Unzipped size exceeds the transfer cap"⟩

/-- One file, beside its name and then over it. -/
def extractFile (m : Member) (target : Str) (n : Counts) : Eff Session FilesError Counts := do
  mkdirs r destJail destAbs (dirname target).length (dirname target)
  let staging := target ++ lit ".tmp"
  asks fun _ => raiseIf (m.opens = false) sshError
  match ← attempt (openWrite r false staging) with
  | .error _ => raise sshError
  | .ok _ => do
    asks fun _ => raiseIf (r.cap < n.bytes + m.length) zipTooLarge
    asks fun _ => raiseIf (m.broken = true) sshError
    let _ ← attempt (fsUnlink r target)
    match ← attempt (fsRename r staging target) with
    | .error _ => raise sshError
    | .ok _ => pure { n with files := n.files + 1, bytes := n.bytes + m.length }

def extractMember (m : Member) (n : Counts) : Eff Session FilesError Counts := do
  let rel ← asks fun _ => safeZipName m.filename
  if rel = [] then pure n
  else do
    let target := posixNorm (posixJoin destAbs rel)
    let denied ← asks fun _ => w.isDenied target
    asks fun _ => raiseIf (underJail target destJail = false ∨ denied = true) ⟨.escape, lit "Refused zip path " ++ reprText m.filename⟩
    if m.isDir then do
      mkdirs r destJail destAbs target.length target
      pure { n with dirs := n.dirs + 1 }
    else extractFile r destJail destAbs m target n

def extractAll : List Member → Counts → Eff Session FilesError Counts
  | [], n => pure n
  | m :: rest, n => do
    let n ← extractMember r w reprText destJail destAbs m n
    extractAll rest n

end Verbs

section
variable (r : Remote) (w : Site) (reprText : Str → Str)

def readable (t : Tree) (path : Str) : Bool :=
  match follow t.shape r.links [] (split '/' path) with
  | some (_, p) => decide (t.shape p = some .other)
  | none => false

/-- No members when the file is no zip archive. -/
def unzipInto (zipRel destRel : Str) (archive : Option (List Member)) : Eff Session FilesError Counts := do
  let destRel := rstrip '/' (lstrip '/' (strip destRel))
  let (_, zabs) ← asks fun _ => w.resolveLogical zipRel
  let zpath ← asks fun s => w.assertInJail r.links s.tree zabs
  let (destJail, destAbs) ← asks fun _ => w.resolveLogical destRel
  let destAbs ← asks fun s => w.assertInJail r.links s.tree destAbs
  asks fun s => raiseIf (readable r s.tree zpath = false) sshError
  match archive with
  | none => raise ⟨.invalid, lit "Not a valid zip archive"⟩
  | some infos => do
    asks fun _ => raiseIf (ZIP_MEMBERS_MAX < infos.length) ⟨.tooMany, lit "Zip has more than " ++ ofNat ZIP_MEMBERS_MAX ++ lit " entries"⟩
    asks fun _ => raiseIf (r.cap < (infos.map Member.fileSize).sum) zipTooLarge
    extractAll r w reprText destJail destAbs infos ⟨0, 0, 0⟩

end

/-! ## On the way down -/

section Way
variable {r : Remote} {w : Site} {links : Nat} {t : Tree} {cs : List Name}

/-- Below a directory that is where its path says, so is all that no link leads to. -/
theorem OwnDir.down (hown : OwnDir links t (pathText cs)) : ∀ {q : List Name}, Clean (cs ++ q) →
    (∀ q', q' <+: q → q' ≠ [] → ∀ dest, t.shape (cs ++ q') ≠ some (.link dest)) → OwnDir links t (pathText (cs ++ q)) := by
  intro q
  induction q using List.reverseRecOn with
  | nil =>
    intro _ _
    rwa [List.append_nil]
  | append_singleton q c ih =>
    intro hclean hlinks m d hd
    rw [← List.append_assoc] at hclean hd ⊢
    have hcq := hclean.of_prefix (List.prefix_append (cs ++ q) [c])
    have hq := ih hcq fun q' hq' => hlinks q' (hq'.trans (List.prefix_append q [c]))
    rw [follow_pathText Tree.shape_root hclean, follow_append] at hd
    obtain ⟨⟨m', e⟩, he, hlast⟩ := Option.bind_eq_some_iff.1 hd
    obtain rfl := hq.eq hcq he
    have hentry := (hclean c (by simp)).1
    by_cases hdir : t.shape (cs ++ q) = some .dir
    · cases hk : t.shape (cs ++ q ++ [c]) with
      | none =>
        rw [follow_concat_none hdir hentry hk] at hlast
        cases hlast
      | some k =>
        have hself : LeadsTo t.shape m' (cs ++ q) [] (cs ++ q) := ⟨m', follow_nil t.shape m' _⟩
        obtain ⟨m'', hm⟩ := hself.follow hdir hentry hk fun dest heq => by
          refine hlinks (q ++ [c]) (List.prefix_refl _) (by simp) dest ?_
          rw [← List.append_assoc, hk, heq]
        rw [List.nil_append] at hm
        rw [hm] at hlast
        rw [(Prod.mk.inj (Option.some.inj hlast)).2]
    · have hstep : follow t.shape m' (cs ++ q) [c] = none := by
        cases m' with
        | zero => exact if_pos hdir
        | succ m' => exact if_pos hdir
      rw [hstep] at hlast
      cases hlast

theorem openPlace_own {c : Name} {p : List Name} (hown : OwnDir links t (pathText cs)) (hc : Clean (cs ++ [c]))
    (hlink : ∀ dest, t.shape (cs ++ [c]) ≠ some (.link dest)) (hp : openPlace t.shape links (pathText (cs ++ [c])) = some p) :
    p = cs ++ [c] ∧ Through t.shape [] cs := by
  refine realpath_own hown hc (fun x dest hx => ?_) ?_
  · obtain ⟨rfl, -⟩ := entryAt_own hown hc hx
    exact hlink dest
  · unfold openPlace at hp
    unfold realpath
    cases hf : follow t.shape links [] (split '/' (pathText (cs ++ [c]))) with
    | none =>
      rw [hf] at hp
      exact hp
    | some found =>
      rw [hf] at hp
      simp only at hp
      split at hp
      · exact hp
      · cases hp

theorem dirname_pathText {x : List Name} {c : Name} (hclean : Clean (x ++ [c])) : dirname (pathText (x ++ [c])) = pathText x := by
  have hc := (hclean c (by simp)).2.1
  have hx := hclean.of_prefix (List.prefix_append x [c])
  have hhead : ∀ a : Str, ((a ++ '/' :: c).reverse.dropWhile (· != '/')).reverse = a ++ lit "/" := by
    intro a
    rw [List.reverse_append, List.reverse_cons, List.append_assoc, List.singleton_append,
      dropWhile_append_cons (fun h => hc (List.mem_reverse.1 h)), List.reverse_cons, List.reverse_reverse]
    rfl
  by_cases h : x = []
  · subst h
    have htext : pathText ([] ++ [c]) = [] ++ '/' :: c := rfl
    unfold dirname
    simp only [htext, hhead]
    rfl
  · have htext : pathText (x ++ [c]) = pathText x ++ '/' :: c := by
      unfold pathText
      rw [join_append '/' h (by simp)]
      rfl
    obtain ⟨a, u, hj, hu, hslash⟩ := join_ends h fun y hy => ⟨(hx y hy).1.1, (hx y hy).2.1⟩
    have hall : ¬ (pathText x ++ lit "/").all (· == '/') = true := by
      intro hall
      obtain ⟨y, ys, rfl⟩ := List.exists_cons_of_ne_nil hu
      have hy := List.all_eq_true.1 hall y (by rw [pathText, hj]; simp)
      exact hslash (by rw [beq_iff_eq.1 hy]; exact List.mem_cons_self)
    unfold dirname
    simp only [htext, hhead]
    rw [if_neg hall]
    have hstrip : rstrip '/' (pathText x ++ lit "/") = rstrip '/' (pathText x) := by
      unfold rstrip rstripWhere
      rw [show pathText x ++ lit "/" = pathText x ++ ['/'] from rfl, List.rdropWhile_concat, if_pos (by simp)]
    rw [hstrip, pathText, hj, ← List.cons_append]
    exact rstrip_append hu hslash

end Way

/-! ## While an archive is unpacked -/

/-- The parts of a member below the folder. -/
def Member.parts (m : Member) : List Str := zipParts (strip (slashed m.filename))

/-- What may not be a link: the member's folders, and the file that is written beside it. -/
def Member.way (m : Member) : List (List Name) :=
  (m.parts.inits.filter fun q => decide (q ≠ [] ∧ (q ≠ m.parts ∨ m.isDir = true))) ++
    if m.isDir then [] else [m.parts.dropLast ++ [m.parts.getLast?.getD [] ++ lit ".tmp"]]

/-- The folder is where its path says, no link has come to stand on a way, and nothing outside has been touched. -/
structure Unpacking (r : Remote) (w : Site) (cs : List Name) (ways : List (List Name)) (s : Session) : Prop where
  own : OwnDir r.links s.tree (pathText cs)
  touched : Touched (Within w) s
  links : ∀ q ∈ ways, ∀ dest, s.tree.shape (cs ++ q) ≠ some (.link dest)

section Unpack
variable {r : Remote} {w : Site} {cs : List Name} {ways : List (List Name)} {s : Session}

/-- The tree is changed only below the folder, and no link is made. -/
theorem Unpacking.update {t' : Tree} {places : List (List Name)} (h : Unpacking r w cs ways s) (hcs : Clean cs) (hthrough : Through s.tree.shape [] cs)
    (hshape : ∀ x, t'.shape x = s.tree.shape x ∨ (∃ q, q ≠ [] ∧ x = cs ++ q) ∧ ∀ dest, t'.shape x ≠ some (.link dest))
    (hplaces : ∀ p ∈ places, Within w p) : Unpacking r w cs ways ⟨t', s.touched ++ places⟩ := by
  refine ⟨ownDir_of_through (hthrough.congr fun p hp => ?_) hcs, fun p hp => (List.mem_append.1 hp).elim (h.touched p) (hplaces p), ?_⟩
  · rcases hshape p with hsame | ⟨⟨q, hq, rfl⟩, -⟩
    · exact hsame
    · have hlen := hp.length_le
      have hpos := List.length_pos_iff.2 hq
      rw [List.nil_append, List.length_append] at hlen
      omega
  · intro q hq dest
    rcases hshape (cs ++ q) with hsame | ⟨-, hno⟩
    · rw [hsame]
      exact h.links q hq dest
    · exact hno dest

/-- A file or directory is made below the folder. -/
theorem Unpacking.put {q : List Name} {c : Name} {k : Kind} (h : Unpacking r w cs ways s) (hcs : Clean cs)
    (hthrough : Through s.tree.shape [] (cs ++ q)) (hk : ∀ dest, k ≠ .link dest) (hlegal : ∀ c' ∈ cs ++ q ++ [c], Legal c')
    (hw : Within w (cs ++ q ++ [c])) : Unpacking r w cs ways ⟨s.tree.put (cs ++ q ++ [c]) k hlegal, s.touched ++ [cs ++ q ++ [c]]⟩ := by
  refine h.update hcs hthrough.append_left (fun x => ?_) fun p hp => List.mem_singleton.1 hp ▸ hw
  rw [Tree.shape_put (by simp) hlegal]
  split
  · rename_i hx
    exact Or.inr ⟨⟨q ++ [c], by simp, by rw [hx, List.append_assoc]⟩, fun dest heq => hk dest (Option.some.inj heq)⟩
  · exact Or.inl rfl

/-- An entry below the folder goes. -/
theorem Unpacking.del {q : List Name} {c : Name} (h : Unpacking r w cs ways s) (hcs : Clean cs) (hthrough : Through s.tree.shape [] (cs ++ q))
    (hw : Within w (cs ++ q ++ [c])) : Unpacking r w cs ways ⟨s.tree.del (cs ++ q ++ [c]), s.touched ++ [cs ++ q ++ [c]]⟩ := by
  refine h.update hcs hthrough.append_left (fun x => ?_) fun p hp => List.mem_singleton.1 hp ▸ hw
  rw [Tree.shape_del (by simp)]
  split
  · rename_i hx
    exact Or.inr ⟨⟨q ++ [c], by simp, by rw [hx, List.append_assoc]⟩, fun dest heq => by cases heq⟩
  · exact Or.inl rfl

/-- The folders of `q` are on a way. -/
def Passes (ways : List (List Name)) (q : List Name) : Prop := ∀ q', q' <+: q → q' ≠ [] → q' ∈ ways

theorem Passes.of_prefix {q q' : List Name} (h : Passes ways q) (hq : q' <+: q) : Passes ways q' := fun x hx => h x (hx.trans hq)

theorem Unpacking.down {q : List Name} (h : Unpacking r w cs ways s) (hclean : Clean (cs ++ q)) (hq : Passes ways q) :
    OwnDir r.links s.tree (pathText (cs ++ q)) :=
  h.own.down hclean fun q' hle hne => h.links q' (hq q' hle hne)

/-- Above a place within, down to the folder, all is within. -/
theorem Within.between {q q' : List Name} (hcs : Within w cs) (h : Within w (cs ++ q)) (hle : q' <+: q) : Within w (cs ++ q') := by
  obtain ⟨⟨js, hjs, hjcs⟩, -⟩ := hcs
  exact ⟨⟨js, hjs, hjcs.trans (List.prefix_append _ _)⟩, fun denies hd ds hds hmem hdx =>
    h.2 denies hd ds hds hmem (hdx.trans (List.prefix_append_right_inj cs |>.2 hle))⟩

theorem mkdirs_unpacking (jail : Str) (hcs : Clean cs) (hwcs : Within w cs) : ∀ {n : Nat} {q : List Name} {s : Session},
    Unpacking r w cs ways s → Clean (cs ++ q) → Within w (cs ++ q) → Passes ways q →
      Unpacking r w cs ways (mkdirs r jail (pathText cs) n (pathText (cs ++ q)) s).2
  | 0, _, _, h, _, _, _ => h
  | n + 1, q, s, h, hclean, hw, hq => by
    unfold mkdirs
    simp only [posixNorm_pathText hclean]
    split
    · exact h
    · rename_i hstop
      obtain ⟨q, c, rfl⟩ : ∃ q' c, q = q' ++ [c] := by
        rcases List.eq_nil_or_concat q with rfl | ⟨q', c, rfl⟩
        · rw [List.append_nil] at hstop
          exact absurd (Or.inr (Or.inr rfl)) hstop
        · exact ⟨q', c, List.concat_eq_append⟩
      have hinit := List.prefix_append q [c]
      rw [← List.append_assoc] at hclean hw ⊢
      have hcleanInit := hclean.of_prefix (List.prefix_append (cs ++ q) [c])
      have hwInit := hwcs.between (by rwa [List.append_assoc] at hw) hinit
      rw [dirname_pathText hclean]
      have hmake : ∀ s', Unpacking r w cs ways s' → Unpacking r w cs ways ((do
          asks fun _ => raiseIf (underJail (pathText (cs ++ q ++ [c])) jail = false) ⟨.escape, lit "Unzip would leave the jail"⟩
          let _ ← attempt (fsMkdir r (pathText (cs ++ q ++ [c]))) : Eff Session FilesError Unit) s').2 := by
        intro s' h'
        refine asks_state h' fun _ _ => attempt_state ?_
        rcases fsMkdir_cases r s' (pathText (cs ++ q ++ [c])) with heq | ⟨p, hlegal, hp, heq⟩
        · show Unpacking r w cs ways (fsMkdir r (pathText (cs ++ q ++ [c])) s').2
          rwa [heq]
        · obtain ⟨rfl, hthrough⟩ := newPlace_own (h'.down hcleanInit (hq.of_prefix hinit)) hclean hp
          show Unpacking r w cs ways (fsMkdir r (pathText (cs ++ q ++ [c])) s').2
          rw [heq]
          exact h'.put hcs hthrough (fun dest heq => by cases heq) hlegal hw
      -- the parents first
      split
      · have hparents := mkdirs_unpacking jail hcs hwcs (n := n) h hcleanInit hwInit (hq.of_prefix hinit)
        refine bind_state hparents fun _ s' hok => hmake s' ?_
        rwa [hok] at hparents
      · exact hmake s h

section File
variable {q : List Name} {c : Name} {target : Str}

theorem Unpacking.unlink (h : Unpacking r w cs ways s) (hclean : Clean (cs ++ q ++ [c])) (hw : Within w (cs ++ q ++ [c])) (hcs : Clean cs)
    (hq : Passes ways q) : Unpacking r w cs ways (fsUnlink r (pathText (cs ++ q ++ [c])) s).2 := by
  rcases fsUnlink_cases r s (pathText (cs ++ q ++ [c])) with heq | ⟨p, hp, -, heq⟩
  · rwa [heq]
  · obtain ⟨rfl, hthrough⟩ := entryAt_own (h.down (hclean.of_prefix (List.prefix_append _ _)) hq) hclean hp
    rw [heq]
    exact h.del hcs hthrough hw

/-- The staging file is made where its name says. -/
theorem Unpacking.openStaging (h : Unpacking r w cs ways s) (hclean : Clean (cs ++ q ++ [c])) (hw : Within w (cs ++ q ++ [c])) (hcs : Clean cs)
    (hq : Passes ways q) (hway : q ++ [c] ∈ ways) : Unpacking r w cs ways (openWrite r false (pathText (cs ++ q ++ [c])) s).2 := by
  rcases openWrite_cases r s (pathText (cs ++ q ++ [c])) false with heq | ⟨p, hlegal, hp, heq⟩
  · rwa [heq]
  · obtain ⟨rfl, hthrough⟩ := openPlace_own (h.down (hclean.of_prefix (List.prefix_append _ _)) hq) hclean
      (fun dest => by rw [List.append_assoc]; exact h.links _ hway dest) hp
    rw [heq]
    exact h.put hcs hthrough (fun dest heq => by cases heq) hlegal hw

/-- The staging file goes over the member's name. -/
theorem Unpacking.renameStaging {c' : Name} (h : Unpacking r w cs ways s) (hclean : Clean (cs ++ q ++ [c])) (hclean' : Clean (cs ++ q ++ [c']))
    (hw : Within w (cs ++ q ++ [c])) (hw' : Within w (cs ++ q ++ [c'])) (hcs : Clean cs) (hq : Passes ways q) (hway : q ++ [c'] ∈ ways)
    (hfile : s.tree.shape (cs ++ q ++ [c']) ≠ some .dir) :
    Unpacking r w cs ways (fsRename r (pathText (cs ++ q ++ [c'])) (pathText (cs ++ q ++ [c])) s).2 := by
  rcases fsRename_cases r s (pathText (cs ++ q ++ [c'])) (pathText (cs ++ q ++ [c])) with
    heq | ⟨p, p', hlegal, hp, hp', heq⟩
  · rwa [heq]
  · have hown := h.down (hclean.of_prefix (List.prefix_append _ _)) hq
    obtain ⟨rfl, hthrough⟩ := entryAt_own hown hclean' hp
    obtain ⟨rfl, -⟩ := newPlace_own hown hclean hp'
    rw [heq, renamed, if_neg hfile, movedPlaces, if_neg hfile]
    have hdel := h.del hcs hthrough hw'
    have hkept : Through (s.tree.del (cs ++ q ++ [c'])).shape [] (cs ++ q) := by
      refine hthrough.congr fun p hp => ?_
      rw [Tree.shape_del (by simp), if_neg]
      rintro rfl
      have hlen := hp.length_le
      simp only [List.nil_append, List.length_append, List.length_singleton] at hlen
      omega
    have hkind : ∀ dest, (s.tree.shape (cs ++ q ++ [c'])).getD .other ≠ .link dest := by
      intro dest hk
      have hno := h.links _ hway dest
      rw [← List.append_assoc] at hno
      cases hs : s.tree.shape (cs ++ q ++ [c']) with
      | none =>
        rw [hs] at hk
        cases hk
      | some k =>
        rw [hs] at hk
        exact hno (hs.trans (congrArg some hk))
    have hput := hdel.put hcs hkept hkind hlegal hw
    rwa [List.append_assoc s.touched] at hput

theorem extractFile_unpacking {jail : Str} {m : Member} {n : Counts} (hcs : Clean cs) (hwcs : Within w cs) (h : Unpacking r w cs ways s)
    (hclean : Clean (cs ++ q ++ [c])) (htmp : Clean (cs ++ q ++ [c ++ lit ".tmp"])) (hw : Within w (cs ++ q ++ [c])) (hq : Passes ways q)
    (hway : q ++ [c ++ lit ".tmp"] ∈ ways) : Unpacking r w cs ways (extractFile r jail (pathText cs) m (pathText (cs ++ q ++ [c])) n s).2 := by
  have hcleanInit := hclean.of_prefix (List.prefix_append (cs ++ q) [c])
  have hwq : Within w (cs ++ q) := hwcs.between (q := q ++ [c]) (by rwa [← List.append_assoc]) (List.prefix_append q [c])
  have hwtmp : Within w (cs ++ q ++ [c ++ lit ".tmp"]) := hwq.tmp c
  unfold extractFile
  simp only [dirname_pathText hclean, pathText_concat_append]
  have hparents := mkdirs_unpacking jail hcs hwcs (n := (pathText (cs ++ q)).length) h hcleanInit hwq hq
  refine bind_state hparents fun _ s₁ hok => ?_
  rw [hok] at hparents
  refine asks_state hparents fun _ _ => attempt_state ?_
  have hopen := hparents.openStaging htmp hwtmp hcs hq hway
  cases hres : (openWrite r false (pathText (cs ++ q ++ [c ++ lit ".tmp"])) s₁).1 with
  | error f => exact hopen
  | ok u =>
    refine asks_state hopen fun _ _ => asks_state hopen fun _ _ => attempt_state (attempt_state ?_)
    have hgone := hopen.unlink hclean hw hcs hq
    have hdone := hgone.renameStaging hclean htmp hw hwtmp hcs hq hway fun hdir => by
      -- the staging file is the one just written
      obtain ⟨x, hx, hother⟩ := openWrite_ok hres
      obtain ⟨rfl, -⟩ := openPlace_own (hparents.down hcleanInit hq) htmp
        (fun dest => by rw [List.append_assoc]; exact hparents.links _ hway dest) hx
      have hdir' := fsUnlink_le hdir
      rw [hother (by simp)] at hdir'
      cases hdir'
    generalize fsRename r (pathText (cs ++ q ++ [c ++ lit ".tmp"])) (pathText (cs ++ q ++ [c]))
        (fsUnlink r (pathText (cs ++ q ++ [c])) (openWrite r false (pathText (cs ++ q ++ [c ++ lit ".tmp"])) s₁).2).2 = out at hdone ⊢
    obtain ⟨res, s'⟩ := out
    cases res <;> exact hdone

end File

/-! ### Every member -/

theorem safeZipName_ok {m : Member} {rel : Str} (h : safeZipName m.filename = .ok rel) : rel = join '/' m.parts ∧ Clean m.parts := by
  unfold safeZipName at h
  simp only at h
  split at h
  · cases h
  split at h
  · cases h
  split at h
  · cases h
  rename_i hup
  split at h
  · cases h
  refine ⟨(Except.ok.inj h).symm, fun p hp => ?_⟩
  have hfound := List.mem_filter.1 hp
  have hkept := of_decide_eq_true hfound.2
  refine ⟨⟨hkept.1, hkept.2, fun hdots => hup (hdots ▸ hp)⟩, notMem_of_mem_split hfound.1, fun hb => ?_⟩
  exact notMem_slashed _ (mem_of_mem_strip (mem_of_mem_split hfound.1 hb))

/-- What a member of the archive passes lies on the ways. -/
theorem passes_way {ms : List Member} {m : Member} (hm : m ∈ ms) {q : List Name} (hq : q <+: m.parts) (hlast : q ≠ m.parts ∨ m.isDir = true) :
    Passes (ms.flatMap Member.way) q := by
  intro q' hle hne
  refine List.mem_flatMap.2 ⟨m, hm, List.mem_append_left _ (List.mem_filter.2 ⟨(List.mem_inits q' _).2 (hle.trans hq), decide_eq_true ⟨hne, ?_⟩⟩)⟩
  rcases hlast with hlast | hdir
  · refine Or.inl fun heq => hlast (hq.eq_of_length_le ?_)
    rw [← heq]
    exact hle.length_le
  · exact Or.inr hdir

theorem extractMember_unpacking (reprText : Str → Str) (n : Counts) {jail : Str} {ms : List Member} {m : Member} (hjail : w.jailPath = .ok jail)
    (hcs : Clean cs) (hwcs : Within w cs) (hm : m ∈ ms) (h : Unpacking r w cs (ms.flatMap Member.way) s) :
    Unpacking r w cs (ms.flatMap Member.way) (extractMember r w reprText jail (pathText cs) m n s).2 := by
  unfold extractMember
  refine asks_state h fun rel hrel => ?_
  obtain ⟨rfl, hparts⟩ := safeZipName_ok hrel
  split
  · exact h
  · rename_i hsome
    have hne : m.parts ≠ [] := fun hnil => hsome (by rw [hnil]; rfl)
    have hclean : Clean (cs ++ m.parts) := fun x hx => (List.mem_append.1 hx).elim (hcs x) (hparts x)
    rw [posixJoin_join (fun x hx => ⟨(hcs x hx).1.1, (hcs x hx).2.1⟩) hne (rooted_join_clean hparts), posixNorm_pathText hclean]
    refine asks_state h fun denied hdenied => asks_state h fun _ hchecked => ?_
    rw [raiseIf_eq_ok, not_or] at hchecked
    have hw : Within w (cs ++ m.parts) := within_of_checks hclean hjail (by simpa using hchecked.1) (by simpa [hdenied] using hchecked.2)
    split
    · rename_i hdir
      have hdone := mkdirs_unpacking jail hcs hwcs (n := (pathText (cs ++ m.parts)).length) h hclean hw
        (passes_way hm (List.prefix_refl _) (Or.inr hdir))
      refine bind_state hdone fun _ s' hok => ?_
      rwa [hok] at hdone
    · rename_i hfile
      obtain ⟨q, c, hqc⟩ : ∃ q c, m.parts = q ++ [c] := ⟨_, _, (List.dropLast_append_getLast hne).symm⟩
      have hq : Passes (ms.flatMap Member.way) q := by
        refine passes_way hm (hqc ▸ List.prefix_append q [c]) (Or.inl fun heq => ?_)
        have hlen := congrArg List.length (heq.trans hqc)
        simp at hlen
      have hway : q ++ [c ++ lit ".tmp"] ∈ ms.flatMap Member.way := by
        refine List.mem_flatMap.2 ⟨m, hm, List.mem_append_right _ ?_⟩
        rw [if_neg hfile, hqc]
        simp
      rw [hqc, ← List.append_assoc] at hclean hw ⊢
      have htmp := clean_concat (hclean.of_prefix (List.prefix_append _ [c])) (clean_tmp (hclean c (by simp)))
      exact extractFile_unpacking hcs hwcs h hclean htmp hw hq hway

theorem extractAll_unpacking {reprText : Str → Str} {jail : Str} {infos : List Member} (hjail : w.jailPath = .ok jail) (hcs : Clean cs) (hwcs : Within w cs)
    {ms : List Member} : ∀ {n : Counts} {s : Session}, (∀ m ∈ ms, m ∈ infos) → Unpacking r w cs (infos.flatMap Member.way) s →
      Unpacking r w cs (infos.flatMap Member.way) (extractAll r w reprText jail (pathText cs) ms n s).2 := by
  induction ms with
  | nil => exact fun _ h => h
  | cons m rest ih =>
    intro n s hms h
    have hone := extractMember_unpacking reprText n hjail hcs hwcs (hms m List.mem_cons_self) h
    unfold extractAll
    refine bind_state hone fun n' s' hok => ?_
    rw [hok] at hone
    exact ih (fun x hx => hms x (List.mem_cons_of_mem m hx)) hone

end Unpack

section
variable {r : Remote} {w : Site} {t : Tree}

/-- The folder is where its path says, and no link stands below it on the way of a member. -/
def UnzipGuard (r : Remote) (w : Site) (t : Tree) (destRel : Str) (infos : List Member) : Prop :=
  ∀ jail dir path, w.resolveLogical (rstrip '/' (lstrip '/' (strip destRel))) = .ok (jail, dir) → w.assertInJail r.links t dir = .ok path →
    OwnDir r.links t path ∧
      ∀ cs, Clean cs → path = pathText cs → ∀ m ∈ infos, ∀ q ∈ m.way, ∀ dest, t.shape (cs ++ q) ≠ some (.link dest)

end

/-- A home with an archive. -/
def zipHome : Tree where
  nodes := homeNodes [([lit "x.zip"], .other)]
  nodup := by decide
  legal := by decide

/-- The same, with a link to `/etc` in the folder. -/
def linkedZip : Tree where
  nodes := homeNodes [([lit "x.zip"], .other), ([lit "docs", lit "l"], .link (lit "/etc"))] ++ [([lit "etc"], .dir)]
  nodup := by decide
  legal := by decide

def someFiles : List Member := [⟨lit "a/b.txt", 3, 3, true, false⟩, ⟨lit "c/", 0, 0, true, false⟩]

end PiHerder.Files
