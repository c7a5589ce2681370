import PiHerder.Files.Browse

/-!
# Overwriting when a call fails

| here | there |
| --- | --- |
| `putOver`, `writeOver`, `onFault` | `put_file` (964–1047) |
| `writeChunks` | its loop over the stream |
| `putSudo` | `_put_via_sudo` (1902–1920) |
| `moveOver`, `moveEachOver`, `moveManyOver` | `move_many` (2346–2408) |

Here the files have their contents. `PutFaults` and `MoveFaults` say which calls of the library fail; such a call changes
nothing. A call also fails where the server has nothing to do it on. `tee` is the shell command, `none` where it fails.
-/
namespace PiHerder.Files
open Lib Lib.Str Lib.FileTree Lib.Eff

abbrev Bytes := List UInt8

/-- The tree, and what its files hold. -/
structure Disk where
  tree : Tree
  data : List Name → Bytes

namespace Disk

/-- What is where, with the contents. -/
def files (d : Disk) : FileTree.Files Bytes := fun p =>
  match d.tree.shape p with
  | some .dir => some .dir
  | some (.link dest) => some (.link dest)
  | some .other => some (.file (d.data p))
  | none => none

def write (d : Disk) (p : List Name) (s : Bytes) : Disk :=
  if h : ∀ c ∈ p, Legal c then ⟨d.tree.put p .other h, Function.update d.data p s⟩ else d

def del (d : Disk) (p : List Name) : Disk := ⟨d.tree.del p, d.data⟩

def move (d : Disk) (p q : List Name) (h : ∀ c ∈ q, Legal c) : Disk :=
  ⟨renamed d.tree p q h, if d.tree.shape p = some .dir then fun x => if q <+: x then d.data (p ++ x.drop q.length) else d.data x
    else Function.update d.data q (d.data p)⟩

end Disk

/-! ## Calls that may fail -/

section Calls
variable (links : Nat) (fault : Option Fault)

def call (f : Disk → Option Disk) : Eff Disk Fault Unit := fun d =>
  match fault with
  | some e => (.error e, d)
  | none =>
    match f d with
    | some d' => (.ok (), d')
    | none => (.error .other, d)

/-- The file that `open(path, "wb")` is about. -/
def openedAt (d : Disk) (path : Str) : Option (List Name) :=
  (openPlace d.tree.shape links path).filter fun p => decide (∀ c ∈ p, Legal c)

/-- `open(path, "wb")`, with the place of the file. -/
def openFile (path : Str) : Eff Disk Fault (List Name) := fun d =>
  match fault with
  | some e => (.error e, d)
  | none =>
    match openedAt links d path with
    | some p => (.ok p, d.write p [])
    | none => (.error .other, d)

def removeFile (path : Str) : Eff Disk Fault Unit := call fault fun d =>
  (entryAt d.tree.shape links path).bind fun p => if d.tree.shape p = some .dir then none else some (d.del p)

/-- The new name must be free. -/
def renameFile (src dest : Str) : Eff Disk Fault Unit := call fault fun d =>
  match entryAt d.tree.shape links src, newPlace d.tree.shape links dest with
  | some p, some q =>
    if (d.tree.shape q).isSome ∨ p <+: q then none
    else if h : ∀ c ∈ q, Legal c then some (d.move p q h) else none
  | _, _ => none

end Calls

/-! ## An upload -/

/-- Which calls of one `put_file` fail: a removal of the temporary file may be made twice. -/
structure PutFaults where
  openTmp : Option Fault
  write : Nat → Option Fault
  removeDest : Option Fault
  rename : Option Fault
  removeTmp : Nat → Option Fault

/-- The stream, as it is read. -/
structure Body where
  size : Option Nat
  chunks : List Bytes
  filled : [] ∉ chunks
  seekable : Bool
  client : Bool

/-- Why the loop over the stream ends early; with how much it had counted. -/
inductive Stop
  | tooLarge
  | fault (f : Fault) (written : Nat)
deriving DecidableEq, Repr

/-- What the loop leaves in the temporary file, and why it ends. -/
def writeChunks (write : Nat → Option Fault) (cap : Nat) : Nat → Bytes → List Bytes → Bytes × Option Stop
  | _, text, [] => (text, none)
  | k, text, c :: cs =>
    if cap < text.length + c.length then (text, some .tooLarge)
    else
      match write k with
      | some f => (text, some (.fault f (text.length + c.length)))
      | none => writeChunks write cap (k + 1) (text ++ c) cs

section Put
variable (r : Remote) (w : Site) (tee : Disk → Str → Bytes → Option Disk) (faults : PutFaults) (role : Role) (body : Body) (dest : Str)

def putSudo : Eff Disk FilesError Unit := do
  asks fun _ => raiseIf (r.cap < body.chunks.flatten.length) (tooLarge r)
  match ← attempt (call none fun d => tee d dest body.chunks.flatten) with
  | .ok _ => pure ()
  | .error _ => raise ⟨.denied, writeDeniedMsg .privileged ++ lit " (" ++ r.teeError ++ lit ")"⟩

def removeTmp (k : Nat) : Eff Disk Fault Unit := removeFile r.links (faults.removeTmp k) (dest ++ lit ".tmp")

/-- What is done when the library raised. -/
def onFault (written : Nat) (f : Fault) : Eff Disk FilesError Unit := do
  let _ ← attempt (removeTmp r faults dest 0)
  match f with
  | .perm =>
    if role = .privileged ∧ body.client = true ∧ (written = 0 ∨ body.seekable = true) then putSudo r tee body dest
    else raise ⟨.denied, writeDeniedMsg role⟩
  | .other => raise sshError

def writeOver : Eff Disk FilesError Unit := do
  match ← attempt (openFile r.links faults.openTmp (dest ++ lit ".tmp")) with
  | .error f => onFault r tee faults role body dest 0 f
  | .ok p => do
    let (text, stop) := writeChunks faults.write r.cap 0 [] body.chunks
    modify fun d => d.write p text
    match stop with
    | some .tooLarge => do
      let _ ← attempt (removeTmp r faults dest 0)
      let _ ← attempt (removeTmp r faults dest 1)
      raise (tooLarge r)
    | some (.fault f written) => onFault r tee faults role body dest written f
    | none => do
      let _ ← attempt (removeFile r.links faults.removeDest dest)
      match ← attempt (renameFile r.links faults.rename (dest ++ lit ".tmp") dest) with
      | .error f => onFault r tee faults role body dest text.length f
      | .ok _ => pure ()

/-- The path that is written. -/
def putOver (relDir filename : Str) : Eff Disk FilesError Str := do
  let dest ← asks fun d => putTarget r.links w d.tree r relDir filename body.size
  let role ← asks fun _ => normalizeRole w.role
  writeOver r tee faults role body dest
  pure dest

end Put

/-! ## A move -/

structure MoveFaults where
  removeDest : Option Fault
  rename : Option Fault

/-- One entry of a move: from where, to where, and whether something is there. -/
structure MoveStep where
  src : Str
  dest : Str
  existed : Bool
deriving DecidableEq, Repr

section Move
variable (r : Remote) (w : Site) (faults : Nat → MoveFaults) (jail destDir : Str) (overwrite : Bool)

/-- The checks on one entry; `none` when it is there already. -/
def moveStep (t : Tree) (rel : Str) : Except FilesError (Option MoveStep) := do
  let (_, src) ← w.resolveLogical rel
  let src ← w.assertInJail r.links t src
  raiseIf (src = jail ∨ src = lit "/") ⟨.denied, lit "Cannot move the jail root"⟩
  raiseDenied w src
  let base := basename src
  let dest := posixNorm (posixJoin destDir base)
  raiseBlocked w dest jail
  if dest = src then pure none
  else do
    raiseIf (underJail destDir src = true) ⟨.denied, lit "Cannot move a folder into itself"⟩
    let there := (entryAt t.shape r.links dest).bind t.shape
    raiseIf (there = some .dir) ⟨.exists_, base ++ lit "/ already exists in the destination"⟩
    raiseIf (there.isSome = true ∧ overwrite = false) ⟨.exists_, base ++ lit " already exists in the destination"⟩
    pure (some ⟨src, dest, there.isSome⟩)

/-- The calls for one entry. -/
def moveCalls (f : MoveFaults) (s : MoveStep) : Eff Disk Fault Unit := do
  if s.existed then removeFile r.links f.removeDest s.dest
  renameFile r.links f.rename s.src s.dest

def moveOver (k : Nat) (rel : Str) : Eff Disk FilesError Bool := do
  match ← asks fun d => moveStep r w jail destDir overwrite d.tree rel with
  | none => pure false
  | some s =>
    match ← attempt (moveCalls r (faults k) s) with
    | .error _ => raise sshError
    | .ok _ => pure true

/-- The first argument is how many entries came before. -/
def moveEachOver : Nat → List Str → Eff Disk FilesError Nat
  | _, [] => pure 0
  | k, rel :: rest => do
    let moved ← moveOver r w faults jail destDir overwrite k rel
    let n ← moveEachOver (k + 1) rest
    pure (n + if moved then 1 else 0)

/-- The jail and the folder that is moved to. -/
def moveFolder (t : Tree) (destDirRel : Str) : Except FilesError (Str × Str) := do
  let (jail, destDir) ← w.resolveLogical destDirRel
  let destDir ← w.assertInJail r.links t destDir
  let kind ← lstat r.links t destDir
  raiseIf (kind ≠ .dir) ⟨.isFile, lit "Destination must be a folder"⟩
  pure (jail, destDir)

end Move

def moveManyOver (r : Remote) (w : Site) (faults : Nat → MoveFaults) (srcRels : List Str) (destDirRel : Str) (overwrite : Bool) :
    Eff Disk FilesError (Str × Str × Nat) := do
  asks fun _ => raiseIf (moveNames srcRels = []) ⟨.invalid, lit "Nothing selected to move"⟩
  let (jail, destDir) ← asks fun d => moveFolder r w d.tree destDirRel
  let moved ← moveEachOver r w faults jail destDir overwrite 0 (moveNames srcRels)
  let rel ← asks fun _ => relOf destDir jail
  pure (jail, rel, moved)

/-! ## The disk after a call -/

namespace Disk
variable {d : Disk} {p : List Name}

theorem shape_eq (d : Disk) (p : List Name) : d.tree.shape p = (d.files p).map Node.kind := by
  unfold files
  cases hk : d.tree.shape p with
  | none => rfl
  | some k => cases k <;> rfl

theorem files_eq_none : d.files p = none ↔ d.tree.shape p = none := by
  unfold files
  split <;> simp [*]

theorem shape_write (hp : p ≠ []) (hl : ∀ c ∈ p, Legal c) (s : Bytes) (x : List Name) :
    (d.write p s).tree.shape x = if x = p then some .other else d.tree.shape x := by
  rw [write, dif_pos hl]
  exact Tree.shape_put hp hl x

theorem files_write (hp : p ≠ []) (hl : ∀ c ∈ p, Legal c) (s : Bytes) : (d.write p s).files = Function.update d.files p (some (.file s)) := by
  funext x
  have hshape := shape_write (d := d) hp hl s x
  unfold files
  rw [hshape, Function.update_apply]
  by_cases hx : x = p
  · rw [if_pos hx, if_pos hx, write, dif_pos hl, hx]
    simp
  · rw [if_neg hx, if_neg hx, write, dif_pos hl]
    simp only [Function.update_of_ne hx]

theorem files_del (hp : p ≠ []) : (d.del p).files = Function.update d.files p none := by
  funext x
  unfold files del
  rw [Tree.shape_del hp, Function.update_apply]
  by_cases hx : x = p
  · rw [if_pos hx, if_pos hx]
  · rw [if_neg hx, if_neg hx]

/-- What is no folder is moved alone. -/
theorem files_move {q : List Name} (hp : p ≠ []) (hq : q ≠ []) (hl : ∀ c ∈ q, Legal c) {k : Kind} (hk : d.tree.shape p = some k) (hdir : k ≠ .dir) :
    (d.move p q hl).files = Function.update (Function.update d.files p none) q (d.files p) := by
  have hnot : ¬ d.tree.shape p = some .dir := fun h => hdir (Option.some.inj (hk.symm.trans h))
  have hshape : ∀ x, (d.move p q hl).tree.shape x = if x = q then some k else if x = p then none else d.tree.shape x := by
    intro x
    unfold move renamed
    simp only [if_neg hnot]
    rw [Tree.shape_put hq, Tree.shape_del hp, hk]
    rfl
  have hdata : (d.move p q hl).data = Function.update d.data q (d.data p) := if_neg hnot
  funext x
  by_cases hx : x = q
  · subst hx
    rw [Function.update_self, files, hshape, if_pos rfl, hdata, Function.update_self, files, hk]
  · rw [Function.update_of_ne hx, files, hshape, if_neg hx, hdata, Function.update_of_ne hx, Function.update_apply]
    by_cases hxp : x = p
    · rw [if_pos hxp, if_pos hxp]
    · rw [if_neg hxp, if_neg hxp]
      rfl

end Disk

/-! ## The folder that is written in -/

/-- The place that the text of a folder leads to. -/
structure Folder (links : Nat) (t : Tree) (D dd : List Name) : Prop where
  clean : Clean D
  leads : ∃ m, follow t.shape links [] (split '/' (pathText D)) = some (m, dd)
  isDir : t.shape dd = some .dir

section Folder
variable {links : Nat} {t t' : Tree} {D dd : List Name} {c : Name}

/-- Where there is more, a folder is where it was. -/
theorem Folder.mono (h : Folder links t D dd) (hmore : ∀ p k, t.shape p = some k → t'.shape p = some k) : Folder links t' D dd := by
  obtain ⟨m, hm⟩ := h.leads
  exact ⟨h.clean, ⟨m, follow_mono hmore hm⟩, hmore _ _ h.isDir⟩

theorem Folder.leadsTo (h : Folder links t D dd) : LeadsTo t.shape links [] D dd := by
  obtain ⟨m, hm⟩ := h.leads
  exact ⟨m, by rwa [follow_pathText Tree.shape_root h.clean] at hm⟩

theorem Folder.entryAt (h : Folder links t D dd) (hc : Entry c ∧ '/' ∉ c ∧ '\\' ∉ c) :
    entryAt t.shape links (pathText (D ++ [c])) = if (t.shape (dd ++ [c])).isSome then some (dd ++ [c]) else none := by
  rw [FileTree.entryAt, split_pathText (by simp) (clean_concat h.clean hc).noSlash, lplace_skip Tree.shape_root (by simp),
    h.leadsTo.lplace h.isDir hc.1]

theorem Folder.newPlace (h : Folder links t D dd) (hc : Entry c ∧ '/' ∉ c ∧ '\\' ∉ c) :
    newPlace t.shape links (pathText (D ++ [c])) = some (dd ++ [c]) := by
  obtain ⟨m, hm⟩ := h.leadsTo
  unfold FileTree.newPlace
  have hsplit : split '/' (pathText (D ++ [c])) = ([] :: D) ++ [c] := split_pathText (by simp) (clean_concat h.clean hc).noSlash
  rw [hsplit, List.getLast?_concat, List.dropLast_concat]
  simp only
  rw [if_pos hc.1, follow_skip Tree.shape_root, hm, Option.bind_some, if_pos h.isDir]

/-- What is opened is a file, or is not there yet. -/
theorem openedAt_spec {d : Disk} {path : Str} {q : List Name} (h : openedAt links d path = some q) :
    q ≠ [] ∧ (∀ c ∈ q, Legal c) ∧ (d.tree.shape q = some .other ∨ d.tree.shape q = none) := by
  obtain ⟨hopen, hl⟩ := Option.filter_eq_some_iff.1 h
  have hkind : d.tree.shape q = some .other ∨ d.tree.shape q = none := by
    unfold openPlace at hopen
    split at hopen
    · split at hopen
      · rename_i hother
        obtain rfl := Option.some.inj hopen
        exact Or.inl hother
      · cases hopen
    · obtain ⟨-, -, -, -, -, hnone⟩ := creat_spec Tree.shape_root hopen
      exact Or.inr hnone
  refine ⟨?_, of_decide_eq_true hl, hkind⟩
  rintro rfl
  rcases hkind with h | h <;> rw [Tree.shape_root] at h <;> cases h

/-- A name that is free is opened where it stands, and no folder is. -/
theorem Folder.openedAt (h : Folder links t D dd) {d : Disk} (ht : d.tree = t) (hc : Entry c ∧ '/' ∉ c ∧ '\\' ∉ c) {q : List Name}
    (hq : openedAt links d (pathText (D ++ [c])) = some q) :
    (t.shape (dd ++ [c]) = none → q = dd ++ [c]) ∧ t.shape (dd ++ [c]) ≠ some .dir := by
  subst ht
  obtain ⟨hopen, -⟩ := Option.filter_eq_some_iff.1 hq
  have hfollow : follow d.tree.shape links [] (split '/' (pathText (D ++ [c]))) = follow d.tree.shape links [] (D ++ [c]) :=
    follow_pathText Tree.shape_root (clean_concat h.clean hc)
  have hsplit : split '/' (pathText (D ++ [c])) = [] :: (D ++ [c]) := split_pathText (by simp) (clean_concat h.clean hc).noSlash
  constructor
  · intro hnone
    obtain ⟨m, hm⟩ := h.leadsTo
    unfold openPlace at hopen
    rw [hfollow, (h.leadsTo.missing h.isDir hc.1 hnone).2, hsplit] at hopen
    simp only at hopen
    rw [creat_skip Tree.shape_root (by simp)] at hopen
    unfold creat creatPlace at hopen
    rw [List.getLast?_concat, List.dropLast_concat] at hopen
    simp only [if_pos hc.1, hm, Option.bind_some, h.isDir, hnone, ne_eq, not_true_eq_false, if_false] at hopen
    exact (Option.some.inj hopen).symm
  · intro hdir
    obtain ⟨m, hm⟩ := h.leadsTo.follow h.isDir hc.1 hdir fun dest heq => by cases heq
    unfold openPlace at hopen
    rw [hfollow, hm] at hopen
    simp only [hdir] at hopen
    rw [if_neg (by simp)] at hopen
    cases hopen

/-- The folder of a target, and the name in it. -/
theorem putTarget_folder {w : Site} {r : Remote} {relDir filename : Str} {size : Option Nat} {dest : Str}
    (h : putTarget links w t r relDir filename size = .ok dest) :
    ∃ D dd name, Folder links t D dd ∧ (Entry name ∧ '/' ∉ name ∧ '\\' ∉ name) ∧ dest = pathText (D ++ [name]) := by
  obtain ⟨_, -, h⟩ := except_bind_eq_ok.1 h
  obtain ⟨base, hbase, h⟩ := except_bind_eq_ok.1 h
  obtain ⟨_, -, h⟩ := except_bind_eq_ok.1 h
  obtain ⟨_, -, h⟩ := except_bind_eq_ok.1 h
  obtain ⟨⟨jail, dir⟩, hres, h⟩ := except_bind_eq_ok.1 h
  obtain ⟨_, -, h⟩ := except_bind_eq_ok.1 h
  obtain ⟨_, -, h⟩ := except_bind_eq_ok.1 h
  obtain ⟨_, -, h⟩ := except_bind_eq_ok.1 h
  obtain ⟨path, hpath, h⟩ := except_bind_eq_ok.1 h
  obtain ⟨kind, hkind, h⟩ := except_bind_eq_ok.1 h
  obtain ⟨_, hdir, h⟩ := except_bind_eq_ok.1 h
  obtain ⟨_, -, h⟩ := except_bind_eq_ok.1 h
  obtain rfl := Except.ok.inj h
  rw [raiseIf_eq_ok, not_not] at hdir
  subst hdir
  obtain ⟨-, cs, rfl, hcs⟩ := resolveLogical_ok hres
  obtain ⟨D, rfl, hD, -⟩ := assertInJail_text hcs hpath
  unfold lstat at hkind
  split at hkind
  · rename_i k hk
    obtain rfl := Except.ok.inj hkind
    obtain ⟨dd, hdd, hshape⟩ := Option.bind_eq_some_iff.1 hk
    obtain ⟨m, hm⟩ := follow_of_lplace hdd hshape
    exact ⟨D, dd, base, ⟨hD, ⟨m, hm⟩, hshape⟩, clean_sanitized hbase, child_text hD (clean_sanitized hbase)⟩
  · cases hkind

end Folder

/-! ## Removals -/

/-- A removal of what is there goes through. -/
def Removes (fault : Option Fault) (k : Option Kind) : Prop := fault = none ∧ k ≠ none ∧ k ≠ some .dir

instance (fault : Option Fault) (k : Option Kind) : Decidable (Removes fault k) := inferInstanceAs (Decidable (_ ∧ _))

/-- The temporary file is removed, once or twice. -/
def cleanup (links : Nat) (path : Str) (fs : List (Option Fault)) (d : Disk) : Disk :=
  fs.foldl (fun d f => (removeFile links f path d).2) d

section Removals
variable {links : Nat} {d : Disk} {fault : Option Fault} {path : Str} {D dd : List Name} {c : Name}

theorem removeFile_cases (links : Nat) (fault : Option Fault) (path : Str) (d : Disk) : (removeFile links fault path d).2 = d ∨
    ∃ p, entryAt d.tree.shape links path = some p ∧ d.tree.shape p ≠ some .dir ∧ (removeFile links fault path d).2 = d.del p := by
  unfold removeFile call
  cases fault with
  | some e => exact Or.inl rfl
  | none =>
    cases hentry : entryAt d.tree.shape links path with
    | none => exact Or.inl (by simp [hentry])
    | some p =>
      by_cases hdir : d.tree.shape p = some .dir
      · exact Or.inl (by simp [hentry, hdir])
      · exact Or.inr ⟨p, rfl, hdir, by simp [hentry, hdir]⟩

theorem removeFile_there {p : List Name} (hp : entryAt d.tree.shape links path = some p) (hdir : d.tree.shape p ≠ some .dir) :
    removeFile links fault path d = match fault with
      | some e => (.error e, d)
      | none => (.ok (), d.del p) := by
  unfold removeFile call
  cases fault with
  | some e => rfl
  | none => simp [hp, hdir]

/-- A removal of what can stand at one place only. -/
theorem removeFile_place {p : List Name} (hp : ∀ x, entryAt d.tree.shape links path = some x → x = p) : (removeFile links fault path d).2.files =
    if Removes fault ((entryAt d.tree.shape links path).bind d.tree.shape) then Function.update d.files p none else d.files := by
  unfold removeFile call Removes
  cases fault with
  | some e => simp
  | none =>
    cases hentry : entryAt d.tree.shape links path with
    | none => simp [hentry]
    | some x =>
      obtain rfl := hp x hentry
      have hsome := lplace_isSome Tree.shape_root hentry
      by_cases hdir : d.tree.shape x = some .dir
      · simp [hentry, hdir]
      · simp only [hentry, Option.bind_some, if_neg hdir]
        rw [if_pos ⟨trivial, Option.ne_none_iff_isSome.2 hsome, hdir⟩]
        exact Disk.files_del (Tree.ne_root_of_shape hdir)

/-- What is not there is not there after a removal. -/
theorem removeFile_none {p : List Name} (h : d.files p = none) : (removeFile links fault path d).2.files p = none := by
  rcases removeFile_cases links fault path d with heq | ⟨x, -, hdir, heq⟩
  · rw [heq, h]
  · rw [heq, Disk.files_del (Tree.ne_root_of_shape hdir), Function.update_apply, h, ite_self]

theorem cleanup_none (links : Nat) (path : Str) (fs : List (Option Fault)) {p : List Name} :
    ∀ {d : Disk}, d.files p = none → (cleanup links path fs d).files p = none := by
  induction fs with
  | nil => exact fun h => h
  | cons f fs ih => exact fun h => ih (removeFile_none h)

theorem Folder.removeFile (h : Folder links d.tree D dd) (hc : Entry c ∧ '/' ∉ c ∧ '\\' ∉ c) :
    (removeFile links fault (pathText (D ++ [c])) d).2 = if Removes fault (d.tree.shape (dd ++ [c])) then d.del (dd ++ [c]) else d := by
  have hentry := h.entryAt hc
  unfold Files.removeFile call Removes
  cases fault with
  | some e => simp
  | none =>
    cases hk : d.tree.shape (dd ++ [c]) with
    | none => simp [hentry, hk]
    | some k =>
      by_cases hdir : k = .dir
      · simp [hentry, hk, hdir]
      · simp [hentry, hk, hdir]

/-- What was removed is not found again. -/
theorem Folder.entryAt_del (h : Folder links d.tree D dd) (hc : Entry c ∧ '/' ∉ c ∧ '\\' ∉ c) :
    FileTree.entryAt (d.del (dd ++ [c])).tree.shape links (pathText (D ++ [c])) = none := by
  cases hentry : FileTree.entryAt (d.del (dd ++ [c])).tree.shape links (pathText (D ++ [c])) with
  | none => rfl
  | some x =>
    have hsome := lplace_isSome Tree.shape_root hentry
    have hdel : ∀ y, (d.del (dd ++ [c])).tree.shape y = if y = dd ++ [c] then none else d.tree.shape y := Tree.shape_del (by simp)
    have hless : ∀ p k, (d.del (dd ++ [c])).tree.shape p = some k → d.tree.shape p = some k := by
      intro p k hp
      rw [hdel] at hp
      split at hp
      · cases hp
      · exact hp
    have hx : FileTree.entryAt d.tree.shape links (pathText (D ++ [c])) = some x := lplace_mono hless hentry
    rw [h.entryAt hc] at hx
    split at hx
    · obtain rfl := Option.some.inj hx
      rw [hdel, if_pos rfl] at hsome
      cases hsome
    · cases hx

theorem cleanup_of_entryAt (fs : List (Option Fault)) (h : entryAt d.tree.shape links path = none) : cleanup links path fs d = d := by
  induction fs with
  | nil => rfl
  | cons f fs ih =>
    have hone : (removeFile links f path d).2 = d := by
      rcases removeFile_cases links f path d with heq | ⟨x, hx, -⟩
      · exact heq
      · rw [h] at hx
        cases hx
    unfold cleanup
    rw [List.foldl_cons, hone]
    exact ih

/-- After the removals the file is gone, if one of them went through. -/
theorem Folder.cleanup_files (h : Folder links d.tree D dd) (hc : Entry c ∧ '/' ∉ c ∧ '\\' ∉ c) (fs : List (Option Fault)) :
    (cleanup links (pathText (D ++ [c])) fs d).files =
      if ∃ f ∈ fs, Removes f (d.tree.shape (dd ++ [c])) then Function.update d.files (dd ++ [c]) none else d.files := by
  induction fs with
  | nil => exact (if_neg (by simp)).symm
  | cons f fs ih =>
    unfold cleanup
    rw [List.foldl_cons, h.removeFile hc]
    by_cases hf : Removes f (d.tree.shape (dd ++ [c]))
    · have hgone := cleanup_of_entryAt fs (h.entryAt_del hc)
      unfold cleanup at hgone
      rw [if_pos hf, if_pos ⟨f, List.mem_cons_self, hf⟩, hgone]
      exact Disk.files_del (by simp)
    · rw [if_neg hf]
      refine ih.trans ?_
      simp [hf]

end Removals

/-! ## One upload -/

section Put
variable (r : Remote) (tee : Disk → Str → Bytes → Option Disk) (faults : PutFaults) (role : Role) (body : Body) (dest : Str) (d : Disk)

def tmpOf (dest : Str) : Str := dest ++ lit ".tmp"

/-- The file that is opened. -/
def opened : Option (List Name) := if faults.openTmp = none then openedAt r.links d (tmpOf dest) else none

/-- What is written to it, and what stops the loop. -/
def written : Bytes × Option Stop := writeChunks faults.write r.cap 0 [] body.chunks

/-- The disk when the temporary file has been written. -/
def afterLoop (q : List Name) : Disk := (d.write q []).write q (written r faults body).1

/-- The disk before the temporary file is removed or renamed. -/
def core : Disk :=
  match opened r faults dest d with
  | none => d
  | some q =>
    if (written r faults body).2 = none then (removeFile r.links faults.removeDest dest (afterLoop r faults body d q)).2
    else afterLoop r faults body d q

/-- The removals of the temporary file: two when the upload is too large. -/
def cleanFaults : List (Option Fault) :=
  if (opened r faults dest d).isSome ∧ (written r faults body).2 = some .tooLarge then [faults.removeTmp 0, faults.removeTmp 1]
  else [faults.removeTmp 0]

variable {r tee faults role body dest d} {d' : Disk} {e : FilesError} {u : Unit}

theorem putSudo_ok (h : putSudo r tee body dest d = (.ok u, d')) : tee d dest body.chunks.flatten = some d' := by
  obtain ⟨_, -, h⟩ := asks_eq_ok.1 h
  change (match (call none (fun d => tee d dest body.chunks.flatten) d).1 with
    | .ok _ => pure ()
    | .error _ => raise ⟨.denied, writeDeniedMsg .privileged ++ lit " (" ++ r.teeError ++ lit ")"⟩ : Eff Disk FilesError Unit)
      (call none (fun d => tee d dest body.chunks.flatten) d).2 = (.ok u, d') at h
  unfold call at h
  cases htee : tee d dest body.chunks.flatten with
  | none =>
    simp only [htee] at h
    cases h
  | some d'' =>
    simp only [htee] at h
    obtain ⟨-, rfl⟩ := Prod.mk.inj h
    rfl

theorem putSudo_error (h : putSudo r tee body dest d = (.error e, d')) : d' = d := by
  rcases bind_eq_error.1 h with h | ⟨_, s, hs, h⟩
  · exact (Prod.mk.inj h).2.symm
  · obtain ⟨-, rfl⟩ := Prod.mk.inj hs
    change (match (call none (fun d => tee d dest body.chunks.flatten) d).1 with
      | .ok _ => pure ()
      | .error _ => raise ⟨.denied, writeDeniedMsg .privileged ++ lit " (" ++ r.teeError ++ lit ")"⟩ : Eff Disk FilesError Unit)
        (call none (fun d => tee d dest body.chunks.flatten) d).2 = (.error e, d') at h
    unfold call at h
    cases htee : tee d dest body.chunks.flatten with
    | none =>
      simp only [htee] at h
      exact (Prod.mk.inj h).2.symm
    | some d'' =>
      simp only [htee] at h
      cases h

/-- Where the library raised, what is left is the disk without the temporary file; or `tee` has written. -/
theorem onFault_error {n : Nat} {f : Fault} (h : onFault r tee faults role body dest n f d = (.error e, d')) :
    d' = cleanup r.links (tmpOf dest) [faults.removeTmp 0] d := by
  cases f with
  | other => exact (Prod.mk.inj h).2.symm
  | perm =>
    change (if role = .privileged ∧ body.client = true ∧ (n = 0 ∨ body.seekable = true) then putSudo r tee body dest
      else raise ⟨.denied, writeDeniedMsg role⟩) (cleanup r.links (tmpOf dest) [faults.removeTmp 0] d) = (.error e, d') at h
    split at h
    · exact putSudo_error h
    · exact (Prod.mk.inj h).2.symm

theorem onFault_ok {n : Nat} {f : Fault} (h : onFault r tee faults role body dest n f d = (.ok u, d')) :
    f = .perm ∧ tee (cleanup r.links (tmpOf dest) [faults.removeTmp 0] d) dest body.chunks.flatten = some d' := by
  cases f with
  | other => cases h
  | perm =>
    change (if role = .privileged ∧ body.client = true ∧ (n = 0 ∨ body.seekable = true) then putSudo r tee body dest
      else raise ⟨.denied, writeDeniedMsg role⟩) (cleanup r.links (tmpOf dest) [faults.removeTmp 0] d) = (.ok u, d') at h
    split at h
    · exact ⟨rfl, putSudo_ok h⟩
    · cases h

variable (tee role body) in
/-- The temporary file is not opened. -/
theorem writeOver_closed (h : opened r faults dest d = none) :
    ∃ f, writeOver r tee faults role body dest d = onFault r tee faults role body dest 0 f d := by
  unfold opened at h
  cases hf : faults.openTmp with
  | some f => exact ⟨f, by simp [writeOver, bind_apply, attempt, openFile, hf]⟩
  | none =>
    rw [if_pos hf] at h
    refine ⟨.other, ?_⟩
    unfold tmpOf at h
    simp [writeOver, bind_apply, attempt, openFile, hf, h]

/-- It is opened, and written. -/
theorem writeOver_opened {q : List Name} (h : opened r faults dest d = some q) :
    writeOver r tee faults role body dest d =
      match (written r faults body).2 with
      | some .tooLarge => (.error (tooLarge r), cleanup r.links (tmpOf dest) [faults.removeTmp 0, faults.removeTmp 1] (afterLoop r faults body d q))
      | some (.fault f n) => onFault r tee faults role body dest n f (afterLoop r faults body d q)
      | none =>
        let d2 := (removeFile r.links faults.removeDest dest (afterLoop r faults body d q)).2
        match (renameFile r.links faults.rename (tmpOf dest) dest d2).1 with
        | .error f => onFault r tee faults role body dest (written r faults body).1.length f (renameFile r.links faults.rename (tmpOf dest) dest d2).2
        | .ok _ => (.ok (), (renameFile r.links faults.rename (tmpOf dest) dest d2).2) := by
  have hf : faults.openTmp = none := by
    unfold opened at h
    split at h
    · assumption
    · cases h
  unfold opened at h
  rw [if_pos hf] at h
  have hopen : openFile r.links faults.openTmp (dest ++ lit ".tmp") d = (.ok q, d.write q []) := by
    unfold tmpOf at h
    simp [openFile, hf, h]
  have hgo : writeOver r tee faults role body dest d =
      (do
        modify fun d => d.write q (written r faults body).1
        match (written r faults body).2 with
        | some .tooLarge => do
          let _ ← attempt (removeTmp r faults dest 0)
          let _ ← attempt (removeTmp r faults dest 1)
          raise (tooLarge r)
        | some (.fault f n) => onFault r tee faults role body dest n f
        | none => do
          let _ ← attempt (removeFile r.links faults.removeDest dest)
          match ← attempt (renameFile r.links faults.rename (dest ++ lit ".tmp") dest) with
          | .error f => onFault r tee faults role body dest (written r faults body).1.length f
          | .ok _ => pure () : Eff Disk FilesError Unit) (d.write q []) := by
    unfold writeOver
    rw [bind_apply, attempt, hopen]
    rfl
  rw [hgo]
  cases hstop : (written r faults body).2 with
  | none =>
    simp only [bind_apply, modify_apply, attempt]
    change (match (renameFile r.links faults.rename (tmpOf dest) dest (removeFile r.links faults.removeDest dest (afterLoop r faults body d q)).2).1 with
      | .error f => onFault r tee faults role body dest (written r faults body).1.length f
      | .ok _ => pure () : Eff Disk FilesError Unit)
        (renameFile r.links faults.rename (tmpOf dest) dest (removeFile r.links faults.removeDest dest (afterLoop r faults body d q)).2).2 = _
    generalize renameFile r.links faults.rename (tmpOf dest) dest (removeFile r.links faults.removeDest dest (afterLoop r faults body d q)).2 = out
    cases out.1 <;> rfl
  | some stop =>
    cases stop with
    | tooLarge => rfl
    | fault f n => rfl

theorem call_error {fault : Option Fault} {g : Disk → Option Disk} {f : Fault} (h : (call fault g d).1 = .error f) : (call fault g d).2 = d := by
  unfold call at h ⊢
  cases fault with
  | some e => rfl
  | none =>
    cases hg : g d with
    | none => rfl
    | some d'' =>
      simp only [hg] at h
      cases h

theorem renameFile_error {fault : Option Fault} {src : Str} {f : Fault} (h : (renameFile r.links fault src dest d).1 = .error f) :
    (renameFile r.links fault src dest d).2 = d := call_error h

/-- **What an upload that raises leaves**: the disk as it was written, without the temporary file. -/
theorem writeOver_error (h : writeOver r tee faults role body dest d = (.error e, d')) :
    d' = cleanup r.links (tmpOf dest) (cleanFaults r faults body dest d) (core r faults body dest d) := by
  unfold core cleanFaults
  cases hopen : opened r faults dest d with
  | none =>
    obtain ⟨f, heq⟩ := writeOver_closed tee role body hopen
    rw [heq] at h
    exact onFault_error h
  | some q =>
    rw [writeOver_opened hopen] at h
    cases hstop : (written r faults body).2 with
    | none =>
      simp only [hstop] at h
      split at h
      · rename_i f hf
        rw [renameFile_error hf] at h
        simpa [hstop] using onFault_error h
      · cases h
    | some stop =>
      simp only [hstop] at h
      cases stop with
      | tooLarge => simpa [hstop] using (Prod.mk.inj h).2.symm
      | fault f n => simpa [hstop] using onFault_error h

/-- **What one that succeeds leaves**: the temporary file in place of the destination, or what `tee` wrote. -/
theorem writeOver_ok (h : writeOver r tee faults role body dest d = (.ok u, d')) :
    ((opened r faults dest d).isSome ∧ (written r faults body).2 = none ∧ faults.rename = none ∧
      renameFile r.links none (tmpOf dest) dest (core r faults body dest d) = (.ok (), d')) ∨
    (¬ ((opened r faults dest d).isSome ∧ (written r faults body).2 = none ∧ faults.rename = none) ∧
      tee (cleanup r.links (tmpOf dest) [faults.removeTmp 0] (core r faults body dest d)) dest body.chunks.flatten = some d') := by
  cases hopen : opened r faults dest d with
  | none =>
    obtain ⟨f, heq⟩ := writeOver_closed tee role body hopen
    rw [heq] at h
    have hcore : core r faults body dest d = d := by rw [core, hopen]
    exact Or.inr ⟨fun hno => by simp at hno, by rw [hcore]; exact (onFault_ok h).2⟩
  | some q =>
    rw [writeOver_opened hopen] at h
    cases hstop : (written r faults body).2 with
    | none =>
      have hcore : core r faults body dest d = (removeFile r.links faults.removeDest dest (afterLoop r faults body d q)).2 := by
        simp only [core, hopen, hstop, if_true]
      rw [hcore]
      simp only [hstop] at h
      split at h
      · rename_i f hf
        have hstate := renameFile_error hf
        rw [hstate] at h
        obtain ⟨rfl, htee⟩ := onFault_ok h
        refine Or.inr ⟨?_, htee⟩
        rintro ⟨-, -, hnone⟩
        rw [hnone] at hf
        unfold renameFile call at hf
        simp only at hf
        split at hf <;> cases hf
      · rename_i v hok
        obtain ⟨-, hd⟩ := Prod.mk.inj h
        cases hren : faults.rename with
        | some f =>
          rw [hren] at hok
          cases hok
        | none =>
          rw [hren] at hok hd
          exact Or.inl ⟨rfl, rfl, rfl, Prod.ext hok hd⟩
    | some stop =>
      have hcore : core r faults body dest d = afterLoop r faults body d q := by simp [core, hopen, hstop]
      rw [hcore]
      simp only [hstop] at h
      refine Or.inr ⟨by simp, ?_⟩
      cases stop with
      | tooLarge => cases h
      | fault f n => exact (onFault_ok h).2

/-! ### Where the files are -/

/-- The removal of the destination is made, and goes through. -/
def RemovesDest (r : Remote) (faults : PutFaults) (body : Body) (dest : Str) (d : Disk) (P : List Name) : Prop :=
  (opened r faults dest d).isSome ∧ (written r faults body).2 = none ∧ Removes faults.removeDest (d.tree.shape P)

/-- Every file is still there, with what it held. -/
def Kept (d d' : Disk) : Prop := ∀ p, d.files p ≠ none → d'.files p = d.files p

/-- What was there when an upload began is left as it was, when the upload raises: the destination has not been removed; the file that
was opened for the temporary one held what was written to it; and what stood under the temporary name was not removed. -/
structure PutKeeps (r : Remote) (faults : PutFaults) (body : Body) (dest : Str) (d : Disk) (P T : List Name) : Prop where
  destKept : ¬ RemovesDest r faults body dest d P
  fileKept : ∀ q s, opened r faults dest d = some q → d.files q = some (.file s) → s = (written r faults body).1
  tmpKept : ∀ f ∈ cleanFaults r faults body dest d, ¬ Removes f (d.tree.shape T)

theorem opened_eq {q : List Name} (h : opened r faults dest d = some q) : openedAt r.links d (tmpOf dest) = some q := by
  unfold opened at h
  split at h
  · exact h
  · cases h

theorem afterLoop_files {q : List Name} (h : opened r faults dest d = some q) :
    (afterLoop r faults body d q).files = Function.update d.files q (some (.file (written r faults body).1)) := by
  obtain ⟨hq, hl, -⟩ := openedAt_spec (opened_eq h)
  rw [afterLoop, Disk.files_write hq hl, Disk.files_write hq hl, Function.update_idem]

theorem afterLoop_at {q : List Name} (h : opened r faults dest d = some q) (p : List Name) :
    (afterLoop r faults body d q).files p = if some q = some p then some (.file (written r faults body).1) else d.files p := by
  rw [afterLoop_files h, Function.update_apply]
  exact if_congr ⟨fun heq => heq ▸ rfl, fun heq => (Option.some.inj heq).symm⟩ rfl rfl

theorem afterLoop_shape {q : List Name} (h : opened r faults dest d = some q) (x : List Name) :
    (afterLoop r faults body d q).tree.shape x = if x = q then some .other else d.tree.shape x := by
  obtain ⟨hq, hl, -⟩ := openedAt_spec (opened_eq h)
  rw [afterLoop, Disk.shape_write hq hl, Disk.shape_write hq hl]
  split <;> rfl

theorem afterLoop_more {q : List Name} (h : opened r faults dest d = some q) (p : List Name) (k : Kind) (hk : d.tree.shape p = some k) :
    (afterLoop r faults body d q).tree.shape p = some k := by
  obtain ⟨-, -, hkind⟩ := openedAt_spec (opened_eq h)
  rw [afterLoop_shape h]
  split
  · rename_i heq
    rw [heq] at hk
    rcases hkind with hq | hq
    · rw [← hk, hq]
    · rw [hq] at hk
      cases hk
  · exact hk

theorem tmpOf_text (D : List Name) (name : Name) : tmpOf (pathText (D ++ [name])) = pathText (D ++ [name ++ lit ".tmp"]) :=
  pathText_concat_append D name (lit ".tmp")

theorem tmp_ne (dd : List Name) (name : Name) : dd ++ [name ++ lit ".tmp"] ≠ dd ++ [name] := by
  intro h
  have hlast := List.append_cancel_left h
  have hlen := congrArg List.length (List.cons.inj hlast).1
  rw [List.length_append, show (lit ".tmp").length = 4 from rfl] at hlen
  omega

section Places
variable {D dd : List Name} {name : Name} (hF : Folder r.links d.tree D dd) (hc : Entry name ∧ '/' ∉ name ∧ '\\' ∉ name)
include hF hc

theorem core_eq {q : List Name} (h : opened r faults (pathText (D ++ [name])) d = some q) : core r faults body (pathText (D ++ [name])) d =
    if (written r faults body).2 = none ∧ Removes faults.removeDest ((afterLoop r faults body d q).tree.shape (dd ++ [name])) then
      (afterLoop r faults body d q).del (dd ++ [name]) else afterLoop r faults body d q := by
  have hF' : Folder r.links (afterLoop r faults body d q).tree D dd := hF.mono (afterLoop_more h)
  unfold core
  simp only [h]
  by_cases hstop : (written r faults body).2 = none
  · simp only [hF'.removeFile hc, hstop, true_and, if_true]
  · simp only [hstop, false_and, if_false]

/-- The destination is gone when it has been removed. -/
theorem core_removed (h : RemovesDest r faults body (pathText (D ++ [name])) d (dd ++ [name])) :
    (core r faults body (pathText (D ++ [name])) d).files (dd ++ [name]) = none := by
  obtain ⟨hopen, hstop, hfault, hsome, hdir⟩ := h
  obtain ⟨q, hq⟩ := Option.isSome_iff_exists.1 hopen
  obtain ⟨k, hk⟩ := Option.ne_none_iff_exists'.1 hsome
  have hafter : (afterLoop r faults body d q).tree.shape (dd ++ [name]) = some k := afterLoop_more hq _ _ hk
  have hremoves : Removes faults.removeDest ((afterLoop r faults body d q).tree.shape (dd ++ [name])) :=
    ⟨hfault, by rw [hafter]; simp, by rw [hafter, ← hk]; exact hdir⟩
  rw [core_eq hF hc hq, if_pos ⟨hstop, hremoves⟩, Disk.files_del (by simp), Function.update_self]

/-- Away from the destination there is what there was, but for the file that was opened. -/
theorem core_other {p : List Name} (hp : p ≠ dd ++ [name]) : (core r faults body (pathText (D ++ [name])) d).files p =
    if opened r faults (pathText (D ++ [name])) d = some p then some (.file (written r faults body).1) else d.files p := by
  cases hq : opened r faults (pathText (D ++ [name])) d with
  | none => rw [core, hq, if_neg (by simp)]
  | some q =>
    rw [core_eq hF hc hq]
    split
    · rw [Disk.files_del (by simp), Function.update_of_ne hp, afterLoop_at hq]
    · exact afterLoop_at hq p

/-- Where the destination is not removed, that is so of whatever was there. -/
theorem core_files (h : ¬ RemovesDest r faults body (pathText (D ++ [name])) d (dd ++ [name])) {p : List Name} (hp : d.files p ≠ none) :
    (core r faults body (pathText (D ++ [name])) d).files p =
      if opened r faults (pathText (D ++ [name])) d = some p then some (.file (written r faults body).1) else d.files p := by
  by_cases hne : p = dd ++ [name]
  · subst hne
    cases hq : opened r faults (pathText (D ++ [name])) d with
    | none => rw [core, hq, if_neg (by simp)]
    | some q =>
      rw [core_eq hF hc hq]
      split
      · rename_i hremoved
        obtain ⟨hstop, hfault, hsome, hdir⟩ := hremoved
        rw [Ne, Disk.files_eq_none] at hp
        obtain ⟨k, hk⟩ := Option.ne_none_iff_exists'.1 hp
        have hafter : (afterLoop r faults body d q).tree.shape (dd ++ [name]) = some k := afterLoop_more hq _ _ hk
        exact absurd ⟨by rw [hq]; rfl, hstop, hfault, hp, by rw [hk, ← hafter]; exact hdir⟩ h
      · exact afterLoop_at hq _
  · exact core_other hF hc hne

theorem core_more (h : ¬ RemovesDest r faults body (pathText (D ++ [name])) d (dd ++ [name])) (p : List Name) (k : Kind)
    (hk : d.tree.shape p = some k) : (core r faults body (pathText (D ++ [name])) d).tree.shape p = some k := by
  have hp : d.files p ≠ none := fun hnone => by
    rw [Disk.files_eq_none.1 hnone] at hk
    cases hk
  rw [Disk.shape_eq, core_files hF hc h hp]
  split
  · rename_i hq
    obtain ⟨-, -, hkind⟩ := openedAt_spec (opened_eq hq)
    rcases hkind with hother | hnone
    · rw [← hk, hother]
      rfl
    · rw [hnone] at hk
      cases hk
  · rw [← Disk.shape_eq, hk]

/-- **An upload that raises keeps every file** under these conditions, and under no others. -/
theorem cleanup_kept_iff : Kept d (cleanup r.links (tmpOf (pathText (D ++ [name]))) (cleanFaults r faults body (pathText (D ++ [name])) d)
    (core r faults body (pathText (D ++ [name])) d)) ↔
      PutKeeps r faults body (pathText (D ++ [name])) d (dd ++ [name]) (dd ++ [name ++ lit ".tmp"]) := by
  have hct := clean_tmp hc
  rw [tmpOf_text]
  by_cases hremoved : RemovesDest r faults body (pathText (D ++ [name])) d (dd ++ [name])
  · refine iff_of_false (fun hkept => ?_) fun hkeeps => hkeeps.destKept hremoved
    have hthere : d.files (dd ++ [name]) ≠ none := fun hnone => hremoved.2.2.2.1 (Disk.files_eq_none.1 hnone)
    have hgone := cleanup_none r.links (pathText (D ++ [name ++ lit ".tmp"])) (cleanFaults r faults body (pathText (D ++ [name])) d)
      (core_removed hF hc hremoved)
    exact hthere ((hkept _ hthere).symm.trans hgone)
  · have hF' : Folder r.links (core r faults body (pathText (D ++ [name])) d).tree D dd := hF.mono (core_more hF hc hremoved)
    have hfiles := hF'.cleanup_files hct (cleanFaults r faults body (pathText (D ++ [name])) d)
    -- a removal of what stood there goes through on the disk as it is then
    have hremoves : ∀ {f}, d.files (dd ++ [name ++ lit ".tmp"]) ≠ none →
        (Removes f ((core r faults body (pathText (D ++ [name])) d).tree.shape (dd ++ [name ++ lit ".tmp"])) ↔
          Removes f (d.tree.shape (dd ++ [name ++ lit ".tmp"]))) := by
      intro f hthere
      rw [Ne, Disk.files_eq_none] at hthere
      obtain ⟨k, hk⟩ := Option.ne_none_iff_exists'.1 hthere
      rw [hk, core_more hF hc hremoved _ _ hk]
    constructor
    · intro hkept
      have htmp : ∀ f ∈ cleanFaults r faults body (pathText (D ++ [name])) d, ¬ Removes f (d.tree.shape (dd ++ [name ++ lit ".tmp"])) := by
        intro f hf hthrough
        have hthere : d.files (dd ++ [name ++ lit ".tmp"]) ≠ none := fun hnone => hthrough.2.1 (Disk.files_eq_none.1 hnone)
        have hsame := hkept _ hthere
        rw [hfiles, if_pos ⟨f, hf, (hremoves hthere).2 hthrough⟩, Function.update_self] at hsame
        exact hthere hsame.symm
      refine ⟨hremoved, fun q s hq hs => ?_, htmp⟩
      have hthere : d.files q ≠ none := by simp [hs]
      have hsame := hkept q hthere
      have hcore : (core r faults body (pathText (D ++ [name])) d).files q = some (.file (written r faults body).1) := by
        rw [core_files hF hc hremoved hthere, if_pos hq]
      rw [hfiles] at hsame
      split at hsame
      · rename_i hthrough
        obtain ⟨f, hf, hthrough⟩ := hthrough
        by_cases hqt : q = dd ++ [name ++ lit ".tmp"]
        · subst hqt
          exact absurd ((hremoves hthere).1 hthrough) (htmp f hf)
        · rw [Function.update_of_ne hqt, hcore, hs] at hsame
          exact (Node.file.inj (Option.some.inj hsame)).symm
      · rw [hcore, hs] at hsame
        exact (Node.file.inj (Option.some.inj hsame)).symm
    · rintro ⟨-, hfile, htmp⟩ p hp
      have hcore : (core r faults body (pathText (D ++ [name])) d).files p = d.files p := by
        rw [core_files hF hc hremoved hp]
        split
        · rename_i hq
          obtain ⟨-, -, hother | hnone⟩ := openedAt_spec (opened_eq hq)
          · have hs : d.files p = some (.file (d.data p)) := by
              unfold Disk.files
              rw [hother]
            rw [hs, hfile p _ hq hs]
          · exact absurd (Disk.files_eq_none.2 hnone) hp
        · rfl
      rw [hfiles]
      split
      · rename_i hthrough
        obtain ⟨f, hf, hthrough⟩ := hthrough
        by_cases hpt : p = dd ++ [name ++ lit ".tmp"]
        · subst hpt
          exact absurd ((hremoves hp).1 hthrough) (htmp f hf)
        · rw [Function.update_of_ne hpt, hcore]
      · exact hcore

/-! ### An upload that succeeds -/

/-- It ends with the rename. -/
def Renames (r : Remote) (faults : PutFaults) (body : Body) (dest : Str) (d : Disk) : Prop :=
  (opened r faults dest d).isSome ∧ (written r faults body).2 = none ∧ faults.rename = none

/-- The disk that `tee` is given. -/
def teeDisk (r : Remote) (faults : PutFaults) (body : Body) (dest : Str) (d : Disk) : Disk :=
  cleanup r.links (tmpOf dest) [faults.removeTmp 0] (core r faults body dest d)

/-- The destination; and where `tee` writes, the file that it leads to. -/
def Destination (r : Remote) (faults : PutFaults) (body : Body) (dest : Str) (d : Disk) (P p : List Name) : Prop :=
  p = P ∨ ¬ Renames r faults body dest d ∧ openPlace (teeDisk r faults body dest d).tree.shape r.links dest = some p

/-- `tee` writes one file. -/
def TeeWrites (links : Nat) (tee : Disk → Str → Bytes → Option Disk) : Prop :=
  ∀ d dest s d', tee d dest s = some d' → ∀ p, openPlace d.tree.shape links dest ≠ some p → d'.files p = d.files p

def OnlyAt (W : List Name → Prop) (d d' : Disk) : Prop := ∀ p, ¬ W p → d'.files p = d.files p

/-- The removal of the temporary file goes through. -/
def RemovesTmp (r : Remote) (faults : PutFaults) (body : Body) (dest : Str) (d : Disk) : Prop :=
  Removes (faults.removeTmp 0) ((entryAt (core r faults body dest d).tree.shape r.links (tmpOf dest)).bind (core r faults body dest d).tree.shape)

instance (r : Remote) (faults : PutFaults) (body : Body) (dest : Str) (d : Disk) : Decidable (RemovesTmp r faults body dest d) :=
  inferInstanceAs (Decidable (Removes _ _))

/-- What an upload that succeeds needs so as to change its destination only: that nothing stands under the temporary name which is moved
or removed; and that a file which was opened and is not moved is removed, or had what was written to it. -/
structure PutSpares (r : Remote) (faults : PutFaults) (body : Body) (dest : Str) (d : Disk) (P T : List Name) : Prop where
  moved : Renames r faults body dest d → d.tree.shape T = none
  removed : ¬ Renames r faults body dest d → ¬ Destination r faults body dest d P T → RemovesTmp r faults body dest d → d.tree.shape T = none
  opened : ¬ Renames r faults body dest d → ∀ q, opened r faults dest d = some q → ¬ Destination r faults body dest d P q →
    q = T ∧ RemovesTmp r faults body dest d ∨ d.files q = some (.file (written r faults body).1)

/-- What a text led to before the destination was removed, it leads to afterwards, or to nothing. -/
theorem core_less {q : List Name} (hq : opened r faults (pathText (D ++ [name])) d = some q) (p : List Name) (k : Kind)
    (hk : (core r faults body (pathText (D ++ [name])) d).tree.shape p = some k) : (afterLoop r faults body d q).tree.shape p = some k := by
  rw [core_eq hF hc hq] at hk
  split at hk
  · change ((afterLoop r faults body d q).tree.del (dd ++ [name])).shape p = some k at hk
    rw [Tree.shape_del (by simp)] at hk
    split at hk
    · cases hk
    · exact hk
  · exact hk

theorem core_entryAt {x : List Name}
    (hx : entryAt (core r faults body (pathText (D ++ [name])) d).tree.shape r.links (tmpOf (pathText (D ++ [name]))) = some x) :
    x = dd ++ [name ++ lit ".tmp"] := by
  rw [tmpOf_text] at hx
  have hfound : ∀ {t : Tree}, Folder r.links t D dd → entryAt t.shape r.links (pathText (D ++ [name ++ lit ".tmp"])) = some x →
      x = dd ++ [name ++ lit ".tmp"] := by
    intro t ht hx
    rw [ht.entryAt (clean_tmp hc)] at hx
    split at hx
    · exact (Option.some.inj hx).symm
    · cases hx
  cases hq : opened r faults (pathText (D ++ [name])) d with
  | none =>
    rw [core, hq] at hx
    exact hfound hF hx
  | some q =>
    have hfolder : Folder r.links (afterLoop r faults body d q).tree D dd := hF.mono (afterLoop_more hq)
    exact hfound hfolder (lplace_mono (core_less hF hc hq) hx)

/-- The rename puts the temporary file in place of the destination. -/
theorem rename_files (hopen : (opened r faults (pathText (D ++ [name])) d).isSome)
    (h : renameFile r.links none (tmpOf (pathText (D ++ [name]))) (pathText (D ++ [name])) (core r faults body (pathText (D ++ [name])) d) = (.ok (), d'))
    {p : List Name} (hp : p ≠ dd ++ [name]) :
    d'.files p = if p = dd ++ [name ++ lit ".tmp"] then none else (core r faults body (pathText (D ++ [name])) d).files p := by
  obtain ⟨q, hq⟩ := Option.isSome_iff_exists.1 hopen
  have hfolder : Folder r.links (afterLoop r faults body d q).tree D dd := hF.mono (afterLoop_more hq)
  unfold renameFile call at h
  simp only at h
  cases hsrc : entryAt (core r faults body (pathText (D ++ [name])) d).tree.shape r.links (tmpOf (pathText (D ++ [name]))) with
  | none =>
    simp only [hsrc] at h
    cases h
  | some x =>
    cases hdest : newPlace (core r faults body (pathText (D ++ [name])) d).tree.shape r.links (pathText (D ++ [name])) with
    | none =>
      simp only [hsrc, hdest] at h
      cases h
    | some y =>
      obtain rfl := core_entryAt hF hc hsrc
      have hy := newPlace_mono (core_less hF hc hq) hdest
      rw [hfolder.newPlace hc] at hy
      obtain rfl := Option.some.inj hy
      simp only [hsrc, hdest] at h
      split at h
      · rename_i hmoved
        obtain rfl := (Prod.mk.inj h).2
        split at hmoved
        · cases hmoved
        · split at hmoved
          · obtain rfl := Option.some.inj hmoved
            obtain ⟨k, hk⟩ := Option.isSome_iff_exists.1 (lplace_isSome Tree.shape_root hsrc)
            have hkind : k ≠ .dir := by
              rintro rfl
              have hcore := core_less hF hc hq _ _ hk
              rw [afterLoop_shape hq] at hcore
              split at hcore
              · cases hcore
              · exact (hF.openedAt rfl (clean_tmp hc) (by rw [← tmpOf_text]; exact opened_eq hq)).2 hcore
            rw [Disk.files_move (by simp) (by simp) _ hk hkind, Function.update_of_ne hp, Function.update_apply]
          · cases hmoved
      · cases h

theorem teeDisk_files (p : List Name) (hp : p ≠ dd ++ [name]) : (teeDisk r faults body (pathText (D ++ [name])) d).files p =
    if p = dd ++ [name ++ lit ".tmp"] ∧ RemovesTmp r faults body (pathText (D ++ [name])) d then none
    else if opened r faults (pathText (D ++ [name])) d = some p then some (.file (written r faults body).1) else d.files p := by
  have hdisk : (teeDisk r faults body (pathText (D ++ [name])) d).files =
      if RemovesTmp r faults body (pathText (D ++ [name])) d then
        Function.update (core r faults body (pathText (D ++ [name])) d).files (dd ++ [name ++ lit ".tmp"]) none
      else (core r faults body (pathText (D ++ [name])) d).files :=
    removeFile_place fun x hx => core_entryAt hF hc hx
  rw [hdisk, ← core_other hF hc hp]
  by_cases hthrough : RemovesTmp r faults body (pathText (D ++ [name])) d
  · rw [if_pos hthrough, Function.update_apply]
    simp only [hthrough, and_true]
  · rw [if_neg hthrough, if_neg fun hboth => hthrough hboth.2]

/-- **An upload that succeeds changes its destination only** under these conditions, and under no others. -/
theorem onlyAt_iff (htee : TeeWrites r.links tee) (h : writeOver r tee faults role body (pathText (D ++ [name])) d = (.ok u, d')) :
    OnlyAt (Destination r faults body (pathText (D ++ [name])) d (dd ++ [name])) d d' ↔
      PutSpares r faults body (pathText (D ++ [name])) d (dd ++ [name]) (dd ++ [name ++ lit ".tmp"]) := by
  rcases writeOver_ok h with ⟨hopen, hstop, hfault, hrename⟩ | ⟨hnot, hteed⟩
  · have hrenames : Renames r faults body (pathText (D ++ [name])) d := ⟨hopen, hstop, hfault⟩
    have hfiles := fun {p} hp => rename_files hF hc hopen hrename (p := p) hp
    constructor
    · intro honly
      have htmp := tmp_ne dd name
      have hsame := honly (dd ++ [name ++ lit ".tmp"]) fun hdest => hdest.elim htmp fun hdest => hdest.1 hrenames
      rw [hfiles htmp, if_pos rfl] at hsame
      exact ⟨fun _ => Disk.files_eq_none.1 hsame.symm, fun hnot => absurd hrenames hnot, fun hnot => absurd hrenames hnot⟩
    · rintro ⟨hfree, -, -⟩ p hp
      have hne : p ≠ dd ++ [name] := fun heq => hp (Or.inl heq)
      rw [hfiles hne]
      split
      · rename_i heq
        rw [heq, Disk.files_eq_none.2 (hfree hrenames)]
      · rename_i hnt
        have hother : opened r faults (pathText (D ++ [name])) d ≠ some p := fun hq =>
          hnt ((hF.openedAt rfl (clean_tmp hc) (by rw [← tmpOf_text]; exact opened_eq hq)).1 (hfree hrenames))
        rw [core_other hF hc hne, if_neg hother]
  · have hdest : ∀ p, ¬ Destination r faults body (pathText (D ++ [name])) d (dd ++ [name]) p →
        d'.files p = (teeDisk r faults body (pathText (D ++ [name])) d).files p ∧ p ≠ dd ++ [name] := by
      intro p hp
      exact ⟨htee _ _ _ _ hteed p fun hopen => hp (Or.inr ⟨hnot, hopen⟩), fun heq => hp (Or.inl heq)⟩
    constructor
    · intro honly
      refine ⟨fun hrenames => absurd hrenames hnot, fun _ hT hremoves => ?_, fun _ q hq hout => ?_⟩
      · obtain ⟨hsame, hne⟩ := hdest _ hT
        rw [honly _ hT, teeDisk_files hF hc _ hne, if_pos ⟨rfl, hremoves⟩] at hsame
        exact Disk.files_eq_none.1 hsame
      · obtain ⟨hsame, hne⟩ := hdest _ hout
        rw [honly _ hout, teeDisk_files hF hc _ hne] at hsame
        by_cases hremoved : q = dd ++ [name ++ lit ".tmp"] ∧ RemovesTmp r faults body (pathText (D ++ [name])) d
        · exact Or.inl hremoved
        · rw [if_neg hremoved, if_pos hq] at hsame
          exact Or.inr hsame
    · rintro ⟨-, hremoved, hopened⟩ p hp
      obtain ⟨hsame, hne⟩ := hdest p hp
      rw [hsame, teeDisk_files hF hc p hne]
      split
      · rename_i hgone
        rw [Disk.files_eq_none.2 (hgone.1 ▸ hremoved hnot (hgone.1 ▸ hp) hgone.2)]
      · rename_i hkept
        split
        · rename_i hq
          exact ((hopened hnot p hq hp).resolve_left hkept).symm
        · rfl

end Places

/-- Where an upload writes: the path, its place, and that of the temporary file. -/
structure PutPlaces (r : Remote) (w : Site) (body : Body) (relDir filename : Str) (d : Disk) (dest : Str) (P T : List Name) : Prop where
  target : putTarget r.links w d.tree r relDir filename body.size = .ok dest
  place : newPlace d.tree.shape r.links dest = some P
  tmpPlace : newPlace d.tree.shape r.links (tmpOf dest) = some T

/-- They are in one folder, under the name and under the name with `.tmp`. -/
theorem PutPlaces.folder {w : Site} {relDir filename : Str} {P T : List Name} (h : PutPlaces r w body relDir filename d dest P T) :
    ∃ D dd name, Folder r.links d.tree D dd ∧ (Entry name ∧ '/' ∉ name ∧ '\\' ∉ name) ∧ dest = pathText (D ++ [name]) ∧
      P = dd ++ [name] ∧ T = dd ++ [name ++ lit ".tmp"] := by
  obtain ⟨D, dd, name, hF, hc, rfl⟩ := putTarget_folder h.target
  refine ⟨D, dd, name, hF, hc, rfl, Option.some.inj (h.place.symm.trans (hF.newPlace hc)), Option.some.inj (h.tmpPlace.symm.trans ?_)⟩
  rw [tmpOf_text, hF.newPlace (clean_tmp hc)]

theorem putPlaces_of_target {w : Site} {relDir filename : Str} (h : putTarget r.links w d.tree r relDir filename body.size = .ok dest) :
    ∃ P T, PutPlaces r w body relDir filename d dest P T := by
  obtain ⟨D, dd, name, hF, hc, rfl⟩ := putTarget_folder h
  exact ⟨_, _, h, hF.newPlace hc, by rw [tmpOf_text, hF.newPlace (clean_tmp hc)]⟩

theorem Kept.refl (d : Disk) : Kept d d := fun _ _ => rfl

theorem putOver_kept_iff {w : Site} {relDir filename : Str} (h : putOver r w tee faults body relDir filename d = (.error e, d')) :
    Kept d d' ↔ ∀ dest P T, PutPlaces r w body relDir filename d dest P T → PutKeeps r faults body dest d P T := by
  rcases asks_eq_error.1 h with ⟨hno, rfl⟩ | ⟨dest, htarget, h⟩
  · exact iff_of_true (Kept.refl _) fun dest P T hp => by
      rw [hp.target] at hno
      cases hno
  · obtain ⟨P, T, hplaces⟩ := putPlaces_of_target htarget
    obtain ⟨D, dd, name, hF, hc, rfl, rfl, rfl⟩ := hplaces.folder
    have hone : (∀ dest P T, PutPlaces r w body relDir filename d dest P T → PutKeeps r faults body dest d P T) ↔
        PutKeeps r faults body (pathText (D ++ [name])) d (dd ++ [name]) (dd ++ [name ++ lit ".tmp"]) := by
      refine ⟨fun hall => hall _ _ _ hplaces, fun hkeeps dest P T hp => ?_⟩
      obtain rfl := Except.ok.inj (htarget.symm.trans hp.target)
      obtain rfl := Option.some.inj (hplaces.place.symm.trans hp.place)
      obtain rfl := Option.some.inj (hplaces.tmpPlace.symm.trans hp.tmpPlace)
      exact hkeeps
    rcases asks_eq_error.1 h with ⟨hrole, -⟩ | ⟨role, -, h⟩
    · obtain ⟨_, -, ht⟩ := except_bind_eq_ok.1 htarget
      obtain ⟨_, -, ht⟩ := except_bind_eq_ok.1 ht
      obtain ⟨_, hnorm, -⟩ := except_bind_eq_ok.1 ht
      rw [hnorm] at hrole
      cases hrole
    · rcases bind_eq_error.1 h with h | ⟨_, _, -, h⟩
      · rw [hone, ← cleanup_kept_iff hF hc, ← writeOver_error h]
      · cases h

theorem putOver_onlyAt_iff {w : Site} {relDir filename : Str} (htee : TeeWrites r.links tee)
    (h : putOver r w tee faults body relDir filename d = (.ok dest, d')) : ∃ P T, PutPlaces r w body relDir filename d dest P T ∧
      (OnlyAt (Destination r faults body dest d P) d d' ↔ PutSpares r faults body dest d P T) := by
  obtain ⟨dest', htarget, h⟩ := asks_eq_ok.1 h
  obtain ⟨role, -, h⟩ := asks_eq_ok.1 h
  obtain ⟨_, s, hwrite, h⟩ := bind_eq_ok.1 h
  obtain ⟨hdest, rfl⟩ := Prod.mk.inj h
  obtain rfl := Except.ok.inj hdest
  obtain ⟨P, T, hplaces⟩ := putPlaces_of_target htarget
  obtain ⟨D, dd, name, hF, hc, rfl, rfl, rfl⟩ := hplaces.folder
  exact ⟨_, _, hplaces, onlyAt_iff hF hc htee hwrite⟩

end Put

/-! ## One move -/

section Move
variable {r : Remote} {w : Site} {faults : Nat → MoveFaults} {jail destDir : Str} {overwrite : Bool} {d d' : Disk} {e : FilesError}

theorem moveStep_ok {t : Tree} {rel : Str} {s : MoveStep} (h : moveStep r w jail destDir overwrite t rel = .ok (some s)) :
    s.existed = ((entryAt t.shape r.links s.dest).bind t.shape).isSome ∧ (entryAt t.shape r.links s.dest).bind t.shape ≠ some .dir := by
  obtain ⟨⟨_, src⟩, -, h⟩ := except_bind_eq_ok.1 h
  obtain ⟨src, -, h⟩ := except_bind_eq_ok.1 h
  obtain ⟨_, -, h⟩ := except_bind_eq_ok.1 h
  obtain ⟨_, -, h⟩ := except_bind_eq_ok.1 h
  obtain ⟨_, -, h⟩ := except_bind_eq_ok.1 h
  split at h
  · cases h
  · obtain ⟨_, -, h⟩ := except_bind_eq_ok.1 h
    obtain ⟨_, hdir, h⟩ := except_bind_eq_ok.1 h
    obtain ⟨_, -, h⟩ := except_bind_eq_ok.1 h
    obtain rfl := Option.some.inj (Except.ok.inj h)
    exact ⟨rfl, raiseIf_eq_ok.1 hdir⟩

/-- An entry loses what it was to overwrite: that is removed before the rename. -/
def Loses (r : Remote) (w : Site) (faults : Nat → MoveFaults) (jail destDir : Str) (overwrite : Bool) (k : Nat) (rel : Str) (d : Disk) : Prop :=
  ∃ s, moveStep r w jail destDir overwrite d.tree rel = .ok (some s) ∧ s.existed = true ∧ (faults k).removeDest = none

/-- **An entry whose move raises keeps every file**, unless the file in its way has been removed. -/
theorem moveOver_kept_iff {k : Nat} {rel : Str} (h : moveOver r w faults jail destDir overwrite k rel d = (.error e, d')) :
    Kept d d' ↔ ¬ Loses r w faults jail destDir overwrite k rel d := by
  rcases asks_eq_error.1 h with ⟨hno, rfl⟩ | ⟨found, hstep, h⟩
  · refine iff_of_true (Kept.refl _) ?_
    rintro ⟨s, hs, -⟩
    rw [hs] at hno
    cases hno
  · cases found with
    | none => cases h
    | some s =>
      obtain ⟨hthere, hdir⟩ := moveStep_ok hstep
      have hloses : Loses r w faults jail destDir overwrite k rel d ↔ s.existed = true ∧ (faults k).removeDest = none := by
        constructor
        · rintro ⟨s', hs', hlost⟩
          obtain rfl := Option.some.inj (Except.ok.inj (hstep.symm.trans hs'))
          exact hlost
        · exact fun hlost => ⟨s, hstep, hlost⟩
      have hcalls : ∃ f, moveCalls r (faults k) s d = (.error f, d') := by
        change (match (moveCalls r (faults k) s d).1 with
          | .error _ => raise sshError
          | .ok _ => pure true : Eff Disk FilesError Bool) (moveCalls r (faults k) s d).2 = (.error e, d') at h
        generalize moveCalls r (faults k) s d = out at h ⊢
        obtain ⟨res, d''⟩ := out
        cases res with
        | error f =>
          obtain ⟨-, rfl⟩ := Prod.mk.inj h
          exact ⟨f, rfl⟩
        | ok u => cases h
      obtain ⟨f, hcalls⟩ := hcalls
      rw [hloses]
      unfold moveCalls at hcalls
      cases hex : s.existed with
      | false =>
        rw [hex] at hcalls
        have hsame : d' = d := by
          have herr := renameFile_error (congrArg Prod.fst hcalls)
          exact (congrArg Prod.snd hcalls).symm.trans herr
        rw [hsame]
        exact iff_of_true (Kept.refl d) (by simp)
      | true =>
        rw [hex, if_pos rfl] at hcalls
        obtain ⟨kind, hkind⟩ := Option.isSome_iff_exists.1 (hthere ▸ hex)
        obtain ⟨p, hp, hshape⟩ := Option.bind_eq_some_iff.1 hkind
        rw [hp, Option.bind_some] at hdir
        rcases bind_eq_error.1 hcalls with hremove | ⟨_, d1, hremove, hrename⟩
        · rw [removeFile_there hp hdir] at hremove
          split at hremove
          · rename_i g hfault
            rw [← (Prod.mk.inj hremove).2]
            exact iff_of_true (Kept.refl d) fun hlost => by rw [hfault] at hlost; exact absurd hlost.2 (by simp)
          · cases hremove
        · rw [removeFile_there hp hdir] at hremove
          split at hremove
          · cases hremove
          · rename_i hfault
            have hd' : d' = d.del p := by
              have herr := renameFile_error (congrArg Prod.fst hrename)
              exact (congrArg Prod.snd hrename).symm.trans (herr.trans (Prod.mk.inj hremove).2.symm)
            refine iff_of_false (fun hkept => ?_) fun hnot => hnot ⟨rfl, hfault⟩
            have hsome : d.files p ≠ none := fun hnone => by
              rw [Disk.files_eq_none.1 hnone] at hshape
              cases hshape
            have hsame := hkept p hsome
            rw [hd', Disk.files_del (Tree.ne_root_of_shape hdir), Function.update_self] at hsame
            exact hsome hsame.symm

/-- What is left of a move when the entry that raises begins: the disk, and that entry with its number. -/
def started (r : Remote) (w : Site) (faults : Nat → MoveFaults) (jail destDir : Str) (overwrite : Bool) : Nat → List Str → Disk → Disk × Option (Nat × Str)
  | _, [], d => (d, none)
  | k, rel :: rest, d =>
    match moveOver r w faults jail destDir overwrite k rel d with
    | (.ok _, d') => started r w faults jail destDir overwrite (k + 1) rest d'
    | (.error _, _) => (d, some (k, rel))

theorem moveEachOver_error {names : List Str} : ∀ {k : Nat} {d : Disk}, moveEachOver r w faults jail destDir overwrite k names d = (.error e, d') →
    ∃ d1 i rel, started r w faults jail destDir overwrite k names d = (d1, some (i, rel)) ∧
      moveOver r w faults jail destDir overwrite i rel d1 = (.error e, d') := by
  induction names with
  | nil =>
    intro k d h
    cases h
  | cons rel rest ih =>
    intro k d h
    unfold started
    rcases bind_eq_error.1 h with hone | ⟨_, d1, hone, h⟩
    · rw [hone]
      exact ⟨d, k, rel, rfl, hone⟩
    · rw [hone]
      rcases bind_eq_error.1 h with hrest | ⟨_, _, -, h⟩
      · exact ih hrest
      · cases h

/-- That of the whole call. -/
def startedMany (r : Remote) (w : Site) (faults : Nat → MoveFaults) (srcRels : List Str) (destDirRel : Str) (overwrite : Bool) (d : Disk) :
    Disk × Option (Nat × Str) :=
  match moveFolder r w d.tree destDirRel with
  | .ok (jail, destDir) => started r w faults jail destDir overwrite 0 (moveNames srcRels) d
  | .error _ => (d, none)

/-- The entry that raises loses what it was to overwrite. -/
def ManyLoses (r : Remote) (w : Site) (faults : Nat → MoveFaults) (srcRels : List Str) (destDirRel : Str) (overwrite : Bool) (d : Disk) : Prop :=
  ∃ jail destDir i rel, moveFolder r w d.tree destDirRel = .ok (jail, destDir) ∧
    (startedMany r w faults srcRels destDirRel overwrite d).2 = some (i, rel) ∧
    Loses r w faults jail destDir overwrite i rel (startedMany r w faults srcRels destDirRel overwrite d).1

theorem relOf_moveFolder {t : Tree} {destDirRel : Str} (h : moveFolder r w t destDirRel = .ok (jail, destDir)) : ∃ rel, relOf destDir jail = .ok rel := by
  obtain ⟨⟨jail', absPath⟩, hres, h⟩ := except_bind_eq_ok.1 h
  obtain ⟨path, hpath, h⟩ := except_bind_eq_ok.1 h
  obtain ⟨_, -, h⟩ := except_bind_eq_ok.1 h
  obtain ⟨_, -, h⟩ := except_bind_eq_ok.1 h
  obtain ⟨rfl, rfl⟩ := Prod.mk.inj (Except.ok.inj h)
  obtain ⟨hjail, cs, rfl, hcs⟩ := resolveLogical_ok hres
  obtain ⟨js, rest, hjs, rfl, hclean⟩ := inJail_of_assert hcs hpath
  obtain rfl := Except.ok.inj (hjail.symm.trans hjs)
  exact ⟨_, relOf_pathText hclean⟩

theorem moveManyOver_kept_iff {srcRels : List Str} {destDirRel : Str}
    (h : moveManyOver r w faults srcRels destDirRel overwrite d = (.error e, d')) :
    Kept (startedMany r w faults srcRels destDirRel overwrite d).1 d' ↔ ¬ ManyLoses r w faults srcRels destDirRel overwrite d := by
  rcases asks_eq_error.1 h with ⟨hno, rfl⟩ | ⟨_, -, h⟩
  · have hnames : moveNames srcRels = [] := by
      by_contra hsome
      unfold raiseIf at hno
      rw [if_neg hsome] at hno
      cases hno
    have hstart : startedMany r w faults srcRels destDirRel overwrite d' = (d', none) := by
      unfold startedMany
      rw [hnames]
      split <;> rfl
    refine iff_of_true (hstart ▸ Kept.refl _) ?_
    rintro ⟨jail, destDir, i, rel, -, hnone, -⟩
    rw [hstart] at hnone
    cases hnone
  · rcases asks_eq_error.1 h with ⟨hno, rfl⟩ | ⟨⟨jail, destDir⟩, hfolder, h⟩
    · have hstart : startedMany r w faults srcRels destDirRel overwrite d' = (d', none) := by
        unfold startedMany
        rw [hno]
      refine iff_of_true (hstart ▸ Kept.refl _) ?_
      rintro ⟨jail, destDir, i, rel, hok, -, -⟩
      rw [hok] at hno
      cases hno
    · have hstart : startedMany r w faults srcRels destDirRel overwrite d = started r w faults jail destDir overwrite 0 (moveNames srcRels) d := by
        unfold startedMany
        rw [hfolder]
      rcases bind_eq_error.1 h with h | ⟨_, d1, -, h⟩
      · obtain ⟨d1, i, rel, hbegin, hone⟩ := moveEachOver_error h
        rw [hbegin] at hstart
        rw [hstart, moveOver_kept_iff hone]
        refine not_congr ⟨fun hlost => ⟨jail, destDir, i, rel, hfolder, by rw [hstart], by rw [hstart]; exact hlost⟩, ?_⟩
        rintro ⟨jail', destDir', i', rel', hfolder', hwhich, hlost⟩
        obtain ⟨rfl, rfl⟩ := Prod.mk.inj (Except.ok.inj (hfolder.symm.trans hfolder'))
        rw [hstart] at hwhich hlost
        obtain ⟨rfl, rfl⟩ := Prod.mk.inj (Option.some.inj hwhich)
        exact hlost
      · obtain ⟨rel, hrel⟩ := relOf_moveFolder hfolder
        rcases asks_eq_error.1 h with ⟨hno, -⟩ | ⟨_, -, h⟩
        · rw [hrel] at hno
          cases hno
        · cases h

end Move

/-- **A failed overwrite keeps the old file** under these conditions, and under no others; and an upload that succeeds changes only its
destination under those of `PutSpares`. -/
theorem overwrite_keeps_iff (r : Remote) (w : Site) (d : Disk) :
    (∀ tee faults body relDir filename e d', putOver r w tee faults body relDir filename d = (.error e, d') →
      (Kept d d' ↔ ∀ dest P T, PutPlaces r w body relDir filename d dest P T → PutKeeps r faults body dest d P T)) ∧
    (∀ tee faults body relDir filename dest d', TeeWrites r.links tee → putOver r w tee faults body relDir filename d = (.ok dest, d') →
      ∃ P T, PutPlaces r w body relDir filename d dest P T ∧
        (OnlyAt (Destination r faults body dest d P) d d' ↔ PutSpares r faults body dest d P T)) ∧
    ∀ faults srcRels destDirRel overwrite e d', moveManyOver r w faults srcRels destDirRel overwrite d = (.error e, d') →
      (Kept (startedMany r w faults srcRels destDirRel overwrite d).1 d' ↔ ¬ ManyLoses r w faults srcRels destDirRel overwrite d) :=
  ⟨fun _ _ _ _ _ _ _ h => putOver_kept_iff h, fun _ _ _ _ _ _ _ htee h => putOver_onlyAt_iff htee h, fun _ _ _ _ _ _ h => moveManyOver_kept_iff h⟩

/-- A home with a file, and one of the same name in a folder. -/
def confDisk : Disk where
  tree :=
    { nodes := homeNodes [([lit "conf"], .other), ([lit "docs", lit "conf"], .other)]
      nodup := by decide
      legal := by decide }
  data := fun _ => [1]

def noFaults : PutFaults := ⟨none, fun _ => none, none, none, fun _ => none⟩

def shortBody : Body where
  size := some 1
  chunks := [[7]]
  filled := by decide
  seekable := true
  client := true

/-- `tee` writes the file that a path leads to. -/
def teeAt (d : Disk) (dest : Str) (s : Bytes) : Option Disk := (openedAt 40 d dest).map fun p => d.write p s

theorem exists_snd {α β : Type} {m : α × β} {a : α} (h : m.1 = a) : ∃ b, m = (a, b) := ⟨m.2, Prod.ext h rfl⟩

theorem teeAt_writes : TeeWrites openHost.links teeAt := by
  intro d dest s d' h p hp
  obtain ⟨q, hq, rfl⟩ := Option.map_eq_some_iff.1 h
  obtain ⟨hroot, hlegal, -⟩ := openedAt_spec hq
  rw [Disk.files_write hroot hlegal, Function.update_of_ne]
  rintro rfl
  exact hp (Option.filter_eq_some_iff.1 hq).1

theorem confDisk_kept :
    (∃ e d', putOver openHost piHome teeAt { noFaults with write := fun _ => some .other } shortBody (lit "docs") (lit "conf") confDisk = (.error e, d') ∧
      Kept confDisk d') ∧
    (∃ d', putOver openHost piHome teeAt noFaults shortBody (lit "docs") (lit "conf") confDisk = (.ok (lit "/home/pi/docs/conf"), d') ∧
      ∃ P, OnlyAt (Destination openHost noFaults shortBody (lit "/home/pi/docs/conf") confDisk P) confDisk d') ∧
    ∃ e d', moveManyOver openHost piHome (fun _ => ⟨some .perm, none⟩) [lit "conf"] (lit "docs") true confDisk = (.error e, d') ∧
      Kept (startedMany openHost piHome (fun _ => ⟨some .perm, none⟩) [lit "conf"] (lit "docs") true confDisk).1 d' := by
  obtain ⟨hraise, hok, hmove⟩ := overwrite_keeps_iff openHost piHome confDisk
  refine ⟨?_, ?_, ?_⟩
  · obtain ⟨d', h⟩ := exists_snd (show (putOver openHost piHome teeAt { noFaults with write := fun _ => some .other } shortBody (lit "docs") (lit "conf")
      confDisk).1 = .error sshError by decide +kernel)
    refine ⟨_, _, h, (hraise _ _ _ _ _ _ _ h).2 fun dest P T hp => ?_⟩
    obtain rfl := Except.ok.inj ((show putTarget 40 piHome confDisk.tree openHost (lit "docs") (lit "conf") (some 1) =
      .ok (lit "/home/pi/docs/conf") by decide +kernel).symm.trans hp.target)
    obtain rfl := Option.some.inj ((show newPlace confDisk.tree.shape 40 (tmpOf (lit "/home/pi/docs/conf")) =
      some [lit "home", lit "pi", lit "docs", lit "conf.tmp"] by decide +kernel).symm.trans hp.tmpPlace)
    have hfree : confDisk.tree.shape [lit "home", lit "pi", lit "docs", lit "conf.tmp"] = none := by decide +kernel
    refine ⟨?_, fun q s hq hs => ?_, fun f _ hremoves => hremoves.2.1 hfree⟩
    · rintro ⟨-, hstop, -⟩
      exact absurd hstop (by decide +kernel)
    · obtain rfl := Option.some.inj ((show opened openHost { noFaults with write := fun _ => some .other } (lit "/home/pi/docs/conf") confDisk =
        some [lit "home", lit "pi", lit "docs", lit "conf.tmp"] by decide +kernel).symm.trans hq)
      rw [Disk.files_eq_none.2 hfree] at hs
      cases hs
  · obtain ⟨d', h⟩ := exists_snd (show (putOver openHost piHome teeAt noFaults shortBody (lit "docs") (lit "conf") confDisk).1 =
      .ok (lit "/home/pi/docs/conf") by decide +kernel)
    obtain ⟨P, T, hp, honly⟩ := hok _ _ _ _ _ _ _ teeAt_writes h
    obtain rfl := Option.some.inj ((show newPlace confDisk.tree.shape 40 (tmpOf (lit "/home/pi/docs/conf")) =
      some [lit "home", lit "pi", lit "docs", lit "conf.tmp"] by decide +kernel).symm.trans hp.tmpPlace)
    have hrenames : Renames openHost noFaults shortBody (lit "/home/pi/docs/conf") confDisk := ⟨by decide +kernel, by decide +kernel, rfl⟩
    exact ⟨_, h, P, honly.2 ⟨fun _ => by decide +kernel, fun hnot => absurd hrenames hnot, fun hnot => absurd hrenames hnot⟩⟩
  · obtain ⟨d', h⟩ := exists_snd (show (moveManyOver openHost piHome (fun _ => ⟨some .perm, none⟩) [lit "conf"] (lit "docs") true confDisk).1 =
      .error sshError by decide +kernel)
    refine ⟨_, _, h, (hmove _ _ _ _ _ _ h).2 ?_⟩
    rintro ⟨jail, destDir, i, rel, -, -, s, -, -, hnone⟩
    cases hnone

/-- The connection is lost at the rename: the old file has been removed. -/
theorem confDisk_lost : ¬ ∀ (r : Remote) (w : Site) (d : Disk),
    (∀ tee faults body relDir filename e d', putOver r w tee faults body relDir filename d = (.error e, d') → Kept d d') ∧
    (∀ tee faults body relDir filename dest d', TeeWrites r.links tee → putOver r w tee faults body relDir filename d = (.ok dest, d') →
      ∀ P, newPlace d.tree.shape r.links dest = some P → OnlyAt (Destination r faults body dest d P) d d') ∧
    ∀ faults srcRels destDirRel overwrite e d', moveManyOver r w faults srcRels destDirRel overwrite d = (.error e, d') →
      Kept (startedMany r w faults srcRels destDirRel overwrite d).1 d' := by
  intro h
  obtain ⟨d', hrun⟩ := exists_snd (show (putOver openHost piHome teeAt { noFaults with rename := some .other } shortBody (lit "docs") (lit "conf")
    confDisk).1 = .error sshError by decide +kernel)
  have hgone : (putOver openHost piHome teeAt { noFaults with rename := some .other } shortBody (lit "docs") (lit "conf") confDisk).2.tree.shape
      [lit "home", lit "pi", lit "docs", lit "conf"] = none := by decide +kernel
  rw [hrun] at hgone
  have hthere : confDisk.files [lit "home", lit "pi", lit "docs", lit "conf"] ≠ none := by decide +kernel
  have hsame := (h openHost piHome confDisk).1 _ _ _ _ _ _ _ hrun _ hthere
  rw [Disk.files_eq_none.2 hgone] at hsame
  exact hthere hsame.symm

end PiHerder.Files
