import PiHerder.Files.Paths

/-!
# Writing on the host

| here | there |
| --- | --- |
| `putFile`, `putViaSudo`, `writeText` | `put_file`, `_put_via_sudo`, `write_text` (945–1047, 1303–1326, 1902–1920) |
| `mkdir`, `ensureDir`, `rename`, `moveMany` | the functions of these names (1050–1118, 1161–1193, 2346–2408) |
| `dockerCpInto` | `docker_cp_into` (2668–2705) |

The state is the tree with the places that have been made, replaced or deleted. What a file holds is left out but for its
length. `may` is what the user of the session may change; `docker cp` is a parameter.
-/
namespace PiHerder.Files
open Lib Lib.Str Lib.FileTree Lib.Eff

/-- What the library raises: a refusal for want of permission, or anything else. -/
inductive Fault | perm | other
deriving DecidableEq, Repr

structure Session where
  tree : Tree
  touched : List (List Name)

/-- The host, and the limits of the application. -/
structure Remote where
  links : Nat
  may : List Name → Bool
  sudoTee : Bool
  teeError : Str
  dockerCp : Str → Tree → Str → Option (List (List Name) × Tree)
  cap : Nat
  humanSize : Nat → Str

/-! ## SFTP -/

section Sftp
variable (r : Remote)

def change (f : Tree → Except Fault (List (List Name) × Tree)) : Eff Session Fault Unit := fun s =>
  match f s.tree with
  | .ok (places, t) => (.ok (), ⟨t, s.touched ++ places⟩)
  | .error e => (.error e, s)

def openWrite (root : Bool) (path : Str) : Eff Session Fault Unit := change fun t =>
  match openPlace t.shape r.links path with
  | some p =>
    if root = false ∧ r.may p = false then .error .perm
    else if h : ∀ c ∈ p, Legal c then .ok ([p], t.put p .other h) else .error .other
  | none => .error .other

def fsMkdir (path : Str) : Eff Session Fault Unit := change fun t =>
  match newPlace t.shape r.links path with
  | some p =>
    if (t.shape p).isSome then .error .other
    else if r.may p = false then .error .perm
    else if h : ∀ c ∈ p, Legal c then .ok ([p], t.put p .dir h) else .error .other
  | none => .error .other

def fsUnlink (path : Str) : Eff Session Fault Unit := change fun t =>
  match entryAt t.shape r.links path with
  | some p => if t.shape p = some .dir then .error .other else if r.may p = false then .error .perm else .ok ([p], t.del p)
  | none => .error .other

/-- The places of what is moved, and those that it is moved to. -/
def movedPlaces (t : Tree) (p q : List Name) : List (List Name) :=
  if t.shape p = some .dir then (t.nodes.keys.filter fun x => decide (p <+: x)).flatMap fun x => [x, Tree.moved p q x] else [p, q]

/-- A folder goes with all that is in it. -/
def renamed (t : Tree) (p q : List Name) (h : ∀ c ∈ q, Legal c) : Tree :=
  if t.shape p = some .dir then t.move p q h else (t.del p).put q ((t.shape p).getD .other) h

/-- The new name must be free. -/
def fsRename (src dest : Str) : Eff Session Fault Unit := change fun t =>
  match entryAt t.shape r.links src, newPlace t.shape r.links dest with
  | some p, some q =>
    if (t.shape q).isSome ∨ p <+: q then .error .other
    else if r.may p = false ∨ r.may q = false then .error .perm
    else if h : ∀ c ∈ q, Legal c then .ok (movedPlaces t p q, renamed t p q h) else .error .other
  | _, _ => .error .other

end Sftp

/-! ## The verbs -/

section Verbs
variable (r : Remote) (w : Site)

def refuseDemoWrite : Except FilesError Unit := raiseIf (w.demo = true) ⟨.demo, lit "Demo Files is simulated — writes are disabled"⟩

def raiseEscape (path jail : Str) : Except FilesError Unit :=
  raiseIf (underJail path jail = false) ⟨.escape, lit "Path is outside the jail"⟩

def raiseDenied (path : Str) : Except FilesError Unit := do
  raiseIf ((← w.isDenied path) = true) ⟨.denied, lit "Path is blocked"⟩

/-- Both checks, with one message. -/
def raiseBlocked (path jail : Str) : Except FilesError Unit := do
  raiseIf (underJail path jail = false) ⟨.escape, lit "Path is blocked"⟩
  raiseDenied w path

def writeDeniedMsg : Role → Str
  | .privileged => lit "Cannot write this file. It is owned by another user, and sudo -n failed (add NOPASSWD sudo for this privileged SSH user, or connect as root)."
  | .fleet => lit "Cannot write this file — the fleet SSH user does not own it. Switch to Privileged in ⋯ (needs passwordless sudo if that user is not root)."

def tooLarge : FilesError := ⟨.tooLarge, lit "Upload exceeds " ++ r.humanSize r.cap⟩

/-- `sudo -n tee`: as root, through links. -/
def putViaSudo (dest : Str) (length : Nat) : Eff Session FilesError Unit := do
  asks fun _ => raiseIf (r.cap < length) (tooLarge r)
  match ← attempt (if r.sudoTee then openWrite r true dest else raise .other) with
  | .ok _ => pure ()
  | .error _ => raise ⟨.denied, writeDeniedMsg .privileged ++ lit " (" ++ r.teeError ++ lit ")"⟩

/-- What an upload brings: the length it says and the one it has, and whether the stream can be read again. -/
structure Upload where
  size : Option Nat
  length : Nat
  seekable : Bool
  client : Bool
deriving DecidableEq, Repr

structure Put where
  jail : Str
  rel : Str
  absPath : Str
  bytes : Nat
  overwrite : Bool
  name : Str
deriving DecidableEq, Repr

/-- The write itself: beside the file, then over it. -/
def writeFile (role : Role) (up : Upload) (dest : Str) : Eff Session FilesError Unit := do
  let tmp := dest ++ lit ".tmp"
  let onFault (written : Nat) (f : Fault) : Eff Session FilesError Unit := do
    let _ ← attempt (fsUnlink r tmp)
    match f with
    | .perm =>
      if role = .privileged ∧ up.client = true ∧ ¬ (written ≠ 0 ∧ up.seekable = false) then putViaSudo r dest up.length
      else raise ⟨.denied, writeDeniedMsg role⟩
    | .other => raise sshError
  match ← attempt (openWrite r false tmp) with
  | .error f => onFault 0 f
  | .ok _ =>
    if r.cap < up.length then do
      let _ ← attempt (fsUnlink r tmp)
      let _ ← attempt (fsUnlink r tmp)
      raise (tooLarge r)
    else do
      let _ ← attempt (fsUnlink r dest)
      match ← attempt (fsRename r tmp dest) with
      | .error f => onFault up.length f
      | .ok _ => pure ()

def putFile (relDir filename : Str) (up : Upload) : Eff Session FilesError Put := do
  asks fun _ => refuseDemoWrite w
  let name ← asks fun _ => sanitizeBasename filename
  let role ← asks fun _ => normalizeRole w.role
  asks fun _ => raiseIf (∃ n ∈ up.size, r.cap < n) (tooLarge r)
  let (jail, destDir) ← asks fun _ => w.resolveLogical relDir
  let inner ← asks fun _ => relOf destDir jail
  let logical ← asks fun _ => joinJail jail (rstrip '/' (lstrip '/' (inner ++ lit "/" ++ name)))
  asks fun _ => raiseDenied w logical
  let destDir ← asks fun s => w.assertInJail r.links s.tree destDir
  let kind ← asks fun s => lstat r.links s.tree destDir
  asks fun _ => raiseIf (kind ≠ .dir) ⟨.isFile, lit "Not a directory"⟩
  let dest := posixNorm (posixJoin destDir name)
  asks fun _ => raiseEscape dest jail
  let existed ← asks fun s => .ok (entryAt s.tree.shape r.links dest).isSome
  writeFile r role up dest
  let rel ← asks fun _ => relOf dest jail
  pure ⟨jail, rel, dest, up.length, existed, name⟩

def EDIT_MAX : Nat := 512 * 1024

/-- `rpartition("/")`. -/
def rpartition (s : Str) : Str × Str := if '/' ∈ s then ((s.reverse.dropWhile (· != '/')).tail.reverse, basename s) else ([], s)

/-- The text comes with the length of its UTF-8. -/
def writeText (rel : Str) (length : Nat) (client : Bool) : Eff Session FilesError Put := do
  asks fun _ => refuseDemoWrite w
  asks fun _ => raiseIf (EDIT_MAX < length) ⟨.tooLarge, lit "Save exceeds " ++ r.humanSize EDIT_MAX⟩
  let (relDir, name) := rpartition (slashed rel)
  putFile r w relDir (if name = [] then rel else name) ⟨some length, length, true, client⟩

structure Made where
  jail : Str
  rel : Str
  absPath : Str
deriving DecidableEq, Repr

def mkdir (relDir name : Str) : Eff Session FilesError Made := do
  asks fun _ => refuseDemoWrite w
  let base ← asks fun _ => sanitizeBasename name
  let (jail, destDir) ← asks fun _ => w.resolveLogical relDir
  let inner ← asks fun _ => relOf destDir jail
  let logical ← asks fun _ => joinJail jail (rstrip '/' (lstrip '/' (inner ++ lit "/" ++ base)))
  asks fun _ => raiseDenied w logical
  let destDir ← asks fun s => w.assertInJail r.links s.tree destDir
  let dest := posixNorm (posixJoin destDir base)
  asks fun _ => raiseEscape dest jail
  match ← attempt (fsMkdir r dest) with
  | .error _ => raise sshError
  | .ok _ => do
    let rel ← asks fun _ => relOf dest jail
    pure ⟨jail, rel, dest⟩

/-- One segment of `ensure_dir`: the directory below `acc`, and whether it was made. -/
def ensureSeg (jail acc seg : Str) : Eff Session FilesError (Str × Bool) := do
  let base ← asks fun _ => sanitizeBasename seg
  let nxt ← asks fun s => w.assertInJail r.links s.tree (posixNorm (posixJoin acc base))
  asks fun _ => raiseBlocked w nxt jail
  let there ← asks fun s => .ok (lstat r.links s.tree nxt)
  match there with
  | .ok kind => if kind = .dir then pure (nxt, false) else raise ⟨.isFile, base ++ lit " is a file"⟩
  | .error _ =>
    match ← attempt (fsMkdir r nxt) with
    | .ok _ => pure (nxt, true)
    | .error _ => do
      let again ← asks fun s => .ok (lstat r.links s.tree nxt)
      if again = .ok .dir then pure (nxt, false) else raise sshError

def ensureSegs (jail : Str) : Str → List Str → Eff Session FilesError (Str × Nat)
  | acc, [] => pure (acc, 0)
  | acc, seg :: rest => do
    let (nxt, made) ← ensureSeg r w jail acc seg
    let (last, n) ← ensureSegs jail nxt rest
    pure (last, n + if made then 1 else 0)

/-- The directory, and how many were made for it. -/
def ensureDir (rel : Str) : Eff Session FilesError (Made × Nat) := do
  let parts ← asks fun _ => parseRel rel
  let (jail, top) ← asks fun _ => w.resolveLogical []
  let acc ← asks fun s => w.assertInJail r.links s.tree top
  let (last, created) ← ensureSegs r w jail acc parts
  let lastRel ← asks fun _ => relOf last jail
  pure (⟨jail, lastRel, last⟩, created)

def dirname (p : Str) : Str :=
  let head := (p.reverse.dropWhile (· != '/')).reverse
  if head.all (· == '/') then head else rstrip '/' head

structure Renamed where
  jail : Str
  fromRel : Str
  toRel : Str
  absPath : Str
deriving DecidableEq, Repr

def rename (relDir srcName destName : Str) : Eff Session FilesError Renamed := do
  let srcBase ← asks fun _ => sanitizeBasename srcName
  let destBase ← asks fun _ => sanitizeBasename destName
  let (jail, destDir) ← asks fun _ => w.resolveLogical relDir
  let destDir ← asks fun s => w.assertInJail r.links s.tree destDir
  let src := posixNorm (posixJoin destDir srcBase)
  let dest := posixNorm (posixJoin destDir destBase)
  asks fun _ => raiseBlocked w src jail
  asks fun _ => raiseBlocked w dest jail
  asks fun _ => raiseIf (dirname src ≠ dirname dest) ⟨.escape, lit "Rename must stay in the same directory"⟩
  match ← attempt (fsRename r src dest) with
  | .error _ => raise sshError
  | .ok _ => do
    let fromRel ← asks fun _ => relOf src jail
    let toRel ← asks fun _ => relOf dest jail
    pure ⟨jail, fromRel, toRel, dest⟩

/-- One entry of `move_many`; false when it is there already. -/
def moveOne (jail destDir : Str) (overwrite : Bool) (rel : Str) : Eff Session FilesError Bool := do
  let (_, src) ← asks fun _ => w.resolveLogical rel
  let src ← asks fun s => w.assertInJail r.links s.tree src
  asks fun _ => raiseIf (src = jail ∨ src = lit "/") ⟨.denied, lit "Cannot move the jail root"⟩
  asks fun _ => raiseDenied w src
  let base := basename src
  let dest := posixNorm (posixJoin destDir base)
  asks fun _ => raiseBlocked w dest jail
  if dest = src then pure false
  else do
    asks fun _ => raiseIf (underJail destDir src = true) ⟨.denied, lit "Cannot move a folder into itself"⟩
    let there ← asks fun s => .ok ((entryAt s.tree.shape r.links dest).bind s.tree.shape)
    asks fun _ => raiseIf (there = some .dir) ⟨.exists_, base ++ lit "/ already exists in the destination"⟩
    asks fun _ => raiseIf (there.isSome = true ∧ overwrite = false) ⟨.exists_, base ++ lit " already exists in the destination"⟩
    let moving : Eff Session Fault Unit := do
      if there.isSome then fsUnlink r dest
      fsRename r src dest
    match ← attempt moving with
    | .error _ => raise sshError
    | .ok _ => pure true

def moveEach (jail destDir : Str) (overwrite : Bool) : List Str → Eff Session FilesError Nat
  | [] => pure 0
  | rel :: rest => do
    let moved ← moveOne r w jail destDir overwrite rel
    let n ← moveEach jail destDir overwrite rest
    pure (n + if moved then 1 else 0)

/-- The names of a move, as they are taken. -/
def moveNames (srcRels : List Str) : List Str :=
  (srcRels.filter fun rel => decide (strip rel ≠ [])).map fun rel => rstrip '/' (lstrip '/' (strip rel))

/-- The jail, the destination and how many were moved. -/
def moveMany (srcRels : List Str) (destDirRel : Str) (overwrite : Bool) : Eff Session FilesError (Str × Str × Nat) := do
  asks fun _ => raiseIf (moveNames srcRels = []) ⟨.invalid, lit "Nothing selected to move"⟩
  let (jail, destDir) ← asks fun _ => w.resolveLogical destDirRel
  let destDir ← asks fun s => w.assertInJail r.links s.tree destDir
  let kind ← asks fun s => lstat r.links s.tree destDir
  asks fun _ => raiseIf (kind ≠ .dir) ⟨.isFile, lit "Destination must be a folder"⟩
  let moved ← moveEach r w jail destDir overwrite (moveNames srcRels)
  let rel ← asks fun _ => relOf destDir jail
  pure (jail, rel, moved)

/-- `[A-Za-z0-9]`. -/
def isAlnum (c : Char) : Bool := decide ('a' ≤ c ∧ c ≤ 'z') || decide ('A' ≤ c ∧ c ≤ 'Z') || isDigit c

/-- `[A-Za-z0-9][A-Za-z0-9_.-]*`, and `$` lets a newline stand at the end. -/
def dockerNameOk (name : Str) : Bool :=
  match (if endsWith (lit "\n") name then name.dropLast else name) with
  | [] => false
  | c :: rest => isAlnum c && rest.all fun x => isAlnum x || x == '_' || x == '.' || x == '-'

def parseContainerPath (raw : Str) : Except FilesError Str := do
  let s := strip (slashed raw)
  raiseIf (s = [] ∨ Char.ofNat 0 ∈ s) ⟨.invalid, lit "Invalid container path"⟩
  let parts := (split '/' s).filter fun p => decide (p ≠ [] ∧ p ≠ lit ".")
  raiseIf (lit ".." ∈ parts) ⟨.escape, lit "Container path must not contain .."⟩
  raiseIf (WALK_DEPTH_MAX < parts.length) ⟨.escape, lit "Container path is too deep"⟩
  let joined := join '/' parts
  pure (if startsWith (lit "/") s then lit "/" ++ joined else if joined = [] then s else joined)

/-- `docker cp` as the session's user. -/
def runDockerCp (spec dest : Str) : Eff Session Fault Unit := change fun t =>
  match r.dockerCp spec t dest with
  | some change => .ok change
  | none => .error .other

structure Copied where
  rel : Str
  name : Str
  container : Str
deriving DecidableEq, Repr

def dockerCpInto (client : Bool) (container src destDir : Str) : Eff Session FilesError Copied := do
  asks fun _ => refuseDemoWrite w
  asks fun _ => raiseIf (dockerNameOk container = false) ⟨.invalid, lit "Invalid container name"⟩
  let srcPath ← asks fun _ => parseContainerPath src
  let destName ← asks fun _ => sanitizeBasename (if basename srcPath = [] then lit "copy" else basename srcPath)
  let (jail, destAbsDir) ← asks fun _ => w.resolveLogical destDir
  asks fun _ => raiseBlocked w (posixNorm (posixJoin destAbsDir destName)) jail
  let destAbsDir ← asks fun s => w.assertInJail r.links s.tree destAbsDir
  let destAbs := posixNorm (posixJoin destAbsDir destName)
  asks fun _ => raiseEscape destAbs jail
  asks fun _ => raiseIf (client = false) ⟨.ssh, lit "SSH session required for docker cp"⟩
  match ← attempt (runDockerCp r (container ++ lit ":" ++ srcPath) destAbs) with
  | .error _ => raise sshError
  | .ok _ => do
    let rel ← asks fun _ => relOf destAbs jail
    pure ⟨rel, destName, container⟩

end Verbs

end PiHerder.Files
