import PiHerder.Lib.Eff
import PiHerder.Lib.Sftp

/-!
# Host Files: the jail

| here | there |
| --- | --- |
| `posixNorm`, `parseRel`, `joinJail`, `underJail`, `prefixHit`, `sanitizeBasename` | `services/host_files.py` (193–266) |
| `Site.jailPath`, `Site.extraDenies`, `Site.isDenied`, `Site.resolveLogical`, `relOf` | lines 277–358 |
| `normalizeRemote`, `Site.assertInJail`, `lstat` | lines 591–632 |
| `expandRemotePath` | `services/ssh.py` (136–156) |

A path with NUL raises in `posix_norm`; here it does where one can come in, in `jailPath` and `extraDenies`.
-/
namespace PiHerder.Files
open Lib Lib.Str Lib.FileTree

inductive Code
  | invalid | demo | jail | escape | denied | tooLarge | tooMany | isFile | isDir | binary | notFound | notEmpty | exists_ | ssh
deriving DecidableEq, Repr

/-- `FilesError`. With `ssh` the message is what the library raised, and stays empty here. -/
structure FilesError where
  code : Code
  message : Str
deriving DecidableEq, Repr

def sshError : FilesError := ⟨.ssh, []⟩

def NAME_MAX : Nat := 255
def WALK_DEPTH_MAX : Nat := 24
def VIRTUAL_DENY : List Str := [lit "/proc", lit "/sys", lit "/dev", lit "/run"]

def FLEET_JAIL_FORBIDDEN : List Str :=
  [lit "/boot", lit "/dev", lit "/proc", lit "/sys", lit "/run", lit "/etc", lit "/usr", lit "/bin", lit "/sbin", lit "/lib",
   lit "/lib64", lit "/tmp", lit "/var/run"]

inductive Role | fleet | privileged
deriving DecidableEq, Repr

/-- The text of the constant. -/
def Role.text : Role → Str
  | .fleet => lit "fleet"
  | .privileged => lit "privileged"

/-- The columns of a server that the jail depends on. -/
structure Server where
  sshUsername : Option Str
  containerPatchEnabled : Bool
  dockerBaseDir : Option Str
deriving DecidableEq, Repr

/-- What every verb is given: the server, the role as asked for, the identity's username, and the demo mode. -/
structure Site where
  server : Server
  role : Str
  identity : Option (Option Str)
  demo : Bool
deriving DecidableEq, Repr

/-! ## Path texts -/

/-- The loop of `posix_norm`; `parts` has the last one first. -/
def normSeg (parts : List Str) (seg : Str) : List Str :=
  if seg = [] ∨ seg = lit "." then parts else if seg = lit ".." then parts.tail else seg :: parts

def slashed (p : Str) : Str := p.map fun c => if c = '\\' then '/' else c

def posixNorm (path : Str) : Str :=
  let parts := ((split '/' (slashed path)).foldl normSeg []).reverse
  if startsWith (lit "/") (slashed path) then '/' :: join '/' parts else join '/' parts

def parseSegs : List Str → Except FilesError (List Str)
  | [] => .ok []
  | seg :: rest =>
    if seg = [] ∨ seg = lit "." then parseSegs rest
    else if seg = lit ".." then .error ⟨.escape, lit "Path must not contain .."⟩
    else if NAME_MAX < seg.length then .error ⟨.escape, lit "Name is too long"⟩
    else (parseSegs rest).map (seg :: ·)

def parseRel (rel : Str) : Except FilesError (List Str) :=
  let raw := strip rel
  if raw = [] ∨ raw = lit "." ∨ raw = lit "./" then .ok []
  else if Char.ofNat 0 ∈ raw ∨ '\\' ∈ raw then .error ⟨.escape, lit "Invalid path"⟩
  else if startsWith (lit "/") raw then .error ⟨.escape, lit "Path must be relative to the jail"⟩
  else parseSegs (split '/' raw)

def joinJail (jail rel : Str) : Except FilesError Str := do
  let parts ← parseRel rel
  pure (if parts = [] then jail
    else if jail = lit "/" then posixNorm (lit "/" ++ join '/' parts)
    else posixNorm (rstrip '/' jail ++ lit "/" ++ join '/' parts))

def underJail (path jail : Str) : Bool :=
  let p := posixNorm path
  let j := posixNorm jail
  if j = lit "/" then startsWith (lit "/") p else decide (p = j) || startsWith (j ++ lit "/") p

def prefixHit (path denied : Str) : Bool :=
  let p := posixNorm path
  let d := posixNorm denied
  if p = [] ∨ d = [] then false
  else if d = lit "/" then decide (p = lit "/")
  else decide (p = d) || startsWith (d ++ lit "/") p

def sanitizeBasename (name : Str) : Except FilesError Str :=
  let raw := strip (slashed name)
  if raw = [] ∨ Char.ofNat 0 ∈ raw then .error ⟨.escape, lit "Invalid file name"⟩
  else
    let base := strip (basename raw)
    if base = [] ∨ base = lit "." ∨ base = lit ".." ∨ NAME_MAX < base.length then .error ⟨.escape, lit "Invalid file name"⟩
    else .ok base

/-! ## The jail -/

def expandRemotePath (path username : Str) : Str :=
  let p := strip path
  let user := if strip username = [] then lit "root" else strip username
  if p = [] then p
  else if p = lit "~" then (if user = lit "root" then lit "/root" else lit "/home/" ++ user)
  else if startsWith (lit "~/") p then
    let rest := p.drop 2
    if user = lit "root" then (if rest = [] then lit "/root" else lit "/root/" ++ rest)
    else if rest = [] then lit "/home/" ++ user
    else lit "/home/" ++ user ++ lit "/" ++ rest
  else p

def normalizeRole (role : Str) : Except FilesError Role :=
  let r := lower (strip (if role = [] then Role.fleet.text else role))
  if r = Role.fleet.text then .ok .fleet
  else if r = Role.privileged.text then .ok .privileged
  else .error ⟨.invalid, lit "Identity must be fleet or privileged"⟩

def identityUsername (server : Server) (identity : Option (Option Str)) : Str :=
  let own := strip ((identity.getD none).getD [])
  let ssh := strip (server.sshUsername.getD [])
  if own ≠ [] then own else if ssh ≠ [] then ssh else lit "root"

/-- `posix_norm` of what comes from a server's columns. -/
def normColumn (path : Str) : Except FilesError Str := do
  raiseIf (Char.ofNat 0 ∈ path) ⟨.escape, lit "Invalid path"⟩
  pure (posixNorm path)

namespace Site

def jailPath (w : Site) : Except FilesError Str :=
  if w.demo then .ok (lit "/home/demo/docker")
  else do
    let role ← normalizeRole w.role
    let user := identityUsername w.server (if role = .privileged then w.identity else none)
    if role = .privileged then pure (lit "/")
    else do
      let base := w.server.dockerBaseDir.getD []
      let jail ← normColumn (expandRemotePath
        (if w.server.containerPatchEnabled then (if base = [] then lit "~/docker" else base) else lit "~") user)
      raiseIf (jail = [] ∨ jail = lit "/") ⟨.jail, lit "Fleet jail cannot be filesystem root"⟩
      raiseIf (startsWith (lit "/") jail = false) ⟨.jail, lit "Jail must be an absolute path"⟩
      match FLEET_JAIL_FORBIDDEN.find? fun d => prefixHit jail d with
      | some d => .error ⟨.jail, lit "Fleet jail cannot sit under " ++ d⟩
      | none => pure jail

def extraDenies (w : Site) : Except FilesError (List Str) := do
  let role ← normalizeRole w.role
  if role = .privileged then pure VIRTUAL_DENY
  else do
    let jail ← w.jailPath
    let home ← normColumn (expandRemotePath (lit "~/.ssh") (identityUsername w.server none))
    let sshHomes := [posixNorm (rstrip '/' jail ++ lit "/.ssh"), home, lit "/root/.ssh"]
    let out := VIRTUAL_DENY ++ FLEET_JAIL_FORBIDDEN.filter fun d => !(decide (jail = d) || startsWith (d ++ lit "/") jail)
    pure (sshHomes.foldl (fun out s => if s ≠ [] ∧ s ∉ out then out ++ [s] else out) out)

def isDenied (w : Site) (path : Str) : Except FilesError Bool := do
  let denies ← w.extraDenies
  pure (denies.any fun d => prefixHit path d)

/-- The jail and the absolute path, without talking to the host. -/
def resolveLogical (w : Site) (rel : Str) : Except FilesError (Str × Str) := do
  let _ ← normalizeRole w.role
  let jail ← w.jailPath
  let absPath ← joinJail jail rel
  raiseIf (underJail absPath jail = false) ⟨.escape, lit "Path is outside the jail"⟩
  raiseIf ((← w.isDenied absPath) = true) ⟨.denied, lit "Path is blocked"⟩
  pure (jail, absPath)

end Site

def relOf (absPath jail : Str) : Except FilesError Str :=
  let a := posixNorm absPath
  let j := posixNorm jail
  if a = j then .ok []
  else if j = lit "/" then .ok (lstrip '/' a)
  else if startsWith (j ++ lit "/") a then .ok (a.drop (j.length + 1))
  else .error ⟨.escape, lit "Path is outside the jail"⟩

/-! ## On the host -/

variable (links : Nat)

/-- `_normalize_remote`: the path itself where the server does not resolve it. -/
def normalizeRemote (t : Tree) (path : Str) : Str :=
  posixNorm (match realpath t.shape links (split '/' path) with
    | some p => pathText p
    | none => path)

def lstat (t : Tree) (path : Str) : Except FilesError Kind :=
  match (entryAt t.shape links path).bind t.shape with
  | some kind => .ok kind
  | none => .error ⟨.notFound, lit "Not found"⟩

def Site.assertInJail (w : Site) (t : Tree) (absPath : Str) : Except FilesError Str := do
  let jail ← w.jailPath
  let path := normalizeRemote links t (posixNorm absPath)
  raiseIf (underJail path jail = false) ⟨.escape, lit "Path is outside the jail"⟩
  raiseIf ((← w.isDenied path) = true) ⟨.denied, lit "Path is blocked"⟩
  pure path

end PiHerder.Files
