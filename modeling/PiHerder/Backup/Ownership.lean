import Mathlib
import PiHerder.Lib.FileTree
import PiHerder.Lib.JsonValue
import PiHerder.Lib.Shell

/-!
# Putting owner, group and mode back

A restore applies the rows of an ownership manifest to a tree: on this machine (`apply_manifest_tree`) or through
a script that runs on the host (`render_apply_script`), `services/backup_ownership.py`.

| here | there |
| --- | --- |
| `canonicalMode`, `safeRel` | `canonical_mode` (24–33), `safe_rel` (36–49) |
| `readEntry` | the checks at the head of both loops (187–201, 258–269) |
| `withinTarget` | `_within_target` (168–190) |
| `applyEntry`, `applyManifestTree` | `apply_manifest_tree` (193–228) |
| `callLine`, `renderApplyScript` | the lines at `__CALLS__` (257–277) |
| `applyRel`, `walkRel` | the shell function `apply_rel` of the script (289–324) |
| `runLine`, `runScript` | the shell that reads these lines, under `set -e` |
| `pathExists`, `pathLink`, `pathDir`, `chownCmd`, `chmodCmd` | the functions of `__CHOWN_FN__`, with or without `sudo` |

**Boundaries.** Lookups see the whole tree, and operations on what is there succeed. `chown` takes an operand of
digits for an id. Whether `chmod` with a mode of four digits clears the set-id bits of a directory is left open by
POSIX; coreutils keep them: `keepsSetId`.
-/
namespace PiHerder.Backup
open Lib Lib.Str Lib.FileTree Lib.Shell

/-! ## Rows of the manifest -/

/-- `str` of what is no string, and `int` of a float from its text: `.error` where it raises `OverflowError`. -/
structure Python where
  repr : JsonValue → Str
  truncate : Str → Except Unit (Option Int)

/-- The digits of `int(s, base)`: single underscores may stand between them. -/
def intDigits (base : Nat) (s : Str) : Option Nat :=
  let groups := split '_' s
  let digits := groups.flatten
  if groups.any List.isEmpty then none
  -- `int` refuses decimal texts that are too long
  else if base = 10 ∧ 4300 < digits.length then none
  else if digits.all fun c => isDigit c && decide (c.toNat - '0'.toNat < base) then
    some (digits.foldl (fun n c => n * base + (c.toNat - '0'.toNat)) 0)
  else none

/-- `int(s, base)`. -/
def intText (base : Nat) (s : Str) : Option Int :=
  let t := strip s
  let (neg, t) := match t with
    | '-' :: r => (true, r)
    | '+' :: r => (false, r)
    | r => (false, r)
  let t := match base, t with
    | 8, '0' :: 'o' :: '_' :: r => r
    | 8, '0' :: 'O' :: '_' :: r => r
    | 8, '0' :: 'o' :: r => r
    | 8, '0' :: 'O' :: r => r
    | _, r => r
  (intDigits base t).map fun n => if neg then -(n : Int) else n

/-- `int(value)`: `none` where it raises a `TypeError` or `ValueError`. -/
def intOf (py : Python) : JsonValue → Except Unit (Option Int)
  | .null => .ok none
  | .bool b => .ok (some (if b then 1 else 0))
  | .int n => .ok (some n)
  | .float text => py.truncate text
  | .str s => .ok (intText 10 s)
  | .arr _ => .ok none
  | .obj _ => .ok none

def octDigit (n : Nat) : Char := Char.ofNat ('0'.toNat + n % 8)

/-- `format(number, "04o")` of a number up to `0o7777`. -/
def octal (n : Nat) : Str := [octDigit (n / 512), octDigit (n / 64), octDigit (n / 8), octDigit n]

/-- `int(mode, 8)` of such a text. -/
def ofOctal (s : Str) : Nat := s.foldl (fun n c => n * 8 + (c.toNat - '0'.toNat)) 0

/-- The number a mode stands for: a text is octal. -/
def modeNumber (py : Python) : JsonValue → Except Unit (Option Int)
  | .str s => .ok (intText 8 s)
  | v => intOf py v

def canonicalMode (py : Python) (value : JsonValue) (stripSpecial : Bool) : Except Unit (Option Str) :=
  (modeNumber py value).map fun number => number.bind fun number =>
    if number < 0 ∨ number > 0o7777 then none
    else
      let number := if stripSpecial then number.toNat &&& 0o1777 else number.toNat
      some (octal number)

def safeRel (py : Python) (raw : JsonValue) : Option Str :=
  match raw with
  | .null => none
  | raw =>
    let text := (raw.text py.repr).map fun c => if c = '\\' then '/' else c
    if text = [] ∨ text = lit "." then some []
    else if startsWith (lit "/") text ∨ '\x00' ∈ text ∨ '\n' ∈ text then none
    else
      let parts := split '/' text
      if parts.any fun part => part = [] ∨ part = lit "." ∨ part = lit ".." then none
      else some (join '/' parts)

/-- A row that passes the checks. -/
structure Row where
  rel : Str
  uid : Nat
  gid : Nat
  mode : Str
deriving DecidableEq, Repr

/-- The largest id, which the kernel reads as "leave it". -/
abbrev maxId : Nat := 0xFFFFFFFF

/-- The checks of one manifest row: `none` where it is skipped, `.error` where `int` raises. -/
def readEntry (py : Python) : JsonValue → Except Unit (Option Row)
  | .obj d =>
    let rel := safeRel py (JsonValue.get d (lit "path"))
    (canonicalMode py (JsonValue.get d (lit "mode")) true).bind fun mode =>
      (intOf py (JsonValue.get d (lit "uid"))).bind fun uid =>
        match uid with
        | none => .ok none
        | some uid =>
          (intOf py (JsonValue.get d (lit "gid"))).bind fun gid =>
            match gid with
            | none => .ok none
            | some gid =>
              match rel, mode with
              | some rel, some mode =>
                if uid < 0 ∨ gid < 0 ∨ uid > maxId ∨ gid > maxId then .ok none
                else .ok (some ⟨rel, uid.toNat, gid.toNat, mode⟩)
              | _, _ => .ok none
  | _ => .ok none

/-! ## On this machine -/

/-- Links the kernel follows in one path. -/
abbrev maxLinks : Nat := 40

/-- A node's owner and group are set; its mode stays. -/
def chown (a : Attrs) (p : List Name) (uid gid : Nat) : Attrs := Function.update a p { a p with uid := uid, gid := gid }

def chmod (a : Attrs) (p : List Name) (mode : Nat) : Attrs := Function.update a p { a p with mode := mode }

/-- `path.lstat()`: what the path names, a link itself. -/
def lstat (shape : Shape) (path : List Name) : Option Kind := (lplace shape maxLinks [] path).bind shape

/-- `current.resolve().relative_to(root.resolve())` does not raise. -/
def resolvesBelow (shape : Shape) (root current : List Name) : Bool :=
  match follow shape maxLinks [] current, follow shape maxLinks [] root with
  | some (_, p), some (_, q) => q.isPrefixOf p
  | _, _ => false

/-- The loop of `_within_target`. -/
def walkTarget (shape : Shape) (root current : List Name) : List Name → Option (List Name)
  | [] => if resolvesBelow shape root current then some current else none
  | part :: rest =>
    let nxt := current ++ [part]
    match lstat shape nxt with
    | none => none
    | some (.link _) => if rest ≠ [] then none else some nxt
    | some kind => if rest ≠ [] ∧ kind ≠ .dir then none else walkTarget shape root nxt rest

def withinTarget (shape : Shape) (root : List Name) (rel : Str) : Option (List Name) :=
  if rel = [] then some root else walkTarget shape root root (split '/' rel)

structure Report where
  attrs : Attrs
  applied : Nat
  skipped : Nat
  errors : List Str

/-- `os.lchown`, with -1 for an id that stays. -/
def lchown (shape : Shape) (a : Attrs) (path : List Name) (uid gid : Nat) : Option Attrs :=
  (lplace shape maxLinks [] path).map fun p =>
    chown a p (if uid = maxId then (a p).uid else uid) (if gid = maxId then (a p).gid else gid)

/-- `path.is_symlink()`. -/
def isSymlink (shape : Shape) (path : List Name) : Bool :=
  match lstat shape path with
  | some (.link _) => true
  | _ => false

/-- A row that passed the checks. The kernel may clear set-id bits of a file in `lchown`; `os.chmod` sets all
twelve right after. -/
def applyEntry (shape : Shape) (root : List Name) (r : Report) (e : Row) : Report :=
  let failed (a : Attrs) : Report := { r with attrs := a, errors := r.errors ++ [if e.rel = [] then lit "." else e.rel] }
  match withinTarget shape root e.rel with
  | none => { r with skipped := r.skipped + 1 }
  | some path =>
    match lchown shape r.attrs path e.uid e.gid with
    | none => failed r.attrs
    | some a =>
      if isSymlink shape path then { r with attrs := a, applied := r.applied + 1 }
      else match follow shape maxLinks [] path with
        | none => failed a
        | some (_, p) => { r with attrs := chmod a p (ofOctal e.mode), applied := r.applied + 1 }

/-- The loop over the rows; `.error` is a raise, with the tree as it stands then. -/
def applyManifestTree (py : Python) (shape : Shape) (root : List Name) : Report → List JsonValue → Except Attrs Report
  | r, [] => .ok r
  | r, raw :: rest =>
    match readEntry py raw with
    | .error _ => .error r.attrs
    | .ok none => applyManifestTree py shape root { r with skipped := r.skipped + 1 } rest
    | .ok (some e) => applyManifestTree py shape root (applyEntry shape root r e) rest

/-! ## On the host -/

def callLine (e : Row) : Str :=
  let shown := if e.rel = [] then lit "." else e.rel
  join ' ' (lit "apply_rel" :: [shown, ofNat e.uid, ofNat e.gid, e.mode].map quote)

/-- The calls of the script; where there are none it has `:`, which does nothing. -/
def renderApplyScript (py : Python) : List JsonValue → Except Unit (List Str)
  | [] => .ok []
  | raw :: rest =>
    (readEntry py raw).bind fun e => (renderApplyScript py rest).map fun lines => (e.map callLine).toList ++ lines

/-- A path of the script, from the directory it has changed to. -/
def hostFollow (shape : Shape) (cwd : List Name) (path : Str) : Option (List Name) :=
  (follow shape maxLinks cwd (split '/' path)).map (·.2)

def hostPlace (shape : Shape) (cwd : List Name) (path : Str) : Option (List Name) := lplace shape maxLinks cwd (split '/' path)

/-- `test -h`. -/
def pathLink (shape : Shape) (cwd : List Name) (path : Str) : Bool :=
  match (hostPlace shape cwd path).bind shape with
  | some (.link _) => true
  | _ => false

/-- `test -e`, which follows links, or `test -h`. -/
def pathExists (shape : Shape) (cwd : List Name) (path : Str) : Bool :=
  ((hostFollow shape cwd path).bind shape).isSome || pathLink shape cwd path

/-- `test -d`. -/
def pathDir (shape : Shape) (cwd : List Name) (path : Str) : Bool :=
  decide ((hostFollow shape cwd path).bind shape = some .dir)

/-- `chown -h uid:gid path`; `none` where it fails, as it does for the largest id. -/
def chownCmd (shape : Shape) (cwd : List Name) (a : Attrs) (ids path : Str) : Option Attrs :=
  match splitOnce ':' ids, hostPlace shape cwd path with
  | some (uid, gid), some p => if int uid < maxId ∧ int gid < maxId then some (chown a p (int uid) (int gid)) else none
  | _, _ => none

/-- The mode a numeric `chmod` leaves. -/
def chmodMode (keepsSetId isDir : Bool) (mode old : Nat) : Nat :=
  if keepsSetId && isDir then mode ||| (old &&& 0o6000) else mode

/-- `chmod mode path`, which follows links. -/
def chmodCmd (keepsSetId : Bool) (shape : Shape) (cwd : List Name) (a : Attrs) (mode path : Str) : Option Attrs :=
  (hostFollow shape cwd path).map fun p =>
    chmod a p (chmodMode keepsSetId (decide (shape p = some .dir)) (ofOctal mode) (a p).mode)

/-- The `while` loop of `apply_rel`. -/
def walkRel (keepsSetId : Bool) (shape : Shape) (cwd : List Name) (a : Attrs) (ids mode rest dir : Str) : Option Attrs :=
  let comp := beforeSlash rest
  if comp = [] ∨ comp = lit "." ∨ comp = lit ".." then some a
  else
    let path := dir ++ '/' :: comp
    if _h : rest = comp then
      if !pathExists shape cwd path then some a
      else (chownCmd shape cwd a ids path).bind fun a =>
        if pathLink shape cwd path then some a else chmodCmd keepsSetId shape cwd a mode path
    else if pathLink shape cwd path || !pathDir shape cwd path then some a
    else walkRel keepsSetId shape cwd a ids mode (afterSlash rest) path
termination_by rest.length
decreasing_by exact length_afterSlash_lt (by_contra fun hno => _h (eq_beforeSlash_iff.2 hno))

/-- `[01][0-7][0-7][0-7]`. -/
def modePattern (mode : Str) : Bool :=
  match mode with
  | [a, b, c, d] => (a == '0' || a == '1') && [b, c, d].all fun x => decide ('0' ≤ x ∧ x ≤ '7')
  | _ => false

/-- `apply_rel`; `none` where a command fails and `set -e` ends the script. -/
def applyRel (keepsSetId : Bool) (shape : Shape) (cwd : List Name) (a : Attrs) (rel uid gid mode : Str) : Option Attrs :=
  if !isdigit uid then some a
  else if !isdigit gid then some a
  else if !modePattern mode then some a
  else if rel = lit "." then
    (chownCmd shape cwd a (uid ++ ':' :: gid) (lit ".")).bind fun a => chmodCmd keepsSetId shape cwd a mode (lit ".")
  else if startsWith (lit "/") rel ∨ rel = lit ".." ∨ startsWith (lit "../") rel ∨ endsWith (lit "/..") rel ∨
      hasInfix (lit "/../") rel then some a
  else walkRel keepsSetId shape cwd a (uid ++ ':' :: gid) mode rel (lit ".")

def runLine (keepsSetId : Bool) (shape : Shape) (cwd : List Name) (a : Attrs) (line : Str) : Option Attrs :=
  match shellWords line with
  | some [f, rel, uid, gid, mode] => if f = lit "apply_rel" then applyRel keepsSetId shape cwd a rel uid gid mode else none
  | _ => none

def runLines (keepsSetId : Bool) (shape : Shape) (cwd : List Name) : Attrs → List Str → Option Attrs
  | a, [] => some a
  | a, line :: rest => (runLine keepsSetId shape cwd a line).bind fun a => runLines keepsSetId shape cwd a rest

/-- The script: `cd "$root"`, then its calls. -/
def runScript (keepsSetId : Bool) (shape : Shape) (root : List Name) (a : Attrs) (lines : List Str) : Option Attrs :=
  match follow shape maxLinks [] root with
  | some (_, cwd) => if shape cwd = some .dir then runLines keepsSetId shape cwd a lines else none
  | none => none

end PiHerder.Backup
