import Mathlib
import PiHerder.Files.Delete
import PiHerder.Files.Writes

/-!
# What Files lists

| here | there |
| --- | --- |
| `listDir`, `entryOf` | `list_dir` (750–848) |
| `search`, `walk`, `visit` | `search` (2166–2343) |
| `readPlace` | the path that `read_text` (1256–1300) reads |
| `writeTarget`, `putTarget` | the path that `write_text` and `put_file` (964–984, 1303–1326) come to before they write |

What a listing says of size, time, mode and owner is left out, and so is the demo's own listing. An entry comes with the
folder that it was found in.
-/
namespace PiHerder.Files
open Lib Lib.Str Lib.FileTree Lib.Eff

def LIST_CAP : Nat := 500
def SEARCH_CAP : Nat := 200
def SEARCH_SCAN_MAX : Nat := 2000
def SEARCH_Q_MAX : Nat := 80
def CONTENT_HITS_MAX : Nat := 80
def CONTENT_LINE_MAX : Nat := 160

def SECRET_EXACT : List Str := [lit ".env", lit "id_rsa", lit "id_ed25519", lit "id_ecdsa", lit "id_dsa", lit "id_rsa.pub"]
def SECRET_SUFFIXES : List Str := [lit ".pem", lit ".key", lit ".p12", lit ".pfx", lit ".ppk"]

def isSecretish (name : Str) : Bool :=
  let low := lower (basename (slashed name))
  if low ∈ SECRET_EXACT ∨ startsWith (lit ".env.") low then true else SECRET_SUFFIXES.any fun suf => endsWith suf low

/-- An entry as a listing gives it; `line` is where a search in the text found it. -/
structure Found where
  folder : Str
  name : Str
  rel : Str
  kind : Kind
  escaped : Bool
  line : Option (Nat × Str)
deriving DecidableEq, Repr

/-- What a file holds, as UTF-8 if it is that, and with what is not replaced. -/
structure Content where
  size : Nat
  looksLikeText : Bool
  decoded : Option Str
  replaced : Str
deriving DecidableEq, Repr

section Browse
variable (links : Nat) (w : Site) (t : Tree)

/-- A link is taken for what it leads to in the jail; `none` where it leads elsewhere. -/
def followInJail (jail path : Str) : Kind → Except FilesError (Option (Str × Kind))
  | .link _ => do
    let target := normalizeRemote links t path
    if underJail target jail = false then pure none
    else if ← w.isDenied target then pure none
    else (lstat links t target).map fun kind => some (target, kind)
  | kind => pure (some (path, kind))

/-- The same where a link that leads elsewhere is an error. -/
def followOrRaise (jail path : Str) (kind : Kind) : Except FilesError (Str × Kind) := do
  match ← followInJail links w t jail path kind with
  | some followed => pure followed
  | none => .error ⟨.escape, lit "Symlink leaves the jail"⟩

/-- An entry is escaped when it leads out of the jail or to a denied path. -/
def escapes (jail child : Str) : Kind → Except FilesError Bool
  | .link _ =>
    let target := normalizeRemote links t child
    pure (match w.isDenied target with
      | .ok denied => !underJail target jail || denied
      | .error _ => true)
  | _ => if underJail child jail = false then pure true else w.isDenied child

/-! ## A folder -/

def listdirAttr (path : Str) : Except FilesError (List (Name × Kind)) :=
  match follow t.shape links [] (split '/' path) with
  | some (_, d) =>
    if t.shape d = some .dir then .ok ((t.listdir d).filterMap fun name => (t.shape (d ++ [name])).map fun kind => (name, kind))
    else .error sshError
  | none => .error sshError

def entryOf (jail path : Str) (attr : Name × Kind) : Except FilesError Found := do
  let child := posixNorm (slashed (posixJoin path attr.1))
  let escaped ← escapes links w t jail child attr.2
  pure ⟨path, attr.1, (relOf child jail).toOption.getD attr.1, attr.2, escaped, none⟩

/-- Folders first, then by name. -/
def sortKey (e : Found) : Nat × Str := (if e.kind = .dir then 0 else 1, lower e.name)

def sortEntries (es : List Found) : List Found :=
  es.insertionSort fun a b => (sortKey a).1 < (sortKey b).1 ∨ (sortKey a).1 = (sortKey b).1 ∧ (sortKey a).2 ≤ (sortKey b).2

structure Listing where
  jail : Str
  rel : Str
  absPath : Str
  truncated : Bool
  entries : List Found
  crumbs : List Str
deriving DecidableEq, Repr

def listDir (rel : Str) : Except FilesError Listing := do
  let _ ← normalizeRole w.role
  let (jail, absPath) ← w.resolveLogical rel
  let path ← w.assertInJail links t absPath
  let kind ← lstat links t path
  let (path, kind) ← followOrRaise links w t jail path kind
  raiseIf (kind ≠ .dir) ⟨.isFile, lit "Not a directory"⟩
  let attrs ← listdirAttr links t path
  let entries ← (attrs.take LIST_CAP).mapM (entryOf links w t jail path)
  let inner ← relOf path jail
  let crumbs ← parseRel inner
  pure ⟨jail, inner, path, decide (LIST_CAP < attrs.length), sortEntries entries, crumbs⟩

/-! ## A search -/

structure Query where
  needle : Str
  contents : Bool
  allowSecrets : Bool
deriving DecidableEq, Repr

structure Searched where
  hits : List Found
  truncated : Bool
  scanned : Nat
  contentN : Nat
deriving DecidableEq, Repr

/-- The lines of a text with the needle, counted from one. -/
def matchingLines (needle text : Str) : List (Nat × Str) :=
  ((splitlines text).zipIdx.filter fun l => hasInfix needle (lower l.1)).map fun l => (l.2 + 1, (strip l.1).take CONTENT_LINE_MAX)

variable (content : Str → Content) (q : Query)

/-- The hits in the text of a file, three at most. -/
def contentHits (hit : Found) (childAbs : Str) (contentN : Nat) : List Found :=
  if q.contents = true ∧ hit.escaped = false ∧ hit.kind = .other ∧ contentN < CONTENT_HITS_MAX ∧
      ¬ (isSecretish hit.name = true ∧ q.allowSecrets = false) ∧ 0 < (content childAbs).size ∧ (content childAbs).size ≤ EDIT_MAX ∧
      (content childAbs).looksLikeText = true then
    ((matchingLines q.needle (content childAbs).replaced).take (min 3 (CONTENT_HITS_MAX - contentN))).map fun l => { hit with line := some l }
  else []

/-- One name of a folder; `inner` walks on from a folder. -/
def visit (inner : Str → Str → Searched → Except FilesError Searched) (jail path childRel : Str) (s : Searched) (name : Name) :
    Except FilesError Searched :=
  if s.truncated = true ∨ SEARCH_CAP ≤ s.hits.length then pure { s with truncated := true }
  else if SEARCH_SCAN_MAX < s.scanned + 1 then pure { s with scanned := s.scanned + 1, truncated := true }
  else
    let childAbs := posixNorm (posixJoin path name)
    let relChild := if childRel ≠ [] then childRel ++ lit "/" ++ name else name
    match lstat links t childAbs with
    | .error _ => pure { s with scanned := s.scanned + 1 }
    | .ok kind => do
      let escaped ← escapes links w t jail childAbs kind
      let hit : Found := ⟨path, name, relChild, kind, escaped, none⟩
      let named := if hasInfix q.needle (lower name) then [hit] else []
      let inText := contentHits content q hit childAbs s.contentN
      let s := ⟨s.hits ++ named ++ inText, s.truncated, s.scanned + 1, s.contentN + inText.length⟩
      if kind = .dir ∧ escaped = false then inner childAbs relChild s else pure s

/-- `_walk`; the first argument is how many levels are left. -/
def walk (jail : Str) : Nat → Str → Str → Searched → Except FilesError Searched
  | 0, _, _, s => pure { s with truncated := true }
  | level + 1, absPath, childRel, s =>
    if s.truncated = true ∨ SEARCH_CAP ≤ s.hits.length ∨ SEARCH_SCAN_MAX ≤ s.scanned then pure { s with truncated := true }
    else do
      let path ← w.assertInJail links t absPath
      let kind ← lstat links t path
      match ← followInJail links w t jail path kind with
      | none => pure s
      | some (path, kind) =>
        if kind ≠ .dir then pure s
        else do
          let names ← listdirNames links t path
          names.foldlM (visit links w t content q (walk jail level) jail path childRel) s

structure SearchResult where
  jail : Str
  rel : Str
  query : Str
  truncated : Bool
  entries : List Found
  crumbs : List Str
deriving DecidableEq, Repr

def search (query rel : Str) (contents allowSecrets : Bool) : Except FilesError SearchResult := do
  raiseIf (strip query = []) ⟨.invalid, lit "Type something to search"⟩
  raiseIf (SEARCH_Q_MAX < (strip query).length) ⟨.invalid, lit "Search is too long"⟩
  let _ ← normalizeRole w.role
  let (jail, absPath) ← w.resolveLogical rel
  let s ← walk links w t content ⟨lower (strip query), contents, allowSecrets⟩ jail (WALK_DEPTH_MAX + 1) absPath (rstrip '/' (lstrip '/' rel))
    ⟨[], false, 0, 0⟩
  let inner ← relOf absPath jail
  let crumbs ← parseRel inner
  pure ⟨jail, inner, strip query, s.truncated, s.hits, crumbs⟩

/-! ## Reading and writing a text -/

/-- Where a text is read: the path, and what `lstat` found at the path before a link was followed. -/
structure ReadPlace where
  path : Str
  found : Kind
deriving DecidableEq, Repr

def readPlace (rel : Str) : Except FilesError ReadPlace := do
  let _ ← normalizeRole w.role
  let (jail, absPath) ← w.resolveLogical rel
  let path ← w.assertInJail links t absPath
  let found ← lstat links t path
  let (path, kind) ← followOrRaise links w t jail path found
  raiseIf (kind = .dir) ⟨.isDir, lit "Not a file"⟩
  pure ⟨path, found⟩

/-- The checks of `put_file`, and the path that it then writes. -/
def putTarget (r : Remote) (relDir filename : Str) (size : Option Nat) : Except FilesError Str := do
  refuseDemoWrite w
  let name ← sanitizeBasename filename
  let _ ← normalizeRole w.role
  raiseIf (∃ n ∈ size, r.cap < n) (tooLarge r)
  let (jail, destDir) ← w.resolveLogical relDir
  let inner ← relOf destDir jail
  let logical ← joinJail jail (rstrip '/' (lstrip '/' (inner ++ lit "/" ++ name)))
  raiseDenied w logical
  let destDir ← w.assertInJail links t destDir
  let kind ← lstat links t destDir
  raiseIf (kind ≠ .dir) ⟨.isFile, lit "Not a directory"⟩
  raiseEscape (posixNorm (posixJoin destDir name)) jail
  pure (posixNorm (posixJoin destDir name))

def writeTarget (r : Remote) (rel : Str) (length : Nat) : Except FilesError Str := do
  refuseDemoWrite w
  raiseIf (EDIT_MAX < length) ⟨.tooLarge, lit "Save exceeds " ++ r.humanSize EDIT_MAX⟩
  let (relDir, name) := rpartition (slashed rel)
  putTarget links w t r relDir (if name = [] then rel else name) (some length)

end Browse

/-! ## Where an entry stands -/

section Entries
variable {links : Nat} {w : Site} {t : Tree} {e : Found}

theorem inJail_of_follow {jail path : Str} {kind : Kind} (hjail : w.jailPath = .ok jail) (hpath : InJail w path) {p : Str × Kind}
    (h : followInJail links w t jail path kind = .ok (some p)) : InJail w p.1 := by
  obtain ⟨js, rest, hjs, rfl, hclean⟩ := hpath
  unfold followInJail at h
  split at h
  · simp only at h
    split at h
    · cases h
    · rename_i hunder
      obtain ⟨d, -, h⟩ := except_bind_eq_ok.1 h
      split at h
      · cases h
      · cases hk : lstat links t (normalizeRemote links t (pathText (js ++ rest))) with
        | error e =>
          rw [hk] at h
          cases h
        | ok kind =>
          rw [hk] at h
          obtain rfl := Option.some.inj (Except.ok.inj h)
          obtain ⟨ds, hds, hcl⟩ := normalizeRemote_text links t (js ++ rest)
          rw [Bool.not_eq_false, hds] at hunder
          rw [hds]
          exact inJail_of_under hcl hjail hunder
  · obtain rfl := Option.some.inj (Except.ok.inj h)
    exact ⟨js, rest, hjs, rfl, hclean⟩

theorem inJail_of_followOrRaise {jail path : Str} {kind : Kind} (hjail : w.jailPath = .ok jail) (hpath : InJail w path) {p : Str × Kind}
    (h : followOrRaise links w t jail path kind = .ok p) : InJail w p.1 := by
  obtain ⟨followed, hfollow, h⟩ := except_bind_eq_ok.1 h
  cases followed with
  | none => cases h
  | some q =>
    obtain rfl := Except.ok.inj h
    exact inJail_of_follow hjail hpath hfollow

/-- The last name of a rel. -/
def EndsIn (rel name : Str) : Prop := rel = name ∨ ∃ dir, rel = dir ++ '/' :: name

/-- **The entry stands in its folder**, where its path leads when there is no backslash in its name. -/
structure Stands (links : Nat) (w : Site) (t : Tree) (e : Found) : Prop where
  inJail : InJail w e.folder
  legal : Legal e.name
  place : ∃ m d, follow t.shape links [] (split '/' e.folder) = some (m, d) ∧ t.shape d = some .dir ∧
    ('\\' ∉ e.name → t.shape (d ++ [e.name]) = some e.kind)
  ends : '\\' ∉ e.name → EndsIn e.rel e.name

theorem clean_of_legal {name : Name} (h : Legal name) (hback : '\\' ∉ name) : Entry name ∧ '/' ∉ name ∧ '\\' ∉ name := ⟨h.1, h.2.1, hback⟩

/-- The folder and the entry as texts of places. -/
theorem Stands.text (h : Stands links w t e) : ∃ js rest, w.jailPath = .ok (pathText js) ∧ Clean (js ++ rest) ∧ e.folder = pathText (js ++ rest) ∧
    posixJoin e.folder e.name = pathText (js ++ rest ++ [e.name]) := by
  obtain ⟨js, rest, hjail, hfolder, hclean⟩ := h.inJail
  refine ⟨js, rest, hjail, hclean, hfolder, ?_⟩
  rw [hfolder]
  exact posixJoin_pathText (fun x hx => ⟨(hclean x hx).1.1, (hclean x hx).2.1⟩) h.legal.2.1

/-! ## What an entry resolves to -/

/-- `resolve_logical` takes the rel of the entry. -/
def Accepted (w : Site) (e : Found) : Prop := ∃ p, w.resolveLogical e.rel = .ok p

/-- The rel resolves to the path of the entry, or to none. -/
def LeadsBack (w : Site) (e : Found) : Prop :=
  ∀ jail absPath, w.resolveLogical e.rel = .ok (jail, absPath) → absPath = posixJoin e.folder e.name

/-- The names of the stripped rel are those of the path of the entry, below the jail. -/
def SameNames (w : Site) (e : Found) : Prop :=
  ∀ jail, w.jailPath = .ok jail → relOf (posixJoin e.folder e.name) jail = .ok (join '/' (relSegs (strip e.rel)))

theorem notMem_last {q : List Name} {c : Name} (h : '\\' ∉ pathText (q ++ [c])) : '\\' ∉ c := by
  intro hb
  exact h (List.mem_cons_of_mem _ (mem_join_of_mem hb (List.mem_append_right q List.mem_cons_self)))

theorem Stands.leadsBack_iff (h : Stands links w t e) : LeadsBack w e ↔ (Accepted w e → '\\' ∉ e.name ∧ SameNames w e) := by
  obtain ⟨js, rest, hjail, hclean, -, hpath⟩ := h.text
  constructor
  · rintro hback ⟨⟨jail, absPath⟩, hres⟩
    have habs := hback jail absPath hres
    obtain ⟨js', hjail', rfl, htext, hclean', -⟩ := resolveLogical_text hres
    obtain rfl := pathText_injective (hclean.of_prefix (List.prefix_append js rest)).names
      (hclean'.of_prefix (List.prefix_append js' _)).names (Except.ok.inj (hjail.symm.trans hjail'))
    have heq : pathText (js ++ relSegs (strip e.rel)) = pathText (js ++ rest ++ [e.name]) := htext.symm.trans (habs.trans hpath)
    refine ⟨notMem_last (q := js ++ rest) (heq ▸ notMem_pathText hclean'), fun jail'' hjail'' => ?_⟩
    obtain rfl := Except.ok.inj (hjail.symm.trans hjail'')
    rw [hpath, ← heq]
    exact relOf_pathText hclean'
  · intro hcond jail absPath hres
    obtain ⟨hback, hsame⟩ := hcond ⟨_, hres⟩
    obtain ⟨js', hjail', rfl, rfl, hclean', -⟩ := resolveLogical_text hres
    have hall : Clean (js ++ rest ++ [e.name]) := clean_concat hclean (clean_of_legal h.legal hback)
    obtain rfl := pathText_injective (hclean.of_prefix (List.prefix_append js rest)).names
      (hclean'.of_prefix (List.prefix_append js' _)).names (Except.ok.inj (hjail.symm.trans hjail'))
    rw [List.append_assoc] at hpath hall
    have hrel := hsame _ hjail
    rw [hpath, relOf_pathText hall] at hrel
    have hsegs : rest ++ [e.name] = relSegs (strip e.rel) :=
      pathText_injective (fun c hc => hall.names c (List.mem_append_right _ hc)) (fun c hc => hclean'.names c (List.mem_append_right _ hc))
        (congrArg (List.cons '/') (Except.ok.inj hrel))
    rw [hpath, hsegs]

/-! ## Reading and writing an entry -/

/-- A link, as what a listing or a read finds it. -/
def IsLink (k : Kind) : Prop := ∃ dest, k = .link dest

/-- What is saved under the rel is written where it is read, unless a link is found there. -/
def SavesWhatItReads (links : Nat) (w : Site) (t : Tree) (r : Remote) (length : Nat) (e : Found) : Prop :=
  ¬ IsLink e.kind → ∀ place target, readPlace links w t e.rel = .ok place → ¬ IsLink place.found →
    writeTarget links w t r e.rel length = .ok target → target = place.path

/-- The name has no blanks at its ends, and what comes before it in the rel is taken for the folder. -/
def SavedInPlace (links : Nat) (w : Site) (t : Tree) (r : Remote) (length : Nat) (e : Found) : Prop :=
  ¬ IsLink e.kind → ∀ place target, readPlace links w t e.rel = .ok place → ¬ IsLink place.found →
    writeTarget links w t r e.rel length = .ok target → strip e.name = e.name ∧
      ∀ jail dir, w.resolveLogical (rpartition e.rel).1 = .ok (jail, dir) → normalizeRemote links t dir = normalizeRemote links t e.folder

theorem mem_strip {c : Char} (hc : isSpace c = false) {s : Str} (h : c ∈ s) : c ∈ strip s := by
  obtain ⟨a, b, rfl⟩ := List.append_of_mem h
  rw [strip_append hc]
  exact List.mem_append_right _ List.mem_cons_self

theorem basename_of_notMem {s : Str} (h : '/' ∉ s) : basename s = s := by
  unfold basename
  have hall : ∀ c ∈ s.reverse, (c != '/') = true := fun c hc => bne_iff_ne.2 fun heq => h (heq ▸ List.mem_reverse.1 hc)
  rw [List.takeWhile_eq_self_iff.2 hall, List.reverse_reverse]

/-- Of a name that is a name, `sanitize_basename` leaves all but the blanks at its ends. -/
theorem sanitized_of_name {name base : Str} (hslash : '/' ∉ name) (hback : '\\' ∉ name) (h : sanitizeBasename name = .ok base) : base = strip name := by
  unfold sanitizeBasename at h
  rw [slashed_eq_self hback] at h
  simp only at h
  split at h
  · cases h
  · split at h
    · cases h
    · obtain rfl := Except.ok.inj h
      rw [basename_of_notMem fun hmem => hslash (mem_of_mem_strip hmem), strip_strip]

/-- A rel is parted at its last name. -/
theorem rpartition_of_endsIn {rel name : Str} (h : EndsIn rel name) (hslash : '/' ∉ name) : (rpartition rel).2 = name := by
  unfold rpartition
  rcases h with rfl | ⟨dir, rfl⟩
  · rw [if_neg hslash]
  · rw [if_pos (by simp)]
    unfold basename
    rw [List.reverse_append, List.reverse_cons, List.append_assoc, List.singleton_append,
      takeWhile_append_cons (fun h => hslash (List.mem_reverse.1 h)), List.reverse_reverse]

/-- Where `put_file` writes: in the folder as the server resolves it, under the name that is left. -/
theorem putTarget_ok {r : Remote} {relDir filename : Str} {size : Option Nat} {target : Str}
    (h : putTarget links w t r relDir filename size = .ok target) :
    ∃ base jail dir, sanitizeBasename filename = .ok base ∧ w.resolveLogical relDir = .ok (jail, dir) ∧
      ∃ D, normalizeRemote links t dir = pathText D ∧ Clean D ∧ target = pathText (D ++ [base]) := by
  obtain ⟨_, -, h⟩ := except_bind_eq_ok.1 h
  obtain ⟨base, hbase, h⟩ := except_bind_eq_ok.1 h
  obtain ⟨_, -, h⟩ := except_bind_eq_ok.1 h
  obtain ⟨_, -, h⟩ := except_bind_eq_ok.1 h
  obtain ⟨⟨jail, dir⟩, hres, h⟩ := except_bind_eq_ok.1 h
  obtain ⟨_, -, h⟩ := except_bind_eq_ok.1 h
  obtain ⟨_, -, h⟩ := except_bind_eq_ok.1 h
  obtain ⟨_, -, h⟩ := except_bind_eq_ok.1 h
  obtain ⟨path, hpath, h⟩ := except_bind_eq_ok.1 h
  obtain ⟨_, -, h⟩ := except_bind_eq_ok.1 h
  obtain ⟨_, -, h⟩ := except_bind_eq_ok.1 h
  obtain ⟨_, -, h⟩ := except_bind_eq_ok.1 h
  obtain rfl := Except.ok.inj h
  obtain ⟨-, cs, rfl, hcs⟩ := resolveLogical_ok hres
  obtain ⟨hpath, -, -⟩ := assertInJail_ok hpath
  obtain ⟨D, hD, hclean⟩ := normalizeRemote_text links t cs
  rw [posixNorm_pathText hcs, hD] at hpath
  subst hpath
  exact ⟨base, jail, pathText cs, hbase, hres, D, hD, hclean, child_text hclean (clean_sanitized hbase)⟩

/-- The path of a read that finds no link. -/
theorem readPlace_ok {rel : Str} {place : ReadPlace} (h : readPlace links w t rel = .ok place) (hlink : ¬ IsLink place.found) :
    ∃ jail absPath, w.resolveLogical rel = .ok (jail, absPath) ∧ place.path = normalizeRemote links t absPath := by
  obtain ⟨_, -, h⟩ := except_bind_eq_ok.1 h
  obtain ⟨⟨jail, absPath⟩, hres, h⟩ := except_bind_eq_ok.1 h
  obtain ⟨path, hpath, h⟩ := except_bind_eq_ok.1 h
  obtain ⟨found, -, h⟩ := except_bind_eq_ok.1 h
  obtain ⟨⟨last, kind⟩, hfollow, h⟩ := except_bind_eq_ok.1 h
  obtain ⟨_, -, h⟩ := except_bind_eq_ok.1 h
  obtain rfl := Except.ok.inj h
  obtain ⟨-, cs, rfl, hcs⟩ := resolveLogical_ok hres
  obtain ⟨hpath, -, -⟩ := assertInJail_ok hpath
  rw [posixNorm_pathText hcs] at hpath
  refine ⟨jail, pathText cs, hres, ?_⟩
  have hsame : followInJail links w t jail path found = .ok (some (path, found)) := by
    cases found with
    | link dest => exact absurd ⟨dest, rfl⟩ hlink
    | dir => rfl
    | other => rfl
  unfold followOrRaise at hfollow
  rw [hsame] at hfollow
  obtain ⟨rfl, -⟩ := Prod.mk.inj (Except.ok.inj hfollow)
  exact hpath

/-- What is in a folder is resolved behind it, when it is no link. -/
theorem normalizeRemote_concat {cs d : List Name} {m : Nat} {c : Name} {k : Kind} (hcs : Clean cs) (hc : Entry c ∧ '/' ∉ c ∧ '\\' ∉ c)
    (hfollow : follow t.shape links [] (split '/' (pathText cs)) = some (m, d)) (hdir : t.shape d = some .dir)
    (hk : t.shape (d ++ [c]) = some k) (hlink : ¬ IsLink k) :
    ∃ ds, normalizeRemote links t (pathText cs) = pathText ds ∧ Clean ds ∧ normalizeRemote links t (pathText (cs ++ [c])) = pathText (ds ++ [c]) := by
  have hcc := clean_concat hcs hc
  obtain ⟨ds, hds, hclean⟩ := normalizeRemote_text links t cs
  have hleads : LeadsTo t.shape links [] cs d := ⟨m, by rwa [follow_pathText Tree.shape_root hcs] at hfollow⟩
  obtain ⟨m', hm'⟩ := hleads.follow hdir hc.1 hk fun dest heq => hlink ⟨dest, heq⟩
  have hfolder : normalizeRemote links t (pathText cs) = posixNorm (pathText d) := by
    rw [normalizeRemote, realpath, hfollow]
  have hentry : normalizeRemote links t (pathText (cs ++ [c])) = posixNorm (pathText (d ++ [c])) := by
    rw [normalizeRemote, realpath, follow_pathText Tree.shape_root hcc, hm']
  exact ⟨ds, hds, hclean, hentry.trans (posixNorm_concat (hfolder.symm.trans hds) hclean hc)⟩

/-- `put_file` writes at its target. -/
theorem putTarget_of_putFile {r : Remote} {relDir filename : Str} {up : Upload} {s s' : Session} {put : Put}
    (h : putFile r w relDir filename up s = (.ok put, s')) : putTarget r.links w s.tree r relDir filename up.size = .ok put.absPath := by
  obtain ⟨u, hdemo, h⟩ := asks_eq_ok.1 h
  obtain ⟨base, hbase, h⟩ := asks_eq_ok.1 h
  obtain ⟨role, hrole, h⟩ := asks_eq_ok.1 h
  obtain ⟨u', hsize, h⟩ := asks_eq_ok.1 h
  obtain ⟨⟨jail, dir⟩, hres, h⟩ := asks_eq_ok.1 h
  obtain ⟨inner, hinner, h⟩ := asks_eq_ok.1 h
  obtain ⟨logical, hlogical, h⟩ := asks_eq_ok.1 h
  obtain ⟨u'', hdenied, h⟩ := asks_eq_ok.1 h
  obtain ⟨path, hpath, h⟩ := asks_eq_ok.1 h
  obtain ⟨kind, hkind, h⟩ := asks_eq_ok.1 h
  obtain ⟨v, hdir, h⟩ := asks_eq_ok.1 h
  obtain ⟨v', hescape, h⟩ := asks_eq_ok.1 h
  obtain ⟨existed, -, h⟩ := asks_eq_ok.1 h
  obtain ⟨_, s'', -, h⟩ := bind_eq_ok.1 h
  obtain ⟨rel, -, h⟩ := asks_eq_ok.1 h
  obtain ⟨hput, -⟩ := Prod.mk.inj h
  obtain rfl := Except.ok.inj hput
  refine except_bind_eq_ok.2 ⟨u, hdemo, except_bind_eq_ok.2 ⟨base, hbase, except_bind_eq_ok.2 ⟨role, hrole, ?_⟩⟩⟩
  refine except_bind_eq_ok.2 ⟨u', hsize, except_bind_eq_ok.2 ⟨(jail, dir), hres, except_bind_eq_ok.2 ⟨inner, hinner, ?_⟩⟩⟩
  refine except_bind_eq_ok.2 ⟨logical, hlogical, except_bind_eq_ok.2 ⟨u'', hdenied, except_bind_eq_ok.2 ⟨path, hpath, ?_⟩⟩⟩
  exact except_bind_eq_ok.2 ⟨kind, hkind, except_bind_eq_ok.2 ⟨v, hdir, except_bind_eq_ok.2 ⟨v', hescape, rfl⟩⟩⟩

/-- And so does `write_text`. -/
theorem writeTarget_of_writeText {r : Remote} {rel : Str} {length : Nat} {client : Bool} {s s' : Session} {put : Put}
    (h : writeText r w rel length client s = (.ok put, s')) : writeTarget r.links w s.tree r rel length = .ok put.absPath := by
  obtain ⟨u, hdemo, h⟩ := asks_eq_ok.1 h
  obtain ⟨u', hsize, h⟩ := asks_eq_ok.1 h
  exact except_bind_eq_ok.2 ⟨u, hdemo, except_bind_eq_ok.2 ⟨u', hsize, putTarget_of_putFile h⟩⟩

theorem writeTarget_ok {r : Remote} {rel : Str} {length : Nat} {target : Str} (h : writeTarget links w t r rel length = .ok target) :
    putTarget links w t r (rpartition (slashed rel)).1 (if (rpartition (slashed rel)).2 = [] then rel else (rpartition (slashed rel)).2)
      (some length) = .ok target := by
  obtain ⟨_, -, h⟩ := except_bind_eq_ok.1 h
  obtain ⟨_, -, h⟩ := except_bind_eq_ok.1 h
  exact h

/-- An entry that is read where it stands is saved there, if its name and its folder are left as they are. -/
theorem Stands.saved_iff (h : Stands links w t e) (hback : LeadsBack w e) {r : Remote} {length : Nat} {place : ReadPlace} {target : Str}
    (hkind : ¬ IsLink e.kind) (hplace : readPlace links w t e.rel = .ok place) (hlink : ¬ IsLink place.found)
    (htarget : writeTarget links w t r e.rel length = .ok target) : target = place.path ↔ strip e.name = e.name ∧
      ∀ jail dir, w.resolveLogical (rpartition e.rel).1 = .ok (jail, dir) → normalizeRemote links t dir = normalizeRemote links t e.folder := by
  obtain ⟨jail, absPath, hres, hpath⟩ := readPlace_ok hplace hlink
  have hname : '\\' ∉ e.name := (h.leadsBack_iff.1 hback ⟨_, hres⟩).1
  have hc := clean_of_legal h.legal hname
  obtain ⟨js, rest, -, hclean, hfolder, htext⟩ := h.text
  obtain ⟨m, d, hfollow, hdir, hk⟩ := h.place
  rw [hfolder] at hfollow
  obtain ⟨ds, hds, hdsc, hentry⟩ := normalizeRemote_concat hclean hc hfollow hdir (hk hname) hkind
  have hread : place.path = pathText (ds ++ [e.name]) := by rw [hpath, hback jail absPath hres, htext, hentry]
  obtain ⟨-, -, -, -, -, hstrip⟩ := resolveLogical_text hres
  have hrel : slashed e.rel = e.rel := slashed_eq_self fun hb => hstrip (mem_strip (by decide) hb)
  have hput := writeTarget_ok htarget
  rw [hrel, rpartition_of_endsIn (h.ends hname) hc.2.1, if_neg hc.1.1] at hput
  obtain ⟨base, jail', dir, hbase, hdirres, D, hD, hDc, rfl⟩ := putTarget_ok hput
  obtain rfl := sanitized_of_name hc.2.1 hname hbase
  have hparts : pathText (D ++ [strip e.name]) = pathText (ds ++ [e.name]) ↔ D = ds ∧ strip e.name = e.name := by
    constructor
    · intro heq
      have hlist := pathText_injective (clean_concat hDc (clean_sanitized hbase)).names (clean_concat hdsc hc).names heq
      obtain ⟨hD', hlast⟩ := List.append_inj' hlist rfl
      exact ⟨hD', (List.cons.inj hlast).1⟩
    · rintro ⟨rfl, hsame⟩
      rw [hsame]
  rw [hread, hparts]
  constructor
  · rintro ⟨rfl, hsame⟩
    refine ⟨hsame, fun jail'' dir' hres' => ?_⟩
    obtain ⟨-, rfl⟩ := Prod.mk.inj (Except.ok.inj (hdirres.symm.trans hres'))
    rw [hD, hfolder, hds]
  · rintro ⟨hsame, hall⟩
    have hfolders := hall jail' dir hdirres
    rw [hD, hfolder, hds] at hfolders
    exact ⟨pathText_injective hDc.names hdsc.names hfolders, hsame⟩

/-- **Files acts on what it lists**: the rel of the entry resolves to its path or to none, and what is saved under it is written
where it is read. -/
structure ActsOnEntry (links : Nat) (w : Site) (t : Tree) (r : Remote) (length : Nat) (e : Found) : Prop where
  leadsBack : LeadsBack w e
  saves : SavesWhatItReads links w t r length e

theorem Stands.acts_iff (h : Stands links w t e) {r : Remote} {length : Nat} :
    ActsOnEntry links w t r length e ↔ (Accepted w e → '\\' ∉ e.name ∧ SameNames w e) ∧ SavedInPlace links w t r length e := by
  constructor
  · intro hacts
    refine ⟨h.leadsBack_iff.1 hacts.leadsBack, fun hkind place target hplace hlink htarget => ?_⟩
    exact (h.saved_iff hacts.leadsBack hkind hplace hlink htarget).1 (hacts.saves hkind place target hplace hlink htarget)
  · rintro ⟨hnamed, hsaved⟩
    have hback := h.leadsBack_iff.2 hnamed
    refine ⟨hback, fun hkind place target hplace hlink htarget => ?_⟩
    exact (h.saved_iff hback hkind hplace hlink htarget).2 (hsaved hkind place target hplace hlink htarget)

/-! ## The entries of a listing -/

theorem listdirAttr_ok {path : Str} {attrs : List (Name × Kind)} (h : listdirAttr links t path = .ok attrs) :
    ∃ m d, follow t.shape links [] (split '/' path) = some (m, d) ∧ t.shape d = some .dir ∧ ∀ a ∈ attrs, t.shape (d ++ [a.1]) = some a.2 := by
  unfold listdirAttr at h
  split at h
  · rename_i m d hfollow
    split at h
    · rename_i hdir
      obtain rfl := Except.ok.inj h
      refine ⟨m, d, hfollow, hdir, fun a ha => ?_⟩
      obtain ⟨name, -, hname⟩ := List.mem_filterMap.1 ha
      obtain ⟨kind, hkind, rfl⟩ := Option.map_eq_some_iff.1 hname
      exact hkind
    · cases h
  · cases h

/-- An entry of a listing stands in its folder, and its rel is that of its path. -/
theorem stands_of_listDir {rel : Str} {out : Listing} (h : listDir links w t rel = .ok out) (he : e ∈ out.entries) :
    Stands links w t e ∧ ('\\' ∉ e.name → ∃ rest, Clean rest ∧ e.rel = join '/' rest ∧
      ∀ jail, w.jailPath = .ok jail → relOf (posixJoin e.folder e.name) jail = .ok e.rel) := by
  obtain ⟨_, -, h⟩ := except_bind_eq_ok.1 h
  obtain ⟨⟨jail, absPath⟩, hres, h⟩ := except_bind_eq_ok.1 h
  obtain ⟨path, hpath, h⟩ := except_bind_eq_ok.1 h
  obtain ⟨kind, -, h⟩ := except_bind_eq_ok.1 h
  obtain ⟨⟨last, kind'⟩, hfollow, h⟩ := except_bind_eq_ok.1 h
  obtain ⟨_, -, h⟩ := except_bind_eq_ok.1 h
  obtain ⟨attrs, hattrs, h⟩ := except_bind_eq_ok.1 h
  obtain ⟨entries, hentries, h⟩ := except_bind_eq_ok.1 h
  obtain ⟨_, -, h⟩ := except_bind_eq_ok.1 h
  obtain ⟨_, -, h⟩ := except_bind_eq_ok.1 h
  obtain rfl := Except.ok.inj h
  have hmem : e ∈ entries := (List.perm_insertionSort _ entries).subset he
  obtain ⟨⟨name, k⟩, hattr, hentry⟩ := exists_of_mem_mapM hentries hmem
  obtain ⟨escaped, -, hentry⟩ := except_bind_eq_ok.1 hentry
  obtain rfl := Except.ok.inj hentry
  obtain ⟨hjail, cs, rfl, hcs⟩ := resolveLogical_ok hres
  have hin : InJail w last := inJail_of_followOrRaise hjail (inJail_of_assert hcs hpath) hfollow
  obtain ⟨m, d, hm, hdir, hkinds⟩ := listdirAttr_ok hattrs
  have hk : t.shape (d ++ [name]) = some k := hkinds _ (List.mem_of_mem_take hattr)
  have hlegal : Legal name := Tree.legal_of_shape (by rw [hk]; rfl) name (by simp)
  obtain ⟨js, rest, hjs, rfl, hclean⟩ := hin
  obtain rfl := Except.ok.inj (hjail.symm.trans hjs)
  have hrel : '\\' ∉ name → Clean (js ++ (rest ++ [name])) ∧ posixJoin (pathText (js ++ rest)) name = pathText (js ++ (rest ++ [name])) ∧
      (relOf (posixNorm (slashed (posixJoin (pathText (js ++ rest)) name))) (pathText js)).toOption.getD name = join '/' (rest ++ [name]) := by
    intro hname
    have hcc := clean_concat hclean (clean_of_legal hlegal hname)
    have hjoin := posixJoin_pathText hclean.names hlegal.2.1
    rw [List.append_assoc] at hcc hjoin
    refine ⟨hcc, hjoin, ?_⟩
    rw [hjoin, slashed_eq_self (notMem_pathText hcc), posixNorm_pathText hcc, relOf_pathText hcc]
    rfl
  refine ⟨⟨⟨js, rest, hjs, rfl, hclean⟩, hlegal, ⟨m, d, hm, hdir, fun _ => hk⟩, fun hname => ?_⟩, fun hname => ?_⟩
  · change EndsIn (Option.getD _ _) name
    rw [(hrel hname).2.2]
    by_cases hnil : rest = []
    · subst hnil
      exact Or.inl rfl
    · exact Or.inr ⟨join '/' rest, join_append '/' hnil (by simp)⟩
  · obtain ⟨hcc, hjoin, heq⟩ := hrel hname
    refine ⟨rest ++ [name], fun c hc => hcc c (List.mem_append_right _ hc), heq, fun jail' hjail' => ?_⟩
    obtain rfl := Except.ok.inj (hjs.symm.trans hjail')
    change relOf (posixJoin (pathText (js ++ rest)) name) (pathText js) = .ok (Option.getD _ _)
    rw [heq, hjoin, relOf_pathText hcc]

theorem sameNames_iff {rest : List Name} (h : Stands links w t e) (hclean : Clean rest) (hrel : e.rel = join '/' rest)
    (hpath : ∀ jail, w.jailPath = .ok jail → relOf (posixJoin e.folder e.name) jail = .ok e.rel) : SameNames w e ↔ strip e.rel = e.rel := by
  obtain ⟨js, -, hjail, -⟩ := h.inJail
  have hsegs : ∀ c ∈ relSegs (strip e.rel), c ≠ [] ∧ '/' ∉ c := by
    intro c hc
    obtain ⟨hmem, hkept⟩ := List.mem_filter.1 hc
    exact ⟨(of_decide_eq_true hkept).1, notMem_of_mem_split hmem⟩
  constructor
  · intro hsame
    have heq := Except.ok.inj ((hpath _ hjail).symm.trans (hsame _ hjail))
    rw [hrel] at heq hsegs ⊢
    exact (relSegs_strip_iff hclean).1 (pathText_injective hclean.names hsegs (congrArg (List.cons '/') heq)).symm
  · intro hstrip jail hj
    rw [hpath jail hj, hstrip, hrel, relSegs_join hclean]

/-! ## The hits of a search -/

section Search
variable {content : Str → Content} {q : Query}

/-- What is searched and found stands in its folder. -/
def AllStand (links : Nat) (w : Site) (t : Tree) (s : Searched) : Prop := ∀ e ∈ s.hits, Stands links w t e

theorem listdirNames_ok {path : Str} {names : List Name} (h : listdirNames links t path = .ok names) :
    ∃ m d, follow t.shape links [] (split '/' path) = some (m, d) ∧ t.shape d = some .dir ∧ names = t.listdir d := by
  unfold listdirNames at h
  split at h
  · rename_i m d hfollow
    split at h
    · rename_i hdir
      exact ⟨m, d, hfollow, hdir, (Except.ok.inj h).symm⟩
    · cases h
  · cases h

/-- What `lstat` finds at a name of a folder is what the folder has under it. -/
theorem lstat_child {cs d : List Name} {m : Nat} {c : Name} {k : Kind} (hcs : Clean cs) (hc : Entry c ∧ '/' ∉ c ∧ '\\' ∉ c)
    (hfollow : follow t.shape links [] (split '/' (pathText cs)) = some (m, d)) (hdir : t.shape d = some .dir)
    (h : lstat links t (posixNorm (posixJoin (pathText cs) c)) = .ok k) : t.shape (d ++ [c]) = some k := by
  have hcc := clean_concat hcs hc
  have hleads : LeadsTo t.shape links [] cs d := ⟨m, by rwa [follow_pathText Tree.shape_root hcs] at hfollow⟩
  have hplace : entryAt t.shape links (pathText (cs ++ [c])) = if (t.shape (d ++ [c])).isSome then some (d ++ [c]) else none := by
    rw [entryAt, split_pathText (by simp) hcc.noSlash, lplace_skip Tree.shape_root (by simp), hleads.lplace hdir hc.1]
  rw [child_text hcs hc, lstat, hplace] at h
  split at h
  · rename_i kind hkind
    obtain rfl := Except.ok.inj h
    split at hkind
    · exact hkind
    · cases hkind
  · cases h

theorem visit_stands {inner : Str → Str → Searched → Except FilesError Searched} {jail path childRel : Str} {names : List Name} {name : Name}
    {s s' : Searched} (hpath : InJail w path) (hnames : listdirNames links t path = .ok names) (hname : name ∈ names)
    (hinner : ∀ child rel m m', (∃ cs, child = pathText cs ∧ Clean cs) → AllStand links w t m → inner child rel m = .ok m' → AllStand links w t m')
    (hs : AllStand links w t s) (h : visit links w t content q inner jail path childRel s name = .ok s') : AllStand links w t s' := by
  unfold visit at h
  split at h
  · obtain rfl := Except.ok.inj h
    exact hs
  · split at h
    · obtain rfl := Except.ok.inj h
      exact hs
    · simp only at h
      split at h
      · obtain rfl := Except.ok.inj h
        exact hs
      · rename_i kind hkind
        obtain ⟨escaped, -, h⟩ := except_bind_eq_ok.1 h
        obtain ⟨m, d, hfollow, hdir, rfl⟩ := listdirNames_ok hnames
        have hlegal : Legal name := Tree.legal_of_shape (Tree.mem_listdir.1 hname) name (by simp)
        have hat : Stands links w t ⟨path, name, if childRel ≠ [] then childRel ++ lit "/" ++ name else name, kind, escaped, none⟩ := by
          refine ⟨hpath, hlegal, ⟨m, d, hfollow, hdir, fun hback => ?_⟩, fun _ => ?_⟩
          · obtain ⟨js, rest, -, rfl, hclean⟩ := hpath
            exact lstat_child hclean (clean_of_legal hlegal hback) hfollow hdir hkind
          · change EndsIn (if _ then _ else _) name
            split
            · exact Or.inr ⟨childRel, by rw [List.append_assoc]; rfl⟩
            · exact Or.inl rfl
        generalize hhit : (⟨path, name, if childRel ≠ [] then childRel ++ lit "/" ++ name else name, kind, escaped, none⟩ : Found) = hit at h hat
        have hmid : AllStand links w t ⟨s.hits ++ (if hasInfix q.needle (lower name) then [hit] else []) ++
            contentHits content q hit (posixNorm (posixJoin path name)) s.contentN, s.truncated, s.scanned + 1,
            s.contentN + (contentHits content q hit (posixNorm (posixJoin path name)) s.contentN).length⟩ := by
          intro e he
          rcases List.mem_append.1 he with he | he
          · rcases List.mem_append.1 he with he | he
            · exact hs e he
            · split at he
              · exact List.mem_singleton.1 he ▸ hat
              · exact absurd he List.not_mem_nil
          · unfold contentHits at he
            split at he
            · obtain ⟨l, -, rfl⟩ := List.mem_map.1 he
              exact ⟨hat.inJail, hat.legal, hat.place, hat.ends⟩
            · exact absurd he List.not_mem_nil
        split at h
        · obtain ⟨js, rest, -, rfl, -⟩ := hpath
          exact hinner _ _ _ _ (posixNorm_abs (slash_posixJoin (slash_pathText _))) hmid h
        · obtain rfl := Except.ok.inj h
          exact hmid

theorem walk_stands {jail : Str} (hjail : w.jailPath = .ok jail) : ∀ {level : Nat} {absPath childRel : Str} {s s' : Searched},
    (∃ cs, absPath = pathText cs ∧ Clean cs) → AllStand links w t s → walk links w t content q jail level absPath childRel s = .ok s' →
    AllStand links w t s' := by
  intro level
  induction level with
  | zero =>
    intro absPath childRel s s' _ hs h
    obtain rfl := Except.ok.inj h
    exact hs
  | succ level ih =>
    rintro absPath childRel s s' ⟨cs, rfl, hcs⟩ hs h
    unfold walk at h
    split at h
    · obtain rfl := Except.ok.inj h
      exact hs
    · obtain ⟨path, hpath, h⟩ := except_bind_eq_ok.1 h
      obtain ⟨kind, -, h⟩ := except_bind_eq_ok.1 h
      obtain ⟨followed, hfollow, h⟩ := except_bind_eq_ok.1 h
      cases followed with
      | none =>
        obtain rfl := Except.ok.inj h
        exact hs
      | some p =>
        have hin : InJail w p.1 := inJail_of_follow hjail (inJail_of_assert hcs hpath) hfollow
        simp only at h
        split at h
        · obtain rfl := Except.ok.inj h
          exact hs
        · obtain ⟨names, hnames, h⟩ := except_bind_eq_ok.1 h
          refine except_foldlM_keeps (fun name hname m m' hm hstep => ?_) hs h
          exact visit_stands hin hnames hname (fun child rel m m' hchild hm hinner => ih hchild hm hinner) hm hstep

theorem stands_of_search {query rel : Str} {contents allowSecrets : Bool} {out : SearchResult}
    (h : search links w t content query rel contents allowSecrets = .ok out) (he : e ∈ out.entries) : Stands links w t e := by
  obtain ⟨_, -, h⟩ := except_bind_eq_ok.1 h
  obtain ⟨_, -, h⟩ := except_bind_eq_ok.1 h
  obtain ⟨_, -, h⟩ := except_bind_eq_ok.1 h
  obtain ⟨⟨jail, absPath⟩, hres, h⟩ := except_bind_eq_ok.1 h
  obtain ⟨s, hs, h⟩ := except_bind_eq_ok.1 h
  obtain ⟨_, -, h⟩ := except_bind_eq_ok.1 h
  obtain ⟨_, -, h⟩ := except_bind_eq_ok.1 h
  obtain rfl := Except.ok.inj h
  obtain ⟨hjail, hpath⟩ := resolveLogical_ok hres
  exact walk_stands hjail hpath (fun e he => absurd he List.not_mem_nil) hs e he

end Search

end Entries

/-- **What Files lists is what Files acts on**, for an entry of `list_dir` whose name has no backslash and whose rel has no blank at
its ends, and for one of `search` whose rel has the names of its path; a text is saved where it was read, if neither `sanitize_basename`
changes the name nor `parse_rel` the folder. -/
theorem actsOnEntry_iff (links : Nat) (w : Site) (t : Tree) (r : Remote) (length : Nat) :
    (∀ rel out, listDir links w t rel = .ok out → ∀ e ∈ out.entries, e.escaped = false →
      (ActsOnEntry links w t r length e ↔
        (Accepted w e → '\\' ∉ e.name ∧ strip e.rel = e.rel) ∧ SavedInPlace links w t r length e)) ∧
    ∀ content query rel contents allowSecrets out, search links w t content query rel contents allowSecrets = .ok out →
      ∀ e ∈ out.entries, e.escaped = false →
        (ActsOnEntry links w t r length e ↔ (Accepted w e → '\\' ∉ e.name ∧ SameNames w e) ∧ SavedInPlace links w t r length e) := by
  constructor
  · intro rel out h e he _
    obtain ⟨hstands, hrel⟩ := stands_of_listDir h he
    have hnamed : ('\\' ∉ e.name ∧ SameNames w e) ↔ ('\\' ∉ e.name ∧ strip e.rel = e.rel) := by
      refine and_congr_right fun hback => ?_
      obtain ⟨rest, hclean, heq, hpath⟩ := hrel hback
      exact sameNames_iff hstands hclean heq hpath
    rw [hstands.acts_iff, hnamed]
  · intro content query rel contents allowSecrets out h e he _
    exact (stands_of_search h he).acts_iff

/-- A folder with a file, and one with a name that ends in a blank beside it. -/
def blankHome : Tree where
  nodes := homeNodes [([lit "docs", lit "key"], .other), ([lit "docs", lit "key "], .other)]
  nodup := by decide
  legal := by decide

def plainKey : Found := ⟨lit "/home/pi/docs", lit "key", lit "docs/key", .other, false, none⟩

def blankKey : Found := ⟨lit "/home/pi/docs", lit "key ", lit "docs/key ", .other, false, none⟩

def blankListing : Listing :=
  ⟨lit "/home/pi", lit "docs", lit "/home/pi/docs", false, [plainKey, blankKey], [lit "docs"]⟩

theorem plainKey_acts : listDir 40 piHome blankHome (lit "docs") = .ok blankListing ∧ ActsOnEntry 40 piHome blankHome openHost 3 plainKey := by
  have hok : listDir 40 piHome blankHome (lit "docs") = .ok blankListing := by decide +kernel
  have hmem : plainKey ∈ blankListing.entries := List.mem_cons_self
  refine ⟨hok, (((actsOnEntry_iff 40 piHome blankHome openHost 3).1 _ _ hok plainKey hmem rfl).2
    ⟨fun _ => by decide, fun _ place target _ _ _ => ⟨by decide, fun jail dir hdir => ?_⟩⟩)⟩
  have hres : piHome.resolveLogical (rpartition plainKey.rel).1 = .ok (lit "/home/pi", lit "/home/pi/docs") := by decide +kernel
  obtain ⟨-, rfl⟩ := Prod.mk.inj (Except.ok.inj (hres.symm.trans hdir))
  rfl

/-- The entry `key ` resolves to the path of `key`. -/
theorem blankKey_leads_to_key : ¬ ∀ (links : Nat) (w : Site) (t : Tree) (r : Remote) (length : Nat) (rel : Str) (out : Listing),
    listDir links w t rel = .ok out → ∀ e ∈ out.entries, e.escaped = false → ActsOnEntry links w t r length e := by
  intro h
  have hok : listDir 40 piHome blankHome (lit "docs") = .ok blankListing := by decide +kernel
  have hres : piHome.resolveLogical blankKey.rel = .ok (lit "/home/pi", lit "/home/pi/docs/key") := by decide +kernel
  have hmem : blankKey ∈ blankListing.entries := List.mem_cons_of_mem plainKey List.mem_cons_self
  have hback := (h 40 piHome blankHome openHost 3 _ _ hok blankKey hmem rfl).leadsBack _ _ hres
  exact absurd hback (by decide)

end PiHerder.Files
