import PiHerder.Backup.OwnershipAgree
import PiHerder.Lib.Files

/-!
# A folder that is backed up and restored

A backup mirrors the folder, touches its marker and writes the ownership manifest beside it; a restore copies all but the
manifest back and applies it (`services/backup.py`, `services/backup_restore.py`).

| here | there |
| --- | --- |
| `backupSource` | `run_backup`, once rsync has copied a source (659–688) |
| `stampOwnershipManifest` | `_stamp_ownership_manifest` (760–783) |
| `collectLocalTree`, `parseFindOutput` | `collect_local_tree`, `parse_find_output` (`backup_ownership.py:59–108`) |
| `writeManifest`, `loadManifest` | `write_manifest`, `load_manifest` (138–165) |
| `restoreBackupSource` | `restore_backup_source` (167–278), not a dry run and without a pull |

`mirror` is `rsync -aHz --delete`, and `rsyncBack` is `rsync -a --exclude`; what they leave of owners is open (`landed`).
`find` prints what its `-printf` says, and `json.loads` reads what `json.dumps` wrote.
-/
namespace PiHerder.Backup
open Lib Lib.Str Lib.FileTree

/-! ## The folder -/

/-- A folder: its nodes and their owners, by their paths from it, and these paths in the order a walk lists them. -/
structure SourceTree (β : Type) where
  node : Files β
  attr : Attrs
  places : List (List Name)
  mem_places : ∀ q, q ∈ places ↔ (node q).isSome = true
  root : node [] = some .dir
  closed : ∀ q c, (node (q ++ [c])).isSome = true → node q = some .dir
  named : ∀ q ∈ places, ∀ c ∈ q, FileTree.Entry c ∧ '/' ∉ c ∧ '\x00' ∉ c
  owned : ∀ q ∈ places, (attr q).uid < maxId ∧ (attr q).gid < maxId ∧ (attr q).mode ≤ 0o7777

abbrev manifestName : Name := lit ".piherder-ownership.json"

abbrev manifestTmp : Name := lit ".piherder-ownership.json.tmp"

abbrev lastBackup : Name := lit ".last_backup"

/-- `path.relative_to(base).as_posix()`, with `""` for the folder. -/
def relText (q : List Name) : Str := join '/' q

variable {β : Type}

/-! ## The listing -/

def entry (path : Str) (uid gid : Nat) (mode : Str) : JsonValue :=
  .obj [(lit "path", .str path), (lit "uid", .int uid), (lit "gid", .int gid), (lit "mode", .str mode)]

def collectLocalTree (T : SourceTree β) : List JsonValue :=
  T.places.filterMap fun q =>
    if '\n' ∈ relText q ∨ '\x00' ∈ relText q then none else some (entry (relText q) (T.attr q).uid (T.attr q).gid (octal (T.attr q).mode))

/-- `-type d -o -type f -o -type l`. -/
def isFound : Option (Node β) → Bool
  | some .dir => true
  | some (.file _) => true
  | some (.link _) => true
  | _ => false

/-- `%P`, `%U`, `%G` and `%m`. -/
def findFields (T : SourceTree β) (q : List Name) : List Str :=
  [relText q, ofNat (T.attr q).uid, ofNat (T.attr q).gid, Nat.toDigits 8 (T.attr q).mode]

def findOutput (T : SourceTree β) : Str :=
  ((T.places.filter fun q => isFound (T.node q)).flatMap (findFields T)).flatMap fun field => field ++ ['\x00']

/-- The loop over the fields, four at a time; `.error` where `int` raises. -/
def findEntries (py : Python) : List Str → Except Unit (List JsonValue)
  | path :: uid :: gid :: mode :: rest =>
    match safeRel py (.str path), canonicalMode py (.str mode) false with
    | _, .error u => .error u
    | none, _ => findEntries py rest
    | _, .ok none => findEntries py rest
    | some cleaned, .ok (some mode) =>
      match intText 10 uid, intText 10 gid with
      | some uid, some gid =>
        if uid < 0 ∨ gid < 0 ∨ uid > maxId ∨ gid > maxId then findEntries py rest
        else (findEntries py rest).map (entry cleaned uid.toNat gid.toNat mode :: ·)
      | _, _ => .error ()
  | _ => .ok []

def parseFindOutput (py : Python) (raw : Str) : Except Unit (List JsonValue) :=
  let parts := split '\x00' raw
  let parts := if parts.getLast? = some [] then parts.dropLast else parts
  if parts.length % 4 ≠ 0 then .error () else findEntries py parts

/-- The folder is on this machine, or a command on its host is asked; `none` where that fails. -/
inductive Listing
  | here
  | asked (answer : Option Str)

def Listing.collect (py : Python) (T : SourceTree β) : Listing → Except Unit (List JsonValue)
  | .here => .ok (collectLocalTree T)
  | .asked none => .error ()
  | .asked (some answer) => parseFindOutput py answer

/-- The command prints what it finds. -/
def Listing.Of (T : SourceTree β) : Listing → Prop
  | .asked (some answer) => answer = findOutput T
  | _ => True

/-- What is listed. -/
def Listing.lists (T : SourceTree β) : Listing → List (List Name)
  | .here => T.places
  | .asked _ => T.places.filter fun q => isFound (T.node q)

/-! ## The backup -/

/-- The text of a manifest, and what is read from a file: `.error` where the schema or the text is none. -/
structure ManifestText (β : Type) where
  dumps : List JsonValue → β
  loads : β → Except Unit (List JsonValue)
  loads_dumps : ∀ entries, loads (dumps entries) = .ok entries

/-- The machines of a backup and a restore: what an empty file holds, whether a special file takes a text, whether
`chmod` keeps the set-id bits of a directory. -/
structure Machines (β : Type) where
  py : Python
  text : ManifestText β
  empty : β
  opens : Bool
  keepsSetId : Bool

/-- The tree of the copy, and whether the manifest is written. -/
def writeManifest (w : Machines β) (f : Files β) (d : List Name) (entries : List JsonValue) : Files β × Bool :=
  match write w.opens maxLinks f d manifestTmp (w.text.dumps entries) with
  | none => (f, false)
  | some f =>
    match rename f d manifestTmp manifestName with
    | none => (f, false)
    | some f => (f, true)

/-- A failure is a warning. -/
def stampOwnershipManifest (w : Machines β) (f : Files β) (d : List Name) (T : SourceTree β) (listing : Listing) : Files β × Bool :=
  match listing.collect w.py T with
  | .error _ => (f, false)
  | .ok entries => writeManifest w f d entries

/-- `none` where the marker cannot be touched: the source has an error then. -/
def backupSource (w : Machines β) (disk : Files β) (d : List Name) (T : SourceTree β) (listing : Listing) : Option (Files β × Bool) :=
  (touch w.empty maxLinks (mirror disk d T.node) d lastBackup).map fun f => stampOwnershipManifest w f d T listing

/-! ## The restore -/

/-- What the copy has at `d`, but for the excluded name, goes to `s`; what is there besides stays. -/
def rsyncBack (copy : Files β) (d : List Name) (host : Files β) (s : List Name) : Files β := fun p =>
  if s <+: p ∧ manifestName ∉ p.drop s.length then (copy (d ++ p.drop s.length)).orElse fun _ => host p else host p

def loadManifest (w : Machines β) (copy : Files β) (d : List Name) : Option (Except Unit (List JsonValue)) :=
  match follow copy.shape maxLinks d [manifestName] with
  | some (_, p) =>
    match copy p with
    | some (.file content) => some (w.text.loads content)
    | _ => none
  | none => none

/-- What `restore_backup_source` says of the owners. The restore is ok where they are skipped or applied. -/
inductive OwnershipStep
  | skipped
  | broken
  | failed
  | applied (attrs : Attrs)

def ownershipStep (w : Machines β) (copy : Files β) (d : List Name) (host : Files β) (root : List Name) (landed : Attrs) : OwnershipStep :=
  match loadManifest w copy d with
  | none => .skipped
  | some (.error _) => .broken
  | some (.ok entries) =>
    match renderApplyScript w.py entries with
    | .error _ => .failed
    | .ok lines =>
      match runScript w.keepsSetId host.shape root landed lines with
      | none => .failed
      | some attrs => .applied attrs

/-- `root` is the path of the folder on its host, `s` its place. -/
def restoreBackupSource (w : Machines β) (copy : Files β) (d : List Name) (host : Files β) (root s : List Name) (landed : Attrs) : Files β × OwnershipStep :=
  let host := rsyncBack copy d host s
  (host, ownershipStep w copy d host root landed)

/-! ## What the copy holds -/

/-- The names that are written to beside the tree, or left out of a restore. -/
def Reserved (q : List Name) : Prop := manifestName ∈ q ∨ q.head? = some lastBackup ∨ q.head? = some manifestTmp

/-- The folder has no link of its own where the marker and the manifest are written. -/
structure SourceTree.Plain (T : SourceTree β) : Prop where
  marker : ∀ dest, T.node [lastBackup] ≠ some (.link dest)
  tmp : ∀ dest, T.node [manifestTmp] ≠ some (.link dest)

/-- At `d` is the tree, but for the reserved names. -/
def Holds (d : List Name) (T : SourceTree β) (f : Files β) : Prop := ∀ q, ¬ Reserved q → f (d ++ q) = T.node q

section copy
variable {w : Machines β} {disk f : Files β} {d : List Name} {T : SourceTree β} {listing : Listing}

theorem not_reserved_nil : ¬ Reserved [] := by
  rintro (h | h | h) <;> cases h

theorem Holds.update (h : Holds d T f) {c : Name} (hc : Reserved [c]) (node : Option (Node β)) : Holds d T (Function.update f (d ++ [c]) node) := by
  intro q hq
  rw [Function.update_of_ne, h q hq]
  exact fun heq => hq (List.append_cancel_left heq ▸ hc)

theorem Holds.dir (h : Holds d T f) : f d = some .dir := by
  have hd := h [] not_reserved_nil
  rwa [List.append_nil, T.root] at hd

theorem update_other (f : Files β) {a b : Name} (hab : a ≠ b) (node : Option (Node β)) : Function.update f (d ++ [a]) node (d ++ [b]) = f (d ++ [b]) := by
  refine Function.update_of_ne (fun heq => hab ?_) _ _
  exact (List.cons.inj (List.append_cancel_left heq)).1.symm

/-- The manifest is written beside the tree; where it is, it is the entries, or no file. -/
theorem writeManifest_holds (h : Holds d T f) (hlink : ∀ dest, f (d ++ [manifestTmp]) ≠ some (.link dest)) (entries : List JsonValue) :
    Holds d T (writeManifest w f d entries).1 ∧ ((writeManifest w f d entries).2 = true →
      (writeManifest w f d entries).1 (d ++ [manifestName]) = some (.file (w.text.dumps entries)) ∨ (writeManifest w f d entries).1 (d ++ [manifestName]) = some .special) := by
  have htmp : Reserved [manifestTmp] := .inr (.inr rfl)
  have hname : Reserved [manifestName] := .inl (List.mem_singleton_self _)
  unfold writeManifest
  cases hwrite : write w.opens maxLinks f d manifestTmp (w.text.dumps entries) with
  | none => exact ⟨h, fun hno => (nomatch hno)⟩
  | some f₁ =>
    obtain ⟨node, hnode, rfl⟩ := write_entry h.dir (by decide) hlink hwrite
    have h₁ := h.update htmp (some node)
    simp only
    cases hrename : rename (Function.update f (d ++ [manifestTmp]) (some node)) d manifestTmp manifestName with
    | none => exact ⟨h₁, fun hno => (nomatch hno)⟩
    | some f₂ =>
      obtain rfl := rename_entry (Function.update_self _ _ _) hrename
      refine ⟨(h₁.update htmp none).update hname _, fun _ => ?_⟩
      simp only [Function.update_self]
      rcases hnode with rfl | rfl
      · exact .inl rfl
      · exact .inr rfl

/-- **The copy of a backup** is the tree, but for the reserved names. -/
theorem backupSource_holds (hT : T.Plain) {copy : Files β} {stamped : Bool} (h : backupSource w disk d T listing = some (copy, stamped)) :
    Holds d T copy ∧ (stamped = true → ∃ entries, listing.collect w.py T = .ok entries ∧
      (copy (d ++ [manifestName]) = some (.file (w.text.dumps entries)) ∨ copy (d ++ [manifestName]) = some .special)) := by
  unfold backupSource at h
  obtain ⟨f, htouch, hstamp⟩ := Option.map_eq_some_iff.1 h
  have hmirror : Holds d T (mirror disk d T.node) := fun q _ => mirror_below disk d T.node q
  have hmarker : Reserved [lastBackup] := .inr (.inl rfl)
  obtain ⟨hf, htmp⟩ : Holds d T f ∧ f (d ++ [manifestTmp]) = T.node [manifestTmp] := by
    rcases touch_entry hmirror.dir (by decide) (fun dest => by rw [mirror_below]; exact hT.marker dest) htouch with rfl | rfl
    · exact ⟨hmirror, mirror_below _ _ _ _⟩
    · exact ⟨hmirror.update hmarker _, by rw [update_other _ (by decide), mirror_below]⟩
  unfold stampOwnershipManifest at hstamp
  cases hcollect : listing.collect w.py T with
  | error u =>
    rw [hcollect] at hstamp
    cases hstamp
    exact ⟨hf, fun hno => (nomatch hno)⟩
  | ok entries =>
    rw [hcollect] at hstamp
    obtain ⟨hholds, hwritten⟩ := @writeManifest_holds _ w f d T hf (fun dest => by rw [htmp]; exact hT.tmp dest) entries
    simp only at hstamp
    rw [hstamp] at hholds hwritten
    exact ⟨hholds, fun hyes => ⟨entries, rfl, hwritten hyes⟩⟩

end copy

/-! ## What the restore brings back -/

section restore
variable {w : Machines β} {copy host : Files β} {d s : List Name} {T : SourceTree β}

/-- There is nothing in the folder. -/
structure Emptied (host : Files β) (s : List Name) : Prop where
  dir : host s = some .dir
  empty : ∀ q, q ≠ [] → host (s ++ q) = none

/-- **The restored folder** holds what the copy does, but for the manifest's name. -/
theorem rsyncBack_holds (h : Holds d T copy) (hempty : Emptied host s) : Holds s T (rsyncBack copy d host s) := by
  intro q hq
  unfold rsyncBack
  rw [List.drop_left, if_pos ⟨List.prefix_append s q, fun hmem => hq (.inl hmem)⟩, h q hq]
  cases hnode : T.node q with
  | some node => rfl
  | none =>
    refine hempty.empty q fun hnil => ?_
    rw [hnil, T.root] at hnode
    cases hnode

end restore

/-! ## Numbers as they are listed -/

/-- Every character is a digit of this base. -/
def Digits (base : Nat) (s : Str) : Prop := ∀ c ∈ s, isDigit c = true ∧ c.toNat - '0'.toNat < base

theorem not_digit {c x : Char} (hc : isDigit c = true) (hx : isDigit x = false) : c ≠ x := by
  rintro rfl
  rw [hc] at hx
  cases hx

theorem isSpace_of_digit {c : Char} (hc : isDigit c = true) : isSpace c = false := by
  unfold isDigit at hc
  simp only [decide_eq_true_eq, Char.le_def, UInt32.le_iff_toNat_le] at hc
  have hrange : 48 ≤ c.toNat ∧ c.toNat ≤ 57 := hc
  unfold isSpace
  simp
  omega

/-- `int` of a text of digits. -/
theorem intText_digits {base : Nat} {s : Str} (hne : s ≠ []) (hs : Digits base s) (hlen : base = 10 → s.length ≤ 4300) :
    intText base s = some ((s.foldl (fun n c => n * base + (c.toNat - '0'.toNat)) 0 : Nat) : Int) := by
  have hstrip : strip s = s :=
    strip_eq_self (fun c hc => isSpace_of_digit (hs c (List.mem_of_mem_head? hc)).1) fun c hc => isSpace_of_digit (hs c (List.mem_of_mem_getLast? hc)).1
  have hdigits : intDigits base s = some (s.foldl (fun n c => n * base + (c.toNat - '0'.toNat)) 0) := by
    have hsplit : split '_' s = [s] := split_of_notMem fun h => not_digit (hs _ h).1 (by decide) rfl
    unfold intDigits
    simp only [hsplit, List.any_cons, List.any_nil, Bool.or_false, List.flatten_cons, List.flatten_nil, List.append_nil]
    rw [if_neg (by simpa using hne), if_neg (by rintro ⟨hbase, hlong⟩; exact absurd (hlen hbase) (by omega)), if_pos]
    rw [List.all_eq_true]
    intro c hc
    rw [(hs c hc).1, decide_eq_true (hs c hc).2]
    rfl
  have hno : ∀ {x : Char}, isDigit x = false → x ∉ s := fun hx hmem => not_digit (hs _ hmem).1 hx rfl
  unfold intText
  rw [hstrip]
  simp only
  -- a digit is no sign, and no prefix has digits only
  split
  · exact absurd List.mem_cons_self (hno (by decide))
  · exact absurd List.mem_cons_self (hno (by decide))
  · simp only [Bool.false_eq_true, if_false]
    split
    · exact absurd (List.mem_cons_of_mem _ List.mem_cons_self) (hno (x := 'o') (by decide))
    · exact absurd (List.mem_cons_of_mem _ List.mem_cons_self) (hno (x := 'O') (by decide))
    · exact absurd (List.mem_cons_of_mem _ List.mem_cons_self) (hno (x := 'o') (by decide))
    · exact absurd (List.mem_cons_of_mem _ List.mem_cons_self) (hno (x := 'O') (by decide))
    · rw [hdigits]
      rfl

theorem intText_ofNat {n : Nat} (h : n < maxId) : intText 10 (ofNat n) = some (n : Int) := by
  have hlength : (ofNat n).length ≤ 4300 := ((Nat.length_toDigits_le_iff (by omega) (by omega)).2 (Nat.lt_of_lt_of_le h (by decide))).trans (by decide : 10 ≤ 4300)
  have hne : ofNat n ≠ [] := Nat.toDigits_ne_nil
  rw [intText_digits hne (fun c hc => ?_) fun _ => hlength]
  · exact congrArg (fun n : Nat => some (n : Int)) (int_ofNat n)
  · have hdigits := isdigit_ofNat n
    unfold isdigit at hdigits
    rw [Bool.and_eq_true, List.all_eq_true] at hdigits
    have hc' := hdigits.2 c hc
    refine ⟨hc', ?_⟩
    unfold isDigit at hc'
    simp only [decide_eq_true_eq, Char.le_def, UInt32.le_iff_toNat_le] at hc'
    have hrange : 48 ≤ c.toNat ∧ c.toNat ≤ 57 := hc'
    have hzero : '0'.toNat = 48 := rfl
    omega

/-- An octal digit. -/
theorem octDigit_digits (n : Nat) : isDigit (octDigit n) = true ∧ (octDigit n).toNat - '0'.toNat < 8 := by
  refine ⟨?_, ?_⟩
  · have hall : ∀ k : Fin 8, isDigit (Char.ofNat ('0'.toNat + k.1)) = true := by decide
    exact hall ⟨n % 8, Nat.mod_lt _ (by omega)⟩
  · rw [octDigit_toNat]
    exact Nat.mod_lt _ (by omega)

theorem intText_octal {m : Nat} (h : m ≤ 0o7777) : intText 8 (octal m) = some (m : Int) := by
  have hdigits : Digits 8 (octal m) := by
    intro c hc
    simp only [octal, List.mem_cons, List.not_mem_nil, or_false] at hc
    rcases hc with rfl | rfl | rfl | rfl
    · exact octDigit_digits _
    · exact octDigit_digits _
    · exact octDigit_digits _
    · exact octDigit_digits _
  rw [intText_digits (by unfold octal; simp) hdigits (by omega)]
  exact congrArg (fun n : Nat => some (n : Int)) (ofOctal_octal h)

theorem digits_toDigits (m : Nat) : Digits 8 (Nat.toDigits 8 m) := by
  have hdigit : ∀ k < 8, isDigit (Nat.digitChar k) = true ∧ (Nat.digitChar k).toNat - '0'.toNat < 8 := by decide
  induction m using Nat.strongRecOn with
  | ind m ih =>
    intro c hc
    rw [Nat.toDigits_eq_if (by omega)] at hc
    split at hc
    · rename_i hlt
      obtain rfl := List.mem_singleton.1 hc
      exact hdigit m hlt
    · rcases List.mem_append.1 hc with hc | hc
      · exact ih (m / 8) (Nat.div_lt_self (by omega) (by omega)) c hc
      · obtain rfl := List.mem_singleton.1 hc
        exact hdigit _ (Nat.mod_lt _ (by omega))

theorem intText_toDigits (m : Nat) : intText 8 (Nat.toDigits 8 m) = some (m : Int) := by
  rw [intText_digits Nat.toDigits_ne_nil (digits_toDigits m) (by omega)]
  have hvalue := @Nat.ofDigitChars_toDigits 8 m (by omega) (by omega)
  rw [Nat.ofDigitChars_eq_foldl] at hvalue
  simp only [Nat.mul_comm 8] at hvalue
  exact congrArg (fun n : Nat => some (n : Int)) hvalue

/-! ## The rows of a listing -/

/-- A path with its backslashes read as slashes. -/
def slashed (text : Str) : Str := text.map fun c => if c = '\\' then '/' else c

theorem slashed_of_notMem {text : Str} (h : '\\' ∉ text) : slashed text = text := by
  refine (List.map_congr_left fun c hc => ?_).trans (List.map_id _)
  exact if_neg fun heq : c = '\\' => h (heq ▸ hc)

theorem backslash_notMem_slashed (text : Str) : '\\' ∉ slashed text := by
  intro h
  obtain ⟨c, -, hc⟩ := List.mem_map.1 h
  split at hc
  · cases hc
  · rename_i hne
    exact hne hc

theorem eq_dot_of_slashed {text : Str} (h : slashed text = lit ".") : text = lit "." := by
  cases text with
  | nil => exact absurd h (by decide)
  | cons c r =>
    obtain ⟨hc, hr⟩ := List.cons.inj h
    have hc : (if c = '\\' then '/' else c) = '.' := hc
    by_cases hb : c = '\\'
    · rw [if_pos hb] at hc
      cases hc
    · rw [if_neg hb] at hc
      rw [hc, List.map_eq_nil_iff.1 hr]
      rfl

section rows
variable {py : Python} {T : SourceTree β}

theorem safeRel_str (text : Str) : safeRel py (.str text) =
    if slashed text = [] ∨ slashed text = lit "." then some []
    else if startsWith (lit "/") (slashed text) ∨ '\x00' ∈ slashed text ∨ '\n' ∈ slashed text then none
    else if (split '/' (slashed text)).any fun part => part = [] ∨ part = lit "." ∨ part = lit ".." then none
    else some (join '/' (split '/' (slashed text))) := rfl

/-- What a path is read as. -/
theorem safeRel_eq_some {text rel : Str} (h : safeRel py (.str text) = some rel) : rel = slashed text ∨ slashed text = lit "." ∧ rel = [] := by
  rw [safeRel_str] at h
  split at h
  · rename_i hshort
    rw [Option.some.injEq] at h
    rcases hshort with hnil | hdot
    · exact .inl (h.symm.trans hnil.symm)
    · exact .inr ⟨hdot, h.symm⟩
  · split at h
    · cases h
    · split at h
      · cases h
      · rw [Option.some.injEq, join_split] at h
        exact .inl h.symm

theorem safeRel_idem {text rel : Str} (h : safeRel py (.str text) = some rel) : safeRel py (.str rel) = some rel := by
  rcases safeRel_eq_some h with rfl | ⟨-, rfl⟩
  · rw [safeRel_str, slashed_of_notMem (backslash_notMem_slashed text)]
    rwa [safeRel_str] at h
  · rfl

theorem safeRel_bad {text : Str} {c : Char} (hc : c = '\n' ∨ c = '\x00') (h : c ∈ text) : safeRel py (.str text) = none := by
  have hmem : c ∈ slashed text := by
    refine List.mem_map.2 ⟨c, h, if_neg ?_⟩
    rintro rfl
    rcases hc with hc | hc <;> cases hc
  rw [safeRel_str, if_neg, if_pos]
  · rcases hc with rfl | rfl
    · exact .inr (.inr hmem)
    · exact .inr (.inl hmem)
  · rintro (hnil | hdot)
    · rw [hnil] at hmem
      cases hmem
    · rw [hdot] at hmem
      rcases hc with rfl | rfl <;> exact absurd hmem (by decide)

/-- The row of a place, where its path is one. -/
def rowOf (py : Python) (T : SourceTree β) (q : List Name) : Option Row :=
  (safeRel py (.str (relText q))).map fun rel => ⟨rel, (T.attr q).uid, (T.attr q).gid, octal ((T.attr q).mode &&& 0o1777)⟩

theorem canonicalMode_str {m : Nat} {text : Str} (h : m ≤ 0o7777) (hread : intText 8 text = some (m : Int)) (strip : Bool) :
    canonicalMode py (.str text) strip = .ok (some (octal (if strip then m &&& 0o1777 else m))) := by
  unfold canonicalMode modeNumber
  simp only [hread, Except.map, Option.bind_some]
  rw [if_neg (by omega), Int.toNat_natCast]

theorem readEntry_entry {path : Str} {uid gid m : Nat} (huid : uid < maxId) (hgid : gid < maxId) (hm : m ≤ 0o7777) :
    readEntry py (entry path uid gid (octal m)) = .ok ((safeRel py (.str path)).map fun rel => ⟨rel, uid, gid, octal (m &&& 0o1777)⟩) := by
  have hpath : JsonValue.get [(lit "path", .str path), (lit "uid", .int uid), (lit "gid", .int gid), (lit "mode", .str (octal m))] (lit "path") = .str path := rfl
  have hu : JsonValue.get [(lit "path", .str path), (lit "uid", .int uid), (lit "gid", .int gid), (lit "mode", .str (octal m))] (lit "uid") = .int uid := rfl
  have hg : JsonValue.get [(lit "path", .str path), (lit "uid", .int uid), (lit "gid", .int gid), (lit "mode", .str (octal m))] (lit "gid") = .int gid := rfl
  have hmode : JsonValue.get [(lit "path", .str path), (lit "uid", .int uid), (lit "gid", .int gid), (lit "mode", .str (octal m))] (lit "mode") = .str (octal m) := rfl
  unfold readEntry entry
  simp only [hpath, hu, hg, hmode, canonicalMode_str hm (intText_octal hm), intOf, Except.bind, if_true]
  cases safeRel py (.str path) with
  | none => rfl
  | some rel =>
    simp only [Option.map_some]
    rw [if_neg (by omega), Int.toNat_natCast, Int.toNat_natCast]

/-- The fields of `find`, read back. -/
theorem findEntries_eq {qs : List (List Name)} (hqs : ∀ q ∈ qs, q ∈ T.places) : findEntries py (qs.flatMap (findFields T)) =
    .ok (qs.filterMap fun q => (safeRel py (.str (relText q))).map fun rel => entry rel (T.attr q).uid (T.attr q).gid (octal (T.attr q).mode)) := by
  induction qs with
  | nil => rfl
  | cons q qs ih =>
    obtain ⟨huid, hgid, hm⟩ := T.owned q (hqs q List.mem_cons_self)
    have ih := ih fun x hx => hqs x (List.mem_cons_of_mem _ hx)
    rw [List.flatMap_cons, findFields]
    simp only [List.cons_append, List.nil_append]
    unfold findEntries
    rw [canonicalMode_str hm (intText_toDigits _)]
    cases hrel : safeRel py (.str (relText q)) with
    | none => simp only [ih, List.filterMap_cons, hrel, Option.map_none]
    | some rel =>
      simp only [intText_ofNat huid, intText_ofNat hgid, ih, List.filterMap_cons, hrel, Option.map_some, Bool.false_eq_true, if_false, Int.toNat_natCast]
      rw [if_neg (by omega)]
      rfl

theorem split_fields {c : Char} {fields : List Str} (h : ∀ x ∈ fields, c ∉ x) : split c (fields.flatMap fun x => x ++ [c]) = fields ++ [[]] := by
  induction fields with
  | nil => rfl
  | cons x fields ih =>
    rw [List.flatMap_cons, List.append_assoc, List.singleton_append, split_append_cons, split_of_notMem (h x List.mem_cons_self),
      ih fun y hy => h y (List.mem_cons_of_mem _ hy)]
    rfl

theorem SourceTree.nul_notMem (T : SourceTree β) {q : List Name} (hq : q ∈ T.places) : '\x00' ∉ relText q := by
  intro h
  rcases mem_join h with heq | ⟨c, hc, hmem⟩
  · cases heq
  · exact (T.named q hq c hc).2.2 hmem

theorem nul_notMem_findFields {q : List Name} (hq : q ∈ T.places) : ∀ x ∈ findFields T q, '\x00' ∉ x := by
  have hdigit : ∀ {c : Char}, isDigit c = true → c ≠ '\x00' := fun hc => not_digit hc (by decide)
  have hnat : ∀ n, '\x00' ∉ ofNat n := fun n hmem => by
    have hdigits := isdigit_ofNat n
    unfold isdigit at hdigits
    rw [Bool.and_eq_true, List.all_eq_true] at hdigits
    exact hdigit (hdigits.2 _ hmem) rfl
  intro x hx
  simp only [findFields, List.mem_cons, List.not_mem_nil, or_false] at hx
  rcases hx with rfl | rfl | rfl | rfl
  · exact T.nul_notMem hq
  · exact hnat _
  · exact hnat _
  · exact fun hmem => hdigit (digits_toDigits _ _ hmem).1 rfl

/-- What `find` printed, read back. -/
theorem parseFindOutput_eq : parseFindOutput py (findOutput T) = .ok ((T.places.filter fun q => isFound (T.node q)).filterMap fun q =>
    (safeRel py (.str (relText q))).map fun rel => entry rel (T.attr q).uid (T.attr q).gid (octal (T.attr q).mode)) := by
  have hlisted : ∀ q ∈ T.places.filter fun q => isFound (T.node q), q ∈ T.places := fun q hq => (List.mem_filter.1 hq).1
  have hsplit : split '\x00' (findOutput T) = (T.places.filter fun q => isFound (T.node q)).flatMap (findFields T) ++ [[]] := by
    refine split_fields fun x hx => ?_
    obtain ⟨q, hq, hx⟩ := List.mem_flatMap.1 hx
    exact nul_notMem_findFields (hlisted q hq) x hx
  have hlength : ((T.places.filter fun q => isFound (T.node q)).flatMap (findFields T)).length % 4 = 0 := by
    simp [List.length_flatMap, findFields]
  unfold parseFindOutput
  simp only [hsplit, List.getLast?_concat, if_true, List.dropLast_concat]
  rw [if_neg (not_not.2 hlength), findEntries_eq hlisted]

/-- **What a listing gives**: a row for each place it lists, where its path is one. -/
theorem collect_rows {listing : Listing} (hlisting : listing.Of T) {entries : List JsonValue} (h : listing.collect py T = .ok entries) :
    rowsOf py entries = (listing.lists T).filterMap (rowOf py T) := by
  cases listing with
  | here =>
    obtain rfl := Except.ok.inj h
    unfold rowsOf collectLocalTree
    rw [List.filterMap_filterMap]
    refine List.filterMap_congr fun q hq => ?_
    obtain ⟨huid, hgid, hm⟩ := T.owned q hq
    split
    · rename_i hbad
      have hnone : safeRel py (.str (relText q)) = none := by
        rcases hbad with hbad | hbad
        · exact safeRel_bad (.inl rfl) hbad
        · exact safeRel_bad (.inr rfl) hbad
      rw [rowOf, hnone]
      rfl
    · rw [Option.bind_some, readEntry_entry huid hgid hm]
      rfl
  | asked answer =>
    cases answer with
    | none => cases h
    | some raw =>
      obtain rfl : raw = findOutput T := hlisting
      rw [show (Listing.asked (some (findOutput T))).collect py T = parseFindOutput py (findOutput T) from rfl, parseFindOutput_eq] at h
      obtain rfl := Except.ok.inj h
      unfold rowsOf
      rw [List.filterMap_filterMap]
      refine List.filterMap_congr fun q hq => ?_
      obtain ⟨huid, hgid, hm⟩ := T.owned q (List.mem_filter.1 hq).1
      unfold rowOf
      cases hrel : safeRel py (.str (relText q)) with
      | none => rfl
      | some rel =>
        rw [Option.map_some, Option.bind_some, readEntry_entry huid hgid hm, safeRel_idem hrel]

end rows

/-! ## Attributes after the script -/

section script
variable {keeps : Bool} {shape : Shape} {d p : List Name} {rows : List Row} {e : Row}

/-- What a row leaves of a node. -/
def written (keeps : Bool) (shape : Shape) (p : List Name) (e : Row) (old : Attr) : Attr :=
  ⟨e.uid, e.gid, if IsLink shape p then old.mode else chmodMode keeps (decide (shape p = some .dir)) (ofOctal e.mode) old.mode⟩

theorem written_written (he : e.Valid) (old : Attr) : written keeps shape p e (written keeps shape p e old) = written keeps shape p e old := by
  unfold written
  by_cases hl : IsLink shape p
  · simp only [if_pos hl]
  · simp only [if_neg hl, chmodMode]
    split
    · rw [or_and_setId he.setId]
    · rfl

theorem runLine_at (hd : shape d = some .dir) (he : e.Valid) {a b : Attrs} (h : runLine keeps shape d a (callLine e) = some b) (p : List Name) :
    b p = if target shape d e.path = some p then written keeps shape p e (a p) else a p := by
  rw [runLine_callLine hd he] at h
  cases ht : target shape d e.path with
  | none =>
    rw [ht] at h
    obtain rfl := Option.some.inj h
    rw [if_neg (by simp)]
  | some x =>
    rw [ht] at h
    obtain ⟨-, -, rfl⟩ := hostPut_eq_some h
    by_cases hx : p = x
    · subst hx
      rw [if_pos rfl, Function.update_self]
      rfl
    · rw [if_neg fun heq => hx (Option.some.inj heq).symm, Function.update_of_ne hx]

/-- **A node that one row is written to** is as that row leaves it. -/
theorem runLines_at (hd : shape d = some .dir) (he : e.Valid) : ∀ {rows : List Row}, (∀ x ∈ rows, x.Valid) → (∀ x ∈ rows, target shape d x.path = some p → x = e) →
    ∀ {a b : Attrs}, runLines keeps shape d a (rows.map callLine) = some b →
      (e ∈ rows → target shape d e.path = some p → b p = written keeps shape p e (a p)) ∧ (e ∉ rows → b p = a p) := by
  intro rows
  induction rows with
  | nil =>
    intro _ _ a b h
    obtain rfl := Option.some.inj h
    exact ⟨fun hmem => (nomatch hmem), fun _ => rfl⟩
  | cons x rows ih =>
    intro hv honly a b h
    obtain ⟨a', hline, hrest⟩ := Option.bind_eq_some_iff.1 h
    have hstep := runLine_at hd (hv x List.mem_cons_self) hline p
    obtain ⟨hin, hout⟩ := ih (fun y hy => hv y (List.mem_cons_of_mem _ hy)) (fun y hy => honly y (List.mem_cons_of_mem _ hy)) hrest
    constructor
    · intro hmem ht
      by_cases hx : target shape d x.path = some p
      · obtain rfl := honly x List.mem_cons_self hx
        rw [if_pos hx] at hstep
        by_cases hagain : x ∈ rows
        · rw [hin hagain ht, hstep, written_written he]
        · rw [hout hagain, hstep]
      · rw [if_neg hx] at hstep
        rcases List.mem_cons.1 hmem with rfl | hmem
        · exact absurd ht hx
        · rw [hin hmem ht, hstep]
    · intro hmem
      rw [List.mem_cons, not_or] at hmem
      rw [hout hmem.2, hstep, if_neg fun hx => hmem.1 (honly x List.mem_cons_self hx).symm]

end script

/-! ## Places of the restored folder -/

section places
variable {T : SourceTree β} {f : Files β} {s q : List Name} {py : Python}

theorem SourceTree.dir_above (T : SourceTree β) {a : List Name} : ∀ b, b ≠ [] → (T.node (a ++ b)).isSome = true → T.node a = some .dir := by
  intro b
  induction b using List.reverseRecOn with
  | nil => exact fun h => absurd rfl h
  | append_singleton b c ih =>
    intro _ hsome
    rw [← List.append_assoc] at hsome
    have hdir := T.closed _ _ hsome
    by_cases hb : b = []
    · rwa [hb, List.append_nil] at hdir
    · exact ih hb (by rw [hdir]; rfl)

theorem not_reserved_of_append {a b : List Name} (h : ¬ Reserved (a ++ b)) : ¬ Reserved a := by
  rintro (hname | hmarker | htmp)
  · exact h (.inl (List.mem_append_left b hname))
  · exact h (.inr (.inl (by rw [List.head?_append, hmarker]; rfl)))
  · exact h (.inr (.inr (by rw [List.head?_append, htmp]; rfl)))

theorem Holds.shape (h : Holds s T f) (hq : ¬ Reserved q) : f.shape (s ++ q) = (T.node q).map Node.kind := by
  unfold Files.shape
  rw [h q hq]

/-- A place of the tree is where its path leads, in whatever has the same kinds on the way. -/
theorem SourceTree.target_of_same (T : SourceTree β) {shape : Shape} : ∀ {rest pre : List Name},
    (∀ a b, pre ++ rest = a ++ b → shape (s ++ a) = (T.node a).map Node.kind) → (T.node (pre ++ rest)).isSome = true →
      FileTree.target shape (s ++ pre) rest = some (s ++ pre ++ rest)
  | [], pre, _, _ => by rw [FileTree.target, List.append_nil]
  | [c], pre, hsame, hsome => by
    rw [FileTree.target, List.append_assoc, hsame (pre ++ [c]) [] (by simp), Option.isSome_map, if_pos hsome]
  | c :: x :: rest, pre, hsame, hsome => by
    have hpre : pre ++ c :: x :: rest = (pre ++ [c]) ++ (x :: rest) := by simp
    rw [hpre] at hsome
    have hdir : shape (s ++ pre ++ [c]) = some .dir := by
      rw [List.append_assoc, hsame (pre ++ [c]) (x :: rest) hpre, T.dir_above _ (by simp) hsome]
      rfl
    have hrest := T.target_of_same (fun a b hab => hsame a b (hpre.trans hab)) hsome
    rw [← List.append_assoc] at hrest
    rw [target_dir hdir, hrest]
    simp

theorem Holds.target (h : Holds s T f) {rest pre : List Name} (hq : ¬ Reserved (pre ++ rest)) (hsome : (T.node (pre ++ rest)).isSome = true) :
    FileTree.target f.shape (s ++ pre) rest = some (s ++ pre ++ rest) :=
  T.target_of_same (fun _ _ hab => h.shape (not_reserved_of_append (hab ▸ hq))) hsome

/-- A path whose place is its own. -/
structure SourceTree.Readable (T : SourceTree β) (q : List Name) : Prop where
  backslash : '\\' ∉ relText q
  newline : '\n' ∉ relText q
  alone : ∀ q' ∈ T.places, slashed (relText q') = relText q → q' = q

theorem SourceTree.split_relText (T : SourceTree β) (hq : q ∈ T.places) (hne : q ≠ []) : split '/' (relText q) = q :=
  split_join hne fun c hc => (T.named q hq c hc).2.1

theorem SourceTree.relText_ne_nil (T : SourceTree β) (hq : q ∈ T.places) (hne : q ≠ []) : relText q ≠ [] :=
  join_ne_nil hne fun c hc => (T.named q hq c hc).1.1

/-- The row of such a place has its path. -/
theorem SourceTree.row_eq (T : SourceTree β) (hq : q ∈ T.places) (hback : '\\' ∉ relText q) (hnewline : '\n' ∉ relText q) :
    rowOf py T q = some ⟨relText q, (T.attr q).uid, (T.attr q).gid, octal ((T.attr q).mode &&& 0o1777)⟩ := by
  have hrel : safeRel py (.str (relText q)) = some (relText q) := by
    rw [safeRel_str, slashed_of_notMem hback]
    by_cases hnil : q = []
    · rw [hnil]
      rfl
    · have hsplit := T.split_relText hq hnil
      have hentry : ∀ c ∈ split '/' (relText q), FileTree.Entry c := fun c hc => (T.named q hq c (hsplit ▸ hc)).1
      obtain ⟨hdot, hpatterns⟩ := relPatterns hentry
      rw [if_neg (not_or.2 ⟨T.relText_ne_nil hq hnil, hdot⟩), if_neg, if_neg, join_split]
      · rw [Bool.not_eq_true, List.any_eq_false]
        intro c hc
        simpa [FileTree.Entry, not_or] using hentry c hc
      · rintro (hroot | hnul | hnl)
        · exact hpatterns (.inl hroot)
        · exact T.nul_notMem hq hnul
        · exact hnewline hnl
  rw [rowOf, hrel]
  rfl

/-- A row of the text of a place has that place as its path. -/
theorem SourceTree.path_eq (T : SourceTree β) (hq : q ∈ T.places) {e : Row} (he : e.rel = relText q) : e.path = q := by
  rw [Row.path, he]
  by_cases hnil : q = []
  · rw [hnil]
    rfl
  · rw [if_neg (T.relText_ne_nil hq hnil), T.split_relText hq hnil]

/-- A row whose path is this one is its own. -/
theorem SourceTree.Readable.only (h : T.Readable q) {q' : List Name} (hq' : q' ∈ T.places) {e : Row} (he : rowOf py T q' = some e)
    (hpath : e.path = q) : q' = q := by
  obtain ⟨rel, hrel, rfl⟩ := Option.map_eq_some_iff.1 he
  refine h.alone q' hq' ?_
  have hsame : rel = relText q := by
    by_cases hnil : rel = []
    · have hq0 : q = [] := by
        rw [← hpath, Row.path, if_pos hnil]
      rw [hnil, hq0]
      rfl
    · rw [Row.path, if_neg hnil] at hpath
      rw [← hpath, relText, join_split]
  rcases safeRel_eq_some hrel with heq | ⟨hdot, hnil⟩
  · rw [← heq, hsame]
  · -- no path of the tree is a dot
    have htext := eq_dot_of_slashed hdot
    by_cases hq0 : q' = []
    · rw [hq0] at htext
      cases htext
    · have hsplit := T.split_relText hq' hq0
      rw [htext] at hsplit
      exact absurd rfl (T.named q' hq' (lit ".") (by rw [← hsplit]; decide)).1.2.1

end places

/-! ## The round trip -/

section roundTrip
variable {w : Machines β} {disk copy host : Files β} {d root s : List Name} {T : SourceTree β} {listing : Listing} {stamped : Bool} {landed attrs : Attrs}

/-- The manifest that is applied is the one the backup wrote. -/
theorem applied_lines (hcopy : Holds d T copy) {entries : List JsonValue}
    (hmanifest : copy (d ++ [manifestName]) = some (.file (w.text.dumps entries)) ∨ copy (d ++ [manifestName]) = some .special)
    (hroot : LeadsTo host.shape maxLinks [] root s) (hdir : host s = some .dir) (h : ownershipStep w copy d host root landed = .applied attrs) :
    runLines w.keepsSetId host.shape s landed ((rowsOf w.py entries).map callLine) = some attrs := by
  unfold ownershipStep loadManifest at h
  rcases hmanifest with hfile | hspecial
  · obtain ⟨m, hfollow⟩ := follow_entry (n := maxLinks) hcopy.dir (by decide) hfile fun dest heq => by cases heq
    simp only [hfollow, hfile, w.text.loads_dumps] at h
    cases hrender : renderApplyScript w.py entries with
    | error u =>
      rw [hrender] at h
      cases h
    | ok lines =>
      obtain rfl := render_lines hrender
      simp only [hrender] at h
      obtain ⟨k, hk⟩ := hroot
      unfold runScript at h
      simp only [hk, shape_dir hdir, if_true] at h
      cases hrun : runLines w.keepsSetId host.shape s landed ((rowsOf w.py entries).map callLine) with
      | none =>
        rw [hrun] at h
        cases h
      | some a =>
        rw [hrun] at h
        cases h
        rfl
  · obtain ⟨m, hfollow⟩ := follow_entry (n := maxLinks) hcopy.dir (by decide) hspecial fun dest heq => by cases heq
    simp only [hfollow, hspecial] at h
    cases h

/-- The restored folder has a way to it where the emptied one had. -/
theorem leads_rsyncBack (hroot : LeadsTo host.shape maxLinks [] root s) (hempty : Emptied host s) (hcopy : Holds d T copy) :
    LeadsTo (rsyncBack copy d host s).shape maxLinks [] root s := by
  obtain ⟨m, hm⟩ := hroot
  refine ⟨m, follow_mono (fun p k hp => ?_) hm⟩
  obtain ⟨node, hnode, rfl⟩ := Option.map_eq_some_iff.1 hp
  by_cases hs : s <+: p
  · obtain ⟨q, rfl⟩ := hs
    by_cases hq : q = []
    · rw [hq, List.append_nil] at hnode ⊢
      obtain rfl := Option.some.inj (hnode.symm.trans hempty.dir)
      exact shape_dir (rsyncBack_holds hcopy hempty).dir
    · rw [hempty.empty q hq] at hnode
      cases hnode
  · unfold Files.shape rsyncBack
    rw [if_neg fun h => hs h.1, hnode]
    rfl

/-- **A backup and a restore give the folder back**, but for the names reserved beside it: each of its nodes with its
contents, and nothing else. Where the manifest was written and is applied, what it lists has its owner and its mode,
without the set-id bits that a directory does not keep. -/
theorem backup_then_restore (hT : T.Plain) (hlisting : listing.Of T) (hbackup : backupSource w disk d T listing = some (copy, stamped))
    (hempty : Emptied host s) (hroot : LeadsTo host.shape maxLinks [] root s) :
    (∀ q, ¬ Reserved q → (restoreBackupSource w copy d host root s landed).1 (s ++ q) = T.node q) ∧
      ∀ attrs, stamped = true → (restoreBackupSource w copy d host root s landed).2 = .applied attrs →
        ∀ q ∈ listing.lists T, ¬ Reserved q → T.Readable q →
          (attrs (s ++ q)).uid = (T.attr q).uid ∧ (attrs (s ++ q)).gid = (T.attr q).gid ∧
            ((∀ dest, T.node q ≠ some (.link dest)) → (attrs (s ++ q)).mode =
              if w.keepsSetId ∧ Files.shape T.node q = some .dir then (T.attr q).mode &&& 0o1777 ||| ((landed (s ++ q)).mode &&& 0o6000)
              else (T.attr q).mode &&& 0o1777) := by
  obtain ⟨hcopy, hmanifest⟩ := backupSource_holds hT hbackup
  have hback := rsyncBack_holds hcopy hempty
  refine ⟨hback, fun attrs hstamped happlied q hq hreserved hreadable => ?_⟩
  obtain ⟨entries, hcollect, hwritten⟩ := hmanifest hstamped
  have hrun := applied_lines hcopy hwritten (leads_rsyncBack hroot hempty hcopy) hback.dir happlied
  have hrows := collect_rows hlisting hcollect
  have hlists : ∀ x ∈ listing.lists T, x ∈ T.places := by
    intro x hx
    cases listing with
    | here => exact hx
    | asked answer => exact (List.mem_filter.1 hx).1
  have hplace := hlists q hq
  have hsome := (T.mem_places q).1 hplace
  have hrow : rowOf w.py T q = _ := T.row_eq hplace hreadable.backslash hreadable.newline
  obtain ⟨e, he⟩ : ∃ e : Row, e = ⟨relText q, (T.attr q).uid, (T.attr q).gid, octal ((T.attr q).mode &&& 0o1777)⟩ := ⟨_, rfl⟩
  rw [← he] at hrow
  have hmem : e ∈ rowsOf w.py entries := by
    rw [hrows]
    exact List.mem_filterMap.2 ⟨q, hq, hrow⟩
  have hpath : e.path = q := T.path_eq hplace (congrArg Row.rel he)
  have htarget := @Holds.target _ T _ s hback q [] hreserved hsome
  rw [List.append_nil] at htarget
  have honly : ∀ x ∈ rowsOf w.py entries, FileTree.target (rsyncBack copy d host s).shape s x.path = some (s ++ q) → x = e := by
    intro x hx ht
    have hvalid := rowsOf_valid hx
    have hxpath : x.path = q := by
      rcases target_eq_some (shape_dir hback.dir) hvalid.entries ht with ⟨hnil, heq⟩ | ⟨init, c, hinit, -, -, heq, -⟩
      · rw [hnil]
        exact (List.append_right_eq_self.1 heq).symm
      · rw [hinit]
        exact (List.append_cancel_left (heq.trans (List.append_assoc s init [c]))).symm
    rw [hrows] at hx
    obtain ⟨q', hq', hrow'⟩ := List.mem_filterMap.1 hx
    obtain rfl := hreadable.only (hlists q' hq') hrow' hxpath
    exact Option.some.inj (hrow'.symm.trans hrow)
  obtain ⟨hat, -⟩ := runLines_at (shape_dir hback.dir) (rowsOf_valid hmem) (fun x hx => rowsOf_valid hx) honly hrun
  rw [hat hmem (hpath ▸ htarget), he]
  refine ⟨rfl, rfl, fun hlink => ?_⟩
  have hshape := hback.shape hreserved
  have hno : ¬ IsLink (rsyncBack copy d host s).shape (s ++ q) := by
    rintro ⟨dest, hk⟩
    rw [hshape] at hk
    obtain ⟨node, hnode, hkind⟩ := Option.map_eq_some_iff.1 hk
    cases node with
    | link dest' => exact hlink dest' hnode
    | dir => cases hkind
    | file content => cases hkind
    | special => cases hkind
  have hmode : ofOctal (octal ((T.attr q).mode &&& 0o1777)) = (T.attr q).mode &&& 0o1777 :=
    ofOctal_octal (Nat.and_le_right.trans (by decide))
  simp only [written, if_neg hno, hmode, chmodMode, hshape, Bool.and_eq_true, decide_eq_true_eq]
  rfl

end roundTrip

/-! ## A folder from a table -/

section tables
variable (table : List (List Name × Node β × Attr))

def tableNode : Files β := fun q => (table.find? fun r => decide (r.1 = q)).map fun r => r.2.1

def tableAttr : Attrs := fun q => ((table.find? fun r => decide (r.1 = q)).map fun r => r.2.2).getD ⟨0, 0, 0⟩

theorem dir_of_shape {f : Files β} {q : List Name} (h : f.shape q = some .dir) : f q = some .dir := by
  obtain ⟨node, hnode, hkind⟩ := Option.map_eq_some_iff.1 h
  cases node with
  | dir => exact hnode
  | link dest => cases hkind
  | file content => cases hkind
  | special => cases hkind

variable {table}

theorem find_table {q : List Name} (hq : q ∈ table.map fun r => r.1) : ∃ r ∈ table, r.1 = q ∧ tableNode table q = some r.2.1 ∧ tableAttr table q = r.2.2 := by
  unfold tableNode tableAttr
  cases hfound : table.find? fun r => decide (r.1 = q) with
  | none =>
    obtain ⟨r, hr, hrq⟩ := List.mem_map.1 hq
    exact absurd (List.find?_eq_none.1 hfound r hr) (by simp [hrq])
  | some r => exact ⟨r, List.mem_of_find?_eq_some hfound, by simpa using List.find?_some hfound, rfl, rfl⟩

/-- Its rows are the places, in their order. -/
def SourceTree.ofTable (table : List (List Name × Node β × Attr)) (hroot : (tableNode table).shape [] = some .dir)
    (hclosed : ∀ r ∈ table, r.1 ≠ [] → (tableNode table).shape r.1.dropLast = some .dir)
    (hnamed : ∀ r ∈ table, ∀ c ∈ r.1, FileTree.Entry c ∧ '/' ∉ c ∧ '\x00' ∉ c)
    (howned : ∀ r ∈ table, r.2.2.uid < maxId ∧ r.2.2.gid < maxId ∧ r.2.2.mode ≤ 0o7777) : SourceTree β where
  node := tableNode table
  attr := tableAttr table
  places := table.map fun r => r.1
  mem_places q := by
    constructor
    · intro hq
      obtain ⟨r, -, -, hnode, -⟩ := find_table hq
      rw [hnode]
      rfl
    · intro hsome
      obtain ⟨node, hnode⟩ := Option.isSome_iff_exists.1 hsome
      obtain ⟨r, hfound, -⟩ := Option.map_eq_some_iff.1 hnode
      exact List.mem_map.2 ⟨r, List.mem_of_find?_eq_some hfound, by simpa using List.find?_some hfound⟩
  root := dir_of_shape hroot
  closed q c hsome := by
    obtain ⟨node, hnode⟩ := Option.isSome_iff_exists.1 hsome
    obtain ⟨r, hfound, -⟩ := Option.map_eq_some_iff.1 hnode
    have hr : r.1 = q ++ [c] := by simpa using List.find?_some hfound
    have hdir := hclosed r (List.mem_of_find?_eq_some hfound) (by rw [hr]; simp)
    rw [hr, List.dropLast_concat] at hdir
    exact dir_of_shape hdir
  named q hq := by
    obtain ⟨r, hr, rfl, -⟩ := find_table hq
    exact hnamed r hr
  owned q hq := by
    obtain ⟨r, hr, -, -, hattr⟩ := find_table hq
    rw [hattr]
    exact howned r hr

end tables

/-- Machines whose manifests are kept as their entries. -/
def plainMachines : Machines (List JsonValue) := ⟨plainPython, ⟨id, .ok, fun _ => rfl⟩, [], true, true⟩

/-- A copy's place, and an emptied folder. -/
def copyDisk : Files (List JsonValue) := fun p => if p = [] ∨ p = [lit "copy"] then some .dir else none

def emptiedHost : Files (List JsonValue) := fun p => if p = [] ∨ p = [lit "srv"] then some .dir else none

/-- `rsync` lands files as another account. -/
def otherAccount : Attrs := fun _ => ⟨7, 7, 0o777⟩

def OwnershipStep.result : OwnershipStep → Option Attrs
  | .applied attrs => some attrs
  | _ => none

theorem emptiedHost_emptied : Emptied emptiedHost [lit "srv"] := by
  refine ⟨rfl, fun q hq => if_neg ?_⟩
  rintro (h | h)
  · exact absurd h (by simp)
  · exact hq (by simpa using h)

/-- A backup of a folder and its restore to `/srv`, the owners applied. -/
theorem run_of_result {T : SourceTree (List JsonValue)} {listing : Listing} {values : Attrs → Files (List JsonValue) → Bool}
    (h : ((backupSource plainMachines copyDisk [lit "copy"] T listing).bind fun c =>
      let r := restoreBackupSource plainMachines c.1 [lit "copy"] emptiedHost [lit "srv"] [lit "srv"] otherAccount
      r.2.result.map fun attrs => c.2 && values attrs r.1) = some true) :
    ∃ copy attrs, backupSource plainMachines copyDisk [lit "copy"] T listing = some (copy, true) ∧
      (restoreBackupSource plainMachines copy [lit "copy"] emptiedHost [lit "srv"] [lit "srv"] otherAccount).2 = .applied attrs ∧
        values attrs (restoreBackupSource plainMachines copy [lit "copy"] emptiedHost [lit "srv"] [lit "srv"] otherAccount).1 = true := by
  obtain ⟨⟨copy, stamped⟩, hbackup, hresult⟩ := Option.bind_eq_some_iff.1 h
  simp only [Option.map_eq_some_iff, Bool.and_eq_true] at hresult
  obtain ⟨attrs, hattrs, rfl, hvalues⟩ := hresult
  refine ⟨copy, attrs, hbackup, ?_, hvalues⟩
  cases hstep : (restoreBackupSource plainMachines copy [lit "copy"] emptiedHost [lit "srv"] [lit "srv"] otherAccount).2 with
  | applied attrs' =>
    rw [hstep] at hattrs
    rw [Option.some.inj hattrs]
  | skipped =>
    rw [hstep] at hattrs
    cases hattrs
  | broken =>
    rw [hstep] at hattrs
    cases hattrs
  | failed =>
    rw [hstep] at hattrs
    cases hattrs

/-- A folder with one file and a link to it. -/
def fileAndLink : SourceTree (List JsonValue) :=
  .ofTable [([], .dir, ⟨0, 0, 0o755⟩), ([lit "a"], .file [.null], ⟨1000, 1000, 0o640⟩), ([lit "b"], .link (lit "a"), ⟨1000, 1000, 0o777⟩)]
    (by decide) (by decide) (by decide) (by decide)

theorem fileAndLink_restored : ∃ copy attrs, backupSource plainMachines copyDisk [lit "copy"] fileAndLink .here = some (copy, true) ∧
    (restoreBackupSource plainMachines copy [lit "copy"] emptiedHost [lit "srv"] [lit "srv"] otherAccount).2 = .applied attrs ∧
      (restoreBackupSource plainMachines copy [lit "copy"] emptiedHost [lit "srv"] [lit "srv"] otherAccount).1 [lit "srv", lit "a"] = some (.file [.null]) ∧
        (attrs [lit "srv", lit "a"]).uid = 1000 ∧ (attrs [lit "srv", lit "a"]).mode = 0o640 := by
  obtain ⟨copy, attrs, hbackup, happlied, -⟩ := @run_of_result fileAndLink .here (fun _ _ => true) (by decide +kernel)
  have hroot : LeadsTo emptiedHost.shape maxLinks [] [lit "srv"] [lit "srv"] := ⟨maxLinks, by decide +kernel⟩
  have hplain : fileAndLink.Plain := ⟨fun dest h => (nomatch h), fun dest h => (nomatch h)⟩
  obtain ⟨hfiles, howners⟩ := @backup_then_restore _ plainMachines copyDisk copy emptiedHost [lit "copy"] [lit "srv"] [lit "srv"] fileAndLink .here true
    otherAccount hplain trivial hbackup emptiedHost_emptied hroot
  obtain ⟨huid, -, hmode⟩ := howners attrs rfl happlied [lit "a"] (by decide) (by unfold Reserved; decide) ⟨by decide, by decide, by decide⟩
  exact ⟨copy, attrs, hbackup, happlied, hfiles [lit "a"] (by unfold Reserved; decide), huid, hmode fun dest h => (nomatch h)⟩

/-- A set-user-id file, a file of the manifest's name further down, a name that reads as another's path, and one with a
line break. -/
def awkwardFolder : SourceTree (List JsonValue) :=
  .ofTable [([], .dir, ⟨0, 0, 0o755⟩), ([lit "a"], .file [.null], ⟨1000, 1000, 0o4755⟩), ([lit "sub"], .dir, ⟨0, 0, 0o755⟩),
      ([lit "sub", manifestName], .file [.null], ⟨0, 0, 0o600⟩), ([lit "x"], .dir, ⟨0, 0, 0o755⟩), ([lit "x", lit "y"], .file [.null], ⟨2000, 2000, 0o644⟩),
      ([lit "x\\y"], .file [.null], ⟨3000, 3000, 0o600⟩), ([lit "n\nl"], .file [.null], ⟨4000, 4000, 0o644⟩)]
    (by decide) (by decide) (by decide) (by decide)

/-- **The marker comes back with the folder**, the manifest's name does not come back at all, a set-user-id bit is gone, one
owner is another's, and one is not put back. -/
theorem folder_not_given_back : ∃ copy attrs,
    backupSource plainMachines copyDisk [lit "copy"] awkwardFolder (.asked (some (findOutput awkwardFolder))) = some (copy, true) ∧
      (restoreBackupSource plainMachines copy [lit "copy"] emptiedHost [lit "srv"] [lit "srv"] otherAccount).2 = .applied attrs ∧
        ¬ ((∀ q, (restoreBackupSource plainMachines copy [lit "copy"] emptiedHost [lit "srv"] [lit "srv"] otherAccount).1 ([lit "srv"] ++ q) =
            awkwardFolder.node q) ∧ ∀ q ∈ awkwardFolder.places, attrs ([lit "srv"] ++ q) = awkwardFolder.attr q) ∧
          ((restoreBackupSource plainMachines copy [lit "copy"] emptiedHost [lit "srv"] [lit "srv"] otherAccount).1 [lit "srv", lastBackup]).isSome = true ∧
          ((restoreBackupSource plainMachines copy [lit "copy"] emptiedHost [lit "srv"] [lit "srv"] otherAccount).1 [lit "srv", lit "sub", manifestName]).isSome = false ∧
          (attrs [lit "srv", lit "a"]).mode = 0o755 ∧ (attrs [lit "srv", lit "x", lit "y"]).uid = 3000 ∧ (attrs [lit "srv", lit "n\nl"]).uid = 7 := by
  obtain ⟨copy, attrs, hbackup, happlied, hvalues⟩ := @run_of_result awkwardFolder (.asked (some (findOutput awkwardFolder))) (fun attrs files =>
    (files [lit "srv", lastBackup]).isSome && !(files [lit "srv", lit "sub", manifestName]).isSome && decide ((attrs [lit "srv", lit "a"]).mode = 0o755) &&
      decide ((attrs [lit "srv", lit "x", lit "y"]).uid = 3000) && decide ((attrs [lit "srv", lit "n\nl"]).uid = 7)) (by decide +kernel)
  simp only [Bool.and_eq_true, decide_eq_true_eq, Bool.not_eq_true'] at hvalues
  obtain ⟨⟨⟨⟨hmarker, hname⟩, hmode⟩, hother⟩, hnewline⟩ := hvalues
  refine ⟨copy, attrs, hbackup, happlied, fun h => ?_, hmarker, hname, hmode, hother, hnewline⟩
  have hnone := h.1 [lastBackup]
  rw [show awkwardFolder.node [lastBackup] = none from rfl] at hnone
  rw [List.singleton_append] at hnone
  rw [hnone] at hmarker
  cases hmarker

end PiHerder.Backup
