import Mathlib
import PiHerder.Stacks.EnvFile

/-!
# Service templates

| here | there (`services/service_templates/schema.py`) |
| --- | --- |
| `TemplateVar`, `TemplateDefinition`, `validateProjectName`, `renderText` | 44–138, 150–156, 304–311 |
| `volumeSourceFromProvided`, `coerceBooleanValue`, `validateVolumeSource`, `buildVolumeMount` | 349–434 |
| `mergeVariableValues`, `syncComposeNamedVolumes`, `renderTemplateFiles`, `splitSecrets` | 437–659 |

The merged values keep the two lists for the compose file apart from the variables: in the source they are JSON texts under
keys that begin with `__`, which neither rendering nor the saved variables look at.
-/
namespace PiHerder.Stacks
open Lib Lib.Str

/-! ## Definitions -/

inductive VarType
  | string | int | port | password | email | url | boolean | volume
deriving DecidableEq, Repr

inductive VolumeMode
  | named | bindRelative | bindAbsolute
deriving DecidableEq, Repr

namespace VolumeMode

def str : VolumeMode → Str
  | named => lit "named"
  | bindRelative => lit "bind_relative"
  | bindAbsolute => lit "bind_absolute"

def ofStr (s : Str) : Option VolumeMode := [named, bindRelative, bindAbsolute].find? fun m => m.str == s

end VolumeMode

theorem string_holds_secret (secret : Bool) : secret = true → VarType.string ≠ .boolean ∧ VarType.string ≠ .volume := by simp

theorem given_is_free (secret : Bool) : false = true → secret = true := by simp

/-- Booleans and volumes are never secrets, and only secrets are generated. -/
structure TemplateVar where
  name : Str
  label : Str := []
  type : VarType := .string
  default : Str := []
  required : Bool := true
  secret : Bool := false
  generate : Bool := false
  help : Str := []
  trueValue : Str := lit "true"
  falseValue : Str := lit "false"
  volumeTarget : Str := []
  volumeDefaultMode : VolumeMode := .named
  secret_plain : secret = true → type ≠ .boolean ∧ type ≠ .volume := by first | exact string_holds_secret _ | decide
  generate_secret : generate = true → secret = true := by first | exact given_is_free _ | decide
deriving DecidableEq, Repr

structure ChecklistItem where
  title : Str
  body : Str := []
deriving DecidableEq, Repr

structure TemplateDefinition where
  slug : Str
  name : Str
  description : Str := []
  category : Str := lit "other"
  version : Str := lit "1.0.0"
  tags : List Str := []
  vars : List TemplateVar := []
  checklist : List ChecklistItem := []
  fileContents : Dict Str Str := []
deriving DecidableEq, Repr

def TemplateDefinition.secretVarNames (definition : TemplateDefinition) : List Str :=
  (definition.vars.filter TemplateVar.secret).map TemplateVar.name

/-- `var_map().get(name)`: the last one of the name. -/
def TemplateDefinition.varMap (definition : TemplateDefinition) (name : Str) : Option TemplateVar :=
  definition.vars.reverse.find? fun v => v.name == name

inductive TemplateError
  | dockerDisabled
  | notFound
  | disabled
  | noDefinition
  | projectName
  | required (var : Str)
  | port (var : Str)
  | integer (var : Str)
  | volume (var : Str)
  | missingValue (var : Str)
  | hostFiles
  | noHostFiles
  | nothingToImport
  | noHostEnv
  | encryption
  | composeUp
deriving DecidableEq, Repr

def isAlnum (c : Char) : Bool := isDigit c || decide ('A' ≤ c ∧ c ≤ 'Z') || decide ('a' ≤ c ∧ c ≤ 'z')

/-- `[a-zA-Z0-9][a-zA-Z0-9._-]{0,63}`. -/
def isShortName : Str → Bool
  | [] => false
  | c :: s => isAlnum c && s.all (fun d => isAlnum d || d == '.' || d == '_' || d == '-') && decide (s.length ≤ 63)

def validateProjectName (name : Str) : Except TemplateError Str :=
  if isShortName (strip name) then .ok (strip name) else .error .projectName

/-! ## Placeholders -/

/-- A placeholder at the start of a text: its name and its length. -/
def placeholder (s : Str) : Option (Str × Nat) :=
  if startsWith (lit "\x7b\x7b") s then
    let name := (s.drop 2).takeWhile isNameChar
    if isName name ∧ startsWith (lit "\x7d\x7d") (s.drop (2 + name.length)) then some (name, name.length + 4) else none
  else none

/-- `n` characters of a placeholder are still to be passed over. -/
def renderFrom (values : Dict Str Str) : Nat → Str → Except TemplateError Str
  | _, [] => .ok []
  | n + 1, _ :: s => renderFrom values n s
  | 0, c :: s =>
    match placeholder (c :: s) with
    | none => (renderFrom values 0 s).map (c :: ·)
    | some (name, len) =>
      match values.get? name with
      | none => .error (.missingValue name)
      | some value => (renderFrom values (len - 1) s).map (value ++ ·)

def renderText (template : Str) (values : Dict Str Str) : Except TemplateError Str := renderFrom values 0 template

/-! ## Values -/

def modeKey (name : Str) : Str := name ++ lit "__mode"
def sourceKey (name : Str) : Str := name ++ lit "__source"

/-- `raw is None or str(raw).strip() == ""`. -/
def isBlank (raw : Option Str) : Bool := strip (raw.getD []) == []

/-- The source that was saved, a mount without its target, what was typed, or the default. -/
def volumeSourceFromProvided (var : TemplateVar) (provided : Dict Str Str) : Str :=
  if !isBlank (provided.get? (sourceKey var.name)) then strip ((provided.get? (sourceKey var.name)).getD [])
  else
    let r := strip ((provided.get? var.name).getD [])
    let tgt := strip var.volumeTarget
    if r ≠ [] ∧ tgt ≠ [] ∧ endsWith (':' :: tgt) r then r.take (r.length - (tgt.length + 1))
    else if r ≠ [] then r
    else strip var.default

def coerceBooleanValue (var : TemplateVar) (raw : Option Str) : Str :=
  let s := lower (strip (if isBlank raw then var.default else raw.getD []))
  if s ∈ [lit "1", lit "true", lit "yes", lit "on", lit "y", lower var.trueValue] then var.trueValue else var.falseValue

def isPathChar (c : Char) : Bool := isAlnum c || c == '.' || c == '_' || c == '/' || c == '-'

theorem isSpace_of_isPathChar {c : Char} (h : isPathChar c = true) : isSpace c = false := by
  have hle : ∀ a b : Char, a ≤ b ↔ a.toNat ≤ b.toNat := fun a b => Iff.rfl
  simp only [isPathChar, isAlnum, isDigit, Bool.or_eq_true, decide_eq_true_eq, beq_iff_eq, hle, ← Char.toNat_inj, Char.reduceToNat] at h
  simp only [isSpace, Bool.or_eq_false_iff, Bool.and_eq_false_iff, decide_eq_false_iff_not, beq_eq_false_iff_ne]
  omega

/-- `_REL_BIND_RE` on `./` and the rest, which begins with neither a dot nor a slash. -/
def isRelBind (cleaned : Str) : Bool :=
  cleaned.all isPathChar && (decide (cleaned.length ≤ 199) || (cleaned.head? != some '-' && decide (cleaned.length ≤ 201)))

def validateVolumeSource (mode : Str) (source : Str) (varName : Str) : Except TemplateError Str :=
  let src := strip source
  if src = [] ∨ hasInfix (lit "..") src ∨ '\n' ∈ src ∨ '\r' ∈ src then .error (.volume varName)
  else match VolumeMode.ofStr (strip (if mode = [] then lit "named" else mode)) with
    | none => .error (.volume varName)
    | some .named => if isShortName src then .ok src else .error (.volume varName)
    | some .bindRelative =>
      let cleaned := lstripWhere (fun c => c == '.' || c == '/') src
      if cleaned ≠ [] ∧ isRelBind cleaned then .ok (lit "./" ++ cleaned) else .error (.volume varName)
    | some .bindAbsolute =>
      if startsWith (lit "/") src ∧ src.all isPathChar ∧ src.length ≤ 501 then .ok src else .error (.volume varName)

/-- The mount, and the name of a named volume. -/
def buildVolumeMount (var : TemplateVar) (mode source : Str) : Except TemplateError (Str × Option Str) :=
  let target := strip var.volumeTarget
  if startsWith (lit "/") target then
    (validateVolumeSource mode source var.name).map fun src =>
      (src ++ ':' :: target, if mode = VolumeMode.named.str then some src else none)
  else .error (.volume var.name)

/-- `int(s)`, of ASCII digits. -/
def pyInt (s : Str) : Option Int :=
  let unsigned (t : Str) : Option Nat := if (split '_' t).all isdigit then some (int (t.filter (· != '_'))) else none
  match strip s with
  | '-' :: t => (unsigned t).map fun n => -(n : Int)
  | '+' :: t => (unsigned t).map Int.ofNat
  | t => (unsigned t).map Int.ofNat

structure Merged where
  values : Dict Str Str := []
  namedVolumes : List Str := []
  managedVolumeNames : List Str := []
deriving DecidableEq, Repr

/-- A value of a variable that is neither a boolean nor a volume. -/
def plainValue (var : TemplateVar) (raw : Option Str) (autoGenerate : Bool) (fresh : Str) : Except TemplateError Str :=
  if isBlank raw then
    if autoGenerate ∧ var.generate ∧ var.secret then .ok fresh
    else if var.default ≠ [] then .ok var.default
    else if var.required then .error (.required var.name)
    else .ok []
  else .ok (raw.getD [])

def checkNumber (var : TemplateVar) (value : Str) : Except TemplateError Unit :=
  if var.type = .port ∧ value ≠ [] then
    if (pyInt value).any fun p => decide (1 ≤ p ∧ p ≤ 65535) then .ok () else .error (.port var.name)
  else if var.type = .int ∧ value ≠ [] then
    if (pyInt value).isSome then .ok () else .error (.integer var.name)
  else .ok ()

/-- The default's name is managed too, where it is a volume's. -/
def managedDefault (var : TemplateVar) : List Str :=
  if var.default ≠ [] ∧ var.volumeDefaultMode = .named then (validateVolumeSource VolumeMode.named.str var.default var.name).toOption.toList else []

def mergeVar (provided : Dict Str Str) (autoGenerate : Bool) (fresh : Str → Str) (out : Merged) (var : TemplateVar) :
    Except TemplateError Merged :=
  let raw := provided.get? var.name
  match var.type with
  | .boolean =>
    let value := if isBlank raw ∧ var.default = [] ∧ ¬ var.required then var.falseValue else coerceBooleanValue var raw
    .ok { out with values := out.values.set var.name value }
  | .volume => do
    let stored := (provided.get? (modeKey var.name)).getD []
    let mode := strip (if stored = [] then var.volumeDefaultMode.str else stored)
    let source := volumeSourceFromProvided var provided
    if source = [] then
      if var.required then .error (.required var.name)
      else .ok { out with values := (out.values.set var.name []).set (modeKey var.name) mode }
    else
      let (mount, named) ← buildVolumeMount var mode source
      let src ← validateVolumeSource mode source var.name
      .ok { values := ((out.values.set var.name mount).set (modeKey var.name) mode).set (sourceKey var.name) src
            namedVolumes := out.namedVolumes ++ named.toList
            managedVolumeNames := out.managedVolumeNames ++ managedDefault var ++ named.toList }
  | _ => do
    let value ← plainValue var raw autoGenerate (fresh var.name)
    checkNumber var value
    .ok { out with values := out.values.set var.name value }

def projectNameKey : Str := lit "PROJECT_NAME"

/-- The project's name as it is provided, or as it came out. -/
def mergeProjectName (provided values : Dict Str Str) : Except TemplateError (Dict Str Str) :=
  let given := (provided.get? projectNameKey).getD []
  let name := if strip given ≠ [] then given else (values.get? projectNameKey).getD []
  if name = [] then .ok values else (validateProjectName name).map (values.set projectNameKey)

def mergeVariableValues (definition : TemplateDefinition) (provided : Dict Str Str) (autoGenerate : Bool) (fresh : Str → Str) :
    Except TemplateError Merged := do
  let out ← definition.vars.foldlM (mergeVar provided autoGenerate fresh) {}
  let values ← mergeProjectName provided out.values
  .ok { out with values }

/-! ## Rendering -/

/-- `sorted(set(l))`. -/
def sortedSet (l : List Str) : List Str := l.eraseDups.insertionSort (· ≤ ·)

theorem mem_sortedSet {l : List Str} {x : Str} : x ∈ sortedSet l ↔ x ∈ l := by
  rw [sortedSet, List.mem_insertionSort, List.mem_eraseDups]

/-- `s.splitlines(keepends=True)`. -/
def splitlinesKeep : Str → List Str
  | [] => []
  | '\r' :: '\n' :: s => ['\r', '\n'] :: splitlinesKeep s
  | c :: s =>
    if endsLine c then [c] :: splitlinesKeep s
    else match splitlinesKeep s with
      | [] => [[c]]
      | l :: ls => (c :: l) :: ls

/-- What is left behind `volumes:` and the blanks up to the last end of a line. -/
def headerEnd (s : Str) : Option Str :=
  if startsWith (lit "volumes:") s then
    let r := s.drop 8
    let ws := r.takeWhile isSpace
    if ws = r then some []
    else if '\n' ∈ ws then some ('\n' :: ((ws.reverse.takeWhile (· != '\n')).reverse ++ r.drop ws.length))
    else none
  else none

/-- The text before the first `volumes:` of its own line, and behind it. -/
def volumesHeader : Bool → Str → Option (Str × Str)
  | _, [] => none
  | lineStart, c :: s =>
    match if lineStart then headerEnd (c :: s) else none with
    | some rest => some ([], rest)
    | none => (volumesHeader (c == '\n') s).map fun p => (c :: p.1, p.2)

/-- The text before the next top-level key, and from it on. -/
def untilTopKey : Bool → Str → Str × Str
  | _, [] => ([], [])
  | lineStart, c :: s =>
    if lineStart && (isAlnum c && !isDigit c) then ([], c :: s)
    else ((c :: (untilTopKey (c == '\n') s).1), (untilTopKey (c == '\n') s).2)

/-- `^  ([A-Za-z0-9][A-Za-z0-9_.-]*):\s*(?:#.*)?$`. -/
def volumeKey (line : Str) : Option Str :=
  if startsWith (lit "  ") line then
    let name := (line.drop 2).takeWhile fun c => isAlnum c || c == '_' || c == '.' || c == '-'
    let rest := line.drop (2 + name.length)
    if (name.head?.any isAlnum) ∧ startsWith (lit ":") rest ∧ ((lstripWhere isSpace rest.tail).head?.all (· == '#')) then some name else none
  else none

def syncComposeNamedVolumes (text : Str) (namedVolumes managedNames : List Str) : Str :=
  let named := namedVolumes.filter (· ≠ [])
  let managed := managedNames ++ named
  let entry (n : Str) : Str := lit "  " ++ n ++ lit ":\n"
  match volumesHeader true text with
  | none =>
    if named = [] then text
    else
      (if text ≠ [] ∧ ¬ endsWith (lit "\n") text then text ++ lit "\n" else text) ++ lit "\nvolumes:\n" ++ (sortedSet named).flatMap entry
  | some (before, rest) =>
    let (body, after) := untilTopKey true rest
    let lines := splitlinesKeep body
    let existing := lines.filterMap fun line => volumeKey (rstrip '\n' line)
    let otherLines := lines.filter fun line => (volumeKey (rstrip '\n' line)).isNone && strip line != []
    let final := sortedSet (existing.filter (· ∉ managed) ++ named)
    if final = [] ∧ otherLines = [] then rstripWhere isSpace before ++ '\n' :: after
    else before ++ lit "volumes:\n" ++ final.flatMap entry ++ (if final = [] then [] else otherLines.flatten) ++ after

/-- The values that a file may name. -/
def subValues (values : Dict Str Str) : Dict Str Str :=
  values.filter fun e => !startsWith (lit "__") e.1 && !endsWith (lit "__mode") e.1 && !endsWith (lit "__source") e.1

/-- The named volumes of the mounts, where none were counted. -/
def mountedNames (definition : TemplateDefinition) (values : Dict Str Str) : List Str :=
  (definition.vars.filter fun v => v.type = .volume).filterMap fun v =>
    let stored := (values.get? (modeKey v.name)).getD []
    let mount := (values.get? v.name).getD []
    if (if stored = [] then v.volumeDefaultMode.str else stored) = VolumeMode.named.str ∧ ':' ∈ mount then
      some (mount.takeWhile (· != ':'))
    else none

def renderTemplateFiles (definition : TemplateDefinition) (merged : Merged) : Except TemplateError (Dict Str Str) := do
  let rendered ← definition.fileContents.mapM fun f => (renderText f.2 (subValues merged.values)).map (f.1, ·)
  let named := if merged.namedVolumes = [] then mountedNames definition merged.values else sortedSet merged.namedVolumes
  .ok (rendered.map fun f =>
    if f.1 ∈ [lit "docker-compose.yml", lit "compose.yml", lit "compose.yaml"] then
      (f.1, syncComposeNamedVolumes f.2 named (sortedSet merged.managedVolumeNames))
    else f)

/-- The public values and the secret ones. -/
def splitSecrets (definition : TemplateDefinition) (values : Dict Str Str) : Dict Str Str × Dict Str Str :=
  let kept := values.filter fun e => !startsWith (lit "__") e.1
  (kept.filter fun e => e.1 ∉ definition.secretVarNames, kept.filter fun e => e.1 ∈ definition.secretVarNames)

end PiHerder.Stacks
