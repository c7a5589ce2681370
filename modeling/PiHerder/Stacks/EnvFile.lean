import PiHerder.Lib.Dict
import PiHerder.Lib.Lines

/-!
# `.env` files

| here | there |
| --- | --- |
| `looksLikeSecretName`, `parseEnvFile` | `service_templates/harden.py` (8–40) |
| `isEnvFilename`, `isSecretsPath`, `redactEnvContent`, `restoreEnvContent`, `redactProjectFilesForUi`, `restoreProjectFilesOnSave` | `env_file_ui.py` |

A project is a dictionary of file contents by path. The editor shows it with the secret values of its `.env` files masked;
what it sends back is laid over the live files, and a value that is left blank or masked is the live one.
-/
namespace PiHerder.Stacks
open Lib Lib.Str

/-- Names compare by `re.I`: with the letters that fold to one of ours. -/
def foldCase (c : Char) : Char :=
  if c.toNat = 0x212a then 'k' else if c.toNat = 0x17f then 's' else if c.toNat = 0x130 ∨ c.toNat = 0x131 then 'i' else c.toLower

/-- The alternatives of `_SECRET_NAME_RE`, spelled out. -/
def secretNames : List Str :=
  [lit "password", lit "passwd", lit "secret", lit "token", lit "apikey", lit "api_key", lit "api-key", lit "privatekey",
    lit "private_key", lit "private-key", lit "rootpassword", lit "root_password", lit "root-password", lit "mysql_password",
    lit "credential"]

def looksLikeSecretName (name : Str) : Bool := secretNames.any fun w => hasInfix w (name.map foldCase)

def isNameStart (c : Char) : Bool := c == '_' || decide ('A' ≤ c ∧ c ≤ 'Z') || decide ('a' ≤ c ∧ c ≤ 'z')
def isNameChar (c : Char) : Bool := isNameStart c || isDigit c

/-- `[A-Za-z_][A-Za-z0-9_]*`. -/
def isName : Str → Bool
  | [] => false
  | c :: s => isNameStart c && s.all isNameChar

/-- `_ENV_FILE_LINE_RE` on a stripped line. -/
def envFileLine (s : Str) : Option (Str × Str) := (splitOnce '=' s).filter fun kv => isName kv.1

/-- Blank lines and comments. -/
def isRemark (line : Str) : Bool := strip line == [] || (strip line).head? == some '#'

def parseEnvFile (content : Str) : Dict Str Str :=
  (splitlines content).foldl (fun out line =>
    if isRemark line then out
    else match envFileLine (strip line) with
      | some (k, v) => out.set k v
      | none => out) []

/-- What holds of no lines and is kept by each assignment holds of the file. -/
theorem parseEnvFile_induction {P : Dict Str Str → Prop} {text : Str} (h₀ : P [])
    (hset : ∀ out line k v, line ∈ splitlines text → envFileLine (strip line) = some (k, v) → P out → P (out.set k v)) :
    P (parseEnvFile text) := by
  unfold parseEnvFile
  refine List.foldlRecOn (splitlines text) _ h₀ fun out hout line hline => ?_
  split
  · exact hout
  · split
    · rename_i k v hkv
      exact hset out line k v hline hkv hout
    · exact hout

theorem nodup_parseEnvFile (text : Str) : (parseEnvFile text).keys.Nodup :=
  parseEnvFile_induction (P := fun out => out.keys.Nodup) List.nodup_nil fun _ _ _ _ _ _ h => Dict.keys_set_nodup h

/-! ## The compose editor -/

def secretMask : Str := lit "********"

/-- The last part of a path, with either slash. -/
def lastPart (name : Str) : Str := basename (name.map fun c => if c = '\\' then '/' else c)

def isEnvFilename (name : Str) : Bool := lastPart name == lit ".env" || startsWith (lit ".env.") (lastPart name)

def isSecretsPath (name : Str) : Bool :=
  let p := name.map fun c => if c = '\\' then '/' else c
  startsWith (lit "secrets/") p || hasInfix (lit "/secrets/") p

/-- A line that both editors read as an assignment: any text before a `=`. -/
def isAssignment (line : Str) : Bool := !isRemark line && line.contains '='

def lineKey (line : Str) : Str := strip (line.takeWhile (· != '='))
def lineValue (line : Str) : Str := (line.dropWhile (· != '=')).tail

/-- Shown masked. -/
def isMasked (extra : List Str) (line : Str) : Bool := isAssignment line && (extra.contains (lineKey line) || looksLikeSecretName (lineKey line))

def redactLine (extra : List Str) (line : Str) : Str :=
  if isMasked extra line then lineKey line ++ '=' :: secretMask else line

def redactEnvContent (content : Str) (extra : List Str) : Str := mapLines (redactLine extra) content

/-- The live file's value of a key, where it is not empty. -/
def liveOf (live : Dict Str Str) (key : Str) : Option Str := (live.get? key).filter (· ≠ [])

/-- Blank, or still the mask. -/
def isLeftBlank (line : Str) : Bool := strip (lineValue line) == [] || strip (lineValue line) == secretMask

def restoreLine (live : Dict Str Str) (line : Str) : Str :=
  if isAssignment line && isLeftBlank line then
    match liveOf live (lineKey line) with
    | some v => lineKey line ++ '=' :: v
    | none => line
  else line

def restoreEnvContent (submitted live : Str) : Str := mapLines (restoreLine (parseEnvFile live)) submitted

def redactFile (extra : List Str) (path text : Str) : Str :=
  if isSecretsPath path then (if text = [] then [] else secretMask)
  else if isEnvFilename path then redactEnvContent text extra
  else text

def redactProjectFilesForUi (files : Dict Str Str) (reveal : Bool) (extra : List Str) : Dict Str Str :=
  if reveal then files else files.map fun f => (f.1, redactFile extra f.1 f.2)

def restoreFile (path text live : Str) : Str :=
  if isSecretsPath path then
    if (strip text = [] ∨ strip text = secretMask) ∧ live ≠ [] then live else text
  else if isEnvFilename path then restoreEnvContent text live
  else text

/-- The submitted files over the live ones. -/
def restoreProjectFilesOnSave (submitted live : Dict Str Str) : Dict Str Str :=
  submitted.foldl (fun out f => out.set f.1 (restoreFile f.1 f.2 ((live.get? f.1).getD []))) live

end PiHerder.Stacks
