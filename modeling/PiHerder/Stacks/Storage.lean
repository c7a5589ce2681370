import PiHerder.Lib.Replace
import PiHerder.Stacks.Templates

/-!
# What is stored of a stack's files

| here | there (`services/service_templates/`) |
| --- | --- |
| `formatEnvFile` | `harden.py` (43–51) |
| `maskSecretsInFiles`, `filesForDbStorage` | `schema.py` (662–681, 781–802) |
| `mergeSecretsIntoEnvFiles`, `normalizeComposeText`, `diffEnvDesiredVsHost` | `deploy.py` (37–58, 582–660) |
| `primaryComposeKey` | `docker_versions.py` (75–88) |
-/
namespace PiHerder.Stacks
open Lib Lib.Str

/-- The keys in order. -/
def formatEnvFile (values : Dict Str Str) : Str :=
  (values.insertionSort fun a b => a.1 ≤ b.1).flatMap fun kv => kv.1 ++ '=' :: kv.2 ++ ['\n']

def envPath : Str := lit ".env"

/-- `files.get(".env") or ""`. -/
def envText (files : Dict Str Str) : Str := (files.get? envPath).getD []

/-- The values that are looked for in the files, the longest first. -/
def maskedValues (secretValues : Dict Str Str) : List Str :=
  ((secretValues.map Prod.snd).filter fun v => 4 ≤ v.length).insertionSort fun a b => b.length ≤ a.length

def maskText (secretValues : Dict Str Str) (text : Str) : Str :=
  (maskedValues secretValues).foldl (fun text value => replaceAll value secretMask text) text

def maskSecretsInFiles (files secretValues : Dict Str Str) : Dict Str Str := files.map fun f => (f.1, maskText secretValues f.2)

/-- The keys of the secrets stay, without their values. -/
def emptied (env secretsMap : Dict Str Str) : Dict Str Str := secretsMap.foldl (fun env e => env.set e.1 []) env

def filesForDbStorage (files secretsMap : Dict Str Str) : Dict Str Str :=
  let out : Dict Str Str := files.filter fun f => !startsWith (lit "secrets/") (f.1.map fun c => if c = '\\' then '/' else c)
  let out := maskSecretsInFiles out secretsMap
  out.set envPath (formatEnvFile (emptied (parseEnvFile (envText out)) secretsMap))

/-- The secrets that have a value, over the others. -/
def withSecrets (env secretsMap : Dict Str Str) : Dict Str Str := (secretsMap.filter (·.2 ≠ [])).foldl (fun env e => env.set e.1 e.2) env

def mergeSecretsIntoEnvFiles (files secretsMap : Dict Str Str) : Dict Str Str :=
  let out : Dict Str Str := files.filter fun f => !startsWith (lit "secrets/") f.1
  let env := withSecrets (parseEnvFile (envText out)) secretsMap
  out.set envPath (if env = [] then envText out else formatEnvFile env)

/-! ## Drift -/

/-- `text.replace("\r\n", "\n")`, lines without trailing blanks, and no empty ones at the end. -/
def normalizeComposeText (text : Str) : Str :=
  let lines := (split '\n' (replaceAll (lit "\r\n") (lit "\n") text)).map (rstripWhere isSpace)
  (lines.rdropWhile (· = [])).flatMap (· ++ ['\n'])

/-- The keys that differ. `none` is a file in sync. -/
def diffEnvDesiredVsHost (wantBody : Str) (hostBody : Option Str) : Option (List Str) :=
  let meaningful : Dict Str Str := (parseEnvFile wantBody).filter fun e => strip e.2 ≠ []
  let have_ := parseEnvFile (hostBody.getD [])
  if meaningful = [] then none
  else if hostBody.isNone then some meaningful.keys
  else
    let missing := meaningful.filter fun e => (have_.get? e.1).isNone
    let changed := meaningful.filter fun e => (have_.get? e.1).any (· ≠ e.2)
    if missing = [] ∧ changed = [] then none else some ((missing ++ changed).map Prod.fst)

def composeBasenames : List Str :=
  [lit "docker-compose.yml", lit "docker-compose.yaml", lit "compose.yml", lit "compose.yaml"]

def isMetaKey (name : Str) : Bool := startsWith (lit "__") name

def primaryComposeKey (files : Dict Str Str) : Option Str :=
  match composeBasenames.find? (· ∈ files.keys) with
  | some k => some k
  | none => files.keys.find? fun k =>
      let low := lower k
      !isMetaKey k && (endsWith (lit ".yml") low || endsWith (lit ".yaml") low) && !hasInfix (lit "override") low &&
        !hasInfix (lit "dockerfile") low

end PiHerder.Stacks
