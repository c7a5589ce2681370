import PiHerder.Jobs.Model
import PiHerder.Migrate.CopyLoop
import PiHerder.Migrate.Undo

/-!
# The pipeline of a Move

`run_copy_and_start` (`service_migrate/pipeline.py:84`) with `apply_leftover`
(`service_migrate/leftover.py:259`), as the Celery job calls it: no test hooks, live inspection on.

Every call to a host, to the fabric or to the database is a `Call`; it is answered by `world n`, where
`n` counts the calls before it, with a report or with any exception. The state remembers the calls in
order. The steps reported through `on_step` cannot fail the run and are remembered too.
-/
namespace PiHerder.Migrate
open Lib Lib.Str

/-! ## Exceptions and calls -/

/-- The names of the pipeline's steps, and of `failed_step`. -/
inductive Step
  | preflight | stop | copy | destUp | cutover | rebind | validate | leftover
deriving DecidableEq, Repr

/-- The exception classes the pipeline tells apart. `other` is any class without a handler here: an SSH
`RuntimeError`, a database error, an `OSError`. -/
inductive PyExc
  | copyError (message : Str)
  | cutoverError (message : Str)
  | validateError (message : Str)
  | leftoverError (message : Str)
  | migrateError (message : Str) (failedStep : Option Step)
  | hostLockError (message : Str)
  | typeError (message : Str)
  | other (message : Str)
deriving DecidableEq, Repr

/-- `getattr(e, "failed_step", None)`. -/
def PyExc.failedStep : PyExc → Option Step
  | .migrateError _ step => step
  | _ => none

inductive Call
  | stop (path : Str)
  | pullProject
  | pull (src : Str) (asFile : Bool)
  | volume (name destName : Str)
  | overrides
  | push (dest : Str) (delete : Bool)
  | chown (path : Str)
  | removeGhosts (project : Str)
  | up (path : Str)
  | cutover
  | rebind
  | validate
  | down (path : Str)
  | removeVolume (name : Str)
  | removeTree (path : Str)
  | leftoverRows
deriving DecidableEq, Repr

/-- The answer to a call. -/
abbrev Answer := Except PyExc Report

structure RunState where
  calls : List Call := []
  steps : List Step := []
deriving DecidableEq, Repr

abbrev PipeM := Eff RunState PyExc

def step (name : Step) : PipeM Unit := Eff.modify fun s => { s with steps := s.steps ++ [name] }

def call (world : Nat → Answer) (c : Call) : PipeM Report := fun s =>
  (world s.calls.length, { s with calls := s.calls ++ [c] })

/-- A call whose report is not read. -/
def run (world : Nat → Answer) (c : Call) : PipeM Unit := do
  let _ ← call world c
  pure ()

/-- A call whose report decides: `raise err(report)` when it is not ok. -/
def checked (world : Nat → Answer) (c : Call) (err : Report → PyExc) : PipeM Unit := do
  let r ← call world c
  if r.ok then pure () else Eff.raise (err r)

/-- `_guard_copy` (pipeline.py:163): only a `CopyError` becomes a failure of the step `copy`. -/
def guardCopy (m : PipeM Unit) : PipeM Unit :=
  Eff.tryCatch m fun
    | .copyError message => Eff.raise (.migrateError message (some .copy))
    | e => Eff.raise e

/-- `try: m  except TypeError: again`. -/
def retrying (m again : PipeM Unit) : PipeM Unit :=
  Eff.tryCatch m fun
    | .typeError _ => again
    | e => Eff.raise e

/-- `_ssh_fail_detail` (pipeline.py:52), without the cut at 1500 characters. -/
def sshFailDetail (r : Report) (fallback : Str) : Str :=
  if r.error ≠ [] ∧ r.output ≠ [] ∧ ¬ hasInfix r.error r.output then r.error ++ '\n' :: r.output
  else if r.output ≠ [] then r.output else if r.error ≠ [] then r.error else fallback

/-! ## The input of a Move -/

structure MoveHost where
  id : Nat
  name : Str := []
  /-- `docker_base_abs`. -/
  dockerBase : Str
deriving DecidableEq, Repr

/-- The arguments of `run_copy_and_start`, what the source's inventory holds, and what the hosts would
answer to a question about a path. -/
structure MoveInput where
  source : MoveHost
  dest : MoveHost
  project : Str
  destProject : Str
  portMap : Dict Str Str := []
  bindMap : Dict Str Str := []
  skipBinds : List Str := []
  leftover : Str := lit "stopped"
  devicesAck : Bool := false
  containers : Option (List Container)
  /-- The message of the `devices` warning, when the preflight gives it. -/
  devicesWarn : Option Str := none
  otherBlocks : List Str := []
  kindOf : Str → RemoteKind := fun _ => .dir

def MoveInput.preflightInput (m : MoveInput) (name : Str) : PreflightInput where
  project := name
  destProject := some m.destProject
  portMap := m.portMap
  overrides := m.bindMap.map (fun e => ⟨e.1, e.2, false⟩) ++ m.skipBinds.map fun src => ⟨src, [], true⟩
  srcBase := m.source.dockerBase
  dstBase := m.dest.dockerBase
  containers := m.containers
  otherBlocks := m.otherBlocks

def MoveInput.preflight (m : MoveInput) (name : Str) : Preflight := runPreflight (m.preflightInput name)

def MoveInput.copyInput (m : MoveInput) (name : Str) : CopyInput :=
  let pf := m.preflight name
  { name := name
    destName := pf.destProject
    srcBase := rstrip '/' m.source.dockerBase
    dstBase := rstrip '/' m.dest.dockerBase
    bindMap := pf.bindMap
    skips := m.skipBinds ++ pf.skipBinds
    kindOf := m.kindOf }

def MoveInput.plan (m : MoveInput) (name : Str) : List CopyStep :=
  (m.copyInput name).copyPlan [] (m.preflight name).dataset.items

/-! ## The copy -/

def copyStep (world : Nat → Answer) (kindOf : Str → RemoteKind) : CopyStep → PipeM Unit
  | .volume v d => retrying (guardCopy (run world (.volume v d))) (guardCopy (run world (.volume v v)))
  | .fold src _ =>
    let asFile := decide (kindOf src = .file)
    retrying (guardCopy (run world (.pull src asFile))) (guardCopy (run world (.pull src false)))
  | .bind src dest => do
    retrying (guardCopy (run world (.pull src false))) (guardCopy (run world (.pull src false)))
    retrying (guardCopy (run world (.push dest true))) (guardCopy (run world (.push dest false)))
  | .refuse src =>
    Eff.raise (.migrateError (lit "refusing truncated inventory bind path: " ++ src) (some .copy))

/-- From the first pull to the ghosts of an earlier attempt (pipeline.py:199-369). -/
def copyPhase (world : Nat → Answer) (m : MoveInput) (name : Str) : PipeM Unit := do
  let c := m.copyInput name
  retrying (guardCopy (run world .pullProject)) (guardCopy (run world .pullProject))
  Eff.forEach (copyStep world m.kindOf) (m.plan name)
  run world .overrides
  retrying (guardCopy (run world (.push c.dstProj true))) (guardCopy (run world (.push c.dstProj false)))
  retrying (guardCopy (run world (.chown c.dstProj)))
    (retrying (guardCopy (run world (.chown c.dstProj))) (guardCopy (run world (.chown c.dstProj))))
  checked world (.removeGhosts c.destName) fun r =>
    .migrateError (if r.error ≠ [] then r.error else lit "failed to remove leftover dest containers") (some .destUp)

/-! ## Names -/

def cutoverPhase (world : Nat → Answer) : PipeM Unit :=
  Eff.tryCatch (retrying (run world .cutover) (run world .cutover)) fun
    | .cutoverError message => Eff.raise (.migrateError message (some .cutover))
    | e => Eff.raise e

/-- `str(e)`. -/
def PyExc.message : PyExc → Str
  | .copyError m | .cutoverError m | .validateError m | .leftoverError m | .migrateError m _ | .hostLockError m
  | .typeError m | .other m => m

/-- The rebind turns every exception into a failure of its step. -/
def rebindPhase (world : Nat → Answer) : PipeM Unit :=
  Eff.tryCatch (retrying (run world .rebind) (run world .rebind)) fun
    | .migrateError message s => Eff.raise (.migrateError message s)
    | e => Eff.raise (.migrateError e.message (some .rebind))

def validatePhase (world : Nat → Answer) : PipeM Unit :=
  Eff.tryCatch (run world .validate) fun
    | .validateError message => Eff.raise (.migrateError message (some .validate))
    | e => Eff.raise e

/-! ## Leftover -/

inductive LeftoverMode
  | stopped | down | remove
deriving DecidableEq, Repr

/-- `normalize_leftover` (leftover.py:38). -/
def normalizeLeftover (raw : Str) : LeftoverMode :=
  let v := lower (strip raw)
  if v = lit "down" then .down else if v = lit "remove" then .remove else .stopped

/-- `named_volumes_from_dataset` (leftover.py:52). -/
def namedVolumesFromDataset : List Str → List DatasetItem → List Str
  | _, [] => []
  | seen, it :: items =>
    let vol := strip it.volume
    let vol := if it.kind = .named ∧ vol = [] then (namedVolumeId it.source [] []).getD [] else vol
    if vol = [] ∨ '/' ∈ vol ∨ hasInfix (lit "..") vol ∨ vol ∈ seen then namedVolumesFromDataset seen items
    else vol :: namedVolumesFromDataset (vol :: seen) items

/-- `jailed_source_project_path` (leftover.py:69) of a checked name. -/
def jailedSourceProjectPath (source : MoveHost) (name : Str) : Except PyExc Str :=
  let base := rstrip '/' source.dockerBase
  if base = [] then .error (.leftoverError (lit "refusing leftover wipe: docker base is empty or /"))
  else
    let path := base ++ '/' :: name
    if rstrip '/' path ∈ [[], lit "/", base, lit "/home", lit "/var", lit "/opt", lit "/usr"] then
      .error (.leftoverError (lit "refusing leftover wipe: path is not a project dir"))
    else .ok path

def lift {α : Type} (x : Except PyExc α) : PipeM α :=
  match x with
  | .ok a => pure a
  | .error e => Eff.raise e

def leftoverFailed (fallback : Str) (r : Report) : PyExc := .leftoverError (if r.error ≠ [] then r.error else fallback)

/-- The path to remove: the given one, else the jailed one. -/
def leftoverPath (source : MoveHost) (name srcProj : Str) : Except PyExc Str :=
  if rstrip '/' srcProj ≠ [] then .ok (rstrip '/' srcProj) else jailedSourceProjectPath source name

/-- `apply_leftover` (leftover.py:259). -/
def applyLeftover (world : Nat → Answer) (source dest : MoveHost) (name : Str) (mode : LeftoverMode)
    (items : List DatasetItem) (srcProj : Str) : PipeM Unit :=
  if mode = .stopped then pure ()
  else if source.id = dest.id then
    Eff.raise (.leftoverError (lit "refusing leftover wipe: source and dest are the same host"))
  else do
    let path ← lift (leftoverPath source name srcProj)
    let want ← lift (jailedSourceProjectPath source name)
    if path ≠ want then
      Eff.raise (.leftoverError (lit "refusing leftover wipe: project path is not the source project"))
    else do
      checked world (.down path) (leftoverFailed (lit "source compose down failed"))
      if mode = .down then pure ()
      else do
        Eff.forEach (fun vol => checked world (.removeVolume vol) (leftoverFailed (lit "volume rm failed")))
          (namedVolumesFromDataset [] items)
        checked world (.removeTree path) (leftoverFailed (lit "source project dir remove failed"))
        run world .leftoverRows

def leftoverPhase (world : Nat → Answer) (m : MoveInput) (name : Str) : PipeM Unit :=
  Eff.tryCatch
    (applyLeftover world m.source m.dest name (normalizeLeftover m.leftover) (m.preflight name).dataset.items
      (m.copyInput name).srcProj)
    fun
    | .leftoverError message => Eff.raise (.migrateError message (some .leftover))
    | e => Eff.raise e

/-! ## The run -/

/-- What the preflight refuses. -/
def MoveInput.gate (m : MoveInput) (name : Str) : Except PyExc Unit :=
  let pf := m.preflight name
  if ¬ pf.ok then .error (.migrateError (lit "preflight blocked: " ++ (pf.blocks.intersperse (lit "; ")).flatten) (some .preflight))
  else match m.devicesWarn with
  | some warn =>
    if m.devicesAck then .ok ()
    else .error (.migrateError (warn ++ lit ": lock the project or acknowledge the warning") (some .preflight))
  | none => .ok ()

def stopFailed (r : Report) : PyExc := .migrateError (sshFailDetail r (lit "compose stop failed")) (some .stop)
def upFailed (r : Report) : PyExc := .migrateError (sshFailDetail r (lit "dest up failed")) (some .destUp)

def runCopyAndStart (world : Nat → Answer) (m : MoveInput) : PipeM Unit := do
  step .preflight
  match composeProjectName m.project with
  | .error message => Eff.raise (.hostLockError message)
  | .ok name => do
    lift (m.gate name)
    step .stop
    checked world (.stop (m.copyInput name).srcProj) stopFailed
    step .copy
    copyPhase world m name
    step .destUp
    checked world (.up (m.copyInput name).dstProj) upFailed
    step .cutover
    cutoverPhase world
    rebindPhase world
    step .validate
    validatePhase world
    step .leftover
    leftoverPhase world m name

end PiHerder.Migrate
