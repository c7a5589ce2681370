import PiHerder.Auth.Tokens

/-!
# Consoles: slots and parked PTYs (`services/ssh_console.py`)

A console in use holds a slot of its user. When the browser drops the socket the PTY is parked under a resume
id, its slot still held, until it is claimed, discarded or expired.

| here | there |
| --- | --- |
| `tryAcquireSlot`, `releaseSlot` | `try_acquire_slot` (`:1195`), `release_slot` (`:1210`) |
| `parkConsole`, `getHeld`, `claimResume` | `:1305`, `:1316`, `:1324` |
| `destroyHeld`, `discardParkedForUser`, `discardAllParkedForUser` | `:1442`, `:1459`, `:1489` |

`released` is kept beside the module's own state: the slots given back so far, in order. The clock is
`time.monotonic`, in milliseconds. Output buffers, recorders and multiplexer names are left out.
-/
namespace PiHerder.Console
open Lib Lib.Str Auth

/-- A parked PTY. `slot` names the slot it was opened with, and with it the SSH channel. -/
structure HeldConsole where
  resumeId : Str
  userId : Nat
  serverId : Int
  sessionVersion : Int
  ticketPayload : Payload := []
  deviceId : Str := []
  startedMono : Nat
  lastActivityMono : Nat
  heldAtMono : Nat
  dead : Bool := false
  slot : Nat
deriving DecidableEq, Repr

/-- `_live_by_user`, `_live_global` and `_held_sessions`. -/
structure Slots where
  liveByUser : Dict Nat Nat := []
  liveGlobal : Nat := 0
  held : Dict Str HeldConsole := []
  released : List Nat := []
deriving Repr

def Slots.live (s : Slots) (userId : Nat) : Nat := (s.liveByUser.get? userId).getD 0

/-- The `ConsoleDenied` of the slots. -/
inductive SlotError | disabled | tooManyGlobal | tooManyUser
deriving DecidableEq, Repr

def tryAcquireSlot (p : Policy) (userId : Nat) (s : Slots) : Except SlotError Slots :=
  if !p.consoleEnabled then .error .disabled
  else if p.maxGlobal ≤ s.liveGlobal then .error .tooManyGlobal
  else if p.maxPerUser ≤ s.live userId then .error .tooManyUser
  else .ok { s with liveByUser := s.liveByUser.set userId (s.live userId + 1), liveGlobal := s.liveGlobal + 1 }

def releaseSlot (userId slot : Nat) (s : Slots) : Slots :=
  { s with
    liveByUser := if s.live userId ≤ 1 then s.liveByUser.del userId else s.liveByUser.set userId (s.live userId - 1)
    liveGlobal := s.liveGlobal - 1
    released := s.released ++ [slot] }

/-- An entry of the same resume id is marked dead, and replaced. -/
def parkConsole (h : HeldConsole) (s : Slots) : Slots := { s with held := s.held.set h.resumeId h }

def getHeld (resumeId : Str) (s : Slots) : Option HeldConsole := (s.held.get? resumeId).filter fun h => !h.dead

/-- `_destroy_held_resources`: the channel is closed and the slot given back. -/
def destroyHeldResources (h : HeldConsole) (s : Slots) : Slots := releaseSlot h.userId h.slot s

def destroyHeld (resumeId : Str) (s : Slots) : Slots :=
  match s.held.get? resumeId with
  | none => s
  | some h => destroyHeldResources h { s with held := s.held.del resumeId }

def discardParkedForUser (resumeId : Str) (userId : Nat) (serverId : Option Int) (s : Slots) : Slots :=
  let rid := strip resumeId
  if rid.isEmpty then s
  else match s.held.get? rid with
    | none => s
    | some h =>
      if h.dead then { s with held := s.held.del rid }
      else if h.userId ≠ userId then s
      else if serverId.any fun sid => h.serverId != sid then s
      else destroyHeldResources h { s with held := s.held.del rid }

def discardAllParkedForUser (userId : Nat) (s : Slots) : Slots :=
  ((s.held.filter fun e => e.2.userId == userId).map Prod.fst).foldl (fun s rid => destroyHeld rid s) s

/-- `held_should_expire`. -/
def heldShouldExpire (p : Policy) (now : Nat) (h : HeldConsole) : Bool :=
  decide (1000 * p.idleSec < now - h.lastActivityMono) || decide (1000 * p.maxSessionSec < now - h.startedMono) ||
    (p.holdSec != 0 && decide (1000 * p.holdSec < now - h.heldAtMono))

/-! ## Resuming -/

/-- The reasons of `binding_still_valid` (ssh_console.py:1150). -/
inductive BindingLost | ipChanged | deviceChanged
deriving DecidableEq, Repr

def bindingStillValid (c : Codec) (p : Policy) (o : Origin) (t : Payload) : Option BindingLost :=
  if (p.consoleBindIp && truthy (t.get? .iph)) = true ∧ t.get? .iph ≠ some (.str (hashBinding c (normalizeIp o.clientIp))) then
    some .ipChanged
  else if (p.consoleBindDevice && truthy (t.get? .did)) = true ∧
      t.get? .did ≠ some (.str (hashBinding c (o.deviceId.getD []))) then
    some .deviceChanged
  else none

inductive ResumeError
  | disabled | missing | expired | otherSession | sessionChanged | otherDevice | otherAddress | idle | max | hold
deriving DecidableEq, Repr

/-- The conditions under which a parked PTY is handed to a caller. -/
def resumeCheck (c : Codec) (p : Policy) (now : Nat) (who : Caller) (serverId : Int) (h : HeldConsole) : Except ResumeError Unit :=
  let sameDevice := who.origin.deviceId == some h.deviceId
  let lost := bindingStillValid c p who.origin h.ticketPayload
  if h.userId ≠ who.userId ∨ h.serverId ≠ serverId then .error .otherSession
  else if h.sessionVersion ≠ who.sessionVersion then .error .sessionChanged
  else if (p.consoleBindDevice && !h.deviceId.isEmpty && (who.origin.deviceId.getD [] != h.deviceId)) = true ∧
      lost = some .deviceChanged then .error .otherDevice
  else if (p.consoleBindIp && truthy (h.ticketPayload.get? .iph)) = true ∧ lost = some .ipChanged ∧
      (p.consoleBindDevice && !h.deviceId.isEmpty && sameDevice) = false then .error .otherAddress
  else if 1000 * p.idleSec < now - h.lastActivityMono then .error .idle
  else if 1000 * p.maxSessionSec < now - h.startedMono then .error .max
  else if p.holdSec ≠ 0 ∧ 1000 * p.holdSec < now - h.heldAtMono then .error .hold
  else .ok ()

/-- `claim_resume`: the entry is taken out first, and destroyed when a check fails. -/
def claimResume (c : Codec) (p : Policy) (now : Nat) (resumeId : Str) (who : Caller) (serverId : Int) (s : Slots) :
    Except ResumeError HeldConsole × Slots :=
  let rid := strip resumeId
  if !p.consoleEnabled then (.error .disabled, s)
  else if rid.isEmpty then (.error .missing, s)
  else match s.held.get? rid with
    | none => (.error .expired, s)
    | some h =>
      let s := { s with held := s.held.del rid }
      if h.dead then (.error .expired, s)
      else match resumeCheck c p now who serverId h with
        | .error e => (.error e, destroyHeldResources h s)
        | .ok () => (.ok h, s)

end PiHerder.Console
