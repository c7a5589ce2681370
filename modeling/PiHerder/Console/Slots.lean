import PiHerder.Console.SingleUse
import PiHerder.Lib.Leases

/-!
# The console socket, and who holds a slot (`routers/server_console.py`)

`console_websocket` is one coroutine a socket. It takes a slot with a ticket, or takes a parked PTY over with its
slot; in the end it parks the PTY under its resume id or closes it and gives the slot back. A hold-watch runs for
every time that a PTY was parked.

| here | there |
| --- | --- |
| `Socket`, `socketStep` | `console_websocket` (`:968`); a field for each local variable |
| `watchTick`            | one round of `_console_hold_watch` (`:941`) |
| `discard`, `logout`    | the route `console/discard` (`:840`), `auth.py:835` |

Whatever may happen at an await is an event of its own: an exception, an early return, a dropped socket. Between
two awaits nothing else runs. The coroutine is not cancelled from outside, which only the end of the process does. Slots are numbered as they are taken: `acquired` counts them, and `slot` names the
one behind `slot_held`.
-/
namespace PiHerder.Console
open Lib Lib.Str Auth

/-- Where the coroutine is: before the first message is dealt with, between the slot and the loop, in the loop, or
at the message that tells of the end. -/
inductive Stage | handshake | opening | attached | closing
deriving DecidableEq, Repr

structure Socket where
  serverId : Int
  resumeId : Str
  userId : Option Nat := none
  expectedSv : Int := 0
  ticketPayload : Payload := []
  deviceId : Str := []
  slot : Option Nat := none
  /-- `client` and `channel` are there. -/
  channel : Bool := false
  startedMono : Nat
  lastActivity : Nat
  parkOnExit : Bool := false
  intentionalClose : Bool := false
  stop : Bool := false
  stage : Stage := .handshake
deriving Repr

structure ConsoleState where
  now : Nat := 0
  policy : Policy := {}
  store : JtiStore := {}
  slots : Slots := {}
  sockets : Dict Nat Socket := []
  /-- The resume ids of the hold-watches. -/
  watchers : List Str := []
  acquired : Nat := 0
  /-- The resume ids drawn so far. -/
  drawn : List Str := []

/-- What ends the loop: the socket is dropped; the shell ended, idled or took too long; a binding no longer holds
(found while sending, or while waiting for a message); `bye`; an exception, which the end of the pump may hide. -/
inductive LoopEnd
  | drop | over | authLost | refused | bye
  | raised (hidden : Bool)
deriving DecidableEq, Repr

inductive SocketEvent
  | connect (serverId : Int) (resumeId : Str)
  | auth (ticket : Payload) (who : Caller) (redis : RedisCall)
  | resume (token : Str) (who : Caller)
  | opened
  | attach
  /-- An exception or an early return before the loop. -/
  | returns
  | activity
  | ends (r : LoopEnd)
  | leave (channelGone : Bool)
  /-- The last message has been sent, or could not be. -/
  | closed

def Socket.ends (x : Socket) : LoopEnd → Socket
  | .drop => { x with stop := true }
  | .over | .refused => { x with stop := true, parkOnExit := false }
  | .authLost | .bye => { x with stop := true, parkOnExit := false, intentionalClose := true }
  | .raised hidden => { x with stop := true, parkOnExit := x.parkOnExit && hidden }

/-- `do_park`. -/
def Socket.doPark (x : Socket) (channelGone : Bool) : Bool :=
  x.parkOnExit && !x.intentionalClose && x.channel && x.userId.isSome && !channelGone

def Socket.toHeld (x : Socket) (now : Nat) : HeldConsole where
  resumeId := x.resumeId
  userId := x.userId.getD 0
  serverId := x.serverId
  sessionVersion := x.expectedSv
  ticketPayload := x.ticketPayload
  deviceId := x.deviceId
  startedMono := x.startedMono
  lastActivityMono := x.lastActivity
  heldAtMono := now
  slot := x.slot.getD 0

section Steps
variable (c : Codec)

def ConsoleState.put (s : ConsoleState) (i : Nat) (x : Socket) : ConsoleState := { s with sockets := s.sockets.set i x }

/-- The socket's user, as far as the cookie goes. -/
def Socket.known (x : Socket) (who : Caller) : Socket :=
  { x with userId := some who.userId, expectedSv := who.sessionVersion, deviceId := who.origin.deviceId.getD [] }

def authSocket (s : ConsoleState) (i : Nat) (x : Socket) (ticket : Payload) (who : Caller) (redis : RedisCall) : ConsoleState :=
  match consumeTicket c s.policy s.now 0 redis ticket who x.serverId s.store with
  | (.error _, store) => { s.put i { x.known who with stage := .closing } with store := store }
  | (.ok t, store) => match tryAcquireSlot s.policy who.userId s.slots with
    | .error _ => { s.put i { x.known who with ticketPayload := t, stage := .closing } with store := store }
    | .ok slots =>
      { s.put i { x.known who with ticketPayload := t, slot := some s.acquired, stage := .opening } with
        store := store
        slots := slots
        acquired := s.acquired + 1 }

def resumeSocket (s : ConsoleState) (i : Nat) (x : Socket) (token : Str) (who : Caller) : ConsoleState :=
  match claimResume c s.policy s.now token who x.serverId s.slots with
  | (.error _, slots) => { s.put i { x.known who with stage := .closing } with slots := slots }
  | (.ok h, slots) =>
    let x' := { x.known who with
      slot := some h.slot
      channel := true
      ticketPayload := h.ticketPayload
      startedMono := h.startedMono
      lastActivity := h.lastActivityMono
      resumeId := h.resumeId
      stage := .opening }
    { s.put i x' with slots := slots }

/-- The `finally` of the coroutine up to its first await. -/
def leaveSocket (s : ConsoleState) (i : Nat) (x : Socket) (channelGone : Bool) : ConsoleState :=
  if x.doPark channelGone then
    { s with
      slots := parkConsole (x.toHeld s.now) s.slots
      sockets := s.sockets.del i
      watchers := s.watchers ++ [x.resumeId] }
  else s.put i { x with stage := .closing }

/-- The rest of it: the PTY is closed, and a slot that is held is given back. -/
def closeSocket (s : ConsoleState) (i : Nat) (x : Socket) : ConsoleState :=
  { s with
    sockets := s.sockets.del i
    slots := match x.userId, x.slot with
      | some u, some n => releaseSlot u n s.slots
      | _, _ => s.slots }

def socketStep (s : ConsoleState) (i : Nat) (e : SocketEvent) : ConsoleState :=
  match s.sockets.get? i, e with
  | none, .connect serverId resumeId =>
    { s.put i { serverId := serverId, resumeId := resumeId, startedMono := s.now, lastActivity := s.now } with
      drawn := s.drawn ++ [resumeId] }
  | some x, e => match x.stage, e with
    | .handshake, .auth ticket who redis => authSocket c s i x ticket who redis
    | .handshake, .resume token who => resumeSocket c s i x token who
    | .handshake, .returns => s.put i { x with stage := .closing }
    | .opening, .opened =>
      if x.channel then s else s.put i { x with channel := true, startedMono := s.now, lastActivity := s.now }
    | .opening, .attach => if x.channel then s.put i { x with parkOnExit := true, stage := .attached } else s
    | .opening, .returns => s.put i { x with stage := .closing }
    | .attached, .activity => s.put i { x with lastActivity := s.now }
    | .attached, .ends r => s.put i (x.ends r)
    | .attached, .leave channelGone => if x.stop then leaveSocket s i x channelGone else s
    | .closing, .closed => closeSocket s i x
    | _, _ => s
  | _, _ => s

/-- What `drain_held_channel` finds. -/
inductive Drain
  | died | raised
  | drained (progressed : Bool)
deriving DecidableEq, Repr

def HeldConsole.drained (h : HeldConsole) (now : Nat) (progressed : Bool) : HeldConsole :=
  if progressed then { h with lastActivityMono := now } else h

def watchTick (s : ConsoleState) (rid : Str) (drain : Drain) : ConsoleState :=
  if rid ∉ s.watchers then s
  else match getHeld rid s.slots with
    | none => { s with watchers := s.watchers.erase rid }
    | some h => match drain with
      | .died | .raised => { s with slots := destroyHeld rid s.slots, watchers := s.watchers.erase rid }
      | .drained progressed =>
        let h := h.drained s.now progressed
        let slots := { s.slots with held := s.slots.held.set rid h }
        if heldShouldExpire s.policy s.now h then
          { s with slots := destroyHeld rid slots, watchers := s.watchers.erase rid }
        else { s with slots := slots }

inductive ConsoleEvent
  | tick (ms : Nat)
  | configure (policy : Policy)
  | socket (i : Nat) (e : SocketEvent)
  | watch (rid : Str) (drain : Drain)
  | discard (tokens : List Str) (userId : Nat) (serverId : Int)
  | logout (userId : Nat)

def consoleStep (s : ConsoleState) : ConsoleEvent → ConsoleState
  | .tick ms => { s with now := s.now + ms }
  | .configure policy => { s with policy := policy }
  | .socket i e => socketStep c s i e
  | .watch rid drain => watchTick s rid drain
  | .discard tokens userId serverId =>
    { s with slots := tokens.foldl (fun slots t => discardParkedForUser t userId (some serverId) slots) s.slots }
  | .logout userId => { s with slots := discardAllParkedForUser userId s.slots }

/-- `mint_resume_id` draws no id twice. -/
def ConsoleEvent.Fresh (s : ConsoleState) : ConsoleEvent → Prop
  | .socket _ (.connect _ rid) => rid ∉ s.drawn
  | _ => True

end Steps

/-! ## What is held -/

/-- The slot of a console, with its user. -/
def Socket.lease (x : Socket) : Option (Nat × Nat) := x.userId.bind fun u => x.slot.map (u, ·)

def HeldConsole.lease (h : HeldConsole) : Nat × Nat := (h.userId, h.slot)

def socketLeases (d : Dict Nat Socket) : List (Nat × Nat) := d.filterMap fun e => e.2.lease

def heldLeases (d : Dict Str HeldConsole) : List (Nat × Nat) := d.map fun e => e.2.lease

/-- The attached consoles of a user, and the parked ones. -/
def ConsoleState.attached (s : ConsoleState) (u : Nat) : Nat := (socketLeases s.sockets).countP fun l => l.1 = u

def ConsoleState.parked (s : ConsoleState) (u : Nat) : Nat := s.slots.held.countP fun e => e.2.userId = u

/-- **The counters say how many consoles there are, and a slot has been given back, once, iff it was taken and no
console has it any more.** -/
structure Conserved (s : ConsoleState) : Prop where
  perUser : ∀ u, s.slots.live u = s.attached u + s.parked u
  total : s.slots.liveGlobal = (socketLeases s.sockets).length + s.slots.held.length
  sum : s.slots.liveGlobal = (s.slots.liveByUser.map Prod.snd).sum
  once : s.slots.released.Nodup
  released : ∀ n, n ∈ s.slots.released ↔ n < s.acquired ∧ (∀ e ∈ s.sockets, e.2.lease.all fun l => l.2 ≠ n) ∧
    ∀ e ∈ s.slots.held, e.2.slot ≠ n

/-- No count is raised above its limit of this moment. -/
def Capped (s s' : ConsoleState) : Prop :=
  ∀ u, s.slots.live u < s'.slots.live u → s'.slots.live u ≤ s.policy.maxPerUser ∧ s'.slots.liveGlobal ≤ s.policy.maxGlobal

/-! ## The functions of the service -/

/-- The sum of the counters, and one of them taken out of it. -/
theorem sum_del {u : Nat} {d : Dict Nat Nat} (h : (Dict.keys d).Nodup) :
    (d.map Prod.snd).sum = (d.get? u).getD 0 + ((Dict.del u d).map Prod.snd).sum := by
  cases hu : d.get? u with
  | none => rw [Dict.del_of_not_mem (Dict.get?_eq_none.1 hu), Option.getD_none, Nat.zero_add]
  | some n => rw [((Dict.perm_del h hu).map Prod.snd).sum_nat, List.map_cons, List.sum_cons, Option.getD_some]

theorem sum_set {u n : Nat} {d : Dict Nat Nat} (h : (Dict.keys d).Nodup) :
    ((Dict.set u n d).map Prod.snd).sum = n + ((Dict.del u d).map Prod.snd).sum := by
  rw [((Dict.set_perm h).map Prod.snd).sum_nat, List.map_cons, List.sum_cons]

/-- The service's state beside sockets that hold the leases `mine` and have the resume ids `ids`, of those drawn. -/
structure Slots.Sound (mine : List (Nat × Nat)) (ids drawn : List Str) (next : Nat) (s : Slots) : Prop where
  ledger : Balanced s.live s.liveGlobal (mine ++ heldLeases s.held) s.released next
  users : (Dict.keys s.liveByUser).Nodup
  sum : s.liveGlobal = (s.liveByUser.map Prod.snd).sum
  names : (ids ++ Dict.keys s.held).Nodup
  known : ∀ rid ∈ ids ++ Dict.keys s.held, rid ∈ drawn
  alive : ∀ e ∈ s.held, e.2.resumeId = e.1 ∧ e.2.dead = false

namespace Slots.Sound
variable {mine mine' : List (Nat × Nat)} {ids ids' drawn : List Str} {next : Nat} {s s' : Slots}

theorem keys_held (h : s.Sound mine ids drawn next) : (Dict.keys s.held).Nodup := (List.nodup_append.1 h.names).2.1

theorem perm (h : s.Sound mine ids drawn next) (hm : mine'.Perm mine) (hi : ids'.Perm ids) : s.Sound mine' ids' drawn next :=
  ⟨h.ledger.perm (hm.append_right _), h.users, h.sum, (hi.append_right _).nodup_iff.2 h.names,
    fun rid hr => h.known rid ((hi.append_right _).mem_iff.1 hr), h.alive⟩

/-- A socket comes with a resume id that is in nobody's use, or goes. -/
theorem addId {rid : Str} (h : s.Sound mine ids drawn next) (hr : rid ∉ ids ++ Dict.keys s.held) (hd : rid ∈ drawn) :
    s.Sound mine (rid :: ids) drawn next :=
  ⟨h.ledger, h.users, h.sum, List.nodup_cons.2 ⟨hr, h.names⟩, List.forall_mem_cons.2 ⟨hd, h.known⟩, h.alive⟩

theorem dropId {rid : Str} (h : s.Sound mine (rid :: ids) drawn next) : s.Sound mine ids drawn next :=
  ⟨h.ledger, h.users, h.sum, (List.nodup_cons.1 h.names).2, fun r hr => h.known r (List.mem_cons_of_mem _ hr), h.alive⟩

theorem moreDrawn {rid : Str} (h : s.Sound mine ids drawn next) : s.Sound mine ids (drawn ++ [rid]) next :=
  ⟨h.ledger, h.users, h.sum, h.names, fun r hr => List.mem_append_left _ (h.known r hr), h.alive⟩

theorem live_release (u n v : Nat) : (releaseSlot u n s).live v = if v = u then s.live u - 1 else s.live v := by
  unfold Slots.live releaseSlot
  dsimp only
  by_cases hle : s.live u ≤ 1
  · rw [if_pos hle, Dict.get?_del]
    split
    · unfold Slots.live at hle
      simp only [Option.getD_none]
      omega
    · rfl
  · rw [if_neg hle, Dict.get?_set]
    split <;> rfl

/-- A slot is given back. -/
theorem release {u n : Nat} (h : s.Sound ((u, n) :: mine) ids drawn next) : (releaseSlot u n s).Sound mine ids drawn next := by
  have hpos := h.ledger.pos
  have hled := h.ledger.release.congr (live_release u n) (rfl : (releaseSlot u n s).liveGlobal = _)
  refine ⟨hled, ?_, ?_, h.names, h.known, h.alive⟩
  · unfold releaseSlot
    dsimp only
    split
    · exact Dict.keys_del_nodup h.users
    · exact Dict.keys_set_nodup h.users
  · have hsum := h.sum
    have hrest := @sum_del u _ h.users
    have hlive : (s.liveByUser.get? u).getD 0 = s.live u := rfl
    unfold releaseSlot
    dsimp only
    split
    · omega
    · rw [sum_set h.users]
      omega

/-- A slot is taken, within the limits. -/
theorem acquire {p : Policy} {u : Nat} (h : s.Sound mine ids drawn next) (ha : tryAcquireSlot p u s = .ok s') :
    s'.Sound ((u, next) :: mine) ids drawn (next + 1) ∧ s'.held = s.held ∧
      (∀ v, s'.live v = if v = u then s.live u + 1 else s.live v) ∧ s'.live u ≤ p.maxPerUser ∧ s'.liveGlobal ≤ p.maxGlobal := by
  unfold tryAcquireSlot at ha
  split at ha
  · cases ha
  split at ha
  · cases ha
  split at ha
  · cases ha
  obtain rfl := Except.ok.inj ha
  have hlive : ∀ v, Slots.live { s with
      liveByUser := s.liveByUser.set u (s.live u + 1)
      liveGlobal := s.liveGlobal + 1 } v = if v = u then s.live u + 1 else s.live v := by
    intro v
    unfold Slots.live
    dsimp only
    rw [Dict.get?_set]
    split <;> rfl
  refine ⟨⟨(h.ledger.acquire u).congr hlive rfl, Dict.keys_set_nodup h.users, ?_, h.names, h.known, h.alive⟩, rfl, hlive, ?_, ?_⟩
  · have hsum := h.sum
    have hrest := @sum_del u _ h.users
    have hcount : (s.liveByUser.get? u).getD 0 = s.live u := rfl
    dsimp only
    rw [sum_set h.users]
    omega
  · rw [hlive, if_pos rfl]
    omega
  · dsimp only
    omega

/-- An entry of the table is taken out. -/
theorem take {rid : Str} {h₀ : HeldConsole} (h : s.Sound mine ids drawn next) (hg : s.held.get? rid = some h₀) :
    { s with held := s.held.del rid }.Sound (h₀.lease :: mine) ids drawn next ∧ h₀.resumeId = rid ∧ h₀.dead = false ∧
      rid ∉ ids ++ Dict.keys (s.held.del rid) := by
  have hp : (heldLeases s.held).Perm (h₀.lease :: heldLeases (s.held.del rid)) := (Dict.perm_del h.keys_held hg).map _
  obtain ⟨hids, hkeys, hapart⟩ := List.nodup_append.1 h.names
  have hrid : rid ∈ Dict.keys s.held := List.mem_map_of_mem (Dict.mem_of_get? hg)
  have hsub : (ids ++ Dict.keys (s.held.del rid)).Sublist (ids ++ Dict.keys s.held) :=
    ((Dict.del_sublist rid s.held).map Prod.fst).append_left ids
  refine ⟨⟨?_, h.users, h.sum, hsub.nodup h.names, fun r hr => h.known r (hsub.subset hr), ?_⟩,
    (h.alive _ (Dict.mem_of_get? hg)).1, (h.alive _ (Dict.mem_of_get? hg)).2, ?_⟩
  · refine h.ledger.perm ?_
    exact (List.perm_middle.symm.trans (hp.symm.append_left mine))
  · intro e he
    exact h.alive e ((Dict.perm_del h.keys_held hg).mem_iff.2 (List.mem_cons_of_mem _ he))
  · intro hin
    rcases List.mem_append.1 hin with hin | hin
    · exact hapart rid hin rid hrid rfl
    · rw [Dict.keys_del] at hin
      simp at hin

/-- A PTY is parked under the resume id of its socket. -/
theorem park {x : HeldConsole} (h : s.Sound (x.lease :: mine) (x.resumeId :: ids) drawn next) (hd : x.dead = false) :
    (parkConsole x s).Sound mine ids drawn next := by
  have hfree : x.resumeId ∉ Dict.keys s.held := fun hin => (List.nodup_cons.1 h.names).1 (List.mem_append_right _ hin)
  have hheld : (parkConsole x s).held = s.held ++ [(x.resumeId, x)] := Dict.set_of_not_mem hfree
  have hnames : (ids ++ Dict.keys (parkConsole x s).held).Perm ((x.resumeId :: ids) ++ Dict.keys s.held) := by
    rw [show Dict.keys (parkConsole x s).held = Dict.keys s.held ++ [x.resumeId] by rw [hheld]; exact List.map_append, ← List.append_assoc]
    exact List.perm_append_singleton ..
  refine ⟨?_, h.users, h.sum, hnames.nodup_iff.2 h.names, fun r hr => h.known r (hnames.mem_iff.1 hr), ?_⟩
  · rw [hheld, heldLeases, List.map_append]
    refine h.ledger.perm ?_
    rw [← List.append_assoc]
    exact List.perm_append_singleton ..
  · intro e he
    rw [hheld] at he
    rcases List.mem_append.1 he with he | he
    · exact h.alive e he
    · rw [List.mem_singleton.1 he]
      exact ⟨rfl, hd⟩

/-- Drained output puts the time of its last activity into an entry. -/
theorem touch {rid : Str} {h₀ x : HeldConsole} (h : s.Sound mine ids drawn next) (hg : s.held.get? rid = some h₀)
    (hx : x.lease = h₀.lease ∧ x.resumeId = h₀.resumeId ∧ x.dead = h₀.dead) :
    { s with held := s.held.set rid x }.Sound mine ids drawn next := by
  have hset := @Dict.set_perm _ _ _ rid x _ h.keys_held
  have hdel := Dict.perm_del h.keys_held hg
  have hkeys : (Dict.keys (s.held.set rid x)).Perm (Dict.keys s.held) := (hset.map Prod.fst).trans (hdel.map Prod.fst).symm
  have hentry := h.alive _ (Dict.mem_of_get? hg)
  refine ⟨h.ledger.perm (List.Perm.append_left mine ?_), h.users, h.sum, (hkeys.append_left ids).nodup_iff.2 h.names,
    fun r hr => h.known r ((hkeys.append_left ids).mem_iff.1 hr), ?_⟩
  · refine (hset.map fun e => e.2.lease).trans (List.Perm.trans ?_ (hdel.map fun e => e.2.lease).symm)
    rw [List.map_cons, List.map_cons, hx.1]
  · intro e he
    rcases List.mem_cons.1 (hset.mem_iff.1 he) with rfl | he
    · exact ⟨hx.2.1.trans hentry.1, hx.2.2.trans hentry.2⟩
    · exact h.alive e (hdel.mem_iff.2 (List.mem_cons_of_mem _ he))

theorem destroyHeld (rid : Str) (h : s.Sound mine ids drawn next) : (destroyHeld rid s).Sound mine ids drawn next := by
  unfold Console.destroyHeld
  cases hg : s.held.get? rid with
  | none => exact h
  | some h₀ => exact (h.take hg).1.release

theorem discardParked (rid : Str) (u : Nat) (sid : Option Int) (h : s.Sound mine ids drawn next) :
    (discardParkedForUser rid u sid s).Sound mine ids drawn next := by
  unfold discardParkedForUser
  dsimp only
  split
  · exact h
  cases hg : s.held.get? (strip rid) with
  | none => exact h
  | some h₀ =>
    dsimp only
    rw [(h.take hg).2.2.1, if_neg Bool.false_ne_true]
    split
    · exact h
    split
    · exact h
    · exact (h.take hg).1.release

theorem discardAll (u : Nat) (h : s.Sound mine ids drawn next) : (discardAllParkedForUser u s).Sound mine ids drawn next := by
  unfold discardAllParkedForUser
  generalize (s.held.filter fun e => e.2.userId == u).map Prod.fst = rids
  induction rids generalizing s with
  | nil => exact h
  | cons rid rids ih => exact ih (h.destroyHeld rid)

theorem discardTokens (u : Nat) (sid : Option Int) (tokens : List Str) (h : s.Sound mine ids drawn next) :
    (tokens.foldl (fun s t => discardParkedForUser t u sid s) s).Sound mine ids drawn next := by
  induction tokens generalizing s with
  | nil => exact h
  | cons t tokens ih => exact ih (h.discardParked t u sid)

/-- A PTY that is claimed comes with its slot and its resume id; one that is refused is destroyed. -/
theorem claim {c : Codec} {p : Policy} {now : Nat} {rid : Str} {who : Caller} {sid : Int} {r : Except ResumeError HeldConsole}
    (h : s.Sound mine ids drawn next) (hc : claimResume c p now rid who sid s = (r, s')) :
    match r with
    | .error _ => s'.Sound mine ids drawn next
    | .ok h₀ => h₀.userId = who.userId ∧ s'.Sound (h₀.lease :: mine) (h₀.resumeId :: ids) drawn next := by
  unfold claimResume at hc
  dsimp only at hc
  split at hc
  · cases hc
    exact h
  split at hc
  · cases hc
    exact h
  cases hg : s.held.get? (strip rid) with
  | none =>
    rw [hg] at hc
    cases hc
    exact h
  | some h₀ =>
    obtain ⟨htaken, hid, halive, hfree⟩ := h.take hg
    rw [hg] at hc
    dsimp only at hc
    rw [halive, if_neg Bool.false_ne_true] at hc
    cases hr : resumeCheck c p now who sid h₀ with
    | error e =>
      rw [hr] at hc
      cases hc
      exact htaken.release
    | ok _ =>
      rw [hr] at hc
      cases hc
      have hrid : strip rid ∈ Dict.keys s.held := List.mem_map_of_mem (Dict.mem_of_get? hg)
      refine ⟨?_, htaken.addId (by rw [hid]; exact hfree) (by rw [hid]; exact h.known _ (List.mem_append_right _ hrid))⟩
      · unfold resumeCheck at hr
        dsimp only at hr
        split at hr
        · cases hr
        · rename_i hno
          exact not_not.1 fun hne => hno (Or.inl hne)

end Slots.Sound

/-! ## The sockets -/

def socketIds (d : Dict Nat Socket) : List Str := d.map fun e => e.2.resumeId

/-- A socket that has a PTY, or is about to open one, has a slot; before its first message it has neither. -/
structure Socket.Good (x : Socket) : Prop where
  pty : x.channel = true ∨ x.stage = .opening → x.lease.isSome = true
  blank : x.stage = .handshake → x.slot = none ∧ x.channel = false

/-- The invariant: the service is sound beside the sockets. -/
structure Sound (s : ConsoleState) : Prop where
  slots : s.slots.Sound (socketLeases s.sockets) (socketIds s.sockets) s.drawn s.acquired
  sockets : (Dict.keys s.sockets).Nodup
  good : ∀ e ∈ s.sockets, e.2.Good

namespace Sound
variable {s : ConsoleState} {i : Nat} {x x' : Socket} {slots : Slots} {next : Nat} {store : JtiStore} {drawn : List Str}

theorem leases_cons (i : Nat) (x : Socket) (d : Dict Nat Socket) :
    socketLeases ((i, x) :: d) = x.lease.toList ++ socketLeases d := by
  cases hl : x.lease <;> simp [socketLeases, hl]

theorem at_ (h : Sound s) (hx : s.sockets.get? i = some x) : x.Good := h.good _ (Dict.mem_of_get? hx)

/-- The socket at `i`, and the others. -/
theorem split (h : Sound s) (hx : s.sockets.get? i = some x) : s.slots.Sound
    (x.lease.toList ++ socketLeases (s.sockets.del i)) (x.resumeId :: socketIds (s.sockets.del i)) s.drawn s.acquired := by
  have hp := Dict.perm_del h.sockets hx
  have hleases : (socketLeases s.sockets).Perm (socketLeases ((i, x) :: s.sockets.del i)) := hp.filterMap _
  rw [leases_cons] at hleases
  exact h.slots.perm hleases.symm (hp.map fun e : Nat × Socket => e.2.resumeId).symm

/-- A socket is put at `i`. -/
theorem put (h : Sound s)
    (hs : slots.Sound (x'.lease.toList ++ socketLeases (s.sockets.del i)) (x'.resumeId :: socketIds (s.sockets.del i)) drawn next)
    (hp : x'.Good) : Sound { s.put i x' with slots := slots, acquired := next, store := store, drawn := drawn } := by
  have hset : (s.sockets.set i x').Perm ((i, x') :: s.sockets.del i) := Dict.set_perm h.sockets
  have hleases : (socketLeases (s.sockets.set i x')).Perm (socketLeases ((i, x') :: s.sockets.del i)) := hset.filterMap _
  rw [leases_cons] at hleases
  refine ⟨hs.perm hleases (hset.map fun e : Nat × Socket => e.2.resumeId), Dict.keys_set_nodup h.sockets, ?_⟩
  intro e he
  rcases List.mem_cons.1 (hset.mem_iff.1 he) with rfl | he
  · exact hp
  · exact h.good e ((Dict.del_sublist i s.sockets).subset he)

/-- The socket at `i` is gone. -/
theorem remove (h : Sound s)
    (hs : slots.Sound (socketLeases (s.sockets.del i)) (socketIds (s.sockets.del i)) s.drawn s.acquired) {watchers : List Str} :
    Sound { s with sockets := s.sockets.del i, slots := slots, watchers := watchers } :=
  ⟨hs, Dict.keys_del_nodup h.sockets, fun e he => h.good e ((Dict.del_sublist i s.sockets).subset he)⟩

/-- The socket at `i` goes on with what it holds. -/
theorem goesOn (h : Sound s) (hx : s.sockets.get? i = some x) (hl : x'.lease = x.lease) (hid : x'.resumeId = x.resumeId)
    (hp : x'.Good) : Sound { s.put i x' with store := store } := by
  have hs := h.split hx
  rw [← hl, ← hid] at hs
  exact h.put hs hp

/-- The service changes beside the sockets. -/
theorem service (h : Sound s) (hs : slots.Sound (socketLeases s.sockets) (socketIds s.sockets) s.drawn s.acquired)
    {watchers : List Str} : Sound { s with slots := slots, watchers := watchers } :=
  ⟨hs, h.sockets, h.good⟩

end Sound

/-! ## One event -/

section Events
variable {c : Codec} {s : ConsoleState} {i : Nat} {x : Socket}

/-- A socket goes on to another stage, with the same slot. -/
theorem Socket.Good.moves {x' : Socket} (h : x.Good) (hl : x'.lease = x.lease) (hc : x'.channel = x.channel)
    (hst : x'.stage = .attached ∧ x.channel = true ∨ x'.stage = .closing) : x'.Good := by
  refine ⟨?_, ?_⟩
  · rintro (hch | hop)
    · rw [hl]
      exact h.pty (Or.inl (hc ▸ hch))
    · rcases hst with ⟨hst, -⟩ | hst <;> rw [hst] at hop <;> cases hop
  · intro hh
    rcases hst with ⟨hst, -⟩ | hst <;> rw [hst] at hh <;> cases hh

theorem Socket.Good.lease_none (h : x.Good) (hs : x.stage = .handshake) : x.lease = none := by
  simp [Socket.lease, (h.blank hs).1]

/-- A socket whose first message is refused holds nothing still. -/
theorem Sound.refuse {x' : Socket} {slots : Slots} {store : JtiStore} (h : Sound s) (hx : s.sockets.get? i = some x)
    (hs : x.stage = .handshake)
    (hsound : slots.Sound (socketLeases (s.sockets.del i)) (x.resumeId :: socketIds (s.sockets.del i)) s.drawn s.acquired)
    (hsame : x'.slot = x.slot ∧ x'.channel = x.channel ∧ x'.resumeId = x.resumeId) (hclosing : x'.stage = .closing) :
    Sound { s.put i x' with slots := slots, store := store } := by
  obtain ⟨hslot, hchan⟩ := (h.at_ hx).blank hs
  obtain ⟨hslot', hchan', hid⟩ := hsame
  have hnone : x'.lease = none := by simp [Socket.lease, hslot', hslot]
  refine h.put ?_ ⟨?_, ?_⟩
  · rw [hnone, hid]
    exact hsound
  · rintro (hc | hc)
    · rw [hchan', hchan] at hc
      cases hc
    · rw [hclosing] at hc
      cases hc
  · intro hh
    rw [hclosing] at hh
    cases hh

theorem authSocket_sound {ticket : Payload} {who : Caller} {redis : RedisCall} (h : Sound s) (hx : s.sockets.get? i = some x)
    (hs : x.stage = .handshake) : Sound (authSocket c s i x ticket who redis) := by
  have hsplit := h.split hx
  rw [(h.at_ hx).lease_none hs, Option.toList_none, List.nil_append] at hsplit
  unfold authSocket
  split
  · exact h.refuse hx hs hsplit ⟨rfl, rfl, rfl⟩ rfl
  · split
    · exact h.refuse hx hs hsplit ⟨rfl, rfl, rfl⟩ rfl
    · rename_i slots ha
      refine h.put ?_ ⟨fun _ => rfl, fun hh => Stage.noConfusion hh⟩
      exact (hsplit.acquire ha).1

theorem resumeSocket_sound {token : Str} {who : Caller} (h : Sound s) (hx : s.sockets.get? i = some x)
    (hs : x.stage = .handshake) : Sound (resumeSocket c s i x token who) := by
  obtain ⟨r, slots, hc⟩ : ∃ r slots, claimResume c s.policy s.now token who x.serverId s.slots = (r, slots) := ⟨_, _, rfl⟩
  have hsplit := h.split hx
  rw [(h.at_ hx).lease_none hs, Option.toList_none, List.nil_append] at hsplit
  have hclaim := hsplit.claim hc
  unfold resumeSocket
  rw [hc]
  cases r with
  | error e => exact h.refuse hx hs hclaim ⟨rfl, rfl, rfl⟩ rfl
  | ok h₀ =>
    obtain ⟨huser, hsound⟩ := hclaim
    refine h.put ?_ ⟨fun _ => rfl, fun hh => Stage.noConfusion hh⟩
    -- its own resume id, which was never told to anyone, gives way to that of the PTY
    have hids : (h₀.resumeId :: x.resumeId :: socketIds (s.sockets.del i)).Perm (x.resumeId :: h₀.resumeId :: socketIds (s.sockets.del i)) :=
      List.Perm.swap ..
    have hlease : h₀.lease = (who.userId, h₀.slot) := by rw [← huser]; rfl
    rw [hlease] at hsound
    exact (hsound.perm (List.Perm.refl _) hids.symm).dropId

theorem leaveSocket_sound {channelGone : Bool} (h : Sound s) (hx : s.sockets.get? i = some x) :
    Sound (leaveSocket s i x channelGone) := by
  unfold leaveSocket
  split
  · rename_i hpark
    refine h.remove ?_
    have hsplit := h.split hx
    have hchannel : x.channel = true := by
      unfold Socket.doPark at hpark
      simp only [Bool.and_eq_true] at hpark
      exact hpark.1.1.2
    obtain ⟨l, hl⟩ := Option.isSome_iff_exists.1 ((h.at_ hx).pty (Or.inl hchannel))
    have hheld : (x.toHeld s.now).lease = l := by
      obtain ⟨u, hu, hslot⟩ := Option.bind_eq_some_iff.1 hl
      obtain ⟨n, hn, rfl⟩ := Option.map_eq_some_iff.1 hslot
      simp [HeldConsole.lease, Socket.toHeld, hu, hn]
    rw [hl, ← hheld] at hsplit
    exact hsplit.park rfl
  · exact h.goesOn hx rfl rfl ((h.at_ hx).moves rfl rfl (Or.inr rfl))

theorem closeSocket_sound (h : Sound s) (hx : s.sockets.get? i = some x) : Sound (closeSocket s i x) := by
  have hsplit := h.split hx
  unfold closeSocket
  refine h.remove ?_
  split
  · rename_i u n hu hn
    have hl : x.lease = some (u, n) := by simp [Socket.lease, hu, hn]
    rw [hl] at hsplit
    exact hsplit.release.dropId
  · rename_i hno
    have hl : x.lease = none := by
      cases hu : x.userId with
      | none => simp [Socket.lease, hu]
      | some u =>
        cases hn : x.slot with
        | none => simp [Socket.lease, hn]
        | some n => exact absurd hn (hno u n hu)
    rw [hl] at hsplit
    exact hsplit.dropId

/-- A new socket, with a resume id of its own. -/
theorem connect_sound {serverId : Int} {rid : Str} (h : Sound s) (hx : s.sockets.get? i = none) (hfresh : rid ∉ s.drawn) :
    Sound { s.put i { serverId := serverId, resumeId := rid, startedMono := s.now, lastActivity := s.now } with
      drawn := s.drawn ++ [rid] } := by
  refine h.put ?_ ⟨fun hc => hc.elim (fun h => Bool.noConfusion h) fun h => Stage.noConfusion h, fun _ => ⟨rfl, rfl⟩⟩
  rw [Dict.del_of_not_mem (Dict.get?_eq_none.1 hx)]
  exact h.slots.moreDrawn.addId (fun hin => hfresh (h.slots.known rid hin)) (List.mem_append_right _ (List.mem_singleton_self rid))

theorem socketStep_sound {e : SocketEvent} (h : Sound s) (hok : ConsoleEvent.Fresh s (.socket i e)) : Sound (socketStep c s i e) := by
  unfold socketStep
  cases hx : s.sockets.get? i with
  | none =>
    cases e with
    | connect serverId rid => exact connect_sound h hx hok
    | _ => exact h
  | some x =>
    have hgood := h.at_ hx
    dsimp only
    split
    · exact authSocket_sound h hx ‹_›
    · exact resumeSocket_sound h hx ‹_›
    · exact h.goesOn hx rfl rfl (hgood.moves rfl rfl (Or.inr rfl))
    · rename_i hs
      split
      · exact h
      · exact h.goesOn hx rfl rfl ⟨fun _ => hgood.pty (Or.inr hs), fun hh => by rw [hs] at hh; cases hh⟩
    · split
      · rename_i hc
        exact h.goesOn hx rfl rfl (hgood.moves rfl rfl (Or.inl ⟨rfl, hc⟩))
      · exact h
    · exact h.goesOn hx rfl rfl (hgood.moves rfl rfl (Or.inr rfl))
    · rename_i hs
      exact h.goesOn hx rfl rfl ⟨hgood.pty, fun hh => by rw [hs] at hh; cases hh⟩
    · rename_i r hs
      have hkeeps : (x.ends r).lease = x.lease ∧ (x.ends r).resumeId = x.resumeId ∧ (x.ends r).channel = x.channel ∧
          (x.ends r).stage = x.stage := by
        cases r <;> exact ⟨rfl, rfl, rfl, rfl⟩
      obtain ⟨hl, hid, hc, hst⟩ := hkeeps
      refine h.goesOn hx hl hid ⟨?_, ?_⟩
      · rw [hl, hc, hst]
        exact hgood.pty
      · rw [hst, hs]
        exact fun hh => Stage.noConfusion hh
    · split
      · exact leaveSocket_sound h hx
      · exact h
    · exact closeSocket_sound h hx
    · exact h

theorem watchTick_sound {rid : Str} {drain : Drain} (h : Sound s) : Sound (watchTick s rid drain) := by
  unfold watchTick
  split
  · exact h
  split
  · exact h.service h.slots
  · rename_i h₀ hget
    have hheld : s.slots.held.get? rid = some h₀ := (Option.filter_eq_some_iff.1 hget).1
    split
    · exact h.service (h.slots.destroyHeld rid)
    · exact h.service (h.slots.destroyHeld rid)
    · rename_i progressed
      have htouch := h.slots.touch (x := h₀.drained s.now progressed) hheld
        (by cases progressed <;> exact ⟨rfl, rfl, rfl⟩)
      dsimp only
      split
      · exact h.service (htouch.destroyHeld rid)
      · exact h.service htouch

theorem consoleStep_sound (s : ConsoleState) (e : ConsoleEvent) (h : Sound s) (hok : e.Fresh s) : Sound (consoleStep c s e) := by
  cases e with
  | tick ms => exact ⟨h.slots, h.sockets, h.good⟩
  | configure policy => exact ⟨h.slots, h.sockets, h.good⟩
  | socket i e => exact socketStep_sound h hok
  | watch rid drain => exact watchTick_sound h
  | discard tokens userId serverId => exact h.service (h.slots.discardTokens userId (some serverId) tokens)
  | logout userId => exact h.service (h.slots.discardAll userId)

end Events

/-! ## The limits -/

section Limits
variable {c : Codec} {s s' : Slots}

/-- No counter rises. -/
def Slots.Falls (s s' : Slots) : Prop := ∀ u, s'.live u ≤ s.live u

theorem Slots.Falls.trans {s'' : Slots} (h : s.Falls s') (h' : s'.Falls s'') : s.Falls s'' := fun u => Nat.le_trans (h' u) (h u)

theorem release_falls (u n : Nat) : s.Falls (releaseSlot u n s) := by
  intro v
  rw [Slots.Sound.live_release]
  split
  · rename_i hv
    rw [hv]
    omega
  · exact Nat.le_refl _

theorem destroyHeld_falls (rid : Str) : s.Falls (destroyHeld rid s) := by
  unfold destroyHeld
  split
  · exact fun _ => Nat.le_refl _
  · rename_i h₀ _
    exact @release_falls { s with held := s.held.del rid } h₀.userId h₀.slot

theorem discardParked_falls (rid : Str) (u : Nat) (sid : Option Int) : s.Falls (discardParkedForUser rid u sid s) := by
  unfold discardParkedForUser
  dsimp only
  split
  · exact fun _ => Nat.le_refl _
  split
  · exact fun _ => Nat.le_refl _
  · rename_i h₀ _
    split
    · exact fun _ => Nat.le_refl _
    split
    · exact fun _ => Nat.le_refl _
    split
    · exact fun _ => Nat.le_refl _
    · exact @release_falls { s with held := s.held.del (strip rid) } h₀.userId h₀.slot

/-- What every step keeps from rising, a loop does. -/
theorem foldl_falls {α : Type} {f : Slots → α → Slots} (hf : ∀ (s : Slots) (a : α), s.Falls (f s a)) :
    ∀ (as : List α) (s : Slots), s.Falls (as.foldl f s)
  | [], _ => fun _ => Nat.le_refl _
  | a :: as, s => (hf s a).trans (foldl_falls hf as (f s a))

theorem claimResume_falls (p : Policy) (now : Nat) (rid : Str) (who : Caller) (sid : Int) :
    s.Falls (claimResume c p now rid who sid s).2 := by
  unfold claimResume
  dsimp only
  split
  · exact fun _ => Nat.le_refl _
  split
  · exact fun _ => Nat.le_refl _
  split
  · exact fun _ => Nat.le_refl _
  · rename_i h₀ _
    split
    · exact fun _ => Nat.le_refl _
    split
    · exact @release_falls { s with held := s.held.del (strip rid) } h₀.userId h₀.slot
    · exact fun _ => Nat.le_refl _

end Limits

section Runs
variable {c : Codec} {s : ConsoleState}

theorem capped_of_falls {s s' : ConsoleState} (h : s.slots.Falls s'.slots) : Capped s s' := by
  intro u hlt
  have hle := h u
  omega

theorem socketStep_capped {i : Nat} {e : SocketEvent} (h : Sound s) : Capped s (socketStep c s i e) := by
  unfold socketStep
  cases hx : s.sockets.get? i with
  | none => cases e <;> exact capped_of_falls fun _ => Nat.le_refl _
  | some x =>
    dsimp only
    split
    · unfold authSocket
      split
      · exact capped_of_falls fun _ => Nat.le_refl _
      · split
        · exact capped_of_falls fun _ => Nat.le_refl _
        · rename_i slots ha
          obtain ⟨-, -, hlive, huser, hall⟩ := h.slots.acquire ha
          intro u hlt
          change s.slots.live u < slots.live u at hlt
          rw [hlive] at hlt
          split at hlt
          · rename_i hu
            rw [hu]
            exact ⟨huser, hall⟩
          · omega
    · rename_i token who _
      have hfalls := @claimResume_falls c s.slots s.policy s.now token who x.serverId
      unfold resumeSocket
      split <;> rename_i hc <;> rw [hc] at hfalls <;> exact capped_of_falls hfalls
    · exact capped_of_falls fun _ => Nat.le_refl _
    · split <;> exact capped_of_falls fun _ => Nat.le_refl _
    · split <;> exact capped_of_falls fun _ => Nat.le_refl _
    · exact capped_of_falls fun _ => Nat.le_refl _
    · exact capped_of_falls fun _ => Nat.le_refl _
    · exact capped_of_falls fun _ => Nat.le_refl _
    · split
      · unfold leaveSocket
        split <;> exact capped_of_falls fun _ => Nat.le_refl _
      · exact capped_of_falls fun _ => Nat.le_refl _
    · unfold closeSocket
      split
      · rename_i u n _ _
        exact capped_of_falls (release_falls u n)
      · exact capped_of_falls fun _ => Nat.le_refl _
    · exact capped_of_falls fun _ => Nat.le_refl _

theorem consoleStep_capped {e : ConsoleEvent} (h : Sound s) : Capped s (consoleStep c s e) := by
  cases e with
  | tick ms => exact capped_of_falls fun _ => Nat.le_refl _
  | configure policy => exact capped_of_falls fun _ => Nat.le_refl _
  | socket i e => exact socketStep_capped h
  | watch rid drain =>
    simp only [consoleStep, watchTick]
    split
    · exact capped_of_falls fun _ => Nat.le_refl _
    split
    · exact capped_of_falls fun _ => Nat.le_refl _
    · rename_i h₀ _
      split
      · exact capped_of_falls (destroyHeld_falls rid)
      · exact capped_of_falls (destroyHeld_falls rid)
      · rename_i progressed
        split
        · exact capped_of_falls (@destroyHeld_falls
            { s.slots with held := s.slots.held.set rid (h₀.drained s.now progressed) } rid)
        · exact capped_of_falls fun _ => Nat.le_refl _
  | discard tokens userId serverId =>
    exact capped_of_falls (foldl_falls (fun s t => discardParked_falls t userId (some serverId)) tokens s.slots)
  | logout userId => exact capped_of_falls (foldl_falls (fun s rid => destroyHeld_falls rid) _ s.slots)

theorem Sound.conserved (h : Sound s) : Conserved s := by
  obtain ⟨hnodup, hback⟩ := h.slots.ledger.back_iff
  refine ⟨?_, ?_, h.slots.sum, hnodup, ?_⟩
  · intro u
    rw [h.slots.ledger.count, List.map_append, List.count_append]
    congr 1
    · rw [List.count_eq_countP, List.countP_map]
      exact List.countP_congr fun l _ => by simp
    · rw [heldLeases, List.map_map, List.count_eq_countP, List.countP_map]
      exact List.countP_congr fun e _ => by simp [HeldConsole.lease]
  · rw [h.slots.ledger.total, List.length_append, heldLeases, List.length_map]
  · intro n
    rw [hback n]
    refine and_congr_right fun _ => ?_
    constructor
    · intro hno
      refine ⟨fun e he => ?_, fun e he hn => ?_⟩
      · cases hl : e.2.lease with
        | none => rfl
        | some l =>
          have hin : l ∈ socketLeases s.sockets := List.mem_filterMap.2 ⟨e, he, hl⟩
          simp only [Option.all_some, ne_eq, decide_not, Bool.not_eq_true', decide_eq_false_iff_not]
          rintro rfl
          exact hno l.1 (List.mem_append_left _ hin)
      · subst hn
        exact hno e.2.userId (List.mem_append_right _ (List.mem_map.2 ⟨e, he, rfl⟩))
    · rintro ⟨hsockets, hparked⟩ u hin
      rcases List.mem_append.1 hin with hin | hin
      · obtain ⟨e, he, hl⟩ := List.mem_filterMap.1 hin
        have hne := hsockets e he
        rw [hl] at hne
        simp at hne
      · obtain ⟨e, he, hl⟩ := List.mem_map.1 hin
        exact hparked e he (congrArg Prod.snd hl)

/-- No console, and no slot taken. -/
def ConsoleState.Idle (s : ConsoleState) : Prop := s.sockets = [] ∧ s.slots = {} ∧ s.acquired = 0

theorem ConsoleState.Idle.sound (h : s.Idle) : Sound s := by
  obtain ⟨hsockets, hslots, hacquired⟩ := h
  refine ⟨?_, by simp [hsockets, Dict.keys], by simp [hsockets]⟩
  rw [hsockets, hslots, hacquired]
  exact ⟨Balanced.start, List.nodup_nil, rfl, List.nodup_nil, by simp [socketIds, Dict.keys], by simp⟩

/-- **Slots are conserved** over every run, whatever happens at the awaits, **and no slot is taken beyond the limits.** -/
theorem slots_conserved (h0 : s.Idle) {es : List ConsoleEvent} (hg : Guarded (consoleStep c) ConsoleEvent.Fresh s es) :
    (∀ pre post, es = pre ++ post → Conserved (runs (consoleStep c) s pre)) ∧
      ∀ pre e post, es = pre ++ e :: post →
        Capped (runs (consoleStep c) s pre) (consoleStep c (runs (consoleStep c) s pre) e) := by
  have hsound : ∀ pre post, es = pre ++ post → Sound (runs (consoleStep c) s pre) := by
    rintro pre post rfl
    exact runs_invariant consoleStep_sound pre s h0.sound hg.of_append
  exact ⟨fun pre post heq => (hsound pre post heq).conserved, fun pre e post heq => consoleStep_capped (hsound pre (e :: post) heq)⟩

/-- A shell is opened with the ticket of a run above, its socket drops, and a second socket takes it over. -/
def testReopening : List ConsoleEvent :=
  [.socket 0 (.connect 7 (lit "A")), .socket 0 (.auth (testTicket 60) ⟨1, 0, {}⟩ .answers), .socket 0 .opened, .socket 0 .attach,
    .socket 0 (.ends .drop), .socket 0 (.leave false), .socket 1 (.connect 7 (lit "B")),
    .socket 1 (.resume (lit "A") ⟨1, 0, {}⟩), .watch (lit "A") (.drained true)]

/-- It holds the one slot all along. -/
theorem slots_conserved_reopening :
    (runs (consoleStep clearText.toCodec) { policy := { consoleEnabled := true } } testReopening).attached 1 = 1 ∧
      Conserved (runs (consoleStep clearText.toCodec) { policy := { consoleEnabled := true } } testReopening) := by
  refine ⟨by decide +kernel, (@slots_conserved clearText.toCodec { policy := { consoleEnabled := true } } ⟨rfl, rfl, rfl⟩
    testReopening ?_).1 testReopening [] (List.append_nil _).symm⟩
  refine ⟨List.not_mem_nil, trivial, trivial, trivial, trivial, trivial, ?_, trivial, trivial, trivial⟩
  show lit "B" ∉ _
  decide +kernel

end Runs

end PiHerder.Console
