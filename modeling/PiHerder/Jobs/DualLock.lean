import PiHerder.Jobs.ServerLock

/-!
# Two hosts at a time (`services/server_job_lock.py:177-224`)

A Move locks its source and its destination, a backup its one host. A call is a `Task`: the commands it still
has to send to the lock's store, and what it makes of each answer. Callers run their calls command by command,
in any order, and time passes anywhere.

| here | there |
| --- | --- |
| `tryAcquireDualServerLock` | `try_acquire_dual_server_lock` (`:177`) |
| `releaseDualServerLock`    | `release_dual_server_lock` (`:208`) |
| `Request.acquire`, `Request.release` | the calls of a Move (`tasks.py:512`, `:590`) and of a backup (`tasks.py:220`, `:442`) |
| `Phase`                    | where a job is: `lock_tokens` is `None`, being taken, held, or being given back |
-/
namespace PiHerder.Jobs
open Lib

/-! ## The code -/

inductive Task (α : Type)
  | done (result : α)
  | acquire (kind : LockKind) (serverId : Int) (holder : Str) (ttlSec : Option Int)
      (next : Option LockToken → Task α)
  | release (kind : LockKind) (serverId : Int) (token : Option LockToken) (next : Task α)

section Code
variable (kind : LockKind) (holder : Str) (ttlSec : Option Int)

/-- The second host was busy: the first lock is released. -/
def rollBack (first : Int) (tFirst : LockToken) : Task (Option (LockToken × LockToken)) :=
  .release kind first (some tFirst) (.done none)

def trySecond (first second : Int) (swap : Bool) (tFirst : LockToken) : Task (Option (LockToken × LockToken)) :=
  .acquire kind second holder ttlSec fun
    | none => rollBack kind first tFirst
    | some tSecond => .done (some (if swap then (tSecond, tFirst) else (tFirst, tSecond)))

/-- Lower id first, whatever the caller's order. -/
def tryAcquireDualServerLock (serverIdA serverIdB : Option Int) : Task (Option (LockToken × LockToken)) :=
  match serverIdA, serverIdB with
  | some a, some b =>
    if a = b then
      .acquire kind a holder ttlSec fun tok => .done (tok.map fun t => (t, t))
    else
      let (first, second) := if a < b then (a, b) else (b, a)
      .acquire kind first holder ttlSec fun
        | none => .done none
        | some tFirst => trySecond kind holder ttlSec first second (!decide (a < b)) tFirst
  | _, _ => .done none

def releaseDualServerLock (serverIdA : Option Int) (tokenA : Option LockToken) (serverIdB : Option Int)
    (tokenB : Option LockToken) : Task Unit :=
  match serverIdA, serverIdB with
  | some a, some b =>
    if a = b then .release kind a (tokenA.or tokenB) (.done ())
    else .release kind a tokenA (.release kind b tokenB (.done ()))
  | _, _ => .done ()

end Code

/-! ## Jobs and their runs -/

/-- What a job locks: a Move two hosts, a backup one. -/
inductive Request
  | dual (kind : LockKind) (serverIdA serverIdB : Option Int) (holder : Str) (ttlSec : Option Int)
  | single (kind : LockKind) (serverId : Option Int) (holder : Str) (ttlSec : Option Int)

/-- What a call gave: the two tokens in the caller's order, or the one. -/
inductive Held
  | both (tokenA tokenB : LockToken)
  | one (token : LockToken)
deriving DecidableEq, Repr

def Task.map {α β : Type} (f : α → β) : Task α → Task β
  | .done r => .done (f r)
  | .acquire kind id holder ttlSec next => .acquire kind id holder ttlSec fun t => (next t).map f
  | .release kind id token next => .release kind id token (next.map f)

def Request.acquire : Request → Task (Option Held)
  | .dual kind a b holder ttlSec =>
    (tryAcquireDualServerLock kind holder ttlSec a b).map fun r => r.map fun t => .both t.1 t.2
  | .single kind (some id) holder ttlSec => .acquire kind id holder ttlSec fun t => .done (t.map .one)
  | .single _ none _ _ => .done none

def Request.release : Request → Held → Task Unit
  | .dual kind a b _ _, .both ta tb => releaseDualServerLock kind a (some ta) b (some tb)
  | .single kind (some id) _ _, .one t => .release kind id (some t) (.done ())
  | _, _ => .done ()

/-- A token drawn in a call: for which lock, and until when the lock is its own if it is granted. -/
structure Draw where
  key : LockKey
  token : LockToken
  expires : Nat
deriving DecidableEq, Repr

inductive Phase
  | idle
  | acquiring (request : Request) (drawn : List Draw) (rest : Task (Option Held))
  | holding (request : Request) (held : Held)
  | releasing (request : Request) (held : Held) (rest : Task Unit)

variable {W C : Type}

/-- `draws`, `refused` and `givenBack` are not in the code: every token with the job that drew it, the tokens
of the calls that returned `None`, and what the finished releases released. -/
structure Callers (W C : Type) where
  world : World W
  phase : C → Phase
  draws : List (C × Draw)
  refused : List Draw
  givenBack : List (Request × Held)

def Callers.start : Callers W C := ⟨World.start, fun _ => .idle, [], [], []⟩

inductive JobEvent (C : Type)
  | ask (c : C) (request : Request)
  | giveBack (c : C)
  /-- The job's call sends its next command. -/
  | step (c : C) (net : Net)
  | tick (ms : Nat)

section Step
variable [DecidableEq W] [DecidableEq C] (defaultTtlSec : Int) (worker : C → W)

def Callers.setPhase (s : Callers W C) (c : C) (p : Phase) : Callers W C :=
  { s with phase := fun c' => if c' = c then p else s.phase c' }

/-- Where the job is once its call has come this far. -/
def Callers.acquired (s : Callers W C) (c : C) (request : Request) (drawn : List Draw) :
    Task (Option Held) → Callers W C
  | .done (some held) => s.setPhase c (.holding request held)
  | .done none => { s.setPhase c .idle with refused := s.refused ++ drawn }
  | rest => s.setPhase c (.acquiring request drawn rest)

def Callers.released (s : Callers W C) (c : C) (request : Request) (held : Held) : Task Unit → Callers W C
  | .done () => { s.setPhase c .idle with givenBack := s.givenBack ++ [(request, held)] }
  | rest => s.setPhase c (.releasing request held rest)

/-- The acquire command of job `c`, and what the store answers. -/
def Callers.sendAcquire (s : Callers W C) (c : C) (net : Net) (kind : LockKind) (id : Int) (holder : Str)
    (ttlSec : Option Int) : Callers W C × Draw × Option LockToken :=
  let d : Draw := ⟨(kind, id), ⟨holder, s.world.uuids⟩, s.world.now + lockTtl defaultTtlSec ttlSec⟩
  let answer := tryAcquireServerLock defaultTtlSec s.world.now s.world.uuids net kind (some id) s.world.redis
    (s.world.process (worker c)) holder ttlSec
  ({ s with
      world := lockStep defaultTtlSec s.world (.acquire (worker c) net kind (some id) holder ttlSec)
      draws := s.draws ++ [(c, d)] }, d, answer.result)

def Callers.sendRelease (s : Callers W C) (c : C) (net : Net) (kind : LockKind) (id : Int)
    (token : Option LockToken) : Callers W C :=
  { s with world := lockStep defaultTtlSec s.world (.release (worker c) net kind (some id) token) }

def jobStep (s : Callers W C) : JobEvent C → Callers W C
  | .ask c request =>
    match s.phase c with
    | .idle => s.acquired c request [] request.acquire
    | _ => s
  | .giveBack c =>
    match s.phase c with
    | .holding request held => s.released c request held (request.release held)
    | _ => s
  | .step c net =>
    match s.phase c with
    | .acquiring request drawn (.acquire kind id holder ttlSec next) =>
      let (s', d, answer) := s.sendAcquire defaultTtlSec worker c net kind id holder ttlSec
      s'.acquired c request (drawn ++ [d]) (next answer)
    | .acquiring request drawn (.release kind id token next) =>
      (s.sendRelease defaultTtlSec worker c net kind id token).acquired c request drawn next
    | .releasing request held (.release kind id token next) =>
      (s.sendRelease defaultTtlSec worker c net kind id token).released c request held next
    | _ => s
  | .tick ms => { s with world := lockStep defaultTtlSec s.world (.tick ms) }

omit [DecidableEq C] in
/-- One working store: the place `a` answers every command. -/
def Answers (a : Place W) (s : Callers W C) : JobEvent C → Prop
  | .step c net => answering s.world (worker c) net = a
  | _ => True

end Step

/-! ## One command -/

section Commands
variable {now : Nat} {key : LockKey} {token : LockToken} {ttl : Nat}

/-- A token that is not in the store yet is stored iff nothing is seen there. -/
theorem takeAt_new (a : Place W) {d : LockStore} (hnew : Expiring.peek now key d ≠ some token) :
    takeAt now key token ttl a d =
      if Expiring.peek now key d = none then (true, d.set key (token, now + ttl)) else (false, d) := by
  cases hpeek : Expiring.peek now key d with
  | none =>
    rw [if_pos rfl]
    cases a with
    | redis => simp [takeAt, runsAt, Expiring.setNx, hpeek]
    | own w =>
      simp only [takeAt, runsAt, localAcquire]
      unfold Expiring.peek at hpeek
      cases hget : d.get? key with
      | none => rfl
      | some e =>
        simp only [hget, ite_eq_right_iff, reduceCtorEq, imp_false] at hpeek
        simp [hpeek]
  | some t =>
    rw [if_neg (by simp)]
    cases a with
    | redis => simp [takeAt, runsAt, Expiring.setNx, hpeek]
    | own w =>
      obtain ⟨exp, hget, hlt⟩ := Expiring.peek_eq_some.1 hpeek
      have hne : t ≠ token := by
        rintro rfl
        exact hnew hpeek
      simp [takeAt, runsAt, localAcquire, hget, hlt, hne]

theorem dropAt_cases (a : Place W) (d : LockStore) :
    ((dropAt now key token a d).2 = d ∧ Expiring.peek now key d ≠ some token) ∨
      ((dropAt now key token a d).2 = d.del key ∧ ∃ exp, d.get? key = some (token, exp)) := by
  cases a with
  | redis =>
    show ((Expiring.delIf now key token d).2 = d ∧ _) ∨ ((Expiring.delIf now key token d).2 = d.del key ∧ _)
    unfold Expiring.delIf
    by_cases h : Expiring.peek now key d = some token
    · obtain ⟨exp, hget, -⟩ := Expiring.peek_eq_some.1 h
      exact Or.inr ⟨by rw [if_pos h], exp, hget⟩
    · exact Or.inl ⟨by rw [if_neg h], h⟩
  | own w =>
    show ((localRelease key token d).2 = d ∧ _) ∨ ((localRelease key token d).2 = d.del key ∧ _)
    unfold localRelease Expiring.peek
    cases hget : d.get? key with
    | none => exact Or.inl ⟨rfl, by simp⟩
    | some e =>
      obtain ⟨held, exp⟩ := e
      by_cases heq : held = token
      · subst heq
        exact Or.inr ⟨by simp, exp, rfl⟩
      · refine Or.inl ⟨by simp [heq], ?_⟩
        show (if now < exp then some held else none) ≠ some token
        split <;> simp [heq]

end Commands

/-! ## The ledger of tokens -/

section Draws
variable {a : Place W} {s : Callers W C} {c : C}

/-- A draw whose lock is its own until its time is over. -/
def Kept (a : Place W) (s : Callers W C) (d : Draw) : Prop :=
  s.world.now < d.expires → (s.world.store a).get? d.key = some (d.token, d.expires)

/-- No lock is seen to have this token. -/
def Gone (a : Place W) (s : Callers W C) (t : LockToken) : Prop := ∀ k, s.world.seen a k ≠ some t

/-- Every entry of the store was drawn, once. -/
structure DrawLedger (a : Place W) (s : Callers W C) : Prop where
  drawn_lt : ∀ c d, (c, d) ∈ s.draws → d.token.uuid < s.world.uuids
  unique : ∀ x ∈ s.draws, ∀ y ∈ s.draws, x.2.token = y.2.token → x = y
  placed : ∀ k t exp, (s.world.store a).get? k = some (t, exp) → ∃ c, (c, ⟨k, t, exp⟩) ∈ s.draws

theorem Kept.seen {d : Draw} (h : Kept a s d) (hlt : s.world.now < d.expires) :
    s.world.seen a d.key = some d.token :=
  Expiring.peek_eq_some.2 ⟨d.expires, h hlt, hlt⟩

theorem DrawLedger.drawn_of_seen (h : DrawLedger a s) {k : LockKey} {t : LockToken} (hseen : s.world.seen a k = some t) :
    ∃ c exp, (c, ⟨k, t, exp⟩) ∈ s.draws := by
  obtain ⟨exp, hget, -⟩ := Expiring.peek_eq_some.1 hseen
  obtain ⟨c, hc⟩ := h.placed k t exp hget
  exact ⟨c, exp, hc⟩

/-- A drawn token is seen at its own lock only. -/
theorem DrawLedger.gone (h : DrawLedger a s) {d : Draw} (hd : (c, d) ∈ s.draws) (hkey : s.world.seen a d.key ≠ some d.token) :
    Gone a s d.token := by
  intro k hseen
  obtain ⟨c', exp, hd'⟩ := h.drawn_of_seen hseen
  have hk : d.key = k := congrArg (fun x => x.2.key) (h.unique _ hd _ hd' rfl)
  rw [hk] at hkey
  exact hkey hseen

/-- What one job's draws keep when something happens. -/
structure Respects (a : Place W) (s s' : Callers W C) (c : C) : Prop where
  draws : ∀ d, (c, d) ∈ s'.draws ↔ (c, d) ∈ s.draws
  kept : ∀ d, (c, d) ∈ s.draws → Kept a s d → Kept a s' d
  seen : ∀ d, (c, d) ∈ s.draws → s'.world.seen a d.key = some d.token → s.world.seen a d.key = some d.token
  gone : ∀ t, t.uuid < s.world.uuids → Gone a s t → Gone a s' t

variable [DecidableEq W] {defaultTtlSec : Int} {worker : C → W} {net : Net} {kind : LockKind} {id : Int}
  {holder : Str} {ttlSec : Option Int}

variable (defaultTtlSec kind id holder ttlSec) in
/-- **An acquire is granted iff the lock is seen to be free**, and then the lock is its token's. -/
theorem sendAcquire_eq (h : DrawLedger a s) (hans : answering s.world (worker c) net = a) :
    let r := s.sendAcquire defaultTtlSec worker c net kind id holder ttlSec
    (s.world.seen a (kind, id) = none ∧ r.2.2 = some r.2.1.token ∧
        r.1.world.store a = (s.world.store a).set (kind, id) (r.2.1.token, r.2.1.expires)) ∨
      (s.world.seen a (kind, id) ≠ none ∧ r.2.2 = none ∧ r.1.world.store a = s.world.store a) := by
  intro r
  have hnew : s.world.seen a (kind, id) ≠ some ⟨holder, s.world.uuids⟩ := by
    intro hseen
    obtain ⟨c', exp, hd⟩ := h.drawn_of_seen hseen
    exact absurd (h.drawn_lt c' _ hd) (lt_irrefl _)
  have htook : takeAt s.world.now (kind, id) ⟨holder, s.world.uuids⟩ (lockTtl defaultTtlSec ttlSec) a (s.world.store a) =
      if s.world.seen a (kind, id) = none then
        (true, (s.world.store a).set (kind, id) (r.2.1.token, r.2.1.expires)) else (false, s.world.store a) :=
    takeAt_new a hnew
  subst hans
  obtain ⟨hst, -⟩ := acquire_answer defaultTtlSec s.world (worker c) net kind id holder ttlSec
  obtain ⟨hres, -⟩ := call_answering s.world (worker c) net
    (Expiring.setNx s.world.now (kind, id) ⟨holder, s.world.uuids⟩ (lockTtl defaultTtlSec ttlSec))
    (localAcquire s.world.now (kind, id) ⟨holder, s.world.uuids⟩ (lockTtl defaultTtlSec ttlSec))
  have hanswer : r.2.2 = if (takeAt s.world.now (kind, id) ⟨holder, s.world.uuids⟩ (lockTtl defaultTtlSec ttlSec)
      (answering s.world (worker c) net) (s.world.store (answering s.world (worker c) net))).1 then
        some r.2.1.token else none := by
    show (if _ = true then _ else _) = _
    rw [hres]
    rfl
  rw [htook] at hanswer hst
  by_cases hfree : s.world.seen (answering s.world (worker c) net) (kind, id) = none
  · rw [if_pos hfree] at hanswer hst
    exact Or.inl ⟨hfree, hanswer, hst⟩
  · rw [if_neg hfree] at hanswer hst
    exact Or.inr ⟨hfree, hanswer, hst⟩

variable (defaultTtlSec kind id) in
/-- **A release deletes its token's entry and nothing else.** -/
theorem sendRelease_eq (token : LockToken) (hans : answering s.world (worker c) net = a) :
    let s' := s.sendRelease defaultTtlSec worker c net kind id (some token)
    (s'.world.store a = s.world.store a ∧ s.world.seen a (kind, id) ≠ some token) ∨
      (s'.world.store a = (s.world.store a).del (kind, id) ∧
        ∃ exp, (s.world.store a).get? (kind, id) = some (token, exp)) := by
  intro s'
  subst hans
  have hst : s'.world.store (answering s.world (worker c) net) =
      (dropAt s.world.now (kind, id) token (answering s.world (worker c) net)
        (s.world.store (answering s.world (worker c) net))).2 :=
    (call_answering s.world (worker c) net (Expiring.delIf s.world.now (kind, id) token)
      (localRelease (kind, id) token)).2
  rw [hst]
  exact dropAt_cases _ _

theorem sendAcquire_ledger (h : DrawLedger a s) (hans : answering s.world (worker c) net = a) :
    DrawLedger a (s.sendAcquire defaultTtlSec worker c net kind id holder ttlSec).1 := by
  have hold : ∀ c' d, (c', d) ∈ s.draws → d.token ≠ ⟨holder, s.world.uuids⟩ := by
    intro c' d hd heq
    exact absurd (heq ▸ h.drawn_lt c' d hd) (lt_irrefl _)
  refine ⟨fun c' d hd => ?_, fun x hx y hy hxy => ?_, fun k t exp hget => ?_⟩
  · rcases List.mem_append.1 hd with hd | hd
    · exact Nat.lt_succ_of_lt (h.drawn_lt c' d hd)
    · obtain rfl := (Prod.mk.inj (List.mem_singleton.1 hd)).2
      exact Nat.lt_succ_self _
  · rcases List.mem_append.1 hx with hx | hx <;> rcases List.mem_append.1 hy with hy | hy
    · exact h.unique x hx y hy hxy
    · rw [List.mem_singleton.1 hy] at hxy
      exact absurd hxy (hold _ _ hx)
    · rw [List.mem_singleton.1 hx] at hxy
      exact absurd hxy.symm (hold _ _ hy)
    · rw [List.mem_singleton.1 hx, List.mem_singleton.1 hy]
  · rcases sendAcquire_eq defaultTtlSec kind id holder ttlSec h hans with ⟨-, -, hst⟩ | ⟨-, -, hst⟩
    · rw [hst, Dict.get?_set] at hget
      split at hget
      · rename_i hk
        obtain ⟨rfl, rfl⟩ := Prod.mk.inj (Option.some.inj hget)
        exact ⟨c, List.mem_append_right _ (by rw [hk]; exact List.mem_singleton_self _)⟩
      · obtain ⟨c', hc'⟩ := h.placed k t exp hget
        exact ⟨c', List.mem_append_left _ hc'⟩
    · rw [hst] at hget
      obtain ⟨c', hc'⟩ := h.placed k t exp hget
      exact ⟨c', List.mem_append_left _ hc'⟩

/-- After an acquire a lock shows the new token, if it was granted there, or what it showed before. -/
theorem sendAcquire_seen (h : DrawLedger a s) (hans : answering s.world (worker c) net = a) {k : LockKey} {t : LockToken}
    (hseen : (s.sendAcquire defaultTtlSec worker c net kind id holder ttlSec).1.world.seen a k = some t) :
    t = ⟨holder, s.world.uuids⟩ ∨ s.world.seen a k = some t := by
  have hpeek : Expiring.peek s.world.now k
      ((s.sendAcquire defaultTtlSec worker c net kind id holder ttlSec).1.world.store a) = some t := hseen
  rcases sendAcquire_eq defaultTtlSec kind id holder ttlSec h hans with ⟨-, -, hst⟩ | ⟨-, -, hst⟩
  · rw [hst, Expiring.peek_set] at hpeek
    split at hpeek
    · split at hpeek
      · exact Or.inl (Option.some.inj hpeek).symm
      · cases hpeek
    · exact Or.inr hpeek
  · rw [hst] at hpeek
    exact Or.inr hpeek

theorem sendAcquire_kept (h : DrawLedger a s) (hans : answering s.world (worker c) net = a) {d : Draw} (hd : Kept a s d) :
    Kept a (s.sendAcquire defaultTtlSec worker c net kind id holder ttlSec).1 d := by
  intro hlt
  have hget := hd hlt
  rcases sendAcquire_eq defaultTtlSec kind id holder ttlSec h hans with ⟨hfree, -, hst⟩ | ⟨-, -, hst⟩
  · have hne : d.key ≠ (kind, id) := by
      intro hk
      have hshown := hd.seen hlt
      rw [hk, hfree] at hshown
      cases hshown
    rw [hst, Dict.get?_set, if_neg hne]
    exact hget
  · rw [hst]
    exact hget

/-- An acquire disturbs no other job. -/
theorem sendAcquire_respects (h : DrawLedger a s) (hans : answering s.world (worker c) net = a) {c' : C} (hc : c' ≠ c) :
    Respects a s (s.sendAcquire defaultTtlSec worker c net kind id holder ttlSec).1 c' := by
  refine ⟨fun d => ?_, fun d _ hk => sendAcquire_kept h hans hk, fun d hd hseen => ?_, fun t hlt hgone k hseen => ?_⟩
  · simp [Callers.sendAcquire, hc]
  · rcases sendAcquire_seen h hans hseen with heq | hold
    · exact absurd (heq ▸ h.drawn_lt c' d hd) (lt_irrefl _)
    · exact hold
  · rcases sendAcquire_seen h hans hseen with rfl | hold
    · exact absurd hlt (lt_irrefl _)
    · exact hgone k hold

/-- After a release every lock shows what it showed, but for the released token under its own lock. -/
theorem sendRelease_seen {token : LockToken} (hans : answering s.world (worker c) net = a) (k : LockKey) :
    (s.sendRelease defaultTtlSec worker c net kind id (some token)).world.seen a k =
      if k = (kind, id) ∧ s.world.seen a (kind, id) = some token then none else s.world.seen a k := by
  show Expiring.peek s.world.now k
    ((s.sendRelease defaultTtlSec worker c net kind id (some token)).world.store a) = _
  rcases sendRelease_eq defaultTtlSec kind id token hans with
    ⟨hst, hne⟩ | ⟨hst, exp, hget⟩
  · rw [hst, if_neg fun hk => hne hk.2]
    rfl
  · rw [hst, Expiring.peek_del]
    by_cases hk : k = (kind, id)
    · rw [if_pos hk]
      by_cases hlt : s.world.now < exp
      · rw [if_pos ⟨hk, Expiring.peek_eq_some.2 ⟨exp, hget, hlt⟩⟩]
      · have hdead : s.world.seen a (kind, id) = none := by
          show Expiring.peek s.world.now (kind, id) (s.world.store a) = none
          unfold Expiring.peek
          rw [hget]
          exact if_neg hlt
        rw [hk, hdead]
        simp
    · rw [if_neg hk, if_neg fun hk' => hk hk'.1]
      rfl

variable (defaultTtlSec) in
theorem sendRelease_gone {d : Draw} (h : DrawLedger a s) (hans : answering s.world (worker c) net = a)
    (hd : (c, d) ∈ s.draws) (hkey : d.key = (kind, id)) :
    Gone a (s.sendRelease defaultTtlSec worker c net kind id (some d.token)) d.token := by
  intro k hseen
  rw [sendRelease_seen hans] at hseen
  by_cases hshown : s.world.seen a d.key = some d.token
  · split at hseen
    · cases hseen
    · rename_i hne
      obtain ⟨c', exp, hd'⟩ := h.drawn_of_seen hseen
      have hk : d.key = k := congrArg (fun x => x.2.key) (h.unique _ hd _ hd' rfl)
      exact hne ⟨hk ▸ hkey, hkey ▸ hshown⟩
  · split at hseen
    · cases hseen
    · exact h.gone hd hshown k hseen

/-- A release keeps what is another token's. -/
theorem sendRelease_kept {token : LockToken} (hans : answering s.world (worker c) net = a) {d : Draw}
    (hne : d.token ≠ token) (hd : Kept a s d) :
    Kept a (s.sendRelease defaultTtlSec worker c net kind id (some token)) d := by
  intro hlt
  have hget := hd hlt
  rcases sendRelease_eq defaultTtlSec kind id token hans with
    ⟨hst, -⟩ | ⟨hst, exp, hheld⟩
  · rw [hst]
    exact hget
  · have hk : d.key ≠ (kind, id) := by
      intro hk
      rw [hk, hheld] at hget
      exact hne (Prod.mk.inj (Option.some.inj hget)).1.symm
    rw [hst, Dict.get?_del, if_neg hk]
    exact hget

theorem sendRelease_ledger {token : LockToken} (h : DrawLedger a s) (hans : answering s.world (worker c) net = a) :
    DrawLedger a (s.sendRelease defaultTtlSec worker c net kind id (some token)) := by
  refine ⟨h.drawn_lt, h.unique, fun k t exp hget => ?_⟩
  rcases sendRelease_eq defaultTtlSec kind id token hans with
    ⟨hst, -⟩ | ⟨hst, -⟩
  · rw [hst] at hget
    exact h.placed k t exp hget
  · rw [hst, Dict.get?_del] at hget
    split at hget
    · cases hget
    · exact h.placed k t exp hget

/-- A release disturbs nobody who did not draw its token. -/
theorem sendRelease_respects {token : LockToken} (hans : answering s.world (worker c) net = a) {c' : C}
    (hother : ∀ d, (c', d) ∈ s.draws → d.token ≠ token) :
    Respects a s (s.sendRelease defaultTtlSec worker c net kind id (some token)) c' := by
  refine ⟨fun d => Iff.rfl, fun d hd hk => sendRelease_kept hans (hother d hd) hk, fun d _ hseen => ?_,
    fun t _ hgone k hseen => ?_⟩
  · rw [sendRelease_seen hans] at hseen
    split at hseen
    · cases hseen
    · exact hseen
  · rw [sendRelease_seen hans] at hseen
    split at hseen
    · cases hseen
    · exact hgone k hseen

theorem tick_gone {ms : Nat} {t : LockToken} (hgone : Gone a s t) :
    Gone a { s with world := lockStep defaultTtlSec s.world (.tick ms) } t := by
  intro k hseen
  have hst : (lockStep defaultTtlSec s.world (.tick ms)).store a = s.world.store a := by cases a <;> rfl
  have hpeek : Expiring.peek (s.world.now + ms) k ((lockStep defaultTtlSec s.world (.tick ms)).store a) = some t := hseen
  rw [hst] at hpeek
  exact hgone k (Expiring.peek_of_later (Nat.le_add_right _ _) hpeek)

variable (defaultTtlSec) in
/-- Time disturbs nobody. -/
theorem tick_respects (ms : Nat) (c' : C) :
    Respects a s { s with world := lockStep defaultTtlSec s.world (.tick ms) } c' := by
  have hst : (lockStep defaultTtlSec s.world (.tick ms)).store a = s.world.store a := by cases a <;> rfl
  have hback : ∀ k t, (lockStep defaultTtlSec s.world (.tick ms)).seen a k = some t → s.world.seen a k = some t := by
    intro k t hseen
    have hpeek : Expiring.peek (s.world.now + ms) k ((lockStep defaultTtlSec s.world (.tick ms)).store a) = some t := hseen
    rw [hst] at hpeek
    exact Expiring.peek_of_later (Nat.le_add_right _ _) hpeek
  refine ⟨fun d => Iff.rfl, fun d _ hk hlt => ?_, fun d _ hseen => hback _ _ hseen,
    fun t _ hgone => tick_gone hgone⟩
  show ((lockStep defaultTtlSec s.world (.tick ms)).store a).get? d.key = _
  rw [hst]
  exact hk (Nat.lt_of_le_of_lt (Nat.le_add_right _ _) hlt)

end Draws

/-! ## Where a job can be -/

section Phases
variable (a : Place W) (s : Callers W C) (c : C)

def lowerId (x y : Int) : Int := if x < y then x else y
def higherId (x y : Int) : Int := if x < y then y else x

theorem lower_lt_higher {x y : Int} (h : x ≠ y) : lowerId x y < higherId x y := by
  unfold lowerId higherId
  split <;> omega

/-- The locks that a call's result is about, with their tokens. -/
def Request.locks : Request → Held → List (LockKey × LockToken)
  | .dual kind (some x) (some y) _ _, .both ta tb => [((kind, x), ta), ((kind, y), tb)]
  | .single kind (some id) _ _, .one t => [((kind, id), t)]
  | _, _ => []

/-- The result is of the kind that the request asks for. -/
def Request.Fits : Request → Held → Prop
  | .dual _ (some x) (some y) _ _, .both ta tb => x = y → ta = tb
  | .single _ (some _) _ _, .one _ => True
  | _, _ => False

def Mine (l : LockKey × LockToken) : Prop := ∃ d, (c, d) ∈ s.draws ∧ d.key = l.1 ∧ d.token = l.2

/-- The lock is this draw's, of this job. -/
structure Owns (key : LockKey) (d : Draw) : Prop where
  drawn : (c, d) ∈ s.draws
  key : d.key = key
  kept : Kept a s d

/-- The call has come so far: nothing is sent yet, the lower host is locked, or the higher one was busy. -/
inductive Acquiring : Request → List Draw → Task (Option Held) → Prop
  | nothing (request : Request) : Acquiring request [] request.acquire
  | lowerLocked {kind : LockKind} {x y : Int} {holder : Str} {ttlSec : Option Int} {d : Draw} (hne : x ≠ y)
      (hd : Owns a s c (kind, lowerId x y) d) :
      Acquiring (.dual kind (some x) (some y) holder ttlSec) [d]
        ((trySecond kind holder ttlSec (lowerId x y) (higherId x y) (!decide (x < y)) d.token).map
          fun r => r.map fun t => .both t.1 t.2)
  | higherBusy {kind : LockKind} {x y : Int} {holder : Str} {ttlSec : Option Int} {d e : Draw}
      (hd : Owns a s c (kind, lowerId x y) d) (he : (c, e) ∈ s.draws) (hgone : Gone a s e.token) :
      Acquiring (.dual kind (some x) (some y) holder ttlSec) [d, e]
        ((rollBack kind (lowerId x y) d.token).map fun r => r.map fun t => .both t.1 t.2)

structure Holding (request : Request) (held : Held) : Prop where
  fits : request.Fits held
  owns : ∀ l ∈ request.locks held, ∃ d, Owns a s c l.1 d ∧ d.token = l.2

inductive Releasing : Request → Held → Task Unit → Prop
  | nothing {request : Request} {held : Held} (hfits : request.Fits held) (hmine : ∀ l ∈ request.locks held, Mine s c l) :
      Releasing request held (request.release held)
  | firstGone {kind : LockKind} {x y : Int} {holder : Str} {ttlSec : Option Int} {ta tb : LockToken}
      (hmine : ∀ l ∈ (Request.dual kind (some x) (some y) holder ttlSec).locks (.both ta tb), Mine s c l)
      (hgone : Gone a s ta) :
      Releasing (.dual kind (some x) (some y) holder ttlSec) (.both ta tb) (.release kind y (some tb) (.done ()))

def Held.tokens : Held → List LockToken
  | .both ta tb => [ta, tb]
  | .one t => [t]

def Phase.tokens : Phase → List LockToken
  | .idle => []
  | .acquiring _ drawn _ => drawn.map Draw.token
  | .holding _ held => held.tokens
  | .releasing _ held _ => held.tokens

def PhaseOk : Phase → Prop
  | .idle => True
  | .acquiring request drawn rest => Acquiring a s c request drawn rest
  | .holding request held => Holding a s c request held
  | .releasing request held rest => Releasing a s c request held rest

/-- A job is where it can be, and what it has in the store is what its call knows of. -/
structure JobOk (p : Phase) : Prop where
  phase : PhaseOk a s c p
  shown : ∀ d, (c, d) ∈ s.draws → s.world.seen a d.key = some d.token → d.token ∈ p.tokens

variable {a s c}

theorem Respects.mine {s' : Callers W C} (h : Respects a s s' c) {l : LockKey × LockToken} (hm : Mine s c l) :
    Mine s' c l := by
  obtain ⟨d, hd, hl⟩ := hm
  exact ⟨d, (h.draws d).2 hd, hl⟩

theorem Respects.owns {s' : Callers W C} (h : Respects a s s' c) {key : LockKey} {d : Draw} (ho : Owns a s c key d) :
    Owns a s' c key d :=
  ⟨(h.draws d).2 ho.drawn, ho.key, h.kept d ho.drawn ho.kept⟩

/-- A job stays where it is while nothing disturbs it. -/
theorem Respects.jobOk {s' : Callers W C} (hl : DrawLedger a s) (h : Respects a s s' c) {p : Phase} (hp : JobOk a s c p) :
    JobOk a s' c p := by
  refine ⟨?_, fun d hd hseen => ?_⟩
  · obtain ⟨hphase, -⟩ := hp
    cases p with
    | idle => trivial
    | acquiring request drawn rest =>
      cases hphase with
      | nothing => exact .nothing request
      | lowerLocked hne hd => exact .lowerLocked hne (h.owns hd)
      | higherBusy hd he hgone =>
        exact .higherBusy (h.owns hd) ((h.draws _).2 he) (h.gone _ (hl.drawn_lt c _ he) hgone)
    | holding request held =>
      refine ⟨hphase.fits, fun l hm => ?_⟩
      obtain ⟨d, ho, ht⟩ := hphase.owns l hm
      exact ⟨d, h.owns ho, ht⟩
    | releasing request held rest =>
      cases hphase with
      | nothing hfits hmine => exact .nothing hfits fun l hm => h.mine (hmine l hm)
      | firstGone hmine hgone =>
        refine .firstGone (fun l hm => h.mine (hmine l hm)) ?_
        obtain ⟨d, hd, -, rfl⟩ := hmine _ List.mem_cons_self
        exact h.gone _ (hl.drawn_lt c d hd) hgone
  · exact hp.shown d ((h.draws d).1 hd) (h.seen d ((h.draws d).1 hd) hseen)

end Phases

/-! ## One event -/

section Event
variable {a : Place W} {s : Callers W C}

/-- Tokens of calls that are over are seen nowhere, and every job is where it can be. -/
structure Sound (a : Place W) (s : Callers W C) : Prop where
  ledger : DrawLedger a s
  refused : ∀ d ∈ s.refused, d.token.uuid < s.world.uuids ∧ Gone a s d.token
  givenBack : ∀ x ∈ s.givenBack, ∀ l ∈ x.1.locks x.2, l.2.uuid < s.world.uuids ∧ Gone a s l.2
  jobs : ∀ c, JobOk a s c (s.phase c)

/-- Only where jobs are has changed. -/
theorem JobOk.of_phase (hl : DrawLedger a s) (s' : Callers W C) (hworld : s'.world = s.world) (hdraws : s'.draws = s.draws)
    {c : C} {p : Phase} (hp : JobOk a s c p) : JobOk a s' c p := by
  have h : Respects a s s' c := by
    refine ⟨fun d => by rw [hdraws], fun d _ hk => ?_, fun d _ hseen => ?_, fun t _ hgone k hseen => ?_⟩
    · unfold Kept
      rw [hworld]
      exact hk
    · rwa [hworld] at hseen
    · rw [hworld] at hseen
      exact hgone k hseen
  exact h.jobOk hl hp

theorem DrawLedger.of_phase {s' : Callers W C} (h : DrawLedger a s) (hworld : s'.world = s.world) (hdraws : s'.draws = s.draws) :
    DrawLedger a s' := by
  refine ⟨fun c d hd => ?_, fun x hx y hy => ?_, fun k t exp hget => ?_⟩
  · rw [hworld]
    exact h.drawn_lt c d (hdraws ▸ hd)
  · exact h.unique x (hdraws ▸ hx) y (hdraws ▸ hy)
  · rw [hworld] at hget
    rw [hdraws]
    exact h.placed k t exp hget

variable [DecidableEq C] {c : C} {request : Request} {held : Held} {drawn : List Draw}

/-- All is well but for where job `c` is. -/
structure Apart (a : Place W) (s : Callers W C) (c : C) : Prop where
  ledger : DrawLedger a s
  refused : ∀ d ∈ s.refused, d.token.uuid < s.world.uuids ∧ Gone a s d.token
  givenBack : ∀ x ∈ s.givenBack, ∀ l ∈ x.1.locks x.2, l.2.uuid < s.world.uuids ∧ Gone a s l.2
  jobs : ∀ c', c' ≠ c → JobOk a s c' (s.phase c')

omit [DecidableEq C] in
theorem Sound.apart (h : Sound a s) (c : C) : Apart a s c := ⟨h.ledger, h.refused, h.givenBack, fun c' _ => h.jobs c'⟩

theorem Apart.setPhase (h : Apart a s c) {p : Phase} (hp : JobOk a s c p) : Sound a (s.setPhase c p) := by
  refine ⟨h.ledger.of_phase rfl rfl, h.refused, h.givenBack, fun c' => ?_⟩
  refine JobOk.of_phase h.ledger (s.setPhase c p) rfl rfl ?_
  show JobOk a s c' (if c' = c then p else s.phase c')
  split
  · rename_i hc
    rw [hc]
    exact hp
  · rename_i hc
    exact h.jobs c' hc

/-- A call that has come to `rest` is in order. -/
def Arrived (a : Place W) (s : Callers W C) (c : C) (request : Request) (drawn : List Draw) :
    Task (Option Held) → Prop
  | .done (some held) => JobOk a s c (.holding request held)
  | .done none => JobOk a s c .idle ∧ ∀ d ∈ drawn, d.token.uuid < s.world.uuids ∧ Gone a s d.token
  | rest => JobOk a s c (.acquiring request drawn rest)

theorem Apart.acquired (h : Apart a s c) {rest : Task (Option Held)} (hrest : Arrived a s c request drawn rest) :
    Sound a (s.acquired c request drawn rest) := by
  match rest, hrest with
  | .done (some held), hp => exact h.setPhase hp
  | .done none, ⟨hp, hgone⟩ =>
    have hs := h.setPhase hp
    refine ⟨hs.ledger.of_phase rfl rfl, fun d hd => ?_, hs.givenBack,
      fun c' => JobOk.of_phase hs.ledger (s.acquired c request drawn (.done none)) rfl rfl (hs.jobs c')⟩
    rcases List.mem_append.1 hd with hd | hd
    · exact h.refused d hd
    · exact hgone d hd
  | .acquire _ _ _ _ _, hp => exact h.setPhase hp
  | .release _ _ _ _, hp => exact h.setPhase hp

/-- A release that has come to `rest` is in order. -/
def LetGo (a : Place W) (s : Callers W C) (c : C) (request : Request) (held : Held) : Task Unit → Prop
  | .done () => JobOk a s c .idle ∧ ∀ l ∈ request.locks held, l.2.uuid < s.world.uuids ∧ Gone a s l.2
  | rest => JobOk a s c (.releasing request held rest)

theorem Apart.released (h : Apart a s c) {rest : Task Unit} (hrest : LetGo a s c request held rest) :
    Sound a (s.released c request held rest) := by
  match rest, hrest with
  | .done (), ⟨hp, hgone⟩ =>
    have hs := h.setPhase hp
    refine ⟨hs.ledger.of_phase rfl rfl, hs.refused, fun x hx => ?_,
      fun c' => JobOk.of_phase hs.ledger (s.released c request held (.done ())) rfl rfl (hs.jobs c')⟩
    rcases List.mem_append.1 hx with hx | hx
    · exact h.givenBack x hx
    · obtain rfl := List.mem_singleton.1 hx
      exact hgone
  | .acquire _ _ _ _ _, hp => exact h.setPhase hp
  | .release _ _ _ _, hp => exact h.setPhase hp

variable [DecidableEq W] {defaultTtlSec : Int} {worker : C → W} {net : Net} {kind : LockKind} {id : Int}
  {holder : Str} {ttlSec : Option Int}

omit [DecidableEq C] in
/-- An acquire command leaves all but its job in order. -/
theorem Sound.sendAcquire (h : Sound a s) (hans : answering s.world (worker c) net = a) :
    Apart a (s.sendAcquire defaultTtlSec worker c net kind id holder ttlSec).1 c := by
  have hgone : ∀ t, t.uuid < s.world.uuids → Gone a s t →
      Gone a (s.sendAcquire defaultTtlSec worker c net kind id holder ttlSec).1 t := by
    intro t hlt hg k hseen
    rcases sendAcquire_seen h.ledger hans hseen with rfl | hold
    · exact absurd hlt (lt_irrefl _)
    · exact hg k hold
  refine ⟨sendAcquire_ledger h.ledger hans, fun d hd => ?_, fun x hx l hl => ?_, fun c' hc => ?_⟩
  · obtain ⟨hlt, hg⟩ := h.refused d hd
    exact ⟨Nat.lt_succ_of_lt hlt, hgone _ hlt hg⟩
  · obtain ⟨hlt, hg⟩ := h.givenBack x hx l hl
    exact ⟨Nat.lt_succ_of_lt hlt, hgone _ hlt hg⟩
  · exact (sendAcquire_respects h.ledger hans hc).jobOk h.ledger (h.jobs c')

omit [DecidableEq C] in
/-- So does a release command of a token that the job drew. -/
theorem Sound.sendRelease (h : Sound a s) (hans : answering s.world (worker c) net = a) {d : Draw}
    (hd : (c, d) ∈ s.draws) : Apart a (s.sendRelease defaultTtlSec worker c net kind id (some d.token)) c := by
  have hgone : ∀ t, Gone a s t → Gone a (s.sendRelease defaultTtlSec worker c net kind id (some d.token)) t := by
    intro t hg k hseen
    rw [sendRelease_seen hans] at hseen
    split at hseen
    · cases hseen
    · exact hg k hseen
  refine ⟨sendRelease_ledger h.ledger hans, fun e he => ?_, fun x hx l hl => ?_, fun c' hc => ?_⟩
  · exact ⟨(h.refused e he).1, hgone _ (h.refused e he).2⟩
  · exact ⟨(h.givenBack x hx l hl).1, hgone _ (h.givenBack x hx l hl).2⟩
  · refine (sendRelease_respects hans fun e he heq => ?_).jobOk h.ledger (h.jobs c')
    exact hc (congrArg Prod.fst (h.ledger.unique _ he _ hd heq))

/-! ### What a job's own command comes to -/

omit [DecidableEq C] in
variable (defaultTtlSec kind id holder ttlSec) in
/-- The job's new token is the only one of its own that an acquire shows anew. -/
theorem sendAcquire_shown (h : Sound a s) (hans : answering s.world (worker c) net = a) {p : Phase}
    (hp : JobOk a s c p) {e : Draw} (he : (c, e) ∈ (s.sendAcquire defaultTtlSec worker c net kind id holder ttlSec).1.draws)
    (hseen : (s.sendAcquire defaultTtlSec worker c net kind id holder ttlSec).1.world.seen a e.key = some e.token) :
    e.token = ⟨holder, s.world.uuids⟩ ∨ e.token ∈ p.tokens := by
  rcases List.mem_append.1 he with he | he
  · rcases sendAcquire_seen h.ledger hans hseen with hnew | hold
    · exact Or.inl hnew
    · exact Or.inr (hp.shown e he hold)
  · obtain rfl := (Prod.mk.inj (List.mem_singleton.1 he)).2
    exact Or.inl rfl

omit [DecidableEq C] in
variable (defaultTtlSec kind id holder ttlSec) in
/-- The answer of an acquire: the lock is the draw's, or its token is seen nowhere. -/
theorem sendAcquire_answer (h : Sound a s) (hans : answering s.world (worker c) net = a) :
    let r := s.sendAcquire defaultTtlSec worker c net kind id holder ttlSec
    (r.2.2 = some r.2.1.token ∧ Owns a r.1 c (kind, id) r.2.1) ∨ (r.2.2 = none ∧ Gone a r.1 r.2.1.token) := by
  intro r
  have hmem : (c, r.2.1) ∈ r.1.draws := List.mem_append_right _ (List.mem_singleton_self _)
  rcases sendAcquire_eq defaultTtlSec kind id holder ttlSec h.ledger hans with ⟨-, hgot, hst⟩ | ⟨-, hgot, hst⟩
  · refine Or.inl ⟨hgot, hmem, rfl, fun _ => ?_⟩
    rw [hst, Dict.get?_set]
    exact if_pos rfl
  · refine Or.inr ⟨hgot, fun k hseen => ?_⟩
    have hpeek : Expiring.peek s.world.now k (r.1.world.store a) = some r.2.1.token := hseen
    rw [hst] at hpeek
    obtain ⟨c', exp, hd⟩ := h.ledger.drawn_of_seen hpeek
    exact absurd (h.ledger.drawn_lt c' _ hd) (lt_irrefl _)

omit [DecidableEq C] [DecidableEq W] in
variable (holder ttlSec) in
theorem Holding.of_both {x y : Int} (hne : x ≠ y) {d e : Draw} (hd : Owns a s c (kind, lowerId x y) d)
    (he : Owns a s c (kind, higherId x y) e) :
    Holding a s c (.dual kind (some x) (some y) holder ttlSec)
      (if !decide (x < y) then .both e.token d.token else .both d.token e.token) := by
  unfold lowerId at hd
  unfold higherId at he
  by_cases hlt : x < y
  · rw [if_pos hlt] at hd he
    rw [if_neg (by simp [hlt])]
    refine ⟨fun heq => absurd heq hne, fun l hl => ?_⟩
    rcases List.mem_pair.1 hl with rfl | rfl
    · exact ⟨d, hd, rfl⟩
    · exact ⟨e, he, rfl⟩
  · rw [if_neg hlt] at hd he
    rw [if_pos (by simp [hlt])]
    refine ⟨fun heq => absurd heq hne, fun l hl => ?_⟩
    rcases List.mem_pair.1 hl with rfl | rfl
    · exact ⟨e, he, rfl⟩
    · exact ⟨d, hd, rfl⟩

omit [DecidableEq C] [DecidableEq W] in
/-- A request sends nothing, or an acquire of its host or of the lower one. -/
theorem Request.acquire_cases (request : Request) :
    request.acquire = .done none ∨
    (∃ kind id holder ttlSec next, request.acquire = .acquire kind id holder ttlSec next ∧ next none = .done none ∧
      ∀ a : Place W, ∀ s : Callers W C, ∀ c d, Owns a s c (kind, id) d →
        (∃ held, next (some d.token) = .done (some held) ∧ Holding a s c request held ∧ d.token ∈ held.tokens) ∨
        Acquiring a s c request [d] (next (some d.token)) ∧ ∃ kind' id' holder' ttl' next',
          next (some d.token) = .acquire kind' id' holder' ttl' next') := by
  cases request with
  | single kind id holder ttlSec =>
    cases id with
    | none => exact Or.inl rfl
    | some id =>
      refine Or.inr ⟨kind, id, holder, ttlSec, _, rfl, rfl, fun a s c d hd => Or.inl ⟨_, rfl, ⟨trivial, ?_⟩, ?_⟩⟩
      · intro l hl
        obtain rfl := List.mem_singleton.1 hl
        exact ⟨d, hd, rfl⟩
      · exact List.mem_singleton_self _
  | dual kind x y holder ttlSec =>
    cases x with
    | none => exact Or.inl rfl
    | some x =>
      cases y with
      | none => exact Or.inl rfl
      | some y =>
        refine Or.inr ?_
        unfold Request.acquire tryAcquireDualServerLock
        by_cases heq : x = y
        · subst heq
          simp only [if_true, Task.map]
          refine ⟨kind, x, holder, ttlSec, _, rfl, rfl, fun a s c d hd => Or.inl ⟨_, rfl, ⟨fun _ => rfl, ?_⟩, ?_⟩⟩
          · intro l hl
            rcases List.mem_pair.1 hl with rfl | rfl
            · exact ⟨d, hd, rfl⟩
            · exact ⟨d, hd, rfl⟩
          · exact List.mem_cons_self
        · simp only [if_neg heq, Task.map]
          have hpair : (if x < y then (x, y) else (y, x)) = (lowerId x y, higherId x y) := by
            unfold lowerId higherId
            split <;> rfl
          rw [hpair]
          refine ⟨kind, lowerId x y, holder, ttlSec, _, rfl, rfl, fun a s c d hd => Or.inr ⟨.lowerLocked heq hd, ?_⟩⟩
          exact ⟨_, _, _, _, _, rfl⟩

omit [DecidableEq C] [DecidableEq W] in
theorem arrived_start (hp : JobOk a s c .idle) (request : Request) : Arrived a s c request [] request.acquire := by
  rcases request.acquire_cases (W := W) (C := C) with hdone | ⟨kind, id, holder, ttlSec, next, hacq, -⟩
  · rw [hdone]
    exact ⟨hp, by simp⟩
  · have hphase : Acquiring a s c request [] request.acquire := .nothing request
    rw [hacq] at hphase ⊢
    exact ⟨hphase, hp.shown⟩

omit [DecidableEq C] in
/-- **What an acquire command comes to**: the call holds what it asked for, holds nothing, or goes on. -/
theorem acquire_arrives (h : Sound a s) (hans : answering s.world (worker c) net = a) {next : Option LockToken → Task (Option Held)}
    (hp : JobOk a s c (.acquiring request drawn (.acquire kind id holder ttlSec next))) :
    let r := s.sendAcquire defaultTtlSec worker c net kind id holder ttlSec
    Arrived a r.1 c request (drawn ++ [r.2.1]) (next r.2.2) := by
  intro r
  have hshown := fun e => sendAcquire_shown defaultTtlSec kind id holder ttlSec h hans hp (e := e)
  have hanswer := sendAcquire_answer defaultTtlSec kind id holder ttlSec h hans
  have hphase : Acquiring a s c request drawn (.acquire kind id holder ttlSec next) := hp.phase
  generalize htask : Task.acquire kind id holder ttlSec next = task at hphase
  cases hphase with
  | nothing =>
    rcases request.acquire_cases (W := W) (C := C) with hdone | ⟨kind', id', holder', ttl', next', hacq, hnone, hsome⟩
    · rw [hdone] at htask
      cases htask
    · rw [hacq] at htask
      cases htask
      rcases hanswer with ⟨hgot, howns⟩ | ⟨hgot, hgone⟩
      · rw [hgot]
        rcases hsome a r.1 c r.2.1 howns with ⟨held, hnext, hholding, hmem⟩ | ⟨hacq', k, i', ho, tt, nx, hnext⟩
        · rw [hnext]
          refine ⟨hholding, fun e he hseen => ?_⟩
          rcases hshown e he hseen with hnew | hold
          · rw [hnew]
            exact hmem
          · cases hold
        · rw [hnext] at hacq' ⊢
          refine ⟨hacq', fun e he hseen => ?_⟩
          rcases hshown e he hseen with hnew | hold
          · rw [hnew]
            exact List.mem_singleton_self _
          · cases hold
      · rw [hgot, hnone]
        refine ⟨⟨trivial, fun e he hseen => ?_⟩, fun d hd => ?_⟩
        · rcases hshown e he hseen with hnew | hold
          · rw [hnew] at hseen
            exact absurd hseen (hgone _)
          · cases hold
        · obtain rfl := List.mem_singleton.1 hd
          exact ⟨Nat.lt_succ_self _, hgone⟩
  | lowerLocked hne hd =>
    rename_i kind' x y holder' ttl' d
    cases htask
    have hd' : Owns a r.1 c (kind, lowerId x y) d :=
      ⟨List.mem_append_left _ hd.drawn, hd.key, sendAcquire_kept h.ledger hans hd.kept⟩
    rcases hanswer with ⟨hgot, howns⟩ | ⟨hgot, hgone⟩
    · rw [hgot]
      have hholding := Holding.of_both holder ttlSec hne hd' howns
      show JobOk a r.1 c (.holding _ (Held.both _ _))
      have hheld : (if !decide (x < y) then Held.both r.2.1.token d.token else Held.both d.token r.2.1.token) =
          Held.both (if !decide (x < y) then (r.2.1.token, d.token) else (d.token, r.2.1.token)).1
            (if !decide (x < y) then (r.2.1.token, d.token) else (d.token, r.2.1.token)).2 := by
        split <;> rfl
      rw [hheld] at hholding
      refine ⟨hholding, fun e he hseen => ?_⟩
      have hmem : e.token = r.2.1.token ∨ e.token = d.token := by
        rcases hshown e he hseen with hnew | hold
        · exact Or.inl hnew
        · exact Or.inr (List.mem_singleton.1 hold)
      show e.token ∈ [_, _]
      split
      · exact List.mem_pair.2 hmem
      · exact List.mem_pair.2 hmem.symm
    · rw [hgot]
      refine ⟨.higherBusy hd' (List.mem_append_right _ (List.mem_singleton_self _)) hgone, fun e he hseen => ?_⟩
      rcases hshown e he hseen with hnew | hold
      · exact List.mem_cons_of_mem _ (by rw [hnew]; exact List.mem_singleton_self _)
      · exact List.mem_cons.2 (Or.inl (List.mem_singleton.1 hold))
  | higherBusy => cases htask

omit [DecidableEq C] in
/-- What was seen after a release was seen before it. -/
theorem sendRelease_shown {token : LockToken} (hans : answering s.world (worker c) net = a) {k : LockKey} {t : LockToken}
    (hseen : (s.sendRelease defaultTtlSec worker c net kind id (some token)).world.seen a k = some t) :
    s.world.seen a k = some t := by
  rw [sendRelease_seen hans] at hseen
  split at hseen
  · cases hseen
  · exact hseen

omit [DecidableEq C] in
variable (defaultTtlSec) in
/-- **The rollback leaves neither token behind.** -/
theorem rollBack_arrives (h : Sound a s) (hans : answering s.world (worker c) net = a) {token : Option LockToken}
    {next : Task (Option Held)} (hp : JobOk a s c (.acquiring request drawn (.release kind id token next))) :
    ∃ d, (c, d) ∈ s.draws ∧ token = some d.token ∧
      Arrived a (s.sendRelease defaultTtlSec worker c net kind id token) c request drawn next := by
  have hphase : Acquiring a s c request drawn (.release kind id token next) := hp.phase
  generalize htask : Task.release kind id token next = task at hphase
  cases hphase with
  | nothing =>
    rcases request.acquire_cases (W := W) (C := C) with hdone | ⟨kind', id', holder', ttl', next', hacq, -⟩
    · rw [hdone] at htask
      cases htask
    · rw [hacq] at htask
      cases htask
  | lowerLocked => cases htask
  | higherBusy hd he hgone =>
    rename_i kind' x y holder' ttl' d e
    cases htask
    refine ⟨d, hd.drawn, rfl, ?_⟩
    have hdgone := sendRelease_gone defaultTtlSec h.ledger hans hd.drawn hd.key
    have hegone : Gone a (s.sendRelease defaultTtlSec worker c net kind (lowerId x y) (some d.token)) e.token :=
      fun k hseen => hgone k (sendRelease_shown hans hseen)
    refine ⟨⟨trivial, fun e' he' hseen => ?_⟩, fun d' hd' => ?_⟩
    · rcases List.mem_pair.1 (hp.shown e' he' (sendRelease_shown hans hseen)) with htok | htok
      · rw [htok] at hseen
        exact absurd hseen (hdgone _)
      · rw [htok] at hseen
        exact absurd hseen (hegone _)
    · rcases List.mem_pair.1 hd' with rfl | rfl
      · exact ⟨h.ledger.drawn_lt c _ hd.drawn, hdgone⟩
      · exact ⟨h.ledger.drawn_lt c _ he, hegone⟩

omit [DecidableEq C] in
variable (defaultTtlSec) in
/-- **What a release command comes to**: its token, one of those the call gave, is gone. -/
theorem release_letsGo (h : Sound a s) (hans : answering s.world (worker c) net = a) {token : Option LockToken}
    {next : Task Unit} (hp : JobOk a s c (.releasing request held (.release kind id token next))) :
    ∃ d, (c, d) ∈ s.draws ∧ token = some d.token ∧ ((kind, id), d.token) ∈ request.locks held ∧
      LetGo a (s.sendRelease defaultTtlSec worker c net kind id token) c request held next := by
  have hphase : Releasing a s c request held (.release kind id token next) := hp.phase
  have hshown := fun token' e (he : (c, e) ∈ s.draws)
      (hseen : (s.sendRelease defaultTtlSec worker c net kind id (some token')).world.seen a e.key = some e.token) =>
    hp.shown e he (sendRelease_shown hans hseen)
  -- the last command leaves nothing of the call
  have hlast : ∀ d, (c, d) ∈ s.draws → d.key = (kind, id) → token = some d.token → next = .done () →
      (∀ t ∈ held.tokens, t = d.token ∨ Gone a s t) →
      (∀ l ∈ request.locks held, l.2.uuid < s.world.uuids ∧ (l.2 = d.token ∨ Gone a s l.2)) →
      LetGo a (s.sendRelease defaultTtlSec worker c net kind id token) c request held next := by
    rintro d hd hkey rfl rfl htok hlocks
    have hdgone := sendRelease_gone defaultTtlSec h.ledger hans hd hkey
    have hold : ∀ t, t = d.token ∨ Gone a s t →
        Gone a (s.sendRelease defaultTtlSec worker c net kind id (some d.token)) t := by
      rintro t (rfl | hgone) k hseen
      · exact hdgone k hseen
      · exact hgone k (sendRelease_shown hans hseen)
    refine ⟨⟨trivial, fun e he hseen => ?_⟩, fun l hl => ⟨(hlocks l hl).1, hold l.2 (hlocks l hl).2⟩⟩
    exact absurd hseen (hold e.token (htok _ (hshown _ e he hseen)) _)
  generalize htask : Task.release kind id token next = task at hphase
  cases hphase with
  | nothing hfits hmine =>
    match request, held, hfits with
    | .dual kind' (some x) (some y) holder' ttl', .both ta tb, hfits =>
      obtain ⟨d, hd, hkey, hta⟩ := hmine _ List.mem_cons_self
      simp only at hkey hta
      by_cases heq : x = y
      · obtain rfl := hfits heq
        subst heq
        simp only [Request.release, releaseDualServerLock, if_true] at htask
        cases htask
        have htok : (some ta).or (some ta) = some d.token := (congrArg some hta).symm
        refine ⟨d, hd, htok, by rw [hta]; exact List.mem_cons_self, hlast d hd hkey htok rfl ?_ ?_⟩
        · intro t ht
          rcases List.mem_pair.1 ht with rfl | rfl <;> exact Or.inl hta.symm
        · intro l hl
          rcases List.mem_pair.1 hl with rfl | rfl <;>
            exact ⟨hta ▸ h.ledger.drawn_lt c d hd, Or.inl hta.symm⟩
      · simp only [Request.release, releaseDualServerLock, if_neg heq] at htask
        cases htask
        refine ⟨d, hd, by rw [hta], by rw [hta]; exact List.mem_cons_self, ?_⟩
        rw [← hta] at hmine ⊢
        refine ⟨.firstGone hmine (sendRelease_gone defaultTtlSec h.ledger hans hd hkey), fun e he hseen => ?_⟩
        exact hta ▸ hshown _ e he hseen
    | .single kind' (some x) holder' ttl', .one t, _ =>
      obtain ⟨d, hd, hkey, ht⟩ := hmine _ List.mem_cons_self
      simp only at hkey ht
      cases htask
      refine ⟨d, hd, by rw [ht], by rw [ht]; exact List.mem_cons_self, hlast d hd hkey (by rw [ht]) rfl ?_ ?_⟩
      · intro t' ht'
        rw [List.mem_singleton.1 ht']
        exact Or.inl ht.symm
      · intro l hl
        rw [List.mem_singleton.1 hl]
        exact ⟨ht ▸ h.ledger.drawn_lt c d hd, Or.inl ht.symm⟩
  | firstGone hmine hgone =>
    rename_i kind' x y holder' ttl' ta tb
    cases htask
    obtain ⟨d, hd, hkey, htb⟩ := hmine _ (List.mem_cons_of_mem _ List.mem_cons_self)
    obtain ⟨d₀, hd₀, -, hta⟩ := hmine _ List.mem_cons_self
    simp only at hkey htb hta
    refine ⟨d, hd, by rw [htb], by rw [htb]; exact List.mem_cons_of_mem _ List.mem_cons_self,
      hlast d hd hkey (by rw [htb]) rfl ?_ ?_⟩
    · intro t ht
      rcases List.mem_pair.1 ht with rfl | rfl
      · exact Or.inr hgone
      · exact Or.inl htb.symm
    · intro l hl
      rcases List.mem_pair.1 hl with rfl | rfl
      · exact ⟨hta ▸ h.ledger.drawn_lt c d₀ hd₀, Or.inr hgone⟩
      · exact ⟨htb ▸ h.ledger.drawn_lt c d hd, Or.inl htb.symm⟩

omit [DecidableEq C] [DecidableEq W] in
theorem released_start (h : Sound a s) (hphase : s.phase c = .holding request held) :
    LetGo a s c request held (request.release held) := by
  have hp := h.jobs c
  rw [hphase] at hp
  obtain ⟨⟨hfits, howns⟩, hshown⟩ := hp
  have hmine : ∀ l ∈ request.locks held, Mine s c l := by
    intro l hl
    obtain ⟨d, hd, ht⟩ := howns l hl
    exact ⟨d, hd.drawn, hd.key, ht⟩
  have hreleasing : Releasing a s c request held (request.release held) := .nothing hfits hmine
  have hok : JobOk a s c (.releasing request held (request.release held)) := ⟨hreleasing, hshown⟩
  match request, held, hfits with
  | .dual kind (some x) (some y) holder ttlSec, .both ta tb, _ =>
    unfold Request.release releaseDualServerLock at hok ⊢
    by_cases heq : x = y
    · simp only [if_pos heq] at hok ⊢
      exact hok
    · simp only [if_neg heq] at hok ⊢
      exact hok
  | .single kind (some x) holder ttlSec, .one t, _ => exact hok

/-- **Every event keeps the ledger and the jobs in order**, when the store answers its command. -/
theorem jobStep_sound (s : Callers W C) (e : JobEvent C) (h : Sound a s) (he : Answers worker a s e) :
    Sound a (jobStep defaultTtlSec worker s e) := by
  cases e with
  | ask c request =>
    have hp := h.jobs c
    simp only [jobStep]
    split
    · rename_i hphase
      rw [hphase] at hp
      exact (h.apart c).acquired (arrived_start hp request)
    · exact h
  | giveBack c =>
    simp only [jobStep]
    split
    · rename_i hphase
      exact (h.apart c).released (released_start h hphase)
    · exact h
  | step c net =>
    have hans : answering s.world (worker c) net = a := he
    have hp := h.jobs c
    simp only [jobStep]
    split
    · rename_i hphase
      rw [hphase] at hp
      exact (h.sendAcquire hans).acquired (acquire_arrives h hans hp)
    · rename_i hphase
      rw [hphase] at hp
      obtain ⟨d, hd, rfl, harr⟩ := rollBack_arrives defaultTtlSec h hans hp
      exact (h.sendRelease hans hd).acquired harr
    · rename_i hphase
      rw [hphase] at hp
      obtain ⟨d, hd, rfl, -, hlet⟩ := release_letsGo defaultTtlSec h hans hp
      exact (h.sendRelease hans hd).released hlet
    · exact h
  | tick ms =>
    have hresp := fun c => tick_respects (a := a) (s := s) defaultTtlSec ms c
    have hst : (lockStep defaultTtlSec s.world (.tick ms)).store a = s.world.store a := by cases a <;> rfl
    refine ⟨⟨h.ledger.drawn_lt, h.ledger.unique, fun k t exp hget => ?_⟩, fun d hd => ?_, fun x hx l hl => ?_,
      fun c => (hresp c).jobOk h.ledger (h.jobs c)⟩
    · exact h.ledger.placed k t exp (hst ▸ hget)
    · obtain ⟨hlt, hgone⟩ := h.refused d hd
      exact ⟨hlt, tick_gone hgone⟩
    · obtain ⟨hlt, hgone⟩ := h.givenBack x hx l hl
      exact ⟨hlt, tick_gone hgone⟩

omit [DecidableEq C] [DecidableEq W] in
theorem start_sound (a : Place W) : Sound a (Callers.start : Callers W C) := by
  refine ⟨⟨by simp [Callers.start], by simp [Callers.start], fun k t exp hget => ?_⟩, by simp [Callers.start],
    by simp [Callers.start], fun c => ⟨trivial, by simp [Callers.start]⟩⟩
  cases a <;> cases hget

end Event

/-! ## Runs -/

section JobRuns
variable (a : Place W) (s : Callers W C) (c : C)

/-- Job `c` has the lock: a token that it drew is seen there. -/
def Has (key : LockKey) : Prop := ∃ d, (c, d) ∈ s.draws ∧ s.world.seen a key = some d.token

/-- The next command of job `c` is an acquire of this lock. -/
def Tries (key : LockKey) : Prop :=
  ∃ request drawn holder ttlSec next, s.phase c = .acquiring request drawn (.acquire key.1 key.2 holder ttlSec next)

variable {a s c}

/-- **A job that has a lock tries only for a higher host.** -/
theorem Sound.tries_higher (h : Sound a s) {key key' : LockKey} (hhas : Has a s c key) (htries : Tries s c key') :
    key.1 = key'.1 ∧ key.2 < key'.2 := by
  obtain ⟨d, hd, hseen⟩ := hhas
  obtain ⟨request, drawn, holder, ttlSec, next, hphase⟩ := htries
  have hkey : d.key = key := by
    obtain ⟨c', exp, hd'⟩ := h.ledger.drawn_of_seen hseen
    exact congrArg (fun x => x.2.key) (h.ledger.unique _ hd _ hd' rfl)
  have hp := h.jobs c
  rw [hphase] at hp
  have hmem := hp.shown d hd (hkey ▸ hseen)
  have hacq : Acquiring a s c request drawn (.acquire key'.1 key'.2 holder ttlSec next) := hp.phase
  generalize htask : Task.acquire key'.1 key'.2 holder ttlSec next = task at hacq
  cases hacq with
  | nothing => cases hmem
  | lowerLocked hne howns =>
    rename_i kind x y holder' ttl' d'
    have hsame : d = d' :=
      congrArg Prod.snd (h.ledger.unique _ hd _ howns.drawn (List.mem_singleton.1 hmem))
    have hk : key = (kind, lowerId x y) := by rw [← hkey, hsame, howns.key]
    simp only [trySecond, Task.map, Task.acquire.injEq] at htask
    rw [hk, htask.1, htask.2.1]
    exact ⟨rfl, lower_lt_higher hne⟩
  | higherBusy => cases htask

variable [DecidableEq W] [DecidableEq C] (defaultTtlSec : Int) (worker : C → W) (a)

/-- What holds after every run `es` of calls:
* no lock is seen to have a token of a call that returned `None`;
* whoever was given `(ta, tb)` for hosts `x` and `y` has its lock of `x` under `ta` and that of `y` under `tb`,
  each until the time to live of its token is over (`d.expires`, `e.expires`) or the job gives it back;
* no lock is seen to have a token that was given back, and each command of a release frees at most a lock of its
  own call and leaves every other as it was;
* no two jobs each have the lock that the other tries for. -/
structure AllOrNothing (es : List (JobEvent C)) : Prop where
  noneLeft : ∀ d ∈ (runs (jobStep defaultTtlSec worker) Callers.start es).refused,
    ∀ k, (runs (jobStep defaultTtlSec worker) Callers.start es).world.seen a k ≠ some d.token
  owned : ∀ c kind x y holder ttlSec held,
    (runs (jobStep defaultTtlSec worker) Callers.start es).phase c = .holding (.dual kind x y holder ttlSec) held →
    ∃ i j ta tb d e, x = some i ∧ y = some j ∧ held = .both ta tb ∧ d.token = ta ∧ e.token = tb ∧
      Owns a (runs (jobStep defaultTtlSec worker) Callers.start es) c (kind, i) d ∧
      Owns a (runs (jobStep defaultTtlSec worker) Callers.start es) c (kind, j) e
  freed : ∀ request held, (request, held) ∈ (runs (jobStep defaultTtlSec worker) Callers.start es).givenBack →
    ∀ l ∈ request.locks held, ∀ k,
      (runs (jobStep defaultTtlSec worker) Callers.start es).world.seen a k ≠ some l.2
  freesOnly : ∀ pre c net post, es = pre ++ .step c net :: post → ∀ request held rest,
    (runs (jobStep defaultTtlSec worker) Callers.start pre).phase c = .releasing request held rest → ∀ k,
      (runs (jobStep defaultTtlSec worker) Callers.start (pre ++ [.step c net])).world.seen a k =
        (runs (jobStep defaultTtlSec worker) Callers.start pre).world.seen a k ∨
      ∃ t, (k, t) ∈ request.locks held ∧
        (runs (jobStep defaultTtlSec worker) Callers.start pre).world.seen a k = some t ∧
        (runs (jobStep defaultTtlSec worker) Callers.start (pre ++ [.step c net])).world.seen a k = none
  noDeadlock : ∀ c c' k k', ¬ (Has a (runs (jobStep defaultTtlSec worker) Callers.start es) c k ∧
    Tries (runs (jobStep defaultTtlSec worker) Callers.start es) c k' ∧
    Has a (runs (jobStep defaultTtlSec worker) Callers.start es) c' k' ∧
    Tries (runs (jobStep defaultTtlSec worker) Callers.start es) c' k)

variable {defaultTtlSec worker a}

omit [DecidableEq W] in
theorem released_world (s : Callers W C) (c : C) (request : Request) (held : Held) (rest : Task Unit) :
    (s.released c request held rest).world = s.world := by
  cases rest <;> rfl

/-- One command of a release. -/
theorem Sound.frees (h : Sound a s) {net : Net} (hans : answering s.world (worker c) net = a) {request : Request} {held : Held}
    {rest : Task Unit} (hphase : s.phase c = .releasing request held rest) (k : LockKey) :
    (jobStep defaultTtlSec worker s (.step c net)).world.seen a k = s.world.seen a k ∨
    ∃ t, (k, t) ∈ request.locks held ∧ s.world.seen a k = some t ∧
      (jobStep defaultTtlSec worker s (.step c net)).world.seen a k = none := by
  have hp := h.jobs c
  rw [hphase] at hp
  cases rest with
  | done => simp [jobStep, hphase]
  | acquire => simp [jobStep, hphase]
  | release kind id token next =>
    obtain ⟨d, -, rfl, hmem, -⟩ := release_letsGo defaultTtlSec h hans hp
    simp only [jobStep, hphase, released_world]
    rw [sendRelease_seen hans]
    by_cases hk : k = (kind, id) ∧ s.world.seen a (kind, id) = some d.token
    · rw [if_pos hk]
      exact Or.inr ⟨d.token, by rw [hk.1]; exact hmem, by rw [hk.1]; exact hk.2, rfl⟩
    · rw [if_neg hk]
      exact Or.inl rfl

/-- **Two hosts are locked both or not at all, and nobody waits in a circle**, with one working store. -/
theorem dual_lock_all_or_nothing (a : Place W) (es : List (JobEvent C))
    (hone : Guarded (jobStep defaultTtlSec worker) (Answers worker a) Callers.start es) :
    AllOrNothing a defaultTtlSec worker es := by
  have hsound : ∀ pre post, es = pre ++ post → Sound a (runs (jobStep defaultTtlSec worker) Callers.start pre) := by
    rintro pre post rfl
    exact runs_invariant jobStep_sound pre Callers.start (start_sound a) hone.of_append
  have hs := hsound es [] (List.append_nil es).symm
  refine ⟨fun d hd => (hs.refused d hd).2, ?_, fun request held hback l hl => (hs.givenBack _ hback l hl).2, ?_, ?_⟩
  · intro c kind x y holder ttlSec held hphase
    have hp := hs.jobs c
    rw [hphase] at hp
    obtain ⟨⟨hfits, howns⟩, -⟩ := hp
    match x, y, held, hfits with
    | some i, some j, .both ta tb, _ =>
      obtain ⟨d, hd, rfl⟩ := howns _ List.mem_cons_self
      obtain ⟨e, he, rfl⟩ := howns _ (List.mem_cons_of_mem _ List.mem_cons_self)
      exact ⟨i, j, _, _, d, e, rfl, rfl, rfl, rfl, rfl, hd, he⟩
  · rintro pre c net post rfl request held rest hphase k
    rw [runs_append, runs_cons, runs_nil]
    have hans := guarded_iff.1 hone pre (.step c net) post rfl
    exact (hsound pre _ rfl).frees hans hphase k
  · rintro c c' k k' ⟨hhas, htries, hhas', htries'⟩
    obtain ⟨-, hlt⟩ := hs.tries_higher hhas htries
    obtain ⟨-, hlt'⟩ := hs.tries_higher hhas' htries'
    omega

end JobRuns

def answered : Net := ⟨true, .answered⟩

/-- Two Moves over the same hosts, in opposite directions: the second finds the lower host busy. -/
def crossingMoves : List (JobEvent Nat) :=
  [.ask 0 (.dual .backup (some 1) (some 2) [] none), .ask 1 (.dual .backup (some 2) (some 1) [] none),
   .step 0 answered, .step 1 answered, .step 0 answered]

theorem crossingMoves_apart :
    AllOrNothing (.redis : Place Nat) 7200 id crossingMoves ∧
    (runs (jobStep 7200 id) (Callers.start : Callers Nat Nat) crossingMoves).refused = [⟨(.backup, 1), ⟨[], 1⟩, 7200000⟩] :=
  ⟨dual_lock_all_or_nothing .redis crossingMoves ⟨trivial, trivial, rfl, rfl, rfl, trivial⟩, rfl⟩

/-- The lower lock runs out before the higher one is taken, and a backup takes it. -/
def slowMove : List (JobEvent Nat) :=
  [.ask 0 (.dual .backup (some 1) (some 2) [] (some 30)), .step 0 answered, .tick 30000,
   .ask 1 (.single .backup (some 1) [] none), .step 1 answered]

theorem slowMove_returns_lost_lock :
    ¬ ∀ (es : List (JobEvent Nat)) (c : Nat),
      Guarded (jobStep 7200 id) (Answers id (.redis : Place Nat)) Callers.start (es ++ [.step c answered]) →
      ∀ kind i j holder ttlSec ta tb,
        (∃ request drawn rest, (runs (jobStep 7200 id) (Callers.start : Callers Nat Nat) es).phase c =
          .acquiring request drawn rest) →
        (runs (jobStep 7200 id) (Callers.start : Callers Nat Nat) (es ++ [.step c answered])).phase c =
          .holding (.dual kind (some i) (some j) holder ttlSec) (.both ta tb) →
        (runs (jobStep 7200 id) (Callers.start : Callers Nat Nat) (es ++ [.step c answered])).world.seen .redis (kind, i) =
          some ta := by
  intro h
  have hseen := h slowMove 0 ⟨trivial, rfl, trivial, trivial, rfl, rfl, trivial⟩ .backup 1 2 [] (some 30)
    ⟨[], 0⟩ ⟨[], 2⟩ ⟨_, _, _, rfl⟩ rfl
  revert hseen
  decide

end PiHerder.Jobs
