import PiHerder.Lib.Expiring
import PiHerder.Lib.PyStr
import PiHerder.Lib.Runs

/-!
# The per-server mutex (`services/server_job_lock.py`)

Each worker is a process with its own module globals; all of them talk to one Redis server. A call goes to
Redis when the process has a client, and to the process's own map when it has none or the command raises.
A command that raises may have run all the same, when only its reply was lost.

| here | there |
| --- | --- |
| `Process`                   | `_redis_client`, `_redis_failed`, `_local` of one worker |
| `getRedis`                  | `_get_redis` (`:52`) |
| `localAcquire`, `localRelease`, `localRefresh` | `_local_acquire` (`:92`), `_local_release` (`:105`), `_local_refresh` (`:117`) |
| `throughRedis`              | the `try`/`except` with its fallback, in each of the three functions |
| `tryAcquireServerLock`      | `try_acquire_server_lock` (`:139`) |
| `releaseServerLock`         | `release_server_lock` (`:227`) |
| `refreshServerLock`         | `refresh_server_lock` (`:250`) |
| `World.returned`            | the tokens `try_acquire_server_lock` has returned, and to whom |

A lock key is the pair its text is made of. A token's text is `holder:hex` with fresh hex digits; here the
digits are the count of tokens drawn. Times are in milliseconds.
-/
namespace PiHerder.Jobs
open Lib

/-! ## The code -/

inductive LockKind | backup | patch
deriving DecidableEq, Repr

abbrev LockKey := LockKind × Int

structure LockToken where
  holder : Str
  uuid : Nat
deriving DecidableEq, Repr

abbrev LockStore := Expiring LockKey LockToken

structure Process where
  redisClient : Bool := false
  redisFailed : Bool := false
  locals : LockStore := []
deriving Repr

/-- What becomes of a Redis command: it is answered, or it raises before or after the server ran it. -/
inductive Reply | answered | refused | lost
deriving DecidableEq, Repr

/-- How Redis is reached in one call: whether the `ping` of a new client is answered, and the command. -/
structure Net where
  ping : Bool
  reply : Reply
deriving DecidableEq, Repr

/-- `PIHERDER_SERVER_LOCK_TTL` is read once, when the module is loaded. -/
def lockTtl (defaultTtlSec : Int) (ttlSec : Option Int) : Nat := 1000 * (max 30 (ttlSec.getD defaultTtlSec)).toNat

theorem lockTtl_pos (d : Int) (t : Option Int) : 0 < lockTtl d t := by
  unfold lockTtl
  omega

/-- Whether there is a client, and the process that has looked. -/
def getRedis (ping : Bool) (p : Process) : Bool × Process :=
  if p.redisFailed then (false, p)
  else if p.redisClient then (true, p)
  else if ping then (true, { p with redisClient := true })
  else (false, { p with redisFailed := true })

section Local
variable (now : Nat) (key : LockKey) (token : LockToken) (ttl : Nat) (d : LockStore)

def localAcquire : Bool × LockStore :=
  match d.get? key with
  | some (held, exp) => if now < exp ∧ held ≠ token then (false, d) else (true, d.set key (token, now + ttl))
  | none => (true, d.set key (token, now + ttl))

def localRelease : Bool × LockStore :=
  match d.get? key with
  | some (held, _) => if held ≠ token then (false, d) else (true, d.del key)
  | none => (false, d)

/-- The expiry is not looked at. -/
def localRefresh : Bool × LockStore :=
  match d.get? key with
  | some (held, _) => if held ≠ token then (false, d) else (true, d.set key (token, now + ttl))
  | none => (false, d)

end Local

/-- What a call returns, and what it leaves of Redis and of its process. -/
structure Outcome (α : Type) where
  result : α
  redis : LockStore
  process : Process

def throughRedis (net : Net) (command fallback : LockStore → Bool × LockStore) (redis : LockStore) (p : Process) :
    Outcome Bool :=
  let (client, p) := getRedis net.ping p
  let local_ (redis : LockStore) : Outcome Bool :=
    ⟨(fallback p.locals).1, redis, { p with locals := (fallback p.locals).2 }⟩
  if client then
    match net.reply with
    | .answered => ⟨(command redis).1, (command redis).2, p⟩
    | .refused => local_ redis
    | .lost => local_ (command redis).2
  else local_ redis

section Calls
variable (defaultTtlSec : Int) (now uuid : Nat) (net : Net) (kind : LockKind) (serverId : Option Int)
  (redis : LockStore) (p : Process)

def tryAcquireServerLock (holder : Str) (ttlSec : Option Int) : Outcome (Option LockToken) :=
  match serverId with
  | none => ⟨none, redis, p⟩
  | some id =>
    let ttl := lockTtl defaultTtlSec ttlSec
    let token : LockToken := ⟨holder, uuid⟩
    let out := throughRedis net (Expiring.setNx now (kind, id) token ttl) (localAcquire now (kind, id) token ttl) redis p
    ⟨if out.result then some token else none, out.redis, out.process⟩

def releaseServerLock (token : Option LockToken) : Outcome Bool :=
  match token, serverId with
  | some token, some id =>
    throughRedis net (Expiring.delIf now (kind, id) token) (localRelease (kind, id) token) redis p
  | _, _ => ⟨false, redis, p⟩

def refreshServerLock (token : Option LockToken) (ttlSec : Option Int) : Outcome Bool :=
  match token, serverId with
  | some token, some id =>
    let ttl := lockTtl defaultTtlSec ttlSec
    throughRedis net (Expiring.expireIf now (kind, id) token ttl) (localRefresh now (kind, id) token ttl) redis p
  | _, _ => ⟨false, redis, p⟩

end Calls

/-! ## What a command does to the store it runs on -/

section Commands
variable {now : Nat} {key : LockKey} {token : LockToken} {ttl : Nat} {d : LockStore}

/-- A command that takes a free lock. -/
structure Takes (now : Nat) (key : LockKey) (token : LockToken) (command : LockStore → Bool × LockStore) : Prop where
  free : ∀ d, Expiring.peek now key d = none → (command d).1 = true ∧ Expiring.peek now key (command d).2 = some token
  busy : ∀ d, (command d).1 = true → Expiring.peek now key d = none ∨ Expiring.peek now key d = some token
  adds : ∀ d k t, Expiring.peek now k (command d).2 = some t → t = token ∨ Expiring.peek now k d = some t
  keeps : ∀ d k t, Expiring.peek now k d = some t → Expiring.peek now k (command d).2 = some t
  tokens : ∀ d k t exp, (command d).2.get? k = some (t, exp) → t = token ∨ ∃ exp', d.get? k = some (t, exp')

/-- A command that gives a lock back. -/
structure Drops (now : Nat) (key : LockKey) (token : LockToken) (command : LockStore → Bool × LockStore) : Prop where
  removes : ∀ d k t, Expiring.peek now k (command d).2 = some t → Expiring.peek now k d = some t
  inert : ∀ d, Expiring.peek now key d ≠ some token → ∀ k, Expiring.peek now k (command d).2 = Expiring.peek now k d
  tokens : ∀ d k t exp, (command d).2.get? k = some (t, exp) → ∃ exp', d.get? k = some (t, exp')

theorem takes_set (hpos : 0 < ttl) (command : LockStore → Bool × LockStore)
    (h : ∀ d, (command d = (false, d) ∧ ∃ t, Expiring.peek now key d = some t) ∨
      (command d = (true, d.set key (token, now + ttl)) ∧
        (Expiring.peek now key d = none ∨ Expiring.peek now key d = some token))) :
    Takes now key token command := by
  have hset : ∀ d k, Expiring.peek now k (d.set key (token, now + ttl)) =
      if k = key then some token else Expiring.peek now k d := by
    intro d k
    rw [Expiring.peek_set, if_pos (Nat.lt_add_of_pos_right hpos)]
  refine ⟨fun d hfree => ?_, fun d hok => ?_, fun d k t ht => ?_, fun d k t ht => ?_, fun d k t exp ht => ?_⟩
  · rcases h d with ⟨-, t, ht⟩ | ⟨hc, -⟩
    · rw [hfree] at ht
      cases ht
    · rw [hc]
      exact ⟨rfl, by rw [hset, if_pos rfl]⟩
  · rcases h d with ⟨hc, -⟩ | ⟨-, hfree⟩
    · rw [hc] at hok
      cases hok
    · exact hfree
  · rcases h d with ⟨hc, -⟩ | ⟨hc, -⟩
    · rw [hc] at ht
      exact Or.inr ht
    · rw [hc, hset] at ht
      split at ht
      · exact Or.inl (Option.some.inj ht).symm
      · exact Or.inr ht
  · rcases h d with ⟨hc, -⟩ | ⟨hc, hfree⟩
    · rw [hc]
      exact ht
    · rw [hc, hset]
      split
      · rename_i hk
        subst hk
        rcases hfree with hfree | hfree
        · rw [hfree] at ht
          cases ht
        · rw [← hfree, ht]
      · exact ht
  · rcases h d with ⟨hc, -⟩ | ⟨hc, -⟩
    · rw [hc] at ht
      exact Or.inr ⟨exp, ht⟩
    · rw [hc, Dict.get?_set] at ht
      split at ht
      · simp only [Option.some.injEq, Prod.mk.injEq] at ht
        exact Or.inl ht.1.symm
      · exact Or.inr ⟨exp, ht⟩

theorem setNx_takes (hpos : 0 < ttl) : Takes now key token (Expiring.setNx now key token ttl) := by
  refine takes_set hpos _ fun d => ?_
  unfold Expiring.setNx
  cases h : Expiring.peek now key d with
  | none => exact Or.inr ⟨rfl, Or.inl rfl⟩
  | some t => exact Or.inl ⟨rfl, t, rfl⟩

theorem localAcquire_takes (hpos : 0 < ttl) : Takes now key token (localAcquire now key token ttl) := by
  refine takes_set hpos _ fun d => ?_
  unfold localAcquire Expiring.peek
  cases h : d.get? key with
  | none => exact Or.inr ⟨rfl, Or.inl rfl⟩
  | some e =>
    obtain ⟨held, exp⟩ := e
    by_cases hlt : now < exp
    · by_cases heq : held = token
      · simp [hlt, heq]
      · simp [hlt, heq]
    · simp [hlt]

theorem drops_del (command : LockStore → Bool × LockStore)
    (h : ∀ d, command d = (false, d) ∨ (command d = (true, d.del key) ∧ ∃ exp, d.get? key = some (token, exp))) :
    Drops now key token command := by
  refine ⟨fun d k t ht => ?_, fun d hne k => ?_, fun d k t exp ht => ?_⟩
  · rcases h d with hc | ⟨hc, -⟩
    · rwa [hc] at ht
    · rw [hc, Expiring.peek_del] at ht
      split at ht
      · cases ht
      · exact ht
  · rcases h d with hc | ⟨hc, exp, hget⟩
    · rw [hc]
    · rw [hc, Expiring.peek_del]
      split
      · rename_i hk
        subst hk
        unfold Expiring.peek at hne ⊢
        rw [hget] at hne ⊢
        by_cases hlt : now < exp
        · exact absurd (if_pos hlt) hne
        · exact (if_neg hlt).symm
      · rfl
  · rcases h d with hc | ⟨hc, -⟩
    · rw [hc] at ht
      exact ⟨exp, ht⟩
    · rw [hc, Dict.get?_del] at ht
      split at ht
      · cases ht
      · exact ⟨exp, ht⟩

theorem delIf_drops : Drops now key token (Expiring.delIf now key token) := by
  refine drops_del _ fun d => ?_
  unfold Expiring.delIf
  by_cases h : Expiring.peek now key d = some token
  · obtain ⟨exp, hget, -⟩ := Expiring.peek_eq_some.1 h
    exact Or.inr ⟨if_pos h, exp, hget⟩
  · exact Or.inl (if_neg h)

theorem localRelease_drops : Drops now key token (localRelease key token) := by
  refine drops_del _ fun d => ?_
  unfold localRelease
  cases h : d.get? key with
  | none => exact Or.inl rfl
  | some e =>
    obtain ⟨held, exp⟩ := e
    by_cases heq : held = token
    · subst heq
      simp
    · simp [heq]

/-- Extending an unexpired entry changes nothing that can be seen. -/
theorem expireIf_peek (hpos : 0 < ttl) (k : LockKey) :
    Expiring.peek now k (Expiring.expireIf now key token ttl d).2 = Expiring.peek now k d := by
  unfold Expiring.expireIf
  split
  · rename_i h
    rw [Expiring.peek_set, if_pos (Nat.lt_add_of_pos_right hpos)]
    split
    · rename_i hk
      rw [hk, h]
    · rfl
  · rfl

theorem expireIf_tokens {k : LockKey} {t : LockToken} {exp : Nat}
    (h : (Expiring.expireIf now key token ttl d).2.get? k = some (t, exp)) : ∃ exp', d.get? k = some (t, exp') := by
  unfold Expiring.expireIf at h
  split at h
  · rename_i hpeek
    obtain ⟨exp', hget, -⟩ := Expiring.peek_eq_some.1 hpeek
    rw [Dict.get?_set] at h
    split at h
    · rename_i hk
      simp only [Option.some.injEq, Prod.mk.injEq] at h
      exact ⟨exp', by rw [hk, hget, h.1]⟩
    · exact ⟨exp, h⟩
  · exact ⟨exp, h⟩

/-- The process's own map extends an entry of this token, expired or not. -/
theorem localRefresh_eq (now : Nat) (key : LockKey) (token : LockToken) (ttl : Nat) (d : LockStore) :
    localRefresh now key token ttl d = (false, d) ∨
    (localRefresh now key token ttl d = (true, d.set key (token, now + ttl)) ∧ ∃ exp, d.get? key = some (token, exp)) := by
  unfold localRefresh
  cases h : d.get? key with
  | none => exact Or.inl rfl
  | some e =>
    obtain ⟨held, exp⟩ := e
    by_cases heq : held = token
    · subst heq
      simp
    · simp [heq]

theorem localRefresh_peek (hpos : 0 < ttl) (hlive : ∀ exp, d.get? key = some (token, exp) → now < exp) (k : LockKey) :
    Expiring.peek now k (localRefresh now key token ttl d).2 = Expiring.peek now k d := by
  rcases localRefresh_eq now key token ttl d with h | ⟨h, exp, hget⟩
  · rw [h]
  · rw [h, Expiring.peek_set, if_pos (Nat.lt_add_of_pos_right hpos)]
    split
    · rename_i hk
      rw [hk, Expiring.peek_eq_some.2 ⟨exp, hget, hlive exp hget⟩]
    · rfl

/-- An expired entry comes back. -/
theorem localRefresh_revives (hpos : 0 < ttl) {exp : Nat} (hget : d.get? key = some (token, exp)) :
    Expiring.peek now key (localRefresh now key token ttl d).2 = some token := by
  rcases localRefresh_eq now key token ttl d with h | ⟨h, -⟩
  · unfold localRefresh at h
    simp [hget] at h
  · rw [h, Expiring.peek_set, if_pos rfl, if_pos (Nat.lt_add_of_pos_right hpos)]

theorem localRefresh_tokens {k : LockKey} {t : LockToken} {exp : Nat}
    (h : (localRefresh now key token ttl d).2.get? k = some (t, exp)) : ∃ exp', d.get? k = some (t, exp') := by
  rcases localRefresh_eq now key token ttl d with hc | ⟨hc, exp', hget⟩
  · rw [hc] at h
    exact ⟨exp, h⟩
  · rw [hc, Dict.get?_set] at h
    split at h
    · rename_i hk
      simp only [Option.some.injEq, Prod.mk.injEq] at h
      exact ⟨exp', by rw [hk, hget, h.1]⟩
    · exact ⟨exp, h⟩

end Commands

/-! ## Workers and their runs -/

section Workers
variable {W : Type}

structure World (W : Type) where
  now : Nat
  /-- How many tokens were drawn. -/
  uuids : Nat
  redis : LockStore
  process : W → Process
  returned : List (W × LockKey × LockToken)

def World.start : World W := ⟨0, 0, [], fun _ => {}, []⟩

inductive LockEvent (W : Type)
  | acquire (w : W) (net : Net) (kind : LockKind) (serverId : Option Int) (holder : Str) (ttlSec : Option Int)
  | release (w : W) (net : Net) (kind : LockKind) (serverId : Option Int) (token : Option LockToken)
  | refresh (w : W) (net : Net) (kind : LockKind) (serverId : Option Int) (token : Option LockToken)
      (ttlSec : Option Int)
  | tick (ms : Nat)

def World.after [DecidableEq W] {α : Type} (s : World W) (w : W) (out : Outcome α) : World W :=
  { s with redis := out.redis, process := fun w' => if w' = w then out.process else s.process w' }

variable (defaultTtlSec : Int)

def lockStep [DecidableEq W] (s : World W) : LockEvent W → World W
  | .acquire w net kind serverId holder ttlSec =>
    let out := tryAcquireServerLock defaultTtlSec s.now s.uuids net kind serverId s.redis (s.process w) holder ttlSec
    let got := match serverId, out.result with
      | some id, some token => [(w, (kind, id), token)]
      | _, _ => []
    { s.after w out with uuids := s.uuids + 1, returned := s.returned ++ got }
  | .release w net kind serverId token =>
    s.after w (releaseServerLock s.now net kind serverId s.redis (s.process w) token)
  | .refresh w net kind serverId token ttlSec =>
    s.after w (refreshServerLock defaultTtlSec s.now net kind serverId s.redis (s.process w) token ttlSec)
  | .tick ms => { s with now := s.now + ms }

/-! ## One lock in several stores -/

/-- Where a lock may be recorded. -/
inductive Place (W : Type)
  | redis
  | own (w : W)
deriving DecidableEq

def World.store (s : World W) : Place W → LockStore
  | .redis => s.redis
  | .own w => (s.process w).locals

theorem World.store_congr {s s' : World W} (hredis : s'.redis = s.redis) (hprocess : s'.process = s.process)
    (a : Place W) : s'.store a = s.store a := by
  cases a with
  | redis => exact hredis
  | own w => exact congrArg (fun f => (f w).locals) hprocess

/-- The unexpired token that a place has for a lock. -/
def World.seen (s : World W) (a : Place W) (key : LockKey) : Option LockToken :=
  Expiring.peek s.now key (s.store a)

/-- Worker `w` was given this token, and some place still has it unexpired. -/
def World.Holds (s : World W) (w : W) (key : LockKey) (token : LockToken) : Prop :=
  (w, key, token) ∈ s.returned ∧ ∃ a, s.seen a key = some token

/-- **The mutex**: at most one worker holds an unexpired token for a lock. -/
def OneHolder (s : World W) : Prop :=
  ∀ key w w' token token', s.Holds w key token → s.Holds w' key token' → w = w'

/-- A release or refresh leaves alone what every place has, where the place does not have its token now. -/
def StaleIsInert [DecidableEq W] (s : World W) (e : LockEvent W) : Prop :=
  (∀ w net kind id token, e = .release w net kind (some id) (some token) →
    ∀ a, s.seen a (kind, id) ≠ some token → ∀ key, (lockStep defaultTtlSec s e).seen a key = s.seen a key) ∧
  ∀ w net kind id token ttl, e = .refresh w net kind (some id) (some token) ttl →
    ∀ a, s.seen a (kind, id) ≠ some token → ∀ key, (lockStep defaultTtlSec s e).seen a key = s.seen a key

/-- The place that decides what a call returns. -/
def answering (s : World W) (w : W) (net : Net) : Place W :=
  if (getRedis net.ping (s.process w)).1 = true ∧ net.reply = .answered then .redis else .own w

/-- When an acquire finds its lock free, no other place has an unexpired token of another worker for it; and
no refresh that the process answers itself is of a token which has expired there. -/
structure Undivided (s : World W) (e : LockEvent W) : Prop where
  acquire : ∀ w net kind id holder ttl, e = .acquire w net kind (some id) holder ttl →
    s.seen (answering s w net) (kind, id) = none →
    ∀ a token w', s.seen a (kind, id) = some token → (w', (kind, id), token) ∈ s.returned → w' = w
  refresh : ∀ w net kind id token ttl, e = .refresh w net kind (some id) (some token) ttl →
    answering s w net = .own w → ∀ exp, (s.process w).locals.get? (kind, id) = some (token, exp) → s.now < exp

/-! ## A call, place by place -/

section Call
variable {w : W} {net : Net} {s : World W}

theorem answering_cases (s : World W) (w : W) (net : Net) : answering s w net = .redis ∨ answering s w net = .own w := by
  unfold answering
  split
  · exact Or.inl rfl
  · exact Or.inr rfl

theorem getRedis_locals (ping : Bool) (p : Process) : (getRedis ping p).2.locals = p.locals := by
  unfold getRedis
  split
  · rfl
  split
  · rfl
  split <;> rfl

/-- What a call may run at a place. -/
def runsAt (command fallback : LockStore → Bool × LockStore) : Place W → LockStore → Bool × LockStore
  | .redis => command
  | .own _ => fallback

theorem throughRedis_cases (net : Net) (command fallback : LockStore → Bool × LockStore) (redis : LockStore) (p : Process) :
    let out := throughRedis net command fallback redis p
    (((getRedis net.ping p).1 = true ∧ net.reply = .answered) ∧ out.result = (command redis).1 ∧
      out.redis = (command redis).2 ∧ out.process.locals = p.locals) ∨
    (¬ ((getRedis net.ping p).1 = true ∧ net.reply = .answered) ∧ out.result = (fallback p.locals).1 ∧
      (out.redis = redis ∨ out.redis = (command redis).2) ∧ out.process.locals = (fallback p.locals).2) := by
  have hlocals := getRedis_locals net.ping p
  unfold throughRedis
  generalize getRedis net.ping p = g at hlocals ⊢
  obtain ⟨client, p'⟩ := g
  obtain ⟨ping, reply⟩ := net
  cases client with
  | false => exact Or.inr ⟨by simp, by simp_all⟩
  | true =>
    cases reply with
    | answered => exact Or.inl ⟨⟨rfl, rfl⟩, rfl, rfl, hlocals⟩
    | refused => exact Or.inr ⟨by simp, by simp_all⟩
    | lost => exact Or.inr ⟨by simp, by simp_all⟩

variable [DecidableEq W]

/-- The answering place runs its command and returns the result. -/
theorem call_answering (s : World W) (w : W) (net : Net) (command fallback : LockStore → Bool × LockStore) :
    let out := throughRedis net command fallback s.redis (s.process w)
    let a := answering s w net
    out.result = (runsAt command fallback a (s.store a)).1 ∧
      (s.after w out).store a = (runsAt command fallback a (s.store a)).2 := by
  intro out a
  rcases throughRedis_cases net command fallback s.redis (s.process w) with
    ⟨hans, hres, hredis, -⟩ | ⟨hans, hres, -, hlocals⟩
  · have ha : a = .redis := if_pos hans
    rw [ha]
    exact ⟨hres, hredis⟩
  · have ha : a = .own w := if_neg hans
    rw [ha]
    refine ⟨hres, ?_⟩
    show (if w = w then out.process else s.process w).locals = _
    rw [if_pos rfl]
    exact hlocals

/-- Only Redis and the answering place may have run anything. -/
theorem call_store (s : World W) (w : W) (net : Net) (command fallback : LockStore → Bool × LockStore) (a : Place W) :
    let s' := s.after w (throughRedis net command fallback s.redis (s.process w))
    s'.store a = s.store a ∨
      ((a = .redis ∨ a = answering s w net) ∧ s'.store a = (runsAt command fallback a (s.store a)).2) := by
  intro s'
  have hans := (call_answering s w net command fallback).2
  rcases throughRedis_cases net command fallback s.redis (s.process w) with
    ⟨hcond, -, hredis, hlocals⟩ | ⟨hcond, -, hredis, -⟩
  · cases a with
    | redis => exact Or.inr ⟨Or.inl rfl, hredis⟩
    | own w' =>
      refine Or.inl ?_
      show (if w' = w then _ else s.process w').locals = (s.process w').locals
      split
      · rename_i hw
        rw [hw]
        exact hlocals
      · rfl
  · have ha : answering s w net = .own w := if_neg hcond
    cases a with
    | redis =>
      rcases hredis with hredis | hredis
      · exact Or.inl hredis
      · exact Or.inr ⟨Or.inl rfl, hredis⟩
    | own w' =>
      by_cases hw : w' = w
      · subst hw
        rw [ha] at hans ⊢
        exact Or.inr ⟨Or.inr rfl, hans⟩
      · refine Or.inl ?_
        show (if w' = w then _ else s.process w').locals = (s.process w').locals
        rw [if_neg hw]

@[simp] theorem after_now {α : Type} (out : Outcome α) : (s.after w out).now = s.now := rfl
@[simp] theorem after_uuids {α : Type} (out : Outcome α) : (s.after w out).uuids = s.uuids := rfl
@[simp] theorem after_returned {α : Type} (out : Outcome α) : (s.after w out).returned = s.returned := rfl

/-- A call that returns before it has looked for Redis. -/
theorem after_store_self {α : Type} (r : α) (a : Place W) :
    (s.after w ⟨r, s.redis, s.process w⟩).store a = s.store a := by
  cases a with
  | redis => rfl
  | own w' =>
    show (if w' = w then s.process w else s.process w').locals = (s.process w').locals
    split
    · rename_i hw
      rw [hw]
    · rfl

end Call

/-! ## The commands of the three functions, at every place -/

section AtPlace
variable (now : Nat) (key : LockKey) (token : LockToken) (ttl : Nat)

def takeAt : Place W → LockStore → Bool × LockStore :=
  runsAt (Expiring.setNx now key token ttl) (localAcquire now key token ttl)

def dropAt : Place W → LockStore → Bool × LockStore := runsAt (Expiring.delIf now key token) (localRelease key token)

def extendAt : Place W → LockStore → Bool × LockStore :=
  runsAt (Expiring.expireIf now key token ttl) (localRefresh now key token ttl)

variable {now key token ttl}

theorem takeAt_takes (hpos : 0 < ttl) (a : Place W) : Takes now key token (takeAt now key token ttl a) := by
  cases a with
  | redis => exact setNx_takes hpos
  | own _ => exact localAcquire_takes hpos

theorem dropAt_drops (a : Place W) : Drops now key token (dropAt now key token a) := by
  cases a with
  | redis => exact delIf_drops
  | own _ => exact localRelease_drops

theorem extendAt_tokens (a : Place W) {d : LockStore} {k : LockKey} {t : LockToken} {exp : Nat}
    (h : (extendAt now key token ttl a d).2.get? k = some (t, exp)) : ∃ exp', d.get? k = some (t, exp') := by
  cases a with
  | redis => exact expireIf_tokens h
  | own _ => exact localRefresh_tokens h

end AtPlace

/-! ## The three functions, at every place -/

section Functions
variable [DecidableEq W] (s : World W) (w : W) (net : Net) (kind : LockKind) (id : Int)

theorem acquire_store (holder : Str) (ttlSec : Option Int) (a : Place W) :
    let s' := lockStep defaultTtlSec s (.acquire w net kind (some id) holder ttlSec)
    s'.store a = s.store a ∨
      s'.store a = (takeAt s.now (kind, id) ⟨holder, s.uuids⟩ (lockTtl defaultTtlSec ttlSec) a (s.store a)).2 := by
  intro s'
  have hsame : s'.store a = (s.after w _).store a := World.store_congr rfl rfl a
  rw [hsame]
  exact (call_store s w net (Expiring.setNx s.now (kind, id) ⟨holder, s.uuids⟩ (lockTtl defaultTtlSec ttlSec))
    (localAcquire s.now (kind, id) ⟨holder, s.uuids⟩ (lockTtl defaultTtlSec ttlSec)) a).imp_right And.right

/-- An acquire returns its token if the answering place grants it. -/
theorem acquire_answer (holder : Str) (ttlSec : Option Int) :
    let s' := lockStep defaultTtlSec s (.acquire w net kind (some id) holder ttlSec)
    let a := answering s w net
    let took := takeAt s.now (kind, id) ⟨holder, s.uuids⟩ (lockTtl defaultTtlSec ttlSec) a (s.store a)
    s'.store a = took.2 ∧
      s'.returned = s.returned ++ if took.1 then [(w, (kind, id), ⟨holder, s.uuids⟩)] else [] := by
  intro s' a took
  obtain ⟨hres, hst⟩ := call_answering s w net
    (Expiring.setNx s.now (kind, id) ⟨holder, s.uuids⟩ (lockTtl defaultTtlSec ttlSec))
    (localAcquire s.now (kind, id) ⟨holder, s.uuids⟩ (lockTtl defaultTtlSec ttlSec))
  refine ⟨?_, ?_⟩
  · exact (World.store_congr rfl rfl a).trans hst
  · show s.returned ++ _ = s.returned ++ _
    unfold tryAcquireServerLock
    simp only
    rw [hres]
    show _ = s.returned ++ if took.1 then _ else _
    cases htook : took.1 <;> simp [took, takeAt, a] at htook <;> simp [htook]

theorem release_store (token : LockToken) (a : Place W) :
    let s' := lockStep defaultTtlSec s (.release w net kind (some id) (some token))
    s'.store a = s.store a ∨ s'.store a = (dropAt s.now (kind, id) token a (s.store a)).2 :=
  (call_store s w net (Expiring.delIf s.now (kind, id) token) (localRelease (kind, id) token) a).imp_right And.right

/-- A refresh is run by Redis or by the answering place. -/
theorem refresh_store (token : LockToken) (ttlSec : Option Int) (a : Place W) :
    let s' := lockStep defaultTtlSec s (.refresh w net kind (some id) (some token) ttlSec)
    s'.store a = s.store a ∨ ((a = .redis ∨ a = answering s w net) ∧
      s'.store a = (extendAt s.now (kind, id) token (lockTtl defaultTtlSec ttlSec) a (s.store a)).2) :=
  call_store s w net (Expiring.expireIf s.now (kind, id) token (lockTtl defaultTtlSec ttlSec))
    (localRefresh s.now (kind, id) token (lockTtl defaultTtlSec ttlSec)) a

theorem refresh_answer (token : LockToken) (ttlSec : Option Int) :
    (lockStep defaultTtlSec s (.refresh w net kind (some id) (some token) ttlSec)).store (answering s w net) =
      (extendAt s.now (kind, id) token (lockTtl defaultTtlSec ttlSec) (answering s w net) (s.store (answering s w net))).2 :=
  (call_answering s w net (Expiring.expireIf s.now (kind, id) token (lockTtl defaultTtlSec ttlSec))
    (localRefresh s.now (kind, id) token (lockTtl defaultTtlSec ttlSec))).2

/-- A call without a server id or a token reaches no place. -/
theorem idle_store (e : LockEvent W)
    (h : (∃ w net kind holder ttl, e = .acquire w net kind none holder ttl) ∨
      (∃ w net kind id, e = .release w net kind id none) ∨ (∃ w net kind token, e = .release w net kind none token) ∨
      (∃ w net kind id ttl, e = .refresh w net kind id none ttl) ∨
      (∃ w net kind token ttl, e = .refresh w net kind none token ttl)) :
    (lockStep defaultTtlSec s e).returned = s.returned ∧ ∀ a, (lockStep defaultTtlSec s e).store a = s.store a := by
  rcases h with ⟨w, net, kind, holder, ttl, rfl⟩ | ⟨w, net, kind, id, rfl⟩ | ⟨w, net, kind, token, rfl⟩ |
    ⟨w, net, kind, id, ttl, rfl⟩ | ⟨w, net, kind, token, ttl, rfl⟩
  · exact ⟨by simp [lockStep, tryAcquireServerLock], fun a =>
      (World.store_congr rfl rfl a).trans (after_store_self (s := s) (w := w) (none : Option LockToken) a)⟩
  · exact ⟨rfl, after_store_self false⟩
  · cases token <;> exact ⟨rfl, after_store_self false⟩
  · exact ⟨rfl, after_store_self false⟩
  · cases token <;> exact ⟨rfl, after_store_self false⟩

end Functions

/-! ## Tokens are given to one worker -/

structure World.Sound (s : World W) : Prop where
  returned_lt : ∀ w key token, (w, key, token) ∈ s.returned → token.uuid < s.uuids
  stored_lt : ∀ a key token exp, (s.store a).get? key = some (token, exp) → token.uuid < s.uuids
  owner : ∀ w w' key key' token, (w, key, token) ∈ s.returned → (w', key', token) ∈ s.returned → w = w'

/-- Entries whose tokens were there before, and no new token. -/
theorem World.Sound.of_tokens {s s' : World W} (h : s.Sound) (huuids : s'.uuids = s.uuids)
    (hret : s'.returned = s.returned)
    (htok : ∀ a k t exp, (s'.store a).get? k = some (t, exp) → ∃ exp', (s.store a).get? k = some (t, exp')) :
    s'.Sound := by
  refine ⟨fun w k t hm => ?_, fun a k t exp hget => ?_, fun w w' k k' t hm hm' => ?_⟩
  · rw [hret] at hm
    rw [huuids]
    exact h.returned_lt w k t hm
  · obtain ⟨exp', hget'⟩ := htok a k t exp hget
    rw [huuids]
    exact h.stored_lt a k t exp' hget'
  · rw [hret] at hm hm'
    exact h.owner w w' k k' t hm hm'

/-! ## One event -/

section Step
variable {s : World W}

/-- Nothing new is seen or returned. -/
theorem OneHolder.of_seen {s' : World W} (h : OneHolder s) (hret : s'.returned = s.returned)
    (hseen : ∀ a k t, s'.seen a k = some t → s.seen a k = some t) : OneHolder s' := by
  intro key w w' t t' hw hw'
  obtain ⟨hm, a, ha⟩ := hw
  obtain ⟨hm', a', ha'⟩ := hw'
  rw [hret] at hm hm'
  exact h key w w' t t' ⟨hm, a, hseen a key t ha⟩ ⟨hm', a', hseen a' key t' ha'⟩

variable [DecidableEq W]

theorem World.Sound.of_idle {e : LockEvent W} (h : s.Sound)
    (hidle : (lockStep defaultTtlSec s e).returned = s.returned ∧ ∀ a, (lockStep defaultTtlSec s e).store a = s.store a) :
    (lockStep defaultTtlSec s e).Sound := by
  have huuids : s.uuids ≤ (lockStep defaultTtlSec s e).uuids := by
    cases e with
    | acquire => exact Nat.le_succ _
    | release => exact le_refl _
    | refresh => exact le_refl _
    | tick => exact le_refl _
  refine ⟨fun w k t hm => ?_, fun a k t exp hget => ?_, fun w w' k k' t hm hm' => ?_⟩
  · exact Nat.lt_of_lt_of_le (h.returned_lt w k t (hidle.1 ▸ hm)) huuids
  · exact Nat.lt_of_lt_of_le (h.stored_lt a k t exp (hidle.2 a ▸ hget)) huuids
  · exact h.owner w w' k k' t (hidle.1 ▸ hm) (hidle.1 ▸ hm')

theorem lockStep_sound (s : World W) (e : LockEvent W) (h : s.Sound) : (lockStep defaultTtlSec s e).Sound := by
  cases e with
  | acquire w net kind serverId holder ttlSec =>
    cases serverId with
    | none => exact h.of_idle _ (idle_store _ s _ (Or.inl ⟨w, net, kind, holder, ttlSec, rfl⟩))
    | some id =>
      have hnew : ∀ w' k t, (w', k, t) ∈ (lockStep defaultTtlSec s (.acquire w net kind (some id) holder ttlSec)).returned →
          (w', k, t) ∈ s.returned ∨ (w' = w ∧ t = ⟨holder, s.uuids⟩) := by
        intro w' k t hm
        rw [(acquire_answer defaultTtlSec s w net kind id holder ttlSec).2] at hm
        rcases List.mem_append.1 hm with hm | hm
        · exact Or.inl hm
        · split at hm
          · simp only [List.mem_singleton, Prod.mk.injEq] at hm
            exact Or.inr ⟨hm.1, hm.2.2⟩
          · cases hm
      refine ⟨fun w' k t hm => ?_, fun a k t exp hget => ?_, fun w₁ w₂ k k' t hm hm' => ?_⟩
      · rcases hnew w' k t hm with hm | ⟨-, rfl⟩
        · exact Nat.lt_succ_of_lt (h.returned_lt w' k t hm)
        · exact Nat.lt_succ_self _
      · rcases acquire_store defaultTtlSec s w net kind id holder ttlSec a with hst | hst
        · exact Nat.lt_succ_of_lt (h.stored_lt a k t exp (hst ▸ hget))
        · rcases (takeAt_takes (lockTtl_pos _ _) a).tokens _ k t exp (hst ▸ hget) with rfl | ⟨exp', hold⟩
          · exact Nat.lt_succ_self _
          · exact Nat.lt_succ_of_lt (h.stored_lt a k t exp' hold)
      · rcases hnew w₁ k t hm with hold | ⟨hw, ht⟩ <;> rcases hnew w₂ k' t hm' with hold' | ⟨hw', ht'⟩
        · exact h.owner w₁ w₂ k k' t hold hold'
        · exact absurd (ht' ▸ h.returned_lt w₁ k t hold) (lt_irrefl _)
        · exact absurd (ht ▸ h.returned_lt w₂ k' t hold') (lt_irrefl _)
        · rw [hw, hw']
  | release w net kind serverId token =>
    cases token with
    | none => exact h.of_idle _ (idle_store _ s _ (Or.inr (Or.inl ⟨w, net, kind, serverId, rfl⟩)))
    | some token =>
      cases serverId with
      | none => exact h.of_idle _ (idle_store _ s _ (Or.inr (Or.inr (Or.inl ⟨w, net, kind, token, rfl⟩))))
      | some id =>
        refine h.of_tokens rfl rfl fun a k t exp hget => ?_
        rcases release_store defaultTtlSec s w net kind id token a with hst | hst
        · exact ⟨exp, hst ▸ hget⟩
        · exact (dropAt_drops a).tokens _ k t exp (hst ▸ hget)
  | refresh w net kind serverId token ttlSec =>
    cases token with
    | none => exact h.of_idle _ (idle_store _ s _ (Or.inr (Or.inr (Or.inr (Or.inl ⟨w, net, kind, serverId, ttlSec, rfl⟩)))))
    | some token =>
      cases serverId with
      | none => exact h.of_idle _ (idle_store _ s _ (Or.inr (Or.inr (Or.inr (Or.inr ⟨w, net, kind, token, ttlSec, rfl⟩)))))
      | some id =>
        refine h.of_tokens rfl rfl fun a k t exp hget => ?_
        rcases refresh_store defaultTtlSec s w net kind id token ttlSec a with hst | ⟨-, hst⟩
        · exact ⟨exp, hst ▸ hget⟩
        · exact extendAt_tokens a (hst ▸ hget)
  | tick ms => exact h.of_tokens rfl rfl fun a k t exp hget => ⟨exp, by cases a <;> exact hget⟩

section Acquire
variable {w : W} {net : Net} {kind : LockKind} {id : Int} {holder : Str} {ttlSec : Option Int}

/-- Who holds something after an acquire held it before, or is the one who asked and found the lock free. -/
theorem acquire_holds (hs : s.Sound) {w' : W} {k : LockKey} {t : LockToken}
    (h : (lockStep defaultTtlSec s (.acquire w net kind (some id) holder ttlSec)).Holds w' k t) :
    s.Holds w' k t ∨ (w' = w ∧ k = (kind, id) ∧ s.seen (answering s w net) (kind, id) = none) := by
  obtain ⟨hm, a, hseen⟩ := h
  rw [(acquire_answer defaultTtlSec s w net kind id holder ttlSec).2] at hm
  rcases List.mem_append.1 hm with hm | hm
  · refine Or.inl ⟨hm, a, ?_⟩
    have hpeek : Expiring.peek s.now k ((lockStep defaultTtlSec s (.acquire w net kind (some id) holder ttlSec)).store a) = some t :=
      hseen
    rcases acquire_store defaultTtlSec s w net kind id holder ttlSec a with hst | hst
    · rw [hst] at hpeek
      exact hpeek
    · rw [hst] at hpeek
      rcases (takeAt_takes (lockTtl_pos _ _) a).adds _ k t hpeek with rfl | hold
      · exact absurd (hs.returned_lt w' k _ hm) (lt_irrefl _)
      · exact hold
  · split at hm
    · rename_i hok
      simp only [List.mem_singleton, Prod.mk.injEq] at hm
      refine Or.inr ⟨hm.1, hm.2.1, ?_⟩
      rcases (takeAt_takes (lockTtl_pos _ _) _).busy _ hok with hfree | hown
      · exact hfree
      · obtain ⟨exp, hget, -⟩ := Expiring.peek_eq_some.1 hown
        exact absurd (hs.stored_lt _ _ _ _ hget) (lt_irrefl _)
    · cases hm

theorem acquire_keeps {w' : W} {k : LockKey} {t : LockToken} (h : s.Holds w' k t) :
    (lockStep defaultTtlSec s (.acquire w net kind (some id) holder ttlSec)).Holds w' k t := by
  obtain ⟨hm, a, hseen⟩ := h
  refine ⟨List.mem_append_left _ hm, a, ?_⟩
  show Expiring.peek s.now k (World.store _ a) = some t
  rcases acquire_store defaultTtlSec s w net kind id holder ttlSec a with hst | hst
  · rw [hst]
    exact hseen
  · rw [hst]
    exact (takeAt_takes (lockTtl_pos _ _) a).keeps _ k t hseen

/-- An acquire that finds its lock free gets it. -/
theorem acquire_granted (hfree : s.seen (answering s w net) (kind, id) = none) :
    (lockStep defaultTtlSec s (.acquire w net kind (some id) holder ttlSec)).Holds w (kind, id) ⟨holder, s.uuids⟩ := by
  obtain ⟨hst, hret⟩ := acquire_answer defaultTtlSec s w net kind id holder ttlSec
  have htakes : Takes s.now (kind, id) ⟨holder, s.uuids⟩ (takeAt s.now (kind, id) ⟨holder, s.uuids⟩ _ (answering s w net)) :=
    takeAt_takes (lockTtl_pos defaultTtlSec ttlSec) _
  obtain ⟨hok, hseen⟩ := htakes.free _ hfree
  refine ⟨?_, answering s w net, ?_⟩
  · rw [hret, if_pos hok]
    simp
  · show Expiring.peek s.now (kind, id) (World.store _ _) = _
    rw [hst]
    exact hseen

end Acquire

theorem release_seen {w : W} {net : Net} {kind : LockKind} {id : Int} {token : LockToken} (a : Place W) (k : LockKey) :
    let s' := lockStep defaultTtlSec s (.release w net kind (some id) (some token))
    (∀ t, s'.seen a k = some t → s.seen a k = some t) ∧ (s.seen a (kind, id) ≠ some token → s'.seen a k = s.seen a k) := by
  intro s'
  have hseen : s'.seen a k = Expiring.peek s.now k (s'.store a) := rfl
  rcases release_store defaultTtlSec s w net kind id token a with hst | hst
  · have hsame : s'.seen a k = s.seen a k := hseen.trans (congrArg _ hst)
    exact ⟨fun t ht => hsame ▸ ht, fun _ => hsame⟩
  · rw [hseen, hst]
    exact ⟨fun t ht => (dropAt_drops a).removes _ k t ht, fun hne => (dropAt_drops a).inert _ hne k⟩

theorem refresh_seen {w : W} {net : Net} {kind : LockKind} {id : Int} {token : LockToken} {ttlSec : Option Int}
    (hlive : answering s w net = .own w → ∀ exp, (s.process w).locals.get? (kind, id) = some (token, exp) → s.now < exp)
    (a : Place W) (k : LockKey) :
    (lockStep defaultTtlSec s (.refresh w net kind (some id) (some token) ttlSec)).seen a k = s.seen a k := by
  show Expiring.peek s.now k (World.store _ a) = Expiring.peek s.now k (s.store a)
  rcases refresh_store defaultTtlSec s w net kind id token ttlSec a with hst | ⟨hwhere, hst⟩
  · rw [hst]
  · rw [hst]
    cases a with
    | redis => exact expireIf_peek (lockTtl_pos _ _) k
    | own w' =>
      have ha : .own w' = answering s w net := hwhere.resolve_left (by simp)
      rcases answering_cases s w net with hans | hans
      · rw [hans] at ha
        cases ha
      · rw [hans] at ha
        cases ha
        exact localRefresh_peek (lockTtl_pos _ _) (hlive hans) k

/-- A refresh of what has expired in the process's own map brings it back. -/
theorem refresh_revives {w : W} {net : Net} {kind : LockKind} {id : Int} {token : LockToken} (ttlSec : Option Int) {exp : Nat}
    (hans : answering s w net = .own w) (hget : (s.process w).locals.get? (kind, id) = some (token, exp)) :
    (lockStep defaultTtlSec s (.refresh w net kind (some id) (some token) ttlSec)).seen (.own w) (kind, id) = some token := by
  have hst := refresh_answer defaultTtlSec s w net kind id token ttlSec
  rw [hans] at hst
  show Expiring.peek s.now (kind, id) (World.store _ _) = _
  rw [hst]
  exact localRefresh_revives (lockTtl_pos _ _) hget

/-- **One event keeps the mutex, and is inert when its token is stale, iff it finds the lock undivided.** -/
theorem lockStep_holds_iff (s : World W) (e : LockEvent W) (hs : s.Sound) (hone : OneHolder s) :
    OneHolder (lockStep defaultTtlSec s e) ∧ StaleIsInert defaultTtlSec s e ↔ Undivided s e := by
  -- an event that reaches no place
  have hidle : (lockStep defaultTtlSec s e).returned = s.returned ∧ (∀ a, (lockStep defaultTtlSec s e).store a = s.store a) →
      (lockStep defaultTtlSec s e).now = s.now → OneHolder (lockStep defaultTtlSec s e) := by
    rintro ⟨hret, hst⟩ hnow
    refine hone.of_seen hret fun a k t ht => ?_
    rwa [World.seen, hnow, hst] at ht
  cases e with
  | acquire w net kind serverId holder ttlSec =>
    have hinert : StaleIsInert defaultTtlSec s (.acquire w net kind serverId holder ttlSec) := ⟨by simp, by simp⟩
    cases serverId with
    | none =>
      exact ⟨fun _ => ⟨by simp, by simp⟩,
        fun _ => ⟨hidle (idle_store _ s _ (Or.inl ⟨w, net, kind, holder, ttlSec, rfl⟩)) rfl, hinert⟩⟩
    | some id =>
      constructor
      · rintro ⟨hafter, -⟩
        refine ⟨?_, by simp⟩
        rintro w₁ net₁ kind₁ id₁ holder₁ ttl₁ heq hfree a token w' hseen hm
        cases heq
        exact hafter (kind, id) w' w token _ (acquire_keeps defaultTtlSec ⟨hm, a, hseen⟩) (acquire_granted defaultTtlSec hfree)
      · intro hund
        refine ⟨?_, hinert⟩
        have hother : s.seen (answering s w net) (kind, id) = none → ∀ w' t, s.Holds w' (kind, id) t → w' = w :=
          fun hfree w' t hw' => hw'.2.elim fun a ha => hund.acquire w net kind id holder ttlSec rfl hfree a t w' ha hw'.1
        intro key w₁ w₂ t₁ t₂ h₁ h₂
        rcases acquire_holds defaultTtlSec hs h₁ with h₁ | ⟨hw₁, hk₁, hfree⟩ <;>
          rcases acquire_holds defaultTtlSec hs h₂ with h₂ | ⟨hw₂, hk₂, hfree₂⟩
        · exact hone key w₁ w₂ t₁ t₂ h₁ h₂
        · rw [hw₂]
          exact hother hfree₂ w₁ t₁ (hk₂ ▸ h₁)
        · rw [hw₁]
          exact (hother hfree w₂ t₂ (hk₁ ▸ h₂)).symm
        · rw [hw₁, hw₂]
  | release w net kind serverId token =>
    refine ⟨fun _ => ⟨by simp, by simp⟩, fun _ => ?_⟩
    cases token with
    | none => exact ⟨hidle (idle_store _ s _ (Or.inr (Or.inl ⟨w, net, kind, serverId, rfl⟩))) rfl, by simp, by simp⟩
    | some token =>
      cases serverId with
      | none => exact ⟨hidle (idle_store _ s _ (Or.inr (Or.inr (Or.inl ⟨w, net, kind, token, rfl⟩)))) rfl, by simp, by simp⟩
      | some id =>
        refine ⟨hone.of_seen rfl fun a k => (release_seen defaultTtlSec a k).1, ?_, by simp⟩
        rintro w₁ net₁ kind₁ id₁ token₁ heq a hne key
        cases heq
        exact (release_seen defaultTtlSec a key).2 hne
  | refresh w net kind serverId token ttlSec =>
    cases token with
    | none =>
      exact ⟨fun _ => ⟨by simp, by simp⟩, fun _ =>
        ⟨hidle (idle_store _ s _ (Or.inr (Or.inr (Or.inr (Or.inl ⟨w, net, kind, serverId, ttlSec, rfl⟩))))) rfl, by simp, by simp⟩⟩
    | some token =>
      cases serverId with
      | none =>
        exact ⟨fun _ => ⟨by simp, by simp⟩, fun _ =>
          ⟨hidle (idle_store _ s _ (Or.inr (Or.inr (Or.inr (Or.inr ⟨w, net, kind, token, ttlSec, rfl⟩))))) rfl, by simp, by simp⟩⟩
      | some id =>
        constructor
        · rintro ⟨-, -, hinert⟩
          refine ⟨by simp, ?_⟩
          rintro w₁ net₁ kind₁ id₁ token₁ ttl₁ heq hans exp hget
          cases heq
          by_contra hexp
          have hdead : s.seen (.own w) (kind, id) = none := by
            show Expiring.peek s.now (kind, id) (s.process w).locals = none
            unfold Expiring.peek
            rw [hget]
            exact if_neg hexp
          have hback := refresh_revives defaultTtlSec ttlSec hans hget
          rw [hinert w net kind id token ttlSec rfl (.own w) (by rw [hdead]; simp) (kind, id), hdead] at hback
          cases hback
        · intro hund
          have hseen : ∀ a k, (lockStep defaultTtlSec s (.refresh w net kind (some id) (some token) ttlSec)).seen a k = s.seen a k :=
            refresh_seen defaultTtlSec (hund.refresh w net kind id token ttlSec rfl)
          refine ⟨hone.of_seen rfl fun a k t ht => hseen a k ▸ ht, by simp, ?_⟩
          rintro w₁ net₁ kind₁ id₁ token₁ ttl₁ heq a - key
          cases heq
          exact hseen a key
  | tick ms =>
    refine ⟨fun _ => ⟨by simp, by simp⟩, fun _ => ⟨hone.of_seen rfl fun a k t ht => ?_, by simp, by simp⟩⟩
    cases a <;> exact Expiring.peek_of_later (Nat.le_add_right _ _) ht

end Step

/-! ## Runs -/

section Runs
variable [DecidableEq W]

/-- At every moment at most one worker holds a lock, and stale tokens do nothing. -/
def MutexHolds (es : List (LockEvent W)) : Prop :=
  (∀ pre post, es = pre ++ post → OneHolder (runs (lockStep defaultTtlSec) World.start pre)) ∧
  ∀ pre e post, es = pre ++ e :: post → StaleIsInert defaultTtlSec (runs (lockStep defaultTtlSec) World.start pre) e

omit [DecidableEq W] in
theorem World.start_sound : (World.start : World W).Sound := by
  refine ⟨fun w k t hm => ?_, fun a k t exp hget => ?_, fun w w' k k' t hm _ => ?_⟩
  · cases hm
  · cases a <;> cases hget
  · cases hm

/-- **The mutex holds exactly in the runs whose every event finds the lock undivided.** -/
theorem mutex_holds_iff (es : List (LockEvent W)) :
    MutexHolds defaultTtlSec es ↔ Guarded (lockStep defaultTtlSec) Undivided World.start es :=
  runs_hold_iff (lockStep_sound defaultTtlSec) (lockStep_holds_iff defaultTtlSec) World.start_sound
    (fun _ _ _ _ _ h => by cases h.1) es

/-- Redis answers whatever this event asks it. -/
def LockEvent.Answered : LockEvent W → Prop
  | .acquire _ net _ _ _ _ | .release _ net _ _ _ | .refresh _ net _ _ _ _ => net = ⟨true, .answered⟩
  | .tick _ => True

/-- No process has had to look at its own map. -/
def World.Shared (s : World W) : Prop := ∀ w, (s.process w).redisFailed = false ∧ (s.process w).locals = []

theorem getRedis_shared {p : Process} (h : p.redisFailed = false) :
    (getRedis true p).1 = true ∧ (getRedis true p).2.redisFailed = false := by
  unfold getRedis
  rw [if_neg (by simp [h])]
  split
  · exact ⟨rfl, h⟩
  · exact ⟨rfl, h⟩

theorem World.Shared.after {s : World W} (h : s.Shared) (w : W) {α : Type} (out : Outcome α)
    (hout : out.process.redisFailed = false ∧ out.process.locals = []) : (s.after w out).Shared := by
  intro w'
  show (if w' = w then out.process else s.process w').redisFailed = false ∧
    (if w' = w then out.process else s.process w').locals = []
  split
  · exact hout
  · exact h w'

theorem throughRedis_shared {command fallback : LockStore → Bool × LockStore} {redis : LockStore} {p : Process}
    (h : p.redisFailed = false ∧ p.locals = []) :
    let out := throughRedis ⟨true, .answered⟩ command fallback redis p
    out.process.redisFailed = false ∧ out.process.locals = [] := by
  have hlocals := getRedis_locals true p
  obtain ⟨hclient, hfailed⟩ := getRedis_shared h.1
  unfold throughRedis
  generalize getRedis true p = g at hlocals hclient hfailed ⊢
  obtain ⟨client, p'⟩ := g
  cases hclient
  exact ⟨hfailed, hlocals.trans h.2⟩

theorem lockStep_shared (s : World W) (e : LockEvent W) (h : s.Shared) (he : e.Answered) :
    (lockStep defaultTtlSec s e).Shared := by
  cases e with
  | acquire w net kind serverId holder ttlSec =>
    obtain rfl : net = ⟨true, .answered⟩ := he
    cases serverId with
    | none => exact h.after w ⟨(none : Option LockToken), _, _⟩ (h w)
    | some id => exact h.after w ⟨(none : Option LockToken), s.redis, _⟩ (throughRedis_shared (h w))
  | release w net kind serverId token =>
    obtain rfl : net = ⟨true, .answered⟩ := he
    cases token <;> cases serverId
    · exact h.after w _ (h w)
    · exact h.after w _ (h w)
    · exact h.after w _ (h w)
    · exact h.after w _ (throughRedis_shared (h w))
  | refresh w net kind serverId token ttlSec =>
    obtain rfl : net = ⟨true, .answered⟩ := he
    cases token <;> cases serverId
    · exact h.after w _ (h w)
    · exact h.after w _ (h w)
    · exact h.after w _ (h w)
    · exact h.after w _ (throughRedis_shared (h w))
  | tick ms => exact h

omit [DecidableEq W] in
theorem World.Shared.undivided {s : World W} (h : s.Shared) {e : LockEvent W} (he : e.Answered) : Undivided s e := by
  have hans : ∀ w, answering s w ⟨true, .answered⟩ = .redis := fun w => if_pos ⟨(getRedis_shared (h w).1).1, rfl⟩
  refine ⟨?_, ?_⟩
  · rintro w net kind id holder ttl rfl hfree a token w' hseen -
    obtain rfl : net = ⟨true, .answered⟩ := he
    rw [hans] at hfree
    cases a with
    | redis =>
      rw [hfree] at hseen
      cases hseen
    | own w'' =>
      have hnone : s.seen (.own w'') (kind, id) = none := by
        show Expiring.peek s.now (kind, id) (s.process w'').locals = none
        rw [(h w'').2]
        rfl
      rw [hnone] at hseen
      cases hseen
  · rintro w net kind id token ttl rfl hown
    obtain rfl : net = ⟨true, .answered⟩ := he
    rw [hans] at hown
    cases hown

/-- Any number of workers is kept apart as long as Redis answers them all. -/
theorem answered_mutexHolds (es : List (LockEvent W)) (h : ∀ e ∈ es, e.Answered) : MutexHolds defaultTtlSec es := by
  rw [mutex_holds_iff, guarded_iff]
  rintro pre e post rfl
  have hshared : (runs (lockStep defaultTtlSec) World.start pre).Shared :=
    runs_invariant (lockStep_shared defaultTtlSec) pre World.start (fun _ => ⟨rfl, rfl⟩)
      (Guarded.of_forall fun e he => h e (List.mem_append_left _ he))
  exact hshared.undivided (h e (by simp))

end Runs

/-- One worker takes the lock in Redis; another, whose Redis does not answer, takes it in its own map. -/
def twoStores : List (LockEvent Nat) :=
  [.acquire 0 ⟨true, .answered⟩ .backup (some 7) [] none,
   .acquire 1 ⟨false, .answered⟩ .backup (some 7) [] none]

theorem twoStores_both_hold : ¬ ∀ es : List (LockEvent Nat), MutexHolds 7200 es := by
  intro h
  have hone := (h twoStores).1 twoStores [] (List.append_nil _).symm
  have hzero := hone (.backup, 7) 0 1 ⟨[], 0⟩ ⟨[], 1⟩ ⟨by decide, .redis, by decide⟩ ⟨by decide, .own 1, by decide⟩
  cases hzero

/-- A worker without Redis refreshes a token that has expired, and holds it again. -/
example : ¬ StaleIsInert 7200
    (runs (lockStep 7200) World.start
      [.acquire 0 ⟨false, .answered⟩ .backup (some 7) [] (some 60), .tick 60000])
    (.refresh 0 ⟨false, .answered⟩ .backup (some 7) (some ⟨[], 0⟩) none) := by
  intro h
  have hsame := h.2 0 _ .backup 7 ⟨[], 0⟩ none rfl (.own 0) (by decide) (.backup, 7)
  revert hsame
  decide

end Workers

end PiHerder.Jobs
