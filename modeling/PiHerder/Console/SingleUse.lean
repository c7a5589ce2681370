import PiHerder.Auth.Factors
import PiHerder.Console.Model
import PiHerder.Lib.Expiring
import PiHerder.Lib.Runs

/-!
# Tokens of a single use (`_consume_jti`, `consume_ticket`, `consume_stepup_proof`)

A used `jti` is kept in Redis, with a time to live, and in a map of the process, which drops what is older
than the same time. The time is computed from `console_ticket_sec` when the token is used; how long the token
itself lives was fixed when it was minted.

| here | there |
| --- | --- |
| `consumeJti`         | `ssh_console.py:1125` |
| `consumeTicket`      | `:1080` |
| `consumeStepupProof` | `:925` |

Times are in milliseconds, expiries of tokens in seconds.
-/
namespace PiHerder.Console
open Lib Lib.Str Auth

/-- What becomes of a Redis command: it is answered; it fails, with or without effect on the server. -/
inductive RedisCall | answers | refused | lost
deriving DecidableEq, Repr

/-- The keys in Redis, and `_consumed_jtis` of each process. -/
structure JtiStore where
  redis : Expiring Str Unit := []
  locals : Nat → Dict Str Nat := fun _ => []

def JtiStore.setLocal (s : JtiStore) (proc : Nat) (d : Dict Str Nat) : JtiStore :=
  { s with locals := fun q => if q = proc then d else s.locals q }

/-- `ticket_ttl_sec() + 120`, in milliseconds. -/
def jtiTtl (p : Policy) : Nat := 1000 * (p.ticketTtlSec + 120)

/-- The entries of a process that are not stale. -/
def unstale (p : Policy) (now : Nat) (d : Dict Str Nat) : Dict Str Nat := d.filter fun e => decide (now - e.2 ≤ jtiTtl p)

/-- The Redis half: whether the key may still be free, for all that Redis says. -/
def askRedis (p : Policy) (now : Nat) (redis : RedisCall) (jti : Str) (s : JtiStore) : Bool × JtiStore :=
  let set := s.redis.setNx now jti () (jtiTtl p)
  match redis with
  | .answers => (set.1, { s with redis := set.2 })
  | .lost => (true, { s with redis := set.2 })
  | .refused => (true, s)

/-- The half under the lock of the process. -/
def consumeLocal (p : Policy) (now proc : Nat) (jti : Str) (s : JtiStore) : Bool × JtiStore :=
  let kept := unstale p now (s.locals proc)
  if (kept.get? jti).isSome then (false, s.setLocal proc kept) else (true, s.setLocal proc (kept.set jti now))

def consumeJti (p : Policy) (now proc : Nat) (redis : RedisCall) (jti : Str) (s : JtiStore) : Bool × JtiStore :=
  match askRedis p now redis jti s with
  | (false, s) => (false, s)
  | (true, s) => consumeLocal p now proc jti s

section Calls
variable (c : Codec) (p : Policy) (now proc : Nat) (redis : RedisCall)

def consumeTicket (raw : Payload) (who : Caller) (serverId : Int) (s : JtiStore) : Except TicketError Payload × JtiStore :=
  match checkTicket c p now who serverId raw with
  | .error e => (.error e, s)
  | .ok (t, jti) => match consumeJti p now proc redis jti s with
    | (true, s) => (.ok t, s)
    | (false, s) => (.error .alreadyUsed, s)

def consumeStepupProof (raw : Option Payload) (who : Caller) (s : JtiStore) : Bool × JtiStore :=
  match checkStepupProof c p now who raw with
  | none => (false, s)
  | some key => consumeJti p now proc redis key s

end Calls

/-! ## Runs of calls -/

/-- A call of `consume_ticket`, for the console of a server, or of `consume_stepup_proof`. -/
structure UseCall where
  proc : Nat := 0
  redis : RedisCall := .answers
  raw : Payload
  who : Caller
  server : Option Int

/-- The key under which the use is kept. -/
def UseCall.key (e : UseCall) : Str :=
  if e.server.isSome then payloadJti e.raw else lit "stepup:" ++ payloadJti e.raw

inductive UseResult | accepted | alreadyUsed | refused
deriving DecidableEq, Repr

def UseCall.run (c : Codec) (p : Policy) (now : Nat) (e : UseCall) (s : JtiStore) : UseResult × JtiStore :=
  match e.server with
  | some sid =>
    let (r, s) := consumeTicket c p now e.proc e.redis e.raw e.who sid s
    (match r with
      | .ok _ => .accepted
      | .error .alreadyUsed => .alreadyUsed
      | .error _ => .refused, s)
  | none =>
    let (ok, s) := consumeStepupProof c p now e.proc e.redis (some e.raw) e.who s
    (if ok then .accepted else if (checkStepupProof c p now e.who (some e.raw)).isSome then .alreadyUsed else .refused, s)

structure UseState where
  now : Nat
  policy : Policy := {}
  store : JtiStore := {}
  /-- The keys of the calls that accepted, in order. -/
  accepted : List Str := []

inductive UseEvent
  | tick (ms : Nat)
  | configure (policy : Policy)
  | call (e : UseCall)

variable (c : Codec)

def useStep (s : UseState) : UseEvent → UseState
  | .tick ms => { s with now := s.now + ms }
  | .configure policy => { s with policy := policy }
  | .call e =>
    let (r, store) := e.run c s.policy s.now s.store
    { s with store := store, accepted := if r = .accepted then s.accepted ++ [e.key] else s.accepted }

/-- The token is the one that was minted with its `jti`, and expires when that one does. -/
def UseEvent.Minted (expiry : Str → Nat) : UseEvent → Prop
  | .call e => e.raw.get? .exp = some (.num (expiry e.key))
  | _ => True

/-- The call passes the checks of its token. -/
def UseCall.passes (p : Policy) (now : Nat) (e : UseCall) : Bool :=
  match e.server with
  | some sid => match checkTicket c p now e.who sid e.raw with
    | .ok _ => true
    | .error _ => false
  | none => (checkStepupProof c p now e.who (some e.raw)).isSome

/-- The call is made in this process, and drops no entry of a token that is still alive. -/
def InProcess (expiry : Str → Nat) (proc : Nat) (s : UseState) : UseEvent → Prop
  | .call e => e.proc = proc ∧ (e.passes c s.policy s.now = true →
      ∀ k ts, (s.store.locals proc).get? k = some ts → jtiTtl s.policy < s.now - ts → 1000 * expiry k ≤ s.now)
  | _ => True

/-- Redis answers, and keeps the use for as long as the token is alive. -/
def RedisAnswers (expiry : Str → Nat) (s : UseState) : UseEvent → Prop
  | .call e => e.redis = .answers ∧ (e.passes c s.policy s.now = true → 1000 * expiry e.key ≤ s.now + jtiTtl s.policy)
  | _ => True

/-! ## One call -/

section Call
variable {c : Codec} {p : Policy} {now : Nat}

theorem checkTicket_jti {who : Caller} {sid : Int} {t t' : Payload} {jti : Str} (h : checkTicket c p now who sid t = .ok (t', jti)) :
    jti = payloadJti t := by
  unfold checkTicket at h
  split at h
  · cases h
  split at h
  · cases h
  rename_i t₀ hd
  obtain rfl := decodeTokenPayload_eq hd
  split at h
  · cases h
  split at h
  · iterate 5
      split at h
      · cases h
    exact (Prod.mk.inj (Except.ok.inj h)).2.symm
  · cases h

theorem checkStepupProof_jti {who : Caller} {t : Payload} {key : Str} (h : checkStepupProof c p now who (some t) = some key) :
    decodeTokenPayload now t = some t ∧ key = lit "stepup:" ++ payloadJti t := by
  unfold checkStepupProof at h
  split at h
  · rename_i t₀ hf
    have heq : t₀ = t := by
      unfold consoleTokenFor at hf
      split at hf
      · rename_i t₁ hff
        split at hf
        · rw [← Option.some.inj hf]
          exact (flaggedFor_eq_some hff).1
        · cases hf
      · cases hf
    subst heq
    split at h
    · cases h
    · exact ⟨(consoleTokenFor_eq_some c p now hf).1, (Option.some.inj h).symm⟩
  · cases h

/-- A call that passes uses its key up; any other leaves the stores alone. -/
theorem UseCall.run_eq (e : UseCall) (s : JtiStore) : e.run c p now s =
    if e.passes c p now then
      (if (consumeJti p now e.proc e.redis e.key s).1 then .accepted else .alreadyUsed, (consumeJti p now e.proc e.redis e.key s).2)
    else (.refused, s) := by
  unfold UseCall.run UseCall.passes
  cases hs : e.server with
  | some sid =>
    have hkey : ∀ t jti, checkTicket c p now e.who sid e.raw = .ok (t, jti) → e.key = jti := by
      intro t jti hc
      rw [checkTicket_jti hc]
      simp [UseCall.key, hs]
    have hne : checkTicket c p now e.who sid e.raw ≠ .error .alreadyUsed := by
      unfold checkTicket
      repeat' split
      all_goals simp
    simp only [consumeTicket]
    obtain ⟨r, hc⟩ : ∃ r, checkTicket c p now e.who sid e.raw = r := ⟨_, rfl⟩
    simp only [hc] at hkey hne ⊢
    cases r with
    | error err => cases err <;> first | rfl | exact absurd rfl hne
    | ok x =>
      obtain ⟨t, jti⟩ := x
      rw [hkey t jti rfl]
      dsimp only
      rw [if_pos rfl]
      obtain ⟨ok, s'⟩ := consumeJti p now e.proc e.redis jti s
      cases ok <;> rfl
  | none =>
    have hkey : ∀ key, checkStepupProof c p now e.who (some e.raw) = some key → e.key = key := by
      intro key hc
      rw [(checkStepupProof_jti hc).2]
      simp [UseCall.key, hs]
    simp only [consumeStepupProof]
    obtain ⟨r, hc⟩ : ∃ r, checkStepupProof c p now e.who (some e.raw) = r := ⟨_, rfl⟩
    simp only [hc] at hkey ⊢
    cases r with
    | none => rfl
    | some key =>
      rw [hkey key rfl]
      dsimp only [Option.isSome_some]
      rw [if_pos rfl, if_pos rfl]

theorem UseCall.passes_alive {expiry : Str → Nat} {e : UseCall} (h : e.passes c p now = true)
    (hm : (UseEvent.call e).Minted expiry) : now < 1000 * expiry e.key := by
  have hd : decodeTokenPayload now e.raw = some e.raw := by
    unfold UseCall.passes at h
    split at h
    · split at h
      · rename_i hc
        exact (checkTicket_ok _ _ _ hc).1
      · cases h
    · obtain ⟨key, hc⟩ := Option.isSome_iff_exists.1 h
      exact (checkStepupProof_jti hc).1
  have hexp : e.raw.get? .exp = some (.num (expiry e.key)) := hm
  unfold decodeTokenPayload at hd
  rw [hexp] at hd
  dsimp only at hd
  split at hd
  · omega
  · cases hd

section Consume
variable {now proc : Nat} {redis : RedisCall} {jti : Str} {s : JtiStore}

theorem askRedis_locals : (askRedis p now redis jti s).2.locals = s.locals := by
  cases redis <;> rfl

theorem consumeJti_eq : consumeJti p now proc redis jti s =
    if (askRedis p now redis jti s).1 = true then consumeLocal p now proc jti (askRedis p now redis jti s).2
    else (false, (askRedis p now redis jti s).2) := by
  unfold consumeJti
  obtain ⟨free, s'⟩ := askRedis p now redis jti s
  cases free <;> rfl

theorem consumeLocal_locals (k : Str) : ((consumeLocal p now proc jti s).2.locals proc).get? k =
    if k = jti ∧ (consumeLocal p now proc jti s).1 = true then some now else (unstale p now (s.locals proc)).get? k := by
  unfold consumeLocal
  dsimp only
  split
  · simp [JtiStore.setLocal]
  · simp [JtiStore.setLocal, Dict.get?_set]

/-- An entry that is not stale is there after the call, and is not older. -/
theorem consumeJti_keeps {k : Str} {ts : Nat} (h : (s.locals proc).get? k = some ts) (hts : now - ts ≤ jtiTtl p) :
    ∃ ts', ((consumeJti p now proc redis jti s).2.locals proc).get? k = some ts' ∧ (ts' = ts ∨ ts' = now) := by
  rw [consumeJti_eq]
  split
  · rw [consumeLocal_locals, askRedis_locals]
    split
    · exact ⟨now, rfl, Or.inr rfl⟩
    · exact ⟨ts, Dict.get?_filter (by simpa using hts) h, Or.inl rfl⟩
  · rw [askRedis_locals]
    exact ⟨ts, h, Or.inl rfl⟩

/-- A `jti` in the map is refused. -/
theorem consumeJti_refused {ts : Nat} (h : (s.locals proc).get? jti = some ts) (hts : now - ts ≤ jtiTtl p) :
    (consumeJti p now proc redis jti s).1 = false := by
  have hkept : (unstale p now (s.locals proc)).get? jti = some ts := Dict.get?_filter (by simpa using hts) h
  rw [consumeJti_eq]
  split
  · unfold consumeLocal
    rw [askRedis_locals]
    dsimp only
    rw [hkept, if_pos Option.isSome_some]
  · rfl

/-- An accepted `jti` is in the map. -/
theorem consumeJti_remembers (h : (consumeJti p now proc redis jti s).1 = true) :
    ((consumeJti p now proc redis jti s).2.locals proc).get? jti = some now := by
  rw [consumeJti_eq] at h ⊢
  split at h
  · rename_i hfree
    rw [if_pos hfree, consumeLocal_locals, if_pos ⟨rfl, h⟩]
  · cases h

/-- When Redis answers, its keys change by the one command. -/
theorem consumeJti_redis : (consumeJti p now proc .answers jti s).2.redis = (s.redis.setNx now jti () (jtiTtl p)).2 := by
  rw [consumeJti_eq]
  split
  · unfold consumeLocal
    dsimp only
    split <;> rfl
  · rfl

theorem consumeJti_answered (h : (consumeJti p now proc .answers jti s).1 = true) :
    (s.redis.setNx now jti () (jtiTtl p)).1 = true := by
  rw [consumeJti_eq] at h
  split at h
  · rename_i hfree
    exact hfree
  · cases h

end Consume

end Call

/-! ## Runs -/

section Runs
variable {c : Codec} {expiry : Str → Nat}

/-- The process remembers every accepted key whose token is alive. -/
structure Remembered (expiry : Str → Nat) (proc : Nat) (s : UseState) : Prop where
  nodup : s.accepted.Nodup
  known : ∀ k ∈ s.accepted, s.now < 1000 * expiry k → ∃ ts, (s.store.locals proc).get? k = some ts

theorem useStep_remembered {proc : Nat} (s : UseState) (e : UseEvent) (h : Remembered expiry proc s)
    (hok : e.Minted expiry ∧ InProcess c expiry proc s e) : Remembered expiry proc (useStep c s e) := by
  cases e with
  | tick ms => exact ⟨h.nodup, fun k hk hlive => h.known k hk (by simp only [useStep] at hlive; omega)⟩
  | configure policy => exact ⟨h.nodup, h.known⟩
  | call e =>
    obtain ⟨hm, rfl, hdrops⟩ := hok
    simp only [useStep, UseCall.run_eq]
    by_cases hp : e.passes c s.policy s.now = true
    · -- an entry of a live token is not stale
      have hkeep : ∀ k ts, (s.store.locals e.proc).get? k = some ts → s.now < 1000 * expiry k → s.now - ts ≤ jtiTtl s.policy := by
        intro k ts hget hlive
        by_contra hstale
        have hdead := hdrops hp k ts hget (by omega)
        omega
      rw [if_pos hp]
      have hknown : ∀ k ∈ s.accepted, s.now < 1000 * expiry k →
          ∃ ts, ((consumeJti s.policy s.now e.proc e.redis e.key s.store).2.locals e.proc).get? k = some ts := by
        intro k hk hlive
        obtain ⟨ts, hget⟩ := h.known k hk hlive
        obtain ⟨ts', hget', -⟩ := consumeJti_keeps hget (hkeep k ts hget hlive)
        exact ⟨ts', hget'⟩
      cases hr : (consumeJti s.policy s.now e.proc e.redis e.key s.store).1 with
      | false => exact ⟨h.nodup, hknown⟩
      | true =>
        have hnew : e.key ∉ s.accepted := by
          intro hin
          have hlive := UseCall.passes_alive hp hm
          obtain ⟨ts, hget⟩ := h.known e.key hin hlive
          have hno := @consumeJti_refused s.policy s.now e.proc e.redis e.key s.store ts hget (hkeep _ _ hget hlive)
          rw [hr] at hno
          cases hno
        refine ⟨?_, ?_⟩
        · simp only [if_true]
          exact List.Nodup.append h.nodup (List.nodup_singleton _) (by simpa using hnew)
        · intro k hk hlive
          simp only [if_true] at hk
          rcases List.mem_append.1 hk with hk | hk
          · exact hknown k hk hlive
          · rw [List.mem_singleton.1 hk]
            exact ⟨s.now, consumeJti_remembers hr⟩
    · rw [if_neg hp]
      exact ⟨h.nodup, h.known⟩

/-- Redis has every accepted key for as long as its token is alive. -/
structure Kept (expiry : Str → Nat) (s : UseState) : Prop where
  nodup : s.accepted.Nodup
  known : ∀ k ∈ s.accepted, ∃ x, s.store.redis.get? k = some ((), x) ∧ 1000 * expiry k ≤ x

theorem useStep_kept (s : UseState) (e : UseEvent) (h : Kept expiry s) (hok : e.Minted expiry ∧ RedisAnswers c expiry s e) :
    Kept expiry (useStep c s e) := by
  cases e with
  | tick ms => exact ⟨h.nodup, h.known⟩
  | configure policy => exact ⟨h.nodup, h.known⟩
  | call e =>
    obtain ⟨hm, hredis, hlasts⟩ := hok
    simp only [useStep, UseCall.run_eq]
    by_cases hp : e.passes c s.policy s.now = true
    · have hlive := UseCall.passes_alive hp hm
      rw [if_pos hp, hredis]
      -- the key of a live token that was accepted is there still
      have hset : e.key ∈ s.accepted → s.store.redis.setNx s.now e.key () (jtiTtl s.policy) = (false, s.store.redis) := by
        intro hin
        obtain ⟨x, hget, hx⟩ := h.known e.key hin
        have hpeek : Expiring.peek s.now e.key s.store.redis = some () := Expiring.peek_eq_some.2 ⟨x, hget, by omega⟩
        simp [Expiring.setNx, hpeek]
      have hknown : ∀ k ∈ s.accepted, ∃ x,
          (consumeJti s.policy s.now e.proc .answers e.key s.store).2.redis.get? k = some ((), x) ∧ 1000 * expiry k ≤ x := by
        intro k hk
        rw [consumeJti_redis]
        by_cases hkey : k = e.key
        · rw [hset (hkey ▸ hk)]
          exact h.known k hk
        · obtain ⟨x, hget, hx⟩ := h.known k hk
          refine ⟨x, ?_, hx⟩
          unfold Expiring.setNx
          split
          · exact hget
          · rw [Dict.get?_set, if_neg hkey]
            exact hget
      cases hr : (consumeJti s.policy s.now e.proc .answers e.key s.store).1 with
      | false => exact ⟨h.nodup, hknown⟩
      | true =>
        have hsome := consumeJti_answered hr
        have hnew : e.key ∉ s.accepted := by
          intro hin
          rw [hset hin] at hsome
          cases hsome
        refine ⟨?_, ?_⟩
        · simp only [if_true]
          exact List.Nodup.append h.nodup (List.nodup_singleton _) (by simpa using hnew)
        · intro k hk
          simp only [if_true] at hk
          rcases List.mem_append.1 hk with hk | hk
          · exact hknown k hk
          · obtain rfl := List.mem_singleton.1 hk
            refine ⟨s.now + jtiTtl s.policy, ?_, hlasts hp⟩
            rw [consumeJti_redis]
            unfold Expiring.setNx at hsome ⊢
            split
            · rename_i hpeek
              rw [if_pos hpeek] at hsome
              cases hsome
            · rw [Dict.get?_set, if_pos rfl]
    · rw [if_neg hp]
      exact ⟨h.nodup, h.known⟩

/-- **A token is used at most once**, where all calls are made in one process and none drops the entry of a live
token, or Redis answers all of them and keeps each entry as long as its token lives; **and a call that is
refused for another reason uses nothing up.** -/
theorem used_at_most_once {s : UseState} (h0 : s.accepted = []) {es : List UseEvent}
    (hg : (∃ proc, Guarded (useStep c) (fun s e => e.Minted expiry ∧ InProcess c expiry proc s e) s es) ∨
      Guarded (useStep c) (fun s e => e.Minted expiry ∧ RedisAnswers c expiry s e) s es) :
    (∀ pre post, es = pre ++ post → (runs (useStep c) s pre).accepted.Nodup) ∧
      ∀ pre e post, es = pre ++ .call e :: post →
        (e.run c (runs (useStep c) s pre).policy (runs (useStep c) s pre).now (runs (useStep c) s pre).store).1 = .refused →
        (useStep c (runs (useStep c) s pre) (.call e)).store = (runs (useStep c) s pre).store := by
  refine ⟨?_, ?_⟩
  · rintro pre post rfl
    rcases hg with ⟨proc, hg⟩ | hg
    · exact (runs_invariant useStep_remembered pre s ⟨by simp [h0], by simp [h0]⟩ hg.of_append).nodup
    · exact (runs_invariant useStep_kept pre s ⟨by simp [h0], by simp [h0]⟩ hg.of_append).nodup
  · intro pre e post _ hr
    simp only [useStep]
    rw [UseCall.run_eq] at hr ⊢
    split at hr
    · split at hr <;> cases hr
    · rename_i hp
      rw [if_neg hp]

/-- The ticket of a run below: minted at 0 with a life of `ttl` seconds. -/
def testTicket (ttl : Int) : Payload :=
  mintTicket clearText.toCodec { consoleEnabled := true, consoleTicketSec := ttl } 0 { userId := 1, serverId := 7, jti := lit "J" }

/-- Used in process 3 while Redis is down, and refused there when it is sent again. -/
theorem used_at_most_once_again :
    (runs (useStep clearText.toCodec) { now := 0, policy := { consoleEnabled := true } }
      [.call { proc := 3, redis := .refused, raw := testTicket 60, who := ⟨1, 0, {}⟩, server := some 7 },
        .call { proc := 3, redis := .refused, raw := testTicket 60, who := ⟨1, 0, {}⟩, server := some 7 }]).accepted.Nodup := by
  let e : UseEvent := .call { proc := 3, redis := .refused, raw := testTicket 60, who := ⟨1, 0, {}⟩, server := some 7 }
  refine (@used_at_most_once clearText.toCodec (fun _ => 60) { now := 0, policy := { consoleEnabled := true } } rfl [e, e]
    (Or.inl ⟨3, ⟨?_, rfl, ?_⟩, ⟨?_, rfl, ?_⟩, trivial⟩)).1 [e, e] [] rfl
  · show Dict.get? _ (testTicket 60) = _
    decide +kernel
  · intro _ k ts hget
    cases hget
  · show Dict.get? _ (testTicket 60) = _
    decide +kernel
  · intro _ k ts _ hstale
    have hnow : (0 : Nat) - ts = 0 := Nat.zero_sub ts
    change jtiTtl _ < 0 - ts at hstale
    omega

/-- A ticket of 300 seconds; `console_ticket_sec` falls to 15 before it is used, and the use is forgotten after 135. -/
theorem ticket_used_twice : ¬ ∀ (c : Codec) (expiry : Str → Nat) (s : UseState) (es : List UseEvent), s.accepted = [] →
    (∀ e ∈ es, e.Minted expiry) →
    ((∃ proc, ∀ e, .call e ∈ es → e.proc = proc) ∨ ∀ e, .call e ∈ es → e.redis = .answers) →
    ∀ pre post, es = pre ++ post → (runs (useStep c) s pre).accepted.Nodup := by
  intro h
  let e : UseEvent := .call { raw := testTicket 300, who := ⟨1, 0, {}⟩, server := some 7 }
  let es : List UseEvent := [.configure { consoleEnabled := true, consoleTicketSec := 15 }, e, .tick 140000, e]
  have hexp : (testTicket 300).get? .exp = some (.num 300) := by decide +kernel
  have hused := h clearText.toCodec (fun _ => 300) { now := 0 } es rfl
    (by
      intro x hx
      simp only [es, List.mem_cons, List.not_mem_nil, or_false] at hx
      rcases hx with rfl | rfl | rfl | rfl
      · trivial
      · exact hexp
      · trivial
      · exact hexp)
    (Or.inr (by
      intro x hx
      simp only [es, e, List.mem_cons, List.not_mem_nil, or_false, reduceCtorEq, false_or, UseEvent.call.injEq] at hx
      rcases hx with rfl | rfl <;> rfl)) es [] rfl
  revert hused
  decide +kernel

end Runs

end PiHerder.Console
