import PiHerder.Lib.Dict
import PiHerder.Lib.PyStr
import PiHerder.Lib.Runs
import PiHerder.Lib.Window

/-!
# The limits on signing in

| here | there |
| --- | --- |
| `rateLimitDisabled`, `rateLimitAuth` | `security/auth.py:902` |
| `Gate.max`, `Gate.window` | `security/auth.py:61`, and at the calls |
| `Attempt` and its makers | `routers/auth.py:249`–`744`, `routers/auth_oidc.py:192`, `routers/server_console.py:437`, `routers/templates_svc.py:213`–`302` |
| `forgotPassword` | `routers/auth.py:234` |

One process, from its start: `_auth_attempts` begins empty. A timestamp is a multiple of 2⁻²² s, and the difference of two of
them is exact, so time is counted in such steps.

Every gate keeps to its limit (`limits_kept`). The limit on mails to one address does not, as its answer is dropped
(`address_unlimited`).
-/
namespace PiHerder.Auth
open Lib Lib.Str

/-! ## The limiter -/

/-- The steps of the clock in a second. -/
def second : Int := 4194304

/-- `PIHERDER_DISABLE_AUTH_RATE_LIMIT`. -/
def rateLimitDisabled (env : Option Str) : Bool :=
  [lit "1", lit "true", lit "yes", lit "on"].contains (lower (strip (env.getD [])))

/-- `_auth_attempts`. -/
abbrev Attempts := Dict Str (List Int)

def rate (maxAttempts windowSeconds : Nat) : Rate := ⟨maxAttempts, windowSeconds * second⟩

def rateLimitAuth (env : Option Str) (now : Int) (key : Str) (maxAttempts windowSeconds : Nat) (s : Attempts) : Bool × Attempts :=
  if rateLimitDisabled env then (true, s)
  else
    let r := (rate maxAttempts windowSeconds).attempt now ((s.get? key).getD [])
    (r.1, s.set key r.2)

/-! ## Its callers -/

inductive Gate
  | login | oidcLogin | twofa | twofaWa | register | reset | forgot | forgotEmail | consoleTicket | secretsUnlock | secretsUnlockWa
deriving DecidableEq, Repr

namespace Gate

def str : Gate → Str
  | login => lit "login"
  | oidcLogin => lit "oidc-login"
  | twofa => lit "2fa"
  | twofaWa => lit "2fa-wa"
  | register => lit "register"
  | reset => lit "reset"
  | forgot => lit "forgot"
  | forgotEmail => lit "forgot-email"
  | consoleTicket => lit "console-ticket"
  | secretsUnlock => lit "secrets_unlock"
  | secretsUnlockWa => lit "secrets_unlock_wa"

def max : Gate → Nat
  | login | oidcLogin => 10
  | twofa | twofaWa | consoleTicket => 12
  | register => 8
  | reset => 10
  | forgot => 5
  | forgotEmail => 3
  | secretsUnlock | secretsUnlockWa => 20

/-- In seconds. -/
def window : Gate → Nat
  | register => 600
  | _ => 300

def all : List Gate :=
  [login, oidcLogin, twofa, twofaWa, register, reset, forgot, forgotEmail, consoleTicket, secretsUnlock, secretsUnlockWa]

theorem mem_all (s : Gate) : s ∈ all := by cases s <;> decide

theorem noColon_str (s : Gate) : ':' ∉ s.str := by cases s <;> decide

theorem str_inj {s t : Gate} (h : s.str = t.str) : s = t := by
  have hall : ∀ s ∈ all, ∀ t ∈ all, s.str = t.str → s = t := by decide
  exact hall s s.mem_all t t.mem_all h

end Gate

/-- A gate, and what its key has behind the colon. -/
structure Attempt where
  gate : Gate
  who : Str
deriving DecidableEq, Repr

namespace Attempt

def login (ip : Str) : Attempt := ⟨.login, ip⟩
def oidcLogin (ip : Str) : Attempt := ⟨.oidcLogin, ip⟩
def twofa (ip : Str) : Attempt := ⟨.twofa, ip⟩
def twofaWa (ip : Str) : Attempt := ⟨.twofaWa, ip⟩
def register (ip : Str) : Attempt := ⟨.register, ip⟩
def reset (ip : Str) : Attempt := ⟨.reset, ip⟩
def forgot (ip : Str) : Attempt := ⟨.forgot, ip⟩
def forgotEmail (email : Str) : Attempt := ⟨.forgotEmail, (lower (strip email)).take 120⟩
def consoleTicket (ip : Str) (userId : Nat) : Attempt := ⟨.consoleTicket, ip ++ ':' :: ofNat userId⟩
def secretsUnlock (userId : Nat) (ip : Str) : Attempt := ⟨.secretsUnlock, ofNat userId ++ ':' :: ip⟩
def secretsUnlockWa (userId : Nat) (ip : Str) : Attempt := ⟨.secretsUnlockWa, ofNat userId ++ ':' :: ip⟩

def key (a : Attempt) : Str := a.gate.str ++ ':' :: a.who

def rate (a : Attempt) : Rate := Auth.rate a.gate.max a.gate.window

def limit (env : Option Str) (now : Int) (a : Attempt) (s : Attempts) : Bool × Attempts :=
  rateLimitAuth env now a.key a.gate.max a.gate.window s

/-- No two callers share a key. -/
theorem key_inj {a b : Attempt} (h : a.key = b.key) : a = b := by
  have hname (c : Attempt) : c.key.takeWhile (· != ':') = c.gate.str := by
    have hall : ∀ x ∈ c.gate.str, (x != ':') = true := by
      intro x hx
      simpa using fun heq : x = ':' => c.gate.noColon_str (heq ▸ hx)
    rw [key, List.takeWhile_append_of_pos hall]
    simp
  have hgate : a.gate = b.gate := by
    apply Gate.str_inj
    rw [← hname, h, hname]
  have hwho : a.who = b.who := by
    have h' := h
    rw [key, key, hgate] at h'
    exact (List.cons.inj (List.append_cancel_left h')).2
  cases a
  cases b
  simp_all

end Attempt

/-! ## Runs of the limiter -/

/-- The limiter, and what it let in. -/
structure Door where
  attempts : Attempts := []
  admitted : List (Int × Attempt) := []

def Door.step (env : Option Str) (d : Door) (e : Int × Attempt) : Door :=
  let r := e.2.limit env e.1 d.attempts
  { attempts := r.2, admitted := if r.1 then d.admitted ++ [e] else d.admitted }

/-- The times of one caller. -/
def times (a : Attempt) (es : List (Int × Attempt)) : List Int := (es.filter fun e => decide (e.2 = a)).map Prod.fst

theorem times_append (a : Attempt) (es : List (Int × Attempt)) (e : Int × Attempt) :
    times a (es ++ [e]) = if e.2 = a then times a es ++ [e.1] else times a es := by
  by_cases h : e.2 = a <;> simp [times, h]

theorem times_sublist (a : Attempt) (es : List (Int × Attempt)) : (times a es).Sublist (es.map Prod.fst) :=
  List.Sublist.map _ List.filter_sublist

variable {env : Option Str}

theorem limit_on (hon : rateLimitDisabled env = false) (now : Int) (a : Attempt) (s : Attempts) :
    a.limit env now s =
      ((a.rate.attempt now ((s.get? a.key).getD [])).1, s.set a.key (a.rate.attempt now ((s.get? a.key).getD [])).2) := by
  rw [Attempt.limit, rateLimitAuth, if_neg (by simp [hon])]
  rfl

/-- One caller's bucket is a window of its own, whoever else comes. -/
theorem door_window (hon : rateLimitDisabled env = false) (a : Attempt) (es : List (Int × Attempt)) :
    let d := runs (Door.step env) {} es
    (d.attempts.get? a.key).getD [] = a.rate.after (times a es) ∧ times a d.admitted = a.rate.admitted (times a es) := by
  intro d
  induction es using List.reverseRecOn with
  | nil => exact ⟨rfl, rfl⟩
  | append_singleton es e ih =>
    obtain ⟨hbucket, hin⟩ := ih
    simp only [d, runs_append, runs_cons, runs_nil, Door.step, limit_on hon]
    rw [times_append]
    by_cases hsame : e.2 = a
    · -- the caller's own attempt
      subst hsame
      simp only [if_true, Rate.after_append, Rate.admitted_append, Dict.get?_set, Option.getD_some, hbucket]
      refine ⟨trivial, ?_⟩
      cases hlets : e.2.rate.lets (times e.2 es) e.1 with
      | true =>
        rw [Rate.lets] at hlets
        simp [hlets, times_append, hin]
      | false =>
        rw [Rate.lets] at hlets
        simp [hlets, hin]
    · have hkey : a.key ≠ e.2.key := fun heq => hsame (Attempt.key_inj heq).symm
      simp only [if_neg hsame, Dict.get?_set, if_neg hkey]
      refine ⟨hbucket, ?_⟩
      split
      · rw [times_append, if_neg hsame, hin]
      · exact hin

/-- **Every caller is kept to its limit, and refused only at it.** In no stretch of the gate's window are more attempts let in
than its limit, and one that is refused finds the limit used up by the same caller. -/
theorem limits_kept (hon : rateLimitDisabled env = false) {es : List (Int × Attempt)} (hclock : (es.map Prod.fst).Pairwise (· ≤ ·)) :
    (∀ (a : Attempt) (t : Int), (a.rate.within t (times a (runs (Door.step env) {} es).admitted)).length ≤ a.gate.max) ∧
    ∀ pre e post, es = pre ++ e :: post → (e.2.limit env e.1 (runs (Door.step env) {} pre).attempts).1 = false →
      (e.2.rate.within e.1 (times e.2 (runs (Door.step env) {} pre).admitted)).length = e.2.gate.max := by
  constructor
  · intro a t
    rw [(door_window hon a es).2]
    exact Rate.admitted_le (hclock.sublist (times_sublist a es)) t
  · rintro pre e post rfl href
    have hwindow := door_window hon e.2 pre
    rw [hwindow.2]
    refine Rate.refused_full ?_ ?_
    · have hsub : (times e.2 (pre ++ [e])).Sublist ((pre ++ e :: post).map Prod.fst) := by
        refine (times_sublist e.2 (pre ++ [e])).trans ?_
        simp
      rw [times_append, if_pos rfl] at hsub
      exact hclock.sublist hsub
    · rw [Rate.lets, ← hwindow.1]
      simpa [limit_on hon] using href

theorem limits_kept_login :
    ((Attempt.login (lit "10.0.0.1")).rate.within 0 (times (.login (lit "10.0.0.1"))
      (runs (Door.step none) {} [(0, .login (lit "10.0.0.1"))]).admitted)).length ≤ (Attempt.login (lit "10.0.0.1")).gate.max :=
  (@limits_kept none (by decide) [(0, .login (lit "10.0.0.1"))] (by simp)).1 _ 0

/-! ## The mail for a forgotten password -/

/-- What the page says: `sent` where `request_reset_email` was called. -/
inductive ForgotReply
  | rate | disabled | noPublicUrl | sent
deriving DecidableEq, Repr

/-- `password_reset_available()`, and the address of `PIHERDER_PUBLIC_URL`. -/
structure Recovery where
  available : Bool
  publicUrl : Str

section Forgot
variable (env) (r : Recovery)

/-- A route of the application that asks the limiter. -/
inductive Knock
  | enter (a : Attempt)
  | askMail (ip email : Str)

inductive Answer
  | entered (ok : Bool)
  | forgot (reply : ForgotReply)
deriving DecidableEq, Repr

def forgotPassword (now : Int) (ip email : Str) (s : Attempts) : ForgotReply × Attempts :=
  let first := (Attempt.forgot ip).limit env now s
  if !first.1 then (.rate, first.2)
  else if !r.available then (.disabled, first.2)
  else if r.publicUrl = [] then (.noPublicUrl, first.2)
  -- "Rate limit per email too": the answer is not looked at
  else (.sent, ((Attempt.forgotEmail email).limit env now first.2).2)

/-- The same without a limit on the address. -/
def forgotPasswordByIp (now : Int) (ip : Str) (s : Attempts) : ForgotReply × Attempts :=
  let first := (Attempt.forgot ip).limit env now s
  if !first.1 then (.rate, first.2)
  else if !r.available then (.disabled, first.2)
  else if r.publicUrl = [] then (.noPublicUrl, first.2)
  else (.sent, first.2)

def Knock.handle (now : Int) (s : Attempts) : Knock → Answer × Attempts
  | .enter a => (.entered (a.limit env now s).1, (a.limit env now s).2)
  | .askMail ip email => (.forgot (forgotPassword env r now ip email s).1, (forgotPassword env r now ip email s).2)

def Knock.handleByIp (now : Int) (s : Attempts) : Knock → Answer × Attempts
  | .enter a => (.entered (a.limit env now s).1, (a.limit env now s).2)
  | .askMail ip _ => (.forgot (forgotPasswordByIp env r now ip s).1, (forgotPasswordByIp env r now ip s).2)

/-- What a run is answered. -/
def answers (handle : Int → Attempts → Knock → Answer × Attempts) : Attempts → List (Int × Knock) → List Answer
  | _, [] => []
  | s, e :: es => (handle e.1 s e.2).1 :: answers handle (handle e.1 s e.2).2 es

end Forgot

/-- The same but for the counts of the addresses. -/
def SameButEmails (s t : Attempts) : Prop := ∀ a : Attempt, a.gate ≠ .forgotEmail → s.get? a.key = t.get? a.key

theorem get?_limit {a b : Attempt} (h : b ≠ a) (now : Int) (s : Attempts) : (a.limit env now s).2.get? b.key = s.get? b.key := by
  have hkey : b.key ≠ a.key := fun heq => h (Attempt.key_inj heq)
  unfold Attempt.limit rateLimitAuth
  split
  · rfl
  · simp [Dict.get?_set, hkey]

theorem SameButEmails.limit {s t : Attempts} (h : SameButEmails s t) (env : Option Str) (now : Int) {a : Attempt} (ha : a.gate ≠ .forgotEmail) :
    (a.limit env now s).1 = (a.limit env now t).1 ∧ SameButEmails (a.limit env now s).2 (a.limit env now t).2 := by
  have hown := h a ha
  constructor
  · unfold Attempt.limit rateLimitAuth
    rw [hown]
    split <;> rfl
  · intro b hb
    by_cases hsame : b = a
    · subst hsame
      unfold Attempt.limit rateLimitAuth
      rw [hown]
      split
      · exact hown
      · simp [Dict.get?_set]
    · rw [get?_limit hsame, get?_limit hsame]
      exact h b hb

theorem SameButEmails.email {s t : Attempts} (h : SameButEmails s t) (now : Int) (email : Str) :
    SameButEmails ((Attempt.forgotEmail email).limit env now s).2 t := by
  intro b hb
  have hne : b ≠ Attempt.forgotEmail email := by
    rintro rfl
    exact hb rfl
  rw [get?_limit hne]
  exact h b hb

theorem SameButEmails.handle {s t : Attempts} (h : SameButEmails s t) (env : Option Str) (r : Recovery) (now : Int) {k : Knock}
    (hk : ∀ a, k = .enter a → a.gate ≠ .forgotEmail) :
    (k.handle env r now s).1 = (k.handleByIp env r now t).1 ∧ SameButEmails (k.handle env r now s).2 (k.handleByIp env r now t).2 := by
  cases k with
  | enter a =>
    obtain ⟨hok, hnext⟩ := h.limit env now (hk a rfl)
    exact ⟨by simp [Knock.handle, Knock.handleByIp, hok], hnext⟩
  | askMail ip email =>
    obtain ⟨hok, hnext⟩ := h.limit env now (a := Attempt.forgot ip) (by simp [Attempt.forgot])
    unfold Knock.handle Knock.handleByIp forgotPassword forgotPasswordByIp
    simp only [hok]
    split
    · exact ⟨rfl, hnext⟩
    · split
      · exact ⟨rfl, hnext⟩
      · split
        · exact ⟨rfl, hnext⟩
        · exact ⟨rfl, hnext.email now email⟩

/-- Whatever the order of the requests, each is answered as it would be without the limit on the address. -/
theorem forgotPassword_ignores_email (r : Recovery) {es : List (Int × Knock)}
    (hes : ∀ e ∈ es, ∀ a, e.2 = .enter a → a.gate ≠ .forgotEmail) {s t : Attempts} (h : SameButEmails s t) :
    answers (Knock.handle env r) s es = answers (Knock.handleByIp env r) t es := by
  induction es generalizing s t with
  | nil => rfl
  | cons e es ih =>
    obtain ⟨hsame, hnext⟩ := h.handle env r e.1 (hes e (by simp))
    simp only [answers, hsame]
    rw [ih (fun f hf => hes f (by simp [hf])) hnext]

/-- Every client that asks gets a mail sent to the one address, all at one moment. -/
theorem forgotPassword_floods {r : Recovery} (hr : r.available = true) (hurl : r.publicUrl ≠ []) (now : Int) (email : Str) {ips : List Str}
    (hips : ips.Nodup) : ∀ {s : Attempts}, (∀ ip ∈ ips, s.get? (Attempt.forgot ip).key = none) →
      answers (Knock.handle env r) s (ips.map fun ip => (now, .askMail ip email)) = ips.map fun _ => .forgot .sent := by
  induction ips with
  | nil => intro s _; rfl
  | cons ip ips ih =>
    intro s hs
    obtain ⟨hip, hips⟩ := List.nodup_cons.1 hips
    have hin : ((Attempt.forgot ip).limit env now s).1 = true := by
      simp only [Attempt.limit, rateLimitAuth, hs ip (by simp)]
      split
      · rfl
      · simp [Rate.attempt, Rate.kept, Attempt.forgot, Gate.max, rate]
    have hreply : forgotPassword env r now ip email s =
        (.sent, ((Attempt.forgotEmail email).limit env now ((Attempt.forgot ip).limit env now s).2).2) := by
      simp [forgotPassword, hin, hr, hurl]
    simp only [List.map_cons, answers, Knock.handle, hreply]
    rw [ih hips]
    intro ip' hip'
    have hne : ip' ≠ ip := fun heq => hip (heq ▸ hip')
    rw [get?_limit (by simp [Attempt.forgot, Attempt.forgotEmail]), get?_limit (by simpa [Attempt.forgot] using hne)]
    exact hs ip' (by simp [hip'])

/-- **The limit on an address limits nothing.** Every run of requests is answered as it would be without it, and any number of
clients can have mails sent to one address at one moment. -/
theorem address_unlimited (env : Option Str) (r : Recovery) :
    (∀ es : List (Int × Knock), (∀ e ∈ es, ∀ a, e.2 = .enter a → a.gate ≠ .forgotEmail) →
      answers (Knock.handle env r) [] es = answers (Knock.handleByIp env r) [] es) ∧
    (r.available = true → r.publicUrl ≠ [] → ∀ (now : Int) (email : Str) (ips : List Str), ips.Nodup →
      answers (Knock.handle env r) [] (ips.map fun ip => (now, .askMail ip email)) = ips.map fun _ => .forgot .sent) :=
  ⟨fun _ hes => forgotPassword_ignores_email r hes fun _ _ => rfl,
    fun hr hurl now email _ hips => forgotPassword_floods hr hurl now email hips fun _ _ => rfl⟩

/-- Four mails at once, where three were to be the most. -/
theorem address_unlimited_four :
    answers (Knock.handle none ⟨true, lit "https://herder.lan"⟩) [] ([lit "10.0.0.1", lit "10.0.0.2", lit "10.0.0.3", lit "10.0.0.4"].map
      fun ip => (0, .askMail ip (lit "admin@lan"))) = [.forgot .sent, .forgot .sent, .forgot .sent, .forgot .sent] :=
  (address_unlimited none ⟨true, lit "https://herder.lan"⟩).2 rfl (by decide) 0 (lit "admin@lan") _ (by decide)

end PiHerder.Auth
