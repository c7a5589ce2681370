import PiHerder.Jobs.Status

/-!
# Waiting for a host

| here | there |
| --- | --- |
| `clampHostWaitSec` | `clamp_host_wait_sec` (jobs_exclusive.py:81) |
| `waitStep` on `probe` | a delivery of `exclusive_job` (tasks.py:758, `max_retries=3000`), `run_exclusive_job` and the retry it asks for |
| `waitStep` on a sweep | the sweeps of `Jobs.Status`, with the default age of two hours |

One exclusive job from its row to the end of its wait. A message holds the retries behind it and when it is due; it may be
delivered again, so it stays.
-/
namespace PiHerder.Jobs
open Lib Lib.Str

def DEFAULT_HOST_WAIT_SEC : Int := 1800
def HOST_WAIT_COUNTDOWN_SEC : Nat := 30
def HOST_WAIT_FLOOR_SEC : Int := 30
def HOST_WAIT_CEILING_SEC : Int := 24 * 60 * 60
def EXCLUSIVE_MAX_RETRIES : Nat := 3000

/-- `raw` is what `int()` gives, if anything. -/
def clampHostWaitSec (raw : Option Int) : Nat :=
  (max HOST_WAIT_FLOOR_SEC (min (raw.getD DEFAULT_HOST_WAIT_SEC) HOST_WAIT_CEILING_SEC)).toNat

structure WaitState where
  job : Job
  clock : Nat
  messages : List (Nat × Nat)
deriving DecidableEq, Repr

inductive WaitEvent
  | pass (seconds : Nat)
  | probe (retries due : Nat) (taskId : Option Nat) (sshReady busy : Bool)
  | cleanupStale
  | cleanupOrphans
  | reconcile (activity : Option (Bool × List Nat))
  | cancel
deriving DecidableEq, Repr

/-- What a delivery finds on a host that exists, outside the demo. -/
def WaitState.delivery (limit : Nat) (s : WaitState) (retries : Nat) (taskId : Option Nat) (sshReady : Bool) : Delivery :=
  ⟨taskId, s.clock, false, sshReady, true, limit, decide (retries < EXCLUSIVE_MAX_RETRIES)⟩

/-- The body is called. -/
def bodyStarts (busy sshReady : Bool) (j : Job) : Bool :=
  j.jobType.exclusiveCelery && (j.status == .pending) && (if j.jobType = .hostBootstrap then !busy else sshReady)

/-- `_wait_for_host` comes to its retry. -/
def asksRetry (d : Delivery) (j : Job) : Bool :=
  j.jobType.exclusiveCelery && (j.status == .pending) && (j.jobType != .hostBootstrap) && !d.sshReady && d.retriesLeft &&
    decide (d.now - j.hostWaitStart d.now < d.hostWaitLimit)

def waitStep (limit : Nat) (s : WaitState) : WaitEvent → WaitState
  | .pass seconds => { s with clock := s.clock + seconds }
  | .probe retries due taskId sshReady busy =>
    if (retries, due) ∉ s.messages ∨ s.clock < due then s
    else
      let d := s.delivery limit retries taskId sshReady
      let job := runExclusiveJob busy d s.job
      { s with
        job := if bodyStarts busy sshReady s.job then executeStart s.clock job else job
        messages := if asksRetry d s.job then (retries + 1, s.clock + HOST_WAIT_COUNTDOWN_SEC) :: s.messages else s.messages }
  | .cleanupStale => { s with job := cleanupStaleBackupJobs s.clock 120 s.job }
  | .cleanupOrphans => { s with job := cleanupOrphanWebJobs s.clock s.job }
  | .reconcile activity => { s with job := reconcileOrphanedRunningJobs s.clock activity s.job }
  | .cancel => { s with job := cancelJob s.clock s.job }

/-- A row as it is queued, and the message that goes with it. -/
def queued (id : Nat) (serverId : Option Nat) (t : JobType) (now : Nat) : WaitState :=
  ⟨{ id := id, serverId := serverId, jobType := t, createdAt := now, details := { current := some (lit "queued") } }, now, [(0, now)]⟩

/-! ## What holds while a job waits -/

/-- Pending, in the state `waiting_for_host`. -/
def Waits (j : Job) : Prop := j.status = .pending ∧ j.details.current = some (lit "waiting_for_host")

instance (j : Job) : Decidable (Waits j) := inferInstanceAs (Decidable (_ ∧ _))

/-- A message with retries behind it is due a countdown for each of them after the wait began. -/
structure Paced (s : WaitState) : Prop where
  waits : Waits s.job → s.job.jobType.exclusiveCelery = true ∧ s.job.jobType ≠ .hostBootstrap
  began : ∀ t, s.job.details.hostWaitStarted = some t → t ≤ s.clock
  first : s.job.details.hostWaitStarted = none → ∀ m ∈ s.messages, m.1 = 0
  due : ∀ t, s.job.details.hostWaitStarted = some t → ∀ m ∈ s.messages, m.1 = 0 ∨ t + HOST_WAIT_COUNTDOWN_SEC * m.1 ≤ m.2

theorem queued_paced (id : Nat) (serverId : Option Nat) (t : JobType) (now : Nat) : Paced (queued id serverId t now) where
  waits h := by
    have hne : lit "queued" ≠ lit "waiting_for_host" := by decide
    exact absurd (Option.some.inj h.2) hne
  began t ht := by simp [queued] at ht
  first _ m hm := by
    simp only [queued, List.mem_singleton] at hm
    rw [hm]
  due t ht := by simp [queued] at ht

/-- What a write may leave of the wait: the row as it waits now, or a row that no longer waits. -/
structure Leaves (j j' : Job) : Prop where
  waits : Waits j' → Waits j
  started : j'.details.hostWaitStarted = j.details.hostWaitStarted
  jobType : j'.jobType = j.jobType

theorem Leaves.refl (j : Job) : Leaves j j := ⟨id, rfl, rfl⟩

theorem Leaves.trans {a b c : Job} (hab : Leaves a b) (hbc : Leaves b c) : Leaves a c :=
  ⟨fun h => hab.waits (hbc.waits h), hbc.started.trans hab.started, hbc.jobType.trans hab.jobType⟩

theorem Leaves.ended {j j' : Job} (h : j'.status ≠ .pending) (hstarted : j'.details.hostWaitStarted = j.details.hostWaitStarted)
    (htype : j'.jobType = j.jobType) : Leaves j j' :=
  ⟨fun hw => absurd hw.1 h, hstarted, htype⟩

theorem Leaves.marked {p : Prop} [Decidable p] (now : Nat) {st : JobStatus} (h : st ≠ .pending) (j : Job) :
    Leaves j (if p then markJobTerminal now st j else j) := by
  split
  · exact .ended h rfl rfl
  · exact .refl j

theorem interruptOrphan_leaves (now : Nat) (alive : Bool) (active : List Nat) (j : Job) : Leaves j (interruptOrphan now alive active j) := by
  unfold interruptOrphan
  split
  · exact .refl j
  · split
    · exact .refl j
    · split
      · exact .refl j
      · exact .ended (by simp [markJobTerminal]) rfl rfl

theorem reconcile_leaves (now : Nat) (activity : Option (Bool × List Nat)) (j : Job) : Leaves j (reconcileOrphanedRunningJobs now activity j) := by
  have hboot : Leaves j (failExpiredPendingHostBootstrap now j) := Leaves.marked now (by decide) j
  cases activity with
  | none => exact hboot
  | some a => exact hboot.trans (interruptOrphan_leaves now a.1 a.2 _)

theorem failMessage_active {now : Nat} {j : Job} (h : j.status.active = true) :
    (failMessage now j).status = .failed ∧ Leaves j (failMessage now j) := by
  have hne : j.status ≠ .cancelled := fun hc => by rw [hc] at h; cases h
  have hnt : ¬ (j.status.terminal = true ∧ j.finishedAt.isSome = true) := by
    rintro ⟨ht, -⟩
    rw [(terminal_iff_not_active _).1 ht] at h
    cases h
  have hfinish : failMessage now j = { j with
      status := .failed
      finishedAt := some now
      details := { j.details with current := none } } := by
    unfold failMessage finish
    rw [if_pos h, if_neg hne, if_neg hnt]
  rw [hfinish]
  exact ⟨rfl, .ended (by simp) rfl rfl⟩

theorem startLabel_isSome {t : JobType} (h : t.exclusiveCelery = true) : t.startLabel.isSome = true := by
  cases t <;> first | rfl | cases h

theorem executeStart_leaves (now : Nat) {j : Job} (h : j.jobType.exclusiveCelery = true) : Leaves j (executeStart now j) := by
  have hstatus : (executeStart now j).status = .running := executeStart_status (startLabel_isSome h)
  refine .ended (by rw [hstatus]; decide) ?_ ?_
  · unfold executeStart markHousekeepingRunning
    split
    · rfl
    · split
      · split <;> rfl
      · rfl
  · unfold executeStart markHousekeepingRunning
    split
    · rfl
    · split
      · split <;> rfl
      · rfl

/-- What a delivery makes of a row that is pending. -/
theorem dispatch_pending {busy : Bool} {d : Delivery} {j : Job} (hpending : j.status = .pending) (hdemo : d.demo = false)
    (hfound : d.serverFound = true) : dispatch busy d j =
      if j.jobType = .hostBootstrap then (if busy then failMessage d.now j else j)
      else if d.sshReady then j
      else if d.hostWaitLimit ≤ d.now - j.hostWaitStart d.now then failMessage d.now j
      else if d.retriesLeft then markWaiting d.now j
      else failMessage d.now (markWaiting d.now j) := by
  unfold dispatch waitForHost
  simp [hpending, hdemo, hfound]

section Probe
variable {limit retries : Nat} {taskId : Option Nat} {sshReady busy : Bool} {s : WaitState}

/-- The row after a delivery that is made. -/
def WaitState.probed (limit : Nat) (s : WaitState) (retries : Nat) (taskId : Option Nat) (sshReady busy : Bool) : Job :=
  let job := runExclusiveJob busy (s.delivery limit retries taskId sshReady) s.job
  if bodyStarts busy sshReady s.job then executeStart s.clock job else job

theorem rememberTask_leaves (j : Job) (taskId : Option Nat) : Leaves j (j.rememberTask taskId) := ⟨id, rfl, rfl⟩

theorem runExclusiveJob_of {d : Delivery} {j : Job} (hcelery : j.jobType.exclusiveCelery = true) (hactive : j.status.active = true) :
    runExclusiveJob busy d j = dispatch busy d (j.rememberTask d.taskId) := by
  unfold runExclusiveJob
  rw [if_neg]
  rintro (h | h)
  · exact h hcelery
  · rw [(terminal_iff_not_active _).1 h] at hactive
    cases hactive

/-- A delivery to a row that does not stand in the queue. -/
theorem probed_other (h : ¬ (s.job.jobType.exclusiveCelery = true ∧ s.job.status = .pending)) :
    Leaves s.job (s.probed limit retries taskId sshReady busy) := by
  have hno : bodyStarts busy sshReady s.job = false := by
    unfold bodyStarts
    by_cases hc : s.job.jobType.exclusiveCelery = true
    · have hp : (s.job.status == .pending) = false := beq_eq_false_iff_ne.2 fun hp => h ⟨hc, hp⟩
      rw [hc, hp]
      rfl
    · rw [Bool.not_eq_true] at hc
      rw [hc]
      rfl
  unfold WaitState.probed
  simp only [hno, Bool.false_eq_true, if_false]
  by_cases hrun : s.job.jobType.exclusiveCelery = true ∧ s.job.status = .running
  · rw [runExclusiveJob_of hrun.1 (by rw [hrun.2]; rfl)]
    unfold dispatch
    rw [if_pos (show (s.job.rememberTask _).status = .running from hrun.2)]
    exact (rememberTask_leaves s.job taskId).trans
      (failMessage_active (show (s.job.rememberTask _).status.active = true by rw [show (s.job.rememberTask _).status = .running from hrun.2]; rfl)).2
  · unfold runExclusiveJob
    rw [if_pos]
    · exact .refl _
    · by_cases hc : s.job.jobType.exclusiveCelery = true
      · right
        cases hs : s.job.status with
        | pending => exact absurd ⟨hc, hs⟩ h
        | running => exact absurd ⟨hc, hs⟩ hrun
        | _ => rfl
      · exact Or.inl hc

/-- A delivery to a row in the queue. -/
theorem probed_pending (hcelery : s.job.jobType.exclusiveCelery = true) (hpending : s.job.status = .pending)
    (hleft : s.clock - s.job.hostWaitStart s.clock < limit → retries < EXCLUSIVE_MAX_RETRIES) : s.probed limit retries taskId sshReady busy =
      let j := s.job.rememberTask taskId
      if j.jobType = .hostBootstrap then (if busy then failMessage s.clock j else executeStart s.clock j)
      else if sshReady then executeStart s.clock j
      else if limit ≤ s.clock - j.hostWaitStart s.clock then failMessage s.clock j
      else markWaiting s.clock j := by
  unfold WaitState.probed
  rw [runExclusiveJob_of hcelery (by rw [hpending]; rfl), dispatch_pending (show (s.job.rememberTask _).status = .pending from hpending) rfl rfl]
  have htype : (s.job.rememberTask taskId).jobType = s.job.jobType := rfl
  simp only [bodyStarts, hcelery, hpending, htype, WaitState.delivery, beq_self_eq_true, Bool.true_and]
  by_cases hboot : s.job.jobType = .hostBootstrap
  · cases busy <;> simp [hboot]
  · have hstart : (s.job.rememberTask taskId).hostWaitStart s.clock = s.job.hostWaitStart s.clock := rfl
    by_cases hlimit : limit ≤ s.clock - s.job.hostWaitStart s.clock
    · cases sshReady <;> simp [hboot, hstart, hlimit]
    · cases sshReady <;> simp [hboot, hstart, hlimit, hleft (not_le.1 hlimit)]

end Probe

/-! ## Every step -/

theorem clampHostWaitSec_le (raw : Option Int) : clampHostWaitSec raw ≤ 24 * 60 * 60 := by
  unfold clampHostWaitSec HOST_WAIT_FLOOR_SEC HOST_WAIT_CEILING_SEC
  omega

section Steps
variable {limit : Nat} {s : WaitState}

theorem Paced.of_leaves {j : Job} (h : Paced s) (hj : Leaves s.job j) : Paced { s with job := j } where
  waits hw := by
    rw [show ({ s with job := j } : WaitState).job = j from rfl, hj.jobType]
    exact h.waits (hj.waits hw)
  began t ht := h.began t (hj.started ▸ ht)
  first ht := h.first (hj.started ▸ ht)
  due t ht := h.due t (hj.started ▸ ht)

/-- Within the limit a message is never out of retries: a day has fewer countdowns than there are. -/
theorem Paced.retries_lt {retries due : Nat} (h : Paced s) (hlimit : limit ≤ 24 * 60 * 60) (hm : (retries, due) ∈ s.messages)
    (hdue : due ≤ s.clock) (hwithin : s.clock - s.job.hostWaitStart s.clock < limit) : retries < EXCLUSIVE_MAX_RETRIES := by
  unfold EXCLUSIVE_MAX_RETRIES
  unfold Job.hostWaitStart at hwithin
  cases ht : s.job.details.hostWaitStarted with
  | none =>
    have := h.first ht _ hm
    simp only at this
    omega
  | some t =>
    rw [ht, Option.getD_some] at hwithin
    have hpaced := h.due t ht _ hm
    simp only [HOST_WAIT_COUNTDOWN_SEC] at hpaced
    omega

theorem markWaiting_paced {retries due : Nat} {taskId : Option Nat} (h : Paced s) (hcelery : s.job.jobType.exclusiveCelery = true)
    (hboot : s.job.jobType ≠ .hostBootstrap) (hm : (retries, due) ∈ s.messages) (hdue : due ≤ s.clock) :
    Paced { s with
      job := markWaiting s.clock (s.job.rememberTask taskId)
      messages := (retries + 1, s.clock + HOST_WAIT_COUNTDOWN_SEC) :: s.messages } := by
  have hstarted : (markWaiting s.clock (s.job.rememberTask taskId)).details.hostWaitStarted = some (s.job.hostWaitStart s.clock) := rfl
  refine ⟨fun _ => ⟨hcelery, hboot⟩, fun t ht => ?_, fun ht => ?_, fun t ht m hm' => ?_⟩
  · obtain rfl := Option.some.inj (hstarted.symm.trans ht)
    simp only [Job.hostWaitStart]
    cases ht0 : s.job.details.hostWaitStarted with
    | none => simp
    | some t => exact h.began t ht0
  · cases hstarted.symm.trans ht
  · obtain rfl := Option.some.inj (hstarted.symm.trans ht)
    simp only [Job.hostWaitStart, HOST_WAIT_COUNTDOWN_SEC]
    cases ht0 : s.job.details.hostWaitStarted with
    | none =>
      have hzero := h.first ht0
      rcases List.mem_cons.1 hm' with rfl | hm'
      · have := hzero _ hm
        simp only at this
        right
        simp only [Option.getD_none, HOST_WAIT_COUNTDOWN_SEC]
        omega
      · exact Or.inl (hzero m hm')
    | some t =>
      have hpaced := h.due t ht0
      simp only [HOST_WAIT_COUNTDOWN_SEC] at hpaced
      rcases List.mem_cons.1 hm' with rfl | hm'
      · have hbegan := h.began t ht0
        have := hpaced _ hm
        right
        simp only [Option.getD_some, HOST_WAIT_COUNTDOWN_SEC] at this ⊢
        omega
      · exact hpaced m hm'

theorem asksRetry_iff {d : Delivery} {j : Job} : asksRetry d j = true ↔ j.jobType.exclusiveCelery = true ∧ j.status = .pending ∧
    j.jobType ≠ .hostBootstrap ∧ d.sshReady = false ∧ d.retriesLeft = true ∧ d.now - j.hostWaitStart d.now < d.hostWaitLimit := by
  simp [asksRetry, and_assoc]

/-- A delivery ends or leaves the wait, or it is the probe that fails within the limit. -/
theorem probe_cases (taskId : Option Nat) (sshReady busy : Bool) {retries due : Nat} (h : Paced s) (hlimit : limit ≤ 24 * 60 * 60)
    (hm : (retries, due) ∈ s.messages) (hdue : due ≤ s.clock) :
    (asksRetry (s.delivery limit retries taskId sshReady) s.job = false ∧ Leaves s.job (s.probed limit retries taskId sshReady busy)) ∨
    (asksRetry (s.delivery limit retries taskId sshReady) s.job = true ∧ s.job.jobType.exclusiveCelery = true ∧
      s.job.jobType ≠ .hostBootstrap ∧ s.probed limit retries taskId sshReady busy = markWaiting s.clock (s.job.rememberTask taskId)) := by
  have hleft := fun hwithin => h.retries_lt hlimit hm hdue hwithin
  by_cases hqueue : s.job.jobType.exclusiveCelery = true ∧ s.job.status = .pending
  · obtain ⟨hcelery, hpending⟩ := hqueue
    have hact : (s.job.rememberTask taskId).status.active = true := by
      rw [show (s.job.rememberTask taskId).status = .pending from hpending]
      rfl
    have hfail : Leaves s.job (failMessage s.clock (s.job.rememberTask taskId)) :=
      (rememberTask_leaves s.job taskId).trans (failMessage_active hact).2
    have hstart : Leaves s.job (executeStart s.clock (s.job.rememberTask taskId)) :=
      (rememberTask_leaves s.job taskId).trans (executeStart_leaves _ hcelery)
    rw [probed_pending hcelery hpending hleft]
    by_cases hask : asksRetry (s.delivery limit retries taskId sshReady) s.job = true
    · right
      obtain ⟨-, -, hboot, hready, -, hwithin⟩ := asksRetry_iff.1 hask
      have hwithin' : ¬ limit ≤ s.clock - (s.job.rememberTask taskId).hostWaitStart s.clock := not_le.2 hwithin
      have hready' : sshReady = false := hready
      refine ⟨hask, hcelery, hboot, ?_⟩
      simp only
      rw [if_neg (show ¬ (s.job.rememberTask taskId).jobType = .hostBootstrap from hboot), if_neg (by rw [hready']; decide), if_neg hwithin']
    · left
      refine ⟨Bool.eq_false_iff.2 hask, ?_⟩
      simp only
      split
      · split
        · exact hfail
        · exact hstart
      · rename_i hboot
        split
        · exact hstart
        · rename_i hready
          split
          · exact hfail
          · rename_i hwithin
            have hwithin' := not_le.1 hwithin
            exact absurd (asksRetry_iff.2 ⟨hcelery, hpending, hboot, Bool.eq_false_iff.2 hready, decide_eq_true (hleft hwithin'), hwithin'⟩) hask
  · left
    refine ⟨?_, probed_other hqueue⟩
    rw [Bool.eq_false_iff]
    intro hask
    obtain ⟨hcelery, hpending, -⟩ := asksRetry_iff.1 hask
    exact hqueue ⟨hcelery, hpending⟩

theorem waitStep_unmade {retries due : Nat} {taskId : Option Nat} {sshReady busy : Bool} (h : (retries, due) ∉ s.messages ∨ s.clock < due) :
    waitStep limit s (.probe retries due taskId sshReady busy) = s := if_pos h

theorem waitStep_made {retries due : Nat} {taskId : Option Nat} {sshReady busy : Bool} (h : ¬ ((retries, due) ∉ s.messages ∨ s.clock < due)) :
    waitStep limit s (.probe retries due taskId sshReady busy) = ⟨s.probed limit retries taskId sshReady busy, s.clock,
      if asksRetry (s.delivery limit retries taskId sshReady) s.job then (retries + 1, s.clock + HOST_WAIT_COUNTDOWN_SEC) :: s.messages
      else s.messages⟩ := if_neg h

theorem waitStep_paced (hlimit : limit ≤ 24 * 60 * 60) (e : WaitEvent) (h : Paced s) : Paced (waitStep limit s e) := by
  cases e with
  | pass seconds => exact ⟨h.waits, fun t ht => (h.began t ht).trans (Nat.le_add_right _ _), h.first, h.due⟩
  | probe retries due taskId sshReady busy =>
    by_cases hskip : (retries, due) ∉ s.messages ∨ s.clock < due
    · rwa [waitStep_unmade hskip]
    · rw [waitStep_made hskip]
      rw [not_or, not_not, not_lt] at hskip
      obtain ⟨hm, hdue⟩ := hskip
      rcases probe_cases taskId sshReady busy h hlimit hm hdue with ⟨hask, hleaves⟩ | ⟨hask, hcelery, hboot, heq⟩
      · rw [hask, if_neg (by decide)]
        exact h.of_leaves hleaves
      · rw [hask, if_pos rfl, heq]
        exact markWaiting_paced h hcelery hboot hm hdue
  | cleanupStale => exact h.of_leaves (Leaves.marked s.clock (by decide) s.job)
  | cleanupOrphans => exact h.of_leaves (Leaves.marked s.clock (by decide) s.job)
  | reconcile activity => exact h.of_leaves (reconcile_leaves s.clock activity s.job)
  | cancel => exact h.of_leaves (Leaves.marked s.clock (by decide) s.job)

/-! ## A wait fails at its limit only -/

/-- When `cleanup_stale_backup_jobs` takes a row of the type for stale. -/
def staleAfter (t : JobType) : Nat := (if t = .hostFacts then hostFactsStaleMinutes else 120) * 60

/-- What fails a waiting row is a probe at the limit, so no sweep does. -/
def FailsAtLimit (limit : Nat) (s : WaitState) (e : WaitEvent) : Prop :=
  Waits s.job → (waitStep limit s e).job.status = .failed →
    ∃ retries due taskId busy, e = .probe retries due taskId false busy ∧ limit ≤ s.clock - s.job.hostWaitStart s.clock

/-- The stale sweep finds a waiting row that is not older than its cutoff. -/
def SweptYoung (s : WaitState) (e : WaitEvent) : Prop :=
  Waits s.job → e = .cleanupStale → s.clock ≤ s.job.createdAt + staleAfter s.job.jobType

theorem cleanupStale_of_waits (hw : Waits s.job) (hcelery : s.job.jobType.exclusiveCelery = true) :
    (cleanupStaleBackupJobs s.clock 120 s.job).status = .failed ↔ s.job.createdAt + staleAfter s.job.jobType < s.clock := by
  have hswept : s.job.jobType.sweptWhenStale = true := by simp [JobType.sweptWhenStale, hcelery]
  have hactive : s.job.status.active = true := by rw [hw.1]; rfl
  unfold cleanupStaleBackupJobs staleAfter
  simp only [hswept, hactive, true_and]
  by_cases hold : s.job.createdAt + (if s.job.jobType = .hostFacts then hostFactsStaleMinutes else 120) * 60 < s.clock
  · rw [if_pos hold]
    exact iff_of_true rfl hold
  · rw [if_neg hold]
    refine iff_of_false ?_ hold
    rw [hw.1]
    decide

theorem cleanupOrphans_of_waits (hcelery : s.job.jobType.exclusiveCelery = true) : cleanupOrphanWebJobs s.clock s.job = s.job := by
  have howned : s.job.isCeleryOwned = true := by
    have hswept : s.job.jobType.sweptWhenStale = true := by simp [JobType.sweptWhenStale, hcelery]
    have : s.job.jobType.celeryOwned = true := by
      cases ht : s.job.jobType <;> simp_all [JobType.celeryOwned]
    simp [Job.isCeleryOwned, this]
  unfold cleanupOrphanWebJobs
  rw [if_neg fun h => h.2 howned]

theorem reconcile_of_waits (hw : Waits s.job) (hboot : s.job.jobType ≠ .hostBootstrap) (activity : Option (Bool × List Nat)) :
    reconcileOrphanedRunningJobs s.clock activity s.job = s.job := by
  have hexpired : failExpiredPendingHostBootstrap s.clock s.job = s.job := if_neg fun h => hboot h.1
  unfold reconcileOrphanedRunningJobs
  simp only [hexpired]
  cases activity with
  | none => rfl
  | some a => exact if_pos (Or.inl (by rw [hw.1]; decide))

theorem failsAtLimit_iff (hlimit : limit ≤ 24 * 60 * 60) (h : Paced s) (e : WaitEvent) : FailsAtLimit limit s e ↔ SweptYoung s e := by
  constructor
  · rintro hfails hw rfl
    by_contra hold
    obtain ⟨_, _, _, _, heq, -⟩ := hfails hw ((cleanupStale_of_waits hw (h.waits hw).1).2 (not_le.1 hold))
    cases heq
  · intro hyoung hw hfailed
    obtain ⟨hcelery, hboot⟩ := h.waits hw
    have hpending : s.job.status ≠ .failed := by rw [hw.1]; decide
    cases e with
    | pass seconds => exact absurd hfailed hpending
    | probe retries due taskId sshReady busy =>
      by_cases hskip : (retries, due) ∉ s.messages ∨ s.clock < due
      · rw [waitStep_unmade hskip] at hfailed
        exact absurd hfailed hpending
      · rw [waitStep_made hskip] at hfailed
        rw [not_or, not_not, not_lt] at hskip
        simp only [probed_pending hcelery hw.1 fun hwithin => h.retries_lt hlimit hskip.1 hskip.2 hwithin] at hfailed
        rw [if_neg (show ¬ (s.job.rememberTask taskId).jobType = .hostBootstrap from hboot)] at hfailed
        split at hfailed
        · have hcelery' : (s.job.rememberTask taskId).jobType.exclusiveCelery = true := hcelery
          rw [executeStart_status (startLabel_isSome hcelery')] at hfailed
          cases hfailed
        · rename_i hready
          split at hfailed
          · rename_i hover
            rw [Bool.not_eq_true] at hready
            exact ⟨retries, due, taskId, busy, by rw [hready], hover⟩
          · cases hfailed
    | cleanupStale =>
      have hold := (cleanupStale_of_waits hw hcelery).1 hfailed
      exact absurd (hyoung hw rfl) (not_le.2 hold)
    | cleanupOrphans =>
      have hsame : (waitStep limit s .cleanupOrphans).job = s.job := cleanupOrphans_of_waits hcelery
      rw [hsame] at hfailed
      exact absurd hfailed hpending
    | reconcile activity =>
      have hsame : (waitStep limit s (.reconcile activity)).job = s.job := reconcile_of_waits hw hboot activity
      rw [hsame] at hfailed
      exact absurd hfailed hpending
    | cancel =>
      have hcancel : (waitStep limit s .cancel).job = markJobTerminal s.clock .cancelled s.job := if_pos (by rw [hw.1]; rfl)
      rw [hcancel] at hfailed
      cases hfailed

end Steps

/-- **A job that waits for its host fails at the limit only**, in exactly the runs whose stale sweeps find it young enough. -/
theorem wait_fails_at_limit_iff (raw : Option Int) (id : Nat) (serverId : Option Nat) (t : JobType) (now : Nat) (es : List WaitEvent) :
    (∀ pre e post, es = pre ++ e :: post →
      FailsAtLimit (clampHostWaitSec raw) (runs (waitStep (clampHostWaitSec raw)) (queued id serverId t now) pre) e) ↔
    ∀ pre e post, es = pre ++ e :: post → SweptYoung (runs (waitStep (clampHostWaitSec raw)) (queued id serverId t now) pre) e := by
  have hpaced : ∀ pre, Paced (runs (waitStep (clampHostWaitSec raw)) (queued id serverId t now) pre) := fun pre =>
    runs_keeps (fun s e => waitStep_paced (clampHostWaitSec_le raw) e) pre _ (queued_paced id serverId t now)
  constructor
  · intro h pre e post hsplit
    exact (failsAtLimit_iff (clampHostWaitSec_le raw) (hpaced pre) e).1 (h pre e post hsplit)
  · intro h pre e post hsplit
    exact (failsAtLimit_iff (clampHostWaitSec_le raw) (hpaced pre) e).2 (h pre e post hsplit)

/-- With a limit of a day: the probe at once fails to connect, and the sweep after two hours fails the job. -/
theorem waiting_job_swept : ¬ ∀ (raw : Option Int) (id : Nat) (serverId : Option Nat) (t : JobType) (now : Nat) (es : List WaitEvent)
    (pre : List WaitEvent) (e : WaitEvent) (post : List WaitEvent), es = pre ++ e :: post →
      FailsAtLimit (clampHostWaitSec raw) (runs (waitStep (clampHostWaitSec raw)) (queued id serverId t now) pre) e := by
  intro h
  have hrun := h (some 86400) 1 (some 1) .osPatch 0 [.probe 0 0 (some 7) false false, .pass 7201, .cleanupStale]
    [.probe 0 0 (some 7) false false, .pass 7201] .cleanupStale [] rfl (by decide +kernel) (by decide +kernel)
  obtain ⟨_, _, _, _, heq, -⟩ := hrun
  cases heq

end PiHerder.Jobs
