import PiHerder.Discovery.Resolution

/-!
# Who reviews a device

A run is observed with the ids of the devices that an operator has called on since they were last `new`. A device leaves
`new` by an operator's call or, past the threshold, by a staleness sweep; a scan that sees a stale device makes it `known`
whoever it was new for. That is one way past the operator. The other is the session: `set_device_state` writes the state
`linked` before it asks for the server, and raises with the write still in the session.
-/
namespace PiHerder.Discovery
open Lib Lib.Str

/-! ## Observed runs -/

/-- The devices that an operator's call is made on. -/
def Call.devices : Call → List Nat
  | .setState _ id _ _ | .markKnown _ id | .markNew _ id | .mapIdentity _ id | .link _ id _ | .unlink _ id | .purge id => [id]
  | .replaceStaleMac c => [c.newDeviceId, c.staleDeviceId]
  | .scan _ | .sweep _ | .commit | .close => []

structure Observed where
  session : Session
  /-- Called on, by a call that returned, and not committed as `new` since. -/
  reviewed : List Nat
deriving DecidableEq, Repr

def isNew (s : Session) (id : Nat) : Bool := s.committed.devices.any fun d => d.id == id && d.state == .new

def Observed.called (o : Observed) (c : Call) : List Nat := if (c.outcome o.session).1 = none then c.devices else []

def Observed.step (o : Observed) (c : Call) : Observed where
  session := Discovery.step o.session c
  reviewed := (o.called c ++ o.reviewed).filter fun id => !isNew (Discovery.step o.session c) id

def Observed.opened (schedules : List NmapScanSchedule) : Observed := ⟨Session.opened schedules, []⟩

def Settled (d : NmapDevice) : Prop := d.state = .known ∨ d.state = .linked

/-- What the committed rows say. -/
structure Reviewed (o : Observed) : Prop where
  settled : ∀ d ∈ o.session.committed.devices, Settled d → d.id ∈ o.reviewed
  linked : ∀ d ∈ o.session.committed.devices, d.linkedServerId.isSome ↔ d.state = .linked

/-- A hidden device stays hidden, unless the call is an operator's call on it. -/
def IgnoredStays (o : Observed) (c : Call) : Prop :=
  ∀ d ∈ o.session.committed.devices, d.state = .ignored → d.id ∉ c.devices →
    ∃ d' ∈ (o.step c).session.committed.devices, d'.id = d.id ∧ d'.state = .ignored

/-! ## The condition -/

/-- The stale rows that the hosts of a report are resolved to, in turn. -/
def stalesSeen (scan : Scan) : Tables → List ParsedHost → List Nat
  | _, [] => []
  | t, h :: hosts =>
    (if h.skipped scan.onlyUp then []
      else ((resolve scan.query scan.integrationId t h).filter fun d => d.state = .stale).toList.map NmapDevice.id)
      ++ stalesSeen scan (afterHost scan t h) hosts

def Call.revives (t : Tables) : Call → List Nat
  | .scan report => stalesSeen report t report.hosts
  | _ => []

def Call.isClose : Call → Bool
  | .close => true
  | _ => false

/-- A session with a write that was not committed is closed before it is used again, and a scan sees no stale device
that no operator has called on since it was new. -/
def Sound (o : Observed) (c : Call) : Prop :=
  c.isClose = true ∨ (o.session.live = o.session.committed ∧ ∀ id ∈ c.revives o.session.live, id ∈ o.reviewed)

instance (o : Observed) (c : Call) : Decidable (Sound o c) := inferInstanceAs (Decidable (_ ∨ _ ∧ _))

/-! ## Scans -/

/-- How a row after some hosts of a report stands to the rows before. -/
def Follows (reviewed : List Nat) (t : Tables) (d' : NmapDevice) : Prop :=
  (d'.state = .new ∧ d'.linkedServerId = none) ∨
    ∃ d ∈ t.devices, d.id = d'.id ∧ d'.linkedServerId = d.linkedServerId ∧
      (d'.state = d.state ∨ (d.state = .stale ∧ d'.state = .known ∧ d.id ∈ reviewed))

theorem Found.state_eq {i : Nat} {t : Tables} {h : ParsedHost} {d row : NmapDevice} (hf : Found i t h d row) : row.state = d.state := by
  cases hf <;> rfl

theorem Found.linkedServerId_eq {i : Nat} {t : Tables} {h : ParsedHost} {d row : NmapDevice} (hf : Found i t h d row) :
    row.linkedServerId = d.linkedServerId := by
  cases hf <;> rfl

theorem afterHost_follows {reviewed : List Nat} {t : Tables} (ht : Identified t) {scan : Scan} {h : ParsedHost} {hosts : List ParsedHost}
    (hsound : ∀ id ∈ stalesSeen scan t (h :: hosts), id ∈ reviewed) :
    ∀ d' ∈ (afterHost scan t h).devices, Follows reviewed t d' := by
  have hself : ∀ d ∈ t.devices, Follows reviewed t d := fun d hd => Or.inr ⟨d, hd, rfl, rfl, Or.inl rfl⟩
  intro d' hd'
  rcases hostStep ht scan h with ⟨-, hrows, -⟩ | ⟨-, -, -, -, hrows, -⟩ | ⟨-, -, hrows, -⟩ |
    ⟨hskip, hr, hd, -, hfound, -, hrows, -⟩
  · exact hself d' (hrows ▸ hd')
  · exact hself d' (hrows ▸ hd')
  · rw [hrows] at hd'
    rcases List.mem_append.1 hd' with hd' | hd'
    · exact hself d' hd'
    · obtain rfl := List.mem_singleton.1 hd'
      exact Or.inl ⟨rfl, rfl⟩
  · rename_i d row
    rw [hrows] at hd'
    rcases (@mem_put t (refresh scan h row) d hd hfound.id_eq d').1 hd' with rfl | ⟨hd', -⟩
    · refine Or.inr ⟨d, hd, hfound.id_eq.symm, hfound.linkedServerId_eq, ?_⟩
      simp only [refresh, hfound.state_eq]
      cases hst : d.state with
      | stale =>
        refine Or.inr ⟨rfl, rfl, hsound d.id ?_⟩
        rw [stalesSeen, hskip, hr]
        refine List.mem_append_left _ ?_
        simp [Option.filter, hfound.state_eq, hst, hfound.id_eq]
      | new | known | linked | ignored => exact Or.inl rfl
    · exact hself d' hd'

theorem afterHosts_follows {reviewed : List Nat} {scan : Scan} : ∀ {hosts : List ParsedHost} {t : Tables}, Identified t →
    (∀ id ∈ stalesSeen scan t hosts, id ∈ reviewed) → ∀ d' ∈ (runs (afterHost scan) t hosts).devices, Follows reviewed t d'
  | [], _, _, _ => fun d hd => Or.inr ⟨d, hd, rfl, rfl, Or.inl rfl⟩
  | h :: hosts, t, ht, hsound => by
    intro d' hd'
    have htail : ∀ id ∈ stalesSeen scan (afterHost scan t h) hosts, id ∈ reviewed :=
      fun id hid => hsound id (List.mem_append_right _ hid)
    rcases afterHosts_follows (afterHost_identified ht scan h) htail d' hd' with hnew | ⟨d, hd, hid, hserver, hstate⟩
    · exact Or.inl hnew
    rcases afterHost_follows ht hsound d hd with ⟨hnew, hnone⟩ | ⟨e, he, heid, heserver, hestate⟩
    · rcases hstate with hstate | ⟨hstale, -, -⟩
      · exact Or.inl ⟨hstate.trans hnew, hserver.trans hnone⟩
      · rw [hnew] at hstale
        cases hstale
    · refine Or.inr ⟨e, he, heid.trans hid, hserver.trans heserver, ?_⟩
      rcases hstate with hstate | ⟨hstale, hknown, hrev⟩ <;> rcases hestate with hestate | ⟨hestale, heknown, herev⟩
      · exact Or.inl (hstate.trans hestate)
      · exact Or.inr ⟨hestale, hstate.trans heknown, herev⟩
      · exact Or.inr ⟨hestate.symm.trans hstale, hknown, heid ▸ hrev⟩
      · rw [heknown] at hstale
        cases hstale

theorem ignored_mem_afterHosts {scan : Scan} {d : NmapDevice} (hstate : d.state = .ignored) : ∀ {hosts : List ParsedHost} {t : Tables},
    Identified t → d ∈ t.devices → d ∈ (runs (afterHost scan) t hosts).devices
  | [], _, _, hd => hd
  | h :: _, t, ht, hd =>
    @ignored_mem_afterHosts scan d hstate _ (afterHost scan t h) (afterHost_identified ht scan h)
      ((ht.ownRowOnly scan h).ignored d hd hstate)

/-! ## One call -/

/-- What is to be shown of the rows that a call commits. -/
def Commits (o : Observed) (c : Call) (rows : List NmapDevice) : Prop :=
  (∀ d' ∈ rows, (d'.linkedServerId.isSome ↔ d'.state = .linked) ∧ (Settled d' → d'.id ∈ o.called c ++ o.reviewed)) ∧
    ∀ d ∈ o.session.committed.devices, d.state = .ignored → d.id ∉ c.devices → ∃ d' ∈ rows, d'.id = d.id ∧ d'.state = .ignored

/-- A settled row is not `new`, and no other row has its id. -/
theorem Commits.reviewed {o : Observed} {c : Call} (hid : Identified (step o.session c).committed)
    (h : Commits o c (step o.session c).committed.devices) : Reviewed (o.step c) ∧ IgnoredStays o c := by
  refine ⟨⟨fun d hd hsettled => ?_, fun d hd => (h.1 d hd).1⟩, h.2⟩
  refine List.mem_filter.2 ⟨(h.1 d hd).2 hsettled, ?_⟩
  rw [Bool.not_eq_true', ← Bool.not_eq_true]
  intro hnew
  obtain ⟨e, he, hp⟩ := List.any_eq_true.1 hnew
  simp only [Bool.and_eq_true, beq_iff_eq] at hp
  obtain rfl := hid.eq_of_id he hd hp.1
  rw [Settled, hp.2] at hsettled
  simp at hsettled

section Step
variable {o : Observed} {c : Call}

/-- Nothing is committed. -/
theorem Commits.same (h : Reviewed o) : Commits o c o.session.committed.devices :=
  ⟨fun d hd => ⟨h.linked d hd, fun hs => List.mem_append_right _ (h.settled d hd hs)⟩, fun d hd hst _ => ⟨d, hd, rfl, hst⟩⟩

/-- Some rows are committed as they were. -/
theorem Commits.filter (h : Reviewed o) {p : NmapDevice → Bool} (hp : ∀ d, p d = false → d.id ∈ c.devices) :
    Commits o c (o.session.committed.devices.filter p) := by
  refine ⟨fun d hd => ?_, fun d hd hst hnot => ?_⟩
  · have hd := List.mem_of_mem_filter hd
    exact ⟨h.linked d hd, fun hs => List.mem_append_right _ (h.settled d hd hs)⟩
  · refine ⟨d, List.mem_filter.2 ⟨hd, ?_⟩, rfl, hst⟩
    cases hpd : p d with
    | true => rfl
    | false => exact absurd (hp d hpd) hnot

/-- Every row is written, those of other devices with the state and the server they had. -/
theorem Commits.map (h : Reviewed o) {f : NmapDevice → NmapDevice} (hid : ∀ d, (f d).id = d.id)
    (hother : ∀ d, d.id ∉ o.called c → (f d).state = d.state ∧ (f d).linkedServerId = d.linkedServerId)
    (hlinked : ∀ d, d.id ∈ o.called c → (d.linkedServerId.isSome ↔ d.state = .linked) → ((f d).linkedServerId.isSome ↔ (f d).state = .linked)) :
    Commits o c (o.session.committed.devices.map f) := by
  refine ⟨fun d' hd' => ?_, fun d hd hst hnot => ?_⟩
  · obtain ⟨d, hd, rfl⟩ := List.mem_map.1 hd'
    by_cases hcalled : d.id ∈ o.called c
    · exact ⟨hlinked d hcalled (h.linked d hd), fun _ => List.mem_append_left _ (hid d ▸ hcalled)⟩
    · obtain ⟨hstate, hserver⟩ := hother d hcalled
      rw [Settled, hstate, hserver, hid]
      exact ⟨h.linked d hd, fun hs => List.mem_append_right _ (h.settled d hd hs)⟩
  · refine ⟨f d, List.mem_map.2 ⟨d, hd, rfl⟩, hid d, ?_⟩
    have hcalled : d.id ∉ o.called c := by
      intro hin
      unfold Observed.called at hin
      split at hin
      · exact hnot hin
      · cases hin
    rw [(hother d hcalled).1, hst]

end Step

/-- A scan. -/
theorem commits_scan {o : Observed} (h : Reviewed o) (hid : Identified o.session.committed) {scan : Scan}
    (hsound : ∀ id ∈ stalesSeen scan o.session.committed scan.hosts, id ∈ o.reviewed) :
    Commits o (.scan scan) (afterHosts scan o.session.committed scan.hosts).devices := by
  rw [afterHosts_eq_runs]
  refine ⟨fun d' hd' => ?_, fun d hd hst _ => ⟨d, ignored_mem_afterHosts hst hid hd, rfl, hst⟩⟩
  rcases afterHosts_follows hid hsound d' hd' with ⟨hnew, hnone⟩ | ⟨d, hd, hidd, hserver, hstate⟩
  · simp [Settled, hnew, hnone]
  · have hlinked := h.linked d hd
    rw [hserver, ← hidd, Settled]
    rcases hstate with hstate | ⟨hstale, hknown, hrev⟩
    · rw [hstate]
      exact ⟨hlinked, fun hs => List.mem_append_right _ (h.settled d hd hs)⟩
    · refine ⟨?_, fun _ => List.mem_append_right _ hrev⟩
      simp [hlinked, hstale, hknown]

/-- A sweep marks rows that are not settled any more. -/
theorem commits_sweep {o : Observed} (h : Reviewed o) (w : Sweep) :
    Commits o (.sweep w) (o.session.committed.devices.map w.mark) := by
  have hmark : ∀ d, (w.mark d).id = d.id ∧ (w.mark d).linkedServerId = d.linkedServerId ∧
      ((w.mark d).state = d.state ∨ ((w.mark d).state = .stale ∧ (d.state = .new ∨ d.state = .known))) := by
    intro d
    unfold Sweep.mark
    split
    · rename_i htakes
      simp only [Sweep.takes, Bool.and_eq_true, Bool.or_eq_true, beq_iff_eq] at htakes
      exact ⟨rfl, rfl, Or.inr ⟨rfl, htakes.1.1⟩⟩
    · exact ⟨rfl, rfl, Or.inl rfl⟩
  refine ⟨fun d' hd' => ?_, fun d hd hst _ => ⟨w.mark d, List.mem_map.2 ⟨d, hd, rfl⟩, (hmark d).1, ?_⟩⟩
  · obtain ⟨d, hd, rfl⟩ := List.mem_map.1 hd'
    obtain ⟨hidd, hserver, hstate⟩ := hmark d
    have hlinked := h.linked d hd
    rw [hserver, hidd, Settled]
    rcases hstate with hstate | ⟨hstale, hwas⟩
    · rw [hstate]
      exact ⟨hlinked, fun hs => List.mem_append_right _ (h.settled d hd hs)⟩
    · rw [hstale]
      refine ⟨?_, by simp⟩
      rcases hwas with hwas | hwas <;> simp [hlinked, hwas]
  · rcases (hmark d).2.2 with hstate | ⟨-, hwas⟩
    · exact hstate.trans hst
    · rw [hst] at hwas
      simp at hwas

/-- A write of one row by a call on it that returns. -/
theorem commits_write {o : Observed} {c : Call} (h : Reviewed o) (hclean : o.session.live = o.session.committed) {id : Nat}
    {f : NmapDevice → NmapDevice} (hcalled : id ∈ o.called c) (hid : ∀ d, (f d).id = d.id)
    (hlinked : ∀ d, (d.linkedServerId.isSome ↔ d.state = .linked) → ((f d).linkedServerId.isSome ↔ (f d).state = .linked)) :
    Commits o c (o.session.write id f).commit.committed.devices := by
  show Commits o c (o.session.live.devices.map _)
  rw [hclean]
  refine Commits.map h (fun d => ?_) (fun d hd => ?_) (fun d _ hl => ?_)
  · split
    · exact hid d
    · rfl
  · have hne : d.id ≠ id := fun heq => hd (heq ▸ hcalled)
    rw [if_neg hne]
    exact ⟨rfl, rfl⟩
  · split
    · exact hlinked d hl
    · exact hl

/-- `set_device_state`, from a session without writes: what it commits when it returns, and nothing when it raises. -/
theorem commits_setDeviceState {o : Observed} {c : Call} (h : Reviewed o) (hclean : o.session.live = o.session.committed)
    {now : Time} {id : Nat} {state : Str} {server : Option Nat} (hcalled : (setDeviceState now id state server o.session).1 = none → id ∈ o.called c) :
    Commits o c (setDeviceState now id state server o.session).2.committed.devices := by
  revert hcalled
  unfold setDeviceState
  split
  · exact fun _ => Commits.same h
  · split
    · exact fun _ => Commits.same h
    · refine fun hcalled => commits_write h hclean (hcalled rfl) (fun _ => rfl) fun d _ => ?_
      simp
  · rename_i st hne hst
    refine fun hcalled => commits_write h hclean (hcalled rfl) (fun _ => rfl) fun d _ => ?_
    simpa using fun heq => hne heq

theorem commits_mapIdentity {o : Observed} (h : Reviewed o) (hclean : o.session.live = o.session.committed) (m : MapIdentity) (id : Nat) :
    Commits o (.mapIdentity m id) (setDeviceMapIdentity m id o.session).2.committed.devices := by
  have hclear : ∀ d, (m.clear id d).id = d.id ∧ (m.clear id d).state = d.state ∧ (m.clear id d).linkedServerId = d.linkedServerId := by
    intro d
    unfold MapIdentity.clear
    split <;> exact ⟨rfl, rfl, rfl⟩
  have hcalled : o.called (.mapIdentity m id) = [id] := rfl
  have hrows : (setDeviceMapIdentity m id o.session).2.committed.devices =
      o.session.live.devices.map ((fun d => if d.id = id then m.write d else d) ∘ m.clear id) := by
    rw [← List.map_map]
    unfold setDeviceMapIdentity
    dsimp only
    split <;> rfl
  rw [hrows, hclean]
  refine Commits.map h (fun d => ?_) (fun d hd => ?_) (fun d _ hl => ?_)
  · simp only [Function.comp_apply]
    split <;> exact (hclear d).1
  · have hne : (m.clear id d).id ≠ id := by simpa [hcalled, (hclear d).1] using hd
    simp only [Function.comp_apply, if_neg hne]
    exact (hclear d).2
  · -- A linked row is neither `new` nor `stale`, so that it keeps its state.
    obtain ⟨-, hstate, hserver⟩ := hclear d
    simp only [Function.comp_apply]
    split
    · simp only [MapIdentity.write, hserver, hl, hstate]
      cases d.state <;> cases m.markKnown <;> simp
    · rw [hstate, hserver]
      exact hl

theorem commits_replaceStaleMac {o : Observed} (h : Reviewed o) (hclean : o.session.live = o.session.committed) (c : NicChange) :
    Commits o (.replaceStaleMac c) (replaceStaleMac c o.session).2.committed.devices := by
  by_cases hout : (replaceStaleMac c o.session).1 = none
  · have hcalled : o.called (.replaceStaleMac c) = [c.newDeviceId, c.staleDeviceId] := if_pos hout
    have hrows : ∃ older, (replaceStaleMac c o.session).2.committed.devices =
        o.session.live.devices.map ((fun d => if d.id = c.staleDeviceId
            then { d with state := .ignored, linkedServerId := none, updatedAt := c.now } else d) ∘
          fun d => if d.id = c.newDeviceId then takeFields older c.now d else d) := by
      revert hout
      unfold replaceStaleMac
      split
      · split
        · simp
        · split
          · rename_i newer older _ _ _ _
            exact fun _ => ⟨older, List.map_map⟩
          · simp
      · simp
    obtain ⟨older, hrows⟩ := hrows
    rw [hrows, hclean]
    refine Commits.map h (fun d => ?_) (fun d hd => ?_) (fun d _ hl => ?_)
    · simp only [Function.comp_apply]
      split <;> split <;> rfl
    · simp only [hcalled, List.mem_cons, List.not_mem_nil, or_false, not_or] at hd
      simp only [Function.comp_apply, if_neg hd.1, if_neg hd.2, and_self]
    · simp only [Function.comp_apply]
      split <;> split
      · simp
      · exact hl
      · simp
      · exact hl
  · have hsame : (replaceStaleMac c o.session).2 = o.session := by
      revert hout
      unfold replaceStaleMac
      split
      · split
        · simp
        · split
          · exact fun hout => absurd rfl hout
          · simp
      · simp
    rw [hsame]
    exact Commits.same h

/-- **Step.** A call that meets the condition keeps what the committed rows say, and the hidden devices hidden. -/
theorem step_reviewed {o : Observed} {c : Call} (hid : Both Identified o.session) (h : Reviewed o) (hs : Sound o c) :
    Reviewed (o.step c) ∧ IgnoredStays o c := by
  refine Commits.reviewed (step_identified _ c hid).2 ?_
  by_cases hclose : c.isClose = true
  · cases c <;> simp only [Call.isClose, Bool.false_eq_true] at hclose
    exact Commits.same h
  obtain ⟨hclean, hrev⟩ := hs.resolve_left hclose
  have hcalled : ∀ {c : Call} {id : Nat}, c.devices = [id] → (c.outcome o.session).1 = none → id ∈ o.called c := by
    intro c id hdev hout
    rw [Observed.called, if_pos hout, hdev]
    exact List.mem_singleton_self id
  cases c with
  | scan report =>
    have hcommits := @commits_scan o h hid.2 report (by rw [← hclean]; exact hrev)
    rwa [← hclean] at hcommits
  | sweep w =>
    have hcommits := commits_sweep h w
    simp only [step, Call.outcome, applyStaleDeviceStates]
    split
    · rw [← hclean] at hcommits
      exact hcommits
    · exact Commits.same h
  | setState now id state server => exact commits_setDeviceState h hclean fun hout => hcalled rfl hout
  | markKnown now id =>
    have hset := @commits_setDeviceState o (.markKnown now id) h hclean now id (lit "known") none
    simp only [step, Call.outcome, markDeviceKnown]
    split
    · exact Commits.same h
    · rename_i hne
      refine hset fun hout => hcalled rfl ?_
      rwa [Call.outcome, markDeviceKnown, if_neg hne]
  | markNew now id =>
    have hset := @commits_setDeviceState o (.markNew now id) h hclean now id (lit "new") none
    simp only [step, Call.outcome, markDeviceNew]
    split
    · exact Commits.same h
    · rename_i hne
      refine hset fun hout => hcalled rfl ?_
      rwa [Call.outcome, markDeviceNew, if_neg hne]
  | mapIdentity m id => exact commits_mapIdentity h hclean m id
  | link now id server => exact commits_write h hclean (hcalled rfl rfl) (fun _ => rfl) fun d _ => by simp
  | unlink now id => exact commits_write h hclean (hcalled rfl rfl) (fun _ => rfl) fun d _ => by simp
  | replaceStaleMac change => exact commits_replaceStaleMac h hclean change
  | purge id =>
    have hcommits := @Commits.filter o (.purge id) h (fun d => d.id != id) fun d hd => by simpa [Call.devices] using hd
    rwa [← hclean] at hcommits
  | commit =>
    show Commits o .commit o.session.live.devices
    rw [hclean]
    exact Commits.same h
  | close => exact absurd rfl hclose

/-- **Only an operator reviews a device.** In every run whose calls meet the condition, every committed row that is `known`
or `linked` was called on by an operator since it was last `new`, a row has a server exactly when it is `linked`, and a
hidden device stays hidden until an operator calls on it. -/
theorem only_operators_review (schedules : List NmapScanSchedule) (calls : List Call)
    (h : Guarded Observed.step Sound (Observed.opened schedules) calls) :
    (∀ pre post, calls = pre ++ post → Reviewed (runs Observed.step (Observed.opened schedules) pre)) ∧
      ∀ pre c post, calls = pre ++ c :: post → IgnoredStays (runs Observed.step (Observed.opened schedules) pre) c := by
  have hopened : Both Identified (Observed.opened schedules).session ∧ Reviewed (Observed.opened schedules) :=
    ⟨runs_identified schedules [], by constructor <;> simp [Observed.opened, Session.opened]⟩
  have hrun : ∀ pre post, calls = pre ++ post →
      Both Identified (runs Observed.step (Observed.opened schedules) pre).session ∧
        Reviewed (runs Observed.step (Observed.opened schedules) pre) := by
    rintro pre post rfl
    exact runs_invariant (I := fun o => Both Identified o.session ∧ Reviewed o)
      (fun o c hi hs => ⟨step_identified _ c hi.1, (step_reviewed hi.1 hi.2 hs).1⟩) pre _ hopened h.of_append
  refine ⟨fun pre post heq => (hrun pre post heq).2, fun pre c post heq => ?_⟩
  obtain ⟨hid, hrev⟩ := hrun pre (c :: post) heq
  exact (step_reviewed hid hrev (guarded_iff.1 h pre c post heq)).2

/-- A scan at a time, and a sweep two weeks and a day later. -/
def seenAt (now : Time) : Call := .scan ⟨1, [{ ipAddress := lit "192.168.1.10" }], none, true, now, FirstRow.head NmapDevice⟩
def sweepAt (now : Time) : Call := .sweep ⟨14, none, now, now⟩

/-- Marked known, not seen for a while, and seen again. -/
theorem known_stale_known :
    (∀ pre post, [seenAt 0, .markKnown 1 1, sweepAt (15 * day), seenAt (16 * day)] = pre ++ post →
        Reviewed (runs Observed.step (Observed.opened []) pre)) ∧
      (runs Observed.step (Observed.opened []) [seenAt 0, .markKnown 1 1, sweepAt (15 * day), seenAt (16 * day)]).session.committed.devices.map
          NmapDevice.state = [.known] :=
  ⟨(only_operators_review [] [seenAt 0, .markKnown 1 1, sweepAt (15 * day), seenAt (16 * day)]
    ⟨by decide, by decide, by decide, by decide, trivial⟩).1, by decide⟩

/-- New, stale, seen again: no operator was asked. And a device that a call which raised left linked to nothing. -/
theorem known_without_review :
    ((runs Observed.step (Observed.opened []) [seenAt 0, sweepAt (15 * day), seenAt (16 * day)]).session.committed.devices.map
        NmapDevice.state = [.known] ∧
      (runs Observed.step (Observed.opened []) [seenAt 0, sweepAt (15 * day), seenAt (16 * day)]).reviewed = []) ∧
    (setDeviceState 1 1 (lit "linked") none (runs step (Session.opened []) [seenAt 0])).1 = some linkedServerIdRequired ∧
    (runs step (Session.opened []) [seenAt 0, .setState 1 1 (lit "linked") none, .commit]).committed.devices.map
        (fun d => (d.state, d.linkedServerId)) = [(.linked, none)] := by
  decide

end PiHerder.Discovery
