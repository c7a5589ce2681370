import PiHerder.Lib.Cut
import PiHerder.Lib.PyStr

/-!
# What a failed certificate deploy leaves (`services/certificates.py`)

| here | there |
| --- | --- |
| `buildCombinedPem`, `layoutFilePayloads`, `pfxSourcePems` | 1164–1203 |
| `directSteps`, `stageSteps` | `deploy_target`, 2141–2402, by write mode |
| `edgeSteps` | the files of `deploy_to_edge_caddy`, 1319–1347 |

The steps are those on the host, with what each changes in the final directory; a staged file is installed as it was written, since the run
stops where it was not. `pkcs12` is what `openssl pkcs12 -export` makes of a chain and a key.
-/
namespace PiHerder.Certificates
open Lib Lib.Str

/-! ## The code -/

inductive Layout
  | pair
  | combined
  | pfx
  | pairAndCombined
  | pairAndPfx
  | pairCombinedPfx
deriving DecidableEq, Repr

def layoutInstallsPair (layout : Layout) : Bool := layout ∈ [.pair, .pairAndCombined, .pairAndPfx, .pairCombinedPfx]
def layoutInstallsCombined (layout : Layout) : Bool := layout ∈ [.combined, .pairAndCombined, .pairCombinedPfx]
def layoutInstallsPfx (layout : Layout) : Bool := layout ∈ [.pfx, .pairAndPfx, .pairCombinedPfx]

inductive WriteMode | direct | stageSudo
deriving DecidableEq, Repr

structure CertificateTarget where
  layout : Layout := .pair
  writeMode : WriteMode := .direct
  fullchainFilename : Str := []
  privkeyFilename : Str := []
  combinedFilename : Str := []
  pfxFilename : Str := []
  fileOwner : Str := []
  postDeployCommand : Str := []
deriving DecidableEq, Repr

/-- `name or default`. -/
def nameOr (name default : Str) : Str := if name = [] then default else name

namespace CertificateTarget
variable (target : CertificateTarget)

def fullchain : Str := nameOr target.fullchainFilename (lit "fullchain.pem")
def privkey : Str := nameOr target.privkeyFilename (lit "privkey.pem")
def combined : Str := nameOr target.combinedFilename (lit "snakeoil.pem")
def pfx : Str := nameOr target.pfxFilename (lit "Certificate.pfx")

end CertificateTarget

def marker : Str := lit ".piherder-cert-fp"

def buildCombinedPem (privkey fullchain : Str) : Str :=
  rstripWhere isSpace privkey ++ lit "\n" ++ rstripWhere isSpace fullchain ++ lit "\n"

def layoutFilePayloads (target : CertificateTarget) (full key : Str) : List (Str × Str) :=
  (if layoutInstallsPair target.layout then [(target.fullchain, full), (target.privkey, key)] else []) ++
    if layoutInstallsCombined target.layout then [(target.combined, buildCombinedPem key full)] else []

def pfxSourcePems (target : CertificateTarget) (full key : Str) : List (Str × Str) := [(target.fullchain, full), (target.privkey, key)]

/-- What leaves the files of the final directory as they are. -/
inductive Command
  | connect
  | mkdir
  | stageWrite (fname content : Str)
  | installDir
  | exportStage
  | chmod (fname : Str)
  | chown (fname : Str)
  | postDeploy
  | verify
deriving DecidableEq, Repr

inductive DeployStep
  | command (command : Command)
  /-- `sftp.file(path, "w")`. -/
  | write (fname content : Str)
  /-- `sudo install` of the staged file. -/
  | install (fname content : Str)
  /-- `openssl pkcs12 -export`. -/
  | exportPfx (fname content : Str)
  /-- `rm -f`, whose exit status is not looked at. -/
  | remove (fname : Str)
  /-- The marker, whose errors are passed over. -/
  | mark (content : Str)
deriving DecidableEq, Repr

def DeployStep.step : DeployStep → Cut.Step Str Str
  | command _ => .pass
  | write fname content => .put fname content
  | install fname content => .put fname content
  | exportPfx fname content => .put fname content
  | remove fname => .drop fname
  | mark content => .attempt marker content

section
variable (pkcs12 : Str → Str → Str) (target : CertificateTarget) (full key fp : Str)

def postSteps : List DeployStep := if target.postDeployCommand ≠ [] then [.command .postDeploy] else []

def directSteps : List DeployStep :=
  [.command .connect, .command .mkdir] ++
    (if target.layout = .pfx then pfxSourcePems target full key else layoutFilePayloads target full key).flatMap
      (fun f => [.write f.1 f.2, .command (.chmod f.1)]) ++
    [.write marker (fp ++ lit "\n")] ++
    (if strip target.fileOwner ≠ [] ∧ target.layout ≠ .pfx then
      (layoutFilePayloads target full key).map fun f => .command (.chown f.1) else []) ++
    (if layoutInstallsPfx target.layout then
      [.exportPfx target.pfx (pkcs12 full key), .command (.chmod target.pfx)] ++
        (if strip target.fileOwner ≠ [] then [.command (.chown target.pfx)] else []) ++
        (if target.layout = .pfx then (pfxSourcePems target full key).map fun f => .remove f.1 else [])
      else []) ++
    postSteps target ++ [.command .verify]

def stageSteps : List DeployStep :=
  [.command .connect, .command .mkdir] ++
    (layoutFilePayloads target full key).map (fun f => .command (.stageWrite f.1 f.2)) ++
    [.command .installDir] ++
    (layoutFilePayloads target full key).map (fun f => .install f.1 f.2) ++
    (if layoutInstallsPfx target.layout then
      (if target.layout = .pfx then (pfxSourcePems target full key).map fun f => .command (.stageWrite f.1 f.2) else []) ++
        [.command .exportStage, .install target.pfx (pkcs12 full key)]
      else []) ++
    postSteps target ++ [.mark (fp ++ lit "\n"), .command .verify]

def deploySteps : List DeployStep :=
  match target.writeMode with
  | .direct => directSteps pkcs12 target full key fp
  | .stageSudo => stageSteps pkcs12 target full key fp

/-- The files of the final directory after a deploy. -/
def deployTarget (answers : Nat → Cut.Answer Str) (host : Str → Option Str) : Str → Option Str :=
  Cut.run answers 0 ((deploySteps pkcs12 target full key fp).map DeployStep.step) host

/-- How many steps pass; all of them, and the deploy succeeds. -/
def deployPassed (answers : Nat → Cut.Answer Str) : Nat :=
  Cut.passed answers 0 ((deploySteps pkcs12 target full key fp).map DeployStep.step)

/-- The step that writes a file of the layout. -/
def writeStep (fname content : Str) : DeployStep :=
  match target.writeMode with
  | .direct => .write fname content
  | .stageSudo => .install fname content

def pfxStep : DeployStep :=
  match target.writeMode with
  | .direct => .exportPfx target.pfx (pkcs12 full key)
  | .stageSudo => .install target.pfx (pkcs12 full key)

/-- The number of a step, past the end where it is missing. -/
def stepAt (s : DeployStep) : Nat := (deploySteps pkcs12 target full key fp).idxOf s

end

/-! ## Where each file is written -/

/-- The files that the layout speaks of; a pfx is made of a chain and a key. -/
def CertificateTarget.files (target : CertificateTarget) : List Str :=
  (if target.layout = .combined then [] else [target.fullchain, target.privkey]) ++
    (if layoutInstallsCombined target.layout then [target.combined] else []) ++
    (if layoutInstallsPfx target.layout then [target.pfx] else [])

/-- They have names of their own. -/
def CertificateTarget.Distinct (target : CertificateTarget) : Prop := (marker :: target.files).Nodup

instance (target : CertificateTarget) : Decidable target.Distinct := inferInstanceAs (Decidable (marker :: target.files).Nodup)

/-- Steps that leave a file. -/
def Spares (n : Str) (ss : List DeployStep) : Prop := ∀ s ∈ ss, n ∉ s.step.names

section
variable {n c : Str} {steps pre mid post : List DeployStep} {s : DeployStep}

@[simp] theorem spares_nil : Spares n [] := fun _ h => absurd h List.not_mem_nil

@[simp] theorem spares_cons : Spares n (s :: steps) ↔ n ∉ s.step.names ∧ Spares n steps := List.forall_mem_cons

@[simp] theorem spares_append : Spares n (pre ++ post) ↔ Spares n pre ∧ Spares n post := List.forall_mem_append

theorem Spares.map (h : Spares n steps) : ∀ t ∈ steps.map DeployStep.step, n ∉ t.names := by
  intro t ht
  obtain ⟨s, hs, rfl⟩ := List.mem_map.1 ht
  exact h s hs

theorem Spares.idxOf (h : Spares n steps) (hs : n ∈ s.step.names) : steps.idxOf s = steps.length :=
  List.idxOf_eq_length fun hmem => h s hmem hs

theorem Spares.idxOf_append (h : Spares n pre) (hs : n ∈ s.step.names) : (pre ++ post).idxOf s = pre.length + post.idxOf s :=
  List.idxOf_append_of_notMem fun hmem => h s hmem hs

theorem fate_absent (h : Spares n steps) (hs : n ∈ s.step.names) :
    Cut.Fate (steps.map DeployStep.step) n c (steps.idxOf s) (steps.idxOf (.remove n)) := by
  rw [h.idxOf hs, h.idxOf (show n ∈ (DeployStep.remove n).step.names from List.mem_singleton.2 rfl), ← List.length_map DeployStep.step]
  exact .absent h.map

theorem fate_kept (hs : s.step = .put n c) (hpre : Spares n pre) (hpost : Spares n post) :
    Cut.Fate ((pre ++ s :: post).map DeployStep.step) n c ((pre ++ s :: post).idxOf s) ((pre ++ s :: post).idxOf (.remove n)) := by
  have hremove : n ∈ (DeployStep.remove n).step.names := List.mem_singleton.2 rfl
  have hne : s ≠ .remove n := fun h => by
    rw [h] at hs
    cases hs
  have hdrop : (pre ++ s :: post).idxOf (.remove n) = ((pre ++ s :: post).map DeployStep.step).length := by
    rw [hpre.idxOf_append hremove, List.idxOf_cons_ne _ hne, hpost.idxOf hremove]
    simp
  have hput : (pre ++ s :: post).idxOf s = (pre.map DeployStep.step).length := by
    rw [hpre.idxOf_append (by rw [hs]; exact List.mem_singleton.2 rfl), List.idxOf_cons_self, Nat.add_zero, List.length_map]
  rw [hdrop, hput]
  exact .kept _ _ (by rw [List.map_append, List.map_cons, hs]) hpre.map hpost.map

theorem fate_dropped (hs : s.step = .put n c) (hpre : Spares n pre) (hmid : Spares n mid) (hpost : Spares n post) :
    Cut.Fate ((pre ++ s :: (mid ++ .remove n :: post)).map DeployStep.step) n c ((pre ++ s :: (mid ++ .remove n :: post)).idxOf s)
      ((pre ++ s :: (mid ++ .remove n :: post)).idxOf (.remove n)) := by
  have hremove : n ∈ (DeployStep.remove n).step.names := List.mem_singleton.2 rfl
  have hne : s ≠ .remove n := fun h => by
    rw [h] at hs
    cases hs
  have hdrop : (pre ++ s :: (mid ++ .remove n :: post)).idxOf (.remove n) =
      (pre.map DeployStep.step).length + 1 + (mid.map DeployStep.step).length := by
    rw [hpre.idxOf_append hremove, List.idxOf_cons_ne _ hne, hmid.idxOf_append hremove, List.idxOf_cons_self, List.length_map, List.length_map]
    omega
  have hput : (pre ++ s :: (mid ++ .remove n :: post)).idxOf s = (pre.map DeployStep.step).length := by
    rw [hpre.idxOf_append (by rw [hs]; exact List.mem_singleton.2 rfl), List.idxOf_cons_self, Nat.add_zero, List.length_map]
  rw [hdrop, hput]
  refine .dropped _ _ _ ?_ hpre.map hmid.map hpost.map
  rw [List.map_append, List.map_cons, hs, List.map_append, List.map_cons]
  rfl

end

section
variable {pkcs12 : Str → Str → Str} {target : CertificateTarget} {full key fp n : Str}

@[simp] theorem spares_post : Spares n (postSteps target) := by
  unfold postSteps
  split
  · exact spares_cons.2 ⟨List.not_mem_nil, spares_nil⟩
  · exact spares_nil

@[simp] theorem spares_commands {α : Type} (f : α → Command) (l : List α) : Spares n (l.map fun a => DeployStep.command (f a)) := by
  intro s hs
  obtain ⟨a, -, rfl⟩ := List.mem_map.1 hs
  exact List.not_mem_nil

@[simp] theorem spares_ite {p : Prop} [Decidable p] {a b : List DeployStep} : Spares n (if p then a else b) ↔
    (p → Spares n a) ∧ (¬ p → Spares n b) := by
  split <;> simp_all

/-- Whether PEMs are written into the final directory, and whether they are removed again. -/
def CertificateTarget.writesPair (target : CertificateTarget) : Bool :=
  layoutInstallsPair target.layout || decide (target.layout = .pfx ∧ target.writeMode = .direct)

def CertificateTarget.removesPair (target : CertificateTarget) : Bool := decide (target.layout = .pfx ∧ target.writeMode = .direct)

/-- Steps that leave all the files of the certificate. -/
def SparesAll (target : CertificateTarget) (ss : List DeployStep) : Prop := ∀ n ∈ target.files, Spares n ss

/-- What is written in which order, in either mode. -/
structure Shape (pkcs12 : Str → Str → Str) (target : CertificateTarget) (full key fp : Str) where
  first : List DeployStep
  between : List DeployStep
  behind : List DeployStep
  afterCombined : List DeployStep
  middle : List DeployStep
  afterPfx : List DeployStep
  last : List DeployStep
  spares : ∀ ss ∈ [first, between, behind, afterCombined, middle, afterPfx, last], SparesAll target ss
  steps : deploySteps pkcs12 target full key fp = first ++
    ((if target.writesPair then writeStep target target.fullchain full :: (between ++ writeStep target target.privkey key :: behind) else []) ++
    ((if layoutInstallsCombined target.layout then writeStep target target.combined (buildCombinedPem key full) :: afterCombined else []) ++
    (middle ++
    ((if layoutInstallsPfx target.layout then pfxStep pkcs12 target full key :: afterPfx else []) ++
    ((if target.removesPair then [.remove target.fullchain, .remove target.privkey] else []) ++ last)))))

theorem exists_shape (pkcs12 : Str → Str → Str) (full key fp : Str) (hnames : target.Distinct) : Nonempty (Shape pkcs12 target full key fp) := by
  have hall : ∀ ss, (∀ n, n ≠ marker → Spares n ss) → SparesAll target ss :=
    fun ss h n hn => h n fun heq => (List.nodup_cons.1 hnames).1 (heq ▸ hn)
  cases hmode : target.writeMode with
  | direct =>
    refine ⟨⟨[.command .connect, .command .mkdir], [.command (.chmod target.fullchain)], [.command (.chmod target.privkey)],
      [.command (.chmod target.combined)], .write marker (fp ++ lit "\n") :: (if strip target.fileOwner ≠ [] ∧ target.layout ≠ .pfx then
      (layoutFilePayloads target full key).map fun f => .command (.chown f.1) else []),
      .command (.chmod target.pfx) :: (if strip target.fileOwner ≠ [] then [.command (.chown target.pfx)] else []),
      postSteps target ++ [.command .verify], ?_, ?_⟩⟩
    · intro ss hss
      refine hall ss fun n hn => ?_
      simp only [List.mem_cons, List.not_mem_nil, or_false] at hss
      rcases hss with rfl | rfl | rfl | rfl | rfl | rfl | rfl <;> simp [DeployStep.step, Cut.Step.names, hn]
    · unfold deploySteps directSteps writeStep pfxStep
      cases hlayout : target.layout <;>
        simp [hmode, hlayout, CertificateTarget.writesPair, CertificateTarget.removesPair, layoutInstallsPair, layoutInstallsCombined,
          layoutInstallsPfx, layoutFilePayloads, pfxSourcePems]
  | stageSudo =>
    refine ⟨⟨[.command .connect, .command .mkdir] ++ (layoutFilePayloads target full key).map (fun f => .command (.stageWrite f.1 f.2)) ++
      [.command .installDir], [], [], [], (if layoutInstallsPfx target.layout then
      (if target.layout = .pfx then (pfxSourcePems target full key).map fun f => .command (.stageWrite f.1 f.2) else []) ++
        [.command .exportStage] else []), [], postSteps target ++ [.mark (fp ++ lit "\n"), .command .verify], ?_, ?_⟩⟩
    · intro ss hss
      refine hall ss fun n hn => ?_
      simp only [List.mem_cons, List.not_mem_nil, or_false] at hss
      rcases hss with rfl | rfl | rfl | rfl | rfl | rfl | rfl <;> simp [DeployStep.step, Cut.Step.names, hn]
    · unfold deploySteps stageSteps writeStep pfxStep
      cases hlayout : target.layout <;>
        simp [hmode, hlayout, CertificateTarget.writesPair, CertificateTarget.removesPair, layoutInstallsPair, layoutInstallsCombined,
          layoutInstallsPfx, layoutFilePayloads, pfxSourcePems]

@[simp] theorem writeStep_step (target : CertificateTarget) (f c : Str) : (writeStep target f c).step = .put f c := by
  unfold writeStep
  cases target.writeMode <;> rfl

@[simp] theorem pfxStep_step (pkcs12 : Str → Str → Str) (target : CertificateTarget) (full key : Str) : (pfxStep pkcs12 target full key).step = .put target.pfx (pkcs12 full key) := by
  unfold pfxStep
  cases target.writeMode <;> rfl

theorem CertificateTarget.writesPair_of_removesPair (h : target.removesPair = true) : target.writesPair = true := by
  unfold writesPair
  unfold removesPair at h
  rw [h, Bool.or_true]

@[simp] theorem names_put (f c : Str) : (Cut.Step.put f c).names = [f] := rfl
@[simp] theorem names_remove (f : Str) : (DeployStep.remove f).step.names = [f] := rfl

theorem CertificateTarget.layout_of_writesPair (h : target.writesPair = true) : target.layout ≠ .combined := by
  intro heq
  simp [writesPair, heq, layoutInstallsPair] at h

theorem CertificateTarget.removesPair_of_not_writes (h : target.writesPair = false) : target.removesPair = false := by
  by_contra hremove
  rw [Bool.not_eq_false] at hremove
  rw [target.writesPair_of_removesPair hremove] at h
  cases h

theorem fullchain_mem (h : target.layout ≠ .combined) : target.fullchain ∈ target.files := by simp [CertificateTarget.files, h]
theorem privkey_mem (h : target.layout ≠ .combined) : target.privkey ∈ target.files := by simp [CertificateTarget.files, h]
theorem combined_mem (h : layoutInstallsCombined target.layout = true) : target.combined ∈ target.files := by simp [CertificateTarget.files, h]
theorem pfx_mem (h : layoutInstallsPfx target.layout = true) : target.pfx ∈ target.files := by simp [CertificateTarget.files, h]

/-- The names of a target, told apart. -/
theorem CertificateTarget.Distinct.ne (h : target.Distinct) :
    (target.layout ≠ .combined → target.fullchain ≠ target.privkey) ∧
    (target.layout ≠ .combined → layoutInstallsCombined target.layout = true →
      target.fullchain ≠ target.combined ∧ target.privkey ≠ target.combined) ∧
    (layoutInstallsPfx target.layout = true → target.fullchain ≠ target.pfx ∧ target.privkey ≠ target.pfx) ∧
    (layoutInstallsCombined target.layout = true → layoutInstallsPfx target.layout = true → target.combined ≠ target.pfx) := by
  have hfiles := (List.nodup_cons.1 h).2
  unfold CertificateTarget.files at hfiles
  cases hlayout : target.layout <;>
    simp_all [layoutInstallsCombined, layoutInstallsPfx]

theorem Shape.sparesAll (sh : Shape pkcs12 target full key fp) (h : n ∈ target.files) :
    Spares n sh.first ∧ Spares n sh.between ∧ Spares n sh.behind ∧ Spares n sh.afterCombined ∧ Spares n sh.middle ∧ Spares n sh.afterPfx ∧
      Spares n sh.last :=
  ⟨sh.spares _ (by simp) n h, sh.spares _ (by simp) n h, sh.spares _ (by simp) n h, sh.spares _ (by simp) n h, sh.spares _ (by simp) n h,
    sh.spares _ (by simp) n h, sh.spares _ (by simp) n h⟩

theorem fullchain_fate (hnames : target.Distinct) (hlayout : target.layout ≠ .combined) : Cut.Fate ((deploySteps pkcs12 target full key fp).map DeployStep.step) target.fullchain full
    (stepAt pkcs12 target full key fp (writeStep target target.fullchain full)) (stepAt pkcs12 target full key fp (.remove target.fullchain)) := by
  have hfk := hnames.ne.1 hlayout
  have hfc := fun h => (hnames.ne.2.1 hlayout h).1
  have hfp := fun h => (hnames.ne.2.2.1 h).1
  obtain ⟨sh⟩ := exists_shape pkcs12 full key fp hnames
  obtain ⟨h₁, h₂, h₃, h₄, h₅, h₆, h₇⟩ := sh.sparesAll (fullchain_mem hlayout)
  unfold stepAt
  rw [sh.steps]
  cases hpair : target.writesPair with
  | false =>
    rw [target.removesPair_of_not_writes hpair]
    refine fate_absent ?_ (by simp)
    simp +contextual [h₁, h₄, h₅, h₆, h₇, hfc, hfp]
  | true =>
    cases hremove : target.removesPair with
    | false =>
      simp only [if_true, List.cons_append]
      refine fate_kept (writeStep_step ..) h₁ ?_
      simp +contextual [h₂, h₃, h₄, h₅, h₆, h₇, hfk, hfc, hfp]
    | true =>
      have hmid : Spares target.fullchain (sh.between ++ writeStep target target.privkey key :: sh.behind ++
          (if layoutInstallsCombined target.layout then writeStep target target.combined (buildCombinedPem key full) :: sh.afterCombined else []) ++
          sh.middle ++ (if layoutInstallsPfx target.layout then pfxStep pkcs12 target full key :: sh.afterPfx else [])) := by
        simp +contextual [h₂, h₃, h₄, h₅, h₆, hfk, hfc, hfp]
      have hlast : Spares target.fullchain (.remove target.privkey :: sh.last) := by simp [h₇, hfk]
      have hfate := fate_dropped (writeStep_step target target.fullchain full) h₁ hmid hlast
      simpa only [if_true, List.nil_append, List.append_assoc, List.cons_append] using hfate

theorem privkey_fate (hnames : target.Distinct) (hlayout : target.layout ≠ .combined) : Cut.Fate ((deploySteps pkcs12 target full key fp).map DeployStep.step) target.privkey key
    (stepAt pkcs12 target full key fp (writeStep target target.privkey key)) (stepAt pkcs12 target full key fp (.remove target.privkey)) := by
  have hfk := hnames.ne.1 hlayout
  have hkc := fun h => (hnames.ne.2.1 hlayout h).2
  have hkp := fun h => (hnames.ne.2.2.1 h).2
  obtain ⟨sh⟩ := exists_shape pkcs12 full key fp hnames
  obtain ⟨h₁, h₂, h₃, h₄, h₅, h₆, h₇⟩ := sh.sparesAll (privkey_mem hlayout)
  unfold stepAt
  rw [sh.steps]
  cases hpair : target.writesPair with
  | false =>
    rw [target.removesPair_of_not_writes hpair]
    refine fate_absent ?_ (by simp)
    simp +contextual [h₁, h₄, h₅, h₆, h₇, hkc, hkp]
  | true =>
    have hfirst : Spares target.privkey (sh.first ++ writeStep target target.fullchain full :: sh.between) := by simp [h₁, h₂, hfk.symm]
    cases hremove : target.removesPair with
    | false =>
      have hrest : Spares target.privkey (sh.behind ++
          ((if layoutInstallsCombined target.layout then writeStep target target.combined (buildCombinedPem key full) :: sh.afterCombined else []) ++
          (sh.middle ++ ((if layoutInstallsPfx target.layout then pfxStep pkcs12 target full key :: sh.afterPfx else []) ++ sh.last)))) := by
        simp +contextual [h₃, h₄, h₅, h₆, h₇, hkc, hkp]
      have hfate := fate_kept (writeStep_step target target.privkey key) hfirst hrest
      simpa only [if_true, Bool.false_eq_true, if_false, List.nil_append, List.append_assoc, List.cons_append] using hfate
    | true =>
      have hmid : Spares target.privkey (sh.behind ++
          (if layoutInstallsCombined target.layout then writeStep target target.combined (buildCombinedPem key full) :: sh.afterCombined else []) ++
          sh.middle ++ (if layoutInstallsPfx target.layout then pfxStep pkcs12 target full key :: sh.afterPfx else []) ++
          [.remove target.fullchain]) := by
        simp +contextual [h₃, h₄, h₅, h₆, hfk.symm, hkc, hkp]
      have hfate := fate_dropped (writeStep_step target target.privkey key) hfirst hmid h₇
      simpa only [if_true, List.nil_append, List.append_assoc, List.cons_append] using hfate

theorem combined_fate (hnames : target.Distinct) (hcombined : layoutInstallsCombined target.layout = true) : Cut.Fate ((deploySteps pkcs12 target full key fp).map DeployStep.step) target.combined
    (buildCombinedPem key full) (stepAt pkcs12 target full key fp (writeStep target target.combined (buildCombinedPem key full)))
    (stepAt pkcs12 target full key fp (.remove target.combined)) := by
  have hne := fun h => hnames.ne.2.1 (target.layout_of_writesPair h) hcombined
  have hfc := fun h => (hne h).1.symm
  have hkc := fun h => (hne h).2.symm
  have hcp := hnames.ne.2.2.2 hcombined
  have hremove : target.removesPair = false := by
    by_contra h
    rw [Bool.not_eq_false, CertificateTarget.removesPair, decide_eq_true_iff] at h
    simp [h.1, layoutInstallsCombined] at hcombined
  obtain ⟨sh⟩ := exists_shape pkcs12 full key fp hnames
  obtain ⟨h₁, h₂, h₃, h₄, h₅, h₆, h₇⟩ := sh.sparesAll (combined_mem hcombined)
  unfold stepAt
  rw [sh.steps, hcombined, hremove]
  have hfirst : Spares target.combined (sh.first ++ if target.writesPair then
      writeStep target target.fullchain full :: (sh.between ++ writeStep target target.privkey key :: sh.behind) else []) := by
    simp +contextual [h₁, h₂, h₃, hfc, hkc]
  have hrest : Spares target.combined (sh.afterCombined ++ (sh.middle ++
      ((if layoutInstallsPfx target.layout then pfxStep pkcs12 target full key :: sh.afterPfx else []) ++ ([] ++ sh.last)))) := by
    simp +contextual [h₄, h₅, h₆, h₇, hcp]
  have hfate := fate_kept (writeStep_step target target.combined (buildCombinedPem key full)) hfirst hrest
  simpa only [if_true, Bool.false_eq_true, if_false, List.append_assoc, List.cons_append] using hfate

theorem pfx_fate (hnames : target.Distinct) (hpfx : layoutInstallsPfx target.layout = true) : Cut.Fate ((deploySteps pkcs12 target full key fp).map DeployStep.step) target.pfx
    (pkcs12 full key) (stepAt pkcs12 target full key fp (pfxStep pkcs12 target full key))
    (stepAt pkcs12 target full key fp (.remove target.pfx)) := by
  obtain ⟨hfp, hkp⟩ := hnames.ne.2.2.1 hpfx
  have hcp := fun h => (hnames.ne.2.2.2 h hpfx).symm
  obtain ⟨sh⟩ := exists_shape pkcs12 full key fp hnames
  obtain ⟨h₁, h₂, h₃, h₄, h₅, h₆, h₇⟩ := sh.sparesAll (pfx_mem hpfx)
  unfold stepAt
  rw [sh.steps, hpfx]
  have hfirst : Spares target.pfx (sh.first ++ ((if target.writesPair then
      writeStep target target.fullchain full :: (sh.between ++ writeStep target target.privkey key :: sh.behind) else []) ++
      ((if layoutInstallsCombined target.layout then writeStep target target.combined (buildCombinedPem key full) :: sh.afterCombined else []) ++
      sh.middle))) := by
    simp +contextual [h₁, h₂, h₃, h₄, h₅, hfp.symm, hkp.symm, hcp]
  have hrest : Spares target.pfx (sh.afterPfx ++
      ((if target.removesPair then [.remove target.fullchain, .remove target.privkey] else []) ++ sh.last)) := by
    simp [h₆, h₇, hfp.symm, hkp.symm]
  have hfate := fate_kept (pfxStep_step pkcs12 target full key) hfirst hrest
  simpa only [if_true, List.append_assoc, List.cons_append] using hfate

/-- Only PEMs are removed. -/
theorem remove_at_end (hnames : target.Distinct) (hmem : n ∈ target.files) (hn : target.removesPair = true → n ≠ target.fullchain ∧ n ≠ target.privkey) :
    stepAt pkcs12 target full key fp (.remove n) = (deploySteps pkcs12 target full key fp).length := by
  obtain ⟨sh⟩ := exists_shape pkcs12 full key fp hnames
  obtain ⟨h₁, h₂, h₃, h₄, h₅, h₆, h₇⟩ := sh.sparesAll hmem
  have hnot : ∀ ss, Spares n ss → DeployStep.remove n ∉ ss := fun ss h hmem => h _ hmem (List.mem_singleton.2 rfl)
  have hwrite : ∀ f c, DeployStep.remove n ≠ writeStep target f c := fun f c h => by
    have := congrArg DeployStep.step h
    rw [writeStep_step] at this
    cases this
  have hpfxStep : DeployStep.remove n ≠ pfxStep pkcs12 target full key := fun h => by
    have := congrArg DeployStep.step h
    rw [pfxStep_step] at this
    cases this
  refine List.idxOf_eq_length ?_
  rw [sh.steps]
  cases target.writesPair <;> cases hremove : target.removesPair <;> cases layoutInstallsCombined target.layout <;>
    cases layoutInstallsPfx target.layout <;>
      simp [hnot _ h₁, hnot _ h₂, hnot _ h₃, hnot _ h₄, hnot _ h₅, hnot _ h₆, hnot _ h₇, hwrite, hpfxStep, hn, hremove]

/-- Of two files that are written one behind the other, both are written before either is removed. -/
theorem order_of_writes {f k full key : Str} {first between : List DeployStep} (rest : List DeployStep) {s t : DeployStep} (hs : s.step = .put f full)
    (ht : t.step = .put k key) (hfk : f ≠ k) (hf : Spares f first ∧ Spares f between) (hk : Spares k first ∧ Spares k between) :
    (first ++ s :: (between ++ t :: rest)).idxOf s < (first ++ s :: (between ++ t :: rest)).idxOf t ∧
      (first ++ s :: (between ++ t :: rest)).idxOf t < (first ++ s :: (between ++ t :: rest)).length ∧
      (first ++ s :: (between ++ t :: rest)).idxOf t < (first ++ s :: (between ++ t :: rest)).idxOf (.remove f) ∧
      (first ++ s :: (between ++ t :: rest)).idxOf t < (first ++ s :: (between ++ t :: rest)).idxOf (.remove k) := by
  have hsf : f ∈ s.step.names := by rw [hs]; exact List.mem_singleton.2 rfl
  have htk : k ∈ t.step.names := by rw [ht]; exact List.mem_singleton.2 rfl
  have hremove : ∀ n, n ∈ (DeployStep.remove n).step.names := fun n => List.mem_singleton.2 rfl
  have hst : s ≠ t := fun h => by
    rw [h, ht] at hs
    injection hs with hn _
    exact hfk hn.symm
  have hsr : ∀ n, s ≠ .remove n := fun n h => by
    rw [h] at hs
    cases hs
  have htr : ∀ n, t ≠ .remove n := fun n h => by
    rw [h] at ht
    cases ht
  rw [hf.1.idxOf_append hsf, List.idxOf_cons_self, hk.1.idxOf_append htk, List.idxOf_cons_ne _ hst, hk.2.idxOf_append htk,
    List.idxOf_cons_self, hf.1.idxOf_append (hremove f), List.idxOf_cons_ne _ (hsr f), hf.2.idxOf_append (hremove f),
    List.idxOf_cons_ne _ (htr f), hk.1.idxOf_append (hremove k), List.idxOf_cons_ne _ (hsr k), hk.2.idxOf_append (hremove k),
    List.idxOf_cons_ne _ (htr k)]
  simp only [List.length_append, List.length_cons]
  omega

/-- The chain is written before the key, and both are before either is removed. -/
theorem pair_order (hnames : target.Distinct) (hlayout : target.layout ≠ .combined) :
    (stepAt pkcs12 target full key fp (writeStep target target.fullchain full) = (deploySteps pkcs12 target full key fp).length ∧
      stepAt pkcs12 target full key fp (writeStep target target.privkey key) = (deploySteps pkcs12 target full key fp).length) ∨
    (stepAt pkcs12 target full key fp (writeStep target target.fullchain full) < stepAt pkcs12 target full key fp (writeStep target target.privkey key) ∧
      stepAt pkcs12 target full key fp (writeStep target target.privkey key) < (deploySteps pkcs12 target full key fp).length ∧
      stepAt pkcs12 target full key fp (writeStep target target.privkey key) < stepAt pkcs12 target full key fp (.remove target.fullchain) ∧
      stepAt pkcs12 target full key fp (writeStep target target.privkey key) < stepAt pkcs12 target full key fp (.remove target.privkey)) := by
  have hfk := hnames.ne.1 hlayout
  have hfc := fun h => (hnames.ne.2.1 hlayout h).1
  have hkc := fun h => (hnames.ne.2.1 hlayout h).2
  have hfp := fun h => (hnames.ne.2.2.1 h).1
  have hkp := fun h => (hnames.ne.2.2.1 h).2
  obtain ⟨sh⟩ := exists_shape pkcs12 full key fp hnames
  obtain ⟨h₁, h₂, h₃, h₄, h₅, h₆, h₇⟩ := sh.sparesAll (fullchain_mem hlayout)
  obtain ⟨k₁, k₂, k₃, k₄, k₅, k₆, k₇⟩ := sh.sparesAll (privkey_mem hlayout)
  unfold stepAt
  rw [sh.steps]
  cases hpair : target.writesPair with
  | false =>
    rw [target.removesPair_of_not_writes hpair]
    refine Or.inl ⟨Spares.idxOf (n := target.fullchain) ?_ (by simp), Spares.idxOf (n := target.privkey) ?_ (by simp)⟩
    · simp +contextual [h₁, h₄, h₅, h₆, h₇, hfc, hfp]
    · simp +contextual [k₁, k₄, k₅, k₆, k₇, hkc, hkp]
  | true =>
    have horder := order_of_writes (sh.behind ++
      ((if layoutInstallsCombined target.layout then writeStep target target.combined (buildCombinedPem key full) :: sh.afterCombined else []) ++
      (sh.middle ++ ((if layoutInstallsPfx target.layout then pfxStep pkcs12 target full key :: sh.afterPfx else []) ++
      ((if target.removesPair then [.remove target.fullchain, .remove target.privkey] else []) ++ sh.last)))))
      (writeStep_step target target.fullchain full) (writeStep_step target target.privkey key) hfk ⟨h₁, h₂⟩ ⟨k₁, k₂⟩
    refine Or.inr ?_
    simpa only [if_true, List.append_assoc, List.cons_append] using horder

/-- Only the PEMs of a pfx are removed, and no step moves a file away. -/
theorem removed_pem {s : DeployStep} (hs : s ∈ deploySteps pkcs12 target full key fp) (hn : n ≠ target.fullchain ∧ n ≠ target.privkey) :
    s.step ≠ .drop n ∧ ∀ m x, s.step ≠ .move n m x := by
  cases s with
  | remove f =>
    refine ⟨?_, nofun⟩
    rintro heq
    injection heq with heq
    subst heq
    unfold deploySteps directSteps stageSteps postSteps at hs
    cases hmode : target.writeMode <;> rw [hmode] at hs <;> split_ifs at hs <;>
      simp [pfxSourcePems, hn.1, hn.2] at hs
  | command _ => exact ⟨nofun, nofun⟩
  | write f c => exact ⟨nofun, nofun⟩
  | install f c => exact ⟨nofun, nofun⟩
  | exportPfx f c => exact ⟨nofun, nofun⟩
  | mark c => exact ⟨nofun, nofun⟩

end

/-! ## The pair that is left -/

section
variable (pkcs12 : Str → Str → Str) (target : CertificateTarget) (full key fp : Str) (answers : Nat → Cut.Answer Str) (host : Str → Option Str)

/-- A chain and a key that are both there are the host's two, or the new two. -/
def SamePair (full key : Str) (hostChain hostKey chain keyFile : Option Str) : Prop :=
  chain ≠ none → keyFile ≠ none → (chain = hostChain ∧ keyFile = hostKey) ∨ (chain = some full ∧ keyFile = some key)

/-- What a deploy that fails is to leave behind. -/
structure LeavesPair (after : Str → Option Str) : Prop where
  pair : target.layout ≠ .combined →
    SamePair full key (host target.fullchain) (host target.privkey) (after target.fullchain) (after target.privkey)
  combined : layoutInstallsCombined target.layout = true →
    after target.combined = host target.combined ∨ after target.combined = some (buildCombinedPem key full)
  pfx : layoutInstallsPfx target.layout = true → after target.pfx = host target.pfx ∨ after target.pfx = some (pkcs12 full key)
  noKey : target.layout = .pfx → host target.privkey = none → after target.privkey = none
  kept : target.layout = .pfx → ∀ n, host n ≠ none → after n ≠ none

/-- A write that leaves what was there. -/
def Harmless (written old : Option Str) : Prop := written = none ∨ written = old

def fullchainAt : Nat := stepAt pkcs12 target full key fp (writeStep target target.fullchain full)
def privkeyAt : Nat := stepAt pkcs12 target full key fp (writeStep target target.privkey key)
def combinedAt : Nat := stepAt pkcs12 target full key fp (writeStep target target.combined (buildCombinedPem key full))
def pfxAt : Nat := stepAt pkcs12 target full key fp (pfxStep pkcs12 target full key)
def removedAt (n : Str) : Nat := stepAt pkcs12 target full key fp (.remove n)

/-- A chain that is written at `c` and a key that is written at `k`, of a deploy that stops at `m`: it stops outside of the two, or there is no
key, or both are as they were, or both are the new ones. -/
def CalmPair (c k m len : Nat) (hostChain hostKey wroteChain wroteKey : Option Str) (full key : Str) : Prop :=
  m < c ∨ c = len ∨ k < m ∨ (hostKey = none ∧ (m < k ∨ wroteKey = none)) ∨
    ((m = c ∧ Harmless wroteChain hostChain ∨ c < m ∧ hostChain = some full) ∧ (m < k ∨ Harmless wroteKey hostKey)) ∨
    ((c < m ∨ wroteChain = some full) ∧
      (m < k ∧ hostKey = some key ∨ m = k ∧ (wroteKey = some key ∨ wroteKey = none ∧ hostKey = some key)))

/-- A file that is there has been removed. -/
def Removed (n : Str) : Prop :=
  removedAt pkcs12 target full key fp n < (deploySteps pkcs12 target full key fp).length ∧
    removedAt pkcs12 target full key fp n ≤ deployPassed pkcs12 target full key fp answers ∧
    (answers (removedAt pkcs12 target full key fp n)).done = true

instance (n : Str) : Decidable (Removed pkcs12 target full key fp answers n) := inferInstanceAs (Decidable (_ ∧ _ ∧ _))

/-- Where a deploy may stop. -/
structure Calm : Prop where
  pair : target.layout ≠ .combined →
    CalmPair (fullchainAt pkcs12 target full key fp) (privkeyAt pkcs12 target full key fp) (deployPassed pkcs12 target full key fp answers)
      (deploySteps pkcs12 target full key fp).length (host target.fullchain) (host target.privkey)
      ((answers (fullchainAt pkcs12 target full key fp)).wrote full) ((answers (privkeyAt pkcs12 target full key fp)).wrote key) full key
  combined : layoutInstallsCombined target.layout = true →
    deployPassed pkcs12 target full key fp answers = combinedAt pkcs12 target full key fp →
    Harmless ((answers (combinedAt pkcs12 target full key fp)).wrote (buildCombinedPem key full)) (host target.combined) ∨
      (answers (combinedAt pkcs12 target full key fp)).wrote (buildCombinedPem key full) = some (buildCombinedPem key full)
  pfx : layoutInstallsPfx target.layout = true → deployPassed pkcs12 target full key fp answers = pfxAt pkcs12 target full key fp →
    Harmless ((answers (pfxAt pkcs12 target full key fp)).wrote (pkcs12 full key)) (host target.pfx) ∨
      (answers (pfxAt pkcs12 target full key fp)).wrote (pkcs12 full key) = some (pkcs12 full key)
  noKey : target.layout = .pfx → host target.privkey = none →
    deployPassed pkcs12 target full key fp answers < privkeyAt pkcs12 target full key fp ∨
      privkeyAt pkcs12 target full key fp = (deploySteps pkcs12 target full key fp).length ∨
      (deployPassed pkcs12 target full key fp answers = privkeyAt pkcs12 target full key fp ∧
        (answers (privkeyAt pkcs12 target full key fp)).wrote key = none) ∨
      Removed pkcs12 target full key fp answers target.privkey
  kept : target.layout = .pfx → ∀ n ∈ [target.fullchain, target.privkey], host n ≠ none → ¬ Removed pkcs12 target full key fp answers n

end

section
variable {pkcs12 : Str → Str → Str} {target : CertificateTarget} {full key fp n c : Str} {answers : Nat → Cut.Answer Str}
  {host : Str → Option Str}

/-- What a deploy leaves under a name. -/
theorem deployTarget_fate {p : Nat} (h : Cut.Fate ((deploySteps pkcs12 target full key fp).map DeployStep.step) n c p
    (removedAt pkcs12 target full key fp n)) : deployTarget pkcs12 target full key fp answers host n =
    if deployPassed pkcs12 target full key fp answers < p ∨ p = (deploySteps pkcs12 target full key fp).length then host n
    else if deployPassed pkcs12 target full key fp answers = p then ((answers p).wrote c).or (host n)
    else if Removed pkcs12 target full key fp answers n then none else some c := by
  have hrun := @Cut.run_fate _ _ _ answers n c host _ p _ h
  rw [List.length_map] at hrun
  unfold Removed
  exact hrun

theorem deployPassed_le : deployPassed pkcs12 target full key fp answers ≤ (deploySteps pkcs12 target full key fp).length := by
  have h := @Cut.passed_le _ _ answers ((deploySteps pkcs12 target full key fp).map DeployStep.step) 0
  rwa [List.length_map] at h

/-- A file that is written once is the host's or the new one. -/
theorem written_iff {w old : Option Str} {new : Str} : (w.or old = old ∨ w.or old = some new) ↔ (Harmless w old ∨ w = some new) := by
  unfold Harmless
  cases w with
  | none => simp
  | some x => simp

/-- What is left of the pair, by where the deploy stops: the key is written behind the chain, and either is removed behind both. -/
theorem samePair_iff {p k m len : Nat} {hostChain hostKey wroteChain wroteKey chain keyFile : Option Str} (goneChain goneKey : Prop)
    [Decidable goneChain] [Decidable goneKey] (horder : p = len ∧ k = len ∨ p < k ∧ k < len) (hm : m ≤ len)
    (hgoneChain : goneChain → k < m) (hgoneKey : goneKey → k < m)
    (hchain : chain = if m < p ∨ p = len then hostChain else if m = p then wroteChain.or hostChain else if goneChain then none else some full)
    (hkey : keyFile = if m < k ∨ k = len then hostKey else if m = k then wroteKey.or hostKey else if goneKey then none else some key) :
    SamePair full key hostChain hostKey chain keyFile ↔ CalmPair p k m len hostChain hostKey wroteChain wroteKey full key := by
  unfold SamePair CalmPair
  obtain ⟨rfl, rfl⟩ | ⟨hpk, hk⟩ := horder
  · rw [if_pos (Or.inr rfl)] at hchain hkey
    exact ⟨fun _ => Or.inr (Or.inl rfl), fun _ _ _ => Or.inl ⟨hchain, hkey⟩⟩
  · have hpl : p ≠ len := by omega
    have hkl : k ≠ len := by omega
    obtain hlt | rfl | hgt := Nat.lt_trichotomy m p
    · -- nothing is written
      rw [if_pos (Or.inl hlt)] at hchain
      rw [if_pos (Or.inl (Nat.lt_trans hlt hpk))] at hkey
      exact ⟨fun _ => Or.inl hlt, fun _ _ _ => Or.inl ⟨hchain, hkey⟩⟩
    · -- the chain's write fails
      rw [if_neg (by omega), if_pos rfl] at hchain
      rw [if_pos (Or.inl hpk)] at hkey
      rw [hchain, hkey]
      unfold Harmless
      cases wroteChain <;> cases hostKey <;> cases hostChain <;> simp [hpk, hpl, Nat.lt_asymm hpk, Nat.ne_of_lt hpk]
    · rw [if_neg (by omega), if_neg (by omega)] at hchain
      obtain hlt | rfl | hover := Nat.lt_trichotomy m k
      · -- the chain is the new one
        rw [if_neg fun h => Nat.lt_asymm hlt (hgoneChain h)] at hchain
        rw [if_pos (Or.inl hlt)] at hkey
        rw [hchain, hkey]
        cases hostKey <;> cases hostChain <;> simp [hpl, hlt, hgt, Nat.lt_asymm hlt, Nat.lt_asymm hgt, Nat.ne_of_gt hgt, Nat.ne_of_lt hlt, eq_comm]
      · -- the key's write fails
        rw [if_neg fun h => Nat.lt_irrefl _ (hgoneChain h)] at hchain
        rw [if_neg (by omega), if_pos rfl] at hkey
        rw [hchain, hkey]
        unfold Harmless
        cases wroteKey <;> cases hostKey <;> cases hostChain <;> simp [hpl, hgt, Nat.lt_asymm hgt, Nat.ne_of_gt hgt, eq_comm]
      · -- both are written
        rw [if_neg (by omega), if_neg (by omega)] at hkey
        refine ⟨fun _ => Or.inr (Or.inr (Or.inl hover)), fun _ hc hk => Or.inr ⟨?_, ?_⟩⟩
        · rw [hchain] at hc ⊢
          split at hc
          · exact absurd rfl hc
          · exact if_neg ‹_›
        · rw [hkey] at hk ⊢
          split at hk
          · exact absurd rfl hk
          · exact if_neg ‹_›

/-- A combined file or a pfx is written once. -/
theorem written_once_iff {p : Nat} {new : Str} (h : Cut.Fate ((deploySteps pkcs12 target full key fp).map DeployStep.step) n new p
    (removedAt pkcs12 target full key fp n)) (hp : p < (deploySteps pkcs12 target full key fp).length)
    (hremove : removedAt pkcs12 target full key fp n = (deploySteps pkcs12 target full key fp).length) :
    (deployTarget pkcs12 target full key fp answers host n = host n ∨ deployTarget pkcs12 target full key fp answers host n = some new) ↔
      (deployPassed pkcs12 target full key fp answers = p → Harmless ((answers p).wrote new) (host n) ∨ (answers p).wrote new = some new) := by
  have hgone : ¬ Removed pkcs12 target full key fp answers n := fun hremoved => by
    unfold Removed at hremoved
    omega
  rw [deployTarget_fate h, if_neg hgone]
  obtain hlt | heq | hgt := Nat.lt_trichotomy (deployPassed pkcs12 target full key fp answers) p
  · rw [if_pos (Or.inl hlt)]
    exact ⟨fun _ heq => absurd heq (Nat.ne_of_lt hlt), fun _ => Or.inl rfl⟩
  · rw [if_neg (by omega), if_pos heq, written_iff]
    exact ⟨fun h _ => h, fun h => h heq⟩
  · rw [if_neg (by omega), if_neg (by omega)]
    exact ⟨fun _ heq => absurd heq (Nat.ne_of_gt hgt), fun _ => Or.inr rfl⟩

theorem combinedAt_lt (hnames : target.Distinct) (h : layoutInstallsCombined target.layout = true) :
    combinedAt pkcs12 target full key fp < (deploySteps pkcs12 target full key fp).length := by
  obtain ⟨sh⟩ := exists_shape pkcs12 full key fp hnames
  refine List.idxOf_lt_length_of_mem ?_
  rw [sh.steps, h]
  simp

theorem pfxAt_lt (hnames : target.Distinct) (h : layoutInstallsPfx target.layout = true) :
    pfxAt pkcs12 target full key fp < (deploySteps pkcs12 target full key fp).length := by
  obtain ⟨sh⟩ := exists_shape pkcs12 full key fp hnames
  refine List.idxOf_lt_length_of_mem ?_
  rw [sh.steps, h]
  simp

theorem combined_iff (hnames : target.Distinct) (h : layoutInstallsCombined target.layout = true) :
    (deployTarget pkcs12 target full key fp answers host target.combined = host target.combined ∨
      deployTarget pkcs12 target full key fp answers host target.combined = some (buildCombinedPem key full)) ↔
      (deployPassed pkcs12 target full key fp answers = combinedAt pkcs12 target full key fp →
        Harmless ((answers (combinedAt pkcs12 target full key fp)).wrote (buildCombinedPem key full)) (host target.combined) ∨
          (answers (combinedAt pkcs12 target full key fp)).wrote (buildCombinedPem key full) = some (buildCombinedPem key full)) := by
  refine written_once_iff (combined_fate hnames h) (combinedAt_lt hnames h) (remove_at_end hnames (combined_mem h) fun hremove => ?_)
  rw [CertificateTarget.removesPair, decide_eq_true_iff] at hremove
  simp [hremove.1, layoutInstallsCombined] at h

theorem pfx_iff (hnames : target.Distinct) (h : layoutInstallsPfx target.layout = true) :
    (deployTarget pkcs12 target full key fp answers host target.pfx = host target.pfx ∨
      deployTarget pkcs12 target full key fp answers host target.pfx = some (pkcs12 full key)) ↔
      (deployPassed pkcs12 target full key fp answers = pfxAt pkcs12 target full key fp →
        Harmless ((answers (pfxAt pkcs12 target full key fp)).wrote (pkcs12 full key)) (host target.pfx) ∨
          (answers (pfxAt pkcs12 target full key fp)).wrote (pkcs12 full key) = some (pkcs12 full key)) :=
  written_once_iff (pfx_fate hnames h) (pfxAt_lt hnames h)
    (remove_at_end hnames (pfx_mem h) fun _ => ⟨(hnames.ne.2.2.1 h).1.symm, (hnames.ne.2.2.1 h).2.symm⟩)

/-- A PEM is removed behind the write of both. -/
theorem removed_behind (hnames : target.Distinct) (hlayout : target.layout ≠ .combined) (hn : n ∈ [target.fullchain, target.privkey])
    (h : Removed pkcs12 target full key fp answers n) : fullchainAt pkcs12 target full key fp < deployPassed pkcs12 target full key fp answers ∧
      privkeyAt pkcs12 target full key fp < deployPassed pkcs12 target full key fp answers := by
  obtain ⟨hlt, hle, -⟩ := h
  have habsent : removedAt pkcs12 target full key fp n ≠ ((deploySteps pkcs12 target full key fp).map DeployStep.step).length := by
    rw [List.length_map]
    exact Nat.ne_of_lt hlt
  simp only [List.mem_cons, List.not_mem_nil, or_false] at hn
  obtain ⟨hfullchain, hprivkey⟩ | ⟨hfk, -, hf, hk⟩ :=
    @pair_order pkcs12 target full key fp hnames hlayout
  · rw [← List.length_map DeployStep.step] at hfullchain hprivkey
    rcases hn with rfl | rfl
    · exact absurd ((fullchain_fate hnames hlayout).absent_drop hfullchain) habsent
    · exact absurd ((privkey_fate hnames hlayout).absent_drop hprivkey) habsent
  · have hprivkey : privkeyAt pkcs12 target full key fp < deployPassed pkcs12 target full key fp answers := by
      rcases hn with rfl | rfl
      · exact Nat.lt_of_lt_of_le hf hle
      · exact Nat.lt_of_lt_of_le hk hle
    exact ⟨Nat.lt_trans hfk hprivkey, hprivkey⟩

theorem pair_iff (hnames : target.Distinct) (hlayout : target.layout ≠ .combined) :
    SamePair full key (host target.fullchain) (host target.privkey) (deployTarget pkcs12 target full key fp answers host target.fullchain)
        (deployTarget pkcs12 target full key fp answers host target.privkey) ↔
      CalmPair (fullchainAt pkcs12 target full key fp) (privkeyAt pkcs12 target full key fp) (deployPassed pkcs12 target full key fp answers)
        (deploySteps pkcs12 target full key fp).length (host target.fullchain) (host target.privkey)
        ((answers (fullchainAt pkcs12 target full key fp)).wrote full) ((answers (privkeyAt pkcs12 target full key fp)).wrote key) full key := by
  have horder := @pair_order pkcs12 target full key fp hnames hlayout
  refine samePair_iff (Removed pkcs12 target full key fp answers target.fullchain)
    (Removed pkcs12 target full key fp answers target.privkey) ?_ deployPassed_le ?_ ?_
    (deployTarget_fate (fullchain_fate hnames hlayout)) (deployTarget_fate (privkey_fate hnames hlayout))
  · exact horder.imp id fun h => ⟨h.1, h.2.1⟩
  · exact fun h => (removed_behind hnames hlayout (by simp) h).2
  · exact fun h => (removed_behind hnames hlayout (by simp) h).2

/-- Whether a key that was not there stays. -/
theorem noKey_iff (hnames : target.Distinct) (hlayout : target.layout ≠ .combined) (hhost : host target.privkey = none) :
    deployTarget pkcs12 target full key fp answers host target.privkey = none ↔
      (deployPassed pkcs12 target full key fp answers < privkeyAt pkcs12 target full key fp ∨
        privkeyAt pkcs12 target full key fp = (deploySteps pkcs12 target full key fp).length ∨
        (deployPassed pkcs12 target full key fp answers = privkeyAt pkcs12 target full key fp ∧
          (answers (privkeyAt pkcs12 target full key fp)).wrote key = none) ∨
        Removed pkcs12 target full key fp answers target.privkey) := by
  have hbehind := fun h => (@removed_behind pkcs12 target full key fp target.privkey answers hnames hlayout (by simp) h).2
  have hfate := @privkey_fate pkcs12 target full key fp hnames hlayout
  change Cut.Fate _ _ _ (privkeyAt pkcs12 target full key fp) (removedAt pkcs12 target full key fp target.privkey) at hfate
  rw [deployTarget_fate hfate, hhost]
  by_cases hbefore : deployPassed pkcs12 target full key fp answers < privkeyAt pkcs12 target full key fp ∨
      privkeyAt pkcs12 target full key fp = (deploySteps pkcs12 target full key fp).length
  · rw [if_pos hbefore]
    exact ⟨fun _ => hbefore.imp id Or.inl, fun _ => rfl⟩
  · rw [if_neg hbefore, Option.or_none]
    rw [not_or] at hbefore
    by_cases hat : deployPassed pkcs12 target full key fp answers = privkeyAt pkcs12 target full key fp
    · rw [if_pos hat]
      refine ⟨fun h => Or.inr (Or.inr (Or.inl ⟨hat, h⟩)), ?_⟩
      rintro (h | h | ⟨-, h⟩ | h)
      · exact absurd h hbefore.1
      · exact absurd h hbefore.2
      · exact h
      · exact absurd hat (Nat.ne_of_gt (hbehind h))
    · rw [if_neg hat]
      constructor
      · intro h
        split at h
        · exact Or.inr (Or.inr (Or.inr ‹_›))
        · cases h
      · rintro (h | h | ⟨h, -⟩ | h)
        · exact absurd h hbefore.1
        · exact absurd h hbefore.2
        · exact absurd h hat
        · exact if_pos h

/-- What was there stays, where it is not removed. -/
theorem kept_iff {p : Nat} (h : Cut.Fate ((deploySteps pkcs12 target full key fp).map DeployStep.step) n c p
    (removedAt pkcs12 target full key fp n)) (hbehind : Removed pkcs12 target full key fp answers n →
      p < deployPassed pkcs12 target full key fp answers) (hhost : host n ≠ none) :
    deployTarget pkcs12 target full key fp answers host n ≠ none ↔ ¬ Removed pkcs12 target full key fp answers n := by
  rw [deployTarget_fate h]
  constructor
  · intro hne hremoved
    have hlt := hbehind hremoved
    have hend : p ≠ (deploySteps pkcs12 target full key fp).length := fun heq => by
      have := @deployPassed_le pkcs12 target full key fp answers
      omega
    rw [if_neg (by omega), if_neg (by omega), if_pos hremoved] at hne
    exact hne rfl
  · intro hremoved
    rw [if_neg hremoved]
    split
    · exact hhost
    · split
      · cases (answers p).wrote c with
        | none => exact hhost
        | some x => exact Option.some_ne_none x
      · exact Option.some_ne_none c

/-- No other file is removed. -/
theorem other_kept (hn : n ≠ target.fullchain ∧ n ≠ target.privkey) (hhost : host n ≠ none) :
    deployTarget pkcs12 target full key fp answers host n ≠ none := by
  refine Cut.run_present ?_ hhost
  intro s hs
  obtain ⟨t, ht, rfl⟩ := List.mem_map.1 hs
  exact removed_pem ht hn

end

/-! ## The edge's own pair -/

def edgeFullchain : Str := lit "fullchain.pem"
def edgePrivkey : Str := lit "privkey.pem"

def edgeSteps (full key fp : Str) : List (Cut.Step Str Str) :=
  [.put (edgeFullchain ++ lit ".tmp") (rstripWhere isSpace full ++ lit "\n"), .pass,
    .move (edgeFullchain ++ lit ".tmp") edgeFullchain (rstripWhere isSpace full ++ lit "\n"),
    .put (edgePrivkey ++ lit ".tmp") (rstripWhere isSpace key ++ lit "\n"), .pass,
    .move (edgePrivkey ++ lit ".tmp") edgePrivkey (rstripWhere isSpace key ++ lit "\n"),
    .put marker (fp ++ lit "\n")]

theorem edge_names (steps : List (Cut.Step Str Str)) (names : List Str) (n : Str) (h : steps.flatMap Cut.Step.names = names) (hn : n ∉ names) :
    ∀ s ∈ steps, n ∉ s.names :=
  fun s hs hmem => hn (h ▸ List.mem_flatMap.2 ⟨s, hs, hmem⟩)

section
variable (full key fp : Str) (answers : Nat → Cut.Answer Str) (host : Str → Option Str)

def deployToEdgeCaddy : Str → Option Str := Cut.run answers 0 (edgeSteps full key fp) host

def edgePassed : Nat := Cut.passed answers 0 (edgeSteps full key fp)

/-- The edge's deploy stops before the chain is moved in, or behind the key's, or half a pair is a whole one. -/
def EdgeCalm : Prop :=
  edgePassed full key fp answers ≤ 2 ∨ 5 < edgePassed full key fp answers ∨ host edgePrivkey = none ∨
    host edgeFullchain = some (rstripWhere isSpace full ++ lit "\n") ∨ host edgePrivkey = some (rstripWhere isSpace key ++ lit "\n")

theorem edge_fullchain : deployToEdgeCaddy full key fp answers host edgeFullchain =
    if edgePassed full key fp answers ≤ 2 then host edgeFullchain else some (rstripWhere isSpace full ++ lit "\n") :=
  @Cut.run_move _ _ _ answers _ _ host ((edgeSteps full key fp).take 2) ((edgeSteps full key fp).drop 3) _
    (edge_names _ [edgeFullchain ++ lit ".tmp"] _ rfl (by decide))
    (edge_names _ [edgePrivkey ++ lit ".tmp", edgePrivkey ++ lit ".tmp", edgePrivkey, marker] _ rfl (by decide))

theorem edge_privkey : deployToEdgeCaddy full key fp answers host edgePrivkey =
    if edgePassed full key fp answers ≤ 5 then host edgePrivkey else some (rstripWhere isSpace key ++ lit "\n") :=
  @Cut.run_move _ _ _ answers _ _ host ((edgeSteps full key fp).take 5) ((edgeSteps full key fp).drop 6) _
    (edge_names _ [edgeFullchain ++ lit ".tmp", edgeFullchain ++ lit ".tmp", edgeFullchain, edgePrivkey ++ lit ".tmp"] _ rfl (by decide))
    (edge_names _ [marker] _ rfl (by decide))

theorem edge_iff : SamePair (rstripWhere isSpace full ++ lit "\n") (rstripWhere isSpace key ++ lit "\n") (host edgeFullchain) (host edgePrivkey)
    (deployToEdgeCaddy full key fp answers host edgeFullchain) (deployToEdgeCaddy full key fp answers host edgePrivkey) ↔
      EdgeCalm full key fp answers host := by
  unfold EdgeCalm
  rw [edge_fullchain, edge_privkey]
  generalize rstripWhere isSpace full ++ lit "\n" = chain
  generalize rstripWhere isSpace key ++ lit "\n" = keyFile
  unfold SamePair
  obtain hle | hgt := Nat.lt_or_ge 2 (edgePassed full key fp answers)
  · rw [if_neg (Nat.not_le.2 hle)]
    by_cases hlast : edgePassed full key fp answers ≤ 5
    · rw [if_pos hlast]
      cases host edgePrivkey <;> simp [Nat.not_le.2 hle, Nat.not_lt.2 hlast, eq_comm]
    · rw [if_neg hlast]
      exact ⟨fun _ => Or.inr (Or.inl (Nat.not_le.1 hlast)), fun _ _ _ => Or.inr ⟨rfl, rfl⟩⟩
  · rw [if_pos hgt, if_pos (by omega)]
    exact ⟨fun _ => Or.inl hgt, fun _ _ _ => Or.inl ⟨rfl, rfl⟩⟩

end

/-! ## What a failure leaves -/

/-- A deploy leaves a matching pair, no key and every file of the host exactly where it stops calmly. -/
theorem deploy_leaves_pair_iff (pkcs12 : Str → Str → Str) (target : CertificateTarget) (full key fp : Str) (answers : Nat → Cut.Answer Str)
    (host : Str → Option Str) (hnames : target.Distinct) :
    (LeavesPair pkcs12 target full key host (deployTarget pkcs12 target full key fp answers host) ↔
      Calm pkcs12 target full key fp answers host) ∧
    (SamePair (rstripWhere isSpace full ++ lit "\n") (rstripWhere isSpace key ++ lit "\n") (host edgeFullchain) (host edgePrivkey)
        (deployToEdgeCaddy full key fp answers host edgeFullchain) (deployToEdgeCaddy full key fp answers host edgePrivkey) ↔
      EdgeCalm full key fp answers host) := by
  refine ⟨?_, edge_iff full key fp answers host⟩
  have hlayout : target.layout = .pfx → target.layout ≠ .combined := fun h heq => by
    rw [h] at heq
    cases heq
  have hfullchain : target.layout = .pfx → host target.fullchain ≠ none →
      (deployTarget pkcs12 target full key fp answers host target.fullchain ≠ none ↔ ¬ Removed pkcs12 target full key fp answers target.fullchain) :=
    fun h => kept_iff (fullchain_fate hnames (hlayout h)) fun hr => (removed_behind hnames (hlayout h) (by simp) hr).1
  have hprivkey : target.layout = .pfx → host target.privkey ≠ none →
      (deployTarget pkcs12 target full key fp answers host target.privkey ≠ none ↔ ¬ Removed pkcs12 target full key fp answers target.privkey) :=
    fun h => kept_iff (privkey_fate hnames (hlayout h)) fun hr => (removed_behind hnames (hlayout h) (by simp) hr).2
  constructor
  · intro h
    refine ⟨fun hl => (pair_iff hnames hl).1 (h.pair hl), fun hc => (combined_iff hnames hc).1 (h.combined hc),
      fun hp => (pfx_iff hnames hp).1 (h.pfx hp), fun hl hhost => (noKey_iff hnames (hlayout hl) hhost).1 (h.noKey hl hhost), ?_⟩
    intro hl n hn hhost
    simp only [List.mem_cons, List.not_mem_nil, or_false] at hn
    rcases hn with rfl | rfl
    · exact (hfullchain hl hhost).1 (h.kept hl _ hhost)
    · exact (hprivkey hl hhost).1 (h.kept hl _ hhost)
  · intro h
    refine ⟨fun hl => (pair_iff hnames hl).2 (h.pair hl), fun hc => (combined_iff hnames hc).2 (h.combined hc),
      fun hp => (pfx_iff hnames hp).2 (h.pfx hp), fun hl hhost => (noKey_iff hnames (hlayout hl) hhost).2 (h.noKey hl hhost), ?_⟩
    intro hl n hhost
    by_cases hf : n = target.fullchain
    · subst hf
      exact (hfullchain hl hhost).2 (h.kept hl _ (by simp) hhost)
    · by_cases hk : n = target.privkey
      · subst hk
        exact (hprivkey hl hhost).2 (h.kept hl _ (by simp) hhost)
      · exact other_kept ⟨hf, hk⟩ hhost

/-- A key's write that fails leaves the new chain beside the old key. -/
def halfPair : Nat → Cut.Answer Str := fun k => if k = 4 then { done := false } else {}

def oldPair : Str → Option Str := fun n =>
  if n = lit "fullchain.pem" then some (lit "OLD CHAIN") else if n = lit "privkey.pem" then some (lit "OLD KEY") else none

theorem second_write_fails :
    ¬ ∀ (pkcs12 : Str → Str → Str) (target : CertificateTarget) (full key fp : Str) (answers : Nat → Cut.Answer Str) (host : Str → Option Str),
      LeavesPair pkcs12 target full key host (deployTarget pkcs12 target full key fp answers host) := by
  intro h
  have hpair := (h (fun _ _ => []) {} (lit "NEW CHAIN") (lit "NEW KEY") [] halfPair oldPair).pair (by decide)
  exact absurd hpair (by unfold SamePair; decide +kernel)

theorem first_deploy_fails :
    CertificateTarget.Distinct {} ∧
      (LeavesPair (fun _ _ => []) {} (lit "NEW CHAIN") (lit "NEW KEY") (fun _ => none)
        (deployTarget (fun _ _ => []) {} (lit "NEW CHAIN") (lit "NEW KEY") [] halfPair fun _ => none) ↔
      Calm (fun _ _ => []) {} (lit "NEW CHAIN") (lit "NEW KEY") [] halfPair fun _ => none) :=
  have hnames : CertificateTarget.Distinct {} := by decide
  ⟨hnames, (deploy_leaves_pair_iff (fun _ _ => []) {} (lit "NEW CHAIN") (lit "NEW KEY") [] halfPair (fun _ => none) hnames).1⟩

end PiHerder.Certificates
