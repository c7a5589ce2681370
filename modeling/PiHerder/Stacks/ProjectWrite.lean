import PiHerder.Lib.Eff
import PiHerder.Stacks.Deployments

/-!
# What a failed write leaves in the project folder

`write_project_files` (`docker_versions.py` 245–297) call by call, over a server that refuses what it wants. Files are at places below the
project folder, which the path of a file names whatever slashes are in it. `keeps_files_iff` says which runs lose a file, and which write
before a name is refused.
-/
namespace PiHerder.Stacks
open Lib Lib.Str Lib.Eff

/-! ## The calls -/

inductive SftpCall
  | mkdir (folder : Str)
  | write (tmp : Str)
  | remove (place : Str)
  | rename (tmp place : Str)
deriving DecidableEq, Repr

/-- `open` and `write`: what a failure leaves under the name, if anything. -/
inductive WriteAnswer
  | done
  | failed (left : Option Str)
deriving DecidableEq, Repr

/-- A rename may be carried out although its answer is lost. -/
inductive RenameAnswer
  | done
  | lost
  | refused
deriving DecidableEq, Repr

/-- What becomes of the calls for one file. -/
structure Answers where
  write : WriteAnswer := .done
  removes : Bool := true
  rename : RenameAnswer := .done
deriving DecidableEq, Repr

structure Session where
  files : Dict Str Str
  calls : List SftpCall := []
deriving DecidableEq, Repr

inductive WriteError
  | noFiles
  | invalidName (fname : Str)
  | sftp
deriving DecidableEq, Repr

abbrev Sftp := Eff Session WriteError

/-- Where a file is written. -/
def placeOf (fname : Str) : Str := join '/' (fileParts fname)

/-- `fpath + ".tmp"`. -/
def tmpOf (fname : Str) : Str := placeOf (fname ++ lit ".tmp")

/-- Files alone have contents; an error is passed over. -/
def sftpMkdir (folder : Str) : Sftp Unit := fun s => (.ok (), { s with calls := s.calls ++ [.mkdir folder] })

def sftpWrite (answer : WriteAnswer) (tmp content : Str) : Sftp Unit := fun s =>
  let calls := s.calls ++ [.write tmp]
  match answer with
  | .done => (.ok (), ⟨s.files.set tmp content, calls⟩)
  | .failed none => (.error .sftp, ⟨s.files, calls⟩)
  | .failed (some left) => (.error .sftp, ⟨s.files.set tmp left, calls⟩)

/-- An error is passed over. -/
def sftpRemove (removes : Bool) (place : Str) : Sftp Unit := fun s =>
  (.ok (), ⟨if removes then s.files.del place else s.files, s.calls ++ [.remove place]⟩)

/-- What is under one name is put under another. -/
def renamed (tmp place : Str) (files : Dict Str Str) : Dict Str Str :=
  match files.get? tmp with
  | none => files
  | some content => (files.del tmp).set place content

def sftpRename (answer : RenameAnswer) (tmp place : Str) : Sftp Unit := fun s =>
  let calls := s.calls ++ [.rename tmp place]
  match answer with
  | .done => (.ok (), ⟨renamed tmp place s.files, calls⟩)
  | .lost => (.error .sftp, ⟨renamed tmp place s.files, calls⟩)
  | .refused => (.error .sftp, ⟨s.files, calls⟩)

def writeFile (answers : Answers) (fname content : Str) : Sftp Unit :=
  if !validFileName fname then raise (.invalidName fname)
  else do
    if (fileParts fname).length = 2 then sftpMkdir ((fileParts fname).headD [])
    sftpWrite answers.write (tmpOf fname) content
    sftpRemove answers.removes (placeOf fname)
    sftpRename answers.rename (tmpOf fname) (placeOf fname)

/-- The loop; the answers go with the names, each of which is there once. -/
def writeEach (answers : Str → Answers) (payload : Dict Str Str) : Sftp Unit :=
  forEach (fun f => writeFile (answers f.1) f.1 f.2) payload

def writeFiles (answers : Str → Answers) (payload : Dict Str Str) : Sftp Unit :=
  if payload = [] then raise .noFiles else writeEach answers payload

/-- `write_project_files` on a folder: `(True, "")`, or the error and what it left. -/
def runWrite (answers : Str → Answers) (host files : Dict Str Str) : Except WriteError Unit × Session :=
  writeFiles answers (filesForSftp files) ⟨host, []⟩

/-! ## One file -/

/-- Every call for the file is carried out and answered. -/
def Done (answers : Str → Answers) (fname : Str) : Prop :=
  validFileName fname = true ∧ (answers fname).write = .done ∧ (answers fname).rename = .done

/-- Something is written under the temporary name. -/
def OpensTmp (answers : Str → Answers) (fname : Str) : Prop :=
  validFileName fname = true ∧ (answers fname).write ≠ .failed none

/-- The old file is removed, and the new one does not come to its place. -/
def Strands (answers : Str → Answers) (fname : Str) : Prop :=
  validFileName fname = true ∧ (answers fname).write = .done ∧ (answers fname).removes = true ∧ (answers fname).rename = .refused

instance (answers : Str → Answers) (fname : Str) : Decidable (Done answers fname) := inferInstanceAs (Decidable (_ ∧ _))
instance (answers : Str → Answers) (fname : Str) : Decidable (OpensTmp answers fname) := inferInstanceAs (Decidable (_ ∧ _))
instance (answers : Str → Answers) (fname : Str) : Decidable (Strands answers fname) := inferInstanceAs (Decidable (_ ∧ _))

theorem filter_join (ls : List Str) : (join '/' ls).filter (· ≠ '/') = ls.flatten.filter (· ≠ '/') := by
  induction ls with
  | nil => rfl
  | cons l ls ih =>
    cases ls with
    | nil => rw [join, List.flatten_singleton]
    | cons k ls =>
      rw [join, List.filter_append, List.filter_cons_of_neg (by decide), ih, ← List.filter_append, ← List.flatten_cons]
      exact List.cons_ne_nil k ls

theorem flatten_fileParts (fname : Str) : (fileParts fname).flatten = fname.filter (· ≠ '/') := by
  have hparts : ∀ ls : List Str, (ls.filter (· ≠ [])).flatten = ls.flatten := by
    intro ls
    induction ls with
    | nil => rfl
    | cons l ls ih =>
      by_cases hl : l = []
      · rw [List.filter_cons_of_neg (by simpa using hl), ih, hl, List.flatten_cons, List.nil_append]
      · rw [List.filter_cons_of_pos (by simpa using hl), List.flatten_cons, List.flatten_cons, ih]
  have hsplit : ∀ s : Str, (split '/' s).flatten = s.filter (· ≠ '/') := by
    intro s
    induction s with
    | nil => rfl
    | cons c s ih =>
      by_cases hc : c = '/'
      · simp [split, hc, ih]
      · rw [split, if_neg hc, List.filter_cons_of_pos (by simpa using hc), ← ih]
        cases split '/' s <;> rfl
  rw [fileParts, hparts, hsplit]

/-- The temporary name has more in it than slashes. -/
theorem tmpOf_ne_placeOf (fname : Str) : tmpOf fname ≠ placeOf fname := by
  have hletters : ∀ f : Str, (placeOf f).filter (· ≠ '/') = f.filter (· ≠ '/') := by
    intro f
    rw [placeOf, filter_join, flatten_fileParts, List.filter_filter]
    simp
  intro h
  have hfilter := congrArg (List.filter (· ≠ '/')) h
  rw [tmpOf, hletters, hletters, List.filter_append] at hfilter
  exact absurd (List.append_right_eq_self.1 hfilter) (by decide)

/-! ## What one file changes -/

/-- How the writing of one file ends, and what it leaves. -/
inductive Wrote (answers : Str → Answers) (fname content : Str) (s : Session) : Except WriteError Unit → Session → Prop
  | invalid (h : validFileName fname = false) : Wrote answers fname content s (.error (.invalidName fname)) s
  | unwritten (s' : Session) (h : validFileName fname = true) (hwrite : (answers fname).write = .failed none) (hfiles : s'.files = s.files) :
      Wrote answers fname content s (.error .sftp) s'
  | partly (s' : Session) (left : Str) (h : validFileName fname = true) (hwrite : (answers fname).write = .failed (some left))
      (hfiles : s'.files = s.files.set (tmpOf fname) left) : Wrote answers fname content s (.error .sftp) s'
  | refused (s' : Session) (h : validFileName fname = true) (hwrite : (answers fname).write = .done) (hrename : (answers fname).rename = .refused)
      (hfiles : ∀ k, s'.files.get? k = if k = placeOf fname ∧ (answers fname).removes then none
        else if k = tmpOf fname then some content else s.files.get? k) : Wrote answers fname content s (.error .sftp) s'
  | moved (s' : Session) (res : Except WriteError Unit) (h : validFileName fname = true) (hwrite : (answers fname).write = .done)
      (hres : res = .ok () ∧ (answers fname).rename = .done ∨ res = .error .sftp ∧ (answers fname).rename = .lost) (hcalls : s'.calls ≠ [])
      (hfiles : ∀ k, s'.files.get? k = if k = placeOf fname then some content else if k = tmpOf fname then none else s.files.get? k) :
      Wrote answers fname content s res s'

/-- The three calls that are not passed over. -/
theorem writeFile_eq (answers : Answers) {fname : Str} (h : validFileName fname = true) (content : Str) (s : Session) :
    ∃ s₁ : Session, s₁.files = s.files ∧ writeFile answers fname content s =
      (sftpWrite answers.write (tmpOf fname) content >>= fun _ => sftpRemove answers.removes (placeOf fname) >>= fun _ =>
        sftpRename answers.rename (tmpOf fname) (placeOf fname)) s₁ := by
  unfold writeFile
  rw [h, if_neg (by decide)]
  by_cases hdeep : (fileParts fname).length = 2
  · rw [if_pos hdeep]
    exact ⟨{ s with calls := s.calls ++ [.mkdir ((fileParts fname).headD [])] }, rfl, rfl⟩
  · rw [if_neg hdeep]
    exact ⟨s, rfl, rfl⟩

theorem get?_renamed {tmp place content : Str} (hne : tmp ≠ place) (removes : Bool) (files : Dict Str Str) (k : Str) :
    (renamed tmp place (if removes then (files.set tmp content).del place else files.set tmp content)).get? k =
      if k = place then some content else if k = tmp then none else files.get? k := by
  have htmp : (if removes then (files.set tmp content).del place else files.set tmp content).get? tmp = some content := by
    cases removes
    · rw [if_neg Bool.false_ne_true, Dict.get?_set, if_pos rfl]
    · rw [if_pos rfl, Dict.get?_del, if_neg hne, Dict.get?_set, if_pos rfl]
  unfold renamed
  rw [htmp]
  dsimp only
  rw [Dict.get?_set, Dict.get?_del]
  by_cases hplace : k = place
  · rw [if_pos hplace, if_pos hplace]
  · rw [if_neg hplace, if_neg hplace]
    by_cases hk : k = tmp
    · rw [if_pos hk, if_pos hk]
    · rw [if_neg hk, if_neg hk]
      cases removes
      · rw [if_neg Bool.false_ne_true, Dict.get?_set, if_neg hk]
      · rw [if_pos rfl, Dict.get?_del, if_neg hplace, Dict.get?_set, if_neg hk]

theorem writeFile_wrote (answers : Str → Answers) (fname content : Str) (s : Session) :
    Wrote answers fname content s (writeFile (answers fname) fname content s).1 (writeFile (answers fname) fname content s).2 := by
  by_cases hvalid : validFileName fname = true
  · obtain ⟨s₁, hfiles, heq⟩ := writeFile_eq (answers fname) hvalid content s
    rw [heq, bind_apply]
    cases hwrite : (answers fname).write with
    | failed left =>
      cases left with
      | none => exact .unwritten _ hvalid hwrite hfiles
      | some left => exact .partly _ left hvalid hwrite (congrArg (Dict.set (tmpOf fname) left) hfiles)
    | done =>
      cases hrename : (answers fname).rename with
      | done =>
        refine .moved _ _ hvalid hwrite (Or.inl ⟨rfl, hrename⟩) (List.append_ne_nil_of_right_ne_nil _ (List.cons_ne_nil _ _)) fun k => ?_
        rw [← hfiles]
        exact get?_renamed (tmpOf_ne_placeOf fname) _ s₁.files k
      | lost =>
        refine .moved _ _ hvalid hwrite (Or.inr ⟨rfl, hrename⟩) (List.append_ne_nil_of_right_ne_nil _ (List.cons_ne_nil _ _)) fun k => ?_
        rw [← hfiles]
        exact get?_renamed (tmpOf_ne_placeOf fname) _ s₁.files k
      | refused =>
        refine .refused _ hvalid hwrite hrename fun k => ?_
        rw [← hfiles]
        cases hremoves : (answers fname).removes
        · change ((s₁.files.set (tmpOf fname) content)).get? k = _
          rw [Dict.get?_set]
          simp
        · change ((s₁.files.set (tmpOf fname) content).del (placeOf fname)).get? k = _
          rw [Dict.get?_del, Dict.get?_set]
          simp
  · rw [Bool.not_eq_true] at hvalid
    unfold writeFile
    rw [hvalid]
    exact .invalid hvalid

/-! ## The coarse writing -/

/-- The calls under a fault of the coarse writing. -/
def faultAnswers (fault : Option WriteFault) (n : Nat) : Answers :=
  match fault with
  | some w => if w.after = n then { removes := w.removed, rename := .refused } else {}
  | none => {}

/-- `writeFrom` passes over the temporary names, and says the rest. -/
theorem writeFrom_writeEach {fault : Option WriteFault} {answers : Str → Answers} {tmps : List Str} : ∀ {payload : Dict Str Str}
    {host : Dict Str Str} {s : Session} {n : Nat}, (∀ f ∈ payload, tmpOf f.1 ∈ tmps ∧ placeOf f.1 ∉ tmps) →
    (∀ i f, payload[i]? = some f → answers f.1 = faultAnswers fault (n + i)) → (∀ k ∉ tmps, s.files.get? k = host.get? k) →
    ((writeEach answers payload s).1 = .ok () ↔ (writeFrom fault host payload n).1 = true) ∧
      ∀ k ∉ tmps, (writeEach answers payload s).2.files.get? k = (writeFrom fault host payload n).2.get? k
  | [], host, s, n, _, _, hsame => ⟨iff_of_true rfl rfl, hsame⟩
  | (fname, content) :: payload, host, s, n, htmps, hanswers, hsame => by
    obtain ⟨htmp, hplace⟩ := htmps _ List.mem_cons_self
    have hanswer : answers fname = faultAnswers fault n := hanswers 0 _ rfl
    have hw := writeFile_wrote answers fname content s
    rw [writeFrom]
    rcases hres : writeFile (answers fname) fname content s with ⟨res, s₁⟩
    rw [hres] at hw
    have hstop : ∀ e, res = .error e → writeEach answers ((fname, content) :: payload) s = (.error e, s₁) := by
      rintro e rfl
      exact bind_of_error hres
    by_cases hvalid : validFileName fname = true
    · rw [hvalid, Bool.not_true, if_neg Bool.false_ne_true]
      by_cases hfault : fault.any (fun w => decide (w.after = n)) = true
      · rw [if_pos hfault]
        obtain ⟨w, rfl, hafter⟩ : ∃ w, fault = some w ∧ w.after = n := by
          cases fault with
          | none => cases hfault
          | some w => exact ⟨w, rfl, of_decide_eq_true hfault⟩
        rw [faultAnswers, if_pos hafter] at hanswer
        cases hw with
        | invalid h => exact absurd (hvalid.symm.trans h) (by decide)
        | unwritten _ _ h => rw [hanswer] at h; cases h
        | partly _ _ _ h => rw [hanswer] at h; cases h
        | moved _ _ _ _ h => rw [hanswer] at h; rcases h with ⟨-, h⟩ | ⟨-, h⟩ <;> cases h
        | refused _ _ _ _ hfiles =>
          rw [hstop _ rfl]
          refine ⟨iff_of_false (fun h => by cases h) Bool.false_ne_true, fun k hk => ?_⟩
          have hne : k ≠ tmpOf fname := fun h => hk (h ▸ htmp)
          change s₁.files.get? k = Dict.get? k (if w.removed = true then host.del (placeOf fname) else host)
          rw [hfiles, if_neg hne, hanswer, hsame k hk]
          cases w.removed
          · rw [if_neg fun h => Bool.false_ne_true h.2, if_neg Bool.false_ne_true]
          · rw [if_pos rfl, Dict.get?_del]
            simp
      · rw [if_neg hfault]
        have hdefault : faultAnswers fault n = {} := by
          cases fault with
          | none => rfl
          | some w => exact if_neg fun h => hfault (decide_eq_true h)
        rw [hdefault] at hanswer
        cases hw with
        | invalid h => exact absurd (hvalid.symm.trans h) (by decide)
        | unwritten _ _ h => rw [hanswer] at h; cases h
        | partly _ _ _ h => rw [hanswer] at h; cases h
        | refused _ _ _ h => rw [hanswer] at h; cases h
        | moved _ _ _ _ h _ hfiles =>
          obtain ⟨rfl, -⟩ | ⟨-, h⟩ := h
          · have hrest : writeEach answers ((fname, content) :: payload) s = writeEach answers payload s₁ := bind_of_ok hres
            rw [hrest]
            refine writeFrom_writeEach (fun f hf => htmps f (List.mem_cons_of_mem _ hf)) (fun i f hf => ?_) fun k hk => ?_
            · rw [hanswers (i + 1) f hf]
              congr 1
              omega
            · have hne : k ≠ tmpOf fname := fun h => hk (h ▸ htmp)
              change _ = Dict.get? k (host.set (placeOf fname) content)
              rw [hfiles, if_neg hne, Dict.get?_set, hsame k hk]
          · rw [hanswer] at h
            cases h
    · rw [Bool.not_eq_true] at hvalid
      rw [hvalid, Bool.not_false, if_pos rfl]
      cases hw with
      | invalid =>
        rw [hstop _ rfl]
        exact ⟨iff_of_false (fun h => by cases h) Bool.false_ne_true, hsame⟩
      | unwritten _ h => exact absurd (h.symm.trans hvalid) (by decide)
      | partly _ _ h => exact absurd (h.symm.trans hvalid) (by decide)
      | refused _ h => exact absurd (h.symm.trans hvalid) (by decide)
      | moved _ _ h => exact absurd (h.symm.trans hvalid) (by decide)

/-! ## Losing a file -/

/-- A file comes after files that are done. -/
def Reaches (answers : Str → Answers) (payload before : Dict Str Str) (f : Str × Str) : Prop :=
  ∃ rest, payload = before ++ f :: rest ∧ ∀ d ∈ before, Done answers d.1

/-- Every file that was there is there, with its content or a new one. -/
def Complete (host payload files : Dict Str Str) : Prop :=
  ∀ place content, host.get? place = some content →
    ∃ content', files.get? place = some content' ∧ (content' = content ∨ ∃ f ∈ payload, placeOf f.1 = place ∧ f.2 = content')

/-- A run that fails loses no file, and one that refuses a name has made no call. -/
def LosesNothing (answers : Str → Answers) (host files : Dict Str Str) : Prop :=
  (runWrite answers host files).1 ≠ .ok () → Complete host (filesForSftp files) (runWrite answers host files).2.files ∧
    ∀ fname, (runWrite answers host files).1 = .error (.invalidName fname) → (runWrite answers host files).2.calls = []

/-- No file stands where a temporary one is opened. -/
def TmpFree (answers : Str → Answers) (host payload : Dict Str Str) : Prop :=
  ∀ before f, Reaches answers payload before f → OpensTmp answers f.1 → host.get? (tmpOf f.1) = none

section
variable {answers : Str → Answers} {host payload files before : Dict Str Str} {f : Str × Str} {s s' : Session}

theorem writeFile_ok (h : (writeFile (answers f.1) f.1 f.2 s) = (.ok (), s')) : Done answers f.1 ∧ s'.calls ≠ [] := by
  have hw := writeFile_wrote answers f.1 f.2 s
  rw [h] at hw
  cases hw with
  | moved _ _ hvalid hwrite hres hcalls hfiles =>
    obtain ⟨-, hrename⟩ | ⟨hres, -⟩ := hres
    · exact ⟨⟨hvalid, hwrite, hrename⟩, hcalls⟩
    · cases hres

theorem Done.writeFile_ok (h : Done answers f.1) (s : Session) : ∃ s', writeFile (answers f.1) f.1 f.2 s = (.ok (), s') ∧ s'.calls ≠ [] := by
  obtain ⟨hvalid, hwrite, hrename⟩ := h
  have hw := writeFile_wrote answers f.1 f.2 s
  rcases hrun : writeFile (answers f.1) f.1 f.2 s with ⟨res, s'⟩
  rw [hrun] at hw
  cases hw with
  | invalid h => exact absurd (hvalid.symm.trans h) (by decide)
  | unwritten _ _ h => exact absurd (hwrite.symm.trans h) (by decide)
  | partly _ _ _ h => exact absurd (hwrite.symm.trans h) WriteAnswer.noConfusion
  | refused _ _ _ h => exact absurd (hrename.symm.trans h) (by decide)
  | moved _ _ _ _ hres hcalls hfiles =>
    obtain ⟨rfl, -⟩ | ⟨-, h⟩ := hres
    · exact ⟨s', rfl, hcalls⟩
    · exact absurd (hrename.symm.trans h) (by decide)

theorem writeEach_done (h : ∀ d ∈ before, Done answers d.1) (s : Session) :
    ∃ s', writeEach answers before s = (.ok (), s') ∧ (before ≠ [] → s'.calls ≠ []) := by
  induction before generalizing s with
  | nil => exact ⟨s, rfl, fun h => absurd rfl h⟩
  | cons d before ih =>
    obtain ⟨s₁, hd, hcalls⟩ := (h d List.mem_cons_self).writeFile_ok s
    obtain ⟨s₂, hrest, hcalls'⟩ := ih (fun x hx => h x (List.mem_cons_of_mem d hx)) s₁
    refine ⟨s₂, bind_eq_ok.2 ⟨(), s₁, hd, hrest⟩, fun _ => ?_⟩
    by_cases hnil : before = []
    · subst hnil
      obtain rfl := (Prod.mk.inj hrest).2
      exact hcalls
    · exact hcalls' hnil

theorem done_of_writeEach_ok (h : writeEach answers before s = (.ok (), s')) : ∀ d ∈ before, Done answers d.1 := by
  induction before generalizing s with
  | nil => exact fun d hd => absurd hd List.not_mem_nil
  | cons d before ih =>
    obtain ⟨u, s₁, hd, hrest⟩ := bind_eq_ok.1 h
    intro x hx
    rcases List.mem_cons.1 hx with rfl | hx
    · exact (writeFile_ok hd).1
    · exact ih hrest x hx

/-- A file comes to its place. -/
theorem Complete.moved (h : Complete host payload s.files) (hf : f ∈ payload) (htmp : host.get? (tmpOf f.1) = none)
    (hfiles : ∀ k, s'.files.get? k = if k = placeOf f.1 then some f.2 else if k = tmpOf f.1 then none else s.files.get? k) :
    Complete host payload s'.files := by
  intro place content hplace
  rw [hfiles]
  by_cases hown : place = placeOf f.1
  · rw [if_pos hown]
    exact ⟨f.2, rfl, Or.inr ⟨f, hf, hown.symm, rfl⟩⟩
  · have hne : place ≠ tmpOf f.1 := fun heq => by
      rw [heq, htmp] at hplace
      cases hplace
    rw [if_neg hown, if_neg hne]
    exact h place content hplace

theorem Complete.loop (h : Complete host payload s.files) (hmem : ∀ d ∈ before, d ∈ payload)
    (htmp : ∀ d ∈ before, host.get? (tmpOf d.1) = none) (hrun : writeEach answers before s = (.ok (), s')) :
    Complete host payload s'.files := by
  have hloop : Triple (fun s : Session => Complete host payload s.files) (writeEach answers before)
      (fun _ s => Complete host payload s.files) fun _ _ => True := by
    refine Triple.forEach fun d hd s hs => ?_
    have hw := writeFile_wrote answers d.1 d.2 s
    rcases hres : writeFile (answers d.1) d.1 d.2 s with ⟨res, s₁⟩
    rw [hres] at hw
    cases res with
    | error e => trivial
    | ok u =>
      cases hw with
      | moved _ _ _ _ _ _ hfiles => exact hs.moved (hmem d hd) (htmp d hd) hfiles
  exact hloop.ok h hrun

/-- Nothing changes at a place but where the temporary file is opened. -/
theorem Complete.set_tmp {tmp content : Str} (h : Complete host payload s.files) (htmp : host.get? tmp = none) :
    Complete host payload (s.files.set tmp content) := by
  intro place old hplace
  have hne : place ≠ tmp := fun heq => by
    rw [heq, htmp] at hplace
    cases hplace
  rw [Dict.get?_set, if_neg hne]
  exact h place old hplace

theorem runWrite_eq (answers : Str → Answers) (host : Dict Str Str) (hne : filesForSftp files ≠ []) :
    runWrite answers host files = writeEach answers (filesForSftp files) ⟨host, []⟩ := by
  unfold runWrite writeFiles
  rw [if_neg hne]

/-- A file that is reached and not done is where the run ends. -/
theorem Reaches.run (host : Dict Str Str) (h : Reaches answers (filesForSftp files) before f) (hnot : ¬ Done answers f.1) : ∃ s₁,
    writeEach answers before ⟨host, []⟩ = (.ok (), s₁) ∧ (before ≠ [] → s₁.calls ≠ []) ∧
      runWrite answers host files = writeFile (answers f.1) f.1 f.2 s₁ ∧ (runWrite answers host files).1 ≠ .ok () := by
  obtain ⟨rest, hpayload, hdone⟩ := h
  obtain ⟨s₁, hbefore, hcalls⟩ := writeEach_done hdone ⟨host, []⟩
  have hne : filesForSftp files ≠ [] := by
    rw [hpayload]
    exact List.append_ne_nil_of_right_ne_nil _ (List.cons_ne_nil _ _)
  rcases hres : writeFile (answers f.1) f.1 f.2 s₁ with ⟨res, s₂⟩
  cases res with
  | ok u => exact absurd (writeFile_ok hres).1 hnot
  | error e =>
    have hrun : runWrite answers host files = (.error e, s₂) := by
      rw [runWrite_eq answers host hne]
      exact forEach_eq_error.2 ⟨before, f, rest, s₁, hpayload, hbefore, hres⟩
    refine ⟨s₁, hbefore, hcalls, hrun.trans hres.symm, ?_⟩
    rw [hrun]
    rintro ⟨⟩

theorem TmpFree.done (h : TmpFree answers host payload) (hreach : Reaches answers payload before f) :
    ∀ d ∈ before, host.get? (tmpOf d.1) = none := by
  intro d hd
  obtain ⟨rest, rfl, hdone⟩ := hreach
  obtain ⟨earlier, later, rfl⟩ := List.append_of_mem hd
  refine h earlier d ⟨later ++ f :: rest, by rw [List.append_assoc]; rfl, fun x hx => hdone x (List.mem_append_left _ hx)⟩ ?_
  obtain ⟨hvalid, hwrite, -⟩ := hdone d hd
  exact ⟨hvalid, by rw [hwrite]; exact fun h => WriteAnswer.noConfusion h⟩

/-- Where the loop stops, and what the last file leaves. -/
theorem runWrite_stops (h : (runWrite answers host files).1 ≠ .ok ()) : (filesForSftp files = [] ∧ runWrite answers host files = (.error .noFiles, ⟨host, []⟩)) ∨
    ∃ before f s₁, Reaches answers (filesForSftp files) before f ∧
      writeEach answers before ⟨host, []⟩ = (.ok (), s₁) ∧
      runWrite answers host files = writeFile (answers f.1) f.1 f.2 s₁ := by
  by_cases hnil : filesForSftp files = []
  · left
    refine ⟨hnil, ?_⟩
    unfold runWrite writeFiles
    rw [if_pos hnil]
    rfl
  · right
    rw [runWrite_eq answers host hnil] at h ⊢
    rcases hrun : writeEach answers (filesForSftp files) ⟨host, []⟩ with ⟨res, s₂⟩
    rw [hrun] at h
    cases res with
    | ok u => exact absurd rfl h
    | error e =>
      obtain ⟨before, f, rest, s₁, hpayload, hbefore, hf⟩ := forEach_eq_error.1 hrun
      exact ⟨before, f, s₁, ⟨rest, hpayload, done_of_writeEach_ok hbefore⟩, hbefore, hf.symm⟩

theorem LosesNothing.reached (h : LosesNothing answers host files) (hreach : Reaches answers (filesForSftp files) before f) :
    (validFileName f.1 = false → before = []) ∧ (Strands answers f.1 → host.get? (placeOf f.1) = none) := by
  constructor
  · intro hinvalid
    obtain ⟨s₁, -, hcalls, hrun, hne⟩ := hreach.run host fun hdone => absurd (hdone.1.symm.trans hinvalid) (by decide)
    have hwrite : writeFile (answers f.1) f.1 f.2 s₁ = (.error (.invalidName f.1), s₁) := by
      unfold writeFile
      rw [hinvalid]
      rfl
    have hnone := (h hne).2 f.1 (by rw [hrun, hwrite])
    rw [hrun, hwrite] at hnone
    by_contra hbefore
    exact hcalls hbefore hnone
  · rintro ⟨hvalid, hwrite, hremoves, hrename⟩
    obtain ⟨s₁, -, -, hrun, hne⟩ := hreach.run host fun hdone => absurd (hdone.2.2.symm.trans hrename) (by decide)
    have hcomplete := (h hne).1
    have hw := writeFile_wrote answers f.1 f.2 s₁
    rw [← hrun] at hw
    rw [Option.eq_none_iff_forall_ne_some]
    intro content hplace
    obtain ⟨content', hget, -⟩ := hcomplete _ content hplace
    generalize (runWrite answers host files).1 = res at hw
    generalize (runWrite answers host files).2 = s₂ at hw hget
    cases hw with
    | invalid h => exact absurd (hvalid.symm.trans h) (by decide)
    | unwritten _ _ h => exact absurd (hwrite.symm.trans h) (by decide)
    | partly _ _ _ h => exact absurd (hwrite.symm.trans h) WriteAnswer.noConfusion
    | refused _ _ _ _ hfiles =>
      rw [hfiles, if_pos ⟨rfl, hremoves⟩] at hget
      cases hget
    | moved _ _ _ _ hres =>
      obtain ⟨-, h⟩ | ⟨-, h⟩ := hres
      · exact absurd (hrename.symm.trans h) (by decide)
      · exact absurd (hrename.symm.trans h) (by decide)

/-- What the last file leaves is complete, where it strands nothing. -/
theorem Complete.last {res : Except WriteError Unit} (hs : Complete host payload s.files) (hw : Wrote answers f.1 f.2 s res s')
    (hf : f ∈ payload) (hopens : OpensTmp answers f.1 → host.get? (tmpOf f.1) = none)
    (hstrands : Strands answers f.1 → host.get? (placeOf f.1) = none) : Complete host payload s'.files := by
  cases hw with
  | invalid => exact hs
  | unwritten _ _ _ hfiles => exact hfiles ▸ hs
  | partly _ left hv hwrite hfiles =>
    have htmp := hopens ⟨hv, by rw [hwrite]; simp⟩
    exact hfiles ▸ hs.set_tmp htmp
  | refused _ hv hwrite hrename hfiles =>
    have htmp := hopens ⟨hv, by rw [hwrite]; simp⟩
    intro place content hplace
    have hnot : ¬ (place = placeOf f.1 ∧ (answers f.1).removes = true) := by
      rintro ⟨rfl, hremoves⟩
      rw [hstrands ⟨hv, hwrite, hremoves, hrename⟩] at hplace
      cases hplace
    have hne : place ≠ tmpOf f.1 := fun heq => by
      rw [heq, htmp] at hplace
      cases hplace
    rw [hfiles, if_neg hnot, if_neg hne]
    exact hs place content hplace
  | moved _ _ hv hwrite _ _ hfiles =>
    have htmp := hopens ⟨hv, by rw [hwrite]; simp⟩
    exact hs.moved hf htmp hfiles

/-- A name is refused before any call for it. -/
theorem Wrote.invalid_eq {fname content name : Str} (hw : Wrote answers fname content s (.error (.invalidName name)) s') :
    validFileName fname = false ∧ s' = s := by
  cases hw with
  | invalid h => exact ⟨h, rfl⟩
  | moved _ _ _ _ hres =>
    obtain ⟨h, -⟩ | ⟨h, -⟩ := hres
    · cases h
    · cases h

/-- A run loses a file where an old one is removed whose new one does not come to its place, and it has written where a name is refused
after the first. -/
theorem keeps_files_iff (hfree : TmpFree answers host (filesForSftp files)) : LosesNothing answers host files ↔
    ∀ before f, Reaches answers (filesForSftp files) before f →
      (validFileName f.1 = false → before = []) ∧ (Strands answers f.1 → host.get? (placeOf f.1) = none) := by
  refine ⟨fun h before f hreach => h.reached hreach, fun h hne => ?_⟩
  have hstart : Complete host (filesForSftp files) host := fun place content hplace => ⟨content, hplace, Or.inl rfl⟩
  obtain ⟨-, hrun⟩ | ⟨before, f, s₁, hreach, hbefore, hrun⟩ := runWrite_stops hne
  · rw [hrun]
    exact ⟨hstart, fun fname hname => absurd (Except.error.inj hname) (by simp)⟩
  · obtain ⟨hinvalid, hstrands⟩ := h before f hreach
    obtain ⟨rest, hpayload, -⟩ := id hreach
    have hs₁ : Complete host (filesForSftp files) s₁.files := by
      refine Complete.loop (s := ⟨host, []⟩) hstart (fun d hd => ?_) (hfree.done hreach) hbefore
      rw [hpayload]
      exact List.mem_append_left _ hd
    have hf : f ∈ filesForSftp files := by
      rw [hpayload]
      exact List.mem_append_right _ List.mem_cons_self
    have hw := writeFile_wrote answers f.1 f.2 s₁
    rw [← hrun] at hw
    refine ⟨hs₁.last hw hf (hfree before f hreach) hstrands, fun fname hname => ?_⟩
    rw [hname] at hw
    obtain ⟨hv, hs⟩ := hw.invalid_eq
    have hnil := hinvalid hv
    subst hnil
    obtain rfl := (Prod.mk.inj hbefore).2
    rw [hs]

theorem TmpFree.of_forall (h : ∀ f ∈ payload, host.get? (tmpOf f.1) = none) : TmpFree answers host payload := by
  rintro before f ⟨rest, rfl, -⟩ -
  exact h f (List.mem_append_right _ List.mem_cons_self)

end

/-- One file, whose old content is still there. -/
theorem half_written_kept :
    let answers := fun _ => { write := .failed (some (lit "serv")) : Answers }
    let host := [(lit "docker-compose.yml", lit "services: {}")]
    let files := [(lit "docker-compose.yml", lit "services: {web: {}}")]
    (runWrite answers host files).1 = .error .sftp ∧ LosesNothing answers host files := by
  refine ⟨by decide +kernel, (keeps_files_iff (TmpFree.of_forall (by decide +kernel))).2 ?_⟩
  rintro before f ⟨rest, hpayload, -⟩
  refine ⟨fun _ => ?_, fun ⟨_, hwrite, _⟩ => WriteAnswer.noConfusion hwrite⟩
  have hlength := congrArg List.length hpayload
  rw [List.length_append, List.length_cons] at hlength
  have hone : (filesForSftp [(lit "docker-compose.yml", lit "services: {web: {}}")]).length = 1 := by decide +kernel
  exact List.eq_nil_of_length_eq_zero (by omega)

/-- The old file is removed, and the rename fails. -/
theorem refused_rename_loses : ¬ LosesNothing (fun _ => { rename := .refused }) [(lit "docker-compose.yml", lit "services: {}")]
    [(lit "docker-compose.yml", lit "services: {web: {}}")] := by
  intro h
  obtain ⟨content, hget, -⟩ := (h (by decide +kernel)).1 (lit "docker-compose.yml") (lit "services: {}") rfl
  have hnone : (runWrite (fun _ => { rename := .refused }) [(lit "docker-compose.yml", lit "services: {}")]
      [(lit "docker-compose.yml", lit "services: {web: {}}")]).2.files.get? (lit "docker-compose.yml") = none := by decide +kernel
  rw [hnone] at hget
  cases hget

end PiHerder.Stacks
