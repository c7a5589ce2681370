import PiHerder.Lib.Slots
import PiHerder.Stacks.Scrubbing

/-!
# What a preview shows of the secrets (`services/service_templates/schema.py`)

| here | there |
| --- | --- |
| `maskEnvFileBody`, `redactFilesForUi` | 684–734 |
| `previewFiles` | `preview_template`, `deploy.py` 104–114 |

`redact_hides_secrets` says when two assignments of the secrets are shown alike: of a template as a whole, never where it has a secret and a
plain file says four characters; of a pair of assignments, where each value stands nowhere but in its places.
-/
namespace PiHerder.Stacks
open Lib Lib.Str

/-! ## The code -/

def maskEnvFileBody (content : Str) (secretKeys : List Str) : Str :=
  (splitlines content).flatMap fun line => redactLine secretKeys line ++ ['\n']

def redactFilesForUi (files secretValues : Dict Str Str) (secretKeys : List Str) (reveal : Bool) : Dict Str Str :=
  if reveal then files
  else (maskSecretsInFiles files secretValues).map fun f =>
    (f.1, if isSecretsPath f.1 then secretMask
      else if lastPart f.1 = envPath then maskEnvFileBody f.2 (secretKeys ++ secretValues.keys)
      else f.2)

/-- The rendered files as the preview shows them. -/
def previewFiles (definition : TemplateDefinition) (merged : Merged) : Except TemplateError (Dict Str Str) := do
  let files ← renderTemplateFiles definition merged
  let secretsMap := (splitSecrets definition merged.values).2
  .ok (redactFilesForUi files secretsMap secretsMap.keys false)

/-! ## Secrets -/

section
variable (definition : TemplateDefinition)

/-- The keys that `split_secrets` takes for secrets. -/
def isSecretKey (k : Str) : Bool := !startsWith (lit "__") k && decide (k ∈ definition.secretVarNames)

/-- The same values but for the secrets. -/
structure SameButSecrets (m m' : Merged) : Prop where
  values : List.Forall₂ (fun e e' => e.1 = e'.1 ∧ (isSecretKey definition e.1 = false → e.2 = e'.2)) m.values m'.values
  named : m.namedVolumes = m'.namedVolumes
  managed : m.managedVolumeNames = m'.managedVolumeNames

/-- Every secret has a value, without a star. -/
def Given (m : Merged) : Prop := ∀ e ∈ m.values, isSecretKey definition e.1 = true → e.2 ≠ [] ∧ '*' ∉ e.2

/-- Two assignments of the secrets are shown alike. -/
def HidesSecrets (m : Merged) : Prop :=
  ∀ a b, SameButSecrets definition m a → SameButSecrets definition m b → Given definition a → Given definition b →
    ∀ shown shown', previewFiles definition a = .ok shown → previewFiles definition b = .ok shown' → shown = shown'

/-- All secrets with one value. -/
def setSecrets (v : Str) (m : Merged) : Merged :=
  { m with values := m.values.map fun e => (e.1, if isSecretKey definition e.1 then v else e.2) }

/-- A file that is neither `.env` nor below `secrets/` says four characters in a row, none of them a star, when all secrets are one letter. -/
def Speaks (m : Merged) : Prop :=
  ∃ files, renderTemplateFiles definition (setSecrets definition (lit "q") m) = .ok files ∧
    ∃ f ∈ files, isSecretsPath f.1 = false ∧ lastPart f.1 ≠ envPath ∧ ∃ v, v <:+: f.2 ∧ 4 ≤ v.length ∧ '*' ∉ v

def secretsOf (m : Merged) : Dict Str Str := (splitSecrets definition m.values).2

end

section
variable {definition : TemplateDefinition} {m a b : Merged} {k v : Str}

theorem secretsOf_eq (m : Merged) : secretsOf definition m = m.values.filter fun e => isSecretKey definition e.1 := by
  rw [secretsOf, splitSecrets]
  dsimp only
  rw [List.filter_filter]
  exact List.filter_congr fun e _ => Bool.and_comm _ _

theorem sameButSecrets_set (v : Str) (m : Merged) : SameButSecrets definition m (setSecrets definition v m) := by
  refine ⟨?_, rfl, rfl⟩
  rw [setSecrets, List.forall₂_map_right_iff, List.forall₂_same]
  intro e _
  refine ⟨rfl, fun h => ?_⟩
  rw [if_neg (by simp [h])]

/-- What is set over the secrets does not depend on them. -/
theorem setSecrets_congr (v : Str) (h : SameButSecrets definition a b) : setSecrets definition v a = setSecrets definition v b := by
  have hvalues : a.values.map (fun e => (e.1, if isSecretKey definition e.1 then v else e.2)) =
      b.values.map fun e => (e.1, if isSecretKey definition e.1 then v else e.2) := by
    have hall := h.values
    generalize a.values = xs at hall ⊢
    generalize b.values = ys at hall ⊢
    induction hall with
    | nil => rfl
    | cons hhead _ ih =>
      rw [List.map_cons, List.map_cons, ih, hhead.1]
      refine congrArg (· :: _) (Prod.ext rfl ?_)
      dsimp only
      split
      · rfl
      · rename_i hnot
        exact hhead.2 (by rw [hhead.1]; exact Bool.not_eq_true _ ▸ hnot)
  unfold setSecrets
  rw [hvalues, h.named, h.managed]

/-! ## Rendering, file by file -/

def composeFiles : List Str := [lit "docker-compose.yml", lit "compose.yml", lit "compose.yaml"]

/-- The names that `render_template_files` lists as active. -/
def activeNames (definition : TemplateDefinition) (m : Merged) : List Str :=
  if m.namedVolumes = [] then mountedNames definition m.values else sortedSet m.namedVolumes

def fileText (definition : TemplateDefinition) (m : Merged) (f : Str × Str) : Except TemplateError Str :=
  (renderText f.2 (subValues m.values)).map fun text =>
    if f.1 ∈ composeFiles then syncComposeNamedVolumes text (activeNames definition m) (sortedSet m.managedVolumeNames) else text

theorem mapM_eq_ok {α β ε : Type} {g : α → Except ε β} : ∀ {xs : List α} {ys : List β},
    xs.mapM g = .ok ys ↔ List.Forall₂ (fun x y => g x = .ok y) xs ys
  | [], ys => by
    rw [List.mapM_nil, List.forall₂_nil_left_iff]
    exact ⟨fun h => (Except.ok.inj h).symm, fun h => by rw [h]; rfl⟩
  | x :: xs, ys => by
    rw [List.mapM_cons]
    cases hx : g x with
    | error e =>
      refine iff_of_false (fun h => nomatch h) ?_
      rintro (_ | ⟨hhead, -⟩)
      rw [hx] at hhead
      cases hhead
    | ok y =>
      cases hxs : xs.mapM g with
      | error e =>
        refine iff_of_false (fun h => nomatch h) ?_
        rintro (_ | ⟨-, htail⟩)
        rw [mapM_eq_ok.2 htail] at hxs
        cases hxs
      | ok zs =>
        have hall := mapM_eq_ok.1 hxs
        constructor
        · intro h
          obtain rfl := Except.ok.inj h
          exact List.Forall₂.cons hx hall
        · rintro (_ | ⟨hhead, htail⟩)
          rename_i z ws
          rw [hx] at hhead
          obtain rfl := Except.ok.inj hhead
          rw [mapM_eq_ok.2 htail] at hxs
          obtain rfl := Except.ok.inj hxs
          rfl

theorem fileText_eq_ok {f : Str × Str} {text : Str} : fileText definition m f = .ok text ↔ ∃ rendered, renderText f.2 (subValues m.values) = .ok rendered ∧
    (if f.1 ∈ composeFiles then syncComposeNamedVolumes rendered (activeNames definition m) (sortedSet m.managedVolumeNames) else rendered) = text := by
  rw [fileText]
  cases renderText f.2 (subValues m.values) with
  | error e => exact iff_of_false (fun h => nomatch h) fun ⟨_, h, _⟩ => nomatch h
  | ok rendered =>
    constructor
    · exact fun h => ⟨rendered, rfl, Except.ok.inj h⟩
    · rintro ⟨_, h, rfl⟩
      obtain rfl := Except.ok.inj h
      rfl

/-- A template is rendered file by file. -/
theorem render_iff {files : Dict Str Str} : renderTemplateFiles definition m = .ok files ↔
    List.Forall₂ (fun f out => out.1 = f.1 ∧ fileText definition m f = .ok out.2) definition.fileContents files := by
  have hbind : renderTemplateFiles definition m = .ok files ↔
      ∃ rendered, definition.fileContents.mapM (fun f => (renderText f.2 (subValues m.values)).map (f.1, ·)) = .ok rendered ∧
        rendered.map (fun f => if f.1 ∈ composeFiles then
          (f.1, syncComposeNamedVolumes f.2 (activeNames definition m) (sortedSet m.managedVolumeNames)) else f) = files := by
    unfold renderTemplateFiles
    cases definition.fileContents.mapM (fun f => (renderText f.2 (subValues m.values)).map (f.1, ·)) with
    | error e => exact iff_of_false (fun h => nomatch h) fun ⟨_, h, _⟩ => nomatch h
    | ok rendered =>
      constructor
      · exact fun h => ⟨rendered, rfl, Except.ok.inj h⟩
      · rintro ⟨_, h, rfl⟩
        obtain rfl := Except.ok.inj h
        rfl
  have hitem : ∀ (f out : Str × Str), (renderText f.2 (subValues m.values)).map (f.1, ·) = .ok out ↔
      ∃ text, renderText f.2 (subValues m.values) = .ok text ∧ out = (f.1, text) := by
    intro f out
    cases renderText f.2 (subValues m.values) with
    | error e => exact iff_of_false (fun h => nomatch h) fun ⟨_, h, _⟩ => nomatch h
    | ok text =>
      constructor
      · exact fun h => ⟨text, rfl, (Except.ok.inj h).symm⟩
      · rintro ⟨_, h, rfl⟩
        obtain rfl := Except.ok.inj h
        rfl
  rw [hbind]
  simp only [mapM_eq_ok, hitem]
  constructor
  · rintro ⟨rendered, hall, rfl⟩
    rw [List.forall₂_map_right_iff]
    refine hall.imp fun f out h => ?_
    obtain ⟨text, htext, rfl⟩ := h
    dsimp only
    by_cases hcompose : f.1 ∈ composeFiles
    · rw [if_pos hcompose]
      exact ⟨rfl, fileText_eq_ok.2 ⟨text, htext, if_pos hcompose⟩⟩
    · rw [if_neg hcompose]
      exact ⟨rfl, fileText_eq_ok.2 ⟨text, htext, if_neg hcompose⟩⟩
  · intro hall
    clear hbind
    generalize definition.fileContents = contents at hall ⊢
    induction hall with
    | nil => exact ⟨[], List.Forall₂.nil, rfl⟩
    | cons hhead _ ih =>
      rename_i f out fs outs _
      obtain ⟨hpath, htext⟩ := hhead
      obtain ⟨text, hrender, hout⟩ := fileText_eq_ok.1 htext
      obtain ⟨rendered, hrest, hmap⟩ := ih
      refine ⟨(f.1, text) :: rendered, List.Forall₂.cons ⟨text, hrender, rfl⟩ hrest, ?_⟩
      rw [List.map_cons, hmap]
      refine congrArg (· :: outs) ?_
      dsimp only
      by_cases hcompose : f.1 ∈ composeFiles
      · rw [if_pos hcompose] at hout ⊢
        exact Prod.ext hpath.symm hout
      · rw [if_neg hcompose] at hout ⊢
        exact Prod.ext hpath.symm hout

/-! ## Values -/

/-- The value of a key, as rendering sees it. -/
def valueOf (m : Merged) (k : Str) : Str := ((subValues m.values).get? k).getD []

theorem get?_setSecrets (v k : Str) (m : Merged) :
    (subValues (setSecrets definition v m).values).get? k =
      ((subValues m.values).get? k).map fun w => if isSecretKey definition k then v else w := by
  have hsub : subValues (setSecrets definition v m).values =
      (subValues m.values).map fun e => (e.1, (fun k w => if isSecretKey definition k then v else w) e.1 e.2) := by
    rw [setSecrets, subValues, subValues, List.filter_map]
    rfl
  rw [hsub]
  exact Dict.get?_map_item (fun k w => if isSecretKey definition k then v else w) k _

theorem get?_setSecrets_ne_none : (subValues (setSecrets definition v m).values).get? k ≠ none ↔ (subValues m.values).get? k ≠ none := by
  rw [get?_setSecrets, Ne, Option.map_eq_none_iff]

/-- What is rendered with one set of secrets is rendered with another. -/
theorem renderFrom_ok {d d' : Dict Str Str} (h : ∀ k, d.get? k ≠ none → d'.get? k ≠ none) : ∀ {n : Nat} {s t : Str},
    renderFrom d n s = .ok t → ∃ t', renderFrom d' n s = .ok t'
  | n, [], t, _ => ⟨[], by cases n <;> rfl⟩
  | n + 1, c :: s, t, hr => renderFrom_ok h (n := n) (s := s) hr
  | 0, c :: s, t, hr => by
    rw [renderFrom] at hr ⊢
    split at hr
    · cases hrest : renderFrom d 0 s with
      | error e =>
        rw [hrest] at hr
        cases hr
      | ok u =>
        obtain ⟨u', hu'⟩ := renderFrom_ok h hrest
        exact ⟨c :: u', by rw [hu']; rfl⟩
    · rename_i name len _
      cases hget : d.get? name with
      | none =>
        rw [hget] at hr
        cases hr
      | some w =>
        obtain ⟨w', hw'⟩ := Option.ne_none_iff_exists'.1 (h name (by rw [hget]; exact Option.some_ne_none w))
        rw [hget] at hr
        dsimp only at hr
        cases hrest : renderFrom d (len - 1) s with
        | error e =>
          rw [hrest] at hr
          cases hr
        | ok u =>
          obtain ⟨u', hu'⟩ := renderFrom_ok h hrest
          rw [hw']
          exact ⟨w' ++ u', by dsimp only; rw [hu']; rfl⟩

theorem render_set_ok {files : Dict Str Str} (hkeys : ∀ k, (subValues a.values).get? k ≠ none → (subValues b.values).get? k ≠ none)
    (h : renderTemplateFiles definition a = .ok files) : ∃ files', renderTemplateFiles definition b = .ok files' := by
  rw [render_iff] at h
  simp only [render_iff]
  generalize definition.fileContents = contents at h ⊢
  induction h with
  | nil => exact ⟨[], List.Forall₂.nil⟩
  | cons hhead _ ih =>
    rename_i f out fs outs _
    obtain ⟨files', hfiles'⟩ := ih
    obtain ⟨text, hrender, -⟩ := fileText_eq_ok.1 hhead.2
    obtain ⟨text', htext'⟩ := renderFrom_ok hkeys hrender
    obtain ⟨out', hout'⟩ : ∃ t, fileText definition b f = .ok t := ⟨_, fileText_eq_ok.2 ⟨text', htext', rfl⟩⟩
    exact ⟨(f.1, out') :: files', List.Forall₂.cons ⟨rfl, hout'⟩ hfiles'⟩

/-! ## A template as a whole -/

theorem previewFiles_eq_ok {shown : Dict Str Str} : previewFiles definition m = .ok shown ↔
    ∃ files, renderTemplateFiles definition m = .ok files ∧
      redactFilesForUi files (secretsOf definition m) (secretsOf definition m).keys false = shown := by
  unfold previewFiles
  cases renderTemplateFiles definition m with
  | error e => exact iff_of_false (fun h => nomatch h) fun ⟨_, h, _⟩ => nomatch h
  | ok files =>
    constructor
    · exact fun h => ⟨files, rfl, Except.ok.inj h⟩
    · rintro ⟨_, h, rfl⟩
      obtain rfl := Except.ok.inj h
      rfl

theorem mem_secretsOf_set {e : Str × Str} (h : e ∈ secretsOf definition (setSecrets definition v m)) : e.2 = v := by
  rw [secretsOf_eq] at h
  obtain ⟨hmem, hsecret⟩ := List.mem_filter.1 h
  obtain ⟨e', -, rfl⟩ := List.mem_map.1 hmem
  exact if_pos hsecret

theorem given_set (hv : v ≠ [] ∧ '*' ∉ v) : Given definition (setSecrets definition v m) := by
  intro e he hsecret
  have hval : e.2 = v := mem_secretsOf_set (by rw [secretsOf_eq]; exact List.mem_filter.2 ⟨he, hsecret⟩)
  rw [hval]
  exact hv

/-- One letter is not looked for. -/
theorem maskText_short (hv : v.length < 4) (text : Str) : maskText (secretsOf definition (setSecrets definition v m)) text = text := by
  have hnone : maskedValues (secretsOf definition (setSecrets definition v m)) = [] := by
    rw [List.eq_nil_iff_forall_not_mem]
    intro w hw
    obtain ⟨⟨k, hk⟩, hlen⟩ := mem_maskedValues.1 hw
    have := mem_secretsOf_set hk
    dsimp only at this
    subst this
    omega
  rw [maskText, hnone, List.foldl_nil]

theorem apart_mask (hne : v ≠ []) (hv : '*' ∉ v) : Apart secretMask v := by
  have hstar : ∀ c ∈ secretMask, c = '*' := fun c hc => List.eq_of_mem_replicate (show c ∈ List.replicate 8 '*' from hc)
  constructor
  · rintro ⟨t, ht, htne, hmeet⟩
    obtain ⟨d, t, rfl⟩ := List.exists_cons_of_ne_nil htne
    have hd : d ∈ v := ((List.mem_tails _ _).1 ht).subset List.mem_cons_self
    have hd' : d = '*' := hmeet.elim (fun h => (List.cons_prefix_cons.1 h).1.symm) fun h => (List.cons_prefix_cons.1 h).1
    exact hv (hd' ▸ hd)
  · rintro ⟨t, ht, htne, hmeet⟩
    obtain ⟨d, t, rfl⟩ := List.exists_cons_of_ne_nil htne
    obtain ⟨c, v, rfl⟩ := List.exists_cons_of_ne_nil hne
    have hd : d = '*' := hstar d (((List.mem_tails _ _).1 ht).subset List.mem_cons_self)
    have hdc : c = d := hmeet.elim (fun h => (List.cons_prefix_cons.1 h).1) fun h => (List.cons_prefix_cons.1 h).1.symm
    exact hv (hd ▸ hdc ▸ List.mem_cons_self)

/-- A file of the page that is neither `.env` nor below `secrets/`. -/
theorem mem_redact_plain {files secrets : Dict Str Str} {keys : List Str} {f : Str × Str} (hpath : isSecretsPath f.1 = false) (henv : lastPart f.1 ≠ envPath) :
    f ∈ redactFilesForUi files secrets keys false ↔ ∃ text, (f.1, text) ∈ files ∧ maskText secrets text = f.2 := by
  unfold redactFilesForUi maskSecretsInFiles
  rw [if_neg Bool.false_ne_true, List.map_map, List.mem_map]
  constructor
  · rintro ⟨g, hg, rfl⟩
    dsimp only [Function.comp_apply] at hpath henv ⊢
    rw [hpath, if_neg Bool.false_ne_true, if_neg henv]
    exact ⟨g.2, hg, rfl⟩
  · rintro ⟨text, hmem, htext⟩
    refine ⟨(f.1, text), hmem, ?_⟩
    dsimp only [Function.comp_apply]
    rw [hpath, if_neg Bool.false_ne_true, if_neg henv, htext]

/-- A page that hides the secrets says no four characters, where one could be a secret. -/
theorem not_hides_of_secret (hspeaks : Speaks definition m) {e : Str × Str} (he : e ∈ m.values) (hsecret : isSecretKey definition e.1 = true) :
    ¬ HidesSecrets definition m := by
  intro hhides
  obtain ⟨files, hfiles, f, hf, hpath, henv, v, hin, hlen, hstar⟩ := hspeaks
  have hne : v ≠ [] := by
    rintro rfl
    exact absurd hlen (by decide)
  obtain ⟨files', hfiles'⟩ : ∃ files', renderTemplateFiles definition (setSecrets definition v m) = .ok files' :=
    render_set_ok (fun k hk => get?_setSecrets_ne_none.2 (get?_setSecrets_ne_none.1 hk)) hfiles
  have hsame := hhides _ _ (sameButSecrets_set (lit "q") m) (sameButSecrets_set v m) (given_set (by decide)) (given_set ⟨hne, hstar⟩)
    _ _ (previewFiles_eq_ok.2 ⟨files, hfiles, rfl⟩) (previewFiles_eq_ok.2 ⟨files', hfiles', rfl⟩)
  have hshown : f ∈ redactFilesForUi files (secretsOf definition (setSecrets definition (lit "q") m))
      (secretsOf definition (setSecrets definition (lit "q") m)).keys false :=
    (mem_redact_plain hpath henv).2 ⟨f.2, hf, maskText_short (by decide) f.2⟩
  rw [hsame] at hshown
  obtain ⟨text, -, htext⟩ := (mem_redact_plain hpath henv).1 hshown
  have hmasked : v ∈ maskedValues (secretsOf definition (setSecrets definition v m)) := by
    refine mem_maskedValues.2 ⟨⟨e.1, ?_⟩, hlen⟩
    rw [secretsOf_eq]
    exact List.mem_filter.2 ⟨List.mem_map.2 ⟨e, he, by rw [hsecret, if_pos rfl]⟩, hsecret⟩
  exact not_infix_maskText hmasked (apart_mask hne hstar) text (htext ▸ hin)

/-- Without a secret there is nothing to hide. -/
theorem hides_of_no_secret (h : ∀ e ∈ m.values, isSecretKey definition e.1 = false) : HidesSecrets definition m := by
  have hsame : ∀ m', SameButSecrets definition m m' → m = m' := by
    intro m' hm'
    have hvalues : m.values = m'.values := by
      have hall := hm'.values
      generalize m.values = xs at hall h
      generalize m'.values = ys at hall
      induction hall with
      | nil => rfl
      | cons hhead _ ih =>
        rw [ih fun e he => h e (List.mem_cons_of_mem _ he)]
        exact congrArg (· :: _) (Prod.ext hhead.1 (hhead.2 (h _ List.mem_cons_self)))
    cases m
    cases m'
    obtain rfl := hvalues
    obtain rfl := hm'.named
    obtain rfl := hm'.managed
    rfl
  intro a b ha hb _ _ shown shown' hshown hshown'
  rw [← hsame a ha] at hshown
  rw [← hsame b hb, hshown] at hshown'
  exact Except.ok.inj hshown'

/-! ## A pair of assignments -/

/-- The slots of a template: its text with the public values, and the names of the secrets. -/
def slotsFrom (definition : TemplateDefinition) (m : Merged) : Nat → Str → List Slot
  | _, [] => []
  | n + 1, _ :: s => slotsFrom definition m n s
  | 0, c :: s =>
    match placeholder (c :: s) with
    | none => .text c :: slotsFrom definition m 0 s
    | some (name, len) =>
      if isSecretKey definition name then .name name :: slotsFrom definition m (len - 1) s
      else (valueOf m name).map .text ++ slotsFrom definition m (len - 1) s

/-- A rendered template is its slots with the secrets put in. -/
theorem renderFrom_slots {d : Dict Str Str} {f : Str → Str}
    (hd : ∀ k w, d.get? k = some w → (if isSecretKey definition k then f k else valueOf m k) = w) :
    ∀ {n : Nat} {s t : Str}, renderFrom d n s = .ok t → t = Slot.eval f (slotsFrom definition m n s)
  | n, [], t, hr => by cases n <;> exact (Except.ok.inj hr).symm
  | n + 1, c :: s, t, hr => renderFrom_slots hd (n := n) (s := s) hr
  | 0, c :: s, t, hr => by
    rw [renderFrom] at hr
    rw [slotsFrom]
    revert hr
    cases placeholder (c :: s) with
    | none =>
      intro hr
      dsimp only at hr ⊢
      cases hrest : renderFrom d 0 s with
      | error e =>
        rw [hrest] at hr
        cases hr
      | ok u =>
        rw [hrest] at hr
        obtain rfl := Except.ok.inj hr
        exact congrArg (c :: ·) (renderFrom_slots hd hrest)
    | some place =>
      obtain ⟨name, len⟩ := place
      intro hr
      dsimp only at hr ⊢
      cases hget : d.get? name with
      | none =>
        rw [hget] at hr
        cases hr
      | some w =>
        rw [hget] at hr
        have hw := hd name w hget
        cases hrest : renderFrom d (len - 1) s with
        | error e =>
          rw [hrest] at hr
          cases hr
        | ok u =>
          rw [hrest] at hr
          obtain rfl := Except.ok.inj hr
          have hu := renderFrom_slots hd hrest
          by_cases hsecret : isSecretKey definition name = true
          · rw [if_pos hsecret] at hw ⊢
            rw [Slot.eval, hw, ← hu]
          · rw [if_neg hsecret] at hw ⊢
            rw [Slot.eval_append, Slot.eval_text, hw, ← hu]

theorem renderText_slots {f t : Str} (h : renderText f (subValues m.values) = .ok t) : t = Slot.eval (valueOf m) (slotsFrom definition m 0 f) := by
  refine renderFrom_slots (fun k w hk => ?_) h
  have hvalue : valueOf m k = w := by rw [valueOf, hk, Option.getD_some]
  rw [hvalue, ite_self]

theorem renderText_slots_set {f t : Str} (h : renderText f (subValues (setSecrets definition v m).values) = .ok t) :
    t = Slot.eval (fun _ => v) (slotsFrom definition m 0 f) := by
  refine renderFrom_slots (fun k w hk => ?_) h
  rw [get?_setSecrets] at hk
  obtain ⟨u, hu, rfl⟩ := Option.map_eq_some_iff.1 hk
  by_cases hsecret : isSecretKey definition k = true
  · rw [if_pos hsecret, if_pos hsecret]
  · rw [if_neg hsecret, if_neg hsecret, valueOf, hu, Option.getD_some]

/-- The slots of a file: its template's, or for a compose file any with which it is the same text with its secrets and with masks for them. -/
inductive IsSlots (definition : TemplateDefinition) (m : Merged) (f : Str × Str) : List Slot → Prop
  | template (hfile : f.1 ∉ composeFiles) : IsSlots definition m f (slotsFrom definition m 0 f.2)
  | synced (slots : List Slot) (hsecrets : fileText definition m f = .ok (Slot.eval (valueOf m) slots))
      (hmasks : fileText definition (setSecrets definition secretMask m) f = .ok (Slot.eval (fun _ => secretMask) slots)) :
      IsSlots definition m f slots

/-- The secrets stand in a file at their places and nowhere else, and what is too short to be looked for stands only where `.env` hides it. -/
structure FileInPlace (definition : TemplateDefinition) (m : Merged) (f : Str × Str) (slots : List Slot) : Prop where
  own : IsSlots definition m f slots
  placed : Slot.PlacedAll secretMask (maskedValues (secretsOf definition m)) (valueOf m) slots
  long : lastPart f.1 ≠ envPath → ∀ k ∈ Slot.names slots, valueOf m k ∈ maskedValues (secretsOf definition m)
  hidden : lastPart f.1 = envPath →
    maskEnvFileBody (Slot.eval (fun k => if valueOf m k ∈ maskedValues (secretsOf definition m) then secretMask else valueOf m k) slots)
        ((secretsOf definition m).keys ++ (secretsOf definition m).keys) =
      maskEnvFileBody (Slot.eval (fun _ => secretMask) slots) ((secretsOf definition m).keys ++ (secretsOf definition m).keys)

def InPlace (definition : TemplateDefinition) (m : Merged) : Prop :=
  ∀ f ∈ definition.fileContents, isSecretsPath f.1 = true ∨ ∃ slots, FileInPlace definition m f slots

/-- What the page shows of a file that is rendered with masks for the secrets. -/
def shownText (keys : List Str) (path text : Str) : Str :=
  if isSecretsPath path then secretMask else if lastPart path = envPath then maskEnvFileBody text (keys ++ keys) else text

theorem fileInPlace_eval {f : Str × Str} {slots : List Slot} (hslots : IsSlots definition m f slots) {text masked : Str}
    (htext : fileText definition m f = .ok text) (hmasked : fileText definition (setSecrets definition secretMask m) f = .ok masked) :
    text = Slot.eval (valueOf m) slots ∧ masked = Slot.eval (fun _ => secretMask) slots := by
  cases hslots with
  | template hfile =>
    obtain ⟨rendered, hrender, hout⟩ := fileText_eq_ok.1 htext
    obtain ⟨rendered', hrender', hout'⟩ := fileText_eq_ok.1 hmasked
    rw [if_neg hfile] at hout hout'
    subst hout hout'
    exact ⟨renderText_slots hrender, renderText_slots_set hrender'⟩
  | synced _ hsecrets hmasks => exact ⟨Except.ok.inj (htext.symm.trans hsecrets), Except.ok.inj (hmasked.symm.trans hmasks)⟩

/-- A file whose secrets are in place is shown as it is with masks for them. -/
theorem shown_of_inPlace {f : Str × Str} {slots : List Slot} (h : FileInPlace definition m f slots) (hgiven : Given definition m) {text masked : Str}
    (htext : fileText definition m f = .ok text) (hmasked : fileText definition (setSecrets definition secretMask m) f = .ok masked) :
    shownText (secretsOf definition m).keys f.1 (maskText (secretsOf definition m) text) = shownText (secretsOf definition m).keys f.1 masked := by
  obtain ⟨rfl, rfl⟩ := fileInPlace_eval h.own htext hmasked
  have hvalues : ∀ v ∈ maskedValues (secretsOf definition m), v ≠ [] ∧ '*' ∉ v := by
    intro v hv
    obtain ⟨⟨k, hk⟩, -⟩ := mem_maskedValues.1 hv
    rw [secretsOf_eq] at hk
    exact hgiven (k, v) (List.mem_filter.1 hk).1 (List.mem_filter.1 hk).2
  have hmask : maskText (secretsOf definition m) (Slot.eval (valueOf m) slots) =
      Slot.eval (fun k => if valueOf m k ∈ maskedValues (secretsOf definition m) then secretMask else valueOf m k) slots :=
    Slot.foldl_eval (fun v hv => (hvalues v hv).1) (fun hmem => (hvalues _ hmem).2 (by decide)) h.placed
  rw [hmask]
  unfold shownText
  split
  · rfl
  · split
    · exact h.hidden ‹_›
    · exact Slot.eval_congr fun k hk => if_pos (h.long ‹_› k hk)

theorem redactFilesForUi_eq {files secrets : Dict Str Str} : redactFilesForUi files secrets secrets.keys false =
    files.map fun f => (f.1, shownText secrets.keys f.1 (maskText secrets f.2)) := by
  unfold redactFilesForUi maskSecretsInFiles
  rw [if_neg Bool.false_ne_true, List.map_map]
  rfl

/-- A page with all secrets in place is the page with masks for them. -/
theorem previewFiles_of_inPlace (hin : InPlace definition m) (hgiven : Given definition m) {shown : Dict Str Str}
    (h : previewFiles definition m = .ok shown) : ∃ files, renderTemplateFiles definition (setSecrets definition secretMask m) = .ok files ∧
      shown = files.map fun f => (f.1, shownText (secretsOf definition m).keys f.1 f.2) := by
  obtain ⟨files, hfiles, rfl⟩ := previewFiles_eq_ok.1 h
  obtain ⟨masked, hmasked⟩ : ∃ masked, renderTemplateFiles definition (setSecrets definition secretMask m) = .ok masked :=
    render_set_ok (fun k hk => get?_setSecrets_ne_none.2 hk) hfiles
  refine ⟨masked, hmasked, ?_⟩
  rw [redactFilesForUi_eq]
  have hfirst := render_iff.1 hfiles
  have hsecond := render_iff.1 hmasked
  have hall : ∀ f ∈ definition.fileContents, isSecretsPath f.1 = true ∨ ∃ slots, FileInPlace definition m f slots := hin
  generalize definition.fileContents = contents at hfirst hsecond hall
  clear hfiles hmasked h
  induction hfirst generalizing masked with
  | nil =>
    cases hsecond
    rfl
  | cons hhead _ ih =>
    cases hsecond with
    | cons hhead' htail' =>
      rw [List.map_cons, List.map_cons, ih _ htail' fun f hf => hall f (List.mem_cons_of_mem _ hf)]
      refine congrArg (· :: _) ?_
      rename_i f out fs outs out' outs' _
      obtain ⟨hpath, htext⟩ := hhead
      obtain ⟨hpath', htext'⟩ := hhead'
      rw [hpath, hpath']
      refine Prod.ext rfl ?_
      dsimp only
      obtain hsecrets | ⟨slots, hslots⟩ := hall f List.mem_cons_self
      · rw [shownText, shownText, if_pos hsecrets, if_pos hsecrets]
      · exact shown_of_inPlace hslots hgiven htext htext'

theorem keys_secretsOf_set (v : Str) (m : Merged) : (secretsOf definition (setSecrets definition v m)).keys = (secretsOf definition m).keys := by
  rw [secretsOf_eq, secretsOf_eq, setSecrets, List.filter_map]
  unfold Dict.keys
  rw [List.map_map]
  rfl

/-- Two assignments that are in place are shown alike. -/
theorem preview_eq_of_inPlace (ha : SameButSecrets definition m a) (hb : SameButSecrets definition m b) (hgivenA : Given definition a)
    (hgivenB : Given definition b) (hinA : InPlace definition a) (hinB : InPlace definition b) {shown shown' : Dict Str Str}
    (hshown : previewFiles definition a = .ok shown) (hshown' : previewFiles definition b = .ok shown') : shown = shown' := by
  obtain ⟨files, hfiles, rfl⟩ := previewFiles_of_inPlace hinA hgivenA hshown
  obtain ⟨files', hfiles', rfl⟩ := previewFiles_of_inPlace hinB hgivenB hshown'
  have hset : setSecrets definition secretMask a = setSecrets definition secretMask b :=
    (setSecrets_congr secretMask ha).symm.trans (setSecrets_congr secretMask hb)
  rw [hset, hfiles'] at hfiles
  obtain rfl := Except.ok.inj hfiles
  have hkeys : (secretsOf definition a).keys = (secretsOf definition b).keys := by
    rw [← keys_secretsOf_set secretMask a, hset, keys_secretsOf_set]
  rw [hkeys]

end

/-- The page of a template that speaks hides the secrets exactly where there is none; and it shows any two assignments alike whose values
stand in the files at their places and nowhere else. -/
theorem redact_hides_secrets (definition : TemplateDefinition) (m : Merged) :
    (Speaks definition m → (HidesSecrets definition m ↔ ∀ e ∈ m.values, isSecretKey definition e.1 = false)) ∧
      ∀ a b, SameButSecrets definition m a → SameButSecrets definition m b → Given definition a → Given definition b →
        InPlace definition a → InPlace definition b →
        ∀ shown shown', previewFiles definition a = .ok shown → previewFiles definition b = .ok shown' → shown = shown' := by
  refine ⟨fun hspeaks => ⟨fun hhides e he => ?_, hides_of_no_secret⟩, ?_⟩
  · by_contra hsecret
    exact not_hides_of_secret hspeaks he (Bool.not_eq_false _ ▸ hsecret) hhides
  · exact fun a b ha hb hgivenA hgivenB hinA hinB shown shown' => preview_eq_of_inPlace ha hb hgivenA hgivenB hinA hinB

/-- A database whose password is in `.env`, and whose number is in the compose file. -/
def database : TemplateDefinition where
  slug := lit "db"
  name := lit "Database"
  vars := [{ name := lit "PASSWORD", secret := true }, { name := lit "PIN" }]
  fileContents := [(lit "docker-compose.yml", lit "services:\n  db:\n    pin: \x7b\x7bPIN\x7d\x7d\n"),
    (lit ".env", lit "PASSWORD=\x7b\x7bPASSWORD\x7d\x7d\n")]

def databaseValues : Merged := { values := [(lit "PASSWORD", lit "hunter22"), (lit "PIN", lit "123")] }

theorem speaks_database : Speaks database databaseValues :=
  ⟨[(lit "docker-compose.yml", lit "services:\n  db:\n    pin: 123\n"), (lit ".env", lit "PASSWORD=q\n")], by decide +kernel,
    (lit "docker-compose.yml", lit "services:\n  db:\n    pin: 123\n"), by decide +kernel, by decide +kernel, by decide +kernel,
    lit "services", by decide +kernel, by decide +kernel, by decide +kernel⟩

theorem inPlace_database {v : Str} (h : v = lit "hunter22" ∨ v = lit "correct horse") : InPlace database (setSecrets database v databaseValues) := by
  intro f hf
  refine Or.inr ?_
  rcases List.mem_cons.1 hf with rfl | hf
  · refine ⟨(lit "services:\n  db:\n    pin: 123\n").map .text, .synced _ ?_ ?_, ?_, fun _ k hk => ?_, fun henv => ?_⟩
    · rcases h with rfl | rfl <;> decide +kernel
    · rcases h with rfl | rfl <;> decide +kernel
    · rcases h with rfl | rfl <;> decide +kernel
    · rw [Slot.names_text] at hk
      cases hk
    · exact absurd henv (by decide +kernel)
  · rcases List.mem_singleton.1 hf with rfl
    refine ⟨_, .template (by decide +kernel), ?_, fun henv => ?_, fun _ => ?_⟩
    · rcases h with rfl | rfl <;> decide +kernel
    · exact absurd (by decide +kernel) henv
    · rcases h with rfl | rfl <;> decide +kernel

theorem passwords_shown_alike :
    (HidesSecrets database databaseValues ↔ ∀ e ∈ databaseValues.values, isSecretKey database e.1 = false) ∧
      ∀ shown shown', previewFiles database (setSecrets database (lit "hunter22") databaseValues) = .ok shown →
        previewFiles database (setSecrets database (lit "correct horse") databaseValues) = .ok shown' → shown = shown' :=
  ⟨(redact_hides_secrets database databaseValues).1 speaks_database,
    (redact_hides_secrets database databaseValues).2 _ _ (sameButSecrets_set _ _) (sameButSecrets_set _ _) (given_set (by decide)) (given_set (by decide))
      (inPlace_database (Or.inl rfl)) (inPlace_database (Or.inr rfl))⟩

/-- The same with the number as a secret. -/
def pinned : TemplateDefinition := { database with vars := [{ name := lit "PASSWORD" }, { name := lit "PIN", secret := true }] }

theorem pin_is_shown : ¬ ∀ (definition : TemplateDefinition) (m : Merged), HidesSecrets definition m := by
  intro h
  have hsame := h pinned databaseValues _ _ (sameButSecrets_set (lit "123") _) (sameButSecrets_set (lit "456") _) (given_set (by decide))
    (given_set (by decide)) [(lit "docker-compose.yml", lit "services:\n  db:\n    pin: 123\n"), (lit ".env", lit "PASSWORD=********\n")]
    [(lit "docker-compose.yml", lit "services:\n  db:\n    pin: 456\n"), (lit ".env", lit "PASSWORD=********\n")]
    (by decide +kernel) (by decide +kernel)
  exact absurd hsame (by decide +kernel)

end PiHerder.Stacks
