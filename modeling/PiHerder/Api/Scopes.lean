import PiHerder.Lib.Path

/-!
# Scopes of API tokens (`services/api_tokens.py`, `services/mcp_oauth.py`)

A token's scopes are a comma-separated text, and those of a sign-in a text of words. Both are read back through
the function that normalizes what was asked for.

| here | there |
| --- | --- |
| `normalizeScopes`, `scopesCsv`, `parseScopes` | `api_tokens.py:112`–`132` |
| `parseOauthScopes`                            | `mcp_oauth.py:119` |
| `consentScopes`                               | `routers/mcp_oauth.py:216`–`221` |
-/
namespace PiHerder.Api
open Lib Lib.Str

def scopeRead : Str := lit "read"
def scopeAdmin : Str := lit "admin"

/-- `VALID_SCOPES`, sorted. -/
def validScopes : List Str :=
  [scopeAdmin, lit "edit", lit "feature:backup", lit "feature:docker", lit "feature:os", lit "files", lit "jobs", scopeRead]

/-- `CAPABILITY_SCOPES`. -/
def capabilityScopes : List Str := [scopeRead, lit "jobs", lit "edit", lit "files", scopeAdmin]

/-- `DEFAULT_SCOPES`. -/
def defaultScopes : List Str := [scopeRead, lit "jobs"]

/-- `Iterable[str] | str | None`. -/
inductive ScopeInput
  | none
  | text (s : Str)
  | list (l : List Str)
deriving Repr

/-- The names of an input, before those that are no scopes are dropped. -/
def ScopeInput.raw : ScopeInput → List Str
  | .none => defaultScopes
  | .text s => (((split ',' (s.filter (· != ' '))).filter fun w => !(strip w).isEmpty).map strip).map lower
  | .list l => ((l.filter fun w => !(strip w).isEmpty).map strip).map lower

/-- `sorted({s for s in raw if s in VALID_SCOPES})`, with `read` where there is no capability. -/
def sortedScopes (raw : List Str) : List Str :=
  let out := validScopes.filter raw.contains
  if out.any capabilityScopes.contains then out else validScopes.filter fun s => out.contains s || s == scopeRead

def normalizeScopes (scopes : ScopeInput) : List Str := sortedScopes scopes.raw

def scopesCsv (scopes : ScopeInput) : Str := join ',' (normalizeScopes scopes)

def parseScopes (csv : Str) : List Str := normalizeScopes (.text csv)

/-- One word of `parse_oauth_scopes`. -/
def addOauthScope (out : List Str) (part : Str) : List Str :=
  let name := lower (strip part)
  if name = scopeAdmin then out
  else if capabilityScopes.contains name && !out.contains name then out ++ [name]
  else out

def parseOauthScopes (raw : Str) : List Str :=
  let out := (words (raw.map fun c => if c = ',' then ' ' else c)).foldl addOauthScope []
  if out.contains scopeRead then out else scopeRead :: out

/-- `SCOPES` of the sign-in. -/
def oauthScopes : List Str := [scopeRead, lit "jobs", lit "edit", lit "files"]

/-- What is granted of the scopes that were asked for, by the boxes that were ticked. -/
def consentScopes (pending picked : List Str) : List Str :=
  let requested := pending.filter oauthScopes.contains
  let granted := requested.filter fun name => picked.contains name || name == scopeRead
  let granted := if granted.contains scopeRead then granted else scopeRead :: granted
  granted.filter requested.contains

/-! ## Reading back -/

theorem mem_sortedScopes {raw : List Str} {x : Str} (h : x ∈ sortedScopes raw) : x ∈ validScopes ∧ (x ∈ raw ∨ x = scopeRead) := by
  unfold sortedScopes at h
  dsimp only at h
  split at h
  · obtain ⟨hv, hr⟩ := List.mem_filter.1 h
    exact ⟨hv, Or.inl (by simpa using hr)⟩
  · obtain ⟨hv, hr⟩ := List.mem_filter.1 h
    refine ⟨hv, ?_⟩
    rcases Bool.or_eq_true_iff.1 hr with hr | hr
    · exact Or.inl (by simpa using (List.mem_filter.1 (List.contains_iff_mem.1 hr)).2)
    · exact Or.inr (by simpa using hr)

/-- What is normalized has a capability. -/
theorem sortedScopes_capability (raw : List Str) : ∃ x ∈ sortedScopes raw, x ∈ capabilityScopes := by
  unfold sortedScopes
  dsimp only
  split
  · rename_i h
    obtain ⟨x, hx, hc⟩ := List.any_eq_true.1 h
    exact ⟨x, hx, by simpa using hc⟩
  · refine ⟨scopeRead, List.mem_filter.2 ⟨by decide, ?_⟩, by decide⟩
    rw [Bool.or_eq_true_iff]
    exact Or.inr (beq_self_eq_true _)

/-- Normalizing a second time changes nothing. -/
theorem sortedScopes_idem (raw : List Str) : sortedScopes (sortedScopes raw) = sortedScopes raw := by
  have hself : validScopes.filter (sortedScopes raw).contains = sortedScopes raw := by
    unfold sortedScopes
    dsimp only
    split
    · refine List.filter_congr fun x hx => ?_
      rw [Bool.eq_iff_iff]
      simp [hx]
    · refine List.filter_congr fun x hx => ?_
      rw [Bool.eq_iff_iff]
      simp [hx]
  obtain ⟨x, hx, hc⟩ := sortedScopes_capability raw
  rw [sortedScopes]
  rw [hself, if_pos (List.any_eq_true.2 ⟨x, hx, by simpa using hc⟩)]

/-- The names of scopes survive the text. -/
theorem validScopes_plain : ∀ x ∈ validScopes, ',' ∉ x ∧ ' ' ∉ x ∧ x ≠ [] ∧ strip x = x ∧ lower x = x := by
  decide +kernel

theorem raw_join {l : List Str} (hl : ∀ x ∈ l, x ∈ validScopes) (hne : l ≠ []) : (ScopeInput.text (join ',' l)).raw = l := by
  have hblank : (join ',' l).filter (· != ' ') = join ',' l := by
    refine List.filter_eq_self.2 fun c hc => ?_
    rcases mem_join hc with rfl | ⟨w, hw, hcw⟩
    · rfl
    · have hno := (validScopes_plain w (hl w hw)).2.1
      simp only [bne_iff_ne, ne_eq]
      rintro rfl
      exact hno hcw
  simp only [ScopeInput.raw]
  rw [hblank, split_join hne fun w hw => (validScopes_plain w (hl w hw)).1]
  have hfilter : (l.filter fun w => !(strip w).isEmpty) = l := by
    refine List.filter_eq_self.2 fun w hw => ?_
    obtain ⟨-, -, hnil, hstrip, -⟩ := validScopes_plain w (hl w hw)
    simp [hstrip, hnil]
  rw [hfilter, List.map_map]
  refine (List.map_congr_left fun w hw => ?_).trans (List.map_id _)
  obtain ⟨-, -, -, hstrip, hlower⟩ := validScopes_plain w (hl w hw)
  simp [hstrip, hlower]

/-- **The text of a token's scopes reads back.** -/
theorem parseScopes_scopesCsv (scopes : ScopeInput) : parseScopes (scopesCsv scopes) = normalizeScopes scopes := by
  unfold parseScopes scopesCsv
  have hvalid : ∀ x ∈ normalizeScopes scopes, x ∈ validScopes := fun x hx => (mem_sortedScopes hx).1
  have hne : normalizeScopes scopes ≠ [] := by
    obtain ⟨x, hx, -⟩ := sortedScopes_capability scopes.raw
    exact List.ne_nil_of_mem hx
  rw [normalizeScopes, raw_join hvalid hne]
  exact sortedScopes_idem scopes.raw

theorem mem_normalizeScopes_list {l : List Str} {x : Str} (hl : ∀ y ∈ l, y ∈ validScopes) (hr : scopeRead ∈ l)
    (h : x ∈ normalizeScopes (.list l)) : x ∈ l := by
  rcases (mem_sortedScopes h).2 with hin | rfl
  · simp only [ScopeInput.raw, List.mem_map, List.mem_filter] at hin
    obtain ⟨w, ⟨v, ⟨hv, -⟩, rfl⟩, rfl⟩ := hin
    obtain ⟨-, -, -, hstrip, hlower⟩ := validScopes_plain v (hl v hv)
    rw [hstrip, hlower]
    exact hv
  · exact hr

/-! ## A sign-in -/

theorem mem_addOauthScope {out : List Str} {part x : Str} (h : x ∈ addOauthScope out part) :
    x ∈ out ∨ x = lower (strip part) ∧ x ∈ capabilityScopes ∧ x ≠ scopeAdmin := by
  unfold addOauthScope at h
  dsimp only at h
  split at h
  · exact Or.inl h
  · rename_i hadmin
    split at h
    · rename_i hcap
      rcases List.mem_append.1 h with h | h
      · exact Or.inl h
      · obtain rfl := List.mem_singleton.1 h
        exact Or.inr ⟨rfl, by simpa using (Bool.and_eq_true_iff.1 hcap).1, hadmin⟩
    · exact Or.inl h

/-- Only capabilities that the text names, `admin` aside, and `read`. -/
theorem mem_parseOauthScopes {raw x : Str} (h : x ∈ parseOauthScopes raw) : x = scopeRead ∨
    (∃ part ∈ words (raw.map fun c => if c = ',' then ' ' else c), x = lower (strip part)) ∧ x ∈ capabilityScopes ∧ x ≠ scopeAdmin := by
  have hfold : ∀ (parts out : List Str), x ∈ parts.foldl addOauthScope out →
      x ∈ out ∨ (∃ part ∈ parts, x = lower (strip part)) ∧ x ∈ capabilityScopes ∧ x ≠ scopeAdmin := by
    intro parts
    induction parts with
    | nil => exact fun out h => Or.inl h
    | cons part parts ih =>
      intro out h
      rcases ih _ h with hin | ⟨⟨p, hp, hx⟩, hrest⟩
      · exact (mem_addOauthScope hin).imp_right fun ⟨hx, hrest⟩ => ⟨⟨part, by simp, hx⟩, hrest⟩
      · exact Or.inr ⟨⟨p, List.mem_cons_of_mem _ hp, hx⟩, hrest⟩
  unfold parseOauthScopes at h
  dsimp only at h
  split at h
  · exact (hfold _ _ h).elim (fun h => by cases h) Or.inr
  · rcases List.mem_cons.1 h with h | h
    · exact Or.inl h
    · exact (hfold _ _ h).elim (fun h => by cases h) Or.inr

theorem scopeRead_mem_parseOauthScopes (raw : Str) : scopeRead ∈ parseOauthScopes raw := by
  unfold parseOauthScopes
  dsimp only
  split
  · rename_i h
    simpa using h
  · exact List.mem_cons_self

theorem parseOauthScopes_oauth {raw x : Str} (h : x ∈ parseOauthScopes raw) : x ∈ oauthScopes := by
  have hsub : ∀ y ∈ capabilityScopes, y ≠ scopeAdmin → y ∈ oauthScopes := by decide
  rcases mem_parseOauthScopes h with rfl | ⟨-, hcap, hadmin⟩
  · decide
  · exact hsub x hcap hadmin

/-- The words of a sign-in are read back, and no others. -/
theorem parseOauthScopes_join {l : List Str} (hl : ∀ y ∈ l, y ∈ oauthScopes) (hr : scopeRead ∈ l) {x : Str}
    (h : x ∈ parseOauthScopes (join ' ' l)) : x ∈ l := by
  have hplain : ∀ y ∈ oauthScopes, ',' ∉ y ∧ y ≠ [] ∧ y.all (fun c => !isSpace c) = true ∧ lower (strip y) = y := by
    decide +kernel
  have hword : ∀ y ∈ l, y ≠ [] ∧ ∀ c ∈ y, isSpace c = false := fun y hy =>
    ⟨(hplain y (hl y hy)).2.1, by simpa using (hplain y (hl y hy)).2.2.1⟩
  have hcomma : (join ' ' l).map (fun c => if c = ',' then ' ' else c) = join ' ' l := by
    refine (List.map_congr_left fun c hc => ?_).trans (List.map_id _)
    rcases mem_join hc with rfl | ⟨w, hw, hcw⟩
    · rfl
    · have hne : c ≠ ',' := by
        rintro rfl
        exact (hplain w (hl w hw)).1 hcw
      simp [hne]
  rcases mem_parseOauthScopes h with rfl | ⟨⟨part, hpart, rfl⟩, -⟩
  · exact hr
  · rw [hcomma, words_join hword] at hpart
    rw [(hplain part (hl part hpart)).2.2.2]
    exact hpart

theorem mem_consentScopes {pending picked : List Str} {x : Str} (h : x ∈ consentScopes pending picked) :
    x ∈ pending ∧ x ∈ oauthScopes := by
  unfold consentScopes at h
  simpa using (List.mem_filter.1 h).2

theorem scopeRead_mem_consentScopes {pending : List Str} (hr : scopeRead ∈ pending) (picked : List Str) :
    scopeRead ∈ consentScopes pending picked := by
  have hreq : scopeRead ∈ pending.filter oauthScopes.contains := List.mem_filter.2 ⟨hr, by decide⟩
  unfold consentScopes
  dsimp only
  refine List.mem_filter.2 ⟨?_, by simpa using hreq⟩
  split
  · rename_i h
    simpa using h
  · exact List.mem_cons_self

end PiHerder.Api
