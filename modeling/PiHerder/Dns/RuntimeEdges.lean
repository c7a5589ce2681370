import PiHerder.Lib.PyStr
import PiHerder.Lib.Runs
import PiHerder.Lib.Table

/-!
# Runtime edges

What an operator said of the dependencies between containers, and the panel of a stack that shows them.

| here | there |
| --- | --- |
| `RuntimeEdge` | `models.py:828` |
| `norm`, `edgeKey`, `rowKey`, `findEdge` | `services/runtime_edges.py:12`–`74` |
| `listEdgesForProject` | `services/runtime_edges.py:77` |
| `acceptSuggestion`, `dismissSuggestion`, `createManualEdge` | `services/runtime_edges.py:140`–`306` |
| `deleteEdge`, `undismissEdge` | `services/runtime_edges.py:309`–`327` |
| `partitionForPanel` | `services/runtime_edges.py:338` |
| `EdgeCall` | `routers/dns.py:862`–`1050` |

The names of an edge are cut to 200 characters when it is stored, and looked for as they were given: what is said of a longer
name is not found again (`EdgeName.Fits`).
-/
namespace PiHerder.Dns
open Lib Str

def norm (s : Option Str) : Str := strip (s.getD [])

/-- The two ends, as the operator gave them. -/
structure EdgeName where
  fromServerId : Nat
  fromProject : Str
  fromContainer : Option Str := none
  toServerId : Nat
  toProject : Str
  toContainer : Option Str := none
deriving DecidableEq, Repr

structure EdgeKey where
  fromServerId : Nat
  fromProject : Str
  fromContainer : Str
  toServerId : Nat
  toProject : Str
  toContainer : Str
deriving DecidableEq, Repr

def edgeKey (n : EdgeName) : EdgeKey where
  fromServerId := n.fromServerId
  fromProject := lower (norm (some n.fromProject))
  fromContainer := lower (norm n.fromContainer)
  toServerId := n.toServerId
  toProject := lower (norm (some n.toProject))
  toContainer := lower (norm n.toContainer)

inductive EdgeSource
  | suggested
  | accepted
  | manual
deriving DecidableEq, Repr

structure RuntimeEdge where
  id : Nat
  name : EdgeName
  kind : Str
  source : EdgeSource
  confidence : Int
  note : Option Str := none
  dismissedAt : Option Int := none
  createdAt : Int
  updatedAt : Int
  createdByUserId : Option Nat := none
deriving DecidableEq, Repr

def rowKey (row : RuntimeEdge) : EdgeKey := edgeKey row.name

abbrev Edges := Keyed RuntimeEdge Nat RuntimeEdge.id

def findEdge (n : EdgeName) (t : Edges) : Option RuntimeEdge :=
  (t.rows.filter fun r => r.name.fromServerId == n.fromServerId && r.name.toServerId == n.toServerId).find? fun r => decide (rowKey r = edgeKey n)

/-- `s or None` -/
def orNone (s : Str) : Option Str := if s = [] then none else some s

/-- `s or d` -/
def orElse (s d : Str) : Str := if s = [] then d else s

/-- The names as the row stores them. -/
def EdgeName.stored (n : EdgeName) : EdgeName where
  fromServerId := n.fromServerId
  fromProject := (norm (some n.fromProject)).take 200
  fromContainer := orNone ((norm n.fromContainer).take 200)
  toServerId := n.toServerId
  toProject := (norm (some n.toProject)).take 200
  toContainer := orNone ((norm n.toContainer).take 200)

def newEdgeId (t : Edges) : Nat := freshId (t.rows.map RuntimeEdge.id)

theorem newEdgeId_fresh (t : Edges) : newEdgeId t ∉ t.rows.map RuntimeEdge.id := freshId_not_mem _

def addEdge (row : RuntimeEdge) (t : Edges) : Edges := t.insert { row with id := newEdgeId t } (newEdgeId_fresh t)

def writeEdge (id : Nat) (f : RuntimeEdge → RuntimeEdge) (hf : ∀ r, (f r).id = r.id) (t : Edges) : Edges := t.modify id f hf

def acceptSuggestion (now : Int) (user : Option Nat) (n : EdgeName) (kind : Str) (confidence : Int) (note : Option Str) (t : Edges) : Edges :=
  match findEdge n t with
  | some existing =>
    writeEdge existing.id (fun r => { r with
      dismissedAt := none
      source := .accepted
      kind := (orElse kind (orElse r.kind (lit "depends_on"))).take 32
      confidence := if confidence ≠ 0 then confidence else if r.confidence ≠ 0 then r.confidence else 85
      note := if note.isSome then orNone ((note.getD []).take 500) else r.note
      updatedAt := now }) (fun _ => rfl) t
  | none =>
    addEdge {
      id := 0
      name := n.stored
      kind := (orElse kind (lit "depends_on")).take 32
      source := .accepted
      confidence := if confidence ≠ 0 then confidence else 85
      note := orNone ((note.getD []).take 500)
      createdByUserId := user
      createdAt := now
      updatedAt := now } t

def dismissSuggestion (now : Int) (user : Option Nat) (n : EdgeName) (t : Edges) : Edges :=
  match findEdge n t with
  | some existing => writeEdge existing.id (fun r => { r with dismissedAt := some now, updatedAt := now }) (fun _ => rfl) t
  | none =>
    addEdge {
      id := 0
      name := n.stored
      kind := lit "depends_on"
      source := .suggested
      confidence := 0
      dismissedAt := some now
      createdByUserId := user
      createdAt := now
      updatedAt := now } t

def createManualEdge (now : Int) (user : Option Nat) (n : EdgeName) (kind : Str) (note : Option Str) (t : Edges) : Edges :=
  match findEdge n t with
  | some existing =>
    writeEdge existing.id (fun r => { r with
      dismissedAt := none
      source := .manual
      kind := (orElse kind (lit "talks_to")).take 32
      confidence := 100
      note := orNone ((note.getD []).take 500)
      updatedAt := now
      createdByUserId := r.createdByUserId.or user }) (fun _ => rfl) t
  | none =>
    addEdge {
      id := 0
      name := n.stored
      kind := (orElse kind (lit "talks_to")).take 32
      source := .manual
      confidence := 100
      note := orNone ((note.getD []).take 500)
      createdByUserId := user
      createdAt := now
      updatedAt := now } t

def deleteEdge (edgeId : Nat) (t : Edges) : Edges :=
  ⟨t.rows.filter fun r => r.id != edgeId, t.nodup.sublist (List.filter_sublist.map _)⟩

def undismissEdge (now : Int) (edgeId : Nat) (t : Edges) : Edges :=
  writeEdge edgeId (fun r => { r with dismissedAt := none, updatedAt := now }) (fun _ => rfl) t

/-! ## The panel -/

/-- A row that `list_edges_for_project` takes, branch by branch. -/
def touches (serverId : Nat) (proj : Str) (r : RuntimeEdge) : Bool :=
  let fp := lower (norm (some r.name.fromProject))
  let tp := lower (norm (some r.name.toProject))
  if r.name.fromServerId = serverId ∧ fp = proj then true
  else if r.name.toServerId = serverId ∧ tp = proj then true
  else if fp = proj ∨ tp = proj then r.name.fromServerId == serverId || r.name.toServerId == serverId
  else false

def listEdgesForProject (serverId : Nat) (project : Str) (includeDismissed : Bool) (t : Edges) : List RuntimeEdge :=
  let proj := lower (norm (some project))
  if proj = [] ∨ serverId = 0 then []
  else
    let rows := t.rows.filter fun r => r.name.fromServerId == serverId || r.name.toServerId == serverId
    let out := rows.filter (touches serverId proj)
    if includeDismissed then out else out.filter fun r => r.dismissedAt.isNone

/-- What the inventory suggests. -/
structure Suggestion where
  fromName : Str
  toName : Str
  kind : Str := []
  source : Str := []
  confidence : Int := 0
  toServerId : Nat := 0
  toProject : Str := []
deriving DecidableEq, Repr

/-- `int(s.get("to_server_id") or server_id)` -/
def Suggestion.target (serverId : Nat) (s : Suggestion) : Nat := if s.toServerId = 0 then serverId else s.toServerId

/-- The edge that a suggestion on a panel is. -/
def Suggestion.name (serverId : Nat) (project : Str) (s : Suggestion) : EdgeName where
  fromServerId := serverId
  fromProject := project
  fromContainer := some (norm (some s.fromName))
  toServerId := s.target serverId
  toProject := norm (some (orElse s.toProject project))
  toContainer := some (norm (some s.toName))

/-- The same two containers on the panel's own project. -/
def Suggestion.sameName (serverId : Nat) (project : Str) (s : Suggestion) : EdgeName :=
  { s.name serverId project with toServerId := serverId, toProject := project }

structure OpenSuggestion where
  fromName : Str
  toName : Str
  kind : Str
  source : Str
  confidence : Int
  name : EdgeName
  crossHost : Bool
deriving DecidableEq, Repr

def Suggestion.opened (serverId : Nat) (project : Str) (s : Suggestion) : OpenSuggestion where
  fromName := norm (some s.fromName)
  toName := norm (some s.toName)
  kind := orElse s.kind (lit "depends_on")
  source := orElse s.source (lit "compose")
  confidence := s.confidence
  name := { s.name serverId project with toProject := orElse (norm (some (orElse s.toProject project))) project }
  crossHost := s.target serverId != serverId

structure PanelEdges where
  confirmed : List RuntimeEdge
  suggested : List OpenSuggestion
  dismissedCount : Nat

/-- The place of a confirmed edge: manual ones first, then by the names of its ends. -/
def confirmedOrder (r : RuntimeEdge) : Nat × Str × Str :=
  (if r.source = .manual then 0 else 1,
    lower (orElse (r.name.fromContainer.getD []) r.name.fromProject), lower (orElse (r.name.toContainer.getD []) r.name.toProject))

def suggestedOrder (s : OpenSuggestion) : Int × Str × Str := (-s.confidence, s.fromName, s.toName)

/-- Tuples are compared from the left. -/
def tupleLe {α : Type} [LT α] [DecidableLT α] [DecidableEq α] (a b : α × Str × Str) : Bool :=
  if a.1 = b.1 then if a.2.1 = b.2.1 then !decide (b.2.2 < a.2.2) else decide (a.2.1 < b.2.1) else decide (a.1 < b.1)

def confirmedEdge (r : RuntimeEdge) : Bool := r.dismissedAt.isNone && (r.source == .accepted || r.source == .manual)

def partitionForPanel (serverId : Nat) (project : Str) (suggestions : List Suggestion) (t : Edges) : PanelEdges :=
  let stored := listEdgesForProject serverId project true t
  let dismissedKeys := ((stored.filter fun r => r.dismissedAt.isSome).map rowKey).dedup
  let confirmed := stored.filter confirmedEdge
  let activeKeys := confirmed.map rowKey
  let opened := suggestions.filter fun s =>
    let key := edgeKey (s.name serverId project)
    let keySame := edgeKey (s.sameName serverId project)
    if norm (some s.fromName) = [] ∨ norm (some s.toName) = [] then false
    else if key ∈ dismissedKeys ∨ keySame ∈ dismissedKeys then false
    else decide (key ∉ activeKeys ∧ keySame ∉ activeKeys)
  { confirmed := confirmed.mergeSort fun a b => tupleLe (confirmedOrder a) (confirmedOrder b)
    suggested := (opened.map (Suggestion.opened serverId project)).mergeSort fun a b => tupleLe (suggestedOrder a) (suggestedOrder b)
    dismissedCount := dismissedKeys.length }

/-! ## Runs -/

inductive EdgeCall
  | accept (now : Int) (user : Option Nat) (n : EdgeName) (kind : Str) (confidence : Int) (note : Option Str)
  | dismiss (now : Int) (user : Option Nat) (n : EdgeName)
  | manual (now : Int) (user : Option Nat) (n : EdgeName) (kind : Str) (note : Option Str)
  | delete (edgeId : Nat)
  | undismiss (now : Int) (edgeId : Nat)

def EdgeCall.run (t : Edges) : EdgeCall → Edges
  | .accept now user n kind confidence note => acceptSuggestion now user n kind confidence note t
  | .dismiss now user n => dismissSuggestion now user n t
  | .manual now user n kind note => createManualEdge now user n kind note t
  | .delete edgeId => deleteEdge edgeId t
  | .undismiss now edgeId => undismissEdge now edgeId t

def noEdges : Edges := ⟨[], List.nodup_nil⟩

/-! ## What is said of an edge

Of each key at most one thing is said: where it comes from, and whether it is dismissed. A call says something of the key it
names, and of no other. -/

abbrev Answer := Option (EdgeSource × Bool)

def EdgeCall.tells : EdgeCall → Answer → Answer
  | .accept .., _ => some (.accepted, false)
  | .manual .., _ => some (.manual, false)
  | .dismiss .., a => some ((a.map Prod.fst).getD .suggested, true)
  | .delete _, _ => none
  | .undismiss .., a => a.map fun x => (x.1, false)

/-- The key of the row with this id. -/
def keyOf (id : Nat) (t : Edges) : Option EdgeKey := (Table.lookup RuntimeEdge.id id t.rows).map rowKey

def EdgeCall.about (t : Edges) : EdgeCall → Option EdgeKey
  | .accept _ _ n _ _ _ => some (edgeKey n)
  | .dismiss _ _ n => some (edgeKey n)
  | .manual _ _ n _ _ => some (edgeKey n)
  | .delete edgeId => keyOf edgeId t
  | .undismiss _ edgeId => keyOf edgeId t

/-- What a run of calls says of a key. -/
def saidOf (k : EdgeKey) : Edges → List EdgeCall → Answer → Answer
  | _, [], a => a
  | t, c :: calls, a => saidOf k (c.run t) calls (if c.about t = some k then c.tells a else a)

/-- What the rows say. -/
def RuntimeEdge.tells (r : RuntimeEdge) : EdgeSource × Bool := (r.source, r.dismissedAt.isSome)

def answer (k : EdgeKey) (t : Edges) : Answer := (Table.lookup rowKey k t.rows).map RuntimeEdge.tells

/-- Nothing is left to ask about an edge. -/
def settled (a : Answer) : Bool := a.any fun x => x.2 || x.1 != .suggested

/-- A suggestion with two ends, of which nothing that was said settles it. -/
def Suggestion.asked (serverId : Nat) (project : Str) (said : EdgeKey → Answer) (s : Suggestion) : Bool :=
  decide (norm (some s.fromName) ≠ [] ∧ norm (some s.toName) ≠ []) &&
    !settled (said (edgeKey (s.name serverId project))) && !settled (said (edgeKey (s.sameName serverId project)))

/-- The edge has an end on the panel's server, and one of the panel's project. -/
def EdgeKey.Touches (serverId : Nat) (project : Str) (k : EdgeKey) : Prop :=
  (k.fromServerId = serverId ∨ k.toServerId = serverId) ∧
    (k.fromProject = lower (norm (some project)) ∨ k.toProject = lower (norm (some project)))

/-- The names are not cut. -/
def EdgeName.Fits (n : EdgeName) : Prop :=
  (norm (some n.fromProject)).length ≤ 200 ∧ (norm n.fromContainer).length ≤ 200 ∧
    (norm (some n.toProject)).length ≤ 200 ∧ (norm n.toContainer).length ≤ 200

instance (n : EdgeName) : Decidable n.Fits := by unfold EdgeName.Fits; infer_instance

def EdgeCall.Fits : EdgeCall → Prop
  | .accept _ _ n _ _ _ => n.Fits
  | .dismiss _ _ n => n.Fits
  | .manual _ _ n _ _ => n.Fits
  | .delete _ => True
  | .undismiss .. => True

/-! ## One call -/

section Steps
variable {t : Edges} {k : EdgeKey} {n : EdgeName}

def OneRow (t : Edges) : Prop := (t.rows.map rowKey).Nodup

theorem findEdge_eq (n : EdgeName) (t : Edges) : findEdge n t = Table.lookup rowKey (edgeKey n) t.rows := by
  rw [findEdge, List.find?_filter, Table.lookup]
  congr 1
  funext r
  by_cases h : rowKey r = edgeKey n
  · have hfrom := congrArg EdgeKey.fromServerId h
    have hto := congrArg EdgeKey.toServerId h
    simp only [rowKey, edgeKey] at hfrom hto
    simp [h, hfrom, hto]
  · simp [h]

theorem norm_orNone (s : Str) : norm (orNone s) = norm (some s) := by
  unfold orNone
  split
  · rename_i h
    rw [h]
    rfl
  · rfl

theorem norm_take {s : Option Str} (h : (norm s).length ≤ 200) : norm (some ((norm s).take 200)) = norm s := by
  rw [List.take_of_length_le h]
  exact strip_strip _

/-- A name that is not cut is found again. -/
theorem edgeKey_stored (h : n.Fits) : edgeKey n.stored = edgeKey n := by
  obtain ⟨hfp, hfc, htp, htc⟩ := h
  simp only [edgeKey, EdgeName.stored, norm_orNone, norm_take hfp, norm_take hfc, norm_take htp, norm_take htc]

theorem keyOf_iff (hone : OneRow t) {id : Nat} {r : RuntimeEdge} (hr : Table.lookup rowKey k t.rows = some r) : keyOf id t = some k ↔ r.id = id := by
  obtain ⟨hmem, hkey⟩ := (Table.lookup_iff hone).1 hr
  rw [keyOf, Option.map_eq_some_iff]
  constructor
  · rintro ⟨r', hr', hkey'⟩
    obtain ⟨hmem', hid⟩ := (Table.lookup_iff t.nodup).1 hr'
    rw [List.inj_on_of_nodup_map hone hmem hmem' (hkey.trans hkey'.symm), hid]
  · intro hid
    exact ⟨r, (Table.lookup_iff t.nodup).2 ⟨hmem, hid⟩, hkey⟩

theorem answer_none (h : Table.lookup rowKey k t.rows = none) : answer k t = none := by rw [answer, h, Option.map_none]

section Write
variable {id : Nat} {f : RuntimeEdge → RuntimeEdge} (hf : ∀ r, (f r).id = r.id)

theorem oneRow_write (hone : OneRow t) (hname : ∀ r, (f r).name = r.name) : OneRow (writeEdge id f hf t) := by
  have hsame : (writeEdge id f hf t).rows.map rowKey = t.rows.map rowKey := by
    simp only [writeEdge, Keyed.modify, Keyed.map_rows, List.map_map]
    refine List.map_congr_left fun r _ => ?_
    simp only [Function.comp, rowKey]
    split <;> simp [hname]
  rw [OneRow, hsame]
  exact hone

/-- A write says something of the row's key alone. -/
theorem answer_write (hone : OneRow t) (hname : ∀ r, (f r).name = r.name) {g : EdgeSource × Bool → EdgeSource × Bool}
    (htells : ∀ r, (f r).tells = g r.tells) :
    answer k (writeEdge id f hf t) = if keyOf id t = some k then (answer k t).map g else answer k t := by
  have hkey : ∀ r, rowKey (if r.id = id then f r else r) = rowKey r := by
    intro r
    split <;> simp [rowKey, hname]
  have hrows : answer k (writeEdge id f hf t) = ((Table.lookup rowKey k t.rows).map fun r => if r.id = id then f r else r).map RuntimeEdge.tells := by
    rw [answer, ← Table.lookup_map hkey]
    rfl
  rw [hrows]
  cases hr : Table.lookup rowKey k t.rows with
  | none => simp [answer_none hr]
  | some r =>
    have hid : keyOf id t = some k ↔ r.id = id := keyOf_iff hone hr
    simp only [answer, hr, Option.map_some]
    by_cases h : r.id = id
    · simp [h, hid.2 h, htells]
    · rw [if_neg h, if_neg fun hk => h (hid.1 hk)]

end Write

theorem oneRow_add (hone : OneRow t) {row : RuntimeEdge} (h : Table.lookup rowKey (rowKey row) t.rows = none) : OneRow (addEdge row t) := by
  rw [Table.lookup_eq_none] at h
  have hrows : (addEdge row t).rows.map rowKey = t.rows.map rowKey ++ [rowKey row] := by simp [addEdge, rowKey]
  rw [OneRow, hrows, List.nodup_append]
  refine ⟨hone, by simp, fun a ha b hb => ?_⟩
  obtain rfl : b = rowKey row := by simpa using hb
  rintro rfl
  exact h ha

theorem edgeAnswer_add (row : RuntimeEdge) (h : Table.lookup rowKey (rowKey row) t.rows = none) :
    answer k (addEdge row t) = if rowKey row = k then some row.tells else answer k t := by
  have hrows : (addEdge row t).rows = t.rows ++ [{ row with id := newEdgeId t }] := rfl
  rw [answer, answer, hrows, Table.lookup, List.find?_append]
  by_cases hk : rowKey row = k
  · subst hk
    rw [if_pos rfl, show t.rows.find? (fun r => decide (rowKey r = rowKey row)) = none from h]
    simp [rowKey, RuntimeEdge.tells]
  · rw [if_neg hk]
    have hnew : [{ row with id := newEdgeId t }].find? (fun r => decide (rowKey r = k)) = none := by
      refine List.find?_eq_none.2 fun x hx => ?_
      rw [List.mem_singleton.1 hx, decide_eq_true_eq]
      exact hk
    rw [hnew, Option.or_none]
    rfl

/-- The rows after a write of `id` that says `g` of what was said. -/
def Writes (id : Nat) (g : EdgeSource × Bool → EdgeSource × Bool) (t t' : Edges) : Prop :=
  ∃ f, ∃ hf : ∀ r, (f r).id = r.id, (∀ r, (f r).name = r.name) ∧ (∀ r, (f r).tells = g r.tells) ∧ t' = writeEdge id f hf t

/-- The calls that name an edge: of the row there is, or of a new one. -/
theorem said_named (hone : OneRow t) (hfits : n.Fits) {row : RuntimeEdge} (hrow : row.name = n.stored) {g : EdgeSource × Bool → EdgeSource × Bool}
    {t' : Edges} (hnone : findEdge n t = none → t' = addEdge row t) (hsome : ∀ existing, findEdge n t = some existing → Writes existing.id g t t') :
    OneRow t' ∧ answer k t' = if edgeKey n = k then some (((answer k t).map g).getD row.tells) else answer k t := by
  have hrowKey : rowKey row = edgeKey n := by rw [rowKey, hrow, edgeKey_stored hfits]
  rw [findEdge_eq] at hnone hsome
  cases hfound : Table.lookup rowKey (edgeKey n) t.rows with
  | none =>
    rw [hnone hfound]
    rw [← hrowKey] at hfound ⊢
    refine ⟨oneRow_add hone hfound, ?_⟩
    rw [edgeAnswer_add row hfound]
    split
    · rename_i hk
      rw [← hk, answer_none hfound]
      rfl
    · rfl
  | some existing =>
    obtain ⟨f, hf, hname, htells, rfl⟩ := hsome existing hfound
    refine ⟨oneRow_write hf hone hname, ?_⟩
    rw [answer_write hf hone hname htells]
    obtain ⟨hmem, hkey⟩ := (Table.lookup_iff hone).1 hfound
    have hkeyOf : keyOf existing.id t = some (edgeKey n) := (keyOf_iff hone hfound).2 rfl
    by_cases hk : edgeKey n = k
    · subst hk
      rw [if_pos hkeyOf, if_pos rfl, answer, hfound]
      rfl
    · rw [if_neg hk, if_neg]
      rw [hkeyOf, Option.some.injEq]
      exact hk

theorem oneRow_delete (hone : OneRow t) (id : Nat) : OneRow (deleteEdge id t) := List.Nodup.sublist (List.filter_sublist.map _) hone

theorem answer_delete (hone : OneRow t) (id : Nat) : answer k (deleteEdge id t) = if keyOf id t = some k then none else answer k t := by
  have hone' := oneRow_delete hone id
  cases hr : Table.lookup rowKey k t.rows with
  | none =>
    have hgone : Table.lookup rowKey k (deleteEdge id t).rows = none := by
      rw [Table.lookup_eq_none] at hr ⊢
      exact fun hmem => hr ((List.filter_sublist.map _).mem hmem)
    rw [answer_none hgone, answer_none hr, ite_self]
  | some r =>
    obtain ⟨hmem, hkey⟩ := (Table.lookup_iff hone).1 hr
    by_cases hid : r.id = id
    · rw [if_pos ((keyOf_iff hone hr).2 hid)]
      refine answer_none (Table.lookup_eq_none.2 fun hin => ?_)
      obtain ⟨r', hr', hkey'⟩ := List.mem_map.1 hin
      obtain ⟨hmem', hne⟩ := List.mem_filter.1 hr'
      obtain rfl := List.inj_on_of_nodup_map hone hmem' hmem (hkey'.trans hkey.symm)
      simp [hid] at hne
    · have hstays : Table.lookup rowKey k (deleteEdge id t).rows = some r :=
        (Table.lookup_iff hone').2 ⟨List.mem_filter.2 ⟨hmem, by simpa using hid⟩, hkey⟩
      rw [if_neg fun hk => hid ((keyOf_iff hone hr).1 hk), answer, answer, hstays, hr]

theorem accept_writes {existing : RuntimeEdge} (h : findEdge n t = some existing) (now : Int) (user : Option Nat) (kind : Str) (confidence : Int) (note : Option Str) :
    Writes existing.id (fun _ => (.accepted, false)) t (acceptSuggestion now user n kind confidence note t) := by
  refine ⟨?f, ?hf, ?hname, ?htells, ?eq⟩
  case eq => rw [acceptSuggestion, h]
  all_goals exact fun _ => rfl

theorem dismiss_writes {existing : RuntimeEdge} (h : findEdge n t = some existing) (now : Int) (user : Option Nat) :
    Writes existing.id (fun x => (x.1, true)) t (dismissSuggestion now user n t) := by
  refine ⟨?f, ?hf, ?hname, ?htells, ?eq⟩
  case eq => rw [dismissSuggestion, h]
  all_goals exact fun _ => rfl

theorem manual_writes {existing : RuntimeEdge} (h : findEdge n t = some existing) (now : Int) (user : Option Nat) (kind : Str) (note : Option Str) :
    Writes existing.id (fun _ => (.manual, false)) t (createManualEdge now user n kind note t) := by
  refine ⟨?f, ?hf, ?hname, ?htells, ?eq⟩
  case eq => rw [createManualEdge, h]
  all_goals exact fun _ => rfl

/-- **One call** says something of the key that it names, and leaves one row a key. -/
theorem EdgeCall.said (hone : OneRow t) (c : EdgeCall) (hfits : c.Fits) :
    OneRow (c.run t) ∧ answer k (c.run t) = if c.about t = some k then c.tells (answer k t) else answer k t := by
  cases c with
  | accept now user n kind confidence note =>
    obtain ⟨hone', hsaid⟩ := @said_named t k n hone hfits _ rfl _ (acceptSuggestion now user n kind confidence note t)
      (fun h => by rw [acceptSuggestion, h]) fun _ h => accept_writes h ..
    refine ⟨hone', hsaid.trans (if_congr (by simp [EdgeCall.about]) ?_ rfl)⟩
    cases answer k t <;> rfl
  | dismiss now user n =>
    obtain ⟨hone', hsaid⟩ := @said_named t k n hone hfits _ rfl _ (dismissSuggestion now user n t)
      (fun h => by rw [dismissSuggestion, h]) fun _ h => dismiss_writes h ..
    refine ⟨hone', hsaid.trans (if_congr (by simp [EdgeCall.about]) ?_ rfl)⟩
    cases answer k t <;> rfl
  | manual now user n kind note =>
    obtain ⟨hone', hsaid⟩ := @said_named t k n hone hfits _ rfl _ (createManualEdge now user n kind note t)
      (fun h => by rw [createManualEdge, h]) fun _ h => manual_writes h ..
    refine ⟨hone', hsaid.trans (if_congr (by simp [EdgeCall.about]) ?_ rfl)⟩
    cases answer k t <;> rfl
  | delete edgeId => exact ⟨oneRow_delete hone edgeId, answer_delete hone edgeId⟩
  | undismiss now edgeId =>
    refine ⟨oneRow_write ?_ hone ?_, answer_write ?_ hone ?_ ?_⟩
    all_goals exact fun _ => rfl

end Steps

/-! ## Runs of calls -/

theorem oneRow_noEdges : OneRow noEdges := List.nodup_nil

/-- What the rows say after a run is what its calls said, in their order. -/
theorem said_run {calls : List EdgeCall} (hfits : ∀ c ∈ calls, c.Fits) {t : Edges} (hone : OneRow t) (k : EdgeKey) :
    OneRow (runs EdgeCall.run t calls) ∧ answer k (runs EdgeCall.run t calls) = saidOf k t calls (answer k t) := by
  induction calls generalizing t with
  | nil => exact ⟨hone, rfl⟩
  | cons c calls ih =>
    obtain ⟨hone', hsaid⟩ := EdgeCall.said (k := k) hone c (hfits c (by simp))
    rw [runs_cons, saidOf, ← hsaid]
    exact ih (fun c hc => hfits c (by simp [hc])) hone'

/-! ## What a panel shows -/

section Panel
variable {t : Edges} {serverId : Nat} {project : Str}

theorem mem_listEdges (hserver : serverId ≠ 0) (hproject : norm (some project) ≠ []) {r : RuntimeEdge} :
    r ∈ listEdgesForProject serverId project true t ↔ r ∈ t.rows ∧ (rowKey r).Touches serverId project := by
  have hlower : lower (norm (some project)) ≠ [] := by simpa [lower] using hproject
  rw [listEdgesForProject, if_neg (by simp [hlower, hserver]), if_pos rfl, List.mem_filter, List.mem_filter, and_assoc]
  refine and_congr Iff.rfl ?_
  unfold touches EdgeKey.Touches
  simp only [rowKey, edgeKey, Bool.or_eq_true, beq_iff_eq]
  split_ifs <;> grind

theorem answer_iff (hone : OneRow t) {k : EdgeKey} {x : EdgeSource × Bool} :
    answer k t = some x ↔ ∃ r ∈ t.rows, rowKey r = k ∧ r.tells = x := by
  rw [answer, Option.map_eq_some_iff]
  simp only [Table.lookup_iff hone, and_assoc]

theorem touches_name (n : EdgeName) (hserver : n.fromServerId = serverId) (hproject : n.fromProject = project) :
    (edgeKey n).Touches serverId project := ⟨Or.inl hserver, Or.inl (by rw [← hproject]; rfl)⟩

/-- The keys of the rows that are dismissed or confirmed are the settled ones. -/
theorem mem_settled (hone : OneRow t) (hserver : serverId ≠ 0) (hproject : norm (some project) ≠ []) {k : EdgeKey} (hk : k.Touches serverId project) :
    (k ∈ (((listEdgesForProject serverId project true t).filter fun r => r.dismissedAt.isSome).map rowKey).dedup ∨
      k ∈ ((listEdgesForProject serverId project true t).filter confirmedEdge).map rowKey) ↔ settled (answer k t) = true := by
  rw [List.mem_dedup]
  simp only [List.mem_map, List.mem_filter, mem_listEdges hserver hproject]
  unfold settled
  rw [Option.any_eq_true]
  simp only [answer_iff hone]
  constructor
  · rintro (⟨r, ⟨⟨hmem, -⟩, hr⟩, rfl⟩ | ⟨r, ⟨⟨hmem, -⟩, hr⟩, rfl⟩)
    · exact ⟨_, ⟨r, hmem, rfl, rfl⟩, by simp [RuntimeEdge.tells, hr]⟩
    · refine ⟨_, ⟨r, hmem, rfl, rfl⟩, ?_⟩
      unfold confirmedEdge at hr
      cases hsource : r.source <;> simp_all [RuntimeEdge.tells]
  · rintro ⟨x, ⟨r, hmem, rfl, rfl⟩, hx⟩
    cases hr : r.dismissedAt with
    | some _ => exact Or.inl ⟨r, ⟨⟨hmem, hk⟩, by simp [hr]⟩, rfl⟩
    | none =>
      refine Or.inr ⟨r, ⟨⟨hmem, hk⟩, ?_⟩, rfl⟩
      cases hsource : r.source <;> simp_all [RuntimeEdge.tells, confirmedEdge]

/-- A panel asks about the suggestions that the rows do not settle. -/
theorem suggested_perm (hone : OneRow t) (hserver : serverId ≠ 0) (hproject : norm (some project) ≠ []) (suggestions : List Suggestion) :
    (partitionForPanel serverId project suggestions t).suggested.Perm
      ((suggestions.filter (Suggestion.asked serverId project fun k => answer k t)).map (Suggestion.opened serverId project)) := by
  refine (List.mergeSort_perm _ _).trans (List.Perm.of_eq (congrArg _ (List.filter_congr fun s _ => ?_)))
  have hname := mem_settled hone hserver hproject (touches_name (s.name serverId project) rfl rfl)
  have hsame := mem_settled hone hserver hproject (touches_name (s.sameName serverId project) rfl rfl)
  generalize (((listEdgesForProject serverId project true t).filter fun r => r.dismissedAt.isSome).map rowKey).dedup = dismissed at *
  generalize ((listEdgesForProject serverId project true t).filter confirmedEdge).map rowKey = active at *
  rw [Bool.eq_iff_iff]
  simp only [Suggestion.asked, Bool.and_eq_true, Bool.not_eq_true', decide_eq_true_eq, ← Bool.not_eq_true, ← hname, ← hsame]
  split_ifs <;> grind

/-- A panel shows the edges of its project that are confirmed, each once. -/
theorem mem_confirmed (hone : OneRow t) (hserver : serverId ≠ 0) (hproject : norm (some project) ≠ []) (suggestions : List Suggestion) :
    ((partitionForPanel serverId project suggestions t).confirmed.map rowKey).Nodup ∧
      ∀ k, k ∈ (partitionForPanel serverId project suggestions t).confirmed.map rowKey ↔
        k.Touches serverId project ∧ ∃ source, source ≠ .suggested ∧ answer k t = some (source, false) := by
  have hperm : (partitionForPanel serverId project suggestions t).confirmed.Perm ((listEdgesForProject serverId project true t).filter confirmedEdge) :=
    List.mergeSort_perm _ _
  have hsublist : ((listEdgesForProject serverId project true t).filter confirmedEdge).Sublist t.rows := by
    refine List.filter_sublist.trans ?_
    simp only [listEdgesForProject, if_true]
    split
    · exact List.nil_sublist _
    · exact List.filter_sublist.trans List.filter_sublist
  refine ⟨(hperm.map rowKey).nodup_iff.2 (hone.sublist (hsublist.map rowKey)), fun k => ?_⟩
  rw [(hperm.map rowKey).mem_iff]
  simp only [List.mem_map, List.mem_filter, mem_listEdges hserver hproject, answer_iff hone]
  constructor
  · rintro ⟨r, ⟨⟨hmem, htouches⟩, hr⟩, rfl⟩
    unfold confirmedEdge at hr
    refine ⟨htouches, r.source, ?_, r, hmem, rfl, ?_⟩ <;> cases hsource : r.source <;> simp_all [RuntimeEdge.tells]
  · rintro ⟨htouches, source, hsource, r, hmem, rfl, hr⟩
    refine ⟨r, ⟨⟨hmem, htouches⟩, ?_⟩, rfl⟩
    obtain ⟨rfl, hnone⟩ := Prod.mk.inj hr
    cases h : r.source <;> simp_all [confirmedEdge]

end Panel

/-- **What was answered is not asked again.** Whatever was accepted, dismissed, added, deleted and taken back, a panel asks about a
suggestion exactly when nothing said last of its edge settles it, and shows each edge of its project once that was confirmed last. -/
theorem panel_of_run (calls : List EdgeCall) (hfits : ∀ c ∈ calls, c.Fits) {serverId : Nat} (hserver : serverId ≠ 0) {project : Str}
    (hproject : norm (some project) ≠ []) (suggestions : List Suggestion) :
    let panel := partitionForPanel serverId project suggestions (runs EdgeCall.run noEdges calls)
    let said := fun k => saidOf k noEdges calls none
    panel.suggested.Perm ((suggestions.filter (Suggestion.asked serverId project said)).map (Suggestion.opened serverId project)) ∧
      (panel.confirmed.map rowKey).Nodup ∧
      ∀ k, k ∈ panel.confirmed.map rowKey ↔ k.Touches serverId project ∧ ∃ source, source ≠ .suggested ∧ said k = some (source, false) := by
  have hone := (said_run hfits oneRow_noEdges ⟨0, [], [], 0, [], []⟩).1
  have hsaid : (fun k => saidOf k noEdges calls none) = fun k => answer k (runs EdgeCall.run noEdges calls) :=
    funext fun k => (said_run hfits oneRow_noEdges k).2.symm
  intro panel said
  simp only [said, hsaid]
  obtain ⟨hnodup, hmem⟩ := mem_confirmed hone hserver hproject suggestions
  exact ⟨suggested_perm hone hserver hproject suggestions, hnodup, hmem⟩

/-- A suggestion that was dismissed, and one that was not. -/
theorem panel_of_run_dismissed :
    let shop : EdgeName := ⟨1, lit "shop", some (lit "web"), 1, lit "shop", some (lit "db")⟩
    let calls := [EdgeCall.dismiss 10 none shop]
    (∀ c ∈ calls, c.Fits) ∧
      (partitionForPanel 1 (lit "shop") [{ fromName := lit "web", toName := lit "db" }] (runs EdgeCall.run noEdges calls)).suggested = [] := by
  intro shop calls
  have hfits : ∀ c ∈ calls, c.Fits := by
    intro c hc
    obtain rfl := List.mem_singleton.1 hc
    show shop.Fits
    decide
  refine ⟨hfits, ?_⟩
  have hserver : (1 : Nat) ≠ 0 := by decide
  have hproject : norm (some (lit "shop")) ≠ [] := by decide
  have hpanel := (panel_of_run calls hfits hserver hproject [{ fromName := lit "web", toName := lit "db" }]).1
  refine List.Perm.eq_nil (hpanel.trans (List.Perm.of_eq ?_))
  decide

end PiHerder.Dns
