import PiHerder.Migrate.Fabric

/-!
# Cutover

| here | there |
| --- | --- |
| `forwardPortChange` | the `fwd_port` computation (`cutover.py:207-217`, `:307-317`) |
| `retargetRecord`    | one pass of the loop over `rows` (`:189-290`) |
| `retargetBound`     | the loop over `npm_proxy_hosts_for_project` (`:297-354`) |
| `adoptFabric`       | the `adopt_fabric` loop (`:356-399`) |
| `flipDependents`    | the NPM edge's other names (`:404-432`) |
| `retargetDnsNpm`    | `retarget_dns_npm` (`:146-447`) |

`CutFrame` is what a cutover of a project that is not the NPM edge leaves alone; every step keeps it,
whether it returns or raises.
-/
namespace PiHerder.Migrate
open Lib Lib.Str

/-! ## The steps -/

inductive CutoverAction
  | skipHostIdentity
  | npm (fromBinding : Bool) (hostId : Str)
  | cname
  | keepCnameOnEdge
deriving DecidableEq, Repr

/-- An entry of the `records` a cutover returns. -/
structure CutoverRecord where
  fqdn : Str
  action : CutoverAction
deriving DecidableEq, Repr

/-- The forward port to write: the mapped one, when the map has the old one and moves it. -/
def forwardPortChange (portMap : PortMap) (old : Option Nat) : Option Nat :=
  old.bind fun p => (portMap.get? ⟨p, .tcp⟩).filter (· ≠ p)

/-- The proxy host of a record: the cached match of its name, else its `npm_hint`. -/
def recordHostId (hosts : List CachedHost) (r : ServiceDnsRecord) : Str :=
  match matchNpm hosts r.fqdn with
  | some h => if h.id ≠ [] then h.id else r.npmHint
  | none => r.npmHint

/-- The call of `upsert` for a row of the project: everything but its place is passed back as it is. -/
def moveUpsert (r : ServiceDnsRecord) (targetId destId : Nat) (destProject : Str) (viaProxy : Bool) : Upsert where
  fqdn := r.fqdn
  targetServerId := targetId
  backendServerId := destId
  stackDeploymentId := r.stackDeploymentId
  dockerProject := destProject
  label := r.label
  managedOnPihole := r.managedOnPihole
  viaProxy := viaProxy
  npmHint := r.npmHint
  certificateId := r.certificateId
  externalDnsStatus := if r.externalDnsStatus ≠ [] then r.externalDnsStatus else lit "checklist"
  notes := r.notes
  recordId := some r.id
  syncNow := r.managedOnPihole

/-- `except DnsFabricError as e: raise CutoverError(str(e))`. -/
def asCutover (m : PlaneM Unit) : PlaneM Unit :=
  Eff.tryCatch m fun
    | .dnsFabric message => Eff.raise (.cutover message)
    | e => Eff.raise e

def noBackend (fqdn : Str) : MoveFailure := .cutover (fqdn ++ lit ": dest has no IP/hostname for NPM forward_host")

def retargetRecord (net : Nat → Reply) (source dest : Server) (destProject : Str) (portMap : PortMap)
    (hosts : List CachedHost) (r : ServiceDnsRecord) : PlaneM CutoverRecord :=
  if isHostIdentityName r.fqdn source ∨ isHostIdentityName r.fqdn dest then pure ⟨r.fqdn, .skipHostIdentity⟩
  else if r.viaProxy then
    if destForwardHost dest = [] then Eff.raise (noBackend r.fqdn)
    else do
      let port := forwardPortChange portMap ((matchNpm hosts r.fqdn).bind (·.forwardPort))
      let hostId ← putNpmBackend net r.fqdn (recordHostId hosts r) (destForwardHost dest) port
      asCutover (upsertServiceRecord net (moveUpsert r r.targetServerId dest.id destProject true))
      pure ⟨r.fqdn, .npm false hostId⟩
  else if strip dest.dnsName = [] then
    Eff.raise (.cutover (r.fqdn ++ lit ": destination has no DNS name for CNAME retarget"))
  else do
    asCutover (upsertServiceRecord net (moveUpsert r dest.id dest.id destProject false))
    pure ⟨r.fqdn, .cname⟩

/-- The proxy host of a binding's name, and the port it forwards to. -/
def boundHostId (hosts : List CachedHost) (e : BoundHost) : Str :=
  if e.npmId ≠ [] then e.npmId
  else match matchNpm hosts (strip e.fqdn) with
    | some h => h.id
    | none => []

def boundForwardPort (hosts : List CachedHost) (e : BoundHost) : Option Nat :=
  e.forwardPort <|> if e.npmId ≠ [] then none else (matchNpm hosts (strip e.fqdn)).bind (·.forwardPort)

/-- `done` are the names that have been PUT. -/
def retargetBound (net : Nat → Reply) (dest : Server) (portMap : PortMap) (hosts : List CachedHost) :
    List Str → List BoundHost → PlaneM (List CutoverRecord)
  | _, [] => pure []
  | done, e :: es =>
    let fqdn := strip e.fqdn
    let key := normalizeFqdn fqdn
    if key = [] ∨ key ∈ done then retargetBound net dest portMap hosts done es
    else if destForwardHost dest = [] then Eff.raise (noBackend fqdn)
    else do
      let port := forwardPortChange portMap (boundForwardPort hosts e)
      let hostId ← putNpmBackend net fqdn (boundHostId hosts e) (destForwardHost dest) port
      let rest ← retargetBound net dest portMap hosts (key :: done) es
      pure (⟨fqdn, .npm true hostId⟩ :: rest)

/-- The record an adopted name gets. -/
def adoptUpsert (edge dest : Server) (destProject fqdn hostId : Str) : Upsert where
  fqdn := fqdn
  targetServerId := edge.id
  backendServerId := dest.id
  dockerProject := destProject
  label := fqdn.takeWhile (· != '.')
  managedOnPihole := false
  viaProxy := true
  npmHint := hostId
  certificateId := none
  externalDnsStatus := lit "none"
  notes := lit "Adopted from NPM proxy-host binding on migrate"
  syncNow := false

/-- One entry of the adopt loop: a name PUT for a binding that has no record yet. -/
def adoptFabric (net : Nat → Reply) (edge dest : Server) (destProject : Str) (entry : CutoverRecord) : PlaneM Unit :=
  match entry.action with
  | .npm true hostId => do
    let w ← Eff.get
    let key := normalizeFqdn (strip entry.fqdn)
    if key = [] ∨ w.records.rows.any (fun r => decide (r.fqdn = key)) then pure ()
    else asCutover (upsertServiceRecord net (adoptUpsert edge dest destProject (strip entry.fqdn) hostId))
  | _ => pure ()

/-- A public name behind the NPM edge follows it: its target becomes the destination. -/
def flipTarget (sourceId destId : Nat) (skipIds : List Nat) (r : ServiceDnsRecord) : ServiceDnsRecord :=
  if isEdgeDependent sourceId destId skipIds r then { r with targetServerId := destId } else r

@[simp] theorem flipTarget_id (sourceId destId : Nat) (skipIds : List Nat) (r : ServiceDnsRecord) :
    (flipTarget sourceId destId skipIds r).id = r.id := by
  unfold flipTarget; split <;> rfl

def flipDependents (sourceId destId : Nat) (skipIds : List Nat) (w : Plane) : Plane :=
  { w with records := w.records.map (flipTarget sourceId destId skipIds) (flipTarget_id sourceId destId skipIds) }

/-- `restartdns` on every Pi-hole, once a CNAME was rewritten. -/
def restartDns (net : Nat → Reply) (needed : Bool) : PlaneM Unit :=
  if needed then do
    match ← ask net with
    | .ok () => pure ()
    | .error detail => Eff.raise (.cutover (lit "Pi-hole restartdns failed: " ++ detail))
  else pure ()

def checkedName (raw : Str) : PlaneM Str :=
  match composeProjectName raw with
  | .ok name => pure name
  | .error message => Eff.raise (.hostLock message)

def CutoverAction.isNpm : CutoverAction → Bool
  | .npm .. => true
  | _ => false

/-- `done_npm`: the names that have been PUT for a record. -/
def putNames (out : List CutoverRecord) : List Str :=
  (out.filter (·.action.isNpm)).map fun e => normalizeFqdn e.fqdn

/-- The proxy hosts of the project's bindings, unless the project is the edge itself. -/
def retargetBindings (net : Nat → Reply) (dest : Server) (name : Str) (portMap : PortMap) (hosts : List CachedHost)
    (movingEdge : Bool) (out : List CutoverRecord) : PlaneM (List CutoverRecord) :=
  if movingEdge then pure []
  else do
    let w ← Eff.get
    retargetBound net dest portMap hosts (putNames out) (w.npmProxyHostsForProject name)

/-- `adopt_fabric`, when the fabric knows the host of the edge. -/
def adoptBindings (net : Nat → Reply) (dest : Server) (destName : Str) (adopt movingEdge : Bool)
    (out : List CutoverRecord) : PlaneM Unit :=
  if adopt ∧ ¬ movingEdge then do
    let w ← Eff.get
    match w.npmEdgeServer with
    | none => pure ()
    | some edge => Eff.forEach (adoptFabric net edge dest destName) out
  else pure ()

/-- The edge's dependents, when the project is the edge. -/
def moveDependents (sourceId destId : Nat) (skipIds : List Nat) (movingEdge : Bool) : PlaneM (List CutoverRecord) :=
  if movingEdge then do
    let w ← Eff.get
    Eff.modify (flipDependents sourceId destId skipIds)
    pure ((w.records.rows.filter (isEdgeDependent sourceId destId skipIds)).map fun r => ⟨r.fqdn, .keepCnameOnEdge⟩)
  else pure []

/-- `need_ftl`: was the CNAME of a row PiHerder manages rewritten? -/
def needFtl (rows : List ServiceDnsRecord) (out : List CutoverRecord) : Bool :=
  (rows.zip out).any fun e => decide (e.2.action = .cname) && e.1.managedOnPihole

def retargetDnsNpm (net : Nat → Reply) (source dest : Server) (project destProject : Str) (portMap : PortMap)
    (adopt : Bool) : PlaneM (List CutoverRecord) := do
  let name ← checkedName project
  let destName ← checkedName (if destProject ≠ [] then destProject else project)
  let w ← Eff.get
  let rows := w.dnsRows source.id name (some dest.id)
  let movingEdge := w.isNpmEdgeProject source.id name rows
  let out ← Eff.mapEach (retargetRecord net source dest destName portMap w.npmHostsCached) rows
  let bound ← retargetBindings net dest name portMap w.npmHostsCached movingEdge out
  adoptBindings net dest destName adopt movingEdge (out ++ bound)
  let kept ← moveDependents source.id dest.id (rows.map (·.id)) movingEdge
  restartDns net (needFtl rows out)
  pure (out ++ bound ++ kept)

/-! ## What a cutover leaves alone -/

/-- A state `w` that a cutover may reach from `w₀`: proxy hosts differ only where a PUT was asked for, and
records only where they are `moving` or `adopted`. -/
structure CutFrame (touched : Str → Prop) (moving adopted : ServiceDnsRecord → Prop) (w₀ w : Plane) : Prop where
  base : SameBase w₀ w
  npm : PutAll touched w₀.npm w.npm
  kept : ∀ r ∈ w₀.records.rows, ¬ moving r → r ∈ w.records.rows
  ids : ∀ r ∈ w₀.records.rows, r.id ∈ w.records.rows.map (·.id)
  rows : ∀ r ∈ w.records.rows, r ∈ w₀.records.rows ∨ (∃ r₀ ∈ w₀.records.rows, moving r₀ ∧ r₀.id = r.id) ∨
    (adopted r ∧ r.id ∉ w₀.records.rows.map (·.id))

section Frame
variable {touched : Str → Prop} {moving adopted : ServiceDnsRecord → Prop} {w₀ w : Plane}

theorem CutFrame.refl (w : Plane) : CutFrame touched moving adopted w w where
  base := SameBase.refl w
  npm := PutAll.refl touched w.npm
  kept _ hr _ := hr
  ids _ hr := List.mem_map_of_mem hr
  rows _ hr := Or.inl hr

theorem CutFrame.asked (h : CutFrame touched moving adopted w₀ w) (n : Nat) :
    CutFrame touched moving adopted w₀ { w with asked := n } :=
  ⟨⟨h.base.1, h.base.2, h.base.3, h.base.4, h.base.5, h.base.6, h.base.7, h.base.8⟩, h.npm, h.kept, h.ids, h.rows⟩

theorem CutFrame.npmHostsCached (h : CutFrame touched moving adopted w₀ w) :
    w.npmHostsCached = w₀.npmHostsCached :=
  h.npm.cached

theorem CutFrame.npmProxyHostsForProject (h : CutFrame touched moving adopted w₀ w) (project : Str) :
    w.npmProxyHostsForProject project = w₀.npmProxyHostsForProject project := by
  unfold Plane.npmProxyHostsForProject Plane.proxyBindings
  rw [h.npmHostsCached, h.base.bindings]

/-- PUTs of a requested host keep the frame. -/
theorem CutFrame.puts (h : CutFrame touched moving adopted w₀ w) {is : List NpmIntegration}
    (hp : PutAll touched w.npm is) (n : Nat) : CutFrame touched moving adopted w₀ { w with npm := is, asked := n } :=
  ⟨⟨h.base.1, h.base.2, h.base.3, h.base.4, h.base.5, h.base.6, h.base.7, h.base.8⟩, h.npm.trans hp, h.kept, h.ids, h.rows⟩

/-- A write of a moving row keeps the frame. -/
theorem CutFrame.writeRow (h : CutFrame touched moving adopted w₀ w) {r₀ : ServiceDnsRecord}
    (hr₀ : r₀ ∈ w₀.records.rows) (hm : moving r₀) {f : ServiceDnsRecord → ServiceDnsRecord} (hf : ∀ r, (f r).id = r.id) :
    CutFrame touched moving adopted w₀ { w with records := w.records.modify r₀.id f hf } where
  base := ⟨h.base.1, h.base.2, h.base.3, h.base.4, h.base.5, h.base.6, h.base.7, h.base.8⟩
  npm := h.npm
  kept r hr hnot := by
    refine Keyed.mem_modify_of_ne hf (h.kept r hr hnot) fun hid => hnot ?_
    rwa [w₀.records.eq_of_key hr hr₀ hid]
  ids r hr := by
    obtain ⟨r', hr', hid⟩ := List.mem_map.1 (h.ids r hr)
    refine List.mem_map.2 ⟨_, (Keyed.mem_modify hf).2 ⟨r', hr', rfl⟩, ?_⟩
    split
    · exact (hf r').trans hid
    · exact hid
  rows r hr := by
    obtain ⟨r', hr', rfl⟩ := (Keyed.mem_modify hf).1 hr
    by_cases hid : r'.id = r₀.id
    · rw [if_pos hid]
      exact Or.inr (Or.inl ⟨r₀, hr₀, hm, by rw [hf, hid]⟩)
    · rw [if_neg hid]
      exact h.rows r' hr'

/-- A new row keeps the frame. -/
theorem CutFrame.newRow (h : CutFrame touched moving adopted w₀ w) {r : ServiceDnsRecord} (ha : adopted r)
    (hid : r.id ∉ w.records.rows.map (·.id)) :
    CutFrame touched moving adopted w₀ { w with records := w.records.insert r hid } where
  base := ⟨h.base.1, h.base.2, h.base.3, h.base.4, h.base.5, h.base.6, h.base.7, h.base.8⟩
  npm := h.npm
  kept r' hr' hnot := List.mem_append_left _ (h.kept r' hr' hnot)
  ids r' hr' := by
    rw [Keyed.insert_rows, List.map_append]
    exact List.mem_append_left _ (h.ids r' hr')
  rows r' hr' := by
    rcases List.mem_append.1 hr' with hr' | hr'
    · exact h.rows r' hr'
    · obtain rfl : r' = r := by simpa using hr'
      refine Or.inr (Or.inr ⟨ha, fun hold => hid ?_⟩)
      obtain ⟨r₁, hr₁, he⟩ := List.mem_map.1 hold
      exact he ▸ h.ids r₁ hr₁

/-- `upsert_service_record` on a row of the project. -/
theorem moveUpsert_keeps (net : Nat → Reply) {r : ServiceDnsRecord} (hr : r ∈ w₀.records.rows) (hm : moving r)
    (targetId destId : Nat) (destProject : Str) (viaProxy : Bool) :
    Eff.Keeps (CutFrame touched moving adopted w₀)
      (asCutover (upsertServiceRecord net (moveUpsert r targetId destId destProject viaProxy))) := by
  refine Eff.Keeps.tryCatch (fun w h => ?_) fun e => ?_
  · rcases upsert_spec net (moveUpsert r targetId destId destProject viaProxy) w with
      ⟨_, _, heq⟩ | ⟨target, backend, row, n, hcheck, heq⟩
    · rw [heq]; exact h
    · -- the call names the row, so the row it writes is that one
      obtain rfl : row = some r.id := (Upsert.check_ok hcheck).2.2.1 r.id rfl
      rw [heq]
      exact (h.writeRow hr hm _).asked n
  · cases e <;> exact Eff.Keeps.raise _

theorem putNpmBackend_keeps (net : Nat → Reply) {fqdn cachedId : Str} (newHost : Str) (port : Option Nat)
    (ht : touched (npmHostId w₀.npmHostsCached fqdn cachedId)) :
    Eff.Keeps (CutFrame touched moving adopted w₀) (putNpmBackend net fqdn cachedId newHost port) := by
  intro w h
  obtain ⟨is, n, hp, heq⟩ := putNpmBackend_spec net fqdn cachedId newHost port w (h.npmHostsCached ▸ ht)
  rw [heq]
  exact h.puts hp n

theorem retargetRecord_keeps (net : Nat → Reply) (source dest : Server) (destProject : Str) (portMap : PortMap)
    {r : ServiceDnsRecord} (hr : r ∈ w₀.records.rows) (hm : moving r)
    (ht : r.viaProxy = true → touched (npmHostId w₀.npmHostsCached r.fqdn (recordHostId w₀.npmHostsCached r))) :
    Eff.Keeps (CutFrame touched moving adopted w₀)
      (retargetRecord net source dest destProject portMap w₀.npmHostsCached r) := by
  unfold retargetRecord
  refine .ite (.pure _) ?_
  split
  · rename_i hvia
    refine .ite (.raise _) ?_
    exact (putNpmBackend_keeps net _ _ (ht hvia)).bind fun _ => (moveUpsert_keeps net hr hm _ _ _ _).bind fun _ => .pure _
  · exact .ite (.raise _) ((moveUpsert_keeps net hr hm _ _ _ _).bind fun _ => .pure _)

theorem retargetBound_keeps (net : Nat → Reply) (dest : Server) (portMap : PortMap) {es : List BoundHost}
    (ht : ∀ e ∈ es, touched (npmHostId w₀.npmHostsCached (strip e.fqdn) (boundHostId w₀.npmHostsCached e))) :
    ∀ done, Eff.Keeps (CutFrame touched moving adopted w₀)
      (retargetBound net dest portMap w₀.npmHostsCached done es) := by
  induction es with
  | nil => exact fun _ => Eff.Keeps.pure _
  | cons e es ih =>
    intro done
    have ih' := ih fun e' he' => ht e' (List.mem_cons_of_mem _ he')
    unfold retargetBound
    refine .ite (ih' done) (.ite (.raise _) ?_)
    exact (putNpmBackend_keeps net _ _ (ht e List.mem_cons_self)).bind fun _ => (ih' _).bind fun _ => .pure _

theorem adoptFabric_keeps (net : Nat → Reply) (edge dest : Server) (destProject : Str) (entry : CutoverRecord)
    (ha : ∀ r : ServiceDnsRecord, r.backendServerId = dest.id → r.dockerProject = strip destProject → adopted r) :
    Eff.Keeps (CutFrame touched moving adopted w₀) (adoptFabric net edge dest destProject entry) := by
  unfold adoptFabric
  split
  · rename_i hostId _
    intro w h
    rw [Eff.bind_apply, Eff.get_apply]
    simp only
    split
    · exact h
    · rename_i hnew
      have hkeep : CutFrame touched moving adopted w₀
          (upsertServiceRecord net (adoptUpsert edge dest destProject (strip entry.fqdn) hostId) w).2 := by
        rcases upsert_spec net (adoptUpsert edge dest destProject (strip entry.fqdn) hostId) w with
          ⟨_, _, heq⟩ | ⟨target, backend, row, n, hcheck, heq⟩
        · rw [heq]; exact h
        · -- no row has the name, so the call adds one
          obtain rfl : row = none := by
            rw [(Upsert.check_ok hcheck).2.2.2 rfl, Option.map_eq_none_iff, List.find?_eq_none]
            simp only [List.any_eq_true, not_or, not_exists, not_and] at hnew
            exact hnew.2
          rw [heq]
          exact (h.newRow (ha _ rfl rfl) _).asked n
      unfold asCutover Eff.tryCatch
      split
      · rename_i heq; rw [heq] at hkeep; exact hkeep
      · rename_i e w' heq
        rw [heq] at hkeep
        cases e <;> exact hkeep
  · exact Eff.Keeps.pure _

theorem retargetBindings_keeps (net : Nat → Reply) (dest : Server) (name : Str) (portMap : PortMap) (movingEdge : Bool)
    (out : List CutoverRecord)
    (ht : ∀ e ∈ w₀.npmProxyHostsForProject name,
      touched (npmHostId w₀.npmHostsCached (strip e.fqdn) (boundHostId w₀.npmHostsCached e))) :
    Eff.Keeps (CutFrame touched moving adopted w₀)
      (retargetBindings net dest name portMap w₀.npmHostsCached movingEdge out) := by
  refine .ite (.pure _) fun w h => ?_
  rw [Eff.bind_apply, Eff.get_apply]
  simp only [h.npmProxyHostsForProject]
  exact retargetBound_keeps net dest portMap ht _ w h

theorem adoptBindings_keeps (net : Nat → Reply) (dest : Server) (destName : Str) (adopt movingEdge : Bool)
    (out : List CutoverRecord)
    (ha : adopt = true → ∀ r : ServiceDnsRecord, r.backendServerId = dest.id → r.dockerProject = strip destName → adopted r) :
    Eff.Keeps (CutFrame touched moving adopted w₀) (adoptBindings net dest destName adopt movingEdge out) := by
  unfold adoptBindings
  split
  · rename_i hadopt
    refine Eff.Keeps.get.bind fun w' => ?_
    split
    · exact Eff.Keeps.pure _
    · exact Eff.Keeps.forEach fun entry _ => adoptFabric_keeps net _ dest destName entry (ha hadopt.1)
  · exact Eff.Keeps.pure _

theorem restartDns_keeps (net : Nat → Reply) (needed : Bool) :
    Eff.Keeps (CutFrame touched moving adopted w₀) (restartDns net needed) := by
  refine .ite (fun w h => ?_) (.pure _)
  rw [Eff.bind_apply]
  simp only [ask]
  cases net w.asked <;> exact h.asked _

end Frame

/-! ## The frame of a run -/

/-- The proxy-host ids a cutover asks for: those of the project's proxied records on the two hosts, and
those of the project's proxy-host bindings, whatever host a binding is on. -/
def PutRequested (w : Plane) (source dest : Server) (project : Str) (hostId : Str) : Prop :=
  (∃ r ∈ w.dnsRows source.id project (some dest.id), r.viaProxy = true ∧
      hostId = npmHostId w.npmHostsCached r.fqdn (recordHostId w.npmHostsCached r)) ∨
    ∃ b ∈ w.proxyBindings project, ∃ e ∈ boundHosts w.npmHostsCached b,
      hostId = npmHostId w.npmHostsCached (strip e.fqdn) (boundHostId w.npmHostsCached e)

theorem mem_of_mem_dedupeBound {e : BoundHost} {es : List BoundHost} :
    ∀ {seen : List Str}, e ∈ dedupeBound seen es → e ∈ es := by
  induction es with
  | nil => intro seen h; exact h
  | cons a es ih =>
    intro seen h
    unfold dedupeBound at h
    simp only at h
    split at h
    · exact List.mem_cons_of_mem _ (ih h)
    · rcases List.mem_cons.1 h with rfl | h
      · exact List.mem_cons_self
      · exact List.mem_cons_of_mem _ (ih h)

theorem mem_dnsRows {w : Plane} {sourceId destId : Nat} {project : Str} {r : ServiceDnsRecord}
    (h : r ∈ w.dnsRows sourceId project (some destId)) :
    r ∈ w.records.rows ∧ (r.backendServerId = sourceId ∨ r.backendServerId = destId) ∧ r.dockerProject = project := by
  simp only [Plane.dnsRows, ServiceDnsRecord.onHost, List.mem_append] at h
  rcases h with h | h
  · simp only [List.mem_filter, Bool.and_eq_true, decide_eq_true_eq] at h
    exact ⟨h.1, Or.inl h.2.1, h.2.2⟩
  · split at h
    · simp only [List.mem_filter, Bool.and_eq_true, decide_eq_true_eq] at h
      exact ⟨h.1, Or.inr h.2.1, h.2.2⟩
    · cases h

/-- A checked name is the stripped text; a refused one ends the run where it is. -/
theorem checkedName_apply (raw : Str) (w : Plane) :
    checkedName raw w = (.ok (strip raw), w) ∨ ∃ message, checkedName raw w = (.error (.hostLock message), w) := by
  unfold checkedName
  cases h : composeProjectName raw with
  | error message => exact Or.inr ⟨message, rfl⟩
  | ok name => exact Or.inl (by rw [(composeProjectName_valid h).2]; rfl)

namespace ThreeHosts

def source : Server := { id := 1, name := lit "pi1", dnsName := lit "pi1.lan", ipAddress := lit "10.0.0.1" }
def dest : Server := { id := 2, name := lit "pi2", dnsName := lit "pi2.lan", ipAddress := lit "10.0.0.2" }
def third : Server := { id := 3, name := lit "pi3", dnsName := lit "pi3.lan", ipAddress := lit "10.0.0.3" }

/-- The destination's own project "web". -/
def destRecord : ServiceDnsRecord :=
  { id := 7, fqdn := lit "blog.lan", targetServerId := 2, backendServerId := 2, dockerProject := lit "web" }

/-- The proxy host of the third host's project "web". -/
def thirdHost : ProxyHost :=
  { id := lit "5", domains := [lit "shop.lan"], forwardHost := lit "10.0.0.3", forwardPort := 8080 }

def npm : NpmIntegration :=
  { id := 1, name := lit "npm", baseHost := lit "npm.lan", cached := [⟨lit "5", [lit "shop.lan"], some 8080⟩],
    live := [thirdHost] }

def plane : Plane :=
  { servers := [source, dest, third]
    records := ⟨[destRecord], by decide⟩
    npm := [npm]
    bindings := [{ id := 1, integrationId := 1, serverId := 3, role := .proxyHost, dockerProject := lit "web",
                   externalId := lit "5", externalLabel := lit "shop.lan" }] }

/-- A Move of "web" from the first host to "web2" on the second, with NPM and the Pi-holes answering. -/
def cutover : Except MoveFailure (List CutoverRecord) × Plane :=
  retargetDnsNpm (fun _ => .ok ()) source dest (lit "web") (lit "web2") [] false plane

end ThreeHosts

end PiHerder.Migrate
