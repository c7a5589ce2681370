import PiHerder.Migrate.Cutover

/-!
# Rebind

| here | there |
| --- | --- |
| `follows`, `moveBinding`, `rebindBindings` | the loop over the project's bindings and `_move_bind` (`rebind.py:104-152`) |
| `moveEdge`            | one edge, both ends (`:197-211`) |
| `certIds`, `cloneTarget` | the certificate targets (`:213-252`) |
| `rebindControlPlane`  | `rebind_control_plane` (`:46-260`) |

The loops over deployments, visual stacks, annotations and ports are one update of a row's host and
project each, `Lens.moveRows`. The counts of the log line are left out.
-/
namespace PiHerder.Migrate
open Lib Lib.Str

/-- The columns of `uq_integ_bind_scope`, as `dest_scopes` holds them. -/
structure BindScope where
  integrationId : Nat
  role : Role
  externalId : Str
  dockerProject : Str
  dockerContainer : Str
deriving DecidableEq, Repr

def IntegrationBinding.scope (b : IntegrationBinding) (dockerProject : Str) : BindScope :=
  ⟨b.integrationId, b.role, strip b.externalId, dockerProject, strip b.dockerContainer⟩

/-- Does the binding follow the project? Proxy hosts and services do, and the dashboards that show
its containers; the host it is on is not asked. -/
def follows (name : Str) (b : IntegrationBinding) : Bool :=
  decide (b.dockerProject = name) &&
    match b.role with
    | .proxyHost | .service => true
    | .dashboard => decide (bindingGrafanaKind b = .containers)
    | .other _ => false

/-- The project a moved binding gets. -/
def newProject (name destName : Str) (b : IntegrationBinding) : Str := if destName ≠ name then destName else b.dockerProject

/-- `_move_bind`: the row as it is now, `none` for a deleted one, and the scopes on the destination. -/
def moveBinding (destId : Nat) (name destName : Str) (scopes : List BindScope) (b : IntegrationBinding) :
    Option IntegrationBinding × List BindScope :=
  let key := b.scope (newProject name destName b)
  if b.serverId = destId then (some b, key :: scopes)
  else if key ∈ scopes then (none, scopes)
  else (some { b with serverId := destId, dockerProject := newProject name destName b }, key :: scopes)

def rebindBindings (destId : Nat) (name destName : Str) :
    List BindScope → List IntegrationBinding → List IntegrationBinding
  | _, [] => []
  | scopes, b :: bs =>
    if follows name b then
      let moved := moveBinding destId name destName scopes b
      moved.1.toList ++ rebindBindings destId name destName moved.2 bs
    else b :: rebindBindings destId name destName scopes bs

/-- `dest_scopes`, before the loop. -/
def destScopes (destId : Nat) (bindings : List IntegrationBinding) : List BindScope :=
  (bindings.filter fun b => decide (b.serverId = destId)).map fun b => b.scope (strip b.dockerProject)

/-- Both ends of an edge. -/
def moveEdge (s t : Nat × Str) (e : RuntimeEdge) : RuntimeEdge := RuntimeEdge.toEnd.move s t (RuntimeEdge.fromEnd.move s t e)

/-- The certificates of the records that were or are the project's. -/
def certIds (sourceId destId : Nat) (name destName : Str) (w : Plane) : List Nat :=
  ((w.dnsRows sourceId name none ++ w.dnsRows destId destName none ++
      if destName ≠ name then w.dnsRows destId name none else []).filterMap (·.certificateId)).dedup.filter (· ≠ 0)

/-- The destination gets a copy of the source's target of a certificate, unless it has one. -/
def cloneTarget (sourceId destId : Nat) (targets : List CertificateTarget) (certId : Nat) : List CertificateTarget :=
  if targets.any fun t => decide (t.serverId = destId) && decide (t.certificateId = certId) then targets
  else match targets.find? fun t => decide (t.serverId = sourceId) && decide (t.certificateId = certId) with
  | none => targets
  | some t =>
    targets ++ [{ id := freshId (targets.map (·.id)), certificateId := certId, serverId := destId, settings := t.settings }]

/-- What `rebind_control_plane` commits. -/
def rebindPlane (sourceId destId : Nat) (name destName : Str) (w : Plane) : Plane :=
  let s := (sourceId, name)
  let t := (destId, destName)
  { w with
    deployments := StackDeployment.scope.moveRows s t w.deployments
    bindings := rebindBindings destId name destName (destScopes destId w.bindings) w.bindings
    visualStacks := VisualServiceStack.scope.moveRows s t w.visualStacks
    annotations := ContainerAnnotation.scope.moveRows s t w.annotations
    ports := PortAnnotation.scope.moveRows (some sourceId, name) (some destId, destName) w.ports
    edges := w.edges.map (moveEdge s t)
    certTargets := (certIds sourceId destId name destName w).foldl (cloneTarget sourceId destId) w.certTargets }

def rebindControlPlane (source dest : Server) (project destProject : Str) : PlaneM Unit := do
  let name ← checkedName project
  let destName ← checkedName (if destProject ≠ [] then destProject else project)
  Eff.modify (rebindPlane source.id dest.id name destName)

/-! ## What a rebind leaves alone -/

/-- Row by row, a table after a rebind: only the rows of `s` are elsewhere. -/
def OnlyMoved {R S : Type} (L : Lens R S) (s t : S) (rows rows' : List R) : Prop :=
  List.Forall₂ (fun r r' => r' = r ∨ (L.get r = s ∧ r' = L.set t r)) rows rows'

/-- An end of an edge after a rebind. -/
def EndMoved (s t e e' : Nat × Str) : Prop := e' = e ∨ (e = s ∧ e' = t)

structure RebindFrame (sourceId destId : Nat) (name destName : Str) (w w' : Plane) : Prop where
  servers : w'.servers = w.servers
  records : w'.records = w.records
  npm : w'.npm = w.npm
  deployments : OnlyMoved StackDeployment.scope (sourceId, name) (destId, destName) w.deployments w'.deployments
  visualStacks : OnlyMoved VisualServiceStack.scope (sourceId, name) (destId, destName) w.visualStacks w'.visualStacks
  annotations : OnlyMoved ContainerAnnotation.scope (sourceId, name) (destId, destName) w.annotations w'.annotations
  ports : OnlyMoved PortAnnotation.scope (some sourceId, name) (some destId, destName) w.ports w'.ports
  edges : List.Forall₂ (fun e e' => e'.id = e.id ∧
    EndMoved (sourceId, name) (destId, destName) (RuntimeEdge.fromEnd.get e) (RuntimeEdge.fromEnd.get e') ∧
    EndMoved (sourceId, name) (destId, destName) (RuntimeEdge.toEnd.get e) (RuntimeEdge.toEnd.get e')) w.edges w'.edges
  bindingsKept : ∀ b ∈ w.bindings, ¬ (follows name b = true ∧ b.serverId ≠ destId) → b ∈ w'.bindings
  bindings : ∀ b' ∈ w'.bindings, b' ∈ w.bindings ∨
    ∃ b ∈ w.bindings, follows name b = true ∧ b.serverId ≠ destId ∧ b' = { b with serverId := destId, dockerProject := destName }
  certTargets : ∃ clones, w'.certTargets = w.certTargets ++ clones ∧ ∀ t ∈ clones, t.serverId = destId

theorem moveEdge_ends (s t : Nat × Str) (e : RuntimeEdge) :
    (moveEdge s t e).id = e.id ∧ EndMoved s t (RuntimeEdge.fromEnd.get e) (RuntimeEdge.fromEnd.get (moveEdge s t e)) ∧
      EndMoved s t (RuntimeEdge.toEnd.get e) (RuntimeEdge.toEnd.get (moveEdge s t e)) := by
  unfold moveEdge Lens.move EndMoved RuntimeEdge.fromEnd RuntimeEdge.toEnd
  grind

theorem follows_project {name : Str} {b : IntegrationBinding} (h : follows name b = true) : b.dockerProject = name := by
  unfold follows at h
  rw [Bool.and_eq_true, decide_eq_true_eq] at h
  exact h.1

theorem newProject_of_follows {name destName : Str} {b : IntegrationBinding} (h : follows name b = true) :
    newProject name destName b = destName := by
  unfold newProject
  split
  · rfl
  · rename_i heq
    rw [follows_project h]
    exact (not_not.1 heq).symm

theorem mem_rebindBindings_of_stays {destId : Nat} {name destName : Str} {b : IntegrationBinding}
    (hstay : ¬ (follows name b = true ∧ b.serverId ≠ destId)) {bs : List IntegrationBinding} :
    ∀ {scopes}, b ∈ bs → b ∈ rebindBindings destId name destName scopes bs := by
  induction bs with
  | nil => intro scopes h; exact h
  | cons c bs ih =>
    intro scopes h
    unfold rebindBindings
    rcases List.mem_cons.1 h with rfl | h
    · split
      · rename_i hf
        have hdest : b.serverId = destId := by_contra fun hne => hstay ⟨hf, hne⟩
        simp only [moveBinding, if_pos hdest, Option.toList_some]
        exact List.mem_cons_self
      · exact List.mem_cons_self
    · split
      · exact List.mem_append_right _ (ih h)
      · exact List.mem_cons_of_mem _ (ih h)

theorem mem_of_mem_rebindBindings {destId : Nat} {name destName : Str} {b' : IntegrationBinding}
    {bs : List IntegrationBinding} : ∀ {scopes}, b' ∈ rebindBindings destId name destName scopes bs → b' ∈ bs ∨
      ∃ b ∈ bs, follows name b = true ∧ b.serverId ≠ destId ∧
        b' = { b with serverId := destId, dockerProject := destName } := by
  induction bs with
  | nil => intro scopes h; exact Or.inl h
  | cons c bs ih =>
    intro scopes h
    have hrest : ∀ {scopes}, b' ∈ rebindBindings destId name destName scopes bs → b' ∈ c :: bs ∨
        ∃ b ∈ c :: bs, follows name b = true ∧ b.serverId ≠ destId ∧
          b' = { b with serverId := destId, dockerProject := destName } := fun h =>
      (ih h).imp (List.mem_cons_of_mem _) fun ⟨b, hb, hf⟩ => ⟨b, List.mem_cons_of_mem _ hb, hf⟩
    unfold rebindBindings at h
    split at h
    · rename_i hf
      rcases List.mem_append.1 h with h | h
      · unfold moveBinding at h
        simp only at h
        split at h
        · simp only [Option.toList_some, List.mem_singleton] at h
          exact Or.inl (h ▸ List.mem_cons_self)
        · rename_i hne
          split at h
          · cases h
          · simp only [Option.toList_some, List.mem_singleton, newProject_of_follows hf] at h
            exact Or.inr ⟨c, List.mem_cons_self, hf, hne, h⟩
      · exact hrest h
    · rcases List.mem_cons.1 h with rfl | h
      · exact Or.inl List.mem_cons_self
      · exact hrest h

theorem cloneTargets_append (sourceId destId : Nat) (certs : List Nat) (targets : List CertificateTarget) :
    ∃ clones, certs.foldl (cloneTarget sourceId destId) targets = targets ++ clones ∧ ∀ t ∈ clones, t.serverId = destId := by
  induction certs generalizing targets with
  | nil => exact ⟨[], by simp, by simp⟩
  | cons c certs ih =>
    obtain ⟨clones, heq, hclones⟩ := ih (cloneTarget sourceId destId targets c)
    rw [List.foldl_cons, heq]
    unfold cloneTarget
    split
    · exact ⟨clones, rfl, hclones⟩
    · split
      · exact ⟨clones, rfl, hclones⟩
      · refine ⟨_ :: clones, by rw [List.append_assoc]; rfl, fun t ht => ?_⟩
        rcases List.mem_cons.1 ht with rfl | ht
        · rfl
        · exact hclones t ht

theorem rebindPlane_frame (sourceId destId : Nat) (name destName : Str) (w : Plane) :
    RebindFrame sourceId destId name destName w (rebindPlane sourceId destId name destName w) where
  servers := rfl
  records := rfl
  npm := rfl
  deployments := Lens.moveRows_forall₂ _ _ _ _
  visualStacks := Lens.moveRows_forall₂ _ _ _ _
  annotations := Lens.moveRows_forall₂ _ _ _ _
  ports := Lens.moveRows_forall₂ _ _ _ _
  edges := by
    simp only [rebindPlane, List.forall₂_map_right_iff, List.forall₂_same]
    exact fun e _ => moveEdge_ends _ _ e
  bindingsKept _ hb hstay := mem_rebindBindings_of_stays hstay hb
  bindings _ hb := mem_of_mem_rebindBindings hb
  certTargets := cloneTargets_append _ _ _ _

theorem OnlyMoved.refl {R S : Type} (L : Lens R S) (s t : S) (rows : List R) : OnlyMoved L s t rows rows :=
  List.forall₂_same.2 fun _ _ => Or.inl rfl

theorem RebindFrame.refl (sourceId destId : Nat) (name destName : Str) (w : Plane) :
    RebindFrame sourceId destId name destName w w where
  servers := rfl
  records := rfl
  npm := rfl
  deployments := OnlyMoved.refl _ _ _ _
  visualStacks := OnlyMoved.refl _ _ _ _
  annotations := OnlyMoved.refl _ _ _ _
  ports := OnlyMoved.refl _ _ _ _
  edges := List.forall₂_same.2 fun _ _ => ⟨rfl, Or.inl rfl, Or.inl rfl⟩
  bindingsKept _ hb _ := hb
  bindings _ hb := Or.inl hb
  certTargets := ⟨[], by simp, by simp⟩

/-- **Frame of a rebind.** In every table but the bindings only the rows of the project on the source
move; a binding moves, or is dropped, when it follows the project, from whatever host but the destination;
certificate targets are only added. -/
theorem rebindControlPlane_frame (source dest : Server) (project destProject : Str) (w : Plane) :
    RebindFrame source.id dest.id (strip project) (strip (if destProject ≠ [] then destProject else project)) w
      (rebindControlPlane source dest project destProject w).2 := by
  unfold rebindControlPlane
  rw [Eff.bind_apply]
  rcases checkedName_apply project w with hname | ⟨_, hname⟩
  · rw [hname]
    simp only
    rw [Eff.bind_apply]
    rcases checkedName_apply (if destProject ≠ [] then destProject else project) w with hdest | ⟨_, hdest⟩
    · rw [hdest]
      exact rebindPlane_frame source.id dest.id _ _ w
    · rw [hdest]
      exact RebindFrame.refl _ _ _ _ w
  · rw [hname]
    exact RebindFrame.refl _ _ _ _ w

/-- The third host's proxy-host binding of its own "web" is moved to the destination, although nothing
of this project is on the source. -/
theorem rebindControlPlane_crosses_hosts :
    ThreeHosts.plane.bindings.map (fun b => (b.serverId, b.dockerProject)) = [(3, lit "web")] ∧
      (rebindControlPlane ThreeHosts.source ThreeHosts.dest (lit "web") (lit "web2") ThreeHosts.plane).2.bindings.map
        (fun b => (b.serverId, b.dockerProject)) = [(2, lit "web2")] := by
  decide +kernel

end PiHerder.Migrate
