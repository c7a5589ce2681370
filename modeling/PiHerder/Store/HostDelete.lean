import PiHerder.Lib.PyStr
import PiHerder.Lib.Sweep
import PiHerder.Store.Deletes

/-!
# Taking a server out of the fleet

| here | there |
| --- | --- |
| `cancelActiveJobs` | `services/server_lifecycle.py:58` |
| `hostEdits` | `services/server_lifecycle.py:96` (`_purge_server_children`), `:233`–`:268`, `services/ssh_identities.py:270`, `services/dns_fabric/core.py:3054` |
| `deleteServerFromFleet` | `services/server_lifecycle.py:193`, `routers/servers.py:1139` |

Each query flushes the deletes before it, so they reach the database in the order of the code. The jobs are cancelled in a commit
of their own: a delete that a foreign key then forbids leaves them cancelled (`delete_server`). What forbids one is a reference
that the purge leaves out, and there are three (`Blocked`); the first is left by every project that ever was locked on the host.
-/
namespace PiHerder.Store
open Lib Lib.Database Str

section Code
variable (s : Nat)

def active (j : Rec) : Bool := ["pending", "running"].contains j.data.status

def cancelJob (now : Nat) (j : Rec) : Rec := { j with data := { j.data with status := "cancelled", finishedAt := some now } }

def cancelActiveJobs (now : Nat) (db : Db) : Db :=
  Function.update db .job ((db .job).map fun j => if j.refersTo .serverId [s] && active j then cancelJob now j else j)

/-- The annotations of the server's containers. -/
def annotationIds (db : Db) : List Nat := ((db .containerAnnotations).filter (·.refersTo .serverId [s])).map Row.id

/-- Delete the rows of a table with one of these columns on the server. -/
def deleteOf (t : Tbl) (cols : List Col) : Edit Tbl Col Cols := .delete t fun r => cols.any fun c => r.refersTo c [s]

/-- `row.c = None` for the rows of the server. -/
def unlink (t : Tbl) (c : Col) : Edit Tbl Col Cols := .clear t c [s]

def beforeAnnotations (annIds : List Nat) : List (Edit Tbl Col Cols) :=
  [deleteOf s .dockerVersion [.serverId], .delete .containerAnnotationTag (·.refersTo .annotationId annIds)]

def beforeDeployments : List (Edit Tbl Col Cols) :=
  [deleteOf s .certificateTarget [.serverId], deleteOf s .runtimeEdge [.fromServerId, .toServerId], deleteOf s .userFavourite [.serverId],
    deleteOf s .serviceDnsRecord [.targetServerId, .backendServerId]]

def afterDeployments : List (Edit Tbl Col Cols) :=
  [deleteOf s .integrationBinding [.serverId], deleteOf s .portAnnotations [.serverId], deleteOf s .serverSshIdentity [.serverId],
    unlink s .nmapDevice .linkedServerId, deleteOf s .serviceDnsRecord [.targetServerId, .backendServerId],
    unlink s .job .serverId, unlink s .auditLog .serverId, unlink s .notification .serverId]

def hostEdits (annIds : List Nat) : List (Edit Tbl Col Cols) :=
  beforeAnnotations s annIds ++ [deleteOf s .containerAnnotations [.serverId]] ++ [deleteOf s .visualServiceStack [.serverId]] ++
    beforeDeployments s ++ [deleteOf s .stackDeployment [.serverId]] ++ afterDeployments s

inductive Removal
  | refused
  | failed
  | deleted
deriving DecidableEq, Repr

/-- The answer, and the database; where a foreign key forbids a delete, what is not committed is rolled back. -/
def deleteServerFromFleet (now : Nat) (name confirmName : Str) (db : Db) : Removal × Db :=
  if strip name = [] ∨ strip confirmName ≠ strip name then (.refused, db)
  else
    let db := cancelActiveJobs s now db
    match runEdits schema (hostEdits s (annotationIds s db) ++ [.delete .server fun r => r.id == s]) db with
    | none => (.failed, db)
    | some db' => (.deleted, db')

/-! ## What is left out -/

/-- The references that the purge leaves: of a project that was ever locked on the host, of an annotation of another host's container
that stands in a stack of this one, and of a DNS record of other hosts that was made by a deployment on this one. -/
def Blocked (db : Db) : Prop :=
  (∃ m ∈ db .composeProjectMeta, m.ref .serverId = some s) ∨
    (∃ a ∈ db .containerAnnotations, a.ref .serverId ≠ some s ∧
      ∃ v ∈ db .visualServiceStack, v.ref .serverId = some s ∧ a.ref .visualStackId = some v.id) ∨
    ∃ r ∈ db .serviceDnsRecord, r.ref .targetServerId ≠ some s ∧ r.ref .backendServerId ≠ some s ∧
      ∃ d ∈ db .stackDeployment, d.ref .serverId = some s ∧ r.ref .stackDeploymentId = some d.id

end Code

section Purge
variable {s : Nat} {annIds : List Nat} {db : Db}

theorem refersTo_one {c : Col} {r : Rec} : r.refersTo c [s] = true ↔ r.ref c = some s := by simp [Row.refersTo_iff]

theorem refersTo_one_false {c : Col} {r : Rec} : r.refersTo c [s] = false ↔ r.ref c ≠ some s := by
  rw [← Bool.not_eq_true, refersTo_one]

/-- The tables that nothing refers to. -/
def leaves : List Tbl :=
  [.dockerVersion, .containerAnnotationTag, .certificateTarget, .runtimeEdge, .userFavourite, .serviceDnsRecord, .integrationBinding,
    .portAnnotations, .serverSshIdentity]

theorem leaves_leaf : ∀ t ∈ leaves, ∀ k ∈ schema, k.target ≠ t := by decide

/-- The columns that may be cleared. -/
def unlinked : List (Tbl × Col) := [(.nmapDevice, .linkedServerId), (.job, .serverId), (.auditLog, .serverId), (.notification, .serverId)]

theorem unlinked_nullable : ∀ x ∈ unlinked, ∀ k ∈ schema, k.table = x.1 → k.column = x.2 → k.nullable = true := by decide

theorem allowed_deleteOf {t : Tbl} (ht : t ∈ leaves) (cols : List Col) : (deleteOf s t cols).Allowed schema db :=
  Edit.allowed_leaf (leaves_leaf t ht)

theorem allowed_unlink {t : Tbl} {c : Col} (h : (t, c) ∈ unlinked) : (unlink s t c).Allowed schema db :=
  Edit.allowed_nullable (unlinked_nullable (t, c) h)

theorem allAllowed_beforeAnnotations : AllAllowed schema (beforeAnnotations s annIds) db :=
  ⟨allowed_deleteOf (by decide) _, Edit.allowed_leaf (leaves_leaf _ (by decide)), trivial⟩

theorem allAllowed_beforeDeployments : AllAllowed schema (beforeDeployments s) db :=
  ⟨allowed_deleteOf (by decide) _, allowed_deleteOf (by decide) _, allowed_deleteOf (by decide) _, allowed_deleteOf (by decide) _, trivial⟩

theorem allAllowed_afterDeployments : AllAllowed schema (afterDeployments s) db :=
  ⟨allowed_deleteOf (by decide) _, allowed_deleteOf (by decide) _, allowed_deleteOf (by decide) _, allowed_unlink (by decide),
    allowed_deleteOf (by decide) _, allowed_unlink (by decide), allowed_unlink (by decide), allowed_unlink (by decide), trivial⟩

theorem tags_gone {r : Rec} (hr : r ∈ effects (beforeAnnotations s annIds) db .containerAnnotationTag) : r.refersTo .annotationId annIds = false := by
  have hmem : Edit.delete Tbl.containerAnnotationTag (·.refersTo .annotationId annIds) ∈ beforeAnnotations s annIds := by simp [beforeAnnotations]
  exact covered hmem ⟨rfl, fun _ h => h⟩ hr

theorem mem_annotations {r : Rec} :
    r ∈ effects (beforeAnnotations s annIds ++ [deleteOf s .containerAnnotations [.serverId]]) db .containerAnnotations ↔
      r ∈ db .containerAnnotations ∧ r.ref .serverId ≠ some s := by
  rw [mem_effects (by simp [beforeAnnotations, deleteOf])]
  simp [beforeAnnotations, deleteOf, Edit.Hits, ← refersTo_one]

theorem mem_records {before : List (Edit Tbl Col Cols)} (hbefore : ∀ e ∈ before, e.table ≠ .serviceDnsRecord) {r : Rec} :
    r ∈ effects (before ++ beforeDeployments s) db .serviceDnsRecord ↔
      r ∈ db .serviceDnsRecord ∧ r.ref .targetServerId ≠ some s ∧ r.ref .backendServerId ≠ some s := by
  rw [effects_append, mem_effects (by simp [beforeDeployments, deleteOf]), effects_other hbefore]
  simp [beforeDeployments, deleteOf, Edit.Hits, ← refersTo_one]

/-- The tags of the annotations are gone before the annotations. -/
theorem allowed_annotations :
    (deleteOf s .containerAnnotations [.serverId]).Allowed schema (effects (beforeAnnotations s (annotationIds s db)) db) := by
  have hsame : (effects (beforeAnnotations s (annotationIds s db)) db) .containerAnnotations = db .containerAnnotations :=
    effects_other (by simp [beforeAnnotations, deleteOf, Edit.table])
  rw [deleteOf, Edit.allowed_single (u := .containerAnnotationTag) (c := .annotationId) (by decide) (by decide) (by decide), hsame]
  intro tag htag a ha hserver href
  have hgone := tags_gone htag
  rw [← Bool.not_eq_true, Row.refersTo_iff] at hgone
  refine hgone ⟨a.id, ?_, href⟩
  exact List.mem_map_of_mem (List.mem_filter.2 ⟨ha, by simpa using hserver⟩)

/-- The stacks go unless an annotation of another host's container stands in one. -/
theorem allowed_stacks : (deleteOf s .visualServiceStack [.serverId]).Allowed schema
      (effects (beforeAnnotations s annIds ++ [deleteOf s .containerAnnotations [.serverId]]) db) ↔
    ∀ a ∈ db .containerAnnotations, a.ref .serverId ≠ some s →
      ∀ v ∈ db .visualServiceStack, v.ref .serverId = some s → a.ref .visualStackId ≠ some v.id := by
  have hsame : (effects (beforeAnnotations s annIds ++ [deleteOf s .containerAnnotations [.serverId]]) db) .visualServiceStack = db .visualServiceStack :=
    effects_other (by simp [beforeAnnotations, deleteOf, Edit.table])
  rw [deleteOf, Edit.allowed_single (u := .containerAnnotations) (c := .visualStackId) (by decide) (by decide) (by decide), hsame]
  simp [mem_annotations, refersTo_one]

/-- The deployments go unless a record of other hosts was made by one. -/
theorem allowed_deployments {before : List (Edit Tbl Col Cols)} (hrecords : ∀ e ∈ before, e.table ≠ .serviceDnsRecord)
    (hdeployments : ∀ e ∈ before, e.table ≠ .stackDeployment) :
    (deleteOf s .stackDeployment [.serverId]).Allowed schema (effects (before ++ beforeDeployments s) db) ↔
      ∀ r ∈ db .serviceDnsRecord, r.ref .targetServerId ≠ some s → r.ref .backendServerId ≠ some s →
        ∀ d ∈ db .stackDeployment, d.ref .serverId = some s → r.ref .stackDeploymentId ≠ some d.id := by
  have hsame : (effects (before ++ beforeDeployments s) db) .stackDeployment = db .stackDeployment := by
    rw [effects_append, effects_other (by simp [beforeDeployments, deleteOf, Edit.table]), effects_other hdeployments]
  rw [deleteOf, Edit.allowed_single (u := .serviceDnsRecord) (c := .stackDeploymentId) (by decide) (by decide) (by decide), hsame]
  simp [mem_records hrecords, refersTo_one]

/-- The columns that the purge sees to by deleting their rows. -/
def deletedColumns : List (Tbl × List Col) :=
  [(.dockerVersion, [.serverId]), (.containerAnnotations, [.serverId]), (.visualServiceStack, [.serverId]), (.certificateTarget, [.serverId]),
    (.runtimeEdge, [.fromServerId, .toServerId]), (.userFavourite, [.serverId]), (.serviceDnsRecord, [.targetServerId, .backendServerId]),
    (.stackDeployment, [.serverId]), (.integrationBinding, [.serverId]), (.portAnnotations, [.serverId]), (.serverSshIdentity, [.serverId])]

theorem mem_hostEdits_delete : ∀ x ∈ deletedColumns, deleteOf s x.1 x.2 ∈ hostEdits s annIds := by
  simp [deletedColumns, hostEdits, beforeAnnotations, beforeDeployments, afterDeployments]

theorem mem_hostEdits_unlink : ∀ x ∈ unlinked, unlink s x.1 x.2 ∈ hostEdits s annIds := by
  simp [unlinked, hostEdits, afterDeployments]

/-- Every column that refers to a server, but one. -/
theorem seen_to : ∀ k ∈ schema, k.target = .server →
    (k.table = .composeProjectMeta ∧ k.column = .serverId) ∨ (∃ x ∈ deletedColumns, x.1 = k.table ∧ k.column ∈ x.2) ∨ (k.table, k.column) ∈ unlinked := by
  decide

/-- What the purge leaves in a column that refers to servers. -/
theorem seen {k : ForeignKey Tbl Col} (hk : k ∈ schema) (ht : k.target = .server) (hmeta : k.table ≠ .composeProjectMeta) {r : Rec}
    (hr : r ∈ effects (hostEdits s annIds) db k.table) : r.ref k.column ≠ some s := by
  rw [← refersTo_one_false]
  rcases seen_to k hk ht with ⟨htable, -⟩ | ⟨x, hx, htable, hcolumn⟩ | hunlinked
  · exact absurd htable hmeta
  · have hcovers : (deleteOf s x.1 x.2).Covers k.table k.column [s] :=
      ⟨htable, fun r hrefers => List.any_eq_true.2 ⟨k.column, hcolumn, hrefers⟩⟩
    exact covered (mem_hostEdits_delete x hx) hcovers hr
  · exact covered (mem_hostEdits_unlink _ hunlinked) ⟨rfl, rfl, rfl⟩ hr

theorem hostEdits_tables : ∀ e ∈ hostEdits s annIds, e.table ≠ .server ∧ e.table ≠ .composeProjectMeta := by
  simp [hostEdits, beforeAnnotations, beforeDeployments, afterDeployments, deleteOf, unlink, Edit.table]

/-- The server goes unless a project's flags on it are kept. -/
theorem allowed_server (hserver : ∃ r ∈ db .server, r.id = s) :
    (Edit.delete Tbl.server fun r : Rec => r.id == s).Allowed schema (effects (hostEdits s annIds) db) ↔
      ∀ m ∈ db .composeProjectMeta, m.ref .serverId ≠ some s := by
  have hrows : (effects (hostEdits s annIds) db) .server = db .server := effects_other fun e he => (hostEdits_tables e he).1
  have hflags : (effects (hostEdits s annIds) db) .composeProjectMeta = db .composeProjectMeta := effects_other fun e he => (hostEdits_tables e he).2
  have hids : ∀ i, i ∈ ((db .server).filter fun r => r.id == s).map Row.id ↔ i = s := by
    intro i
    obtain ⟨r, hr, hid⟩ := hserver
    constructor
    · intro hi
      obtain ⟨r', hr', rfl⟩ := List.mem_map.1 hi
      simpa using (List.mem_filter.1 hr').2
    · rintro rfl
      exact List.mem_map.2 ⟨r, List.mem_filter.2 ⟨hr, by simpa using hid⟩, hid⟩
  have hrefers : ∀ (c : Col) (r : Rec), r.refersTo c (((db .server).filter fun r => r.id == s).map Row.id) = false ↔ r.ref c ≠ some s := by
    intro c r
    rw [← Bool.not_eq_true, Row.refersTo_iff]
    simp only [hids, exists_eq_left]
  have hself : ∀ k ∈ schema, k.target = .server → Tbl.server ≠ k.table := by decide
  simp only [Edit.Allowed, hrows, hrefers]
  constructor
  · intro h m hm
    refine h (must .composeProjectMeta .serverId .server) (by decide) rfl m ?_
    rw [Edit.effect_other (by simp [Edit.table, must])]
    rwa [← hflags] at hm
  · intro h k hk ht r hr
    have hother : (Edit.delete Tbl.server fun r : Rec => r.id == s).table ≠ k.table := hself k hk ht
    rw [Edit.effect_other hother] at hr
    by_cases hmeta : k.table = .composeProjectMeta
    · rw [hmeta, hflags] at hr
      rcases seen_to k hk ht with ⟨-, hcolumn⟩ | ⟨x, hx, htable, -⟩ | hunlinked
      · rw [hcolumn]
        exact h r hr
      · rw [hmeta] at htable
        have hno : ∀ x ∈ deletedColumns, x.1 ≠ .composeProjectMeta := by decide
        exact absurd htable (hno x hx)
      · have hno : ∀ x ∈ unlinked, x.1 ≠ .composeProjectMeta := by decide
        exact absurd hmeta (hno _ hunlinked)
    · exact seen hk ht hmeta hr

/-- **The purge goes through exactly when none of the three references is there.** -/
theorem allAllowed_iff (hserver : ∃ r ∈ db .server, r.id = s) :
    AllAllowed schema (hostEdits s (annotationIds s db) ++ [.delete .server fun r => r.id == s]) db ↔ ¬ Blocked s db := by
  have hstacks : ∀ e ∈ beforeAnnotations s (annotationIds s db) ++ [deleteOf s .containerAnnotations [.serverId]] ++
      [deleteOf s .visualServiceStack [.serverId]], e.table ≠ .serviceDnsRecord ∧ e.table ≠ .stackDeployment := by
    simp [beforeAnnotations, deleteOf, Edit.table]
  have hdeployments := @allowed_deployments s db _ (fun e he => (hstacks e he).1) fun e he => (hstacks e he).2
  rw [allAllowed_append]
  simp only [AllAllowed, and_true, allowed_server hserver]
  unfold hostEdits
  simp only [allAllowed_append, AllAllowed, and_true, allAllowed_beforeAnnotations, allAllowed_beforeDeployments, allAllowed_afterDeployments,
    allowed_annotations, allowed_stacks, hdeployments, true_and]
  unfold Blocked
  push Not
  tauto

end Purge

/-! ## The delete -/

section Cancel
variable {s now : Nat} {db : Db}

theorem cancelActiveJobs_other {t : Tbl} (ht : t ≠ .job) : cancelActiveJobs s now db t = db t := Function.update_of_ne ht _ _

theorem blocked_cancel : Blocked s (cancelActiveJobs s now db) ↔ Blocked s db := by
  unfold Blocked
  simp only [cancelActiveJobs_other (show Tbl.composeProjectMeta ≠ .job by decide), cancelActiveJobs_other (show Tbl.containerAnnotations ≠ .job by decide),
    cancelActiveJobs_other (show Tbl.visualServiceStack ≠ .job by decide), cancelActiveJobs_other (show Tbl.serviceDnsRecord ≠ .job by decide),
    cancelActiveJobs_other (show Tbl.stackDeployment ≠ .job by decide)]

theorem cancelActiveJobs_job : cancelActiveJobs s now db .job = (db .job).map fun j => if j.refersTo .serverId [s] && active j then cancelJob now j else j :=
  Function.update_self ..

/-- A cancelled job is the row that it was, but for its data. -/
theorem cancel_old {t : Tbl} {r' : Rec} (h : r' ∈ cancelActiveJobs s now db t) : ∃ r ∈ db t, r.id = r'.id ∧ r.ref = r'.ref := by
  by_cases ht : t = .job
  · subst ht
    rw [cancelActiveJobs_job] at h
    obtain ⟨j, hj, rfl⟩ := List.mem_map.1 h
    refine ⟨j, hj, ?_⟩
    split <;> exact ⟨rfl, rfl⟩
  · rw [cancelActiveJobs_other ht] at h
    exact ⟨r', h, rfl, rfl⟩

theorem cancel_ids (t : Tbl) : (cancelActiveJobs s now db t).map Row.id = (db t).map Row.id := by
  by_cases ht : t = .job
  · subst ht
    rw [cancelActiveJobs_job, List.map_map]
    refine List.map_congr_left fun j _ => ?_
    simp only [Function.comp]
    split <;> rfl
  · rw [cancelActiveJobs_other ht]

theorem whole_cancel (hwhole : Whole schema db) : Whole schema (cancelActiveJobs s now db) := by
  refine ⟨fun t => by rw [cancel_ids]; exact hwhole.ids t, fun k hk r' hr' i hi => ?_, fun k hk hnull r' hr' => ?_⟩
  · obtain ⟨r, hr, -, href⟩ := cancel_old hr'
    obtain ⟨target, htarget, hid⟩ := hwhole.refs k hk r hr i (by rw [href]; exact hi)
    have hmem : i ∈ (cancelActiveJobs s now db k.target).map Row.id := by
      rw [cancel_ids, ← hid]
      exact List.mem_map_of_mem htarget
    exact List.mem_map.1 hmem
  · obtain ⟨r, hr, -, href⟩ := cancel_old hr'
    rw [← href]
    exact hwhole.notNull k hk hnull r hr

end Cancel

section Frame
variable {s : Nat} {annIds : List Nat} {db : Db}

theorem hostEdits_forms : ∀ e ∈ hostEdits s annIds, (∃ x ∈ deletedColumns, e = deleteOf s x.1 x.2) ∨ (∃ x ∈ unlinked, e = unlink s x.1 x.2) ∨
    e = .delete .containerAnnotationTag (·.refersTo .annotationId annIds) := by
  simp [hostEdits, beforeAnnotations, beforeDeployments, afterDeployments, deletedColumns, unlinked]

theorem deletedColumns_keys : ∀ x ∈ deletedColumns, ∀ c ∈ x.2, ∃ k ∈ schema, k.table = x.1 ∧ k.column = c ∧ k.target = .server := by decide

theorem unlinked_keys : ∀ x ∈ unlinked, ∃ k ∈ schema, k.table = x.1 ∧ k.column = x.2 ∧ k.target = .server := by decide

/-- A row that is not of the server: no key of it refers to the server, and it is no tag of one of its annotations. -/
def Elsewhere (s : Nat) (annIds : List Nat) (t : Tbl) (r : Rec) : Prop :=
  (∀ k ∈ schema, k.table = t → k.target = .server → r.ref k.column ≠ some s) ∧
    (t = .containerAnnotationTag → r.refersTo .annotationId annIds = false)

theorem not_hits {t : Tbl} {r : Rec} (h : Elsewhere s annIds t r) : ∀ e ∈ hostEdits s annIds, ¬ e.Hits t r := by
  intro e he hhits
  rcases hostEdits_forms e he with ⟨x, hx, rfl⟩ | ⟨x, hx, rfl⟩ | rfl
  · obtain ⟨htable, hany⟩ := hhits
    obtain ⟨c, hc, hrefers⟩ := List.any_eq_true.1 hany
    obtain ⟨k, hk, hkt, rfl, htarget⟩ := deletedColumns_keys x hx c hc
    exact h.1 k hk (hkt.trans htable) htarget (refersTo_one.1 hrefers)
  · obtain ⟨htable, hrefers⟩ := hhits
    obtain ⟨k, hk, hkt, hcolumn, htarget⟩ := unlinked_keys x hx
    rw [← hcolumn] at hrefers
    exact h.1 k hk (hkt.trans htable) htarget (refersTo_one.1 hrefers)
  · obtain ⟨rfl, hrefers⟩ := hhits
    simp [h.2 rfl] at hrefers

/-- The history of a server stays, without the server. -/
theorem history_kept {t : Tbl} (ht : t ∈ [Tbl.job, .auditLog, .notification, .nmapDevice]) {r : Rec} (hr : r ∈ db t) :
    ∃ r' ∈ effects (hostEdits s annIds ++ [.delete .server fun r => r.id == s]) db t, r.Cleared r' := by
  refine effects_kept hr fun p hp => ?_
  have hnone : ∀ t ∈ [Tbl.job, .auditLog, .notification, .nmapDevice], ∀ x ∈ deletedColumns, x.1 ≠ t := by decide
  have hno := hnone t ht
  rcases List.mem_append.1 hp with hp | hp
  · rcases hostEdits_forms _ hp with ⟨x, hx, heq⟩ | ⟨x, hx, heq⟩ | heq
    · exact hno x hx (congrArg Edit.table heq).symm
    · simp [unlink] at heq
    · obtain rfl : t = .containerAnnotationTag := congrArg Edit.table heq
      simp at ht
  · obtain rfl : t = .server := congrArg Edit.table (List.mem_singleton.1 hp)
    simp at ht

end Frame

/-- A backup runs on host 1; a project was once locked on host 2. -/
def twoHosts : Db
  | .server => [⟨1, fun _ => none, {}⟩, ⟨2, fun _ => none, {}⟩]
  | .job => [⟨4, refTo .serverId 1, { status := "running" }⟩]
  | .composeProjectMeta => [⟨1, refTo .serverId 2, {}⟩]
  | _ => []

theorem twoHosts_whole : Whole schema twoHosts where
  ids t := by cases t <;> decide
  refs := by decide
  notNull := by decide

end PiHerder.Store
