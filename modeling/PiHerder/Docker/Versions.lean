import PiHerder.Lib.Dict
import PiHerder.Lib.PyStr
import PiHerder.Lib.Runs
import PiHerder.Lib.Table

/-!
# The versions of a project's files

| here | there |
| --- | --- |
| `DockerVersion` | `models.py:411` |
| `getVersions`, `saveDraftVersion`, `deployVersion`, `pruneOldVersions` | `services/docker_versions.py:315`–`410` |
| `VersionCall.saveDraft` | `routers/server_docker_compose.py:664` (`save_draft`) |
| `VersionCall.save` | `routers/server_docker_compose.py:780` (`save_compose`), `:392` (`save_dockerfile`), `services/service_templates/deploy.py:402` |
| `VersionCall.deploy` | `routers/server_docker_compose.py:703` (`deploy_version_route`), `:731` (`rollback_version`) |

`written` is what `write_project_files` answers. A project's versions are numbered from 1 and the last ten stay, drafts and
deployed ones alike (`versions_kept`): a version on the host is forgotten once ten newer ones were saved.
-/
namespace PiHerder.Docker
open Lib

/-- A server and the name of a project on it. -/
abbrev ProjectKey := Nat × Str

structure DockerVersion where
  id : Nat
  serverId : Nat
  projectName : Str
  version : Nat
  files : Dict Str Str
  isDraft : Bool := true
  deployedAt : Option Int := none
deriving DecidableEq, Repr

def DockerVersion.key (v : DockerVersion) : ProjectKey := (v.serverId, v.projectName)

abbrev Versions := Keyed DockerVersion Nat DockerVersion.id

def ofProject (k : ProjectKey) (rows : List DockerVersion) : List DockerVersion := rows.filter fun v => v.key == k

/-- `order_by(DockerVersion.version.desc())` -/
def newestFirst (rows : List DockerVersion) : List DockerVersion := rows.mergeSort fun a b => decide (b.version ≤ a.version)

def getVersions (k : ProjectKey) (limit : Nat) (t : Versions) : List DockerVersion := (newestFirst (ofProject k t.rows)).take limit

/-- The largest number, or 0. -/
def maxVersion (k : ProjectKey) (t : Versions) : Nat := ((newestFirst (ofProject k t.rows)).head?.map DockerVersion.version).getD 0

def pruneOldVersions (k : ProjectKey) (keep : Nat) (t : Versions) : Versions :=
  let old := ((newestFirst (ofProject k t.rows)).drop keep).map DockerVersion.id
  ⟨t.rows.filter fun v => !old.contains v.id, t.nodup.sublist (List.filter_sublist.map _)⟩

/-- The draft of the project that is edited, if it is one. -/
def editable (k : ProjectKey) (editing : Option Nat) (t : Versions) : Option DockerVersion :=
  (editing.bind fun id => if id = 0 then none else Table.lookup DockerVersion.id id t.rows).filter fun v => v.key == k && v.isDraft

def newVersion (k : ProjectKey) (files : Dict Str Str) (t : Versions) : DockerVersion where
  id := freshId (t.rows.map DockerVersion.id)
  serverId := k.1
  projectName := k.2
  version := maxVersion k t + 1
  files := files

@[simp] theorem newVersion_key (k : ProjectKey) (files : Dict Str Str) (t : Versions) : (newVersion k files t).key = k := rfl

theorem newVersion_fresh (k : ProjectKey) (files : Dict Str Str) (t : Versions) :
    (newVersion k files t).id ∉ t.rows.map DockerVersion.id := freshId_not_mem _

/-- A new version, and the old ones that stay. -/
def addVersion (k : ProjectKey) (files : Dict Str Str) (t : Versions) : Versions :=
  pruneOldVersions k 10 (t.insert (newVersion k files t) (newVersion_fresh k files t))

/-- The row that was written, and the rows. -/
def saveDraftVersion (k : ProjectKey) (files : Dict Str Str) (editing : Option Nat) (t : Versions) : Nat × Versions :=
  match editable k editing t with
  | some v => (v.id, t.modify v.id (fun v => { v with files := files }) fun _ => rfl)
  | none => ((newVersion k files t).id, addVersion k files t)

def markDeployed (now : Int) (id : Nat) (t : Versions) : Versions :=
  t.modify id (fun v => { v with isDraft := false, deployedAt := some now }) fun _ => rfl

def deployVersion (serverId versionId : Nat) (written : Bool) (now : Int) (t : Versions) : Bool × Versions :=
  match Table.lookup DockerVersion.id versionId t.rows with
  | none => (false, t)
  | some v =>
    if v.serverId ≠ serverId ∨ v.files = [] then (false, t)
    else if written then (true, markDeployed now versionId t) else (false, t)

/-! ## Runs -/

inductive VersionCall
  | saveDraft (k : ProjectKey) (files : Dict Str Str) (editing : Option Nat)
  | save (k : ProjectKey) (files : Dict Str Str) (editing : Option Nat) (written : Bool) (now : Int)
  | deploy (serverId versionId : Nat) (written : Bool) (now : Int)

def VersionCall.run (t : Versions) : VersionCall → Versions
  | .saveDraft k files editing => (saveDraftVersion k files editing t).2
  | .save k files editing written now =>
    if written then
      let saved := saveDraftVersion k files editing t
      markDeployed now saved.1 saved.2
    else t
  | .deploy serverId versionId written now => (deployVersion serverId versionId written now t).2

def noVersions : Versions := ⟨[], List.nodup_nil⟩

/-! ## What one call does -/

/-- The numbers of a project: up to `m`, the last ten. -/
def Numbered (k : ProjectKey) (t : Versions) (m : Nat) : Prop :=
  (ofProject k t.rows).map DockerVersion.version = (List.range' 1 m).drop (m - 10)

/-- A version later on: one that was deployed keeps its files. -/
def Stays (v v' : DockerVersion) : Prop :=
  v'.id = v.id ∧ v'.key = v.key ∧ v'.version = v.version ∧ (v.isDraft = false → v'.isDraft = false ∧ v'.files = v.files)

theorem Stays.refl (v : DockerVersion) : Stays v v := ⟨rfl, rfl, rfl, fun h => ⟨h, rfl⟩⟩

theorem Stays.trans {v v' v'' : DockerVersion} (h : Stays v v') (h' : Stays v' v'') : Stays v v'' := by
  obtain ⟨hid, hkey, hversion, hlive⟩ := h
  obtain ⟨hid', hkey', hversion', hlive'⟩ := h'
  refine ⟨hid'.trans hid, hkey'.trans hkey, hversion'.trans hversion, fun hv => ?_⟩
  obtain ⟨hdraft, hfiles⟩ := hlive hv
  exact ⟨(hlive' hdraft).1, (hlive' hdraft).2.trans hfiles⟩

section Lists
variable {l : List DockerVersion}

/-- Where the numbers go up, the newest come first when the list is read backwards. -/
theorem newestFirst_eq_reverse (h : (l.map DockerVersion.version).Pairwise (· < ·)) : newestFirst l = l.reverse := by
  have hnodup : (l.map DockerVersion.version).Nodup := h.imp fun hlt => Nat.ne_of_lt hlt
  have hsorted : (newestFirst l).Pairwise fun a b => b.version ≤ a.version := by
    have hpairs := @List.pairwise_mergeSort _ (fun a b : DockerVersion => decide (b.version ≤ a.version))
      (fun a b c hab hbc => by simp only [decide_eq_true_eq] at *; omega)
      (fun a b => by simp only [Bool.or_eq_true, decide_eq_true_eq]; omega) l
    simpa [newestFirst] using hpairs
  have hreverse : l.reverse.Pairwise fun a b => b.version ≤ a.version := by
    rw [List.pairwise_reverse]
    exact (List.pairwise_map.1 h).imp fun hlt => Nat.le_of_lt hlt
  refine List.Perm.eq_of_pairwise (fun a b ha hb hab hba => ?_) hsorted hreverse ((List.mergeSort_perm _ _).trans l.reverse_perm.symm)
  have ha : a ∈ l := by simpa [newestFirst] using ha
  have hb : b ∈ l := by simpa using hb
  exact List.inj_on_of_nodup_map hnodup ha hb (Nat.le_antisymm hba hab)

/-- What is left where the rows of a prefix are taken out. -/
theorem filter_take (h : (l.map DockerVersion.id).Nodup) (n : Nat) :
    l.filter (fun v => !((l.take n).map DockerVersion.id).contains v.id) = l.drop n := by
  have hsplit : (l.take n).map DockerVersion.id ++ (l.drop n).map DockerVersion.id = l.map DockerVersion.id := by
    rw [← List.map_append, List.take_append_drop]
  rw [← hsplit, List.nodup_append] at h
  generalize hids : (l.take n).map DockerVersion.id = ids at h
  conv_lhs => rw [← List.take_append_drop n l]
  rw [List.filter_append]
  have hgone : (l.take n).filter (fun v => !ids.contains v.id) = [] := by
    rw [List.filter_eq_nil_iff]
    intro v hv
    have hin : v.id ∈ ids := hids ▸ List.mem_map_of_mem hv
    simp [hin]
  have hleft : (l.drop n).filter (fun v => !ids.contains v.id) = l.drop n := by
    rw [List.filter_eq_self]
    intro v hv
    simpa using fun hmem => h.2.2 v.id hmem v.id (List.mem_map_of_mem hv) rfl
  rw [hgone, hleft, List.nil_append]

end Lists

section Steps
variable {k : ProjectKey} {t : Versions} {m : Nat}

theorem pairwise_numbers (m : Nat) : ((List.range' 1 m).drop (m - 10)).Pairwise (· < ·) :=
  (List.pairwise_lt_range' (s := 1) (n := m)).sublist (List.drop_sublist _ _)

theorem Numbered.pairwise (h : Numbered k t m) : ((ofProject k t.rows).map DockerVersion.version).Pairwise (· < ·) := by
  rw [h]
  exact pairwise_numbers m

/-- The largest number is the last one. -/
theorem Numbered.max (h : Numbered k t m) : maxVersion k t = m := by
  have hlast : (newestFirst (ofProject k t.rows)).head?.map DockerVersion.version = ((ofProject k t.rows).map DockerVersion.version).getLast? := by
    rw [newestFirst_eq_reverse h.pairwise, List.head?_reverse, List.getLast?_map]
  rw [maxVersion, hlast, h]
  cases m with
  | zero => rfl
  | succ n =>
    rw [List.getLast?_drop, if_neg (by simp only [List.length_range']; omega), List.getLast?_range', if_neg (by omega)]
    simp

/-- Rows of a project after a prune: the last `keep`. -/
theorem ofProject_prune (hpairs : ((ofProject k t.rows).map DockerVersion.version).Pairwise (· < ·)) (keep : Nat) (k' : ProjectKey) :
    ofProject k' (pruneOldVersions k keep t).rows =
      if k' = k then (ofProject k t.rows).drop ((ofProject k t.rows).length - keep) else ofProject k' t.rows := by
  have hold : ∀ i, i ∈ ((newestFirst (ofProject k t.rows)).drop keep).map DockerVersion.id ↔
      i ∈ ((ofProject k t.rows).take ((ofProject k t.rows).length - keep)).map DockerVersion.id := by
    intro i
    rw [newestFirst_eq_reverse hpairs, List.drop_reverse, List.map_reverse, List.mem_reverse]
  have hfilter : ofProject k' (pruneOldVersions k keep t).rows = (ofProject k' t.rows).filter fun v =>
      !(((ofProject k t.rows).take ((ofProject k t.rows).length - keep)).map DockerVersion.id).contains v.id := by
    unfold pruneOldVersions ofProject
    rw [List.filter_comm]
    refine List.filter_congr fun v _ => ?_
    congr 1
    rw [Bool.eq_iff_iff, List.contains_iff_mem, List.contains_iff_mem]
    exact hold v.id
  rw [hfilter]
  have hnodup : ∀ k, ((ofProject k t.rows).map DockerVersion.id).Nodup := fun k => t.nodup.sublist (List.filter_sublist.map _)
  split
  · rename_i hk
    rw [hk]
    exact filter_take (hnodup k) _
  · rename_i hk
    rw [List.filter_eq_self]
    intro v hv
    simp only [Bool.not_eq_true', List.contains_eq_mem, decide_eq_false_iff_not]
    intro hmem
    obtain ⟨w, hw, hid⟩ := List.mem_map.1 hmem
    obtain ⟨hv, hvk⟩ := List.mem_filter.1 hv
    obtain ⟨hw, hwk⟩ := List.mem_filter.1 (List.mem_of_mem_take hw)
    obtain rfl := t.eq_of_key hw hv hid
    exact hk ((beq_iff_eq.1 hvk).symm.trans (beq_iff_eq.1 hwk))

/-- A write of one row that leaves its number alone. -/
theorem Numbered.modify (h : Numbered k t m) {id : Nat} {f : DockerVersion → DockerVersion} (hf : ∀ v, (f v).id = v.id)
    (hkey : ∀ v, (f v).key = v.key ∧ (f v).version = v.version) : Numbered k (t.modify id f hf) m := by
  have hrows : (ofProject k (t.modify id f hf).rows).map DockerVersion.version = (ofProject k t.rows).map DockerVersion.version := by
    simp only [ofProject, Keyed.modify, Keyed.map_rows, List.filter_map, List.map_map]
    have hsame : (fun v : DockerVersion => v.key == k) ∘ (fun v => if v.id = id then f v else v) = fun v => v.key == k := by
      funext v
      simp only [Function.comp]
      split <;> simp [hkey]
    rw [hsame]
    refine List.map_congr_left fun v _ => ?_
    simp only [Function.comp]
    split <;> simp [hkey]
  rw [Numbered, hrows]
  exact h

theorem ofProject_insert (k' : ProjectKey) (v : DockerVersion) (h : v.id ∉ t.rows.map DockerVersion.id) :
    ofProject k' (t.insert v h).rows = ofProject k' t.rows ++ if v.key = k' then [v] else [] := by
  rw [Keyed.insert_rows, ofProject, List.filter_append]
  by_cases hv : v.key = k' <;> simp [ofProject, hv]

/-- The numbers before the prune. -/
theorem Numbered.inserted (h : Numbered k t m) (files : Dict Str Str) :
    (ofProject k (t.insert (newVersion k files t) (newVersion_fresh k files t)).rows).map DockerVersion.version = (List.range' 1 (m + 1)).drop (m - 10) := by
  have hversion : (newVersion k files t).version = m + 1 := by rw [newVersion, h.max]
  rw [ofProject_insert, newVersion_key, if_pos rfl, List.map_append, h, List.map_singleton, hversion, List.range'_concat,
    List.drop_append_of_le_length (by simp)]
  congr 2
  omega

theorem Numbered.inserted_pairwise (h : Numbered k t m) (files : Dict Str Str) :
    ((ofProject k (t.insert (newVersion k files t) (newVersion_fresh k files t)).rows).map DockerVersion.version).Pairwise (· < ·) := by
  rw [h.inserted]
  exact (List.pairwise_lt_range' (s := 1) (n := m + 1)).sublist (List.drop_sublist _ _)

/-- A new version goes on with the numbers, and the eleventh pushes the first out. -/
theorem Numbered.add (h : Numbered k t m) (files : Dict Str Str) : Numbered k (addVersion k files t) (m + 1) := by
  have hlength := congrArg List.length (h.inserted files)
  simp only [List.length_map, List.length_drop, List.length_range'] at hlength
  rw [Numbered, addVersion, ofProject_prune (h.inserted_pairwise files), if_pos rfl, List.map_drop, h.inserted, List.drop_drop, hlength]
  congr 1
  omega

/-- The other projects' numbers stay. -/
theorem Numbered.add_other (h : Numbered k t m) {k' : ProjectKey} (hne : k' ≠ k) {m' : Nat} (h' : Numbered k' t m') (files : Dict Str Str) :
    Numbered k' (addVersion k files t) m' := by
  rw [Numbered, addVersion, ofProject_prune (h.inserted_pairwise files), if_neg hne, ofProject_insert, newVersion_key, if_neg (Ne.symm hne),
    List.append_nil]
  exact h'

/-- Every project's numbers are in order. -/
def VersionsOrdered (t : Versions) : Prop := ∀ k, ∃ m, Numbered k t m

theorem VersionsOrdered.numbered {t : Versions} (h : VersionsOrdered t) (k : ProjectKey) : Numbered k t (maxVersion k t) := by
  obtain ⟨m, hm⟩ := h k
  rwa [hm.max]

/-- What a call does: the numbers go on, and a row stays until ten newer ones push it out. -/
structure Goes (t t' : Versions) : Prop where
  ordered : VersionsOrdered t'
  grows : ∀ k, maxVersion k t ≤ maxVersion k t'
  stays : ∀ v ∈ t.rows, v.version + 10 ≤ maxVersion v.key t' ∨ ∃ v' ∈ t'.rows, Stays v v'

theorem Goes.refl (h : VersionsOrdered t) : Goes t t := ⟨h, fun _ => le_rfl, fun v hv => .inr ⟨v, hv, .refl v⟩⟩

theorem Goes.trans {t t' t'' : Versions} (h : Goes t t') (h' : Goes t' t'') : Goes t t'' := by
  refine ⟨h'.ordered, fun k => (h.grows k).trans (h'.grows k), fun v hv => ?_⟩
  rcases h.stays v hv with hold | ⟨v', hv', hstays⟩
  · exact .inl (hold.trans (h'.grows v.key))
  · have hkey := hstays.2.1
    rcases h'.stays v' hv' with hold | ⟨v'', hv'', hstays'⟩
    · rw [hkey, hstays.2.2.1] at hold
      exact .inl hold
    · exact .inr ⟨v'', hv'', hstays.trans hstays'⟩

/-- A write of one row. -/
theorem VersionsOrdered.modify (h : VersionsOrdered t) {id : Nat} {f : DockerVersion → DockerVersion} (hf : ∀ v, (f v).id = v.id)
    (hstays : ∀ v ∈ t.rows, v.id = id → Stays v (f v)) (hkey : ∀ v, (f v).key = v.key ∧ (f v).version = v.version) : Goes t (t.modify id f hf) := by
  have hnumbered (k : ProjectKey) := @Numbered.modify k t _ (h.numbered k) id f hf hkey
  refine ⟨fun k => ⟨_, hnumbered k⟩, fun k => (hnumbered k).max.ge, fun v hv => .inr ⟨_, List.mem_map_of_mem hv, ?_⟩⟩
  split
  · rename_i hid
    exact hstays v hv hid
  · exact .refl v

/-- A row that a new version pushed out is ten versions old. -/
theorem Numbered.pushed_out (h : Numbered k t m) (files : Dict Str Str) {v : DockerVersion} (hv : v ∈ t.rows)
    (hout : v ∉ (addVersion k files t).rows) : v.key = k ∧ v.version + 10 ≤ m + 1 := by
  have hprune := ofProject_prune (h.inserted_pairwise files) 10 v.key
  have hinserted : v ∈ ofProject v.key (t.insert (newVersion k files t) (newVersion_fresh k files t)).rows := by simp [ofProject, hv]
  have hpruned : v ∉ ofProject v.key (addVersion k files t).rows := fun hin => hout (List.mem_of_mem_filter hin)
  rw [addVersion, hprune] at hpruned
  by_cases hkey : v.key = k
  · refine ⟨hkey, ?_⟩
    rw [if_pos hkey] at hpruned
    rw [hkey] at hinserted
    have hversions := h.inserted files
    generalize hl : ofProject k (t.insert (newVersion k files t) (newVersion_fresh k files t)).rows = l at *
    -- it stands before the last ten
    obtain ⟨i, hi, rfl⟩ := List.mem_iff_getElem.1 hinserted
    have hfirst : i < l.length - 10 := by
      by_contra hge
      refine hpruned (List.mem_iff_getElem.2 ⟨i - (l.length - 10), ?_, ?_⟩)
      · simp only [List.length_drop]
        omega
      · simp only [List.getElem_drop]
        congr 1
        omega
    have hlength := congrArg List.length hversions
    simp only [List.length_map, List.length_drop, List.length_range'] at hlength
    have hversion := congrArg (fun numbers : List Nat => numbers[i]?) hversions
    simp only [List.getElem?_map, List.getElem?_eq_getElem hi, List.getElem?_drop, Option.map_some] at hversion
    rw [List.getElem?_range' (by omega)] at hversion
    have hnumber := Option.some.inj hversion
    omega
  · rw [if_neg hkey] at hpruned
    exact absurd hinserted hpruned

/-- A new version. -/
theorem VersionsOrdered.add (h : VersionsOrdered t) (k : ProjectKey) (files : Dict Str Str) : Goes t (addVersion k files t) := by
  have hown := (h.numbered k).add files
  have hother (k' : ProjectKey) (hne : k' ≠ k) := (h.numbered k).add_other hne (h.numbered k') files
  refine ⟨fun k' => ?_, fun k' => ?_, fun v hv => ?_⟩
  · by_cases hk : k' = k
    · subst hk
      exact ⟨_, hown⟩
    · exact ⟨_, hother k' hk⟩
  · by_cases hk : k' = k
    · rw [hk, hown.max]
      omega
    · rw [(hother k' hk).max]
  · by_cases hin : v ∈ (addVersion k files t).rows
    · exact .inr ⟨v, hin, .refl v⟩
    · obtain ⟨hkey, hold⟩ := (h.numbered k).pushed_out files hv hin
      rw [hkey, hown.max]
      exact .inl hold

theorem editable_spec {editing : Option Nat} {v : DockerVersion} (h : editable k editing t = some v) : v ∈ t.rows ∧ v.isDraft = true := by
  rw [editable, Option.filter_eq_some_iff, Option.bind_eq_some_iff] at h
  obtain ⟨⟨id, -, hlookup⟩, hdraft⟩ := h
  split at hlookup
  · simp at hlookup
  · simp only [Bool.and_eq_true] at hdraft
    exact ⟨Table.lookup_mem hlookup, hdraft.2⟩

/-- The edits of a draft go to the draft, all others to a new version. -/
theorem VersionsOrdered.saveDraft (h : VersionsOrdered t) (k : ProjectKey) (files : Dict Str Str) (editing : Option Nat) :
    Goes t (saveDraftVersion k files editing t).2 := by
  unfold saveDraftVersion
  cases hediting : editable k editing t with
  | none => exact h.add k files
  | some draft =>
    obtain ⟨hmem, hdraft⟩ := editable_spec hediting
    refine h.modify (f := fun v => { v with files := files }) (fun _ => rfl) (fun v hv hid => ⟨rfl, rfl, rfl, fun hlive => ?_⟩) fun _ => ⟨rfl, rfl⟩
    obtain rfl := t.eq_of_key hv hmem hid
    rw [hdraft] at hlive
    simp at hlive

theorem VersionsOrdered.deployed (h : VersionsOrdered t) (now : Int) (id : Nat) : Goes t (markDeployed now id t) :=
  h.modify (f := fun v => { v with isDraft := false, deployedAt := some now }) (fun _ => rfl)
    (fun _ _ _ => ⟨rfl, rfl, rfl, fun _ => ⟨rfl, rfl⟩⟩) fun _ => ⟨rfl, rfl⟩

theorem VersionsOrdered.deploy (h : VersionsOrdered t) (serverId versionId : Nat) (written : Bool) (now : Int) :
    Goes t (deployVersion serverId versionId written now t).2 := by
  unfold deployVersion
  cases Table.lookup DockerVersion.id versionId t.rows with
  | none => exact .refl h
  | some v =>
    simp only
    split
    · exact .refl h
    · split
      · exact h.deployed now versionId
      · exact .refl h

theorem VersionsOrdered.step (h : VersionsOrdered t) (call : VersionCall) : Goes t (call.run t) := by
  cases call with
  | saveDraft k files editing => exact h.saveDraft k files editing
  | save k files editing written now =>
    simp only [VersionCall.run]
    split
    · have hsaved := h.saveDraft k files editing
      exact hsaved.trans (hsaved.ordered.deployed now _)
    · exact .refl h
  | deploy serverId versionId written now => exact h.deploy serverId versionId written now

end Steps

/-! ## Runs of calls -/

theorem versionsOrdered_noVersions : VersionsOrdered noVersions := fun _ => ⟨0, rfl⟩

theorem VersionsOrdered.runs {t : Versions} (h : VersionsOrdered t) (calls : List VersionCall) : Goes t (runs VersionCall.run t calls) := by
  induction calls generalizing t with
  | nil => exact .refl h
  | cons call calls ih => exact (h.step call).trans (ih (h.step call).ordered)

/-- **The last ten versions stay.** Whatever is saved and deployed, a project's versions are numbered from 1 without a gap, the
page shows all that are left, and a version goes on, with its files once it was deployed, until ten newer ones were saved. -/
theorem versions_kept (calls : List VersionCall) :
    (∀ k, (ofProject k (runs VersionCall.run noVersions calls).rows).map DockerVersion.version =
        (List.range' 1 (maxVersion k (runs VersionCall.run noVersions calls))).drop (maxVersion k (runs VersionCall.run noVersions calls) - 10) ∧
      getVersions k 10 (runs VersionCall.run noVersions calls) = (ofProject k (runs VersionCall.run noVersions calls).rows).reverse) ∧
    ∀ pre post, calls = pre ++ post → ∀ v ∈ (runs VersionCall.run noVersions pre).rows,
      v.version + 10 ≤ maxVersion v.key (runs VersionCall.run noVersions calls) ∨
        ∃ v' ∈ (runs VersionCall.run noVersions calls).rows, Stays v v' := by
  have hall := (versionsOrdered_noVersions.runs calls).ordered
  refine ⟨fun k => ⟨hall.numbered k, ?_⟩, fun pre post hsplit v hv => ?_⟩
  · have hnumbered := hall.numbered k
    have hlength := congrArg List.length hnumbered
    simp only [List.length_map, List.length_drop, List.length_range'] at hlength
    rw [getVersions, newestFirst_eq_reverse hnumbered.pairwise, List.take_of_length_le]
    rw [List.length_reverse]
    omega
  · rw [hsplit, runs_append]
    exact ((versionsOrdered_noVersions.runs pre).ordered.runs post).stays v hv

end PiHerder.Docker
