import PiHerder.Backup.RoundTrip

/-!
# A manifest on a copy of its tree

`backup_ownership.py` by itself: a tree is listed, here or by `find`, the rows are written and loaded again, and
`apply_manifest_tree` puts them on a copy. Every row passes through `safe_rel`, which reads a backslash as a slash.
-/
namespace PiHerder.Backup
open Lib Lib.Str Lib.FileTree

variable {β : Type}

/-- `collect_local_tree`, or `parse_find_output` of what `find` prints. -/
def Collected (T : SourceTree β) (listing : Listing) : Prop := listing = .here ∨ listing = .asked (some (findOutput T))

/-- At `d` stands a copy of the tree, and `root` is a path to it. -/
structure CopyOf (T : SourceTree β) (shape : Shape) (root d : List Name) : Prop where
  names : Names shape maxLinks [] root d
  same : ∀ q, shape (d ++ q) = (T.node q).map Node.kind

/-- What was recorded is on the copy, each row on its own place. -/
structure GivenBack (py : Python) (T : SourceTree β) (recorded : List (List Name)) (shape : Shape) (d : List Name) (before after : Attrs) : Prop where
  owner : ∀ q ∈ recorded, (after (d ++ q)).uid = (T.attr q).uid ∧ (after (d ++ q)).gid = (T.attr q).gid
  mode : ∀ q ∈ recorded, (∀ dest, T.node q ≠ some (.link dest)) → (after (d ++ q)).mode = (T.attr q).mode &&& 0o1777
  own : ∀ q ∈ recorded, ∀ e p, rowOf py T q = some e → target shape d e.path = some p → p = d ++ q
  others : ∀ p, (∀ q ∈ recorded, p ≠ d ++ q) → after p = before p

/-- **The round trip**: collected, written, loaded, applied to any copy. -/
def RoundTrips (py : Python) (text : ManifestText β) (T : SourceTree β) (listing : Listing) : Prop :=
  ∃ entries loaded, listing.collect py T = .ok entries ∧ text.loads (text.dumps entries) = .ok loaded ∧
    ∀ shape root d before, CopyOf T shape root d →
      ∃ r, applyManifestTree py shape root ⟨before, 0, 0, []⟩ loaded = .ok r ∧ GivenBack py T (listing.lists T) shape d before r.attrs

section
variable {py : Python} {T : SourceTree β} {listing : Listing} {shape : Shape} {root d p q : List Name}

theorem Collected.of (h : Collected T listing) : listing.Of T := by
  rcases h with rfl | rfl
  · trivial
  · rfl

theorem lists_subset (T : SourceTree β) (listing : Listing) : ∀ q ∈ listing.lists T, q ∈ T.places := by
  intro q hq
  cases listing with
  | here => exact hq
  | asked answer => exact (List.mem_filter.1 hq).1

/-- Collecting gives entries that can all be read. -/
theorem collect_reads (h : Collected T listing) (py : Python) :
    ∃ entries, listing.collect py T = .ok entries ∧ ∀ raw ∈ entries, ∃ row, readEntry py raw = .ok row := by
  rcases h with rfl | rfl
  · refine ⟨_, rfl, fun raw hraw => ?_⟩
    obtain ⟨q, hq, hentry⟩ := List.mem_filterMap.1 hraw
    obtain ⟨huid, hgid, hm⟩ := T.owned q hq
    split at hentry
    · cases hentry
    · obtain rfl := Option.some.inj hentry
      exact ⟨_, readEntry_entry huid hgid hm⟩
  · refine ⟨_, parseFindOutput_eq, fun raw hraw => ?_⟩
    obtain ⟨q, hq, hentry⟩ := List.mem_filterMap.1 hraw
    obtain ⟨huid, hgid, hm⟩ := T.owned q (List.mem_filter.1 hq).1
    obtain ⟨rel, -, rfl⟩ := Option.map_eq_some_iff.1 hentry
    exact ⟨_, readEntry_entry huid hgid hm⟩

theorem render_of_reads {entries : List JsonValue} (h : ∀ raw ∈ entries, ∃ row, readEntry py raw = .ok row) :
    ∃ lines, renderApplyScript py entries = .ok lines := by
  induction entries with
  | nil => exact ⟨[], rfl⟩
  | cons raw entries ih =>
    obtain ⟨row, hrow⟩ := h raw List.mem_cons_self
    obtain ⟨lines, hlines⟩ := ih fun x hx => h x (List.mem_cons_of_mem raw hx)
    refine ⟨(row.map callLine).toList ++ lines, ?_⟩
    rw [renderApplyScript, hrow, hlines]
    rfl

/-- **What the round trip applies**: the row of each listed place, in their order. -/
theorem applied_rows (h : Collected T listing) (hnames : Names shape maxLinks [] root d) (before : Attrs) {entries : List JsonValue}
    (hcollect : listing.collect py T = .ok entries) :
    ∃ r, applyManifestTree py shape root ⟨before, 0, 0, []⟩ entries = .ok r ∧
      r.attrs = ((listing.lists T).filterMap (rowOf py T)).foldl (writeLocal shape d) before := by
  obtain ⟨entries', hcollect', hreads⟩ := collect_reads h py
  obtain rfl := Except.ok.inj (hcollect.symm.trans hcollect')
  obtain ⟨lines, hlines⟩ := render_of_reads hreads
  obtain ⟨r, hr, -, hattrs⟩ := apply_of_render hnames (r := ⟨before, 0, 0, []⟩) hlines
  exact ⟨r, hr, by rw [hattrs, collect_rows h.of hcollect]⟩

/-! ## Rows of plain places -/

def ownRow (T : SourceTree β) (q : List Name) : Row := ⟨relText q, (T.attr q).uid, (T.attr q).gid, octal ((T.attr q).mode &&& 0o1777)⟩

/-- What a place is to have. -/
def ownAttr (T : SourceTree β) (shape : Shape) (d q : List Name) (old : Attr) : Attr :=
  ⟨(T.attr q).uid, (T.attr q).gid, if IsLink shape (d ++ q) then old.mode else (T.attr q).mode &&& 0o1777⟩

theorem target_ownRow (hsame : ∀ q, shape (d ++ q) = (T.node q).map Node.kind) (hq : q ∈ T.places) :
    target shape d (ownRow T q).path = some (d ++ q) := by
  have htarget : FileTree.target shape (d ++ []) q = some (d ++ [] ++ q) := T.target_of_same (fun a _ _ => hsame a) ((T.mem_places q).1 hq)
  rw [T.path_eq hq rfl]
  simpa using htarget

theorem writeLocal_ownRow (hsame : ∀ q, shape (d ++ q) = (T.node q).map Node.kind) (hq : q ∈ T.places) (a : Attrs) :
    writeLocal shape d a (ownRow T q) = Function.update a (d ++ q) (ownAttr T shape d q (a (d ++ q))) := by
  obtain ⟨huid, hgid, -⟩ := T.owned q hq
  have hmode : ofOctal (octal ((T.attr q).mode &&& 0o1777)) = (T.attr q).mode &&& 0o1777 :=
    ofOctal_octal (Nat.and_le_right.trans (by decide))
  unfold writeLocal
  rw [target_ownRow hsame hq]
  simp only [localPut_eq, ownRow]
  rw [if_neg (Nat.ne_of_lt huid), if_neg (Nat.ne_of_lt hgid), hmode]
  rfl

/-- **After all the rows** each of their places has its own, and the others are as before. -/
theorem foldl_ownRows (hsame : ∀ q, shape (d ++ q) = (T.node q).map Node.kind) : ∀ {qs : List (List Name)} {a : Attrs}, (∀ q ∈ qs, q ∈ T.places) →
    (∀ q ∈ qs, (qs.map (ownRow T)).foldl (writeLocal shape d) a (d ++ q) = ownAttr T shape d q (a (d ++ q))) ∧
      ∀ p, (∀ q ∈ qs, p ≠ d ++ q) → (qs.map (ownRow T)).foldl (writeLocal shape d) a p = a p
  | [], a, _ => ⟨fun q hq => absurd hq List.not_mem_nil, fun p _ => rfl⟩
  | x :: qs, a, h => by
    obtain ⟨hin, hout⟩ := @foldl_ownRows hsame qs (writeLocal shape d a (ownRow T x)) fun q hq => h q (List.mem_cons_of_mem x hq)
    have hx := writeLocal_ownRow hsame (h x List.mem_cons_self) a
    rw [List.map_cons, List.foldl_cons]
    refine ⟨fun q hq => ?_, fun p hp => ?_⟩
    · by_cases hrest : q ∈ qs
      · rw [hin q hrest, hx]
        by_cases heq : d ++ q = d ++ x
        · -- listed twice: the second write finds what the first left
          obtain rfl := List.append_cancel_left heq
          rw [Function.update_self]
          unfold ownAttr
          split <;> rfl
        · rw [Function.update_of_ne heq]
      · obtain rfl := (List.mem_cons.1 hq).resolve_right hrest
        rw [hout _ fun y hy heq => hrest (by rwa [List.append_cancel_left heq]), hx, Function.update_self]
    · rw [hout p fun q hq => hp q (List.mem_cons_of_mem x hq), hx, Function.update_of_ne (hp x List.mem_cons_self)]

/-! ## Rows of other places -/

/-- No row is written to a place with a backslash in its path. -/
theorem target_backslash {e : Row} (hd : shape d = some .dir) (he : rowOf py T p = some e) (hvalid : e.Valid)
    (hback : '\\' ∈ relText q) : target shape d e.path ≠ some (d ++ q) := by
  intro ht
  have hpath : e.path = q := by
    rcases target_eq_some hd hvalid.entries ht with ⟨hnil, heq⟩ | ⟨init, c, hinit, -, -, heq, -⟩
    · rw [hnil]
      exact (List.append_right_eq_self.1 heq).symm
    · rw [hinit]
      exact (List.append_cancel_left (heq.trans (List.append_assoc d init [c]))).symm
  obtain ⟨rel, hrel, rfl⟩ := Option.map_eq_some_iff.1 he
  have hrelText : rel = relText q := by
    rw [← hpath, Row.path]
    by_cases hnil : rel = []
    · rw [if_pos hnil, hnil]
      rfl
    · rw [if_neg hnil]
      exact (join_split '/' rel).symm
  rcases safeRel_eq_some hrel with hslashed | ⟨-, hnil⟩
  · rw [← hrelText, hslashed] at hback
    exact backslash_notMem_slashed _ hback
  · rw [← hrelText, hnil] at hback
    cases hback

theorem foldl_untouched {rows : List Row} (h : ∀ e ∈ rows, target shape d e.path ≠ some p) : ∀ a : Attrs, rows.foldl (writeLocal shape d) a p = a p := by
  induction rows with
  | nil => exact fun _ => rfl
  | cons e rows ih =>
    intro a
    have he := h e List.mem_cons_self
    rw [List.foldl_cons, ih fun x hx => h x (List.mem_cons_of_mem e hx)]
    unfold writeLocal
    cases ht : target shape d e.path with
    | none => rfl
    | some x =>
      simp only [localPut_eq]
      exact Function.update_of_ne (fun heq => he (by rw [ht, heq])) _ _

/-- A tree is a copy of itself. -/
theorem copyOf_self (T : SourceTree β) : CopyOf T (Files.shape T.node) [] [] := by
  have hroot : Files.shape T.node [] = some .dir := shape_dir T.root
  have hfollow : follow (Files.shape T.node) maxLinks [] [] = some (maxLinks, []) := by
    have h := @follow_through (Files.shape T.node) maxLinks [] [] hroot
    rwa [List.nil_append] at h
  refine ⟨⟨⟨maxLinks, hfollow⟩, hroot, ?_⟩, fun q => rfl⟩
  unfold lplace
  rw [List.getLast?_nil, hfollow]
  rfl

/-- A place with a backslash in its path keeps the owner it has on the copy. -/
theorem not_roundTrips (text : ManifestText β) (hcollected : Collected T listing) (hq : q ∈ listing.lists T) (hback : '\\' ∈ relText q) :
    ¬ RoundTrips py text T listing := by
  rintro ⟨entries, loaded, hcollect, hloaded, hall⟩
  obtain rfl := Except.ok.inj ((text.loads_dumps entries).symm.trans hloaded)
  have hcopy := copyOf_self T
  obtain ⟨r, hr, hgiven⟩ := hall _ _ _ (fun _ => ⟨(T.attr q).uid + 1, 0, 0⟩) hcopy
  obtain ⟨r', hr', hattrs⟩ := applied_rows hcollected hcopy.names (fun _ => ⟨(T.attr q).uid + 1, 0, 0⟩) hcollect
  obtain rfl := Except.ok.inj (hr.symm.trans hr')
  have huntouched := @foldl_untouched (Files.shape T.node) [] ([] ++ q) ((listing.lists T).filterMap (rowOf py T)) ?_ fun _ => ⟨(T.attr q).uid + 1, 0, 0⟩
  · have howner := (hgiven.owner q hq).1
    rw [hattrs, huntouched] at howner
    exact Nat.succ_ne_self _ howner
  · intro e he
    obtain ⟨x, -, hx⟩ := List.mem_filterMap.1 he
    have hmem : e ∈ rowsOf py entries := by
      rw [collect_rows hcollected.of hcollect]
      exact he
    have hvalid : e.Valid := rowsOf_valid hmem
    exact target_backslash hcopy.names.isDir hx hvalid hback

/-- **The manifest makes the round trip** iff no listed path has a backslash. -/
theorem manifest_roundTrips_iff (py : Python) (text : ManifestText β) (hcollected : Collected T listing) (hnewline : ∀ q ∈ T.places, '\n' ∉ relText q) :
    RoundTrips py text T listing ↔ ∀ q ∈ listing.lists T, '\\' ∉ relText q := by
  have hplaces := lists_subset T listing
  obtain ⟨entries, hcollect, -⟩ := collect_reads hcollected py
  constructor
  · exact fun h q hq hback => not_roundTrips text hcollected hq hback h
  · intro hplain
    have hrow : ∀ q ∈ listing.lists T, rowOf py T q = some (ownRow T q) := fun q hq =>
      T.row_eq (hplaces q hq) (hplain q hq) (hnewline q (hplaces q hq))
    refine ⟨entries, entries, hcollect, text.loads_dumps entries, fun shape root d before hcopy => ?_⟩
    obtain ⟨r, hr, hattrs⟩ := applied_rows hcollected hcopy.names before hcollect
    have hrows : (listing.lists T).filterMap (rowOf py T) = (listing.lists T).map (ownRow T) := by
      rw [← List.filterMap_eq_map]
      exact List.filterMap_congr hrow
    rw [hrows] at hattrs
    obtain ⟨hin, hout⟩ := @foldl_ownRows _ T shape d hcopy.same (listing.lists T) before hplaces
    refine ⟨r, hr, ?_, ?_, ?_, ?_⟩
    · intro q hq
      rw [hattrs, hin q hq]
      exact ⟨rfl, rfl⟩
    · intro q hq hlink
      rw [hattrs, hin q hq]
      refine if_neg ?_
      rintro ⟨dest, hk⟩
      rw [hcopy.same q] at hk
      obtain ⟨node, hnode, hkind⟩ := Option.map_eq_some_iff.1 hk
      cases node with
      | link dest' => exact hlink dest' hnode
      | dir => cases hkind
      | file content => cases hkind
      | special => cases hkind
    · intro q hq e p he ht
      obtain rfl := Option.some.inj ((hrow q hq).symm.trans he)
      rw [target_ownRow hcopy.same (hplaces q hq)] at ht
      exact (Option.some.inj ht).symm
    · intro p hp
      rw [hattrs, hout p hp]

end

/-- A file and a link to it, listed here. -/
theorem fileAndLink_roundTrips : RoundTrips plainPython plainMachines.text fileAndLink .here :=
  (manifest_roundTrips_iff plainPython plainMachines.text (Or.inl rfl) (by decide)).2 (by decide)

/-- Two files, `x/y` and the one that is named `x\y`. -/
def slashAndBackslash : SourceTree (List JsonValue) :=
  .ofTable [([], .dir, ⟨0, 0, 0o755⟩), ([lit "x"], .dir, ⟨0, 0, 0o755⟩), ([lit "x", lit "y"], .file [.null], ⟨2000, 2000, 0o644⟩),
      ([lit "x\\y"], .file [.null], ⟨3000, 3000, 0o600⟩)]
    (by decide) (by decide) (by decide) (by decide)

/-- **One file's owner goes to the other.** -/
theorem backslash_applied_to_slash :
    ¬ RoundTrips plainPython plainMachines.text slashAndBackslash .here ∧
      (rowOf plainPython slashAndBackslash [lit "x\\y"]).bind (fun e => target (Files.shape slashAndBackslash.node) [] e.path) = some [lit "x", lit "y"] :=
  ⟨not_roundTrips (q := [lit "x\\y"]) plainMachines.text (Or.inl rfl) (by decide) (by decide), by decide +kernel⟩

end PiHerder.Backup
