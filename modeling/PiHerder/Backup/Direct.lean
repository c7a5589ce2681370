import PiHerder.Backup.Destinations
import PiHerder.Backup.Replicate

/-!
# What a direct push plans

A direct host sends its sources from where they are to the copy's folder (`services/backup_direct.py`). The selection is
about paths of the backup drive, `host folder/name of the source/…`; a plan is about paths of the host.

| here | there |
| --- | --- |
| `hostFolderName` | `host_folder_name` (`backup_replicate.py` 1215–1217) |
| `excludesUnder` | `_excludes_under` (302–308) |
| `copyBase`, `plannedSyncs` | `planned_syncs` (311–350); `base`, and its loops |
| `indexRows`, `partitionChecked` | `_index_rows` (353–364), `partition_checked` (392–411) |
| `pathsForScope`, `relsForPush` | `paths_for_scope` (`backup_replicate.py` 1220–1239), `rels_for_push` (570–578) |
-/
namespace PiHerder.Backup
open Lib Lib.Str Lib.Selection Lib.Globs

/-! ## The code -/

def hostFolderName (s : Host) : Str := strip (replaceSlash (orElse s.backupFolderName s.hostname))

def excludesUnder (base : Str) (skipped : List Str) : List Str :=
  let front := rstrip '/' base ++ lit "/"
  (skipped.filter (startsWith front)).map fun skip => skip.drop front.length

structure Plan where
  source : Str
  localDir : Str
  rel : Str
  excludes : List Str
deriving DecidableEq, Repr

/-- The drive path of a source. -/
def copyBase (s : Host) (item : Source) : Str :=
  let folder := hostFolderName s
  if folder ≠ [] then folder ++ lit "/" ++ destName item else destName item

/-- The plans of one source: the whole of it, if a ticked path is at it or above it, and the ticked paths inside it
otherwise. -/
def sourceSyncs (s : Host) (rels skipped : List Str) (item : Source) : List Plan :=
  let base := copyBase s item
  let src := rstrip '/' item.source
  if rels.any fun rel => rel == base || under base rel then [⟨item.source, src, base, excludesUnder base skipped⟩]
  else (rels.filter fun child => under child base && child != base).map fun child =>
    let extra := child.drop (base.length + 1)
    ⟨item.source, src ++ lit "/" ++ extra, child, excludesUnder child skipped⟩

def plannedSyncs (s : Host) (sources : List Source) (rels skipped : List Str) : List Plan :=
  (sources.filter fun item => item.enabled && item.source != []).flatMap (sourceSyncs s rels skipped)

/-- The direct host of each folder; the last one of a name stays. -/
def indexRows (rows : List Host) (folder : Str) : Option Host :=
  (rows.filter fun row => row.backupDirect && row.backupEnabled && hostFolderName row != []).reverse.find? fun row =>
    hostFolderName row = folder

/-- `rel.split("/", 1)[0]` -/
def topOf (rel : Str) : Str := (split '/' rel).head?.getD []

/-- One round of the loop of `partition_checked`: the paths left to the herder, and the groups so far. -/
def partitionStep (index : Str → Option Host) (acc : List Str × List (Str × List Str)) (rel : Str) : List Str × List (Str × List Str) :=
  let top := topOf rel
  match index top with
  | none => (acc.1 ++ [rel], acc.2)
  | some _ =>
    let groups := if acc.2.any (·.1 = top) then acc.2 else acc.2 ++ [(top, [])]
    (acc.1, groups.map fun group => if group.1 = top then (group.1, group.2 ++ [rel]) else group)

def partitionChecked (checked : List Str) (hosts : List Host) : List Str × List (Host × List Str) :=
  let index := indexRows hosts
  let (herder, groups) := checked.foldl (partitionStep index) ([], [])
  (herder, groups.filterMap fun group => (index group.1).map fun host => (host, group.2))

def pathsForScope (checked skipped : List Str) (scope : Str) : List Str × List Str :=
  let front := rstrip '/' (lstrip '/' (strip scope))
  if scope = [] ∨ front = [] then (checked, skipped)
  else
    let within := checked.filter fun p => p == front || under p front || under front p
    let narrowed := within.map fun path => if under front path && path != front then front else path
    normalizeSelection narrowed (skipped.filter fun p => p == front || under p front || narrowed.any (under p))

/-- Ticked paths of the host. Where there are none, the whole host is sent. -/
def relsForPush (checked skipped : List Str) (s : Host) : List Str × List Str :=
  let folder := hostFolderName s
  let (rels, relsSkip) := pathsForScope checked skipped folder
  if rels ≠ [] then (rels, relsSkip)
  else ([folder], skipped.filter fun item => item == folder || startsWith (folder ++ lit "/") item)

/-! ## The groups -/

/-- What the loop has gathered: each group has the paths of its folder, in their order. -/
def Gathered (index : Str → Option Host) (seen : List Str) (groups : List (Str × List Str)) : Prop :=
  ∀ group ∈ groups, (index group.1).isSome = true ∧ group.2 = seen.filter fun rel => topOf rel = group.1

theorem partitionStep_gathered {index : Str → Option Host} {seen : List Str} {acc : List Str × List (Str × List Str)}
    (hinv : Gathered index seen acc.2) (hnew : ∀ rel ∈ seen, (index (topOf rel)).isSome = true → acc.2.any (·.1 = topOf rel) = true) (rel : Str) :
    Gathered index (seen ++ [rel]) (partitionStep index acc rel).2 ∧
      ∀ r ∈ seen ++ [rel], (index (topOf r)).isSome = true → (partitionStep index acc rel).2.any (·.1 = topOf r) = true := by
  unfold partitionStep
  simp only
  cases hindex : index (topOf rel) with
  | none =>
    simp only
    refine ⟨fun group hg => ?_, fun r hr hsome => ?_⟩
    · obtain ⟨hsome, heq⟩ := hinv group hg
      have hne : topOf rel ≠ group.1 := by
        intro heq
        rw [← heq, hindex] at hsome
        exact Bool.noConfusion hsome
      refine ⟨hsome, ?_⟩
      rw [List.filter_append, List.filter_cons_of_neg (by simpa using hne), List.filter_nil, List.append_nil, heq]
    · rcases List.mem_append.1 hr with hr | hr
      · exact hnew r hr hsome
      · obtain rfl := List.mem_singleton.1 hr
        rw [hindex] at hsome
        exact Bool.noConfusion hsome
  | some host =>
    simp only
    -- every group of the list before the new path is added to its group
    have hbase : Gathered index seen (if acc.2.any (·.1 = topOf rel) then acc.2 else acc.2 ++ [(topOf rel, [])]) := by
      by_cases hany : acc.2.any (·.1 = topOf rel) = true
      · rw [if_pos hany]
        exact hinv
      · rw [if_neg hany]
        intro group hg
        rcases List.mem_append.1 hg with hg | hg
        · exact hinv group hg
        · obtain rfl := List.mem_singleton.1 hg
          refine ⟨by rw [hindex]; rfl, (List.filter_eq_nil_iff.2 fun r hr htop => hany ?_).symm⟩
          have htop := of_decide_eq_true htop
          have := hnew r hr (by rw [htop, hindex]; rfl)
          rwa [htop] at this
    refine ⟨fun group hg => ?_, fun r hr hsome => ?_⟩
    · obtain ⟨old, hold, rfl⟩ := List.mem_map.1 hg
      obtain ⟨hsome, heq⟩ := hbase old hold
      by_cases htop : old.1 = topOf rel
      · rw [if_pos htop]
        refine ⟨hsome, ?_⟩
        rw [List.filter_append, ← heq, List.filter_cons_of_pos (by simpa using htop.symm), List.filter_nil]
      · rw [if_neg htop]
        refine ⟨hsome, ?_⟩
        rw [List.filter_append, ← heq, List.filter_cons_of_neg (by simpa using Ne.symm htop), List.filter_nil, List.append_nil]
    · rw [List.any_map, List.any_eq_true]
      have hkey : ∀ group : Str × List Str, (if group.1 = topOf rel then (group.1, group.2 ++ [rel]) else group).1 = group.1 := by
        intro group
        split <;> rfl
      have hmem : ∃ group ∈ (if acc.2.any (·.1 = topOf rel) then acc.2 else acc.2 ++ [(topOf rel, [])]), group.1 = topOf r := by
        rcases List.mem_append.1 hr with hr | hr
        · obtain ⟨group, hg, htop⟩ := List.any_eq_true.1 (hnew r hr hsome)
          refine ⟨group, ?_, of_decide_eq_true htop⟩
          split
          · exact hg
          · exact List.mem_append_left _ hg
        · obtain rfl := List.mem_singleton.1 hr
          by_cases hany : acc.2.any (·.1 = topOf r) = true
          · obtain ⟨group, hg, htop⟩ := List.any_eq_true.1 hany
            rw [if_pos hany]
            exact ⟨group, hg, of_decide_eq_true htop⟩
          · rw [if_neg hany]
            exact ⟨(topOf r, []), by simp, rfl⟩
      obtain ⟨group, hg, htop⟩ := hmem
      refine ⟨group, hg, decide_eq_true ?_⟩
      show (if group.1 = topOf rel then (group.1, group.2 ++ [rel]) else group).1 = topOf r
      rw [hkey, htop]

theorem foldl_gathered {index : Str → Option Host} (rest : List Str) : ∀ {seen : List Str} {acc : List Str × List (Str × List Str)},
    Gathered index seen acc.2 → (∀ rel ∈ seen, (index (topOf rel)).isSome = true → acc.2.any (·.1 = topOf rel) = true) →
      Gathered index (seen ++ rest) (rest.foldl (partitionStep index) acc).2 := by
  induction rest with
  | nil =>
    intro seen acc hinv _
    rwa [List.append_nil]
  | cons rel rest ih =>
    intro seen acc hinv hnew
    obtain ⟨hinv', hnew'⟩ := partitionStep_gathered hinv hnew rel
    have := ih hinv' hnew'
    rwa [List.append_assoc, List.singleton_append] at this

/-- **The group of a direct host**: the ticked paths whose first component is its folder. -/
theorem mem_partitionChecked {checked : List Str} {hosts : List Host} {s : Host} {rels : List Str}
    (h : (s, rels) ∈ (partitionChecked checked hosts).2) :
    s ∈ hosts ∧ s.backupDirect = true ∧ hostFolderName s ≠ [] ∧ rels = checked.filter fun rel => topOf rel = hostFolderName s := by
  unfold partitionChecked at h
  simp only at h
  obtain ⟨group, hg, hhost⟩ := List.mem_filterMap.1 h
  obtain ⟨host, hindex, heq⟩ := Option.map_eq_some_iff.1 hhost
  obtain ⟨rfl, rfl⟩ := Prod.mk.inj heq
  have hgathered := @foldl_gathered (indexRows hosts) checked [] ([], []) (fun _ h => nomatch h) fun _ h => nomatch h
  obtain ⟨-, hrels⟩ := hgathered group hg
  unfold indexRows at hindex
  have hfound := List.find?_some hindex
  have hfolder := of_decide_eq_true hfound
  have hmem := List.mem_filter.1 (List.mem_reverse.1 (List.mem_of_find?_eq_some hindex))
  rw [Bool.and_eq_true, Bool.and_eq_true, bne_iff_ne] at hmem
  refine ⟨hmem.1, hmem.2.1.1, hmem.2.2, ?_⟩
  rw [hrels, hfolder, List.nil_append]

/-! ## What is sent -/

/-- A plan of the source sends the file `hostPath` as `drivePath`. -/
def Sends (plans : List Plan) (source hostPath drivePath : Str) : Prop :=
  ∃ p ∈ plans, p.source = source ∧ ∃ g : List Str, split '/' hostPath = split '/' p.localDir ++ g ∧
    split '/' drivePath = split '/' p.rel ++ g ∧ ∀ e ∈ p.excludes, ¬ split '/' e <+: g

section sends
variable {C S rels skips : List Str} {s : Host} {item : Source} {sources : List Source} {f : List Str}

theorem topOf_of_under {c base : Str} (h : Under c base) : topOf c = topOf base := by
  obtain ⟨rest, hrest⟩ := under_iff.1 h
  unfold topOf
  rw [← hrest, List.head?_append_of_ne_nil _ (split_ne_nil '/' c)]

theorem mem_plannedSyncs {p : Plan} : p ∈ plannedSyncs s sources rels skips ↔
    ∃ item ∈ sources, item.enabled = true ∧ item.source ≠ [] ∧ p ∈ sourceSyncs s rels skips item := by
  unfold plannedSyncs
  simp only [List.mem_flatMap, List.mem_filter, Bool.and_eq_true, bne_iff_ne, and_assoc]

/-- A skipped path is not at or above a ticked one. -/
theorem Canonical.not_skip_above (hcan : Canonical Under C S) {c t : Str} (hc : c ∈ C) (ht : t ∈ S) : ¬ Under t c := by
  intro htc
  obtain ⟨b, hb, hbt, hne⟩ := hcan.below t ht
  have := hcan.checkedApart b hb c hc (hbt.trans htc)
  subst this
  exact hne (hbt.antisymm htc)

/-- What a plan at `r` leaves of the skips: those at `r` or above it. -/
theorem skips_above {r : Str} {g : List Str} {d : Str} (hr : Clean r) (hd : split '/' d = split '/' r ++ g)
    (hno : ∀ e ∈ excludesUnder r skips, ¬ split '/' e <+: g) {t : Str} (ht : t ∈ skips) (htd : Under t d) : Under t r := by
  have hrd : Under r d := under_iff.2 (hd ▸ List.prefix_append _ g)
  rcases Under.total htd hrd with h | h
  · exact h
  · rcases h with rfl | hpre
    · exact Under.refl _
    · obtain ⟨e, rfl⟩ := List.isPrefixOf_iff_prefix.1 hpre
      rw [List.append_assoc] at ht htd
      refine absurd ?_ (hno e ((mem_cut hr).2 ht))
      have := under_iff.1 htd
      rwa [show lit "/" ++ e = '/' :: e from rfl, split_append_cons, hd, List.prefix_append_right_inj] at this

/-- **What is sent of a source**: the files below a ticked path, but for those below a skip that is not at the source's
own folder or above it. -/
theorem sends_iff (hC : ∀ x ∈ C, Clean x) (hcan : Canonical Under C S)
    (hrels : ∀ c, c ∈ rels ↔ c ∈ C ∧ topOf c = topOf (copyBase s item)) (hskips : ∀ t, topOf t = topOf (copyBase s item) → (t ∈ skips ↔ t ∈ S))
    (hitem : item ∈ sources) (hen : item.enabled = true) (hsrc : item.source ≠ []) (hbase : Clean (copyBase s item)) (hf : Below f) :
    Sends (plannedSyncs s sources rels skips) item.source (rstrip '/' item.source ++ '/' :: join '/' f) (copyBase s item ++ '/' :: join '/' f) ↔
      (∃ c ∈ C, Under c (copyBase s item ++ '/' :: join '/' f)) ∧
        ∀ t ∈ S, Under t (copyBase s item ++ '/' :: join '/' f) → Under t (copyBase s item) := by
  obtain ⟨base, hb⟩ : ∃ base, copyBase s item = base := ⟨_, rfl⟩
  rw [hb] at hbase hrels hskips ⊢
  have hfsplit : split '/' (join '/' f) = f := split_join hf.1 fun x hx => (hf.2 x hx).2
  have hd : split '/' (base ++ '/' :: join '/' f) = split '/' base ++ f := by rw [split_append_cons, hfsplit]
  have hbd : Under base (base ++ '/' :: join '/' f) := under_iff.2 (hd ▸ List.prefix_append _ f)
  have htop : ∀ {t r : Str}, Under r t → topOf r = topOf base → topOf t = topOf base := fun h hr => (topOf_of_under h).symm.trans hr
  have hupper : ∀ {c : Str}, Under c base → topOf c = topOf base := topOf_of_under
  have hbelow : ∀ {t : Str}, Under t (base ++ '/' :: join '/' f) → topOf t = topOf base := fun h =>
    (topOf_of_under h).trans (topOf_of_under hbd).symm
  constructor
  · rintro ⟨p, hp, hpsrc, g, hhost, hdrive, hno⟩
    obtain ⟨item', -, -, -, hp'⟩ := mem_plannedSyncs.1 hp
    unfold sourceSyncs at hp'
    simp only at hp'
    rw [split_append_cons, hfsplit] at hhost
    split at hp'
    · rename_i hany
      obtain rfl := List.mem_singleton.1 hp'
      simp only at hpsrc hhost hdrive hno
      rw [hpsrc] at hhost
      obtain rfl := List.append_cancel_left hhost
      rw [hd] at hdrive
      obtain hbb := split_injective (List.append_cancel_right hdrive)
      rw [← hbb] at hany hno
      obtain ⟨c, hcr, hcb⟩ := List.any_eq_true.1 hany
      have hcC := ((hrels c).1 hcr).1
      have hcbase : Under c base := by
        rw [Bool.or_eq_true, beq_iff_eq, under_eq (hC c hcC), decide_eq_true_eq] at hcb
        exact hcb.elim (fun heq => heq ▸ Under.refl _) id
      exact ⟨⟨c, hcC, hcbase.trans hbd⟩, fun t ht htd => skips_above hbase hd hno ((hskips t (hbelow htd)).2 ht) htd⟩
    · obtain ⟨c, hc, rfl⟩ := List.mem_map.1 hp'
      simp only at hpsrc hhost hdrive hno
      have hcC := ((hrels c).1 (List.mem_filter.1 hc).1).1
      have hcd : Under c (base ++ '/' :: join '/' f) := under_iff.2 (hdrive ▸ List.prefix_append _ g)
      refine ⟨⟨c, hcC, hcd⟩, fun t ht htd => ?_⟩
      exact absurd (skips_above (hC c hcC) hdrive hno ((hskips t (hbelow htd)).2 ht) htd) (Canonical.not_skip_above hcan hcC ht)
  · rintro ⟨⟨c, hcC, hcd⟩, hskip⟩
    have hcr : c ∈ rels := (hrels c).2 ⟨hcC, hbelow hcd⟩
    have hplan : ∀ p ∈ sourceSyncs s rels skips item, p ∈ plannedSyncs s sources rels skips := fun p hp =>
      mem_plannedSyncs.2 ⟨item, hitem, hen, hsrc, hp⟩
    -- no exclude of a plan at `r`, at the source's folder or below it, hides the file
    have hfree : ∀ {r : Str} {g : List Str}, Clean r → Under base r → split '/' (base ++ '/' :: join '/' f) = split '/' r ++ g →
        ∀ e ∈ excludesUnder r skips, ¬ split '/' e <+: g := by
      intro r g hr hbr hdg e he hpre
      have hmem := (mem_cut hr).1 he
      have hre : Under (r ++ '/' :: e) (base ++ '/' :: join '/' f) := by
        rw [under_iff, hdg, split_append_cons, List.prefix_append_right_inj]
        exact hpre
      have hlow := (hskip _ ((hskips _ (hbelow hre)).1 hmem) hre).trans hbr
      have := (under_iff.1 hlow).length_le
      rw [split_append_cons, List.length_append] at this
      have hpos := length_split_pos '/' e
      omega
    have hwhole : ∀ {x : Str}, x ∈ C → ((x == copyBase s item || under (copyBase s item) x) = true ↔ Under x base) := by
      intro x hx
      rw [hb, Bool.or_eq_true, beq_iff_eq, under_eq (hC x hx), decide_eq_true_eq]
      exact or_iff_right_of_imp fun heq => heq ▸ Under.refl _
    rcases Under.total hcd hbd with hcb | hbc
    · refine ⟨⟨item.source, rstrip '/' item.source, base, excludesUnder base skips⟩, hplan _ ?_, rfl, f, ?_, hd, hfree hbase (Under.refl _) hd⟩
      · unfold sourceSyncs
        simp only
        rw [if_pos (List.any_eq_true.2 ⟨c, hcr, (hwhole hcC).2 hcb⟩), hb]
        exact List.mem_singleton_self _
      · rw [split_append_cons, hfsplit]
    · by_cases heq : c = base
      · refine ⟨⟨item.source, rstrip '/' item.source, base, excludesUnder base skips⟩, hplan _ ?_, rfl, f, ?_, hd, hfree hbase (Under.refl _) hd⟩
        · unfold sourceSyncs
          simp only
          rw [if_pos (List.any_eq_true.2 ⟨c, hcr, (hwhole hcC).2 (heq ▸ Under.refl _)⟩), hb]
          exact List.mem_singleton_self _
        · rw [split_append_cons, hfsplit]
      · -- the ticked path is inside the source, and no other one covers the source
        have hstart := hbc.resolve_left heq
        obtain ⟨extra, hextra⟩ := List.isPrefixOf_iff_prefix.1 hstart
        have hcx : c = base ++ '/' :: extra := by
          rw [← hextra, List.append_assoc]
          rfl
        obtain ⟨g, hg⟩ := under_iff.1 hcd
        have hfg : f = split '/' extra ++ g := by
          rw [hd, hcx, split_append_cons, List.append_assoc] at hg
          exact (List.append_cancel_left hg).symm
        refine ⟨⟨item.source, rstrip '/' item.source ++ lit "/" ++ extra, c, excludesUnder c skips⟩, hplan _ ?_, rfl, g, ?_, hg.symm,
          hfree (hC c hcC) hbc hg.symm⟩
        · unfold sourceSyncs
          simp only
          rw [if_neg, hb]
          · refine List.mem_map.2 ⟨c, List.mem_filter.2 ⟨hcr, ?_⟩, ?_⟩
            · rw [Bool.and_eq_true, bne_iff_ne, under_eq hbase, decide_eq_true_eq]
              exact ⟨hbc, heq⟩
            · have hdrop : c.drop (base.length + 1) = extra := by
                rw [hcx, show base ++ '/' :: extra = (base ++ lit "/") ++ extra by rw [List.append_assoc]; rfl]
                exact List.drop_left' (by simp [lit])
              rw [hdrop]
          · intro hany
            obtain ⟨x, hxr, hx⟩ := List.any_eq_true.1 hany
            have hxC := ((hrels x).1 hxr).1
            have hxb := (hwhole hxC).1 hx
            have := hcan.checkedApart x hxC c hcC (hxb.trans hbc)
            subst this
            exact heq (hxb.antisymm hbc)
        · rw [split_append_cons, hfsplit, hfg, List.append_assoc, show lit "/" ++ extra = '/' :: extra from rfl, split_append_cons,
            List.append_assoc]

/-! ## The ticked paths of a host -/

theorem slashFree_hostFolderName (s : Host) : '/' ∉ hostFolderName s := by
  intro h
  unfold hostFolderName at h
  have hin := (List.dropWhile_suffix _).subset ((List.rdropWhile_prefix _ _).subset h)
  obtain ⟨c, -, hc⟩ := List.mem_map.1 hin
  split at hc
  · exact absurd hc (by decide)
  · rename_i hne
    exact hne hc

theorem under_folder_iff (s : Host) {x : Str} : Under (hostFolderName s) x ↔ topOf x = hostFolderName s := by
  rw [under_iff, split_of_notMem (slashFree_hostFolderName s)]
  unfold topOf
  obtain ⟨y, ys, hy⟩ := List.exists_cons_of_ne_nil (split_ne_nil '/' x)
  rw [hy, List.cons_prefix_cons]
  simp [eq_comm]

theorem topOf_copyBase (h : hostFolderName s ≠ []) : topOf (copyBase s item) = hostFolderName s := by
  rw [← under_folder_iff, under_iff]
  unfold copyBase
  simp only
  rw [if_pos h, List.append_assoc, show lit "/" ++ destName item = '/' :: destName item from rfl, split_append_cons]
  exact List.prefix_append _ _

/-- Normalizing a canonical selection without blanks at the ends of its paths once more. -/
theorem mem_normalize_again (hC : ∀ x ∈ C, Clean x) (hS : ∀ x ∈ S, Clean x) (hcan : Canonical Under C S) (hstrip : Stripped (C, S)) :
    (∀ x, x ∈ (normalizeSelection C S).1 ↔ x ∈ C) ∧ ∀ x, x ∈ (normalizeSelection C S).2 ↔ x ∈ S := by
  refine (normalizeSelection_canonical C S).ext forest_under hcan fun x hx => (normalize_again_iff hC hS hcan).2 hstrip x ?_
  simp only [List.mem_append] at hx
  rcases hx with (hx | hx) | (hx | hx)
  · exact normalizeSelection_clean.1 x hx
  · exact normalizeSelection_clean.2 x hx
  · exact hC x hx
  · exact hS x hx

/-- Narrowing a selection to the folder of a host. -/
theorem mem_pathsForScope (hC : ∀ x ∈ C, Clean x) (hS : ∀ x ∈ S, Clean x) (hcan : Canonical Under C S) (hstrip : Stripped (C, S))
    (hne : hostFolderName s ≠ []) :
    (∀ x, x ∈ (pathsForScope C S (hostFolderName s)).1 ↔ x ∈ C ∧ topOf x = hostFolderName s) ∧
      ∀ x, x ∈ (pathsForScope C S (hostFolderName s)).2 ↔ x ∈ S ∧ topOf x = hostFolderName s := by
  obtain ⟨folder, hfolder⟩ : ∃ folder, hostFolderName s = folder := ⟨_, rfl⟩
  have hslash := slashFree_hostFolderName s
  have htop : ∀ x, Under folder x ↔ topOf x = folder := fun x => hfolder ▸ under_folder_iff s
  have hself : strip folder = folder := by
    rw [← hfolder]
    exact strip_strip _
  rw [hfolder] at hslash hne ⊢
  have hl : lstrip '/' folder = folder := by
    obtain ⟨x, xs, hx⟩ := List.exists_cons_of_ne_nil hne
    have hxne : x ≠ '/' := fun heq => hslash (hx ▸ heq ▸ List.mem_cons_self)
    unfold lstrip lstripWhere
    rw [hx, List.dropWhile_cons_of_neg (by simpa using hxne)]
  have hr : rstrip '/' folder = folder := rstrip_append (s := []) hne hslash
  have hchild : ∀ x, under x folder = decide (Under folder x) := by
    intro x
    unfold under
    rw [hr, Bool.eq_iff_iff, Bool.or_eq_true, beq_iff_eq, decide_eq_true_eq]
    rfl
  have hparent : ∀ x ∈ C, under folder x = true → x = folder := by
    intro x hx hu
    rw [under_eq (hC x hx), decide_eq_true_eq, under_iff, split_of_notMem hslash] at hu
    obtain ⟨rest, hrest⟩ := hu
    obtain ⟨y, ys, hy⟩ := List.exists_cons_of_ne_nil (split_ne_nil '/' x)
    rw [hy, List.cons_append, List.cons.injEq] at hrest
    have hys : ys = [] := (List.append_eq_nil_iff.1 hrest.2).1
    rw [hys, hrest.1] at hy
    rw [← join_split '/' x, hy]
    rfl
  have hwithin : (C.filter fun p => p == folder || under p folder || under folder p) = C.filter fun p => decide (Under folder p) := by
    refine List.filter_congr fun x hx => ?_
    rw [hchild, Bool.eq_iff_iff, Bool.or_eq_true, Bool.or_eq_true, beq_iff_eq, decide_eq_true_eq]
    constructor
    · rintro ((rfl | h) | h)
      · exact Under.refl _
      · exact h
      · exact hparent x hx h ▸ Under.refl _
    · exact fun h => Or.inl (Or.inr h)
  have hnarrow : ((C.filter fun p => decide (Under folder p)).map fun path => if under folder path && path != folder then folder else path) =
      C.filter fun p => decide (Under folder p) := by
    refine (List.map_congr_left fun x hx => if_neg fun h => ?_).trans (List.map_id _)
    rw [Bool.and_eq_true, bne_iff_ne] at h
    exact h.2 (hparent x (List.mem_filter.1 hx).1 h.1)
  have hskip : (S.filter fun p => p == folder || under p folder || (C.filter fun p => decide (Under folder p)).any (under p)) =
      S.filter fun p => decide (Under folder p) := by
    refine List.filter_congr fun x hx => ?_
    rw [hchild, Bool.eq_iff_iff, Bool.or_eq_true, Bool.or_eq_true, beq_iff_eq, decide_eq_true_eq, List.any_eq_true]
    constructor
    · rintro ((rfl | h) | ⟨c, hc, hcx⟩)
      · exact Under.refl _
      · exact h
      · obtain ⟨hcC, hfc⟩ := List.mem_filter.1 hc
        rw [under_eq (hC c hcC), decide_eq_true_eq] at hcx
        exact (of_decide_eq_true hfc).trans hcx
    · exact fun h => Or.inl (Or.inr h)
  unfold pathsForScope
  simp only
  rw [hself, hl, hr, if_neg (by simp [hne]), hwithin, hnarrow, hskip]
  have hmem : ∀ {l : List Str} {x}, x ∈ l.filter (fun p => decide (Under folder p)) ↔ x ∈ l ∧ topOf x = folder := by
    intro l x
    rw [List.mem_filter, decide_eq_true_eq, htop]
  have hcan' : Canonical Under (C.filter fun p => decide (Under folder p)) (S.filter fun p => decide (Under folder p)) := by
    refine ⟨fun a ha b hb => hcan.checkedApart a (List.mem_filter.1 ha).1 b (List.mem_filter.1 hb).1,
      fun a ha b hb => hcan.skippedApart a (List.mem_filter.1 ha).1 b (List.mem_filter.1 hb).1, fun t ht => ?_⟩
    obtain ⟨htS, htop'⟩ := hmem.1 ht
    obtain ⟨c, hc, hct, hcne⟩ := hcan.below t htS
    exact ⟨c, hmem.2 ⟨hc, (topOf_of_under hct).trans htop'⟩, hct, hcne⟩
  obtain ⟨h1, h2⟩ := mem_normalize_again (fun x hx => hC x (List.mem_filter.1 hx).1) (fun x hx => hS x (List.mem_filter.1 hx).1) hcan'
    fun x hx => hstrip x (by
      rw [List.mem_append] at hx ⊢
      exact hx.imp (fun h => (List.mem_filter.1 h).1) fun h => (List.mem_filter.1 h).1)
  exact ⟨fun x => (h1 x).trans hmem, fun x => (h2 x).trans hmem⟩

/-- Ticked paths of a direct host, with the skips its push is given: its group, when the copy runs, and its narrowed
selection, when the host is backed up. Paths with blanks at their ends do not survive the narrowing. -/
inductive Ticked (C S : List Str) (hosts : List Host) (s : Host) : List Str → List Str → Prop
  | group {rels : List Str} : (s, rels) ∈ (partitionChecked C hosts).2 → Ticked C S hosts s rels S
  | push {rels skips : List Str} : hostFolderName s ≠ [] → Stripped (C, S) → (pathsForScope C S (hostFolderName s)).1 ≠ [] →
      relsForPush C S s = (rels, skips) → Ticked C S hosts s rels skips

theorem Ticked.mem {hosts : List Host} (h : Ticked C S hosts s rels skips) (hC : ∀ x ∈ C, Clean x) (hS : ∀ x ∈ S, Clean x)
    (hcan : Canonical Under C S) :
    hostFolderName s ≠ [] ∧ (∀ c, c ∈ rels ↔ c ∈ C ∧ topOf c = hostFolderName s) ∧
      ∀ t, topOf t = hostFolderName s → (t ∈ skips ↔ t ∈ S) := by
  cases h with
  | group hgroup =>
    obtain ⟨-, -, hne, rfl⟩ := mem_partitionChecked hgroup
    refine ⟨hne, fun c => ?_, fun t _ => Iff.rfl⟩
    rw [List.mem_filter, decide_eq_true_eq]
  | push hne hstrip hticked hrun =>
    obtain ⟨h1, h2⟩ := mem_pathsForScope hC hS hcan hstrip hne
    unfold relsForPush at hrun
    simp only at hrun
    rw [if_pos hticked] at hrun
    obtain ⟨rfl, rfl⟩ := Prod.mk.inj hrun
    exact ⟨hne, h1, fun t ht => (h2 t).trans (and_iff_left ht)⟩

end sends

end PiHerder.Backup
