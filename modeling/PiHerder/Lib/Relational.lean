import Mathlib

/-!
# Tables with foreign keys

A `Database` has rows in tables; a row has an id, columns that may hold the id of a row elsewhere, and data. The
foreign keys of a schema are enforced without a cascade: a `DELETE` that leaves a reference fails, and so does the
clearing of a column that may not be null.

`detachAndDelete` deletes rows of one table, after what refers to them has been dropped or cleared by a list of
columns kept by hand. It succeeds exactly when no column outside the list refers to such a row
(`detachAndDelete_iff`), and then it keeps every reference whole and touches nothing else (`Detached`).
-/
namespace Lib

structure Row (C δ : Type) where
  id : Nat
  ref : C → Option Nat
  data : δ

structure ForeignKey (T C : Type) where
  table : T
  column : C
  target : T
  nullable : Bool
deriving DecidableEq, Repr

/-- The rows of every table. -/
abbrev Database (T C δ : Type) : Type := T → List (Row C δ)

namespace Row
variable {C δ : Type}

/-- Does the column hold one of these ids? -/
def refersTo (c : C) (ids : List Nat) (r : Row C δ) : Bool := (r.ref c).any ids.contains

/-- `r.c = None`. -/
def clear [DecidableEq C] (c : C) (r : Row C δ) : Row C δ := { r with ref := fun c' => if c' = c then none else r.ref c' }

/-- `r'` is `r` with some columns cleared. -/
structure Cleared (r r' : Row C δ) : Prop where
  id : r'.id = r.id
  data : r'.data = r.data
  ref : ∀ c, r'.ref c = r.ref c ∨ r'.ref c = none

theorem refersTo_iff {c : C} {ids : List Nat} {r : Row C δ} : r.refersTo c ids = true ↔ ∃ i ∈ ids, r.ref c = some i := by
  unfold refersTo
  cases r.ref c <;> simp

theorem Cleared.refl (r : Row C δ) : Cleared r r := ⟨rfl, rfl, fun _ => Or.inl rfl⟩

theorem Cleared.trans {a b c : Row C δ} (h : Cleared a b) (h' : Cleared b c) : Cleared a c := by
  refine ⟨h'.id.trans h.id, h'.data.trans h.data, fun col => ?_⟩
  rcases h'.ref col with hcol | hcol
  · rw [hcol]
    exact h.ref col
  · exact Or.inr hcol

theorem Cleared.refersTo {r r' : Row C δ} (h : Cleared r r') {c : C} {ids : List Nat} (hr : r.refersTo c ids = false) :
    r'.refersTo c ids = false := by
  unfold Row.refersTo at hr ⊢
  rcases h.ref c with hcol | hcol
  · rwa [hcol]
  · rw [hcol]
    rfl

theorem cleared_clear [DecidableEq C] (c : C) (r : Row C δ) : Cleared r (r.clear c) := by
  refine ⟨rfl, rfl, fun c' => ?_⟩
  unfold clear
  by_cases h : c' = c
  · exact Or.inr (if_pos h)
  · exact Or.inl (if_neg h)

end Row

namespace Database
variable {T C δ : Type}

/-- Every reference points to a row, and ids are unique. -/
structure Whole (S : List (ForeignKey T C)) (db : Database T C δ) : Prop where
  ids : ∀ t, ((db t).map Row.id).Nodup
  refs : ∀ k ∈ S, ∀ r ∈ db k.table, ∀ i, r.ref k.column = some i → ∃ r' ∈ db k.target, r'.id = i
  notNull : ∀ k ∈ S, k.nullable = false → ∀ r ∈ db k.table, r.ref k.column ≠ none

variable [DecidableEq T] [DecidableEq C]

/-- Is one of these rows of a table referred to? -/
def referenced (S : List (ForeignKey T C)) (t : T) (ids : List Nat) (db : Database T C δ) : Bool :=
  S.any fun k => decide (k.target = t) && (db k.table).any (·.refersTo k.column ids)

/-- `DELETE FROM t WHERE p`. -/
def deleteRows (S : List (ForeignKey T C)) (t : T) (p : Row C δ → Bool) (db : Database T C δ) : Option (Database T C δ) :=
  let ids := ((db t).filter p).map Row.id
  let left : Database T C δ := Function.update db t ((db t).filter fun r => !p r)
  if referenced S t ids left then none else some left

/-- `UPDATE t SET c = NULL WHERE c IN ids`. -/
def clearRefs (S : List (ForeignKey T C)) (t : T) (c : C) (ids : List Nat) (db : Database T C δ) : Option (Database T C δ) :=
  if (db t).any (·.refersTo c ids) && S.any fun k => decide (k.table = t) && decide (k.column = c) && !k.nullable then none
  else some (Function.update db t ((db t).map fun r => if r.refersTo c ids then r.clear c else r))

/-- A column that is seen to before the rows it refers to are deleted. -/
structure Handled (T C : Type) where
  table : T
  column : C
  /-- The rows are deleted with them; otherwise the column is cleared. -/
  drop : Bool
deriving DecidableEq, Repr

def Handled.run (S : List (ForeignKey T C)) (ids : List Nat) (h : Handled T C) (db : Database T C δ) : Option (Database T C δ) :=
  if h.drop then deleteRows S h.table (·.refersTo h.column ids) db else clearRefs S h.table h.column ids db

/-- See to the listed columns, one after the other. -/
def detach (S : List (ForeignKey T C)) (ids : List Nat) : List (Handled T C) → Database T C δ → Option (Database T C δ)
  | [], db => some db
  | h :: hs, db => (h.run S ids db).bind (detach S ids hs)

/-- Delete the rows of `t` with `p`. -/
def detachAndDelete (S : List (ForeignKey T C)) (hs : List (Handled T C)) (t : T) (p : Row C δ → Bool) (db : Database T C δ) :
    Option (Database T C δ) :=
  (detach S (((db t).filter p).map Row.id) hs db).bind (deleteRows S t p)

/-- What a list of columns has to satisfy: they are foreign keys to `t`, nullable where they are cleared, nothing
refers to the tables whose rows are dropped, and no table refers to `t` in two columns or from `t` itself. -/
structure Fits (S : List (ForeignKey T C)) (hs : List (Handled T C)) (t : T) : Prop where
  declared : ∀ h ∈ hs, ∃ k ∈ S, k.table = h.table ∧ k.column = h.column ∧ k.target = t
  nullable : ∀ h ∈ hs, h.drop = false → ∀ k ∈ S, k.table = h.table → k.column = h.column → k.nullable = true
  leaf : ∀ h ∈ hs, h.drop = true → ∀ k ∈ S, k.target ≠ h.table
  single : ∀ h ∈ hs, ∀ k ∈ S, k.table = h.table → k.target = t → k.column = h.column
  notSelf : ∀ k ∈ S, k.target = t → k.table ≠ t

/-- `db'` is `db` after what refers to `ids` in the listed columns is gone. -/
structure Detached (hs : List (Handled T C)) (ids : List Nat) (db db' : Database T C δ) : Prop where
  old : ∀ t, ∀ r' ∈ db' t, ∃ r ∈ db t, r.Cleared r' ∧
    (∀ c, r'.ref c = r.ref c ∨ ∃ h ∈ hs, h.table = t ∧ h.column = c ∧ h.drop = false) ∧
    (r' = r ∨ ∃ h ∈ hs, h.table = t ∧ r.refersTo h.column ids = true)
  kept : ∀ t, ∀ r ∈ db t, (∀ h ∈ hs, h.table = t → h.drop = true → r.refersTo h.column ids = false) →
    ∃ r' ∈ db' t, r.Cleared r' ∧ (∀ c, (∀ h ∈ hs, h.table = t → h.column ≠ c) → r'.ref c = r.ref c) ∧
      ((∀ h ∈ hs, h.table = t → r.refersTo h.column ids = false) → r' = r)
  gone : ∀ h ∈ hs, ∀ r' ∈ db' h.table, r'.refersTo h.column ids = false
  others : ∀ t, (∀ h ∈ hs, h.table ≠ t) → db' t = db t
  ids : ∀ t, ((db' t).map Row.id).Sublist ((db t).map Row.id)

section Detach
variable {S : List (ForeignKey T C)} {hs : List (Handled T C)} {h : Handled T C} {ids : List Nat} {db mid db' : Database T C δ}

omit [DecidableEq T] [DecidableEq C] in
theorem Detached.nil (ids : List Nat) (db : Database T C δ) : Detached [] ids db db where
  old _ r hr := ⟨r, hr, .refl r, fun _ => Or.inl rfl, Or.inl rfl⟩
  kept _ r hr _ := ⟨r, hr, .refl r, fun _ _ => rfl, fun _ => rfl⟩
  gone _ hh := by cases hh
  others _ _ := rfl
  ids _ := .refl _

omit [DecidableEq T] [DecidableEq C] in
theorem Detached.cons (hd : Detached [h] ids db mid) (hd' : Detached hs ids mid db') : Detached (h :: hs) ids db db' where
  old t r'' hr'' := by
    obtain ⟨r', hr', hclear', hcols', hsame'⟩ := hd'.old t r'' hr''
    obtain ⟨r, hr, hclear, hcols, hsame⟩ := hd.old t r' hr'
    refine ⟨r, hr, hclear.trans hclear', fun c => ?_, ?_⟩
    · rcases hcols' c with hc' | ⟨g, hg, hgc⟩
      · rcases hcols c with hc | ⟨g, hg, hgc⟩
        · exact Or.inl (hc'.trans hc)
        · exact Or.inr ⟨g, List.mem_cons.2 (Or.inl (List.mem_singleton.1 hg)), hgc⟩
      · exact Or.inr ⟨g, List.mem_cons_of_mem _ hg, hgc⟩
    · rcases hsame' with rfl | ⟨g, hg, ht, hrefers⟩
      · exact hsame.imp_right fun ⟨g, hg, hgc⟩ => ⟨g, List.mem_cons.2 (Or.inl (List.mem_singleton.1 hg)), hgc⟩
      · refine Or.inr ⟨g, List.mem_cons_of_mem _ hg, ht, ?_⟩
        cases hr : r.refersTo g.column ids with
        | true => rfl
        | false =>
          rw [hclear.refersTo hr] at hrefers
          cases hrefers
  kept t r hr hkeep := by
    obtain ⟨r', hr', hclear, hcols, hsame⟩ := hd.kept t r hr fun g hg => hkeep g (by rw [List.mem_singleton.1 hg]; exact List.mem_cons_self)
    obtain ⟨r'', hr'', hclear', hcols', hsame'⟩ := hd'.kept t r' hr' fun g hg ht hdrop =>
      hclear.refersTo (hkeep g (List.mem_cons_of_mem _ hg) ht hdrop)
    refine ⟨r'', hr'', hclear.trans hclear', fun c hc => ?_, fun hno => ?_⟩
    · exact (hcols' c fun g hg => hc g (List.mem_cons_of_mem _ hg)).trans
        (hcols c fun g hg => hc g (by rw [List.mem_singleton.1 hg]; exact List.mem_cons_self))
    · obtain rfl := hsame fun g hg => hno g (by rw [List.mem_singleton.1 hg]; exact List.mem_cons_self)
      exact hsame' fun g hg => hno g (List.mem_cons_of_mem _ hg)
  gone g hg r'' hr'' := by
    rcases List.mem_cons.1 hg with rfl | hg
    · obtain ⟨r', hr', hclear, -⟩ := hd'.old _ r'' hr''
      exact hclear.refersTo (hd.gone g (List.mem_singleton_self _) r' hr')
    · exact hd'.gone g hg r'' hr''
  others t ht := by
    rw [hd'.others t fun g hg => ht g (List.mem_cons_of_mem _ hg)]
    exact hd.others t fun g hg => ht g (by rw [List.mem_singleton.1 hg]; exact List.mem_cons_self)
  ids t := (hd'.ids t).trans (hd.ids t)

/-- One column is seen to. -/
theorem Handled.run_detached (hleaf : h.drop = true → ∀ k ∈ S, k.target ≠ h.table)
    (hnull : h.drop = false → ∀ k ∈ S, k.table = h.table → k.column = h.column → k.nullable = true) (ids : List Nat)
    (db : Database T C δ) : ∃ db', h.run S ids db = some db' ∧ Detached [h] ids db db' := by
  cases hdrop : h.drop with
  | true =>
    refine ⟨Function.update db h.table ((db h.table).filter fun r => !r.refersTo h.column ids), ?_, ?_⟩
    · have hno : ∀ (ids' : List Nat) (left : Database T C δ), referenced S h.table ids' left = false := by
        intro ids' left
        unfold referenced
        rw [List.any_eq_false]
        intro k hk
        simp [hleaf hdrop k hk]
      unfold Handled.run deleteRows
      rw [if_pos hdrop]
      simp only [hno, Bool.false_eq_true, if_false]
    · refine ⟨fun t r' hr' => ?_, fun t r hr hkeep => ?_, fun g hg r' hr' => ?_, fun t ht => ?_, fun t => ?_⟩
      · refine ⟨r', ?_, .refl r', fun _ => Or.inl rfl, Or.inl rfl⟩
        by_cases ht : t = h.table
        · subst ht
          rw [Function.update_self] at hr'
          exact List.mem_of_mem_filter hr'
        · rwa [Function.update_of_ne ht] at hr'
      · refine ⟨r, ?_, .refl r, fun _ _ => rfl, fun _ => rfl⟩
        by_cases ht : t = h.table
        · subst ht
          rw [Function.update_self]
          exact List.mem_filter.2 ⟨hr, by rw [hkeep h (List.mem_singleton_self _) rfl hdrop]; rfl⟩
        · rwa [Function.update_of_ne ht]
      · obtain rfl := List.mem_singleton.1 hg
        rw [Function.update_self] at hr'
        simpa using (List.mem_filter.1 hr').2
      · exact Function.update_of_ne (ht h (List.mem_singleton_self _)).symm _ _
      · by_cases ht : t = h.table
        · subst ht
          rw [Function.update_self]
          exact List.filter_sublist.map _
        · rw [Function.update_of_ne ht]
  | false =>
    refine ⟨Function.update db h.table ((db h.table).map fun r => if r.refersTo h.column ids then r.clear h.column else r), ?_, ?_⟩
    · have hno : (S.any fun k => decide (k.table = h.table) && decide (k.column = h.column) && !k.nullable) = false := by
        rw [List.any_eq_false]
        intro k hk
        simp only [Bool.and_eq_true, decide_eq_true_eq, Bool.not_eq_true', not_and]
        rintro ⟨ht, hc⟩
        rw [hnull hdrop k hk ht hc]
        simp
      unfold Handled.run clearRefs
      rw [if_neg (by simp [hdrop]), hno, Bool.and_false, if_neg (by simp)]
    · refine ⟨fun t r' hr' => ?_, fun t r hr _ => ?_, fun g hg r' hr' => ?_, fun t ht => ?_, fun t => ?_⟩
      · by_cases ht : t = h.table
        · subst ht
          rw [Function.update_self] at hr'
          obtain ⟨r, hr, rfl⟩ := List.mem_map.1 hr'
          refine ⟨r, hr, ?_⟩
          cases hrefers : r.refersTo h.column ids with
          | false => exact ⟨.refl r, fun _ => Or.inl rfl, Or.inl rfl⟩
          | true =>
            refine ⟨Row.cleared_clear _ r, fun c => ?_, Or.inr ⟨h, List.mem_singleton_self _, rfl, hrefers⟩⟩
            by_cases hc : c = h.column
            · exact Or.inr ⟨h, List.mem_singleton_self _, rfl, hc.symm, hdrop⟩
            · exact Or.inl (if_neg hc)
        · rw [Function.update_of_ne ht] at hr'
          exact ⟨r', hr', .refl r', fun _ => Or.inl rfl, Or.inl rfl⟩
      · by_cases ht : t = h.table
        · subst ht
          rw [Function.update_self]
          refine ⟨_, List.mem_map_of_mem hr, ?_⟩
          cases hrefers : r.refersTo h.column ids with
          | false => exact ⟨.refl r, fun _ _ => rfl, fun _ => rfl⟩
          | true =>
            refine ⟨Row.cleared_clear _ r, fun c hc => if_neg (hc h (List.mem_singleton_self _) rfl).symm, fun hno => ?_⟩
            rw [hno h (List.mem_singleton_self _) rfl] at hrefers
            cases hrefers
        · rw [Function.update_of_ne ht]
          exact ⟨r, hr, .refl r, fun _ _ => rfl, fun _ => rfl⟩
      · obtain rfl := List.mem_singleton.1 hg
        rw [Function.update_self] at hr'
        obtain ⟨r, -, rfl⟩ := List.mem_map.1 hr'
        split
        · simp [Row.refersTo, Row.clear]
        · rename_i hno
          simpa using hno
      · exact Function.update_of_ne (ht h (List.mem_singleton_self _)).symm _ _
      · by_cases ht : t = h.table
        · subst ht
          rw [Function.update_self, List.map_map]
          rw [List.map_congr_left fun r _ => ?_]
          simp only [Function.comp_apply]
          split <;> rfl
        · rw [Function.update_of_ne ht]

/-- **The listed columns are seen to**, whatever the database. -/
theorem detach_detached {t : T} (hfits : Fits S hs t) (ids : List Nat) :
    ∀ db : Database T C δ, ∃ db', detach S ids hs db = some db' ∧ Detached hs ids db db' := by
  induction hs with
  | nil => exact fun db => ⟨db, rfl, .nil ids db⟩
  | cons h hs ih =>
    intro db
    obtain ⟨mid, hrun, hmid⟩ := Handled.run_detached (hfits.leaf h List.mem_cons_self) (hfits.nullable h List.mem_cons_self) ids db
    have hfits' : Fits S hs t :=
      ⟨fun g hg => hfits.declared g (List.mem_cons_of_mem _ hg), fun g hg => hfits.nullable g (List.mem_cons_of_mem _ hg),
        fun g hg => hfits.leaf g (List.mem_cons_of_mem _ hg), fun g hg => hfits.single g (List.mem_cons_of_mem _ hg), hfits.notSelf⟩
    obtain ⟨db', hrest, hdb'⟩ := ih hfits' mid
    exact ⟨db', by rw [detach, hrun, Option.bind_some, hrest], hmid.cons hdb'⟩

end Detach

/-- The row `i` of `t` is gone. -/
def Deleted (db db' : Database T C δ) (t : T) (i : Nat) : Prop := (∃ r ∈ db t, r.id = i) ∧ ∀ r' ∈ db' t, r'.id ≠ i

/-- The named rows are deleted; a row that refers to no deleted row stays as it is, and there are no new ones. -/
structure OnlyReferring (refers : T → Row C δ → T → Nat → Prop) (named : T → Row C δ → Prop) (db db' : Database T C δ) : Prop where
  gone : ∀ t, ∀ r ∈ db t, named t r → Deleted db db' t r.id
  kept : ∀ t, ∀ r ∈ db t, r ∉ db' t → named t r ∨ ∃ t' i, refers t r t' i ∧ Deleted db db' t' i
  old : ∀ t, ∀ r' ∈ db' t, ∃ r ∈ db t, r.id = r'.id

/-- A foreign key of a row holds the id `i` of a row of `t'`. -/
def Refers (S : List (ForeignKey T C)) (t : T) (r : Row C δ) (t' : T) (i : Nat) : Prop :=
  ∃ k ∈ S, k.table = t ∧ k.target = t' ∧ r.ref k.column = some i

section Delete
variable {S : List (ForeignKey T C)} {hs : List (Handled T C)} {t : T} {p : Row C δ → Bool} {db db' : Database T C δ}

/-- The foreign keys to `t` that the list leaves out. -/
def unhandled (S : List (ForeignKey T C)) (hs : List (Handled T C)) (t : T) : List (ForeignKey T C) :=
  S.filter fun k => decide (k.target = t) && !hs.any fun h => decide (h.table = k.table) && decide (h.column = k.column)

theorem mem_unhandled {k : ForeignKey T C} :
    k ∈ unhandled S hs t ↔ k ∈ S ∧ k.target = t ∧ ∀ h ∈ hs, h.table = k.table → h.column ≠ k.column := by
  simp [unhandled, List.mem_filter]

omit [DecidableEq T] [DecidableEq C] in
theorem Fits.apart (hfits : Fits S hs t) {h : Handled T C} (hh : h ∈ hs) : h.table ≠ t := by
  obtain ⟨k, hk, ht, -, htarget⟩ := hfits.declared h hh
  exact ht ▸ hfits.notSelf k hk htarget

/-- **The delete goes through exactly when no column left out refers to a row that goes.** -/
theorem detachAndDelete_iff (hfits : Fits S hs t) :
    (∃ db', detachAndDelete S hs t p db = some db') ↔
      ∀ k ∈ unhandled S hs t, ∀ r ∈ db k.table, r.refersTo k.column (((db t).filter p).map Row.id) = false := by
  obtain ⟨mid, hrun, hmid⟩ := detach_detached hfits (((db t).filter p).map Row.id) db
  have hsame : mid t = db t := hmid.others t fun h hh => hfits.apart hh
  unfold detachAndDelete deleteRows
  rw [hrun, Option.bind_some]
  simp only [hsame]
  constructor
  · rintro ⟨db', hdb'⟩ k hk r hr
    obtain ⟨hkS, htarget, hno⟩ := mem_unhandled.1 hk
    split at hdb'
    · cases hdb'
    · rename_i href
      -- a table with a listed column has no other column to `t`, so this one has none
      have hmem : r ∈ mid k.table := by
        rw [hmid.others k.table fun h hh ht => hno h hh ht (hfits.single h hh k hkS ht.symm htarget).symm]
        exact hr
      unfold referenced at href
      simp only [List.any_eq_true, Bool.and_eq_true, decide_eq_true_eq, not_exists, not_and] at href
      have := href k hkS htarget r
      rw [Function.update_of_ne (hfits.notSelf k hkS htarget)] at this
      simpa using this hmem
  · intro hno
    refine ⟨_, if_neg ?_⟩
    unfold referenced
    simp only [List.any_eq_true, Bool.and_eq_true, decide_eq_true_eq, not_exists, not_and, Bool.not_eq_true]
    intro k hk htarget r hr
    rw [Function.update_of_ne (hfits.notSelf k hk htarget)] at hr
    by_cases hlisted : ∃ h ∈ hs, h.table = k.table ∧ h.column = k.column
    · obtain ⟨h, hh, ht, hc⟩ := hlisted
      rw [← hc]
      exact hmid.gone h hh r (ht ▸ hr)
    · have hleft : k ∈ unhandled S hs t := mem_unhandled.2 ⟨hk, htarget, fun h hh ht hc => hlisted ⟨h, hh, ht, hc⟩⟩
      refine hno k hleft r ?_
      rwa [hmid.others k.table fun h hh ht => (mem_unhandled.1 hleft).2.2 h hh ht (hfits.single h hh k hk ht.symm htarget).symm] at hr

/-- **What a delete that goes through leaves**: every reference whole, and nothing touched but the rows that
referred to a deleted one. -/
theorem detachAndDelete_keeps (hfits : Fits S hs t) (hwhole : Whole S db) (hdb' : detachAndDelete S hs t p db = some db') :
    Whole S db' ∧ OnlyReferring (Refers S) (fun t' r => t' = t ∧ p r = true) db db' ∧ ∀ t', ∀ r' ∈ db' t', ∃ r ∈ db t', r.Cleared r' := by
  obtain ⟨mid, hrun, hmid⟩ := detach_detached hfits (((db t).filter p).map Row.id) db
  have hsame : mid t = db t := hmid.others t fun h hh => hfits.apart hh
  unfold detachAndDelete deleteRows at hdb'
  rw [hrun, Option.bind_some] at hdb'
  simp only [hsame] at hdb'
  split at hdb'
  · cases hdb'
  rename_i href
  obtain rfl := Option.some.inj hdb'
  unfold referenced at href
  simp only [List.any_eq_true, Bool.and_eq_true, decide_eq_true_eq, not_exists, not_and, Bool.not_eq_true] at href
  have hat : ∀ t', t' ≠ t → Function.update mid t ((db t).filter fun r => !p r) t' = mid t' := fun t' ht' => Function.update_of_ne ht' _ _
  have hatt : Function.update mid t ((db t).filter fun r => !p r) t = (db t).filter fun r => !p r := Function.update_self ..
  have hsub : ∀ t', ∀ r' ∈ Function.update mid t ((db t).filter fun r => !p r) t', r' ∈ mid t' := by
    intro t' r' hr'
    by_cases ht' : t' = t
    · subst ht'
      rw [hatt] at hr'
      rw [hsame]
      exact List.mem_of_mem_filter hr'
    · rwa [hat t' ht'] at hr'
  -- ids are unique, so no row that stays has the id of one that goes
  have hgone : ∀ r ∈ db t, p r = true → Deleted db (Function.update mid t ((db t).filter fun r => !p r)) t r.id := by
    refine fun r hr hp => ⟨⟨r, hr, rfl⟩, fun r' hr' hid => ?_⟩
    rw [hatt] at hr'
    obtain ⟨hr', hp'⟩ := List.mem_filter.1 hr'
    obtain rfl := List.inj_on_of_nodup_map (hwhole.ids t) hr' hr hid
    rw [hp] at hp'
    cases hp'
  refine ⟨⟨fun t' => ?_, fun k hk r' hr' i hi => ?_, fun k hk hnull r' hr' => ?_⟩, ⟨?_, fun t' r hr hno => ?_, fun t' r' hr' => ?_⟩, fun t' r' hr' => ?_⟩
  · by_cases ht' : t' = t
    · subst ht'
      rw [hatt]
      exact (hwhole.ids t').sublist (List.filter_sublist.map _)
    · rw [hat t' ht']
      exact (hwhole.ids t').sublist (hmid.ids t')
  · obtain ⟨r, hr, hclear, -, -⟩ := hmid.old _ r' (hsub _ r' hr')
    have hri : r.ref k.column = some i := by
      rcases hclear.ref k.column with hcol | hcol
      · rw [← hcol, hi]
      · rw [hcol] at hi
        cases hi
    obtain ⟨target, htarget, rfl⟩ := hwhole.refs k hk r hr i hri
    by_cases hkt : k.target = t
    · refine ⟨target, ?_, rfl⟩
      rw [hkt] at htarget ⊢
      rw [hatt]
      refine List.mem_filter.2 ⟨htarget, ?_⟩
      cases hp : p target with
      | false => rfl
      | true =>
        have := href k hk hkt r' hr'
        rw [Row.refersTo_iff.2 ⟨target.id, List.mem_map_of_mem (List.mem_filter.2 ⟨htarget, hp⟩), hi⟩] at this
        cases this
    · obtain ⟨target', htarget', hclear', -, -⟩ := hmid.kept _ target htarget fun h hh ht hdrop => absurd ht.symm (hfits.leaf h hh hdrop k hk)
      exact ⟨target', by rwa [hat _ hkt], hclear'.id⟩
  · obtain ⟨r, hr, -, hcols, -⟩ := hmid.old _ r' (hsub _ r' hr')
    rcases hcols k.column with hcol | ⟨h, hh, ht, hc, hdrop⟩
    · rw [hcol]
      exact hwhole.notNull k hk hnull r hr
    · rw [hfits.nullable h hh hdrop k hk ht.symm hc.symm] at hnull
      cases hnull
  · rintro t' r hr ⟨rfl, hp⟩
    exact hgone r hr hp
  · by_cases ht' : t' = t
    · subst ht'
      refine Or.inl ⟨rfl, ?_⟩
      rw [hatt] at hno
      simpa [List.mem_filter, hr] using hno
    · rw [hat t' ht'] at hno
      refine Or.inr ?_
      -- otherwise no listed column of the row refers to a deleted row, and it is kept as it is
      by_contra hnone
      have hrefers : ∀ h ∈ hs, h.table = t' → r.refersTo h.column (((db t).filter p).map Row.id) = false := by
        intro h hh ht
        cases hre : r.refersTo h.column (((db t).filter p).map Row.id) with
        | false => rfl
        | true =>
          obtain ⟨i, hi, hri⟩ := Row.refersTo_iff.1 hre
          obtain ⟨target, htarget, rfl⟩ := List.mem_map.1 hi
          obtain ⟨htarget, hp⟩ := List.mem_filter.1 htarget
          obtain ⟨k, hk, hkt, hkc, hktarget⟩ := hfits.declared h hh
          exact absurd ⟨t, target.id, ⟨k, hk, hkt.trans ht, hktarget, hkc ▸ hri⟩, hgone target htarget hp⟩ hnone
      obtain ⟨r', hr', -, -, heq⟩ := hmid.kept t' r hr fun h hh ht _ => hrefers h hh ht
      rw [heq hrefers] at hr'
      exact hno hr'
  · obtain ⟨r, hr, hclear, -, -⟩ := hmid.old t' r' (hsub t' r' hr')
    exact ⟨r, hr, hclear.id.symm⟩
  · obtain ⟨r, hr, hclear, -, -⟩ := hmid.old t' r' (hsub t' r' hr')
    exact ⟨r, hr, hclear⟩

end Delete
end Database
end Lib
