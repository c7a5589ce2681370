import Mathlib

/-!
# Tables of rows

A table is a list of rows; `key` reads a row's primary key, and `lookup` is `session.get`. A `Keyed`
table carries the uniqueness of its keys: `modify` writes one row, `insert` adds a row under a new key.

`Lens` is a column, or a group of columns, of a row. `moveRows L s t` is `UPDATE … SET L = t WHERE L = s`:
it leaves the rows outside `s` alone.
-/
namespace Lib
namespace Table
variable {R K : Type}

/-- `session.get`: the first row with this key. -/
def lookup [DecidableEq K] (key : R → K) (k : K) (rows : List R) : Option R :=
  rows.find? fun r => decide (key r = k)

variable [DecidableEq K] {key : R → K}

theorem lookup_key {k : K} {rows : List R} {r : R} (h : lookup key k rows = some r) : key r = k := by
  simpa using List.find?_some h

theorem lookup_mem {k : K} {rows : List R} {r : R} (h : lookup key k rows = some r) : r ∈ rows :=
  List.mem_of_find?_eq_some h

/-- A row-wise write that leaves the key alone commutes with `lookup`. -/
theorem lookup_map {f : R → R} (hf : ∀ r, key (f r) = key r) (k : K) (rows : List R) :
    lookup key k (rows.map f) = (lookup key k rows).map f := by
  simp only [lookup, List.find?_map, Function.comp_def, hf]

/-- Where the key tells the rows apart, a row is found under its own. -/
theorem lookup_iff {rows : List R} (h : (rows.map key).Nodup) {k : K} {r : R} : lookup key k rows = some r ↔ r ∈ rows ∧ key r = k := by
  refine ⟨fun hr => ⟨lookup_mem hr, lookup_key hr⟩, ?_⟩
  rintro ⟨hmem, rfl⟩
  cases hfound : lookup key (key r) rows with
  | none =>
    have hnone := List.find?_eq_none.1 hfound r hmem
    simp at hnone
  | some r' => rw [List.inj_on_of_nodup_map h (lookup_mem hfound) hmem (lookup_key hfound)]

theorem lookup_eq_none {rows : List R} {k : K} : lookup key k rows = none ↔ k ∉ rows.map key := by
  simp [lookup, List.find?_eq_none]

theorem lookup_append_some {k : K} {rows more : List R} {r : R} (h : lookup key k rows = some r) :
    lookup key k (rows ++ more) = some r := by
  simp only [lookup, List.find?_append] at h ⊢
  simp [h]

end Table

/-! ## Tables with unique keys -/

/-- Rows with pairwise different keys. -/
structure Keyed (R K : Type) (key : R → K) where
  rows : List R
  nodup : (rows.map key).Nodup

namespace Keyed
variable {R K : Type} {key : R → K}

instance [DecidableEq R] : DecidableEq (Keyed R K key) := fun a b =>
  decidable_of_iff (a.rows = b.rows) ⟨fun h => by cases a; cases b; simp_all, fun h => h ▸ rfl⟩

/-- Two rows of one key are one row. -/
theorem eq_of_key (t : Keyed R K key) {r r' : R} (hr : r ∈ t.rows) (hr' : r' ∈ t.rows) (h : key r = key r') :
    r = r' :=
  List.inj_on_of_nodup_map t.nodup hr hr' h

/-- A write of every row that leaves the keys alone. -/
def map (t : Keyed R K key) (f : R → R) (hf : ∀ r, key (f r) = key r) : Keyed R K key :=
  ⟨t.rows.map f, by rw [List.map_map, show key ∘ f = key from funext hf]; exact t.nodup⟩

@[simp] theorem map_rows (t : Keyed R K key) (f : R → R) (hf : ∀ r, key (f r) = key r) :
    (t.map f hf).rows = t.rows.map f := rfl

/-- A write of the row `k`. -/
def modify [DecidableEq K] (t : Keyed R K key) (k : K) (f : R → R) (hf : ∀ r, key (f r) = key r) : Keyed R K key :=
  t.map (fun r => if key r = k then f r else r) fun r => by split <;> simp [hf]

/-- A new row under a new key. -/
def insert (t : Keyed R K key) (r : R) (h : key r ∉ t.rows.map key) : Keyed R K key :=
  ⟨t.rows ++ [r], by
    rw [List.map_append, List.nodup_append]
    refine ⟨t.nodup, by simp, fun a ha b hb => ?_⟩
    obtain rfl : b = key r := by simpa using hb
    rintro rfl
    exact h ha⟩

@[simp] theorem insert_rows (t : Keyed R K key) (r : R) (h : key r ∉ t.rows.map key) :
    (t.insert r h).rows = t.rows ++ [r] := rfl

/-- **Frame.** A row of another key survives a write. -/
theorem mem_modify_of_ne [DecidableEq K] {t : Keyed R K key} {k : K} {f : R → R} (hf : ∀ r, key (f r) = key r)
    {r : R} (hr : r ∈ t.rows) (hk : key r ≠ k) : r ∈ (t.modify k f hf).rows :=
  List.mem_map.2 ⟨r, hr, if_neg hk⟩

/-- The rows after a write. -/
theorem mem_modify [DecidableEq K] {t : Keyed R K key} {k : K} {f : R → R} (hf : ∀ r, key (f r) = key r) {r' : R} :
    r' ∈ (t.modify k f hf).rows ↔ ∃ r ∈ t.rows, r' = if key r = k then f r else r := by
  simp only [modify, map_rows, List.mem_map]
  exact ⟨fun ⟨r, hr, e⟩ => ⟨r, hr, e.symm⟩, fun ⟨r, hr, e⟩ => ⟨r, hr, e.symm⟩⟩

end Keyed

/-- The next row id. -/
def freshId (ids : List Nat) : Nat := ids.foldr max 0 + 1

theorem freshId_not_mem (ids : List Nat) : freshId ids ∉ ids := by
  have hle : ∀ i ∈ ids, i ≤ ids.foldr max 0 := by
    induction ids with
    | nil => simp
    | cons j js ih =>
      intro i hi
      rcases List.mem_cons.1 hi with rfl | hi
      · exact Nat.le_max_left _ _
      · exact Nat.le_trans (ih i hi) (Nat.le_max_right _ _)
  intro h
  have := hle _ h
  unfold freshId at this
  omega

/-- Rows compared one by one: a transitive comparison of rows is one of tables. -/
theorem forall₂_trans {R : Type} {r : R → R → Prop} (htrans : ∀ a b c, r a b → r b c → r a c) {as bs cs : List R}
    (h : List.Forall₂ r as bs) (h' : List.Forall₂ r bs cs) : List.Forall₂ r as cs := by
  induction h generalizing cs with
  | nil => exact h'
  | cons hab _ ih =>
    cases h' with
    | cons hbc htail => exact .cons (htrans _ _ _ hab hbc) (ih htail)

/-! ## Columns -/

/-- A readable and writable group of columns. -/
structure Lens (R S : Type) where
  get : R → S
  set : S → R → R
  get_set : ∀ s r, get (set s r) = s
  set_get : ∀ r, set (get r) r = r
  set_set : ∀ s t r, set s (set t r) = set s r

namespace Lens
variable {R S : Type} [DecidableEq S]

/-- `SET L = t WHERE L = s`, on one row. -/
def move (L : Lens R S) (s t : S) (r : R) : R := if L.get r = s then L.set t r else r

/-- `UPDATE rows SET L = t WHERE L = s`. -/
def moveRows (L : Lens R S) (s t : S) (rows : List R) : List R := rows.map (L.move s t)

theorem move_of_ne {L : Lens R S} {s t : S} {r : R} (h : L.get r ≠ s) : L.move s t r = r := if_neg h

/-- Row by row, an update changes the columns of the rows of `s`, and nothing else. -/
theorem moveRows_forall₂ (L : Lens R S) (s t : S) (rows : List R) :
    List.Forall₂ (fun r r' => r' = r ∨ (L.get r = s ∧ r' = L.set t r)) rows (L.moveRows s t rows) := by
  rw [moveRows, List.forall₂_map_right_iff, List.forall₂_same]
  intro r _
  by_cases h : L.get r = s
  · exact Or.inr ⟨h, if_pos h⟩
  · exact Or.inl (move_of_ne h)

end Lens
end Lib
