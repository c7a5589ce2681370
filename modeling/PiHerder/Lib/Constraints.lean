import Mathlib
import PiHerder.Lib.Table

/-!
# A database that enforces its constraints

A `Store` has rows in tables, and a sequence for each table's ids; a row is what it reads in every column. `Constraints`
name the id column, the foreign keys and the unique columns. `write` puts one row under its id and fails when the row
clashes with another one or refers to nothing. It keeps the database `Whole` (`Wrote.whole`).

Steps over a list of rows run in `Option`: `foldlM_keeps` follows those that succeed.
-/
namespace Lib

/-! ## Steps over a list -/

section Steps
variable {σ α : Type} {f : σ → α → Option σ}

/-- What each step keeps, with the elements that are done, holds when all are. -/
theorem foldlM_keeps {P : List α → σ → Prop} : ∀ {done xs : List α} {s s' : σ},
    (∀ pre a post, xs = pre ++ a :: post → ∀ m m', P (done ++ pre) m → f m a = some m' → P (done ++ pre ++ [a]) m') →
    P done s → xs.foldlM f s = some s' → P (done ++ xs) s'
  | done, [], s, s', _, hs, h => by
    obtain rfl : s = s' := by simpa using h
    rwa [List.append_nil]
  | done, a :: xs, s, s', hstep, hs, h => by
    rw [List.foldlM_cons] at h
    obtain ⟨m, hm, hrest⟩ := Option.bind_eq_some_iff.1 h
    have hone : P (done ++ [a]) m := by
      have := hstep [] a xs rfl s m
      rw [List.append_nil] at this
      exact this hs hm
    have hrest' : ∀ pre b post, xs = pre ++ b :: post → ∀ m m', P (done ++ [a] ++ pre) m → f m b = some m' →
        P (done ++ [a] ++ pre ++ [b]) m' := fun pre b post hsplit m m' => by
      simpa using hstep (a :: pre) b post (by rw [hsplit, List.cons_append]) m m'
    have := foldlM_keeps hrest' hone hrest
    simpa using this

/-- The same, from the first row on. -/
theorem foldlM_keeps_all {P : List α → σ → Prop} {xs : List α} {s s' : σ}
    (hstep : ∀ pre a post, xs = pre ++ a :: post → ∀ m m', P pre m → f m a = some m' → P (pre ++ [a]) m')
    (hs : P [] s) (h : xs.foldlM f s = some s') : P xs s' := by
  have hkeeps : P ([] ++ xs) s' := foldlM_keeps (P := P) hstep hs h
  exact hkeeps

end Steps

/-! ## Constraints -/

structure Constraints (T C V : Type) where
  id : C
  null : V
  /-- A column, and the table whose ids it holds. -/
  refs : T → List (C × T)
  uniques : T → List (List C)

structure Store (T C V : Type) where
  rows : T → List (C → V)
  /-- The last number that the table's sequence gave. -/
  serial : T → Nat

namespace Constraints
variable {T C V : Type}

/-- Two rows agree in columns that are unique together; a null agrees with nothing. -/
def Clash (K : Constraints T C V) (cs : List C) (r r' : C → V) : Prop := ∀ c ∈ cs, r c = r' c ∧ r c ≠ K.null

instance [DecidableEq V] (K : Constraints T C V) (cs : List C) (r r' : C → V) : Decidable (K.Clash cs r r') :=
  inferInstanceAs (Decidable (∀ c ∈ cs, _))

/-- The reference is null, or to one of these rows. -/
def Finds (K : Constraints T C V) (v : V) (parents : List (C → V)) : Prop := v = K.null ∨ ∃ p ∈ parents, p K.id = v

instance [DecidableEq V] (K : Constraints T C V) (v : V) (parents : List (C → V)) : Decidable (K.Finds v parents) :=
  inferInstanceAs (Decidable (_ ∨ _))

theorem Clash.symm {K : Constraints T C V} {cs : List C} {r r' : C → V} (h : K.Clash cs r r') : K.Clash cs r' r :=
  fun c hc => ⟨(h c hc).1.symm, (h c hc).1 ▸ (h c hc).2⟩

theorem Finds.mono {K : Constraints T C V} {v : V} {parents more : List (C → V)} (h : K.Finds v parents)
    (hids : ∀ p ∈ parents, ∃ q ∈ more, q K.id = p K.id) : K.Finds v more := by
  rcases h with h | ⟨p, hp, hv⟩
  · exact Or.inl h
  · obtain ⟨q, hq, hqp⟩ := hids p hp
    exact Or.inr ⟨q, hq, hqp.trans hv⟩

end Constraints

namespace Store
variable {T C V : Type}

/-- Ids are unique, unique columns are, and every reference finds its row. -/
structure Whole (K : Constraints T C V) (db : Store T C V) : Prop where
  ids : ∀ t, ((db.rows t).map (· K.id)).Nodup
  uniques : ∀ t, ∀ cs ∈ K.uniques t, ∀ r ∈ db.rows t, ∀ r' ∈ db.rows t, K.Clash cs r r' → r K.id = r' K.id
  refs : ∀ t, ∀ r ∈ db.rows t, ∀ k ∈ K.refs t, K.Finds (r k.1) (db.rows k.2)

variable [DecidableEq V] {K : Constraints T C V} {db : Store T C V} {t : T}

/-- `session.get`. -/
def get (K : Constraints T C V) (t : T) (i : V) (db : Store T C V) : Option (C → V) := Table.lookup (· K.id) i (db.rows t)

omit [DecidableEq V] in
theorem Whole.row_eq (h : db.Whole K) {r r' : C → V} (hr : r ∈ db.rows t) (hr' : r' ∈ db.rows t) (hid : r K.id = r' K.id) :
    r = r' := List.inj_on_of_nodup_map (h.ids t) hr hr' hid

theorem get_eq_none {i : V} : db.get K t i = none ↔ ∀ r ∈ db.rows t, r K.id ≠ i := by
  simp [get, Table.lookup]

theorem get_mem {i : V} {r : C → V} (h : db.get K t i = some r) : r ∈ db.rows t ∧ r K.id = i :=
  ⟨Table.lookup_mem h, @Table.lookup_key (C → V) V _ (fun r => r K.id) i (db.rows t) r h⟩

/-! ## One write -/

/-- Put a row under its id. -/
def put (K : Constraints T C V) (rows : List (C → V)) (row : C → V) : List (C → V) :=
  if row K.id ∈ rows.map (· K.id) then rows.map fun r => if r K.id = row K.id then row else r else rows ++ [row]

/-- The statement is accepted: no other row clashes, and every reference finds its row. -/
def Admits (K : Constraints T C V) (t : T) (row : C → V) (db : Store T C V) : Prop :=
  (∀ r ∈ db.rows t, r K.id ≠ row K.id → ∀ cs ∈ K.uniques t, ¬ K.Clash cs r row) ∧
    ∀ k ∈ K.refs t, K.Finds (row k.1) (db.rows k.2)

instance (K : Constraints T C V) (t : T) (row : C → V) (db : Store T C V) : Decidable (db.Admits K t row) :=
  inferInstanceAs (Decidable (_ ∧ _))

theorem mem_put {rows : List (C → V)} {row r : C → V} :
    r ∈ put K rows row ↔ r = row ∨ r ∈ rows ∧ r K.id ≠ row K.id := by
  unfold put
  split
  · rename_i htaken
    obtain ⟨old, hold, hid⟩ := List.mem_map.1 htaken
    rw [List.mem_map]
    constructor
    · rintro ⟨x, hx, rfl⟩
      by_cases h : x K.id = row K.id
      · exact Or.inl (if_pos h)
      · exact Or.inr ⟨by rwa [if_neg h], by rwa [if_neg h]⟩
    · rintro (rfl | ⟨hr, hne⟩)
      · exact ⟨old, hold, if_pos hid⟩
      · exact ⟨r, hr, if_neg hne⟩
  · rename_i hnew
    rw [List.mem_append, List.mem_singleton]
    constructor
    · rintro (hr | rfl)
      · exact Or.inr ⟨hr, fun h => hnew (h ▸ List.mem_map_of_mem hr)⟩
      · exact Or.inl rfl
    · rintro (rfl | ⟨hr, -⟩)
      · exact Or.inr rfl
      · exact Or.inl hr

theorem put_ids (rows : List (C → V)) (row : C → V) : (put K rows row).map (· K.id) =
    if row K.id ∈ rows.map (· K.id) then rows.map (· K.id) else rows.map (· K.id) ++ [row K.id] := by
  unfold put
  split
  · rw [List.map_map]
    refine List.map_congr_left fun r _ => ?_
    by_cases h : r K.id = row K.id
    · simp [h]
    · simp [h]
  · simp

theorem put_nodup {rows : List (C → V)} {row : C → V} (h : (rows.map (· K.id)).Nodup) :
    ((put K rows row).map (· K.id)).Nodup := by
  rw [put_ids]
  split
  · exact h
  · rename_i hnew
    rw [List.nodup_append]
    refine ⟨h, by simp, fun a ha b hb => ?_⟩
    rw [List.mem_singleton] at hb
    rintro rfl
    exact hnew (hb ▸ ha)

variable [DecidableEq T]

def write (K : Constraints T C V) (t : T) (row : C → V) (db : Store T C V) : Option (Store T C V) :=
  if db.Admits K t row then some { db with rows := Function.update db.rows t (put K (db.rows t) row) } else none

/-- A row under the next number of the table's sequence; a number that is taken is refused. -/
def insertSerial [DecidableEq C] (K : Constraints T C V) (number : Nat → V) (t : T) (row : C → V) (db : Store T C V) :
    Option (Store T C V) :=
  let n := db.serial t + 1
  if (db.get K t (number n)).isSome then none
  else write K t (Function.update row K.id (number n)) { db with serial := Function.update db.serial t n }

/-- `db'` is `db` with a row put under its id. -/
structure Wrote (K : Constraints T C V) (t : T) (row : C → V) (db db' : Store T C V) : Prop where
  admits : db.Admits K t row
  rows : db'.rows = Function.update db.rows t (put K (db.rows t) row)

variable {db' : Store T C V} {row : C → V}

theorem write_wrote (h : db.write K t row = some db') : Wrote K t row db db' := by
  unfold write at h
  split at h
  · rename_i hadmits
    obtain rfl := Option.some.inj h
    exact ⟨hadmits, rfl⟩
  · exact nomatch h

theorem insertSerial_wrote [DecidableEq C] {number : Nat → V} (h : db.insertSerial K number t row = some db') :
    Wrote K t (Function.update row K.id (number (db.serial t + 1))) db db' ∧
      ∀ r ∈ db.rows t, r K.id ≠ number (db.serial t + 1) := by
  unfold insertSerial at h
  dsimp only at h
  split at h
  · exact nomatch h
  · rename_i hfree
    obtain ⟨hadmits, hrows⟩ := write_wrote h
    exact ⟨⟨hadmits, hrows⟩, get_eq_none.1 (Option.not_isSome_iff_eq_none.1 hfree)⟩

theorem write_serial (h : db.write K t row = some db') : db'.serial = db.serial := by
  unfold write at h
  split at h
  · obtain rfl := Option.some.inj h
    rfl
  · exact nomatch h

theorem insertSerial_serial [DecidableEq C] {number : Nat → V} (h : db.insertSerial K number t row = some db') :
    db'.serial = Function.update db.serial t (db.serial t + 1) := by
  unfold insertSerial at h
  dsimp only at h
  split at h
  · exact nomatch h
  · exact write_serial h

namespace Wrote

theorem here (h : Wrote K t row db db') : db'.rows t = put K (db.rows t) row := by
  rw [h.rows]
  exact Function.update_self ..

theorem other (h : Wrote K t row db db') {t' : T} (ht : t' ≠ t) : db'.rows t' = db.rows t' := by
  rw [h.rows]
  exact Function.update_of_ne ht ..

theorem mem (h : Wrote K t row db db') {r : C → V} : r ∈ db'.rows t ↔ r = row ∨ r ∈ db.rows t ∧ r K.id ≠ row K.id := by
  rw [h.here, mem_put]

/-- A write loses no id. -/
theorem ids (h : Wrote K t row db db') (t' : T) {p : C → V} (hp : p ∈ db.rows t') : ∃ q ∈ db'.rows t', q K.id = p K.id := by
  by_cases ht : t' = t
  · subst ht
    by_cases hid : p K.id = row K.id
    · exact ⟨row, h.mem.2 (Or.inl rfl), hid.symm⟩
    · exact ⟨p, h.mem.2 (Or.inr ⟨hp, hid⟩), rfl⟩
  · exact ⟨p, by rwa [h.other ht], rfl⟩

/-- **A write keeps the database whole.** -/
theorem whole (h : Wrote K t row db db') (hdb : db.Whole K) : db'.Whole K := by
  obtain ⟨hclash, hrefs⟩ := h.admits
  refine ⟨fun t' => ?_, fun t' cs hcs r hr r' hr' hcl => ?_, fun t' r hr k hk => ?_⟩
  · by_cases ht : t' = t
    · subst ht
      rw [h.here]
      exact put_nodup (hdb.ids t')
    · rw [h.other ht]
      exact hdb.ids t'
  · by_cases ht : t' = t
    · subst ht
      rcases h.mem.1 hr with rfl | ⟨hr, hne⟩ <;> rcases h.mem.1 hr' with rfl | ⟨hr', hne'⟩
      · rfl
      · exact absurd hcl.symm (hclash r' hr' hne' cs hcs)
      · exact absurd hcl (hclash r hr hne cs hcs)
      · exact hdb.uniques t' cs hcs r hr r' hr' hcl
    · rw [h.other ht] at hr hr'
      exact hdb.uniques t' cs hcs r hr r' hr' hcl
  · have hold : K.Finds (r k.1) (db.rows k.2) := by
      by_cases ht : t' = t
      · subst ht
        rcases h.mem.1 hr with rfl | ⟨hr, -⟩
        · exact hrefs k hk
        · exact hdb.refs t' r hr k hk
      · rw [h.other ht] at hr
        exact hdb.refs t' r hr k hk
    exact hold.mono fun p hp => h.ids k.2 hp

end Wrote

end Store
end Lib
