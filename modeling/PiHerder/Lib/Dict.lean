import Mathlib

/-!
# Insertion-ordered dictionaries

A dictionary is the list of its items in insertion order, as a Python `dict` is. `set` writes in
place when the key is there and appends otherwise.
-/
namespace Lib

abbrev Dict (K V : Type) := List (K × V)

namespace Dict
variable {K V : Type} [DecidableEq K]

/-- `d.get(k)`. -/
def get? (k : K) : Dict K V → Option V
  | [] => none
  | (k', v) :: d => if k = k' then some v else get? k d

/-- `d[k] = v`. -/
def set (k : K) (v : V) : Dict K V → Dict K V
  | [] => [(k, v)]
  | (k', v') :: d => if k = k' then (k, v) :: d else (k', v') :: set k v d

/-- `del d[k]`, and nothing when `k` is not there. -/
def del (k : K) : Dict K V → Dict K V
  | [] => []
  | (k', v') :: d => if k = k' then del k d else (k', v') :: del k d

/-- A write shows under its own key only. -/
theorem get?_set (k : K) (v : V) (k' : K) : ∀ d : Dict K V,
    get? k' (set k v d) = if k' = k then some v else get? k' d
  | [] => by simp [set, get?]
  | (k₀, v₀) :: d => by
    by_cases h0 : k = k₀
    · subst h0
      by_cases h : k' = k <;> simp [set, get?, h]
    · by_cases h : k' = k
      · subst h
        simp [set, get?, h0, get?_set k' v k' d]
      · simp [set, get?, h0, h, get?_set k v k' d]

/-- A deletion shows under its own key only. -/
theorem get?_del (k k' : K) : ∀ d : Dict K V, get? k' (del k d) = if k' = k then none else get? k' d
  | [] => by simp [del, get?]
  | (k₀, v₀) :: d => by
    have ih := get?_del k k' d
    by_cases h0 : k = k₀
    · subst h0
      by_cases h : k' = k
      · subst h
        simpa [del] using ih
      · simp [del, get?, h, ih]
    · by_cases h : k' = k₀
      · subst h
        simp [del, get?, h0, Ne.symm h0]
      · simp [del, get?, h0, h, ih]

/-- The first dictionary that has the key answers. -/
theorem get?_append (k : K) : ∀ d e : Dict K V, get? k (d ++ e) = (get? k d).or (get? k e)
  | [], e => rfl
  | (k₀, v₀) :: d, e => by
    by_cases h : k = k₀
    · simp [get?, h]
    · simp [get?, h, get?_append k d e]

/-- An entry that a filter keeps is found as before. -/
theorem get?_filter {k : K} {v : V} {q : K × V → Bool} (hq : q (k, v) = true) :
    ∀ {d : Dict K V}, get? k d = some v → get? k (d.filter q) = some v
  | (k₀, v₀) :: d, h => by
    by_cases hk : k = k₀
    · subst hk
      have hv : v₀ = v := by simpa [get?] using h
      subst hv
      simp [hq, get?]
    · have ih : get? k (d.filter q) = some v := get?_filter hq (by simpa [get?, hk] using h)
      by_cases hq₀ : q (k₀, v₀) = true <;> simp [hq₀, get?, hk, ih]

theorem mem_of_get? {k : K} {v : V} : ∀ {d : Dict K V}, get? k d = some v → (k, v) ∈ d
  | (k₀, v₀) :: d, h => by
    unfold get? at h
    split at h
    · rename_i hk; cases h; simp [hk]
    · exact List.mem_cons_of_mem _ (mem_of_get? h)

/-- The items after a write: the one written, and what was there. -/
theorem mem_set {k : K} {v : V} {e : K × V} : ∀ {d : Dict K V}, e ∈ set k v d → e = (k, v) ∨ e ∈ d
  | [], h => by simp only [set, List.mem_singleton] at h; exact Or.inl h
  | (k₀, v₀) :: d, h => by
    unfold set at h
    split at h
    · rcases List.mem_cons.1 h with h | h
      · exact Or.inl h
      · exact Or.inr (List.mem_cons_of_mem _ h)
    · rcases List.mem_cons.1 h with h | h
      · exact Or.inr (h ▸ List.mem_cons_self)
      · exact (mem_set h).imp_right (List.mem_cons_of_mem _)

/-! ## Keys -/

def keys (d : Dict K V) : List K := d.map Prod.fst

theorem get?_eq_none {k : K} : ∀ {d : Dict K V}, get? k d = none ↔ k ∉ keys d
  | [] => by simp [get?, keys]
  | (k₀, v₀) :: d => by
    have ih := @get?_eq_none k d
    by_cases h : k = k₀
    · simp [get?, keys, h]
    · simp only [keys] at ih
      simp [get?, keys, h, ih]

theorem eq_nil_of_get?_none {d : Dict K V} (h : ∀ k, get? k d = none) : d = [] := by
  cases d with
  | nil => rfl
  | cons e d => exact absurd (h e.1) (by simp [get?])

theorem del_sublist (k : K) : ∀ d : Dict K V, (del k d).Sublist d
  | [] => List.Sublist.refl _
  | (k₀, v₀) :: d => by
    by_cases h : k = k₀
    · simpa only [del, if_pos h] using (del_sublist k d).cons _
    · simpa only [del, if_neg h] using (del_sublist k d).cons_cons _

theorem del_of_not_mem {k : K} : ∀ {d : Dict K V}, k ∉ keys d → del k d = d
  | [], _ => rfl
  | (k₀, v₀) :: d, h => by
    simp only [keys, List.map_cons, List.mem_cons, not_or] at h
    simp only [del, if_neg h.1, @del_of_not_mem k d h.2]

theorem keys_del (k : K) : ∀ d : Dict K V, keys (del k d) = (keys d).filter fun x => decide (x ≠ k)
  | [] => rfl
  | (k₀, v₀) :: d => by
    have ih := keys_del k d
    simp only [keys] at ih
    by_cases h : k = k₀
    · subst h
      simp [del, keys, ih]
    · simp [del, keys, h, Ne.symm h, ih]

theorem set_of_not_mem {k : K} {v : V} : ∀ {d : Dict K V}, k ∉ keys d → set k v d = d ++ [(k, v)]
  | [], _ => rfl
  | (k₀, v₀) :: d, h => by
    simp only [keys, List.map_cons, List.mem_cons, not_or] at h
    simp only [set, if_neg h.1, @set_of_not_mem k v d h.2, List.cons_append]

/-- The items are the one of a key and the rest. -/
theorem perm_del {k : K} {v : V} : ∀ {d : Dict K V}, (keys d).Nodup → get? k d = some v → d.Perm ((k, v) :: del k d)
  | (k₀, v₀) :: d, hd, h => by
    obtain ⟨hk₀, hnd⟩ := List.nodup_cons.1 hd
    by_cases hk : k = k₀
    · subst hk
      obtain rfl : v₀ = v := by simpa [get?] using h
      simp only [del, if_true, del_of_not_mem hk₀]
      exact List.Perm.refl _
    · have ih := @perm_del k v d hnd (by simpa [get?, hk] using h)
      simp only [del, if_neg hk]
      exact (ih.cons _).trans (List.Perm.swap ..)

/-- After a write they are the one written and the rest. -/
theorem set_perm {k : K} {v : V} : ∀ {d : Dict K V}, (keys d).Nodup → (set k v d).Perm ((k, v) :: del k d)
  | [], _ => List.Perm.refl _
  | (k₀, v₀) :: d, hd => by
    obtain ⟨hk₀, hnd⟩ := List.nodup_cons.1 hd
    by_cases hk : k = k₀
    · subst hk
      simp only [set, del, if_true, del_of_not_mem hk₀]
      exact List.Perm.refl _
    · have ih := @set_perm k v d hnd
      simp only [set, del, if_neg hk]
      exact (ih.cons _).trans (List.Perm.swap ..)

theorem keys_del_nodup {k : K} {d : Dict K V} (h : (keys d).Nodup) : (keys (del k d)).Nodup := by
  rw [keys_del]
  exact h.filter _

theorem keys_set_nodup {k : K} {v : V} {d : Dict K V} (h : (keys d).Nodup) : (keys (set k v d)).Nodup := by
  have hp : (keys (set k v d)).Perm (k :: keys (del k d)) := (set_perm h).map Prod.fst
  rw [hp.nodup_iff, List.nodup_cons]
  refine ⟨?_, keys_del_nodup h⟩
  rw [keys_del]
  simp

theorem get?_filter_key (p : K → Bool) (k : K) : ∀ d : Dict K V, get? k (d.filter fun e => p e.1) = if p k then get? k d else none
  | [] => by simp [get?]
  | (k₀, v₀) :: d => by
    have ih := get?_filter_key p k d
    by_cases hp : p k₀ = true
    · by_cases hk : k = k₀
      · subst hk
        simp [hp, get?]
      · simp [hp, get?, hk, ih]
    · by_cases hk : k = k₀
      · subst hk
        simp [hp, ih]
      · simp [hp, get?, hk, ih]

omit [DecidableEq K] in
theorem keys_filter_nodup {d : Dict K V} (h : (keys d).Nodup) (p : K × V → Bool) : (keys (d.filter p)).Nodup :=
  h.sublist (List.filter_sublist.map Prod.fst)

theorem get?_map_value {W : Type} (f : V → W) (k : K) : ∀ d : Dict K V, get? k (d.map fun e => (e.1, f e.2)) = (get? k d).map f
  | [] => rfl
  | (k₀, v₀) :: d => by
    by_cases hk : k = k₀
    · simp [get?, hk]
    · simp [get?, hk, get?_map_value f k d]

theorem get?_map_item {W : Type} (f : K → V → W) (k : K) : ∀ d : Dict K V, get? k (d.map fun e => (e.1, f e.1 e.2)) = (get? k d).map (f k)
  | [] => rfl
  | (k₀, v₀) :: d => by
    by_cases hk : k = k₀
    · simp [get?, hk]
    · simp [get?, hk, get?_map_item f k d]

/-! ## Writes over a dictionary -/

/-- `d.update(e)`. -/
def update (d e : Dict K V) : Dict K V := e.foldl (fun out x => set x.1 x.2 out) d

theorem get?_of_mem {k : K} {v : V} : ∀ {d : Dict K V}, (keys d).Nodup → (k, v) ∈ d → get? k d = some v
  | (k₀, v₀) :: d, hd, h => by
    obtain ⟨hk₀, hnd⟩ := List.nodup_cons.1 hd
    rcases List.mem_cons.1 h with heq | hmem
    · cases heq
      simp [get?]
    · have hkey : k ∈ d.map Prod.fst := List.mem_map.2 ⟨(k, v), hmem, rfl⟩
      have hne : k ≠ k₀ := fun hk => hk₀ (hk ▸ hkey)
      rw [get?, if_neg hne, get?_of_mem hnd hmem]

theorem mem_set_iff {k : K} {v : V} {e : K × V} {d : Dict K V} (hd : (keys d).Nodup) :
    e ∈ set k v d ↔ e = (k, v) ∨ (e ∈ d ∧ e.1 ≠ k) := by
  have hget : e ∈ set k v d ↔ get? e.1 (set k v d) = some e.2 := ⟨get?_of_mem (keys_set_nodup hd), mem_of_get?⟩
  rw [hget, get?_set]
  by_cases hk : e.1 = k
  · rw [if_pos hk, Option.some.injEq]
    exact ⟨fun h => Or.inl (Prod.ext hk h.symm), fun h => (h.resolve_right fun h => h.2 hk) ▸ rfl⟩
  · rw [if_neg hk]
    exact ⟨fun h => Or.inr ⟨mem_of_get? h, hk⟩, fun h => get?_of_mem hd (h.resolve_left fun h => hk (h ▸ rfl)).1⟩

theorem set_ne_nil {k : K} {v : V} {d : Dict K V} : set k v d ≠ [] := by
  intro h
  have hget := get?_set k v k d
  rw [h, if_pos rfl] at hget
  cases hget

/-- The order of the items does not matter where no key is there twice. -/
theorem get?_perm {d e : Dict K V} (hd : (keys d).Nodup) (h : d.Perm e) (k : K) : get? k d = get? k e := by
  have he : (keys e).Nodup := (h.map Prod.fst).nodup_iff.1 hd
  cases hk : get? k e with
  | some v => exact get?_of_mem hd (h.mem_iff.2 (mem_of_get? hk))
  | none =>
    rw [get?_eq_none] at hk ⊢
    exact fun hmem => hk ((h.map Prod.fst).mem_iff.1 hmem)

theorem get?_filter_value (q : V → Bool) (k : K) : ∀ {d : Dict K V}, (keys d).Nodup →
    get? k (d.filter fun e => q e.2) = (get? k d).filter q
  | [], _ => rfl
  | (k₀, v₀) :: d, hd => by
    obtain ⟨hk₀, hnd⟩ := List.nodup_cons.1 hd
    have ih := get?_filter_value q k hnd
    by_cases hk : k = k₀
    · subst hk
      by_cases hq : q v₀ = true
      · simp [hq, get?, Option.filter]
      · rw [get?_eq_none.2 hk₀] at ih
        simpa [hq, get?, Option.filter] using ih
    · by_cases hq : q v₀ = true <;> simpa [hq, get?, hk] using ih

theorem set_append_cons {k : K} {v w : V} {e : Dict K V} : ∀ {d : Dict K V}, k ∉ keys d → set k v (d ++ (k, w) :: e) = d ++ (k, v) :: e
  | [], _ => if_pos rfl
  | (k₀, v₀) :: d, h => by
    simp only [keys, List.map_cons, List.mem_cons, not_or] at h
    rw [List.cons_append, set, if_neg h.1, set_append_cons h.2, List.cons_append]

/-- Every item is written over in its place. -/
theorem foldl_set_self (f : K × V → V) {d : Dict K V} (hd : (keys d).Nodup) :
    d.foldl (fun out e => set e.1 (f e) out) d = d.map fun e => (e.1, f e) := by
  suffices h : ∀ todo done : Dict K V, (keys (done ++ todo)).Nodup →
      todo.foldl (fun out e => set e.1 (f e) out) (done ++ todo) = done ++ todo.map fun e => (e.1, f e) from h d [] hd
  intro todo
  induction todo with
  | nil => exact fun done _ => rfl
  | cons e todo ih =>
    intro done hnd
    have hnotMem : e.1 ∉ keys done := by
      rw [keys, List.map_append, List.map_cons, List.nodup_append] at hnd
      exact fun h => hnd.2.2 _ h _ List.mem_cons_self rfl
    rw [List.foldl_cons, set_append_cons hnotMem]
    have hnext := ih (done ++ [(e.1, f e)]) (by simpa [keys] using hnd)
    rw [List.append_assoc, List.singleton_append] at hnext
    rw [hnext, List.append_assoc, List.map_cons, List.singleton_append]

/-- After items are written, a key of theirs has what was written last. -/
theorem get?_writes (f : K × V → V) (k : K) : ∀ {e : Dict K V}, (keys e).Nodup → ∀ d : Dict K V,
    get? k (e.foldl (fun out x => set x.1 (f x) out) d) = ((get? k e).map fun v => f (k, v)).or (get? k d)
  | [], _, d => rfl
  | (k₀, v₀) :: e, he, d => by
    obtain ⟨hk₀, hnd⟩ := List.nodup_cons.1 he
    rw [List.foldl_cons, get?_writes f k hnd, get?_set]
    by_cases hk : k = k₀
    · subst hk
      simp [get?, get?_eq_none.2 hk₀]
    · rw [if_neg hk, get?, if_neg hk]

theorem get?_update {k : K} {e : Dict K V} (he : (keys e).Nodup) (d : Dict K V) : get? k (update d e) = (get? k e).or (get? k d) := by
  rw [update, get?_writes Prod.snd k he d]
  cases get? k e <;> rfl

theorem mem_update {x : K × V} {e d : Dict K V} (h : x ∈ update d e) : x ∈ d ∨ x ∈ e := by
  refine List.foldlRecOn (motive := fun out : Dict K V => x ∈ out → x ∈ d ∨ x ∈ e) e _ Or.inl (fun out hout y hy hx => ?_) h
  rcases mem_set hx with rfl | hx
  · exact Or.inr hy
  · exact hout hx

theorem keys_update_nodup {d : Dict K V} (hd : (keys d).Nodup) (e : Dict K V) : (keys (update d e)).Nodup :=
  List.foldlRecOn (motive := fun out : Dict K V => (keys out).Nodup) e _ hd fun _ hout _ _ => keys_set_nodup hout

theorem update_nil_eq_nil {e : Dict K V} (he : (keys e).Nodup) : update [] e = [] ↔ e = [] := by
  refine ⟨fun h => eq_nil_of_get?_none fun k => ?_, fun h => by rw [h]; rfl⟩
  have hk := get?_update (k := k) he []
  rw [h] at hk
  simpa [get?] using hk.symm

/-- Steps that each give one key a value give those of their keys. -/
theorem get?_foldl_keys {σ : Type} (step : σ → K → σ) (dict : σ → Dict K V) (f : K → Option V)
    (h : ∀ s name k, get? k (dict (step s name)) = (if k = name then f k else none).or (get? k (dict s))) (k : K) :
    ∀ (names : List K) (s : σ), (k ∈ names → get? k (dict (names.foldl step s)) = (f k).or (get? k (dict s))) ∧
      (k ∉ names → get? k (dict (names.foldl step s)) = get? k (dict s))
  | [], s => ⟨fun hk => (List.not_mem_nil hk).elim, fun _ => rfl⟩
  | name :: names, s => by
    obtain ⟨hmem, hnot⟩ := get?_foldl_keys step dict f h k names (step s name)
    rw [h] at hmem hnot
    rw [List.foldl_cons]
    by_cases hk : k = name
    · rw [if_pos hk] at hmem hnot
      refine ⟨fun _ => ?_, fun hk' => absurd (hk ▸ List.mem_cons_self) hk'⟩
      by_cases hin : k ∈ names
      · rw [hmem hin]
        cases f k <;> rfl
      · exact hnot hin
    · rw [if_neg hk] at hmem hnot
      exact ⟨fun hin => hmem ((List.mem_cons.1 hin).resolve_left hk), fun hin => hnot fun h => hin (List.mem_cons_of_mem _ h)⟩

end Dict

/-- Items with each key once. -/
structure Mapping (K V : Type) where
  items : Dict K V
  nodup : items.keys.Nodup

/-! ## `list(dict.fromkeys(l))` -/

section
variable {α : Type} [BEq α] [LawfulBEq α]

theorem nodup_eraseDups (l : List α) : l.eraseDups.Nodup := by
  induction hn : l.length using Nat.strongRecOn generalizing l with
  | ind n ih =>
    cases l with
    | nil => exact List.nodup_nil
    | cons a l =>
      subst hn
      have hrest : (l.filter fun b => !b == a).length < (a :: l).length := Nat.lt_succ_of_le (List.length_filter_le _ _)
      rw [List.eraseDups_cons, List.nodup_cons, List.mem_eraseDups]
      exact ⟨by simp, ih _ hrest _ rfl⟩

theorem eraseDups_of_nodup : ∀ {l : List α}, l.Nodup → l.eraseDups = l
  | [], _ => rfl
  | a :: l, h => by
    obtain ⟨hnew, hl⟩ := List.nodup_cons.1 h
    have hfilter : (l.filter fun b => !b == a) = l := by
      refine List.filter_eq_self.2 fun b hb => ?_
      have hne : b ≠ a := by
        rintro rfl
        exact hnew hb
      simpa using hne
    rw [List.eraseDups_cons, hfilter, eraseDups_of_nodup hl]

end

end Lib
