import PiHerder.Lib.Relational

/-!
# A list of deletes against foreign keys

`runEdits` does one edit of a database after the other and fails at the first that a foreign key forbids. Apart from failing it is
`effects`, so that what a run does is said without the keys (`runEdits_iff`), and what it may do without the run (`Edit.Allowed`).

* `covered` — what an edit sees to stays seen to, whatever comes after it;
* `mem_effects` — a table of which rows are only deleted;
* `runEdits_whole`, `effects_frame` — every reference stays whole, and a row that no edit hits stays as it is.
-/
namespace Lib
namespace Database
variable {T C δ : Type} [DecidableEq T] [DecidableEq C]

inductive Edit (T C δ : Type)
  | delete (t : T) (p : Row C δ → Bool)
  | clear (t : T) (c : C) (ids : List Nat)

namespace Edit

def table : Edit T C δ → T
  | delete t _ => t
  | clear t _ _ => t

def run (S : List (ForeignKey T C)) : Edit T C δ → Database T C δ → Option (Database T C δ)
  | delete t p => deleteRows S t p
  | clear t c ids => clearRefs S t c ids

/-- What it does where no key forbids it. -/
def effect : Edit T C δ → Database T C δ → Database T C δ
  | delete t p, db => Function.update db t ((db t).filter fun r => !p r)
  | clear t c ids, db => Function.update db t ((db t).map fun r => if r.refersTo c ids then r.clear c else r)

/-- No key forbids it. -/
def Allowed (S : List (ForeignKey T C)) : Edit T C δ → Database T C δ → Prop
  | delete t p, db => ∀ k ∈ S, k.target = t → ∀ r ∈ (delete t p).effect db k.table, r.refersTo k.column (((db t).filter p).map Row.id) = false
  | clear t c ids, db => (∀ r ∈ db t, r.refersTo c ids = false) ∨ ∀ k ∈ S, k.table = t → k.column = c → k.nullable = true

/-- The rows that it deletes or clears. -/
def Hits : Edit T C δ → T → Row C δ → Prop
  | delete t' p, t, r => t' = t ∧ p r = true
  | clear t' c ids, t, r => t' = t ∧ r.refersTo c ids = true

/-- After it no row of `t` refers to `ids` by `c`. -/
def Covers : Edit T C δ → T → C → List Nat → Prop
  | delete t' p, t, c, ids => t' = t ∧ ∀ r : Row C δ, r.refersTo c ids = true → p r = true
  | clear t' c' ids', t, c, ids => t' = t ∧ c' = c ∧ ids' = ids

variable {S : List (ForeignKey T C)} {e : Edit T C δ} {db db' : Database T C δ}

theorem run_iff : e.run S db = some db' ↔ e.Allowed S db ∧ db' = e.effect db := by
  cases e with
  | delete t p =>
    have hreferenced : referenced S t (((db t).filter p).map Row.id) ((delete t p).effect db) = true ↔ ¬ (delete t p).Allowed S db := by
      simp [referenced, Allowed]
    unfold run deleteRows
    simp only
    split
    · rename_i h
      simp [hreferenced.1 h]
    · rename_i h
      rw [Option.some.injEq, eq_comm]
      exact ⟨fun heq => ⟨not_not.1 fun hno => h (hreferenced.2 hno), heq⟩, And.right⟩
  | clear t c ids =>
    have hrefused : ((db t).any (·.refersTo c ids) && S.any fun k => decide (k.table = t) && decide (k.column = c) && !k.nullable) = true ↔
        ¬ (clear t c ids).Allowed S db := by
      simp [Allowed, and_assoc]
    show clearRefs S t c ids db = some db' ↔ _
    unfold clearRefs
    split
    · rename_i h
      simp [hrefused.1 h]
    · rename_i h
      rw [Option.some.injEq, eq_comm]
      exact ⟨fun heq => ⟨not_not.1 fun hno => h (hrefused.2 hno), heq⟩, And.right⟩

theorem effect_other {t : T} (h : e.table ≠ t) : e.effect db t = db t := by
  cases e <;> exact Function.update_of_ne (Ne.symm h) _ _

/-- A row after an edit is an old one, with a column cleared or not. -/
theorem effect_old {t : T} {r' : Row C δ} (h : r' ∈ e.effect db t) : ∃ r ∈ db t, r.Cleared r' := by
  by_cases ht : e.table = t
  · cases e with
    | delete t' p =>
      obtain rfl : t' = t := ht
      rw [effect, Function.update_self] at h
      exact ⟨r', List.mem_of_mem_filter h, .refl r'⟩
    | clear t' c ids =>
      obtain rfl : t' = t := ht
      rw [effect, Function.update_self] at h
      obtain ⟨r, hr, rfl⟩ := List.mem_map.1 h
      refine ⟨r, hr, ?_⟩
      split
      · exact Row.cleared_clear c r
      · exact .refl r
  · rw [effect_other ht] at h
    exact ⟨r', h, .refl r'⟩

theorem effect_ids (t : T) : ((e.effect db t).map Row.id).Sublist ((db t).map Row.id) := by
  by_cases ht : e.table = t
  · cases e with
    | delete t' p =>
      obtain rfl : t' = t := ht
      rw [effect, Function.update_self]
      exact List.filter_sublist.map _
    | clear t' c ids =>
      obtain rfl : t' = t := ht
      rw [effect, Function.update_self, List.map_map]
      have hsame : ∀ r, (Row.id ∘ fun r : Row C δ => if r.refersTo c ids then r.clear c else r) r = r.id := by
        intro r
        simp only [Function.comp]
        split <;> rfl
      rw [List.map_congr_left fun r _ => hsame r]
  · rw [effect_other ht]

/-- **Frame.** A row that the edit does not hit. -/
theorem effect_frame {t : T} {r : Row C δ} (hr : r ∈ db t) (h : ¬ e.Hits t r) : r ∈ e.effect db t := by
  by_cases ht : e.table = t
  · cases e with
    | delete t' p =>
      obtain rfl : t' = t := ht
      rw [effect, Function.update_self]
      exact List.mem_filter.2 ⟨hr, by simpa [Hits] using h⟩
    | clear t' c ids =>
      obtain rfl : t' = t := ht
      rw [effect, Function.update_self]
      exact List.mem_map.2 ⟨r, hr, if_neg fun hc => h ⟨rfl, hc⟩⟩
  · rwa [effect_other ht]

/-- A row that the edit does not delete is there, cleared or not. -/
theorem effect_kept {t : T} {r : Row C δ} (hr : r ∈ db t) (h : ∀ p, e = delete t p → p r = false) : ∃ r' ∈ e.effect db t, r.Cleared r' := by
  by_cases ht : e.table = t
  · cases e with
    | delete t' p =>
      obtain rfl : t' = t := ht
      refine ⟨r, ?_, .refl r⟩
      rw [effect, Function.update_self]
      exact List.mem_filter.2 ⟨hr, by simp [h p rfl]⟩
    | clear t' c ids =>
      obtain rfl : t' = t := ht
      rw [effect, Function.update_self]
      refine ⟨_, List.mem_map_of_mem hr, ?_⟩
      split
      · exact Row.cleared_clear c r
      · exact .refl r
  · exact ⟨r, by rwa [effect_other ht], .refl r⟩

theorem Covers.effect {t : T} {c : C} {ids : List Nat} (h : e.Covers t c ids) {r : Row C δ} (hr : r ∈ e.effect db t) : r.refersTo c ids = false := by
  cases e with
  | delete t' p =>
    obtain ⟨rfl, hp⟩ := h
    rw [Edit.effect, Function.update_self, List.mem_filter] at hr
    by_contra hrefers
    rw [hp r (by simpa using hrefers)] at hr
    simp at hr
  | clear t' c' ids' =>
    obtain ⟨rfl, rfl, rfl⟩ := h
    rw [Edit.effect, Function.update_self] at hr
    obtain ⟨r₀, -, rfl⟩ := List.mem_map.1 hr
    split
    · simp [Row.refersTo, Row.clear]
    · rename_i h
      simpa using h

/-- An edit that is allowed keeps every reference whole. -/
theorem Allowed.whole (h : e.Allowed S db) (hwhole : Whole S db) : Whole S (e.effect db) := by
  have hnever : ∀ k ∈ S, k.nullable = false → ∀ r' ∈ e.effect db k.table, ∃ r ∈ db k.table, r'.ref k.column = r.ref k.column := by
    intro k hk hnull r' hr'
    by_cases ht : e.table = k.table
    · cases e with
      | delete t p =>
        obtain rfl : t = k.table := ht
        rw [Edit.effect, Function.update_self] at hr'
        exact ⟨r', List.mem_of_mem_filter hr', rfl⟩
      | clear t c ids =>
        obtain rfl : t = k.table := ht
        rw [Edit.effect, Function.update_self] at hr'
        obtain ⟨r, hr, rfl⟩ := List.mem_map.1 hr'
        refine ⟨r, hr, ?_⟩
        rcases h with hnone | hnullable
        · rw [if_neg (by simp [hnone r hr])]
        · have hne : k.column ≠ c := fun hc => by
            rw [hnullable k hk rfl hc] at hnull
            simp at hnull
          split
          · exact if_neg hne
          · rfl
    · rw [effect_other ht] at hr'
      exact ⟨r', hr', rfl⟩
  refine ⟨fun t => (hwhole.ids t).sublist (effect_ids t), fun k hk r' hr' i hi => ?_, fun k hk hnull r' hr' => ?_⟩
  · obtain ⟨r, hr, hcleared⟩ := effect_old hr'
    have href : r.ref k.column = some i := by
      rcases hcleared.ref k.column with hsame | hnone
      · rw [← hsame, hi]
      · rw [hnone] at hi
        simp at hi
    obtain ⟨target, htarget, hid⟩ := hwhole.refs k hk r hr i href
    by_cases ht : e.table = k.target
    · cases e with
      | delete t p =>
        obtain rfl : t = k.target := ht
        have hfree := h k hk rfl r' hr'
        refine ⟨target, ?_, hid⟩
        rw [Edit.effect, Function.update_self]
        refine List.mem_filter.2 ⟨htarget, ?_⟩
        by_contra hp
        rw [Bool.not_eq_true, Bool.not_eq_false'] at hp
        have hrefers : r'.refersTo k.column (((db k.target).filter p).map Row.id) = true :=
          Row.refersTo_iff.2 ⟨i, List.mem_map.2 ⟨target, List.mem_filter.2 ⟨htarget, hp⟩, hid⟩, hi⟩
        rw [hrefers] at hfree
        simp at hfree
      | clear t c ids =>
        obtain ⟨r'', hr'', hcleared'⟩ := effect_kept (e := clear t c ids) htarget (by simp)
        exact ⟨r'', hr'', hcleared'.id.trans hid⟩
    · exact ⟨target, by rwa [effect_other ht], hid⟩
  · obtain ⟨r, hr, hsame⟩ := hnever k hk hnull r' hr'
    rw [hsame]
    exact hwhole.notNull k hk hnull r hr

/-- A table that no key refers to. -/
theorem allowed_leaf {t : T} {p : Row C δ → Bool} (h : ∀ k ∈ S, k.target ≠ t) : (delete t p).Allowed S db :=
  fun k hk ht => absurd ht (h k hk)

/-- A table that one column refers to. -/
theorem allowed_single {t u : T} {c : C} {p : Row C δ → Bool} (hne : u ≠ t) (hkeys : ∀ k ∈ S, k.target = t → k.table = u ∧ k.column = c)
    (hkey : ∃ k ∈ S, k.target = t) : (delete t p).Allowed S db ↔ ∀ r ∈ db u, ∀ x ∈ db t, p x = true → r.ref c ≠ some x.id := by
  have hrefers : ∀ r : Row C δ, r.refersTo c (((db t).filter p).map Row.id) = false ↔ ∀ x ∈ db t, p x = true → r.ref c ≠ some x.id := by
    intro r
    rw [← Bool.not_eq_true, Row.refersTo_iff]
    simp [and_imp]
  constructor
  · obtain ⟨k, hk, ht⟩ := hkey
    obtain ⟨rfl, rfl⟩ := hkeys k hk ht
    intro h r hr
    refine (hrefers r).1 (h k hk ht r ?_)
    rwa [effect_other (e := delete t p) hne.symm]
  · intro h k hk ht r hr
    obtain ⟨rfl, rfl⟩ := hkeys k hk ht
    rw [effect_other (e := delete t p) hne.symm] at hr
    exact (hrefers r).2 (h r hr)

theorem allowed_nullable {t : T} {c : C} {ids : List Nat} (h : ∀ k ∈ S, k.table = t → k.column = c → k.nullable = true) :
    (clear t c ids).Allowed S db := Or.inr h

end Edit

/-! ## Runs of edits -/

def runEdits (S : List (ForeignKey T C)) : List (Edit T C δ) → Database T C δ → Option (Database T C δ)
  | [], db => some db
  | e :: es, db => (e.run S db).bind (runEdits S es)

def effects (es : List (Edit T C δ)) (db : Database T C δ) : Database T C δ := es.foldl (fun db e => e.effect db) db

def AllAllowed (S : List (ForeignKey T C)) : List (Edit T C δ) → Database T C δ → Prop
  | [], _ => True
  | e :: es, db => e.Allowed S db ∧ AllAllowed S es (e.effect db)

section Runs
variable {S : List (ForeignKey T C)} {es : List (Edit T C δ)} {db db' : Database T C δ} {t : T}

theorem runEdits_iff : runEdits S es db = some db' ↔ AllAllowed S es db ∧ db' = effects es db := by
  induction es generalizing db with
  | nil => simp [runEdits, AllAllowed, effects, eq_comm]
  | cons e es ih =>
    simp only [runEdits, Option.bind_eq_some_iff, Edit.run_iff, ih, AllAllowed, effects, List.foldl_cons]
    constructor
    · rintro ⟨mid, ⟨hallowed, rfl⟩, hrest, rfl⟩
      exact ⟨⟨hallowed, hrest⟩, rfl⟩
    · rintro ⟨⟨hallowed, hrest⟩, rfl⟩
      exact ⟨_, ⟨hallowed, rfl⟩, hrest, rfl⟩

theorem effects_append (es es' : List (Edit T C δ)) (db : Database T C δ) : effects (es ++ es') db = effects es' (effects es db) :=
  List.foldl_append ..

theorem allAllowed_append {es' : List (Edit T C δ)} : AllAllowed S (es ++ es') db ↔ AllAllowed S es db ∧ AllAllowed S es' (effects es db) := by
  induction es generalizing db with
  | nil => simp [AllAllowed, effects]
  | cons e es ih => simp only [List.cons_append, AllAllowed, ih, effects, List.foldl_cons, and_assoc]

theorem effects_other (h : ∀ e ∈ es, e.table ≠ t) : effects es db t = db t := by
  induction es generalizing db with
  | nil => rfl
  | cons e es ih =>
    have hrest : effects es (e.effect db) t = e.effect db t := ih fun e' he' => h e' (by simp [he'])
    exact hrest.trans (Edit.effect_other (h e (by simp)))

theorem effects_old {r' : Row C δ} (h : r' ∈ effects es db t) : ∃ r ∈ db t, r.Cleared r' := by
  induction es generalizing db with
  | nil => exact ⟨r', h, .refl r'⟩
  | cons e es ih =>
    obtain ⟨r, hr, hcleared⟩ := ih h
    obtain ⟨r₀, hr₀, hcleared₀⟩ := Edit.effect_old hr
    exact ⟨r₀, hr₀, hcleared₀.trans hcleared⟩

/-- **Frame.** A row that no edit hits stays as it is. -/
theorem effects_frame {r : Row C δ} (hr : r ∈ db t) (h : ∀ e ∈ es, ¬ e.Hits t r) : r ∈ effects es db t := by
  induction es generalizing db with
  | nil => exact hr
  | cons e es ih => exact ih (Edit.effect_frame hr (h e (by simp))) fun e' he' => h e' (by simp [he'])

/-- A table of which no rows are deleted. -/
theorem effects_kept {r : Row C δ} (hr : r ∈ db t) (h : ∀ p, Edit.delete t p ∉ es) : ∃ r' ∈ effects es db t, r.Cleared r' := by
  induction es generalizing db r with
  | nil => exact ⟨r, hr, .refl r⟩
  | cons e es ih =>
    obtain ⟨r', hr', hcleared⟩ := Edit.effect_kept (e := e) hr fun p hp => absurd (hp ▸ List.mem_cons_self) (h p)
    obtain ⟨r'', hr'', hcleared'⟩ := ih hr' fun p hp => h p (List.mem_cons_of_mem e hp)
    exact ⟨r'', hr'', hcleared.trans hcleared'⟩

/-- What one of the edits sees to. -/
theorem covered {e : Edit T C δ} (he : e ∈ es) {c : C} {ids : List Nat} (h : e.Covers t c ids) {r : Row C δ} (hr : r ∈ effects es db t) :
    r.refersTo c ids = false := by
  obtain ⟨before, after, rfl⟩ := List.append_of_mem he
  rw [effects_append] at hr
  obtain ⟨r₀, hr₀, hcleared⟩ : ∃ r₀ ∈ e.effect (effects before db) t, r₀.Cleared r := effects_old hr
  exact hcleared.refersTo (h.effect hr₀)

/-- A table of which rows are only deleted. -/
theorem mem_effects (h : ∀ c ids, Edit.clear t c ids ∉ es) {r : Row C δ} : r ∈ effects es db t ↔ r ∈ db t ∧ ∀ e ∈ es, ¬ e.Hits t r := by
  induction es generalizing db with
  | nil => simp [effects]
  | cons e es ih =>
    have hrest : r ∈ effects es (e.effect db) t ↔ r ∈ e.effect db t ∧ ∀ e ∈ es, ¬ e.Hits t r := ih fun c ids hc => h c ids (List.mem_cons_of_mem e hc)
    have hfirst : r ∈ e.effect db t ↔ r ∈ db t ∧ ¬ e.Hits t r := by
      by_cases ht : e.table = t
      · cases e with
        | delete t' p =>
          obtain rfl : t' = t := ht
          simp [Edit.effect, Edit.Hits]
        | clear t' c ids =>
          obtain rfl : t' = t := ht
          exact absurd List.mem_cons_self (h c ids)
      · have hno : ¬ e.Hits t r := by
          cases e <;> exact fun hhits => ht hhits.1
        rw [Edit.effect_other ht]
        exact ⟨fun hr => ⟨hr, hno⟩, And.left⟩
    show r ∈ effects es (e.effect db) t ↔ _
    rw [hrest, hfirst, List.forall_mem_cons, and_assoc]

theorem AllAllowed.whole (h : AllAllowed S es db) (hwhole : Whole S db) : Whole S (effects es db) := by
  induction es generalizing db with
  | nil => exact hwhole
  | cons e es ih => exact ih h.2 (h.1.whole hwhole)

/-- **A run that goes through keeps every reference whole.** -/
theorem runEdits_whole (hrun : runEdits S es db = some db') (hwhole : Whole S db) : Whole S db' := by
  obtain ⟨hallowed, rfl⟩ := runEdits_iff.1 hrun
  exact hallowed.whole hwhole

end Runs

end Database
end Lib
