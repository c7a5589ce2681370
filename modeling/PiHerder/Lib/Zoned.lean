import Mathlib

/-!
# Instants, and what the clock on the wall shows

Instants and wall times count microseconds. A `Zone` tells what the clock shows at each instant; where it is put back a stretch of
wall times comes twice, and `fold` tells the second pass. A `Zoned` is an aware `datetime`: adding to it moves the clock, not the
instant, and forgets the pass. A `Ticks` is a set of instants, each on a whole second, given by the first one from any instant on.
-/
namespace Lib

def second : Int := 1000000
def minute : Int := 60 * second
def day : Int := 24 * 60 * minute

/-! ## Zones -/

/-- What a clock shows, and in which pass. -/
structure Zoned where
  wall : Int
  fold : Bool
deriving DecidableEq, Repr

namespace Zoned

/-- `d + timedelta(microseconds=n)`. -/
def plus (d : Zoned) (n : Int) : Zoned := ⟨d.wall + n, false⟩

/-- `d.date()`. -/
def date (d : Zoned) : Int := d.wall / day

end Zoned

/-- The clocks are changed at whole minutes, and where they are put back the first pass comes first. -/
structure Zone where
  offset : Int → Int
  fold : Int → Bool
  instant : Zoned → Int
  instant_now : ∀ t, instant ⟨t + offset t, fold t⟩ = t
  first_pass : ∀ t, fold t = true → instant ⟨t + offset t, false⟩ < t
  steady : ∀ t s, t % minute = 0 → t ≤ s → s < t + minute → offset s = offset t ∧ fold s = fold t

namespace Zone
variable (z : Zone)

/-- `t.astimezone(z)`. -/
def now (t : Int) : Zoned := ⟨t + z.offset t, z.fold t⟩

@[simp] theorem instant_of_now (t : Int) : z.instant (z.now t) = t := z.instant_now t

/-- The next microsecond of a whole second is in the same pass. -/
theorem now_add_one {t : Int} (ht : t % second = 0) : z.now (t + 1) = ⟨(z.now t).wall + 1, (z.now t).fold⟩ := by
  unfold second at ht
  have hstart : (t - t % minute) % minute = 0 := by unfold minute second; omega
  have hle : t - t % minute ≤ t := by unfold minute second; omega
  have hlt : t + 1 < t - t % minute + minute := by unfold minute second; omega
  obtain ⟨ho, hf⟩ := z.steady _ t hstart hle (by omega)
  obtain ⟨ho', hf'⟩ := z.steady _ (t + 1) hstart (by omega) hlt
  unfold now
  rw [ho, hf, ho', hf', Zoned.mk.injEq]
  exact ⟨add_right_comm t 1 _, rfl⟩

/-- In the first pass the clock's next microsecond is the next instant. -/
theorem instant_plus_one {t : Int} (ht : t % second = 0) (hfold : z.fold t = false) : z.instant ((z.now t).plus 1) = t + 1 := by
  have h := z.instant_of_now (t + 1)
  rw [z.now_add_one ht] at h
  rw [Zoned.plus, ← h]
  congr 2
  exact hfold.symm

/-- In the second pass it is one of the first. -/
theorem instant_plus_one_of_fold {t : Int} (ht : t % second = 0) (hfold : z.fold t = true) : z.instant ((z.now t).plus 1) ≤ t := by
  have hnext := z.now_add_one ht
  have hfold' : z.fold (t + 1) = true := by
    have := congrArg Zoned.fold hnext
    exact this.trans hfold
  have h := z.first_pass (t + 1) hfold'
  have hwall := congrArg Zoned.wall hnext
  simp only [now] at hwall
  rw [hwall] at h
  exact Int.lt_add_one_iff.1 h

/-- The zone without an offset. -/
def utc : Zone where
  offset _ := 0
  fold _ := false
  instant d := d.wall
  instant_now t := by simp
  first_pass t h := by simp at h
  steady t s _ _ _ := ⟨rfl, rfl⟩

end Zone

/-! ## Ticks -/

structure Ticks where
  next : Int → Option Int
  le : ∀ {t f}, next t = some f → t ≤ f
  again : ∀ {t f}, next t = some f → next f = some f
  least : ∀ {t g}, t ≤ g → next g = some g → ∃ f, next t = some f ∧ f ≤ g
  whole : ∀ {f}, next f = some f → f % second = 0

namespace Ticks
variable (T : Ticks)

/-- It ticks at `f`. -/
def At (f : Int) : Prop := T.next f = some f

instance (f : Int) : Decidable (T.At f) := inferInstanceAs (Decidable (_ = _))

theorem next_eq_some {t f : Int} : T.next t = some f ↔ T.At f ∧ t ≤ f ∧ ∀ g, T.At g → t ≤ g → f ≤ g := by
  constructor
  · intro h
    refine ⟨T.again h, T.le h, fun g hg hle => ?_⟩
    obtain ⟨f', hf', hfg⟩ := T.least hle hg
    obtain rfl := Option.some.inj (h.symm.trans hf')
    exact hfg
  · rintro ⟨hf, hle, hleast⟩
    obtain ⟨g, hg, hgf⟩ := T.least hle hf
    rw [hg, le_antisymm hgf (hleast g (T.again hg) (T.le hg))]

/-- Two ticks of one second are one. -/
theorem eq_of_lt {f g : Int} (hf : T.At f) (hg : T.At g) (h : f ≤ g) (hlt : g < f + second) : f = g := by
  have hf := T.whole hf
  have hg := T.whole hg
  unfold second at *
  omega

/-- The ticks from `a` on, before `b`. -/
def within (a b : Int) : Finset Int := ((Finset.range (b - a).toNat).image fun i : Nat => a + (i : Int)).filter T.At

theorem mem_within {a b g : Int} : g ∈ T.within a b ↔ (a ≤ g ∧ g < b) ∧ T.At g := by
  rw [within, Finset.mem_filter, Finset.mem_image]
  refine and_congr_left fun _ => ?_
  constructor
  · rintro ⟨i, hi, rfl⟩
    have hlt := Finset.mem_range.1 hi
    omega
  · intro h
    exact ⟨(g - a).toNat, Finset.mem_range.2 (by omega), by omega⟩

/-- The first tick of a stretch, and those after it. -/
theorem within_of_next {a b f c : Int} (h : T.next a = some f) (hf : f < b) (hc : f < c) (hrest : ∀ g, T.At g → f < g → c ≤ g) :
    T.within a b = insert f (T.within c b) := by
  obtain ⟨hat, hle, hleast⟩ := T.next_eq_some.1 h
  ext g
  rw [Finset.mem_insert, mem_within, mem_within]
  constructor
  · rintro ⟨⟨hag, hgb⟩, hg⟩
    rcases eq_or_lt_of_le (hleast g hg hag) with rfl | hlt
    · exact Or.inl rfl
    · exact Or.inr ⟨⟨hrest g hg hlt, hgb⟩, hg⟩
  · rintro (rfl | ⟨⟨hcg, hgb⟩, hg⟩)
    · exact ⟨⟨hle, hf⟩, hat⟩
    · exact ⟨⟨by omega, hgb⟩, hg⟩

/-- The last tick of a stretch, and those before it. -/
theorem within_of_next_last {s a f c : Int} (h : T.next a = some f) (hs : s ≤ a) (hc : f < c) (hrest : ∀ g, T.At g → f < g → c ≤ g) :
    T.within s c = insert f (T.within s a) := by
  obtain ⟨hat, hle, hleast⟩ := T.next_eq_some.1 h
  ext g
  rw [Finset.mem_insert, mem_within, mem_within]
  constructor
  · rintro ⟨⟨hsg, hgc⟩, hg⟩
    by_cases ha : g < a
    · exact Or.inr ⟨⟨hsg, ha⟩, hg⟩
    · refine Or.inl (le_antisymm ?_ (hleast g hg (not_lt.1 ha)))
      by_contra hlt
      have := hrest g hg (not_le.1 hlt)
      omega
  · rintro (rfl | ⟨⟨hsg, hga⟩, hg⟩)
    · exact ⟨⟨by omega, hc⟩, hat⟩
    · exact ⟨⟨hsg, by omega⟩, hg⟩

/-- Every `p` from instant 0 on, before and after it. -/
def every (p : Int) (hp : 0 < p) (hwhole : p % second = 0) : Ticks where
  next t := some (-(-t / p) * p)
  le {t f} h := by
    obtain rfl := Option.some.inj h
    have hfloor : -t / p * p ≤ -t := Int.ediv_mul_le _ (by omega)
    rw [neg_mul]
    omega
  again {t f} h := by
    obtain rfl := Option.some.inj h
    have : -(-(-t / p) * p) / p = -t / p := by
      rw [← neg_mul, neg_neg]
      exact Int.mul_ediv_cancel _ (by omega)
    rw [this]
  least {t g} hle hg := by
    refine ⟨_, rfl, ?_⟩
    have hg := Option.some.inj hg
    have hmono : -g / p * p ≤ -t / p * p := Int.mul_le_mul_of_nonneg_right (Int.ediv_le_ediv hp (by omega)) (by omega)
    rw [neg_mul] at hg ⊢
    omega
  whole {f} h := by
    have h := Option.some.inj h
    rw [← h]
    exact Int.emod_eq_zero_of_dvd ((Int.dvd_of_emod_eq_zero hwhole).mul_left _)

/-- Only at `c`. -/
def once (c : Int) (hwhole : c % second = 0) : Ticks where
  next t := if t ≤ c then some c else none
  le {t f} h := by
    split at h
    · obtain rfl := Option.some.inj h
      assumption
    · cases h
  again {t f} h := by
    split at h
    · obtain rfl := Option.some.inj h
      simp
    · cases h
  least {t g} hle hg := by
    split at hg
    · obtain rfl := Option.some.inj hg
      exact ⟨c, by simp [hle], le_rfl⟩
    · cases hg
  whole {f} h := by
    split at h
    · obtain rfl := Option.some.inj h
      exact hwhole
    · cases h

end Ticks
end Lib
