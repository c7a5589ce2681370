/-!
# Effects that keep their state when they raise

`Eff σ ε α` is a computation over a state `σ` that ends with a value or with an exception, and in
both cases hands back the state it has reached: what was committed before the exception stays
committed. (`StateT σ (Except ε)` would forget it.)

* `Triple P m Q R` — the Hoare triple: from `P`, a return lands in `Q` and an exception in `R`;
* `Keeps P m` — `P` survives `m`, whichever way it ends;
* `forEach` — the `for` loop whose body may raise, with its invariant rule.
-/
namespace Lib

/-- A computation over `σ` that returns `α` or raises `ε`, keeping the state either way. -/
abbrev Eff (σ ε α : Type) : Type := σ → Except ε α × σ

namespace Eff
variable {σ ε α β : Type}

protected def pure (a : α) : Eff σ ε α := fun s => (.ok a, s)

protected def bind (m : Eff σ ε α) (f : α → Eff σ ε β) : Eff σ ε β := fun s =>
  match m s with
  | (.ok a, s') => f a s'
  | (.error e, s') => (.error e, s')

instance : Monad (Eff σ ε) where
  pure := Eff.pure
  bind := Eff.bind

def raise (e : ε) : Eff σ ε α := fun s => (.error e, s)
def get : Eff σ ε σ := fun s => (.ok s, s)
def modify (f : σ → σ) : Eff σ ε Unit := fun s => (.ok (), f s)

/-- What is read off the state, or raised for it. -/
def asks (f : σ → Except ε α) : Eff σ ε α := fun s => (f s, s)

/-- `try m except e: h e`. -/
def tryCatch (m : Eff σ ε α) (h : ε → Eff σ ε α) : Eff σ ε α := fun s =>
  match m s with
  | (.ok a, s') => (.ok a, s')
  | (.error e, s') => h e s'

/-- The result, or what was raised. -/
def attempt {φ : Type} (m : Eff σ φ α) : Eff σ ε (Except φ α) := fun s => (.ok (m s).1, (m s).2)

/-- `for x in xs: f x`. -/
def forEach (f : α → Eff σ ε Unit) : List α → Eff σ ε Unit
  | [] => pure ()
  | x :: xs => f x >>= fun _ => forEach f xs

/-- `[f x for x in xs]`. -/
def mapEach (f : α → Eff σ ε β) : List α → Eff σ ε (List β)
  | [] => pure []
  | x :: xs => do
    let y ← f x
    let ys ← mapEach f xs
    pure (y :: ys)

@[simp] theorem pure_apply (a : α) (s : σ) : (pure a : Eff σ ε α) s = (.ok a, s) := rfl

theorem bind_apply (m : Eff σ ε α) (f : α → Eff σ ε β) (s : σ) :
    (m >>= f) s = match m s with
      | (.ok a, s') => f a s'
      | (.error e, s') => (.error e, s') := rfl

@[simp] theorem raise_apply (e : ε) (s : σ) : (raise e : Eff σ ε α) s = (.error e, s) := rfl
@[simp] theorem get_apply (s : σ) : (get : Eff σ ε σ) s = (.ok s, s) := rfl
@[simp] theorem modify_apply (f : σ → σ) (s : σ) : (modify f : Eff σ ε Unit) s = (.ok (), f s) := rfl

theorem bind_of_ok {m : Eff σ ε α} {f : α → Eff σ ε β} {s s' : σ} {a : α} (h : m s = (.ok a, s')) :
    (m >>= f) s = f a s' := by
  rw [bind_apply, h]

theorem bind_of_error {m : Eff σ ε α} {f : α → Eff σ ε β} {s s' : σ} {e : ε} (h : m s = (.error e, s')) :
    (m >>= f) s = (.error e, s') := by
  rw [bind_apply, h]

/-- A sequence returns iff both halves do. -/
theorem bind_eq_ok {m : Eff σ ε α} {f : α → Eff σ ε β} {s t : σ} {b : β} :
    (m >>= f) s = (.ok b, t) ↔ ∃ a s', m s = (.ok a, s') ∧ f a s' = (.ok b, t) := by
  rw [bind_apply]
  constructor
  · intro h
    split at h
    · rename_i a s' hm; exact ⟨a, s', hm, h⟩
    · cases h
  · rintro ⟨a, s', hm, hf⟩; rw [hm]; exact hf

/-- What is read off first is had. -/
theorem asks_eq_ok {g : σ → Except ε α} {f : α → Eff σ ε β} {s t : σ} {b : β} :
    (asks g >>= f) s = (.ok b, t) ↔ ∃ a, g s = .ok a ∧ f a s = (.ok b, t) := by
  rw [bind_eq_ok]
  constructor
  · rintro ⟨a, s', hg, hf⟩
    obtain ⟨ha, rfl⟩ := Prod.mk.inj hg
    exact ⟨a, ha, hf⟩
  · rintro ⟨a, ha, hf⟩
    exact ⟨a, s, Prod.ext ha rfl, hf⟩

/-- A sequence raises iff the first half does, or the second after the first has returned. -/
theorem bind_eq_error {m : Eff σ ε α} {f : α → Eff σ ε β} {s t : σ} {e : ε} :
    (m >>= f) s = (.error e, t) ↔
      m s = (.error e, t) ∨ ∃ a s', m s = (.ok a, s') ∧ f a s' = (.error e, t) := by
  rw [bind_apply]
  constructor
  · intro h
    split at h
    · rename_i a s' hm; exact Or.inr ⟨a, s', hm, h⟩
    · rename_i e' s' hm; cases h; exact Or.inl hm
  · rintro (hm | ⟨a, s', hm, hf⟩)
    · rw [hm]
    · rw [hm]; exact hf

/-- Where what is read off first fails, nothing has been done. -/
theorem asks_eq_error {g : σ → Except ε α} {f : α → Eff σ ε β} {s t : σ} {e : ε} :
    (asks g >>= f) s = (.error e, t) ↔ g s = .error e ∧ t = s ∨ ∃ a, g s = .ok a ∧ f a s = (.error e, t) := by
  rw [bind_eq_error]
  constructor
  · rintro (hg | ⟨a, s', hg, hf⟩)
    · exact Or.inl ⟨(Prod.mk.inj hg).1, (Prod.mk.inj hg).2.symm⟩
    · obtain ⟨ha, rfl⟩ := Prod.mk.inj hg
      exact Or.inr ⟨a, ha, hf⟩
  · rintro (⟨hg, rfl⟩ | ⟨a, ha, hf⟩)
    · exact Or.inl (Prod.ext hg rfl)
    · exact Or.inr ⟨a, s, Prod.ext ha rfl, hf⟩

/-! ## Triples -/

/-- From `P`, a return of `a` satisfies `Q a` and an exception `e` satisfies `R e`. -/
def Triple (P : σ → Prop) (m : Eff σ ε α) (Q : α → σ → Prop) (R : ε → σ → Prop) : Prop :=
  ∀ s, P s → match m s with
    | (.ok a, t) => Q a t
    | (.error e, t) => R e t

theorem Triple.ok {P : σ → Prop} {m : Eff σ ε α} {Q : α → σ → Prop} {R : ε → σ → Prop}
    (h : Triple P m Q R) {s t : σ} {a : α} (hs : P s) (hm : m s = (.ok a, t)) : Q a t := by
  have := h s hs; rwa [hm] at this

theorem Triple.error {P : σ → Prop} {m : Eff σ ε α} {Q : α → σ → Prop} {R : ε → σ → Prop}
    (h : Triple P m Q R) {s t : σ} {e : ε} (hs : P s) (hm : m s = (.error e, t)) : R e t := by
  have := h s hs; rwa [hm] at this

theorem Triple.conseq {P P' : σ → Prop} {m : Eff σ ε α} {Q Q' : α → σ → Prop} {R R' : ε → σ → Prop}
    (h : Triple P m Q R) (hP : ∀ s, P' s → P s) (hQ : ∀ a s, Q a s → Q' a s)
    (hR : ∀ e s, R e s → R' e s) : Triple P' m Q' R' := by
  intro s hs
  have := h s (hP s hs)
  split at this
  · exact hQ _ _ this
  · exact hR _ _ this

theorem Triple.pure {P : σ → Prop} {Q : α → σ → Prop} {R : ε → σ → Prop} {a : α}
    (h : ∀ s, P s → Q a s) : Triple P (pure a) Q R := h

theorem Triple.raise {P : σ → Prop} {Q : α → σ → Prop} {R : ε → σ → Prop} {e : ε}
    (h : ∀ s, P s → R e s) : Triple P (raise e) Q R := h

theorem Triple.modify {P : σ → Prop} {Q : Unit → σ → Prop} {R : ε → σ → Prop} {f : σ → σ}
    (h : ∀ s, P s → Q () (f s)) : Triple P (modify f) Q R := h

theorem Triple.bind {P : σ → Prop} {m : Eff σ ε α} {f : α → Eff σ ε β} {M : α → σ → Prop}
    {Q : β → σ → Prop} {R : ε → σ → Prop} (hm : Triple P m M R) (hf : ∀ a, Triple (M a) (f a) Q R) :
    Triple P (m >>= f) Q R := by
  intro s hs
  rw [bind_apply]
  have h := hm s hs
  split at h
  · rename_i a t _; exact hf a t h
  · exact h

theorem Triple.tryCatch {P : σ → Prop} {m : Eff σ ε α} {h : ε → Eff σ ε α} {Q : α → σ → Prop}
    {M R : ε → σ → Prop} (hm : Triple P m Q M) (hh : ∀ e, Triple (M e) (h e) Q R) :
    Triple P (tryCatch m h) Q R := by
  intro s hs
  have h1 := hm s hs
  unfold Eff.tryCatch
  split at h1
  · exact h1
  · rename_i e t _; exact hh e t h1

/-- The loop rule: what the body keeps, the loop keeps. -/
theorem Triple.forEach {I : σ → Prop} {R : ε → σ → Prop} {f : α → Eff σ ε Unit} {xs : List α}
    (h : ∀ x ∈ xs, Triple I (f x) (fun _ => I) R) : Triple I (forEach f xs) (fun _ => I) R := by
  induction xs with
  | nil => exact Triple.pure fun _ hs => hs
  | cons x xs ih =>
    exact Triple.bind (h x (by simp)) fun _ => ih fun y hy => h y (by simp [hy])

/-- A loop raises at one item, when the items before it have returned. -/
theorem forEach_eq_error {f : α → Eff σ ε Unit} {e : ε} {t : σ} : ∀ {xs : List α} {s : σ}, forEach f xs s = (.error e, t) ↔
    ∃ before x rest s', xs = before ++ x :: rest ∧ forEach f before s = (.ok (), s') ∧ f x s' = (.error e, t)
  | [], s => by
    constructor
    · intro h
      cases h
    · rintro ⟨before, x, rest, s', hxs, -, -⟩
      exact absurd hxs.symm (List.append_ne_nil_of_right_ne_nil _ (List.cons_ne_nil _ _))
  | y :: ys, s => by
    rw [forEach, bind_eq_error]
    constructor
    · rintro (h | ⟨u, s₁, hy, h⟩)
      · exact ⟨[], y, ys, s, rfl, rfl, h⟩
      · obtain ⟨before, x, rest, s', rfl, hbefore, hx⟩ := forEach_eq_error.1 h
        exact ⟨y :: before, x, rest, s', rfl, bind_eq_ok.2 ⟨(), s₁, hy, hbefore⟩, hx⟩
    · rintro ⟨before, x, rest, s', hxs, hbefore, hx⟩
      cases before with
      | nil =>
        obtain ⟨rfl, rfl⟩ := List.cons.inj hxs
        obtain rfl := (Prod.mk.inj hbefore).2
        exact Or.inl hx
      | cons z before =>
        obtain ⟨rfl, rfl⟩ := List.cons.inj hxs
        obtain ⟨u, s₁, hy, hrest⟩ := bind_eq_ok.1 hbefore
        exact Or.inr ⟨(), s₁, hy, forEach_eq_error.2 ⟨before, x, rest, s', rfl, hrest, hx⟩⟩

/-! ## What survives whichever way the computation ends -/

/-- `P` holds after `m` when it held before, also when `m` raises. -/
def Keeps (P : σ → Prop) (m : Eff σ ε α) : Prop := ∀ s, P s → P (m s).2

theorem Keeps.run {P : σ → Prop} {m : Eff σ ε α} (h : Keeps P m) {s : σ} (hs : P s) : P (m s).2 := h s hs

theorem Keeps.triple {P : σ → Prop} {m : Eff σ ε α} (h : Keeps P m) :
    Triple P m (fun _ => P) (fun _ => P) := by
  intro s hs
  have := h s hs
  split <;> rename_i heq <;> rwa [heq] at this

theorem Keeps.of_triple {P : σ → Prop} {m : Eff σ ε α} (h : Triple P m (fun _ => P) (fun _ => P)) :
    Keeps P m := by
  intro s hs
  have := h s hs
  split at this <;> rename_i heq <;> rwa [heq]

theorem Keeps.pure {P : σ → Prop} (a : α) : Keeps P (pure a : Eff σ ε α) := fun _ hs => hs
theorem Keeps.raise {P : σ → Prop} (e : ε) : Keeps P (raise e : Eff σ ε α) := fun _ hs => hs
theorem Keeps.get {P : σ → Prop} : Keeps P (get : Eff σ ε σ) := fun _ hs => hs

theorem Keeps.modify {P : σ → Prop} {f : σ → σ} (h : ∀ s, P s → P (f s)) :
    Keeps P (modify f : Eff σ ε Unit) := h

theorem Keeps.bind {P : σ → Prop} {m : Eff σ ε α} {f : α → Eff σ ε β} (hm : Keeps P m)
    (hf : ∀ a, Keeps P (f a)) : Keeps P (m >>= f) :=
  .of_triple (Triple.bind hm.triple fun a => (hf a).triple)

theorem Keeps.tryCatch {P : σ → Prop} {m : Eff σ ε α} {h : ε → Eff σ ε α} (hm : Keeps P m)
    (hh : ∀ e, Keeps P (h e)) : Keeps P (tryCatch m h) :=
  .of_triple (Triple.tryCatch hm.triple fun e => (hh e).triple)

theorem Keeps.forEach {P : σ → Prop} {f : α → Eff σ ε Unit} {xs : List α}
    (h : ∀ x ∈ xs, Keeps P (f x)) : Keeps P (forEach f xs) :=
  .of_triple (Triple.forEach fun x hx => (h x hx).triple)

theorem Keeps.mapEach {P : σ → Prop} {f : α → Eff σ ε β} {xs : List α} (h : ∀ x ∈ xs, Keeps P (f x)) :
    Keeps P (mapEach f xs) := by
  induction xs with
  | nil => exact Keeps.pure []
  | cons x xs ih =>
    exact (h x (by simp)).bind fun _ => (ih fun y hy => h y (by simp [hy])).bind fun _ => Keeps.pure _

theorem Keeps.ite {P : σ → Prop} {c : Prop} [Decidable c] {m n : Eff σ ε α} (hm : Keeps P m)
    (hn : Keeps P n) : Keeps P (if c then m else n) := by
  split
  · exact hm
  · exact hn

/-- Where a sequence ends: where its first half does, or its second half after it. -/
theorem bind_state {P : σ → Prop} {m : Eff σ ε α} {f : α → Eff σ ε β} {s : σ} (hm : P (m s).2)
    (hf : ∀ a s', m s = (.ok a, s') → P (f a s').2) : P ((m >>= f) s).2 := by
  rw [bind_apply]
  split
  · rename_i a s' heq
    exact hf a s' heq
  · rename_i e s' heq
    rwa [heq] at hm

/-- What is read off first leaves the state. -/
theorem asks_state {P : σ → Prop} {g : σ → Except ε α} {f : α → Eff σ ε β} {s : σ} (hs : P s)
    (hf : ∀ a, g s = .ok a → P (f a s).2) : P ((asks g >>= f) s).2 :=
  bind_state hs fun a s' heq => by
    obtain ⟨ha, rfl⟩ := Prod.mk.inj heq
    exact hf a ha

theorem attempt_state {φ : Type} {P : σ → Prop} {m : Eff σ φ α} {f : Except φ α → Eff σ ε β} {s : σ}
    (hf : P (f (m s).1 (m s).2).2) : P ((attempt m >>= f) s).2 := hf

end Eff

/-! ## Checks that raise -/

/-- `if c: raise e`. -/
def raiseIf {ε : Type} (c : Prop) [Decidable c] (e : ε) : Except ε Unit := if c then .error e else .ok ()

theorem raiseIf_eq_ok {ε : Type} {c : Prop} [Decidable c] {e : ε} {u : Unit} : raiseIf c e = .ok u ↔ ¬ c := by
  unfold raiseIf; split <;> simp [*]

/-- A sequence of checks passes iff each does. -/
theorem except_bind_eq_ok {ε α β : Type} {x : Except ε α} {f : α → Except ε β} {b : β} :
    (x >>= f) = .ok b ↔ ∃ a, x = .ok a ∧ f a = .ok b := by
  cases x with
  | error e => simp [bind, Except.bind]
  | ok a => simp [bind, Except.bind]

/-- What every step of a loop keeps, the loop keeps. -/
theorem except_foldlM_keeps {ε α σ : Type} {P : σ → Prop} {f : σ → α → Except ε σ} : ∀ {xs : List α} {s s' : σ},
    (∀ a ∈ xs, ∀ m m', P m → f m a = .ok m' → P m') → P s → xs.foldlM f s = .ok s' → P s'
  | [], _, _, _, hs, h => Except.ok.inj h ▸ hs
  | x :: xs, s, s', hf, hs, h => by
    obtain ⟨m, hm, h⟩ := except_bind_eq_ok.1 h
    exact except_foldlM_keeps (fun a ha => hf a (List.mem_cons_of_mem x ha)) (hf x List.mem_cons_self s m hs hm) h

/-- What a list comprehension gives comes from one of the elements. -/
theorem exists_of_mem_mapM {ε α β : Type} {f : α → Except ε β} : ∀ {xs : List α} {ys : List β} {y : β}, xs.mapM f = .ok ys → y ∈ ys →
    ∃ x ∈ xs, f x = .ok y
  | [], ys, y, h, hy => by
    rw [List.mapM_nil] at h
    obtain rfl := Except.ok.inj h
    exact absurd hy List.not_mem_nil
  | x :: xs, ys, y, h, hy => by
    rw [List.mapM_cons] at h
    obtain ⟨z, hz, h⟩ := except_bind_eq_ok.1 h
    obtain ⟨zs, hzs, h⟩ := except_bind_eq_ok.1 h
    obtain rfl := Except.ok.inj h
    rcases List.mem_cons.1 hy with rfl | hy
    · exact ⟨x, List.mem_cons_self, hz⟩
    · obtain ⟨x', hx', hf⟩ := exists_of_mem_mapM hzs hy
      exact ⟨x', List.mem_cons_of_mem x hx', hf⟩

end Lib
