import Mathlib.Data.List.Forall2

/-! # Runs of edits

    An edit, a growth step and a ledger update are all computations with a
    state that is left behind even when they fail.  This module collects what
    is needed to reason about them without unfolding the monad again:

    - `Keeps P m`: whatever `m` does, it takes states with `P` to states with
      `P`, on success and on failure.  The rules follow the shape of the
      computation.
    - inversion: a sequence that succeeds is made of parts that succeed.
    - `FailsOnly P m s`: if `m` fails from `s`, it is with an error that has
      `P`.  `Ends E m s Q` also says what holds after a success. -/

namespace Dataflow

universe u

variable {ε σ α β : Type u}

/-! ## Section 1: What is left behind -/

/-- The state that a computation leaves behind, whether it succeeds or fails. -/
def stateOf : EStateM.Result ε σ α → σ
  | .ok _ s => s
  | .error _ s => s

@[simp] theorem stateOf_ok (a : α) (s : σ) :
    stateOf (.ok a s : EStateM.Result ε σ α) = s := rfl

@[simp] theorem stateOf_error (e : ε) (s : σ) :
    stateOf (.error e s : EStateM.Result ε σ α) = s := rfl

/-- Whether a computation succeeds. -/
def succeeds : EStateM.Result ε σ α → Bool
  | .ok _ _ => true
  | .error _ _ => false

/-- The result of a run and the state it leaves behind, if it succeeds. -/
def success? : EStateM.Result ε σ α → Option (α × σ)
  | .ok a s => some (a, s)
  | .error _ _ => none

theorem success?_eq_some {r : EStateM.Result ε σ α} {x : α × σ} :
    success? r = some x ↔ r = .ok x.1 x.2 := by
  cases r <;> simp [success?, Prod.ext_iff]

/-- The error of a run that fails. -/
def failure? : EStateM.Result ε σ α → Option ε
  | .ok _ _ => none
  | .error e _ => some e

theorem failure?_eq_some {r : EStateM.Result ε σ α} {e : ε} :
    failure? r = some e ↔ r = .error e (stateOf r) := by
  cases r <;> simp [failure?]

theorem eq_ok_of_succeeds {r : EStateM.Result ε σ PUnit} (h : succeeds r) :
    r = .ok ⟨⟩ (stateOf r) := by
  cases r with
  | ok _ _ => rfl
  | error _ _ => cases h

theorem eq_error_of_fails {r : EStateM.Result ε σ α} (h : succeeds r = false) :
    ∃ e, r = .error e (stateOf r) := by
  cases r with
  | ok _ _ => cases h
  | error e _ => exact ⟨e, rfl⟩

/-- `m` never leads out of `P`, not even when it fails. -/
def Keeps (P : σ → Prop) (m : EStateM ε σ α) : Prop :=
  ∀ s, P s → P (stateOf (m s))

namespace Keeps

variable {P : σ → Prop}

theorem pure (a : α) : Keeps P (Pure.pure a : EStateM ε σ α) :=
  fun _ hs => hs

theorem throw (e : ε) : Keeps P (MonadExcept.throw e : EStateM ε σ α) :=
  fun _ hs => hs

theorem bind {m : EStateM ε σ α} {f : α → EStateM ε σ β}
    (hm : Keeps P m) (hf : ∀ a, Keeps P (f a)) : Keeps P (m >>= f) := by
  intro s hs
  have hms := hm s hs
  change P (stateOf (EStateM.bind m f s))
  unfold EStateM.bind
  cases h : m s with
  | ok a s' =>
    rw [h] at hms
    exact hf a s' hms
  | error e s' =>
    rw [h] at hms
    exact hms

theorem get : Keeps P (MonadState.get : EStateM ε σ σ) :=
  fun _ hs => hs

theorem modify {f : σ → σ} (hf : ∀ s, P s → P (f s)) :
    Keeps P (modify f : EStateM ε σ PUnit) :=
  fun s hs => hf s hs

theorem forM {f : α → EStateM ε σ PUnit} (hf : ∀ a, Keeps P (f a)) (xs : List α) :
    Keeps P (xs.forM f) := by
  induction xs with
  | nil => exact pure _
  | cons x xs ih => exact bind (hf x) fun _ => ih

theorem mapM {f : α → EStateM ε σ β} (hf : ∀ a, Keeps P (f a)) (xs : List α) :
    Keeps P (xs.mapM f) := by
  induction xs with
  | nil => exact pure _
  | cons x xs ih =>
    simp only [List.mapM_cons]
    exact bind (hf x) fun _ => bind ih fun _ => pure _

/-- A sequence whose first part may leave `P`, as long as it does so on
    success only and the second part leads back. -/
theorem bind_of {Q : α → σ → Prop} {m : EStateM ε σ α} {f : α → EStateM ε σ β}
    (hok : ∀ s a s', P s → m s = .ok a s' → Q a s')
    (herror : ∀ s e s', P s → m s = .error e s' → P s')
    (hf : ∀ a s, Q a s → P (stateOf (f a s))) : Keeps P (m >>= f) := by
  intro s hs
  change P (stateOf (EStateM.bind m f s))
  unfold EStateM.bind
  cases h : m s with
  | ok a s' => exact hf a s' (hok s a s' hs h)
  | error e s' => exact herror s e s' hs h

end Keeps

/-! ## Section 2: Sequences that succeed -/

/-- A sequence of tests succeeds when both parts do. -/
theorem except_bind_eq_ok {x : Except ε α} {f : α → Except ε β} {b : β} :
    (x >>= f) = .ok b ↔ ∃ a, x = .ok a ∧ f a = .ok b := by
  cases x with
  | error e =>
    constructor
    · intro h
      cases h
    · rintro ⟨a, ha, -⟩
      cases ha
  | ok a =>
    constructor
    · intro h
      exact ⟨a, rfl, h⟩
    · rintro ⟨a', ha, h⟩
      cases ha
      exact h

/-- A sequence of tests fails where one of its parts does. -/
theorem except_bind_eq_error {x : Except ε α} {f : α → Except ε β} {e : ε} :
    (x >>= f) = .error e ↔ x = .error e ∨ ∃ a, x = .ok a ∧ f a = .error e := by
  cases x with
  | error e' =>
    constructor
    · intro h
      cases h
      exact .inl rfl
    · rintro (h | ⟨a, ha, -⟩)
      · cases h
        rfl
      · cases ha
  | ok a =>
    constructor
    · intro h
      exact .inr ⟨a, rfl, h⟩
    · rintro (h | ⟨a', ha, h⟩)
      · cases h
      · cases ha
        exact h

theorem except_isOk_iff {ε α : Type} {x : Except ε α} : x.isOk = true ↔ ∃ a, x = .ok a := by
  cases x <;> simp [Except.isOk, Except.toBool]

theorem toOption_eq_some {ε α : Type} {x : Except ε α} {a : α} :
    x.toOption = some a ↔ x = .ok a := by
  cases x <;> simp [Except.toOption]

theorem mapError_eq_ok {ε ε' α : Type} {x : Except ε α} {k : ε → ε'} {a : α} :
    x.mapError k = .ok a ↔ x = .ok a := by
  cases x <;> simp [Except.mapError]

theorem mapError_eq_error {ε ε' α : Type} {x : Except ε α} {k : ε → ε'} {e' : ε'} :
    x.mapError k = .error e' ↔ ∃ e, x = .error e ∧ k e = e' := by
  cases x <;> simp [Except.mapError]

/-- A sequence succeeds when both parts do, the second one from where the
    first one ended. -/
theorem bind_eq_ok {m : EStateM ε σ α} {f : α → EStateM ε σ β} {s s'' : σ} {b : β} :
    (m >>= f) s = .ok b s'' ↔ ∃ a s', m s = .ok a s' ∧ f a s' = .ok b s'' := by
  change EStateM.bind m f s = _ ↔ _
  unfold EStateM.bind
  cases h : m s with
  | ok a s' =>
    constructor
    · intro hf
      exact ⟨a, s', rfl, hf⟩
    · rintro ⟨a', t, ht, hf⟩
      cases ht
      exact hf
  | error e s' =>
    constructor
    · intro hf
      cases hf
    · rintro ⟨a', t, ht, _⟩
      cases ht

/-- A sequence fails where one of its parts does. -/
theorem bind_eq_error {m : EStateM ε σ α} {f : α → EStateM ε σ β} {s s'' : σ} {e : ε} :
    (m >>= f) s = .error e s'' ↔
      m s = .error e s'' ∨ ∃ a s', m s = .ok a s' ∧ f a s' = .error e s'' := by
  change EStateM.bind m f s = _ ↔ _
  unfold EStateM.bind
  cases h : m s with
  | ok a s' =>
    constructor
    · intro hf
      exact .inr ⟨a, s', rfl, hf⟩
    · rintro (ht | ⟨a', t, ht, hf⟩)
      · cases ht
      · cases ht
        exact hf
  | error e' s' =>
    constructor
    · intro hf
      cases hf
      exact .inl rfl
    · rintro (ht | ⟨a', t, ht, _⟩)
      · cases ht
        rfl
      · cases ht

@[simp] theorem pure_eq_ok {s s' : σ} {a b : α} :
    (Pure.pure a : EStateM ε σ α) s = .ok b s' ↔ a = b ∧ s = s' := by
  change EStateM.Result.ok a s = .ok b s' ↔ _
  simp

@[simp] theorem throw_ne_ok {s s' : σ} {e : ε} {b : α} :
    ¬ (MonadExcept.throw e : EStateM ε σ α) s = .ok b s' := by
  intro h
  cases h

@[simp] theorem get_eq_ok {s s' t : σ} :
    (MonadState.get : EStateM ε σ σ) s = .ok t s' ↔ s = t ∧ s = s' := by
  change EStateM.Result.ok s s = .ok t s' ↔ _
  simp

@[simp] theorem set_eq_ok {s s' t : σ} {u : PUnit} :
    (MonadState.set t : EStateM ε σ PUnit) s = .ok u s' ↔ s' = t := by
  change EStateM.Result.ok PUnit.unit t = .ok u s' ↔ _
  simp [eq_comm]

@[simp] theorem modify_eq_ok {f : σ → σ} {s s' : σ} {u : PUnit} :
    (modify f : EStateM ε σ PUnit) s = .ok u s' ↔ s' = f s := by
  change EStateM.Result.ok PUnit.unit (f s) = .ok u s' ↔ _
  simp [eq_comm]

theorem forM_cons_eq_ok {f : α → EStateM ε σ PUnit} {x : α} {xs : List α} {s s' : σ} {u : PUnit} :
    (x :: xs).forM f s = .ok u s' ↔ ∃ v t, f x s = .ok v t ∧ xs.forM f t = .ok u s' :=
  bind_eq_ok

/-- A loop that fails has done its first rounds, and the next one fails. -/
theorem forM_stops {f : α → EStateM ε σ PUnit} {xs : List α} {s s' : σ} {e : ε}
    (h : xs.forM f s = .error e s') :
    ∃ done x rest t, xs = done ++ x :: rest ∧ done.forM f s = .ok ⟨⟩ t ∧ f x t = .error e s' := by
  induction xs generalizing s with
  | nil => cases h
  | cons x xs ih =>
    rcases bind_eq_error.1 h with hx | ⟨_, t, hx, hxs⟩
    · exact ⟨[], x, xs, s, rfl, rfl, hx⟩
    · obtain ⟨done, y, rest, t', rfl, hdone, hy⟩ := ih hxs
      exact ⟨x :: done, y, rest, t', rfl, forM_cons_eq_ok.2 ⟨_, t, hx, hdone⟩, hy⟩

/-- A loop that succeeds keeps what each of its rounds keeps. -/
theorem forM_ok {P : σ → Prop} {f : α → EStateM ε σ PUnit} {xs : List α} {s s' : σ} {u : PUnit}
    (h : xs.forM f s = .ok u s') (hs : P s)
    (hf : ∀ x ∈ xs, ∀ t t' v, P t → f x t = .ok v t' → P t') : P s' := by
  induction xs generalizing s with
  | nil =>
    obtain ⟨-, rfl⟩ := pure_eq_ok.1 h
    exact hs
  | cons x xs ih =>
    obtain ⟨v, t, hx, hxs⟩ := forM_cons_eq_ok.1 h
    refine ih hxs (hf x List.mem_cons_self s t v hs hx) ?_
    intro y hy
    exact hf y (List.mem_cons_of_mem x hy)

/-- What a computation keeps in any case, it keeps when it succeeds. -/
theorem Keeps.ok {P : σ → Prop} {m : EStateM ε σ α} (hm : Keeps P m) {s s' : σ} {a : α} (hs : P s)
    (h : m s = .ok a s') : P s' := by
  have hkeep := hm s hs
  rwa [h] at hkeep

/-- Success and failure may be looked at apart. -/
theorem Keeps.of_cases {P : σ → Prop} {m : EStateM ε σ α}
    (hok : ∀ s a s', P s → m s = .ok a s' → P s')
    (herror : ∀ s e s', P s → m s = .error e s' → P s') : Keeps P m := by
  intro s hs
  cases h : m s with
  | ok a s' => exact hok s a s' hs h
  | error e s' => exact herror s e s' hs h

/-! ## Section 3: Lists of tests -/

/-- A fold that succeeds keeps what each of its steps keeps. -/
theorem foldlM_ok {ε σ α : Type} {P : σ → Prop} {f : σ → α → Except ε σ} {xs : List α} {s s' : σ}
    (h : xs.foldlM f s = .ok s') (hs : P s)
    (hf : ∀ x ∈ xs, ∀ t t', P t → f t x = .ok t' → P t') : P s' := by
  induction xs generalizing s with
  | nil =>
    cases h
    exact hs
  | cons x xs ih =>
    rw [List.foldlM_cons] at h
    obtain ⟨t, hx, h⟩ := except_bind_eq_ok.1 h
    exact ih h (hf x List.mem_cons_self s t hs hx) fun y hy => hf y (List.mem_cons_of_mem x hy)

/-- A fold that succeeds has done each of its steps. -/
theorem foldlM_steps {ε α β : Type} {f : β → α → Except ε β} {xs : List α} {b b' : β}
    (h : xs.foldlM f b = .ok b') : ∀ x ∈ xs, ∃ c c', f c x = .ok c' := by
  induction xs generalizing b with
  | nil => exact fun x hx => nomatch hx
  | cons x xs ih =>
    rw [List.foldlM_cons] at h
    obtain ⟨c, hx, hrest⟩ := except_bind_eq_ok.1 h
    intro y hy
    rcases List.mem_cons.1 hy with rfl | hy
    · exact ⟨b, c, hx⟩
    · exact ih hrest y hy

/-- A fold fails at one of its steps. -/
theorem foldlM_eq_error {ε α β : Type} {f : β → α → Except ε β} {xs : List α} {b : β} {e : ε}
    (h : xs.foldlM f b = .error e) : ∃ x ∈ xs, ∃ b', f b' x = .error e := by
  induction xs generalizing b with
  | nil => cases h
  | cons x xs ih =>
    rw [List.foldlM_cons] at h
    rcases except_bind_eq_error.1 h with hx | ⟨b', -, hrest⟩
    · exact ⟨x, List.mem_cons_self, b, hx⟩
    · obtain ⟨y, hy, b'', hfail⟩ := ih hrest
      exact ⟨y, List.mem_cons_of_mem x hy, b'', hfail⟩

/-- Tests one after the other succeed if each of them does. -/
theorem except_forM_eq_ok {ε α : Type} {f : α → Except ε Unit} {xs : List α} :
    xs.forM f = .ok () ↔ ∀ x ∈ xs, f x = .ok () := by
  induction xs with
  | nil => exact ⟨fun _ => nofun, fun _ => rfl⟩
  | cons x xs ih =>
    rw [List.forall_mem_cons, ← ih]
    show (f x >>= fun _ => xs.forM f) = _ ↔ _
    rw [except_bind_eq_ok]
    exact ⟨fun ⟨_, hx, hxs⟩ => ⟨hx, hxs⟩, fun ⟨hx, hxs⟩ => ⟨_, hx, hxs⟩⟩

/-- Two tests one after the other pass if both of them do. -/
theorem except_then_eq_ok {ε : Type} {first second : Except ε Unit} :
    (first >>= fun _ => second) = .ok () ↔ first = .ok () ∧ second = .ok () := by
  rw [except_bind_eq_ok]
  constructor
  · intro ⟨_, hfirst, hsecond⟩
    exact ⟨hfirst, hsecond⟩
  · intro ⟨hfirst, hsecond⟩
    exact ⟨(), hfirst, hsecond⟩

/-- What each step of a fold brings about, and later steps keep, holds in the
    end. -/
theorem foldlM_brings {ε σ α : Type} {Q : α → σ → Prop} {f : σ → α → Except ε σ} {xs : List α}
    {s s' : σ} (h : xs.foldlM f s = .ok s') (hnew : ∀ x t t', f t x = .ok t' → Q x t')
    (hkeep : ∀ x y t t', Q y t → f t x = .ok t' → Q y t') : ∀ x ∈ xs, Q x s' := by
  induction xs generalizing s with
  | nil => simp
  | cons x xs ih =>
    rw [List.foldlM_cons] at h
    obtain ⟨t, hx, hrest⟩ := except_bind_eq_ok.1 h
    intro y hy
    rcases List.mem_cons.1 hy with rfl | hy
    · exact foldlM_ok hrest (hnew y s t hx) fun x _ t t' => hkeep x y t t'
    · exact ih hrest y hy

/-- Tests of a list that all succeed, one by one. -/
theorem mapM_eq_ok {ε α β : Type} {f : α → Except ε β} {xs : List α} {ys : List β}
    (h : xs.mapM f = .ok ys) : List.Forall₂ (fun x y => f x = .ok y) xs ys := by
  induction xs generalizing ys with
  | nil =>
    cases h
    exact .nil
  | cons x xs ih =>
    rw [List.mapM_cons] at h
    obtain ⟨y, hy, h⟩ := except_bind_eq_ok.1 h
    obtain ⟨rest, hrest, h⟩ := except_bind_eq_ok.1 h
    cases h
    exact .cons hy (ih hrest)

/-- Tests of a list fail at one of them. -/
theorem mapM_eq_error {ε α β : Type} {f : α → Except ε β} {xs : List α} {e : ε}
    (h : xs.mapM f = .error e) :
    ∃ x ∈ xs, f x = .error e := by
  induction xs with
  | nil => cases h
  | cons x xs ih =>
    rw [List.mapM_cons] at h
    rcases except_bind_eq_error.1 h with hx | ⟨y, -, h⟩
    · exact ⟨x, List.mem_cons_self, hx⟩
    · rcases except_bind_eq_error.1 h with hrest | ⟨ys, -, h⟩
      · obtain ⟨z, hz, hfail⟩ := ih hrest
        exact ⟨z, List.mem_cons_of_mem x hz, hfail⟩
      · cases h

theorem mapM_exists_ok {ε α β : Type} (f : α → Except ε β) (xs : List α)
    (h : ∀ x ∈ xs, ∃ y, f x = .ok y) : ∃ ys, xs.mapM f = .ok ys := by
  induction xs with
  | nil => exact ⟨[], rfl⟩
  | cons x xs ih =>
    obtain ⟨y, hy⟩ := h x List.mem_cons_self
    obtain ⟨ys, hys⟩ := ih fun z hz => h z (List.mem_cons_of_mem x hz)
    refine ⟨y :: ys, ?_⟩
    rw [List.mapM_cons]
    exact except_bind_eq_ok.2 ⟨y, hy, except_bind_eq_ok.2 ⟨ys, hys, rfl⟩⟩

theorem forall₂_mem_left {α β : Type} {r : α → β → Prop} {xs : List α} {ys : List β}
    (h : List.Forall₂ r xs ys) {x : α} (hx : x ∈ xs) : ∃ y ∈ ys, r x y := by
  induction h with
  | nil => cases hx
  | cons hxy _ ih =>
    rcases List.mem_cons.1 hx with rfl | hx
    · exact ⟨_, List.mem_cons_self, hxy⟩
    · obtain ⟨y, hy, hr⟩ := ih hx
      exact ⟨y, List.mem_cons_of_mem _ hy, hr⟩

theorem forall₂_mem_right {α β : Type} {r : α → β → Prop} {xs : List α} {ys : List β}
    (h : List.Forall₂ r xs ys) {y : β} (hy : y ∈ ys) : ∃ x ∈ xs, r x y :=
  forall₂_mem_left h.flip hy

theorem forall₂_getElem? {α β : Type} {r : α → β → Prop} {xs : List α} {ys : List β}
    (h : List.Forall₂ r xs ys) {k : Nat} {x : α} (hx : xs[k]? = some x) :
    ∃ y, ys[k]? = some y ∧ r x y := by
  induction h generalizing k with
  | nil => simp at hx
  | cons hxy _ ih =>
    cases k with
    | zero =>
      simp only [List.getElem?_cons_zero, Option.some.injEq] at hx
      exact ⟨_, List.getElem?_cons_zero, hx ▸ hxy⟩
    | succ k =>
      rw [List.getElem?_cons_succ] at hx
      obtain ⟨y, hy, hr⟩ := ih hx
      exact ⟨y, by rwa [List.getElem?_cons_succ], hr⟩

/-! ## Section 4: How a computation ends -/

/-- A test that fails does so with an error that has `P`. -/
def ErrsOnly {ε α : Type} (P : ε → Prop) (x : Except ε α) : Prop := ∀ e, x = .error e → P e

namespace ErrsOnly

variable {ε α β : Type} {P : ε → Prop}

theorem ok (a : α) : ErrsOnly P (.ok a : Except ε α) := nofun

theorem error {e : ε} (he : P e) : ErrsOnly P (.error e : Except ε α) := by
  intro e' h
  cases h
  exact he

theorem bind {x : Except ε α} {f : α → Except ε β} (hx : ErrsOnly P x)
    (hf : ∀ a, x = .ok a → ErrsOnly P (f a)) : ErrsOnly P (x >>= f) := by
  intro e h
  rcases except_bind_eq_error.1 h with h | ⟨a, ha, h⟩
  · exact hx e h
  · exact hf a ha e h

theorem mapM {f : α → Except ε β} {xs : List α} (hf : ∀ x ∈ xs, ErrsOnly P (f x)) :
    ErrsOnly P (xs.mapM f) := by
  induction xs with
  | nil => exact ok _
  | cons x rest ih =>
    rw [List.mapM_cons]
    refine bind (hf x List.mem_cons_self) fun _ _ => ?_
    exact bind (ih fun y hy => hf y (List.mem_cons_of_mem x hy)) fun _ _ => ok _

theorem forM {f : α → Except ε PUnit} (hf : ∀ x, ErrsOnly P (f x)) (xs : List α) :
    ErrsOnly P (xs.forM f) := by
  induction xs with
  | nil => exact ok _
  | cons x rest ih => exact bind (hf x) fun _ _ => ih

end ErrsOnly

/-- If `m` fails when it is run from `s`, it is with an error that has `P`. -/
def FailsOnly (P : ε → Prop) (m : EStateM ε σ α) (s : σ) : Prop :=
  ∀ e s', m s = .error e s' → P e

namespace FailsOnly

variable {P : ε → Prop} {s : σ}

/-- What succeeds does not fail. -/
theorem of_ok {m : EStateM ε σ α} {a : α} {s' : σ} (h : m s = .ok a s') : FailsOnly P m s := by
  intro e t he
  rw [h] at he
  cases he

theorem pure (a : α) : FailsOnly P (Pure.pure a : EStateM ε σ α) s := nofun

theorem modify (f : σ → σ) : FailsOnly P (modify f : EStateM ε σ PUnit) s := nofun

theorem throw {e : ε} (he : P e) : FailsOnly P (MonadExcept.throw e : EStateM ε σ α) s := by
  intro e' s' h
  cases h
  exact he

theorem bind {m : EStateM ε σ α} {f : α → EStateM ε σ β} (hm : FailsOnly P m s)
    (hf : ∀ a s', m s = .ok a s' → FailsOnly P (f a) s') : FailsOnly P (m >>= f) s := by
  intro e s'' h
  rcases bind_eq_error.1 h with h | ⟨a, s', ha, h⟩
  · exact hm e s'' h
  · exact hf a s' ha e s'' h

theorem throw_bind {e : ε} {f : α → EStateM ε σ β} (he : P e) :
    FailsOnly P (MonadExcept.throw e >>= f) s :=
  bind (throw he) fun _ _ h => absurd h throw_ne_ok

/-- A loop whose rounds keep what they rely on. -/
theorem forM {I : σ → Prop} {f : α → EStateM ε σ PUnit} {xs : List α}
    (hf : ∀ x ∈ xs, ∀ t, I t → FailsOnly P (f x) t)
    (hkeep : ∀ x ∈ xs, ∀ t u t', I t → f x t = .ok u t' → I t') (hs : I s) :
    FailsOnly P (xs.forM f) s := by
  induction xs generalizing s with
  | nil => exact pure _
  | cons x rest ih =>
    refine bind (hf x List.mem_cons_self s hs) fun u s' hx => ?_
    exact ih (fun y hy => hf y (List.mem_cons_of_mem x hy))
      (fun y hy => hkeep y (List.mem_cons_of_mem x hy))
      (hkeep x List.mem_cons_self s u s' hs hx)

theorem mapM {f : α → EStateM ε σ β} (hf : ∀ x t, FailsOnly P (f x) t) (xs : List α) :
    FailsOnly P (xs.mapM f) s := by
  induction xs generalizing s with
  | nil => exact pure _
  | cons x rest ih =>
    rw [List.mapM_cons]
    exact bind (hf x s) fun _ _ _ => bind ih fun _ _ _ => pure _

end FailsOnly

/-- Run from `s`, `m` succeeds with `Q` or fails with `E`. -/
structure Ends (E : ε → σ → Prop) (m : EStateM ε σ α) (s : σ) (Q : α → σ → Prop) : Prop where
  ok : ∀ a s', m s = .ok a s' → Q a s'
  error : ∀ e s', m s = .error e s' → E e s'

namespace Ends

variable {E : ε → σ → Prop} {Q : α → σ → Prop} {R : β → σ → Prop} {m : EStateM ε σ α} {s : σ}

/-- What succeeds ends well. -/
theorem of_ok {s' : σ} {a : α} (h : m s = .ok a s') (hq : Q a s') : Ends E m s Q := by
  refine ⟨fun b t hb => ?_, fun e t he => ?_⟩
  · rw [h] at hb
    cases hb
    exact hq
  · rw [h] at he
    cases he

theorem pure {a : α} (h : Q a s) : Ends E (Pure.pure a : EStateM ε σ α) s Q := of_ok rfl h

theorem get {Q : σ → σ → Prop} (h : Q s s) : Ends E (MonadState.get : EStateM ε σ σ) s Q :=
  of_ok (get_eq_ok.2 ⟨rfl, rfl⟩) h

/-- What never fails succeeds. -/
theorem exists_ok (h : Ends (fun _ _ => False) m s Q) : ∃ a s', m s = .ok a s' ∧ Q a s' := by
  cases hrun : m s with
  | ok a s' => exact ⟨a, s', rfl, h.ok a s' hrun⟩
  | error e s' => exact (h.error e s' hrun).elim

theorem mono {Q' : α → σ → Prop} (h : Ends E m s Q) (hq : ∀ a s', Q a s' → Q' a s') :
    Ends E m s Q' :=
  ⟨fun a s' ha => hq a s' (h.ok a s' ha), h.error⟩

theorem bind {f : α → EStateM ε σ β} (hm : Ends E m s Q)
    (hf : ∀ a s', Q a s' → Ends E (f a) s' R) : Ends E (m >>= f) s R := by
  refine ⟨fun b s'' h => ?_, fun e s'' h => ?_⟩
  · obtain ⟨a, s', ha, h⟩ := bind_eq_ok.1 h
    exact (hf a s' (hm.ok a s' ha)).ok b s'' h
  · rcases bind_eq_error.1 h with h | ⟨a, s', ha, h⟩
    · exact hm.error e s'' h
    · exact (hf a s' (hm.ok a s' ha)).error e s'' h

/-- A loop, with an invariant that knows what is still to be done. -/
theorem forM {I : List α → σ → Prop} {f : α → EStateM ε σ PUnit}
    (hf : ∀ x rest t, I (x :: rest) t → Ends E (f x) t fun _ t' => I rest t') {xs : List α}
    (hs : I xs s) : Ends E (xs.forM f) s fun _ s' => I [] s' := by
  induction xs generalizing s with
  | nil => exact pure hs
  | cons x rest ih => exact bind (hf x rest s hs) fun _ s' hs' => ih hs'

/-- What holds after success and after failure holds of the state left behind. -/
theorem stateOf {P : σ → Prop} (h : Ends (fun _ s' => P s') m s fun _ s' => P s') :
    P (Dataflow.stateOf (m s)) := by
  cases hrun : m s with
  | ok a s' => exact h.ok a s' hrun
  | error e s' => exact h.error e s' hrun

end Ends

/-- Which errors there are and what they leave behind may be looked at apart. -/
theorem FailsOnly.ends {P : ε → Prop} {R : σ → Prop} {Q : α → σ → Prop} {m : EStateM ε σ α} {s : σ}
    (hm : FailsOnly P m s) (hstate : R (stateOf (m s))) (hok : ∀ a s', m s = .ok a s' → Q a s') :
    Ends (fun e s' => P e ∧ R s') m s Q := by
  refine ⟨hok, fun e s' h => ⟨hm e s' h, ?_⟩⟩
  rwa [h] at hstate

theorem Keeps.ends {P : σ → Prop} {m : EStateM ε σ α} (hm : Keeps P m) {s : σ} (hs : P s) :
    Ends (fun _ s' => P s') m s fun _ s' => P s' := by
  have hstate := hm s hs
  refine ⟨fun a s' h => ?_, fun e s' h => ?_⟩
  · rwa [h] at hstate
  · rwa [h] at hstate

end Dataflow
