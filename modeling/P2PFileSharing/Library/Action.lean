import Mathlib.Order.Defs.Unbundled

/-!
# Computations that keep their state when they throw

An imperative function with exceptions maps a state to an outcome and a state. Effects made
before a throw stay, so a handler continues in the state in which the exception was raised.

The inversion rules peel a run apart at a bind or at a handler. They are the only facts
about `Action` that clients use.
-/

namespace P2PFileSharing.Library

/-- A computation that returns or throws, and keeps the state it reached either way. -/
def Action (σ ε α : Type) := σ → Except ε α × σ

namespace Action

variable {σ ε α β : Type}

instance : Monad (Action σ ε) where
  pure a s := (.ok a, s)
  bind x f s :=
    match x s with
    | (.ok a, t) => f a t
    | (.error e, t) => (.error e, t)

def throw (e : ε) : Action σ ε α := fun s => (.error e, s)

def get : Action σ ε σ := fun s => (.ok s, s)

def modify (f : σ → σ) : Action σ ε Unit := fun s => (.ok (), f s)

/-- A pure computation that may throw. -/
def ofExcept (x : Except ε α) : Action σ ε α := fun s => (x, s)

/-- Run `x`; an exception that `handler` accepts continues there, the others pass on. -/
def catching (x : Action σ ε α) (handler : ε → Option (Action σ ε α)) : Action σ ε α := fun s =>
  match x s with
  | (.ok a, t) => (.ok a, t)
  | (.error e, t) =>
    match handler e with
    | some h => h t
    | none => (.error e, t)

/-- Run on the first of two states. -/
def onFst {τ : Type} (x : Action σ ε α) : Action (σ × τ) ε α := fun s =>
  ((x s.1).1, ((x s.1).2, s.2))

/-- Run on the second of two states. -/
def onSnd {τ : Type} (x : Action τ ε α) : Action (σ × τ) ε α := fun s =>
  ((x s.2).1, (s.1, (x s.2).2))

/-- Translate the exceptions. -/
def mapError {ε' : Type} (f : ε → ε') (x : Action σ ε α) : Action σ ε' α := fun s =>
  ((x s).1.mapError f, (x s).2)

@[simp] theorem pure_run (a : α) (s : σ) : (pure a : Action σ ε α) s = (.ok a, s) := rfl

@[simp] theorem throw_run (e : ε) (s : σ) : (throw e : Action σ ε α) s = (.error e, s) := rfl

@[simp] theorem modify_run (f : σ → σ) (s : σ) :
    (modify f : Action σ ε Unit) s = (.ok (), f s) := rfl

@[simp] theorem ofExcept_run (x : Except ε α) (s : σ) :
    (ofExcept x : Action σ ε α) s = (x, s) := rfl

/-! ## Evaluating a step whose first part is known -/

theorem bind_of_ok {x : Action σ ε α} {f : α → Action σ ε β} {s t : σ} {a : α}
    (h : x s = (.ok a, t)) : (x >>= f) s = f a t := by
  change (match x s with | (.ok a, t) => f a t | (.error e, t) => (.error e, t)) = _
  rw [h]

theorem bind_of_error {x : Action σ ε α} {f : α → Action σ ε β} {s t : σ} {e : ε}
    (h : x s = (.error e, t)) : (x >>= f) s = (.error e, t) := by
  change (match x s with | (.ok a, t) => f a t | (.error e, t) => (.error e, t)) = _
  rw [h]

/-- A fallible computation that returns has returned from both of its parts. -/
theorem exceptBind_eq_ok {x : Except ε α} {f : α → Except ε β} {b : β} :
    x >>= f = .ok b ↔ ∃ a, x = .ok a ∧ f a = .ok b := by
  cases x with
  | error e => simp [bind, Except.bind]
  | ok a => simp [bind, Except.bind]

/-- What is returned in the end does not matter to the state. -/
theorem bind_pure_state (x : Action σ ε α) (f : α → β) (s : σ) :
    ((x >>= fun a => (pure (f a) : Action σ ε β)) s).2 = (x s).2 := by
  rcases hx : x s with ⟨e | a, t⟩
  · rw [bind_of_error hx]
  · rw [bind_of_ok hx, pure_run]

@[simp] theorem ofExcept_ok_bind_run (a : α) (f : α → Action σ ε β) (s : σ) :
    (ofExcept (.ok a) >>= f : Action σ ε β) s = f a s := rfl

@[simp] theorem ofExcept_error_bind_run (e : ε) (f : α → Action σ ε β) (s : σ) :
    (ofExcept (.error e) >>= f : Action σ ε β) s = (.error e, s) := rfl

@[simp] theorem get_bind_run (f : σ → Action σ ε β) (s : σ) : (get >>= f) s = f s s := rfl

@[simp] theorem modify_bind_run (g : σ → σ) (f : Unit → Action σ ε β) (s : σ) :
    (modify g >>= f) s = f () (g s) := rfl

theorem onFst_of_ok {τ : Type} {x : Action σ ε α} {s t : σ} {a : α} (h : x s = (.ok a, t)) (u : τ) :
    onFst x (s, u) = (.ok a, t, u) := by
  simp [onFst, h]

theorem onSnd_of_ok {τ : Type} {x : Action τ ε α} {s t : τ} {a : α} (h : x s = (.ok a, t)) (u : σ) :
    onSnd x (u, s) = (.ok a, u, t) := by
  simp [onSnd, h]

theorem catching_of_ok {x : Action σ ε α} {handler : ε → Option (Action σ ε α)} {s t : σ}
    {a : α} (h : x s = (.ok a, t)) : x.catching handler s = (.ok a, t) := by
  simp [catching, h]

theorem catching_of_error {x : Action σ ε α} {handler : ε → Option (Action σ ε α)} {s t : σ}
    {e : ε} {k : Action σ ε α} (h : x s = (.error e, t)) (hk : handler e = some k) :
    x.catching handler s = k t := by
  simp [catching, h, hk]

theorem catching_of_unmatched {x : Action σ ε α} {handler : ε → Option (Action σ ε α)}
    {s t : σ} {e : ε} (h : x s = (.error e, t)) (hk : handler e = none) :
    x.catching handler s = (.error e, t) := by
  simp [catching, h, hk]

/-! ## Taking a finished run apart -/

theorem ofExcept_eq_ok {x : Except ε α} {s t : σ} {a : α} :
    ofExcept x s = (.ok a, t) ↔ x = .ok a ∧ t = s := by
  rw [ofExcept_run, Prod.mk.injEq, eq_comm (a := s)]

/-- A sequence that returned: both parts returned. -/
theorem bind_eq_ok {x : Action σ ε α} {f : α → Action σ ε β} {s t : σ} {b : β} :
    (x >>= f) s = (.ok b, t) ↔ ∃ a u, x s = (.ok a, u) ∧ f a u = (.ok b, t) := by
  rcases hx : x s with ⟨⟨e⟩ | ⟨a⟩, u⟩
  · simp [bind_of_error hx]
  · rw [bind_of_ok hx]
    constructor
    · exact fun h => ⟨a, u, rfl, h⟩
    · rintro ⟨_, _, ⟨⟩, h⟩
      exact h

/-! ## What every run of a computation does

`Within R x` relates the state that `x` leaves to the state it found, whether it returns or throws.
It follows the structure of the computation. -/

def Within (R : σ → σ → Prop) (x : Action σ ε α) : Prop := ∀ s, R s (x s).2

section Within

variable {R : σ → σ → Prop}

theorem within_pure [Std.Refl R] (a : α) : Within R (pure a : Action σ ε α) := fun s => refl_of R s

theorem within_throw [Std.Refl R] (e : ε) :
    Within R (throw e : Action σ ε α) := fun s => refl_of R s

theorem within_get [Std.Refl R] : Within R (get : Action σ ε σ) := fun s => refl_of R s

/-- What follows may depend on the state that was read. -/
theorem within_get_bind {f : σ → Action σ ε β} (h : ∀ s, R s (f s s).2) :
    Within R ((get : Action σ ε σ) >>= f) := h

theorem within_ofExcept [Std.Refl R] (x : Except ε α) : Within R (ofExcept x : Action σ ε α) :=
  fun s => refl_of R s

theorem within_modify {f : σ → σ} (h : ∀ s, R s (f s)) : Within R (modify f : Action σ ε Unit) := h

theorem Within.bind [IsTrans σ R] {x : Action σ ε α} {f : α → Action σ ε β} (hx : Within R x)
    (hf : ∀ a, Within R (f a)) : Within R (x >>= f) := by
  intro s
  have hs := hx s
  rcases hrun : x s with ⟨e | a, t⟩
  · rw [bind_of_error hrun]
    rwa [hrun] at hs
  · rw [bind_of_ok hrun]
    rw [hrun] at hs
    exact trans_of R hs (hf a t)

theorem Within.catching [IsTrans σ R] {x : Action σ ε α} {handler : ε → Option (Action σ ε α)}
    (hx : Within R x) (hk : ∀ e k, handler e = some k → Within R k) :
    Within R (x.catching handler) := by
  intro s
  have hs := hx s
  rcases hrun : x s with ⟨e | a, t⟩
  · rw [hrun] at hs
    rcases hhandler : handler e with _ | k
    · rwa [catching_of_unmatched hrun hhandler]
    · rw [catching_of_error hrun hhandler]
      exact trans_of R hs (hk e k hhandler t)
  · rw [catching_of_ok hrun]
    rwa [hrun] at hs

end Within

/-! ## What a computation can throw -/

/-- Every exception that `x` ends with meets `P`. -/
def Throws (P : ε → Prop) (x : Action σ ε α) : Prop := ∀ s e t, x s = (.error e, t) → P e

section Throws

variable {P : ε → Prop}

theorem throws_pure (a : α) : Throws P (pure a : Action σ ε α) := fun _ _ _ h => nomatch h

theorem throws_throw {e : ε} (he : P e) : Throws P (throw e : Action σ ε α) := by
  rintro s e t ⟨⟩
  exact he

theorem throws_get : Throws P (get : Action σ ε σ) := fun _ _ _ h => nomatch h

theorem throws_modify (f : σ → σ) : Throws P (modify f : Action σ ε Unit) :=
  fun _ _ _ h => nomatch h

theorem Throws.bind {x : Action σ ε α} {f : α → Action σ ε β} (hx : Throws P x)
    (hf : ∀ a, Throws P (f a)) : Throws P (x >>= f) := by
  intro s e t h
  rcases hrun : x s with ⟨e' | a, u⟩
  · rw [bind_of_error hrun] at h
    cases h
    exact hx s _ _ hrun
  · rw [bind_of_ok hrun] at h
    exact hf a u e t h

end Throws

end Action

end P2PFileSharing.Library
