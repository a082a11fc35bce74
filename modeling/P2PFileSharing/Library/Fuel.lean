import P2PFileSharing.Library.Action

/-!
# Loops with fuel

A loop that may not end is a function of the number of rounds it may make. `Converges f a` says
that with enough rounds the result is `a` and that more rounds do not change it.
-/

namespace P2PFileSharing.Library

variable {α β : Type*}

/-- From some amount of fuel on, the result is `a`. -/
def Converges (f : Nat → α) (a : α) : Prop := ∃ n, ∀ m, n ≤ m → f m = a

namespace Converges

theorem const (a : α) : Converges (fun _ => a) a := ⟨0, fun _ _ => rfl⟩

theorem unique {f : Nat → α} {a b : α} (ha : Converges f a) (hb : Converges f b) : a = b := by
  obtain ⟨n, hn⟩ := ha
  obtain ⟨k, hk⟩ := hb
  rw [← hn (n + k) (by omega), hk (n + k) (by omega)]

/-- The result is reached with some amount of fuel. -/
theorem exists_fuel {f : Nat → α} {a : α} (h : Converges f a) : ∃ n, f n = a := by
  obtain ⟨n, hn⟩ := h
  exact ⟨n, hn n (Nat.le_refl n)⟩

/-- One round of a loop. -/
theorem of_succ {f g : Nat → α} {a : α} (h : Converges g a) (round : ∀ n, f (n + 1) = g n) :
    Converges f a := by
  obtain ⟨n, hn⟩ := h
  refine ⟨n + 1, fun m hm => ?_⟩
  obtain ⟨k, rfl⟩ : ∃ k, m = k + 1 := ⟨m - 1, by omega⟩
  rw [round, hn k (by omega)]

/-- A loop whose rounds change nothing ends with its fuel. -/
theorem of_repeat {f : Nat → α} (round : ∀ n, f (n + 1) = f n) : Converges f (f 0) := by
  refine ⟨0, fun m _ => ?_⟩
  induction m with
  | zero => rfl
  | succ m ih => rw [round, ih (Nat.zero_le m)]

/-- A loop whose rounds lower a measure, as long as it has not come to its last one, ends. -/
theorem exists_of_measure {σ : Type*} {f : σ → Nat → α} {P : α → Prop} (inv : σ → Prop)
    (measure : σ → Nat) (round : ∀ s, inv s → (∃ a, P a ∧ Converges (f s) a) ∨
      ∃ t, inv t ∧ measure t < measure s ∧ ∀ n, f s (n + 1) = f t n) (s : σ) (hs : inv s) :
    ∃ a, P a ∧ Converges (f s) a := by
  induction hm : measure s using Nat.strongRecOn generalizing s with
  | ind m ih =>
    obtain hend | ⟨t, ht, hlt, hround⟩ := round s hs
    · exact hend
    · obtain ⟨a, ha, hconv⟩ := ih (measure t) (hm ▸ hlt) t ht rfl
      exact ⟨a, ha, hconv.of_succ hround⟩

/-- A computation that reads the result of another one. -/
theorem comp {f : Nat → α} {g : Nat → α → β} {a : α} {b : β} (hf : Converges f a)
    (hg : Converges (fun n => g n a) b) : Converges (fun n => g n (f n)) b := by
  obtain ⟨n, hn⟩ := hf
  obtain ⟨k, hk⟩ := hg
  refine ⟨max n k, fun m hm => ?_⟩
  change g m (f m) = b
  rw [hn m (by omega)]
  exact hk m (by omega)

end Converges

section Action

variable {σ ε γ δ : Type} {s t : σ}

theorem Converges.bind {x : Nat → Action σ ε γ} {f : Nat → γ → Action σ ε δ} {c : γ}
    {r : Except ε δ × σ} (hx : Converges (fun n => x n s) (.ok c, t))
    (hf : Converges (fun n => f n c t) r) : Converges (fun n => (x n >>= f n) s) r := by
  obtain ⟨n, hn⟩ := hx
  obtain ⟨k, hk⟩ := hf
  refine ⟨max n k, fun m hm => ?_⟩
  change (x m >>= f m) s = r
  rw [Action.bind_of_ok (hn m (by omega))]
  exact hk m (by omega)

theorem Converges.ofExcept_bind {x : Except ε γ} {f : Nat → γ → Action σ ε δ} {c : γ}
    {r : Except ε δ × σ} (hx : x = .ok c) (hf : Converges (fun n => f n c s) r) :
    Converges (fun n => (Action.ofExcept x >>= f n) s) r := by
  subst hx
  exact hf

theorem Converges.onFst {τ : Type} {x : Nat → Action σ ε γ} {r : Except ε γ} (u : τ)
    (h : Converges (fun n => x n s) (r, t)) :
    Converges (fun n => Action.onFst (x n) (s, u)) (r, (t, u)) := by
  obtain ⟨n, hn⟩ := h
  refine ⟨n, fun m hm => ?_⟩
  simp only [Action.onFst, hn m hm]

theorem Converges.catching_ok {x : Nat → Action σ ε γ} {c : γ}
    (h : Converges (fun n => x n s) (.ok c, t)) (handler : Nat → ε → Option (Action σ ε γ)) :
    Converges (fun n => (x n).catching (handler n) s) (.ok c, t) := by
  obtain ⟨n, hn⟩ := h
  exact ⟨n, fun m hm => Action.catching_of_ok (hn m hm)⟩

theorem Converges.catching_error {x : Nat → Action σ ε γ} {e : ε}
    (h : Converges (fun n => x n s) (.error e, t)) {handler : Nat → ε → Option (Action σ ε γ)}
    {k : Action σ ε γ} (hk : ∀ n, handler n e = some k) :
    Converges (fun n => (x n).catching (handler n) s) (k t) := by
  obtain ⟨n, hn⟩ := h
  exact ⟨n, fun m hm => Action.catching_of_error (hn m hm) (hk m)⟩

theorem Converges.catching_unmatched {x : Nat → Action σ ε γ} {e : ε}
    (h : Converges (fun n => x n s) (.error e, t)) (handler : Nat → ε → Option (Action σ ε γ))
    (hk : ∀ n, handler n e = none) :
    Converges (fun n => (x n).catching (handler n) s) (.error e, t) := by
  obtain ⟨n, hn⟩ := h
  exact ⟨n, fun m hm => Action.catching_of_unmatched (hn m hm) (hk m)⟩

theorem Converges.bind_error {x : Nat → Action σ ε γ} {f : Nat → γ → Action σ ε δ} {e : ε}
    (h : Converges (fun n => x n s) (.error e, t)) :
    Converges (fun n => (x n >>= f n) s) (.error e, t) := by
  obtain ⟨n, hn⟩ := h
  exact ⟨n, fun m hm => Action.bind_of_error (hn m hm)⟩

/-! ## More fuel does not change a result -/

/-- `y` does the same as `x`, except where `x` is `stuck`. -/
def Extends (stuck : ε) (x y : Action σ ε γ) : Prop := ∀ s, (x s).1 ≠ .error stuck → y s = x s

/-- More fuel only matters where there was too little of it. -/
def Settles (stuck : ε) (x : Nat → Action σ ε γ) : Prop :=
  ∀ n m, n ≤ m → Extends stuck (x n) (x m)

variable {stuck : ε}

namespace Extends

theorem rfl {x : Action σ ε γ} : Extends stuck x x := fun _ _ => Eq.refl _

theorem bind {x y : Action σ ε γ} {f g : γ → Action σ ε δ} (hxy : Extends stuck x y)
    (hfg : ∀ a, Extends stuck (f a) (g a)) : Extends stuck (x >>= f) (y >>= g) := by
  intro s hs
  rcases hrun : x s with ⟨e | a, t⟩
  · rw [Action.bind_of_error hrun] at hs
    have hsame := hxy s (by simpa [hrun] using hs)
    rw [Action.bind_of_error hrun, Action.bind_of_error (hsame.trans hrun)]
  · rw [Action.bind_of_ok hrun] at hs
    have hsame := hxy s (by simp [hrun])
    rw [Action.bind_of_ok hrun, Action.bind_of_ok (hsame.trans hrun)]
    exact hfg a t hs

theorem onFst {τ : Type} {x y : Action σ ε γ} (hxy : Extends stuck x y) :
    Extends stuck (Action.onFst x : Action (σ × τ) ε γ) (Action.onFst y) := by
  intro s hs
  rw [Action.onFst, Action.onFst, hxy s.1 hs]

/-- Handlers that take the same exceptions and leave `stuck` alone. -/
theorem catching {x y : Action σ ε γ} {handler handler' : ε → Option (Action σ ε γ)}
    (hxy : Extends stuck x y) (hstuck : handler stuck = none)
    (hhandlers : ∀ e, Option.Rel (Extends stuck) (handler e) (handler' e)) :
    Extends stuck (x.catching handler) (y.catching handler') := by
  intro s hs
  rcases hrun : x s with ⟨e | a, t⟩
  · have hne : e ≠ stuck := by
      rintro rfl
      rw [Action.catching_of_unmatched hrun hstuck] at hs
      exact hs (Eq.refl _)
    have hsame := (hxy s (by simpa [hrun] using hne)).trans hrun
    have hrel := hhandlers e
    generalize hhandler : handler e = o, hhandler' : handler' e = o' at hrel
    cases hrel with
    | none =>
      rw [Action.catching_of_unmatched hrun hhandler, Action.catching_of_unmatched hsame hhandler']
    | some hk =>
      rw [Action.catching_of_error hrun hhandler] at hs
      rw [Action.catching_of_error hrun hhandler, Action.catching_of_error hsame hhandler']
      exact hk t hs
  · have hsame := hxy s (by simp [hrun])
    rw [Action.catching_of_ok hrun, Action.catching_of_ok (hsame.trans hrun)]

end Extends

namespace Settles

/-- A run that is not stuck has come to the result. -/
theorem eq_of_converges {x : Nat → Action σ ε γ} (h : Settles stuck x) {n : Nat}
    {r r' : Except ε γ × σ} (hn : x n s = r) (hne : r.1 ≠ .error stuck)
    (hr : Converges (fun n => x n s) r') : r = r' := by
  rw [← hn] at hne ⊢
  exact Converges.unique ⟨n, fun m hm => h n m hm s hne⟩ hr

/-- A loop, where more is done in a round if more is done in the rounds behind it. -/
theorem loop {β : Type} {f : Nat → β → Action σ ε γ}
    (body : (β → Action σ ε γ) → β → Action σ ε γ) (hzero : ∀ b s, (f 0 b s).1 = .error stuck)
    (hsucc : ∀ n b, f (n + 1) b = body (f n) b)
    (hbody : ∀ g g' : β → Action σ ε γ, (∀ b, Extends stuck (g b) (g' b)) →
      ∀ b, Extends stuck (body g b) (body g' b)) (b : β) : Settles stuck fun n => f n b := by
  intro n
  induction n generalizing b with
  | zero =>
    intro m _ s hs
    exact absurd (hzero b s) hs
  | succ n ih =>
    intro m hm
    obtain ⟨m, rfl⟩ : ∃ k, m = k + 1 := ⟨m - 1, by omega⟩
    simp only [hsucc]
    exact hbody _ _ (fun b => ih b m (by omega)) b

end Settles

end Action

end P2PFileSharing.Library
