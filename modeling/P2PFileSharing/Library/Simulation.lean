import P2PFileSharing.Library.History
import Mathlib.Algebra.BigOperators.Group.Finset.Piecewise

/-!
# One machine by means of another

A machine follows another one when each of its steps is a run of the other one between the
abstractions of the two states. The rules take a run, and what its steps do, to the other machine.
A potential that pays for what the steps do bounds what a run does.
-/

namespace P2PFileSharing.Library.Machine

variable {σ τ ε δ : Type*} {step : σ → ε → Option σ} {out : σ → ε → List δ} {s t : σ} {es : List ε}

theorem log_append {later : List ε} (h : run step s es = some t) :
    log step out s (es ++ later) = log step out s es ++ log step out t later := by
  induction es generalizing s with
  | nil =>
    cases h
    rfl
  | cons e es ih =>
    obtain ⟨u, hu, hrest⟩ := run_cons.mp h
    simp only [List.cons_append, log, hu, Option.elim_some, ih hrest, List.append_assoc]

/-- The first steps of a longer run. -/
theorem run_append_eq_some {later : List ε} :
    run step s (es ++ later) = some t ↔
      ∃ u, run step s es = some u ∧ run step u later = some t := by
  induction es generalizing s with
  | nil => simp [run]
  | cons e es ih =>
    simp only [List.cons_append, run_cons, ih]
    constructor
    · rintro ⟨u, hu, v, hv, ht⟩
      exact ⟨v, ⟨u, hu, hv⟩, ht⟩
    · rintro ⟨v, ⟨u, hu, hv⟩, ht⟩
      exact ⟨u, hu, v, hv, ht⟩

section Following

variable {step' : τ → δ → Option τ} {abs : σ → τ} {good : σ → Prop}

/-- As long as the run comes through `good` states only, the steps that its steps stand for are a
run of the other machine. A state that is left by a step is `good`. -/
theorem run_log_of_follows (inv : σ → Prop) (live : ∀ s e t, step s e = some t → good s)
    (keep : ∀ s e t, inv s → step s e = some t → inv t)
    (follow : ∀ s e t, inv s → step s e = some t → good t →
      run step' (abs s) (out s e) = some (abs t))
    (start : inv s) (hrun : run step s es = some t) (ht : good t) :
    run step' (abs s) (log step out s es) = some (abs t) := by
  induction es generalizing s with
  | nil =>
    cases hrun
    rfl
  | cons e es ih =>
    obtain ⟨u, hu, hrest⟩ := run_cons.mp hrun
    have hgood : good u := by
      cases es with
      | nil =>
        cases hrest
        exact ht
      | cons e' es =>
        obtain ⟨v, hv, -⟩ := run_cons.mp hrest
        exact live u e' v hv
    have hfirst := follow s e u start hu hgood
    rw [log, hu, Option.elim_some, run_append hfirst]
    exact ih (keep s e u start hu) hrest

end Following

theorem allSteps_append {P : σ → ε → Prop} {later : List ε} (h : AllSteps step P s es)
    (hrun : run step s es = some t) (hlater : AllSteps step P t later) :
    AllSteps step P s (es ++ later) := by
  induction es generalizing s with
  | nil =>
    cases hrun
    exact hlater
  | cons e es ih =>
    obtain ⟨u, hu, hrest⟩ := run_cons.mp hrun
    intro v hv
    obtain ⟨hp, hps⟩ := h v hv
    cases hu.symm.trans hv
    exact ⟨hp, ih hps hrest⟩

theorem AllSteps.mono {P Q : σ → ε → Prop} (h : AllSteps step P s es)
    (weaken : ∀ s e, P s e → Q s e) : AllSteps step Q s es :=
  allSteps_of_invariant (P := fun _ => True) (fun s e _ _ hp _ => ⟨weaken s e hp, trivial⟩)
    trivial h

/-- What the allowed steps keep, with the entries that they add, holds with the log after a run. -/
theorem run_log_invariant_of {P : σ → List δ → Prop} {ok : σ → ε → Prop}
    (keep : ∀ s e t past, P s past → ok s e → step s e = some t → P t (past ++ out s e))
    {past : List δ} (start : P s past) (steps : AllSteps step ok s es)
    (hrun : run step s es = some t) : P t (past ++ log step out s es) := by
  induction es generalizing s past with
  | nil =>
    cases hrun
    rwa [log, List.append_nil]
  | cons e es ih =>
    obtain ⟨u, hu, hrest⟩ := run_cons.mp hrun
    obtain ⟨hok, hsteps⟩ := steps u hu
    have hlater := ih (keep s e u past start hok hu) hsteps hrest
    rwa [log, hu, Option.elim_some, ← List.append_assoc]

/-- A machine whose steps are matched by runs of another one that leave the same entries. -/
theorem exists_run_of_simulation {step' : τ → δ → Option τ} {β : Type*} {out : σ → ε → List β}
    {out' : τ → δ → List β} {R : σ → τ → Prop} {ok : σ → ε → Prop} {ok' : τ → δ → Prop}
    (follow : ∀ s u e t, R s u → ok s e → step s e = some t →
      ∃ ds v, run step' u ds = some v ∧ R t v ∧ AllSteps step' ok' u ds ∧
        log step' out' u ds = out s e)
    {u : τ} (start : R s u) (steps : AllSteps step ok s es) (hrun : run step s es = some t) :
    ∃ ds v, run step' u ds = some v ∧ R t v ∧ AllSteps step' ok' u ds ∧
      log step' out' u ds = log step out s es := by
  induction es generalizing s u with
  | nil =>
    cases hrun
    exact ⟨[], u, rfl, start, trivial, rfl⟩
  | cons e es ih =>
    obtain ⟨s', hs', hrest⟩ := run_cons.mp hrun
    obtain ⟨hok, hsteps⟩ := steps s' hs'
    obtain ⟨ds, v, hds, hv, hsides, hout⟩ := follow s u e s' start hok hs'
    obtain ⟨later, w, hlater, hw, hothers, hlog⟩ := ih hv hsteps hrest
    refine ⟨ds ++ later, w, by rw [run_append hds, hlater], hw,
      allSteps_append hsides hds hothers, ?_⟩
    rw [log_append hds, hout, hlog, log, hs', Option.elim_some]

section Paying

variable {inv : σ → Prop}

/-- Each entry of the log is paid for with a part of the potential. -/
theorem length_log_add_le (out : σ → ε → List δ) (potential : σ → Nat)
    (keep : ∀ s e t, inv s → step s e = some t → inv t)
    (pay : ∀ s e t, inv s → step s e = some t → (out s e).length + potential t ≤ potential s)
    (start : inv s) (hrun : run step s es = some t) :
    (log step out s es).length + potential t ≤ potential s := by
  induction es generalizing s with
  | nil =>
    cases hrun
    simp [log]
  | cons e es ih =>
    obtain ⟨u, hu, hrest⟩ := run_cons.mp hrun
    have hfirst := pay s e u start hu
    have hothers := ih (keep s e u start hu) hrest
    rw [log, hu, Option.elim_some, List.length_append]
    omega

end Paying

/-- The log that has the events themselves. -/
theorem log_self (hrun : run step s es = some t) : log step (fun _ e => [e]) s es = es := by
  induction es generalizing s with
  | nil => rfl
  | cons e es ih =>
    obtain ⟨u, hu, hrest⟩ := run_cons.mp hrun
    simp only [log, hu, Option.elim_some, ih hrest, List.singleton_append]

/-- The weights of all parties, when one of them goes elsewhere. -/
theorem sum_update_add {ι α : Type*} [Fintype ι] [DecidableEq ι] (weight : α → Nat) (at_ : ι → α)
    (i : ι) (a : α) : ∑ j, weight (Function.update at_ i a j) + weight (at_ i) =
      ∑ j, weight (at_ j) + weight a := by
  have hweight (j : ι) : weight (Function.update at_ i a j) =
      Function.update (fun j => weight (at_ j)) i (weight a) j := by
    by_cases hj : j = i
    · subst hj
      simp
    · simp [hj]
  simp only [hweight, Finset.sum_update_of_mem (Finset.mem_univ i)]
  have hothers := Finset.sum_sdiff (Finset.singleton_subset_iff.mpr (Finset.mem_univ i))
    (f := fun j => weight (at_ j))
  rw [Finset.sum_singleton] at hothers
  omega

end P2PFileSharing.Library.Machine
