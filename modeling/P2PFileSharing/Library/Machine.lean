import Mathlib.Tactic.ByContra

/-!
# Runs of a labelled step function

`step s e` is the state after the event `e`, or `none` where the event cannot happen in `s`.
A run is a list of events. The rules say what a property of single steps gives for whole runs.
-/

namespace P2PFileSharing.Library.Machine

variable {σ ε : Type*} (step : σ → ε → Option σ)

/-- The state after a list of events, if each of them can happen in its turn. -/
def run (s : σ) : List ε → Option σ
  | [] => some s
  | e :: es => (step s e).bind (fun t => run t es)

/-- `P` holds in every state that the run of `es` from `s` goes through. -/
def AllStates (P : σ → Prop) (s : σ) : List ε → Prop
  | [] => P s
  | e :: es => P s ∧ ∀ t, step s e = some t → AllStates P t es

/-- `P` holds of every step that the run of `es` from `s` makes. -/
def AllSteps (P : σ → ε → Prop) (s : σ) : List ε → Prop
  | [] => True
  | e :: es => ∀ t, step s e = some t → P s e ∧ AllSteps P t es

variable {step}

instance decidableAllSteps {P : σ → ε → Prop} [∀ s e, Decidable (P s e)] :
    ∀ s es, Decidable (AllSteps step P s es)
  | _, [] => .isTrue trivial
  | s, e :: es =>
    match h : step s e with
    | none => .isTrue (by simp [AllSteps, h])
    | some t =>
      have : Decidable (AllSteps step P t es) := decidableAllSteps t es
      decidable_of_iff (P s e ∧ AllSteps step P t es) (by simp [AllSteps, h])

theorem run_cons {s t : σ} {e : ε} {es : List ε} :
    run step s (e :: es) = some t ↔ ∃ u, step s e = some u ∧ run step u es = some t := by
  simp [run, Option.bind_eq_some_iff]

theorem run_append {s t : σ} {es later : List ε} (h : run step s es = some t) :
    run step s (es ++ later) = run step t later := by
  induction es generalizing s with
  | nil =>
    cases h
    rfl
  | cons e es ih =>
    obtain ⟨u, hu, hrest⟩ := run_cons.mp h
    rw [List.cons_append, run, hu, Option.bind_some, ih hrest]

/-- A property that the steps of some events keep holds after every run of such events. -/
theorem run_invariant_of {P : σ → Prop} {Q : ε → Prop}
    (keep : ∀ s e t, P s → Q e → step s e = some t → P t) {s t : σ} {es : List ε} (start : P s)
    (hes : ∀ e ∈ es, Q e) (hrun : run step s es = some t) : P t := by
  induction es generalizing s with
  | nil =>
    cases hrun
    exact start
  | cons e es ih =>
    obtain ⟨u, hu, hrest⟩ := run_cons.mp hrun
    obtain ⟨he, hes⟩ := List.forall_mem_cons.mp hes
    exact ih (keep s e u start he hu) hes hrest

/-- A property that every step keeps holds after every run. -/
theorem run_invariant {P : σ → Prop} (keep : ∀ s e t, P s → step s e = some t → P t)
    {s t : σ} {es : List ε} (start : P s) (hrun : run step s es = some t) : P t :=
  run_invariant_of (fun s e t hs _ ht => keep s e t hs ht) start (fun _ _ => trivial) hrun

theorem AllStates.first {P : σ → Prop} {s : σ} {es : List ε} (h : AllStates step P s es) : P s := by
  cases es with
  | nil => exact h
  | cons => exact h.1

/-- What holds all the way through holds at the end. -/
theorem AllStates.last {P : σ → Prop} {s t : σ} {es : List ε} (h : AllStates step P s es)
    (hrun : run step s es = some t) : P t := by
  induction es generalizing s with
  | nil =>
    cases hrun
    exact h
  | cons e es ih =>
    obtain ⟨u, hu, hrest⟩ := run_cons.mp hrun
    exact ih (h.2 u hu) hrest

theorem AllSteps.and {P Q : σ → ε → Prop} {s : σ} {es : List ε} (h : AllSteps step P s es)
    (h' : AllSteps step Q s es) : AllSteps step (fun s e => P s e ∧ Q s e) s es := by
  induction es generalizing s with
  | nil => trivial
  | cons e es ih =>
    intro t ht
    obtain ⟨hp, hps⟩ := h t ht
    obtain ⟨hq, hqs⟩ := h' t ht
    exact ⟨⟨hp, hq⟩, ih hps hqs⟩

/-- What holds of the steps of a run holds of those after its first part. -/
theorem AllSteps.rest {P : σ → ε → Prop} {s t : σ} {es later : List ε}
    (h : AllSteps step P s (es ++ later)) (hrun : run step s es = some t) :
    AllSteps step P t later := by
  induction es generalizing s with
  | nil =>
    cases hrun
    exact h
  | cons e es ih =>
    obtain ⟨u, hu, hrest⟩ := run_cons.mp hrun
    exact ih (h u hu).2 hrest

/-- A run of allowed steps stays where the allowed steps keep it. -/
theorem allStates_of_allSteps {Good Strong : σ → Prop} {ok : σ → ε → Prop}
    (weaken : ∀ s, Strong s → Good s)
    (keep : ∀ s e t, Strong s → ok s e → step s e = some t → Strong t)
    {s : σ} (start : Strong s) {es : List ε} (steps : AllSteps step ok s es) :
    AllStates step Good s es := by
  induction es generalizing s with
  | nil => exact weaken s start
  | cons e es ih =>
    refine ⟨weaken s start, fun t ht => ?_⟩
    obtain ⟨hok, hsteps⟩ := steps t ht
    exact ih (keep s e t start hok ht) hsteps

/-- The exact runs of a property, among the runs whose steps all meet `side`. `Strong` implies
`Good` and is kept by the steps that meet `ok`, while any other step from a `Strong` state ends
outside `Good`: so a run stays in `Good` throughout exactly when each of its steps meets `ok`. -/
theorem allStates_iff_allSteps_of {Good Strong : σ → Prop} {side ok : σ → ε → Prop}
    (weaken : ∀ s, Strong s → Good s)
    (keep : ∀ s e t, Strong s → side s e → ok s e → step s e = some t → Strong t)
    (spoil : ∀ s e t, Strong s → side s e → ¬ ok s e → step s e = some t → ¬ Good t)
    {s : σ} (start : Strong s) {es : List ε} (sides : AllSteps step side s es) :
    AllStates step Good s es ↔ AllSteps step ok s es := by
  constructor
  · intro states
    induction es generalizing s with
    | nil => trivial
    | cons e es ih =>
      intro t ht
      obtain ⟨hside, hsides⟩ := sides t ht
      have rest : AllStates step Good t es := states.2 t ht
      have hok : ok s e := by
        by_contra hbad
        exact spoil s e t start hside hbad ht rest.first
      exact ⟨hok, ih (keep s e t start hside hok ht) hsides rest⟩
  · intro steps
    refine allStates_of_allSteps weaken (fun s e t hs hok ht => ?_) start (sides.and steps)
    exact keep s e t hs hok.1 hok.2 ht

theorem allSteps_of_forall {P : σ → ε → Prop} (h : ∀ s e, P s e) (s : σ) (es : List ε) :
    AllSteps step P s es := by
  induction es generalizing s with
  | nil => trivial
  | cons e es ih => exact fun t _ => ⟨h s e, ih t⟩

/-- What an invariant says of each step that it is kept by. -/
theorem allSteps_of_invariant {P : σ → Prop} {Q ok : σ → ε → Prop}
    (keep : ∀ s e t, P s → ok s e → step s e = some t → Q s e ∧ P t)
    {s : σ} (start : P s) {es : List ε} (steps : AllSteps step ok s es) : AllSteps step Q s es := by
  induction es generalizing s with
  | nil => trivial
  | cons e es ih =>
    intro t ht
    obtain ⟨hok, hsteps⟩ := steps t ht
    obtain ⟨hq, hp⟩ := keep s e t start hok ht
    exact ⟨hq, ih hp hsteps⟩

/-- The exact runs of a property, among all runs. -/
theorem allStates_iff_allSteps {Good Strong : σ → Prop} {ok : σ → ε → Prop}
    (weaken : ∀ s, Strong s → Good s)
    (keep : ∀ s e t, Strong s → ok s e → step s e = some t → Strong t)
    (spoil : ∀ s e t, Strong s → ¬ ok s e → step s e = some t → ¬ Good t)
    {s : σ} (start : Strong s) (es : List ε) :
    AllStates step Good s es ↔ AllSteps step ok s es :=
  allStates_iff_allSteps_of weaken (fun s e t hs _ => keep s e t hs)
    (fun s e t hs _ => spoil s e t hs) start (allSteps_of_forall (fun _ _ => trivial) s es)

end P2PFileSharing.Library.Machine
