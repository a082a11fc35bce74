import P2PFileSharing.Library.Machine

/-!
# What a run has done

A step can leave entries in a log. What a log says about now is decided by its last entry that
matters: something was done, and has not been undone since.
-/

namespace P2PFileSharing.Library

namespace Machine

variable {σ ε δ : Type*} (step : σ → ε → Option σ) (out : σ → ε → List δ)

/-- The entries that the steps of a run leave, in their order. -/
def log (s : σ) : List ε → List δ
  | [] => []
  | e :: es => out s e ++ (step s e).elim [] (fun t => log t es)

/-- The machine that keeps the log beside its state. -/
def logged (s : σ × List δ) (e : ε) : Option (σ × List δ) :=
  (step s.1 e).map (fun t => (t, s.2 ++ out s.1 e))

variable {step out}

theorem logged_eq_some {s t : σ × List δ} {e : ε} :
    logged step out s e = some t ↔ step s.1 e = some t.1 ∧ t.2 = s.2 ++ out s.1 e := by
  obtain ⟨t, past⟩ := t
  simp only [logged, Option.map_eq_some_iff, Prod.mk.injEq]
  constructor
  · rintro ⟨u, hu, rfl, rfl⟩
    exact ⟨hu, rfl⟩
  · rintro ⟨ht, rfl⟩
    exact ⟨t, ht, rfl, rfl⟩

/-- Keeping the log changes nothing in a run. -/
theorem run_logged {s t : σ} {es : List ε} (past : List δ) (hrun : run step s es = some t) :
    run (logged step out) (s, past) es = some (t, past ++ log step out s es) := by
  induction es generalizing s past with
  | nil =>
    cases hrun
    rw [log, List.append_nil, run]
  | cons e es ih =>
    obtain ⟨u, hu, hrest⟩ := run_cons.mp hrun
    refine run_cons.mpr ⟨(u, past ++ out s e), logged_eq_some.mpr ⟨hu, rfl⟩, ?_⟩
    rw [ih _ hrest, log, hu, Option.elim_some, List.append_assoc]

/-- What every step keeps, with the entries that it adds, holds with the log after a run. -/
theorem run_log_invariant {P : σ → List δ → Prop}
    (keep : ∀ s e t past, P s past → step s e = some t → P t (past ++ out s e))
    {s t : σ} {es : List ε} {past : List δ} (start : P s past) (hrun : run step s es = some t) :
    P t (past ++ log step out s es) := by
  refine run_invariant (P := fun s => P s.1 s.2) ?_ start (run_logged past hrun)
  intro s e t hs hstep
  obtain ⟨ht, hlog⟩ := logged_eq_some.mp hstep
  rw [hlog]
  exact keep s.1 e t.1 s.2 hs ht

end Machine

/-- An entry of the log did it, and no later one has undone it. -/
def Since {δ : Type*} (done undone : δ → Prop) (log : List δ) : Prop :=
  ∃ past d later, log = past ++ d :: later ∧ done d ∧ ∀ x ∈ later, ¬ undone x

section Since

variable {δ : Type*} {done undone : δ → Prop} {log new : List δ} {d : δ}

/-- The entry can be looked for from its place on. -/
theorem since_iff_getElem : Since done undone log ↔
    ∃ k : Fin log.length, done (log.get k) ∧ ∀ x ∈ log.drop (k + 1), ¬ undone x := by
  constructor
  · rintro ⟨past, d, later, rfl, hd, hlater⟩
    refine ⟨⟨past.length, by simp⟩, by simpa using hd, ?_⟩
    simpa using hlater
  · rintro ⟨k, hk, hlater⟩
    refine ⟨log.take k, log.get k, log.drop (k + 1), ?_, hk, hlater⟩
    simp

instance [DecidablePred done] [DecidablePred undone] : Decidable (Since done undone log) :=
  decidable_of_iff _ since_iff_getElem.symm

/-- Entries that do not undo it leave it done. -/
theorem Since.append (h : Since done undone log) (hnew : ∀ x ∈ new, ¬ undone x) :
    Since done undone (log ++ new) := by
  obtain ⟨past, d, later, rfl, hd, hlater⟩ := h
  refine ⟨past, d, later ++ new, by simp, hd, ?_⟩
  intro x hx
  rcases List.mem_append.mp hx with hx | hx
  · exact hlater x hx
  · exact hnew x hx

/-- The last entry did it. -/
theorem since_snoc (hd : done d) : Since done undone (log ++ [d]) :=
  ⟨log, d, [], rfl, hd, fun _ hx => absurd hx List.not_mem_nil⟩

/-- What one more entry makes of it. -/
theorem since_snoc_iff : Since done undone (log ++ [d]) ↔
    done d ∨ Since done undone log ∧ ¬ undone d := by
  constructor
  · rintro ⟨past, e, later, hlog, he, hlater⟩
    rcases List.eq_nil_or_concat later with rfl | ⟨later, x, rfl⟩
    · obtain ⟨-, hd⟩ := List.append_inj' hlog rfl
      cases hd
      exact .inl he
    · rw [List.concat_eq_append, ← List.cons_append, ← List.append_assoc] at hlog
      obtain ⟨rfl, hd⟩ := List.append_inj' hlog rfl
      cases hd
      refine .inr ⟨⟨past, e, later, rfl, he, fun x hx => hlater x ?_⟩, hlater d (by simp)⟩
      simp [hx]
  · rintro (hd | ⟨h, hd⟩)
    · exact since_snoc hd
    · exact h.append (by simpa using hd)

end Since

end P2PFileSharing.Library
