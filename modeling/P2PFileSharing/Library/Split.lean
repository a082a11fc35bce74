import Mathlib.Data.List.Infix
import Mathlib.Tactic.SplitIfs

/-!
# Cutting a sequence at a separator

`Free d x` says that in `x ++ d` the separator `d` occurs for the first time at the end, so
that a left-to-right scan of `x ++ d ++ y` cuts exactly between `x` and `y`. A sequence either
does not contain the separator or has such a cut, which gives the induction rule for scanners.
-/

namespace P2PFileSharing.Library.Split

variable {α : Type*}

/-- In `x ++ d`, the separator does not start anywhere inside `x`. -/
def Free (d : List α) : List α → Prop
  | [] => True
  | c :: x => ¬ d <+: (c :: x) ++ d ∧ Free d x

instance decidableFree [DecidableEq α] (d : List α) : (x : List α) → Decidable (Free d x)
  | [] => .isTrue trivial
  | _ :: x =>
    have := decidableFree d x
    inferInstanceAs (Decidable (_ ∧ _))

variable {d x y s : List α}

@[simp] theorem free_nil : Free d [] := trivial

theorem free_cons {c : α} : Free d (c :: x) ↔ ¬ d <+: (c :: x) ++ d ∧ Free d x := Iff.rfl

theorem Free.of_append (h : Free d (x ++ y)) : Free d y := by
  induction x with
  | nil => exact h
  | cons c x ih => exact ih h.2

/-- A prefix as long as the separator is decided by the bytes up to the separator's end. -/
theorem prefix_append_iff : d <+: x ++ d ++ y ↔ d <+: x ++ d := by
  constructor
  · intro h
    exact List.prefix_of_prefix_length_le h (List.prefix_append _ _) (by simp)
  · intro h
    exact h.trans (List.prefix_append _ _)

theorem Free.not_prefix {c : α} (h : Free d (c :: x)) : ¬ d <+: (c :: x) ++ d ++ y := by
  rw [prefix_append_iff]
  exact h.1

/-- A separator that occurs in a sequence does not leave it free. -/
theorem Free.not_infix (hd : d ≠ []) (h : Free d x) : ¬ d <:+: x := by
  induction x with
  | nil => simpa using hd
  | cons c x ih =>
    rw [List.infix_cons_iff]
    rintro (hpre | hin)
    · exact h.1 (hpre.trans (List.prefix_append _ _))
    · exact ih h.2 hin

/-- No occurrence of the separator is earlier than the end of a free part. -/
theorem Free.eq_of_prefix {z : List α} (h : Free d z) (hpre : x ++ d <+: z ++ d ++ y)
    (hlen : x.length ≤ z.length) : x = z := by
  have hxz : x <+: z := by
    refine List.prefix_of_prefix_length_le ((List.prefix_append x d).trans hpre) ?_ hlen
    exact (List.prefix_append z d).trans (List.prefix_append _ y)
  obtain ⟨_ | ⟨c, w⟩, rfl⟩ := hxz
  · simp
  · have hd : d <+: (c :: w) ++ d ++ y := by
      simpa [List.prefix_append_right_inj] using hpre
    exact absurd hd h.of_append.not_prefix

/-- For a separator of one element, free means absent. -/
theorem free_singleton {c : α} : Free [c] x ↔ c ∉ x := by
  induction x with
  | nil => simp
  | cons e x ih => simp [free_cons, ih]

section Find

variable [DecidableEq α]

/-- The position of the first occurrence. -/
def find (d : List α) : List α → Option Nat
  | [] => if d = [] then some 0 else none
  | c :: s => if d <+: c :: s then some 0 else (find d s).map (· + 1)

theorem find_of_free (hd : d ≠ []) (hx : Free d x) (y : List α) :
    find d (x ++ d ++ y) = some x.length := by
  induction x with
  | nil =>
    cases d with
    | nil => exact absurd rfl hd
    | cons e d => simp [find]
  | cons c x ih =>
    have hnot : ¬ d <+: c :: (x ++ d ++ y) := hx.not_prefix
    simp only [List.cons_append, find, if_neg hnot, ih hx.2, Option.map_some, List.length_cons]

theorem find_eq_none (hd : d ≠ []) : find d s = none ↔ ¬ d <:+: s := by
  induction s with
  | nil => simp [find, hd]
  | cons c s ih =>
    rw [List.infix_cons_iff]
    by_cases hpre : d <+: c :: s
    · simp [find, hpre]
    · simp [find, hpre, ih]

/-- The first occurrence cuts the sequence after a part that is free of the separator. -/
theorem exists_cut_of_find {k : Nat} (h : find d s = some k) :
    ∃ x y, s = x ++ d ++ y ∧ x.length = k ∧ Free d x := by
  induction s generalizing k with
  | nil =>
    simp only [find] at h
    split_ifs at h with hd
    cases h
    exact ⟨[], [], by simp [hd], rfl, trivial⟩
  | cons c s ih =>
    simp only [find] at h
    split_ifs at h with hpre
    · cases h
      obtain ⟨y, hy⟩ := hpre
      exact ⟨[], y, by simp [hy], rfl, trivial⟩
    · obtain ⟨j, hj, rfl⟩ := Option.map_eq_some_iff.mp h
      obtain ⟨x, y, rfl, hlen, hx⟩ := ih hj
      refine ⟨c :: x, y, by simp, by simp [hlen], ?_, hx⟩
      intro hbad
      exact hpre (hbad.trans (by simp))

end Find

theorem exists_cut (h : d <:+: s) : ∃ x y, s = x ++ d ++ y ∧ Free d x := by
  classical
  rcases hf : find d s with _ | k
  · by_cases hd : d = []
    · exact ⟨[], s, by simp [hd], trivial⟩
    · exact absurd h ((find_eq_none hd).mp hf)
  · obtain ⟨x, y, hs, -, hx⟩ := exists_cut_of_find hf
    exact ⟨x, y, hs, hx⟩

/-- Scanning induction: a sequence has no separator, or is a free part, the separator and
a shorter rest. -/
theorem cut_induction {P : List α → Prop} (hd : d ≠ [])
    (last : ∀ s, ¬ d <:+: s → P s) (cut : ∀ x y, Free d x → P y → P (x ++ d ++ y))
    (s : List α) : P s := by
  induction hn : s.length using Nat.strong_induction_on generalizing s with
  | _ n ih =>
    by_cases h : d <:+: s
    · obtain ⟨x, y, rfl, hx⟩ := exists_cut h
      have hpos : 0 < d.length := List.length_pos_of_ne_nil hd
      exact cut x y hx (ih y.length (by simp at hn; omega) y rfl)
    · exact last s h

/-! ## Joining -/

/-- The sequence is free parts with the separator behind each of them, so that its scan ends on
a match. -/
inductive EndsOnMatch (d : List α) : List α → Prop
  | last {x : List α} (hx : Free d x) : EndsOnMatch d (x ++ d)
  | cut {x y : List α} (hx : Free d x) (hy : EndsOnMatch d y) : EndsOnMatch d (x ++ d ++ y)

theorem EndsOnMatch.isInfix (h : EndsOnMatch d s) : d <:+: s := by
  cases h with
  | last hx => exact (List.suffix_append _ _).isInfix
  | cut hx hy => exact ⟨_, _, rfl⟩

/-- The scan of a sequence with a cut ends on a match if it does so there or later. -/
theorem Free.endsOnMatch_iff (hx : Free d x) :
    EndsOnMatch d (x ++ d ++ y) ↔ y = [] ∨ EndsOnMatch d y := by
  have hunique {z w : List α} (hz : Free d z) (h : z ++ d ++ w = x ++ d ++ y) : w = y := by
    rcases Nat.le_total x.length z.length with hlen | hlen
    · have hpre : x ++ d <+: z ++ d ++ w := ⟨y, h.symm⟩
      cases hz.eq_of_prefix hpre hlen
      exact List.append_cancel_left h
    · have hpre : z ++ d <+: x ++ d ++ y := ⟨w, h⟩
      cases hx.eq_of_prefix hpre hlen
      exact List.append_cancel_left h
  constructor
  · intro h
    generalize hs : x ++ d ++ y = s at h
    cases h with
    | last hz => exact .inl (hunique hz (by rw [List.append_nil, hs])).symm
    | cut hz hw => exact .inr (hunique hz hs.symm ▸ hw)
  · rintro (rfl | hy)
    · rw [List.append_nil]
      exact .last hx
    · exact .cut hx hy

/-- No proper part at the start of the separator is also at its end. -/
def Borderless (d : List α) : Prop := ∀ p, p <+: d → p <:+ d → p = [] ∨ p = d

/-- A part without a borderless separator cannot start one either. -/
theorem Borderless.free (hd : Borderless d) (h : ¬ d <:+: x) : Free d x := by
  induction x with
  | nil => trivial
  | cons c x ih =>
    rw [List.infix_cons_iff, not_or] at h
    refine ⟨fun hpre => ?_, ih h.2⟩
    rcases List.prefix_or_prefix_of_prefix hpre (List.prefix_append (c :: x) d) with hin | ⟨p, rfl⟩
    · exact h.1 hin
    · have hp : p <+: c :: x ++ p := (List.prefix_append_right_inj (c :: x)).mp hpre
      rcases hd p hp (List.suffix_append _ p) with rfl | hself
      · rw [List.append_nil] at h
        exact h.1 List.prefix_rfl
      · have hlen := congrArg List.length hself
        rw [List.length_append, List.length_cons] at hlen
        omega

end P2PFileSharing.Library.Split
