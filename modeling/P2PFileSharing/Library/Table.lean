import Mathlib.Data.List.Basic
import Mathlib.Data.List.Pairwise

/-!
# Tables with uniqueness constraints

A table keeps its rows in insertion order. `clash` says which rows must not stand in it
together, as a primary key or a unique column does, and no table holds two that clash.
-/

namespace P2PFileSharing.Library

variable {α : Type*}

/-- Rows in insertion order, no two of which clash. -/
structure Table (clash : α → α → Prop) where
  rows : List α
  apart : rows.Pairwise (fun a b => ¬ clash a b)

namespace Table

variable {clash : α → α → Prop}

instance [DecidableEq α] : DecidableEq (Table clash) := fun s t =>
  decidable_of_iff (s.rows = t.rows) ⟨fun h => by cases s; cases t; cases h; rfl, congrArg rows⟩

instance : EmptyCollection (Table clash) := ⟨⟨[], .nil⟩⟩

instance : Membership α (Table clash) := ⟨fun t r => r ∈ t.rows⟩

instance [DecidableEq α] (t : Table clash) (r : α) : Decidable (r ∈ t) :=
  inferInstanceAs (Decidable (r ∈ t.rows))

theorem mem_def {t : Table clash} {r : α} : r ∈ t ↔ r ∈ t.rows := Iff.rfl

@[simp] theorem notMem_empty (r : α) : r ∉ (∅ : Table clash) := List.not_mem_nil

/-- Two rows of a table that clash are the same row. -/
theorem eq_of_clash (symm : ∀ a b, clash a b → clash b a) {t : Table clash} {a b : α}
    (ha : a ∈ t) (hb : b ∈ t) (h : clash a b) : a = b := by
  by_contra hne
  have : Std.Symm (fun a b => ¬ clash a b) := ⟨fun a b hab hba => hab (symm b a hba)⟩
  exact t.apart.forall ha hb hne h

section Insert

variable [DecidableRel clash]

/-- Append a row, unless it clashes with one that is there. -/
def insert (t : Table clash) (r : α) : Option (Table clash) :=
  if h : ∀ x ∈ t.rows, ¬ clash x r then
    some ⟨t.rows ++ [r], List.pairwise_append.mpr
      ⟨t.apart, List.pairwise_singleton _ r, by simpa using h⟩⟩
  else none

theorem insert_eq_none {t : Table clash} {r : α} :
    t.insert r = none ↔ ∃ x ∈ t, clash x r := by
  simp [insert, mem_def]

theorem insert_eq_some {t u : Table clash} {r : α} :
    t.insert r = some u ↔ (∀ x ∈ t, ¬ clash x r) ∧ u.rows = t.rows ++ [r] := by
  rw [insert]
  split
  · rename_i h
    obtain ⟨rows, apart⟩ := u
    simp only [Option.some.injEq, mk.injEq]
    exact ⟨fun heq => ⟨h, heq.symm⟩, fun heq => heq.2.symm⟩
  · rename_i h
    simp only [reduceCtorEq, false_iff]
    exact fun hnot => h hnot.1

theorem mem_of_insert {t u : Table clash} {r x : α} (h : t.insert r = some u) :
    x ∈ u ↔ x ∈ t ∨ x = r := by
  rw [mem_def, (insert_eq_some.mp h).2, List.mem_append, List.mem_singleton, mem_def]

end Insert

/-- Remove the rows that `p` accepts. -/
def delete (t : Table clash) (p : α → Bool) : Table clash :=
  ⟨t.rows.filter (fun r => !p r), t.apart.filter _⟩

@[simp] theorem mem_delete {t : Table clash} {p : α → Bool} {x : α} :
    x ∈ t.delete p ↔ x ∈ t ∧ p x = false := by
  simp [mem_def, delete]

end Table

end P2PFileSharing.Library
