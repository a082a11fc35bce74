import P2PFileSharing.Library.History
import P2PFileSharing.Peer.TsafeSet
import Mathlib.Data.Prod.Lex

/-!
# The queue of pieces under changing priorities

`tsafe_set` as a machine of its own: any calls of its methods, one after another. Its comparator
orders the pieces by a key that a call may change, so what is said here holds of the keys as they
are when a call is made.
-/

namespace P2PFileSharing.Peer.TsafeSet

open Library Machine

/-- A call of a method of `tsafe_set`. -/
inductive Op where
  | push (t : Nat)
  | removeTop
  | updatePriority (pieceId : Nat) (priority : Int)

/-- What a call does to the set. Only `remove_top` of an empty set has no meaning. -/
def step (s : TsafeSet) : Op → Option TsafeSet
  | .push t => some (s.push t)
  | .removeTop => s.removeTop.map Prod.snd
  | .updatePriority pieceId priority => some (s.updatePriority pieceId priority)

/-- A piece came into the set or left it. -/
inductive Entry where
  | inserted (i : Nat)
  | removed (i : Nat)
  deriving DecidableEq

def entries (s : TsafeSet) : Op → List Entry
  | .push t => [.inserted t]
  | .removeTop => s.top.toList.map .removed
  | .updatePriority _ _ => []

/-- By the log, the piece has been inserted and not removed since. -/
def Held (log : List Entry) (i : Nat) : Prop := Since (· = .inserted i) (· = .removed i) log

/-- The key of a piece under the priorities of the moment. -/
def key (s : TsafeSet) (i : Nat) : Int ×ₗ Nat := toLex (s.piecesPriority i, i)

/-! ## The comparator compares keys -/

variable {s s' : TsafeSet} {t : Nat}

theorem comp_iff_key_lt {x y : Nat} : comp s.piecesPriority x y = true ↔ s.key x < s.key y := by
  rw [key, key, Prod.Lex.toLex_lt_toLex]
  unfold comp
  split_ifs with hne
  · simp [hne]
  · simp [not_not.mp hne]

/-- The first piece of an ordered set has the least key. -/
theorem Ordered.top_least (h : s.Ordered) (htop : s.removeTop = some (t, s')) :
    t ∈ s.pieceSet ∧ ∀ i ∈ s.pieceSet, s.key t ≤ s.key i := by
  obtain ⟨hset, -⟩ := removeTop_eq_some.mp htop
  unfold Ordered at h
  rw [hset] at h ⊢
  refine ⟨List.mem_cons_self, fun i hi => ?_⟩
  rcases List.mem_cons.mp hi with rfl | hi
  · exact le_refl _
  · exact (comp_iff_key_lt.mp ((List.pairwise_cons.mp h).1 i hi)).le

theorem Ordered.mem_removeTop (h : s.Ordered) (htop : s.removeTop = some (t, s')) (i : Nat) :
    i ∈ s'.pieceSet ↔ i ≠ t ∧ i ∈ s.pieceSet := by
  obtain ⟨hset, -⟩ := removeTop_eq_some.mp htop
  have hnodup := h.nodup
  rw [hset] at hnodup ⊢
  have hnot := (List.nodup_cons.mp hnodup).1
  constructor
  · intro hi
    exact ⟨fun heq => hnot (heq ▸ hi), List.mem_cons_of_mem t hi⟩
  · rintro ⟨hne, hi⟩
    exact (List.mem_cons.mp hi).resolve_left hne

/-! ## What one call keeps -/

theorem held_inserted {log : List Entry} {i : Nat} :
    Held (log ++ [.inserted t]) i ↔ i = t ∨ Held log i := by
  rw [Held, since_snoc_iff]
  simp [Held, eq_comm]

theorem held_removed {log : List Entry} {i : Nat} :
    Held (log ++ [.removed t]) i ↔ i ≠ t ∧ Held log i := by
  rw [Held, since_snoc_iff]
  simp [Held, and_comm, eq_comm]

/-- The set is in order and has the pieces that the log says. -/
structure Queued (s : TsafeSet) (log : List Entry) : Prop where
  ordered : s.Ordered
  mem_iff : ∀ i, i ∈ s.pieceSet ↔ Held log i

theorem Queued.step {log : List Entry} {op : Op} (h : Queued s log) (hstep : step s op = some s') :
    Queued s' (log ++ entries s op) := by
  cases op with
  | push t =>
    cases hstep
    refine ⟨h.ordered.push t, fun i => ?_⟩
    rw [mem_push, h.mem_iff, entries, held_inserted]
  | removeTop =>
    obtain ⟨⟨t, s''⟩, htop, rfl⟩ := Option.map_eq_some_iff.mp hstep
    have hhead : s.top = some t := by
      rw [top, (removeTop_eq_some.mp htop).1, List.head?_cons]
    refine ⟨h.ordered.removeTop htop, fun i => ?_⟩
    rw [h.ordered.mem_removeTop htop, h.mem_iff, entries, hhead]
    exact held_removed.symm
  | updatePriority p q =>
    cases hstep
    refine ⟨h.ordered.updatePriority p q, fun i => ?_⟩
    rw [mem_updatePriority h.ordered.nodup, h.mem_iff, entries, List.append_nil]

theorem queued_run {priorities : Nat → Int} {ops : List Op}
    (hrun : run step ⟨[], priorities⟩ ops = some s) :
    Queued s (log step entries ⟨[], priorities⟩ ops) := by
  have hstart : Queued ⟨[], priorities⟩ [] := by
    refine ⟨List.Pairwise.nil, fun i => ?_⟩
    simp [Held, Since]
  simpa using run_log_invariant (fun _ _ _ _ h hstep => h.step hstep) hstart hrun

/-- After any calls the set is in order under the priorities as they are by then, it has the pieces
that were inserted and not removed, every search finds its piece, and the next piece to be taken
has the least priority and the least id among these. -/
theorem piece_queue_ordered (priorities : Nat → Int) (ops : List Op)
    (hrun : run step ⟨[], priorities⟩ ops = some s) :
    s.pieceSet.Pairwise (fun x y => comp s.piecesPriority x y = true) ∧ s.pieceSet.Nodup ∧
      (∀ i, i ∈ s.pieceSet ↔ Held (log step entries ⟨[], priorities⟩ ops) i) ∧
      (∀ i, SearchSeq.find (comp s.piecesPriority) i s.pieceSet = true ↔ i ∈ s.pieceSet) ∧
      (∀ i ∈ s.pieceSet, ∀ j,
        j ∈ SearchSeq.erase (comp s.piecesPriority) i s.pieceSet ↔ j ≠ i ∧ j ∈ s.pieceSet) ∧
      (s.pieceSet ≠ [] → ∃ t s', s.removeTop = some (t, s') ∧ t ∈ s.pieceSet ∧
        ∀ i ∈ s.pieceSet, s.key t ≤ s.key i) := by
  have h := queued_run hrun
  have hfind (i : Nat) := SearchSeq.find_iff_mem (x := i) (comp_total _) (comp_irrefl _) h.ordered
  refine ⟨h.ordered, h.ordered.nodup, h.mem_iff, hfind, fun i hi j => ?_, fun hne => ?_⟩
  · exact SearchSeq.mem_erase_of_find (comp_total _) h.ordered.nodup ((hfind i).mpr hi)
  · obtain ⟨⟨t, s'⟩, htop⟩ := Option.ne_none_iff_exists'.mp (mt removeTop_eq_none.mp hne)
    exact ⟨t, s', htop, h.ordered.top_least htop⟩

/-- Piece 1 leaves the set and comes back; its priority is changed in between to no effect. -/
theorem piece_queue_reentered :
    let ops : List Op := [.push 0, .push 1, .updatePriority 1 (-1), .removeTop, .updatePriority 1 2,
      .push 1]
    ∃ s, run step ⟨[], fun _ => 0⟩ ops = some s ∧ s.pieceSet = [1, 0] ∧ s.pieceSet.Nodup :=
  ⟨_, rfl, by decide, (piece_queue_ordered (fun _ => 0) [.push 0, .push 1, .updatePriority 1 (-1),
    .removeTop, .updatePriority 1 2, .push 1] rfl).2.1⟩

end P2PFileSharing.Peer.TsafeSet
