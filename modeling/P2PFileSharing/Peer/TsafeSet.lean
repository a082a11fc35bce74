import P2PFileSharing.Library.SearchSeq
import Mathlib.Data.List.Range
import Mathlib.Logic.Function.Basic

/-!
# The shared queue of pieces

`tsafe_set` wraps a `std::set` of piece ids whose comparator reads the priority vector of the
peer. Each of its methods holds the lock for its whole body, so each is one function here.
-/

namespace P2PFileSharing.Peer

open Library

/-- The comparator `peer::comp`: by priority, then by piece id. -/
def comp (piecesPriority : Nat → Int) (p1 p2 : Nat) : Bool :=
  if piecesPriority p1 ≠ piecesPriority p2 then piecesPriority p1 < piecesPriority p2
  else p1 < p2

theorem comp_total (piecesPriority : Nat → Int) : SearchSeq.Total (comp piecesPriority) := by
  intro x y hxy hyx
  unfold comp at hxy hyx
  split_ifs at hxy hyx <;> simp at hxy hyx <;> omega

/-- The in-order sequence of the tree, and the priorities that its comparator reads. -/
structure TsafeSet where
  pieceSet : List Nat
  piecesPriority : Nat → Int

namespace TsafeSet

def empty (s : TsafeSet) : Bool := s.pieceSet.isEmpty

/-- `*piece_set.begin()`; it has no meaning on an empty set. -/
def top (s : TsafeSet) : Option Nat := s.pieceSet.head?

def pop (s : TsafeSet) : TsafeSet := { s with pieceSet := s.pieceSet.tail }

def push (s : TsafeSet) (t : Nat) : TsafeSet :=
  { s with pieceSet := SearchSeq.insert (comp s.piecesPriority) t s.pieceSet }

def removeTop (s : TsafeSet) : Option (Nat × TsafeSet) := s.top.map (fun t => (t, s.pop))

def updatePriority (s : TsafeSet) (pieceId : Nat) (priority : Int) : TsafeSet :=
  if SearchSeq.find (comp s.piecesPriority) pieceId s.pieceSet = false then s
  else
    let erased := SearchSeq.erase (comp s.piecesPriority) pieceId s.pieceSet
    let piecesPriority := Function.update s.piecesPriority pieceId priority
    { pieceSet := SearchSeq.insert (comp piecesPriority) pieceId erased, piecesPriority }

/-- The queue that `peer::load_meta` fills: every id pushed in turn, all priorities zero. -/
def load (nPieces : Nat) : TsafeSet := (List.range nPieces).foldl push ⟨[], fun _ => 0⟩

@[simp] theorem mem_push (s : TsafeSet) (t i : Nat) :
    i ∈ (s.push t).pieceSet ↔ i = t ∨ i ∈ s.pieceSet :=
  SearchSeq.mem_insert (comp_total _)

theorem nodup_push {s : TsafeSet} {t : Nat} (hs : s.pieceSet.Nodup) (ht : t ∉ s.pieceSet) :
    (s.push t).pieceSet.Nodup :=
  SearchSeq.nodup_insert (comp_total _) hs ht

theorem removeTop_eq_some {s s' : TsafeSet} {t : Nat} :
    s.removeTop = some (t, s') ↔ s.pieceSet = t :: s'.pieceSet ∧
      s'.piecesPriority = s.piecesPriority := by
  obtain ⟨xs, pr⟩ := s
  obtain ⟨ys, pr'⟩ := s'
  cases xs with
  | nil => simp [removeTop, top]
  | cons x xs =>
    simp only [removeTop, top, pop, List.head?_cons, Option.map_some, Option.some.injEq,
      Prod.mk.injEq, List.tail_cons, TsafeSet.mk.injEq, List.cons.injEq]
    grind

theorem removeTop_eq_none {s : TsafeSet} : s.removeTop = none ↔ s.pieceSet = [] := by
  simp [removeTop, top]

/-- Changing a priority moves its piece and keeps the set of pieces as it was. -/
theorem mem_updatePriority {s : TsafeSet} (hs : s.pieceSet.Nodup) (p : Nat) (q : Int) (i : Nat) :
    i ∈ (s.updatePriority p q).pieceSet ↔ i ∈ s.pieceSet := by
  unfold updatePriority
  split_ifs with hfind
  · rfl
  · have hfind : SearchSeq.find (comp s.piecesPriority) p s.pieceSet = true := by simpa using hfind
    have hmem := SearchSeq.mem_of_find (comp_total _) hfind
    rw [SearchSeq.mem_insert (comp_total _), SearchSeq.mem_erase_of_find (comp_total _) hs hfind]
    by_cases hi : i = p <;> simp [hi, hmem]

theorem nodup_updatePriority {s : TsafeSet} (hs : s.pieceSet.Nodup) (p : Nat) (q : Int) :
    (s.updatePriority p q).pieceSet.Nodup := by
  unfold updatePriority
  split_ifs with hfind
  · exact hs
  · have hfind : SearchSeq.find (comp s.piecesPriority) p s.pieceSet = true := by simpa using hfind
    refine SearchSeq.nodup_insert (comp_total _) (hs.sublist (SearchSeq.erase_sublist _ _)) ?_
    rw [SearchSeq.mem_erase_of_find (comp_total _) hs hfind]
    simp

/-- A whole round of priority changes, as `update_ndata_callback` makes them. -/
def updatePriorities (s : TsafeSet) (updates : List (Nat × Int)) : TsafeSet :=
  updates.foldl (fun s u => s.updatePriority u.1 u.2) s

theorem updatePriorities_spec {s : TsafeSet} (hs : s.pieceSet.Nodup)
    (updates : List (Nat × Int)) :
    (s.updatePriorities updates).pieceSet.Nodup ∧
      ∀ i, i ∈ (s.updatePriorities updates).pieceSet ↔ i ∈ s.pieceSet := by
  induction updates generalizing s with
  | nil => exact ⟨hs, fun _ => Iff.rfl⟩
  | cons u us ih =>
    obtain ⟨hnodup, hmem⟩ := ih (nodup_updatePriority hs u.1 u.2)
    exact ⟨hnodup, fun i => (hmem i).trans (mem_updatePriority hs u.1 u.2 i)⟩

/-- A set that has a piece keeps one while a priority changes. -/
theorem updatePriority_ne_nil {s : TsafeSet} (hs : s.pieceSet ≠ []) (p : Nat) (q : Int) :
    (s.updatePriority p q).pieceSet ≠ [] := by
  unfold updatePriority
  split_ifs
  · exact hs
  · exact List.ne_nil_of_mem ((SearchSeq.mem_insert (comp_total _)).mpr (.inl rfl))

theorem updatePriorities_ne_nil {s : TsafeSet} (hs : s.pieceSet ≠ []) (updates : List (Nat × Int)) :
    (s.updatePriorities updates).pieceSet ≠ [] := by
  induction updates generalizing s with
  | nil => exact hs
  | cons u us ih => exact ih (updatePriority_ne_nil hs u.1 u.2)

theorem load_succ (n : Nat) : load (n + 1) = (load n).push n := by simp [load, List.range_succ]

theorem load_spec (n : Nat) :
    (load n).pieceSet.Nodup ∧ ∀ i, i ∈ (load n).pieceSet ↔ i < n := by
  induction n with
  | zero => simp [load]
  | succ n ih =>
    obtain ⟨hnodup, hmem⟩ := ih
    rw [load_succ]
    refine ⟨nodup_push hnodup (by simp [hmem]), fun i => ?_⟩
    rw [mem_push, hmem]
    omega

theorem length_load (n : Nat) : (load n).pieceSet.length = n := by
  obtain ⟨hnodup, hmem⟩ := load_spec n
  have hperm : (load n).pieceSet.Perm (List.range n) :=
    (List.perm_ext_iff_of_nodup hnodup List.nodup_range).mpr fun i => by simp [hmem]
  simpa using hperm.length_eq

/-! ## The order of the set -/

theorem comp_irrefl (piecesPriority : Nat → Int) : SearchSeq.Irrefl (comp piecesPriority) := by
  intro x
  simp [comp]

theorem comp_trans (piecesPriority : Nat → Int) : SearchSeq.Transitive (comp piecesPriority) := by
  intro x y z hxy hyz
  unfold comp at hxy hyz ⊢
  split_ifs at hxy hyz ⊢ <;> simp at hxy hyz ⊢ <;> omega

/-- The sequence is sorted by the priorities as they are now. -/
def Ordered (s : TsafeSet) : Prop := SearchSeq.Sorted (comp s.piecesPriority) s.pieceSet

variable {s s' : TsafeSet} {t : Nat}

theorem Ordered.nodup (h : s.Ordered) : s.pieceSet.Nodup := SearchSeq.Sorted.nodup (comp_irrefl _) h

theorem Ordered.push (h : s.Ordered) (t : Nat) : (s.push t).Ordered :=
  SearchSeq.sorted_insert (comp_total _) (comp_trans _) h

theorem Ordered.removeTop (h : s.Ordered) (htop : s.removeTop = some (t, s')) : s'.Ordered := by
  obtain ⟨hset, hpriority⟩ := removeTop_eq_some.mp htop
  unfold Ordered at h ⊢
  rw [hset] at h
  rw [hpriority]
  exact (List.pairwise_cons.mp h).2

/-- A priority changes while its piece is out of the sequence. -/
theorem Ordered.updatePriority (h : s.Ordered) (p : Nat) (q : Int) :
    (s.updatePriority p q).Ordered := by
  unfold TsafeSet.updatePriority
  split_ifs with hfind
  · exact h
  · have hfind : SearchSeq.find (comp s.piecesPriority) p s.pieceSet = true := by simpa using hfind
    have hmem (i : Nat) := SearchSeq.mem_erase_of_find (z := i) (comp_total _) h.nodup hfind
    refine SearchSeq.sorted_insert (comp_total _) (comp_trans _) ?_
    refine (SearchSeq.sorted_erase h).congr fun x hx y hy => ?_
    have hxp := ((hmem x).mp hx).1
    have hyp := ((hmem y).mp hy).1
    simp [comp, hxp, hyp]

/-- Only the priority of a piece of the set can be changed. -/
theorem Ordered.piecesPriority_updatePriority (h : s.Ordered) (p : Nat) (q : Int) :
    (s.updatePriority p q).piecesPriority =
      if p ∈ s.pieceSet then Function.update s.piecesPriority p q else s.piecesPriority := by
  have hfind := SearchSeq.find_iff_mem (x := p) (comp_total _) (comp_irrefl _) h
  unfold TsafeSet.updatePriority
  by_cases hp : p ∈ s.pieceSet
  · rw [if_neg (by simp [hfind.mpr hp]), if_pos hp]
  · rw [if_pos (by simpa using mt hfind.mp hp), if_neg hp]

theorem Ordered.piecesPriority_updatePriority_of_ne (h : s.Ordered) {p i : Nat} (hi : i ≠ p)
    (q : Int) : (s.updatePriority p q).piecesPriority i = s.piecesPriority i := by
  rw [h.piecesPriority_updatePriority]
  split_ifs <;> simp [hi]

/-- The pieces and their priorities make the sequence. -/
theorem Ordered.ext (h : s.Ordered) (h' : s'.Ordered)
    (hpriority : ∀ i, s'.piecesPriority i = s.piecesPriority i)
    (hmem : ∀ i, i ∈ s'.pieceSet ↔ i ∈ s.pieceSet) : s' = s := by
  obtain ⟨set, priority⟩ := s
  obtain ⟨set', priority'⟩ := s'
  obtain rfl : priority' = priority := funext hpriority
  obtain rfl : set' = set := SearchSeq.Sorted.ext (comp_irrefl _) (comp_trans _) h' h hmem
  rfl

theorem ordered_load (n : Nat) : (load n).Ordered := by
  induction n with
  | zero => exact List.Pairwise.nil
  | succ n ih =>
    rw [load_succ]
    exact ih.push n

theorem piecesPriority_load (n i : Nat) : (load n).piecesPriority i = 0 := by
  induction n with
  | zero => rfl
  | succ n ih =>
    rw [load_succ]
    exact ih

end TsafeSet

end P2PFileSharing.Peer
