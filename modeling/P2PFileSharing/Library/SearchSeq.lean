import Mathlib.Data.List.Nodup
import Mathlib.Tactic.SplitIfs

/-!
# Search sequences under a comparator

The in-order sequence of a search tree whose comparator is an arbitrary Boolean function.
Every operation walks to the first element that is not below its argument, as a lower-bound
search does, and treats elements that are not below each other as equal. Nothing before the last
section assumes that the sequence is sorted, so the comparator may depend on state that changes.
-/

namespace P2PFileSharing.Library.SearchSeq

variable {α : Type*} (lt : α → α → Bool)

def find (x : α) : List α → Bool
  | [] => false
  | y :: ys => if lt y x then find x ys else !lt x y

def insert (x : α) : List α → List α
  | [] => [x]
  | y :: ys =>
    if lt y x then y :: insert x ys
    else if lt x y then x :: y :: ys
    else y :: ys

def erase (x : α) : List α → List α
  | [] => []
  | y :: ys =>
    if lt y x then y :: erase x ys
    else if lt x y then y :: ys
    else ys

variable {lt}

/-- The comparator is total: elements that are not below each other are equal. -/
def Total (lt : α → α → Bool) : Prop := ∀ x y, lt x y = false → lt y x = false → x = y

theorem mem_of_find (total : Total lt) {x : α} {ys : List α} (h : find lt x ys = true) :
    x ∈ ys := by
  induction ys with
  | nil => simp [find] at h
  | cons y ys ih =>
    unfold find at h
    split_ifs at h with hyx
    · exact List.mem_cons_of_mem y (ih h)
    · have heq : x = y := total x y (by simpa using h) (by simpa using hyx)
      simp [heq]

theorem mem_insert (total : Total lt) {x z : α} {ys : List α} :
    z ∈ insert lt x ys ↔ z = x ∨ z ∈ ys := by
  induction ys with
  | nil => simp [insert]
  | cons y ys ih =>
    unfold insert
    split_ifs with hyx hxy
    · simp only [List.mem_cons, ih]
      exact or_left_comm
    · simp
    · have heq : x = y := total x y (by simpa using hxy) (by simpa using hyx)
      simp [heq]

theorem nodup_insert (total : Total lt) {x : α} {ys : List α} (hys : ys.Nodup) (hx : x ∉ ys) :
    (insert lt x ys).Nodup := by
  induction ys with
  | nil => simp [insert]
  | cons y ys ih =>
    obtain ⟨hy, hys'⟩ := List.nodup_cons.mp hys
    have hxy : x ≠ y := fun h => hx (by simp [h])
    have hxys : x ∉ ys := fun h => hx (List.mem_cons_of_mem y h)
    unfold insert
    split_ifs
    · refine List.nodup_cons.mpr ⟨?_, ih hys' hxys⟩
      rw [mem_insert total]
      rintro (h | h)
      · exact hxy h.symm
      · exact hy h
    · exact List.nodup_cons.mpr ⟨hx, hys⟩
    · exact hys

theorem erase_sublist (x : α) (ys : List α) : (erase lt x ys).Sublist ys := by
  induction ys with
  | nil => simp [erase]
  | cons y ys ih =>
    unfold erase
    split_ifs
    · exact ih.cons_cons y
    · exact List.Sublist.refl _
    · exact List.sublist_cons_self y ys

theorem length_insert_le (x : α) (ys : List α) : (insert lt x ys).length ≤ ys.length + 1 := by
  induction ys with
  | nil => simp [insert]
  | cons y ys ih =>
    unfold insert
    split_ifs
    · simpa using ih
    · simp
    · simp

/-- A key that the search finds is exactly what erasing it removes. -/
theorem mem_erase_of_find (total : Total lt) {x z : α} {ys : List α} (hys : ys.Nodup)
    (hx : find lt x ys = true) : z ∈ erase lt x ys ↔ z ≠ x ∧ z ∈ ys := by
  induction ys with
  | nil => simp [find] at hx
  | cons y ys ih =>
    obtain ⟨hy, hys'⟩ := List.nodup_cons.mp hys
    unfold find at hx
    unfold erase
    split_ifs at hx ⊢ with hyx hxy
    · have hne : y ≠ x := fun h => hy (h ▸ mem_of_find total hx)
      simp only [List.mem_cons, ih hys' hx]
      constructor
      · rintro (rfl | ⟨hz, hmem⟩)
        · exact ⟨hne, .inl rfl⟩
        · exact ⟨hz, .inr hmem⟩
      · rintro ⟨hz, rfl | hmem⟩
        · exact .inl rfl
        · exact .inr ⟨hz, hmem⟩
    · simp [hxy] at hx
    · have heq : x = y := total x y (by simpa using hxy) (by simpa using hyx)
      subst heq
      constructor
      · intro hz
        exact ⟨fun h => hy (h ▸ hz), List.mem_cons_of_mem x hz⟩
      · rintro ⟨hz, hmem⟩
        exact (List.mem_cons.mp hmem).resolve_left hz

/-! ## Sorted sequences -/

/-- The sequence of a search tree whose keys have kept their places. -/
def Sorted (lt : α → α → Bool) (ys : List α) : Prop := ys.Pairwise fun x y => lt x y = true

def Irrefl (lt : α → α → Bool) : Prop := ∀ x, lt x x = false

def Transitive (lt : α → α → Bool) : Prop := ∀ x y z, lt x y = true → lt y z = true → lt x z = true

theorem Sorted.nodup (irrefl : Irrefl lt) {ys : List α} (hys : Sorted lt ys) : ys.Nodup := by
  refine List.Pairwise.imp (fun {x y} hxy heq => ?_) hys
  subst heq
  simp [irrefl x] at hxy

/-- There is one sorted sequence of given elements. -/
theorem Sorted.ext (irrefl : Irrefl lt) (trans : Transitive lt) {xs ys : List α}
    (hxs : Sorted lt xs) (hys : Sorted lt ys) (h : ∀ z, z ∈ xs ↔ z ∈ ys) : xs = ys := by
  have hperm := (List.perm_ext_iff_of_nodup (hxs.nodup irrefl) (hys.nodup irrefl)).mpr h
  refine List.Perm.eq_of_pairwise (fun a b _ _ hab hba => ?_) hxs hys hperm
  have hself := trans a b a hab hba
  rw [irrefl a] at hself
  cases hself

/-- In a sorted sequence the search finds what is there. -/
theorem find_iff_mem (total : Total lt) (irrefl : Irrefl lt) {x : α} {ys : List α}
    (hys : Sorted lt ys) : find lt x ys = true ↔ x ∈ ys := by
  refine ⟨mem_of_find total, fun hx => ?_⟩
  induction ys with
  | nil => simp at hx
  | cons y ys ih =>
    obtain ⟨hy, hys'⟩ := List.pairwise_cons.mp hys
    unfold find
    split_ifs with hyx
    · apply ih hys'
      grind [Irrefl]
    · grind [Irrefl]

theorem sorted_insert (total : Total lt) (trans : Transitive lt) {x : α} {ys : List α}
    (hys : Sorted lt ys) : Sorted lt (insert lt x ys) := by
  induction ys with
  | nil => simp [insert, Sorted]
  | cons y ys ih =>
    obtain ⟨hy, hys'⟩ := List.pairwise_cons.mp hys
    unfold insert
    split_ifs with hyx hxy
    · refine List.pairwise_cons.mpr ⟨fun z hz => ?_, ih hys'⟩
      rcases (mem_insert total).mp hz with rfl | hz
      · exact hyx
      · exact hy z hz
    · refine List.pairwise_cons.mpr ⟨fun z hz => ?_, hys⟩
      rcases List.mem_cons.mp hz with rfl | hz
      · exact hxy
      · exact trans x y z hxy (hy z hz)
    · exact hys

theorem sorted_erase {x : α} {ys : List α} (hys : Sorted lt ys) : Sorted lt (erase lt x ys) :=
  List.Pairwise.sublist (erase_sublist x ys) hys

/-- A comparator that treats the keys of the sequence alike. -/
theorem Sorted.congr {lt' : α → α → Bool} {ys : List α} (hys : Sorted lt ys)
    (h : ∀ x ∈ ys, ∀ y ∈ ys, lt' x y = lt x y) : Sorted lt' ys :=
  hys.imp_of_mem fun {x y} hx hy hxy => (h x hx y hy).trans hxy

end P2PFileSharing.Library.SearchSeq
