import Mathlib.Data.List.Basic
import Mathlib.Tactic.SplitIfs

/-!
# Sequences in chunks

A sequence is cut into chunks of one length, of which only the last may be shorter. `patch` puts
data at a position of a sequence, as a write does at a position of a file: it grows the sequence
where it has to, and fills what lies between the old end and the data.
-/

namespace P2PFileSharing.Library

variable {α : Type*} {len i j k pos : Nat} {fill : α} {data xs ys : List α}

/-- Chunk `i` of a sequence. -/
def chunk (len i : Nat) (xs : List α) : List α := (xs.drop (i * len)).take len

/-- The number of chunks, rounded up. -/
def chunkCount (len : Nat) (xs : List α) : Nat := (xs.length + len - 1) / len

/-- `data` over `xs` at `pos`. To put nothing somewhere changes nothing. -/
def patch (fill : α) (pos : Nat) (data xs : List α) : List α :=
  if data = [] then xs
  else xs.take pos ++ List.replicate (pos - xs.length) fill ++ data ++ xs.drop (pos + data.length)

/-! ## Chunks -/

@[grind =] theorem length_chunk (len i : Nat) (xs : List α) :
    (chunk len i xs).length = min len (xs.length - i * len) := by
  simp [chunk]

@[grind =] theorem getElem?_chunk (len i k : Nat) (xs : List α) :
    (chunk len i xs)[k]? = if k < len then xs[i * len + k]? else none := by
  simp [chunk, List.getElem?_take]

theorem chunk_eq_nil_iff (hlen : 0 < len) : chunk len i xs = [] ↔ xs.length ≤ i * len := by
  rw [← List.length_eq_zero_iff, length_chunk]
  omega

theorem lt_chunkCount (hlen : 0 < len) : i < chunkCount len xs ↔ i * len < xs.length := by
  rw [chunkCount, Nat.lt_iff_add_one_le, Nat.le_div_iff_mul_le hlen, Nat.succ_mul]
  omega

/-- An earlier chunk ends before a later one begins. -/
theorem chunk_end_le (len : Nat) (h : i < j) : i * len + len ≤ j * len := by
  rw [← Nat.succ_mul]
  exact Nat.mul_le_mul_right len h

/-- Every position is in the chunk that its quotient names. -/
theorem getElem?_eq_chunk (hlen : 0 < len) (p : Nat) (xs : List α) :
    xs[p]? = (chunk len (p / len) xs)[p % len]? := by
  rw [getElem?_chunk, if_pos (Nat.mod_lt p hlen), Nat.div_add_mod']

/-- A sequence that is no longer than another one and has its chunks is the other one. -/
theorem eq_of_chunks (hlen : 0 < len) (hle : xs.length ≤ ys.length)
    (h : ∀ i, i * len < ys.length → chunk len i xs = chunk len i ys) : xs = ys := by
  apply List.ext_getElem?
  intro p
  by_cases hp : p < ys.length
  · have hstart : p / len * len < ys.length := Nat.lt_of_le_of_lt (Nat.div_mul_le_self p len) hp
    rw [getElem?_eq_chunk hlen, getElem?_eq_chunk hlen p ys, h _ hstart]
  · rw [List.getElem?_eq_none (by omega), List.getElem?_eq_none (by omega)]

theorem flatMap_chunk_range (len n : Nat) (xs : List α) :
    (List.range n).flatMap (fun i => chunk len i xs) = xs.take (n * len) := by
  induction n with
  | zero => simp
  | succ n ih =>
    rw [List.range_succ, List.flatMap_append, ih, List.flatMap_singleton, Nat.succ_mul,
      List.take_add]
    rfl

/-- The chunks in their order are the whole sequence. -/
theorem flatMap_chunk (hlen : 0 < len) (xs : List α) :
    (List.range (chunkCount len xs)).flatMap (fun i => chunk len i xs) = xs := by
  rw [flatMap_chunk_range]
  apply List.take_of_length_le
  have hlast : ¬ chunkCount len xs * len < xs.length := by
    rw [← lt_chunkCount hlen]
    exact Nat.lt_irrefl _
  omega

theorem chunk_drop (len i : Nat) (xs : List α) :
    chunk len i (xs.drop len) = chunk len (i + 1) xs := by
  rw [chunk, chunk, List.drop_drop, Nat.succ_mul, Nat.add_comm]

/-- Without its first chunk a sequence has one chunk less. -/
theorem chunkCount_drop (hlen : 0 < len) (hxs : len ≤ xs.length) :
    chunkCount len xs = chunkCount len (xs.drop len) + 1 := by
  rw [chunkCount, chunkCount, List.length_drop, ← Nat.add_div_right _ hlen]
  congr 1
  omega

theorem chunkCount_of_lt (hlt : xs.length < len) :
    chunkCount len xs = if xs = [] then 0 else 1 := by
  have hpos : xs ≠ [] ↔ 0 < xs.length := List.length_pos_iff.symm
  unfold chunkCount
  split_ifs with hnil
  · rw [hnil, List.length_nil, Nat.zero_add]
    exact Nat.div_eq_of_lt (by omega)
  · have hxs := hpos.mp hnil
    exact Nat.div_eq_of_lt_le (by omega) (by omega)

/-! ## Sequences of chunks -/

section Blocks

variable {n : Nat} {f : Nat → List α}

theorem length_flatMap_range (hf : ∀ i < n, (f i).length = len) :
    ((List.range n).flatMap f).length = n * len := by
  induction n with
  | zero => simp
  | succ n ih =>
    rw [List.range_succ, List.flatMap_append, List.length_append, ih fun i hi => hf i (by omega),
      List.flatMap_singleton, hf n (Nat.lt_succ_self n), Nat.succ_mul]

/-- Blocks of one length are the chunks of what they make up. -/
theorem chunk_flatMap_range (hf : ∀ i < n, (f i).length = len) (hi : i < n) :
    chunk len i ((List.range n).flatMap f) = f i := by
  induction n with
  | zero => omega
  | succ n ih =>
    have hfront := length_flatMap_range fun i (hi : i < n) => hf i (by omega)
    rw [List.range_succ, List.flatMap_append, List.flatMap_singleton]
    by_cases hin : i < n
    · have hend := chunk_end_le len hin
      rw [← ih (fun i hi => hf i (by omega)) hin, chunk, chunk,
        List.drop_append_of_le_length (by omega), List.take_append_of_le_length]
      rw [List.length_drop]
      omega
    · obtain rfl : i = n := by omega
      rw [chunk, List.drop_left' hfront,
        List.take_of_length_le (Nat.le_of_eq (hf i (Nat.lt_succ_self i)))]

end Blocks

/-! ## Writing -/

@[grind =] theorem length_patch (hdata : data ≠ []) :
    (patch fill pos data xs).length = max xs.length (pos + data.length) := by
  simp only [patch, if_neg hdata, List.length_append, List.length_take, List.length_replicate,
    List.length_drop]
  omega

theorem getElem?_patch (hdata : data ≠ []) (k : Nat) : (patch fill pos data xs)[k]? =
    if k < pos then (if k < xs.length then xs[k]? else some fill)
    else if k < pos + data.length then data[k - pos]? else xs[k]? := by
  have hfront : (xs.take pos ++ List.replicate (pos - xs.length) fill).length = pos := by
    rw [List.length_append, List.length_take, List.length_replicate]
    omega
  simp only [patch, if_neg hdata, List.append_assoc] at hfront ⊢
  rw [← List.append_assoc, List.getElem?_append, hfront]
  split_ifs with hk hxs hd
  · rw [List.getElem?_append_left (by rw [List.length_take]; omega), List.getElem?_take_of_lt hk]
  · rw [List.getElem?_append_right (by rw [List.length_take]; omega), List.getElem?_replicate,
      List.length_take, if_pos (by omega)]
  · exact List.getElem?_append_left (by omega)
  · rw [List.getElem?_append_right (by omega), List.getElem?_drop]
    congr 1
    omega

/-- The chunk that is written is the data, where nothing is left behind them. -/
theorem chunk_patch_self (hdata : data ≠ []) (hlen : data.length ≤ len)
    (hrest : data.length = len ∨ xs.length ≤ j * len + data.length) :
    chunk len j (patch fill (j * len) data xs) = data := by
  apply List.ext_getElem?
  intro k
  rw [getElem?_chunk, getElem?_patch hdata]
  grind

/-- A chunk before the one that is written is filled up. -/
theorem chunk_patch_of_lt (hdata : data ≠ []) (h : i < j) :
    chunk len i (patch fill (j * len) data xs) =
      chunk len i xs ++ List.replicate (len - (chunk len i xs).length) fill := by
  have hend := chunk_end_le len h
  apply List.ext_getElem?
  intro k
  rw [getElem?_chunk, getElem?_patch hdata]
  grind

/-- A chunk behind the one that is written stays as it was. -/
theorem chunk_patch_of_gt (hdata : data ≠ []) (hlen : data.length ≤ len) (h : j < i) :
    chunk len i (patch fill (j * len) data xs) = chunk len i xs := by
  have hend := chunk_end_le len h
  apply List.ext_getElem?
  intro k
  rw [getElem?_chunk, getElem?_patch hdata, getElem?_chunk]
  grind

/-- A full chunk is not touched by the writing of another one. -/
theorem chunk_patch_of_full (hdata : data ≠ []) (hlen : data.length ≤ len) (h : i ≠ j)
    (hfull : (chunk len i xs).length = len) :
    chunk len i (patch fill (j * len) data xs) = chunk len i xs := by
  rcases Nat.lt_or_gt_of_ne h with h | h
  · rw [chunk_patch_of_lt hdata h, hfull, Nat.sub_self, List.replicate_zero, List.append_nil]
  · exact chunk_patch_of_gt hdata hlen h

/-! ## Putting a sequence together -/

/-- `xs` has those chunks of `ys` that are listed, and does not reach beyond it. -/
structure HasChunks (len : Nat) (ys : List α) (ids : Nat → Prop) (xs : List α) : Prop where
  length_le : xs.length ≤ ys.length
  chunk_eq : ∀ i, ids i → chunk len i xs = chunk len i ys

/-- One more chunk is written; the listed ones stay, because those before it are full. -/
theorem HasChunks.patch {ids : Nat → Prop} (h : HasChunks len ys ids xs) (fill : α)
    (hj : j * len < ys.length) (hlen : 0 < len) :
    HasChunks len ys (fun i => i = j ∨ ids i) (patch fill (j * len) (chunk len j ys) xs) := by
  have hdata : chunk len j ys ≠ [] := by
    rw [Ne, chunk_eq_nil_iff hlen]
    omega
  have hsize : (chunk len j ys).length = min len (ys.length - j * len) := length_chunk len j ys
  have hle := h.length_le
  constructor
  · rw [length_patch hdata]
    omega
  · intro i hi
    by_cases hij : i = j
    · subst hij
      exact chunk_patch_self hdata (by omega) (by omega)
    · have hids : ids i := hi.resolve_left hij
      rcases Nat.lt_or_gt_of_ne hij with hlt | hgt
      · have hend := chunk_end_le len hlt
        have hfull : (chunk len i xs).length = len := by
          rw [h.chunk_eq i hids, length_chunk]
          omega
        rw [chunk_patch_of_full hdata (by omega) hij hfull, h.chunk_eq i hids]
      · rw [chunk_patch_of_gt hdata (by omega) hgt, h.chunk_eq i hids]

/-- Chunks that are written in any order, each as often as one likes, put the sequence together
once all of them have been written. -/
theorem foldl_patch_chunk {ids : List Nat} (hlen : 0 < len)
    (hids : ∀ i ∈ ids, i < chunkCount len ys)
    (hcover : ∀ i < chunkCount len ys, i ∈ ids) (hle : xs.length ≤ ys.length) :
    ids.foldl (fun zs i => patch fill (i * len) (chunk len i ys) zs) xs = ys := by
  have written (ids : List Nat) (hids : ∀ i ∈ ids, i < chunkCount len ys) {known : Nat → Prop}
      {xs : List α} (h : HasChunks len ys known xs) : HasChunks len ys (fun i => i ∈ ids ∨ known i)
        (ids.foldl (fun zs i => patch fill (i * len) (chunk len i ys) zs) xs) := by
    induction ids generalizing xs known with
    | nil => simpa using h
    | cons j ids ih =>
      obtain ⟨hj, hids⟩ := List.forall_mem_cons.mp hids
      have hrest := ih hids (h.patch fill ((lt_chunkCount hlen).mp hj) hlen)
      refine ⟨hrest.length_le, fun i hi => hrest.chunk_eq i ?_⟩
      simpa [or_assoc, or_left_comm] using hi
  have hnone : HasChunks len ys (fun _ => False) xs := ⟨hle, fun _ => False.elim⟩
  have hall := written ids hids hnone
  exact eq_of_chunks hlen hall.length_le fun i hi =>
    hall.chunk_eq i (.inl (hcover i ((lt_chunkCount hlen).mpr hi)))

/-- `xs` has the listed chunks of `ys`; each other chunk is missing, or all `fill`. -/
structure Patchwork (fill : α) (len : Nat) (ys : List α) (ids : Nat → Prop) (xs : List α) : Prop
    extends HasChunks len ys ids xs where
  hole : ∀ i, ¬ ids i → chunk len i xs = [] ∨ chunk len i xs = List.replicate len fill

theorem patchwork_nil (fill : α) (len : Nat) (ys : List α) :
    Patchwork fill len ys (fun _ => False) [] :=
  ⟨⟨Nat.zero_le _, fun _ => False.elim⟩, fun _ _ => .inl (by simp [chunk])⟩

/-- A hole in front of the chunk that is written is filled up. -/
theorem Patchwork.patch {ids : Nat → Prop} (h : Patchwork fill len ys ids xs)
    (hj : j * len < ys.length) (hlen : 0 < len) :
    Patchwork fill len ys (fun i => i = j ∨ ids i)
      (patch fill (j * len) (chunk len j ys) xs) := by
  refine ⟨h.toHasChunks.patch fill hj hlen, fun i hi => ?_⟩
  have hdata : chunk len j ys ≠ [] := by
    rw [Ne, chunk_eq_nil_iff hlen]
    omega
  have hsize : (chunk len j ys).length ≤ len := by
    rw [length_chunk]
    exact Nat.min_le_left ..
  obtain ⟨hij, hids⟩ := not_or.mp hi
  rcases Nat.lt_or_gt_of_ne hij with hlt | hgt
  · right
    rw [chunk_patch_of_lt hdata hlt]
    obtain hnil | hfill := h.hole i hids
    · simp [hnil]
    · simp [hfill]
  · rw [chunk_patch_of_gt hdata hsize hgt]
    exact h.hole i hids

/-- Without holes it is the whole sequence. -/
theorem HasChunks.eq_of_forall {ids : Nat → Prop} (h : HasChunks len ys ids xs) (hlen : 0 < len)
    (hall : ∀ i < chunkCount len ys, ids i) : xs = ys :=
  eq_of_chunks hlen h.length_le fun i hi => h.chunk_eq i (hall i ((lt_chunkCount hlen).mpr hi))

end P2PFileSharing.Library
