import Mathlib.Data.Set.Insert
import P2PFileSharing.Library.History
import P2PFileSharing.Peer.Bitfield

/-!
# A bitfield as a set of indices

`set` puts an index into the set of bits that are on, `reset` takes it out, and the bytes alone
give the set back. The constructor from bytes keeps eight bits for each byte, and its size is an
`int`: the bytes of the largest bitfields have more bits than that.
-/

namespace P2PFileSharing.Peer

open Library

/-- A call that changes a bitfield. -/
inductive BitCall where
  | set (i : Nat)
  | reset (i : Nat)
  deriving DecidableEq, Repr

namespace BitCall

def index : BitCall → Nat
  | set i => i
  | reset i => i

def run (bf : Bitfield) : BitCall → Except ExnClass Bitfield
  | set i => bf.set i
  | reset i => bf.reset i

/-- What the call is for. -/
def onSet (members : Set Nat) : BitCall → Set Nat
  | set i => insert i members
  | reset i => members \ {i}

end BitCall

namespace Bitfield

/-- `bitfield(n)` after calls on it, in their order. -/
def after (n : Nat) (calls : List BitCall) : Except ExnClass Bitfield :=
  calls.foldlM BitCall.run (ofCount n)

/-- The last of the calls on `i` was a `set`. -/
def LastSet (i : Nat) (calls : List BitCall) : Prop :=
  Since (fun c => c = .set i) (fun c => c = .reset i) calls

instance (i : Nat) (calls : List BitCall) : Decidable (LastSet i calls) :=
  inferInstanceAs (Decidable (Since _ _ calls))

/-- Every call returns, the bits below `n` are those that were set last, and the bitfield that is
made of the bytes agrees on them and reads as off from `n` to the end of the last byte. -/
def ImplementsSet (n : Nat) (calls : List BitCall) : Prop :=
  ∃ bf, after n calls = .ok bf ∧
    (∀ i < n, bf.get i = .ok (decide (LastSet i calls))) ∧
    (∀ i < n, (ofBstring bf.toBstring).get i = bf.get i) ∧
    ∀ i, n ≤ i → i < 8 * ((n + 7) / 8) → (ofBstring bf.toBstring).get i = .ok false

/-! ## One call -/

theorem reset_eq_ok {bf bf' : Bitfield} {i : Nat} :
    bf.reset i = .ok bf' ↔ (i : Int) < bf.size ∧ bf' =
      { bf with container := bf.container.modify (i / 8) (· &&& ~~~(1 <<< (i % 8)).toUInt8) } := by
  rw [reset]
  split
  · simp only [reduceCtorEq, false_iff]
    omega
  · simp only [Except.ok.injEq, eq_comm (a := bf')]
    constructor
    · exact fun h => ⟨by omega, h⟩
    · exact fun h => h.2

theorem testBit_not_one_shiftLeft {k j : Nat} (hk : k < 8) (hj : j < 8) :
    (~~~(1 <<< k).toUInt8).toNat.testBit j = decide (j ≠ k) := by
  have hlt : (1 <<< k).toUInt8.toNat < 2 ^ 8 := (1 <<< k).toUInt8.toNat_lt
  have hnot : (~~~(1 <<< k).toUInt8).toNat = 2 ^ 8 - ((1 <<< k).toUInt8.toNat + 1) := by
    rw [UInt8.toNat_not, UInt8.size]
    omega
  rw [hnot, Nat.testBit_two_pow_sub_succ hlt, testBit_one_shiftLeft hk]
  simp [hj]

/-- `reset(i)` takes bit `i` away and no other. -/
theorem test_reset {bf bf' : Bitfield} {i : Nat} (h : bf.reset i = .ok bf') (j : Nat) :
    bf'.test j = (decide (j ≠ i) && bf.test j) := by
  obtain ⟨-, rfl⟩ := reset_eq_ok.mp h
  simp only [test_eq_testBit, List.getD_eq_getElem?_getD, List.getElem?_modify]
  have hk : i % 8 < 8 := Nat.mod_lt i (by decide)
  have hj8 : j % 8 < 8 := Nat.mod_lt j (by decide)
  by_cases hj : i / 8 = j / 8
  · have hdec : decide (j % 8 ≠ i % 8) = decide (j ≠ i) := decide_eq_decide.mpr (by omega)
    cases hbyte : bf.container[j / 8]? with
    | none => simp
    | some byte =>
      simp only [Option.map_eq_map, Option.map_some, Option.getD_some, if_pos hj, UInt8.toNat_and,
        Nat.testBit_and, testBit_not_one_shiftLeft hk hj8, hdec, Bool.and_comm]
  · have hne : j ≠ i := fun h => hj (by rw [h])
    simp [hj, hne]

/-- The set of bits that are on. -/
def members (bf : Bitfield) : Set Nat := {i | bf.test i = true}

/-- A call inside the bitfield returns, changes the set as it should, and keeps the size. -/
theorem run_spec {bf : Bitfield} (hroom : bf.Roomy) {c : BitCall} (hc : (c.index : Int) < bf.size) :
    ∃ bf', c.run bf = .ok bf' ∧ bf'.members = c.onSet bf.members ∧
      bf'.size = bf.size ∧ bf'.container.length = bf.container.length := by
  cases c with
  | set i =>
    have hset := set_eq_ok.mpr ⟨show (i : Int) < bf.size from hc, rfl⟩
    refine ⟨_, hset, ?_, (roomy_set hroom hset).2⟩
    ext j
    simp [members, test_set hroom hset, BitCall.onSet]
  | reset i =>
    have hreset := reset_eq_ok.mpr ⟨show (i : Int) < bf.size from hc, rfl⟩
    refine ⟨_, hreset, ?_, rfl, by simp⟩
    ext j
    simp [members, test_reset hreset, BitCall.onSet, and_comm]

/-! ## A sequence of calls -/

/-- Insertions and removals leave in the set what was inserted last. -/
theorem mem_foldl_onSet {i : Nat} {calls : List BitCall} :
    i ∈ calls.foldl BitCall.onSet ∅ ↔ LastSet i calls := by
  induction calls using List.reverseRecOn with
  | nil => simp [LastSet, Since]
  | append_singleton calls c ih =>
    rw [List.foldl_append, List.foldl_cons, List.foldl_nil, LastSet, since_snoc_iff, ← LastSet,
      ← ih]
    cases c with
    | set j => simp [BitCall.onSet, eq_comm]
    | reset j => simp [BitCall.onSet, eq_comm, and_comm]

theorem foldlM_run {bf : Bitfield} {calls : List BitCall} (hroom : bf.Roomy)
    (hcalls : ∀ c ∈ calls, (c.index : Int) < bf.size) :
    ∃ bf', calls.foldlM BitCall.run bf = .ok bf' ∧
      bf'.members = calls.foldl BitCall.onSet bf.members ∧
      bf'.size = bf.size ∧ bf'.container.length = bf.container.length := by
  induction calls generalizing bf with
  | nil => exact ⟨bf, rfl, rfl, rfl, rfl⟩
  | cons c calls ih =>
    obtain ⟨hc, hcalls⟩ := List.forall_mem_cons.mp hcalls
    obtain ⟨bf1, hrun, hmem, hsize, hlen⟩ := run_spec hroom hc
    have hroom1 : bf1.Roomy := by rwa [Roomy, hsize, hlen]
    obtain ⟨bf2, hfold, hmem2, hsize2, hlen2⟩ :=
      ih hroom1 (fun c hc => by rw [hsize]; exact hcalls c hc)
    refine ⟨bf2, ?_, ?_, hsize2.trans hsize, hlen2.trans hlen⟩
    · rw [List.foldlM_cons, hrun]
      exact hfold
    · rw [hmem2, hmem, List.foldl_cons]

theorem members_ofCount (n : Int) : (ofCount n).members = ∅ := by
  ext i
  simp [members, test_ofCount]

/-- Calls inside a bitfield of `n` bits return, and the bits that are on are those set last. -/
theorem after_spec {n : Nat} (hn : 1 ≤ n) {calls : List BitCall}
    (hcalls : ∀ c ∈ calls, c.index < n) :
    ∃ bf, after n calls = .ok bf ∧ bf.size = n ∧ bf.container.length = (n + 7) / 8 ∧
      ∀ i, bf.test i = decide (LastSet i calls) := by
  have hin : ∀ c ∈ calls, (c.index : Int) < (ofCount n).size := by simpa [ofCount] using hcalls
  obtain ⟨bf, hafter, hmem, hsize, hlen⟩ := foldlM_run (roomy_ofCount hn) hin
  refine ⟨bf, hafter, hsize, ?_, fun i => ?_⟩
  · rw [hlen, length_ofCount hn]
    omega
  · have hi : i ∈ bf.members ↔ LastSet i calls := by
      rw [hmem, members_ofCount, mem_foldl_onSet]
    rw [Bool.eq_iff_iff, decide_eq_true_iff]
    exact hi

theorem LastSet.index_lt {n i : Nat} {calls : List BitCall} (hcalls : ∀ c ∈ calls, c.index < n)
    (h : LastSet i calls) : i < n := by
  obtain ⟨past, c, later, rfl, rfl, -⟩ := h
  exact hcalls (.set i) (by simp)

/-! ## The bitfield that is made of the bytes -/

theorem test_ofBstring (bf : Bitfield) (i : Nat) : (ofBstring bf.container).test i = bf.test i := by
  rw [test_eq_testBit, test_eq_testBit, ofBstring]

/-- A bitfield of bytes has all their bits, as long as an `int` can count them. -/
theorem size_ofBstring (bs : BString) :
    bs.length < 2 ^ 28 ∧ (ofBstring bs).size = bs.length * 8 ∨
      2 ^ 28 ≤ bs.length ∧ (ofBstring bs).size + 2 ^ 32 ≤ bs.length * 8 := by
  have hint := toInt32_natCast (bs.length * 8)
  simp only [ofBstring]
  push_cast at hint
  omega

section

variable {n : Nat} {calls : List BitCall}

theorem implementsSet_of_le (hn : 1 ≤ n) (hle : n ≤ 2 ^ 31 - 8)
    (hcalls : ∀ c ∈ calls, c.index < n) : ImplementsSet n calls := by
  obtain ⟨bf, hafter, hsize, hlen, htest⟩ := after_spec hn hcalls
  have hget : ∀ i < n, bf.get i = .ok (decide (LastSet i calls)) := by
    intro i hi
    rw [get_of_lt (by omega), htest]
  have hbits := size_ofBstring bf.container
  have hback : ∀ i < 8 * ((n + 7) / 8),
      (ofBstring bf.toBstring).get i = .ok (decide (LastSet i calls)) := by
    intro i hi
    rw [toBstring, get_of_lt (by omega), test_ofBstring, htest]
  refine ⟨bf, hafter, hget, ?_, ?_⟩
  · intro i hi
    rw [hback i (by omega), hget i hi]
  · intro i hi hend
    rw [hback i hend, decide_eq_false fun h => hi.not_gt (h.index_lt hcalls)]

/-- Where the bits of the bytes overflow the `int`, already the first one is out of range. -/
theorem ImplementsSet.le (hn : 1 ≤ n) (hint : n < 2 ^ 31) (hcalls : ∀ c ∈ calls, c.index < n)
    (h : ImplementsSet n calls) : n ≤ 2 ^ 31 - 8 := by
  obtain ⟨bf, hafter, -, hlen, -⟩ := after_spec hn hcalls
  obtain ⟨bf', hafter', hread, hback, -⟩ := h
  rw [hafter] at hafter'
  cases hafter'
  by_contra hlt
  have hbits := size_ofBstring bf.container
  have hfirst := hback 0 (by omega)
  rw [hread 0 (by omega), toBstring, get_of_le (by omega)] at hfirst
  cases hfirst

/-- A bitfield implements a set of indices, and the bytes give it back, exactly if the number of
bits in its bytes fits into an `int`. -/
theorem implementsSet_iff (hn : 1 ≤ n) (hint : n < 2 ^ 31) (hcalls : ∀ c ∈ calls, c.index < n) :
    ImplementsSet n calls ↔ n ≤ 2 ^ 31 - 8 :=
  ⟨ImplementsSet.le hn hint hcalls, fun hle => implementsSet_of_le hn hle hcalls⟩

end

/-- Setting and resetting bits of a byte and one of the next. -/
theorem nine_bits_implement : ImplementsSet 9 [.set 0, .set 8, .reset 0] :=
  (implementsSet_iff (by decide) (by decide) (by decide)).mpr (by decide)

/-- With the largest `int` as its size, a bitfield cannot be read back from its bytes. -/
theorem largest_not_read_back : ¬ ∀ n : Nat, 1 ≤ n → n < 2 ^ 31 → ∀ calls : List BitCall,
    (∀ c ∈ calls, c.index < n) → ImplementsSet n calls := by
  intro h
  obtain ⟨n, hn⟩ : ∃ n, n = 2 ^ 31 - 1 := ⟨_, rfl⟩
  have hle := (h n (by omega) (by omega) [] (by simp)).le (by omega) (by omega) (by simp)
  omega

end Bitfield

end P2PFileSharing.Peer
