import Mathlib.Data.Nat.Bitwise
import P2PFileSharing.Cpp.Exception
import P2PFileSharing.Cpp.Str

/-!
# Bitfields

A bitfield packs the bit of piece `i` into byte `i / 8`, at position `i % 8`. Its size in bits is
kept beside the bytes, in an `int`.
-/

namespace P2PFileSharing.Peer

structure Bitfield where
  container : BString
  size : Int
  deriving DecidableEq, Repr

namespace Bitfield

/-- `bitfield(int n)`, where `resize` gets no negative size. -/
def ofCount (n : Int) : Bitfield := ⟨List.replicate ((n - 1).tdiv 8 + 1).toNat 0, n⟩

/-- `bitfield(bstring bs)` -/
def ofBstring (bs : BString) : Bitfield := ⟨bs, toInt32 (bs.length * 8)⟩

/-- Bit `i` of the bytes. -/
def test (bf : Bitfield) (i : Nat) : Bool :=
  ((bf.container.getD (i / 8) 0).toNat &&& 1 <<< (i % 8)) ≠ 0

/-- `operator[]` -/
def get (bf : Bitfield) (i : Nat) : Except ExnClass Bool :=
  if bf.size ≤ i then .error .indexOutOfRangeException
  else .ok (bf.test i)

def set (bf : Bitfield) (i : Nat) : Except ExnClass Bitfield :=
  if bf.size ≤ i then .error .indexOutOfRangeException
  else .ok { bf with container := bf.container.modify (i / 8) (· ||| (1 <<< (i % 8)).toUInt8) }

def reset (bf : Bitfield) (i : Nat) : Except ExnClass Bitfield :=
  if bf.size ≤ i then .error .indexOutOfRangeException
  else .ok { bf with container := bf.container.modify (i / 8) (· &&& ~~~(1 <<< (i % 8)).toUInt8) }

def toBstring (bf : Bitfield) : BString := bf.container

/-- `size()`, a `size_t`. -/
def sizeT (bf : Bitfield) : Nat := (bf.size % 2 ^ 64).toNat

/-- `bitfield(n)` after `set(i)` for the pieces of a list, in its order. -/
def holding (n : Int) (owned : List Nat) : Except ExnClass Bitfield := owned.foldlM set (ofCount n)

/-! ## What the bits are -/

theorem and_shiftLeft_ne_zero (x k : Nat) : x &&& 1 <<< k ≠ 0 ↔ x.testBit k = true := by
  rw [Nat.shiftLeft_eq, one_mul, Nat.and_two_pow]
  cases x.testBit k <;> simp

theorem test_eq_testBit (bf : Bitfield) (i : Nat) :
    bf.test i = (bf.container.getD (i / 8) 0).toNat.testBit (i % 8) := by
  rw [test, Bool.eq_iff_iff, decide_eq_true_iff, and_shiftLeft_ne_zero]

/-- The bytes have room for all bits that the size allows to touch. -/
def Roomy (bf : Bitfield) : Prop := bf.size ≤ bf.container.length * 8

theorem get_of_lt {bf : Bitfield} {i : Nat} (h : (i : Int) < bf.size) :
    bf.get i = .ok (bf.test i) := by
  rw [get, if_neg (by omega)]

/-- The bitfield is long enough for bit `i` and has it set. -/
def has (bf : Bitfield) (i : Nat) : Bool := decide ((i : Int) < bf.size) && bf.test i

theorem get_of_le {bf : Bitfield} {i : Nat} (h : bf.size ≤ i) :
    bf.get i = .error .indexOutOfRangeException := by
  rw [get, if_pos h]

theorem has_of_lt {bf : Bitfield} {i : Nat} (h : (i : Int) < bf.size) : bf.has i = bf.test i := by
  simp [has, h]

theorem length_ofCount {n : Nat} (hn : 1 ≤ n) :
    (ofCount n).container.length = (n - 1) / 8 + 1 := by
  rw [ofCount, List.length_replicate, Int.tdiv_eq_ediv_of_nonneg (by omega)]
  omega

theorem roomy_ofCount {n : Nat} (hn : 1 ≤ n) : (ofCount n).Roomy := by
  rw [Roomy, length_ofCount hn]
  simp only [ofCount]
  omega

theorem test_ofCount (n : Int) (i : Nat) : (ofCount n).test i = false := by
  rw [test_eq_testBit, ofCount, List.getD_eq_getElem?_getD, List.getElem?_replicate]
  split <;> simp

theorem set_eq_ok {bf bf' : Bitfield} {i : Nat} :
    bf.set i = .ok bf' ↔ (i : Int) < bf.size ∧ bf' =
      { bf with container := bf.container.modify (i / 8) (· ||| (1 <<< (i % 8)).toUInt8) } := by
  rw [set]
  split
  · simp only [reduceCtorEq, false_iff]
    omega
  · simp only [Except.ok.injEq, eq_comm (a := bf')]
    constructor
    · exact fun h => ⟨by omega, h⟩
    · exact fun h => h.2

theorem testBit_one_shiftLeft {k : Nat} (hk : k < 8) (j : Nat) :
    (1 <<< k).toUInt8.toNat.testBit j = decide (j = k) := by
  have hlt : 1 <<< k < 2 ^ 8 := by
    rw [Nat.shiftLeft_eq, one_mul]
    exact Nat.pow_lt_pow_right (by decide) hk
  have hval : (1 <<< k).toUInt8.toNat = 2 ^ k := by
    rw [Nat.toUInt8, UInt8.toNat_ofNat_of_lt' hlt, Nat.shiftLeft_eq, one_mul]
  rw [hval, Nat.testBit_two_pow, Bool.eq_iff_iff, decide_eq_true_iff, decide_eq_true_iff, eq_comm]

/-- `set(i)` sets bit `i` and no other. -/
theorem test_set {bf bf' : Bitfield} {i : Nat} (hroom : bf.Roomy) (h : bf.set i = .ok bf')
    (j : Nat) : bf'.test j = (decide (j = i) || bf.test j) := by
  obtain ⟨hi, rfl⟩ := set_eq_ok.mp h
  have hbyte : i / 8 < bf.container.length := by
    rw [Roomy] at hroom
    omega
  simp only [test_eq_testBit, List.getD_eq_getElem?_getD, List.getElem?_modify]
  by_cases hj : i / 8 = j / 8
  · rw [hj] at hbyte
    have hk : i % 8 < 8 := Nat.mod_lt i (by decide)
    have hdec : decide (j % 8 = i % 8) = decide (j = i) := decide_eq_decide.mpr (by omega)
    simp only [List.getElem?_eq_getElem hbyte, Option.map_eq_map, Option.map_some, Option.getD_some,
      if_pos hj, UInt8.toNat_or, Nat.testBit_or, testBit_one_shiftLeft hk, hdec, Bool.or_comm]
  · have hne : j ≠ i := fun h => hj (by rw [h])
    simp [hj, hne]

theorem roomy_set {bf bf' : Bitfield} {i : Nat} (hroom : bf.Roomy) (h : bf.set i = .ok bf') :
    bf'.Roomy ∧ bf'.size = bf.size ∧ bf'.container.length = bf.container.length := by
  obtain ⟨-, rfl⟩ := set_eq_ok.mp h
  simpa [Roomy] using hroom

theorem foldlM_set {bf : Bitfield} {owned : List Nat} (hroom : bf.Roomy)
    (howned : ∀ i ∈ owned, (i : Int) < bf.size) :
    ∃ bf', owned.foldlM set bf = .ok bf' ∧ bf'.size = bf.size ∧
      bf'.container.length = bf.container.length ∧
      ∀ j, bf'.test j = (decide (j ∈ owned) || bf.test j) := by
  induction owned generalizing bf with
  | nil => exact ⟨bf, rfl, rfl, rfl, by simp⟩
  | cons i owned ih =>
    obtain ⟨hi, howned⟩ := List.forall_mem_cons.mp howned
    have hset := set_eq_ok.mpr ⟨hi, rfl⟩
    obtain ⟨hroom', hsize, hlen⟩ := roomy_set hroom hset
    obtain ⟨bf', hfold, hsize', hlen', htest⟩ :=
      ih hroom' (fun j hj => by rw [hsize]; exact howned j hj)
    refine ⟨bf', ?_, hsize'.trans hsize, hlen'.trans hlen, fun j => ?_⟩
    · rw [List.foldlM_cons, hset]
      exact hfold
    · rw [htest, test_set hroom hset, ← Bool.or_assoc]
      simp [Bool.or_comm]

/-- Setting the bits of the owned pieces gives a bitfield of `n` bits that names exactly them. -/
theorem holding_spec {n : Nat} (hn : 1 ≤ n) {owned : List Nat} (howned : ∀ i ∈ owned, i < n) :
    ∃ bf, holding n owned = .ok bf ∧ bf.size = n ∧ bf.container.length = (n - 1) / 8 + 1 ∧
      ∀ i < n, bf.get i = .ok (decide (i ∈ owned)) := by
  have hin : ∀ i ∈ owned, (i : Int) < (ofCount n).size := by simpa [ofCount] using howned
  obtain ⟨bf, hbf, hsize, hlen, htest⟩ := foldlM_set (roomy_ofCount hn) hin
  refine ⟨bf, hbf, hsize, hlen.trans (length_ofCount hn), fun i hi => ?_⟩
  rw [get_of_lt (by rw [hsize]; simpa [ofCount] using hi), htest, test_ofCount, Bool.or_false]

end Bitfield

end P2PFileSharing.Peer
