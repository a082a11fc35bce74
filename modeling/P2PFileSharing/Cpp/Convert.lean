import Mathlib.Data.List.TakeWhile
import Mathlib.Data.Nat.Digits.Lemmas
import Mathlib.Tactic.IntervalCases
import P2PFileSharing.Cpp.Exception
import P2PFileSharing.Cpp.Str

/-!
# Numbers

Numbers as decimal text, the library functions that read them back, `int` arithmetic, and the
loops that copy a string with an `int` for an index.
-/

namespace P2PFileSharing

open Library

/-- `std::to_string` of an unsigned value. -/
def toDecimal (n : Nat) : Str :=
  if n = 0 then lit "0" else (Nat.digits 10 n).reverse.map (fun d => (48 + d).toUInt8)

theorem toDecimal_digits (n : Nat) : ∀ c ∈ toDecimal n, 48 ≤ c ∧ c ≤ 57 := by
  rw [toDecimal]
  split
  · intro c hc
    obtain rfl : c = 48 := List.mem_singleton.mp hc
    decide
  · intro c hc
    obtain ⟨d, hd, rfl⟩ := List.mem_map.mp hc
    have hlt : d < 10 := Nat.digits_lt_base (by decide) (List.mem_reverse.mp hd)
    interval_cases d <;> decide

theorem length_toDecimal_le {n k : Nat} (h : n < 10 ^ (k + 1)) :
    (toDecimal n).length ≤ k + 1 := by
  rw [toDecimal]
  split
  · exact Nat.succ_pos k
  · rw [List.length_map, List.length_reverse]
    exact (Nat.digits_length_le_iff (by decide) n).mpr h

/-- `std::to_string` of a signed value. -/
def intToDecimal (n : Int) : Str :=
  if n < 0 then lit "-" ++ toDecimal n.natAbs else toDecimal n.natAbs

/-- The bytes that `isspace` accepts in the C locale. -/
def isSpace (c : UInt8) : Bool := c = 32 ∨ (9 ≤ c ∧ c ≤ 13)

def isDigit (c : UInt8) : Bool := 48 ≤ c ∧ c ≤ 57

def digitsValue (ds : Str) : Nat := ds.foldl (fun v c => 10 * v + (c.toNat - 48)) 0

/-- What `strtol` in base 10 reads: blanks, an optional sign, and the digits that follow;
`none` where there is no digit. -/
def strtol (s : Str) : Option Int :=
  let s := s.dropWhile isSpace
  let (negative, s) :=
    match s with
    | 45 :: s => (true, s)
    | 43 :: s => (false, s)
    | s => (false, s)
  let ds := s.takeWhile isDigit
  if ds = [] then none
  else some (if negative then -(digitsValue ds : Int) else digitsValue ds)

example : strtol (lit " 512 bytes") = some 512 := by decide

/-- `std::stol` and `std::stoll`; both types have 64 bits. -/
def stoll (s : Str) : Except ExnClass Int :=
  match strtol s with
  | none => .error .invalidArgument
  | some x => if -2 ^ 63 ≤ x ∧ x < 2 ^ 63 then .ok x else .error .outOfRange

/-- `std::stoi` -/
def stoi (s : Str) : Except ExnClass Int :=
  match strtol s with
  | none => .error .invalidArgument
  | some x => if -2 ^ 31 ≤ x ∧ x < 2 ^ 31 then .ok x else .error .outOfRange

theorem stoi_range {s : Str} {x : Int} (h : stoi s = .ok x) : -2 ^ 31 ≤ x ∧ x < 2 ^ 31 := by
  rw [stoi] at h
  split at h
  next => cases h
  next =>
    split_ifs at h with hx
    cases h
    exact hx

/-! ## Reading back what was written -/

theorem toDecimal_ne_nil (n : Nat) : toDecimal n ≠ [] := by
  rw [toDecimal]
  split
  · decide
  · rename_i hn
    simpa using Nat.digits_ne_nil_iff_ne_zero.mpr hn

/-- Reading the digits of a number gives the number back. -/
theorem digitsValue_toDecimal (n : Nat) : digitsValue (toDecimal n) = n := by
  rw [toDecimal]
  split
  · rename_i hn
    rw [hn]
    decide
  · have hdigit : ∀ d ∈ Nat.digits 10 n, ((48 + d).toUInt8.toNat - 48 : Nat) = d := by
      intro d hd
      have hlt : d < 10 := Nat.digits_lt_base (by decide) hd
      interval_cases d <;> decide
    have hvalue : (Nat.digits 10 n).foldr (fun d v => 10 * v + ((48 + d).toUInt8.toNat - 48)) 0 =
        (Nat.digits 10 n).foldr (fun d v => d + 10 * v) 0 := by
      apply List.foldr_ext
      intro d hd v
      rw [hdigit d hd, add_comm]
    rw [digitsValue, List.foldl_map, List.foldl_reverse, hvalue]
    conv_rhs => rw [← Nat.ofDigits_digits 10 n, Nat.ofDigits_eq_foldr]
    rfl

theorem takeWhile_toDecimal (n : Nat) : (toDecimal n).takeWhile isDigit = toDecimal n := by
  rw [List.takeWhile_eq_self_iff]
  intro c hc
  exact decide_eq_true (toDecimal_digits n c hc)

/-- Digits without a sign. -/
theorem strtol_of_digit {c : UInt8} {s : Str} (hc : 48 ≤ c) (hd : isDigit c = true) :
    strtol (c :: s) = some (digitsValue ((c :: s).takeWhile isDigit) : Int) := by
  have hspace : isSpace c = false := by
    rw [UInt8.le_iff_toNat_le] at hc
    have hne : c ≠ 32 := by
      rintro rfl
      exact absurd hc (by decide)
    have hlt : ¬ c ≤ 13 := by
      rw [UInt8.le_iff_toNat_le]
      exact fun h => absurd (hc.trans h) (by decide)
    simp [isSpace, hne, hlt]
  have hdrop : (c :: s).dropWhile isSpace = c :: s := List.dropWhile_cons_of_neg (by simp [hspace])
  have hne : (c :: s).takeWhile isDigit ≠ [] := by simp [hd]
  simp only [strtol, hdrop]
  split
  · rename_i heq
    cases heq
    exact absurd hc (by decide)
  · rename_i heq
    cases heq
    exact absurd hc (by decide)
  · simp only [if_neg hne, Bool.false_eq_true, if_false]

theorem strtol_intToDecimal (n : Int) : strtol (intToDecimal n) = some n := by
  have htake := takeWhile_toDecimal n.natAbs
  have hvalue := digitsValue_toDecimal n.natAbs
  have hne := toDecimal_ne_nil n.natAbs
  rw [intToDecimal]
  split
  · have hdrop : (lit "-" ++ toDecimal n.natAbs).dropWhile isSpace = 45 :: toDecimal n.natAbs := rfl
    simp only [strtol, hdrop, htake, if_neg hne, if_true, hvalue]
    rw [Option.some_inj]
    omega
  · obtain ⟨c, rest, hcons⟩ := List.exists_cons_of_ne_nil hne
    have hc := toDecimal_digits n.natAbs c (by rw [hcons]; exact List.mem_cons_self)
    have hread := strtol_of_digit (s := rest) hc.1 (decide_eq_true hc)
    rw [← hcons, htake, hvalue] at hread
    rw [hread, Option.some_inj]
    omega

theorem stoll_intToDecimal {n : Int} (h : -2 ^ 63 ≤ n) (h' : n < 2 ^ 63) :
    stoll (intToDecimal n) = .ok n := by
  rw [stoll, strtol_intToDecimal]
  exact if_pos ⟨h, h'⟩

theorem stoll_toDecimal {n : Nat} (h : n < 2 ^ 63) : stoll (toDecimal n) = .ok (n : Int) := by
  have hread := stoll_intToDecimal (n := n) (by omega) (by omega)
  rwa [intToDecimal, if_neg (by omega), Int.natAbs_natCast] at hread

theorem stoi_toDecimal {n : Nat} (h : n < 2 ^ 31) : stoi (toDecimal n) = .ok (n : Int) := by
  have hread := stoll_toDecimal (n := n) (by omega)
  rw [stoll] at hread
  split at hread
  next => cases hread
  next x hvalue =>
    split_ifs at hread
    cases hread
    rw [stoi, hvalue]
    exact if_pos ⟨by omega, by omega⟩

/-! ## Differences -/

/-- `a - b` of two `int`s; signed overflow is undefined. -/
def subInt {σ : Type} (a b : Int) : Action σ Fault Int :=
  if -2 ^ 31 ≤ a - b ∧ a - b < 2 ^ 31 then pure (a - b) else Action.throw .undefined

theorem subInt_run {σ : Type} {a b : Int} (h : -2 ^ 31 ≤ a - b) (h' : a - b < 2 ^ 31) (s : σ) :
    subInt a b s = (.ok (a - b), s) := by
  rw [subInt, if_pos ⟨h, h'⟩]
  rfl

theorem subInt_eq_ok {σ : Type} {a b c : Int} {s s' : σ} (h : subInt a b s = (.ok c, s')) :
    c = a - b ∧ s' = s := by
  rw [subInt] at h
  split at h
  · cases h
    exact ⟨rfl, rfl⟩
  · cases h

/-- `a + b` of two `int`s -/
def addInt (a b : Int) : Except Fault Int :=
  if -2 ^ 31 ≤ a + b ∧ a + b < 2 ^ 31 then .ok (a + b) else .error .undefined

theorem addInt_eq {a b : Int} (h : -2 ^ 31 ≤ a + b) :
    addInt a b = if a + b < 2 ^ 31 then .ok (a + b) else .error .undefined := by
  rw [addInt]
  simp only [h, true_and]

/-! ## Copying a string -/

/-- The loop of `s2b` and `b2s`, which keep the eight bits of each byte. -/
def copyLoop : List UInt8 → Int → List UInt8 → Except Fault (List UInt8)
  | [], _, copy => .ok copy
  | c :: rest, i, copy => do
    let i ← addInt i 1
    copyLoop rest i (copy ++ [c])

def s2b (str : Str) : Except Fault BString := copyLoop str 0 []

def b2s (bs : BString) : Except Fault Str := copyLoop bs 0 []

/-- The index overflows behind the last byte that it can count. -/
theorem copyLoop_eq (bytes copy : List UInt8) {i : Int} (hge : 0 ≤ i) (hlt : i < 2 ^ 31) :
    copyLoop bytes i copy =
      if i + bytes.length < 2 ^ 31 then .ok (copy ++ bytes) else .error .undefined := by
  induction bytes generalizing i copy with
  | nil => rw [copyLoop, List.append_nil, if_pos (by simpa using hlt)]
  | cons c rest ih =>
    rw [copyLoop, addInt_eq (by omega)]
    by_cases hnext : i + 1 < 2 ^ 31
    · rw [if_pos hnext]
      refine (ih (copy ++ [c]) (by omega) hnext).trans ?_
      rw [List.append_assoc, List.singleton_append, List.length_cons, Nat.cast_succ,
        add_right_comm, add_assoc]
    · rw [if_neg hnext, if_neg (by rw [List.length_cons]; omega)]
      rfl

/-- `s2b` gives the bytes of the strings that an `int` can count, and of no others. -/
theorem s2b_eq (str : Str) :
    s2b str = if str.length < 2 ^ 31 then .ok str else .error .undefined := by
  have hcopy := copyLoop_eq str [] (i := 0) (by decide) (by decide)
  simp only [Int.zero_add, List.nil_append] at hcopy
  rw [s2b, hcopy]
  exact if_congr (by omega) rfl rfl

theorem b2s_eq (bs : BString) :
    b2s bs = if bs.length < 2 ^ 31 then .ok bs else .error .undefined := s2b_eq bs

end P2PFileSharing
