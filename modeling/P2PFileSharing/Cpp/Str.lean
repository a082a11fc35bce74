import Mathlib.Algebra.Group.Int.Defs
import Mathlib.Algebra.Group.Nat.Defs
import Mathlib.Data.List.Lex
import Mathlib.Data.List.TakeWhile
import Mathlib.Order.Basic
import P2PFileSharing.Library.Split

/-!
# Strings of bytes

`std::string` and `std::basic_string<unsigned char>` are both sequences of bytes. Their
comparison is by unsigned bytes, which is the order that `std::map` iterates its keys in.
-/

namespace P2PFileSharing

open Library

instance byteOrder : LinearOrder UInt8 where
  le_refl := UInt8.le_refl
  le_trans _ _ _ := UInt8.le_trans
  le_antisymm _ _ := UInt8.le_antisymm
  le_total := UInt8.le_total
  lt_iff_le_not_ge a b := by
    rw [UInt8.lt_iff_toNat_lt, UInt8.le_iff_toNat_le, UInt8.le_iff_toNat_le]
    omega
  toDecidableLE := inferInstance
  toDecidableLT := inferInstance
  toDecidableEq := inferInstance

-- named, so that every decision procedure about bytes carries the same proof
instance byteLawful : LawfulBEq UInt8 := inferInstance

/-- `std::string` -/
abbrev Str := List UInt8

/-- `std::basic_string<unsigned char>` -/
abbrev BString := List UInt8

/-- The bytes of a string literal. -/
def lit (s : String) : Str := s.toList.map (fun c => c.toNat.toUInt8)

/-- What a function that gets `c_str()` reads: the bytes up to the first zero. -/
def cString (s : Str) : Str := s.takeWhile (· ≠ 0)

theorem cString_isPrefix (s : Str) : cString s <+: s := List.takeWhile_prefix _

theorem cString_eq_self {s : Str} : cString s = s ↔ 0 ∉ s := by
  rw [cString, List.takeWhile_eq_self_iff]
  constructor
  · intro h h0
    simpa using h 0 h0
  · intro h c hc
    exact decide_eq_true (ne_of_mem_of_not_mem hc h)

def CRLF : Str := lit "\r\n"

def SPACE : Str := lit " "

/-- A value stored into an `int`. -/
def toInt32 (x : Int) : Int := x.bmod (2 ^ 32)

/-- A value stored into a `long long`. -/
def toInt64 (x : Int) : Int := x.bmod (2 ^ 64)

theorem toInt32_eq_self {x : Int} (h : -2 ^ 31 ≤ x) (h' : x < 2 ^ 31) : toInt32 x = x :=
  Int.bmod_eq_of_le (by omega) (by omega)

theorem toInt64_eq_self {x : Int} (h : -2 ^ 63 ≤ x) (h' : x < 2 ^ 63) : toInt64 x = x :=
  Int.bmod_eq_of_le (by omega) (by omega)

theorem toInt32_lt (x : Int) : toInt32 x < 2 ^ 31 := by
  have := Int.bmod_lt (x := x) (m := 2 ^ 32) (by decide)
  simpa [toInt32] using this

/-- A size stored into an `int` keeps its value below `2 ^ 31` and falls short by at least
`2 ^ 32` from there on. -/
theorem toInt32_natCast (n : Nat) :
    n < 2 ^ 31 ∧ toInt32 n = n ∨ 2 ^ 31 ≤ n ∧ toInt32 n + 2 ^ 32 ≤ n := by
  rw [toInt32, Int.bmod_def]
  split <;> omega

end P2PFileSharing
