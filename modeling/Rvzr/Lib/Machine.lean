import Mathlib.Algebra.Ring.Int.Defs
import Mathlib.Algebra.Ring.Nat
import Mathlib.Data.List.Basic

/-!
# Machine integers

Values of unsigned 64-bit types are natural numbers below `2 ^ 64`, and the operations that
can wrap reduce their result. A conversion to a signed 32-bit `int` keeps the low half.
-/

namespace Rvzr.Lib

/-- Arithmetic of unsigned 64-bit integers. -/
def mul64 (a b : Nat) : Nat := a * b % 2 ^ 64
def add64 (a b : Nat) : Nat := (a + b) % 2 ^ 64
def sub64 (a b : Nat) : Nat := (a + (2 ^ 64 - b % 2 ^ 64)) % 2 ^ 64

/-- A signed value converted to an unsigned 64-bit type. -/
def toU64 (i : Int) : Nat := (i % 2 ^ 64).toNat

/-- A value converted to `int`. -/
def toInt32 (n : Nat) : Int :=
  if n % 2 ^ 32 < 2 ^ 31 then n % 2 ^ 32 else (n % 2 ^ 32 : Nat) - 2 ^ 32

/-- A 64-bit value stored in an `int` and read back in a 64-bit expression: the low half,
sign-extended. -/
def viaInt (n : Nat) : Nat :=
  if n % 2 ^ 32 < 2 ^ 31 then n % 2 ^ 32 else n % 2 ^ 32 + (2 ^ 64 - 2 ^ 32)

theorem toU64_natCast {n : Nat} (h : n < 2 ^ 64) : toU64 n = n := by
  unfold toU64
  omega

theorem toInt32_of_lt {n : Nat} (h : n < 2 ^ 31) : toInt32 n = n := by
  unfold toInt32
  rw [Nat.mod_eq_of_lt (by omega), if_pos h]
  omega

theorem toInt32_lt (n : Nat) : toInt32 n < 2 ^ 31 := by
  unfold toInt32
  split <;> omega

theorem toInt32_congr {n m : Nat} (h : n % 2 ^ 32 = m % 2 ^ 32) : toInt32 n = toInt32 m := by
  unfold toInt32
  rw [h]
  split <;> omega

theorem toU64_toInt32 (n : Nat) : toU64 (toInt32 n) = viaInt n := by
  unfold toU64 toInt32 viaInt
  split <;> omega

theorem viaInt_mod (n : Nat) : viaInt n % 2 ^ 32 = n % 2 ^ 32 := by
  unfold viaInt
  split <;> omega

/-- An `int` in a 64-bit sum only counts with its low half. -/
theorem toInt32_add_viaInt (n k : Nat) : toInt32 (add64 (viaInt n) k) = toInt32 (n + k) := by
  refine toInt32_congr ?_
  have hmod := viaInt_mod n
  unfold add64
  omega

theorem viaInt_of_lt {n : Nat} (h : n < 2 ^ 31) : viaInt n = n := by
  unfold viaInt
  rw [Nat.mod_eq_of_lt (by omega), if_pos h]

theorem mul64_of_lt {a b : Nat} (h : a * b < 2 ^ 64) : mul64 a b = a * b := Nat.mod_eq_of_lt h

theorem sub64_of_le {a b : Nat} (ha : a < 2 ^ 64) (h : b ≤ a) : sub64 a b = a - b := by
  unfold sub64
  omega

theorem add64_of_lt {a b : Nat} (h : a + b < 2 ^ 64) : add64 a b = a + b := Nat.mod_eq_of_lt h

/-- Advancing a 64-bit cursor through an offset relative to `b`. -/
theorem add64_sub64 {a b k : Nat} (h : b ≤ a) (hlt : a + k < 2 ^ 64) :
    add64 (sub64 a b + k) b = a + k := by
  rw [sub64_of_le (by omega) h, add64_of_lt (by omega)]
  omega

end Rvzr.Lib
