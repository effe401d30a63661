import Mathlib.Algebra.GroupWithZero.Nat
import Mathlib.Algebra.Ring.Int.Defs

/-!
# Conversions between integer types

The integer conversions of a machine with `int` of 32 bits and `uint64_t`: an integer is taken
modulo the size of the type, to the representative that the type has.
-/

namespace PulsarRuntime.Conversion

/-- To `int`. -/
def toInt32 (n : ℤ) : ℤ := (n + 2 ^ 31) % 2 ^ 32 - 2 ^ 31

/-- To `uint64_t`. -/
def toUInt64 (n : ℤ) : ℕ := (n % 2 ^ 64).toNat

variable {n : ℤ}

theorem toInt32_eq (h : -2 ^ 31 ≤ n) (h' : n < 2 ^ 31) : toInt32 n = n := by
  simp only [toInt32]
  omega

/-- The low 32 bits decide. -/
theorem toInt32_mod (n : ℤ) :
    toInt32 n = if n % 2 ^ 32 < 2 ^ 31 then n % 2 ^ 32 else n % 2 ^ 32 - 2 ^ 32 := by
  simp only [toInt32]
  split <;> omega

theorem toUInt64_eq (h : 0 ≤ n) (h' : n < 2 ^ 64) : (toUInt64 n : ℤ) = n := by
  simp only [toUInt64]
  omega

/-- What is negative becomes very large. -/
theorem toUInt64_neg (h : n < 0) (h' : -2 ^ 64 ≤ n) : (toUInt64 n : ℤ) = n + 2 ^ 64 := by
  simp only [toUInt64]
  omega

/-- An `int` survives the way to `uint64_t` and back. -/
theorem toInt32_toUInt64 (h : -2 ^ 31 ≤ n) (h' : n < 2 ^ 31) : toInt32 (toUInt64 n) = n := by
  by_cases hneg : n < 0
  · rw [toUInt64_neg hneg (by omega)]
    simp only [toInt32]
    omega
  · rw [toUInt64_eq (by omega) (by omega)]
    exact toInt32_eq h h'

end PulsarRuntime.Conversion
