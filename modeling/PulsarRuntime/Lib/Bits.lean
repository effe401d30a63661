import Mathlib.Data.Nat.Bitwise

/-!
# Filling a word below its highest bit

The usual way to round up to a power of two copies every bit of a word to the places below it,
`w ||| w >>> n`, with `n` doubled each time.  `Smeared v w n` says how far this has come: `w` has
the bits of `v` and the `n - 1` places below each of them.  Once `n` exceeds the highest bit of
`v`, every place up to that bit is set.
-/

namespace PulsarRuntime.Bits

/-- `w` has each bit of `v`, copied to the `n - 1` places below it. -/
def Smeared (v w n : ℕ) : Prop := ∀ i, w.testBit i = true ↔ ∃ d < n, v.testBit (i + d) = true

namespace Smeared

variable {v w n : ℕ}

theorem start (v : ℕ) : Smeared v v 1 := by
  intro i
  constructor
  · intro hbit
    exact ⟨0, Nat.one_pos, hbit⟩
  · rintro ⟨d, hd, hbit⟩
    obtain rfl : d = 0 := by omega
    exact hbit

/-- One round of the loop. -/
theorem double (h : Smeared v w n) : Smeared v (w ||| w >>> n) (n + n) := by
  intro i
  rw [Nat.testBit_or, Nat.testBit_shiftRight, Bool.or_eq_true, h i, h (n + i)]
  constructor
  · rintro (⟨d, hd, hbit⟩ | ⟨d, hd, hbit⟩)
    · exact ⟨d, by omega, hbit⟩
    · refine ⟨n + d, by omega, ?_⟩
      rwa [show i + (n + d) = n + i + d by omega]
  · rintro ⟨d, hd, hbit⟩
    -- a bit at most `n - 1` places up was copied before, the others now
    by_cases hlow : d < n
    · exact .inl ⟨d, hlow, hbit⟩
    · refine .inr ⟨d - n, by omega, ?_⟩
      rwa [show n + i + (d - n) = i + d by omega]

theorem full (h : Smeared v w n) (hv : v ≠ 0) (hn : v.log2 < n) : w = 2 ^ (v.log2 + 1) - 1 := by
  apply Nat.eq_of_testBit_eq
  intro i
  rw [Nat.testBit_two_pow_sub_one, Bool.eq_iff_iff, h i, decide_eq_true_iff]
  constructor
  · rintro ⟨d, -, hbit⟩
    have hle : 2 ^ (i + d) < 2 ^ (v.log2 + 1) :=
      Nat.lt_of_le_of_lt (Nat.ge_two_pow_of_testBit hbit) Nat.lt_log2_self
    have hlt := (Nat.pow_lt_pow_iff_right (Nat.lt_succ_self 1)).mp hle
    omega
  · intro hi
    refine ⟨v.log2 - i, by omega, ?_⟩
    rw [show i + (v.log2 - i) = v.log2 by omega]
    exact Nat.testBit_log2 hv

end Smeared

end PulsarRuntime.Bits
