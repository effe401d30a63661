import PulsarRuntime.Lib.Bits
import PulsarRuntime.Stack.Model

/-!
# Stack sizes

`acquire` decides by the size class of the request whether its block may be cached, `release` by
the size that the block came to have.  A block that `acquire` let pass is larger than every class,
since the limit is a power of two and no power of two lies between a size and its class
(`passthrough_large`).
-/

namespace PulsarRuntime.Stack

open Bits

theorem smeared_fold (v : ℕ) :
    Smeared v ([1, 2, 4, 8, 16, 32].foldl (fun v shift => v ||| v >>> shift) v) 64 :=
  (Smeared.start v).double.double.double.double.double.double

/-- The least power of two that is not less. -/
structure Rounded (value p : ℕ) : Prop where
  pow : ∃ n, p = 2 ^ n
  le : value ≤ p
  least : ∀ n, value ≤ 2 ^ n → p ≤ 2 ^ n

variable {value : ℕ}

theorem rounded_log (h : 1 < value) : Rounded value (2 ^ ((value - 1).log2 + 1)) := by
  have hne : value - 1 ≠ 0 := by omega
  refine ⟨⟨_, rfl⟩, ?_, fun n hn => ?_⟩
  · have hlt : value - 1 < 2 ^ ((value - 1).log2 + 1) := Nat.lt_log2_self
    omega
  · have hlog : (value - 1).log2 < n := (Nat.log2_lt hne).mpr (by omega)
    exact Nat.pow_le_pow_right Nat.two_pos hlog

/-- What the loop makes of a value that has a class. -/
theorem smear_eq (h : 1 < value) (hle : value ≤ 2 ^ 63) :
    [1, 2, 4, 8, 16, 32].foldl (fun v shift => v ||| v >>> shift) (value - 1) =
      2 ^ ((value - 1).log2 + 1) - 1 := by
  have hne : value - 1 ≠ 0 := by omega
  have hlog : (value - 1).log2 < 64 := by
    rw [Nat.log2_lt hne]
    omega
  exact (smeared_fold (value - 1)).full hne hlog

theorem pow_log_le (h : 1 < value) (hle : value ≤ 2 ^ 63) : 2 ^ ((value - 1).log2 + 1) ≤ 2 ^ 63 :=
  (rounded_log h).least 63 hle

theorem nextPowerOfTwo_eq (h : 1 < value) (hle : value ≤ 2 ^ 63) :
    nextPowerOfTwo value = some (2 ^ ((value - 1).log2 + 1)) := by
  have hlimit : ¬sizeMax >>> 1 + 1 < value := Nat.not_lt.mpr hle
  have hpow := pow_log_le h hle
  have hmax : 2 ^ ((value - 1).log2 + 1) - 1 ≠ sizeMax := by
    simp only [sizeMax]
    omega
  simp only [nextPowerOfTwo, if_neg (Nat.not_le.mpr h), if_neg hlimit, smear_eq h hle, if_neg hmax]
  rw [Nat.sub_add_cancel Nat.one_le_two_pow]

theorem nextPowerOfTwo_eq_none : nextPowerOfTwo value = none ↔ 2 ^ 63 < value := by
  constructor
  · intro hnone
    by_contra hle
    by_cases hone : 1 < value
    · rw [nextPowerOfTwo_eq hone (by omega)] at hnone
      cases hnone
    · simp only [nextPowerOfTwo, if_pos (show value ≤ 1 by omega)] at hnone
      cases hnone
  · intro hlarge
    have hlimit : sizeMax >>> 1 + 1 < value := hlarge
    simp only [nextPowerOfTwo, if_neg (show ¬value ≤ 1 by omega), if_pos hlimit]

theorem nextPowerOfTwo_rounded {value p : ℕ} (h : nextPowerOfTwo value = some p) :
    Rounded value p := by
  by_cases hone : 1 < value
  · have hle : value ≤ 2 ^ 63 := by
      by_contra hlarge
      rw [nextPowerOfTwo_eq_none.mpr (Nat.not_le.mp hlarge)] at h
      cases h
    rw [nextPowerOfTwo_eq hone hle] at h
    obtain rfl := Option.some.inj h
    exact rounded_log hone
  · rw [nextPowerOfTwo, if_pos (Nat.not_lt.mp hone)] at h
    obtain rfl := Option.some.inj h
    exact ⟨⟨0, rfl⟩, Nat.not_lt.mp hone, fun n _ => Nat.one_le_two_pow⟩

theorem le_alignUp {value alignment aligned : ℕ} (hpos : 0 < alignment)
    (h : alignUp value alignment = some aligned) : value ≤ aligned := by
  simp only [alignUp] at h
  split at h
  · simp at h
  · obtain rfl := Option.some.inj h
    have hmod := Nat.div_add_mod (value + alignment - 1) alignment
    have hlt := Nat.mod_lt (value + alignment - 1) hpos
    rw [Nat.mul_comm] at hmod
    omega

/-- What `AllocateRaw` returns. -/
structure Raw (minimum : ℕ) (guardPages : Option ℕ) (size : ℕ) (b : FiberStackBlock) : Prop where
  large : max size minimum ≤ b.usableSize
  backend : b.backend = .mmap → guardPages ≠ none

theorem allocateRaw_raw {minimum : ℕ} {guardPages : Option ℕ} {size address : ℕ}
    {passthrough : Bool} {b : FiberStackBlock}
    (h : allocateRaw minimum guardPages size address passthrough = some b) :
    Raw minimum guardPages size b ∧ b.passthrough = passthrough := by
  simp only [allocateRaw] at h
  split at h
  · obtain rfl := Option.some.inj h
    exact ⟨⟨le_rfl, nofun⟩, rfl⟩
  next guardSize =>
    split at h
    · simp at h
    next hpos =>
      split at h
      · simp at h
      next usableSize halign =>
        split at h
        · simp at h
        · obtain rfl := Option.some.inj h
          exact ⟨⟨le_alignUp (Nat.pos_of_ne_zero hpos) halign, nofun⟩, rfl⟩

theorem normalize_pow {minimum : ℕ} {input options : StackPoolOptions}
    (h : input.normalize minimum = some options) :
    options.maxPooledStackSize = 0 ∨ ∃ n, options.maxPooledStackSize = 2 ^ n := by
  simp only [StackPoolOptions.normalize] at h
  split at h
  next hne =>
    obtain ⟨p, hp, rfl⟩ := Option.map_eq_some_iff.mp h
    exact .inr (nextPowerOfTwo_rounded hp).pow
  next hzero =>
    obtain rfl := Option.some.inj h
    exact .inl (by simpa using hzero)

variable {s : Pool}

/-- A block that was not cacheable when it was acquired is too large for every free list. -/
theorem passthrough_large {requestedSize pooledSize usableSize : ℕ}
    (hoptions : s.options.maxPooledStackSize = 0 ∨ ∃ n, s.options.maxPooledStackSize = 2 ^ n)
    (hpooled : s.pooledSizeFor requestedSize = some pooledSize)
    (hnot : s.cacheable pooledSize = false) (hlarge : max requestedSize s.minimum ≤ usableSize) :
    s.options.maxCachedBytes = 0 ∨ usableSize = 0 ∨ s.options.maxPooledStackSize < usableSize := by
  have hrounded := nextPowerOfTwo_rounded hpooled
  by_cases hcached : s.options.maxCachedBytes = 0
  · exact .inl hcached
  · obtain hzero | ⟨n, hn⟩ := hoptions
    · omega
    · right
      right
      have hlt : 2 ^ n < pooledSize := by
        simp only [Pool.cacheable, Bool.and_eq_false_iff] at hnot
        simpa [hcached, hn] using hnot
      by_contra hle
      exact absurd (hrounded.least n (by simp only [normalizeMinimum]; omega)) (by omega)

theorem accepts_iff {b : FiberStackBlock} : s.accepts b = true ↔
    s.options.maxCachedBytes ≠ 0 ∧ b.usableSize ≠ 0 ∧ (∃ n, b.usableSize = 2 ^ n) ∧
      b.usableSize ≤ s.options.maxPooledStackSize ∧
      s.counters.cachedBytes ≤ s.options.maxCachedBytes ∧
      b.allocationSize ≤ s.options.maxCachedBytes - s.counters.cachedBytes := by
  simp only [Pool.accepts, Bool.and_eq_true, decide_eq_true_eq, and_assoc]
  constructor
  · rintro ⟨hcached, hne, hand, hrest⟩
    exact ⟨hcached, hne, (Nat.and_sub_one_eq_zero_iff_isPowerOfTwo hne).mp hand, hrest⟩
  · rintro ⟨hcached, hne, hpow, hrest⟩
    exact ⟨hcached, hne, (Nat.and_sub_one_eq_zero_iff_isPowerOfTwo hne).mpr hpow, hrest⟩

end PulsarRuntime.Stack
