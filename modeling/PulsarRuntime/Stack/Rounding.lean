import PulsarRuntime.Stack.Sizing

/-!
# Size classes

`NextPowerOfTwo` decrements, fills the word below its highest bit and increments again, between two
tests for sizes that have no class.  `nextPowerOfTwoChecked` is the same computation with every
operation checked: it stops with `wrapped` where the exact result of an operation is not a word of
64 bits.  It never does, so the computation on words and the one on numbers agree (`checked_eq`),
and the classes are the powers of two up to `2 ^ 63`.
-/

namespace PulsarRuntime.Stack

/-- How a computation in words ends without a result. -/
inductive Fault where
  | badAlloc
  /-- the result of an operation is not a word -/
  | wrapped
  /-- the loop has not come to its end -/
  | endless
  deriving DecidableEq

/-- The result of an addition or a shift to the left. -/
def word (n : ℕ) : Except Fault ℕ := if n ≤ sizeMax then .ok n else .error .wrapped

/-- The result of a subtraction. -/
def difference (m n : ℕ) : Except Fault ℕ := if n ≤ m then .ok (m - n) else .error .wrapped

/-- The loop over `shift` in `NextPowerOfTwo`, for at most `rounds` tests of its condition. -/
def smearLoop : ℕ → ℕ → ℕ → Except Fault ℕ
  | 0, _, _ => .error .endless
  | rounds + 1, shift, value =>
    if shift < 64 then
      match word (shift <<< 1) with
      | .error e => .error e
      | .ok next => smearLoop rounds next (value ||| value >>> shift)
    else .ok value

/-- `NextPowerOfTwo`, every operation checked. -/
def nextPowerOfTwoChecked (value : ℕ) : Except Fault ℕ :=
  if value ≤ 1 then .ok 1
  else do
    let limit ← word (sizeMax >>> 1 + 1)
    if limit < value then .error .badAlloc
    else
      let value ← difference value 1
      let value ← smearLoop 64 1 value
      if value = sizeMax then .error .badAlloc else word (value + 1)

/-- The shifts are 1, 2, 4, 8, 16 and 32, and the loop ends at 64. -/
theorem smearLoop_eq (value : ℕ) : smearLoop 64 1 value =
    .ok ([1, 2, 4, 8, 16, 32].foldl (fun v shift => v ||| v >>> shift) value) := by
  rfl

/-- No operation wraps around. -/
theorem checked_eq {value : ℕ} :
    nextPowerOfTwoChecked value = (nextPowerOfTwo value).elim (.error .badAlloc) .ok := by
  have hword : word (sizeMax >>> 1 + 1) = .ok (2 ^ 63) := rfl
  by_cases hsmall : value ≤ 1
  · simp only [nextPowerOfTwoChecked, nextPowerOfTwo, if_pos hsmall, Option.elim]
  · by_cases hlarge : 2 ^ 63 < value
    · rw [nextPowerOfTwo_eq_none.mpr hlarge]
      simp only [nextPowerOfTwoChecked, if_neg hsmall, hword, bind, Except.bind, if_pos hlarge,
        Option.elim]
    · have hdiff : difference value 1 = .ok (value - 1) := if_pos (by omega)
      have hone : 1 < value := by omega
      have hle : value ≤ 2 ^ 63 := by omega
      have hpow := pow_log_le hone hle
      have hmax : 2 ^ ((value - 1).log2 + 1) - 1 ≠ sizeMax := by
        simp only [sizeMax]
        omega
      have hsum : word (2 ^ ((value - 1).log2 + 1) - 1 + 1) = .ok (2 ^ ((value - 1).log2 + 1)) := by
        rw [Nat.sub_add_cancel Nat.one_le_two_pow, word, if_pos]
        exact hpow.trans (by decide)
      rw [nextPowerOfTwo_eq hone hle]
      simp only [nextPowerOfTwoChecked, if_neg hsmall, hword, bind, Except.bind, if_neg hlarge,
        hdiff, smearLoop_eq, smear_eq hone hle, if_neg hmax, hsum, Option.elim]

theorem Rounded.max_one {value p : ℕ} (h : Rounded value p) : Rounded (max value 1) p := by
  obtain ⟨⟨n, rfl⟩, hle, hleast⟩ := h
  refine ⟨⟨n, rfl⟩, max_le hle Nat.one_le_two_pow, ?_⟩
  intro m hm
  exact hleast m ((le_max_left _ _).trans hm)

section PooledSizeFor

variable {s : Pool} {r p : ℕ}

theorem pooledSizeFor_ge (h : s.pooledSizeFor r = some p) : max r s.minimum ≤ p :=
  (nextPowerOfTwo_rounded h).le

theorem pooledSizeFor_mono {r' p' : ℕ} (hle : r ≤ r') (h : s.pooledSizeFor r' = some p') :
    ∃ p ≤ p', s.pooledSizeFor r = some p := by
  have hnormal : normalizeMinimum s.minimum r ≤ normalizeMinimum s.minimum r' :=
    max_le_max_right s.minimum hle
  obtain ⟨⟨n, rfl⟩, hn, -⟩ := nextPowerOfTwo_rounded h
  cases hp : s.pooledSizeFor r with
  | none =>
    -- the larger request would have no class either
    have hlarge := nextPowerOfTwo_eq_none.mp hp
    have hnone := nextPowerOfTwo_eq_none.mpr (Nat.lt_of_lt_of_le hlarge hnormal)
    exact absurd (hnone.symm.trans h) nofun
  | some p =>
    have hrounded := nextPowerOfTwo_rounded hp
    exact ⟨p, hrounded.least n (hnormal.trans hn), rfl⟩

theorem pooledSizeFor_idem (h : s.pooledSizeFor r = some p) : s.pooledSizeFor p = some p := by
  have hge := pooledSizeFor_ge h
  have hself : normalizeMinimum s.minimum p = p := by
    simp only [normalizeMinimum]
    omega
  obtain ⟨⟨n, rfl⟩, -, hleast⟩ := nextPowerOfTwo_rounded h
  have hle : 2 ^ n ≤ 2 ^ 63 := by
    have hfits : ¬2 ^ 63 < normalizeMinimum s.minimum r := by
      rw [← nextPowerOfTwo_eq_none]
      exact fun hnone => absurd (hnone.symm.trans h) (by simp)
    exact hleast 63 (Nat.not_lt.mp hfits)
  cases hp : s.pooledSizeFor (2 ^ n) with
  | none =>
    have hlarge := nextPowerOfTwo_eq_none.mp hp
    rw [hself] at hlarge
    omega
  | some q =>
    have hq := nextPowerOfTwo_rounded hp
    rw [hself] at hq
    rw [Nat.le_antisymm (hq.least n le_rfl) hq.le]

end PooledSizeFor

/-- **Size classes.**  `NextPowerOfTwo` throws exactly above `2 ^ 63` and otherwise returns the
least power of two that is at least the value and 1, without an operation that wraps around; so
`pooledSizeFor` is monotone, keeps its own values, and is never less than the request or the
minimum. -/
theorem size_classes (v : UInt64) (s : Pool) :
    nextPowerOfTwoChecked v.toNat = (nextPowerOfTwo v.toNat).elim (.error .badAlloc) .ok ∧
    (nextPowerOfTwoChecked v.toNat = .error .badAlloc ↔ 2 ^ 63 < v.toNat) ∧
    (v.toNat ≤ 2 ^ 63 → ∃ p, nextPowerOfTwoChecked v.toNat = .ok p ∧ Rounded (max v.toNat 1) p) ∧
    (∀ r r' p', r ≤ r' → s.pooledSizeFor r' = some p' → ∃ p ≤ p', s.pooledSizeFor r = some p) ∧
    ∀ r p, s.pooledSizeFor r = some p →
      s.pooledSizeFor p = some p ∧ r ≤ p ∧ s.minimum ≤ p := by
  refine ⟨checked_eq, ?_, ?_, ?_, ?_⟩
  · rw [checked_eq, ← nextPowerOfTwo_eq_none]
    cases nextPowerOfTwo v.toNat with
    | none => exact iff_of_true rfl rfl
    | some p => exact iff_of_false nofun nofun
  · intro hle
    rw [checked_eq]
    cases hp : nextPowerOfTwo v.toNat with
    | none =>
      have hlarge := nextPowerOfTwo_eq_none.mp hp
      omega
    | some p => exact ⟨p, rfl, (nextPowerOfTwo_rounded hp).max_one⟩
  · intro r r' p' hle h
    exact pooledSizeFor_mono hle h
  · intro r p h
    have hge := pooledSizeFor_ge h
    exact ⟨pooledSizeFor_idem h, by omega, by omega⟩

end PulsarRuntime.Stack
