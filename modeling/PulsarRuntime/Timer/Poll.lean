import PulsarRuntime.Lib.Conversion
import PulsarRuntime.Timer.Runs

/-!
# The timeout of `epoll_wait`

`IOManager::idle` turns the answer of `getNextTimer`, a `uint64_t`, into the `int` that `epoll_wait`
takes.  It narrows to `int` before it takes the minimum with `MAX_TIMEOUT`, stores the minimum in
the `uint64_t` again, and comes back to it when a signal interrupts the wait.

The low 32 bits of the answer alone decide: the timeout is sound if they are between 1 and
`2 ^ 31 - 1`, and then the retries do not change it.  Other answers are 0 and `~0ull`, which are
treated apart, and those whose timeout is 0 or negative.  Every value is the answer for some timer
(`nextTimer_addTimer`).
-/

namespace PulsarRuntime.Timers

open Conversion TimerManager

/-- `MAX_TIMEOUT` of `IOManager::idle`. -/
def maxTimeout : ℤ := 5000

/-- What the loop makes of `next_timeout` before it waits. -/
def pollRound (nextTimeout : ℕ) : ℕ :=
  if nextTimeout ≠ noTimer then toUInt64 (min (toInt32 nextTimeout) maxTimeout)
  else toUInt64 maxTimeout

/-- `next_timeout` after `n` waits, all but the last one interrupted. -/
def pollRounds (nextTimeout : ℕ) : ℕ → ℕ
  | 0 => nextTimeout
  | n + 1 => pollRound (pollRounds nextTimeout n)

/-- The timeout that `epoll_wait` gets after `n` interruptions. -/
def pollTimeout (nextTimeout n : ℕ) : ℤ := toInt32 (pollRounds nextTimeout (n + 1))

/-- The wait is bounded, ends no later than the next timer is due, and is no busy waiting. -/
structure SoundWait (nextTimeout : ℕ) (timeout : ℤ) : Prop where
  nonneg : 0 ≤ timeout
  bounded : timeout ≤ maxTimeout
  due : timeout ≤ nextTimeout
  waits : timeout = 0 → nextTimeout = 0

/-! ### The rounds -/

/-- A timeout in range comes back unchanged. -/
theorem pollRound_of_le {t : ℕ} (h : t ≤ 5000) : pollRound t = t := by
  have hne : t ≠ noTimer := by
    simp only [noTimer]
    omega
  have hint : toInt32 t = t := toInt32_eq (by omega) (by omega)
  rw [pollRound, if_pos hne, hint]
  apply Int.ofNat_inj.mp
  rw [maxTimeout, min_eq_left (by omega), toUInt64_eq (by omega) (by omega)]

theorem pollRounds_of_le {v t : ℕ} (h : t ≤ 5000) (hfirst : pollRound v = t) (n : ℕ) :
    pollRounds v (n + 1) = t := by
  induction n with
  | zero => exact hfirst
  | succ n ih =>
    show pollRound (pollRounds v (n + 1)) = t
    rw [ih]
    exact pollRound_of_le h

/-- The first wait, unless there is no timer. -/
theorem pollTimeout_zero {v : ℕ} (h : v ≠ noTimer) :
    pollTimeout v 0 = min (toInt32 v) maxTimeout := by
  show toInt32 (pollRound v) = _
  have hlow := toInt32_mod v
  rw [pollRound, if_pos h]
  apply toInt32_toUInt64 <;> simp only [maxTimeout] <;> split at hlow <;> omega

/-- A sound first timeout is repeated. -/
theorem pollTimeout_of_le {v t : ℕ} (h : t ≤ 5000) (hfirst : pollRound v = t) (n : ℕ) :
    pollTimeout v n = t := by
  rw [pollTimeout, pollRounds_of_le h hfirst]
  exact toInt32_eq (by omega) (by omega)

/-! ### The answers -/

/-- The values for which every wait is sound. -/
def Sound32 (v : ℕ) : Prop := v = noTimer ∨ v = 0 ∨ (0 < v % 2 ^ 32 ∧ v % 2 ^ 32 < 2 ^ 31)

instance (v : ℕ) : Decidable (Sound32 v) := inferInstanceAs (Decidable (_ ∨ _))

theorem soundWait_iff {v : ℕ} : (∀ n, SoundWait v (pollTimeout v n)) ↔ Sound32 v := by
  constructor
  · intro h
    by_cases hno : v = noTimer
    · exact .inl hno
    · obtain ⟨hnonneg, -, -, hwaits⟩ := h 0
      rw [pollTimeout_zero hno] at hnonneg hwaits
      have hlow := toInt32_mod v
      simp only [maxTimeout] at hnonneg hwaits
      simp only [Sound32]
      split at hlow <;> omega
  · rintro (rfl | rfl | ⟨hpos, hlt⟩) n
    · rw [pollTimeout_of_le (t := 5000) le_rfl rfl]
      exact ⟨by omega, by simp [maxTimeout], by decide, by omega⟩
    · rw [pollTimeout_of_le (t := 0) (Nat.zero_le _) rfl]
      exact ⟨le_rfl, by decide, le_rfl, fun _ => rfl⟩
    · have hint : toInt32 v = (v % 2 ^ 32 : ℕ) := by
        rw [toInt32_mod]
        split <;> omega
      have hle : v % 2 ^ 32 ≤ v := Nat.mod_le _ _
      have hne : v ≠ noTimer := by
        rintro rfl
        simp only [noTimer] at hlt
        omega
      have hfirst : pollRound v = min (v % 2 ^ 32) 5000 := by
        rw [pollRound, if_pos hne, hint]
        apply Int.ofNat_inj.mp
        rw [toUInt64_eq] <;> simp only [maxTimeout] <;> omega
      rw [pollTimeout_of_le (Nat.min_le_right _ _) hfirst]
      have hcap : maxTimeout = 5000 := rfl
      constructor <;> omega

variable {Cb : Type}

/-- With one timer, the answer is its delay. -/
theorem nextTimer_addTimer {now ms : ℕ} (h : now + ms < noTimer) (cb : Option Cb) (r : Bool) :
    ((create now).addTimer ms cb r now now).1.nextTimer now = ms := by
  have hsum : (now + ms) % 2 ^ 64 = now + ms := Nat.mod_eq_of_lt (h.trans (by decide))
  have hnext : ((create now).addTimer ms cb r now now).1.earliestNext = now + ms := by
    rw [addTimer_earliestNext, hsum]
    exact Nat.min_eq_left h.le
  simp only [nextTimer, hnext, if_neg h.ne]
  split <;> omega

/-- No 64-bit value is excluded as an answer. -/
theorem exists_nextTimer {v : ℕ} (h : v < 2 ^ 64) :
    ∃ s now, (manager Cb).Reach s ∧ (manager Cb).enabled s (.getNextTimer now) ∧
      s.tm.nextTimer now = v := by
  have hinit : (manager Cb).Reach ⟨create 0, 0⟩ := .start rfl
  by_cases hno : v = noTimer
  · subst hno
    exact ⟨_, 0, hinit, ⟨le_rfl, by decide⟩, rfl⟩
  · have hadd : (manager Cb).enabled ⟨create 0, 0⟩ (.addTimer v none false 0 0) :=
      ⟨le_rfl, le_rfl, by decide⟩
    refine ⟨_, 0, .step hinit hadd trivial, ⟨le_rfl, by decide⟩, ?_⟩
    apply nextTimer_addTimer
    simp only [noTimer] at hno ⊢
    omega

/-- **Poll timeout.**  Every 64-bit value is an answer of `getNextTimer`, and the waits of `idle`
are sound for it, through any number of interruptions, exactly if it is `~0ull`, 0, or has low 32
bits that are a positive `int`. -/
theorem idle_poll_timeout (Cb : Type) (v : Fin (2 ^ 64)) :
    (∃ s now, (manager Cb).Reach s ∧ (manager Cb).enabled s (.getNextTimer now) ∧
      s.tm.nextTimer now = v) ∧
    ((∀ n, SoundWait v (pollTimeout v n)) ↔ Sound32 v) :=
  ⟨exists_nextTimer v.isLt, soundWait_iff⟩

/-- A timer 25 days ahead makes the wait unbounded, one 50 days ahead makes it busy. -/
theorem poll_timeout_unsound :
    let armed (ms : ℕ) := ((create 1000 : TimerManager Unit).addTimer ms none false 1000 1000).1
    (armed (2 ^ 31)).nextTimer 1000 = 2 ^ 31 ∧ pollTimeout (2 ^ 31) 0 = -2 ^ 31 ∧
      (armed (2 ^ 32)).nextTimer 1000 = 2 ^ 32 ∧ pollTimeout (2 ^ 32) 0 = 0 ∧
      ¬SoundWait (2 ^ 31) (pollTimeout (2 ^ 31) 0) ∧
      ¬SoundWait (2 ^ 32) (pollTimeout (2 ^ 32) 0) := by
  have hneg : pollTimeout (2 ^ 31) 0 = -2 ^ 31 := by decide
  have hzero : pollTimeout (2 ^ 32) 0 = 0 := by decide
  refine ⟨by decide +kernel, hneg, by decide +kernel, hzero, fun h => ?_, fun h => ?_⟩
  · exact absurd h.nonneg (by rw [hneg]; decide)
  · exact absurd (h.waits hzero) (by decide)

end PulsarRuntime.Timers
