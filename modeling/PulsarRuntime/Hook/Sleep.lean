import PulsarRuntime.Lib.Conversion
import PulsarRuntime.Timer.Runs

/-!
# The timers of the hooked sleeps

With the hook enabled `sleep`, `usleep` and `nanosleep` arm a timer that schedules the calling
Fiber again, and yield.  Each of them converts its argument to milliseconds in a type of its own:
`sleep` multiplies in `unsigned int`, `usleep` divides, `nanosleep` computes in `long` and keeps an
`int`, which `addTimer` takes as `uint64_t`.  The constructor of `Timer` adds the clock, modulo
`2 ^ 64`.
-/

namespace PulsarRuntime.Hook

open Conversion Timers TimerManager

/-- A valid `timespec`. -/
structure Timespec where
  tvSec : ℕ
  tvNsec : ℕ
  sec_lt : tvSec < 2 ^ 63
  nsec_lt : tvNsec < 10 ^ 9

inductive Sleep where
  | sleep (seconds : Fin (2 ^ 32))
  | usleep (usec : Fin (2 ^ 32))
  | nanosleep (req : Timespec)

/-- The callback of the timer: `IOManager::scheduler` bound to the Fiber and its thread. -/
structure Rescheduling where
  fiber : ℕ
  thread : ℤ

/-- What a call does about a timer. -/
inductive Arming where
  /-- It returns without one. -/
  | none
  /-- It has overflowed in a signed type before. -/
  | undefined
  /-- It calls `addTimer`. -/
  | timer (ms : ℕ)
  deriving DecidableEq

namespace Timespec

/-- `req->tv_sec * 1000 + req->tv_nsec / 1000 / 1000`. -/
def milliseconds (req : Timespec) : ℕ := req.tvSec * 1000 + req.tvNsec / 1000 / 1000

end Timespec

namespace Sleep

/-- The first argument of `addTimer`. -/
def arm : Sleep → Arming
  | .sleep seconds => .timer (seconds * 1000 % 2 ^ 32)
  | .usleep usec => if usec = 0 then .none else .timer (usec / 1000)
  | .nanosleep req =>
      if req.milliseconds < 2 ^ 63 then .timer (toUInt64 (toInt32 req.milliseconds))
      else .undefined

/-- The requested duration in whole milliseconds. -/
def duration : Sleep → ℕ
  | .sleep seconds => seconds * 1000
  | .usleep usec => usec / 1000
  | .nanosleep req => req.tvSec * 1000 + req.tvNsec / 10 ^ 6

/-- If the call arms a timer, its deadline is no earlier than the duration asks for.  `now` is
the clock reading of the constructor, `inserted` that of `insertToWheel`. -/
def NotEarly (call : Sleep) (wake : Rescheduling) (now inserted : ℕ)
    (tm : TimerManager Rescheduling) : Prop :=
  match call.arm with
  | .none => True
  | .undefined => False
  | .timer ms => now + call.duration ≤
      ((tm.addTimer ms (some wake) false now inserted).1.heap tm.allocated).next

/-- No sum and no product leaves its type; for `nanosleep` an `int` that has become negative
does no harm either, as long as the clock added to it does not reach `2 ^ 64`. -/
def InRange (call : Sleep) (now : ℕ) : Prop :=
  match call with
  | .sleep _ => call.duration < 2 ^ 32 ∧ now + call.duration < 2 ^ 64
  | .usleep _ => now + call.duration < 2 ^ 64
  | .nanosleep _ => call.duration < 2 ^ 63 ∧
      ((call.duration < 2 ^ 31 ∧ now + call.duration < 2 ^ 64) ∨
        (2 ^ 31 ≤ call.duration % 2 ^ 32 ∧
          now + call.duration % 2 ^ 32 < 2 ^ 32))

end Sleep

/-! ### The deadline -/

variable {Cb : Type}

theorem addTimer_next (tm : TimerManager Cb) (ms : ℕ) (cb : Option Cb) (recurring : Bool)
    (created inserted : ℕ) :
    ((tm.addTimer ms cb recurring created inserted).1.heap tm.allocated).next =
      (created + ms) % 2 ^ 64 := by
  simp only [addTimer, insertToWheel_heap]
  exact congrArg Timer.next (setTimer_heap_self tm _ _)

/-- A deadline is early if its sum wraps, or if the delay is too short. -/
theorem le_mod_iff {now d ms : ℕ} (hnow : now < 2 ^ 64) (hms : ms < 2 ^ 64) :
    now + d ≤ (now + ms) % 2 ^ 64 ↔ d ≤ ms ∧ now + ms < 2 ^ 64 := by
  omega

/-! ### The arguments -/

theorem Timespec.milliseconds_eq (req : Timespec) :
    req.milliseconds = (Sleep.nanosleep req).duration := by
  simp only [milliseconds, Sleep.duration]
  omega

/-- A duration of up to 24 days keeps its value, a longer one only its low 32 bits, with the
sign they have. -/
theorem toUInt64_toInt32 (d : ℕ) : toUInt64 (toInt32 d) =
    if d % 2 ^ 32 < 2 ^ 31 then d % 2 ^ 32 else 2 ^ 64 - 2 ^ 32 + d % 2 ^ 32 := by
  have hlow := toInt32_mod d
  apply Int.ofNat_inj.mp
  split at hlow
  · rw [toUInt64_eq (by omega) (by omega), if_pos (by omega), hlow]
    omega
  · rw [toUInt64_neg (by omega) (by omega), if_neg (by omega), hlow]
    omega

namespace Sleep

variable {wake : Rescheduling} {now inserted : ℕ} {tm : TimerManager Rescheduling}

theorem notEarly_of_timer {call : Sleep} {ms : ℕ} (harm : call.arm = .timer ms)
    (hnow : now < 2 ^ 64) (hms : ms < 2 ^ 64) :
    call.NotEarly wake now inserted tm ↔ call.duration ≤ ms ∧ now + ms < 2 ^ 64 := by
  simp only [NotEarly, harm, addTimer_next]
  exact le_mod_iff hnow hms

theorem sleep_notEarly (seconds : Fin (2 ^ 32)) (hnow : now < 2 ^ 64) :
    (Sleep.sleep seconds).NotEarly wake now inserted tm ↔ (Sleep.sleep seconds).InRange now := by
  rw [notEarly_of_timer rfl hnow (by omega)]
  simp only [InRange, duration]
  omega

theorem usleep_notEarly (usec : Fin (2 ^ 32)) (hnow : now < 2 ^ 64) :
    (Sleep.usleep usec).NotEarly wake now inserted tm ↔ (Sleep.usleep usec).InRange now := by
  by_cases hzero : usec = 0
  · subst hzero
    exact iff_of_true trivial hnow
  · have harm : (Sleep.usleep usec).arm = .timer (usec / 1000) := if_neg hzero
    rw [notEarly_of_timer harm hnow (by omega)]
    simp only [InRange, duration, le_refl, true_and]

theorem nanosleep_notEarly (req : Timespec) (hnow : now < 2 ^ 64) :
    (Sleep.nanosleep req).NotEarly wake now inserted tm ↔
      (Sleep.nanosleep req).InRange now := by
  have hms := req.milliseconds_eq
  by_cases hfits : req.milliseconds < 2 ^ 63
  · have harm : (Sleep.nanosleep req).arm = .timer (toUInt64 (toInt32 req.milliseconds)) :=
      if_pos hfits
    have harg := toUInt64_toInt32 req.milliseconds
    rw [notEarly_of_timer harm hnow (by split at harg <;> omega), harg, hms]
    rw [hms] at hfits
    simp only [InRange]
    split <;> omega
  · have harm : (Sleep.nanosleep req).arm = .undefined := if_neg hfits
    simp only [NotEarly, harm, InRange, false_iff]
    omega

/-- **Hooked sleeps.**  The deadline of the timer is `now` and the requested duration, or later,
exactly if the call is in range. -/
theorem sleep_deadline (call : Sleep) (wake : Rescheduling) (now : Fin (2 ^ 64)) (inserted : ℕ)
    (tm : TimerManager Rescheduling) :
    call.NotEarly wake now inserted tm ↔ call.InRange now := by
  cases call with
  | sleep seconds => exact sleep_notEarly seconds now.isLt
  | usleep usec => exact usleep_notEarly usec now.isLt
  | nanosleep req => exact nanosleep_notEarly req now.isLt

/-- `sleep(4294968)` lasts 704 ms, and a `nanosleep` of `2 ^ 31` ms on a machine that is up for 50
days has its deadline in the past. -/
theorem sleep_wakes_early :
    let days := 50 * 24 * 60 * 60 * 1000
    let long : Timespec := ⟨2147483, 648000000, by decide, by decide⟩
    (Sleep.sleep 4294968).arm = .timer 704 ∧ (Sleep.sleep 4294968).duration = 4294968000 ∧
      ¬(Sleep.sleep 4294968).NotEarly ⟨1, 0⟩ days days (create days) ∧
      (Sleep.nanosleep long).arm = .timer (2 ^ 64 - 2 ^ 31) ∧
      (Sleep.nanosleep long).duration = 2 ^ 31 ∧
      ¬(Sleep.nanosleep long).NotEarly ⟨1, 0⟩ days days (create days) := by
  refine ⟨by decide, by decide, ?_, by decide, by decide, ?_⟩
  · rw [sleep_notEarly _ (by decide)]
    exact fun h => absurd h.1 (by decide)
  · rw [nanosleep_notEarly _ (by decide)]
    simp only [InRange]
    decide

end Sleep

end PulsarRuntime.Hook
