import Mathlib.Algebra.GroupWithZero.Nat
import Mathlib.Data.Int.Notation
import Mathlib.Logic.Function.Basic
import PulsarRuntime.Lib.Machine

/-!
# The wait queue of the fiber synchronisation primitives

`WaitQueue` parks Fibers for `FiberMutex`, `FiberConditionVariable` and `FiberSemaphore`.  A call
of `waitLocked` publishes a waiter under the caller's guard, releases the guard, arms a timer and
yields; `wakeOneLocked`, `wakeAllLocked` and the timer callback complete waiters under the guard
and hand the Fiber to the scheduler of the worker that parked it.

One step of the machine is one critical section of the guard or one stretch of the caller's code
between two of them.  Calls are numbered in the order they enter, which is also the order in
which their waiters are queued; the task that hands a Fiber back carries the number of the call
it was made for.
-/

namespace PulsarRuntime.Sync

def EINVAL : ℤ := 22

def ENOTSUP : ℤ := 95

def ETIMEDOUT : ℤ := 110

def ECANCELED : ℤ := 125

def kFiberWaitForever : ℕ := 2 ^ 64 - 1

/-- What the scheduler of the calling thread is; `IOManager::GetThis` is a downcast of it. -/
inductive SchedulerKind where
  | plain
  | ioManager
  deriving DecidableEq, Repr

/-- Where a call of `waitLocked` is. -/
inductive Pc where
  /-- the waiter is in the queue and the guard released -/
  | published
  /-- past the timer, about to yield -/
  | armed
  | parked
  /-- running again, about to take the guard -/
  | resumed
  /-- returned: 0, or -1 with this `errno` -/
  | returned (error : ℤ)
  deriving DecidableEq, Repr

/-- The caller is on its way into the yield, or parked there. -/
def Pc.pending : Pc → Bool
  | .published | .armed | .parked => true
  | _ => false

def Pc.done : Pc → Bool
  | .returned _ => true
  | _ => false

/-- A call of `waitLocked` with the `Waiter` it makes. -/
structure Call (F : Type) where
  fiber : F
  scheduler : Option SchedulerKind
  thread : ℤ
  timeout : ℕ
  waiting : Bool
  error : ℤ
  pc : Pc
  /-- a timer callback for this waiter may still run -/
  timer : Bool
  yielded : Bool

structure WaitQueue (F : Type) where
  calls : ℕ → Call F
  count : ℕ
  /-- `waiters_` -/
  waiters : List ℕ
  /-- tasks the scheduler holds: task `c` is the Fiber of call `c`, pinned to its thread -/
  ready : List ℕ
  /-- every task ever handed to the scheduler -/
  handed : List ℕ

variable {F : Type}

namespace WaitQueue

def setCall (q : WaitQueue F) (c : ℕ) (k : Call F) : WaitQueue F :=
  { q with calls := Function.update q.calls c k }

def setPc (q : WaitQueue F) (c : ℕ) (pc : Pc) : WaitQueue F :=
  q.setCall c { q.calls c with pc := pc }

/-- `completeLocked` once its two checks have passed. -/
def complete (q : WaitQueue F) (c : ℕ) (error : ℤ) : WaitQueue F :=
  { q.setCall c { q.calls c with waiting := false, error := error } with
    waiters := q.waiters.erase c
    ready := q.ready ++ [c]
    handed := q.handed ++ [c] }

def completeLocked (q : WaitQueue F) (c : ℕ) (error : ℤ) : WaitQueue F × Bool :=
  if (q.calls c).waiting = false then (q, false)
  else if c ∉ q.waiters then (q, false)
  else (q.complete c error, true)

/-- `wakeOneLocked`.  A front waiter that is no longer waiting would make the source's loop spin;
`completeLocked_front` excludes it, so the first round decides. -/
def wakeOneLocked (q : WaitQueue F) (error : ℤ) : WaitQueue F × Bool :=
  match q.waiters with
  | [] => (q, false)
  | c :: _ => q.completeLocked c error

/-- At most `fuel` rounds of the loop of `wakeAllLocked`. -/
def wakeAllLoop (error : ℤ) : ℕ → WaitQueue F → WaitQueue F × ℕ
  | 0, q => (q, 0)
  | fuel + 1, q =>
    if (q.wakeOneLocked error).2 then
      let r := wakeAllLoop error fuel (q.wakeOneLocked error).1
      (r.1, r.2 + 1)
    else (q, 0)

/-- `wakeAllLocked`: every round takes one waiter out (`wakeAllLocked_waiters`). -/
def wakeAllLocked (q : WaitQueue F) (error : ℤ) : WaitQueue F × ℕ :=
  wakeAllLoop error q.waiters.length q

/-- A call enters; its number is the count so far. -/
def addCall (q : WaitQueue F) (k : Call F) : WaitQueue F :=
  { q.setCall q.count k with count := q.count + 1 }

/-- `waiters_.push_back(waiter)` for the call that enters. -/
def publish (q : WaitQueue F) (k : Call F) : WaitQueue F :=
  { q.addCall k with waiters := q.waiters ++ [q.count] }

/-- `waitLocked` up to the release of the guard. -/
def enter (q : WaitQueue F) (fiber : F) (scheduler : Option SchedulerKind) (thread : ℤ)
    (timeout : ℕ) : WaitQueue F :=
  let call (pc : Pc) : Call F := ⟨fiber, scheduler, thread, timeout, true, 0, pc, false, false⟩
  match scheduler with
  | none => q.addCall (call (.returned EINVAL))
  | some _ =>
    if timeout = 0 then q.addCall (call (.returned ETIMEDOUT)) else q.publish (call .published)

/-- From the release of the guard to the yield: the timer, or the exit for want of one. -/
def arm (q : WaitQueue F) (c : ℕ) : WaitQueue F :=
  if (q.calls c).timeout = kFiberWaitForever then q.setPc c .armed
  else if (q.calls c).scheduler = some .ioManager then
    q.setCall c { q.calls c with pc := .armed, timer := true }
  else (q.completeLocked c ENOTSUP).1.setPc c (.returned ENOTSUP)

def yield (q : WaitQueue F) (c : ℕ) : WaitQueue F :=
  q.setCall c { q.calls c with pc := .parked, yielded := true }

/-- The worker takes the task and the Fiber runs on.  `timer->cancel()` follows; a callback that
a pass has already copied out of the timer still runs, so the flag stays. -/
def resume (q : WaitQueue F) (c task : ℕ) : WaitQueue F :=
  { q.setPc c .resumed with ready := q.ready.erase task }

/-- The last critical section of `waitLocked`. -/
def finish (q : WaitQueue F) (c : ℕ) : WaitQueue F :=
  let error := (q.calls c).error
  let q := if (q.calls c).waiting then (q.completeLocked c ECANCELED).1 else q
  q.setPc c (.returned error)

/-- The timer callback: one-shot, and a no-op on a waiter already completed. -/
def timeout (q : WaitQueue F) (c : ℕ) : WaitQueue F :=
  ((q.setCall c { q.calls c with timer := false }).completeLocked c ETIMEDOUT).1

end WaitQueue

/-- The critical sections and local stretches that can interleave. -/
inductive Action (F : Type) where
  | enter (fiber : F) (scheduler : Option SchedulerKind) (thread : ℤ) (timeout : ℕ)
  | arm (c : ℕ)
  | yield (c : ℕ)
  | resume (c task : ℕ)
  | finish (c : ℕ)
  | timeout (c : ℕ)
  | wakeOne (error : ℤ)
  | wakeAll (error : ℤ)

/-- A Fiber makes one call at a time; a parked Fiber runs on when the scheduler has a task for
it.  Tasks are pinned to the thread that runs the Fiber, so none is taken before the yield. -/
def waitQueue (F : Type) : Machine (WaitQueue F) (Action F) where
  init q := q.count = 0 ∧ q.waiters = [] ∧ q.ready = [] ∧ q.handed = []
  enabled q
    | .enter fiber _ _ _ => ∀ c < q.count, (q.calls c).fiber = fiber → (q.calls c).pc.done = true
    | .arm c => c < q.count ∧ (q.calls c).pc = .published
    | .yield c => c < q.count ∧ (q.calls c).pc = .armed
    | .resume c task => (c < q.count ∧ (q.calls c).pc = .parked) ∧
        task ∈ q.ready ∧ (q.calls task).fiber = (q.calls c).fiber
    | .finish c => c < q.count ∧ (q.calls c).pc = .resumed
    | .timeout c => c < q.count ∧ (q.calls c).timer = true
    | .wakeOne _ => True
    | .wakeAll _ => True
  next q
    | .enter fiber scheduler thread timeout => q.enter fiber scheduler thread timeout
    | .arm c => q.arm c
    | .yield c => q.yield c
    | .resume c task => q.resume c task
    | .finish c => q.finish c
    | .timeout c => q.timeout c
    | .wakeOne error => (q.wakeOneLocked error).1
    | .wakeAll error => (q.wakeAllLocked error).1

instance [DecidableEq F] (q : WaitQueue F) (a : Action F) :
    Decidable ((waitQueue F).enabled q a) := by
  rcases a <;> (dsimp only [waitQueue]; infer_instance)

end PulsarRuntime.Sync
