import PulsarRuntime.Sync.FiberMutex

/-!
# `FiberConditionVariable` over a `FiberMutex`

`wait` takes the condition's guard, unlocks the mutex, enqueues itself with `waitLocked` (which
releases the guard) and, once that returns, locks the mutex again.  Two guards are nested here, so
the condition's guard is part of the state: it is held from `guard_.lock()` until the waiter is in
the queue, and everything else that needs it waits.  The critical sections of the mutex and of its
queue are steps of their own, as in `Sync.FiberMutex`.

The machine interleaves any number of `wait` calls on one mutex with `notifyOne`, `notifyAll`,
`cancelWaiters` of the condition and of the mutex, and other lockers.  A task that one queue has
handed to the scheduler resumes its Fiber wherever the Fiber is parked (`strayCond`, `strayMutex`).

The histories record the order of the releases and what completed each waiter.
-/

namespace PulsarRuntime.Sync

def EINTR : ℤ := 4

/-- Where a call of `FiberConditionVariable::wait` is. -/
inductive CondPc where
  /-- the Fiber owns the mutex; about to take the condition's guard -/
  | owned
  /-- holding the guard, about to unlock the mutex -/
  | guarded
  /-- the mutex is released; about to call `waitLocked` -/
  | released
  /-- inside this call of `waitLocked` -/
  | waiting (c : ℕ)
  /-- inside this call of `mutex.lock()`, with `wait_error` -/
  | relocking (l : ℕ) (waitError : ℤ)
  | returned (error : ℤ)
  deriving DecidableEq, Repr

def CondPc.done : CondPc → Bool
  | .returned _ => true
  | _ => false

structure CondWait (F : Type) where
  fiber : F
  timeout : ℕ
  pc : CondPc

structure ConditionVariable (F : Type) where
  mutex : FiberMutex F
  /-- `waiters_` of the condition -/
  queue : WaitQueue F
  /-- the `wait` that holds the condition's `guard_` from one step to the next -/
  guard : Option ℕ
  waits : ℕ → CondWait F
  count : ℕ
  /-- the `wait` calls in the order in which they released the mutex -/
  releases : List ℕ
  /-- the calls of `waitLocked` that a notification, a timer or `cancelWaiters` has completed -/
  notified : List ℕ
  timedOut : List ℕ
  cancelled : List ℕ

variable {F : Type}

/-- `wait` of the mutex's loop on any scheduler; `FiberMutex.wait` is the case of an `IOManager`
worker. -/
def FiberMutex.waitOn (m : FiberMutex F) (scheduler : Option SchedulerKind) (l : ℕ) (thread : ℤ)
    (remaining : ℕ) : FiberMutex F :=
  { m.setPc l (.waiting m.queue.count) with
    queue := m.queue.enter (m.locks l).fiber scheduler thread remaining }

def FiberMutex.lockRoundOn [DecidableEq F] (m : FiberMutex F) (scheduler : Option SchedulerKind)
    (l now : ℕ) (thread : ℤ) : FiberMutex F :=
  let k := m.locks l
  if m.owner = none ∧ (m.handoff = false ∨ k.selected ≠ none) then
    (m.acquire k.fiber k.selected).setPc l (.returned 0)
  else if m.owner = some k.fiber then m.setPc l (.returned EDEADLK)
  else if k.timeout = kFiberWaitForever then m.waitOn scheduler l thread kFiberWaitForever
  else if k.deadline ≤ now then m.setPc l (.returned ETIMEDOUT)
  else m.waitOn scheduler l thread (k.deadline - now)

namespace ConditionVariable

variable (s : ConditionVariable F)

def setWait (w : ℕ) (k : CondWait F) : ConditionVariable F :=
  { s with waits := Function.update s.waits w k }

def setPc (w : ℕ) (pc : CondPc) : ConditionVariable F :=
  s.setWait w { s.waits w with pc := pc }

/-- `wait` is called: `mutex.ownedByCurrent()`. -/
def wait [DecidableEq F] (fiber : F) (timeout : ℕ) : ConditionVariable F :=
  let pc := if s.mutex.owner = some fiber then CondPc.owned else .returned EPERM
  { s.setWait s.count ⟨fiber, timeout, pc⟩ with count := s.count + 1 }

/-- `guard_.lock()`. -/
def lockGuard (w : ℕ) : ConditionVariable F :=
  { s.setPc w .guarded with guard := some w }

/-- `mutex.unlock()`, whose result is not looked at. -/
def unlockMutex [DecidableEq F] (w : ℕ) : ConditionVariable F :=
  { s.setPc w .released with
    mutex := (s.mutex.unlock (s.waits w).fiber).1
    releases := s.releases ++ [w] }

/-- `waiters_.waitLocked(guard_, timeout_ms)` up to the release of the guard. -/
def enqueue (w : ℕ) (scheduler : Option SchedulerKind) (thread : ℤ) : ConditionVariable F :=
  { s.setPc w (.waiting s.queue.count) with
    queue := s.queue.enter (s.waits w).fiber scheduler thread (s.waits w).timeout
    guard := none }

/-- `mutex.lock()` is called. -/
def relock (w : ℕ) (waitError : ℤ) : ConditionVariable F :=
  { s.setPc w (.relocking s.mutex.count waitError) with
    mutex := s.mutex.lock (s.waits w).fiber kFiberWaitForever 0 }

/-- What the loop around `mutex.lock()` does with its result. -/
def relocked (w : ℕ) (waitError result : ℤ) : ConditionVariable F :=
  if result = 0 then s.setPc w (.returned waitError)
  else if result = EINTR then s.relock w waitError
  else s.setPc w (.returned result)

def notifyOne : ConditionVariable F × Bool :=
  let woken := s.queue.wakeOneLocked 0
  ({ s with
      queue := woken.1
      notified := s.notified ++ s.queue.waiters.take (if woken.2 then 1 else 0) }, woken.2)

def notifyAll : ConditionVariable F × ℕ :=
  let woken := s.queue.wakeAllLocked 0
  ({ s with queue := woken.1, notified := s.notified ++ s.queue.waiters.take woken.2 }, woken.2)

def cancelWaiters (error : ℤ) : ConditionVariable F × ℕ :=
  let woken := s.queue.wakeAllLocked error
  ({ s with queue := woken.1, cancelled := s.cancelled ++ s.queue.waiters.take woken.2 }, woken.2)

/-- A step of the condition's queue; the timer callback is noted if it completes the waiter. -/
def queueStep (a : Action F) : ConditionVariable F :=
  { s with
    queue := (waitQueue F).next s.queue a
    timedOut := match a with
      | .timeout c => if c ∈ s.queue.waiters then s.timedOut ++ [c] else s.timedOut
      | _ => s.timedOut }

/-- The Fiber is in no call of `wait` and in none of `lock`. -/
def Idle (fiber : F) : Prop :=
  (∀ w < s.count, (s.waits w).fiber = fiber → (s.waits w).pc.done = true) ∧ s.mutex.Free fiber

instance [DecidableEq F] (s : ConditionVariable F) (fiber : F) : Decidable (s.Idle fiber) :=
  inferInstanceAs (Decidable (_ ∧ _))

/-- The steps of `waitLocked` and its timer that take the guard. -/
def takesGuard (q : WaitQueue F) : Action F → Bool
  | .timeout _ | .finish _ => true
  | .arm c => (q.calls c).timeout ≠ kFiberWaitForever ∧ (q.calls c).scheduler ≠ some .ioManager
  | _ => false

end ConditionVariable

inductive CondAction (F : Type) where
  | wait (fiber : F) (timeout : ℕ)
  | lockGuard (w : ℕ)
  | unlockMutex (w : ℕ)
  | enqueue (w : ℕ) (scheduler : Option SchedulerKind) (thread : ℤ)
  | queue (a : Action F)
  | waitReturned (w c : ℕ) (error : ℤ)
  | relocked (w l : ℕ) (waitError result : ℤ)
  | notifyOne
  | notifyAll
  | cancelWaiters (error : ℤ)
  /-- the mutex: other lockers, and the `lock` calls of `wait` -/
  | lock (fiber : F) (timeout now : ℕ)
  | lockRound (l now : ℕ) (scheduler : Option SchedulerKind) (thread : ℤ)
  | mutexQueue (a : Action F)
  | lockReturned (l c : ℕ) (error : ℤ)
  | tryLock (fiber : F)
  | unlock (fiber : F)
  | cancelLockers (error : ℤ)
  /-- a Fiber parked in one queue is resumed by a task of the other -/
  | strayCond (c task : ℕ)
  | strayMutex (c task : ℕ)

/-- Every interleaving of the calls. -/
def conditionVariable (F : Type) [DecidableEq F] :
    Machine (ConditionVariable F) (CondAction F) where
  init s := (fiberMutex F).init s.mutex ∧ (waitQueue F).init s.queue ∧ s.guard = none ∧
    s.count = 0 ∧ s.releases = [] ∧ s.notified = [] ∧ s.timedOut = [] ∧ s.cancelled = []
  enabled s
    | .wait fiber _ => s.Idle fiber
    | .lockGuard w => (w < s.count ∧ (s.waits w).pc = .owned) ∧ s.guard = none
    | .unlockMutex w => w < s.count ∧ (s.waits w).pc = .guarded
    | .enqueue w _ _ => w < s.count ∧ (s.waits w).pc = .released
    | .queue a => (a.internal = true ∧ (waitQueue F).enabled s.queue a) ∧
        (ConditionVariable.takesGuard s.queue a = true → s.guard = none)
    | .waitReturned w c error => (w < s.count ∧ (s.waits w).pc = .waiting c) ∧
        (s.queue.calls c).pc = .returned error
    | .relocked w l waitError result =>
        (w < s.count ∧ (s.waits w).pc = .relocking l waitError) ∧
          (s.mutex.locks l).pc = .returned result
    | .notifyOne | .notifyAll | .cancelWaiters _ => s.guard = none
    | .lock fiber _ _ | .tryLock fiber | .unlock fiber => s.Idle fiber
    | .lockRound l _ _ _ => l < s.mutex.count ∧ (s.mutex.locks l).pc = .guard
    | .mutexQueue a => a.internal = true ∧ (waitQueue F).enabled s.mutex.queue a
    | .lockReturned l c error => (l < s.mutex.count ∧ (s.mutex.locks l).pc = .waiting c) ∧
        (s.mutex.queue.calls c).pc = .returned error
    | .cancelLockers _ => True
    | .strayCond c task => (c < s.queue.count ∧ (s.queue.calls c).pc = .parked) ∧
        task ∈ s.mutex.queue.ready ∧
          (s.mutex.queue.calls task).fiber = (s.queue.calls c).fiber
    | .strayMutex c task => (c < s.mutex.queue.count ∧ (s.mutex.queue.calls c).pc = .parked) ∧
        task ∈ s.queue.ready ∧ (s.queue.calls task).fiber = (s.mutex.queue.calls c).fiber
  next s
    | .wait fiber timeout => s.wait fiber timeout
    | .lockGuard w => s.lockGuard w
    | .unlockMutex w => s.unlockMutex w
    | .enqueue w scheduler thread => s.enqueue w scheduler thread
    | .queue a => s.queueStep a
    | .waitReturned w _ error => s.relock w error
    | .relocked w _ waitError result => s.relocked w waitError result
    | .notifyOne => s.notifyOne.1
    | .notifyAll => s.notifyAll.1
    | .cancelWaiters error => (s.cancelWaiters error).1
    | .lock fiber timeout now => { s with mutex := s.mutex.lock fiber timeout now }
    | .lockRound l now scheduler thread =>
        { s with mutex := s.mutex.lockRoundOn scheduler l now thread }
    | .mutexQueue a => { s with mutex.queue := (waitQueue F).next s.mutex.queue a }
    | .lockReturned l c error => { s with mutex := s.mutex.waitReturned l c error }
    | .tryLock fiber => { s with mutex := (s.mutex.tryLock fiber).1 }
    | .unlock fiber => { s with mutex := (s.mutex.unlock fiber).1 }
    | .cancelLockers error => { s with mutex := (s.mutex.cancelWaiters error).1 }
    | .strayCond c task =>
        { s with
          queue := s.queue.setPc c .resumed
          mutex.queue.ready := s.mutex.queue.ready.erase task }
    | .strayMutex c task =>
        { s with
          mutex.queue := s.mutex.queue.setPc c .resumed
          queue.ready := s.queue.ready.erase task }

instance [DecidableEq F] (s : ConditionVariable F) (a : CondAction F) :
    Decidable ((conditionVariable F).enabled s a) := by
  rcases a <;> (dsimp only [conditionVariable]; infer_instance)

end PulsarRuntime.Sync
