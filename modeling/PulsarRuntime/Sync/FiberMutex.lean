import PulsarRuntime.Sync.Resume

/-!
# `FiberMutex`: ownership, reservation and FIFO handoff

`unlock` gives the mutex up and reserves it (`handoff_`) for the waiter it wakes; that waiter
finds the reservation when it runs again and is the only one that may take the mutex.  The
machine interleaves, on `IOManager` workers, the critical sections of any number of `lock` calls
(timed or not), `try_lock`, `unlock`, `cancelWaiters` and everything `WaitQueue` does for the
calls that are parked.

The state carries two histories for the statements: `holding`, the Fibers between a successful
acquisition and their `unlock`, and `log`, the acquisitions in order, each with the wait that
selected it and the queue it met.
-/

namespace PulsarRuntime.Sync

def EPERM : ℤ := 1

def EBUSY : ℤ := 16

def EDEADLK : ℤ := 35

/-- Where a call of `FiberMutex::lock` is. -/
inductive LockPc where
  /-- at the head of the loop, about to take the guard -/
  | guard
  /-- inside this call of `waitLocked` -/
  | waiting (c : ℕ)
  | returned (error : ℤ)
  deriving DecidableEq, Repr

def LockPc.done : LockPc → Bool
  | .returned _ => true
  | _ => false

structure Lock (F : Type) where
  fiber : F
  timeout : ℕ
  deadline : ℕ
  /-- `selected_waiter`, with the call of `waitLocked` that returned 0 -/
  selected : Option ℕ
  pc : LockPc

structure Acquisition (F : Type) where
  fiber : F
  ticket : Option ℕ
  queued : List ℕ

structure FiberMutex (F : Type) where
  queue : WaitQueue F
  owner : Option F
  handoff : Bool
  locks : ℕ → Lock F
  count : ℕ
  holding : List F
  log : List (Acquisition F)

variable {F : Type}

namespace FiberMutex

variable (m : FiberMutex F)

def setLock (l : ℕ) (k : Lock F) : FiberMutex F :=
  { m with locks := Function.update m.locks l k }

def setPc (l : ℕ) (pc : LockPc) : FiberMutex F :=
  m.setLock l { m.locks l with pc := pc }

/-- `owner_ = current`, with the histories. -/
def acquire (fiber : F) (ticket : Option ℕ) : FiberMutex F :=
  { m with
    owner := some fiber
    handoff := false
    holding := fiber :: m.holding
    log := m.log ++ [⟨fiber, ticket, m.queue.waiters⟩] }

/-- `lock` up to its loop. -/
def lock (fiber : F) (timeout now : ℕ) : FiberMutex F :=
  let deadline := if timeout = kFiberWaitForever then 0 else (now + timeout) % 2 ^ 64
  { m.setLock m.count ⟨fiber, timeout, deadline, none, .guard⟩ with count := m.count + 1 }

/-- `waiters_.waitLocked(guard_, remaining)` up to the release of the guard. -/
def wait (l : ℕ) (thread : ℤ) (remaining : ℕ) : FiberMutex F :=
  { m.setPc l (.waiting m.queue.count) with
    queue := m.queue.enter (m.locks l).fiber (some .ioManager) thread remaining }

/-- One round of the loop of `lock`, up to its `waitLocked`; `now` is read for a timed call. -/
def lockRound [DecidableEq F] (l now : ℕ) (thread : ℤ) : FiberMutex F :=
  let k := m.locks l
  if m.owner = none ∧ (m.handoff = false ∨ k.selected ≠ none) then
    (m.acquire k.fiber k.selected).setPc l (.returned 0)
  else if m.owner = some k.fiber then m.setPc l (.returned EDEADLK)
  else if k.timeout = kFiberWaitForever then m.wait l thread kFiberWaitForever
  else if k.deadline ≤ now then m.setPc l (.returned ETIMEDOUT)
  else m.wait l thread (k.deadline - now)

/-- `selected_waiter = true`, and back to the head of the loop. -/
def select (l c : ℕ) : FiberMutex F :=
  m.setLock l { m.locks l with selected := some c, pc := .guard }

/-- What `lock` does with the result of `waitLocked`. -/
def waitReturned (l c : ℕ) (error : ℤ) : FiberMutex F :=
  if error ≠ 0 then m.setPc l (.returned error) else m.select l c

/-- `handoff_` is false where `try_lock` takes the mutex, so `acquire` leaves it as it is. -/
def tryLock [DecidableEq F] (fiber : F) : FiberMutex F × ℤ :=
  if m.owner = none ∧ m.handoff = false then (m.acquire fiber none, 0)
  else (m, if m.owner = some fiber then EDEADLK else EBUSY)

def unlock [DecidableEq F] (fiber : F) : FiberMutex F × ℤ :=
  if m.owner ≠ some fiber then (m, EPERM)
  else
    let woken := m.queue.wakeOneLocked 0
    ({ m with
        owner := none
        queue := woken.1
        handoff := woken.2
        holding := m.holding.erase fiber }, 0)

def cancelWaiters (error : ℤ) : FiberMutex F × ℕ :=
  let woken := m.queue.wakeAllLocked error
  ({ m with queue := woken.1 }, woken.2)

/-- The Fiber is not inside `lock`, so it can make another call. -/
def Free (fiber : F) : Prop :=
  ∀ l < m.count, (m.locks l).fiber = fiber → (m.locks l).pc.done = true

instance [DecidableEq F] (m : FiberMutex F) (fiber : F) : Decidable (m.Free fiber) := by
  unfold Free
  infer_instance

end FiberMutex

inductive MutexAction (F : Type) where
  | lock (fiber : F) (timeout now : ℕ)
  | lockRound (l now : ℕ) (thread : ℤ)
  | queue (a : Action F)
  | waitReturned (l c : ℕ) (error : ℤ)
  | tryLock (fiber : F)
  | unlock (fiber : F)
  | cancelWaiters (error : ℤ)

/-- Every interleaving of the calls; `cancelWaiters` is given a non-zero error. -/
def fiberMutex (F : Type) [DecidableEq F] : Machine (FiberMutex F) (MutexAction F) where
  init m := (waitQueue F).init m.queue ∧ m.owner = none ∧ m.handoff = false ∧ m.count = 0 ∧
    m.holding = [] ∧ m.log = []
  enabled m
    | .lock fiber _ _ => m.Free fiber
    | .lockRound l _ _ => l < m.count ∧ (m.locks l).pc = .guard
    | .queue a => a.internal = true ∧ (waitQueue F).enabled m.queue a
    | .waitReturned l c error => (l < m.count ∧ (m.locks l).pc = .waiting c) ∧
        (m.queue.calls c).pc = .returned error
    | .tryLock fiber => m.Free fiber
    | .unlock fiber => m.Free fiber
    | .cancelWaiters error => error ≠ 0
  next m
    | .lock fiber timeout now => m.lock fiber timeout now
    | .lockRound l now thread => m.lockRound l now thread
    | .queue a => { m with queue := (waitQueue F).next m.queue a }
    | .waitReturned l c error => m.waitReturned l c error
    | .tryLock fiber => (m.tryLock fiber).1
    | .unlock fiber => (m.unlock fiber).1
    | .cancelWaiters error => (m.cancelWaiters error).1

instance [DecidableEq F] (m : FiberMutex F) (a : MutexAction F) :
    Decidable ((fiberMutex F).enabled m a) := by
  rcases a <;> (dsimp only [fiberMutex]; infer_instance)

/-! ### Steps of the queue that add no waiter -/

/-- Nor is a waiter selected. -/
structure Quiet (q q' : WaitQueue F) : Prop extends Kept q q' where
  selected : ∀ c, Selected q' c ↔ Selected q c

namespace Quiet

theorem refl (q : WaitQueue F) : Quiet q q := ⟨.refl q, fun _ => Iff.rfl⟩

theorem trans {q q' q'' : WaitQueue F} (h : Quiet q q') (h' : Quiet q' q'') : Quiet q q'' :=
  ⟨h.toKept.trans h'.toKept, fun c => (h'.selected c).trans (h.selected c)⟩

/-- A step that changes one call's program point or timer only. -/
theorem setCall (q : WaitQueue F) {c : ℕ} {k : Call F} (hf : k.fiber = (q.calls c).fiber)
    (hw : k.waiting = (q.calls c).waiting) (he : k.error = (q.calls c).error)
    (hd : (q.calls c).pc.done = true → k.pc.done = true) : Quiet q (q.setCall c k) := by
  refine ⟨.setCall q hf hw hd, fun d => ?_⟩
  unfold Selected
  by_cases hdc : d = c
  · subst hdc
    rw [WaitQueue.setCall_calls_self, hw, he]
  · rw [WaitQueue.setCall_calls_ne q k hdc]

variable {q : WaitQueue F}

/-- Completing a waiter with an error selects nobody. -/
theorem complete (h : q.Inv) {c : ℕ} (hc : c ∈ q.waiters) {error : ℤ}
    (herror : error ≠ 0) : Quiet q (q.complete c error) where
  toKept := .complete q c error
  selected := by
    intro d
    unfold Selected
    rw [WaitQueue.complete_calls]
    split
    · rename_i hdc
      subst hdc
      constructor
      · exact fun hs => absurd hs.2 herror
      · intro hs
        rw [(h.queued d hc).1] at hs
        cases hs.1
    · exact Iff.rfl

theorem completeLocked (h : q.Inv) (c : ℕ) {error : ℤ} (herror : error ≠ 0) :
    Quiet q (q.completeLocked c error).1 := by
  by_cases hc : c ∈ q.waiters
  · rw [WaitQueue.completeLocked_of_mem h hc]
    exact complete h hc herror
  · rw [WaitQueue.completeLocked_of_not_mem q hc]
    exact refl q

theorem wakeAllLoop {error : ℤ} (herror : error ≠ 0) (fuel : ℕ) (h : q.Inv) :
    Quiet q (WaitQueue.wakeAllLoop error fuel q).1 := by
  induction fuel generalizing q with
  | zero => exact refl q
  | succ fuel ih =>
    unfold WaitQueue.wakeAllLoop
    split
    · have hone : Quiet q (q.wakeOneLocked error).1 := by
        unfold WaitQueue.wakeOneLocked
        split
        · exact refl q
        · exact completeLocked h _ herror
      exact hone.trans (ih (WaitQueue.wakeOneLocked_inv h error))
    · exact refl q

theorem internal (h : q.Inv) {a : Action F} (ha : a.internal = true)
    (he : (waitQueue F).enabled q a) : Quiet q ((waitQueue F).next q a) := by
  cases a with
  | enter => cases ha
  | wakeOne => cases ha
  | wakeAll => cases ha
  | arm c =>
    obtain ⟨hc, hpc⟩ := he
    show Quiet q (q.arm c)
    unfold WaitQueue.arm
    split
    · exact setCall q rfl rfl rfl (by rw [hpc]; exact fun h => h)
    split
    · exact setCall q rfl rfl rfl (by rw [hpc]; exact fun h => h)
    · rename_i hforever hio
      rcases h.supported c hc hpc with hs | hs
      · exact absurd hs hio
      · exact absurd hs hforever
  | yield c =>
    obtain ⟨hc, hpc⟩ := he
    exact setCall q rfl rfl rfl (by rw [hpc]; exact fun h => h)
  | resume c task =>
    obtain ⟨⟨hc, hpc⟩, -⟩ := he
    have hset : Quiet q (q.setPc c .resumed) :=
      setCall q rfl rfl rfl (by rw [hpc]; exact fun h => h)
    exact ⟨⟨hset.count, hset.waiters, hset.fiber, hset.done, hset.waiting⟩, hset.selected⟩
  | finish c =>
    obtain ⟨hc, hpc⟩ := he
    show Quiet q (q.finish c)
    unfold WaitQueue.finish
    rw [(WaitQueue.resumed_woken h hc hpc).waiting]
    exact setCall q rfl rfl rfl fun _ => rfl
  | timeout c =>
    have hset : Quiet q (q.setCall c { q.calls c with timer := false }) :=
      setCall q rfl rfl rfl fun h => h
    refine hset.trans (completeLocked (h.setCall he.1 ?_) c (by decide))
    constructor <;> simp
    exact h.yields c he.1

end Quiet

end PulsarRuntime.Sync
