import Mathlib.Algebra.GroupWithZero.Nat
import Mathlib.Data.Fin.Basic
import Mathlib.Data.Int.Notation
import Mathlib.Data.List.FinRange
import Mathlib.Logic.Function.Basic
import PulsarRuntime.Lib.Machine
import PulsarRuntime.Lib.Placement

/-!
# The scheduler's work queues

Every worker has two deques, one for tasks pinned to an OS thread and one for the others.
`enqueueTask` picks a queue by three rules (the worker whose registered thread the task is pinned
to, the submitting worker itself, round robin), an owner takes from the front of its own queue,
and a thief from the back of another's, leaving alone what is pinned elsewhere.

The functions below are the critical sections of `scheduler.cpp`.  `pool` interleaves them for
any number of workers: a submission first finds its queue (the loads of the thread ids and the
`fetch_add`) and then pushes, and a worker that looks for work loads its own thread id and locks
one queue after the other.  Thread ids are natural numbers, so that none of them is -1.
-/

namespace PulsarRuntime.Scheduler

/-- A `SchedulerTask`: the Fiber or callback, if any, and the thread it is pinned to or -1.  The
number tells submissions apart. -/
structure Task (J : Type) where
  id : ℕ
  job : Option J
  thread : ℤ

structure WorkerQueue (J : Type) where
  unpinnedTasks : List (Task J)
  pinnedTasks : List (Task J)
  threadId : ℤ
  active : Bool

variable {J : Type} {n : ℕ}

namespace WorkerQueue

variable (q : WorkerQueue J)

/-- The critical section of `enqueueTask`, and whether the queue was empty. -/
def push (task : Task J) : WorkerQueue J × Bool :=
  let wasEmpty := q.unpinnedTasks.isEmpty && q.pinnedTasks.isEmpty
  if task.thread ≠ -1 then ({ q with pinnedTasks := q.pinnedTasks ++ [task] }, wasEmpty)
  else ({ q with unpinnedTasks := q.unpinnedTasks ++ [task] }, wasEmpty)

/-- `tryTakeLocal`. -/
def takeLocal (threadId : ℤ) : Option (Task J × WorkerQueue J) :=
  match takeFirst (fun t => t.thread == -1 || t.thread == threadId) q.pinnedTasks with
  | some (t, rest) => some (t, { q with pinnedTasks := rest })
  | none =>
    match q.unpinnedTasks with
    | [] => none
    | t :: rest => some (t, { q with unpinnedTasks := rest })

/-- The critical section of `trySteal` at one victim. -/
def steal (threadId : ℤ) : Option (Task J × WorkerQueue J) :=
  match takeLast q.unpinnedTasks with
  | some (t, rest) => some (t, { q with unpinnedTasks := rest })
  | none =>
    match takeFirst (fun t => t.thread == threadId) q.pinnedTasks with
    | some (t, rest) => some (t, { q with pinnedTasks := rest })
    | none => none

end WorkerQueue

/-- `workerQueues_` and `nextQueue_`. -/
structure Queues (J : Type) (n : ℕ) where
  workers : Fin n → WorkerQueue J
  nextQueue : ℕ

namespace Queues

variable (q : Queues J n)

def setWorker (w : Fin n) (wq : WorkerQueue J) : Queues J n :=
  { q with workers := Function.update q.workers w wq }

def findWorkerByThread (thread : ℤ) : Option (Fin n) :=
  if thread = -1 then none
  else (List.finRange n).find? fun w => (q.workers w).threadId == thread

/-- The queue `enqueueTask` chooses for a task submitted by worker `origin` or from outside. -/
def route [NeZero n] (origin : Option (Fin n)) (thread : ℤ) : Fin n × Queues J n :=
  let workerIndex := if thread ≠ -1 then q.findWorkerByThread thread else origin
  match workerIndex with
  | some w => (w, q)
  | none => (Fin.ofNat n q.nextQueue, { q with nextQueue := (q.nextQueue + 1) % 2 ^ 64 })

def push (w : Fin n) (task : Task J) : Queues J n × Bool :=
  (q.setWorker w ((q.workers w).push task).1, ((q.workers w).push task).2)

/-- `enqueueTask` in one go; the result says whether to tickle. -/
def enqueueTask [NeZero n] (origin : Option (Fin n)) (task : Task J) : Queues J n × Bool :=
  if task.job.isNone then (q, false)
  else (q.route origin task.thread).2.push (q.route origin task.thread).1 task

/-- `victimIndex` in round `i` of `trySteal`, for the start offset the thread's seed gives. -/
def victim [NeZero n] (w : Fin n) (startOffset i : ℕ) : Fin n :=
  Fin.ofNat n (w.val + ((startOffset + i - 1) % (n - 1) + 1))

end Queues

@[simp] theorem setWorker_self (q : Queues J n) (w : Fin n) (wq : WorkerQueue J) :
    (q.setWorker w wq).workers w = wq := Function.update_self ..

theorem setWorker_ne (q : Queues J n) {w v : Fin n} (wq : WorkerQueue J) (h : v ≠ w) :
    (q.setWorker w wq).workers v = q.workers v := Function.update_of_ne h ..

/-- Finding a queue changes none. -/
theorem route_workers [NeZero n] (q : Queues J n) (origin : Option (Fin n)) (thread : ℤ) :
    (q.route origin thread).2.workers = q.workers := by
  unfold Queues.route
  dsimp only
  split <;> rfl

/-! ### Submissions and workers -/

/-- Where a call of `enqueueTask` is. -/
inductive SubmitPc (n : ℕ) where
  | called
  /-- the queue is chosen, the push still to come -/
  | routed (w : Fin n)
  /-- an empty task was turned away -/
  | rejected
  | accepted
  deriving DecidableEq

structure Submission (J : Type) (n : ℕ) where
  task : Task J
  origin : Option (Fin n)
  pc : SubmitPc n

/-- Where a worker is in `tryTakeTask`. -/
inductive TakePc where
  | idle
  /-- the thread id is loaded, the worker's own queue is next -/
  | loaded (threadId : ℤ)
  /-- round `i` of the loop of `trySteal` -/
  | stealing (threadId : ℤ) (startOffset i : ℕ)
  deriving DecidableEq

structure Pool (J : Type) (n : ℕ) where
  queues : Queues J n
  subs : ℕ → Submission J n
  count : ℕ
  takers : Fin n → TakePc
  /-- every task ever taken, with the worker that took it -/
  taken : List (Task J × Fin n)

namespace Pool

variable (s : Pool J n)

def setSub (k : ℕ) (pc : SubmitPc n) : Pool J n :=
  { s with subs := Function.update s.subs k { s.subs k with pc := pc } }

def setTaker (w : Fin n) (pc : TakePc) : Pool J n :=
  { s with takers := Function.update s.takers w pc }

def call (origin : Option (Fin n)) (job : Option J) (thread : ℤ) : Pool J n :=
  let pc := if job.isNone then .rejected else .called
  { s with
    subs := Function.update s.subs s.count ⟨⟨s.count, job, thread⟩, origin, pc⟩
    count := s.count + 1 }

def route [NeZero n] (k : ℕ) : Pool J n :=
  let r := s.queues.route (s.subs k).origin (s.subs k).task.thread
  { s.setSub k (.routed r.1) with queues := r.2 }

def push (k : ℕ) (w : Fin n) : Pool J n :=
  { s.setSub k .accepted with queues := (s.queues.push w (s.subs k).task).1 }

/-- Worker `w` leaves queue `v` with task `t`, and runs it. -/
def take (w v : Fin n) (t : Task J) (rest : WorkerQueue J) : Pool J n :=
  { s.setTaker w .idle with
    queues := s.queues.setWorker v rest
    taken := s.taken ++ [(t, w)] }

def takeLocal (w : Fin n) (threadId : ℤ) (seed : ℕ) : Pool J n :=
  match (s.queues.workers w).takeLocal threadId with
  | some (t, rest) => s.take w w t rest
  | none =>
    if n ≤ 1 then s.setTaker w .idle
    else s.setTaker w (.stealing threadId (seed % (n - 1) + 1) 0)

def steal [NeZero n] (w : Fin n) (threadId : ℤ) (startOffset i : ℕ) : Pool J n :=
  let v := Queues.victim w startOffset i
  match (s.queues.workers v).steal threadId with
  | some (t, rest) => s.take w v t rest
  | none =>
    if i + 1 < n - 1 then s.setTaker w (.stealing threadId startOffset (i + 1))
    else s.setTaker w .idle

end Pool

inductive PoolAction (J : Type) (n : ℕ) where
  | register (w : Fin n)
  | call (origin : Option (Fin n)) (job : Option J) (thread : ℤ)
  | route (k : ℕ)
  | push (k : ℕ) (w : Fin n)
  | load (w : Fin n)
  | takeLocal (w : Fin n) (threadId : ℤ) (seed : ℕ)
  | steal (w : Fin n) (threadId : ℤ) (startOffset i : ℕ)

/-- Workers on the threads `tid`.  A worker stores its thread id when it starts, before it looks
for work; in caller mode the constructor has already stored it for worker 0. -/
def pool (J : Type) {n : ℕ} [NeZero n] (tid : Fin n → ℕ) : Machine (Pool J n) (PoolAction J n) where
  init s := (∀ w, (s.queues.workers w).unpinnedTasks = [] ∧ (s.queues.workers w).pinnedTasks = [] ∧
      ((s.queues.workers w).threadId = -1 ∨ (s.queues.workers w).threadId = tid w)) ∧
    s.count = 0 ∧ (∀ w, s.takers w = .idle) ∧ s.taken = []
  enabled s
    | .register w => s.takers w = .idle
    | .call _ _ _ => True
    | .route k => k < s.count ∧ (s.subs k).pc = .called
    | .push k w => k < s.count ∧ (s.subs k).pc = .routed w
    | .load w => s.takers w = .idle ∧ (s.queues.workers w).threadId = tid w
    | .takeLocal w threadId _ => s.takers w = .loaded threadId
    | .steal w threadId startOffset i => s.takers w = .stealing threadId startOffset i
  next s
    | .register w => { s with
        queues := s.queues.setWorker w { s.queues.workers w with threadId := tid w } }
    | .call origin job thread => s.call origin job thread
    | .route k => s.route k
    | .push k w => s.push k w
    | .load w => s.setTaker w (.loaded (s.queues.workers w).threadId)
    | .takeLocal w threadId seed => s.takeLocal w threadId seed
    | .steal w threadId startOffset i => s.steal w threadId startOffset i

instance [NeZero n] (tid : Fin n → ℕ) (s : Pool J n) (a : PoolAction J n) :
    Decidable ((pool J tid).enabled s a) := by
  rcases a <;> (dsimp only [pool]; infer_instance)

end PulsarRuntime.Scheduler
