import PulsarRuntime.Scheduler.Queues

/-!
# How an idle worker is woken up

`scheduler()` puts a task into a queue and calls `tickle` if the queue was empty; `tickle` writes a
byte to the pipe if some worker counts as idle.  A worker that finds no task asks
`hasPendingTasks`, tickles if there are any, counts itself as idle and blocks in `epoll_wait`.  The
pipe is registered edge-triggered: the writes until somebody fetches the event wake one blocked
worker, which empties the pipe, hands out timers and events and goes back to the head of its loop.

The steps are the critical sections of the queues, the accesses to `idleThreadCnt_` and the system
calls on the pipe.  The machine is the time between `start()` and `stop()`, so the idle Fiber does
not end.  `epoll_wait` may also come back because of its timeout or of a descriptor, and there are
writes to the pipe of which we do not say where they come from: a new first timer tickles as well.
-/

namespace PulsarRuntime.Scheduler

/-- Where a worker of an `IOManager` is. -/
inductive LoopPc where
  | unstarted
  /-- at the head of the loop: its own queue comes next -/
  | top
  | stealing (startOffset i : ℕ)
  | running
  /-- in `hasPendingTasks`, at the `i`-th queue -/
  | asking (i : ℕ)
  /-- in `tickle`: `isHasIdleThreads` comes next -/
  | tickling
  /-- in `tickle`: `write` comes next -/
  | writing
  /-- `++idleThreadCnt_` comes next -/
  | entering
  /-- in `idle`: `epoll_wait` comes next -/
  | idling
  /-- blocked in `epoll_wait` -/
  | polling
  /-- `epoll_wait` has returned the pipe's event -/
  | woken
  /-- timers and events are handed out -/
  | processing
  /-- `--idleThreadCnt_` comes next -/
  | leaving
  deriving DecidableEq

namespace LoopPc

/-- The worker has looked into its own queue and does not look again before `epoll_wait`. -/
def blind : LoopPc → Bool
  | .stealing _ _ | .asking _ | .tickling | .writing | .entering | .idling => true
  | _ => false

/-- The worker is counted by `idleThreadCnt_`. -/
def counted : LoopPc → Bool
  | .idling | .polling | .woken | .processing | .leaving => true
  | _ => false

/-- The worker will find the `v`-th queue not empty before it blocks, if it takes no task, or is
about to tickle. -/
def heads (v : ℕ) : LoopPc → Bool
  | .top | .stealing _ _ | .tickling | .writing | .woken | .processing | .leaving => true
  | .asking i => i ≤ v
  | _ => false

end LoopPc

/-- Where a call of `scheduler()` is. -/
inductive SendPc (n : ℕ) where
  | called
  | routed (v : Fin n)
  /-- the queue was empty: in `tickle`, `isHasIdleThreads` comes next -/
  | tickling
  /-- in `tickle`, `write` comes next -/
  | writing
  | done
  deriving DecidableEq

/-- Between `enqueueTask` and the end of the `tickle` it decided on. -/
def SendPc.deciding {n : ℕ} : SendPc n → Bool
  | .tickling | .writing => true
  | _ => false

structure Sending (J : Type) (n : ℕ) where
  task : Task J
  origin : Option (Fin n)
  pc : SendPc n

structure Wakeups (J : Type) (n : ℕ) where
  queues : Queues J n
  pc : Fin n → LoopPc
  sends : ℕ → Sending J n
  count : ℕ
  idleThreadCnt : ℕ
  /-- bytes in the pipe -/
  pipe : ℕ
  /-- nobody has fetched the pipe's event since the last write -/
  ready : Bool

variable {J : Type} {n : ℕ}

def WorkerQueue.isEmpty (q : WorkerQueue J) : Bool :=
  q.unpinnedTasks.isEmpty && q.pinnedTasks.isEmpty

namespace Wakeups

variable (s : Wakeups J n) (w : Fin n)

def setPc (pc : LoopPc) : Wakeups J n :=
  { s with pc := Function.update s.pc w pc }

def setSend (k : ℕ) (pc : SendPc n) : Wakeups J n :=
  { s with sends := Function.update s.sends k { s.sends k with pc := pc } }

def write : Wakeups J n := { s with pipe := s.pipe + 1, ready := true }

/-! ### The worker -/

/-- Worker `w` runs a task it has taken from queue `v`. -/
def take (w v : Fin n) (rest : WorkerQueue J) : Wakeups J n :=
  { s.setPc w .running with queues := s.queues.setWorker v rest }

def takeLocal (seed : ℕ) : Wakeups J n :=
  match (s.queues.workers w).takeLocal (s.queues.workers w).threadId with
  | some (_, rest) => s.take w w rest
  | none => s.setPc w (if n ≤ 1 then .asking 0 else .stealing (seed % (n - 1) + 1) 0)

def steal [NeZero n] (startOffset i : ℕ) : Wakeups J n :=
  let v := Queues.victim w startOffset i
  match (s.queues.workers v).steal (s.queues.workers w).threadId with
  | some (_, rest) => s.take w v rest
  | none => s.setPc w (if i + 1 < n - 1 then .stealing startOffset (i + 1) else .asking 0)

/-- `hasPendingTasks` looks into the `i`-th queue. -/
def ask (i : ℕ) : Wakeups J n :=
  if hi : i < n then
    if (s.queues.workers ⟨i, hi⟩).isEmpty then s.setPc w (.asking (i + 1)) else s.setPc w .tickling
  else s.setPc w .entering

/-- `isHasIdleThreads` -/
def checkIdle : Wakeups J n :=
  s.setPc w (if 0 < s.idleThreadCnt then .writing else .entering)

/-! ### A call of `scheduler()` -/

def call (origin : Option (Fin n)) (job : Option J) (thread : ℤ) : Wakeups J n :=
  { s with
    sends := Function.update s.sends s.count
      ⟨⟨s.count, job, thread⟩, origin, if job.isNone then .done else .called⟩
    count := s.count + 1 }

def route [NeZero n] (k : ℕ) : Wakeups J n :=
  let r := s.queues.route (s.sends k).origin (s.sends k).task.thread
  { s.setSend k (.routed r.1) with queues := r.2 }

def push (k : ℕ) (v : Fin n) : Wakeups J n :=
  let r := s.queues.push v (s.sends k).task
  { s.setSend k (if r.2 then .tickling else .done) with queues := r.1 }

def sendCheckIdle (k : ℕ) : Wakeups J n :=
  s.setSend k (if 0 < s.idleThreadCnt then .writing else .done)

end Wakeups

inductive WakeAction (J : Type) (n : ℕ) where
  | start (w : Fin n)
  | takeLocal (w : Fin n) (seed : ℕ)
  | steal (w : Fin n) (startOffset i : ℕ)
  | finish (w : Fin n)
  | ask (w : Fin n) (i : ℕ)
  | checkIdle (w : Fin n)
  | write (w : Fin n)
  | enter (w : Fin n)
  | poll (w : Fin n)
  | wake (w : Fin n)
  /-- `epoll_wait` comes back without the pipe's event -/
  | expire (w : Fin n)
  | drain (w : Fin n)
  | yield (w : Fin n)
  | leave (w : Fin n)
  | call (origin : Option (Fin n)) (job : Option J) (thread : ℤ)
  | route (k : ℕ)
  | push (k : ℕ) (v : Fin n)
  | sendCheckIdle (k : ℕ)
  | sendWrite (k : ℕ)
  | strayWrite

/-- Workers on the threads `tid`, and any number of calls of `scheduler()` from anywhere. -/
def wakeups (J : Type) {n : ℕ} [NeZero n] (tid : Fin n → ℕ) :
    Machine (Wakeups J n) (WakeAction J n) where
  init s := (∀ w, (s.queues.workers w).unpinnedTasks = [] ∧ (s.queues.workers w).pinnedTasks = []) ∧
    (∀ w, s.pc w = .unstarted) ∧ s.count = 0 ∧ s.idleThreadCnt = 0 ∧ s.pipe = 0 ∧ s.ready = false
  enabled s
    | .start w => s.pc w = .unstarted
    | .takeLocal w _ => s.pc w = .top
    | .steal w startOffset i => s.pc w = .stealing startOffset i
    | .finish w => s.pc w = .running
    | .ask w i => s.pc w = .asking i
    | .checkIdle w => s.pc w = .tickling
    | .write w => s.pc w = .writing
    | .enter w => s.pc w = .entering
    | .poll w => s.pc w = .idling
    | .wake w => s.pc w = .polling ∧ s.ready = true
    | .expire w => s.pc w = .polling
    | .drain w => s.pc w = .woken
    | .yield w => s.pc w = .processing
    | .leave w => s.pc w = .leaving
    | .call _ _ _ => True
    | .route k => k < s.count ∧ (s.sends k).pc = .called
    | .push k v => k < s.count ∧ (s.sends k).pc = .routed v
    | .sendCheckIdle k => k < s.count ∧ (s.sends k).pc = .tickling
    | .sendWrite k => k < s.count ∧ (s.sends k).pc = .writing
    | .strayWrite => True
  next s
    | .start w => { s.setPc w .top with
        queues := s.queues.setWorker w { s.queues.workers w with threadId := tid w } }
    | .takeLocal w seed => s.takeLocal w seed
    | .steal w startOffset i => s.steal w startOffset i
    | .finish w => s.setPc w .top
    | .ask w i => s.ask w i
    | .checkIdle w => s.checkIdle w
    | .write w => s.write.setPc w .entering
    | .enter w => { s.setPc w .idling with idleThreadCnt := s.idleThreadCnt + 1 }
    | .poll w => s.setPc w .polling
    | .wake w => { s.setPc w .woken with ready := false }
    | .expire w => s.setPc w .processing
    | .drain w => { s.setPc w .processing with pipe := 0 }
    | .yield w => s.setPc w .leaving
    | .leave w => { s.setPc w .top with idleThreadCnt := s.idleThreadCnt - 1 }
    | .call origin job thread => s.call origin job thread
    | .route k => s.route k
    | .push k v => s.push k v
    | .sendCheckIdle k => s.sendCheckIdle k
    | .sendWrite k => s.write.setSend k .done
    | .strayWrite => s.write

instance [NeZero n] (tid : Fin n → ℕ) (s : Wakeups J n) (a : WakeAction J n) :
    Decidable ((wakeups J tid).enabled s a) := by
  rcases a <;> (dsimp only [wakeups]; infer_instance)

end PulsarRuntime.Scheduler
