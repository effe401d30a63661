import PulsarRuntime.Scheduler.Queues
import PulsarRuntime.Timer.Earliest

/-!
# The worker loop and the decision to stop

`Runtime` is a `Scheduler` or an `IOManager` with all its workers.  A worker runs the loop of
`Scheduler::run`: it raises its active flag, looks for a task, runs it, and when there is none
lowers the flag and resumes its idle Fiber, which asks `stopping()`.  An `IOManager` worker that
may not stop waits in `epoll_wait`, then hands out expired timers and ready events with its flag
raised.  Once `stopping()` has answered yes the idle Fiber is gone for good, and the worker leaves
the loop the next time it finds no task.

A step is one critical section of a queue, or one access to `isStopped_`, to an active flag, to a
pending counter or to the timers; `stopping()` is a sequence of such steps.  What a running task
can do is any sequence of submissions, timer and event operations and calls of `asyncBlocking`.
`hasPendingTasks(); tickle()` before the idle Fiber is resumed reads the queues and wakes other
workers, and has no step of its own.
-/

namespace PulsarRuntime.Scheduler

open Timers (Clocked Op noTimer)

/-- How far a call of `stopping()` has come: what it reads next. -/
inductive Scan where
  | timers
  | events
  | blocking
  | stopped
  | queue (i : ℕ)
  | flag (i : ℕ)
  deriving DecidableEq, Repr

/-- Where a worker is. -/
inductive Pc (J : Type) where
  | unstarted
  /-- at the head of the loop of `run` -/
  | top
  | takeLocal
  | stealing (startOffset i : ℕ)
  /-- running a task -/
  | running
  /-- a running task in `cancelEvent`, past `triggerEvent` -/
  | cancelled
  | noTask
  /-- the flag is lowered, the idle Fiber comes next -/
  | cleared
  | scan (stage : Scan)
  /-- in `epoll_wait` -/
  | polling
  /-- `epoll_wait` has returned and the flag is raised -/
  | expiring
  /-- with these callbacks still to be scheduled, then events -/
  | processing (cbs : List J)
  /-- in the loop over the ready events, past `triggerEvent` -/
  | triggered
  | left
  deriving DecidableEq

/-- The worker runs a task or has work in hand that it is going to schedule. -/
def Pc.working {J : Type} : Pc J → Bool
  | .running | .cancelled | .processing (_ :: _) | .triggered => true
  | _ => false

/-- The worker is between raising and lowering its flag. -/
def Pc.busy {J : Type} : Pc J → Bool
  | .takeLocal | .stealing _ _ | .running | .cancelled | .noTask | .expiring | .processing _
  | .triggered => true
  | _ => false

structure Runtime (J : Type) (n : ℕ) where
  queues : Queues J n
  stopped : Bool
  pc : Fin n → Pc J
  /-- the worker's idle Fiber has terminated -/
  idleTerm : Fin n → Bool
  timers : Clocked J
  /-- registered events: what to schedule, and on which thread -/
  events : List (J × ℤ)
  pendingEventCnt : ℕ
  /-- calls in the blocking pool: the Fiber to schedule, and its thread -/
  blocking : List (J × ℤ)
  pendingBlockingTasks : ℕ
  /-- threads of the blocking pool that have scheduled their Fiber and not yet counted down -/
  returning : ℕ
  /-- tasks in the blocking pool from `submitBlocking` itself, which counts nothing -/
  detached : ℕ
  nextId : ℕ

/-- The clock readings of a pass over the timers. -/
structure Clock where
  reading : ℕ → ℕ
  mono : Monotone reading
  bound : ∀ k, reading k < 2 ^ 64

variable {J : Type} {n : ℕ}

namespace Runtime

variable (s : Runtime J n)

def setPc (w : Fin n) (pc : Pc J) : Runtime J n :=
  { s with pc := Function.update s.pc w pc }

def setActive (w : Fin n) (active : Bool) : Runtime J n :=
  { s with queues := s.queues.setWorker w { s.queues.workers w with active := active } }

/-- `scheduler(job, thread)`, called on worker `origin` or elsewhere. -/
def enqueue [NeZero n] (origin : Option (Fin n)) (job : Option J) (thread : ℤ) : Runtime J n :=
  { s with
    queues := (s.queues.enqueueTask origin ⟨s.nextId, job, thread⟩).1
    nextId := s.nextId + 1 }

def emptyAt (v : Fin n) : Prop :=
  (s.queues.workers v).unpinnedTasks = [] ∧ (s.queues.workers v).pinnedTasks = []

instance (s : Runtime J n) (v : Fin n) : Decidable (s.emptyAt v) := by
  unfold emptyAt
  infer_instance

/-- Worker `w` takes a task from queue `v` and runs it. -/
def take (w v : Fin n) (rest : WorkerQueue J) : Runtime J n :=
  { s.setPc w .running with queues := s.queues.setWorker v rest }

def takeLocal (w : Fin n) (seed : ℕ) : Runtime J n :=
  match (s.queues.workers w).takeLocal (s.queues.workers w).threadId with
  | some (_, rest) => s.take w w rest
  | none =>
    if n ≤ 1 then s.setPc w .noTask else s.setPc w (.stealing (seed % (n - 1) + 1) 0)

def steal [NeZero n] (w : Fin n) (startOffset i : ℕ) : Runtime J n :=
  let v := Queues.victim w startOffset i
  match (s.queues.workers v).steal (s.queues.workers w).threadId with
  | some (_, rest) => s.take w v rest
  | none =>
    if i + 1 < n - 1 then s.setPc w (.stealing startOffset (i + 1)) else s.setPc w .noTask

/-- The idle Fiber comes back from `stopping()` with no: it yields, or waits for events. -/
def goOn (io : Bool) (s : Runtime J n) (w : Fin n) : Runtime J n :=
  s.setPc w (if io then .polling else .top)

/-- The idle Fiber is resumed: `run` leaves its loop if it has terminated. -/
def resumeIdle (io : Bool) (s : Runtime J n) (w : Fin n) : Runtime J n :=
  if s.idleTerm w then (s.setActive w false).setPc w .left
  else s.setPc w (.scan (if io then .timers else .stopped))

/-- One access of `stopping()`; `now` is the clock reading of `getNextTimer`. -/
def scanStep (io : Bool) (s : Runtime J n) (w : Fin n) (now : ℕ) : Scan → Runtime J n
  | .timers =>
    let s' := { s with timers := (Timers.manager J).next s.timers (.getNextTimer now) }
    if (s.timers.tm.getNextTimer now).2 = noTimer then s'.setPc w (.scan .events)
    else s'.goOn io w
  | .events =>
    if s.pendingEventCnt = 0 then s.setPc w (.scan .blocking) else s.goOn io w
  | .blocking =>
    if s.pendingBlockingTasks = 0 then s.setPc w (.scan .stopped) else s.goOn io w
  | .stopped => if s.stopped then s.setPc w (.scan (.queue 0)) else s.goOn io w
  | .queue i =>
    if hi : i < n then
      if s.emptyAt ⟨i, hi⟩ then s.setPc w (.scan (.queue (i + 1))) else s.goOn io w
    else s.setPc w (.scan (.flag 0))
  | .flag i =>
    if hi : i < n then
      if (s.queues.workers ⟨i, hi⟩).active then s.goOn io w
      else s.setPc w (.scan (.flag (i + 1)))
    else { s.setPc w .top with idleTerm := Function.update s.idleTerm w true }

/-- `triggerEvent` on the `e`-th registered event, by worker `w`. -/
def trigger [NeZero n] (w : Fin n) (e : ℕ) : Runtime J n :=
  match s.events[e]? with
  | none => s
  | some (job, thread) =>
    { s.enqueue (some w) (some job) thread with events := s.events.eraseIdx e }

/-- A blocking call is over: its thread schedules the Fiber that waits for it. -/
def unblock [NeZero n] (b : ℕ) : Runtime J n :=
  match s.blocking[b]? with
  | none => s
  | some (job, thread) =>
    { s.enqueue none (some job) thread with
      blocking := s.blocking.eraseIdx b
      returning := s.returning + 1 }

/-- The next expired callback goes to the worker's own queue. -/
def pushCb [NeZero n] (w : Fin n) (cb : J) (rest : List J) : Runtime J n :=
  (s.enqueue (some w) (some cb) (-1)).setPc w (.processing rest)

/-- `listExpiredCb` with these clock readings. -/
def expire (w : Fin n) (clk : Clock) : Runtime J n :=
  let cbs := (Timers.Pass.listExpiredCb clk.reading s.timers.tm).cbs.map Prod.snd
  { s with timers := (Timers.manager J).next s.timers (.listExpiredCb clk.reading) }.setPc w
    (.processing cbs)

/-- Who may call `addTimer`: a running task, and until `stop()` any thread outside. -/
def mayAdd : Option (Fin n) → Prop
  | some w => s.pc w = .running
  | none => s.stopped = false

end Runtime

/-- One step of a worker `w`, of the blocking pool or of a thread outside. -/
inductive Step (J : Type) (n : ℕ) where
  | start (w : Fin n)
  | raise (w : Fin n)
  | takeLocal (w : Fin n) (seed : ℕ)
  | steal (w : Fin n) (startOffset i : ℕ)
  | spawn (w : Fin n) (job : Option J) (thread : ℤ)
  /-- by a running task, or from outside (`none`) -/
  | addTimer (origin : Option (Fin n)) (ms : ℕ) (cb : Option J) (recurring : Bool)
      (created inserted : ℕ)
  | cancelTimer (w : Fin n) (id : ℕ)
  | addEvent (w : Fin n) (job : J)
  | delEvent (w : Fin n) (e : ℕ)
  | cancelEvent (w : Fin n) (e : ℕ)
  | eventCancelled (w : Fin n)
  | asyncBlocking (w : Fin n) (job : J)
  | submitBlocking (w : Fin n)
  | finish (w : Fin n)
  | lower (w : Fin n)
  | resumeIdle (w : Fin n)
  | scan (w : Fin n) (stage : Scan) (now : ℕ)
  | poll (w : Fin n)
  | expire (w : Fin n) (clk : Clock)
  | pushCb (w : Fin n) (cb : J) (rest : List J)
  | trigger (w : Fin n) (e : ℕ)
  | eventDone (w : Fin n)
  | idleYield (w : Fin n)
  | unblock (b : ℕ)
  | unblocked
  | detachedDone
  | submit (job : Option J) (thread : ℤ)
  | stop

/-- `Scheduler` (`io = false`) or `IOManager` with workers on the threads `tid`.  After `stop()`
nothing is submitted from outside. -/
def runtime (J : Type) {n : ℕ} [NeZero n] (io : Bool) (tid : Fin n → ℕ) :
    Machine (Runtime J n) (Step J n) where
  init s := (∀ w, s.emptyAt w ∧
      ((s.queues.workers w).threadId = -1 ∨ (s.queues.workers w).threadId = tid w) ∧
      (s.queues.workers w).active = false ∧ s.pc w = .unstarted ∧ s.idleTerm w = false) ∧
    s.stopped = false ∧ (Timers.manager J).init s.timers ∧
    s.events = [] ∧ s.pendingEventCnt = 0 ∧ s.blocking = [] ∧ s.pendingBlockingTasks = 0 ∧
    s.returning = 0 ∧ s.detached = 0
  enabled s
    | .start w => s.pc w = .unstarted
    | .raise w => s.pc w = .top
    | .takeLocal w _ => s.pc w = .takeLocal
    | .steal w startOffset i => s.pc w = .stealing startOffset i
    | .spawn w _ _ => s.pc w = .running
    | .addTimer origin _ _ _ created inserted =>
        (io = true ∧ s.mayAdd origin) ∧
        s.timers.last ≤ created ∧ created ≤ inserted ∧ inserted < 2 ^ 64
    | .cancelTimer w id => s.pc w = .running ∧ id < s.timers.tm.allocated
    | .addEvent w _ => io = true ∧ s.pc w = .running
    | .delEvent w e => s.pc w = .running ∧ e < s.events.length
    | .cancelEvent w e => s.pc w = .running ∧ e < s.events.length
    | .eventCancelled w => s.pc w = .cancelled
    | .asyncBlocking w _ => io = true ∧ s.pc w = .running
    | .submitBlocking w => io = true ∧ s.pc w = .running
    | .finish w => s.pc w = .running
    | .lower w => s.pc w = .noTask
    | .resumeIdle w => s.pc w = .cleared
    | .scan w stage now => s.pc w = .scan stage ∧ s.timers.last ≤ now ∧ now < 2 ^ 64
    | .poll w => s.pc w = .polling
    | .expire w clk => s.pc w = .expiring ∧ s.timers.last ≤ clk.reading 0
    | .pushCb w cb rest => s.pc w = .processing (cb :: rest)
    | .trigger w e => s.pc w = .processing [] ∧ e < s.events.length
    | .eventDone w => s.pc w = .triggered
    | .idleYield w => s.pc w = .processing []
    | .unblock b => b < s.blocking.length
    | .unblocked => 0 < s.returning
    | .detachedDone => 0 < s.detached
    | .submit _ _ => s.stopped = false
    | .stop => s.stopped = false
  next s
    | .start w => ({ s with
        queues := s.queues.setWorker w { s.queues.workers w with threadId := tid w } }).setPc w .top
    | .raise w => (s.setActive w true).setPc w .takeLocal
    | .takeLocal w seed => s.takeLocal w seed
    | .steal w startOffset i => s.steal w startOffset i
    | .spawn w job thread => s.enqueue (some w) job thread
    | .addTimer _ ms cb recurring created inserted => { s with
        timers := (Timers.manager J).next s.timers (.addTimer ms cb recurring created inserted) }
    | .cancelTimer _ id => { s with timers := (Timers.manager J).next s.timers (.cancel id) }
    | .addEvent w job => { s with
        events := s.events ++ [(job, (tid w : ℤ))]
        pendingEventCnt := s.pendingEventCnt + 1 }
    | .delEvent _ e => { s with
        events := s.events.eraseIdx e
        pendingEventCnt := s.pendingEventCnt - 1 }
    | .cancelEvent w e => (s.trigger w e).setPc w .cancelled
    | .eventCancelled w => { s.setPc w .running with
        pendingEventCnt := s.pendingEventCnt - 1 }
    | .asyncBlocking w job => { s with
        blocking := s.blocking ++ [(job, (tid w : ℤ))]
        pendingBlockingTasks := s.pendingBlockingTasks + 1 }
    | .submitBlocking _ => { s with detached := s.detached + 1 }
    | .finish w => s.setPc w .top
    | .lower w => (s.setActive w false).setPc w .cleared
    | .resumeIdle w => s.resumeIdle io w
    | .scan w stage now => s.scanStep io w now stage
    | .poll w => (s.setActive w true).setPc w .expiring
    | .expire w clk => s.expire w clk
    | .pushCb w cb rest => s.pushCb w cb rest
    | .trigger w e => (s.trigger w e).setPc w .triggered
    | .eventDone w => { s.setPc w (.processing []) with
        pendingEventCnt := s.pendingEventCnt - 1 }
    | .idleYield w => (s.setActive w false).setPc w .top
    | .unblock b => s.unblock b
    | .unblocked => { s with
        pendingBlockingTasks := s.pendingBlockingTasks - 1
        returning := s.returning - 1 }
    | .detachedDone => { s with detached := s.detached - 1 }
    | .submit job thread => s.enqueue none job thread
    | .stop => { s with stopped := true }

instance (s : Runtime J n) (origin : Option (Fin n)) [DecidableEq J] :
    Decidable (s.mayAdd origin) := by
  rcases origin <;> (dsimp only [Runtime.mayAdd]; infer_instance)

instance [NeZero n] [DecidableEq J] (io : Bool) (tid : Fin n → ℕ) (s : Runtime J n)
    (a : Step J n) : Decidable ((runtime J io tid).enabled s a) := by
  rcases a <;> (dsimp only [runtime]; infer_instance)

/-- A scheduler just constructed, at clock reading 0. -/
def Runtime.fresh (J : Type) (n : ℕ) : Runtime J n where
  queues := ⟨fun _ => ⟨[], [], -1, false⟩, 0⟩
  stopped := false
  pc := fun _ => .unstarted
  idleTerm := fun _ => false
  timers := ⟨.create 0, 0⟩
  events := []
  pendingEventCnt := 0
  blocking := []
  pendingBlockingTasks := 0
  returning := 0
  detached := 0
  nextId := 0

theorem Runtime.fresh_init [NeZero n] (io : Bool) (tid : Fin n → ℕ) :
    (runtime J io tid).init (.fresh J n) :=
  ⟨fun _ => ⟨⟨rfl, rfl⟩, .inl rfl, rfl, rfl, rfl⟩, rfl, rfl, rfl, rfl, rfl, rfl, rfl, rfl⟩

end PulsarRuntime.Scheduler
