import PulsarRuntime.Blocking.Pool

/-!
# Blocking calls of Fibers

`IOManager::asyncBlocking(f)` counts the call in `pendingBlockingTasks_`, submits a task to the
blocking pool and yields.  The task runs `f`, stores what it did in the `State` of the call,
schedules the Fiber on the thread the call was made on, and counts the call down; the Fiber, once
resumed, rethrows or sets `errno` and returns.  A task may be over before its Fiber has come to
yield: then the Fiber is already scheduled while it still runs.

Here any number of Fibers make any number of calls on any number of threads, with the pool's own
steps and tasks submitted by others in between.  A thread runs one Fiber at a time, and looks for
the next one when that one yields or ends (`off`: a Fiber that waits for something else, has not
started or has ended).  A call without a Fiber runs `f` in place and has no step here.
-/

namespace PulsarRuntime.Blocking

/-- What `f` does: it returns and leaves `errno` behind, or throws. -/
inductive Outcome (ρ ε : Type) where
  | value (result : ρ) (errno : ℤ)
  | thrown (ex : ε)
  deriving DecidableEq

/-- The `State` that a call shares with its task. -/
structure Slot (ρ ε : Type) where
  result : ρ
  savedErrno : ℤ
  ex : Option ε
  deriving DecidableEq

namespace Slot

variable {ρ ε : Type}

def fresh [Inhabited ρ] : Slot ρ ε := ⟨default, 0, none⟩

/-- The `try` block of the task. -/
def store (s : Slot ρ ε) : Outcome ρ ε → Slot ρ ε
  | .value result errno => { s with result := result, savedErrno := errno }
  | .thrown ex => { s with ex := some ex }

/-- What the call does once its Fiber has been resumed. -/
def deliver (s : Slot ρ ε) : Outcome ρ ε :=
  match s.ex with
  | some ex => .thrown ex
  | none => .value s.result s.savedErrno

theorem deliver_store [Inhabited ρ] (o : Outcome ρ ε) : (fresh.store o).deliver = o := by
  cases o <;> rfl

end Slot

/-- A task of the pool. -/
inductive Task where
  | call (k : ℕ)
  /-- given to `submitBlocking` by someone else -/
  | plain (j : ℕ)
  deriving DecidableEq

/-- How far the Fiber of a call is. -/
inductive CallPc where
  | counted
  /-- the task is pushed, the notification comes next -/
  | pushed
  /-- about to yield -/
  | submitted
  | parked
  | returned
  deriving DecidableEq

/-- How far a thread of the pool is in the task of a call. -/
inductive BodyPc where
  | start
  | stored
  | scheduled
  | done
  deriving DecidableEq

structure Call (ρ ε : Type) where
  fiber : ℕ
  /-- `thread_id` -/
  thread : ℕ
  pc : CallPc
  slot : Slot ρ ε
  /-- what `f` did, each time a task has run it -/
  ran : List (Outcome ρ ε)
  /-- how often the Fiber has been scheduled, and the call counted down, by a task -/
  handed : ℕ
  downs : ℕ
  result : Option (Outcome ρ ε)

/-- The Fiber is on its thread, inside the call. -/
def CallPc.onThread : CallPc → Bool
  | counted | pushed | submitted => true
  | _ => false

/-- Where a Fiber is. -/
inductive Place where
  | off
  | running (thread : ℕ)
  | calling (k : ℕ)
  deriving DecidableEq

structure Async (ρ ε : Type) (threads : ℕ) where
  pool : BlockingThreadPool threads Task
  body : Fin (threadCount threads) → BodyPc
  pendingBlockingTasks : ℕ
  calls : ℕ → Call ρ ε
  count : ℕ
  place : ℕ → Place
  /-- the Fiber a thread runs -/
  current : ℕ → Option ℕ
  /-- Fibers scheduled by tasks and not yet taken, with the thread they are pinned to -/
  scheduled : List (ℕ × ℕ)
  /-- a Fiber that was not `READY` has been taken from a queue -/
  panicked : Bool

variable {ρ ε : Type} {threads : ℕ}

namespace Async

variable (s : Async ρ ε threads)

def setCall (k : ℕ) (c : Call ρ ε) : Async ρ ε threads :=
  { s with calls := Function.update s.calls k c }

def setPc (k : ℕ) (pc : CallPc) : Async ρ ε threads := s.setCall k { s.calls k with pc := pc }

/-- A thread starts or resumes a Fiber for another reason. -/
def enter (φ t : ℕ) : Async ρ ε threads :=
  { s with
    place := Function.update s.place φ (.running t)
    current := Function.update s.current t (some φ) }

def leave (φ t : ℕ) : Async ρ ε threads :=
  { s with
    place := Function.update s.place φ .off
    current := Function.update s.current t none }

/-- `asyncBlocking`, up to `pendingBlockingTasks_++`. -/
def call [Inhabited ρ] (φ t : ℕ) : Async ρ ε threads :=
  { s.setCall s.count ⟨φ, t, .counted, .fresh, [], 0, 0, none⟩ with
    pendingBlockingTasks := s.pendingBlockingTasks + 1
    count := s.count + 1
    place := Function.update s.place φ (.calling s.count) }

/-- The critical section of `submit`; a stopped pool takes nothing and notifies nobody. -/
def submit (k : ℕ) : Async ρ ε threads :=
  { s.setPc k (if s.pool.stopped then .submitted else .pushed) with
    pool := s.pool.submit (.call k) }

def notify (k : ℕ) (w : Option (Fin (threadCount threads))) : Async ρ ε threads :=
  { s.setPc k .submitted with
    pool := (blockingThreadPool threads Task).next s.pool (.notify (.call k) w) }

def yield (k : ℕ) : Async ρ ε threads :=
  { s.setPc k .parked with current := Function.update s.current (s.calls k).thread none }

/-- A thread takes a scheduled Fiber and resumes it if it is `READY`; the call returns or throws. -/
def resume (φ t : ℕ) : Async ρ ε threads :=
  let s := { s with scheduled := s.scheduled.erase (φ, t) }
  match s.place φ with
  | .calling k =>
    if (s.calls k).pc = .parked then
      { s.setCall k { s.calls k with
          pc := .returned
          result := some (s.calls k).slot.deliver } with
        place := Function.update s.place φ (.running t)
        current := Function.update s.current t (some φ) }
    else { s with panicked := true }
  | _ => { s with panicked := true }

/-- A thread of the pool runs `f` and stores what it did. -/
def run (w : Fin (threadCount threads)) (k : ℕ) (o : Outcome ρ ε) : Async ρ ε threads :=
  { s.setCall k { s.calls k with
      slot := (s.calls k).slot.store o
      ran := (s.calls k).ran ++ [o] } with
    body := Function.update s.body w .stored }

/-- `this->scheduler(cur, thread_id)` -/
def schedule (w : Fin (threadCount threads)) (k : ℕ) : Async ρ ε threads :=
  { s.setCall k { s.calls k with handed := (s.calls k).handed + 1 } with
    body := Function.update s.body w .scheduled
    scheduled := s.scheduled ++ [((s.calls k).fiber, (s.calls k).thread)] }

/-- `this->pendingBlockingTasks_--` -/
def countDown (w : Fin (threadCount threads)) (k : ℕ) : Async ρ ε threads :=
  { s.setCall k { s.calls k with downs := (s.calls k).downs + 1 } with
    body := Function.update s.body w .done
    pendingBlockingTasks := s.pendingBlockingTasks - 1 }

/-- A step of the pool; a thread that takes a task is at its start. -/
def pooled (a : WorkerPool.Move (Fin (threadCount threads)) Task) : Async ρ ε threads :=
  { s with
    pool := (blockingThreadPool threads Task).next s.pool a
    body := match a with
      | .acquire w => Function.update s.body w .start
      | _ => s.body }

/-- The pool's steps that are not part of a call: submissions of other tasks, and a task ends only
where its body does. -/
def Pooled : WorkerPool.Move (Fin (threadCount threads)) Task → Prop
  | .submit (.call _) _ | .notify (.call _) _ => False
  | .finish w (.call _) => s.body w = .done
  | _ => True

end Async

inductive Act (ρ ε : Type) (threads : ℕ) where
  | enter (φ t : ℕ)
  | leave (φ t : ℕ)
  | call (φ t : ℕ)
  | submit (k : ℕ)
  | notify (k : ℕ) (w : Option (Fin (threadCount threads)))
  | yield (k : ℕ)
  | resume (φ t : ℕ)
  | run (w : Fin (threadCount threads)) (k : ℕ) (o : Outcome ρ ε)
  | schedule (w : Fin (threadCount threads)) (k : ℕ)
  | countDown (w : Fin (threadCount threads)) (k : ℕ)
  | pool (a : WorkerPool.Move (Fin (threadCount threads)) Task)

/-- Every interleaving of Fibers, threads and the pool. -/
def async (ρ ε : Type) [Inhabited ρ] (threads : ℕ) :
    Machine (Async ρ ε threads) (Act ρ ε threads) where
  init s := (blockingThreadPool threads Task).init s.pool ∧ s.pendingBlockingTasks = 0 ∧
    s.count = 0 ∧ (∀ φ, s.place φ = .off) ∧ (∀ t, s.current t = none) ∧ s.scheduled = [] ∧
    s.panicked = false
  enabled s
    | .enter φ t => s.place φ = .off ∧ s.current t = none
    | .leave φ t => s.place φ = .running t
    | .call φ t => s.place φ = .running t
    | .submit k => k < s.count ∧ (s.calls k).pc = .counted
    | .notify k w => (k < s.count ∧ (s.calls k).pc = .pushed) ∧
        (blockingThreadPool threads Task).enabled s.pool (.notify (.call k) w)
    | .yield k => k < s.count ∧ (s.calls k).pc = .submitted
    | .resume φ t => (φ, t) ∈ s.scheduled ∧ s.current t = none
    | .run w k _ => s.pool.phase w = .running (.call k) ∧ s.body w = .start
    | .schedule w k => s.pool.phase w = .running (.call k) ∧ s.body w = .stored
    | .countDown w k => s.pool.phase w = .running (.call k) ∧ s.body w = .scheduled
    | .pool a => s.Pooled a ∧ (blockingThreadPool threads Task).enabled s.pool a
  next s
    | .enter φ t => s.enter φ t
    | .leave φ t => s.leave φ t
    | .call φ t => s.call φ t
    | .submit k => s.submit k
    | .notify k w => s.notify k w
    | .yield k => s.yield k
    | .resume φ t => s.resume φ t
    | .run w k o => s.run w k o
    | .schedule w k => s.schedule w k
    | .countDown w k => s.countDown w k
    | .pool a => s.pooled a

/-- The destructor of `IOManager` stops the pool when the workers have left, which they do with no
call counted, and no call is made after that. -/
def Destroyed (s : Async ρ ε threads) : Act ρ ε threads → Prop
  | .call _ _ => s.pool.stopped = false
  | .pool .stop => s.pendingBlockingTasks = 0
  | _ => True

instance decidablePooled (s : Async ρ ε threads)
    (a : WorkerPool.Move (Fin (threadCount threads)) Task) : Decidable (s.Pooled a) := by
  unfold Async.Pooled
  split <;> infer_instance

instance decidableAct [Inhabited ρ] (s : Async ρ ε threads) (a : Act ρ ε threads) :
    Decidable ((async ρ ε threads).enabled s a) := by
  rcases a <;> (dsimp only [async]; infer_instance)

instance decidableDestroyed (s : Async ρ ε threads) (a : Act ρ ε threads) :
    Decidable (Destroyed s a) := by
  unfold Destroyed
  split <;> infer_instance

/-- No Fiber has started. -/
def Async.create (ρ ε : Type) [Inhabited ρ] (threads : ℕ) : Async ρ ε threads where
  pool := .create threads Task
  body := fun _ => .start
  pendingBlockingTasks := 0
  calls := fun _ => ⟨0, 0, .returned, .fresh, [], 0, 0, none⟩
  count := 0
  place := fun _ => .off
  current := fun _ => none
  scheduled := []
  panicked := false

theorem Async.create_reach (ρ ε : Type) [Inhabited ρ] (threads : ℕ) :
    (async ρ ε threads).ReachVia Destroyed (Async.create ρ ε threads) :=
  .start ⟨⟨rfl, rfl, fun _ => rfl, rfl, rfl, rfl, rfl, rfl, rfl⟩, rfl, rfl, fun _ => rfl,
    fun _ => rfl, rfl, rfl⟩

end PulsarRuntime.Blocking
