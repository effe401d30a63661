import PulsarRuntime.Lib.Machine
import PulsarRuntime.Stack.Model

/-!
# Fibers

A Fiber owns a stack, which it acquires in its constructor and releases in its destructor, and a
handle of Boost.Context for the code that is suspended on that stack.  `resume` switches to it,
`yield` and the end of the entry function switch back.  A handle is used up by the switch, and the
one that a switch returns says what is suspended then: nothing, if the entry function has ended.

The first part are the member functions as functions of one Fiber, up to a switch or behind it.
The second part is what they share: the counters, the variables of each thread, and the stacks
that the allocators have handed out.  A step goes from one switch to the next.

A handle is there or not; `callerContext` is the `resume` call that has switched to the Fiber,
which is the topmost entry of `nest`.  A failed `CondPanic` ends the process.
-/

namespace PulsarRuntime.Fibers

/-- `Fiber::State`. -/
inductive FiberState where
  | ready
  | running
  | term
  deriving DecidableEq

/-- What a handle goes on with. -/
inductive Context where
  /-- the entry function -/
  | entry
  /-- a `yield` -/
  | suspended
  deriving DecidableEq

/-- Why a call does not return. -/
inductive Failure where
  | panic (err : String)
  | logicError (what : String)
  | badAlloc
  /-- whatever the allocator or a callback throws -/
  | thrown (e : ℕ)
  deriving DecidableEq

/-- How a callback ends. -/
inductive Exit where
  | returned
  | threw (e : ℕ)
  deriving DecidableEq

/-- A block of an allocator, with the number of the acquisition. -/
structure Lease where
  ticket : ℕ
  block : Stack.FiberStackBlock
  deriving DecidableEq

structure Fiber where
  stackSize : ℕ
  state : FiberState
  context : Option Context
  callerContext : Bool
  stackAllocator : Option ℕ
  stackBlock : Option Lease
  cb : Option ℕ
  exception : Option ℕ
  resumeInProgress : Bool
  isRunInScheduler : Bool
  isMainFiber : Bool
  isSchedulerCallback : Bool
  schedulerOwnerId : ℕ
  schedulerOriginWorker : ℕ
  /-- constructed and not destroyed -/
  live : Bool
  deriving DecidableEq

namespace Fiber

/-- `g_fiber_stack_size`. -/
def gFiberStackSize : ℕ := 128 * 1024

/-- An object as its initialisers leave it. -/
def raw (cb : Option ℕ) (stackAllocator : Option ℕ) (runInScheduler : Bool) : Fiber where
  stackSize := 0
  state := .ready
  context := none
  callerContext := false
  stackAllocator := stackAllocator
  stackBlock := none
  cb := cb
  exception := none
  resumeInProgress := false
  isRunInScheduler := runInScheduler
  isMainFiber := false
  isSchedulerCallback := false
  schedulerOwnerId := 0
  schedulerOriginWorker := Stack.sizeMax
  live := false

/-- What the constructor without arguments makes. -/
def main : Fiber :=
  { raw none none false with state := .running, isMainFiber := true, live := true }

variable (x : Fiber)

/-- `error` is what `beforeContextCreate` throws. -/
def createContext (error : Option ℕ) : Except Failure Context :=
  match error with
  | some e => .error (.thrown e)
  | none =>
    match x.stackBlock with
    | none => .error (.panic "fiber stack block is empty")
    | some _ => .ok .entry

/-- `resume` up to its switch, `yield` or the entry function behind it. -/
def resume : Except Failure Fiber :=
  if x.resumeInProgress then .error (.logicError "fiber is already being resumed")
  else if x.state = .term ∨ x.state = .running then .error (.panic "state error")
  else if x.context = none then .error (.panic "fiber context is empty")
  else .ok { x with
    resumeInProgress := true
    state := .running
    context := none
    callerContext := true }

/-- `yield` up to its switch. -/
def yield : Except Failure Fiber :=
  if x.state ≠ .running then .error (.panic "state error")
  else if x.callerContext = false then .error (.panic "caller context is empty")
  else .ok { x with state := .ready, callerContext := false }

/-- `MainFunc` behind the callback, and the end of the entry function. -/
def mainFunc (exit : Exit) : Fiber :=
  { x with
    exception := match exit with
      | .returned => x.exception
      | .threw e => some e
    cb := none
    state := .term
    callerContext := false }

/-- `resume` behind its switch, and what it throws. -/
def resumed (context : Option Context) : Fiber × Option ℕ :=
  let x := { x with context := context, resumeInProgress := false }
  if x.state = .term then ({ x with exception := none }, x.exception) else (x, none)

def reset (cb : ℕ) (error : Option ℕ) : Except Failure Fiber :=
  if x.isMainFiber then .error (.panic "main fiber cannot be reset")
  else if x.state ≠ .term then .error (.panic "state isn't TERM")
  else if x.context ≠ none then .error (.panic "terminated fiber context should be empty")
  else
    match x.createContext error with
    | .error e => .error e
    | .ok newContext =>
      .ok { x with cb := some cb, exception := none, context := some newContext, state := .ready }

def markSchedulerCallback (schedulerOwnerId originWorker : ℕ) : Fiber :=
  { x with
    isSchedulerCallback := true
    schedulerOwnerId := schedulerOwnerId
    schedulerOriginWorker := originWorker }

def isReusableSchedulerCallback (schedulerOwnerId originWorker : ℕ) : Bool :=
  x.isSchedulerCallback && x.schedulerOwnerId == schedulerOwnerId &&
    x.schedulerOriginWorker == originWorker && !x.isMainFiber && x.state == .term &&
    x.context.isNone && !x.callerContext

end Fiber

/-! ### The process -/

/-- The variables of a thread. -/
structure Thread where
  curFiber : Option ℕ
  curThreadFiber : Option ℕ
  /-- `Scheduler::GetMainFiber()` -/
  curSchedulerFiber : Option ℕ
  /-- the Fibers with a `resume` in progress here, and its `caller`, the innermost first -/
  nest : List (ℕ × ℕ)
  deriving DecidableEq

/-- A block that an allocator has handed out. -/
structure Acquisition where
  allocator : ℕ
  block : Stack.FiberStackBlock

structure Process where
  curFiberId : ℕ
  fiberCount : ℤ
  fibers : ℕ → Fiber
  threads : ℕ → Thread
  /-- calls of `acquire` -/
  acquireRequests : ℕ
  acquisitions : ℕ → Acquisition
  acquired : ℕ
  /-- calls of `release` for an acquisition -/
  releases : ℕ → ℕ
  panicked : Bool

/-- The arguments of the constructor, and what the allocator does. -/
structure Construction where
  cb : ℕ
  stackSize : ℕ
  runInScheduler : Bool
  /-- `none` for the default allocator, which is number 0 -/
  stackAllocator : Option ℕ
  /-- what `acquire` throws or returns -/
  acquire : Except ℕ Stack.FiberStackBlock
  /-- what `beforeContextCreate` throws -/
  error : Option ℕ

namespace Construction

variable (c : Construction)

def requestedStackSize : ℕ := if 0 < c.stackSize then c.stackSize else Fiber.gFiberStackSize

def allocator : ℕ := c.stackAllocator.getD 0

/-- The object before the constructor body. -/
def object : Fiber := .raw (some c.cb) (some c.allocator) c.runInScheduler

/-- The constructor behind `acquire`. -/
def build (stackBlock : Lease) : Except Failure Fiber :=
  if stackBlock.block.stackBase = 0 ∨ stackBlock.block.usableSize < c.requestedStackSize then
    .error .badAlloc
  else
    let x := { c.object with
      stackBlock := some stackBlock
      stackSize := stackBlock.block.usableSize }
    match x.createContext c.error with
    | .error e => .error e
    | .ok context => .ok { x with context := some context, live := true }

end Construction

namespace Process

variable (p : Process)

def setFiber (f : ℕ) (x : Fiber) : Process := { p with fibers := Function.update p.fibers f x }

def setThread (t : ℕ) (x : Thread) : Process := { p with threads := Function.update p.threads t x }

/-- Only a panic is the end. -/
def fail : Failure → Process
  | .panic _ => { p with panicked := true }
  | _ => p

/-- `release` of an allocator. -/
def release (ticket : ℕ) : Process :=
  { p with releases := Function.update p.releases ticket (p.releases ticket + 1) }

/-- A new Fiber object. -/
def allot (x : Fiber) : Process :=
  { p with curFiberId := p.curFiberId + 1, fibers := Function.update p.fibers p.curFiberId x }

/-- An allocator hands out a block. -/
def lend (allocator : ℕ) (block : Stack.FiberStackBlock) : Process :=
  { p with
    acquisitions := Function.update p.acquisitions p.acquired ⟨allocator, block⟩
    releases := Function.update p.releases p.acquired 0
    acquired := p.acquired + 1 }

/-- The members are initialised, and `acquire` is called. -/
def start (c : Construction) : Process :=
  { p.allot c.object with acquireRequests := p.acquireRequests + 1 }

/-- The constructor. -/
def construct (c : Construction) : Except Failure ℕ × Process :=
  let id := p.curFiberId
  let p := p.start c
  match c.acquire with
  | .error e => (.error (.thrown e), p)
  | .ok block =>
    if block.allocation = 0 then (.error .badAlloc, p)
    else
      let ticket := p.acquired
      let p := p.lend c.allocator block
      match c.build ⟨ticket, block⟩ with
      | .error e => (.error e, p.release ticket)
      | .ok x => (.ok id, { p.setFiber id x with fiberCount := p.fiberCount + 1 })

/-- `GetThis`. -/
def getThis (t : ℕ) : Process :=
  match (p.threads t).curFiber with
  | some _ => p
  | none =>
    { (p.allot Fiber.main).setThread t { p.threads t with
        curFiber := some p.curFiberId
        curThreadFiber := some p.curFiberId } with
      fiberCount := p.fiberCount + 1 }

/-- Thread `t` resumes Fiber `f`. -/
def resume (t f : ℕ) : Process :=
  match (p.fibers f).resume with
  | .error e => p.fail e
  | .ok x =>
    match (p.threads t).curFiber with
    | none => p.fail (.panic "caller fiber is nullptr")
    | some caller =>
      (p.setFiber f x).setThread t { p.threads t with
        curFiber := some f
        nest := (f, caller) :: (p.threads t).nest }

/-- The Fiber that a switch back is meant for. -/
def returnFiber (t f : ℕ) : Option ℕ :=
  if (p.fibers f).isRunInScheduler then (p.threads t).curSchedulerFiber
  else (p.threads t).curThreadFiber

/-- The switch from Fiber `f` back to the `resume` call that has switched to it; `x` is the Fiber
behind that call. -/
def switchBack (t f caller : ℕ) (rest : List (ℕ × ℕ)) (x : Fiber) : Process :=
  match p.returnFiber t f with
  | none => p.fail (.panic "return fiber is nullptr")
  | some _ =>
    (p.setFiber f x).setThread t { p.threads t with curFiber := some caller, nest := rest }

/-- The Fiber that runs on thread `t` yields. -/
def yield (t : ℕ) : Process :=
  match (p.threads t).nest with
  | [] => p
  | (f, caller) :: rest =>
    match (p.fibers f).yield with
    | .error e => p.fail e
    | .ok x => p.switchBack t f caller rest (x.resumed (some .suspended)).1

/-- The callback of the Fiber that runs on thread `t` ends. -/
def finish (t : ℕ) (exit : Exit) : Process :=
  match (p.threads t).nest with
  | [] => p
  | (f, caller) :: rest =>
    p.switchBack t f caller rest (((p.fibers f).mainFunc exit).resumed none).1

def reset (f cb : ℕ) (error : Option ℕ) : Except Failure Unit × Process :=
  match (p.fibers f).reset cb error with
  | .error e => (.error e, p.fail e)
  | .ok x => (.ok (), p.setFiber f x)

/-- `ReleaseStack`. -/
def releaseStack (f : ℕ) : Process :=
  let x := { p.fibers f with stackBlock := none, stackAllocator := none, stackSize := 0 }
  match (p.fibers f).stackBlock with
  | none => p.setFiber f x
  | some lease =>
    if (p.fibers f).stackAllocator = none then
      p.fail (.panic "fiber stack allocator is nullptr")
    else (p.release lease.ticket).setFiber f x

/-- The memory of the object is given back. -/
def free (f : ℕ) : Process := p.setFiber f { p.fibers f with live := false }

/-- The destructor, on thread `t`. -/
def destroy (t f : ℕ) : Process :=
  let x := p.fibers f
  let p := { p with fiberCount := p.fiberCount - 1 }
  if x.isMainFiber = false then
    if x.state ≠ .term then p.fail (.panic "fiber state should be term")
    else (p.releaseStack f).free f
  else if x.cb ≠ none then p.fail (.panic "main fiber no callback")
  else if x.state ≠ .running then p.fail (.panic "main fiber state should be running")
  else if (p.threads t).curFiber = some f then
    (p.free f).setThread t { p.threads t with curFiber := none }
  else p.free f

end Process

/-- Steps; `exit` and `setSchedulerFiber` are what the rest of the program does with a thread. -/
inductive Process.Action where
  | getThis (t : ℕ)
  | construct (c : Construction)
  | resume (t f : ℕ)
  | yield (t : ℕ)
  | finish (t : ℕ) (exit : Exit)
  | reset (f cb : ℕ) (error : Option ℕ)
  | destroy (t f : ℕ)
  | setSchedulerFiber (t : ℕ) (f : Option ℕ)
  /-- the thread ends and lets go of its main Fiber -/
  | exit (t : ℕ)

/-- A Fiber is destroyed only when it has terminated, and the main Fiber of a thread when the
thread has let go of it.  Whoever calls `resume` keeps the Fiber until the call returns. -/
def process : Machine Process Process.Action where
  init p := p.curFiberId = 0 ∧ p.fiberCount = 0 ∧ (∀ t, p.threads t = ⟨none, none, none, []⟩) ∧
    p.acquired = 0 ∧ p.panicked = false
  enabled p
    | .getThis _ | .construct _ | .setSchedulerFiber _ _ => p.panicked = false
    | .resume _ f | .reset f _ _ =>
      p.panicked = false ∧ f < p.curFiberId ∧ (p.fibers f).live = true
    | .yield t | .finish t _ => p.panicked = false ∧ (p.threads t).nest ≠ []
    | .destroy t f => p.panicked = false ∧ f < p.curFiberId ∧ (p.fibers f).live = true ∧
        if (p.fibers f).isMainFiber then (p.threads t).curThreadFiber ≠ some f
        else (p.fibers f).state = .term
    | .exit t => p.panicked = false ∧ (p.threads t).nest = []
  next p
    | .getThis t => p.getThis t
    | .construct c => (p.construct c).2
    | .resume t f => p.resume t f
    | .yield t => p.yield t
    | .finish t exit => p.finish t exit
    | .reset f cb error => (p.reset f cb error).2
    | .destroy t f => p.destroy t f
    | .setSchedulerFiber t f => p.setThread t { p.threads t with curSchedulerFiber := f }
    | .exit t => p.setThread t { p.threads t with curThreadFiber := none }

instance (p : Process) (a : Process.Action) : Decidable (process.enabled p a) := by
  rcases a <;> (dsimp only [process]; infer_instance)

/-- No Fiber has been made yet. -/
def Process.initial : Process where
  curFiberId := 0
  fiberCount := 0
  fibers := fun _ => .raw none none false
  threads := fun _ => ⟨none, none, none, []⟩
  acquireRequests := 0
  acquisitions := fun _ => ⟨0, .empty⟩
  acquired := 0
  releases := fun _ => 0
  panicked := false

theorem process_init_initial : process.init .initial :=
  ⟨rfl, rfl, fun _ => rfl, rfl, rfl⟩

end PulsarRuntime.Fibers
