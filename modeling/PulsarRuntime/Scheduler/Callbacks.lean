import Mathlib.Algebra.BigOperators.Ring.Finset
import PulsarRuntime.Fiber.Model

/-!
# The Fibers that run callbacks

A worker runs a callback on a Fiber from its own cache, or on a new one.  When the Fiber has
terminated and nobody else refers to it, the worker puts it into its cache.  The cache of a worker
is a vector that only the worker uses, the last element first here; the counters of what is cached
are shared.

A step is an access to a counter together with what the worker has done since the last one, or
what a Fiber does between two switches.  `external` counts the `shared_ptr`s that are neither in a
cache nor in a variable of `run`: those of tasks in the queues, of wait sources and of user code.
A Fiber that has been started has one more on its own stack, in `MainFunc`.  `origin` is the worker
whose `acquireCallbackFiber` has made the Fiber.
-/

namespace PulsarRuntime.Scheduler.Callbacks

open Fibers
open Finset (range)

/-- Where `run` is. -/
inductive Pc where
  /-- before `tryTakeTask` -/
  | top
  /-- has taken Fiber `f` out of the cache -/
  | popped (f cb : ℕ)
  /-- has counted `f` out -/
  | uncounted (f cb : ℕ)
  /-- before `fiber->reset` -/
  | resetting (f cb : ℕ)
  /-- before `new Fiber` -/
  | creating (cb : ℕ)
  /-- before `resume` -/
  | acquired (f : ℕ)
  /-- in `resume` -/
  | running (f : ℕ)
  /-- before `tryCacheCallbackFiber` -/
  | returned (f : ℕ)
  /-- has put a Fiber with a stack of so many bytes into the cache -/
  | pushed (bytes : ℕ)
  /-- has counted it in -/
  | counted (bytes : ℕ)
  | exited
  deriving DecidableEq

/-- The Fiber in a variable of `run`. -/
def Pc.fiber : Pc → Option ℕ
  | .popped f _ | .uncounted f _ | .resetting f _ | .acquired f | .running f | .returned f => some f
  | _ => none

structure Worker where
  pc : Pc
  callbackFiberCache : List ℕ
  deriving DecidableEq

/-- The references of a worker to Fiber `f`. -/
def Worker.refs (f : ℕ) (x : Worker) : ℤ :=
  (if x.pc.fiber = some f then 1 else 0) + x.callbackFiberCache.count f

structure State where
  schedulerOwnerId : ℕ
  callbackFiberCachePerWorker : ℕ
  stackAllocator : ℕ
  workerCount : ℕ
  workers : ℕ → Worker
  fibers : ℕ → Fiber
  fiberCount : ℕ
  external : ℕ → ℕ
  origin : ℕ → Option ℕ
  callbackCacheHits : ℕ
  callbackCacheMisses : ℕ
  callbackCacheEvictions : ℕ
  callbackCachedCount : ℤ
  callbackCachedBytes : ℤ
  stopped : Bool
  panicked : Bool

/-- What can be done to a Fiber, each from one switch to the next. -/
inductive Op where
  | resume
  | yield
  | finish (exit : Exit)
  | reset (cb : ℕ) (error : Option ℕ)
  deriving DecidableEq

def Op.apply (x : Fiber) : Op → Except Failure Fiber
  | .resume => x.resume
  | .yield =>
    match x.yield with
    | .error e => .error e
    | .ok y => .ok (y.resumed (some .suspended)).1
  | .finish exit => .ok ((x.mainFunc exit).resumed none).1
  | .reset cb error => x.reset cb error

/-- The reference of a Fiber that has been started to itself. -/
def selfRef (x : Fiber) : ℤ :=
  if x.isMainFiber = false ∧ (x.state = .running ∨ x.context = some .suspended) then 1 else 0

/-- `fiber->stackBlock_.allocationSize`. -/
def stackBytes (x : Fiber) : ℕ :=
  match x.stackBlock with
  | some lease => lease.block.allocationSize
  | none => 0

namespace State

variable (s : State)

/-- `fiber.use_count()`. -/
def useCount (f : ℕ) : ℤ :=
  s.external f + selfRef (s.fibers f) + ∑ w ∈ range s.workerCount, (s.workers w).refs f

def setWorker (w : ℕ) (x : Worker) : State := { s with workers := Function.update s.workers w x }

def setPc (w : ℕ) (pc : Pc) : State := s.setWorker w { s.workers w with pc := pc }

def setFiber (f : ℕ) (x : Fiber) : State := { s with fibers := Function.update s.fibers f x }

def fail : Failure → State
  | .panic _ => { s with panicked := true }
  | _ => s

/-! ### `run` -/

/-- A reference moves into a variable of `run`. -/
def hold (w f : ℕ) : State :=
  { s.setPc w (.acquired f) with
    external := Function.update s.external f (s.external f - 1) }

/-- A task with a Fiber. -/
def takeFiber (w f : ℕ) : State :=
  if (s.fibers f).state = .ready then s.hold w f
  else s.fail (.panic "fiber task state error")

/-- A task with a callback: `acquireCallbackFiber` up to its second counter. -/
def takeCallback (w cb : ℕ) : State :=
  match (s.workers w).callbackFiberCache with
  | f :: cache =>
    { s.setWorker w ⟨.popped f cb, cache⟩ with callbackCacheHits := s.callbackCacheHits + 1 }
  | [] =>
    { s.setPc w (.creating cb) with callbackCacheMisses := s.callbackCacheMisses + 1 }

def subCount (w f cb : ℕ) : State :=
  { s.setPc w (.uncounted f cb) with callbackCachedCount := s.callbackCachedCount - 1 }

def subBytes (w f cb : ℕ) : State :=
  { s.setPc w (.resetting f cb) with
    callbackCachedBytes := s.callbackCachedBytes - stackBytes (s.fibers f) }

/-- If `reset` throws, the Fiber and the callback are dropped. -/
def reset (w f cb : ℕ) (error : Option ℕ) : State :=
  match (s.fibers f).reset cb error with
  | .error e => (s.setPc w .top).fail e
  | .ok x => (s.setFiber f x).setPc w (.acquired f)

/-- A new object, and who refers to it. -/
def allot (x : Fiber) (external : ℕ) (origin : Option ℕ) : State :=
  { s with
    fibers := Function.update s.fibers s.fiberCount x
    external := Function.update s.external s.fiberCount external
    origin := Function.update s.origin s.fiberCount origin
    fiberCount := s.fiberCount + 1 }

/-- The arguments of `new Fiber` in `acquireCallbackFiber`. -/
def construction (cb : ℕ) (acquire : Except ℕ Stack.FiberStackBlock) (error : Option ℕ) :
    Construction :=
  ⟨cb, 0, true, some s.stackAllocator, acquire, error⟩

/-- `new Fiber` and `MarkSchedulerCallback`; if the constructor throws, the callback is dropped. -/
def create (w cb : ℕ) (acquire : Except ℕ Stack.FiberStackBlock) (error : Option ℕ) : State :=
  match acquire with
  | .error _ => s.setPc w .top
  | .ok block =>
    if block.allocation = 0 then s.setPc w .top
    else
      match (s.construction cb acquire error).build ⟨s.fiberCount, block⟩ with
      | .error _ => s.setPc w .top
      | .ok x =>
        (s.allot (x.markSchedulerCallback s.schedulerOwnerId w) 0 (some w)).setPc w
          (.acquired s.fiberCount)

/-- What `resume` throws is caught. -/
def resume (w f : ℕ) : State :=
  match (s.fibers f).resume with
  | .error e => (s.setPc w (.returned f)).fail e
  | .ok x => (s.setFiber f x).setPc w (.running f)

/-- The Fiber that the worker runs switches back to `run`. -/
def switchBack (w f : ℕ) (op : Op) : State :=
  match op.apply (s.fibers f) with
  | .error e => s.fail e
  | .ok x => (s.setFiber f x).setPc w (.returned f)

/-- `tryCacheCallbackFiber` up to its first counter; `full` says that `push_back` throws. -/
def tryCache (w f : ℕ) (full : Bool) : State :=
  if s.useCount f ≠ 1 ∨
      (s.fibers f).isReusableSchedulerCallback s.schedulerOwnerId w = false then
    s.setPc w .top
  else if s.callbackFiberCachePerWorker ≤ (s.workers w).callbackFiberCache.length ∨ full = true then
    { s.setPc w .top with callbackCacheEvictions := s.callbackCacheEvictions + 1 }
  else
    s.setWorker w ⟨.pushed (stackBytes (s.fibers f)), f :: (s.workers w).callbackFiberCache⟩

def addCount (w bytes : ℕ) : State :=
  { s.setPc w (.counted bytes) with callbackCachedCount := s.callbackCachedCount + 1 }

def addBytes (w bytes : ℕ) : State :=
  { s.setPc w .top with callbackCachedBytes := s.callbackCachedBytes + bytes }

/-! ### Everybody else -/

/-- A holder of Fiber `f`, or its own code, does something with it. -/
def use (f : ℕ) (op : Op) : State :=
  match op.apply (s.fibers f) with
  | .error e => s.fail e
  | .ok x => s.setFiber f x

def leak (f : ℕ) : State :=
  { s with external := Function.update s.external f (s.external f + 1) }

def drop (f : ℕ) : State :=
  { s with external := Function.update s.external f (s.external f - 1) }

/-- The destructor. -/
def destroy (f : ℕ) : State :=
  if (s.fibers f).isMainFiber = false ∧ (s.fibers f).state ≠ .term then
    s.fail (.panic "fiber state should be term")
  else s.setFiber f { s.fibers f with live := false }

/-! ### `stop` -/

/-- The loop body of `clearCallbackFiberCaches`. -/
def clearWorker (w : ℕ) : State :=
  let cache := (s.workers w).callbackFiberCache
  { s.setWorker w { s.workers w with callbackFiberCache := [] } with
    callbackCachedCount := cache.foldl (fun n _ => n - 1) s.callbackCachedCount
    callbackCachedBytes := cache.foldl (fun n f => n - stackBytes (s.fibers f))
      s.callbackCachedBytes }

/-- `stop` behind the joins. -/
def stop : State :=
  { (List.range s.workerCount).foldl clearWorker s with stopped := true }

end State

inductive Action where
  | takeFiber (w f : ℕ)
  | takeCallback (w cb : ℕ)
  | subCount (w f cb : ℕ)
  | subBytes (w f cb : ℕ)
  | reset (w f cb : ℕ) (error : Option ℕ)
  | create (w cb : ℕ) (acquire : Except ℕ Stack.FiberStackBlock) (error : Option ℕ)
  | resume (w f : ℕ)
  | yield (w f : ℕ)
  | finish (w f : ℕ) (exit : Exit)
  | tryCache (w f : ℕ) (full : Bool)
  | addCount (w bytes : ℕ)
  | addBytes (w bytes : ℕ)
  | exit (w : ℕ)
  /-- somebody else makes a Fiber: a user, `run` its idle Fiber, the constructor of the scheduler
  its root Fiber, `GetThis` the main Fiber of a thread, or another scheduler -/
  | make (x : Fiber)
  | use (f : ℕ) (op : Op)
  | leak (f : ℕ)
  | drop (f : ℕ)
  | destroy (f : ℕ)
  | stop

/-- Worker `w` is at `pc`. -/
def State.at (s : State) (w : ℕ) (pc : Pc) : Prop :=
  s.panicked = false ∧ w < s.workerCount ∧ (s.workers w).pc = pc

instance (s : State) (w : ℕ) (pc : Pc) : Decidable (s.at w pc) :=
  inferInstanceAs (Decidable (_ ∧ _))

/-- Fiber `f` can be used from outside: somebody refers to it, or its code runs and no worker waits
for it. -/
def State.usable (s : State) (f : ℕ) : Op → Prop
  | .resume | .reset _ _ => 0 < s.external f
  | .yield | .finish _ => ((s.fibers f).isMainFiber = false ∧ (s.fibers f).state = .running) ∧
      ∀ w < s.workerCount, (s.workers w).pc ≠ .running f

instance (s : State) (f : ℕ) (op : Op) : Decidable (s.usable f op) := by
  rcases op <;> (dsimp only [State.usable]; infer_instance)

def callbacks : Machine State Action where
  init s := s.fiberCount = 0 ∧ (∀ w, s.workers w = ⟨.top, []⟩) ∧ (∀ f, s.external f = 0) ∧
    s.callbackCachedCount = 0 ∧ s.callbackCachedBytes = 0 ∧ s.stopped = false ∧ s.panicked = false
  enabled s
    | .takeFiber w f => s.at w .top ∧ f < s.fiberCount ∧ 0 < s.external f
    | .takeCallback w _ => s.at w .top
    | .subCount w f cb => s.at w (.popped f cb)
    | .subBytes w f cb => s.at w (.uncounted f cb)
    | .reset w f cb _ => s.at w (.resetting f cb)
    | .create w cb _ _ => s.at w (.creating cb)
    | .resume w f => s.at w (.acquired f)
    | .yield w f | .finish w f _ => s.at w (.running f)
    | .tryCache w f _ => s.at w (.returned f)
    | .addCount w bytes => s.at w (.pushed bytes)
    | .addBytes w bytes => s.at w (.counted bytes)
    | .exit w => s.at w .top
    | .make x => s.panicked = false ∧ x.live = true ∧
        ¬(x.isSchedulerCallback = true ∧ x.schedulerOwnerId = s.schedulerOwnerId)
    | .use f op => s.panicked = false ∧ f < s.fiberCount ∧ s.usable f op
    | .leak f => s.panicked = false ∧ f < s.fiberCount ∧
        (0 < s.external f ∨ (s.fibers f).isMainFiber = false ∧ (s.fibers f).state = .running)
    | .drop f => s.panicked = false ∧ f < s.fiberCount ∧ 0 < s.external f
    | .destroy f => s.panicked = false ∧ f < s.fiberCount ∧ (s.fibers f).live = true ∧
        s.useCount f = 0
    | .stop => s.panicked = false ∧ s.stopped = false ∧
        ∀ w < s.workerCount, (s.workers w).pc = .exited
  next s
    | .takeFiber w f => s.takeFiber w f
    | .takeCallback w cb => s.takeCallback w cb
    | .subCount w f cb => s.subCount w f cb
    | .subBytes w f cb => s.subBytes w f cb
    | .reset w f cb error => s.reset w f cb error
    | .create w cb acquire error => s.create w cb acquire error
    | .resume w f => s.resume w f
    | .yield w f => s.switchBack w f .yield
    | .finish w f exit => s.switchBack w f (.finish exit)
    | .tryCache w f full => s.tryCache w f full
    | .addCount w bytes => s.addCount w bytes
    | .addBytes w bytes => s.addBytes w bytes
    | .exit w => s.setPc w .exited
    | .make x => s.allot x 1 none
    | .use f op => s.use f op
    | .leak f => s.leak f
    | .drop f => s.drop f
    | .destroy f => s.destroy f
    | .stop => s.stop

instance (s : State) (a : Action) : Decidable (callbacks.enabled s a) := by
  rcases a <;> (dsimp only [callbacks]; infer_instance)

end PulsarRuntime.Scheduler.Callbacks
