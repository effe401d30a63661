import Mathlib.Data.Nat.Notation
import Mathlib.Logic.Function.Basic
import PulsarRuntime.Events.Event
import PulsarRuntime.Lib.Machine

/-!
# Waiting on a connection

`Connection::Wait` registers an event callback for the socket, arms a timer and yields.  Three
parties may end the wait: the callback, queued when the event is triggered by readiness, by
`cancelEvent` or by `cancelAll`; the timer callback; and `Close`, which triggers every registered
event.  `WaitState::outcome` decides between them by an atomic exchange, and the winner hands the
Fiber to the scheduler.

The steps are the critical sections of `mutex_` and of the `FdContext`, the exchanges, and the
calls of `scheduler`.  An event callback is pinned to the waiting worker but a timer callback runs
anywhere, so here both may run at any time.  `notify` is what an idle worker makes of an
`epoll_event` for the socket; the notification may be stale, and one for an event that is no
longer registered ends the process in `triggerEvent`.
-/

namespace PulsarRuntime.Net

/-- How a call of `Wait` can end. -/
inductive Result where
  | success
  /-- `ETIMEDOUT` -/
  | timedOut
  /-- `EBADF` -/
  | closed
  /-- `EINVAL`: not called on a worker of the connection's `IOManager` -/
  | invalid
  /-- `addEvent` has failed -/
  | notAdded
  deriving DecidableEq, Repr

/-- Where a call of `Wait` is. -/
inductive WaitPc where
  | called
  | registered
  | armed
  | yielded
  | resumed
  /-- the timer is cancelled, the result comes next -/
  | woken
  | returned (r : Result)
  deriving DecidableEq, Repr

def WaitPc.hasReturned : WaitPc → Bool
  | .returned _ => true
  | _ => false

/-- The timer of a call, and its callback. -/
inductive TimerPc where
  | off
  | armed
  /-- the timer has expired and its callback is scheduled -/
  | queued
  /-- the callback has won the exchange -/
  | won
  /-- the callback has cancelled the event, `scheduler` comes next -/
  | swept
  | done
  deriving DecidableEq, Repr

/-- A call of `Wait` with its `WaitState`. -/
structure Wait where
  event : Event
  worker : ℕ
  timed : Bool
  pc : WaitPc
  /-- 0, then 1 for readiness or close, 2 for timeout -/
  outcome : ℕ
  timer : TimerPc
  /-- `Finish` has won the exchange and calls `scheduler` next -/
  claimed : Bool
  /-- the event has been added -/
  registered : Bool
  /-- the Fiber has yielded -/
  yielded : Bool
  /-- the workers the Fiber was handed to -/
  handed : List ℕ

/-- `Close`: `closed_` is set, the events are cancelled, the socket is closed.  In between the
mutex is held. -/
inductive ClosePc where
  | live
  | marked
  | swept
  | closed
  deriving DecidableEq, Repr

def ClosePc.mutexFree : ClosePc → Bool
  | .live | .closed => true
  | _ => false

structure Connection where
  waits : ℕ → Wait
  count : ℕ
  phase : ClosePc
  /-- the `FdContext`: for each event the wait whose callback is registered -/
  slot : Event → Option ℕ
  /-- event callbacks in the scheduler's queues -/
  callbacks : List ℕ
  panicked : Bool

namespace Connection

variable (s : Connection)

def setWait (k : ℕ) (c : Wait) : Connection :=
  { s with waits := Function.update s.waits k c }

def triggerEvent (event : Event) : Connection :=
  match s.slot event with
  | none => { s with panicked := true }
  | some k =>
    { s with slot := Function.update s.slot event none, callbacks := s.callbacks ++ [k] }

def cancelEvent (event : Event) : Connection :=
  if (s.slot event).isSome then s.triggerEvent event else s

/-- The events still registered, `READ` before `WRITE`. -/
def cancelAll : Connection := (s.cancelEvent .read).cancelEvent .write

/-- `real_events`. -/
def realEvents (reported : Event → Bool) (error : Bool) (event : Event) : Bool :=
  reported event || (error && (s.slot event).isSome)

/-- The body of the loop over the ready events in `IOManager::idle`. -/
def notify (reported : Event → Bool) (error : Bool) : Connection :=
  let real := s.realEvents reported error
  let hit event := real event && (s.slot event).isSome
  if hit .read || hit .write then
    let s := if real .read then s.triggerEvent .read else s
    if s.panicked then s
    else if real .write then s.triggerEvent .write
    else s
  else s

/-- The call reaches its critical section; `added` says whether `epoll_ctl` succeeds. -/
def register (k : ℕ) (added : Bool) : Connection :=
  let c := s.waits k
  if s.phase ≠ .live then s.setWait k { c with pc := .returned .closed }
  else if (s.slot c.event).isSome then { s with panicked := true }
  else if added then
    { s.setWait k { c with pc := .registered, registered := true } with
      slot := Function.update s.slot c.event (some k) }
  else s.setWait k { c with pc := .returned .notAdded }

/-- `WaitState::Finish(1)`, up to the call of `scheduler`. -/
def finish (k : ℕ) : Connection :=
  let c := s.waits k
  if c.outcome = 0 then s.setWait k { c with outcome := 1, claimed := true } else s

/-- The exchange of the timer callback. -/
def timeout (k : ℕ) : Connection :=
  let c := s.waits k
  if c.outcome = 0 then s.setWait k { c with outcome := 2, timer := .won }
  else s.setWait k { c with timer := .done }

/-- The critical section of the timer callback. -/
def sweep (k : ℕ) : Connection :=
  let s' := if s.phase = .live then s.cancelEvent (s.waits k).event else s
  s'.setWait k { s'.waits k with timer := .swept }

/-- What `Wait` returns once it has been resumed. -/
def result (k : ℕ) : Result :=
  if (s.waits k).outcome = 2 then .timedOut
  else if s.phase ≠ .live then .closed
  else .success

end Connection

inductive Action where
  | call (event : Event) (worker : ℕ) (timed owner : Bool)
  | register (k : ℕ) (added : Bool)
  | arm (k : ℕ)
  | yield (k : ℕ)
  | notify (reported : Event → Bool) (error : Bool)
  /-- the `i`-th queued event callback runs -/
  | ready (i : ℕ)
  | hand (k : ℕ)
  | expire (k : ℕ)
  | timeout (k : ℕ)
  | sweep (k : ℕ)
  | handLate (k : ℕ)
  | resume (k : ℕ)
  | cancelTimer (k : ℕ)
  | leave (k : ℕ)
  | close
  | cancelAll
  | shut

/-- A connection with its one reader and its one writer: `Wait` is called for an event when no
other call for it is in progress. -/
def connection : Machine Connection Action where
  init s := s.count = 0 ∧ s.phase = .live ∧ (∀ e, s.slot e = none) ∧ s.callbacks = [] ∧
    s.panicked = false
  enabled s a := s.panicked = false ∧ match a with
    | .call event _ _ _ => ∀ k < s.count, (s.waits k).event = event →
        (s.waits k).pc.hasReturned = true
    | .register k _ => k < s.count ∧ (s.waits k).pc = .called ∧ s.phase.mutexFree = true
    | .arm k => k < s.count ∧ (s.waits k).pc = .registered
    | .yield k => k < s.count ∧ (s.waits k).pc = .armed
    | .notify _ _ => True
    | .ready i => i < s.callbacks.length
    | .hand k => k < s.count ∧ (s.waits k).claimed = true
    | .expire k => k < s.count ∧ (s.waits k).timer = .armed
    | .timeout k => k < s.count ∧ (s.waits k).timer = .queued
    | .sweep k => k < s.count ∧ (s.waits k).timer = .won ∧ s.phase.mutexFree = true
    | .handLate k => k < s.count ∧ (s.waits k).timer = .swept
    | .resume k => k < s.count ∧ (s.waits k).pc = .yielded ∧ (s.waits k).handed ≠ []
    | .cancelTimer k => k < s.count ∧ (s.waits k).pc = .resumed
    | .leave k => k < s.count ∧ (s.waits k).pc = .woken
    | .close => s.phase = .live
    | .cancelAll => s.phase = .marked
    | .shut => s.phase = .swept
  next s
    | .call event worker timed owner => { s with
        waits := Function.update s.waits s.count ⟨event, worker, timed,
          if owner then .called else .returned .invalid, 0, .off, false, false, false, []⟩
        count := s.count + 1 }
    | .register k added => s.register k added
    | .arm k => s.setWait k { s.waits k with
        pc := .armed
        timer := if (s.waits k).timed then .armed else .off }
    | .yield k => s.setWait k { s.waits k with pc := .yielded, yielded := true }
    | .notify reported error => s.notify reported error
    | .ready i =>
        match s.callbacks[i]? with
        | none => s
        | some k => { s with callbacks := s.callbacks.eraseIdx i }.finish k
    | .hand k => s.setWait k { s.waits k with
        claimed := false
        handed := (s.waits k).handed ++ [(s.waits k).worker] }
    | .expire k => s.setWait k { s.waits k with timer := .queued }
    | .timeout k => s.timeout k
    | .sweep k => s.sweep k
    | .handLate k => s.setWait k { s.waits k with
        timer := .done
        handed := (s.waits k).handed ++ [(s.waits k).worker] }
    | .resume k => s.setWait k { s.waits k with pc := .resumed }
    | .cancelTimer k => s.setWait k { s.waits k with
        pc := .woken
        timer := if (s.waits k).timer = .armed then .off else (s.waits k).timer }
    | .leave k => s.setWait k { s.waits k with pc := .returned (s.result k) }
    | .close => { s with phase := .marked }
    | .cancelAll => { s.cancelAll with phase := .swept }
    | .shut => { s with phase := .closed }

instance (s : Connection) (a : Action) : Decidable (connection.enabled s a) := by
  rcases a <;> (dsimp only [connection]; infer_instance)

/-- The events that a worker finds to have really happened are all registered, or none of them
is. -/
def Unmixed (s : Connection) : Action → Prop
  | .notify reported error =>
      (∀ event, s.realEvents reported error event = true → (s.slot event).isSome = true) ∨
      (∀ event, s.realEvents reported error event = true → (s.slot event).isSome = false)
  | _ => True

instance decidableUnmixed (s : Connection) (a : Action) : Decidable (Unmixed s a) := by
  rcases a <;> (dsimp only [Unmixed]; infer_instance)

/-- A connection just accepted or connected. -/
def Connection.fresh : Connection where
  waits := fun _ => ⟨.read, 0, false, .called, 0, .off, false, false, false, []⟩
  count := 0
  phase := .live
  slot := fun _ => none
  callbacks := []
  panicked := false

end PulsarRuntime.Net
