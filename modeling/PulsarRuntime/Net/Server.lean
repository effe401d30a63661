import Mathlib.Data.Int.Basic
import Mathlib.Logic.Function.Basic
import PulsarRuntime.Lib.Machine

/-!
# The accept loop of `net::Server`

A server that has been started has one accept loop, any number of connections and any number of
calls of `Stop`.  The loop accepts a descriptor, counts it in `active` unless that would exceed
`max_connections`, makes a `Connection`, registers it in `connections` and schedules a task for it.
The task runs the handler, closes the connection and counts it out.  `Stop` clears `running`, takes
the listener and the connections out of the state, and closes them.

A step is an access to one of the atomics, a critical section of the mutex of the state or of a
connection, or a call of `scheduler`.  `active` is an integer, so that an underflow would show.
`snapshot` says that a `Stop` has been through its critical section, `decs` and `started` of a
connection count its `fetch_sub` and the starts of its handler.
-/

namespace PulsarRuntime.Net.Server

/-- What has become of an accepted descriptor. -/
inductive Stage where
  /-- accepted, not counted yet -/
  | accepted
  /-- closed because of the limit -/
  | refused
  /-- counted in `active` -/
  | admitted
  | registered
  /-- its task is scheduled -/
  | scheduled
  /-- in the handler -/
  | running
  /-- behind the handler, and behind the catch clause -/
  | handled
  /-- behind `conn->Close()` -/
  | closing
  /-- behind `active.fetch_sub(1)` -/
  | finished
  /-- the handler has thrown something that is not a `std::exception` -/
  | escaped
  /-- the scheduler could not make a Fiber for the task -/
  | dropped
  deriving DecidableEq

structure Conn where
  stage : Stage
  closed : Bool
  /-- the last `shared_ptr` is gone -/
  expired : Bool
  decs : ℕ
  started : ℕ

/-- Where the accept loop is. -/
inductive LoopPc where
  | top
  /-- has seen `running` -/
  | checked
  /-- in `listener->Wait` -/
  | waiting
  /-- has accepted connection `c` -/
  | accepted (c : ℕ)
  /-- has read `count` from `active` -/
  | counting (c : ℕ) (count : ℤ)
  | admitted (c : ℕ)
  | registered (c : ℕ)
  | ended
  deriving DecidableEq

/-- The connection that is accepted and not yet registered. -/
def LoopPc.inHand : LoopPc → Option ℕ
  | .accepted c | .counting c _ | .admitted c => some c
  | _ => none

/-- A call of `Stop`. -/
inductive StopPc where
  /-- has cleared `running` -/
  | exchanged
  /-- is to close the listener and these connections -/
  | taken (conns : List ℕ)
  /-- the listener is closed -/
  | closing (conns : List ℕ)
  | returned
  deriving DecidableEq

/-- The connections the call has still to close. -/
def StopPc.conns : StopPc → List ℕ
  | .taken conns | .closing conns => conns
  | _ => []

/-- How `accept4` ends. -/
inductive AcceptResult where
  | client
  /-- `EINTR` -/
  | interrupted
  /-- `EAGAIN` -/
  | again
  | failed
  deriving DecidableEq

/-- How a handler ends. -/
inductive Exit where
  | returned
  /-- a `std::exception` -/
  | exception
  /-- any other value -/
  | other
  deriving DecidableEq

structure State where
  maxConnections : ℕ
  running : Bool
  active : ℤ
  listenerClosed : Bool
  /-- the `weak_ptr`s -/
  connections : List ℕ
  loop : LoopPc
  conns : ℕ → Conn
  connCount : ℕ
  stops : ℕ → StopPc
  stopCount : ℕ
  snapshot : Bool

namespace State

variable (s : State)

def setConn (c : ℕ) (x : Conn) : State := { s with conns := Function.update s.conns c x }

def setStage (c : ℕ) (stage : Stage) : State := s.setConn c { s.conns c with stage := stage }

/-- `Connection::Close`, or `close` on the descriptor. -/
def close (c : ℕ) : State := s.setConn c { s.conns c with closed := true }

def setStop (j : ℕ) (pc : StopPc) : State := { s with stops := Function.update s.stops j pc }

/-! ### The loop -/

def check : State := { s with loop := if s.running then .checked else .ended }

def accept (r : AcceptResult) : State :=
  if s.listenerClosed then { s with loop := .ended }
  else
    match r with
    | .client =>
      { s with
        loop := .accepted s.connCount
        conns := Function.update s.conns s.connCount ⟨.accepted, false, false, 0, 0⟩
        connCount := s.connCount + 1 }
    | .interrupted => { s with loop := .top }
    | .again => { s with loop := .waiting }
    | .failed => { s with loop := .ended }

/-- `Wait` returns; it fails when the listener has been closed. -/
def wake (ok : Bool) : State := { s with loop := if ok then .top else .ended }

def load (c : ℕ) : State := { s with loop := .counting c s.active }

/-- A round of the loop around `compare_exchange_weak`, which may fail for no reason. -/
def exchange (c : ℕ) (count : ℤ) (spurious : Bool) : State :=
  if count < s.maxConnections then
    if s.active = count ∧ spurious = false then
      { s.setStage c .admitted with active := s.active + 1, loop := .admitted c }
    else s.load c
  else { (s.close c).setStage c .refused with loop := .top }

def register (c : ℕ) : State :=
  { s.setStage c .registered with
    connections := (s.connections.filter fun d => !(s.conns d).expired) ++ [c]
    loop := .registered c }

def schedule (c : ℕ) : State := { s.setStage c .scheduled with loop := .top }

/-! ### The task -/

def start (c : ℕ) : State :=
  s.setConn c { s.conns c with stage := .running, started := (s.conns c).started + 1 }

def exit (c : ℕ) : Exit → State
  | .returned | .exception => s.setStage c .handled
  | .other => s.setStage c .escaped

def closeTask (c : ℕ) : State := (s.close c).setStage c .closing

def release (c : ℕ) : State :=
  { s.setConn c { s.conns c with stage := .finished, decs := (s.conns c).decs + 1 } with
    active := s.active - 1 }

/-- The last reference to the connection goes. -/
def destroy (c : ℕ) : State := s.setConn c { s.conns c with closed := true, expired := true }

/-! ### `Stop` -/

def stop : State :=
  { s with
    running := false
    stops := Function.update s.stops s.stopCount (if s.running then .exchanged else .returned)
    stopCount := s.stopCount + 1 }

/-- The critical section. -/
def take (j : ℕ) : State :=
  { s.setStop j (.taken (s.connections.filter fun c => !(s.conns c).expired)) with
    connections := []
    snapshot := true }

def closeListener (j : ℕ) (conns : List ℕ) : State :=
  { s.setStop j (.closing conns) with listenerClosed := true }

def closeNext (j c : ℕ) (rest : List ℕ) : State := (s.close c).setStop j (.closing rest)

end State

/-- Steps of the loop, of the task of connection `c`, and of `Stop` call `j`. -/
inductive Action where
  | check
  | accept (r : AcceptResult)
  | wake (ok : Bool)
  | load (c : ℕ)
  | exchange (c : ℕ) (count : ℤ) (spurious : Bool)
  | register (c : ℕ)
  | schedule (c : ℕ)
  | start (c : ℕ)
  | drop (c : ℕ)
  | exit (c : ℕ) (e : Exit)
  | closeTask (c : ℕ)
  | release (c : ℕ)
  /-- the handler, or somebody who has the connection from it, closes it -/
  | close (c : ℕ)
  | destroy (c : ℕ)
  | stop
  | take (j : ℕ)
  | closeListener (j : ℕ) (conns : List ℕ)
  | closeNext (j c : ℕ) (rest : List ℕ)
  | returnStop (j : ℕ)

def server : Machine State Action where
  init s := s.running = true ∧ s.active = 0 ∧ s.listenerClosed = false ∧ s.connections = [] ∧
    s.loop = .top ∧ s.connCount = 0 ∧ s.stopCount = 0 ∧ s.snapshot = false
  enabled s
    | .check => s.loop = .top
    | .accept _ => s.loop = .checked
    | .wake _ => s.loop = .waiting
    | .load c => s.loop = .accepted c
    | .exchange c count _ => s.loop = .counting c count
    | .register c => s.loop = .admitted c
    | .schedule c => s.loop = .registered c
    | .start c | .drop c => c < s.connCount ∧ (s.conns c).stage = .scheduled
    | .exit c _ => c < s.connCount ∧ (s.conns c).stage = .running
    | .closeTask c => c < s.connCount ∧ (s.conns c).stage = .handled
    | .release c => c < s.connCount ∧ (s.conns c).stage = .closing
    | .close c => c < s.connCount ∧ 0 < (s.conns c).started
    | .destroy c => c < s.connCount ∧ ((s.conns c).stage = .finished ∨
        (s.conns c).stage = .escaped ∨ (s.conns c).stage = .dropped)
    | .stop => True
    | .take j => j < s.stopCount ∧ s.stops j = .exchanged
    | .closeListener j conns => j < s.stopCount ∧ s.stops j = .taken conns
    | .closeNext j c rest => j < s.stopCount ∧ s.stops j = .closing (c :: rest)
    | .returnStop j => j < s.stopCount ∧ s.stops j = .closing []
  next s
    | .check => s.check
    | .accept r => s.accept r
    | .wake ok => s.wake ok
    | .load c => s.load c
    | .exchange c count spurious => s.exchange c count spurious
    | .register c => s.register c
    | .schedule c => s.schedule c
    | .start c => s.start c
    | .drop c => s.setStage c .dropped
    | .exit c e => s.exit c e
    | .closeTask c => s.closeTask c
    | .release c => s.release c
    | .close c => s.close c
    | .destroy c => s.destroy c
    | .stop => s.stop
    | .take j => s.take j
    | .closeListener j conns => s.closeListener j conns
    | .closeNext j c rest => s.closeNext j c rest
    | .returnStop j => s.setStop j .returned

instance (s : State) (a : Action) : Decidable (server.enabled s a) := by
  rcases a <;> (dsimp only [server]; infer_instance)

/-- A server that has just been started. -/
def State.started (maxConnections : ℕ) : State where
  maxConnections := maxConnections
  running := true
  active := 0
  listenerClosed := false
  connections := []
  loop := .top
  conns := fun _ => ⟨.accepted, false, false, 0, 0⟩
  connCount := 0
  stops := fun _ => .returned
  stopCount := 0
  snapshot := false

theorem server_init_started (maxConnections : ℕ) : server.init (.started maxConnections) :=
  ⟨rfl, rfl, rfl, rfl, rfl, rfl, rfl, rfl⟩

end PulsarRuntime.Net.Server
