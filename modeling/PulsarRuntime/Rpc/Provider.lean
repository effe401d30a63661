import Mathlib.Algebra.GroupWithZero.Nat
import Mathlib.Data.Int.Basic
import Mathlib.Logic.Function.Basic
import PulsarRuntime.Rpc.Multiplex

/-!
# The server: accepting, completing and draining requests

`Provider::State::Handle` runs in one Fiber for each connection.  A request of a plain channel is
counted in, submitted to the executor, and the Fiber yields until somebody calls
`CallContext::Finish`: the closure the handler runs, the request timer, `Provider::Stop`, the
rejection by the executor or the catch block around the handler.  The first exchange of `outcome`
wins and hands the Fiber to the scheduler.  For a request of a multiplexed channel the Fiber goes on
at once, and the closure schedules a task that writes the response.

`outstanding` and `pending_count` are the counters that `Stop` waits for; they are integers here, so
that an underflow would show.  A step is a critical section of the provider's mutex, an exchange of
`outcome`, a call of `scheduler`, or a write.  The model starts with a provider that has been
started; `Start` refuses to do so again.  `late` and `stillAccepting` of a request, and `writes`,
record what has happened.
-/

namespace PulsarRuntime.Rpc.Serve

/-- Where `Handle` is with a request. -/
inductive Pc where
  /-- read and parsed, not yet counted in -/
  | entering
  | submitting
  /-- the executor has rejected it -/
  | undoing
  /-- calls `Finish(2)` for that reason -/
  | rejecting
  | arming
  | yielding
  | yielded
  /-- resumed, `pending_count` is decremented -/
  | checking
  /-- measures and serializes the response -/
  | preparing
  | writing
  | ended
  deriving DecidableEq

/-- The executor's task with the handler. -/
inductive Handler where
  | idle
  | queued
  | running
  | returned
  deriving DecidableEq

/-- `DoneClosure` or `MultiplexDoneClosure`. -/
inductive Closure where
  | absent
  | ready
  /-- plain: `outstanding` is decremented, `Finish(1)` comes next -/
  | counted
  /-- plain: `Run` is over -/
  | ran
  /-- multiplexed: the response task is scheduled -/
  | scheduled
  /-- multiplexed: the response has been written, or not -/
  | responded
  /-- multiplexed: the counters are decremented -/
  | finished
  deriving DecidableEq

structure Request where
  conn : ℕ
  /-- the request id is not 0 -/
  multiplexed : Bool
  pc : Pc
  handler : Handler
  closure : Closure
  timer : CallTimer
  outcome : ℕ
  /-- a `Finish` has won the exchange and has still to call `scheduler` -/
  claimed : Bool
  yields : ℕ
  handed : ℕ
  resumes : ℕ
  /-- both counters have been incremented for it -/
  countedIn : Bool
  /-- the rejection by the executor has been counted -/
  undone : Bool
  /-- when the closure ran, the call had been finished or the provider had stopped accepting -/
  late : Bool
  /-- what `Handle` found in `accepting` before it prepared the response -/
  stillAccepting : Bool

def Request.new (conn : ℕ) (multiplexed : Bool) : Request :=
  ⟨conn, multiplexed, .entering, .idle, .absent, .off, 0, false, 0, 0, 0, false, false, false,
    false⟩

structure Conn where
  closed : Bool
  /-- `Handle` has left its loop -/
  left : Bool
  /-- the request that `Handle` is busy with -/
  current : Option ℕ

/-- A call of `Provider::Stop`. -/
inductive StopPc where
  /-- the contexts that are still to be finished -/
  | finishing (contexts : List ℕ)
  | returned (drained : Bool)
  deriving DecidableEq

/-- Whether a `Stop` call has returned. -/
def StopPc.isReturned : StopPc → Bool
  | .returned _ => true
  | _ => false

structure Provider where
  maxConnections : ℕ
  /-- `request_timeout` is not negative -/
  timed : Bool
  accepting : Bool
  outstanding : ℤ
  pendingCount : ℤ
  pending : List ℕ
  requests : ℕ → Request
  count : ℕ
  conns : ℕ → Conn
  connCount : ℕ
  stops : ℕ → StopPc
  stopCount : ℕ
  /-- the connection and the request of each write -/
  writes : List (ℕ × ℕ)

/-- `CallContext::Finish`, up to the exchange. -/
def Request.finish (r : Request) (value : ℕ) : Request :=
  if r.outcome = 0 then { r with outcome := value, claimed := true } else r

/-- Nobody refers to the `CallContext` any more. -/
def Request.expired (r : Request) : Bool :=
  r.pc = .ended && (r.handler = .idle || r.handler = .returned) &&
    (r.closure = .absent || r.closure = .ran) && r.timer = .off

namespace Provider

variable (s : Provider)

def setRequest (k : ℕ) (r : Request) : Provider :=
  { s with requests := Function.update s.requests k r }

def setPc (k : ℕ) (pc : Pc) : Provider := s.setRequest k { s.requests k with pc := pc }

/-- `Handle` is done with request `k`, and goes on or leaves its loop. -/
def turn (k : ℕ) (leave : Bool) : Provider :=
  let c := (s.requests k).conn
  { s.setPc k .ended with
    conns := Function.update s.conns c { s.conns c with
      current := none
      left := (s.conns c).left || leave } }

/-- The number of requests at which no further one is accepted. -/
def limit (multiplexed : Bool) : ℕ :=
  if multiplexed then s.maxConnections * 64 % 2 ^ 64 else s.maxConnections

/-- The request is counted in, or `Handle` leaves. -/
def enter (k : ℕ) : Provider :=
  let r := s.requests k
  if s.accepting = false ∨ (s.limit r.multiplexed : ℤ) ≤ s.outstanding then s.turn k true
  else
    { s.setRequest k { r with pc := .submitting, countedIn := true } with
      outstanding := s.outstanding + 1
      pendingCount := s.pendingCount + 1
      pending := if r.multiplexed then s.pending
        else (s.pending.filter fun j => !(s.requests j).expired) ++ [k] }

/-- `executor.Submit`. -/
def submit (k : ℕ) (queued : Bool) : Provider :=
  let r := s.requests k
  if queued then
    let s := s.setRequest k { r with pc := .arming, handler := .queued }
    if r.multiplexed then s.turn k false else s
  else s.setPc k .undoing

/-- The counters after a rejection. -/
def undo (k : ℕ) : Provider :=
  let r := s.requests k
  let s := { s.setRequest k { r with pc := .rejecting, undone := true } with
    outstanding := s.outstanding - 1 }
  if r.multiplexed then { s.turn k true with pendingCount := s.pendingCount - 1 } else s

/-- `Finish(2)` after a rejection. -/
def reject (k : ℕ) : Provider :=
  s.setRequest k { (s.requests k).finish 2 with pc := .arming }

def arm (k : ℕ) : Provider :=
  s.setRequest k { s.requests k with
    pc := .yielding
    timer := if s.timed then .armed else .off }

def yield (k : ℕ) : Provider :=
  s.setRequest k { s.requests k with pc := .yielded, yields := (s.requests k).yields + 1 }

/-- The Fiber goes on; the timer is cancelled. -/
def resume (k : ℕ) : Provider :=
  let r := s.requests k
  { s.setRequest k { r with
      pc := .checking
      resumes := r.resumes + 1
      timer := if r.timer = .armed then .off else r.timer } with
    pendingCount := s.pendingCount - 1 }

/-- `if (!completed || conn->closed() || !accepting) break`. -/
def check (k : ℕ) : Provider :=
  let r := s.requests k
  if r.outcome = 1 ∧ (s.conns r.conn).closed = false ∧ s.accepting = true then
    s.setRequest k { r with pc := .preparing, stillAccepting := s.accepting }
  else s.turn k true

def prepare (k : ℕ) (ok : Bool) : Provider :=
  if ok then s.setPc k .writing else s.turn k true

/-- Bytes of the response to request `k` are written. -/
def write (k : ℕ) : Provider := { s with writes := s.writes ++ [((s.requests k).conn, k)] }

/-- The closure is run. -/
def run (k : ℕ) : Provider :=
  let r := s.requests k
  if r.multiplexed then s.setRequest k { r with closure := .scheduled }
  else
    { s.setRequest k { r with
        closure := .counted
        late := r.outcome ≠ 0 || !s.accepting } with
      outstanding := s.outstanding - 1 }

/-- The handler throws. -/
def throw (k : ℕ) : Provider :=
  let r := { s.requests k with handler := .returned }
  if r.multiplexed then s.setRequest k { r with outcome := 2, closure := .scheduled }
  else s.setRequest k (r.finish 2)

/-- The response task writes, if the connection is open. -/
def respond (k : ℕ) : Provider :=
  let r := s.requests k
  let s' := s.setRequest k { r with closure := .responded }
  if (s.conns r.conn).closed then s' else s'.write k

/-- The end of the response task. -/
def settle (k : ℕ) : Provider :=
  { s.setRequest k { s.requests k with closure := .finished } with
    outstanding := s.outstanding - 1
    pendingCount := s.pendingCount - 1 }

/-- The critical section of `Stop`. -/
def stop : Provider :=
  { s with
    accepting := false
    pending := []
    stops := Function.update s.stops s.stopCount
      (.finishing (s.pending.filter fun j => !(s.requests j).expired))
    stopCount := s.stopCount + 1 }

/-- `Stop` calls `Finish(2)` for the next context. -/
def stopFinish (j : ℕ) : Provider :=
  match s.stops j with
  | .finishing (k :: rest) =>
    { s.setRequest k ((s.requests k).finish 2) with
      stops := Function.update s.stops j (.finishing rest) }
  | _ => s

end Provider

/-- Steps of `Handle` with request `k`, of its handler, closure and timer, of a `Stop` call `j`, and
of the connections. -/
inductive Action where
  | connect
  | close (c : ℕ)
  /-- `Handle` has read a request -/
  | arrive (c : ℕ) (multiplexed : Bool)
  /-- `Handle` leaves its loop without a request -/
  | leave (c : ℕ)
  | enter (k : ℕ)
  | submit (k : ℕ) (queued : Bool)
  | undo (k : ℕ)
  | reject (k : ℕ)
  | arm (k : ℕ)
  | yield (k : ℕ)
  | resume (k : ℕ)
  | check (k : ℕ)
  | prepare (k : ℕ) (ok : Bool)
  | write (k : ℕ)
  /-- the write is over -/
  | written (k : ℕ) (ok : Bool)
  /-- the executor starts the handler -/
  | start (k : ℕ)
  /-- the handler returns; it may keep the closure -/
  | handled (k : ℕ)
  | throw (k : ℕ)
  /-- the closure is run -/
  | run (k : ℕ)
  /-- `Finish(1)` at the end of the closure -/
  | finish (k : ℕ)
  | respond (k : ℕ)
  | settle (k : ℕ)
  | expire (k : ℕ)
  /-- the timer callback calls `Finish(2)` -/
  | fire (k : ℕ)
  /-- the winner of the exchange calls `scheduler` -/
  | hand (k : ℕ)
  | stop
  | stopFinish (j : ℕ)
  | stopReturn (j : ℕ) (drained : Bool)

/-- Every interleaving of requests on any number of connections with their handlers and timers and
with calls of `Stop`.  A closure that has been run is deleted, so it is run once. -/
def provider : Machine Provider Action where
  init s := s.accepting = true ∧ s.outstanding = 0 ∧ s.pendingCount = 0 ∧ s.pending = [] ∧
    s.count = 0 ∧ s.connCount = 0 ∧ s.stopCount = 0 ∧ s.writes = []
  enabled s
    | .connect => True
    | .close c => c < s.connCount
    | .arrive c _ => c < s.connCount ∧ (s.conns c).left = false ∧ (s.conns c).current = none
    | .leave c => c < s.connCount ∧ (s.conns c).left = false ∧ (s.conns c).current = none
    | .enter k => k < s.count ∧ (s.requests k).pc = .entering
    | .submit k _ => k < s.count ∧ (s.requests k).pc = .submitting
    | .undo k => k < s.count ∧ (s.requests k).pc = .undoing
    | .reject k => k < s.count ∧ (s.requests k).pc = .rejecting
    | .arm k => k < s.count ∧ (s.requests k).pc = .arming
    | .yield k => k < s.count ∧ (s.requests k).pc = .yielding
    | .resume k => k < s.count ∧ (s.requests k).pc = .yielded ∧
        (s.requests k).resumes < (s.requests k).handed
    | .check k => k < s.count ∧ (s.requests k).pc = .checking
    | .prepare k _ => k < s.count ∧ (s.requests k).pc = .preparing
    | .write k => k < s.count ∧ (s.requests k).pc = .writing ∧
        (s.conns (s.requests k).conn).closed = false
    | .written k _ => k < s.count ∧ (s.requests k).pc = .writing
    | .start k => k < s.count ∧ (s.requests k).handler = .queued
    | .handled k => k < s.count ∧ (s.requests k).handler = .running
    | .throw k => k < s.count ∧ (s.requests k).handler = .running ∧
        ((s.requests k).multiplexed = true → (s.requests k).closure = .ready)
    | .run k => k < s.count ∧ (s.requests k).closure = .ready
    | .finish k => k < s.count ∧ (s.requests k).closure = .counted
    | .respond k => k < s.count ∧ (s.requests k).closure = .scheduled
    | .settle k => k < s.count ∧ (s.requests k).closure = .responded
    | .expire k => k < s.count ∧ (s.requests k).timer = .armed
    | .fire k => k < s.count ∧ (s.requests k).timer = .queued
    | .hand k => k < s.count ∧ (s.requests k).claimed = true
    | .stop => True
    | .stopFinish j => j < s.stopCount ∧ (s.stops j).isReturned = false
    | .stopReturn j drained => j < s.stopCount ∧ s.stops j = .finishing [] ∧
        (drained = true → s.pendingCount = 0 ∧ s.outstanding = 0)
  next s
    | .connect => { s with
        conns := Function.update s.conns s.connCount ⟨false, false, none⟩
        connCount := s.connCount + 1 }
    | .close c => { s with
        conns := Function.update s.conns c { s.conns c with closed := true } }
    | .arrive c multiplexed => { s with
        requests := Function.update s.requests s.count (.new c multiplexed)
        count := s.count + 1
        conns := Function.update s.conns c { s.conns c with current := some s.count } }
    | .leave c => { s with
        conns := Function.update s.conns c { s.conns c with left := true } }
    | .enter k => s.enter k
    | .submit k queued => s.submit k queued
    | .undo k => s.undo k
    | .reject k => s.reject k
    | .arm k => s.arm k
    | .yield k => s.yield k
    | .resume k => s.resume k
    | .check k => s.check k
    | .prepare k ok => s.prepare k ok
    | .write k => s.write k
    | .written k ok => s.turn k (!ok)
    | .start k => s.setRequest k { s.requests k with handler := .running, closure := .ready }
    | .handled k => s.setRequest k { s.requests k with handler := .returned }
    | .throw k => s.throw k
    | .run k => s.run k
    | .finish k => s.setRequest k { (s.requests k).finish 1 with closure := .ran }
    | .respond k => s.respond k
    | .settle k => s.settle k
    | .expire k => s.setRequest k { s.requests k with timer := .queued }
    | .fire k => s.setRequest k { (s.requests k).finish 2 with timer := .off }
    | .hand k => s.setRequest k { s.requests k with
        claimed := false
        handed := (s.requests k).handed + 1 }
    | .stop => s.stop
    | .stopFinish j => s.stopFinish j
    | .stopReturn j drained => { s with
        stops := Function.update s.stops j (.returned drained) }

instance (s : Provider) (a : Action) : Decidable (provider.enabled s a) := by
  rcases a <;> (dsimp only [provider]; infer_instance)

/-- A provider that has just been started. -/
def Provider.started (maxConnections : ℕ) (timed : Bool) : Provider where
  maxConnections := maxConnections
  timed := timed
  accepting := true
  outstanding := 0
  pendingCount := 0
  pending := []
  requests := fun _ => .new 0 false
  count := 0
  conns := fun _ => ⟨false, false, none⟩
  connCount := 0
  stops := fun _ => .finishing []
  stopCount := 0
  writes := []

theorem provider_init_started (maxConnections : ℕ) (timed : Bool) :
    provider.init (.started maxConnections timed) := by
  simp [provider, Provider.started]

end PulsarRuntime.Rpc.Serve
