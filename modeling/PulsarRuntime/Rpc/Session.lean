import Mathlib.Algebra.GroupWithZero.Nat
import PulsarRuntime.Rpc.Multiplex

/-!
# Request ids, the pending map and the connections of a multiplexed channel

`Multiplex` counts how often a calling Fiber is handed over.  This model keeps what a call is
matched by: the request id it draws from the 64-bit counter `next_request_id`, the map
`pending_calls` from ids to calls, and the connection its frame is written on.  A channel has one
connection at a time but makes a new one when it finds the last one closed, and with it a new
`ReaderLoop`; an old one may still be on its way out.  The channel is in use all the time: the steps
of `Channel::~Channel`, which sets `closed`, are not among these, and so `ReaderLoop` never finds
`closed` set.

A step is a critical section of `pending_mutex`, an access to one of the atomics, or a read or write
of a connection that ends.  `received`, and of a call `ticket`, `since`, `removedBy`, `holder`,
`enteredOn`, `sentOn` and `swept`, record what has happened; no step looks at them.
-/

namespace PulsarRuntime.Rpc.Session

/-- A response frame as `ReaderLoop` has read it. -/
structure Response where
  requestId : ℕ
  error : String
  payload : List UInt8
  deriving DecidableEq

/-- Who erases an entry of `pending_calls`. -/
inductive Remover where
  | response
  | timeout
  | sendFailure
  | sweep
  deriving DecidableEq

/-- Where `CallMethod` is. -/
inductive Pc where
  | entered
  /-- the counter gave 0 -/
  | redraw
  /-- has its request id, waits for `write_mutex` -/
  | drawn
  /-- holds `write_mutex` from here on -/
  | locked
  | connecting
  | connected
  | ready
  /-- entered in `pending_calls` -/
  | registered
  /-- in `WriteAll` -/
  | writing
  /-- has released `write_mutex` -/
  | sent
  /-- likewise, `send_ok` is false -/
  | unsent
  | waiting
  | returned (r : Return)
  deriving DecidableEq

def Pc.hasReturned : Pc → Bool
  | .returned _ => true
  | _ => false

/-- Not yet entered in `pending_calls`. -/
def Pc.early : Pc → Bool
  | .entered | .redraw | .drawn | .locked | .connecting | .connected | .ready => true
  | _ => false

/-- A call with its `PendingCall`. -/
structure PendingCall where
  pc : Pc
  reqId : ℕ
  payload : List UInt8
  error : String
  done : Bool
  failed : Bool
  timer : CallTimer
  /-- how many ids had been drawn before its own -/
  ticket : ℕ
  /-- how many responses had been received when it was entered in `pending_calls` -/
  since : Option ℕ
  removedBy : List Remover
  /-- the reader that has taken it out and has still to complete it -/
  holder : Option ℕ
  /-- the channel's connection when it was entered -/
  enteredOn : Option ℕ
  /-- the connection its frame is written on -/
  sentOn : Option ℕ
  /-- failed with "RPC connection closed" by the end of a `ReaderLoop` -/
  swept : Bool

def PendingCall.new : PendingCall :=
  ⟨.entered, 0, [], "", false, false, .off, 0, none, [], none, none, none, false⟩

/-- Where a `ReaderLoop` is. -/
inductive ReaderPc where
  /-- at the loop's condition -/
  | top
  /-- reads a frame from connection `c` -/
  | reading (c : ℕ)
  /-- has erased the entry of call `k` -/
  | holding (k : ℕ) (r : Response)
  /-- has left the loop -/
  | leaving
  /-- has cleared `reader_running` -/
  | cleared
  /-- has closed the connection -/
  | closed
  /-- has swapped the map, `remaining` is still to be failed -/
  | sweeping (remaining : ℕ → Option ℕ)

structure State where
  /-- the channel has a request timeout -/
  timed : Bool
  nextRequestId : ℕ
  draws : ℕ
  pending : ℕ → Option ℕ
  calls : ℕ → PendingCall
  count : ℕ
  /-- the call that holds `write_mutex` -/
  writer : Option ℕ
  conn : Option ℕ
  isClosed : ℕ → Bool
  connCount : ℕ
  readerRunning : Bool
  readers : ℕ → ReaderPc
  readerCount : ℕ
  received : List Response

/-- `call->failed`, `error` and `done` are set. -/
def PendingCall.failWith (c : PendingCall) (error : String) : PendingCall :=
  { c with failed := true, error := error, done := true }

/-- What `ReaderLoop` makes of a response. -/
def PendingCall.answer (c : PendingCall) (r : Response) : PendingCall :=
  if r.error ≠ "" then c.failWith r.error else { c with payload := r.payload, done := true }

/-- What `CallMethod` makes of the completed call. -/
def PendingCall.outcome (c : PendingCall) (parses : Bool) : Return :=
  if c.failed then .failed c.error
  else if parses then .response c.payload
  else .parseFailed

namespace State

variable (s : State)

def setCall (k : ℕ) (c : PendingCall) : State :=
  { s with calls := Function.update s.calls k c }

def setPc (k : ℕ) (pc : Pc) : State := s.setCall k { s.calls k with pc := pc }

def setReader (r : ℕ) (pc : ReaderPc) : State :=
  { s with readers := Function.update s.readers r pc }

/-- `conn && !conn->closed()`. -/
def isOpen : Bool :=
  match s.conn with
  | none => false
  | some c => !s.isClosed c

/-- `next_request_id.fetch_add(1)`; a call that gets 0 does it once more. -/
def draw (k : ℕ) : State :=
  { s.setCall k { s.calls k with
      pc := if s.nextRequestId = 0 ∧ (s.calls k).pc = .entered then .redraw else .drawn
      reqId := s.nextRequestId
      ticket := s.draws } with
    nextRequestId := (s.nextRequestId + 1) % 2 ^ 64
    draws := s.draws + 1 }

/-- `pending_calls.erase(id)`. -/
def erase (id : ℕ) (by_ : Remover) : State :=
  match s.pending id with
  | none => s
  | some j =>
    { s.setCall j { s.calls j with removedBy := (s.calls j).removedBy ++ [by_] } with
      pending := Function.update s.pending id none }

/-- `Connect` returns: `conn` is assigned. -/
def connect (k : ℕ) (ok : Bool) : State :=
  if ok then
    { s.setPc k .connected with
      conn := some s.connCount
      isClosed := Function.update s.isClosed s.connCount false
      connCount := s.connCount + 1 }
  else { s.setPc k (.returned .connectFailed) with conn := none, writer := none }

def startReader (k : ℕ) : State :=
  if s.readerRunning then s.setPc k .ready
  else
    { s.setPc k .ready with
      readerRunning := true
      readers := Function.update s.readers s.readerCount .top
      readerCount := s.readerCount + 1 }

/-- `pending_calls[req_id] = call`. -/
def register (k : ℕ) : State :=
  { s.setCall k { s.calls k with
      pc := .registered
      since := some s.received.length
      enteredOn := s.conn } with
    pending := Function.update s.pending (s.calls k).reqId (some k) }

/-- `WriteAll` is called unless the connection is closed. -/
def write (k : ℕ) : State :=
  if s.isOpen then s.setCall k { s.calls k with pc := .writing, sentOn := s.conn }
  else { s.setPc k .unsent with writer := none }

/-- The callback of the request timer; it looks for the id and marks its own call. -/
def fire (k : ℕ) : State :=
  let found := (s.pending (s.calls k).reqId).isSome
  let s := s.erase (s.calls k).reqId .timeout
  let c := { s.calls k with timer := .off }
  s.setCall k (if found then c.failWith "RPC request timeout" else c)

/-- A frame has been read: its call is looked up and erased. -/
def receive (r : ℕ) (f : Response) : State :=
  let reader := match s.pending f.requestId with
    | none => .top
    | some k => .holding k f
  let s := { s with received := s.received ++ [f] }
  match s.pending f.requestId with
  | none => s.setReader r reader
  | some k =>
    let s := s.erase f.requestId .response
    (s.setCall k { s.calls k with holder := some r }).setReader r reader

/-- The response is stored in the call that was found. -/
def complete (r : ℕ) : State :=
  match s.readers r with
  | .holding k f =>
    (s.setCall k { (s.calls k).answer f with holder := none }).setReader r .top
  | _ => s

/-- `conn->Close()` unless it is closed. -/
def close (r : ℕ) : State :=
  { s.setReader r .closed with
    isClosed := match s.conn with
      | none => s.isClosed
      | some c => Function.update s.isClosed c true }

/-- `remaining.swap(pending_calls)`. -/
def swap (r : ℕ) : State :=
  { s.setReader r (.sweeping s.pending) with
    pending := fun _ => none
    calls := fun k =>
      if s.pending (s.calls k).reqId = some k then
        { s.calls k with removedBy := (s.calls k).removedBy ++ [.sweep], holder := some r }
      else s.calls k }

/-- One round of the loop over `remaining`. -/
def sweepOne (r id : ℕ) : State :=
  match s.readers r with
  | .sweeping remaining =>
    match remaining id with
    | none => s
    | some k =>
      let c := { s.calls k with holder := none }
      (s.setCall k (if c.done then c else
        { c.failWith "RPC connection closed" with swept := true })).setReader r
          (.sweeping (Function.update remaining id none))
  | _ => s

end State

/-- Steps of call `k` and of reader `r`. -/
inductive Action where
  | call
  | draw (k : ℕ)
  | lock (k : ℕ)
  /-- looks whether there is an open connection -/
  | check (k : ℕ)
  | connect (k : ℕ) (ok : Bool)
  | startReader (k : ℕ)
  | register (k : ℕ)
  | write (k : ℕ)
  /-- `WriteAll` returns and `write_mutex` is released -/
  | written (k : ℕ) (ok : Bool)
  /-- the call erases its own entry and fails -/
  | withdraw (k : ℕ)
  /-- arms the timer and yields -/
  | wait (k : ℕ)
  | expire (k : ℕ)
  | fire (k : ℕ)
  /-- resumed, by whomever -/
  | finish (k : ℕ) (parses : Bool)
  | loop (r : ℕ)
  /-- no frame within the timeout -/
  | retry (r : ℕ)
  /-- the connection is lost or the frame is malformed -/
  | quit (r : ℕ)
  | receive (r : ℕ) (f : Response)
  | complete (r : ℕ)
  | clear (r : ℕ)
  | close (r : ℕ)
  | swap (r : ℕ)
  | sweepOne (r id : ℕ)

inductive ReaderStage where
  | top
  | reading
  | holding
  | leaving
  | cleared
  | closed
  | sweeping
  deriving DecidableEq

def ReaderPc.stage : ReaderPc → ReaderStage
  | .top => .top
  | .reading _ => .reading
  | .holding _ _ => .holding
  | .leaving => .leaving
  | .cleared => .cleared
  | .closed => .closed
  | .sweeping _ => .sweeping

/-- Every interleaving of calls on one channel with its readers and timers. -/
def session : Machine State Action where
  init s := s.nextRequestId = 1 ∧ s.draws = 0 ∧ (∀ id, s.pending id = none) ∧ s.count = 0 ∧
    s.writer = none ∧ s.conn = none ∧ s.connCount = 0 ∧ s.readerRunning = false ∧
    s.readerCount = 0 ∧ s.received = []
  enabled s
    | .call => True
    | .draw k => k < s.count ∧ ((s.calls k).pc = .entered ∨ (s.calls k).pc = .redraw)
    | .lock k => k < s.count ∧ (s.calls k).pc = .drawn ∧ s.writer = none
    | .check k => k < s.count ∧ (s.calls k).pc = .locked
    | .connect k _ => k < s.count ∧ (s.calls k).pc = .connecting
    | .startReader k => k < s.count ∧ (s.calls k).pc = .connected
    | .register k => k < s.count ∧ (s.calls k).pc = .ready
    | .write k => k < s.count ∧ (s.calls k).pc = .registered
    | .written k _ => k < s.count ∧ (s.calls k).pc = .writing
    | .withdraw k => k < s.count ∧ (s.calls k).pc = .unsent
    | .wait k => k < s.count ∧ (s.calls k).pc = .sent
    | .expire k => k < s.count ∧ (s.calls k).timer = .armed
    | .fire k => k < s.count ∧ (s.calls k).timer = .queued
    | .finish k _ => k < s.count ∧ (s.calls k).pc = .waiting
    | .loop r => r < s.readerCount ∧ (s.readers r).stage = .top
    | .retry r => r < s.readerCount ∧ (s.readers r).stage = .reading
    | .quit r => r < s.readerCount ∧ (s.readers r).stage = .reading
    | .receive r _ => r < s.readerCount ∧ (s.readers r).stage = .reading
    | .complete r => r < s.readerCount ∧ (s.readers r).stage = .holding
    | .clear r => r < s.readerCount ∧ (s.readers r).stage = .leaving
    | .close r => r < s.readerCount ∧ (s.readers r).stage = .cleared
    | .swap r => r < s.readerCount ∧ (s.readers r).stage = .closed
    | .sweepOne r _ => r < s.readerCount ∧ (s.readers r).stage = .sweeping
  next s
    | .call => { s with
        calls := Function.update s.calls s.count .new
        count := s.count + 1 }
    | .draw k => s.draw k
    | .lock k => { s.setPc k .locked with writer := some k }
    | .check k => s.setPc k (if s.isOpen then .ready else .connecting)
    | .connect k ok => s.connect k ok
    | .startReader k => s.startReader k
    | .register k => s.register k
    | .write k => s.write k
    | .written k ok => { s.setPc k (if ok then .sent else .unsent) with writer := none }
    | .withdraw k => (s.erase (s.calls k).reqId .sendFailure).setPc k (.returned .sendFailed)
    | .wait k => s.setCall k { s.calls k with
        pc := .waiting
        timer := if s.timed then .armed else .off }
    | .expire k => s.setCall k { s.calls k with timer := .queued }
    | .fire k => s.fire k
    | .finish k parses => s.setCall k { s.calls k with
        pc := .returned ((s.calls k).outcome parses)
        timer := if (s.calls k).timer = .armed then .off else (s.calls k).timer }
    | .loop r => s.setReader r (match s.conn with
        | none => .leaving
        | some c => if s.isClosed c then .leaving else .reading c)
    | .retry r => s.setReader r .top
    | .quit r => s.setReader r .leaving
    | .receive r f => s.receive r f
    | .complete r => s.complete r
    | .clear r => { s.setReader r .cleared with readerRunning := false }
    | .close r => s.close r
    | .swap r => s.swap r
    | .sweepOne r id => s.sweepOne r id

instance (s : State) (a : Action) : Decidable (session.enabled s a) := by
  rcases a <;> (dsimp only [session]; infer_instance)

/-- A channel that has not been used. -/
def State.fresh (timed : Bool) : State where
  timed := timed
  nextRequestId := 1
  draws := 0
  pending := fun _ => none
  calls := fun _ => .new
  count := 0
  writer := none
  conn := none
  isClosed := fun _ => false
  connCount := 0
  readerRunning := false
  readers := fun _ => .top
  readerCount := 0
  received := []

theorem session_init_fresh (timed : Bool) : session.init (.fresh timed) := by
  simp [session, State.fresh]

end PulsarRuntime.Rpc.Session
