import PulsarRuntime.Rpc.Decode
import PulsarRuntime.Rpc.Order
import PulsarRuntime.Rpc.Session

/-!
# A multiplexed connection from end to end

Both ends of one connection between a multiplexed `Channel` and a `Provider`, with the bytes on the
way.  Calls are framed and written to the stream `up`; `Handle` reads the frames and submits each to
the executor; the closure of a handler that is done frames the completion and writes it to `down`;
`ReaderLoop` reads the frames and completes the calls it finds in `pending_calls`.

The streams are those of `Stream`, so writes are cut, fail and overtake each other as there.  The
reads are those of `Decode`: what has arrived when a frame is read, `cut`, is a part of what has
been sent and not been read.  A read that is never completed, or whose request is turned down, is a
step that is not taken.  The size of a response may fail to come in time; what `ReadVarint32` has
taken of it is then lost (`retry`).

`Session` follows a channel over several connections.  Here a call that finds the connection closed
fails where it would connect anew, and `sweep` may come at any time, since the end of an earlier
`ReaderLoop` may be late.  A call that waits goes on when its Fiber is resumed, and looks at nothing
but `failed` and `payload` then; `Handover` has the ways in which a Fiber can be resumed, and
`Undisturbed` asks that it is resumed because the call has been completed.  A closure that has been
run is deleted, so a handler completes once.
-/

namespace PulsarRuntime.Rpc.Remote

open Session (Remover)

/-- How a call ends. -/
inductive Result where
  | sendFailed
  | failed (error : List UInt8)
  | parseFailed
  | response (payload : List UInt8)
  deriving DecidableEq

/-- A call with its `PendingCall`; its frame is that of the writer with the same number. -/
structure Call where
  /-- has been entered in `pending_calls` -/
  entered : Bool
  payload : List UInt8
  error : List UInt8
  done : Bool
  failed : Bool
  timer : CallTimer
  /-- has yielded for the response -/
  waiting : Bool
  result : Option Result
  /-- who has taken it out of `pending_calls` -/
  removedBy : Option Remover

def Call.new : Call := ⟨false, [], [], false, false, .off, false, none, none⟩

def Call.failWith (c : Call) (error : List UInt8) : Call :=
  { c with failed := true, error := error, done := true }

/-- What `ReaderLoop` makes of a response. -/
def Call.answer (c : Call) (r : RpcHeader × List UInt8) : Call :=
  if r.1.error.isEmpty then { c with payload := r.2, done := true } else c.failWith r.1.error

/-- What `CallMethod` makes of the completed call. -/
def Call.outcome (c : Call) (parses : Bool) : Result :=
  if c.failed then .failed c.error else if parses then .response c.payload else .parseFailed

/-- Where a request is on the server. -/
inductive Stage where
  /-- the executor has it -/
  | queued
  | running
  /-- the closure has been run, the response task knows what to send -/
  | completed (c : Completion)

def Stage.isQueued : Stage → Bool
  | .queued => true
  | _ => false

def Stage.isRunning : Stage → Bool
  | .running => true
  | _ => false

structure Served where
  header : RpcHeader
  args : List UInt8
  stage : Stage

structure State where
  /-- the channel has a request timeout -/
  timed : Bool
  up : Stream
  down : Stream
  calls : ℕ → Call
  pending : ℕ → Option ℕ
  requests : ℕ → Served
  count : ℕ
  /-- how much of `up` `Handle` has read -/
  handled : ℕ
  /-- how much of `down` `ReaderLoop` has read -/
  read : ℕ

namespace State

variable (s : State)

def reqId (k : ℕ) : ℕ := (s.up.writers k).frame.header.requestId

def setCall (k : ℕ) (c : Call) : State := { s with calls := Function.update s.calls k c }

def setStage (j : ℕ) (stage : Stage) : State :=
  { s with requests := Function.update s.requests j { s.requests j with stage := stage } }

/-- A call draws its id and is framed. -/
def call [HeaderCodec] (serviceName methodName args : List UInt8) : State :=
  { s with
    up := s.up.call (.request serviceName methodName args)
    calls := Function.update s.calls s.up.count .new }

/-- `pending_calls[req_id] = call`. -/
def register (k : ℕ) : State :=
  { s.setCall k { s.calls k with entered := true } with
    pending := Function.update s.pending (s.reqId k) (some k) }

/-- `pending_calls.erase(id)`. -/
def erase (id : ℕ) (by_ : Remover) : State :=
  match s.pending id with
  | none => s
  | some k =>
    { s.setCall k { s.calls k with removedBy := some by_ } with
      pending := Function.update s.pending id none }

/-- The call erases its entry and fails. -/
def withdraw (k : ℕ) : State :=
  let s := s.erase (s.reqId k) .sendFailure
  s.setCall k { s.calls k with result := some .sendFailed }

/-- The callback of the request timer. -/
def fire (k : ℕ) : State :=
  let found := (s.pending (s.reqId k)).isSome
  let s := s.erase (s.reqId k) .timeout
  let c := { s.calls k with timer := .off }
  s.setCall k (if found then c.failWith "RPC request timeout".toUTF8.toList else c)

/-- A `ReaderLoop` that ends takes a call out of the map and fails it. -/
def sweep (k : ℕ) : State :=
  let s := s.erase (s.reqId k) .sweep
  s.setCall k ((s.calls k).failWith "RPC connection closed".toUTF8.toList)

/-- The Fiber goes on; the timer is cancelled. -/
def finish (k : ℕ) (parses : Bool) : State :=
  let c := s.calls k
  s.setCall k { c with
    result := some (c.outcome parses)
    timer := if c.timer = .armed then .off else c.timer }

/-- `Handle` reads a request and submits it. -/
def request (parse : List UInt8 → Option RpcHeader) (cut : Socket) : State :=
  match readRequest parse cut with
  | none => s
  | some (r, rest) =>
    { s with
      requests := Function.update s.requests s.count ⟨r.1, r.2, .queued⟩
      count := s.count + 1
      handled := s.handled + (cut.bytes.length - rest.bytes.length) }

/-- The closure is run; its task frames the completion. -/
def complete [HeaderCodec] (j : ℕ) (c : Completion) : State :=
  { s.setStage j (.completed c) with
    down := s.down.call (.response (s.requests j).header.requestId c) }

/-- `ReaderLoop` reads a response and completes the call it finds. -/
def answer (parse : List UInt8 → Option RpcHeader) (cut : Socket) : State :=
  match readResponse parse cut with
  | none => s
  | some (r, rest) =>
    let s := { s with read := s.read + (cut.bytes.length - rest.bytes.length) }
    match s.pending r.1.requestId with
    | none => s
    | some k =>
      let s := s.erase r.1.requestId .response
      s.setCall k ((s.calls k).answer r)

end State

/-- Whether the action puts a new frame on the stream. -/
def isCall : StreamAction → Bool
  | .call _ => true
  | _ => false

/-- Before `closed()` is looked at, the call is in the map. -/
def Checked (s : State) : StreamAction → Prop
  | .check k => (s.calls k).entered = true
  | _ => True

instance decidableChecked (s : State) (a : StreamAction) : Decidable (Checked s a) := by
  rcases a <;> (dsimp only [Checked]; infer_instance)

inductive Action where
  | call (serviceName methodName args : List UInt8)
  | register (k : ℕ)
  /-- a step of the client's writers, or of its connection -/
  | client (a : StreamAction)
  | withdraw (k : ℕ)
  /-- arms the timer and yields -/
  | wait (k : ℕ)
  | expire (k : ℕ)
  | fire (k : ℕ)
  | sweep (k : ℕ)
  | finish (k : ℕ) (parses : Bool)
  | request (cut : Socket)
  /-- the executor starts the handler -/
  | start (j : ℕ)
  | complete (j : ℕ) (c : Completion)
  /-- a step of the server's writers, or of its connection -/
  | server (a : StreamAction)
  | answer (cut : Socket)
  /-- no size in time -/
  | retry (lost : List UInt8)

/-- Every interleaving of calls and handlers, however the bytes are cut. -/
def remote [HeaderCodec] (parse : List UInt8 → Option RpcHeader) : Machine State Action where
  init s := (stream .client).init s.up ∧ (stream .server).init s.down ∧
    (∀ id, s.pending id = none) ∧ s.count = 0 ∧ s.handled = 0 ∧ s.read = 0
  enabled s
    | .call _ _ _ => True
    | .register k => k < s.up.count ∧ (s.up.writers k).pc = .locked ∧ (s.calls k).entered = false
    | .client a => (stream .client).enabled s.up a ∧ isCall a = false ∧ Checked s a
    | .withdraw k => k < s.up.count ∧ (s.up.writers k).pc = .done ∧
        (s.up.writers k).sent ≠ (s.up.writers k).size ∧ (s.calls k).result = none
    | .wait k => k < s.up.count ∧ (s.up.writers k).pc = .done ∧
        (s.up.writers k).sent = (s.up.writers k).size ∧ (s.calls k).waiting = false
    | .expire k => k < s.up.count ∧ (s.calls k).timer = .armed
    | .fire k => k < s.up.count ∧ (s.calls k).timer = .queued
    | .sweep k => k < s.up.count ∧ s.pending (s.reqId k) = some k
    | .finish k _ => k < s.up.count ∧ (s.calls k).waiting = true ∧ (s.calls k).result = none
    | .request cut => s.down.closed = false ∧ cut.bytes <+: s.up.sent.drop s.handled ∧
        (readRequest parse cut).isSome = true
    | .start j => j < s.count ∧ (s.requests j).stage.isQueued = true
    | .complete j _ => j < s.count ∧ (s.requests j).stage.isRunning = true
    | .server a => (stream .server).enabled s.down a ∧ isCall a = false
    | .answer cut => s.up.closed = false ∧ cut.bytes <+: s.down.sent.drop s.read ∧
        (readResponse parse cut).isSome = true
    | .retry lost => s.up.closed = false ∧ lost <+: s.down.sent.drop s.read ∧ lost.length < 5 ∧
        lost.all (128 ≤ ·)
  next s
    | .call serviceName methodName args => s.call serviceName methodName args
    | .register k => s.register k
    | .client a => { s with up := (stream .client).next s.up a }
    | .withdraw k => s.withdraw k
    | .wait k => s.setCall k { s.calls k with
        waiting := true
        timer := if s.timed then .armed else .off }
    | .expire k => s.setCall k { s.calls k with timer := .queued }
    | .fire k => s.fire k
    | .sweep k => s.sweep k
    | .finish k parses => s.finish k parses
    | .request cut => s.request parse cut
    | .start j => s.setStage j .running
    | .complete j c => s.complete j c
    | .server a => { s with down := (stream .server).next s.down a }
    | .answer cut => s.answer parse cut
    | .retry lost => { s with read := s.read + lost.length }

instance decidableEnabled [HeaderCodec] (parse : List UInt8 → Option RpcHeader) (s : State)
    (a : Action) : Decidable ((remote parse).enabled s a) := by
  rcases a <;> (dsimp only [remote]; infer_instance)

/-- On both sides, a writer that has sent a part of its frame leaves no open connection behind. -/
def Whole [HeaderCodec] (s : State) : Action → Prop
  | .client a => ClosesTorn s.up a
  | .server a => ClosesTorn s.down a
  | _ => True

instance decidableWhole [HeaderCodec] (s : State) (a : Action) : Decidable (Whole s a) := by
  rcases a <;> (dsimp only [Whole]; infer_instance)

/-- A Fiber that waits for a response is resumed only once its call has been completed. -/
def Undisturbed (s : State) : Action → Prop
  | .finish k _ => (s.calls k).done = true
  | _ => True

instance decidableUndisturbed (s : State) (a : Action) : Decidable (Undisturbed s a) := by
  rcases a <;> (dsimp only [Undisturbed]; infer_instance)

/-- No torn frame stays on an open connection, and no wait ends early. -/
def Orderly [HeaderCodec] (s : State) (a : Action) : Prop := Whole s a ∧ Undisturbed s a

instance decidableOrderly [HeaderCodec] (s : State) (a : Action) : Decidable (Orderly s a) :=
  inferInstanceAs (Decidable (_ ∧ _))

/-- A connection that has just been made. -/
def State.fresh (timed : Bool) : State where
  timed := timed
  up := .fresh
  down := .fresh
  calls := fun _ => .new
  pending := fun _ => none
  requests := fun _ => ⟨⟨[], [], 0, 0, []⟩, [], .queued⟩
  count := 0
  handled := 0
  read := 0

theorem fresh_init [HeaderCodec] (parse : List UInt8 → Option RpcHeader) (timed : Bool) :
    (remote parse).init (.fresh timed) :=
  ⟨Stream.fresh_init _, Stream.fresh_init _, fun _ => rfl, rfl, rfl, rfl⟩

end PulsarRuntime.Rpc.Remote
