import Mathlib.Data.Nat.Notation
import Mathlib.Logic.Function.Basic
import PulsarRuntime.Lib.Machine

/-!
# Calls on a multiplexed channel

`Channel::CallMethod` enters its `PendingCall` in `pending_calls` before it sends the request, so
that `ReaderLoop` can complete the call while the request is still being written; and `WriteAll`
may park the calling Fiber in `Connection::Wait` more than once.  Three parties take a call out of
`pending_calls`: the reader, for a response or when the connection is gone, the timer callback,
and the caller itself when the send has failed.  The first two then hand the Fiber to the
scheduler, wherever it may be.

A Fiber that yields is resumed by whoever hands it over next.  `waits` counts the wake-ups that the
other things a call waits for (the write mutex, `Connect`, `Connection::Wait`) have still to give.
A step of the reader or the timer is its critical section of `pending_mutex`; handing over is a
step of its own.
-/

namespace PulsarRuntime.Rpc

/-- How `CallMethod` ends; the failures set the controller's error. -/
inductive Return where
  | connectFailed
  | sendFailed
  | failed (error : String)
  | parseFailed
  | response (payload : List UInt8)
  deriving DecidableEq

/-- Where a call is. -/
inductive CallPc where
  /-- takes the write mutex and connects if need be -/
  | preparing
  /-- entered in `pending_calls`, in `WriteAll` -/
  | sending
  /-- has yielded, before or while sending -/
  | parked (inSend : Bool)
  | sent
  /-- `send_ok` is false -/
  | unsent
  | armed
  /-- waits for its response -/
  | yielded
  | woken
  | returned (r : Return)
  deriving DecidableEq

def CallPc.hasReturned : CallPc → Bool
  | .returned _ => true
  | _ => false

inductive CallTimer where
  | off
  | armed
  /-- expired, the callback is scheduled -/
  | queued
  deriving DecidableEq

/-- A call with its `PendingCall`. -/
structure Call where
  pc : CallPc
  /-- the channel has a request timeout -/
  timed : Bool
  payload : List UInt8
  error : String
  done : Bool
  failed : Bool
  /-- in `pending_calls` -/
  pending : Bool
  /-- taken out to be completed, `scheduler` comes next -/
  due : Bool
  timer : CallTimer
  waits : ℕ
  yields : ℕ
  handed : ℕ
  resumes : ℕ

structure Channel where
  calls : ℕ → Call
  count : ℕ

/-- The call is taken out of `pending_calls` with an error. -/
def Call.failWith (c : Call) (error : String) : Call :=
  { c with pending := false, due := true, failed := true, error := error, done := true }

/-- What `ReaderLoop` does with the response to a pending call. -/
def Call.deliver (c : Call) (error : String) (payload : List UInt8) : Call :=
  if error ≠ "" then c.failWith error
  else { c with pending := false, due := true, payload := payload, done := true }

/-- What the end of `ReaderLoop` does with a call. -/
def Call.sweep (c : Call) : Call :=
  if c.pending then
    if c.done then { c with pending := false } else c.failWith "RPC connection closed"
  else c

/-- The callback of the request timer. -/
def Call.fire (c : Call) : Call :=
  if c.pending then { c.failWith "RPC request timeout" with timer := .off }
  else { c with timer := .off }

/-- What `CallMethod` makes of the completed call. -/
def Call.outcome (c : Call) (parses : Bool) : Return :=
  if c.failed then .failed c.error
  else if parses then .response c.payload
  else .parseFailed

namespace Channel

variable (s : Channel)

def setCall (k : ℕ) (c : Call) : Channel := { s with calls := Function.update s.calls k c }

def addCall (timed : Bool) : Channel :=
  { s with
    calls := Function.update s.calls s.count
      ⟨.preparing, timed, [], "", false, false, false, false, .off, 0, 0, 0, 0⟩
    count := s.count + 1 }

/-- The Fiber yields for another reason than the response. -/
def park (k : ℕ) : Channel :=
  let c := s.calls k
  s.setCall k { c with
    pc := .parked (c.pc = .sending)
    waits := c.waits + 1
    yields := c.yields + 1 }

/-- The scheduler resumes a Fiber that has been handed over. -/
def resume (k : ℕ) : Channel :=
  let c := s.calls k
  let pc := match c.pc with
    | .parked false => .preparing
    | .parked true => .sending
    | .yielded => .woken
    | pc => pc
  s.setCall k { c with pc := pc, resumes := c.resumes + 1 }

end Channel

/-- Steps of call `k`, of the reader and of the timers. -/
inductive CallAction where
  | call (timed : Bool)
  | park (k : ℕ)
  /-- what the call waits for besides its response hands the Fiber over -/
  | wake (k : ℕ)
  | resume (k : ℕ)
  | connectFailed (k : ℕ)
  | register (k : ℕ)
  | send (k : ℕ) (ok : Bool)
  /-- the caller erases its own entry -/
  | withdraw (k : ℕ)
  | arm (k : ℕ)
  | yield (k : ℕ)
  | finish (k : ℕ) (parses : Bool)
  | deliver (k : ℕ) (error : String) (payload : List UInt8)
  | sweep
  | expire (k : ℕ)
  | fire (k : ℕ)
  | hand (k : ℕ)

def channel : Machine Channel CallAction where
  init s := s.count = 0
  enabled s
    | .call _ => True
    | .park k => k < s.count ∧ ((s.calls k).pc = .preparing ∨ (s.calls k).pc = .sending)
    | .wake k => k < s.count ∧ 0 < (s.calls k).waits
    | .resume k => k < s.count ∧ ((s.calls k).pc = .parked false ∨ (s.calls k).pc = .parked true ∨
        (s.calls k).pc = .yielded) ∧ (s.calls k).resumes < (s.calls k).handed
    | .connectFailed k => k < s.count ∧ (s.calls k).pc = .preparing
    | .register k => k < s.count ∧ (s.calls k).pc = .preparing
    | .send k _ => k < s.count ∧ (s.calls k).pc = .sending
    | .withdraw k => k < s.count ∧ (s.calls k).pc = .unsent
    | .arm k => k < s.count ∧ (s.calls k).pc = .sent
    | .yield k => k < s.count ∧ (s.calls k).pc = .armed
    | .finish k _ => k < s.count ∧ (s.calls k).pc = .woken
    | .deliver k _ _ => k < s.count ∧ (s.calls k).pending = true
    | .sweep => True
    | .expire k => k < s.count ∧ (s.calls k).timer = .armed
    | .fire k => k < s.count ∧ (s.calls k).timer = .queued
    | .hand k => k < s.count ∧ (s.calls k).due = true
  next s
    | .call timed => s.addCall timed
    | .park k => s.park k
    | .wake k => s.setCall k { s.calls k with
        waits := (s.calls k).waits - 1
        handed := (s.calls k).handed + 1 }
    | .resume k => s.resume k
    | .connectFailed k => s.setCall k { s.calls k with pc := .returned .connectFailed }
    | .register k => s.setCall k { s.calls k with pc := .sending, pending := true }
    | .send k ok => s.setCall k { s.calls k with pc := if ok then .sent else .unsent }
    | .withdraw k => s.setCall k { s.calls k with pc := .returned .sendFailed, pending := false }
    | .arm k => s.setCall k { s.calls k with
        pc := .armed
        timer := if (s.calls k).timed then .armed else .off }
    | .yield k => s.setCall k { s.calls k with
        pc := .yielded
        yields := (s.calls k).yields + 1 }
    | .finish k parses => s.setCall k { s.calls k with
        pc := .returned ((s.calls k).outcome parses)
        timer := if (s.calls k).timer = .armed then .off else (s.calls k).timer }
    | .deliver k error payload => s.setCall k ((s.calls k).deliver error payload)
    | .sweep => { s with calls := fun k => (s.calls k).sweep }
    | .expire k => s.setCall k { s.calls k with timer := .queued }
    | .fire k => s.setCall k (s.calls k).fire
    | .hand k => s.setCall k { s.calls k with
        due := false
        handed := (s.calls k).handed + 1 }

instance (s : Channel) (a : CallAction) : Decidable (channel.enabled s a) := by
  rcases a <;> (dsimp only [channel]; infer_instance)

/-- A channel that has not been used. -/
def Channel.fresh : Channel where
  calls := fun _ => ⟨.preparing, false, [], "", false, false, false, false, .off, 0, 0, 0, 0⟩
  count := 0

end PulsarRuntime.Rpc
