import Mathlib.Data.List.Infix
import Mathlib.Data.Nat.Basic
import Mathlib.Logic.Function.Basic
import PulsarRuntime.Lib.Machine
import PulsarRuntime.Rpc.Wire

/-!
# One direction of a multiplexed connection

Many Fibers write to a multiplexed connection: on the client every `Channel::CallMethod`, on the
server every completed request (`MultiplexDoneClosure`).  Each takes the connection's write mutex,
looks whether the connection is closed, sends its frame with `Connection::WriteAll` and releases
the mutex.  `WriteAll` may stop at any byte: the socket reports an error, `Wait` times out, or the
connection is closed.  Neither writer closes the connection after a failed write, as the
non-multiplexed `CallMethod` does, so the next one goes on behind the torn frame.

`sent` is what the socket has been handed.  A call that finds the connection closed sends nothing
here; a client then connects anew, and that is another stream.
-/

namespace PulsarRuntime.Rpc

/-- Who writes in this direction. -/
inductive Side where
  | client
  | server
  deriving DecidableEq

inductive Message where
  | request (serviceName methodName args : List UInt8)
  | response (reqId : ℕ) (completion : Completion)

def Message.side : Message → Side
  | .request _ _ _ => .client
  | .response _ _ => .server

/-- Where a writer is; the points from `writing` to `leaving` are inside `WriteAll`. -/
inductive WriterPc where
  | waiting
  /-- holds the write mutex, `closed()` comes next -/
  | locked
  | entering
  | writing
  /-- in `Connection::Wait` -/
  | parked
  | leaving
  | finished
  | done
  deriving DecidableEq, Repr

/-- Between `lock` and `unlock`. -/
def WriterPc.critical : WriterPc → Bool
  | .waiting | .done => false
  | _ => true

structure Writer where
  frame : Frame
  /-- how much of the frame `WriteAll` has sent -/
  sent : ℕ
  pc : WriterPc

def Writer.size [HeaderCodec] (w : Writer) : ℕ := w.frame.bytes.length

structure Stream where
  nextRequestId : ℕ
  writers : ℕ → Writer
  count : ℕ
  /-- who holds the write mutex -/
  holder : Option ℕ
  /-- `writing_` of the connection -/
  writing : Bool
  closed : Bool
  sent : List UInt8

namespace Stream

variable (s : Stream)

def setWriter (k : ℕ) (w : Writer) : Stream := { s with writers := Function.update s.writers k w }

def setPc (k : ℕ) (pc : WriterPc) : Stream := s.setWriter k { s.writers k with pc := pc }

def addWriter (f : Frame) : Stream :=
  { s with
    writers := Function.update s.writers s.count ⟨f, 0, .waiting⟩
    count := s.count + 1 }

/-- `closed()`, under the write mutex. -/
def check (k : ℕ) : Stream := s.setPc k (if s.closed then .finished else .entering)

/-- The start of `WriteAll`. -/
def enter (k : ℕ) : Stream :=
  if s.writing then s.setPc k .finished
  else { s.setPc k .writing with writing := true }

variable [HeaderCodec]

/-- A message is framed: a request takes the next id, and may be turned down for its size. -/
def call : Message → Stream
  | .request serviceName methodName args =>
    let id := fetchRequestId s.nextRequestId
    let s := { s with nextRequestId := id.2 }
    match requestFrame serviceName methodName args id.1 with
    | none => s
    | some f => s.addWriter f
  | .response reqId completion => s.addWriter (responseFrame reqId completion)

/-- `send` takes `n` more bytes. -/
def send (k n : ℕ) : Stream :=
  let w := s.writers k
  let sent := w.sent + n
  { s.setWriter k { w with
      sent := sent
      pc := if sent = w.size then .leaving else .writing } with
    sent := s.sent ++ (w.frame.bytes.drop w.sent).take n }

end Stream

inductive StreamAction where
  | call (m : Message)
  | lock (k : ℕ)
  | check (k : ℕ)
  | enter (k : ℕ)
  | send (k n : ℕ)
  /-- the connection is closed, or `send` fails or takes nothing -/
  | fail (k : ℕ)
  /-- `EAGAIN` -/
  | block (k : ℕ)
  /-- `Wait` returns -/
  | wake (k : ℕ) (ready : Bool)
  | leave (k : ℕ)
  | unlock (k : ℕ)
  | close

/-- The write mutex admits one writer at a time. -/
def stream [HeaderCodec] (side : Side) : Machine Stream StreamAction where
  init s := s.count = 0 ∧ s.holder = none ∧ s.writing = false ∧ s.closed = false ∧ s.sent = []
  enabled s
    | .call m => m.side = side
    | .lock k => k < s.count ∧ (s.writers k).pc = .waiting ∧ s.holder = none
    | .check k => k < s.count ∧ (s.writers k).pc = .locked
    | .enter k => k < s.count ∧ (s.writers k).pc = .entering
    | .send k n => k < s.count ∧ (s.writers k).pc = .writing ∧ s.closed = false ∧ 0 < n ∧
        (s.writers k).sent + n ≤ (s.writers k).size
    | .fail k => k < s.count ∧ (s.writers k).pc = .writing
    | .block k => k < s.count ∧ (s.writers k).pc = .writing ∧ s.closed = false
    | .wake k _ => k < s.count ∧ (s.writers k).pc = .parked
    | .leave k => k < s.count ∧ (s.writers k).pc = .leaving
    | .unlock k => k < s.count ∧ (s.writers k).pc = .finished
    | .close => True
  next s
    | .call m => s.call m
    | .lock k => { s.setPc k .locked with holder := some k }
    | .check k => s.check k
    | .enter k => s.enter k
    | .send k n => s.send k n
    | .fail k => s.setPc k .leaving
    | .block k => s.setPc k .parked
    | .wake k ready => s.setPc k (if ready then .writing else .leaving)
    | .leave k => { s.setPc k .finished with writing := false }
    | .unlock k => { s.setPc k .done with holder := none }
    | .close => { s with closed := true }

instance [HeaderCodec] (side : Side) (s : Stream) (a : StreamAction) :
    Decidable ((stream side).enabled s a) := by
  rcases a <;> (dsimp only [stream]; infer_instance)

/-- A connection on which nothing has been sent. -/
def Stream.fresh : Stream where
  nextRequestId := 1
  writers := fun _ => ⟨⟨⟨[], [], 0, 0, []⟩, [], rfl⟩, 0, .waiting⟩
  count := 0
  holder := none
  writing := false
  closed := false
  sent := []

theorem Stream.fresh_init [HeaderCodec] (side : Side) : (stream side).init .fresh :=
  ⟨rfl, rfl, rfl, rfl, rfl⟩

end PulsarRuntime.Rpc
