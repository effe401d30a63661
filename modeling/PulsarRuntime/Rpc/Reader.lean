import PulsarRuntime.Lib.Machine
import PulsarRuntime.Rpc.Decode

/-!
# The loops that read frames, with deadlines

`Provider::State::Handle` and `Channel::State::ReaderLoop` read frames in the same three steps, the
size of the header, the header and the body.  They differ in their timeouts, in what they do when
the size does not come in time, and in their check of the size of the body; `Loop` has these as
parameters.  A step of a loop ends where it has allocated the buffer of the next read.  Everything
else that makes a loop end (a shutdown, a `Close`, a refused reservation, a failed write) is the
step `stop`, which can come at any time.
-/

namespace PulsarRuntime.Rpc.Timed

/-- In what the loops differ. -/
structure Loop where
  sizeTimeout : Option ℕ
  bodyTimeout : Option ℕ
  /-- goes on when the size has not come in time -/
  retries : Bool
  /-- the check of the header size and `args_size` -/
  admits : ℕ → ℕ → Bool

/-- `Provider::State::Handle` -/
def handle (requestTimeout : Option ℕ) : Loop :=
  ⟨requestTimeout, requestTimeout, false, argsAccepted⟩

/-- `Channel::State::ReaderLoop` -/
def readerLoop : Loop := ⟨some 60000, some 10000, true, fun _ _ => true⟩

/-- What is read next, into which buffer. -/
inductive Pc where
  | size
  /-- `header_data` is allocated -/
  | header (size : ℕ)
  /-- `args`, or `payload`, of `args_size` bytes is allocated -/
  | body (header : RpcHeader)
  | stopped

structure Reader where
  stream : Socket
  pc : Pc
  received : List (RpcHeader × List UInt8)

namespace Reader

variable (s : Reader)

def stop : Reader := { s with pc := .stopped }

variable (L : Loop) (parse : List UInt8 → Option RpcHeader)

/-- `ReadVarint32` and the check of the header size. -/
def readSize : Reader :=
  match readVarint32 L.sizeTimeout s.stream with
  | .ok n rest => if headerAccepted n then ⟨rest, .header n, s.received⟩ else s.stop
  | .timedOut rest => if L.retries then { s with stream := rest } else s.stop
  | .failed _ => s.stop

def readHeader (n : ℕ) : Reader :=
  match readExact n L.bodyTimeout s.stream with
  | .ok data rest =>
    match parse data with
    | some h => if L.admits n h.argsSize then ⟨rest, .body h, s.received⟩ else s.stop
    | none => s.stop
  | _ => s.stop

def readBody (h : RpcHeader) : Reader :=
  match readExact h.argsSize L.bodyTimeout s.stream with
  | .ok data rest => ⟨rest, .size, s.received ++ [(h, data)]⟩
  | _ => s.stop

def read : Reader :=
  match s.pc with
  | .size => s.readSize L
  | .header n => s.readHeader L parse n
  | .body h => s.readBody L h
  | .stopped => s

end Reader

inductive ReaderAction where
  | read
  | stop

/-- A loop on a connection, for every stream. -/
def reading (L : Loop) (parse : List UInt8 → Option RpcHeader) : Machine Reader ReaderAction where
  init s := s.pc = .size ∧ s.received = []
  enabled _ _ := True
  next s
    | .read => s.read L parse
    | .stop => s.stop

instance (L : Loop) (parse : List UInt8 → Option RpcHeader) (s : Reader) (a : ReaderAction) :
    Decidable ((reading L parse).enabled s a) := isTrue trivial

/-- A parser that knows these headers. -/
def knows [HeaderCodec] (headers : List RpcHeader) (data : List UInt8) : Option RpcHeader :=
  headers.find? fun h => h.serialize == data

theorem knows_head [HeaderCodec] (h : RpcHeader) (headers : List RpcHeader) :
    knows (h :: headers) h.serialize = some h := by
  simp only [knows, List.find?_cons, beq_self_eq_true]

end PulsarRuntime.Rpc.Timed
