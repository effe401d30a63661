import Mathlib.Logic.Function.Basic
import PulsarRuntime.Lib.Machine
import PulsarRuntime.Rpc.Wire

/-!
# Calls on a channel that is not multiplexed

Such a channel has a fixed number of slots.  `CallMethod` takes the first slot that is not busy, or
fails; it connects if the slot has no open connection, sends its request, reads the response and
gives the slot back, with the connection if all went well and without it otherwise.  The connection
of a slot is used by one call after the other, and nothing in a response says to which request it
belongs.

The peer answers each complete request on a connection with one response frame, in order: the
length of the body in network byte order and the body.  It may do so at any time, also when nobody
waits for the response any more.  What it has sent and the client has not read is in `inbox`.
-/

namespace PulsarRuntime.Rpc.Slots

/-- `htonl`, as bytes. -/
def be32 (n : ℕ) : List UInt8 :=
  [UInt8.ofNat (n / 2 ^ 24), UInt8.ofNat (n / 2 ^ 16), UInt8.ofNat (n / 2 ^ 8), UInt8.ofNat n]

/-- `ntohl`. -/
def ofBe32 (bytes : List UInt8) : ℕ := bytes.foldl (fun n b => n * 256 + b.toNat) 0

/-- A response frame. -/
def responseBytes (body : List UInt8) : List UInt8 := be32 body.length ++ body

/-- The errors of `CallMethod`, in the order in which they can occur. -/
inductive Failure where
  | overloaded
  /-- not in a Fiber of the channel's IOManager -/
  | wrongFiber
  /-- request or header cannot be serialized or is too large -/
  | tooLarge
  | connect
  | send
  | readLength
  /-- the response exceeds 64 MiB -/
  | oversized
  | readBody
  | parse
  deriving DecidableEq

structure Conn where
  closed : Bool
  /-- the calls whose requests have been sent completely -/
  requests : List ℕ
  /-- the bodies of the responses -/
  responses : List (List UInt8)
  inbox : List UInt8

structure Slot where
  busy : Bool
  conn : Option ℕ
  /-- the call that has the slot -/
  user : Option ℕ

/-- Where a call is. -/
inductive Pc where
  | entered
  /-- has a slot -/
  | acquired
  | connecting
  /-- in `WriteAll`, which has sent so many bytes -/
  | sending (sent : ℕ)
  /-- in `ReadExact` of the length -/
  | readingLength (got : List UInt8)
  | readingBody (length : ℕ) (got : List UInt8)
  | parsing (payload : List UInt8)
  /-- the slot is to be given back -/
  | finished (success : Bool)
  | returned
  deriving DecidableEq

structure Call where
  pc : Pc
  /-- the bytes of `frame`, or why there is none -/
  request : Except Failure (List UInt8)
  slot : ℕ
  error : Option Failure
  /-- what was given to `ParseFromArray` -/
  parsed : Option (List UInt8)
  written : ℕ
  acquisitions : ℕ
  releases : ℕ

structure Channel where
  limit : ℕ
  slots : ℕ → Slot
  calls : ℕ → Call
  count : ℕ
  conns : ℕ → Conn
  connCount : ℕ

namespace Channel

variable (s : Channel) (k : ℕ)

def setCall (c : Call) : Channel := { s with calls := Function.update s.calls k c }

def setPc (pc : Pc) : Channel := s.setCall k { s.calls k with pc := pc }

def setSlot (i : ℕ) (sl : Slot) : Channel := { s with slots := Function.update s.slots i sl }

def setConn (c : ℕ) (cn : Conn) : Channel := { s with conns := Function.update s.conns c cn }

/-- `Fail` and `return false`. -/
def fail (f : Failure) : Channel :=
  s.setCall k { s.calls k with pc := .finished false, error := some f }

/-- The slot of a call. -/
def slotOf : Slot := s.slots (s.calls k).slot

/-- The search for a slot, under the channel's mutex. -/
def acquire : Channel :=
  match (List.range s.limit).find? fun i => !(s.slots i).busy with
  | none => s.setCall k { s.calls k with pc := .returned, error := some .overloaded }
  | some i =>
    (s.setSlot i { s.slots i with busy := true, user := some k }).setCall k { s.calls k with
      pc := .acquired
      slot := i
      acquisitions := (s.calls k).acquisitions + 1 }

/-- Builds the frame and looks at the slot's connection. -/
def prepare : Channel :=
  match (s.calls k).request with
  | .error f => s.fail k f
  | .ok _ =>
    match (s.slotOf k).conn with
    | none => s.setPc k .connecting
    | some c => s.setPc k (if (s.conns c).closed then .connecting else .sending 0)

/-- `Connect` returns. -/
def connect (ok : Bool) : Channel :=
  if ok then
    { (s.setSlot (s.calls k).slot { s.slotOf k with conn := some s.connCount }).setPc k
        (.sending 0) with
      conns := Function.update s.conns s.connCount ⟨false, [], [], []⟩
      connCount := s.connCount + 1 }
  else (s.setSlot (s.calls k).slot { s.slotOf k with conn := none }).fail k .connect

/-- The length of the frame of a call. -/
def frameLength : ℕ :=
  match (s.calls k).request with
  | .error _ => 0
  | .ok frame => frame.length

/-- `send` takes `n` more bytes of the frame. -/
def write (k n : ℕ) : Channel :=
  match (s.calls k).pc, (s.slotOf k).conn with
  | .sending sent, some c =>
    let call := { s.calls k with written := (s.calls k).written + n }
    if sent + n = s.frameLength k then
      (s.setConn c { s.conns c with requests := (s.conns c).requests ++ [k] }).setCall k
        { call with pc := .readingLength [] }
    else s.setCall k { call with pc := .sending (sent + n) }
  | _, _ => s

/-- `recv` gives `n` more bytes. -/
def read (k n : ℕ) : Channel :=
  match (s.slotOf k).conn with
  | none => s
  | some c =>
    let data := (s.conns c).inbox.take n
    let s' := s.setConn c { s.conns c with inbox := (s.conns c).inbox.drop n }
    match (s.calls k).pc with
    | .readingLength got => s'.setPc k (.readingLength (got ++ data))
    | .readingBody length got => s'.setPc k (.readingBody length (got ++ data))
    | _ => s

/-- The length has been read: it is checked, and the body comes next. -/
def checkLength : Channel :=
  match (s.calls k).pc with
  | .readingLength got =>
    if ofBe32 got > kMaxMessage then s.fail k .oversized
    else s.setPc k (.readingBody (ofBe32 got) [])
  | _ => s

/-- The body has been read. -/
def body : Channel :=
  match (s.calls k).pc with
  | .readingBody _ got => s.setPc k (.parsing got)
  | _ => s

/-- `ParseFromArray`. -/
def parse (ok : Bool) : Channel :=
  match (s.calls k).pc with
  | .parsing payload =>
    let call := { s.calls k with parsed := some payload }
    if ok then s.setCall k { call with pc := .finished true }
    else s.setCall k { call with pc := .finished false, error := some .parse }
  | _ => s

/-- The slot is given back, under the channel's mutex. -/
def release : Channel :=
  let call := { s.calls k with pc := .returned, releases := (s.calls k).releases + 1 }
  match (s.calls k).pc, (s.slotOf k).conn with
  | .finished false, some c =>
    ((s.setConn c { s.conns c with closed := true }).setSlot (s.calls k).slot
      ⟨false, none, none⟩).setCall k call
  | _, conn => (s.setSlot (s.calls k).slot ⟨false, conn, none⟩).setCall k call

/-- The peer answers the next request on connection `c`. -/
def answer (c : ℕ) (body : List UInt8) : Channel :=
  s.setConn c { s.conns c with
    responses := (s.conns c).responses ++ [body]
    inbox := (s.conns c).inbox ++ responseBytes body }

end Channel

inductive Action where
  | call (request : Except Failure (List UInt8))
  | acquire (k : ℕ)
  | prepare (k : ℕ)
  | connect (k : ℕ) (ok : Bool)
  | write (k n : ℕ)
  /-- timeout, or the connection is lost -/
  | sendFailed (k : ℕ)
  | read (k n : ℕ)
  /-- likewise, or the peer has closed -/
  | readFailed (k : ℕ)
  | checkLength (k : ℕ)
  | body (k : ℕ)
  | parse (k : ℕ) (ok : Bool)
  | release (k : ℕ)
  | answer (c : ℕ) (body : List UInt8)

/-- How many bytes `ReadExact` has still to get. -/
def Pc.wanted : Pc → ℕ
  | .readingLength got => 4 - got.length
  | .readingBody length got => length - got.length
  | _ => 0

def Pc.isReading : Pc → Bool
  | .readingLength _ | .readingBody _ _ => true
  | _ => false

/-- `ReadExact` of the length is complete. -/
def Pc.hasLength : Pc → Bool
  | .readingLength got => got.length = 4
  | _ => false

/-- `ReadExact` of the body is complete. -/
def Pc.hasBody : Pc → Bool
  | .readingBody length got => got.length = length
  | _ => false

def Pc.isSending : Pc → Bool
  | .sending _ => true
  | _ => false

def Pc.isParsing : Pc → Bool
  | .parsing _ => true
  | _ => false

def Pc.isFinished : Pc → Bool
  | .finished _ => true
  | _ => false

/-- The bytes of the frame that are still to be sent. -/
def Channel.unsent (s : Channel) (k : ℕ) : ℕ :=
  match (s.calls k).pc with
  | .sending sent => s.frameLength k - sent
  | _ => 0

/-- The bytes that the call can read now. -/
def Channel.available (s : Channel) (k : ℕ) : ℕ :=
  match (s.slotOf k).conn with
  | none => 0
  | some c => (s.conns c).inbox.length

/-- Where the read fails. -/
def Pc.readFailure : Pc → Failure
  | .readingLength _ => .readLength
  | _ => .readBody

/-- Every interleaving of calls on one channel with a peer that answers in order. -/
def channel : Machine Channel Action where
  init s := s.count = 0 ∧ s.connCount = 0 ∧
    ∀ i < s.limit, (s.slots i).busy = false ∧ (s.slots i).conn = none ∧ (s.slots i).user = none
  enabled s
    | .call request => match request with
      | .error f => f = .wrongFiber ∨ f = .tooLarge
      | .ok _ => True
    | .acquire k => k < s.count ∧ (s.calls k).pc = .entered
    | .prepare k => k < s.count ∧ (s.calls k).pc = .acquired
    | .connect k _ => k < s.count ∧ (s.calls k).pc = .connecting
    | .write k n => k < s.count ∧ (s.calls k).pc.isSending = true ∧ 0 < n ∧ n ≤ s.unsent k
    | .sendFailed k => k < s.count ∧ (s.calls k).pc.isSending = true
    | .read k n => k < s.count ∧ (s.calls k).pc.isReading = true ∧ 0 < n ∧
        n ≤ (s.calls k).pc.wanted ∧ n ≤ s.available k
    | .readFailed k => k < s.count ∧ (s.calls k).pc.isReading = true ∧ 0 < (s.calls k).pc.wanted
    | .checkLength k => k < s.count ∧ (s.calls k).pc.hasLength = true
    | .body k => k < s.count ∧ (s.calls k).pc.hasBody = true
    | .parse k _ => k < s.count ∧ (s.calls k).pc.isParsing = true
    | .release k => k < s.count ∧ (s.calls k).pc.isFinished = true
    | .answer c body => c < s.connCount ∧
        (s.conns c).responses.length < (s.conns c).requests.length ∧ body.length < 2 ^ 32
  next s
    | .call request => { s with
        calls := Function.update s.calls s.count ⟨.entered, request, 0, none, none, 0, 0, 0⟩
        count := s.count + 1 }
    | .acquire k => s.acquire k
    | .prepare k => s.prepare k
    | .connect k ok => s.connect k ok
    | .write k n => s.write k n
    | .sendFailed k => s.fail k .send
    | .read k n => s.read k n
    | .readFailed k => s.fail k (s.calls k).pc.readFailure
    | .checkLength k => s.checkLength k
    | .body k => s.body k
    | .parse k ok => s.parse k ok
    | .release k => s.release k
    | .answer c body => s.answer c body

instance (s : Channel) (a : Action) : Decidable (channel.enabled s a) := by
  induction a using Action.casesOn with
  | call request => rcases request <;> (dsimp only [channel]; infer_instance)
  | _ => dsimp only [channel]; infer_instance

/-- A channel with `limit` slots that has not been used. -/
def Channel.fresh (limit : ℕ) : Channel where
  limit := limit
  slots := fun _ => ⟨false, none, none⟩
  calls := fun _ => ⟨.entered, .error .tooLarge, 0, none, none, 0, 0, 0⟩
  count := 0
  conns := fun _ => ⟨false, [], [], []⟩
  connCount := 0

theorem channel_init_fresh (limit : ℕ) : channel.init (.fresh limit) := by
  simp [channel, Channel.fresh]

end PulsarRuntime.Rpc.Slots
