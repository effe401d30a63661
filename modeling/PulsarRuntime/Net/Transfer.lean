import Mathlib.Data.List.Infix
import Mathlib.Data.List.TakeDrop
import PulsarRuntime.Lib.Family
import PulsarRuntime.Net.Wait

/-!
# Exact transfers over a connection

`ReadSome`, `ReadExact` and `WriteAll` take `reading_` or `writing_`, move bytes in a loop of `recv`
or `send`, and clear the flag.  Any number of calls on one connection interleave here, with
`Close`; the steps are the critical sections of `mutex_`, and what `recv`, `send` and `Wait` answer
is chosen by the environment.

A call keeps the buffer as it was at the call and as it is now, and a log of its system calls:
what they asked for and the bytes they moved.
-/

namespace PulsarRuntime.Net.Transfers

def EBADF : ℤ := 9

def EBUSY : ℤ := 16

def EPIPE : ℤ := 32

def ECONNRESET : ℤ := 104

inductive Kind where
  | readSome
  | readExact
  | writeAll
  deriving DecidableEq, Repr

/-- The flag of a call: `reading_` or `writing_`. -/
def Kind.event : Kind → Event
  | .readSome | .readExact => .read
  | .writeAll => .write

/-- What a call returns: a `bool`, or the `ssize_t` of `ReadSome`. -/
inductive Value where
  | ok (b : Bool)
  | count (n : ℤ)
  deriving DecidableEq, Repr

/-- What a call returns that finds the flag up. -/
def Kind.refusal : Kind → Value
  | .readSome => .count (-1)
  | _ => .ok false

inductive Pc where
  | called
  /-- about to enter the critical section of `recv` or `send` -/
  | trying
  /-- inside `Wait` -/
  | waiting
  /-- out of the loop, about to clear the flag -/
  | leaving
  | returned (v : Value)
  deriving DecidableEq, Repr

/-- The flag is held. -/
def Pc.active : Pc → Bool
  | .trying | .waiting | .leaving => true
  | _ => false

/-- A `recv` or `send`: the part of the buffer it was given, and the bytes it moved. -/
structure Request where
  offset : ℕ
  length : ℕ
  bytes : List UInt8

structure Transfer where
  kind : Kind
  /-- the buffer at the call; its length is `size` or `capacity` -/
  initial : List UInt8
  buffer : List UInt8
  /-- `received` or `sent` -/
  moved : ℕ
  /-- the result of `DoRead` -/
  result : ℤ
  errno : ℤ
  /-- the call was not refused with `EBUSY` -/
  admitted : Bool
  log : List Request
  pc : Pc

/-- What `recv` or `send` answers. -/
inductive Outcome where
  /-- `recv`: a positive count -/
  | received (bytes : List UInt8)
  /-- `send`: a positive count -/
  | sent (count : ℕ)
  | zero
  /-- `EINTR` -/
  | interrupted
  /-- `EAGAIN` or `EWOULDBLOCK` -/
  | again
  | error (e : ℤ)

namespace Transfer

variable (t : Transfer)

def size : ℕ := t.initial.length

/-- The bytes moved so far. -/
def transferred : List UInt8 := t.log.flatMap Request.bytes

/-- `while (received < size)`; `DoRead` has the same test for no capacity. -/
def head : Transfer :=
  { t with pc := if t.moved < t.size then .trying else .leaving }

/-- A system call for the rest of the buffer. -/
def request (bytes : List UInt8) : Transfer :=
  { t with log := t.log ++ [⟨t.moved, t.size - t.moved, bytes⟩] }

def fail (errno : ℤ) : Transfer :=
  { t with errno := errno, result := -1, pc := .leaving }

/-- The bytes of a `recv`, stored at `buffer + received`. -/
def store (bytes : List UInt8) : Transfer :=
  { t with
    buffer := t.buffer.take t.moved ++ bytes ++ t.buffer.drop (t.moved + bytes.length)
    moved := t.moved + bytes.length
    result := bytes.length }

/-- One `recv` of `DoRead`, and what `ReadSome` and `ReadExact` make of the result. -/
def recv : Outcome → Transfer
  | .received bytes =>
      let t := (t.request bytes).store bytes
      if t.kind = .readSome then { t with pc := .leaving } else t.head
  | .zero =>
      let t := { t.request [] with result := 0, pc := .leaving }
      if t.kind = .readSome then t else { t with errno := ECONNRESET }
  | .interrupted => t.request []
  | .again => { t.request [] with pc := .waiting }
  | .error e => (t.request []).fail e
  | .sent _ => t

/-- One `send` of `WriteAll`. -/
def send : Outcome → Transfer
  | .sent count =>
      let t := t.request ((t.buffer.drop t.moved).take count)
      { t with moved := t.moved + count }.head
  | .zero => { t.request [] with errno := EPIPE, pc := .leaving }
  | .interrupted => t.request []
  | .again => { t.request [] with pc := .waiting }
  | .error e => (t.request []).fail e
  | .received _ => t

/-- The value at the end. -/
def value : Value :=
  match t.kind with
  | .readSome => .count t.result
  | _ => .ok (decide (t.moved = t.size))

/-- A positive count does not exceed what was asked for. -/
def Answers : Outcome → Prop
  | .received bytes => t.kind.event = .read ∧ bytes ≠ [] ∧ bytes.length ≤ t.size - t.moved
  | .sent count => t.kind.event = .write ∧ 0 < count ∧ count ≤ t.size - t.moved
  | _ => True

instance (t : Transfer) (o : Outcome) : Decidable (t.Answers o) := by
  rcases o <;> (dsimp only [Answers]; infer_instance)

end Transfer

structure Connection where
  closed : Bool
  /-- `reading_` and `writing_` -/
  busy : Event → Bool
  calls : ℕ → Transfer
  count : ℕ

namespace Connection

variable (s : Connection)

def setCall (c : ℕ) (t : Transfer) : Connection :=
  { s with calls := Function.update s.calls c t }

def call (kind : Kind) (buffer : List UInt8) : Connection :=
  { s.setCall s.count ⟨kind, buffer, buffer, 0, 0, 0, false, [], .called⟩ with
    count := s.count + 1 }

/-- The first critical section. -/
def take (c : ℕ) : Connection :=
  let t := s.calls c
  if s.busy t.kind.event then
    s.setCall c { t with errno := EBUSY, pc := .returned t.kind.refusal }
  else
    { s.setCall c { t with admitted := true }.head with
      busy := Function.update s.busy t.kind.event true }

/-- The critical section in the loop. -/
def attempt (c : ℕ) (o : Outcome) : Connection :=
  let t := s.calls c
  if s.closed then s.setCall c (t.fail EBADF)
  else if t.kind.event = .read then s.setCall c (t.recv o)
  else s.setCall c (t.send o)

/-- `Wait` returns true, or false with an `errno`. -/
def waited (c : ℕ) (error : Option ℤ) : Connection :=
  let t := s.calls c
  match error with
  | none => s.setCall c { t with pc := .trying }
  | some e => s.setCall c (t.fail e)

/-- The last critical section. -/
def leave (c : ℕ) : Connection :=
  let t := s.calls c
  { s.setCall c { t with pc := .returned t.value } with
    busy := Function.update s.busy t.kind.event false }

end Connection

inductive Action where
  | call (kind : Kind) (buffer : List UInt8)
  | take (c : ℕ)
  | attempt (c : ℕ) (o : Outcome)
  | waited (c : ℕ) (error : Option ℤ)
  | leave (c : ℕ)
  | close

/-- Every interleaving of any number of calls with `Close`. -/
def connection : Machine Connection Action where
  init s := s.closed = false ∧ s.busy = (fun _ => false) ∧ s.count = 0
  enabled s
    | .call _ _ => True
    | .take c => c < s.count ∧ (s.calls c).pc = .called
    | .attempt c o => c < s.count ∧ (s.calls c).pc = .trying ∧ (s.calls c).Answers o
    | .waited c _ => c < s.count ∧ (s.calls c).pc = .waiting
    | .leave c => c < s.count ∧ (s.calls c).pc = .leaving
    | .close => True
  next s
    | .call kind buffer => s.call kind buffer
    | .take c => s.take c
    | .attempt c o => s.attempt c o
    | .waited c error => s.waited c error
    | .leave c => s.leave c
    | .close => { s with closed := true }

instance (s : Connection) (a : Action) : Decidable (connection.enabled s a) := by
  rcases a <;> (dsimp only [connection]; infer_instance)

end PulsarRuntime.Net.Transfers
