import PulsarRuntime.Events.Model
import PulsarRuntime.Hook.Descriptor

/-!
# Hooked calls on a socket

`do_io` makes a system call on the descriptor.  If that would block, the Fiber arms a condition
timer, adds its event, yields, and after it has been resumed goes back to the system call, unless
the timer's callback has set `tinfo->cnacelled`.  `connect_with_timeout` does one such round and
asks the socket for the result.  `close` triggers the events of the descriptor, drops its context
and closes the number; the kernel may then give the number out again.

The steps are the calls of the system and the critical sections: the Fiber of a call, the callbacks
of its timers and the closing threads are at any point of their code, on any worker.  The event
table is that of `Events.Model`, here long enough for every descriptor, so that the context of a
descriptor has its number.
-/

namespace PulsarRuntime.Hook

open Events (Manager Caller EventContext FdContext Notification)

def EINTR : ℕ := 4
def EBADF : ℕ := 9
def EAGAIN : ℕ := 11
def ETIMEDOUT : ℕ := 110
def EINPROGRESS : ℕ := 115

/-- What a call returns, and what it leaves in `errno`. -/
structure Reply where
  n : ℤ
  errno : ℕ
  deriving DecidableEq

inductive IoKind where
  | doIo (event : Event) (timeoutSo : TimeoutType)
  | connect (timeoutMs : BitVec 64)
  deriving DecidableEq

namespace IoKind

def event : IoKind → Event
  | .doIo event _ => event
  | .connect _ => .write

/-- `accept`, `read`, `readv`, `recv`, `recvfrom`, `recvmsg` -/
def read : IoKind := .doIo .read .recv

/-- `write`, `writev`, `send`, `sendto`, `sendmsg` -/
def write : IoKind := .doIo .write .send

/-- The `errno` with which the call waits for the descriptor. -/
def again : IoKind → ℕ
  | .doIo _ _ => EAGAIN
  | .connect _ => EINPROGRESS

end IoKind

/-- Where a call is. -/
inductive IoPc where
  | called
  /-- the system call comes next, and its result is returned -/
  | direct
  /-- at `retry`: the system call comes next -/
  | trying
  /-- the system call would block -/
  | blocked
  /-- `addEvent` comes next -/
  | armed
  /-- `addEvent` has failed -/
  | failed (errno : ℕ)
  /-- the event is added, `yield` comes next -/
  | registered
  | parked
  | resumed
  /-- the timer is cancelled, a look at `tinfo->cnacelled` comes next -/
  | woken
  /-- `getsockopt` comes next -/
  | settling
  | returned (r : Reply)
  deriving DecidableEq

def IoPc.hasReturned : IoPc → Bool
  | .returned _ => true
  | _ => false

/-- A timer and its callback. -/
inductive CallbackPc where
  | off
  | armed
  /-- the timer has expired and its callback is scheduled -/
  | queued
  /-- the callback has got hold of `tinfo` -/
  | locked
  /-- the callback has set `tinfo->cnacelled`, `cancelEvent` comes next -/
  | marked
  | done
  deriving DecidableEq

structure IoOp where
  kind : IoKind
  fd : ℕ
  caller : Caller
  /-- `t_hook_enable` -/
  hook : Bool
  /-- `to`, or `timeout_ms` -/
  timeout : BitVec 64
  pc : IoPc
  /-- `tinfo->cnacelled` -/
  cancelled : ℕ
  /-- the timers by round -/
  timers : ℕ → CallbackPc
  rounds : ℕ
  /-- how many system calls were made on the descriptor -/
  syscalls : ℕ

namespace IoOp

def new (kind : IoKind) (fd : ℕ) (caller : Caller) (hook : Bool) : IoOp :=
  ⟨kind, fd, caller, hook, -1, .called, 0, fun _ => .off, 0, 0⟩

variable (op : IoOp)

def timed : Bool := op.timeout != -1

/-- What the event table keeps of the Fiber. -/
def context : EventContext := .of none op.caller

def setPc (pc : IoPc) : IoOp := { op with pc := pc }

def setTimer (t : ℕ) (pc : CallbackPc) : IoOp :=
  { op with timers := Function.update op.timers t pc }

/-- The call up to its system call. -/
def lookup (ctx : Option FdCtx) : IoOp :=
  if !op.hook then op.setPc .direct
  else match op.kind, ctx with
    | .doIo _ _, none => op.setPc .direct
    | .connect _, none => op.setPc (.returned ⟨-1, EBADF⟩)
    | kind, some c =>
      if c.isClosed then op.setPc (.returned ⟨-1, EBADF⟩)
      else if !c.isSocket || c.userNonblock then op.setPc .direct
      else { op with
        pc := .trying
        timeout := match kind with
          | .doIo _ timeoutSo => c.getTimeout timeoutSo
          | .connect timeoutMs => timeoutMs }

/-- `while (n == -1 && errno == EINTR)` is in `do_io` only. -/
def retries (r : Reply) : Bool :=
  match op.kind with
  | .doIo _ _ => r.n == -1 && r.errno == EINTR
  | .connect _ => false

/-- The system call is made. -/
def issue (r : Reply) : IoOp :=
  let op := { op with syscalls := op.syscalls + 1 }
  if op.pc = .direct then op.setPc (.returned r)
  else if op.retries r then op
  else if r.n = -1 ∧ r.errno = op.kind.again then op.setPc .blocked
  else op.setPc (.returned r)

/-- `addConditionTimer`, if there is a timeout. -/
def arm : IoOp :=
  { op.setTimer op.rounds (if op.timed then .armed else .off) with
    pc := .armed
    rounds := op.rounds + 1 }

/-- The timer of the round the call is in. -/
def current : CallbackPc := op.timers (op.rounds - 1)

/-- `timer->cancel()`: a callback that is scheduled already is not stopped. -/
def cancelTimer : IoOp :=
  if op.current = .armed then op.setTimer (op.rounds - 1) .off else op

/-- `addEvent` has failed. -/
def giveUp (errno : ℕ) : IoOp :=
  op.cancelTimer.setPc (match op.kind with
    | .doIo _ _ => .returned ⟨-1, errno⟩
    | .connect _ => .settling)

def check : IoOp :=
  if op.cancelled ≠ 0 then op.setPc (.returned ⟨-1, op.cancelled⟩)
  else match op.kind with
    | .doIo _ _ => op.setPc .trying
    | .connect _ => op.setPc .settling

/-- `getsockopt` answers `r`, and `error` is the state of the socket. -/
def settle (r : Reply) (error : ℕ) : IoOp :=
  { op with
    syscalls := op.syscalls + 1
    pc := .returned (if r.n = -1 then ⟨-1, r.errno⟩
      else if error = 0 then ⟨0, r.errno⟩
      else ⟨-1, error⟩) }

/-- The callback locks `winfo`, which fails once the call is over. -/
def lock (t : ℕ) : IoOp :=
  op.setTimer t (if op.pc.hasReturned then .done else .locked)

/-- The callback looks at `tinfo->cnacelled` and sets it. -/
def mark (t : ℕ) : IoOp :=
  if op.cancelled ≠ 0 then op.setTimer t .done
  else { op.setTimer t .marked with cancelled := ETIMEDOUT }

end IoOp

inductive ClosePc where
  | called
  /-- there is a context, `cancelAll` comes next -/
  | found
  /-- `FdManager::del` comes next -/
  | swept
  /-- `close_f` comes next -/
  | dropped
  | closed
  deriving DecidableEq

structure CloseOp where
  fd : ℕ
  /-- `t_hook_enable` -/
  hook : Bool
  /-- `IOManager::GetThis()` is not null -/
  iom : Bool
  pc : ClosePc

structure Hooks where
  descriptors : Descriptors
  events : Manager
  ops : ℕ → IoOp
  count : ℕ
  closes : ℕ → CloseOp
  closeCount : ℕ

namespace Hooks

variable (s : Hooks)

def setOp (k : ℕ) (op : IoOp) : Hooks := { s with ops := Function.update s.ops k op }

def setClose (c : ℕ) (pc : ClosePc) : Hooks :=
  { s with closes := Function.update s.closes c { s.closes c with pc := pc } }

/-- `addEvent`; `ok` and `errno` are what `epoll_ctl` answers. -/
def register (k : ℕ) (ok : Bool) (errno : ℕ) : Hooks :=
  let op := s.ops k
  let r := s.events.addEvent op.fd op.kind.event none op.caller ok
  { s.setOp k (op.setPc (if r.2 then .registered else .failed errno)) with events := r.1 }

/-- The scheduler runs the Fiber that is the `i`-th in its queues. -/
def resume (i k : ℕ) : Hooks :=
  { s.setOp k ((s.ops k).setPc .resumed) with
    events := { s.events with scheduled := s.events.scheduled.eraseIdx i } }

/-- The callback of a timer calls `cancelEvent`. -/
def cancelEvent (k t : ℕ) (ok : Bool) : Hooks :=
  let op := s.ops k
  { s.setOp k (op.setTimer t .done) with
    events := (s.events.cancelEvent op.fd op.kind.event ok).1 }

/-- Without hooks or without a context only `close_f` is left. -/
def closeLookup (c : ℕ) : Hooks :=
  let op := s.closes c
  s.setClose c (if op.hook && (s.descriptors.find op.fd).isSome then .found else .dropped)

def cancelAll (c : ℕ) (ok : Bool) : Hooks :=
  let op := s.closes c
  { s.setClose c .swept with
    events := if op.iom then (s.events.cancelAll op.fd ok).1 else s.events }

end Hooks

/-- The descriptor is not closed by the action. -/
def Action.keepsOpen : Action → Bool
  | .del _ | .closeF _ => false
  | _ => true

inductive IoAction where
  /-- `socket`, `fcntl`, `ioctl` or `setsockopt` -/
  | descriptor (a : Action)
  /-- an idle worker comes to an `epoll_event` -/
  | notify (n : Notification) (ok : Bool)
  | call (kind : IoKind) (fd : ℕ) (caller : Caller) (hook : Bool)
  | lookup (k : ℕ)
  | issue (k : ℕ) (r : Reply)
  | arm (k : ℕ)
  | register (k : ℕ) (ok : Bool) (errno : ℕ)
  | giveUp (k errno : ℕ)
  | yield (k : ℕ)
  | resume (i k : ℕ)
  | cancelTimer (k : ℕ)
  | check (k : ℕ)
  | settle (k : ℕ) (r : Reply) (error : ℕ)
  | expire (k t : ℕ)
  | lock (k t : ℕ)
  | mark (k t : ℕ)
  | cancelEvent (k t : ℕ) (ok : Bool)
  | close (fd : ℕ) (hook iom : Bool)
  | closeLookup (c : ℕ)
  | cancelAll (c : ℕ) (ok : Bool)
  | del (c : ℕ)
  | shut (c : ℕ)

/-- Any number of Fibers on workers of an `IOManager`, one call of a Fiber at a time, and any
number of closing threads. -/
def hooks (K : Kernel) : Machine Hooks IoAction where
  init s := (descriptors K).init s.descriptors ∧ (∀ p, s.events.contexts p = .new p) ∧
    s.events.scheduled = [] ∧ s.events.panicked = none ∧ s.count = 0 ∧ s.closeCount = 0
  enabled s a := s.events.panicked = none ∧ match a with
    | .descriptor a => (descriptors K).enabled s.descriptors a ∧ a.keepsOpen = true
    | .notify _ _ => True
    | .call _ _ caller _ => ∀ j < s.count, (s.ops j).caller.fiber = caller.fiber →
        (s.ops j).pc.hasReturned = true
    | .lookup k => k < s.count ∧ (s.ops k).pc = .called
    | .issue k _ => k < s.count ∧ ((s.ops k).pc = .direct ∨ (s.ops k).pc = .trying)
    | .arm k => k < s.count ∧ (s.ops k).pc = .blocked
    | .register k _ _ => k < s.count ∧ (s.ops k).pc = .armed
    | .giveUp k errno => k < s.count ∧ (s.ops k).pc = .failed errno
    | .yield k => k < s.count ∧ (s.ops k).pc = .registered
    | .resume i k => k < s.count ∧ (s.ops k).pc = .parked ∧
        s.events.scheduled[i]?.bind EventContext.fiber = some (s.ops k).caller.fiber
    | .cancelTimer k => k < s.count ∧ (s.ops k).pc = .resumed
    | .check k => k < s.count ∧ (s.ops k).pc = .woken
    | .settle k _ _ => k < s.count ∧ (s.ops k).pc = .settling
    | .expire k t => k < s.count ∧ (s.ops k).timers t = .armed
    | .lock k t => k < s.count ∧ (s.ops k).timers t = .queued
    | .mark k t => k < s.count ∧ (s.ops k).timers t = .locked
    | .cancelEvent k t _ => k < s.count ∧ (s.ops k).timers t = .marked
    | .close _ _ _ => True
    | .closeLookup c => c < s.closeCount ∧ (s.closes c).pc = .called
    | .cancelAll c _ => c < s.closeCount ∧ (s.closes c).pc = .found
    | .del c => c < s.closeCount ∧ (s.closes c).pc = .swept
    | .shut c => c < s.closeCount ∧ (s.closes c).pc = .dropped
  next s
    | .descriptor a => { s with descriptors := (descriptors K).next s.descriptors a }
    | .notify n ok => { s with events := s.events.notify n ok }
    | .call kind fd caller hook => { s with
        ops := Function.update s.ops s.count (.new kind fd caller hook)
        count := s.count + 1 }
    | .lookup k => s.setOp k ((s.ops k).lookup (s.descriptors.find (s.ops k).fd))
    | .issue k r => s.setOp k ((s.ops k).issue r)
    | .arm k => s.setOp k (s.ops k).arm
    | .register k ok errno => s.register k ok errno
    | .giveUp k errno => s.setOp k ((s.ops k).giveUp errno)
    | .yield k => s.setOp k ((s.ops k).setPc .parked)
    | .resume i k => s.resume i k
    | .cancelTimer k => s.setOp k ((s.ops k).cancelTimer.setPc .woken)
    | .check k => s.setOp k (s.ops k).check
    | .settle k r error => s.setOp k ((s.ops k).settle r error)
    | .expire k t => s.setOp k ((s.ops k).setTimer t .queued)
    | .lock k t => s.setOp k ((s.ops k).lock t)
    | .mark k t => s.setOp k ((s.ops k).mark t)
    | .cancelEvent k t ok => s.cancelEvent k t ok
    | .close fd hook iom => { s with
        closes := Function.update s.closes s.closeCount ⟨fd, hook, iom, .called⟩
        closeCount := s.closeCount + 1 }
    | .closeLookup c => s.closeLookup c
    | .cancelAll c ok => s.cancelAll c ok
    | .del c => { s.setClose c .dropped with descriptors := s.descriptors.del (s.closes c).fd }
    | .shut c => { s.setClose c .closed with descriptors := s.descriptors.closeF (s.closes c).fd }

instance (K : Kernel) (s : Hooks) (a : IoAction) : Decidable ((hooks K).enabled s a) := by
  rcases a <;> (dsimp only [hooks]; infer_instance)

/-- Nothing is open and nobody calls. -/
def Hooks.fresh : Hooks where
  descriptors := .fresh
  events := .fresh
  ops := fun _ => .new .read 0 Events.reader false
  count := 0
  closes := fun _ => ⟨0, false, false, .called⟩
  closeCount := 0

theorem hooks_init_fresh (K : Kernel) : (hooks K).init .fresh :=
  ⟨rfl, fun _ => rfl, rfl, rfl, rfl, rfl⟩

end PulsarRuntime.Hook
