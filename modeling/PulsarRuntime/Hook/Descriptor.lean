import Mathlib.Data.Nat.Notation
import Mathlib.Logic.Function.Basic
import PulsarRuntime.Lib.Machine
import PulsarRuntime.Lib.Vector

/-!
# Descriptors under the hooks

A socket is in non-blocking mode in the kernel from the moment `FdManager` makes its `FdCtx`, and
the mode the user has asked for is kept in that context.  The hooked `fcntl` and `ioctl` work on
both.

The kernel is a table of open files.  Numbers are what `socket` and `accept` return, so none is
negative; `-1` is the word of ones.  `FdManager` is a vector of contexts.  A hooked `close` drops
the context and then closes the number; on a thread without hooks it only closes the number.
-/

namespace PulsarRuntime.Hook

/-! ### The kernel's side -/

def O_NONBLOCK : BitVec 32 := 0x800

/-- `flags & O_NONBLOCK`, as a condition. -/
def nonblocking (flags : BitVec 32) : Bool := flags &&& O_NONBLOCK != 0

/-- What `fstat` and `F_GETFL` tell about an open file. -/
structure File where
  isSocket : Bool
  flags : BitVec 32
  deriving DecidableEq

/-- How `F_SETFL` works: it replaces the settable flags, unless the request is refused.  To add
`O_NONBLOCK` to the flags a file has is not refused. -/
structure Kernel where
  settable : BitVec 32
  refuses : File → BitVec 32 → Bool
  nonblock_settable : nonblocking settable = true
  nonblock_granted : ∀ f : File, refuses f (f.flags ||| O_NONBLOCK) = false

/-- The open files by number. -/
abbrev Files := ℕ → Option File

/-- `fcntl_f(fd, F_GETFL)` -/
def Files.getFl (files : Files) (fd : ℕ) : BitVec 32 :=
  match files fd with
  | none => -1
  | some f => f.flags

/-- `fcntl_f(fd, F_SETFL, arg)` -/
def Files.setFl (K : Kernel) (files : Files) (fd : ℕ) (arg : BitVec 32) : Files × BitVec 32 :=
  match files fd with
  | none => (files, -1)
  | some f =>
    if K.refuses f arg then (files, -1)
    else
      (Function.update files fd
        (some { f with flags := (f.flags &&& ~~~K.settable) ||| (arg &&& K.settable) }), 0)

/-- `ioctl_f(fd, FIONBIO, &value)` -/
def Files.fionbio (files : Files) (fd : ℕ) (value : BitVec 32) : Files × BitVec 32 :=
  match files fd with
  | none => (files, -1)
  | some f =>
    (Function.update files fd (some { f with
      flags := if value = 0 then f.flags &&& ~~~O_NONBLOCK else f.flags ||| O_NONBLOCK }), 0)

/-! ### `FdCtx` and `FdManager` -/

/-- `SO_RCVTIMEO` or `SO_SNDTIMEO` -/
inductive TimeoutType where
  | recv
  | send
  deriving DecidableEq

structure FdCtx where
  isInit : Bool
  isSocket : Bool
  sysNonblock : Bool
  userNonblock : Bool
  isClosed : Bool
  fd : ℕ
  recvTimeout : BitVec 64
  sendTimeout : BitVec 64
  deriving DecidableEq

namespace FdCtx

/-- The fields before `init` is called. -/
def blank (fd : ℕ) : FdCtx := ⟨false, false, false, false, false, fd, -1, -1⟩

def init (K : Kernel) (files : Files) (c : FdCtx) : FdCtx × Files :=
  if c.isInit then (c, files)
  else
    let isSocket := (files c.fd).any File.isSocket
    let flags := files.getFl c.fd
    ({ c with
        recvTimeout := -1
        sendTimeout := -1
        isInit := (files c.fd).isSome
        isSocket := isSocket
        sysNonblock := isSocket
        userNonblock := false
        isClosed := false },
      if isSocket && !nonblocking flags then (files.setFl K c.fd (flags ||| O_NONBLOCK)).1
      else files)

/-- The constructor. -/
def new (K : Kernel) (files : Files) (fd : ℕ) : FdCtx × Files := (blank fd).init K files

def setTimeout (c : FdCtx) (type : TimeoutType) (v : BitVec 64) : FdCtx :=
  match type with
  | .recv => { c with recvTimeout := v }
  | .send => { c with sendTimeout := v }

def getTimeout (c : FdCtx) : TimeoutType → BitVec 64
  | .recv => c.recvTimeout
  | .send => c.sendTimeout

/-- The hooked calls leave such a descriptor to the system. -/
def unmanaged (c : FdCtx) : Bool := c.isClosed || !c.isSocket

end FdCtx

/-- A call that sets the mode of a descriptor. -/
inductive ModeCall where
  | setFl (arg : BitVec 32)
  | fionbio (value : BitVec 32)
  deriving DecidableEq

/-- The mode it asks for. -/
def ModeCall.nonblocking : ModeCall → Bool
  | .setFl arg => Hook.nonblocking arg
  | .fionbio value => value != 0

/-- The mode the last of the calls asks for; at first a socket is blocking. -/
def asked (calls : List ModeCall) : Bool := (calls.getLast?.map ModeCall.nonblocking).getD false

structure Descriptors where
  files : Files
  /-- `FdManager::m_datas` -/
  datas : Slots FdCtx
  /-- the mode calls made on the number since it was opened -/
  modes : ℕ → List ModeCall

namespace Descriptors

variable (s : Descriptors) (fd : ℕ)

/-- `FdManager::get(fd)`. -/
def find : Option FdCtx := s.datas.slot fd

def setCtx (c : FdCtx) : Descriptors :=
  { s with datas := s.datas.set fd (some c) }

variable (K : Kernel)

/-- `FdManager::get` under the write lock. -/
def create (s : Descriptors) (fd : ℕ) : Descriptors :=
  let r := FdCtx.new K s.files fd
  { s with
    files := r.2
    datas := (s.datas.reserve fd (fd * 3 / 2)).set fd (some r.1) }

/-- `FdManager::get(fd, true)`. -/
def ensure (s : Descriptors) (fd : ℕ) : Descriptors :=
  match s.find fd with
  | some _ => s
  | none => s.create K fd

/-- `FdManager::del`. -/
def del : Descriptors := { s with datas := s.datas.set fd none }

/-- `close_f` -/
def closeF : Descriptors :=
  { s with files := Function.update s.files fd none }

/-- The kernel opens a file. -/
def openF (f : File) : Descriptors :=
  { s with
    files := Function.update s.files fd (some f)
    modes := Function.update s.modes fd [] }

def log (c : ModeCall) : Descriptors :=
  { s with modes := Function.update s.modes fd (s.modes fd ++ [c]) }

def setFlF (s : Descriptors) (fd : ℕ) (arg : BitVec 32) : Descriptors × BitVec 32 :=
  let r := s.files.setFl K fd arg
  ({ s with files := r.1 }, r.2)

def fionbioF (value : BitVec 32) : Descriptors × BitVec 32 :=
  let r := s.files.fionbio fd value
  ({ s with files := r.1 }, r.2)

/-! ### The hooked calls -/

/-- `socket`, and what `accept` does with the number it got. -/
def socket (s : Descriptors) (hook : Bool) (fd : ℕ) (flags : BitVec 32) : Descriptors :=
  let s := s.openF fd ⟨true, flags⟩
  if hook then s.ensure K fd else s

/-- `fcntl(fd, F_SETFL, arg)` -/
def fcntlSetFl (s : Descriptors) (fd : ℕ) (arg : BitVec 32) : Descriptors × BitVec 32 :=
  match s.find fd with
  | none => s.setFlF K fd arg
  | some c =>
    if c.unmanaged then s.setFlF K fd arg
    else
      (s.setCtx fd { c with userNonblock := nonblocking arg }).setFlF K fd
        (if c.sysNonblock then arg ||| O_NONBLOCK else arg &&& ~~~O_NONBLOCK)

/-- `fcntl(fd, F_GETFL)` -/
def fcntlGetFl : BitVec 32 :=
  let arg := s.files.getFl fd
  match s.find fd with
  | none => arg
  | some c =>
    if c.unmanaged then arg
    else if c.userNonblock then arg ||| O_NONBLOCK
    else arg &&& ~~~O_NONBLOCK

/-- `ioctl(fd, FIONBIO, &value)` -/
def ioctl (value : BitVec 32) : Descriptors × BitVec 32 :=
  match s.find fd with
  | none => s.fionbioF fd value
  | some c =>
    if c.unmanaged then s.fionbioF fd value
    else (s.setCtx fd { c with userNonblock := value != 0 }).fionbioF fd value

/-- `setsockopt(fd, SOL_SOCKET, type, v)`: the part the hook adds. -/
def setsockopt (type : TimeoutType) (v : BitVec 64) : Descriptors :=
  match s.find fd with
  | none => s
  | some c => s.setCtx fd (c.setTimeout type v)

end Descriptors

inductive Action where
  | socket (hook : Bool) (fd : ℕ) (flags : BitVec 32)
  /-- a number is opened by a call that is not hooked -/
  | openF (fd : ℕ) (f : File)
  | setFl (fd : ℕ) (arg : BitVec 32)
  | fionbio (fd : ℕ) (value : BitVec 32)
  | setsockopt (fd : ℕ) (type : TimeoutType) (v : BitVec 64)
  | del (fd : ℕ)
  | closeF (fd : ℕ)

/-- Any number of threads, with and without hooks.  The kernel gives out numbers that are free. -/
def descriptors (K : Kernel) : Machine Descriptors Action where
  init s := s.datas = List.replicate 64 none
  enabled s
    | .socket _ fd _ | .openF fd _ => s.files fd = none
    | _ => True
  next s
    | .socket hook fd flags => s.socket K hook fd flags
    | .openF fd f => s.openF fd f
    | .setFl fd arg => (s.fcntlSetFl K fd arg).1.log fd (.setFl arg)
    | .fionbio fd value => (s.ioctl fd value).1.log fd (.fionbio value)
    | .setsockopt fd type v => s.setsockopt fd type v
    | .del fd => s.del fd
    | .closeF fd => s.closeF fd

instance (K : Kernel) (s : Descriptors) (a : Action) :
    Decidable ((descriptors K).enabled s a) := by
  rcases a <;> (dsimp only [descriptors]; infer_instance)

/-- Linux: `O_APPEND`, `O_NONBLOCK`, `O_ASYNC`, `O_DIRECT` and `O_NOATIME` can be set. -/
def linux : Kernel where
  settable := 0x46c00
  refuses _ _ := false
  nonblock_settable := by decide
  nonblock_granted _ := rfl

/-- Nothing is open. -/
def Descriptors.fresh : Descriptors := ⟨fun _ => none, List.replicate 64 none, fun _ => []⟩

end PulsarRuntime.Hook
