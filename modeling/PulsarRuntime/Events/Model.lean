import Mathlib.Data.Int.Notation
import Mathlib.Data.Nat.Notation
import Mathlib.Logic.Function.Basic
import PulsarRuntime.Events.Event
import PulsarRuntime.Lib.Machine

/-!
# The event table of an `IOManager`

`fdContexts_` maps a descriptor to its `FdContext`, which holds the registered events, for each of
them the Fiber or callback to schedule, and a mutex.  A call of `addEvent`, `delEvent`,
`cancelEvent` or `cancelAll` looks the context up under the read lock of the table; `addEvent` may
then have to come back under the write lock to resize the table.  It goes on in a critical section
of the context.  An idle worker takes notifications from `epoll_wait` and works them off one by
one, each in a critical section of its context; by then other threads may have changed what is
registered.

The steps are these critical sections.  An `FdContext` is never moved or deleted while the
`IOManager` lives, so it is known by the number of its allocation.  `CondPanic` ends the process.
-/

namespace PulsarRuntime.Events

/-- What a registered event is for. -/
structure EventContext where
  scheduler : Option ℕ
  fiber : Option ℕ
  cb : Option ℕ
  threadId : ℤ
  deriving DecidableEq

/-- `resetEveContext`. -/
def EventContext.reset : EventContext := ⟨none, none, none, -1⟩

structure FdContext where
  /-- `getEveContext` -/
  context : Event → EventContext
  fd : ℕ
  events : Event → Bool

def FdContext.new (fd : ℕ) : FdContext := ⟨fun _ => .reset, fd, fun _ => false⟩

/-- The thread that calls `addEvent`: `Scheduler::GetThis`, `Fiber::GetThis` and its id. -/
structure Caller where
  scheduler : Option ℕ
  fiber : ℕ
  threadId : ℤ

/-- What `addEvent` stores.  Without a callback it is the Fiber that calls. -/
def EventContext.of (cb : Option ℕ) (caller : Caller) : EventContext :=
  ⟨caller.scheduler, if cb.isSome then none else some caller.fiber, cb, caller.threadId⟩

inductive Kind where
  | addEvent (event : Event) (cb : Option ℕ) (caller : Caller)
  | delEvent (event : Event)
  | cancelEvent (event : Event)
  | cancelAll

def Kind.adds : Kind → Bool
  | .addEvent _ _ _ => true
  | _ => false

inductive OpPc where
  | called
  /-- the table was too short, and the read lock has been released -/
  | missing
  | found (ctx : ℕ)
  | returned (ok : Bool)
  deriving DecidableEq

def OpPc.isFound : OpPc → Bool
  | .found _ => true
  | _ => false

structure Op where
  kind : Kind
  fd : ℕ
  pc : OpPc

/-- An `epoll_event` that a worker has fetched. -/
structure Notification where
  ctx : ℕ
  reported : Event → Bool
  /-- `EPOLLERR` or `EPOLLHUP` -/
  error : Bool

/-- The conditions of `CondPanic`. -/
inductive Panic where
  /-- "event is already registered for fd" -/
  | alreadyRegistered
  /-- "event_ctx is nullptr" -/
  | contextInUse
  /-- "event hasn't been registed" -/
  | notRegistered
  /-- "fd not totally clear" -/
  | notClear
  /-- the table is indexed behind its end -/
  | outOfRange
  deriving DecidableEq

structure Manager where
  contexts : ℕ → FdContext
  allocated : ℕ
  /-- `fdContexts_` -/
  table : List ℕ
  pendingEventCnt : ℤ
  ops : ℕ → Op
  count : ℕ
  fetched : List Notification
  /-- what `triggerEvent` has given to a scheduler -/
  scheduled : List EventContext
  panicked : Option Panic

namespace Manager

variable (s : Manager)

def panic (p : Panic) : Manager := { s with panicked := some p }

def setContext (p : ℕ) (c : FdContext) : Manager :=
  { s with contexts := Function.update s.contexts p c }

def setPc (k : ℕ) (pc : OpPc) : Manager :=
  { s with ops := Function.update s.ops k { s.ops k with pc := pc } }

/-- A longer table is filled up with new contexts, a shorter one loses its last ones. -/
def contextResize (size : ℕ) : Manager :=
  let grown := size - s.table.length
  { s with
    table := s.table.take size ++ (List.range grown).map (s.allocated + ·)
    contexts := fun p =>
      if s.allocated ≤ p ∧ p < s.allocated + grown then
        .new (s.table.length + (p - s.allocated))
      else s.contexts p
    allocated := s.allocated + grown }

/-- The lookup under the read lock. -/
def lookup (k : ℕ) : Manager :=
  match s.table[(s.ops k).fd]? with
  | some p => s.setPc k (.found p)
  | none => s.setPc k (if (s.ops k).kind.adds then .missing else .returned false)

/-- `addEvent` under the write lock. -/
def resize (k : ℕ) : Manager :=
  let s := s.contextResize ((s.ops k).fd * 3 / 2)
  match s.table[(s.ops k).fd]? with
  | some p => s.setPc k (.found p)
  | none => s.panic .outOfRange

/-! ### Critical sections of a context -/

/-- The events of the context are changed, and what is kept for one of them. -/
def setEvent (p : ℕ) (event : Event) (set : Bool) (ctx : EventContext) : Manager :=
  let c := s.contexts p
  s.setContext p { c with
    events := Function.update c.events event set
    context := Function.update c.context event ctx }

def triggerEvent (p : ℕ) (event : Event) : Manager :=
  let c := s.contexts p
  if c.events event then
    { s.setEvent p event false .reset with scheduled := s.scheduled ++ [c.context event] }
  else s.panic .notRegistered

/-- `triggerEvent` and the decrement behind it. -/
def triggerCounted (p : ℕ) (event : Event) : Manager :=
  let s := s.triggerEvent p event
  if s.panicked.isSome then s else { s with pendingEventCnt := s.pendingEventCnt - 1 }

/-- `ok` is what `epoll_ctl` answers, here and below. -/
def addEvent (p : ℕ) (event : Event) (cb : Option ℕ) (caller : Caller) (ok : Bool) :
    Manager × Bool :=
  let c := s.contexts p
  if c.events event then (s.panic .alreadyRegistered, false)
  else if !ok then (s, false)
  else
    let ctx := c.context event
    if ctx.scheduler.isSome || ctx.fiber.isSome || ctx.cb.isSome then
      ({ s.setEvent p event true ctx with
        pendingEventCnt := s.pendingEventCnt + 1
        panicked := some .contextInUse }, false)
    else
      ({ s.setEvent p event true (EventContext.of cb caller) with
        pendingEventCnt := s.pendingEventCnt + 1 }, true)

def delEvent (p : ℕ) (event : Event) (ok : Bool) : Manager × Bool :=
  if !(s.contexts p).events event then (s, false)
  else if !ok then (s, false)
  else ({ s.setEvent p event false .reset with pendingEventCnt := s.pendingEventCnt - 1 }, true)

def cancelEvent (p : ℕ) (event : Event) (ok : Bool) : Manager × Bool :=
  if !(s.contexts p).events event then (s, false)
  else if !ok then (s, false)
  else (s.triggerCounted p event, true)

/-- Triggers the event if it is registered. -/
def triggerRegistered (p : ℕ) (event : Event) : Manager :=
  if (s.contexts p).events event then s.triggerCounted p event else s

def cancelAll (p : ℕ) (ok : Bool) : Manager × Bool :=
  let c := s.contexts p
  if !(c.events .read || c.events .write) then (s, false)
  else if !ok then (s, false)
  else
    let s := (s.triggerRegistered p .read).triggerRegistered p .write
    if (s.contexts p).events .read || (s.contexts p).events .write then
      (s.panic .notClear, false)
    else (s, true)

/-- The critical section of a call. -/
def body (kind : Kind) (p : ℕ) (ok : Bool) : Manager × Bool :=
  match kind with
  | .addEvent event cb caller => s.addEvent p event cb caller ok
  | .delEvent event => s.delEvent p event ok
  | .cancelEvent event => s.cancelEvent p event ok
  | .cancelAll => s.cancelAll p ok

def enter (k p : ℕ) (ok : Bool) : Manager :=
  let r := s.body (s.ops k).kind p ok
  r.1.setPc k (.returned r.2)

/-- `real_events`. -/
def realEvents (n : Notification) (event : Event) : Bool :=
  n.reported event || (n.error && (s.contexts n.ctx).events event)

/-- Triggers the event if it has really happened; nothing happens any more after a panic. -/
def triggerReal (p : ℕ) (event : Event) (real : Bool) : Manager :=
  if s.panicked.isSome then s
  else if real then s.triggerCounted p event
  else s

/-- The body of the loop over the fetched notifications in `idle`. -/
def notify (n : Notification) (ok : Bool) : Manager :=
  let real := s.realEvents n
  let c := s.contexts n.ctx
  if !((c.events .read && real .read) || (c.events .write && real .write)) then s
  else if !ok then s
  else (s.triggerReal n.ctx .read (real .read)).triggerReal n.ctx .write (real .write)

end Manager

inductive Action where
  | call (kind : Kind) (fd : ℕ)
  | lookup (k : ℕ)
  | resize (k : ℕ)
  | enter (k : ℕ) (ok : Bool)
  /-- `epoll_wait` reports registered events of a descriptor -/
  | fetch (n : Notification)
  /-- a worker comes to the `i`-th notification fetched -/
  | process (i : ℕ) (ok : Bool)

/-- Calls from any number of threads, and any number of idle workers. -/
def manager : Machine Manager Action where
  init s := s.table = List.range 32 ∧ s.allocated = 32 ∧ (∀ p, s.contexts p = .new p) ∧
    s.pendingEventCnt = 0 ∧ s.count = 0 ∧ s.fetched = [] ∧ s.panicked = none
  enabled s a := s.panicked = none ∧ match a with
    | .call _ _ => True
    | .lookup k => k < s.count ∧ (s.ops k).pc = .called
    | .resize k => k < s.count ∧ (s.ops k).pc = .missing
    | .enter k _ => k < s.count ∧ (s.ops k).pc.isFound = true
    | .fetch n => n.ctx < s.allocated ∧
        ((s.contexts n.ctx).events .read = true ∨ (s.contexts n.ctx).events .write = true) ∧
        (n.reported .read = true → (s.contexts n.ctx).events .read = true) ∧
        (n.reported .write = true → (s.contexts n.ctx).events .write = true)
    | .process i _ => i < s.fetched.length
  next s
    | .call kind fd => { s with
        ops := Function.update s.ops s.count ⟨kind, fd, .called⟩
        count := s.count + 1 }
    | .lookup k => s.lookup k
    | .resize k => s.resize k
    | .enter k ok =>
        match (s.ops k).pc with
        | .found p => s.enter k p ok
        | _ => s
    | .fetch n => { s with fetched := s.fetched ++ [n] }
    | .process i ok =>
        match s.fetched[i]? with
        | some n => { s with fetched := s.fetched.eraseIdx i }.notify n ok
        | none => s

instance (s : Manager) (a : Action) : Decidable (manager.enabled s a) := by
  rcases a <;> (dsimp only [manager]; infer_instance)

/-- An `IOManager` just constructed. -/
def Manager.fresh : Manager where
  contexts := .new
  allocated := 32
  table := List.range 32
  pendingEventCnt := 0
  ops := fun _ => ⟨.cancelAll, 0, .called⟩
  count := 0
  fetched := []
  scheduled := []
  panicked := none

theorem manager_init_fresh : manager.init .fresh :=
  ⟨rfl, rfl, fun _ => rfl, rfl, rfl, rfl, rfl⟩

/-- A Fiber on thread 7 of scheduler 0. -/
def reader : Caller := ⟨some 0, 3, 7⟩

/-! ### What a critical section can touch -/

namespace Manager

/-- `s'` differs from `s` in what context `p` has registered, in the counter, in what was
scheduled, and in having panicked. -/
structure Touches (p : ℕ) (s s' : Manager) : Prop where
  contexts : ∀ q, q ≠ p → s'.contexts q = s.contexts q
  fd : (s'.contexts p).fd = (s.contexts p).fd
  table : s'.table = s.table
  allocated : s'.allocated = s.allocated
  ops : s'.ops = s.ops
  count : s'.count = s.count
  fetched : s'.fetched = s.fetched

variable {s s' s'' : Manager} {p : ℕ}

theorem Touches.refl (p : ℕ) (s : Manager) : Touches p s s :=
  ⟨fun _ _ => rfl, rfl, rfl, rfl, rfl, rfl, rfl⟩

theorem Touches.trans (h : Touches p s s') (h' : Touches p s' s'') : Touches p s s'' :=
  ⟨fun q hq => (h'.contexts q hq).trans (h.contexts q hq), h'.fd.trans h.fd,
    h'.table.trans h.table, h'.allocated.trans h.allocated, h'.ops.trans h.ops,
    h'.count.trans h.count, h'.fetched.trans h.fetched⟩

variable (s p) (event : Event)

theorem setEvent_self (set : Bool) (ctx : EventContext) :
    (s.setEvent p event set ctx).contexts p = { s.contexts p with
      events := Function.update (s.contexts p).events event set
      context := Function.update (s.contexts p).context event ctx } :=
  Function.update_self ..

theorem setEvent_touches (set : Bool)
    (ctx : EventContext) : Touches p s (s.setEvent p event set ctx) := by
  refine ⟨fun q hq => Function.update_of_ne hq .., ?_, rfl, rfl, rfl, rfl, rfl⟩
  rw [setEvent_self]

theorem triggerEvent_touches : Touches p s (s.triggerEvent p event) := by
  simp only [triggerEvent]
  split
  · have h := setEvent_touches s p event false .reset
    exact ⟨h.contexts, h.fd, rfl, rfl, rfl, rfl, rfl⟩
  · exact ⟨fun _ _ => rfl, rfl, rfl, rfl, rfl, rfl, rfl⟩

theorem triggerCounted_touches : Touches p s (s.triggerCounted p event) := by
  have h := triggerEvent_touches s p event
  simp only [triggerCounted]
  split
  · exact h
  · exact ⟨h.contexts, h.fd, h.table, h.allocated, h.ops, h.count, h.fetched⟩

theorem triggerRegistered_touches : Touches p s (s.triggerRegistered p event) := by
  simp only [triggerRegistered]
  split
  · exact triggerCounted_touches s p event
  · exact .refl p s

theorem addEvent_touches (cb : Option ℕ) (caller : Caller)
    (ok : Bool) : Touches p s (s.addEvent p event cb caller ok).1 := by
  have hset (ctx : EventContext) := setEvent_touches s p event true ctx
  simp only [addEvent]
  split
  · exact ⟨fun _ _ => rfl, rfl, rfl, rfl, rfl, rfl, rfl⟩
  · split
    · exact .refl p s
    · split
      · exact ⟨(hset _).contexts, (hset _).fd, rfl, rfl, rfl, rfl, rfl⟩
      · exact ⟨(hset _).contexts, (hset _).fd, rfl, rfl, rfl, rfl, rfl⟩

theorem delEvent_touches (ok : Bool) : Touches p s (s.delEvent p event ok).1 := by
  have h := setEvent_touches s p event false .reset
  simp only [delEvent]
  split
  · exact .refl p s
  · split
    · exact .refl p s
    · exact ⟨h.contexts, h.fd, rfl, rfl, rfl, rfl, rfl⟩

theorem cancelEvent_touches (ok : Bool) : Touches p s (s.cancelEvent p event ok).1 := by
  simp only [cancelEvent]
  split
  · exact .refl p s
  · split
    · exact .refl p s
    · exact triggerCounted_touches s p event

theorem cancelAll_touches (ok : Bool) : Touches p s (s.cancelAll p ok).1 := by
  have h := (triggerRegistered_touches s p .read).trans
    (triggerRegistered_touches (s.triggerRegistered p .read) p .write)
  simp only [cancelAll]
  split
  · exact .refl p s
  · split
    · exact .refl p s
    · split
      · exact ⟨h.contexts, h.fd, h.table, h.allocated, h.ops, h.count, h.fetched⟩
      · exact h

theorem body_touches (s : Manager) (kind : Kind) (p : ℕ) (ok : Bool) :
    Touches p s (s.body kind p ok).1 := by
  cases kind with
  | addEvent event cb caller => exact addEvent_touches s p event cb caller ok
  | delEvent event => exact delEvent_touches s p event ok
  | cancelEvent event => exact cancelEvent_touches s p event ok
  | cancelAll => exact cancelAll_touches s p ok

theorem triggerReal_touches (real : Bool) : Touches p s (s.triggerReal p event real) := by
  simp only [triggerReal]
  split
  · exact .refl p s
  · split
    · exact triggerCounted_touches s p event
    · exact .refl p s

theorem notify_touches (n : Notification) (ok : Bool) : Touches n.ctx s (s.notify n ok) := by
  simp only [notify]
  split
  · exact .refl n.ctx s
  · split
    · exact .refl n.ctx s
    · exact (triggerReal_touches ..).trans (triggerReal_touches ..)

end Manager

end PulsarRuntime.Events
