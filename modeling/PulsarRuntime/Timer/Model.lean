import Mathlib.Algebra.GroupWithZero.Nat
import Mathlib.Data.Fin.Basic
import Mathlib.Data.List.FinRange
import Mathlib.Logic.Function.Basic
import Mathlib.Order.Monotone.Defs
import PulsarRuntime.Lib.Machine

/-!
# The timer manager: four wheels, a fallback set and a cached earliest deadline

`TimerManager` keeps the `Timer` objects by allocation number and holds pointers to them (the
numbers) in buckets: the slots of `wheel0_` … `wheel3_` and the fallback set `timers_`.  The
functions below follow `timer.cpp`: `insertToWheel` chooses the bucket from the distance to the
deadline, `advanceWheel` sweeps wheel 0, cascades the upper wheels and drains the fallback set.

Deadlines are `uint64_t`: sums are taken modulo `2 ^ 64`, and `noTimer` is `~0ull`.  A pass reads
the clock once in `listExpiredCb` and once in every `insertToWheel` it makes; the readings are
the stream `clk`, `clk 0` being `now_ms`.  The condition timers of `addConditionTimer` are
ordinary timers whose callback checks a weak pointer, so they need no case of their own.
-/

namespace PulsarRuntime.Timers

/-- `~0ull`: "no timer" in `earliestNext_` and as the result of `getNextTimer`. -/
def noTimer : ℕ := 2 ^ 64 - 1

structure Timer (Cb : Type) where
  recurring : Bool
  ms : ℕ
  next : ℕ
  cb : Option Cb
  cancelled : Bool

/-- What an expiry at `now` makes of a recurring timer. -/
def Timer.rearmed {Cb : Type} (now : ℕ) (t : Timer Cb) : Timer Cb :=
  { t with next := (now + t.ms) % 2 ^ 64, cancelled := false }

/-- What an expiry makes of a one-shot timer. -/
def Timer.expired {Cb : Type} (t : Timer Cb) : Timer Cb := { t with cb := none, cancelled := true }

/-- The containers a stored timer can be in: a slot of one of the wheels, or `timers_`. -/
inductive Bucket where
  | wheel0 (slot : Fin 256)
  | wheel1 (slot : Fin 64)
  | wheel2 (slot : Fin 64)
  | wheel3 (slot : Fin 64)
  | tree
  deriving DecidableEq, Repr

/-- The first wheel has slots: a deadline can be taken modulo their number. -/
scoped instance neZero_slots : NeZero 256 := ⟨Nat.succ_ne_zero 255⟩

structure TimerManager (Cb : Type) where
  /-- The `Timer` objects, by allocation number. -/
  heap : ℕ → Timer Cb
  allocated : ℕ
  /-- `wheel0_[i]`, …, `wheel3_[i]` in vector order, and `timers_` in comparator order. -/
  store : Bucket → List ℕ
  earliestNext : ℕ
  tickled : Bool
  previouseTime : ℕ

variable {Cb : Type}

namespace TimerManager

variable (tm : TimerManager Cb)

def setTimer (id : ℕ) (t : Timer Cb) : TimerManager Cb :=
  { tm with heap := Function.update tm.heap id t }

def setBucket (b : Bucket) (ids : List ℕ) : TimerManager Cb :=
  { tm with store := Function.update tm.store b ids }

/-- `Timer::Comparator` on two live pointers; the allocation number stands for the address. -/
def before (x y : ℕ) : Bool :=
  if (tm.heap x).next < (tm.heap y).next then true
  else if (tm.heap y).next < (tm.heap x).next then false
  else decide (x < y)

/-- `timers_.insert(val)`: in front of the first element the comparator puts after it. -/
def insertTree (tm : TimerManager Cb) (id : ℕ) : List ℕ → List ℕ
  | [] => [id]
  | y :: rest => if tm.before id y then id :: y :: rest else y :: insertTree tm id rest

/-- The compare-exchange loop, under the manager's write lock: the cached minimum only falls. -/
def updateEarliestNext (next : ℕ) : TimerManager Cb :=
  if next < tm.earliestNext then { tm with earliestNext := next } else tm

/-- The branch `insertToWheel` takes for a deadline, at the clock reading it makes. -/
def bucketFor (now next : ℕ) : Bucket :=
  -- `val->next_ > now_ms ? val->next_ - now_ms : 0` is truncated subtraction
  let diff := next - now
  if diff < 256 then .wheel0 (Fin.ofNat 256 next)
  else if diff < 2 ^ 14 then .wheel1 (Fin.ofNat 64 (next >>> 8))
  else if diff < 2 ^ 20 then .wheel2 (Fin.ofNat 64 (next >>> 14))
  else if diff < 2 ^ 26 then .wheel3 (Fin.ofNat 64 (next >>> 20))
  else .tree

def insertToWheel (now id : ℕ) (tm : TimerManager Cb) : TimerManager Cb :=
  let next := (tm.heap id).next
  let tm := tm.updateEarliestNext next
  match bucketFor now next with
  | .tree => tm.setBucket .tree (tm.insertTree id (tm.store .tree))
  | b => tm.setBucket b (tm.store b ++ [id])

/-- The constructor, at clock reading `now`. -/
def create (now : ℕ) : TimerManager Cb where
  heap := fun _ => ⟨false, 0, 0, none, false⟩
  allocated := 0
  store := fun _ => []
  earliestNext := noTimer
  tickled := false
  previouseTime := now

/-- `addTimer`: the `Timer` constructor reads the clock (`created`), `insertToWheel` reads it
again under the lock (`inserted`).  The second component says whether
`OnTimerInsertedAtFront` is called. -/
def addTimer (ms : ℕ) (cb : Option Cb) (recurring : Bool) (created inserted : ℕ)
    (tm : TimerManager Cb) : TimerManager Cb × Bool :=
  let id := tm.allocated
  let next := (created + ms) % 2 ^ 64
  let atFront := decide (next < tm.earliestNext) && !tm.tickled
  let tm := { tm.setTimer id ⟨recurring, ms, next, cb, false⟩ with allocated := id + 1 }
  let tm := tm.insertToWheel inserted id
  ({ tm with tickled := tm.tickled || atFront }, atFront)

/-- `Timer::cancel`. -/
def cancel (id : ℕ) (tm : TimerManager Cb) : TimerManager Cb × Bool :=
  if (tm.heap id).cancelled then (tm, false)
  else (tm.setTimer id { tm.heap id with cancelled := true, cb := none }, true)

/-- The value `getNextTimer` returns at clock reading `now`. -/
def nextTimer (now : ℕ) (tm : TimerManager Cb) : ℕ :=
  let earliest :=
    if tm.earliestNext = noTimer then
      match tm.store .tree with
      | [] => noTimer
      | id :: _ => (tm.heap id).next
    else tm.earliestNext
  if earliest = noTimer then noTimer
  else if earliest ≤ now then 0
  else earliest - now

def getNextTimer (now : ℕ) (tm : TimerManager Cb) : TimerManager Cb × ℕ :=
  ({ tm with tickled := false }, tm.nextTimer now)

end TimerManager

/-! ### One pass of `advanceWheel` -/

/-- The locals of a running pass: how many clock readings it has made, the callbacks it has
appended to `cbs` (each with the timer it was copied from) and `nextEarliest`. -/
structure Pass (Cb : Type) where
  tm : TimerManager Cb
  reads : ℕ
  cbs : List (ℕ × Cb)
  nextEarliest : ℕ

namespace Pass

section

variable (clk : ℕ → ℕ)

def reinsert (p : Pass Cb) (id : ℕ) : Pass Cb :=
  { p with tm := p.tm.insertToWheel (clk p.reads) id, reads := p.reads + 1 }

/-- The body both expiry loops run for a due timer. -/
def fire (now : ℕ) (p : Pass Cb) (id : ℕ) : Pass Cb :=
  let t := p.tm.heap id
  let p := { p with cbs := p.cbs ++ (t.cb.map fun f => (id, f)).toList }
  if t.recurring then reinsert clk { p with tm := p.tm.setTimer id (t.rearmed now) } id
  else { p with tm := p.tm.setTimer id t.expired }

/-- One timer of a wheel-0 slot; the list is `remaining`. -/
def visit (now : ℕ) (acc : Pass Cb × List ℕ) (id : ℕ) : Pass Cb × List ℕ :=
  let t := acc.1.tm.heap id
  if t.cancelled then acc
  else if t.next ≤ now then (fire clk now acc.1 id, acc.2)
  else ({ acc.1 with nextEarliest := min t.next acc.1.nextEarliest }, acc.2 ++ [id])

/-- One wheel-0 slot.  The range-for runs over the elements present when it starts; what a
re-arming pushes onto the slot being iterated lies past its end and goes when `remaining` is
swapped in.  A push that reallocates the vector leaves the loop with dangling iterators: from there
on the behaviour is undefined, and the model stands only for the pushes that do not reallocate. -/
def sweepSlot (now : ℕ) (p : Pass Cb) (i : Fin 256) : Pass Cb :=
  match p.tm.store (.wheel0 i) with
  | [] => p
  | slot =>
    let acc := slot.foldl (visit clk now) (p, [])
    { acc.1 with tm := acc.1.tm.setBucket (.wheel0 i) acc.2 }

def sweep (now : ℕ) (p : Pass Cb) : Pass Cb := (List.finRange 256).foldl (sweepSlot clk now) p

def cascadeOne (p : Pass Cb) (id : ℕ) : Pass Cb :=
  if (p.tm.heap id).cancelled then p else reinsert clk p id

/-- One slot of an upper wheel: `toInsert.swap(slot)`, then every live timer inserted anew. -/
def cascadeSlot (p : Pass Cb) (b : Bucket) : Pass Cb :=
  match p.tm.store b with
  | [] => p
  | toInsert => toInsert.foldl (cascadeOne clk) { p with tm := p.tm.setBucket b [] }

def cascade (wheel : Fin 64 → Bucket) (p : Pass Cb) : Pass Cb :=
  ((List.finRange 64).map wheel).foldl (cascadeSlot clk) p

/-- One round of the loop over `timers_`: its first element `id` is erased and, if live, fired. -/
def drainOne (now : ℕ) (p : Pass Cb) (id : ℕ) (rest : List ℕ) : Pass Cb :=
  let p := { p with tm := p.tm.setBucket .tree rest }
  if (p.tm.heap id).cancelled then p else fire clk now p id

/-- The `while` loop over `timers_`, run for at most `fuel` rounds. -/
def drainTree (now : ℕ) : ℕ → Pass Cb → Pass Cb
  | 0, p => p
  | fuel + 1, p =>
    match p.tm.store .tree with
    | [] => p
    | id :: rest =>
      if (p.tm.heap id).next ≤ now then drainTree now fuel (drainOne clk now p id rest) else p

/-- `nextEarliest` once the first timer left in `timers_` has been counted. -/
def countTree (p : Pass Cb) : ℕ :=
  match p.tm.store .tree with
  | [] => p.nextEarliest
  | id :: _ => min (p.tm.heap id).next p.nextEarliest

/-- `advanceWheel`.  Each round of the last loop takes a due timer out of the set and puts in
none that is due, so the set's size bounds its rounds (`drainTree_done`). -/
def advanceWheel (tm : TimerManager Cb) : Pass Cb :=
  let now := clk 0
  let p : Pass Cb := ⟨tm, 1, [], noTimer⟩
  let p := sweep clk now p
  let p := cascade clk .wheel1 p
  let p := cascade clk .wheel2 p
  let p := cascade clk .wheel3 p
  let p := drainTree clk now (p.tm.store .tree).length p
  { p with tm := { p.tm with earliestNext := countTree p }, nextEarliest := countTree p }

/-- `listExpiredCb`: the pass under the write lock, after `detectClockRolllover` has noted the
reading (its result is not used). -/
def listExpiredCb (tm : TimerManager Cb) : Pass Cb :=
  advanceWheel clk { tm with previouseTime := clk 0 }

end

end Pass

/-! ### Runs of the manager -/

/-- A call on the manager with the clock readings it makes. -/
inductive Op (Cb : Type) where
  | addTimer (ms : ℕ) (cb : Option Cb) (recurring : Bool) (created inserted : ℕ)
  | cancel (id : ℕ)
  | listExpiredCb (clk : ℕ → ℕ)
  | getNextTimer (now : ℕ)

/-- The manager and the latest clock reading any call has made. -/
structure Clocked (Cb : Type) where
  tm : TimerManager Cb
  last : ℕ

/-- Sequences of calls at clock readings that never decrease. -/
def manager (Cb : Type) : Machine (Clocked Cb) (Op Cb) where
  init s := s.tm = TimerManager.create s.last
  enabled s
    | .addTimer _ _ _ created inserted =>
        s.last ≤ created ∧ created ≤ inserted ∧ inserted < 2 ^ 64
    | .cancel id => id < s.tm.allocated
    | .listExpiredCb clk => s.last ≤ clk 0 ∧ Monotone clk ∧ ∀ k, clk k < 2 ^ 64
    | .getNextTimer now => s.last ≤ now ∧ now < 2 ^ 64
  next s
    | .addTimer ms cb recurring created inserted =>
        ⟨(s.tm.addTimer ms cb recurring created inserted).1, inserted⟩
    | .cancel id => ⟨(s.tm.cancel id).1, s.last⟩
    | .listExpiredCb clk =>
        let p := Pass.listExpiredCb clk s.tm
        ⟨p.tm, clk (p.reads - 1)⟩
    | .getNextTimer now => ⟨(s.tm.getNextTimer now).1, now⟩

end PulsarRuntime.Timers
