import PulsarRuntime.Fiber.Ledger

/-!
# Switches of one thread

`yield` and the end of `MainFunc` set `cur_fiber` to a fixed Fiber, the scheduler's or the main one
of the thread, and switch to whoever has called `resume`; that call then sets `cur_fiber` to what it
was before.  Here the two halves are steps of their own: between them the Fiber has switched and the
`resume` has not gone on (`back`), and `cur_fiber` may be anything.

The machine runs any program of one thread over the process of `Fiber.Model`: it makes Fibers,
resumes them to any depth, yields, ends callbacks with or without an exception, resets and destroys
Fibers.  A Fiber yields itself, as all the callers of `yield` do.  Each `resume` that switches gets
a number; the state keeps the value of `cur_fiber` before it, and two histories: the callbacks
that have thrown, with the `resume` they ended in, and the exceptions that a `resume` has rethrown.
-/

namespace PulsarRuntime.Fibers

/-- An exception of a callback, and a call of `resume`. -/
structure Throw where
  call : ℕ
  fiber : ℕ
  exception : ℕ
  deriving DecidableEq

structure Strand where
  process : Process
  /-- the topmost `resume` goes on next, with this handle -/
  back : Option (Option Context)
  /-- calls of `resume` that have switched -/
  calls : ℕ
  /-- those in progress, like `nest` -/
  active : List ℕ
  /-- `cur_fiber` before a call -/
  before : ℕ → Option ℕ
  thrown : List Throw
  rethrown : List Throw

namespace Strand

variable (t : ℕ) (s : Strand)

def thread : Thread := s.process.threads t

/-- `resume` up to its switch. -/
def resume (f : ℕ) : Strand :=
  match (s.process.fibers f).resume, (s.thread t).curFiber with
  | .ok _, some caller =>
    { s with
      process := s.process.resume t f
      calls := s.calls + 1
      active := s.calls :: s.active
      before := Function.update s.before s.calls (some caller) }
  | _, _ => { s with process := s.process.resume t f }

/-- `SetThis(return_fiber)` and the switch; `x` is the Fiber that switches. -/
def switchBack (f : ℕ) (x : Fiber) (context : Option Context) : Strand :=
  match s.process.returnFiber t f with
  | none => { s with process := s.process.fail (.panic "return fiber is nullptr") }
  | some r =>
    { s with
      process := (s.process.setFiber f x).setThread t { s.thread t with curFiber := some r }
      back := some context }

/-- `yield` of the current Fiber, up to its switch. -/
def yield : Strand :=
  match (s.thread t).curFiber with
  | none => s
  | some f =>
    match (s.process.fibers f).yield with
    | .error e => { s with process := s.process.fail e }
    | .ok x => s.switchBack t f x (some .suspended)

/-- What the end of the callback adds to the history. -/
def throws (f : ℕ) : Exit → List Throw
  | .returned => []
  | .threw e => (s.active.head?.map fun call => ⟨call, f, e⟩).toList

/-- The callback of the running Fiber ends. -/
def finish (exit : Exit) : Strand :=
  match (s.thread t).nest with
  | [] => s
  | (f, _) :: _ =>
    { s.switchBack t f ((s.process.fibers f).mainFunc exit) none with
      thrown := s.thrown ++ s.throws f exit }

/-- `resume` behind its switch. -/
def land : Strand :=
  match s.back, (s.thread t).nest, s.active with
  | some context, (f, caller) :: rest, call :: active =>
    let r := (s.process.fibers f).resumed context
    { s with
      process := (s.process.setFiber f r.1).setThread t
        { s.thread t with curFiber := some caller, nest := rest }
      back := none
      active := active
      rethrown := s.rethrown ++ (r.2.map fun e => ⟨call, f, e⟩).toList }
  | _, _, _ => s

end Strand

inductive Strand.Action where
  /-- a step of the process that does not switch -/
  | plain (a : Process.Action)
  | resume (f : ℕ)
  | yield
  | finish (exit : Exit)
  | land

/-- The steps of thread `t` that do not switch. -/
def Strand.Plain (t : ℕ) : Process.Action → Prop
  | .getThis u | .destroy u _ | .setSchedulerFiber u _ => u = t
  | .construct _ | .reset _ _ _ => True
  | _ => False

instance (t : ℕ) (a : Process.Action) : Decidable (Strand.Plain t a) := by
  rcases a <;> (dsimp only [Strand.Plain]; infer_instance)

/-- The programs of thread `t`. -/
def strand (t : ℕ) : Machine Strand Strand.Action where
  init s := Fibers.process.init s.process ∧ s.back = none ∧ s.calls = 0 ∧ s.active = [] ∧
    s.thrown = [] ∧ s.rethrown = []
  enabled s
    | .plain a => s.back = none ∧ Strand.Plain t a ∧ Fibers.process.enabled s.process a
    | .resume f => s.back = none ∧ Fibers.process.enabled s.process (.resume t f)
    | .yield => s.back = none ∧ s.process.panicked = false ∧ (s.thread t).curFiber ≠ none
    | .finish _ => s.back = none ∧ s.process.panicked = false ∧ (s.thread t).nest ≠ []
    | .land => s.back ≠ none ∧ s.process.panicked = false
  next s
    | .plain a => { s with process := Fibers.process.next s.process a }
    | .resume f => s.resume t f
    | .yield => s.yield t
    | .finish exit => s.finish t exit
    | .land => s.land t

instance (t : ℕ) (s : Strand) (a : Strand.Action) : Decidable ((strand t).enabled s a) := by
  rcases a <;> (dsimp only [strand]; infer_instance)

end PulsarRuntime.Fibers
