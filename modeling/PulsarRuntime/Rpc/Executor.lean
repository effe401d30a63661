import PulsarRuntime.Lib.WorkerPool

/-!
# The threads that run handlers

`Executor` of the provider: `Submit` refuses a task when the executor is stopped or `capacity` tasks
are queued, and otherwise pushes it and notifies one thread, all under the mutex.  The destructor
sets the flag, notifies all threads and joins them; here it is run by another thread than these.  (A
task that owns the provider last would run it on its own thread, where `join` throws.)  An executor
may be made with no thread: then it takes tasks and runs none.
-/

namespace PulsarRuntime.Rpc

open WorkerPool (Move Rules)

/-- `queue_.size() >= capacity_` refuses; `wake_.notify_one()` comes with the mutex held. -/
def Executor.rules (capacity : ℕ) : Rules := ⟨some capacity, true⟩

/-- The executor with this many threads. -/
abbrev Executor (threads : ℕ) (τ : Type*) := WorkerPool.State (Fin threads) τ

variable {threads capacity : ℕ} {τ : Type*}

def Executor.create (threads : ℕ) (τ : Type*) : Executor threads τ := .fresh _ τ

/-- Every interleaving of the threads, of `Submit` and of the destructor. -/
def executor (threads capacity : ℕ) (τ : Type*) [DecidableEq τ] :
    Machine (Executor threads τ) (Move (Fin threads) τ) :=
  WorkerPool.pool (Executor.rules capacity)

theorem Executor.rules_admits (capacity length : ℕ) :
    (rules capacity).admits length = decide (length < capacity) := rfl

variable [DecidableEq τ]

instance decidableEnabled (s : Executor threads τ) (a : Move (Fin threads) τ) :
    Decidable ((executor threads capacity τ).enabled s a) :=
  WorkerPool.decidableEnabled (Executor.rules capacity) s a

theorem Executor.create_reach (threads capacity : ℕ) :
    (executor threads capacity τ).Reach (Executor.create threads τ) :=
  WorkerPool.fresh_reach _

/-- The queue is never longer than `capacity_`, and no notification is ever under way on its own,
since it is sent before the mutex is released. -/
structure Executor.Bounded (capacity : ℕ) (s : Executor threads τ) : Prop where
  queue : s.queue.length ≤ capacity
  notifying : s.notifying = []

theorem Executor.Bounded.next {s : Executor threads τ} (h : s.Bounded capacity)
    {a : Move (Fin threads) τ} (he : (executor threads capacity τ).enabled s a) :
    Executor.Bounded capacity ((executor threads capacity τ).next s a) := by
  cases a with
  | submit t w =>
    change Executor.Bounded capacity (WorkerPool.State.submit s (rules capacity) t w)
    unfold WorkerPool.State.submit
    split
    · exact ⟨h.queue, h.notifying⟩
    · next hno =>
      have hlt : s.queue.length < capacity := by
        rw [rules_admits] at hno
        by_contra hge
        exact hno (by simp [hge])
      have hlength : (s.queue ++ [t]).length ≤ capacity := by
        rw [List.length_append]
        exact hlt
      rw [if_pos (show (rules capacity).notifyLocked = true from rfl)]
      cases w <;> exact ⟨hlength, h.notifying⟩
  | notify t w => exact absurd he.1 (by rw [h.notifying]; simp)
  | acquire w =>
    change Executor.Bounded capacity (WorkerPool.State.acquire s w)
    cases hq : s.queue with
    | nil =>
      rw [WorkerPool.State.acquire_nil hq]
      exact ⟨h.queue, h.notifying⟩
    | cons t rest =>
      rw [WorkerPool.State.acquire_cons hq]
      have hlength := h.queue
      rw [hq, List.length_cons] at hlength
      exact ⟨Nat.le_of_succ_le hlength, h.notifying⟩
  | stop =>
    change Executor.Bounded capacity (WorkerPool.State.stop s)
    unfold WorkerPool.State.stop
    split <;> exact ⟨h.queue, h.notifying⟩
  | _ => exact ⟨h.queue, h.notifying⟩

theorem executor_bounded {s : Executor threads τ} (h : (executor threads capacity τ).Reach s) :
    s.Bounded capacity := by
  refine h.invariant (fun s hs => ?_) fun _ _ hs he => hs.next he
  obtain ⟨_, hq, _, hn, _⟩ := hs
  exact ⟨by rw [hq]; exact Nat.zero_le _, hn⟩

/-- **Handlers run once, in order, from a bounded queue.**  The executor never holds more than
`capacity_` queued handlers; the handlers taken are the oldest accepted ones, in the order of
`Submit`, each of them is run by one thread or has been run; and while a thread is blocked, at least
as many threads as there are queued handlers are on their way to the queue. -/
theorem handlers_run_in_order {s : Executor threads τ}
    (h : (executor threads capacity τ).Reach s) :
    s.queue.length ≤ capacity ∧
    s.accepted = s.taken ++ s.queue ∧
    (s.taken : Multiset τ) = s.finished + ∑ w, (s.phase w).task ∧
    ∀ w, s.phase w = .waiting → s.queue.length ≤ s.wakes := by
  have hs := WorkerPool.sound h
  have hb := executor_bounded h
  refine ⟨hb.queue, hs.order, hs.started, fun w hw => ?_⟩
  have := hs.awake w hw
  rwa [hb.notifying, List.length_nil, Nat.zero_add] at this

/-- Two threads block; one of them is on its way to the first handler. -/
def oneWoken : List (Move (Fin 2) ℕ) :=
  [.acquire (Fin.last 1), .acquire (Fin.last 0).castSucc, .submit 7 (some (Fin.last 1))]

theorem handlers_run_in_order_woken :
    let s := (executor 2 4 ℕ).run (Executor.create 2 ℕ) oneWoken
    s.phase (Fin.last 0).castSucc = .waiting ∧ s.queue = [7] ∧ s.queue.length ≤ s.wakes := by
  have hs : (executor 2 4 ℕ).Reach ((executor 2 4 ℕ).run (Executor.create 2 ℕ) oneWoken) :=
    Machine.reachVia_run (Executor.create_reach 2 4) (by decide)
  exact ⟨by decide, by decide, (handlers_run_in_order hs).2.2.2 (Fin.last 0).castSucc (by decide)⟩

/-- **The destructor runs every accepted handler.**  It is run by a thread that is not one of the
executor's own, which it could not join.  Once it has set the flag it is never stuck, no run takes
more than `rank` steps besides refused calls of `Submit`, and when an executor with threads is gone
every accepted handler has been run. -/
theorem destructor_drains {s : Executor threads τ} (h : (executor threads capacity τ).Reach s)
    (hs : s.stopped = true) (hthreads : 0 < threads) :
    (s.closing ≠ .returned →
      ∃ a, a.due = true ∧ (executor threads capacity τ).enabled s a) ∧
    (∀ trace, (executor threads capacity τ).Allowed (fun _ _ => True) s trace →
      trace.countP Move.inner ≤ s.rank) ∧
    (s.closing = .returned → s.queue = [] ∧ (s.finished : Multiset τ) = s.accepted) := by
  have : Nonempty (Fin threads) := ⟨⟨0, hthreads⟩⟩
  have hsound := WorkerPool.sound h
  exact ⟨hsound.stopping_moves hs, fun _ hall => WorkerPool.stop_bounded hs hall, hsound.drained⟩

/-- A handler is queued when the executor is destroyed. -/
def destroyedWithHandler : List (Move (Fin 1) ℕ) :=
  [.submit 7 none, .stop, .submit 8 none, .notifyAll, .acquire (Fin.last 0),
    .finish (Fin.last 0) 7, .acquire (Fin.last 0), .join]

theorem destructor_drains_one :
    let s := (executor 1 4 ℕ).run (Executor.create 1 ℕ) destroyedWithHandler
    s.closing = .returned ∧ s.refused = [8] ∧ s.queue = [] ∧
      (s.finished : Multiset ℕ) = s.accepted := by
  have hs : (executor 1 4 ℕ).Reach
      ((executor 1 4 ℕ).run (Executor.create 1 ℕ) destroyedWithHandler) :=
    Machine.reachVia_run (Executor.create_reach 1 4) (by decide)
  exact ⟨by decide, by decide, (destructor_drains hs (by decide) Nat.one_pos).2.2 (by decide)⟩

end PulsarRuntime.Rpc
