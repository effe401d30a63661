import PulsarRuntime.Lib.WorkerPool

/-!
# The threads for blocking calls

`BlockingThreadPool` of `IOManager`: `submit` pushes a task under the mutex unless the pool is
stopped, and notifies one thread after it has released the mutex; there is no greatest length.
The constructor makes at least one thread.  `stop` sets the flag, notifies all threads and joins
them, and a second call returns at once; it is called by other threads than the pool's own.  A task
that throws ends the process and is not modelled.
-/

namespace PulsarRuntime.Blocking

open WorkerPool (Move Rules)

/-- `if (threads == 0) threads = 1;` -/
def threadCount (threads : ℕ) : ℕ := if threads = 0 then 1 else threads

theorem threadCount_pos (threads : ℕ) : 0 < threadCount threads := by
  unfold threadCount
  split
  · exact Nat.one_pos
  · omega

instance neZero_threadCount (threads : ℕ) : NeZero (threadCount threads) :=
  ⟨(threadCount_pos threads).ne'⟩

instance nonempty_threads (threads : ℕ) : Nonempty (Fin (threadCount threads)) := ⟨0⟩

/-- The queue takes any number of tasks; `cv_.notify_one()` comes after the critical section. -/
def rules : Rules := ⟨none, false⟩

variable {threads : ℕ} {τ : Type*}

/-- The pool constructed for `threads` threads. -/
abbrev BlockingThreadPool (threads : ℕ) (τ : Type*) :=
  WorkerPool.State (Fin (threadCount threads)) τ

namespace BlockingThreadPool

/-- The critical section of `submit`. -/
def submit (s : BlockingThreadPool threads τ) (task : τ) : BlockingThreadPool threads τ :=
  WorkerPool.State.submit s rules task none

/-- The constructor. -/
def create (threads : ℕ) (τ : Type*) : BlockingThreadPool threads τ := .fresh _ τ

/-- A task is refused by a stopped pool only. -/
theorem submit_eq (s : BlockingThreadPool threads τ) (task : τ) :
    s.submit task = if s.stopped then { s with refused := s.refused ++ [task] } else { s with
      queue := s.queue ++ [task]
      accepted := s.accepted ++ [task]
      notifying := s.notifying ++ [task] } := by
  rw [submit, WorkerPool.State.submit]
  cases s.stopped <;> rfl

end BlockingThreadPool

/-- Every interleaving of the threads, of submissions and of calls of `stop`. -/
def blockingThreadPool (threads : ℕ) (τ : Type*) [DecidableEq τ] :
    Machine (BlockingThreadPool threads τ) (Move (Fin (threadCount threads)) τ) :=
  WorkerPool.pool rules

variable [DecidableEq τ]

instance decidableEnabled (s : BlockingThreadPool threads τ)
    (a : Move (Fin (threadCount threads)) τ) :
    Decidable ((blockingThreadPool threads τ).enabled s a) :=
  WorkerPool.decidableEnabled rules s a

theorem create_reach (threads : ℕ) :
    (blockingThreadPool threads τ).Reach (BlockingThreadPool.create threads τ) :=
  WorkerPool.fresh_reach rules

theorem submit_reach {s : BlockingThreadPool threads τ}
    (h : (blockingThreadPool threads τ).Reach s) (task : τ) :
    (blockingThreadPool threads τ).Reach (s.submit task) := by
  refine Machine.ReachVia.step (a := .submit task none) h ?_ trivial
  intro hlocked
  cases hlocked

/-- **Tasks run once, in order, and none is left behind.**  The tasks taken by the threads are the
oldest accepted ones, in the order of submission; each of them is run by one thread or has been
run.  Blocked threads are outnumbered: as long as one is blocked, at most as many tasks are queued
as there are notifications under way.  So with a task in the queue a thread is about to move, or a
notification is. -/
theorem tasks_run_in_order {s : BlockingThreadPool threads τ}
    (h : (blockingThreadPool threads τ).Reach s) :
    s.accepted = s.taken ++ s.queue ∧
    (s.taken : Multiset τ) = s.finished + ∑ w, (s.phase w).task ∧
    (∀ w, s.phase w = .waiting → s.queue.length ≤ s.notifying.length + s.wakes) ∧
    (s.queue ≠ [] → ∃ a, a.due = true ∧ (blockingThreadPool threads τ).enabled s a) := by
  have hs := WorkerPool.sound h
  exact ⟨hs.order, hs.started, hs.awake, hs.work_pending⟩

open BlockingThreadPool (create)

/-- Two threads block, two tasks are pushed, and one notification has been sent so far. -/
def halfNotified : List (Move (Fin (threadCount 2)) ℕ) :=
  [.acquire 0, .acquire 1, .submit 7 none, .submit 8 none, .notify 7 (some 1), .acquire 1]

theorem tasks_run_in_order_half_notified :
    let s := (blockingThreadPool 2 ℕ).run (create 2 ℕ) halfNotified
    s.phase 0 = .waiting ∧ s.taken = [7] ∧ s.queue = [8] ∧
      ∃ a, a.due = true ∧ (blockingThreadPool 2 ℕ).enabled s a := by
  have hs : (blockingThreadPool 2 ℕ).Reach
      ((blockingThreadPool 2 ℕ).run (create 2 ℕ) halfNotified) :=
    Machine.reachVia_run (create_reach 2) (by decide)
  exact ⟨by decide, by decide, by decide, (tasks_run_in_order hs).2.2.2 (by decide)⟩

/-- **`stop` drains the pool.**  It is called on a thread that is not one of the pool's own, which
it could not join.  Once the flag is set, the first call of `stop` is never stuck, no run takes more
than `rank` steps besides refused submissions and further calls of `stop`, and when the call returns
every accepted task has been run and none is queued. -/
theorem stop_drains {s : BlockingThreadPool threads τ}
    (h : (blockingThreadPool threads τ).Reach s) (hs : s.stopped = true) :
    (s.closing ≠ .returned →
      ∃ a, a.due = true ∧ (blockingThreadPool threads τ).enabled s a) ∧
    (∀ trace, (blockingThreadPool threads τ).Allowed (fun _ _ => True) s trace →
      trace.countP Move.inner ≤ s.rank) ∧
    (s.closing = .returned → s.queue = [] ∧ (s.finished : Multiset τ) = s.accepted) := by
  have hsound := WorkerPool.sound h
  exact ⟨hsound.stopping_moves hs, fun _ hall => WorkerPool.stop_bounded hs hall, hsound.drained⟩

/-- A task is queued when `stop` is called. -/
def stoppedWithTask : List (Move (Fin (threadCount 0)) ℕ) :=
  [.acquire 0, .submit 7 none, .stop, .submit 8 none, .notifyAll, .acquire 0, .finish 0 7,
    .notify 7 none, .acquire 0, .join]

theorem stop_drains_with_task :
    let s := (blockingThreadPool 0 ℕ).run (create 0 ℕ) stoppedWithTask
    s.closing = .returned ∧ s.refused = [8] ∧ s.queue = [] ∧
      (s.finished : Multiset ℕ) = s.accepted := by
  have hs : (blockingThreadPool 0 ℕ).Reach
      ((blockingThreadPool 0 ℕ).run (create 0 ℕ) stoppedWithTask) :=
    Machine.reachVia_run (create_reach 0) (by decide)
  exact ⟨by decide, by decide, (stop_drains hs (by decide)).2.2 (by decide)⟩

end PulsarRuntime.Blocking
