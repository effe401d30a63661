import Mathlib.Algebra.BigOperators.Group.Multiset.Basic
import Mathlib.Algebra.Order.BigOperators.Group.Finset
import PulsarRuntime.Lib.Family
import PulsarRuntime.Lib.Machine

/-!
# Worker threads behind a queue and a condition variable

A fixed set of threads takes tasks from one queue.  A thread that finds the queue empty blocks on a
condition variable; a submission pushes a task and notifies one blocked thread, and stopping sets a
flag, notifies all of them and joins.  Which thread a notification reaches, wake-ups without one and
the order of the critical sections are left to the run.  Two things differ between pools of this
kind and are parameters: whether the queue has a greatest length, and whether a submission notifies
before or after it has released the mutex.

* `Sound`: tasks are taken in order and run once, and a thread is blocked only while the tasks in
  the queue are no more than the notifications on their way (`work_pending`);
* `Sound.drained`: when the call that stops the pool returns, every accepted task has been run, and
  `rank` bounds the steps it takes to get there.
-/

namespace PulsarRuntime.WorkerPool

/-- Where a thread is. -/
inductive Phase (τ : Type*) where
  /-- about to acquire the mutex at the head of its loop -/
  | ready
  /-- blocked on the condition variable -/
  | waiting
  /-- out of the condition variable, the mutex not yet acquired again -/
  | woken
  | running (t : τ)
  | exited
  deriving DecidableEq

namespace Phase

variable {τ : Type*}

/-- The task that a thread runs. -/
def task : Phase τ → Multiset τ
  | running t => {t}
  | _ => 0

def wakes : Phase τ → ℕ
  | woken => 1
  | _ => 0

/-- More than the steps a thread can still take for itself once the pool is stopped. -/
def weight : Phase τ → ℕ
  | ready | woken => 2
  | waiting | running _ => 3
  | exited => 0

end Phase

/-- How far the call that stops the pool has come. -/
inductive Closing where
  | uncalled
  /-- the flag is set, `notify_all` comes next -/
  | notifying
  | joining
  | returned
  deriving DecidableEq

def Closing.weight : Closing → ℕ
  | uncalled => 3
  | notifying => 2
  | joining => 1
  | returned => 0

/-- What one pool does and another does not. -/
structure Rules where
  /-- the greatest length of the queue -/
  capacity : Option ℕ
  /-- `notify_one` is called with the mutex held -/
  notifyLocked : Bool

def Rules.admits (r : Rules) (length : ℕ) : Bool :=
  match r.capacity with
  | none => true
  | some capacity => length < capacity

structure State (ι τ : Type*) where
  stopped : Bool
  queue : List τ
  phase : ι → Phase τ
  /-- tasks pushed by a submission that has not yet notified -/
  notifying : List τ
  closing : Closing
  accepted : List τ
  refused : List τ
  /-- tasks that threads have taken, and those they have run -/
  taken : List τ
  finished : List τ

/-- All threads are about to look for a task. -/
def State.fresh (ι τ : Type*) : State ι τ where
  stopped := false
  queue := []
  phase := fun _ => .ready
  notifying := []
  closing := .uncalled
  accepted := []
  refused := []
  taken := []
  finished := []

namespace State

variable {ι τ : Type*} [DecidableEq ι] (s : State ι τ)

def setPhase (w : ι) (p : Phase τ) : State ι τ := { s with phase := Function.update s.phase w p }

/-- `notify_one`, which reaches `w`. -/
def notifyOne : Option ι → State ι τ
  | none => s
  | some w => s.setPhase w .woken

/-- A submission, up to where it releases the mutex. -/
def submit (r : Rules) (t : τ) (w : Option ι) : State ι τ :=
  if s.stopped || !r.admits s.queue.length then { s with refused := s.refused ++ [t] }
  else if r.notifyLocked then
    { s with queue := s.queue ++ [t], accepted := s.accepted ++ [t] }.notifyOne w
  else { s with
    queue := s.queue ++ [t]
    accepted := s.accepted ++ [t]
    notifying := s.notifying ++ [t] }

/-- The critical section of a thread's loop: it blocks, leaves, or takes the first task. -/
def acquire (w : ι) : State ι τ :=
  match s.queue with
  | [] => s.setPhase w (if s.stopped then .exited else .waiting)
  | t :: rest => { s.setPhase w (.running t) with queue := rest, taken := s.taken ++ [t] }

def finish (w : ι) (t : τ) : State ι τ :=
  { s.setPhase w .ready with finished := s.finished ++ [t] }

/-- A second call finds the flag set and returns. -/
def stop : State ι τ := if s.stopped then s else { s with stopped := true, closing := .notifying }

def notifyAll : State ι τ :=
  { s with
    phase := fun w => if s.phase w matches .waiting then .woken else s.phase w
    closing := .joining }

/-- A notification reaches a blocked thread, if there is one. -/
def Reaches : Option ι → Prop
  | none => ∀ w, s.phase w ≠ .waiting
  | some w => s.phase w = .waiting

/-- The threads on their way from the condition variable to the mutex. -/
def wakes [Fintype ι] : ℕ := ∑ w, (s.phase w).wakes

def rank [Fintype ι] : ℕ :=
  3 * s.queue.length + s.notifying.length + ∑ w, (s.phase w).weight + s.closing.weight

end State

inductive Move (ι τ : Type*) where
  | submit (t : τ) (w : Option ι)
  /-- the submission of `t` notifies, past the mutex -/
  | notify (t : τ) (w : Option ι)
  /-- a wake-up without a notification -/
  | wake (w : ι)
  | acquire (w : ι)
  | finish (w : ι) (t : τ)
  | stop
  | notifyAll
  | join

/-- A step that is not a call from outside. -/
def Move.inner {ι τ : Type*} : Move ι τ → Bool
  | submit .. | stop => false
  | _ => true

/-- A step that is due: neither a call from outside nor a wake-up without a notification. -/
def Move.due {ι τ : Type*} : Move ι τ → Bool
  | submit .. | stop | wake _ => false
  | _ => true

variable {ι τ : Type*} {s : State ι τ}

/-! ### What one thread's move changes -/

section Moves

variable {w v : ι} {p q : Phase τ}

theorem State.phase_of_notifyAll (hne : .woken ≠ q) (hv : s.notifyAll.phase v = q) :
    s.phase v = q := by
  simp only [notifyAll] at hv
  split at hv
  · exact absurd hv hne
  · exact hv

theorem State.exists_reaches (s : State ι τ) : ∃ w, s.Reaches w := by
  by_cases h : ∃ w, s.phase w = .waiting
  · obtain ⟨w, hw⟩ := h
    exact ⟨some w, hw⟩
  · exact ⟨none, fun w hw => h ⟨w, hw⟩⟩

variable [DecidableEq ι]

theorem State.acquire_nil (h : s.queue = []) (w : ι) :
    s.acquire w = s.setPhase w (if s.stopped then .exited else .waiting) := by
  rw [acquire, h]

theorem State.acquire_cons {t : τ} {rest : List τ} (h : s.queue = t :: rest) (w : ι) :
    s.acquire w =
      { s.setPhase w (.running t) with queue := rest, taken := s.taken ++ [t] } := by
  rw [acquire, h]

/-- A thread found in a phase that the move does not lead to was in it before. -/
theorem State.phase_of_setPhase (hne : p ≠ q) (hv : (s.setPhase w p).phase v = q) :
    s.phase v = q := by
  change Function.update s.phase w p v = q at hv
  rw [Function.update_apply] at hv
  split at hv
  · exact absurd hv hne
  · exact hv

variable [Fintype ι]

theorem State.sum_setPhase {M : Type*} [AddCommMonoid M] (f : Phase τ → M) (s : State ι τ) (w : ι)
    (p : Phase τ) :
    ∑ v, f ((s.setPhase w p).phase v) + f (s.phase w) = ∑ v, f (s.phase v) + f p :=
  Family.sum_univ_update f s.phase w p

theorem State.wakes_setPhase (s : State ι τ) (w : ι) (p : Phase τ) :
    (s.setPhase w p).wakes + (s.phase w).wakes = s.wakes + p.wakes := s.sum_setPhase Phase.wakes w p

/-- A thread that is still blocked after a notification was blocked before, and the notification
has roused another one. -/
theorem State.wakes_notifyOne {w : Option ι} (hw : s.Reaches w)
    (hv : (s.notifyOne w).phase v = .waiting) :
    s.phase v = .waiting ∧ (s.notifyOne w).wakes = s.wakes + 1 := by
  cases w with
  | none => exact absurd hv (hw v)
  | some u =>
    have hu : s.phase u = .waiting := hw
    have hsum := s.wakes_setPhase u .woken
    rw [hu] at hsum
    exact ⟨State.phase_of_setPhase (by simp) hv, hsum⟩

end Moves

/-! ### What every step keeps -/

section Accounts

variable [Fintype ι]

structure Sound (s : State ι τ) : Prop where
  order : s.accepted = s.taken ++ s.queue
  started : (s.taken : Multiset τ) = s.finished + ∑ w, (s.phase w).task
  awake : ∀ w, s.phase w = .waiting → s.queue.length ≤ s.notifying.length + s.wakes
  flag : s.stopped = true ↔ s.closing ≠ .uncalled
  stirred : s.closing = .joining ∨ s.closing = .returned → ∀ w, s.phase w ≠ .waiting
  left : ∀ w, s.phase w = .exited → s.stopped = true ∧ s.queue = []
  joined : s.closing = .returned → ∀ w, s.phase w = .exited

namespace Sound

variable {w : ι} {t : τ}

theorem pushed (h : Sound s) (hs : s.stopped = false) (t : τ) :
    Sound { s with
      queue := s.queue ++ [t]
      accepted := s.accepted ++ [t]
      notifying := s.notifying ++ [t] } where
  order := by rw [h.order, List.append_assoc]
  started := h.started
  awake w hw := by
    have := h.awake w hw
    change (s.queue ++ [t]).length ≤ (s.notifying ++ [t]).length + s.wakes
    rw [List.length_append, List.length_append]
    omega
  flag := h.flag
  stirred := h.stirred
  left w hw := absurd (h.left w hw).1 (by rw [hs]; exact Bool.false_ne_true)
  joined := h.joined

theorem stop (h : Sound s) : Sound s.stop := by
  unfold State.stop
  split
  · exact h
  · next hs =>
    have hopen : s.closing = .uncalled := by
      by_contra hc
      exact hs (h.flag.mpr hc)
    exact {
      order := h.order
      started := h.started
      awake := h.awake
      flag := by simp
      stirred := by simp
      left := fun w hw => absurd (h.left w hw).1 hs
      joined := by simp }

/-- `notify_all` moves the blocked threads and no other. -/
theorem notifyAll (h : Sound s) (hc : s.closing = .notifying) : Sound s.notifyAll := by
  have hphase : ∀ w, s.notifyAll.phase w = if s.phase w matches .waiting then .woken
      else s.phase w := fun _ => rfl
  have hnone : ∀ w, s.notifyAll.phase w ≠ .waiting := by
    intro w
    rw [hphase]
    cases s.phase w <;> simp
  have htask : ∀ w, (s.notifyAll.phase w).task = (s.phase w).task := by
    intro w
    rw [hphase]
    cases s.phase w <;> rfl
  have hs : s.stopped = true := h.flag.mpr (by rw [hc]; simp)
  refine ⟨h.order, ?_, ?_, ?_, ?_, ?_, ?_⟩
  · rw [Finset.sum_congr rfl fun w _ => htask w]
    exact h.started
  · intro w hw
    exact absurd hw (hnone w)
  · exact ⟨fun _ => by simp [State.notifyAll], fun _ => hs⟩
  · intro _
    exact hnone
  · intro w hw
    exact h.left w (State.phase_of_notifyAll (by simp) hw)
  · intro hc'
    cases hc'

/-- **The end of a pool.**  When the call that stops it has returned, every accepted task has been
run. -/
theorem drained [Nonempty ι] (h : Sound s) (hc : s.closing = .returned) :
    s.queue = [] ∧ (s.finished : Multiset τ) = s.accepted := by
  have hexit := h.joined hc
  obtain ⟨w⟩ := ‹Nonempty ι›
  have hq : s.queue = [] := (h.left w (hexit w)).2
  have hidle : ∑ v, (s.phase v).task = 0 := Finset.sum_eq_zero fun v _ => by
    rw [hexit v]
    rfl
  refine ⟨hq, ?_⟩
  rw [h.order, hq, List.append_nil, h.started, hidle, add_zero]

variable [DecidableEq ι]

/-- One notification less on its way, a blocked thread roused. -/
theorem notified (h : Sound s) {w : Option ι} {n : List τ} (hw : s.Reaches w)
    (hn : s.notifying.length ≤ n.length + 1) :
    Sound { s.notifyOne w with notifying := n } := by
  have awake : ∀ v, (s.notifyOne w).phase v = .waiting →
      (s.notifyOne w).queue.length ≤ n.length + (s.notifyOne w).wakes := by
    intro v hv
    obtain ⟨hv', hwakes⟩ := State.wakes_notifyOne hw hv
    have hqueue : (s.notifyOne w).queue = s.queue := by cases w <;> rfl
    have := h.awake v hv'
    rw [hqueue, hwakes]
    omega
  cases w with
  | none => exact ⟨h.order, h.started, awake, h.flag, h.stirred, h.left, h.joined⟩
  | some u =>
    have hu : s.phase u = .waiting := hw
    have htasks := s.sum_setPhase Phase.task u .woken
    rw [hu] at htasks
    simp only [Phase.task, add_zero] at htasks
    exact {
      order := h.order
      started := h.started.trans (congrArg _ htasks.symm)
      awake := awake
      flag := h.flag
      stirred := fun hc => absurd hu (h.stirred hc u)
      left := fun v hv => h.left v (State.phase_of_setPhase (by simp) hv)
      joined := fun hc => absurd hu (h.stirred (.inr hc) u) }

theorem submit (h : Sound s) (r : Rules) (t : τ) {w : Option ι}
    (hw : r.notifyLocked = true → s.Reaches w) : Sound (s.submit r t w) := by
  unfold State.submit
  split
  · exact ⟨h.order, h.started, h.awake, h.flag, h.stirred, h.left, h.joined⟩
  · next hno =>
    have hs : s.stopped = false := by
      cases hs : s.stopped with
      | false => rfl
      | true => exact absurd (by simp [hs]) hno
    have hpush := h.pushed hs t
    split
    · next hlocked =>
      -- the notification under the mutex is the one the push has announced
      have hreach : State.Reaches { s with
          queue := s.queue ++ [t]
          accepted := s.accepted ++ [t]
          notifying := s.notifying ++ [t] } w := by
        cases w <;> exact hw hlocked
      have := hpush.notified (n := s.notifying) hreach (by simp)
      cases w <;> exact this
    · exact hpush

/-- A thread that finds the queue empty. -/
theorem idle (h : Sound s) (hw : (s.phase w).task = 0) (hstay : s.phase w ≠ .exited)
    (hq : s.queue = []) :
    Sound (s.setPhase w (if s.stopped then .exited else .waiting)) := by
  have hnone : (if s.stopped then Phase.exited else .waiting : Phase τ).task = 0 := by
    split <;> rfl
  have htasks := s.sum_setPhase Phase.task w (if s.stopped then .exited else .waiting)
  rw [hw, hnone, add_zero, add_zero] at htasks
  refine ⟨h.order, h.started.trans (congrArg _ htasks.symm), ?_, h.flag, ?_, ?_, ?_⟩
  · intro v _
    change s.queue.length ≤ _
    rw [hq]
    exact Nat.zero_le _
  · intro hc v hv
    have hs : s.stopped = true := h.flag.mpr fun hu => by
      rcases hc with hc | hc <;> exact absurd (hc.symm.trans hu) (by simp)
    rw [if_pos hs] at hv
    exact h.stirred hc v (State.phase_of_setPhase (by simp) hv)
  · intro v hv
    refine ⟨?_, hq⟩
    cases hs : s.stopped with
    | true => exact hs
    | false =>
      rw [hs] at hv
      have hv' := (h.left v (State.phase_of_setPhase (by simp) hv)).1
      exact absurd hv' (by rw [hs]; exact Bool.false_ne_true)
  · intro hc
    exact absurd (h.joined hc w) hstay

/-- A thread that takes the first task. -/
theorem take (h : Sound s) {rest : List τ} (hw : (s.phase w).task = 0)
    (hone : (s.phase w).wakes ≤ 1) (hstay : s.phase w ≠ .exited) (hq : s.queue = t :: rest) :
    Sound { s.setPhase w (.running t) with queue := rest, taken := s.taken ++ [t] } := by
  have htasks := s.sum_setPhase Phase.task w (.running t)
  rw [hw, add_zero] at htasks
  refine ⟨?_, ?_, ?_, h.flag, ?_, ?_, ?_⟩
  · change s.accepted = s.taken ++ [t] ++ rest
    rw [h.order, hq, List.append_assoc]
    rfl
  · change ((s.taken ++ [t] : List τ) : Multiset τ) = _ + ∑ v, ((s.setPhase w _).phase v).task
    rw [htasks, ← Multiset.coe_add, h.started, add_assoc]
    rfl
  · intro v hv
    have hbefore := h.awake v (State.phase_of_setPhase (by simp) hv)
    have hwakes := s.wakes_setPhase w (.running t)
    change rest.length ≤ s.notifying.length + (s.setPhase w (.running t)).wakes
    rw [hq, List.length_cons] at hbefore
    simp only [Phase.wakes] at hwakes hone
    omega
  · intro hc v hv
    exact h.stirred hc v (State.phase_of_setPhase (by simp) hv)
  · intro v hv
    have hempty := (h.left v (State.phase_of_setPhase (by simp) hv)).2
    exact absurd hempty (by rw [hq]; simp)
  · intro hc
    exact absurd (h.joined hc w) hstay

theorem acquire (h : Sound s) (hw : s.phase w = .ready ∨ s.phase w = .woken) :
    Sound (s.acquire w) := by
  have htask : (s.phase w).task = 0 := by rcases hw with hw | hw <;> rw [hw] <;> rfl
  have hone : (s.phase w).wakes ≤ 1 := by rcases hw with hw | hw <;> rw [hw] <;> simp [Phase.wakes]
  have hstay : s.phase w ≠ .exited := by rcases hw with hw | hw <;> rw [hw] <;> simp
  cases hq : s.queue with
  | nil =>
    rw [State.acquire_nil hq]
    exact h.idle htask hstay hq
  | cons t rest =>
    rw [State.acquire_cons hq]
    exact h.take htask hone hstay hq

theorem finish (h : Sound s) (hw : s.phase w = .running t) : Sound (s.finish w t) := by
  have htasks := s.sum_setPhase Phase.task w .ready
  have hwakes := s.wakes_setPhase w .ready
  rw [hw] at htasks hwakes
  refine ⟨h.order, ?_, ?_, h.flag, ?_, ?_, ?_⟩
  · change (s.taken : Multiset τ) = ((s.finished ++ [t] : List τ) : Multiset τ) +
      ∑ v, ((s.setPhase w _).phase v).task
    rw [h.started, ← Multiset.coe_add, add_assoc]
    refine congrArg _ ?_
    rw [add_comm (([t] : List τ) : Multiset τ)]
    exact (htasks.trans (add_zero _)).symm
  · intro v hv
    have hbefore := h.awake v (State.phase_of_setPhase (by simp) hv)
    exact Nat.le_trans hbefore (Nat.add_le_add_left (Nat.le_of_eq hwakes.symm) _)
  · intro hc v hv
    exact h.stirred hc v (State.phase_of_setPhase (by simp) hv)
  · intro v hv
    exact h.left v (State.phase_of_setPhase (by simp) hv)
  · intro hc
    exact absurd ((h.joined hc w).symm.trans hw) (by simp)

end Sound

end Accounts

/-! ### Where a task is -/

namespace Sound

variable [Fintype ι] [DecidableEq τ] {w : ι} {t : τ}

theorem count_accepted (h : Sound s) (t : τ) :
    s.accepted.count t = s.queue.count t + s.finished.count t +
      ∑ w, (s.phase w).task.count t := by
  have htaken : s.taken.count t = s.finished.count t + ∑ w, (s.phase w).task.count t := by
    have := congrArg (Multiset.count t) h.started
    rwa [Multiset.count_add, Multiset.count_sum', Multiset.coe_count, Multiset.coe_count] at this
  rw [h.order, List.count_append, htaken]
  omega

theorem count_running (hw : s.phase w = .running t) : 1 ≤ ∑ v, (s.phase v).task.count t := by
  have hle := Finset.single_le_sum (f := fun v => (s.phase v).task.count t)
    (fun _ _ => Nat.zero_le _) (Finset.mem_univ w)
  have hself : (s.phase w).task.count t = 1 := by
    rw [hw]
    exact Multiset.count_singleton_self t
  simp only [hself] at hle
  exact hle

theorem mem_of_running (h : Sound s) (hw : s.phase w = .running t) : t ∈ s.accepted := by
  have hcount := h.count_accepted t
  have hpos := count_running hw
  exact List.count_pos_iff.mp (by omega)

theorem mem_of_finished (h : Sound s) (hf : t ∈ s.finished) : t ∈ s.accepted := by
  have hcount := h.count_accepted t
  have hpos := List.count_pos_iff.mpr hf
  exact List.count_pos_iff.mp (by omega)

/-- A task submitted once and being run is in no other place. -/
theorem alone (h : Sound s) (hone : s.accepted.count t ≤ 1) (hw : s.phase w = .running t) :
    t ∉ s.queue ∧ t ∉ s.finished ∧ ∀ v, s.phase v = .running t → v = w := by
  have hcount := h.count_accepted t
  have hself : ∀ v, s.phase v = .running t → (s.phase v).task.count t = 1 := by
    intro v hv
    rw [hv]
    exact Multiset.count_singleton_self t
  have hpos := count_running hw
  have hsum : ∑ v, (s.phase v).task.count t = 1 := by omega
  refine ⟨List.count_eq_zero.mp (by omega), List.count_eq_zero.mp (by omega), ?_⟩
  intro v hv
  by_contra hne
  have hpair := Finset.add_le_sum (f := fun v => (s.phase v).task.count t)
    (fun _ _ => Nat.zero_le _) (Finset.mem_univ v) (Finset.mem_univ w) hne
  simp only [hself v hv, hself w hw] at hpair
  omega

theorem placed (h : Sound s) (ht : t ∈ s.accepted) :
    t ∈ s.queue ∨ t ∈ s.finished ∨ ∃ w, s.phase w = .running t := by
  have hcount := h.count_accepted t
  have hpos := List.count_pos_iff.mpr ht
  by_cases hq : t ∈ s.queue
  · exact .inl hq
  by_cases hf : t ∈ s.finished
  · exact .inr (.inl hf)
  rw [List.count_eq_zero.mpr hq, List.count_eq_zero.mpr hf] at hcount
  obtain ⟨w, _, hw⟩ := Finset.exists_ne_zero_of_sum_ne_zero
    (f := fun v => (s.phase v).task.count t) (s := Finset.univ) (by omega)
  refine .inr (.inr ⟨w, ?_⟩)
  cases hp : s.phase w with
  | running u =>
    rw [hp] at hw
    have hmem : t ∈ ({u} : Multiset τ) := Multiset.count_ne_zero.mp hw
    rw [Multiset.mem_singleton.mp hmem]
  | _ =>
    rw [hp] at hw
    exact absurd rfl hw

end Sound

/-! ### How far the end is -/

section Rank

variable [Fintype ι]

theorem State.exists_woken (h : 0 < s.wakes) : ∃ w, s.phase w = .woken := by
  obtain ⟨w, _, hw⟩ := Finset.exists_ne_zero_of_sum_ne_zero (Nat.ne_of_gt h)
  refine ⟨w, ?_⟩
  cases hp : s.phase w <;> rw [hp] at hw <;> first | rfl | exact absurd rfl hw

theorem State.rank_notifyAll (hc : s.closing = .notifying) : s.notifyAll.rank + 1 ≤ s.rank := by
  have hsum : ∑ w, (s.notifyAll.phase w).weight ≤ ∑ w, (s.phase w).weight := by
    refine Finset.sum_le_sum fun w _ => ?_
    change (if s.phase w matches .waiting then Phase.woken else s.phase w).weight ≤ _
    cases s.phase w <;> simp [Phase.weight]
  simp only [rank, hc, Closing.weight, notifyAll] at hsum ⊢
  omega

variable [DecidableEq ι]

theorem State.rank_setPhase (s : State ι τ) (w : ι) (p : Phase τ) :
    (s.setPhase w p).rank + (s.phase w).weight = s.rank + p.weight := by
  have hsum := s.sum_setPhase Phase.weight w p
  simp only [rank, setPhase] at hsum ⊢
  omega

theorem State.rank_notifyOne {w : Option ι} (hw : s.Reaches w) : (s.notifyOne w).rank ≤ s.rank := by
  cases w with
  | none => exact Nat.le_refl _
  | some u =>
    have hsum := s.rank_setPhase u .woken
    rw [show s.phase u = .waiting from hw] at hsum
    simp only [Phase.weight] at hsum
    change (s.setPhase u .woken).rank ≤ _
    omega

theorem State.rank_acquire {w : ι} (hs : s.stopped = true)
    (hw : s.phase w = .ready ∨ s.phase w = .woken) : (s.acquire w).rank + 1 ≤ s.rank := by
  have hweight : (s.phase w).weight = 2 := by rcases hw with hw | hw <;> rw [hw] <;> rfl
  cases hq : s.queue with
  | nil =>
    have hsum := s.rank_setPhase w .exited
    rw [hweight] at hsum
    rw [State.acquire_nil hq, if_pos hs]
    simp only [Phase.weight] at hsum
    omega
  | cons t rest =>
    have hsum := s.sum_setPhase Phase.weight w (.running t)
    rw [hweight, show (Phase.running t).weight = 3 from rfl] at hsum
    rw [State.acquire_cons hq]
    simp only [rank, setPhase, hq, List.length_cons] at hsum ⊢
    omega

end Rank

/-! ### The machine -/

variable [DecidableEq ι] [DecidableEq τ] {r : Rules}

def pool (r : Rules) : Machine (State ι τ) (Move ι τ) where
  init s := s.stopped = false ∧ s.queue = [] ∧ (∀ w, s.phase w = .ready) ∧ s.notifying = [] ∧
    s.closing = .uncalled ∧ s.accepted = [] ∧ s.refused = [] ∧ s.taken = [] ∧ s.finished = []
  enabled s
    | .submit _ w => r.notifyLocked = true → s.Reaches w
    | .notify t w => t ∈ s.notifying ∧ s.Reaches w
    | .wake w => s.phase w = .waiting
    | .acquire w => s.phase w = .ready ∨ s.phase w = .woken
    | .finish w t => s.phase w = .running t
    | .stop => True
    | .notifyAll => s.closing = .notifying
    | .join => s.closing = .joining ∧ ∀ w, s.phase w = .exited
  next s
    | .submit t w => s.submit r t w
    | .notify t w => { s.notifyOne w with notifying := s.notifying.erase t }
    | .wake w => s.setPhase w .woken
    | .acquire w => s.acquire w
    | .finish w t => s.finish w t
    | .stop => s.stop
    | .notifyAll => s.notifyAll
    | .join => { s with closing := .returned }

theorem fresh_reach (r : Rules) : (pool r).Reach (State.fresh ι τ) :=
  .start ⟨rfl, rfl, fun _ => rfl, rfl, rfl, rfl, rfl, rfl, rfl⟩

/-- A thread that is neither blocked nor gone has a step. -/
theorem exists_due {w : ι} (hwait : s.phase w ≠ .waiting) (hexit : s.phase w ≠ .exited) :
    ∃ a : Move ι τ, a.due = true ∧ (pool r).enabled s a := by
  cases hp : s.phase w with
  | ready => exact ⟨.acquire w, rfl, .inl hp⟩
  | waiting => exact absurd hp hwait
  | woken => exact ⟨.acquire w, rfl, .inr hp⟩
  | running t => exact ⟨.finish w t, rfl, hp⟩
  | exited => exact absurd hp hexit

theorem stopped_next {a : Move ι τ} (hs : s.stopped = true) :
    ((pool r).next s a).stopped = true := by
  cases a with
  | submit t w =>
    change (s.submit r t w).stopped = true
    rw [State.submit, if_pos (by simp [hs])]
    exact hs
  | notify t w => cases w <;> exact hs
  | acquire w =>
    change (s.acquire w).stopped = true
    unfold State.acquire
    split <;> exact hs
  | stop =>
    change s.stop.stopped = true
    rw [State.stop, if_pos hs]
    exact hs
  | _ => exact hs

variable [Fintype ι]

instance decidableReaches (s : State ι τ) (w : Option ι) : Decidable (s.Reaches w) := by
  rcases w <;> (dsimp only [State.Reaches]; infer_instance)

instance decidableEnabled (r : Rules) (s : State ι τ) (a : Move ι τ) :
    Decidable ((pool r).enabled s a) := by
  rcases a <;> (dsimp only [pool]; infer_instance)

theorem Sound.next (h : Sound s) {a : Move ι τ} (he : (pool r).enabled s a) :
    Sound ((pool r).next s a) := by
  cases a with
  | submit t w => exact h.submit r t he
  | notify t w =>
    refine h.notified he.2 ?_
    rw [List.length_erase_of_mem he.1]
    omega
  | wake w => exact h.notified (w := some w) (n := s.notifying) he (by omega)
  | acquire w => exact h.acquire he
  | finish w t => exact h.finish he
  | stop => exact h.stop
  | notifyAll => exact h.notifyAll he
  | join =>
    exact ⟨h.order, h.started, h.awake,
      ⟨fun _ => (by simp [pool]), fun _ => h.flag.mpr (by rw [he.1]; simp)⟩,
      fun _ => h.stirred (.inl he.1), h.left, fun _ => he.2⟩

theorem Sound.init (h : (pool r).init s) : Sound s := by
  obtain ⟨hs, hq, hp, hn, hc, ha, _, ht, hf⟩ := h
  refine ⟨?_, ?_, ?_, ?_, ?_, ?_, ?_⟩
  · rw [ha, ht, hq]
    rfl
  · rw [ht, hf, Finset.sum_eq_zero fun w _ => by rw [hp w]; rfl]
    rfl
  · intro w _
    rw [hq]
    exact Nat.zero_le _
  · rw [hs, hc]
    simp
  · rw [hc]
    simp
  · intro w hw
    exact absurd ((hp w).symm.trans hw) (by simp)
  · rw [hc]
    simp

theorem sound {ok : State ι τ → Move ι τ → Prop} (h : (pool r).ReachVia ok s) : Sound s :=
  h.invariant (fun _ => Sound.init) fun _ _ hs he _ => hs.next he

/-! ### Nothing is left waiting -/

/-- **No lost wake-up.**  While a task is in the queue, a notification is on its way or a thread
runs. -/
theorem Sound.work_pending [Nonempty ι] (h : Sound s) (hq : s.queue ≠ []) :
    ∃ a : Move ι τ, a.due = true ∧ (pool r).enabled s a := by
  obtain ⟨v⟩ := ‹Nonempty ι›
  have hexit : ∀ w, s.phase w ≠ .exited := fun w hw => hq (h.left w hw).2
  by_cases hv : s.phase v = .waiting
  · have hpos : 0 < s.notifying.length + s.wakes :=
      Nat.lt_of_lt_of_le (List.length_pos_of_ne_nil hq) (h.awake v hv)
    rcases Nat.eq_zero_or_pos s.wakes with hwakes | hwakes
    · obtain ⟨t, ht⟩ := List.exists_mem_of_length_pos (l := s.notifying) (by omega)
      obtain ⟨w, hw⟩ := s.exists_reaches
      exact ⟨.notify t w, rfl, ht, hw⟩
    · obtain ⟨w, hw⟩ := State.exists_woken hwakes
      exact exists_due (by rw [hw]; simp) (hexit w)
  · exact exists_due hv (hexit v)

/-- The call that stops the pool is not stuck. -/
theorem Sound.stopping_moves (h : Sound s) (hs : s.stopped = true) (hc : s.closing ≠ .returned) :
    ∃ a : Move ι τ, a.due = true ∧ (pool r).enabled s a := by
  cases hclosing : s.closing with
  | uncalled => exact absurd hclosing (h.flag.mp hs)
  | notifying => exact ⟨.notifyAll, rfl, hclosing⟩
  | joining =>
    by_cases hall : ∀ w, s.phase w = .exited
    · exact ⟨.join, rfl, hclosing, hall⟩
    · obtain ⟨w, hw⟩ := not_forall.mp hall
      exact exists_due (h.stirred (.inl hclosing) w) hw
  | returned => exact absurd hclosing hc

/-- Once the flag is set, calls from outside change nothing that counts, and every other step
brings the end nearer. -/
theorem rank_next {a : Move ι τ} (hs : s.stopped = true) (he : (pool r).enabled s a) :
    ((pool r).next s a).rank + (if a.inner then 1 else 0) ≤ s.rank := by
  cases a with
  | submit t w =>
    change (s.submit r t w).rank + 0 ≤ _
    rw [State.submit, if_pos (by simp [hs])]
    exact Nat.le_refl _
  | notify t w =>
    have hle := State.rank_notifyOne he.2
    have hpos := List.length_pos_of_mem he.1
    have hlen := List.length_erase_of_mem he.1
    have hsame : (s.notifyOne w).notifying = s.notifying := by cases w <;> rfl
    change State.rank { s.notifyOne w with notifying := s.notifying.erase t } + 1 ≤ _
    simp only [State.rank, hsame, hlen] at hle ⊢
    omega
  | wake w =>
    have hsum := s.rank_setPhase w .woken
    rw [show s.phase w = .waiting from he] at hsum
    simp only [Phase.weight] at hsum
    change (s.setPhase w .woken).rank + 1 ≤ _
    omega
  | acquire w => exact State.rank_acquire hs he
  | finish w t =>
    have hsum := s.rank_setPhase w .ready
    rw [show s.phase w = .running t from he] at hsum
    simp only [Phase.weight] at hsum
    change (s.setPhase w .ready).rank + 1 ≤ _
    omega
  | stop =>
    change s.stop.rank + 0 ≤ _
    rw [State.stop, if_pos hs]
    exact Nat.le_refl _
  | notifyAll => exact State.rank_notifyAll he
  | join =>
    change State.rank { s with closing := .returned } + 1 ≤ s.rank
    simp only [State.rank, he.1, Closing.weight]
    omega

/-- Whatever the run does after the flag is set, it takes at most `rank` steps that are not calls
from outside. -/
theorem stop_bounded {ok : State ι τ → Move ι τ → Prop} {trace : List (Move ι τ)}
    (hs : s.stopped = true) (hall : (pool r).Allowed ok s trace) :
    trace.countP Move.inner ≤ s.rank := by
  have hrank := Machine.countP_le_rank (I := fun s : State ι τ => s.stopped = true)
    (fun s => s.rank) Move.inner (fun _ _ hs _ _ => stopped_next hs)
    (fun _ _ hs he _ => rank_next hs he) hs hall
  omega

end PulsarRuntime.WorkerPool
