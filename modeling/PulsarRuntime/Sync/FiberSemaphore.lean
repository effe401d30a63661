import Mathlib.Algebra.BigOperators.Ring.Finset
import Mathlib.Data.Int.ModEq
import PulsarRuntime.Lib.Family
import PulsarRuntime.Sync.Listed

/-!
# `FiberSemaphore`: permits are conserved and nobody sleeps on a request that could be served

`wait` takes its permits under the guard or parks; `signal` adds permits and wakes everybody, and
the woken waiters compete anew.  The machine interleaves the critical sections of any number of
`wait` calls with arbitrary counts and timeouts, on any kind of scheduler, with `signal`,
`cancelWaiters` and everything `WaitQueue` does for the parked calls.  Each step is a whole
critical section, so the guard is free in every state.

`taken` records what the decrement of a `wait` took out of `count_`, `signalled` what the calls of
`signal` have put in.
-/

namespace PulsarRuntime.Sync

open Finset (range)

/-- Where a call of `FiberSemaphore::wait` is. -/
inductive SemPc where
  /-- at the head of the loop, about to take the guard -/
  | guard
  /-- inside this call of `waitLocked` -/
  | waiting (c : ℕ)
  /-- returned: 0, or -1 with this `errno` -/
  | returned (error : ℤ)
  deriving DecidableEq, Repr

def SemPc.done : SemPc → Bool
  | .returned _ => true
  | _ => false

structure SemWait (F : Type) where
  fiber : F
  count : ℕ
  timeout : ℕ
  deadline : ℕ
  pc : SemPc
  taken : ℕ

structure FiberSemaphore (F : Type) where
  queue : WaitQueue F
  /-- `count_` -/
  count : ℕ
  waits : ℕ → SemWait F
  /-- the number of calls of `wait` so far -/
  made : ℕ
  initial : ℕ
  signalled : ℕ

variable {F : Type}

namespace FiberSemaphore

variable (s : FiberSemaphore F)

def setWait (w : ℕ) (k : SemWait F) : FiberSemaphore F :=
  { s with waits := Function.update s.waits w k }

def setPc (w : ℕ) (pc : SemPc) : FiberSemaphore F :=
  s.setWait w { s.waits w with pc := pc }

/-- `wait` up to its loop; a call for no permit returns at once. -/
def wait (fiber : F) (count timeout now : ℕ) : FiberSemaphore F :=
  let deadline := if timeout = kFiberWaitForever then 0 else (now + timeout) % 2 ^ 64
  let pc := if count = 0 then SemPc.returned 0 else .guard
  { s.setWait s.made ⟨fiber, count, timeout, deadline, pc, 0⟩ with made := s.made + 1 }

/-- `count_ -= count` and the return. -/
def take (w : ℕ) : FiberSemaphore F :=
  let k := s.waits w
  { s.setWait w { k with pc := .returned 0, taken := k.taken + k.count } with
    count := s.count - k.count }

/-- `waiters_.waitLocked(guard_, remaining)` up to the release of the guard. -/
def park (w : ℕ) (scheduler : Option SchedulerKind) (thread : ℤ)
    (remaining : ℕ) : FiberSemaphore F :=
  { s.setPc w (.waiting s.queue.count) with
    queue := s.queue.enter (s.waits w).fiber scheduler thread remaining }

/-- One round of the loop of `wait`, up to its `waitLocked`; `now` is read for a timed call. -/
def waitRound (w now : ℕ) (scheduler : Option SchedulerKind) (thread : ℤ) : FiberSemaphore F :=
  let k := s.waits w
  if k.count ≤ s.count then s.take w
  else if k.timeout = kFiberWaitForever then s.park w scheduler thread kFiberWaitForever
  else if k.deadline ≤ now then s.setPc w (.returned ETIMEDOUT)
  else s.park w scheduler thread (k.deadline - now)

/-- What `wait` does with the result of `waitLocked`. -/
def waitReturned (w : ℕ) (error : ℤ) : FiberSemaphore F :=
  if error ≠ 0 then s.setPc w (.returned error) else s.setPc w .guard

def signal (count : ℕ) : FiberSemaphore F :=
  if count = 0 then s
  else { s with
    count := (s.count + count) % 2 ^ 64
    queue := (s.queue.wakeAllLocked 0).1
    signalled := s.signalled + count }

def cancelWaiters (error : ℤ) : FiberSemaphore F × ℕ :=
  let woken := s.queue.wakeAllLocked error
  ({ s with queue := woken.1 }, woken.2)

end FiberSemaphore

inductive SemAction (F : Type) where
  | wait (fiber : F) (count timeout now : ℕ)
  | waitRound (w now : ℕ) (scheduler : Option SchedulerKind) (thread : ℤ)
  | queue (a : Action F)
  | waitReturned (w c : ℕ) (error : ℤ)
  | signal (count : ℕ)
  | cancelWaiters (error : ℤ)

/-- Every interleaving of the calls; counts and timeouts are `uint64_t`. -/
def fiberSemaphore (F : Type) : Machine (FiberSemaphore F) (SemAction F) where
  init s := (waitQueue F).init s.queue ∧ s.made = 0 ∧ s.initial < 2 ^ 64 ∧
    s.count = s.initial ∧ s.signalled = 0
  enabled s
    | .wait fiber count timeout _ =>
        (∀ w < s.made, (s.waits w).fiber = fiber → (s.waits w).pc.done = true) ∧
          count < 2 ^ 64 ∧ timeout < 2 ^ 64
    | .waitRound w _ _ _ => w < s.made ∧ (s.waits w).pc = .guard
    | .queue a => a.internal = true ∧ (waitQueue F).enabled s.queue a
    | .waitReturned w c error => (w < s.made ∧ (s.waits w).pc = .waiting c) ∧
        (s.queue.calls c).pc = .returned error
    | .signal count => count < 2 ^ 64
    | .cancelWaiters _ => True
  next s
    | .wait fiber count timeout now => s.wait fiber count timeout now
    | .waitRound w now scheduler thread => s.waitRound w now scheduler thread
    | .queue a => { s with queue := (waitQueue F).next s.queue a }
    | .waitReturned w _ error => s.waitReturned w error
    | .signal count => s.signal count
    | .cancelWaiters error => (s.cancelWaiters error).1

instance [DecidableEq F] (s : FiberSemaphore F) (a : SemAction F) :
    Decidable ((fiberSemaphore F).enabled s a) := by
  rcases a <;> (dsimp only [fiberSemaphore]; infer_instance)

/-- A call that has returned 0 has taken its permits, any other call none; and one that is queued
asks for more than there are. -/
structure SemWait.Fair (k : SemWait F) (q : WaitQueue F) (count : ℕ) : Prop where
  granted : k.pc = .returned 0 → k.taken = k.count
  refused : k.pc ≠ .returned 0 → k.taken = 0
  inside : ∀ c, k.pc = .waiting c → c < q.count
  starved : ∀ c, k.pc = .waiting c → c ∈ q.waiters → count < k.count

namespace FiberSemaphore

open Family

variable {s : FiberSemaphore F} {w : ℕ}

/-! ### The invariant -/

/-- What the calls of `wait` have taken so far. -/
def taken (s : FiberSemaphore F) : ℤ := ∑ w ∈ range s.made, ((s.waits w).taken : ℤ)

structure Inv (s : FiberSemaphore F) : Prop where
  listed : s.queue.Listed
  fair : ∀ w < s.made, (s.waits w).Fair s.queue s.count
  queued : ∀ c ∈ s.queue.waiters, ∃ w < s.made, (s.waits w).pc = .waiting c
  balance : (s.count : ℤ) ≡ s.initial + s.signalled - s.taken [ZMOD 2 ^ 64]

theorem setWait_waits_ne (s : FiberSemaphore F) {v : ℕ} (k : SemWait F) (h : v ≠ w) :
    (s.setWait w k).waits v = s.waits v := Function.update_of_ne h ..

theorem taken_setWait (s : FiberSemaphore F) (hw : w < s.made) (k : SemWait F) :
    (s.setWait w k).taken = s.taken + ((k.taken : ℤ) - (s.waits w).taken) :=
  sum_update (f := s.waits) (w := fun k : SemWait F => (k.taken : ℤ)) hw k

section

variable (h : Inv s)
include h

theorem Inv.wait (fiber : F) (count timeout now : ℕ) : Inv (s.wait fiber count timeout now) := by
  have hold : ∀ v < s.made, (s.wait fiber count timeout now).waits v = s.waits v :=
    fun v hv => setWait_waits_ne s _ (Nat.ne_of_lt hv)
  have hpc : ∀ c, (if count = 0 then SemPc.returned 0 else .guard) ≠ .waiting c := by
    intro c
    split <;> simp
  refine ⟨h.listed, forall_add (P := fun _ (k : SemWait F) => k.Fair s.queue s.count) h.fair
    ⟨?_, fun _ => rfl, fun c hc => absurd hc (hpc c), fun c hc => absurd hc (hpc c)⟩, ?_, ?_⟩
  · intro hpc
    dsimp only at hpc
    split at hpc
    · rename_i hzero
      exact hzero.symm
    · cases hpc
  · intro c hc
    obtain ⟨v, hv, hpc⟩ := h.queued c hc
    exact ⟨v, Nat.lt_succ_of_lt hv, (congrArg SemWait.pc (hold v hv)).trans hpc⟩
  · have htaken : (s.wait fiber count timeout now).taken = s.taken + 0 :=
      sum_add (f := s.waits) (w := fun k : SemWait F => (k.taken : ℤ)) _
    rw [htaken, add_zero]
    exact h.balance

section

variable (hw : w < s.made)
include hw

/-- A call goes on as `k`, and with it the queue and the count. -/
theorem Inv.change {k : SemWait F} {q : WaitQueue F} {count : ℕ}
    (hlisted : q.Listed) (hfair : ∀ v < s.made, (s.waits v).Fair q count) (hk : k.Fair q count)
    (hqueued : ∀ c ∈ q.waiters,
      (c ∈ s.queue.waiters ∧ (s.waits w).pc ≠ .waiting c) ∨ k.pc = .waiting c)
    (hbalance : (count : ℤ) ≡ s.count - (k.taken - (s.waits w).taken) [ZMOD 2 ^ 64]) :
    Inv { s.setWait w k with queue := q, count := count } := by
  refine ⟨hlisted, forall_update (P := fun _ (k : SemWait F) => k.Fair q count) hfair hk, ?_, ?_⟩
  · intro c hc
    rcases hqueued c hc with ⟨hold, hne⟩ | hpc
    · obtain ⟨v, hv, hvc⟩ := h.queued c hold
      have hvw : v ≠ w := fun hvw => hne (hvw ▸ hvc)
      exact ⟨v, hv, (congrArg SemWait.pc (setWait_waits_ne s _ hvw)).trans hvc⟩
    · refine ⟨w, hw, ?_⟩
      show (Function.update s.waits w k w).pc = _
      rw [Function.update_self, hpc]
  · show (count : ℤ) ≡ s.initial + s.signalled - (s.setWait w k).taken [ZMOD 2 ^ 64]
    rw [taken_setWait s hw, ← sub_sub]
    exact hbalance.trans (h.balance.sub_right _)

/-- A call moves on from a point at which its waiter is not queued. -/
theorem Inv.setPc (hout : ∀ c, (s.waits w).pc = .waiting c → c ∉ s.queue.waiters)
    (hopen : (s.waits w).pc ≠ .returned 0) (pc : SemPc) (hpc : ∀ c, pc ≠ .waiting c)
    (hzero : pc ≠ .returned 0) : Inv (s.setPc w pc) := by
  have hnone : (s.waits w).taken = 0 := (h.fair w hw).refused hopen
  exact h.change hw h.listed h.fair ⟨fun hr => absurd hr hzero, fun _ => hnone,
    fun c hc => absurd hc (hpc c), fun c hc => absurd hc (hpc c)⟩
    (fun c hc => .inl ⟨hc, fun hwc => hout c hwc hc⟩) (by rw [sub_self, sub_zero])

theorem Inv.take (hpc : (s.waits w).pc = .guard)
    (hle : (s.waits w).count ≤ s.count) : Inv (s.take w) := by
  have hnone : (s.waits w).taken = 0 := (h.fair w hw).refused (by rw [hpc]; simp)
  refine h.change hw h.listed (fun v hv => { h.fair v hv with starved := fun c hvc hc => ?_ })
    ⟨fun _ => by simp [hnone], fun hr => absurd rfl hr, fun c hc => (by cases hc),
      fun c hc => (by cases hc)⟩ (fun c hc => .inl ⟨hc, by simp [hpc]⟩) ?_
  · exact lt_of_le_of_lt (Nat.sub_le _ _) ((h.fair v hv).starved c hvc hc)
  · rw [hnone, Nat.cast_sub hle, Nat.zero_add, Nat.cast_zero, sub_zero]

theorem Inv.park (hpc : (s.waits w).pc = .guard)
    (hlt : s.count < (s.waits w).count) (scheduler : Option SchedulerKind) (thread : ℤ)
    (remaining : ℕ) : Inv (s.park w scheduler thread remaining) := by
  obtain ⟨hcount, hwaiters⟩ := WaitQueue.enter_spec s.queue (s.waits w).fiber scheduler thread
    remaining
  have hnone : (s.waits w).taken = 0 := (h.fair w hw).refused (by rw [hpc]; simp)
  have hmem : ∀ c ∈ (s.park w scheduler thread remaining).queue.waiters,
      c ∈ s.queue.waiters ∨ c = s.queue.count := by
    intro c hc
    rcases hwaiters with hq | hq
    · exact .inl (hq ▸ hc)
    · have hc' : c ∈ s.queue.waiters ++ [s.queue.count] := hq ▸ hc
      simpa using hc'
  refine h.change hw (h.listed.enter _ scheduler thread remaining)
    (fun v hv => { h.fair v hv with inside := fun c hvc => ?_, starved := fun c hvc hc => ?_ })
    ⟨fun hr => (by cases hr), fun _ => hnone, fun c hc => ?_, fun _ _ _ => hlt⟩
    (fun c hc => (hmem c hc).imp (fun hc => ⟨hc, by simp [hpc]⟩) (by rintro rfl; rfl))
    (by rw [sub_self, sub_zero]; exact .rfl)
  · rw [hcount]
    exact Nat.lt_succ_of_lt ((h.fair v hv).inside c hvc)
  · rcases hmem c hc with hc | rfl
    · exact (h.fair v hv).starved c hvc hc
    · exact absurd ((h.fair v hv).inside _ hvc) (Nat.lt_irrefl _)
  · obtain rfl := SemPc.waiting.inj hc
    rw [hcount]
    exact Nat.lt_succ_self _

theorem Inv.waitRound (hpc : (s.waits w).pc = .guard) (now : ℕ)
    (scheduler : Option SchedulerKind) (thread : ℤ) :
    Inv (s.waitRound w now scheduler thread) := by
  simp only [FiberSemaphore.waitRound]
  split
  · rename_i hle
    exact h.take hw hpc hle
  rename_i hlt
  split
  · exact h.park hw hpc (Nat.lt_of_not_le hlt) ..
  split
  · exact h.setPc hw (by simp [hpc]) (by simp [hpc]) (.returned ETIMEDOUT) (by simp) (by decide)
  · exact h.park hw hpc (Nat.lt_of_not_le hlt) ..

theorem Inv.waitReturned {c : ℕ} (hpc : (s.waits w).pc = .waiting c)
    {error : ℤ} (hret : (s.queue.calls c).pc = .returned error) :
    Inv (s.waitReturned w error) := by
  have hout : ∀ d, (s.waits w).pc = .waiting d → d ∉ s.queue.waiters := by
    intro d hd hmem
    rw [hpc] at hd
    cases hd
    have hrun := h.listed.running c hmem
    rw [hret] at hrun
    cases hrun
  unfold FiberSemaphore.waitReturned
  split
  · rename_i herror
    exact h.setPc hw hout (by simp [hpc]) (.returned error) (by simp) (by simpa using herror)
  · exact h.setPc hw hout (by simp [hpc]) .guard (by simp) (by simp)

end

/-- A step of the queue that adds no waiter. -/
theorem Inv.kept {q : WaitQueue F} (hl : q.Listed) (hcount : q.count = s.queue.count)
    (hsub : ∀ c ∈ q.waiters, c ∈ s.queue.waiters) : Inv { s with queue := q } where
  listed := hl
  fair := fun w hw => { h.fair w hw with
    inside := fun c hpc => lt_of_lt_of_eq ((h.fair w hw).inside c hpc) hcount.symm
    starved := fun c hpc hc => (h.fair w hw).starved c hpc (hsub c hc) }
  queued := fun c hc => h.queued c (hsub c hc)
  balance := h.balance

theorem Inv.wakeAll (error : ℤ) : Inv { s with queue := (s.queue.wakeAllLocked error).1 } := by
  rw [h.listed.wakeAllLocked_eq]
  exact h.kept (.emptied s.queue error) rfl fun c hc => absurd hc List.not_mem_nil

/-- After a `signal` nobody is queued, so the new count owes nothing to anybody. -/
theorem Inv.signal (count : ℕ) : Inv (s.signal count) := by
  unfold FiberSemaphore.signal
  split
  · exact h
  have hwoken := h.wakeAll 0
  rw [h.listed.wakeAllLocked_eq] at hwoken ⊢
  refine ⟨hwoken.listed, fun w hw => { hwoken.fair w hw with
    starved := fun c hpc hc => absurd hc List.not_mem_nil }, hwoken.queued, ?_⟩
  show (((s.count + count) % 2 ^ 64 : ℕ) : ℤ) ≡
    s.initial + ((s.signalled + count : ℕ) : ℤ) - s.taken [ZMOD 2 ^ 64]
  have hwrap : (((s.count + count) % 2 ^ 64 : ℕ) : ℤ) ≡ s.count + count [ZMOD 2 ^ 64] := by
    push_cast
    exact Int.mod_modEq _ _
  have hsum := h.balance.add_right (count : ℤ)
  refine hwrap.trans ?_
  convert hsum using 1
  push_cast
  abel

end

theorem reach_inv (h : (fiberSemaphore F).Reach s) : Inv s := by
  refine h.invariant (I := Inv) (fun s hinit => ?_) (fun s a hs he => ?_)
  · obtain ⟨hqueue, hmade, -, hcount, hsignalled⟩ := hinit
    have htaken : s.taken = 0 := by rw [taken, hmade]; rfl
    refine ⟨.init hqueue, by simp [hmade], ?_, ?_⟩
    · rw [hqueue.2.1]
      exact fun c hc => absurd hc List.not_mem_nil
    · rw [htaken, hcount, hsignalled]
      simp
  · cases a with
    | wait fiber count timeout now => exact hs.wait fiber count timeout now
    | waitRound w now scheduler thread => exact hs.waitRound he.1 he.2 now scheduler thread
    | queue a =>
      have hkept := Kept.internal hs.listed he.1 he.2
      exact hs.kept (hs.listed.next a) hkept.count fun c hc => hkept.waiters.subset hc
    | waitReturned w c error => exact hs.waitReturned he.1.1 he.1.2 he.2
    | signal count => exact hs.signal count
    | cancelWaiters error => exact hs.wakeAll error

/-- The permits of the calls that have returned 0. -/
def granted (s : FiberSemaphore F) : ℕ :=
  ∑ w ∈ range s.made, if (s.waits w).pc = .returned 0 then (s.waits w).count else 0

theorem Inv.taken_eq (h : Inv s) : s.taken = s.granted := by
  simp only [taken, granted, Nat.cast_sum]
  apply Finset.sum_congr rfl
  intro w hw
  have hfair := h.fair w (Finset.mem_range.mp hw)
  split
  · rename_i hpc
    rw [hfair.granted hpc]
  · rename_i hpc
    rw [hfair.refused hpc]

end FiberSemaphore

/-- **Conservation, and no sleeping on a request that could be served.**  In every state that any
interleaving reaches, `count_` is what was there at first and was signalled less the counts of the
calls that have returned 0, modulo 2^64; a call that has returned 0 has taken its count, one that
has returned -1 nothing; and a queued waiter belongs to a call of `wait` that asks for more than
`count_`. -/
theorem semaphore_conserved {s : FiberSemaphore F} (h : (fiberSemaphore F).Reach s) :
    (s.count : ℤ) ≡ s.initial + s.signalled - s.granted [ZMOD 2 ^ 64] ∧
      (∀ w < s.made, ∀ error, (s.waits w).pc = .returned error →
        (s.waits w).taken = if error = 0 then (s.waits w).count else 0) ∧
      ∀ c ∈ s.queue.waiters, (∃ w < s.made, (s.waits w).pc = .waiting c) ∧
        ∀ w < s.made, (s.waits w).pc = .waiting c → s.count < (s.waits w).count := by
  have hinv := FiberSemaphore.reach_inv h
  refine ⟨?_, fun w hw error hpc => ?_, fun c hc => ⟨hinv.queued c hc, fun w hw hpc => ?_⟩⟩
  · rw [← hinv.taken_eq]
    exact hinv.balance
  · split
    · rename_i hzero
      exact (hinv.fair w hw).granted (hzero ▸ hpc)
    · rename_i hne
      exact (hinv.fair w hw).refused (by rw [hpc]; simpa using hne)
  · exact (hinv.fair w hw).starved c hpc hc

/-- A call for three permits meets one, is woken when a second comes, and is queued again. -/
def requeued : List (SemAction Unit) :=
  [.wait () 3 kFiberWaitForever 0, .waitRound 0 0 (some .ioManager) 7, .queue (.arm 0),
    .queue (.yield 0), .signal 1, .queue (.resume 0 0), .queue (.finish 0), .waitReturned 0 0 0,
    .waitRound 0 0 (some .ioManager) 7]

def FiberSemaphore.withPermit : FiberSemaphore Unit where
  queue := ⟨fun _ => ⟨(), none, 0, 0, false, 0, .armed, false, false⟩, 0, [], [], []⟩
  count := 1
  waits := fun _ => ⟨(), 0, 0, 0, .guard, 0⟩
  made := 0
  initial := 1
  signalled := 0

theorem semaphore_conserved_requeued :
    ((fiberSemaphore Unit).run .withPermit requeued).queue.waiters = [1] ∧
      ((fiberSemaphore Unit).run .withPermit requeued).count <
        (((fiberSemaphore Unit).run .withPermit requeued).waits 0).count := by
  have hreach : (fiberSemaphore Unit).Reach ((fiberSemaphore Unit).run .withPermit requeued) :=
    Machine.reachVia_run (.start ⟨⟨rfl, rfl, rfl, rfl⟩, rfl, by decide, rfl, rfl⟩)
      (by decide +kernel)
  have hqueued : ((fiberSemaphore Unit).run .withPermit requeued).queue.waiters = [1] := by
    decide +kernel
  refine ⟨hqueued, ((semaphore_conserved hreach).2.2 1 ?_).2 0 ?_ ?_⟩
  · rw [hqueued]
    exact List.mem_singleton_self 1
  · decide +kernel
  · decide +kernel

end PulsarRuntime.Sync
