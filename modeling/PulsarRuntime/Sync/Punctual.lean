import PulsarRuntime.Sync.Clock
import PulsarRuntime.Sync.FiberSemaphore
import PulsarRuntime.Sync.Handoff

/-!
# Timed synchronisation is punctual

`FiberMutex::lock` and `FiberSemaphore::wait` fix a deadline when they are called, compare the clock
with it in every round, and wait in the queue for the rest.  As far as time goes both are the
same loop, an `Attempt`: it times out only after its timeout because a wait is entered
with the time that is left, and `waitLocked` is punctual.

The deadline, and the deadline of each timer, is a sum of 64 bits.  The results hold in the runs in
which none of them wraps and no waker passes `ETIMEDOUT` itself; `timed_out_at_once` shows a wrap
in each of the three.
-/

namespace PulsarRuntime.Sync

variable {F : Type}

/-! ### The loop that both share -/

/-- A call of `lock` or of `wait`. -/
structure Attempt where
  timeout : ℕ
  deadline : ℕ
  pc : LockPc

/-- The call was made at `started`. -/
structure Attempt.OnTime (a : Attempt) (clk : Clock) (q : WaitQueue F) (started : ℕ) : Prop where
  started_le : started ≤ clk.now
  deadline : a.timeout ≠ kFiberWaitForever → a.deadline = started + a.timeout
  inside : ∀ c, a.pc = .waiting c →
    c < q.count ∧ started + a.timeout ≤ clk.entered c + (q.calls c).timeout
  expired : a.pc = .returned ETIMEDOUT → started + a.timeout ≤ clk.now

/-- The deadline of a call made at `now`. -/
def deadlineOf (timeout now : ℕ) : ℕ :=
  if timeout = kFiberWaitForever then 0 else (now + timeout) % 2 ^ 64

/-- The sum is a deadline, or none is made. -/
def Deadline (timeout now : ℕ) : Prop := timeout = kFiberWaitForever ∨ now + timeout < 2 ^ 64

instance (timeout now : ℕ) : Decidable (Deadline timeout now) :=
  inferInstanceAs (Decidable (_ ∨ _))

namespace Attempt.OnTime

variable {a : Attempt} {clk clk' : Clock} {q q' : WaitQueue F} {started : ℕ}

theorem passed (h : a.OnTime clk q started) (hp : Passed clk q clk' q') :
    a.OnTime clk' q' started := by
  refine ⟨h.started_le.trans hp.now_le, h.deadline, fun c hc => ?_,
    fun hr => (h.expired hr).trans hp.now_le⟩
  obtain ⟨hlt, hle⟩ := h.inside c hc
  rw [hp.entered c hlt, hp.timeout c hlt]
  exact ⟨hlt.trans_le hp.count_le, hle⟩

theorem start {timeout : ℕ} (h : Deadline timeout clk.now) {pc : LockPc}
    (hout : ∀ c, pc ≠ .waiting c) (hpc : pc ≠ .returned ETIMEDOUT) :
    Attempt.OnTime ⟨timeout, deadlineOf timeout clk.now, pc⟩ clk q clk.now := by
  refine ⟨le_rfl, fun hfinite => ?_, fun c hc => absurd hc (hout c), fun hr => absurd hr hpc⟩
  show deadlineOf timeout clk.now = clk.now + timeout
  rw [deadlineOf, if_neg hfinite, Nat.mod_eq_of_lt (h.resolve_left hfinite)]

variable (h : a.OnTime clk q started)
include h

/-- The call moves on to a point outside of the queue. -/
theorem leave {pc : LockPc} (hout : ∀ c, pc ≠ .waiting c)
    (hpc : pc = .returned ETIMEDOUT → started + a.timeout ≤ clk.now) :
    Attempt.OnTime { a with pc := pc } clk q started :=
  ⟨h.started_le, h.deadline, fun c hc => absurd hc (hout c), hpc⟩

/-- The call enters the queue, for no less than the time it has left. -/
theorem park {remaining : ℕ} (hleft : started + a.timeout ≤ clk.now + remaining) (fiber : F)
    (scheduler : Option SchedulerKind) (thread : ℤ) :
    Attempt.OnTime { a with pc := .waiting q.count } (clk.enters q.count)
      (q.enter fiber scheduler thread remaining) started := by
  refine ⟨h.started_le, h.deadline, fun c hc => ?_, fun hr => by cases hr⟩
  obtain rfl : q.count = c := LockPc.waiting.inj hc
  obtain ⟨pc, hcall, -⟩ := q.enter_calls_self fiber scheduler thread remaining
  have hentered : (clk.enters q.count).entered q.count = clk.now := Function.update_self ..
  rw [hcall, hentered, (q.enter_spec fiber scheduler thread remaining).1]
  exact ⟨Nat.lt_succ_self _, hleft⟩

theorem park_forever (ha : a.timeout = kFiberWaitForever) :
    started + a.timeout ≤ clk.now + kFiberWaitForever := by
  rw [ha]
  exact Nat.add_le_add_right h.started_le _

theorem park_rest (ha : a.timeout ≠ kFiberWaitForever) :
    started + a.timeout ≤ clk.now + (a.deadline - clk.now) := by
  rw [h.deadline ha]
  omega

/-- The deadline has been reached. -/
theorem reached (ha : a.timeout ≠ kFiberWaitForever)
    (hle : a.deadline ≤ clk.now) : started + a.timeout ≤ clk.now := h.deadline ha ▸ hle

/-- `waitLocked` returns. -/
theorem returned (hq : Punctual clk q) {c : ℕ} {error : ℤ}
    (hpc : a.pc = .waiting c) (hret : (q.calls c).pc = .returned error) :
    Attempt.OnTime { a with pc := .returned error } clk q started := by
  apply h.leave (fun d hd => by cases hd)
  intro hr
  obtain ⟨hlt, hle⟩ := h.inside c hpc
  rw [LockPc.returned.inj hr] at hret
  exact hle.trans ((hq c hlt).returned hret)

end Attempt.OnTime

/-- All calls of a primitive, kept as records of type `K`. -/
structure AllOnTime {K : Type} (attempt : K → Attempt) (clk : Clock) (q : WaitQueue F)
    (calls : ℕ → K) (count : ℕ) (started : ℕ → ℕ) : Prop where
  queue : Punctual clk q
  calls : ∀ l < count, (attempt (calls l)).OnTime clk q (started l)

namespace AllOnTime

open Family

variable {K : Type} {attempt : K → Attempt} {clk clk' : Clock} {q q' : WaitQueue F}
  {calls : ℕ → K} {count l : ℕ} {started : ℕ → ℕ} {k : K}

section

variable (h : AllOnTime attempt clk q calls count started)
include h

/-- The queue and the clock move, the calls do not. -/
theorem passed (hq : Punctual clk' q')
    (hp : Passed clk q clk' q') : AllOnTime attempt clk' q' calls count started :=
  ⟨hq, fun l hl => (h.calls l hl).passed hp⟩

theorem tick (d : ℕ) : AllOnTime attempt (clk.tick d) q calls count started :=
  h.passed (h.queue.tick d) (.tick d)

theorem enters : AllOnTime attempt (clk.enters q.count) q calls count started :=
  h.passed h.queue.enters (.enters le_rfl fun _ _ => rfl)

/-- A step of the queue. -/
theorem next {a : Action F} (he : (waitQueue F).enabled q a) (hd : clk.Due a) (hs : clk.Sound q a) :
    AllOnTime attempt (clk.record q a) ((waitQueue F).next q a) calls count started :=
  h.passed (h.queue.next he hd hs) (.next hs)

/-- A call is made. -/
theorem add (hk : (attempt k).OnTime clk q clk.now) :
    AllOnTime attempt clk q (Function.update calls count k) (count + 1)
      (Function.update started count clk.now) := by
  refine ⟨h.queue, forall_add (P := fun l k => (attempt k).OnTime clk q
    (Function.update started count clk.now l)) (fun l hl => ?_) ?_⟩
  · rw [Function.update_of_ne (Nat.ne_of_lt hl)]
    exact h.calls l hl
  · rw [Function.update_self]
    exact hk

/-- A call moves. -/
theorem update (hk : (attempt k).OnTime clk q (started l)) :
    AllOnTime attempt clk q (Function.update calls l k) count started :=
  ⟨h.queue, forall_update (P := fun l k => (attempt k).OnTime clk q (started l)) h.calls hk⟩

/-- A call moves to a point outside of the queue. -/
theorem leave (hl : l < count) {pc : LockPc}
    (hk : attempt k = { attempt (calls l) with pc := pc }) (hout : ∀ c, pc ≠ .waiting c)
    (hpc : pc = .returned ETIMEDOUT → started l + (attempt (calls l)).timeout ≤ clk.now) :
    AllOnTime attempt clk q (Function.update calls l k) count started := by
  apply h.update
  rw [hk]
  exact (h.calls l hl).leave hout hpc

/-- A call enters the queue, for no less than the time it has left. -/
theorem park (hl : l < count)
    (hk : attempt k = { attempt (calls l) with pc := .waiting q.count }) {remaining : ℕ}
    (hleft : started l + (attempt (calls l)).timeout ≤ clk.now + remaining) (fiber : F)
    (scheduler : Option SchedulerKind) (thread : ℤ) :
    AllOnTime attempt (clk.enters q.count) (q.enter fiber scheduler thread remaining)
      (Function.update calls l k) count started := by
  have hold : AllOnTime attempt (clk.enters q.count) (q.enter fiber scheduler thread remaining)
      calls count started :=
    h.passed (h.queue.enter fiber scheduler thread remaining)
      (.next (a := .enter fiber scheduler thread remaining) trivial)
  apply hold.update
  rw [hk]
  exact (h.calls l hl).park hleft fiber scheduler thread

/-- `waitLocked` returns to a call, with an error or to the head of its loop. -/
theorem returned (hl : l < count) {c : ℕ} {error : ℤ} (hpc : (attempt (calls l)).pc = .waiting c)
    (hret : (q.calls c).pc = .returned error) {pc : LockPc}
    (hk : attempt k = { attempt (calls l) with pc := pc })
    (hto : pc = .returned error ∨ pc = .guard) :
    AllOnTime attempt clk q (Function.update calls l k) count started := by
  apply h.update
  rw [hk]
  rcases hto with rfl | rfl
  · exact (h.calls l hl).returned h.queue hpc hret
  · exact (h.calls l hl).leave (fun d hd => by cases hd) fun hr => by cases hr

end

/-- No call has been made. -/
theorem init (hq : q.count = 0) (hcount : count = 0) :
    AllOnTime attempt clk q calls count started := by
  subst hcount
  refine ⟨fun c hc => ?_, fun l hl => absurd hl (Nat.not_lt_zero l)⟩
  exact absurd hc (by rw [hq]; exact Nat.not_lt_zero c)

end AllOnTime

/-- A primitive beside the clock, with the times at which its calls were made. -/
structure Watched (σ : Type) where
  base : σ
  clock : Clock
  started : ℕ → ℕ

/-- The clock when it shows `now` and no call has been made. -/
def Clock.fresh (now : ℕ) : Clock := ⟨now, fun _ => 0, fun _ => 0⟩

def Watched.fresh {σ : Type} (now : ℕ) (base : σ) : Watched σ := ⟨base, .fresh now, fun _ => 0⟩

/-! ### `FiberMutex` -/

def Lock.attempt (k : Lock F) : Attempt := ⟨k.timeout, k.deadline, k.pc⟩

namespace Watched

variable (s : Watched (FiberMutex F))

def mutexClock : MutexAction F → Clock
  | .lockRound _ _ _ => s.clock.enters s.base.queue.count
  | .queue a => s.clock.record s.base.queue a
  | _ => s.clock

def mutexStarted : MutexAction F → ℕ → ℕ
  | .lock _ _ _ => Function.update s.started s.base.count s.clock.now
  | _ => s.started

/-- The step reads the clock as it is. -/
def mutexReads : MutexAction F → Prop
  | .lock _ _ now | .lockRound _ now _ => now = s.clock.now
  | .queue a => s.clock.Due a
  | _ => True

/-- No deadline wraps, and `cancelWaiters` is not given `ETIMEDOUT`. -/
def SoundMutex : Timed (MutexAction F) → Prop
  | .act (.lock _ timeout now) => Deadline timeout now
  | .act (.queue a) => s.clock.Sound s.base.queue a
  | .act (.cancelWaiters error) => error ≠ ETIMEDOUT
  | _ => True

instance (s : Watched (FiberMutex F)) (a : MutexAction F) : Decidable (s.mutexReads a) := by
  rcases a <;> (dsimp only [mutexReads]; infer_instance)

instance (s : Watched (FiberMutex F)) (a : Timed (MutexAction F)) : Decidable (s.SoundMutex a) := by
  unfold SoundMutex
  split <;> infer_instance

end Watched

open Watched

/-- `fiberMutex` beside a clock. -/
def timedMutex (F : Type) [DecidableEq F] :
    Machine (Watched (FiberMutex F)) (Timed (MutexAction F)) where
  init s := (fiberMutex F).init s.base
  enabled s
    | .tick d => s.clock.now + d < 2 ^ 64
    | .act a => (fiberMutex F).enabled s.base a ∧ s.mutexReads a
  next s
    | .tick d => { s with clock := s.clock.tick d }
    | .act a => ⟨(fiberMutex F).next s.base a, s.mutexClock a, s.mutexStarted a⟩

instance [DecidableEq F] (s : Watched (FiberMutex F)) (a : Timed (MutexAction F)) :
    Decidable ((timedMutex F).enabled s a) := by
  rcases a <;> (dsimp only [timedMutex]; infer_instance)

namespace FiberMutex

variable {m : FiberMutex F} {clk : Clock} {started : ℕ → ℕ} {l : ℕ}

/-- Every call of `lock` is on time. -/
def OnTime (m : FiberMutex F) (clk : Clock) (started : ℕ → ℕ) : Prop :=
  AllOnTime Lock.attempt clk m.queue m.locks m.count started

variable (h : m.OnTime clk started)
include h

theorem OnTime.setPc (hl : l < m.count) {error : ℤ}
    (herror : error = ETIMEDOUT → started l + (m.locks l).timeout ≤ clk.now) :
    (m.setPc l (.returned error)).OnTime clk started :=
  AllOnTime.leave h hl rfl (fun c hc => by cases hc) fun hr => herror (LockPc.returned.inj hr)

theorem OnTime.wait (hl : l < m.count) (thread : ℤ) {remaining : ℕ}
    (hleft : started l + (m.locks l).timeout ≤ clk.now + remaining) :
    (m.wait l thread remaining).OnTime (clk.enters m.queue.count) started := by
  have hk : Lock.attempt { m.locks l with pc := .waiting m.queue.count } =
      { (m.locks l).attempt with pc := .waiting m.queue.count } := rfl
  exact AllOnTime.park h hl hk hleft (m.locks l).fiber (some .ioManager) thread

theorem OnTime.lockRound [DecidableEq F] (hl : l < m.count)
    (thread : ℤ) : (m.lockRound l clk.now thread).OnTime (clk.enters m.queue.count) started := by
  have hk := AllOnTime.calls h l hl
  have hstamped : m.OnTime (clk.enters m.queue.count) started := AllOnTime.enters h
  unfold FiberMutex.lockRound
  dsimp only
  split
  · have hacquire : (m.acquire (m.locks l).fiber (m.locks l).selected).OnTime
        (clk.enters m.queue.count) started := hstamped
    exact hacquire.setPc hl fun he => absurd he (by decide)
  split
  · exact hstamped.setPc hl fun he => absurd he (by decide)
  split
  · exact h.wait hl thread (hk.park_forever (by assumption))
  split
  · exact hstamped.setPc hl fun _ => hk.reached (by assumption) (by assumption)
  · exact h.wait hl thread (hk.park_rest (by assumption))

theorem OnTime.waitReturned (hl : l < m.count) {c : ℕ} {error : ℤ}
    (hpc : (m.locks l).pc = .waiting c) (hret : (m.queue.calls c).pc = .returned error) :
    (m.waitReturned l c error).OnTime clk started := by
  unfold FiberMutex.waitReturned
  split
  · exact AllOnTime.returned h hl hpc hret rfl (.inl rfl)
  · exact AllOnTime.returned h hl hpc hret rfl (.inr rfl)

end FiberMutex

theorem timedMutex_onTime [DecidableEq F] {s : Watched (FiberMutex F)}
    (h : (timedMutex F).ReachVia SoundMutex s) : s.base.OnTime s.clock s.started := by
  apply h.invariant (I := fun s => s.base.OnTime s.clock s.started)
  · rintro ⟨m, clk, started⟩ ⟨⟨hqueue, -⟩, -, -, hcount, -⟩
    exact .init hqueue hcount
  · rintro ⟨m, clk, started⟩ a hm he hok
    cases a with
    | tick d => exact AllOnTime.tick hm d
    | act a =>
      obtain ⟨he, hreads⟩ := he
      cases a with
      | lock fiber timeout now =>
        obtain rfl : now = clk.now := hreads
        exact AllOnTime.add hm (.start hok (fun c hc => by cases hc) fun hr => by cases hr)
      | lockRound l now thread =>
        obtain rfl : now = clk.now := hreads
        exact hm.lockRound he.1 thread
      | queue a => exact AllOnTime.next hm he.2 hreads hok
      | waitReturned l c error => exact hm.waitReturned he.1.1 he.1.2 he.2
      | tryLock fiber =>
        show (m.tryLock fiber).1.OnTime clk started
        unfold FiberMutex.tryLock
        split
        · exact hm
        · exact hm
      | unlock fiber =>
        have hzero : (0 : ℤ) ≠ ETIMEDOUT := by decide
        show (m.unlock fiber).1.OnTime clk started
        unfold FiberMutex.unlock
        split
        · exact hm
        · exact AllOnTime.next hm (a := .wakeOne 0) trivial trivial hzero
      | cancelWaiters error =>
        exact AllOnTime.next hm (a := .wakeAll error) trivial trivial hok

/-! ### `FiberSemaphore` -/

def SemPc.lockPc : SemPc → LockPc
  | .guard => .guard
  | .waiting c => .waiting c
  | .returned error => .returned error

def SemWait.attempt (k : SemWait F) : Attempt := ⟨k.timeout, k.deadline, k.pc.lockPc⟩

namespace Watched

variable (s : Watched (FiberSemaphore F))

def semaphoreClock : SemAction F → Clock
  | .waitRound _ _ _ _ => s.clock.enters s.base.queue.count
  | .queue a => s.clock.record s.base.queue a
  | _ => s.clock

def semaphoreStarted : SemAction F → ℕ → ℕ
  | .wait _ _ _ _ => Function.update s.started s.base.made s.clock.now
  | _ => s.started

/-- The step reads the clock as it is. -/
def semaphoreReads : SemAction F → Prop
  | .wait _ _ _ now | .waitRound _ now _ _ => now = s.clock.now
  | .queue a => s.clock.Due a
  | _ => True

/-- No deadline wraps, and `cancelWaiters` is not given `ETIMEDOUT`. -/
def SoundSemaphore : Timed (SemAction F) → Prop
  | .act (.wait _ _ timeout now) => Deadline timeout now
  | .act (.queue a) => s.clock.Sound s.base.queue a
  | .act (.cancelWaiters error) => error ≠ ETIMEDOUT
  | _ => True

instance (s : Watched (FiberSemaphore F)) (a : SemAction F) : Decidable (s.semaphoreReads a) := by
  rcases a <;> (dsimp only [semaphoreReads]; infer_instance)

instance (s : Watched (FiberSemaphore F)) (a : Timed (SemAction F)) :
    Decidable (s.SoundSemaphore a) := by
  unfold SoundSemaphore
  split <;> infer_instance

end Watched

/-- `fiberSemaphore` beside a clock. -/
def timedSemaphore (F : Type) : Machine (Watched (FiberSemaphore F)) (Timed (SemAction F)) where
  init s := (fiberSemaphore F).init s.base
  enabled s
    | .tick d => s.clock.now + d < 2 ^ 64
    | .act a => (fiberSemaphore F).enabled s.base a ∧ s.semaphoreReads a
  next s
    | .tick d => { s with clock := s.clock.tick d }
    | .act a => ⟨(fiberSemaphore F).next s.base a, s.semaphoreClock a, s.semaphoreStarted a⟩

instance [DecidableEq F] (s : Watched (FiberSemaphore F)) (a : Timed (SemAction F)) :
    Decidable ((timedSemaphore F).enabled s a) := by
  rcases a <;> (dsimp only [timedSemaphore]; infer_instance)

namespace FiberSemaphore

variable {s : FiberSemaphore F} {clk : Clock} {started : ℕ → ℕ} {w : ℕ}

/-- Every call of `wait` is on time. -/
def OnTime (s : FiberSemaphore F) (clk : Clock) (started : ℕ → ℕ) : Prop :=
  AllOnTime SemWait.attempt clk s.queue s.waits s.made started

variable (h : s.OnTime clk started)
include h

theorem OnTime.wait (fiber : F) (count : ℕ) {timeout : ℕ} (hd : Deadline timeout clk.now) :
    (s.wait fiber count timeout clk.now).OnTime clk
      (Function.update started s.made clk.now) := by
  have hstart : ∀ pc : SemPc, pc = .returned 0 ∨ pc = .guard →
      Attempt.OnTime ⟨timeout, deadlineOf timeout clk.now, pc.lockPc⟩ clk s.queue clk.now := by
    rintro pc (rfl | rfl)
    · exact .start hd (fun c hc => by cases hc) (by decide)
    · exact .start hd (fun c hc => by cases hc) (by decide)
  apply AllOnTime.add h
  apply hstart
  by_cases hcount : count = 0
  · exact .inl (if_pos hcount)
  · exact .inr (if_neg hcount)

theorem OnTime.park (hw : w < s.made)
    (scheduler : Option SchedulerKind) (thread : ℤ) {remaining : ℕ}
    (hleft : started w + (s.waits w).timeout ≤ clk.now + remaining) :
    (s.park w scheduler thread remaining).OnTime (clk.enters s.queue.count) started := by
  have hk : SemWait.attempt { s.waits w with pc := .waiting s.queue.count } =
      { (s.waits w).attempt with pc := .waiting s.queue.count } := rfl
  exact AllOnTime.park h hw hk hleft (s.waits w).fiber scheduler thread

theorem OnTime.waitRound (hw : w < s.made) (scheduler : Option SchedulerKind) (thread : ℤ) :
    (s.waitRound w clk.now scheduler thread).OnTime (clk.enters s.queue.count) started := by
  have hk := AllOnTime.calls h w hw
  have hstamped : s.OnTime (clk.enters s.queue.count) started := AllOnTime.enters h
  unfold FiberSemaphore.waitRound
  dsimp only
  split
  · have hne : LockPc.returned 0 ≠ .returned ETIMEDOUT := by decide
    exact AllOnTime.leave hstamped hw rfl (fun c hc => by cases hc) fun hr => absurd hr hne
  split
  · exact h.park hw scheduler thread (hk.park_forever (by assumption))
  split
  · exact AllOnTime.leave hstamped hw rfl (fun c hc => by cases hc) fun _ =>
      hk.reached (by assumption) (by assumption)
  · exact h.park hw scheduler thread (hk.park_rest (by assumption))

theorem OnTime.waitReturned (hw : w < s.made) {c : ℕ} {error : ℤ}
    (hpc : (s.waits w).pc = .waiting c) (hret : (s.queue.calls c).pc = .returned error) :
    (s.waitReturned w error).OnTime clk started := by
  have hinside : (s.waits w).attempt.pc = .waiting c := congrArg SemPc.lockPc hpc
  unfold FiberSemaphore.waitReturned
  split
  · exact AllOnTime.returned h hw hinside hret rfl (.inl rfl)
  · exact AllOnTime.returned h hw hinside hret rfl (.inr rfl)

end FiberSemaphore

theorem timedSemaphore_onTime {s : Watched (FiberSemaphore F)}
    (h : (timedSemaphore F).ReachVia SoundSemaphore s) : s.base.OnTime s.clock s.started := by
  apply h.invariant (I := fun s => s.base.OnTime s.clock s.started)
  · rintro ⟨s, clk, started⟩ ⟨⟨hqueue, -⟩, hmade, -⟩
    exact .init hqueue hmade
  · rintro ⟨s, clk, started⟩ a hs he hok
    cases a with
    | tick d => exact AllOnTime.tick hs d
    | act a =>
      obtain ⟨he, hreads⟩ := he
      cases a with
      | wait fiber count timeout now =>
        obtain rfl : now = clk.now := hreads
        exact hs.wait fiber count hok
      | waitRound w now scheduler thread =>
        obtain rfl : now = clk.now := hreads
        exact hs.waitRound he.1 scheduler thread
      | queue a => exact AllOnTime.next hs he.2 hreads hok
      | waitReturned w c error => exact hs.waitReturned he.1.1 he.1.2 he.2
      | signal count =>
        have hzero : (0 : ℤ) ≠ ETIMEDOUT := by decide
        show (s.signal count).OnTime clk started
        unfold FiberSemaphore.signal
        split
        · exact hs
        · exact AllOnTime.next hs (a := .wakeAll 0) trivial trivial hzero
      | cancelWaiters error =>
        exact AllOnTime.next hs (a := .wakeAll error) trivial trivial hok

/-! ### No early timeout -/

/-- **Timed synchronisation is punctual.**  In the runs in which no deadline wraps and no waker
passes `ETIMEDOUT`, a call of `waitLocked`, `lock` or `wait` that has returned with `ETIMEDOUT` was
made at least its timeout ago. -/
theorem timed_out_after_timeout (F : Type) [DecidableEq F] :
    (∀ s, (timedQueue F).ReachVia SoundQueue s → ∀ c < s.1.count,
      (s.1.calls c).pc = .returned ETIMEDOUT →
        s.2.entered c + (s.1.calls c).timeout ≤ s.2.now) ∧
    (∀ s, (timedMutex F).ReachVia SoundMutex s → ∀ l < s.base.count,
      (s.base.locks l).pc = .returned ETIMEDOUT →
        s.started l + (s.base.locks l).timeout ≤ s.clock.now) ∧
    (∀ s, (timedSemaphore F).ReachVia SoundSemaphore s → ∀ w < s.base.made,
      (s.base.waits w).pc = .returned ETIMEDOUT →
        s.started w + (s.base.waits w).timeout ≤ s.clock.now) := by
  refine ⟨fun s h c hc => ?_, fun s h l hl => ?_, fun s h w hw hpc => ?_⟩
  · exact (timedQueue_punctual h c hc).returned
  · exact ((timedMutex_onTime h).calls l hl).expired
  · exact ((timedSemaphore_onTime h).calls w hw).expired (congrArg SemPc.lockPc hpc)

/-- A wait that its timer ends after `d` ms. -/
def queueRun (timeout d : ℕ) : List (Timed (Action Unit)) :=
  [.act (.enter () (some .ioManager) 7 timeout), .act (.arm 0), .act (.yield 0), .tick d,
    .act (.timeout 0), .act (.resume 0 0), .act (.finish 0)]

/-- One Fiber owns the mutex and another one comes at 10. -/
def mutexRun (timeout : ℕ) : List (Timed (MutexAction Bool)) :=
  [.act (.lock false kFiberWaitForever 10), .act (.lockRound 0 10 7), .act (.lock true timeout 10),
    .act (.lockRound 1 10 8)]

/-- The second Fiber is parked, and its timer ends the wait. -/
def mutexExpiry : List (Timed (MutexAction Bool)) :=
  [.act (.queue (.arm 0)), .act (.queue (.yield 0)), .tick 50, .act (.queue (.timeout 0)),
    .act (.queue (.resume 0 0)), .act (.queue (.finish 0)), .act (.waitReturned 1 0 ETIMEDOUT)]

/-- A call for three permits meets one. -/
def semaphoreRun (timeout : ℕ) : List (Timed (SemAction Unit)) :=
  [.act (.wait () 3 timeout 10), .act (.waitRound 0 10 (some .ioManager) 7)]

/-- A second permit leads to another round, after the deadline. -/
def semaphoreExpiry : List (Timed (SemAction Unit)) :=
  [.act (.queue (.arm 0)), .act (.queue (.yield 0)), .tick 50, .act (.signal 1),
    .act (.queue (.resume 0 0)), .act (.queue (.finish 0)), .act (.waitReturned 0 0 0),
    .act (.waitRound 0 60 (some .ioManager) 7)]

theorem timed_out_after_timeout_expired :
    let q := (timedQueue Unit).run (.empty (), .fresh 10) (queueRun 50 50)
    let m := (timedMutex Bool).run (.fresh 10 (.unused false)) (mutexRun 50 ++ mutexExpiry)
    let s := (timedSemaphore Unit).run (.fresh 10 .withPermit) (semaphoreRun 50 ++ semaphoreExpiry)
    q.2.entered 0 + (q.1.calls 0).timeout ≤ q.2.now ∧
      m.started 1 + (m.base.locks 1).timeout ≤ m.clock.now ∧
      s.started 0 + (s.base.waits 0).timeout ≤ s.clock.now := by
  refine ⟨?_, ?_, ?_⟩
  · exact (timed_out_after_timeout Unit).1 _
      (Machine.reachVia_run (.start ⟨rfl, rfl, rfl, rfl⟩) (by decide +kernel)) 0
      (by decide +kernel) (by decide +kernel)
  · exact (timed_out_after_timeout Bool).2.1 _
      (Machine.reachVia_run (.start ⟨⟨rfl, rfl, rfl, rfl⟩, rfl, rfl, rfl, rfl, rfl⟩)
        (by decide +kernel)) 1 (by decide +kernel) (by decide +kernel)
  · exact (timed_out_after_timeout Unit).2.2 _
      (Machine.reachVia_run (.start ⟨⟨rfl, rfl, rfl, rfl⟩, rfl, by decide, rfl, rfl⟩)
        (by decide +kernel)) 0 (by decide +kernel) (by decide +kernel)

/-- With the longest finite timeout all three time out in the millisecond they are called in. -/
theorem timed_out_at_once :
    let q := (timedQueue Unit).run (.empty (), .fresh 10) (queueRun (2 ^ 64 - 2) 0)
    let m := (timedMutex Bool).run (.fresh 10 (.unused false)) (mutexRun (2 ^ 64 - 2))
    let s := (timedSemaphore Unit).run (.fresh 10 .withPermit) (semaphoreRun (2 ^ 64 - 2))
    ((timedQueue Unit).Reach q ∧ (q.1.calls 0).pc = .returned ETIMEDOUT ∧
        q.2.entered 0 = 10 ∧ q.2.now = 10) ∧
      ((timedMutex Bool).Reach m ∧ (m.base.locks 1).pc = .returned ETIMEDOUT ∧
        m.started 1 = 10 ∧ m.clock.now = 10) ∧
      ((timedSemaphore Unit).Reach s ∧ (s.base.waits 0).pc = .returned ETIMEDOUT ∧
        s.started 0 = 10 ∧ s.clock.now = 10) := by
  refine ⟨⟨?_, ?_, ?_, ?_⟩, ⟨?_, ?_, ?_, ?_⟩, ⟨?_, ?_, ?_, ?_⟩⟩
  · exact Machine.reachVia_run (.start ⟨rfl, rfl, rfl, rfl⟩) (by decide +kernel)
  · decide +kernel
  · decide +kernel
  · decide +kernel
  · exact Machine.reachVia_run (.start ⟨⟨rfl, rfl, rfl, rfl⟩, rfl, rfl, rfl, rfl, rfl⟩)
      (by decide +kernel)
  · decide +kernel
  · decide +kernel
  · decide +kernel
  · exact Machine.reachVia_run (.start ⟨⟨rfl, rfl, rfl, rfl⟩, rfl, by decide, rfl, rfl⟩)
      (by decide +kernel)
  · decide +kernel
  · decide +kernel
  · decide +kernel

end PulsarRuntime.Sync
