import PulsarRuntime.Sync.Handoff
import PulsarRuntime.Sync.Relock

/-!
# No notification is lost

On `IOManager` workers and with non-zero timeouts the mutex of a condition variable goes through
a run of the machine `fiberMutex`, and the condition's queue meets the invariant of `Sync.Resume`
(`Orderly`).  In particular a Fiber is in one call at a time, so no task of one queue resumes a
Fiber parked in the other.

A `wait` that has released the mutex holds the condition's guard until its waiter is queued.  The
calls of `waitLocked` are therefore numbered in the order of the releases, and what has been
notified, followed by what is queued, is in that order (`History.order`).
-/

namespace PulsarRuntime.Sync

open FiberMutex

variable {F : Type}

/-! ### What the steps of the mutex leave alone -/

/-- No lock comes back and none changes its Fiber. -/
structure SameLocks (m m' : FiberMutex F) : Prop where
  count : m'.count = m.count
  fiber : ∀ l, (m'.locks l).fiber = (m.locks l).fiber
  running : ∀ l, (m'.locks l).pc.done = false → (m.locks l).pc.done = false

namespace SameLocks

variable {m m' m'' : FiberMutex F}

theorem of_eq (hcount : m'.count = m.count) (hlocks : m'.locks = m.locks) : SameLocks m m' := by
  refine ⟨hcount, ?_, ?_⟩ <;> rw [hlocks] <;> intro l
  · rfl
  · exact fun h => h

theorem setLock {l : ℕ} {k : Lock F} (hcount : m'.count = m.count)
    (hlocks : m'.locks = (m.setLock l k).locks) (hfiber : k.fiber = (m.locks l).fiber)
    (hopen : (m.locks l).pc.done = false) : SameLocks m m' := by
  refine ⟨hcount, ?_, ?_⟩ <;> rw [hlocks] <;> intro l' <;> by_cases hl : l' = l
  · rw [hl, setLock_locks_self, hfiber]
  · rw [setLock_locks_ne m k hl]
  · rw [hl]
    exact fun _ => hopen
  · rw [setLock_locks_ne m k hl]
    exact fun h => h

theorem lockRound [DecidableEq F] (m : FiberMutex F) {l : ℕ} (hpc : (m.locks l).pc = .guard)
    (now : ℕ) (thread : ℤ) : SameLocks m (m.lockRound l now thread) := by
  have hopen : (m.locks l).pc.done = false := by rw [hpc]; rfl
  simp only [FiberMutex.lockRound]
  split
  · exact setLock rfl rfl rfl hopen
  split
  · exact setLock rfl rfl rfl hopen
  split
  · exact setLock rfl rfl rfl hopen
  split
  · exact setLock rfl rfl rfl hopen
  · exact setLock rfl rfl rfl hopen

theorem waitReturned (m : FiberMutex F) {l c : ℕ} (hpc : (m.locks l).pc = .waiting c) (error : ℤ) :
    SameLocks m (m.waitReturned l c error) := by
  have hopen : (m.locks l).pc.done = false := by rw [hpc]; rfl
  unfold FiberMutex.waitReturned
  split
  · exact setLock rfl rfl rfl hopen
  · exact setLock rfl rfl rfl hopen

theorem tryLock [DecidableEq F] (m : FiberMutex F) (fiber : F) :
    SameLocks m (m.tryLock fiber).1 := by
  unfold FiberMutex.tryLock
  split <;> exact of_eq rfl rfl

theorem unlock [DecidableEq F] (m : FiberMutex F) (fiber : F) : SameLocks m (m.unlock fiber).1 := by
  unfold FiberMutex.unlock
  split <;> exact of_eq rfl rfl

end SameLocks

/-! ### The steps of the condition's queue -/

namespace WaitQueue

variable {q : WaitQueue F}

/-- By itself the queue only loses a waiter whose timer fires. -/
theorem internal_waiters (h : q.Inv) {a : Action F} (ha : a.internal = true)
    (he : (waitQueue F).enabled q a) :
    ((waitQueue F).next q a).waiters = q.waiters ∧ (∀ c ∈ q.waiters, a ≠ .timeout c) ∨
      ∃ c ∈ q.waiters, a = .timeout c ∧ ((waitQueue F).next q a).waiters = q.waiters.erase c := by
  cases a with
  | enter => cases ha
  | wakeOne => cases ha
  | wakeAll => cases ha
  | arm c =>
    refine .inl ⟨?_, by simp⟩
    show (q.arm c).waiters = q.waiters
    unfold arm
    split
    · rfl
    split
    · rfl
    · rename_i hforever hio
      rcases h.supported c he.1 he.2 with hs | hs
      · exact absurd hs hio
      · exact absurd hs hforever
  | yield c => exact .inl ⟨rfl, by simp⟩
  | resume c task => exact .inl ⟨rfl, by simp⟩
  | finish c =>
    refine .inl ⟨?_, by simp⟩
    show (q.finish c).waiters = q.waiters
    unfold finish
    rw [(resumed_woken h he.1 he.2).waiting]
    rfl
  | timeout c =>
    have hlisted := h.listed.disarm c
    by_cases hc : c ∈ q.waiters
    · refine .inr ⟨c, hc, rfl, ?_⟩
      show ((q.setCall c _).completeLocked c ETIMEDOUT).1.waiters = _
      rw [hlisted.completeLocked_of_mem hc]
      rfl
    · have hc' : c ∉ (q.setCall c { q.calls c with timer := false }).waiters := hc
      refine .inl ⟨?_, fun d hd heq => ?_⟩
      · show ((q.setCall c _).completeLocked c ETIMEDOUT).1.waiters = _
        rw [completeLocked_of_not_mem _ hc']
        rfl
      · cases heq
        exact hc hd

end WaitQueue

namespace ConditionVariable

/-- Fibers run on `IOManager` workers and wait with a non-zero timeout. -/
def OnWorkers (s : ConditionVariable F) : CondAction F → Prop
  | .enqueue w scheduler _ => scheduler = some .ioManager ∧ (s.waits w).timeout ≠ 0
  | .lockRound _ _ scheduler _ => scheduler = some .ioManager
  | .cancelLockers error => error ≠ 0
  | _ => True

instance (s : ConditionVariable F) (a : CondAction F) : Decidable (OnWorkers s a) := by
  rcases a <;> (dsimp only [OnWorkers]; infer_instance)

/-! ### A Fiber is in one call at a time -/

structure Orderly [DecidableEq F] (s : ConditionVariable F) : Prop where
  /-- The mutex goes through a run of its own machine. -/
  mutex : (fiberMutex F).Reach s.mutex
  queue : s.queue.Inv
  distinct : Apart s
  /-- A Fiber inside `wait` is in no other lock than its re-lock. -/
  alone : ∀ w < s.count, (s.waits w).pc.done = false → ∀ l < s.mutex.count,
    (s.mutex.locks l).fiber = (s.waits w).fiber → (s.mutex.locks l).pc.done = false →
    s.relockOf w = some l
  owns : ∀ c < s.queue.count, (s.queue.calls c).pc.done = false →
    ∃ w < s.count, (s.waits w).pc = .waiting c
  link : ∀ w < s.count, ∀ c, (s.waits w).pc = .waiting c → c < s.queue.count ∧
    (s.queue.calls c).fiber = (s.waits w).fiber

variable {s : ConditionVariable F} {w : ℕ}

theorem relockOf_congr {s' : ConditionVariable F} {v : ℕ} (h : (s'.waits v).pc = (s.waits v).pc) :
    s'.relockOf v = s.relockOf v := by
  unfold relockOf
  rw [h]

variable [DecidableEq F]

theorem reach_next {m : FiberMutex F} (h : (fiberMutex F).Reach m) (a : MutexAction F)
    (he : (fiberMutex F).enabled m a) : (fiberMutex F).Reach ((fiberMutex F).next m a) :=
  .step h he trivial

namespace Orderly

/-- A `wait` that is not re-locking leaves its Fiber free to lock. -/
theorem free (h : Orderly s) (hw : w < s.count) (hopen : (s.waits w).pc.done = false)
    (hre : ∀ l, s.relockOf w = some l → (s.mutex.locks l).pc.done = true) :
    s.mutex.Free (s.waits w).fiber := by
  intro l hl hf
  by_contra hd
  rw [Bool.not_eq_true] at hd
  rw [hre l (h.alone w hw hopen l hl hf hd)] at hd
  cases hd

variable {s' : ConditionVariable F} (h : Orderly s)
include h

/-- The mutex takes a step of its own. -/
theorem mutexStep (hwaits : s'.waits = s.waits)
    (hcount : s'.count = s.count) (hqueue : s'.queue = s.queue)
    (hreach : (fiberMutex F).Reach s'.mutex) (hsame : SameLocks s.mutex s'.mutex) :
    Orderly s' := by
  refine ⟨hreach, hqueue ▸ h.queue, h.distinct.same hwaits hcount, ?_, ?_, ?_⟩
  · intro w hw hopen l hl hf hd
    rw [hwaits] at hopen hf
    rw [hcount] at hw
    rw [hsame.count] at hl
    rw [hsame.fiber] at hf
    have hre : s'.relockOf w = s.relockOf w := relockOf_congr (by rw [hwaits])
    rw [hre]
    exact h.alone w hw hopen l hl hf (hsame.running l hd)
  · rw [hwaits, hcount, hqueue]
    exact h.owns
  · rw [hwaits, hcount, hqueue]
    exact h.link

/-- The condition's queue takes a step that adds no call. -/
theorem queueStep (hwaits : s'.waits = s.waits)
    (hcount : s'.count = s.count) (hmutex : s'.mutex = s.mutex) (hinv : s'.queue.Inv)
    (hkept : Kept s.queue s'.queue) : Orderly s' := by
  refine ⟨hmutex ▸ h.mutex, hinv, h.distinct.same hwaits hcount, ?_, ?_, ?_⟩
  · intro w hw
    have hre : s'.relockOf w = s.relockOf w := relockOf_congr (by rw [hwaits])
    rw [hre, hwaits, hmutex]
    exact h.alone w (hcount ▸ hw)
  · intro c hc hd
    rw [hwaits, hcount]
    rw [hkept.count] at hc
    refine h.owns c hc ?_
    by_contra hdone
    rw [Bool.not_eq_false] at hdone
    rw [hkept.done c hdone] at hd
    cases hd
  · intro w hw c hpc
    rw [hwaits] at hpc ⊢
    rw [hcount] at hw
    obtain ⟨hb, hf⟩ := h.link w hw c hpc
    exact ⟨lt_of_lt_of_eq hb hkept.count.symm, (hkept.fiber c).trans hf⟩

/-- A `wait` moves on, and with it the mutex or the queue. -/
theorem move (hw : w < s.count) {pc : CondPc}
    (hopen : (s.waits w).pc.done = false) (hwaits : s'.waits = (s.setPc w pc).waits)
    (hcount : s'.count = s.count) (hreach : (fiberMutex F).Reach s'.mutex)
    (hinv : s'.queue.Inv)
    (halone : ∀ v < s.count, v ≠ w → (s.waits v).fiber ≠ (s.waits w).fiber →
      ∀ l < s'.mutex.count, (s'.mutex.locks l).fiber = (s.waits v).fiber →
      (s'.mutex.locks l).pc.done = false →
      l < s.mutex.count ∧ (s.mutex.locks l).fiber = (s.waits v).fiber ∧
        (s.mutex.locks l).pc.done = false)
    (hself : pc.done = false → ∀ l < s'.mutex.count,
      (s'.mutex.locks l).fiber = (s.waits w).fiber → (s'.mutex.locks l).pc.done = false →
      s'.relockOf w = some l)
    (howns : ∀ c < s'.queue.count, (s'.queue.calls c).pc.done = false →
      pc = .waiting c ∨ c < s.queue.count ∧ (s.queue.calls c).pc.done = false ∧
        (s.waits w).pc ≠ .waiting c)
    (hlink : ∀ c < s.queue.count, c < s'.queue.count ∧
      (s'.queue.calls c).fiber = (s.queue.calls c).fiber)
    (hnew : ∀ c, pc = .waiting c → c < s'.queue.count ∧
      (s'.queue.calls c).fiber = (s.waits w).fiber) : Orderly s' := by
  refine ⟨hreach, hinv, Apart.move h.distinct hopen hwaits hcount,
    fun v hv hd l hl hf hld => ?_, fun c hc hd => ?_, fun v hv c hpc => ?_⟩
  · rw [hcount] at hv
    rw [moved_fiber hwaits] at hf
    by_cases hvw : v = w
    · subst hvw
      rw [moved_self hwaits] at hd
      exact hself hd l hl hf hld
    · have hre : s'.relockOf v = s.relockOf v := relockOf_congr (by rw [moved_ne hwaits hvw])
      rw [hre]
      rw [moved_ne hwaits hvw] at hd
      have hne : (s.waits v).fiber ≠ (s.waits w).fiber :=
        fun heq => hvw (h.distinct v hv w hw heq hd hopen)
      obtain ⟨hl', hf', hd'⟩ := halone v hv hvw hne l hl hf hld
      exact h.alone v hv hd l hl' hf' hd'
  · rcases howns c hc hd with hpc | ⟨hb, hd', hne⟩
    · exact ⟨w, hcount ▸ hw, by rw [moved_self hwaits, hpc]⟩
    · obtain ⟨v, hv, hvc⟩ := h.owns c hb hd'
      have hvw : v ≠ w := by
        rintro rfl
        exact hne hvc
      exact ⟨v, hcount ▸ hv, by rw [moved_ne hwaits hvw]; exact hvc⟩
  · rw [hcount] at hv
    rw [moved_fiber hwaits]
    by_cases hvw : v = w
    · subst hvw
      rw [moved_self hwaits] at hpc
      exact hnew c hpc
    · rw [moved_ne hwaits hvw] at hpc
      obtain ⟨hb, hf⟩ := h.link v hv c hpc
      exact ⟨(hlink c hb).1, (hlink c hb).2.trans hf⟩

/-- A `wait` moves on outside `waitLocked`; the mutex may take a step. -/
theorem stay (hw : w < s.count) {pc : CondPc}
    (hopen : (s.waits w).pc.done = false) (hwaits : s'.waits = (s.setPc w pc).waits)
    (hcount : s'.count = s.count) (hqueue : s'.queue = s.queue)
    (hreach : (fiberMutex F).Reach s'.mutex) (hsame : SameLocks s.mutex s'.mutex)
    (hold : ∀ c, (s.waits w).pc ≠ .waiting c) (hnew : ∀ c, pc ≠ .waiting c)
    (hre : pc.done = true ∨ s.relockOf w = none) : Orderly s' := by
  have hback : ∀ f, ∀ l < s'.mutex.count, (s'.mutex.locks l).fiber = f →
      (s'.mutex.locks l).pc.done = false →
      l < s.mutex.count ∧ (s.mutex.locks l).fiber = f ∧ (s.mutex.locks l).pc.done = false := by
    intro f l hl hf hd
    rw [hsame.count] at hl
    rw [hsame.fiber] at hf
    exact ⟨hl, hf, hsame.running l hd⟩
  refine h.move hw hopen hwaits hcount hreach (hqueue ▸ h.queue) (fun v _ _ _ => hback _)
    (fun hd l hl hf hld => ?_) (fun c hc hd => ?_) (fun c hc => ?_) fun c hc => absurd hc (hnew c)
  · rcases hre with hre | hre
    · rw [hre] at hd
      cases hd
    · obtain ⟨hl', hf', hd'⟩ := hback _ l hl hf hld
      rw [h.alone w hw hopen l hl' hf' hd'] at hre
      cases hre
  · rw [hqueue] at hc hd
    exact .inr ⟨hc, hd, hold c⟩
  · rw [hqueue]
    exact ⟨hc, rfl⟩

theorem relock (hw : w < s.count) (hopen : (s.waits w).pc.done = false)
    (hre : ∀ l, s.relockOf w = some l → (s.mutex.locks l).pc.done = true)
    (hcall : ∀ c, (s.waits w).pc = .waiting c → (s.queue.calls c).pc.done = true) (e : ℤ) :
    Orderly (s.relock w e) := by
  have hfree := h.free hw hopen hre
  have hnew : ((s.relock w e).mutex.locks s.mutex.count).fiber = (s.waits w).fiber :=
    congrArg Lock.fiber (setLock_locks_self ..)
  have hold : ∀ l < s.mutex.count, (s.relock w e).mutex.locks l = s.mutex.locks l :=
    fun l hl => setLock_locks_ne _ _ (Nat.ne_of_lt hl)
  have hrelock : (s.relock w e).relockOf w = some s.mutex.count := by
    simp only [relockOf, ConditionVariable.relock, setPc, setWait, Function.update_self]
  refine h.move hw hopen rfl rfl (reach_next h.mutex (.lock _ kFiberWaitForever 0) hfree) h.queue
    (fun v _ _ hne l hl hf hd => ?_) (fun _ l hl hf hd => ?_) (fun c hc hd => ?_)
    (fun c hc => ⟨hc, rfl⟩) fun c hc => by cases hc
  · rcases Nat.lt_succ_iff_lt_or_eq.mp hl with hl | rfl
    · rw [hold l hl] at hf hd
      exact ⟨hl, hf, hd⟩
    · exact absurd (hf.symm.trans hnew) hne
  · rcases Nat.lt_succ_iff_lt_or_eq.mp hl with hl | rfl
    · rw [hold l hl] at hf hd
      rw [hfree l hl hf] at hd
      cases hd
    · exact hrelock
  · refine .inr ⟨hc, hd, fun hpc => ?_⟩
    have hd : (s.queue.calls c).pc.done = false := hd
    rw [hcall c hpc] at hd
    cases hd

theorem enqueue (hw : w < s.count) (hpc : (s.waits w).pc = .released)
    (htimeout : (s.waits w).timeout ≠ 0) (thread : ℤ) :
    Orderly (s.enqueue w (some .ioManager) thread) := by
  have hopen : (s.waits w).pc.done = false := by rw [hpc]; rfl
  have hre : s.relockOf w = none := by simp [relockOf, hpc]
  -- the Fiber has no other call in this queue
  have hcalls : ∀ c < s.queue.count, (s.queue.calls c).fiber = (s.waits w).fiber →
      (s.queue.calls c).pc.done = true := by
    intro c hc hf
    by_contra hd
    rw [Bool.not_eq_true] at hd
    obtain ⟨v, hv, hvc⟩ := h.owns c hc hd
    have hvw := h.distinct v hv w hw ((h.link v hv c hvc).2.symm.trans hf) (by rw [hvc]; rfl) hopen
    rw [hvw, hpc] at hvc
    cases hvc
  have hcount := (WaitQueue.enter_spec s.queue (s.waits w).fiber (some .ioManager) thread
    (s.waits w).timeout).1
  have hold : ∀ c < s.queue.count,
      (s.enqueue w (some .ioManager) thread).queue.calls c = s.queue.calls c :=
    fun c hc => WaitQueue.enter_calls_of_lt _ _ _ _ _ hc
  have hnew : ((s.enqueue w (some .ioManager) thread).queue.calls s.queue.count).fiber =
      (s.waits w).fiber := by
    show ((s.queue.enter _ (some .ioManager) thread _).calls s.queue.count).fiber = _
    rw [WaitQueue.enter, if_neg htimeout]
    exact congrArg Call.fiber (WaitQueue.setCall_calls_self ..)
  have hinv : (s.queue.enter (s.waits w).fiber (some .ioManager) thread
      (s.waits w).timeout).Inv := enter_inv h.queue hcalls fun hk => by cases hk
  refine h.move hw hopen rfl rfl h.mutex hinv (fun v _ _ _ l hl hf hd => ⟨hl, hf, hd⟩)
    (fun _ l hl hf hd => ?_) (fun c hc hd => ?_) (fun c hc => ?_) fun c hc => ?_
  · rw [h.alone w hw hopen l hl hf hd] at hre
    cases hre
  · have hc : c < s.queue.count + 1 := hcount ▸ hc
    rcases Nat.lt_succ_iff_lt_or_eq.mp hc with hc | rfl
    · rw [hold c hc] at hd
      exact .inr ⟨hc, hd, by simp [hpc]⟩
    · exact .inl rfl
  · exact ⟨lt_of_lt_of_eq (Nat.lt_succ_of_lt hc) hcount.symm, congrArg Call.fiber (hold c hc)⟩
  · obtain rfl := CondPc.waiting.inj hc
    exact ⟨lt_of_lt_of_eq (Nat.lt_succ_self _) hcount.symm, hnew⟩

theorem wait {fiber : F} (hidle : s.Idle fiber) (timeout : ℕ) : Orderly (s.wait fiber timeout) := by
  refine ⟨h.mutex, h.queue, Apart.wait h.distinct hidle timeout,
    fun v hv hd l hl hf hld => ?_, fun c hc hd => ?_, fun v hv c hpc => ?_⟩
  · rcases Nat.lt_succ_iff_lt_or_eq.mp hv with hv | rfl
    · have hre : (s.wait fiber timeout).relockOf v = s.relockOf v :=
        relockOf_congr (by rw [wait_old hv])
      rw [wait_old hv] at hd hf
      rw [hre]
      exact h.alone v hv hd l hl hf hld
    · rw [wait_new] at hf
      have hld : (s.mutex.locks l).pc.done = false := hld
      rw [hidle.2 l hl hf] at hld
      cases hld
  · obtain ⟨v, hv, hvc⟩ := h.owns c hc hd
    exact ⟨v, Nat.lt_succ_of_lt hv, by rw [wait_old hv]; exact hvc⟩
  · rcases Nat.lt_succ_iff_lt_or_eq.mp hv with hv | rfl
    · rw [wait_old hv] at hpc ⊢
      exact h.link v hv c hpc
    · rw [wait_new] at hpc
      dsimp only at hpc
      split at hpc <;> cases hpc

theorem lock {fiber : F} (hidle : s.Idle fiber) (timeout now : ℕ) :
    Orderly { s with mutex := s.mutex.lock fiber timeout now } := by
  have hnew : ((s.mutex.lock fiber timeout now).locks s.mutex.count).fiber = fiber :=
    congrArg Lock.fiber (setLock_locks_self ..)
  refine ⟨reach_next h.mutex (.lock fiber timeout now) hidle.2, h.queue, h.distinct,
    fun w hw hd l hl hf hld => ?_, h.owns, h.link⟩
  rcases Nat.lt_succ_iff_lt_or_eq.mp hl with hl | rfl
  · have hold : (s.mutex.lock fiber timeout now).locks l = s.mutex.locks l :=
      setLock_locks_ne _ _ (Nat.ne_of_lt hl)
    rw [hold] at hf hld
    exact h.alone w hw hd l hl hf hld
  · exact absurd (hnew.symm.trans hf) (hidle.ne_fiber hw hd)

/-- No Fiber has a call of both queues. -/
theorem fiber_ne {c d : ℕ} (hc : c < s.queue.count) (hopen : (s.queue.calls c).pc.done = false)
    (hd : d < s.mutex.queue.count) (hopen' : (s.mutex.queue.calls d).pc.done = false) :
    (s.mutex.queue.calls d).fiber ≠ (s.queue.calls c).fiber := by
  intro hf
  have hlinked := (fiberMutex_inv h.mutex).linked
  obtain ⟨w, hw, hwc⟩ := h.owns c hc hopen
  obtain ⟨l, hl, hld⟩ := hlinked.owns d hd hopen'
  have hfiber : (s.mutex.locks l).fiber = (s.waits w).fiber := by
    rw [← (hlinked.link l hl d hld).2.1, hf, (h.link w hw c hwc).2]
  have hre := h.alone w hw (by rw [hwc]; rfl) l hl hfiber (by rw [hld]; rfl)
  simp [relockOf, hwc] at hre

theorem not_strayCond {c task : ℕ} : ¬ (conditionVariable F).enabled s (.strayCond c task) := by
  rintro ⟨⟨hc, hpc⟩, ht, hf⟩
  obtain ⟨hb, -, hp⟩ := (fiberMutex_inv h.mutex).linked.queue.ready_pending task ht
  exact h.fiber_ne hc (by rw [hpc]; rfl) hb (Pc.done_of_pending hp) hf

theorem not_strayMutex {c task : ℕ} : ¬ (conditionVariable F).enabled s (.strayMutex c task) := by
  rintro ⟨⟨hc, hpc⟩, ht, hf⟩
  obtain ⟨hb, -, hp⟩ := h.queue.ready_pending task ht
  exact h.fiber_ne hb (Pc.done_of_pending hp) hc (by rw [hpc]; rfl) hf.symm

/-- Waking all waiters is a step of the queue that adds none. -/
theorem wakeAll (error : ℤ) : (s.queue.wakeAllLocked error).1.Inv ∧
    Kept s.queue (s.queue.wakeAllLocked error).1 := by
  refine ⟨WaitQueue.wakeAllLocked_inv h.queue error, ?_⟩
  rw [h.queue.listed.wakeAllLocked_eq]
  exact .emptied s.queue error

theorem wakeOne (error : ℤ) : (s.queue.wakeOneLocked error).1.Inv ∧
    Kept s.queue (s.queue.wakeOneLocked error).1 := by
  refine ⟨WaitQueue.wakeOneLocked_inv h.queue error, ?_⟩
  unfold WaitQueue.wakeOneLocked
  split
  · exact .refl s.queue
  · exact .completeLocked h.queue.listed _ error

theorem next {a : CondAction F} (he : (conditionVariable F).enabled s a)
    (hok : OnWorkers s a) : Orderly ((conditionVariable F).next s a) := by
  cases a with
  | wait fiber timeout => exact h.wait he timeout
  | lockGuard w =>
    obtain ⟨⟨hw, hpc⟩, -⟩ := he
    exact h.stay hw (by rw [hpc]; rfl) rfl rfl rfl h.mutex (.of_eq rfl rfl) (by simp [hpc])
      (by simp) (.inr (by simp [relockOf, hpc]))
  | unlockMutex w =>
    obtain ⟨hw, hpc⟩ := he
    have hre : s.relockOf w = none := by simp [relockOf, hpc]
    have hfree := h.free hw (by rw [hpc]; rfl) (by simp [hre])
    exact h.stay hw (by rw [hpc]; rfl) rfl rfl rfl (reach_next h.mutex (.unlock _) hfree)
      (.unlock s.mutex _) (by simp [hpc]) (by simp) (.inr hre)
  | enqueue w scheduler thread =>
    obtain ⟨rfl, htimeout⟩ := hok
    exact h.enqueue he.1 he.2 htimeout thread
  | queue a =>
    obtain ⟨⟨ha, he⟩, -⟩ := he
    have hsupported : Supported a := by cases a <;> trivial
    exact h.queueStep rfl rfl rfl (next_inv h.queue he hsupported)
      (.internal h.queue.listed ha he)
  | waitReturned w c error =>
    obtain ⟨⟨hw, hpc⟩, hret⟩ := he
    refine h.relock hw (by rw [hpc]; rfl) (by simp [relockOf, hpc]) (fun d hd => ?_) error
    rw [hpc] at hd
    cases hd
    rw [hret]
    rfl
  | relocked w l waitError result =>
    obtain ⟨⟨hw, hpc⟩, hret⟩ := he
    have hopen : (s.waits w).pc.done = false := by rw [hpc]; rfl
    show Orderly (s.relocked w waitError result)
    unfold ConditionVariable.relocked
    split
    · exact h.stay hw hopen rfl rfl rfl h.mutex (.of_eq rfl rfl) (by simp [hpc]) (by simp)
        (.inl rfl)
    split
    · refine h.relock hw hopen (fun l' hl' => ?_) (by simp [hpc]) waitError
      obtain rfl : l = l' := by simpa [relockOf, hpc] using hl'
      rw [hret]
      rfl
    · exact h.stay hw hopen rfl rfl rfl h.mutex (.of_eq rfl rfl) (by simp [hpc]) (by simp)
        (.inl rfl)
  | notifyOne => exact h.queueStep rfl rfl rfl (h.wakeOne 0).1 (h.wakeOne 0).2
  | notifyAll => exact h.queueStep rfl rfl rfl (h.wakeAll 0).1 (h.wakeAll 0).2
  | cancelWaiters error => exact h.queueStep rfl rfl rfl (h.wakeAll error).1 (h.wakeAll error).2
  | lock fiber timeout now => exact h.lock he timeout now
  | lockRound l now scheduler thread =>
    obtain rfl : scheduler = some .ioManager := hok
    exact h.mutexStep rfl rfl rfl (reach_next h.mutex (.lockRound l now thread) he)
      (.lockRound s.mutex he.2 now thread)
  | mutexQueue a =>
    exact h.mutexStep rfl rfl rfl (reach_next h.mutex (.queue a) he) (.of_eq rfl rfl)
  | lockReturned l c error =>
    exact h.mutexStep rfl rfl rfl (reach_next h.mutex (.waitReturned l c error) he)
      (.waitReturned s.mutex he.1.2 error)
  | tryLock fiber =>
    exact h.mutexStep rfl rfl rfl (reach_next h.mutex (.tryLock fiber) he.2)
      (.tryLock s.mutex fiber)
  | unlock fiber =>
    exact h.mutexStep rfl rfl rfl (reach_next h.mutex (.unlock fiber) he.2) (.unlock s.mutex fiber)
  | cancelLockers error =>
    exact h.mutexStep rfl rfl rfl (reach_next h.mutex (.cancelWaiters error) hok) (.of_eq rfl rfl)
  | strayCond c task => exact absurd he h.not_strayCond
  | strayMutex c task => exact absurd he h.not_strayMutex

end Orderly

/-! ### The guard, the order of the releases and the fate of a waiter -/

structure History (s : ConditionVariable F) : Prop where
  guarded : ∀ w < s.count, (s.waits w).pc = .guarded ∨ (s.waits w).pc = .released →
    s.guard = some w
  past : ∀ w ∈ s.releases, w < s.count ∧ (s.waits w).pc ≠ .owned ∧ (s.waits w).pc ≠ .guarded
  nodup : s.releases.Nodup
  /-- Between a release and the queue there is at most one `wait`, and it comes next. -/
  last : ∀ w < s.count, (s.waits w).pc = .released → s.releases.length = s.queue.count + 1 ∧
    s.releases[s.queue.count]? = some w
  even : (∀ w < s.count, (s.waits w).pc ≠ .released) → s.releases.length = s.queue.count
  place : ∀ w < s.count, ∀ c, (s.waits w).pc = .waiting c → s.releases[c]? = some w
  order : (s.notified ++ s.queue.waiters).Sublist (List.range s.queue.count)
  accounted : ∀ c < s.queue.count,
    c ∈ s.queue.waiters ∨ c ∈ s.notified ∨ c ∈ s.timedOut ∨ c ∈ s.cancelled
  selected : ∀ c ∈ s.notified, Selected s.queue c

namespace History

variable {s' : ConditionVariable F}

omit [DecidableEq F] in
/-- Nothing that the histories are about changes. -/
theorem same (h : History s) (hwaits : s'.waits = s.waits)
    (hcount : s'.count = s.count) (hqueue : s'.queue = s.queue) (hguard : s'.guard = s.guard)
    (hreleases : s'.releases = s.releases) (hnotified : s'.notified = s.notified)
    (htimedOut : s'.timedOut = s.timedOut) (hcancelled : s'.cancelled = s.cancelled) :
    History s' := by
  constructor <;> simp only [hwaits, hcount, hqueue, hguard, hreleases, hnotified, htimedOut,
    hcancelled]
  · exact h.guarded
  · exact h.past
  · exact h.nodup
  · exact h.last
  · exact h.even
  · exact h.place
  · exact h.order
  · exact h.accounted
  · exact h.selected

omit [DecidableEq F] in
/-- The queue takes a step; its waiters that go are accounted for. -/
theorem queueStep (h : History s) (hwaits : s'.waits = s.waits)
    (hcount : s'.count = s.count) (hguard : s'.guard = s.guard)
    (hreleases : s'.releases = s.releases) (hqcount : s'.queue.count = s.queue.count)
    (horder : (s'.notified ++ s'.queue.waiters).Sublist (s.notified ++ s.queue.waiters))
    (haccounted : ∀ c, c ∈ s.queue.waiters ∨ c ∈ s.notified ∨ c ∈ s.timedOut ∨ c ∈ s.cancelled →
      c ∈ s'.queue.waiters ∨ c ∈ s'.notified ∨ c ∈ s'.timedOut ∨ c ∈ s'.cancelled)
    (hselected : ∀ c ∈ s'.notified, (c ∈ s.notified → Selected s.queue c) →
      Selected s'.queue c) : History s' := by
  refine ⟨?_, ?_, hreleases ▸ h.nodup, ?_, ?_, ?_, hqcount ▸ horder.trans h.order,
    fun c hc => haccounted c (h.accounted c (hqcount ▸ hc)),
    fun c hc => hselected c hc (h.selected c)⟩
  · rw [hwaits, hcount, hguard]
    exact h.guarded
  · rw [hwaits, hcount, hreleases]
    exact h.past
  · rw [hwaits, hcount, hreleases, hqcount]
    exact h.last
  · rw [hwaits, hcount, hreleases, hqcount]
    exact h.even
  · rw [hwaits, hcount, hreleases]
    exact h.place

omit [DecidableEq F] in
/-- A `wait` moves on after its waiter has been queued. -/
theorem later (h : History s) (hw : w < s.count) {pc : CondPc} (hold : (s.waits w).pc ≠ .released)
    (hpc : pc ≠ .owned ∧ pc ≠ .guarded ∧ pc ≠ .released ∧ ∀ c, pc ≠ .waiting c)
    (hwaits : s'.waits = (s.setPc w pc).waits) (hcount : s'.count = s.count)
    (hqueue : s'.queue = s.queue) (hguard : s'.guard = s.guard)
    (hreleases : s'.releases = s.releases) (hnotified : s'.notified = s.notified)
    (htimedOut : s'.timedOut = s.timedOut) (hcancelled : s'.cancelled = s.cancelled) :
    History s' := by
  have hback : ∀ v pc', (pc' = .owned ∨ pc' = .guarded ∨ pc' = .released ∨ ∃ c, pc' = .waiting c) →
      (s'.waits v).pc = pc' → (s.waits v).pc = pc' := by
    intro v pc' hpc' hv
    by_cases hvw : v = w
    · subst hvw
      rw [moved_self hwaits] at hv
      obtain rfl : pc = pc' := hv
      rcases hpc' with hp | hp | hp | ⟨c, hp⟩
      · exact absurd hp hpc.1
      · exact absurd hp hpc.2.1
      · exact absurd hp hpc.2.2.1
      · exact absurd hp (hpc.2.2.2 c)
    · rw [← moved_ne hwaits hvw]
      exact hv
  constructor <;> simp only [hcount, hqueue, hguard, hreleases, hnotified, htimedOut, hcancelled]
  · intro v hv hvpc
    refine h.guarded v hv (hvpc.imp (hback v _ ?_) (hback v _ ?_)) <;> simp
  · intro v hv
    obtain ⟨hlt, ho, hg⟩ := h.past v hv
    exact ⟨hlt, fun hp => ho (hback v _ (by simp) hp), fun hp => hg (hback v _ (by simp) hp)⟩
  · exact h.nodup
  · exact fun v hv hp => h.last v hv (hback v _ (by simp) hp)
  · intro hnone
    refine h.even fun v hv hp => hnone v hv ?_
    have hvw : v ≠ w := by
      rintro rfl
      exact hold hp
    rw [moved_ne hwaits hvw]
    exact hp
  · exact fun v hv c hp => h.place v hv c (hback v _ (by simp) hp)
  · exact h.order
  · exact h.accounted
  · exact h.selected

/-- `notifyOne`, `notifyAll` and `cancelWaiters` complete the front waiter or all of them. -/
theorem notifyOne (h : History s) (ho : Orderly s) : History s.notifyOne.1 := by
  cases hq : s.queue.waiters with
  | nil =>
    have hwake := WaitQueue.wakeOneLocked_nil hq 0
    refine h.same rfl rfl ?_ rfl rfl ?_ rfl rfl
    · show (s.queue.wakeOneLocked 0).1 = s.queue
      rw [hwake]
    · show s.notified ++ s.queue.waiters.take (if (s.queue.wakeOneLocked 0).2 then 1 else 0) = _
      rw [hwake, hq]
      simp
  | cons c rest =>
    have hwake := ho.queue.listed.wakeOneLocked_cons hq 0
    have hqueue : s.notifyOne.1.queue = s.queue.complete c 0 := by
      show (s.queue.wakeOneLocked 0).1 = _
      rw [hwake]
    have hnotified : s.notifyOne.1.notified = s.notified ++ [c] := by
      show s.notified ++ s.queue.waiters.take (if (s.queue.wakeOneLocked 0).2 then 1 else 0) = _
      rw [hwake, hq]
      rfl
    have hrest := WaitQueue.complete_waiters_cons hq 0
    refine h.queueStep rfl rfl rfl rfl (by rw [hqueue]; rfl) ?_ (fun d hd => ?_) fun d hd hold => ?_
    · rw [hqueue, hnotified, hrest, hq, List.append_assoc]
      exact .refl _
    · rw [hqueue, hnotified, hrest]
      rw [hq] at hd
      simp only [List.mem_cons, List.mem_append] at hd ⊢
      tauto
    · rw [hqueue]
      unfold Selected
      rw [WaitQueue.complete_calls]
      split
      · exact ⟨rfl, rfl⟩
      · rename_i hdc
        rw [hnotified] at hd
        simp only [List.mem_append, List.mem_singleton] at hd
        exact hold (hd.resolve_right hdc)

omit [DecidableEq F] in
theorem selected_emptied {q : WaitQueue F} {c : ℕ} (h : Selected q c) (hc : c ∉ q.waiters)
    (error : ℤ) : Selected (q.emptied error) c := by
  unfold Selected WaitQueue.emptied
  dsimp only
  rw [if_neg hc]
  exact h

theorem notifyAll (h : History s) (ho : Orderly s) : History s.notifyAll.1 := by
  have hwake := ho.queue.listed.wakeAllLocked_eq 0
  have hqueue : s.notifyAll.1.queue = s.queue.emptied 0 := by
    show (s.queue.wakeAllLocked 0).1 = _
    rw [hwake]
  have hnotified : s.notifyAll.1.notified = s.notified ++ s.queue.waiters := by
    show s.notified ++ s.queue.waiters.take (s.queue.wakeAllLocked 0).2 = _
    rw [hwake, List.take_length]
  refine h.queueStep rfl rfl rfl rfl (by rw [hqueue]; rfl) ?_ (fun d hd => ?_) fun d hd hold => ?_
  · rw [hqueue, hnotified]
    show ((s.notified ++ s.queue.waiters) ++ []).Sublist _
    rw [List.append_nil]
  · rw [hnotified]
    simp only [List.mem_append]
    show _ ∨ _ ∨ d ∈ s.timedOut ∨ d ∈ s.cancelled
    tauto
  · rw [hqueue]
    by_cases hd' : d ∈ s.queue.waiters
    · unfold Selected WaitQueue.emptied
      dsimp only
      rw [if_pos hd']
      exact ⟨rfl, rfl⟩
    · rw [hnotified] at hd
      exact selected_emptied (hold ((List.mem_append.mp hd).resolve_right hd')) hd' 0

theorem cancelWaiters (h : History s) (ho : Orderly s) (error : ℤ) :
    History (s.cancelWaiters error).1 := by
  have hwake := ho.queue.listed.wakeAllLocked_eq error
  have hqueue : (s.cancelWaiters error).1.queue = s.queue.emptied error := by
    show (s.queue.wakeAllLocked error).1 = _
    rw [hwake]
  have hcancelled : (s.cancelWaiters error).1.cancelled = s.cancelled ++ s.queue.waiters := by
    show s.cancelled ++ s.queue.waiters.take (s.queue.wakeAllLocked error).2 = _
    rw [hwake, List.take_length]
  refine h.queueStep rfl rfl rfl rfl (by rw [hqueue]; rfl) ?_ (fun d hd => ?_) fun d hd hold => ?_
  · rw [hqueue]
    exact (List.Sublist.refl _).append (List.nil_sublist _)
  · rw [hcancelled]
    simp only [List.mem_append]
    show _ ∨ d ∈ s.notified ∨ d ∈ s.timedOut ∨ _
    tauto
  · have hnodup : (s.notified ++ s.queue.waiters).Nodup := h.order.nodup List.nodup_range
    rw [hqueue]
    exact selected_emptied (hold hd) (fun hd' => List.disjoint_of_nodup_append hnodup hd hd') error

theorem internal (h : History s) (ho : Orderly s) {a : Action F} (ha : a.internal = true)
    (he : (waitQueue F).enabled s.queue a) : History (s.queueStep a) := by
  have hquiet := Quiet.internal ho.queue ha he
  rcases WaitQueue.internal_waiters ho.queue ha he with ⟨hwaiters, hno⟩ | ⟨c, hc, rfl, hwaiters⟩
  · have htimedOut : (s.queueStep a).timedOut = s.timedOut := by
      cases a with
      | timeout c => exact if_neg fun hc => hno c hc rfl
      | _ => rfl
    refine h.queueStep rfl rfl rfl rfl hquiet.count ?_ (fun d hd => ?_) fun d hd hold => ?_
    · show (s.notified ++ ((waitQueue F).next s.queue a).waiters).Sublist _
      rw [hwaiters]
    · rw [htimedOut]
      show d ∈ ((waitQueue F).next s.queue a).waiters ∨ _
      rw [hwaiters]
      exact hd
    · exact (hquiet.selected d).mpr (hold hd)
  · have htimedOut : (s.queueStep (.timeout c)).timedOut = s.timedOut ++ [c] := if_pos hc
    refine h.queueStep rfl rfl rfl rfl hquiet.count ?_ (fun d hd => ?_) fun d hd hold => ?_
    · show (s.notified ++ ((waitQueue F).next s.queue (.timeout c)).waiters).Sublist _
      rw [hwaiters]
      exact (List.Sublist.refl _).append List.erase_sublist
    · rw [htimedOut]
      show d ∈ ((waitQueue F).next s.queue (.timeout c)).waiters ∨ d ∈ s.notified ∨ _ ∨
        d ∈ s.cancelled
      rw [hwaiters, ho.queue.nodup.mem_erase_iff]
      simp only [List.mem_append, List.mem_singleton]
      tauto
    · exact (hquiet.selected d).mpr (hold hd)

theorem wait (h : History s) (fiber : F) (timeout : ℕ) : History (s.wait fiber timeout) := by
  have hself : (s.wait fiber timeout).waits s.count = ⟨fiber, timeout,
      if s.mutex.owner = some fiber then CondPc.owned else .returned EPERM⟩ :=
    setWait_waits_self ..
  have hold : ∀ v < s.count, (s.wait fiber timeout).waits v = s.waits v :=
    fun v hv => setWait_waits_ne s _ (Nat.ne_of_lt hv)
  -- the new call is at none of the points the histories speak of
  have hback : ∀ v < s.count + 1, ∀ pc, pc ≠ .owned → pc.done = false →
      ((s.wait fiber timeout).waits v).pc = pc → v < s.count ∧ (s.waits v).pc = pc := by
    intro v hv pc hne hopen hpc
    rcases Nat.lt_succ_iff_lt_or_eq.mp hv with hv | rfl
    · rw [hold v hv] at hpc
      exact ⟨hv, hpc⟩
    · rw [hself] at hpc
      dsimp only at hpc
      split at hpc
      · exact absurd hpc.symm hne
      · rw [← hpc] at hopen
        cases hopen
  refine ⟨fun v hv hpc => ?_, fun v hv => ?_, h.nodup, fun v hv hpc => ?_, fun hnone => ?_,
    fun v hv c hpc => ?_, h.order, h.accounted, h.selected⟩
  · rcases hpc with hpc | hpc
    · obtain ⟨hv, hpc⟩ := hback v hv _ (by simp) rfl hpc
      exact h.guarded v hv (.inl hpc)
    · obtain ⟨hv, hpc⟩ := hback v hv _ (by simp) rfl hpc
      exact h.guarded v hv (.inr hpc)
  · obtain ⟨hlt, hp⟩ := h.past v hv
    rw [hold v hlt]
    exact ⟨Nat.lt_succ_of_lt hlt, hp⟩
  · obtain ⟨hv, hpc⟩ := hback v hv _ (by simp) rfl hpc
    exact h.last v hv hpc
  · refine h.even fun v hv hpc => hnone v (Nat.lt_succ_of_lt hv) ?_
    rw [hold v hv]
    exact hpc
  · obtain ⟨hv, hpc⟩ := hback v hv _ (by simp) rfl hpc
    exact h.place v hv c hpc

omit [DecidableEq F] in
theorem lockGuard (h : History s) (hw : w < s.count) (hpc : (s.waits w).pc = .owned)
    (hguard : s.guard = none) : History (s.lockGuard w) := by
  have hat : (s.lockGuard w).waits w = { s.waits w with pc := .guarded } := setWait_waits_self ..
  have hother : ∀ v, v ≠ w → (s.lockGuard w).waits v = s.waits v :=
    fun v hv => setWait_waits_ne s _ hv
  have hnone : ∀ v < s.count, (s.waits v).pc ≠ .guarded ∧ (s.waits v).pc ≠ .released := by
    refine fun v hv => ⟨fun hp => ?_, fun hp => ?_⟩
    · exact absurd (h.guarded v hv (.inl hp)) (by simp [hguard])
    · exact absurd (h.guarded v hv (.inr hp)) (by simp [hguard])
  have hback : ∀ v pc, pc ≠ .guarded → ((s.lockGuard w).waits v).pc = pc →
      v ≠ w ∧ (s.waits v).pc = pc := by
    intro v pc hne hv
    have hvw : v ≠ w := by
      rintro rfl
      rw [hat] at hv
      exact hne hv.symm
    rw [hother v hvw] at hv
    exact ⟨hvw, hv⟩
  refine ⟨fun v hv hp => ?_, fun v hv => ?_, h.nodup, fun v hv hp => ?_, fun _ => ?_,
    fun v hv c hp => h.place v hv c (hback v _ (by simp) hp).2, h.order, h.accounted, h.selected⟩
  · by_cases hvw : v = w
    · rw [hvw]
      rfl
    · rw [hother v hvw] at hp
      rcases hp with hp | hp
      · exact absurd hp (hnone v hv).1
      · exact absurd hp (hnone v hv).2
  · have hvw : v ≠ w := by
      rintro rfl
      exact (h.past v hv).2.1 hpc
    rw [hother v hvw]
    exact h.past v hv
  · exact absurd (hback v _ (by simp) hp).2 (hnone v hv).2
  · exact h.even fun v hv => (hnone v hv).2

theorem unlockMutex (h : History s) (hw : w < s.count) (hpc : (s.waits w).pc = .guarded) :
    History (s.unlockMutex w) := by
  have hat : (s.unlockMutex w).waits w = { s.waits w with pc := .released } :=
    setWait_waits_self ..
  have hother : ∀ v, v ≠ w → (s.unlockMutex w).waits v = s.waits v :=
    fun v hv => setWait_waits_ne s _ hv
  have hguard := h.guarded w hw (.inl hpc)
  have hnone : ∀ v < s.count, (s.waits v).pc ≠ .released := by
    intro v hv hp
    have hv' := h.guarded v hv (.inr hp)
    rw [hguard] at hv'
    cases hv'
    rw [hpc] at hp
    cases hp
  have hlength := h.even hnone
  refine ⟨fun v hv hp => ?_, fun v hv => ?_, ?_, fun v hv hp => ?_, fun hno => ?_,
    fun v hv c hp => ?_, h.order, h.accounted, h.selected⟩
  · by_cases hvw : v = w
    · rw [hvw]
      exact hguard
    · rw [hother v hvw] at hp
      exact h.guarded v hv hp
  · rcases List.mem_append.mp hv with hm | hm
    · have hvw : v ≠ w := by
        rintro rfl
        exact (h.past v hm).2.2 hpc
      rw [hother v hvw]
      exact h.past v hm
    · rw [List.mem_singleton.mp hm, hat]
      exact ⟨hw, by simp⟩
  · show (s.releases ++ [w]).Nodup
    have hnew : w ∉ s.releases := fun hm => (h.past w hm).2.2 hpc
    exact List.Nodup.append h.nodup (List.nodup_singleton w) (by simpa using hnew)
  · have hvw : v = w := by
      by_contra hvw
      rw [hother v hvw] at hp
      exact hnone v hv hp
    subst hvw
    show (s.releases ++ [v]).length = s.queue.count + 1 ∧
      (s.releases ++ [v])[s.queue.count]? = some v
    rw [← hlength]
    simp
  · exact absurd (congrArg CondWait.pc hat) (hno w hw)
  · have hvw : v ≠ w := by
      rintro rfl
      rw [hat] at hp
      cases hp
    rw [hother v hvw] at hp
    have hc := h.place v hv c hp
    obtain ⟨hlt, -⟩ := List.getElem?_eq_some_iff.mp hc
    show (s.releases ++ [w])[c]? = some v
    rw [List.getElem?_append_left hlt]
    exact hc

omit [DecidableEq F] in
theorem enqueue (h : History s) (hw : w < s.count) (hpc : (s.waits w).pc = .released)
    (htimeout : (s.waits w).timeout ≠ 0) (thread : ℤ) :
    History (s.enqueue w (some .ioManager) thread) := by
  have hat : (s.enqueue w (some .ioManager) thread).waits w =
      { s.waits w with pc := .waiting s.queue.count } := setWait_waits_self ..
  have hother : ∀ v, v ≠ w → (s.enqueue w (some .ioManager) thread).waits v = s.waits v :=
    fun v hv => setWait_waits_ne s _ hv
  have hqueue : (s.enqueue w (some .ioManager) thread).queue = s.queue.publish
      ⟨(s.waits w).fiber, some .ioManager, thread, (s.waits w).timeout, true, 0, .published, false,
        false⟩ := by
    show s.queue.enter (s.waits w).fiber (some .ioManager) thread (s.waits w).timeout = _
    rw [WaitQueue.enter, if_neg htimeout]
  have hguard := h.guarded w hw (.inr hpc)
  obtain ⟨hlength, hlast⟩ := h.last w hw hpc
  have honly : ∀ v < s.count, (s.waits v).pc = .guarded ∨ (s.waits v).pc = .released → v = w := by
    intro v hv hp
    have hv' := h.guarded v hv hp
    rw [hguard] at hv'
    exact (Option.some.inj hv').symm
  have hnone : ∀ v < s.count, ((s.enqueue w (some .ioManager) thread).waits v).pc ≠ .guarded ∧
      ((s.enqueue w (some .ioManager) thread).waits v).pc ≠ .released := by
    intro v hv
    by_cases hvw : v = w
    · rw [hvw, hat]
      simp
    · rw [hother v hvw]
      exact ⟨fun hp => hvw (honly v hv (.inl hp)), fun hp => hvw (honly v hv (.inr hp))⟩
  refine ⟨fun v hv hp => ?_, fun v hv => ?_, h.nodup, fun v hv hp => ?_, fun _ => ?_,
    fun v hv c hp => ?_, ?_, fun c hc => ?_, fun c hc => ?_⟩
  · rcases hp with hp | hp
    · exact absurd hp (hnone v hv).1
    · exact absurd hp (hnone v hv).2
  · obtain ⟨hlt, ho, -⟩ := h.past v hv
    refine ⟨hlt, ?_, (hnone v hlt).1⟩
    by_cases hvw : v = w
    · rw [hvw, hat]
      simp
    · rw [hother v hvw]
      exact ho
  · exact absurd hp (hnone v hv).2
  · rw [hqueue]
    exact hlength
  · by_cases hvw : v = w
    · subst hvw
      rw [hat] at hp
      obtain rfl := CondPc.waiting.inj hp
      exact hlast
    · rw [hother v hvw] at hp
      exact h.place v hv c hp
  · rw [hqueue]
    show (s.notified ++ (s.queue.waiters ++ [s.queue.count])).Sublist
      (List.range (s.queue.count + 1))
    rw [List.range_succ, ← List.append_assoc]
    exact h.order.append (.refl _)
  · rw [hqueue] at hc ⊢
    show c ∈ s.queue.waiters ++ [s.queue.count] ∨ _
    have hc : c < s.queue.count + 1 := hc
    rcases Nat.lt_succ_iff_lt_or_eq.mp hc with hc | rfl
    · exact (h.accounted c hc).imp_left (List.mem_append_left _)
    · exact .inl (List.mem_append_right _ (List.mem_singleton_self _))
  · have hlt : c < s.queue.count :=
      List.mem_range.mp (h.order.subset (List.mem_append_left _ hc))
    have hcall : (s.enqueue w (some .ioManager) thread).queue.calls c = s.queue.calls c :=
      WaitQueue.enter_calls_of_lt _ _ _ _ _ hlt
    unfold Selected
    rw [hcall]
    exact h.selected c hc

theorem next (h : History s) (ho : Orderly s) {a : CondAction F}
    (he : (conditionVariable F).enabled s a) (hok : OnWorkers s a) :
    History ((conditionVariable F).next s a) := by
  cases a with
  | wait fiber timeout => exact h.wait fiber timeout
  | lockGuard w => exact h.lockGuard he.1.1 he.1.2 he.2
  | unlockMutex w => exact h.unlockMutex he.1 he.2
  | enqueue w scheduler thread =>
    obtain ⟨rfl, htimeout⟩ := hok
    exact h.enqueue he.1 he.2 htimeout thread
  | queue a => exact h.internal ho he.1.1 he.1.2
  | waitReturned w c error =>
    exact h.later he.1.1 (by simp [he.1.2]) (by simp) rfl rfl rfl rfl rfl rfl rfl rfl
  | relocked w l waitError result =>
    obtain ⟨⟨hw, hpc⟩, -⟩ := he
    show History (s.relocked w waitError result)
    unfold ConditionVariable.relocked
    split
    · exact h.later hw (by simp [hpc]) (by simp) rfl rfl rfl rfl rfl rfl rfl rfl
    split
    · exact h.later hw (by simp [hpc]) (by simp) rfl rfl rfl rfl rfl rfl rfl rfl
    · exact h.later hw (by simp [hpc]) (by simp) rfl rfl rfl rfl rfl rfl rfl rfl
  | notifyOne => exact h.notifyOne ho
  | notifyAll => exact h.notifyAll ho
  | cancelWaiters error => exact h.cancelWaiters ho error
  | lock | lockRound | mutexQueue | lockReturned | tryLock | unlock | cancelLockers =>
    exact h.same rfl rfl rfl rfl rfl rfl rfl rfl
  | strayCond c task => exact absurd he ho.not_strayCond
  | strayMutex c task => exact absurd he ho.not_strayMutex

end History

theorem reach_sound (h : (conditionVariable F).ReachVia OnWorkers s) : Orderly s ∧ History s := by
  refine h.invariant (I := fun s => Orderly s ∧ History s) (fun s hinit => ?_)
    fun s a hs he hok => ⟨hs.1.next he hok, hs.2.next hs.1 he hok⟩
  obtain ⟨hmutex, hqueue, hguard, hcount, hreleases, hnotified, htimedOut, hcancelled⟩ := hinit
  have hq := init_inv hqueue
  obtain ⟨hqcount, hwaiters, -⟩ := hqueue
  refine ⟨⟨.start hmutex, hq, ?_, ?_, ?_, ?_⟩, ?_⟩
  · simp [Apart, hcount]
  · simp [hcount]
  · simp [hqcount]
  · simp [hcount]
  · constructor <;> simp [hcount, hreleases, hnotified, hqcount, hwaiters]

end ConditionVariable

open ConditionVariable

variable [DecidableEq F]

/-- **No lost notification.**  On `IOManager` workers and with non-zero timeouts, in every state
reached:

* while a `wait` has released the mutex and is not queued, no notification can run;
* after that its waiter is queued, or a notification, a timer or a cancellation has completed it;
* `notifyAll` completes every queued waiter with error 0, returns their number and leaves the queue
  empty;
* `notifyOne` completes exactly the oldest waiter, with error 0, and nobody if none is queued;
* the waiters notified so far come in the order in which their `wait` calls released the mutex
  (call `c` of `waitLocked` is made by the `wait` that released it as number `c`);
* a notified waiter keeps its error 0, and its `waitLocked` returns 0. -/
theorem notification_not_lost {s : ConditionVariable F}
    (h : (conditionVariable F).ReachVia OnWorkers s) :
    (∀ w < s.count, (s.waits w).pc = .released →
      ¬ (conditionVariable F).enabled s .notifyOne ∧
        ¬ (conditionVariable F).enabled s .notifyAll) ∧
    (∀ w < s.count, ∀ c, (s.waits w).pc = .waiting c →
      c ∈ s.queue.waiters ∨ c ∈ s.notified ∨ c ∈ s.timedOut ∨ c ∈ s.cancelled) ∧
    (s.notifyAll.2 = s.queue.waiters.length ∧ s.notifyAll.1.queue.waiters = [] ∧
      s.notifyAll.1.notified = s.notified ++ s.queue.waiters ∧
      ∀ c ∈ s.queue.waiters, Selected s.notifyAll.1.queue c) ∧
    (∀ c rest, s.queue.waiters = c :: rest → s.notifyOne.2 = true ∧
      s.notifyOne.1.queue.waiters = rest ∧ s.notifyOne.1.notified = s.notified ++ [c] ∧
      Selected s.notifyOne.1.queue c ∧
      ∀ d, d ≠ c → s.notifyOne.1.queue.calls d = s.queue.calls d) ∧
    (s.queue.waiters = [] → s.notifyOne.2 = false ∧ s.notifyOne.1.queue = s.queue) ∧
    ((∀ w < s.count, ∀ c, (s.waits w).pc = .waiting c → s.releases[c]? = some w) ∧
      s.releases.Nodup ∧ s.queue.waiters.Pairwise (· < ·) ∧
      s.notified.Sublist (List.range s.releases.length)) ∧
    ∀ c ∈ s.notified, Selected s.queue c ∧ ∀ e, (s.queue.calls c).pc = .returned e → e = 0 := by
  obtain ⟨ho, hh⟩ := reach_sound h
  have hlisted := ho.queue.listed
  have hall := hlisted.wakeAllLocked_eq 0
  refine ⟨fun w hw hpc => ?_, fun w hw c hpc => hh.accounted c (ho.link w hw c hpc).1, ?_,
    fun c rest hq => ?_, fun hq => ?_, ⟨hh.place, hh.nodup, ?_, ?_⟩, fun c hc => ?_⟩
  · have hguard := hh.guarded w hw (.inr hpc)
    have hheld : s.guard ≠ none := by simp [hguard]
    exact ⟨hheld, hheld⟩
  · simp only [ConditionVariable.notifyAll, hall, List.take_length, true_and]
    refine ⟨rfl, fun c hc => ?_⟩
    simp [Selected, WaitQueue.emptied, hc]
  · simp only [ConditionVariable.notifyOne, hlisted.wakeOneLocked_cons hq 0, true_and]
    refine ⟨WaitQueue.complete_waiters_cons hq 0, by rw [hq]; rfl, ?_, fun d hd => ?_⟩
    · simp [Selected, WaitQueue.complete_calls]
    · rw [WaitQueue.complete_calls, if_neg hd]
  · simp only [ConditionVariable.notifyOne, WaitQueue.wakeOneLocked_nil hq 0, and_self]
  · exact List.pairwise_lt_range.sublist ((List.sublist_append_right _ _).trans hh.order)
  · have hle : s.queue.count ≤ s.releases.length := by
      by_cases hnone : ∀ w < s.count, (s.waits w).pc ≠ .released
      · exact Nat.le_of_eq (hh.even hnone).symm
      · push Not at hnone
        obtain ⟨w, hw, hpc⟩ := hnone
        have hlength := (hh.last w hw hpc).1
        omega
    exact ((List.sublist_append_left _ _).trans hh.order).trans (List.range_sublist.mpr hle)
  · obtain ⟨hwaiting, herror⟩ := hh.selected c hc
    refine ⟨⟨hwaiting, herror⟩, fun e hret => ?_⟩
    have hlt : c < s.queue.count :=
      List.mem_range.mp (hh.order.subset (List.mem_append_left _ hc))
    have hgone : c ∉ s.queue.waiters := by
      intro hm
      rw [(ho.queue.queued c hm).1] at hwaiting
      cases hwaiting
    rcases ho.queue.gone c hlt hgone with hearly | hwoken
    · rw [hearly.waiting] at hwaiting
      cases hwaiting
    · exact (hwoken.result e hret).1.trans herror

/-- The owner of the mutex waits: the mutex is released and the waiter queued, not yet parked. -/
def queuedWait : List (CondAction Bool) :=
  [.lock false kFiberWaitForever 0, .lockRound 0 0 (some .ioManager) 7, .wait false 50,
    .lockGuard 0, .unlockMutex 0, .enqueue 0 (some .ioManager) 7]

/-- A notification that comes before the yield completes the waiter. -/
theorem notification_not_lost_queued :
    ((conditionVariable Bool).run (.unused false) queuedWait).notifyOne.2 = true ∧
      Selected ((conditionVariable Bool).run (.unused false) queuedWait).notifyOne.1.queue 0 := by
  have hreach : (conditionVariable Bool).ReachVia OnWorkers
      ((conditionVariable Bool).run (.unused false) queuedWait) :=
    Machine.reachVia_run (unused_reach false) (by decide +kernel)
  have hone := (notification_not_lost hreach).2.2.2.1 0 [] (by decide +kernel)
  exact ⟨hone.1, hone.2.2.2.1⟩

end PulsarRuntime.Sync
