import PulsarRuntime.Lib.Family
import PulsarRuntime.Sync.ConditionVariable
import PulsarRuntime.Sync.Reservation

/-!
# Does `wait` come back with the mutex?

`wait` ends with a loop around `mutex.lock()` that only goes on after `EINTR`.  The lock it makes
is untimed, so it fails in two ways: `mutex.cancelWaiters` completes it with another error while
it is queued, or it has to park on a thread without a scheduler.  Then `wait` returns -1 although
another Fiber may own the mutex.

`Relocks m f l` is what keeps a re-lock on course: while it is queued its waiter can only be
completed with 0 or `EINTR`, and once it has returned anything but `EINTR` the Fiber owns the
mutex.  Every step that meets `Uncancelled` keeps it, and no step takes the mutex away from a Fiber
that is inside `wait`.
-/

namespace PulsarRuntime.Sync

open FiberMutex

variable {F : Type}

/-- A call of `waitLocked` that no timer can end: it returns 0 or is interrupted. -/
structure Untimed (k : Call F) : Prop where
  timeout : k.timeout = kFiberWaitForever
  timer : k.timer = false
  error : k.pc.done = false → k.error = 0 ∨ k.error = EINTR
  result : ∀ e, k.pc = .returned e → e = 0 ∨ e = EINTR

/-- Lock `l` is the re-lock of the Fiber `f`. -/
structure Relocks (m : FiberMutex F) (f : F) (l : ℕ) : Prop where
  bound : l < m.count
  fiber : (m.locks l).fiber = f
  timeout : (m.locks l).timeout = kFiberWaitForever
  waiting : ∀ c, (m.locks l).pc = .waiting c → c < m.queue.count ∧ Untimed (m.queue.calls c)
  result : ∀ r, (m.locks l).pc = .returned r → r = EINTR ∨ m.owner = some f

/-! ### Steps of the mutex's queue -/

variable {error : ℤ} {k : Call F}

/-- A call after some steps of its queue: completed with 0 or `EINTR`, or moved on. -/
theorem Untimed.completed (h : Untimed k) (herror : error = 0 ∨ error = EINTR) :
    Untimed { k with waiting := false, error := error } :=
  ⟨h.timeout, h.timer, fun _ => herror, h.result⟩

theorem Untimed.moved (h : Untimed k) {pc : Pc} (hpc : pc.done = false)
    (hopen : k.pc.done = false) (yielded : Bool) :
    Untimed { k with pc := pc, yielded := yielded } := by
  refine ⟨h.timeout, h.timer, fun _ => h.error hopen, fun e he => ?_⟩
  obtain rfl : pc = .returned e := he
  cases hpc

variable {q : WaitQueue F} {c : ℕ}

theorem Untimed.complete (h : Untimed (q.calls c)) (d : ℕ)
    (herror : d = c → error = 0 ∨ error = EINTR) : Untimed ((q.complete d error).calls c) := by
  rw [WaitQueue.complete_calls]
  split
  · rename_i hcd
    subst hcd
    exact h.completed (herror rfl)
  · exact h

theorem Untimed.completeLocked (hq : q.Listed) (h : Untimed (q.calls c)) (d : ℕ)
    (herror : d = c → error = 0 ∨ error = EINTR) :
    Untimed ((q.completeLocked d error).1.calls c) := by
  by_cases hd : d ∈ q.waiters
  · rw [hq.completeLocked_of_mem hd]
    exact h.complete d herror
  · rw [WaitQueue.completeLocked_of_not_mem q hd]
    exact h

theorem Untimed.wakeOneLocked (hq : q.Listed)
    (h : Untimed (q.calls c)) : Untimed ((q.wakeOneLocked 0).1.calls c) := by
  unfold WaitQueue.wakeOneLocked
  split
  · exact h
  · exact h.completeLocked hq _ fun _ => .inl rfl

theorem Untimed.wakeAllLocked (hq : q.Listed) (h : Untimed (q.calls c))
    (herror : c ∈ q.waiters → error = 0 ∨ error = EINTR) :
    Untimed ((q.wakeAllLocked error).1.calls c) := by
  rw [hq.wakeAllLocked_eq]
  show Untimed (if c ∈ q.waiters then _ else q.calls c)
  split
  · rename_i hc
    exact h.completed (herror hc)
  · exact h

/-- A step that replaces the record of one call. -/
theorem Untimed.setCall {c d : ℕ} (h : Untimed (q.calls c))
    (hk : c = d → Untimed k) : Untimed ((q.setCall d k).calls c) := by
  by_cases hcd : c = d
  · subst hcd
    rw [WaitQueue.setCall_calls_self]
    exact hk rfl
  · rw [WaitQueue.setCall_calls_ne q k hcd]
    exact h

theorem Untimed.internal (hq : q.Listed) (h : Untimed (q.calls c))
    {a : Action F} (ha : a.internal = true) (he : (waitQueue F).enabled q a) :
    Untimed (((waitQueue F).next q a).calls c) := by
  cases a with
  | enter => cases ha
  | wakeOne => cases ha
  | wakeAll => cases ha
  | arm d =>
    show Untimed ((q.arm d).calls c)
    unfold WaitQueue.arm
    by_cases hcd : c = d
    · subst hcd
      rw [if_pos h.timeout]
      exact h.setCall fun _ => h.moved rfl (by rw [he.2]; rfl) _
    · split
      · exact h.setCall fun hcd' => absurd hcd' hcd
      split
      · exact h.setCall fun hcd' => absurd hcd' hcd
      · exact (h.completeLocked hq d fun hdc => absurd hdc.symm hcd).setCall
          fun hcd' => absurd hcd' hcd
  | yield d =>
    refine h.setCall fun hcd => ?_
    subst hcd
    exact h.moved rfl (by rw [he.2]; rfl) true
  | resume d task =>
    show Untimed ((q.setPc d .resumed).calls c)
    refine h.setCall fun hcd => ?_
    subst hcd
    exact h.moved rfl (by rw [he.1.2]; rfl) _
  | finish d =>
    show Untimed ((q.finish d).calls c)
    simp only [WaitQueue.finish]
    by_cases hcd : c = d
    · subst hcd
      have herror := h.error (by rw [he.2]; rfl)
      -- the result is the error found before the waiter is taken out of the queue
      have hret : ∀ {q' : WaitQueue F}, (q'.calls c).timeout = kFiberWaitForever →
          (q'.calls c).timer = false →
          Untimed ((q'.setPc c (.returned (q.calls c).error)).calls c) := by
        intro q' htimeout htimer
        show Untimed ((q'.setCall c _).calls c)
        rw [WaitQueue.setCall_calls_self]
        refine ⟨htimeout, htimer, fun hd => (by cases hd), fun e he' => ?_⟩
        cases he'
        exact herror
      split
      · by_cases hmem : c ∈ q.waiters
        · rw [hq.completeLocked_of_mem hmem]
          refine hret ?_ ?_
          all_goals rw [WaitQueue.complete_calls, if_pos rfl]
          · exact h.timeout
          · exact h.timer
        · rw [WaitQueue.completeLocked_of_not_mem q hmem]
          exact hret h.timeout h.timer
      · exact hret h.timeout h.timer
    · split
      · exact (h.completeLocked hq d fun hdc => absurd hdc.symm hcd).setCall
          fun hcd' => absurd hcd' hcd
      · exact h.setCall fun hcd' => absurd hcd' hcd
  | timeout d =>
    have hcd : c ≠ d := by
      rintro rfl
      have htimer := he.2
      rw [h.timer] at htimer
      cases htimer
    have hset : Untimed ((q.setCall d { q.calls d with timer := false }).calls c) :=
      h.setCall fun hcd' => absurd hcd' hcd
    exact hset.completeLocked (hq.disarm d) d fun hdc => absurd hdc.symm hcd

/-! ### Steps of the mutex -/

namespace Relocks

variable {m m' : FiberMutex F} {f : F} {l : ℕ}

/-- **Frame rule.**  The lock is where it was, its waiter is still untimed, and the mutex has not
been taken from `f`. -/
theorem frame (h : Relocks m f l) (hcount : m.count ≤ m'.count) (hlock : m'.locks l = m.locks l)
    (hqcount : m.queue.count ≤ m'.queue.count)
    (hcalls : ∀ c, (m.locks l).pc = .waiting c → Untimed (m.queue.calls c) →
      Untimed (m'.queue.calls c))
    (howner : m.owner = some f → m'.owner = some f) : Relocks m' f l where
  bound := lt_of_lt_of_le h.bound hcount
  fiber := hlock ▸ h.fiber
  timeout := hlock ▸ h.timeout
  waiting := by
    intro c hc
    rw [hlock] at hc
    obtain ⟨hb, hu⟩ := h.waiting c hc
    exact ⟨lt_of_lt_of_le hb hqcount, hcalls c hc hu⟩
  result := by
    intro r hr
    rw [hlock] at hr
    exact (h.result r hr).imp_right howner

/-- The queue takes a step. -/
theorem queue (h : Relocks m f l) {q : WaitQueue F} (hcount : q.count = m.queue.count)
    (hcalls : ∀ c, (m.locks l).pc = .waiting c → Untimed (m.queue.calls c) →
      Untimed (q.calls c)) : Relocks { m with queue := q } f l :=
  h.frame le_rfl rfl (Nat.le_of_eq hcount.symm) hcalls fun ho => ho

theorem lock (h : Relocks m f l) (fiber : F) (timeout now : ℕ) :
    Relocks (m.lock fiber timeout now) f l :=
  h.frame (Nat.le_succ _) (setLock_locks_ne m _ (Nat.ne_of_lt h.bound)) le_rfl
    (fun _ _ hu => hu) fun ho => ho

theorem relock (m : FiberMutex F) (f : F) : Relocks (m.lock f kFiberWaitForever 0) f m.count := by
  have hself : (m.lock f kFiberWaitForever 0).locks m.count =
      ⟨f, kFiberWaitForever, 0, none, .guard⟩ := setLock_locks_self ..
  refine ⟨Nat.lt_succ_self _, by rw [hself], by rw [hself], fun c hc => ?_, fun r hr => ?_⟩
  · rw [hself] at hc
    cases hc
  · rw [hself] at hr
    cases hr

section

variable (h : Relocks m f l)
include h

/-- The lock returns, with `EINTR` or with the mutex. -/
theorem setPc_returned (r : ℤ) (hr : r = EINTR ∨ m.owner = some f) :
    Relocks (m.setPc l (.returned r)) f l := by
  have hself : (m.setPc l (.returned r)).locks l = { m.locks l with pc := .returned r } :=
    setLock_locks_self ..
  refine ⟨h.bound, by rw [hself]; exact h.fiber, by rw [hself]; exact h.timeout, fun c hc => ?_,
    fun r' hr' => ?_⟩
  · rw [hself] at hc
    cases hc
  · rw [hself] at hr'
    cases hr'
    exact hr

variable {l' : ℕ}

/-- Another lock changes its program point. -/
theorem setLock_ne (hne : l ≠ l') (k : Lock F) : Relocks (m.setLock l' k) f l :=
  h.frame le_rfl (setLock_locks_ne m k hne) le_rfl (fun _ _ hu => hu) fun ho => ho

theorem waitOn_self {kind : SchedulerKind} (thread : ℤ) :
    Relocks (m.waitOn (some kind) l thread kFiberWaitForever) f l := by
  have hself : (m.waitOn (some kind) l thread kFiberWaitForever).locks l =
      { m.locks l with pc := .waiting m.queue.count } := setLock_locks_self ..
  have hcall : (m.waitOn (some kind) l thread kFiberWaitForever).queue.calls m.queue.count =
      ⟨(m.locks l).fiber, some kind, thread, kFiberWaitForever, true, 0, .published, false,
        false⟩ := WaitQueue.setCall_calls_self ..
  refine ⟨h.bound, by rw [hself]; exact h.fiber, by rw [hself]; exact h.timeout, fun c hc => ?_,
    fun r hr => ?_⟩
  · rw [hself] at hc
    obtain rfl := LockPc.waiting.inj hc
    refine ⟨Nat.lt_succ_self _, ?_⟩
    rw [hcall]
    exact ⟨rfl, rfl, fun _ => .inl rfl, fun e he => (by cases he)⟩
  · rw [hself] at hr
    cases hr

theorem waitOn_ne (hne : l ≠ l') (scheduler : Option SchedulerKind)
    (thread : ℤ) (remaining : ℕ) : Relocks (m.waitOn scheduler l' thread remaining) f l := by
  have hcount := (WaitQueue.enter_spec m.queue (m.locks l').fiber scheduler thread remaining).1
  refine h.frame le_rfl (setLock_locks_ne m _ hne)
    (le_of_le_of_eq (Nat.le_succ _) hcount.symm) (fun c hc hu => ?_) fun ho => ho
  show Untimed ((m.queue.enter (m.locks l').fiber scheduler thread remaining).calls c)
  rw [WaitQueue.enter_calls_of_lt _ _ _ _ _ (h.waiting c hc).1]
  exact hu

theorem lockReturned {c : ℕ} {error : ℤ}
    (hpc : (m.locks l').pc = .waiting c) (hret : (m.queue.calls c).pc = .returned error) :
    Relocks (m.waitReturned l' c error) f l := by
  unfold FiberMutex.waitReturned
  by_cases hll : l' = l
  · subst hll
    split
    · rename_i herror
      have hresult := (h.waiting c hpc).2.result error hret
      exact h.setPc_returned error (.inl (hresult.resolve_left herror))
    · have hself : (m.select l' c).locks l' =
          { m.locks l' with selected := some c, pc := .guard } := setLock_locks_self ..
      refine ⟨h.bound, by rw [hself]; exact h.fiber, by rw [hself]; exact h.timeout,
        fun d hd => ?_, fun r hr => ?_⟩
      · rw [hself] at hd
        cases hd
      · rw [hself] at hr
        cases hr
  · split
    · exact h.setLock_ne (Ne.symm hll) _
    · exact h.setLock_ne (Ne.symm hll) _

theorem cancelWaiters (hq : m.queue.Listed) {error : ℤ}
    (herror : ∀ c ∈ m.queue.waiters, (m.locks l).pc = .waiting c → error = 0 ∨ error = EINTR) :
    Relocks (m.cancelWaiters error).1 f l := by
  refine h.queue ?_ fun c hc hu => hu.wakeAllLocked hq fun hmem => herror c hmem hc
  rw [hq.wakeAllLocked_eq]
  rfl

end

variable [DecidableEq F]

theorem lockRoundOn (h : Relocks m f l) (scheduler : Option SchedulerKind) (l' now : ℕ)
    (thread : ℤ) (hsched : l' = l → scheduler ≠ none) :
    Relocks (m.lockRoundOn scheduler l' now thread) f l := by
  simp only [FiberMutex.lockRoundOn]
  by_cases hll : l' = l
  · subst hll
    obtain ⟨kind, rfl⟩ := Option.ne_none_iff_exists'.mp (hsched rfl)
    rw [h.fiber]
    split
    · have hacq : Relocks (m.acquire f (m.locks l').selected) f l' :=
        h.frame le_rfl rfl le_rfl (fun _ _ hu => hu) fun _ => rfl
      exact hacq.setPc_returned 0 (.inr rfl)
    split
    · rename_i howner
      exact h.setPc_returned EDEADLK (.inr howner)
    rw [if_pos h.timeout]
    exact h.waitOn_self thread
  · have hne := Ne.symm hll
    split
    · rename_i hfree
      have hacq : Relocks (m.acquire (m.locks l').fiber (m.locks l').selected) f l :=
        h.frame le_rfl rfl le_rfl (fun _ _ hu => hu) fun ho => by
          rw [hfree.1] at ho
          cases ho
      exact hacq.setLock_ne hne _
    split
    · exact h.setLock_ne hne _
    split
    · exact h.waitOn_ne hne ..
    split
    · exact h.setLock_ne hne _
    · exact h.waitOn_ne hne ..

theorem tryLock (h : Relocks m f l) (fiber : F) : Relocks (m.tryLock fiber).1 f l := by
  unfold FiberMutex.tryLock
  split
  · rename_i hfree
    refine h.frame le_rfl rfl le_rfl (fun _ _ hu => hu) fun ho => ?_
    rw [hfree.1] at ho
    cases ho
  · exact h

/-- Another Fiber's `unlock` fails as long as `f` owns the mutex. -/
theorem unlock (h : Relocks m f l) (hq : m.queue.Listed) {fiber : F} (hne : fiber ≠ f) :
    Relocks (m.unlock fiber).1 f l := by
  unfold FiberMutex.unlock
  split
  · exact h
  · rename_i howner
    rw [not_not] at howner
    refine h.frame le_rfl rfl ?_ (fun c _ hu => hu.wakeOneLocked hq) fun ho => ?_
    · exact Nat.le_of_eq (WaitQueue.wakeOneLocked_count m.queue 0).symm
    · rw [howner] at ho
      exact absurd (Option.some.inj ho) hne

end Relocks

/-! ### The invariant -/

namespace ConditionVariable

/-- The `lock` call this `wait` is in. -/
def relockOf (s : ConditionVariable F) (w : ℕ) : Option ℕ :=
  match (s.waits w).pc with
  | .relocking l _ => some l
  | _ => none

/-- The call of `waitLocked` its re-lock is in. -/
def relockCall (s : ConditionVariable F) (w : ℕ) : Option ℕ :=
  match s.relockOf w with
  | some l =>
    match (s.mutex.locks l).pc with
    | .waiting c => some c
    | _ => none
  | none => none

/-- `mutex.cancelWaiters` meets no `wait` in the mutex's queue unless its error is 0 or `EINTR`,
and a re-lock runs on a thread that has a scheduler. -/
def Uncancelled (s : ConditionVariable F) : CondAction F → Prop
  | .cancelLockers error => (error = 0 ∨ error = EINTR) ∨
      ∀ w < s.count, ∀ c ∈ s.mutex.queue.waiters, s.relockCall w ≠ some c
  | .lockRound l _ scheduler _ => scheduler = none → ∀ w < s.count, s.relockOf w ≠ some l
  | _ => True

instance (s : ConditionVariable F) (a : CondAction F) : Decidable (Uncancelled s a) := by
  rcases a <;> (dsimp only [Uncancelled]; infer_instance)

/-- A Fiber is in one `wait` at a time. -/
def Apart (s : ConditionVariable F) : Prop :=
  ∀ w < s.count, ∀ w' < s.count, (s.waits w).fiber = (s.waits w').fiber →
    (s.waits w).pc.done = false → (s.waits w').pc.done = false → w = w'

structure Inv (s : ConditionVariable F) : Prop where
  listed : s.mutex.queue.Listed
  distinct : Apart s
  owned : ∀ w < s.count, (s.waits w).pc = .owned ∨ (s.waits w).pc = .guarded →
    s.mutex.owner = some (s.waits w).fiber
  relocks : ∀ w < s.count, ∀ l e, (s.waits w).pc = .relocking l e →
    Relocks s.mutex (s.waits w).fiber l

variable {s : ConditionVariable F} {w : ℕ} {v : ℕ}

theorem setWait_waits_ne (s : ConditionVariable F) (k : CondWait F) (h : v ≠ w) :
    (s.setWait w k).waits v = s.waits v := Function.update_of_ne h ..

theorem setWait_waits_self (s : ConditionVariable F) (w : ℕ) (k : CondWait F) :
    (s.setWait w k).waits w = k := Function.update_self ..

/-! A `wait` moves on. -/

section Moved

variable {s' : ConditionVariable F} {pc : CondPc} (hwaits : s'.waits = (s.setPc w pc).waits)
include hwaits

theorem moved_self : s'.waits w = { s.waits w with pc := pc } := by
  rw [hwaits]
  exact setWait_waits_self ..

theorem moved_ne {v : ℕ} (hv : v ≠ w) : s'.waits v = s.waits v := by
  rw [hwaits]
  exact setWait_waits_ne s _ hv

theorem moved_fiber (v : ℕ) : (s'.waits v).fiber = (s.waits v).fiber := by
  by_cases hv : v = w
  · rw [hv, moved_self hwaits]
  · rw [moved_ne hwaits hv]

theorem moved_open (hopen : (s.waits w).pc.done = false) {v : ℕ}
    (hd : (s'.waits v).pc.done = false) : (s.waits v).pc.done = false := by
  by_cases hv : v = w
  · rw [hv]
    exact hopen
  · rw [← moved_ne hwaits hv]
    exact hd

end Moved

variable {s' : ConditionVariable F} {pc : CondPc}

/-- A step that moves one `wait` to a point inside it makes none return. -/
theorem not_done_setPc (hpc : pc.done = false) (hopen : (s.waits w).pc.done = false) :
    ((s.setPc v pc).waits w).pc.done = false := by
  unfold setPc
  by_cases hwv : w = v
  · rw [hwv, setWait_waits_self]
    exact hpc
  · rw [setWait_waits_ne s _ hwv]
    exact hopen

theorem Apart.same (h : Apart s) (hwaits : s'.waits = s.waits) (hcount : s'.count = s.count) :
    Apart s' := by
  rw [Apart, hwaits, hcount]
  exact h

theorem Apart.move (h : Apart s)
    (hopen : (s.waits w).pc.done = false) (hwaits : s'.waits = (s.setPc w pc).waits)
    (hcount : s'.count = s.count) : Apart s' := by
  intro v hv v' hv' hf hd hd'
  rw [hcount] at hv hv'
  rw [moved_fiber hwaits, moved_fiber hwaits] at hf
  exact h v hv v' hv' hf (moved_open hwaits hopen hd) (moved_open hwaits hopen hd')

/-- The mutex takes a step that leaves it to the Fibers inside `wait`. -/
theorem Inv.mutex (h : Inv s) (hwaits : s'.waits = s.waits)
    (hcount : s'.count = s.count) (hl : s'.mutex.queue.Listed)
    (howner : ∀ w < s.count, (s.waits w).pc.done = false →
      s.mutex.owner = some (s.waits w).fiber → s'.mutex.owner = some (s.waits w).fiber)
    (hrelocks : ∀ w < s.count, ∀ l e, (s.waits w).pc = .relocking l e →
      Relocks s.mutex (s.waits w).fiber l → Relocks s'.mutex (s.waits w).fiber l) : Inv s' := by
  refine ⟨hl, h.distinct.same hwaits hcount, ?_, ?_⟩ <;> rw [hwaits, hcount]
  · intro w hw hpc
    refine howner w hw ?_ (h.owned w hw hpc)
    rcases hpc with hpc | hpc <;> rw [hpc] <;> rfl
  · exact fun w hw l e hpc => hrelocks w hw l e hpc (h.relocks w hw l e hpc)

/-- A `wait` moves on, and with it perhaps the mutex. -/
theorem Inv.move (h : Inv s) (hw : w < s.count) (hopen : (s.waits w).pc.done = false)
    (hwaits : s'.waits = (s.setPc w pc).waits) (hcount : s'.count = s.count)
    (hl : s'.mutex.queue.Listed)
    (howner : ∀ f, f ≠ (s.waits w).fiber → s.mutex.owner = some f → s'.mutex.owner = some f)
    (hrelocks : ∀ f l, f ≠ (s.waits w).fiber → Relocks s.mutex f l → Relocks s'.mutex f l)
    (hpc : pc = .owned ∨ pc = .guarded → s'.mutex.owner = some (s.waits w).fiber)
    (hre : ∀ l e, pc = .relocking l e → Relocks s'.mutex (s.waits w).fiber l) : Inv s' := by
  -- the Fiber of any other open `wait` is another one
  have hne : ∀ v < s.count, v ≠ w → (s.waits v).pc.done = false →
      (s.waits v).fiber ≠ (s.waits w).fiber :=
    fun v hv hvw hd hf => hvw (h.distinct v hv w hw hf hd hopen)
  refine ⟨hl, Apart.move h.distinct hopen hwaits hcount, fun v hv hv' => ?_,
    fun v hv l e hv' => ?_⟩
  · rw [hcount] at hv
    rw [moved_fiber hwaits]
    by_cases hvw : v = w
    · subst hvw
      rw [moved_self hwaits] at hv'
      exact hpc hv'
    · rw [moved_ne hwaits hvw] at hv'
      have hd : (s.waits v).pc.done = false := by rcases hv' with h' | h' <;> rw [h'] <;> rfl
      exact howner _ (hne v hv hvw hd) (h.owned v hv hv')
  · rw [hcount] at hv
    rw [moved_fiber hwaits]
    by_cases hvw : v = w
    · subst hvw
      rw [moved_self hwaits] at hv'
      exact hre l e hv'
    · rw [moved_ne hwaits hvw] at hv'
      have hd : (s.waits v).pc.done = false := by rw [hv']; rfl
      exact hrelocks _ l (hne v hv hvw hd) (h.relocks v hv l e hv')

/-- A `wait` moves on and nothing else changes. -/
theorem Inv.local (h : Inv s) (hw : w < s.count)
    (hopen : (s.waits w).pc.done = false) (hwaits : s'.waits = (s.setPc w pc).waits)
    (hcount : s'.count = s.count) (hmutex : s'.mutex = s.mutex)
    (hpc : pc = .owned ∨ pc = .guarded → s.mutex.owner = some (s.waits w).fiber)
    (hre : ∀ l e, pc ≠ .relocking l e) : Inv s' :=
  h.move hw hopen hwaits hcount (hmutex ▸ h.listed) (fun _ _ ho => hmutex ▸ ho)
    (fun _ _ _ hr => hmutex ▸ hr) (fun hp => hmutex ▸ hpc hp) fun l e hl => absurd hl (hre l e)

theorem Inv.relock (h : Inv s) (hw : w < s.count) (hopen : (s.waits w).pc.done = false)
    (waitError : ℤ) : Inv (s.relock w waitError) := by
  refine h.move hw hopen rfl rfl h.listed (fun _ _ ho => ho) (fun f l _ hr => hr.lock ..)
    (fun hp => by rcases hp with hp | hp <;> cases hp) fun l e hl => ?_
  cases hl
  exact Relocks.relock s.mutex _

theorem Inv.relocked (h : Inv s) (hw : w < s.count) {l : ℕ} {e result : ℤ}
    (hpc : (s.waits w).pc = .relocking l e) : Inv (s.relocked w e result) := by
  have hopen : (s.waits w).pc.done = false := by rw [hpc]; rfl
  unfold ConditionVariable.relocked
  split
  · exact h.local hw hopen rfl rfl rfl (by simp) (by simp)
  split
  · exact h.relock hw hopen e
  · exact h.local hw hopen rfl rfl rfl (by simp) (by simp)

variable {fiber : F}

theorem Idle.ne_fiber (hidle : s.Idle fiber) (hw : w < s.count)
    (hopen : (s.waits w).pc.done = false) : fiber ≠ (s.waits w).fiber := by
  rintro rfl
  rw [hidle.1 w hw rfl] at hopen
  cases hopen

theorem Inv.cancelLockers (h : Inv s) {error : ℤ}
    (hok : (error = 0 ∨ error = EINTR) ∨
      ∀ w < s.count, ∀ c ∈ s.mutex.queue.waiters, s.relockCall w ≠ some c) :
    Inv { s with mutex := (s.mutex.cancelWaiters error).1 } := by
  refine h.mutex rfl rfl ?_ (fun _ _ _ ho => ho) fun w hw l e hpc hr => ?_
  · show (s.mutex.queue.wakeAllLocked error).1.Listed
    rw [h.listed.wakeAllLocked_eq]
    exact .emptied s.mutex.queue error
  · refine hr.cancelWaiters h.listed fun c hc hwait => ?_
    refine hok.resolve_right fun hnone => hnone w hw c hc ?_
    simp [relockCall, relockOf, hpc, hwait]

variable [DecidableEq F]

theorem wait_new (s : ConditionVariable F) (fiber : F) (timeout : ℕ) :
    (s.wait fiber timeout).waits s.count = ⟨fiber, timeout,
      if s.mutex.owner = some fiber then CondPc.owned else .returned EPERM⟩ :=
  setWait_waits_self ..

theorem wait_old (hv : v < s.count) (fiber : F) (timeout : ℕ) :
    (s.wait fiber timeout).waits v = s.waits v :=
  setWait_waits_ne s _ (Nat.ne_of_lt hv)

theorem Apart.wait (h : Apart s) (hidle : s.Idle fiber) (timeout : ℕ) :
    Apart (s.wait fiber timeout) := by
  intro v hv v' hv' hf hd hd'
  rcases Nat.lt_succ_iff_lt_or_eq.mp hv with hv | rfl <;>
    rcases Nat.lt_succ_iff_lt_or_eq.mp hv' with hv' | rfl
  · rw [wait_old hv] at hf hd
    rw [wait_old hv'] at hf hd'
    exact h v hv v' hv' hf hd hd'
  · rw [wait_old hv] at hf hd
    rw [wait_new] at hf
    exact absurd hf.symm (hidle.ne_fiber hv hd)
  · rw [wait_old hv'] at hf hd'
    rw [wait_new] at hf
    exact absurd hf (hidle.ne_fiber hv' hd')
  · rfl

theorem Inv.wait (h : Inv s) (hidle : s.Idle fiber) (timeout : ℕ) : Inv (s.wait fiber timeout) := by
  refine ⟨h.listed, Apart.wait h.distinct hidle timeout, fun v hv hpc => ?_,
    fun v hv l e hpc => ?_⟩
  · rcases Nat.lt_succ_iff_lt_or_eq.mp hv with hv | rfl
    · rw [wait_old hv] at hpc ⊢
      exact h.owned v hv hpc
    · rw [wait_new] at hpc ⊢
      show s.mutex.owner = some fiber
      by_contra hno
      dsimp only at hpc
      rw [if_neg hno] at hpc
      rcases hpc with hpc | hpc <;> cases hpc
  · rcases Nat.lt_succ_iff_lt_or_eq.mp hv with hv | rfl
    · rw [wait_old hv] at hpc ⊢
      exact h.relocks v hv l e hpc
    · rw [wait_new] at hpc
      dsimp only at hpc
      split at hpc <;> cases hpc

variable {m : FiberMutex F}

theorem unlock_owner {f : F} (hne : fiber ≠ f) (h : m.owner = some f) :
    (m.unlock fiber).1.owner = some f := by
  have hno : m.owner ≠ some fiber := by
    rw [h]
    exact fun heq => hne (Option.some.inj heq).symm
  simp only [FiberMutex.unlock]
  rw [if_pos hno]
  exact h

theorem unlock_listed (hq : m.queue.Listed) (fiber : F) : (m.unlock fiber).1.queue.Listed := by
  simp only [FiberMutex.unlock]
  split
  · exact hq
  · exact hq.wakeOneLocked 0

theorem lockRoundOn_spec (hq : m.queue.Listed)
    (scheduler : Option SchedulerKind) (l now : ℕ) (thread : ℤ) :
    (m.lockRoundOn scheduler l now thread).queue.Listed ∧
      ∀ f, m.owner = some f → (m.lockRoundOn scheduler l now thread).owner = some f := by
  simp only [FiberMutex.lockRoundOn]
  split
  · rename_i hfree
    refine ⟨hq, fun f ho => ?_⟩
    rw [hfree.1] at ho
    cases ho
  split
  · exact ⟨hq, fun _ ho => ho⟩
  split
  · exact ⟨hq.enter .., fun _ ho => ho⟩
  split
  · exact ⟨hq, fun _ ho => ho⟩
  · exact ⟨hq.enter .., fun _ ho => ho⟩

theorem Inv.unlockMutex (h : Inv s) (hw : w < s.count) (hpc : (s.waits w).pc = .guarded) :
    Inv (s.unlockMutex w) :=
  h.move hw (by rw [hpc]; rfl) rfl rfl (unlock_listed h.listed _)
    (fun _ hne ho => unlock_owner hne.symm ho)
    (fun _ _ hne hr => hr.unlock h.listed hne.symm)
    (fun hp => by rcases hp with hp | hp <;> cases hp) fun _ _ hl => by cases hl

theorem Inv.unlock (h : Inv s) (hidle : s.Idle fiber) :
    Inv { s with mutex := (s.mutex.unlock fiber).1 } :=
  h.mutex rfl rfl (unlock_listed h.listed fiber)
    (fun _ hw hopen ho => unlock_owner (hidle.ne_fiber hw hopen) ho)
    fun _ hw _ _ hpc hr => hr.unlock h.listed (hidle.ne_fiber hw (by rw [hpc]; rfl))

theorem Inv.tryLock (h : Inv s) (fiber : F) :
    Inv { s with mutex := (s.mutex.tryLock fiber).1 } := by
  refine h.mutex rfl rfl ?_ (fun w _ _ ho => ?_) fun _ _ _ _ _ hr => hr.tryLock fiber
  · simp only [FiberMutex.tryLock]
    split <;> exact h.listed
  · simp only [FiberMutex.tryLock]
    split
    · rename_i hfree
      rw [hfree.1] at ho
      cases ho
    · exact ho

theorem Inv.lockRound (h : Inv s) {l now : ℕ} {scheduler : Option SchedulerKind} {thread : ℤ}
    (hok : scheduler = none → ∀ w < s.count, s.relockOf w ≠ some l) :
    Inv { s with mutex := s.mutex.lockRoundOn scheduler l now thread } := by
  obtain ⟨hl, howner⟩ := lockRoundOn_spec h.listed scheduler l now thread
  refine h.mutex rfl rfl hl (fun w _ _ ho => howner _ ho) fun w hw l' e hpc hr => ?_
  refine hr.lockRoundOn scheduler l now thread fun hll hnone => ?_
  subst hll
  exact hok hnone w hw (by simp [relockOf, hpc])

theorem Inv.next (h : Inv s) {a : CondAction F} (he : (conditionVariable F).enabled s a)
    (hok : Uncancelled s a) : Inv ((conditionVariable F).next s a) := by
  -- a step that leaves the calls of `wait` and the mutex alone
  have hsame : ∀ {s' : ConditionVariable F}, s'.waits = s.waits → s'.count = s.count →
      s'.mutex = s.mutex → Inv s' := by
    intro s' hwaits hcount hmutex
    exact h.mutex hwaits hcount (hmutex ▸ h.listed) (fun _ _ _ ho => hmutex ▸ ho)
      fun _ _ _ _ _ hr => hmutex ▸ hr
  cases a with
  | wait fiber timeout => exact h.wait he timeout
  | lockGuard w =>
    obtain ⟨⟨hw, hpc⟩, -⟩ := he
    exact h.local hw (by rw [hpc]; rfl) rfl rfl rfl (fun _ => h.owned w hw (.inl hpc)) (by simp)
  | unlockMutex w => exact h.unlockMutex he.1 he.2
  | enqueue w scheduler thread =>
    exact h.local he.1 (by rw [he.2]; rfl) rfl rfl rfl (by simp) (by simp)
  | queue a => exact hsame rfl rfl rfl
  | waitReturned w c error => exact h.relock he.1.1 (by rw [he.1.2]; rfl) error
  | relocked w l waitError result => exact h.relocked he.1.1 he.1.2
  | notifyOne => exact hsame rfl rfl rfl
  | notifyAll => exact hsame rfl rfl rfl
  | cancelWaiters error => exact hsame rfl rfl rfl
  | lock fiber timeout now =>
    exact h.mutex rfl rfl h.listed (fun _ _ _ ho => ho) fun _ _ _ _ _ hr => hr.lock ..
  | lockRound l now scheduler thread => exact h.lockRound hok
  | mutexQueue a =>
    refine h.mutex rfl rfl (h.listed.next a) (fun _ _ _ ho => ho) fun w hw l e hpc hr => ?_
    exact hr.queue (Kept.internal h.listed he.1 he.2).count
      fun c _ hu => hu.internal h.listed he.1 he.2
  | lockReturned l c error =>
    refine h.mutex rfl rfl ?_ (fun _ _ _ ho => ?_) fun _ _ _ _ _ hr => hr.lockReturned he.1.2 he.2
    · show (s.mutex.waitReturned l c error).queue.Listed
      unfold FiberMutex.waitReturned
      split <;> exact h.listed
    · show (s.mutex.waitReturned l c error).owner = _
      unfold FiberMutex.waitReturned
      split <;> exact ho
  | tryLock fiber => exact h.tryLock fiber
  | unlock fiber => exact h.unlock he
  | cancelLockers error => exact h.cancelLockers hok
  | strayCond c task =>
    refine h.mutex rfl rfl ?_ (fun _ _ _ ho => ho) fun w hw l e hpc hr => ?_
    · exact ⟨h.listed.nodup, h.listed.bound, h.listed.waiting, h.listed.running⟩
    · exact hr.queue rfl fun _ _ hu => hu
  | strayMutex c task =>
    obtain ⟨⟨hc, hpc⟩, -⟩ := he
    refine h.mutex rfl rfl (h.listed.setCall rfl fun _ => rfl) (fun _ _ _ ho => ho)
      fun w hw l e hpc' hr => ?_
    refine hr.queue rfl fun d _ hu => hu.setCall fun hdc => ?_
    subst hdc
    exact hu.moved rfl (by rw [hpc]; rfl) _

theorem reach_inv (h : (conditionVariable F).ReachVia Uncancelled s) : Inv s := by
  refine h.invariant (I := Inv) (fun s hinit => ?_) fun s a hs he hok => hs.next he hok
  obtain ⟨hmutex, -, -, hcount, -⟩ := hinit
  exact ⟨.init hmutex.1, by simp [Apart, hcount], by simp [hcount], by simp [hcount]⟩

end ConditionVariable

open ConditionVariable

variable [DecidableEq F]

/-- **`wait` returns with the mutex.**  Called by the owner, `wait` does not return at once, and if
no re-lock is cancelled with an error other than `EINTR` or made on a thread without a scheduler,
its Fiber owns the mutex after the step in which it returns, whatever the result. -/
theorem wait_returns_locked {s : ConditionVariable F}
    (h : (conditionVariable F).ReachVia Uncancelled s) {a : CondAction F}
    (he : (conditionVariable F).enabled s a) (hok : Uncancelled s a) :
    (∀ fiber timeout, a = .wait fiber timeout → s.mutex.owner = some fiber →
      (((conditionVariable F).next s a).waits s.count).pc.done = false) ∧
    ∀ w < s.count, (s.waits w).pc.done = false →
      (((conditionVariable F).next s a).waits w).pc.done = true →
      ((conditionVariable F).next s a).mutex.owner = some (s.waits w).fiber := by
  have hinv := reach_inv h
  constructor
  · rintro fiber timeout rfl howner
    show (Function.update s.waits s.count _ s.count).pc.done = false
    rw [Function.update_self]
    dsimp only
    rw [if_pos howner]
    rfl
  intro w hw hopen hdone
  -- only the step after the re-lock can return
  have hno : ∀ {b : Bool}, b = false → b = true → False := by
    rintro b rfl hb
    cases hb
  cases a with
  | relocked v l waitError result =>
    obtain ⟨⟨hv, hpc⟩, hret⟩ := he
    have hresult := (hinv.relocks v hv l waitError hpc).result result hret
    have hdone : ((s.relocked v waitError result).waits w).pc.done = true := hdone
    show (s.relocked v waitError result).mutex.owner = _
    by_cases hvw : w = v
    · subst hvw
      have hlocked : result ≠ EINTR := by
        rintro rfl
        rw [ConditionVariable.relocked, if_neg (by decide), if_pos rfl] at hdone
        exact hno (not_done_setPc rfl hopen) hdone
      have howner := hresult.resolve_left hlocked
      simp only [ConditionVariable.relocked]
      split
      · exact howner
      · exact howner
    · refine (hno hopen ?_).elim
      rw [← hdone]
      simp only [ConditionVariable.relocked]
      split
      · exact congrArg (fun k => k.pc.done) (setWait_waits_ne s _ hvw).symm
      split
      · exact congrArg (fun k => k.pc.done) (setWait_waits_ne s _ hvw).symm
      · exact congrArg (fun k => k.pc.done) (setWait_waits_ne s _ hvw).symm
  | wait fiber timeout =>
    refine (hno hopen ?_).elim
    rw [← hdone]
    exact congrArg (fun k => k.pc.done) (setWait_waits_ne s _ (Nat.ne_of_lt hw)).symm
  | lockGuard v => exact (hno (not_done_setPc rfl hopen) hdone).elim
  | unlockMutex v => exact (hno (not_done_setPc rfl hopen) hdone).elim
  | enqueue v scheduler thread => exact (hno (not_done_setPc rfl hopen) hdone).elim
  | waitReturned v c error => exact (hno (not_done_setPc rfl hopen) hdone).elim
  | queue | notifyOne | notifyAll | cancelWaiters | lock | lockRound | mutexQueue | lockReturned
  | tryLock | unlock | cancelLockers | strayCond | strayMutex => exact (hno hopen hdone).elim

/-- A condition and a mutex that nobody has used. -/
def ConditionVariable.unused (fiber : F) : ConditionVariable F where
  mutex := ⟨.empty fiber, none, false, fun _ => ⟨fiber, 0, 0, none, .returned 0⟩, 0, [], []⟩
  queue := .empty fiber
  guard := none
  waits := fun _ => ⟨fiber, 0, .returned 0⟩
  count := 0
  releases := []
  notified := []
  timedOut := []
  cancelled := []

theorem ConditionVariable.unused_reach (fiber : F)
    {ok : ConditionVariable F → CondAction F → Prop} :
    (conditionVariable F).ReachVia ok (.unused fiber) :=
  .start ⟨⟨⟨rfl, rfl, rfl, rfl⟩, rfl, rfl, rfl, rfl, rfl⟩, ⟨rfl, rfl, rfl, rfl⟩, rfl, rfl, rfl, rfl,
    rfl, rfl⟩

/-- Fiber `false` waits and is notified while Fiber `true` owns the mutex; its re-lock, lock 2, is
queued. -/
def queuedRelock : List (CondAction Bool) :=
  [.lock false kFiberWaitForever 0, .lockRound 0 0 (some .ioManager) 7,
    .wait false kFiberWaitForever, .lockGuard 0, .unlockMutex 0, .enqueue 0 (some .ioManager) 7,
    .queue (.arm 0), .queue (.yield 0), .lock true kFiberWaitForever 0,
    .lockRound 1 0 (some .ioManager) 8, .notifyOne, .queue (.resume 0 0), .queue (.finish 0),
    .waitReturned 0 0 0, .lockRound 2 0 (some .ioManager) 7, .mutexQueue (.arm 0),
    .mutexQueue (.yield 0)]

/-- The owner unlocks, and the re-lock gets the mutex. -/
def handedRelock : List (CondAction Bool) :=
  queuedRelock ++ [.unlock true, .mutexQueue (.resume 0 0), .mutexQueue (.finish 0),
    .lockReturned 2 0 0, .lockRound 2 0 (some .ioManager) 7]

theorem wait_returns_locked_handed :
    ((conditionVariable Bool).next ((conditionVariable Bool).run (.unused false) handedRelock)
      (.relocked 0 2 0 0)).mutex.owner = some false :=
  (wait_returns_locked (Machine.reachVia_run (unused_reach false) (by decide +kernel))
    (by decide +kernel) (by decide +kernel)).2 0 (by decide +kernel) (by decide +kernel)
    (by decide +kernel)

/-- `mutex.cancelWaiters(ECANCELED)` meets the queued re-lock. -/
def cancelledRelock : List (CondAction Bool) :=
  queuedRelock ++ [.cancelLockers ECANCELED, .mutexQueue (.resume 0 0), .mutexQueue (.finish 0),
    .lockReturned 2 0 ECANCELED, .relocked 0 2 0 ECANCELED]

/-- The `wait` that Fiber `false` made as the owner has returned -1, and Fiber `true` owns the
mutex. -/
theorem wait_returns_without_mutex : ∃ s : ConditionVariable Bool,
    (conditionVariable Bool).Reach s ∧ 0 < s.count ∧ (s.waits 0).fiber = false ∧
      (s.waits 0).pc = .returned ECANCELED ∧ s.releases = [0] ∧ s.mutex.owner = some true :=
  ⟨(conditionVariable Bool).run (.unused false) cancelledRelock,
    Machine.reachVia_run (unused_reach false) (by decide +kernel), by decide +kernel⟩

end PulsarRuntime.Sync
