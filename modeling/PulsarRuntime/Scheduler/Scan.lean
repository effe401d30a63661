import PulsarRuntime.Scheduler.Shutdown

/-!
# What a call of `stopping()` has read

`stopping()` takes no snapshot.  `Seen s stage` says that everything a call of it has read as idle
before `stage` still is: no live timer, no event, no blocking call, the stop flag, the queues and
the workers whose flags it has passed.  A call may also be stale, as long as some worker whose
flag it has still to read keeps that flag up, because then the call ends with no: `Sound` covers
both, and `Seen.next` says that a step turns the first into at most the second.
-/

namespace PulsarRuntime.Scheduler

open Timers (Clocked NoneLive WellFormed)

variable {J : Type} {n : ℕ}

namespace Scan

def pastTimers : Scan → Bool
  | .timers => false
  | _ => true

def pastEvents : Scan → Bool
  | .timers | .events => false
  | _ => true

def pastBlocking : Scan → Bool
  | .timers | .events | .blocking => false
  | _ => true

def pastStopped : Scan → Bool
  | .queue _ | .flag _ => true
  | _ => false

def passedQueue (v : ℕ) : Scan → Prop
  | .queue i => v < i
  | .flag _ => True
  | _ => False

def passedFlag (v : ℕ) : Scan → Prop
  | .flag i => v < i
  | _ => False

variable {st : Scan}

theorem passedQueue.stopped {v : ℕ} (h : st.passedQueue v) : st.pastStopped = true := by
  cases st <;> first | rfl | exact h.elim

theorem passedFlag.queue {v : ℕ} (h : st.passedFlag v) (u : ℕ) : st.passedQueue u := by
  cases st <;> trivial

theorem blocking_of_stopped (h : st.pastStopped = true) : st.pastBlocking = true := by
  cases st <;> first | rfl | cases h

theorem events_of_blocking (h : st.pastBlocking = true) : st.pastEvents = true := by
  cases st <;> first | rfl | cases h

theorem timers_of_events (h : st.pastEvents = true) : st.pastTimers = true := by
  cases st <;> first | rfl | cases h

end Scan

namespace Runtime

def active (s : Runtime J n) (w : Fin n) : Bool := (s.queues.workers w).active

/-- Everything a call of `stopping()` has read as idle before `st` still is. -/
structure Seen (s : Runtime J n) (st : Scan) : Prop where
  timers : st.pastTimers = true → NoneLive s.timers.tm
  events : st.pastEvents = true → s.events = []
  blocking : st.pastBlocking = true → s.blocking = [] ∧ s.returning = 0
  stopped : st.pastStopped = true → s.stopped = true
  queues : ∀ v : Fin n, st.passedQueue v → s.emptyAt v
  flags : ∀ v : Fin n, st.passedFlag v → (s.pc v).working = false

/-- The call is not stale, or it has still to read the raised flag of some worker. -/
def Sound (s : Runtime J n) (st : Scan) : Prop :=
  s.Seen st ∨ ∃ w : Fin n, s.active w = true ∧ ¬ st.passedFlag w
end Runtime

/-! ### Staleness, one operation at a time -/

namespace Runtime

variable {s : Runtime J n} {st : Scan} {w : Fin n}

theorem Seen.unpassed (h : s.Seen st) (hw : (s.pc w).working = true) : ¬ st.passedFlag w := by
  intro hp
  rw [h.flags w hp] at hw
  cases hw

theorem Seen.setPc (h : s.Seen st) {p : Pc J} (hp : st.passedFlag w → p.working = false) :
    (s.setPc w p).Seen st where
  timers := h.timers
  events := h.events
  blocking := h.blocking
  stopped := h.stopped
  queues := h.queues
  flags := by
    intro v hv
    show (Function.update s.pc w p v).working = false
    by_cases hvw : v = w
    · subst hvw
      rw [Function.update_self]
      exact hp hv
    · rw [Function.update_of_ne hvw]
      exact h.flags v hv

variable {q : WorkerQueue J}

/-- A queue may be replaced by one that is empty if the old one is. -/
theorem Seen.setWorker (h : s.Seen st)
    (hq : s.emptyAt w → q.unpinnedTasks = [] ∧ q.pinnedTasks = []) :
    ({ s with queues := s.queues.setWorker w q }).Seen st where
  timers := h.timers
  events := h.events
  blocking := h.blocking
  stopped := h.stopped
  queues := by
    intro v hv
    show ((s.queues.setWorker w q).workers v).unpinnedTasks = [] ∧
      ((s.queues.setWorker w q).workers v).pinnedTasks = []
    by_cases hvw : v = w
    · subst hvw
      rw [setWorker_self]
      exact hq (h.queues v hv)
    · rw [setWorker_ne _ _ hvw]
      exact h.queues v hv
  flags := h.flags

theorem Seen.setActive (h : s.Seen st) (b : Bool) : (s.setActive w b).Seen st :=
  h.setWorker fun he => he

theorem setActive_active (b : Bool) (v : Fin n) :
    (s.setActive w b).active v = if v = w then b else s.active v := by
  show ((s.queues.setWorker w _).workers v).active = _
  split
  next h =>
    subst h
    rw [setWorker_self]
  next h => rw [setWorker_ne _ _ h]; rfl

theorem enqueue_active [NeZero n] (origin : Option (Fin n)) (job : Option J) (thread : ℤ)
    (v : Fin n) : (s.enqueue origin job thread).active v = s.active v := by
  show ((s.queues.enqueueTask origin _).1.workers v).active = _
  unfold Queues.enqueueTask
  split
  · rfl
  · show (((s.queues.route origin thread).2.setWorker _ _).workers v).active = _
    by_cases hv : v = (s.queues.route origin thread).1
    · rw [hv, setWorker_self, route_workers]
      unfold WorkerQueue.push active
      dsimp only
      split <;> rfl
    · rw [setWorker_ne _ _ hv, route_workers]
      rfl

theorem trigger_active [NeZero n] (e : ℕ) (v : Fin n) : (s.trigger w e).active v = s.active v := by
  unfold trigger
  split
  · rfl
  · exact enqueue_active ..

theorem trigger_pc [NeZero n] (e : ℕ) : (s.trigger w e).pc = s.pc := by
  unfold trigger
  split <;> rfl

theorem unblock_events [NeZero n] (b : ℕ) : (s.unblock b).pendingEventCnt = s.pendingEventCnt ∧
    (s.unblock b).events = s.events := by
  unfold unblock
  split <;> exact ⟨rfl, rfl⟩

theorem trigger_blocking [NeZero n] (e : ℕ) :
    (s.trigger w e).pendingBlockingTasks = s.pendingBlockingTasks ∧
      (s.trigger w e).blocking = s.blocking ∧ (s.trigger w e).returning = s.returning := by
  unfold trigger
  split <;> exact ⟨rfl, rfl, rfl⟩

theorem trigger_timers [NeZero n] (e : ℕ) : (s.trigger w e).timers = s.timers := by
  unfold trigger
  split <;> rfl

theorem unblock_timers [NeZero n] (b : ℕ) : (s.unblock b).timers = s.timers := by
  unfold unblock
  split <;> rfl

theorem trigger_term [NeZero n] (e : ℕ) :
    (s.trigger w e).idleTerm = s.idleTerm ∧ (s.trigger w e).detached = s.detached := by
  unfold trigger
  split <;> exact ⟨rfl, rfl⟩

theorem unblock_term [NeZero n] (b : ℕ) :
    (s.unblock b).idleTerm = s.idleTerm ∧ (s.unblock b).detached = s.detached := by
  unfold unblock
  split <;> exact ⟨rfl, rfl⟩

theorem unblock_pc [NeZero n] (b : ℕ) : (s.unblock b).pc = s.pc := by
  unfold unblock
  split <;> rfl

theorem unblock_active [NeZero n] (b : ℕ) (v : Fin n) : (s.unblock b).active v = s.active v := by
  unfold unblock
  split
  · rfl
  · exact enqueue_active ..

variable {rest : WorkerQueue J}

/-- A taken task leaves its queue no fuller, and there was one to take. -/
theorem takeLocal_some {t : Task J} {threadId : ℤ} (h : q.takeLocal threadId = some (t, rest)) :
    ¬ (q.unpinnedTasks = [] ∧ q.pinnedTasks = []) ∧ rest.active = q.active := by
  unfold WorkerQueue.takeLocal at h
  split at h
  next htake =>
    cases h
    refine ⟨fun he => ?_, rfl⟩
    rw [he.2] at htake
    cases htake
  next =>
    split at h
    · cases h
    next hq =>
      cases h
      refine ⟨fun he => ?_, rfl⟩
      rw [he.1] at hq
      cases hq

theorem steal_some {t : Task J} {threadId : ℤ} (h : q.steal threadId = some (t, rest)) :
    ¬ (q.unpinnedTasks = [] ∧ q.pinnedTasks = []) ∧ rest.active = q.active := by
  unfold WorkerQueue.steal at h
  split at h
  next htake =>
    cases h
    refine ⟨fun he => ?_, rfl⟩
    rw [he.1] at htake
    cases htake
  next =>
    split at h
    next htake =>
      cases h
      refine ⟨fun he => ?_, rfl⟩
      rw [he.2] at htake
      cases htake
    · cases h

/-- Taking a task from a queue that is not empty makes no call stale. -/
theorem Seen.take (h : s.Seen st) {v : Fin n} (hv : ¬ s.emptyAt v) : (s.take w v rest).Seen st :=
  (h.setWorker fun he => absurd he hv).setPc fun hp => absurd (h.queues v (hp.queue v)) hv

theorem setWorker_active (hq : q.active = s.active w) (u : Fin n) :
    ({ s with queues := s.queues.setWorker w q } : Runtime J n).active u = s.active u := by
  show ((s.queues.setWorker w q).workers u).active = _
  by_cases huw : u = w
  · rw [huw, setWorker_self, hq]
  · rw [setWorker_ne _ _ huw]
    rfl

/-- What looking for a task in one queue comes to. -/
inductive Looked (s : Runtime J n) (w : Fin n) : Runtime J n → Prop where
  | took {v : Fin n} {rest : WorkerQueue J} (full : ¬ s.emptyAt v)
      (flag : rest.active = (s.queues.workers v).active) : Looked s w (s.take w v rest)
  | next (startOffset i : ℕ) : Looked s w (s.setPc w (.stealing startOffset i))
  | nothing : Looked s w (s.setPc w .noTask)

theorem takeLocal_looked (seed : ℕ) : s.Looked w (s.takeLocal w seed) := by
  unfold takeLocal
  split
  next htake => exact .took (takeLocal_some htake).1 (takeLocal_some htake).2
  · split
    · exact .nothing
    · exact .next _ _

theorem steal_looked [NeZero n] (startOffset i : ℕ) : s.Looked w (s.steal w startOffset i) := by
  unfold steal
  dsimp only
  split
  next htake => exact .took (steal_some htake).1 (steal_some htake).2
  · split
    · exact .next _ _
    · exact .nothing

variable {s' : Runtime J n}

theorem Looked.active (h : s.Looked w s') (u : Fin n) : s'.active u = s.active u := by
  cases h with
  | took _ flag => exact setWorker_active flag u
  | next _ _ => rfl
  | nothing => rfl

/-- The registered events and the blocking calls, with their counters, are as they were. -/
structure Kept (s s' : Runtime J n) : Prop where
  pendingEventCnt : s'.pendingEventCnt = s.pendingEventCnt
  events : s'.events = s.events
  pendingBlockingTasks : s'.pendingBlockingTasks = s.pendingBlockingTasks
  blocking : s'.blocking = s.blocking
  returning : s'.returning = s.returning
  detached : s'.detached = s.detached

theorem Looked.kept (h : s.Looked w s') : s.Kept s' := by
  cases h <;> exact ⟨rfl, rfl, rfl, rfl, rfl, rfl⟩

variable {io : Bool}

theorem resumeIdle_timers (w : Fin n) : (s.resumeIdle io w).timers = s.timers := by
  unfold resumeIdle
  split <;> rfl

theorem resumeIdle_idleTerm (w : Fin n) : (s.resumeIdle io w).idleTerm = s.idleTerm := by
  unfold resumeIdle
  split <;> rfl

theorem resumeIdle_kept (w : Fin n) : s.Kept (s.resumeIdle io w) := by
  unfold resumeIdle
  split <;> exact ⟨rfl, rfl, rfl, rfl, rfl, rfl⟩

theorem Looked.idleTerm (h : s.Looked w s') : s'.idleTerm = s.idleTerm := by
  cases h <;> rfl

theorem Looked.timers (h : s.Looked w s') : s'.timers = s.timers := by
  cases h <;> rfl

/-- An access of `stopping()` that lets the call go on, with what it has read. -/
inductive Advance (s : Runtime J n) : Scan → Scan → Prop where
  | timers {now : ℕ} (h : s.timers.tm.nextTimer now = Timers.noTimer) : Advance s .timers .events
  | events (h : s.pendingEventCnt = 0) : Advance s .events .blocking
  | blocking (h : s.pendingBlockingTasks = 0) : Advance s .blocking .stopped
  | stopped (h : s.stopped = true) : Advance s .stopped (.queue 0)
  | queue {i : ℕ} (hi : i < n) (h : s.emptyAt ⟨i, hi⟩) : Advance s (.queue i) (.queue (i + 1))
  | queues {i : ℕ} (hi : n ≤ i) : Advance s (.queue i) (.flag 0)
  | flag {i : ℕ} (hi : i < n) (h : s.active ⟨i, hi⟩ = false) : Advance s (.flag i) (.flag (i + 1))

/-- The timers after an access of `stopping()`: `getNextTimer` has been called, or nothing. -/
def Asked (s : Runtime J n) (now : ℕ) (t : Clocked J) : Prop :=
  t = s.timers ∨ t = (Timers.manager J).next s.timers (.getNextTimer now)

/-- What one access of `stopping()` comes to. -/
inductive Scanned (io : Bool) (s : Runtime J n) (w : Fin n) (now : ℕ) :
    Scan → Runtime J n → Prop where
  | goOn {st : Scan} {t : Clocked J} (asked : s.Asked now t) :
      Scanned io s w now st (({ s with timers := t }).goOn io w)
  | advance {st st' : Scan} {t : Clocked J} (asked : s.Asked now t) (read : s.Advance st st') :
      Scanned io s w now st (({ s with timers := t }).setPc w (.scan st'))
  | ends {i : ℕ} (hi : n ≤ i) : Scanned io s w now (.flag i)
      { s.setPc w .top with idleTerm := Function.update s.idleTerm w true }

variable {now : ℕ}

section

variable (h : s.Scanned io w now st s')
include h

theorem Scanned.active (u : Fin n) : s'.active u = s.active u := by
  cases h <;> rfl

theorem Scanned.kept : s.Kept s' := by
  cases h <;> exact ⟨rfl, rfl, rfl, rfl, rfl, rfl⟩

theorem Scanned.pc_ne {v : Fin n} (hv : v ≠ w) : s'.pc v = s.pc v := by
  cases h <;> exact Function.update_of_ne hv ..

theorem Scanned.left {v : Fin n} (hv : s'.pc v = .left) : s.pc v = .left := by
  by_cases hvw : v = w
  · subst hvw
    cases h with
    | goOn _ => cases io <;> cases (Function.update_self v _ s.pc).symm.trans hv
    | advance _ _ => cases (Function.update_self v _ s.pc).symm.trans hv
    | ends _ => cases (Function.update_self v _ s.pc).symm.trans hv
  · rwa [← h.pc_ne hvw]

end

theorem Scanned.asked {io : Bool} {now : ℕ} {s' : Runtime J n} (h : s.Scanned io w now st s') :
    s.Asked now s'.timers := by
  cases h with
  | goOn asked => exact asked
  | advance asked _ => exact asked
  | ends _ => exact .inl rfl

theorem scanStep_scanned (io : Bool) (now : ℕ) (st : Scan) :
    s.Scanned io w now st (s.scanStep io w now st) := by
  cases st with
  | timers =>
    unfold scanStep
    dsimp only
    split
    next h => exact .advance (.inr rfl) (.timers h)
    · exact .goOn (.inr rfl)
  | events =>
    unfold scanStep
    dsimp only
    split
    next h => exact .advance (.inl rfl) (.events h)
    · exact .goOn (.inl rfl)
  | blocking =>
    unfold scanStep
    dsimp only
    split
    next h => exact .advance (.inl rfl) (.blocking h)
    · exact .goOn (.inl rfl)
  | stopped =>
    unfold scanStep
    dsimp only
    split
    next h => exact .advance (.inl rfl) (.stopped h)
    · exact .goOn (.inl rfl)
  | queue i =>
    unfold scanStep
    dsimp only
    split
    next hi =>
      split
      next h => exact .advance (.inl rfl) (.queue hi h)
      · exact .goOn (.inl rfl)
    next hi => exact .advance (.inl rfl) (.queues (Nat.le_of_not_lt hi))
  | flag i =>
    unfold scanStep
    dsimp only
    split
    next hi =>
      split
      · exact .goOn (.inl rfl)
      next h => exact .advance (.inl rfl) (.flag hi (Bool.eq_false_iff.mpr h))
    next hi => exact .ends (Nat.le_of_not_lt hi)

theorem Seen.timers_congr (h : s.Seen st) {t : Clocked J}
    (ht : st.pastTimers = true → NoneLive s.timers.tm → NoneLive t.tm) :
    ({ s with timers := t }).Seen st where
  timers := fun hp => ht hp (h.timers hp)
  events := h.events
  blocking := h.blocking
  stopped := h.stopped
  queues := h.queues
  flags := h.flags

/-- Before the stop flag is read, submissions cannot make a call stale. -/
theorem Seen.enqueue [NeZero n] (h : s.Seen st) (hst : st.pastStopped = false)
    (origin : Option (Fin n)) (job : Option J) (thread : ℤ) :
    (s.enqueue origin job thread).Seen st where
  timers := h.timers
  events := h.events
  blocking := h.blocking
  stopped := h.stopped
  queues := by
    intro v hv
    rw [hv.stopped] at hst
    cases hst
  flags := h.flags

theorem Seen.unblock [NeZero n] (h : s.Seen st) (hst : st.pastBlocking = false) (b : ℕ) :
    (s.unblock b).Seen st := by
  have hst' : st.pastStopped = false := by
    by_contra hp
    rw [Scan.blocking_of_stopped (Bool.not_eq_false _ ▸ hp)] at hst
    cases hst
  unfold Runtime.unblock
  split
  · exact h
  next job thread _ =>
    have hq := h.enqueue hst' none (some job) thread
    refine ⟨hq.timers, hq.events, fun hp => ?_, hq.stopped, hq.queues, hq.flags⟩
    rw [hst] at hp
    cases hp

theorem Asked.noneLive {t : Clocked J} (h : s.Asked now t)
    (hn : NoneLive s.timers.tm) : NoneLive t.tm := by
  rcases h with rfl | rfl <;> exact hn

/-- A pass with no live timer to find puts no work into the worker's hands. -/
theorem Seen.expire (h : s.Seen st) (hwf : WellFormed s.timers.tm) (w : Fin n) (clk : Clock) :
    (s.expire w clk).Seen st := by
  have htm : ((Timers.manager J).next s.timers (.listExpiredCb clk.reading)).tm =
      (Timers.Pass.listExpiredCb clk.reading s.timers.tm).tm := rfl
  unfold Runtime.expire
  refine (h.timers_congr fun _ hn => ?_).setPc fun hp => ?_
  · rw [htm]
    exact (hn.listExpiredCb hwf clk.mono).1
  · have hpast := Scan.timers_of_events (Scan.events_of_blocking (Scan.blocking_of_stopped
      (hp.queue 0).stopped))
    rw [((h.timers hpast).listExpiredCb hwf clk.mono).2]
    rfl

theorem Seen.looked (h : s.Seen st) (hl : s.Looked w s') : s'.Seen st := by
  cases hl with
  | took full _ => exact h.take full
  | next _ _ => exact h.setPc fun _ => rfl
  | nothing => exact h.setPc fun _ => rfl

theorem Seen.scanned {st' : Scan} (h : s.Seen st)
    (hs : s.Scanned io w now st' s') : s'.Seen st := by
  cases hs with
  | goOn asked =>
    refine (h.timers_congr fun _ => asked.noneLive).setPc fun _ => ?_
    cases io <;> rfl
  | advance asked _ => exact (h.timers_congr fun _ => asked.noneLive).setPc fun _ => rfl
  | ends _ =>
    have hpc := h.setPc (w := w) (p := .top) fun _ => rfl
    exact ⟨hpc.timers, hpc.events, hpc.blocking, hpc.stopped, hpc.queues, hpc.flags⟩

end Runtime

theorem Pc.busy_of_working {p : Pc J} (h : p.working = true) : p.busy = true := by
  cases p <;> first | rfl | cases h

/-! ### One step -/

namespace Runtime

variable [NeZero n] {io : Bool} {tid : Fin n → ℕ} {s : Runtime J n} {a : Step J n} {st : Scan}

/-- A call that is not stale stays so, or becomes stale by the doing of a worker whose flag is up
and still to be read. -/
theorem Seen.next (h : s.Seen st) (hbusy : ∀ w, (s.pc w).busy = true → s.active w = true)
    (hwf : WellFormed s.timers.tm) (he : (runtime J io tid).enabled s a)
    (hout : ∀ ms cb r created inserted, a = .addTimer none ms cb r created inserted →
      st.pastTimers = false) : ((runtime J io tid).next s a).Sound st := by
  -- a step of a worker with work in hand: the flag is up, and the call has not passed it
  have hmine : ∀ {w : Fin n} {s' : Runtime J n}, (s.pc w).working = true →
      s'.active w = s.active w → s'.Sound st := fun {w s'} hw ha =>
    .inr ⟨w, ha.trans (hbusy w (Pc.busy_of_working hw)), h.unpassed hw⟩
  cases a with
  | start w =>
    exact .inl ((h.setWorker (q := { s.queues.workers w with threadId := tid w })
      fun hq => hq).setPc fun _ => rfl)
  | raise w => exact .inl ((h.setActive true).setPc fun _ => rfl)
  | takeLocal w seed => exact .inl (h.looked (takeLocal_looked seed))
  | steal w startOffset i => exact .inl (h.looked (steal_looked startOffset i))
  | spawn w job thread =>
    have hpc : s.pc w = .running := he
    exact hmine (by rw [hpc]; rfl) (enqueue_active ..)
  | addTimer origin ms cb recurring created inserted =>
    cases origin with
    | some w =>
      have hpc : s.pc w = .running := he.1.2
      exact hmine (w := w) (by rw [hpc]; rfl) rfl
    | none =>
      have hp := hout _ _ _ _ _ rfl
      refine .inl (h.timers_congr fun hp' => ?_)
      rw [hp] at hp'
      cases hp'
  | cancelTimer w id => exact .inl (h.timers_congr fun _ hn => hn.cancel id)
  | addEvent w job =>
    have hpc : s.pc w = .running := he.2
    exact hmine (w := w) (by rw [hpc]; rfl) rfl
  | delEvent w e =>
    have hpc : s.pc w = .running := he.1
    exact hmine (w := w) (by rw [hpc]; rfl) rfl
  | cancelEvent w e =>
    have hpc : s.pc w = .running := he.1
    exact hmine (by rw [hpc]; rfl) (trigger_active e w)
  | eventCancelled w =>
    have hpc : s.pc w = .cancelled := he
    exact hmine (w := w) (by rw [hpc]; rfl) rfl
  | asyncBlocking w job =>
    have hpc : s.pc w = .running := he.2
    exact hmine (w := w) (by rw [hpc]; rfl) rfl
  | submitBlocking w =>
    have hpc : s.pc w = .running := he.2
    exact hmine (w := w) (by rw [hpc]; rfl) rfl
  | finish w => exact .inl (h.setPc fun _ => rfl)
  | lower w => exact .inl ((h.setActive false).setPc fun _ => rfl)
  | resumeIdle w =>
    show (s.resumeIdle io w).Sound st
    unfold resumeIdle
    split
    · exact .inl ((h.setActive false).setPc fun _ => rfl)
    · exact .inl (h.setPc fun _ => rfl)
  | scan w stage now => exact .inl (h.scanned (scanStep_scanned io now stage))
  | poll w => exact .inl ((h.setActive true).setPc fun _ => rfl)
  | expire w clk => exact .inl (h.expire hwf w clk)
  | pushCb w cb rest =>
    have hpc : s.pc w = .processing (cb :: rest) := he
    exact hmine (by rw [hpc]; rfl) (enqueue_active ..)
  | trigger w e =>
    have hpc : s.pc w = .processing [] := he.1
    refine .inr ⟨w, (trigger_active e w).trans (hbusy w (by rw [hpc]; rfl)), fun hp => ?_⟩
    have hlt := he.2
    rw [h.events (Scan.events_of_blocking (Scan.blocking_of_stopped (hp.queue 0).stopped))] at hlt
    exact absurd hlt (Nat.not_lt_zero _)
  | eventDone w =>
    have hpc : s.pc w = .triggered := he
    exact hmine (w := w) (by rw [hpc]; rfl) rfl
  | idleYield w => exact .inl ((h.setActive false).setPc fun _ => rfl)
  | unblock b =>
    have hblock : st.pastBlocking = false := by
      by_contra hp
      have hlt : b < s.blocking.length := he
      rw [(h.blocking (Bool.not_eq_false _ ▸ hp)).1] at hlt
      exact absurd hlt (Nat.not_lt_zero _)
    exact .inl (h.unblock hblock b)
  | unblocked =>
    exact .inl ⟨h.timers, h.events, fun hp => ⟨(h.blocking hp).1,
      (Nat.sub_le _ _).trans (h.blocking hp).2.le |> Nat.le_zero.mp⟩, h.stopped, h.queues, h.flags⟩
  | detachedDone =>
    exact .inl ⟨h.timers, h.events, h.blocking, h.stopped, h.queues, h.flags⟩
  | submit job thread =>
    have hstopped : st.pastStopped = false := by
      by_contra hp
      have hno : s.stopped = false := he
      rw [h.stopped (Bool.not_eq_false _ ▸ hp)] at hno
      cases hno
    exact .inl (h.enqueue hstopped none job thread)
  | stop => exact .inl ⟨h.timers, h.events, h.blocking, fun _ => rfl, h.queues, h.flags⟩

end Runtime

end PulsarRuntime.Scheduler
