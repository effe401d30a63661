import PulsarRuntime.Scheduler.Worker

/-!
# What a worker that stops leaves behind

`Orderly` asks for the one thing the code does not provide: no worker lowers its flag while a call
of `stopping()` in progress is stale.  In a run that meets it every call that ends with yes has
`Seen` everything, nothing can start again from there, and so no worker leaves work behind.
-/

namespace PulsarRuntime.Scheduler

open Timers (NoneLive KeepsEarliest WellFormed Bounded)

variable {J : Type} {n : ℕ}

namespace Runtime

/-- Nothing is left to do and nobody is at work. -/
structure Drained (s : Runtime J n) : Prop where
  seen : s.Seen (.flag n)
  detached : s.detached = 0

end Runtime

/-- No worker lowers its flag while a call of `stopping()` in progress is stale, no timer is
added from outside behind the back of such a call, the timer manager keeps its cached deadline
sound, and no call comes to its end while a task given to `submitBlocking` alone is out. -/
def Orderly (s : Runtime J n) : Step J n → Prop
  | .lower _ | .idleYield _ => ∀ u st, s.pc u = .scan st → s.Seen st
  | .addTimer origin ms cb recurring created inserted =>
      (origin = none → ∀ u st, s.pc u = .scan st → st.pastTimers = false) ∧
      KeepsEarliest s.timers (.addTimer ms cb recurring created inserted)
  | .expire _ clk => KeepsEarliest s.timers (.listExpiredCb clk.reading)
  | .scan _ (.flag i) _ => n ≤ i → s.detached = 0
  | _ => True

/-! ### The invariant -/

namespace Runtime

/-- What holds in every state of an orderly run. -/
structure Inv (io : Bool) (s : Runtime J n) : Prop where
  flagged : ∀ w, (s.pc w).Flagged (s.active w)
  scans : ∀ w st, s.pc w = .scan st → s.Sound st
  drained : ∀ w, s.idleTerm w = true ∨ s.pc w = .left → s.Drained
  counted : s.pendingEventCnt = s.events.length + ∑ w, (s.pc w).owed
  blocked : s.pendingBlockingTasks = s.blocking.length + s.returning
  wellFormed : WellFormed s.timers.tm
  bounded : Bounded s.timers.tm
  /-- a plain `Scheduler` has neither timers nor events nor a blocking pool -/
  plain : io = false → s.Seen .stopped

variable {io : Bool} {s : Runtime J n} {st : Scan}

/-- What an access of `stopping()` has read joins what the call had read before. -/
theorem Advance.sound {st' : Scan} (hi : s.Inv io) (ha : s.Advance st st') (h : s.Sound st) :
    s.Sound st' := by
  rcases h with h | ⟨w, hw, hnp⟩
  · left
    cases ha with
    | timers hnone =>
      exact ⟨fun _ => .of_nextTimer hi.bounded hnone, fun hp => (nomatch hp),
        fun hp => (nomatch hp), h.stopped, h.queues, h.flags⟩
    | events hcnt =>
      have hlen : s.events.length = 0 := by
        have := hi.counted
        omega
      exact ⟨h.timers, fun _ => List.length_eq_zero_iff.mp hlen, fun hp => (nomatch hp),
        h.stopped, h.queues, h.flags⟩
    | blocking hcnt =>
      have hblocked := hi.blocked
      have hlen : s.blocking.length = 0 := by omega
      exact ⟨h.timers, h.events, fun _ => ⟨List.length_eq_zero_iff.mp hlen, by omega⟩,
        h.stopped, h.queues, h.flags⟩
    | stopped hstop =>
      exact ⟨h.timers, h.events, h.blocking, fun _ => hstop, fun v hv => (nomatch hv), h.flags⟩
    | @queue i hin hempty =>
      refine ⟨h.timers, h.events, h.blocking, h.stopped, fun v hv => ?_, h.flags⟩
      rcases Nat.lt_succ_iff_lt_or_eq.mp hv with hlt | heq
      · exact h.queues v hlt
      · have hv' : v = ⟨i, hin⟩ := Fin.ext heq
        exact hv' ▸ hempty
    | queues hin =>
      exact ⟨h.timers, h.events, h.blocking, h.stopped,
        fun v _ => h.queues v (lt_of_lt_of_le v.isLt hin), fun v hv => (nomatch hv)⟩
    | @flag i hin hdown =>
      refine ⟨h.timers, h.events, h.blocking, h.stopped, h.queues, fun v hv => ?_⟩
      rcases Nat.lt_succ_iff_lt_or_eq.mp hv with hlt | heq
      · exact h.flags v hlt
      · have hv' : v = ⟨i, hin⟩ := Fin.ext heq
        subst hv'
        by_contra hwork
        have hup := (hi.flagged _).1 (Pc.busy_of_working (Bool.not_eq_false _ ▸ hwork))
        rw [hdown] at hup
        cases hup
  · refine .inr ⟨w, hw, fun hp => hnp ?_⟩
    cases ha with
    | flag hin hdown =>
      rcases Nat.lt_succ_iff_lt_or_eq.mp hp with hlt | heq
      · exact hlt
      · have hw' : w = ⟨_, hin⟩ := Fin.ext heq
        rw [hw', hdown] at hw
        cases hw
    | queues hin => exact absurd hp (Nat.not_lt_zero _)
    | _ => exact hp

theorem Sound.scanned {s' : Runtime J n} {w : Fin n} {now : ℕ} {st' : Scan} (h : s.Sound st)
    (hs : s.Scanned io w now st' s') : s'.Sound st := by
  rcases h with h | ⟨u, hu, hnp⟩
  · exact .inl (h.scanned hs)
  · exact .inr ⟨u, (hs.active u).trans hu, hnp⟩

theorem Sound.ends {i : ℕ} (h : s.Sound (.flag i)) (hi : n ≤ i) : s.Seen (.flag n) := by
  rcases h with h | ⟨w, -, hnp⟩
  · exact ⟨h.timers, h.events, h.blocking, h.stopped, h.queues,
      fun v _ => h.flags v (lt_of_lt_of_le v.isLt hi)⟩
  · exact absurd (lt_of_lt_of_le w.isLt hi) hnp

theorem resumeIdle_pc (w : Fin n) : (s.resumeIdle io w).pc = Function.update s.pc w
    (if s.idleTerm w then .left else .scan (if io then .timers else .stopped)) := by
  unfold resumeIdle
  split <;> rfl

/-- A call that has only begun has read nothing. -/
theorem Seen.begin (s : Runtime J n) : s.Seen .timers :=
  ⟨fun hp => (nomatch hp), fun hp => (nomatch hp), fun hp => (nomatch hp), fun hp => (nomatch hp),
    fun _ hp => (nomatch hp), fun _ hp => (nomatch hp)⟩

variable [NeZero n] {tid : Fin n → ℕ} {a : Step J n}

theorem flagged_next (h : ∀ w, (s.pc w).Flagged (s.active w))
    (he : (runtime J io tid).enabled s a) (v : Fin n) :
    (((runtime J io tid).next s a).pc v).Flagged (((runtime J io tid).next s a).active v) := by
  obtain ⟨w, hother, hw⟩ := moved_next tid he
  by_cases hv : v = w
  · subst hv
    rcases hw with ⟨-, hpc, hactive⟩ | hedge
    · rw [hpc, hactive]
      exact h v
    · exact hedge.flagged (h v)
  · rw [(hother v hv).1, (hother v hv).2]
    exact h v

/-- Every registered event is counted, and so is every one that was just triggered. -/
theorem counted_next (h : s.pendingEventCnt = s.events.length + ∑ w, (s.pc w).owed)
    (he : (runtime J io tid).enabled s a) : ((runtime J io tid).next s a).pendingEventCnt =
      ((runtime J io tid).next s a).events.length +
        ∑ w, (((runtime J io tid).next s a).pc w).owed := by
  have howed := (moved_next tid he).owed
  have hplain : ∀ {s' : Runtime J n}, s'.pendingEventCnt = s.pendingEventCnt →
      s'.events = s.events → ∑ w, (s'.pc w).owed + 0 = ∑ w, (s.pc w).owed + 0 →
      s'.pendingEventCnt = s'.events.length + ∑ w, (s'.pc w).owed := by
    intro s' hcnt hev hsum
    rw [hcnt, hev]
    omega
  have htrigger : ∀ {w : Fin n} {e : ℕ}, e < s.events.length →
      (s.trigger w e).pendingEventCnt = s.pendingEventCnt ∧
      (s.trigger w e).events.length + 1 = s.events.length := by
    intro w e hlt
    unfold trigger
    rw [List.getElem?_eq_getElem hlt]
    refine ⟨rfl, ?_⟩
    show (s.events.eraseIdx e).length + 1 = _
    rw [List.length_eraseIdx_of_lt hlt]
    omega
  cases a with
  | addEvent w job =>
    show s.pendingEventCnt + 1 = (s.events ++ [_]).length + ∑ w, (s.pc w).owed
    rw [List.length_append, h, List.length_singleton]
    omega
  | delEvent w e =>
    have hlt : e < s.events.length := he.2
    show s.pendingEventCnt - 1 = (s.events.eraseIdx e).length + ∑ w, (s.pc w).owed
    rw [List.length_eraseIdx_of_lt hlt, h]
    omega
  | cancelEvent w e =>
    obtain ⟨hcnt, hlen⟩ := htrigger (w := w) he.2
    show (s.trigger w e).pendingEventCnt = (s.trigger w e).events.length + _
    change _ + 0 = _ + 1 at howed
    omega
  | eventCancelled w =>
    show s.pendingEventCnt - 1 = s.events.length + _
    change _ + 1 = _ + 0 at howed
    omega
  | trigger w e =>
    obtain ⟨hcnt, hlen⟩ := htrigger (w := w) he.2
    show (s.trigger w e).pendingEventCnt = (s.trigger w e).events.length + _
    change _ + 0 = _ + 1 at howed
    omega
  | eventDone w =>
    show s.pendingEventCnt - 1 = s.events.length + _
    change _ + 1 = _ + 0 at howed
    omega
  | takeLocal w seed =>
    exact hplain (takeLocal_looked seed).kept.pendingEventCnt (takeLocal_looked seed).kept.events
      howed
  | steal w startOffset i =>
    exact hplain (steal_looked startOffset i).kept.pendingEventCnt
      (steal_looked startOffset i).kept.events howed
  | resumeIdle w =>
    exact hplain (resumeIdle_kept w).pendingEventCnt (resumeIdle_kept w).events howed
  | scan w stage now =>
    exact hplain (scanStep_scanned io now stage).kept.pendingEventCnt
      (scanStep_scanned io now stage).kept.events howed
  | unblock b => exact hplain (unblock_events b).1 (unblock_events b).2 howed
  | _ => exact hplain rfl rfl howed

theorem blocked_next (h : s.pendingBlockingTasks = s.blocking.length + s.returning)
    (he : (runtime J io tid).enabled s a) : ((runtime J io tid).next s a).pendingBlockingTasks =
      ((runtime J io tid).next s a).blocking.length + ((runtime J io tid).next s a).returning := by
  have hkept : ∀ {s' : Runtime J n}, s.Kept s' →
      s'.pendingBlockingTasks = s'.blocking.length + s'.returning := by
    intro s' hk
    rw [hk.pendingBlockingTasks, hk.blocking, hk.returning]
    exact h
  have htrigger : ∀ {w : Fin n} {e : ℕ}, (s.trigger w e).pendingBlockingTasks =
      (s.trigger w e).blocking.length + (s.trigger w e).returning := by
    intro w e
    obtain ⟨hcnt, hblocking, hreturning⟩ := trigger_blocking (s := s) (w := w) e
    rw [hcnt, hblocking, hreturning]
    exact h
  cases a with
  | asyncBlocking w job =>
    show s.pendingBlockingTasks + 1 = (s.blocking ++ [_]).length + s.returning
    rw [List.length_append, h, List.length_singleton]
    omega
  | unblock b =>
    have hlt : b < s.blocking.length := he
    show (s.unblock b).pendingBlockingTasks = (s.unblock b).blocking.length +
      (s.unblock b).returning
    unfold unblock
    rw [List.getElem?_eq_getElem hlt]
    show s.pendingBlockingTasks = (s.blocking.eraseIdx b).length + (s.returning + 1)
    rw [List.length_eraseIdx_of_lt hlt]
    omega
  | unblocked =>
    have hpos : 0 < s.returning := he
    show s.pendingBlockingTasks - 1 = s.blocking.length + (s.returning - 1)
    omega
  | takeLocal w seed => exact hkept (takeLocal_looked seed).kept
  | steal w startOffset i => exact hkept (steal_looked startOffset i).kept
  | resumeIdle w => exact hkept (resumeIdle_kept w)
  | scan w stage now => exact hkept (scanStep_scanned io now stage).kept
  | cancelEvent w e => exact htrigger
  | trigger w e => exact htrigger
  | _ => exact h

/-- A step makes at most one call on the timer manager, one that is allowed there. -/
theorem timers_next (tid : Fin n → ℕ) (he : (runtime J io tid).enabled s a) (hok : Orderly s a) :
    ((runtime J io tid).next s a).timers = s.timers ∨
      ∃ op, (Timers.manager J).enabled s.timers op ∧ KeepsEarliest s.timers op ∧
        ((runtime J io tid).next s a).timers = (Timers.manager J).next s.timers op := by
  cases a with
  | takeLocal w seed => exact .inl (takeLocal_looked seed).timers
  | steal w startOffset i => exact .inl (steal_looked startOffset i).timers
  | addTimer origin ms cb recurring created inserted =>
    exact .inr ⟨.addTimer ms cb recurring created inserted, he.2, hok.2, rfl⟩
  | cancelTimer w id => exact .inr ⟨.cancel id, he.2, trivial, rfl⟩
  | cancelEvent w e => exact .inl (trigger_timers e)
  | resumeIdle w => exact .inl (resumeIdle_timers w)
  | scan w stage now =>
    refine (scanStep_scanned io now stage).asked.imp id fun hnext => ?_
    exact ⟨.getNextTimer now, he.2, trivial, hnext⟩
  | expire w clk =>
    exact .inr ⟨.listExpiredCb clk.reading, ⟨he.2, clk.mono, clk.bound⟩, hok, rfl⟩
  | trigger w e => exact .inl (trigger_timers e)
  | unblock b => exact .inl (unblock_timers b)
  | _ => exact .inl rfl

theorem bounded_next (hw : WellFormed s.timers.tm) (hb : Bounded s.timers.tm)
    (he : (runtime J io tid).enabled s a) (hok : Orderly s a) :
    WellFormed ((runtime J io tid).next s a).timers.tm ∧
      Bounded ((runtime J io tid).next s a).timers.tm := by
  rcases timers_next tid he hok with heq | ⟨op, hop, hkeeps, heq⟩
  · rw [heq]
    exact ⟨hw, hb⟩
  · rw [heq]
    exact ⟨Timers.next_wellFormed hw hop, Timers.next_bounded hw hb hop hkeeps⟩

/-- Without an `IOManager` no step adds a timer, an event or a blocking call. -/
theorem plain_next (h : s.Seen .stopped) (hwf : WellFormed s.timers.tm)
    (he : (runtime J false tid).enabled s a) :
    ((runtime J false tid).next s a).Seen .stopped := by
  have hkept : ∀ {s' : Runtime J n}, s'.timers = s.timers → s.Kept s' → s'.Seen .stopped := by
    intro s' ht hk
    refine ⟨fun hp => ?_, fun hp => hk.events.trans (h.events hp), fun hp => ?_,
      fun hp => (nomatch hp), fun _ hp => (hp : False).elim, fun _ hp => (hp : False).elim⟩
    · rw [ht]
      exact h.timers hp
    · rw [hk.blocking, hk.returning]
      exact h.blocking hp
  have hevent : ∀ {e : ℕ}, ¬ e < s.events.length := by
    intro e hlt
    rw [h.events rfl] at hlt
    exact absurd hlt (Nat.not_lt_zero _)
  cases a with
  | takeLocal w seed => exact h.looked (takeLocal_looked seed)
  | steal w startOffset i => exact h.looked (steal_looked startOffset i)
  | addTimer origin ms cb recurring created inserted => exact nomatch he.1.1
  | cancelTimer w id => exact h.timers_congr fun _ hn => hn.cancel id
  | addEvent w job => exact nomatch he.1
  | delEvent w e => exact absurd he.2 hevent
  | cancelEvent w e => exact absurd he.2 hevent
  | asyncBlocking w job => exact nomatch he.1
  | submitBlocking w => exact nomatch he.1
  | resumeIdle w => exact hkept (resumeIdle_timers w) (resumeIdle_kept w)
  | scan w stage now => exact h.scanned (scanStep_scanned false now stage)
  | expire w clk => exact h.expire hwf w clk
  | trigger w e => exact absurd he.2 hevent
  | unblock b =>
    have hlt : b < s.blocking.length := he
    rw [(h.blocking rfl).1] at hlt
    exact absurd hlt (Nat.not_lt_zero _)
  | unblocked =>
    have hpos : 0 < s.returning := he
    rw [(h.blocking rfl).2] at hpos
    exact absurd hpos (Nat.not_lt_zero _)
  | eventCancelled w =>
    exact ⟨h.timers, h.events, h.blocking, h.stopped, h.queues, fun _ hp => hp.elim⟩
  | eventDone w =>
    exact ⟨h.timers, h.events, h.blocking, h.stopped, h.queues, fun _ hp => hp.elim⟩
  | detachedDone => exact ⟨h.timers, h.events, h.blocking, h.stopped, h.queues, h.flags⟩
  | stop => exact ⟨h.timers, h.events, h.blocking, fun _ => rfl, h.queues, h.flags⟩
  | _ => exact hkept rfl ⟨rfl, rfl, rfl, rfl, rfl, rfl⟩

theorem sound_next (hi : s.Inv io) (he : (runtime J io tid).enabled s a) (hok : Orderly s a)
    {u : Fin n} (hu : s.pc u = .scan st) : ((runtime J io tid).next s a).Sound st := by
  have hseen : s.Seen st → ((runtime J io tid).next s a).Sound st := by
    refine fun h => h.next (fun w => (hi.flagged w).1) hi.wellFormed he ?_
    rintro ms cb r created inserted rfl
    exact hok.1 rfl u st hu
  rcases hi.scans u st hu with h | ⟨w, hw, hnp⟩
  · exact hseen h
  · -- the flag is lowered only when the call is not stale
    by_cases hlower : a = .lower w
    · subst hlower
      exact hseen (hok u st hu)
    by_cases hyield : a = .idleYield w
    · subst hyield
      exact hseen (hok u st hu)
    exact .inr ⟨w, active_next (fun w => (hi.flagged w).2) he hw hlower hyield, hnp⟩

/-- Nothing starts again once everything is drained. -/
theorem Drained.next (h : s.Drained) (hi : s.Inv io) (he : (runtime J io tid).enabled s a) :
    ((runtime J io tid).next s a).Drained := by
  have hidle : ∀ {w : Fin n}, s.pc w ≠ .running := by
    intro w hw
    have hflag := h.seen.flags w w.isLt
    rw [hw] at hflag
    cases hflag
  constructor
  · refine Sound.ends (h.seen.next (fun w => (hi.flagged w).1) hi.wellFormed he ?_) le_rfl
    rintro ms cb r created inserted rfl
    have hno : s.stopped = false := he.1.2
    rw [h.seen.stopped rfl] at hno
    cases hno
  · cases a with
    | takeLocal w seed => exact (takeLocal_looked seed).kept.detached.trans h.detached
    | steal w startOffset i => exact (steal_looked startOffset i).kept.detached.trans h.detached
    | cancelEvent w e => exact (trigger_term e).2.trans h.detached
    | submitBlocking w => exact absurd he.2 hidle
    | resumeIdle w => exact (resumeIdle_kept w).detached.trans h.detached
    | scan w stage now => exact (scanStep_scanned io now stage).kept.detached.trans h.detached
    | trigger w e => exact (trigger_term e).2.trans h.detached
    | unblock b => exact (unblock_term b).2.trans h.detached
    | detachedDone =>
      show s.detached - 1 = 0
      rw [h.detached]
    | _ => exact h.detached

/-- A worker leaves, and its idle Fiber ends, only by asking `stopping()`. -/
theorem control_next (tid : Fin n → ℕ) (he : (runtime J io tid).enabled s a)
    (hkind : a.kind ≠ .asks) (v : Fin n) :
    (∀ st, ((runtime J io tid).next s a).pc v = .scan st → s.pc v = .scan st) ∧
      (((runtime J io tid).next s a).pc v = .left → s.pc v = .left) ∧
      ((runtime J io tid).next s a).idleTerm = s.idleTerm := by
  have hterm : ((runtime J io tid).next s a).idleTerm = s.idleTerm := by
    cases a with
    | takeLocal w seed => exact (takeLocal_looked seed).idleTerm
    | steal w startOffset i => exact (steal_looked startOffset i).idleTerm
    | cancelEvent w e => exact (trigger_term e).1
    | resumeIdle w => exact resumeIdle_idleTerm w
    | scan w stage now => exact absurd rfl hkind
    | trigger w e => exact (trigger_term e).1
    | unblock b => exact (unblock_term b).1
    | _ => rfl
  obtain ⟨w, hother, hw⟩ := moved_next tid he
  by_cases hv : v = w
  · subst hv
    rcases hw with ⟨-, hpc, -⟩ | hedge
    · rw [hpc]
      exact ⟨fun _ h => h, fun h => h, hterm⟩
    · exact ⟨fun st hp => absurd (hp ▸ hedge).scan hkind,
        fun hp => absurd (hp ▸ hedge).left hkind, hterm⟩
  · rw [(hother v hv).1]
    exact ⟨fun _ h => h, fun h => h, hterm⟩

theorem scans_next (hi : s.Inv io) (he : (runtime J io tid).enabled s a) (hok : Orderly s a)
    (v : Fin n) (st : Scan) (hv : ((runtime J io tid).next s a).pc v = .scan st) :
    ((runtime J io tid).next s a).Sound st := by
  by_cases hkind : a.kind = .asks
  · cases a with
    | resumeIdle w =>
      have hpc : Function.update s.pc w _ v = .scan st := resumeIdle_pc w ▸ hv
      by_cases hvw : v = w
      · subst hvw
        rw [Function.update_self] at hpc
        split at hpc
        · cases hpc
        · cases io with
          | true =>
            cases hpc
            exact .inl (.begin _)
          | false =>
            cases hpc
            exact .inl (plain_next (hi.plain rfl) hi.wellFormed he)
      · rw [Function.update_of_ne hvw] at hpc
        exact sound_next hi he hok hpc
    | scan w stage now =>
      have hs := scanStep_scanned (s := s) (w := w) io now stage
      change (s.scanStep io w now stage).pc v = .scan st at hv
      show (s.scanStep io w now stage).Sound st
      by_cases hvw : v = w
      · subst hvw
        have hsound := hi.scans v stage he.1
        generalize s.scanStep io v now stage = s' at hs hv
        have hs' := hs
        cases hs with
        | goOn _ =>
          cases io <;> cases (Function.update_self v _ s.pc).symm.trans hv
        | advance asked read =>
          cases (Function.update_self v _ s.pc).symm.trans hv
          exact (read.sound hi hsound).scanned hs'
        | ends _ => cases (Function.update_self v _ s.pc).symm.trans hv
      · rw [hs.pc_ne hvw] at hv
        exact (hi.scans v st hv).scanned hs
    | _ => cases hkind
  · exact sound_next hi he hok ((control_next tid he hkind v).1 st hv)

/-- A worker whose idle Fiber has ended, or that has left, was told so in a drained state. -/
theorem term_next (hi : s.Inv io) (he : (runtime J io tid).enabled s a) (hok : Orderly s a)
    (v : Fin n) (hv : ((runtime J io tid).next s a).idleTerm v = true ∨
      ((runtime J io tid).next s a).pc v = .left) : s.Drained := by
  by_cases hkind : a.kind = .asks
  · cases a with
    | resumeIdle w =>
      change (s.resumeIdle io w).idleTerm v = true ∨ (s.resumeIdle io w).pc v = .left at hv
      rw [resumeIdle_idleTerm, resumeIdle_pc] at hv
      by_cases hvw : v = w
      · subst hvw
        rw [Function.update_self] at hv
        split at hv
        next hterm => exact hi.drained v (.inl hterm)
        · exact hi.drained v (hv.imp_right fun hp => nomatch hp)
      · rw [Function.update_of_ne hvw] at hv
        exact hi.drained v hv
    | scan w stage now =>
      have hs := scanStep_scanned (s := s) (w := w) io now stage
      have hsound := hi.scans w stage he.1
      change (s.scanStep io w now stage).idleTerm v = true ∨
        (s.scanStep io w now stage).pc v = .left at hv
      have hleft := hs.left (v := v)
      generalize s.scanStep io w now stage = s' at hs hv hleft
      cases hs with
      | goOn _ => exact hi.drained v (hv.imp_right hleft)
      | advance _ _ => exact hi.drained v (hv.imp_right hleft)
      | ends hin => exact ⟨hsound.ends hin, hok hin⟩
    | _ => cases hkind
  · obtain ⟨-, hleft, hterm⟩ := control_next tid he hkind v
    rw [hterm] at hv
    exact hi.drained v (hv.imp_right hleft)

theorem next_inv (hi : s.Inv io) (he : (runtime J io tid).enabled s a) (hok : Orderly s a) :
    ((runtime J io tid).next s a).Inv io where
  flagged := flagged_next hi.flagged he
  scans := scans_next hi he hok
  drained := fun v hv => (term_next hi he hok v hv).next hi he
  counted := counted_next hi.counted he
  blocked := blocked_next hi.blocked he
  wellFormed := (bounded_next hi.wellFormed hi.bounded he hok).1
  bounded := (bounded_next hi.wellFormed hi.bounded he hok).2
  plain := by
    rintro rfl
    exact plain_next (hi.plain rfl) hi.wellFormed he

theorem init_inv (h : (runtime J io tid).init s) : s.Inv io := by
  obtain ⟨hworkers, hstopped, htimers, hevents, hcnt, hblocking, hpending, hreturning, -⟩ := h
  have hpc : ∀ w, s.pc w = .unstarted := fun w => (hworkers w).2.2.2.1
  have htm : s.timers.tm = Timers.TimerManager.create s.timers.last := htimers
  have hnone : NoneLive s.timers.tm := by
    rw [htm]
    intro b x hx
    cases hx
  refine ⟨fun w => ?_, fun w st hw => ?_, fun w hw => ?_, ?_, ?_,
    Timers.init_wellFormed htimers, ?_, fun _ => ?_⟩
  · rw [hpc w]
    exact ⟨fun hb => (nomatch hb), fun hc => (nomatch hc)⟩
  · rw [hpc w] at hw
    cases hw
  · rw [(hworkers w).2.2.2.2, hpc w] at hw
    rcases hw with hw | hw <;> cases hw
  · rw [hcnt, hevents, Finset.sum_eq_zero fun w _ => by rw [hpc w]; rfl]
    rfl
  · rw [hpending, hblocking, hreturning]
    rfl
  · rw [htm]
    intro b x hx
    cases hx
  · exact ⟨fun _ => hnone, fun _ => hevents, fun _ => ⟨hblocking, hreturning⟩,
      fun hp => (nomatch hp), fun _ hp => (nomatch hp), fun _ hp => (nomatch hp)⟩

theorem reachVia_inv (h : (runtime J io tid).ReachVia Orderly s) : s.Inv io :=
  h.invariant (I := fun s => s.Inv io) (fun _ => init_inv) fun _ _ => next_inv

end Runtime

/-- **Shutdown strands nothing in an orderly run.**  No task is queued for the thread of a worker
that has left, and when all have left every queue is empty and no event, no live timer and no
blocking task remains. -/
theorem shutdown_strands_nothing [NeZero n] {io : Bool} {tid : Fin n → ℕ} {s : Runtime J n}
    (h : (runtime J io tid).ReachVia Orderly s) :
    (∀ w, s.pc w = .left → ∀ v, ∀ t ∈ (s.queues.workers v).unpinnedTasks ++
        (s.queues.workers v).pinnedTasks, t.thread ≠ tid w) ∧
      ((∀ w, s.pc w = .left) → (∀ v, s.emptyAt v) ∧ s.events = [] ∧ NoneLive s.timers.tm ∧
        s.blocking = [] ∧ s.returning = 0 ∧ s.detached = 0) := by
  have hi := Runtime.reachVia_inv h
  constructor
  · intro w hw v t ht
    obtain ⟨hunpinned, hpinned⟩ := (hi.drained w (.inr hw)).seen.queues v trivial
    rw [hunpinned, hpinned] at ht
    cases ht
  · intro hall
    have hd := hi.drained 0 (.inr (hall 0))
    exact ⟨fun v => hd.seen.queues v trivial, hd.seen.events rfl, hd.seen.timers rfl,
      (hd.seen.blocking rfl).1, (hd.seen.blocking rfl).2, hd.detached⟩

/-- Nobody asks `stopping()`. -/
def Runtime.unasked (s : Runtime J n) : Bool := decide (∀ w, (s.pc w matches .scan _) = false)

/-- A step that is in good order whatever the calls of `stopping()` have read. -/
def Runtime.calm (s : Runtime J n) : Step J n → Bool
  | .lower _ | .idleYield _ => s.unasked
  | .addTimer .. | .expire .. => false
  | .scan .. => decide (s.detached = 0)
  | _ => true

theorem Runtime.calm.orderly {s : Runtime J n} {a : Step J n} (h : s.calm a = true) :
    Orderly s a := by
  have hidle : s.unasked = true → ∀ u st, s.pc u = .scan st → s.Seen st := by
    intro hall u st hu
    have := of_decide_eq_true hall u
    rw [hu] at this
    cases this
  cases a with
  | lower w => exact hidle h
  | idleYield w => exact hidle h
  | addTimer _ _ _ _ _ _ => cases h
  | expire _ _ => cases h
  | scan w st now =>
    cases st with
    | flag i => exact fun _ => of_decide_eq_true h
    | _ => trivial
  | _ => trivial

/-- An `IOManager` with the threads 7 and 8 is stopped.  Worker `w` has still to run a task for
thread 8; worker `v` finds none and asks `stopping()`, which is about to read the queues when `w`
has finished and lowers its flag. -/
def stopBeforeLower (v w : Fin 2) : List (Step Unit 2) :=
  [.start v, .start w, .submit (some ()) 8, .stop, .raise w, .takeLocal w 0, .raise v,
    .takeLocal v 0, .steal v 1 0, .lower v, .resumeIdle v, .scan v .timers 5, .scan v .events 5,
    .scan v .blocking 5, .scan v .stopped 5, .finish w, .raise w, .takeLocal w 0, .steal w 1 0]

/-- Worker `v` reads the two queues and the two flags and leaves, and then worker `w`. -/
def stopAfterLower (v w : Fin 2) : List (Step Unit 2) :=
  [.scan v (.queue 0) 5, .scan v (.queue 1) 5, .scan v (.queue 2) 5, .scan v (.flag 0) 5,
    .scan v (.flag 1) 5, .scan v (.flag 2) 5, .raise v, .takeLocal v 0, .steal v 1 0, .lower v,
    .resumeIdle v, .resumeIdle w, .scan w .timers 5, .scan w .events 5, .scan w .blocking 5,
    .scan w .stopped 5, .scan w (.queue 0) 5, .scan w (.queue 1) 5, .scan w (.queue 2) 5,
    .scan w (.flag 0) 5, .scan w (.flag 1) 5, .scan w (.flag 2) 5, .raise w, .takeLocal w 0,
    .steal w 1 0, .lower w, .resumeIdle w]

theorem shutdown_strands_nothing_two :
    let m := runtime Unit true fun w : Fin 2 => w.val + 7
    let before := m.run (.fresh Unit 2) (stopBeforeLower 0 1)
    let s := m.run (m.next before (.lower 1)) (stopAfterLower 0 1)
    (∀ w, s.pc w = .left) ∧ ∀ v, s.emptyAt v := by
  intro m before s
  have hcalm : m.Allowed (fun s a => s.calm a = true) (.fresh Unit 2) (stopBeforeLower 0 1) := by
    decide +kernel
  have hbefore : m.ReachVia Orderly before := Machine.reachVia_run
    (.start (Runtime.fresh_init true _)) (hcalm.mono fun _ _ => Runtime.calm.orderly)
  have hlower : Orderly before (.lower 1) := by
    have hpc : ∀ u, before.pc u = .scan (.queue 0) ∨ before.pc u = .noTask := by decide +kernel
    have hnext : before.timers.tm.nextTimer 5 = Timers.noTimer := by decide +kernel
    have hnone : NoneLive before.timers.tm :=
      .of_nextTimer (Runtime.reachVia_inv hbefore).bounded hnext
    have hread : before.events = [] ∧ (before.blocking = [] ∧ before.returning = 0) ∧
        before.stopped = true := by decide +kernel
    intro u st hu
    rcases hpc u with hpc | hpc <;> cases hpc.symm.trans hu
    exact ⟨fun _ => hnone, fun _ => hread.1, fun _ => hread.2.1, fun _ => hread.2.2,
      fun _ hp => (nomatch hp), fun _ hp => hp.elim⟩
  have hcalm' : m.Allowed (fun s a => s.calm a = true) (m.next before (.lower 1))
      (stopAfterLower 0 1) := by
    decide +kernel
  have hafter : m.ReachVia Orderly s := Machine.reachVia_run
    (.step hbefore (by decide +kernel) hlower) (hcalm'.mono fun _ _ => Runtime.calm.orderly)
  have hleft : ∀ w, s.pc w = .left := by decide +kernel
  exact ⟨hleft, ((shutdown_strands_nothing hafter).2 hleft).1⟩

/-- Three workers on the threads 100, 101 and 102 of a plain scheduler.  Worker 0 has found all
queues empty and read its own flag when worker 1 spawns a task for thread 102 and lowers its flag;
worker 2 has not raised its own yet, so worker 0 is told to stop and leaves. -/
def raceTrace : List (Step Unit 3) :=
  [.start 0, .start 1, .start 2, .submit (some ()) 101, .stop, .raise 1, .takeLocal 1 0,
    .raise 0, .takeLocal 0 0, .steal 0 1 0, .steal 0 1 1, .lower 0, .resumeIdle 0,
    .scan 0 .stopped 0, .scan 0 (.queue 0) 0, .scan 0 (.queue 1) 0, .scan 0 (.queue 2) 0,
    .scan 0 (.queue 3) 0, .scan 0 (.flag 0) 0,
    .spawn 1 (some ()) 102, .finish 1, .raise 1, .takeLocal 1 0, .steal 1 1 0, .steal 1 1 1,
    .lower 1,
    .scan 0 (.flag 1) 0, .scan 0 (.flag 2) 0, .scan 0 (.flag 3) 0, .raise 0, .takeLocal 0 0,
    .steal 0 1 0, .steal 0 1 1, .lower 0, .resumeIdle 0,
    .raise 2, .takeLocal 2 0, .spawn 2 (some ()) 100]

/-- Worker 2 then runs its task, which submits one for thread 100: it is queued for a worker that
has left. -/
theorem pinned_task_stranded : ∃ s : Runtime Unit 3,
    (runtime Unit false fun w => w.val + 100).Reach s ∧ s.stopped = true ∧ s.pc 0 = .left ∧
      ∃ t ∈ (s.queues.workers 0).pinnedTasks, t.thread = 100 := by
  refine ⟨(runtime Unit false fun w => w.val + 100).run (.fresh Unit 3) raceTrace,
    Machine.reachVia_run (.start (Runtime.fresh_init false _)) (by decide +kernel),
    by decide +kernel, by decide +kernel, ⟨2, some (), 100⟩, ?_, rfl⟩
  have hqueue : ((runtime Unit false fun w => w.val + 100).run
      (.fresh Unit 3) raceTrace).queues.workers 0 = ⟨[], [⟨2, some (), 100⟩], 100, false⟩ := by
    rfl
  rw [hqueue]
  exact List.mem_singleton_self _

end PulsarRuntime.Scheduler
