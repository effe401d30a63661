import PulsarRuntime.Lib.Family
import PulsarRuntime.Net.Wait

/-!
# Every wait on a connection is woken once

`Wait.Woken` lists the five ways the exchange and the two callers of `scheduler` can stand, and
`Wait.Stage` what a call knows at each of its program points.  With the whereabouts of the event
callbacks (`Connection.Inv`) they give the contract of `Connection::Wait`.

A callback that is registered belongs to a call that has not returned, and there is one call for an
event at a time; so `addEvent` finds its event free.  What is left of the panics is a worker that
triggers an event which the timer callback or `Close` has triggered before, together with one that
is still registered; `Unmixed` rules it out.
-/

namespace PulsarRuntime.Net

/-- The timer callback is not between its exchange and its call of `scheduler`. -/
def TimerPc.idle : TimerPc → Bool
  | .won | .swept => false
  | _ => true

namespace Wait

/-- The exchange, its winner, and what the winner has done. -/
inductive Woken (c : Wait) : Prop where
  | waiting (outcome : c.outcome = 0) (claimed : c.claimed = false) (handed : c.handed = [])
      (timer : c.timer.idle = true)
  | claimed (outcome : c.outcome = 1) (claimed : c.claimed = true) (handed : c.handed = [])
      (timer : c.timer.idle = true)
  | ready (outcome : c.outcome = 1) (claimed : c.claimed = false) (handed : c.handed = [c.worker])
      (timer : c.timer.idle = true)
  | won (outcome : c.outcome = 2) (claimed : c.claimed = false) (handed : c.handed = [])
      (timer : c.timer.idle = false)
  | late (outcome : c.outcome = 2) (claimed : c.claimed = false) (handed : c.handed = [c.worker])
      (timer : c.timer.idle = true)

/-- A winner is about to call `scheduler`. -/
def Waking (c : Wait) : Prop := c.claimed = true ∨ c.timer.idle = false

/-- What holds at each point of the call. -/
def Stage (c : Wait) : Prop :=
  match c.pc with
  | .called => c.registered = false
  | .registered => c.registered = true ∧ c.timer = .off
  | .armed => c.registered = true
  | .yielded => c.registered = true ∧ c.yielded = true
  | .resumed | .woken => c.registered = true ∧ c.yielded = true ∧ c.handed ≠ []
  | .returned r =>
      (c.registered = false ∧ (r = .closed ∨ r = .invalid ∨ r = .notAdded)) ∨
      (c.registered = true ∧ c.yielded = true ∧ c.handed ≠ [] ∧
        (r = .timedOut ∧ c.outcome = 2 ∨ (r = .closed ∨ r = .success) ∧ c.outcome = 1))

structure Ok (c : Wait) : Prop where
  woken : c.Woken
  stage : c.Stage
  unregistered : c.registered = false → c.outcome = 0 ∧ c.timer = .off ∧ c.yielded = false

/-- The program point, and what was known there, survive what the callbacks do. -/
theorem Stage.congr {c c' : Wait} (h : c.Stage) (hpc : c'.pc = c.pc)
    (hregistered : c'.registered = c.registered) (hyielded : c'.yielded = c.yielded)
    (hhanded : c.handed ≠ [] → c'.handed ≠ []) (htimer : c.pc = .registered → c'.timer = c.timer)
    (houtcome : c.handed ≠ [] → c'.outcome = c.outcome) : c'.Stage := by
  unfold Stage at h ⊢
  rw [hpc, hregistered, hyielded]
  cases hp : c.pc with
  | registered =>
    rw [hp] at h
    exact ⟨h.1, (htimer hp).trans h.2⟩
  | resumed =>
    rw [hp] at h
    exact ⟨h.1, h.2.1, hhanded h.2.2⟩
  | woken =>
    rw [hp] at h
    exact ⟨h.1, h.2.1, hhanded h.2.2⟩
  | returned r =>
    rw [hp] at h
    refine h.imp_right fun hr => ⟨hr.1, hr.2.1, hhanded hr.2.2.1, ?_⟩
    rw [houtcome hr.2.2.1]
    exact hr.2.2.2
  | _ =>
    rw [hp] at h
    exact h

variable {c : Wait}

theorem Woken.handed_eq (h : c.Woken) : c.handed = [] ∨ c.handed = [c.worker] := by
  cases h with
  | waiting _ _ handed _ => exact .inl handed
  | claimed _ _ handed _ => exact .inl handed
  | ready _ _ handed _ => exact .inr handed
  | won _ _ handed _ => exact .inl handed
  | late _ _ handed _ => exact .inr handed

theorem Woken.waiting_or_waking (h : c.Woken) (hnot : c.handed = []) :
    c.outcome = 0 ∨ c.Waking := by
  cases h with
  | waiting outcome _ _ _ => exact .inl outcome
  | claimed _ claimed _ _ => exact .inr (.inl claimed)
  | ready _ _ handed _ =>
    rw [hnot] at handed
    cases handed
  | won _ _ _ timer => exact .inr (.inr timer)
  | late _ _ handed _ =>
    rw [hnot] at handed
    cases handed

theorem Woken.undecided (h : c.Woken) (hopen : c.outcome = 0) :
    c.claimed = false ∧ c.handed = [] ∧ c.timer.idle = true := by
  cases h with
  | waiting _ claimed handed timer => exact ⟨claimed, handed, timer⟩
  | claimed outcome _ _ _ => omega
  | ready outcome _ _ _ => omega
  | won outcome _ _ _ => omega
  | late outcome _ _ _ => omega

theorem Woken.timing_out (h : c.Woken) (htimer : c.timer.idle = false) :
    c.outcome = 2 ∧ c.claimed = false ∧ c.handed = [] := by
  cases h with
  | won outcome claimed handed _ => exact ⟨outcome, claimed, handed⟩
  | waiting _ _ _ timer => exact absurd (timer.symm.trans htimer) (by decide)
  | claimed _ _ _ timer => exact absurd (timer.symm.trans htimer) (by decide)
  | ready _ _ _ timer => exact absurd (timer.symm.trans htimer) (by decide)
  | late _ _ _ timer => exact absurd (timer.symm.trans htimer) (by decide)

theorem Woken.claimed_ready (h : c.Woken) (hclaimed : c.claimed = true) :
    c.outcome = 1 ∧ c.handed = [] ∧ c.timer.idle = true := by
  cases h with
  | claimed outcome _ handed timer => exact ⟨outcome, handed, timer⟩
  | waiting _ claimed _ _ => exact absurd (claimed.symm.trans hclaimed) (by decide)
  | ready _ claimed _ _ => exact absurd (claimed.symm.trans hclaimed) (by decide)
  | won _ claimed _ _ => exact absurd (claimed.symm.trans hclaimed) (by decide)
  | late _ claimed _ _ => exact absurd (claimed.symm.trans hclaimed) (by decide)

/-- A timer that is not waking anybody may be armed, expire, be cancelled or give up. -/
theorem Woken.setTimer {c c' : Wait} (h : c.Woken) (houtcome : c'.outcome = c.outcome)
    (hclaimed : c'.claimed = c.claimed) (hhanded : c'.handed = c.handed)
    (hworker : c'.worker = c.worker) (htimer : c'.timer.idle = c.timer.idle) : c'.Woken := by
  cases h with
  | waiting o cl ha t =>
    exact .waiting (houtcome.trans o) (hclaimed.trans cl) (hhanded.trans ha) (htimer.trans t)
  | claimed o cl ha t =>
    exact .claimed (houtcome.trans o) (hclaimed.trans cl) (hhanded.trans ha) (htimer.trans t)
  | ready o cl ha t =>
    exact .ready (houtcome.trans o) (hclaimed.trans cl) (hworker ▸ hhanded.trans ha)
      (htimer.trans t)
  | won o cl ha t =>
    exact .won (houtcome.trans o) (hclaimed.trans cl) (hhanded.trans ha) (htimer.trans t)
  | late o cl ha t =>
    exact .late (houtcome.trans o) (hclaimed.trans cl) (hworker ▸ hhanded.trans ha)
      (htimer.trans t)

theorem Ok.setPc (h : c.Ok) {p : WaitPc} (hstage : { c with pc := p }.Stage) :
    { c with pc := p }.Ok :=
  ⟨h.woken.setTimer rfl rfl rfl rfl rfl, hstage, h.unregistered⟩

theorem Ok.at (h : c.Ok) {p : WaitPc} (hpc : c.pc = p) : { c with pc := p }.Stage := by
  subst hpc
  exact h.stage

theorem Ok.registered_of_timer (h : c.Ok) (ht : c.timer ≠ .off) :
    c.registered = true ∧ c.pc ≠ .registered := by
  constructor
  · by_contra hr
    exact ht (h.unregistered (Bool.not_eq_true _ ▸ hr)).2.1
  · intro hp
    have hstage := h.stage
    unfold Stage at hstage
    rw [hp] at hstage
    exact ht hstage.2

theorem Woken.decided (h : c.Woken) (hhanded : c.handed ≠ []) : c.outcome = 1 ∨ c.outcome = 2 := by
  cases h with
  | waiting _ _ handed _ => exact absurd handed hhanded
  | claimed outcome _ _ _ => exact .inl outcome
  | ready outcome _ _ _ => exact .inl outcome
  | won outcome _ _ _ => exact .inr outcome
  | late outcome _ _ _ => exact .inr outcome

end Wait

namespace Connection

structure Inv (s : Connection) : Prop where
  ok : ∀ k < s.count, (s.waits k).Ok
  /-- a registered callback belongs to a wait that has not been handed over -/
  slotted : ∀ e k, s.slot e = some k → k < s.count ∧ (s.waits k).event = e ∧
    (s.waits k).registered = true ∧ ((s.waits k).outcome = 0 ∨ (s.waits k).timer = .won)
  queued : ∀ k ∈ s.callbacks, k < s.count ∧ (s.waits k).registered = true ∧
    ∀ e, s.slot e ≠ some k
  /-- an undecided wait has its callback registered or queued -/
  placed : ∀ k < s.count, (s.waits k).registered = true → (s.waits k).outcome = 0 →
    s.slot (s.waits k).event = some k ∨ k ∈ s.callbacks
  swept : s.phase = .swept ∨ s.phase = .closed → ∀ e, s.slot e = none
  /-- a call that has not come to its critical section finds its event free -/
  called : ∀ k < s.count, (s.waits k).pc = .called → s.slot (s.waits k).event = none ∧
    ∀ j < s.count, (s.waits j).pc = .called → (s.waits j).event = (s.waits k).event → j = k

variable {s : Connection}

theorem setWait_self (k : ℕ) (c : Wait) : (s.setWait k c).waits k = c := Function.update_self ..

theorem setWait_ne {k j : ℕ} (c : Wait) (h : j ≠ k) : (s.setWait k c).waits j = s.waits j :=
  Function.update_of_ne h ..

variable {k : ℕ} {c : Wait}

/-- One wait moves on; its event stays its own, and where its callback is still fits. -/
theorem Inv.setWait (h : s.Inv) (hok : c.Ok) (hevent : c.event = (s.waits k).event)
    (hregistered : (s.waits k).registered = true → c.registered = true)
    (hslot : s.slot c.event = some k → c.outcome = 0 ∨ c.timer = .won)
    (hplaced : c.registered = true → c.outcome = 0 →
      s.slot c.event = some k ∨ k ∈ s.callbacks)
    (hcalled : c.pc = .called → (s.waits k).pc = .called) : (s.setWait k c).Inv := by
  have hwait : ∀ j, ((s.setWait k c).waits j).event = (s.waits j).event ∧
      ((s.waits j).registered = true → ((s.setWait k c).waits j).registered = true) ∧
      (((s.setWait k c).waits j).pc = .called → (s.waits j).pc = .called) := by
    intro j
    by_cases hjk : j = k
    · rw [hjk, setWait_self]
      exact ⟨hevent, hregistered, hcalled⟩
    · rw [setWait_ne c hjk]
      exact ⟨rfl, id, id⟩
  refine ⟨Family.forall_update (P := fun _ => Wait.Ok) h.ok hok, fun e j hj => ?_, fun j hj => ?_,
    Family.forall_update (P := fun j (c : Wait) => c.registered = true → c.outcome = 0 →
      s.slot c.event = some j ∨ j ∈ s.callbacks) h.placed hplaced, h.swept, fun j hj hpc => ?_⟩
  · obtain ⟨hlt, heq, hreg, hopen⟩ := h.slotted e j hj
    refine ⟨hlt, (hwait j).1.trans heq, (hwait j).2.1 hreg, ?_⟩
    by_cases hjk : j = k
    · subst hjk
      rw [setWait_self]
      exact hslot ((hevent.trans heq).symm ▸ hj)
    · rw [setWait_ne c hjk]
      exact hopen
  · obtain ⟨hlt, hreg, hnot⟩ := h.queued j hj
    exact ⟨hlt, (hwait j).2.1 hreg, hnot⟩
  · obtain ⟨hfree, halone⟩ := h.called j hj ((hwait j).2.2 hpc)
    rw [(hwait j).1]
    refine ⟨hfree, fun i hi hpc' heq => halone i hi ((hwait i).2.2 hpc') ?_⟩
    rwa [(hwait i).1] at heq

/-- A wait moves on without the exchange. -/
theorem Inv.advance (h : s.Inv) (hk : k < s.count) (hok : c.Ok)
    (hevent : c.event = (s.waits k).event) (hregistered : c.registered = (s.waits k).registered)
    (houtcome : c.outcome = (s.waits k).outcome)
    (htimer : (s.waits k).timer = .won → c.timer = .won)
    (hcalled : c.pc = .called → (s.waits k).pc = .called) : (s.setWait k c).Inv := by
  refine h.setWait hok hevent (fun hr => hregistered.trans hr) (fun hs => ?_) (fun hr ho => ?_)
    hcalled
  · rw [hevent] at hs
    rw [houtcome]
    exact (h.slotted _ k hs).2.2.2.imp_right htimer
  · rw [hevent]
    exact h.placed k hk (hregistered ▸ hr) (houtcome ▸ ho)

theorem Inv.triggerEvent (h : s.Inv) (e : Event) : (s.triggerEvent e).Inv := by
  unfold Connection.triggerEvent
  split
  · exact ⟨h.ok, h.slotted, h.queued, h.placed, h.swept, h.called⟩
  next k hk =>
    have hnone : ∀ e', s.slot e' = none → Function.update s.slot e none e' = none := by
      intro e' hfree
      rw [Function.update_apply]
      split
      · rfl
      · exact hfree
    have hslot : ∀ e' j, Function.update s.slot e none e' = some j →
        e' ≠ e ∧ s.slot e' = some j := by
      intro e' j hj
      by_cases he : e' = e
      · rw [he, Function.update_self] at hj
        cases hj
      · exact ⟨he, by rwa [Function.update_of_ne he] at hj⟩
    have hmine := h.slotted e k hk
    refine ⟨h.ok, fun e' j hj => h.slotted e' j (hslot e' j hj).2, fun j hj => ?_,
      fun j hj hreg hopen => ?_, fun hp e' => hnone e' (h.swept hp e'), fun j hj hpc =>
        ⟨hnone _ (h.called j hj hpc).1, (h.called j hj hpc).2⟩⟩
    · rcases List.mem_append.mp hj with hj | hj
      · obtain ⟨hlt, hreg, hnot⟩ := h.queued j hj
        exact ⟨hlt, hreg, fun e' he' => hnot e' (hslot e' j he').2⟩
      · rw [List.mem_singleton.mp hj]
        refine ⟨hmine.1, hmine.2.2.1, fun e' he' => ?_⟩
        obtain ⟨hne, he''⟩ := hslot e' k he'
        exact hne ((h.slotted e' k he'').2.1.symm.trans hmine.2.1)
    · by_cases hjk : j = k
      · exact .inr (List.mem_append_right _ (List.mem_singleton.mpr hjk))
      · rcases h.placed j hj hreg hopen with hs | hq
        · left
          have hne : (s.waits j).event ≠ e := by
            intro he
            rw [he, hk] at hs
            exact hjk (Option.some.inj hs).symm
          show Function.update s.slot e none (s.waits j).event = some j
          rw [Function.update_of_ne hne]
          exact hs
        · exact .inr (List.mem_append_left _ hq)

theorem Inv.cancelEvent (h : s.Inv) (e : Event) : (s.cancelEvent e).Inv := by
  unfold Connection.cancelEvent
  split
  · exact h.triggerEvent e
  · exact h

/-- Rule for `notify`: what every `triggerEvent` keeps. -/
theorem notify_keeps {P : Connection → Prop} (htrigger : ∀ t e, P t → P (t.triggerEvent e))
    (h : P s) (reported : Event → Bool) (error : Bool) : P (s.notify reported error) := by
  have hread : ∀ b : Bool, P (if b then s.triggerEvent .read else s) := by
    intro b
    cases b
    · exact h
    · exact htrigger s .read h
  have hwrite : ∀ t, P t → ∀ b : Bool,
      P (if t.panicked then t else if b then t.triggerEvent .write else t) := by
    intro t ht b
    split
    · exact ht
    · split
      · exact htrigger t .write ht
      · exact ht
  unfold Connection.notify
  dsimp only
  by_cases hhit : (s.realEvents reported error .read && (s.slot .read).isSome ||
      s.realEvents reported error .write && (s.slot .write).isSome) = true
  · rw [if_pos hhit]
    exact hwrite _ (hread _) _
  · rw [if_neg hhit]
    exact h

/-- `cancelEvent` leaves its event without a callback, and gives none to another. -/
theorem cancelEvent_slot (e : Event) : (s.cancelEvent e).slot e = none ∧
    ∀ e', s.slot e' = none → (s.cancelEvent e).slot e' = none := by
  unfold Connection.cancelEvent
  split
  next hsome =>
    obtain ⟨k, hk⟩ := Option.isSome_iff_exists.mp hsome
    unfold Connection.triggerEvent
    rw [hk]
    refine ⟨Function.update_self .., fun e' he' => ?_⟩
    show Function.update s.slot e none e' = none
    by_cases he : e' = e
    · rw [he, Function.update_self]
    · rw [Function.update_of_ne he]
      exact he'
  next hnone => exact ⟨Option.not_isSome_iff_eq_none.mp hnone, fun _ he' => he'⟩

/-- The same calls, in the same phase. -/
def SameCalls (s s' : Connection) : Prop :=
  s'.waits = s.waits ∧ s'.count = s.count ∧ s'.phase = s.phase

theorem SameCalls.refl (s : Connection) : s.SameCalls s := ⟨rfl, rfl, rfl⟩

variable {s' : Connection}

theorem SameCalls.triggerEvent (h : s.SameCalls s') (e : Event) :
    s.SameCalls (s'.triggerEvent e) := by
  unfold Connection.triggerEvent
  split <;> exact h

theorem SameCalls.cancelEvent (h : s.SameCalls s') (e : Event) :
    s.SameCalls (s'.cancelEvent e) := by
  unfold Connection.cancelEvent
  split
  · exact h.triggerEvent e
  · exact h

section

variable (h : s.Inv)
include h

theorem cancelAll_inv : ({ s.cancelAll with phase := .swept }).Inv := by
  have hi : s.cancelAll.Inv := (h.cancelEvent .read).cancelEvent .write
  have hslot : ∀ e, s.cancelAll.slot e = none := by
    intro e
    cases e with
    | read => exact (cancelEvent_slot .write).2 _ (cancelEvent_slot .read).1
    | write => exact (cancelEvent_slot .write).1
  exact ⟨hi.ok, hi.slotted, hi.queued, hi.placed, fun _ => hslot, hi.called⟩

/-! ### The steps of a wait -/

/-- The event is added: the callback of an unregistered wait goes into a free slot. -/
theorem addEvent_inv (hk : k < s.count) (hok : (s.waits k).Ok)
    (hunreg : (s.waits k).registered = false) (hpc : (s.waits k).pc = .called)
    (hslot : ∀ e, s.slot e ≠ some k) (hqueue : k ∉ s.callbacks) (hopen : s.phase = .live) :
    ({ s.setWait k { s.waits k with pc := .registered, registered := true } with
      slot := Function.update s.slot (s.waits k).event (some k) } : Connection).Inv := by
  obtain ⟨houtcome, htimer, -⟩ := hok.unregistered hunreg
  obtain ⟨hfree, halone⟩ := h.called k hk hpc
  have hnew : Wait.Ok { s.waits k with pc := .registered, registered := true } := by
    refine ⟨?_, ⟨rfl, htimer⟩, fun hf => nomatch hf⟩
    cases hok.woken with
    | waiting outcome claimed handed timer => exact .waiting outcome claimed handed timer
    | claimed outcome _ _ _ => omega
    | ready outcome _ _ _ => omega
    | won outcome _ _ _ => omega
    | late outcome _ _ _ => omega
  have hupd : ∀ e j, Function.update s.slot (s.waits k).event (some k) e = some j →
      (e = (s.waits k).event ∧ j = k) ∨ (j ≠ k ∧ s.slot e = some j) := by
    intro e j hj
    by_cases he : e = (s.waits k).event
    · rw [he, Function.update_self] at hj
      exact .inl ⟨he, (Option.some.inj hj).symm⟩
    · rw [Function.update_of_ne he] at hj
      exact .inr ⟨fun hjk => hslot e (hjk ▸ hj), hj⟩
  refine ⟨Family.forall_update (P := fun _ => Wait.Ok) h.ok hnew, fun e j hj => ?_,
    fun j hj => ?_, fun j hj hreg hopn => ?_, fun hp => ?_, fun j hj hpc' => ?_⟩
  · show j < s.count ∧ ((s.setWait k _).waits j).event = e ∧
      ((s.setWait k _).waits j).registered = true ∧
      (((s.setWait k _).waits j).outcome = 0 ∨ ((s.setWait k _).waits j).timer = .won)
    rcases hupd e j hj with ⟨rfl, rfl⟩ | ⟨hjk, hj⟩
    · rw [setWait_self]
      exact ⟨hk, rfl, rfl, .inl houtcome⟩
    · rw [setWait_ne _ hjk]
      exact h.slotted e j hj
  · obtain ⟨hlt, hreg, hnot⟩ := h.queued j hj
    have hjk : j ≠ k := fun hjk => hqueue (hjk ▸ hj)
    show j < s.count ∧ ((s.setWait k _).waits j).registered = true ∧
      ∀ e, Function.update s.slot (s.waits k).event (some k) e ≠ some j
    rw [setWait_ne _ hjk]
    refine ⟨hlt, hreg, fun e he => ?_⟩
    rcases hupd e j he with ⟨-, hjk'⟩ | ⟨-, he'⟩
    · exact hjk hjk'
    · exact hnot e he'
  · change ((s.setWait k _).waits j).registered = true at hreg
    change ((s.setWait k _).waits j).outcome = 0 at hopn
    show Function.update s.slot (s.waits k).event (some k) ((s.setWait k _).waits j).event =
      some j ∨ j ∈ s.callbacks
    by_cases hjk : j = k
    · subst hjk
      rw [setWait_self]
      exact .inl (Function.update_self ..)
    · rw [setWait_ne _ hjk] at hreg hopn ⊢
      rcases h.placed j hj hreg hopn with hs | hq
      · left
        rw [Function.update_of_ne]
        · exact hs
        · intro he
          rw [he, hfree] at hs
          cases hs
      · exact .inr hq
  · have hp' : s.phase = .swept ∨ s.phase = .closed := hp
    rw [hopen] at hp'
    rcases hp' with hp' | hp' <;> cases hp'
  · have hothers : ∀ i, ((s.setWait k { s.waits k with
        pc := .registered
        registered := true }).waits i).pc = .called → i ≠ k ∧ (s.waits i).pc = .called := by
      intro i hi
      have hik : i ≠ k := by
        rintro rfl
        rw [setWait_self] at hi
        cases hi
      exact ⟨hik, setWait_ne (s := s) _ hik ▸ hi⟩
    obtain ⟨hjk, hj'⟩ := hothers j hpc'
    obtain ⟨hfree', halone'⟩ := h.called j hj hj'
    show Function.update s.slot (s.waits k).event (some k) ((s.setWait k _).waits j).event = none ∧
      ∀ i < s.count, ((s.setWait k _).waits i).pc = .called →
        ((s.setWait k _).waits i).event = ((s.setWait k _).waits j).event → i = j
    rw [setWait_ne _ hjk]
    refine ⟨?_, fun i hi hpi heq => ?_⟩
    · rw [Function.update_of_ne fun heq => hjk (halone j hj hj' heq)]
      exact hfree'
    · obtain ⟨hik, hpi'⟩ := hothers i hpi
      rw [setWait_ne _ hik] at heq
      exact halone' i hi hpi' heq

/-- A registered callback belongs to a call that has not returned. -/
theorem Inv.slot_open {e : Event} (hk : s.slot e = some k) :
    (s.waits k).pc.hasReturned = false := by
  obtain ⟨hlt, -, hreg, hopen⟩ := h.slotted e k hk
  have hok := h.ok k hlt
  cases hp : (s.waits k).pc with
  | returned r =>
    rcases hok.at hp with ⟨hunreg, -⟩ | ⟨-, -, hhanded, -⟩
    · exact absurd (hreg.symm.trans hunreg) (by decide)
    · rcases hopen with hzero | hwon
      · exact absurd (hok.woken.undecided hzero).2.1 hhanded
      · exact absurd (hok.woken.timing_out (by rw [hwon]; rfl)).2.2 hhanded
  | _ => rfl

theorem call_inv {event : Event}
    (hreturned : ∀ k < s.count, (s.waits k).event = event → (s.waits k).pc.hasReturned = true)
    (worker : ℕ) (timed owner : Bool) :
    (connection.next s (.call event worker timed owner)).Inv := by
  have hold : ∀ c : Wait, ∀ k, k < s.count → Function.update s.waits s.count c k = s.waits k :=
    fun c k hk => Function.update_of_ne (Nat.ne_of_lt hk) ..
  have hopen : ∀ k < s.count, (s.waits k).event = event →
      (s.waits k).pc.hasReturned ≠ false := by
    intro k hk heq
    rw [hreturned k hk heq]
    decide
  have hfree : s.slot event = none := by
    cases hslot : s.slot event with
    | none => rfl
    | some k =>
      obtain ⟨hlt, heq, -⟩ := h.slotted event k hslot
      exact absurd (h.slot_open hslot) (hopen k hlt heq)
  refine ⟨fun k hk => ?_, fun e k hs => ?_, fun k hq => ?_, fun k hk hreg hopen => ?_, h.swept,
    ?_⟩
  · refine Family.forall_add (P := fun _ => Wait.Ok) h.ok ?_ k hk
    refine ⟨.waiting rfl rfl rfl rfl, ?_, fun _ => ⟨rfl, rfl, rfl⟩⟩
    cases owner
    · exact .inl ⟨rfl, .inr (.inl rfl)⟩
    · exact (rfl : false = false)
  · obtain ⟨hlt, hrest⟩ := h.slotted e k hs
    show k < s.count + 1 ∧ (Function.update s.waits s.count _ k).event = e ∧
      (Function.update s.waits s.count _ k).registered = true ∧
      ((Function.update s.waits s.count _ k).outcome = 0 ∨
        (Function.update s.waits s.count _ k).timer = .won)
    rw [hold _ k hlt]
    exact ⟨Nat.lt_succ_of_lt hlt, hrest⟩
  · obtain ⟨hlt, hrest⟩ := h.queued k hq
    show k < s.count + 1 ∧ (Function.update s.waits s.count _ k).registered = true ∧ _
    rw [hold _ k hlt]
    exact ⟨Nat.lt_succ_of_lt hlt, hrest⟩
  · refine Family.forall_add (P := fun k (c : Wait) => c.registered = true → c.outcome = 0 →
      s.slot c.event = some k ∨ k ∈ s.callbacks) h.placed (fun hr => ?_) k hk hreg hopen
    cases hr
  · -- the others that are called are for another event
    refine Family.forall_add (P := fun k (c : Wait) => c.pc = .called → s.slot c.event = none ∧
      ∀ j < s.count + 1, (Function.update s.waits s.count _ j).pc = .called →
        (Function.update s.waits s.count _ j).event = c.event → j = k) (fun k hk hpc => ?_)
      fun _ => ⟨hfree, ?_⟩
    · obtain ⟨hnone, halone⟩ := h.called k hk hpc
      refine ⟨hnone, Family.forall_add (P := fun j (c : Wait) => c.pc = .called →
        c.event = (s.waits k).event → j = k) halone fun _ heq => ?_⟩
      exact absurd (by rw [hpc]; rfl) (hopen k hk heq.symm)
    · refine Family.forall_add
        (P := fun j (c : Wait) => c.pc = .called → c.event = event → j = s.count)
        (fun j hj hpc heq => ?_) fun _ _ => rfl
      exact absurd (by rw [hpc]; rfl) (hopen j hj heq)

theorem register_inv (hk : k < s.count) (hpc : (s.waits k).pc = .called)
    (added : Bool) : (s.register k added).Inv := by
  have hok := h.ok k hk
  have hunreg : (s.waits k).registered = false := by
    have hstage := hok.stage
    unfold Wait.Stage at hstage
    rwa [hpc] at hstage
  have hturned : ∀ r, (r = .closed ∨ r = .invalid ∨ r = .notAdded) →
      (s.setWait k { s.waits k with pc := .returned r }).Inv := fun r hr =>
    h.advance hk (hok.setPc (.inl ⟨hunreg, hr⟩)) rfl rfl rfl id fun _ => hpc
  have hslot : ∀ e, s.slot e ≠ some k := by
    intro e he
    rw [(h.slotted e k he).2.2.1] at hunreg
    cases hunreg
  have hqueue : k ∉ s.callbacks := by
    intro hq
    rw [(h.queued k hq).2.1] at hunreg
    cases hunreg
  unfold Connection.register
  dsimp only
  split
  · exact hturned .closed (.inl rfl)
  · split
    · exact ⟨h.ok, h.slotted, h.queued, h.placed, h.swept, h.called⟩
    next hopen hfree =>
      split
      · exact addEvent_inv h hk hok hunreg hpc hslot hqueue (not_not.mp hopen)
      · exact hturned .notAdded (.inr (.inr rfl))

/-- A callback whose wait is decided may go. -/
theorem Inv.erase {i : ℕ} (hi : i < s.callbacks.length)
    (hout : (s.waits s.callbacks[i]).outcome ≠ 0) :
    ({ s with callbacks := s.callbacks.eraseIdx i } : Connection).Inv where
  ok := h.ok
  slotted := h.slotted
  queued := fun k hk => h.queued k (List.mem_of_mem_eraseIdx hk)
  placed := by
    intro k hk hreg hopen
    refine (h.placed k hk hreg hopen).imp_right fun hq => ?_
    obtain ⟨j, hj, rfl⟩ := List.mem_iff_getElem.mp hq
    refine List.mem_eraseIdx_iff_getElem.mpr ⟨j, hj, fun hji => hout ?_, rfl⟩
    subst hji
    exact hopen
  swept := h.swept
  called := h.called

theorem ready_inv {i : ℕ} (hi : i < s.callbacks.length) : (connection.next s (.ready i)).Inv := by
  have hnext : connection.next s (.ready i) =
      { s with callbacks := s.callbacks.eraseIdx i }.finish s.callbacks[i] := by
    simp only [connection, List.getElem?_eq_getElem hi]
  obtain ⟨hk, hreg, hnot⟩ := h.queued _ (List.getElem_mem hi)
  have hok := h.ok _ hk
  rw [hnext]
  unfold Connection.finish
  dsimp only
  split
  next hopen =>
    obtain ⟨hclaimed, hhanded, htimer⟩ := hok.woken.undecided hopen
    have hnew : Wait.Ok { s.waits s.callbacks[i] with outcome := 1, claimed := true } := by
      refine ⟨.claimed rfl rfl hhanded htimer, ?_, fun hr => ?_⟩
      · exact hok.stage.congr rfl rfl rfl (fun hh => hh) (fun _ => rfl)
          fun hh => absurd hhanded hh
      · rw [show (s.waits s.callbacks[i]).registered = false from hr] at hreg
        cases hreg
    have hset : (s.setWait s.callbacks[i]
        { s.waits s.callbacks[i] with outcome := 1, claimed := true }).Inv :=
      h.setWait hnew rfl id (fun hs => absurd hs (hnot _)) (fun _ ho => by cases ho) id
    refine Inv.erase hset (i := i) hi ?_
    show ((s.setWait s.callbacks[i] _).waits s.callbacks[i]).outcome ≠ 0
    rw [setWait_self]
    exact Nat.one_ne_zero
  next hdecided => exact h.erase hi hdecided

theorem timeout_inv (hk : k < s.count) (ht : (s.waits k).timer = .queued) : (s.timeout k).Inv := by
  have hok := h.ok k hk
  obtain ⟨hreg, hpc⟩ := hok.registered_of_timer (by rw [ht]; decide)
  have hnotfresh : (s.waits k).registered = false → False := by
    rw [hreg]
    decide
  unfold Connection.timeout
  dsimp only
  split
  next hopen =>
    obtain ⟨hclaimed, hhanded, htimer⟩ := hok.woken.undecided hopen
    refine h.setWait ⟨.won rfl hclaimed hhanded rfl, ?_, fun hr => (hnotfresh hr).elim⟩ rfl
      id (fun _ => .inr rfl) (fun _ ho => nomatch ho) id
    exact hok.stage.congr rfl rfl rfl (fun hh => hh) (fun hp => absurd hp hpc)
      fun hh => absurd hhanded hh
  next =>
    refine h.advance hk ⟨?_, ?_, fun hr => (hnotfresh hr).elim⟩ rfl rfl rfl (fun hw => ?_) id
    · exact hok.woken.setTimer rfl rfl rfl rfl (by rw [ht]; rfl)
    · exact hok.stage.congr rfl rfl rfl (fun hh => hh) (fun hp => absurd hp hpc) fun _ => rfl
    · rw [ht] at hw
      cases hw

theorem sweep_inv (hk : k < s.count) (ht : (s.waits k).timer = .won)
    (hm : s.phase.mutexFree = true) : (s.sweep k).Inv := by
  have hok := h.ok k hk
  obtain ⟨hreg, hpc⟩ := hok.registered_of_timer (by rw [ht]; decide)
  obtain ⟨houtcome, hclaimed, hhanded⟩ := hok.woken.timing_out (by rw [ht]; rfl)
  -- either this callback cancels the event, or `Close` has
  have hs' : ∃ s', (if s.phase = .live then s.cancelEvent (s.waits k).event else s) = s' ∧
      s'.Inv ∧ s'.waits = s.waits ∧ s'.slot (s.waits k).event = none := by
    refine ⟨_, rfl, ?_⟩
    split
    · exact ⟨h.cancelEvent _, ((SameCalls.refl s).cancelEvent _).1, (cancelEvent_slot _).1⟩
    next hopen =>
      refine ⟨h, rfl, h.swept (.inr ?_) _⟩
      cases hp : s.phase with
      | live => exact absurd hp hopen
      | closed => rfl
      | marked =>
        rw [hp] at hm
        cases hm
      | swept =>
        rw [hp] at hm
        cases hm
  obtain ⟨s', heq, hi, hwaits, hslot⟩ := hs'
  show ((if s.phase = .live then s.cancelEvent (s.waits k).event else s).setWait k _).Inv
  rw [heq, hwaits]
  refine hi.setWait ⟨.won houtcome hclaimed hhanded rfl, ?_, fun hr => ?_⟩ ?_ (fun _ => hreg)
    (fun hs => ?_) (fun _ ho => absurd (houtcome.symm.trans ho) (by decide)) ?_
  · exact hok.stage.congr rfl rfl rfl (fun hh => hh) (fun hp => absurd hp hpc) fun _ => rfl
  · exact absurd (hreg.symm.trans hr) (by decide)
  · rw [hwaits]
  · exact absurd (hslot.symm.trans hs) (by simp)
  · rw [hwaits]
    exact id

/-- `scheduler` is called: by the event callback that has won the exchange, -/
theorem hand_inv (hk : k < s.count) (hc : (s.waits k).claimed = true) :
    (connection.next s (.hand k)).Inv := by
  have hok := h.ok k hk
  obtain ⟨houtcome, hhanded, htimer⟩ := hok.woken.claimed_ready hc
  refine h.advance hk ⟨.ready houtcome rfl ?_ htimer, ?_, hok.unregistered⟩ rfl rfl rfl id id
  · show (s.waits k).handed ++ [_] = _
    rw [hhanded]
    rfl
  · exact hok.stage.congr rfl rfl rfl (fun _ => by simp) (fun _ => rfl) fun _ => rfl

/-- or by the timer callback. -/
theorem handLate_inv (hk : k < s.count) (ht : (s.waits k).timer = .swept) :
    (connection.next s (.handLate k)).Inv := by
  have hok := h.ok k hk
  obtain ⟨hreg, hpc⟩ := hok.registered_of_timer (by rw [ht]; decide)
  obtain ⟨houtcome, hclaimed, hhanded⟩ := hok.woken.timing_out (by rw [ht]; rfl)
  refine h.advance hk ⟨.late houtcome hclaimed ?_ rfl, ?_, fun hr => ?_⟩ rfl rfl rfl (fun hw => ?_)
    id
  · show (s.waits k).handed ++ [_] = _
    rw [hhanded]
    rfl
  · exact hok.stage.congr rfl rfl rfl (fun _ => by simp) (fun hp => absurd hp hpc) fun _ => rfl
  · exact absurd (hreg.symm.trans hr) (by decide)
  · rw [ht] at hw
    cases hw

end

/-- What `Wait` returns says who has won. -/
theorem result_eq (h : (s.waits k).outcome = 1 ∨ (s.waits k).outcome = 2) :
    s.result k = .timedOut ∧ (s.waits k).outcome = 2 ∨
      (s.result k = .closed ∨ s.result k = .success) ∧ (s.waits k).outcome = 1 := by
  unfold result
  rcases h with h | h
  · right
    rw [h, if_neg (by decide)]
    split
    · exact ⟨.inl rfl, rfl⟩
    · exact ⟨.inr rfl, rfl⟩
  · rw [h]
    exact .inl ⟨rfl, rfl⟩

/-- The call itself takes a step: it is registered, and the exchange is left alone. -/
theorem Inv.step (h : s.Inv) (hk : k < s.count)
    (hreg : (s.waits k).registered = true) (hstage : c.Stage) (hevent : c.event = (s.waits k).event)
    (hregistered : c.registered = (s.waits k).registered)
    (houtcome : c.outcome = (s.waits k).outcome) (hclaimed : c.claimed = (s.waits k).claimed)
    (hhanded : c.handed = (s.waits k).handed) (hworker : c.worker = (s.waits k).worker)
    (htimer : c.timer = (s.waits k).timer ∨ c.timer.idle = true ∧ (s.waits k).timer.idle = true)
    (hcalled : c.pc = .called → (s.waits k).pc = .called) : (s.setWait k c).Inv := by
  have hidle : c.timer.idle = (s.waits k).timer.idle := by
    rcases htimer with ht | ⟨ht, ht'⟩
    · rw [ht]
    · rw [ht, ht']
  refine h.advance hk ⟨(h.ok k hk).woken.setTimer houtcome hclaimed hhanded hworker hidle, hstage,
    fun hr => ?_⟩ hevent hregistered houtcome (fun hw => ?_) hcalled
  · exact absurd ((hregistered.trans hreg).symm.trans hr) (by decide)
  · rcases htimer with ht | ⟨-, ht'⟩
    · rw [ht, hw]
    · rw [hw] at ht'
      cases ht'

variable {a : Action}

theorem next_inv (h : s.Inv) (he : connection.enabled s a) : (connection.next s a).Inv := by
  cases a with
  | call event worker timed owner => exact call_inv h he.2 worker timed owner
  | register k added => exact register_inv h he.2.1 he.2.2.1 added
  | arm k =>
    obtain ⟨-, hk, hpc⟩ := he
    obtain ⟨hreg, htimer⟩ : _ ∧ _ := (h.ok k hk).at hpc
    refine h.step hk hreg hreg rfl rfl rfl rfl rfl rfl (.inr ⟨?_, by rw [htimer]; rfl⟩)
      (by simp)
    show (if (s.waits k).timed then TimerPc.armed else .off).idle = true
    split <;> rfl
  | yield k =>
    obtain ⟨-, hk, hpc⟩ := he
    have hreg : (s.waits k).registered = true := (h.ok k hk).at hpc
    exact h.step hk hreg ⟨hreg, rfl⟩ rfl rfl rfl rfl rfl rfl (.inl rfl) (by simp)
  | notify reported error => exact notify_keeps (fun _ e ht => ht.triggerEvent e) h reported error
  | ready i => exact ready_inv h he.2
  | hand k => exact hand_inv h he.2.1 he.2.2
  | expire k =>
    obtain ⟨-, hk, ht⟩ := he
    obtain ⟨hreg, hpc⟩ := (h.ok k hk).registered_of_timer (by rw [ht]; decide)
    refine h.step hk hreg ?_ rfl rfl rfl rfl rfl rfl (.inr ⟨rfl, by rw [ht]; rfl⟩) id
    exact (h.ok k hk).stage.congr rfl rfl rfl (fun hh => hh) (fun hp => absurd hp hpc) fun _ => rfl
  | timeout k => exact timeout_inv h he.2.1 he.2.2
  | sweep k => exact sweep_inv h he.2.1 he.2.2.1 he.2.2.2
  | handLate k => exact handLate_inv h he.2.1 he.2.2
  | resume k =>
    obtain ⟨-, hk, hpc, hhanded⟩ := he
    obtain ⟨hreg, hyielded⟩ : _ ∧ _ := (h.ok k hk).at hpc
    exact h.step hk hreg ⟨hreg, hyielded, hhanded⟩ rfl rfl rfl rfl rfl rfl (.inl rfl) (by simp)
  | cancelTimer k =>
    obtain ⟨-, hk, hpc⟩ := he
    obtain ⟨hreg, hyielded, hhanded⟩ : _ ∧ _ ∧ _ := (h.ok k hk).at hpc
    refine h.step hk hreg ⟨hreg, hyielded, hhanded⟩ rfl rfl rfl rfl rfl rfl ?_ (by simp)
    show (if (s.waits k).timer = .armed then TimerPc.off else (s.waits k).timer) = _ ∨
      (if (s.waits k).timer = .armed then TimerPc.off else (s.waits k).timer).idle = true ∧ _
    split
    next ht => exact .inr ⟨rfl, by rw [ht]; rfl⟩
    · exact .inl rfl
  | leave k =>
    obtain ⟨-, hk, hpc⟩ := he
    obtain ⟨hreg, hyielded, hhanded⟩ : _ ∧ _ ∧ _ := (h.ok k hk).at hpc
    refine h.step hk hreg (.inr ⟨hreg, hyielded, hhanded, ?_⟩) rfl rfl rfl rfl rfl rfl (.inl rfl)
      (by simp)
    exact result_eq ((h.ok k hk).woken.decided hhanded)
  | close => exact ⟨h.ok, h.slotted, h.queued, h.placed, (fun hp => by
      rcases hp with hp | hp <;> cases hp), h.called⟩
  | cancelAll => exact cancelAll_inv h
  | shut => exact ⟨h.ok, h.slotted, h.queued, h.placed, fun _ => h.swept (.inl he.2), h.called⟩

theorem init_inv (h : connection.init s) : s.Inv := by
  obtain ⟨hcount, hphase, hslot, hcallbacks, -⟩ := h
  have hnone : ∀ k, ¬k < s.count := by omega
  refine ⟨fun k hk => absurd hk (hnone k), fun e k hk => ?_, fun k hk => ?_,
    fun k hk => absurd hk (hnone k), fun _ => hslot, fun k hk => absurd hk (hnone k)⟩
  · rw [hslot e] at hk
    cases hk
  · rw [hcallbacks] at hk
    cases hk

/-! ### No panic -/

theorem register_quiet (h : s.Inv) (hp : s.panicked = false) (hk : k < s.count)
    (hpc : (s.waits k).pc = .called) (added : Bool) : (s.register k added).panicked = false := by
  unfold Connection.register
  dsimp only
  rw [(h.called k hk hpc).1]
  split
  · exact hp
  · split
    next hsome => exact absurd hsome Bool.false_ne_true
    · split <;> exact hp

theorem triggerEvent_quiet {e : Event} (h : (s.slot e).isSome = true) :
    (s.triggerEvent e).panicked = s.panicked ∧
      ∀ e', e' ≠ e → (s.triggerEvent e).slot e' = s.slot e' := by
  obtain ⟨k, hk⟩ := Option.isSome_iff_exists.mp h
  unfold Connection.triggerEvent
  rw [hk]
  exact ⟨rfl, fun e' he => Function.update_of_ne he ..⟩

theorem cancelEvent_quiet (e : Event) : (s.cancelEvent e).panicked = s.panicked := by
  unfold Connection.cancelEvent
  split
  next h => exact (triggerEvent_quiet h).1
  · rfl

theorem notify_quiet (hp : s.panicked = false) {reported : Event → Bool} {error : Bool}
    (hok : Unmixed s (.notify reported error)) : (s.notify reported error).panicked = false := by
  unfold Connection.notify
  dsimp only
  rcases hok with hall | hnone
  · split
    · -- the event triggered first leaves the other one registered
      have hread : (if s.realEvents reported error .read then s.triggerEvent .read
          else s).panicked = false ∧ (s.realEvents reported error .write = true →
          ((if s.realEvents reported error .read then s.triggerEvent .read
            else s).slot .write).isSome = true) := by
        split
        next hreal =>
          obtain ⟨hquiet, hslot⟩ := triggerEvent_quiet (hall .read hreal)
          refine ⟨hquiet.trans hp, fun hw => ?_⟩
          rw [hslot .write (by decide)]
          exact hall .write hw
        · exact ⟨hp, hall .write⟩
      rw [hread.1, if_neg Bool.false_ne_true]
      split
      next hreal => exact (triggerEvent_quiet (hread.2 hreal)).1.trans hread.1
      · exact hread.1
    · exact hp
  · have hhit : ∀ e, (s.realEvents reported error e && (s.slot e).isSome) = false := by
      intro e
      cases hreal : s.realEvents reported error e with
      | false => rfl
      | true => exact hnone e hreal
    split
    next hsome =>
      rw [hhit, hhit] at hsome
      cases hsome
    · exact hp

theorem quiet_next (h : s.Inv) (he : connection.enabled s a) (hok : Unmixed s a) :
    (connection.next s a).panicked = false := by
  cases a with
  | register k added => exact register_quiet h he.1 he.2.1 he.2.2.1 added
  | notify reported error => exact notify_quiet he.1 hok
  | ready i =>
    simp only [connection]
    split
    · exact he.1
    · unfold Connection.finish
      dsimp only
      split <;> exact he.1
  | timeout k =>
    change (s.timeout k).panicked = false
    unfold Connection.timeout
    dsimp only
    split <;> exact he.1
  | sweep k =>
    change (if s.phase = .live then s.cancelEvent (s.waits k).event else s).panicked = false
    split
    · exact (cancelEvent_quiet _).trans he.1
    · exact he.1
  | cancelAll => exact ((cancelEvent_quiet _).trans (cancelEvent_quiet _)).trans he.1
  | _ => exact he.1

/-- Runs without mixed notifications. -/
theorem reach_inv (h : connection.ReachVia Unmixed s) : s.Inv ∧ s.panicked = false :=
  h.invariant (I := fun s => s.Inv ∧ s.panicked = false)
    (fun _ hs => ⟨init_inv hs, hs.2.2.2.2⟩)
    fun _ _ hs he hok => ⟨next_inv hs.1 he, quiet_next hs.1 he hok⟩

/-! ### After `Close` -/

/-- `closed_` is set, and every call registered in `s'` was already registered in `s`. -/
def StaysClosed (s s' : Connection) : Prop :=
  s'.phase ≠ .live ∧ ∀ k < s'.count, (s'.waits k).registered = true →
    k < s.count ∧ (s.waits k).registered = true

theorem SameCalls.staysClosed (h : s.SameCalls s') (hp : s.phase ≠ .live) : s.StaysClosed s' := by
  obtain ⟨hwaits, hcount, hphase⟩ := h
  refine ⟨hphase ▸ hp, fun k hk hreg => ?_⟩
  rw [hwaits] at hreg
  exact ⟨hcount ▸ hk, hreg⟩

theorem setWait_staysClosed (hs : s.SameCalls s') (hp : s.phase ≠ .live)
    (hc : c.registered = (s.waits k).registered) : s.StaysClosed (s'.setWait k c) := by
  obtain ⟨hwaits, hcount, hphase⟩ := hs
  refine ⟨hphase.symm ▸ hp, fun j hj hreg => ⟨hcount ▸ hj, ?_⟩⟩
  by_cases hjk : j = k
  · rw [hjk, setWait_self] at hreg
    rw [hjk, ← hc]
    exact hreg
  · rwa [setWait_ne c hjk, hwaits] at hreg

/-- Once `closed_` is set it stays set, and no call gets registered any more. -/
theorem closed_next (hp : s.phase ≠ .live) : s.StaysClosed (connection.next s a) := by
  have hrefl := SameCalls.refl s
  cases a with
  | call event worker timed owner =>
    refine ⟨hp, fun k hk hreg => ?_⟩
    change (Function.update s.waits s.count _ k).registered = true at hreg
    rcases Nat.lt_succ_iff_lt_or_eq.mp hk with hk | rfl
    · rw [Function.update_of_ne (Nat.ne_of_lt hk)] at hreg
      exact ⟨hk, hreg⟩
    · rw [Function.update_self] at hreg
      cases hreg
  | register k added =>
    show s.StaysClosed (s.register k added)
    unfold Connection.register
    dsimp only
    rw [if_pos hp]
    exact setWait_staysClosed hrefl hp rfl
  | notify reported error =>
    exact (notify_keeps (fun _ e ht => ht.triggerEvent e) hrefl reported error).staysClosed hp
  | ready i =>
    simp only [connection]
    split
    · exact hrefl.staysClosed hp
    · have herase : s.SameCalls { s with callbacks := s.callbacks.eraseIdx i } := ⟨rfl, rfl, rfl⟩
      unfold Connection.finish
      dsimp only
      split
      · exact setWait_staysClosed herase hp rfl
      · exact herase.staysClosed hp
  | timeout k =>
    show s.StaysClosed (s.timeout k)
    unfold Connection.timeout
    dsimp only
    split <;> exact setWait_staysClosed hrefl hp rfl
  | sweep k =>
    show s.StaysClosed (s.sweep k)
    unfold Connection.sweep
    dsimp only
    rw [if_neg hp]
    exact setWait_staysClosed hrefl hp rfl
  | close => exact ⟨fun hlive => (by cases hlive), fun k hk hreg => ⟨hk, hreg⟩⟩
  | cancelAll =>
    obtain ⟨hwaits, hcount, -⟩ := (hrefl.cancelEvent .read).cancelEvent .write
    refine ⟨fun hlive => (by cases hlive), fun k hk hreg => ?_⟩
    have hk' : k < s.cancelAll.count := hk
    have hreg' : (s.cancelAll.waits k).registered = true := hreg
    exact ⟨hcount ▸ hk', hwaits ▸ hreg'⟩
  | shut => exact ⟨fun hlive => (by cases hlive), fun k hk hreg => ⟨hk, hreg⟩⟩
  | _ => exact setWait_staysClosed hrefl hp rfl

end Connection

/-- **Connection waits wake exactly once.**  In a run whose workers find what they are notified of
registered altogether or not at all the process does not panic.  The Fiber of a wait is handed over
at most once and to its own worker, and by the time the call returns exactly once if it has yielded
and not at all otherwise.  Until then its callback is registered or queued, or a winner of the
exchange is about to hand it over; after `Close` it is no longer just registered, and no wait gets
registered.  The result is `ETIMEDOUT` only if the timer callback has won, and otherwise tells
whether the connection was closed. -/
theorem wait_woken_once {s : Connection} (h : connection.ReachVia Unmixed s) {k : ℕ}
    (hk : k < s.count) :
    s.panicked = false ∧
    ((s.waits k).handed = [] ∨ (s.waits k).handed = [(s.waits k).worker]) ∧
    (∀ r, (s.waits k).pc = .returned r →
      (s.waits k).handed = if (s.waits k).yielded then [(s.waits k).worker] else []) ∧
    ((s.waits k).registered = true → (s.waits k).handed = [] →
      s.slot (s.waits k).event = some k ∨ k ∈ s.callbacks ∨ (s.waits k).Waking) ∧
    (s.phase = .swept ∨ s.phase = .closed → (s.waits k).registered = true →
      (s.waits k).handed = [] → k ∈ s.callbacks ∨ (s.waits k).Waking) ∧
    (s.phase ≠ .live → ∀ t, connection.Later (fun _ _ => True) s t → ∀ j < t.count,
      (t.waits j).registered = true → j < s.count ∧ (s.waits j).registered = true) ∧
    ((s.waits k).pc = .returned .timedOut → (s.waits k).outcome = 2) ∧
    (connection.enabled s (.leave k) →
      ((s.waits k).outcome = 1 ∨ (s.waits k).outcome = 2) ∧
      ((connection.next s (.leave k)).waits k).pc = .returned
        (if (s.waits k).outcome = 2 then .timedOut
          else if s.phase ≠ .live then .closed else .success)) := by
  obtain ⟨hi, hquiet⟩ := Connection.reach_inv h
  have hok := hi.ok k hk
  have hplaced : (s.waits k).registered = true → (s.waits k).handed = [] →
      s.slot (s.waits k).event = some k ∨ k ∈ s.callbacks ∨ (s.waits k).Waking := by
    intro hreg hhanded
    rcases hok.woken.waiting_or_waking hhanded with hopen | hwaking
    · exact (hi.placed k hk hreg hopen).imp_right .inl
    · exact .inr (.inr hwaking)
  refine ⟨hquiet, hok.woken.handed_eq, fun r hr => ?_, hplaced, fun hp hreg hhanded => ?_,
    fun hp t hl j hj hreg => ?_, fun hr => ?_, fun he => ?_⟩
  · rcases hok.at hr with ⟨hreg, -⟩ | ⟨-, hyielded, hhanded, -⟩
    · obtain ⟨houtcome, -, hyielded⟩ := hok.unregistered hreg
      rw [hyielded]
      exact (hok.woken.undecided houtcome).2.1
    · rw [show (s.waits k).yielded = true from hyielded]
      exact hok.woken.handed_eq.resolve_left hhanded
  · refine (hplaced hreg hhanded).resolve_left ?_
    rw [hi.swept hp]
    exact nofun
  · have hlater := hl.invariant (I := fun t => t.phase ≠ .live ∧ ∀ j < t.count,
        (t.waits j).registered = true → j < s.count ∧ (s.waits j).registered = true)
      (fun u a hu _ _ => ⟨(Connection.closed_next hu.1).1, fun j hj hreg => by
        obtain ⟨hj', hreg'⟩ := (Connection.closed_next hu.1).2 j hj hreg
        exact hu.2 j hj' hreg'⟩)
      ⟨hp, fun j hj hreg => ⟨hj, hreg⟩⟩
    exact hlater.2 j hj hreg
  · rcases hok.at hr with ⟨-, hr' | hr' | hr'⟩ | ⟨-, -, -, ⟨-, houtcome⟩ | ⟨hr' | hr', -⟩⟩
    · cases hr'
    · cases hr'
    · cases hr'
    · exact houtcome
    · cases hr'
    · cases hr'
  · obtain ⟨-, -, hhanded⟩ : _ ∧ _ ∧ _ := hok.at he.2.2
    refine ⟨hok.woken.decided hhanded, ?_⟩
    show ((s.setWait k _).waits k).pc = _
    rw [Connection.setWait_self]
    rfl

/-- A reader on worker 3 and a writer on worker 4 wait. -/
def bothWait : List Action :=
  [.call .read 3 true true, .register 0 true, .arm 0, .yield 0,
    .call .write 4 true true, .register 1 true, .arm 1, .yield 1]

/-- `epoll` reports both events, and the reader returns; it waits again, the connection is closed
under it, and its timer expires before the Fiber is handed over. -/
def closeTrace : List Action :=
  bothWait ++ [.notify (fun _ => true) false, .ready 0, .hand 0, .resume 0, .cancelTimer 0,
    .leave 0, .ready 0, .hand 1, .call .read 3 true true, .register 2 true, .arm 2, .yield 2,
    .close, .cancelAll, .ready 0, .expire 2, .timeout 2, .hand 2, .shut, .resume 2, .cancelTimer 2,
    .leave 2]

theorem wait_woken_once_closed :
    let s := connection.run .fresh closeTrace
    s.panicked = false ∧ (s.waits 1).handed = [4] ∧ (s.waits 2).pc = .returned .closed ∧
      (s.waits 2).handed = [3] := by
  intro s
  have hs : connection.ReachVia Unmixed s := Machine.reachVia_run
    (.start ⟨rfl, rfl, fun _ => rfl, rfl, rfl⟩) (by decide +kernel)
  have hwriter := wait_woken_once (k := 1) hs (by decide +kernel)
  have hreader := wait_woken_once (k := 2) hs (by decide +kernel)
  have hreturned : (s.waits 2).pc = .returned .closed := by decide +kernel
  exact ⟨hwriter.1, hwriter.2.1.resolve_left (by decide +kernel), hreturned,
    hreader.2.2.1 .closed hreturned⟩

/-- Both are reported, and before the worker comes to the notification the reader's timer callback
cancels the read event: the worker triggers it all the same, and the process ends before either
Fiber is handed over. -/
theorem wait_never_woken : ∃ s, connection.Reach s ∧ (∀ a, ¬connection.enabled s a) ∧
    ∀ k < 2, (s.waits k).pc = .yielded ∧ (s.waits k).handed = [] := by
  refine ⟨connection.run .fresh (bothWait ++ [.expire 0, .timeout 0, .sweep 0,
    .notify (fun _ => true) false]), Machine.reachVia_run
    (.start ⟨rfl, rfl, fun _ => rfl, rfl, rfl⟩) (by decide +kernel), fun a he => ?_,
    by decide +kernel⟩
  exact absurd he.1 (by decide +kernel)

end PulsarRuntime.Net
