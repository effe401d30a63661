import PulsarRuntime.Events.Model

/-!
# What triggering leaves behind

The event table as a partial map from descriptor and event to what is scheduled when the event
happens.  Readiness, `cancelEvent` and `cancelAll` take entries out of it, and every entry taken
out has been scheduled; only `addEvent` puts one in.
-/

namespace PulsarRuntime.Events.Manager

variable {s s' s'' : Manager} {p : ℕ} {event : Event}

/-- What is registered for an event. -/
def registered (s : Manager) (p : ℕ) (event : Event) : Option EventContext :=
  if (s.contexts p).events event then some ((s.contexts p).context event) else none

theorem setEvent_registered (set : Bool) (ctx : EventContext) (q : ℕ) (d : Event) :
    (s.setEvent p event set ctx).registered q d =
      if q = p ∧ d = event then (if set then some ctx else none) else s.registered q d := by
  by_cases hq : q = p
  · subst hq
    simp only [registered, setEvent_self, true_and]
    by_cases hd : d = event
    · subst hd
      simp only [Function.update_self, if_true]
    · simp only [Function.update_of_ne hd, if_neg hd]
  · rw [if_neg (fun h => hq h.1)]
    simp only [registered, (setEvent_touches s p event set ctx).contexts q hq]

/-- Entries are taken out of the table, and scheduled. -/
structure Triggers (s s' : Manager) : Prop where
  registered : ∀ p e c, s'.registered p e = some c → s.registered p e = some c
  delivered : ∀ p e c, s.registered p e = some c → s'.registered p e = some c ∨ c ∈ s'.scheduled
  scheduled : ∀ c ∈ s.scheduled, c ∈ s'.scheduled

namespace Triggers

/-- The table and the queues are the same. -/
theorem of_eq (hcontexts : s'.contexts = s.contexts) (hscheduled : s'.scheduled = s.scheduled) :
    Triggers s s' := by
  have hreg : s'.registered = s.registered := by
    funext q d
    simp only [Manager.registered, hcontexts]
  refine ⟨fun p e c hc => ?_, fun p e c hc => .inl ?_, fun c hc => ?_⟩
  · rwa [hreg] at hc
  · rwa [hreg]
  · rwa [hscheduled]

theorem refl (s : Manager) : Triggers s s := of_eq rfl rfl

theorem trans (h : Triggers s s') (h' : Triggers s' s'') : Triggers s s'' := by
  refine ⟨fun p e c hc => h.registered p e c (h'.registered p e c hc), fun p e c hc => ?_,
    fun c hc => h'.scheduled c (h.scheduled c hc)⟩
  rcases h.delivered p e c hc with hreg | hsched
  · exact h'.delivered p e c hreg
  · exact .inr (h'.scheduled c hsched)

theorem triggerEvent (s : Manager) (p : ℕ) (event : Event) :
    Triggers s (s.triggerEvent p event) := by
  simp only [Manager.triggerEvent]
  split
  · rename_i hset
    refine ⟨fun q d c hc => ?_, fun q d c hc => ?_, fun c hc => List.mem_append_left _ hc⟩
    · have hc' : (s.setEvent p event false .reset).registered q d = some c := hc
      rw [setEvent_registered] at hc'
      split at hc'
      · cases hc'
      · exact hc'
    · by_cases hat : q = p ∧ d = event
      · obtain ⟨rfl, rfl⟩ := hat
        rw [Manager.registered, if_pos hset] at hc
        cases hc
        exact .inr (List.mem_append_right _ (by simp))
      · left
        show (s.setEvent p event false .reset).registered q d = some c
        rw [setEvent_registered, if_neg hat, hc]
  · exact of_eq rfl rfl

theorem triggerCounted (s : Manager) (p : ℕ) (event : Event) :
    Triggers s (s.triggerCounted p event) := by
  have h := triggerEvent s p event
  simp only [Manager.triggerCounted]
  split
  · exact h
  · exact h.trans (of_eq rfl rfl)

theorem triggerRegistered (s : Manager) (p : ℕ) (event : Event) :
    Triggers s (s.triggerRegistered p event) := by
  simp only [Manager.triggerRegistered]
  split
  · exact triggerCounted s p event
  · exact refl s

theorem cancelEvent (s : Manager) (p : ℕ) (event : Event) (ok : Bool) :
    Triggers s (s.cancelEvent p event ok).1 := by
  simp only [Manager.cancelEvent]
  split
  · exact refl s
  · split
    · exact refl s
    · exact triggerCounted s p event

theorem cancelAll (s : Manager) (p : ℕ) (ok : Bool) : Triggers s (s.cancelAll p ok).1 := by
  have h := (triggerRegistered s p .read).trans
    (triggerRegistered (s.triggerRegistered p .read) p .write)
  simp only [Manager.cancelAll]
  split
  · exact refl s
  · split
    · exact refl s
    · split
      · exact h.trans (of_eq rfl rfl)
      · exact h

theorem triggerReal (s : Manager) (p : ℕ) (event : Event) (real : Bool) :
    Triggers s (s.triggerReal p event real) := by
  simp only [Manager.triggerReal]
  split
  · exact refl s
  · split
    · exact triggerCounted s p event
    · exact refl s

theorem notify (s : Manager) (n : Notification) (ok : Bool) : Triggers s (s.notify n ok) := by
  simp only [Manager.notify]
  split
  · exact refl s
  · split
    · exact refl s
    · exact (triggerReal ..).trans (triggerReal ..)

end Triggers

/-! ### What is gone after a cancellation -/

theorem triggerCounted_registered (hset : (s.contexts p).events event = true) :
    (s.triggerCounted p event).registered p event = none := by
  have hself : (s.setEvent p event false .reset).registered p event = none := by
    rw [setEvent_registered, if_pos ⟨rfl, rfl⟩]
    rfl
  simp only [triggerCounted, triggerEvent, hset, if_true]
  split <;> exact hself

theorem triggerRegistered_registered (s : Manager) (p : ℕ) (event : Event) :
    (s.triggerRegistered p event).registered p event = none := by
  simp only [triggerRegistered]
  split
  · exact triggerCounted_registered ‹_›
  · rename_i hset
    rw [registered, if_neg hset]

theorem cancelEvent_registered (s : Manager) (p : ℕ) (event : Event) :
    (s.cancelEvent p event true).1.registered p event = none := by
  simp only [cancelEvent, Bool.not_true, Bool.false_eq_true, if_false]
  split
  · rename_i hset
    rw [registered, if_neg (by simpa using hset)]
  · rename_i hset
    exact triggerCounted_registered (by simpa using hset)

/-- A registration that a trigger does not bring back stays away. -/
theorem Triggers.registered_none (h : Triggers s s') (hnone : s.registered p event = none) :
    s'.registered p event = none := by
  cases hreg : s'.registered p event with
  | none => rfl
  | some c => exact absurd ((h.registered p event c hreg).symm.trans hnone) (by simp)

theorem cancelAll_registered (s : Manager) (p : ℕ) (event : Event) :
    (s.cancelAll p true).1.registered p event = none := by
  have hboth : ((s.triggerRegistered p .read).triggerRegistered p .write).registered p event =
      none := by
    cases event with
    | read =>
      apply (Triggers.triggerRegistered (s.triggerRegistered p .read) p .write).registered_none
      exact triggerRegistered_registered s p .read
    | write => exact triggerRegistered_registered (s.triggerRegistered p .read) p .write
  simp only [cancelAll, Bool.not_true, Bool.false_eq_true, if_false]
  split
  · rename_i hnone
    simp only [Bool.not_eq_true', Bool.or_eq_false_iff] at hnone
    cases event with
    | read => rw [registered, if_neg (by simp [hnone.1])]
    | write => rw [registered, if_neg (by simp [hnone.2])]
  · split
    · exact hboth
    · exact hboth

/-! ### Adding an event -/

/-- A call of `addEvent` that does not end the process. -/
theorem addEvent_cases (p : ℕ) (event : Event) (cb : Option ℕ) (caller : Caller) (ok : Bool)
    (hpanic : (s.addEvent p event cb caller ok).1.panicked = none) :
    (s.addEvent p event cb caller ok = (s, false)) ∨
    (s.registered p event = none ∧ (s.addEvent p event cb caller ok).2 = true ∧
      (s.addEvent p event cb caller ok).1.scheduled = s.scheduled ∧
      ∀ q d, (s.addEvent p event cb caller ok).1.registered q d =
        if q = p ∧ d = event then some (.of cb caller) else s.registered q d) := by
  simp only [addEvent] at hpanic ⊢
  split at hpanic
  · cases hpanic
  · rename_i hset
    rw [if_neg hset]
    split at hpanic
    · rename_i hok
      rw [if_pos hok]
      exact .inl rfl
    · rename_i hok
      rw [if_neg hok]
      split at hpanic
      · cases hpanic
      · rename_i hfree
        rw [if_neg hfree]
        refine .inr ⟨?_, rfl, rfl, fun q d => ?_⟩
        · rw [registered, if_neg hset]
        · exact setEvent_registered true _ q d

end PulsarRuntime.Events.Manager
