import Mathlib.Data.List.Nodup
import Mathlib.Data.Nat.Basic
import PulsarRuntime.Sync.WaitQueue

/-!
# The waiters of a queue, in every run

`waiters_` holds calls that are still waiting, each once, and a call that has returned is not
among them.  `Listed` says this; unlike the invariant of `Sync.Resume` it holds in every run,
whatever the schedulers and timeouts of the calls.  It decides what the wake-ups do:
`wakeOneLocked` completes the front waiter, `wakeAllLocked` completes them all and counts them
(`Listed.wakeAllLocked_eq`).
-/

namespace PulsarRuntime.Sync

variable {F : Type}

/-- The steps `WaitQueue` takes by itself for a call that waits. -/
def Action.internal : Action F → Bool
  | .arm _ | .yield _ | .resume _ _ | .finish _ | .timeout _ => true
  | _ => false

/-- No waiter is added, no call comes back, and a waiter still waiting is still queued. -/
structure Kept (q q' : WaitQueue F) : Prop where
  count : q'.count = q.count
  waiters : q'.waiters.Sublist q.waiters
  fiber : ∀ c, (q'.calls c).fiber = (q.calls c).fiber
  done : ∀ c, (q.calls c).pc.done = true → (q'.calls c).pc.done = true
  waiting : ∀ c, (q'.calls c).waiting = true →
    (q.calls c).waiting = true ∧ (c ∈ q.waiters → c ∈ q'.waiters)

namespace WaitQueue

variable {q : WaitQueue F} {c : ℕ}

/-! ### Field lemmas -/

@[simp] theorem setCall_calls_self (q : WaitQueue F) (c : ℕ) (k : Call F) :
    (q.setCall c k).calls c = k := Function.update_self ..

theorem setCall_calls_ne (q : WaitQueue F) {c d : ℕ} (k : Call F) (h : d ≠ c) :
    (q.setCall c k).calls d = q.calls d := Function.update_of_ne h ..

theorem complete_calls (q : WaitQueue F) (c d : ℕ) (error : ℤ) :
    (q.complete c error).calls d =
      if d = c then { q.calls c with waiting := false, error := error } else q.calls d := by
  unfold complete setCall
  dsimp only
  rw [Function.update_apply]

theorem completeLocked_of_not_mem (q : WaitQueue F) (hc : c ∉ q.waiters) (error : ℤ) :
    q.completeLocked c error = (q, false) := by
  unfold completeLocked
  rw [if_pos hc, ite_self]

theorem wakeOneLocked_nil (hq : q.waiters = []) (error : ℤ) :
    q.wakeOneLocked error = (q, false) := by
  unfold wakeOneLocked
  rw [hq]

theorem complete_waiters_cons {rest : List ℕ} (hq : q.waiters = c :: rest) (error : ℤ) :
    (q.complete c error).waiters = rest := by
  show q.waiters.erase c = rest
  rw [hq, List.erase_cons_head]

/-- The queue after `wakeAllLocked`. -/
def emptied (q : WaitQueue F) (error : ℤ) : WaitQueue F where
  calls c :=
    if c ∈ q.waiters then { q.calls c with waiting := false, error := error } else q.calls c
  count := q.count
  waiters := []
  ready := q.ready ++ q.waiters
  handed := q.handed ++ q.waiters

/-- A call that enters takes the next number and, if it has to wait, the last place. -/
theorem enter_spec (q : WaitQueue F) (fiber : F) (scheduler : Option SchedulerKind) (thread : ℤ)
    (timeout : ℕ) :
    (q.enter fiber scheduler thread timeout).count = q.count + 1 ∧
      ((q.enter fiber scheduler thread timeout).waiters = q.waiters ∨
        (q.enter fiber scheduler thread timeout).waiters = q.waiters ++ [q.count]) := by
  unfold enter
  cases scheduler with
  | none => exact ⟨rfl, .inl rfl⟩
  | some kind =>
    dsimp only
    split
    · exact ⟨rfl, .inl rfl⟩
    · exact ⟨rfl, .inr rfl⟩

theorem enter_calls_of_lt (q : WaitQueue F) (fiber : F) (scheduler : Option SchedulerKind)
    (thread : ℤ) (timeout : ℕ) (hc : c < q.count) :
    (q.enter fiber scheduler thread timeout).calls c = q.calls c := by
  have hold : ∀ k : Call F, (q.addCall k).calls c = q.calls c :=
    fun k => setCall_calls_ne q k (Nat.ne_of_lt hc)
  unfold enter
  cases scheduler with
  | none => exact hold _
  | some kind =>
    dsimp only
    split
    · exact hold _
    · exact hold _

theorem completeLocked_count (q : WaitQueue F) (c : ℕ) (error : ℤ) :
    (q.completeLocked c error).1.count = q.count := by
  unfold completeLocked
  split
  · rfl
  split <;> rfl

theorem wakeOneLocked_count (q : WaitQueue F) (error : ℤ) :
    (q.wakeOneLocked error).1.count = q.count := by
  unfold wakeOneLocked
  split
  · rfl
  · exact completeLocked_count ..

/-! ### The invariant -/

structure Listed (q : WaitQueue F) : Prop where
  nodup : q.waiters.Nodup
  bound : ∀ c ∈ q.waiters, c < q.count
  waiting : ∀ c ∈ q.waiters, (q.calls c).waiting = true
  running : ∀ c ∈ q.waiters, (q.calls c).pc.done = false

namespace Listed

section

variable (h : Listed q)
include h

theorem completeLocked_of_mem (hc : c ∈ q.waiters) (error : ℤ) :
    q.completeLocked c error = (q.complete c error, true) := by
  unfold WaitQueue.completeLocked
  rw [if_neg (by rw [h.waiting c hc]; decide), if_neg (not_not_intro hc)]

theorem wakeOneLocked_cons {rest : List ℕ} (hq : q.waiters = c :: rest)
    (error : ℤ) : q.wakeOneLocked error = (q.complete c error, true) := by
  unfold WaitQueue.wakeOneLocked
  rw [hq]
  exact h.completeLocked_of_mem (by rw [hq]; exact List.mem_cons_self) error

theorem complete (c : ℕ) (error : ℤ) : Listed (q.complete c error) := by
  have hother : ∀ d ∈ q.waiters.erase c,
      d ∈ q.waiters ∧ (q.complete c error).calls d = q.calls d := by
    intro d hd
    obtain ⟨hdc, hd⟩ := h.nodup.mem_erase_iff.mp hd
    exact ⟨hd, by rw [complete_calls, if_neg hdc]⟩
  refine ⟨h.nodup.erase c, fun d hd => h.bound d (hother d hd).1, fun d hd => ?_, fun d hd => ?_⟩
  · rw [(hother d hd).2]
    exact h.waiting d (hother d hd).1
  · rw [(hother d hd).2]
    exact h.running d (hother d hd).1

theorem completeLocked (c : ℕ) (error : ℤ) : Listed (q.completeLocked c error).1 := by
  by_cases hc : c ∈ q.waiters
  · rw [h.completeLocked_of_mem hc]
    exact h.complete c error
  · rw [completeLocked_of_not_mem q hc]
    exact h

theorem not_mem_completeLocked (c : ℕ) (error : ℤ) : c ∉ (q.completeLocked c error).1.waiters := by
  by_cases hc : c ∈ q.waiters
  · rw [h.completeLocked_of_mem hc]
    exact h.nodup.not_mem_erase
  · rw [completeLocked_of_not_mem q hc]
    exact hc

theorem wakeOneLocked (error : ℤ) : Listed (q.wakeOneLocked error).1 := by
  unfold WaitQueue.wakeOneLocked
  split
  · exact h
  · exact h.completeLocked _ error

/-- A step that changes a call but not whether it waits. -/
theorem setCall {k : Call F} (hw : k.waiting = (q.calls c).waiting)
    (hdone : c ∈ q.waiters → k.pc.done = false) : Listed (q.setCall c k) := by
  refine ⟨h.nodup, h.bound, fun d hd => ?_, fun d hd => ?_⟩ <;> by_cases hdc : d = c
  · subst hdc
    rw [setCall_calls_self, hw]
    exact h.waiting d hd
  · rw [setCall_calls_ne q k hdc]
    exact h.waiting d hd
  · subst hdc
    rw [setCall_calls_self]
    exact hdone hd
  · rw [setCall_calls_ne q k hdc]
    exact h.running d hd

theorem addCall (k : Call F) : Listed (q.addCall k) := by
  have hold : ∀ d ∈ q.waiters, (q.addCall k).calls d = q.calls d :=
    fun d hd => setCall_calls_ne q k (Nat.ne_of_lt (h.bound d hd))
  refine ⟨h.nodup, fun d hd => Nat.lt_succ_of_lt (h.bound d hd), fun d hd => ?_, fun d hd => ?_⟩
  · rw [hold d hd]
    exact h.waiting d hd
  · rw [hold d hd]
    exact h.running d hd

theorem publish {k : Call F} (hw : k.waiting = true) (hk : k.pc.done = false) :
    Listed (q.publish k) := by
  have hnew : (q.publish k).calls q.count = k := setCall_calls_self q q.count k
  have hadd := h.addCall k
  refine ⟨?_, ?_, ?_, ?_⟩
  · have hfresh : q.count ∉ q.waiters := fun hm => Nat.lt_irrefl _ (h.bound _ hm)
    exact List.Nodup.append h.nodup (List.nodup_singleton _) (by simpa using hfresh)
  all_goals
    intro d hd
    rcases List.mem_append.mp hd with hd | hd
  · exact hadd.bound d hd
  · rw [List.mem_singleton.mp hd]
    exact Nat.lt_succ_self _
  · exact hadd.waiting d hd
  · rw [List.mem_singleton.mp hd, hnew, hw]
  · exact hadd.running d hd
  · rw [List.mem_singleton.mp hd, hnew, hk]

theorem enter (fiber : F) (scheduler : Option SchedulerKind) (thread : ℤ)
    (timeout : ℕ) : Listed (q.enter fiber scheduler thread timeout) := by
  unfold WaitQueue.enter
  cases scheduler with
  | none => exact h.addCall _
  | some kind =>
    dsimp only
    split
    · exact h.addCall _
    · exact h.publish rfl rfl

end

theorem emptied_nil (hq : q.waiters = []) (error : ℤ) : q.emptied error = q := by
  obtain ⟨calls, count, waiters, ready, handed⟩ := q
  obtain rfl : waiters = [] := hq
  simp [emptied]

/-- Completing the front waiter first makes no difference. -/
theorem complete_emptied (h : Listed q) {rest : List ℕ} (hq : q.waiters = c :: rest) (error : ℤ) :
    (q.complete c error).emptied error = q.emptied error := by
  have hrest := complete_waiters_cons hq error
  have hcalls : ((q.complete c error).emptied error).calls = (q.emptied error).calls := by
    funext d
    have hc : c ∉ rest := by
      have hnodup := h.nodup
      rw [hq] at hnodup
      exact (List.nodup_cons.mp hnodup).1
    show (if d ∈ (q.complete c error).waiters then _ else _) = if d ∈ q.waiters then _ else _
    rw [hrest, hq, complete_calls]
    by_cases hdc : d = c
    · subst hdc
      simp [hc]
    · simp [hdc]
  have hready : (q.ready ++ [c]) ++ (q.complete c error).waiters = q.ready ++ q.waiters := by
    rw [hrest, hq, List.append_assoc, List.singleton_append]
  have hhanded : (q.handed ++ [c]) ++ (q.complete c error).waiters = q.handed ++ q.waiters := by
    rw [hrest, hq, List.append_assoc, List.singleton_append]
  show WaitQueue.mk _ _ _ _ _ = WaitQueue.mk _ _ _ _ _
  exact congr (congr (congrArg (fun calls => WaitQueue.mk calls q.count []) hcalls) hready) hhanded

/-- The rounds of `wakeAllLocked` complete the waiters from the front. -/
theorem wakeAllLoop_eq (error : ℤ) (fuel : ℕ) (h : Listed q) (hf : q.waiters.length ≤ fuel) :
    WaitQueue.wakeAllLoop error fuel q = (q.emptied error, q.waiters.length) := by
  induction fuel generalizing q with
  | zero =>
    have hq := List.eq_nil_of_length_eq_zero (Nat.le_zero.mp hf)
    rw [emptied_nil hq, hq]
    rfl
  | succ fuel ih =>
    cases hq : q.waiters with
    | nil =>
      rw [emptied_nil hq, WaitQueue.wakeAllLoop, wakeOneLocked_nil hq]
      rfl
    | cons c rest =>
      have hrest := complete_waiters_cons hq error
      rw [hq, List.length_cons] at hf
      have hround := ih (h.complete c error) (by rw [hrest]; omega)
      rw [WaitQueue.wakeAllLoop, h.wakeOneLocked_cons hq, if_pos rfl, hround,
        h.complete_emptied hq, hrest]
      rfl

theorem wakeAllLocked_eq (h : Listed q) (error : ℤ) :
    q.wakeAllLocked error = (q.emptied error, q.waiters.length) :=
  wakeAllLoop_eq error _ h le_rfl

theorem emptied (q : WaitQueue F) (error : ℤ) : Listed (q.emptied error) :=
  ⟨List.nodup_nil, fun _ hc => absurd hc List.not_mem_nil, fun _ hc => absurd hc List.not_mem_nil,
    fun _ hc => absurd hc List.not_mem_nil⟩

theorem arm (h : Listed q) (c : ℕ) : Listed (q.arm c) := by
  unfold WaitQueue.arm
  split
  · exact h.setCall rfl fun _ => rfl
  split
  · exact h.setCall rfl fun _ => rfl
  · exact (h.completeLocked c ENOTSUP).setCall rfl
      fun hc => absurd hc (h.not_mem_completeLocked c ENOTSUP)

theorem finish (h : Listed q) (c : ℕ) : Listed (q.finish c) := by
  unfold WaitQueue.finish
  dsimp only
  split
  · exact (h.completeLocked c ECANCELED).setCall rfl
      fun hc => absurd hc (h.not_mem_completeLocked c ECANCELED)
  · rename_i hw
    exact h.setCall rfl fun hc => absurd (h.waiting c hc) hw

theorem disarm (h : Listed q) (c : ℕ) : Listed (q.setCall c { q.calls c with timer := false }) :=
  h.setCall rfl (h.running c)

theorem timeout (h : Listed q) (c : ℕ) : Listed (q.timeout c) :=
  (h.disarm c).completeLocked c ETIMEDOUT

/-- **The waiters in every run.**  No condition on the calls is needed. -/
theorem next (h : Listed q) (a : Action F) : Listed ((waitQueue F).next q a) := by
  cases a with
  | enter fiber scheduler thread timeout => exact h.enter fiber scheduler thread timeout
  | arm c => exact h.arm c
  | yield c => exact h.setCall rfl fun _ => rfl
  | resume c task =>
    have hset : Listed (q.setPc c .resumed) := h.setCall rfl fun _ => rfl
    exact ⟨hset.nodup, hset.bound, hset.waiting, hset.running⟩
  | finish c => exact h.finish c
  | timeout c => exact h.timeout c
  | wakeOne error => exact h.wakeOneLocked error
  | wakeAll error =>
    show Listed (q.wakeAllLocked error).1
    rw [h.wakeAllLocked_eq]
    exact .emptied q error

theorem init (h : (waitQueue F).init q) : Listed q := by
  obtain ⟨-, hwaiters, -⟩ := h
  constructor <;> simp [hwaiters]

end Listed

end WaitQueue

/-! ### Steps that add no waiter -/

theorem Kept.complete (q : WaitQueue F) (c : ℕ) (error : ℤ) : Kept q (q.complete c error) where
  count := rfl
  waiters := List.erase_sublist
  fiber := by
    intro d
    rw [WaitQueue.complete_calls]
    split
    · rename_i hdc
      rw [hdc]
    · rfl
  done := by
    intro d hd
    rw [WaitQueue.complete_calls]
    split
    · rename_i hdc
      rw [← hdc]
      exact hd
    · exact hd
  waiting := by
    intro d
    rw [WaitQueue.complete_calls]
    split
    · intro hw
      cases hw
    · rename_i hdc
      exact fun hw => ⟨hw, fun hm => (List.mem_erase_of_ne hdc).mpr hm⟩

namespace Kept

variable {q q' q'' : WaitQueue F} {c : ℕ}

theorem refl (q : WaitQueue F) : Kept q q :=
  ⟨rfl, .refl _, fun _ => rfl, fun _ h => h, fun _ h => ⟨h, fun h => h⟩⟩

theorem trans (h : Kept q q') (h' : Kept q' q'') : Kept q q'' where
  count := h'.count.trans h.count
  waiters := h'.waiters.trans h.waiters
  fiber := fun c => (h'.fiber c).trans (h.fiber c)
  done := fun c hd => h'.done c (h.done c hd)
  waiting := by
    intro c hw
    obtain ⟨hw', hm'⟩ := h'.waiting c hw
    obtain ⟨hw, hm⟩ := h.waiting c hw'
    exact ⟨hw, fun hc => hm' (hm hc)⟩

/-- A step that changes one call's program point or timer only. -/
theorem setCall (q : WaitQueue F) {k : Call F} (hf : k.fiber = (q.calls c).fiber)
    (hw : k.waiting = (q.calls c).waiting)
    (hd : (q.calls c).pc.done = true → k.pc.done = true) : Kept q (q.setCall c k) := by
  have hcalls : ∀ d, ((q.setCall c k).calls d).fiber = (q.calls d).fiber ∧
      ((q.setCall c k).calls d).waiting = (q.calls d).waiting ∧
      ((q.calls d).pc.done = true → ((q.setCall c k).calls d).pc.done = true) := by
    intro d
    by_cases hdc : d = c
    · subst hdc
      rw [WaitQueue.setCall_calls_self]
      exact ⟨hf, hw, hd⟩
    · rw [WaitQueue.setCall_calls_ne q k hdc]
      exact ⟨rfl, rfl, fun h => h⟩
  refine ⟨rfl, .refl _, fun d => (hcalls d).1, fun d => (hcalls d).2.2, fun d hd => ?_⟩
  rw [(hcalls d).2.1] at hd
  exact ⟨hd, fun h => h⟩

theorem completeLocked (h : q.Listed) (c : ℕ) (error : ℤ) :
    Kept q (q.completeLocked c error).1 := by
  by_cases hc : c ∈ q.waiters
  · rw [h.completeLocked_of_mem hc]
    exact .complete q c error
  · rw [WaitQueue.completeLocked_of_not_mem q hc]
    exact refl q

theorem emptied (q : WaitQueue F) (error : ℤ) : Kept q (q.emptied error) where
  count := rfl
  waiters := List.nil_sublist _
  fiber := by
    intro c
    show (if c ∈ q.waiters then _ else q.calls c).fiber = _
    split <;> rfl
  done := by
    intro c hd
    show (if c ∈ q.waiters then _ else q.calls c).pc.done = true
    split <;> exact hd
  waiting := by
    intro c hw
    have hw : (if c ∈ q.waiters then { q.calls c with waiting := false, error := error }
      else q.calls c).waiting = true := hw
    split at hw
    · cases hw
    · rename_i hc
      exact ⟨hw, fun hm => absurd hm hc⟩

theorem internal (h : q.Listed) {a : Action F} (ha : a.internal = true)
    (he : (waitQueue F).enabled q a) : Kept q ((waitQueue F).next q a) := by
  cases a with
  | enter => cases ha
  | wakeOne => cases ha
  | wakeAll => cases ha
  | arm c =>
    have hopen : (q.calls c).pc.done = false := by rw [he.2]; rfl
    show Kept q (q.arm c)
    unfold WaitQueue.arm
    split
    · exact setCall q rfl rfl fun hd => by rw [hopen] at hd; cases hd
    split
    · exact setCall q rfl rfl fun hd => by rw [hopen] at hd; cases hd
    · exact (completeLocked h c ENOTSUP).trans (setCall _ rfl rfl fun _ => rfl)
  | yield c =>
    have hopen : (q.calls c).pc.done = false := by rw [he.2]; rfl
    exact setCall q rfl rfl fun hd => by rw [hopen] at hd; cases hd
  | resume c task =>
    have hopen : (q.calls c).pc.done = false := by rw [he.1.2]; rfl
    have hset : Kept q (q.setPc c .resumed) :=
      setCall q rfl rfl fun hd => by rw [hopen] at hd; cases hd
    exact ⟨hset.count, hset.waiters, hset.fiber, hset.done, hset.waiting⟩
  | finish c =>
    show Kept q (q.finish c)
    unfold WaitQueue.finish
    dsimp only
    split
    · exact (completeLocked h c ECANCELED).trans (setCall _ rfl rfl fun _ => rfl)
    · exact setCall q rfl rfl fun _ => rfl
  | timeout c =>
    have hset : Kept q (q.setCall c { q.calls c with timer := false }) :=
      setCall q rfl rfl fun hd => hd
    exact hset.trans (completeLocked (h.disarm c) c ETIMEDOUT)

end Kept

end PulsarRuntime.Sync
