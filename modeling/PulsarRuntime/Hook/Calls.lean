import PulsarRuntime.Events.Trigger
import PulsarRuntime.Hook.Io

/-!
# The hooked calls side by side

A call sees the steps of the others only through the event table, and there only in its own entry
and in what the scheduler has been given for its Fiber: its Fiber is in no other call
(`Distinct`).  What holds of every call by itself is therefore proved from the steps of one call
(`each_op`).
-/

namespace PulsarRuntime.Hook

open Events (Manager Caller EventContext)
open Events.Manager (Triggers)

/-- What a call sees of a step of the event table that it does not take itself. -/
structure Foreign (m m' : Manager) (op : IoOp) : Prop where
  registered : m'.registered op.fd op.kind.event = some op.context →
    m.registered op.fd op.kind.event = some op.context
  delivered : m.registered op.fd op.kind.event = some op.context →
    m'.registered op.fd op.kind.event = some op.context ∨ op.context ∈ m'.scheduled
  scheduled : op.context ∈ m.scheduled → op.context ∈ m'.scheduled

theorem foreign_of_triggers {m m' : Manager} (h : Triggers m m') (op : IoOp) : Foreign m m' op :=
  ⟨h.registered _ _ _, h.delivered _ _ _, h.scheduled _⟩

theorem foreign_refl (m : Manager) (op : IoOp) : Foreign m m op :=
  foreign_of_triggers (.refl m) op

/-- Another Fiber adds an event. -/
theorem foreign_addEvent {m : Manager} {op op' : IoOp} {ok : Bool}
    (hne : op'.caller.fiber ≠ op.caller.fiber)
    (hpanic : (m.addEvent op'.fd op'.kind.event none op'.caller ok).1.panicked = none) :
    Foreign m (m.addEvent op'.fd op'.kind.event none op'.caller ok).1 op := by
  rcases Manager.addEvent_cases _ _ _ _ _ hpanic with hsame | ⟨hfree, _, hsched, hreg⟩
  · rw [hsame]
    exact foreign_refl m op
  · refine ⟨fun h => ?_, fun h => .inl ?_, fun h => hsched ▸ h⟩
    · rw [hreg] at h
      split at h
      · have hctx : op'.context = op.context := Option.some.inj h
        have hfiber := congrArg EventContext.fiber hctx
        exact absurd (Option.some.inj hfiber) hne
      · exact h
    · rw [hreg, if_neg, h]
      rintro ⟨hfd, hevent⟩
      rw [hfd, hevent, hfree] at h
      cases h

/-- Another Fiber is taken from the queue. -/
theorem foreign_eraseIdx {m : Manager} {op : IoOp} {i fiber : ℕ} (hne : fiber ≠ op.caller.fiber)
    (hi : m.scheduled[i]?.bind EventContext.fiber = some fiber) :
    Foreign m { m with scheduled := m.scheduled.eraseIdx i } op := by
  refine ⟨fun h => h, fun h => .inl h, fun h => ?_⟩
  obtain ⟨j, hj⟩ := List.mem_iff_getElem?.mp h
  rw [List.mem_eraseIdx_iff_getElem?]
  refine ⟨j, ?_, hj⟩
  rintro rfl
  rw [hj] at hi
  exact hne (Option.some.inj hi).symm

/-- The call whose step it is. -/
def IoAction.actor : IoAction → Option ℕ
  | .lookup k | .issue k _ | .arm k | .register k _ _ | .giveUp k _ | .yield k | .resume _ k
  | .cancelTimer k | .check k | .settle k _ _ | .expire k _ | .lock k _ | .mark k _
  | .cancelEvent k _ _ => some k
  | _ => none

/-- A step with which the call comes neither to `addEvent` nor behind it, and that leaves its timers
alone. -/
structure Advances (op op' : IoOp) : Prop where
  kind : op'.kind = op.kind
  fd : op'.fd = op.fd
  caller : op'.caller = op.caller
  timers : op'.timers = op.timers
  rounds : op'.rounds = op.rounds
  cancelled : op'.cancelled = op.cancelled
  pc : op'.pc ≠ .armed ∧ op'.pc ≠ .registered ∧ op'.pc ≠ .parked

namespace Advances

variable {op : IoOp}

theorem setPc (op : IoOp) {pc : IoPc} (h : pc ≠ .armed ∧ pc ≠ .registered ∧ pc ≠ .parked) :
    Advances op (op.setPc pc) :=
  ⟨rfl, rfl, rfl, rfl, rfl, rfl, h⟩

theorem lookup (op : IoOp) (ctx : Option FdCtx) : Advances op (op.lookup ctx) := by
  simp only [IoOp.lookup]
  split
  · exact setPc op (by simp)
  · split
    · exact setPc op (by simp)
    · exact setPc op (by simp)
    · split
      · exact setPc op (by simp)
      · split
        · exact setPc op (by simp)
        · exact ⟨rfl, rfl, rfl, rfl, rfl, rfl, by simp⟩

theorem issue (h : op.pc = .direct ∨ op.pc = .trying) (r : Reply) : Advances op (op.issue r) := by
  have hpc : op.pc ≠ .armed ∧ op.pc ≠ .registered ∧ op.pc ≠ .parked := by
    rcases h with h | h <;> simp [h]
  simp only [IoOp.issue]
  split
  · exact ⟨rfl, rfl, rfl, rfl, rfl, rfl, by simp [IoOp.setPc]⟩
  · split
    · exact ⟨rfl, rfl, rfl, rfl, rfl, rfl, hpc⟩
    · split
      · exact ⟨rfl, rfl, rfl, rfl, rfl, rfl, by simp [IoOp.setPc]⟩
      · exact ⟨rfl, rfl, rfl, rfl, rfl, rfl, by simp [IoOp.setPc]⟩

theorem check (op : IoOp) : Advances op op.check := by
  simp only [IoOp.check]
  split
  · exact setPc op (by simp)
  · split
    · exact setPc op (by simp)
    · exact setPc op (by simp)

end Advances

/-- The same call; it does not run again once it has returned. -/
structure SameCall (op op' : IoOp) : Prop where
  kind : op'.kind = op.kind
  fd : op'.fd = op.fd
  caller : op'.caller = op.caller
  ended : op.pc.hasReturned = true → op'.pc.hasReturned = true

namespace SameCall

variable {op op' : IoOp}

theorem refl (op : IoOp) : SameCall op op := ⟨rfl, rfl, rfl, fun h => h⟩

theorem context (h : SameCall op op') : op'.context = op.context := by
  rw [IoOp.context, h.caller, IoOp.context]

/-- A call that is running takes a step. -/
theorem of_running (hrun : op.pc.hasReturned = false) (hkind : op'.kind = op.kind)
    (hfd : op'.fd = op.fd) (hcaller : op'.caller = op.caller) : SameCall op op' :=
  ⟨hkind, hfd, hcaller, fun h => absurd (hrun.symm.trans h) (by simp)⟩

theorem setTimer (op : IoOp) (t : ℕ) (pc : CallbackPc) : SameCall op (op.setTimer t pc) :=
  ⟨rfl, rfl, rfl, fun h => h⟩

theorem of_advances (hrun : op.pc.hasReturned = false) (h : Advances op op') : SameCall op op' :=
  of_running hrun h.kind h.fd h.caller

theorem cancelTimer (op : IoOp) : SameCall op op.cancelTimer := by
  simp only [IoOp.cancelTimer]
  split
  · exact setTimer ..
  · exact refl op

theorem cancelTimer_setPc (hrun : op.pc.hasReturned = false) (pc : IoPc) :
    SameCall op (op.cancelTimer.setPc pc) :=
  of_running hrun (cancelTimer op).kind (cancelTimer op).fd (cancelTimer op).caller

theorem mark (op : IoOp) (t : ℕ) : SameCall op (op.mark t) := by
  simp only [IoOp.mark]
  split
  · exact setTimer ..
  · exact ⟨rfl, rfl, rfl, fun h => h⟩

end SameCall

namespace Hooks

variable {K : Kernel} {s : Hooks} {a : IoAction} {k : ℕ}

theorem setOp_self (s : Hooks) (k : ℕ) (op : IoOp) : (s.setOp k op).ops k = op :=
  Function.update_self ..

/-- What holds of the call a step writes holds in the new state. -/
theorem setOp_own {op : IoOp} (P : IoOp → Prop) (h : P op) : P ((s.setOp k op).ops k) :=
  (setOp_self s k op).symm ▸ h

theorem running_at {pc : IoPc} (hpc : (s.ops k).pc = pc) (hlive : pc.hasReturned = false) :
    (s.ops k).pc.hasReturned = false :=
  hpc ▸ hlive

/-- The steps of a call are steps of the same call. -/
theorem next_actor (he : (hooks K).enabled s a) (ha : a.actor = some k) :
    k < s.count ∧ SameCall (s.ops k) (((hooks K).next s a).ops k) := by
  cases a <;> cases ha <;> refine ⟨he.2.1, setOp_own (SameCall _) ?_⟩
  case lookup => exact .of_advances (running_at he.2.2 rfl) (.lookup ..)
  case issue =>
    exact .of_advances (he.2.2.elim (running_at · rfl) (running_at · rfl)) (.issue he.2.2 _)
  case arm => exact .of_running (running_at he.2.2 rfl) rfl rfl rfl
  case register => exact .of_running (running_at he.2.2 rfl) rfl rfl rfl
  case giveUp => exact .cancelTimer_setPc (running_at he.2.2 rfl) _
  case yield => exact .of_running (running_at he.2.2 rfl) rfl rfl rfl
  case resume => exact .of_running (running_at he.2.2.1 rfl) rfl rfl rfl
  case cancelTimer => exact .cancelTimer_setPc (running_at he.2.2 rfl) _
  case check => exact .of_advances (running_at he.2.2 rfl) (.check _)
  case settle => exact .of_running (running_at he.2.2 rfl) rfl rfl rfl
  case expire => exact .setTimer ..
  case lock => exact .setTimer ..
  case mark => exact .mark ..
  case cancelEvent => exact .setTimer ..

theorem next_other {j : ℕ} (hj : j < s.count) (ha : a.actor ≠ some j) :
    ((hooks K).next s a).ops j = s.ops j := by
  have hne {k : ℕ} (h : (some k : Option ℕ) ≠ some j) : j ≠ k := fun hjk => h (hjk ▸ rfl)
  cases a with
  | call kind fd caller hook => exact Function.update_of_ne (by omega) ..
  | lookup k => exact Function.update_of_ne (hne ha) ..
  | issue k r => exact Function.update_of_ne (hne ha) ..
  | arm k => exact Function.update_of_ne (hne ha) ..
  | register k ok errno => exact Function.update_of_ne (hne ha) ..
  | giveUp k errno => exact Function.update_of_ne (hne ha) ..
  | yield k => exact Function.update_of_ne (hne ha) ..
  | resume i k => exact Function.update_of_ne (hne ha) ..
  | cancelTimer k => exact Function.update_of_ne (hne ha) ..
  | check k => exact Function.update_of_ne (hne ha) ..
  | settle k r error => exact Function.update_of_ne (hne ha) ..
  | expire k t => exact Function.update_of_ne (hne ha) ..
  | lock k t => exact Function.update_of_ne (hne ha) ..
  | mark k t => exact Function.update_of_ne (hne ha) ..
  | cancelEvent k t ok => exact Function.update_of_ne (hne ha) ..
  | _ => rfl

theorem next_sameCall (he : (hooks K).enabled s a) {j : ℕ} (hj : j < s.count) :
    SameCall (s.ops j) (((hooks K).next s a).ops j) := by
  by_cases ha : a.actor = some j
  · exact (next_actor he ha).2
  · rw [next_other hj ha]
    exact .refl _

theorem next_count (hcall : ∀ kind fd caller hook, a ≠ .call kind fd caller hook) :
    ((hooks K).next s a).count = s.count := by
  cases a with
  | call kind fd caller hook => exact absurd rfl (hcall kind fd caller hook)
  | _ => rfl

/-! ### One call of a Fiber at a time -/

/-- Two calls that have not returned are those of different Fibers. -/
def Distinct (s : Hooks) : Prop :=
  ∀ j k, j < s.count → k < s.count → (s.ops j).pc.hasReturned = false →
    (s.ops k).pc.hasReturned = false → (s.ops j).caller.fiber = (s.ops k).caller.fiber → j = k

theorem running_before (he : (hooks K).enabled s a) {j : ℕ} (hj : j < s.count)
    (hrun : (((hooks K).next s a).ops j).pc.hasReturned = false) :
    (s.ops j).pc.hasReturned = false := by
  cases h : (s.ops j).pc.hasReturned with
  | false => rfl
  | true => exact absurd ((next_sameCall he hj).ended h) (by simp [hrun])

theorem Distinct.next (h : s.Distinct) (he : (hooks K).enabled s a) :
    ((hooks K).next s a).Distinct := by
  by_cases hcall : ∀ kind fd caller hook, a ≠ .call kind fd caller hook
  · intro i j hi hj hirun hjrun hfiber
    rw [next_count hcall] at hi hj
    rw [(next_sameCall he hi).caller, (next_sameCall he hj).caller] at hfiber
    exact h i j hi hj (running_before he hi hirun) (running_before he hj hjrun) hfiber
  · simp only [not_forall, not_not] at hcall
    obtain ⟨kind, fd, caller, hook, rfl⟩ := hcall
    have hfresh : ∀ j < s.count, (s.ops j).pc.hasReturned = false →
        (s.ops j).caller.fiber ≠ caller.fiber := by
      intro j hj hrun hfiber
      exact absurd (he.2 j hj hfiber) (by simp [hrun])
    have hold {j : ℕ} (hj : j < s.count) : ((hooks K).next s (.call kind fd caller hook)).ops j =
        s.ops j := Function.update_of_ne (by omega) ..
    have hnew : ((hooks K).next s (.call kind fd caller hook)).ops s.count =
        .new kind fd caller hook := Function.update_self ..
    intro i j hi hj hirun hjrun hfiber
    rcases Nat.lt_succ_iff_lt_or_eq.mp hi with hi | rfl <;>
      rcases Nat.lt_succ_iff_lt_or_eq.mp hj with hj | rfl
    · rw [hold hi] at hirun hfiber
      rw [hold hj] at hjrun hfiber
      exact h i j hi hj hirun hjrun hfiber
    · rw [hold hi] at hirun hfiber
      rw [hnew] at hfiber
      exact absurd hfiber (hfresh i hi hirun)
    · rw [hold hj] at hjrun hfiber
      rw [hnew] at hfiber
      exact absurd hfiber.symm (hfresh j hj hjrun)
    · rfl

theorem distinct_of_init (h : (hooks K).init s) : s.Distinct := by
  intro j k hj
  rw [h.2.2.2.2.1] at hj
  exact absurd hj (by omega)

/-- What the running calls see of a step they do not take. -/
theorem next_foreign (h : s.Distinct) (he : (hooks K).enabled s a)
    (hpanic : ((hooks K).next s a).events.panicked = none) {j : ℕ} (hj : j < s.count)
    (hrun : (s.ops j).pc.hasReturned = false) (ha : a.actor ≠ some j) :
    Foreign s.events ((hooks K).next s a).events (s.ops j) := by
  have hne {k : ℕ} {pc : IoPc} (hk : k < s.count) (hpc : (s.ops k).pc = pc)
      (hlive : pc.hasReturned = false) (hkj : (some k : Option ℕ) ≠ some j) :
      (s.ops k).caller.fiber ≠ (s.ops j).caller.fiber :=
    fun hfiber => hkj (congrArg some (h k j hk hj (hpc ▸ hlive) hrun hfiber))
  cases a with
  | notify n ok => exact foreign_of_triggers (.notify s.events n ok) _
  | register k ok errno => exact foreign_addEvent (hne he.2.1 he.2.2 rfl ha) hpanic
  | resume i k => exact foreign_eraseIdx (hne he.2.1 he.2.2.1 rfl ha) he.2.2.2
  | cancelEvent k t ok => exact foreign_of_triggers (.cancelEvent ..) _
  | cancelAll c ok =>
    simp only [hooks, Hooks.cancelAll]
    split
    · exact foreign_of_triggers (.cancelAll ..) _
    · exact foreign_refl ..
  | _ => exact foreign_refl ..

/-! ### The rule -/

/-- **Rule for the calls.**  What holds of a new call, is kept by the call's own steps, and does not
depend on what others do to the table, holds of every call as long as the process lives. -/
theorem each_op {ok : Hooks → IoAction → Prop} {P : Manager → IoOp → Prop}
    (hnew : ∀ m kind fd caller hook, P m (.new kind fd caller hook))
    (hforeign : ∀ m m' op, Foreign m m' op → P m op → P m' op)
    (hended : ∀ m m' op, op.pc.hasReturned = true → P m op → P m' op)
    (hown : ∀ s a k, (hooks K).enabled s a → ok s a → a.actor = some k →
      ((hooks K).next s a).events.panicked = none → P s.events (s.ops k) →
      P ((hooks K).next s a).events (((hooks K).next s a).ops k))
    (h : (hooks K).ReachVia ok s) :
    s.Distinct ∧ (s.events.panicked = none → ∀ k < s.count, P s.events (s.ops k)) := by
  refine h.invariant (I := fun s => s.Distinct ∧
    (s.events.panicked = none → ∀ k < s.count, P s.events (s.ops k))) ?_ ?_
  · intro s hs
    refine ⟨distinct_of_init hs, fun _ k hk => ?_⟩
    rw [hs.2.2.2.2.1] at hk
    exact absurd hk (by omega)
  · rintro s a ⟨hd, hp⟩ he hok
    refine ⟨hd.next he, fun hpanic k hk => ?_⟩
    by_cases hlt : k < s.count
    · have hk' := hp he.1 k hlt
      by_cases ha : a.actor = some k
      · exact hown s a k he hok ha hpanic hk'
      · rw [next_other hlt ha]
        cases hrun : (s.ops k).pc.hasReturned with
        | false => exact hforeign _ _ _ (next_foreign hd he hpanic hlt hrun ha) hk'
        | true => exact hended _ _ _ hrun hk'
    · by_cases hcall : ∀ kind fd caller hook, a ≠ .call kind fd caller hook
      · rw [next_count hcall] at hk
        exact absurd hk hlt
      · simp only [not_forall, not_not] at hcall
        obtain ⟨kind, fd, caller, hook, rfl⟩ := hcall
        have hk' : k = s.count := by
          have : k < s.count + 1 := hk
          omega
        subst hk'
        have hop : ((hooks K).next s (.call kind fd caller hook)).ops s.count =
            .new kind fd caller hook := Function.update_self ..
        rw [hop]
        exact hnew _ kind fd caller hook

end Hooks

end PulsarRuntime.Hook
