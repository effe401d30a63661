import PulsarRuntime.Hook.Recycled

/-!
# The timer of a parked call

The timer of a round is armed before the event is added.  A callback that looks at
`tinfo->cnacelled` in between marks the call and finds no event to cancel; the Fiber then parks
with nobody left to wake it up but the descriptor itself.  If the callbacks keep out of that
window, a parked call with a timeout always has a callback to come.
-/

namespace PulsarRuntime.Hook

open Events (Manager Caller EventContext)
open Events.Manager (Triggers)

/-- The call has still to add its event, or makes its system call. -/
def IoPc.exposed : IoPc → Bool
  | .called | .direct | .trying | .blocked | .armed => true
  | _ => false

/-- The callback has not looked at `tinfo->cnacelled`. -/
def CallbackPc.early : CallbackPc → Bool
  | .armed | .queued | .locked => true
  | _ => false

/-- The callback is still to cancel the event. -/
def CallbackPc.pending : CallbackPc → Bool
  | .armed | .queued | .locked | .marked => true
  | _ => false

theorem IoPc.not_armed_of_exposed {pc : IoPc} (h : pc.exposed = false) : pc ≠ .armed := by
  rintro rfl
  cases h

theorem CallbackPc.pending_of_early {pc : CallbackPc} (h : pc.early = true) :
    pc.pending = true := by
  cases pc <;> first | rfl | cases h

structure Punctual (m : Manager) (op : IoOp) : Prop where
  fresh : ∀ t, op.rounds ≤ t → op.timers t = .off
  exposed : op.pc.exposed = true → op.cancelled = 0
  early : op.pc = .armed → op.timed = true → op.current.early = true
  marked : op.pc.hasReturned = false → op.cancelled ≠ 0 →
    op.current = .marked ∨ op.current = .done
  pending : op.pc.waiting = true → op.timed = true →
    m.registered op.fd op.kind.event = some op.context → op.current.pending = true

namespace Punctual

variable {m m' : Manager} {op op' : IoOp} {t : ℕ}

theorem foreign (hf : Foreign m m' op) (h : Punctual m op) : Punctual m' op :=
  ⟨h.fresh, h.exposed, h.early, h.marked,
    fun hw ht hreg => h.pending hw ht (hf.registered hreg)⟩

/-- A call that is not marked, and neither armed nor waiting. -/
theorem of_unmarked (hfresh : ∀ t, op.rounds ≤ t → op.timers t = .off) (hc : op.cancelled = 0)
    (harmed : op.pc ≠ .armed) (hwait : op.pc.waiting = false) : Punctual m op :=
  ⟨hfresh, fun _ => hc, fun h => absurd h harmed, fun _ h => absurd hc h,
    fun hw => absurd (hwait.symm.trans hw) (by simp)⟩

theorem of_returned (hfresh : ∀ t, op.rounds ≤ t → op.timers t = .off)
    (hret : op.pc.hasReturned = true) : Punctual m op := by
  refine ⟨hfresh, ?_, ?_, ?_, ?_⟩ <;> revert hret <;> cases op.pc <;>
    simp [IoPc.hasReturned, IoPc.exposed, IoPc.waiting]

section

variable (h : Punctual m op)
include h

theorem advances (hc : op.cancelled = 0) (ha : Advances op op') : Punctual m op' := by
  apply of_unmarked _ (ha.cancelled.trans hc) ha.pc.1 ha.not_waiting
  rw [ha.timers, ha.rounds]
  exact h.fresh

/-- The call goes on to a point where it has its event added already, or needs none. -/
theorem setPc (hrun : op.pc.hasReturned = false) {pc : IoPc}
    (hexposed : pc.exposed = false) (hwait : pc.waiting = true → op.pc.waiting = true) :
    Punctual m (op.setPc pc) := by
  refine ⟨h.fresh, fun he => ?_, fun hpc _ => ?_, fun _ => h.marked hrun, fun hw => ?_⟩
  · exact absurd (hexposed.symm.trans he) (by simp)
  · exact absurd hpc (IoPc.not_armed_of_exposed hexposed)
  · exact h.pending (hwait hw)

/-! ### The call's own steps -/

theorem lookup (hpc : op.pc = .called) (ctx : Option FdCtx) : Punctual m (op.lookup ctx) := by
  apply h.advances _ (.lookup op ctx)
  apply h.exposed
  rw [hpc]
  rfl

theorem issue (hpc : op.pc = .direct ∨ op.pc = .trying) (r : Reply) : Punctual m (op.issue r) := by
  apply h.advances _ (.issue hpc r)
  apply h.exposed
  rcases hpc with hpc | hpc <;> rw [hpc] <;> rfl

theorem arm (hpc : op.pc = .blocked) : Punctual m op.arm := by
  have hc : op.cancelled = 0 := h.exposed (by rw [hpc]; rfl)
  refine ⟨fun t ht => ?_, fun _ => hc, fun _ htimed => ?_, fun _ hne => absurd hc hne,
    fun hw => by cases hw⟩
  · have hlt : op.rounds < t := ht
    exact (Function.update_of_ne (by omega) ..).trans (h.fresh t (by omega))
  · have htimed' : op.timed = true := htimed
    have hcur : op.arm.current = .armed := by
      show Function.update op.timers op.rounds (if op.timed then _ else _) (op.rounds + 1 - 1) = _
      rw [Nat.add_sub_cancel, Function.update_self, htimed']
      rfl
    rw [hcur]
    rfl

/-- `addEvent` comes back: in time, since no callback has looked yet. -/
theorem register (hpc : op.pc = .armed) {pc : IoPc}
    (hexposed : pc.exposed = false) : Punctual m' (op.setPc pc) := by
  have hc : op.cancelled = 0 := h.exposed (by rw [hpc]; rfl)
  refine ⟨h.fresh, fun _ => hc, fun hpc' _ => ?_, fun _ hne => absurd hc hne,
    fun _ htimed _ => CallbackPc.pending_of_early (h.early hpc htimed)⟩
  exact absurd hpc' (IoPc.not_armed_of_exposed hexposed)

theorem cancelTimer_fresh (t : ℕ) (ht : op.cancelTimer.rounds ≤ t) :
    op.cancelTimer.timers t = .off := by
  simp only [IoOp.cancelTimer] at ht ⊢
  split
  · rename_i hcur
    rw [if_pos hcur] at ht
    show Function.update op.timers (op.rounds - 1) .off t = .off
    by_cases hlast : t = op.rounds - 1
    · rw [hlast, Function.update_self]
    · rw [Function.update_of_ne hlast]
      exact h.fresh t ht
  · rename_i hcur
    rw [if_neg hcur] at ht
    exact h.fresh t ht

theorem cancelTimer (hrun : op.pc.hasReturned = false) {pc : IoPc}
    (hexposed : pc.exposed = false) (hwait : pc.waiting = false) :
    Punctual m (op.cancelTimer.setPc pc) := by
  refine ⟨h.cancelTimer_fresh, fun he => ?_, fun hpc _ => ?_, fun _ hne => ?_, fun hw => ?_⟩
  · exact absurd (hexposed.symm.trans he) (by simp)
  · exact absurd hpc (IoPc.not_armed_of_exposed hexposed)
  · -- a marked call has no armed timer in its round
    have hcancelled : op.cancelTimer.cancelled = op.cancelled := by
      simp only [IoOp.cancelTimer]
      split <;> rfl
    have hcur := h.marked hrun (fun hc => hne (hcancelled.trans hc))
    have hsame : op.cancelTimer = op := by
      rw [IoOp.cancelTimer, if_neg]
      intro harmed
      rw [harmed] at hcur
      rcases hcur with hcur | hcur <;> cases hcur
    show op.cancelTimer.current = .marked ∨ op.cancelTimer.current = .done
    rw [hsame]
    exact hcur
  · exact absurd (hwait.symm.trans hw) (by simp)

theorem check : Punctual m op.check := by
  by_cases hc : op.cancelled = 0
  · exact h.advances hc (.check op)
  · rw [IoOp.check, if_pos hc]
    exact .of_returned h.fresh rfl

/-! ### The steps of a callback -/

/-- Timers of past rounds do not count. -/
theorem setTimer_fresh (ht : op.timers t ≠ .off) (pc : CallbackPc) :
    ∀ u, (op.setTimer t pc).rounds ≤ u → (op.setTimer t pc).timers u = .off := by
  intro u hu
  have hne : u ≠ t := by
    rintro rfl
    exact ht (h.fresh u hu)
  exact (Function.update_of_ne hne ..).trans (h.fresh u hu)

end

theorem setTimer_current (op : IoOp) (t : ℕ) (pc : CallbackPc) :
    (op.setTimer t pc).current = if op.rounds - 1 = t then pc else op.current := by
  show Function.update op.timers t pc (op.rounds - 1) = _
  rw [Function.update_apply]
  rfl

/-- A callback goes on without looking at `tinfo->cnacelled`. -/
theorem setTimer_early (h : Punctual m op) (ht : (op.timers t).early = true) {pc : CallbackPc}
    (hpc : pc.early = true) : Punctual m (op.setTimer t pc) := by
  have hoff : op.timers t ≠ .off := by
    intro hoff
    rw [hoff] at ht
    cases ht
  refine ⟨h.setTimer_fresh hoff pc, h.exposed, fun harmed htimed => ?_, fun hrun hne => ?_,
    fun hw htimed hreg => ?_⟩
  · rw [setTimer_current]
    split
    · exact hpc
    · exact h.early harmed htimed
  · rw [setTimer_current, if_neg]
    · exact h.marked hrun hne
    · rintro rfl
      have hcur : op.current.early = true := ht
      rcases h.marked hrun hne with hm | hm <;> rw [hm] at hcur <;> cases hcur
  · rw [setTimer_current]
    split
    · exact CallbackPc.pending_of_early hpc
    · exact h.pending hw htimed hreg

theorem lock (h : Punctual m op) (ht : op.timers t = .queued) : Punctual m (op.lock t) := by
  simp only [IoOp.lock]
  split
  · rename_i hret
    exact of_returned (h.setTimer_fresh (by rw [ht]; simp) _) hret
  · exact h.setTimer_early (by rw [ht]; rfl) rfl

/-- The callback of the call's round looks while the call has its event added. -/
theorem mark (h : Punctual m op) (ht : op.timers t = .locked) (hexposed : op.pc.exposed = false)
    (hcur : op.pc.hasReturned = false → t + 1 = op.rounds) : Punctual m (op.mark t) := by
  have hoff : op.timers t ≠ .off := by
    rw [ht]
    simp
  cases hret : op.pc.hasReturned with
  | true =>
    simp only [IoOp.mark]
    split
    · exact of_returned (h.setTimer_fresh hoff _) hret
    · exact of_returned (h.setTimer_fresh hoff .marked) hret
  | false =>
    have hlast : op.rounds - 1 = t := by
      have := hcur hret
      omega
    have hcurrent : op.current = .locked := by
      rw [IoOp.current, hlast, ht]
    have hzero : op.cancelled = 0 := by
      by_contra hne
      rcases h.marked hret hne with hm | hm <;> rw [hm] at hcurrent <;> cases hcurrent
    have hnew : (op.setTimer t .marked).current = .marked := by
      rw [setTimer_current, if_pos hlast]
    rw [IoOp.mark, if_neg (by simp [hzero])]
    refine ⟨h.setTimer_fresh hoff .marked, fun he => ?_, fun hpc _ => ?_, fun _ _ => .inl hnew,
      fun _ _ _ => ?_⟩
    · exact absurd (hexposed.symm.trans he) (by simp)
    · exact absurd hpc (IoPc.not_armed_of_exposed hexposed)
    · show (op.setTimer t .marked).current.pending = true
      rw [hnew]
      rfl

/-- The callback has cancelled the event. -/
theorem cancelEvent (h : Punctual m op) (ht : op.timers t = .marked)
    (hgone : m'.registered op.fd op.kind.event = none) : Punctual m' (op.setTimer t .done) := by
  refine ⟨h.setTimer_fresh (by rw [ht]; simp) .done, h.exposed, fun harmed htimed => ?_,
    fun hrun hne => ?_, fun _ _ hreg => absurd (hgone.symm.trans hreg) (by simp)⟩
  · have hearly := h.early harmed htimed
    rw [setTimer_current, if_neg]
    · exact hearly
    · rintro rfl
      rw [IoOp.current, ht] at hearly
      cases hearly
  · rw [setTimer_current]
    split
    · exact .inr rfl
    · exact h.marked hrun hne

end Punctual

/-- A callback looks at `tinfo->cnacelled` of a running call only if it belongs to the round the
call is in and the call has added its event; and `epoll_ctl` succeeds in its `cancelEvent`. -/
def Prompt (s : Hooks) : IoAction → Prop
  | .mark k t => (s.ops k).pc.exposed = false ∧
      ((s.ops k).pc.hasReturned = false → t + 1 = (s.ops k).rounds)
  | .cancelEvent _ _ ok => ok = true
  | _ => True

instance (s : Hooks) (a : IoAction) : Decidable (Prompt s a) := by
  rcases a <;> (dsimp only [Prompt]; infer_instance)

namespace Hooks

variable {K : Kernel} {s : Hooks} {a : IoAction} {k : ℕ}

theorem punctual_own (he : (hooks K).enabled s a) (hok : Prompt s a) (ha : a.actor = some k)
    (h : Punctual s.events (s.ops k)) :
    Punctual ((hooks K).next s a).events (((hooks K).next s a).ops k) := by
  cases a <;> cases ha <;> apply setOp_own (Punctual _)
  case lookup => exact h.lookup he.2.2 _
  case issue r => exact h.issue he.2.2 r
  case arm => exact h.arm he.2.2
  case register ok errno =>
    apply h.register he.2.2
    split <;> rfl
  case giveUp errno =>
    simp only [IoOp.giveUp]
    split
    · exact h.cancelTimer (running_at he.2.2 rfl) rfl rfl
    · exact h.cancelTimer (running_at he.2.2 rfl) rfl rfl
  case yield => exact h.setPc (running_at he.2.2 rfl) rfl fun _ => by rw [he.2.2]; rfl
  case resume i =>
    have hset : Punctual s.events ((s.ops k).setPc .resumed) :=
      h.setPc (running_at he.2.2.1 rfl) rfl fun hw => by cases hw
    exact ⟨hset.fresh, hset.exposed, hset.early, hset.marked, fun hw => by cases hw⟩
  case cancelTimer => exact h.cancelTimer (running_at he.2.2 rfl) rfl rfl
  case check => exact h.check
  case settle r error => exact .of_returned h.fresh rfl
  case expire t => exact h.setTimer_early (by rw [he.2.2]; rfl) rfl
  case lock t => exact h.lock he.2.2
  case mark t => exact h.mark he.2.2 hok.1 hok.2
  case cancelEvent t ok =>
    have htrue : ok = true := hok
    subst htrue
    exact h.cancelEvent he.2.2 (Manager.cancelEvent_registered ..)

theorem reach_punctual (h : (hooks K).ReachVia Prompt s) (hlive : s.events.panicked = none)
    (hk : k < s.count) : Punctual s.events (s.ops k) := by
  refine (each_op (P := Punctual) ?_ ?_ ?_ ?_ h).2 hlive k hk
  · intro m kind fd caller hook
    exact .of_unmarked (fun _ _ => rfl) rfl (by simp [IoOp.new]) rfl
  · exact fun _ _ _ hf hop => hop.foreign hf
  · exact fun _ _ _ hret hop => .of_returned hop.fresh hret
  · exact fun s a k he hok ha _ hop => punctual_own he hok ha hop

end Hooks

/-- **A parked call has a live timeout.**  While a call with a timeout is parked on its event, the
callback of its timer is still to come: the timer is armed, or its callback is scheduled or
running and has not come to its end. -/
theorem parked_with_timeout (K : Kernel) {s : Hooks} (h : (hooks K).ReachVia Prompt s)
    (hlive : s.events.panicked = none) {k : ℕ} (hk : k < s.count)
    (hpc : (s.ops k).pc = .parked) (htimed : (s.ops k).timed = true)
    (hreg : s.events.registered (s.ops k).fd (s.ops k).kind.event = some (s.ops k).context) :
    (s.ops k).current.pending = true ∧ (s.ops k).current ≠ .done := by
  have hpending := (Hooks.reach_punctual h hlive hk).pending (by rw [hpc]; rfl) htimed hreg
  refine ⟨hpending, fun hdone => ?_⟩
  rw [hdone] at hpending
  cases hpending

/-- A `connect` with a timeout of five seconds that would block. -/
def connecting : List IoAction :=
  [.descriptor (.socket true 5 2), .call (.connect 5000) 5 Events.reader true, .lookup 0,
    .issue 0 ⟨-1, EINPROGRESS⟩, .arm 0]

/-- The timer expires once the Fiber is parked, and its callback marks the call. -/
theorem parked_with_timeout_connect :
    let s := (hooks linux).run .fresh (connecting ++ [.register 0 true 0, .yield 0, .expire 0 0,
      .lock 0 0, .mark 0 0])
    (s.ops 0).current ≠ .done := by
  intro s
  have hreach : (hooks linux).ReachVia Prompt s :=
    Machine.reachVia_run (.start (hooks_init_fresh linux)) (by decide +kernel)
  exact (parked_with_timeout linux hreach (by decide +kernel) (k := 0) (by decide +kernel)
    (by decide +kernel) (by decide +kernel) (by decide +kernel)).2

/-- The timer expires and its callback runs before the event is added: the Fiber parks for good. -/
theorem parked_for_good :
    ∃ s, (hooks linux).Reach s ∧ s.events.panicked = none ∧ 0 < s.count ∧
      (s.ops 0).pc = .parked ∧ (s.ops 0).timed = true ∧
      s.events.registered (s.ops 0).fd (s.ops 0).kind.event = some (s.ops 0).context ∧
      (s.ops 0).current = .done :=
  ⟨(hooks linux).run .fresh (connecting ++ [.expire 0 0, .lock 0 0, .mark 0 0,
      .cancelEvent 0 0 true, .register 0 true 0, .yield 0]),
    Machine.reachVia_run (.start (hooks_init_fresh linux)) (by decide +kernel),
    by decide +kernel⟩

end PulsarRuntime.Hook
