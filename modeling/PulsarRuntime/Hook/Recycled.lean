import PulsarRuntime.Hook.Calls

/-!
# Calls that are parked when their descriptor is closed

`close` triggers the events of the descriptor, so the Fibers parked on it come back.  They come
back behind their `yield`, where `do_io` looks at `tinfo->cnacelled` only.  A call whose timer has
expired as well returns -1; every other one repeats its system call, on whatever the number then
stands for.
-/

namespace PulsarRuntime.Hook

open Events (Manager Caller EventContext)
open Events.Manager (Triggers)

/-- The event is added, and the Fiber has not been resumed. -/
def IoPc.waiting : IoPc → Bool
  | .registered | .parked => true
  | _ => false

theorem IoPc.waiting_iff {pc : IoPc} : pc.waiting = true ↔ pc = .registered ∨ pc = .parked := by
  cases pc <;> simp [waiting]

theorem IoPc.running_of_waiting {pc : IoPc} (h : pc.waiting = true) : pc.hasReturned = false := by
  rcases waiting_iff.mp h with rfl | rfl <;> rfl

theorem Advances.not_waiting {op op' : IoOp} (h : Advances op op') : op'.pc.waiting = false := by
  rw [Bool.eq_false_iff, Ne, IoPc.waiting_iff, not_or]
  exact h.pc.2

/-! ### A waiting call is registered or on its way -/

def Awaited (m : Manager) (op : IoOp) : Prop :=
  op.pc.waiting = true → m.registered op.fd op.kind.event = some op.context ∨
    op.context ∈ m.scheduled

theorem Awaited.foreign {m m' : Manager} {op : IoOp} (hf : Foreign m m' op) (h : Awaited m op) :
    Awaited m' op := by
  intro hwait
  rcases h hwait with hreg | hsched
  · exact hf.delivered hreg
  · exact .inr (hf.scheduled hsched)

/-- A step that keeps the call waiting, or that ends its waiting. -/
theorem Awaited.same {m : Manager} {op op' : IoOp} (h : Awaited m op) (hsame : SameCall op op')
    (hwait : op'.pc.waiting = true → op.pc.waiting = true) : Awaited m op' := by
  intro hw
  rw [hsame.kind, hsame.fd, hsame.context]
  exact h (hwait hw)

theorem awaited_of_not {m : Manager} {op : IoOp} (h : op.pc.waiting = false) : Awaited m op :=
  fun hw => absurd (h.symm.trans hw) (by simp)

theorem IoOp.mark_pc (op : IoOp) (t : ℕ) : (op.mark t).pc = op.pc := by
  simp only [mark]
  split <;> rfl

namespace Hooks

variable {K : Kernel} {s t : Hooks} {a : IoAction} {k : ℕ}

theorem awaited_own (he : (hooks K).enabled s a) (ha : a.actor = some k)
    (hpanic : ((hooks K).next s a).events.panicked = none) (h : Awaited s.events (s.ops k)) :
    Awaited ((hooks K).next s a).events (((hooks K).next s a).ops k) := by
  cases a <;> cases ha <;> apply setOp_own (Awaited _)
  case lookup => exact awaited_of_not (Advances.lookup ..).not_waiting
  case issue r => exact awaited_of_not (Advances.issue he.2.2 r).not_waiting
  case arm => exact awaited_of_not rfl
  case register ok errno =>
    rcases Manager.addEvent_cases _ _ _ _ _ hpanic with hsame | ⟨_, hok, _, hreg⟩
    · simp only [hsame]
      exact awaited_of_not rfl
    · intro _
      left
      exact (hreg _ _).trans (if_pos ⟨rfl, rfl⟩)
  case giveUp errno =>
    apply awaited_of_not
    simp only [IoOp.giveUp]
    split <;> rfl
  case yield =>
    have hsame : SameCall (s.ops k) ((s.ops k).setPc .parked) :=
      .of_running (running_at he.2.2 rfl) rfl rfl rfl
    apply h.same hsame
    intro _
    rw [he.2.2]
    rfl
  case resume i => exact awaited_of_not rfl
  case cancelTimer => exact awaited_of_not rfl
  case check => exact awaited_of_not (Advances.check _).not_waiting
  case settle => exact awaited_of_not rfl
  case expire t => exact h.same (.setTimer ..) fun hw => hw
  case lock t => exact h.same (.setTimer ..) fun hw => hw
  case mark t => exact h.same (.mark ..) fun hw => (IoOp.mark_pc _ t) ▸ hw
  case cancelEvent t ok =>
    apply Awaited.foreign (foreign_of_triggers (.cancelEvent ..) _)
    exact h.same (.setTimer ..) fun hw => hw

theorem reach_awaited (h : (hooks K).Reach s) :
    s.Distinct ∧ (s.events.panicked = none → ∀ k < s.count, Awaited s.events (s.ops k)) := by
  apply each_op _ _ _ _ h
  · exact fun _ _ _ _ _ => awaited_of_not rfl
  · exact fun _ _ _ hf hop => hop.foreign hf
  · intro m m' op hret _ hwait
    exact absurd ((IoPc.running_of_waiting hwait).symm.trans hret) (by simp)
  · exact fun s a k he _ ha hpanic hop => awaited_own he ha hpanic hop

end Hooks

/-! ### After the close -/

/-- The call has made its last system call: its Fiber is on its way, or is behind its `yield`, or
the call has failed. -/
structure Leaving (n : ℕ) (m : Manager) (op : IoOp) : Prop where
  syscalls : op.syscalls = n
  phase : match op.pc with
    | .registered | .parked => m.panicked = none → op.context ∈ m.scheduled
    | .resumed | .woken => True
    | .returned r => r.n = -1
    | _ => False

namespace Leaving

variable {n : ℕ} {m m' : Manager} {op op' : IoOp}

theorem of_scheduled (hwait : op.pc.waiting = true) (hsched : op.context ∈ m.scheduled) :
    Leaving op.syscalls m op := by
  refine ⟨rfl, ?_⟩
  rcases IoPc.waiting_iff.mp hwait with hpc | hpc
  · rw [hpc]
    exact fun _ => hsched
  · rw [hpc]
    exact fun _ => hsched

theorem scheduled (h : Leaving n m op) (hlive : m.panicked = none)
    (hwait : op.pc.waiting = true) : op.context ∈ m.scheduled := by
  have hphase := h.phase
  rcases IoPc.waiting_iff.mp hwait with hpc | hpc
  · rw [hpc] at hphase
    exact hphase hlive
  · rw [hpc] at hphase
    exact hphase hlive

theorem place (h : Leaving n m op) : op.pc.waiting = true ∨ op.pc = .resumed ∨ op.pc = .woken ∨
    ∃ r, op.pc = .returned r ∧ r.n = -1 := by
  have hphase := h.phase
  cases hpc : op.pc <;> rw [hpc] at hphase
  case registered => exact .inl rfl
  case parked => exact .inl rfl
  case resumed => exact .inr (.inl rfl)
  case woken => exact .inr (.inr (.inl rfl))
  case returned r => exact .inr (.inr (.inr ⟨r, rfl, hphase⟩))
  all_goals exact hphase.elim

/-- Somebody else takes a step, or a callback of the call does. -/
theorem frame (h : Leaving n m op)
    (hsame : SameCall op op') (hpc : op'.pc = op.pc) (hsys : op'.syscalls = op.syscalls)
    (hlive : m.panicked = none)
    (hsched : op.pc.waiting = true → m'.panicked = none → op.context ∈ m.scheduled →
      op.context ∈ m'.scheduled) : Leaving n m' op' := by
  obtain ⟨hn, hphase⟩ := h
  refine ⟨hsys.trans hn, ?_⟩
  rw [hpc, hsame.context]
  cases hop : op.pc <;> rw [hop] at hphase hsched
  case registered => exact fun hlive' => hsched rfl hlive' (hphase hlive)
  case parked => exact fun hlive' => hsched rfl hlive' (hphase hlive)
  all_goals exact hphase

end Leaving

/-- When the call looks, its timer has marked it. -/
def Noticed (k : ℕ) (s : Hooks) : IoAction → Prop
  | .check j => j = k → (s.ops k).cancelled ≠ 0
  | _ => True

instance (k : ℕ) (s : Hooks) (a : IoAction) : Decidable (Noticed k s a) := by
  rcases a <;> (dsimp only [Noticed]; infer_instance)

namespace Hooks

variable {K : Kernel} {s t : Hooks} {a : IoAction} {k n : ℕ}

theorem leaving_own (h : Leaving n s.events (s.ops k)) (he : (hooks K).enabled s a)
    (hok : Noticed k s a) (ha : a.actor = some k) :
    Leaving n ((hooks K).next s a).events (((hooks K).next s a).ops k) := by
  have hphase := h.phase
  cases a <;> cases ha <;> apply setOp_own (Leaving n _)
  -- a call that is leaving is not at these points
  case lookup => simp only [he.2.2] at hphase
  case issue => rcases he.2.2 with hpc | hpc <;> simp only [hpc] at hphase
  case arm => simp only [he.2.2] at hphase
  case register => simp only [he.2.2] at hphase
  case giveUp => simp only [he.2.2] at hphase
  case settle => simp only [he.2.2] at hphase
  case yield =>
    simp only [he.2.2] at hphase
    exact ⟨h.syscalls, hphase⟩
  case resume => exact ⟨h.syscalls, trivial⟩
  case cancelTimer =>
    refine ⟨?_, trivial⟩
    rw [← h.syscalls]
    simp only [IoOp.setPc, IoOp.cancelTimer]
    split <;> rfl
  case check =>
    rw [IoOp.check, if_pos (hok rfl)]
    exact ⟨h.syscalls, rfl⟩
  case expire t => exact h.frame (.setTimer ..) rfl rfl he.1 fun _ _ hc => hc
  case lock t => exact h.frame (.setTimer ..) rfl rfl he.1 fun _ _ hc => hc
  case mark t =>
    apply h.frame (.mark ..) (IoOp.mark_pc _ t) _ he.1 fun _ _ hc => hc
    simp only [IoOp.mark]
    split <;> rfl
  case cancelEvent t ok =>
    exact h.frame (.setTimer ..) rfl rfl he.1 fun _ _ hc =>
      (Triggers.cancelEvent ..).scheduled _ hc

theorem leaving_next (hd : s.Distinct) (hk : k < s.count) (h : Leaving n s.events (s.ops k))
    (he : (hooks K).enabled s a) (hok : Noticed k s a) :
    Leaving n ((hooks K).next s a).events (((hooks K).next s a).ops k) := by
  by_cases ha : a.actor = some k
  · exact leaving_own h he hok ha
  · rw [next_other hk ha]
    apply h.frame (.refl _) rfl rfl he.1
    intro hwait hpanic
    exact (next_foreign hd he hpanic hk (IoPc.running_of_waiting hwait) ha).scheduled

theorem count_next (a : IoAction) (hk : k < s.count) : k < ((hooks K).next s a).count := by
  cases a with
  | call kind fd caller hook => exact Nat.lt_succ_of_lt hk
  | _ => exact hk

theorem leaving_later (hd : s.Distinct) (hk : k < s.count) (h : Leaving n s.events (s.ops k))
    (hl : (hooks K).Later (Noticed k) s t) : Leaving n t.events (t.ops k) := by
  have hinv : t.Distinct ∧ k < t.count ∧ Leaving n t.events (t.ops k) := by
    refine hl.invariant (I := fun t => t.Distinct ∧ k < t.count ∧ Leaving n t.events (t.ops k))
      ?_ ⟨hd, hk, h⟩
    intro s a ⟨hd, hk, h⟩ he hok
    exact ⟨hd.next he, count_next a hk, leaving_next hd hk h he hok⟩
  exact hinv.2.2

/-- `close` on a worker hands every Fiber that waits on the descriptor to the scheduler. -/
theorem cancelAll_leaving (h : (hooks K).Reach s) {c : ℕ}
    (he : (hooks K).enabled s (.cancelAll c true)) (hiom : (s.closes c).iom = true)
    (hk : k < s.count) (hwait : (s.ops k).pc.waiting = true)
    (hfd : (s.ops k).fd = (s.closes c).fd) :
    Leaving (s.ops k).syscalls ((hooks K).next s (.cancelAll c true)).events (s.ops k) := by
  have haw := (reach_awaited h).2 he.1 k hk hwait
  have hevents : ((hooks K).next s (.cancelAll c true)).events =
      (s.events.cancelAll (s.ops k).fd true).1 := by
    rw [hfd]
    exact if_pos hiom
  have hgone := Manager.cancelAll_registered s.events (s.ops k).fd (s.ops k).kind.event
  apply Leaving.of_scheduled hwait
  rw [hevents]
  rcases haw with hreg | hsched
  · rcases (Triggers.cancelAll s.events (s.ops k).fd true).delivered _ _ _ hreg with hstay | hin
    · rw [hgone] at hstay
      cases hstay
    · exact hin
  · exact (Triggers.cancelAll s.events (s.ops k).fd true).scheduled _ hsched

end Hooks

/-- **A call parked on a descriptor that is closed.**  The close has its Fiber scheduled.  If the
call finds `tinfo->cnacelled` set when it wakes up, it makes no further system call and returns -1,
whatever becomes of the number. -/
theorem parked_at_close (K : Kernel) {s t : Hooks} (h : (hooks K).Reach s) {c k : ℕ}
    (he : (hooks K).enabled s (.cancelAll c true)) (hiom : (s.closes c).iom = true)
    (hk : k < s.count) (hwait : (s.ops k).pc.waiting = true)
    (hfd : (s.ops k).fd = (s.closes c).fd)
    (hl : (hooks K).Later (Noticed k) ((hooks K).next s (.cancelAll c true)) t) :
    (t.ops k).syscalls = (s.ops k).syscalls ∧
      (t.events.panicked = none → (t.ops k).pc.waiting = true →
        (t.ops k).context ∈ t.events.scheduled) ∧
      ((t.ops k).pc.waiting = true ∨ (t.ops k).pc = .resumed ∨ (t.ops k).pc = .woken ∨
        ∃ r, (t.ops k).pc = .returned r ∧ r.n = -1) := by
  have hd := (Hooks.reach_awaited h).1.next he
  have hleave := Hooks.leaving_later hd hk (Hooks.cancelAll_leaving h he hiom hk hwait hfd) hl
  exact ⟨hleave.syscalls, hleave.scheduled, hleave.place⟩

/-- A Fiber reads from socket 5 and parks, with a timeout of `v`; another thread closes the socket
and has come to `cancelAll`. -/
def closing (v : BitVec 64) : List IoAction :=
  [.descriptor (.socket true 5 2), .descriptor (.setsockopt 5 .recv v),
    .call .read 5 Events.reader true, .lookup 0, .issue 0 ⟨-1, EAGAIN⟩, .arm 0,
    .register 0 true 0, .yield 0, .close 5 true true, .closeLookup 0]

/-- The timer expires in the meantime, and the reader notices. -/
theorem parked_at_close_timed_out :
    let s := (hooks linux).run .fresh (closing 1000)
    let t := (hooks linux).run ((hooks linux).next s (.cancelAll 0 true))
      [.expire 0 0, .lock 0 0, .mark 0 0, .resume 0 0, .cancelTimer 0, .check 0]
    (t.ops 0).syscalls = 1 ∧ ∃ r, (t.ops 0).pc = .returned r ∧ r.n = -1 := by
  intro s t
  have hmain := parked_at_close linux (s := s) (t := t) (c := 0) (k := 0)
    (Machine.reachVia_run (.start (hooks_init_fresh linux)) (by decide +kernel))
    (by decide +kernel) (by decide +kernel) (by decide +kernel) (by decide +kernel)
    (by decide +kernel) (Machine.later_run (by decide +kernel))
  refine ⟨hmain.1, ?_⟩
  rcases hmain.2.2 with hpc | hpc | hpc | hpc
  · exact absurd hpc (by decide +kernel)
  · exact absurd hpc (by decide +kernel)
  · exact absurd hpc (by decide +kernel)
  · exact hpc

/-- The number is given out again before the reader runs: its next `read` takes ten bytes from the
new socket. -/
def reused : List IoAction :=
  [.cancelAll 0 true, .del 0, .shut 0, .descriptor (.socket true 5 0x80802), .resume 0 0,
    .cancelTimer 0, .check 0]

theorem read_from_reused :
    let s := (hooks linux).run .fresh (closing (-1))
    let t := (hooks linux).run s reused
    (hooks linux).Reach s ∧ (s.ops 0).pc = .parked ∧ (s.ops 0).fd = (s.closes 0).fd ∧
      (hooks linux).Later (fun _ _ => True) s t ∧ t.descriptors.files 5 = some ⟨true, 0x80802⟩ ∧
      (hooks linux).enabled t (.issue 0 ⟨10, 0⟩) ∧
      (((hooks linux).next t (.issue 0 ⟨10, 0⟩)).ops 0).syscalls = (s.ops 0).syscalls + 1 ∧
      (((hooks linux).next t (.issue 0 ⟨10, 0⟩)).ops 0).pc = .returned ⟨10, 0⟩ := by
  intro s t
  exact ⟨Machine.reachVia_run (.start (hooks_init_fresh linux)) (by decide +kernel),
    by decide +kernel, by decide +kernel, Machine.later_run (by decide +kernel),
    by decide +kernel, by decide +kernel, by decide +kernel, by decide +kernel⟩

end PulsarRuntime.Hook
