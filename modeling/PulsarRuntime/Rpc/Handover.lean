import Mathlib.Data.Nat.Basic
import PulsarRuntime.Rpc.Multiplex

/-!
# One hand-over for every yield

`Call.Balance` keeps the account of a call at each of its program points: how often its Fiber has
yielded, how often it was handed over, and which hand-overs are still to come.  It is kept as long
as nobody completes a call whose Fiber is parked inside `WriteAll`, and a call that was completed
while its request was still being written neither parks there nor fails to send it.
`Undisturbed` asks for just that.
-/

namespace PulsarRuntime.Rpc

/-- The reader does not complete a call that is parked in `WriteAll`, and a call that has been
completed does not park there any more and its send does not fail. -/
def Undisturbed (s : Channel) : CallAction → Prop
  | .park k => (s.calls k).pc = .sending → (s.calls k).pending = true
  | .withdraw k => (s.calls k).pending = true
  | .deliver k _ _ => (s.calls k).pc ≠ .parked true
  | .sweep => ∀ k < s.count, (s.calls k).pending = true → (s.calls k).pc ≠ .parked true
  | _ => True

instance (s : Channel) (a : CallAction) : Decidable (Undisturbed s a) := by
  rcases a <;> (dsimp only [Undisturbed]; infer_instance)

namespace Call

/-- The hand-over that completing the call is going to make. -/
def owed (c : Call) : ℕ := if c.pending || c.due then 1 else 0

/-- The account at each program point. -/
def Balance (c : Call) : Prop :=
  match c.pc with
  | .preparing => c.pending = false ∧ c.due = false ∧ c.done = false ∧ c.timer = .off ∧
      c.waits = 0 ∧ c.handed = c.yields ∧ c.resumes = c.yields
  | .parked false => c.pending = false ∧ c.due = false ∧ c.done = false ∧ c.timer = .off ∧
      c.yields = c.resumes + 1 ∧ c.handed + c.waits = c.yields
  | .parked true => c.pending = true ∧ c.timer = .off ∧
      c.yields = c.resumes + 1 ∧ c.handed + c.waits = c.yields
  | .sending | .sent | .unsent => c.timer = .off ∧ c.waits = 0 ∧ c.resumes = c.yields ∧
      c.handed + c.owed = c.yields + 1
  | .armed => c.waits = 0 ∧ c.resumes = c.yields ∧ c.handed + c.owed = c.yields + 1
  | .yielded => c.waits = 0 ∧ c.yields = c.resumes + 1 ∧ c.handed + c.owed = c.yields
  | .woken | .returned _ => c.pending = false ∧ c.due = false ∧ c.waits = 0 ∧
      c.handed = c.yields ∧ c.resumes = c.yields

structure Ok (c : Call) : Prop where
  balance : c.Balance
  single : c.pending = true → c.due = false
  undone : c.pending = true → c.done = false

variable {c : Call}

theorem Ok.at (h : c.Ok) {p : CallPc} (hpc : c.pc = p) : Balance { c with pc := p } := by
  subst hpc
  exact h.balance

theorem owed_pending (h : c.pending = true) : c.owed = 1 := by
  unfold owed
  rw [h]
  rfl

theorem owed_due (h : c.due = true) : c.owed = 1 := by
  unfold owed
  rw [h, Bool.or_true]
  rfl

theorem owed_none (hp : c.pending = false) (hd : c.due = false) : c.owed = 0 := by
  unfold owed
  rw [hp, hd]
  rfl

/-- The points at which a call can be in `pending_calls` or due. -/
theorem Ok.owing (h : c.Ok) (howed : c.pending = true ∨ c.due = true) :
    c.pc = .parked true ∨ c.pc = .sending ∨ c.pc = .sent ∨ c.pc = .unsent ∨ c.pc = .armed ∨
      c.pc = .yielded := by
  have hb := h.balance
  unfold Balance at hb
  have hno : ¬ (c.pending = false ∧ c.due = false) := by
    rintro ⟨hp, hd⟩
    rw [hp, hd] at howed
    exact howed.elim nofun nofun
  cases hpc : c.pc with
  | preparing =>
    rw [hpc] at hb
    exact absurd ⟨hb.1, hb.2.1⟩ hno
  | sending => exact .inr (.inl rfl)
  | parked inSend =>
    cases inSend with
    | false =>
      rw [hpc] at hb
      exact absurd ⟨hb.1, hb.2.1⟩ hno
    | true => exact .inl rfl
  | sent => exact .inr (.inr (.inl rfl))
  | unsent => exact .inr (.inr (.inr (.inl rfl)))
  | armed => exact .inr (.inr (.inr (.inr (.inl rfl))))
  | yielded => exact .inr (.inr (.inr (.inr (.inr rfl))))
  | woken =>
    rw [hpc] at hb
    exact absurd ⟨hb.1, hb.2.1⟩ hno
  | returned r =>
    rw [hpc] at hb
    exact absurd ⟨hb.1, hb.2.1⟩ hno

/-- `c'` differs from `c` only in how far its completion has come: it may have been taken out of
`pending_calls` or handed over, and its timer may have been switched off. -/
structure Along (c c' : Call) : Prop where
  pc : c'.pc = c.pc
  timer : c.timer = .off → c'.timer = .off
  waits : c'.waits = c.waits
  yields : c'.yields = c.yields
  resumes : c'.resumes = c.resumes
  sum : c'.handed + c'.owed = c.handed + c.owed

/-- Unless the Fiber is parked in `WriteAll`, the account only sees the hand-overs made and owed
together. -/
theorem Ok.along {c c' : Call} (h : c.Ok) (howed : c.pending = true ∨ c.due = true)
    (hpc : c.pc ≠ .parked true) (ha : Along c c') : c'.Balance := by
  unfold Balance
  rw [ha.pc, ha.waits, ha.yields, ha.resumes, ha.sum]
  rcases h.owing howed with hpc0 | hpc0 | hpc0 | hpc0 | hpc0 | hpc0
  · exact absurd hpc0 hpc
  all_goals
    have hb := h.at hpc0
    rw [hpc0]
  · exact ⟨ha.timer hb.1, hb.2⟩
  · exact ⟨ha.timer hb.1, hb.2⟩
  · exact ⟨ha.timer hb.1, hb.2⟩
  · exact hb
  · exact hb

/-- Away from `pending_calls` a call has only its balance to keep. -/
theorem Ok.of_idle (hp : c.pending = false) (hb : c.Balance) : c.Ok := by
  have hpend : c.pending ≠ true := by
    rw [hp]
    decide
  exact ⟨hb, fun h => absurd h hpend, fun h => absurd h hpend⟩

/-! ### The reader and the timer -/

/-- A pending call is completed, with whatever result. -/
theorem Ok.complete {c c' : Call} (h : c.Ok) (hpending : c.pending = true)
    (hpc : c.pc ≠ .parked true) (hp : c'.pending = false) (hd : c'.due = true)
    (hpc' : c'.pc = c.pc) (htimer : c.timer = .off → c'.timer = .off)
    (hcounts : (c'.waits, c'.yields, c'.handed, c'.resumes) =
      (c.waits, c.yields, c.handed, c.resumes)) : c'.Ok := by
  simp only [Prod.mk.injEq] at hcounts
  obtain ⟨hwaits, hyields, hhanded, hresumes⟩ := hcounts
  refine .of_idle hp (h.along (.inl hpending) hpc ⟨hpc', htimer, hwaits, hyields, hresumes, ?_⟩)
  rw [owed_pending hpending, owed_due hd, hhanded]

variable (h : c.Ok)
include h

theorem Ok.deliver (hpending : c.pending = true) (hpc : c.pc ≠ .parked true)
    (error : String) (payload : List UInt8) : (c.deliver error payload).Ok := by
  unfold Call.deliver
  split
  · exact h.complete hpending hpc rfl rfl rfl id rfl
  · exact h.complete hpending hpc rfl rfl rfl id rfl

theorem Ok.sweep (hpc : c.pending = true → c.pc ≠ .parked true) : c.sweep.Ok := by
  unfold Call.sweep
  by_cases hp : c.pending = true
  · -- what is still pending has not been completed, so it is handed over as well
    rw [if_pos hp, if_neg (by rw [h.undone hp]; decide)]
    exact h.complete hp (hpc hp) rfl rfl rfl id rfl
  · rw [if_neg hp]
    exact h

/-- The account does not look at the timer once the request has been sent. -/
theorem Ok.setTimer (ht : c.timer ≠ .off) (t : CallTimer) : Ok { c with timer := t } := by
  refine ⟨?_, h.single, h.undone⟩
  have hb := h.balance
  unfold Balance at hb ⊢
  dsimp only
  cases hpc : c.pc with
  | preparing =>
    rw [hpc] at hb
    exact absurd hb.2.2.2.1 ht
  | parked inSend =>
    rw [hpc] at hb
    cases inSend with
    | false => exact absurd hb.2.2.2.1 ht
    | true => exact absurd hb.2.1 ht
  | sending | sent | unsent =>
    rw [hpc] at hb
    exact absurd hb.1 ht
  | armed | yielded | woken | returned r =>
    rw [hpc] at hb
    exact hb

theorem Ok.fire (ht : c.timer ≠ .off) : c.fire.Ok := by
  unfold Call.fire
  by_cases hp : c.pending = true
  · have hpc : c.pc ≠ .parked true := fun hpc => ht (h.at hpc).2.1
    rw [if_pos hp]
    exact h.complete hp hpc rfl rfl rfl (fun _ => rfl) rfl
  · rw [if_neg hp]
    exact h.setTimer ht .off

/-- Completing the call hands its Fiber over. -/
theorem Ok.hand (hdue : c.due = true) : Ok { c with due := false, handed := c.handed + 1 } := by
  have hp : c.pending = false := by
    cases hp : c.pending with
    | false => rfl
    | true => exact nomatch hdue.symm.trans (h.single hp)
  have hpc : c.pc ≠ .parked true := fun hpc => nomatch hp.symm.trans (h.at hpc).1
  refine .of_idle hp (h.along (.inr hdue) hpc ⟨rfl, id, rfl, rfl, rfl, ?_⟩)
  rw [owed_due hdue, owed_none (c := { c with due := false, handed := c.handed + 1 }) hp rfl]

/-! ### The steps of the caller -/

theorem Ok.park (hpc : c.pc = .preparing ∨ c.pc = .sending)
    (hpending : c.pc = .sending → c.pending = true) :
    Ok { c with
      pc := .parked (c.pc = .sending), waits := c.waits + 1, yields := c.yields + 1 } := by
  rcases hpc with hpc | hpc
  · obtain ⟨hp, hd, hdone, ht, hw, hh, hr⟩ := h.at hpc
    have hns : decide (c.pc = .sending) = false := by
      rw [hpc]
      rfl
    rw [hns]
    dsimp only at hw hh hr
    refine .of_idle hp ⟨hp, hd, hdone, ht, ?_, ?_⟩
    · dsimp only
      omega
    · dsimp only
      omega
  · obtain ⟨ht, hw, hr, hh⟩ := h.at hpc
    have howed := owed_pending (c := { c with pc := .sending }) (hpending hpc)
    have hs : decide (c.pc = .sending) = true := by
      rw [hpc]
      rfl
    rw [hs]
    rw [howed] at hh
    dsimp only at hw hh hr
    refine ⟨⟨hpending hpc, ht, ?_, ?_⟩, h.single, h.undone⟩
    · dsimp only
      omega
    · dsimp only
      omega

/-- Only a parked call has something else to wake it. -/
theorem Ok.waiting (hw : 0 < c.waits) : c.pc = .parked false ∨ c.pc = .parked true := by
  have hb := h.balance
  unfold Balance at hb
  cases hpc : c.pc with
  | parked inSend => cases inSend <;> simp
  | _ =>
    rw [hpc] at hb
    dsimp only at hb
    omega

theorem Ok.wake (hw : 0 < c.waits) :
    Ok { c with waits := c.waits - 1, handed := c.handed + 1 } := by
  refine ⟨?_, h.single, h.undone⟩
  unfold Balance
  rcases h.waiting hw with hpc | hpc
  · obtain ⟨hp, hd, hdone, ht, hy, hh⟩ := h.at hpc
    dsimp only at hy hh
    dsimp only
    rw [hpc]
    exact ⟨hp, hd, hdone, ht, hy, by omega⟩
  · obtain ⟨hp, ht, hy, hh⟩ := h.at hpc
    dsimp only at hy hh
    dsimp only
    rw [hpc]
    exact ⟨hp, ht, hy, by omega⟩

theorem Ok.register (hpc : c.pc = .preparing) : Ok { c with pc := .sending, pending := true } := by
  obtain ⟨_, hd, hdone, ht, hw, hh, hr⟩ := h.at hpc
  refine ⟨⟨ht, hw, hr, ?_⟩, fun _ => hd, fun _ => hdone⟩
  rw [owed_pending (c := { c with pc := .sending, pending := true }) rfl]
  exact congrArg (· + 1) hh

/-- Points of the caller that leave the account alone. -/
theorem Ok.send (hpc : c.pc = .sending) (ok : Bool) :
    Ok { c with pc := if ok then .sent else .unsent } := by
  have hb := h.at hpc
  refine ⟨?_, h.single, h.undone⟩
  cases ok with
  | false => exact hb
  | true => exact hb

theorem Ok.arm (hpc : c.pc = .sent) (t : CallTimer) : Ok { c with pc := .armed, timer := t } :=
  ⟨(h.at hpc).2, h.single, h.undone⟩

theorem Ok.yield (hpc : c.pc = .armed) : Ok { c with pc := .yielded, yields := c.yields + 1 } := by
  obtain ⟨hw, hr, hh⟩ := h.at hpc
  exact ⟨⟨hw, congrArg (· + 1) hr.symm, hh⟩, h.single, h.undone⟩

theorem Ok.connectFailed (hpc : c.pc = .preparing) (r : Return) :
    Ok { c with pc := .returned r } := by
  obtain ⟨hp, hd, _, _, hcounts⟩ := h.at hpc
  exact .of_idle hp ⟨hp, hd, hcounts⟩

/-- The caller takes its own entry out: nobody else will hand it over any more. -/
theorem Ok.withdraw (hpc : c.pc = .unsent) (hpending : c.pending = true)
    (r : Return) : Ok { c with pc := .returned r, pending := false } := by
  obtain ⟨_, hw, hr, hh⟩ := h.at hpc
  rw [owed_pending (c := { c with pc := .unsent }) hpending] at hh
  exact .of_idle rfl ⟨rfl, h.single hpending, hw, Nat.succ.inj hh, hr⟩

theorem Ok.finish (hpc : c.pc = .woken) (r : Return) (t : CallTimer) :
    Ok { c with pc := .returned r, timer := t } :=
  .of_idle (h.at hpc).1 (h.at hpc)

/-- The Fiber goes on behind the yield it was handed over for. -/
theorem Ok.resume_parked {inSend : Bool} (hpc : c.pc = .parked inSend) (hr : c.resumes < c.handed) :
    Ok { c with pc := if inSend then .sending else .preparing, resumes := c.resumes + 1 } := by
  refine ⟨?_, h.single, h.undone⟩
  cases inSend with
  | false =>
    obtain ⟨hp, hd, hdone, ht, hy, hh⟩ := h.at hpc
    dsimp only at hy hh
    refine ⟨hp, hd, hdone, ht, ?_, ?_, hy.symm⟩
    · dsimp only
      omega
    · dsimp only
      omega
  | true =>
    obtain ⟨hp, ht, hy, hh⟩ := h.at hpc
    dsimp only at hy hh
    refine ⟨ht, ?_, hy.symm, ?_⟩
    · dsimp only
      omega
    · have howed : Call.owed { c with pc := .sending, resumes := c.resumes + 1 } = 1 :=
        owed_pending hp
      show c.handed + Call.owed { c with pc := .sending, resumes := c.resumes + 1 } = c.yields + 1
      omega

/-- The wake-up for the response is the one that was owed: nothing is left to come. -/
theorem Ok.resume_yielded (hpc : c.pc = .yielded)
    (hr : c.resumes < c.handed) : Ok { c with pc := .woken, resumes := c.resumes + 1 } := by
  obtain ⟨hw, hy, hh⟩ := h.at hpc
  have hnone : ¬ (c.pending = true ∨ c.due = true) := by
    intro howed
    have hone : Call.owed { c with pc := .yielded } = 1 := by
      rcases howed with hp | hd
      · exact owed_pending hp
      · exact owed_due hd
    rw [hone] at hh
    dsimp only at hy hh
    omega
  have hp : c.pending = false := Bool.eq_false_iff.mpr fun hp => hnone (.inl hp)
  have hd : c.due = false := Bool.eq_false_iff.mpr fun hd => hnone (.inr hd)
  rw [owed_none (c := { c with pc := .yielded }) hp hd] at hh
  exact .of_idle hp ⟨hp, hd, hw, hh, hy.symm⟩

end Call

namespace Channel

/-- The account of every call is in order. -/
def Inv (s : Channel) : Prop := ∀ k < s.count, (s.calls k).Ok

variable {s : Channel}

@[simp] theorem setCall_self (k : ℕ) (c : Call) : (s.setCall k c).calls k = c :=
  Function.update_self ..

theorem setCall_ne {j k : ℕ} (c : Call) (hjk : j ≠ k) : (s.setCall k c).calls j = s.calls j :=
  Function.update_of_ne hjk ..

theorem Inv.setCall (h : s.Inv) {k : ℕ} {c : Call} (hc : c.Ok) : (s.setCall k c).Inv := by
  intro j hj
  by_cases hjk : j = k
  · subst hjk
    rw [setCall_self]
    exact hc
  · rw [setCall_ne c hjk]
    exact h j hj

theorem Inv.addCall (h : s.Inv) (timed : Bool) : (s.addCall timed).Inv := by
  intro j hj
  by_cases hjk : j = s.count
  · subst hjk
    have hnew : (s.addCall timed).calls s.count =
        ⟨.preparing, timed, [], "", false, false, false, false, .off, 0, 0, 0, 0⟩ :=
      Function.update_self ..
    rw [hnew]
    exact .of_idle rfl ⟨rfl, rfl, rfl, rfl, rfl, rfl, rfl⟩
  · have hold : (s.addCall timed).calls j = s.calls j := Function.update_of_ne hjk ..
    rw [hold]
    exact h j (Nat.lt_of_le_of_ne (Nat.le_of_lt_succ hj) hjk)

theorem Inv.resume (h : s.Inv) {k : ℕ} (hk : k < s.count)
    (hpc : (s.calls k).pc = .parked false ∨ (s.calls k).pc = .parked true ∨
      (s.calls k).pc = .yielded) (hr : (s.calls k).resumes < (s.calls k).handed) :
    (s.resume k).Inv := by
  unfold Channel.resume
  rcases hpc with hpc | hpc | hpc
  · dsimp only
    rw [hpc]
    exact h.setCall ((h k hk).resume_parked hpc hr)
  · dsimp only
    rw [hpc]
    exact h.setCall ((h k hk).resume_parked hpc hr)
  · dsimp only
    rw [hpc]
    exact h.setCall ((h k hk).resume_yielded hpc hr)

theorem Inv.next (h : s.Inv) {a : CallAction} (he : channel.enabled s a) (hok : Undisturbed s a) :
    (channel.next s a).Inv := by
  cases a with
  | call timed => exact h.addCall timed
  | park k => exact h.setCall ((h k he.1).park he.2 hok)
  | wake k => exact h.setCall ((h k he.1).wake he.2)
  | resume k => exact h.resume he.1 he.2.1 he.2.2
  | connectFailed k => exact h.setCall ((h k he.1).connectFailed he.2 _)
  | register k => exact h.setCall ((h k he.1).register he.2)
  | send k ok => exact h.setCall ((h k he.1).send he.2 ok)
  | withdraw k => exact h.setCall ((h k he.1).withdraw he.2 hok _)
  | arm k => exact h.setCall ((h k he.1).arm he.2 _)
  | yield k => exact h.setCall ((h k he.1).yield he.2)
  | finish k parses => exact h.setCall ((h k he.1).finish he.2 _ _)
  | deliver k error payload => exact h.setCall ((h k he.1).deliver he.2 hok error payload)
  | sweep => exact fun k hk => (h k hk).sweep (hok k hk)
  | expire k =>
    have ht : (s.calls k).timer ≠ .off := by
      rw [he.2]
      decide
    exact h.setCall ((h k he.1).setTimer ht _)
  | fire k =>
    have ht : (s.calls k).timer ≠ .off := by
      rw [he.2]
      decide
    exact h.setCall ((h k he.1).fire ht)
  | hand k => exact h.setCall ((h k he.1).hand he.2)

theorem inv_of_reachVia (h : channel.ReachVia Undisturbed s) : s.Inv := by
  refine h.invariant (I := Inv) (fun s hs k hk => ?_) (fun s a hs he hok => hs.next he hok)
  have hcount : s.count = 0 := hs
  omega

/-! ### A call that has returned -/

/-- Neither the place of a call nor its count of yields and hand-overs has changed. -/
structure Settled (c c' : Call) : Prop where
  pc : c'.pc = c.pc
  handed : c'.handed = c.handed
  yields : c'.yields = c.yields

theorem setCall_settled {j k : ℕ} {c : Call} (h : j = k → Settled (s.calls k) c) :
    Settled (s.calls k) ((s.setCall j c).calls k) := by
  by_cases hjk : j = k
  · subst hjk
    rw [setCall_self]
    exact h rfl
  · rw [setCall_ne c (Ne.symm hjk)]
    exact ⟨rfl, rfl, rfl⟩

/-- Nobody touches the account of a call that has returned. -/
theorem Inv.returned_next (h : s.Inv) {k : ℕ} (hk : k < s.count) {r : Return}
    (hpc : (s.calls k).pc = .returned r) {a : CallAction} (he : channel.enabled s a) :
    Settled (s.calls k) ((channel.next s a).calls k) := by
  obtain ⟨hp, hd, hw, _, _⟩ := (h k hk).at hpc
  dsimp only at hp hd hw
  have hne {p : CallPc} (hp : (s.calls k).pc = p) (hret : p.hasReturned = false) : False := by
    rw [← hp, hpc] at hret
    cases hret
  cases a with
  | call timed =>
    have hold : (s.addCall timed).calls k = s.calls k :=
      Function.update_of_ne (Nat.ne_of_lt hk) ..
    show Settled (s.calls k) ((s.addCall timed).calls k)
    rw [hold]
    exact ⟨rfl, rfl, rfl⟩
  | park j =>
    refine setCall_settled fun hjk => ?_
    subst hjk
    exact (he.2.elim (hne · rfl) (hne · rfl)).elim
  | wake j =>
    refine setCall_settled fun hjk => ?_
    subst hjk
    exact absurd he.2 (hw ▸ Nat.lt_irrefl 0)
  | resume j =>
    refine setCall_settled fun hjk => ?_
    subst hjk
    exact (he.2.1.elim (hne · rfl) (·.elim (hne · rfl) (hne · rfl))).elim
  | connectFailed j | register j | send j ok | withdraw j | arm j | yield j | finish j parses =>
    refine setCall_settled fun hjk => ?_
    subst hjk
    exact (hne he.2 rfl).elim
  | deliver j error payload =>
    refine setCall_settled fun hjk => ?_
    subst hjk
    exact nomatch hp.symm.trans he.2
  | sweep =>
    have hsame : (s.calls k).sweep = s.calls k := by
      unfold Call.sweep
      rw [hp]
      rfl
    show Settled (s.calls k) (s.calls k).sweep
    rw [hsame]
    exact ⟨rfl, rfl, rfl⟩
  | expire j =>
    refine setCall_settled fun hjk => ?_
    subst hjk
    exact ⟨rfl, rfl, rfl⟩
  | fire j =>
    refine setCall_settled fun hjk => ?_
    subst hjk
    unfold Call.fire
    rw [hp]
    exact ⟨rfl, rfl, rfl⟩
  | hand j =>
    refine setCall_settled fun hjk => ?_
    subst hjk
    exact nomatch hd.symm.trans he.2

theorem count_le_next (a : CallAction) : s.count ≤ (channel.next s a).count := by
  cases a with
  | call timed => exact Nat.le_succ s.count
  | _ => exact Nat.le_refl s.count

theorem Settled.later {t : Channel} (hl : channel.Later Undisturbed s t) (h : s.Inv) {k : ℕ}
    (hk : k < s.count) {r : Return} (hpc : (s.calls k).pc = .returned r) :
    Settled (s.calls k) (t.calls k) := by
  let I (t : Channel) : Prop := t.Inv ∧ k < t.count ∧ Settled (s.calls k) (t.calls k)
  have hstep : ∀ t a, I t → channel.enabled t a → Undisturbed t a → I (channel.next t a) := by
    rintro t a ⟨ht, hkt, hsame⟩ he hok
    have hnext := ht.returned_next hkt (hsame.pc.trans hpc) he
    exact ⟨ht.next he hok, Nat.lt_of_lt_of_le hkt (count_le_next a),
      hnext.pc.trans hsame.pc, hnext.handed.trans hsame.handed, hnext.yields.trans hsame.yields⟩
  have hI : I t := hl.invariant (I := I) hstep ⟨h, hk, rfl, rfl, rfl⟩
  exact hI.2.2

end Channel

/-- **Handed over as often as it yields.**  When a call returns, its Fiber has been handed to the
scheduler exactly once for every time it yielded, and it is never handed over for that call again;
and completing a call never schedules a Fiber that waits for something else or has returned. -/
theorem handed_once_per_yield {s : Channel} (h : channel.ReachVia Undisturbed s) {k : ℕ}
    (hk : k < s.count) :
    ((s.calls k).pc.hasReturned = true → (s.calls k).handed = (s.calls k).yields ∧
      ∀ t, channel.Later Undisturbed s t →
        (t.calls k).handed = (s.calls k).handed ∧ (t.calls k).yields = (s.calls k).yields) ∧
    (channel.enabled s (.hand k) → (s.calls k).pc.hasReturned = false ∧
      ∀ inSend, (s.calls k).pc ≠ .parked inSend) := by
  have hinv := Channel.inv_of_reachVia h
  have hok := hinv k hk
  constructor
  · intro hret
    obtain ⟨r, hpc⟩ : ∃ r, (s.calls k).pc = .returned r := by
      cases hpc : (s.calls k).pc with
      | returned r => exact ⟨r, rfl⟩
      | _ =>
        rw [hpc] at hret
        cases hret
    refine ⟨(hok.at hpc).2.2.2.1, fun t ht => ?_⟩
    have hsame := Channel.Settled.later ht hinv hk hpc
    exact ⟨hsame.handed, hsame.yields⟩
  · rintro ⟨_, hdue⟩
    constructor
    · rcases hok.owing (.inr hdue) with hpc | hpc | hpc | hpc | hpc | hpc <;> (rw [hpc]; rfl)
    · intro inSend hpc
      cases inSend with
      | false => exact nomatch hdue.symm.trans (hok.at hpc).2.1
      | true => exact nomatch hdue.symm.trans (hok.single (hok.at hpc).1)

/-- A call that parks for the write mutex, again in `WriteAll`, and is answered before it yields
for its response. -/
theorem handed_once_per_yield_answered :
    let s := channel.run Channel.fresh [.call true, .park 0, .wake 0, .resume 0, .register 0,
      .park 0, .wake 0, .resume 0, .send 0 true, .arm 0, .deliver 0 "" [7], .hand 0, .yield 0,
      .resume 0, .finish 0 true]
    (s.calls 0).pc = .returned (.response [7]) ∧ (s.calls 0).yields = 3 ∧
      (s.calls 0).handed = (s.calls 0).yields := by
  intro s
  have hs : channel.ReachVia Undisturbed s :=
    Machine.reachVia_run (.start rfl) (by decide)
  exact ⟨by decide, by decide, ((handed_once_per_yield hs (k := 0) (by decide)).1 (by decide)).1⟩

/-- The request of a call is stuck in `WriteAll` when the peer closes.  `ReaderLoop` closes the
connection, which wakes the Fiber, and then finds the call in `pending_calls` and hands the same
Fiber over once more: first while it is parked in `Connection::Wait`, and in the end the call has
returned after one yield with two hand-overs. -/
theorem sweep_schedules_parked_caller :
    let parked := channel.run Channel.fresh [.call false, .register 0, .park 0, .wake 0, .sweep]
    let s := channel.run parked [.hand 0, .resume 0, .send 0 false, .withdraw 0]
    channel.Reach parked ∧ channel.enabled parked (.hand 0) ∧
      (parked.calls 0).pc = .parked true ∧
      channel.Reach s ∧ (s.calls 0).pc = .returned .sendFailed ∧ (s.calls 0).yields = 1 ∧
      (s.calls 0).handed = 2 := by
  intro parked s
  have hparked : channel.Reach parked := Machine.reachVia_run (.start rfl) (by decide)
  exact ⟨hparked, by decide, by decide, Machine.reachVia_run hparked (by decide), by decide,
    by decide, by decide⟩

end PulsarRuntime.Rpc
