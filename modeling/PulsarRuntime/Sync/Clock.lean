import PulsarRuntime.Lib.Family
import PulsarRuntime.Sync.Listed

/-!
# The wait queue with a clock

`GetElapsedMS` is monotonic and counts milliseconds in 64 bits.  The machines of `WaitQueue`,
`FiberMutex` and `FiberSemaphore` are run beside such a clock: it moves between any two steps, a
step reads the time it is taken at, and the callback of a timer runs when the clock has reached the
timer's `next_`.  `next_` is the sum that the constructor of `Timer` makes, modulo `2 ^ 64`.

A call of `waitLocked` is punctual: it has the error `ETIMEDOUT` only after its timeout.  What
the steps do to a call is said once (`Moves`); this part of the argument does not depend on who
waits.
-/

namespace PulsarRuntime.Sync

/-- The time, what it was when each call of `waitLocked` entered, and the deadlines of their
timers. -/
structure Clock where
  now : ℕ
  entered : ℕ → ℕ
  next : ℕ → ℕ

/-- Time passes, or a step is taken. -/
inductive Timed (α : Type) where
  | tick (d : ℕ)
  | act (a : α)

namespace Clock

variable (clk : Clock)

def tick (d : ℕ) : Clock := { clk with now := clk.now + d }

/-- The call with number `c` enters. -/
def enters (c : ℕ) : Clock :=
  { clk with entered := Function.update clk.entered c clk.now }

/-- `addTimer(timeout_ms, ..)` for call `c`. -/
def arms (c timeout : ℕ) : Clock :=
  { clk with next := Function.update clk.next c ((clk.now + timeout) % 2 ^ 64) }

variable {F : Type} (q : WaitQueue F)

/-- What a step of the queue does to the clock. -/
def record : Action F → Clock
  | .enter _ _ _ _ => clk.enters q.count
  | .arm c =>
      if (q.calls c).timeout = kFiberWaitForever then clk else clk.arms c (q.calls c).timeout
  | _ => clk

theorem record_of_ne {q : WaitQueue F} {a : Action F} (hne : ∀ f k t d, a ≠ .enter f k t d) :
    clk.record q a = { clk with next := (clk.record q a).next } := by
  cases a with
  | enter f k t d => exact absurd rfl (hne f k t d)
  | arm c =>
    simp only [record]
    split <;> rfl
  | _ => rfl

theorem record_next_arm {c : ℕ} (h : (q.calls c).timeout ≠ kFiberWaitForever) :
    (clk.record q (.arm c)).next c = (clk.now + (q.calls c).timeout) % 2 ^ 64 := by
  simp only [record, if_neg h]
  exact Function.update_self ..

theorem record_next_other {a : Action F} {c : ℕ}
    (h : ¬(a = .arm c ∧ (q.calls c).timeout ≠ kFiberWaitForever)) :
    (clk.record q a).next c = clk.next c := by
  cases a with
  | arm d =>
    simp only [record]
    split
    · rfl
    · apply Function.update_of_ne
      rintro rfl
      exact h ⟨rfl, by assumption⟩
  | _ => rfl

/-- The callback of a timer runs no earlier than the timer is due. -/
def Due : Action F → Prop
  | .timeout c => clk.next c ≤ clk.now
  | _ => True

/-- The deadline of a timer is a 64-bit sum, and nobody else makes up a timeout. -/
def Sound : Action F → Prop
  | .arm c => (q.calls c).timeout = kFiberWaitForever ∨ clk.now + (q.calls c).timeout < 2 ^ 64
  | .wakeOne error | .wakeAll error => error ≠ ETIMEDOUT
  | _ => True

instance (clk : Clock) (a : Action F) : Decidable (clk.Due a) := by
  rcases a <;> (dsimp only [Due]; infer_instance)

instance (clk : Clock) (q : WaitQueue F) (a : Action F) : Decidable (clk.Sound q a) := by
  rcases a <;> (dsimp only [Sound]; infer_instance)

end Clock

variable {F : Type}

/-- `waitQueue` beside a clock. -/
def timedQueue (F : Type) : Machine (WaitQueue F × Clock) (Timed (Action F)) where
  init s := (waitQueue F).init s.1
  enabled s
    | .tick d => s.2.now + d < 2 ^ 64
    | .act a => (waitQueue F).enabled s.1 a ∧ s.2.Due a
  next s
    | .tick d => (s.1, s.2.tick d)
    | .act a => ((waitQueue F).next s.1 a, s.2.record s.1 a)

instance [DecidableEq F] (s : WaitQueue F × Clock) (a : Timed (Action F)) :
    Decidable ((timedQueue F).enabled s a) := by
  rcases a <;> (dsimp only [timedQueue]; infer_instance)

/-- The side condition of `timedQueue`. -/
def SoundQueue (s : WaitQueue F × Clock) : Timed (Action F) → Prop
  | .tick _ => True
  | .act a => s.2.Sound s.1 a

instance (s : WaitQueue F × Clock) (a : Timed (Action F)) : Decidable (SoundQueue s a) := by
  rcases a <;> (dsimp only [SoundQueue]; infer_instance)

/-- The record that a call starts with: its timeout, no error, and a return with `ETIMEDOUT` only
for a timeout of 0. -/
theorem WaitQueue.enter_calls_self (q : WaitQueue F) (fiber : F)
    (scheduler : Option SchedulerKind) (thread : ℤ) (timeout : ℕ) :
    ∃ pc : Pc, (q.enter fiber scheduler thread timeout).calls q.count =
        ⟨fiber, scheduler, thread, timeout, true, 0, pc, false, false⟩ ∧
      (pc = .returned ETIMEDOUT → timeout = 0) := by
  unfold enter
  cases scheduler with
  | none => exact ⟨_, setCall_calls_self .., fun h => absurd h (by decide)⟩
  | some kind =>
    dsimp only
    split
    · exact ⟨_, setCall_calls_self .., fun _ => by assumption⟩
    · exact ⟨_, setCall_calls_self .., fun h => by cases h⟩

/-! ### What a step does to the calls -/

/-- A step that admits no call: timeouts stay, and an error `ETIMEDOUT`, a return with it and a
timer all have a reason.  `due` are the calls whose timer callback runs, `armed` those that get a
timer. -/
structure Moves (q q' : WaitQueue F) (due armed : ℕ → Prop) : Prop where
  count : q'.count = q.count
  timeout : ∀ c, (q'.calls c).timeout = (q.calls c).timeout
  error : ∀ c, (q'.calls c).error = ETIMEDOUT → (q.calls c).error = ETIMEDOUT ∨ due c
  returned : ∀ c, (q'.calls c).pc = .returned ETIMEDOUT →
    (q.calls c).pc = .returned ETIMEDOUT ∨ (q.calls c).error = ETIMEDOUT ∨ due c
  timer : ∀ c, (q'.calls c).timer = true → (q.calls c).timer = true ∨ armed c

namespace Moves

variable {q q' q'' : WaitQueue F} {due armed : ℕ → Prop} {c : ℕ}

theorem refl (q : WaitQueue F) : Moves q q due armed :=
  ⟨rfl, fun _ => rfl, fun _ h => .inl h, fun _ h => .inl h, fun _ h => .inl h⟩

theorem trans (h : Moves q q' due armed) (h' : Moves q' q'' due armed) : Moves q q'' due armed where
  count := h'.count.trans h.count
  timeout c := (h'.timeout c).trans (h.timeout c)
  error c he := by
    rcases h'.error c he with he | hd
    · exact h.error c he
    · exact .inr hd
  returned c hr := by
    rcases h'.returned c hr with hr | he | hd
    · exact h.returned c hr
    · exact .inr (h.error c he)
    · exact .inr (.inr hd)
  timer c ht := by
    rcases h'.timer c ht with ht | ha
    · exact h.timer c ht
    · exact .inr ha

/-- One call is replaced afterwards. -/
theorem setCall (h : Moves q q' due armed) {k : Call F}
    (htimeout : k.timeout = (q.calls c).timeout)
    (herror : k.error = ETIMEDOUT → (q.calls c).error = ETIMEDOUT ∨ due c)
    (hreturned : k.pc = .returned ETIMEDOUT →
      (q.calls c).pc = .returned ETIMEDOUT ∨ (q.calls c).error = ETIMEDOUT ∨ due c)
    (htimer : k.timer = true → (q.calls c).timer = true ∨ armed c) :
    Moves q (q'.setCall c k) due armed := by
  have hcases : ∀ d, (q'.setCall c k).calls d = q'.calls d ∨
      (d = c ∧ (q'.setCall c k).calls d = k) := by
    intro d
    by_cases hd : d = c
    · subst hd
      exact .inr ⟨rfl, WaitQueue.setCall_calls_self q' d k⟩
    · exact .inl (WaitQueue.setCall_calls_ne q' k hd)
  constructor
  · exact h.count
  all_goals
    intro d
    rcases hcases d with heq | ⟨rfl, heq⟩
    all_goals rw [heq]
  · exact h.timeout d
  · exact htimeout
  · exact h.error d
  · exact herror
  · exact h.returned d
  · exact hreturned
  · exact h.timer d
  · exact htimer

/-- The program point alone. -/
theorem setPc (h : Moves q q' due armed) {pc : Pc}
    (hpc : pc = .returned ETIMEDOUT → (q.calls c).error = ETIMEDOUT) :
    Moves q (q'.setPc c pc) due armed :=
  h.setCall (h.timeout c) (h.error c) (fun hr => .inr (.inl (hpc hr))) (h.timer c)

variable {error : ℤ}

theorem complete (h : error = ETIMEDOUT → due c) : Moves q (q.complete c error) due armed := by
  have hset : Moves q (q.setCall c { q.calls c with waiting := false, error := error })
      due armed := (refl q).setCall rfl (fun he => .inr (h he)) .inl .inl
  exact ⟨hset.count, hset.timeout, hset.error, hset.returned, hset.timer⟩

theorem completeLocked (h : error = ETIMEDOUT → due c) :
    Moves q (q.completeLocked c error).1 due armed := by
  unfold WaitQueue.completeLocked
  split
  · exact refl q
  split
  · exact refl q
  · exact complete h

theorem wakeOneLocked (h : error ≠ ETIMEDOUT) : Moves q (q.wakeOneLocked error).1 due armed := by
  unfold WaitQueue.wakeOneLocked
  split
  · exact refl q
  · exact completeLocked fun he => absurd he h

theorem wakeAllLoop (h : error ≠ ETIMEDOUT) (fuel : ℕ) {q : WaitQueue F} :
    Moves q (WaitQueue.wakeAllLoop error fuel q).1 due armed := by
  induction fuel generalizing q with
  | zero => exact refl q
  | succ fuel ih =>
    unfold WaitQueue.wakeAllLoop
    split
    · exact (wakeOneLocked h).trans ih
    · exact refl q

theorem arm (h : (q.calls c).timeout ≠ kFiberWaitForever → armed c) :
    Moves q (q.arm c) due armed := by
  unfold WaitQueue.arm
  split
  · exact (refl q).setPc fun hr => by cases hr
  split
  · rename_i hfinite _
    exact (refl q).setCall rfl .inl (fun hr => by cases hr) fun _ => .inr (h hfinite)
  · exact (completeLocked fun he => absurd he (by decide)).setPc fun hr => absurd hr (by decide)

theorem resume {task : ℕ} : Moves q (q.resume c task) due armed := by
  have h : Moves q (q.setPc c .resumed) due armed := (refl q).setPc fun hr => by cases hr
  exact ⟨h.count, h.timeout, h.error, h.returned, h.timer⟩

theorem finish : Moves q (q.finish c) due armed := by
  have hfirst : Moves q (if (q.calls c).waiting then (q.completeLocked c ECANCELED).1 else q)
      due armed := by
    split
    · exact completeLocked fun he => absurd he (by decide)
    · exact refl q
  exact hfirst.setPc fun hr => Pc.returned.inj hr

/-- The callback clears the timer and completes the call. -/
theorem expire (h : due c) : Moves q (q.timeout c) due armed := by
  have hclear : Moves q (q.setCall c { q.calls c with timer := false }) due armed :=
    (refl q).setCall rfl .inl .inl fun ht => absurd ht Bool.false_ne_true
  exact hclear.trans (completeLocked fun _ => h)

/-- Every step that admits no call. -/
theorem next {clk : Clock} {a : Action F} (hs : clk.Sound q a)
    (hne : ∀ f k t d, a ≠ .enter f k t d) :
    Moves q ((waitQueue F).next q a) (fun c => a = .timeout c)
      fun c => a = .arm c ∧ (q.calls c).timeout ≠ kFiberWaitForever := by
  cases a with
  | enter f k t d => exact absurd rfl (hne f k t d)
  | arm c => exact arm fun hfinite => ⟨rfl, hfinite⟩
  | yield c => exact (refl q).setCall rfl .inl (fun hr => by cases hr) .inl
  | resume c task => exact resume
  | finish c => exact finish
  | timeout c => exact expire rfl
  | wakeOne error => exact wakeOneLocked hs
  | wakeAll error => exact wakeAllLoop hs _

end Moves

/-! ### Punctual calls -/

/-- A call of `waitLocked` that entered at `entered`, with the deadline `next` of its timer. -/
structure Call.Punctual (k : Call F) (entered next now : ℕ) : Prop where
  entered_le : entered ≤ now
  error : k.error = ETIMEDOUT → entered + k.timeout ≤ now
  returned : k.pc = .returned ETIMEDOUT → entered + k.timeout ≤ now
  timer : k.timer = true → entered + k.timeout ≤ next

def Punctual (clk : Clock) (q : WaitQueue F) : Prop :=
  ∀ c < q.count, (q.calls c).Punctual (clk.entered c) (clk.next c) clk.now

/-- The clock moves on, and the calls known before keep their entry and their timeout. -/
structure Passed (clk : Clock) (q : WaitQueue F) (clk' : Clock) (q' : WaitQueue F) : Prop where
  now_le : clk.now ≤ clk'.now
  count_le : q.count ≤ q'.count
  entered : ∀ c < q.count, clk'.entered c = clk.entered c
  timeout : ∀ c < q.count, (q'.calls c).timeout = (q.calls c).timeout

namespace Passed

variable {clk : Clock} {q q' : WaitQueue F}

theorem tick (d : ℕ) : Passed clk q (clk.tick d) q :=
  ⟨Nat.le_add_right _ _, le_rfl, fun _ _ => rfl, fun _ _ => rfl⟩

/-- The next number is stamped, whether or not a call takes it. -/
theorem enters (hcount : q.count ≤ q'.count)
    (htimeout : ∀ c < q.count, (q'.calls c).timeout = (q.calls c).timeout) :
    Passed clk q (clk.enters q.count) q' :=
  ⟨le_rfl, hcount, fun _ hc => Function.update_of_ne (Nat.ne_of_lt hc) .., htimeout⟩

end Passed

namespace Punctual

variable {clk : Clock} {q q' : WaitQueue F} {c : ℕ} (h : Punctual clk q)
include h

theorem tick (d : ℕ) : Punctual (clk.tick d) q := by
  intro c hc
  obtain ⟨hentered, herror, hreturned, htimer⟩ := h c hc
  have hle : clk.now ≤ (clk.tick d).now := Nat.le_add_right _ _
  exact ⟨hentered.trans hle, fun he => (herror he).trans hle, fun hr => (hreturned hr).trans hle,
    htimer⟩

theorem enters : Punctual (clk.enters q.count) q := by
  intro c hc
  have hentered : (clk.enters q.count).entered c = clk.entered c :=
    Function.update_of_ne (Nat.ne_of_lt hc) ..
  rw [hentered]
  exact h c hc

/-- A step that admits no call, if its timer was due and the timers it arms are late enough. -/
theorem moves {due armed : ℕ → Prop} (hm : Moves q q' due armed)
    {next : ℕ → ℕ} (hdue : ∀ c, due c → (q.calls c).timer = true ∧ clk.next c ≤ clk.now)
    (harmed : ∀ c, armed c → clk.now + (q.calls c).timeout ≤ next c)
    (hother : ∀ c, ¬armed c → next c = clk.next c) :
    Punctual { clk with next := next } q' := by
  intro c hc
  rw [hm.count] at hc
  obtain ⟨hentered, herror, hreturned, htimer⟩ := h c hc
  have hlate : due c → clk.entered c + (q.calls c).timeout ≤ clk.now := by
    intro hd
    obtain ⟨ht, hle⟩ := hdue c hd
    exact (htimer ht).trans hle
  refine ⟨hentered, ?_, ?_, ?_⟩ <;> rw [hm.timeout c]
  · intro he
    exact (hm.error c he).elim herror hlate
  · intro hr
    exact (hm.returned c hr).elim hreturned fun h => h.elim herror hlate
  · intro ht
    by_cases ha : armed c
    · exact (Nat.add_le_add_right hentered _).trans (harmed c ha)
    · show _ ≤ next c
      rw [hother c ha]
      exact htimer ((hm.timer c ht).resolve_right ha)

/-- A call enters. -/
theorem enter (fiber : F) (scheduler : Option SchedulerKind) (thread : ℤ) (timeout : ℕ) :
    Punctual (clk.enters q.count) (q.enter fiber scheduler thread timeout) := by
  obtain ⟨pc, hcall, hpc⟩ := WaitQueue.enter_calls_self q fiber scheduler thread timeout
  intro c hc
  rw [(q.enter_spec fiber scheduler thread timeout).1] at hc
  rcases Nat.lt_succ_iff_lt_or_eq.mp hc with hlt | rfl
  · rw [q.enter_calls_of_lt fiber scheduler thread timeout hlt]
    exact h.enters c hlt
  · have hentered : (clk.enters q.count).entered q.count = clk.now := Function.update_self ..
    rw [hcall, hentered]
    have hzero : (0 : ℤ) ≠ ETIMEDOUT := by decide
    refine ⟨le_rfl, fun he => absurd he hzero, fun hr => ?_, fun ht => by cases ht⟩
    exact (congrArg (clk.now + ·) (hpc hr)).le

/-- Every step of the queue. -/
theorem next {a : Action F} (he : (waitQueue F).enabled q a) (hd : clk.Due a) (hs : clk.Sound q a) :
    Punctual (clk.record q a) ((waitQueue F).next q a) := by
  by_cases henter : ∃ f k t d, a = .enter f k t d
  · obtain ⟨f, k, t, d, rfl⟩ := henter
    exact h.enter f k t d
  · have hne : ∀ f k t d, a ≠ .enter f k t d := fun f k t d ha => henter ⟨f, k, t, d, ha⟩
    rw [clk.record_of_ne hne]
    apply h.moves (Moves.next hs hne)
    · rintro c rfl
      exact ⟨he.2, hd⟩
    · rintro c ⟨rfl, hfinite⟩
      have hsum : clk.now + (q.calls c).timeout < 2 ^ 64 := hs.resolve_left hfinite
      rw [clk.record_next_arm q hfinite, Nat.mod_eq_of_lt hsum]
    · exact fun c hc => clk.record_next_other q hc

end Punctual

theorem Passed.next {clk : Clock} {q : WaitQueue F} {a : Action F} (hs : clk.Sound q a) :
    Passed clk q (clk.record q a) ((waitQueue F).next q a) := by
  by_cases henter : ∃ f k t d, a = .enter f k t d
  · obtain ⟨f, k, t, d, rfl⟩ := henter
    apply Passed.enters
    · exact (Nat.le_succ _).trans (q.enter_spec f k t d).1.ge
    · exact fun c hc => congrArg Call.timeout (q.enter_calls_of_lt f k t d hc)
  · have hne : ∀ f k t d, a ≠ .enter f k t d := fun f k t d ha => henter ⟨f, k, t, d, ha⟩
    have hm := Moves.next hs hne
    rw [clk.record_of_ne hne]
    exact ⟨le_rfl, hm.count.ge, fun _ _ => rfl, fun c _ => hm.timeout c⟩

/-! ### `waitLocked` -/

theorem timedQueue_punctual {s : WaitQueue F × Clock}
    (h : (timedQueue F).ReachVia SoundQueue s) : Punctual s.2 s.1 := by
  apply h.invariant (I := fun s => Punctual s.2 s.1)
  · rintro ⟨q, clk⟩ ⟨hcount, -⟩ c hc
    exact absurd hc (by rw [hcount]; exact Nat.not_lt_zero c)
  · rintro ⟨q, clk⟩ a hp he hok
    cases a with
    | tick d => exact hp.tick d
    | act a => exact hp.next he.1 he.2 hok

end PulsarRuntime.Sync
