import PulsarRuntime.Rpc.Provider

/-!
# One completion for each request of a plain channel

Whoever comes first in `CallContext::Finish` decides the outcome and hands the Fiber over; all
others are inert.  `Plain` is the account of one request.  The response is written only after
`Handle` has seen outcome 1, which only the closure sets, and has found the provider accepting;
since a provider that has stopped does not accept again, a closure that runs too late has no effect
on any connection.
-/

namespace PulsarRuntime.Rpc.Serve

namespace Request

/-- What `Handle`'s place in its loop says about the request. -/
def AtPc (r : Request) : Prop :=
  match r.pc with
  | .entering => r.handler = .idle ∧ r.countedIn = false ∧ r.undone = false
  | .submitting | .undoing => r.handler = .idle ∧ r.countedIn = true ∧ r.undone = false
  | .ended => True
  | _ => r.countedIn = true ∧ r.multiplexed = false

/-- What holds of every request. -/
structure Sound (r : Request) : Prop where
  atPc : r.AtPc
  fresh : r.handler = .idle ∨ r.handler = .queued → r.closure = .absent
  counted : r.handler ≠ .idle → r.countedIn = true ∧ r.undone = false
  multiplexed : r.closure = .scheduled ∨ r.closure = .responded ∨ r.closure = .finished →
    r.multiplexed = true
  plain : r.closure = .counted ∨ r.closure = .ran → r.multiplexed = false

/-- The response may be written: the closure came first, in time, and the provider accepted. -/
structure Answerable (r : Request) : Prop where
  outcome : r.outcome = 1
  inTime : r.late = false
  accepting : r.stillAccepting = true

/-- How often the Fiber has yielded for the request and been resumed. -/
def Fiber (r : Request) : Prop :=
  match r.pc with
  | .entering | .submitting | .undoing | .rejecting | .arming | .yielding =>
    r.yields = 0 ∧ r.resumes = 0
  | .yielded => r.yields = 1 ∧ r.resumes = 0
  | .checking | .preparing | .writing => r.yields = 1 ∧ r.resumes = 1
  | .ended => r.yields = r.resumes ∧ r.yields ≤ 1

/-- The account of a request of a plain channel. -/
structure Plain (r : Request) (accepting : Bool) : Prop where
  balance : r.handed + (if r.claimed then 1 else 0) = if r.outcome = 0 then 0 else 1
  fiber : r.Fiber
  matched : r.resumes ≤ r.handed
  outcome : r.outcome ≤ 2
  first : r.outcome = 1 → r.closure = .ran
  late : r.late = true → r.outcome = 2 ∨ accepting = false
  answering : r.pc = .preparing ∨ r.pc = .writing → r.Answerable

/-- What a step may do to a request. -/
structure Moves (r r' : Request) (accepting : Bool) : Prop where
  conn : r'.conn = r.conn
  mode : r'.multiplexed = r.multiplexed
  counted : r'.countedIn = true → r.countedIn = true ∨ accepting = true
  decided : r.multiplexed = false → r.outcome ≠ 0 → r'.outcome = r.outcome
  sound : r.Sound → r'.Sound
  plain : r.Sound → r.multiplexed = false → r.Plain accepting → r'.Plain accepting
  answerable : r.Sound → r.multiplexed = false → r.Plain accepting → r.Answerable →
    r'.Answerable

variable {r : Request} {accepting : Bool} {handler : Handler} {timer : CallTimer}

/-- `Handle` goes on. -/
theorem moves_pc {q : Pc} {undone : Bool} {yields resumes : ℕ} (hsound : r.Sound →
      { r with pc := q, handler := handler, timer := timer, undone := undone }.Sound)
    (hfiber : r.Fiber → { r with pc := q, yields := yields, resumes := resumes }.Fiber)
    (hmatched : r.resumes ≤ r.handed → resumes ≤ r.handed)
    (hq : q = .preparing ∨ q = .writing → r.pc = .preparing ∨ r.pc = .writing) :
    r.Moves { r with
      pc := q, handler := handler, timer := timer, undone := undone, yields := yields
      resumes := resumes } accepting where
  conn := rfl
  mode := rfl
  counted := .inl
  decided _ _ := rfl
  sound h := ⟨(hsound h).atPc, (hsound h).fresh, (hsound h).counted, (hsound h).multiplexed,
    (hsound h).plain⟩
  plain _ _ h := { h with
    fiber := hfiber h.fiber
    matched := hmatched h.matched
    answering := fun hpc => ⟨(h.answering (hq hpc)).outcome, (h.answering (hq hpc)).inTime,
      (h.answering (hq hpc)).accepting⟩ }
  answerable _ _ _ h := ⟨h.outcome, h.inTime, h.accepting⟩

/-- `Finish` by another party than the closure. -/
theorem finish_sound (h : r.Sound) (value : ℕ) : (r.finish value).Sound := by
  simp only [finish]
  split
  · exact ⟨h.atPc, h.fresh, h.counted, h.multiplexed, h.plain⟩
  · exact h

@[simp]
theorem finish_pc (value : ℕ) : (r.finish value).pc = r.pc := by
  simp only [finish]
  split <;> rfl

theorem finish_plain (h : r.Plain accepting) : (r.finish 2).Plain accepting := by
  simp only [finish]
  split
  next hzero =>
    have hbalance := h.balance
    simp only [hzero, if_true] at hbalance
    refine ⟨by simp; omega, h.fiber, h.matched, le_rfl, nofun, fun _ => .inl rfl, fun hpc => ?_⟩
    have := (h.answering hpc).outcome
    omega
  · exact h

theorem finish_answerable {value : ℕ} (h : r.Answerable) : r.finish value = r := by
  simp [finish, h.outcome]

theorem moves_finish : r.Moves (r.finish 2) accepting where
  conn := by
    simp only [finish]
    split <;> rfl
  mode := by
    simp only [finish]
    split <;> rfl
  counted hcounted := by
    simp only [finish] at hcounted
    split at hcounted <;> exact .inl hcounted
  decided _ hne := by rw [finish, if_neg hne]
  sound h := finish_sound h 2
  plain _ _ h := finish_plain h
  answerable _ _ _ h := by rwa [finish_answerable h]

theorem Moves.refl (r : Request) (accepting : Bool) : r.Moves r accepting :=
  ⟨rfl, rfl, .inl, fun _ _ => rfl, id, fun _ _ => id, fun _ _ _ => id⟩

theorem Moves.trans {r' r'' : Request} (h : r.Moves r' accepting) (h' : r'.Moves r'' accepting) :
    r.Moves r'' accepting where
  conn := h'.conn.trans h.conn
  mode := h'.mode.trans h.mode
  counted hcounted := (h'.counted hcounted).elim h.counted .inr
  decided hmode hne := by
    rw [h'.decided (h.mode.trans hmode) (by rwa [h.decided hmode hne]), h.decided hmode hne]
  sound hs := h'.sound (h.sound hs)
  plain hs hmode hp := h'.plain (h.sound hs) (h.mode.trans hmode) (h.plain hs hmode hp)
  answerable hs hmode hp ha := h'.answerable (h.sound hs) (h.mode.trans hmode)
    (h.plain hs hmode hp) (h.answerable hs hmode hp ha)

theorem Sound.with_pc (h : r.Sound) {q : Pc} (hq : { r with pc := q }.AtPc) :
    { r with pc := q }.Sound :=
  ⟨hq, h.fresh, h.counted, h.multiplexed, h.plain⟩

theorem moves_ended (hpc : r.pc ≠ .yielded) : r.Moves { r with pc := .ended } accepting := by
  refine moves_pc (fun h => h.with_pc trivial) (fun h => ?_) id nofun
  simp only [Fiber] at h ⊢
  split at h <;> first | contradiction | omega

theorem moves_enter (hpc : r.pc = .entering) (haccepting : accepting = true) :
    r.Moves { r with pc := .submitting, countedIn := true } accepting where
  conn := rfl
  mode := rfl
  counted _ := .inr haccepting
  decided _ _ := rfl
  sound h := by
    have hat := h.atPc
    simp only [AtPc, hpc] at hat
    exact ⟨⟨hat.1, rfl, hat.2.2⟩, h.fresh, fun hne => absurd hat.1 hne, h.multiplexed, h.plain⟩
  plain _ _ h := { h with
    fiber := by simpa [Fiber, hpc] using h.fiber
    answering := nofun }
  answerable _ _ _ h := ⟨h.outcome, h.inTime, h.accepting⟩

theorem moves_queue (hpc : r.pc = .submitting) (hmode : r.multiplexed = false) :
    r.Moves { r with pc := .arming, handler := .queued } accepting := by
  refine moves_pc (fun h => ?_) (fun h => by simpa [Fiber, hpc] using h) id nofun
  have hat := h.atPc
  simp only [AtPc, hpc] at hat
  exact ⟨⟨hat.2.1, hmode⟩, fun _ => h.fresh (.inl hat.1), fun _ => hat.2, h.multiplexed, h.plain⟩

theorem moves_pass (hpc : r.pc = .submitting) :
    r.Moves { r with pc := .ended, handler := .queued } accepting := by
  refine moves_pc (fun h => ?_) (fun h => ?_) id nofun
  · have hat := h.atPc
    simp only [AtPc, hpc] at hat
    exact ⟨trivial, fun _ => h.fresh (.inl hat.1), fun _ => hat.2, h.multiplexed, h.plain⟩
  · simp only [Fiber, hpc] at h
    simp [Fiber, h]

theorem moves_refuse (hpc : r.pc = .submitting) : r.Moves { r with pc := .undoing } accepting := by
  refine moves_pc (fun h => h.with_pc ?_) (fun h => by simpa [Fiber, hpc] using h) id nofun
  simpa only [AtPc, hpc] using h.atPc

/-- The rejection is counted, and `Handle` goes on at `q`. -/
theorem moves_undo {q : Pc} (hpc : r.pc = .undoing)
    (hq : q = .rejecting ∧ r.multiplexed = false ∨ q = .ended) :
    r.Moves { r with pc := q, undone := true } accepting := by
  refine moves_pc (fun h => ?_) (fun h => ?_) id ?_
  · have hat := h.atPc
    simp only [AtPc, hpc] at hat
    refine ⟨?_, h.fresh, fun hne => absurd hat.1 hne, h.multiplexed, h.plain⟩
    obtain ⟨rfl, hmode⟩ | rfl := hq
    · exact ⟨hat.2.1, hmode⟩
    · exact trivial
  · simp only [Fiber, hpc] at h
    obtain ⟨rfl, -⟩ | rfl := hq <;> simp [Fiber, h]
  · obtain ⟨rfl, -⟩ | rfl := hq <;> nofun

theorem moves_arm (hpc : r.pc = .arming) :
    r.Moves { r with pc := .yielding, timer := timer } accepting := by
  refine moves_pc (fun h => ?_) (fun h => by simpa [Fiber, hpc] using h) id nofun
  have hat := h.atPc
  simp only [AtPc, hpc] at hat
  exact ⟨hat, h.fresh, h.counted, h.multiplexed, h.plain⟩

theorem moves_reject (hpc : r.pc = .rejecting) :
    r.Moves { r.finish 2 with pc := .arming } accepting := by
  refine moves_finish.trans (moves_pc (fun h => h.with_pc ?_) (fun h => ?_) id nofun)
  · have hat := h.atPc
    simpa [AtPc, finish_pc, hpc] using hat
  · simpa [Fiber, finish_pc, hpc] using h

theorem moves_yield (hpc : r.pc = .yielding) :
    r.Moves { r with pc := .yielded, yields := r.yields + 1 } accepting := by
  refine moves_pc (fun h => h.with_pc ?_) (fun h => ?_) id nofun
  · simpa only [AtPc, hpc] using h.atPc
  · simp only [Fiber, hpc] at h
    simp [Fiber, h]

theorem moves_resume (hpc : r.pc = .yielded) (hhanded : r.resumes < r.handed) :
    r.Moves { r with pc := .checking, resumes := r.resumes + 1, timer := timer } accepting := by
  refine moves_pc (fun h => ?_) (fun h => ?_) (fun _ => hhanded) nofun
  · have hat := h.atPc
    simp only [AtPc, hpc] at hat
    exact ⟨hat, h.fresh, h.counted, h.multiplexed, h.plain⟩
  · simp only [Fiber, hpc] at h
    simp [Fiber, h]

/-- A closure that was late cannot have completed the call of a provider that still accepts. -/
theorem Plain.inTime (h : r.Plain true) (houtcome : r.outcome = 1) : r.late = false := by
  by_contra hlate
  obtain htwo | hfalse := h.late (by simpa using hlate)
  · omega
  · exact Bool.noConfusion hfalse

theorem moves_check (hpc : r.pc = .checking) (houtcome : r.outcome = 1) :
    r.Moves { r with pc := .preparing, stillAccepting := true } true where
  conn := rfl
  mode := rfl
  counted := .inl
  decided _ _ := rfl
  sound h := by
    have hat := h.atPc
    simp only [AtPc, hpc] at hat
    exact ⟨hat, h.fresh, h.counted, h.multiplexed, h.plain⟩
  plain _ _ h := { h with
    fiber := by simpa only [Fiber, hpc] using h.fiber
    answering := fun _ => ⟨houtcome, h.inTime houtcome, rfl⟩ }
  answerable _ _ _ h := ⟨h.outcome, h.inTime, rfl⟩

theorem moves_prepare (hpc : r.pc = .preparing) : r.Moves { r with pc := .writing } accepting := by
  refine moves_pc (fun h => h.with_pc ?_) (fun h => by simpa [Fiber, hpc] using h) id
    fun _ => .inl hpc
  simpa only [AtPc, hpc] using h.atPc

variable {closure : Closure}

/-- The handler or its closure goes on, in a way that `Handle` does not see. -/
theorem moves_closure (hsound : r.Sound → { r with handler := handler, closure := closure }.Sound)
    (hran : r.Sound → r.closure = .ran → closure = .ran) :
    r.Moves { r with handler := handler, closure := closure } accepting where
  conn := rfl
  mode := rfl
  counted := .inl
  decided _ _ := rfl
  sound := hsound
  plain hs _ h := { h with
    first := fun houtcome => hran hs (h.first houtcome)
    answering := fun hpc => ⟨(h.answering hpc).outcome, (h.answering hpc).inTime,
      (h.answering hpc).accepting⟩ }
  answerable _ _ _ h := ⟨h.outcome, h.inTime, h.accepting⟩

/-- A handler that is not idle is not in the way of `Handle`. -/
theorem AtPc.with_handler (h : r.AtPc)
    (hbusy : r.handler ≠ .idle) : { r with handler := handler, closure := closure }.AtPc := by
  simp only [AtPc] at h ⊢
  split at h <;> simp_all

theorem moves_start (hqueued : r.handler = .queued) :
    r.Moves { r with handler := .running, closure := .ready } accepting := by
  have hbusy : r.handler ≠ .idle := by simp [hqueued]
  refine moves_closure (fun h => ?_) fun h hran => ?_
  · exact ⟨h.atPc.with_handler hbusy, nofun, fun _ => h.counted hbusy, nofun, nofun⟩
  · cases (h.fresh (.inr hqueued)).symm.trans hran

theorem moves_handled (hrunning : r.handler = .running) :
    r.Moves { r with handler := .returned } accepting := by
  have hbusy : r.handler ≠ .idle := by simp [hrunning]
  refine moves_closure (fun h => ?_) fun _ => id
  exact ⟨h.atPc.with_handler hbusy, nofun, fun _ => h.counted hbusy, h.multiplexed, h.plain⟩

/-- A closure that exists keeps its handler out of the queue, whatever it does next. -/
theorem Sound.with_closure (h : r.Sound) (hexists : r.closure ≠ .absent)
    (hmultiplexed : closure = .scheduled ∨ closure = .responded ∨ closure = .finished →
      r.multiplexed = true)
    (hplain : closure = .counted ∨ closure = .ran → r.multiplexed = false) :
    { r with closure := closure }.Sound :=
  ⟨h.atPc, fun hidle => absurd (h.fresh hidle) hexists, h.counted, hmultiplexed, hplain⟩

theorem moves_run (hready : r.closure = .ready) (hmode : r.multiplexed = false) :
    r.Moves { r with closure := .counted, late := r.outcome ≠ 0 || !accepting } accepting := by
  have hfirst (h : r.Plain accepting) : r.outcome ≠ 1 := by
    intro houtcome
    cases hready.symm.trans (h.first houtcome)
  refine ⟨rfl, rfl, .inl, fun _ _ => rfl, fun h => ?_, fun _ _ h => ?_,
    fun _ _ h ha => absurd ha.outcome (hfirst h)⟩
  · have : { r with closure := .counted }.Sound :=
      h.with_closure (by simp [hready]) nofun fun _ => hmode
    exact ⟨this.atPc, this.fresh, this.counted, this.multiplexed, this.plain⟩
  · refine ⟨h.balance, h.fiber, h.matched, h.outcome, fun houtcome => absurd houtcome (hfirst h),
      fun hlate => ?_, fun hpc => absurd (h.answering hpc).outcome (hfirst h)⟩
    have hle := h.outcome
    have hne := hfirst h
    simp only [Bool.or_eq_true, decide_eq_true_eq, Bool.not_eq_true'] at hlate
    obtain hzero | hstopped := hlate
    · left
      change r.outcome = 2
      omega
    · exact .inr hstopped

/-- `Finish(1)`, and the closure is gone. -/
theorem moves_ran (hcounted : r.closure = .counted) :
    r.Moves { r.finish 1 with closure := .ran } accepting := by
  refine ⟨?_, ?_, fun hcounted => ?_, fun _ hne => ?_, fun h => ?_, fun _ _ h => ?_,
    fun _ _ _ h => ?_⟩
  · simp only [finish]
    split <;> rfl
  · simp only [finish]
    split <;> rfl
  · simp only [finish] at hcounted
    split at hcounted <;> exact .inl hcounted
  · rw [finish, if_neg hne]
  · have hfinish := finish_sound h 1
    have hclosure : (r.finish 1).closure = .counted := by
      simp only [finish]
      split <;> exact hcounted
    exact hfinish.with_closure (by simp [hclosure]) nofun fun _ =>
      hfinish.plain (.inl hclosure)
  · simp only [finish]
    split
    next hzero =>
      have hbalance := h.balance
      simp only [hzero, if_true] at hbalance
      refine ⟨by simp; omega, h.fiber, h.matched, by simp, fun _ => rfl, fun hlate => ?_,
        fun hpc => ?_⟩
      · refine (h.late hlate).imp (fun htwo => ?_) id
        omega
      · have := (h.answering hpc).outcome
        omega
    next hclaimed =>
      exact { h with
        first := fun _ => rfl
        answering := fun hpc => ⟨(h.answering hpc).outcome, (h.answering hpc).inTime,
          (h.answering hpc).accepting⟩ }
  · rw [finish_answerable h]
    exact ⟨h.outcome, h.inTime, h.accepting⟩

/-- Nothing is claimed here about what becomes of a request of a multiplexed channel. -/
theorem moves_multiplexed {outcome : ℕ} (hmode : r.multiplexed = true)
    (hsound : r.Sound → { r with closure := closure, handler := handler }.Sound) :
    r.Moves { r with closure := closure, handler := handler, outcome := outcome } accepting where
  conn := rfl
  mode := rfl
  counted := .inl
  decided hplain := by simp [hmode] at hplain
  sound h := ⟨(hsound h).atPc, (hsound h).fresh, (hsound h).counted, (hsound h).multiplexed,
    (hsound h).plain⟩
  plain _ hplain := by simp [hmode] at hplain
  answerable _ hplain := by simp [hmode] at hplain

theorem moves_hand (hclaimed : r.claimed = true) :
    r.Moves { r with claimed := false, handed := r.handed + 1 } accepting where
  conn := rfl
  mode := rfl
  counted := .inl
  decided _ _ := rfl
  sound h := ⟨h.atPc, h.fresh, h.counted, h.multiplexed, h.plain⟩
  plain _ _ h := { h with
    balance := by simpa [hclaimed] using h.balance
    matched := Nat.le_succ_of_le h.matched
    answering := fun hpc => ⟨(h.answering hpc).outcome, (h.answering hpc).inTime,
      (h.answering hpc).accepting⟩ }
  answerable _ _ _ h := ⟨h.outcome, h.inTime, h.accepting⟩

theorem moves_timer : r.Moves { r with timer := timer } accepting :=
  moves_pc (fun h => ⟨h.atPc, h.fresh, h.counted, h.multiplexed, h.plain⟩) id id id

end Request

/-- What a step may do to the provider. -/
structure Steps (s s' : Provider) : Prop where
  count : s.count ≤ s'.count
  moves : ∀ k < s.count, (s.requests k).Moves (s'.requests k) s.accepting
  arrived : ∀ k < s'.count, k < s.count ∨ ∃ c multiplexed, s'.requests k = .new c multiplexed
  accepting : s'.accepting = s.accepting ∨ s'.accepting = false
  writes : ∀ c k, (c, k) ∈ s'.writes → (c, k) ∈ s.writes ∨
    k < s.count ∧ c = (s.requests k).conn ∧
      ((s.requests k).multiplexed = false → (s.requests k).pc = .writing)

structure Inv (s : Provider) : Prop where
  sound : ∀ k < s.count, (s.requests k).Sound
  plain : ∀ k < s.count, (s.requests k).multiplexed = false → (s.requests k).Plain s.accepting
  writes : ∀ c k, (c, k) ∈ s.writes → k < s.count ∧ ((s.requests k).multiplexed = false →
    c = (s.requests k).conn ∧ (s.requests k).Answerable)

theorem inv_of_init {s : Provider} (h : provider.init s) : Inv s := by
  obtain ⟨-, -, -, -, hcount, -, -, hwrites⟩ := h
  constructor <;> simp [hcount, hwrites]

theorem Request.Plain.stop {r : Request} {accepting : Bool} (h : r.Plain accepting) :
    r.Plain false :=
  { h with late := fun _ => .inr rfl }

theorem Request.sound_new (c : ℕ) (multiplexed : Bool) : (Request.new c multiplexed).Sound := by
  constructor <;> simp [Request.new, Request.AtPc]

theorem Request.plain_new (c : ℕ) (multiplexed accepting : Bool) :
    (Request.new c multiplexed).Plain accepting := by
  constructor <;> simp [Request.new, Request.Fiber]

theorem Inv.step {s s' : Provider} (h : Inv s) (hs : Steps s s') : Inv s' := by
  have hplain (k : ℕ) (hk : k < s.count) (hmode : (s'.requests k).multiplexed = false) :
      (s'.requests k).Plain s.accepting := by
    have hm := hs.moves k hk
    rw [hm.mode] at hmode
    exact hm.plain (h.sound k hk) hmode (h.plain k hk hmode)
  refine ⟨fun k hk => ?_, fun k hk hmode => ?_, fun c k hwrite => ?_⟩
  · obtain hold | ⟨c, multiplexed, hnew⟩ := hs.arrived k hk
    · exact (hs.moves k hold).sound (h.sound k hold)
    · rw [hnew]
      exact Request.sound_new c multiplexed
  · obtain hold | ⟨c, multiplexed, hnew⟩ := hs.arrived k hk
    · obtain haccepting | haccepting := hs.accepting
      · rw [haccepting]
        exact hplain k hold hmode
      · rw [haccepting]
        exact (hplain k hold hmode).stop
    · rw [hnew]
      exact Request.plain_new c multiplexed s'.accepting
  · -- the request was answerable before the step, and stays so
    have hwritten : k < s.count ∧ ((s.requests k).multiplexed = false →
        c = (s.requests k).conn ∧ (s.requests k).Answerable) := by
      obtain hold | ⟨hk, hconn, hpc⟩ := hs.writes c k hwrite
      · exact h.writes c k hold
      · exact ⟨hk, fun hmode => ⟨hconn, (h.plain k hk hmode).answering (.inr (hpc hmode))⟩⟩
    obtain ⟨hk, hwritten⟩ := hwritten
    have hm := hs.moves k hk
    refine ⟨Nat.lt_of_lt_of_le hk hs.count, fun hmode => ?_⟩
    rw [hm.mode] at hmode
    obtain ⟨hconn, hanswerable⟩ := hwritten hmode
    exact ⟨hconn.trans hm.conn.symm,
      hm.answerable (h.sound k hk) hmode (h.plain k hk hmode) hanswerable⟩

namespace Steps

variable {s : Provider} {k : ℕ}

/-- A step of request `k`. -/
theorem change {r : Request} (hm : (s.requests k).Moves r s.accepting) :
    Steps s (s.setRequest k r) := by
  refine ⟨le_rfl, fun j hj => ?_, fun j hj => .inl hj, .inl rfl, fun c j hwrite => .inl hwrite⟩
  by_cases hjk : j = k
  · subst hjk
    simpa [Provider.setRequest] using hm
  · simpa [Provider.setRequest, hjk] using Request.Moves.refl (s.requests j) s.accepting

/-- The counters, the connections and the `Stop` calls do not matter. -/
theorem frame {s' s'' : Provider} (h : Steps s s') (hrequests : s''.requests = s'.requests)
    (hcount : s''.count = s'.count) (haccepting : s''.accepting = s'.accepting)
    (hwrites : s''.writes = s'.writes) : Steps s s'' := by
  obtain ⟨hle, hmoves, harrived, hstopped, hwritten⟩ := h
  rw [← hrequests] at hmoves
  rw [← haccepting] at hstopped
  rw [← hwrites] at hwritten
  rw [← hcount] at hle
  rw [← hcount, ← hrequests] at harrived
  exact ⟨hle, hmoves, harrived, hstopped, hwritten⟩

theorem refl (s : Provider) : Steps s s :=
  ⟨le_rfl, fun j _ => .refl (s.requests j) s.accepting, fun _ hj => .inl hj, .inl rfl,
    fun _ _ hwrite => .inl hwrite⟩

/-- `Handle` is done with the request after it became `r`. -/
theorem turn {r : Request} (leave : Bool)
    (hm : (s.requests k).Moves { r with pc := .ended } s.accepting) :
    Steps s ((s.setRequest k r).turn k leave) := by
  refine (change hm).frame ?_ rfl rfl rfl
  simp [Provider.turn, Provider.setPc, Provider.setRequest]

theorem ended {leave : Bool} (hpc : (s.requests k).pc ≠ .yielded) : Steps s (s.turn k leave) :=
  (change (Request.moves_ended hpc)).frame rfl rfl rfl rfl

theorem enter (hpc : (s.requests k).pc = .entering) : Steps s (s.enter k) := by
  simp only [Provider.enter]
  split
  · exact ended (by simp [hpc])
  next hgo =>
    simp only [not_or, Bool.not_eq_false] at hgo
    exact (change (Request.moves_enter hpc hgo.1)).frame rfl rfl rfl rfl

theorem submit {queued : Bool} (hpc : (s.requests k).pc = .submitting) :
    Steps s (s.submit k queued) := by
  simp only [Provider.submit]
  split
  · split
    next hmode => exact turn false (Request.moves_pass hpc)
    next hmode => exact change (Request.moves_queue hpc (by simpa using hmode))
  · exact change (Request.moves_refuse hpc)

theorem undo (hpc : (s.requests k).pc = .undoing) : Steps s (s.undo k) := by
  simp only [Provider.undo]
  split
  next hmode =>
    exact (turn true (Request.moves_undo hpc (.inr rfl))).frame rfl rfl rfl rfl
  next hmode =>
    exact (change (Request.moves_undo hpc (.inl ⟨rfl, by simpa using hmode⟩))).frame
      rfl rfl rfl rfl

theorem check (hpc : (s.requests k).pc = .checking) : Steps s (s.check k) := by
  simp only [Provider.check]
  split
  next hgo =>
    obtain ⟨houtcome, -, haccepting⟩ := hgo
    refine change ?_
    rw [haccepting]
    exact Request.moves_check hpc houtcome
  · exact ended (by simp [hpc])

theorem prepare {ok : Bool} (hpc : (s.requests k).pc = .preparing) : Steps s (s.prepare k ok) := by
  simp only [Provider.prepare]
  split
  · exact change (Request.moves_prepare hpc)
  · exact ended (by simp [hpc])

/-- Bytes of the response are written after the request became `r`. -/
theorem write {s' : Provider} (h : Steps s s') (hk : k < s.count)
    (hconn : (s'.requests k).conn = (s.requests k).conn)
    (hpc : (s.requests k).multiplexed = false → (s.requests k).pc = .writing) :
    Steps s (s'.write k) := by
  refine ⟨h.count, h.moves, h.arrived, h.accepting, fun c j hwrite => ?_⟩
  simp only [Provider.write, List.mem_append, List.mem_singleton, Prod.mk.injEq] at hwrite
  obtain hold | ⟨rfl, rfl⟩ := hwrite
  · exact h.writes c j hold
  · exact .inr ⟨hk, hconn, hpc⟩

theorem run (hready : (s.requests k).closure = .ready) : Steps s (s.run k) := by
  simp only [Provider.run]
  split
  next hmode =>
    refine change (Request.moves_multiplexed hmode fun hs => ?_)
    exact hs.with_closure (by simp [hready]) (fun _ => hmode) nofun
  next hmode =>
    exact (change (Request.moves_run hready (by simpa using hmode))).frame rfl rfl rfl rfl

theorem throw (hrunning : (s.requests k).handler = .running)
    (hready : (s.requests k).multiplexed = true → (s.requests k).closure = .ready) :
    Steps s (s.throw k) := by
  simp only [Provider.throw]
  split
  next hmode =>
    refine change ((Request.moves_handled hrunning).trans
      (Request.moves_multiplexed hmode fun hs => ?_))
    exact hs.with_closure (by simp [hready hmode]) (fun _ => hmode) nofun
  · exact change ((Request.moves_handled hrunning).trans Request.moves_finish)

theorem respond (hk : k < s.count) (hmode : (s.requests k).multiplexed = true)
    (hscheduled : (s.requests k).closure = .scheduled) : Steps s (s.respond k) := by
  have hmoved : Steps s (s.setRequest k { s.requests k with closure := .responded }) := by
    refine change (Request.moves_multiplexed hmode fun hs => ?_)
    exact hs.with_closure (by simp [hscheduled]) (fun _ => hmode) nofun
  simp only [Provider.respond]
  split
  · exact hmoved
  · exact hmoved.write hk (by simp [Provider.setRequest]) (by simp [hmode])

theorem settle (hmode : (s.requests k).multiplexed = true)
    (hresponded : (s.requests k).closure = .responded) : Steps s (s.settle k) := by
  refine (change (Request.moves_multiplexed hmode fun hs => ?_)).frame rfl rfl rfl rfl
  exact hs.with_closure (by simp [hresponded]) (fun _ => hmode) nofun

theorem arrive (c : ℕ) (multiplexed : Bool) :
    Steps s { s with
      requests := Function.update s.requests s.count (.new c multiplexed)
      count := s.count + 1 } := by
  refine ⟨Nat.le_succ _, fun j hj => ?_, fun j hj => ?_, .inl rfl, fun _ _ hwrite => .inl hwrite⟩
  · simpa [Nat.ne_of_lt hj] using Request.Moves.refl (s.requests j) s.accepting
  · obtain hold | rfl := Nat.lt_succ_iff_lt_or_eq.mp hj
    · exact .inl hold
    · exact .inr ⟨c, multiplexed, by simp⟩

theorem stop (s : Provider) : Steps s s.stop := { refl s with accepting := .inr rfl }

theorem stopFinish (s : Provider) (j : ℕ) : Steps s (s.stopFinish j) := by
  simp only [Provider.stopFinish]
  split
  · exact (change Request.moves_finish).frame rfl rfl rfl rfl
  · exact refl s

end Steps

theorem steps_next {s : Provider} (h : Inv s) {a : Action} (ha : provider.enabled s a) :
    Steps s (provider.next s a) := by
  cases a with
  | connect | close | leave | stopReturn => exact (Steps.refl s).frame rfl rfl rfl rfl
  | arrive c multiplexed => exact (Steps.arrive c multiplexed).frame rfl rfl rfl rfl
  | enter k => exact .enter ha.2
  | submit k queued => exact .submit ha.2
  | undo k => exact .undo ha.2
  | reject k => exact .change (Request.moves_reject ha.2)
  | arm k => exact .change (Request.moves_arm ha.2)
  | yield k => exact .change (Request.moves_yield ha.2)
  | resume k => exact (Steps.change (Request.moves_resume ha.2.1 ha.2.2)).frame rfl rfl rfl rfl
  | check k => exact .check ha.2
  | prepare k ok => exact .prepare ha.2
  | write k => exact (Steps.refl s).write ha.1 rfl fun _ => ha.2.1
  | written k ok => exact .ended (by simp [ha.2])
  | start k => exact .change (Request.moves_start ha.2)
  | handled k => exact .change (Request.moves_handled ha.2)
  | throw k => exact .throw ha.2.1 ha.2.2
  | run k => exact .run ha.2
  | finish k => exact .change (Request.moves_ran ha.2)
  | respond k => exact .respond ha.1 ((h.sound k ha.1).multiplexed (.inl ha.2)) ha.2
  | settle k => exact .settle ((h.sound k ha.1).multiplexed (.inr (.inl ha.2))) ha.2
  | expire k => exact .change Request.moves_timer
  | fire k => exact .change (Request.moves_finish.trans Request.moves_timer)
  | hand k => exact .change (Request.moves_hand ha.2)
  | stop => exact .stop s
  | stopFinish j => exact .stopFinish s j

theorem inv_of_reach {s : Provider} (h : provider.Reach s) : Inv s :=
  h.invariant (fun _ => inv_of_init) fun _ _ hi he => hi.step (steps_next hi he)

/-! ### The first `Finish` decides -/

/-- The request for which the action calls `CallContext::Finish`. -/
def Action.finishes (s : Provider) : Action → Option ℕ
  | .finish k | .fire k | .reject k | .throw k => some k
  | .stopFinish j =>
    match s.stops j with
    | .finishing (k :: _) => some k
    | _ => none
  | _ => none

theorem Request.finish_outcome_ne_zero (r : Request) {value : ℕ} (h : value ≠ 0) :
    (r.finish value).outcome ≠ 0 := by
  simp only [Request.finish]
  split
  · exact h
  · assumption

section Outcome

variable {s : Provider} {k : ℕ}

theorem finishes_decides {a : Action} (hf : a.finishes s = some k) :
    ((provider.next s a).requests k).outcome ≠ 0 := by
  cases a with
  | finish j =>
    obtain rfl : j = k := by simpa [Action.finishes] using hf
    simpa [provider, Provider.setRequest] using
      Request.finish_outcome_ne_zero (s.requests j) (Nat.succ_ne_zero 0)
  | fire j | reject j =>
    obtain rfl : j = k := by simpa [Action.finishes] using hf
    simpa [provider, Provider.reject, Provider.setRequest] using
      Request.finish_outcome_ne_zero (s.requests j) (Nat.succ_ne_zero 1)
  | throw j =>
    obtain rfl : j = k := by simpa [Action.finishes] using hf
    simp only [provider, Provider.throw]
    split
    · simp [Provider.setRequest]
    · simpa [Provider.setRequest] using Request.finish_outcome_ne_zero _ (Nat.succ_ne_zero 1)
  | stopFinish j =>
    simp only [Action.finishes] at hf
    simp only [provider, Provider.stopFinish]
    split at hf
    next i rest hstop =>
      obtain rfl : i = k := by simpa using hf
      simpa [hstop, Provider.setRequest] using
        Request.finish_outcome_ne_zero (s.requests i) (Nat.succ_ne_zero 1)
    · simp at hf
  | _ => simp [Action.finishes] at hf

/-- Later calls of `Finish` are inert. -/
theorem outcome_later {t : Provider} (hl : provider.Later (fun _ _ => True) s t) (h : Inv s)
    (hk : k < s.count) (hplain : (s.requests k).multiplexed = false)
    (hdecided : (s.requests k).outcome ≠ 0) :
    (t.requests k).outcome = (s.requests k).outcome := by
  refine (hl.invariant (I := fun u => Inv u ∧ k < u.count ∧ (u.requests k).multiplexed = false ∧
    (u.requests k).outcome = (s.requests k).outcome) (fun u a hu ha _ => ?_)
    ⟨h, hk, hplain, rfl⟩).2.2.2
  obtain ⟨hinv, hku, hmode, houtcome⟩ := hu
  have hstep := steps_next hinv ha
  have hm := hstep.moves k hku
  refine ⟨hinv.step hstep, Nat.lt_of_lt_of_le hku hstep.count, hm.mode.trans hmode, ?_⟩
  exact (hm.decided hmode (by rwa [houtcome])).trans houtcome

/-- Whether or not it is over, the Fiber has yielded at most once for the request. -/
theorem Request.Plain.yields_le {r : Request} {accepting : Bool} (h : r.Plain accepting) :
    r.yields ≤ 1 ∧ r.resumes ≤ r.yields := by
  have hfiber := h.fiber
  simp only [Request.Fiber] at hfiber
  split at hfiber <;> omega

theorem Request.Plain.resumes_of_yielded {r : Request} {accepting : Bool} (h : r.Plain accepting)
    (hpc : r.pc = .yielded) : r.resumes = 0 := by
  have hfiber := h.fiber
  simp only [Request.Fiber, hpc] at hfiber
  exact hfiber.2

end Outcome

/-- Whoever calls `Finish` first for a request of a plain channel decides its outcome for good and
hands the Fiber over, once.  The Fiber yields once and goes on once it has been handed over.  Bytes
are written only on the request's connection, if the closure came first, in time, and the provider
still accepted. -/
theorem request_completed_once {s : Provider} (h : provider.Reach s) {k : ℕ} (hk : k < s.count)
    (hplain : (s.requests k).multiplexed = false) :
    ((s.requests k).handed + (if (s.requests k).claimed then 1 else 0) =
      if (s.requests k).outcome = 0 then 0 else 1) ∧
    (∀ a, provider.enabled s a → a.finishes s = some k →
      ((provider.next s a).requests k).outcome ≠ 0) ∧
    ((s.requests k).outcome ≠ 0 → ∀ t, provider.Later (fun _ _ => True) s t →
      (t.requests k).outcome = (s.requests k).outcome) ∧
    ((s.requests k).outcome = 1 → (s.requests k).closure = .ran) ∧
    ((s.requests k).yields ≤ 1 ∧ (s.requests k).resumes ≤ (s.requests k).yields ∧
      (s.requests k).resumes ≤ (s.requests k).handed) ∧
    ((s.requests k).pc = .yielded → (s.requests k).handed = 1 → provider.enabled s (.resume k)) ∧
    (∀ c, (c, k) ∈ s.writes → c = (s.requests k).conn ∧ (s.requests k).outcome = 1 ∧
      (s.requests k).late = false ∧ (s.requests k).stillAccepting = true) ∧
    ((s.requests k).late = true → ∀ c, (c, k) ∉ s.writes) := by
  have hinv := inv_of_reach h
  have hr := hinv.plain k hk hplain
  have hwritten (c : ℕ) (hwrite : (c, k) ∈ s.writes) :
      c = (s.requests k).conn ∧ (s.requests k).Answerable :=
    (hinv.writes c k hwrite).2 hplain
  refine ⟨hr.balance, fun _ _ => finishes_decides, fun hdecided t hl => ?_, hr.first,
    ⟨hr.yields_le.1, hr.yields_le.2, hr.matched⟩, fun hpc hhanded => ⟨hk, hpc, ?_⟩,
    fun c hwrite => ?_, fun hlate c hwrite => ?_⟩
  · exact outcome_later hl hinv hk hplain hdecided
  · rw [hr.resumes_of_yielded hpc, hhanded]
    exact Nat.one_pos
  · obtain ⟨hconn, hanswerable⟩ := hwritten c hwrite
    exact ⟨hconn, hanswerable.outcome, hanswerable.inTime, hanswerable.accepting⟩
  · exact Bool.noConfusion (hlate.symm.trans (hwritten c hwrite).2.inTime)

/-- Two connections: the first request is answered, the closure of the second runs after its
timeout. -/
def answeredAndLate : Provider :=
  provider.run (.started 4 true)
    [.connect, .connect, .arrive 0 false, .arrive 1 false, .enter 0, .submit 0 true, .enter 1,
      .submit 1 true, .arm 0, .yield 0, .arm 1, .yield 1, .start 0, .run 0, .finish 0, .hand 0,
      .resume 0, .check 0, .prepare 0 true, .write 0, .start 1, .expire 1, .fire 1, .hand 1,
      .resume 1, .check 1, .run 1, .finish 1]

theorem request_completed_once_late :
    (answeredAndLate.requests 0).handed = 1 ∧ (0, 0) ∈ answeredAndLate.writes ∧
    (answeredAndLate.requests 0).stillAccepting = true ∧
    (answeredAndLate.requests 1).late = true ∧ ∀ c, (c, 1) ∉ answeredAndLate.writes := by
  have hreach : provider.Reach answeredAndLate :=
    Machine.reachVia_run (.start (provider_init_started 4 true)) (by decide +kernel)
  have hwritten : (0, 0) ∈ answeredAndLate.writes := by decide +kernel
  have hlate : (answeredAndLate.requests 1).late = true := by decide +kernel
  have hfirst := request_completed_once hreach (k := 0) (by decide +kernel) (by decide +kernel)
  have hsecond := request_completed_once hreach (k := 1) (by decide +kernel) (by decide +kernel)
  refine ⟨by decide +kernel, hwritten, ?_, hlate, ?_⟩
  · exact (hfirst.2.2.2.2.2.2.1 0 hwritten).2.2.2
  · exact hsecond.2.2.2.2.2.2.2 hlate

end PulsarRuntime.Rpc.Serve
