import Mathlib.Data.List.Count
import PulsarRuntime.Sync.Listed

/-!
# Exactly one resume per wait

A waiter is queued and unhanded, or it has been completed and its Fiber handed over once; the
task made for it is there until the parked Fiber takes it.  `WaitQueue.Inv` says this of every
call, and each step of the machine keeps it.

One exit of `waitLocked` breaks it.  With a finite timeout on a plain `Scheduler` the call
completes its own waiter after it was published, which schedules the running Fiber, and returns
`ENOTSUP` even when a wake-up has already selected it.  In runs without such calls every wait is
resumed exactly once.
-/

namespace PulsarRuntime.Sync

variable {F : Type}

theorem Pc.done_of_pending {pc : Pc} (h : pc.pending = true) : pc.done = false := by
  cases pc <;> first | rfl | cases h

namespace WaitQueue

/-- A call that returned before it published a waiter. -/
structure Early (q : WaitQueue F) (c : ℕ) : Prop where
  waiting : (q.calls c).waiting = true
  handed : q.handed.count c = 0
  done : (q.calls c).pc.done = true
  yielded : (q.calls c).yielded = false

/-- A call whose waiter has been completed. -/
structure Woken (q : WaitQueue F) (c : ℕ) : Prop where
  waiting : (q.calls c).waiting = false
  handed : q.handed.count c = 1
  task : (q.calls c).pc.pending = true → c ∈ q.ready
  result : ∀ e, (q.calls c).pc = .returned e → e = (q.calls c).error ∧ (q.calls c).yielded = true

structure Inv (q : WaitQueue F) : Prop where
  nodup : q.waiters.Nodup
  bound : ∀ c ∈ q.waiters, c < q.count
  queued : ∀ c ∈ q.waiters, (q.calls c).waiting = true ∧ (q.calls c).pc.pending = true ∧
    q.handed.count c = 0
  gone : ∀ c < q.count, c ∉ q.waiters → Early q c ∨ Woken q c
  fresh : ∀ c, q.count ≤ c → q.handed.count c = 0
  ready_nodup : q.ready.Nodup
  ready_pending : ∀ c ∈ q.ready, c < q.count ∧ (q.calls c).waiting = false ∧
    (q.calls c).pc.pending = true
  yields : ∀ c < q.count, (q.calls c).pc = .parked ∨ (q.calls c).pc = .resumed →
    (q.calls c).yielded = true
  distinct : ∀ c < q.count, ∀ d < q.count, (q.calls c).fiber = (q.calls d).fiber →
    (q.calls c).pc.done = false → (q.calls d).pc.done = false → c = d
  supported : ∀ c < q.count, (q.calls c).pc = .published →
    (q.calls c).scheduler = some .ioManager ∨ (q.calls c).timeout = kFiberWaitForever

variable {q : WaitQueue F} {c : ℕ}

/-- The local stretches of a call change its record alone, and keep it on its side of the yield. -/
structure Advances (k k' : Call F) : Prop where
  fiber : k'.fiber = k.fiber
  waiting : k'.waiting = k.waiting
  error : k'.error = k.error
  pending : k'.pc.pending = k.pc.pending
  done : k'.pc.done = k.pc.done
  returned : k'.pc.done = true → k'.pc = k.pc ∧ k'.yielded = k.yielded
  yields : k'.pc = .parked ∨ k'.pc = .resumed → k'.yielded = true
  supported : k'.pc = .published →
    k.pc = .published ∧ k'.scheduler = k.scheduler ∧ k'.timeout = k.timeout

variable {q' : WaitQueue F}

/-- A step that does not touch the record of a call that is out of the queue. -/
theorem gone_frame (h : Early q c ∨ Woken q c)
    (hcall : q'.calls c = q.calls c) (hhanded : q'.handed.count c = q.handed.count c)
    (hready : c ∈ q.ready → c ∈ q'.ready) : Early q' c ∨ Woken q' c := by
  rcases h with he | hw
  · left
    constructor
    · rw [hcall, he.waiting]
    · rw [hhanded, he.handed]
    · rw [hcall, he.done]
    · rw [hcall, he.yielded]
  · right
    constructor
    · rw [hcall, hw.waiting]
    · rw [hhanded, hw.handed]
    · rw [hcall]
      exact fun hp => hready (hw.task hp)
    · rw [hcall]
      exact hw.result

/-- No call changes its Fiber and none that is over runs again. -/
theorem Inv.distinct_frame (h : Inv q) (hcount : q'.count = q.count)
    (hcalls : ∀ d, (q'.calls d).fiber = (q.calls d).fiber ∧
      ((q'.calls d).pc.done = false → (q.calls d).pc.done = false)) :
    ∀ c < q'.count, ∀ d < q'.count, (q'.calls c).fiber = (q'.calls d).fiber →
      (q'.calls c).pc.done = false → (q'.calls d).pc.done = false → c = d := by
  intro d hd e he hf hnd hne
  rw [hcount] at hd he
  rw [(hcalls d).1, (hcalls e).1] at hf
  exact h.distinct d hd e he hf ((hcalls d).2 hnd) ((hcalls e).2 hne)

theorem Inv.setCall (h : Inv q) (hc : c < q.count) {k : Call F} (ha : Advances (q.calls c) k) :
    Inv (q.setCall c k) where
  nodup := h.nodup
  bound := h.bound
  queued := by
    intro d hd
    by_cases hdc : d = c
    · subst hdc
      rw [setCall_calls_self, ha.waiting, ha.pending]
      exact h.queued d hd
    · rw [setCall_calls_ne q k hdc]
      exact h.queued d hd
  gone := by
    intro d hd hnot
    by_cases hdc : d = c
    · subst hdc
      refine (h.gone d hd hnot).imp (fun he => ?_) fun hw => ?_
      · have hdone : k.pc.done = true := by rw [ha.done, he.done]
        refine ⟨?_, he.handed, ?_, ?_⟩
        · rw [setCall_calls_self, ha.waiting, he.waiting]
        · rw [setCall_calls_self, hdone]
        · rw [setCall_calls_self, (ha.returned hdone).2, he.yielded]
      · refine ⟨?_, hw.handed, ?_, ?_⟩
        · rw [setCall_calls_self, ha.waiting, hw.waiting]
        · rw [setCall_calls_self, ha.pending]
          exact hw.task
        · intro e he
          rw [setCall_calls_self] at he ⊢
          obtain ⟨hpc, hy⟩ := ha.returned (by rw [he]; rfl)
          rw [ha.error, hy]
          exact hw.result e (by rw [← hpc, he])
    · exact gone_frame (h.gone d hd hnot) (setCall_calls_ne q k hdc) rfl fun hr => hr
  fresh := h.fresh
  ready_nodup := h.ready_nodup
  ready_pending := by
    intro d hd
    by_cases hdc : d = c
    · subst hdc
      rw [setCall_calls_self, ha.waiting, ha.pending]
      exact h.ready_pending d hd
    · rw [setCall_calls_ne q k hdc]
      exact h.ready_pending d hd
  yields := by
    intro d hd
    by_cases hdc : d = c
    · subst hdc
      rw [setCall_calls_self]
      exact ha.yields
    · rw [setCall_calls_ne q k hdc]
      exact h.yields d hd
  distinct := by
    refine h.distinct_frame rfl fun d => ?_
    by_cases hdc : d = c
    · subst hdc
      rw [setCall_calls_self]
      exact ⟨ha.fiber, fun hd => ha.done ▸ hd⟩
    · rw [setCall_calls_ne q k hdc]
      exact ⟨rfl, fun hd => hd⟩
  supported := by
    intro d hd
    by_cases hdc : d = c
    · subst hdc
      rw [setCall_calls_self]
      intro hpc
      obtain ⟨hold, hs, ht⟩ := ha.supported hpc
      rw [hs, ht]
      exact h.supported d hd hold
    · rw [setCall_calls_ne q k hdc]
      exact h.supported d hd

/-! ### Completing a waiter -/

theorem Inv.listed (h : Inv q) : Listed q where
  nodup := h.nodup
  bound := h.bound
  waiting := fun c hc => (h.queued c hc).1
  running := fun c hc => Pc.done_of_pending (h.queued c hc).2.1

theorem completeLocked_of_mem (h : Inv q) (hc : c ∈ q.waiters) (error : ℤ) :
    q.completeLocked c error = (q.complete c error, true) :=
  h.listed.completeLocked_of_mem hc error

/-- The front waiter is always completed, so the loop of `wakeOneLocked` ends in its first
round. -/
theorem completeLocked_front (h : Inv q) {rest : List ℕ} (hq : q.waiters = c :: rest)
    (error : ℤ) : (q.completeLocked c error).2 = true := by
  rw [completeLocked_of_mem h (by rw [hq]; exact List.mem_cons_self)]

theorem count_append_singleton (l : List ℕ) (c d : ℕ) :
    (l ++ [c]).count d = l.count d + if d = c then 1 else 0 := by
  rw [List.count_append, List.count_singleton]
  by_cases h : d = c
  · simp [h]
  · simp [h, Ne.symm h]

theorem complete_inv (h : Inv q) (hc : c ∈ q.waiters) (error : ℤ) : Inv (q.complete c error) where
  nodup := h.nodup.erase c
  bound := fun d hd => h.bound d (List.mem_of_mem_erase hd)
  queued := by
    intro d hd
    obtain ⟨hdc, hd⟩ := (h.nodup.mem_erase_iff).mp hd
    rw [complete_calls, if_neg hdc]
    obtain ⟨hw, hp, hn⟩ := h.queued d hd
    refine ⟨hw, hp, ?_⟩
    show (q.handed ++ [c]).count d = 0
    rw [count_append_singleton, if_neg hdc, hn]
  gone := by
    intro d hd hnot
    obtain ⟨-, hp, hn⟩ := h.queued c hc
    by_cases hdc : d = c
    · subst hdc
      refine .inr ⟨?_, ?_, ?_, ?_⟩
      · rw [complete_calls, if_pos rfl]
      · show (q.handed ++ [d]).count d = 1
        rw [count_append_singleton, if_pos rfl, hn]
      · intro _
        show d ∈ q.ready ++ [d]
        simp
      · intro e he
        rw [complete_calls, if_pos rfl] at he
        have hdone := Pc.done_of_pending hp
        rw [show (q.calls d).pc = .returned e from he] at hdone
        cases hdone
    · have hmem : d ∉ q.waiters := fun hm => hnot ((h.nodup.mem_erase_iff).mpr ⟨hdc, hm⟩)
      have hcount : (q.complete c error).handed.count d = q.handed.count d := by
        show (q.handed ++ [c]).count d = _
        rw [count_append_singleton, if_neg hdc, Nat.add_zero]
      have hcall : (q.complete c error).calls d = q.calls d := by
        rw [complete_calls, if_neg hdc]
      exact gone_frame (h.gone d hd hmem) hcall hcount (List.mem_append_left _)
  fresh := by
    intro d hd
    have hdc : d ≠ c := by
      rintro rfl
      exact absurd (h.bound d hc) (Nat.not_lt.mpr hd)
    show (q.handed ++ [c]).count d = 0
    rw [count_append_singleton, if_neg hdc, h.fresh d hd]
  ready_nodup := by
    have hnot : c ∉ q.ready := fun hm => by
      have hw := (h.ready_pending c hm).2.1
      rw [(h.queued c hc).1] at hw
      cases hw
    exact List.Nodup.append h.ready_nodup (List.nodup_singleton c) (by simpa using hnot)
  ready_pending := by
    intro d hd
    rw [complete_calls]
    rcases List.mem_append.mp hd with hd | hd
    · obtain ⟨hb, hw, hp⟩ := h.ready_pending d hd
      split
      · rename_i hdc
        subst hdc
        exact ⟨hb, rfl, hp⟩
      · exact ⟨hb, hw, hp⟩
    · obtain rfl := List.mem_singleton.mp hd
      rw [if_pos rfl]
      exact ⟨h.bound d hc, rfl, (h.queued d hc).2.1⟩
  yields := by
    intro d hd
    rw [complete_calls]
    split
    · rename_i hdc
      subst hdc
      exact h.yields d hd
    · exact h.yields d hd
  distinct := by
    refine h.distinct_frame rfl fun d => ?_
    rw [complete_calls]
    split
    · rename_i hdc
      subst hdc
      exact ⟨rfl, fun hd => hd⟩
    · exact ⟨rfl, fun hd => hd⟩
  supported := by
    intro d hd
    rw [complete_calls]
    split
    · rename_i hdc
      subst hdc
      exact h.supported d hd
    · exact h.supported d hd

theorem completeLocked_inv (h : Inv q) (c : ℕ) (error : ℤ) : Inv (q.completeLocked c error).1 := by
  by_cases hc : c ∈ q.waiters
  · rw [completeLocked_of_mem h hc]
    exact complete_inv h hc error
  · rw [completeLocked_of_not_mem q hc]
    exact h

theorem wakeOneLocked_inv (h : Inv q) (error : ℤ) : Inv (q.wakeOneLocked error).1 := by
  unfold wakeOneLocked
  split
  · exact h
  · exact completeLocked_inv h _ error

/-- `wakeOneLocked` takes the front waiter out of a non-empty queue. -/
theorem wakeOneLocked_cons (h : Inv q) {rest : List ℕ} (hq : q.waiters = c :: rest) (error : ℤ) :
    q.wakeOneLocked error = (q.complete c error, true) := h.listed.wakeOneLocked_cons hq error

theorem wakeAllLoop_inv (error : ℤ) (fuel : ℕ) (h : Inv q) : Inv (wakeAllLoop error fuel q).1 := by
  induction fuel generalizing q with
  | zero => exact h
  | succ fuel ih =>
    unfold wakeAllLoop
    split
    · exact ih (wakeOneLocked_inv h error)
    · exact h

variable (h : Inv q)
include h

theorem wakeAllLocked_inv (error : ℤ) : Inv (q.wakeAllLocked error).1 :=
  wakeAllLoop_inv error _ h

/-- The loop of `wakeAllLocked` runs until the queue is empty. -/
theorem wakeAllLocked_waiters (error : ℤ) : (q.wakeAllLocked error).1.waiters = [] := by
  rw [h.listed.wakeAllLocked_eq]
  rfl

/-! ### The caller's steps -/

/-- A new call has the next number, in the queue or outside. -/
theorem Inv.waiters_add {waiters : List ℕ}
    (hw : waiters = q.waiters ∨ waiters = q.waiters ++ [q.count]) :
    waiters.Nodup ∧ ∀ d ∈ waiters, (d < q.count ∧ d ∈ q.waiters) ∨ d = q.count := by
  have hnotin : q.count ∉ q.waiters := fun hm => absurd (h.bound _ hm) (Nat.lt_irrefl _)
  rcases hw with rfl | rfl
  · exact ⟨h.nodup, fun d hd => .inl ⟨h.bound d hd, hd⟩⟩
  · refine ⟨List.Nodup.append h.nodup (List.nodup_singleton _) (by simpa using hnotin), ?_⟩
    intro d hd
    rcases List.mem_append.mp hd with hd | hd
    · exact .inl ⟨h.bound d hd, hd⟩
    · exact .inr (List.mem_singleton.mp hd)

/-- A Fiber enters a call only when its earlier ones are over. -/
theorem Inv.distinct_add
    (hcalls : ∀ d < q.count, q'.calls d = q.calls d) (hcount : q'.count = q.count + 1)
    (hfree : ∀ d < q.count, (q.calls d).fiber = (q'.calls q.count).fiber →
      (q.calls d).pc.done = true) :
    ∀ c < q'.count, ∀ d < q'.count, (q'.calls c).fiber = (q'.calls d).fiber →
      (q'.calls c).pc.done = false → (q'.calls d).pc.done = false → c = d := by
  -- no earlier call of the Fiber that enters is still open
  have hover : ∀ d < q.count, (q'.calls d).fiber = (q'.calls q.count).fiber →
      (q'.calls d).pc.done ≠ false := by
    intro d hd hf
    rw [hcalls d hd] at hf ⊢
    rw [hfree d hd hf]
    exact Bool.noConfusion
  intro d hd e he hf hnd hne
  rw [hcount] at hd he
  rcases Nat.lt_succ_iff_lt_or_eq.mp hd with hd | rfl
  · rcases Nat.lt_succ_iff_lt_or_eq.mp he with he | rfl
    · rw [hcalls d hd] at hf hnd
      rw [hcalls e he] at hf hne
      exact h.distinct d hd e he hf hnd hne
    · exact absurd hnd (hover d hd hf)
  · rcases Nat.lt_succ_iff_lt_or_eq.mp he with he | rfl
    · exact absurd hne (hover e he hf.symm)
    · rfl

/-- A call that enters: it returns at once, or its waiter goes to the end of the queue. -/
theorem Inv.newCall
    (hcalls : ∀ d < q.count, q'.calls d = q.calls d) (hcount : q'.count = q.count + 1)
    (hready : q'.ready = q.ready) (hhanded : q'.handed = q.handed)
    (hfree : ∀ d < q.count, (q.calls d).fiber = (q'.calls q.count).fiber →
      (q.calls d).pc.done = true)
    (hwait : (q'.calls q.count).waiting = true)
    (hnew : (q'.waiters = q.waiters ∧ (q'.calls q.count).pc.done = true ∧
        (q'.calls q.count).yielded = false) ∨
      (q'.waiters = q.waiters ++ [q.count] ∧ (q'.calls q.count).pc = .published ∧
        ((q'.calls q.count).scheduler = some .ioManager ∨
          (q'.calls q.count).timeout = kFiberWaitForever))) : Inv q' := by
  have hlt : ∀ {d}, d < q'.count → d ≠ q.count → d < q.count := by
    intro d hd hne
    rw [hcount] at hd
    omega
  have hmem : ∀ {d}, d ∈ q.waiters → d ∈ q'.waiters := by
    intro d hd
    rcases hnew with ⟨hw, -⟩ | ⟨hw, -⟩
    · rwa [hw]
    · rw [hw]
      exact List.mem_append_left _ hd
  obtain ⟨hnodup, hqueued⟩ := h.waiters_add (hnew.imp And.left And.left)
  have hself : q.count ∈ q'.waiters → (q'.calls q.count).pc = .published := by
    intro hm
    rcases hnew with ⟨hw, -⟩ | ⟨-, hpc, -⟩
    · rw [hw] at hm
      exact absurd (h.bound _ hm) (Nat.lt_irrefl _)
    · exact hpc
  constructor
  case nodup => exact hnodup
  case bound =>
    intro d hd
    rw [hcount]
    rcases hqueued d hd with ⟨hlt, -⟩ | rfl <;> omega
  case queued =>
    intro d hd
    rcases hqueued d hd with ⟨hlt, hd'⟩ | rfl
    · rw [hcalls d hlt, hhanded]
      exact h.queued d hd'
    · rw [hhanded, hself hd]
      exact ⟨hwait, rfl, h.fresh _ le_rfl⟩
  case gone =>
    intro d hd hnot
    by_cases hdq : d = q.count
    · subst hdq
      rcases hnew with ⟨-, hdone, hy⟩ | ⟨hw, -⟩
      · refine .inl ⟨hwait, ?_, hdone, hy⟩
        rw [hhanded]
        exact h.fresh _ le_rfl
      · rw [hw] at hnot
        exact absurd (List.mem_append_right _ (List.mem_singleton.mpr rfl)) hnot
    · have hlt' := hlt hd hdq
      exact gone_frame (h.gone d hlt' fun hm => hnot (hmem hm)) (hcalls d hlt')
        (by rw [hhanded]) (by rw [hready]; exact fun hr => hr)
  case fresh =>
    intro d hd
    rw [hhanded]
    rw [hcount] at hd
    exact h.fresh d (by omega)
  case ready_nodup =>
    rw [hready]
    exact h.ready_nodup
  case ready_pending =>
    intro d hd
    rw [hready] at hd
    obtain ⟨hb, hrest⟩ := h.ready_pending d hd
    rw [hcalls d hb, hcount]
    exact ⟨by omega, hrest⟩
  case yields =>
    intro d hd hpc
    by_cases hdq : d = q.count
    · subst hdq
      rcases hnew with ⟨-, hdone, -⟩ | ⟨-, hpub, -⟩
      · rcases hpc with hpc | hpc <;> rw [hpc] at hdone <;> cases hdone
      · rw [hpub] at hpc
        rcases hpc with hpc | hpc <;> cases hpc
    · rw [hcalls d (hlt hd hdq)] at hpc ⊢
      exact h.yields d (hlt hd hdq) hpc
  case distinct => exact h.distinct_add hcalls hcount hfree
  case supported =>
    intro d hd hpc
    by_cases hdq : d = q.count
    · subst hdq
      rcases hnew with ⟨-, hdone, -⟩ | ⟨-, -, hs⟩
      · rw [hpc] at hdone
        cases hdone
      · exact hs
    · rw [hcalls d (hlt hd hdq)] at hpc ⊢
      exact h.supported d (hlt hd hdq) hpc

/-- A woken call runs on: its task is consumed, and from then on only its own result is left. -/
theorem Inv.leave (hc : c < q.count) (hw : (q.calls c).waiting = false)
    (hnd : (q.calls c).pc.done = false) {pc : Pc}
    (hpc : pc = .resumed ∨ pc = .returned (q.calls c).error)
    (hy : (q.calls c).yielded = true) :
    Inv { q.setPc c pc with ready := q.ready.erase c } := by
  have hpend : pc.pending = false := by rcases hpc with rfl | rfl <;> rfl
  have hnot : c ∉ q.waiters := by
    intro hm
    rw [(h.queued c hm).1] at hw
    cases hw
  have hwoken : Woken q c := by
    rcases h.gone c hc hnot with he | hw'
    · rw [he.done] at hnd
      cases hnd
    · exact hw'
  have hself : (q.setPc c pc).calls c = { q.calls c with pc := pc } := setCall_calls_self ..
  have hne : ∀ {d}, d ≠ c → (q.setPc c pc).calls d = q.calls d := setCall_calls_ne _ _
  constructor
  case nodup => exact h.nodup
  case bound => exact h.bound
  case queued =>
    intro d hd
    rw [hne (by rintro rfl; exact hnot hd)]
    exact h.queued d hd
  case gone =>
    intro d hd hnotd
    by_cases hdc : d = c
    · subst hdc
      refine .inr ⟨?_, hwoken.handed, ?_, ?_⟩
      · rw [hself]
        exact hw
      · rw [hself]
        intro hp
        rw [show pc.pending = true from hp] at hpend
        cases hpend
      · intro e he
        rw [hself] at he ⊢
        have he' : pc = .returned e := he
        rcases hpc with rfl | rfl
        · cases he'
        · cases he'
          exact ⟨rfl, hy⟩
    · exact gone_frame (h.gone d hd hnotd) (hne hdc) rfl (List.mem_erase_of_ne hdc).mpr
  case fresh => exact h.fresh
  case ready_nodup => exact h.ready_nodup.erase c
  case ready_pending =>
    intro d hd
    obtain ⟨hdc, hd⟩ := (h.ready_nodup.mem_erase_iff).mp hd
    rw [hne hdc]
    exact h.ready_pending d hd
  case yields =>
    intro d hd
    by_cases hdc : d = c
    · subst hdc
      rw [hself]
      exact fun _ => hy
    · rw [hne hdc]
      exact h.yields d hd
  case distinct =>
    refine h.distinct_frame rfl fun d => ?_
    by_cases hdc : d = c
    · subst hdc
      rw [hself]
      exact ⟨rfl, fun _ => hnd⟩
    · rw [hne hdc]
      exact ⟨rfl, fun h => h⟩
  case supported =>
    intro d hd
    by_cases hdc : d = c
    · subst hdc
      rw [hself]
      intro hp
      have hp' : pc = .published := hp
      rw [hp'] at hpend
      cases hpend
    · rw [hne hdc]
      exact h.supported d hd

/-- A parked Fiber for which the scheduler has a task has been woken, and the task is its own. -/
theorem task_eq {task : ℕ} (hc : c < q.count) (hpc : (q.calls c).pc = .parked)
    (ht : task ∈ q.ready) (hf : (q.calls task).fiber = (q.calls c).fiber) : task = c := by
  obtain ⟨hb, -, hp⟩ := h.ready_pending task ht
  exact h.distinct task hb c hc hf (Pc.done_of_pending hp) (by rw [hpc]; rfl)

/-- A call that has resumed was woken: the defensive branch of `waitLocked` is not taken. -/
theorem resumed_woken (hc : c < q.count) (hpc : (q.calls c).pc = .resumed) : Woken q c := by
  have hnot : c ∉ q.waiters := by
    intro hm
    have hp := (h.queued c hm).2.1
    rw [hpc] at hp
    cases hp
  rcases h.gone c hc hnot with he | hw
  · have hd := he.done
    rw [hpc] at hd
    cases hd
  · exact hw

end WaitQueue

open WaitQueue

/-- No call waits with a finite, non-zero timeout on a plain `Scheduler`. -/
def Supported : Action F → Prop
  | .enter _ scheduler _ timeout =>
      scheduler = some .plain → timeout = 0 ∨ timeout = kFiberWaitForever
  | _ => True

instance : DecidablePred (Supported : Action F → Prop) := by
  intro a
  rcases a <;> (dsimp only [Supported]; infer_instance)

variable {q : WaitQueue F}

theorem enter_inv (h : Inv q) {fiber : F} {scheduler : Option SchedulerKind}
    {thread : ℤ} {timeout : ℕ}
    (hfree : ∀ c < q.count, (q.calls c).fiber = fiber → (q.calls c).pc.done = true)
    (hok : scheduler = some .plain → timeout = 0 ∨ timeout = kFiberWaitForever) :
    Inv (q.enter fiber scheduler thread timeout) := by
  have hadd : ∀ k : Call F, (q.addCall k).calls q.count = k :=
    fun k => setCall_calls_self q q.count k
  have hpub : ∀ k : Call F, (q.publish k).calls q.count = k := hadd
  have hold : ∀ k : Call F, ∀ d < q.count, (q.addCall k).calls d = q.calls d :=
    fun k d hd => setCall_calls_ne q k (Nat.ne_of_lt hd)
  unfold enter
  cases scheduler with
  | none =>
    refine h.newCall (hold _) rfl rfl rfl ?_ ?_ (.inl ⟨rfl, ?_⟩)
    all_goals rw [hadd]
    exacts [hfree, ⟨rfl, rfl⟩]
  | some kind =>
    dsimp only
    split
    · refine h.newCall (hold _) rfl rfl rfl ?_ ?_ (.inl ⟨rfl, ?_⟩)
      all_goals rw [hadd]
      exacts [hfree, ⟨rfl, rfl⟩]
    · rename_i hne
      refine h.newCall (hold _) rfl rfl rfl ?_ ?_ (.inr ⟨rfl, ?_⟩)
      all_goals rw [hpub]
      · exact hfree
      · refine ⟨rfl, ?_⟩
        cases kind with
        | plain => exact .inr ((hok rfl).resolve_left hne)
        | ioManager => exact .inl rfl

theorem arm_inv (h : Inv q) {c : ℕ} (hc : c < q.count)
    (hpc : (q.calls c).pc = .published) : Inv (q.arm c) := by
  have hadv : ∀ timer, Advances (q.calls c) { q.calls c with pc := .armed, timer := timer } := by
    intro timer
    constructor <;> simp [hpc, Pc.pending, Pc.done]
  unfold arm
  split
  · exact h.setCall hc (hadv (q.calls c).timer)
  split
  · exact h.setCall hc (hadv true)
  · -- the exit with `ENOTSUP` is the one the condition on the calls excludes
    rename_i hforever hio
    rcases h.supported c hc hpc with hs | hs
    · exact absurd hs hio
    · exact absurd hs hforever

theorem next_inv {a : Action F} (h : Inv q) (he : (waitQueue F).enabled q a)
    (hok : Supported a) : Inv ((waitQueue F).next q a) := by
  cases a with
  | enter fiber scheduler thread timeout => exact enter_inv h he hok
  | arm c => exact arm_inv h he.1 he.2
  | yield c =>
    obtain ⟨hc, hpc⟩ := he
    refine h.setCall hc ?_
    constructor <;> simp [hpc, Pc.pending, Pc.done]
  | resume c task =>
    obtain ⟨⟨hc, hpc⟩, ht, hf⟩ := he
    obtain rfl := task_eq h hc hpc ht hf
    exact h.leave hc (h.ready_pending _ ht).2.1 (by rw [hpc]; rfl) (.inl rfl)
      (h.yields _ hc (.inl hpc))
  | finish c =>
    obtain ⟨hc, hpc⟩ := he
    have hw := resumed_woken h hc hpc
    have hnot : c ∉ q.ready := by
      intro hm
      have hp := (h.ready_pending c hm).2.2
      rw [hpc] at hp
      cases hp
    show Inv (q.finish c)
    unfold finish
    dsimp only
    rw [hw.waiting, if_neg (by decide)]
    have hleave := h.leave hc hw.waiting (by rw [hpc]; rfl) (.inr rfl) (h.yields c hc (.inr hpc))
    rwa [List.erase_of_not_mem hnot] at hleave
  | timeout c =>
    refine completeLocked_inv (h.setCall he.1 ?_) c ETIMEDOUT
    constructor <;> simp
    exact h.yields c he.1
  | wakeOne error => exact wakeOneLocked_inv h error
  | wakeAll error => exact wakeAllLocked_inv h error

theorem init_inv (h : (waitQueue F).init q) : Inv q := by
  obtain ⟨hcount, hwaiters, hready, hhanded⟩ := h
  constructor <;> simp [hcount, hwaiters, hready, hhanded]

theorem reachVia_inv (h : (waitQueue F).ReachVia (fun _ a => Supported a) q) : Inv q :=
  h.invariant (fun _ => init_inv) fun _ _ hi he hok => next_inv hi he hok

/-- A wake-up with error 0 has selected the call's waiter: nothing else completes one with 0. -/
def Selected (q : WaitQueue F) (c : ℕ) : Prop :=
  (q.calls c).waiting = false ∧ (q.calls c).error = 0

/-- **Exactly one resume per wait.**  In every run without a timed wait on a plain `Scheduler`, a
call that has returned was handed to its scheduler once if it yielded and never if it did not; no
call is handed over twice; and a call selected with error 0 returns 0, its task being there for
it as long as it is parked. -/
theorem waitLocked_resumed_once {q : WaitQueue F}
    (h : (waitQueue F).ReachVia (fun _ a => Supported a) q) {c : ℕ} (hc : c < q.count) :
    q.handed.count c ≤ 1 ∧
    (∀ e, (q.calls c).pc = .returned e →
      q.handed.count c = if (q.calls c).yielded then 1 else 0) ∧
    (Selected q c → (∀ e, (q.calls c).pc = .returned e → e = 0) ∧
      ((q.calls c).pc = .parked → (waitQueue F).enabled q (.resume c c))) := by
  have hi := reachVia_inv h
  by_cases hm : c ∈ q.waiters
  · obtain ⟨hw, hp, hn⟩ := hi.queued c hm
    refine ⟨by omega, fun e he => ?_, fun hs => ?_⟩
    · rw [he] at hp
      cases hp
    · rw [hs.1] at hw
      cases hw
  · rcases hi.gone c hc hm with he | hw
    · refine ⟨by rw [he.handed]; omega, fun e _ => ?_, fun hs => ?_⟩
      · rw [he.handed, he.yielded]
        rfl
      · have hw := hs.1
        rw [he.waiting] at hw
        cases hw
    · refine ⟨by rw [hw.handed], fun e hpc => ?_, fun hs => ⟨fun e hpc => ?_, fun hpc => ?_⟩⟩
      · rw [hw.handed, (hw.result e hpc).2]
        rfl
      · rw [(hw.result e hpc).1, hs.2]
      · exact ⟨⟨hc, hpc⟩, hw.task (by rw [hpc]; rfl), rfl⟩

/-- An empty queue and no calls; the record of calls that are not there is never read. -/
def WaitQueue.empty (fiber : F) : WaitQueue F :=
  ⟨fun _ => ⟨fiber, none, 0, 0, true, 0, .returned 0, false, false⟩, 0, [], [], []⟩

/-- A timed wait on an `IOManager` worker, woken with 0 while its timer is armed. -/
def timedWait : List (Action Unit) :=
  [.enter () (some .ioManager) 7 50, .arm 0, .wakeOne 0, .yield 0, .resume 0 0, .finish 0]

theorem waitLocked_resumed_once_timed :
    ((waitQueue Unit).run (.empty ()) timedWait).handed.count 0 = 1 :=
  (waitLocked_resumed_once (Machine.reachVia_run (.start ⟨rfl, rfl, rfl, rfl⟩)
    (by decide : (waitQueue Unit).Allowed (fun _ a => Supported a) (.empty ()) timedWait))
    (by decide)).2.1 0 (by decide)

/-- A timed wait on a plain `Scheduler`: it returns without having yielded, and its Fiber has been
handed to the scheduler. -/
def unsupportedWait : List (Action Unit) := [.enter () (some .plain) 7 50, .arm 0]

/-- The same, with a wake-up between the release of the guard and the exit: the call was selected
with error 0 and returns `ENOTSUP`. -/
def swallowedWake : List (Action Unit) := [.enter () (some .plain) 7 50, .wakeOne 0, .arm 0]

theorem timed_wait_on_plain_scheduler :
    (∃ q : WaitQueue Unit, (waitQueue Unit).Reach q ∧ 0 < q.count ∧
      (q.calls 0).pc = .returned ENOTSUP ∧ (q.calls 0).yielded = false ∧ q.handed.count 0 = 1) ∧
    ∃ q : WaitQueue Unit, (waitQueue Unit).Reach q ∧ 0 < q.count ∧ Selected q 0 ∧
      (q.calls 0).pc = .returned ENOTSUP := by
  constructor
  · exact ⟨(waitQueue Unit).run (.empty ()) unsupportedWait,
      Machine.reachVia_run (.start ⟨rfl, rfl, rfl, rfl⟩) (by decide),
      by decide, by decide, by decide, by decide⟩
  · exact ⟨(waitQueue Unit).run (.empty ()) swallowedWake,
      Machine.reachVia_run (.start ⟨rfl, rfl, rfl, rfl⟩) (by decide),
      by decide, ⟨by decide, by decide⟩, by decide⟩

end PulsarRuntime.Sync
