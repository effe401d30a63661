import PulsarRuntime.Blocking.Async

/-!
# Every blocking call is answered once

Two invariants, kept apart because they speak about different parts of the state.  `Tasks`: the
task of a call is in one place of the pool, and that place says how far the call's `State` is.
`Fibers`: a thread runs the Fiber it should, and the queue holds a Fiber exactly while its open
call has been handed over and not been resumed.  Together they give that a Fiber is taken from the
queue only where it is parked, although it may have been put there before it yielded: it is pinned
to the thread it still occupies.
-/

namespace PulsarRuntime.Blocking

open Finset (range)

variable {ρ ε : Type} {threads : ℕ}

namespace BodyPc

def handed : BodyPc → ℕ
  | start | stored => 0
  | scheduled | done => 1

def downs : BodyPc → ℕ
  | done => 1
  | _ => 0

/-- A call is counted down after its Fiber has been handed over. -/
theorem downs_le_handed (b : BodyPc) : b.downs ≤ b.handed := by
  cases b <;> decide

end BodyPc

namespace Call

variable [Inhabited ρ]

/-- `f` has been run once and its outcome stored. -/
def Ran (c : Call ρ ε) : Prop := ∃ o, c.ran = [o] ∧ c.slot = Slot.fresh.store o

/-- What a task that is this far has done for its call. -/
structure At (c : Call ρ ε) (b : BodyPc) : Prop where
  handed : c.handed = b.handed
  downs : c.downs = b.downs
  untouched : b = .start → c.ran = [] ∧ c.slot = Slot.fresh
  ran : b ≠ .start → c.Ran

end Call

/-- Where each Fiber is. -/
structure Fibers (calls : ℕ → Call ρ ε) (count : ℕ) (place : ℕ → Place) (current : ℕ → Option ℕ)
    (scheduled : List (ℕ × ℕ)) : Prop where
  calling : ∀ φ k, place φ = .calling k ↔
    k < count ∧ (calls k).fiber = φ ∧ (calls k).pc ≠ .returned
  onThread : ∀ φ t, current t = some φ ↔ place φ = .running t ∨
    ∃ k, place φ = .calling k ∧ (calls k).thread = t ∧ (calls k).pc.onThread = true
  inQueue : ∀ φ t, (φ, t) ∈ scheduled ↔
    ∃ k, place φ = .calling k ∧ (calls k).thread = t ∧ 0 < (calls k).handed
  nodup : scheduled.Nodup
  returned : ∀ k < count, (calls k).pc = .returned →
    0 < (calls k).handed ∧ ∃ o, (calls k).ran = [o] ∧ (calls k).result = some o

namespace Fibers

variable {calls : ℕ → Call ρ ε} {count k φ t : ℕ} {place : ℕ → Place} {current : ℕ → Option ℕ}
  {scheduled : List (ℕ × ℕ)} {c : Call ρ ε}

section

variable (h : Fibers calls count place current scheduled)
include h

/-- A Fiber outside its calls comes to a thread or leaves it. -/
theorem outside {p : Place}
    {current' : ℕ → Option ℕ} (hφ : ∀ k, place φ ≠ .calling k) (hp : ∀ k, p ≠ .calling k)
    (hcurrent : ∀ ψ u, current' u = some ψ ↔
      if ψ = φ then p = .running u else current u = some ψ) :
    Fibers calls count (Function.update place φ p) current' scheduled where
  calling ψ k := by
    have := h.calling ψ k
    grind [Function.update_apply]
  onThread ψ u := by
    have := h.onThread ψ u
    grind [Function.update_apply]
  inQueue ψ u := by
    have := h.inQueue ψ u
    grind [Function.update_apply]
  nodup := h.nodup
  returned := h.returned

theorem enter (hφ : place φ = .off) (ht : current t = none) :
    Fibers calls count (Function.update place φ (.running t)) (Function.update current t (some φ))
      scheduled := by
  refine h.outside (by simp [hφ]) (by simp) fun ψ u => ?_
  have := h.onThread φ u
  grind [Function.update_apply]

theorem leave (hφ : place φ = .running t) :
    Fibers calls count (Function.update place φ .off) (Function.update current t none)
      scheduled := by
  refine h.outside (by simp [hφ]) (by simp) fun ψ u => ?_
  have := h.onThread φ u
  grind [Function.update_apply]

theorem call (hφ : place φ = .running t)
    (hc : c.fiber = φ) (hthread : c.thread = t) (hpc : c.pc = .counted) (hh : c.handed = 0) :
    Fibers (Function.update calls count c) (count + 1)
      (Function.update place φ (.calling count)) current scheduled where
  calling ψ k := by
    have := h.calling ψ k
    have := h.calling φ k
    grind [Function.update_apply]
  onThread ψ u := by
    have := h.onThread ψ u
    have := h.calling ψ
    grind [Function.update_apply, CallPc.onThread]
  inQueue ψ u := by
    have := h.inQueue ψ u
    have := h.calling ψ
    grind [Function.update_apply]
  nodup := h.nodup
  returned := by
    have := h.returned
    grind [Function.update_apply]

/-- A step within a call that its Fiber's place and the queue do not depend on. -/
theorem setCall (hfiber : c.fiber = (calls k).fiber) (hthread : c.thread = (calls k).thread)
    (hon : c.pc.onThread = (calls k).pc.onThread) (hhanded : c.handed = (calls k).handed)
    (hopen : c.pc = .returned ↔ (calls k).pc = .returned)
    (hreturned : (calls k).pc = .returned → c.ran = (calls k).ran ∧ c.result = (calls k).result) :
    Fibers (Function.update calls k c) count place current scheduled where
  calling ψ j := by
    have := h.calling ψ j
    grind [Function.update_apply]
  onThread ψ u := by
    have := h.onThread ψ u
    grind [Function.update_apply]
  inQueue ψ u := by
    have := h.inQueue ψ u
    grind [Function.update_apply]
  nodup := h.nodup
  returned := by
    have := h.returned
    grind [Function.update_apply]

theorem yield (hk : k < count) (hpc : (calls k).pc = .submitted) :
    Fibers (Function.update calls k { calls k with pc := .parked }) count place
      (Function.update current (calls k).thread none) scheduled where
  calling ψ j := by
    have := h.calling ψ j
    grind [Function.update_apply]
  onThread ψ u := by
    have hψ := h.onThread ψ u
    have hcall := (h.calling (calls k).fiber k).mpr ⟨hk, rfl, by simp [hpc]⟩
    have := (h.onThread (calls k).fiber (calls k).thread).mpr
      (.inr ⟨k, hcall, rfl, by rw [hpc]; rfl⟩)
    have := h.calling ψ
    grind [Function.update_apply, CallPc.onThread]
  inQueue ψ u := by
    have := h.inQueue ψ u
    grind [Function.update_apply]
  nodup := h.nodup
  returned := by
    have := h.returned
    grind [Function.update_apply]

theorem schedule (hk : k < count) (hhanded : (calls k).handed = 0) :
    Fibers (Function.update calls k { calls k with handed := (calls k).handed + 1 }) count place
      current (scheduled ++ [((calls k).fiber, (calls k).thread)]) := by
  have hopen : (calls k).pc ≠ .returned := by
    intro hpc
    have := (h.returned k hk hpc).1
    omega
  have hcall := (h.calling (calls k).fiber k).mpr ⟨hk, rfl, hopen⟩
  have hnot : ((calls k).fiber, (calls k).thread) ∉ scheduled := by
    intro hmem
    obtain ⟨j, hj, _, hpos⟩ := (h.inQueue _ _).mp hmem
    rw [hcall] at hj
    cases hj
    omega
  refine ⟨?_, ?_, ?_, ?_, ?_⟩
  · intro ψ j
    have := h.calling ψ j
    grind [Function.update_apply]
  · intro ψ u
    have := h.onThread ψ u
    grind [Function.update_apply]
  · intro ψ u
    have := h.inQueue ψ u
    have := h.calling ψ
    grind [Function.update_apply]
  · rw [List.nodup_append]
    grind [h.nodup]
  · have := h.returned
    grind [Function.update_apply]

end

variable [Inhabited ρ]

theorem resume (h : Fibers calls count place current scheduled) (hmem : (φ, t) ∈ scheduled)
    (ht : current t = none) (hran : ∀ k < count, 0 < (calls k).handed → (calls k).Ran) :
    ∃ k, place φ = .calling k ∧ k < count ∧ (calls k).thread = t ∧ (calls k).pc = .parked ∧
      Fibers (Function.update calls k { calls k with
          pc := .returned
          result := some (calls k).slot.deliver }) count
        (Function.update place φ (.running t)) (Function.update current t (some φ))
        (scheduled.erase (φ, t)) := by
  obtain ⟨k, hplace, hthread, hhanded⟩ := (h.inQueue φ t).mp hmem
  obtain ⟨hk, hfiber, hopen⟩ := (h.calling φ k).mp hplace
  have hpc : (calls k).pc = .parked := by
    have hno : (calls k).pc.onThread ≠ true := by
      intro hon
      have := (h.onThread φ t).mpr (.inr ⟨k, hplace, hthread, hon⟩)
      rw [ht] at this
      cases this
    cases hpc : (calls k).pc with
    | parked => rfl
    | returned => exact absurd hpc hopen
    | _ =>
      rw [hpc] at hno
      exact absurd rfl hno
  obtain ⟨o, ho, hslot⟩ := hran k hk hhanded
  refine ⟨k, hplace, hk, hthread, hpc, ?_, ?_, ?_, ?_, ?_⟩
  · intro ψ j
    have := h.calling ψ j
    have := h.calling φ j
    grind [Function.update_apply]
  · intro ψ u
    have := h.onThread ψ u
    have := h.onThread φ u
    have := h.calling ψ
    grind [Function.update_apply, CallPc.onThread]
  · intro ψ u
    have := h.inQueue ψ u
    have := h.calling ψ
    rw [h.nodup.mem_erase_iff]
    grind [Function.update_apply]
  · exact h.nodup.erase _
  · intro j hj hj'
    by_cases hjk : j = k
    · subst hjk
      rw [Function.update_self]
      refine ⟨hhanded, o, ho, ?_⟩
      rw [hslot, Slot.deliver_store]
    · rw [Function.update_of_ne hjk] at hj' ⊢
      exact h.returned j hj hj'

end Fibers

variable [Inhabited ρ]

/-- Where the task of each call is, and what it has done there. -/
structure Tasks (pool : BlockingThreadPool threads Task)
    (body : Fin (threadCount threads) → BodyPc) (calls : ℕ → Call ρ ε) (count : ℕ) : Prop where
  reach : (blockingThreadPool threads Task).Reach pool
  fresh : ∀ k, count ≤ k → .call k ∉ pool.accepted
  once : ∀ k < count, pool.accepted.count (.call k) = if (calls k).pc = .counted then 0 else 1
  counted : ∀ k < count, (calls k).pc = .counted → (calls k).At .start
  queued : ∀ k, .call k ∈ pool.queue → (calls k).At .start
  running : ∀ w k, pool.phase w = .running (.call k) → (calls k).At (body w)
  finished : ∀ k, .call k ∈ pool.finished → (calls k).At .done
  closed : pool.stopped = true → ∀ k < count, (calls k).pc ≠ .counted

namespace Tasks

variable {pool : BlockingThreadPool threads Task} {body : Fin (threadCount threads) → BodyPc}
  {calls : ℕ → Call ρ ε} {count k : ℕ} {w : Fin (threadCount threads)} {c : Call ρ ε}
  (h : Tasks pool body calls count)
include h

theorem lt_of_mem (hk : .call k ∈ pool.accepted) : k < count := by
  by_contra hge
  exact h.fresh k (Nat.le_of_not_lt hge) hk

theorem count_le_one (k : ℕ) : pool.accepted.count (.call k) ≤ 1 := by
  by_cases hk : k < count
  · rw [h.once k hk]
    split <;> omega
  · rw [List.count_eq_zero.mpr (h.fresh k (Nat.le_of_not_lt hk))]
    exact Nat.zero_le _

/-- A call whose task is being run is not counted only, and its task is nowhere else. -/
theorem alone (hw : pool.phase w = .running (.call k)) :
    k < count ∧ (calls k).pc ≠ .counted ∧ .call k ∉ pool.queue ∧ .call k ∉ pool.finished ∧
      ∀ v, pool.phase v = .running (.call k) → v = w := by
  have hmem := (WorkerPool.sound h.reach).mem_of_running hw
  have hk := h.lt_of_mem hmem
  refine ⟨hk, ?_, (WorkerPool.sound h.reach).alone (h.count_le_one k) hw⟩
  intro hpc
  have hzero := h.once k hk
  rw [if_pos hpc] at hzero
  exact List.count_eq_zero.mp hzero hmem

theorem exists_at (hk : k < count) : ∃ b, (calls k).At b := by
  by_cases hpc : (calls k).pc = .counted
  · exact ⟨.start, h.counted k hk hpc⟩
  have hone := h.once k hk
  rw [if_neg hpc] at hone
  have hmem : .call k ∈ pool.accepted := List.count_pos_iff.mp (by omega)
  rcases (WorkerPool.sound h.reach).placed hmem with hq | hf | ⟨w, hw⟩
  · exact ⟨.start, h.queued k hq⟩
  · exact ⟨.done, h.finished k hf⟩
  · exact ⟨body w, h.running w k hw⟩

/-- The Fiber moves on within its call. -/
theorem fiberSide (hpc : (calls k).pc ≠ .counted)
    (hc : c.pc ≠ .counted) (hat : ∀ b, (calls k).At b → c.At b) :
    Tasks pool body (Function.update calls k c) count := by
  have hcounted : ∀ j, (Function.update calls k c j).pc = .counted ↔ (calls j).pc = .counted := by
    intro j
    rw [Function.update_apply]
    split
    · next hj =>
      subst hj
      exact iff_of_false hc hpc
    · rfl
  have hall : ∀ j b, (calls j).At b → (Function.update calls k c j).At b := by
    intro j b hj
    rw [Function.update_apply]
    split
    · next hjk =>
      subst hjk
      exact hat b hj
    · exact hj
  exact {
    reach := h.reach
    fresh := h.fresh
    once := fun j hj => by simp only [hcounted, h.once j hj]
    counted := fun j hj hj' => hall j _ (h.counted j hj ((hcounted j).mp hj'))
    queued := fun j hj => hall j _ (h.queued j hj)
    running := fun v j hv => hall j _ (h.running v j hv)
    finished := fun j hj => hall j _ (h.finished j hj)
    closed := fun hs j hj hj' => h.closed hs j hj ((hcounted j).mp hj') }

/-- A new call. -/
theorem call (hs : pool.stopped = false) (hpc : c.pc = .counted) (hat : c.At .start) :
    Tasks pool body (Function.update calls count c) (count + 1) := by
  have hold : ∀ j, .call j ∈ pool.accepted → Function.update calls count c j = calls j := by
    intro j hj
    exact Function.update_of_ne (Nat.ne_of_lt (h.lt_of_mem hj)) _ _
  have hsound := WorkerPool.sound h.reach
  refine ⟨h.reach, fun j hj => h.fresh j (by omega), ?_, ?_, ?_, ?_, ?_, ?_⟩
  · intro j hj
    rcases Nat.lt_succ_iff_lt_or_eq.mp hj with hj | rfl
    · rw [Function.update_of_ne (Nat.ne_of_lt hj)]
      exact h.once j hj
    · rw [Function.update_self, if_pos hpc]
      exact List.count_eq_zero.mpr (h.fresh j (Nat.le_refl j))
  · intro j hj hj'
    rcases Nat.lt_succ_iff_lt_or_eq.mp hj with hj | rfl
    · rw [Function.update_of_ne (Nat.ne_of_lt hj)] at hj' ⊢
      exact h.counted j hj hj'
    · rw [Function.update_self]
      exact hat
  · intro j hj
    rw [hold j (by rw [hsound.order]; exact List.mem_append_right _ hj)]
    exact h.queued j hj
  · intro v j hv
    rw [hold j (hsound.mem_of_running hv)]
    exact h.running v j hv
  · intro j hj
    rw [hold j (hsound.mem_of_finished hj)]
    exact h.finished j hj
  · intro hs'
    exact absurd hs' (by rw [hs]; exact Bool.false_ne_true)

/-- A thread of the pool moves on in the task of a call. -/
theorem taskSide {b : BodyPc}
    (hw : pool.phase w = .running (.call k)) (hat : c.At b) (hpc : c.pc = (calls k).pc) :
    Tasks pool (Function.update body w b) (Function.update calls k c) count := by
  obtain ⟨_, hcounted, hqueue, hfinished, hother⟩ := h.alone hw
  have hsame : ∀ j, (Function.update calls k c j).pc = (calls j).pc := by
    intro j
    rw [Function.update_apply]
    split
    · next hj =>
      subst hj
      exact hpc
    · rfl
  refine ⟨h.reach, h.fresh, ?_, ?_, ?_, ?_, ?_, ?_⟩
  · intro j hj
    rw [hsame]
    exact h.once j hj
  · intro j hj hj'
    rw [hsame] at hj'
    have hjk : j ≠ k := by
      rintro rfl
      exact hcounted hj'
    rw [Function.update_of_ne hjk]
    exact h.counted j hj hj'
  · intro j hj
    have hjk : j ≠ k := by
      rintro rfl
      exact hqueue hj
    rw [Function.update_of_ne hjk]
    exact h.queued j hj
  · intro v j hv
    by_cases hjk : j = k
    · subst hjk
      rw [hother v hv, Function.update_self, Function.update_self]
      exact hat
    · have hvw : v ≠ w := by
        rintro rfl
        rw [hw] at hv
        cases hv
        exact hjk rfl
      rw [Function.update_of_ne hjk, Function.update_of_ne hvw]
      exact h.running v j hv
  · intro j hj
    have hjk : j ≠ k := by
      rintro rfl
      exact hfinished hj
    rw [Function.update_of_ne hjk]
    exact h.finished j hj
  · intro hs j hj
    rw [hsame]
    exact h.closed hs j hj

/-- The task of a call is pushed. -/
theorem submit (hk : k < count) (hpc : (calls k).pc = .counted)
    (hc : c.pc ≠ .counted) (hat : c.At .start) :
    Tasks (pool.submit (.call k)) body (Function.update calls k c) count := by
  have hs : pool.stopped = false := by
    cases hs : pool.stopped with
    | false => rfl
    | true => exact absurd hpc (h.closed hs k hk)
  have hzero := h.once k hk
  rw [if_pos hpc] at hzero
  have hnot : .call k ∉ pool.accepted := List.count_eq_zero.mp hzero
  have hsound := WorkerPool.sound h.reach
  have hold : ∀ j, .call j ∈ pool.accepted → Function.update calls k c j = calls j := by
    intro j hj
    refine Function.update_of_ne ?_ _ _
    rintro rfl
    exact hnot hj
  have hreach := submit_reach h.reach (.call k)
  rw [BlockingThreadPool.submit_eq, if_neg (by simp [hs])] at hreach ⊢
  refine ⟨hreach, ?_, ?_, ?_, ?_, ?_, ?_, ?_⟩
  · intro j hj hmem
    rcases List.mem_append.mp hmem with hmem | hmem
    · exact h.fresh j hj hmem
    · cases List.mem_singleton.mp hmem
      omega
  · intro j hj
    rw [List.count_append]
    by_cases hjk : j = k
    · subst hjk
      rw [Function.update_self, if_neg hc, hzero, List.count_singleton_self]
    · have hnone : [Task.call k].count (.call j) = 0 := List.count_eq_zero.mpr (by simpa using hjk)
      rw [Function.update_of_ne hjk, h.once j hj, hnone, add_zero]
  · intro j hj hj'
    by_cases hjk : j = k
    · subst hjk
      rw [Function.update_self]
      exact hat
    · rw [Function.update_of_ne hjk] at hj' ⊢
      exact h.counted j hj hj'
  · intro j hj
    rcases List.mem_append.mp hj with hj | hj
    · rw [hold j (by rw [hsound.order]; exact List.mem_append_right _ hj)]
      exact h.queued j hj
    · cases List.mem_singleton.mp hj
      rw [Function.update_self]
      exact hat
  · intro v j hv
    rw [hold j (hsound.mem_of_running hv)]
    exact h.running v j hv
  · intro j hj
    rw [hold j (hsound.mem_of_finished hj)]
    exact h.finished j hj
  · intro hs'
    exact absurd (hs.symm.trans hs') Bool.false_ne_true

/-! ### Steps of the pool -/

/-- A step that moves no task. -/
theorem still {pool' : BlockingThreadPool threads Task}
    (hreach : (blockingThreadPool threads Task).Reach pool')
    (haccepted : pool'.accepted = pool.accepted) (hqueue : pool'.queue = pool.queue)
    (hfinished : pool'.finished = pool.finished) (hstopped : pool'.stopped = pool.stopped)
    (hrunning : ∀ v t, pool'.phase v = .running t → pool.phase v = .running t) :
    Tasks pool' body calls count where
  reach := hreach
  fresh := haccepted ▸ h.fresh
  once := haccepted ▸ h.once
  counted := h.counted
  queued := hqueue ▸ h.queued
  running v j hv := h.running v j (hrunning v _ hv)
  finished := hfinished ▸ h.finished
  closed := hstopped ▸ h.closed

theorem notify {t : Task} {v : Option (Fin (threadCount threads))}
    (he : (blockingThreadPool threads Task).enabled pool (.notify t v)) :
    Tasks ((blockingThreadPool threads Task).next pool (.notify t v)) body calls count := by
  have hreach := Machine.ReachVia.step h.reach he trivial
  cases v with
  | none => exact h.still hreach rfl rfl rfl rfl fun _ _ hv => hv
  | some u =>
    refine h.still hreach rfl rfl rfl rfl fun v t hv => ?_
    exact WorkerPool.State.phase_of_setPhase (by simp) hv

theorem submitOther (j : ℕ) : Tasks (pool.submit (.plain j)) body calls count := by
  have hmem : ∀ {l : List Task} {k : ℕ}, .call k ∈ l ++ [.plain j] → .call k ∈ l := by
    intro l k hk
    rcases List.mem_append.mp hk with hk | hk
    · exact hk
    · cases List.mem_singleton.mp hk
  have hreach := submit_reach h.reach (.plain j)
  by_cases hs : pool.stopped = true
  · rw [BlockingThreadPool.submit_eq, if_pos hs] at hreach ⊢
    exact h.still hreach rfl rfl rfl rfl fun _ _ hv => hv
  · rw [BlockingThreadPool.submit_eq, if_neg hs] at hreach ⊢
    have hnone : ∀ k, [Task.plain j].count (.call k) = 0 := fun k =>
      List.count_eq_zero.mpr (by simp)
    exact {
      reach := hreach
      fresh := fun k hk hk' => h.fresh k hk (hmem hk')
      once := fun k hk => by rw [List.count_append, h.once k hk, hnone, add_zero]
      counted := h.counted
      queued := fun k hk => h.queued k (hmem hk)
      running := h.running
      finished := h.finished
      closed := h.closed }

theorem acquire (hw : pool.phase w = .ready ∨ pool.phase w = .woken)
    (hreach : (blockingThreadPool threads Task).Reach (WorkerPool.State.acquire pool w)) :
    Tasks (WorkerPool.State.acquire pool w) (Function.update body w .start) calls count := by
  have hother : ∀ v t, pool.phase v = .running t → Function.update body w .start v = body v := by
    intro v t hv
    refine Function.update_of_ne ?_ _ _
    rintro rfl
    rw [hv] at hw
    rcases hw with hw | hw <;> cases hw
  cases hq : pool.queue with
  | nil =>
    rw [WorkerPool.State.acquire_nil hq] at hreach ⊢
    have hrunning : ∀ v t, (WorkerPool.State.setPhase pool w
        (if pool.stopped then .exited else .waiting)).phase v = .running t →
        pool.phase v = .running t := by
      intro v t hv
      exact WorkerPool.State.phase_of_setPhase (by split <;> simp) hv
    have hstill := h.still hreach rfl rfl rfl rfl hrunning
    exact { hstill with
      running := fun v j hv => by
        rw [hother v _ (hrunning v _ hv)]
        exact hstill.running v j hv }
  | cons t rest =>
    rw [WorkerPool.State.acquire_cons hq] at hreach ⊢
    refine ⟨hreach, h.fresh, h.once, h.counted, ?_, ?_, h.finished, h.closed⟩
    · intro j hj
      exact h.queued j (by rw [hq]; exact List.mem_cons_of_mem t hj)
    · intro v j hv
      by_cases hvw : v = w
      · subst hvw
        change Function.update pool.phase v _ v = _ at hv
        rw [Function.update_self] at hv
        cases hv
        rw [Function.update_self]
        exact h.queued j (by rw [hq]; exact List.mem_cons_self)
      · change Function.update pool.phase w _ v = _ at hv
        rw [Function.update_of_ne hvw] at hv
        rw [hother v _ hv]
        exact h.running v j hv

theorem finish {t : Task} (hw : pool.phase w = .running t)
    (hdone : ∀ j, t = .call j → body w = .done)
    (hreach : (blockingThreadPool threads Task).Reach (WorkerPool.State.finish pool w t)) :
    Tasks (WorkerPool.State.finish pool w t) body calls count := by
  refine ⟨hreach, h.fresh, h.once, h.counted, h.queued, ?_, ?_, h.closed⟩
  · intro v j hv
    exact h.running v j (WorkerPool.State.phase_of_setPhase (by simp) hv)
  · intro j hj
    rcases List.mem_append.mp hj with hj | hj
    · exact h.finished j hj
    · have ht := (List.mem_singleton.mp hj).symm
      have hat := h.running w j (hw.trans (congrArg _ ht))
      rwa [hdone j ht] at hat

end Tasks

/-! ### Every step keeps both -/

/-- A submission that has still to notify is one that has pushed. -/
def Notices (notifying : List Task) (calls : ℕ → Call ρ ε) (count : ℕ) : Prop :=
  ∀ k, notifying.count (.call k) = if k < count ∧ (calls k).pc = .pushed then 1 else 0

structure Sound (s : Async ρ ε threads) : Prop where
  tasks : Tasks s.pool s.body s.calls s.count
  fibers : Fibers s.calls s.count s.place s.current s.scheduled
  notices : Notices s.pool.notifying s.calls s.count
  pending : (s.pendingBlockingTasks : ℤ) = ∑ k ∈ range s.count, (1 - ((s.calls k).downs : ℤ))
  calm : s.panicked = false

namespace Sound

variable {s : Async ρ ε threads} {k φ t : ℕ} {w : Fin (threadCount threads)}

theorem init (h : (async ρ ε threads).init s) : Sound s := by
  obtain ⟨hpool, hpending, hcount, hplace, hcurrent, hscheduled, hcalm⟩ := h
  obtain ⟨hs, hq, hp, hn, _, ha, _, _, hf⟩ := id hpool
  refine ⟨⟨.start hpool, ?_, ?_, ?_, ?_, ?_, ?_, ?_⟩, ⟨?_, ?_, ?_, ?_, ?_⟩, ?_, ?_, hcalm⟩
  · simp [ha]
  · simp [hcount]
  · simp [hcount]
  · simp [hq]
  · simp [hp]
  · simp [hf]
  · simp [hs]
  · simp [hplace, hcount]
  · simp [hplace, hcurrent]
  · simp [hplace, hscheduled]
  · simp [hscheduled]
  · simp [hcount]
  · simp [Notices, hn, hcount]
  · simp [hpending, hcount]

variable (h : Sound s)
include h

/-- A thread that runs the task of a call has its place in the call. -/
theorem downs_le : ∀ k < s.count, (s.calls k).downs ≤ 1 := by
  intro k hk
  obtain ⟨b, hb⟩ := h.tasks.exists_at hk
  rw [hb.downs]
  cases b <;> simp [BodyPc.downs]

theorem pending_pos (hk : k < s.count) (hdowns : (s.calls k).downs = 0) :
    0 < s.pendingBlockingTasks := by
  have hle := Finset.single_le_sum (f := fun k => 1 - ((s.calls k).downs : ℤ)) (s := range s.count)
    (fun j hj => by have := h.downs_le j (Finset.mem_range.mp hj); omega) (Finset.mem_range.mpr hk)
  have hsum := h.pending
  simp only [hdowns] at hle
  omega

theorem ran (hk : k < s.count) (hhanded : 0 < (s.calls k).handed) : (s.calls k).Ran := by
  obtain ⟨b, hb⟩ := h.tasks.exists_at hk
  refine hb.ran ?_
  rintro rfl
  have := hb.handed
  simp only [BodyPc.handed] at this
  omega

theorem call (hφ : s.place φ = .running t) (hs : s.pool.stopped = false) : Sound (s.call φ t) where
  tasks := h.tasks.call hs rfl ⟨rfl, rfl, fun _ => ⟨rfl, rfl⟩, fun hb => absurd rfl hb⟩
  fibers := h.fibers.call hφ rfl rfl rfl rfl
  notices j := by
    have := h.notices j
    change s.pool.notifying.count _ =
      if j < s.count + 1 ∧ (Function.update s.calls s.count _ j).pc = _ then _ else _
    grind [Function.update_apply]
  pending := by
    change ((s.pendingBlockingTasks + 1 : ℕ) : ℤ) = ∑ j ∈ range (s.count + 1),
      (1 - ((Function.update s.calls s.count _ j).downs : ℤ))
    rw [Family.sum_add fun c : Call ρ ε => 1 - (c.downs : ℤ), ← h.pending]
    simp
  calm := h.calm

/-- What changes nothing that counts in `pendingBlockingTasks_`. -/
theorem pending_setCall {c : Call ρ ε} (hc : c.downs = (s.calls k).downs) :
    (s.pendingBlockingTasks : ℤ) =
      ∑ j ∈ range s.count, (1 - ((Function.update s.calls k c j).downs : ℤ)) := by
  rw [h.pending]
  refine Finset.sum_congr rfl fun j _ => ?_
  rw [Function.update_apply]
  split
  · next hj => rw [hj, hc]
  · rfl

theorem submit (hk : k < s.count) (hpc : (s.calls k).pc = .counted) : Sound (s.submit k) := by
  have hs : s.pool.stopped = false := by
    cases hs : s.pool.stopped with
    | false => rfl
    | true => exact absurd hpc (h.tasks.closed hs k hk)
  have hat := h.tasks.counted k hk hpc
  have hpc' : (if s.pool.stopped then CallPc.submitted else .pushed) = .pushed := by
    rw [hs]
    rfl
  unfold Async.submit
  rw [hpc']
  refine ⟨h.tasks.submit hk hpc (by simp) ⟨hat.handed, hat.downs, hat.untouched, hat.ran⟩,
    h.fibers.setCall rfl rfl (by rw [hpc]; rfl) rfl (by simp [hpc]) (by simp [hpc]), ?_,
    h.pending_setCall rfl, h.calm⟩
  intro j
  have hj := h.notices j
  change (s.pool.submit (.call k)).notifying.count _ =
    if j < s.count ∧ (Function.update s.calls k _ j).pc = _ then _ else _
  rw [BlockingThreadPool.submit_eq, if_neg (by simp [hs]), List.count_append, hj]
  by_cases hjk : j = k
  · subst hjk
    simp [hk, hpc]
  · have hnone : [Task.call k].count (.call j) = 0 := List.count_eq_zero.mpr (by simpa using hjk)
    rw [hnone, Function.update_of_ne hjk, add_zero]

theorem notify {v : Option (Fin (threadCount threads))} (hk : k < s.count)
    (hpc : (s.calls k).pc = .pushed)
    (he : (blockingThreadPool threads Task).enabled s.pool (.notify (.call k) v)) :
    Sound (s.notify k v) := by
  refine ⟨(h.tasks.notify he).fiberSide (by simp [hpc]) (by simp) fun b hb => ⟨hb.handed, hb.downs,
      hb.untouched, hb.ran⟩,
    h.fibers.setCall rfl rfl (by rw [hpc]; rfl) rfl (by simp [hpc]) (by simp [hpc]), ?_,
    h.pending_setCall rfl, h.calm⟩
  intro j
  have hj := h.notices j
  change (s.pool.notifying.erase (.call k)).count _ =
    if j < s.count ∧ (Function.update s.calls k _ j).pc = _ then _ else _
  by_cases hjk : j = k
  · subst hjk
    rw [List.count_erase_self, hj, Function.update_self, if_pos ⟨hk, hpc⟩, if_neg (by simp)]
  · rw [List.count_erase_of_ne (by simpa using hjk), hj, Function.update_of_ne hjk]

theorem notices_setCall {c : Call ρ ε} (hc : c.pc = .pushed ↔ (s.calls k).pc = .pushed) :
    Notices s.pool.notifying (Function.update s.calls k c) s.count := by
  intro j
  have := h.notices j
  grind [Function.update_apply]

theorem yield (hk : k < s.count) (hpc : (s.calls k).pc = .submitted) : Sound (s.yield k) where
  tasks := h.tasks.fiberSide (by simp [hpc]) (by simp) fun b hb => ⟨hb.handed, hb.downs,
    hb.untouched, hb.ran⟩
  fibers := h.fibers.yield hk hpc
  notices := h.notices_setCall (by simp [hpc])
  pending := h.pending_setCall rfl
  calm := h.calm

theorem resume (hmem : (φ, t) ∈ s.scheduled) (ht : s.current t = none) : Sound (s.resume φ t) := by
  obtain ⟨k, hplace, hk, _, hpc, hfibers⟩ := h.fibers.resume hmem ht fun k hk => h.ran hk
  simp only [Async.resume, hplace, hpc, if_true]
  exact {
    tasks := h.tasks.fiberSide (by simp [hpc]) (by simp) fun b hb => ⟨hb.handed, hb.downs,
      hb.untouched, hb.ran⟩
    fibers := hfibers
    notices := h.notices_setCall (by simp [hpc])
    pending := h.pending_setCall rfl
    calm := h.calm }

section

variable (hw : s.pool.phase w = .running (.call k))
include hw

theorem run (hb : s.body w = .start) (o : Outcome ρ ε) : Sound (s.run w k o) := by
  have hat := h.tasks.running w k hw
  rw [hb] at hat
  obtain ⟨hran, hslot⟩ := hat.untouched rfl
  have hopen : (s.calls k).pc ≠ .returned := by
    intro hpc
    have := (h.fibers.returned k (h.tasks.alone hw).1 hpc).1
    rw [hat.handed] at this
    cases this
  refine ⟨h.tasks.taskSide (b := .stored) hw ⟨hat.handed, hat.downs, fun hb => (by cases hb),
      fun _ => ⟨o, by simp [hran], by rw [hslot]⟩⟩ rfl,
    h.fibers.setCall rfl rfl rfl rfl Iff.rfl fun hpc => absurd hpc hopen,
    h.notices_setCall Iff.rfl, h.pending_setCall rfl, h.calm⟩

theorem schedule (hb : s.body w = .stored) : Sound (s.schedule w k) := by
  have hat := h.tasks.running w k hw
  rw [hb] at hat
  have hran := hat.ran (by simp)
  have hzero : (s.calls k).handed = 0 := hat.handed
  refine ⟨h.tasks.taskSide (b := .scheduled) hw ⟨by simp [hzero, BodyPc.handed], hat.downs,
      fun hb => (by cases hb), fun _ => hran⟩ rfl,
    h.fibers.schedule (h.tasks.alone hw).1 hzero, h.notices_setCall Iff.rfl,
    h.pending_setCall rfl, h.calm⟩

theorem countDown (hb : s.body w = .scheduled) : Sound (s.countDown w k) := by
  have hat := h.tasks.running w k hw
  rw [hb] at hat
  have hk := (h.tasks.alone hw).1
  have hzero : (s.calls k).downs = 0 := hat.downs
  have hpos := h.pending_pos hk hzero
  refine ⟨h.tasks.taskSide (b := .done) hw ⟨hat.handed, by simp [hzero, BodyPc.downs],
      fun hb => (by cases hb), fun _ => hat.ran (by simp)⟩ rfl,
    h.fibers.setCall rfl rfl rfl rfl Iff.rfl fun _ => ⟨rfl, rfl⟩, h.notices_setCall Iff.rfl, ?_,
    h.calm⟩
  change ((s.pendingBlockingTasks - 1 : ℕ) : ℤ) = ∑ j ∈ range s.count,
    (1 - ((Function.update s.calls k _ j).downs : ℤ))
  rw [Family.sum_update (fun c : Call ρ ε => 1 - (c.downs : ℤ)) hk, ← h.pending]
  simp only [hzero]
  omega

end

/-- With no call counted, no call has still to submit its task. -/
theorem stop (hzero : s.pendingBlockingTasks = 0) (hk : k < s.count) :
    (s.calls k).pc ≠ .counted := by
  intro hpc
  have hpos := h.pending_pos hk (h.tasks.counted k hk hpc).downs
  omega

theorem pooled {a : WorkerPool.Move (Fin (threadCount threads)) Task}
    (hp : s.Pooled a) (he : (blockingThreadPool threads Task).enabled s.pool a)
    (hd : Destroyed s (.pool a)) : Sound (s.pooled a) := by
  have hreach := Machine.ReachVia.step h.tasks.reach he trivial
  cases a with
  | submit t v =>
    cases t with
    | call j => exact hp.elim
    | plain j =>
      refine ⟨h.tasks.submitOther j, h.fibers, ?_, h.pending, h.calm⟩
      intro i
      change (s.pool.submit (.plain j)).notifying.count _ = _
      rw [BlockingThreadPool.submit_eq]
      split
      · exact h.notices i
      · have hnone : [Task.plain j].count (.call i) = 0 := List.count_eq_zero.mpr (by simp)
        rw [List.count_append, hnone, add_zero]
        exact h.notices i
  | notify t v =>
    cases t with
    | call j => exact hp.elim
    | plain j =>
      refine ⟨h.tasks.notify he, h.fibers, fun i => ?_, h.pending, h.calm⟩
      change (s.pool.notifying.erase (.plain j)).count _ = _
      rw [List.count_erase_of_ne (by simp)]
      exact h.notices i
  | wake v =>
    refine ⟨h.tasks.still hreach rfl rfl rfl rfl fun v t hv => ?_, h.fibers, h.notices, h.pending,
      h.calm⟩
    exact WorkerPool.State.phase_of_setPhase (by simp) hv
  | acquire v =>
    refine ⟨h.tasks.acquire he hreach, h.fibers, ?_, h.pending, h.calm⟩
    have hsame : (WorkerPool.State.acquire s.pool v).notifying = s.pool.notifying := by
      unfold WorkerPool.State.acquire
      split <;> rfl
    change Notices (WorkerPool.State.acquire s.pool v).notifying s.calls s.count
    rw [hsame]
    exact h.notices
  | finish v t =>
    refine ⟨h.tasks.finish he ?_ hreach, h.fibers, h.notices, h.pending, h.calm⟩
    rintro j rfl
    exact hp
  | stop =>
    have hstop : Tasks (WorkerPool.State.stop s.pool) s.body s.calls s.count := by
      unfold WorkerPool.State.stop
      split
      · exact h.tasks
      · next hs =>
        refine ⟨?_, h.tasks.fresh, h.tasks.once, h.tasks.counted, h.tasks.queued,
          h.tasks.running, h.tasks.finished, fun _ k hk => h.stop hd hk⟩
        have hreach' : (blockingThreadPool threads Task).Reach (WorkerPool.State.stop s.pool) :=
          hreach
        rwa [WorkerPool.State.stop, if_neg hs] at hreach'
    refine ⟨hstop, h.fibers, ?_, h.pending, h.calm⟩
    have hsame : (WorkerPool.State.stop s.pool).notifying = s.pool.notifying := by
      unfold WorkerPool.State.stop
      split <;> rfl
    change Notices (WorkerPool.State.stop s.pool).notifying s.calls s.count
    rw [hsame]
    exact h.notices
  | notifyAll =>
    refine ⟨h.tasks.still hreach rfl rfl rfl rfl fun v t hv => ?_, h.fibers, h.notices, h.pending,
      h.calm⟩
    exact WorkerPool.State.phase_of_notifyAll (by simp) hv
  | join =>
    exact ⟨h.tasks.still hreach rfl rfl rfl rfl fun _ _ hv => hv, h.fibers, h.notices, h.pending,
      h.calm⟩

theorem next {a : Act ρ ε threads} (he : (async ρ ε threads).enabled s a)
    (hd : Destroyed s a) : Sound ((async ρ ε threads).next s a) := by
  cases a with
  | enter φ t => exact ⟨h.tasks, h.fibers.enter he.1 he.2, h.notices, h.pending, h.calm⟩
  | leave φ t => exact ⟨h.tasks, h.fibers.leave he, h.notices, h.pending, h.calm⟩
  | call φ t => exact h.call he hd
  | submit k => exact h.submit he.1 he.2
  | notify k v => exact h.notify he.1.1 he.1.2 he.2
  | yield k => exact h.yield he.1 he.2
  | resume φ t => exact h.resume he.1 he.2
  | run w k o => exact h.run he.1 he.2 o
  | schedule w k => exact h.schedule he.1 he.2
  | countDown w k => exact h.countDown he.1 he.2
  | pool a => exact h.pooled he.1 he.2 hd

end Sound

variable {s : Async ρ ε threads}

theorem sound (h : (async ρ ε threads).ReachVia Destroyed s) : Sound s :=
  h.invariant (fun _ => Sound.init) fun _ _ hs he hd => hs.next he hd

/-! ### Results -/

/-- **A blocking call is answered once, by its own task.**  In every run in which the pool is
stopped only when no call is counted, and no call is made after that (`Destroyed`): whoever takes a
scheduled Fiber finds it parked in a call made on that thread, with the outcome of `f` stored; `f`
is run and the Fiber scheduled at most once for a call; and what a call has returned or thrown is
what its one run of `f` did. -/
theorem asyncBlocking_answered_once {s : Async ρ ε threads}
    (h : (async ρ ε threads).ReachVia Destroyed s) :
    (∀ φ t, (async ρ ε threads).enabled s (.resume φ t) → ∃ k < s.count,
      s.place φ = .calling k ∧ (s.calls k).thread = t ∧ (s.calls k).pc = .parked ∧
      (s.calls k).Ran) ∧
    (∀ k < s.count, (s.calls k).ran.length ≤ 1 ∧ (s.calls k).handed ≤ 1 ∧
      ((s.calls k).pc = .returned →
        ∃ o, (s.calls k).ran = [o] ∧ (s.calls k).result = some o)) ∧
    s.panicked = false := by
  have hs := sound h
  refine ⟨?_, ?_, hs.calm⟩
  · intro φ t he
    obtain ⟨k, hplace, hk, hthread, hpc, _⟩ := hs.fibers.resume he.1 he.2 fun k hk => hs.ran hk
    obtain ⟨j, hj, _, hhanded⟩ := (hs.fibers.inQueue φ t).mp he.1
    rw [hplace] at hj
    cases hj
    exact ⟨k, hk, hplace, hthread, hpc, hs.ran hk hhanded⟩
  · intro k hk
    obtain ⟨b, hb⟩ := hs.tasks.exists_at hk
    refine ⟨?_, ?_, fun hpc => (hs.fibers.returned k hk hpc).2⟩
    · by_cases hstart : b = .start
      · rw [(hb.untouched hstart).1]
        exact Nat.zero_le _
      · obtain ⟨o, ho, _⟩ := hb.ran hstart
        rw [ho]
        exact Nat.le_refl 1
    · rw [hb.handed]
      cases b <;> simp [BodyPc.handed]

/-- The task is over before its Fiber yields. -/
def overtaken : List (Act ℕ Unit 1) :=
  [.enter 3 5, .call 3 5, .submit 0, .pool (.acquire 0), .run 0 0 (.value 42 11), .schedule 0 0,
    .notify 0 none, .yield 0]

theorem asyncBlocking_answered_once_overtaken :
    let s := (async ℕ Unit 1).run (Async.create ℕ Unit 1) overtaken
    (async ℕ Unit 1).enabled s (.resume 3 5) ∧ (s.calls 0).pc = .parked ∧
      ((async ℕ Unit 1).next s (.resume 3 5)).calls 0 =
        { s.calls 0 with pc := .returned, result := some (.value 42 11) } ∧
      s.panicked = false := by
  have hs : (async ℕ Unit 1).ReachVia Destroyed
      ((async ℕ Unit 1).run (Async.create ℕ Unit 1) overtaken) :=
    Machine.reachVia_run (Async.create_reach ℕ Unit 1) (by decide)
  exact ⟨by decide, by decide, rfl, (asyncBlocking_answered_once hs).2.2⟩

/-- A step that is due in the pool, in the task of a call, or where a Fiber is about to notify. -/
def Act.due : Act ρ ε threads → Bool
  | .notify _ _ | .run _ _ _ | .schedule _ _ | .countDown _ _ => true
  | .pool a => a.due
  | _ => false

/-- A thread that runs a task has a step in it. -/
theorem Sound.exists_due_running {w : Fin (threadCount threads)} {t : Task}
    (hw : s.pool.phase w = .running t) :
    ∃ a : Act ρ ε threads, a.due = true ∧ (async ρ ε threads).enabled s a := by
  cases t with
  | plain j => exact ⟨.pool (.finish w (.plain j)), rfl, trivial, hw⟩
  | call k =>
    cases hb : s.body w with
    | start => exact ⟨.run w k (.value default 0), rfl, hw, hb⟩
    | stored => exact ⟨.schedule w k, rfl, hw, hb⟩
    | scheduled => exact ⟨.countDown w k, rfl, hw, hb⟩
    | done => exact ⟨.pool (.finish w (.call k)), rfl, hb, hw⟩

/-- A step due in the pool is due here, or the task it ends has a step before. -/
theorem Sound.exists_due (h : Sound s)
    {a : WorkerPool.Move (Fin (threadCount threads)) Task} (hdue : a.due = true)
    (he : (blockingThreadPool threads Task).enabled s.pool a) :
    ∃ a : Act ρ ε threads, a.due = true ∧ (async ρ ε threads).enabled s a := by
  cases a with
  | submit t v => cases hdue
  | wake v => cases hdue
  | stop => cases hdue
  | notify t v =>
    cases t with
    | plain j => exact ⟨.pool (.notify (.plain j) v), rfl, trivial, he⟩
    | call k =>
      have hcount := h.notices k
      have hpos := List.count_pos_iff.mpr he.1
      split at hcount
      · next hk => exact ⟨.notify k v, rfl, hk, he⟩
      · omega
  | acquire v => exact ⟨.pool (.acquire v), rfl, trivial, he⟩
  | finish v t => exact Sound.exists_due_running he
  | notifyAll => exact ⟨.pool .notifyAll, rfl, trivial, he⟩
  | join => exact ⟨.pool .join, rfl, trivial, he⟩

/-- **No Fiber is left parked.**  In every run in which the pool is stopped only when no call is
counted, and no call is made after that (`Destroyed`): while the Fiber of a call is parked it is in
the scheduler's queue, or the call is still counted, so that `IOManager::stopping()` is false, and a
step is due that does not depend on any Fiber that is parked. -/
theorem parked_call_not_stranded {s : Async ρ ε threads}
    (h : (async ρ ε threads).ReachVia Destroyed s) {k : ℕ} (hk : k < s.count)
    (hpc : (s.calls k).pc = .parked) :
    ((s.calls k).fiber, (s.calls k).thread) ∈ s.scheduled ∨
    0 < s.pendingBlockingTasks ∧
      ∃ a : Act ρ ε threads, a.due = true ∧ (async ρ ε threads).enabled s a := by
  have hs := sound h
  have hplace := (hs.fibers.calling (s.calls k).fiber k).mpr ⟨hk, rfl, by simp [hpc]⟩
  rcases Nat.eq_zero_or_pos (s.calls k).handed with hzero | hpos
  · refine .inr ?_
    obtain ⟨b, hb⟩ := hs.tasks.exists_at hk
    have hdowns : (s.calls k).downs = 0 := by
      have hle := b.downs_le_handed
      rw [← hb.handed, ← hb.downs, hzero] at hle
      exact Nat.le_zero.mp hle
    refine ⟨hs.pending_pos hk hdowns, ?_⟩
    have hone := hs.tasks.once k hk
    rw [if_neg (by simp [hpc])] at hone
    have hmem : .call k ∈ s.pool.accepted := List.count_pos_iff.mp (by omega)
    have hpool := WorkerPool.sound hs.tasks.reach
    rcases hpool.placed hmem with hq | hf | ⟨w, hw⟩
    · obtain ⟨a, hdue, he⟩ := hpool.work_pending (r := rules) (List.ne_nil_of_mem hq)
      exact hs.exists_due hdue he
    · have hhanded := (hs.tasks.finished k hf).handed
      rw [hzero] at hhanded
      cases hhanded
    · exact Sound.exists_due_running hw
  · exact .inl ((hs.fibers.inQueue _ _).mpr ⟨k, hplace, rfl, hpos⟩)

/-- The pool's only thread is busy with another task. -/
def behindOther : List (Act ℕ Unit 1) :=
  [.pool (.submit (.plain 0) none), .pool (.acquire 0), .enter 3 5, .call 3 5, .submit 0,
    .notify 0 none, .yield 0]

theorem parked_call_not_stranded_behind :
    let s := (async ℕ Unit 1).run (Async.create ℕ Unit 1) behindOther
    (s.calls 0).pc = .parked ∧ s.pool.queue = [.call 0] ∧
    (((s.calls 0).fiber, (s.calls 0).thread) ∈ s.scheduled ∨ 0 < s.pendingBlockingTasks ∧
      ∃ a : Act ℕ Unit 1, a.due = true ∧ (async ℕ Unit 1).enabled s a) := by
  have hs : (async ℕ Unit 1).ReachVia Destroyed
      ((async ℕ Unit 1).run (Async.create ℕ Unit 1) behindOther) :=
    Machine.reachVia_run (Async.create_reach ℕ Unit 1) (by decide)
  exact ⟨by decide, by decide, parked_call_not_stranded hs (by decide) (by decide)⟩

end PulsarRuntime.Blocking
