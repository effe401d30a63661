import Mathlib.Algebra.BigOperators.Fin
import Mathlib.Algebra.Order.BigOperators.Group.Finset
import PulsarRuntime.Scheduler.Search
import PulsarRuntime.Scheduler.Tickle

/-!
# Is the owner of a pinned task notified?

A task pinned to a worker that is blocked in `epoll_wait` needs somebody who will write to the
pipe.  A write announces it until another worker empties the pipe; that worker then looks for a
task, finds none it may run, sees that one is pending and writes again.

The chain breaks where a task is queued without a `tickle` or the `tickle` does nothing, and where
the worker that was woken finds something else to run.  The conditions of `Announced` exclude
these, and then the chain holds.
-/

namespace PulsarRuntime.Scheduler

variable {J : Type} {n : ℕ}

/-! ### What a worker has looked at -/

/-- A task in queue `v` is pinned to worker `w`. -/
def Wakeups.Pinned (tid : Fin n → ℕ) (s : Wakeups J n) (w v : Fin n) : Prop :=
  ∃ t ∈ (s.queues.workers v).pinnedTasks, t.thread = tid w

/-- On its way to `epoll_wait` worker `w` has been at queue `v`. -/
def LoopPc.looked [NeZero n] (w v : Fin n) : LoopPc → Prop
  | .stealing startOffset i => v = w ∨ ∃ j < i, Queues.victim w startOffset j = v
  | .asking _ | .tickling | .writing | .entering | .idling => True
  | _ => False

theorem LoopPc.blind_of_looked [NeZero n] {w v : Fin n} {pc : LoopPc} (h : pc.looked w v) :
    pc.blind = true := by
  cases pc <;> first | rfl | exact h.elim

def LoopPc.weight (pc : LoopPc) : ℕ := if pc.counted then 1 else 0

theorem sum_update_weight (pc : Fin n → LoopPc) (w : Fin n) (p : LoopPc) :
    ∑ v, (Function.update pc w p v).weight + (pc w).weight = ∑ v, (pc v).weight + p.weight := by
  have hrest : ∑ v ∈ Finset.univ.erase w, (Function.update pc w p v).weight =
      ∑ v ∈ Finset.univ.erase w, (pc v).weight := by
    apply Finset.sum_congr rfl
    intro v hv
    rw [Function.update_of_ne (Finset.ne_of_mem_erase hv)]
  rw [← Finset.add_sum_erase _ _ (Finset.mem_univ w),
    ← Finset.add_sum_erase Finset.univ (fun v => (pc v).weight) (Finset.mem_univ w), hrest,
    Function.update_self]
  omega

theorem push_wasEmpty (q : WorkerQueue J) (t : Task J) : (q.push t).2 = q.isEmpty := by
  simp only [WorkerQueue.push, WorkerQueue.isEmpty]
  split <;> rfl

namespace Wakeups

variable {tid : Fin n → ℕ} {s s' : Wakeups J n}

/-- Some call of `scheduler()` is between `enqueueTask` and the end of its `tickle`. -/
def Deciding (s : Wakeups J n) : Prop := ∃ k < s.count, (s.sends k).pc.deciding = true

/-- Somebody is going to write to the pipe, or has written, for the sake of queue `v`. -/
def Covered (s : Wakeups J n) (w v : Fin n) : Prop :=
  0 < s.pipe ∨ s.Deciding ∨ ∃ u, u ≠ w ∧ (s.pc u).heads v = true

variable {p : LoopPc}

/-- Worker `w` goes to `p`, and the pipe is not emptied. -/
theorem Covered.move {u v w : Fin n} (h : s.Covered u v)
    (hpc : s'.pc = Function.update s.pc w p) (hpipe : s.pipe ≤ s'.pipe)
    (hcount : s'.count = s.count) (hsends : s'.sends = s.sends)
    (hheads : (s.pc w).heads v = true → p.heads v = true ∨ 0 < s'.pipe) : s'.Covered u v := by
  rcases h with hbytes | ⟨k, hk, hdec⟩ | ⟨x, hx, hhead⟩
  · exact .inl (Nat.lt_of_lt_of_le hbytes hpipe)
  · exact .inr (.inl ⟨k, hcount ▸ hk, hsends ▸ hdec⟩)
  · by_cases hxw : x = w
    · subst hxw
      rcases hheads hhead with hp | hp
      · refine .inr (.inr ⟨x, hx, ?_⟩)
        rw [hpc, Function.update_self]
        exact hp
      · exact .inl hp
    · refine .inr (.inr ⟨x, hx, ?_⟩)
      rw [hpc, Function.update_of_ne hxw]
      exact hhead

theorem Covered.same {w v : Fin n} (h : s.Covered w v) (hpc : s'.pc = s.pc)
    (hpipe : s.pipe ≤ s'.pipe) (hdec : s.Deciding → 0 < s'.pipe ∨ s'.Deciding) :
    s'.Covered w v := by
  rcases h with hbytes | hd | ⟨u, hu, hhead⟩
  · exact .inl (Nat.lt_of_lt_of_le hbytes hpipe)
  · exact (hdec hd).imp_right .inl
  · exact .inr (.inr ⟨u, hu, hpc ▸ hhead⟩)

/-- A call that is not deciding goes on. -/
theorem deciding_setSend (h : s.Deciding) {k : ℕ} (hk : (s.sends k).pc.deciding = false)
    {pc : SendPc n} (hsends : s'.sends = (s.setSend k pc).sends) (hcount : s'.count = s.count) :
    s'.Deciding := by
  obtain ⟨j, hj, hdec⟩ := h
  refine ⟨j, hcount ▸ hj, ?_⟩
  have hjk : j ≠ k := by
    rintro rfl
    rw [hk] at hdec
    cases hdec
  rw [hsends]
  show (Function.update s.sends k _ j).pc.deciding = true
  rw [Function.update_of_ne hjk]
  exact hdec

variable [NeZero n]

structure Inv (tid : Fin n → ℕ) (s : Wakeups J n) : Prop where
  ids : ∀ w, s.pc w ≠ .unstarted → (s.queues.workers w).threadId = tid w
  idle : s.idleThreadCnt = ∑ w, (s.pc w).weight
  offset : ∀ w startOffset i, s.pc w = .stealing startOffset i → 1 ≤ startOffset
  clear : ∀ w v, (s.pc w).looked w v → ¬ s.Pinned tid w v
  covered : ∀ w v, s.pc w = .polling → s.Pinned tid w v → s.Covered w v

variable {w : Fin n}

/-- While a worker is counted, `isHasIdleThreads` says yes. -/
theorem Inv.idle_pos (h : Inv tid s) (hw : s.pc w = p)
    (hp : p.counted = true) : 0 < s.idleThreadCnt := by
  have hle : (s.pc w).weight ≤ ∑ v, (s.pc v).weight :=
    Finset.single_le_sum (f := fun v => (s.pc v).weight) (fun v _ => Nat.zero_le _)
      (Finset.mem_univ w)
  rw [h.idle]
  rw [hw, LoopPc.weight, if_pos hp] at hle
  exact hle

/-- A step of worker `w` keeps the numbers the workers have entered. -/
theorem Inv.ids_move (h : Inv tid s)
    (hpc : s'.pc = Function.update s.pc w p) (hstarted : s.pc w ≠ .unstarted)
    (hid : ∀ v, (s'.queues.workers v).threadId = (s.queues.workers v).threadId) (v : Fin n)
    (hv : s'.pc v ≠ .unstarted) : (s'.queues.workers v).threadId = tid v := by
  rw [hid]
  by_cases hvw : v = w
  · exact h.ids v (hvw ▸ hstarted)
  · rw [hpc, Function.update_of_ne hvw] at hv
    exact h.ids v hv

/-- Worker `w` goes to `p`.  The last hypothesis is about the others: if `w` no longer heads for
the queue, somebody else has to take care of it. -/
theorem Inv.move (h : Inv tid s) (hpc : s'.pc = Function.update s.pc w p)
    (hids : ∀ v, s'.pc v ≠ .unstarted → (s'.queues.workers v).threadId = tid v)
    (hpin : ∀ u v, s'.Pinned tid u v → s.Pinned tid u v)
    (hidle : s'.idleThreadCnt + (s.pc w).weight = s.idleThreadCnt + p.weight)
    (hoffset : ∀ startOffset i, p = .stealing startOffset i → 1 ≤ startOffset)
    (hclear : ∀ v, p.looked w v → ¬ s'.Pinned tid w v)
    (hpoll : p = .polling → ∀ v, ¬ s'.Pinned tid w v)
    (hcover : ∀ u v, u ≠ w → s.pc u = .polling → s'.Pinned tid u v → s.Covered u v →
      s'.Covered u v) : Inv tid s' := by
  have hself : s'.pc w = p := by rw [hpc, Function.update_self]
  have hother {u : Fin n} (hu : u ≠ w) : s'.pc u = s.pc u := by
    rw [hpc, Function.update_of_ne hu]
  refine ⟨hids, ?_, fun u startOffset i hu => ?_, fun u v hl => ?_, fun u v hu hp => ?_⟩
  · have hsum := sum_update_weight s.pc w p
    rw [← hpc, ← h.idle] at hsum
    omega
  · by_cases huw : u = w
    · subst huw
      exact hoffset startOffset i (hself.symm.trans hu)
    · exact h.offset u startOffset i ((hother huw).symm.trans hu)
  · by_cases huw : u = w
    · subst huw
      rw [hself] at hl
      exact hclear v hl
    · rw [hother huw] at hl
      exact fun hp => h.clear u v hl (hpin u v hp)
  · by_cases huw : u = w
    · subst huw
      exact absurd hp (hpoll (hself.symm.trans hu) v)
    · have hpolling := (hother huw).symm.trans hu
      exact hcover u v huw hpolling hp (h.covered u v hpolling (hpin u v hp))

/-- A step of worker `w` in which no queue changes and the pipe is not emptied. -/
theorem Inv.control (h : Inv tid s)
    (hpc : s'.pc = Function.update s.pc w p) (hq : s'.queues = s.queues)
    (hcount : s'.count = s.count) (hsends : s'.sends = s.sends) (hpipe : s.pipe ≤ s'.pipe)
    (hstarted : s.pc w ≠ .unstarted)
    (hidle : s'.idleThreadCnt + (s.pc w).weight = s.idleThreadCnt + p.weight)
    (hoffset : ∀ startOffset i, p = .stealing startOffset i → 1 ≤ startOffset)
    (hclear : ∀ v, p.looked w v ∨ p = .polling → ¬ s.Pinned tid w v)
    (hheads : ∀ u v, s.pc u = .polling → s.Pinned tid u v → (s.pc w).heads v = true →
      p.heads v = true ∨ 0 < s'.pipe) : Inv tid s' := by
  have hpin (u v : Fin n) : s'.Pinned tid u v ↔ s.Pinned tid u v := by
    rw [Pinned, hq, Pinned]
  apply h.move hpc
  · exact h.ids_move hpc hstarted fun v => by rw [hq]
  · exact fun u v => (hpin u v).mp
  · exact hidle
  · exact hoffset
  · exact fun v hl hp => hclear v (.inl hl) ((hpin w v).mp hp)
  · exact fun hpoll v hp => hclear v (.inr hpoll) ((hpin w v).mp hp)
  · intro u v _ hu hp hcov
    exact hcov.move hpc hpipe hcount hsends (hheads u v hu ((hpin u v).mp hp))

theorem Inv.setPc (h : Inv tid s) (hstarted : s.pc w ≠ .unstarted)
    (hweight : (s.pc w).weight = p.weight)
    (hoffset : ∀ startOffset i, p = .stealing startOffset i → 1 ≤ startOffset)
    (hclear : ∀ v, p.looked w v ∨ p = .polling → ¬ s.Pinned tid w v)
    (hheads : ∀ u v, s.pc u = .polling → s.Pinned tid u v → (s.pc w).heads v = true →
      p.heads v = true) : Inv tid (s.setPc w p) := by
  have hidle : (s.setPc w p).idleThreadCnt + (s.pc w).weight = s.idleThreadCnt + p.weight := by
    rw [hweight]
    rfl
  exact h.control (w := w) (p := p) rfl rfl rfl rfl le_rfl hstarted hidle hoffset hclear
    fun u v hu hp hhead => .inl (hheads u v hu hp hhead)

/-- If worker `w` takes a task now, nobody is left alone with a pinned one. -/
def Quiet (tid : Fin n → ℕ) (s : Wakeups J n) (w : Fin n) : Prop :=
  0 < s.pipe ∨ s.Deciding ∨ ∀ u, u ≠ w → s.pc u = .polling → ∀ v, ¬ s.Pinned tid u v

variable (h : Inv tid s)
include h

theorem Inv.take {w v : Fin n} {t : Task J} {rest : WorkerQueue J} {threadId : ℤ}
    (ht : Takes (s.queues.workers v) rest t threadId) (hstarted : s.pc w ≠ .unstarted)
    (hweight : (s.pc w).weight = 0) (hquiet : s.Quiet tid w) : Inv tid (s.take w v rest) := by
  have hother {u : Fin n} (hu : u ≠ v) : (s.take w v rest).queues.workers u = s.queues.workers u :=
    setWorker_ne _ _ hu
  have hself : (s.take w v rest).queues.workers v = rest := setWorker_self ..
  have hpin (u x : Fin n) (hp : (s.take w v rest).Pinned tid u x) : s.Pinned tid u x := by
    obtain ⟨y, hy, hth⟩ := hp
    by_cases hx : x = v
    · subst hx
      rw [hself] at hy
      exact ⟨y, ht.pinned_subset hy, hth⟩
    · rw [hother hx] at hy
      exact ⟨y, hy, hth⟩
  have hid (x : Fin n) :
      ((s.take w v rest).queues.workers x).threadId = (s.queues.workers x).threadId := by
    by_cases hxv : x = v
    · subst hxv
      rw [hself, ht.same]
    · rw [hother hxv]
  apply h.move (w := w) (p := .running) rfl
  · exact h.ids_move (w := w) (p := .running) rfl hstarted hid
  · exact hpin
  · rw [hweight]
    rfl
  · intro _ _ hp
    cases hp
  · exact fun _ hl => hl.elim
  · intro hp
    cases hp
  · intro u x hu hpoll hp _
    rcases hquiet with hbytes | hdec | hnone
    · exact .inl hbytes
    · exact .inr (.inl hdec)
    · exact absurd (hpin u x hp) (hnone u hu hpoll x)

theorem Inv.takeLocal (hw : s.pc w = .top) (seed : ℕ)
    (hquiet : ((s.queues.workers w).takeLocal (s.queues.workers w).threadId).isSome →
      s.Quiet tid w) : Inv tid (s.takeLocal w seed) := by
  have hstarted : s.pc w ≠ .unstarted := by
    rw [hw]
    simp
  simp only [Wakeups.takeLocal]
  split
  · rename_i t rest htake
    rw [htake] at hquiet
    exact h.take (takeLocal_takes htake) hstarted (by rw [hw]; rfl) (hquiet rfl)
  · rename_i hnone
    have hown : ¬ s.Pinned tid w w := by
      rintro ⟨t, ht, hth⟩
      rw [← h.ids w hstarted] at hth
      exact ((takeLocal_none_iff.mp hnone).2 t ht).2 hth
    apply h.setPc hstarted
    · rw [hw]
      split <;> rfl
    · intro startOffset i hp
      split at hp
      · cases hp
      · cases hp
        omega
    · intro v hl
      split at hl
      · -- the only worker has seen the only queue
        have hvw : v = w := Fin.ext (by omega)
        exact hvw ▸ hown
      · rcases hl with (rfl | ⟨j, hj, _⟩) | hp
        · exact hown
        · omega
        · cases hp
    · intro _ v _ _ _
      split <;> simp [LoopPc.heads]

theorem Inv.steal {startOffset i : ℕ} (hw : s.pc w = .stealing startOffset i)
    (hquiet : ((s.queues.workers (Queues.victim w startOffset i)).steal
      (s.queues.workers w).threadId).isSome → s.Quiet tid w) :
    Inv tid (s.steal w startOffset i) := by
  have hstarted : s.pc w ≠ .unstarted := by
    rw [hw]
    simp
  have hseen (v : Fin n) (hl : v = w ∨ ∃ j < i, Queues.victim w startOffset j = v) :
      ¬ s.Pinned tid w v := by
    apply h.clear w v
    rw [hw]
    exact hl
  simp only [Wakeups.steal]
  split
  · rename_i t rest htake
    rw [htake] at hquiet
    exact h.take (steal_takes htake) hstarted (by rw [hw]; rfl) (hquiet rfl)
  · rename_i hnone
    have hvictim : ¬ s.Pinned tid w (Queues.victim w startOffset i) := by
      rintro ⟨t, ht, hth⟩
      rw [← h.ids w hstarted] at hth
      exact (steal_none_iff.mp hnone).2 t ht hth
    have hround (v : Fin n) {j : ℕ} (hj : j < i + 1) (hv : Queues.victim w startOffset j = v) :
        ¬ s.Pinned tid w v := by
      rcases Nat.lt_succ_iff_lt_or_eq.mp hj with hlt | rfl
      · exact hseen v (.inr ⟨j, hlt, hv⟩)
      · exact hv ▸ hvictim
    apply h.setPc hstarted
    · rw [hw]
      split <;> rfl
    · intro startOffset' i' hp
      split at hp
      · cases hp
        exact h.offset w startOffset i hw
      · cases hp
    · intro v hl
      split at hl
      · rcases hl with (hvw | ⟨j, hj, hv⟩) | hp
        · exact hseen v (.inl hvw)
        · exact hround v hj hv
        · cases hp
      · -- the last round: every queue has been looked at
        by_cases hvw : v = w
        · exact hseen v (.inl hvw)
        · obtain ⟨j, hj, hv⟩ := victim_cover hvw (h.offset w startOffset i hw)
          exact hround v (by omega) hv
    · intro _ v _ _ _
      split <;> simp [LoopPc.heads]

/-- The same from a point at which `w` has looked everywhere. -/
theorem Inv.setPc_blind (hfar : ∀ v, (s.pc w).looked w v) (hweight : (s.pc w).weight = p.weight)
    (hoffset : ∀ startOffset i, p ≠ .stealing startOffset i)
    (hheads : ∀ u v, s.pc u = .polling → s.Pinned tid u v → (s.pc w).heads v = true →
      p.heads v = true) : Inv tid (s.setPc w p) := by
  apply h.setPc _ hweight _ _ hheads
  · intro hun
    have hl := hfar w
    rw [hun] at hl
    exact hl
  · exact fun startOffset i hp => absurd hp (hoffset startOffset i)
  · exact fun v _ => h.clear w v (hfar v)

theorem Inv.ask {i : ℕ} (hw : s.pc w = .asking i) : Inv tid (s.ask w i) := by
  have hfar (v : Fin n) : (s.pc w).looked w v := by
    rw [hw]
    trivial
  have hstill {v : Fin n} (hhead : (s.pc w).heads v = true) : i ≤ v.val := by
    rw [hw] at hhead
    simpa [LoopPc.heads] using hhead
  simp only [Wakeups.ask]
  split
  · split
    · rename_i hi hempty
      apply h.setPc_blind hfar (by rw [hw]; rfl) (by simp)
      intro u v _ hp hhead
      have hne : v.val ≠ i := by
        rintro rfl
        obtain ⟨t, ht, _⟩ := hp
        simp only [WorkerQueue.isEmpty, Bool.and_eq_true, List.isEmpty_iff] at hempty
        rw [hempty.2] at ht
        cases ht
      have hle := hstill hhead
      simp only [LoopPc.heads, decide_eq_true_eq]
      omega
    · exact h.setPc_blind hfar (by rw [hw]; rfl) (by simp) fun _ _ _ _ _ => rfl
  · apply h.setPc_blind hfar (by rw [hw]; rfl) (by simp)
    intro u v _ _ hhead
    have hle := hstill hhead
    have hlt := v.isLt
    omega

theorem Inv.checkIdle (hw : s.pc w = .tickling) : Inv tid (s.checkIdle w) := by
  have hfar (v : Fin n) : (s.pc w).looked w v := by
    rw [hw]
    trivial
  apply h.setPc_blind hfar
  · rw [hw]
    split <;> rfl
  · intro _ _
    split <;> simp
  · intro u v hu _ _
    rw [if_pos (h.idle_pos hu rfl)]
    rfl

/-- A worker that is not on its way to `epoll_wait` comes to a point from which it will look. -/
theorem Inv.setPc_awake (hstarted : s.pc w ≠ .unstarted)
    (hweight : (s.pc w).weight = p.weight) (hblind : p.blind = false) (hpoll : p ≠ .polling)
    (hheads : ∀ v, p.heads v = true) : Inv tid (s.setPc w p) := by
  apply h.setPc hstarted hweight
  · rintro startOffset i rfl
    cases hblind
  · rintro v (hl | hp)
    · exact absurd (LoopPc.blind_of_looked hl) (by simp [hblind])
    · exact absurd hp hpoll
  · exact fun _ v _ _ _ => hheads v

theorem Inv.write (hw : s.pc w = .writing) : Inv tid (s.write.setPc w .entering) := by
  have hclear (v : Fin n) : ¬ s.Pinned tid w v := h.clear w v (by rw [hw]; trivial)
  exact h.control (w := w) (p := .entering) rfl rfl rfl rfl (Nat.le_succ _) (by rw [hw]; simp)
    (by rw [hw]; rfl) (by simp) (fun v _ => hclear v) fun _ _ _ _ _ => .inr (Nat.succ_pos _)

theorem Inv.enter (hw : s.pc w = .entering) :
    Inv tid { s.setPc w .idling with idleThreadCnt := s.idleThreadCnt + 1 } := by
  have hclear (v : Fin n) : ¬ s.Pinned tid w v := h.clear w v (by rw [hw]; trivial)
  exact h.control (w := w) (p := .idling) rfl rfl rfl rfl le_rfl (by rw [hw]; simp)
    (by rw [hw]; rfl) (by simp) (fun v _ => hclear v) fun _ _ _ _ hhead => by
      rw [hw] at hhead
      cases hhead

theorem Inv.poll (hw : s.pc w = .idling) : Inv tid (s.setPc w .polling) := by
  have hfar (v : Fin n) : (s.pc w).looked w v := by
    rw [hw]
    trivial
  apply h.setPc_blind hfar (by rw [hw]; rfl) (by simp)
  intro u v _ _ hhead
  rw [hw] at hhead
  cases hhead

theorem Inv.wake (hw : s.pc w = .polling) : Inv tid { s.setPc w .woken with ready := false } :=
  h.control (w := w) (p := .woken) rfl rfl rfl rfl le_rfl (by rw [hw]; simp) (by rw [hw]; rfl)
    (by simp) (by simp [LoopPc.looked]) fun _ _ _ _ _ => .inl rfl

/-- The worker that empties the pipe is one that will look. -/
theorem Inv.drain (hw : s.pc w = .woken) : Inv tid { s.setPc w .processing with pipe := 0 } := by
  apply h.move (w := w) (p := .processing) rfl
  · exact h.ids_move (w := w) (p := .processing) rfl (by rw [hw]; simp) fun _ => rfl
  · exact fun _ _ hp => hp
  · rw [hw]
    rfl
  · simp
  · exact fun _ hl => hl.elim
  · simp
  · intro u v hu _ _ _
    refine .inr (.inr ⟨w, Ne.symm hu, ?_⟩)
    show (Function.update s.pc w .processing w).heads v = true
    rw [Function.update_self]
    rfl

theorem Inv.leave (hw : s.pc w = .leaving) :
    Inv tid { s.setPc w .top with idleThreadCnt := s.idleThreadCnt - 1 } := by
  have hpos : 0 < s.idleThreadCnt := h.idle_pos hw rfl
  have hidle : s.idleThreadCnt - 1 + (s.pc w).weight = s.idleThreadCnt + LoopPc.top.weight := by
    rw [hw]
    show s.idleThreadCnt - 1 + 1 = s.idleThreadCnt + 0
    omega
  exact h.control (w := w) (p := .top) rfl rfl rfl rfl le_rfl (by rw [hw]; simp) hidle (by simp)
    (by simp [LoopPc.looked]) fun _ _ _ _ _ => .inl rfl

theorem Inv.start (hw : s.pc w = .unstarted) :
    Inv tid { s.setPc w .top with
      queues := s.queues.setWorker w { s.queues.workers w with threadId := tid w } } := by
  have hpinned (v : Fin n) : ((s.queues.setWorker w { s.queues.workers w with
      threadId := tid w }).workers v).pinnedTasks = (s.queues.workers v).pinnedTasks := by
    by_cases hvw : v = w
    · subst hvw
      rw [setWorker_self]
    · rw [setWorker_ne _ _ hvw]
  apply h.move (w := w) (p := .top) rfl
  · intro v hv
    show ((s.queues.setWorker w _).workers v).threadId = tid v
    by_cases hvw : v = w
    · subst hvw
      rw [setWorker_self]
    · rw [setWorker_ne _ _ hvw]
      apply h.ids v
      intro hun
      exact hv ((Function.update_of_ne hvw ..).trans hun)
  · rintro u v ⟨t, ht, hth⟩
    exact ⟨t, hpinned v ▸ ht, hth⟩
  · rw [hw]
    rfl
  · simp
  · exact fun _ hl => hl.elim
  · simp
  · intro u v _ _ _ hcov
    exact hcov.move (w := w) (p := .top) rfl le_rfl rfl rfl fun _ => .inl rfl

/-! ### The calls of `scheduler()` -/

/-- A step that leaves the workers and the tasks where they are. -/
theorem Inv.others (hpc : s'.pc = s.pc) (hworkers : s'.queues.workers = s.queues.workers)
    (hidle : s'.idleThreadCnt = s.idleThreadCnt)
    (hcover : ∀ w v, s.pc w = .polling → s.Covered w v → s'.Covered w v) : Inv tid s' := by
  have hpin (w v : Fin n) : s'.Pinned tid w v ↔ s.Pinned tid w v := by
    rw [Pinned, hworkers, Pinned]
  refine ⟨?_, ?_, ?_, fun w v hl hp => ?_, fun w v hw hp => ?_⟩
  · rw [hpc, hworkers]
    exact h.ids
  · rw [hpc, hidle]
    exact h.idle
  · rw [hpc]
    exact h.offset
  · rw [hpc] at hl
    exact h.clear w v hl ((hpin w v).mp hp)
  · rw [hpc] at hw
    exact hcover w v hw (h.covered w v hw ((hpin w v).mp hp))

theorem Inv.call (origin : Option (Fin n)) (job : Option J) (thread : ℤ) :
    Inv tid (s.call origin job thread) := by
  refine h.others rfl rfl rfl ?_
  intro w v _ hcov
  refine hcov.same rfl le_rfl ?_
  rintro ⟨k, hk, hdec⟩
  refine .inr ⟨k, Nat.lt_succ_of_lt hk, ?_⟩
  show (Function.update s.sends s.count _ k).pc.deciding = true
  rw [Function.update_of_ne (by omega)]
  exact hdec

theorem Inv.route {k : ℕ} (hk : (s.sends k).pc = .called) : Inv tid (s.route k) := by
  refine h.others rfl (route_workers ..) rfl ?_
  intro w v _ hcov
  refine hcov.same rfl le_rfl ?_
  exact fun hdec => .inr (deciding_setSend hdec (by rw [hk]; rfl) rfl rfl)

theorem Inv.sendCheckIdle {k : ℕ} (hk : k < s.count) : Inv tid (s.sendCheckIdle k) := by
  refine h.others rfl rfl rfl ?_
  intro w v hw hcov
  refine hcov.same rfl le_rfl ?_
  intro _
  refine .inr ⟨k, hk, ?_⟩
  show (Function.update s.sends k _ k).pc.deciding = true
  rw [Function.update_self, if_pos (h.idle_pos hw rfl)]
  rfl

theorem Inv.strayWrite : Inv tid s.write := by
  exact h.others rfl rfl rfl fun _ _ _ _ => .inl (Nat.succ_pos _)

theorem Inv.sendWrite (k : ℕ) : Inv tid (s.write.setSend k .done) := by
  exact h.others rfl rfl rfl fun _ _ _ _ => .inl (Nat.succ_pos _)

/-- The task of call `k` comes into queue `v`. -/
theorem Inv.push {k : ℕ} {v : Fin n} (hk : k < s.count) (hpc : (s.sends k).pc = .routed v)
    (hok : ∀ w, (s.sends k).task.thread = tid w → (s.pc w).blind = false ∧
      (s.pc w = .polling → (s.queues.workers v).isEmpty = true ∨ s.Pinned tid w v)) :
    Inv tid (s.push k v) := by
  have hself : (s.push k v).queues.workers v = ((s.queues.workers v).push (s.sends k).task).1 :=
    setWorker_self ..
  have hother {u : Fin n} (hu : u ≠ v) : (s.push k v).queues.workers u = s.queues.workers u :=
    setWorker_ne _ _ hu
  have hpin {u x : Fin n} (hp : (s.push k v).Pinned tid u x) :
      s.Pinned tid u x ∨ (x = v ∧ (s.sends k).task.thread = tid u) := by
    obtain ⟨t, ht, hth⟩ := hp
    by_cases hx : x = v
    · subst hx
      rw [hself] at ht
      rcases mem_push.2.1 ht with ht | ⟨rfl, _⟩
      · exact .inl ⟨t, ht, hth⟩
      · exact .inr ⟨rfl, hth⟩
    · rw [hother hx] at ht
      exact .inl ⟨t, ht, hth⟩
  have hdec (hd : s.Deciding) : (s.push k v).Deciding :=
    deciding_setSend hd (by rw [hpc]; rfl) rfl rfl
  refine ⟨fun w hw => ?_, h.idle, h.offset, fun w x hl hp => ?_, fun w x hw hp => ?_⟩
  · by_cases hwv : w = v
    · subst hwv
      rw [hself]
      exact (mem_push (x := (s.sends k).task)).2.2.trans (h.ids w hw)
    · rw [hother hwv]
      exact h.ids w hw
  · rcases hpin hp with hp | ⟨_, hth⟩
    · exact h.clear w x hl hp
    · have hlooked : (s.pc w).looked w x := hl
      exact absurd ((hok w hth).1.symm.trans (LoopPc.blind_of_looked hlooked)) (by simp)
  · have hkeep (hc : s.Covered w x) : (s.push k v).Covered w x :=
      hc.same rfl le_rfl fun hd => .inr (hdec hd)
    rcases hpin hp with hp | ⟨rfl, hth⟩
    · exact hkeep (h.covered w x hw hp)
    · rcases (hok w hth).2 hw with hempty | hp
      · -- the first task of the queue: the call has decided to tickle
        refine .inr (.inl ⟨k, hk, ?_⟩)
        show (Function.update s.sends k _ k).pc.deciding = true
        rw [Function.update_self]
        show (if (s.queues.push x (s.sends k).task).2 then SendPc.tickling
          else .done).deciding = true
        rw [Queues.push, push_wasEmpty, hempty]
        rfl
      · exact hkeep (h.covered w x hw hp)

end Wakeups

/-- A task pinned to a worker is queued when the worker is not on its way to `epoll_wait`; if it is
blocked there, the queue is empty or has a task pinned to it already.  And a worker takes a task
only if no task pinned to another, blocked worker is queued, or there is a byte in the pipe or one
is about to be written. -/
def Announced [NeZero n] (tid : Fin n → ℕ) (s : Wakeups J n) : WakeAction J n → Prop
  | .push k v => ∀ w, (s.sends k).task.thread = tid w → (s.pc w).blind = false ∧
      (s.pc w = .polling → (s.queues.workers v).isEmpty = true ∨ s.Pinned tid w v)
  | .takeLocal w _ => ((s.queues.workers w).takeLocal (s.queues.workers w).threadId).isSome →
      s.Quiet tid w
  | .steal w startOffset i => ((s.queues.workers (Queues.victim w startOffset i)).steal
      (s.queues.workers w).threadId).isSome → s.Quiet tid w
  | _ => True

instance (tid : Fin n → ℕ) (s : Wakeups J n) (w v : Fin n) : Decidable (s.Pinned tid w v) := by
  unfold Wakeups.Pinned
  infer_instance

instance (tid : Fin n → ℕ) (s : Wakeups J n) (w : Fin n) : Decidable (s.Quiet tid w) := by
  unfold Wakeups.Quiet Wakeups.Deciding
  infer_instance

instance [NeZero n] (tid : Fin n → ℕ) (s : Wakeups J n) (a : WakeAction J n) :
    Decidable (Announced tid s a) := by
  rcases a <;> (dsimp only [Announced]; infer_instance)

namespace Wakeups

variable [NeZero n] {tid : Fin n → ℕ} {s : Wakeups J n}

theorem Inv.next (h : Inv tid s) {a : WakeAction J n} (he : (wakeups J tid).enabled s a)
    (hok : Announced tid s a) : Inv tid ((wakeups J tid).next s a) := by
  have hstarted {w : Fin n} {pc : LoopPc} (hw : s.pc w = pc) (hpc : pc ≠ .unstarted) :
      s.pc w ≠ .unstarted := hw ▸ hpc
  cases a with
  | start w => exact h.start he
  | takeLocal w seed => exact h.takeLocal he seed hok
  | steal w startOffset i => exact h.steal he hok
  | finish w => exact h.setPc_awake (hstarted he (by simp)) (he ▸ rfl) rfl (by simp) fun _ => rfl
  | ask w i => exact h.ask he
  | checkIdle w => exact h.checkIdle he
  | write w => exact h.write he
  | enter w => exact h.enter he
  | poll w => exact h.poll he
  | wake w => exact h.wake he.1
  | expire w => exact h.setPc_awake (hstarted he (by simp)) (he ▸ rfl) rfl (by simp) fun _ => rfl
  | drain w => exact h.drain he
  | yield w => exact h.setPc_awake (hstarted he (by simp)) (he ▸ rfl) rfl (by simp) fun _ => rfl
  | leave w => exact h.leave he
  | call origin job thread => exact h.call origin job thread
  | route k => exact h.route he.2
  | push k v => exact h.push he.1 he.2 hok
  | sendCheckIdle k => exact h.sendCheckIdle he.1
  | sendWrite k => exact h.sendWrite k
  | strayWrite => exact h.strayWrite

theorem inv_of_init (h : (wakeups J tid).init s) : Inv tid s := by
  obtain ⟨hqueues, hpc, _, hidle, _⟩ := h
  have hpin (w v : Fin n) : ¬ s.Pinned tid w v := by
    rintro ⟨t, ht, _⟩
    rw [(hqueues v).2] at ht
    cases ht
  refine ⟨fun w hw => absurd (hpc w) hw, ?_, fun w _ _ hw => ?_, fun w v _ => hpin w v,
    fun w v _ hp => absurd hp (hpin w v)⟩
  · rw [hidle]
    simp [hpc, LoopPc.weight, LoopPc.counted]
  · rw [hpc w] at hw
    cases hw

theorem reach_inv (h : (wakeups J tid).ReachVia (Announced tid) s) : Inv tid s :=
  h.invariant (fun _ => inv_of_init) (fun _ _ hi he hok => hi.next he hok)

end Wakeups

/-- **The owner of a pinned task is notified.**  While a worker is blocked in `epoll_wait` and a
task pinned to its thread is queued, there is a byte in the pipe, or some call of `scheduler()` is
between `enqueueTask` and its `tickle`, or another worker that runs no task is on its way to
`hasPendingTasks` and has still to look at the queue, or is about to tickle. -/
theorem pinned_owner_notified [NeZero n] {tid : Fin n → ℕ} {s : Wakeups J n}
    (h : (wakeups J tid).ReachVia (Announced tid) s) {w v : Fin n} {t : Task J}
    (hw : s.pc w = .polling) (ht : t ∈ (s.queues.workers v).pinnedTasks)
    (hth : t.thread = tid w) :
    0 < s.pipe ∨ (∃ k < s.count, (s.sends k).pc.deciding = true) ∨
      ∃ u, u ≠ w ∧ (s.pc u).heads v = true :=
  (Wakeups.reach_inv h).covered w v hw ⟨t, ht, hth⟩

/-- No worker has started. -/
def Wakeups.fresh (J : Type) (n : ℕ) : Wakeups J n where
  queues := ⟨fun _ => ⟨[], [], -1, false⟩, 0⟩
  pc := fun _ => .unstarted
  sends := fun _ => ⟨⟨0, none, -1⟩, none, .done⟩
  count := 0
  idleThreadCnt := 0
  pipe := 0
  ready := false

theorem wakeups_init_fresh [NeZero n] (tid : Fin n → ℕ) :
    (wakeups J tid).init (Wakeups.fresh J n) :=
  ⟨fun _ => ⟨rfl, rfl⟩, fun _ => rfl, rfl, rfl, rfl, rfl⟩

/-- Worker `v` has found nothing and is blocked.  Then a task is pinned to its thread 7 and one to
thread 8, whose worker `w` takes its own before anybody has written to the pipe. -/
def lateTask (v w : Fin 2) : List (WakeAction Unit 2) :=
  [.start v, .start w, .takeLocal v 0, .steal v 1 0, .ask v 0, .ask v 1, .ask v 2, .enter v,
    .poll v, .call none (some ()) 7, .route 0, .push 0 v, .call none (some ()) 8, .route 1,
    .push 1 w, .takeLocal w 0]

theorem pinned_owner_notified_late :
    let s := (wakeups Unit fun w : Fin 2 => w.val + 7).run (Wakeups.fresh Unit 2) (lateTask 0 1)
    s.pc 1 = .running ∧ (0 < s.pipe ∨ (∃ k < s.count, (s.sends k).pc.deciding = true) ∨
      ∃ u, u ≠ 0 ∧ (s.pc u).heads 0 = true) := by
  intro s
  have hreach : (wakeups Unit fun w : Fin 2 => w.val + 7).ReachVia
      (Announced fun w => w.val + 7) s :=
    Machine.reachVia_run (.start (wakeups_init_fresh _)) (by decide +kernel)
  have hpin : s.Pinned (fun w => w.val + 7) 0 0 := by decide +kernel
  obtain ⟨t, ht, hth⟩ := hpin
  exact ⟨by decide +kernel,
    pinned_owner_notified hreach (w := 0) (v := 0) (by decide +kernel) ht hth⟩

/-- The task comes after the worker has looked into its queue and before it counts as idle: neither
the submission nor the worker itself writes to the pipe. -/
def unseenTask : List (WakeAction Unit 1) :=
  [.start 0, .takeLocal 0 0, .call none (some ()) 7, .route 0, .push 0 0, .sendCheckIdle 0,
    .ask 0 0, .checkIdle 0, .enter 0, .poll 0]

theorem pinned_owner_asleep :
    ∃ s : Wakeups Unit 1, (wakeups Unit fun _ => 7).Reach s ∧ s.pc 0 = .polling ∧
      s.Pinned (fun _ => 7) 0 0 ∧ s.pipe = 0 ∧ s.ready = false ∧
      (∀ k < s.count, (s.sends k).pc = .done) ∧ ∀ u, u = (0 : Fin 1) :=
  ⟨(wakeups Unit fun _ => 7).run (Wakeups.fresh Unit 1) unseenTask,
    Machine.reachVia_run (.start (wakeups_init_fresh _)) (by decide +kernel), by decide +kernel⟩

end PulsarRuntime.Scheduler
