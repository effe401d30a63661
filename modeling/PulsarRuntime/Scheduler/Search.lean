import PulsarRuntime.Scheduler.Conservation

/-!
# The search for work

`tryTakeTask` looks into the worker's own queue and then into those of the others, in a round that
starts at the victim the thread's seed picks.  Without concurrent changes it is a function of the
queues.  Every victim is another worker and every other worker is a victim, so a search that finds
nothing has seen every queue.
-/

namespace PulsarRuntime.Scheduler

variable {J : Type} {n : ℕ}

/-! ### The round of `trySteal` -/

theorem victim_cover [NeZero n] {w v : Fin n} (hv : v ≠ w) {startOffset : ℕ}
    (hstart : 1 ≤ startOffset) : ∃ i < n - 1, Queues.victim w startOffset i = v := by
  have hw := w.isLt
  have hlt := v.isLt
  have hne : v.val ≠ w.val := fun h => hv (Fin.ext h)
  have hpos : 0 < n - 1 := by omega
  -- the distance from `w` to `v` along the ring
  obtain ⟨d, hd, hd', hdist⟩ : ∃ d, 1 ≤ d ∧ d < n ∧ (w.val + d) % n = v.val := by
    by_cases hle : w.val < v.val
    · refine ⟨v.val - w.val, by omega, by omega, ?_⟩
      rw [Nat.add_sub_of_le hle.le, Nat.mod_eq_of_lt hlt]
    · refine ⟨v.val + n - w.val, by omega, by omega, ?_⟩
      rw [Nat.add_sub_of_le (by omega), Nat.add_mod_right, Nat.mod_eq_of_lt hlt]
  have hr := Nat.mod_lt (startOffset - 1) hpos
  refine ⟨(d - 1 + (n - 1) - (startOffset - 1) % (n - 1)) % (n - 1), Nat.mod_lt _ hpos, ?_⟩
  have hround : (startOffset + (d - 1 + (n - 1) - (startOffset - 1) % (n - 1)) % (n - 1) - 1) %
      (n - 1) = d - 1 := by
    generalize hq : (startOffset - 1) % (n - 1) = r at hr ⊢
    rw [show startOffset + (d - 1 + (n - 1) - r) % (n - 1) - 1 =
      (startOffset - 1) + (d - 1 + (n - 1) - r) % (n - 1) by omega]
    rw [Nat.add_mod, hq, Nat.mod_mod, Nat.add_mod_mod, show r + (d - 1 + (n - 1) - r) =
      d - 1 + (n - 1) by omega, Nat.add_mod_right, Nat.mod_eq_of_lt (by omega)]
  simp only [Queues.victim, hround]
  apply Fin.ext
  rw [show w.val + (d - 1 + 1) = w.val + d by omega]
  exact hdist

theorem victim_ne [NeZero n] (hn : 1 < n) (w : Fin n) (startOffset i : ℕ) :
    Queues.victim w startOffset i ≠ w := by
  intro h
  have hw := w.isLt
  have hoff := Nat.mod_lt (startOffset + i - 1) (show 0 < n - 1 by omega)
  generalize hd : (startOffset + i - 1) % (n - 1) = d at hoff
  have hval : (w.val + (d + 1)) % n = w.val := by
    rw [← hd]
    exact congrArg Fin.val h
  by_cases hlt : w.val + (d + 1) < n
  · rw [Nat.mod_eq_of_lt hlt] at hval
    omega
  · rw [Nat.mod_eq_sub_mod (by omega), Nat.mod_eq_of_lt (by omega)] at hval
    omega

/-! ### One queue -/

variable {threadId : ℤ}

theorem takeLocal_none_iff {q : WorkerQueue J} :
    q.takeLocal threadId = none ↔ q.unpinnedTasks = [] ∧
      ∀ x ∈ q.pinnedTasks, x.thread ≠ -1 ∧ x.thread ≠ threadId := by
  simp only [WorkerQueue.takeLocal]
  cases hfirst : takeFirst (fun t => t.thread == -1 || t.thread == threadId) q.pinnedTasks with
  | some r =>
    obtain ⟨hp, hperm⟩ := takeFirst_spec hfirst
    have hmem : r.1 ∈ q.pinnedTasks := hperm.mem_iff.mpr List.mem_cons_self
    simp only [Bool.or_eq_true, beq_iff_eq] at hp
    refine iff_of_false (by simp) fun h => ?_
    exact hp.elim (h.2 r.1 hmem).1 (h.2 r.1 hmem).2
  | none =>
    have hnone := takeFirst_none hfirst
    simp only [Bool.or_eq_false_iff, beq_eq_false_iff_ne] at hnone
    cases hq : q.unpinnedTasks with
    | nil => exact iff_of_true rfl ⟨rfl, hnone⟩
    | cons x rest => exact iff_of_false (by simp) (by simp)

theorem steal_none_iff {q : WorkerQueue J} :
    q.steal threadId = none ↔ q.unpinnedTasks = [] ∧
      ∀ x ∈ q.pinnedTasks, x.thread ≠ threadId := by
  simp only [WorkerQueue.steal]
  cases hlast : takeLast q.unpinnedTasks with
  | some r =>
    rw [takeLast_some hlast]
    exact iff_of_false (by simp) (by simp)
  | none =>
    rw [takeLast_none hlast]
    cases hfirst : takeFirst (fun t => t.thread == threadId) q.pinnedTasks with
    | some r =>
      obtain ⟨hp, hperm⟩ := takeFirst_spec hfirst
      have hmem : r.1 ∈ q.pinnedTasks := hperm.mem_iff.mpr List.mem_cons_self
      exact iff_of_false (by simp) fun h => h.2 r.1 hmem (by simpa using hp)
    | none =>
      have hnone := takeFirst_none hfirst
      simp only [beq_eq_false_iff_ne] at hnone
      exact iff_of_true rfl ⟨rfl, hnone⟩

/-! ### `tryTakeTask` -/

namespace Queues

/-- `tls_victim_seed` after the generator's step. -/
def victimSeed (seed : BitVec 32) : BitVec 32 := seed * 1664525 + 1013904223

/-- The rounds of the loop of `trySteal` from `i` on. -/
def stealFrom [NeZero n] (q : Queues J n) (w : Fin n) (threadId : ℤ) (startOffset : ℕ) :
    ℕ → ℕ → Option (Task J × Queues J n)
  | _, 0 => none
  | i, left + 1 =>
    let v := victim w startOffset i
    match (q.workers v).steal threadId with
    | some (t, rest) => some (t, q.setWorker v rest)
    | none => q.stealFrom w threadId startOffset (i + 1) left

def trySteal [NeZero n] (q : Queues J n) (w : Fin n) (threadId : ℤ) (seed : BitVec 32) :
    Option (Task J × Queues J n) :=
  if n ≤ 1 then none
  else q.stealFrom w threadId ((victimSeed seed).toNat % (n - 1) + 1) 0 (n - 1)

/-- The task worker `w` gets and the queues without it; `none` where the code returns false. -/
def tryTakeTask [NeZero n] (q : Queues J n) (w : Fin n) (seed : BitVec 32) :
    Option (Task J × Queues J n) :=
  let threadId := (q.workers w).threadId
  match (q.workers w).takeLocal threadId with
  | some (t, rest) => some (t, q.setWorker w rest)
  | none => q.trySteal w threadId seed

end Queues

section Steal

variable [NeZero n] {q q' : Queues J n} {w : Fin n} {threadId : ℤ} {startOffset : ℕ} {x : Task J}

theorem stealFrom_none_iff {i left : ℕ} :
    q.stealFrom w threadId startOffset i left = none ↔
      ∀ j, i ≤ j → j < i + left →
        (q.workers (Queues.victim w startOffset j)).steal threadId = none := by
  induction left generalizing i with
  | zero =>
    refine iff_of_true rfl fun j hle hlt => ?_
    omega
  | succ left ih =>
    simp only [Queues.stealFrom]
    cases hsteal : (q.workers (Queues.victim w startOffset i)).steal threadId with
    | some r =>
      refine iff_of_false (by simp) fun h => ?_
      rw [h i le_rfl (by omega)] at hsteal
      cases hsteal
    | none =>
      rw [ih]
      constructor
      · intro h j hle hlt
        by_cases hj : j = i
        · rw [hj, hsteal]
        · exact h j (by omega) (by omega)
      · intro h j hle hlt
        exact h j (by omega) (by omega)

theorem stealFrom_some {i left : ℕ}
    (h : q.stealFrom w threadId startOffset i left = some (x, q')) :
    ∃ j rest, (q.workers (Queues.victim w startOffset j)).steal threadId = some (x, rest) ∧
      q' = q.setWorker (Queues.victim w startOffset j) rest := by
  induction left generalizing i with
  | zero => cases h
  | succ left ih =>
    simp only [Queues.stealFrom] at h
    split at h
    · rename_i t rest hsteal
      obtain ⟨rfl, rfl⟩ := Prod.mk.inj (Option.some.inj h)
      exact ⟨i, rest, hsteal, rfl⟩
    · exact ih h

/-- A round that finds nothing has been at every other queue. -/
theorem trySteal_none_iff {seed : BitVec 32} :
    q.trySteal w threadId seed = none ↔ ∀ v, v ≠ w → (q.workers v).steal threadId = none := by
  simp only [Queues.trySteal]
  split
  · rename_i hn
    refine iff_of_true rfl fun v hv => absurd (Fin.ext ?_) hv
    omega
  · rw [stealFrom_none_iff]
    constructor
    · intro h v hv
      obtain ⟨i, hi, hvictim⟩ :=
        victim_cover hv (Nat.le_add_left 1 ((Queues.victimSeed seed).toNat % (n - 1)))
      rw [← hvictim]
      exact h i (Nat.zero_le i) (by omega)
    · intro h i _ _
      exact h _ (victim_ne (by omega) w _ i)

end Steal

/-! ### A worker that is left alone -/

/-- How the search of worker `w` ends. -/
def Pool.searched (s : Pool J n) (w : Fin n) : Option (Task J × Queues J n) → Pool J n
  | none => s.setTaker w .idle
  | some (t, q) => { s.setTaker w .idle with queues := q, taken := s.taken ++ [(t, w)] }

theorem setTaker_searched (s : Pool J n) (w : Fin n) (pc : TakePc)
    (r : Option (Task J × Queues J n)) : (s.setTaker w pc).searched w r = s.searched w r := by
  cases r <;> simp only [Pool.searched, Pool.setTaker, Function.update_idem]

theorem setTaker_takers (s : Pool J n) (w : Fin n) (pc : TakePc) :
    (s.setTaker w pc).takers w = pc := Function.update_self ..

section Alone

variable [NeZero n] {tid : Fin n → ℕ} {w : Fin n} {threadId : ℤ}

theorem stealFrom_later {s : Pool J n} {startOffset i left : ℕ}
    (hpc : s.takers w = .stealing threadId startOffset i) (hleft : i + (left + 1) = n - 1) :
    (pool J tid).Later (fun _ _ => True) s
      (s.searched w (s.queues.stealFrom w threadId startOffset i (left + 1))) := by
  have hstep : (pool J tid).Later (fun _ _ => True) s (s.steal w threadId startOffset i) :=
    .single ⟨.steal w threadId startOffset i, hpc, trivial, rfl⟩
  simp only [Pool.steal] at hstep
  rw [Queues.stealFrom]
  cases hsteal : (s.queues.workers (Queues.victim w startOffset i)).steal threadId with
  | some r =>
    rw [hsteal] at hstep
    exact hstep
  | none =>
    simp only [hsteal] at hstep ⊢
    cases left with
    | zero =>
      rw [if_neg (by omega)] at hstep
      exact hstep
    | succ left =>
      rw [if_pos (by omega)] at hstep
      apply hstep.trans
      rw [← setTaker_searched s w (.stealing threadId startOffset (i + 1))]
      exact stealFrom_later (setTaker_takers ..) (by omega)

/-- The steps of a worker whose search nobody interferes with compute `tryTakeTask`. -/
theorem tryTakeTask_later {s : Pool J n} (hidle : s.takers w = .idle)
    (htid : (s.queues.workers w).threadId = tid w) (seed : BitVec 32) :
    (pool J tid).Later (fun _ _ => True) s (s.searched w (s.queues.tryTakeTask w seed)) := by
  generalize ht : (s.queues.workers w).threadId = t at htid
  have hload : (pool J tid).Later (fun _ _ => True) s (s.setTaker w (.loaded t)) := by
    refine .single ⟨.load w, ⟨hidle, ht.trans htid⟩, trivial, ?_⟩
    rw [← ht]
    rfl
  have hlocal : (pool J tid).Later (fun _ _ => True) (s.setTaker w (.loaded t))
      ((s.setTaker w (.loaded t)).takeLocal w t (Queues.victimSeed seed).toNat) :=
    .single ⟨.takeLocal w t _, setTaker_takers .., trivial, rfl⟩
  have hqueues : (s.setTaker w (.loaded t)).queues = s.queues := rfl
  apply hload.trans
  rw [← setTaker_searched s w (.loaded t)]
  simp only [Pool.takeLocal, hqueues] at hlocal
  simp only [Queues.tryTakeTask, ht]
  cases htake : (s.queues.workers w).takeLocal t with
  | some r =>
    rw [htake] at hlocal
    exact hlocal
  | none =>
    simp only [htake] at hlocal ⊢
    simp only [Queues.trySteal]
    by_cases hn : n ≤ 1
    · rw [if_pos hn] at hlocal
      rw [if_pos hn]
      exact hlocal
    · rw [if_neg hn] at hlocal
      rw [if_neg hn]
      apply hlocal.trans
      obtain ⟨left, hleft⟩ : ∃ left, n - 1 = left + 1 := ⟨n - 2, by omega⟩
      rw [hleft, ← setTaker_searched _ w
        (.stealing t ((Queues.victimSeed seed).toNat % (left + 1) + 1) 0)]
      exact stealFrom_later (setTaker_takers ..) (by omega)

end Alone

/-! ### What the search returns -/

/-- The queues as `enqueueTask` fills them: what is in a pinned deque is pinned. -/
structure Filed (J : Type) (n : ℕ) extends Queues J n where
  pinned : ∀ v, ∀ x ∈ (workers v).pinnedTasks, x.thread ≠ -1

/-- In every run the queues are filed. -/
theorem pool_filed [NeZero n] {tid : Fin n → ℕ} {s : Pool J n} (h : (pool J tid).Reach s) :
    ∃ q : Filed J n, q.toQueues = s.queues := by
  have hi : s.Inv tid :=
    h.invariant (I := Pool.Inv tid) (fun _ => pool_init_inv) fun _ _ hi he => pool_next_inv hi he
  exact ⟨⟨s.queues, fun v x hx => (hi.pinned v x hx).1⟩, rfl⟩

/-- `q'` is `q` without one task, `x`, of queue `v`. -/
inductive Removed (q q' : Queues J n) (v : Fin n) (x : Task J) : Prop where
  | pinned (l r : List (Task J)) (split : (q.workers v).pinnedTasks = l ++ x :: r)
      (rest : q' = q.setWorker v { q.workers v with pinnedTasks := l ++ r })
  | unpinned (l r : List (Task J)) (split : (q.workers v).unpinnedTasks = l ++ x :: r)
      (rest : q' = q.setWorker v { q.workers v with unpinnedTasks := l ++ r })

/-- The task `x` that worker `w`, on thread `threadId`, is to get from the queues `q`, and what is
left of them. -/
structure Found (q q' : Queues J n) (w : Fin n) (threadId : ℤ) (x : Task J) : Prop where
  /-- exactly one task is removed -/
  removed : ∃ v, Removed q q' v x
  /-- the first task pinned to the thread in the worker's own queue -/
  own : (∃ y ∈ (q.workers w).pinnedTasks, y.thread = threadId) →
    ∃ l r, (q.workers w).pinnedTasks = l ++ x :: r ∧ x.thread = threadId ∧
      (∀ y ∈ l, y.thread ≠ threadId) ∧
      q' = q.setWorker w { q.workers w with pinnedTasks := l ++ r }
  /-- else the front one of its unpinned tasks -/
  front : (∀ y ∈ (q.workers w).pinnedTasks, y.thread ≠ threadId) →
    ∀ y rest, (q.workers w).unpinnedTasks = y :: rest →
      x = y ∧ q' = q.setWorker w { q.workers w with unpinnedTasks := rest }
  /-- else a task of another queue -/
  stolen : (∀ y ∈ (q.workers w).pinnedTasks, y.thread ≠ threadId) →
    (q.workers w).unpinnedTasks = [] → ∃ v, v ≠ w ∧ Removed q q' v x

theorem found_local (q : Filed J n) {w : Fin n} {x : Task J}
    {rest : WorkerQueue J} (h : (q.workers w).takeLocal threadId = some (x, rest)) :
    Found q.toQueues (q.setWorker w rest) w threadId x := by
  simp only [WorkerQueue.takeLocal] at h
  split at h
  · rename_i y pinned hfirst
    obtain ⟨rfl, rfl⟩ := Prod.mk.inj (Option.some.inj h)
    obtain ⟨hp, l, r, hsplit, rfl, hbefore⟩ := takeFirst_some hfirst
    have hmem : y ∈ (q.workers w).pinnedTasks := by
      rw [hsplit]
      simp
    have hth : y.thread = threadId := by
      simp only [Bool.or_eq_true, beq_iff_eq] at hp
      exact hp.resolve_left (q.pinned w y hmem)
    simp only [Bool.or_eq_false_iff, beq_eq_false_iff_ne] at hbefore
    refine ⟨⟨w, .pinned l r hsplit rfl⟩, fun _ => ?_, fun hnone => ?_, fun hnone => ?_⟩
    · exact ⟨l, r, hsplit, hth, fun z hz => (hbefore z hz).2, rfl⟩
    · exact absurd hth (hnone y hmem)
    · exact absurd hth (hnone y hmem)
  · rename_i hfirst
    have hnone := takeFirst_none hfirst
    simp only [Bool.or_eq_false_iff, beq_eq_false_iff_ne] at hnone
    split at h
    · cases h
    · rename_i y unpinned hq
      obtain ⟨rfl, rfl⟩ := Prod.mk.inj (Option.some.inj h)
      refine ⟨⟨w, .unpinned [] unpinned hq rfl⟩, fun hown => ?_, fun _ z rest hz => ?_,
        fun _ hempty => ?_⟩
      · obtain ⟨z, hz, hth⟩ := hown
        exact absurd hth (hnone z hz).2
      · rw [hq] at hz
        obtain ⟨rfl, rfl⟩ := List.cons.inj hz
        exact ⟨rfl, rfl⟩
      · rw [hq] at hempty
        cases hempty

theorem removed_steal {q : Queues J n} {v : Fin n} {x : Task J}
    {rest : WorkerQueue J} (h : (q.workers v).steal threadId = some (x, rest)) :
    Removed q (q.setWorker v rest) v x := by
  simp only [WorkerQueue.steal] at h
  split at h
  · rename_i y unpinned hlast
    obtain ⟨rfl, rfl⟩ := Prod.mk.inj (Option.some.inj h)
    refine .unpinned unpinned [] (takeLast_some hlast) ?_
    rw [List.append_nil]
  · split at h
    · rename_i y pinned hfirst
      obtain ⟨rfl, rfl⟩ := Prod.mk.inj (Option.some.inj h)
      obtain ⟨-, l, r, hsplit, rfl, -⟩ := takeFirst_some hfirst
      exact .pinned l r hsplit rfl
    · cases h

theorem found_stolen [NeZero n] {q q' : Queues J n} {w : Fin n} {x : Task J}
    {seed : BitVec 32} (hlocal : (q.workers w).takeLocal threadId = none)
    (h : q.trySteal w threadId seed = some (x, q')) : Found q q' w threadId x := by
  obtain ⟨hempty, hnone⟩ := takeLocal_none_iff.mp hlocal
  have hstolen : ∃ v, v ≠ w ∧ Removed q q' v x := by
    simp only [Queues.trySteal] at h
    split at h
    · cases h
    · obtain ⟨i, rest, hsteal, rfl⟩ := stealFrom_some h
      exact ⟨_, victim_ne (by omega) w _ i, removed_steal hsteal⟩
  obtain ⟨v, hv, hremoved⟩ := hstolen
  refine ⟨⟨v, hremoved⟩, fun hown => ?_, fun _ y rest hy => ?_, fun _ _ => ⟨v, hv, hremoved⟩⟩
  · obtain ⟨y, hy, hth⟩ := hown
    exact absurd hth (hnone y hy).2
  · rw [hempty] at hy
    cases hy

/-- **The search for work is complete.**  For every number of workers, every contents of the queues
and every seed, `tryTakeTask` returns false exactly when no queue holds an unpinned task and none a
task pinned to the worker's thread; a task it returns is the one the worker is to get. -/
theorem work_search_complete [NeZero n] (q : Filed J n) (w : Fin n) (seed : BitVec 32) :
    (q.tryTakeTask w seed = none ↔ ∀ v, (q.workers v).unpinnedTasks = [] ∧
      ∀ x ∈ (q.workers v).pinnedTasks, x.thread ≠ (q.workers w).threadId) ∧
    ∀ x q', q.tryTakeTask w seed = some (x, q') →
      Found q.toQueues q' w (q.workers w).threadId x := by
  simp only [Queues.tryTakeTask]
  cases hlocal : (q.workers w).takeLocal (q.workers w).threadId with
  | some r =>
    refine ⟨iff_of_false (by simp) fun h => ?_, fun x q' h => ?_⟩
    · have hnone : (q.workers w).takeLocal (q.workers w).threadId = none :=
        takeLocal_none_iff.mpr ⟨(h w).1, fun x hx => ⟨q.pinned w x hx, (h w).2 x hx⟩⟩
      rw [hnone] at hlocal
      cases hlocal
    · obtain ⟨rfl, rfl⟩ := Prod.mk.inj (Option.some.inj h)
      exact found_local q hlocal
  | none =>
    refine ⟨?_, fun x q' h => found_stolen hlocal h⟩
    obtain ⟨hempty, hnone⟩ := takeLocal_none_iff.mp hlocal
    rw [trySteal_none_iff]
    constructor
    · intro h v
      by_cases hv : v = w
      · subst hv
        exact ⟨hempty, fun x hx => (hnone x hx).2⟩
      · exact steal_none_iff.mp (h v hv)
    · intro h v _
      exact steal_none_iff.mpr (h v)

/-- Worker 0 has only a task for another thread, worker 2 one for everybody. -/
def threeQueues : Filed Unit 3 where
  workers
    | 0 => ⟨[], [⟨0, some (), 11⟩], 10, true⟩
    | 1 => ⟨[], [], 11, false⟩
    | 2 => ⟨[⟨1, some (), -1⟩], [], 12, false⟩
  nextQueue := 0
  pinned := by decide

theorem work_search_complete_stolen : ∃ x q', threeQueues.tryTakeTask 0 7 = some (x, q') ∧
    ∃ v, v ≠ 0 ∧ Removed threeQueues.toQueues q' v x := by
  obtain ⟨hnone, hfound⟩ := work_search_complete threeQueues 0 7
  have hsome : threeQueues.tryTakeTask 0 7 ≠ none := by
    rw [Ne, hnone]
    intro h
    exact absurd (h 2).1 (by decide)
  obtain ⟨⟨x, q'⟩, hx⟩ := Option.ne_none_iff_exists'.mp hsome
  exact ⟨x, q', hx, (hfound x q' hx).stolen (by decide) rfl⟩

end PulsarRuntime.Scheduler
