import PulsarRuntime.Scheduler.Queues

/-!
# Every accepted task is in one place and is taken by the right worker

A submission that was accepted has its task in exactly one deque, or among the tasks taken, at
exactly one position (`Placed`): `push` inserts it, and a worker moves it from a deque to the
taken ones.  Pinned tasks are in the pinned deques only, from which a worker takes nothing but
what is pinned to its own thread.
-/

namespace PulsarRuntime.Scheduler

variable {J : Type} {n : ℕ}

/-- The places a task can be in. -/
inductive Place (n : ℕ) where
  | unpinned (w : Fin n)
  | pinned (w : Fin n)
  | taken
  deriving DecidableEq

/-- The tasks of a place, by number. -/
def Pool.content (s : Pool J n) : Place n → List ℕ
  | .unpinned w => (s.queues.workers w).unpinnedTasks.map Task.id
  | .pinned w => (s.queues.workers w).pinnedTasks.map Task.id
  | .taken => s.taken.map fun p => p.1.id

/-- `enqueueTask` has pushed the task of submission `k`. -/
def Pool.Accepted (s : Pool J n) (k : ℕ) : Prop := k < s.count ∧ (s.subs k).pc = .accepted

/-! ### Taking a task out of a queue -/

/-- What a successful take does: the task leaves one deque, and if that is the pinned one it is
pinned to the taker. -/
structure Takes (q q' : WorkerQueue J) (t : Task J) (threadId : ℤ) : Prop where
  same : q'.threadId = q.threadId
  moved : (q.pinnedTasks.Perm (t :: q'.pinnedTasks) ∧ q'.unpinnedTasks = q.unpinnedTasks ∧
      (t.thread = -1 ∨ t.thread = threadId)) ∨
    (q.unpinnedTasks.Perm (t :: q'.unpinnedTasks) ∧ q'.pinnedTasks = q.pinnedTasks)

variable {threadId : ℤ} {q rest : WorkerQueue J} {t : Task J}

theorem takeLocal_takes (h : q.takeLocal threadId = some (t, rest)) : Takes q rest t threadId := by
  unfold WorkerQueue.takeLocal at h
  split at h
  · rename_i t' rest' hfirst
    cases h
    obtain ⟨hp, hperm⟩ := takeFirst_spec hfirst
    exact ⟨rfl, .inl ⟨hperm, rfl, by simpa using hp⟩⟩
  · split at h
    · cases h
    · rename_i t' rest' hq
      cases h
      exact ⟨rfl, .inr ⟨by rw [hq], rfl⟩⟩

theorem steal_takes (h : q.steal threadId = some (t, rest)) : Takes q rest t threadId := by
  unfold WorkerQueue.steal at h
  split at h
  · rename_i t' rest' hlast
    cases h
    exact ⟨rfl, .inr ⟨takeLast_spec hlast, rfl⟩⟩
  · split at h
    · rename_i t' rest' hfirst
      cases h
      obtain ⟨hp, hperm⟩ := takeFirst_spec hfirst
      exact ⟨rfl, .inl ⟨hperm, rfl, .inr (by simpa using hp)⟩⟩
    · cases h

namespace Takes

variable {q q' : WorkerQueue J} {t : Task J} {threadId : ℤ}

theorem mem (h : Takes q q' t threadId) :
    t ∈ q.pinnedTasks ∧ (t.thread = -1 ∨ t.thread = threadId) ∨ t ∈ q.unpinnedTasks := by
  rcases h.moved with ⟨hperm, -, hth⟩ | ⟨hperm, -⟩
  · exact .inl ⟨hperm.mem_iff.mpr List.mem_cons_self, hth⟩
  · exact .inr (hperm.mem_iff.mpr List.mem_cons_self)

theorem unpinned_subset (h : Takes q q' t threadId) : q'.unpinnedTasks ⊆ q.unpinnedTasks := by
  intro x hx
  rcases h.moved with ⟨-, heq, -⟩ | ⟨hperm, -⟩
  · rw [← heq]
    exact hx
  · exact hperm.mem_iff.mpr (List.mem_cons_of_mem t hx)

theorem pinned_subset (h : Takes q q' t threadId) : q'.pinnedTasks ⊆ q.pinnedTasks := by
  intro x hx
  rcases h.moved with ⟨hperm, -⟩ | ⟨-, heq⟩
  · exact hperm.mem_iff.mpr (List.mem_cons_of_mem t hx)
  · rw [← heq]
    exact hx

end Takes

variable {v : Fin n}

/-- A step on the queue of worker `v` leaves the deques of the others alone. -/
theorem content_of_ne {s s' : Pool J n}
    (hne : ∀ u, u ≠ v → s'.queues.workers u = s.queues.workers u) {p : Place n}
    (hunpinned : p = .unpinned v →
      (s'.queues.workers v).unpinnedTasks = (s.queues.workers v).unpinnedTasks)
    (hpinned : p = .pinned v →
      (s'.queues.workers v).pinnedTasks = (s.queues.workers v).pinnedTasks)
    (htaken : p = .taken → s'.taken = s.taken) : s'.content p = s.content p := by
  cases p with
  | taken => exact congrArg (List.map fun p => p.1.id) (htaken rfl)
  | unpinned u =>
    refine congrArg (List.map Task.id) ?_
    by_cases hu : u = v
    · subst hu
      exact hunpinned rfl
    · rw [hne u hu]
  | pinned u =>
    refine congrArg (List.map Task.id) ?_
    by_cases hu : u = v
    · subst hu
      exact hpinned rfl
    · rw [hne u hu]

variable {w : Fin n} {k : ℕ}

/-- A task that is taken goes from its deque to the taken ones; the others stay. -/
theorem take_placed {s : Pool J n} (ht : Takes (s.queues.workers v) rest t threadId)
    {loc : Option (Place n)} (hk : Placed s.content k loc) :
    Placed (s.take w v t rest).content k (if k = t.id then some .taken else loc) := by
  have hself : (s.take w v t rest).queues.workers v = rest := setWorker_self ..
  have hne : ∀ u, u ≠ v → (s.take w v t rest).queues.workers u = s.queues.workers u :=
    fun _ => setWorker_ne _ _
  have htaken : ((s.take w v t rest).content .taken).Perm (t.id :: s.content .taken) := by
    show ((s.taken ++ [(t, w)]).map fun p => p.1.id).Perm _
    rw [List.map_append]
    exact List.perm_append_singleton _ _
  rcases ht.moved with ⟨hperm, heq, -⟩ | ⟨hperm, heq⟩
  · refine hk.move (p := Place.pinned v) (by simp) ?_ htaken fun r hr hr' => ?_
    · show (List.map Task.id _).Perm (t.id ::
        ((s.take w v t rest).queues.workers v).pinnedTasks.map Task.id)
      rw [hself]
      exact hperm.map Task.id
    · exact content_of_ne hne (fun _ => by rw [hself, heq]) (absurd · hr) (absurd · hr')
  · refine hk.move (p := Place.unpinned v) (by simp) ?_ htaken fun r hr hr' => ?_
    · show (List.map Task.id _).Perm (t.id ::
        ((s.take w v t rest).queues.workers v).unpinnedTasks.map Task.id)
      rw [hself]
      exact hperm.map Task.id
    · exact content_of_ne hne (absurd · hr) (fun _ => by rw [hself, heq]) (absurd · hr')

/-! ### The invariant -/

structure Pool.Inv (tid : Fin n → ℕ) (s : Pool J n) : Prop where
  unpinned : ∀ w, ∀ t ∈ (s.queues.workers w).unpinnedTasks, t.thread = -1 ∧
    t.id < s.count ∧ (s.subs t.id).task = t
  pinned : ∀ w, ∀ t ∈ (s.queues.workers w).pinnedTasks, t.thread ≠ -1 ∧
    t.id < s.count ∧ (s.subs t.id).task = t
  placed : ∀ k, (s.Accepted k → ∃ p, Placed s.content k (some p)) ∧
    (¬ s.Accepted k → Placed s.content k none)
  numbered : ∀ k < s.count, (s.subs k).task.id = k
  nonempty : ∀ k < s.count, (s.subs k).pc ≠ .rejected → (s.subs k).task.job ≠ none
  takers : ∀ w threadId, s.takers w = .loaded threadId ∨
    (∃ o i, s.takers w = .stealing threadId o i) →
    threadId = tid w ∧ (s.queues.workers w).threadId = tid w
  affinity : ∀ p ∈ s.taken, p.1.id < s.count ∧ (s.subs p.1.id).task = p.1 ∧
    (p.1.thread ≠ -1 → (s.queues.workers p.2).threadId = p.1.thread ∧ p.1.thread = tid p.2)

variable {tid : Fin n → ℕ} {s : Pool J n}

/-- Nothing but thread ids, round-robin counter and control moves. -/
theorem Pool.Inv.control {s' : Pool J n} (h : s.Inv tid)
    (hunpinned : ∀ w, (s'.queues.workers w).unpinnedTasks = (s.queues.workers w).unpinnedTasks)
    (hpinned : ∀ w, (s'.queues.workers w).pinnedTasks = (s.queues.workers w).pinnedTasks)
    (hcount : s'.count = s.count) (htaken : s'.taken = s.taken)
    (htask : ∀ k < s.count, (s'.subs k).task = (s.subs k).task)
    (haccepted : ∀ k < s.count, (s'.subs k).pc = .accepted ↔ (s.subs k).pc = .accepted)
    (hrejected : ∀ k < s.count, (s.subs k).pc = .rejected → (s'.subs k).pc = .rejected)
    (hthread : ∀ w, (s.queues.workers w).threadId = tid w →
      (s'.queues.workers w).threadId = tid w)
    (htakers : ∀ w threadId, s'.takers w = .loaded threadId ∨
      (∃ o i, s'.takers w = .stealing threadId o i) →
      threadId = tid w ∧ (s.queues.workers w).threadId = tid w) : s'.Inv tid := by
  have hcontent : s'.content = s.content := by
    funext p
    cases p with
    | unpinned w => show List.map _ _ = List.map _ _; rw [hunpinned]
    | pinned w => show List.map _ _ = List.map _ _; rw [hpinned]
    | taken => show List.map _ _ = List.map _ _; rw [htaken]
  have hacc : ∀ k, s'.Accepted k ↔ s.Accepted k := by
    intro k
    unfold Pool.Accepted
    rw [hcount]
    exact and_congr_right fun hk => haccepted k hk
  constructor
  case unpinned =>
    intro w t ht
    rw [hunpinned] at ht
    obtain ⟨hp, hk, heq⟩ := h.unpinned w t ht
    exact ⟨hp, by rw [hcount]; exact hk, by rw [htask t.id hk]; exact heq⟩
  case pinned =>
    intro w t ht
    rw [hpinned] at ht
    obtain ⟨hp, hk, heq⟩ := h.pinned w t ht
    exact ⟨hp, by rw [hcount]; exact hk, by rw [htask t.id hk]; exact heq⟩
  case placed =>
    intro k
    rw [hcontent, hacc]
    exact h.placed k
  case numbered =>
    intro k hk
    rw [hcount] at hk
    rw [htask k hk]
    exact h.numbered k hk
  case nonempty =>
    intro k hk hne
    rw [hcount] at hk
    rw [htask k hk]
    exact h.nonempty k hk fun hr => hne (hrejected k hk hr)
  case takers =>
    intro w threadId hw
    obtain ⟨heq, hreg⟩ := htakers w threadId hw
    exact ⟨heq, hthread w hreg⟩
  case affinity =>
    intro p hp
    rw [htaken] at hp
    obtain ⟨hk, heq, haff⟩ := h.affinity p hp
    refine ⟨by rw [hcount]; exact hk, by rw [htask _ hk]; exact heq, fun hne => ?_⟩
    obtain ⟨hreg, ht⟩ := haff hne
    rw [ht] at hreg ⊢
    exact ⟨hthread p.2 hreg, rfl⟩

/-- A worker takes a task: it moves from its deque to the taken ones. -/
theorem take_inv (h : s.Inv tid)
    (ht : Takes (s.queues.workers v) rest t threadId) (hid : threadId = tid w)
    (hreg : (s.queues.workers w).threadId = tid w) : (s.take w v t rest).Inv tid := by
  have hself : (s.take w v t rest).queues.workers v = rest := setWorker_self ..
  have hne : ∀ {u}, u ≠ v → (s.take w v t rest).queues.workers u = s.queues.workers u :=
    setWorker_ne _ _
  have hthread : ∀ u, ((s.take w v t rest).queues.workers u).threadId =
      (s.queues.workers u).threadId := by
    intro u
    by_cases hu : u = v
    · rw [hu, hself, ht.same]
    · rw [hne hu]
  constructor
  case unpinned =>
    intro u x hx
    by_cases hu : u = v
    · rw [hu, hself] at hx
      exact h.unpinned v x (ht.unpinned_subset hx)
    · rw [hne hu] at hx
      exact h.unpinned u x hx
  case pinned =>
    intro u x hx
    by_cases hu : u = v
    · rw [hu, hself] at hx
      exact h.pinned v x (ht.pinned_subset hx)
    · rw [hne hu] at hx
      exact h.pinned u x hx
  case placed =>
    intro k
    refine ⟨fun hk => ?_, fun hk => ?_⟩
    · obtain ⟨p, hp⟩ := (h.placed k).1 hk
      have hp' := take_placed (w := w) ht hp
      split at hp'
      · exact ⟨_, hp'⟩
      · exact ⟨_, hp'⟩
    · have hnone := (h.placed k).2 hk
      have hp' := take_placed (w := w) ht hnone
      rwa [if_neg] at hp'
      -- an unaccepted task is in no deque
      rintro rfl
      rcases ht.mem with ⟨hm, -⟩ | hm
      · have hin : t.id ∈ s.content (.pinned v) := List.mem_map_of_mem hm
        rw [hnone.mem_iff] at hin
        cases hin
      · have hin : t.id ∈ s.content (.unpinned v) := List.mem_map_of_mem hm
        rw [hnone.mem_iff] at hin
        cases hin
  case numbered => exact h.numbered
  case nonempty => exact h.nonempty
  case takers =>
    intro u threadId' hu
    by_cases huw : u = w
    · have hidle : (s.take w v t rest).takers u = .idle := by
        rw [huw]
        exact Function.update_self ..
      rw [hidle] at hu
      rcases hu with hu | ⟨o, i, hu⟩ <;> cases hu
    · have hold : (s.take w v t rest).takers u = s.takers u := Function.update_of_ne huw ..
      rw [hold] at hu
      rw [hthread]
      exact h.takers u threadId' hu
  case affinity =>
    intro p hp
    rw [hthread]
    rcases List.mem_append.mp hp with hp | hp
    · exact h.affinity p hp
    · rw [List.mem_singleton.mp hp]
      rcases ht.mem with ⟨hm, hth⟩ | hm
      · obtain ⟨hpin, hk, heq⟩ := h.pinned v t hm
        refine ⟨hk, heq, fun _ => ?_⟩
        rw [hth.resolve_left hpin, hid]
        exact ⟨hreg, rfl⟩
      · obtain ⟨hfree, hk, heq⟩ := h.unpinned v t hm
        exact ⟨hk, heq, fun hne => absurd hfree hne⟩

/-- The deque `push` appends to. -/
def pushPlace (w : Fin n) (t : Task J) : Place n :=
  if t.thread ≠ -1 then .pinned w else .unpinned w

theorem push_content (s : Pool J n) (k : ℕ) (w : Fin n) :
    (s.push k w).content (pushPlace w (s.subs k).task) =
        s.content (pushPlace w (s.subs k).task) ++ [(s.subs k).task.id] ∧
      ∀ p ≠ pushPlace w (s.subs k).task, (s.push k w).content p = s.content p := by
  have hself : (s.push k w).queues.workers w = ((s.queues.workers w).push (s.subs k).task).1 :=
    setWorker_self ..
  have hne : ∀ u, u ≠ w → (s.push k w).queues.workers u = s.queues.workers u :=
    fun _ => setWorker_ne _ _
  unfold pushPlace
  unfold WorkerQueue.push at hself
  dsimp only at hself
  split
  · rename_i hpin
    rw [if_pos hpin] at hself
    refine ⟨?_, fun p hp => ?_⟩
    · show ((s.push k w).queues.workers w).pinnedTasks.map _ = _
      rw [hself, List.map_append]
      rfl
    · exact content_of_ne hne (fun _ => by rw [hself]) (absurd · hp) fun _ => rfl
  · rename_i hpin
    rw [if_neg hpin] at hself
    refine ⟨?_, fun p hp => ?_⟩
    · show ((s.push k w).queues.workers w).unpinnedTasks.map _ = _
      rw [hself, List.map_append]
      rfl
    · exact content_of_ne hne (absurd · hp) (fun _ => by rw [hself]) fun _ => rfl

/-- What `push` leaves in a queue: the tasks that were there, and the new one in its deque. -/
theorem mem_push {x : Task J} :
    (x ∈ (q.push t).1.unpinnedTasks → x ∈ q.unpinnedTasks ∨ x = t ∧ t.thread = -1) ∧
      (x ∈ (q.push t).1.pinnedTasks → x ∈ q.pinnedTasks ∨ x = t ∧ t.thread ≠ -1) ∧
      (q.push t).1.threadId = q.threadId := by
  unfold WorkerQueue.push
  dsimp only
  split
  · rename_i hpin
    refine ⟨.inl, fun hx => ?_, rfl⟩
    exact (List.mem_append.mp hx).imp_right fun hx => ⟨List.mem_singleton.mp hx, hpin⟩
  · rename_i hfree
    refine ⟨fun hx => ?_, .inl, rfl⟩
    exact (List.mem_append.mp hx).imp_right fun hx => ⟨List.mem_singleton.mp hx, not_not.mp hfree⟩

theorem push_sub_self (s : Pool J n) (k : ℕ) (w : Fin n) :
    (s.push k w).subs k = { s.subs k with pc := .accepted } := Function.update_self ..

theorem push_sub_ne (s : Pool J n) {k' : ℕ} (w : Fin n) (h : k' ≠ k) :
    (s.push k w).subs k' = s.subs k' := Function.update_of_ne h ..

theorem push_task (s : Pool J n) (k k' : ℕ) (w : Fin n) :
    ((s.push k w).subs k').task = (s.subs k').task := by
  by_cases hkk : k' = k
  · rw [hkk, push_sub_self]
  · rw [push_sub_ne s w hkk]

theorem accepted_push (hk : k < s.count) (k' : ℕ) (w : Fin n) :
    (s.push k w).Accepted k' ↔ k' = k ∨ s.Accepted k' := by
  unfold Pool.Accepted
  by_cases hkk : k' = k
  · have hnew : ((s.push k w).subs k').pc = .accepted := by
      rw [hkk, push_sub_self]
    rw [hnew, hkk]
    simp [Pool.push, Pool.setSub, hk]
  · rw [push_sub_ne s w hkk]
    simp [hkk, Pool.push, Pool.setSub]

theorem push_threadId (s : Pool J n) (k : ℕ) (w u : Fin n) :
    ((s.push k w).queues.workers u).threadId = (s.queues.workers u).threadId := by
  by_cases hu : u = w
  · rw [hu]
    refine (congrArg WorkerQueue.threadId (setWorker_self ..)).trans ?_
    exact (mem_push (x := (s.subs k).task)).2.2
  · exact congrArg WorkerQueue.threadId (setWorker_ne _ _ hu)

theorem push_inv (h : s.Inv tid) (hk : k < s.count)
    (hpc : (s.subs k).pc = .routed w) : (s.push k w).Inv tid := by
  have hself : (s.push k w).queues.workers w = ((s.queues.workers w).push (s.subs k).task).1 :=
    setWorker_self ..
  have hne : ∀ {u}, u ≠ w → (s.push k w).queues.workers u = s.queues.workers u :=
    setWorker_ne _ _
  have hnum := h.numbered k hk
  obtain ⟨hin, hout⟩ := push_content s k w
  rw [hnum] at hin
  have hperm := List.perm_append_singleton k (s.content (pushPlace w (s.subs k).task))
  rw [← hin] at hperm
  constructor
  case unpinned =>
    intro u x hx
    rw [push_task]
    by_cases hu : u = w
    · rw [hu, hself] at hx
      rcases mem_push.1 hx with hx | ⟨rfl, hfree⟩
      · exact h.unpinned w x hx
      · rw [hnum]
        exact ⟨hfree, hk, rfl⟩
    · rw [hne hu] at hx
      exact h.unpinned u x hx
  case pinned =>
    intro u x hx
    rw [push_task]
    by_cases hu : u = w
    · rw [hu, hself] at hx
      rcases mem_push.2.1 hx with hx | ⟨rfl, hpin⟩
      · exact h.pinned w x hx
      · rw [hnum]
        exact ⟨hpin, hk, rfl⟩
    · rw [hne hu] at hx
      exact h.pinned u x hx
  case placed =>
    intro k'
    rw [accepted_push hk]
    by_cases hkk : k' = k
    · subst hkk
      have hnone : Placed s.content k' none := by
        refine (h.placed k').2 fun ha => ?_
        rw [ha.2] at hpc
        cases hpc
      exact ⟨fun _ => ⟨_, hnone.insert hperm hout⟩, fun hn => absurd (.inl rfl) hn⟩
    · refine ⟨fun ha => ?_, fun hn => ?_⟩
      · obtain ⟨p, hp⟩ := (h.placed k').1 (ha.resolve_left hkk)
        exact ⟨p, hp.insert_other hkk hperm hout⟩
      · exact ((h.placed k').2 fun ha => hn (.inr ha)).insert_other hkk hperm hout
  case numbered =>
    intro k' hk'
    rw [push_task]
    exact h.numbered k' hk'
  case nonempty =>
    intro k' hk' _
    rw [push_task]
    by_cases hkk : k' = k
    · subst hkk
      exact h.nonempty k' hk' (by rw [hpc]; simp)
    · rename_i hrej
      rw [push_sub_ne s w hkk] at hrej
      exact h.nonempty k' hk' hrej
  case takers =>
    intro u threadId hu
    rw [push_threadId]
    exact h.takers u threadId hu
  case affinity =>
    intro p hp
    rw [push_task, push_threadId]
    exact h.affinity p hp

/-- A call of `enqueueTask` starts. -/
theorem call_inv (h : s.Inv tid) (origin : Option (Fin n)) (job : Option J) (thread : ℤ) :
    (s.call origin job thread).Inv tid := by
  have hold : ∀ {k}, k < s.count → (s.call origin job thread).subs k = s.subs k :=
    fun hk => Function.update_of_ne (Nat.ne_of_lt hk) ..
  have hnew : (s.call origin job thread).subs s.count =
      ⟨⟨s.count, job, thread⟩, origin, if job.isNone then .rejected else .called⟩ :=
    Function.update_self ..
  have hcount : (s.call origin job thread).count = s.count + 1 := rfl
  have hcases : ∀ {k}, k < (s.call origin job thread).count → k < s.count ∨ k = s.count := by
    intro k hk
    rw [hcount] at hk
    omega
  have hacc : ∀ k, (s.call origin job thread).Accepted k ↔ s.Accepted k := by
    intro k
    constructor
    · rintro ⟨hk, hpc⟩
      rcases hcases hk with hk | rfl
      · rw [hold hk] at hpc
        exact ⟨hk, hpc⟩
      · rw [hnew] at hpc
        dsimp only at hpc
        split at hpc <;> cases hpc
    · rintro ⟨hk, hpc⟩
      exact ⟨by rw [hcount]; omega, by rw [hold hk]; exact hpc⟩
  constructor
  case unpinned =>
    intro w t ht
    obtain ⟨hp, hk, heq⟩ := h.unpinned w t ht
    exact ⟨hp, by rw [hcount]; omega, by rw [hold hk]; exact heq⟩
  case pinned =>
    intro w t ht
    obtain ⟨hp, hk, heq⟩ := h.pinned w t ht
    exact ⟨hp, by rw [hcount]; omega, by rw [hold hk]; exact heq⟩
  case placed =>
    intro k
    rw [hacc]
    exact h.placed k
  case numbered =>
    intro k hk
    rcases hcases hk with hk | rfl
    · rw [hold hk]
      exact h.numbered k hk
    · rw [hnew]
  case nonempty =>
    intro k hk hne
    rcases hcases hk with hk | rfl
    · rw [hold hk] at hne ⊢
      exact h.nonempty k hk hne
    · rw [hnew] at hne ⊢
      cases job with
      | none => exact absurd rfl hne
      | some j => simp
  case takers => exact h.takers
  case affinity =>
    intro p hp
    obtain ⟨hk, heq, haff⟩ := h.affinity p hp
    exact ⟨by rw [hcount]; omega, by rw [hold hk]; exact heq, haff⟩

/-! ### Runs -/

variable [NeZero n]

theorem pool_next_inv {a : PoolAction J n} (h : s.Inv tid) (he : (pool J tid).enabled s a) :
    ((pool J tid).next s a).Inv tid := by
  -- a taker that goes on with the thread id it has loaded
  have htaker : ∀ {w : Fin n} {pc : TakePc}, (∀ threadId, pc = .loaded threadId ∨
      (∃ o i, pc = .stealing threadId o i) →
        threadId = tid w ∧ (s.queues.workers w).threadId = tid w) →
      (s.setTaker w pc).Inv tid := by
    intro w pc hpc
    refine h.control (fun _ => rfl) (fun _ => rfl) rfl rfl (fun _ _ => rfl) (fun _ _ => Iff.rfl)
      (fun _ _ hr => hr) (fun _ hr => hr) fun u threadId hu => ?_
    by_cases huw : u = w
    · subst huw
      rw [show (s.setTaker u pc).takers u = pc from Function.update_self ..] at hu
      exact hpc threadId hu
    · rw [show (s.setTaker w pc).takers u = s.takers u from Function.update_of_ne huw ..] at hu
      exact h.takers u threadId hu
  cases a with
  | register w =>
    have hfields : ∀ u, ((s.queues.setWorker w
          { s.queues.workers w with threadId := tid w }).workers u).unpinnedTasks =
          (s.queues.workers u).unpinnedTasks ∧
        ((s.queues.setWorker w
          { s.queues.workers w with threadId := tid w }).workers u).pinnedTasks =
          (s.queues.workers u).pinnedTasks ∧
        ((s.queues.workers u).threadId = tid u → ((s.queues.setWorker w
          { s.queues.workers w with threadId := tid w }).workers u).threadId = tid u) := by
      intro u
      by_cases hu : u = w
      · subst hu
        rw [setWorker_self]
        exact ⟨rfl, rfl, fun _ => rfl⟩
      · rw [setWorker_ne _ _ hu]
        exact ⟨rfl, rfl, fun hr => hr⟩
    exact h.control (fun u => (hfields u).1) (fun u => (hfields u).2.1) rfl rfl (fun _ _ => rfl)
      (fun _ _ => Iff.rfl) (fun _ _ hr => hr) (fun u => (hfields u).2.2) h.takers
  | call origin job thread => exact call_inv h origin job thread
  | route k =>
    have hworkers : ∀ u, ((s.route k).queues.workers u) = s.queues.workers u :=
      congrFun (route_workers ..)
    have hsub : ∀ k', ((s.route k).subs k').task = (s.subs k').task ∧
        (((s.route k).subs k').pc = .accepted ↔ (s.subs k').pc = .accepted) ∧
        ((s.subs k').pc = .rejected → ((s.route k).subs k').pc = .rejected) := by
      intro k'
      by_cases hkk : k' = k
      · subst hkk
        rw [show (s.route k').subs k' = _ from Function.update_self ..]
        rw [he.2]
        simp
      · rw [show (s.route k).subs k' = s.subs k' from Function.update_of_ne hkk ..]
        exact ⟨rfl, Iff.rfl, fun hr => hr⟩
    show (s.route k).Inv tid
    exact h.control (fun u => by rw [hworkers]) (fun u => by rw [hworkers]) rfl rfl
      (fun k' _ => (hsub k').1) (fun k' _ => (hsub k').2.1) (fun k' _ => (hsub k').2.2)
      (fun u hr => by rw [hworkers, hr]) h.takers
  | push k w => exact push_inv h he.1 he.2
  | load w =>
    refine htaker fun threadId hpc => ?_
    rcases hpc with hpc | ⟨o, i, hpc⟩
    · cases hpc
      exact ⟨he.2, he.2⟩
    · cases hpc
  | takeLocal w threadId seed =>
    obtain ⟨hid, hreg⟩ := h.takers w threadId (.inl he)
    show (s.takeLocal w threadId seed).Inv tid
    unfold Pool.takeLocal
    split
    · rename_i t rest htake
      exact take_inv h (takeLocal_takes htake) hid hreg
    split
    · exact htaker fun threadId' hpc => by rcases hpc with hpc | ⟨o, i, hpc⟩ <;> cases hpc
    · refine htaker fun threadId' hpc => ?_
      rcases hpc with hpc | ⟨o, i, hpc⟩
      · cases hpc
      · cases hpc
        exact ⟨hid, hreg⟩
  | steal w threadId startOffset i =>
    obtain ⟨hid, hreg⟩ := h.takers w threadId (.inr ⟨startOffset, i, he⟩)
    show (s.steal w threadId startOffset i).Inv tid
    unfold Pool.steal
    dsimp only
    split
    · rename_i t rest htake
      exact take_inv h (steal_takes htake) hid hreg
    split
    · refine htaker fun threadId' hpc => ?_
      rcases hpc with hpc | ⟨o, i', hpc⟩
      · cases hpc
      · cases hpc
        exact ⟨hid, hreg⟩
    · exact htaker fun threadId' hpc => by rcases hpc with hpc | ⟨o, i, hpc⟩ <;> cases hpc

theorem pool_init_inv (h : (pool J tid).init s) : s.Inv tid := by
  obtain ⟨hworkers, hcount, htakers, htaken⟩ := h
  constructor
  case unpinned =>
    intro w t ht
    rw [(hworkers w).1] at ht
    cases ht
  case pinned =>
    intro w t ht
    rw [(hworkers w).2.1] at ht
    cases ht
  case placed =>
    intro k
    refine ⟨fun ha => absurd ha.1 (by rw [hcount]; omega), fun _ p => ?_⟩
    cases p with
    | unpinned w => simp [Pool.content, (hworkers w).1]
    | pinned w => simp [Pool.content, (hworkers w).2.1]
    | taken => simp [Pool.content, htaken]
  case numbered => simp [hcount]
  case nonempty => simp [hcount]
  case takers => simp [htakers]
  case affinity => simp [htaken]

/-- **Task conservation and affinity.**  In every reachable state, for every number of workers:

* the task of every accepted submission is non-empty and is in exactly one place, once: a deque
  of one worker until it is taken, the taken ones afterwards;
* nothing else is in any place;
* every task taken is the one submitted under its number, and if it was submitted for thread `t`
  the worker that took it has registered thread id `t`. -/
theorem task_conserved (h : (pool J tid).Reach s) :
    (∀ k, s.Accepted k → (s.subs k).task.job ≠ none ∧ ∃ p, Placed s.content k (some p)) ∧
    (∀ k, ¬ s.Accepted k → Placed s.content k none) ∧
    ∀ p ∈ s.taken, (s.subs p.1.id).task = p.1 ∧
      (p.1.thread ≠ -1 → (s.queues.workers p.2).threadId = p.1.thread) := by
  have hi : s.Inv tid :=
    h.invariant (I := Pool.Inv tid) (fun _ => pool_init_inv) fun _ _ hi he => pool_next_inv hi he
  refine ⟨fun k hk => ⟨?_, (hi.placed k).1 hk⟩, fun k => (hi.placed k).2, fun p hp => ?_⟩
  · exact hi.nonempty k hk.1 (by rw [hk.2]; simp)
  · obtain ⟨-, heq, haff⟩ := hi.affinity p hp
    exact ⟨heq, fun hne => (haff hne).1⟩

/-- A scheduler just constructed. -/
def Pool.fresh (J : Type) (n : ℕ) : Pool J n where
  queues := ⟨fun _ => ⟨[], [], -1, false⟩, 0⟩
  subs := fun _ => ⟨⟨0, none, -1⟩, none, .rejected⟩
  count := 0
  takers := fun _ => .idle
  taken := []

/-- A task pinned to thread 8 is submitted before the worker on that thread has registered, goes
to queue 0 by round robin, and is stolen from there by its worker. -/
def stealTrace : List (PoolAction Unit 2) :=
  [.call none (some ()) 8, .route 0, .push 0 0, .register 0, .load 0, .takeLocal 0 7 0,
    .steal 0 7 1 0, .register 1, .load 1, .takeLocal 1 8 0, .steal 1 8 1 0]

def twoThreads (w : Fin 2) : ℕ := w.val + 7

theorem task_conserved_steal :
    (∃ p, Placed ((pool Unit twoThreads).run (.fresh Unit 2) stealTrace).content 0 (some p)) ∧
      ∀ p ∈ ((pool Unit twoThreads).run (.fresh Unit 2) stealTrace).taken, p.1.thread ≠ -1 →
        (((pool Unit twoThreads).run (.fresh Unit 2) stealTrace).queues.workers p.2).threadId =
          p.1.thread := by
  have h := task_conserved (J := Unit) (n := 2) (Machine.reachVia_run
    (.start ⟨fun _ => ⟨rfl, rfl, .inl rfl⟩, rfl, fun _ => rfl, rfl⟩)
    (by decide : (pool Unit twoThreads).Allowed (fun _ _ => True) (.fresh Unit 2) stealTrace))
  exact ⟨(h.1 0 ⟨by decide, by decide⟩).2, fun p hp => (h.2.2 p hp).2⟩

/-- The worker on thread 8 has it. -/
example : ((pool Unit twoThreads).run (.fresh Unit 2) stealTrace).taken.map
    (fun p => (p.1.id, p.2)) = [(0, 1)] := by decide

end PulsarRuntime.Scheduler
