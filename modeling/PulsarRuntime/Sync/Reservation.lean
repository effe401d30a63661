import PulsarRuntime.Sync.FiberMutex

/-!
# Who may take a `FiberMutex` next

* `Linked` ties the calls of `lock` to the calls of `waitLocked` they make: a Fiber is in one
  call at a time, so at most one lock waits on a given waiter.
* `Reserved` is about who may take the mutex.  A lock is chosen by waiter `c` (`ChosenBy`) from
  the moment `unlock` completes `c` with error 0 until the lock returns; the reservation is up
  exactly while some lock is chosen, and the waiter that chose it is younger than every waiter
  that has acquired and older than every waiter still queued.

Most steps leave the chosen lock, the owner and the histories alone; `Reserved.frame` treats them
together, and taking and giving up the mutex are the two steps left.
-/

namespace PulsarRuntime.Sync

open FiberMutex

variable {F : Type}

namespace FiberMutex

/-- Waiter `c` was completed with error 0 and lock `l`, which waited on it, has not returned. -/
def ChosenBy (m : FiberMutex F) (l c : ℕ) : Prop :=
  Selected m.queue c ∧
    ((m.locks l).pc = .waiting c ∨ (m.locks l).pc = .guard ∧ (m.locks l).selected = some c)

/-- The waiters that have acquired the mutex, in order. -/
def tickets (m : FiberMutex F) : List ℕ := m.log.filterMap Acquisition.ticket

variable {m m' : FiberMutex F}

theorem tickets_congr (hlog : m'.log = m.log) : m'.tickets = m.tickets := by
  unfold tickets
  rw [hlog]

structure Linked (m : FiberMutex F) : Prop where
  queue : m.queue.Inv
  link : ∀ l < m.count, ∀ c, (m.locks l).pc = .waiting c → c < m.queue.count ∧
    (m.queue.calls c).fiber = (m.locks l).fiber ∧
    ((m.queue.calls c).waiting = true → c ∈ m.queue.waiters)
  owns : ∀ c < m.queue.count, (m.queue.calls c).pc.done = false →
    ∃ l < m.count, (m.locks l).pc = .waiting c
  distinct : ∀ l < m.count, ∀ l' < m.count, (m.locks l).fiber = (m.locks l').fiber →
    (m.locks l).pc.done = false → (m.locks l').pc.done = false → l = l'
  chosen : ∀ l < m.count, ∀ c, (m.locks l).selected = some c → (m.locks l).pc = .guard →
    c < m.queue.count ∧ Selected m.queue c ∧ (m.queue.calls c).fiber = (m.locks l).fiber

structure Reserved (m : FiberMutex F) : Prop where
  holding : m.holding = m.owner.toList
  reserved : m.handoff = true → m.owner = none ∧ ∃ l < m.count, ∃ c, ChosenBy m l c
  chosen : ∀ l < m.count, ∀ c, ChosenBy m l c → m.handoff = true ∧ c < m.queue.count ∧
    (∀ u ∈ m.tickets, u < c) ∧ ∀ d ∈ m.queue.waiters, c < d
  unique : ∀ l < m.count, ∀ l' < m.count, ∀ c c', ChosenBy m l c → ChosenBy m l' c' → l = l'
  busy : m.queue.waiters ≠ [] → m.owner ≠ none ∨ m.handoff = true
  sorted : m.queue.waiters.Pairwise (· < ·)
  bound : ∀ c ∈ m.queue.waiters, c < m.queue.count
  tickets_sorted : m.tickets.Pairwise (· < ·)
  tickets_queue : ∀ u ∈ m.tickets, u < m.queue.count ∧ ∀ d ∈ m.queue.waiters, u < d
  selected : ∀ c < m.queue.count, Selected m.queue c →
    c ∈ m.tickets ∨ ∃ l < m.count, ChosenBy m l c
  granted : ∀ a ∈ m.log, ∀ c, a.ticket = some c →
    c < m.queue.count ∧ Selected m.queue c ∧ (m.queue.calls c).fiber = a.fiber
  fair : ∀ a ∈ m.log, a.queued ≠ [] → a.ticket ≠ none

@[simp] theorem setLock_locks_self (m : FiberMutex F) (l : ℕ) (k : Lock F) :
    (m.setLock l k).locks l = k := Function.update_self ..

variable {l l' : ℕ}

theorem setLock_locks_ne (m : FiberMutex F) (k : Lock F) (h : l' ≠ l) :
    (m.setLock l k).locks l' = m.locks l' := Function.update_of_ne h ..

/-- **Frame rule.**  A step that keeps owner, reservation and histories, chooses nobody and at
most appends a new waiter while the mutex is taken or reserved keeps `Reserved`. -/
theorem Reserved.frame (h : Reserved m) (howner : m'.owner = m.owner)
    (hhandoff : m'.handoff = m.handoff) (hholding : m'.holding = m.holding)
    (hlog : m'.log = m.log) (hcount : m.count ≤ m'.count)
    (hqcount : m.queue.count ≤ m'.queue.count)
    (hwaiters : m'.queue.waiters.Sublist m.queue.waiters ∨
      (m.owner ≠ none ∨ m.handoff = true) ∧ m.queue.count < m'.queue.count ∧
        m'.queue.waiters = m.queue.waiters ++ [m.queue.count])
    (hselected : ∀ c < m'.queue.count,
      Selected m'.queue c ↔ c < m.queue.count ∧ Selected m.queue c)
    (hfiber : ∀ c < m.queue.count, (m'.queue.calls c).fiber = (m.queue.calls c).fiber)
    (hchosen : ∀ l < m'.count, ∀ c, ChosenBy m' l c ↔ l < m.count ∧ ChosenBy m l c) :
    Reserved m' := by
  have htickets : m'.tickets = m.tickets := tickets_congr hlog
  have hmem : ∀ d ∈ m'.queue.waiters, d ∈ m.queue.waiters ∨ d = m.queue.count := by
    intro d hd
    rcases hwaiters with hsub | ⟨-, -, heq⟩
    · exact .inl (hsub.subset hd)
    · rw [heq] at hd
      simpa using hd
  constructor
  case holding => rw [hholding, howner, h.holding]
  case reserved =>
    intro hh
    rw [hhandoff] at hh
    obtain ⟨hnone, l, hl, c, hc⟩ := h.reserved hh
    refine ⟨howner.trans hnone, l, by omega, c, ?_⟩
    exact (hchosen l (by omega) c).mpr ⟨hl, hc⟩
  case chosen =>
    intro l hl c hc
    obtain ⟨hl', hc'⟩ := (hchosen l hl c).mp hc
    obtain ⟨hh, hb, hu, hd⟩ := h.chosen l hl' c hc'
    rw [hhandoff, htickets]
    refine ⟨hh, by omega, hu, fun d hm => ?_⟩
    rcases hmem d hm with hm | rfl
    · exact hd d hm
    · exact hb
  case unique =>
    intro l hl l' hl' c c' hc hc'
    obtain ⟨hm, hc⟩ := (hchosen l hl c).mp hc
    obtain ⟨hm', hc'⟩ := (hchosen l' hl' c').mp hc'
    exact h.unique l hm l' hm' c c' hc hc'
  case busy =>
    intro hne
    rw [howner, hhandoff]
    rcases hwaiters with hsub | ⟨hbusy, -⟩
    · refine h.busy fun hnil => hne ?_
      rw [hnil] at hsub
      exact List.sublist_nil.mp hsub
    · exact hbusy
  case sorted =>
    rcases hwaiters with hsub | ⟨-, -, heq⟩
    · exact h.sorted.sublist hsub
    · rw [heq, List.pairwise_append]
      refine ⟨h.sorted, List.pairwise_singleton _ _, fun c hc d hd => ?_⟩
      rw [List.mem_singleton.mp hd]
      exact h.bound c hc
  case bound =>
    intro d hd
    rcases hwaiters with hsub | ⟨-, hlt, heq⟩
    · have := h.bound d (hsub.subset hd)
      omega
    · rcases hmem d hd with hm | rfl
      · have := h.bound d hm
        omega
      · exact hlt
  case tickets_sorted =>
    rw [htickets]
    exact h.tickets_sorted
  case tickets_queue =>
    intro u hu
    rw [htickets] at hu
    obtain ⟨hb, hd⟩ := h.tickets_queue u hu
    refine ⟨by omega, fun d hm => ?_⟩
    rcases hmem d hm with hm | rfl
    · exact hd d hm
    · exact hb
  case selected =>
    intro c hc hs
    obtain ⟨hb, hs⟩ := (hselected c hc).mp hs
    rw [htickets]
    refine (h.selected c hb hs).imp_right fun ⟨l, hl, hch⟩ => ⟨l, by omega, ?_⟩
    exact (hchosen l (by omega) c).mpr ⟨hl, hch⟩
  case granted =>
    intro a ha c hc
    rw [hlog] at ha
    obtain ⟨hb, hs, hf⟩ := h.granted a ha c hc
    exact ⟨by omega, (hselected c (by omega)).mpr ⟨hb, hs⟩, (hfiber c hb).trans hf⟩
  case fair =>
    rw [hlog]
    exact h.fair

/-! ### Steps that keep the links -/

variable {c : ℕ}

/-- A chosen lock runs when its turn comes: the mutex is free and reserved. -/
theorem Reserved.free {m : FiberMutex F} (h : Reserved m) (hl : l < m.count)
    (hc : ChosenBy m l c) : m.owner = none ∧ m.handoff = true := by
  have hh := (h.chosen l hl c hc).1
  exact ⟨(h.reserved hh).1, hh⟩

/-- Two locks never wait on the same waiter. -/
theorem Linked.waiting_inj {m : FiberMutex F} (h : Linked m) (hl : l < m.count)
    (hl' : l' < m.count) (hw : (m.locks l).pc = .waiting c) (hw' : (m.locks l').pc = .waiting c) :
    l = l' := by
  refine h.distinct l hl l' hl' ?_ (by rw [hw]; rfl) (by rw [hw']; rfl)
  rw [← (h.link l hl c hw).2.1, ← (h.link l' hl' c hw').2.1]

/-- The queue takes a step that adds no waiter. -/
theorem Linked.kept (h : Linked m) (hlocks : m'.locks = m.locks)
    (hcount : m'.count = m.count) (hinv : m'.queue.Inv) (hk : Kept m.queue m'.queue)
    (hsel : ∀ c, Selected m.queue c → Selected m'.queue c) : Linked m' where
  queue := hinv
  link := by
    intro l hl c hpc
    rw [hlocks] at hpc ⊢
    rw [hcount] at hl
    obtain ⟨hb, hf, hw⟩ := h.link l hl c hpc
    refine ⟨by rw [hk.count]; exact hb, (hk.fiber c).trans hf, fun hwait => ?_⟩
    obtain ⟨hold, hmem⟩ := hk.waiting c hwait
    exact hmem (hw hold)
  owns := by
    intro c hc hd
    rw [hk.count] at hc
    rw [hlocks, hcount]
    refine h.owns c hc ?_
    by_contra hdone
    rw [Bool.not_eq_false] at hdone
    rw [hk.done c hdone] at hd
    cases hd
  distinct := by
    rw [hlocks, hcount]
    exact h.distinct
  chosen := by
    intro l hl c hs hpc
    rw [hlocks] at hs hpc ⊢
    rw [hcount] at hl
    obtain ⟨hb, hs', hf⟩ := h.chosen l hl c hs hpc
    exact ⟨by rw [hk.count]; exact hb, hsel c hs', (hk.fiber c).trans hf⟩

/-- A lock that does not wait returns. -/
theorem Linked.returns (h : Linked m) {error : ℤ}
    (hpc : ∀ c, (m.locks l).pc = .waiting c → (m.queue.calls c).pc.done = true)
    (hnd : (m.locks l).pc.done = false) (hl : l < m.count)
    (hlocks : m'.locks = (m.setPc l (.returned error)).locks)
    (hcount : m'.count = m.count) (hqueue : m'.queue = m.queue) : Linked m' := by
  have hself : m'.locks l = { m.locks l with pc := .returned error } := by
    rw [hlocks]
    exact setLock_locks_self ..
  have hne : ∀ {l'}, l' ≠ l → m'.locks l' = m.locks l' := by
    intro l' hl'
    rw [hlocks]
    exact setLock_locks_ne _ _ hl'
  have hwait : ∀ {l' c}, (m'.locks l').pc = .waiting c → l' ≠ l ∧ (m.locks l').pc = .waiting c := by
    intro l' c hw
    by_cases hll : l' = l
    · rw [hll, hself] at hw
      cases hw
    · rw [hne hll] at hw
      exact ⟨hll, hw⟩
  constructor
  case queue =>
    rw [hqueue]
    exact h.queue
  case link =>
    intro l' hl' c hw
    obtain ⟨hll, hw⟩ := hwait hw
    rw [hqueue, hne hll]
    rw [hcount] at hl'
    exact h.link l' hl' c hw
  case owns =>
    intro c hc hd
    rw [hqueue] at hc hd
    obtain ⟨l', hl', hw⟩ := h.owns c hc hd
    have hll : l' ≠ l := by
      rintro rfl
      rw [hpc c hw] at hd
      cases hd
    exact ⟨l', by rw [hcount]; exact hl', by rw [hne hll]; exact hw⟩
  case distinct =>
    have hsame : ∀ l', (m'.locks l').fiber = (m.locks l').fiber ∧
        ((m'.locks l').pc.done = false → (m.locks l').pc.done = false) := by
      intro l'
      by_cases hll : l' = l
      · rw [hll, hself]
        exact ⟨rfl, fun _ => hnd⟩
      · rw [hne hll]
        exact ⟨rfl, fun h => h⟩
    intro l₁ hl₁ l₂ hl₂ hf hd₁ hd₂
    rw [hcount] at hl₁ hl₂
    rw [(hsame l₁).1, (hsame l₂).1] at hf
    exact h.distinct l₁ hl₁ l₂ hl₂ hf ((hsame l₁).2 hd₁) ((hsame l₂).2 hd₂)
  case chosen =>
    intro l' hl' c hs hg
    by_cases hll : l' = l
    · rw [hll, hself] at hg
      cases hg
    · rw [hne hll] at hs hg ⊢
      rw [hqueue]
      rw [hcount] at hl'
      exact h.chosen l' hl' c hs hg

/-- The chosen locks after one of them has returned. -/
theorem chosenBy_returns {error : ℤ}
    (hlocks : m'.locks = (m.setPc l (.returned error)).locks) (hqueue : m'.queue = m.queue)
    (l' c : ℕ) : ChosenBy m' l' c ↔ l' ≠ l ∧ ChosenBy m l' c := by
  unfold ChosenBy
  rw [hlocks, hqueue]
  by_cases hll : l' = l
  · subst hll
    unfold setPc
    rw [setLock_locks_self]
    simp
  · unfold setPc
    rw [setLock_locks_ne _ _ hll]
    simp [hll]

/-! ### Taking the mutex -/

theorem chosenBy_waiter_unique {m : FiberMutex F} {c' : ℕ} (h : ChosenBy m l c)
    (h' : ChosenBy m l c') : c = c' := by
  rcases h.2 with hw | ⟨hg, hs⟩
  · rcases h'.2 with hw' | ⟨hg', -⟩
    · rw [hw] at hw'
      cases hw'
      rfl
    · rw [hw] at hg'
      cases hg'
  · rcases h'.2 with hw' | ⟨-, hs'⟩
    · rw [hg] at hw'
      cases hw'
    · rw [hs] at hs'
      cases hs'
      rfl

theorem not_chosenBy {m : FiberMutex F} (h : Reserved m) (hh : m.handoff = false)
    (hl : l < m.count) (c : ℕ) : ¬ ChosenBy m l c := by
  intro hc
  rw [(h.chosen l hl c hc).1] at hh
  cases hh

variable {fiber : F}

/-- A Fiber takes a free mutex: with the ticket of the waiter that chose its lock, or with none
when nothing is reserved. -/
theorem Reserved.acquired (h : Reserved m) {ticket : Option ℕ}
    (hfree : m.owner = none) (howner : m'.owner = some fiber) (hhandoff : m'.handoff = false)
    (hholding : m'.holding = fiber :: m.holding)
    (hlog : m'.log = m.log ++ [⟨fiber, ticket, m.queue.waiters⟩]) (hqueue : m'.queue = m.queue)
    (hclear : ∀ l < m'.count, ∀ c, ¬ ChosenBy m' l c)
    (hall : ∀ l < m.count, ∀ c, ChosenBy m l c → ticket = some c)
    (hnone : ticket = none → m.handoff = false)
    (hsome : ∀ c, ticket = some c → (m.queue.calls c).fiber = fiber ∧
      ∃ l < m.count, ChosenBy m l c) : Reserved m' := by
  have htickets : m'.tickets = m.tickets ++ ticket.toList := by
    unfold tickets
    rw [hlog, List.filterMap_append]
    cases ticket <;> rfl
  have hfacts : ∀ c, ticket = some c → c < m.queue.count ∧ Selected m.queue c ∧
      (∀ u ∈ m.tickets, u < c) ∧ ∀ d ∈ m.queue.waiters, c < d := by
    intro c hc
    obtain ⟨-, l, hl, hch⟩ := hsome c hc
    obtain ⟨-, hb, hu, hd⟩ := h.chosen l hl c hch
    exact ⟨hb, hch.1, hu, hd⟩
  constructor
  case holding => rw [hholding, howner, h.holding, hfree]; rfl
  case reserved =>
    intro hh
    rw [hhandoff] at hh
    cases hh
  case chosen => exact fun l hl c hc => absurd hc (hclear l hl c)
  case unique => exact fun l hl l' hl' c c' hc _ => absurd hc (hclear l hl c)
  case busy =>
    intro _
    rw [howner]
    exact .inl (Option.some_ne_none fiber)
  case sorted =>
    rw [hqueue]
    exact h.sorted
  case bound =>
    rw [hqueue]
    exact h.bound
  case tickets_sorted =>
    rw [htickets, List.pairwise_append]
    refine ⟨h.tickets_sorted, ?_, fun u hu c hc => ?_⟩
    · cases ticket
      · exact List.Pairwise.nil
      · exact List.pairwise_singleton _ _
    · exact (hfacts c (Option.mem_toList.mp hc)).2.2.1 u hu
  case tickets_queue =>
    intro u hu
    rw [htickets] at hu
    rw [hqueue]
    rcases List.mem_append.mp hu with hu | hu
    · exact h.tickets_queue u hu
    · obtain ⟨hb, -, -, hd⟩ := hfacts u (Option.mem_toList.mp hu)
      exact ⟨hb, hd⟩
  case selected =>
    intro c hc hs
    rw [hqueue] at hc hs
    rw [htickets]
    refine .inl (List.mem_append.mpr ?_)
    rcases h.selected c hc hs with hm | ⟨l, hl, hch⟩
    · exact .inl hm
    · exact .inr (Option.mem_toList.mpr (hall l hl c hch))
  case granted =>
    intro a ha c hc
    rw [hlog] at ha
    rw [hqueue]
    rcases List.mem_append.mp ha with ha | ha
    · exact h.granted a ha c hc
    · rw [List.mem_singleton.mp ha] at hc ⊢
      obtain ⟨hb, hs, -⟩ := hfacts c hc
      exact ⟨hb, hs, (hsome c hc).1⟩
  case fair =>
    intro a ha hq
    rw [hlog] at ha
    rcases List.mem_append.mp ha with ha | ha
    · exact h.fair a ha hq
    · rw [List.mem_singleton.mp ha] at hq ⊢
      intro hn
      rcases h.busy hq with ho | hh
      · exact ho hfree
      · rw [hnone hn] at hh
        cases hh

/-! ### Giving it up -/

theorem Reserved.unreserved {m : FiberMutex F} (h : Reserved m)
    (hown : m.owner = some fiber) : m.handoff = false := by
  by_contra hne
  rw [Bool.not_eq_false] at hne
  rw [(h.reserved hne).1] at hown
  cases hown

/-- `unlock` with nobody waiting. -/
theorem Reserved.released (h : Reserved m)
    (hown : m.owner = some fiber) (howner : m'.owner = none) (hhandoff : m'.handoff = false)
    (hholding : m'.holding = []) (hlog : m'.log = m.log) (hqueue : m'.queue = m.queue)
    (hlocks : m'.locks = m.locks) (hcount : m'.count = m.count)
    (hnil : m.queue.waiters = []) : Reserved m' := by
  have hh := h.unreserved hown
  have htickets : m'.tickets = m.tickets := tickets_congr hlog
  have hchosen : ∀ l c, ChosenBy m' l c ↔ ChosenBy m l c := by
    intro l c
    unfold ChosenBy
    rw [hlocks, hqueue]
  have hclear : ∀ l < m'.count, ∀ c, ¬ ChosenBy m' l c := by
    intro l hl c hc
    rw [hcount] at hl
    exact not_chosenBy h hh hl c ((hchosen l c).mp hc)
  constructor
  case holding =>
    rw [hholding, howner]
    rfl
  case reserved =>
    intro hr
    rw [hhandoff] at hr
    cases hr
  case chosen => exact fun l hl c hc => absurd hc (hclear l hl c)
  case unique => exact fun l hl l' hl' c c' hc _ => absurd hc (hclear l hl c)
  case busy =>
    intro hne
    rw [hqueue] at hne
    exact absurd hnil hne
  case sorted =>
    rw [hqueue]
    exact h.sorted
  case bound =>
    rw [hqueue]
    exact h.bound
  case tickets_sorted =>
    rw [htickets]
    exact h.tickets_sorted
  case tickets_queue =>
    rw [htickets, hqueue]
    exact h.tickets_queue
  case selected =>
    intro c hc hs
    rw [hqueue] at hc hs
    rw [htickets]
    refine (h.selected c hc hs).imp_right fun ⟨l, hl, hch⟩ => ?_
    exact ⟨l, by rw [hcount]; exact hl, (hchosen l c).mpr hch⟩
  case granted =>
    rw [hlog, hqueue]
    exact h.granted
  case fair =>
    rw [hlog]
    exact h.fair

/-- Completing a waiter with 0 selects it and no other. -/
theorem selected_complete (q : WaitQueue F) (c : ℕ) : Selected (q.complete c 0) c ∧
    ∀ d, d ≠ c → (Selected (q.complete c 0) d ↔ Selected q d) := by
  unfold Selected
  constructor
  · rw [WaitQueue.complete_calls, if_pos rfl]
    exact ⟨rfl, rfl⟩
  · intro d hd
    rw [WaitQueue.complete_calls, if_neg hd]

/-- The lock that waits on the waiter just selected is the only one chosen. -/
theorem chosenBy_handed (h : Reserved m) (hlink : Linked m)
    (hh : m.handoff = false) (hmem : c ∈ m.queue.waiters)
    (hother : ∀ d, d ≠ c → (Selected m'.queue d ↔ Selected m.queue d))
    (hlocks : m'.locks = m.locks) (hl : l < m.count) (hw : (m.locks l).pc = .waiting c)
    {d : ℕ} (hl' : l' < m.count) (hd : ChosenBy m' l' d) : l' = l ∧ d = c := by
  obtain ⟨hsel, hplace⟩ := hd
  rw [hlocks] at hplace
  by_cases hdc : d = c
  · subst hdc
    refine ⟨?_, rfl⟩
    rcases hplace with hw' | ⟨hg, hs⟩
    · exact hlink.waiting_inj hl' hl hw' hw
    · have hgone := (hlink.chosen l' hl' d hs hg).2.1.1
      rw [(hlink.queue.queued d hmem).1] at hgone
      cases hgone
  · exact absurd ⟨(hother d hdc).mp hsel, hplace⟩ (not_chosenBy h hh hl' d)

/-- `unlock` with a waiter: the front one is completed with 0 and the mutex reserved for it. -/
theorem Reserved.handed (h : Reserved m) (hlink : Linked m)
    {rest : List ℕ} (hown : m.owner = some fiber) (hq : m.queue.waiters = c :: rest)
    (howner : m'.owner = none) (hhandoff : m'.handoff = true) (hholding : m'.holding = [])
    (hlog : m'.log = m.log) (hqueue : m'.queue = m.queue.complete c 0)
    (hlocks : m'.locks = m.locks) (hcount : m'.count = m.count) : Reserved m' := by
  have hh := h.unreserved hown
  have htickets : m'.tickets = m.tickets := tickets_congr hlog
  have hmem : c ∈ m.queue.waiters := by
    rw [hq]
    exact List.mem_cons_self
  have hwaiters : m'.queue.waiters = rest := by
    rw [hqueue]
    exact WaitQueue.complete_waiters_cons hq 0
  have hqcount : m'.queue.count = m.queue.count := by
    rw [hqueue]
    rfl
  have hsub : ∀ d ∈ rest, d ∈ m.queue.waiters := by
    intro d hd
    rw [hq]
    exact List.mem_cons_of_mem c hd
  have hfront : ∀ d ∈ rest, c < d := by
    have hs := h.sorted
    rw [hq] at hs
    exact (List.pairwise_cons.mp hs).1
  obtain ⟨hself, hother⟩ : Selected m'.queue c ∧
      ∀ d, d ≠ c → (Selected m'.queue d ↔ Selected m.queue d) := by
    rw [hqueue]
    exact selected_complete m.queue c
  obtain ⟨-, hpend, -⟩ := hlink.queue.queued c hmem
  obtain ⟨l, hl, hw⟩ := hlink.owns c (h.bound c hmem) (Pc.done_of_pending hpend)
  have hchosen : ∀ l' < m.count, ∀ d, ChosenBy m' l' d → l' = l ∧ d = c :=
    fun l' hl' d hd => chosenBy_handed h hlink hh hmem hother hlocks hl hw hl' hd
  have hl_chosen : ChosenBy m' l c := ⟨hself, .inl (by rw [hlocks]; exact hw)⟩
  constructor
  case holding =>
    rw [hholding, howner]
    rfl
  case reserved => exact fun _ => ⟨howner, l, by rw [hcount]; exact hl, c, hl_chosen⟩
  case chosen =>
    intro l' hl' d hd
    rw [hcount] at hl'
    obtain ⟨-, rfl⟩ := hchosen l' hl' d hd
    rw [htickets, hwaiters, hqcount]
    exact ⟨hhandoff, h.bound d hmem, fun u hu => (h.tickets_queue u hu).2 d hmem, hfront⟩
  case unique =>
    intro l₁ hl₁ l₂ hl₂ d₁ d₂ hd₁ hd₂
    rw [hcount] at hl₁ hl₂
    rw [(hchosen l₁ hl₁ d₁ hd₁).1, (hchosen l₂ hl₂ d₂ hd₂).1]
  case busy => exact fun _ => .inr hhandoff
  case sorted =>
    rw [hwaiters]
    have hs := h.sorted
    rw [hq] at hs
    exact (List.pairwise_cons.mp hs).2
  case bound =>
    intro d hd
    rw [hwaiters] at hd
    rw [hqcount]
    exact h.bound d (hsub d hd)
  case tickets_sorted =>
    rw [htickets]
    exact h.tickets_sorted
  case tickets_queue =>
    intro u hu
    rw [htickets] at hu
    rw [hqcount, hwaiters]
    obtain ⟨hb, hd⟩ := h.tickets_queue u hu
    exact ⟨hb, fun d hm => hd d (hsub d hm)⟩
  case selected =>
    intro d hd hs
    rw [hqcount] at hd
    rw [htickets]
    by_cases hdc : d = c
    · subst hdc
      exact .inr ⟨l, by rw [hcount]; exact hl, hl_chosen⟩
    · refine (h.selected d hd ((hother d hdc).mp hs)).imp_right fun ⟨l', hl', hch⟩ => ?_
      exact absurd hch (not_chosenBy h hh hl' d)
  case granted =>
    intro a ha d hd
    rw [hlog] at ha
    obtain ⟨hb, hs, hf⟩ := h.granted a ha d hd
    have hdc : d ≠ c := by
      rintro rfl
      have hw' := hs.1
      rw [(hlink.queue.queued d hmem).1] at hw'
      cases hw'
    refine ⟨by rw [hqcount]; exact hb, (hother d hdc).mpr hs, ?_⟩
    rw [hqueue, WaitQueue.complete_calls, if_neg hdc]
    exact hf
  case fair =>
    rw [hlog]
    exact h.fair

end FiberMutex

end PulsarRuntime.Sync
