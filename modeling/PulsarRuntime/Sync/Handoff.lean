import PulsarRuntime.Sync.Reservation

/-!
# Safety and FIFO order of `FiberMutex`

The invariant of the mutex is that its locks are linked to their waiters and that the reservation
is in order.  Every call keeps it, so the mutex has one owner at a time, is handed over in the
order in which the waiters queued, and is never left reserved for nobody.
-/

namespace PulsarRuntime.Sync

open FiberMutex

variable {F : Type}

namespace FiberMutex

/-! ### The calls -/

structure Inv (m : FiberMutex F) : Prop where
  linked : Linked m
  reserved : Reserved m

variable {m : FiberMutex F}

theorem lock_inv (h : Inv m) {fiber : F} (hfree : m.Free fiber)
    (timeout now : ℕ) : Inv (m.lock fiber timeout now) := by
  have hself : ((m.lock fiber timeout now).locks m.count).pc = .guard ∧
      ((m.lock fiber timeout now).locks m.count).fiber = fiber ∧
      ((m.lock fiber timeout now).locks m.count).selected = none := by
    unfold lock
    rw [show (FiberMutex.locks _ m.count) = _ from setLock_locks_self ..]
    exact ⟨rfl, rfl, rfl⟩
  have hold : ∀ {l}, l < m.count → (m.lock fiber timeout now).locks l = m.locks l :=
    fun hl => setLock_locks_ne m _ (Nat.ne_of_lt hl)
  have hcases : ∀ {l}, l < m.count + 1 → l < m.count ∨ l = m.count := by
    intro l hl
    omega
  constructor
  · constructor
    case queue => exact h.linked.queue
    case link =>
      intro l hl c hpc
      rcases hcases hl with hl | rfl
      · rw [hold hl] at hpc ⊢
        exact h.linked.link l hl c hpc
      · rw [hself.1] at hpc
        cases hpc
    case owns =>
      intro c hc hd
      obtain ⟨l, hl, hw⟩ := h.linked.owns c hc hd
      exact ⟨l, Nat.lt_succ_of_lt hl, by rw [hold hl]; exact hw⟩
    case distinct =>
      intro l hl l' hl' hf hd hd'
      rcases hcases hl with hl | rfl
      · rw [hold hl] at hf hd
        rcases hcases hl' with hl' | rfl
        · rw [hold hl'] at hf hd'
          exact h.linked.distinct l hl l' hl' hf hd hd'
        · rw [hfree l hl (hf.trans hself.2.1)] at hd
          cases hd
      · rcases hcases hl' with hl' | rfl
        · rw [hold hl'] at hf hd'
          rw [hfree l' hl' (hf.symm.trans hself.2.1)] at hd'
          cases hd'
        · rfl
    case chosen =>
      intro l hl c hs hg
      rcases hcases hl with hl | rfl
      · rw [hold hl] at hs hg ⊢
        exact h.linked.chosen l hl c hs hg
      · rw [hself.2.2] at hs
        cases hs
  · refine h.reserved.frame rfl rfl rfl rfl (Nat.le_succ _) le_rfl (.inl (.refl _))
      (fun c hc => (and_iff_right hc).symm) (fun _ _ => rfl) fun l hl c => ?_
    unfold ChosenBy
    rcases hcases hl with hl | rfl
    · rw [hold hl]
      exact (and_iff_right hl).symm
    · rw [hself.1, hself.2.2]
      simp

variable {l : ℕ}

/-- A lock at the head of its loop has no wait going on. -/
theorem guard_free (h : Linked m) (hl : l < m.count) (hpc : (m.locks l).pc = .guard) :
    ∀ c < m.queue.count, (m.queue.calls c).fiber = (m.locks l).fiber →
      (m.queue.calls c).pc.done = true := by
  intro c hc hf
  by_contra hd
  rw [Bool.not_eq_true] at hd
  obtain ⟨l', hl', hw⟩ := h.owns c hc hd
  have hll : l' = l := by
    refine h.distinct l' hl' l hl ?_ (by rw [hw]; rfl) (by rw [hpc]; rfl)
    rw [← (h.link l' hl' c hw).2.1, hf]
  rw [hll, hpc] at hw
  cases hw

/-- What `lock` does when it waits: a new waiter joins the end of the queue, and the lock hangs on
that waiter. -/
structure Waits (m m' : FiberMutex F) (l : ℕ) : Prop where
  self : m'.locks l = { m.locks l with pc := .waiting m.queue.count }
  others : ∀ {l'}, l' ≠ l → m'.locks l' = m.locks l'
  locks_count : m'.count = m.count
  count : m'.queue.count = m.queue.count + 1
  waiters : m'.queue.waiters = m.queue.waiters ++ [m.queue.count]
  fiber : (m'.queue.calls m.queue.count).fiber = (m.locks l).fiber
  waiting : (m'.queue.calls m.queue.count).waiting = true
  old : ∀ {c}, c < m.queue.count → m'.queue.calls c = m.queue.calls c

theorem wait_waits (m : FiberMutex F) (l : ℕ) (thread : ℤ) {remaining : ℕ} (hr : remaining ≠ 0) :
    Waits m (m.wait l thread remaining) l := by
  have henter : (m.wait l thread remaining).queue = m.queue.publish ⟨(m.locks l).fiber,
      some .ioManager, thread, remaining, true, 0, .published, false, false⟩ := by
    show m.queue.enter (m.locks l).fiber (some .ioManager) thread remaining = _
    unfold WaitQueue.enter
    dsimp only
    rw [if_neg hr]
  have hnew : (m.wait l thread remaining).queue.calls m.queue.count = ⟨(m.locks l).fiber,
      some .ioManager, thread, remaining, true, 0, .published, false, false⟩ := by
    rw [henter]
    exact WaitQueue.setCall_calls_self ..
  constructor
  case self => exact setLock_locks_self ..
  case others => exact setLock_locks_ne _ _
  case locks_count => rfl
  case count => rw [henter]; rfl
  case waiters => rw [henter]; rfl
  case fiber => rw [hnew]
  case waiting => rw [hnew]
  case old =>
    intro c hc
    rw [henter]
    exact WaitQueue.setCall_calls_ne _ _ (Nat.ne_of_lt hc)

namespace Waits

variable {m m' : FiberMutex F} {l : ℕ} (hs : Waits m m' l)
include hs

variable {c : ℕ}

theorem cases_lt (hc : c < m'.queue.count) : c < m.queue.count ∨ c = m.queue.count := by
  rw [hs.count] at hc
  omega

theorem lt_count (hc : c < m.queue.count) : c < m'.queue.count := by
  rw [hs.count]
  omega

theorem selected (hc : c < m'.queue.count) :
    Selected m'.queue c ↔ c < m.queue.count ∧ Selected m.queue c := by
  unfold Selected
  rcases hs.cases_lt hc with hc | rfl
  · rw [hs.old hc]
    exact (and_iff_right hc).symm
  · rw [hs.waiting]
    simp

theorem linked (h : Linked m) (hl : l < m.count)
    (hpc : (m.locks l).pc = .guard) (hqueue : m'.queue.Inv) : Linked m' := by
  constructor
  case queue => exact hqueue
  case link =>
    intro l' hl' c hw
    by_cases hll : l' = l
    · subst hll
      rw [hs.self] at hw ⊢
      obtain rfl : m.queue.count = c := by
        cases hw
        rfl
      rw [hs.fiber, hs.count, hs.waiters]
      exact ⟨Nat.lt_succ_self _, rfl, fun _ => List.mem_append_right _ (by simp)⟩
    · rw [hs.locks_count] at hl'
      rw [hs.others hll] at hw ⊢
      obtain ⟨hb, hf, hwait⟩ := h.link l' hl' c hw
      rw [hs.old hb, hs.count, hs.waiters]
      exact ⟨Nat.lt_succ_of_lt hb, hf, fun ht => List.mem_append_left _ (hwait ht)⟩
  case owns =>
    intro c hc hd
    rw [hs.locks_count]
    rcases hs.cases_lt hc with hc | rfl
    · rw [hs.old hc] at hd
      obtain ⟨l', hl', hw⟩ := h.owns c hc hd
      have hll : l' ≠ l := by
        rintro rfl
        rw [hpc] at hw
        cases hw
      exact ⟨l', hl', by rw [hs.others hll]; exact hw⟩
    · exact ⟨l, hl, by rw [hs.self]⟩
  case distinct =>
    have hsame : ∀ l', (m'.locks l').fiber = (m.locks l').fiber ∧
        (m'.locks l').pc.done = (m.locks l').pc.done := by
      intro l'
      by_cases hll : l' = l
      · rw [hll, hs.self, hpc]
        exact ⟨rfl, rfl⟩
      · rw [hs.others hll]
        exact ⟨rfl, rfl⟩
    intro l₁ hl₁ l₂ hl₂
    rw [hs.locks_count] at hl₁ hl₂
    rw [(hsame l₁).1, (hsame l₁).2, (hsame l₂).1, (hsame l₂).2]
    exact h.distinct l₁ hl₁ l₂ hl₂
  case chosen =>
    intro l' hl' c hsel hg
    by_cases hll : l' = l
    · rw [hll, hs.self] at hg
      cases hg
    · rw [hs.locks_count] at hl'
      rw [hs.others hll] at hsel hg ⊢
      obtain ⟨hb, hsel, hf⟩ := h.chosen l' hl' c hsel hg
      have hb' := hs.lt_count hb
      exact ⟨hb', (hs.selected hb').mpr ⟨hb, hsel⟩, by rw [hs.old hb]; exact hf⟩

/-- Waiting chooses no lock, and the lock that waits was not chosen. -/
theorem chosenBy_iff (h : Linked m) (hpc : (m.locks l).pc = .guard)
    (hsel : (m.locks l).selected = none) {l' : ℕ} (hl' : l' < m.count) (c : ℕ) :
    ChosenBy m' l' c ↔ ChosenBy m l' c := by
  unfold ChosenBy
  by_cases hll : l' = l
  · subst hll
    rw [hs.self, hpc, hsel]
    constructor
    · rintro ⟨hc, hw | ⟨hg, -⟩⟩
      · obtain rfl : m.queue.count = c := by
          cases hw
          rfl
        rw [hs.selected (by rw [hs.count]; omega)] at hc
        exact absurd hc.1 (Nat.lt_irrefl _)
      · cases hg
    · rintro ⟨-, hw | ⟨-, hc⟩⟩
      · cases hw
      · cases hc
  · rw [hs.others hll]
    refine and_congr_left fun hw => ?_
    have hb : c < m.queue.count := by
      rcases hw with hw | ⟨hg, hc⟩
      · exact (h.link l' hl' c hw).1
      · exact (h.chosen l' hl' c hc hg).1
    rw [hs.selected (hs.lt_count hb), and_iff_right hb]

end Waits

theorem wait_inv (h : Inv m) (hl : l < m.count)
    (hpc : (m.locks l).pc = .guard) (hsel : (m.locks l).selected = none)
    (hbusy : m.owner ≠ none ∨ m.handoff = true) (thread : ℤ) {remaining : ℕ}
    (hr : remaining ≠ 0) : Inv (m.wait l thread remaining) := by
  have hs := wait_waits m l thread hr
  have hqueue : (m.wait l thread remaining).queue.Inv := by
    show (m.queue.enter (m.locks l).fiber (some .ioManager) thread remaining).Inv
    exact enter_inv h.linked.queue (guard_free h.linked hl hpc) (fun hk => by cases hk)
  have hcount : m.queue.count < (m.wait l thread remaining).queue.count := by
    rw [hs.count]
    exact Nat.lt_succ_self _
  refine ⟨hs.linked h.linked hl hpc hqueue, ?_⟩
  refine h.reserved.frame rfl rfl rfl rfl le_rfl (Nat.le_of_lt hcount)
    (.inr ⟨hbusy, hcount, hs.waiters⟩) (fun c hc => hs.selected hc) (fun c hc => by rw [hs.old hc])
    fun l' hl' c => ?_
  have hl' : l' < m.count := hl'
  rw [and_iff_right hl']
  exact hs.chosenBy_iff h.linked hpc hsel hl' c

/-- A lock that is not chosen returns. -/
theorem returns_inv (h : Inv m) (hl : l < m.count) (error : ℤ)
    (hpc : ∀ c, (m.locks l).pc = .waiting c → (m.queue.calls c).pc.done = true)
    (hnd : (m.locks l).pc.done = false) (hno : ∀ c, ¬ ChosenBy m l c) :
    Inv (m.setPc l (.returned error)) := by
  refine ⟨h.linked.returns hpc hnd hl rfl rfl rfl, ?_⟩
  refine h.reserved.frame rfl rfl rfl rfl le_rfl le_rfl (.inl (.refl _))
    (fun c hc => (and_iff_right hc).symm) (fun _ _ => rfl) fun l' hl' c => ?_
  rw [chosenBy_returns rfl rfl, and_iff_right (show l' < m.count from hl')]
  refine and_iff_right_of_imp fun hc => ?_
  rintro rfl
  exact hno c hc

theorem lockRound_inv [DecidableEq F] (h : Inv m) (hl : l < m.count)
    (hpc : (m.locks l).pc = .guard) (now : ℕ) (thread : ℤ) : Inv (m.lockRound l now thread) := by
  have hwait : ∀ c, (m.locks l).pc = .waiting c → (m.queue.calls c).pc.done = true := by
    intro c hw
    rw [hpc] at hw
    cases hw
  have hnd : (m.locks l).pc.done = false := by
    rw [hpc]
    rfl
  have hchosen : ∀ c, (m.locks l).selected = some c → ChosenBy m l c := fun c hs =>
    ⟨(h.linked.chosen l hl c hs hpc).2.1, .inr ⟨hpc, hs⟩⟩
  unfold lockRound
  dsimp only
  split
  · rename_i hfree
    refine ⟨h.linked.returns hwait hnd hl rfl rfl rfl, ?_⟩
    have hall : ∀ l' < m.count, ∀ c, ChosenBy m l' c → (m.locks l).selected = some c := by
      intro l' hl' c hc
      rcases hfree.2 with hh | hs
      · exact absurd hc (not_chosenBy h.reserved hh hl' c)
      · obtain ⟨d, hd⟩ := Option.ne_none_iff_exists'.mp hs
        have hll : l = l' := h.reserved.unique l hl l' hl' d c (hchosen d hd) hc
        subst hll
        rw [hd, chosenBy_waiter_unique hc (hchosen d hd)]
    refine h.reserved.acquired hfree.1 rfl rfl rfl rfl rfl ?_ hall ?_ ?_
    · intro l' hl' c hc
      obtain ⟨hne, hc⟩ := (chosenBy_returns (m := m) rfl rfl l' c).mp hc
      obtain hs := hall l' hl' c hc
      exact hne (h.reserved.unique l' hl' l hl c c hc (hchosen c hs))
    · exact fun hn => hfree.2.resolve_right (not_not_intro hn)
    · intro c hs
      exact ⟨(h.linked.chosen l hl c hs hpc).2.2, l, hl, hchosen c hs⟩
  · rename_i hnot
    -- a selected lock would have taken the mutex
    have hnone : (m.locks l).selected = none := by
      by_contra hs
      obtain ⟨c, hc⟩ := Option.ne_none_iff_exists'.mp hs
      exact hnot ⟨(h.reserved.free hl (hchosen c hc)).1, .inr hs⟩
    have hno : ∀ c, ¬ ChosenBy m l c := by
      rintro c ⟨-, hw | ⟨-, hs⟩⟩
      · rw [hpc] at hw
        cases hw
      · rw [hnone] at hs
        cases hs
    have hbusy : m.owner ≠ none ∨ m.handoff = true := by
      by_cases ho : m.owner = none
      · right
        by_contra hh
        exact hnot ⟨ho, .inl (Bool.not_eq_true _ ▸ hh)⟩
      · exact .inl ho
    split
    · exact returns_inv h hl _ hwait hnd hno
    split
    · exact wait_inv h hl hpc hnone hbusy thread (by decide)
    split
    · exact returns_inv h hl _ hwait hnd hno
    · exact wait_inv h hl hpc hnone hbusy thread (by omega)

/-- A lock whose waiter was completed with 0 goes back to the head of its loop, still chosen. -/
theorem select_inv (h : Inv m) {c : ℕ} (hl : l < m.count)
    (hpc : (m.locks l).pc = .waiting c) (hb : c < m.queue.count)
    (hf : (m.queue.calls c).fiber = (m.locks l).fiber) (hselected : Selected m.queue c)
    (hret : (m.queue.calls c).pc.done = true) : Inv (m.select l c) := by
  have hself : ((m.select l c).locks l).fiber = (m.locks l).fiber ∧
      ((m.select l c).locks l).selected = some c ∧ ((m.select l c).locks l).pc = .guard := by
    rw [show (m.select l c).locks l = _ from setLock_locks_self ..]
    exact ⟨rfl, rfl, rfl⟩
  have hne : ∀ {l'}, l' ≠ l → (m.select l c).locks l' = m.locks l' := setLock_locks_ne _ _
  constructor
  · constructor
    case queue => exact h.linked.queue
    case link =>
      intro l' hl' d hw
      by_cases hll : l' = l
      · rw [hll, hself.2.2] at hw
        cases hw
      · rw [hne hll] at hw ⊢
        exact h.linked.link l' hl' d hw
    case owns =>
      intro d hd hdone
      obtain ⟨l', hl', hw⟩ := h.linked.owns d hd hdone
      have hll : l' ≠ l := by
        rintro rfl
        rw [hpc] at hw
        cases hw
        have hd' : (m.queue.calls c).pc.done = false := hdone
        rw [hret] at hd'
        cases hd'
      exact ⟨l', hl', by rw [hne hll]; exact hw⟩
    case distinct =>
      have hsame : ∀ l', ((m.select l c).locks l').fiber = (m.locks l').fiber ∧
          ((m.select l c).locks l').pc.done = (m.locks l').pc.done := by
        intro l'
        by_cases hll : l' = l
        · rw [hll, hself.2.2, hpc]
          exact ⟨hself.1, rfl⟩
        · rw [hne hll]
          exact ⟨rfl, rfl⟩
      intro l₁ hl₁ l₂ hl₂
      rw [(hsame l₁).1, (hsame l₁).2, (hsame l₂).1, (hsame l₂).2]
      exact h.linked.distinct l₁ hl₁ l₂ hl₂
    case chosen =>
      intro l' hl' d hs hg
      by_cases hll : l' = l
      · rw [hll, hself.2.1] at hs
        cases hs
        rw [hll, hself.1]
        exact ⟨hb, hselected, hf⟩
      · rw [hne hll] at hs hg ⊢
        exact h.linked.chosen l' hl' d hs hg
  · refine h.reserved.frame rfl rfl rfl rfl le_rfl le_rfl (.inl (.refl _))
      (fun d hd => (and_iff_right hd).symm) (fun _ _ => rfl) fun l' hl' d => ?_
    rw [and_iff_right (show l' < m.count from hl')]
    unfold ChosenBy
    by_cases hll : l' = l
    · rw [hll, hself.2.1, hself.2.2, hpc]
      simp [select, setLock]
    · rw [hne hll]
      exact Iff.rfl

theorem waitReturned_inv (h : Inv m) {c : ℕ} {error : ℤ} (hl : l < m.count)
    (hpc : (m.locks l).pc = .waiting c) (hret : (m.queue.calls c).pc = .returned error) :
    Inv (m.waitReturned l c error) := by
  obtain ⟨hb, hf, hqueued⟩ := h.linked.link l hl c hpc
  -- the waiter has been completed, with the error that was returned
  have hwoken : m.queue.Woken c := by
    have hnot : c ∉ m.queue.waiters := by
      intro hm
      have hp := (h.linked.queue.queued c hm).2.1
      rw [hret] at hp
      cases hp
    exact (h.linked.queue.gone c hb hnot).resolve_left fun he => hnot (hqueued he.waiting)
  have hresult := (hwoken.result error hret).1
  unfold waitReturned
  split
  · rename_i hne
    refine returns_inv h hl error ?_ (by rw [hpc]; rfl) ?_
    · intro d hd
      rw [hpc] at hd
      cases hd
      rw [hret]
      rfl
    · rintro d ⟨hs, hw | ⟨hg, -⟩⟩
      · rw [hpc] at hw
        cases hw
        exact hne (hresult.trans hs.2)
      · rw [hpc] at hg
        cases hg
  · rename_i hzero
    have hselected : Selected m.queue c := by
      refine ⟨hwoken.waiting, ?_⟩
      rw [← hresult]
      exact not_not.mp hzero
    exact select_inv h hl hpc hb hf hselected (by rw [hret]; rfl)

end FiberMutex

/-! ### Runs -/

variable [DecidableEq F] {m : FiberMutex F}

theorem fiberMutex_next_inv {a : MutexAction F} (h : m.Inv)
    (he : (fiberMutex F).enabled m a) : ((fiberMutex F).next m a).Inv := by
  -- steps of the queue that select nobody
  have hquiet : ∀ q : WaitQueue F, q.Inv → Quiet m.queue q →
      FiberMutex.Inv { m with queue := q } := by
    intro q hq hk
    refine ⟨h.linked.kept rfl rfl hq hk.toKept fun c => (hk.selected c).mpr, ?_⟩
    refine h.reserved.frame rfl rfl rfl rfl le_rfl (Nat.le_of_eq hk.count.symm) (.inl hk.waiters)
      (fun c hc => ?_) (fun c _ => hk.fiber c) fun l hl c => ?_
    · rw [hk.selected, and_iff_right (show c < m.queue.count by rw [← hk.count]; exact hc)]
    · rw [and_iff_right (show l < m.count from hl)]
      exact and_congr_left' (hk.selected c)
  cases a with
  | lock fiber timeout now => exact lock_inv h he timeout now
  | lockRound l now thread => exact lockRound_inv h he.1 he.2 now thread
  | queue a =>
    have hok : Supported a := by
      cases a <;> first | trivial | cases he.1
    exact hquiet _ (next_inv h.linked.queue he.2 hok) (.internal h.linked.queue he.1 he.2)
  | waitReturned l c error => exact waitReturned_inv h he.1.1 he.1.2 he.2
  | cancelWaiters error =>
    exact hquiet _ (WaitQueue.wakeAllLocked_inv h.linked.queue error)
      (.wakeAllLoop he _ h.linked.queue)
  | tryLock fiber =>
    show (m.tryLock fiber).1.Inv
    unfold tryLock
    split
    · rename_i hfree
      have hnone : ∀ l < m.count, ∀ c, ¬ ChosenBy m l c :=
        fun l hl c => not_chosenBy h.reserved hfree.2 hl c
      refine ⟨⟨h.linked.queue, h.linked.link, h.linked.owns, h.linked.distinct,
        h.linked.chosen⟩, ?_⟩
      exact h.reserved.acquired hfree.1 rfl rfl rfl rfl rfl hnone
        (fun l hl c hc => absurd hc (hnone l hl c)) (fun _ => hfree.2) nofun
    · exact h
  | unlock fiber =>
    show (m.unlock fiber).1.Inv
    unfold unlock
    split
    · exact h
    · rename_i hown
      have hown : m.owner = some fiber := not_not.mp hown
      have hholding : m.holding.erase fiber = [] := by
        rw [h.reserved.holding, hown]
        simp
      dsimp only
      cases hq : m.queue.waiters with
      | nil =>
        rw [WaitQueue.wakeOneLocked_nil hq]
        exact ⟨⟨h.linked.queue, h.linked.link, h.linked.owns, h.linked.distinct,
          h.linked.chosen⟩, h.reserved.released hown rfl rfl hholding rfl rfl rfl rfl hq⟩
      | cons c rest =>
        have hmem : c ∈ m.queue.waiters := by
          rw [hq]
          exact List.mem_cons_self
        rw [WaitQueue.wakeOneLocked_cons h.linked.queue hq]
        refine ⟨h.linked.kept rfl rfl (WaitQueue.complete_inv h.linked.queue hmem 0)
          (.complete _ _ _) fun d hd => ?_,
          h.reserved.handed h.linked hown hq rfl rfl hholding rfl rfl rfl rfl⟩
        show Selected (m.queue.complete c 0) d
        unfold Selected
        rw [WaitQueue.complete_calls]
        split
        · exact ⟨rfl, rfl⟩
        · exact hd

theorem fiberMutex_init_inv (h : (fiberMutex F).init m) : m.Inv := by
  obtain ⟨hqueue, howner, hhandoff, hcount, hholding, hlog⟩ := h
  have hq := init_inv hqueue
  obtain ⟨hqcount, hwaiters, -, -⟩ := hqueue
  constructor
  · constructor <;> first | exact hq | simp [hcount, hqcount]
  · constructor <;>
      simp [tickets, hcount, hqcount, howner, hhandoff, hholding, hlog, hwaiters]

theorem fiberMutex_inv (h : (fiberMutex F).Reach m) : m.Inv :=
  h.invariant (fun _ => fiberMutex_init_inv) fun _ _ hi he => fiberMutex_next_inv hi he

/-- **Safety and FIFO handoff.**  In every reachable state

* at most one Fiber is between an acquisition and its `unlock`, and it is `owner_`;
* the reservation is up only if `owner_` is empty and exactly one lock has had its waiter
  completed with error 0 and has not returned;
* the queue is non-empty only if the mutex is owned or reserved;
* every acquisition that met a non-empty queue was made by a Fiber whose waiter `unlock` had
  selected; acquisitions of waiters come in the order of their tickets, which is the order they
  were enqueued in; and every waiter older than one that has acquired is out of the queue and, if
  it was not timed out or cancelled, has acquired too. -/
theorem fiberMutex_safe_fifo {m : FiberMutex F} (h : (fiberMutex F).Reach m) :
    (m.holding.length ≤ 1 ∧ ∀ f ∈ m.holding, m.owner = some f) ∧
    (m.handoff = true → m.owner = none ∧ ∃! l, l < m.count ∧ ∃ c, ChosenBy m l c) ∧
    (m.queue.waiters ≠ [] → m.owner ≠ none ∨ m.handoff = true) ∧
    (∀ a ∈ m.log, a.queued ≠ [] → ∃ c, a.ticket = some c) ∧
    (∀ a ∈ m.log, ∀ c, a.ticket = some c →
      Selected m.queue c ∧ (m.queue.calls c).fiber = a.fiber) ∧
    m.tickets.Pairwise (· < ·) ∧
    ∀ u ∈ m.tickets, ∀ c < u, c ∉ m.queue.waiters ∧ (Selected m.queue c → c ∈ m.tickets) := by
  obtain ⟨-, hr⟩ := fiberMutex_inv h
  refine ⟨⟨?_, fun f hf => ?_⟩, fun hh => ?_, hr.busy, fun a ha hq => ?_, fun a ha c hc => ?_,
    hr.tickets_sorted, fun u hu c hcu => ⟨fun hm => ?_, fun hs => ?_⟩⟩
  · rw [hr.holding]
    cases m.owner <;> simp
  · rw [hr.holding] at hf
    exact Option.mem_toList.mp hf
  · obtain ⟨hnone, l, hl, hc⟩ := hr.reserved hh
    refine ⟨hnone, l, ⟨hl, hc⟩, ?_⟩
    rintro l' ⟨hl', c', hc'⟩
    obtain ⟨c, hc⟩ := hc
    exact hr.unique l' hl' l hl c' c hc' hc
  · exact Option.ne_none_iff_exists'.mp (hr.fair a ha hq)
  · exact (hr.granted a ha c hc).2
  · have hlt := (hr.tickets_queue u hu).2 c hm
    omega
  · obtain ⟨hb, -⟩ := hr.tickets_queue u hu
    refine (hr.selected c (by omega) hs).resolve_right ?_
    rintro ⟨l, hl, hc⟩
    have hlt := (hr.chosen l hl c hc).2.2.1 u hu
    omega

/-- A mutex nobody has used. -/
def FiberMutex.unused (fiber : F) : FiberMutex F :=
  ⟨.empty fiber, none, false, fun _ => ⟨fiber, 0, 0, none, .returned 0⟩, 0, [], []⟩

/-- One Fiber owns the mutex, another waits for it with a timeout, and the owner unlocks. -/
def handoffTrace : List (MutexAction Bool) :=
  [.lock false kFiberWaitForever 0, .lockRound 0 0 7, .lock true 50 10, .lockRound 1 10 8,
    .queue (.arm 0), .queue (.yield 0), .unlock false]

theorem fiberMutex_safe_fifo_handoff :
    ((fiberMutex Bool).run (.unused false) handoffTrace).owner = none ∧
      ∃! l, l < ((fiberMutex Bool).run (.unused false) handoffTrace).count ∧
        ∃ c, ChosenBy ((fiberMutex Bool).run (.unused false) handoffTrace) l c :=
  (fiberMutex_safe_fifo (Machine.reachVia_run
    (.start ⟨⟨rfl, rfl, rfl, rfl⟩, rfl, rfl, rfl, rfl, rfl⟩)
    (by decide : (fiberMutex Bool).Allowed (fun _ _ => True) (.unused false) handoffTrace))).2.1
    (by decide)

/-- The waiter then takes the mutex with its ticket, ahead of a Fiber that came later. -/
example : ((fiberMutex Bool).run (.unused false) (handoffTrace ++
    [.tryLock false, .queue (.resume 0 0), .queue (.finish 0), .waitReturned 1 0 0,
      .lockRound 1 20 8])).tickets = [0] := by decide

end PulsarRuntime.Sync
