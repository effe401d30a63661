import Mathlib.Algebra.BigOperators.Ring.Finset
import PulsarRuntime.Lib.Family
import PulsarRuntime.Rpc.Completion

/-!
# What `Provider::Stop` waits for

`outstanding` and `pending_count` are incremented together when a request is counted in and
decremented apart.  Each request contributes 0 or 1 to either counter, by what has happened to it
(`owed`, `awaited`); a step that moves a counter moves the contribution of one request by the same
amount, so the counters are the numbers of requests that still count.  Once `accepting` is false
they only fall, so zeros that `Stop` has seen stay.
-/

namespace PulsarRuntime.Rpc.Serve

open Finset (range)

namespace Request

variable (r : Request)

/-- For `outstanding`: the closure has run, or the response task is over. -/
def settled : Bool :=
  if r.multiplexed then r.closure = .finished else r.closure = .counted || r.closure = .ran

/-- The request counts in `outstanding`. -/
def owed : Bool := r.countedIn && !r.undone && !r.settled

/-- For `pending_count`: the Fiber has gone on, or the response task is over. -/
def resumed : Bool := if r.multiplexed then r.closure = .finished else 0 < r.resumes

/-- The request counts in `pending_count`.  The rejection of a request of a plain channel leaves
`pending_count` to the Fiber. -/
def awaited : Bool := r.countedIn && !(r.multiplexed && r.undone) && !r.resumed

end Request

section

variable {r : Request}

theorem Request.owed_iff : r.owed ↔ r.countedIn ∧ ¬ r.undone ∧ ¬ r.settled := by
  simp [Request.owed, and_assoc]

theorem Request.awaited_iff :
    r.awaited ↔ r.countedIn ∧ ¬ (r.multiplexed ∧ r.undone) ∧ ¬ r.resumed := by
  simp [Request.awaited, and_assoc, imp_iff_not_or]

theorem Request.finish_owed (value : ℕ) : (r.finish value).owed = r.owed := by
  simp only [Request.finish]
  split <;> rfl

theorem Request.finish_awaited (value : ℕ) : (r.finish value).awaited = r.awaited := by
  simp only [Request.finish]
  split <;> rfl

/-- A request with a closure has been counted in, and no rejection undoes that. -/
theorem Request.Sound.counted_of_closure (h : r.Sound) (hexists : r.closure ≠ .absent) :
    r.countedIn = true ∧ r.undone = false :=
  h.counted fun hidle => hexists (h.fresh (.inl hidle))

end

def weight (b : Bool) : ℤ := if b then 1 else 0

structure Balanced (s : Provider) : Prop where
  outstanding : s.outstanding = ∑ k ∈ range s.count, weight (s.requests k).owed
  pendingCount : s.pendingCount = ∑ k ∈ range s.count, weight (s.requests k).awaited

theorem balanced_of_init {s : Provider} (h : provider.init s) : Balanced s := by
  obtain ⟨-, houtstanding, hpending, -, hcount, -, -, -⟩ := h
  constructor <;> simp [houtstanding, hpending, hcount]

namespace Balanced

variable {s : Provider} {k : ℕ} (h : Balanced s)
include h

/-- Request `k` becomes `r`, and the counters follow. -/
theorem change (hk : k < s.count) {r : Request} {s' : Provider}
    (hrequests : s'.requests = Function.update s.requests k r) (hcount : s'.count = s.count)
    (houtstanding : s'.outstanding - s.outstanding =
      weight r.owed - weight (s.requests k).owed)
    (hpending : s'.pendingCount - s.pendingCount =
      weight r.awaited - weight (s.requests k).awaited) : Balanced s' := by
  constructor
  · rw [hrequests, hcount, Family.sum_update (fun r : Request => weight r.owed) hk,
      ← h.outstanding]
    omega
  · rw [hrequests, hcount, Family.sum_update (fun r : Request => weight r.awaited) hk,
      ← h.pendingCount]
    omega

/-- A step of request `k` that neither counter is about. -/
theorem quiet {r : Request} (howed : r.owed = (s.requests k).owed)
    (hawaited : r.awaited = (s.requests k).awaited) : Balanced (s.setRequest k r) := by
  have hsame (w : Request → Bool) (hw : w r = w (s.requests k)) (j : ℕ) :
      w (Function.update s.requests k r j) = w (s.requests j) := by
    by_cases hjk : j = k
    · subst hjk
      rw [Function.update_self, hw]
    · rw [Function.update_of_ne hjk]
  constructor
  · simp only [Provider.setRequest, hsame Request.owed howed]
    exact h.outstanding
  · simp only [Provider.setRequest, hsame Request.awaited hawaited]
    exact h.pendingCount

/-- Neither the connections nor the `Stop` calls matter. -/
theorem frame {s' : Provider} (hrequests : s'.requests = s.requests)
    (hcount : s'.count = s.count) (houtstanding : s'.outstanding = s.outstanding)
    (hpending : s'.pendingCount = s.pendingCount) : Balanced s' := by
  constructor
  · rw [houtstanding, hrequests, hcount]
    exact h.outstanding
  · rw [hpending, hrequests, hcount]
    exact h.pendingCount

theorem arrive (c : ℕ) (multiplexed : Bool) :
    Balanced { s with
      requests := Function.update s.requests s.count (.new c multiplexed)
      count := s.count + 1 } := by
  constructor
  · rw [Family.sum_add (fun r : Request => weight r.owed), ← h.outstanding]
    simp [Request.owed, Request.new, weight]
  · rw [Family.sum_add (fun r : Request => weight r.awaited), ← h.pendingCount]
    simp [Request.awaited, Request.new, weight]

theorem turn (leave : Bool) : Balanced (s.turn k leave) :=
  (h.quiet (r := { s.requests k with pc := .ended }) rfl rfl).frame rfl rfl rfl rfl

theorem enter (hi : Inv s) (hk : k < s.count)
    (hpc : (s.requests k).pc = .entering) : Balanced (s.enter k) := by
  have hs := hi.sound k hk
  have hat := hs.atPc
  simp only [Request.AtPc, hpc] at hat
  obtain ⟨hidle, hcounted, hundone⟩ := hat
  have habsent := hs.fresh (.inl hidle)
  simp only [Provider.enter]
  split
  · exact h.turn true
  · refine h.change hk rfl rfl ?_ ?_
    · simp [weight, Request.owed, Request.settled, hcounted, hundone, habsent]
    · have hresumes : (s.requests k).multiplexed = false → (s.requests k).resumes = 0 := by
        intro hmode
        have hfiber := (hi.plain k hk hmode).fiber
        simp only [Request.Fiber, hpc] at hfiber
        exact hfiber.2
      cases hmode : (s.requests k).multiplexed
      · simp [weight, Request.awaited, Request.resumed, hcounted, hmode, hresumes hmode]
      · simp [weight, Request.awaited, Request.resumed, hcounted, hundone, habsent, hmode]

theorem undo (hi : Inv s) (hk : k < s.count)
    (hpc : (s.requests k).pc = .undoing) : Balanced (s.undo k) := by
  have hs := hi.sound k hk
  have hat := hs.atPc
  simp only [Request.AtPc, hpc] at hat
  obtain ⟨hidle, hcounted, hundone⟩ := hat
  have habsent := hs.fresh (.inl hidle)
  simp only [Provider.undo]
  split
  next hmode =>
    refine h.change (r := { s.requests k with pc := .ended, undone := true }) hk ?_ rfl ?_ ?_
    · simp [Provider.turn, Provider.setPc, Provider.setRequest]
    · simp [Provider.turn, Provider.setPc, Provider.setRequest, weight, Request.owed,
        Request.settled, hcounted, hundone, habsent]
    · simp [Provider.setRequest, weight, Request.awaited, Request.resumed, hcounted, hundone,
        habsent, hmode]
  next hmode =>
    refine h.change hk rfl rfl ?_ ?_
    · simp [weight, Request.owed, Request.settled, hcounted, hundone, habsent]
    · simp [Provider.setRequest, Request.awaited, Request.resumed, hmode]

theorem submit (queued : Bool) : Balanced (s.submit k queued) := by
  simp only [Provider.submit]
  split
  · have hqueued : Balanced (s.setRequest k
        { s.requests k with pc := .arming, handler := .queued }) := h.quiet rfl rfl
    split
    · exact hqueued.turn false
    · exact hqueued
  · exact h.quiet rfl rfl

theorem resume (hi : Inv s) (hk : k < s.count)
    (hpc : (s.requests k).pc = .yielded) : Balanced (s.resume k) := by
  have hat := (hi.sound k hk).atPc
  simp only [Request.AtPc, hpc] at hat
  obtain ⟨hcounted, hmode⟩ := hat
  have hresumes := (hi.plain k hk hmode).resumes_of_yielded hpc
  refine h.change hk rfl rfl ?_ ?_
  · simp [Provider.resume, Provider.setRequest, Request.owed, Request.settled]
  · simp [Provider.resume, weight, Request.awaited, Request.resumed, hcounted, hmode, hresumes]

theorem check : Balanced (s.check k) := by
  simp only [Provider.check]
  split
  · exact h.quiet rfl rfl
  · exact h.turn true

theorem prepare (ok : Bool) : Balanced (s.prepare k ok) := by
  simp only [Provider.prepare]
  split
  · exact h.quiet rfl rfl
  · exact h.turn true

theorem start (hi : Inv s) (hk : k < s.count) (hqueued : (s.requests k).handler = .queued) :
    Balanced (s.setRequest k { s.requests k with handler := .running, closure := .ready }) := by
  have habsent := (hi.sound k hk).fresh (.inr hqueued)
  refine h.quiet ?_ ?_
  · simp [Request.owed, Request.settled, habsent]
  · simp [Request.awaited, Request.resumed, habsent]

/-- The closure of a request of a multiplexed channel leaves it to a task to count it out. -/
theorem schedule {outcome : ℕ} {handler : Handler}
    (hmode : (s.requests k).multiplexed = true) (hready : (s.requests k).closure = .ready) :
    Balanced (s.setRequest k { s.requests k with
      outcome := outcome, handler := handler, closure := .scheduled }) := by
  refine h.quiet ?_ ?_
  · simp [Request.owed, Request.settled, hmode, hready]
  · simp [Request.awaited, Request.resumed, hmode, hready]

theorem run (hi : Inv s) (hk : k < s.count)
    (hready : (s.requests k).closure = .ready) : Balanced (s.run k) := by
  obtain ⟨hcounted, hundone⟩ := (hi.sound k hk).counted_of_closure (by simp [hready])
  simp only [Provider.run]
  split
  next hmode => exact h.schedule hmode hready
  next hmode =>
    refine h.change hk rfl rfl ?_ ?_
    · simp [weight, Request.owed, Request.settled, hcounted, hundone, hready, hmode]
    · simp [Provider.setRequest, Request.awaited, Request.resumed, hmode]

theorem throw (hready : (s.requests k).multiplexed = true → (s.requests k).closure = .ready) :
    Balanced (s.throw k) := by
  simp only [Provider.throw]
  split
  next hmode => exact h.schedule hmode (hready hmode)
  · exact h.quiet (Request.finish_owed 2) (Request.finish_awaited 2)

theorem finish (hi : Inv s) (hk : k < s.count) (hcounted : (s.requests k).closure = .counted) :
    Balanced (s.setRequest k { (s.requests k).finish 1 with closure := .ran }) := by
  have hmode := (hi.sound k hk).plain (.inl hcounted)
  refine h.quiet ?_ ?_
  · simp only [Request.finish]
    split <;> simp [Request.owed, Request.settled, hmode, hcounted]
  · simp only [Request.finish]
    split <;> simp [Request.awaited, Request.resumed, hmode]

theorem respond (hscheduled : (s.requests k).closure = .scheduled) : Balanced (s.respond k) := by
  have hresponded : Balanced (s.setRequest k { s.requests k with closure := .responded }) := by
    refine h.quiet ?_ ?_
    · simp [Request.owed, Request.settled, hscheduled]
    · simp [Request.awaited, Request.resumed, hscheduled]
  simp only [Provider.respond]
  split
  · exact hresponded
  · exact hresponded.frame rfl rfl rfl rfl

theorem settle (hi : Inv s) (hk : k < s.count)
    (hresponded : (s.requests k).closure = .responded) : Balanced (s.settle k) := by
  have hs := hi.sound k hk
  have hmode := hs.multiplexed (.inr (.inl hresponded))
  obtain ⟨hcounted, hundone⟩ := hs.counted_of_closure (by simp [hresponded])
  refine h.change hk rfl rfl ?_ ?_
  · simp [Provider.settle, weight, Request.owed, Request.settled, hcounted, hundone, hmode,
      hresponded]
  · simp [Provider.settle, weight, Request.awaited, Request.resumed, hcounted, hundone, hmode,
      hresponded]

theorem stopFinish (j : ℕ) : Balanced (s.stopFinish j) := by
  simp only [Provider.stopFinish]
  split
  · exact (h.quiet (Request.finish_owed 2) (Request.finish_awaited 2)).frame rfl rfl rfl rfl
  · exact h

theorem next (hi : Inv s) {a : Action} (ha : provider.enabled s a) :
    Balanced (provider.next s a) := by
  cases a with
  | connect | close | leave | write | stop | stopReturn => exact h.frame rfl rfl rfl rfl
  | arrive c multiplexed => exact (h.arrive c multiplexed).frame rfl rfl rfl rfl
  | enter k => exact h.enter hi ha.1 ha.2
  | submit k queued => exact h.submit queued
  | undo k => exact h.undo hi ha.1 ha.2
  | reject k => exact h.quiet (Request.finish_owed 2) (Request.finish_awaited 2)
  | arm k => exact h.quiet rfl rfl
  | yield k => exact h.quiet rfl rfl
  | resume k => exact h.resume hi ha.1 ha.2.1
  | check k => exact h.check
  | prepare k ok => exact h.prepare ok
  | written k ok => exact h.turn _
  | start k => exact h.start hi ha.1 ha.2
  | handled k => exact h.quiet rfl rfl
  | throw k => exact h.throw ha.2.2
  | run k => exact h.run hi ha.1 ha.2
  | finish k => exact h.finish hi ha.1 ha.2
  | respond k => exact h.respond ha.2
  | settle k => exact h.settle hi ha.1 ha.2
  | expire k => exact h.quiet rfl rfl
  | fire k => exact h.quiet (Request.finish_owed 2) (Request.finish_awaited 2)
  | hand k => exact h.quiet rfl rfl
  | stopFinish j => exact h.stopFinish j

/-- The counters are numbers of requests. -/
theorem counts :
    s.outstanding = ((range s.count).filter fun k => (s.requests k).owed).card ∧
    s.pendingCount = ((range s.count).filter fun k => (s.requests k).awaited).card := by
  rw [h.outstanding, h.pendingCount]
  simp [weight]

end Balanced

/-! ### `Stop` -/

/-- What a step may do while `Stop` calls wait: once `accepting` is false, nothing is counted in. -/
structure Winds (s s' : Provider) : Prop where
  outstanding : s.accepting = false → s'.outstanding ≤ s.outstanding
  pendingCount : s.accepting = false → s'.pendingCount ≤ s.pendingCount
  stopped : 0 < s'.stopCount → 0 < s.stopCount ∨ s'.accepting = false
  returned : ∀ j < s'.stopCount, s'.stops j = .returned true → j < s.stopCount ∧
    (s.stops j = .returned true ∨ s.pendingCount = 0 ∧ s.outstanding = 0)

namespace Winds

variable {s s' : Provider} {k : ℕ}

/-- The step is not one of a `Stop` call. -/
theorem other (hstops : s'.stops = s.stops) (hcount : s'.stopCount = s.stopCount)
    (houtstanding : s'.outstanding ≤ s.outstanding) (hpending : s'.pendingCount ≤ s.pendingCount) :
    Winds s s' := by
  refine ⟨fun _ => houtstanding, fun _ => hpending, fun hpos => .inl ?_, fun j hj hstop => ?_⟩
  · rwa [← hcount]
  · rw [← hcount, ← hstops]
    exact ⟨hj, .inl hstop⟩

theorem enter : Winds s (s.enter k) := by
  simp only [Provider.enter]
  split
  · exact other rfl rfl le_rfl le_rfl
  next hgo =>
    simp only [not_or, Bool.not_eq_false] at hgo
    refine ⟨fun hstopped => ?_, fun hstopped => ?_, .inl, fun j hj hstop => ⟨hj, .inl hstop⟩⟩
    · exact Bool.noConfusion (hstopped.symm.trans hgo.1)
    · exact Bool.noConfusion (hstopped.symm.trans hgo.1)

theorem undo : Winds s (s.undo k) := by
  simp only [Provider.undo]
  split
  · exact other rfl rfl (Int.sub_le_self _ (by decide)) (Int.sub_le_self _ (by decide))
  · exact other rfl rfl (Int.sub_le_self _ (by decide)) le_rfl

theorem stop (s : Provider) : Winds s s.stop := by
  refine ⟨fun _ => le_rfl, fun _ => le_rfl, fun _ => .inr rfl, fun j hj hstop => ?_⟩
  obtain hold | rfl := Nat.lt_succ_iff_lt_or_eq.mp hj
  · exact ⟨hold, .inl <| by simpa [Provider.stop, Nat.ne_of_lt hold] using hstop⟩
  · simp [Provider.stop] at hstop

/-- Stop call `j` goes on to `pc`. -/
theorem setStop {j : ℕ} {pc : StopPc} (hstops : s'.stops = Function.update s.stops j pc)
    (hcount : s'.stopCount = s.stopCount) (houtstanding : s'.outstanding = s.outstanding)
    (hpending : s'.pendingCount = s.pendingCount)
    (hpc : pc = .returned true → s.pendingCount = 0 ∧ s.outstanding = 0) : Winds s s' := by
  refine ⟨fun _ => houtstanding.le, fun _ => hpending.le, fun hpos => .inl (hcount ▸ hpos),
    fun i hi hstop => ?_⟩
  rw [hstops] at hstop
  by_cases hij : i = j
  · subst hij
    rw [Function.update_self] at hstop
    exact ⟨hcount ▸ hi, .inr (hpc hstop)⟩
  · rw [Function.update_of_ne hij] at hstop
    exact ⟨hcount ▸ hi, .inl hstop⟩

theorem stopFinish (s : Provider) (j : ℕ) : Winds s (s.stopFinish j) := by
  simp only [Provider.stopFinish]
  split
  · exact setStop rfl rfl rfl rfl fun h => by cases h
  · exact other rfl rfl le_rfl le_rfl

end Winds

theorem winds_next {s : Provider} {a : Action} (ha : provider.enabled s a) :
    Winds s (provider.next s a) := by
  cases a with
  | enter k => exact .enter
  | undo k => exact .undo
  | submit k queued =>
    simp only [provider, Provider.submit]
    split
    · split <;> exact .other rfl rfl le_rfl le_rfl
    · exact .other rfl rfl le_rfl le_rfl
  | resume k =>
    exact .other rfl rfl le_rfl (Int.sub_le_self _ (by decide))
  | check k =>
    simp only [provider, Provider.check]
    split <;> exact .other rfl rfl le_rfl le_rfl
  | prepare k ok =>
    simp only [provider, Provider.prepare]
    split <;> exact .other rfl rfl le_rfl le_rfl
  | run k =>
    simp only [provider, Provider.run]
    split
    · exact .other rfl rfl le_rfl le_rfl
    · exact .other rfl rfl (Int.sub_le_self _ (by decide)) le_rfl
  | throw k =>
    simp only [provider, Provider.throw]
    split <;> exact .other rfl rfl le_rfl le_rfl
  | respond k =>
    simp only [provider, Provider.respond]
    split <;> exact .other rfl rfl le_rfl le_rfl
  | settle k =>
    exact .other rfl rfl (Int.sub_le_self _ (by decide)) (Int.sub_le_self _ (by decide))
  | stop => exact .stop s
  | stopFinish j => exact .stopFinish s j
  | stopReturn j drained => exact .setStop rfl rfl rfl rfl fun hpc => ha.2.2 (by simpa using hpc)
  | connect | close | arrive | leave | reject | arm | yield | write | written | start | handled
  | finish | expire | fire | hand => exact .other rfl rfl le_rfl le_rfl

/-- The whole account. -/
structure Account (s : Provider) : Prop where
  inv : Inv s
  balanced : Balanced s
  stopped : 0 < s.stopCount → s.accepting = false
  drained : ∀ j < s.stopCount, s.stops j = .returned true → s.pendingCount = 0 ∧ s.outstanding = 0

namespace Account

variable {s : Provider}

theorem of_init (h : provider.init s) : Account s := by
  have hstops : s.stopCount = 0 := h.2.2.2.2.2.2.1
  exact ⟨inv_of_init h, balanced_of_init h, by simp [hstops], by simp [hstops]⟩

theorem next (h : Account s) {a : Action} (ha : provider.enabled s a) :
    Account (provider.next s a) := by
  have hsteps := steps_next h.inv ha
  have hwinds := winds_next ha
  have hbalanced := h.balanced.next h.inv ha
  refine ⟨h.inv.step hsteps, hbalanced, fun hpos => ?_, fun j hj hstop => ?_⟩
  · obtain hold | hnew := hwinds.stopped hpos
    · exact hsteps.accepting.elim (fun heq => heq.trans (h.stopped hold)) id
    · exact hnew
  · -- counters that are zero stay zero: they only fall, and they count requests
    obtain ⟨hold, hreturned⟩ := hwinds.returned j hj hstop
    have hzero : s.pendingCount = 0 ∧ s.outstanding = 0 := hreturned.elim (h.drained j hold) id
    have hstopped := h.stopped (Nat.zero_lt_of_lt hold)
    have hle := hwinds.outstanding hstopped
    have hle' := hwinds.pendingCount hstopped
    obtain ⟨hoCard, hpCard⟩ := hbalanced.counts
    omega

end Account

theorem none_counted {n : ℕ} {p : ℕ → Bool} (h : (((range n).filter fun k => p k).card : ℤ) = 0) :
    ∀ k < n, ¬ p k := by
  intro k hk
  have hempty := Finset.card_eq_zero.mp (Int.natCast_eq_zero.mp h)
  exact Finset.filter_eq_empty_iff.mp hempty (Finset.mem_range.mpr hk)

theorem account_of_reach {s : Provider} (h : provider.Reach s) : Account s :=
  h.invariant (fun _ => .of_init) fun _ _ hi he => hi.next he

/-- After `Stop` has cleared `accepting`, no request is counted in. -/
theorem countedIn_later {s t : Provider} (hl : provider.Later (fun _ _ => True) s t)
    (h : Account s) (hstopped : s.accepting = false) :
    ∀ k < t.count, (t.requests k).countedIn = true →
      k < s.count ∧ (s.requests k).countedIn = true := by
  refine (hl.invariant (I := fun u => Account u ∧ u.accepting = false ∧ ∀ k < u.count,
    (u.requests k).countedIn = true → k < s.count ∧ (s.requests k).countedIn = true)
    (fun u a hu ha _ => ?_) ⟨h, hstopped, fun k hk hcounted => ⟨hk, hcounted⟩⟩).2.2
  obtain ⟨haccount, hclosed, hold⟩ := hu
  have hstep := steps_next haccount.inv ha
  refine ⟨haccount.next ha, ?_, fun k hk hcounted => ?_⟩
  · exact hstep.accepting.elim (fun heq => heq.trans hclosed) id
  · obtain hk | ⟨c, multiplexed, hnew⟩ := hstep.arrived k hk
    · refine hold k hk (((hstep.moves k hk).counted hcounted).resolve_right ?_)
      simp [hclosed]
    · rw [hnew] at hcounted
      exact Bool.noConfusion hcounted

/-- `outstanding` is the number of requests counted in and neither undone nor settled,
`pending_count` the number of those that are still awaited.  If a `Stop` call has returned true,
every request that was counted in has been undone or settled, and no other is counted in
afterwards. -/
theorem drain_accounting {s : Provider} (h : provider.Reach s) :
    (0 ≤ s.outstanding ∧ 0 ≤ s.pendingCount) ∧
    s.outstanding = ((range s.count).filter fun k =>
      (s.requests k).countedIn ∧ ¬ (s.requests k).undone ∧ ¬ (s.requests k).settled).card ∧
    s.pendingCount = ((range s.count).filter fun k =>
      (s.requests k).countedIn ∧ ¬ ((s.requests k).multiplexed ∧ (s.requests k).undone) ∧
        ¬ (s.requests k).resumed).card ∧
    ∀ j < s.stopCount, s.stops j = .returned true →
      (∀ k < s.count, (s.requests k).countedIn →
        ((s.requests k).undone ∨ (s.requests k).settled) ∧
        ((s.requests k).multiplexed ∧ (s.requests k).undone ∨ (s.requests k).resumed)) ∧
      ∀ t, provider.Later (fun _ _ => True) s t → ∀ k < t.count, (t.requests k).countedIn →
        k < s.count ∧ (s.requests k).countedIn := by
  have haccount := account_of_reach h
  obtain ⟨houtstanding, hpending⟩ := haccount.balanced.counts
  refine ⟨⟨by omega, by omega⟩, ?_, ?_, fun j hj hreturned => ⟨fun k hk hcounted => ?_, ?_⟩⟩
  · rw [houtstanding]
    simp only [Request.owed_iff]
  · rw [hpending]
    simp only [Request.awaited_iff]
  · obtain ⟨hpendingZero, houtstandingZero⟩ := haccount.drained j hj hreturned
    have howed := none_counted (houtstanding.symm.trans houtstandingZero) k hk
    have hawaited := none_counted (hpending.symm.trans hpendingZero) k hk
    rw [Request.owed_iff] at howed
    rw [Request.awaited_iff] at hawaited
    tauto
  · exact fun t hl => countedIn_later hl haccount (haccount.stopped (Nat.zero_lt_of_lt hj))

/-- A plain request, a multiplexed one and a rejected one, then `Stop`. -/
def stopped : Provider :=
  provider.run (.started 4 true)
    [.connect, .connect, .connect, .arrive 0 false, .arrive 1 true, .arrive 2 false, .enter 0,
      .submit 0 true, .enter 1, .submit 1 true, .enter 2, .submit 2 false, .undo 2, .reject 2,
      .arm 2, .yield 2, .hand 2, .resume 2, .arm 0, .yield 0, .start 0, .start 1, .stop,
      .stopFinish 0, .stopFinish 0, .hand 0, .resume 0, .run 0, .run 1, .respond 1, .settle 1,
      .stopReturn 0 true]

theorem drain_accounting_stopped : stopped.stops 0 = .returned true ∧
    (stopped.requests 0).settled ∧ (stopped.requests 1).settled ∧ (stopped.requests 2).resumed := by
  have hreach : provider.Reach stopped :=
    Machine.reachVia_run (.start (provider_init_started 4 true)) (by decide +kernel)
  have hreturned : stopped.stops 0 = .returned true := by decide +kernel
  obtain ⟨hall, -⟩ := (drain_accounting hreach).2.2.2 0 (by decide +kernel) hreturned
  refine ⟨hreturned, ?_, ?_, ?_⟩
  · exact (hall 0 (by decide +kernel) (by decide +kernel)).1.resolve_left (by decide +kernel)
  · exact (hall 1 (by decide +kernel) (by decide +kernel)).1.resolve_left (by decide +kernel)
  · exact (hall 2 (by decide +kernel) (by decide +kernel)).2.resolve_left (by decide +kernel)

/-- A rejected request of a plain channel has been undone, and is still in `pending_count` until its
Fiber goes on. -/
theorem rejected_request_pending : ∃ s, provider.Reach s ∧ s.pendingCount = 1 ∧
    ((range s.count).filter fun k => (s.requests k).countedIn ∧ ¬ (s.requests k).undone ∧
      ¬ (s.requests k).resumed).card = 0 := by
  refine ⟨provider.run (.started 4 true)
    [.connect, .arrive 0 false, .enter 0, .submit 0 false, .undo 0], ?_, ?_, ?_⟩
  · exact Machine.reachVia_run (.start (provider_init_started 4 true)) (by decide +kernel)
  · decide +kernel
  · decide +kernel

end PulsarRuntime.Rpc.Serve
