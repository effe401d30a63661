import Mathlib.Algebra.BigOperators.Pi
import PulsarRuntime.Scheduler.Scan

/-!
# The worker loop

`Edge` is the control flow of one worker, together with its `active` flag; `moved_next` says that
a step of the runtime takes at most one worker along one edge.  What is true of every edge is then
true of every step: the flag is up while a worker may come by work (`Pc.Flagged`), and the events
that are triggered but still counted (`Pc.owed`) change with the kind of the step alone.
-/

namespace PulsarRuntime.Scheduler

variable {J : Type} {n : ℕ}

/-- The worker is in `tryTakeTask`. -/
def Pc.looking : Pc J → Bool
  | .takeLocal | .stealing _ _ => true
  | _ => false

variable {p : Pc J}

theorem Pc.busy_of_looking (h : p.looking = true) : p.busy = true := by
  cases p <;> first | rfl | cases h

/-- What a step does besides moving a worker: `stopping()` is asked, or an event that is no longer
registered becomes, or stops being, one that is still counted. -/
inductive Kind where
  | plain
  | asks
  | owes
  | pays

def Step.kind : Step J n → Kind
  | .resumeIdle _ | .scan _ _ _ => .asks
  | .cancelEvent _ _ | .trigger _ _ => .owes
  | .eventCancelled _ | .eventDone _ => .pays
  | _ => .plain

/-- The control flow of a worker, with its flag before and after. -/
inductive Edge : Kind → Pc J → Bool → Pc J → Bool → Prop where
  | start {b : Bool} : Edge .plain .unstarted b .top b
  | raise {b : Bool} : Edge .plain .top b .takeLocal true
  | took {p : Pc J} {b : Bool} (h : p.looking = true) : Edge .plain p b .running b
  | next {p : Pc J} {b : Bool} (h : p.looking = true) (startOffset i : ℕ) :
      Edge .plain p b (.stealing startOffset i) b
  | nothing {p : Pc J} {b : Bool} (h : p.looking = true) : Edge .plain p b .noTask b
  | cancel {b : Bool} : Edge .owes .running b .cancelled b
  | cancelled {b : Bool} : Edge .pays .cancelled b .running b
  | finish {b : Bool} : Edge .plain .running b .top b
  | lower {b : Bool} : Edge .plain .noTask b .cleared false
  | leave {b : Bool} : Edge .asks .cleared b .left false
  | ask {b : Bool} (st : Scan) : Edge .asks .cleared b (.scan st) b
  | read {b : Bool} (st st' : Scan) : Edge .asks (.scan st) b (.scan st') b
  | goOn {b : Bool} (st : Scan) : Edge .asks (.scan st) b .polling b
  | yield {b : Bool} (st : Scan) : Edge .asks (.scan st) b .top b
  | poll {b : Bool} : Edge .plain .polling b .expiring true
  | expire {b : Bool} (cbs : List J) : Edge .plain .expiring b (.processing cbs) b
  | push {b : Bool} (cb : J) (rest : List J) :
      Edge .plain (.processing (cb :: rest)) b (.processing rest) b
  | trigger {b : Bool} : Edge .owes (.processing []) b .triggered b
  | triggered {b : Bool} : Edge .pays .triggered b (.processing []) b
  | idleYield {b : Bool} : Edge .plain (.processing []) b .top false

variable {b b' : Bool} {k : Kind}

theorem Edge.scan {st : Scan} (e : Edge k p b (.scan st) b') : k = .asks := by
  cases e <;> rfl

theorem Edge.left (e : Edge k p b .left b') : k = .asks := by
  cases e
  rfl

namespace Runtime

/-- At most one worker takes an edge; the others stay where they are. -/
def Moved (k : Kind) (s s' : Runtime J n) : Prop :=
  ∃ w, (∀ v, v ≠ w → s'.pc v = s.pc v ∧ s'.active v = s.active v) ∧
    ((k = .plain ∧ s'.pc w = s.pc w ∧ s'.active w = s.active w) ∨
      Edge k (s.pc w) (s.active w) (s'.pc w) (s'.active w))

variable {s s' : Runtime J n} {w : Fin n} {p : Pc J} {k : Kind}

theorem Moved.still [NeZero n] (hpc : s'.pc = s.pc) (hactive : ∀ v, s'.active v = s.active v) :
    Moved .plain s s' :=
  ⟨0, fun v _ => ⟨congrFun hpc v, hactive v⟩, .inl ⟨rfl, congrFun hpc 0, hactive 0⟩⟩

theorem Moved.edge (hpc : s'.pc = Function.update s.pc w p)
    (hactive : ∀ v, s'.active v = s.active v) (h : Edge k (s.pc w) (s.active w) p (s.active w)) :
    Moved k s s' := by
  refine ⟨w, fun v hv => ⟨?_, hactive v⟩, .inr ?_⟩
  · rw [hpc, Function.update_of_ne hv]
  · rw [hpc, Function.update_self, hactive]
    exact h

theorem Moved.flag {b : Bool} (h : Edge k (s.pc w) (s.active w) p b) :
    Moved k s ((s.setActive w b).setPc w p) := by
  refine ⟨w, fun v hv => ⟨Function.update_of_ne hv .., ?_⟩, .inr ?_⟩
  · show (s.setActive w b).active v = _
    rw [setActive_active, if_neg hv]
  · have hpc : ((s.setActive w b).setPc w p).pc w = p := Function.update_self ..
    have hactive : ((s.setActive w b).setPc w p).active w = b := by
      show (s.setActive w b).active w = b
      rw [setActive_active, if_pos rfl]
    rw [hpc, hactive]
    exact h

theorem Looked.moved (h : s.Looked w s') (hpc : (s.pc w).looking = true) : Moved .plain s s' := by
  have hactive := h.active
  cases h with
  | took _ _ => exact .edge rfl hactive (.took hpc)
  | next startOffset i => exact .edge rfl hactive (.next hpc startOffset i)
  | nothing => exact .edge rfl hactive (.nothing hpc)

theorem Scanned.moved {io : Bool} {now : ℕ} {st : Scan} (h : s.Scanned io w now st s')
    (hpc : s.pc w = .scan st) : Moved .asks s s' := by
  have hactive := h.active
  cases h with
  | goOn _ =>
    refine .edge rfl hactive ?_
    rw [hpc]
    cases io
    · exact .yield st
    · exact .goOn st
  | advance _ _ => exact .edge rfl hactive (hpc ▸ .read _ _)
  | ends _ => exact .edge rfl hactive (hpc ▸ .yield _)

variable [NeZero n] {io : Bool} {tid : Fin n → ℕ} {a : Step J n}

/-- **The loop.**  Every step moves at most one worker, along an edge. -/
theorem moved_next (tid : Fin n → ℕ) (he : (runtime J io tid).enabled s a) :
    Moved a.kind s ((runtime J io tid).next s a) := by
  cases a with
  | start w =>
    have hpc : s.pc w = .unstarted := he
    exact .edge rfl (setWorker_active (by rfl)) (hpc ▸ .start)
  | raise w =>
    have hpc : s.pc w = .top := he
    exact .flag (hpc ▸ .raise)
  | takeLocal w seed =>
    have hpc : s.pc w = .takeLocal := he
    exact (takeLocal_looked seed).moved (by rw [hpc]; rfl)
  | steal w startOffset i =>
    have hpc : s.pc w = .stealing startOffset i := he
    exact (steal_looked startOffset i).moved (by rw [hpc]; rfl)
  | spawn w job thread => exact .still rfl (enqueue_active _ _ _)
  | cancelEvent w e =>
    have hpc : s.pc w = .running := he.1
    refine .edge (w := w) (p := .cancelled) ?_ (trigger_active e) (hpc ▸ .cancel)
    show Function.update (s.trigger w e).pc w _ = _
    rw [trigger_pc]
  | eventCancelled w =>
    have hpc : s.pc w = .cancelled := he
    exact .edge rfl (fun _ => rfl) (hpc ▸ .cancelled)
  | finish w =>
    have hpc : s.pc w = .running := he
    exact .edge rfl (fun _ => rfl) (hpc ▸ .finish)
  | lower w =>
    have hpc : s.pc w = .noTask := he
    exact .flag (hpc ▸ .lower)
  | resumeIdle w =>
    have hpc : s.pc w = .cleared := he
    show Moved .asks s (s.resumeIdle io w)
    unfold resumeIdle
    split
    · exact .flag (hpc ▸ .leave)
    · exact .edge rfl (fun _ => rfl) (hpc ▸ .ask _)
  | scan w stage now => exact (scanStep_scanned io now stage).moved he.1
  | poll w =>
    have hpc : s.pc w = .polling := he
    exact .flag (hpc ▸ .poll)
  | expire w clk =>
    have hpc : s.pc w = .expiring := he.1
    exact .edge rfl (fun _ => rfl) (hpc ▸ .expire _)
  | pushCb w cb rest =>
    have hpc : s.pc w = .processing (cb :: rest) := he
    exact .edge rfl (enqueue_active _ _ _) (hpc ▸ .push cb rest)
  | trigger w e =>
    have hpc : s.pc w = .processing [] := he.1
    refine .edge (w := w) (p := .triggered) ?_ (trigger_active e) (hpc ▸ .trigger)
    show Function.update (s.trigger w e).pc w _ = _
    rw [trigger_pc]
  | eventDone w =>
    have hpc : s.pc w = .triggered := he
    exact .edge rfl (fun _ => rfl) (hpc ▸ .triggered)
  | idleYield w =>
    have hpc : s.pc w = .processing [] := he
    exact .flag (hpc ▸ .idleYield)
  | unblock b => exact .still (unblock_pc b) (unblock_active b)
  | submit job thread => exact .still rfl (enqueue_active _ _ _)
  | _ => exact .still rfl fun _ => rfl

/-- Only its worker lowers a flag, on finding no task or at the end of a round of `idle`. -/
theorem active_next (hcleared : ∀ w, s.pc w = .cleared → s.active w = false)
    (he : (runtime J io tid).enabled s a) {v : Fin n} (hv : s.active v = true)
    (hlower : a ≠ .lower v) (hyield : a ≠ .idleYield v) :
    ((runtime J io tid).next s a).active v = true := by
  have hset : ∀ {w : Fin n} {b : Bool} {p : Pc J}, (v = w → b = true) →
      ((s.setActive w b).setPc w p).active v = true := by
    intro w b p hb
    show (s.setActive w b).active v = true
    rw [setActive_active]
    split
    next h => exact hb h
    · exact hv
  cases a with
  | start w => exact (setWorker_active (by rfl) v).trans hv
  | raise w => exact hset fun _ => rfl
  | takeLocal w seed => exact ((takeLocal_looked seed).active v).trans hv
  | steal w startOffset i => exact ((steal_looked startOffset i).active v).trans hv
  | spawn w job thread => exact (enqueue_active ..).trans hv
  | cancelEvent w e => exact (trigger_active e v).trans hv
  | lower w => exact hset fun h => absurd (h ▸ rfl) hlower
  | resumeIdle w =>
    show (s.resumeIdle io w).active v = true
    unfold resumeIdle
    split
    · refine hset fun h => ?_
      rw [h, hcleared w he] at hv
      cases hv
    · exact hv
  | scan w stage now => exact ((scanStep_scanned io now stage).active v).trans hv
  | poll w => exact hset fun _ => rfl
  | pushCb w cb rest => exact (enqueue_active ..).trans hv
  | trigger w e => exact (trigger_active e v).trans hv
  | idleYield w => exact hset fun h => absurd (h ▸ rfl) hyield
  | unblock b => exact (unblock_active b v).trans hv
  | submit job thread => exact (enqueue_active ..).trans hv
  | _ => exact hv

end Runtime

/-! ### What holds along every edge -/

/-- The flag is up while its worker may come by work, and down when it goes idle. -/
def Pc.Flagged (p : Pc J) (b : Bool) : Prop :=
  (p.busy = true → b = true) ∧ (p = .cleared → b = false)

theorem Edge.flagged {p' : Pc J} (e : Edge k p b p' b') (h : p.Flagged b) : p'.Flagged b' := by
  cases e with
  | took hp => exact ⟨fun _ => h.1 (Pc.busy_of_looking hp), fun hc => nomatch hc⟩
  | next hp _ _ => exact ⟨fun _ => h.1 (Pc.busy_of_looking hp), fun hc => nomatch hc⟩
  | nothing hp => exact ⟨fun _ => h.1 (Pc.busy_of_looking hp), fun hc => nomatch hc⟩
  | lower => exact ⟨fun hb => (nomatch hb), fun _ => rfl⟩
  | raise => exact ⟨fun _ => rfl, fun hc => nomatch hc⟩
  | poll => exact ⟨fun _ => rfl, fun hc => nomatch hc⟩
  | cancel => exact ⟨fun _ => h.1 rfl, fun hc => nomatch hc⟩
  | cancelled => exact ⟨fun _ => h.1 rfl, fun hc => nomatch hc⟩
  | expire _ => exact ⟨fun _ => h.1 rfl, fun hc => nomatch hc⟩
  | push _ _ => exact ⟨fun _ => h.1 rfl, fun hc => nomatch hc⟩
  | trigger => exact ⟨fun _ => h.1 rfl, fun hc => nomatch hc⟩
  | triggered => exact ⟨fun _ => h.1 rfl, fun hc => nomatch hc⟩
  | _ => exact ⟨fun hb => (nomatch hb), fun hc => nomatch hc⟩

/-- A triggered event is still counted. -/
def Pc.owed : Pc J → ℕ
  | .cancelled | .triggered => 1
  | _ => 0

/-- By how much a step of this kind raises and lowers the number of such events. -/
def Kind.change : Kind → ℕ × ℕ
  | .owes => (1, 0)
  | .pays => (0, 1)
  | _ => (0, 0)

theorem Pc.owed_of_looking (h : p.looking = true) : p.owed = 0 := by
  cases p <;> first | rfl | cases h

theorem Edge.owed {p' : Pc J} (e : Edge k p b p' b') :
    p'.owed + k.change.2 = p.owed + k.change.1 := by
  cases e with
  | took hp => rw [Pc.owed_of_looking hp]; rfl
  | next hp _ _ => rw [Pc.owed_of_looking hp]; rfl
  | nothing hp => rw [Pc.owed_of_looking hp]; rfl
  | _ => rfl

namespace Runtime

theorem Moved.owed {k : Kind} {s s' : Runtime J n} (h : Moved k s s') :
    ∑ v, (s'.pc v).owed + k.change.2 = ∑ v, (s.pc v).owed + k.change.1 := by
  obtain ⟨w, hother, hw⟩ := h
  have hrest : ∑ v ∈ Finset.univ.erase w, (s'.pc v).owed =
      ∑ v ∈ Finset.univ.erase w, (s.pc v).owed :=
    Finset.sum_congr rfl fun v hv => by rw [(hother v (Finset.ne_of_mem_erase hv)).1]
  have howed : (s'.pc w).owed + k.change.2 = (s.pc w).owed + k.change.1 := by
    rcases hw with ⟨rfl, hpc, -⟩ | hedge
    · rw [hpc]
      rfl
    · exact hedge.owed
  rw [← Finset.add_sum_erase _ _ (Finset.mem_univ w),
    ← Finset.add_sum_erase Finset.univ (fun v => (s.pc v).owed) (Finset.mem_univ w), hrest]
  omega

end Runtime

end PulsarRuntime.Scheduler
