import PulsarRuntime.Timer.Fate

/-!
# Runs of the timer manager: where timers are, and which callbacks a pass hands out

`WellFormed` is what every sequence of calls keeps: no timer is held twice, the fallback set is
sorted, and numbers not yet allocated are in no bucket.  Over it stand two properties of runs.

* A live timer is held by exactly one bucket, as long as no pass re-arms a timer into the slot it
  is iterating, or into a slot it has still to visit with a deadline that has already passed
  (`KeepsRearmed`).  Without the condition `slot.swap(remaining)` drops the timer.
* A pass hands out the callback of every due timer exactly when no due timer sits in wheels 1 to
  3: those are only cascaded, after wheel 0 has been swept.

`cancelled_` is set by `cancel` and by the expiry of a one-shot timer, and cleared by neither, so
the timers whose flag is down are those that are uncancelled and recurring or not yet fired.
-/

namespace PulsarRuntime.Timers

open TimerManager Pass

variable {Cb : Type}

/-! ### The calls, one timer at a time -/

section Calls

variable {tm : TimerManager Cb} {x : ℕ} {loc : Option Bucket}

theorem addTimer_old (ms : ℕ) (cb : Option Cb) (recurring : Bool) (created inserted : ℕ)
    (hx : Located tm x loc) (hne : x ≠ tm.allocated) :
    Located (tm.addTimer ms cb recurring created inserted).1 x loc ∧
      (tm.addTimer ms cb recurring created inserted).1.heap x = tm.heap x := by
  unfold addTimer
  dsimp only
  constructor
  · refine hx.congr fun b => ?_
    rw [insertToWheel_count, if_neg (fun h => hne h.2)]
    rfl
  · rw [insertToWheel_heap]
    exact setTimer_heap_ne _ _ hne

theorem addTimer_new (ms : ℕ) (cb : Option Cb) (recurring : Bool) (created inserted : ℕ)
    (hx : Located tm tm.allocated none) :
    Located (tm.addTimer ms cb recurring created inserted).1 tm.allocated
        (some (bucketFor inserted ((created + ms) % 2 ^ 64))) ∧
      (tm.addTimer ms cb recurring created inserted).1.heap tm.allocated =
        ⟨recurring, ms, (created + ms) % 2 ^ 64, cb, false⟩ := by
  unfold addTimer
  dsimp only
  rw [insertToWheel_heap]
  have hheap := setTimer_heap_self tm tm.allocated
    ⟨recurring, ms, (created + ms) % 2 ^ 64, cb, false⟩
  refine ⟨?_, hheap⟩
  have hloc := insertToWheel_located
    { tm.setTimer tm.allocated ⟨recurring, ms, (created + ms) % 2 ^ 64, cb, false⟩ with
      allocated := tm.allocated + 1 } inserted tm.allocated hx
  rw [show (TimerManager.heap _ tm.allocated) = _ from hheap] at hloc
  exact hloc

theorem addTimer_allocated (ms : ℕ) (cb : Option Cb) (recurring : Bool) (created inserted : ℕ) :
    (tm.addTimer ms cb recurring created inserted).1.allocated = tm.allocated + 1 := by
  unfold addTimer
  dsimp only
  rw [insertToWheel_allocated]

theorem addTimer_heap {x : ℕ} (hx : x ≠ tm.allocated) (ms : ℕ) (cb : Option Cb)
    (recurring : Bool) (created inserted : ℕ) :
    (tm.addTimer ms cb recurring created inserted).1.heap x = tm.heap x := by
  unfold addTimer
  dsimp only
  rw [insertToWheel_heap]
  exact setTimer_heap_ne _ _ hx

theorem addTimer_earliestNext (ms : ℕ) (cb : Option Cb) (recurring : Bool)
    (created inserted : ℕ) :
    (tm.addTimer ms cb recurring created inserted).1.earliestNext =
      min ((created + ms) % 2 ^ 64) tm.earliestNext := by
  unfold addTimer
  dsimp only
  rw [insertToWheel_earliestNext]
  exact congrArg (fun t : Timer Cb => min t.next tm.earliestNext) (setTimer_heap_self tm _ _)

@[simp] theorem cancel_store (id : ℕ) : (tm.cancel id).1.store = tm.store := by
  unfold cancel
  split <;> rfl

@[simp] theorem cancel_allocated (id : ℕ) : (tm.cancel id).1.allocated = tm.allocated := by
  unfold cancel
  split <;> rfl

@[simp] theorem cancel_earliestNext (id : ℕ) : (tm.cancel id).1.earliestNext = tm.earliestNext := by
  unfold cancel
  split <;> rfl

/-- `cancel` never moves a deadline and never revives a timer. -/
theorem cancel_heap (id x : ℕ) : ((tm.cancel id).1.heap x).next = (tm.heap x).next ∧
    (((tm.cancel id).1.heap x).cancelled = false → (tm.heap x).cancelled = false) := by
  unfold cancel
  split
  · exact ⟨rfl, fun h => h⟩
  · by_cases h : x = id
    · subst h
      rw [setTimer_heap_self]
      exact ⟨rfl, by simp⟩
    · rw [setTimer_heap_ne _ _ h]
      exact ⟨rfl, fun h => h⟩

theorem cancel_located (id : ℕ) (hx : Located tm x loc) : Located (tm.cancel id).1 x loc :=
  hx.congr fun b => by rw [cancel_store]

end Calls

/-! ### Well-formed buckets -/

/-- What the buckets satisfy between calls. -/
structure WellFormed (tm : TimerManager Cb) : Prop extends Tidy tm where
  fresh : ∀ x, tm.allocated ≤ x → Located tm x none

theorem WellFormed.create (now : ℕ) : WellFormed (TimerManager.create now : TimerManager Cb) where
  located := fun _ => ⟨none, fun _ => rfl⟩
  sorted := List.Pairwise.nil
  fresh := fun _ _ _ => rfl

variable {tm : TimerManager Cb}

theorem addTimer_wellFormed (h : WellFormed tm) (ms : ℕ)
    (cb : Option Cb) (recurring : Bool) (created inserted : ℕ) :
    WellFormed (tm.addTimer ms cb recurring created inserted).1 where
  located := by
    intro x
    by_cases hx : x = tm.allocated
    · subst hx
      exact ⟨_, (addTimer_new ms cb recurring created inserted (h.fresh _ le_rfl)).1⟩
    · obtain ⟨loc, hloc⟩ := h.located x
      exact ⟨loc, (addTimer_old ms cb recurring created inserted hloc hx).1⟩
  sorted := by
    have hnot : tm.allocated ∉ tm.store .tree := fun hmem => by
      simpa using ((h.fresh _ le_rfl).mem_iff .tree).mp hmem
    exact insertToWheel_sorted _ _ _ (setTimer_sorted h.sorted hnot _)
  fresh := by
    intro x hx
    rw [addTimer_allocated] at hx
    exact (addTimer_old ms cb recurring created inserted (h.fresh x (by omega)) (by omega)).1

theorem cancel_wellFormed (h : WellFormed tm) (id : ℕ) : WellFormed (tm.cancel id).1 where
  located := fun x => (h.located x).imp fun _ => cancel_located id
  sorted := by
    unfold SortedTree
    rw [cancel_store]
    refine h.sorted.imp fun {x y} hxy => ?_
    rw [(cancel_heap id x).1, (cancel_heap id y).1]
    exact hxy
  fresh := fun x hx => cancel_located id (h.fresh x (by simpa using hx))

/-! ### A pass allocates nothing -/

section Allocated

variable (clk : ℕ → ℕ) (now : ℕ)

theorem fire_allocated (p : Pass Cb) (id : ℕ) :
    (fire clk now p id).tm.allocated = p.tm.allocated := by
  unfold fire reinsert
  dsimp only
  split
  · rw [insertToWheel_allocated, setTimer_allocated]
  · rfl

theorem foldl_allocated {α β : Type} (tmOf : β → TimerManager Cb) {f : β → α → β}
    (hf : ∀ b a, (tmOf (f b a)).allocated = (tmOf b).allocated) (l : List α) (b : β) :
    (tmOf (l.foldl f b)).allocated = (tmOf b).allocated := by
  induction l generalizing b with
  | nil => rfl
  | cons a l ih => rw [List.foldl_cons, ih, hf]

theorem sweepSlot_allocated (p : Pass Cb) (i : Fin 256) :
    (sweepSlot clk now p i).tm.allocated = p.tm.allocated := by
  rw [sweepSlot_eq]
  refine foldl_allocated (fun acc : Pass Cb × List ℕ => acc.1.tm) (fun acc id => ?_) _ _
  unfold visit
  dsimp only
  split
  · rfl
  split
  · exact fire_allocated clk now _ id
  · rfl

theorem cascadeSlot_allocated (p : Pass Cb) (b : Bucket) :
    (cascadeSlot clk p b).tm.allocated = p.tm.allocated := by
  rw [cascadeSlot_eq]
  refine foldl_allocated (fun q : Pass Cb => q.tm) (fun q id => ?_) _ _
  unfold cascadeOne reinsert
  split
  · rfl
  · rw [insertToWheel_allocated]

theorem drainTree_allocated (fuel : ℕ) (p : Pass Cb) :
    (drainTree clk now fuel p).tm.allocated = p.tm.allocated := by
  induction fuel generalizing p with
  | zero => rfl
  | succ fuel ih =>
    unfold drainTree
    split
    · rfl
    split
    · rw [ih]
      unfold drainOne
      dsimp only
      split
      · rfl
      · rw [fire_allocated, setBucket_allocated]
    · rfl

theorem swept_allocated (tm : TimerManager Cb) : (swept clk tm).tm.allocated = tm.allocated := by
  unfold swept sweep
  generalize List.finRange 256 = slots
  exact foldl_allocated Pass.tm (sweepSlot_allocated clk (clk 0)) slots _

theorem cascaded_allocated (tm : TimerManager Cb) :
    (cascaded clk tm).tm.allocated = tm.allocated := by
  unfold cascaded
  generalize upper = slots
  exact (foldl_allocated Pass.tm (cascadeSlot_allocated clk) slots _).trans
    (swept_allocated clk tm)

theorem advanceWheel_allocated (tm : TimerManager Cb) :
    (advanceWheel clk tm).tm.allocated = tm.allocated := by
  have hd : (drained clk tm).tm.allocated = tm.allocated := by
    unfold drained
    rw [drainTree_allocated, cascaded_allocated]
  rw [advanceWheel_eq]
  generalize drained clk tm = p at hd
  exact hd

end Allocated

/-! ### Runs -/

theorem listExpiredCb_eq (clk : ℕ → ℕ) (tm : TimerManager Cb) :
    listExpiredCb clk tm = advanceWheel clk { tm with previouseTime := clk 0 } := rfl

theorem Pass.Tidy.noted (h : Tidy tm) (t : ℕ) :
    Tidy { tm with previouseTime := t } := ⟨h.located, h.sorted⟩

variable {clk : ℕ → ℕ}

/-- `detectClockRolllover` only notes the reading, so the fate of a timer is that of the pass. -/
theorem listExpiredCb_fate {x : ℕ} {loc : Option Bucket}
    (h : Tidy tm) (hclk : Monotone clk) (hx : Located tm x loc) :
    Fate clk { tm with previouseTime := clk 0 } (listExpiredCb clk tm) x loc :=
  advanceWheel_fate (h.noted (clk 0)) (fun k => hclk (Nat.zero_le k)) hx

theorem listExpiredCb_wellFormed (h : WellFormed tm)
    (hclk : Monotone clk) : WellFormed (listExpiredCb clk tm).tm where
  toTidy := advanceWheel_tidy clk (h.toTidy.noted (clk 0))
  fresh := by
    intro x hx
    rw [listExpiredCb_eq, advanceWheel_allocated] at hx
    cases listExpiredCb_fate h.toTidy hclk (h.fresh x hx) with
    | absent located _ _ => exact located

variable {s : Clocked Cb}

theorem next_wellFormed {op : Op Cb} (h : WellFormed s.tm)
    (he : (manager Cb).enabled s op) : WellFormed ((manager Cb).next s op).tm := by
  cases op with
  | addTimer ms cb recurring created inserted =>
    exact addTimer_wellFormed h ms cb recurring created inserted
  | cancel id => exact cancel_wellFormed h id
  | listExpiredCb clk => exact listExpiredCb_wellFormed h he.2.1
  | getNextTimer now => exact ⟨⟨h.located, h.sorted⟩, h.fresh⟩

theorem init_wellFormed (h : (manager Cb).init s) : WellFormed s.tm := by
  have hs : s.tm = TimerManager.create s.last := h
  rw [hs]
  exact .create _

theorem reach_wellFormed (h : (manager Cb).Reach s) : WellFormed s.tm :=
  Machine.Reach.invariant (I := fun s => WellFormed s.tm) (fun _ => init_wellFormed)
    (fun _ _ hw he => next_wellFormed hw he) h

/-! ### Live timers stay in exactly one bucket -/

/-- The pass re-arms no timer of wheel 0 into the slot it is iterating, and none into a slot it
has still to visit with a deadline that has already passed: the new slot is one the sweep has
left behind, or another one and the deadline lies ahead, or the period is too long for wheel 0. -/
def KeepsRearmed (s : Clocked Cb) : Op Cb → Prop
  | .listExpiredCb clk => ∀ i, ∀ x ∈ s.tm.store (.wheel0 i), (s.tm.heap x).cancelled = false →
      (s.tm.heap x).recurring = true → (s.tm.heap x).next ≤ clk 0 →
      let next := ((s.tm.heap x).rearmed (clk 0)).next
      Fin.ofNat 256 next < i ∨ (Fin.ofNat 256 next ≠ i ∧ clk 0 < next) ∨ ∀ k, clk k + 256 ≤ next
  | _ => True

theorem KeepsRearmed.apart (h : KeepsRearmed s (.listExpiredCb clk)) {i : Fin 256} {x : ℕ}
    (hx : x ∈ s.tm.store (.wheel0 i)) (hlive : (s.tm.heap x).cancelled = false)
    (hagain : (s.tm.heap x).recurring = true) (hdue : (s.tm.heap x).next ≤ clk 0) (k : ℕ) :
    ¬Clash (clk 0) (clk k) ((s.tm.heap x).rearmed (clk 0)).next i := by
  rintro ⟨j, target, clash⟩
  obtain ⟨hnear, rfl⟩ := bucketFor_eq_wheel0 target
  have hslot := h i x hx hlive hagain hdue
  dsimp only at hslot
  rcases hslot with hlt | ⟨hne, hahead⟩ | hfar
  · rcases clash with heq | ⟨hgt, -⟩
    · exact absurd heq hlt.ne
    · exact absurd hgt hlt.asymm
  · rcases clash with heq | ⟨-, hpast⟩
    · exact absurd heq hne
    · omega
  · exact absurd hnear (hfar _).not_gt

/-- Every timer whose flag is down is in one bucket. -/
def Held (tm : TimerManager Cb) : Prop :=
  ∀ x < tm.allocated, (tm.heap x).cancelled = false → ∃ b, Located tm x (some b)

theorem listExpiredCb_held (hw : WellFormed s.tm)
    (h : Held s.tm) (hclk : Monotone clk) (hok : KeepsRearmed s (.listExpiredCb clk)) :
    Held (listExpiredCb clk s.tm).tm := by
  intro x hx hlive
  rw [listExpiredCb_eq, advanceWheel_allocated] at hx
  obtain ⟨loc, hloc⟩ := hw.located x
  cases listExpiredCb_fate hw.toTidy hclk hloc with
  | absent located heap _ =>
    rw [heap] at hlive
    obtain ⟨b, hb⟩ := h x hx hlive
    have hmem := (hb.mem_iff b).mpr rfl
    rw [hloc.mem_iff] at hmem
    cases hmem
  | dead cancelled heap _ =>
    rw [heap] at hlive
    rw [hlive] at cancelled
    cases cancelled
  | kept _ _ _ located _ _ _ => exact ⟨_, located⟩
  | moved _ _ located _ _ => exact ⟨_, located⟩
  | expired _ _ _ _ _ heap _ =>
    rw [heap] at hlive
    cases hlive
  | rearmed _ _ _ _ located _ _ _ _ _ => exact ⟨_, located⟩
  | lost live due again clash _ _ _ =>
    exact absurd clash (hok.apart ((hloc.mem_iff _).mpr rfl) live again due _)

theorem next_held {op : Op Cb} (hw : WellFormed s.tm) (h : Held s.tm)
    (he : (manager Cb).enabled s op) (hok : KeepsRearmed s op) :
    Held ((manager Cb).next s op).tm := by
  cases op with
  | addTimer ms cb recurring created inserted =>
    intro x hx hlive
    by_cases hnew : x = s.tm.allocated
    · subst hnew
      exact ⟨_, (addTimer_new ms cb recurring created inserted (hw.fresh _ le_rfl)).1⟩
    · have hold : x < s.tm.allocated := by
        have hx' : x < (s.tm.addTimer ms cb recurring created inserted).1.allocated := hx
        rw [addTimer_allocated] at hx'
        omega
      obtain ⟨loc, hloc⟩ := hw.located x
      have hkeep := addTimer_old ms cb recurring created inserted hloc hnew
      obtain ⟨b, hb⟩ := h x hold (by rw [← hkeep.2]; exact hlive)
      exact ⟨b, (addTimer_old ms cb recurring created inserted hb hnew).1⟩
  | cancel id =>
    intro x hx hlive
    have hx' : x < (s.tm.cancel id).1.allocated := hx
    rw [cancel_allocated] at hx'
    obtain ⟨b, hb⟩ := h x hx' ((cancel_heap id x).2 hlive)
    exact ⟨b, cancel_located id hb⟩
  | listExpiredCb clk => exact listExpiredCb_held hw h he.2.1 hok
  | getNextTimer now => exact h

/-- **No timer is lost or held twice.**  In every run whose passes lose no re-armed timer, each
timer that is neither cancelled nor a one-shot that has fired is held by exactly one bucket. -/
theorem live_timer_held_once {s : Clocked Cb} (h : (manager Cb).ReachVia KeepsRearmed s) {x : ℕ}
    (hx : x < s.tm.allocated) (hlive : (s.tm.heap x).cancelled = false) :
    ∃ b, Located s.tm x (some b) := by
  have hinv : WellFormed s.tm ∧ Held s.tm :=
    h.invariant (I := fun s => WellFormed s.tm ∧ Held s.tm)
      (fun s hs => ⟨init_wellFormed hs, fun x hx _ => by
        have hs' : s.tm = TimerManager.create s.last := hs
        rw [hs'] at hx
        exact absurd hx (Nat.not_lt_zero x)⟩)
      (fun s op hi he hok => ⟨next_wellFormed hi.1 he, next_held hi.1 hi.2 he hok⟩)
  exact hinv.2 x hx hlive

/-- A manager just constructed. -/
def Clocked.start (now : ℕ) : Clocked Cb := ⟨TimerManager.create now, now⟩

theorem reachVia_start (ok : Clocked Cb → Op Cb → Prop) (now : ℕ) :
    (manager Cb).ReachVia ok (.start now) := .start rfl

/-- A recurring timer of 100 ms, added at 1000. -/
def recurringTimer : Clocked Unit :=
  (manager Unit).next (.start 1000) (.addTimer 100 (some ()) true 1000 1000)

/-- A pass 10 ms after its deadline re-arms it for 1210, whose slot is another one. -/
theorem recurringTimer_keeps : KeepsRearmed recurringTimer (.listExpiredCb fun _ => 1110) := by
  have hslot : ∀ i, ∀ x ∈ recurringTimer.tm.store (.wheel0 i),
      Fin.ofNat 256 (1110 + 100) ≠ i ∧ x = 0 := by decide +kernel
  intro i x hx _ _ _
  obtain ⟨hne, rfl⟩ := hslot i x hx
  exact .inr (.inl ⟨hne, by decide +kernel⟩)

theorem add_enabled (ms : ℕ) (recurring : Bool) :
    (manager Unit).enabled (.start 1000) (.addTimer ms (some ()) recurring 1000 1000) :=
  ⟨le_rfl, le_rfl, by decide⟩

theorem pass_enabled {s : Clocked Unit} {now : ℕ} (h : s.last ≤ now) (hlt : now < 2 ^ 64) :
    (manager Unit).enabled s (.listExpiredCb fun _ => now) :=
  ⟨h, monotone_const, fun _ => hlt⟩

def rearmTrace : List (Op Unit) :=
  [.addTimer 100 (some ()) true 1000 1000, .listExpiredCb fun _ => 1110]

theorem live_timer_held_once_after_rearm :
    ∃ b, Located ((manager Unit).run (.start 1000) rearmTrace).tm 0 (some b) := by
  refine live_timer_held_once (Machine.reachVia_run (reachVia_start _ 1000) ?_)
    (by decide +kernel) (by decide +kernel)
  exact ⟨⟨add_enabled 100 true, trivial⟩,
    ⟨pass_enabled (s := recurringTimer) (by decide) (by decide), recurringTimer_keeps⟩, trivial⟩

/-- Three timers of 100 ms share slot 76; the pass comes 156 ms late, so the recurring one is
re-armed for 1356, whose slot is 76 again. -/
def lossTrace : List (Op Unit) :=
  [.addTimer 100 (some ()) true 1000 1000, .addTimer 100 (some ()) false 1000 1000,
    .addTimer 100 (some ()) false 1000 1000, .listExpiredCb fun _ => 1256]

/-- `remaining` replaces the slot after the timer was pushed onto it: an uncancelled recurring
timer is in no bucket. -/
theorem rearmed_timer_lost : ∃ s : Clocked Unit, (manager Unit).Reach s ∧ 0 < s.tm.allocated ∧
    (s.tm.heap 0).cancelled = false ∧ (s.tm.heap 0).recurring = true ∧
    ∀ b, 0 ∉ s.tm.store b := by
  refine ⟨(manager Unit).run (.start 1000) lossTrace,
    Machine.reachVia_run (reachVia_start _ 1000) ?_, by decide +kernel, by decide +kernel,
    by decide +kernel, ?_⟩
  · have hadd : (1000 : ℕ) ≤ 1000 ∧ (1000 : ℕ) ≤ 1000 ∧ (1000 : ℕ) < 2 ^ 64 := by decide
    exact ⟨⟨hadd, trivial⟩, ⟨hadd, trivial⟩, ⟨hadd, trivial⟩,
      ⟨pass_enabled (by decide) (by decide), trivial⟩, trivial⟩
  · intro b
    cases b with
    | wheel0 i => revert i; decide +kernel
    | wheel1 i => revert i; decide +kernel
    | wheel2 i => revert i; decide +kernel
    | wheel3 i => revert i; decide +kernel
    | tree => decide +kernel

/-! ### Which due timers a pass fires -/

/-- **Expiry is complete exactly for wheel 0 and the fallback set.**  In every reachable state,
a pass that re-arms no timer into the slot it is sweeping, whose vector a push would change under
the loop, hands out the callbacks of all due timers if and only if wheels 1 to 3 hold no due timer
that has one. -/
theorem listExpiredCb_complete_iff {s : Clocked Cb} (h : (manager Cb).Reach s) {clk : ℕ → ℕ}
    (he : (manager Cb).enabled s (.listExpiredCb clk))
    (hok : KeepsRearmed s (.listExpiredCb clk)) :
    (∀ b, ∀ x ∈ s.tm.store b, (s.tm.heap x).cancelled = false → (s.tm.heap x).next ≤ clk 0 →
        ∀ f, (s.tm.heap x).cb = some f → (x, f) ∈ (listExpiredCb clk s.tm).cbs) ↔
      ∀ b, ∀ x ∈ s.tm.store b, (s.tm.heap x).cancelled = false → (s.tm.heap x).next ≤ clk 0 →
        (s.tm.heap x).cb ≠ none → b = .tree ∨ ∃ i, b = .wheel0 i := by
  have hw := reach_wellFormed h
  have hfate : ∀ {b x}, x ∈ s.tm.store b →
      Fate clk { s.tm with previouseTime := clk 0 } (listExpiredCb clk s.tm) x (some b) := by
    intro b x hx
    obtain ⟨loc, hloc⟩ := hw.located x
    obtain rfl := (hloc.mem_iff b).mp hx
    exact listExpiredCb_fate hw.toTidy he.2.1 hloc
  constructor
  · intro hall b x hx hlive hdue hcb
    by_contra hplace
    obtain ⟨f, hf⟩ := Option.ne_none_iff_exists'.mp hcb
    have hup : b ∈ upper :=
      mem_upper (fun ht => hplace (.inl ht)) fun i hi => hplace (.inr ⟨i, hi⟩)
    have hmem := hall b x hx hlive hdue f hf
    cases hfate hx with
    | dead _ _ quiet => exact quiet f hmem
    | kept _ _ place _ _ _ _ => exact place hup
    | moved _ _ _ _ quiet => exact quiet f hmem
    | expired _ _ place _ _ _ _ => exact place hup
    | rearmed _ _ place _ _ _ _ _ _ _ => exact place hup
    | lost _ _ _ _ _ _ _ => exact hplace (.inr ⟨_, rfl⟩)
  · intro hplace b x hx hlive hdue f hf
    have hlow := not_mem_upper (hplace b x hx hlive hdue (by rw [hf]; simp))
    cases hfate hx with
    | dead cancelled _ _ =>
      dsimp only at cancelled
      rw [hlive] at cancelled
      cases cancelled
    | kept _ later _ _ _ _ _ => exact absurd hdue later.not_ge
    | moved _ place _ _ _ => exact absurd place hlow
    | expired _ _ _ _ _ _ emits => exact (emits f).mpr hf
    | rearmed _ _ _ _ _ _ emits _ _ _ => exact (emits f).mpr hf
    | lost _ _ again clash _ _ _ => exact absurd clash (hok.apart hx hlive again hdue _)

theorem listExpiredCb_complete_iff_recurring :
    (0, ()) ∈ (listExpiredCb (fun _ => 1110) recurringTimer.tm).cbs := by
  have hreach : (manager Unit).Reach recurringTimer :=
    .step (.start rfl) (add_enabled 100 true) trivial
  have hupper : ∀ b ∈ upper, recurringTimer.tm.store b = [] := by decide +kernel
  refine (listExpiredCb_complete_iff hreach
    (pass_enabled (by decide) (by decide)) recurringTimer_keeps).mpr ?_
    (.wheel0 76) 0 (by decide +kernel) (by decide +kernel) (by decide +kernel) () rfl
  intro b x hx _ _ _
  by_contra hplace
  have hup := mem_upper (fun ht => hplace (.inl ht)) fun i hi => hplace (.inr ⟨i, hi⟩)
  rw [hupper b hup] at hx
  cases hx

/-- One timer, added at 1000. -/
def oneTimer (ms : ℕ) : Clocked Unit :=
  (manager Unit).next (.start 1000) (.addTimer ms (some ()) false 1000 1000)

theorem oneTimer_reach (ms : ℕ) : (manager Unit).Reach (oneTimer ms) :=
  .step (.start rfl) (add_enabled ms false) trivial

/-- A timer of 300 ms waits in wheel 1; the first pass comes 100 ms after its deadline and only
moves it to wheel 0. -/
theorem due_timer_missed : ∃ s : Clocked Unit, (manager Unit).Reach s ∧ ∃ clk,
    (manager Unit).enabled s (.listExpiredCb clk) ∧ ∃ b, ∃ x ∈ s.tm.store b,
      (s.tm.heap x).cancelled = false ∧ (s.tm.heap x).next ≤ clk 0 ∧
      (s.tm.heap x).cb = some () ∧ (listExpiredCb clk s.tm).cbs = [] :=
  ⟨oneTimer 300, oneTimer_reach 300, fun _ => 1400, pass_enabled (by decide) (by decide), .wheel1 5,
    0,
    by decide +kernel, by decide +kernel, by decide +kernel, rfl, by decide +kernel⟩

end PulsarRuntime.Timers
