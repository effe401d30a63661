import PulsarRuntime.Timer.Runs

/-!
# A pass as a sequence of firings

Whatever it does to the buckets, a pass changes a `Timer` object and hands out a callback in one
way only: it finds a timer whose flag is down and whose deadline has passed, appends its callback
and re-arms or retires it.  `Firings now heap log heap'` replays such a sequence on the timers
alone; `log` has every timer as it was when its turn came.  `advanceWheel_fires` says that each
pass is one.

What a run can do to a single timer follows by induction on the log.  A flag that is up stays up,
so a timer is silent from its `cancel` on; and the firing of a one-shot timer raises its flag, so
it is the only one.
-/

namespace PulsarRuntime.Timers

open TimerManager Pass

variable {Cb : Type}

/-- What firing at `now` makes of a timer. -/
def Timer.fired (now : ℕ) (t : Timer Cb) : Timer Cb :=
  if t.recurring then t.rearmed now else t.expired

/-- The timers `log` are fired one after the other, each of them live and due in its turn. -/
inductive Firings (now : ℕ) : (ℕ → Timer Cb) → List (ℕ × Timer Cb) → (ℕ → Timer Cb) → Prop where
  | done {heap : ℕ → Timer Cb} : Firings now heap [] heap
  | fire {heap heap' : ℕ → Timer Cb} {id : ℕ} {log : List (ℕ × Timer Cb)} :
      (heap id).cancelled = false → (heap id).next ≤ now →
      Firings now (Function.update heap id ((heap id).fired now)) log heap' →
      Firings now heap ((id, heap id) :: log) heap'

/-- The callbacks of the fired timers that have one. -/
def callbacks (log : List (ℕ × Timer Cb)) : List (ℕ × Cb) :=
  log.flatMap fun e => (e.2.cb.map fun f => (e.1, f)).toList

namespace Firings

variable {now x : ℕ} {heap heap' heap'' : ℕ → Timer Cb} {log log' : List (ℕ × Timer Cb)}
  (h : Firings now heap log heap')
include h

theorem append (h' : Firings now heap' log' heap'') : Firings now heap (log ++ log') heap'' := by
  induction h with
  | done => exact h'
  | fire live due _ ih => exact .fire live due (ih h')

/-- Nobody is fired early. -/
theorem due : ∀ e ∈ log, e.2.next ≤ now := by
  induction h with
  | done => nofun
  | fire _ due _ ih =>
    intro e he
    rcases List.mem_cons.mp he with rfl | he
    · exact due
    · exact ih e he

/-- The deadlines stay `uint64_t`. -/
theorem bounded (hx : ∀ x, (heap x).next < 2 ^ 64) : ∀ x, (heap' x).next < 2 ^ 64 := by
  induction h with
  | done => exact hx
  | @fire heap _ id _ _ _ _ ih =>
    apply ih
    intro x
    by_cases hid : x = id
    · subst hid
      rw [Function.update_self, Timer.fired]
      split
      · exact Nat.mod_lt _ (by decide)
      · exact hx x
    · rw [Function.update_of_ne hid]
      exact hx x

/-- A timer whose flag is up is not fired and stays as it is. -/
theorem silent (hx : (heap x).cancelled = true) : heap' x = heap x ∧ ∀ e ∈ log, e.1 ≠ x := by
  induction h with
  | done => exact ⟨rfl, nofun⟩
  | @fire heap _ id _ live _ _ ih =>
    have hne : x ≠ id := by
      rintro rfl
      rw [live] at hx
      cases hx
    have hsame : Function.update heap id ((heap id).fired now) x = heap x :=
      Function.update_of_ne hne ..
    obtain ⟨hheap, hlog⟩ := ih (by rw [hsame]; exact hx)
    refine ⟨hheap.trans hsame, fun e he => ?_⟩
    rcases List.mem_cons.mp he with rfl | he
    · exact Ne.symm hne
    · exact hlog e he

/-- A one-shot timer is fired at most once, and then its flag is up. -/
theorem once (hx : (heap x).recurring = false) :
    (log.map Prod.fst).count x ≤ 1 ∧
      (x ∈ log.map Prod.fst → (heap' x).cancelled = true) := by
  induction h with
  | done => exact ⟨Nat.zero_le 1, nofun⟩
  | @fire heap heap' id log _ _ rest ih =>
    rw [List.map_cons]
    by_cases hid : x = id
    · subst hid
      have hup : (Function.update heap x ((heap x).fired now) x).cancelled = true := by
        rw [Function.update_self, Timer.fired, if_neg (by rw [hx]; decide)]
        rfl
      obtain ⟨hheap, hlog⟩ := rest.silent hup
      have hrest : (log.map Prod.fst).count x = 0 := by
        apply List.count_eq_zero_of_not_mem
        intro hmem
        obtain ⟨e, he, hex⟩ := List.mem_map.mp hmem
        exact hlog e he hex
      constructor
      · rw [List.count_cons_self, hrest]
      · intro _
        rw [hheap]
        exact hup
    · obtain ⟨hcount, hflag⟩ := ih (by rw [Function.update_of_ne hid]; exact hx)
      constructor
      · rw [List.count_cons_of_ne (Ne.symm hid)]
        exact hcount
      · intro hmem
        exact hflag ((List.mem_cons.mp hmem).resolve_left hid)

end Firings

theorem callbacks_append (log log' : List (ℕ × Timer Cb)) :
    callbacks (log ++ log') = callbacks log ++ callbacks log' := List.flatMap_append

/-- At most one callback for each firing. -/
theorem callbacks_sublist (log : List (ℕ × Timer Cb)) :
    ((callbacks log).map Prod.fst).Sublist (log.map Prod.fst) := by
  induction log with
  | nil => exact .slnil
  | cons e log ih =>
    show (List.map Prod.fst ((e.2.cb.map fun f => (e.1, f)).toList ++ callbacks log)).Sublist _
    rw [List.map_append, List.map_cons]
    cases e.2.cb with
    | none => exact ih.cons e.1
    | some f => exact ih.cons_cons e.1

/-! ### The phases of a pass -/

namespace Pass

variable (clk : ℕ → ℕ) (now : ℕ)

/-- From `p` to `q` timers were fired, and nothing else happened to the timers and callbacks. -/
def Fires (now : ℕ) (p q : Pass Cb) : Prop :=
  ∃ log, Firings now p.tm.heap log q.tm.heap ∧ q.cbs = p.cbs ++ callbacks log

theorem Fires.quiet {now : ℕ} {p q : Pass Cb} (hheap : q.tm.heap = p.tm.heap)
    (hcbs : q.cbs = p.cbs) : Fires now p q :=
  ⟨[], by rw [hheap]; exact .done, by rw [hcbs]; exact (List.append_nil _).symm⟩

theorem Fires.trans {now : ℕ} {p q r : Pass Cb} (h : Fires now p q) (h' : Fires now q r) :
    Fires now p r := by
  obtain ⟨log, hf, hcbs⟩ := h
  obtain ⟨log', hf', hcbs'⟩ := h'
  refine ⟨log ++ log', hf.append hf', ?_⟩
  rw [hcbs', hcbs, callbacks_append, List.append_assoc]

/-- A loop whose rounds fire timers does. -/
theorem Fires.foldl {α β : Type} {now : ℕ} (passOf : β → Pass Cb) {f : β → α → β}
    (hf : ∀ b a, Fires now (passOf b) (passOf (f b a))) (l : List α) (b : β) :
    Fires now (passOf b) (passOf (l.foldl f b)) := by
  induction l generalizing b with
  | nil => exact .quiet rfl rfl
  | cons a l ih => exact (hf b a).trans (ih (f b a))

theorem fire_fires {p : Pass Cb} {id : ℕ} (live : (p.tm.heap id).cancelled = false)
    (due : (p.tm.heap id).next ≤ now) : Fires now p (fire clk now p id) := by
  have hheap : (fire clk now p id).tm.heap =
      Function.update p.tm.heap id ((p.tm.heap id).fired now) := by
    unfold fire Timer.fired
    dsimp only
    split
    · exact insertToWheel_heap ..
    · rfl
  refine ⟨[(id, p.tm.heap id)], .fire live due ?_, ?_⟩
  · rw [hheap]
    exact .done
  · unfold fire
    dsimp only
    split <;> exact congrArg (p.cbs ++ ·) (List.append_nil _).symm

theorem sweepSlot_fires (p : Pass Cb) (i : Fin 256) : Fires now p (sweepSlot clk now p i) := by
  have hvisit : ∀ (acc : Pass Cb × List ℕ) (id : ℕ),
      Fires now acc.1 (visit clk now acc id).1 := by
    intro acc id
    unfold visit
    dsimp only
    split
    · exact .quiet rfl rfl
    · rename_i live
      split
      · rename_i due
        exact fire_fires clk now (Bool.not_eq_true _ ▸ live) due
      · exact .quiet rfl rfl
  rw [sweepSlot_eq]
  exact (Fires.foldl Prod.fst hvisit _ (p, [])).trans (.quiet rfl rfl)

theorem cascadeSlot_fires (p : Pass Cb) (b : Bucket) : Fires now p (cascadeSlot clk p b) := by
  have hone : ∀ (q : Pass Cb) (id : ℕ), Fires now q (cascadeOne clk q id) := by
    intro q id
    unfold cascadeOne
    split
    · exact .quiet rfl rfl
    · exact .quiet (insertToWheel_heap ..) rfl
  have hemptied : Fires now p { p with tm := p.tm.setBucket b [] } := .quiet rfl rfl
  rw [cascadeSlot_eq]
  exact hemptied.trans (Fires.foldl (fun q => q) hone _ _)

theorem drainTree_fires (fuel : ℕ) (p : Pass Cb) : Fires now p (drainTree clk now fuel p) := by
  induction fuel generalizing p with
  | zero => exact .quiet rfl rfl
  | succ fuel ih =>
    unfold drainTree
    split
    · exact .quiet rfl rfl
    · split
      · rename_i id rest _ due
        have hpopped : Fires now p { p with tm := p.tm.setBucket .tree rest } := .quiet rfl rfl
        apply Fires.trans _ (ih _)
        apply hpopped.trans
        unfold drainOne
        dsimp only
        split
        · exact .quiet rfl rfl
        · rename_i live
          exact fire_fires clk now (Bool.not_eq_true _ ▸ live) due
      · exact .quiet rfl rfl

theorem advanceWheel_fires (tm : TimerManager Cb) :
    Fires (clk 0) ⟨tm, 1, [], noTimer⟩ (drained clk tm) := by
  have hswept : Fires (clk 0) ⟨tm, 1, [], noTimer⟩ (swept clk tm) := by
    unfold swept sweep
    generalize List.finRange 256 = slots
    exact Fires.foldl (fun q => q) (sweepSlot_fires clk (clk 0)) slots _
  have hcascaded : Fires (clk 0) (swept clk tm) (cascaded clk tm) := by
    unfold cascaded
    generalize upper = slots
    exact Fires.foldl (fun q => q) (cascadeSlot_fires clk (clk 0)) slots _
  have hdrained : Fires (clk 0) (cascaded clk tm) (drained clk tm) :=
    drainTree_fires clk (clk 0) _ _
  exact (hswept.trans hcascaded).trans hdrained

/-- **A pass is a sequence of firings** at its reading of the clock. -/
theorem listExpiredCb_fires (tm : TimerManager Cb) :
    ∃ log, Firings (clk 0) tm.heap log (listExpiredCb clk tm).tm.heap ∧
      (listExpiredCb clk tm).cbs = callbacks log := by
  obtain ⟨log, hf, hcbs⟩ := advanceWheel_fires clk { tm with previouseTime := clk 0 }
  rw [listExpiredCb_eq, advanceWheel_heap, advanceWheel_cbs]
  exact ⟨log, hf, hcbs⟩

end Pass

/-! ### Runs -/

/-- Timer `x` exists and its flag is up. -/
def Silenced (x : ℕ) (s : Clocked Cb) : Prop :=
  x < s.tm.allocated ∧ (s.tm.heap x).cancelled = true

namespace Silenced

variable {x : ℕ} {s t : Clocked Cb}

theorem next (h : Silenced x s) (op : Op Cb) : Silenced x ((manager Cb).next s op) := by
  obtain ⟨hx, hflag⟩ := h
  cases op with
  | addTimer ms cb recurring created inserted =>
    constructor
    · show x < (s.tm.addTimer ms cb recurring created inserted).1.allocated
      rw [addTimer_allocated]
      exact Nat.lt_succ_of_lt hx
    · show ((s.tm.addTimer ms cb recurring created inserted).1.heap x).cancelled = true
      rw [addTimer_heap (Nat.ne_of_lt hx)]
      exact hflag
  | cancel id =>
    constructor
    · show x < (s.tm.cancel id).1.allocated
      rw [cancel_allocated]
      exact hx
    · by_contra hdown
      have hlive := (cancel_heap id x).2 (Bool.not_eq_true _ ▸ hdown)
      rw [hflag] at hlive
      cases hlive
  | listExpiredCb clk =>
    obtain ⟨log, hfires, -⟩ := listExpiredCb_fires clk s.tm
    constructor
    · show x < (listExpiredCb clk s.tm).tm.allocated
      rw [listExpiredCb_eq, advanceWheel_allocated]
      exact hx
    · show ((listExpiredCb clk s.tm).tm.heap x).cancelled = true
      rw [(hfires.silent hflag).1]
      exact hflag
  | getNextTimer now => exact ⟨hx, hflag⟩

theorem later (h : Silenced x s) (hl : (manager Cb).Later (fun _ _ => True) s t) : Silenced x t :=
  Machine.Later.invariant (fun _ op hs _ _ => hs.next op) hl h

/-- A pass hands out nothing for it. -/
theorem quiet (h : Silenced x s) (clk : ℕ → ℕ) (f : Cb) :
    (x, f) ∉ (listExpiredCb clk s.tm).cbs := by
  obtain ⟨log, hfires, hcbs⟩ := listExpiredCb_fires clk s.tm
  intro hmem
  rw [hcbs] at hmem
  have hfirst : x ∈ log.map Prod.fst :=
    (callbacks_sublist log).subset (List.mem_map_of_mem hmem)
  obtain ⟨e, he, hex⟩ := List.mem_map.mp hfirst
  exact (hfires.silent h.2).2 e he hex

end Silenced

theorem cancel_silences {tm : TimerManager Cb} {x : ℕ} :
    ((tm.cancel x).1.heap x).cancelled = true := by
  unfold TimerManager.cancel
  split
  · assumption
  · rw [setTimer_heap_self]

/-- A pass hands out callbacks of timers that exist. -/
theorem allocated_of_emitted {tm : TimerManager Cb} (hw : WellFormed tm) {clk : ℕ → ℕ}
    (hclk : Monotone clk) {x : ℕ} {f : Cb} (hf : (x, f) ∈ (listExpiredCb clk tm).cbs) :
    x < tm.allocated := by
  by_contra hx
  cases listExpiredCb_fate hw.toTidy hclk (hw.fresh x (Nat.le_of_not_lt hx)) with
  | absent _ _ quiet => exact quiet f hf

/-- **Timers are never early, and one-shots fire once.**  In every reachable state

* a pass fires timers one after the other, each of them due by the deadline it has in its turn;
* a pass hands out at most one callback of a one-shot timer, and once it has, no later pass does
  and `cancel` returns false;
* after a `cancel` of a timer no pass hands out its callback. -/
theorem timers_on_time {s : Clocked Cb} (h : (manager Cb).Reach s) :
    (∀ clk, (manager Cb).enabled s (.listExpiredCb clk) →
      (∃ log, Firings (clk 0) s.tm.heap log (listExpiredCb clk s.tm).tm.heap ∧
        (listExpiredCb clk s.tm).cbs = callbacks log ∧ ∀ e ∈ log, e.2.next ≤ clk 0) ∧
      ∀ x, (s.tm.heap x).recurring = false →
        ((listExpiredCb clk s.tm).cbs.map Prod.fst).count x ≤ 1 ∧
        ∀ f, (x, f) ∈ (listExpiredCb clk s.tm).cbs → ∀ t,
          (manager Cb).Later (fun _ _ => True) ((manager Cb).next s (.listExpiredCb clk)) t →
          (∀ clk' g, (x, g) ∉ (listExpiredCb clk' t.tm).cbs) ∧ (t.tm.cancel x).2 = false) ∧
    ∀ x, (manager Cb).enabled s (.cancel x) → ∀ t,
      (manager Cb).Later (fun _ _ => True) ((manager Cb).next s (.cancel x)) t →
      ∀ clk g, (x, g) ∉ (listExpiredCb clk t.tm).cbs := by
  constructor
  · intro clk he
    obtain ⟨log, hfires, hcbs⟩ := listExpiredCb_fires clk s.tm
    have hsub := callbacks_sublist log
    rw [← hcbs] at hsub
    refine ⟨⟨log, hfires, hcbs, hfires.due⟩, fun x hx => ?_⟩
    obtain ⟨hcount, hflag⟩ := hfires.once hx
    refine ⟨(hsub.count_le x).trans hcount, fun f hf t hl => ?_⟩
    have hfirst : x ∈ (listExpiredCb clk s.tm).cbs.map Prod.fst := List.mem_map_of_mem hf
    have hsilenced : Silenced x ((manager Cb).next s (.listExpiredCb clk)) := by
      constructor
      · show x < (listExpiredCb clk s.tm).tm.allocated
        rw [listExpiredCb_eq, advanceWheel_allocated]
        exact allocated_of_emitted (reach_wellFormed h) he.2.1 hf
      · exact hflag (hsub.subset hfirst)
    have hlater := hsilenced.later hl
    refine ⟨fun clk' g => hlater.quiet clk' g, ?_⟩
    unfold TimerManager.cancel
    rw [if_pos hlater.2]
  · intro x he t hl clk g
    have hsilenced : Silenced x ((manager Cb).next s (.cancel x)) := by
      constructor
      · show x < (s.tm.cancel x).1.allocated
        rw [cancel_allocated]
        exact he
      · exact cancel_silences
    exact (hsilenced.later hl).quiet clk g

/-- A timer of 100 ms, added at 1000 and fired at 1110: `cancel` comes too late. -/
theorem timers_on_time_fired :
    (0, ()) ∈ (listExpiredCb (fun _ => 1110) (oneTimer 100).tm).cbs ∧
      ((listExpiredCb (fun _ => 1110) (oneTimer 100).tm).tm.cancel 0).2 = false := by
  have hclk : (manager Unit).enabled (oneTimer 100) (.listExpiredCb fun _ => 1110) :=
    ⟨by decide, monotone_const, fun _ => show 1110 < 2 ^ 64 by decide⟩
  have hfired : (0, ()) ∈ (listExpiredCb (fun _ => 1110) (oneTimer 100).tm).cbs := by
    decide +kernel
  obtain ⟨hpass, -⟩ := timers_on_time (oneTimer_reach 100)
  have hlater := ((hpass _ hclk).2 0 rfl).2 () hfired _ .refl
  exact ⟨hfired, hlater.2⟩

end PulsarRuntime.Timers
