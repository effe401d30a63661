import PulsarRuntime.Timer.Runs

/-!
# `Timer::cancel` against a running pass, access by access

`Timer::cancel` exchanges `cancelled_` before it takes the manager's lock, so the exchange can
fall between any two accesses a pass makes to the same flag.  Here a pass is a program of small
steps: every load and every store of a flag is a step of its own, and `advance` takes the next
one.  `addTimer`, the beginning of a pass and the critical section of `cancel` need the lock and
wait for the pass to end; the exchange does not.

A pass that is left alone computes `listExpiredCb` (`advance_listExpiredCb`).
-/

namespace PulsarRuntime.Timers

open TimerManager Pass

/-- The expiry loop a timer is handled in, with what the loop has still to do: over a wheel-0
slot (and the slots after it), or over `timers_`. -/
inductive Loop where
  | slot (i : Fin 256) (todo remaining : List ℕ) (later : List (Fin 256))
  | tree
  deriving DecidableEq

/-- Where a pass stands between two accesses to a flag. -/
inductive Stage where
  | idle
  | sweep (slots : List (Fin 256))
  /-- At the head of an expiry loop. -/
  | expiry (l : Loop)
  /-- Erased from `timers_`, flag not yet loaded. -/
  | popped (id : ℕ)
  /-- The flag was loaded as false. -/
  | live (id : ℕ) (l : Loop)
  /-- The callback has been copied; the flag is about to be written. -/
  | emitted (id : ℕ) (l : Loop)
  | cascade (slots : List Bucket)
  | toInsert (slots : List Bucket) (todo : List ℕ)
  /-- The flag was loaded as false; the timer is about to be inserted anew. -/
  | moving (slots : List Bucket) (id : ℕ) (todo : List ℕ)
  deriving DecidableEq

/-- A call of `Timer::cancel`. -/
inductive CancelPc where
  | called
  /-- The exchange found the flag down. -/
  | exchanged
  | returned (result : Bool)
  deriving DecidableEq

structure Cancel where
  id : ℕ
  pc : CancelPc
  deriving DecidableEq

structure Race (Cb : Type) where
  /-- The locals of the running pass (of the last one while none runs), the manager among them. -/
  pass : Pass Cb
  /-- The clock readings of the running pass. -/
  clk : ℕ → ℕ
  stage : Stage
  /-- What the passes before this one have emitted. -/
  past : List (ℕ × Cb)
  cancels : ℕ → Cancel
  count : ℕ

variable {Cb : Type}

/-- The expiry body up to the store of the flag. -/
def Pass.emit (now : ℕ) (p : Pass Cb) (id : ℕ) : Pass Cb :=
  let t := p.tm.heap id
  let p := { p with cbs := p.cbs ++ (t.cb.map fun f => (id, f)).toList }
  if t.recurring then
    { p with tm := p.tm.setTimer id { t with next := (now + t.ms) % 2 ^ 64 } }
  else { p with tm := p.tm.setTimer id { t with cb := none } }

/-- The expiry body from the store of the flag on. -/
def Pass.storeFlag (clk : ℕ → ℕ) (p : Pass Cb) (id : ℕ) : Pass Cb :=
  let t := p.tm.heap id
  if t.recurring then
    reinsert clk { p with tm := p.tm.setTimer id { t with cancelled := false } } id
  else { p with tm := p.tm.setTimer id { t with cancelled := true } }

namespace Race

variable (s : Race Cb)

/-- Everything emitted so far, by any pass. -/
def emitted : List (ℕ × Cb) := s.past ++ s.pass.cbs

def goto (p : Pass Cb) (stage : Stage) : Race Cb :=
  { s with pass := p, stage := stage }

/-- `timer->cancelled_.load()`. -/
def load (id : ℕ) (dead live : Stage) : Race Cb :=
  s.goto s.pass (if (s.pass.tm.heap id).cancelled then dead else live)

/-- The end of `advanceWheel`. -/
def finish : Race Cb :=
  let p := s.pass
  s.goto
    { p with tm := { p.tm with earliestNext := countTree p }, nextEarliest := countTree p } .idle

/-- The next step of the running pass. -/
def advance : Race Cb :=
  let p := s.pass
  match s.stage with
  | .idle => s
  | .sweep [] => s.goto p (.cascade upper)
  | .sweep (i :: later) =>
    match p.tm.store (.wheel0 i) with
    | [] => s.goto p (.sweep later)
    | slot => s.goto p (.expiry (.slot i slot [] later))
  | .expiry (.slot i [] remaining later) =>
    s.goto { p with tm := p.tm.setBucket (.wheel0 i) remaining } (.sweep later)
  | .expiry (.slot i (id :: todo) remaining later) =>
    s.load id (.expiry (.slot i todo remaining later)) (.live id (.slot i todo remaining later))
  | .live id (.slot i todo remaining later) =>
    if (p.tm.heap id).next ≤ s.clk 0 then
      s.goto (p.emit (s.clk 0) id) (.emitted id (.slot i todo remaining later))
    else
      s.goto { p with nextEarliest := min (p.tm.heap id).next p.nextEarliest }
        (.expiry (.slot i todo (remaining ++ [id]) later))
  | .live id .tree => s.goto (p.emit (s.clk 0) id) (.emitted id .tree)
  | .emitted id l => s.goto (p.storeFlag s.clk id) (.expiry l)
  | .cascade [] => s.goto p (.expiry .tree)
  | .cascade (b :: slots) =>
    match p.tm.store b with
    | [] => s.goto p (.cascade slots)
    | ids => s.goto { p with tm := p.tm.setBucket b [] } (.toInsert slots ids)
  | .toInsert slots [] => s.goto p (.cascade slots)
  | .toInsert slots (id :: todo) => s.load id (.toInsert slots todo) (.moving slots id todo)
  | .moving slots id todo => s.goto (reinsert s.clk p id) (.toInsert slots todo)
  | .expiry .tree =>
    match p.tm.store .tree with
    | [] => s.finish
    | id :: rest =>
      if (p.tm.heap id).next ≤ s.clk 0 then
        s.goto { p with tm := p.tm.setBucket .tree rest } (.popped id)
      else s.finish
  | .popped id => s.load id (.expiry .tree) (.live id .tree)

/-- `listExpiredCb` takes the lock and reads the clock. -/
def start (clk : ℕ → ℕ) (s : Race Cb) : Race Cb :=
  { s with
    pass := ⟨{ s.pass.tm with previouseTime := clk 0 }, 1, [], noTimer⟩
    clk := clk
    stage := .sweep (List.finRange 256)
    past := s.emitted }

def addTimer (ms : ℕ) (cb : Option Cb) (recurring : Bool) (created inserted : ℕ) (s : Race Cb) :
    Race Cb :=
  { s with pass.tm := (s.pass.tm.addTimer ms cb recurring created inserted).1 }

def setCancel (k : ℕ) (c : Cancel) (s : Race Cb) : Race Cb :=
  { s with cancels := Function.update s.cancels k c }

/-- `timer->cancel()` is called. -/
def call (id : ℕ) (s : Race Cb) : Race Cb :=
  { s.setCancel s.count ⟨id, .called⟩ with count := s.count + 1 }

/-- `cancelled_.exchange(true)`. -/
def exchange (k : ℕ) (s : Race Cb) : Race Cb :=
  let id := (s.cancels k).id
  let t := s.pass.tm.heap id
  if t.cancelled then s.setCancel k ⟨id, .returned false⟩
  else { s.setCancel k ⟨id, .exchanged⟩ with
    pass.tm := s.pass.tm.setTimer id { t with cancelled := true } }

/-- The critical section of `cancel`. -/
def clear (k : ℕ) (s : Race Cb) : Race Cb :=
  let id := (s.cancels k).id
  { s.setCancel k ⟨id, .returned true⟩ with
    pass.tm := s.pass.tm.setTimer id { s.pass.tm.heap id with cb := none } }

end Race

inductive RaceStep (Cb : Type) where
  | addTimer (ms : ℕ) (cb : Option Cb) (recurring : Bool) (created inserted : ℕ)
  | start (clk : ℕ → ℕ)
  | advance
  | call (id : ℕ)
  | exchange (k : ℕ)
  | clear (k : ℕ)

/-- Any number of `cancel` calls against any number of passes, at any clock readings. -/
def race (Cb : Type) : Machine (Race Cb) (RaceStep Cb) where
  init s := (∃ now, s.pass = ⟨create now, 0, [], noTimer⟩) ∧ s.stage = .idle ∧ s.past = [] ∧
    s.count = 0
  enabled s
    | .addTimer .. | .start _ => s.stage = .idle
    | .advance => s.stage ≠ .idle
    | .call id => id < s.pass.tm.allocated
    | .exchange k => k < s.count ∧ (s.cancels k).pc = .called
    | .clear k => k < s.count ∧ (s.cancels k).pc = .exchanged ∧ s.stage = .idle
  next s
    | .addTimer ms cb recurring created inserted => s.addTimer ms cb recurring created inserted
    | .start clk => s.start clk
    | .advance => s.advance
    | .call id => s.call id
    | .exchange k => s.exchange k
    | .clear k => s.clear k

instance (s : Race Cb) (a : RaceStep Cb) : Decidable ((race Cb).enabled s a) := by
  rcases a <;> (dsimp only [race]; infer_instance)

/-! ### A pass that is left alone -/

theorem fire_eq (clk : ℕ → ℕ) (now : ℕ) (p : Pass Cb) (id : ℕ) :
    (p.emit now id).storeFlag clk id = fire clk now p id := by
  by_cases hr : (p.tm.heap id).recurring = true
  · simp [emit, storeFlag, fire, setTimer, Timer.rearmed, hr]
  · simp [emit, storeFlag, fire, setTimer, Timer.expired, hr]

namespace Race

/-- `t` is reached from `s` by steps of the running pass alone. -/
def Runs : Race Cb → Race Cb → Prop := (race Cb).Later fun _ a => a = .advance

theorem Runs.one {s t : Race Cb} (hs : s.stage ≠ .idle) (ht : s.advance = t) : Runs s t :=
  .single ⟨.advance, hs, rfl, ht.symm⟩

theorem Runs.trans {s t u : Race Cb} (h : Runs s t) (h' : Runs t u) : Runs s u :=
  Relation.ReflTransGen.trans h h'

variable (s : Race Cb)

theorem Runs.expire (p : Pass Cb) (id : ℕ) (l : Loop) :
    Runs (s.goto (p.emit (s.clk 0) id) (.emitted id l))
      (s.goto (fire s.clk (s.clk 0) p id) (.expiry l)) :=
  .one (by simp [goto]) (by simp [advance, goto, fire_eq])

theorem Runs.visit (i : Fin 256) (id : ℕ) (todo remaining : List ℕ) (later : List (Fin 256))
    (p : Pass Cb) :
    Runs (s.goto p (.expiry (.slot i (id :: todo) remaining later)))
      (s.goto (Pass.visit s.clk (s.clk 0) (p, remaining) id).1
        (.expiry (.slot i todo (Pass.visit s.clk (s.clk 0) (p, remaining) id).2 later))) := by
  by_cases hc : (p.tm.heap id).cancelled = true
  · exact .one (by simp [goto]) (by simp [advance, goto, load, Pass.visit, hc])
  have hload : Runs (s.goto p (.expiry (.slot i (id :: todo) remaining later)))
      (s.goto p (.live id (.slot i todo remaining later))) :=
    .one (by simp [goto]) (by simp [advance, goto, load, hc])
  apply hload.trans
  by_cases hdue : (p.tm.heap id).next ≤ s.clk 0
  · have hemit : Runs (s.goto p (.live id (.slot i todo remaining later)))
        (s.goto (p.emit (s.clk 0) id) (.emitted id (.slot i todo remaining later))) :=
      .one (by simp [goto]) (by simp [advance, goto, hdue])
    simpa [Pass.visit, hc, hdue] using hemit.trans (Runs.expire s p id _)
  · exact .one (by simp [goto]) (by simp [advance, goto, Pass.visit, hc, hdue])

theorem Runs.visits (i : Fin 256) (todo remaining : List ℕ) (later : List (Fin 256))
    (p : Pass Cb) :
    Runs (s.goto p (.expiry (.slot i todo remaining later)))
      (s.goto (todo.foldl (Pass.visit s.clk (s.clk 0)) (p, remaining)).1
        (.expiry (.slot i [] (todo.foldl (Pass.visit s.clk (s.clk 0)) (p, remaining)).2
          later))) := by
  induction todo generalizing p remaining with
  | nil => exact .refl
  | cons id todo ih => exact (Runs.visit s i id todo remaining later p).trans (ih _ _)

theorem Runs.sweepSlot (i : Fin 256) (later : List (Fin 256)) (p : Pass Cb) :
    Runs (s.goto p (.sweep (i :: later)))
      (s.goto (Pass.sweepSlot s.clk (s.clk 0) p i) (.sweep later)) := by
  cases hslot : p.tm.store (.wheel0 i) with
  | nil => exact .one (by simp [goto]) (by simp [advance, goto, Pass.sweepSlot, hslot])
  | cons id todo =>
    have henter : Runs (s.goto p (.sweep (i :: later)))
        (s.goto p (.expiry (.slot i (id :: todo) [] later))) :=
      .one (by simp [goto]) (by simp [advance, goto, hslot])
    apply henter.trans
    apply (Runs.visits s i (id :: todo) [] later p).trans
    exact .one (by simp [goto]) (by simp [advance, goto, Pass.sweepSlot, hslot])

theorem Runs.sweep (slots : List (Fin 256)) (p : Pass Cb) :
    Runs (s.goto p (.sweep slots))
      (s.goto (slots.foldl (Pass.sweepSlot s.clk (s.clk 0)) p) (.cascade upper)) := by
  induction slots generalizing p with
  | nil => exact .one (by simp [goto]) (by simp [advance, goto])
  | cons i later ih => exact (Runs.sweepSlot s i later p).trans (ih _)

theorem Runs.inserts (slots : List Bucket) (todo : List ℕ) (p : Pass Cb) :
    Runs (s.goto p (.toInsert slots todo))
      (s.goto (todo.foldl (cascadeOne s.clk) p) (.cascade slots)) := by
  induction todo generalizing p with
  | nil => exact .one (by simp [goto]) (by simp [advance, goto])
  | cons id todo ih =>
    by_cases hc : (p.tm.heap id).cancelled = true
    · have hskip : Runs (s.goto p (.toInsert slots (id :: todo)))
          (s.goto p (.toInsert slots todo)) :=
        .one (by simp [goto]) (by simp [advance, goto, load, hc])
      simpa [cascadeOne, hc] using hskip.trans (ih p)
    · have hload : Runs (s.goto p (.toInsert slots (id :: todo)))
          (s.goto p (.moving slots id todo)) :=
        .one (by simp [goto]) (by simp [advance, goto, load, hc])
      have hmove : Runs (s.goto p (.moving slots id todo))
          (s.goto (reinsert s.clk p id) (.toInsert slots todo)) :=
        .one (by simp [goto]) (by simp [advance, goto])
      simpa [cascadeOne, hc] using (hload.trans hmove).trans (ih (reinsert s.clk p id))

theorem Runs.cascade (slots : List Bucket) (p : Pass Cb) :
    Runs (s.goto p (.cascade slots))
      (s.goto (slots.foldl (cascadeSlot s.clk) p) (.expiry .tree)) := by
  induction slots generalizing p with
  | nil => exact .one (by simp [goto]) (by simp [advance, goto])
  | cons b slots ih =>
    refine Runs.trans ?_ (ih (cascadeSlot s.clk p b))
    cases hslot : p.tm.store b with
    | nil => exact .one (by simp [goto]) (by simp [advance, goto, cascadeSlot, hslot])
    | cons id todo =>
      have hswap : Runs (s.goto p (.cascade (b :: slots)))
          (s.goto { p with tm := p.tm.setBucket b [] } (.toInsert slots (id :: todo))) :=
        .one (by simp [goto]) (by simp [advance, goto, hslot])
      simpa only [cascadeSlot, hslot] using hswap.trans (Runs.inserts s slots (id :: todo) _)

theorem Runs.drainOne (p : Pass Cb) {id : ℕ} {rest : List ℕ}
    (ht : p.tm.store .tree = id :: rest) (hdue : (p.tm.heap id).next ≤ s.clk 0) :
    Runs (s.goto p (.expiry .tree))
      (s.goto (Pass.drainOne s.clk (s.clk 0) p id rest) (.expiry .tree)) := by
  have hpop : Runs (s.goto p (.expiry .tree))
      (s.goto { p with tm := p.tm.setBucket .tree rest } (.popped id)) :=
    .one (by simp [goto]) (by simp [advance, goto, ht, hdue])
  apply hpop.trans
  by_cases hc : (p.tm.heap id).cancelled = true
  · exact .one (by simp [goto]) (by simp [advance, goto, load, Pass.drainOne, hc])
  · have hload : Runs (s.goto { p with tm := p.tm.setBucket .tree rest } (.popped id))
        (s.goto { p with tm := p.tm.setBucket .tree rest } (.live id .tree)) :=
      .one (by simp [goto]) (by simp [advance, goto, load, hc])
    have hemit : Runs (s.goto { p with tm := p.tm.setBucket .tree rest } (.live id .tree))
        (s.goto (Pass.emit (s.clk 0) { p with tm := p.tm.setBucket .tree rest } id)
          (.emitted id .tree)) :=
      .one (by simp [goto]) (by simp [advance, goto])
    simpa [Pass.drainOne, hc] using (hload.trans hemit).trans (Runs.expire s _ id .tree)

theorem Runs.drainTree (fuel : ℕ) (p : Pass Cb) :
    Runs (s.goto p (.expiry .tree))
      (s.goto (Pass.drainTree s.clk (s.clk 0) fuel p) (.expiry .tree)) := by
  induction fuel generalizing p with
  | zero => exact .refl
  | succ fuel ih =>
    cases ht : p.tm.store .tree with
    | nil =>
      rw [drainTree_stop s.clk (s.clk 0) p _ (by simp [ht])]
      exact .refl
    | cons id rest =>
      by_cases hdue : (p.tm.heap id).next ≤ s.clk 0
      · rw [drainTree_step s.clk (s.clk 0) p fuel ht hdue]
        exact (Runs.drainOne s p ht hdue).trans (ih _)
      · have hlater : ∀ id' rest', p.tm.store .tree = id' :: rest' →
            s.clk 0 < (p.tm.heap id').next := by
          intro id' rest' h
          obtain ⟨rfl, rfl⟩ := List.cons.inj (ht.symm.trans h)
          exact Nat.lt_of_not_le hdue
        rw [drainTree_stop s.clk (s.clk 0) p _ hlater]
        exact .refl

/-- The last loop has nothing due in front of it, so the pass ends. -/
theorem Runs.finish (p : Pass Cb) (h : ∀ x ∈ p.tm.store .tree, s.clk 0 < (p.tm.heap x).next) :
    Runs (s.goto p (.expiry .tree)) (s.goto p (.expiry .tree)).finish := by
  apply Runs.one (by simp [goto])
  cases ht : p.tm.store .tree with
  | nil => simp [advance, goto, ht]
  | cons id rest =>
    have hlater := h id (by simp [ht])
    simp [advance, goto, ht, Nat.not_le.mpr hlater]

/-- A pass that no exchange interferes with does what `listExpiredCb` does. -/
theorem advance_listExpiredCb {clk : ℕ → ℕ} (h : Tidy s.pass.tm) (hclk : Monotone clk) :
    Runs (s.start clk) ((s.start clk).goto (listExpiredCb clk s.pass.tm) .idle) := by
  rw [listExpiredCb_eq, advanceWheel_eq]
  have htidy := h.noted (clk 0)
  have hstart : s.start clk = (s.start clk).goto
      ⟨{ s.pass.tm with previouseTime := clk 0 }, 1, [], noTimer⟩
      (.sweep (List.finRange 256)) := rfl
  have hnow : (s.start clk).clk = clk := rfl
  generalize ({ s.pass.tm with previouseTime := clk 0 } : TimerManager Cb) = tm at htidy hstart
  generalize s.start clk = t at hstart hnow
  subst hnow
  have hsweep : Runs t (t.goto (swept t.clk tm) (.cascade upper)) := by
    rw [swept, Pass.sweep]
    nth_rewrite 1 [hstart]
    exact Runs.sweep t (List.finRange 256) _
  have hcascade : Runs _ (t.goto (cascaded t.clk tm) (.expiry .tree)) :=
    Runs.cascade t upper (swept t.clk tm)
  have hdrain : Runs _ (t.goto (drained t.clk tm) (.expiry .tree)) :=
    Runs.drainTree t ((cascaded t.clk tm).tm.store .tree).length (cascaded t.clk tm)
  have hdone := drainTree_done t.clk (t.clk 0) ((cascaded t.clk tm).tm.store .tree).length
    (cascaded t.clk tm) (cascaded_tidy t.clk htidy) (fun k => hclk (Nat.zero_le k))
    List.countP_le_length
  rw [← drained] at hdone
  have hfinish := Runs.finish t (drained t.clk tm) hdone
  generalize drained t.clk tm = last at hdrain hfinish
  exact ((hsweep.trans hcascade).trans hdrain).trans hfinish

/-- A pass 10 ms after the deadline of the only timer. -/
theorem advance_listExpiredCb_short :
    let s : Race Unit := ⟨⟨(oneTimer 100).tm, 1, [], noTimer⟩, fun _ => 0, .idle, [],
      fun _ => ⟨0, .called⟩, 0⟩
    ∃ t, Runs (s.start fun _ => 1110) t ∧ t.stage = .idle ∧ t.pass.cbs = [(0, ())] := by
  intro s
  exact ⟨_, advance_listExpiredCb s (reach_wellFormed (oneTimer_reach 100)).toTidy monotone_const,
    rfl, by decide +kernel⟩

end Race

end PulsarRuntime.Timers
