import PulsarRuntime.Fiber.Chain

/-!
# Nested switching

While the program of a thread runs, the RUNNING Fibers are those on the chain and `cur_fiber` is its
first; the histories fit, so that each `resume` leaves `cur_fiber` as it was and rethrows exactly
what was thrown in it.

The invariant has two forms, `User` while the program runs and `Landing` while a `resume` is about
to go on: then the Fiber that has switched is not RUNNING any more, but still on top of `nest`.
-/

namespace PulsarRuntime.Fibers

namespace Strand

variable {t : ℕ} {s : Strand}

/-- The program runs. -/
structure User (t : ℕ) (s : Strand) : Prop where
  back : s.back = none
  discipline : Discipline s.process.fibers s.process.curFiberId (s.thread t).curThreadFiber
    (s.thread t).nest (s.thread t).chain
  records : Records s.calls s.active s.before s.rethrown (s.thread t).nest
  cur : (s.thread t).curFiber = (s.thread t).chain.head?
  quiet : ∀ f < s.process.curFiberId, (s.process.fibers f).exception = none
  rethrown : s.thrown = s.rethrown

/-- Call `call` of `resume` goes on next; Fiber `f` has switched. -/
structure Landing (t : ℕ) (s : Strand) (f caller call : ℕ) (rest : List (ℕ × ℕ))
    (active : List ℕ) : Prop where
  back : s.back ≠ none
  nest : (s.thread t).nest = (f, caller) :: rest
  calls : s.active = call :: active
  discipline : Discipline s.process.fibers s.process.curFiberId (s.thread t).curThreadFiber
    ((f, caller) :: rest) (chainOf (s.thread t).curThreadFiber rest)
  records : Records s.calls (call :: active) s.before s.rethrown ((f, caller) :: rest)
  released : (s.process.fibers f).callerContext = false
  quiet : ∀ g < s.process.curFiberId, g ≠ f → (s.process.fibers g).exception = none
  ended : (s.process.fibers f).exception ≠ none → (s.process.fibers f).state = .term
  rethrown : s.thrown = s.rethrown ++
    ((s.process.fibers f).exception.map fun e => ⟨call, f, e⟩).toList

def Inv (t : ℕ) (s : Strand) : Prop :=
  s.process.panicked = true ∨ User t s ∨
    ∃ f caller call rest active, Landing t s f caller call rest active

theorem inv_fail (h : Inv t s) (e : Failure) : Inv t { s with process := s.process.fail e } := by
  cases e with
  | panic err => exact .inl rfl
  | _ => exact h

/-! ### Steps that do not switch -/

/-- Nothing happens that the discipline is about, and new Fibers have no part in it. -/
structure Calm (t : ℕ) (p q : Process) : Prop where
  cur : (q.threads t).curFiber = (p.threads t).curFiber
  main : (q.threads t).curThreadFiber = (p.threads t).curThreadFiber
  nest : (q.threads t).nest = (p.threads t).nest
  count : p.curFiberId ≤ q.curFiberId
  old : ∀ f < p.curFiberId, (p.fibers f).Calm (q.fibers f)
  new : ∀ f, p.curFiberId ≤ f → f < q.curFiberId →
    (q.fibers f).Part False False False ∧ (q.fibers f).exception = none

namespace Calm

variable {p q : Process}

theorem refl (p : Process) : Calm t p p :=
  ⟨rfl, rfl, rfl, le_rfl, fun _ _ => .refl _, fun _ hle hlt => absurd hlt (Nat.not_lt.mpr hle)⟩

/-- One Fiber changes. -/
theorem update (h : Calm t p q) {f : ℕ} {x : Fiber} (hx : (q.fibers f).Calm x) {r : Process}
    (hthreads : r.threads = q.threads) (hcount : r.curFiberId = q.curFiberId)
    (hfibers : r.fibers = Function.update q.fibers f x) : Calm t p r := by
  have hcalm : ∀ g, (q.fibers g).Calm (r.fibers g) := by
    intro g
    rw [hfibers]
    by_cases hg : g = f
    · subst hg
      rw [Function.update_self]
      exact hx
    · rw [Function.update_of_ne hg]
      exact .refl _
  refine ⟨?_, ?_, ?_, ?_, fun g hg => (h.old g hg).trans (hcalm g), fun g hle hlt => ?_⟩
  · rw [hthreads]
    exact h.cur
  · rw [hthreads]
    exact h.main
  · rw [hthreads]
    exact h.nest
  · rw [hcount]
    exact h.count
  · obtain ⟨hpart, hquiet⟩ := h.new g hle (hcount ▸ hlt)
    exact ⟨hpart.calm (hcalm g), (hcalm g).exception hquiet⟩

/-- A Fiber is added that does not run. -/
theorem add {x : Fiber} (hpart : x.Part False False False) (hquiet : x.exception = none)
    (hthreads : q.threads = p.threads) (hcount : q.curFiberId = p.curFiberId + 1)
    (hfibers : q.fibers = Function.update p.fibers p.curFiberId x) : Calm t p q := by
  refine ⟨?_, ?_, ?_, ?_, fun f hf => ?_, fun f hle hlt => ?_⟩
  · rw [hthreads]
  · rw [hthreads]
  · rw [hthreads]
  · omega
  · rw [hfibers, Function.update_of_ne (Nat.ne_of_lt hf)]
    exact .refl _
  · obtain rfl : f = p.curFiberId := by omega
    rw [hfibers, Function.update_self]
    exact ⟨hpart, hquiet⟩

theorem construct (c : Construction) : Calm t p (p.construct c).2 := by
  have hobject : c.object.Part False False False := .none nofun rfl rfl rfl
  simp only [Process.construct]
  split
  · exact add hobject rfl rfl rfl rfl
  · split
    · exact add hobject rfl rfl rfl rfl
    · split
      · exact add hobject rfl rfl rfl rfl
      · rename_i x hx
        have hpart : x.Part False False False ∧ x.exception = none := by
          rw [Construction.build_ok hx]
          exact ⟨.none (fun hrunning => by cases hrunning) rfl rfl rfl, rfl⟩
        refine add hpart.1 hpart.2 rfl rfl ?_
        exact Function.update_idem ..

theorem releaseStack (h : Calm t p q) (f : ℕ) :
    Calm t p (q.releaseStack f) ∨ (q.releaseStack f).panicked = true := by
  have hsame : (q.fibers f).Calm
      { q.fibers f with stackBlock := none, stackAllocator := none, stackSize := 0 } :=
    ⟨Iff.rfl, rfl, rfl, rfl, id⟩
  simp only [Process.releaseStack]
  split
  · exact .inl (h.update hsame rfl rfl rfl)
  · split
    · exact .inr rfl
    · exact .inl (h.update hsame rfl rfl rfl)

theorem destroy {f : ℕ} (hmain : (p.fibers f).isMainFiber = false) :
    Calm t p (p.destroy t f) ∨ (p.destroy t f).panicked = true := by
  have hcount : Calm t p { p with fiberCount := p.fiberCount - 1 } :=
    ⟨rfl, rfl, rfl, le_rfl, fun _ _ => .refl _, fun _ hle hlt => absurd hlt (Nat.not_lt.mpr hle)⟩
  simp only [Process.destroy, if_pos hmain]
  split
  · exact .inr rfl
  · refine (hcount.releaseStack f).imp (fun h => ?_) id
    exact h.update (x := { (Process.releaseStack _ f).fibers f with live := false })
      ⟨Iff.rfl, rfl, rfl, rfl, id⟩ rfl rfl rfl

theorem reset (f cb : ℕ) (error : Option ℕ) :
    Calm t p (p.reset f cb error).2 ∨ (p.reset f cb error).2.panicked = true := by
  simp only [Process.reset]
  split
  · rename_i e _
    cases e with
    | panic err => exact .inr rfl
    | _ => exact .inl (refl p)
  · rename_i x hx
    have hreset := Fiber.reset_ok hx
    rw [hreset.reset] at hx
    cases error with
    | some e => cases hx
    | none =>
      cases hx
      have hsame : (p.fibers f).Calm { p.fibers f with
          cb := some cb, exception := none, context := some .entry, state := .ready } := by
        refine ⟨?_, rfl, rfl, rfl, fun _ => rfl⟩
        rw [hreset.term]
        exact iff_of_false (by simp) (by simp)
      exact .inl ((refl p).update hsame rfl rfl rfl)

end Calm

theorem User.calm (h : User t s) {q : Process} (hc : Calm t s.process q) :
    User t { s with process := q } := by
  obtain ⟨hback, hd, hr, hcur, hquiet, hrethrown⟩ := h
  refine ⟨hback, ?_, ?_, ?_, fun f hf => ?_, hrethrown⟩
  · show Discipline q.fibers q.curFiberId (q.threads t).curThreadFiber (q.threads t).nest
      (q.threads t).chain
    rw [Thread.chain, hc.main, hc.nest]
    exact hd.calm hc.count hc.old fun f hge hlt => (hc.new f hge hlt).1
  · show Records s.calls s.active s.before s.rethrown (q.threads t).nest
    rw [hc.nest]
    exact hr
  · show (q.threads t).curFiber = (q.threads t).chain.head?
    rw [Thread.chain, hc.cur, hc.main, hc.nest]
    exact hcur
  · rcases Nat.lt_or_ge f s.process.curFiberId with hlt | hge
    · exact (hc.old f hlt).exception (hquiet f hlt)
    · exact (hc.new f hge hf).2

/-- Without a current Fiber there is no chain. -/
theorem User.empty (h : User t s) (hcur : (s.thread t).curFiber = none) :
    (s.thread t).curThreadFiber = none ∧ (s.thread t).nest = [] := by
  have hhead := h.cur
  rw [hcur] at hhead
  have hempty : (s.thread t).chain = [] := List.head?_eq_none_iff.mp hhead.symm
  obtain ⟨hmap, hlist⟩ := List.append_eq_nil_iff.mp hempty
  refine ⟨?_, List.map_eq_nil_iff.mp hmap⟩
  cases hm : (s.thread t).curThreadFiber with
  | none => rfl
  | some m =>
    rw [hm] at hlist
    cases hlist

theorem User.getThis (h : User t s) : User t { s with process := s.process.getThis t } := by
  cases hcur : (s.process.threads t).curFiber with
  | some f =>
    simp only [Process.getThis, hcur]
    exact h
  | none =>
    obtain ⟨hmain, hnest⟩ := h.empty hcur
    have hd := h.discipline
    have hr := h.records
    rw [Thread.chain, hmain, hnest] at hd
    rw [hnest] at hr
    have hthread : (s.process.getThis t).threads t = { s.thread t with
        curFiber := some s.process.curFiberId
        curThreadFiber := some s.process.curFiberId } := by
      simp only [Process.getThis, hcur]
      exact Function.update_self ..
    have hfibers : (s.process.getThis t).fibers =
        Function.update s.process.fibers s.process.curFiberId Fiber.main := by
      simp only [Process.getThis, hcur]
      rfl
    have hcount : (s.process.getThis t).curFiberId = s.process.curFiberId + 1 := by
      simp only [Process.getThis, hcur]
      rfl
    refine ⟨h.back, ?_, ?_, ?_, ?_, h.rethrown⟩
    · show Discipline (s.process.getThis t).fibers (s.process.getThis t).curFiberId
        ((s.process.getThis t).threads t).curThreadFiber ((s.process.getThis t).threads t).nest
        ((s.process.getThis t).threads t).chain
      rw [hfibers, hcount, hthread, Thread.chain]
      dsimp only
      rw [hnest]
      exact hd.start
    · show Records s.calls s.active s.before s.rethrown ((s.process.getThis t).threads t).nest
      rw [hthread]
      dsimp only
      rw [hnest]
      exact hr
    · show ((s.process.getThis t).threads t).curFiber = _
      rw [thread, hthread, Thread.chain]
      dsimp only
      rw [hnest]
      rfl
    · show ∀ f < (s.process.getThis t).curFiberId, _
      rw [hfibers, hcount]
      exact Family.forall_add (P := fun _ (x : Fiber) => x.exception = none) h.quiet rfl

theorem User.plain (h : User t s) {a : Process.Action} (ha : Plain t a)
    (he : Fibers.process.enabled s.process a) :
    Inv t { s with process := Fibers.process.next s.process a } := by
  cases a with
  | getThis u =>
    obtain rfl : u = t := ha
    exact .inr (.inl h.getThis)
  | construct c => exact .inr (.inl (h.calm (.construct c)))
  | reset f cb error =>
    rcases Calm.reset (p := s.process) f cb error with hc | hp
    · exact .inr (.inl (h.calm hc))
    · exact .inl hp
  | destroy u f =>
    obtain rfl : u = t := ha
    obtain ⟨-, hf, -, hmain⟩ := he
    have hnot : (s.process.fibers f).isMainFiber = false := by
      rw [Bool.eq_false_iff]
      intro hm
      rw [hm] at hmain
      exact hmain ((h.discipline.part f hf).main.mp hm)
    rcases Calm.destroy hnot with hc | hp
    · exact .inr (.inl (h.calm hc))
    · exact .inl hp
  | setSchedulerFiber u f =>
    obtain rfl : u = t := ha
    have hthread : (Fibers.process.next s.process (.setSchedulerFiber u f)).threads u =
        { s.process.threads u with curSchedulerFiber := f } := Function.update_self ..
    refine .inr (.inl (h.calm ⟨?_, ?_, ?_, le_rfl, fun _ _ => .refl _, ?_⟩))
    · rw [hthread]
    · rw [hthread]
    · rw [hthread]
    · exact fun _ hle hlt => absurd hlt (Nat.not_lt.mpr hle)
  | resume u f => exact absurd ha id
  | yield u => exact absurd ha id
  | finish u exit => exact absurd ha id
  | exit u => exact absurd ha id

/-! ### Switches -/

theorem setThread_threads_self (p : Process) (th : Thread) : (p.setThread t th).threads t = th :=
  Function.update_self ..

theorem switchBack_thrown (s : Strand) (f : ℕ) (x : Fiber) (context : Option Context) :
    (s.switchBack t f x context).thrown = s.thrown := by
  simp only [Strand.switchBack]
  split <;> rfl

theorem User.resume (h : User t s) {f : ℕ} (hf : f < s.process.curFiberId) :
    Inv t (s.resume t f) := by
  have hinv : Inv t s := .inr (.inl h)
  cases hx : (s.process.fibers f).resume with
  | error e =>
    simp only [Strand.resume, Process.resume, hx]
    exact inv_fail hinv e
  | ok x =>
    cases hcur : (s.process.threads t).curFiber with
    | none =>
      simp only [Strand.resume, Process.resume, hx, thread, hcur]
      exact .inl rfl
    | some caller =>
      have hhead : (s.thread t).chain.head? = some caller := h.cur.symm.trans hcur
      simp only [Strand.resume, Process.resume, hx, thread, hcur]
      refine .inr (.inl ?_)
      refine ⟨h.back, ?_, ?_, ?_, ?_, h.rethrown⟩
      · simp only [thread, setThread_threads_self]
        exact h.discipline.push hf hx hhead
      · simp only [thread, setThread_threads_self]
        exact h.records.push
      · simp only [thread, setThread_threads_self]
        rfl
      · apply Family.forall_update (P := fun _ (x : Fiber) => x.exception = none) h.quiet
        rw [(Fiber.resume_ok hx).2]
        exact h.quiet f hf

variable {rest : List (ℕ × ℕ)}

/-- The innermost Fiber, RUNNING, switches back, with the exception `e` if it has ended. -/
theorem User.switchBack (h : User t s) {f caller : ℕ}
    (hnest : (s.thread t).nest = (f, caller) :: rest) {x : Fiber} (hstate : x.state ≠ .running)
    (hflag : x.resumeInProgress = (s.process.fibers f).resumeInProgress)
    (hcaller : x.callerContext = false)
    (hmain : x.isMainFiber = (s.process.fibers f).isMainFiber)
    (hended : x.exception ≠ none → x.state = .term) (context : Option Context)
    {thrown : List Throw} (hthrown : ∀ call ∈ s.active.head?,
      thrown = (x.exception.map fun e => ⟨call, f, e⟩).toList) :
    Inv t { s.switchBack t f x context with thrown := s.thrown ++ thrown } := by
  cases hreturn : s.process.returnFiber t f with
  | none =>
    simp only [Strand.switchBack, hreturn]
    exact .inl rfl
  | some r =>
    simp only [Strand.switchBack, hreturn]
    have hd := h.discipline
    have hr := h.records
    rw [Thread.chain, hnest] at hd
    rw [hnest] at hr
    obtain ⟨call, active, hactive⟩ := hr.eq_cons
    rw [hactive] at hr
    refine .inr (.inr ⟨f, caller, call, rest, active, Option.some_ne_none _, ?_, hactive, ?_, hr,
      ?_, ?_, ?_, ?_⟩)
    · simp only [thread, setThread_threads_self]
      exact hnest
    · simp only [thread, setThread_threads_self]
      exact hd.stop hstate hflag hmain
    · show (Function.update s.process.fibers f x f).callerContext = false
      rw [Function.update_self]
      exact hcaller
    · intro g hg hgf
      show (Function.update s.process.fibers f x g).exception = none
      rw [Function.update_of_ne hgf]
      exact h.quiet g hg
    · show (Function.update s.process.fibers f x f).exception ≠ none →
        (Function.update s.process.fibers f x f).state = .term
      rw [Function.update_self]
      exact hended
    · show s.thrown ++ thrown = s.rethrown ++
        ((Function.update s.process.fibers f x f).exception.map fun e => ⟨call, f, e⟩).toList
      rw [Function.update_self, h.rethrown, hthrown call (by rw [hactive]; rfl)]

/-- The current Fiber yields. -/
theorem User.yield (h : User t s) : Inv t (s.yield t) := by
  have hinv : Inv t s := .inr (.inl h)
  cases hcur : (s.thread t).curFiber with
  | none =>
    simp only [Strand.yield, hcur]
    exact hinv
  | some f =>
    have hhead : (s.thread t).chain.head? = some f := h.cur.symm.trans hcur
    have hf : f < s.process.curFiberId := h.discipline.bound f (List.mem_of_head? hhead)
    cases hx : (s.process.fibers f).yield with
    | error e =>
      simp only [Strand.yield, hcur, hx]
      exact inv_fail hinv e
    | ok x =>
      have hresumed := (h.discipline.part f hf).caller (Fiber.yield_callerContext hx)
      obtain ⟨caller, rest, hnest⟩ := Thread.nest_of_head hhead hresumed
      have hquiet := h.quiet f hf
      obtain rfl := Fiber.yield_ok hx
      have hnone : ∀ call ∈ s.active.head?, ([] : List Throw) =
          ((s.process.fibers f).exception.map fun e => ⟨call, f, e⟩).toList := by
        intro call _
        rw [hquiet]
        rfl
      have hback := h.switchBack hnest (x := { s.process.fibers f with
          state := .ready, callerContext := false }) nofun rfl rfl rfl
        (fun he => absurd hquiet he) (some .suspended) hnone
      simp only [Strand.yield, hcur, hx]
      rw [List.append_nil, ← switchBack_thrown s f _ (some .suspended)] at hback
      exact hback

theorem User.finish (h : User t s) (exit : Exit) : Inv t (s.finish t exit) := by
  cases hnest : (s.thread t).nest with
  | nil =>
    simp only [Strand.finish, hnest]
    exact .inr (.inl h)
  | cons frame rest =>
    obtain ⟨f, caller⟩ := frame
    simp only [Strand.finish, hnest]
    have hf : f < s.process.curFiberId := by
      apply h.discipline.bound
      rw [hnest]
      exact List.mem_cons_self
    apply h.switchBack hnest
    · exact nofun
    · rfl
    · rfl
    · rfl
    · exact fun _ => rfl
    · intro call hcall
      have hquiet : (s.process.fibers f).exception = none := h.quiet f hf
      have hcall : s.active.head? = some call := hcall
      cases exit with
      | returned =>
        simp only [throws, Fiber.mainFunc, hquiet]
        rfl
      | threw e => simp only [throws, Fiber.mainFunc, hcall, Option.map_some]

/-- A `resume` goes on. -/
theorem Landing.land {f caller call : ℕ} {active : List ℕ}
    (h : Landing t s f caller call rest active) : User t (s.land t) := by
  cases hback : s.back with
  | none => exact absurd hback h.back
  | some context =>
    have hx := Fiber.resumed_eq (s.process.fibers f) context
    have hthrown : ((s.process.fibers f).resumed context).2 = (s.process.fibers f).exception := by
      simp only [Fiber.resumed]
      split
      · rfl
      · rename_i hterm
        exact (not_not.mp fun he => hterm (h.ended he)).symm
    simp only [Strand.land, hback, h.nest, h.calls]
    refine ⟨rfl, ?_, ?_, ?_, ?_, ?_⟩
    · simp only [thread, setThread_threads_self]
      rw [hx]
      exact h.discipline.pop rfl rfl h.released rfl
    · simp only [thread, setThread_threads_self]
      exact h.records.pop _
    · simp only [thread, setThread_threads_self]
      exact h.discipline.linked.1.symm
    · intro g hg
      show (Function.update s.process.fibers f _ g).exception = none
      by_cases hgf : g = f
      · subst hgf
        rw [Function.update_self, hx]
        dsimp only
        split
        · rfl
        · rename_i hterm
          exact not_not.mp fun he => hterm (h.ended he)
      · rw [Function.update_of_ne hgf]
        exact h.quiet g hg hgf
    · rw [hthrown]
      exact h.rethrown

/-! ### Runs -/

/-- A process that has panicked takes no step. -/
theorem alive_of_enabled {a : Action} (he : (strand t).enabled s a) :
    s.process.panicked = false := by
  cases a with
  | plain a =>
    obtain ⟨-, hplain, he⟩ := he
    cases a with
    | getThis u => exact he
    | construct c => exact he
    | setSchedulerFiber u f => exact he
    | reset f cb error => exact he.1
    | destroy u f => exact he.1
    | _ => exact absurd hplain id
  | resume f => exact he.2.1
  | yield => exact he.2.1
  | finish exit => exact he.2.1
  | land => exact he.2

theorem next_inv {a : Action} (h : Inv t s) (he : (strand t).enabled s a) :
    Inv t ((strand t).next s a) := by
  rcases h with hp | hu | ⟨f, caller, call, rest, active, hl⟩
  · exact absurd (hp.symm.trans (alive_of_enabled he)) nofun
  · cases a with
    | plain a => exact hu.plain he.2.1 he.2.2
    | resume f => exact hu.resume he.2.2.1
    | yield => exact hu.yield
    | finish exit => exact hu.finish exit
    | land => exact absurd hu.back he.1
  · cases a with
    | land => exact .inr (.inl hl.land)
    | _ => exact absurd he.1 hl.back

theorem inv_of_init (h : (strand t).init s) : Inv t s := by
  obtain ⟨⟨hid, -, hthreads, -, -⟩, hback, hcalls, hactive, hthrown, hrethrown⟩ := h
  have hthread : s.thread t = ⟨none, none, none, []⟩ := hthreads t
  have hnone : ∀ f, ¬f < s.process.curFiberId := by
    rw [hid]
    exact Nat.not_lt_zero
  refine .inr (.inl ⟨hback, ?_, ?_, ?_, fun f hf => absurd hf (hnone f), ?_⟩)
  · rw [hthread]
    exact ⟨fun f hf => absurd hf (hnone f), nofun, List.nodup_nil, trivial⟩
  · rw [hthread, hactive, hrethrown]
    exact ⟨rfl, List.nodup_nil, nofun, nofun, List.nodup_nil⟩
  · rw [hthread]
    rfl
  · rw [hthrown, hrethrown]

theorem inv_of_reach (h : (strand t).Reach s) : Inv t s :=
  h.invariant (I := Inv t) (fun _ => inv_of_init) fun _ _ hi he => next_inv hi he

/-! ### The coarse steps of the process -/

theorem switchBack_land {f caller call : ℕ} {active : List ℕ}
    (hback : s.back = none) (hnest : (s.thread t).nest = (f, caller) :: rest)
    (hactive : s.active = call :: active) (x : Fiber) (context : Option Context)
    (thrown : List Throw) :
    (land t { s.switchBack t f x context with thrown := thrown }).process =
      s.process.switchBack t f caller rest (x.resumed context).1 := by
  cases hreturn : s.process.returnFiber t f with
  | none => simp only [Strand.switchBack, Process.switchBack, hreturn, land, hback]
  | some r =>
    simp only [Strand.switchBack, Process.switchBack, hreturn, land, thread, setThread_threads_self]
    simp only [thread] at hnest
    simp only [hnest, hactive, Process.setFiber, Process.setThread, Function.update_self,
      Function.update_idem]

/-- The `resume` that the running Fiber is in. -/
theorem User.innermost (h : User t s) (hne : (s.thread t).nest ≠ []) :
    ∃ f caller rest call active, (s.thread t).nest = (f, caller) :: rest ∧
      s.active = call :: active := by
  obtain ⟨⟨f, caller⟩, rest, hnest⟩ := List.exists_cons_of_ne_nil hne
  have hr := h.records
  rw [hnest] at hr
  obtain ⟨call, active, hactive⟩ := hr.eq_cons
  exact ⟨f, caller, rest, call, active, hnest, hactive⟩

/-- The end of a callback and the rest of its `resume` are the one step that `Fiber.Model` has for
them. -/
theorem User.finish_land (h : User t s) (hne : (s.thread t).nest ≠ []) (exit : Exit) :
    ((s.finish t exit).land t).process = s.process.finish t exit := by
  obtain ⟨f, caller, rest, call, active, hnest, hactive⟩ := h.innermost hne
  have hland := switchBack_land h.back hnest hactive ((s.process.fibers f).mainFunc exit) none
    (s.thrown ++ s.throws f exit)
  simp only [Strand.finish, hnest, hland]
  simp only [thread] at hnest
  simp only [Process.finish, hnest]

/-- So are a `yield` and the rest of its `resume`. -/
theorem User.yield_land (h : User t s) (hne : (s.thread t).nest ≠ []) :
    ((s.yield t).land t).process = s.process.yield t := by
  obtain ⟨f, caller, rest, call, active, hnest, hactive⟩ := h.innermost hne
  have hcur : (s.thread t).curFiber = some f := by
    rw [h.cur, Thread.chain, hnest]
    rfl
  have hnest' : (s.process.threads t).nest = (f, caller) :: rest := hnest
  cases hx : (s.process.fibers f).yield with
  | error e => simp only [Strand.yield, hcur, hx, Process.yield, hnest', land, h.back]
  | ok x =>
    have hland := switchBack_land h.back hnest hactive x (some .suspended) s.thrown
    rw [← switchBack_thrown s f x (some .suspended)] at hland
    simp only [Strand.yield, hcur, hx, Process.yield, hnest']
    exact hland

/-! ### The discipline -/

/-- A Fiber on the chain is being resumed. -/
theorem User.resume_on_chain (h : User t s) {f : ℕ} (hf : f ∈ (s.thread t).chain)
    (hmain : (s.process.fibers f).isMainFiber = false) :
    (s.process.fibers f).resume = .error (.logicError "fiber is already being resumed") ∧
      s.resume t f = s := by
  have hpart := h.discipline.part f (h.discipline.bound f hf)
  have hflag : (s.process.fibers f).resumeInProgress = true := by
    apply hpart.flag.mpr
    apply (mem_chainOf.mp hf).resolve_right
    intro hm
    exact absurd (hmain.symm.trans (hpart.main.mpr hm)) Bool.false_ne_true
  have hthrows : (s.process.fibers f).resume =
      .error (.logicError "fiber is already being resumed") := by
    simp only [Fiber.resume, hflag, if_true]
  refine ⟨hthrows, ?_⟩
  simp only [Strand.resume, Process.resume, hthrows]
  rfl

section

variable {f caller call : ℕ} {rest : List (ℕ × ℕ)} {active : List ℕ}
  (h : Landing t s f caller call rest active)
include h

/-- Behind its switch a `resume` restores `cur_fiber`. -/
theorem Landing.land_cur : ((s.land t).thread t).curFiber = s.before call := by
  have hbefore : s.before call = some caller := (List.cons.inj h.records.before).1
  cases hback : s.back with
  | none => exact absurd hback h.back
  | some context =>
    simp only [Strand.land, hback, h.nest, h.calls]
    simp only [thread, setThread_threads_self]
    exact hbefore.symm

theorem Landing.land_active : (s.land t).active = active := by
  cases hback : s.back with
  | none => exact absurd hback h.back
  | some context => simp only [Strand.land, hback, h.nest, h.calls]

theorem Landing.land_rethrown : (s.land t).rethrown = s.thrown := by
  have hthrown : (s.land t).thrown = s.thrown := by
    simp only [Strand.land]
    split <;> rfl
  exact h.land.rethrown.symm.trans hthrown

end

/-- **Nested switching.**  In every state that a program of one thread reaches:
* while the program runs, `cur_fiber` is the first of the chain, each Fiber on it was resumed by the
  next one up to the main Fiber, the RUNNING Fibers are those on the chain, and the exceptions
  rethrown are those thrown, in order, each by the `resume` in which its callback ended;
* no `resume` rethrows twice;
* when a `resume` returns or rethrows, `cur_fiber` is what it was before the call;
* an attempt to resume a Fiber on the chain other than the main one throws `std::logic_error`, and
  nothing changes. -/
theorem nested_switching (h : (strand t).Reach s) (halive : s.process.panicked = false) :
    (s.back = none → (s.thread t).curFiber = (s.thread t).chain.head? ∧
      Linked (s.thread t).curThreadFiber (s.thread t).nest ∧
      (∀ f < s.process.curFiberId,
        (s.process.fibers f).state = .running ↔ f ∈ (s.thread t).chain) ∧
      s.thrown = s.rethrown) ∧
    (s.rethrown.map Throw.call).Nodup ∧
    (s.back ≠ none → ∃ call active, s.active = call :: active ∧
      ((s.land t).thread t).curFiber = s.before call ∧ (s.land t).active = active ∧
      (s.land t).rethrown = s.thrown) ∧
    (s.back = none → ∀ f ∈ (s.thread t).chain, (s.process.fibers f).isMainFiber = false →
      (s.process.fibers f).resume = .error (.logicError "fiber is already being resumed") ∧
        s.resume t f = s) := by
  rcases inv_of_reach h with hp | hu | ⟨f, caller, call, rest, active, hl⟩
  · exact absurd (hp.symm.trans halive) nofun
  · refine ⟨fun _ => ⟨hu.cur, hu.discipline.linked, fun f hf => (hu.discipline.part f hf).state,
      hu.rethrown⟩, hu.records.once, fun hback => absurd hu.back hback, fun _ f hf hmain => ?_⟩
    exact hu.resume_on_chain hf hmain
  · refine ⟨fun hback => absurd hback hl.back, hl.records.once, fun _ => ?_,
      fun hback => absurd hback hl.back⟩
    exact ⟨call, active, hl.calls, hl.land_cur, hl.land_active, hl.land_rethrown⟩

/-- The start of a program. -/
def initial : Strand := ⟨.initial, none, 0, [], fun _ => none, [], []⟩

/-- Two Fibers are made, and the first one resumes the second. -/
def nestedTwice : List Action :=
  let block : Stack.FiberStackBlock := ⟨4096, 4096, 131072, 131072, .malloc, false⟩
  [.plain (.getThis 0), .plain (.construct ⟨1, 0, false, none, .ok block, none⟩),
    .plain (.construct ⟨2, 0, false, none, .ok block, none⟩), .resume 1, .resume 2]

/-- The second one tries to resume the first, throws, and the first yields. -/
def unwound : List Action := nestedTwice ++ [.resume 1, .finish (.threw 7), .land, .yield, .land]

theorem nested_switching_unwound :
    let s := (strand 0).run initial nestedTwice
    let u := (strand 0).run initial unwound
    ((s.thread 0).chain = [2, 1, 0] ∧ (s.process.fibers 1).state = .running ∧
        s.resume 0 1 = s) ∧
      (u.thread 0).curFiber = some 0 ∧ u.rethrown = [⟨1, 2, 7⟩] ∧ u.thrown = u.rethrown := by
  have hinit : (strand 0).init initial := ⟨process_init_initial, rfl, rfl, rfl, rfl, rfl⟩
  have hs : (strand 0).Reach ((strand 0).run initial nestedTwice) :=
    Machine.reachVia_run (.start hinit) (by decide +kernel)
  have hu : (strand 0).Reach ((strand 0).run initial unwound) :=
    Machine.reachVia_run (.start hinit) (by decide +kernel)
  have hchain : (((strand 0).run initial nestedTwice).thread 0).chain = [2, 1, 0] := by
    decide +kernel
  have hmem : 1 ∈ (((strand 0).run initial nestedTwice).thread 0).chain := by
    rw [hchain]
    decide
  obtain ⟨hrun, -, -, hattempt⟩ := nested_switching hs (by decide +kernel)
  obtain ⟨hend, -, -, -⟩ := nested_switching hu (by decide +kernel)
  refine ⟨⟨hchain, ?_, ?_⟩, by decide +kernel, by decide +kernel, (hend (by decide +kernel)).2.2.2⟩
  · exact ((hrun (by decide +kernel)).2.2.1 1 (by decide +kernel)).mpr hmem
  · exact (hattempt (by decide +kernel) 1 hmem (by decide +kernel)).2

end Strand

end PulsarRuntime.Fibers
