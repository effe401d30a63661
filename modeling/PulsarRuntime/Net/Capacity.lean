import Mathlib.Algebra.BigOperators.Ring.Finset
import PulsarRuntime.Lib.Family
import PulsarRuntime.Net.Server

/-!
# The connection limit

Every connection contributes 0 or 1 to `active`.  It is counted in by the exchange that admits it
and counted out at the end of its task.  The catch clause of the task is for `std::exception` only:
a handler that throws anything else leaves the task before that end, the scheduler swallows the
exception, and the connection stays counted for good.  So does one whose task is dropped.
-/

namespace PulsarRuntime.Net.Server

open Finset (range)

namespace Stage

/-- Admitted, and the task has not come to its end. -/
def held : Stage → Bool
  | .admitted | .registered | .scheduled | .running | .handled | .closing => true
  | _ => false

/-- Admitted, and the task is over before its end. -/
def leaked : Stage → Bool
  | .escaped | .dropped => true
  | _ => false

/-- The loop has the connection. -/
def early : Stage → Bool
  | .accepted | .admitted | .registered => true
  | _ => false

/-- What the connection contributes to `active`. -/
def weight (st : Stage) : ℤ := if st.held || st.leaked then 1 else 0

end Stage

/-- No handler throws a value that is not a `std::exception`, and no task is dropped. -/
def Caught (_ : State) : Action → Prop
  | .exit _ .other => False
  | .drop _ => False
  | _ => True

instance (s : State) (a : Action) : Decidable (Caught s a) := by
  induction a using Action.casesOn with
  | exit c e => rcases e <;> (dsimp only [Caught]; infer_instance)
  | drop c => exact isFalse id
  | _ => exact isTrue trivial

theorem State.close_setStage (s : State) (c : ℕ) (st : Stage) :
    (s.close c).setStage c st = s.setConn c { s.conns c with closed := true, stage := st } := by
  simp only [setStage, close, setConn, Function.update_self, Function.update_idem]

/-! ### The account -/

/-- The account of one connection. -/
structure Conn.Sound (x : Conn) : Prop where
  decs : x.decs = if x.stage = .finished then 1 else 0
  started : x.started ≤ 1
  unstarted : x.stage.early = true ∨ x.stage = .refused ∨ x.stage = .scheduled →
    x.started = 0
  refused : x.stage = .refused → x.closed = true

namespace Conn.Sound

variable {x : Conn}

/-- The connection goes on to another stage. -/
theorem move (h : x.Sound) (st : Stage) (hold : x.stage ≠ .finished)
    (hunstarted : st.early = true ∨ st = .refused ∨ st = .scheduled → x.started = 0)
    (hst : st ≠ .finished ∧ st ≠ .refused) : { x with stage := st }.Sound := by
  refine ⟨?_, h.started, hunstarted, fun href => absurd href hst.2⟩
  rw [h.decs, if_neg hold, if_neg hst.1]

theorem started_of_early (h : x.Sound) (hearly : x.stage.early = true) : x.started = 0 :=
  h.unstarted (.inl hearly)

theorem not_finished_of_early (hearly : x.stage.early = true) : x.stage ≠ .finished := by
  intro hstage
  rw [hstage] at hearly
  cases hearly

/-- The loop goes on with the connection. -/
theorem advance (h : x.Sound) (hearly : x.stage.early = true) (st : Stage)
    (hst : st ≠ .finished ∧ st ≠ .refused) : { x with stage := st }.Sound :=
  h.move st (not_finished_of_early hearly) (fun _ => h.started_of_early hearly) hst

end Conn.Sound

/-- The loop has the connection it thinks it has. -/
def AtLoop (conns : ℕ → Conn) (n : ℕ) : LoopPc → Prop
  | .accepted c | .counting c _ => c < n ∧ (conns c).stage = .accepted
  | .admitted c => c < n ∧ (conns c).stage = .admitted
  | .registered c => c < n ∧ (conns c).stage = .registered
  | _ => True

structure Inv (s : State) : Prop where
  sound : ∀ c < s.connCount, (s.conns c).Sound
  atLoop : AtLoop s.conns s.connCount s.loop
  active : s.active = ∑ c ∈ range s.connCount, (s.conns c).stage.weight
  bounded : s.active ≤ s.maxConnections

theorem AtLoop.update {conns : ℕ → Conn} {n d : ℕ} {pc : LoopPc} (h : AtLoop conns n pc) {x : Conn}
    (hx : (conns d).stage.early = true → x.stage = (conns d).stage) :
    AtLoop (Function.update conns d x) n pc := by
  have hstage : ∀ c, (conns c).stage.early = true →
      (Function.update conns d x c).stage = (conns c).stage := by
    intro c hearly
    by_cases hc : c = d
    · subst hc
      rw [Function.update_self]
      exact hx hearly
    · rw [Function.update_of_ne hc]
  cases pc with
  | accepted c => exact ⟨h.1, (hstage c (by rw [h.2]; rfl)).trans h.2⟩
  | counting c count => exact ⟨h.1, (hstage c (by rw [h.2]; rfl)).trans h.2⟩
  | admitted c => exact ⟨h.1, (hstage c (by rw [h.2]; rfl)).trans h.2⟩
  | registered c => exact ⟨h.1, (hstage c (by rw [h.2]; rfl)).trans h.2⟩
  | _ => trivial

namespace Inv

variable {s s' : State} {c : ℕ}

section

variable (h : Inv s)
include h

/-- Connection `c` becomes `x`, and `active` follows. -/
theorem change (hc : c < s.connCount) {x : Conn} (hx : x.Sound)
    (hconns : s'.conns = Function.update s.conns c x) (hcount : s'.connCount = s.connCount)
    (hmax : s'.maxConnections = s.maxConnections)
    (hloop : AtLoop (Function.update s.conns c x) s.connCount s'.loop)
    (hactive : s'.active = s.active + (x.stage.weight - (s.conns c).stage.weight))
    (hbounded : s'.active ≤ s.maxConnections) : Inv s' := by
  refine ⟨?_, ?_, ?_, ?_⟩
  · rw [hconns, hcount]
    exact Family.forall_update h.sound hx
  · rw [hconns, hcount]
    exact hloop
  · rw [hconns, hcount, Family.sum_update (fun x : Conn => x.stage.weight) hc, ← h.active, hactive]
  · rw [hmax]
    exact hbounded

/-- A step of the task, or of somebody who has the connection, that keeps its contribution. -/
theorem task (hc : c < s.connCount) {x : Conn} (hx : x.Sound)
    (hearly : (s.conns c).stage.early = true → x.stage = (s.conns c).stage)
    (hweight : x.stage.weight = (s.conns c).stage.weight) : Inv (s.setConn c x) := by
  refine h.change hc hx rfl rfl rfl (h.atLoop.update hearly) ?_ h.bounded
  rw [hweight, sub_self, add_zero]
  rfl

/-- A step that is not about connections. -/
theorem frame (hconns : s'.conns = s.conns) (hcount : s'.connCount = s.connCount)
    (hactive : s'.active = s.active) (hmax : s'.maxConnections = s.maxConnections)
    (hloop : AtLoop s.conns s.connCount s'.loop) : Inv s' := by
  refine ⟨?_, ?_, ?_, ?_⟩
  · rw [hconns, hcount]
    exact h.sound
  · rw [hconns, hcount]
    exact hloop
  · rw [hconns, hcount, hactive]
    exact h.active
  · rw [hactive, hmax]
    exact h.bounded

theorem atLoop_of {pc : LoopPc} (hpc : s.loop = pc) : AtLoop s.conns s.connCount pc := by
  rw [← hpc]
  exact h.atLoop

theorem accept (r : AcceptResult) : Inv (s.accept r) := by
  simp only [State.accept]
  split
  · exact h.frame rfl rfl rfl rfl trivial
  · cases r with
    | client =>
      refine ⟨Family.forall_add h.sound ⟨rfl, Nat.zero_le 1, fun _ => rfl, nofun⟩, ?_, ?_,
        h.bounded⟩
      · refine ⟨Nat.lt_succ_self _, ?_⟩
        dsimp only
        rw [Function.update_self]
      · rw [Family.sum_add (fun x : Conn => x.stage.weight), ← h.active]
        exact (add_zero _).symm
    | interrupted => exact h.frame rfl rfl rfl rfl trivial
    | again => exact h.frame rfl rfl rfl rfl trivial
    | failed => exact h.frame rfl rfl rfl rfl trivial

theorem exchange {count : ℤ} (spurious : Bool) (hpc : s.loop = .counting c count) :
    Inv (s.exchange c count spurious) := by
  obtain ⟨hc, hstage⟩ := h.atLoop_of hpc
  have hs := h.sound c hc
  have hearly : (s.conns c).stage.early = true := by
    rw [hstage]
    rfl
  rw [State.exchange]
  split
  · rename_i hlt
    split
    · rename_i hcount
      refine h.change hc (hs.advance hearly .admitted (by decide)) rfl rfl rfl ?_ ?_ ?_
      · exact ⟨hc, by rw [Function.update_self]⟩
      · rw [hstage]
        rfl
      · show s.active + 1 ≤ s.maxConnections
        omega
    · exact h.frame rfl rfl rfl rfl ⟨hc, hstage⟩
  · rw [State.close_setStage]
    refine h.change hc (x := { s.conns c with closed := true, stage := .refused }) ?_ rfl rfl rfl
      trivial ?_ h.bounded
    · refine ⟨?_, hs.started, fun _ => hs.started_of_early hearly, fun _ => rfl⟩
      rw [hs.decs, if_neg (Conn.Sound.not_finished_of_early hearly)]
      rfl
    · rw [hstage]
      exact (add_zero _).symm

/-- The loop goes on with the connection, which stays counted. -/
theorem advance (hc : c < s.connCount) (hearly : (s.conns c).stage.early = true)
    (st : Stage) (hst : st ≠ .finished ∧ st ≠ .refused)
    (hweight : st.weight = (s.conns c).stage.weight) (connections : List ℕ) {pc : LoopPc}
    (hloop : AtLoop (s.setStage c st).conns s.connCount pc) :
    Inv { s.setStage c st with connections := connections, loop := pc } := by
  refine h.change hc ((h.sound c hc).advance hearly st hst) rfl rfl rfl hloop ?_ h.bounded
  rw [hweight, sub_self, add_zero]
  rfl

theorem register (hpc : s.loop = .admitted c) : Inv (s.register c) := by
  obtain ⟨hc, hstage⟩ := h.atLoop_of hpc
  refine h.advance hc (by rw [hstage]; rfl) .registered (by decide) (by rw [hstage]; rfl) _ ⟨hc, ?_⟩
  simp only [State.setStage, State.setConn, Function.update_self]

theorem schedule (hpc : s.loop = .registered c) : Inv (s.schedule c) := by
  obtain ⟨hc, hstage⟩ := h.atLoop_of hpc
  exact h.advance hc (by rw [hstage]; rfl) .scheduled (by decide) (by rw [hstage]; rfl) _ trivial

/-- The task goes from one stage to the next. -/
theorem setStage (hc : c < s.connCount) {old : Stage} (st : Stage)
    (hstage : (s.conns c).stage = old) (hold : old.early = false ∧ old ≠ .finished)
    (hnew : ¬(st.early = true ∨ st = .refused ∨ st = .scheduled) ∧ st ≠ .finished)
    (hweight : st.weight = old.weight) : Inv (s.setStage c st) := by
  have hst : st ≠ .finished ∧ st ≠ .refused := ⟨hnew.2, fun hst => hnew.1 (.inr (.inl hst))⟩
  rw [← hstage] at hold hweight
  refine h.task hc ((h.sound c hc).move st hold.2 (fun hun => absurd hun hnew.1) hst)
    (fun hearly => ?_) hweight
  exact absurd (hold.1.symm.trans hearly) (by simp)

theorem start (hc : c < s.connCount) (hstage : (s.conns c).stage = .scheduled) :
    Inv (s.start c) := by
  have hs := h.sound c hc
  have hstarted := hs.unstarted (.inr (.inr hstage))
  refine h.task hc ⟨?_, ?_, nofun, nofun⟩ (fun hearly => ?_) ?_
  · rw [hs.decs, hstage]
    rfl
  · show (s.conns c).started + 1 ≤ 1
    omega
  · rw [hstage] at hearly
    cases hearly
  · rw [hstage]
    rfl

theorem closeTask (hc : c < s.connCount) (hstage : (s.conns c).stage = .handled) :
    Inv (s.closeTask c) := by
  have hs := h.sound c hc
  rw [State.closeTask, State.close_setStage]
  refine h.task hc ⟨?_, hs.started, nofun, nofun⟩ (fun hearly => ?_) ?_
  · rw [hs.decs, hstage]
    rfl
  · rw [hstage] at hearly
    cases hearly
  · rw [hstage]
    rfl

theorem release (hc : c < s.connCount) (hstage : (s.conns c).stage = .closing) :
    Inv (s.release c) := by
  have hs := h.sound c hc
  have hx : { s.conns c with stage := .finished, decs := (s.conns c).decs + 1 }.Sound := by
    refine ⟨?_, hs.started, nofun, nofun⟩
    show (s.conns c).decs + 1 = 1
    rw [hs.decs, hstage]
    rfl
  refine h.change hc hx rfl rfl rfl (h.atLoop.update fun hearly => ?_) ?_ ?_
  · rw [hstage] at hearly
    cases hearly
  · rw [hstage]
    rfl
  · show s.active - 1 ≤ s.maxConnections
    have hbounded := h.bounded
    omega

/-- The connection is closed, or destroyed. -/
theorem close (c : ℕ) (expired : Bool) :
    Inv (s.setConn c { s.conns c with closed := true, expired := expired }) := by
  by_cases hc : c < s.connCount
  · have hs := h.sound c hc
    exact h.task hc ⟨hs.decs, hs.started, hs.unstarted, fun _ => rfl⟩ (fun _ => rfl) rfl
  · have hsame : ∀ d < s.connCount, (s.setConn c { s.conns c with
        closed := true
        expired := expired }).conns d = s.conns d := by
      intro d hd
      exact Function.update_of_ne (by omega) ..
    refine ⟨fun d hd => ?_, h.atLoop.update fun _ => rfl, h.active.trans ?_, h.bounded⟩
    · rw [hsame d hd]
      exact h.sound d hd
    · refine Finset.sum_congr rfl fun d hd => ?_
      rw [hsame d (Finset.mem_range.mp hd)]

theorem next {a : Action} (he : server.enabled s a) : Inv (server.next s a) := by
  cases a with
  | check =>
    refine h.frame rfl rfl rfl rfl ?_
    simp only [server, State.check]
    split <;> trivial
  | accept r => exact h.accept r
  | wake ok =>
    refine h.frame rfl rfl rfl rfl ?_
    cases ok <;> trivial
  | load c =>
    have hat := h.atLoop
    rw [show s.loop = .accepted c from he] at hat
    exact h.frame rfl rfl rfl rfl hat
  | exchange c count spurious => exact h.exchange spurious he
  | register c => exact h.register he
  | schedule c => exact h.schedule he
  | start c => exact h.start he.1 he.2
  | drop c => exact h.setStage he.1 .dropped he.2 (by decide) (by decide) rfl
  | exit c e =>
    cases e with
    | returned => exact h.setStage he.1 .handled he.2 (by decide) (by decide) rfl
    | exception => exact h.setStage he.1 .handled he.2 (by decide) (by decide) rfl
    | other => exact h.setStage he.1 .escaped he.2 (by decide) (by decide) rfl
  | closeTask c => exact h.closeTask he.1 he.2
  | release c => exact h.release he.1 he.2
  | close c => exact h.close c (s.conns c).expired
  | destroy c => exact h.close c true
  | stop => exact h.frame rfl rfl rfl rfl h.atLoop
  | take j => exact h.frame rfl rfl rfl rfl h.atLoop
  | closeListener j conns => exact h.frame rfl rfl rfl rfl h.atLoop
  | closeNext j c rest =>
    have hclosed := h.close c (s.conns c).expired
    exact hclosed.frame rfl rfl rfl rfl hclosed.atLoop
  | returnStop j => exact h.frame rfl rfl rfl rfl h.atLoop

end

theorem of_init (h : server.init s) : Inv s := by
  obtain ⟨-, hactive, -, -, hloop, hcount, -, -⟩ := h
  refine ⟨fun c hc => ?_, ?_, ?_, ?_⟩
  · rw [hcount] at hc
    exact absurd hc (Nat.not_lt_zero c)
  · rw [hloop]
    trivial
  · rw [hactive, hcount]
    rfl
  · rw [hactive]
    exact Int.natCast_nonneg _

/-- `active` counts the connections that are held and those that are leaked. -/
theorem active_eq (h : Inv s) :
    s.active = ((range s.connCount).filter fun c => (s.conns c).stage.held).card +
      ((range s.connCount).filter fun c => (s.conns c).stage.leaked).card := by
  have hsplit : ∀ st : Stage, st.weight = (if st.held then 1 else 0) +
      if st.leaked then (1 : ℤ) else 0 := by
    intro st
    cases st <;> rfl
  rw [h.active]
  simp only [hsplit, Finset.sum_add_distrib, Finset.sum_boole]

end Inv

/-- A step that is caught leaks nothing. -/
theorem leaked_next {s : State} {a : Action} (hok : Caught s a)
    (h : ∀ c < s.connCount, (s.conns c).stage.leaked = false) :
    ∀ c < (server.next s a).connCount, ((server.next s a).conns c).stage.leaked = false := by
  have hconn : ∀ {d : ℕ} {x : Conn}, x.stage.leaked = false ∨ x.stage = (s.conns d).stage →
      ∀ c < s.connCount, (Function.update s.conns d x c).stage.leaked = false := by
    intro d x hx c hc
    by_cases hcd : c = d
    · subst hcd
      rw [Function.update_self]
      rcases hx with hx | hx
      · exact hx
      · rw [hx]
        exact h c hc
    · rw [Function.update_of_ne hcd]
      exact h c hc
  cases a with
  | accept r =>
    simp only [server, State.accept]
    split
    · exact h
    · cases r with
      | client => exact Family.forall_add (P := fun _ (x : Conn) => x.stage.leaked = false) h rfl
      | interrupted => exact h
      | again => exact h
      | failed => exact h
  | exchange c count spurious =>
    simp only [server, State.exchange, State.close_setStage]
    split
    · split
      · exact hconn (.inl rfl)
      · exact h
    · exact hconn (.inl rfl)
  | exit c e =>
    cases e with
    | returned => exact hconn (.inl rfl)
    | exception => exact hconn (.inl rfl)
    | other => exact absurd hok id
  | drop c => exact absurd hok id
  | register c => exact hconn (.inl rfl)
  | schedule c => exact hconn (.inl rfl)
  | start c => exact hconn (.inl rfl)
  | closeTask c =>
    simp only [server, State.closeTask, State.close_setStage]
    exact hconn (.inl rfl)
  | release c => exact hconn (.inl rfl)
  | close c => exact hconn (.inr rfl)
  | destroy c => exact hconn (.inr rfl)
  | closeNext j c rest => exact hconn (.inr rfl)
  | _ => exact h

theorem leaked_of_caught {s : State} (h : server.ReachVia Caught s) :
    ∀ c < s.connCount, (s.conns c).stage.leaked = false := by
  refine h.invariant (I := fun s => ∀ c < s.connCount, (s.conns c).stage.leaked = false)
    (fun s hinit c hc => ?_) fun _ _ hi _ hok => leaked_next hok hi
  rw [hinit.2.2.2.2.2.1] at hc
  exact absurd hc (Nat.not_lt_zero c)

/-- **The connection limit.**  `active` is within the limit; it is the number of admitted
connections whose task has not ended exactly if none has escaped the catch clause or been dropped;
each connection is counted out at most once, and if its task has come to its end, once; one over
the limit is closed and its handler not started.  In a run in which every exception is a
`std::exception` and no task is dropped, none is leaked. -/
theorem connection_limit (s : State) :
    (server.Reach s →
      (0 ≤ s.active ∧ s.active ≤ s.maxConnections) ∧
      (s.active = ((range s.connCount).filter fun c => (s.conns c).stage.held).card ↔
        ∀ c < s.connCount, (s.conns c).stage.leaked = false) ∧
      ∀ c < s.connCount, (s.conns c).decs = (if (s.conns c).stage = .finished then 1 else 0) ∧
        (s.conns c).started ≤ 1 ∧
        ((s.conns c).stage = .refused → (s.conns c).closed = true ∧ (s.conns c).started = 0)) ∧
    (server.ReachVia Caught s → ∀ c < s.connCount, (s.conns c).stage.leaked = false) := by
  refine ⟨fun h => ?_, leaked_of_caught⟩
  have hi : Inv s := h.invariant (fun _ => .of_init) fun _ _ hi he => hi.next he
  have hactive := hi.active_eq
  refine ⟨⟨by omega, hi.bounded⟩, ?_, fun c hc => ?_⟩
  · have hnone : (∀ c < s.connCount, (s.conns c).stage.leaked = false) ↔
        ((range s.connCount).filter fun c => (s.conns c).stage.leaked).card = 0 := by
      rw [Finset.card_eq_zero, Finset.filter_eq_empty_iff]
      simp
    rw [hnone]
    omega
  · have hs := hi.sound c hc
    exact ⟨hs.decs, hs.started, fun href => ⟨hs.refused href, hs.unstarted (.inr (.inl href))⟩⟩

/-- Two connections at a limit of one: the second is refused; the handler of the first throws a
`std::exception`. -/
def oneAtATime : State :=
  server.run (.started 1) [.check, .accept .client, .load 0, .exchange 0 0 false, .register 0,
    .schedule 0, .start 0, .check, .accept .client, .load 1, .exchange 1 1 false,
    .exit 0 .exception, .closeTask 0, .release 0]

theorem connection_limit_one : oneAtATime.active = 0 ∧ (oneAtATime.conns 0).decs = 1 ∧
    ((oneAtATime.conns 1).closed = true ∧ (oneAtATime.conns 1).started = 0) := by
  have hreach : server.ReachVia Caught oneAtATime :=
    Machine.reachVia_run (.start (server_init_started 1)) (by decide +kernel)
  have hall : server.Reach oneAtATime :=
    Machine.reachVia_run (.start (server_init_started 1)) (by decide +kernel)
  obtain ⟨-, hactive, hconns⟩ := (connection_limit oneAtATime).1 hall
  refine ⟨?_, ?_, ?_⟩
  · rw [hactive.mpr ((connection_limit oneAtATime).2 hreach)]
    decide +kernel
  · rw [(hconns 0 (by decide +kernel)).1]
    decide +kernel
  · exact (hconns 1 (by decide +kernel)).2.2 (by decide +kernel)

/-- The handler throws an `int`: the connection stays counted though its handler has ended, and at a
limit of one the next connection is refused. -/
theorem capacity_leaked : ∃ s, server.Reach s ∧ s.maxConnections = 1 ∧ s.active = 1 ∧
    (s.conns 0).stage = .escaped ∧ (s.conns 0).decs = 0 ∧ (s.conns 1).stage = .refused ∧
    ((range s.connCount).filter fun c => (s.conns c).stage.held).card = 0 := by
  refine ⟨server.run (.started 1) [.check, .accept .client, .load 0, .exchange 0 0 false,
    .register 0, .schedule 0, .start 0, .exit 0 .other, .destroy 0, .check, .accept .client,
    .load 1, .exchange 1 1 false],
    Machine.reachVia_run (.start (server_init_started 1)) (by decide +kernel), ?_⟩
  decide +kernel

end PulsarRuntime.Net.Server
