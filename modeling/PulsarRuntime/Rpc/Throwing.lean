import PulsarRuntime.Lib.Family
import PulsarRuntime.Lib.Machine

/-!
# Handlers that throw

`Serve.provider` takes a handler to keep to the contract of Protocol Buffers.  Here a handler does
what it wants: it runs `done`, or hands it to somebody who runs it later, or does neither, and it
returns or throws.  A handler that throws says whether somebody else keeps `done` (`kept`); if
nobody does, it can no longer be run.

A request is counted in `outstanding` and `pending_count`.  For a request of a plain channel the
closure counts `outstanding` down and `Handle`, when it goes on, `pending_count`; the catch block
only lets `Handle` go on.  For a multiplexed request the closure schedules a task that counts both
down, and the catch block runs the closure, whether or not it has been run before.

A closure deletes itself.  To run it again is an access to freed memory; the model takes it to do
once more what it has done before.  `runs`, `outstandingDecs` and `pendingDecs` of a request record
how often the closure was run and the counters were decremented for it.
-/

namespace PulsarRuntime.Rpc.Throwing

open Finset (range)

inductive Handler where
  | queued
  | running
  | returned
  | threw
  deriving DecidableEq

/-- `DoneClosure` or `MultiplexDoneClosure`. -/
inductive Closure where
  | absent
  | ready
  /-- plain: `outstanding` is decremented, `Finish(1)` comes next -/
  | counted
  | deleted
  deriving DecidableEq

structure Request where
  multiplexed : Bool
  handler : Handler
  closure : Closure
  /-- the service has run `done` -/
  invoked : Bool
  /-- the handler has thrown, and somebody keeps `done` who runs it unless it has been run -/
  kept : Bool
  outcome : ℕ
  /-- plain: `Handle` has gone on -/
  resumed : Bool
  /-- multiplexed: the response tasks that are scheduled -/
  tasks : ℕ
  runs : ℕ
  outstandingDecs : ℕ
  pendingDecs : ℕ

/-- A request the executor has taken. -/
def Request.new (multiplexed : Bool) : Request :=
  ⟨multiplexed, .queued, .absent, false, false, 0, false, 0, 0, 0, 0⟩

/-- `CallContext::Finish` -/
def Request.finish (r : Request) (value : ℕ) : Request :=
  if r.outcome = 0 then { r with outcome := value } else r

structure Provider where
  outstanding : ℤ
  pendingCount : ℤ
  requests : ℕ → Request
  count : ℕ

namespace Provider

variable (s : Provider) (k : ℕ)

def setRequest (r : Request) : Provider :=
  { s with requests := Function.update s.requests k r }

def accept (multiplexed : Bool) : Provider where
  outstanding := s.outstanding + 1
  pendingCount := s.pendingCount + 1
  requests := Function.update s.requests s.count (.new multiplexed)
  count := s.count + 1

/-- `Run` of the closure of request `k`, the rest of the request being `r`. -/
def run (r : Request) : Provider :=
  if r.multiplexed then
    s.setRequest k { r with closure := .deleted, tasks := r.tasks + 1, runs := r.runs + 1 }
  else
    { s.setRequest k { r with
        closure := .counted
        runs := r.runs + 1
        outstandingDecs := r.outstandingDecs + 1 } with
      outstanding := s.outstanding - 1 }

/-- The service runs `done`. -/
def invoke : Provider := s.run k { s.requests k with invoked := true }

/-- The handler throws; the catch block. -/
def throw (keeps : Bool) : Provider :=
  let r := { s.requests k with handler := .threw, kept := keeps }
  if r.multiplexed then s.run k { r with outcome := 2 } else s.setRequest k (r.finish 2)

/-- `Handle` goes on behind its `yield`. -/
def resume : Provider :=
  let r := s.requests k
  { s.setRequest k { r with resumed := true, pendingDecs := r.pendingDecs + 1 } with
    pendingCount := s.pendingCount - 1 }

/-- A response task comes to its end. -/
def settle : Provider :=
  let r := s.requests k
  { s.setRequest k { r with
      tasks := r.tasks - 1
      outstandingDecs := r.outstandingDecs + 1
      pendingDecs := r.pendingDecs + 1 } with
    outstanding := s.outstanding - 1
    pendingCount := s.pendingCount - 1 }

end Provider

inductive Action where
  | accept (multiplexed : Bool)
  | start (k : ℕ)
  | invoke (k : ℕ)
  /-- `Finish(1)` at the end of `DoneClosure::Run` -/
  | finishDone (k : ℕ)
  | handled (k : ℕ)
  | throw (k : ℕ) (keeps : Bool)
  /-- `Finish(2)` by the timer or by `Stop` -/
  | finish (k : ℕ)
  | resume (k : ℕ)
  | settle (k : ℕ)

/-- Any number of requests of both kinds.  The service runs `done` once or never. -/
def throwing : Machine Provider Action where
  init s := s.outstanding = 0 ∧ s.pendingCount = 0 ∧ s.count = 0
  enabled s
    | .accept _ => True
    | .start k => k < s.count ∧ (s.requests k).handler = .queued
    | .invoke k => k < s.count ∧ (s.requests k).handler ≠ .queued ∧
        (s.requests k).invoked = false ∧
        ((s.requests k).handler = .threw → (s.requests k).kept = true)
    | .finishDone k => k < s.count ∧ (s.requests k).closure = .counted
    | .handled k => k < s.count ∧ (s.requests k).handler = .running
    | .throw k _ => k < s.count ∧ (s.requests k).handler = .running
    | .finish k => k < s.count ∧ (s.requests k).multiplexed = false
    | .resume k => k < s.count ∧ (s.requests k).multiplexed = false ∧
        (s.requests k).outcome ≠ 0 ∧ (s.requests k).resumed = false
    | .settle k => k < s.count ∧ 0 < (s.requests k).tasks
  next s
    | .accept multiplexed => s.accept multiplexed
    | .start k => s.setRequest k { s.requests k with handler := .running, closure := .ready }
    | .invoke k => s.invoke k
    | .finishDone k => s.setRequest k { (s.requests k).finish 1 with closure := .deleted }
    | .handled k => s.setRequest k { s.requests k with handler := .returned }
    | .throw k keeps => s.throw k keeps
    | .finish k => s.setRequest k ((s.requests k).finish 2)
    | .resume k => s.resume k
    | .settle k => s.settle k

instance (s : Provider) (a : Action) : Decidable (throwing.enabled s a) := by
  rcases a <;> (dsimp only [throwing]; infer_instance)

/-- When the handler of a multiplexed request throws, `done` has not been run and nobody keeps it:
it is left to the catch block.  When a plain one throws, `done` has been run or is kept by somebody
who runs it. -/
def LeavesDone (s : Provider) : Action → Prop
  | .throw k keeps =>
      if (s.requests k).multiplexed then (s.requests k).invoked = false ∧ keeps = false
      else (s.requests k).invoked = true ∨ keeps = true
  | _ => True

instance (s : Provider) (a : Action) : Decidable (LeavesDone s a) := by
  rcases a <;> (dsimp only [LeavesDone]; infer_instance)

namespace Request

/-- Nothing is left to do for the request: no task is scheduled, `Run` is over, `Handle` has gone
on, and nobody has `done` to run. -/
def Over (r : Request) : Prop :=
  r.tasks = 0 ∧ r.closure ≠ .counted ∧ (r.multiplexed = false → r.resumed = true) ∧
    (r.kept = true → r.invoked = true)

instance (r : Request) : Decidable r.Over := by
  dsimp only [Over]
  infer_instance

/-- The account of a request of a plain channel. -/
structure Plain (r : Request) : Prop where
  runs : r.runs = if r.invoked then 1 else 0
  outstanding : r.outstandingDecs = r.runs
  pending : r.pendingDecs = if r.resumed then 1 else 0
  tasks : r.tasks = 0
  threw : r.handler = .threw → r.outcome ≠ 0 ∧ (r.invoked = true ∨ r.kept = true)

/-- The account of a multiplexed request. -/
structure Multiplexed (r : Request) : Prop where
  fresh : r.handler = .queued → r.invoked = false
  runs : r.runs = if r.invoked = true ∨ r.handler = .threw then 1 else 0
  outstanding : r.outstandingDecs + r.tasks = r.runs
  pending : r.pendingDecs + r.tasks = r.runs
  closure : r.closure ≠ .counted
  threw : r.handler = .threw → r.kept = false

def Sound (r : Request) : Prop :=
  (r.multiplexed = false → r.Plain) ∧ (r.multiplexed = true → r.Multiplexed)

variable {r : Request}

theorem Multiplexed.runs_of_threw (h : r.Multiplexed) (hthrew : r.handler = .threw) :
    r.runs = 1 := by
  rw [h.runs, if_pos (.inr hthrew)]

theorem finish_eq (r : Request) {value : ℕ} (hvalue : value ≠ 0) :
    ∃ outcome, outcome ≠ 0 ∧ r.finish value = { r with outcome := outcome } := by
  rw [finish]
  split
  · exact ⟨value, hvalue, rfl⟩
  · exact ⟨r.outcome, ‹_›, rfl⟩

/-- The closure and the outcome are not part of the account, except that the outcome is decided once
the handler has thrown. -/
theorem Plain.decided (h : r.Plain) (closure : Closure) {outcome : ℕ} (houtcome : outcome ≠ 0) :
    { r with closure := closure, outcome := outcome }.Plain :=
  ⟨h.runs, h.outstanding, h.pending, h.tasks, fun hthrew => ⟨houtcome, (h.threw hthrew).2⟩⟩

theorem new_sound (multiplexed : Bool) : (new multiplexed).Sound :=
  ⟨fun _ => ⟨rfl, rfl, rfl, rfl, nofun⟩, fun _ => ⟨fun _ => rfl, rfl, rfl, rfl, nofun, nofun⟩⟩

theorem Sound.start (h : r.Sound) (hqueued : r.handler = .queued) :
    { r with handler := .running, closure := .ready }.Sound := by
  refine ⟨fun hmode => ?_, fun hmode => ?_⟩
  · have hp := h.1 hmode
    exact ⟨hp.runs, hp.outstanding, hp.pending, hp.tasks, nofun⟩
  · have hm := h.2 hmode
    refine ⟨nofun, ?_, hm.outstanding, hm.pending, nofun, nofun⟩
    rw [hm.runs, hm.fresh hqueued, hqueued]
    rfl

theorem Sound.handled (h : r.Sound) (hrunning : r.handler = .running) :
    { r with handler := .returned }.Sound := by
  refine ⟨fun hmode => ?_, fun hmode => ?_⟩
  · have hp := h.1 hmode
    exact ⟨hp.runs, hp.outstanding, hp.pending, hp.tasks, nofun⟩
  · have hm := h.2 hmode
    refine ⟨nofun, ?_, hm.outstanding, hm.pending, hm.closure, nofun⟩
    rw [hm.runs, hrunning]
    simp

theorem Sound.finishDone (h : r.Sound) (hcounted : r.closure = .counted) :
    { r.finish 1 with closure := .deleted }.Sound := by
  obtain ⟨outcome, houtcome, heq⟩ := r.finish_eq Nat.one_ne_zero
  rw [heq]
  refine ⟨fun hmode => ?_, fun hmode => ?_⟩
  · exact (h.1 hmode).decided _ houtcome
  · exact absurd hcounted (h.2 hmode).closure

end Request

/-! ### The account of all requests -/

structure Inv (s : Provider) : Prop where
  sound : ∀ k < s.count, (s.requests k).Sound
  outstanding : s.outstanding = ∑ k ∈ range s.count, (1 - ((s.requests k).outstandingDecs : ℤ))
  pendingCount : s.pendingCount = ∑ k ∈ range s.count, (1 - ((s.requests k).pendingDecs : ℤ))

namespace Inv

variable {s s' : Provider} {k : ℕ}

section

variable (h : Inv s)
include h

/-- Request `k` becomes `r`, and the counters follow. -/
theorem change (hk : k < s.count) {r : Request} (hr : r.Sound)
    (hrequests : s'.requests = Function.update s.requests k r) (hcount : s'.count = s.count)
    (houtstanding : s'.outstanding =
      s.outstanding - (r.outstandingDecs - (s.requests k).outstandingDecs))
    (hpending : s'.pendingCount = s.pendingCount - (r.pendingDecs - (s.requests k).pendingDecs)) :
    Inv s' := by
  refine ⟨?_, ?_, ?_⟩
  · rw [hrequests, hcount]
    exact Family.forall_update h.sound hr
  · rw [hrequests, hcount, Family.sum_update (fun r : Request => 1 - (r.outstandingDecs : ℤ)) hk,
      ← h.outstanding, houtstanding]
    omega
  · rw [hrequests, hcount, Family.sum_update (fun r : Request => 1 - (r.pendingDecs : ℤ)) hk,
      ← h.pendingCount, hpending]
    omega

/-- A step that decrements nothing. -/
theorem quiet (hk : k < s.count) {r : Request} (hr : r.Sound)
    (houtstanding : r.outstandingDecs = (s.requests k).outstandingDecs)
    (hpending : r.pendingDecs = (s.requests k).pendingDecs) : Inv (s.setRequest k r) := by
  refine h.change hk hr rfl rfl ?_ ?_
  · rw [houtstanding, sub_self, sub_zero]
    rfl
  · rw [hpending, sub_self, sub_zero]
    rfl

theorem accept (multiplexed : Bool) : Inv (s.accept multiplexed) := by
  refine ⟨Family.forall_add h.sound (Request.new_sound multiplexed), ?_, ?_⟩
  · rw [Provider.accept, Family.sum_add (fun r : Request => 1 - (r.outstandingDecs : ℤ)),
      ← h.outstanding]
    rfl
  · rw [Provider.accept, Family.sum_add (fun r : Request => 1 - (r.pendingDecs : ℤ)),
      ← h.pendingCount]
    rfl

/-- The closure is run for the first time. -/
theorem run (hk : k < s.count) {r : Request}
    (hsame : r.outstandingDecs = (s.requests k).outstandingDecs ∧
      r.pendingDecs = (s.requests k).pendingDecs)
    (hplain : r.multiplexed = false → { r with
      closure := .counted
      runs := r.runs + 1
      outstandingDecs := r.outstandingDecs + 1 }.Plain)
    (hmultiplexed : r.multiplexed = true → { r with
      closure := .deleted
      tasks := r.tasks + 1
      runs := r.runs + 1 }.Multiplexed) : Inv (s.run k r) := by
  rw [Provider.run]
  split
  · rename_i hm
    refine h.quiet hk ⟨fun hp => ?_, fun _ => hmultiplexed hm⟩ hsame.1 hsame.2
    exact absurd (hp.symm.trans hm) (by simp)
  · rename_i hm
    have hp : r.multiplexed = false := by simpa using hm
    refine h.change hk ⟨fun _ => hplain hp, fun hm => ?_⟩ rfl rfl ?_ ?_
    · exact absurd (hp.symm.trans hm) (by simp)
    · show s.outstanding - 1 = _
      push_cast
      rw [hsame.1]
      omega
    · show s.pendingCount = _
      rw [hsame.2]
      omega

theorem invoke (he : throwing.enabled s (.invoke k)) : Inv (s.invoke k) := by
  obtain ⟨hk, hstarted, hfirst, hkept⟩ := he
  have hs := h.sound k hk
  refine h.run hk ⟨rfl, rfl⟩ (fun hmode => ?_) fun hmode => ?_
  · have hp := hs.1 hmode
    refine ⟨?_, ?_, hp.pending, hp.tasks, fun hthrew => ⟨(hp.threw hthrew).1, .inl rfl⟩⟩
    · show (s.requests k).runs + 1 = 1
      rw [hp.runs, hfirst]
      rfl
    · show (s.requests k).outstandingDecs + 1 = (s.requests k).runs + 1
      rw [hp.outstanding]
  · have hm := hs.2 hmode
    have hnot : (s.requests k).handler ≠ .threw := fun hthrew =>
      absurd ((hm.threw hthrew).symm.trans (hkept hthrew)) Bool.false_ne_true
    have hruns : (s.requests k).runs = 0 := by
      rw [hm.runs, hfirst, if_neg (by simpa using hnot)]
    have hout := hm.outstanding
    have hpend := hm.pending
    refine ⟨fun hqueued => absurd hqueued hstarted, ?_, ?_, ?_, nofun,
      fun hthrew => absurd hthrew hnot⟩
    · show (s.requests k).runs + 1 = if true = true ∨ _ then 1 else 0
      rw [hruns, if_pos (.inl rfl)]
    · show (s.requests k).outstandingDecs + ((s.requests k).tasks + 1) = (s.requests k).runs + 1
      omega
    · show (s.requests k).pendingDecs + ((s.requests k).tasks + 1) = (s.requests k).runs + 1
      omega

theorem throw {keeps : Bool} (he : throwing.enabled s (.throw k keeps))
    (hok : LeavesDone s (.throw k keeps)) : Inv (s.throw k keeps) := by
  obtain ⟨hk, hrunning⟩ := he
  have hs := h.sound k hk
  rw [LeavesDone] at hok
  rw [Provider.throw]
  dsimp only
  split
  · rename_i hmode
    have hm := hs.2 hmode
    rw [if_pos hmode] at hok
    have hruns : (s.requests k).runs = 0 := by
      rw [hm.runs, hok.1, hrunning]
      rfl
    have hout := hm.outstanding
    have hpend := hm.pending
    refine h.run hk ⟨rfl, rfl⟩ (fun hp => absurd (hp.symm.trans hmode) (by simp)) fun _ => ?_
    refine ⟨nofun, ?_, ?_, ?_, nofun, fun _ => hok.2⟩
    · show (s.requests k).runs + 1 = if _ ∨ Handler.threw = .threw then 1 else 0
      rw [hruns, if_pos (.inr rfl)]
    · show (s.requests k).outstandingDecs + ((s.requests k).tasks + 1) = (s.requests k).runs + 1
      omega
    · show (s.requests k).pendingDecs + ((s.requests k).tasks + 1) = (s.requests k).runs + 1
      omega
  · rename_i hmode
    have hp := hs.1 (by simpa using hmode)
    rw [if_neg hmode] at hok
    obtain ⟨outcome, houtcome, heq⟩ := Request.finish_eq
      { s.requests k with handler := .threw, kept := keeps } (Nat.succ_ne_zero 1)
    have hthrown : { s.requests k with
        handler := .threw
        kept := keeps
        outcome := outcome }.Plain :=
      ⟨hp.runs, hp.outstanding, hp.pending, hp.tasks, fun _ => ⟨houtcome, hok⟩⟩
    rw [heq]
    exact h.quiet hk ⟨fun _ => hthrown, fun hm => absurd hm hmode⟩ rfl rfl

theorem finish (he : throwing.enabled s (.finish k)) :
    Inv (s.setRequest k ((s.requests k).finish 2)) := by
  obtain ⟨hk, hmode⟩ := he
  have hp := (h.sound k hk).1 hmode
  obtain ⟨outcome, houtcome, heq⟩ := (s.requests k).finish_eq (Nat.succ_ne_zero 1)
  rw [heq]
  refine h.quiet hk ⟨fun _ => hp.decided _ houtcome, fun hm => ?_⟩ rfl rfl
  exact absurd (hmode.symm.trans hm) (by simp)

theorem resume (he : throwing.enabled s (.resume k)) : Inv (s.resume k) := by
  obtain ⟨hk, hmode, -, hfirst⟩ := he
  have hp := (h.sound k hk).1 hmode
  have hresumed : { s.requests k with
      resumed := true
      pendingDecs := (s.requests k).pendingDecs + 1 }.Plain := by
    refine ⟨hp.runs, hp.outstanding, ?_, hp.tasks, hp.threw⟩
    show (s.requests k).pendingDecs + 1 = 1
    rw [hp.pending, hfirst]
    rfl
  refine h.change hk ⟨fun _ => hresumed, fun hm => ?_⟩ rfl rfl ?_ ?_
  · exact absurd (hmode.symm.trans hm) (by simp)
  · show s.outstanding = s.outstanding - (((s.requests k).outstandingDecs : ℤ) -
      (s.requests k).outstandingDecs)
    omega
  · show s.pendingCount - 1 = s.pendingCount - ((((s.requests k).pendingDecs + 1 : ℕ) : ℤ) -
      (s.requests k).pendingDecs)
    omega

theorem settle (he : throwing.enabled s (.settle k)) : Inv (s.settle k) := by
  obtain ⟨hk, htasks⟩ := he
  have hs := h.sound k hk
  refine h.change hk ⟨fun hmode => ?_, fun hmode => ?_⟩ rfl rfl ?_ ?_
  · have hzero := (hs.1 hmode).tasks
    omega
  · have hm := hs.2 hmode
    have hout := hm.outstanding
    have hpend := hm.pending
    refine ⟨hm.fresh, hm.runs, ?_, ?_, hm.closure, hm.threw⟩
    · show (s.requests k).outstandingDecs + 1 + ((s.requests k).tasks - 1) = (s.requests k).runs
      omega
    · show (s.requests k).pendingDecs + 1 + ((s.requests k).tasks - 1) = (s.requests k).runs
      omega
  · show s.outstanding - 1 = _
    push_cast
    omega
  · show s.pendingCount - 1 = _
    push_cast
    omega

theorem next {a : Action} (he : throwing.enabled s a) (hok : LeavesDone s a) :
    Inv (throwing.next s a) := by
  cases a with
  | accept multiplexed => exact h.accept multiplexed
  | start k => exact h.quiet he.1 ((h.sound k he.1).start he.2) rfl rfl
  | invoke k => exact h.invoke he
  | finishDone k =>
    refine h.quiet he.1 ((h.sound k he.1).finishDone he.2) ?_ ?_
    · simp only [Request.finish]
      split <;> rfl
    · simp only [Request.finish]
      split <;> rfl
  | handled k => exact h.quiet he.1 ((h.sound k he.1).handled he.2) rfl rfl
  | throw k keeps => exact h.throw he hok
  | finish k => exact h.finish he
  | resume k => exact h.resume he
  | settle k => exact h.settle he

end

theorem of_init (h : throwing.init s) : Inv s := by
  obtain ⟨hout, hpend, hcount⟩ := h
  refine ⟨fun k hk => ?_, ?_, ?_⟩
  · rw [hcount] at hk
    exact absurd hk (Nat.not_lt_zero k)
  · rw [hout, hcount]
    rfl
  · rw [hpend, hcount]
    rfl

end Inv

/-- A step for request `k` that the runtime takes by itself, or whoever keeps `done`. -/
def Action.Own (k : ℕ) (a : Action) : Prop :=
  a = .finishDone k ∨ a = .resume k ∨ a = .settle k ∨ a = .invoke k

/-- Until the request of a handler that has thrown is over, there is something to do for it. -/
theorem Inv.progress {s : Provider} {k : ℕ} (h : Inv s) (hk : k < s.count)
    (hthrew : (s.requests k).handler = .threw) (hover : ¬(s.requests k).Over) :
    ∃ a, Action.Own k a ∧ throwing.enabled s a := by
  by_cases htasks : 0 < (s.requests k).tasks
  · exact ⟨.settle k, .inr (.inr (.inl rfl)), hk, htasks⟩
  by_cases hcounted : (s.requests k).closure = .counted
  · exact ⟨.finishDone k, .inl rfl, hk, hcounted⟩
  by_cases hkept : (s.requests k).kept = true ∧ (s.requests k).invoked = false
  · refine ⟨.invoke k, .inr (.inr (.inr rfl)), hk, ?_, hkept.2, fun _ => hkept.1⟩
    rw [hthrew]
    decide
  · refine ⟨.resume k, .inr (.inl rfl), hk, ?_⟩
    by_contra hno
    refine hover ⟨by omega, hcounted, fun hmode => ?_, fun hk => ?_⟩
    · by_contra hresumed
      exact hno ⟨hmode, (((h.sound k hk).1 hmode).threw hthrew).1, by simpa using hresumed⟩
    · by_contra hinvoked
      exact hkept ⟨hk, by simpa using hinvoked⟩

/-- When the request of a handler that has thrown is over, each counter has gone down once. -/
theorem Inv.settled {s : Provider} {k : ℕ} (h : Inv s) (hk : k < s.count)
    (hthrew : (s.requests k).handler = .threw) (hover : (s.requests k).Over) :
    (s.requests k).outstandingDecs = 1 ∧ (s.requests k).pendingDecs = 1 := by
  obtain ⟨htasks, -, hresumed, hkept⟩ := hover
  cases hmode : (s.requests k).multiplexed with
  | false =>
    have hp := (h.sound k hk).1 hmode
    have hinvoked : (s.requests k).invoked = true := (hp.threw hthrew).2.elim id hkept
    rw [hp.outstanding, hp.runs, hp.pending, hinvoked, hresumed hmode]
    exact ⟨rfl, rfl⟩
  | true =>
    have hm := (h.sound k hk).2 hmode
    have hruns := hm.runs_of_threw hthrew
    have hout := hm.outstanding
    have hpend := hm.pending
    omega

/-- **Throwing handlers.**  In every run in which the handler of a multiplexed request that throws
leaves `done` alone, and the `done` of a plain one that throws has been run or is kept for being
run: the counters are the numbers of requests not yet counted out; for a request whose handler has
thrown the closure is run at most once and each counter is decremented at most once, and as long as
the request is not over there is a step to take for it; and when it is over, each counter has been
decremented once. -/
theorem throwing_handlers_balanced {s : Provider} (h : throwing.ReachVia LeavesDone s) :
    s.outstanding = ∑ k ∈ range s.count, (1 - ((s.requests k).outstandingDecs : ℤ)) ∧
    s.pendingCount = ∑ k ∈ range s.count, (1 - ((s.requests k).pendingDecs : ℤ)) ∧
    ∀ k < s.count, (s.requests k).handler = .threw →
      ((s.requests k).runs ≤ 1 ∧ (s.requests k).outstandingDecs ≤ 1 ∧
        (s.requests k).pendingDecs ≤ 1) ∧
      (¬(s.requests k).Over → ∃ a, Action.Own k a ∧ throwing.enabled s a) ∧
      ((s.requests k).Over →
        (s.requests k).outstandingDecs = 1 ∧ (s.requests k).pendingDecs = 1) := by
  have hi : Inv s := h.invariant (fun _ => .of_init) fun _ _ hi he hok => hi.next he hok
  refine ⟨hi.outstanding, hi.pendingCount, fun k hk hthrew => ?_⟩
  have hs := hi.sound k hk
  refine ⟨?_, hi.progress hk hthrew, hi.settled hk hthrew⟩
  cases hmode : (s.requests k).multiplexed with
  | false =>
    have hp := hs.1 hmode
    have hruns := hp.runs
    have hpend := hp.pending
    rw [hp.outstanding]
    split at hruns <;> split at hpend <;> omega
  | true =>
    have hm := hs.2 hmode
    have hruns := hm.runs_of_threw hthrew
    have hout := hm.outstanding
    have hpend := hm.pending
    omega

def Provider.empty : Provider := ⟨0, 0, fun _ => .new false, 0⟩

/-- A plain handler that throws behind `done`, a plain one whose closure is run later, and a
multiplexed one that has not run it. -/
def threeHandlers : Provider :=
  throwing.run .empty [.accept false, .accept false, .accept true, .start 0, .start 1, .start 2,
    .invoke 0, .throw 1 true, .finishDone 0, .throw 0 false, .throw 2 false, .resume 0, .resume 1,
    .settle 2, .invoke 1, .finishDone 1]

theorem throwing_handlers_balanced_three :
    (threeHandlers.outstanding = 0 ∧ threeHandlers.pendingCount = 0) ∧
      ∀ k < 3, (threeHandlers.requests k).outstandingDecs = 1 ∧
        (threeHandlers.requests k).pendingDecs = 1 := by
  have hreach : throwing.ReachVia LeavesDone threeHandlers :=
    Machine.reachVia_run (.start ⟨rfl, rfl, rfl⟩) (by decide +kernel)
  refine ⟨by decide +kernel, fun k hk => ?_⟩
  have hthrew : ∀ k < 3, (threeHandlers.requests k).handler = .threw ∧
      (threeHandlers.requests k).Over := by decide +kernel
  have hcount : threeHandlers.count = 3 := by decide +kernel
  exact ((throwing_handlers_balanced hreach).2.2 k (by omega) (hthrew k hk).1).2.2 (hthrew k hk).2

/-- A multiplexed handler that throws behind `done`: the closure is run twice, and both counters
fall below zero.  A plain handler that throws and never runs `done`: the request is over and still
counted in `outstanding`. -/
theorem throwing_handlers_unbalanced :
    (∃ s, throwing.Reach s ∧ s.count = 1 ∧ (s.requests 0).handler = .threw ∧
      (s.requests 0).runs = 2 ∧ s.outstanding = -1 ∧ s.pendingCount = -1) ∧
    ∃ s, throwing.Reach s ∧ s.count = 1 ∧ (s.requests 0).handler = .threw ∧
      (s.requests 0).Over ∧ s.pendingCount = 0 ∧ s.outstanding = 1 := by
  constructor
  · exact ⟨throwing.run .empty [.accept true, .start 0, .invoke 0, .throw 0 false, .settle 0,
        .settle 0],
      Machine.reachVia_run (.start ⟨rfl, rfl, rfl⟩) (by decide +kernel), by decide +kernel⟩
  · exact ⟨throwing.run .empty [.accept false, .start 0, .throw 0 false, .resume 0],
      Machine.reachVia_run (.start ⟨rfl, rfl, rfl⟩) (by decide +kernel), by decide +kernel⟩

end PulsarRuntime.Rpc.Throwing
