import PulsarRuntime.Rpc.Decode
import PulsarRuntime.Rpc.Reservation

/-!
# The wire buffers of the server

An iteration of `Provider::State::Handle` has up to three buffers: `header_data`, `args`, and for a
request that is not multiplexed the `payload` of the response.  Before it allocates one it calls
`Add` of its `Reservation` with the size; the destructor runs at the end of the iteration, after
those of the buffers.  The reservations are those of `Rpc.Reservation`, step by step
(`reserved_reach`): iteration `k` has reservation `k`.

The iteration of a multiplexed request ends with the submission.  Its response is serialized by the
task that `MultiplexDoneClosure` schedules, which has no reservation.
-/

namespace PulsarRuntime.Rpc.Buffers

open Finset (range)
open Reservations (Reservation reservations)

/-- An iteration of `Handle`, from the constructor of its reservation on. -/
structure Iteration where
  /-- the sizes of `header_data`, `args` and `payload`, as far as they are allocated -/
  buffers : List ℕ
  /-- the argument of an `Add` behind which nothing has been allocated yet -/
  wanted : Option UInt64
  /-- the buffers are gone, the destructor of the reservation comes next -/
  left : Bool

/-- The check before the next `Add`. -/
def Iteration.admits (i : Iteration) (amount : UInt64) : Bool :=
  match i.buffers with
  | [] => headerAccepted amount.toNat
  | [headerSize] => argsAccepted headerSize amount.toNat
  | [_, _] => amount.toNat ≤ kMaxMessage
  | _ => false

/-- A multiplexed request, from its submission on. -/
inductive Task where
  /-- the closure has not been run, or its task has not started -/
  | waiting (reqId : ℕ)
  /-- has `payload` -/
  | serialized (reqId : ℕ) (c : Completion)
  /-- has `encoded` as well -/
  | encoded (reqId : ℕ) (c : Completion)
  /-- has `frame` as well -/
  | framed (reqId : ℕ) (c : Completion)
  | ended
  deriving DecidableEq

/-- What a task that has started sends. -/
def Task.response : Task → Option Completion
  | .serialized _ c | .encoded _ c | .framed _ c => some c
  | _ => none

/-- Counts a task that has started and not ended. -/
def Task.started (task : Task) : ℤ := if task.response.isSome then 1 else 0

/-- The size of `payload`. -/
def payloadSize : Completion → ℕ
  | .response payload => payload.length
  | _ => 0

/-- The size of `encoded`. -/
def encodedSize [HeaderCodec] (reqId : ℕ) (c : Completion) : ℕ :=
  (responseFrame reqId c).header.serialize.length

/-- `frame.reserve(5 + encoded.size() + payload.size())` -/
def frameSize [HeaderCodec] (reqId : ℕ) (c : Completion) : ℕ :=
  5 + encodedSize reqId c + payloadSize c

def Task.held [HeaderCodec] : Task → ℕ
  | .serialized _ c => payloadSize c
  | .encoded reqId c => payloadSize c + encodedSize reqId c
  | .framed reqId c => payloadSize c + encodedSize reqId c + frameSize reqId c
  | _ => 0

structure Provider where
  reserved : Reservations.State
  iterations : ℕ → Iteration
  tasks : ℕ → Task
  taskCount : ℕ

namespace Provider

variable (s : Provider)

/-- `max_buffered_bytes` -/
def limit : ℤ := s.reserved.maxBufferedBytes.toNat

def bufferedBytes : ℤ := s.reserved.bufferedBytes.toNat

def setIteration (k : ℕ) (i : Iteration) : Provider :=
  { s with iterations := Function.update s.iterations k i }

def setTask (t : ℕ) (task : Task) : Provider := { s with tasks := Function.update s.tasks t task }

/-- When `Handle` takes a step of its reservation. -/
def permits : Reservations.Action → Prop
  | .load k amount => (s.iterations k).left = false ∧ (s.iterations k).wanted = none ∧
      (s.iterations k).admits amount = true
  | .destroy k => (s.iterations k).left = true
  | _ => True

/-- A step of a reservation; the constructor begins an iteration. -/
def reserve (a : Reservations.Action) : Provider :=
  { s with
    reserved := reservations.next s.reserved a
    iterations :=
      match a with
      | .create => Function.update s.iterations s.reserved.count ⟨[], none, false⟩
      | .load k amount =>
        Function.update s.iterations k { s.iterations k with wanted := some amount }
      | _ => s.iterations }

/-- `Add` has returned `true`, and the buffer is constructed. -/
def allocate (k : ℕ) (amount : UInt64) : Provider :=
  s.setIteration k { s.iterations k with
    buffers := (s.iterations k).buffers ++ [amount.toNat]
    wanted := none }

/-- The iteration ends: its buffers are destroyed. -/
def leave (k : ℕ) : Provider := s.setIteration k ⟨[], none, true⟩

/-- A multiplexed request goes to the executor, and the iteration ends. -/
def submit (k reqId : ℕ) : Provider :=
  { s.leave k with
    tasks := Function.update s.tasks s.taskCount (.waiting reqId)
    taskCount := s.taskCount + 1 }

/-- What the iterations of `Handle` hold. -/
def handleBytes : ℤ := ∑ k ∈ range s.reserved.count, ((s.iterations k).buffers.sum : ℤ)

/-- What the response tasks hold. -/
def taskBytes [HeaderCodec] : ℤ := ∑ t ∈ range s.taskCount, ((s.tasks t).held : ℤ)

/-- The response tasks that have started and not ended. -/
def inFlight : ℤ := ∑ t ∈ range s.taskCount, (s.tasks t).started

end Provider

/-- Steps of the iteration `k` of some `Handle` and of the task `t` of a multiplexed request. -/
inductive Action where
  | reserve (a : Reservations.Action)
  | allocate (k : ℕ) (amount : UInt64)
  | leave (k : ℕ)
  | submit (k reqId : ℕ)
  | serialize (t reqId : ℕ) (c : Completion)
  | encode (t reqId : ℕ) (c : Completion)
  | frame (t reqId : ℕ) (c : Completion)
  /-- the response has been written, or not -/
  | finish (t reqId : ℕ) (c : Completion)

/-- Requests of both kinds on any number of connections. -/
def buffers : Machine Provider Action where
  init s := reservations.init s.reserved ∧ s.taskCount = 0
  enabled s
    | .reserve a => reservations.enabled s.reserved a ∧ s.permits a
    | .allocate k amount => k < s.reserved.count ∧ (s.reserved.reservations k).pc = .idle ∧
        (s.reserved.reservations k).result = some true ∧ (s.iterations k).wanted = some amount
    | .leave k => k < s.reserved.count ∧ (s.reserved.reservations k).pc = .idle ∧
        ((s.iterations k).buffers ≠ [] ∧ (s.iterations k).wanted = none ∨
          (s.reserved.reservations k).result = some false)
    | .submit k reqId => k < s.reserved.count ∧ (s.reserved.reservations k).pc = .idle ∧
        (s.iterations k).buffers.length = 2 ∧ (s.iterations k).wanted = none ∧ reqId ≠ 0
    | .serialize t reqId _ => t < s.taskCount ∧ s.tasks t = .waiting reqId
    | .encode t reqId c => t < s.taskCount ∧ s.tasks t = .serialized reqId c
    | .frame t reqId c => t < s.taskCount ∧ s.tasks t = .encoded reqId c
    | .finish t reqId c => t < s.taskCount ∧ s.tasks t = .framed reqId c
  next s
    | .reserve a => s.reserve a
    | .allocate k amount => s.allocate k amount
    | .leave k => s.leave k
    | .submit k reqId => s.submit k reqId
    | .serialize t reqId c => s.setTask t (.serialized reqId c)
    | .encode t reqId c => s.setTask t (.encoded reqId c)
    | .frame t reqId c => s.setTask t (.framed reqId c)
    | .finish t _ _ => s.setTask t .ended

instance decidablePermits (s : Provider) (a : Reservations.Action) : Decidable (s.permits a) := by
  rcases a <;> (dsimp only [Provider.permits]; infer_instance)

instance decidableEnabled (s : Provider) (a : Action) : Decidable (buffers.enabled s a) := by
  rcases a <;> (dsimp only [buffers]; infer_instance)

/-- The three buffers of a task whose `payload` has up to `size` bytes; `encoded` has up to 57. -/
def taskSize (size : ℕ) : ℕ := size + 57 + (5 + 57 + size)

/-- Responses have up to `size` bytes, and there is room for the tasks in flight and for one that
starts.  An amount is reserved while none is in flight, or it does not fit in at all, or it fits in
beside as many tasks of that size as are in flight. -/
def Roomy (size : ℕ) (s : Provider) : Action → Prop
  | .reserve (.exchange _ amount _ _) => s.inFlight = 0 ∨ s.limit < s.bufferedBytes + amount.toNat ∨
      s.bufferedBytes + amount.toNat + s.inFlight * taskSize size ≤ s.limit
  | .serialize _ _ c => payloadSize c ≤ size ∧
      s.bufferedBytes + (s.inFlight + 1) * taskSize size ≤ s.limit
  | _ => True

instance decidableRoomy (size : ℕ) (s : Provider) (a : Action) : Decidable (Roomy size s a) := by
  rcases a with a | _ | _ | _ | _ | _ | _ | _
  · rcases a <;> (dsimp only [Roomy]; infer_instance)
  all_goals (dsimp only [Roomy]; infer_instance)

namespace Provider

variable {s : Provider} {k : ℕ} {a : Action}

/-! ### The reservations cover the buffers -/

/-- A step is one of the reservations or leaves them alone. -/
theorem reserved_next (he : buffers.enabled s a) :
    (∃ b, a = .reserve b ∧ reservations.enabled s.reserved b ∧
      (buffers.next s a).reserved = reservations.next s.reserved b) ∨
    (buffers.next s a).reserved = s.reserved := by
  cases a with
  | reserve b => exact .inl ⟨b, rfl, he.1, rfl⟩
  | _ => exact .inr rfl

/-- The reservations of a run of the server are a run of the reservations. -/
theorem reserved_reach (h : buffers.Reach s) : reservations.Reach s.reserved := by
  refine h.invariant (I := fun s => reservations.Reach s.reserved)
    (fun _ (hs : buffers.init _) => .start hs.1) fun s a hs he => ?_
  rcases reserved_next he with ⟨b, -, hb, heq⟩ | heq <;> rw [heq]
  · exact .step hs hb trivial
  · exact hs

/-- The reservation of an iteration covers its buffers, and one that `Add` has just granted. -/
structure Covered (r : Reservation) (i : Iteration) : Prop where
  held : i.buffers.sum ≤ r.bytes.toNat
  granted : r.pc = .idle → r.result = some true → ∀ amount, i.wanted = some amount →
    i.buffers.sum + amount.toNat ≤ r.bytes.toNat
  adding : ∀ amount current, r.pc = .adding amount current → i.wanted = some amount
  exchanged : ∀ amount, r.pc = .exchanged amount → i.wanted = some amount
  left : i.left = true → i.buffers = [] ∧ i.wanted = none
  destroyed : r.pc = .destroyed → i.buffers = []

def AllCovered (s : Provider) : Prop :=
  ∀ k < s.reserved.count, Covered (s.reserved.reservations k) (s.iterations k)

/-- Between two calls of `Add`. -/
theorem Covered.of_idle {r : Reservation} {i : Iteration} (hpc : r.pc = .idle)
    (hheld : i.buffers.sum ≤ r.bytes.toNat)
    (hgranted : r.result = some true → ∀ amount, i.wanted = some amount →
      i.buffers.sum + amount.toNat ≤ r.bytes.toNat)
    (hleft : i.left = true → i.buffers = [] ∧ i.wanted = none) : Covered r i where
  held := hheld
  granted := fun _ => hgranted
  adding := fun _ _ hp => (by rw [hpc] at hp; cases hp)
  exchanged := fun _ hp => (by rw [hpc] at hp; cases hp)
  left := hleft
  destroyed := fun hp => (by rw [hpc] at hp; cases hp)

theorem Covered.le_share {r : Reservation} {i : Iteration} (h : Covered r i) :
    (i.buffers.sum : ℤ) ≤ r.share := by
  have hheld := h.held
  have hdestroyed := h.destroyed
  rw [Reservation.share, Reservation.live]
  split
  next hpc =>
    rw [hdestroyed hpc]
    simp
  · omega

theorem handleBytes_le (hres : Reservations.Inv s.reserved) (h : s.AllCovered) :
    s.handleBytes ≤ s.bufferedBytes := by
  rw [bufferedBytes, hres.total, handleBytes]
  exact Finset.sum_le_sum fun k hk => (h k (Finset.mem_range.mp hk)).le_share

/-- A step of one iteration. -/
theorem AllCovered.setIteration (h : s.AllCovered) {i : Iteration}
    (hi : Covered (s.reserved.reservations k) i) : (s.setIteration k i).AllCovered :=
  Family.forall_update (P := fun j i => Covered (s.reserved.reservations j) i) h hi

/-- A step of one reservation. -/
theorem AllCovered.setReservation (h : s.AllCovered) {r : Reservation}
    (hr : Covered r (s.iterations k)) :
    ∀ j < s.reserved.count, Covered (Function.update s.reserved.reservations k r j)
      (s.iterations j) :=
  Family.forall_update (P := fun j r => Covered r (s.iterations j)) h hr

theorem leave_covered (h : s.AllCovered) (hpc : (s.reserved.reservations k).pc = .idle) :
    (s.leave k).AllCovered :=
  h.setIteration (.of_idle hpc (Nat.zero_le _) (fun _ _ hw => (by cases hw)) fun _ => ⟨rfl, rfl⟩)

theorem exchange_covered (h : s.AllCovered) (hk : k < s.reserved.count) {amount current : UInt64}
    (hpc : (s.reserved.reservations k).pc = .adding amount current) (spurious : Bool) :
    (s.reserve (.exchange k amount current spurious)).AllCovered := by
  have hc := h k hk
  have hwanted := hc.adding amount current hpc
  have hcount : (s.reserve (.exchange k amount current spurious)).reserved.count =
      s.reserved.count := by
    change (s.reserved.exchange k amount current spurious).count = _
    rw [Reservations.State.exchange]
    split
    · rfl
    · split <;> rfl
  rw [AllCovered, hcount]
  change ∀ j < s.reserved.count,
    Covered ((s.reserved.exchange k amount current spurious).reservations j) (s.iterations j)
  rw [Reservations.State.exchange]
  split
  · exact h.setReservation (.of_idle rfl hc.held (fun hr => (by cases hr)) hc.left)
  · split
    · exact h.setReservation ⟨hc.held, fun hp => (by cases hp), fun _ _ hp => (by cases hp),
        fun _ hp => Reservations.Pc.exchanged.inj hp ▸ hwanted, hc.left, fun hp => (by cases hp)⟩
    · exact h.setReservation ⟨hc.held, fun hp => (by cases hp),
        fun _ _ hp => (Reservations.Pc.adding.inj hp).1 ▸ hwanted, fun _ hp => (by cases hp),
        hc.left, fun hp => (by cases hp)⟩

theorem reserve_covered (hres : Reservations.Inv s.reserved) (h : s.AllCovered)
    {a : Reservations.Action} (he : reservations.enabled s.reserved a) (hp : s.permits a) :
    (s.reserve a).AllCovered := by
  cases a with
  | create =>
    intro j hj
    rcases Nat.lt_succ_iff_lt_or_eq.mp hj with hj | rfl
    · change Covered (Function.update s.reserved.reservations s.reserved.count _ j)
        (Function.update s.iterations s.reserved.count _ j)
      rw [Function.update_of_ne (Nat.ne_of_lt hj), Function.update_of_ne (Nat.ne_of_lt hj)]
      exact h j hj
    · change Covered (Function.update s.reserved.reservations s.reserved.count _ s.reserved.count)
        (Function.update s.iterations s.reserved.count _ s.reserved.count)
      rw [Function.update_self, Function.update_self]
      exact .of_idle rfl (Nat.zero_le _) (fun hr => (by cases hr)) fun hl => (by cases hl)
  | load k amount =>
    have hc := h k he.1
    intro j hj
    change Covered (Function.update s.reserved.reservations k _ j)
      (Function.update s.iterations k _ j)
    by_cases hjk : j = k
    · subst hjk
      rw [Function.update_self, Function.update_self]
      exact ⟨hc.held, fun hp => (by cases hp),
        fun _ _ hp => congrArg some (Reservations.Pc.adding.inj hp).1, fun _ hp => (by cases hp),
        fun hl => absurd (hp.1.symm.trans hl) Bool.false_ne_true, fun hp => (by cases hp)⟩
    · rw [Function.update_of_ne hjk, Function.update_of_ne hjk]
      exact h j hj
  | exchange k amount current spurious => exact exchange_covered h he.1 he.2 spurious
  | record k amount =>
    have hc := h k he.1
    have hheld := hc.held
    have hexact : Reservations.Exact s.reserved (.record k amount) :=
      Reservations.exact_of_inv hres he
    rw [Reservations.Exact] at hexact
    refine h.setReservation (.of_idle rfl ?_ (fun _ wanted hw => ?_) hc.left)
    · rw [hexact]
      omega
    · rw [hc.exchanged amount he.2] at hw
      rw [hexact, ← Option.some.inj hw]
      omega
  | destroy k =>
    have hc := h k he.1
    exact h.setReservation ⟨hc.held, fun hp => (by cases hp), fun _ _ hp => (by cases hp),
      fun _ hp => (by cases hp), hc.left, fun _ => (hc.left hp).1⟩

theorem next_covered (hres : Reservations.Inv s.reserved) (h : s.AllCovered)
    (he : buffers.enabled s a) : (buffers.next s a).AllCovered := by
  cases a with
  | reserve b => exact reserve_covered hres h he.1 he.2
  | allocate k amount =>
    obtain ⟨hk, hpc, hresult, hwanted⟩ := he
    have hc := h k hk
    refine h.setIteration (.of_idle hpc ?_ (fun _ _ hw => (by cases hw)) fun hleft => ?_)
    · rw [List.sum_append, List.sum_singleton]
      exact hc.granted hpc hresult amount hwanted
    · rw [(hc.left hleft).2] at hwanted
      cases hwanted
  | leave k => exact leave_covered h he.2.1
  | submit k reqId => exact leave_covered h he.2.1
  | _ => exact h

theorem covered_of_reach (h : buffers.Reach s) : s.AllCovered := by
  induction h with
  | start hs =>
    intro k hk
    rw [hs.1.2] at hk
    cases hk
  | step hr he _ ih => exact next_covered (Reservations.inv_of_reach (reserved_reach hr)) ih he

/-! ### The tasks -/

/-- The response of the task, if it has started, has up to `size` bytes. -/
def Small (size : ℕ) (task : Task) : Prop := ∀ c, task.response = some c → payloadSize c ≤ size

/-- The responses are small, and there is room for the tasks in flight. -/
structure Within (size : ℕ) (s : Provider) : Prop where
  reservations : Reservations.Inv s.reserved
  covered : s.AllCovered
  small : ∀ t < s.taskCount, Small size (s.tasks t)
  room : s.bufferedBytes + s.inFlight * taskSize size ≤ s.limit

variable {size : ℕ}

theorem inFlight_setTask {t : ℕ} (ht : t < s.taskCount) (task : Task) :
    (s.setTask t task).inFlight = s.inFlight + (task.started - (s.tasks t).started) :=
  Family.sum_update Task.started ht task

theorem setTask_within (h : s.Within size) {t : ℕ} (ht : t < s.taskCount) {task : Task}
    (hsmall : Small size task)
    (hroom : s.bufferedBytes + (s.inFlight + (task.started - (s.tasks t).started)) *
      taskSize size ≤ s.limit) : (s.setTask t task).Within size := by
  refine ⟨h.reservations, h.covered,
    Family.forall_update (P := fun _ => Small size) h.small hsmall, ?_⟩
  rw [inFlight_setTask ht]
  exact hroom

/-- A task that goes on. -/
theorem setTask_within_same (h : s.Within size) {t : ℕ} (ht : t < s.taskCount) {task : Task}
    (hresponse : task.response = (s.tasks t).response) : (s.setTask t task).Within size := by
  refine setTask_within h ht (fun c hc => h.small t ht c (hresponse ▸ hc)) ?_
  rw [Task.started, Task.started, hresponse, sub_self, add_zero]
  exact h.room

theorem reserve_within (h : s.Within size) {b : Reservations.Action}
    (he : buffers.enabled s (.reserve b)) (hok : Roomy size s (.reserve b)) :
    (s.reserve b).Within size := by
  have hnext := h.reservations.next he.1
  refine ⟨hnext, reserve_covered h.reservations h.covered he.1 he.2, h.small, ?_⟩
  have hroom := h.room
  have hbounded := hnext.bounded
  obtain ⟨hmax, hbuffered⟩ := h.reservations.buffered_next he.1
  rw [hmax] at hbounded
  change ((reservations.next s.reserved b).bufferedBytes.toNat : ℤ) + s.inFlight * taskSize size ≤
    (reservations.next s.reserved b).maxBufferedBytes.toNat
  rw [hmax]
  simp only [bufferedBytes, limit] at hroom
  rcases hbuffered with hle | ⟨k, amount, current, spurious, rfl, heq⟩
  · omega
  · simp only [Roomy, bufferedBytes, limit] at hok
    rcases hok with hnone | hrefused | hfits
    · rw [hnone, zero_mul]
      omega
    · omega
    · omega

theorem next_within (h : s.Within size) (he : buffers.enabled s a) (hok : Roomy size s a) :
    (buffers.next s a).Within size := by
  have hcovered := next_covered h.reservations h.covered he
  cases a with
  | reserve b => exact reserve_within h he hok
  | allocate k amount => exact ⟨h.reservations, hcovered, h.small, h.room⟩
  | leave k => exact ⟨h.reservations, hcovered, h.small, h.room⟩
  | submit k reqId =>
    have hwaiting : Small size (.waiting reqId) := fun c hc => (by cases hc)
    refine ⟨h.reservations, hcovered,
      Family.forall_add (P := fun _ => Small size) h.small hwaiting, ?_⟩
    have hsum : (s.submit k reqId).inFlight = s.inFlight :=
      (Family.sum_add Task.started _).trans (add_zero _)
    change s.bufferedBytes + (s.submit k reqId).inFlight * taskSize size ≤ s.limit
    rw [hsum]
    exact h.room
  | serialize t reqId c =>
    refine setTask_within h he.1 (fun c' hc => Option.some.inj hc ▸ hok.1) ?_
    rw [he.2]
    exact hok.2
  | encode t reqId c => exact setTask_within_same h he.1 (by rw [he.2]; rfl)
  | frame t reqId c => exact setTask_within_same h he.1 (by rw [he.2]; rfl)
  | finish t reqId c =>
    refine setTask_within h he.1 (fun c' hc => (by cases hc)) ?_
    have hroom := h.room
    rw [he.2]
    change s.bufferedBytes + (s.inFlight + (0 - 1)) * (taskSize size : ℤ) ≤ s.limit
    rw [add_mul]
    omega

theorem within_of_reach (h : buffers.ReachVia (Roomy size) s) : s.Within size := by
  refine h.invariant (I := Within size) (fun s hs => ?_) fun _ _ hi he hok => next_within hi he hok
  have hnone : ∀ k, ¬k < s.taskCount := fun k hk => by
    rw [hs.2] at hk
    cases hk
  have hreach : buffers.Reach s := .start hs
  refine ⟨Reservations.inv_of_reach (reserved_reach hreach), covered_of_reach hreach,
    fun t ht => absurd ht (hnone t), ?_⟩
  rw [inFlight, hs.2, Finset.range_zero, Finset.sum_empty, zero_mul, add_zero, bufferedBytes,
    hs.1.1]
  exact Int.natCast_nonneg _

section Codec

variable [HeaderCodec]

theorem held_le (hcompact : Compact) {task : Task} (hsmall : Small size task) :
    (task.held : ℤ) ≤ task.started * taskSize size := by
  have hencoded : ∀ reqId c, encodedSize reqId c ≤ 57 := responseFrame_short hcompact
  cases task with
  | waiting reqId => exact le_of_eq (zero_mul _).symm
  | ended => exact le_of_eq (zero_mul _).symm
  | serialized reqId c | encoded reqId c | framed reqId c =>
    have hpayload := hsmall c rfl
    have hshort := hencoded reqId c
    simp only [Task.held, Task.started, Task.response, frameSize, taskSize, Option.isSome_some,
      if_true, one_mul]
    push_cast
    omega

theorem taskBytes_le (hcompact : Compact) (h : s.Within size) :
    s.taskBytes ≤ s.inFlight * taskSize size := by
  rw [taskBytes, inFlight, Finset.sum_mul]
  exact Finset.sum_le_sum fun t ht => held_le hcompact (h.small t (Finset.mem_range.mp ht))

/-- **Wire buffers are bounded.**  The iterations of `Handle` alone never hold more than
`buffered_bytes`, nor that more than `max_buffered_bytes`; together with the response tasks of
multiplexed requests they are within the limit in every run that leaves room for as many responses
of the largest size as are in flight. -/
theorem wire_buffers_bounded (s : Provider) :
    (buffers.Reach s → s.handleBytes ≤ s.bufferedBytes ∧ s.bufferedBytes ≤ s.limit) ∧
    (Compact → ∀ size, buffers.ReachVia (Roomy size) s →
      s.handleBytes + s.taskBytes ≤ s.limit) := by
  constructor
  · intro h
    have hres := Reservations.inv_of_reach (reserved_reach h)
    exact ⟨handleBytes_le hres (covered_of_reach h), Int.ofNat_le.mpr hres.bounded⟩
  · intro hcompact size h
    have hi := within_of_reach h
    calc s.handleBytes + s.taskBytes
        ≤ s.bufferedBytes + s.inFlight * taskSize size :=
          add_le_add (handleBytes_le hi.reservations hi.covered) (taskBytes_le hcompact hi)
      _ ≤ s.limit := hi.room

end Codec

section Runs

open Proto3

/-- A provider with this limit. -/
def idle (limit : UInt64) : Provider :=
  ⟨⟨limit, 0, fun _ => ⟨.idle, 0, none, 0⟩, 0⟩, fun _ => ⟨[], none, false⟩, fun _ => .ended, 0⟩

/-- Iteration `k` reserves and allocates the next buffer when `current` bytes are reserved. -/
def reads (k : ℕ) (amount current : UInt64) : List Action :=
  [.reserve (.load k amount), .reserve (.exchange k amount current false),
    .reserve (.record k amount), .allocate k amount]

/-- A multiplexed request with 10 and 20 bytes is submitted. -/
def submitted : List Action :=
  List.flatten [[.reserve .create], reads 0 10 0, reads 0 20 10, [.submit 0 1,
    .reserve (.destroy 0)]]

/-- Its response is written while a request that is not multiplexed is read. -/
theorem wire_buffers_bounded_response :
    let s := buffers.run (idle 200) (List.flatten [submitted, [.serialize 0 1 (.response [5, 5])],
      [.reserve .create], reads 1 10 0, [.encode 0 1 (.response [5, 5])], reads 1 20 10,
      [.frame 0 1 (.response [5, 5])]])
    s.handleBytes = 30 ∧ s.taskBytes = 17 ∧ s.handleBytes + s.taskBytes ≤ s.limit := by
  refine ⟨by decide +kernel, by decide +kernel, ?_⟩
  exact (wire_buffers_bounded _).2 compact 2
    (Machine.reachVia_run (.start ⟨⟨rfl, rfl⟩, rfl⟩) (by decide +kernel))

/-- The response has 100 bytes. -/
theorem response_not_reserved : ∃ s, buffers.Reach s ∧ s.limit = 64 ∧ s.bufferedBytes = 0 ∧
    s.handleBytes + s.taskBytes = 100 :=
  ⟨buffers.run (idle 64) (submitted ++ [.serialize 0 1 (.response (List.replicate 100 0))]),
    Machine.reachVia_run (.start ⟨⟨rfl, rfl⟩, rfl⟩) (by decide +kernel), rfl, by decide +kernel,
    by decide +kernel⟩

end Runs

end Provider

end PulsarRuntime.Rpc.Buffers
