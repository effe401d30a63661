import PulsarRuntime.Lib.Family
import PulsarRuntime.Rpc.Framing
import PulsarRuntime.Rpc.Remote

/-!
# What passes between the ends

The invariant of `Remote`.  The requests that `Handle` has read are the first of the frames on `up`,
in the order in which their writers began (`Stream.Passed`).  Each frame on `down` is the completion
of a request and carries its id.  As long as no two calls have the same id, the id leads back to the
call that made the request, and what `ReaderLoop` stores there is how this very request was
completed.
-/

namespace PulsarRuntime.Rpc

namespace Remote

/-! ### Requests and the map of calls -/

/-- The request is what this frame says. -/
def Served.For (r : Served) (f : Frame) : Prop := r.header = f.header ∧ r.args = f.args

/-- Requests are added and completed, and stay so. -/
structure Extends (requests : ℕ → Served) (count : ℕ) (requests' : ℕ → Served) (count' : ℕ) :
    Prop where
  le : count ≤ count'
  same : ∀ j < count, (requests' j).header = (requests j).header ∧
    (requests' j).args = (requests j).args
  completed : ∀ j < count, ∀ c, (requests j).stage = .completed c →
    (requests' j).stage = .completed c

theorem Extends.refl (requests : ℕ → Served) (count : ℕ) : Extends requests count requests count :=
  ⟨le_rfl, fun _ _ => ⟨rfl, rfl⟩, fun _ _ _ h => h⟩

variable {j : ℕ}

theorem Extends.served {requests requests' : ℕ → Served} {count count' : ℕ}
    (h : Extends requests count requests' count') (hj : j < count) {f : Frame}
    (hfor : (requests j).For f) : (requests' j).For f := by
  obtain ⟨hheader, hargs⟩ := h.same j hj
  exact ⟨hheader.trans hfor.1, hargs.trans hfor.2⟩

variable {s : State} {id : ℕ}

theorem State.erase_none (h : s.pending id = none) (by_ : Session.Remover) :
    s.erase id by_ = s := by
  rw [State.erase, h]

variable {k : ℕ}

theorem State.erase_some (h : s.pending id = some k) (by_ : Session.Remover) : s.erase id by_ =
      { s with
        calls := Function.update s.calls k { s.calls k with removedBy := some by_ }
        pending := Function.update s.pending id none } := by
  rw [State.erase, h]
  rfl

theorem State.erase_streams (s : State) (id : ℕ) (by_ : Session.Remover) :
    (s.erase id by_).up = s.up ∧ (s.erase id by_).down = s.down := by
  rw [State.erase]
  split <;> exact ⟨rfl, rfl⟩

theorem State.setStage_self {stage : Stage} :
    (s.setStage j stage).requests j = { s.requests j with stage := stage } :=
  Function.update_self ..

theorem State.setStage_ne {i : ℕ} (h : i ≠ j) {stage : Stage} :
    (s.setStage j stage).requests i = s.requests i := Function.update_of_ne h ..

/-- Whoever takes the call out of the map may set it. -/
theorem State.erase_setCall (h : s.pending id = some k)
    (by_ : Session.Remover) (c : Call) : (s.erase id by_).setCall k c =
      { s with
        calls := Function.update s.calls k c
        pending := Function.update s.pending id none } := by
  rw [State.erase_some h, State.setCall, Function.update_idem]

theorem State.erase_calls (h : s.pending id = some k) (by_ : Session.Remover) :
    (s.erase id by_).calls k = { s.calls k with removedBy := some by_ } := by
  rw [State.erase_some h]
  exact Function.update_self ..

end Remote

/-! ### Frames -/

theorem fetchRequestId_ne_zero (next : ℕ) : (fetchRequestId next).1 ≠ 0 := by
  rw [fetchRequestId]
  split
  · exact Nat.one_ne_zero
  · assumption

variable [HeaderCodec]

/-- A frame that `CallMethod` sends. -/
def Framed (f : Frame) : Prop := ∃ r : Request, r.frame = some f ∧ r.reqId ≠ 0

theorem Framed.accepted {f : Frame} (h : Framed f) :
    headerAccepted f.header.serialize.length = true ∧
      argsAccepted f.header.serialize.length f.header.argsSize = true := by
  obtain ⟨r, hr, -⟩ := h
  exact (Request.frame_some hr).2

theorem Framed.requestId {f : Frame} (h : Framed f) : f.header.requestId ≠ 0 := by
  obtain ⟨r, hr, hid⟩ := h
  rw [(Prod.mk.inj (Request.frame_some hr).1).1]
  exact hid

/-- The size of the header of a response is one byte. -/
theorem responseFrame_first_byte (hcompact : Compact) (id : ℕ) (c : Completion) :
    ∃ b tail, (responseFrame id c).bytes = b :: tail ∧ b < 128 := by
  have hshort := responseFrame_short hcompact id c
  refine ⟨UInt8.ofNat (responseFrame id c).header.serialize.length,
    (responseFrame id c).header.serialize ++ (responseFrame id c).args, ?_, ?_⟩
  · rw [Frame.bytes, encodeVarint32, encodeVarint, if_neg (by omega), List.append_assoc]
    rfl
  · rw [UInt8.lt_iff_toNat_lt, UInt8.toNat_ofNat', Nat.mod_eq_of_lt (by omega)]
    exact Nat.lt_of_le_of_lt hshort (by decide)

/-- A request takes a writer unless it is too large. -/
theorem Stream.call_request (s : Stream) (serviceName methodName args : List UInt8) :
    let t := s.call (.request serviceName methodName args)
    t.count = s.count ∨ t.count = s.count + 1 ∧ ∃ f,
      requestFrame serviceName methodName args (fetchRequestId s.nextRequestId).1 = some f ∧
        t.writers s.count = ⟨f, 0, .waiting⟩ := by
  intro t
  cases hframe : requestFrame serviceName methodName args (fetchRequestId s.nextRequestId).1 with
  | none =>
    left
    simp only [t, Stream.call, hframe]
  | some f =>
    right
    simp only [t, Stream.call, hframe]
    exact ⟨rfl, f, rfl, Function.update_self ..⟩

/-- The other steps add no writer. -/
theorem Stream.count_next (side : Side) (s : Stream) {a : StreamAction}
    (h : Remote.isCall a = false) : ((stream side).next s a).count = s.count := by
  cases a with
  | call m => cases h
  | enter k =>
    change (s.enter k).count = _
    unfold Stream.enter
    split <;> rfl
  | _ => rfl

/-- The frame that is read is the next one on the stream. -/
theorem Stream.Passed.readFrame {s : Stream} {order : List ℕ} {n read : ℕ}
    (h : s.Passed order n read) {parse : List UInt8 → Option RpcHeader} {admits : ℕ → ℕ → Bool}
    (hframes : ∀ k < s.count, (s.writers k).frame.Readable parse admits) {cut rest : Socket}
    {r : RpcHeader × List UInt8} (harrived : cut.bytes <+: s.sent.drop read)
    (hread : Rpc.readFrame parse admits cut = some (r, rest)) :
    ∃ k < s.count, order[n]? = some k ∧
      r = ((s.writers k).frame.header, (s.writers k).frame.args) ∧
      s.Passed order (n + 1) (read + (cut.bytes.length - rest.bytes.length)) := by
  obtain ⟨lost, hlost⟩ := h.ahead harrived
  obtain ⟨rest', hcarries⟩ := h.carries
  cases hdrop : order.drop n with
  | nil =>
    rw [hdrop] at hlost
    have hshorter := readFrame_shorter hread
    rw [(List.append_eq_nil_iff.mp hlost).1] at hshorter
    cases hshorter
  | cons k more =>
    rw [hdrop] at hlost
    have hk : order[n]? = some k := by
      rw [← List.head?_drop, hdrop]
      rfl
    have hlt := ((hcarries.begun k).mp (List.mem_of_getElem? hk)).1
    obtain ⟨hr, hcut⟩ := readFrame_arrived (hframes k hlt) hlost hread
    exact ⟨k, hlt, hk, hr, h.step hk harrived hcut⟩

namespace Remote

variable {parse : List UInt8 → Option RpcHeader}

/-- No two calls have the same id. -/
def Distinct (s : State) : Prop :=
  ∀ j < s.up.count, ∀ k < s.up.count, s.reqId j = s.reqId k → j = k

/-- The calls have different ids, and the headers in use are understood. -/
structure Legible (parse : List UInt8 → Option RpcHeader) (s : State) : Prop where
  distinct : Distinct s
  requests : ∀ k < s.up.count, parse (s.up.writers k).frame.header.serialize =
    some (s.up.writers k).frame.header
  responses : ∀ w < s.down.count, parse (s.down.writers w).frame.header.serialize =
    some (s.down.writers w).frame.header

/-! ### The invariant -/

/-- What a call knows about its request, if it has been completed by a response. -/
structure Call.Ok (c : Call) (w : Writer) (requests : ℕ → Served) (count : ℕ) : Prop where
  unentered : c.entered = false → c.done = false
  undone : c.done = false → c.failed = false
  answered : c.done = true → c.failed = false → ∃ j < count, (requests j).For w.frame ∧
    (requests j).stage = .completed (.response c.payload)
  refused : c.failed = true → c.removedBy = some .response → ∃ j < count, ∃ o,
    (requests j).For w.frame ∧ (requests j).stage = .completed o ∧ o.errorMsg ≠ "" ∧
      c.error = o.errorMsg.toUTF8.toList
  ended : ∀ r, c.result = some r →
    (r = .sendFailed ∧ w.pc = .done ∧ w.sent ≠ w.size) ∨
    (c.done = true ∧ ∃ parses, r = c.outcome parses)

/-- The call is to be completed. -/
def Call.Open (c : Call) : Prop := c.entered = true ∧ c.done = false

structure Sound (s : State) : Prop where
  up : s.up.Inv
  down : s.down.Inv
  framed : ∀ k < s.up.count, Framed (s.up.writers k).frame
  upward : ∃ order, s.up.Passed order s.count s.handled ∧
    ∀ j < s.count, ∃ k, order[j]? = some k ∧ (s.requests j).For (s.up.writers k).frame
  responses : ∀ w < s.down.count, ∃ j < s.count, ∃ c, (s.requests j).stage = .completed c ∧
    (s.down.writers w).frame = responseFrame (s.requests j).header.requestId c
  downward : ∃ order n, s.down.Passed order n s.read
  pending : ∀ id k, s.pending id = some k → k < s.up.count ∧ s.reqId k = id ∧ (s.calls k).Open
  calls : ∀ k < s.up.count, (s.calls k).Ok (s.up.writers k) s.requests s.count

theorem Call.new_ok (w : Writer) (requests : ℕ → Served) (count : ℕ) :
    Call.new.Ok w requests count :=
  ⟨fun _ => rfl, fun _ => rfl, fun h => (by cases h), fun h => (by cases h),
    fun _ h => (by cases h)⟩

theorem sound_of_init {s : State} (h : (remote parse).init s) : Sound s := by
  obtain ⟨hup, hdown, hpending, hcount, hhandled, hread⟩ := h
  have hnone : ∀ k, ¬k < s.up.count := fun k hk => by
    rw [hup.1] at hk
    exact absurd hk (Nat.not_lt_zero k)
  refine ⟨Stream.init_inv hup, Stream.init_inv hdown, fun k hk => absurd hk (hnone k),
    ⟨[], ?_, fun j hj => ?_⟩, fun w hw => ?_, ⟨[], 0, ?_⟩, fun id k hk => ?_,
    fun k hk => absurd hk (hnone k)⟩
  · rw [hcount, hhandled]
    exact Stream.passed_of_init hup
  · rw [hcount] at hj
    cases hj
  · rw [hdown.1] at hw
    cases hw
  · rw [hread]
    exact Stream.passed_of_init hdown
  · rw [hpending] at hk
    cases hk

variable {w : Writer} {c : Call} {count : ℕ}

theorem Call.Ok.mono {w' : Writer} {requests requests' : ℕ → Served} {count' : ℕ}
    (h : c.Ok w requests count) (hframe : w'.frame = w.frame) (hdone : w.pc = .done → w' = w)
    (hext : Extends requests count requests' count') : c.Ok w' requests' count' where
  unentered := h.unentered
  undone := h.undone
  answered := by
    intro hd hf
    obtain ⟨j, hj, hfor, hstage⟩ := h.answered hd hf
    rw [hframe]
    exact ⟨j, Nat.lt_of_lt_of_le hj hext.le, hext.served hj hfor, hext.completed j hj _ hstage⟩
  refused := by
    intro hf hr
    obtain ⟨j, hj, o, hfor, hstage, hrest⟩ := h.refused hf hr
    rw [hframe]
    exact ⟨j, Nat.lt_of_lt_of_le hj hext.le, o, hext.served hj hfor,
      hext.completed j hj _ hstage, hrest⟩
  ended := by
    intro r hr
    rcases h.ended r hr with ⟨hfailed, hpc, hsent⟩ | hended
    · rw [hdone hpc]
      exact .inl ⟨hfailed, hpc, hsent⟩
    · exact .inr hended

namespace Sound

variable {s : State} {k : ℕ}

/-- A step of the client's writers, with which calls may be added. -/
theorem clientStep (h : Sound s) {a : StreamAction} (he : (stream .client).enabled s.up a)
    (hok : ClosesTorn s.up a) {up : Stream} (hup : (stream .client).next s.up a = up)
    {calls : ℕ → Call}
    (hadded : ∀ k, s.up.count ≤ k → k < up.count → Framed (up.writers k).frame ∧ calls k = .new)
    (hcalls : ∀ k < s.up.count, calls k = s.calls k) :
    Sound { s with up := up, calls := calls } := by
  subst hup
  have hkeeps := Stream.keeps_next he
  obtain ⟨order, hpassed, hserved⟩ := h.upward
  obtain ⟨more, hpassed'⟩ := hpassed.next h.up he hok
  obtain ⟨rest, hcarries⟩ := hpassed.carries
  refine ⟨Stream.next_inv h.up he hok, h.down, fun k hk => ?_, ⟨order ++ more, hpassed',
    fun j hj => ?_⟩, h.responses, h.downward, fun id k hk => ?_, fun k hk => ?_⟩
  · by_cases hold : k < s.up.count
    · rw [hkeeps.frame k hold]
      exact h.framed k hold
    · exact (hadded k (Nat.le_of_not_lt hold) hk).1
  · obtain ⟨k, hk, hfor⟩ := hserved j hj
    have hlt : k < s.up.count := ((hcarries.begun k).mp (List.mem_of_getElem? hk)).1
    refine ⟨k, ?_, ?_⟩
    · rw [List.getElem?_append_left (List.getElem?_eq_some_iff.mp hk).1]
      exact hk
    · rw [hkeeps.frame k hlt]
      exact hfor
  · obtain ⟨hlt, hid, hopen⟩ := h.pending id k hk
    refine ⟨Nat.lt_of_lt_of_le hlt hkeeps.count, ?_, ?_⟩
    · rw [State.reqId, hkeeps.frame k hlt]
      exact hid
    · dsimp only
      rw [hcalls k hlt]
      exact hopen
  · dsimp only
    by_cases hold : k < s.up.count
    · rw [hcalls k hold]
      exact (h.calls k hold).mono (hkeeps.frame k hold) (hkeeps.done k hold) (.refl _ _)
    · rw [(hadded k (Nat.le_of_not_lt hold) hk).2]
      exact Call.new_ok _ _ _

theorem call (h : Sound s) (serviceName methodName args : List UInt8) :
    Sound (s.call serviceName methodName args) := by
  have hstep : (stream .client).next s.up (.call (.request serviceName methodName args)) =
      s.up.call (.request serviceName methodName args) := rfl
  have henabled : (stream .client).enabled s.up
      (.call (.request serviceName methodName args)) := rfl
  refine h.clientStep henabled trivial hstep (fun k hk hk' => ?_) fun k hk => ?_
  · rcases s.up.call_request serviceName methodName args with hcount | ⟨hcount, f, hframe, hwriter⟩
    · omega
    · obtain rfl : k = s.up.count := by omega
      rw [hwriter]
      exact ⟨⟨⟨serviceName, methodName, args, _⟩, hframe, fetchRequestId_ne_zero _⟩,
        Function.update_self ..⟩
  · exact Function.update_of_ne (Nat.ne_of_lt hk) ..

/-- A step that only the calls and the map take part in. -/
theorem callStep (h : Sound s) {calls : ℕ → Call} {pending : ℕ → Option ℕ}
    (hpending : ∀ id k, pending id = some k → k < s.up.count ∧ s.reqId k = id ∧ (calls k).Open)
    (hcalls : ∀ k < s.up.count, (calls k).Ok (s.up.writers k) s.requests s.count) :
    Sound { s with calls := calls, pending := pending } :=
  { h with pending := hpending, calls := hcalls }

theorem calls_update (h : Sound s) {c : Call} (hc : c.Ok (s.up.writers k) s.requests s.count) :
    ∀ j < s.up.count, (Function.update s.calls k c j).Ok (s.up.writers j) s.requests s.count :=
  Family.forall_update (P := fun j c => Call.Ok c (s.up.writers j) s.requests s.count) h.calls hc

theorem setCall (h : Sound s) {c : Call} (hc : c.Ok (s.up.writers k) s.requests s.count)
    (hkept : (s.calls k).Open → c.Open) : Sound (s.setCall k c) := by
  refine h.callStep (fun id j hj => ?_) (h.calls_update hc)
  obtain ⟨hlt, hid, hopen⟩ := h.pending id j hj
  refine ⟨hlt, hid, ?_⟩
  by_cases hjk : j = k
  · subst hjk
    rw [Function.update_self]
    exact hkept hopen
  · rw [Function.update_of_ne hjk]
    exact hopen

/-- A call is taken out of the map, and perhaps completed. -/
theorem release (h : Sound s) {id : ℕ} (hk : s.pending id = some k) {c : Call}
    (hc : c.Ok (s.up.writers k) s.requests s.count) :
    Sound { s with
      calls := Function.update s.calls k c
      pending := Function.update s.pending id none } := by
  refine h.callStep (fun id' j hj => ?_) (h.calls_update hc)
  have hid' : id' ≠ id := by
    rintro rfl
    rw [Function.update_self] at hj
    cases hj
  rw [Function.update_of_ne hid'] at hj
  obtain ⟨hlt, hid, hopen⟩ := h.pending id' j hj
  have hjk : j ≠ k := by
    rintro rfl
    exact hid' (hid.symm.trans (h.pending id j hk).2.1)
  rw [Function.update_of_ne hjk]
  exact ⟨hlt, hid, hopen⟩

end Sound

variable {requests : ℕ → Served}

/-- A call that has not been completed is taken out of the map. -/
theorem Call.Ok.removed (h : c.Ok w requests count) (hopen : c.Open) (by_ : Session.Remover) :
    { c with removedBy := some by_ }.Ok w requests count where
  unentered := h.unentered
  undone := h.undone
  answered := fun hd => absurd (hopen.2.symm.trans hd) Bool.false_ne_true
  refused := fun hf => absurd ((h.undone hopen.2).symm.trans hf) Bool.false_ne_true
  ended := h.ended

/-- It is failed by somebody else than a response. -/
theorem Call.Ok.failWith
    (h : c.Ok w requests count) (hopen : c.Open) (hremoved : c.removedBy ≠ some .response)
    (error : List UInt8) : (c.failWith error).Ok w requests count where
  unentered := fun hf => absurd (hopen.1.symm.trans hf) (by decide)
  undone := fun hd => (by cases hd)
  answered := fun _ hf => (by cases hf)
  refused := fun _ hr => absurd hr hremoved
  ended := by
    intro r hr
    rcases h.ended r hr with hfailed | ⟨hd, -⟩
    · exact .inl hfailed
    · exact absurd (hopen.2.symm.trans hd) Bool.false_ne_true

/-- Only the fields that say how far the call is are changed. -/
theorem Call.Ok.moved {c' : Call}
    (h : c.Ok w requests count) (hentered : c'.entered = false → c.entered = false)
    (hdone : c'.done = c.done) (hfailed : c'.failed = c.failed) (hpayload : c'.payload = c.payload)
    (herror : c'.error = c.error) (hremoved : c'.removedBy = c.removedBy)
    (hended : ∀ r, c'.result = some r →
      (r = .sendFailed ∧ w.pc = .done ∧ w.sent ≠ w.size) ∨
      (c.done = true ∧ ∃ parses, r = c.outcome parses)) : c'.Ok w requests count where
  unentered := fun hf => hdone.trans (h.unentered (hentered hf))
  undone := by
    rw [hdone, hfailed]
    exact h.undone
  answered := by
    rw [hdone, hfailed, hpayload]
    exact h.answered
  refused := by
    rw [hfailed, hremoved, herror]
    exact h.refused
  ended := by
    intro r hr
    have houtcome : c'.outcome = c.outcome := by
      funext parses
      simp only [Call.outcome, hfailed, herror, hpayload]
    rw [hdone, houtcome]
    exact hended r hr

namespace Sound

variable {s : State} {k : ℕ}

section

variable (h : Sound s)
include h

theorem erase (id : ℕ) (by_ : Session.Remover) : Sound (s.erase id by_) := by
  cases hp : s.pending id with
  | none =>
    rw [State.erase_none hp]
    exact h
  | some j =>
    obtain ⟨hj, -, hopen⟩ := h.pending id j hp
    rw [State.erase_some hp]
    exact h.release hp ((h.calls j hj).removed hopen by_)

theorem register (hk : k < s.up.count) (hentered : (s.calls k).entered = false) :
    Sound (s.register k) := by
  have hok := h.calls k hk
  have hundone := hok.unentered hentered
  change Sound { s with
    calls := Function.update s.calls k { s.calls k with entered := true }
    pending := Function.update s.pending (s.reqId k) (some k) }
  refine h.callStep (fun id j hj => ?_) (h.calls_update ?_)
  · by_cases hid : id = s.reqId k
    · subst hid
      rw [Function.update_self] at hj
      obtain rfl := Option.some.inj hj
      rw [Function.update_self]
      exact ⟨hk, rfl, rfl, hundone⟩
    · rw [Function.update_of_ne hid] at hj
      obtain ⟨hlt, hid', hopen⟩ := h.pending id j hj
      have hjk : j ≠ k := fun heq => hid (heq ▸ hid'.symm)
      rw [Function.update_of_ne hjk]
      exact ⟨hlt, hid', hopen⟩
  · exact hok.moved (fun hf => (by cases hf)) rfl rfl rfl rfl rfl hok.ended

theorem withdraw (hk : k < s.up.count) (hpc : (s.up.writers k).pc = .done)
    (hsent : (s.up.writers k).sent ≠ (s.up.writers k).size) : Sound (s.withdraw k) := by
  have herased := h.erase (s.reqId k) .sendFailure
  have hstreams := (s.erase_streams (s.reqId k) .sendFailure).1
  refine herased.setCall ?_ fun hopen => hopen
  have hok := herased.calls k (by rw [hstreams]; exact hk)
  refine hok.moved (fun hf => hf) rfl rfl rfl rfl rfl fun r hr => .inl ?_
  rw [hstreams]
  exact ⟨(Option.some.inj hr).symm, hpc, hsent⟩

/-- A call fails that nobody has answered. -/
theorem abandon {id : ℕ} (hk : s.pending id = some k) {by_ : Session.Remover}
    (hby : by_ ≠ .response) (timer : CallTimer) (error : List UInt8) :
    Sound ((s.erase id by_).setCall k
      (({ (s.erase id by_).calls k with timer := timer }).failWith error)) := by
  obtain ⟨hlt, -, hopen⟩ := h.pending id k hk
  rw [State.erase_setCall hk, State.erase_calls hk]
  refine h.release hk ?_
  have hremoved := (h.calls k hlt).removed hopen by_
  refine Call.Ok.failWith (c := { s.calls k with removedBy := some by_, timer := timer })
    ?_ hopen (fun heq => hby (Option.some.inj heq)) error
  exact hremoved.moved (fun hf => hf) rfl rfl rfl rfl rfl hremoved.ended

theorem fire (hdistinct : Distinct s) (hk : k < s.up.count) : Sound (s.fire k) := by
  have hok := h.calls k hk
  cases hp : s.pending (s.reqId k) with
  | none =>
    have hfire : s.fire k = s.setCall k { s.calls k with timer := .off } := by
      simp only [State.fire, hp, State.erase_none hp, Option.isSome_none, Bool.false_eq_true,
        if_false]
    rw [hfire]
    exact h.setCall (hok.moved (fun hf => hf) rfl rfl rfl rfl rfl hok.ended) fun hopen => hopen
  | some j =>
    obtain ⟨hlt, hid, -⟩ := h.pending _ j hp
    obtain rfl : j = k := hdistinct j hlt k hk hid
    simp only [State.fire, hp, Option.isSome_some, if_true]
    exact h.abandon hp (by decide) .off _

theorem sweep (hk : s.pending (s.reqId k) = some k) : Sound (s.sweep k) :=
  h.abandon hk (by decide) ((s.erase (s.reqId k) .sweep).calls k).timer _

theorem finish (hk : k < s.up.count) (hdone : (s.calls k).done = true)
    (parses : Bool) : Sound (s.finish k parses) := by
  refine h.setCall ?_ fun hopen => hopen
  refine (h.calls k hk).moved (fun hf => hf) rfl rfl rfl rfl rfl fun r hr => .inr ?_
  exact ⟨hdone, parses, (Option.some.inj hr).symm⟩

/-! ### The server -/

theorem extend {requests : ℕ → Served} {count handled : ℕ}
    (hext : Extends s.requests s.count requests count)
    (hupward : ∃ order, s.up.Passed order count handled ∧
      ∀ j < count, ∃ k, order[j]? = some k ∧ (requests j).For (s.up.writers k).frame) :
    Sound { s with requests := requests, count := count, handled := handled } :=
  { h with
    upward := hupward
    responses := by
      intro w hw
      obtain ⟨j, hj, c, hstage, hframe⟩ := h.responses w hw
      refine ⟨j, Nat.lt_of_lt_of_le hj hext.le, c, hext.completed j hj c hstage, ?_⟩
      rw [hframe]
      exact congrArg (fun header => responseFrame header.requestId c) (hext.same j hj).1.symm
    calls := fun k hk => (h.calls k hk).mono rfl (fun _ => rfl) hext }

theorem request (hlegible : Legible parse s) {cut : Socket}
    (harrived : cut.bytes <+: s.up.sent.drop s.handled) : Sound (s.request parse cut) := by
  cases hread : readRequest parse cut with
  | none =>
    simp only [State.request, hread]
    exact h
  | some read =>
    obtain ⟨r, rest⟩ := read
    simp only [State.request, hread]
    obtain ⟨order, hpassed, hserved⟩ := h.upward
    have hreadable : ∀ k < s.up.count, (s.up.writers k).frame.Readable parse argsAccepted :=
      fun k hk => ⟨(h.framed k hk).accepted.1, (h.framed k hk).accepted.2, hlegible.requests k hk⟩
    obtain ⟨k, -, hk, rfl, hpassed'⟩ := hpassed.readFrame hreadable harrived hread
    have hold : ∀ j < s.count, Function.update s.requests s.count
        ⟨(s.up.writers k).frame.header, (s.up.writers k).frame.args, .queued⟩ j = s.requests j :=
      fun j hj => Function.update_of_ne (Nat.ne_of_lt hj) ..
    refine h.extend ⟨Nat.le_succ _, fun j hj => ?_, fun j hj c hc => ?_⟩
      ⟨order, hpassed', fun j hj => ?_⟩
    · rw [hold j hj]
      exact ⟨rfl, rfl⟩
    · rw [hold j hj]
      exact hc
    · rcases Nat.lt_succ_iff_lt_or_eq.mp hj with hj | rfl
      · rw [hold j hj]
        exact hserved j hj
      · rw [Function.update_self]
        exact ⟨k, hk, rfl, rfl⟩

variable {j : ℕ}

theorem setStage {stage : Stage}
    (hopen : ∀ c, (s.requests j).stage ≠ .completed c) : Sound (s.setStage j stage) := by
  have hext : Extends s.requests s.count (s.setStage j stage).requests s.count := by
    refine ⟨le_rfl, fun i _ => ?_, fun i _ c hc => ?_⟩
    · by_cases hij : i = j
      · rw [hij, State.setStage_self]
        exact ⟨rfl, rfl⟩
      · rw [State.setStage_ne hij]
        exact ⟨rfl, rfl⟩
    · have hij : i ≠ j := by
        rintro rfl
        exact hopen c hc
      rw [State.setStage_ne hij]
      exact hc
  obtain ⟨order, hpassed, hserved⟩ := h.upward
  refine h.extend hext ⟨order, hpassed, fun i hi => ?_⟩
  obtain ⟨k, hk, hfor⟩ := hserved i hi
  exact ⟨k, hk, hext.served hi hfor⟩

/-- A step of the server's writers, with which responses may be added. -/
theorem serverStep {a : StreamAction} (he : (stream .server).enabled s.down a)
    (hok : ClosesTorn s.down a) {down : Stream} (hdown : (stream .server).next s.down a = down)
    (hadded : ∀ w, s.down.count ≤ w → w < down.count → ∃ j < s.count, ∃ c,
      (s.requests j).stage = .completed c ∧
        (down.writers w).frame = responseFrame (s.requests j).header.requestId c) :
    Sound { s with down := down } := by
  subst hdown
  have hkeeps := Stream.keeps_next he
  obtain ⟨order, n, hpassed⟩ := h.downward
  obtain ⟨more, hpassed'⟩ := hpassed.next h.down he hok
  refine { h with
    down := Stream.next_inv h.down he hok
    responses := fun w hw => ?_
    downward := ⟨order ++ more, n, hpassed'⟩ }
  by_cases hold : w < s.down.count
  · obtain ⟨j, hj, c, hstage, hframe⟩ := h.responses w hold
    exact ⟨j, hj, c, hstage, (hkeeps.frame w hold).trans hframe⟩
  · exact hadded w (Nat.le_of_not_lt hold) hw

theorem complete (hj : j < s.count)
    (hrunning : (s.requests j).stage.isRunning = true) (c : Completion) :
    Sound (s.complete j c) := by
  have hstage : Sound (s.setStage j (.completed c)) := by
    refine h.setStage fun c' hc => ?_
    rw [hc] at hrunning
    cases hrunning
  have hstep : (stream .server).next s.down (.call (.response (s.requests j).header.requestId c)) =
      s.down.call (.response (s.requests j).header.requestId c) := rfl
  have henabled : (stream .server).enabled s.down
      (.call (.response (s.requests j).header.requestId c)) := rfl
  refine hstage.serverStep henabled trivial hstep fun w hw hw' => ⟨j, hj, c, ?_⟩
  obtain rfl : w = s.down.count := by
    change s.down.count ≤ w at hw
    change w < s.down.count + 1 at hw'
    omega
  change (Function.update s.requests j _ j).stage = _ ∧
    (Function.update s.down.writers s.down.count _ s.down.count).frame =
      responseFrame (Function.update s.requests j _ j).header.requestId c
  rw [Function.update_self, Function.update_self]
  exact ⟨rfl, rfl⟩

/-! ### The reader -/

/-- A request has been made by a call. -/
theorem caller (hj : j < s.count) :
    ∃ k < s.up.count, (s.requests j).For (s.up.writers k).frame := by
  obtain ⟨order, hpassed, hserved⟩ := h.upward
  obtain ⟨rest, hcarries⟩ := hpassed.carries
  obtain ⟨k, hk, hfor⟩ := hserved j hj
  exact ⟨k, ((hcarries.begun k).mp (List.mem_of_getElem? hk)).1, hfor⟩

/-- A response answers a request. -/
theorem response {w : ℕ} (hw : w < s.down.count) :
    ∃ j < s.count, ∃ c, (s.requests j).stage = .completed c ∧
      (s.down.writers w).frame = responseFrame (s.requests j).header.requestId c ∧
      (s.requests j).header.requestId ≠ 0 := by
  obtain ⟨j, hj, c, hstage, hframe⟩ := h.responses w hw
  obtain ⟨k, hk, hfor⟩ := h.caller hj
  refine ⟨j, hj, c, hstage, hframe, ?_⟩
  rw [hfor.1]
  exact (h.framed k hk).requestId

theorem setRead {order : List ℕ} {n read : ℕ}
    (hpassed : s.down.Passed order n read) : Sound { s with read := read } :=
  { h with downward := ⟨order, n, hpassed⟩ }

end

/-- What the reader stores in a call is how its request has been completed. -/
theorem answer_ok {c : Call} {w : Writer} {requests : ℕ → Served} {count : ℕ}
    (h : c.Ok w requests count) (hopen : c.Open) {j : ℕ} (hj : j < count)
    (hfor : (requests j).For w.frame) {o : Completion} (hstage : (requests j).stage = .completed o)
    (id : ℕ) :
    (({ c with removedBy := some .response }).answer
      ((responseFrame id o).header, (responseFrame id o).args)).Ok w requests count := by
  have hended : ∀ r, c.result = some r → r = .sendFailed ∧ w.pc = .done ∧ w.sent ≠ w.size := by
    intro r hr
    rcases h.ended r hr with hfailed | ⟨hd, -⟩
    · exact hfailed
    · exact absurd (hopen.2.symm.trans hd) Bool.false_ne_true
  have hundone : c.failed = false := h.undone hopen.2
  rw [Call.answer]
  dsimp only
  rcases (responseFrame_told id o).2 with ⟨herror, ho⟩ | ⟨herror, hne, hmsg⟩
  · rw [herror, if_pos List.isEmpty_nil]
    rw [ho] at hstage
    exact ⟨fun hf => absurd (hopen.1.symm.trans hf) (by decide), fun hd => (by cases hd),
      fun _ _ => ⟨j, hj, hfor, hstage⟩, fun hf => absurd (hundone.symm.trans hf) (by decide),
      fun r hr => .inl (hended r hr)⟩
  · rw [herror, if_neg (fun hnil => hne (List.isEmpty_iff.mp hnil))]
    exact ⟨fun hf => absurd (hopen.1.symm.trans hf) (by decide), fun hd => (by cases hd),
      fun _ hf => (by cases hf), fun _ _ => ⟨j, hj, o, hfor, hstage, hmsg, rfl⟩,
      fun r hr => .inl (hended r hr)⟩

/-- The id in a response is that of the call that has made the request. -/
theorem deliver (h : Sound s) (hdistinct : Distinct s) {j : ℕ} (hj : j < s.count) {c : Completion}
    (hstage : (s.requests j).stage = .completed c) {id : ℕ}
    (hid : id = (s.requests j).header.requestId) (hk : s.pending id = some k) :
    Sound ((s.erase id .response).setCall k (((s.erase id .response).calls k).answer
      ((responseFrame (s.requests j).header.requestId c).header,
        (responseFrame (s.requests j).header.requestId c).args))) := by
  obtain ⟨hlt, hid', hopen⟩ := h.pending id k hk
  obtain ⟨k', hk', hfor⟩ := h.caller hj
  obtain rfl : k = k' := by
    refine hdistinct k hlt k' hk' ?_
    rw [hid', hid, hfor.1]
    rfl
  rw [State.erase_setCall hk, State.erase_calls hk]
  exact h.release hk (answer_ok (h.calls k hlt) hopen hj hfor hstage _)

theorem answer (hcompact : Compact) (h : Sound s) (hlegible : Legible parse s) {cut : Socket}
    (harrived : cut.bytes <+: s.down.sent.drop s.read) : Sound (s.answer parse cut) := by
  cases hread : readResponse parse cut with
  | none =>
    simp only [State.answer, hread]
    exact h
  | some read =>
    obtain ⟨r, rest⟩ := read
    obtain ⟨order, n, hpassed⟩ := h.downward
    have hreadable : ∀ w < s.down.count, (s.down.writers w).frame.Readable parse fun _ _ => true :=
      fun w hw => by
        obtain ⟨j, -, c, -, hframe, hid⟩ := h.response hw
        refine ⟨?_, rfl, hlegible.responses w hw⟩
        rw [hframe]
        exact responseFrame_accepted hcompact hid c
    obtain ⟨w, hw, -, rfl, hpassed'⟩ := hpassed.readFrame hreadable harrived hread
    obtain ⟨j, hj, c, hstage, hframe, -⟩ := h.response hw
    rw [hframe] at hread
    have hid := (responseFrame_told (s.requests j).header.requestId c).1
    simp only [State.answer, hread]
    split
    · exact h.setRead hpassed'
    next k hk => exact (h.setRead hpassed').deliver hlegible.distinct hj hstage hid hk

/-- No part of a size is lost. -/
theorem retry (hcompact : Compact) (h : Sound s) {lost : List UInt8}
    (hlost : lost <+: s.down.sent.drop s.read) (hhigh : lost.all (128 ≤ ·)) : lost = [] := by
  obtain ⟨order, n, hpassed⟩ := h.downward
  obtain ⟨more, hmore⟩ := hpassed.ahead hlost
  cases lost with
  | nil => rfl
  | cons b lost =>
    cases hdrop : order.drop n with
    | nil =>
      rw [hdrop] at hmore
      cases hmore
    | cons w rest =>
      rw [hdrop] at hmore
      obtain ⟨rest', hcarries⟩ := hpassed.carries
      have hw : w ∈ order := List.mem_of_mem_drop (hdrop ▸ List.mem_cons_self)
      obtain ⟨j, -, c, -, hframe⟩ := h.responses w ((hcarries.begun w).mp hw).1
      obtain ⟨b', tail, hbytes, hb'⟩ :=
        responseFrame_first_byte hcompact (s.requests j).header.requestId c
      have hsent : b :: (lost ++ more) = (s.down.writers w).frame.bytes ++
        wire (s.down.frames rest) := hmore
      rw [hframe, hbytes, List.cons_append] at hsent
      obtain ⟨rfl, -⟩ := List.cons.inj hsent
      have hb := of_decide_eq_true (List.all_eq_true.mp hhigh b List.mem_cons_self)
      rw [UInt8.le_iff_toNat_le] at hb
      rw [UInt8.lt_iff_toNat_lt] at hb'
      omega

end Sound

end Remote

end PulsarRuntime.Rpc
