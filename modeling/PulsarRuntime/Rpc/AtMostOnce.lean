import PulsarRuntime.Rpc.Exchange

/-!
# Remote calls are executed at most once

Every call writes one frame, and `Handle` reads every frame once; so a request belongs to one call,
and a call to one request at most.  Both streams only grow, so that frames which can be told apart
at the end of a run could be all along (`Legible.of_next`), and a response is stored in the call
whose request it completes (`Exchange`).
-/

namespace PulsarRuntime.Rpc

namespace Remote

/-! ### Both streams grow -/

theorem keeps_of_eq {s t : State} (h : t.up = s.up ∧ t.down = s.down) :
    s.up.Keeps t.up ∧ s.down.Keeps t.down := by
  rw [h.1, h.2]
  exact ⟨.refl _, .refl _⟩

section Codec

variable [HeaderCodec] {parse : List UInt8 → Option RpcHeader} {s : State} {a : Action}

theorem keeps_next (he : (remote parse).enabled s a) :
    s.up.Keeps ((remote parse).next s a).up ∧ s.down.Keeps ((remote parse).next s a).down := by
  cases a with
  | call serviceName methodName args =>
    exact ⟨Stream.keeps_call s.up (.request serviceName methodName args), .refl _⟩
  | client a => exact ⟨Stream.keeps_next he.1, .refl _⟩
  | server a => exact ⟨.refl _, Stream.keeps_next he.1⟩
  | complete j c => exact ⟨.refl _, Stream.keeps_call s.down (.response _ c)⟩
  | withdraw k => exact keeps_of_eq (s.erase_streams _ _)
  | fire k => exact keeps_of_eq (s.erase_streams _ _)
  | sweep k => exact keeps_of_eq (s.erase_streams _ _)
  | request cut =>
    apply keeps_of_eq
    change (s.request parse cut).up = _ ∧ (s.request parse cut).down = _
    rw [State.request]
    split <;> exact ⟨rfl, rfl⟩
  | answer cut =>
    apply keeps_of_eq
    change (s.answer parse cut).up = _ ∧ (s.answer parse cut).down = _
    rw [State.answer]
    split
    · exact ⟨rfl, rfl⟩
    · dsimp only
      split
      · exact ⟨rfl, rfl⟩
      · exact State.erase_streams _ _ _
  | _ => exact ⟨.refl _, .refl _⟩

/-- What can be read after a step could be read before it. -/
theorem Legible.of_next (he : (remote parse).enabled s a)
    (h : Legible parse ((remote parse).next s a)) : Legible parse s := by
  obtain ⟨hup, hdown⟩ := keeps_next he
  refine ⟨fun j hj k hk hid => ?_, fun k hk => ?_, fun w hw => ?_⟩
  · refine h.distinct j (Nat.lt_of_lt_of_le hj hup.count) k (Nat.lt_of_lt_of_le hk hup.count) ?_
    rw [State.reqId, State.reqId, hup.frame j hj, hup.frame k hk]
    exact hid
  · rw [← hup.frame k hk]
    exact h.requests k (Nat.lt_of_lt_of_le hk hup.count)
  · rw [← hdown.frame w hw]
    exact h.responses w (Nat.lt_of_lt_of_le hw hdown.count)

/-! ### Runs -/

theorem Sound.next (hcompact : Compact) (h : Sound s) (hlegible : Legible parse s)
    (he : (remote parse).enabled s a) (hok : Orderly s a) :
    Sound ((remote parse).next s a) := by
  cases a with
  | call serviceName methodName args => exact h.call serviceName methodName args
  | register k => exact h.register he.1 he.2.2
  | client a =>
    have hcount := Stream.count_next .client s.up he.2.1
    refine h.clientStep he.1 hok.1 rfl (fun k hk hk' => ?_) fun k _ => rfl
    omega
  | withdraw k => exact h.withdraw he.1 he.2.1 he.2.2.1
  | wait k =>
    have hok := h.calls k he.1
    exact h.setCall (hok.moved (fun hf => hf) rfl rfl rfl rfl rfl hok.ended) fun hopen => hopen
  | expire k =>
    have hok := h.calls k he.1
    exact h.setCall (hok.moved (fun hf => hf) rfl rfl rfl rfl rfl hok.ended) fun hopen => hopen
  | fire k => exact h.fire hlegible.distinct he.1
  | sweep k => exact h.sweep he.2
  | finish k parses => exact h.finish he.1 hok.2 parses
  | request cut => exact h.request hlegible he.2.1
  | start j =>
    refine h.setStage fun c hc => ?_
    have hqueued := he.2
    rw [hc] at hqueued
    cases hqueued
  | complete j c => exact h.complete he.1 he.2 c
  | server a =>
    have hcount := Stream.count_next .server s.down he.2
    refine h.serverStep he.1 hok.1 rfl fun w hw hw' => ?_
    omega
  | answer cut => exact h.answer hcompact hlegible he.2.1
  | retry lost =>
    have hnil := h.retry hcompact he.2.1 he.2.2.2
    change Sound { s with read := s.read + lost.length }
    rw [hnil]
    exact h

theorem sound_of_reach (hcompact : Compact) (h : (remote parse).ReachVia Orderly s) :
    Legible parse s → Sound s :=
  h.invariant (I := fun s => Legible parse s → Sound s) (fun _ hs _ => sound_of_init hs)
    fun _ _ hs he hok hlegible =>
      (hs (.of_next he hlegible)).next hcompact (.of_next he hlegible) he hok

/-- The calls behind the requests, in the order in which their frames were begun. -/
theorem Sound.callers (h : Sound s) (hdistinct : Distinct s) : ∃ caller : ℕ → ℕ,
    (∀ j < s.count, caller j < s.up.count ∧ (s.requests j).For (s.up.writers (caller j)).frame ∧
      (s.up.writers (caller j)).sent = (s.up.writers (caller j)).size) ∧
    (∀ i < s.count, ∀ j < s.count, caller i = caller j → i = j) ∧
    ∀ j < s.count, ∀ k < s.up.count, (s.requests j).For (s.up.writers k).frame →
      caller j = k := by
  obtain ⟨order, hpassed, hserved⟩ := h.upward
  obtain ⟨rest, hcarries⟩ := hpassed.carries
  have hcaller : ∀ j < s.count, order[j]? = some (order.getD j 0) ∧
      (s.requests j).For (s.up.writers (order.getD j 0)).frame := by
    intro j hj
    obtain ⟨k, hk, hfor⟩ := hserved j hj
    rw [List.getD_eq_getElem?_getD, hk]
    exact ⟨rfl, hfor⟩
  have hlt : ∀ j < s.count, order.getD j 0 < s.up.count := fun j hj =>
    ((hcarries.begun _).mp (List.mem_of_getElem? (hcaller j hj).1)).1
  refine ⟨fun j => order.getD j 0, fun j hj => ⟨hlt j hj, (hcaller j hj).2,
    hpassed.whole h.up hj (hcaller j hj).1⟩, fun i hi j hj heq => ?_, fun j hj k hk hfor => ?_⟩
  · have hi' : i < order.length := Nat.lt_of_lt_of_le hi hpassed.le
    refine (List.getElem?_inj hi' hcarries.nodup).mp ?_
    rw [(hcaller i hi).1, (hcaller j hj).1]
    exact congrArg some heq
  · refine hdistinct _ (hlt j hj) k hk ?_
    rw [State.reqId, State.reqId, ← (hcaller j hj).2.1, hfor.1]

/-- What lies behind the result of a call. -/
def Call.Returned (c : Call) (w : Writer) : Result → Prop
  | .sendFailed => w.sent ≠ w.size
  | .failed error => c.failed = true ∧ c.error = error
  | .parseFailed => c.done = true
  | .response payload => c.done = true ∧ c.failed = false ∧ c.payload = payload

theorem Call.Ok.returned {c : Call} {w : Writer} {requests : ℕ → Served} {count : ℕ}
    (h : c.Ok w requests count) {r : Result} (hr : c.result = some r) : c.Returned w r := by
  rcases h.ended r hr with ⟨rfl, -, hsent⟩ | ⟨hdone, parses, rfl⟩
  · exact hsent
  · rw [Call.outcome]
    split
    next hfailed => exact ⟨hfailed, rfl⟩
    next hfailed =>
      split
      · exact ⟨hdone, Bool.eq_false_iff.mpr hfailed, rfl⟩
      · exact hdone

/-- **Calls are executed at most once, and answered by their own execution.**  In every run of the
two ends in which no writer leaves an open connection behind a part of its frame and no waiting
Fiber is resumed before its call is done, if the headers are short and understood, and the counter
of 64 bits has not given an id twice: every request that the server has submitted to its executor
is, name by name and byte by byte, that of one call, and no call has two requests; a call that
returns a response returns what the handler completed this request with; one that a response fails
returns the error of this request's completion; and a call that returns because it could not be
sent has not been executed. -/
theorem executed_at_most_once (hcompact : Compact) (h : (remote parse).ReachVia Orderly s)
    (hlegible : Legible parse s) :
    ∃ caller : ℕ → ℕ,
      (∀ j < s.count, caller j < s.up.count ∧
        (s.requests j).For (s.up.writers (caller j)).frame) ∧
      (∀ i < s.count, ∀ j < s.count, caller i = caller j → i = j) ∧
      (∀ k < s.up.count, ∀ payload, (s.calls k).result = some (.response payload) →
        ∃ j < s.count, caller j = k ∧ (s.requests j).stage = .completed (.response payload)) ∧
      (∀ k < s.up.count, ∀ error, (s.calls k).result = some (.failed error) →
        (s.calls k).removedBy = some .response → ∃ j < s.count, caller j = k ∧ ∃ c,
          (s.requests j).stage = .completed c ∧ c.errorMsg ≠ "" ∧
            error = c.errorMsg.toUTF8.toList) ∧
      (∀ k < s.up.count, (s.calls k).result = some .sendFailed → ∀ j < s.count, caller j ≠ k) := by
  have hs := sound_of_reach hcompact h hlegible
  obtain ⟨caller, hcaller, hinj, hback⟩ := hs.callers hlegible.distinct
  refine ⟨caller, fun j hj => ⟨(hcaller j hj).1, (hcaller j hj).2.1⟩, hinj,
    fun k hk payload hresult => ?_, fun k hk error hresult hremoved => ?_,
    fun k hk hresult j hj heq => ?_⟩
  · obtain ⟨hdone, hfailed, rfl⟩ := (hs.calls k hk).returned hresult
    obtain ⟨j, hj, hfor, hstage⟩ := (hs.calls k hk).answered hdone hfailed
    exact ⟨j, hj, hback j hj k hk hfor, hstage⟩
  · obtain ⟨hfailed, rfl⟩ := (hs.calls k hk).returned hresult
    obtain ⟨j, hj, c, hfor, hstage, hrest⟩ := (hs.calls k hk).refused hfailed hremoved
    exact ⟨j, hj, hback j hj k hk hfor, c, hstage, hrest⟩
  · exact (hs.calls k hk).returned hresult (heq ▸ (hcaller j hj).2.2)

end Codec

section Runs

open Proto3

/-- Call `k` writes its frame of `n` bytes. -/
def requestWritten (k n : ℕ) : List Action :=
  [.client (.lock k), .register k, .client (.check k), .client (.enter k), .client (.send k n),
    .client (.leave k), .client (.unlock k), .wait k]

/-- Response `w` of `n` bytes is written. -/
def responseWritten (w n : ℕ) : List Action :=
  [.server (.lock w), .server (.check w), .server (.enter w), .server (.send w n),
    .server (.leave w), .server (.unlock w)]

/-- Two requests are read in pieces. -/
def requestsRead : List Action :=
  [.request [⟨0, [10, 0x0a, 1, 0x45, 0x12, 1, 0x47]⟩, ⟨3, [0x18, 1, 0x20, 1, 7, 10, 0x0a]⟩],
    .request [⟨0, [10, 0x0a]⟩, ⟨1, []⟩, ⟨0, [1, 0x45, 0x12, 1, 0x47, 0x18, 1, 0x20, 2, 8]⟩]]

/-- Two calls; the handler of the second is done first. -/
def overtaking : List Action :=
  List.flatten [[.call [0x45] [0x47] [7]], requestWritten 0 12, [.call [0x45] [0x47] [8]],
    requestWritten 1 12, requestsRead, [.start 0, .start 1, .complete 1 (.response [5, 5])],
    responseWritten 0 7, [.complete 0 .failed], responseWritten 1 43,
    [.answer [⟨0, [4]⟩, ⟨9, [0x18, 2, 0x20]⟩, ⟨0, [2, 5, 5]⟩], .finish 1 true]]

/-- A parser that knows the headers of these frames. -/
def understands : List UInt8 → Option RpcHeader :=
  Timed.knows [⟨[0x45], [0x47], 1, 1, []⟩, ⟨[0x45], [0x47], 1, 2, []⟩,
    (responseFrame 2 (.response [5, 5])).header, (responseFrame 1 .failed).header]

theorem executed_at_most_once_overtaking :
    let s := (remote understands).run (.fresh true) overtaking
    (s.calls 1).result = some (.response [5, 5]) ∧ ∃ j < s.count,
      (s.requests j).For (s.up.writers 1).frame ∧
        (s.requests j).stage = .completed (.response [5, 5]) := by
  intro s
  have hs : (remote understands).ReachVia Orderly s :=
    Machine.reachVia_run (.start (fresh_init _ true)) (by decide +kernel)
  have hlegible : Legible understands s :=
    ⟨by unfold Distinct; decide +kernel, by decide +kernel, by decide +kernel⟩
  have hresult : (s.calls 1).result = some (.response [5, 5]) := by decide +kernel
  obtain ⟨caller, hcaller, -, hresponse, -⟩ := executed_at_most_once compact hs hlegible
  obtain ⟨j, hj, hone, hstage⟩ := hresponse 1 (by decide +kernel) _ hresult
  have hfor := (hcaller j hj).2
  rw [hone] at hfor
  exact ⟨hresult, j, hj, hfor, hstage⟩

end Runs

end Remote

end PulsarRuntime.Rpc
