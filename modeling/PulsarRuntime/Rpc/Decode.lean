import Mathlib.Data.Option.Basic
import PulsarRuntime.Rpc.Varint

/-!
# Reading frames

`Provider::State::Handle` and `Channel::State::ReaderLoop` read a frame in the same steps and differ
in their check of the size of the body.  `readFrame` has the check as a parameter, and takes the
reads to have no deadline; `Reader` has the loops with theirs.  `readRequest` is the read part of
one round of `Handle` and `readRequests` its loop.  Both size checks of the server are there; the
reservations of buffer space are taken to succeed.  Parsing a header belongs to Protocol Buffers and
is a parameter.

The round trip: whatever `Channel::CallMethod` accepts for sending is read back, however the bytes
are cut.  When some of the bytes have not arrived, what has been read is the next frame all the same
(`readFrame_arrived`).
-/

namespace PulsarRuntime.Rpc

/-- The check of the header size. -/
def headerAccepted (headerSize : ℕ) : Bool := !(headerSize = 0 || headerSize > kMaxHeader)

/-- The server's check of `args_size`. -/
def argsAccepted (headerSize argsSize : ℕ) : Bool := !(argsSize > kMaxMessage - headerSize - 5)

def Read.toOption {σ α : Type} : Read σ α → Option (α × σ)
  | .ok value rest => some (value, rest)
  | _ => none

variable (parse : List UInt8 → Option RpcHeader) (admits : ℕ → ℕ → Bool)

/-- A header and its body; `none` where the loop ends, or goes on waiting. -/
def readFrame (socket : Socket) : Option ((RpcHeader × List UInt8) × Socket) := do
  let (headerSize, socket) ← (readVarint32 none socket).toOption
  guard (headerAccepted headerSize)
  let (headerData, socket) ← (readExact headerSize none socket).toOption
  let header ← parse headerData
  guard (admits headerSize header.argsSize)
  let (body, socket) ← (readExact header.argsSize none socket).toOption
  return ((header, body), socket)

/-- The read part of one round of `Handle`. -/
def readRequest (socket : Socket) : Option ((RpcHeader × List UInt8) × Socket) :=
  readFrame parse argsAccepted socket

/-- The read part of one round of `ReaderLoop`, which takes a body of any size. -/
def readResponse (socket : Socket) : Option ((RpcHeader × List UInt8) × Socket) :=
  readFrame parse (fun _ _ => true) socket

theorem headerAccepted_iff {n : ℕ} : headerAccepted n = true ↔ n ≠ 0 ∧ n ≤ kMaxHeader := by
  simp [headerAccepted]

theorem lt_of_headerAccepted {n : ℕ} (h : headerAccepted n = true) : n < 2 ^ 32 := by
  have hle := (headerAccepted_iff.mp h).2
  simp only [kMaxHeader] at hle
  omega

theorem argsAccepted_iff {n args : ℕ} :
    argsAccepted n args = true ↔ args ≤ kMaxMessage - n - 5 := by
  simp [argsAccepted]

/-! ### One frame -/

theorem Read.toOption_eq_some {σ α : Type} {r : Read σ α} {a : α} {s : σ} :
    r.toOption = some (a, s) ↔ r = .ok a s := by
  cases r <;> simp [Read.toOption]

variable {parse admits} {socket rest : Socket} {r : RpcHeader × List UInt8}

/-- The three reads of a frame. -/
theorem readFrame_eq_some : readFrame parse admits socket = some (r, rest) ↔
    ∃ size data s₁ s₂, readVarint32 none socket = .ok size s₁ ∧ headerAccepted size = true ∧
      readExact size none s₁ = .ok data s₂ ∧ parse data = some r.1 ∧
      admits size r.1.argsSize = true ∧ readExact r.1.argsSize none s₂ = .ok r.2 rest := by
  simp only [readFrame, Option.bind_eq_bind, Option.bind_eq_some_iff, Prod.exists,
    Option.guard_eq_some', Read.toOption_eq_some, Option.pure_def, Option.some.injEq]
  constructor
  · rintro ⟨size, s₁, hsize, -, haccepted, data, s₂, hdata, header, hparse, -, hadmits, body, s₃,
      hbody, heq⟩
    obtain ⟨rfl, rfl⟩ := Prod.mk.inj heq
    exact ⟨size, data, s₁, s₂, hsize, haccepted, hdata, hparse, hadmits, hbody⟩
  · rintro ⟨size, data, s₁, s₂, hsize, haccepted, hdata, hparse, hadmits, hbody⟩
    exact ⟨size, s₁, hsize, (), haccepted, data, s₂, hdata, r.1, hparse, (), hadmits, r.2, rest,
      hbody, rfl⟩

theorem readFrame_shorter (h : readFrame parse admits socket = some (r, rest)) :
    rest.bytes.length < socket.bytes.length := by
  obtain ⟨size, data, s₁, s₂, hsize, -, hdata, -, -, hbody⟩ := readFrame_eq_some.mp h
  have h₁ := takeVarint32_shorter (readVarint32_ok hsize [])
  have h₂ := congrArg List.length (readExact_bytes hdata).1
  have h₃ := congrArg List.length (readExact_bytes hbody).1
  simp only [List.append_nil, List.length_append] at h₁ h₂ h₃
  omega

section Codec

variable [HeaderCodec] {f : Frame} {tail : List UInt8}

/-- A frame that passes the checks of the reader. -/
structure Frame.Readable (parse : List UInt8 → Option RpcHeader) (admits : ℕ → ℕ → Bool)
    (f : Frame) : Prop where
  size : headerAccepted f.header.serialize.length = true
  admitted : admits f.header.serialize.length f.header.argsSize = true
  parsed : parse f.header.serialize = some f.header

theorem responseFrame_accepted (hcompact : Compact) {id : ℕ} (hid : id ≠ 0) (c : Completion) :
    headerAccepted (responseFrame id c).header.serialize.length = true := by
  have hshort := responseFrame_short hcompact id c
  have hpresent := hcompact.present (responseFrame id c).header
    (by rw [(responseFrame_told id c).1]; exact hid)
  refine headerAccepted_iff.mpr ⟨fun hzero => hpresent (List.length_eq_zero_iff.mp hzero), ?_⟩
  simp only [kMaxHeader]
  omega

/-- A frame in front is read whole. -/
theorem readFrame_frame (hf : f.Readable parse admits) (h : socket.bytes = f.bytes ++ tail) :
    ∃ rest, readFrame parse admits socket = some ((f.header, f.args), rest) ∧
      rest.bytes = tail := by
  simp only [Frame.bytes, List.append_assoc] at h
  obtain ⟨s₁, hsize, h₁⟩ := readVarint32_encodeVarint32 (lt_of_headerAccepted hf.size) h
  obtain ⟨s₂, hdata, h₂⟩ := readExact_append f.header.serialize h₁
  obtain ⟨s₃, hbody, h₃⟩ := readExact_append f.args h₂
  refine ⟨s₃, readFrame_eq_some.mpr ⟨_, _, s₁, s₂, hsize, hf.size, hdata, hf.parsed, ?_, ?_⟩, h₃⟩
  · exact hf.admitted
  · exact f.sized ▸ hbody

/-- What has been read is the frame in front, though `lost` has not arrived. -/
theorem readFrame_arrived {lost : List UInt8} (hf : f.Readable parse admits)
    (h : socket.bytes ++ lost = f.bytes ++ tail)
    (hread : readFrame parse admits socket = some (r, rest)) :
    r = (f.header, f.args) ∧ socket.bytes = f.bytes ++ rest.bytes := by
  obtain ⟨size, data, s₁, s₂, hsize, -, hdata, hparse, -, hbody⟩ := readFrame_eq_some.mp hread
  have hall := h
  simp only [Frame.bytes, List.append_assoc] at h
  have htake := readVarint32_ok hsize lost
  rw [h, takeVarint32_encodeVarint32 (lt_of_headerAccepted hf.size)] at htake
  obtain ⟨rfl, h₁⟩ := Read.ok.inj htake
  obtain ⟨rfl, h₂⟩ := readExact_ahead hdata h₁.symm rfl
  rw [hf.parsed] at hparse
  have hheader := Option.some.inj hparse
  rw [← hheader] at hbody
  obtain ⟨hargs, h₃⟩ := readExact_ahead hbody h₂ f.sized
  refine ⟨Prod.ext hheader.symm hargs, (List.append_left_inj lost).mp ?_⟩
  rw [hall, ← h₃, List.append_assoc]

end Codec

/-! ### Requests -/

/-- The loop of `Handle`: the requests it reads, and what is left of the socket where it stops. -/
def readRequests (parse : List UInt8 → Option RpcHeader) (socket : Socket) :
    List (RpcHeader × List UInt8) × Socket :=
  match _h : readRequest parse socket with
  | none => ([], socket)
  | some (r, rest) => (r :: (readRequests parse rest).1, (readRequests parse rest).2)
termination_by socket.bytes.length
decreasing_by all_goals exact readFrame_shorter ‹_›

/-- The arguments of a call, with the request id; a channel that is not multiplexed sends id 0. -/
structure Request where
  serviceName : List UInt8
  methodName : List UInt8
  args : List UInt8
  reqId : ℕ

/-- The header and the arguments the server is to get. -/
def Request.content (r : Request) : RpcHeader × List UInt8 :=
  (⟨r.serviceName, r.methodName, r.args.length, r.reqId, []⟩, r.args)

section Codec

variable [HeaderCodec]

/-- What `CallMethod` sends, if it accepts the request. -/
def Request.frame (r : Request) : Option Frame :=
  requestFrame r.serviceName r.methodName r.args r.reqId

/-- **Agreeing limits.**  A frame that passes the client's checks passes those of the server. -/
theorem Request.frame_some {r : Request} {f : Frame} (h : r.frame = some f) :
    (f.header, f.args) = r.content ∧ headerAccepted f.header.serialize.length = true ∧
      argsAccepted f.header.serialize.length f.header.argsSize = true := by
  simp only [Request.frame, requestFrame] at h
  split at h
  · cases h
  · split at h
    · cases h
    next hchecks =>
      simp only [Option.some.injEq] at h
      subst h
      simp only [Bool.or_eq_true, List.isEmpty_iff_length_eq_zero, decide_eq_true_eq, not_or,
        not_lt] at hchecks
      exact ⟨rfl, headerAccepted_iff.mpr hchecks.1, argsAccepted_iff.mpr hchecks.2⟩

/-- **Request round trip.**  The requests that `CallMethod` accepts, in either mode, come out of the
server's loop as they went in, however the bytes are cut, and no bytes are left. -/
theorem request_round_trip {requests : List Request} {frames : List Frame} {socket : Socket}
    (haccepted : requests.mapM Request.frame = some frames)
    (hparse : ∀ f ∈ frames, parse f.header.serialize = some f.header)
    (hcut : socket.bytes = wire frames) :
    (∀ f ∈ frames, headerAccepted f.header.serialize.length = true ∧
      argsAccepted f.header.serialize.length f.header.argsSize = true) ∧
    (readRequests parse socket).1 = requests.map Request.content ∧
    (readRequests parse socket).2.bytes = [] := by
  induction requests generalizing frames socket with
  | nil =>
    simp only [List.mapM_nil, Option.pure_def, Option.some.injEq] at haccepted
    subst haccepted
    have hnone : readRequest parse socket = none := by
      cases hread : readRequest parse socket with
      | none => rfl
      | some r =>
        have hshorter := readFrame_shorter hread
        rw [hcut] at hshorter
        cases hshorter
    rw [readRequests, hnone]
    exact ⟨by simp, rfl, hcut⟩
  | cons r requests ih =>
    simp only [List.mapM_cons, Option.bind_eq_bind, Option.bind_eq_some_iff, Option.pure_def,
      Option.some.injEq] at haccepted
    obtain ⟨f, hf, frames', hframes, rfl⟩ := haccepted
    obtain ⟨hcontent, hheader, hargs⟩ := Request.frame_some hf
    obtain ⟨rest, hread, hrest⟩ := readFrame_frame ⟨hheader, hargs, hparse f (by simp)⟩ hcut
    obtain ⟨hlimits, hrequests, hleft⟩ :=
      ih hframes (fun f' hf' => hparse f' (by simp [hf'])) hrest
    refine ⟨?_, ?_, ?_⟩
    · intro f' hf'
      rcases List.mem_cons.mp hf' with rfl | hf'
      · exact ⟨hheader, hargs⟩
      · exact hlimits f' hf'
    · rw [readRequests, readRequest, hread]
      simp [hrequests, hcontent]
    · rw [readRequests, readRequest, hread]
      exact hleft

end Codec

section Runs

open Proto3

/-- A call on a plain channel and one on a multiplexed channel. -/
def twoRequests : List Request := [⟨[0x45], [0x47], [7, 8, 9], 0⟩, ⟨[0x45], [0x48], [], 300⟩]

theorem request_round_trip_two :
    (readRequests (fun data => if data = [0x0a, 1, 0x45, 0x12, 1, 0x47, 0x18, 3]
        then some ⟨[0x45], [0x47], 3, 0, []⟩ else some ⟨[0x45], [0x48], 0, 300, []⟩)
      [⟨0, [8, 0x0a, 1]⟩, ⟨5, []⟩, ⟨0, [0x45, 0x12, 1, 0x47, 0x18, 3, 7]⟩, ⟨7, [8]⟩,
        ⟨0, [9, 9, 0x0a, 1, 0x45, 0x12, 1, 0x48, 0x20, 0xac, 2]⟩]).1 =
      twoRequests.map Request.content := by
  have haccepted : twoRequests.mapM Request.frame = some
      [⟨⟨[0x45], [0x47], 3, 0, []⟩, [7, 8, 9], rfl⟩, ⟨⟨[0x45], [0x48], 0, 300, []⟩, [], rfl⟩] := rfl
  refine (request_round_trip haccepted ?_ (by decide)).2.1
  intro f hf
  simp only [List.mem_cons, List.not_mem_nil, or_false] at hf
  rcases hf with rfl | rfl
  · exact if_pos (by decide)
  · exact if_neg (by decide)

end Runs

end PulsarRuntime.Rpc
