import Mathlib.Algebra.GroupWithZero.Nat

/-!
# RPC frames on the wire

A frame is the size of the header as a base-128 varint, the serialized `RpcHeader` and the
arguments, whose number the header gives.  `requestFrame` is what `Channel::CallMethod` builds,
`responseFrame` what `MultiplexDoneClosure` does.  How a header is serialized is left to Protocol
Buffers (`HeaderCodec`); `Proto3` has the bytes for runs on concrete frames.
-/

namespace PulsarRuntime.Rpc

def kMaxHeader : ℕ := 64 * 1024

def kMaxMessage : ℕ := 64 * 1024 * 1024

/-- The varint loop, for values that need at most `rounds` bytes before the last one. -/
def encodeVarint : ℕ → ℕ → List UInt8
  | 0, value => [UInt8.ofNat value]
  | rounds + 1, value =>
    if value ≥ 128 then UInt8.ofNat (value % 128 + 128) :: encodeVarint rounds (value / 128)
    else [UInt8.ofNat value]

/-- A `uint32_t` takes at most five bytes. -/
def encodeVarint32 (value : ℕ) : List UInt8 := encodeVarint 4 value

structure RpcHeader where
  serviceName : List UInt8
  methodName : List UInt8
  argsSize : ℕ
  requestId : ℕ
  error : List UInt8
  deriving DecidableEq

/-- What `protoc` generates for `RpcHeader`, so far as the frames depend on it. -/
class HeaderCodec where
  /-- `RpcHeader::SerializeToString` -/
  serialize : RpcHeader → List UInt8

def RpcHeader.serialize [HeaderCodec] (h : RpcHeader) : List UInt8 := HeaderCodec.serialize h

/-- The sizes that Protocol Buffers promise: every field that is present has a tag of one byte, an
integer takes at most five bytes, or ten, and a text below 128 bytes one more for its length. -/
structure Compact [HeaderCodec] : Prop where
  present : ∀ h : RpcHeader, h.requestId ≠ 0 → h.serialize ≠ []
  short : ∀ h : RpcHeader, h.serviceName = [] → h.methodName = [] → h.error.length < 128 →
    h.serialize.length ≤ 19 + h.error.length

/-- A header and its arguments. -/
structure Frame where
  header : RpcHeader
  args : List UInt8
  sized : header.argsSize = args.length

/-- `next_request_id.fetch_add(1)`, once more if it gave 0; the second component is the counter
afterwards. -/
def fetchRequestId (next : ℕ) : ℕ × ℕ :=
  if next = 0 then (1, 2) else (next, (next + 1) % 2 ^ 64)

/-- How a multiplexed request ended on the server. -/
inductive Completion where
  /-- `outcome` is 2 -/
  | failed
  | unserializable
  | response (payload : List UInt8)
  deriving DecidableEq

/-- `error_msg`. -/
def Completion.errorMsg : Completion → String
  | .failed => "RPC handler execution error or timeout"
  | .unserializable => "RPC response serialization failure"
  | .response payload =>
    if payload.length > kMaxMessage then "RPC response serialization failure" else ""

/-- The frame `MultiplexDoneClosure` sends. -/
def responseFrame (reqId : ℕ) (c : Completion) : Frame :=
  match c with
  | .response payload =>
    if payload.length > kMaxMessage then ⟨⟨[], [], 0, reqId, c.errorMsg.toUTF8.toList⟩, [], rfl⟩
    else ⟨⟨[], [], payload.length, reqId, []⟩, payload, rfl⟩
  | _ => ⟨⟨[], [], 0, reqId, c.errorMsg.toUTF8.toList⟩, [], rfl⟩

theorem encodeVarint_ne_nil (rounds value : ℕ) : encodeVarint rounds value ≠ [] := by
  cases rounds with
  | zero => exact nofun
  | succ rounds =>
    unfold encodeVarint
    split <;> exact nofun

theorem errorMsg_length_le (c : Completion) : c.errorMsg.toUTF8.toList.length ≤ 38 := by
  cases c with
  | failed => decide +kernel
  | unserializable => decide +kernel
  | response payload =>
    rw [Completion.errorMsg]
    split <;> decide +kernel

/-- What a response says: the id, and either a payload or why there is none. -/
theorem responseFrame_told (id : ℕ) (c : Completion) :
    (responseFrame id c).header.requestId = id ∧
    ((responseFrame id c).header.error = [] ∧ c = .response (responseFrame id c).args ∨
      (responseFrame id c).header.error = c.errorMsg.toUTF8.toList ∧
        c.errorMsg.toUTF8.toList ≠ [] ∧ c.errorMsg ≠ "") := by
  cases c with
  | failed => exact ⟨rfl, .inr ⟨rfl, by decide +kernel⟩⟩
  | unserializable => exact ⟨rfl, .inr ⟨rfl, by decide +kernel⟩⟩
  | response payload =>
    by_cases hlarge : payload.length > kMaxMessage
    · simp only [responseFrame, Completion.errorMsg, if_pos hlarge]
      exact ⟨trivial, .inr ⟨trivial, by decide +kernel⟩⟩
    · simp only [responseFrame, if_neg hlarge]
      exact ⟨trivial, .inl ⟨trivial, trivial⟩⟩

/-! ### The bytes of a frame -/

section Codec

variable [HeaderCodec]

def Frame.bytes (f : Frame) : List UInt8 :=
  encodeVarint32 f.header.serialize.length ++ f.header.serialize ++ f.args

/-- Frames one behind the other. -/
def wire (frames : List Frame) : List UInt8 := (frames.map Frame.bytes).flatten

/-- The frame `CallMethod` sends, unless a size limit is exceeded. -/
def requestFrame (serviceName methodName args : List UInt8) (reqId : ℕ) : Option Frame :=
  let f : Frame := ⟨⟨serviceName, methodName, args.length, reqId, []⟩, args, rfl⟩
  let encoded := f.header.serialize
  if args.length > kMaxMessage then none
  else if encoded.isEmpty || encoded.length > kMaxHeader ||
      args.length > kMaxMessage - encoded.length - 5 then none
  else some f

theorem Frame.bytes_ne_nil (f : Frame) : f.bytes ≠ [] := by
  intro h
  have hprefix := (List.append_eq_nil_iff.mp (List.append_eq_nil_iff.mp h).1).1
  exact encodeVarint_ne_nil 4 _ hprefix

theorem wire_cons (f : Frame) (rest : List Frame) :
    wire (f :: rest) = encodeVarint32 f.header.serialize.length ++
      (f.header.serialize ++ (f.args ++ wire rest)) := by
  simp only [wire, List.map_cons, List.flatten_cons, Frame.bytes, List.append_assoc]

theorem wire_append (a b : List Frame) : wire (a ++ b) = wire a ++ wire b := by simp [wire]

theorem wire_singleton (f : Frame) : wire [f] = f.bytes := by simp [wire]

/-- The header of a response is a size, an id and one of two short texts. -/
theorem responseFrame_short (hcompact : Compact) (id : ℕ) (c : Completion) :
    (responseFrame id c).header.serialize.length ≤ 57 := by
  have herror : (responseFrame id c).header.error.length ≤ 38 := by
    rcases (responseFrame_told id c).2 with ⟨h, -⟩ | ⟨h, -⟩
    · simp [h]
    · rw [h]
      exact errorMsg_length_le c
  have hnames : (responseFrame id c).header.serviceName = [] ∧
      (responseFrame id c).header.methodName = [] := by
    unfold responseFrame
    split
    · split <;> exact ⟨rfl, rfl⟩
    · exact ⟨rfl, rfl⟩
  have hshort := hcompact.short _ hnames.1 hnames.2 (by omega)
  omega

end Codec

/-! ### The encoding of `proto3`

The fields of a message come in the order of their numbers, without those that have their default
value. -/

namespace Proto3

/-- A `bytes` or `string` field. -/
def bytesField (tag : UInt8) (data : List UInt8) : List UInt8 :=
  if data.isEmpty then [] else tag :: (encodeVarint32 data.length ++ data)

/-- An integer field, of at most `rounds + 1` digits. -/
def varintField (tag : UInt8) (rounds value : ℕ) : List UInt8 :=
  if value = 0 then [] else tag :: encodeVarint rounds value

scoped instance codec : HeaderCodec where
  serialize h :=
    bytesField 0x0a h.serviceName ++ bytesField 0x12 h.methodName ++
      varintField 0x18 4 h.argsSize ++ varintField 0x20 9 h.requestId ++ bytesField 0x2a h.error

theorem serialize_eq (h : RpcHeader) : h.serialize =
    bytesField 0x0a h.serviceName ++ bytesField 0x12 h.methodName ++
      varintField 0x18 4 h.argsSize ++ varintField 0x20 9 h.requestId ++
      bytesField 0x2a h.error := rfl

theorem encodeVarint_length_le (rounds value : ℕ) :
    (encodeVarint rounds value).length ≤ rounds + 1 := by
  induction rounds generalizing value with
  | zero => exact Nat.le_refl _
  | succ rounds ih =>
    rw [encodeVarint]
    split
    · exact Nat.succ_le_succ (ih _)
    · exact Nat.succ_le_succ (Nat.zero_le _)

theorem varintField_length_le (tag : UInt8) (rounds value : ℕ) :
    (varintField tag rounds value).length ≤ rounds + 2 := by
  rw [varintField]
  split
  · exact Nat.zero_le _
  · exact Nat.succ_le_succ (encodeVarint_length_le rounds value)

theorem bytesField_length_le (tag : UInt8) {data : List UInt8} (h : data.length < 128) :
    (bytesField tag data).length ≤ data.length + 2 := by
  rw [bytesField]
  split
  · exact Nat.zero_le _
  · rw [encodeVarint32, encodeVarint, if_neg (by omega)]
    simp only [List.length_cons, List.length_append, List.length_nil]
    omega

theorem compact : Compact where
  present h hid := by
    rw [serialize_eq, varintField, varintField, if_neg hid]
    simp
  short h hservice hmethod herror := by
    have hargs := varintField_length_le 0x18 4 h.argsSize
    have hid := varintField_length_le 0x20 9 h.requestId
    have herror' := bytesField_length_le 0x2a herror
    rw [serialize_eq, hservice, hmethod]
    have hnone (tag : UInt8) : bytesField tag [] = [] := rfl
    simp only [hnone, List.length_append, List.length_nil]
    omega

end Proto3

end PulsarRuntime.Rpc
