import PulsarRuntime.Rpc.Reader
import PulsarRuntime.Rpc.Slots

/-!
# The buffers the readers allocate

Three pieces of code read what a peer sends: the loops of `Reader`, and `CallMethod` on a channel
that is not multiplexed, which reads a length of four bytes and a body.  All three learn the size of
a buffer from the peer before they allocate it.  `Handle` and `CallMethod` compare it with the
limit, for the header and for the body; `ReaderLoop` does so for the header only.
-/

namespace PulsarRuntime.Rpc.Timed

/-- The size of a buffer, as the peer gives it. -/
inductive Announcement where
  | header (size : ℕ)
  | body (size : ℕ)

def Announcement.Within : Announcement → Prop
  | .header size => size ≤ kMaxHeader
  | .body size => size ≤ kMaxMessage

/-- The buffer that is allocated has an admissible size. -/
def Pc.Within : Pc → Prop
  | .header n => n ≤ kMaxHeader
  | .body h => h.argsSize ≤ kMaxMessage
  | _ => True

namespace Reader

variable (L : Loop) (parse : List UInt8 → Option RpcHeader)

/-- What the next read tells about the buffer after it. -/
def announced (s : Reader) : Option Announcement :=
  match s.pc with
  | .size =>
    match readVarint32 L.sizeTimeout s.stream with
    | .ok n _ => some (.header n)
    | _ => none
  | .header n =>
    match readExact n L.bodyTimeout s.stream with
    | .ok data _ => (parse data).map fun h => .body h.argsSize
    | _ => none
  | _ => none

/-- A frame that announces too much ends the loop, before the buffer is allocated. -/
def Refuses (s : Reader) : Prop :=
  ∀ a, s.announced L parse = some a → ¬a.Within → (s.read L parse).pc = .stopped

end Reader

/-- A header that `ReaderLoop` has read announces at most 64 MiB. -/
def Modest (parse : List UInt8 → Option RpcHeader) (s : Reader) : ReaderAction → Prop
  | .read =>
    match s.announced readerLoop parse with
    | some (.body n) => n ≤ kMaxMessage
    | _ => True
  | .stop => True

instance (parse : List UInt8 → Option RpcHeader) (s : Reader) (a : ReaderAction) :
    Decidable (Modest parse s a) := by
  cases a with
  | read =>
    dsimp only [Modest]
    split <;> infer_instance
  | stop => exact isTrue trivial

/-! ### `CallMethod` on a channel that is not multiplexed -/

inductive ResponsePc where
  | length
  /-- `payload` is allocated -/
  | body (size : ℕ)
  | stopped

structure ResponseReader where
  stream : Socket
  pc : ResponsePc
  received : List (List UInt8)

namespace ResponseReader

variable (s : ResponseReader)

def stop : ResponseReader := { s with pc := .stopped }

variable (timeout : Option ℕ)

def readLength : ResponseReader :=
  match readExact 4 timeout s.stream with
  | .ok data rest =>
    let length := Slots.ofBe32 data
    if length > kMaxMessage then s.stop else ⟨rest, .body length, s.received⟩
  | _ => s.stop

/-- The body, and whether it parses; the next call on the connection starts with the next length. -/
def readBody (size : ℕ) (parses : Bool) : ResponseReader :=
  match readExact size timeout s.stream with
  | .ok data rest => if parses then ⟨rest, .length, s.received ++ [data]⟩ else s.stop
  | _ => s.stop

def read (parses : Bool) : ResponseReader :=
  match s.pc with
  | .length => s.readLength timeout
  | .body size => s.readBody timeout size parses
  | .stopped => s

def announced : Option Announcement :=
  match s.pc with
  | .length =>
    match readExact 4 timeout s.stream with
    | .ok data _ => some (.body (Slots.ofBe32 data))
    | _ => none
  | _ => none

def Within : Prop :=
  match s.pc with
  | .body size => size ≤ kMaxMessage
  | _ => True

/-- A length beyond the limit fails the call, and with it the connection is closed. -/
def Refuses : Prop :=
  ∀ a parses, s.announced timeout = some a → ¬a.Within → (s.read timeout parses).pc = .stopped

end ResponseReader

inductive ResponseAction where
  | read (parses : Bool)
  | stop

/-- The calls on one connection, for every stream. -/
def responses (timeout : Option ℕ) : Machine ResponseReader ResponseAction where
  init s := s.pc = .length ∧ s.received = []
  enabled _ _ := True
  next s
    | .read parses => s.read timeout parses
    | .stop => s.stop

/-! ### The loops -/

section Loops

variable {L : Loop} {parse : List UInt8 → Option RpcHeader} {s : Reader}

/-- A step leads to the buffer announced, if the checks allow it. -/
theorem read_pc (L : Loop) (parse : List UInt8 → Option RpcHeader) (s : Reader) :
    match s.announced L parse with
    | none => (s.read L parse).pc = .size ∨ (s.read L parse).pc = .stopped
    | some (.header n) => (s.read L parse).pc = if headerAccepted n then .header n else .stopped
    | some (.body n) => ∃ size h, h.argsSize = n ∧
        (s.read L parse).pc = if L.admits size n then .body h else .stopped := by
  rw [Reader.announced, Reader.read]
  cases hpc : s.pc with
  | size =>
    dsimp only
    rw [Reader.readSize]
    cases readVarint32 L.sizeTimeout s.stream with
    | ok n rest =>
      dsimp only
      split <;> rfl
    | timedOut rest =>
      dsimp only
      split
      · exact .inl hpc
      · exact .inr rfl
    | failed rest => exact .inr rfl
  | header n =>
    dsimp only
    rw [Reader.readHeader]
    cases readExact n L.bodyTimeout s.stream with
    | ok data rest =>
      dsimp only
      cases parse data with
      | none => exact .inr rfl
      | some h =>
        refine ⟨n, h, rfl, ?_⟩
        dsimp only
        split <;> rfl
    | timedOut rest => exact .inr rfl
    | failed rest => exact .inr rfl
  | body h =>
    dsimp only
    rw [Reader.readBody]
    split
    · exact .inl rfl
    · exact .inr rfl
  | stopped => exact .inr hpc

theorem within_of_not_buffer {pc : Pc} (h : pc = .size ∨ pc = .stopped) : pc.Within := by
  rcases h with rfl | rfl <;> trivial

/-- After a step that announces an admissible body, if it announces one, the buffer is admissible:
the size of the header is always checked. -/
theorem read_within (hbody : ∀ size n, s.announced L parse = some (.body n) →
      L.admits size n = true → n ≤ kMaxMessage) : (s.read L parse).pc.Within := by
  have hpc := read_pc L parse s
  cases ha : s.announced L parse with
  | none =>
    rw [ha] at hpc
    exact within_of_not_buffer hpc
  | some a =>
    rw [ha] at hpc
    cases a with
    | header n =>
      change (s.read L parse).pc = _ at hpc
      rw [hpc]
      split
      · rename_i haccepted
        exact (headerAccepted_iff.mp haccepted).2
      · trivial
    | body n =>
      obtain ⟨size, h, rfl, hpc⟩ := hpc
      rw [hpc]
      split
      · rename_i hadmits
        exact hbody size h.argsSize ha hadmits
      · trivial

theorem read_header_refused {n : ℕ} (ha : s.announced L parse = some (.header n))
    (hn : ¬n ≤ kMaxHeader) : (s.read L parse).pc = .stopped := by
  have hpc := read_pc L parse s
  rw [ha] at hpc
  refine hpc.trans (if_neg fun haccepted => ?_)
  exact hn (headerAccepted_iff.mp haccepted).2

theorem refuses_of_admits (hadmits : ∀ size n, L.admits size n = true → n ≤ kMaxMessage) :
    s.Refuses L parse := by
  intro a ha hwithin
  cases a with
  | header n => exact read_header_refused ha hwithin
  | body n =>
    have hpc := read_pc L parse s
    rw [ha] at hpc
    obtain ⟨size, h, -, hpc⟩ := hpc
    refine hpc.trans (if_neg fun hadmit => ?_)
    exact hwithin (hadmits size n hadmit)

theorem handle_admits (timeout : Option ℕ) (size n : ℕ)
    (h : (handle timeout).admits size n = true) : n ≤ kMaxMessage := by
  have hargs := argsAccepted_iff.mp h
  omega

theorem modest_iff : Modest parse s .read ↔
    ∀ n, s.announced readerLoop parse = some (.body n) → n ≤ kMaxMessage := by
  rw [Modest]
  split
  · rename_i n ha
    rw [ha]
    simp
  · rename_i hother
    exact iff_of_true trivial fun n ha => absurd ha (hother n)

/-- `ReaderLoop` refuses every body that is too large exactly if there is none. -/
theorem readerLoop_refuses_iff : s.Refuses readerLoop parse ↔ Modest parse s .read := by
  rw [modest_iff]
  constructor
  · intro h n ha
    by_contra hn
    have hpc := read_pc readerLoop parse s
    rw [ha] at hpc
    obtain ⟨size, header, -, hpc⟩ := hpc
    have hstopped := h _ ha hn
    rw [hpc] at hstopped
    cases hstopped
  · intro h a ha hwithin
    cases a with
    | header n => exact read_header_refused ha hwithin
    | body n => exact absurd (h n ha) hwithin

end Loops

/-! ### The calls that are not multiplexed -/

theorem response_read_within (timeout : Option ℕ) (s : ResponseReader) (parses : Bool) :
    (s.read timeout parses).Within := by
  rw [ResponseReader.read]
  cases hpc : s.pc with
  | length =>
    dsimp only
    rw [ResponseReader.readLength]
    split
    · dsimp only
      split
      · trivial
      · rename_i hlength
        exact Nat.not_lt.mp hlength
    · trivial
  | body size =>
    dsimp only
    rw [ResponseReader.readBody]
    split
    · split <;> trivial
    · trivial
  | stopped =>
    rw [ResponseReader.Within, hpc]
    trivial

theorem response_refuses (timeout : Option ℕ) (s : ResponseReader) : s.Refuses timeout := by
  intro a parses ha hwithin
  rw [ResponseReader.announced] at ha
  rw [ResponseReader.read]
  cases hpc : s.pc with
  | length =>
    rw [hpc] at ha
    dsimp only at ha ⊢
    rw [ResponseReader.readLength]
    split at ha
    · cases ha
      dsimp only
      rw [if_pos (Nat.not_le.mp hwithin)]
      rfl
    · cases ha
  | body size =>
    rw [hpc] at ha
    cases ha
  | stopped => exact hpc

/-- **Message size limit.**  For every stream of bytes, with any delays: the header buffers of
`Handle` and `ReaderLoop` have at most `kMaxHeader` bytes, the body buffers of `Handle` and
`CallMethod` at most `kMaxMessage`, and a frame that announces more ends the reading before the
buffer is allocated.  For the bodies of `ReaderLoop` this is so as long as no header announces more,
and exactly then. -/
theorem message_size_limit (parse : List UInt8 → Option RpcHeader) :
    (∀ timeout s, (reading (handle timeout) parse).Reach s →
      s.pc.Within ∧ s.Refuses (handle timeout) parse) ∧
    (∀ timeout s, (responses timeout).Reach s → s.Within ∧ s.Refuses timeout) ∧
    ∀ s, (reading readerLoop parse).ReachVia (Modest parse) s →
      s.pc.Within ∧ (s.Refuses readerLoop parse ↔ Modest parse s .read) := by
  refine ⟨fun timeout s h => ⟨?_, refuses_of_admits (handle_admits timeout)⟩,
    fun timeout s h => ?_, fun s h => ⟨?_, readerLoop_refuses_iff⟩⟩
  · refine h.invariant (I := fun s => s.pc.Within) (fun s hinit => ?_) fun s a hi _ => ?_
    · exact within_of_not_buffer (.inl hinit.1)
    · cases a with
      | read => exact read_within fun size n _ => handle_admits timeout size n
      | stop => trivial
  · refine ⟨?_, response_refuses timeout s⟩
    refine h.invariant (I := ResponseReader.Within) (fun s hinit => ?_) fun s a _ _ => ?_
    · rw [ResponseReader.Within, hinit.1]
      trivial
    · cases a with
      | read parses => exact response_read_within timeout s parses
      | stop => trivial
  · refine h.invariant (I := fun s => s.pc.Within) (fun s hinit => ?_) fun s a hi _ hok => ?_
    · exact within_of_not_buffer (.inl hinit.1)
    · cases a with
      | read => exact read_within fun _ n ha _ => modest_iff.mp hok n ha
      | stop => trivial

section Runs

open Proto3

/-- A response with a body of `n` bytes. -/
def bodyHeader (n : ℕ) : RpcHeader := ⟨[], [], n, 1, []⟩

/-- The bytes before the body. -/
def announce (n : ℕ) : List UInt8 :=
  encodeVarint32 (bodyHeader n).serialize.length ++ (bodyHeader n).serialize

/-- `ReaderLoop` at a body of 64 MiB, `Handle` at one that is too large by one byte. -/
theorem message_size_limit_largest :
    let s := (reading readerLoop (knows [bodyHeader kMaxMessage])).run
      ⟨[⟨5, announce kMaxMessage⟩], .size, []⟩ [.read, .read]
    let t := (reading (handle none) (knows [bodyHeader (kMaxMessage + 1)])).run
      ⟨[⟨5, announce (kMaxMessage + 1)⟩], .size, []⟩ [.read]
    s.pc.Within ∧ t.Refuses (handle none) (knows [bodyHeader (kMaxMessage + 1)]) := by
  refine ⟨?_, ?_⟩
  · exact ((message_size_limit _).2.2 _ (Machine.reachVia_run (.start ⟨rfl, rfl⟩)
      (by decide +kernel))).1
  · exact ((message_size_limit _).1 none _ (Machine.reachVia_run (.start ⟨rfl, rfl⟩)
      (by decide +kernel))).2

/-- A header that announces 4 GiB: `ReaderLoop` allocates a buffer for them. -/
theorem payload_beyond_limit :
    ∃ s, (reading readerLoop (knows [bodyHeader (2 ^ 32 - 1)])).Reach s ∧
      s.pc = .body (bodyHeader (2 ^ 32 - 1)) ∧ kMaxMessage < (bodyHeader (2 ^ 32 - 1)).argsSize ∧
      ¬s.pc.Within := by
  refine ⟨(reading readerLoop (knows [bodyHeader (2 ^ 32 - 1)])).run
    ⟨[⟨0, announce (2 ^ 32 - 1)⟩], .size, []⟩ [.read, .read],
    Machine.reachVia_run (.start ⟨rfl, rfl⟩) (by decide +kernel), rfl, by decide, ?_⟩
  show ¬(bodyHeader (2 ^ 32 - 1)).argsSize ≤ kMaxMessage
  decide

end Runs

end PulsarRuntime.Rpc.Timed
