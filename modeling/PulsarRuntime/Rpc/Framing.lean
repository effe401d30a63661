import Mathlib.Data.List.Infix
import PulsarRuntime.Rpc.Reader

/-!
# Whether `ReaderLoop` stays in frame

The loop counts the bytes of a frame: as long as every byte it has taken belongs to what it thinks
it has read, the next byte is the one it expects (`InFrame`).  A header or a body that does not come
in time ends the loop.  A size that does not come in time does not, and `ReadVarint32` may have
taken its first bytes by then.  They are lost, and the loop takes the rest of the size for a size.

A size below 128 is a single byte, so this cannot happen with the responses of `Provider`.
-/

namespace PulsarRuntime.Rpc.Timed

/-- The request id, and the payload or the error. -/
def answer (r : RpcHeader × List UInt8) : ℕ × Except (List UInt8) (List UInt8) :=
  (r.1.requestId, if r.1.error.isEmpty then .ok r.2 else .error r.1.error)

/-- What the frame says. -/
def content (f : Frame) : RpcHeader × List UInt8 := (f.header, f.args)

/-- If the size does not come in time, then none of its bytes has come. -/
def Unsplit (s : Reader) : ReaderAction → Prop
  | .read =>
    match s.pc, readVarint32 readerLoop.sizeTimeout s.stream with
    | .size, .timedOut rest => rest.bytes = s.stream.bytes
    | _, _ => True
  | .stop => True

instance (s : Reader) (a : ReaderAction) : Decidable (Unsplit s a) := by
  cases a with
  | read =>
    dsimp only [Unsplit]
    split <;> infer_instance
  | stop => exact isTrue trivial

section Codec

variable [HeaderCodec]

/-- The bytes ahead of the reader, when the frames `rest` have not been received yet. -/
def Pc.Expects (rest : List Frame) (ahead : List UInt8) : Pc → Prop
  | .size => ahead = wire rest
  | .header n => ∃ f rest', rest = f :: rest' ∧ n = f.header.serialize.length ∧
      ahead = f.header.serialize ++ (f.args ++ wire rest')
  | .body h => ∃ f rest', rest = f :: rest' ∧ h = f.header ∧ ahead = f.args ++ wire rest'
  | .stopped => True

/-- The frames are received in order, and the reader is where the rest of them goes on; `lost` are
the bytes that never arrive. -/
def InFrame (frames : List Frame) (s : Reader) : Prop :=
  ∃ done rest lost, frames = done ++ rest ∧ s.received = done.map content ∧
    s.pc.Expects rest (s.stream.bytes ++ lost)

variable {parse : List UInt8 → Option RpcHeader} {frames : List Frame} {s : Reader}

theorem inFrame_of_pc {done rest : List Frame} {lost : List UInt8} {pc : Pc}
    (hframes : frames = done ++ rest) (hreceived : s.received = done.map content)
    (hpc : s.pc = pc) (h : pc.Expects rest (s.stream.bytes ++ lost)) : InFrame frames s :=
  ⟨done, rest, lost, hframes, hreceived, hpc ▸ h⟩

theorem InFrame.stop (h : InFrame frames s) : InFrame frames s.stop := by
  obtain ⟨done, rest, lost, hframes, hreceived, -⟩ := h
  exact ⟨done, rest, lost, hframes, hreceived, trivial⟩

/-- The size read is that of the next frame. -/
theorem readVarint32_wire {timeout : Option ℕ} {stream after : Socket} {lost : List UInt8} {n : ℕ}
    {rest : List Frame} (hwf : ∀ f ∈ rest, f.Readable parse readerLoop.admits)
    (hread : readVarint32 timeout stream = .ok n after) (h : stream.bytes ++ lost = wire rest) :
    Pc.Expects rest (after.bytes ++ lost) (.header n) := by
  have htake := readVarint32_ok hread lost
  rw [h] at htake
  cases rest with
  | nil => cases htake
  | cons f rest =>
    rw [wire_cons, takeVarint32_encodeVarint32 (lt_of_headerAccepted (hwf f (by simp)).size)]
      at htake
    obtain ⟨rfl, hafter⟩ := Read.ok.inj htake
    exact ⟨f, rest, rfl, rfl, hafter.symm⟩

/-! ### The three reads -/

variable {done rest : List Frame} {lost : List UInt8}

theorem readSize_inFrame (hwf : ∀ f ∈ rest, f.Readable parse readerLoop.admits)
    (hframes : frames = done ++ rest) (hreceived : s.received = done.map content)
    (h : s.stream.bytes ++ lost = wire rest) (hpc : s.pc = .size) (hok : Unsplit s .read) :
    InFrame frames (s.readSize readerLoop) := by
  have hhere : InFrame frames s := inFrame_of_pc hframes hreceived hpc h
  rw [Reader.readSize]
  split
  · rename_i n after hread
    split
    · exact ⟨done, rest, lost, hframes, hreceived, readVarint32_wire hwf hread h⟩
    · exact hhere.stop
  · rename_i after hread
    refine ⟨done, rest, lost, hframes, hreceived, ?_⟩
    show Pc.Expects rest (after.bytes ++ lost) s.pc
    rw [Unsplit, hpc, hread] at hok
    rw [hok, hpc]
    exact h
  · exact hhere.stop

theorem readHeader_inFrame {f : Frame} (L : Loop) (hwf : f.Readable parse readerLoop.admits)
    (hframes : frames = done ++ f :: rest) (hreceived : s.received = done.map content)
    (h : s.stream.bytes ++ lost = f.header.serialize ++ (f.args ++ wire rest))
    (hpc : s.pc = .header f.header.serialize.length) :
    InFrame frames (s.readHeader L parse f.header.serialize.length) := by
  have hhere : InFrame frames s :=
    inFrame_of_pc hframes hreceived hpc ⟨f, rest, rfl, rfl, h⟩
  rw [Reader.readHeader]
  split
  · rename_i data after hread
    obtain ⟨rfl, hafter⟩ := readExact_ahead hread h rfl
    rw [hwf.parsed]
    dsimp only
    split
    · exact ⟨done, f :: rest, lost, hframes, hreceived, f, rest, rfl, rfl, hafter⟩
    · exact hhere.stop
  · exact hhere.stop

theorem readBody_inFrame {f : Frame} (L : Loop) (hframes : frames = done ++ f :: rest)
    (hreceived : s.received = done.map content)
    (h : s.stream.bytes ++ lost = f.args ++ wire rest) (hpc : s.pc = .body f.header) :
    InFrame frames (s.readBody L f.header) := by
  have hhere : InFrame frames s :=
    inFrame_of_pc hframes hreceived hpc ⟨f, rest, rfl, rfl, h⟩
  rw [Reader.readBody]
  split
  · rename_i data after hread
    obtain ⟨rfl, hafter⟩ := readExact_ahead hread h f.sized
    refine ⟨done ++ [f], rest, lost, ?_, ?_, hafter⟩
    · rw [hframes, List.append_assoc, List.singleton_append]
    · rw [hreceived, List.map_append]
      rfl
  · exact hhere.stop

theorem next_inFrame (hwf : ∀ f ∈ frames, f.Readable parse readerLoop.admits) {a : ReaderAction}
    (h : InFrame frames s) (hok : Unsplit s a) :
    InFrame frames ((reading readerLoop parse).next s a) := by
  cases a with
  | stop => exact h.stop
  | read =>
    obtain ⟨done, rest, lost, hframes, hreceived, hexpects⟩ := h
    have hrest : ∀ f ∈ rest, f.Readable parse readerLoop.admits := by
      intro f hf
      apply hwf
      rw [hframes]
      exact List.mem_append_right done hf
    show InFrame frames (s.read readerLoop parse)
    rw [Reader.read]
    cases hpc : s.pc with
    | size =>
      rw [hpc] at hexpects
      exact readSize_inFrame hrest hframes hreceived hexpects hpc hok
    | header n =>
      rw [hpc] at hexpects
      obtain ⟨f, rest', rfl, rfl, hahead⟩ := hexpects
      exact readHeader_inFrame _ (hrest f (by simp)) hframes hreceived hahead hpc
    | body header =>
      rw [hpc] at hexpects
      obtain ⟨f, rest', rfl, rfl, hahead⟩ := hexpects
      exact readBody_inFrame _ hframes hreceived hahead hpc
    | stopped =>
      refine ⟨done, rest, lost, hframes, hreceived, ?_⟩
      rw [hpc]
      trivial

theorem start_inFrame {stream : Socket} (hsent : stream.bytes <+: wire frames) :
    InFrame frames ⟨stream, .size, []⟩ := by
  obtain ⟨lost, hlost⟩ := hsent
  exact ⟨[], frames, lost, rfl, rfl, hlost⟩

theorem InFrame.received (h : InFrame frames s) :
    s.received.map answer <+: frames.map fun f => answer (content f) := by
  obtain ⟨done, rest, lost, hframes, hreceived, -⟩ := h
  refine ⟨rest.map fun f => answer (content f), ?_⟩
  rw [hreceived, hframes, List.map_append, List.map_map]
  rfl

/-- **Decoding and timing.**  For every sequence of well-formed response frames, every part of it
that arrives and every pattern of delays: as long as no size stops coming behind its first byte,
what `ReaderLoop` has extracted is a beginning of what was sent. -/
theorem reader_in_frame {stream : Socket} (hwf : ∀ f ∈ frames, f.Readable parse readerLoop.admits)
    (hsent : stream.bytes <+: wire frames)
    (h : (reading readerLoop parse).Later Unsplit ⟨stream, .size, []⟩ s) :
    s.received.map answer <+: frames.map fun f => answer (content f) := by
  have hin : InFrame frames s :=
    h.invariant (I := InFrame frames) (fun _ _ hi _ hok => next_inFrame hwf hi hok)
      (start_inFrame hsent)
  exact hin.received

/-! ### The responses of `Provider` -/

/-- A size of one byte comes whole or not at all. -/
theorem unsplit_of_short (hshort : ∀ f ∈ frames, f.header.serialize.length < 128)
    (h : InFrame frames s) (a : ReaderAction) : Unsplit s a := by
  cases a with
  | stop => trivial
  | read =>
    rw [Unsplit]
    split
    case h_2 => trivial
    rename_i after hpc hread
    obtain ⟨done, rest, lost, hframes, -, hexpects⟩ := h
    rw [hpc] at hexpects
    rcases readVarint32_timedOut hread with hsame | ⟨b, tail, hbytes, hhigh⟩
    · exact hsame
    · change s.stream.bytes ++ lost = wire rest at hexpects
      rw [hbytes] at hexpects
      cases rest with
      | nil => cases hexpects
      | cons f rest =>
        have hlen : f.header.serialize.length < 128 := by
          apply hshort
          rw [hframes]
          simp
        rw [wire_cons, encodeVarint32, encodeVarint, if_neg (by omega)] at hexpects
        obtain ⟨rfl, -⟩ := List.cons.inj hexpects
        rw [UInt8.toNat_ofNat', Nat.mod_eq_of_lt (by omega)] at hhigh
        exact absurd ((and_0x80_eq_zero (by omega)).mpr hlen) hhigh

/-- With the responses of `Provider` the delays do not matter: their headers have no names and short
errors, so that the size is one byte. -/
theorem provider_in_frame (hcompact : Compact) {responses : List (ℕ × Completion)}
    {stream : Socket} (hids : ∀ r ∈ responses, r.1 ≠ 0)
    (hparse : ∀ r ∈ responses, parse (responseFrame r.1 r.2).header.serialize =
      some (responseFrame r.1 r.2).header)
    (hsent : stream.bytes <+: wire (responses.map fun r => responseFrame r.1 r.2))
    (h : (reading readerLoop parse).Later (fun _ _ => True) ⟨stream, .size, []⟩ s) :
    s.received.map answer <+: responses.map fun r => answer (content (responseFrame r.1 r.2)) := by
  have hframes : ∀ f ∈ responses.map (fun r => responseFrame r.1 r.2),
      f.Readable parse readerLoop.admits ∧ f.header.serialize.length < 128 := by
    intro f hf
    obtain ⟨r, hr, rfl⟩ := List.mem_map.mp hf
    have hshort := responseFrame_short hcompact r.1 r.2
    exact ⟨⟨responseFrame_accepted hcompact (hids r hr) r.2, rfl, hparse r hr⟩, by omega⟩
  have hin := h.invariant (I := InFrame (responses.map fun r => responseFrame r.1 r.2))
    (fun _ a hi _ _ => next_inFrame (fun f hf => (hframes f hf).1) hi
      (unsplit_of_short (fun f hf => (hframes f hf).2) hi a)) (start_inFrame hsent)
  simpa only [List.map_map, Function.comp_def] using hin.received

end Codec

section Runs

open Proto3

/-- The response comes after 70 s, and its body 7 s after its header. -/
theorem provider_in_frame_late :
    let frame := responseFrame 5 (.response [1, 2])
    let s := (reading readerLoop (knows [frame.header])).run
      ⟨[⟨70000, frame.bytes.take 5⟩, ⟨7000, frame.bytes.drop 5⟩], .size, []⟩
      [.read, .read, .read, .read]
    s.received.length = 1 ∧ s.received.map answer <+: [answer (content frame)] := by
  have hids : ∀ r ∈ [((5 : ℕ), Completion.response [1, 2])], r.1 ≠ 0 := by decide
  refine ⟨by decide +kernel, provider_in_frame compact hids ?_ (by decide +kernel)
    (Machine.later_run (by decide +kernel))⟩
  intro r hr
  rw [List.mem_singleton.mp hr]
  exact knows_head ..

/-! ### A size that is split -/

/-- Request 5 has failed, with a message of 300 bytes. -/
def failedHeader : RpcHeader := ⟨[], [], 0, 5, List.replicate 300 0x78⟩

/-- Request 5 is answered. -/
def emptyHeader : RpcHeader := ⟨[], [], 0, 5, []⟩

/-- A delay of 70 s before the frame, and one of 7 s within its header. -/
theorem reader_in_frame_late :
    let frame : Frame := ⟨failedHeader, [], rfl⟩
    let s := (reading readerLoop (knows [failedHeader])).run
      ⟨[⟨70000, frame.bytes.take 12⟩, ⟨7000, frame.bytes.drop 12⟩], .size, []⟩
      [.read, .read, .read, .read]
    s.received.length = 1 ∧
      s.received.map answer <+: [frame].map fun f => answer (content f) := by
  have hwf : ∀ f ∈ [(⟨failedHeader, [], rfl⟩ : Frame)],
      f.Readable (knows [failedHeader]) readerLoop.admits := by
    intro f hf
    rw [List.mem_singleton.mp hf]
    exact ⟨by decide +kernel, rfl, knows_head ..⟩
  refine ⟨by decide +kernel, ?_⟩
  exact reader_in_frame hwf (by decide +kernel) (Machine.later_run (by decide +kernel))

/-- The first byte of the size comes at once, the rest of the frame after 70 s.  The loop takes the
second byte, 2, for the size and reads a header of two bytes: instead of its error, the request
gets an empty response. -/
theorem split_size_out_of_frame :
    let frame : Frame := ⟨failedHeader, [], rfl⟩
    let parse := knows [failedHeader, emptyHeader]
    frame.Readable parse readerLoop.admits ∧ ∃ stream : Socket, stream.bytes = wire [frame] ∧
      ∃ s, (reading readerLoop parse).Later (fun _ _ => True) ⟨stream, .size, []⟩ s ∧
        s.received.map answer = [(5, .ok [])] ∧
        ¬s.received.map answer <+: [frame].map fun f => answer (content f) := by
  refine ⟨⟨by decide +kernel, rfl, knows_head ..⟩, ?_⟩
  refine ⟨[⟨0, (Frame.mk failedHeader [] rfl).bytes.take 1⟩,
    ⟨70000, (Frame.mk failedHeader [] rfl).bytes.drop 1⟩], by decide +kernel, ?_⟩
  refine ⟨(reading readerLoop (knows [failedHeader, emptyHeader])).run _
    [.read, .read, .read, .read], Machine.later_run (by decide +kernel), ?_, ?_⟩
  · decide +kernel
  · decide +kernel

end Runs

end PulsarRuntime.Rpc.Timed
