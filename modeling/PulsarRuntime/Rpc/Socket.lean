import Mathlib.Algebra.GroupWithZero.Nat

/-!
# Reading from a socket

A socket is the list of what its `recv` calls find: bytes, and the milliseconds that pass before
they come.  An arrival without bytes is a `recv` that gives `EAGAIN`; behind the last one the
connection fails.  `ReadExact` has a deadline for all its bytes, or none; what it has received when
the deadline passes is gone.  `ReadVarint32` calls it for one byte at a time, with a new deadline
each.

`readExact_bytes` says that what is read was in front, `readExact_append` that without a deadline
what is in front is read: neither the cuts nor the delays matter.  The loop of `ReadVarint32` is
written for any source of bytes; `readVarint_mapRest` and `readVarint_ok` carry a run of it over
from one source to another.
-/

namespace PulsarRuntime.Rpc

structure Arrival where
  delay : ℕ
  bytes : List UInt8

abbrev Socket := List Arrival

/-- The bytes, without the cuts and the delays. -/
def Socket.bytes (s : Socket) : List UInt8 := (s.map Arrival.bytes).flatten

/-- How a read ends, and what it leaves. -/
inductive Read (σ α : Type) where
  | ok (value : α) (rest : σ)
  /-- `errno` is `ETIMEDOUT` -/
  | timedOut (rest : σ)
  | failed (rest : σ)

namespace Read

variable {σ τ α β : Type}

def map (f : α → β) : Read σ α → Read σ β
  | .ok value rest => .ok (f value) rest
  | .timedOut rest => .timedOut rest
  | .failed rest => .failed rest

def mapRest (f : σ → τ) : Read σ α → Read τ α
  | .ok value rest => .ok value (f rest)
  | .timedOut rest => .timedOut (f rest)
  | .failed rest => .failed (f rest)

def rest : Read σ α → σ
  | .ok _ rest | .timedOut rest | .failed rest => rest

theorem of_map_eq_ok {f : α → β} {r : Read σ α} {b : β} {s : σ} (h : r.map f = .ok b s) :
    ∃ a, r = .ok a s ∧ f a = b := by
  cases r with
  | ok a rest =>
    obtain ⟨hb, rfl⟩ := Read.ok.inj h
    exact ⟨a, rfl, hb⟩
  | timedOut rest => cases h
  | failed rest => cases h

theorem of_map_eq_timedOut {f : α → β} {r : Read σ α} {s : σ} (h : r.map f = .timedOut s) :
    r = .timedOut s := by
  cases r with
  | timedOut rest => cases h; rfl
  | ok a rest => cases h
  | failed rest => cases h

end Read

/-- `Connection::ReadExact`; without a deadline if the timeout is negative. -/
def readExact : ℕ → Option ℕ → Socket → Read Socket (List UInt8)
  | 0, _, s => .ok [] s
  | _ + 1, _, [] => .failed []
  | size + 1, timeout, a :: s =>
    if timeout.any (· < a.delay) then .timedOut (⟨a.delay - timeout.getD 0, a.bytes⟩ :: s)
    else if a.bytes.length < size + 1 then
      (readExact (size + 1 - a.bytes.length) (timeout.map (· - a.delay)) s).map (a.bytes ++ ·)
    else .ok (a.bytes.take (size + 1)) (⟨0, a.bytes.drop (size + 1)⟩ :: s)

/-- The loop of `ReadVarint32`: byte `i`, with `left` bytes to go. -/
def readVarint {σ : Type} (byte : σ → Read σ UInt8) (i value : ℕ) : ℕ → σ → Read σ ℕ
  | 0, s => .failed s
  | left + 1, s =>
    match byte s with
    | .ok b s =>
      if i = 4 ∧ b.toNat &&& 0xf0 ≠ 0 then .failed s
      else
        let value := value ||| ((b.toNat &&& 0x7f) <<< (i * 7)) % 2 ^ 32
        if b.toNat &&& 0x80 = 0 then .ok value s
        else readVarint byte (i + 1) value left s
    | .timedOut s => .timedOut s
    | .failed s => .failed s

/-- One byte of a socket. -/
def readByte (timeout : Option ℕ) (s : Socket) : Read Socket UInt8 :=
  (readExact 1 timeout s).map (·.headD 0)

def readVarint32 (timeout : Option ℕ) (s : Socket) : Read Socket ℕ :=
  readVarint (readByte timeout) 0 0 5 s

/-- One of bytes that are all there. -/
def nextByte : List UInt8 → Read (List UInt8) UInt8
  | [] => .failed []
  | b :: rest => .ok b rest

/-- `ReadVarint32` on bytes that are all there. -/
def takeVarint32 (bytes : List UInt8) : Read (List UInt8) ℕ := readVarint nextByte 0 0 5 bytes

/-! ### What `ReadExact` takes -/

section ReadExact

variable {size : ℕ} {timeout : Option ℕ} {s rest : Socket} {data lost : List UInt8}

theorem bytes_cons (a : Arrival) (s : Socket) : Socket.bytes (a :: s) = a.bytes ++ s.bytes := rfl

/-- What is read was in front. -/
theorem readExact_bytes (h : readExact size timeout s = .ok data rest) :
    s.bytes = data ++ rest.bytes ∧ data.length = size := by
  induction s generalizing size timeout data with
  | nil =>
    cases size with
    | zero => cases h; exact ⟨rfl, rfl⟩
    | succ size => cases h
  | cons a s ih =>
    cases size with
    | zero => cases h; exact ⟨rfl, rfl⟩
    | succ size =>
      rw [readExact] at h
      split at h
      · cases h
      · split at h
        next hshort =>
          obtain ⟨more, hmore, rfl⟩ := Read.of_map_eq_ok h
          obtain ⟨hbytes, hlength⟩ := ih hmore
          rw [bytes_cons, hbytes, List.append_assoc, List.length_append]
          exact ⟨rfl, by omega⟩
        next hlong =>
          cases h
          rw [bytes_cons, bytes_cons, ← List.append_assoc, List.take_append_drop, List.length_take]
          exact ⟨rfl, by omega⟩

/-- The same when `lost` is still to come. -/
theorem readExact_ahead {expected tail : List UInt8}
    (hread : readExact size timeout s = .ok data rest) (h : s.bytes ++ lost = expected ++ tail)
    (hsize : size = expected.length) : data = expected ∧ rest.bytes ++ lost = tail := by
  obtain ⟨hbytes, hlength⟩ := readExact_bytes hread
  rw [hbytes, List.append_assoc] at h
  exact List.append_inj h (hlength.trans hsize)

/-- A read that times out has taken fewer bytes than it was to. -/
theorem readExact_timedOut (h : readExact size timeout s = .timedOut rest) :
    ∃ lost : List UInt8, s.bytes = lost ++ rest.bytes ∧ lost.length < size := by
  induction s generalizing size timeout with
  | nil => cases size <;> cases h
  | cons a s ih =>
    cases size with
    | zero => cases h
    | succ size =>
      rw [readExact] at h
      split at h
      · cases h
        exact ⟨[], rfl, Nat.succ_pos size⟩
      · split at h
        · obtain ⟨lost, hlost, hlength⟩ := ih (Read.of_map_eq_timedOut h)
          refine ⟨a.bytes ++ lost, ?_, ?_⟩
          · rw [bytes_cons, hlost, List.append_assoc]
          · rw [List.length_append]
            omega
        · cases h

/-- Without a deadline a read ends with its bytes, or at the end of the stream. -/
theorem readExact_none (size : ℕ) (s : Socket) :
    (∃ data rest, readExact size none s = .ok data rest) ∨
      s.bytes.length < size ∧ readExact size none s = .failed [] := by
  induction s generalizing size with
  | nil =>
    cases size with
    | zero => exact .inl ⟨[], [], rfl⟩
    | succ size => exact .inr ⟨Nat.succ_pos size, rfl⟩
  | cons a s ih =>
    cases size with
    | zero => exact .inl ⟨[], a :: s, rfl⟩
    | succ size =>
      rw [readExact, bytes_cons, List.length_append]
      simp only [Option.any_none, Bool.false_eq_true, if_false, Option.map_none]
      split
      next hshort =>
        rcases ih (size + 1 - a.bytes.length) with ⟨data, rest, h⟩ | ⟨hend, h⟩
        · exact .inl ⟨a.bytes ++ data, rest, by rw [h]; rfl⟩
        · exact .inr ⟨by omega, by rw [h]; rfl⟩
      · exact .inl ⟨_, _, rfl⟩

/-- **Reads and cuts.**  Without a deadline what is in front is read. -/
theorem readExact_append {tail : List UInt8} (data : List UInt8) (h : s.bytes = data ++ tail) :
    ∃ rest, readExact data.length none s = .ok data rest ∧ rest.bytes = tail := by
  rcases readExact_none data.length s with ⟨data', rest, hread⟩ | ⟨hend, -⟩
  · rw [← List.append_nil s.bytes] at h
    obtain ⟨rfl, hrest⟩ := readExact_ahead hread h rfl
    exact ⟨rest, hread, (List.append_nil _).symm.trans hrest⟩
  · rw [h, List.length_append] at hend
    omega

end ReadExact

/-! ### `ReadVarint32` on different sources -/

section ReadVarint

variable {σ τ : Type} {byte : σ → Read σ UInt8} {byte' : τ → Read τ UInt8} (f : σ → τ)

/-- Sources that agree byte by byte agree on the varint. -/
theorem readVarint_mapRest (h : ∀ s, (byte s).mapRest f = byte' (f s)) (i value left : ℕ) (s : σ) :
    (readVarint byte i value left s).mapRest f = readVarint byte' i value left (f s) := by
  induction left generalizing i value s with
  | zero => rfl
  | succ left ih =>
    have hbyte := h s
    rw [readVarint, readVarint, ← hbyte]
    cases byte s with
    | ok b s =>
      dsimp only
      rw [apply_ite (Read.mapRest f), apply_ite (Read.mapRest f), ih]
      rfl
    | timedOut s => rfl
    | failed s => rfl

/-- It is enough that they agree on the bytes that come. -/
theorem readVarint_ok (h : ∀ s b s', byte s = .ok b s' → byte' (f s) = .ok b (f s'))
    {i value left n : ℕ} {s rest : σ} (hread : readVarint byte i value left s = .ok n rest) :
    readVarint byte' i value left (f s) = .ok n (f rest) := by
  induction left generalizing i value s with
  | zero => cases hread
  | succ left ih =>
    rw [readVarint] at hread
    split at hread
    next b s' hb =>
      rw [readVarint, h s b s' hb]
      dsimp only at hread ⊢
      split at hread
      · cases hread
      next hproto =>
        rw [if_neg hproto]
        split at hread
        next hlast =>
          cases hread
          rw [if_pos hlast]
        next hmore =>
          rw [if_neg hmore]
          exact ih hread
    · cases hread
    · cases hread

end ReadVarint

variable {timeout : Option ℕ}

theorem readByte_ok {s rest : Socket} {b : UInt8}
    (h : readByte timeout s = .ok b rest) : s.bytes = b :: rest.bytes := by
  obtain ⟨data, hread, rfl⟩ := Read.of_map_eq_ok h
  obtain ⟨hbytes, hlength⟩ := readExact_bytes hread
  obtain ⟨c, rfl⟩ := List.length_eq_one_iff.mp hlength
  exact hbytes

theorem readByte_none (s : Socket) : (readByte none s).mapRest Socket.bytes = nextByte s.bytes := by
  rw [readByte]
  cases hbytes : s.bytes with
  | nil =>
    rcases readExact_none 1 s with ⟨data, rest, hread⟩ | ⟨-, hread⟩
    · obtain ⟨hsplit, hlength⟩ := readExact_bytes hread
      rw [hbytes] at hsplit
      rw [(List.append_eq_nil_iff.mp hsplit.symm).1] at hlength
      cases hlength
    · rw [hread]
      rfl
  | cons b tail =>
    obtain ⟨rest, hread, hrest⟩ := readExact_append [b] hbytes
    rw [List.length_singleton] at hread
    rw [hread, nextByte, ← hrest]
    rfl

/-- The varint read is the one in front, also when `lost` is still to come. -/
theorem readVarint32_ok {s rest : Socket} {n : ℕ}
    (h : readVarint32 timeout s = .ok n rest) (lost : List UInt8) :
    takeVarint32 (s.bytes ++ lost) = .ok n (rest.bytes ++ lost) := by
  refine readVarint_ok (fun s : Socket => s.bytes ++ lost) (fun s b s' hb => ?_) h
  rw [readByte_ok hb]
  rfl

/-- Before it has read a byte with the high bit set, `ReadVarint32` loses nothing to a timeout. -/
theorem readVarint32_timedOut {s rest : Socket} (h : readVarint32 timeout s = .timedOut rest) :
    rest.bytes = s.bytes ∨ ∃ b tail, s.bytes = b :: tail ∧ b.toNat &&& 0x80 ≠ 0 := by
  rw [readVarint32, readVarint] at h
  split at h
  next b s' hb =>
    dsimp only at h
    split at h
    · cases h
    · split at h
      · cases h
      next hmore => exact .inr ⟨b, s'.bytes, readByte_ok hb, hmore⟩
  next s' hb =>
    cases h
    obtain ⟨lost, hlost, hlength⟩ := readExact_timedOut (Read.of_map_eq_timedOut hb)
    rw [List.length_eq_zero_iff.mp (Nat.lt_one_iff.mp hlength)] at hlost
    exact .inl hlost.symm
  · cases h

end PulsarRuntime.Rpc
