import Mathlib.Data.Nat.Bitwise
import PulsarRuntime.Rpc.Socket
import PulsarRuntime.Rpc.Wire

/-!
# The varint codec

A varint is a number in base 128, the low digits first, with the top bit set in every byte but the
last.  `ReadVarint32` accepts the delimited sequences of at most five bytes whose value is a word of
32 bits, shortest or not (`takeVarint_iff`), and `EncodeVarint32` writes the shortest one.
-/

namespace PulsarRuntime.Rpc

/-- All bytes but the last have the top bit set. -/
def Delimited : List UInt8 → Prop
  | [] => False
  | b :: bytes => (bytes = [] ∧ b.toNat < 128) ∨ (128 ≤ b.toNat ∧ Delimited bytes)

/-- The number in base 128, the low digits first. -/
def groupsValue : List UInt8 → ℕ
  | [] => 0
  | b :: bytes => b.toNat % 128 + 128 * groupsValue bytes

/-! ### Masks and shifts -/

variable {n : ℕ}

theorem and_0x80_eq_zero (hn : n < 256) : n &&& 0x80 = 0 ↔ n < 128 :=
  (by decide +kernel : ∀ n : Fin 256, n.val &&& 0x80 = 0 ↔ n.val < 128) ⟨n, hn⟩

theorem and_0xf0_eq_zero (hn : n < 256) : n &&& 0xf0 = 0 ↔ n < 16 :=
  (by decide +kernel : ∀ n : Fin 256, n.val &&& 0xf0 = 0 ↔ n.val < 16) ⟨n, hn⟩

theorem and_0x7f (n : ℕ) : n &&& 0x7f = n % 128 := Nat.and_two_pow_sub_one_eq_mod n 7

variable {i value : ℕ}

/-- Seven more bits above those already read. -/
theorem or_digit {digit : ℕ} (hvalue : value < 2 ^ (i * 7)) (hfits : digit * 2 ^ (i * 7) < 2 ^ 32) :
    value ||| (digit <<< (i * 7)) % 2 ^ 32 = value + digit * 2 ^ (i * 7) := by
  have hshift : (digit <<< (i * 7)) % 2 ^ 32 = digit <<< (i * 7) := by
    rw [Nat.shiftLeft_eq]
    exact Nat.mod_eq_of_lt hfits
  rw [hshift, Nat.or_comm, ← Nat.shiftLeft_add_eq_or_of_lt hvalue, Nat.shiftLeft_eq]
  omega

/-! ### Digits -/

variable {digits : List UInt8}

theorem Delimited.length_pos (h : Delimited digits) : 0 < digits.length := by
  cases digits with
  | nil => exact h.elim
  | cons b digits => exact Nat.succ_pos _

theorem groupsValue_lt (digits : List UInt8) : groupsValue digits < 128 ^ digits.length := by
  induction digits with
  | nil => exact Nat.one_pos
  | cons b digits ih =>
    show b.toNat % 128 + 128 * groupsValue digits < 128 ^ (digits.length + 1)
    rw [Nat.pow_succ]
    omega

/-! ### What is read -/

variable {b : UInt8}

/-- There is room for a digit, and for what is below it. -/
theorem digit_fits (hi : i ≤ 4) (hlast : i = 4 → b.toNat < 16)
    (hvalue : value < 2 ^ (i * 7)) : value + b.toNat % 128 * 2 ^ (i * 7) < 2 ^ 32 := by
  by_cases h4 : i = 4
  · have hsmall := hlast h4
    subst h4
    omega
  · have hpow : 2 ^ (i * 7) ≤ 2 ^ 21 := Nat.pow_le_pow_right Nat.two_pos (by omega)
    have hmul := Nat.mul_le_mul (show b.toNat % 128 ≤ 127 by omega) hpow
    omega

/-- A byte that is not refused. -/
theorem takeVarint_cons (left : ℕ) (bytes : List UInt8) (hi : i ≤ 4)
    (hlast : i = 4 → b.toNat < 16) (hvalue : value < 2 ^ (i * 7)) :
    readVarint nextByte i value (left + 1) (b :: bytes) =
      if b.toNat < 128 then .ok (value + b.toNat % 128 * 2 ^ (i * 7)) bytes
      else readVarint nextByte (i + 1) (value + b.toNat % 128 * 2 ^ (i * 7)) left bytes := by
  have hb : b.toNat < 256 := b.toNat_lt
  have hproto : ¬(i = 4 ∧ b.toNat &&& 0xf0 ≠ 0) := fun h =>
    h.2 ((and_0xf0_eq_zero hb).mpr (hlast h.1))
  have hfits : b.toNat % 128 * 2 ^ (i * 7) < 2 ^ 32 :=
    Nat.lt_of_le_of_lt (Nat.le_add_left _ value) (digit_fits hi hlast hvalue)
  simp only [readVarint, nextByte, if_neg hproto, and_0x7f, or_digit hvalue hfits,
    and_0x80_eq_zero hb]

/-- At most `left` bytes are read. -/
theorem takeVarint_consumed (i value left : ℕ) (bytes : List UInt8) :
    ∃ consumed, bytes = consumed ++ (readVarint nextByte i value left bytes).rest ∧
      consumed.length ≤ left := by
  induction left generalizing i value bytes with
  | zero => exact ⟨[], rfl, le_rfl⟩
  | succ left ih =>
    cases bytes with
    | nil => exact ⟨[], rfl, Nat.zero_le _⟩
    | cons b bytes =>
      simp only [readVarint, nextByte]
      split
      · exact ⟨[b], rfl, by simp⟩
      · split
        · exact ⟨[b], rfl, by simp⟩
        · obtain ⟨consumed, hbytes, hlength⟩ := ih (i + 1) _ bytes
          refine ⟨b :: consumed, ?_, Nat.succ_le_succ hlength⟩
          rw [List.cons_append, ← hbytes]

/-- `digits` are what `ReadVarint32` accepts from byte `i` on. -/
structure Reads (i value left : ℕ) (digits : List UInt8) : Prop where
  delimited : Delimited digits
  length : digits.length ≤ left
  fits : value + groupsValue digits * 2 ^ (i * 7) < 2 ^ 32

theorem pow_next (i : ℕ) : 2 ^ ((i + 1) * 7) = 128 * 2 ^ (i * 7) := by
  rw [Nat.add_mul, Nat.pow_add, Nat.mul_comm]

/-- A digit fills the place that it is for. -/
theorem digit_below (hvalue : value < 2 ^ (i * 7)) :
    value + b.toNat % 128 * 2 ^ (i * 7) < 2 ^ ((i + 1) * 7) := by
  have hmul := Nat.mul_le_mul_right (2 ^ (i * 7)) (show b.toNat % 128 ≤ 127 by omega)
  rw [pow_next]
  omega

theorem groupsValue_cons_mul (i value : ℕ) (b : UInt8) (digits : List UInt8) :
    value + groupsValue (b :: digits) * 2 ^ (i * 7) =
      value + b.toNat % 128 * 2 ^ (i * 7) + groupsValue digits * 2 ^ ((i + 1) * 7) := by
  rw [pow_next, groupsValue, Nat.add_mul, Nat.add_assoc, Nat.mul_comm 128, Nat.mul_assoc]

/-- The first digit is the last one, or the others follow. -/
theorem reads_cons {left : ℕ} :
    Reads i value (left + 1) (b :: digits) ↔
      (digits = [] ∧ b.toNat < 128 ∧ value + b.toNat % 128 * 2 ^ (i * 7) < 2 ^ 32) ∨
      (128 ≤ b.toNat ∧ Reads (i + 1) (value + b.toNat % 128 * 2 ^ (i * 7)) left digits) := by
  have hvalue := groupsValue_cons_mul i value b digits
  constructor
  · rintro ⟨⟨rfl, hb⟩ | ⟨hb, hdelimited⟩, hlength, hfits⟩
    · rw [hvalue, groupsValue, Nat.zero_mul] at hfits
      exact .inl ⟨rfl, hb, hfits⟩
    · rw [hvalue] at hfits
      exact .inr ⟨hb, hdelimited, Nat.le_of_succ_le_succ hlength, hfits⟩
  · rintro (⟨rfl, hb, hfits⟩ | ⟨hb, hreads⟩)
    · refine ⟨.inl ⟨rfl, hb⟩, Nat.succ_le_succ (Nat.zero_le left), ?_⟩
      rw [hvalue, groupsValue, Nat.zero_mul]
      exact hfits
    · refine ⟨.inr ⟨hb, hreads.delimited⟩, Nat.succ_le_succ hreads.length, ?_⟩
      rw [hvalue]
      exact hreads.fits

variable {v : ℕ}

/-- The digits start with the byte that is read. -/
theorem exists_reads_cons {left : ℕ} {bytes rest : List UInt8} :
    (∃ digits, Reads i value left digits ∧ b :: bytes = digits ++ rest ∧
      v = value + groupsValue digits * 2 ^ (i * 7)) ↔
    ∃ digits, Reads i value left (b :: digits) ∧ bytes = digits ++ rest ∧
      v = value + groupsValue (b :: digits) * 2 ^ (i * 7) := by
  constructor
  · rintro ⟨digits, hreads, hbytes, hv⟩
    cases digits with
    | nil => exact hreads.delimited.elim
    | cons c digits =>
      obtain ⟨rfl, htail⟩ := List.cons.inj hbytes
      exact ⟨digits, hreads, htail, hv⟩
  · rintro ⟨digits, hreads, rfl, hv⟩
    exact ⟨b :: digits, hreads, rfl, hv⟩

/-- A fifth byte of 16 or more is too large, or not the last one. -/
theorem not_reads_fifth (hb : 16 ≤ b.toNat) : ¬Reads 4 value 1 (b :: digits) := by
  rw [reads_cons]
  rintro (⟨-, hsmall, hfits⟩ | ⟨-, hreads⟩)
  · omega
  · have hpos := hreads.delimited.length_pos
    have hlength := hreads.length
    omega

/-- **What `ReadVarint32` accepts**, from byte `i` on. -/
theorem takeVarint_iff (i value left : ℕ) (bytes rest : List UInt8) (v : ℕ) (hi : i + left = 5)
    (hvalue : value < 2 ^ (i * 7)) :
    readVarint nextByte i value left bytes = .ok v rest ↔
      ∃ digits, Reads i value left digits ∧ bytes = digits ++ rest ∧
        v = value + groupsValue digits * 2 ^ (i * 7) := by
  induction left generalizing i value bytes with
  | zero =>
    refine iff_of_false (by simp [readVarint]) ?_
    rintro ⟨digits, hreads, -⟩
    have hpos := hreads.delimited.length_pos
    have hlength := hreads.length
    omega
  | succ left ih =>
    cases bytes with
    | nil =>
      refine iff_of_false (by simp [readVarint, nextByte]) ?_
      rintro ⟨digits, hreads, hbytes, -⟩
      have hnil := (List.append_eq_nil_iff.mp hbytes.symm).1
      rw [hnil] at hreads
      exact hreads.delimited
    | cons b bytes =>
      rw [exists_reads_cons]
      by_cases hrefused : i = 4 ∧ 16 ≤ b.toNat
      · obtain ⟨rfl, hb⟩ := hrefused
        obtain rfl : left = 0 := by omega
        have hmask : b.toNat &&& 0xf0 ≠ 0 := by
          rw [Ne, and_0xf0_eq_zero b.toNat_lt]
          omega
        refine iff_of_false (by simp [readVarint, nextByte, hmask]) ?_
        rintro ⟨digits, hreads, -⟩
        exact not_reads_fifth hb hreads
      · have hlast : i = 4 → b.toNat < 16 := by omega
        rw [takeVarint_cons left bytes (by omega) hlast hvalue]
        simp only [reads_cons, groupsValue_cons_mul]
        split
        next hsmall =>
          constructor
          · intro heq
            obtain ⟨hv, rfl⟩ := Read.ok.inj heq
            have hfits := digit_fits (by omega) hlast hvalue
            refine ⟨[], .inl ⟨rfl, hsmall, hfits⟩, rfl, ?_⟩
            rw [groupsValue, Nat.zero_mul]
            exact hv.symm
          · rintro ⟨digits, ⟨rfl, -⟩ | ⟨hb, -⟩, rfl, hv⟩
            · rw [groupsValue, Nat.zero_mul] at hv
              rw [hv]
              rfl
            · omega
        next hlarge =>
          rw [ih (i + 1) _ bytes (by omega) (digit_below hvalue)]
          constructor
          · rintro ⟨digits, hreads, hrest⟩
            exact ⟨digits, .inr ⟨Nat.not_lt.mp hlarge, hreads⟩, hrest⟩
          · rintro ⟨digits, ⟨-, hb, -⟩ | ⟨-, hreads⟩, hrest⟩
            · exact absurd hb hlarge
            · exact ⟨digits, hreads, hrest⟩

/-! ### What is written -/

/-- `EncodeVarint32` writes digits of the value, and no more than it needs. -/
theorem encodeVarint_digits (rounds value : ℕ) (h : value < 128 ^ (rounds + 1)) :
    Delimited (encodeVarint rounds value) ∧ groupsValue (encodeVarint rounds value) = value ∧
      (encodeVarint rounds value).length ≤ rounds + 1 ∧
      ((encodeVarint rounds value).length = 1 ∨
        128 ^ ((encodeVarint rounds value).length - 1) ≤ value) := by
  have hbyte (n : ℕ) (hn : n < 256) : (UInt8.ofNat n).toNat = n := by
    simpa using Nat.mod_eq_of_lt hn
  -- a value below 128 is the last digit
  have hone (value : ℕ) (hvalue : value < 128) : Delimited [UInt8.ofNat value] ∧
      groupsValue [UInt8.ofNat value] = value := by
    have hb := hbyte value (by omega)
    refine ⟨.inl ⟨rfl, by rw [hb]; exact hvalue⟩, ?_⟩
    rw [groupsValue, groupsValue, hb]
    omega
  induction rounds generalizing value with
  | zero =>
    obtain ⟨hdelimited, hvalue⟩ := hone value h
    exact ⟨hdelimited, hvalue, le_rfl, .inl rfl⟩
  | succ rounds ih =>
    simp only [encodeVarint]
    split
    next hlarge =>
      have hdiv : value / 128 < 128 ^ (rounds + 1) := by
        rw [Nat.pow_succ] at h
        exact Nat.div_lt_of_lt_mul (by omega)
      obtain ⟨hdelimited, hvalue, hlength, hshort⟩ := ih (value / 128) hdiv
      have hb := hbyte (value % 128 + 128) (by omega)
      refine ⟨.inr ⟨by rw [hb]; omega, hdelimited⟩, ?_, Nat.succ_le_succ hlength, .inr ?_⟩
      · rw [groupsValue, hb, hvalue]
        omega
      · rw [List.length_cons, Nat.add_sub_cancel]
        have hpos := hdelimited.length_pos
        obtain hone' | hpow := hshort
        · rw [hone']
          omega
        · rw [show (encodeVarint rounds (value / 128)).length =
            (encodeVarint rounds (value / 128)).length - 1 + 1 by omega, Nat.pow_succ]
          omega
    next hsmall =>
      obtain ⟨hdelimited, hvalue⟩ := hone value (by omega)
      exact ⟨hdelimited, hvalue, Nat.succ_le_succ (Nat.zero_le _), .inl rfl⟩

/-- There are no fewer digits. -/
theorem encodeVarint32_shortest (hv : v < 2 ^ 32)
    (hdelimited : Delimited digits) (hvalue : groupsValue digits = v) :
    (encodeVarint32 v).length ≤ digits.length := by
  have hpos := hdelimited.length_pos
  obtain ⟨-, -, -, hone | hpow⟩ := encodeVarint_digits 4 v (by omega)
  · rw [encodeVarint32, hone]
    exact hpos
  · have hlt := groupsValue_lt digits
    rw [hvalue] at hlt
    have hpow' := (Nat.pow_lt_pow_iff_right (show 1 < 128 by omega)).mp
      (Nat.lt_of_le_of_lt hpow hlt)
    rw [encodeVarint32]
    omega

/-! ### Reading what was written -/

theorem takeVarint32_iff (bytes rest : List UInt8) (n : ℕ) : takeVarint32 bytes = .ok n rest ↔
    ∃ digits, bytes = digits ++ rest ∧ Delimited digits ∧ digits.length ≤ 5 ∧
      groupsValue digits < 2 ^ 32 ∧ groupsValue digits = n := by
  rw [takeVarint32, takeVarint_iff 0 0 5 bytes rest n rfl Nat.one_pos]
  constructor
  · rintro ⟨digits, ⟨hd, hl, hf⟩, hbytes, rfl⟩
    simp only [Nat.zero_mul, Nat.pow_zero, Nat.mul_one, Nat.zero_add] at hf ⊢
    exact ⟨digits, hbytes, hd, hl, hf, rfl⟩
  · rintro ⟨digits, hbytes, hd, hl, hf, rfl⟩
    refine ⟨digits, ⟨hd, hl, ?_⟩, hbytes, ?_⟩
    · simpa using hf
    · simp

theorem takeVarint32_shorter {bytes rest : List UInt8}
    (h : takeVarint32 bytes = .ok n rest) : rest.length < bytes.length := by
  obtain ⟨digits, rfl, hdelimited, -⟩ := (takeVarint32_iff bytes rest n).mp h
  have hpos := hdelimited.length_pos
  rw [List.length_append]
  omega

theorem takeVarint32_encodeVarint32 (hv : v < 2 ^ 32) (rest : List UInt8) :
    takeVarint32 (encodeVarint32 v ++ rest) = .ok v rest := by
  obtain ⟨hdelimited, hvalue, hlength, -⟩ := encodeVarint_digits 4 v (by omega)
  rw [takeVarint32_iff]
  exact ⟨_, rfl, hdelimited, hlength, by rw [encodeVarint32, hvalue]; exact hv, hvalue⟩

/-- `ReadVarint32` on a socket, however the bytes are cut. -/
theorem readVarint32_none (s : Socket) :
    (readVarint32 none s).mapRest Socket.bytes = takeVarint32 s.bytes :=
  readVarint_mapRest Socket.bytes readByte_none 0 0 5 s

theorem readVarint32_encodeVarint32 (hv : v < 2 ^ 32) {s : Socket} {tail : List UInt8}
    (h : s.bytes = encodeVarint32 v ++ tail) :
    ∃ rest, readVarint32 none s = .ok v rest ∧ rest.bytes = tail := by
  have hread := readVarint32_none s
  rw [h, takeVarint32_encodeVarint32 hv] at hread
  cases hs : readVarint32 none s with
  | ok n rest =>
    rw [hs] at hread
    obtain ⟨rfl, hrest⟩ := Read.ok.inj hread
    exact ⟨rest, rfl, hrest⟩
  | timedOut rest =>
    rw [hs] at hread
    cases hread
  | failed rest =>
    rw [hs] at hread
    cases hread

/-- **The varint codec.**  What `EncodeVarint32` writes is read back and nothing behind it; it is
the shortest sequence of digits, of one to five bytes.  `ReadVarint32` accepts the delimited
sequences of at most five bytes with a value below `2 ^ 32`, returns the value and leaves what
comes behind; when it fails it has read at most five bytes.  On a socket the same is read, however
the bytes are cut. -/
theorem varint_codec (v : UInt32) (rest bytes : List UInt8) :
    (takeVarint32 (encodeVarint32 v.toNat ++ rest) = .ok v.toNat rest ∧
      1 ≤ (encodeVarint32 v.toNat).length ∧ (encodeVarint32 v.toNat).length ≤ 5 ∧
      ∀ digits, Delimited digits → groupsValue digits = v.toNat →
        (encodeVarint32 v.toNat).length ≤ digits.length) ∧
    (∀ n, takeVarint32 bytes = .ok n rest ↔ ∃ digits, bytes = digits ++ rest ∧
      Delimited digits ∧ digits.length ≤ 5 ∧ groupsValue digits < 2 ^ 32 ∧
      groupsValue digits = n) ∧
    (∃ consumed, bytes = consumed ++ (takeVarint32 bytes).rest ∧ consumed.length ≤ 5) ∧
    ∀ socket : Socket,
      (readVarint32 none socket).mapRest Socket.bytes = takeVarint32 socket.bytes := by
  have hv : v.toNat < 2 ^ 32 := v.toNat_lt
  obtain ⟨hdelimited, -, hlength, -⟩ := encodeVarint_digits 4 v.toNat (by omega)
  refine ⟨⟨takeVarint32_encodeVarint32 hv rest, hdelimited.length_pos, hlength, ?_⟩,
    takeVarint32_iff bytes rest, takeVarint_consumed 0 0 5 bytes, readVarint32_none⟩
  intro digits hd hvalue
  exact encodeVarint32_shortest hv hd hvalue

end PulsarRuntime.Rpc
