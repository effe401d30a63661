import Mathlib.Algebra.BigOperators.Ring.Finset
import Mathlib.Algebra.Order.BigOperators.Group.Finset
import PulsarRuntime.Lib.Family
import PulsarRuntime.Lib.Machine

/-!
# Reservations of buffer space

A `Reservation` is an object of one iteration of `Provider::State::Handle`.  `Add` loads
`buffered_bytes`, tests the limit and exchanges, again with the value found when the exchange fails,
and adds the amount to its own `bytes` afterwards; the destructor subtracts `bytes`.  Here these are
steps of any number of objects, in words of 64 bits.

Whatever the interleaving, `buffered_bytes` is the sum of what the objects have recorded and of what
has been exchanged and not been recorded yet.  It stays within the limit because the exchange
succeeds only on the value that was tested; so no sum is ever as large as a word.
-/

namespace PulsarRuntime.Rpc.Reservations

open Finset (range)

/-- Where a `Reservation` is. -/
inductive Pc where
  | idle
  /-- `Add` has `current`; the test and the exchange come next -/
  | adding (amount current : UInt64)
  /-- the exchange has succeeded, `bytes += amount` comes next -/
  | exchanged (amount : UInt64)
  | destroyed
  deriving DecidableEq

structure Reservation where
  pc : Pc
  bytes : UInt64
  /-- what the last `Add` has returned -/
  result : Option Bool
  /-- `bytes` when the last `Add` was called -/
  before : UInt64

namespace Reservation

/-- The bytes of a reservation that is live. -/
def live (r : Reservation) : ℕ :=
  match r.pc with
  | .destroyed => 0
  | _ => r.bytes.toNat

/-- What has been exchanged and not been recorded. -/
def pending (r : Reservation) : ℕ :=
  match r.pc with
  | .exchanged amount => amount.toNat
  | _ => 0

def share (r : Reservation) : ℤ := r.live + r.pending

end Reservation

structure State where
  maxBufferedBytes : UInt64
  bufferedBytes : UInt64
  reservations : ℕ → Reservation
  count : ℕ

namespace State

variable (s : State)

def set (k : ℕ) (r : Reservation) : State :=
  { s with reservations := Function.update s.reservations k r }

/-- The constructor. -/
def create : State :=
  { s with
    reservations := Function.update s.reservations s.count ⟨.idle, 0, none, 0⟩
    count := s.count + 1 }

/-- `Add(amount)` is called, up to the load. -/
def load (k : ℕ) (amount : UInt64) : State :=
  s.set k { s.reservations k with
    pc := .adding amount s.bufferedBytes
    result := none
    before := (s.reservations k).bytes }

/-- The test in the loop of `Add`. -/
def refuses (amount current : UInt64) : Bool :=
  amount > s.maxBufferedBytes || current > s.maxBufferedBytes - amount

/-- A round of the loop of `Add`; `compare_exchange_weak` may fail for no reason, and leaves the
value it has found in `current` when it fails. -/
def exchange (k : ℕ) (amount current : UInt64) (spurious : Bool) : State :=
  if s.refuses amount current then
    s.set k { s.reservations k with pc := .idle, result := some false }
  else if s.bufferedBytes = current ∧ spurious = false then
    { s.set k { s.reservations k with pc := .exchanged amount } with
      bufferedBytes := current + amount }
  else s.set k { s.reservations k with pc := .adding amount s.bufferedBytes }

/-- `bytes += amount`. -/
def record (k : ℕ) (amount : UInt64) : State :=
  s.set k { s.reservations k with
    pc := .idle
    bytes := (s.reservations k).bytes + amount
    result := some true }

/-- The destructor. -/
def destroy (k : ℕ) : State :=
  { s.set k { s.reservations k with pc := .destroyed } with
    bufferedBytes := s.bufferedBytes - (s.reservations k).bytes }

end State

inductive Action where
  | create
  | load (k : ℕ) (amount : UInt64)
  | exchange (k : ℕ) (amount current : UInt64) (spurious : Bool)
  | record (k : ℕ) (amount : UInt64)
  | destroy (k : ℕ)

/-- Every interleaving of any number of reservations. -/
def reservations : Machine State Action where
  init s := s.bufferedBytes = 0 ∧ s.count = 0
  enabled s
    | .create => True
    | .load k _ | .destroy k => k < s.count ∧ (s.reservations k).pc = .idle
    | .exchange k amount current _ => k < s.count ∧ (s.reservations k).pc = .adding amount current
    | .record k amount => k < s.count ∧ (s.reservations k).pc = .exchanged amount
  next s
    | .create => s.create
    | .load k amount => s.load k amount
    | .exchange k amount current spurious => s.exchange k amount current spurious
    | .record k amount => s.record k amount
    | .destroy k => s.destroy k

instance (s : State) (a : Action) : Decidable (reservations.enabled s a) := by
  rcases a <;> (dsimp only [reservations]; infer_instance)

/-- No operation of the step wraps around. -/
def Exact (s : State) : Action → Prop
  | .exchange _ amount current _ => s.refuses amount current = false →
    (s.maxBufferedBytes - amount).toNat + amount.toNat = s.maxBufferedBytes.toNat ∧
    (current + amount).toNat = current.toNat + amount.toNat
  | .record k amount =>
    ((s.reservations k).bytes + amount).toNat = (s.reservations k).bytes.toNat + amount.toNat
  | .destroy k => (s.bufferedBytes - (s.reservations k).bytes).toNat +
    (s.reservations k).bytes.toNat = s.bufferedBytes.toNat
  | _ => True

/-! ### The accounts -/

/-- As long as `Add` has not exchanged, and when it has refused, `bytes` is what it was. -/
def Settled (r : Reservation) : Prop :=
  match r.pc with
  | .adding _ _ => r.bytes = r.before
  | _ => r.result = some false → r.bytes = r.before

structure Inv (s : State) : Prop where
  total : (s.bufferedBytes.toNat : ℤ) = ∑ k ∈ range s.count, (s.reservations k).share
  bounded : s.bufferedBytes.toNat ≤ s.maxBufferedBytes.toNat
  settled : ∀ k < s.count, Settled (s.reservations k)

section Steps

variable {s s' : State} {k : ℕ}

theorem share_nonneg (r : Reservation) : 0 ≤ r.share := by
  unfold Reservation.share
  omega

/-- No reservation has more than all of them. -/
theorem Inv.share_le (h : Inv s) (hk : k < s.count) :
    (s.reservations k).share ≤ s.bufferedBytes.toNat := by
  rw [h.total]
  exact Finset.single_le_sum (f := fun k => (s.reservations k).share)
    (fun j _ => share_nonneg _) (Finset.mem_range.mpr hk)

theorem toNat_add_of_le {a b c : UInt64} (h : a.toNat + b.toNat ≤ c.toNat) :
    (a + b).toNat = a.toNat + b.toNat := by
  have hc : c.toNat < 2 ^ 64 := c.toNat_lt
  rw [UInt64.toNat_add]
  exact Nat.mod_eq_of_lt (by omega)

theorem toNat_sub_add {a b : UInt64} (h : b.toNat ≤ a.toNat) :
    (a - b).toNat + b.toNat = a.toNat := by
  rw [UInt64.toNat_sub_of_le a b (UInt64.le_iff_toNat_le.mpr h)]
  exact Nat.sub_add_cancel h

/-- What the test is for. -/
theorem refuses_false {amount current : UInt64} (h : s.refuses amount current = false) :
    (s.maxBufferedBytes - amount).toNat + amount.toNat = s.maxBufferedBytes.toNat ∧
      current.toNat + amount.toNat ≤ s.maxBufferedBytes.toNat := by
  simp only [State.refuses, Bool.or_eq_false_iff, decide_eq_false_iff_not, gt_iff_lt,
    UInt64.lt_iff_toNat_lt, Nat.not_lt] at h
  have hsub := toNat_sub_add h.1
  exact ⟨hsub, by omega⟩

theorem exact_of_inv (h : Inv s) {a : Action} (ha : reservations.enabled s a) : Exact s a := by
  cases a with
  | create => trivial
  | load k amount => trivial
  | exchange k amount current spurious =>
    intro hfits
    obtain ⟨hsub, hsum⟩ := refuses_false hfits
    exact ⟨hsub, toNat_add_of_le hsum⟩
  | record k amount =>
    have hshare := h.share_le ha.1
    simp only [Reservation.share, Reservation.live, Reservation.pending, ha.2] at hshare
    exact toNat_add_of_le (c := s.bufferedBytes) (by omega)
  | destroy k =>
    have hshare := h.share_le ha.1
    simp only [Reservation.share, Reservation.live, Reservation.pending, ha.2] at hshare
    exact toNat_sub_add (by omega)

/-- A step of one reservation. -/
theorem Inv.set (h : Inv s) (hk : k < s.count) {r : Reservation} (hr : Settled r)
    (hreservations : s'.reservations = Function.update s.reservations k r)
    (hcount : s'.count = s.count) (hmax : s'.maxBufferedBytes = s.maxBufferedBytes)
    (hbuffered : (s'.bufferedBytes.toNat : ℤ) =
      s.bufferedBytes.toNat + (r.share - (s.reservations k).share))
    (hbounded : s'.bufferedBytes.toNat ≤ s.maxBufferedBytes.toNat) : Inv s' := by
  refine ⟨?_, ?_, ?_⟩
  · rw [hreservations, hcount, hbuffered, Family.sum_update Reservation.share hk, ← h.total]
  · rw [hmax]
    exact hbounded
  · rw [hreservations, hcount]
    exact Family.forall_update h.settled hr

/-- A step that leaves the share of the reservation as it is. -/
theorem Inv.same (h : Inv s) (hk : k < s.count) {r : Reservation} (hr : Settled r)
    (hshare : r.share = (s.reservations k).share) : Inv (s.set k r) := by
  refine h.set hk hr rfl rfl rfl ?_ h.bounded
  rw [hshare, sub_self, add_zero]
  rfl

theorem Inv.next (h : Inv s) {a : Action} (ha : reservations.enabled s a) :
    Inv (reservations.next s a) := by
  have hexact := exact_of_inv h ha
  cases a with
  | create =>
    refine ⟨?_, h.bounded, Family.forall_add h.settled nofun⟩
    have hsum := Family.sum_add (f := s.reservations) (n := s.count) Reservation.share
      ⟨.idle, 0, none, 0⟩
    rw [← h.total] at hsum
    exact (hsum.trans (add_zero _)).symm
  | load k amount =>
    refine h.same ha.1 rfl ?_
    simp only [Reservation.share, Reservation.live, Reservation.pending, ha.2]
  | exchange k amount current spurious =>
    obtain ⟨hk, hpc⟩ := ha
    have hsettled := h.settled k hk
    rw [Settled, hpc] at hsettled
    simp only [reservations, State.exchange]
    split
    · refine h.same hk (fun _ => hsettled) ?_
      simp only [Reservation.share, Reservation.live, Reservation.pending, hpc]
    next hfits =>
      obtain ⟨-, hle⟩ := refuses_false (by simpa using hfits)
      obtain ⟨-, hsum⟩ := hexact (by simpa using hfits)
      split
      next hcurrent =>
        have hr : Settled { s.reservations k with pc := .exchanged amount } := fun _ => hsettled
        refine h.set hk hr rfl rfl rfl ?_ ?_
        · show ((current + amount).toNat : ℤ) = _
          simp only [Reservation.share, Reservation.live, Reservation.pending, hpc]
          rw [hsum, hcurrent.1]
          omega
        · show (current + amount).toNat ≤ _
          omega
      · refine h.same hk hsettled ?_
        simp only [Reservation.share, Reservation.live, Reservation.pending, hpc]
  | record k amount =>
    refine h.same ha.1 nofun ?_
    simp only [Exact] at hexact
    simp only [Reservation.share, Reservation.live, Reservation.pending, ha.2]
    omega
  | destroy k =>
    obtain ⟨hk, hpc⟩ := ha
    have hsettled := h.settled k hk
    rw [Settled, hpc] at hsettled
    have hbounded := h.bounded
    simp only [Exact] at hexact
    have hr : Settled { s.reservations k with pc := .destroyed } := hsettled
    refine h.set hk hr rfl rfl rfl ?_ ?_
    · show ((s.bufferedBytes - (s.reservations k).bytes).toNat : ℤ) = _
      simp only [Reservation.share, Reservation.live, Reservation.pending, hpc]
      omega
    · show (s.bufferedBytes - (s.reservations k).bytes).toNat ≤ _
      omega

/-- Only an exchange that succeeds adds to `buffered_bytes`. -/
theorem Inv.buffered_next (h : Inv s) {a : Action} (ha : reservations.enabled s a) :
    (reservations.next s a).maxBufferedBytes = s.maxBufferedBytes ∧
      ((reservations.next s a).bufferedBytes.toNat ≤ s.bufferedBytes.toNat ∨
        ∃ k amount current spurious, a = .exchange k amount current spurious ∧
          (reservations.next s a).bufferedBytes.toNat =
            s.bufferedBytes.toNat + amount.toNat) := by
  have hexact := exact_of_inv h ha
  cases a with
  | exchange k amount current spurious =>
    simp only [reservations, State.exchange]
    split
    · exact ⟨rfl, .inl le_rfl⟩
    next hfits =>
      split
      next hcurrent =>
        refine ⟨rfl, .inr ⟨k, amount, current, spurious, rfl, ?_⟩⟩
        rw [hcurrent.1]
        exact (hexact (by simpa using hfits)).2
      · exact ⟨rfl, .inl le_rfl⟩
  | destroy k =>
    refine ⟨rfl, .inl ?_⟩
    simp only [Exact] at hexact
    change (s.bufferedBytes - (s.reservations k).bytes).toNat ≤ _
    omega
  | _ => exact ⟨rfl, .inl le_rfl⟩

theorem set_bytes {r : Reservation} (hr : r.bytes = (s.reservations k).bytes) (j : ℕ) :
    ((s.set k r).reservations j).bytes = (s.reservations j).bytes := by
  by_cases hj : j = k
  · subst hj
    simp only [State.set, Function.update_self, hr]
  · simp only [State.set, Function.update_of_ne hj]

theorem inv_of_reach (h : reservations.Reach s) : Inv s := by
  refine h.invariant (fun s hinit => ?_) fun s a hs ha => hs.next ha
  obtain ⟨hbuffered, hcount⟩ := hinit
  refine ⟨?_, ?_, ?_⟩
  · rw [hbuffered, hcount]
    rfl
  · rw [hbuffered]
    exact Nat.zero_le _
  · rw [hcount]
    intro k hk
    omega

end Steps

/-- **Reservations.**  `buffered_bytes` is the sum of the bytes of the live reservations and of what
has been exchanged and not been recorded, and within the limit.  No operation of any step wraps
around.  After an `Add` that has returned `false` the reservation has what it had before, and
neither the round that refuses nor one that fails changes `buffered_bytes` or any `bytes`. -/
theorem reservation_accounting {s : State} (h : reservations.Reach s) :
    s.bufferedBytes.toNat = ∑ k ∈ range s.count, (s.reservations k).live +
      ∑ k ∈ range s.count, (s.reservations k).pending ∧
    s.bufferedBytes ≤ s.maxBufferedBytes ∧
    (∀ a, reservations.enabled s a → Exact s a) ∧
    (∀ k < s.count, (s.reservations k).result = some false →
      (s.reservations k).bytes = (s.reservations k).before) ∧
    ∀ k amount current spurious,
      (s.refuses amount current = true ∨ s.bufferedBytes ≠ current ∨ spurious = true) →
      let t := s.exchange k amount current spurious
      t.bufferedBytes = s.bufferedBytes ∧
        ∀ j, (t.reservations j).bytes = (s.reservations j).bytes := by
  have hinv := inv_of_reach h
  refine ⟨?_, ?_, fun a ha => exact_of_inv hinv ha, fun k hk hfalse => ?_, ?_⟩
  · have htotal := hinv.total
    simp only [Reservation.share, Finset.sum_add_distrib] at htotal
    apply Int.ofNat_inj.mp
    push_cast
    exact htotal
  · exact UInt64.le_iff_toNat_le.mpr hinv.bounded
  · have hsettled := hinv.settled k hk
    simp only [Settled] at hsettled
    split at hsettled
    · exact hsettled
    · exact hsettled hfalse
  · intro k amount current spurious hno t
    show (s.exchange k amount current spurious).bufferedBytes = _ ∧
      ∀ j, ((s.exchange k amount current spurious).reservations j).bytes = _
    simp only [State.exchange]
    split
    · exact ⟨rfl, set_bytes rfl⟩
    next hfits =>
      split
      next hgranted =>
        obtain hrefused | hother | hspurious := hno
        · exact absurd hrefused hfits
        · exact absurd hgranted.1 hother
        · exact absurd (hgranted.2.symm.trans hspurious) nofun
      · exact ⟨rfl, set_bytes rfl⟩

/-- Two reservations of 60 bytes with a limit of 100: the second one loses the exchange and is
refused then. -/
def contended : State :=
  reservations.run ⟨100, 0, fun _ => ⟨.idle, 0, none, 0⟩, 0⟩
    [.create, .create, .load 0 60, .load 1 60, .exchange 0 60 0 true, .exchange 0 60 0 false,
      .exchange 1 60 0 false, .exchange 1 60 60 false]

theorem reservation_accounting_contended :
    contended.bufferedBytes.toNat = 60 ∧ contended.bufferedBytes ≤ 100 ∧
      (contended.reservations 1).bytes = 0 := by
  have hinit : reservations.init ⟨100, 0, fun _ => ⟨.idle, 0, none, 0⟩, 0⟩ := ⟨rfl, rfl⟩
  have hreach : reservations.Reach contended :=
    Machine.reachVia_run (.start hinit) (by decide +kernel)
  obtain ⟨htotal, hle, -, hrefused, -⟩ := reservation_accounting hreach
  refine ⟨htotal.trans (by decide +kernel), hle, ?_⟩
  rw [hrefused 1 (by decide +kernel) (by decide +kernel)]
  decide +kernel

end PulsarRuntime.Rpc.Reservations
