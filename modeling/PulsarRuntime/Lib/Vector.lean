import Mathlib.Data.List.Basic
import Mathlib.Order.Nat

/-!
# Vectors of optional entries

A vector that is indexed by a number and grows when an index lies behind its end.  `slot` reads an
entry, an index behind the end reading as an empty one; growing (`resize`, `reserve`) moves no
entry, so after a write (`slot_set_self`, `slot_set_ne`) only the entry written has changed.
-/

namespace PulsarRuntime

/-- Entries that may be empty. -/
abbrev Slots (α : Type*) := List (Option α)

namespace Slots

variable {α : Type*} {t : Slots α} {i j size : ℕ}

def slot (t : Slots α) (i : ℕ) : Option α := t[i]?.join

/-- `std::vector::resize` -/
def resize (t : Slots α) (size : ℕ) : Slots α :=
  t.take size ++ List.replicate (size - t.length) none

/-- The vector with an entry for `i`; it gets `size` entries if it has to grow. -/
def reserve (t : Slots α) (i size : ℕ) : Slots α := if t.length ≤ i then t.resize size else t

theorem slot_set_self (h : i < t.length) (o : Option α) : slot (t.set i o) i = o := by
  rw [slot, List.getElem?_set_self h, Option.join_some]

theorem slot_set_ne (o : Option α) (h : j ≠ i) : slot (t.set i o) j = t.slot j := by
  rw [slot, slot, List.getElem?_set_ne (Ne.symm h)]

theorem slot_set_none (t : Slots α) (i : ℕ) : slot (t.set i none) i = none := by
  rw [slot, List.getElem?_set, if_pos rfl]
  split <;> rfl

theorem lt_of_slot {a : α} (h : t.slot i = some a) : i < t.length := by
  by_contra hlt
  rw [slot, List.getElem?_eq_none (Nat.not_lt.mp hlt)] at h
  cases h

theorem slot_replicate (n i : ℕ) : slot (List.replicate n (none : Option α)) i = none := by
  rw [slot, List.getElem?_replicate]
  split <;> rfl

theorem length_resize (t : Slots α) (size : ℕ) : (t.resize size).length = size := by
  simp only [resize, List.length_append, List.length_take, List.length_replicate]
  omega

theorem slot_resize (h : t.length ≤ size) (i : ℕ) : (t.resize size).slot i = t.slot i := by
  rw [slot, resize, List.take_of_length_le h]
  by_cases hi : i < t.length
  · rw [List.getElem?_append_left hi, slot]
  · rw [List.getElem?_append_right (Nat.not_lt.mp hi), slot,
      List.getElem?_eq_none (Nat.not_lt.mp hi)]
    exact slot_replicate _ _

/-- A vector that grows beyond the index has an entry for it, and the old ones. -/
theorem reserve_spec (h : t.length ≤ i → i < size) :
    i < (t.reserve i size).length ∧ t.length ≤ (t.reserve i size).length ∧
      ∀ j, (t.reserve i size).slot j = t.slot j := by
  rw [reserve]
  split
  · rename_i hle
    have hlt := h hle
    rw [length_resize]
    exact ⟨hlt, hle.trans hlt.le, fun j => slot_resize (hle.trans hlt.le) j⟩
  · rename_i hlt
    exact ⟨Nat.not_le.mp hlt, le_rfl, fun _ => rfl⟩

end Slots

end PulsarRuntime
