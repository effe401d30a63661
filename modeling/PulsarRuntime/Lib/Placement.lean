import Mathlib.Data.List.Count
import Mathlib.Data.List.Perm.Basic

/-!
# Containers that hold each element at most once

A family of lists, one for each place.  `Placed content x loc` says where `x` is: in no list at
all (`none`), or at exactly one position of the list of one place.  Exactly-once properties of
stores are proved by following one element: an insertion places the element it inserts, a move
changes the place of the element it moves, and neither touches any other.

`takeFirst` and `takeLast` take one element out of a list, from either end.
-/

namespace PulsarRuntime

section Placed

variable {P α : Type*} [DecidableEq P] [DecidableEq α]

/-- The lists hold `x` nowhere, or once in the list of `loc`. -/
def Placed (content : P → List α) (x : α) (loc : Option P) : Prop :=
  ∀ p, (content p).count x = if loc = some p then 1 else 0

namespace Placed

variable {content content' : P → List α} {x : α} {loc : Option P}

theorem mem_iff (h : Placed content x loc) (p : P) : x ∈ content p ↔ loc = some p := by
  rw [← List.count_pos_iff, h p]
  split <;> simp_all

/-- Only the number of occurrences matters. -/
theorem congr (h : Placed content x loc)
    (hc : ∀ p, (content' p).count x = (content p).count x) : Placed content' x loc := by
  intro p
  rw [hc p, h p]

variable {p : P}

/-- An element that no list holds is put into one. -/
theorem insert (h : Placed content x none) (hp : (content' p).Perm (x :: content p))
    (hne : ∀ p' ≠ p, content' p' = content p') : Placed content' x (some p) := by
  intro p'
  by_cases hpp : p' = p
  · subst hpp
    rw [hp.count_eq, List.count_cons_self, h p']
    simp
  · rw [hne p' hpp, h p']
    simp [Ne.symm hpp]

/-- The other elements are not affected. -/
theorem insert_other (h : Placed content x loc) {y : α} (hxy : x ≠ y)
    (hp : (content' p).Perm (y :: content p)) (hne : ∀ p' ≠ p, content' p' = content p') :
    Placed content' x loc := by
  refine h.congr fun p' => ?_
  by_cases hpp : p' = p
  · subst hpp
    rw [hp.count_eq, List.count_cons_of_ne (Ne.symm hxy)]
  · rw [hne p' hpp]

/-- An element is taken out of one list and put into another. -/
theorem move (h : Placed content x loc) {y : α} {p' : P} (hpp : p' ≠ p)
    (hout : (content p).Perm (y :: content' p)) (hin : (content' p').Perm (y :: content p'))
    (hne : ∀ r, r ≠ p → r ≠ p' → content' r = content r) :
    Placed content' x (if x = y then some p' else loc) := by
  by_cases hxy : x = y
  · subst hxy
    rw [if_pos rfl]
    obtain rfl : loc = some p :=
      (h.mem_iff p).mp (hout.mem_iff.mpr List.mem_cons_self)
    intro r
    by_cases hr : r = p
    · subst hr
      have hone := h r
      rw [hout.count_eq, List.count_cons_self, if_pos rfl] at hone
      rw [if_neg (by simpa using hpp)]
      omega
    · by_cases hr' : r = p'
      · subst hr'
        have hzero := h r
        rw [if_neg (by simpa using Ne.symm hr)] at hzero
        rw [hin.count_eq, List.count_cons_self, hzero, if_pos rfl]
      · rw [hne r hr hr', h r, if_neg (by simpa using Ne.symm hr),
          if_neg (by simpa using Ne.symm hr')]
  · rw [if_neg hxy]
    refine h.congr fun r => ?_
    by_cases hr : r = p
    · subst hr
      rw [hout.count_eq, List.count_cons_of_ne (Ne.symm hxy)]
    · by_cases hr' : r = p'
      · subst hr'
        rw [hin.count_eq, List.count_cons_of_ne (Ne.symm hxy)]
      · rw [hne r hr hr']

end Placed

end Placed

section Take

variable {α : Type*}

/-- The first element that satisfies `p`, and the list without it. -/
def takeFirst (p : α → Bool) : List α → Option (α × List α)
  | [] => none
  | x :: rest => if p x then some (x, rest) else (takeFirst p rest).map fun r => (r.1, x :: r.2)

variable {l rest : List α} {p : α → Bool} {x : α}

/-- `takeFirst` takes the first element with `p` out and leaves the others in their order. -/
theorem takeFirst_some (h : takeFirst p l = some (x, rest)) :
    p x = true ∧ ∃ l₁ l₂, l = l₁ ++ x :: l₂ ∧ rest = l₁ ++ l₂ ∧ ∀ y ∈ l₁, p y = false := by
  induction l generalizing rest with
  | nil => cases h
  | cons y l ih =>
    unfold takeFirst at h
    split at h
    · rename_i hy
      cases h
      exact ⟨hy, [], l, rfl, rfl, nofun⟩
    · rename_i hy
      obtain ⟨⟨z, rest'⟩, hz, heq⟩ := Option.map_eq_some_iff.mp h
      obtain ⟨rfl, rfl⟩ := Prod.mk.inj heq
      obtain ⟨hx, l₁, l₂, hl, rfl, hbefore⟩ := ih hz
      refine ⟨hx, y :: l₁, l₂, by rw [hl]; rfl, rfl, ?_⟩
      exact List.forall_mem_cons.mpr ⟨by simpa using hy, hbefore⟩

theorem takeFirst_spec (h : takeFirst p l = some (x, rest)) : p x = true ∧ l.Perm (x :: rest) := by
  obtain ⟨hx, l₁, l₂, rfl, rfl, -⟩ := takeFirst_some h
  exact ⟨hx, List.perm_middle⟩

theorem takeFirst_none {l : List α} (h : takeFirst p l = none) : ∀ x ∈ l, p x = false := by
  induction l with
  | nil => simp
  | cons y l ih =>
    unfold takeFirst at h
    split at h
    · cases h
    · rename_i hy
      intro x hx
      rcases List.mem_cons.mp hx with rfl | hx
      · simpa using hy
      · exact ih (Option.map_eq_none_iff.mp h) x hx

/-- The last element, and the list without it. -/
def takeLast (l : List α) : Option (α × List α) := l.getLast?.map fun x => (x, l.dropLast)

theorem takeLast_some (h : takeLast l = some (x, rest)) : l = rest ++ [x] := by
  obtain ⟨y, hy, heq⟩ := Option.map_eq_some_iff.mp h
  obtain ⟨rfl, rfl⟩ := Prod.mk.inj heq
  exact (List.dropLast_append_getLast? y hy).symm

theorem takeLast_none {l : List α} (h : takeLast l = none) : l = [] :=
  List.getLast?_eq_none_iff.mp (Option.map_eq_none_iff.mp h)

theorem takeLast_spec (h : takeLast l = some (x, rest)) : l.Perm (x :: rest) := by
  rw [takeLast_some h]
  exact List.perm_append_singleton x rest

end Take

end PulsarRuntime
