import Mathlib.Algebra.BigOperators.Group.List.Basic
import Mathlib.Algebra.GroupWithZero.Nat
import Mathlib.Data.Finset.Card
import Mathlib.Order.Interval.Finset.Nat
import PulsarRuntime.Lib.Placement

/-!
# Stores of blocks

`Stacks` is an ordered map from keys to stacks, in which an element is pushed on the stack of its
key and taken from the stack of a given key or from the last stack that is not empty.  What it
holds is the list of its `entries`; each operation adds or removes one entry (`push_entries`,
`pop_spec`, `popLast_spec`), and where it stands in the list mostly does not matter.  The
keys stay in order (`Ordered`), so that the last entry is one of the largest key.

The second part replaces one element of a list (`exists_perm_set`).  The third is about ranges of
numbers: ranges that do not overlap fit into the space they lie in (`sum_length_le`).
-/

namespace PulsarRuntime

section Stacks

variable {K α : Type*}

/-- The keys in ascending order, each with its stack; the top of a stack is its last element. -/
abbrev Stacks (K α : Type*) := List (K × List α)

namespace Stacks

/-- All elements with their keys. -/
def entries (m : Stacks K α) : List (K × α) := m.flatMap fun e => e.2.map (Prod.mk e.1)

@[simp]
theorem entries_nil : entries ([] : Stacks K α) = [] := rfl

@[simp]
theorem entries_cons (e : K × List α) (m : Stacks K α) :
    entries (e :: m) = e.2.map (Prod.mk e.1) ++ entries m := by
  simp [entries]

theorem mem_keys_of_mem_entries {m : Stacks K α} {e : K × α} (h : e ∈ m.entries) :
    e.1 ∈ m.map Prod.fst := by
  obtain ⟨s, hs, he⟩ := List.mem_flatMap.mp h
  obtain ⟨x, -, rfl⟩ := List.mem_map.mp he
  exact List.mem_map_of_mem hs

/-- The top of the last stack that is not empty. -/
def popLast : Stacks K α → Option (α × Stacks K α)
  | [] => none
  | (j, l) :: rest =>
    match popLast rest with
    | some (x, rest') => some (x, (j, l) :: rest')
    | none => (takeLast l).map fun r => (r.1, (j, r.2) :: rest)

theorem popLast_none {m : Stacks K α} (h : popLast m = none) : m.entries = [] := by
  induction m with
  | nil => rfl
  | cons e rest ih =>
    simp only [popLast] at h
    split at h
    · cases h
    next hnone =>
      have hempty : e.2 = [] := takeLast_none (Option.map_eq_none_iff.mp h)
      simp only [entries_cons, hempty, ih hnone, List.map_nil, List.append_nil]

variable {x : α}

/-- Taking the top of one stack takes its entry. -/
theorem takeLast_entries {j : K} {l l' : List α} (rest : Stacks K α)
    (h : takeLast l = some (x, l')) :
    (entries ((j, l) :: rest)).Perm ((j, x) :: entries ((j, l') :: rest)) := by
  simp only [entries_cons]
  exact (((takeLast_spec h).map (Prod.mk j)).append_right _)

variable {m m' : Stacks K α}

/-- What is taken is the last entry, and the keys stay. -/
theorem popLast_spec (h : popLast m = some (x, m')) :
    (∃ k, m.entries = m'.entries ++ [(k, x)]) ∧ m'.map Prod.fst = m.map Prod.fst := by
  induction m generalizing m' with
  | nil => cases h
  | cons e rest ih =>
    simp only [popLast] at h
    split at h
    next y rest' hpop =>
      obtain ⟨rfl, rfl⟩ := Prod.mk.inj (Option.some.inj h)
      obtain ⟨⟨k, hrest⟩, hkeys⟩ := ih hpop
      refine ⟨⟨k, ?_⟩, ?_⟩
      · simp only [entries_cons, hrest, List.append_assoc]
      · simp only [List.map_cons, hkeys]
    next hnone =>
      obtain ⟨⟨y, l'⟩, htake, heq⟩ := Option.map_eq_some_iff.mp h
      obtain ⟨rfl, rfl⟩ := Prod.mk.inj heq
      refine ⟨⟨e.1, ?_⟩, rfl⟩
      simp only [entries_cons, takeLast_some htake, popLast_none hnone, List.map_append,
        List.map_cons, List.map_nil, List.append_nil]

theorem popLast_entries (h : popLast m = some (x, m')) :
    ∃ k, m.entries.Perm ((k, x) :: m'.entries) := by
  obtain ⟨⟨k, hentries⟩, -⟩ := popLast_spec h
  refine ⟨k, ?_⟩
  rw [hentries]
  exact List.perm_append_singleton _ _

variable [LinearOrder K]

/-- The stack of `k` is created if there is none. -/
def touch (k : K) : Stacks K α → Stacks K α
  | [] => [(k, [])]
  | (j, l) :: rest =>
    if k < j then (k, []) :: (j, l) :: rest
    else if j = k then (j, l) :: rest
    else (j, l) :: touch k rest

/-- `x` is pushed on the stack of `k`. -/
def push (k : K) (x : α) : Stacks K α → Stacks K α
  | [] => [(k, [x])]
  | (j, l) :: rest =>
    if k < j then (k, [x]) :: (j, l) :: rest
    else if j = k then (j, l ++ [x]) :: rest
    else (j, l) :: push k x rest

/-- The top of the stack of `k`. -/
def pop (k : K) : Stacks K α → Option (α × Stacks K α)
  | [] => none
  | (j, l) :: rest =>
    if j = k then (takeLast l).map fun r => (r.1, (j, r.2) :: rest)
    else (pop k rest).map fun r => (r.1, (j, l) :: r.2)

theorem touch_entries (k : K) (m : Stacks K α) : (touch k m).entries = m.entries := by
  induction m with
  | nil => rfl
  | cons e rest ih =>
    simp only [touch]
    split
    · rfl
    · split
      · rfl
      · simp only [entries_cons, ih]

theorem push_entries (k : K) (x : α) (m : Stacks K α) :
    (push k x m).entries.Perm ((k, x) :: m.entries) := by
  induction m with
  | nil => exact .refl _
  | cons e rest ih =>
    simp only [push]
    split
    · exact .refl _
    · split
      next hkey =>
        simp only [entries_cons, List.map_append, List.map_cons, List.map_nil, List.append_assoc,
          List.singleton_append, hkey]
        exact List.perm_middle
      · simp only [entries_cons]
        exact (ih.append_left _).trans List.perm_middle

/-- What has just been pushed comes first. -/
theorem pop_push (k : K) (x : α) (m : Stacks K α) : ∃ m', pop k (push k x m) = some (x, m') := by
  induction m with
  | nil =>
    refine ⟨[(k, [])], ?_⟩
    simp [push, pop, takeLast]
  | cons e rest ih =>
    obtain ⟨j, l⟩ := e
    simp only [push]
    split
    · simp [pop, takeLast]
    · split
      next hkey => simp [pop, takeLast, hkey]
      next hkey =>
        obtain ⟨m', hm'⟩ := ih
        exact ⟨(j, l) :: m', by simp only [pop, if_neg hkey, hm', Option.map_some]⟩

theorem pop_spec {k : K} (h : pop k m = some (x, m')) :
    m.entries.Perm ((k, x) :: m'.entries) ∧ m'.map Prod.fst = m.map Prod.fst := by
  induction m generalizing m' with
  | nil => cases h
  | cons e rest ih =>
    simp only [pop] at h
    split at h
    next hkey =>
      obtain ⟨⟨y, l'⟩, htake, heq⟩ := Option.map_eq_some_iff.mp h
      obtain ⟨rfl, rfl⟩ := Prod.mk.inj heq
      rw [← hkey]
      exact ⟨takeLast_entries rest htake, rfl⟩
    next hkey =>
      obtain ⟨⟨y, rest'⟩, hpop, heq⟩ := Option.map_eq_some_iff.mp h
      obtain ⟨rfl, rfl⟩ := Prod.mk.inj heq
      obtain ⟨hrest, hkeys⟩ := ih hpop
      simp only [entries_cons, List.map_cons, hkeys, and_true]
      exact (hrest.append_left _).trans List.perm_middle

/-! ### The order of the keys -/

/-- The keys are ascending. -/
def Ordered (m : Stacks K α) : Prop := (m.map Prod.fst).Pairwise (· < ·)

/-- A push makes the same keys as the creation of an empty stack. -/
theorem push_keys (k : K) (x : α) (m : Stacks K α) :
    (push k x m).map Prod.fst = (touch k m).map Prod.fst := by
  induction m with
  | nil => rfl
  | cons e rest ih =>
    simp only [push, touch]
    split
    · rfl
    · split
      · rfl
      · simp only [List.map_cons, ih]

theorem mem_touch_keys {k j : K} {m : Stacks K α} (h : j ∈ (touch k m).map Prod.fst) :
    j = k ∨ j ∈ m.map Prod.fst := by
  induction m with
  | nil => exact .inl (List.mem_singleton.mp h)
  | cons e rest ih =>
    simp only [touch] at h
    split at h
    · simpa using h
    · split at h
      · exact .inr h
      · rw [List.map_cons, List.mem_cons] at h ⊢
        obtain hhead | htail := h
        · exact .inr (.inl hhead)
        · exact (ih htail).imp_right .inr

theorem Ordered.touch {m : Stacks K α} (h : m.Ordered) (k : K) : (touch k m).Ordered := by
  induction m with
  | nil => exact List.pairwise_singleton _ _
  | cons e rest ih =>
    obtain ⟨hhead, htail⟩ := List.pairwise_cons.mp h
    simp only [Stacks.touch]
    split
    next hlt =>
      refine List.pairwise_cons.mpr ⟨fun j hj => ?_, h⟩
      obtain rfl | hrest := List.mem_cons.mp hj
      · exact hlt
      · exact hlt.trans (hhead j hrest)
    next hlt =>
      split
      · exact h
      next hne =>
        refine List.pairwise_cons.mpr ⟨fun j hj => ?_, ih htail⟩
        obtain rfl | hrest := mem_touch_keys hj
        · exact lt_of_le_of_ne (not_lt.mp hlt) hne
        · exact hhead j hrest

theorem Ordered.push {m : Stacks K α} (h : m.Ordered) (k : K) (x : α) : (push k x m).Ordered := by
  rw [Ordered, push_keys]
  exact h.touch k

theorem Ordered.of_keys (h : m.Ordered)
    (hkeys : m'.map Prod.fst = m.map Prod.fst) : m'.Ordered := by
  rw [Ordered, hkeys]
  exact h

/-- The entries are in the order of their keys. -/
theorem Ordered.entries {m : Stacks K α} (h : m.Ordered) :
    m.entries.Pairwise fun e e' => e.1 ≤ e'.1 := by
  induction m with
  | nil => exact .nil
  | cons s rest ih =>
    obtain ⟨hhead, htail⟩ := List.pairwise_cons.mp h
    rw [entries_cons, List.pairwise_append]
    refine ⟨List.pairwise_map.mpr (List.pairwise_of_forall fun _ _ => le_rfl), ih htail, ?_⟩
    intro e he e' he'
    obtain ⟨x, -, rfl⟩ := List.mem_map.mp he
    exact (hhead e'.1 (mem_keys_of_mem_entries he')).le

end Stacks

end Stacks

section Replace

variable {α : Type*} {l : List α} {i : ℕ} {x : α}

/-- The `i`th element, the others, and the list with another `i`th element. -/
theorem exists_perm_set (h : l[i]? = some x) :
    ∃ rest, l.Perm (x :: rest) ∧ ∀ y, (l.set i y).Perm (y :: rest) := by
  obtain ⟨hi, rfl⟩ := List.getElem?_eq_some_iff.mp h
  exact ⟨l.eraseIdx i, (List.getElem_cons_eraseIdx_perm hi).symm, List.set_perm_cons_eraseIdx hi⟩

/-- What the elements have, after the `i`th one has been replaced. -/
theorem flatMap_set_perm {β : Type*} (f : α → List β) (h : l[i]? = some x) (y : α) :
    (f x ++ (l.set i y).flatMap f).Perm (f y ++ l.flatMap f) := by
  obtain ⟨rest, hbefore, hafter⟩ := exists_perm_set h
  have hl := hbefore.flatMap_right f
  have hset := (hafter y).flatMap_right f
  rw [List.flatMap_cons] at hl hset
  refine (hset.append_left (f x)).trans (.trans ?_ (hl.symm.append_left (f y)))
  simp only [← List.append_assoc]
  exact List.perm_append_comm.append_right _

theorem sum_map_set (f : α → ℕ) (h : l[i]? = some x) (y : α) :
    ((l.set i y).map f).sum + f x = (l.map f).sum + f y := by
  obtain ⟨rest, hbefore, hafter⟩ := exists_perm_set h
  rw [(hbefore.map f).sum_nat, ((hafter y).map f).sum_nat, List.map_cons, List.map_cons,
    List.sum_cons, List.sum_cons]
  omega

theorem perm_eraseIdx (h : l[i]? = some x) : l.Perm (x :: l.eraseIdx i) := by
  obtain ⟨hi, rfl⟩ := List.getElem?_eq_some_iff.mp h
  exact (List.getElem_cons_eraseIdx_perm hi).symm

end Replace

/-- Ranges below `n` that do not overlap are together at most `n` long. -/
theorem sum_length_le {α : Type*} (range : α → Finset ℕ) {n : ℕ} {l : List α}
    (hdisjoint : l.Pairwise fun x y => Disjoint (range x) (range y))
    (hbelow : ∀ x ∈ l, range x ⊆ Finset.range n) : (l.map fun x => (range x).card).sum ≤ n := by
  -- the union of the ranges, as far as the list has been gone through
  have hunion : ∃ u : Finset ℕ, u ⊆ Finset.range n ∧ (∀ v, (∀ x ∈ l, Disjoint v (range x)) →
      Disjoint v u) ∧ u.card = (l.map fun x => (range x).card).sum := by
    induction l with
    | nil => exact ⟨∅, by simp, by simp, rfl⟩
    | cons x rest ih =>
      obtain ⟨hhead, htail⟩ := List.pairwise_cons.mp hdisjoint
      obtain ⟨u, hu, hfar, hcard⟩ := ih htail fun y hy => hbelow y (List.mem_cons_of_mem x hy)
      refine ⟨range x ∪ u, ?_, fun v hv => ?_, ?_⟩
      · exact Finset.union_subset (hbelow x List.mem_cons_self) hu
      · refine Finset.disjoint_union_right.mpr ⟨hv x List.mem_cons_self, hfar v fun y hy => ?_⟩
        exact hv y (List.mem_cons_of_mem x hy)
      · rw [Finset.card_union_of_disjoint (hfar _ hhead), hcard]
        simp
  obtain ⟨u, hu, -, hcard⟩ := hunion
  rw [← hcard]
  exact (Finset.card_le_card hu).trans (Finset.card_range n).le

end PulsarRuntime
