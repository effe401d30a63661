import Mathlib.Data.List.Infix
import PulsarRuntime.Events.Model

/-!
# Whether a descriptor keeps its context

Only `contextResize` changes the table.  A call that found the table too short computes the new
size from its own descriptor alone, and comes back under the write lock when the table may have
grown beyond that: `resize` then makes it shorter again, and drops the contexts at its end.  In a
run in which this does not happen (`Grows`) the table is only ever extended, so every context stays
where its descriptor leads to.
-/

namespace PulsarRuntime.Events

/-- The table is not resized to less than it has. -/
def Grows (s : Manager) : Action → Prop
  | .resize k => s.table.length ≤ (s.ops k).fd * 3 / 2
  | _ => True

instance (s : Manager) (a : Action) : Decidable (Grows s a) := by
  rcases a <;> (dsimp only [Grows]; infer_instance)

namespace Manager

variable {s t : Manager}

/-- The table, and the descriptors of the contexts, are the same. -/
structure SameTable (s t : Manager) : Prop where
  table : t.table = s.table
  allocated : t.allocated = s.allocated
  fd : ∀ p, (t.contexts p).fd = (s.contexts p).fd

theorem Touches.sameTable {p : ℕ} (h : Touches p s t) : SameTable s t := by
  refine ⟨h.table, h.allocated, fun q => ?_⟩
  by_cases hq : q = p
  · subst hq
    exact h.fd
  · rw [h.contexts q hq]

theorem lookup_sameTable (s : Manager) (k : ℕ) : SameTable s (s.lookup k) := by
  simp only [lookup]
  split <;> exact ⟨rfl, rfl, fun _ => rfl⟩

/-- Only a resize changes the table. -/
theorem next_sameTable (s : Manager) {a : Action} (ha : ∀ k, a ≠ .resize k) :
    SameTable s (manager.next s a) := by
  cases a with
  | call kind fd => exact ⟨rfl, rfl, fun _ => rfl⟩
  | lookup k => exact lookup_sameTable s k
  | resize k => exact absurd rfl (ha k)
  | enter k ok =>
    simp only [manager]
    split
    · rename_i p hpc
      have h := (body_touches s (s.ops k).kind p ok).sameTable
      exact ⟨h.table, h.allocated, h.fd⟩
    · exact ⟨rfl, rfl, fun _ => rfl⟩
  | fetch n => exact ⟨rfl, rfl, fun _ => rfl⟩
  | process i ok =>
    simp only [manager]
    split
    · rename_i n hn
      have h := (notify_touches { s with fetched := s.fetched.eraseIdx i } n ok).sameTable
      exact ⟨h.table, h.allocated, h.fd⟩
    · exact ⟨rfl, rfl, fun _ => rfl⟩

theorem resize_eq (s : Manager) (k : ℕ) :
    (s.resize k).table = (s.contextResize ((s.ops k).fd * 3 / 2)).table ∧
      (s.resize k).allocated = (s.contextResize ((s.ops k).fd * 3 / 2)).allocated ∧
      (s.resize k).contexts = (s.contextResize ((s.ops k).fd * 3 / 2)).contexts := by
  simp only [resize]
  split <;> exact ⟨rfl, rfl, rfl⟩

theorem contextResize_table {size : ℕ} (h : s.table.length ≤ size) :
    (s.contextResize size).table =
      s.table ++ (List.range (size - s.table.length)).map (s.allocated + ·) := by
  simp only [contextResize, List.take_of_length_le h]

/-- Every context is in the table, in the place its descriptor gives. -/
def Housed (s : Manager) : Prop := ∀ p < s.allocated, s.table[(s.contexts p).fd]? = some p

theorem SameTable.housed (h : s.Housed) (hsame : SameTable s t) : t.Housed := by
  intro p hp
  rw [hsame.allocated] at hp
  rw [hsame.table, hsame.fd]
  exact h p hp

theorem Housed.contextResize (h : s.Housed) {size : ℕ} (hsize : s.table.length ≤ size) :
    (s.contextResize size).Housed := by
  intro p hp
  have hp : p < s.allocated + (size - s.table.length) := hp
  rw [contextResize_table hsize]
  by_cases hnew : s.allocated ≤ p
  · -- a new context: it stands as far behind the old table as its number behind the old ones
    have hctx : ((s.contextResize size).contexts p).fd = s.table.length + (p - s.allocated) := by
      simp only [Manager.contextResize, if_pos (And.intro hnew hp), FdContext.new]
    rw [hctx, List.getElem?_append_right (Nat.le_add_right _ _), Nat.add_sub_cancel_left,
      List.getElem?_map, List.getElem?_range (by omega), Option.map_some]
    congr 1
    omega
  · have hctx : (s.contextResize size).contexts p = s.contexts p := by
      simp only [Manager.contextResize, if_neg fun h : _ ∧ _ => hnew h.1]
    have hold := h p (Nat.lt_of_not_le hnew)
    rw [hctx, List.getElem?_append_left (List.getElem?_eq_some_iff.mp hold).1]
    exact hold

theorem Housed.next (h : s.Housed) {a : Action} (hok : Grows s a) : (manager.next s a).Housed := by
  by_cases ha : ∃ k, a = .resize k
  · obtain ⟨k, rfl⟩ := ha
    obtain ⟨htable, halloc, hctx⟩ := resize_eq s k
    have hnew := h.contextResize hok
    intro p hp
    show (s.resize k).table[((s.resize k).contexts p).fd]? = some p
    rw [htable, hctx]
    refine hnew p ?_
    rw [← halloc]
    exact hp
  · exact (next_sameTable s fun k hk => ha ⟨k, hk⟩).housed h

theorem housed_of_init (h : manager.init s) : s.Housed := by
  obtain ⟨htable, halloc, hctx, -⟩ := h
  intro p hp
  rw [halloc] at hp
  rw [htable, hctx p]
  exact List.getElem?_range hp

/-- A step extends the table. -/
theorem table_next {a : Action} (hok : Grows s a) : s.table <+: (manager.next s a).table := by
  by_cases ha : ∃ k, a = .resize k
  · obtain ⟨k, rfl⟩ := ha
    show s.table <+: (s.resize k).table
    rw [(resize_eq s k).1, contextResize_table hok]
    exact List.prefix_append ..
  · rw [(next_sameTable s fun k hk => ha ⟨k, hk⟩).table]

theorem table_later (hl : manager.Later Grows s t) : s.table <+: t.table :=
  hl.invariant (I := fun t => s.table <+: t.table)
    (fun _ _ hs _ hok => hs.trans (table_next hok)) (List.prefix_refl _)

end Manager

/-- **The table is stable.**  In a run that never shrinks it, every context is found through its
descriptor; and from any state on the table gets no shorter, each descriptor keeps its context, and
that is the context every later lookup of the descriptor finds. -/
theorem table_stable {s : Manager} (h : manager.ReachVia Grows s) :
    (∀ p < s.allocated, s.table[(s.contexts p).fd]? = some p) ∧
    ∀ t, manager.Later Grows s t → s.table.length ≤ t.table.length ∧
      ∀ fd p, s.table[fd]? = some p → t.table[fd]? = some p ∧
        ∀ k, (t.ops k).fd = fd → ((manager.next t (.lookup k)).ops k).pc = .found p := by
  have hhoused : s.Housed := h.invariant (I := Manager.Housed)
    (fun _ => Manager.housed_of_init) fun _ _ hs _ hok => hs.next hok
  refine ⟨hhoused, fun t hl => ?_⟩
  have hkept := Manager.table_later hl
  refine ⟨hkept.length_le, fun fd p hp => ?_⟩
  have hkept : t.table[fd]? = some p := by
    obtain ⟨rest, hrest⟩ := hkept
    rw [← hrest, List.getElem?_append_left (List.getElem?_eq_some_iff.mp hp).1]
    exact hp
  refine ⟨hkept, fun k hk => ?_⟩
  subst hk
  simp only [manager, Manager.lookup, hkept, Manager.setPc, Function.update_self]

/-- Descriptor 40 makes the table grow; descriptor 50 comes after it. -/
def growTrace : List Action :=
  [.call (.addEvent .read none reader) 40, .lookup 0, .resize 0, .enter 0 true,
    .call (.addEvent .write none reader) 50, .lookup 1, .enter 1 true]

theorem table_stable_grown :
    let s := manager.run .fresh growTrace
    s.table.length = 60 ∧ s.table[(s.contexts 40).fd]? = some 40 := by
  intro s
  have hs : manager.ReachVia Grows s :=
    Machine.reachVia_run (.start manager_init_fresh) (by decide +kernel)
  exact ⟨by decide +kernel, (table_stable hs).1 40 (by decide +kernel)⟩

/-- Two calls find a table of 32 too short, for the descriptors 100 and 40. -/
def raceTrace : List Action :=
  [.call (.addEvent .read none reader) 100, .call (.addEvent .read none reader) 40, .lookup 0,
    .lookup 1, .resize 0, .enter 0 true]

/-- The first one makes the table 150 long and registers its event in context 100; the second one
makes it 60 long.  The event is still registered, but `cancelAll` does not find the descriptor
any more, and the next `addEvent` makes another context for it. -/
theorem table_shrunk :
    let s := manager.run .fresh raceTrace
    let t := manager.run s [.resize 1, .call .cancelAll 100, .lookup 2,
      .call (.addEvent .write none reader) 100, .lookup 3, .resize 3]
    manager.Reach s ∧ s.table.length = 150 ∧ s.table[100]? = some 100 ∧
      manager.Reach t ∧ (manager.next s (.resize 1)).table.length = 60 ∧
      (t.contexts 100).events .read = true ∧ (t.ops 2).pc = .returned false ∧
      t.table[100]? = some 190 := by
  intro s t
  have hs : manager.Reach s :=
    Machine.reachVia_run (.start manager_init_fresh) (by decide +kernel)
  exact ⟨hs, by decide +kernel, by decide +kernel, Machine.reachVia_run hs (by decide +kernel),
    by decide +kernel, by decide +kernel, by decide +kernel, by decide +kernel⟩

end PulsarRuntime.Events
