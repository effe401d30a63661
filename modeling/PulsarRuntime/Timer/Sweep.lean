import Mathlib.Data.List.Nodup
import PulsarRuntime.Timer.Storage

/-!
# The sweep of wheel 0, one timer at a time

Fix a timer `x`.  The loops of a pass leave it alone until they come to the bucket that holds it
(`Untouched`).  At its slot of wheel 0 the timer is dropped (cancelled), kept and counted (not
due), expired (one-shot) or re-armed (recurring); `sweep_dropped`, `sweep_kept`, `sweep_expired`
and `sweep_rearmed` say what the whole sweep makes of it.
-/

namespace PulsarRuntime.Timers

open TimerManager

variable {Cb : Type}

namespace Pass

/-- From `p` to `q` nothing happened to timer `x`, and the accumulators moved the way they do. -/
structure Untouched (x : ℕ) (p q : Pass Cb) : Prop where
  heap : q.tm.heap x = p.tm.heap x
  count : ∀ b, (q.tm.store b).count x = (p.tm.store b).count x
  cbs : ∀ f, (x, f) ∈ q.cbs ↔ (x, f) ∈ p.cbs
  earliest : q.nextEarliest ≤ p.nextEarliest
  reads : p.reads ≤ q.reads

theorem Untouched.refl (x : ℕ) (p : Pass Cb) : Untouched x p p :=
  ⟨rfl, fun _ => rfl, fun _ => Iff.rfl, le_rfl, le_rfl⟩

variable {x : ℕ}

theorem Untouched.trans {p q r : Pass Cb} (h₁ : Untouched x p q) (h₂ : Untouched x q r) :
    Untouched x p r where
  heap := h₂.heap.trans h₁.heap
  count b := (h₂.count b).trans (h₁.count b)
  cbs f := (h₂.cbs f).trans (h₁.cbs f)
  earliest := h₂.earliest.trans h₁.earliest
  reads := h₁.reads.trans h₂.reads

variable {loc : Option Bucket}

theorem Untouched.located {p q : Pass Cb} (h : Untouched x p q)
    (hl : Located p.tm x loc) : Located q.tm x loc :=
  hl.congr h.count

theorem Untouched.mem_iff {p q : Pass Cb} (h : Untouched x p q) (b : Bucket) :
    x ∈ q.tm.store b ↔ x ∈ p.tm.store b := by
  rw [← List.count_pos_iff, h.count b, List.count_pos_iff]

variable (clk : ℕ → ℕ) (now : ℕ)

/-! ### Single timers -/

variable (p : Pass Cb)

theorem reinsert_untouched {id x : ℕ} (hx : x ≠ id) : Untouched x p (reinsert clk p id) where
  heap := by simp [reinsert]
  count b := by simp [reinsert, insertToWheel_count, hx]
  cbs f := Iff.rfl
  earliest := le_rfl
  reads := Nat.le_succ _

theorem fire_untouched {id x : ℕ} (hx : x ≠ id) : Untouched x p (fire clk now p id) := by
  have hcbs : ∀ f, (x, f) ∈ p.cbs ++ ((p.tm.heap id).cb.map fun f => (id, f)).toList ↔
      (x, f) ∈ p.cbs := by
    intro f
    cases (p.tm.heap id).cb <;> simp [hx]
  unfold fire
  dsimp only
  split
  · refine Untouched.trans (q := ⟨_, p.reads, _, p.nextEarliest⟩) ?_ (reinsert_untouched clk _ hx)
    exact ⟨setTimer_heap_ne _ _ hx, fun _ => rfl, hcbs, le_rfl, le_rfl⟩
  · exact ⟨setTimer_heap_ne _ _ hx, fun _ => rfl, hcbs, le_rfl, le_rfl⟩

theorem visit_untouched (acc : Pass Cb × List ℕ) {id x : ℕ} (hx : x ≠ id) :
    Untouched x acc.1 (visit clk now acc id).1 ∧
      (visit clk now acc id).2.count x = acc.2.count x := by
  unfold visit
  dsimp only
  split
  · exact ⟨.refl x _, rfl⟩
  · split
    · exact ⟨fire_untouched clk now _ hx, rfl⟩
    · refine ⟨⟨rfl, fun _ => rfl, fun _ => Iff.rfl, min_le_right _ _, le_rfl⟩, ?_⟩
      rw [List.count_append, List.count_singleton]
      simp [Ne.symm hx]

theorem foldl_visit_untouched (l : List ℕ) (hx : x ∉ l) (acc : Pass Cb × List ℕ) :
    Untouched x acc.1 (l.foldl (visit clk now) acc).1 ∧
      (l.foldl (visit clk now) acc).2.count x = acc.2.count x := by
  induction l generalizing acc with
  | nil => exact ⟨.refl x _, rfl⟩
  | cons y rest ih =>
    simp only [List.mem_cons, not_or] at hx
    obtain ⟨h₁, hc₁⟩ := visit_untouched clk now acc hx.1
    obtain ⟨h₂, hc₂⟩ := ih hx.2 (visit clk now acc y)
    exact ⟨h₁.trans h₂, hc₂.trans hc₁⟩

/-- The callbacks of `x` after it has fired once more. -/
def Emitted (x : ℕ) (t : Timer Cb) (p q : Pass Cb) : Prop :=
  ∀ f, (x, f) ∈ q.cbs ↔ (x, f) ∈ p.cbs ∨ t.cb = some f

theorem emitted_append (x : ℕ) (t : Timer Cb) (cbs : List (ℕ × Cb)) (f : Cb) :
    (x, f) ∈ cbs ++ (t.cb.map fun f => (x, f)).toList ↔ (x, f) ∈ cbs ∨ t.cb = some f := by
  cases t.cb <;> simp [eq_comm]

/-- A due one-shot timer. -/
theorem fire_once (x : ℕ) (hr : (p.tm.heap x).recurring = false) :
    (fire clk now p x).tm.heap x = (p.tm.heap x).expired ∧
      (fire clk now p x).tm.store = p.tm.store ∧
      Emitted x (p.tm.heap x) p (fire clk now p x) ∧
      (fire clk now p x).nextEarliest = p.nextEarliest ∧ (fire clk now p x).reads = p.reads := by
  unfold fire
  dsimp only
  rw [if_neg (by simp [hr])]
  exact ⟨setTimer_heap_self _ _ _, rfl, emitted_append x _ _, rfl, rfl⟩

/-- A due recurring timer: it goes into the bucket of its new deadline. -/
theorem fire_again (x : ℕ) (hr : (p.tm.heap x).recurring = true) :
    (fire clk now p x).tm.heap x = (p.tm.heap x).rearmed now ∧
      (∀ b, ((fire clk now p x).tm.store b).count x = (p.tm.store b).count x +
        if b = bucketFor (clk p.reads) ((p.tm.heap x).rearmed now).next then 1 else 0) ∧
      Emitted x (p.tm.heap x) p (fire clk now p x) ∧
      (fire clk now p x).nextEarliest = p.nextEarliest ∧
      (fire clk now p x).reads = p.reads + 1 := by
  unfold fire
  dsimp only
  rw [if_pos hr]
  refine ⟨?_, ?_, emitted_append x _ _, rfl, rfl⟩
  · simp [reinsert]
  · intro b
    simp [reinsert, insertToWheel_count]

/-! ### One slot of wheel 0 -/

theorem sweepSlot_eq (i : Fin 256) :
    sweepSlot clk now p i =
      { ((p.tm.store (.wheel0 i)).foldl (visit clk now) (p, [])).1 with
        tm := ((p.tm.store (.wheel0 i)).foldl (visit clk now) (p, [])).1.tm.setBucket (.wheel0 i)
          ((p.tm.store (.wheel0 i)).foldl (visit clk now) (p, [])).2 } := by
  unfold sweepSlot
  split
  · rename_i h
    have hs : p.tm.setBucket (.wheel0 i) [] = p.tm := by
      unfold setBucket
      rw [← h, Function.update_eq_self]
    rw [h, List.foldl_nil, hs]
  · rfl

theorem sweepSlot_untouched (i : Fin 256)
    (hx : x ∉ p.tm.store (.wheel0 i)) : Untouched x p (sweepSlot clk now p i) := by
  rw [sweepSlot_eq]
  obtain ⟨h, hc⟩ := foldl_visit_untouched clk now (p.tm.store (.wheel0 i)) hx (p, [])
  refine h.trans ⟨rfl, ?_, fun _ => Iff.rfl, le_rfl, le_rfl⟩
  intro b
  by_cases hb : b = .wheel0 i
  · subst hb
    rw [setBucket_store_self, hc, h.count, List.count_eq_zero_of_not_mem hx]
    rfl
  · rw [setBucket_store_ne _ _ hb]

variable {acc : Pass Cb × List ℕ}

theorem visit_cancelled
    (hc : (acc.1.tm.heap x).cancelled = true) : visit clk now acc x = acc := if_pos hc

theorem visit_due (hc : (acc.1.tm.heap x).cancelled = false) (hdue : (acc.1.tm.heap x).next ≤ now) :
    visit clk now acc x = (fire clk now acc.1 x, acc.2) := by
  unfold visit
  rw [if_neg (Bool.eq_false_iff.mp hc), if_pos hdue]

theorem visit_later (hc : (acc.1.tm.heap x).cancelled = false)
    (hlater : now < (acc.1.tm.heap x).next) :
    visit clk now acc x =
      ({ acc.1 with nextEarliest := min (acc.1.tm.heap x).next acc.1.nextEarliest },
        acc.2 ++ [x]) := by
  unfold visit
  rw [if_neg (Bool.eq_false_iff.mp hc), if_neg (Nat.not_le.mpr hlater)]

section

variable (i : Fin 256) (hx : Located p.tm x (some (.wheel0 i)))
include hx

/-- At the slot that holds `x`, only the visit of `x` itself matters: `acc` is the state of the
loop when it comes to `x`. -/
theorem sweepSlot_at :
    ∃ acc : Pass Cb × List ℕ, Untouched x p acc.1 ∧ acc.2.count x = 0 ∧
      (sweepSlot clk now p i).tm.heap x = (visit clk now acc x).1.tm.heap x ∧
      (∀ b, ((sweepSlot clk now p i).tm.store b).count x =
        if b = .wheel0 i then (visit clk now acc x).2.count x
        else ((visit clk now acc x).1.tm.store b).count x) ∧
      (∀ f, (x, f) ∈ (sweepSlot clk now p i).cbs ↔ (x, f) ∈ (visit clk now acc x).1.cbs) ∧
      (sweepSlot clk now p i).nextEarliest ≤ (visit clk now acc x).1.nextEarliest ∧
      (visit clk now acc x).1.reads ≤ (sweepSlot clk now p i).reads := by
  obtain ⟨l₁, l₂, hl⟩ := List.append_of_mem ((hx.mem_iff (.wheel0 i)).mpr rfl)
  have hcount := hx (.wheel0 i)
  rw [hl, List.count_append, List.count_cons_self, if_pos rfl] at hcount
  have h₁ : x ∉ l₁ := List.count_eq_zero.mp (by omega)
  have h₂ : x ∉ l₂ := List.count_eq_zero.mp (by omega)
  obtain ⟨u₁, c₁⟩ := foldl_visit_untouched clk now l₁ h₁ (p, [])
  obtain ⟨u₂, c₂⟩ := foldl_visit_untouched clk now l₂ h₂
    (visit clk now (l₁.foldl (visit clk now) (p, [])) x)
  refine ⟨l₁.foldl (visit clk now) (p, []), u₁, c₁, ?_⟩
  rw [sweepSlot_eq, hl, List.foldl_append, List.foldl_cons]
  refine ⟨u₂.heap, ?_, u₂.cbs, u₂.earliest, u₂.reads⟩
  intro b
  by_cases hb : b = .wheel0 i
  · subst hb
    rw [if_pos rfl, setBucket_store_self, c₂]
  · rw [if_neg hb, setBucket_store_ne _ _ hb, u₂.count]

/-- The slot's timer is cancelled: it is dropped. -/
theorem sweepSlot_dropped (hc : (p.tm.heap x).cancelled = true) :
    Located (sweepSlot clk now p i).tm x none ∧
      (sweepSlot clk now p i).tm.heap x = p.tm.heap x ∧
      ∀ f, (x, f) ∈ (sweepSlot clk now p i).cbs ↔ (x, f) ∈ p.cbs := by
  obtain ⟨acc, u, hrem, hheap, hcount, hcbs, -, -⟩ := sweepSlot_at clk now p i hx
  rw [visit_cancelled clk now (by rw [u.heap]; exact hc)] at hheap hcount hcbs
  refine ⟨?_, hheap.trans u.heap, fun f => (hcbs f).trans (u.cbs f)⟩
  intro b
  rw [hcount b, u.count b, hx b]
  by_cases hb : b = .wheel0 i
  · simp [hb, hrem]
  · simp [hb, Ne.symm hb]

/-- The slot's timer is not due: it stays, and `nextEarliest` counts it. -/
theorem sweepSlot_kept (hc : (p.tm.heap x).cancelled = false)
    (hdue : now < (p.tm.heap x).next) :
    Located (sweepSlot clk now p i).tm x (some (.wheel0 i)) ∧
      (sweepSlot clk now p i).tm.heap x = p.tm.heap x ∧
      (∀ f, (x, f) ∈ (sweepSlot clk now p i).cbs ↔ (x, f) ∈ p.cbs) ∧
      (sweepSlot clk now p i).nextEarliest ≤ (p.tm.heap x).next := by
  obtain ⟨acc, u, hrem, hheap, hcount, hcbs, hearly, -⟩ := sweepSlot_at clk now p i hx
  rw [← u.heap] at hc hdue
  rw [visit_later clk now hc hdue] at hheap hcount hcbs hearly
  rw [u.heap] at hearly
  refine ⟨?_, hheap.trans u.heap, fun f => (hcbs f).trans (u.cbs f),
    hearly.trans (min_le_left _ _)⟩
  intro b
  rw [hcount b]
  by_cases hb : b = .wheel0 i
  · simp [hb, hrem, List.count_append]
  · have := hx b
    simp only [hb, Ne.symm hb, if_false, Option.some.injEq] at this ⊢
    rw [u.count b, this]

/-- The slot's timer is a due one-shot. -/
theorem sweepSlot_expired (hc : (p.tm.heap x).cancelled = false)
    (hdue : (p.tm.heap x).next ≤ now) (hr : (p.tm.heap x).recurring = false) :
    Located (sweepSlot clk now p i).tm x none ∧
      (sweepSlot clk now p i).tm.heap x = (p.tm.heap x).expired ∧
      Emitted x (p.tm.heap x) p (sweepSlot clk now p i) := by
  obtain ⟨acc, u, hrem, hheap, hcount, hcbs, -, -⟩ := sweepSlot_at clk now p i hx
  rw [← u.heap] at hc hdue
  obtain ⟨fheap, fstore, femit, -, -⟩ := fire_once clk now acc.1 x (by rw [u.heap]; exact hr)
  rw [visit_due clk now hc hdue] at hheap hcount hcbs
  rw [u.heap] at fheap femit
  refine ⟨?_, hheap.trans fheap, fun f => by rw [hcbs f, femit f, u.cbs f]⟩
  intro b
  rw [hcount b]
  by_cases hb : b = .wheel0 i
  · simp [hb, hrem]
  · have := hx b
    simp only [hb, Ne.symm hb, if_false, Option.some.injEq] at this ⊢
    rw [fstore, u.count b, this]
    simp

/-- The slot's timer is due and recurring: it goes into the bucket of its new deadline, unless
that is the slot being swept, which `remaining` then replaces. -/
theorem sweepSlot_rearmed (hc : (p.tm.heap x).cancelled = false)
    (hdue : (p.tm.heap x).next ≤ now) (hr : (p.tm.heap x).recurring = true) :
    ∃ k, p.reads ≤ k ∧
      Located (sweepSlot clk now p i).tm x
        (if bucketFor (clk k) ((p.tm.heap x).rearmed now).next = .wheel0 i then none
          else some (bucketFor (clk k) ((p.tm.heap x).rearmed now).next)) ∧
      (sweepSlot clk now p i).tm.heap x = (p.tm.heap x).rearmed now ∧
      Emitted x (p.tm.heap x) p (sweepSlot clk now p i) := by
  obtain ⟨acc, u, hrem, hheap, hcount, hcbs, -, -⟩ := sweepSlot_at clk now p i hx
  rw [← u.heap] at hc hdue
  obtain ⟨fheap, fcount, femit, -, -⟩ := fire_again clk now acc.1 x (by rw [u.heap]; exact hr)
  rw [visit_due clk now hc hdue] at hheap hcount hcbs
  rw [u.heap] at fheap fcount femit
  refine ⟨acc.1.reads, u.reads, ?_, hheap.trans fheap, fun f => by rw [hcbs f, femit f, u.cbs f]⟩
  intro b
  rw [hcount b]
  by_cases hb : b = .wheel0 i
  · subst hb
    rw [if_pos rfl, hrem]
    split <;> simp_all
  · have := hx b
    simp only [hb, Ne.symm hb, if_false, Option.some.injEq] at this ⊢
    rw [fcount b, u.count b, this]
    by_cases hself : bucketFor (clk acc.1.reads) ((p.tm.heap x).rearmed now).next = .wheel0 i
    · simp [hself, hb]
    · simp [hself, eq_comm]

end

/-! ### The whole of wheel 0 -/

theorem foldl_sweepSlot_untouched (slots : List (Fin 256)) (p : Pass Cb)
    (hx : ∀ i ∈ slots, x ∉ p.tm.store (.wheel0 i)) :
    Untouched x p (slots.foldl (sweepSlot clk now) p) := by
  induction slots generalizing p with
  | nil => exact .refl x p
  | cons i rest ih =>
    have hu := sweepSlot_untouched clk now p i (hx i (by simp))
    refine hu.trans (ih _ ?_)
    intro j hj hmem
    exact hx j (by simp [hj]) ((hu.mem_iff _).mp hmem)

/-- The sweep comes to slot `i` after the slots below it and before those above it. -/
theorem finRange_split (i : Fin 256) :
    ∃ low high : List (Fin 256), List.finRange 256 = low ++ i :: high ∧
      (∀ j ∈ low, j < i) ∧ (∀ j ∈ high, i < j) ∧ high.Pairwise (· < ·) ∧ ∀ j, i < j → j ∈ high := by
  obtain ⟨low, high, h⟩ := List.append_of_mem (List.mem_finRange i)
  have hp := List.pairwise_lt_finRange 256
  rw [h] at hp
  obtain ⟨-, hcons, hcross⟩ := List.pairwise_append.mp hp
  obtain ⟨hhigh, hpair⟩ := List.pairwise_cons.mp hcons
  refine ⟨low, high, h, fun j hj => hcross j hj i (by simp), hhigh, hpair, ?_⟩
  intro j hj
  have hmem := List.mem_finRange j
  rw [h, List.mem_append, List.mem_cons] at hmem
  rcases hmem with hlow | rfl | hmem
  · exact absurd (hcross j hlow i (by simp)) (by omega)
  · omega
  · exact hmem

theorem sweep_untouched (hx : Located p.tm x loc)
    (hloc : ∀ i, loc ≠ some (.wheel0 i)) : Untouched x p (sweep clk now p) := by
  refine foldl_sweepSlot_untouched clk now _ p fun i _ hmem => ?_
  exact hloc i ((hx.mem_iff _).mp hmem)

/-- Slots above `i` do not touch a timer that is held nowhere, by slot `i` or below it, or by
another container. -/
theorem high_untouched (i : Fin 256)
    (hx : Located p.tm x loc) (high : List (Fin 256)) (hhigh : ∀ j ∈ high, i < j)
    (hloc : ∀ j, loc = some (.wheel0 j) → j ≤ i) :
    Untouched x p (high.foldl (sweepSlot clk now) p) := by
  refine foldl_sweepSlot_untouched clk now high p fun j hj hmem => ?_
  have := hloc j ((hx.mem_iff _).mp hmem)
  exact absurd (hhigh j hj) (by omega)

section

variable (i : Fin 256) (hx : Located p.tm x (some (.wheel0 i)))
include hx

/-- The sweep of a timer that wheel 0 holds is the sweep of its slot, then of the slots above. -/
theorem sweep_at :
    ∃ q : Pass Cb, ∃ high : List (Fin 256), Untouched x p q ∧
      sweep clk now p = high.foldl (sweepSlot clk now) (sweepSlot clk now q i) ∧
      (∀ j ∈ high, i < j) ∧ high.Pairwise (· < ·) ∧ ∀ j, i < j → j ∈ high := by
  obtain ⟨low, high, hsplit, hlow, hhigh, hpair, hall⟩ := finRange_split i
  refine ⟨low.foldl (sweepSlot clk now) p, high, ?_, ?_, hhigh, hpair, hall⟩
  · refine foldl_sweepSlot_untouched clk now low p fun j hj hmem => ?_
    have hji := (hx.mem_iff _).mp hmem
    simp only [Option.some.injEq, Bucket.wheel0.injEq] at hji
    exact absurd (hlow j hj) (by omega)
  · unfold sweep
    rw [hsplit, List.foldl_append, List.foldl_cons]

theorem sweep_dropped (hc : (p.tm.heap x).cancelled = true) :
    Located (sweep clk now p).tm x none ∧ (sweep clk now p).tm.heap x = p.tm.heap x ∧
      ∀ f, (x, f) ∈ (sweep clk now p).cbs ↔ (x, f) ∈ p.cbs := by
  obtain ⟨q, high, u, heq, hhigh, -, -⟩ := sweep_at clk now p i hx
  rw [heq]
  obtain ⟨hl, hh, hcb⟩ := sweepSlot_dropped clk now q i (u.located hx) (by rw [u.heap]; exact hc)
  have u' := high_untouched clk now _ i hl high hhigh (by simp)
  exact ⟨u'.located hl, by rw [u'.heap, hh, u.heap], fun f => by rw [u'.cbs, hcb, u.cbs]⟩

theorem sweep_kept (hc : (p.tm.heap x).cancelled = false)
    (hdue : now < (p.tm.heap x).next) :
    Located (sweep clk now p).tm x (some (.wheel0 i)) ∧
      (sweep clk now p).tm.heap x = p.tm.heap x ∧
      (∀ f, (x, f) ∈ (sweep clk now p).cbs ↔ (x, f) ∈ p.cbs) ∧
      (sweep clk now p).nextEarliest ≤ (p.tm.heap x).next := by
  obtain ⟨q, high, u, heq, hhigh, -, -⟩ := sweep_at clk now p i hx
  rw [heq]
  obtain ⟨hl, hh, hcb, he⟩ := sweepSlot_kept clk now q i (u.located hx) (by rw [u.heap]; exact hc)
    (by rw [u.heap]; exact hdue)
  have u' := high_untouched clk now _ i hl high hhigh (fun j hj => by cases hj; exact le_rfl)
  refine ⟨u'.located hl, by rw [u'.heap, hh, u.heap], fun f => by rw [u'.cbs, hcb, u.cbs], ?_⟩
  rw [u.heap] at he
  exact u'.earliest.trans he

theorem sweep_expired (hc : (p.tm.heap x).cancelled = false)
    (hdue : (p.tm.heap x).next ≤ now) (hr : (p.tm.heap x).recurring = false) :
    Located (sweep clk now p).tm x none ∧
      (sweep clk now p).tm.heap x = (p.tm.heap x).expired ∧
      Emitted x (p.tm.heap x) p (sweep clk now p) := by
  obtain ⟨q, high, u, heq, hhigh, -, -⟩ := sweep_at clk now p i hx
  rw [heq]
  obtain ⟨hl, hh, hcb⟩ := sweepSlot_expired clk now q i (u.located hx)
    (by rw [u.heap]; exact hc) (by rw [u.heap]; exact hdue) (by rw [u.heap]; exact hr)
  have u' := high_untouched clk now _ i hl high hhigh (by simp)
  refine ⟨u'.located hl, by rw [u'.heap, hh, u.heap], fun f => ?_⟩
  rw [u'.cbs, hcb f, u.cbs, u.heap]

end

theorem rearmed_rearmed (t : Timer Cb) : (t.rearmed now).rearmed now = t.rearmed now := rfl

/-- At the reading `r` the deadline `next` belongs to slot `i` itself, or to a later slot while it
is due again: that slot fires the timer once more, into itself. -/
def Clash (now r next : ℕ) (i : Fin 256) : Prop :=
  ∃ j, bucketFor r next = .wheel0 j ∧ (j = i ∨ (i < j ∧ next ≤ now))

/-- A due recurring timer of slot `i` is lost if its new deadline clashes with the sweep.  Otherwise
it ends in the bucket of its new deadline, and a later slot of the sweep counts it. -/
theorem sweep_rearmed (i : Fin 256) (hclk : ∀ k, now ≤ clk k)
    (hx : Located p.tm x (some (.wheel0 i))) (hc : (p.tm.heap x).cancelled = false)
    (hdue : (p.tm.heap x).next ≤ now) (hr : (p.tm.heap x).recurring = true) :
    (sweep clk now p).tm.heap x = (p.tm.heap x).rearmed now ∧
      Emitted x (p.tm.heap x) p (sweep clk now p) ∧
      ∃ k loc, Located (sweep clk now p).tm x loc ∧
        ((loc = none ∧ Clash now (clk k) ((p.tm.heap x).rearmed now).next i) ∨
          (loc = some (bucketFor (clk k) ((p.tm.heap x).rearmed now).next) ∧
            ¬Clash now (clk k) ((p.tm.heap x).rearmed now).next i ∧
            ∀ j, i < j → bucketFor (clk k) ((p.tm.heap x).rearmed now).next = .wheel0 j →
              (sweep clk now p).nextEarliest ≤ ((p.tm.heap x).rearmed now).next)) := by
  obtain ⟨q, high, u, heq, hhigh, hpair, hall⟩ := sweep_at clk now p i hx
  rw [heq]
  obtain ⟨k, -, hl, hh, hemit⟩ := sweepSlot_rearmed clk now q i (u.located hx)
    (by rw [u.heap]; exact hc) (by rw [u.heap]; exact hdue) (by rw [u.heap]; exact hr)
  rw [u.heap] at hl hh hemit
  set t := p.tm.heap x with ht
  have hemit' : Emitted x t p (sweepSlot clk now q i) := fun f => by rw [hemit f, u.cbs f]
  by_cases hself : bucketFor (clk k) (t.rearmed now).next = .wheel0 i
  · rw [if_pos hself] at hl
    have u' := high_untouched clk now _ i hl high hhigh (by simp)
    exact ⟨by rw [u'.heap, hh], fun f => by rw [u'.cbs, hemit' f],
      k, none, u'.located hl, .inl ⟨rfl, i, hself, .inl rfl⟩⟩
  rw [if_neg hself] at hl
  by_cases hup : ∃ j, i < j ∧ bucketFor (clk k) (t.rearmed now).next = .wheel0 j
  · -- a later slot of this sweep: the timer is visited once more
    obtain ⟨j, hij, hj⟩ := hup
    rw [hj] at hl
    obtain ⟨mid, top, hmt⟩ := List.append_of_mem (hall j hij)
    rw [hmt] at hpair
    obtain ⟨-, hcons, hcross⟩ := List.pairwise_append.mp hpair
    have htop := (List.pairwise_cons.mp hcons).1
    have um : Untouched x (sweepSlot clk now q i)
        (mid.foldl (sweepSlot clk now) (sweepSlot clk now q i)) := by
      refine foldl_sweepSlot_untouched clk now mid _ fun l hlm hmem => ?_
      have hlj := (hl.mem_iff _).mp hmem
      simp only [Option.some.injEq, Bucket.wheel0.injEq] at hlj
      exact absurd (hcross l hlm j (by simp)) (by omega)
    rw [hmt, List.foldl_append, List.foldl_cons]
    set r := mid.foldl (sweepSlot clk now) (sweepSlot clk now q i) with hrdef
    have hlr := um.located hl
    have hhr : r.tm.heap x = t.rearmed now := um.heap.trans hh
    rcases Nat.lt_or_ge now (t.rearmed now).next with hlate | hagain
    · obtain ⟨hl₂, hh₂, hcb₂, he₂⟩ := sweepSlot_kept clk now r j hlr (by rw [hhr]; rfl)
        (by rw [hhr]; exact hlate)
      have u' := high_untouched clk now _ j hl₂ top htop (fun l h => by cases h; exact le_rfl)
      refine ⟨by rw [u'.heap, hh₂, hhr], fun f => ?_, k, _, u'.located hl₂,
        .inr ⟨by rw [hj], ?_, ?_⟩⟩
      · rw [u'.cbs, hcb₂, um.cbs, hemit' f]
      · rintro ⟨j', hj', rfl | ⟨-, hpast⟩⟩
        · exact hself hj'
        · omega
      · intro _ _ _
        rw [hhr] at he₂
        exact u'.earliest.trans he₂
    · obtain ⟨k', -, hl₂, hh₂, hemit₂⟩ := sweepSlot_rearmed clk now r j hlr (by rw [hhr]; rfl)
        (by rw [hhr]; exact hagain) (by rw [hhr]; exact hr)
      rw [hhr, rearmed_rearmed] at hl₂ hh₂
      have hjk : bucketFor (clk k') (t.rearmed now).next = .wheel0 j := by
        rw [bucketFor_near (by have := hclk k'; omega)]
        rw [(bucketFor_eq_wheel0 hj).2]
      rw [if_pos hjk] at hl₂
      have u' := high_untouched clk now _ j hl₂ top htop (by simp)
      refine ⟨by rw [u'.heap, hh₂], fun f => ?_, k, none, u'.located hl₂,
        .inl ⟨rfl, j, hj, .inr ⟨hij, hagain⟩⟩⟩
      rw [u'.cbs, hemit₂ f, um.cbs, hemit' f, hhr]
      exact ⟨fun h => h.elim id .inr, .inl⟩
  · have u' := high_untouched clk now _ i hl high hhigh (fun j hj => by
      by_contra hlt
      exact hup ⟨j, by omega, Option.some.inj hj⟩)
    refine ⟨by rw [u'.heap, hh], fun f => by rw [u'.cbs, hemit' f], k, _, u'.located hl,
      .inr ⟨rfl, ?_, fun j hij hj => absurd ⟨j, hij, hj⟩ hup⟩⟩
    rintro ⟨j, hj, rfl | ⟨hij, -⟩⟩
    · exact hself hj
    · exact hup ⟨j, hij, hj⟩

end Pass

end PulsarRuntime.Timers
