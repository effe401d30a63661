import PulsarRuntime.Timer.Sweep

/-!
# Cascading the upper wheels

Every slot of wheels 1 to 3 is emptied and its live timers are inserted anew, at a later clock
reading.  A live timer is never lost this way (`Cascaded`), and no timer is fired.  The second
half keeps the buckets `Tidy` through the sweep and the cascades: no timer is held twice, and the
fallback set stays in deadline order.
-/

namespace PulsarRuntime.Timers

open TimerManager

variable {Cb : Type}

namespace Pass

variable (clk : ℕ → ℕ) (now : ℕ)

/-! ### Cascading the upper wheels -/

variable (p : Pass Cb)

theorem cascadeOne_untouched {id x : ℕ} (hx : x ≠ id) : Untouched x p (cascadeOne clk p id) := by
  unfold cascadeOne
  split
  · exact .refl x p
  · exact reinsert_untouched clk p hx

variable {x : ℕ}

theorem foldl_cascadeOne_untouched (l : List ℕ) (hx : x ∉ l) (p : Pass Cb) :
    Untouched x p (l.foldl (cascadeOne clk) p) := by
  induction l generalizing p with
  | nil => exact .refl x p
  | cons y rest ih =>
    simp only [List.mem_cons, not_or] at hx
    exact (cascadeOne_untouched clk p hx.1).trans (ih hx.2 _)

theorem cascadeSlot_eq (b : Bucket) :
    cascadeSlot clk p b =
      (p.tm.store b).foldl (cascadeOne clk) { p with tm := p.tm.setBucket b [] } := by
  unfold cascadeSlot
  split
  · rename_i h
    have hs : p.tm.setBucket b [] = p.tm := by
      unfold setBucket
      rw [← h, Function.update_eq_self]
    rw [h, List.foldl_nil, hs]
  · rfl

theorem cascadeSlot_untouched (b : Bucket) (hx : x ∉ p.tm.store b) :
    Untouched x p (cascadeSlot clk p b) := by
  have hclear : Untouched x p { p with tm := p.tm.setBucket b [] } := by
    refine ⟨rfl, ?_, fun _ => Iff.rfl, le_rfl, le_rfl⟩
    intro b'
    by_cases hb : b' = b
    · subst hb
      rw [setBucket_store_self, List.count_eq_zero_of_not_mem hx]
      rfl
    · rw [setBucket_store_ne _ _ hb]
  rw [cascadeSlot_eq]
  exact hclear.trans (foldl_cascadeOne_untouched clk _ hx _)

/-- A slot that holds `x`: a cancelled timer is dropped, a live one is inserted anew. -/
theorem cascadeSlot_at (b : Bucket) (hx : Located p.tm x (some b)) :
    (cascadeSlot clk p b).tm.heap x = p.tm.heap x ∧
      (∀ f, (x, f) ∈ (cascadeSlot clk p b).cbs ↔ (x, f) ∈ p.cbs) ∧
      ∃ k, Located (cascadeSlot clk p b).tm x
        (if (p.tm.heap x).cancelled = true then none
          else some (bucketFor (clk k) (p.tm.heap x).next)) := by
  obtain ⟨l₁, l₂, hl⟩ := List.append_of_mem ((hx.mem_iff b).mpr rfl)
  have hcount := hx b
  rw [hl, List.count_append, List.count_cons_self, if_pos rfl] at hcount
  have h₁ : x ∉ l₁ := List.count_eq_zero.mp (by omega)
  have h₂ : x ∉ l₂ := List.count_eq_zero.mp (by omega)
  rw [cascadeSlot_eq, hl, List.foldl_append, List.foldl_cons]
  have u₁ := foldl_cascadeOne_untouched clk l₁ h₁ { p with tm := p.tm.setBucket b [] }
  set q := l₁.foldl (cascadeOne clk) { p with tm := p.tm.setBucket b [] } with hq
  have u₂ := foldl_cascadeOne_untouched clk l₂ h₂ (cascadeOne clk q x)
  have hout : Located q.tm x none := by
    intro b'
    rw [u₁.count b']
    by_cases hb : b' = b
    · simp [hb]
    · have := hx b'
      simpa [setBucket_store_ne _ _ hb, Ne.symm hb] using this
  have hheap : q.tm.heap x = p.tm.heap x := u₁.heap
  by_cases hc : (p.tm.heap x).cancelled = true
  · have hone : cascadeOne clk q x = q := by
      unfold cascadeOne
      rw [hheap, if_pos hc]
    rw [hone] at u₂ ⊢
    refine ⟨u₂.heap.trans hheap, fun f => (u₂.cbs f).trans (u₁.cbs f), 0, ?_⟩
    rw [if_pos hc]
    exact u₂.located hout
  · have hone : cascadeOne clk q x = reinsert clk q x := by
      unfold cascadeOne
      rw [hheap, if_neg hc]
    rw [hone] at u₂ ⊢
    refine ⟨?_, fun f => (u₂.cbs f).trans (u₁.cbs f), q.reads, ?_⟩
    · rw [u₂.heap, ← hheap]
      simp [reinsert]
    · rw [if_neg hc, ← hheap]
      exact u₂.located (insertToWheel_located q.tm (clk q.reads) x hout)

/-- What cascading leaves of a timer: a live one stays in a bucket, its own or the one its
deadline belongs to at some clock reading of the pass; a cancelled one is dropped or not met. -/
structure Cascaded (x : ℕ) (p q : Pass Cb) (loc loc' : Option Bucket) : Prop where
  located : Located q.tm x loc'
  heap : q.tm.heap x = p.tm.heap x
  cbs : ∀ f, (x, f) ∈ q.cbs ↔ (x, f) ∈ p.cbs
  live : (p.tm.heap x).cancelled = false →
    loc' = loc ∨ loc ≠ none ∧ ∃ k, loc' = some (bucketFor (clk k) (p.tm.heap x).next)
  dead : (p.tm.heap x).cancelled = true → loc' = loc ∨ loc' = none

theorem Cascaded.of_untouched {p q : Pass Cb} {loc : Option Bucket}
    (hx : Located p.tm x loc) (u : Untouched x p q) : Cascaded clk x p q loc loc :=
  ⟨u.located hx, u.heap, u.cbs, fun _ => .inl rfl, fun _ => .inl rfl⟩

theorem Cascaded.trans {p q r : Pass Cb} {a b c : Option Bucket}
    (h₁ : Cascaded clk x p q a b) (h₂ : Cascaded clk x q r b c) : Cascaded clk x p r a c where
  located := h₂.located
  heap := h₂.heap.trans h₁.heap
  cbs f := (h₂.cbs f).trans (h₁.cbs f)
  live hc := by
    have hm := h₁.live hc
    have hm' := h₂.live (by rw [h₁.heap]; exact hc)
    rw [h₁.heap] at hm'
    rcases hm' with rfl | ⟨hb, k, hk⟩
    · exact hm
    · rcases hm with rfl | ⟨ha, -⟩
      · exact .inr ⟨hb, k, hk⟩
      · exact .inr ⟨ha, k, hk⟩
  dead hc := by
    rcases h₂.dead (by rw [h₁.heap]; exact hc) with rfl | rfl
    · exact h₁.dead hc
    · exact .inr rfl

variable (buckets : List Bucket)

theorem foldl_cascadeSlot (p : Pass Cb) {loc : Option Bucket} (hx : Located p.tm x loc) :
    ∃ loc', Cascaded clk x p (buckets.foldl (cascadeSlot clk) p) loc loc' := by
  induction buckets generalizing p loc with
  | nil => exact ⟨loc, .of_untouched clk hx (.refl x p)⟩
  | cons b rest ih =>
    have hone : ∃ loc', Cascaded clk x p (cascadeSlot clk p b) loc loc' := by
      by_cases hb : loc = some b
      · subst hb
        obtain ⟨hh, hcb, k, hl⟩ := cascadeSlot_at clk p b hx
        refine ⟨_, hl, hh, hcb, fun hc => .inr ⟨by simp, k, ?_⟩, fun hc => .inr ?_⟩
        · rw [if_neg (by simp [hc])]
        · rw [if_pos hc]
      · exact ⟨loc, .of_untouched clk hx
          (cascadeSlot_untouched clk p b fun hmem => hb ((hx.mem_iff b).mp hmem))⟩
    obtain ⟨loc₁, h₁⟩ := hone
    obtain ⟨loc₂, h₂⟩ := ih (cascadeSlot clk p b) h₁.located
    exact ⟨loc₂, h₁.trans clk h₂⟩

theorem foldl_cascadeSlot_untouched (p : Pass Cb) (hx : ∀ b ∈ buckets, x ∉ p.tm.store b) :
    Untouched x p (buckets.foldl (cascadeSlot clk) p) := by
  induction buckets generalizing p with
  | nil => exact .refl x p
  | cons b rest ih =>
    have hu := cascadeSlot_untouched clk p b (hx b (by simp))
    refine hu.trans (ih _ ?_)
    intro b' hb' hmem
    exact hx b' (by simp [hb']) ((hu.mem_iff b').mp hmem)

/-- The slots of the upper wheels, in the order the pass cascades them. -/
def upper : List Bucket :=
  (List.finRange 64).map .wheel1 ++
    ((List.finRange 64).map .wheel2 ++ (List.finRange 64).map .wheel3)

theorem cascades_eq :
    cascade clk .wheel3 (cascade clk .wheel2 (cascade clk .wheel1 p)) =
      upper.foldl (cascadeSlot clk) p := by
  unfold upper cascade
  rw [List.foldl_append, List.foldl_append]

theorem not_mem_upper {b : Bucket} (h : b = .tree ∨ ∃ i, b = .wheel0 i) : b ∉ upper := by
  rcases h with rfl | ⟨i, rfl⟩ <;> simp [upper]

theorem mem_upper {b : Bucket} (ht : b ≠ .tree) (h0 : ∀ i, b ≠ .wheel0 i) : b ∈ upper := by
  cases b with
  | wheel0 i => exact absurd rfl (h0 i)
  | tree => exact absurd rfl ht
  | wheel1 i => simp [upper]
  | wheel2 i => simp [upper]
  | wheel3 i => simp [upper]

/-! ### Order of the fallback set -/

/-- What the buckets satisfy between calls: no timer is held twice, and `timers_` is sorted. -/
structure Tidy (tm : TimerManager Cb) : Prop where
  located : ∀ x, ∃ loc, Located tm x loc
  sorted : SortedTree tm

/-- Changing the deadline of a timer outside the set keeps the set sorted. -/
theorem setTimer_sorted {tm : TimerManager Cb} (h : SortedTree tm) {id : ℕ}
    (hid : id ∉ tm.store .tree) (t : Timer Cb) : SortedTree (tm.setTimer id t) := by
  unfold SortedTree at *
  rw [setTimer_store]
  refine h.imp_of_mem fun {x y} hx hy hxy => ?_
  rw [setTimer_heap_ne _ _ (by rintro rfl; exact hid hx),
    setTimer_heap_ne _ _ (by rintro rfl; exact hid hy)]
  exact hxy

theorem fire_sorted {id : ℕ} (h : SortedTree p.tm) (hid : id ∉ p.tm.store .tree) :
    SortedTree (fire clk now p id).tm := by
  unfold fire
  dsimp only
  split
  · exact insertToWheel_sorted _ _ _ (setTimer_sorted h hid _)
  · exact setTimer_sorted h hid _

theorem visit_sorted (acc : Pass Cb × List ℕ) {id : ℕ} (h : SortedTree acc.1.tm)
    (hid : id ∉ acc.1.tm.store .tree) : SortedTree (visit clk now acc id).1.tm := by
  unfold visit
  dsimp only
  split
  · exact h
  · split
    · exact fire_sorted clk now acc.1 h hid
    · exact h

theorem foldl_visit_sorted (l : List ℕ) (hl : l.Nodup) (acc : Pass Cb × List ℕ)
    (h : SortedTree acc.1.tm) (hout : ∀ y ∈ l, y ∉ acc.1.tm.store .tree) :
    SortedTree (l.foldl (visit clk now) acc).1.tm := by
  induction l generalizing acc with
  | nil => exact h
  | cons y rest ih =>
    obtain ⟨hy, hrest⟩ := List.nodup_cons.mp hl
    refine ih hrest _ (visit_sorted clk now acc h (hout y (by simp))) fun z hz hmem => ?_
    have hzy : z ≠ y := by rintro rfl; exact hy hz
    exact hout z (by simp [hz]) (((visit_untouched clk now acc hzy).1.mem_iff _).mp hmem)

theorem setBucket_sorted {tm : TimerManager Cb} (h : SortedTree tm) {b : Bucket} (ids : List ℕ)
    (hb : b ≠ .tree) : SortedTree (tm.setBucket b ids) := by
  unfold SortedTree
  rw [setBucket_store_ne _ _ hb.symm]
  exact h

theorem sweepSlot_tidy (i : Fin 256) (h : Tidy p.tm) : Tidy (sweepSlot clk now p i).tm where
  located x := by
    obtain ⟨loc, hx⟩ := h.located x
    by_cases hloc : loc = some (.wheel0 i)
    · subst hloc
      cases hc : (p.tm.heap x).cancelled with
      | true => exact ⟨_, (sweepSlot_dropped clk now p i hx hc).1⟩
      | false =>
        rcases Nat.lt_or_ge now (p.tm.heap x).next with hdue | hdue
        · exact ⟨_, (sweepSlot_kept clk now p i hx hc hdue).1⟩
        · cases hr : (p.tm.heap x).recurring with
          | false => exact ⟨_, (sweepSlot_expired clk now p i hx hc hdue hr).1⟩
          | true =>
            obtain ⟨k, -, hl, -⟩ := sweepSlot_rearmed clk now p i hx hc hdue hr
            exact ⟨_, hl⟩
    · have u := sweepSlot_untouched clk now p i fun hmem => hloc ((hx.mem_iff _).mp hmem)
      exact ⟨loc, u.located hx⟩
  sorted := by
    rw [sweepSlot_eq]
    refine setBucket_sorted (foldl_visit_sorted clk now _ ?_ _ h.sorted ?_) _ (by simp)
    · refine List.nodup_iff_count_le_one.mpr fun y => ?_
      obtain ⟨loc, hy⟩ := h.located y
      rw [hy]
      split <;> omega
    · intro y hy hmem
      obtain ⟨loc, hl⟩ := h.located y
      have h₁ := (hl.mem_iff _).mp hy
      have h₂ := (hl.mem_iff _).mp hmem
      rw [h₁] at h₂
      cases h₂

theorem sweep_tidy (h : Tidy p.tm) : Tidy (sweep clk now p).tm := by
  unfold sweep
  induction List.finRange 256 generalizing p with
  | nil => exact h
  | cons i rest ih => exact ih _ (sweepSlot_tidy clk now p i h)

theorem foldl_cascadeOne_sorted (l : List ℕ) (p : Pass Cb) (h : SortedTree p.tm) :
    SortedTree (l.foldl (cascadeOne clk) p).tm := by
  induction l generalizing p with
  | nil => exact h
  | cons y rest ih =>
    refine ih _ ?_
    unfold cascadeOne
    split
    · exact h
    · exact insertToWheel_sorted _ _ _ h

theorem foldl_cascadeSlot_tidy (hb : .tree ∉ buckets) (p : Pass Cb)
    (h : Tidy p.tm) : Tidy (buckets.foldl (cascadeSlot clk) p).tm where
  located x := by
    obtain ⟨loc, hx⟩ := h.located x
    obtain ⟨loc', hc⟩ := foldl_cascadeSlot clk buckets p hx
    exact ⟨loc', hc.located⟩
  sorted := by
    induction buckets generalizing p with
    | nil => exact h.sorted
    | cons b rest ih =>
      simp only [List.mem_cons, not_or] at hb
      have hone : Tidy (cascadeSlot clk p b).tm := by
        constructor
        · intro x
          obtain ⟨loc, hx⟩ := h.located x
          obtain ⟨loc', hc⟩ := foldl_cascadeSlot clk [b] p hx
          exact ⟨loc', hc.located⟩
        · rw [cascadeSlot_eq]
          exact foldl_cascadeOne_sorted clk _ _ (setBucket_sorted h.sorted _ (Ne.symm hb.1))
      exact ih hb.2 _ hone

theorem foldl_cascadeSlot_nextEarliest (p : Pass Cb) :
    (buckets.foldl (cascadeSlot clk) p).nextEarliest = p.nextEarliest := by
  have hone : ∀ (l : List ℕ) (q : Pass Cb),
      (l.foldl (cascadeOne clk) q).nextEarliest = q.nextEarliest := by
    intro l
    induction l with
    | nil => intro q; rfl
    | cons y rest ih =>
      intro q
      rw [List.foldl_cons, ih]
      unfold cascadeOne
      split <;> rfl
  induction buckets generalizing p with
  | nil => rfl
  | cons b rest ih => rw [List.foldl_cons, ih, cascadeSlot_eq, hone]

end Pass

end PulsarRuntime.Timers
