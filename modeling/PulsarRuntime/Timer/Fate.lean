import PulsarRuntime.Timer.Cascade

/-!
# Draining the fallback set, and the fate of a timer in a whole pass

`drainTree` pops the due timers of `timers_`.  A re-armed timer that goes back into the set has a
deadline at least `2 ^ 26` ms away, so each round leaves one due timer less (`drainOne_dueCount`)
and the loop ends by its own condition (`drainTree_done`).

`advanceWheel_fate` puts the three phases together: for a timer in a given bucket it lists
everything a pass can make of it.  The properties of runs are derived from this list alone.
-/

namespace PulsarRuntime.Timers

open TimerManager

variable {Cb : Type}

namespace Pass

variable (clk : ℕ → ℕ) (now : ℕ)

/-! ### One round -/

variable (p : Pass Cb) {rest : List ℕ}

theorem pop_untouched {id x : ℕ} (ht : p.tm.store .tree = id :: rest) (hx : x ≠ id) :
    Untouched x p { p with tm := p.tm.setBucket .tree rest } := by
  refine ⟨rfl, ?_, fun _ => Iff.rfl, le_rfl, le_rfl⟩
  intro b
  by_cases hb : b = .tree
  · subst hb
    rw [setBucket_store_self, ht, List.count_cons_of_ne (Ne.symm hx)]
  · rw [setBucket_store_ne _ _ hb]

theorem drainOne_untouched {id x : ℕ} (ht : p.tm.store .tree = id :: rest) (hx : x ≠ id) :
    Untouched x p (drainOne clk now p id rest) := by
  unfold drainOne
  dsimp only
  split
  · exact pop_untouched p ht hx
  · exact (pop_untouched p ht hx).trans (fire_untouched clk now _ hx)

variable {id : ℕ} {loc : Option Bucket}

theorem pop_located (ht : p.tm.store .tree = id :: rest) (hid : Located p.tm id loc) :
    id ∉ rest ∧ Located (p.tm.setBucket .tree rest) id none := by
  have hloc : loc = some .tree := (hid.mem_iff .tree).mp (by rw [ht]; simp)
  subst hloc
  have hcount := hid .tree
  rw [ht, List.count_cons_self, if_pos rfl] at hcount
  have hnot : id ∉ rest := List.count_eq_zero.mp (by omega)
  refine ⟨hnot, ?_⟩
  intro b
  by_cases hb : b = .tree
  · subst hb
    rw [setBucket_store_self, List.count_eq_zero_of_not_mem hnot]
    rfl
  · have := hid b
    simpa [setBucket_store_ne _ _ hb, Ne.symm hb] using this

/-- The popped timer is dropped, expired, or re-armed into the bucket of its new deadline. -/
theorem drainOne_self (ht : p.tm.store .tree = id :: rest) (hid : Located p.tm id loc) :
    ((p.tm.heap id).cancelled = true →
      Located (drainOne clk now p id rest).tm id none ∧
        (drainOne clk now p id rest).tm.heap id = p.tm.heap id ∧
        ∀ f, (id, f) ∈ (drainOne clk now p id rest).cbs ↔ (id, f) ∈ p.cbs) ∧
    ((p.tm.heap id).cancelled = false → (p.tm.heap id).recurring = false →
      Located (drainOne clk now p id rest).tm id none ∧
        (drainOne clk now p id rest).tm.heap id = (p.tm.heap id).expired ∧
        Emitted id (p.tm.heap id) p (drainOne clk now p id rest)) ∧
    ((p.tm.heap id).cancelled = false → (p.tm.heap id).recurring = true →
      Located (drainOne clk now p id rest).tm id
          (some (bucketFor (clk p.reads) ((p.tm.heap id).rearmed now).next)) ∧
        (drainOne clk now p id rest).tm.heap id = (p.tm.heap id).rearmed now ∧
        Emitted id (p.tm.heap id) p (drainOne clk now p id rest)) := by
  obtain ⟨-, hout⟩ := pop_located p ht hid
  refine ⟨fun hc => ?_, fun hc hr => ?_, fun hc hr => ?_⟩ <;> unfold drainOne <;> dsimp only
  · rw [setBucket_heap, if_pos hc]
    exact ⟨hout, rfl, fun _ => Iff.rfl⟩
  · rw [if_neg (by simp [hc])]
    obtain ⟨hheap, hstore, hemit, -⟩ :=
      fire_once clk now { p with tm := p.tm.setBucket .tree rest } id hr
    refine ⟨?_, hheap, hemit⟩
    intro b
    rw [hstore]
    exact hout b
  · rw [if_neg (by simp [hc])]
    obtain ⟨hheap, hcount, hemit, -⟩ :=
      fire_again clk now { p with tm := p.tm.setBucket .tree rest } id hr
    refine ⟨?_, hheap, hemit⟩
    intro b
    rw [hcount b, hout b]
    by_cases hb : bucketFor (clk p.reads) ((p.tm.heap id).rearmed now).next = b
    · simp [hb]
    · simp [hb, Ne.symm hb]

theorem drainOne_tidy (h : Tidy p.tm)
    (ht : p.tm.store .tree = id :: rest) : Tidy (drainOne clk now p id rest).tm where
  located x := by
    obtain ⟨loc, hx⟩ := h.located x
    by_cases hid : x = id
    · subst hid
      obtain ⟨hdead, honce, hagain⟩ := drainOne_self clk now p ht hx
      cases hc : (p.tm.heap x).cancelled with
      | true => exact ⟨_, (hdead hc).1⟩
      | false =>
        cases hr : (p.tm.heap x).recurring with
        | false => exact ⟨_, (honce hc hr).1⟩
        | true => exact ⟨_, (hagain hc hr).1⟩
    · exact ⟨loc, (drainOne_untouched clk now p ht hid).located hx⟩
  sorted := by
    obtain ⟨loc, hid⟩ := h.located id
    have hsorted := h.sorted
    unfold SortedTree at hsorted
    rw [ht] at hsorted
    have hrest : SortedTree (p.tm.setBucket .tree rest) := by
      unfold SortedTree
      rw [setBucket_store_self]
      exact (List.pairwise_cons.mp hsorted).2
    unfold drainOne
    dsimp only
    split
    · exact hrest
    · refine fire_sorted clk now _ hrest ?_
      rw [setBucket_store_self]
      exact (pop_located p ht hid).1

/-! ### The number of due timers in the set -/

def dueCount : ℕ :=
  (p.tm.store .tree).countP fun y => decide ((p.tm.heap y).next ≤ now)

/-- A re-armed timer can only go back into the set with a deadline far ahead. -/
theorem fire_tree (id : ℕ) :
    (fire clk now p id).tm.store .tree = p.tm.store .tree ∨
      ((fire clk now p id).tm.store .tree).Perm (id :: p.tm.store .tree) ∧
        clk p.reads + 2 ^ 26 ≤ ((fire clk now p id).tm.heap id).next := by
  unfold fire
  dsimp only
  split
  · by_cases hb : bucketFor (clk p.reads) ((p.tm.heap id).rearmed now).next = .tree
    · right
      constructor
      · have hperm := insertToWheel_store_perm (p.tm.setTimer id ((p.tm.heap id).rearmed now))
          (clk p.reads) id
        rw [setTimer_heap_self, hb] at hperm
        exact hperm
      · simpa [reinsert] using bucketFor_eq_tree hb
    · left
      exact insertToWheel_store_ne _ _ _ (by rw [setTimer_heap_self]; exact Ne.symm hb)
  · exact .inl rfl

theorem drainOne_dueCount (h : Tidy p.tm)
    (hclk : ∀ k, now ≤ clk k) (ht : p.tm.store .tree = id :: rest)
    (hdue : (p.tm.heap id).next ≤ now) :
    dueCount now (drainOne clk now p id rest) + 1 = dueCount now p := by
  obtain ⟨loc, hid⟩ := h.located id
  obtain ⟨hnot, -⟩ := pop_located p ht hid
  have hbefore : dueCount now p =
      rest.countP (fun y => decide ((p.tm.heap y).next ≤ now)) + 1 := by
    unfold dueCount
    rw [ht, List.countP_cons_of_pos (by simpa using hdue)]
  have hrest : rest.countP (fun y => decide (((drainOne clk now p id rest).tm.heap y).next ≤ now)) =
      rest.countP (fun y => decide ((p.tm.heap y).next ≤ now)) := by
    refine List.countP_congr fun y hy => ?_
    have hyid : y ≠ id := by rintro rfl; exact hnot hy
    rw [(drainOne_untouched clk now p ht hyid).heap]
  rw [hbefore, ← hrest]
  congr 1
  unfold dueCount
  have hcases : (drainOne clk now p id rest).tm.store .tree = rest ∨
      ((drainOne clk now p id rest).tm.store .tree).Perm (id :: rest) ∧
        now < ((drainOne clk now p id rest).tm.heap id).next := by
    unfold drainOne
    dsimp only
    split
    · exact .inl (setBucket_store_self _ _ _)
    · rcases fire_tree clk now { p with tm := p.tm.setBucket .tree rest } id with hf | ⟨hf, hlt⟩
      · rw [setBucket_store_self] at hf
        exact .inl hf
      · rw [setBucket_store_self] at hf
        refine .inr ⟨hf, lt_of_lt_of_le ?_ hlt⟩
        have := hclk p.reads
        simp only
        omega
  rcases hcases with heq | ⟨hperm, hlt⟩
  · rw [heq]
  · rw [hperm.countP_eq, List.countP_cons_of_neg (by simpa using hlt)]

/-! ### The loop -/

theorem drainTree_step (fuel : ℕ)
    (ht : p.tm.store .tree = id :: rest) (hdue : (p.tm.heap id).next ≤ now) :
    drainTree clk now (fuel + 1) p = drainTree clk now fuel (drainOne clk now p id rest) := by
  rw [drainTree, ht]
  simp only
  rw [if_pos hdue]

theorem drainTree_stop (fuel : ℕ)
    (h : ∀ id rest, p.tm.store .tree = id :: rest → now < (p.tm.heap id).next) :
    drainTree clk now fuel p = p := by
  cases fuel with
  | zero => rfl
  | succ fuel =>
    rw [drainTree]
    split
    · rfl
    · rename_i id rest ht
      rw [if_neg (by have := h id rest ht; omega)]

theorem drainTree_untouched (fuel : ℕ) (p : Pass Cb) {x : ℕ}
    (hx : x ∈ p.tm.store .tree → now < (p.tm.heap x).next) :
    Untouched x p (drainTree clk now fuel p) := by
  induction fuel generalizing p with
  | zero => exact .refl x p
  | succ fuel ih =>
    cases ht : p.tm.store .tree with
    | nil =>
      rw [drainTree_stop clk now p _ (by simp [ht])]
      exact .refl x p
    | cons id rest =>
      by_cases hdue : (p.tm.heap id).next ≤ now
      · rw [drainTree_step clk now p fuel ht hdue]
        have hid : x ≠ id := by
          rintro rfl
          exact absurd (hx (by simp [ht])) (by omega)
        have u := drainOne_untouched clk now p ht hid
        refine u.trans (ih _ fun hmem => ?_)
        rw [u.heap]
        exact hx ((u.mem_iff .tree).mp hmem)
      · rw [drainTree_stop clk now p _ (fun id' rest' h => by
          rw [ht] at h
          cases h
          omega)]
        exact .refl x p

theorem drainTree_tidy (fuel : ℕ) (p : Pass Cb) (h : Tidy p.tm) :
    Tidy (drainTree clk now fuel p).tm := by
  induction fuel generalizing p with
  | zero => exact h
  | succ fuel ih =>
    rw [drainTree]
    split
    · exact h
    · rename_i id rest ht
      split
      · exact ih _ (drainOne_tidy clk now p h ht)
      · exact h

/-- In a sorted set, a first element that is not due means that none is. -/
theorem head_not_due {tm : TimerManager Cb} {id x : ℕ} (h : SortedTree tm)
    (ht : tm.store .tree = id :: rest) (hx : x ∈ tm.store .tree) :
    (tm.heap id).next ≤ (tm.heap x).next := by
  unfold SortedTree at h
  rw [ht] at h hx
  rcases List.mem_cons.mp hx with rfl | hx
  · exact le_rfl
  · exact (List.pairwise_cons.mp h).1 x hx

/-- With a round for every due timer the loop ends by its own condition: no timer that the set
still holds is due. -/
theorem drainTree_done (fuel : ℕ) (p : Pass Cb) (h : Tidy p.tm) (hclk : ∀ k, now ≤ clk k)
    (hfuel : dueCount now p ≤ fuel) :
    ∀ x ∈ (drainTree clk now fuel p).tm.store .tree,
      now < ((drainTree clk now fuel p).tm.heap x).next := by
  induction fuel generalizing p with
  | zero =>
    intro x hx
    have hzero := List.countP_eq_zero.mp (Nat.le_zero.mp hfuel) x hx
    show now < (p.tm.heap x).next
    simpa using hzero
  | succ fuel ih =>
    cases ht : p.tm.store .tree with
    | nil =>
      rw [drainTree_stop clk now p _ (by simp [ht])]
      simp [ht]
    | cons id rest =>
      by_cases hdue : (p.tm.heap id).next ≤ now
      · rw [drainTree_step clk now p fuel ht hdue]
        refine ih _ (drainOne_tidy clk now p h ht) ?_
        have := drainOne_dueCount clk now p h hclk ht hdue
        omega
      · rw [drainTree_stop clk now p _ (fun id' rest' h' => by
          rw [ht] at h'
          cases h'
          omega)]
        intro x hx
        have := head_not_due h.sorted ht hx
        omega

/-- After its own round a timer is out of the set, or in it with a deadline past `now`. -/
theorem drainOne_tree (hclk : ∀ k, now ≤ clk k)
    (ht : p.tm.store .tree = id :: rest) (hid : Located p.tm id loc)
    (hmem : id ∈ (drainOne clk now p id rest).tm.store .tree) :
    now < ((drainOne clk now p id rest).tm.heap id).next := by
  obtain ⟨hdead, honce, hagain⟩ := drainOne_self clk now p ht hid
  cases hc : (p.tm.heap id).cancelled with
  | true => exact absurd (((hdead hc).1.mem_iff _).mp hmem) (by simp)
  | false =>
    cases hr : (p.tm.heap id).recurring with
    | false => exact absurd (((honce hc hr).1.mem_iff _).mp hmem) (by simp)
    | true =>
      obtain ⟨hl, hheap, -⟩ := hagain hc hr
      have hb := bucketFor_eq_tree (Option.some.inj ((hl.mem_iff _).mp hmem))
      rw [hheap]
      have := hclk p.reads
      omega

/-- The loop comes to every due timer of the set, and leaves it alone before and after. -/
theorem drainTree_at (fuel : ℕ) (p : Pass Cb) (h : Tidy p.tm) (hclk : ∀ k, now ≤ clk k)
    (hfuel : dueCount now p ≤ fuel) {x : ℕ} (hx : x ∈ p.tm.store .tree)
    (hdue : (p.tm.heap x).next ≤ now) :
    ∃ q : Pass Cb, ∃ rest, Untouched x p q ∧ q.tm.store .tree = x :: rest ∧
      Untouched x (drainOne clk now q x rest) (drainTree clk now fuel p) := by
  induction fuel generalizing p with
  | zero =>
    have hzero := List.countP_eq_zero.mp (Nat.le_zero.mp hfuel) x hx
    exact absurd hdue (by simpa using hzero)
  | succ fuel ih =>
    cases ht : p.tm.store .tree with
    | nil => simp [ht] at hx
    | cons id rest =>
      have hhead := head_not_due h.sorted ht hx
      have hidue : (p.tm.heap id).next ≤ now := by omega
      rw [drainTree_step clk now p fuel ht hidue]
      by_cases hid : x = id
      · subst hid
        obtain ⟨loc, hl⟩ := h.located x
        exact ⟨p, rest, .refl x p, ht,
          drainTree_untouched clk now fuel _ (drainOne_tree clk now p hclk ht hl)⟩
      · have u := drainOne_untouched clk now p ht hid
        have hcount := drainOne_dueCount clk now p h hclk ht hidue
        obtain ⟨q, rest', uq, hq, hafter⟩ := ih _ (drainOne_tidy clk now p h ht) (by omega)
          ((u.mem_iff .tree).mpr hx) (by rw [u.heap]; exact hdue)
        exact ⟨q, rest', u.trans uq, hq, hafter⟩

theorem drainTree_nextEarliest (fuel : ℕ) (p : Pass Cb) :
    (drainTree clk now fuel p).nextEarliest = p.nextEarliest := by
  induction fuel generalizing p with
  | zero => rfl
  | succ fuel ih =>
    rw [drainTree]
    split
    · rfl
    · split
      · rw [ih]
        unfold drainOne fire reinsert
        dsimp only
        split
        · rfl
        · split <;> rfl
      · rfl

/-! ### The whole pass -/

/-- The state of the pass after the sweep, after the cascades, and when it stores its minimum. -/
def swept (tm : TimerManager Cb) : Pass Cb := sweep clk (clk 0) ⟨tm, 1, [], noTimer⟩

def cascaded (tm : TimerManager Cb) : Pass Cb := upper.foldl (cascadeSlot clk) (swept clk tm)

def drained (tm : TimerManager Cb) : Pass Cb :=
  drainTree clk (clk 0) ((cascaded clk tm).tm.store .tree).length (cascaded clk tm)

theorem advanceWheel_eq (tm : TimerManager Cb) :
    advanceWheel clk tm =
      { drained clk tm with
        tm := { (drained clk tm).tm with earliestNext := countTree (drained clk tm) }
        nextEarliest := countTree (drained clk tm) } := by
  unfold advanceWheel drained cascaded swept
  dsimp only
  rw [cascades_eq]

theorem advanceWheel_store (tm : TimerManager Cb) :
    (advanceWheel clk tm).tm.store = (drained clk tm).tm.store := by
  rw [advanceWheel_eq]

theorem advanceWheel_heap (tm : TimerManager Cb) :
    (advanceWheel clk tm).tm.heap = (drained clk tm).tm.heap := by
  rw [advanceWheel_eq]

theorem advanceWheel_cbs (tm : TimerManager Cb) :
    (advanceWheel clk tm).cbs = (drained clk tm).cbs := by
  rw [advanceWheel_eq]

theorem advanceWheel_earliestNext (tm : TimerManager Cb) :
    (advanceWheel clk tm).tm.earliestNext = countTree (drained clk tm) := by
  rw [advanceWheel_eq]

theorem cascaded_tidy {tm : TimerManager Cb} (h : Tidy tm) : Tidy (cascaded clk tm).tm :=
  foldl_cascadeSlot_tidy clk upper (not_mem_upper (.inl rfl)) _ (sweep_tidy clk _ _ h)

theorem advanceWheel_tidy {tm : TimerManager Cb} (h : Tidy tm) : Tidy (advanceWheel clk tm).tm := by
  have hd : Tidy (drained clk tm).tm := drainTree_tidy clk _ _ _ (cascaded_tidy clk h)
  constructor
  · intro x
    obtain ⟨loc, hx⟩ := hd.located x
    exact ⟨loc, hx.congr fun b => by rw [advanceWheel_store]⟩
  · unfold SortedTree
    rw [advanceWheel_store, advanceWheel_heap]
    exact hd.sorted

/-- The stored minimum counts what the sweep counted. -/
theorem earliestNext_le_swept (tm : TimerManager Cb) :
    (advanceWheel clk tm).tm.earliestNext ≤ (swept clk tm).nextEarliest := by
  have hle : (drained clk tm).nextEarliest = (swept clk tm).nextEarliest := by
    unfold drained
    rw [drainTree_nextEarliest]
    exact foldl_cascadeSlot_nextEarliest clk upper _
  rw [advanceWheel_earliestNext, ← hle]
  unfold countTree
  split
  · exact le_rfl
  · exact min_le_right _ _

/-- The stored minimum counts every timer the fallback set ends with. -/
theorem earliestNext_le_tree {tm : TimerManager Cb} (h : Tidy tm) {x : ℕ}
    (hx : x ∈ (advanceWheel clk tm).tm.store .tree) :
    (advanceWheel clk tm).tm.earliestNext ≤ ((advanceWheel clk tm).tm.heap x).next := by
  have hs := (advanceWheel_tidy clk h).sorted
  rw [advanceWheel_earliestNext]
  unfold countTree
  split
  · rename_i ht
    rw [advanceWheel_store, ht] at hx
    simp at hx
  · rename_i id rest ht
    have hhead := head_not_due hs (by rw [advanceWheel_store, ht]) hx
    rw [advanceWheel_heap] at hhead ⊢
    exact (min_le_left _ _).trans hhead

/-! ### The fate of one timer -/

/-- Everything a pass that reads `clk 0` can make of timer `x`, by the bucket that holds it when
the pass starts.  `q` is the pass at its end. -/
inductive Fate (tm : TimerManager Cb) (q : Pass Cb) (x : ℕ) : Option Bucket → Prop where
  | absent (located : Located q.tm x none) (heap : q.tm.heap x = tm.heap x)
      (quiet : ∀ f, (x, f) ∉ q.cbs) : Fate tm q x none
  | dead {b : Bucket} (cancelled : (tm.heap x).cancelled = true)
      (heap : q.tm.heap x = tm.heap x) (quiet : ∀ f, (x, f) ∉ q.cbs) : Fate tm q x (some b)
  | kept {b : Bucket} (live : (tm.heap x).cancelled = false) (later : clk 0 < (tm.heap x).next)
      (place : b ∉ upper) (located : Located q.tm x (some b)) (heap : q.tm.heap x = tm.heap x)
      (quiet : ∀ f, (x, f) ∉ q.cbs) (counted : q.tm.earliestNext ≤ (tm.heap x).next) :
      Fate tm q x (some b)
  | moved {b b' : Bucket} (live : (tm.heap x).cancelled = false) (place : b ∈ upper)
      (located : Located q.tm x (some b')) (heap : q.tm.heap x = tm.heap x)
      (quiet : ∀ f, (x, f) ∉ q.cbs) : Fate tm q x (some b)
  | expired {b : Bucket} (live : (tm.heap x).cancelled = false) (due : (tm.heap x).next ≤ clk 0)
      (place : b ∉ upper) (once : (tm.heap x).recurring = false) (located : Located q.tm x none)
      (heap : q.tm.heap x = (tm.heap x).expired)
      (emits : ∀ f, (x, f) ∈ q.cbs ↔ (tm.heap x).cb = some f) : Fate tm q x (some b)
  | rearmed {b b' : Bucket} (live : (tm.heap x).cancelled = false)
      (due : (tm.heap x).next ≤ clk 0) (place : b ∉ upper)
      (again : (tm.heap x).recurring = true) (located : Located q.tm x (some b'))
      (heap : q.tm.heap x = (tm.heap x).rearmed (clk 0))
      (emits : ∀ f, (x, f) ∈ q.cbs ↔ (tm.heap x).cb = some f)
      (target : ∃ k, b' = bucketFor (clk k) ((tm.heap x).rearmed (clk 0)).next)
      (ahead : ∀ i j, b = .wheel0 i → i < j → (∀ k,
        bucketFor (clk k) ((tm.heap x).rearmed (clk 0)).next = .wheel0 j) →
        q.tm.earliestNext ≤ ((tm.heap x).rearmed (clk 0)).next)
      (apart : ∀ i, b = .wheel0 i →
        ∃ k, ¬Clash (clk 0) (clk k) ((tm.heap x).rearmed (clk 0)).next i) : Fate tm q x (some b)
  | lost {i : Fin 256} {k : ℕ} (live : (tm.heap x).cancelled = false)
      (due : (tm.heap x).next ≤ clk 0) (again : (tm.heap x).recurring = true)
      (clash : Clash (clk 0) (clk k) ((tm.heap x).rearmed (clk 0)).next i)
      (located : Located q.tm x none) (heap : q.tm.heap x = (tm.heap x).rearmed (clk 0))
      (emits : ∀ f, (x, f) ∈ q.cbs ↔ (tm.heap x).cb = some f) : Fate tm q x (some (.wheel0 i))

variable {clk} {tm : TimerManager Cb} {x : ℕ}

/-- After the sweep, a timer outside the upper wheels that is not due in the set is left alone. -/
theorem late_untouched (clk : ℕ → ℕ) (hx : Located (swept clk tm).tm x loc)
    (hup : ∀ b ∈ upper, loc ≠ some b)
    (hlate : loc = some .tree → clk 0 < ((swept clk tm).tm.heap x).next) :
    Untouched x (swept clk tm) (drained clk tm) := by
  have hc : Untouched x (swept clk tm) (cascaded clk tm) :=
    foldl_cascadeSlot_untouched clk upper _ fun b hb hmem => hup b hb ((hx.mem_iff b).mp hmem)
  refine hc.trans (drainTree_untouched clk _ _ _ fun hmem => ?_)
  rw [hc.heap]
  exact hlate (((hc.located hx).mem_iff _).mp hmem)

theorem cascaded_located (clk : ℕ → ℕ) (hx : Located (swept clk tm).tm x loc) :
    ∃ loc', Cascaded clk x (swept clk tm) (cascaded clk tm) loc loc' :=
  foldl_cascadeSlot clk upper (swept clk tm) hx

theorem mem_cbs_nil (tm : TimerManager Cb) (x : ℕ) (f : Cb) :
    (x, f) ∉ (⟨tm, 1, [], noTimer⟩ : Pass Cb).cbs := by simp

/-- What `drained` says of `x` is what the finished pass says. -/
theorem located_advanceWheel (h : Located (drained clk tm).tm x loc) :
    Located (advanceWheel clk tm).tm x loc :=
  h.congr fun b => by rw [advanceWheel_store]

theorem fate_wheel0 (hclk : ∀ k, clk 0 ≤ clk k) {i : Fin 256}
    (hx : Located tm x (some (.wheel0 i))) :
    Fate clk tm (advanceWheel clk tm) x (some (.wheel0 i)) := by
  have hplace : Bucket.wheel0 i ∉ upper := not_mem_upper (.inr ⟨i, rfl⟩)
  have hcbs := mem_cbs_nil tm x
  have hs : sweep clk (clk 0) ⟨tm, 1, [], noTimer⟩ = swept clk tm := rfl
  cases hc : (tm.heap x).cancelled with
  | true =>
    obtain ⟨hl, hh, hcb⟩ := sweep_dropped clk (clk 0) ⟨tm, 1, [], noTimer⟩ i hx hc
    rw [hs] at hl hh hcb
    have u := late_untouched clk hl (by simp) (by simp)
    refine .dead hc ?_ fun f hf => ?_
    · rw [advanceWheel_heap, u.heap]
      exact hh
    · rw [advanceWheel_cbs, u.cbs] at hf
      exact hcbs f ((hcb f).mp hf)
  | false =>
    rcases Nat.lt_or_ge (clk 0) (tm.heap x).next with hdue | hdue
    · obtain ⟨hl, hh, hcb, he⟩ := sweep_kept clk (clk 0) ⟨tm, 1, [], noTimer⟩ i hx hc hdue
      rw [hs] at hl hh hcb he
      have u := late_untouched clk hl
        (fun b hb h => hplace (by cases h; exact hb)) (by simp)
      refine .kept hc hdue hplace (located_advanceWheel (u.located hl)) ?_ (fun f hf => ?_)
        ((earliestNext_le_swept clk tm).trans he)
      · rw [advanceWheel_heap, u.heap]
        exact hh
      · rw [advanceWheel_cbs, u.cbs] at hf
        exact hcbs f ((hcb f).mp hf)
    · cases hr : (tm.heap x).recurring with
      | false =>
        obtain ⟨hl, hh, hemit⟩ := sweep_expired clk (clk 0) ⟨tm, 1, [], noTimer⟩ i hx hc hdue hr
        rw [hs] at hl hh hemit
        have u := late_untouched clk hl (by simp) (by simp)
        refine .expired hc hdue hplace hr (located_advanceWheel (u.located hl)) ?_ fun f => ?_
        · rw [advanceWheel_heap, u.heap]
          exact hh
        · rw [advanceWheel_cbs, u.cbs]
          exact (hemit f).trans (or_iff_right (hcbs f))
      | true =>
        obtain ⟨hh, hemit, k, loc, hl, hcases⟩ :=
          sweep_rearmed clk (clk 0) ⟨tm, 1, [], noTimer⟩ i hclk hx hc hdue hr
        rw [hs] at hh hemit hl hcases
        have hemit' : ∀ f, (x, f) ∈ (swept clk tm).cbs ↔ (tm.heap x).cb = some f :=
          fun f => (hemit f).trans (or_iff_right (hcbs f))
        rcases hcases with ⟨rfl, hclash⟩ | ⟨rfl, hapart, hcount⟩
        · have u := late_untouched clk hl (by simp) (by simp)
          refine .lost hc hdue hr hclash (located_advanceWheel (u.located hl)) ?_ fun f => ?_
          · rw [advanceWheel_heap, u.heap]
            exact hh
          · rw [advanceWheel_cbs, u.cbs, hemit' f]
        · -- the cascades may move it once more, to the bucket of a later reading
          obtain ⟨loc₂, h₂⟩ := cascaded_located clk hl
          have hlive : ((swept clk tm).tm.heap x).cancelled = false := by
            rw [hh]
            rfl
          have hnext : ((swept clk tm).tm.heap x).next = ((tm.heap x).rearmed (clk 0)).next :=
            congrArg Timer.next hh
          have htarget : ∃ k', loc₂ = some (bucketFor (clk k')
              ((tm.heap x).rearmed (clk 0)).next) := by
            rcases h₂.live hlive with rfl | ⟨-, k', hk'⟩
            · exact ⟨k, rfl⟩
            · exact ⟨k', by rw [hk', hnext]⟩
          obtain ⟨k', rfl⟩ := htarget
          have u : Untouched x (cascaded clk tm) (drained clk tm) := by
            refine drainTree_untouched clk _ _ _ fun hmem => ?_
            have hb := bucketFor_eq_tree (Option.some.inj ((h₂.located.mem_iff _).mp hmem))
            rw [h₂.heap, hnext]
            have := hclk k'
            omega
          refine .rearmed hc hdue hplace hr (located_advanceWheel (u.located h₂.located)) ?_ ?_
            ⟨k', rfl⟩ ?_ ?_
          · rw [advanceWheel_heap, u.heap]
            exact h₂.heap.trans hh
          · intro f
            rw [advanceWheel_cbs, u.cbs]
            exact (h₂.cbs f).trans (hemit' f)
          · intro i' j hi' hij hall
            cases hi'
            exact (earliestNext_le_swept clk tm).trans (hcount j hij (hall k))
          · intro i' hi'
            cases hi'
            exact ⟨k, hapart⟩

theorem fate_upper (hclk : ∀ k, clk 0 ≤ clk k) {b : Bucket} (hb : b ∈ upper)
    (hx : Located tm x (some b)) : Fate clk tm (advanceWheel clk tm) x (some b) := by
  have hcbs := mem_cbs_nil tm x
  have u₁ : Untouched x ⟨tm, 1, [], noTimer⟩ (swept clk tm) := by
    refine sweep_untouched clk _ _ hx fun i h => ?_
    cases h
    exact not_mem_upper (.inr ⟨i, rfl⟩) hb
  obtain ⟨loc₂, h₂⟩ := cascaded_located clk (u₁.located hx)
  have hlate : x ∈ (cascaded clk tm).tm.store .tree →
      clk 0 < ((cascaded clk tm).tm.heap x).next := by
    intro hmem
    have hloc := (h₂.located.mem_iff _).mp hmem
    rw [h₂.heap]
    cases hc : ((swept clk tm).tm.heap x).cancelled with
    | true =>
      rcases h₂.dead hc with h | h
      · rw [h] at hloc
        cases hloc
        exact absurd hb (not_mem_upper (.inl rfl))
      · rw [h] at hloc
        cases hloc
    | false =>
      rcases h₂.live hc with h | ⟨-, k, h⟩
      · rw [h] at hloc
        cases hloc
        exact absurd hb (not_mem_upper (.inl rfl))
      · rw [h] at hloc
        have := bucketFor_eq_tree (Option.some.inj hloc)
        have := hclk k
        omega
  have u₃ : Untouched x (cascaded clk tm) (drained clk tm) := drainTree_untouched clk _ _ _ hlate
  have hheap : (advanceWheel clk tm).tm.heap x = tm.heap x := by
    rw [advanceWheel_heap, u₃.heap]
    exact h₂.heap.trans u₁.heap
  have hquiet : ∀ f, (x, f) ∉ (advanceWheel clk tm).cbs := by
    intro f hf
    rw [advanceWheel_cbs, u₃.cbs] at hf
    exact hcbs f ((u₁.cbs f).mp ((h₂.cbs f).mp hf))
  cases hc : (tm.heap x).cancelled with
  | true => exact .dead hc hheap hquiet
  | false =>
    have hlive : ∃ b', loc₂ = some b' := by
      rcases h₂.live (by rw [u₁.heap]; exact hc) with h | ⟨-, k, h⟩
      · exact ⟨b, h⟩
      · exact ⟨_, h⟩
    obtain ⟨b', rfl⟩ := hlive
    exact .moved hc hb (located_advanceWheel (u₃.located h₂.located)) hheap hquiet

/-- The pass up to the last loop leaves the timers of the fallback set alone. -/
theorem tree_untouched (clk : ℕ → ℕ) (hx : Located tm x (some .tree)) :
    Untouched x ⟨tm, 1, [], noTimer⟩ (cascaded clk tm) := by
  have u₁ : Untouched x ⟨tm, 1, [], noTimer⟩ (swept clk tm) :=
    sweep_untouched clk _ _ hx (by simp)
  refine u₁.trans (foldl_cascadeSlot_untouched clk upper _ fun b hb hmem => ?_)
  have hbt := ((u₁.located hx).mem_iff b).mp hmem
  cases hbt
  exact not_mem_upper (.inl rfl) hb

/-- A timer of the set that is not due stays, cancelled or not. -/
theorem tree_kept (hx : Located tm x (some .tree)) (hlater : clk 0 < (tm.heap x).next) :
    Located (advanceWheel clk tm).tm x (some .tree) ∧
      (advanceWheel clk tm).tm.heap x = tm.heap x ∧ ∀ f, (x, f) ∉ (advanceWheel clk tm).cbs := by
  have u := tree_untouched clk hx
  have u₃ : Untouched x (cascaded clk tm) (drained clk tm) :=
    drainTree_untouched clk _ _ _ fun _ => by rw [u.heap]; exact hlater
  refine ⟨located_advanceWheel (u₃.located (u.located hx)), ?_, fun f hf => ?_⟩
  · rw [advanceWheel_heap, u₃.heap, u.heap]
  · rw [advanceWheel_cbs, u₃.cbs, u.cbs] at hf
    exact mem_cbs_nil tm x f hf

/-- The last loop comes to a due timer of the set, and nothing else happens to it. -/
theorem tree_visited (h : Tidy tm) (hclk : ∀ k, clk 0 ≤ clk k) (hx : Located tm x (some .tree))
    (hdue : (tm.heap x).next ≤ clk 0) :
    ∃ q : Pass Cb, ∃ rest, Untouched x ⟨tm, 1, [], noTimer⟩ q ∧ q.tm.store .tree = x :: rest ∧
      Untouched x (drainOne clk (clk 0) q x rest) (drained clk tm) := by
  have u := tree_untouched clk hx
  have hx₂ : Located (cascaded clk tm).tm x (some .tree) := u.located hx
  obtain ⟨q, rest, uq, hq, hafter⟩ := drainTree_at clk (clk 0)
    ((cascaded clk tm).tm.store .tree).length (cascaded clk tm) (cascaded_tidy clk h) hclk
    List.countP_le_length ((hx₂.mem_iff .tree).mpr rfl) (by rw [u.heap]; exact hdue)
  exact ⟨q, rest, u.trans uq, hq, hafter⟩

theorem fate_tree (h : Tidy tm) (hclk : ∀ k, clk 0 ≤ clk k) (hx : Located tm x (some .tree)) :
    Fate clk tm (advanceWheel clk tm) x (some .tree) := by
  have hcbs := mem_cbs_nil tm x
  have hplace : Bucket.tree ∉ upper := not_mem_upper (.inl rfl)
  rcases Nat.lt_or_ge (clk 0) (tm.heap x).next with hdue | hdue
  · obtain ⟨hl, hheap, hquiet⟩ := tree_kept hx hdue
    cases hc : (tm.heap x).cancelled with
    | true => exact .dead hc hheap hquiet
    | false =>
      refine .kept hc hdue hplace hl hheap hquiet ?_
      have := earliestNext_le_tree clk h ((hl.mem_iff .tree).mpr rfl)
      rwa [hheap] at this
  · obtain ⟨q, rest, huq, hq, hafter⟩ := tree_visited h hclk hx hdue
    obtain ⟨hdead, honce, hagain⟩ := drainOne_self clk (clk 0) q hq (huq.located hx)
    rw [huq.heap] at hdead honce hagain
    have hheap : (advanceWheel clk tm).tm.heap x = (drainOne clk (clk 0) q x rest).tm.heap x := by
      rw [advanceWheel_heap]
      exact hafter.heap
    have hafter' : ∀ f, (x, f) ∈ (advanceWheel clk tm).cbs ↔
        (x, f) ∈ (drainOne clk (clk 0) q x rest).cbs := by
      intro f
      rw [advanceWheel_cbs]
      exact hafter.cbs f
    have hbefore : ∀ f, (x, f) ∉ q.cbs := fun f hf => hcbs f ((huq.cbs f).mp hf)
    cases hc : (tm.heap x).cancelled with
    | true =>
      obtain ⟨-, hh, hcb⟩ := hdead hc
      exact .dead hc (hheap.trans hh) fun f hf => hbefore f ((hcb f).mp ((hafter' f).mp hf))
    | false =>
      have hemits : Emitted x (tm.heap x) q (drainOne clk (clk 0) q x rest) →
          ∀ f, (x, f) ∈ (advanceWheel clk tm).cbs ↔ (tm.heap x).cb = some f :=
        fun hemit f => ((hafter' f).trans (hemit f)).trans (or_iff_right (hbefore f))
      cases hr : (tm.heap x).recurring with
      | false =>
        obtain ⟨hl, hh, hemit⟩ := honce hc hr
        exact .expired hc hdue hplace hr (located_advanceWheel (hafter.located hl))
          (hheap.trans hh) (hemits hemit)
      | true =>
        obtain ⟨hl, hh, hemit⟩ := hagain hc hr
        exact .rearmed hc hdue hplace hr (located_advanceWheel (hafter.located hl))
          (hheap.trans hh) (hemits hemit) ⟨_, rfl⟩ (by simp) (by simp)

/-- **The fate of a timer.**  Whatever bucket holds it, a pass treats it in one of these ways. -/
theorem advanceWheel_fate (h : Tidy tm) (hclk : ∀ k, clk 0 ≤ clk k)
    (hx : Located tm x loc) : Fate clk tm (advanceWheel clk tm) x loc := by
  cases loc with
  | none =>
    have u₁ : Untouched x ⟨tm, 1, [], noTimer⟩ (swept clk tm) :=
      sweep_untouched clk _ _ hx (by simp)
    have u := u₁.trans (late_untouched clk (u₁.located hx) (by simp) (by simp))
    refine .absent (located_advanceWheel (u.located hx)) ?_ fun f hf => ?_
    · rw [advanceWheel_heap, u.heap]
    · rw [advanceWheel_cbs, u.cbs] at hf
      exact mem_cbs_nil tm x f hf
  | some b =>
    by_cases ht : b = .tree
    · subst ht
      exact fate_tree h hclk hx
    by_cases h0 : ∃ i, b = .wheel0 i
    · obtain ⟨i, rfl⟩ := h0
      exact fate_wheel0 hclk hx
    · exact fate_upper hclk (mem_upper ht fun i hi => h0 ⟨i, hi⟩) hx

end Pass

end PulsarRuntime.Timers
