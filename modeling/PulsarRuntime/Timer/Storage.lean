import PulsarRuntime.Lib.Placement
import PulsarRuntime.Timer.Model

/-!
# Where a timer is held, and what each step of a pass does to it

`Located tm x loc` says that the buckets hold timer `x` nowhere (`none`) or at exactly one
position of exactly one bucket.  Every function of the model either leaves a given timer
untouched (`Untouched`) or moves that one timer, so a pass is analysed one timer at a time.
-/

namespace PulsarRuntime.Timers

variable {Cb : Type}

/-- The buckets hold `x` nowhere, or once in the bucket `loc`. -/
def Located (tm : TimerManager Cb) (x : ℕ) (loc : Option Bucket) : Prop :=
  Placed tm.store x loc

/-- `timers_` is in deadline order. -/
def SortedTree (tm : TimerManager Cb) : Prop :=
  (tm.store .tree).Pairwise fun x y => (tm.heap x).next ≤ (tm.heap y).next

theorem Located.mem_iff {tm : TimerManager Cb} {x : ℕ} {loc : Option Bucket}
    (h : Located tm x loc) (b : Bucket) : x ∈ tm.store b ↔ loc = some b := Placed.mem_iff h b

theorem Located.congr {tm tm' : TimerManager Cb} {x : ℕ} {loc : Option Bucket}
    (h : Located tm x loc) (hc : ∀ b, (tm'.store b).count x = (tm.store b).count x) :
    Located tm' x loc := Placed.congr h hc

namespace TimerManager

/-! ### Field lemmas -/

variable (tm : TimerManager Cb)

@[simp] theorem setTimer_store (id : ℕ) (t : Timer Cb) :
    (tm.setTimer id t).store = tm.store := rfl

@[simp] theorem setTimer_heap_self (id : ℕ) (t : Timer Cb) :
    (tm.setTimer id t).heap id = t := by simp [setTimer]

theorem setTimer_heap_ne {id x : ℕ} (t : Timer Cb) (h : x ≠ id) :
    (tm.setTimer id t).heap x = tm.heap x := by simp [setTimer, h]

@[simp] theorem setTimer_allocated (id : ℕ) (t : Timer Cb) :
    (tm.setTimer id t).allocated = tm.allocated := rfl

@[simp] theorem setBucket_heap (b : Bucket) (ids : List ℕ) :
    (tm.setBucket b ids).heap = tm.heap := rfl

@[simp] theorem setBucket_allocated (b : Bucket) (ids : List ℕ) :
    (tm.setBucket b ids).allocated = tm.allocated := rfl

@[simp] theorem setBucket_store_self (b : Bucket) (ids : List ℕ) :
    (tm.setBucket b ids).store b = ids := by simp [setBucket]

theorem setBucket_store_ne {b b' : Bucket} (ids : List ℕ) (h : b' ≠ b) :
    (tm.setBucket b ids).store b' = tm.store b' := by simp [setBucket, h]

@[simp] theorem updateEarliestNext_heap (n : ℕ) :
    (tm.updateEarliestNext n).heap = tm.heap := by unfold updateEarliestNext; split <;> rfl

@[simp] theorem updateEarliestNext_store (n : ℕ) :
    (tm.updateEarliestNext n).store = tm.store := by unfold updateEarliestNext; split <;> rfl

@[simp] theorem updateEarliestNext_allocated (n : ℕ) :
    (tm.updateEarliestNext n).allocated = tm.allocated := by
  unfold updateEarliestNext; split <;> rfl

theorem updateEarliestNext_earliestNext (n : ℕ) :
    (tm.updateEarliestNext n).earliestNext = min n tm.earliestNext := by
  unfold updateEarliestNext
  split
  · simp only; omega
  · omega

/-! ### Insertion -/

theorem insertTree_perm (id : ℕ) (l : List ℕ) : (tm.insertTree id l).Perm (id :: l) := by
  induction l with
  | nil => exact .refl _
  | cons y rest ih =>
    simp only [insertTree]
    split
    · exact .refl _
    · exact (ih.cons y).trans (.swap id y rest)

theorem insertTree_sorted (id : ℕ) {l : List ℕ}
    (h : l.Pairwise fun x y => (tm.heap x).next ≤ (tm.heap y).next) :
    (tm.insertTree id l).Pairwise fun x y => (tm.heap x).next ≤ (tm.heap y).next := by
  induction l with
  | nil => simp [insertTree]
  | cons y rest ih =>
    obtain ⟨hy, hrest⟩ := List.pairwise_cons.mp h
    simp only [insertTree]
    split
    · rename_i hb
      have hle : (tm.heap id).next ≤ (tm.heap y).next := by
        simp only [before] at hb
        split at hb
        · omega
        · split at hb
          · simp at hb
          · omega
      refine List.pairwise_cons.mpr ⟨?_, h⟩
      intro z hz
      rcases List.mem_cons.mp hz with rfl | hz
      · exact hle
      · exact hle.trans (hy z hz)
    · rename_i hb
      have hle : (tm.heap y).next ≤ (tm.heap id).next := by
        simp only [before] at hb
        split at hb
        · simp at hb
        · omega
      refine List.pairwise_cons.mpr ⟨?_, ih hrest⟩
      intro z hz
      rcases List.mem_cons.mp ((insertTree_perm tm id rest).mem_iff.mp hz) with rfl | hz
      · exact hle
      · exact hy z hz

@[simp] theorem insertToWheel_heap (now id : ℕ) : (tm.insertToWheel now id).heap = tm.heap := by
  unfold insertToWheel; dsimp only; split <;> simp

@[simp] theorem insertToWheel_allocated (now id : ℕ) :
    (tm.insertToWheel now id).allocated = tm.allocated := by
  unfold insertToWheel; dsimp only; split <;> simp

theorem insertToWheel_earliestNext (now id : ℕ) :
    (tm.insertToWheel now id).earliestNext = min (tm.heap id).next tm.earliestNext := by
  unfold insertToWheel; dsimp only; split <;> exact updateEarliestNext_earliestNext tm _

theorem insertToWheel_store_ne (now id : ℕ) {b : Bucket}
    (h : b ≠ bucketFor now (tm.heap id).next) : (tm.insertToWheel now id).store b = tm.store b := by
  unfold insertToWheel
  dsimp only
  split
  · rename_i ht
    rw [setBucket_store_ne _ _ (by rw [← ht]; exact h), updateEarliestNext_store]
  · rw [setBucket_store_ne _ _ h, updateEarliestNext_store]

theorem insertToWheel_store_perm (now id : ℕ) :
    ((tm.insertToWheel now id).store (bucketFor now (tm.heap id).next)).Perm
      (id :: tm.store (bucketFor now (tm.heap id).next)) := by
  unfold insertToWheel
  dsimp only
  split
  · rename_i ht
    rw [ht, setBucket_store_self, updateEarliestNext_store]
    exact insertTree_perm _ id _
  · rw [setBucket_store_self, updateEarliestNext_store]
    exact List.perm_append_singleton id _

theorem mem_insertToWheel {tm : TimerManager Cb} {now id x : ℕ} {b : Bucket}
    (h : x ∈ (tm.insertToWheel now id).store b) : x = id ∨ x ∈ tm.store b := by
  by_cases hb : b = bucketFor now (tm.heap id).next
  · subst hb
    exact List.mem_cons.mp ((insertToWheel_store_perm tm now id).mem_iff.mp h)
  · rw [insertToWheel_store_ne tm now id hb] at h
    exact .inr h

theorem insertToWheel_count (now id x : ℕ) (b : Bucket) :
    ((tm.insertToWheel now id).store b).count x =
      (tm.store b).count x + if b = bucketFor now (tm.heap id).next ∧ x = id then 1 else 0 := by
  by_cases hb : b = bucketFor now (tm.heap id).next
  · subst hb
    rw [(insertToWheel_store_perm tm now id).count_eq, List.count_cons]
    by_cases hx : x = id
    · simp [hx]
    · simp [hx, Ne.symm hx]
  · rw [insertToWheel_store_ne tm now id hb]
    simp [hb]

theorem insertToWheel_sorted (now id : ℕ) (h : SortedTree tm) :
    SortedTree (tm.insertToWheel now id) := by
  unfold SortedTree at *
  simp only [insertToWheel_heap]
  by_cases hb : Bucket.tree = bucketFor now (tm.heap id).next
  · unfold insertToWheel
    dsimp only
    rw [← hb]
    simp only [setBucket_store_self, updateEarliestNext_store]
    have := insertTree_sorted (tm.updateEarliestNext (tm.heap id).next) id (l := tm.store .tree)
      (by simpa only [updateEarliestNext_heap] using h)
    simpa only [updateEarliestNext_heap] using this
  · rw [insertToWheel_store_ne tm now id hb]
    exact h

/-- Inserting a timer that no bucket holds puts it into the bucket of its deadline. -/
theorem insertToWheel_located (now id : ℕ) (h : Located tm id none) :
    Located (tm.insertToWheel now id) id (some (bucketFor now (tm.heap id).next)) :=
  Placed.insert h (insertToWheel_store_perm tm now id)
    fun _ hb => insertToWheel_store_ne tm now id hb

end TimerManager

/-! ### The bucket of a deadline -/

variable {now next : ℕ}

theorem bucketFor_near (h : next < now + 256) :
    TimerManager.bucketFor now next = .wheel0 (Fin.ofNat 256 next) := by
  unfold TimerManager.bucketFor
  dsimp only
  rw [if_pos (by omega)]

theorem bucketFor_far (h : now + 2 ^ 26 ≤ next) : TimerManager.bucketFor now next = .tree := by
  unfold TimerManager.bucketFor
  dsimp only
  rw [if_neg (by omega), if_neg (by omega), if_neg (by omega), if_neg (by omega)]

theorem bucketFor_eq_tree (h : TimerManager.bucketFor now next = .tree) : now + 2 ^ 26 ≤ next := by
  unfold TimerManager.bucketFor at h
  dsimp only at h
  split at h
  · cases h
  split at h
  · cases h
  split at h
  · cases h
  split at h
  · cases h
  omega

theorem bucketFor_eq_wheel0 {i : Fin 256} (h : TimerManager.bucketFor now next = .wheel0 i) :
    next < now + 256 ∧ i = Fin.ofNat 256 next := by
  unfold TimerManager.bucketFor at h
  dsimp only at h
  split at h
  · cases h
    exact ⟨by omega, rfl⟩
  split at h
  · cases h
  split at h
  · cases h
  split at h <;> cases h

end PulsarRuntime.Timers
