import Mathlib.Algebra.Order.BigOperators.Group.Finset
import PulsarRuntime.Fiber.Ledger
import PulsarRuntime.Lib.Family
import PulsarRuntime.Scheduler.Callbacks

/-!
# The caches of callback Fibers

A Fiber is at rest with a worker if it is in the cache of the worker or on its way out of it.  When
it comes to rest its only reference is that of the worker, so nobody else can do anything with it:
it stays as `tryCacheCallbackFiber` has found it until the worker resets it (`Inv.rest`).  The
counters differ from what is cached by what the workers have moved and not counted yet
(`Worker.tally`).
-/

namespace PulsarRuntime.Scheduler.Callbacks

open Fibers
open Finset (range)

/-- A Fiber on its way out of the cache. -/
def Pc.resting : Pc → Option ℕ
  | .popped f _ | .uncounted f _ | .resetting f _ => some f
  | _ => none

/-- What is counted and not in the cache any more, or in the cache and not counted yet. -/
def Pc.surplus : Pc → ℤ
  | .popped _ _ => 1
  | .pushed _ => -1
  | _ => 0

def Pc.surplusBytes (size : ℕ → ℤ) : Pc → ℤ
  | .popped f _ | .uncounted f _ => size f
  | .pushed bytes | .counted bytes => -bytes
  | _ => 0

namespace Worker

variable {x y : Worker} {f : ℕ}

def rests (x : Worker) (f : ℕ) : Prop := f ∈ x.callbackFiberCache ∨ x.pc.resting = some f

/-- What the worker contributes to `callbackCachedCount_`. -/
def tally (x : Worker) : ℤ := x.callbackFiberCache.length + x.pc.surplus

/-- What the worker contributes to `callbackCachedBytes_`. -/
def tallyBytes (size : ℕ → ℤ) (x : Worker) : ℤ :=
  (x.callbackFiberCache.map size).sum + x.pc.surplusBytes size

theorem refs_nonneg (x : Worker) (f : ℕ) : 0 ≤ x.refs f := by
  unfold refs
  split <;> omega

theorem fiber_of_resting {pc : Pc} (h : pc.resting = some f) : pc.fiber = some f := by
  cases pc <;> first | exact h | cases h

theorem refs_pos_of_rests (h : x.rests f) : 1 ≤ x.refs f := by
  unfold refs
  rcases h with hmem | hpc
  · have hcount := List.count_pos_iff.mpr hmem
    split <;> omega
  · rw [if_pos (fiber_of_resting hpc)]
    omega

/-- Not at rest, but in a variable of `run`: more than one reference if it also rests. -/
theorem refs_of_held (h : x.pc.fiber = some f) (hno : x.pc.resting = none) :
    1 ≤ x.refs f ∧ (x.rests f → 2 ≤ x.refs f) := by
  unfold refs
  rw [if_pos h]
  refine ⟨by omega, fun hrests => ?_⟩
  rcases hrests with hmem | hpc
  · have hcount := List.count_pos_iff.mpr hmem
    omega
  · rw [hno] at hpc
    cases hpc

theorem tallyBytes_congr {size size' : ℕ → ℤ} (h : ∀ f, x.refs f ≠ 0 → size' f = size f) :
    x.tallyBytes size' = x.tallyBytes size := by
  have hpc : x.pc.surplusBytes size' = x.pc.surplusBytes size := by
    have hfiber : ∀ f, x.pc.fiber = some f → size' f = size f := by
      intro f hf
      apply h
      unfold refs
      rw [if_pos hf]
      omega
    cases hpc : x.pc with
    | popped f cb => exact hfiber f (by rw [hpc]; rfl)
    | uncounted f cb => exact hfiber f (by rw [hpc]; rfl)
    | _ => rfl
  have hcache : x.callbackFiberCache.map size' = x.callbackFiberCache.map size := by
    apply List.map_congr_left
    intro f hf
    apply h
    have hpos := refs_pos_of_rests (x := x) (.inl hf)
    omega
  rw [tallyBytes, tallyBytes, hpc, hcache]

end Worker

/-! ### References -/

namespace State

variable {s : State} {w f : ℕ}

theorem selfRef_nonneg (x : Fiber) : 0 ≤ selfRef x := by
  unfold selfRef
  split <;> omega

/-- The references of one worker apart from those of the others. -/
theorem useCount_split (hw : w < s.workerCount) : s.useCount f =
    s.external f + selfRef (s.fibers f) + (s.workers w).refs f +
      ∑ v ∈ (range s.workerCount).erase w, (s.workers v).refs f := by
  rw [useCount, ← Finset.add_sum_erase _ _ (Finset.mem_range.mpr hw)]
  omega

theorem sum_erase_nonneg : 0 ≤ ∑ v ∈ (range s.workerCount).erase w, (s.workers v).refs f :=
  Finset.sum_nonneg fun v _ => (s.workers v).refs_nonneg f

theorem refs_le_useCount (hw : w < s.workerCount) : (s.workers w).refs f ≤ s.useCount f := by
  have hself := selfRef_nonneg (s.fibers f)
  have hsum := sum_erase_nonneg (s := s) (w := w) (f := f)
  rw [useCount_split hw]
  omega

/-- All references to `f` are those of worker `w`. -/
theorem alone (hw : w < s.workerCount) (hone : s.useCount f = 1)
    (hrefs : 1 ≤ (s.workers w).refs f) :
    s.external f = 0 ∧ (s.workers w).refs f = 1 ∧
      ∀ v < s.workerCount, v ≠ w → (s.workers v).refs f = 0 := by
  rw [useCount_split hw] at hone
  have hself := selfRef_nonneg (s.fibers f)
  have hsum := sum_erase_nonneg (s := s) (w := w) (f := f)
  refine ⟨by omega, by omega, fun v hv hne => ?_⟩
  have hzero : ∑ v ∈ (range s.workerCount).erase w, (s.workers v).refs f = 0 := by omega
  rw [Finset.sum_eq_zero_iff_of_nonneg fun v _ => (s.workers v).refs_nonneg f] at hzero
  exact hzero v (Finset.mem_erase.mpr ⟨hne, Finset.mem_range.mpr hv⟩)

/-- A step of worker `w` that leaves the Fibers alone. -/
def step (s : State) (w : ℕ) (y : Worker) (external : ℕ → ℕ) (hits misses evictions : ℕ)
    (count bytes : ℤ) : State :=
  { s.setWorker w y with
    external := external
    callbackCacheHits := hits
    callbackCacheMisses := misses
    callbackCacheEvictions := evictions
    callbackCachedCount := count
    callbackCachedBytes := bytes }

theorem useCount_step (hw : w < s.workerCount) (y : Worker) (external : ℕ → ℕ)
    (hits misses evictions : ℕ) (count bytes : ℤ) :
    (s.step w y external hits misses evictions count bytes).useCount f =
      s.useCount f + (external f - s.external f) + (y.refs f - (s.workers w).refs f) := by
  simp only [useCount, step, setWorker]
  rw [Family.sum_update (Worker.refs f) hw]
  omega

def size (s : State) (f : ℕ) : ℤ := stackBytes (s.fibers f)

/-- Fiber `f` is as `reset` needs it, and worker `w` has the only reference. -/
structure Rest (s : State) (w f : ℕ) : Prop where
  one : s.useCount f = 1
  reusable : (s.fibers f).isReusableSchedulerCallback s.schedulerOwnerId w = true

/-- A Fiber with the mark of this scheduler has been made by the worker it names. -/
def Marked (s : State) (f : ℕ) : Prop :=
  (s.fibers f).isSchedulerCallback = true → (s.fibers f).schedulerOwnerId = s.schedulerOwnerId →
    s.origin f = some (s.fibers f).schedulerOriginWorker ∧ (s.fibers f).stackBlock ≠ none

structure Inv (s : State) : Prop where
  bound : ∀ w < s.workerCount, ∀ f, (s.workers w).refs f ≠ 0 → f < s.fiberCount
  full : ∀ w < s.workerCount,
    (s.workers w).callbackFiberCache.length ≤ s.callbackFiberCachePerWorker
  rest : ∀ w < s.workerCount, ∀ f, (s.workers w).rests f → s.Rest w f
  marked : ∀ f < s.fiberCount, s.Marked f
  count : s.callbackCachedCount = ∑ w ∈ range s.workerCount, (s.workers w).tally
  bytes : s.callbackCachedBytes = ∑ w ∈ range s.workerCount, (s.workers w).tallyBytes s.size
  stopped : s.stopped = true → ∀ w < s.workerCount, s.workers w = ⟨.exited, []⟩

namespace Inv

variable {y : Worker} {g : ℕ} {external : ℕ → ℕ} {hits misses evictions : ℕ} {count bytes : ℤ}

/-- A worker gives away references or moves them. -/
theorem work (h : Inv s) (hw : w < s.workerCount) (hrun : s.stopped = false)
    (hless : ∀ f, (external f : ℤ) + y.refs f ≤ s.external f + (s.workers w).refs f)
    (hbound : ∀ f, y.refs f ≠ 0 → f < s.fiberCount)
    (hfull : y.callbackFiberCache.length ≤ s.callbackFiberCachePerWorker)
    (hrest : ∀ f, y.rests f → s.Rest w f)
    (hcount : count = s.callbackCachedCount + (y.tally - (s.workers w).tally))
    (hbytes : bytes = s.callbackCachedBytes +
      (y.tallyBytes s.size - (s.workers w).tallyBytes s.size)) :
    Inv (s.step w y external hits misses evictions count bytes) := by
  have huse := fun f => useCount_step (f := f) hw y external hits misses evictions count bytes
  refine ⟨?_, ?_, fun v hv f hf => ?_, h.marked, ?_, ?_, fun hs => ?_⟩
  · exact Family.forall_update (P := fun _ (x : Worker) => ∀ f, x.refs f ≠ 0 → f < s.fiberCount)
      h.bound hbound
  · exact Family.forall_update (P := fun _ (x : Worker) =>
      x.callbackFiberCache.length ≤ s.callbackFiberCachePerWorker) h.full hfull
  · change v < s.workerCount at hv
    change (Function.update s.workers w y v).rests f at hf
    by_cases hvw : v = w
    · subst hvw
      rw [Function.update_self] at hf
      obtain ⟨hone, hreusable⟩ := hrest f hf
      refine ⟨?_, hreusable⟩
      -- there is no reference more, and the one of the worker is left
      have hpos := Worker.refs_pos_of_rests hf
      have hleft := refs_le_useCount (f := f)
        (show v < (s.step v y external hits misses evictions count bytes).workerCount from hv)
      simp only [step, setWorker, Function.update_self] at hleft
      have hle := hless f
      have hnow := huse f
      simp only [step, setWorker] at hnow ⊢
      omega
    · rw [Function.update_of_ne hvw] at hf
      obtain ⟨hone, hreusable⟩ := h.rest v hv f hf
      refine ⟨?_, hreusable⟩
      obtain ⟨hexternal, -, hothers⟩ := alone hv hone (Worker.refs_pos_of_rests hf)
      have hzero := hothers w hw (Ne.symm hvw)
      have hle := hless f
      have hy := y.refs_nonneg f
      rw [huse]
      omega
  · simp only [step, setWorker]
    rw [Family.sum_update _ hw, hcount, h.count]
  · simp only [step, setWorker]
    rw [Family.sum_update _ hw, hbytes, h.bytes]
    rfl
  · exact absurd (hrun.symm.trans hs) nofun

variable {pc : Pc}

theorem not_stopped (h : Inv s) (hat : s.at w pc) (hpc : pc ≠ .exited) : s.stopped = false := by
  by_contra hs
  have hexited := h.stopped (by simpa using hs) w hat.2.1
  have hwpc := hat.2.2
  rw [hexited] at hwpc
  exact hpc hwpc.symm

/-- A worker goes on with its cache unchanged. -/
theorem goto (h : Inv s) (hat : s.at w pc) (pc' : Pc) (hpc : pc ≠ .exited)
    (hfiber : pc'.fiber = pc.fiber ∨ pc'.fiber = none)
    (hresting : pc'.resting = pc.resting ∨ pc'.resting = none)
    (hcount : count = s.callbackCachedCount + (pc'.surplus - pc.surplus))
    (hbytes : bytes = s.callbackCachedBytes +
      (pc'.surplusBytes s.size - pc.surplusBytes s.size)) :
    Inv (s.step w { s.workers w with pc := pc' } s.external hits misses evictions count bytes) := by
  have hw := hat.2.1
  have hwpc := hat.2.2
  have hrefs : ∀ f, ({ s.workers w with pc := pc' } : Worker).refs f ≤ (s.workers w).refs f := by
    intro f
    simp only [Worker.refs, hwpc]
    rcases hfiber with heq | hnone
    · rw [heq]
    · rw [hnone, if_neg nofun]
      split <;> omega
  refine h.work hw (h.not_stopped hat hpc) (fun f => ?_) (fun f hf => ?_)
    (h.full w hw) (fun f hf => h.rest w hw f ?_) ?_ ?_
  · have := hrefs f
    omega
  · have hle := hrefs f
    have hnonneg := Worker.refs_nonneg ({ s.workers w with pc := pc' } : Worker) f
    exact h.bound w hw f (by omega)
  · rcases hf with hmem | hrest
    · exact .inl hmem
    · rcases hresting with heq | hnone
      · rw [Worker.rests, hwpc]
        exact .inr (heq.symm.trans hrest)
      · rw [hnone] at hrest
        cases hrest
  · rw [hcount, Worker.tally, Worker.tally, hwpc]
    dsimp only
    omega
  · rw [hbytes, Worker.tallyBytes, Worker.tallyBytes, hwpc]
    dsimp only
    omega

/-! ### Fibers that are not at rest -/

theorem not_rests_of_external (h : Inv s) (hg : 0 < s.external g) :
    ∀ w < s.workerCount, ¬(s.workers w).rests g := by
  intro w hw hrests
  have hzero := (alone hw (h.rest w hw g hrests).one (Worker.refs_pos_of_rests hrests)).1
  omega

theorem not_rests_of_held (h : Inv s) (hat : s.at w pc) (hfiber : pc.fiber = some g)
    (hresting : pc.resting = none) : ∀ v < s.workerCount, ¬(s.workers v).rests g := by
  intro v hv hrests
  rw [← hat.2.2] at hfiber hresting
  obtain ⟨hone, htwo⟩ := Worker.refs_of_held hfiber hresting
  obtain ⟨-, hself, hothers⟩ :=
    alone hv (h.rest v hv g hrests).one (Worker.refs_pos_of_rests hrests)
  by_cases hvw : w = v
  · subst hvw
    have := htwo hrests
    omega
  · have := hothers w hat.2.1 hvw
    omega

variable {x : Fiber}

/-- What the test of `tryCacheCallbackFiber` says. -/
theorem reusable_iff {owner : ℕ} : x.isReusableSchedulerCallback owner w = true ↔
    (x.isSchedulerCallback = true ∧ x.schedulerOwnerId = owner ∧ x.schedulerOriginWorker = w) ∧
      x.isMainFiber = false ∧ x.state = .term ∧ x.context = none ∧ x.callerContext = false := by
  simp only [Fiber.isReusableSchedulerCallback, Bool.and_eq_true, beq_iff_eq, Bool.not_eq_true',
    Option.isNone_iff_eq_none, and_assoc]

theorem not_rests_of_state (h : Inv s) (hg : (s.fibers g).state ≠ .term) :
    ∀ w < s.workerCount, ¬(s.workers w).rests g := by
  intro w hw hrests
  exact hg (reusable_iff.mp (h.rest w hw g hrests).reusable).2.2.1

theorem not_rests_of_useCount (h : Inv s) (hg : s.useCount g ≠ 1) :
    ∀ w < s.workerCount, ¬(s.workers w).rests g :=
  fun w hw hrests => hg (h.rest w hw g hrests).one

/-- The functions that leave mark and stack alone. -/
structure Alike (x y : Fiber) : Prop where
  callback : y.isSchedulerCallback = x.isSchedulerCallback
  owner : y.schedulerOwnerId = x.schedulerOwnerId
  worker : y.schedulerOriginWorker = x.schedulerOriginWorker
  stackBlock : y.stackBlock = x.stackBlock

/-- Somebody does something with a Fiber that is not at rest. -/
theorem touch (h : Inv s) (hg : ∀ w < s.workerCount, ¬(s.workers w).rests g)
    (hx : Alike (s.fibers g) x) (e : ℕ) :
    Inv { s with
      fibers := Function.update s.fibers g x
      external := Function.update s.external g e } := by
  have hsize : ∀ f, (stackBytes (Function.update s.fibers g x f) : ℤ) = s.size f := by
    intro f
    by_cases hfg : f = g
    · subst hfg
      rw [Function.update_self, size, stackBytes, stackBytes, hx.stackBlock]
    · rw [Function.update_of_ne hfg, size]
  refine ⟨h.bound, h.full, fun w hw f hf => ?_, fun f hf => ?_, h.count, ?_, h.stopped⟩
  · have hfg : f ≠ g := by
      rintro rfl
      exact hg w hw hf
    obtain ⟨hone, hreusable⟩ := h.rest w hw f hf
    refine ⟨?_, ?_⟩
    · rw [useCount] at hone ⊢
      dsimp only
      rw [Function.update_of_ne hfg, Function.update_of_ne hfg]
      exact hone
    · dsimp only
      rw [Function.update_of_ne hfg]
      exact hreusable
  · have hold := h.marked f hf
    rw [Marked] at hold ⊢
    dsimp only
    by_cases hfg : f = g
    · subst hfg
      rw [Function.update_self, hx.callback, hx.owner, hx.worker, hx.stackBlock]
      exact hold
    · rw [Function.update_of_ne hfg]
      exact hold
  · refine h.bytes.trans (Finset.sum_congr rfl fun w _ => ?_)
    exact (Worker.tallyBytes_congr fun f _ => hsize f).symm

theorem fail (h : Inv s) (e : Failure) : Inv (s.fail e) := by
  cases e <;> exact ⟨h.bound, h.full, fun w hw f hf =>
    ⟨(h.rest w hw f hf).one, (h.rest w hw f hf).reusable⟩, h.marked, h.count, h.bytes, h.stopped⟩

/-- A new Fiber. -/
theorem allot (h : Inv s) {origin : Option ℕ} (e : ℕ)
    (hx : x.isSchedulerCallback = true → x.schedulerOwnerId = s.schedulerOwnerId →
      origin = some x.schedulerOriginWorker ∧ x.stackBlock ≠ none) :
    Inv (s.allot x e origin) := by
  have hold : ∀ {w f : ℕ}, w < s.workerCount → (s.workers w).refs f ≠ 0 → f ≠ s.fiberCount :=
    fun hw hf => Nat.ne_of_lt (h.bound _ hw _ hf)
  refine ⟨fun w hw f hf => Nat.lt_succ_of_lt (h.bound w hw f hf), h.full, fun w hw f hf => ?_,
    fun f hf => ?_, h.count, ?_, h.stopped⟩
  · have hpos := Worker.refs_pos_of_rests hf
    change 1 ≤ (s.workers w).refs f at hpos
    have hne : f ≠ s.fiberCount := hold hw (by omega)
    obtain ⟨hone, hreusable⟩ := h.rest w hw f hf
    refine ⟨?_, ?_⟩
    · rw [useCount] at hone ⊢
      simp only [State.allot]
      rw [Function.update_of_ne hne, Function.update_of_ne hne]
      exact hone
    · simp only [State.allot]
      rw [Function.update_of_ne hne]
      exact hreusable
  · simp only [Marked, State.allot]
    by_cases hne : f = s.fiberCount
    · subst hne
      rw [Function.update_self, Function.update_self]
      exact hx
    · rw [Function.update_of_ne hne, Function.update_of_ne hne]
      exact h.marked f (Nat.lt_of_le_of_ne (Nat.le_of_lt_succ hf) hne)
  · refine h.bytes.trans (Finset.sum_congr rfl fun w hw => ?_)
    refine (Worker.tallyBytes_congr fun f hf => ?_).symm
    rw [size, size]
    simp only [State.allot]
    rw [Function.update_of_ne (hold (Finset.mem_range.mp hw) hf)]

/-! ### The steps -/

theorem op_alike {y : Fiber} (op : Op) (h : op.apply x = .ok y) : Alike x y := by
  cases op with
  | resume =>
    obtain ⟨-, rfl⟩ := Fiber.resume_ok h
    exact ⟨rfl, rfl, rfl, rfl⟩
  | yield =>
    simp only [Op.apply] at h
    split at h
    · cases h
    · rename_i z hz
      cases h
      rw [Fiber.resumed_eq, Fiber.yield_ok hz]
      exact ⟨rfl, rfl, rfl, rfl⟩
  | finish exit =>
    cases h
    rw [Fiber.resumed_eq]
    exact ⟨rfl, rfl, rfl, rfl⟩
  | reset cb error =>
    have hreset := (Fiber.reset_ok h).reset cb error
    rw [show x.reset cb error = .ok y from h] at hreset
    cases error with
    | some e => cases hreset
    | none =>
      cases hreset
      exact ⟨rfl, rfl, rfl, rfl⟩

section

variable (h : Inv s)
include h

theorem setFiber (hg : ∀ w < s.workerCount, ¬(s.workers w).rests g) {x : Fiber}
    (hx : Alike (s.fibers g) x) : Inv (s.setFiber g x) := by
  have htouch := h.touch hg hx (s.external g)
  rw [Function.update_eq_self] at htouch
  exact htouch

theorem setExternal (hg : ∀ w < s.workerCount, ¬(s.workers w).rests g) (e : ℕ) :
    Inv { s with external := Function.update s.external g e } := by
  have htouch := h.touch (x := s.fibers g) hg ⟨rfl, rfl, rfl, rfl⟩ e
  rw [Function.update_eq_self] at htouch
  exact htouch

theorem setPc {pc : Pc} (hat : s.at w pc) (pc' : Pc) (hpc : pc ≠ .exited)
    (hfiber : pc'.fiber = pc.fiber ∨ pc'.fiber = none)
    (hresting : pc'.resting = pc.resting ∨ pc'.resting = none)
    (hcount : pc'.surplus = pc.surplus)
    (hbytes : pc'.surplusBytes s.size = pc.surplusBytes s.size) : Inv (s.setPc w pc') := by
  refine h.goto hat pc' hpc hfiber hresting ?_ ?_
  · rw [hcount, sub_self, add_zero]
  · rw [hbytes, sub_self, add_zero]

theorem hold {pc : Pc} (hat : s.at w pc) (hpc : pc ≠ .exited)
    (hfiber : pc.fiber = none) (hcount : pc.surplus = 0) (hbytes : pc.surplusBytes s.size = 0)
    (hg : g < s.fiberCount) (hexternal : 0 < s.external g) : Inv (s.hold w g) := by
  have hw := hat.2.1
  have hwpc := hat.2.2
  have hrefs : ∀ f, ({ s.workers w with pc := .acquired g } : Worker).refs f =
      (s.workers w).refs f + if g = f then 1 else 0 := by
    intro f
    have hold : (s.workers w).refs f = (s.workers w).callbackFiberCache.count f := by
      rw [Worker.refs, hwpc, hfiber, if_neg nofun, zero_add]
    rw [hold, Worker.refs]
    simp only [Pc.fiber, Option.some.injEq]
    omega
  refine h.work hw (h.not_stopped hat hpc)
    (fun f => ?_) (fun f hf => ?_) (h.full w hw) (fun f hf => h.rest w hw f ?_) ?_ ?_
  · rw [hrefs]
    by_cases hfg : f = g
    · subst hfg
      rw [Function.update_self, if_pos rfl]
      omega
    · rw [Function.update_of_ne hfg, if_neg (Ne.symm hfg)]
      omega
  · rw [hrefs] at hf
    by_cases hfg : g = f
    · rw [← hfg]
      exact hg
    · rw [if_neg hfg, add_zero] at hf
      exact h.bound w hw f hf
  · rcases hf with hmem | hpc
    · exact .inl hmem
    · cases hpc
  · rw [Worker.tally, Worker.tally, hwpc, hcount]
    simp only [Pc.surplus, sub_self, add_zero]
    rfl
  · rw [Worker.tallyBytes, Worker.tallyBytes, hwpc, hbytes]
    simp only [Pc.surplusBytes, sub_self, add_zero]
    rfl

theorem takeFiber (hat : s.at w .top) (hg : g < s.fiberCount)
    (hexternal : 0 < s.external g) : Inv (s.takeFiber w g) := by
  simp only [State.takeFiber]
  split
  · exact h.hold hat nofun rfl rfl rfl hg hexternal
  · exact h.fail _

/-- A Fiber is taken out of the cache: the reference of the worker stays. -/
theorem pop (hat : s.at w .top) {cache : List ℕ}
    (hcache : (s.workers w).callbackFiberCache = g :: cache) (cb hits : ℕ) :
    Inv { s.setWorker w ⟨.popped g cb, cache⟩ with callbackCacheHits := hits } := by
  have hw := hat.2.1
  have hwpc := hat.2.2
  have hrefs : ∀ f, (⟨.popped g cb, cache⟩ : Worker).refs f = (s.workers w).refs f := by
    intro f
    simp only [Worker.refs, hwpc, hcache, Pc.fiber, Option.some.injEq, reduceCtorEq, if_false,
      List.count_cons, beq_iff_eq]
    split <;> push_cast <;> omega
  have hfull := h.full w hw
  rw [hcache, List.length_cons] at hfull
  refine h.work hw (h.not_stopped hat nofun)
    (fun f => ?_) (fun f hf => ?_) (by dsimp only; omega) (fun f hf => h.rest w hw f ?_) ?_ ?_
  · rw [hrefs]
    rfl
  · rw [hrefs] at hf
    exact h.bound w hw f hf
  · rw [Worker.rests, hcache]
    rcases hf with hmem | hpc
    · exact .inl (List.mem_cons_of_mem g hmem)
    · cases hpc
      exact .inl List.mem_cons_self
  · rw [Worker.tally, Worker.tally, hwpc, hcache]
    simp only [Pc.surplus, List.length_cons]
    change s.callbackCachedCount = _
    push_cast
    omega
  · rw [Worker.tallyBytes, Worker.tallyBytes, hwpc, hcache]
    simp only [Pc.surplusBytes, List.map_cons, List.sum_cons]
    change s.callbackCachedBytes = _
    omega

theorem takeCallback (hat : s.at w .top) (cb : ℕ) : Inv (s.takeCallback w cb) := by
  simp only [State.takeCallback]
  split
  · rename_i f cache hcache
    exact h.pop hat hcache cb _
  · exact h.goto hat (.creating cb) nofun (.inr rfl) (.inr rfl) (add_zero _).symm (add_zero _).symm

variable {cb : ℕ}

theorem subCount (hat : s.at w (.popped g cb)) : Inv (s.subCount w g cb) := by
  apply h.goto hat (.uncounted g cb) nofun (.inl rfl) (.inl rfl)
  · simp only [Pc.surplus]
    omega
  · simp only [Pc.surplusBytes, sub_self, add_zero]
    rfl

theorem subBytes (hat : s.at w (.uncounted g cb)) : Inv (s.subBytes w g cb) := by
  apply h.goto hat (.resetting g cb) nofun (.inl rfl) (.inl rfl)
  · simp only [Pc.surplus, sub_self, add_zero]
    rfl
  · simp only [Pc.surplusBytes, size]
    omega

theorem reset (hat : s.at w (.resetting g cb)) (error : Option ℕ) : Inv (s.reset w g cb error) := by
  simp only [State.reset]
  split
  · exact (h.setPc hat .top nofun (.inr rfl) (.inr rfl) rfl rfl).fail _
  · rename_i x hx
    -- once the Fiber is acquired it is not at rest
    have hpc : Inv (s.setPc w (.acquired g)) := h.setPc hat _ nofun (.inl rfl) (.inr rfl) rfl rfl
    have hat' : (s.setPc w (.acquired g)).at w (.acquired g) := by
      refine ⟨hat.1, hat.2.1, ?_⟩
      simp only [State.setPc, setWorker, Function.update_self]
    exact hpc.setFiber (hpc.not_rests_of_held hat' rfl rfl) (op_alike (.reset cb error) hx)

theorem create (hat : s.at w (.creating cb))
    (acquire : Except ℕ Stack.FiberStackBlock) (error : Option ℕ) :
    Inv (s.create w cb acquire error) := by
  have htop : Inv (s.setPc w .top) := h.setPc hat _ nofun (.inr rfl) (.inr rfl) rfl rfl
  simp only [State.create]
  split
  · exact htop
  · split
    · exact htop
    · split
      · exact htop
      · rename_i x hx
        have hmark : (x.markSchedulerCallback s.schedulerOwnerId w).stackBlock ≠ none := by
          rw [Construction.build_ok hx]
          exact nofun
        have hallot : Inv (s.allot (x.markSchedulerCallback s.schedulerOwnerId w) 1 (some w)) :=
          h.allot 1 fun _ _ => ⟨rfl, hmark⟩
        -- the reference of the new Fiber is that of `run`
        have hhold := hallot.hold hat nofun rfl rfl rfl (Nat.lt_succ_self _) (by
          simp [State.allot])
        simpa [State.hold, State.allot, State.setPc, setWorker] using hhold

theorem resume (hat : s.at w (.acquired g)) : Inv (s.resume w g) := by
  simp only [State.resume]
  split
  · exact (h.setPc hat (.returned g) nofun (.inl rfl) (.inr rfl) rfl rfl).fail _
  · rename_i x hx
    have hset := h.setFiber (h.not_rests_of_held hat rfl rfl) (op_alike .resume hx)
    exact hset.setPc hat (.running g) nofun (.inl rfl) (.inr rfl) rfl rfl

theorem switchBack (hat : s.at w (.running g)) (op : Op) : Inv (s.switchBack w g op) := by
  simp only [State.switchBack]
  split
  · exact h.fail _
  · rename_i x hx
    have hset := h.setFiber (h.not_rests_of_held hat rfl rfl) (op_alike op hx)
    exact hset.setPc hat (.returned g) nofun (.inl rfl) (.inr rfl) rfl rfl

theorem addCount {bytes : ℕ} (hat : s.at w (.pushed bytes)) : Inv (s.addCount w bytes) := by
  apply h.goto hat (.counted bytes) nofun (.inr rfl) (.inr rfl)
  · simp only [Pc.surplus]
    omega
  · simp only [Pc.surplusBytes, sub_self, add_zero]
    rfl

theorem addBytes {bytes : ℕ} (hat : s.at w (.counted bytes)) : Inv (s.addBytes w bytes) := by
  apply h.goto hat .top nofun (.inr rfl) (.inr rfl)
  · simp only [Pc.surplus, sub_self, add_zero]
    rfl
  · simp only [Pc.surplusBytes]
    omega

/-- A Fiber comes to rest. -/
theorem push (hat : s.at w (.returned g)) (hrest : s.Rest w g)
    (hroom : (s.workers w).callbackFiberCache.length < s.callbackFiberCachePerWorker) :
    Inv (s.setWorker w ⟨.pushed (stackBytes (s.fibers g)),
      g :: (s.workers w).callbackFiberCache⟩) := by
  have hw := hat.2.1
  have hwpc := hat.2.2
  have hrefs : ∀ f, (⟨.pushed (stackBytes (s.fibers g)),
      g :: (s.workers w).callbackFiberCache⟩ : Worker).refs f = (s.workers w).refs f := by
    intro f
    simp only [Worker.refs, hwpc, Pc.fiber, Option.some.injEq, reduceCtorEq, if_false,
      List.count_cons, beq_iff_eq]
    split <;> push_cast <;> omega
  refine h.work hw (h.not_stopped hat nofun)
    (fun f => ?_) (fun f hf => ?_) (by simp only [List.length_cons]; omega) (fun f hf => ?_) ?_ ?_
  · rw [hrefs]
  · rw [hrefs] at hf
    exact h.bound w hw f hf
  · rcases hf with hmem | hpc
    · rcases List.mem_cons.mp hmem with rfl | hmem
      · exact hrest
      · exact h.rest w hw f (.inl hmem)
    · cases hpc
  · rw [Worker.tally, Worker.tally, hwpc]
    simp only [Pc.surplus, List.length_cons]
    push_cast
    omega
  · rw [Worker.tallyBytes, Worker.tallyBytes, hwpc]
    simp only [Pc.surplusBytes, List.map_cons, List.sum_cons, size]
    omega

theorem tryCache (hat : s.at w (.returned g)) (full : Bool) : Inv (s.tryCache w g full) := by
  simp only [State.tryCache]
  split
  · exact h.setPc hat .top nofun (.inr rfl) (.inr rfl) rfl rfl
  · rename_i htest
    split
    · exact h.goto hat .top nofun (.inr rfl) (.inr rfl)
        (by simp [Pc.surplus, State.setPc, setWorker])
        (by simp [Pc.surplusBytes, State.setPc, setWorker])
    · rename_i hroom
      rw [not_or, not_not, Bool.not_eq_false] at htest
      rw [not_or, Nat.not_le] at hroom
      exact h.push hat ⟨htest.1, htest.2⟩ hroom.1

theorem use {op : Op} (hu : s.usable g op) : Inv (s.use g op) := by
  have hrests : ∀ w < s.workerCount, ¬(s.workers w).rests g := by
    have hrunning : (s.fibers g).state = .running → ∀ w < s.workerCount, ¬(s.workers w).rests g :=
      fun hstate => h.not_rests_of_state (by rw [hstate]; exact nofun)
    cases op with
    | resume => exact h.not_rests_of_external hu
    | yield => exact hrunning hu.1.2
    | finish exit => exact hrunning hu.1.2
    | reset cb error => exact h.not_rests_of_external hu
  simp only [State.use]
  split
  · exact h.fail _
  · rename_i x hx
    exact h.setFiber hrests (op_alike op hx)

theorem destroy (huse : s.useCount g = 0) : Inv (s.destroy g) := by
  simp only [State.destroy]
  split
  · exact h.fail _
  · exact h.setFiber (h.not_rests_of_useCount (by omega)) ⟨rfl, rfl, rfl, rfl⟩

end

/-! ### `stop` -/

theorem foldl_sub (l : List ℕ) (size : ℕ → ℤ) (n : ℤ) :
    l.foldl (fun n f => n - size f) n = n - (l.map size).sum := by
  induction l generalizing n with
  | nil => simp
  | cons f l ih =>
    rw [List.foldl_cons, ih, List.map_cons, List.sum_cons]
    omega

theorem clearWorker (h : Inv s) (hrun : s.stopped = false) (hw : w < s.workerCount)
    (hpc : (s.workers w).pc = .exited) : Inv (s.clearWorker w) := by
  refine h.work hw hrun (fun f => ?_) (fun f hf => ?_)
    (Nat.zero_le _) (fun f hf => ?_) ?_ ?_
  · simp only [Worker.refs, List.count_nil]
    change (s.external f : ℤ) + _ ≤ _
    omega
  · simp [Worker.refs, hpc, Pc.fiber] at hf
  · simp [Worker.rests, hpc, Pc.resting] at hf
  · rw [foldl_sub _ fun _ => 1, Worker.tally, Worker.tally, hpc]
    simp [Pc.surplus]
    omega
  · have hfold := foldl_sub (s.workers w).callbackFiberCache s.size s.callbackCachedBytes
    rw [Worker.tallyBytes, Worker.tallyBytes, hpc]
    simp only [Pc.surplusBytes, List.map_nil, List.sum_nil]
    exact hfold.trans (by omega)

/-- The loop of `clearCallbackFiberCaches` empties one cache after the other. -/
theorem clear (h : Inv s) (hrun : s.stopped = false)
    (hexited : ∀ w < s.workerCount, (s.workers w).pc = .exited) {n : ℕ} (hn : n ≤ s.workerCount) :
    let t := (List.range n).foldl State.clearWorker s
    Inv t ∧ t.stopped = false ∧ t.workerCount = s.workerCount ∧
      (∀ w < s.workerCount, (t.workers w).pc = .exited) ∧
      ∀ w < n, t.workers w = ⟨.exited, []⟩ := by
  induction n with
  | zero => exact ⟨h, hrun, rfl, hexited, nofun⟩
  | succ n ih =>
    obtain ⟨hi, hstop, hcount, hpc, hempty⟩ := ih (by omega)
    rw [List.range_succ, List.foldl_append]
    have hn' : n < ((List.range n).foldl State.clearWorker s).workerCount := by omega
    refine ⟨hi.clearWorker hstop hn' (hpc n (by omega)), hstop, hcount, fun w hw => ?_,
      fun w hw => ?_⟩
    · simp only [List.foldl_cons, List.foldl_nil, State.clearWorker, setWorker]
      by_cases hwn : w = n
      · subst hwn
        rw [Function.update_self]
        exact hpc w hw
      · rw [Function.update_of_ne hwn]
        exact hpc w hw
    · simp only [List.foldl_cons, List.foldl_nil, State.clearWorker, setWorker]
      by_cases hwn : w = n
      · subst hwn
        rw [Function.update_self, hpc w (by omega)]
      · rw [Function.update_of_ne hwn]
        exact hempty w (by omega)

theorem stop (h : Inv s) (hrun : s.stopped = false)
    (hexited : ∀ w < s.workerCount, (s.workers w).pc = .exited) : Inv s.stop := by
  obtain ⟨hi, -, hcount, -, hempty⟩ := h.clear hrun hexited (Nat.le_refl _)
  refine ⟨hi.bound, hi.full, fun w hw f hf => ?_, hi.marked, hi.count, hi.bytes, fun _ w hw => ?_⟩
  · obtain ⟨hone, hreusable⟩ := hi.rest w hw f hf
    exact ⟨hone, hreusable⟩
  · exact hempty w (by
      have : w < ((List.range s.workerCount).foldl State.clearWorker s).workerCount := hw
      omega)

theorem next (h : Inv s) {a : Action} (he : callbacks.enabled s a) : Inv (callbacks.next s a) := by
  cases a with
  | takeFiber w f => exact h.takeFiber he.1 he.2.1 he.2.2
  | takeCallback w cb => exact h.takeCallback he cb
  | subCount w f cb => exact h.subCount he
  | subBytes w f cb => exact h.subBytes he
  | reset w f cb error => exact h.reset he error
  | create w cb acquire error => exact h.create he acquire error
  | resume w f => exact h.resume he
  | yield w f => exact h.switchBack he .yield
  | finish w f exit => exact h.switchBack he (.finish exit)
  | tryCache w f full => exact h.tryCache he full
  | addCount w bytes => exact h.addCount he
  | addBytes w bytes => exact h.addBytes he
  | exit w => exact h.setPc he .exited nofun (.inr rfl) (.inr rfl) rfl rfl
  | make x => exact h.allot 1 fun hc ho => absurd ⟨hc, ho⟩ he.2.2
  | use f op => exact h.use he.2.2
  | leak f =>
    rcases he.2.2 with hexternal | hrunning
    · exact h.setExternal (h.not_rests_of_external hexternal) _
    · exact h.setExternal (h.not_rests_of_state (by rw [hrunning.2]; exact nofun)) _
  | drop f => exact h.setExternal (h.not_rests_of_external he.2.2) _
  | destroy f => exact h.destroy he.2.2.2
  | stop => exact h.stop he.2.1 he.2.2

theorem of_init (h : callbacks.init s) : Inv s := by
  obtain ⟨hfibers, hworkers, -, hcount, hbytes, hstopped, -⟩ := h
  refine ⟨fun w _ f hf => ?_, fun w _ => ?_, fun w _ f hf => ?_, fun f hf => ?_, ?_, ?_,
    fun hs => ?_⟩
  · rw [hworkers] at hf
    exact absurd rfl hf
  · rw [hworkers]
    exact Nat.zero_le _
  · rw [hworkers] at hf
    rcases hf with hmem | hpc
    · cases hmem
    · cases hpc
  · omega
  · rw [hcount]
    simp [hworkers, Worker.tally, Pc.surplus]
  · rw [hbytes]
    simp [hworkers, Worker.tallyBytes, Pc.surplusBytes]
  · rw [hstopped] at hs
    cases hs

/-! ### Runs -/

theorem of_reach (h : callbacks.Reach s) : Inv s :=
  h.invariant (fun _ => of_init) fun _ _ hi he => hi.next he

theorem resettable (h : Inv s) (hw : w < s.workerCount) (hf : (s.workers w).rests f) :
    s.origin f = some w ∧ (s.fibers f).Resettable ∧ (s.fibers f).callerContext = false := by
  have hpos := Worker.refs_pos_of_rests hf
  obtain ⟨⟨hcallback, howner, horigin⟩, hmain, hterm, hcontext, hcaller⟩ :=
    reusable_iff.mp (h.rest w hw f hf).reusable
  obtain ⟨hmade, hstack⟩ := h.marked f (h.bound w hw f (by omega)) hcallback howner
  rw [horigin] at hmade
  exact ⟨hmade, ⟨hmain, hterm, hcontext, hstack⟩, hcaller⟩

end Inv

end State

/-- The worker is not between a change of its cache and the counters. -/
def Pc.settled : Pc → Bool
  | .popped _ _ | .uncounted _ _ | .pushed _ | .counted _ => false
  | _ => true

theorem Worker.tally_settled {x : Worker} (h : x.pc.settled = true) (size : ℕ → ℤ) :
    x.tally = x.callbackFiberCache.length ∧
      x.tallyBytes size = (x.callbackFiberCache.map size).sum := by
  rw [tally, tallyBytes]
  cases hpc : x.pc <;> first
    | exact ⟨add_zero _, add_zero _⟩
    | (rw [hpc] at h; cases h)

/-- **The caches of callback Fibers.**  A cache is within its limit.  Each Fiber in it has been made
by `acquireCallbackFiber` of its worker, is as `reset` needs it, and has no other reference; a Fiber
taken out of it is still so when it is reset.  The counters differ from what is cached by what the
workers have moved and not counted yet, and are zero after `stop`. -/
theorem callback_cache {s : State} (h : callbacks.Reach s) :
    (∀ w < s.workerCount,
      (s.workers w).callbackFiberCache.length ≤ s.callbackFiberCachePerWorker ∧
      ∀ f ∈ (s.workers w).callbackFiberCache, s.origin f = some w ∧ (s.fibers f).Resettable ∧
        (s.fibers f).callerContext = false ∧ s.useCount f = 1) ∧
    (∀ w < s.workerCount, ∀ f, (s.workers w).pc.resting = some f → (s.fibers f).Resettable) ∧
    (s.callbackCachedCount = ∑ w ∈ range s.workerCount, (s.workers w).tally ∧
      s.callbackCachedBytes = ∑ w ∈ range s.workerCount, (s.workers w).tallyBytes s.size) ∧
    ((∀ w < s.workerCount, (s.workers w).pc.settled = true) →
      s.callbackCachedCount =
        ∑ w ∈ range s.workerCount, ((s.workers w).callbackFiberCache.length : ℤ) ∧
      s.callbackCachedBytes =
        ∑ w ∈ range s.workerCount, ((s.workers w).callbackFiberCache.map s.size).sum) ∧
    (s.stopped = true → s.callbackCachedCount = 0 ∧ s.callbackCachedBytes = 0 ∧
      ∀ w < s.workerCount, (s.workers w).callbackFiberCache = []) := by
  have hi := State.Inv.of_reach h
  refine ⟨fun w hw => ⟨hi.full w hw, fun f hf => ?_⟩, fun w hw f hf => ?_, ⟨hi.count, hi.bytes⟩,
    fun hsettled => ⟨?_, ?_⟩, fun hs => ⟨?_, ?_, fun w hw => ?_⟩⟩
  · obtain ⟨horigin, hreset, hcaller⟩ := hi.resettable hw (.inl hf)
    exact ⟨horigin, hreset, hcaller, (hi.rest w hw f (.inl hf)).one⟩
  · exact (hi.resettable hw (.inr hf)).2.1
  · refine hi.count.trans (Finset.sum_congr rfl fun w hw => ?_)
    exact (Worker.tally_settled (hsettled w (Finset.mem_range.mp hw)) s.size).1
  · refine hi.bytes.trans (Finset.sum_congr rfl fun w hw => ?_)
    exact (Worker.tally_settled (hsettled w (Finset.mem_range.mp hw)) s.size).2
  · refine hi.count.trans (Finset.sum_eq_zero fun w hw => ?_)
    rw [hi.stopped hs w (Finset.mem_range.mp hw)]
    rfl
  · refine hi.bytes.trans (Finset.sum_eq_zero fun w hw => ?_)
    rw [hi.stopped hs w (Finset.mem_range.mp hw)]
    rfl
  · rw [hi.stopped hs w hw]

/-- A scheduler with one worker and a cache for one Fiber. -/
def oneWorker : State where
  schedulerOwnerId := 1
  callbackFiberCachePerWorker := 1
  stackAllocator := 0
  workerCount := 1
  workers := fun _ => ⟨.top, []⟩
  fibers := fun _ => .raw none none false
  fiberCount := 0
  external := fun _ => 0
  origin := fun _ => none
  callbackCacheHits := 0
  callbackCacheMisses := 0
  callbackCacheEvictions := 0
  callbackCachedCount := 0
  callbackCachedBytes := 0
  stopped := false
  panicked := false

/-- The first callback throws. -/
def firstCallback : List Action :=
  [.takeCallback 0 7, .create 0 7 (.ok ⟨4096, 4096, 131072, 131072, .malloc, false⟩) none,
    .resume 0 0, .finish 0 0 (.threw 3), .tryCache 0 0 false, .addCount 0 131072,
    .addBytes 0 131072]

/-- Its Fiber is cached, the next callback finds it there, and `stop` finds it there again. -/
theorem callback_cache_one :
    ((callbacks.run oneWorker firstCallback).callbackCachedCount = 1 ∧
      (callbacks.run oneWorker firstCallback).callbackCachedBytes = 131072) ∧
    ((callbacks.run oneWorker (firstCallback ++ [.takeCallback 0 8])).fibers 0).Resettable ∧
    (callbacks.run oneWorker (firstCallback ++ [.exit 0, .stop])).callbackCachedBytes = 0 := by
  have hinit : callbacks.init oneWorker :=
    ⟨rfl, fun _ => rfl, fun _ => rfl, rfl, rfl, rfl, rfl⟩
  have hcached : callbacks.Reach (callbacks.run oneWorker firstCallback) :=
    Machine.reachVia_run (.start hinit) (by decide +kernel)
  have hhit : callbacks.Reach (callbacks.run oneWorker (firstCallback ++ [.takeCallback 0 8])) :=
    Machine.reachVia_run (.start hinit) (by decide +kernel)
  have hstop : callbacks.Reach (callbacks.run oneWorker (firstCallback ++ [.exit 0, .stop])) :=
    Machine.reachVia_run (.start hinit) (by decide +kernel)
  obtain ⟨-, -, -, hcount, -⟩ := callback_cache hcached
  refine ⟨?_, ?_, ?_⟩
  · obtain ⟨hc, hb⟩ := hcount (by decide +kernel)
    rw [hc, hb]
    decide +kernel
  · exact (callback_cache hhit).2.1 0 (by decide +kernel) 0 (by decide +kernel)
  · exact ((callback_cache hstop).2.2.2.2 (by decide +kernel)).2.1

end PulsarRuntime.Scheduler.Callbacks
