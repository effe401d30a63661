import Mathlib.Algebra.BigOperators.Ring.Finset
import PulsarRuntime.Fiber.Model
import PulsarRuntime.Lib.Family

/-!
# The accounts of the stacks

Each acquisition is accounted for: either a live Fiber that is no main Fiber has the block, or the
block has been released once (`Ledger`).  The constructor opens an account, or opens and closes it,
and the destructor closes it; the other functions leave the stack of a Fiber alone.
-/

namespace PulsarRuntime.Fibers

open Finset (range)

namespace Fiber

variable {x y : Fiber}

/-! ### One Fiber -/

theorem resume_ok (h : x.resume = .ok y) :
    (x.resumeInProgress = false ∧ x.state = .ready) ∧ y = { x with
      resumeInProgress := true
      state := .running
      context := none
      callerContext := true } := by
  unfold resume at h
  split at h
  · cases h
  · rename_i hflag
    split at h
    · cases h
    · rename_i hstate
      split at h
      · cases h
      · injection h with hy
        refine ⟨⟨by simpa using hflag, ?_⟩, hy.symm⟩
        cases hs : x.state with
        | ready => rfl
        | running => exact absurd (.inr hs) hstate
        | term => exact absurd (.inl hs) hstate

theorem yield_ok (h : x.yield = .ok y) :
    y = { x with state := .ready, callerContext := false } := by
  unfold yield at h
  split at h
  · cases h
  · split at h
    · cases h
    · injection h with hy
      exact hy.symm

/-- A Fiber whose context can be made anew. -/
structure Resettable (x : Fiber) : Prop where
  main : x.isMainFiber = false
  term : x.state = .term
  context : x.context = none
  stack : x.stackBlock ≠ none

theorem Resettable.reset (h : x.Resettable) (cb : ℕ) (error : Option ℕ) :
    x.reset cb error = match error with
      | some e => .error (.thrown e)
      | none => .ok { x with
          cb := some cb
          exception := none
          context := some .entry
          state := .ready } := by
  unfold Fiber.reset createContext
  rw [if_neg (by simp [h.main]), if_neg (by simp [h.term]), if_neg (by simp [h.context])]
  cases error with
  | some e => rfl
  | none =>
    cases hstack : x.stackBlock with
    | none => exact absurd hstack h.stack
    | some lease => rfl

theorem reset_ok {cb : ℕ} {error : Option ℕ} (h : x.reset cb error = .ok y) : x.Resettable := by
  unfold Fiber.reset createContext at h
  split at h
  · cases h
  · rename_i hmain
    split at h
    · cases h
    · rename_i hterm
      split at h
      · cases h
      · rename_i hcontext
        refine ⟨by simpa using hmain, by simpa using hterm, by simpa using hcontext, ?_⟩
        intro hstack
        rw [hstack] at h
        cases error <;> cases h

/-- The functions that leave the stack alone. -/
structure Kept (x y : Fiber) : Prop where
  live : y.live = x.live
  main : y.isMainFiber = x.isMainFiber
  stackBlock : y.stackBlock = x.stackBlock
  stackAllocator : y.stackAllocator = x.stackAllocator

theorem resumed_eq (x : Fiber) (context : Option Context) : (x.resumed context).1 =
    { x with
      context := context
      resumeInProgress := false
      exception := if x.state = .term then none else x.exception } := by
  simp only [resumed]
  split <;> rfl

/-- What is true of a live Fiber. -/
structure Sound (acquisitions : ℕ → Acquisition) (n : ℕ) (x : Fiber) : Prop where
  main : x.isMainFiber = true → x.stackBlock = none ∧ x.state = .running ∧ x.cb = none
  leased : x.isMainFiber = false → ∃ k < n, x.stackBlock = some ⟨k, (acquisitions k).block⟩ ∧
    x.stackAllocator = some (acquisitions k).allocator
  term : x.state = .term → x.context = none ∧ x.callerContext = false

/-- The code of the Fiber runs, or is in a `resume` of another one. -/
structure Executing (x : Fiber) : Prop where
  live : x.live = true
  main : x.isMainFiber = false
  running : x.state = .running
  flag : x.resumeInProgress = true

/-- The live Fiber has the block of acquisition `k`. -/
def holds (x : Fiber) (k : ℕ) : Bool :=
  x.live && !x.isMainFiber && x.stackBlock.map Lease.ticket == some k

def share (k : ℕ) (x : Fiber) : ℤ := if x.holds k then 1 else 0

/-- What the Fiber contributes to `fiber_count`. -/
def one (x : Fiber) : ℤ := if x.live then 1 else 0

theorem holds_iff {k : ℕ} : x.holds k = true ↔
    x.live = true ∧ x.isMainFiber = false ∧ ∃ b, x.stackBlock = some ⟨k, b⟩ := by
  simp only [holds, Bool.and_eq_true, Bool.not_eq_true', beq_iff_eq, Option.map_eq_some_iff,
    and_assoc]
  refine and_congr_right fun _ => and_congr_right fun _ => ⟨?_, ?_⟩
  · rintro ⟨⟨ticket, b⟩, hblock, rfl⟩
    exact ⟨b, hblock⟩
  · rintro ⟨b, hblock⟩
    exact ⟨⟨k, b⟩, hblock, rfl⟩

theorem share_dead (h : x.live = false) (k : ℕ) : x.share k = 0 := by
  simp [share, holds, h]

theorem share_main (h : x.isMainFiber = true) (k : ℕ) : x.share k = 0 := by
  simp [share, holds, h]

/-- A live Fiber has its own block and no other. -/
theorem share_of_block {j k : ℕ} {b : Stack.FiberStackBlock} (hlive : x.live = true)
    (hmain : x.isMainFiber = false) (h : x.stackBlock = some ⟨k, b⟩) :
    x.share j = if k = j then 1 else 0 := by
  simp [share, holds, hlive, hmain, h]

theorem Kept.share_eq (h : Kept x y) (k : ℕ) : y.share k = x.share k := by
  unfold share holds
  rw [h.live, h.main, h.stackBlock]

theorem Kept.one_eq (h : Kept x y) : y.one = x.one := by
  unfold one
  rw [h.live]

/-- A Fiber that is no main Fiber keeps its stack. -/
theorem Sound.keep {acquisitions : ℕ → Acquisition} {n : ℕ} (h : Sound acquisitions n x)
    (hk : Kept x y) (hmain : x.isMainFiber = false)
    (hterm : y.state = .term → y.context = none ∧ y.callerContext = false) :
    Sound acquisitions n y := by
  refine ⟨fun hy => ?_, fun _ => ?_, hterm⟩
  · rw [hk.main, hmain] at hy
    cases hy
  · rw [hk.stackBlock, hk.stackAllocator]
    exact h.leased hmain

/-- Only a main Fiber is always running. -/
theorem Sound.main_of_ne {acquisitions : ℕ → Acquisition} {n : ℕ} (h : Sound acquisitions n x)
    (hne : x.state ≠ .running) : x.isMainFiber = false := by
  by_contra hmain
  exact hne (h.main (by simpa using hmain)).2.1

end Fiber

theorem Construction.build_ok {c : Construction} {l : Lease} {x : Fiber} (h : c.build l = .ok x) :
    x = { c.object with
      stackBlock := some l
      stackSize := l.block.usableSize
      context := some .entry
      live := true } := by
  unfold build Fiber.createContext at h
  split at h
  · cases h
  · cases hc : c.error with
    | some e =>
      rw [hc] at h
      cases h
    | none =>
      rw [hc] at h
      injection h with hx
      exact hx.symm

namespace Process

variable {p : Process}

/-! ### The accounts -/

structure Ledger (p : Process) : Prop where
  sound : ∀ f < p.curFiberId, (p.fibers f).live = true →
    (p.fibers f).Sound p.acquisitions p.acquired
  account : ∀ k < p.acquired, (p.releases k : ℤ) +
    ∑ f ∈ range p.curFiberId, (p.fibers f).share k = 1
  count : p.fiberCount = ∑ f ∈ range p.curFiberId, (p.fibers f).one

namespace Ledger

variable {f : ℕ} {y : Fiber} (h : Ledger p)
include h

/-- A step that leaves the stack of every Fiber alone. -/
theorem keep (hf : f < p.curFiberId) (hk : Fiber.Kept (p.fibers f) y)
    (hs : y.live = true → y.Sound p.acquisitions p.acquired) : Ledger (p.setFiber f y) := by
  refine ⟨?_, fun k hlt => ?_, ?_⟩
  · exact Family.forall_update
      (P := fun _ (x : Fiber) => x.live = true → x.Sound p.acquisitions p.acquired) h.sound hs
  · dsimp only [setFiber]
    rw [Family.sum_update _ hf, hk.share_eq, sub_self, add_zero]
    exact h.account k hlt
  · dsimp only [setFiber]
    rw [Family.sum_update _ hf, hk.one_eq, sub_self, add_zero]
    exact h.count

/-- A new object without a stack. -/
theorem allot (hshare : ∀ k, y.share k = 0)
    (hs : y.live = true → y.Sound p.acquisitions p.acquired) :
    Ledger { p.allot y with fiberCount := p.fiberCount + y.one } := by
  refine ⟨?_, fun k hlt => ?_, ?_⟩
  · exact Family.forall_add
      (P := fun _ (x : Fiber) => x.live = true → x.Sound p.acquisitions p.acquired) h.sound hs
  · dsimp only [Process.allot]
    rw [Family.sum_add, hshare, add_zero]
    exact h.account k hlt
  · dsimp only [Process.allot]
    rw [Family.sum_add, h.count]

theorem share_acquired (hf : f < p.curFiberId) : (p.fibers f).share p.acquired = 0 := by
  apply if_neg
  intro hholds
  obtain ⟨hlive, hmain, b, hblock⟩ := Fiber.holds_iff.mp hholds
  obtain ⟨k, hk, hlease, -⟩ := (h.sound f hf hlive).leased hmain
  rw [hblock, Option.some.injEq, Lease.mk.injEq] at hlease
  omega

/-- Nobody has the newest block. -/
theorem sum_acquired : ∑ f ∈ range p.curFiberId, (p.fibers f).share p.acquired = 0 :=
  Finset.sum_eq_zero fun _ hf => h.share_acquired (Finset.mem_range.mp hf)

theorem sound_lend (a : ℕ) (b : Stack.FiberStackBlock) :
    ∀ f < p.curFiberId, (p.fibers f).live = true →
      (p.fibers f).Sound (p.lend a b).acquisitions (p.lend a b).acquired := by
  intro f hf hlive
  have hs := h.sound f hf hlive
  refine ⟨hs.main, fun hmain => ?_, hs.term⟩
  obtain ⟨k, hk, hlease⟩ := hs.leased hmain
  refine ⟨k, Nat.lt_succ_of_lt hk, ?_⟩
  simp only [Process.lend]
  rw [Function.update_of_ne (Nat.ne_of_lt hk)]
  exact hlease

/-- A block is acquired and released again. -/
theorem lend_release (a : ℕ) (b : Stack.FiberStackBlock) :
    Ledger ((p.lend a b).release p.acquired) := by
  refine ⟨h.sound_lend a b, fun k hk => ?_, h.count⟩
  simp only [Process.lend, release]
  by_cases hnew : k = p.acquired
  · subst hnew
    rw [Function.update_self, Function.update_self, h.sum_acquired]
    rfl
  · rw [Function.update_of_ne hnew, Function.update_of_ne hnew]
    exact h.account k (Nat.lt_of_le_of_ne (Nat.le_of_lt_succ hk) hnew)

/-- The object under construction gets its block and comes to life. -/
theorem give {f a : ℕ} {b : Stack.FiberStackBlock}
    (hf : f < p.curFiberId) (hdead : (p.fibers f).live = false) (hlive : y.live = true)
    (hmain : y.isMainFiber = false) (hblock : y.stackBlock = some ⟨p.acquired, b⟩)
    (hallocator : y.stackAllocator = some a) (hterm : y.state ≠ .term) :
    Ledger { (p.lend a b).setFiber f y with fiberCount := p.fiberCount + 1 } := by
  refine ⟨?_, fun k hk => ?_, ?_⟩
  · refine Family.forall_update
      (P := fun _ (x : Fiber) => x.live = true →
        x.Sound (p.lend a b).acquisitions (p.lend a b).acquired) (h.sound_lend a b) fun _ => ?_
    refine ⟨fun hy => ?_, fun _ => ⟨p.acquired, Nat.lt_succ_self _, ?_⟩, fun hy => absurd hy hterm⟩
    · rw [hmain] at hy
      cases hy
    · simp only [Process.lend]
      rw [Function.update_self]
      exact ⟨hblock, hallocator⟩
  · simp only [Process.lend, setFiber]
    rw [Family.sum_update _ hf, Fiber.share_dead hdead, Fiber.share_of_block hlive hmain hblock]
    by_cases hnew : k = p.acquired
    · subst hnew
      rw [Function.update_self, h.sum_acquired, if_pos rfl]
      rfl
    · rw [Function.update_of_ne hnew, if_neg (Ne.symm hnew), sub_self, add_zero]
      exact h.account k (Nat.lt_of_le_of_ne (Nat.le_of_lt_succ hk) hnew)
  · simp only [Process.lend, setFiber]
    rw [Family.sum_update _ hf, h.count]
    simp [Fiber.one, hlive, hdead]

/-- A Fiber dies: the others are as they were. -/
theorem sound_dead (f : ℕ) (hdead : y.live = false) :
    ∀ g < p.curFiberId, (Function.update p.fibers f y g).live = true →
      (Function.update p.fibers f y g).Sound p.acquisitions p.acquired := by
  refine Family.forall_update
    (P := fun _ (x : Fiber) => x.live = true → x.Sound p.acquisitions p.acquired) h.sound
    fun hy => ?_
  rw [hdead] at hy
  cases hy

theorem count_dead (hf : f < p.curFiberId)
    (hlive : (p.fibers f).live = true) (hdead : y.live = false) :
    p.fiberCount - 1 = ∑ g ∈ range p.curFiberId, (Function.update p.fibers f y g).one := by
  have hone : (p.fibers f).one = 1 := if_pos hlive
  have hzero : y.one = 0 := if_neg (by simp [hdead])
  rw [Family.sum_update _ hf, h.count, hone, hzero]
  rfl

/-- The Fiber with the block of acquisition `k` dies and releases it. -/
theorem close {f k : ℕ} {b : Stack.FiberStackBlock}
    (hf : f < p.curFiberId) (hlive : (p.fibers f).live = true)
    (hmain : (p.fibers f).isMainFiber = false)
    (hblock : (p.fibers f).stackBlock = some ⟨k, b⟩) (hdead : y.live = false) :
    Ledger { (p.release k).setFiber f y with fiberCount := p.fiberCount - 1 } := by
  refine ⟨h.sound_dead f hdead, fun j hj => ?_, h.count_dead hf hlive hdead⟩
  simp only [release, setFiber] at hj ⊢
  rw [Family.sum_update _ hf, Fiber.share_dead hdead, Fiber.share_of_block hlive hmain hblock]
  have haccount := h.account j hj
  by_cases hjk : j = k
  · subst hjk
    rw [Function.update_self, if_pos rfl]
    push_cast
    omega
  · rw [Function.update_of_ne hjk, if_neg (Ne.symm hjk)]
    omega

/-- A main Fiber dies. -/
theorem closeMain (hf : f < p.curFiberId)
    (hlive : (p.fibers f).live = true) (hmain : (p.fibers f).isMainFiber = true)
    (hdead : y.live = false) :
    Ledger { p.setFiber f y with fiberCount := p.fiberCount - 1 } := by
  refine ⟨h.sound_dead f hdead, fun j hj => ?_, h.count_dead hf hlive hdead⟩
  simp only [setFiber] at hj ⊢
  rw [Family.sum_update _ hf, Fiber.share_main hmain, Fiber.share_dead hdead, sub_self, add_zero]
  exact h.account j hj

/-- The object under construction has no stack and is not counted. -/
theorem start (c : Construction) : Ledger (p.start c) := by
  have hallot := h.allot (y := c.object) (Fiber.share_dead rfl) nofun
  have hzero : c.object.one = 0 := rfl
  rw [hzero, add_zero] at hallot
  exact ⟨hallot.sound, hallot.account, hallot.count⟩

theorem construct (c : Construction) : Ledger (p.construct c).2 := by
  have hstart := h.start c
  simp only [Process.construct]
  split
  · exact hstart
  · split
    · exact hstart
    · split
      · exact hstart.lend_release _ _
      · rename_i x hx
        have hdead : ((p.start c).fibers p.curFiberId).live = false := by
          simp only [Process.start, Process.allot, Function.update_self]
          rfl
        rw [Construction.build_ok hx]
        exact hstart.give (Nat.lt_succ_self _) hdead rfl rfl rfl rfl nofun

theorem getThis (t : ℕ) : Ledger (p.getThis t) := by
  simp only [Process.getThis]
  split
  · exact h
  · have hmain : Fiber.main.Sound p.acquisitions p.acquired := by
      refine ⟨fun _ => ⟨rfl, rfl, rfl⟩, nofun, nofun⟩
    have hallot := h.allot (Fiber.share_main rfl) fun _ => hmain
    exact ⟨hallot.sound, hallot.account, hallot.count⟩

theorem fail (e : Failure) : Ledger (p.fail e) := by
  cases e <;> exact ⟨h.sound, h.account, h.count⟩

theorem resume (hf : f < p.curFiberId) (t : ℕ) : Ledger (p.resume t f) := by
  simp only [Process.resume]
  split
  · exact h.fail _
  · rename_i x hx
    obtain ⟨⟨-, hready⟩, rfl⟩ := Fiber.resume_ok hx
    split
    · exact h.fail _
    · have hkeep := h.keep (y := { p.fibers f with
          resumeInProgress := true
          state := .running
          context := none
          callerContext := true }) hf ⟨rfl, rfl, rfl, rfl⟩ fun hlive => by
        have hs := h.sound f hf hlive
        exact hs.keep ⟨rfl, rfl, rfl, rfl⟩ (hs.main_of_ne (by simp [hready])) nofun
      exact ⟨hkeep.sound, hkeep.account, hkeep.count⟩

theorem switchBack {t f caller : ℕ} {rest : List (ℕ × ℕ)} {x : Fiber}
    (hf : f < p.curFiberId) (hmain : (p.fibers f).isMainFiber = false)
    (hk : Fiber.Kept (p.fibers f) x)
    (hterm : x.state = .term → x.context = none ∧ x.callerContext = false) :
    Ledger (p.switchBack t f caller rest x) := by
  simp only [Process.switchBack]
  split
  · exact h.fail _
  · have hkeep := h.keep hf hk fun hlive => by
      rw [hk.live] at hlive
      exact (h.sound f hf hlive).keep hk hmain hterm
    exact ⟨hkeep.sound, hkeep.account, hkeep.count⟩

theorem reset (hf : f < p.curFiberId) (cb : ℕ) (error : Option ℕ) :
    Ledger (p.reset f cb error).2 := by
  simp only [Process.reset]
  split
  · exact h.fail _
  · rename_i x hx
    have hreset := Fiber.reset_ok hx
    rw [hreset.reset] at hx
    cases error with
    | some e => cases hx
    | none =>
      cases hx
      exact h.keep hf ⟨rfl, rfl, rfl, rfl⟩ fun hlive =>
        (h.sound f hf hlive).keep ⟨rfl, rfl, rfl, rfl⟩ hreset.main nofun

theorem destroy {t f : ℕ} (hf : f < p.curFiberId) (hlive : (p.fibers f).live = true)
    (hterm : (p.fibers f).isMainFiber = false → (p.fibers f).state = .term) :
    Ledger (p.destroy t f) := by
  have hs := h.sound f hf hlive
  simp only [Process.destroy]
  split
  · rename_i hmain
    obtain ⟨k, hk, hblock, hallocator⟩ := hs.leased hmain
    rw [if_neg (by simp [hterm hmain])]
    have hclose := h.close (y := { p.fibers f with
      stackBlock := none
      stackAllocator := none
      stackSize := 0
      live := false }) hf hlive hmain hblock rfl
    simp only [releaseStack, hblock, hallocator, free, setFiber]
    rw [if_neg nofun]
    simp only [Function.update_idem, Function.update_self]
    exact ⟨hclose.sound, hclose.account, hclose.count⟩
  · rename_i hmain
    rw [Bool.not_eq_false] at hmain
    obtain ⟨-, hrunning, hcb⟩ := hs.main hmain
    rw [if_neg (by simp [hcb]), if_neg (by simp [hrunning])]
    have hclose := h.closeMain (y := { p.fibers f with live := false }) hf hlive hmain rfl
    split <;> exact ⟨hclose.sound, hclose.account, hclose.count⟩

end Ledger

end Process

end PulsarRuntime.Fibers
