import PulsarRuntime.Fiber.Ledger

/-!
# The lives of Fibers

The Fibers whose code runs on some thread are live, in state `RUNNING`, and nowhere else (`Nests`).
So a Fiber that has terminated is on no thread when its stack is released or used again.  Together
with the accounts of the stacks this says what becomes of stacks and Fibers in every run.
-/

namespace PulsarRuntime.Fibers

open Finset (range)

namespace Process

variable {p : Process}

/-! ### Who runs -/

/-- The Fibers on thread `t`. -/
def stack (p : Process) (t : ℕ) : List ℕ := (p.threads t).nest.map Prod.fst

structure Nests (p : Process) : Prop where
  executing : ∀ t, ∀ f ∈ p.stack t, f < p.curFiberId ∧ (p.fibers f).Executing
  nodup : ∀ t, (p.stack t).Nodup
  apart : ∀ t u, t ≠ u → (p.stack t).Disjoint (p.stack u)

namespace Nests

variable {q : Process}

/-- A step that has nothing to do with the Fibers on the threads. -/
theorem frame (h : Nests p) (hstack : ∀ t, q.stack t = p.stack t)
    (hcount : p.curFiberId ≤ q.curFiberId)
    (hfibers : ∀ t, ∀ f ∈ p.stack t, q.fibers f = p.fibers f) : Nests q := by
  refine ⟨fun t f hf => ?_, fun t => ?_, fun t u htu => ?_⟩
  · rw [hstack] at hf
    rw [hfibers t f hf]
    exact ⟨Nat.lt_of_lt_of_le (h.executing t f hf).1 hcount, (h.executing t f hf).2⟩
  · rw [hstack]
    exact h.nodup t
  · rw [hstack, hstack]
    exact h.apart t u htu

/-- A Fiber that is on no thread changes. -/
theorem change (h : Nests p) {f : ℕ} {x : Fiber} (hout : ¬(p.fibers f).Executing)
    (hstack : ∀ t, q.stack t = p.stack t) (hcount : p.curFiberId ≤ q.curFiberId)
    (hfibers : q.fibers = Function.update p.fibers f x) : Nests q := by
  refine h.frame hstack hcount fun t g hg => ?_
  rw [hfibers, Function.update_of_ne]
  rintro rfl
  exact hout (h.executing t g hg).2

theorem fail (h : Nests p) (e : Failure) : Nests (p.fail e) := by
  cases e <;> exact h.frame (fun _ => rfl) (Nat.le_refl _) fun _ _ _ => rfl

variable {rest : List (ℕ × ℕ)} {t f caller : ℕ}

section

variable (h : Nests p)
include h

/-- The Fiber on top of thread `t` leaves it. -/
theorem pop {x : Fiber} {th : Thread}
    (hnest : (p.threads t).nest = (f, caller) :: rest) (hth : th.nest = rest) :
    Nests ((p.setFiber f x).setThread t th) := by
  have htop : p.stack t = f :: rest.map Prod.fst := by
    rw [stack, hnest]
    rfl
  have hself : ((p.setFiber f x).setThread t th).stack t = rest.map Prod.fst := by
    simp only [stack, setThread, Function.update_self, hth]
  have hother : ∀ u ≠ t, ((p.setFiber f x).setThread t th).stack u = p.stack u := by
    intro u hu
    simp only [stack, setThread, Function.update_of_ne hu, setFiber]
  have hnodup := h.nodup t
  rw [htop, List.nodup_cons] at hnodup
  have hsub : ∀ u, ((p.setFiber f x).setThread t th).stack u ⊆ p.stack u := by
    intro u g hg
    by_cases hu : u = t
    · subst hu
      rw [hself] at hg
      rw [htop]
      exact List.mem_cons_of_mem f hg
    · rw [hother u hu] at hg
      exact hg
  -- the one that leaves is nowhere any more
  have hgone : ∀ u, f ∉ ((p.setFiber f x).setThread t th).stack u := by
    intro u hf
    by_cases hu : u = t
    · subst hu
      rw [hself] at hf
      exact hnodup.1 hf
    · rw [hother u hu] at hf
      exact h.apart t u (Ne.symm hu) (by rw [htop]; exact List.mem_cons_self) hf
  refine ⟨fun u g hg => ?_, fun u => ?_, fun u v huv => ?_⟩
  · have hgf : g ≠ f := by
      rintro rfl
      exact hgone u hg
    simp only [setThread, setFiber]
    rw [Function.update_of_ne hgf]
    exact h.executing u g (hsub u hg)
  · by_cases hu : u = t
    · subst hu
      rw [hself]
      exact hnodup.2
    · rw [hother u hu]
      exact h.nodup u
  · exact fun g hgu hgv => h.apart u v huv (hsub u hgu) (hsub v hgv)

/-- A Fiber comes on thread `t`. -/
theorem push {x : Fiber} {th : Thread} (hf : f < p.curFiberId)
    (hout : ¬(p.fibers f).Executing) (hx : x.Executing)
    (hth : th.nest = (f, caller) :: (p.threads t).nest) :
    Nests ((p.setFiber f x).setThread t th) := by
  have hself : ((p.setFiber f x).setThread t th).stack t = f :: p.stack t := by
    simp only [stack, setThread, Function.update_self, hth, List.map_cons]
  have hother : ∀ u ≠ t, ((p.setFiber f x).setThread t th).stack u = p.stack u := by
    intro u hu
    simp only [stack, setThread, Function.update_of_ne hu, setFiber]
  have hnew : ∀ u, f ∉ p.stack u := fun u hmem => hout (h.executing u f hmem).2
  refine ⟨fun u g hg => ?_, fun u => ?_, fun u v huv => ?_⟩
  · simp only [setThread, setFiber]
    by_cases hgf : g = f
    · subst hgf
      rw [Function.update_self]
      exact ⟨hf, hx⟩
    · rw [Function.update_of_ne hgf]
      by_cases hu : u = t
      · subst hu
        rw [hself] at hg
        exact h.executing u g ((List.mem_cons.mp hg).resolve_left hgf)
      · rw [hother u hu] at hg
        exact h.executing u g hg
  · by_cases hu : u = t
    · subst hu
      rw [hself]
      exact List.nodup_cons.mpr ⟨hnew u, h.nodup u⟩
    · rw [hother u hu]
      exact h.nodup u
  · by_cases hu : u = t
    · subst hu
      rw [hself, hother v (Ne.symm huv)]
      exact List.disjoint_cons_left.mpr ⟨hnew v, h.apart u v huv⟩
    · by_cases hv : v = t
      · subst hv
        rw [hself, hother u hu]
        exact List.disjoint_cons_right.mpr ⟨hnew u, h.apart u v huv⟩
      · rw [hother u hu, hother v hv]
        exact h.apart u v huv

theorem top (hnest : (p.threads t).nest = (f, caller) :: rest) :
    f < p.curFiberId ∧ (p.fibers f).Executing := by
  apply h.executing t f
  rw [stack, hnest]
  exact List.mem_cons_self

theorem thread {t : ℕ} {th : Thread} (hth : th.nest = (p.threads t).nest) :
    Nests (p.setThread t th) := by
  refine h.frame (fun u => ?_) (Nat.le_refl _) fun _ _ _ => rfl
  simp only [stack, setThread]
  by_cases hu : u = t
  · subst hu
    rw [Function.update_self, hth]
  · rw [Function.update_of_ne hu]

/-- A new object is on no thread. -/
theorem add (hstack : ∀ t, q.stack t = p.stack t) (hcount : q.curFiberId = p.curFiberId + 1)
    (hfibers : ∀ f < p.curFiberId, q.fibers f = p.fibers f) : Nests q :=
  h.frame hstack (by omega) fun t f hf => hfibers f (h.executing t f hf).1

theorem getThis (t : ℕ) : Nests (p.getThis t) := by
  simp only [Process.getThis]
  split
  · exact h
  · have hthread : Nests (p.setThread t { p.threads t with
        curFiber := some p.curFiberId
        curThreadFiber := some p.curFiberId }) := h.thread rfl
    exact hthread.add (fun _ => rfl) rfl fun f hf => Function.update_of_ne (Nat.ne_of_lt hf) ..

theorem construct (c : Construction) : Nests (p.construct c).2 := by
  have hold : ∀ f < p.curFiberId, (p.start c).fibers f = p.fibers f :=
    fun f hf => Function.update_of_ne (Nat.ne_of_lt hf) ..
  simp only [Process.construct]
  split
  · exact h.add (fun _ => rfl) rfl hold
  · split
    · exact h.add (fun _ => rfl) rfl hold
    · split
      · exact h.add (fun _ => rfl) rfl hold
      · refine h.add (fun _ => rfl) rfl fun f hf => ?_
        exact (Function.update_of_ne (Nat.ne_of_lt hf) ..).trans (hold f hf)

theorem resume {f : ℕ} (hf : f < p.curFiberId) (hlive : (p.fibers f).live = true)
    (hs : (p.fibers f).Sound p.acquisitions p.acquired) (t : ℕ) : Nests (p.resume t f) := by
  simp only [Process.resume]
  split
  · exact h.fail _
  · rename_i x hx
    obtain ⟨⟨hflag, hready⟩, rfl⟩ := Fiber.resume_ok hx
    split
    · exact h.fail _
    · refine h.push hf (fun hexec => ?_) ⟨hlive, ?_, rfl, rfl⟩ rfl
      · exact absurd (hflag.symm.trans hexec.flag) Bool.false_ne_true
      · exact hs.main_of_ne (by simp [hready])

theorem switchBack (hnest : (p.threads t).nest = (f, caller) :: rest) (x : Fiber) :
    Nests (p.switchBack t f caller rest x) := by
  simp only [Process.switchBack]
  split
  · exact h.fail _
  · exact h.pop hnest rfl

theorem reset (f cb : ℕ) (error : Option ℕ) : Nests (p.reset f cb error).2 := by
  simp only [Process.reset]
  split
  · exact h.fail _
  · rename_i x hx
    refine h.change (f := f) (x := x) (fun hexec => ?_) (fun _ => rfl) (Nat.le_refl _) rfl
    exact absurd ((Fiber.reset_ok hx).term.symm.trans hexec.running) (by simp)

theorem free {f : ℕ} (hout : ¬(p.fibers f).Executing) : Nests (p.free f) :=
  h.change hout (fun _ => rfl) (Nat.le_refl _) rfl

theorem releaseStack {f : ℕ} (hout : ¬(p.fibers f).Executing) : Nests (p.releaseStack f) := by
  simp only [Process.releaseStack]
  split
  · exact h.change hout (fun _ => rfl) (Nat.le_refl _) rfl
  · split
    · exact h.fail _
    · exact h.change hout (fun _ => rfl) (Nat.le_refl _) rfl

end

theorem executing_of_releaseStack {f : ℕ} (h : ((p.releaseStack f).fibers f).Executing) :
    (p.fibers f).Executing := by
  simp only [Process.releaseStack] at h
  split at h
  · simp only [setFiber, Function.update_self] at h
    exact ⟨h.live, h.main, h.running, h.flag⟩
  · split at h
    · exact h
    · simp only [setFiber, Function.update_self] at h
      exact ⟨h.live, h.main, h.running, h.flag⟩

theorem destroy (h : Nests p) {f : ℕ} (hout : ¬(p.fibers f).Executing) (t : ℕ) :
    Nests (p.destroy t f) := by
  have hcount : ∀ n, Nests { p with fiberCount := n } := fun n =>
    h.frame (fun _ => rfl) (Nat.le_refl _) fun _ _ _ => rfl
  simp only [Process.destroy]
  split
  · split
    · exact (hcount _).fail _
    · have hrelease := (hcount (p.fiberCount - 1)).releaseStack hout
      apply hrelease.free
      intro hexec
      have hbefore := executing_of_releaseStack hexec
      exact hout hbefore
  · split
    · exact (hcount _).fail _
    · split
      · exact (hcount _).fail _
      · split
        · apply Nests.thread
          · exact (hcount _).free hout
          · rfl
        · exact (hcount _).free hout

end Nests

/-! ### Runs -/

theorem next_inv (h : Ledger p ∧ Nests p) {a : Action} (he : process.enabled p a) :
    Ledger (process.next p a) ∧ Nests (process.next p a) := by
  obtain ⟨hledger, hnests⟩ := h
  cases a with
  | getThis t => exact ⟨hledger.getThis t, hnests.getThis t⟩
  | construct c => exact ⟨hledger.construct c, hnests.construct c⟩
  | resume t f =>
    obtain ⟨-, hf, hlive⟩ := he
    exact ⟨hledger.resume hf t, hnests.resume hf hlive (hledger.sound f hf hlive) t⟩
  | yield t =>
    simp only [process, Process.yield]
    split
    · exact ⟨hledger, hnests⟩
    · rename_i f caller rest hnest
      obtain ⟨hf, hexec⟩ := hnests.top hnest
      split
      · exact ⟨hledger.fail _, hnests.fail _⟩
      · rename_i x hx
        have hy := Fiber.yield_ok hx
        rw [Fiber.resumed_eq, hy]
        refine ⟨?_, hnests.switchBack hnest _⟩
        exact hledger.switchBack hf hexec.main ⟨rfl, rfl, rfl, rfl⟩ nofun
  | finish t exit =>
    simp only [process, Process.finish]
    split
    · exact ⟨hledger, hnests⟩
    · rename_i f caller rest hnest
      obtain ⟨hf, hexec⟩ := hnests.top hnest
      rw [Fiber.resumed_eq]
      refine ⟨?_, hnests.switchBack hnest _⟩
      exact hledger.switchBack hf hexec.main ⟨rfl, rfl, rfl, rfl⟩ fun _ => ⟨rfl, rfl⟩
  | reset f cb error => exact ⟨hledger.reset he.2.1 cb error, hnests.reset f cb error⟩
  | destroy t f =>
    obtain ⟨-, hf, hlive, hterm⟩ := he
    have hend : (p.fibers f).isMainFiber = false → (p.fibers f).state = .term := by
      intro hmain
      rw [hmain] at hterm
      exact hterm
    refine ⟨hledger.destroy hf hlive hend, hnests.destroy (fun hexec => ?_) t⟩
    exact absurd ((hend hexec.main).symm.trans hexec.running) nofun
  | setSchedulerFiber t f =>
    exact ⟨⟨hledger.sound, hledger.account, hledger.count⟩, hnests.thread rfl⟩
  | exit t => exact ⟨⟨hledger.sound, hledger.account, hledger.count⟩, hnests.thread rfl⟩

theorem inv_of_init (h : process.init p) : Ledger p ∧ Nests p := by
  obtain ⟨hid, hcount, hthreads, hacquired, -⟩ := h
  have hstack : ∀ t, p.stack t = [] := by
    intro t
    rw [stack, hthreads t]
    rfl
  refine ⟨⟨fun f hf => ?_, fun k hk => ?_, ?_⟩, ⟨fun t f hf => ?_, fun t => ?_, fun t u _ => ?_⟩⟩
  · omega
  · omega
  · rw [hcount, hid]
    rfl
  · rw [hstack] at hf
    cases hf
  · rw [hstack]
    exact List.nodup_nil
  · rw [hstack]
    exact List.disjoint_nil_left _

theorem inv_of_reach (h : process.Reach p) : Ledger p ∧ Nests p :=
  h.invariant (I := fun p => Ledger p ∧ Nests p) (fun _ => inv_of_init) fun _ _ hi he =>
    next_inv hi he

/-- The acquisitions whose blocks are checked out. -/
def checkedOut (p : Process) : Finset ℕ := (range p.acquired).filter fun k => p.releases k = 0

/-- The live Fibers with the block of acquisition `k`. -/
def owners (p : Process) (k : ℕ) : Finset ℕ :=
  (range p.curFiberId).filter fun f => (p.fibers f).holds k

theorem Ledger.releases_add (h : Ledger p) {k : ℕ} (hk : k < p.acquired) :
    p.releases k + (p.owners k).card = 1 := by
  have haccount := h.account k hk
  simp only [Fiber.share, Finset.sum_boole] at haccount
  rw [owners]
  exact_mod_cast haccount

theorem checkedOut_lend_release (p : Process) (a : ℕ) (b : Stack.FiberStackBlock) :
    ((p.lend a b).release p.acquired).checkedOut = p.checkedOut := by
  ext k
  simp only [checkedOut, Finset.mem_filter, Finset.mem_range]
  change k < p.acquired + 1 ∧ Function.update (Function.update p.releases p.acquired 0) p.acquired
    (Function.update p.releases p.acquired 0 p.acquired + 1) k = 0 ↔ _
  by_cases hk : k = p.acquired
  · subst hk
    rw [Function.update_self]
    omega
  · rw [Function.update_of_ne hk, Function.update_of_ne hk]
    omega

/-- A construction that fails gives back what it has acquired. -/
theorem construct_failed {c : Construction} {e : Failure} (h : (p.construct c).1 = .error e) :
    (p.construct c).2.checkedOut = p.checkedOut ∧ (p.construct c).2.fiberCount = p.fiberCount := by
  have hback := checkedOut_lend_release (p.start c)
  revert h
  simp only [construct]
  split
  · exact fun _ => ⟨rfl, rfl⟩
  · split
    · exact fun _ => ⟨rfl, rfl⟩
    · split
      · exact fun _ => ⟨hback _ _, rfl⟩
      · intro h
        cases h

/-- Live Fiber `f`, which is no main Fiber, has the block of acquisition `k` for its stack. -/
structure Owns (p : Process) (f k : ℕ) : Prop where
  lt : f < p.curFiberId
  live : (p.fibers f).live = true
  main : (p.fibers f).isMainFiber = false
  block : (p.fibers f).stackBlock = some ⟨k, (p.acquisitions k).block⟩
  allocator : (p.fibers f).stackAllocator = some (p.acquisitions k).allocator

section

variable (h : Ledger p)
include h

theorem Ledger.owns {f : ℕ} (hf : f < p.curFiberId)
    (hlive : (p.fibers f).live = true) (hmain : (p.fibers f).isMainFiber = false) :
    ∃ k < p.acquired, Owns p f k := by
  obtain ⟨k, hk, hblock, hallocator⟩ := (h.sound f hf hlive).leased hmain
  exact ⟨k, hk, hf, hlive, hmain, hblock, hallocator⟩

theorem Ledger.mem_owners {f k : ℕ} : f ∈ p.owners k ↔ Owns p f k := by
  rw [owners, Finset.mem_filter, Finset.mem_range, Fiber.holds_iff]
  constructor
  · rintro ⟨hf, hlive, hmain, b, hblock⟩
    obtain ⟨j, -, howns⟩ := h.owns hf hlive hmain
    have hsame := howns.block
    rw [hblock, Option.some.injEq, Lease.mk.injEq] at hsame
    obtain ⟨rfl, -⟩ := hsame
    exact howns
  · intro howns
    exact ⟨howns.lt, howns.live, howns.main, _, howns.block⟩

theorem Ledger.mem_checkedOut {k : ℕ} : k ∈ p.checkedOut ↔ ∃ f, Owns p f k := by
  rw [checkedOut, Finset.mem_filter, Finset.mem_range]
  constructor
  · rintro ⟨hk, hzero⟩
    have hadd := h.releases_add hk
    obtain ⟨f, hf⟩ := Finset.card_pos.mp (show 0 < (p.owners k).card by omega)
    exact ⟨f, h.mem_owners.mp hf⟩
  · rintro ⟨f, howns⟩
    obtain ⟨j, hj, hother⟩ := h.owns howns.lt howns.live howns.main
    have hsame := hother.block
    rw [howns.block, Option.some.injEq, Lease.mk.injEq] at hsame
    obtain ⟨rfl, -⟩ := hsame
    have hadd := h.releases_add hj
    have hpos := Finset.card_pos.mpr ⟨f, h.mem_owners.mpr howns⟩
    exact ⟨hj, by omega⟩

theorem Ledger.owner_unique {f g k : ℕ} (hf : Owns p f k) (hg : Owns p g k) : f = g := by
  obtain ⟨hk, hzero⟩ := Finset.mem_filter.mp (h.mem_checkedOut.mpr ⟨f, hf⟩)
  have hadd := h.releases_add (Finset.mem_range.mp hk)
  have hone : (p.owners k).card ≤ 1 := by omega
  exact Finset.card_le_one.mp hone f (h.mem_owners.mpr hf) g (h.mem_owners.mpr hg)

theorem Ledger.releases_eq {k : ℕ} (hk : k < p.acquired) :
    p.releases k = if k ∈ p.checkedOut then 0 else 1 := by
  have hadd := h.releases_add hk
  split
  · rename_i hmem
    exact (Finset.mem_filter.mp hmem).2
  · rename_i hmem
    have hne : p.releases k ≠ 0 := fun hzero =>
      hmem (Finset.mem_filter.mpr ⟨Finset.mem_range.mpr hk, hzero⟩)
    omega

theorem Ledger.resettable {f : ℕ} (hf : f < p.curFiberId)
    (hlive : (p.fibers f).live = true) (hmain : (p.fibers f).isMainFiber = false)
    (hterm : (p.fibers f).state = .term) : (p.fibers f).Resettable := by
  obtain ⟨k, -, howns⟩ := h.owns hf hlive hmain
  refine ⟨hmain, hterm, ((h.sound f hf hlive).term hterm).1, ?_⟩
  rw [howns.block]
  exact nofun

end

/-- **The lives of Fibers.**  The blocks that are checked out are those of the live Fibers that are
no main Fibers, one each; every other acquired block has been released once; `fiber_count` is the
number of live Fibers.  A construction that fails changes neither.  A reset of a terminated Fiber
that fails changes nothing at all, and one whose context can be made succeeds without `acquire`. -/
theorem fiber_lifecycle (h : process.Reach p) :
    ((∀ k, k ∈ p.checkedOut ↔ ∃ f, Owns p f k) ∧
      (∀ f < p.curFiberId, (p.fibers f).live = true → (p.fibers f).isMainFiber = false →
        ∃ k, Owns p f k) ∧
      (∀ f g k, Owns p f k → Owns p g k → f = g) ∧
      ∀ k < p.acquired, p.releases k = if k ∈ p.checkedOut then 0 else 1) ∧
    p.fiberCount = ((range p.curFiberId).filter fun f => (p.fibers f).live).card ∧
    (∀ c e, (p.construct c).1 = .error e → (p.construct c).2.checkedOut = p.checkedOut ∧
      (p.construct c).2.fiberCount = p.fiberCount) ∧
    ∀ f < p.curFiberId, (p.fibers f).live = true → (p.fibers f).isMainFiber = false →
      (p.fibers f).state = .term → ∀ cb,
      (∀ e, p.reset f cb (some e) = (.error (.thrown e), p)) ∧
      p.reset f cb none = (.ok (), p.setFiber f { p.fibers f with
        cb := some cb
        exception := none
        context := some .entry
        state := .ready }) := by
  have hledger := (inv_of_reach h).1
  refine ⟨⟨fun k => hledger.mem_checkedOut, fun f hf hlive hmain => ?_,
    fun f g k => hledger.owner_unique, fun k hk => hledger.releases_eq hk⟩, ?_,
    fun c e => construct_failed, fun f hf hlive hmain hterm cb => ?_⟩
  · obtain ⟨k, -, howns⟩ := hledger.owns hf hlive hmain
    exact ⟨k, howns⟩
  · rw [hledger.count]
    simp only [Fiber.one, Finset.sum_boole]
  · have hreset := hledger.resettable hf hlive hmain hterm
    refine ⟨fun e => ?_, ?_⟩
    · rw [Process.reset, hreset.reset]
      rfl
    · rw [Process.reset, hreset.reset]

/-- A construction fails in `beforeContextCreate` and another one succeeds; the callback of the new
Fiber throws, and a reset fails in `beforeContextCreate`. -/
def afterFailures : Process :=
  let block : Stack.FiberStackBlock := ⟨4096, 4096, 131072, 131072, .malloc, false⟩
  process.run .initial [.getThis 0, .construct ⟨1, 0, false, none, .ok block, some 9⟩,
    .construct ⟨2, 0, false, none, .ok block, none⟩, .resume 0 2, .finish 0 (.threw 7),
    .reset 2 3 (some 9)]

theorem fiber_lifecycle_failures : afterFailures.fiberCount = 2 ∧
    (afterFailures.releases 0 = 1 ∧ afterFailures.releases 1 = 0) ∧
    (afterFailures.reset 2 4 none).1 = .ok () := by
  have hreach : process.Reach afterFailures :=
    Machine.reachVia_run (.start process_init_initial) (by decide +kernel)
  obtain ⟨⟨-, -, -, hreleases⟩, hcount, -, hreset⟩ := fiber_lifecycle hreach
  refine ⟨?_, ⟨?_, ?_⟩, ?_⟩
  · rw [hcount]
    decide +kernel
  · rw [hreleases 0 (by decide +kernel)]
    decide +kernel
  · rw [hreleases 1 (by decide +kernel)]
    decide +kernel
  · rw [(hreset 2 (by decide +kernel) (by decide +kernel) (by decide +kernel) (by decide +kernel)
      4).2]

/-- No code runs on a stack that has been released, as long as only Fibers that have terminated are
destroyed. -/
theorem running_checkedOut (h : process.Reach p) {t f : ℕ} (hf : f ∈ p.stack t) :
    ∃ k ∈ p.checkedOut, Owns p f k := by
  obtain ⟨hledger, hnests⟩ := inv_of_reach h
  obtain ⟨hlt, hexec⟩ := hnests.executing t f hf
  obtain ⟨k, -, howns⟩ := hledger.owns hlt hexec.live hexec.main
  exact ⟨k, hledger.mem_checkedOut.mpr ⟨f, howns⟩, howns⟩

/-- A Fiber has been resumed. -/
theorem running_checkedOut_resumed :
    let p := process.run .initial [.getThis 0, .construct ⟨1, 0, false, none,
      .ok ⟨4096, 4096, 131072, 131072, .malloc, false⟩, none⟩, .resume 0 1]
    ∃ k ∈ p.checkedOut, Owns p 1 k := by
  intro p
  have hreach : process.Reach p :=
    Machine.reachVia_run (.start process_init_initial) (by decide +kernel)
  exact running_checkedOut hreach (t := 0) (by decide +kernel)

end Process

end PulsarRuntime.Fibers
