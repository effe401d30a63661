import PulsarRuntime.Stack.Sizing

/-!
# Every stack has one owner

The live allocations are the blocks in the free lists and those that somebody owns: an owner to whom
`acquire` has handed the block, or a call that has it in a local variable.  Each step moves a block
from one place to another, or allocates or frees one, so that the live allocations always are the
blocks of all places together; and since live allocations do not overlap, each of them is in one
place, once.
-/

namespace PulsarRuntime.Stack

/-- The blocks that a call has. -/
def Pc.blocks : Pc → List FiberStackBlock
  | .allocated _ b | .release b | .free b _ => [b]
  | _ => []

namespace Pool

/-- The blocks that an owner or a call has. -/
def owned (s : Pool) : List FiberStackBlock := s.held ++ s.calls.flatMap Pc.blocks

/-- All blocks. -/
def live (s : Pool) : List FiberStackBlock := s.cached ++ s.owned

/-- What holds of a block once it has been allocated. -/
structure Built (s : Pool) (b : FiberStackBlock) : Prop where
  addressable : b.Addressable
  backend : b.backend = .mmap → s.guardPages ≠ none
  passthrough : b.passthrough = true →
    s.options.maxCachedBytes = 0 ∨ b.usableSize = 0 ∨ s.options.maxPooledStackSize < b.usableSize

/-- The block may be in the free list of `k`. -/
structure Filed (s : Pool) (k : ℕ) (b : FiberStackBlock) : Prop where
  size : b.usableSize = k
  pow : ∃ n, k = 2 ^ n
  le : k ≤ s.options.maxPooledStackSize
  passthrough : b.passthrough = false

end Pool

/-- What a call of `acquire` has found out about the sizes. -/
def Pc.Sized (s : Pool) : Pc → Prop
  | .acquire requestedSize pooledSize => s.pooledSizeFor requestedSize = some pooledSize
  | .allocate requestedSize size passthrough => ∃ pooledSize,
    s.pooledSizeFor requestedSize = some pooledSize ∧ s.cacheable pooledSize = !passthrough ∧
    size = if passthrough then requestedSize else pooledSize
  | .allocated requestedSize b => max requestedSize s.minimum ≤ b.usableSize
  | _ => True

structure Inv (s : Pool) : Prop where
  options : s.options.maxPooledStackSize = 0 ∨ ∃ n, s.options.maxPooledStackSize = 2 ^ n
  system : s.system.Perm s.live
  apart : s.system.Pairwise FiberStackBlock.Apart
  built : ∀ b ∈ s.system, s.Built b
  filed : ∀ e ∈ s.freeLists.entries, s.Filed e.1 e.2
  calls : ∀ pc ∈ s.calls, pc.Sized s

theorem inv_of_init {s : Pool} (h : pool.init s) : Inv s := by
  obtain ⟨⟨input, hinput⟩, hfree, -, hheld, hcalls, hsystem, -⟩ := h
  refine ⟨normalize_pow hinput, ?_, ?_, ?_, ?_, ?_⟩ <;>
    simp [Pool.live, Pool.owned, Pool.cached, hfree, hheld, hcalls, hsystem]

theorem FiberStackBlock.Apart.allocation_ne {b c : FiberStackBlock} (h : b.Apart c) :
    b.allocation ≠ c.allocation := by
  have hb : 1 ≤ b.span := le_max_left _ _
  have hc : 1 ≤ c.span := le_max_left _ _
  obtain h | h := h <;> omega

/-- The parts of a pool that no step changes. -/
structure SameBuild (s s' : Pool) : Prop where
  minimum : s'.minimum = s.minimum
  guardPages : s'.guardPages = s.guardPages
  options : s'.options = s.options

section

variable {s s' : Pool}

theorem SameBuild.built (h : SameBuild s s') {b : FiberStackBlock} (hb : s.Built b) :
    s'.Built b := by
  refine ⟨hb.addressable, ?_, ?_⟩
  · rw [h.guardPages]
    exact hb.backend
  · rw [h.options]
    exact hb.passthrough

theorem SameBuild.filed (h : SameBuild s s') {k : ℕ} {b : FiberStackBlock} (hb : s.Filed k b) :
    s'.Filed k b := by
  refine ⟨hb.size, hb.pow, ?_, hb.passthrough⟩
  rw [h.options]
  exact hb.le

theorem SameBuild.sized (h : SameBuild s s') {pc : Pc} (hpc : pc.Sized s) : pc.Sized s' := by
  cases pc with
  | acquire | allocate | allocated =>
    simpa only [Pc.Sized, Pool.pooledSizeFor, Pool.cacheable, h.minimum, h.options] using hpc
  | release | free | freed | trim | ended => trivial

/-- Blocks change places. -/
theorem Inv.shift (h : Inv s) (hbuild : SameBuild s s') (hsystem : s'.system = s.system)
    (hlive : s'.live.Perm s.live)
    (hfiled : ∀ e ∈ s'.freeLists.entries, e ∈ s.freeLists.entries ∨ s.Filed e.1 e.2)
    (hcalls : ∀ pc ∈ s'.calls, pc ∈ s.calls ∨ pc.Sized s) : Inv s' := by
  refine ⟨?_, ?_, ?_, ?_, fun e he => ?_, fun pc hpc => ?_⟩
  · rw [hbuild.options]
    exact h.options
  · rw [hsystem]
    exact h.system.trans hlive.symm
  · rw [hsystem]
    exact h.apart
  · rw [hsystem]
    exact fun b hb => hbuild.built (h.built b hb)
  · exact hbuild.filed ((hfiled e he).elim (h.filed e) id)
  · exact hbuild.sized ((hcalls pc hpc).elim (h.calls pc) id)

/-- Only how often a block occurs in a place matters. -/
theorem live_perm (h : ∀ x, s'.cached.count x + s'.held.count x +
      (s'.calls.flatMap Pc.blocks).count x =
    s.cached.count x + s.held.count x + (s.calls.flatMap Pc.blocks).count x) :
    s'.live.Perm s.live := by
  rw [List.perm_iff_count]
  intro x
  simpa only [Pool.live, Pool.owned, List.count_append, Nat.add_assoc] using h x

/-- The `i`th call goes on. -/
theorem count_blocks {i : ℕ} {pc : Pc} (hpc : s.calls[i]? = some pc) (pc' : Pc)
    (x : FiberStackBlock) :
    pc.blocks.count x + ((s.calls.set i pc').flatMap Pc.blocks).count x =
      pc'.blocks.count x + (s.calls.flatMap Pc.blocks).count x := by
  simpa only [List.count_append] using (flatMap_set_perm Pc.blocks hpc pc').count_eq x

theorem mem_set {calls : List Pc} {i : ℕ} {pc' : Pc} (hsized : pc'.Sized s) :
    ∀ pc ∈ calls.set i pc', pc ∈ calls ∨ pc.Sized s := by
  intro pc hpc
  obtain hold | rfl := List.mem_or_eq_of_mem_set hpc
  · exact .inl hold
  · exact .inr hsized

end

namespace Inv

variable {s : Pool} {i : ℕ} {pc : Pc} {b : FiberStackBlock}

/-- The blocks that a call has are live. -/
theorem mem_system (h : Inv s) (hpc : s.calls[i]? = some pc) (hb : b ∈ pc.blocks) :
    b ∈ s.system := by
  refine h.system.mem_iff.mpr (List.mem_append_right _ (List.mem_append_right _ ?_))
  exact List.mem_flatMap.mpr ⟨pc, List.mem_of_getElem? hpc, hb⟩

/-- A call goes on with the blocks it has. -/
theorem setCall (h : Inv s) (hpc : s.calls[i]? = some pc) {pc' : Pc}
    (hblocks : pc'.blocks = pc.blocks) (hsized : pc'.Sized s) : Inv (s.setCall i pc') := by
  refine h.shift ⟨rfl, rfl, rfl⟩ rfl (live_perm fun x => ?_) (fun e he => .inl he) (mem_set hsized)
  have hcalls := count_blocks hpc pc' x
  simp only [Pool.setCall, Pool.cached, hblocks] at hcalls ⊢
  omega

/-- A call without a block starts. -/
theorem addCall (h : Inv s) (hblocks : pc.blocks = []) (hsized : pc.Sized s) :
    Inv { s with calls := s.calls ++ [pc] } := by
  refine h.shift ⟨rfl, rfl, rfl⟩ rfl (live_perm fun x => ?_) (fun e he => .inl he)
    fun pc' hpc' => ?_
  · simp [Pool.cached, hblocks]
  · obtain hold | hnew := List.mem_append.mp hpc'
    · exact .inl hold
    · obtain rfl := List.mem_singleton.mp hnew
      exact .inr hsized

/-- The counters do not matter. -/
theorem counters (h : Inv s) {counters : FiberStackStats} {terminated : Bool} :
    Inv { s with counters := counters, terminated := terminated } :=
  h.shift ⟨rfl, rfl, rfl⟩ rfl (.refl _) (fun _ => .inl) fun _ => .inl

theorem acquire (h : Inv s) (requestedSize : ℕ) : Inv (s.acquire requestedSize) := by
  simp only [Pool.acquire]
  split
  · exact h
  next hpooled => exact h.addCall rfl hpooled

variable {requestedSize pooledSize : ℕ}

section

variable (h : Inv s)
include h

section

variable (hpc : s.calls[i]? = some (.acquire requestedSize pooledSize))
include hpc

theorem miss : Inv (s.miss i requestedSize pooledSize) := by
  have hpooled := h.calls _ (List.mem_of_getElem? hpc)
  have hmiss : Inv (s.setCall i (.allocate requestedSize
      (if !s.cacheable pooledSize then requestedSize else pooledSize) (!s.cacheable pooledSize))) :=
    h.setCall hpc rfl ⟨pooledSize, hpooled, by simp, rfl⟩
  exact hmiss.counters

theorem hit {freeLists : Stacks ℕ FiberStackBlock}
    (hpop : s.freeLists.pop pooledSize = some (b, freeLists)) :
    Inv (s.hit i b freeLists) := by
  obtain ⟨hentries, -⟩ := Stacks.pop_spec hpop
  refine h.shift ⟨rfl, rfl, rfl⟩ rfl (live_perm fun x => ?_) (fun e he => .inl ?_) (mem_set trivial)
  · have hcalls := count_blocks hpc .ended x
    have hcached := (hentries.map Prod.snd).count_eq x
    simp only [Pool.hit, Pool.checkOut, Pool.setCall, Pool.cached, Pc.blocks, List.map_cons,
      List.count_cons] at hcalls hcached ⊢
    omega
  · exact hentries.mem_iff.mpr (List.mem_cons_of_mem _ he)

theorem lookup : Inv (s.lookup i requestedSize pooledSize) := by
  simp only [Pool.lookup]
  split
  · split
    next hpop => exact h.hit hpc hpop
    · exact h.miss hpc
  · exact h.miss hpc

end

/-- The system allocator returns memory that no live block overlaps. -/
theorem allocate {requestedSize size : ℕ} {passthrough : Bool}
    (hpc : s.calls[i]? = some (.allocate requestedSize size passthrough))
    (hraw : allocateRaw s.minimum s.guardPages size b.allocation passthrough = some b)
    (haddressable : b.Addressable) (hapart : ∀ c ∈ s.system, b.Apart c) :
    Inv (s.allocate i requestedSize b) := by
  obtain ⟨⟨hlarge, hbackend⟩, hpassthrough⟩ := allocateRaw_raw hraw
  obtain ⟨pooledSize, hpooled, hcacheable, hsize⟩ := h.calls _ (List.mem_of_getElem? hpc)
  have hfits : max requestedSize s.minimum ≤ b.usableSize := by
    have hle := (nextPowerOfTwo_rounded hpooled).le
    simp only [normalizeMinimum] at hle
    split at hsize <;> omega
  have hbuilt : s.Built b := by
    refine ⟨haddressable, hbackend, fun htrue => ?_⟩
    rw [← hpassthrough, htrue] at hcacheable
    exact passthrough_large h.options hpooled hcacheable hfits
  have hsized : (Pc.allocated requestedSize b).Sized s := hfits
  have hbuild : SameBuild s (s.allocate i requestedSize b) := ⟨rfl, rfl, rfl⟩
  refine ⟨h.options, ?_, ?_, fun c hc => hbuild.built ?_, fun e he => hbuild.filed (h.filed e he),
    fun pc hpc' => hbuild.sized ((mem_set hsized pc hpc').elim (h.calls pc) id)⟩
  · rw [List.perm_iff_count]
    intro x
    have hcalls := count_blocks hpc (.allocated requestedSize b) x
    have hsystem := h.system.count_eq x
    simp only [Pool.allocate, Pool.setCall, Pool.live, Pool.owned, Pool.cached, Pc.blocks,
      List.count_append, List.count_cons, List.count_nil] at hcalls hsystem ⊢
    omega
  · exact List.pairwise_cons.mpr ⟨hapart, h.apart⟩
  · obtain rfl | hold := List.mem_cons.mp hc
    · exact hbuilt
    · exact h.built c hold

theorem count {requestedSize : ℕ}
    (hpc : s.calls[i]? = some (.allocated requestedSize b)) : Inv (s.count i b) := by
  refine h.shift ⟨rfl, rfl, rfl⟩ rfl (live_perm fun x => ?_) (fun _ => .inl) (mem_set trivial)
  have hcalls := count_blocks hpc .ended x
  simp only [Pool.count, Pool.checkOut, Pool.setCall, Pool.cached, Pc.blocks, List.count_cons,
    List.count_nil] at hcalls ⊢
  omega

theorem release {n : ℕ} (hheld : s.held[n]? = some b) : Inv (s.release n b) := by
  refine h.shift ⟨rfl, rfl, rfl⟩ rfl (live_perm fun x => ?_) (fun _ => .inl) fun pc hpc => ?_
  · have hcount := (perm_eraseIdx hheld).count_eq x
    simp only [Pool.release, Pool.cached, List.flatMap_append, List.flatMap_cons, List.flatMap_nil,
      Pc.blocks, List.count_append, List.count_cons, List.count_nil] at hcount ⊢
    omega
  · obtain hold | hnew := List.mem_append.mp hpc
    · exact .inl hold
    · obtain rfl := List.mem_singleton.mp hnew
      exact .inr trivial

section

variable (hpc : s.calls[i]? = some (.release b))
include hpc

/-- Only a block of the right size is stored, and that was not one to be passed through. -/
theorem store (haccepts : s.accepts b = true) : Inv (s.store i b) := by
  obtain ⟨hcached, hne, hpow, hle, -⟩ := accepts_iff.mp haccepts
  have hlive := h.mem_system hpc (List.mem_singleton_self b)
  have hpassthrough : b.passthrough = false := by
    by_contra htrue
    have := (h.built b hlive).passthrough (by simpa using htrue)
    omega
  have hentries := Stacks.push_entries b.usableSize b s.freeLists
  refine h.shift ⟨rfl, rfl, rfl⟩ rfl (live_perm fun x => ?_) (fun e he => ?_) (mem_set trivial)
  · have hcalls := count_blocks hpc .ended x
    have hcached := (hentries.map Prod.snd).count_eq x
    simp only [Pool.store, Pool.setCall, Pool.cached, Pc.blocks, List.map_cons, List.count_cons,
      List.count_nil] at hcalls hcached ⊢
    omega
  · obtain rfl | hold := List.mem_cons.mp (hentries.mem_iff.mp he)
    · exact .inr ⟨rfl, hpow, hle, hpassthrough⟩
    · exact .inl hold

/-- `release` keeps the block to free it. -/
theorem evict
    {freeLists : Stacks ℕ FiberStackBlock} (hsame : freeLists.entries = s.freeLists.entries) :
    Inv (s.evict i b none freeLists) := by
  refine h.shift ⟨rfl, rfl, rfl⟩ rfl (live_perm fun x => ?_) (fun e he => .inl ?_) (mem_set trivial)
  · have hcalls := count_blocks hpc (.free b none) x
    simp only [Pool.evict, Pool.setCall, Pool.cached, Pc.blocks, hsame] at hcalls ⊢
    omega
  · rw [← hsame]
    exact he

theorem giveBack (insertion : Insertion) : Inv (s.giveBack i b insertion) := by
  have hback : Inv { s with counters := { s.counters with
      returns := add64 s.counters.returns 1
      checkedOutBytes := sub64 s.counters.checkedOutBytes b.allocationSize } } := h.counters
  simp only [Pool.giveBack]
  split
  · split
    next haccepts =>
      split
      · exact hback.store hpc haccepts
      · exact hback.evict hpc rfl
      · exact hback.evict hpc (Stacks.touch_entries _ _)
    · exact hback.evict hpc rfl
  · exact h.counters

end

/-- `trim` takes a block out of its free list to free it. -/
theorem trim {keepBytes : ℕ} (hpc : s.calls[i]? = some (.trim keepBytes)) :
    Inv (s.trim i keepBytes) := by
  simp only [Pool.trim]
  split
  · exact h.setCall hpc rfl trivial
  · split
    · exact h.setCall hpc rfl trivial
    next victim freeLists hpop =>
      obtain ⟨k, hentries⟩ := Stacks.popLast_entries hpop
      refine h.shift ⟨rfl, rfl, rfl⟩ rfl (live_perm fun x => ?_) (fun e he => .inl ?_)
        (mem_set trivial)
      · have hcalls := count_blocks hpc (.free victim (some keepBytes)) x
        have hcached := (hentries.map Prod.snd).count_eq x
        simp only [Pool.evict, Pool.setCall, Pool.cached, Pc.blocks, List.map_cons,
          List.count_cons, List.count_nil] at hcalls hcached ⊢
        omega
      · exact hentries.mem_iff.mpr (List.mem_cons_of_mem _ he)

end

variable {keepBytes : Option ℕ}

/-- A block goes back to the allocator that it came from. -/
theorem freeRaw_eq (h : Inv s) (hpc : s.calls[i]? = some (.free b keepBytes)) :
    s.freeRaw i b keepBytes =
      { s.setCall i (.freed keepBytes) with system := s.system.erase b } := by
  have hbuilt := h.built b (h.mem_system hpc (List.mem_singleton_self b))
  exact if_neg fun hmismatch => hbuilt.backend hmismatch.1 hmismatch.2

theorem freeRaw (h : Inv s) (hpc : s.calls[i]? = some (.free b keepBytes)) :
    Inv (s.freeRaw i b keepBytes) := by
  rw [h.freeRaw_eq hpc]
  have hlive := h.mem_system hpc (List.mem_singleton_self b)
  have herase := List.perm_cons_erase hlive
  have hbuild : SameBuild s
      { s.setCall i (.freed keepBytes) with system := s.system.erase b } := ⟨rfl, rfl, rfl⟩
  refine ⟨h.options, ?_, ?_, fun c hc => hbuild.built (h.built c (List.mem_of_mem_erase hc)),
    fun e he => hbuild.filed (h.filed e he), fun pc hpc' => hbuild.sized ?_⟩
  · rw [List.perm_iff_count]
    intro x
    have hcalls := count_blocks hpc (.freed keepBytes) x
    have hsystem := h.system.count_eq x
    rw [herase.count_eq] at hsystem
    simp only [Pool.setCall, Pool.live, Pool.owned, Pool.cached, Pc.blocks, List.count_append,
      List.count_cons, List.count_nil] at hcalls hsystem ⊢
    omega
  · exact h.apart.erase b
  · obtain hold | rfl := List.mem_or_eq_of_mem_set hpc'
    · exact h.calls pc hold
    · exact trivial

theorem countFree (h : Inv s) (hpc : s.calls[i]? = some (.freed keepBytes)) :
    Inv (s.countFree i keepBytes) := by
  simp only [Pool.countFree]
  cases keepBytes with
  | none =>
    have hended : Inv (s.setCall i .ended) := h.setCall hpc rfl trivial
    exact hended.counters
  | some keep =>
    have htrim : Inv (s.setCall i (.trim keep)) := h.setCall hpc rfl trivial
    exact htrim.counters

theorem next (h : Inv s) {a : Action} (ha : pool.enabled s a) : Inv (pool.next s a) := by
  cases a with
  | acquire requestedSize => exact h.acquire requestedSize
  | lookup i requestedSize pooledSize => exact h.lookup ha
  | allocateFails i requestedSize size passthrough => exact h.setCall ha rfl trivial
  | allocate i requestedSize size passthrough b => exact h.allocate ha.1 ha.2.1 ha.2.2.1 ha.2.2.2
  | count i requestedSize b => exact h.count ha
  | release n b => exact h.release ha
  | giveBack i b insertion => exact h.giveBack ha insertion
  | freeRaw i b keepBytes => exact h.freeRaw ha
  | countFree i keepBytes => exact h.countFree ha
  | startTrim keepBytes => exact h.addCall rfl trivial
  | trim i keepBytes => exact h.trim ha
  | resetStats => exact h.counters

end Inv

theorem inv_of_reach {s : Pool} (h : pool.Reach s) : Inv s :=
  h.invariant (fun _ => inv_of_init) fun _ _ hi he => hi.next he

namespace Inv

variable {s : Pool} {b : FiberStackBlock}

theorem nodup (h : Inv s) : (s.live.map FiberStackBlock.allocation).Nodup := by
  have hsystem : (s.system.map FiberStackBlock.allocation).Nodup :=
    List.pairwise_map.mpr (h.apart.imp FiberStackBlock.Apart.allocation_ne)
  exact (h.system.map _).nodup_iff.mp hsystem

/-- Each live block is in the free lists or has an owner, once. -/
theorem one_place (h : Inv s) (hb : b ∈ s.live) :
    (s.cached.map FiberStackBlock.allocation).count b.allocation +
      (s.owned.map FiberStackBlock.allocation).count b.allocation = 1 := by
  rw [← List.count_append, ← List.map_append]
  exact List.count_eq_one_of_mem h.nodup (List.mem_map_of_mem hb)

/-- A block in a free list or in a call is not held. -/
theorem not_held (h : Inv s) (hb : b ∈ s.cached ++ s.calls.flatMap Pc.blocks) :
    b.allocation ∉ s.held.map FiberStackBlock.allocation := by
  intro hheld
  have hlive : b ∈ s.live := by
    simp only [Pool.live, Pool.owned, List.mem_append] at hb ⊢
    tauto
  have hone := h.one_place hlive
  have helsewhere := List.count_pos_iff.mpr
    (List.mem_map_of_mem (f := FiberStackBlock.allocation) hb)
  have howned : 0 < (s.held.map FiberStackBlock.allocation).count b.allocation :=
    List.count_pos_iff.mpr hheld
  simp only [Pool.owned, List.map_append, List.count_append] at hone helsewhere
  omega

end Inv

/-- The size that was asked for and the block, if `acquire` returns in this step. -/
def Action.returns (s : Pool) : Action → Option (ℕ × FiberStackBlock)
  | .lookup _ requestedSize pooledSize =>
    if s.cacheable pooledSize then
      (s.freeLists.pop pooledSize).map fun r => (requestedSize, r.1)
    else none
  | .count _ requestedSize b => some (requestedSize, b)
  | _ => none

/-- The block that `acquire` returns has had no owner, is large enough, and has one now. -/
theorem acquire_returns {s : Pool} (h : Inv s) {a : Action} (ha : pool.enabled s a)
    {requestedSize : ℕ} {b : FiberStackBlock} (hreturns : a.returns s = some (requestedSize, b)) :
    b.allocation ∉ s.held.map FiberStackBlock.allocation ∧
      max requestedSize s.minimum ≤ b.usableSize ∧ (pool.next s a).held = b :: s.held := by
  cases a with
  | lookup i requested pooledSize =>
    simp only [Action.returns] at hreturns
    split at hreturns
    next hcacheable =>
      obtain ⟨⟨block, freeLists⟩, hpop, heq⟩ := Option.map_eq_some_iff.mp hreturns
      obtain ⟨rfl, rfl⟩ := Prod.mk.inj heq
      have hentry := (Stacks.pop_spec hpop).1.mem_iff.mpr List.mem_cons_self
      have hpooled := nextPowerOfTwo_rounded (h.calls _ (List.mem_of_getElem? ha))
      refine ⟨h.not_held (List.mem_append_left _ (List.mem_map_of_mem hentry)), ?_, ?_⟩
      · exact hpooled.le.trans (h.filed _ hentry).size.ge
      · simp only [pool, Pool.lookup, hcacheable, if_true, hpop, Pool.hit, Pool.checkOut,
          Pool.setCall]
    · cases hreturns
  | count i requested block =>
    obtain ⟨rfl, rfl⟩ := Prod.mk.inj (Option.some.inj hreturns)
    have hcall := List.mem_of_getElem? ha
    refine ⟨h.not_held (List.mem_append_right _ ?_), h.calls _ hcall, rfl⟩
    exact List.mem_flatMap.mpr ⟨_, hcall, List.mem_singleton_self _⟩
  | _ => cases hreturns

/-- The live allocations are the blocks in the free lists and those that have an owner, each of them
in one place, once.  `acquire` returns a block that nobody holds and that is large enough.  The free
list of `k` has blocks of size `k` only, a power of two within the limit, and no block that was
passed through. -/
theorem stack_ownership {s : Pool} (h : pool.Reach s) :
    (∀ b, b ∈ s.live ↔ b ∈ s.system) ∧
    (∀ b ∈ s.system, (s.cached.map FiberStackBlock.allocation).count b.allocation +
      (s.owned.map FiberStackBlock.allocation).count b.allocation = 1) ∧
    (∀ a, pool.enabled s a → ∀ requestedSize b, a.returns s = some (requestedSize, b) →
      b.allocation ∉ s.held.map FiberStackBlock.allocation ∧
      max requestedSize s.minimum ≤ b.usableSize ∧ (pool.next s a).held = b :: s.held) ∧
    ∀ k b, (k, b) ∈ s.freeLists.entries → b.usableSize = k ∧ (∃ n, k = 2 ^ n) ∧
      k ≤ s.options.maxPooledStackSize ∧ b.passthrough = false := by
  have hinv := inv_of_reach h
  refine ⟨fun b => hinv.system.mem_iff.symm, fun b hb => ?_, fun a ha requestedSize b => ?_,
    fun k b hentry => ?_⟩
  · exact hinv.one_place (hinv.system.mem_iff.mp hb)
  · exact acquire_returns hinv ha
  · have hfiled := hinv.filed _ hentry
    exact ⟨hfiled.size, hfiled.pow, hfiled.le, hfiled.passthrough⟩

/-- A block of 32 bytes that has been released, and one that was passed through and is in use. -/
def twoBlocks : Pool :=
  let small : FiberStackBlock := ⟨1000, 1000, 32, 32, .malloc, false⟩
  let large : FiberStackBlock := ⟨2000, 2000, 200, 200, .malloc, true⟩
  pool.run (.fresh 16 none ⟨4096, 128⟩)
    [.acquire 20, .lookup 0 20 32, .allocate 0 20 32 false small, .count 0 20 small, .acquire 200,
      .lookup 1 200 256, .allocate 1 200 200 true large, .count 1 200 large, .release 1 small,
      .giveBack 2 small .stored, .acquire 25]

theorem stack_ownership_reused :
    (∃ b, (32, b) ∈ twoBlocks.freeLists.entries ∧ b.passthrough = false ∧
      (pool.next twoBlocks (.lookup 3 25 32)).held = b :: twoBlocks.held) ∧
    (twoBlocks.held.map FiberStackBlock.allocation).count 2000 = 1 := by
  have hreach : pool.Reach twoBlocks :=
    Machine.reachVia_run (.start (pool_init_fresh none ⟨4096, 100⟩ (by decide +kernel)))
      (by decide +kernel)
  obtain ⟨-, -, hreturns, hfiled⟩ := stack_ownership hreach
  have hentry : (32, (⟨1000, 1000, 32, 32, .malloc, false⟩ : FiberStackBlock)) ∈
      twoBlocks.freeLists.entries := by decide +kernel
  refine ⟨⟨_, hentry, (hfiled _ _ hentry).2.2.2, ?_⟩, by decide +kernel⟩
  exact (hreturns (.lookup 3 25 32) (by decide +kernel) 25 _ (by decide +kernel)).2.2

end PulsarRuntime.Stack
