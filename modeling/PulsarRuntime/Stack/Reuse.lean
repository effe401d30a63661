import PulsarRuntime.Stack.Accounting
import PulsarRuntime.Stack.Rounding

/-!
# Reuse of stacks

`acquire` looks for a block in the free list of the size class of the request, `release` files the
block under the size it came to have.  The two keys agree unless the pages of the guard are larger
than the class: then every block is a page long and its class has no blocks at all.  So a block
that was acquired for `r` comes back to the next request of the same class exactly if the pages
are no larger than the class, the pool caches anything, and the insertion into the free list had
its memory (`pool_reuse`).
-/

namespace PulsarRuntime.Stack

/-! ### Sizes of blocks -/

/-- The usable size of a block of the class `p`, a power of two like the size of the pages. -/
def classSize (guardPages : Option ℕ) (p : ℕ) : ℕ :=
  match guardPages with
  | none => p
  | some guardSize => max p guardSize

theorem alignUp_dvd {value alignment aligned : ℕ} (h : alignUp value alignment = some aligned) :
    alignment ∣ aligned := by
  simp only [alignUp] at h
  split at h
  · cases h
  · obtain rfl := Option.some.inj h
    exact Nat.dvd_mul_left _ _

theorem alignUp_pow {n k aligned : ℕ} (h : alignUp (2 ^ n) (2 ^ k) = some aligned) :
    aligned = max (2 ^ n) (2 ^ k) := by
  have hpos : 0 < 2 ^ k := Nat.two_pow_pos k
  simp only [alignUp] at h
  split at h
  · cases h
  · obtain rfl := Option.some.inj h
    by_cases hle : n ≤ k
    · have hpow : 2 ^ n ≤ 2 ^ k := Nat.pow_le_pow_right Nat.two_pos hle
      have hone : 0 < 2 ^ n := Nat.two_pow_pos n
      have hdiv : (2 ^ n + 2 ^ k - 1) / 2 ^ k = 1 := by
        rw [Nat.div_eq_iff hpos]
        omega
      rw [hdiv]
      omega
    · have hpow : 2 ^ k ≤ 2 ^ n := Nat.pow_le_pow_right Nat.two_pos (by omega)
      obtain ⟨m, hm⟩ := Nat.pow_dvd_pow 2 (show k ≤ n by omega)
      have hdiv : (2 ^ n + 2 ^ k - 1) / 2 ^ k = m := by
        rw [Nat.div_eq_iff hpos, hm, Nat.mul_comm]
        omega
      rw [hdiv, Nat.mul_comm, ← hm]
      omega

section Raw

variable {minimum size address : ℕ} {guardPages : Option ℕ} {passthrough : Bool}
  {b : FiberStackBlock}

theorem allocateRaw_pages
    (h : allocateRaw minimum guardPages size address passthrough = some b) :
    ∀ guardSize, guardPages = some guardSize → guardSize ∣ b.usableSize := by
  rintro guardSize rfl
  simp only [allocateRaw] at h
  split at h
  · cases h
  · split at h
    · cases h
    next usableSize halign =>
      split at h
      · cases h
      · obtain rfl := Option.some.inj h
        exact alignUp_dvd halign

/-- What `AllocateRaw` makes of a size class. -/
theorem allocateRaw_class {n : ℕ} (hminimum : minimum ≤ 2 ^ n)
    (hpages : ∀ guardSize, guardPages = some guardSize → ∃ k, guardSize = 2 ^ k)
    (h : allocateRaw minimum guardPages (2 ^ n) address passthrough = some b) :
    b.usableSize = classSize guardPages (2 ^ n) := by
  have hnormal : normalizeMinimum minimum (2 ^ n) = 2 ^ n := max_eq_left hminimum
  simp only [allocateRaw, hnormal] at h
  cases hguard : guardPages with
  | none =>
    simp only [hguard] at h
    obtain rfl := Option.some.inj h
    rfl
  | some guardSize =>
    obtain ⟨k, rfl⟩ := hpages guardSize hguard
    simp only [hguard] at h
    split at h
    · cases h
    · split at h
      · cases h
      next usableSize halign =>
        split at h
        · cases h
        · obtain rfl := Option.some.inj h
          exact alignUp_pow halign

end Raw

/-! ### Where blocks come from -/

/-- A block that has been allocated for a request is what `AllocateRaw` made of it. -/
def Pc.Cut (s : Pool) : Pc → Prop
  | .allocated requestedSize b => ∃ pooledSize passthrough,
    s.pooledSizeFor requestedSize = some pooledSize ∧ s.cacheable pooledSize = !passthrough ∧
    allocateRaw s.minimum s.guardPages (if passthrough then requestedSize else pooledSize)
      b.allocation passthrough = some b
  | _ => True

structure Cuts (s : Pool) : Prop where
  calls : ∀ pc ∈ s.calls, pc.Cut s
  pages : ∀ b ∈ s.system, ∀ guardSize, s.guardPages = some guardSize → guardSize ∣ b.usableSize

theorem sameBuild_next (s : Pool) (a : Action) : SameBuild s (pool.next s a) := by
  cases a with
  | acquire requestedSize =>
    simp only [pool, Pool.acquire]
    split <;> exact ⟨rfl, rfl, rfl⟩
  | lookup i requestedSize pooledSize =>
    simp only [pool, Pool.lookup]
    split
    · split <;> exact ⟨rfl, rfl, rfl⟩
    · exact ⟨rfl, rfl, rfl⟩
  | giveBack i b insertion =>
    simp only [pool, Pool.giveBack]
    split
    · split
      · cases insertion <;> exact ⟨rfl, rfl, rfl⟩
      · exact ⟨rfl, rfl, rfl⟩
    · exact ⟨rfl, rfl, rfl⟩
  | freeRaw i b keepBytes =>
    simp only [pool, Pool.freeRaw]
    split <;> exact ⟨rfl, rfl, rfl⟩
  | trim i keepBytes =>
    simp only [pool, Pool.trim]
    split
    · exact ⟨rfl, rfl, rfl⟩
    · split <;> exact ⟨rfl, rfl, rfl⟩
  | allocateFails | allocate | count | release | countFree | startTrim | resetStats =>
    exact ⟨rfl, rfl, rfl⟩

section Steps

variable {s s' : Pool}

theorem SameBuild.trans {s'' : Pool} (h : SameBuild s s') (h' : SameBuild s' s'') :
    SameBuild s s'' :=
  ⟨h'.minimum.trans h.minimum, h'.guardPages.trans h.guardPages, h'.options.trans h.options⟩

theorem sameBuild_later {ok : Pool → Action → Prop} (h : pool.Later ok s s') : SameBuild s s' :=
  h.invariant (I := SameBuild s) (fun t a ht _ _ => ht.trans (sameBuild_next t a)) ⟨rfl, rfl, rfl⟩

theorem SameBuild.cut (h : SameBuild s s') {pc : Pc} (hpc : pc.Cut s) : pc.Cut s' := by
  cases pc with
  | allocated requestedSize b =>
    simpa only [Pc.Cut, Pool.pooledSizeFor, Pool.cacheable, h.minimum, h.options,
      h.guardPages] using hpc
  | _ => trivial

namespace Cuts

/-- Calls go on, and blocks may be freed. -/
theorem frame (h : Cuts s) (hbuild : SameBuild s s') (hsystem : s'.system ⊆ s.system)
    (hcalls : ∀ pc ∈ s'.calls, pc ∈ s.calls ∨ pc.Cut s) : Cuts s' := by
  refine ⟨fun pc hpc => ?_, fun b hb => ?_⟩
  · exact hbuild.cut ((hcalls pc hpc).elim (h.calls pc) id)
  · rw [hbuild.guardPages]
    exact h.pages b (hsystem hb)

theorem mem_set {i : ℕ} {pc' : Pc} (hcut : pc'.Cut s) :
    ∀ pc ∈ s.calls.set i pc', pc ∈ s.calls ∨ pc.Cut s := by
  intro pc hpc
  obtain hold | rfl := List.mem_or_eq_of_mem_set hpc
  · exact .inl hold
  · exact .inr hcut

theorem mem_add {pc' : Pc} (hcut : pc'.Cut s) :
    ∀ pc ∈ s.calls ++ [pc'], pc ∈ s.calls ∨ pc.Cut s := by
  intro pc hpc
  obtain hold | hnew := List.mem_append.mp hpc
  · exact .inl hold
  · obtain rfl := List.mem_singleton.mp hnew
    exact .inr hcut

/-- The block is cut to the size that the call has found out. -/
theorem allocate (h : Cuts s) (hinv : Inv s) {i requestedSize size : ℕ} {passthrough : Bool}
    {b : FiberStackBlock} (hpc : s.calls[i]? = some (.allocate requestedSize size passthrough))
    (hraw : allocateRaw s.minimum s.guardPages size b.allocation passthrough = some b) :
    Cuts (s.allocate i requestedSize b) := by
  obtain ⟨pooledSize, hpooled, hcacheable, rfl⟩ := hinv.calls _ (List.mem_of_getElem? hpc)
  have hcut : (Pc.allocated requestedSize b).Cut s :=
    ⟨pooledSize, passthrough, hpooled, hcacheable, hraw⟩
  have hbuild : SameBuild s (s.allocate i requestedSize b) := ⟨rfl, rfl, rfl⟩
  refine ⟨fun pc hmem => hbuild.cut ((mem_set hcut pc hmem).elim (h.calls pc) id), ?_⟩
  intro c hc
  obtain rfl | hold := List.mem_cons.mp hc
  · exact allocateRaw_pages hraw
  · exact h.pages c hold

theorem next (h : Cuts s) (hinv : Inv s) {a : Action} (ha : pool.enabled s a) :
    Cuts (pool.next s a) := by
  have hbuild := sameBuild_next s a
  cases a with
  | acquire requestedSize =>
    refine h.frame hbuild ?_ ?_ <;> simp only [pool, Pool.acquire] <;> split
    · exact fun _ => id
    · exact fun _ => id
    · exact fun _ => .inl
    · exact mem_add trivial
  | lookup i requestedSize pooledSize =>
    refine h.frame hbuild ?_ ?_ <;> simp only [pool, Pool.lookup] <;> split
    · split <;> exact fun _ => id
    · exact fun _ => id
    · split <;> exact mem_set trivial
    · exact mem_set trivial
  | allocate i requestedSize size passthrough b => exact h.allocate hinv ha.1 ha.2.1
  | giveBack i b insertion =>
    refine h.frame hbuild ?_ ?_ <;> simp only [pool, Pool.giveBack] <;> split
    · split
      · cases insertion <;> exact fun _ => id
      · exact fun _ => id
    · exact fun _ => id
    · split
      · cases insertion <;> exact mem_set trivial
      · exact mem_set trivial
    · exact fun _ => .inl
  | freeRaw i b keepBytes =>
    refine h.frame hbuild ?_ ?_ <;> simp only [pool, Pool.freeRaw] <;> split
    · exact fun _ => id
    · exact List.erase_subset
    · exact fun _ => .inl
    · exact mem_set trivial
  | trim i keepBytes =>
    refine h.frame hbuild ?_ ?_ <;> simp only [pool, Pool.trim] <;> split
    · exact fun _ => id
    · split <;> exact fun _ => id
    · exact mem_set trivial
    · split <;> exact mem_set trivial
  | countFree i keepBytes =>
    refine h.frame hbuild (fun _ => id) (mem_set ?_)
    cases keepBytes <;> trivial
  | release n b => exact h.frame hbuild (fun _ => id) (mem_add trivial)
  | startTrim keepBytes => exact h.frame hbuild (fun _ => id) (mem_add trivial)
  | allocateFails => exact h.frame hbuild (fun _ => id) (mem_set trivial)
  | count => exact h.frame hbuild (fun _ => id) (mem_set trivial)
  | resetStats => exact h.frame hbuild (fun _ => id) fun _ => .inl

end Cuts

theorem cuts_of_reach (h : pool.Reach s) : Cuts s := by
  have hall : Inv s ∧ Cuts s := by
    refine h.invariant (I := fun s => Inv s ∧ Cuts s) (fun s hinit => ⟨inv_of_init hinit, ?_⟩)
      fun s a hs ha => ⟨hs.1.next ha, hs.2.next hs.1 ha⟩
    obtain ⟨-, -, -, -, hcalls, hsystem, -⟩ := hinit
    refine ⟨?_, ?_⟩ <;> simp [hcalls, hsystem]
  exact hall.2

end Steps

/-! ### The next request -/

section Reuse

variable {s : Pool} {i r p : ℕ} {b : FiberStackBlock} {insertion : Insertion}

/-- A block that `acquire` returns for a request with a class has the size of the class. -/
theorem acquired_size (hinv : Inv s) (hcuts : Cuts s) {a : Action} (ha : pool.enabled s a)
    (hreturns : a.returns s = some (r, b)) (hr : s.pooledSizeFor r = some p)
    (hcacheable : s.cacheable p = true)
    (hpages : ∀ guardSize, s.guardPages = some guardSize → ∃ k, guardSize = 2 ^ k) :
    b.usableSize = classSize s.guardPages p := by
  obtain ⟨⟨n, rfl⟩, hle, -⟩ := nextPowerOfTwo_rounded hr
  cases a with
  | lookup i requestedSize pooledSize =>
    simp only [Action.returns] at hreturns
    split at hreturns
    · obtain ⟨⟨block, freeLists⟩, hpop, heq⟩ := Option.map_eq_some_iff.mp hreturns
      obtain ⟨rfl, rfl⟩ := Prod.mk.inj heq
      have hclass := hinv.calls _ (List.mem_of_getElem? ha)
      obtain rfl := Option.some.inj (hclass.symm.trans hr)
      have hentry := (Stacks.pop_spec hpop).1.mem_iff.mpr List.mem_cons_self
      have hsize := (hinv.filed _ hentry).size
      have hlive : block ∈ s.system :=
        hinv.system.mem_iff.mpr (List.mem_append_left _ (List.mem_map_of_mem hentry))
      -- the pages divide the size of a block that exists
      rw [hsize]
      cases hguard : s.guardPages with
      | none => rfl
      | some guardSize =>
        have hdvd := hcuts.pages block hlive guardSize hguard
        rw [hsize] at hdvd
        exact (max_eq_left (Nat.le_of_dvd (Nat.two_pow_pos n) hdvd)).symm
    · cases hreturns
  | count i requestedSize block =>
    obtain ⟨rfl, rfl⟩ := Prod.mk.inj (Option.some.inj hreturns)
    obtain ⟨pooledSize, passthrough, hpooled, hpass, hraw⟩ :=
      hcuts.calls _ (List.mem_of_getElem? ha)
    obtain rfl := Option.some.inj (hpooled.symm.trans hr)
    obtain rfl : passthrough = false := by
      rw [hcacheable] at hpass
      simpa using hpass.symm
    exact allocateRaw_class ((le_max_right _ _).trans hle) hpages hraw
  | _ => cases hreturns

/-- `release` gives the block `b` back, and `acquire(r)` is called next; `p` is the class of `r`. -/
def releaseAcquire (s : Pool) (i : ℕ) (b : FiberStackBlock) (insertion : Insertion) (r p : ℕ) :
    List Action :=
  [.giveBack i b insertion, .acquire r, .lookup s.calls.length r p]

/-- From `s` to `t`, `acquire` has returned `b` from the cache. -/
@[mk_iff]
structure Reused (s t : Pool) (b : FiberStackBlock) : Prop where
  held : t.held = b :: s.held
  cacheHits : t.counters.cacheHits = add64 s.counters.cacheHits 1
  cacheMisses : t.counters.cacheMisses = s.counters.cacheMisses
  systemAllocations : t.counters.systemAllocations = s.counters.systemAllocations
  system : t.system = s.system

/-- The pages are no larger than the class, something is cached, and there is memory for the
insertion. -/
def Reusable (s : Pool) (p : ℕ) (insertion : Insertion) : Prop :=
  (∀ guardSize, s.guardPages = some guardSize → guardSize ≤ p) ∧ s.options.maxCachedBytes ≠ 0 ∧
    insertion = .stored

/-- What `release` leaves alone. -/
theorem giveBack_frame (s : Pool) (i : ℕ) (b : FiberStackBlock) (insertion : Insertion) :
    let t := s.giveBack i b insertion
    (t.calls.length = s.calls.length ∧ t.held = s.held ∧ t.system = s.system) ∧
      t.counters.cacheHits = s.counters.cacheHits ∧
      t.counters.cacheMisses = s.counters.cacheMisses ∧
      t.counters.systemAllocations = s.counters.systemAllocations := by
  have hset (pc : Pc) : (s.calls.set i pc).length = s.calls.length := List.length_set
  simp only [Pool.giveBack]
  split
  · split
    · cases insertion <;> exact ⟨⟨hset _, rfl, rfl⟩, rfl, rfl, rfl⟩
    · exact ⟨⟨hset _, rfl, rfl⟩, rfl, rfl, rfl⟩
  · exact ⟨⟨rfl, rfl, rfl⟩, rfl, rfl, rfl⟩

theorem reused_congr {s s' t : Pool} {b : FiberStackBlock} (hheld : s.held = s'.held)
    (hhits : s.counters.cacheHits = s'.counters.cacheHits)
    (hmisses : s.counters.cacheMisses = s'.counters.cacheMisses)
    (hallocations : s.counters.systemAllocations = s'.counters.systemAllocations)
    (hsystem : s.system = s'.system) : Reused s t b ↔ Reused s' t b := by
  simp only [reused_iff, hheld, hhits, hmisses, hallocations, hsystem]

theorem lookup_reused : Reused s (s.lookup i r p) b ↔
    s.cacheable p = true ∧ ∃ rest, s.freeLists.pop p = some (b, rest) := by
  have hmiss : ¬Reused s (s.miss i r p) b := by
    intro hreused
    have hlength := congrArg List.length hreused.held
    simp only [Pool.miss, Pool.setCall, List.length_cons] at hlength
    omega
  simp only [Pool.lookup]
  split
  next hcacheable =>
    split
    next c rest hpop =>
      constructor
      · intro hreused
        obtain ⟨rfl, -⟩ := List.cons.inj hreused.held
        exact ⟨hcacheable, rest, hpop⟩
      · rintro ⟨-, rest', hpop'⟩
        obtain ⟨rfl, -⟩ := Prod.mk.inj (Option.some.inj (hpop.symm.trans hpop'))
        exact ⟨rfl, rfl, rfl, rfl, rfl⟩
    next hpop =>
      refine iff_of_false hmiss ?_
      rintro ⟨-, rest, hpop'⟩
      cases hpop.symm.trans hpop'
  next hcacheable => exact iff_of_false hmiss fun h => hcacheable h.1

/-- The block is freed if there is no memory for the insertion. -/
theorem giveBack_calls (h : Account false s) (hpc : s.calls[i]? = some (.release b))
    (hne : insertion ≠ .stored) :
    (s.giveBack i b insertion).calls[i]? = some (.free b none) := by
  have hset : (s.calls.set i (.free b none))[i]? = some (.free b none) := by
    obtain ⟨hi, -⟩ := List.getElem?_eq_some_iff.mp hpc
    exact List.getElem?_set_self hi
  simp only [Pool.giveBack, h.le_checkedOutBytes hpc, if_true]
  split
  · cases insertion with
    | stored => exact absurd rfl hne
    | noEntry | noPlace => exact hset
  · exact hset

/-- A block in a free list is in no call. -/
theorem Inv.not_in_call (h : Inv s) {pc : Pc} (hpc : s.calls[i]? = some pc) (hb : b ∈ pc.blocks) :
    b ∉ s.cached := by
  intro hcached
  have hone := h.one_place (List.mem_append_left _ hcached)
  have hcall : b ∈ s.owned :=
    List.mem_append_right _ (List.mem_flatMap.mpr ⟨pc, List.mem_of_getElem? hpc, hb⟩)
  have hleft := List.count_pos_iff.mpr
    (List.mem_map_of_mem (f := FiberStackBlock.allocation) hcached)
  have hright := List.count_pos_iff.mpr
    (List.mem_map_of_mem (f := FiberStackBlock.allocation) hcall)
  omega

theorem giveBack_pop (hinv : Inv s) (h : Account false s) (hpc : s.calls[i]? = some (.release b))
    (hsize : s.cacheable p = true → b.usableSize = classSize s.guardPages p)
    (hclass : ∃ n, p = 2 ^ n) (hp : p ≤ s.options.maxPooledStackSize)
    (hroom : b.allocationSize ≤ s.options.maxCachedBytes - s.counters.cachedBytes) :
    (s.cacheable p = true ∧ ∃ rest, (s.giveBack i b insertion).freeLists.pop p = some (b, rest)) ↔
      Reusable s p insertion := by
  have hpos : 0 < p := by
    obtain ⟨n, rfl⟩ := hclass
    exact Nat.two_pow_pos n
  have hcacheable : s.cacheable p = true ↔ s.options.maxCachedBytes ≠ 0 := by
    simp only [Pool.cacheable, Bool.and_eq_true, decide_eq_true_eq]
    omega
  constructor
  · rintro ⟨hc, rest, hpop⟩
    have hback : Inv (s.giveBack i b insertion) := hinv.giveBack hpc insertion
    have hentry := (Stacks.pop_spec hpop).1.mem_iff.mpr List.mem_cons_self
    have hfiled := (hback.filed _ hentry).size
    refine ⟨fun guardSize hguard => ?_, hcacheable.mp hc, ?_⟩
    · have hfile : classSize s.guardPages p = p := (hsize hc).symm.trans hfiled
      rw [hguard] at hfile
      exact max_eq_left_iff.mp hfile
    · by_contra hne
      exact hback.not_in_call (giveBack_calls h hpc hne) (List.mem_singleton_self b)
        (List.mem_map_of_mem hentry)
  · rintro ⟨hpages, hmax, rfl⟩
    have hc := hcacheable.mpr hmax
    have hfile : b.usableSize = p := by
      rw [hsize hc]
      cases hguard : s.guardPages with
      | none => rfl
      | some guardSize => exact max_eq_left (hpages guardSize hguard)
    have hlimit : s.counters.cachedBytes ≤ s.options.maxCachedBytes := by
      rw [h.agrees.cachedBytes]
      exact h.agrees.limit
    have haccepts : Pool.accepts { s with counters := Account.taken s.counters b } b = true := by
      rw [accepts_iff, hfile]
      exact ⟨hmax, by omega, hclass, hp, hlimit, hroom⟩
    refine ⟨hc, ?_⟩
    simp only [Account.taken] at haccepts
    simp only [Pool.giveBack, h.le_checkedOutBytes hpc, if_true, haccepts, Pool.store, hfile]
    exact Stacks.pop_push p b s.freeLists

end Reuse

/-- **Reuse.**  A block that was acquired for `r` is released with room for it in the cache; the
next `acquire` of the same class returns it, as a hit and without a system allocation, exactly if
the pages are no larger than the class, something is cached at all, and there is memory for the
insertion. -/
theorem pool_reuse {s₀ s : Pool} (h : pool.Reach s₀) {a : Action} (ha : pool.enabled s₀ a)
    {r : ℕ} {b : FiberStackBlock} (hreturns : a.returns s₀ = some (r, b))
    (hlater : pool.Later (fun _ _ => True) (pool.next s₀ a) s) {i : ℕ}
    (hpc : s.calls[i]? = some (.release b))
    (hpages : ∀ guardSize, s.guardPages = some guardSize → ∃ k, guardSize = 2 ^ k)
    (r₂ p : ℕ) (hr : s.pooledSizeFor r = some p) (hr₂ : s.pooledSizeFor r₂ = some p)
    (hp : p ≤ s.options.maxPooledStackSize)
    (hroom : b.allocationSize ≤ s.options.maxCachedBytes - s.counters.cachedBytes)
    (insertion : Insertion) :
    pool.Allowed (fun _ _ => True) s (releaseAcquire s i b insertion r₂ p) ∧
    (Reused s (pool.run s (releaseAcquire s i b insertion r₂ p)) b ↔ Reusable s p insertion) := by
  have hbefore := account_of_reachVia false (fun _ _ _ => nofun) h
  have hnow : pool.Reach s := (h.step ha trivial).later hlater
  obtain ⟨hinv, haccount⟩ := account_of_reachVia false (fun _ _ _ => nofun) hnow
  have hsame : SameBuild s₀ s := (sameBuild_next s₀ a).trans (sameBuild_later hlater)
  have hsize : s.cacheable p = true → b.usableSize = classSize s.guardPages p := by
    intro hc
    rw [hsame.guardPages]
    apply acquired_size hbefore.1 (cuts_of_reach h) ha hreturns
    · simpa only [Pool.pooledSizeFor, hsame.minimum] using hr
    · simpa only [Pool.cacheable, hsame.options] using hc
    · simpa only [hsame.guardPages] using hpages
  obtain ⟨⟨hlength, hheld, hsystem⟩, hhits, hmisses, hallocations⟩ :=
    giveBack_frame s i b insertion
  have hback : SameBuild s (s.giveBack i b insertion) :=
    sameBuild_next s (.giveBack i b insertion)
  have hpooled : (s.giveBack i b insertion).pooledSizeFor r₂ = some p := by
    simpa only [Pool.pooledSizeFor, hback.minimum] using hr₂
  have hacquire : (s.giveBack i b insertion).acquire r₂ = { s.giveBack i b insertion with
      calls := (s.giveBack i b insertion).calls ++ [.acquire r₂ p] } := by
    simp only [Pool.acquire, hpooled]
  have hcall : ((s.giveBack i b insertion).acquire r₂).calls[s.calls.length]? =
      some (.acquire r₂ p) := by
    rw [hacquire, ← hlength]
    exact List.getElem?_concat_length
  refine ⟨⟨⟨hpc, trivial⟩, ⟨trivial, trivial⟩, ⟨hcall, trivial⟩, trivial⟩, ?_⟩
  have hclass := (nextPowerOfTwo_rounded hr).pow
  rw [← giveBack_pop hinv haccount hpc hsize hclass hp hroom]
  change Reused s (((s.giveBack i b insertion).acquire r₂).lookup s.calls.length r₂ p) b ↔ _
  rw [← reused_congr (s := (s.giveBack i b insertion).acquire r₂) (by rw [hacquire]; exact hheld)
    (by rw [hacquire]; exact hhits) (by rw [hacquire]; exact hmisses)
    (by rw [hacquire]; exact hallocations) (by rw [hacquire]; exact hsystem), lookup_reused,
    hacquire]
  simp only [Pool.cacheable, hback.options]

/-- A pool with pages of 4096 bytes and a minimum of 2048 has allocated `b` for `r` bytes of the
class `p`. -/
def pagedPool (r p : ℕ) (b : FiberStackBlock) : Pool :=
  pool.run (.fresh 2048 (some 4096) ⟨1048576, 65536⟩)
    [.acquire r, .lookup 0 r p, .allocate 0 r p false b]

/-- `b` is handed out and comes back. -/
def pagedRelease (r p : ℕ) (b : FiberStackBlock) : Pool :=
  pool.run (pool.next (pagedPool r p b) (.count 0 r b)) [.release 0 b]

theorem pool_reuse_larger_class :
    let b : FiberStackBlock := ⟨65536, 69632, 8192, 12288, .mmap, false⟩
    let s := pagedRelease 5000 8192 b
    Reused s (pool.run s (releaseAcquire s 1 b .stored 6000 8192)) b := by
  intro b s
  have hinit : pool.init (.fresh 2048 (some 4096) ⟨1048576, 65536⟩) :=
    pool_init_fresh (some 4096) ⟨1048576, 65536⟩ (by decide +kernel)
  have hreach : pool.Reach (pagedPool 5000 8192 b) :=
    Machine.reachVia_run (.start hinit) (by decide +kernel)
  have hlater : pool.Later (fun _ _ => True)
      (pool.next (pagedPool 5000 8192 b) (.count 0 5000 b)) s :=
    Machine.later_run (by decide +kernel)
  have hreuse := pool_reuse hreach (a := .count 0 5000 b) (by decide +kernel) rfl hlater (i := 1)
    (by decide +kernel) (fun guardSize hguard => ⟨12, by cases hguard; rfl⟩) 6000 8192
    (by decide +kernel) (by decide +kernel) (by decide +kernel) (by decide +kernel) .stored
  refine hreuse.2.mpr ⟨fun guardSize hguard => ?_, by decide +kernel, rfl⟩
  cases hguard
  decide

/-- A stack for 1000 bytes is of the class 2048 and comes to have a page.  It is filed under 4096,
and the next request of its class allocates another one. -/
theorem small_class_not_reused :
    let b : FiberStackBlock := ⟨65536, 69632, 4096, 8192, .mmap, false⟩
    let s := pagedRelease 1000 2048 b
    let t := pool.run s (releaseAcquire s 1 b .stored 1000 2048)
    (pool.Reach (pagedPool 1000 2048 b) ∧ pool.enabled (pagedPool 1000 2048 b) (.count 0 1000 b) ∧
      (Action.count 0 1000 b).returns (pagedPool 1000 2048 b) = some (1000, b) ∧
      s.calls[1]? = some (.release b)) ∧
    (s.pooledSizeFor 1000 = some 2048 ∧ 2048 ≤ s.options.maxPooledStackSize ∧
      b.allocationSize ≤ s.options.maxCachedBytes - s.counters.cachedBytes) ∧
    (t.freeLists.entries = [(4096, b)] ∧ t.counters.cacheMisses = 2 ∧
      t.calls[2]? = some (.allocate 1000 2048 false)) ∧
    ¬Reused s t b := by
  intro b s t
  have hinit : pool.init (.fresh 2048 (some 4096) ⟨1048576, 65536⟩) :=
    pool_init_fresh (some 4096) ⟨1048576, 65536⟩ (by decide +kernel)
  have hreach : pool.Reach (pagedPool 1000 2048 b) :=
    Machine.reachVia_run (.start hinit) (by decide +kernel)
  refine ⟨⟨hreach, by decide +kernel, rfl, by decide +kernel⟩, by decide +kernel,
    by decide +kernel, ?_⟩
  rintro ⟨hheld, -⟩
  revert hheld
  decide +kernel

end PulsarRuntime.Stack
