import Mathlib.Algebra.Order.BigOperators.Group.List
import Mathlib.Algebra.Order.Group.Nat
import PulsarRuntime.Stack.Ownership

/-!
# The counters of the pool

What the counters should be is read off the blocks: `totals` adds up the free lists, the blocks that
have been handed out and not been taken back, and the calls that are about to free a block or have
just freed one.  A step moves a block between these, and the counters with it.  The sums cannot wrap
around, since the live blocks do not overlap and so fit into the address space (`bytes_lt`).
-/

namespace PulsarRuntime.Stack

/-- The sum of the allocation sizes. -/
def bytes (blocks : List FiberStackBlock) : ℕ := (blocks.map FiberStackBlock.allocationSize).sum

section Bytes

variable {b : FiberStackBlock} {blocks blocks' : List FiberStackBlock}

@[simp]
theorem bytes_nil : bytes [] = 0 := rfl

@[simp]
theorem bytes_cons : bytes (b :: blocks) = b.allocationSize + bytes blocks := by
  simp [bytes]

@[simp]
theorem bytes_append : bytes (blocks ++ blocks') = bytes blocks + bytes blocks' := by
  simp [bytes]

theorem bytes_perm (h : blocks.Perm blocks') : bytes blocks = bytes blocks' :=
  (h.map FiberStackBlock.allocationSize).sum_nat

/-- Blocks that do not overlap have fewer bytes together than there are addresses. -/
theorem bytes_lt_of_apart (hapart : blocks.Pairwise FiberStackBlock.Apart)
    (haddressable : ∀ b ∈ blocks, b.Addressable) : bytes blocks < 2 ^ 64 := by
  -- no block is at address 0, so the ranges can be moved down by one
  let range (b : FiberStackBlock) := Finset.Ico (b.allocation - 1) (b.allocation - 1 + b.span)
  have hcard (b : FiberStackBlock) : (range b).card = b.span := by simp [range]
  have hdisjoint : blocks.Pairwise fun b c => Disjoint (range b) (range c) := by
    refine hapart.imp_of_mem fun {b c} hb hc hbc => ?_
    have hb' := (haddressable b hb).1
    have hc' := (haddressable c hc).1
    refine Finset.disjoint_left.mpr fun x hx hx' => ?_
    simp only [range, Finset.mem_Ico] at hx hx'
    obtain hbc | hbc := hbc <;> omega
  have hbelow : ∀ b ∈ blocks, range b ⊆ Finset.range (2 ^ 64 - 1) := by
    intro b hb x hx
    obtain ⟨hpos, hend⟩ := haddressable b hb
    simp only [range, Finset.mem_Ico] at hx
    rw [Finset.mem_range]
    omega
  have hsum := sum_length_le range hdisjoint hbelow
  simp only [hcard] at hsum
  have hle : bytes blocks ≤ (blocks.map fun b => b.span).sum := by
    refine List.sum_le_sum fun b _ => ?_
    exact le_max_right _ _
  omega

end Bytes

/-! ### Totals -/

/-- The block that a call of `release` has still to take back. -/
def Pc.checkedOut : Pc → List FiberStackBlock
  | .release b => [b]
  | _ => []

/-- The free of a block is in progress, up to the count. -/
def Pc.freeing : Pc → ℕ
  | .free _ _ | .freed _ => 1
  | _ => 0

/-- The blocks handed out and not yet taken back. -/
def Pool.checkedOut (s : Pool) : List FiberStackBlock := s.held ++ s.calls.flatMap Pc.checkedOut

structure Totals where
  cachedBytes : ℕ
  cachedBlocks : ℕ
  checkedOutBytes : ℕ
  checkedOutBlocks : ℕ
  freeing : ℕ

def Pool.totals (s : Pool) : Totals where
  cachedBytes := bytes s.cached
  cachedBlocks := s.cached.length
  checkedOutBytes := bytes s.checkedOut
  checkedOutBlocks := s.checkedOut.length
  freeing := (s.calls.map Pc.freeing).sum

/-- Where a block counts. -/
inductive Place where
  | system
  | cached
  | out
  | freeing
  deriving DecidableEq

/-- The block, if `p` is the place in question. -/
def Place.pick (p : Place) (b : FiberStackBlock) (q : Place) : List FiberStackBlock :=
  if p = q then [b] else []

/-- The block `b` goes from `p` to `q`. -/
structure Moved (b : FiberStackBlock) (p q : Place) (s s' : Pool) : Prop where
  cached : (p.pick b .cached ++ s'.cached).Perm (q.pick b .cached ++ s.cached)
  out : (p.pick b .out ++ s'.checkedOut).Perm (q.pick b .out ++ s.checkedOut)
  freeing : (s'.calls.map Pc.freeing).sum + (p.pick b .freeing).length =
    (s.calls.map Pc.freeing).sum + (q.pick b .freeing).length

/-- The totals move with the block. -/
structure Shifted (b : FiberStackBlock) (p q : Place) (t t' : Totals) : Prop where
  cachedBytes : bytes (p.pick b .cached) + t'.cachedBytes =
    bytes (q.pick b .cached) + t.cachedBytes
  cachedBlocks : (p.pick b .cached).length + t'.cachedBlocks =
    (q.pick b .cached).length + t.cachedBlocks
  checkedOutBytes : bytes (p.pick b .out) + t'.checkedOutBytes =
    bytes (q.pick b .out) + t.checkedOutBytes
  checkedOutBlocks : (p.pick b .out).length + t'.checkedOutBlocks =
    (q.pick b .out).length + t.checkedOutBlocks
  freeing : t'.freeing + (p.pick b .freeing).length = t.freeing + (q.pick b .freeing).length

theorem Moved.shifted {b : FiberStackBlock} {p q : Place} {s s' : Pool} (h : Moved b p q s s') :
    Shifted b p q s.totals s'.totals := by
  refine ⟨?_, ?_, ?_, ?_, h.freeing⟩
  · simpa only [Pool.totals, bytes_append] using bytes_perm h.cached
  · simpa only [Pool.totals, List.length_append] using h.cached.length_eq
  · simpa only [Pool.totals, bytes_append] using bytes_perm h.out
  · simpa only [Pool.totals, List.length_append] using h.out.length_eq

/-- A step of the `i`th call moves a block. -/
theorem moved_of {s s' : Pool} {i : ℕ} {pc pc' : Pc} {b : FiberStackBlock} {p q : Place}
    (hpc : s.calls[i]? = some pc) (hcalls : s'.calls = s.calls.set i pc')
    (hcached : (p.pick b .cached ++ s'.cached).Perm (q.pick b .cached ++ s.cached))
    (hheld : (p.pick b .out ++ (pc'.checkedOut ++ s'.held)).Perm
      (q.pick b .out ++ (pc.checkedOut ++ s.held)))
    (hfreeing : pc'.freeing + (p.pick b .freeing).length =
      pc.freeing + (q.pick b .freeing).length) : Moved b p q s s' := by
  refine ⟨hcached, ?_, ?_⟩
  · have hset := flatMap_set_perm Pc.checkedOut hpc pc'
    rw [List.perm_iff_count] at hset hheld ⊢
    intro x
    have hcount := hset x
    have hcount' := hheld x
    simp only [Pool.checkedOut, hcalls, List.count_append] at hcount hcount' ⊢
    omega
  · have hsum := sum_map_set Pc.freeing hpc pc'
    rw [hcalls]
    omega

/-- The counters agree with the totals.  `clean` says that `resetStats` has not been called. -/
structure Agrees (clean : Bool) (maxCachedBytes : ℕ) (c : FiberStackStats) (t : Totals) : Prop where
  cachedBytes : c.cachedBytes = t.cachedBytes
  limit : t.cachedBytes ≤ maxCachedBytes
  checkedOutBytes : c.checkedOutBytes = t.checkedOutBytes
  requests : c.acquireRequests = add64 c.cacheHits c.cacheMisses
  peak : c.checkedOutBytes ≤ c.peakCheckedOutBytes
  systems : clean = true → sub64 c.systemAllocations c.systemFrees =
    (t.cachedBlocks + t.checkedOutBlocks + t.freeing) % 2 ^ 64

structure Account (clean : Bool) (s : Pool) : Prop where
  agrees : Agrees clean s.options.maxCachedBytes s.counters s.totals
  running : s.terminated = false

theorem account_of_init {s : Pool} {clean : Bool} (h : pool.init s) : Account clean s := by
  obtain ⟨-, hfree, hcounters, hheld, hcalls, -, hterminated⟩ := h
  refine ⟨?_, hterminated⟩
  simp only [Pool.totals, Pool.checkedOut, Pool.cached, hfree, hcounters, hheld, hcalls]
  exact ⟨rfl, Nat.zero_le _, rfl, rfl, le_rfl, fun _ => rfl⟩

theorem add64_eq {a b : ℕ} (h : a + b < 2 ^ 64) : add64 a b = a + b := Nat.mod_eq_of_lt h

theorem sub64_eq {a b : ℕ} (hb : b ≤ a) (ha : a < 2 ^ 64) : sub64 a b = a - b := by
  simp only [sub64]
  omega

/-! ### What the critical sections do to the counters -/

namespace Agrees

variable {clean : Bool} {maxCachedBytes : ℕ} {c : FiberStackStats} {t t' : Totals}
  {b : FiberStackBlock} (h : Agrees clean maxCachedBytes c t)
include h

theorem miss (passthroughAllocations : ℕ) :
    Agrees clean maxCachedBytes { c with
      acquireRequests := add64 c.acquireRequests 1
      cacheMisses := add64 c.cacheMisses 1
      passthroughAllocations := passthroughAllocations } t := by
  refine { h with requests := ?_ }
  have hrequests := h.requests
  simp only [add64] at hrequests ⊢
  omega

theorem hit (hs : Shifted b .cached .out t t') (hlt : t.cachedBytes + t.checkedOutBytes < 2 ^ 64) :
    Agrees clean maxCachedBytes { c with
      acquireRequests := add64 c.acquireRequests 1
      cacheHits := add64 c.cacheHits 1
      cachedBytes := sub64 c.cachedBytes b.allocationSize
      checkedOutBytes := add64 c.checkedOutBytes b.allocationSize
      peakCheckedOutBytes :=
        max c.peakCheckedOutBytes (add64 c.checkedOutBytes b.allocationSize) } t' := by
  obtain ⟨hc, hlimit, ho, hrequests, hpeak, hsystems⟩ := h
  obtain ⟨hcb, hcn, hob, hon, hf⟩ := hs
  simp [Place.pick] at hcb hcn hob hon hf
  refine ⟨?_, ?_, ?_, ?_, le_max_right _ _, fun hclean => ?_⟩
  · simp only
    rw [sub64_eq] <;> omega
  · omega
  · simp only
    rw [add64_eq] <;> omega
  · simp only [add64] at hrequests ⊢
    omega
  · rw [hsystems hclean]
    omega

theorem count (hs : Shifted b .system .out t t')
    (hlt : t.checkedOutBytes + b.allocationSize < 2 ^ 64) :
    Agrees clean maxCachedBytes { c with
      systemAllocations := add64 c.systemAllocations 1
      checkedOutBytes := add64 c.checkedOutBytes b.allocationSize
      peakCheckedOutBytes :=
        max c.peakCheckedOutBytes (add64 c.checkedOutBytes b.allocationSize) } t' := by
  obtain ⟨hc, hlimit, ho, hrequests, hpeak, hsystems⟩ := h
  obtain ⟨hcb, hcn, hob, hon, hf⟩ := hs
  simp [Place.pick] at hcb hcn hob hon hf
  refine ⟨hc.trans (by omega), by omega, ?_, hrequests, le_max_right _ _, fun hclean => ?_⟩
  · simp only
    rw [add64_eq] <;> omega
  · have hsystem := hsystems hclean
    simp only [sub64, add64] at hsystem ⊢
    omega

theorem store (hs : Shifted b .out .cached t t') (hlt : t.cachedBytes + t.checkedOutBytes < 2 ^ 64)
    (hroom : b.allocationSize ≤ maxCachedBytes - c.cachedBytes) :
    Agrees clean maxCachedBytes { c with
      returns := add64 c.returns 1
      checkedOutBytes := sub64 c.checkedOutBytes b.allocationSize
      cachedBytes := add64 c.cachedBytes b.allocationSize } t' := by
  obtain ⟨hc, hlimit, ho, hrequests, hpeak, hsystems⟩ := h
  obtain ⟨hcb, hcn, hob, hon, hf⟩ := hs
  simp [Place.pick] at hcb hcn hob hon hf
  have hsub : sub64 c.checkedOutBytes b.allocationSize = t'.checkedOutBytes := by
    rw [sub64_eq] <;> omega
  refine ⟨?_, by omega, hsub, hrequests, ?_, fun hclean => ?_⟩
  · simp only
    rw [add64_eq] <;> omega
  · simp only [hsub]
    omega
  · rw [hsystems hclean]
    omega

theorem evict (hs : Shifted b .out .freeing t t') (hlt : t.checkedOutBytes < 2 ^ 64) :
    Agrees clean maxCachedBytes { c with
      returns := add64 c.returns 1
      checkedOutBytes := sub64 c.checkedOutBytes b.allocationSize
      evictions := add64 c.evictions 1 } t' := by
  obtain ⟨hc, hlimit, ho, hrequests, hpeak, hsystems⟩ := h
  obtain ⟨hcb, hcn, hob, hon, hf⟩ := hs
  simp [Place.pick] at hcb hcn hob hon hf
  have hsub : sub64 c.checkedOutBytes b.allocationSize = t'.checkedOutBytes := by
    rw [sub64_eq] <;> omega
  refine ⟨hc.trans (by omega), by omega, hsub, hrequests, ?_, fun hclean => ?_⟩
  · simp only [hsub]
    omega
  · rw [hsystems hclean]
    omega

theorem trim (hs : Shifted b .cached .freeing t t') (hlt : t.cachedBytes < 2 ^ 64) :
    Agrees clean maxCachedBytes { c with
      cachedBytes := sub64 c.cachedBytes b.allocationSize
      evictions := add64 c.evictions 1 } t' := by
  obtain ⟨hc, hlimit, ho, hrequests, hpeak, hsystems⟩ := h
  obtain ⟨hcb, hcn, hob, hon, hf⟩ := hs
  simp [Place.pick] at hcb hcn hob hon hf
  refine ⟨?_, by omega, ho.trans (by omega), hrequests, hpeak, fun hclean => ?_⟩
  · simp only
    rw [sub64_eq] <;> omega
  · rw [hsystems hclean]
    omega

theorem countFree (hs : Shifted b .freeing .system t t') :
    Agrees clean maxCachedBytes { c with systemFrees := add64 c.systemFrees 1 } t' := by
  obtain ⟨hc, hlimit, ho, hrequests, hpeak, hsystems⟩ := h
  obtain ⟨hcb, hcn, hob, hon, hf⟩ := hs
  simp [Place.pick] at hcb hcn hob hon hf
  refine ⟨hc.trans (by omega), by omega, ho.trans (by omega), hrequests, hpeak, fun hclean => ?_⟩
  have hsystem := hsystems hclean
  simp only [sub64, add64] at hsystem ⊢
  omega

end Agrees

theorem Pc.bytes_checkedOut_le (pc : Pc) : bytes pc.checkedOut ≤ bytes pc.blocks := by
  cases pc <;> simp [Pc.checkedOut, Pc.blocks]

theorem bytes_checkedOut_le (calls : List Pc) :
    bytes (calls.flatMap Pc.checkedOut) ≤ bytes (calls.flatMap Pc.blocks) := by
  induction calls with
  | nil => exact le_rfl
  | cons pc rest ih =>
    have hpc := pc.bytes_checkedOut_le
    simp only [List.flatMap_cons, bytes_append]
    omega

section Fits

variable {s : Pool}

theorem Inv.bytes_lt (h : Inv s) :
    bytes s.cached + bytes s.held + bytes (s.calls.flatMap Pc.blocks) < 2 ^ 64 := by
  have hlt := bytes_lt_of_apart h.apart fun b hb => (h.built b hb).addressable
  rw [bytes_perm h.system] at hlt
  simpa only [Pool.live, Pool.owned, bytes_append, Nat.add_assoc] using hlt

theorem Inv.totals_lt (h : Inv s) : s.totals.cachedBytes + s.totals.checkedOutBytes < 2 ^ 64 := by
  have hlt := h.bytes_lt
  have hle := bytes_checkedOut_le s.calls
  simp only [Pool.totals, Pool.checkedOut, bytes_append]
  omega

/-- There is room for a block that has been allocated and is not counted yet. -/
theorem Inv.totals_lt_of_allocated (h : Inv s) {i requestedSize : ℕ} {b : FiberStackBlock}
    (hpc : s.calls[i]? = some (.allocated requestedSize b)) :
    s.totals.checkedOutBytes + b.allocationSize < 2 ^ 64 := by
  have hlt := h.bytes_lt
  obtain ⟨rest, hcalls, -⟩ := exists_perm_set hpc
  have hle := bytes_checkedOut_le rest
  rw [bytes_perm (hcalls.flatMap_right Pc.blocks)] at hlt
  simp only [Pool.totals, Pool.checkedOut, bytes_append,
    bytes_perm (hcalls.flatMap_right Pc.checkedOut)]
  simp only [List.flatMap_cons, Pc.blocks, Pc.checkedOut, bytes_append, bytes_cons, bytes_nil,
    List.nil_append] at hlt ⊢
  omega

end Fits

namespace Account

variable {clean : Bool} {s s' : Pool} {i : ℕ} {pc : Pc} {b : FiberStackBlock}

/-- The step leaves the counters alone. -/
theorem same (h : Account clean s) (hcounters : s'.counters = s.counters)
    (hoptions : s'.options = s.options) (hterminated : s'.terminated = s.terminated)
    (htotals : s'.totals = s.totals) : Account clean s' := by
  refine ⟨?_, hterminated.trans h.running⟩
  rw [hcounters, hoptions, htotals]
  exact h.agrees

/-- A call goes on, and the totals do not change. -/
theorem totals_setCall (hpc : s.calls[i]? = some pc) {pc' : Pc}
    (hout : pc'.checkedOut = pc.checkedOut) (hfreeing : pc'.freeing = pc.freeing) :
    (s.setCall i pc').totals = s.totals := by
  have hset := (List.perm_append_left_iff _).mp (hout ▸ flatMap_set_perm Pc.checkedOut hpc pc')
  have hsum := sum_map_set Pc.freeing hpc pc'
  rw [hfreeing, Nat.add_right_cancel_iff] at hsum
  simp only [Pool.totals, Pool.setCall, Pool.checkedOut, Pool.cached, bytes_append,
    List.length_append, bytes_perm hset, hset.length_eq, hsum]

/-- The counters after `release` has taken `b` back. -/
def taken (c : FiberStackStats) (b : FiberStackBlock) : FiberStackStats :=
  { c with
    returns := add64 c.returns 1
    checkedOutBytes := sub64 c.checkedOutBytes b.allocationSize }

section

variable (h : Account clean s)
include h

theorem setCall (hpc : s.calls[i]? = some pc) {pc' : Pc}
    (hout : pc'.checkedOut = pc.checkedOut) (hfreeing : pc'.freeing = pc.freeing) :
    Account clean (s.setCall i pc') :=
  h.same rfl rfl rfl (totals_setCall hpc hout hfreeing)

theorem addCall (hout : pc.checkedOut = []) (hfreeing : pc.freeing = 0) :
    Account clean { s with calls := s.calls ++ [pc] } := by
  refine h.same rfl rfl rfl ?_
  simp [Pool.totals, Pool.checkedOut, Pool.cached, hout, hfreeing]

theorem acquire (requestedSize : ℕ) : Account clean (s.acquire requestedSize) := by
  simp only [Pool.acquire]
  split
  · exact h
  · exact h.addCall rfl rfl

theorem miss {requestedSize pooledSize : ℕ}
    (hpc : s.calls[i]? = some (.acquire requestedSize pooledSize)) :
    Account clean (s.miss i requestedSize pooledSize) := by
  have hmiss : Account clean (s.setCall i (.allocate requestedSize
      (if !s.cacheable pooledSize then requestedSize else pooledSize) (!s.cacheable pooledSize))) :=
    h.setCall hpc rfl rfl
  exact ⟨hmiss.agrees.miss _, h.running⟩

theorem lookup (hinv : Inv s) {requestedSize pooledSize : ℕ}
    (hpc : s.calls[i]? = some (.acquire requestedSize pooledSize)) :
    Account clean (s.lookup i requestedSize pooledSize) := by
  simp only [Pool.lookup]
  split
  · split
    next b freeLists hpop =>
      have hmoved : Moved b .cached .out s (s.hit i b freeLists) :=
        moved_of hpc rfl ((Stacks.pop_spec hpop).1.map Prod.snd).symm (.refl _) rfl
      exact ⟨h.agrees.hit hmoved.shifted hinv.totals_lt, h.running⟩
    · exact h.miss hpc
  · exact h.miss hpc

theorem allocate {requestedSize size : ℕ} {passthrough : Bool}
    (hpc : s.calls[i]? = some (.allocate requestedSize size passthrough)) :
    Account clean (s.allocate i requestedSize b) := by
  have hset : Account clean (s.setCall i (.allocated requestedSize b)) := h.setCall hpc rfl rfl
  exact hset.same rfl rfl rfl rfl

theorem count (hinv : Inv s) {requestedSize : ℕ}
    (hpc : s.calls[i]? = some (.allocated requestedSize b)) : Account clean (s.count i b) := by
  have hmoved : Moved b .system .out s (s.count i b) :=
    moved_of hpc rfl (.refl _) (.refl _) rfl
  exact ⟨h.agrees.count hmoved.shifted (hinv.totals_lt_of_allocated hpc), h.running⟩

theorem release {n : ℕ} (hheld : s.held[n]? = some b) : Account clean (s.release n b) := by
  have hperm : (s.release n b).checkedOut.Perm s.checkedOut := by
    have herase := perm_eraseIdx hheld
    rw [List.perm_iff_count] at herase ⊢
    intro x
    have hcount := herase x
    simp only [Pool.release, Pool.checkedOut, List.flatMap_append, List.flatMap_cons,
      List.flatMap_nil, Pc.checkedOut, List.count_append, List.count_cons,
      List.count_nil] at hcount ⊢
    omega
  refine h.same rfl rfl rfl ?_
  simp only [Pool.totals, bytes_perm hperm, hperm.length_eq]
  simp [Pool.release, Pool.cached, Pc.freeing]

/-- The block that is given back has been counted, so the subtraction is guarded for nothing. -/
theorem le_checkedOutBytes (hpc : s.calls[i]? = some (.release b)) :
    b.allocationSize ≤ s.counters.checkedOutBytes := by
  have hset := bytes_perm (flatMap_set_perm Pc.checkedOut hpc .ended)
  rw [h.agrees.checkedOutBytes]
  simp only [Pool.totals, Pool.checkedOut, Pc.checkedOut, bytes_append, bytes_cons,
    bytes_nil] at hset ⊢
  omega

theorem store (hinv : Inv s) (hpc : s.calls[i]? = some (.release b))
    (haccepts : { s with counters := taken s.counters b }.accepts b = true) :
    Account clean ({ s with counters := taken s.counters b }.store i b) := by
  have hmoved : Moved b .out .cached s ({ s with counters := taken s.counters b }.store i b) :=
    moved_of hpc rfl ((Stacks.push_entries b.usableSize b s.freeLists).map Prod.snd) (.refl _) rfl
  obtain ⟨-, -, -, -, -, hroom⟩ := accepts_iff.mp haccepts
  exact ⟨h.agrees.store hmoved.shifted hinv.totals_lt hroom, h.running⟩

theorem evict (hinv : Inv s) (hpc : s.calls[i]? = some (.release b))
    {freeLists : Stacks ℕ FiberStackBlock} (hsame : freeLists.entries = s.freeLists.entries) :
    Account clean ({ s with counters := taken s.counters b }.evict i b none freeLists) := by
  have hcached : ({ s with counters := taken s.counters b }.evict i b none freeLists).cached =
      s.cached := congrArg (List.map Prod.snd) hsame
  have hmoved : Moved b .out .freeing s
      ({ s with counters := taken s.counters b }.evict i b none freeLists) := by
    refine moved_of hpc rfl ?_ (.refl _) rfl
    rw [hcached]
    exact .refl _
  have hlt := hinv.totals_lt
  exact ⟨h.agrees.evict hmoved.shifted (by omega), h.running⟩

theorem giveBack (hinv : Inv s) (hpc : s.calls[i]? = some (.release b))
    (insertion : Insertion) : Account clean (s.giveBack i b insertion) := by
  simp only [Pool.giveBack, h.le_checkedOutBytes hpc, if_true]
  split
  next haccepts =>
    cases insertion with
    | stored => exact h.store hinv hpc haccepts
    | noEntry => exact h.evict hinv hpc rfl
    | noPlace => exact h.evict hinv hpc (Stacks.touch_entries _ _)
  · exact h.evict hinv hpc rfl

theorem trim (hinv : Inv s) {keepBytes : ℕ}
    (hpc : s.calls[i]? = some (.trim keepBytes)) : Account clean (s.trim i keepBytes) := by
  simp only [Pool.trim]
  split
  · exact h.setCall hpc rfl rfl
  · split
    · exact h.setCall hpc rfl rfl
    next victim freeLists hpop =>
      obtain ⟨k, hentries⟩ := Stacks.popLast_entries hpop
      have hmoved : Moved victim .cached .freeing s
          ({ s with counters := { s.counters with
            cachedBytes := sub64 s.counters.cachedBytes victim.allocationSize } }.evict i victim
              (some keepBytes) freeLists) :=
        moved_of hpc rfl (hentries.map Prod.snd).symm (.refl _) rfl
      have hlt := hinv.totals_lt
      exact ⟨h.agrees.trim hmoved.shifted (by omega), h.running⟩

theorem freeRaw (hinv : Inv s) {keepBytes : Option ℕ}
    (hpc : s.calls[i]? = some (.free b keepBytes)) : Account clean (s.freeRaw i b keepBytes) := by
  rw [hinv.freeRaw_eq hpc]
  have hset : Account clean (s.setCall i (.freed keepBytes)) := h.setCall hpc rfl rfl
  exact hset.same rfl rfl rfl rfl

theorem countFree {keepBytes : Option ℕ}
    (hpc : s.calls[i]? = some (.freed keepBytes)) : Account clean (s.countFree i keepBytes) := by
  have hmoved : Moved .empty .freeing .system s (s.countFree i keepBytes) := by
    cases keepBytes with
    | none => exact moved_of hpc rfl (.refl _) (.refl _) rfl
    | some keep => exact moved_of hpc rfl (.refl _) (.refl _) rfl
  exact ⟨h.agrees.countFree hmoved.shifted, h.running⟩

end

theorem resetStats (h : Account false s) : Account false s.resetStats :=
  ⟨⟨h.agrees.cachedBytes, h.agrees.limit, h.agrees.checkedOutBytes, rfl, le_rfl, nofun⟩, h.running⟩

theorem next (h : Account clean s) (hinv : Inv s) {a : Action} (ha : pool.enabled s a)
    (hclean : clean = true → a ≠ .resetStats) : Account clean (pool.next s a) := by
  cases a with
  | acquire requestedSize => exact h.acquire requestedSize
  | lookup i requestedSize pooledSize => exact h.lookup hinv ha
  | allocateFails i requestedSize size passthrough => exact h.setCall ha rfl rfl
  | allocate i requestedSize size passthrough b => exact h.allocate ha.1
  | count i requestedSize b => exact h.count hinv ha
  | release n b => exact h.release ha
  | giveBack i b insertion => exact h.giveBack hinv ha insertion
  | freeRaw i b keepBytes => exact h.freeRaw hinv ha
  | countFree i keepBytes => exact h.countFree ha
  | startTrim keepBytes => exact h.addCall rfl rfl
  | trim i keepBytes => exact h.trim hinv ha
  | resetStats =>
    obtain rfl : clean = false := by simpa using hclean
    exact h.resetStats

end Account

/-- `resetStats` is not called. -/
def NoReset (_ : Pool) (a : Action) : Prop := a ≠ .resetStats

instance (s : Pool) (a : Action) : Decidable (NoReset s a) := inferInstanceAs (Decidable (_ ≠ _))

theorem account_of_reachVia {ok : Pool → Action → Prop} (clean : Bool) {s : Pool}
    (hok : ∀ s a, ok s a → clean = true → a ≠ .resetStats) (h : pool.ReachVia ok s) :
    Inv s ∧ Account clean s := by
  refine h.invariant (I := fun s => Inv s ∧ Account clean s)
    (fun _ hinit => ⟨inv_of_init hinit, account_of_init hinit⟩) ?_
  intro s a hs ha hstep
  exact ⟨hs.1.next ha, hs.2.next hs.1 ha (hok s a hstep)⟩

/-- `cachedBytes` and `checkedOutBytes` are the sums over the blocks in the free lists, within the
limit, and over those handed out; every request is a hit or a miss; and as long as `resetStats` has
not been called, the allocations exceed the frees by the blocks that are cached, handed out or being
freed, as numbers of 64 bits. -/
theorem stack_accounting {s : Pool} (h : pool.Reach s) :
    s.counters.cachedBytes = bytes s.cached ∧
    s.counters.cachedBytes ≤ s.options.maxCachedBytes ∧
    s.counters.checkedOutBytes = bytes s.checkedOut ∧
    s.counters.acquireRequests = add64 s.counters.cacheHits s.counters.cacheMisses ∧
    s.counters.checkedOutBytes ≤ s.counters.peakCheckedOutBytes ∧
    s.terminated = false ∧
    (pool.ReachVia NoReset s → sub64 s.counters.systemAllocations s.counters.systemFrees =
      (s.cached.length + s.checkedOut.length + (s.calls.map Pc.freeing).sum) % 2 ^ 64) := by
  obtain ⟨-, hagrees, hrunning⟩ := account_of_reachVia false (fun _ _ _ => nofun) h
  refine ⟨hagrees.cachedBytes, ?_, hagrees.checkedOutBytes, hagrees.requests, hagrees.peak,
    hrunning,
    fun hvia => ?_⟩
  · rw [hagrees.cachedBytes]
    exact hagrees.limit
  · obtain ⟨-, hclean, -⟩ := account_of_reachVia true (fun _ _ hok _ => hok) hvia
    exact hclean.systems rfl

theorem stack_accounting_two_blocks :
    twoBlocks.counters.cachedBytes = 32 ∧ twoBlocks.counters.checkedOutBytes = 200 ∧
    sub64 twoBlocks.counters.systemAllocations twoBlocks.counters.systemFrees = 2 := by
  have hinit : pool.init (.fresh 16 none ⟨4096, 128⟩) :=
    pool_init_fresh none ⟨4096, 100⟩ (by decide +kernel)
  have hreach : pool.Reach twoBlocks := Machine.reachVia_run (.start hinit) (by decide +kernel)
  have hvia : pool.ReachVia NoReset twoBlocks :=
    Machine.reachVia_run (.start hinit) (by decide +kernel)
  obtain ⟨hcached, -, hout, -, -, -, hsystems⟩ := stack_accounting hreach
  refine ⟨hcached.trans ?_, hout.trans ?_, (hsystems hvia).trans ?_⟩ <;> decide +kernel

end PulsarRuntime.Stack
