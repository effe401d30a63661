import PulsarRuntime.Lib.Machine
import PulsarRuntime.Lib.Storage

/-!
# The pool of Fiber stacks

`PooledStackAllocator` keeps released stacks in free lists, one for each size.  `acquire` and
`release` do their bookkeeping in critical sections of one mutex and call the system allocator
outside them, and `trim` gives cached stacks back one at a time.  A step is a critical section, a
call of the system allocator, or the start of a call.

Sizes are numbers below `2 ^ 64`, and the counters wrap around.  A block of memory is a range of
addresses: the system allocator may fail, and returns a range that no live allocation overlaps.
`system` has the live allocations, `held` the blocks that have been handed out; neither is data of
the pool.
-/

namespace PulsarRuntime.Stack

/-! ### Sizes -/

/-- `std::numeric_limits<size_t>::max()`. -/
def sizeMax : ℕ := 2 ^ 64 - 1

/-- `minimum` is `boost::context::stack_traits::minimum_size()`. -/
def normalizeMinimum (minimum requestedSize : ℕ) : ℕ := max requestedSize minimum

/-- `none` where `std::bad_alloc` is thrown. -/
def nextPowerOfTwo (value : ℕ) : Option ℕ :=
  if value ≤ 1 then some 1
  else if sizeMax >>> 1 + 1 < value then none
  else
    let value := [1, 2, 4, 8, 16, 32].foldl (fun v shift => v ||| v >>> shift) (value - 1)
    if value = sizeMax then none else some (value + 1)

def alignUp (value alignment : ℕ) : Option ℕ :=
  if sizeMax - (alignment - 1) < value then none
  else some ((value + alignment - 1) / alignment * alignment)

inductive FiberStackBackend where
  | malloc
  | mmap
  deriving DecidableEq

structure FiberStackBlock where
  allocation : ℕ
  stackBase : ℕ
  usableSize : ℕ
  allocationSize : ℕ
  backend : FiberStackBackend
  /-- obtained for a request that is not cacheable -/
  passthrough : Bool
  deriving DecidableEq

namespace FiberStackBlock

/-- What `clear` leaves. -/
def empty : FiberStackBlock := ⟨0, 0, 0, 0, .malloc, false⟩

/-- How many addresses a block takes up; an allocation of no bytes has an address of its own. -/
def span (b : FiberStackBlock) : ℕ := max 1 b.allocationSize

/-- Two blocks do not overlap. -/
def Apart (b c : FiberStackBlock) : Prop :=
  b.allocation + b.span ≤ c.allocation ∨ c.allocation + c.span ≤ b.allocation

instance (b c : FiberStackBlock) : Decidable (b.Apart c) := inferInstanceAs (Decidable (_ ∨ _))

/-- The range of addresses is neither null nor beyond the address space. -/
def Addressable (b : FiberStackBlock) : Prop := 0 < b.allocation ∧ b.allocation + b.span ≤ 2 ^ 64

instance (b : FiberStackBlock) : Decidable b.Addressable := inferInstanceAs (Decidable (_ ∧ _))

end FiberStackBlock

/-- `AllocateRaw`, if the system allocator returns `address`.  `guardPages` is the page size in a
build with guard pages. -/
def allocateRaw (minimum : ℕ) (guardPages : Option ℕ) (requestedSize address : ℕ)
    (passthrough : Bool) : Option FiberStackBlock :=
  let normalized := normalizeMinimum minimum requestedSize
  match guardPages with
  | none => some ⟨address, address, normalized, normalized, .malloc, passthrough⟩
  | some guardSize =>
    if guardSize = 0 then none
    else
      match alignUp normalized guardSize with
      | none => none
      | some usableSize =>
        if sizeMax - guardSize < usableSize then none
        else some ⟨address, address + guardSize, usableSize, usableSize + guardSize, .mmap,
          passthrough⟩

/-! ### The pool -/

structure StackPoolOptions where
  maxCachedBytes : ℕ
  maxPooledStackSize : ℕ
  deriving DecidableEq

/-- What `Impl` makes of the options. -/
def StackPoolOptions.normalize (minimum : ℕ) (o : StackPoolOptions) : Option StackPoolOptions :=
  if o.maxPooledStackSize ≠ 0 then
    (nextPowerOfTwo (normalizeMinimum minimum o.maxPooledStackSize)).map fun n =>
      { o with maxPooledStackSize := n }
  else some o

structure FiberStackStats where
  acquireRequests : ℕ
  cacheHits : ℕ
  cacheMisses : ℕ
  returns : ℕ
  evictions : ℕ
  passthroughAllocations : ℕ
  systemAllocations : ℕ
  systemFrees : ℕ
  cachedBytes : ℕ
  checkedOutBytes : ℕ
  peakCheckedOutBytes : ℕ

def FiberStackStats.zero : FiberStackStats := ⟨0, 0, 0, 0, 0, 0, 0, 0, 0, 0, 0⟩

/-- Addition of `uint64_t`. -/
def add64 (a b : ℕ) : ℕ := (a + b) % 2 ^ 64

/-- Subtraction of `uint64_t`. -/
def sub64 (a b : ℕ) : ℕ := (a + (2 ^ 64 - b % 2 ^ 64)) % 2 ^ 64

/-- Where a call is. -/
inductive Pc where
  /-- `acquire` is before its first critical section -/
  | acquire (requestedSize pooledSize : ℕ)
  /-- `AllocateRaw(size)` comes next -/
  | allocate (requestedSize size : ℕ) (passthrough : Bool)
  | allocated (requestedSize : ℕ) (block : FiberStackBlock)
  /-- `release` is before its critical section -/
  | release (block : FiberStackBlock)
  /-- `FreeRaw` comes next, in `release` or in `trim(keepBytes)` -/
  | free (block : FiberStackBlock) (keepBytes : Option ℕ)
  /-- `++systemFrees` comes next -/
  | freed (keepBytes : Option ℕ)
  | trim (keepBytes : ℕ)
  | ended
  deriving DecidableEq

structure Pool where
  minimum : ℕ
  guardPages : Option ℕ
  options : StackPoolOptions
  freeLists : Stacks ℕ FiberStackBlock
  counters : FiberStackStats
  /-- the blocks that have been handed out, one for each owner -/
  held : List FiberStackBlock
  /-- calls of `acquire`, `release` and `trim` -/
  calls : List Pc
  /-- the live allocations -/
  system : List FiberStackBlock
  /-- `std::terminate` has been called -/
  terminated : Bool

/-- How the insertion of a block into its free list ends. -/
inductive Insertion where
  | stored
  /-- no memory for the entry of the map -/
  | noEntry
  /-- no memory for the place in the list -/
  | noPlace
  deriving DecidableEq

namespace Pool

variable (s : Pool) (i : ℕ)

def setCall (pc : Pc) : Pool := { s with calls := s.calls.set i pc }

/-- The blocks in the free lists. -/
def cached : List FiberStackBlock := s.freeLists.entries.map Prod.snd

def pooledSizeFor (requestedSize : ℕ) : Option ℕ :=
  nextPowerOfTwo (normalizeMinimum s.minimum requestedSize)

/-- The test of `acquire`. -/
def cacheable (pooledSize : ℕ) : Bool :=
  s.options.maxCachedBytes ≠ 0 && s.options.maxPooledStackSize ≠ 0 &&
    pooledSize ≤ s.options.maxPooledStackSize

/-- The test of `release`. -/
def accepts (b : FiberStackBlock) : Bool :=
  s.options.maxCachedBytes ≠ 0 && b.usableSize ≠ 0 && b.usableSize &&& (b.usableSize - 1) = 0 &&
    b.usableSize ≤ s.options.maxPooledStackSize &&
    s.counters.cachedBytes ≤ s.options.maxCachedBytes &&
    b.allocationSize ≤ s.options.maxCachedBytes - s.counters.cachedBytes

/-- `checkedOutBytes += block.allocationSize`, and the peak. -/
def checkOut (b : FiberStackBlock) : Pool :=
  let checkedOutBytes := add64 s.counters.checkedOutBytes b.allocationSize
  { s with
    held := b :: s.held
    counters := { s.counters with
      checkedOutBytes := checkedOutBytes
      peakCheckedOutBytes := max s.counters.peakCheckedOutBytes checkedOutBytes } }

/-- `acquire` throws before it has done anything, or starts. -/
def acquire (requestedSize : ℕ) : Pool :=
  match s.pooledSizeFor requestedSize with
  | none => s
  | some pooledSize => { s with calls := s.calls ++ [.acquire requestedSize pooledSize] }

/-- No cached block fits. -/
def miss (i requestedSize pooledSize : ℕ) : Pool :=
  let passthrough := !s.cacheable pooledSize
  { s.setCall i (.allocate requestedSize (if passthrough then requestedSize else pooledSize)
      passthrough) with
    counters := { s.counters with
      acquireRequests := add64 s.counters.acquireRequests 1
      cacheMisses := add64 s.counters.cacheMisses 1
      passthroughAllocations :=
        if passthrough then add64 s.counters.passthroughAllocations 1
        else s.counters.passthroughAllocations } }

/-- The block `b` was taken from a free list, `freeLists` is the rest. -/
def hit (b : FiberStackBlock) (freeLists : Stacks ℕ FiberStackBlock) : Pool :=
  { s.setCall i .ended with
    freeLists := freeLists
    counters := { s.counters with
      acquireRequests := add64 s.counters.acquireRequests 1
      cacheHits := add64 s.counters.cacheHits 1
      cachedBytes := sub64 s.counters.cachedBytes b.allocationSize } }.checkOut b

/-- The first critical section of `acquire`. -/
def lookup (i requestedSize pooledSize : ℕ) : Pool :=
  if s.cacheable pooledSize then
    match s.freeLists.pop pooledSize with
    | some (b, freeLists) => s.hit i b freeLists
    | none => s.miss i requestedSize pooledSize
  else s.miss i requestedSize pooledSize

/-- The system allocator has returned `b`. -/
def allocate (i requestedSize : ℕ) (b : FiberStackBlock) : Pool :=
  { s.setCall i (.allocated requestedSize b) with system := b :: s.system }

/-- The second critical section of `acquire`. -/
def count (b : FiberStackBlock) : Pool :=
  { s.setCall i .ended with
    counters := { s.counters with
      systemAllocations := add64 s.counters.systemAllocations 1 } }.checkOut b

/-- The owner of the `n`th block handed out calls `release`. -/
def release (n : ℕ) (b : FiberStackBlock) : Pool :=
  { s with held := s.held.eraseIdx n, calls := s.calls ++ [.release b] }

/-- The block goes into its free list. -/
def store (b : FiberStackBlock) : Pool :=
  { s.setCall i .ended with
    freeLists := s.freeLists.push b.usableSize b
    counters := { s.counters with
      cachedBytes := add64 s.counters.cachedBytes b.allocationSize } }

/-- The block is freed. -/
def evict (b : FiberStackBlock) (keepBytes : Option ℕ)
    (freeLists : Stacks ℕ FiberStackBlock) : Pool :=
  { s.setCall i (.free b keepBytes) with
    freeLists := freeLists
    counters := { s.counters with evictions := add64 s.counters.evictions 1 } }

/-- The critical section of `release`. -/
def giveBack (b : FiberStackBlock) (insertion : Insertion) : Pool :=
  let s := { s with counters := { s.counters with
    returns := add64 s.counters.returns 1 } }
  if b.allocationSize ≤ s.counters.checkedOutBytes then
    let s := { s with counters := { s.counters with
      checkedOutBytes := sub64 s.counters.checkedOutBytes b.allocationSize } }
    if s.accepts b then
      match insertion with
      | .stored => s.store i b
      | .noEntry => s.evict i b none s.freeLists
      | .noPlace => s.evict i b none (s.freeLists.touch b.usableSize)
    else s.evict i b none s.freeLists
  else { s with terminated := true }

/-- `FreeRaw`. -/
def freeRaw (b : FiberStackBlock) (keepBytes : Option ℕ) : Pool :=
  if b.backend = .mmap ∧ s.guardPages = none then { s with terminated := true }
  else { s.setCall i (.freed keepBytes) with system := s.system.erase b }

def countFree (keepBytes : Option ℕ) : Pool :=
  { s.setCall i (match keepBytes with | none => .ended | some keep => .trim keep) with
    counters := { s.counters with systemFrees := add64 s.counters.systemFrees 1 } }

/-- The critical section in the loop of `trim`. -/
def trim (i keepBytes : ℕ) : Pool :=
  if s.counters.cachedBytes ≤ keepBytes then s.setCall i .ended
  else
    match s.freeLists.popLast with
    | none => s.setCall i .ended
    | some (victim, freeLists) =>
      { s with counters := { s.counters with
        cachedBytes := sub64 s.counters.cachedBytes victim.allocationSize } }.evict i victim
          (some keepBytes) freeLists

def resetStats : Pool :=
  { s with counters := { FiberStackStats.zero with
    cachedBytes := s.counters.cachedBytes
    checkedOutBytes := s.counters.checkedOutBytes
    peakCheckedOutBytes := s.counters.checkedOutBytes } }

end Pool

/-- Steps of the `i`th call, and the starts of calls. -/
inductive Action where
  | acquire (requestedSize : ℕ)
  | lookup (i requestedSize pooledSize : ℕ)
  /-- `AllocateRaw` throws -/
  | allocateFails (i requestedSize size : ℕ) (passthrough : Bool)
  | allocate (i requestedSize size : ℕ) (passthrough : Bool) (b : FiberStackBlock)
  | count (i requestedSize : ℕ) (b : FiberStackBlock)
  | release (n : ℕ) (b : FiberStackBlock)
  | giveBack (i : ℕ) (b : FiberStackBlock) (insertion : Insertion)
  | freeRaw (i : ℕ) (b : FiberStackBlock) (keepBytes : Option ℕ)
  | countFree (i : ℕ) (keepBytes : Option ℕ)
  | startTrim (keepBytes : ℕ)
  | trim (i keepBytes : ℕ)
  | resetStats
  deriving DecidableEq

/-- Every interleaving of the calls of any number of threads. -/
def pool : Machine Pool Action where
  init s := (∃ input : StackPoolOptions, input.normalize s.minimum = some s.options) ∧
    s.freeLists = [] ∧ s.counters = .zero ∧ s.held = [] ∧ s.calls = [] ∧ s.system = [] ∧
    s.terminated = false
  enabled s
    | .acquire _ => True
    | .lookup i requestedSize pooledSize =>
      s.calls[i]? = some (.acquire requestedSize pooledSize)
    | .allocateFails i requestedSize size passthrough =>
      s.calls[i]? = some (.allocate requestedSize size passthrough)
    | .allocate i requestedSize size passthrough b =>
      s.calls[i]? = some (.allocate requestedSize size passthrough) ∧
      allocateRaw s.minimum s.guardPages size b.allocation passthrough = some b ∧
      b.Addressable ∧ ∀ c ∈ s.system, b.Apart c
    | .count i requestedSize b => s.calls[i]? = some (.allocated requestedSize b)
    | .release n b => s.held[n]? = some b
    | .giveBack i b _ => s.calls[i]? = some (.release b)
    | .freeRaw i b keepBytes => s.calls[i]? = some (.free b keepBytes)
    | .countFree i keepBytes => s.calls[i]? = some (.freed keepBytes)
    | .startTrim _ => True
    | .trim i keepBytes => s.calls[i]? = some (.trim keepBytes)
    | .resetStats => True
  next s
    | .acquire requestedSize => s.acquire requestedSize
    | .lookup i requestedSize pooledSize => s.lookup i requestedSize pooledSize
    | .allocateFails i _ _ _ => s.setCall i .ended
    | .allocate i requestedSize _ _ b => s.allocate i requestedSize b
    | .count i _ b => s.count i b
    | .release n b => s.release n b
    | .giveBack i b insertion => s.giveBack i b insertion
    | .freeRaw i b keepBytes => s.freeRaw i b keepBytes
    | .countFree i keepBytes => s.countFree i keepBytes
    | .startTrim keepBytes => { s with calls := s.calls ++ [.trim keepBytes] }
    | .trim i keepBytes => s.trim i keepBytes
    | .resetStats => s.resetStats

instance (s : Pool) (a : Action) : Decidable (pool.enabled s a) := by
  rcases a <;> (dsimp only [pool]; infer_instance)

/-- A pool that has just been created. -/
def Pool.fresh (minimum : ℕ) (guardPages : Option ℕ) (options : StackPoolOptions) : Pool :=
  ⟨minimum, guardPages, options, [], .zero, [], [], [], false⟩

theorem pool_init_fresh {minimum : ℕ} (guardPages : Option ℕ) (input : StackPoolOptions)
    {options : StackPoolOptions} (h : input.normalize minimum = some options) :
    pool.init (.fresh minimum guardPages options) :=
  ⟨⟨input, h⟩, rfl, rfl, rfl, rfl, rfl, rfl⟩

end PulsarRuntime.Stack
