import PulsarRuntime.Stack.Accounting

/-!
# `trim`

`trim(keepBytes)` takes one block after the other from the largest free list that is not empty,
until no more than `keepBytes` are cached.  It looks at the counter, not at the lists, and gives up
when it finds them all empty; as the counter is the sum over the lists, it never does so too early.
Left alone, a call of `trim` has no choice, and every round takes a block, so it comes to its end
(`trim_rounds`).
-/

namespace PulsarRuntime.Stack

/-- The call that takes the step, unless it starts one. -/
def Action.call : Action → Option ℕ
  | .lookup i _ _ | .allocateFails i _ _ _ | .allocate i _ _ _ _ | .count i _ _ | .giveBack i _ _
  | .freeRaw i _ _ | .countFree i _ | .trim i _ => some i
  | .acquire _ | .release _ _ | .startTrim _ | .resetStats => none

/-- The steps of the rounds in which call `i` of `trim` takes the given blocks. -/
def trimRounds (i keepBytes : ℕ) (blocks : List FiberStackBlock) : List Action :=
  blocks.flatMap fun b =>
    [.trim i keepBytes, .freeRaw i b (some keepBytes), .countFree i (some keepBytes)]

/-- The free lists are in the order of their sizes, and the two counters are words. -/
structure Tidy (s : Pool) : Prop where
  ordered : s.freeLists.Ordered
  evictions : s.counters.evictions < 2 ^ 64
  systemFrees : s.counters.systemFrees < 2 ^ 64

theorem add64_lt (a b : ℕ) : add64 a b < 2 ^ 64 := Nat.mod_lt _ (Nat.two_pow_pos 64)

namespace Tidy

variable {s : Pool}

theorem giveBack (h : Tidy s) (i : ℕ) (b : FiberStackBlock) (insertion : Insertion) :
    Tidy (s.giveBack i b insertion) := by
  simp only [Pool.giveBack]
  split
  · split
    · cases insertion with
      | stored => exact ⟨h.ordered.push b.usableSize b, h.evictions, h.systemFrees⟩
      | noEntry => exact ⟨h.ordered, add64_lt _ _, h.systemFrees⟩
      | noPlace => exact ⟨h.ordered.touch b.usableSize, add64_lt _ _, h.systemFrees⟩
    · exact ⟨h.ordered, add64_lt _ _, h.systemFrees⟩
  · exact ⟨h.ordered, h.evictions, h.systemFrees⟩

theorem lookup (h : Tidy s) (i requestedSize pooledSize : ℕ) :
    Tidy (s.lookup i requestedSize pooledSize) := by
  simp only [Pool.lookup]
  split
  · split
    next hpop => exact ⟨h.ordered.of_keys (Stacks.pop_spec hpop).2, h.evictions, h.systemFrees⟩
    · exact ⟨h.ordered, h.evictions, h.systemFrees⟩
  · exact ⟨h.ordered, h.evictions, h.systemFrees⟩

theorem trim (h : Tidy s) (i keepBytes : ℕ) : Tidy (s.trim i keepBytes) := by
  simp only [Pool.trim]
  split
  · exact ⟨h.ordered, h.evictions, h.systemFrees⟩
  · split
    · exact ⟨h.ordered, h.evictions, h.systemFrees⟩
    next hpop => exact ⟨h.ordered.of_keys (Stacks.popLast_spec hpop).2, add64_lt _ _, h.systemFrees⟩

theorem next (h : Tidy s) (a : Action) : Tidy (pool.next s a) := by
  cases a with
  | acquire requestedSize =>
    simp only [pool, Pool.acquire]
    split <;> exact ⟨h.ordered, h.evictions, h.systemFrees⟩
  | lookup i requestedSize pooledSize => exact h.lookup i requestedSize pooledSize
  | giveBack i b insertion => exact h.giveBack i b insertion
  | freeRaw i b keepBytes =>
    simp only [pool, Pool.freeRaw]
    split <;> exact ⟨h.ordered, h.evictions, h.systemFrees⟩
  | trim i keepBytes => exact h.trim i keepBytes
  | countFree i keepBytes => exact ⟨h.ordered, h.evictions, add64_lt _ _⟩
  | resetStats => exact ⟨h.ordered, Nat.two_pow_pos 64, Nat.two_pow_pos 64⟩
  | allocateFails | allocate | count | release | startTrim =>
    exact ⟨h.ordered, h.evictions, h.systemFrees⟩

end Tidy

theorem tidy_of_reach {s : Pool} (h : pool.Reach s) : Tidy s := by
  refine h.invariant (fun s hinit => ?_) fun s a hs _ => hs.next a
  obtain ⟨-, hfree, hcounters, -⟩ := hinit
  refine ⟨?_, ?_, ?_⟩
  · rw [hfree]
    exact .nil
  · rw [hcounters]
    exact Nat.two_pow_pos 64
  · rw [hcounters]
    exact Nat.two_pow_pos 64

section Alone

variable {s : Pool} {i keepBytes : ℕ} {b : FiberStackBlock} {keep : Option ℕ} {a : Action}

/-- A call of `trim` that is in its loop has one step to take. -/
theorem eq_trim (hpc : s.calls[i]? = some (.trim keepBytes)) (ha : pool.enabled s a)
    (hcall : a.call = some i) : a = .trim i keepBytes := by
  cases a <;> cases hcall <;> simp_all [pool]

theorem eq_freeRaw (hpc : s.calls[i]? = some (.free b keep)) (ha : pool.enabled s a)
    (hcall : a.call = some i) : a = .freeRaw i b keep := by
  cases a <;> cases hcall <;> simp_all [pool]

theorem eq_countFree (hpc : s.calls[i]? = some (.freed keep)) (ha : pool.enabled s a)
    (hcall : a.call = some i) : a = .countFree i keep := by
  cases a <;> cases hcall <;> simp_all [pool]

theorem not_enabled_ended (hpc : s.calls[i]? = some .ended) (ha : pool.enabled s a) :
    a.call ≠ some i := by
  intro hcall
  cases a <;> cases hcall <;> simp_all [pool]

end Alone

/-! ### One round -/

/-- What a round of call `i` of `trim` does: it takes the block `b` of the size `k`. -/
structure Round (i keepBytes : ℕ) (s t : Pool) (k : ℕ) (b : FiberStackBlock) : Prop where
  reach : pool.Reach t
  allowed : pool.Allowed (fun _ _ => True) s (trimRounds i keepBytes [b])
  forced : ∀ trace, pool.Forced (fun a => a.call = some i) t trace →
    pool.Forced (fun a => a.call = some i) s (trimRounds i keepBytes [b] ++ trace)
  above : keepBytes < s.counters.cachedBytes
  entries : s.freeLists.entries = t.freeLists.entries ++ [(k, b)]
  calls : t.calls = s.calls
  held : t.held = s.held
  checkedOutBytes : t.counters.checkedOutBytes = s.counters.checkedOutBytes
  evictions : t.counters.evictions = add64 s.counters.evictions 1
  systemFrees : t.counters.systemFrees = add64 s.counters.systemFrees 1
  system : s.system.Perm (b :: t.system)

section Rounds

variable {s : Pool} {i keepBytes : ℕ}

/-- The lists are empty only if nothing is counted as cached. -/
theorem cachedBytes_of_popLast (h : pool.Reach s) (hnone : s.freeLists.popLast = none) :
    s.counters.cachedBytes = 0 := by
  obtain ⟨-, haccount⟩ := account_of_reachVia false (fun _ _ _ => nofun) h
  have hempty : s.cached = [] := by
    rw [Pool.cached, Stacks.popLast_none hnone]
    rfl
  rw [haccount.agrees.cachedBytes]
  change bytes s.cached = 0
  rw [hempty, bytes_nil]

/-- The critical section of `trim` takes the block that `popLast` finds. -/
theorem trim_of_popLast {b : FiberStackBlock} {freeLists : Stacks ℕ FiberStackBlock}
    (habove : keepBytes < s.counters.cachedBytes)
    (hpop : s.freeLists.popLast = some (b, freeLists)) :
    s.trim i keepBytes = { s.setCall i (.free b (some keepBytes)) with
      freeLists := freeLists
      counters := { s.counters with
        cachedBytes := sub64 s.counters.cachedBytes b.allocationSize
        evictions := add64 s.counters.evictions 1 } } := by
  simp only [Pool.trim, if_neg (Nat.not_le.mpr habove), hpop]
  rfl

theorem round (h : pool.Reach s) (hpc : s.calls[i]? = some (.trim keepBytes))
    (habove : keepBytes < s.counters.cachedBytes) :
    ∃ k b, Round i keepBytes s (pool.run s (trimRounds i keepBytes [b])) k b := by
  obtain ⟨hi, hget⟩ := List.getElem?_eq_some_iff.mp hpc
  cases hpop : s.freeLists.popLast with
  | none =>
    have hzero := cachedBytes_of_popLast h hpop
    omega
  | some taken =>
    obtain ⟨b, freeLists⟩ := taken
    obtain ⟨⟨k, hentries⟩, -⟩ := Stacks.popLast_spec hpop
    have hinv := inv_of_reach h
    -- the block is taken out of its list
    have htrim := trim_of_popLast (i := i) habove hpop
    have hfree : (s.trim i keepBytes).calls[i]? = some (.free b (some keepBytes)) := by
      rw [htrim]
      exact List.getElem?_set_self hi
    -- it is freed
    have hraw := (hinv.trim hpc).freeRaw_eq hfree
    have hfreed : ((s.trim i keepBytes).freeRaw i b (some keepBytes)).calls[i]? =
        some (.freed (some keepBytes)) := by
      rw [hraw, htrim]
      exact List.getElem?_set_self (by simpa [Pool.setCall] using hi)
    have hallowed : pool.Allowed (fun _ _ => True) s (trimRounds i keepBytes [b]) :=
      ⟨⟨hpc, trivial⟩, ⟨hfree, trivial⟩, ⟨hfreed, trivial⟩, trivial⟩
    have hlast : pool.run s (trimRounds i keepBytes [b]) =
        ((s.trim i keepBytes).freeRaw i b (some keepBytes)).countFree i (some keepBytes) := rfl
    have hmem : b ∈ s.system := by
      refine hinv.system.mem_iff.mpr (List.mem_append_left _ ?_)
      rw [Pool.cached, hentries]
      simp
    refine ⟨k, b, ?_⟩
    refine ⟨Machine.reachVia_run h hallowed, hallowed, fun trace htrace => ?_, habove, ?_, ?_, ?_,
      ?_, ?_, ?_, ?_⟩
    · apply Machine.Forced.cons (fun a ha hcall => eq_trim hpc ha hcall)
      apply Machine.Forced.cons (fun a ha hcall => eq_freeRaw hfree ha hcall)
      exact Machine.Forced.cons (fun a ha hcall => eq_countFree hfreed ha hcall) htrace
    all_goals rw [hlast, hraw, htrim]
    · exact hentries
    · simp only [Pool.countFree, Pool.setCall, List.set_set, ← hget]
      exact List.set_getElem_self hi
    · rfl
    · rfl
    · rfl
    · rfl
    · exact List.perm_cons_erase hmem

/-! ### The whole call -/

/-- The steps of call `i` of `trim` if it takes the given blocks. -/
def trimSteps (i keepBytes : ℕ) (victims : List (ℕ × FiberStackBlock)) : List Action :=
  trimRounds i keepBytes (victims.map Prod.snd) ++ [.trim i keepBytes]

/-- What call `i` of `trim` does from `s` on, without the steps of other calls.  The victims are
the blocks that it takes, in this order, with the sizes under which they were filed. -/
structure Trims (i keepBytes : ℕ) (s : Pool) (victims : List (ℕ × FiberStackBlock)) : Prop where
  /-- its steps are these, and no others are possible -/
  allowed : pool.Allowed (fun _ _ => True) s (trimSteps i keepBytes victims)
  forced : pool.Forced (fun a => a.call = some i) s (trimSteps i keepBytes victims)
  ended : (pool.run s (trimSteps i keepBytes victims)).calls = s.calls.set i .ended
  cachedBytes : (pool.run s (trimSteps i keepBytes victims)).counters.cachedBytes ≤ keepBytes
  /-- before each round more than `keepBytes` are cached, and no list behind that of the victim
  has a block -/
  rounds : ∀ before v after, victims = before ++ v :: after →
    let t := pool.run s (trimRounds i keepBytes (before.map Prod.snd))
    keepBytes < t.counters.cachedBytes ∧ v ∈ t.freeLists.entries ∧
      ∀ e ∈ t.freeLists.entries, e.1 ≤ v.1
  entries : s.freeLists.entries =
    (pool.run s (trimSteps i keepBytes victims)).freeLists.entries ++ victims.reverse
  held : (pool.run s (trimSteps i keepBytes victims)).held = s.held
  checkedOutBytes : (pool.run s (trimSteps i keepBytes victims)).counters.checkedOutBytes =
    s.counters.checkedOutBytes
  evictions : (pool.run s (trimSteps i keepBytes victims)).counters.evictions =
    add64 s.counters.evictions victims.length
  systemFrees : (pool.run s (trimSteps i keepBytes victims)).counters.systemFrees =
    add64 s.counters.systemFrees victims.length
  system : s.system.Perm
    (victims.map Prod.snd ++ (pool.run s (trimSteps i keepBytes victims)).system)

theorem add64_one_add (n k : ℕ) : add64 (add64 n 1) k = add64 n (k + 1) := by
  simp only [add64]
  omega

/-- The last test of the loop. -/
theorem trims_nil (h : pool.Reach s) (hpc : s.calls[i]? = some (.trim keepBytes))
    (hle : s.counters.cachedBytes ≤ keepBytes) : Trims i keepBytes s [] := by
  obtain ⟨hi, -⟩ := List.getElem?_eq_some_iff.mp hpc
  have htidy := tidy_of_reach h
  have hend : pool.run s (trimSteps i keepBytes []) = s.setCall i .ended := by
    change s.trim i keepBytes = _
    rw [Pool.trim, if_pos hle]
  refine ⟨⟨⟨hpc, trivial⟩, trivial⟩, ?_, ?_, ?_, fun before v after heq => ?_, ?_, ?_, ?_, ?_, ?_,
    ?_⟩
  · apply Machine.Forced.cons (fun a ha hcall => eq_trim hpc ha hcall)
    apply Machine.Forced.nil
    intro a ha
    refine not_enabled_ended ?_ ha
    change (s.trim i keepBytes).calls[i]? = _
    rw [Pool.trim, if_pos hle]
    exact List.getElem?_set_self hi
  · rw [hend]
    rfl
  · rw [hend]
    exact hle
  · simp at heq
  · rw [hend]
    exact (List.append_nil _).symm
  · rw [hend]
    rfl
  · rw [hend]
    rfl
  · rw [hend]
    exact (Nat.mod_eq_of_lt htidy.evictions).symm
  · rw [hend]
    exact (Nat.mod_eq_of_lt htidy.systemFrees).symm
  · rw [hend]
    exact .refl _

/-- A round, and the rest. -/
theorem trims_cons {k : ℕ} {b : FiberStackBlock} {victims : List (ℕ × FiberStackBlock)}
    (h : pool.Reach s)
    (hround : Round i keepBytes s (pool.run s (trimRounds i keepBytes [b])) k b)
    (hrest : Trims i keepBytes (pool.run s (trimRounds i keepBytes [b])) victims) :
    Trims i keepBytes s ((k, b) :: victims) := by
  have hrun : pool.run s (trimSteps i keepBytes ((k, b) :: victims)) =
      pool.run (pool.run s (trimRounds i keepBytes [b])) (trimSteps i keepBytes victims) := rfl
  refine ⟨?_, ?_, ?_, ?_, fun before v after heq => ?_, ?_, ?_, ?_, ?_, ?_, ?_⟩
  · exact ⟨hround.allowed.1, hround.allowed.2.1, hround.allowed.2.2.1, hrest.allowed⟩
  · exact hround.forced _ hrest.forced
  · rw [hrun, hrest.ended, hround.calls]
  · rw [hrun]
    exact hrest.cachedBytes
  · cases before with
    | nil =>
      obtain ⟨rfl, -⟩ := List.cons.inj heq
      have hordered := (tidy_of_reach h).ordered.entries
      change keepBytes < s.counters.cachedBytes ∧ (k, b) ∈ s.freeLists.entries ∧
        ∀ e ∈ s.freeLists.entries, e.1 ≤ k
      rw [hround.entries, List.pairwise_append] at hordered
      rw [hround.entries]
      refine ⟨hround.above, by simp, fun e he => ?_⟩
      obtain hleft | hlast := List.mem_append.mp he
      · exact hordered.2.2 e hleft (k, b) (List.mem_singleton_self _)
      · obtain rfl := List.mem_singleton.mp hlast
        exact le_rfl
    | cons x before =>
      obtain ⟨rfl, htail⟩ := List.cons.inj heq
      exact hrest.rounds before v after htail
  · rw [hrun, hround.entries, hrest.entries, List.reverse_cons, List.append_assoc]
  · rw [hrun, hrest.held, hround.held]
  · rw [hrun, hrest.checkedOutBytes, hround.checkedOutBytes]
  · rw [hrun, hrest.evictions, hround.evictions, add64_one_add, List.length_cons]
  · rw [hrun, hrest.systemFrees, hround.systemFrees, add64_one_add, List.length_cons]
  · rw [hrun]
    exact hround.system.trans (hrest.system.cons b)

/-- Every round takes an entry, so there is a last one. -/
theorem trim_rounds (n : ℕ) (s : Pool) (hn : s.freeLists.entries.length = n) (h : pool.Reach s)
    (hpc : s.calls[i]? = some (.trim keepBytes)) : ∃ victims, Trims i keepBytes s victims := by
  induction n generalizing s with
  | zero =>
    have hzero : s.counters.cachedBytes = 0 := by
      obtain ⟨-, haccount⟩ := account_of_reachVia false (fun _ _ _ => nofun) h
      rw [haccount.agrees.cachedBytes]
      change bytes (s.freeLists.entries.map Prod.snd) = 0
      rw [List.length_eq_zero_iff.mp hn]
      rfl
    exact ⟨[], trims_nil h hpc (by omega)⟩
  | succ n ih =>
    by_cases hle : s.counters.cachedBytes ≤ keepBytes
    · exact ⟨[], trims_nil h hpc hle⟩
    · obtain ⟨k, b, hround⟩ := round h hpc (Nat.not_le.mp hle)
      have hlength : (pool.run s (trimRounds i keepBytes [b])).freeLists.entries.length = n := by
        have hsum := congrArg List.length hround.entries
        rw [List.length_append, hn, List.length_singleton] at hsum
        omega
      obtain ⟨victims, hrest⟩ := ih _ hlength hround.reach (by rw [hround.calls]; exact hpc)
      exact ⟨(k, b) :: victims, trims_cons h hround hrest⟩

end Rounds

/-- **The postcondition of `trim`.**  From every reachable state, a call of `trim(keepBytes)` that
runs alone comes to its end with at most `keepBytes` cached.  Each round takes a block of the
largest size that is cached, while more than `keepBytes` are; `evictions` and `systemFrees` count
the rounds; the blocks handed out stay as they are.  The loop finds its lists empty only if nothing
is cached. -/
theorem trim_postcondition {s : Pool} (h : pool.Reach s) (keepBytes : ℕ) :
    (∃ victims, Trims s.calls.length keepBytes (pool.next s (.startTrim keepBytes)) victims ∧
      let t := pool.run s (.startTrim keepBytes :: trimSteps s.calls.length keepBytes victims)
      t.calls = s.calls ++ [.ended] ∧ t.checkedOut = s.checkedOut) ∧
    ∀ t, pool.Reach t → t.freeLists.popLast = none → t.counters.cachedBytes = 0 := by
  have hstart : pool.Reach (pool.next s (.startTrim keepBytes)) := h.step trivial trivial
  have hpc : (pool.next s (.startTrim keepBytes)).calls[s.calls.length]? =
      some (.trim keepBytes) := List.getElem?_concat_length
  obtain ⟨victims, htrims⟩ := trim_rounds _ _ rfl hstart hpc
  have hcalls : (pool.run s (.startTrim keepBytes ::
      trimSteps s.calls.length keepBytes victims)).calls = s.calls ++ [.ended] := by
    change (pool.run (pool.next s (.startTrim keepBytes)) _).calls = _
    rw [htrims.ended]
    change (s.calls ++ [Pc.trim keepBytes]).set s.calls.length .ended = _
    simp
  refine ⟨⟨victims, htrims, hcalls, ?_⟩, fun t ht => cachedBytes_of_popLast ht⟩
  have hheld : (pool.run s (.startTrim keepBytes ::
      trimSteps s.calls.length keepBytes victims)).held = s.held := htrims.held
  rw [Pool.checkedOut, hheld, hcalls, Pool.checkedOut]
  simp [Pc.checkedOut]

/-- Two blocks of different sizes are cached. -/
def twoCached : Pool :=
  let small : FiberStackBlock := ⟨1000, 1000, 32, 32, .malloc, false⟩
  let large : FiberStackBlock := ⟨2000, 2000, 64, 64, .malloc, false⟩
  pool.run (.fresh 16 none ⟨4096, 128⟩)
    [.acquire 20, .lookup 0 20 32, .allocate 0 20 32 false small, .count 0 20 small, .acquire 50,
      .lookup 1 50 64, .allocate 1 50 64 false large, .count 1 50 large, .release 1 small,
      .giveBack 2 small .stored, .release 0 large, .giveBack 3 large .stored]

theorem trim_postcondition_two_cached : twoCached.counters.cachedBytes = 96 ∧
    ∃ victims, (pool.run twoCached (.startTrim 40 ::
      trimSteps twoCached.calls.length 40 victims)).counters.cachedBytes ≤ 40 := by
  have hinit : pool.init (.fresh 16 none ⟨4096, 128⟩) :=
    pool_init_fresh none ⟨4096, 100⟩ (by decide +kernel)
  have hreach : pool.Reach twoCached := Machine.reachVia_run (.start hinit) (by decide +kernel)
  obtain ⟨⟨victims, htrims, -⟩, -⟩ := trim_postcondition hreach 40
  exact ⟨by decide +kernel, victims, htrims.cachedBytes⟩

end PulsarRuntime.Stack
