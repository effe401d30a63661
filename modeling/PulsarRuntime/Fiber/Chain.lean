import PulsarRuntime.Fiber.Switching

/-!
# The chain of a thread

The Fibers of a thread that have resumed each other form a chain, from the innermost one to the main
Fiber.  `Discipline` says what part the Fibers have: those on the chain are RUNNING, those that were
resumed have their flag up.  It is about the Fibers and `nest` alone, as `Records` is about the
calls of `resume` alone; both are kept by a push when a Fiber is resumed and by a pop when the
`resume` returns.
-/

namespace PulsarRuntime.Fibers

/-- The Fibers from the innermost one to the main Fiber. -/
def chainOf (main : Option ℕ) (nest : List (ℕ × ℕ)) : List ℕ := nest.map Prod.fst ++ main.toList

def Thread.chain (th : Thread) : List ℕ := chainOf th.curThreadFiber th.nest

theorem mem_chainOf {main : Option ℕ} {nest : List (ℕ × ℕ)} {f : ℕ} :
    f ∈ chainOf main nest ↔ f ∈ nest.map Prod.fst ∨ main = some f := by
  simp only [chainOf, List.mem_append, Option.mem_toList]

/-- The first Fiber of the chain, if it was resumed, is on top. -/
theorem Thread.nest_of_head {th : Thread} {f : ℕ} (hhead : th.chain.head? = some f)
    (hf : f ∈ th.nest.map Prod.fst) : ∃ caller rest, th.nest = (f, caller) :: rest := by
  cases hnest : th.nest with
  | nil =>
    rw [hnest] at hf
    cases hf
  | cons frame rest =>
    rw [Thread.chain, hnest] at hhead
    obtain rfl : frame.1 = f := Option.some.inj hhead
    exact ⟨frame.2, rest, rfl⟩

/-- Each `resume` in progress was called by the Fiber behind it on the chain. -/
def Linked (main : Option ℕ) : List (ℕ × ℕ) → Prop
  | [] => True
  | (_, caller) :: rest => (chainOf main rest).head? = some caller ∧ Linked main rest

namespace Fiber

/-- The part a Fiber has: it is RUNNING, has a `resume` in progress, is the main Fiber. -/
structure Part (x : Fiber) (running nested main : Prop) : Prop where
  state : x.state = .running ↔ running
  flag : x.resumeInProgress = true ↔ nested
  caller : x.callerContext = true → nested
  main : x.isMainFiber = true ↔ main

/-- The Fiber neither starts nor stops to run. -/
structure Calm (x y : Fiber) : Prop where
  state : y.state = .running ↔ x.state = .running
  flag : y.resumeInProgress = x.resumeInProgress
  caller : y.callerContext = x.callerContext
  main : y.isMainFiber = x.isMainFiber
  exception : x.exception = none → y.exception = none

variable {x y : Fiber} {running nested main : Prop}

theorem yield_callerContext (h : x.yield = .ok y) : x.callerContext = true := by
  unfold yield at h
  split at h
  · cases h
  · split at h
    · cases h
    · rename_i hcaller
      simpa using hcaller

theorem Calm.refl (x : Fiber) : Calm x x := ⟨Iff.rfl, rfl, rfl, rfl, id⟩

theorem Part.calm (h : x.Part running nested main) (hc : Calm x y) :
    y.Part running nested main := by
  refine ⟨hc.state.trans h.state, ?_, ?_, ?_⟩
  · rw [hc.flag]
    exact h.flag
  · rw [hc.caller]
    exact h.caller
  · rw [hc.main]
    exact h.main

theorem Calm.trans {z : Fiber} (h : Calm x y) (h' : Calm y z) : Calm x z :=
  ⟨h'.state.trans h.state, h'.flag.trans h.flag, h'.caller.trans h.caller, h'.main.trans h.main,
    fun he => h'.exception (h.exception he)⟩

theorem Part.none (hstate : x.state ≠ .running) (hflag : x.resumeInProgress = false)
    (hcaller : x.callerContext = false) (hmain : x.isMainFiber = false) :
    x.Part False False False := by
  refine ⟨iff_of_false hstate id, iff_of_false ?_ id, fun hc => ?_, iff_of_false ?_ id⟩
  · rw [hflag]
    exact Bool.false_ne_true
  · exact absurd (hcaller.symm.trans hc) Bool.false_ne_true
  · rw [hmain]
    exact Bool.false_ne_true

theorem Part.congr (h : x.Part running nested main) {running' nested' main' : Prop}
    (hr : running ↔ running') (hn : nested ↔ nested') (hm : main ↔ main') :
    x.Part running' nested' main' :=
  ⟨h.state.trans hr, h.flag.trans hn, fun hc => hn.mp (h.caller hc), h.main.trans hm⟩

end Fiber

/-! ### The parts of the invariant -/

/-- The Fibers `fibers 0` up to `fibers (n - 1)` of a thread, and those that are RUNNING. -/
structure Discipline (fibers : ℕ → Fiber) (n : ℕ) (main : Option ℕ) (nest : List (ℕ × ℕ))
    (running : List ℕ) : Prop where
  part : ∀ f < n, (fibers f).Part (f ∈ running) (f ∈ nest.map Prod.fst) (main = some f)
  bound : ∀ f ∈ chainOf main nest, f < n
  nodup : (chainOf main nest).Nodup
  linked : Linked main nest

namespace Discipline

variable {fibers : ℕ → Fiber} {n f caller : ℕ} {main : Option ℕ} {nest rest : List (ℕ × ℕ)}
  {x : Fiber}

/-- No Fiber starts or stops to run, and new ones have no part. -/
theorem calm (h : Discipline fibers n main nest (chainOf main nest)) {fibers' : ℕ → Fiber} {n' : ℕ}
    (hcount : n ≤ n') (hold : ∀ f < n, (fibers f).Calm (fibers' f))
    (hnew : ∀ f, n ≤ f → f < n' → (fibers' f).Part False False False) :
    Discipline fibers' n' main nest (chainOf main nest) := by
  refine ⟨fun f hf => ?_, fun f hf => (h.bound f hf).trans_le hcount, h.nodup, h.linked⟩
  rcases Nat.lt_or_ge f n with hlt | hge
  · exact (h.part f hlt).calm (hold f hlt)
  · have hout : f ∉ chainOf main nest := fun hm => absurd (h.bound f hm) (Nat.not_lt.mpr hge)
    have hboth := not_or.mp fun hm => hout (mem_chainOf.mpr hm)
    exact (hnew f hge hf).congr (iff_of_false id hout) (iff_of_false id hboth.1)
      (iff_of_false id hboth.2)

/-- A Fiber is resumed. -/
theorem push (h : Discipline fibers n main nest (chainOf main nest)) (hf : f < n)
    (hx : (fibers f).resume = .ok x) (hcaller : (chainOf main nest).head? = some caller) :
    Discipline (Function.update fibers f x) n main ((f, caller) :: nest)
      (chainOf main ((f, caller) :: nest)) := by
  obtain ⟨⟨-, hready⟩, rfl⟩ := Fiber.resume_ok hx
  -- it was not RUNNING
  have hout : f ∉ chainOf main nest := by
    intro hmem
    have hrun := (h.part f hf).state.mpr hmem
    rw [hready] at hrun
    cases hrun
  have hmain := (h.part f hf).main
  refine ⟨?_, ?_, ?_, hcaller, h.linked⟩
  · intro g hg
    by_cases hgf : g = f
    · subst hgf
      rw [Function.update_self]
      exact ⟨iff_of_true rfl List.mem_cons_self, iff_of_true rfl List.mem_cons_self,
        fun _ => List.mem_cons_self, hmain⟩
    · rw [Function.update_of_ne hgf]
      refine (h.part g hg).congr ?_ ?_ Iff.rfl
      · exact ⟨List.mem_cons_of_mem f, fun hm => (List.mem_cons.mp hm).resolve_left hgf⟩
      · exact ⟨List.mem_cons_of_mem f, fun hm => (List.mem_cons.mp hm).resolve_left hgf⟩
  · intro g hg
    rcases List.mem_cons.mp hg with rfl | hg
    · exact hf
    · exact h.bound g hg
  · exact List.nodup_cons.mpr ⟨hout, h.nodup⟩

/-- The main Fiber is made. -/
theorem start (h : Discipline fibers n none [] []) :
    Discipline (Function.update fibers n Fiber.main) (n + 1) (some n) [] [n] := by
  refine ⟨?_, ?_, List.nodup_singleton n, trivial⟩
  · apply Family.forall_add (P := fun f (x : Fiber) => x.Part (f ∈ [n])
      (f ∈ ([] : List (ℕ × ℕ)).map Prod.fst) (some n = some f))
    · intro f hf
      have hne : f ≠ n := Nat.ne_of_lt hf
      refine (h.part f hf).congr (iff_of_false nofun ?_) Iff.rfl (iff_of_false nofun ?_)
      · exact fun hm => hne (List.mem_singleton.mp hm)
      · exact fun hm => hne (Option.some.inj hm).symm
    · exact ⟨iff_of_true rfl (List.mem_singleton_self n), iff_of_false nofun nofun, nofun,
        iff_of_true rfl rfl⟩
  · intro f hf
    obtain rfl := List.mem_singleton.mp hf
    exact Nat.lt_succ_self f

/-- The innermost Fiber switches. -/
theorem stop (h : Discipline fibers n main ((f, caller) :: rest)
      (chainOf main ((f, caller) :: rest))) (hstate : x.state ≠ .running)
    (hflag : x.resumeInProgress = (fibers f).resumeInProgress)
    (hmain : x.isMainFiber = (fibers f).isMainFiber) :
    Discipline (Function.update fibers f x) n main ((f, caller) :: rest) (chainOf main rest) := by
  have hout : f ∉ chainOf main rest := (List.nodup_cons.mp h.nodup).1
  refine ⟨?_, h.bound, h.nodup, h.linked⟩
  intro g hg
  have hpart := h.part g hg
  by_cases hgf : g = f
  · subst hgf
    rw [Function.update_self]
    refine ⟨iff_of_false hstate hout, ?_, fun _ => List.mem_cons_self, ?_⟩
    · rw [hflag]
      exact hpart.flag
    · rw [hmain]
      exact hpart.main
  · rw [Function.update_of_ne hgf]
    refine hpart.congr ?_ Iff.rfl Iff.rfl
    exact ⟨fun hm => (List.mem_cons.mp hm).resolve_left hgf, List.mem_cons_of_mem f⟩

/-- Its `resume` returns. -/
theorem pop (h : Discipline fibers n main ((f, caller) :: rest) (chainOf main rest))
    (hstate : x.state = (fibers f).state) (hflag : x.resumeInProgress = false)
    (hcaller : x.callerContext = false) (hmain : x.isMainFiber = (fibers f).isMainFiber) :
    Discipline (Function.update fibers f x) n main rest (chainOf main rest) := by
  have hout : f ∉ rest.map Prod.fst := by
    intro hm
    exact (List.nodup_cons.mp h.nodup).1 (List.mem_append_left _ hm)
  refine ⟨?_, fun g hg => h.bound g (List.mem_cons_of_mem f hg), (List.nodup_cons.mp h.nodup).2,
    h.linked.2⟩
  intro g hg
  have hpart := h.part g hg
  by_cases hgf : g = f
  · subst hgf
    rw [Function.update_self]
    refine ⟨?_, iff_of_false ?_ hout, fun hc => ?_, ?_⟩
    · rw [hstate]
      exact hpart.state
    · rw [hflag]
      exact Bool.false_ne_true
    · exact absurd (hcaller.symm.trans hc) Bool.false_ne_true
    · rw [hmain]
      exact hpart.main
  · rw [Function.update_of_ne hgf]
    refine hpart.congr Iff.rfl ?_ Iff.rfl
    exact ⟨fun hm => (List.mem_cons.mp hm).resolve_left hgf, List.mem_cons_of_mem f⟩

end Discipline

/-- The calls of `resume` in progress are numbered apart, `before` is their caller, and each call
that has rethrown is over. -/
structure Records (calls : ℕ) (active : List ℕ) (before : ℕ → Option ℕ) (rethrown : List Throw)
    (nest : List (ℕ × ℕ)) : Prop where
  before : active.map before = nest.map fun frame => some frame.2
  nodup : active.Nodup
  bound : ∀ call ∈ active, call < calls
  past : ∀ r ∈ rethrown, r.call < calls ∧ r.call ∉ active
  once : (rethrown.map Throw.call).Nodup

namespace Records

variable {calls call f caller : ℕ} {active : List ℕ} {before : ℕ → Option ℕ}
  {rethrown : List Throw} {nest rest : List (ℕ × ℕ)}

/-- Each frame has its call. -/
theorem eq_cons (h : Records calls active before rethrown ((f, caller) :: rest)) :
    ∃ call calls', active = call :: calls' := by
  cases active with
  | nil => exact absurd h.before nofun
  | cons call calls' => exact ⟨call, calls', rfl⟩

theorem push (h : Records calls active before rethrown nest) :
    Records (calls + 1) (calls :: active) (Function.update before calls (some caller)) rethrown
      ((f, caller) :: nest) := by
  refine ⟨?_, ?_, ?_, fun r hr => ?_, h.once⟩
  · have hold : ∀ k ∈ active, Function.update before calls (some caller) k = before k :=
      fun k hk => Function.update_of_ne (Nat.ne_of_lt (h.bound k hk)) ..
    simp only [List.map_cons, Function.update_self]
    rw [List.map_congr_left hold, h.before]
  · exact List.nodup_cons.mpr ⟨fun hm => Nat.lt_irrefl _ (h.bound calls hm), h.nodup⟩
  · intro k hk
    rcases List.mem_cons.mp hk with rfl | hk
    · exact Nat.lt_succ_self _
    · exact Nat.lt_succ_of_lt (h.bound k hk)
  · obtain ⟨hlt, hout⟩ := h.past r hr
    refine ⟨Nat.lt_succ_of_lt hlt, fun hm => ?_⟩
    rcases List.mem_cons.mp hm with heq | hm
    · exact Nat.ne_of_lt hlt heq
    · exact hout hm

theorem pop (h : Records calls (call :: active) before rethrown ((f, caller) :: rest))
    (e : Option ℕ) :
    Records calls active before (rethrown ++ (e.map fun e => ⟨call, f, e⟩).toList) rest := by
  obtain ⟨hnot, hnodup⟩ := List.nodup_cons.mp h.nodup
  have hnew : ∀ r ∈ (e.map fun e => (⟨call, f, e⟩ : Throw)).toList, r.call = call := by
    intro r hr
    cases e with
    | none => cases hr
    | some e => rw [List.mem_singleton.mp hr]
  refine ⟨(List.cons.inj h.before).2, hnodup,
    fun k hk => h.bound k (List.mem_cons_of_mem call hk), fun r hr => ?_, ?_⟩
  · rcases List.mem_append.mp hr with hr | hr
    · obtain ⟨hlt, hout⟩ := h.past r hr
      exact ⟨hlt, fun hm => hout (List.mem_cons_of_mem call hm)⟩
    · rw [hnew r hr]
      exact ⟨h.bound call List.mem_cons_self, hnot⟩
  · cases e with
    | none => simpa using h.once
    | some e =>
      -- the call was still active, so it has not rethrown before
      simp only [Option.map_some, Option.toList_some, List.map_append, List.map_cons, List.map_nil]
      refine h.once.append (List.nodup_singleton _) ?_
      intro k hk hk'
      obtain ⟨r, hr, rfl⟩ := List.mem_map.mp hk
      exact (h.past r hr).2 (List.mem_singleton.mp hk' ▸ List.mem_cons_self)

end Records

end PulsarRuntime.Fibers
