import PulsarRuntime.Timer.Runs

/-!
# The cached earliest deadline

`getNextTimer` answers from `earliestNext_`, which `insertToWheel` lowers and which the end of
`advanceWheel` overwrites with the minimum the pass has counted.  The pass counts the timers that
stay in wheel 0 and the first timer left in the fallback set; a timer that it moves between the
wheels, or re-arms, lowers the cache before the overwriting store and is forgotten by it.

`Counts clk tm d` says which deadlines a pass takes into account, and `KeepsEarliest` asks that
one of them is no later than the deadline of any timer the pass moves or re-arms.  In runs that
meet it, `earliestNext_` bounds every stored deadline from below and the answer of `getNextTimer`
is a sound sleep bound.
-/

namespace PulsarRuntime.Timers

open TimerManager Pass

variable {Cb : Type}

/-- A timer both expiry loops can reach, live, due and recurring: the pass re-arms it. -/
structure Rearms (clk : ℕ → ℕ) (tm : TimerManager Cb) (x : ℕ) (b : Bucket) : Prop where
  stored : x ∈ tm.store b
  low : b = .tree ∨ ∃ i, b = .wheel0 i
  live : (tm.heap x).cancelled = false
  due : (tm.heap x).next ≤ clk 0
  recurring : (tm.heap x).recurring = true

/-- The deadlines a pass reading `clk` takes into account for `earliestNext_`. -/
inductive Counts (clk : ℕ → ℕ) (tm : TimerManager Cb) : ℕ → Prop where
  /-- a live timer that stays in its slot of wheel 0 -/
  | wheel0 {x : ℕ} {i : Fin 256} (stored : x ∈ tm.store (.wheel0 i))
      (live : (tm.heap x).cancelled = false) (later : clk 0 < (tm.heap x).next) :
      Counts clk tm (tm.heap x).next
  /-- a timer, cancelled or not, that stays in the fallback set -/
  | tree {x : ℕ} (stored : x ∈ tm.store .tree) (later : clk 0 < (tm.heap x).next) :
      Counts clk tm (tm.heap x).next
  /-- a timer re-armed into the fallback set -/
  | far {x : ℕ} {b : Bucket} (rearms : Rearms clk tm x b)
      (far : ∀ k, clk k + 2 ^ 26 ≤ ((tm.heap x).rearmed (clk 0)).next) :
      Counts clk tm ((tm.heap x).rearmed (clk 0)).next
  /-- a timer of wheel 0 re-armed into a slot that the sweep has still to visit -/
  | ahead {x : ℕ} {i : Fin 256} (rearms : Rearms clk tm x (.wheel0 i))
      (later : clk 0 < ((tm.heap x).rearmed (clk 0)).next)
      (near : ((tm.heap x).rearmed (clk 0)).next < clk 0 + 256)
      (slot : i < Fin.ofNat 256 ((tm.heap x).rearmed (clk 0)).next) :
      Counts clk tm ((tm.heap x).rearmed (clk 0)).next

variable {tm : TimerManager Cb}

/-- A pass counts by buckets and timers alone. -/
theorem Counts.noted {clk : ℕ → ℕ} {d : ℕ} (hd : Counts clk tm d)
    (t : ℕ) : Counts clk { tm with previouseTime := t } d := by
  cases hd with
  | wheel0 stored live later => exact .wheel0 stored live later
  | tree stored later => exact .tree stored later
  | far r hfar => exact .far ⟨r.stored, r.low, r.live, r.due, r.recurring⟩ hfar
  | ahead r later near slot =>
    exact .ahead ⟨r.stored, r.low, r.live, r.due, r.recurring⟩ later near slot

section OnePass

variable {tm : TimerManager Cb} {clk : ℕ → ℕ}

/-- What the pass makes of a timer it re-arms: it is back in a bucket chosen for the new deadline,
or lost. -/
theorem Rearms.fate (h : Tidy tm) (hclk : ∀ k, clk 0 ≤ clk k) {x : ℕ} {b : Bucket}
    (hx : Rearms clk tm x b) :
    let next := ((tm.heap x).rearmed (clk 0)).next
    (∃ k, Located (advanceWheel clk tm).tm x (some (bucketFor (clk k) next)) ∧
      (advanceWheel clk tm).tm.heap x = (tm.heap x).rearmed (clk 0) ∧
      ∀ i j, b = .wheel0 i → i < j → (∀ k, bucketFor (clk k) next = .wheel0 j) →
        (advanceWheel clk tm).tm.earliestNext ≤ next) ∨
    ∃ i j k, b = .wheel0 i ∧ bucketFor (clk k) next = .wheel0 j ∧
      (j = i ∨ (i < j ∧ next ≤ clk 0)) := by
  obtain ⟨loc, hloc⟩ := h.located x
  obtain rfl := (hloc.mem_iff b).mp hx.stored
  cases advanceWheel_fate h hclk hloc with
  | dead cancelled _ _ =>
    rw [hx.live] at cancelled
    cases cancelled
  | kept _ later _ _ _ _ _ => exact absurd hx.due later.not_ge
  | moved _ place _ _ _ => exact absurd place (not_mem_upper hx.low)
  | expired _ _ _ once _ _ _ =>
    rw [hx.recurring] at once
    cases once
  | rearmed _ _ _ _ located heap _ target ahead _ =>
    obtain ⟨k, rfl⟩ := target
    exact .inl ⟨k, located, heap, ahead⟩
  | lost _ _ _ clash _ _ _ =>
    obtain ⟨j, target, hclash⟩ := clash
    exact .inr ⟨_, _, _, rfl, target, hclash⟩

/-- **What the cache holds after a pass.**  It is no later than any deadline the pass counts. -/
theorem earliestNext_le_counts (h : Tidy tm) (hclk : ∀ k, clk 0 ≤ clk k) {d : ℕ}
    (hd : Counts clk tm d) : (advanceWheel clk tm).tm.earliestNext ≤ d := by
  cases hd with
  | @wheel0 x i stored live later =>
    obtain ⟨loc, hloc⟩ := h.located x
    obtain rfl := (hloc.mem_iff _).mp stored
    cases advanceWheel_fate h hclk hloc with
    | dead cancelled _ _ =>
      rw [live] at cancelled
      cases cancelled
    | kept _ _ _ _ _ _ counted => exact counted
    | moved _ place _ _ _ => exact absurd place (not_mem_upper (.inr ⟨i, rfl⟩))
    | expired _ due _ _ _ _ _ => omega
    | rearmed _ due _ _ _ _ _ _ _ _ => omega
    | lost _ due _ _ _ _ _ => omega
  | @tree x stored later =>
    obtain ⟨loc, hloc⟩ := h.located x
    obtain rfl := (hloc.mem_iff _).mp stored
    obtain ⟨hl, hheap, -⟩ := tree_kept hloc later
    have hle := earliestNext_le_tree clk h ((hl.mem_iff .tree).mpr rfl)
    rwa [hheap] at hle
  | @far x b rearms far =>
    obtain ⟨k, located, heap, -⟩ | ⟨i, j, k, -, target, -⟩ := rearms.fate h hclk
    · rw [bucketFor_far (far k)] at located
      have hle := earliestNext_le_tree clk h ((located.mem_iff .tree).mpr rfl)
      rwa [heap] at hle
    · have hnear := (bucketFor_eq_wheel0 target).1
      have := far k
      omega
  | @ahead x i rearms later near slot =>
    obtain ⟨k, -, -, ahead⟩ | ⟨i', j, k, hi, target, clash⟩ := rearms.fate h hclk
    · refine ahead i _ rfl slot fun k => bucketFor_near ?_
      have := hclk k
      omega
    · obtain rfl := Bucket.wheel0.inj hi
      obtain ⟨-, rfl⟩ := bucketFor_eq_wheel0 target
      rcases clash with heq | ⟨-, hpast⟩
      · exact absurd heq slot.ne'
      · omega

end OnePass

/-! ### Runs that keep the cache sound -/

/-- No timer gets the deadline that stands for "none", and every timer a pass moves between the
wheels or re-arms has a counted deadline at or before its own. -/
def KeepsEarliest (s : Clocked Cb) : Op Cb → Prop
  | .addTimer ms _ _ created _ => (created + ms) % 2 ^ 64 ≠ noTimer
  | .listExpiredCb clk =>
      (∀ b ∈ upper, ∀ x ∈ s.tm.store b, (s.tm.heap x).cancelled = false →
        ∃ d ≤ (s.tm.heap x).next, Counts clk s.tm d) ∧
      ∀ x b, Rearms clk s.tm x b →
        ((s.tm.heap x).rearmed (clk 0)).next ≠ noTimer ∧
        ∃ d ≤ ((s.tm.heap x).rearmed (clk 0)).next, Counts clk s.tm d
  | _ => True

/-- The cache bounds every live stored deadline from below, and none of them is `noTimer`. -/
def Bounded (tm : TimerManager Cb) : Prop :=
  ∀ b, ∀ x ∈ tm.store b, (tm.heap x).cancelled = false →
    tm.earliestNext ≤ (tm.heap x).next ∧ (tm.heap x).next < noTimer

theorem rearmed_next_lt {t : Timer Cb} {now : ℕ} (h : (t.rearmed now).next ≠ noTimer) :
    (t.rearmed now).next < noTimer := by
  have hlt : (t.rearmed now).next < 2 ^ 64 := Nat.mod_lt _ (by decide)
  unfold noTimer at *
  omega

theorem listExpiredCb_bounded {s : Clocked Cb} {clk : ℕ → ℕ} (hw : WellFormed s.tm)
    (h : Bounded s.tm) (hclk : Monotone clk) (hok : KeepsEarliest s (.listExpiredCb clk)) :
    Bounded (listExpiredCb clk s.tm).tm := by
  have hcounts : ∀ d, Counts clk s.tm d → (listExpiredCb clk s.tm).tm.earliestNext ≤ d := by
    intro d hd
    rw [listExpiredCb_eq]
    exact earliestNext_le_counts (hw.toTidy.noted (clk 0)) (fun k => hclk (Nat.zero_le k))
      (hd.noted (clk 0))
  intro b x hx hlive
  obtain ⟨loc, hloc⟩ := hw.located x
  cases listExpiredCb_fate hw.toTidy hclk hloc with
  | absent located _ _ =>
    rw [located.mem_iff] at hx
    cases hx
  | dead cancelled heap _ =>
    rw [heap, cancelled] at hlive
    cases hlive
  | kept live _ _ _ heap _ counted =>
    rw [heap]
    exact ⟨counted, (h _ x ((hloc.mem_iff _).mpr rfl) live).2⟩
  | @moved b _ live place _ heap _ =>
    rw [heap]
    have hstored := (hloc.mem_iff b).mpr rfl
    obtain ⟨d, hd, hc⟩ := hok.1 b place x hstored live
    exact ⟨(hcounts d hc).trans hd, (h b x hstored live).2⟩
  | expired _ _ _ _ located _ _ =>
    rw [located.mem_iff] at hx
    cases hx
  | @rearmed b _ live due place again _ heap _ _ _ _ =>
    rw [heap]
    have hlow : b = .tree ∨ ∃ i, b = .wheel0 i := by
      by_contra hlow
      exact place (mem_upper (fun ht => hlow (.inl ht)) fun i hi => hlow (.inr ⟨i, hi⟩))
    obtain ⟨hne, d, hd, hc⟩ :=
      hok.2 x b ⟨(hloc.mem_iff b).mpr rfl, hlow, live, due, again⟩
    exact ⟨(hcounts d hc).trans hd, rearmed_next_lt hne⟩
  | lost _ _ _ _ located _ _ =>
    rw [located.mem_iff] at hx
    cases hx

theorem addTimer_bounded (hw : WellFormed tm) (h : Bounded tm) (ms : ℕ)
    (cb : Option Cb) (recurring : Bool) (created inserted : ℕ)
    (hne : (created + ms) % 2 ^ 64 ≠ noTimer) :
    Bounded (tm.addTimer ms cb recurring created inserted).1 := by
  intro b x hx hlive
  rw [addTimer_earliestNext]
  by_cases hnew : x = tm.allocated
  · subst hnew
    rw [(addTimer_new ms cb recurring created inserted (hw.fresh _ le_rfl)).2]
    refine ⟨min_le_left _ _, ?_⟩
    have hlt : (created + ms) % 2 ^ 64 < 2 ^ 64 := Nat.mod_lt _ (by decide)
    unfold noTimer at *
    dsimp only
    omega
  · obtain ⟨loc, hloc⟩ := hw.located x
    obtain ⟨hl, hheap⟩ := addTimer_old ms cb recurring created inserted hloc hnew
    rw [hl.mem_iff, ← hloc.mem_iff] at hx
    rw [hheap] at hlive ⊢
    obtain ⟨hle, hlt⟩ := h b x hx hlive
    exact ⟨(min_le_right _ _).trans hle, hlt⟩

theorem next_bounded {s : Clocked Cb} {op : Op Cb} (hw : WellFormed s.tm) (h : Bounded s.tm)
    (he : (manager Cb).enabled s op) (hok : KeepsEarliest s op) :
    Bounded ((manager Cb).next s op).tm := by
  cases op with
  | addTimer ms cb recurring created inserted =>
    exact addTimer_bounded hw h ms cb recurring created inserted hok
  | cancel id =>
    intro b x hx hlive
    have hx' : x ∈ s.tm.store b := by
      rw [← cancel_store id]
      exact hx
    obtain ⟨hle, hlt⟩ := h b x hx' ((cancel_heap id x).2 hlive)
    show (s.tm.cancel id).1.earliestNext ≤ ((s.tm.cancel id).1.heap x).next ∧
      ((s.tm.cancel id).1.heap x).next < noTimer
    rw [cancel_earliestNext, (cancel_heap id x).1]
    exact ⟨hle, hlt⟩
  | listExpiredCb clk => exact listExpiredCb_bounded hw h he.2.1 hok
  | getNextTimer now => exact h

theorem reachVia_bounded {s : Clocked Cb} (h : (manager Cb).ReachVia KeepsEarliest s) :
    Bounded s.tm := by
  have hinv : WellFormed s.tm ∧ Bounded s.tm :=
    h.invariant (I := fun s => WellFormed s.tm ∧ Bounded s.tm)
      (fun s hs => ⟨init_wellFormed hs, fun b x hx _ => by
        have hs' : s.tm = TimerManager.create s.last := hs
        rw [hs'] at hx
        cases hx⟩)
      (fun s op hi he hok => ⟨next_wellFormed hi.1 he, next_bounded hi.1 hi.2 he hok⟩)
  exact hinv.2

/-- With a sound cache the answer is a sleep bound for every live stored timer. -/
theorem Bounded.nextTimer_le (h : Bounded tm) {b : Bucket} {x : ℕ}
    (hx : x ∈ tm.store b) (hlive : (tm.heap x).cancelled = false) (now : ℕ) :
    tm.nextTimer now ≠ noTimer ∧ tm.nextTimer now ≤ (tm.heap x).next - now := by
  obtain ⟨hle, hlt⟩ := h b x hx hlive
  have hne : tm.earliestNext ≠ noTimer := by omega
  unfold nextTimer
  rw [if_neg hne]
  dsimp only
  rw [if_neg hne]
  split
  · exact ⟨by unfold noTimer; decide, Nat.zero_le _⟩
  · omega

/-- **The sleep bound is sound.**  In every state of a run that keeps the cache, `getNextTimer`
never answers "no timer" while a live timer is stored, and never sleeps past its deadline. -/
theorem getNextTimer_sound {s : Clocked Cb} (h : (manager Cb).ReachVia KeepsEarliest s)
    {b : Bucket} {x : ℕ} (hx : x ∈ s.tm.store b) (hlive : (s.tm.heap x).cancelled = false)
    (now : ℕ) : (s.tm.getNextTimer now).2 ≠ noTimer ∧
      (s.tm.getNextTimer now).2 ≤ (s.tm.heap x).next - now :=
  (reachVia_bounded h).nextTimer_le hx hlive now

/-- A recurring timer of 100 ms, a one-shot of 120 ms and one of 1000 ms, all added at 1000. -/
def threeTimers : List (Op Unit) :=
  [.addTimer 100 (some ()) true 1000 1000, .addTimer 120 (some ()) false 1000 1000,
    .addTimer 1000 (some ()) false 1000 1000]

theorem threeTimers_allowed : (manager Unit).Allowed KeepsEarliest (.start 1000) threeTimers := by
  have hadd : (1000 : ℕ) ≤ 1000 ∧ (1000 : ℕ) ≤ 1000 ∧ (1000 : ℕ) < 2 ^ 64 := by decide
  have hnext : ∀ ms ≤ 1000, (1000 + ms) % 2 ^ 64 ≠ noTimer := by decide +kernel
  exact ⟨⟨hadd, hnext 100 (by decide)⟩, ⟨hadd, hnext 120 (by decide)⟩,
    ⟨hadd, hnext 1000 (by decide)⟩, trivial⟩

/-- The pass at 1105 re-arms the first timer and passes over the third; the second one, due at
1120, is counted before both. -/
theorem threeTimers_keeps : KeepsEarliest ((manager Unit).run (.start 1000) threeTimers)
    (.listExpiredCb fun _ => 1105) := by
  have hcount : Counts (fun _ => 1105) ((manager Unit).run (.start 1000) threeTimers).tm 1120 :=
    .wheel0 (x := 1) (i := 96) (by decide +kernel) (by decide +kernel) (by decide +kernel)
  have hupper : ∀ b ∈ upper, ∀ x ∈ ((manager Unit).run (.start 1000) threeTimers).tm.store b,
      1120 ≤ (((manager Unit).run (.start 1000) threeTimers).tm.heap x).next := by decide +kernel
  have hlow : ∀ i, ∀ x ∈ ((manager Unit).run (.start 1000) threeTimers).tm.store (.wheel0 i),
      (((manager Unit).run (.start 1000) threeTimers).tm.heap x).next ≤ 1105 → x = 0 := by
    decide +kernel
  refine ⟨fun b hb x hx _ => ⟨1120, hupper b hb x hx, hcount⟩, fun x b hr => ?_⟩
  have hx : x = 0 := by
    rcases hr.low with rfl | ⟨i, rfl⟩
    · have hempty : ((manager Unit).run (.start 1000) threeTimers).tm.store .tree = [] := by
        decide +kernel
      have hstored := hr.stored
      rw [hempty] at hstored
      cases hstored
    · exact hlow i x hr.stored hr.due
  subst hx
  exact ⟨by decide +kernel, 1120, by decide +kernel, hcount⟩

theorem getNextTimer_sound_three : ((((manager Unit).run (.start 1000)
    (threeTimers ++ [.listExpiredCb fun _ => 1105])).tm.getNextTimer 1105).2 ≤ 895) := by
  have hreach : (manager Unit).ReachVia KeepsEarliest
      ((manager Unit).run (.start 1000) (threeTimers ++ [.listExpiredCb fun _ => 1105])) := by
    unfold Machine.run
    rw [List.foldl_append]
    exact .step (Machine.reachVia_run (reachVia_start _ 1000) threeTimers_allowed)
      ⟨by decide +kernel, monotone_const, fun _ => show 1105 < 2 ^ 64 by decide⟩ threeTimers_keeps
  have hsound := getNextTimer_sound hreach (b := .wheel1 7) (x := 2) (by decide +kernel)
    (by decide +kernel) 1105
  exact hsound.2.trans (by decide +kernel)

/-- A one-shot of 1000 ms in wheel 1 and a pass: the pass moves it from wheel 1 to wheel 1, counts
nothing and stores `~0ull`, so a live timer is stored and `getNextTimer` reports none. -/
theorem live_timer_unreported : ∃ s : Clocked Unit, (manager Unit).Reach s ∧
    ∃ b, ∃ x ∈ s.tm.store b, (s.tm.heap x).cancelled = false ∧
      (s.tm.getNextTimer 1000).2 = noTimer := by
  refine ⟨(manager Unit).next (oneTimer 1000) (.listExpiredCb fun _ => 1000),
    .step (oneTimer_reach 1000) ⟨by decide, monotone_const, ?_⟩ trivial, .wheel1 7, 0,
    by decide +kernel, by decide +kernel, by decide +kernel⟩
  exact fun _ => show 1000 < 2 ^ 64 by decide

/-! ### Managers that hold no live timer -/

/-- Every stored timer is cancelled. -/
def NoneLive (tm : TimerManager Cb) : Prop := ∀ b, ∀ x ∈ tm.store b, (tm.heap x).cancelled = true

theorem NoneLive.of_nextTimer (h : Bounded tm) {now : ℕ}
    (hnone : tm.nextTimer now = noTimer) : NoneLive tm := by
  intro b x hx
  by_contra hlive
  exact (h.nextTimer_le hx (Bool.not_eq_true _ ▸ hlive) now).1 hnone

theorem NoneLive.cancel (h : NoneLive tm) (id : ℕ) : NoneLive (tm.cancel id).1 := by
  intro b x hx
  rw [cancel_store] at hx
  by_contra hlive
  have hlive' := (cancel_heap id x).2 (Bool.not_eq_true _ ▸ hlive)
  rw [h b x hx] at hlive'
  cases hlive'

/-- A pass over such a manager finds nothing to call and leaves it without live timers. -/
theorem NoneLive.listExpiredCb {tm : TimerManager Cb} {clk : ℕ → ℕ} (h : NoneLive tm)
    (hw : WellFormed tm) (hclk : Monotone clk) :
    NoneLive (listExpiredCb clk tm).tm ∧ (listExpiredCb clk tm).cbs = [] := by
  have hfate : ∀ x, (∀ b, x ∈ (Pass.listExpiredCb clk tm).tm.store b →
      ((Pass.listExpiredCb clk tm).tm.heap x).cancelled = true) ∧
      ∀ f, (x, f) ∉ (Pass.listExpiredCb clk tm).cbs := by
    intro x
    obtain ⟨loc, hloc⟩ := hw.located x
    have hdead : ∀ b, loc = some b → (tm.heap x).cancelled ≠ false := by
      intro b hb
      rw [h b x ((hloc.mem_iff b).mpr hb)]
      decide
    cases listExpiredCb_fate hw.toTidy hclk hloc with
    | absent located _ quiet =>
      refine ⟨fun b hx => ?_, quiet⟩
      rw [located.mem_iff] at hx
      cases hx
    | dead cancelled heap quiet =>
      refine ⟨fun b _ => ?_, quiet⟩
      rw [heap]
      exact cancelled
    | kept live _ _ _ _ _ _ => exact absurd live (hdead _ rfl)
    | moved live _ _ _ _ => exact absurd live (hdead _ rfl)
    | expired live _ _ _ _ _ _ => exact absurd live (hdead _ rfl)
    | rearmed live _ _ _ _ _ _ _ _ _ => exact absurd live (hdead _ rfl)
    | lost live _ _ _ _ _ _ => exact absurd live (hdead _ rfl)
  exact ⟨fun b x => (hfate x).1 b, List.eq_nil_iff_forall_not_mem.mpr fun c => (hfate c.1).2 c.2⟩

end PulsarRuntime.Timers
