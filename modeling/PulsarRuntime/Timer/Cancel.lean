import PulsarRuntime.Lib.Family
import PulsarRuntime.Timer.Race

/-!
# When `cancel` wins against a pass

A pass loads a timer's flag, and if the timer is due it copies the callback and then writes the
flag without looking at it again.  A `cancel` whose exchange falls into that window finds the
flag down and returns true, although the callback has been or will be emitted; for a recurring
timer the pass then writes false over the cancellation.

`Outside` keeps the exchange out of the window.  Under it a `cancel` that returns true has
stopped the timer for good (`cancel_final`).
-/

namespace PulsarRuntime.Timers

open TimerManager Pass Family

variable {Cb : Type}

def Loop.ids : Loop → List ℕ
  | .slot _ todo remaining _ => todo ++ remaining
  | .tree => []

/-- The timers a pass has in hand. -/
def Stage.ids : Stage → List ℕ
  | .expiry l => l.ids
  | .popped id => [id]
  | .live id l | .emitted id l => id :: l.ids
  | .toInsert _ todo => todo
  | .moving _ id todo => id :: todo
  | .idle | .sweep _ | .cascade _ => []

/-- The exchange of this call found the flag down. -/
def Cancel.Won (c : Cancel) : Prop := c.pc = .exchanged ∨ c.pc = .returned true

theorem setTimer_recurring (tm : TimerManager Cb) {id : ℕ} {t : Timer Cb}
    (ht : t.recurring = (tm.heap id).recurring) (x : ℕ) :
    ((tm.setTimer id t).heap x).recurring = (tm.heap x).recurring := by
  by_cases hx : x = id
  · rw [hx, setTimer_heap_self, ht]
  · rw [setTimer_heap_ne _ _ hx]

namespace Pass

section

variable (now : ℕ) (clk : ℕ → ℕ) (p : Pass Cb) (id x : ℕ)

theorem emit_tm : (p.emit now id).tm = p.tm.setTimer id (if (p.tm.heap id).recurring then
    { p.tm.heap id with next := (now + (p.tm.heap id).ms) % 2 ^ 64 }
    else { p.tm.heap id with cb := none }) := by
  unfold emit
  dsimp only
  split <;> rfl

theorem emit_cbs : (p.emit now id).cbs =
    p.cbs ++ ((p.tm.heap id).cb.map fun f => (id, f)).toList := by
  unfold emit
  dsimp only
  split <;> rfl

theorem emit_cancelled : ((p.emit now id).tm.heap x).cancelled = (p.tm.heap x).cancelled := by
  rw [emit_tm]
  by_cases hx : x = id
  · subst hx
    rw [setTimer_heap_self]
    split <;> rfl
  · rw [setTimer_heap_ne _ _ hx]

theorem emit_recurring : ((p.emit now id).tm.heap x).recurring = (p.tm.heap x).recurring := by
  rw [emit_tm]
  exact setTimer_recurring p.tm (by split <;> rfl) x

theorem storeFlag_heap : (p.storeFlag clk id).tm.heap =
    (p.tm.setTimer id { p.tm.heap id with cancelled := !(p.tm.heap id).recurring }).heap := by
  unfold storeFlag
  dsimp only
  split <;> rename_i hr <;> simp [reinsert, hr]

theorem storeFlag_allocated : (p.storeFlag clk id).tm.allocated = p.tm.allocated := by
  unfold storeFlag
  dsimp only
  split <;> simp [reinsert]

theorem storeFlag_cbs : (p.storeFlag clk id).cbs = p.cbs := by
  unfold storeFlag
  dsimp only
  split <;> rfl

theorem mem_storeFlag {b : Bucket} (h : x ∈ (p.storeFlag clk id).tm.store b) :
    x = id ∨ x ∈ p.tm.store b := by
  unfold storeFlag at h
  dsimp only at h
  split at h
  · have hmem := mem_insertToWheel h
    exact hmem
  · exact .inr h

end

end Pass

namespace Race

/-- The due timer whose flag the pass has loaded as false and not yet written. -/
def window (s : Race Cb) : Option ℕ :=
  match s.stage with
  | .live id (.slot ..) => if (s.pass.tm.heap id).next ≤ s.clk 0 then some id else none
  | .live id .tree => some id
  | .emitted id _ => some id
  | _ => none

/-- The manager stores the timer or the running pass has it in hand. -/
def Held (s : Race Cb) (x : ℕ) : Prop := (∃ b, x ∈ s.pass.tm.store b) ∨ x ∈ s.stage.ids

/-! ### What a step of the pass can do -/

/-- Either no timer and no callback changes, or the pass emits, or it writes the flag of the
timer it has just emitted. -/
inductive Moved (s : Race Cb) : Race Cb → Prop where
  | quiet {p : Pass Cb} {stage : Stage} (heap : p.tm.heap = s.pass.tm.heap)
      (allocated : p.tm.allocated = s.pass.tm.allocated) (cbs : p.cbs = s.pass.cbs)
      (held : ∀ x, (s.goto p stage).Held x → s.Held x)
      (live : ∀ id l, stage = .live id l → (s.pass.tm.heap id).cancelled = false)
      (settled : ∀ id l, s.stage ≠ .emitted id l ∧ stage ≠ .emitted id l) :
      Moved s (s.goto p stage)
  | emit {id : ℕ} {l : Loop} (live : s.stage = .live id l) (window : s.window = some id) :
      Moved s (s.goto (s.pass.emit (s.clk 0) id) (.emitted id l))
  | store {id : ℕ} {l : Loop} (emitted : s.stage = .emitted id l) :
      Moved s (s.goto (s.pass.storeFlag s.clk id) (.expiry l))

variable {id : ℕ} {s : Race Cb}

theorem load_moved {dead live : Stage}
    (hs : ∀ x l, s.stage ≠ .emitted x l) (hdead : ∀ x ∈ dead.ids, x ∈ s.stage.ids)
    (hlive : ∀ x ∈ live.ids, x ∈ s.stage.ids) (hd : ∀ x l, dead ≠ .live x l ∧ dead ≠ .emitted x l)
    (hl : ∀ x l, (live = .live x l → x = id) ∧ live ≠ .emitted x l) :
    Moved s (s.load id dead live) := by
  by_cases hc : (s.pass.tm.heap id).cancelled = true
  · rw [load, if_pos hc]
    exact .quiet rfl rfl rfl (fun x hx => hx.imp_right (hdead x))
      (fun x l h => absurd h (hd x l).1) (fun x l => ⟨hs x l, (hd x l).2⟩)
  · rw [load, if_neg hc]
    refine .quiet rfl rfl rfl (fun x hx => hx.imp_right (hlive x)) (fun x l h => ?_)
      (fun x l => ⟨hs x l, (hl x l).2⟩)
    rw [(hl x l).1 h]
    exact Bool.not_eq_true _ ▸ hc

/-- A timer of the manager after one bucket was replaced. -/
theorem mem_setBucket {tm : TimerManager Cb} {b b' : Bucket} {ids : List ℕ} {x : ℕ}
    (h : x ∈ (tm.setBucket b ids).store b') : x ∈ ids ∨ ∃ c, x ∈ tm.store c := by
  by_cases hb : b' = b
  · subst hb
    rw [setBucket_store_self] at h
    exact .inl h
  · rw [setBucket_store_ne _ _ hb] at h
    exact .inr ⟨b', h⟩

theorem finish_moved (hs : ∀ x l, s.stage ≠ .emitted x l) : Moved s s.finish :=
  .quiet rfl rfl rfl (fun x hx => .inl (hx.resolve_right (by simp [goto, Stage.ids])))
    (fun _ _ h => by cases h) (fun x l => ⟨hs x l, by simp⟩)

/-- A step that moves timers between the buckets and the pass's hands. -/
theorem goto_moved {p : Pass Cb} {stage : Stage}
    (heap : p.tm.heap = s.pass.tm.heap) (allocated : p.tm.allocated = s.pass.tm.allocated)
    (cbs : p.cbs = s.pass.cbs)
    (hstore : ∀ b, ∀ x ∈ p.tm.store b, x ∈ s.stage.ids ∨ ∃ c, x ∈ s.pass.tm.store c)
    (hids : ∀ x ∈ stage.ids, x ∈ s.stage.ids ∨ ∃ c, x ∈ s.pass.tm.store c)
    (hs : ∀ x l, s.stage ≠ .emitted x l) (hd : ∀ x l, stage ≠ .live x l ∧ stage ≠ .emitted x l) :
    Moved s (s.goto p stage) := by
  refine .quiet heap allocated cbs ?_ (fun x l h => absurd h (hd x l).1)
    (fun x l => ⟨hs x l, (hd x l).2⟩)
  rintro x (⟨b, hx⟩ | hx)
  · exact (hstore b x hx).symm
  · exact (hids x hx).symm

theorem advance_moved (s : Race Cb) (hs : s.stage ≠ .idle) : Moved s s.advance := by
  have hsame : ∀ b, ∀ x ∈ s.pass.tm.store b, x ∈ s.stage.ids ∨ ∃ c, x ∈ s.pass.tm.store c :=
    fun b x hx => .inr ⟨b, hx⟩
  have hswap : ∀ b ids, (∀ x ∈ ids, x ∈ s.stage.ids ∨ ∃ c, x ∈ s.pass.tm.store c) →
      ∀ b', ∀ x ∈ (s.pass.tm.setBucket b ids).store b',
        x ∈ s.stage.ids ∨ ∃ c, x ∈ s.pass.tm.store c :=
    fun b ids h b' x hx => (mem_setBucket hx).elim (h x) .inr
  cases h : s.stage with
  | idle => exact absurd h hs
  | sweep slots =>
    cases slots with
    | nil =>
      simp only [advance, h]
      exact goto_moved rfl rfl rfl hsame (by simp [Stage.ids]) (by simp [h]) (by simp)
    | cons i later =>
      simp only [advance, h]
      split
      · exact goto_moved rfl rfl rfl hsame (by simp [Stage.ids]) (by simp [h]) (by simp)
      · refine goto_moved rfl rfl rfl hsame (fun x hx => .inr ⟨.wheel0 i, ?_⟩) (by simp [h])
          (by simp)
        simpa [Stage.ids, Loop.ids] using hx
  | expiry l =>
    cases l with
    | tree =>
      simp only [advance, h]
      split
      · exact finish_moved (by simp [h])
      · rename_i id rest ht
        split
        · refine goto_moved rfl rfl rfl (hswap _ _ fun x hx => .inr ⟨.tree, by simp [ht, hx]⟩)
            (fun x hx => .inr ⟨.tree, ?_⟩) (by simp [h]) (by simp)
          simp only [Stage.ids, List.mem_singleton] at hx
          simp [ht, hx]
        · exact finish_moved (by simp [h])
    | slot i todo remaining later =>
      cases todo with
      | nil =>
        simp only [advance, h]
        exact goto_moved rfl rfl rfl
          (hswap _ _ fun x hx => .inl (by simpa [h, Stage.ids, Loop.ids]))
          (by simp [Stage.ids]) (by simp [h]) (by simp)
      | cons id todo =>
        simp only [advance, h]
        exact load_moved (by simp [h]) (by simp +contextual [h, Stage.ids, Loop.ids])
          (by simp [h, Stage.ids, Loop.ids]) (by simp) (by simp +contextual [eq_comm])
  | popped id =>
    simp only [advance, h]
    exact load_moved (by simp [h]) (by simp [h, Stage.ids, Loop.ids])
      (by simp [h, Stage.ids, Loop.ids]) (by simp) (by simp +contextual [eq_comm])
  | live id l =>
    cases l with
    | tree =>
      simp only [advance, h]
      exact .emit h (by simp [window, h])
    | slot i todo remaining later =>
      simp only [advance, h]
      split
      · rename_i hdue
        exact .emit h (by simp [window, h, hdue])
      · refine goto_moved rfl rfl rfl hsame (fun x hx => .inl ?_) (by simp [h]) (by simp)
        simp only [h, Stage.ids, Loop.ids, List.mem_append, List.mem_cons,
          List.not_mem_nil, or_false] at hx ⊢
        grind
  | emitted id l =>
    simp only [advance, h]
    exact .store h
  | cascade slots =>
    cases slots with
    | nil =>
      simp only [advance, h]
      exact goto_moved rfl rfl rfl hsame (by simp [Stage.ids, Loop.ids]) (by simp [h]) (by simp)
    | cons b slots =>
      simp only [advance, h]
      split
      · exact goto_moved rfl rfl rfl hsame (by simp [Stage.ids]) (by simp [h]) (by simp)
      · exact goto_moved rfl rfl rfl (hswap _ _ (by simp)) (fun x hx => .inr ⟨b, hx⟩)
          (by simp [h]) (by simp)
  | toInsert slots todo =>
    cases todo with
    | nil =>
      simp only [advance, h]
      exact goto_moved rfl rfl rfl hsame (by simp [Stage.ids]) (by simp [h]) (by simp)
    | cons id todo =>
      simp only [advance, h]
      exact load_moved (by simp [h]) (by simp +contextual [h, Stage.ids])
        (by simp [h, Stage.ids]) (by simp) (by simp)
  | moving slots id todo =>
    simp only [advance, h]
    refine goto_moved (by simp [reinsert]) (by simp [reinsert]) rfl (fun b x hx => ?_)
      (by simp +contextual [h, Stage.ids]) (by simp [h]) (by simp)
    rcases mem_insertToWheel hx with rfl | hx
    · exact .inl (by simp [h, Stage.ids])
    · exact .inr ⟨b, hx⟩

/-! ### The invariant -/

/-- Every cancellation meets a timer the pass is not about to write to. -/
def Outside (s : Race Cb) : RaceStep Cb → Prop
  | .exchange k => s.window ≠ some (s.cancels k).id
  | _ => True

instance (s : Race Cb) (a : RaceStep Cb) : Decidable (Outside s a) := by
  rcases a <;> (dsimp only [Outside]; infer_instance)

/-- The timer is cancelled and, if it is a one-shot timer, no pass has emitted it. -/
def Stopped (s : Race Cb) (id : ℕ) : Prop :=
  (s.pass.tm.heap id).cancelled = true ∧
    ((s.pass.tm.heap id).recurring = false → ∀ f, (id, f) ∉ s.emitted)

theorem Stopped.mono {s t : Race Cb} (h : s.Stopped id)
    (hflag : (t.pass.tm.heap id).cancelled = (s.pass.tm.heap id).cancelled)
    (hrecurring : (t.pass.tm.heap id).recurring = (s.pass.tm.heap id).recurring)
    (hemitted : ∀ f, (id, f) ∈ t.emitted → (id, f) ∈ s.emitted) : t.Stopped id :=
  ⟨hflag.trans h.1, fun hr f hf => h.2 (hrecurring.symm.trans hr) f (hemitted f hf)⟩

structure Inv (s : Race Cb) : Prop where
  held : ∀ x, s.Held x → x < s.pass.tm.allocated
  emitted : ∀ e ∈ s.emitted, e.1 < s.pass.tm.allocated
  target : ∀ k < s.count, (s.cancels k).id < s.pass.tm.allocated
  window : ∀ id, s.window = some id → (s.pass.tm.heap id).cancelled = false
  /-- The flag doubles as the fired flag of a one-shot timer. -/
  fired : ∀ e ∈ s.emitted, (s.pass.tm.heap e.1).recurring = false →
    (s.pass.tm.heap e.1).cancelled = true ∨ ∃ l, s.stage = .emitted e.1 l
  won : ∀ k < s.count, (s.cancels k).Won → s.Stopped (s.cancels k).id

theorem window_emitted {l : Loop} (h : s.stage = .emitted id l) :
    s.window = some id := by simp [window, h]

/-- A window is open only on the timer in hand. -/
theorem stage_of_window (h : s.window = some id) :
    (∃ l, s.stage = .live id l) ∨ ∃ l, s.stage = .emitted id l := by
  unfold window at h
  split at h
  · split at h
    · cases h
      exact .inl ⟨_, by assumption⟩
    · cases h
  · cases h
    exact .inl ⟨_, by assumption⟩
  · cases h
    exact .inr ⟨_, by assumption⟩
  · cases h

theorem not_window_idle (h : s.stage = .idle) (id : ℕ) : s.window ≠ some id := by
  simp [window, h]

theorem Inv.stopped_not_window (h : Inv s) (hid : s.Stopped id) : s.window ≠ some id := by
  intro hw
  have hup := hid.1
  rw [h.window id hw] at hup
  cases hup

theorem emitted_goto (s : Race Cb) (p : Pass Cb) (stage : Stage) :
    (s.goto p stage).emitted = s.past ++ p.cbs := rfl

theorem Inv.quiet (h : Inv s) {p : Pass Cb} {stage : Stage}
    (heap : p.tm.heap = s.pass.tm.heap) (allocated : p.tm.allocated = s.pass.tm.allocated)
    (cbs : p.cbs = s.pass.cbs) (held : ∀ x, (s.goto p stage).Held x → s.Held x)
    (live : ∀ id l, stage = .live id l → (s.pass.tm.heap id).cancelled = false)
    (settled : ∀ id l, s.stage ≠ .emitted id l ∧ stage ≠ .emitted id l) :
    Inv (s.goto p stage) := by
  have hemitted : (s.goto p stage).emitted = s.emitted := by
    rw [emitted_goto, cbs, Race.emitted]
  refine ⟨fun x hx => ?_, fun e he => ?_, fun k hk => ?_, fun id hw => ?_, fun e he hr => ?_,
    fun k hk hwon => ?_⟩
  · exact allocated ▸ h.held x (held x hx)
  · exact allocated ▸ h.emitted e (hemitted ▸ he)
  · exact allocated ▸ h.target k hk
  · show (p.tm.heap id).cancelled = false
    rw [heap]
    rcases stage_of_window hw with ⟨l, hl⟩ | ⟨l, hl⟩
    · exact live id l hl
    · exact absurd hl (settled id l).2
  · have hr' : (s.pass.tm.heap e.1).recurring = false := heap ▸ hr
    rcases h.fired e (hemitted ▸ he) hr' with hup | ⟨l, hl⟩
    · left
      show (p.tm.heap e.1).cancelled = true
      rw [heap]
      exact hup
    · exact absurd hl (settled e.1 l).1
  · have hheap := congrFun heap (s.cancels k).id
    exact (h.won k hk hwon).mono (congrArg Timer.cancelled hheap)
      (congrArg Timer.recurring hheap) fun f hf => hemitted ▸ hf

theorem Inv.emit (h : Inv s) {l : Loop} (live : s.stage = .live id l)
    (window : s.window = some id) :
    Inv (s.goto (s.pass.emit (s.clk 0) id) (.emitted id l)) := by
  have hid : id < s.pass.tm.allocated := h.held id (.inr (by simp [live, Stage.ids]))
  have hdown := h.window id window
  have hmem : ∀ e ∈ (s.goto (s.pass.emit (s.clk 0) id) (.emitted id l)).emitted,
      e ∈ s.emitted ∨ e.1 = id := by
    intro e he
    simp only [emitted_goto, emit_cbs, List.mem_append, Option.mem_toList, Option.map_eq_some_iff]
      at he
    rcases he with he | he | ⟨f, -, rfl⟩
    · exact .inl (List.mem_append_left _ he)
    · exact .inl (List.mem_append_right _ he)
    · exact .inr rfl
  have hallocated : (s.pass.emit (s.clk 0) id).tm.allocated = s.pass.tm.allocated := by
    rw [emit_tm, setTimer_allocated]
  refine ⟨fun x hx => ?_, fun e he => ?_, fun k hk => ?_, fun x hw => ?_, fun e he hr => ?_,
    fun k hk hwon => ?_⟩
  · show x < (s.pass.emit (s.clk 0) id).tm.allocated
    rw [hallocated]
    rcases hx with ⟨b, hx⟩ | hx
    · have hx : x ∈ (s.pass.emit (s.clk 0) id).tm.store b := hx
      rw [emit_tm, setTimer_store] at hx
      exact h.held x (.inl ⟨b, hx⟩)
    · exact h.held x (.inr (by rw [live]; exact hx))
  · show e.1 < (s.pass.emit (s.clk 0) id).tm.allocated
    rw [hallocated]
    rcases hmem e he with he | he
    · exact h.emitted e he
    · rw [he]
      exact hid
  · show _ < (s.pass.emit (s.clk 0) id).tm.allocated
    rw [hallocated]
    exact h.target k hk
  · show ((s.pass.emit (s.clk 0) id).tm.heap x).cancelled = false
    rw [emit_cancelled]
    obtain rfl : id = x := Option.some.inj hw
    exact hdown
  · show ((s.pass.emit (s.clk 0) id).tm.heap e.1).cancelled = true ∨ _
    rw [emit_cancelled]
    rcases hmem e he with he | he
    · have hr : ((s.pass.emit (s.clk 0) id).tm.heap e.1).recurring = false := hr
      rw [emit_recurring] at hr
      rcases h.fired e he hr with hup | ⟨l', hl'⟩
      · exact .inl hup
      · rw [live] at hl'
        cases hl'
    · exact .inr ⟨l, by rw [he]; rfl⟩
  · have hstop := h.won k hk hwon
    have hne : (s.cancels k).id ≠ id := by
      intro heq
      rw [heq] at hstop
      exact h.stopped_not_window hstop window
    exact hstop.mono (emit_cancelled ..) (emit_recurring ..)
      fun f hf => (hmem _ hf).resolve_right hne

theorem Inv.store (h : Inv s) {l : Loop} (hstage : s.stage = .emitted id l) :
    Inv (s.goto (s.pass.storeFlag s.clk id) (.expiry l)) := by
  have hid : id < s.pass.tm.allocated := h.held id (.inr (by simp [hstage, Stage.ids]))
  have hemitted : (s.goto (s.pass.storeFlag s.clk id) (.expiry l)).emitted = s.emitted := by
    rw [emitted_goto, storeFlag_cbs, Race.emitted]
  have hself : (s.pass.storeFlag s.clk id).tm.heap id =
      { s.pass.tm.heap id with cancelled := !(s.pass.tm.heap id).recurring } := by
    rw [storeFlag_heap, setTimer_heap_self]
  have hother : ∀ x, x ≠ id → (s.pass.storeFlag s.clk id).tm.heap x = s.pass.tm.heap x := by
    intro x hx
    rw [storeFlag_heap, setTimer_heap_ne _ _ hx]
  refine ⟨fun x hx => ?_, fun e he => ?_, fun k hk => ?_, fun x hw => ?_, fun e he hr => ?_,
    fun k hk hwon => ?_⟩
  · show x < (s.pass.storeFlag s.clk id).tm.allocated
    rw [storeFlag_allocated]
    rcases hx with ⟨b, hx⟩ | hx
    · rcases mem_storeFlag _ _ _ _ hx with rfl | hx
      · exact hid
      · exact h.held x (.inl ⟨b, hx⟩)
    · exact h.held x (.inr (by rw [hstage]; exact List.mem_cons_of_mem _ hx))
  · show e.1 < (s.pass.storeFlag s.clk id).tm.allocated
    rw [storeFlag_allocated]
    exact h.emitted e (hemitted ▸ he)
  · show _ < (s.pass.storeFlag s.clk id).tm.allocated
    rw [storeFlag_allocated]
    exact h.target k hk
  · rcases stage_of_window hw with ⟨l', hl'⟩ | ⟨l', hl'⟩ <;> cases hl'
  · left
    have hr : ((s.pass.storeFlag s.clk id).tm.heap e.1).recurring = false := hr
    show ((s.pass.storeFlag s.clk id).tm.heap e.1).cancelled = true
    by_cases he' : e.1 = id
    · rw [he', hself] at hr ⊢
      simpa using hr
    · rw [hother _ he'] at hr ⊢
      rcases h.fired e (hemitted ▸ he) hr with hup | ⟨l', hl'⟩
      · exact hup
      · rw [hstage] at hl'
        cases hl'
        exact absurd rfl he'
  · have hstop := h.won k hk hwon
    have hne : (s.cancels k).id ≠ id := by
      intro heq
      rw [heq] at hstop
      exact h.stopped_not_window hstop (window_emitted hstage)
    have hheap := hother _ hne
    exact hstop.mono (congrArg Timer.cancelled hheap) (congrArg Timer.recurring hheap)
      fun f hf => hemitted ▸ hf

theorem Inv.moved {s t : Race Cb} (h : Inv s) (hm : Moved s t) : Inv t := by
  cases hm with
  | quiet heap allocated cbs held live settled => exact h.quiet heap allocated cbs held live settled
  | emit live window => exact h.emit live window
  | store hstage => exact h.store hstage

/-! ### The other steps -/

theorem window_congr {s t : Race Cb} (hstage : t.stage = s.stage) (hclk : t.clk = s.clk)
    (hnext : ∀ x, (t.pass.tm.heap x).next = (s.pass.tm.heap x).next) : t.window = s.window := by
  unfold window
  rw [hstage]
  split <;> simp_all

theorem Inv.addTimer (h : Inv s) (hidle : s.stage = .idle) (ms : ℕ)
    (cb : Option Cb) (recurring : Bool) (created inserted : ℕ) :
    Inv (s.addTimer ms cb recurring created inserted) := by
  have hallocated : (s.pass.tm.addTimer ms cb recurring created inserted).1.allocated =
      s.pass.tm.allocated + 1 := addTimer_allocated ms cb recurring created inserted
  have hheap : ∀ x < s.pass.tm.allocated,
      (s.addTimer ms cb recurring created inserted).pass.tm.heap x = s.pass.tm.heap x :=
    fun x hx => addTimer_heap (Nat.ne_of_lt hx) ms cb recurring created inserted
  have hgrow : ∀ x < s.pass.tm.allocated,
      x < (s.addTimer ms cb recurring created inserted).pass.tm.allocated :=
    fun x hx => lt_of_lt_of_eq (Nat.lt_succ_of_lt hx) hallocated.symm
  refine ⟨fun x hx => ?_, fun e he => hgrow _ (h.emitted e he),
    fun k hk => hgrow _ (h.target k hk), fun x hw => ?_, fun e he hr => ?_, fun k hk hwon => ?_⟩
  · rcases hx with ⟨b, hx⟩ | hx
    · rcases mem_insertToWheel hx with rfl | hx
      · exact lt_of_lt_of_eq (Nat.lt_succ_self _) hallocated.symm
      · exact hgrow x (h.held x (.inl ⟨b, hx⟩))
    · exact hgrow x (h.held x (.inr hx))
  · exact absurd hw (not_window_idle (s := s.addTimer ms cb recurring created inserted) hidle x)
  · rw [hheap _ (h.emitted e he)] at hr ⊢
    exact h.fired e he hr
  · have hsame := hheap _ (h.target k hk)
    exact (h.won k hk hwon).mono (congrArg Timer.cancelled hsame)
      (congrArg Timer.recurring hsame) fun f hf => hf

theorem Inv.start (h : Inv s) (hidle : s.stage = .idle) (clk : ℕ → ℕ) : Inv (s.start clk) := by
  have hemitted : (s.start clk).emitted = s.emitted := List.append_nil _
  refine ⟨fun x hx => h.held x (.inl (hx.resolve_right (by simp [Race.start, Stage.ids]))),
    fun e he => h.emitted e (hemitted ▸ he), h.target, ?_, fun e he hr => ?_, fun k hk hwon => ?_⟩
  · simp [Race.window, Race.start]
  · rcases h.fired e (hemitted ▸ he) hr with hup | ⟨l, hl⟩
    · exact .inl hup
    · rw [hidle] at hl
      cases hl
  · exact (h.won k hk hwon).mono rfl rfl fun f hf => hemitted ▸ hf

/-- A call that moves on without touching its timer. -/
theorem Inv.setCancel (h : Inv s) (k : ℕ) {c : Cancel}
    (hid : c.id < s.pass.tm.allocated) (hwon : c.Won → s.Stopped c.id) :
    Inv (s.setCancel k c) where
  held := h.held
  emitted := h.emitted
  target := forall_update (P := fun _ (c : Cancel) => c.id < s.pass.tm.allocated) h.target hid
  window := h.window
  fired := h.fired
  won := forall_update (P := fun _ (c : Cancel) => c.Won → s.Stopped c.id) h.won hwon

theorem Inv.call (h : Inv s) (hid : id < s.pass.tm.allocated) : Inv (s.call id) where
  held := h.held
  emitted := h.emitted
  target := forall_add (P := fun _ (c : Cancel) => c.id < s.pass.tm.allocated) h.target hid
  window := h.window
  fired := h.fired
  won := forall_add (P := fun _ (c : Cancel) => c.Won → s.Stopped c.id) h.won
    (by rintro (hpc | hpc) <;> cases hpc)

/-- The exchange found the flag down: outside the window the timer has not been emitted. -/
theorem Inv.stop (h : Inv s) (hout : s.window ≠ some id)
    (hdown : (s.pass.tm.heap id).cancelled = false) :
    let t := { s with
      pass.tm := s.pass.tm.setTimer id { s.pass.tm.heap id with cancelled := true } }
    Inv t ∧ t.Stopped id := by
  intro t
  have hself : t.pass.tm.heap id = { s.pass.tm.heap id with cancelled := true } :=
    setTimer_heap_self ..
  have hother : ∀ x, x ≠ id → t.pass.tm.heap x = s.pass.tm.heap x :=
    fun x hx => setTimer_heap_ne _ _ hx
  have hup : ∀ x, (s.pass.tm.heap x).cancelled = true → (t.pass.tm.heap x).cancelled = true := by
    intro x hx
    by_cases hxid : x = id
    · rw [hxid, hself]
    · rw [hother x hxid]
      exact hx
  have hrecurring : ∀ x, (t.pass.tm.heap x).recurring = (s.pass.tm.heap x).recurring := by
    intro x
    by_cases hxid : x = id
    · rw [hxid, hself]
    · rw [hother x hxid]
  have hnext : ∀ x, (t.pass.tm.heap x).next = (s.pass.tm.heap x).next := by
    intro x
    by_cases hxid : x = id
    · rw [hxid, hself]
    · rw [hother x hxid]
  have hwindow : t.window = s.window := window_congr rfl rfl hnext
  have hfresh : (s.pass.tm.heap id).recurring = false → ∀ f, (id, f) ∉ s.emitted := by
    intro hr f hf
    rcases h.fired _ hf hr with hup | ⟨l, hl⟩
    · rw [hdown] at hup
      cases hup
    · exact hout (window_emitted hl)
  refine ⟨⟨h.held, h.emitted, h.target, fun x hw => ?_, fun e he hr => ?_, fun k hk hwon => ?_⟩,
    by rw [hself], fun hr => hfresh ((hrecurring id).symm.trans hr)⟩
  · rw [hwindow] at hw
    have hx : x ≠ id := fun hx => hout (hx ▸ hw)
    rw [hother x hx]
    exact h.window x hw
  · exact (h.fired e he ((hrecurring _).symm.trans hr)).imp_left (hup _)
  · obtain ⟨hflag, hnone⟩ := h.won k hk hwon
    exact ⟨hup _ hflag, fun hr => hnone ((hrecurring _).symm.trans hr)⟩

theorem Inv.exchange (h : Inv s) {k : ℕ} (hk : k < s.count)
    (hout : s.window ≠ some (s.cancels k).id) : Inv (s.exchange k) := by
  have hid := h.target k hk
  unfold Race.exchange
  dsimp only
  split
  · exact h.setCancel k hid (by rintro (hpc | hpc) <;> cases hpc)
  · rename_i hdown
    obtain ⟨hinv, hstop⟩ := h.stop hout (Bool.not_eq_true _ ▸ hdown)
    exact hinv.setCancel k hid fun _ => hstop

theorem Inv.clear (h : Inv s) {k : ℕ} (hk : k < s.count)
    (hpc : (s.cancels k).pc = .exchanged) (hidle : s.stage = .idle) : Inv (s.clear k) := by
  have hstop := h.won k hk (.inl hpc)
  have hheap : ∀ x, ((s.clear k).pass.tm.heap x).cancelled = (s.pass.tm.heap x).cancelled ∧
      ((s.clear k).pass.tm.heap x).recurring = (s.pass.tm.heap x).recurring := by
    intro x
    show ((s.pass.tm.setTimer _ _).heap x).cancelled = _ ∧
      ((s.pass.tm.setTimer _ _).heap x).recurring = _
    by_cases hx : x = (s.cancels k).id
    · rw [hx, setTimer_heap_self]
      exact ⟨rfl, rfl⟩
    · rw [setTimer_heap_ne _ _ hx]
      exact ⟨rfl, rfl⟩
  have hkeep : ∀ x, s.Stopped x → (s.clear k).Stopped x :=
    fun x hx => hx.mono (hheap x).1 (hheap x).2 fun f hf => hf
  refine ⟨h.held, h.emitted,
    forall_update (P := fun _ (c : Cancel) => c.id < s.pass.tm.allocated) h.target (h.target k hk),
    fun x hw => ?_, fun e he hr => ?_,
    forall_update (P := fun _ (c : Cancel) => c.Won → (s.clear k).Stopped c.id)
      (fun j hj hwon => hkeep _ (h.won j hj hwon)) fun _ => hkeep _ hstop⟩
  · exact absurd hw (not_window_idle (s := s.clear k) hidle x)
  · rw [(hheap e.1).1]
    exact h.fired e he ((hheap e.1).2.symm.trans hr)

theorem reach_inv (h : (race Cb).ReachVia Outside s) : Inv s := by
  refine h.invariant (I := Inv) (fun s hinit => ?_) (fun s a hs he hok => ?_)
  · obtain ⟨⟨now, hpass⟩, hidle, hpast, hcount⟩ := hinit
    have hemitted : s.emitted = [] := by rw [Race.emitted, hpast, hpass, List.nil_append]
    refine ⟨fun x hx => ?_, fun e he => ?_, fun k hk => ?_, fun id hw => ?_, fun e he => ?_,
      fun k hk => ?_⟩
    · rcases hx with ⟨b, hx⟩ | hx
      · rw [hpass] at hx
        cases hx
      · rw [hidle] at hx
        cases hx
    · rw [hemitted] at he
      cases he
    · omega
    · exact absurd hw (not_window_idle hidle id)
    · rw [hemitted] at he
      cases he
    · omega
  · cases a with
    | addTimer ms cb recurring created inserted =>
      exact hs.addTimer he ms cb recurring created inserted
    | start clk => exact hs.start he clk
    | advance => exact hs.moved (advance_moved s he)
    | call id => exact hs.call he
    | exchange k => exact hs.exchange he.1 hok
    | clear k => exact hs.clear he.1 he.2.1 he.2.2

/-! ### A cancellation that returned true -/

theorem advance_recurring (s : Race Cb) (hs : s.stage ≠ .idle) (x : ℕ) :
    (s.advance.pass.tm.heap x).recurring = (s.pass.tm.heap x).recurring ∧
      s.advance.pass.tm.allocated = s.pass.tm.allocated ∧ s.advance.cancels = s.cancels ∧
      s.advance.count = s.count := by
  have hm := advance_moved s hs
  generalize s.advance = t at hm
  cases hm with
  | quiet heap allocated => exact ⟨by rw [goto, heap], allocated, rfl, rfl⟩
  | emit => exact ⟨emit_recurring .., by simp only [goto, emit_tm, setTimer_allocated], rfl, rfl⟩
  | @store id l hstage =>
    refine ⟨?_, storeFlag_allocated .., rfl, rfl⟩
    show ((s.pass.storeFlag s.clk id).tm.heap x).recurring = _
    rw [storeFlag_heap]
    apply setTimer_recurring
    rfl

end Race

open Race

/-- The call `c` has number `k`, and its timer is recurring or not for good. -/
def Settled (k : ℕ) (c : Cancel) (recurring : Bool) (s : Race Cb) : Prop :=
  k < s.count ∧ s.cancels k = c ∧ (s.pass.tm.heap c.id).recurring = recurring ∧
    c.id < s.pass.tm.allocated

theorem Settled.next {s : Race Cb} {k : ℕ} {c : Cancel} {recurring : Bool} {a : RaceStep Cb}
    (h : Settled k c recurring s) (hc : c.pc = .returned true) (he : (race Cb).enabled s a) :
    Settled k c recurring ((race Cb).next s a) := by
  obtain ⟨hk, hcall, hrecurring, hid⟩ := h
  -- a call that has returned takes no further step
  have hother : ∀ {j}, (s.cancels j).pc ≠ .returned true → k ≠ j := by
    rintro j hj rfl
    exact hj (hcall ▸ hc)
  cases a with
  | addTimer ms cb r created inserted =>
    refine ⟨hk, hcall, ?_, ?_⟩
    · show ((s.pass.tm.addTimer ms cb r created inserted).1.heap c.id).recurring = recurring
      rw [addTimer_heap (Nat.ne_of_lt hid)]
      exact hrecurring
    · show c.id < (s.pass.tm.addTimer ms cb r created inserted).1.allocated
      rw [addTimer_allocated]
      exact Nat.lt_succ_of_lt hid
  | start clk => exact ⟨hk, hcall, hrecurring, hid⟩
  | advance =>
    obtain ⟨hr, hallocated, hcancels, hcount⟩ := advance_recurring s he c.id
    exact ⟨lt_of_lt_of_eq hk hcount.symm, (congrFun hcancels k).trans hcall, hr.trans hrecurring,
      lt_of_lt_of_eq hid hallocated.symm⟩
  | call id =>
    refine ⟨Nat.lt_succ_of_lt hk, ?_, hrecurring, hid⟩
    exact (Function.update_of_ne (Nat.ne_of_lt hk) _ _).trans hcall
  | exchange j =>
    have hj : k ≠ j := hother (by rw [he.2]; simp)
    show Settled k c recurring (s.exchange j)
    unfold exchange
    dsimp only
    split
    · exact ⟨hk, (Function.update_of_ne hj _ _).trans hcall, hrecurring, hid⟩
    · refine ⟨hk, (Function.update_of_ne hj _ _).trans hcall, ?_, hid⟩
      refine Eq.trans (setTimer_recurring s.pass.tm ?_ c.id) hrecurring
      rfl
  | clear j =>
    have hj : k ≠ j := hother (by rw [he.2.1]; simp)
    refine ⟨hk, (Function.update_of_ne hj _ _).trans hcall, ?_, hid⟩
    refine Eq.trans (setTimer_recurring s.pass.tm ?_ c.id) hrecurring
    rfl

/-- **Cancel against fire.**  If every exchange falls outside the window, a `cancel` that has
returned true stays in force: in every later state the flag is up and no pass is about to write
it, so the timer is not re-armed, and the callback of a one-shot timer has been emitted by no pass
of the whole run. -/
theorem cancel_final {s t : Race Cb} (h : (race Cb).ReachVia Outside s) {k : ℕ}
    (hk : k < s.count) (hret : (s.cancels k).pc = .returned true)
    (hl : (race Cb).Later Outside s t) :
    (t.pass.tm.heap (s.cancels k).id).cancelled = true ∧
      t.window ≠ some (s.cancels k).id ∧
      ((s.pass.tm.heap (s.cancels k).id).recurring = false →
        ∀ f, ((s.cancels k).id, f) ∉ t.emitted) := by
  have hs : Settled k (s.cancels k) (s.pass.tm.heap (s.cancels k).id).recurring s :=
    ⟨hk, rfl, rfl, (reach_inv h).target k hk⟩
  obtain ⟨hk', hcall, hrecurring, -⟩ := hl.invariant
    (I := Settled k (s.cancels k) (s.pass.tm.heap (s.cancels k).id).recurring)
    (fun _ _ hi he _ => hi.next hret he) hs
  have hinv := reach_inv (h.later hl)
  have hstop := hinv.won k hk' (hcall ▸ .inr hret)
  rw [hcall] at hstop
  exact ⟨hstop.1, hinv.stopped_not_window hstop, fun hr => hstop.2 (hrecurring.trans hr)⟩

/-- A manager constructed at 1000, with no call yet. -/
def Race.fresh : Race Unit :=
  ⟨⟨create 1000, 0, [], noTimer⟩, fun _ => 1000, .idle, [], fun _ => ⟨0, .called⟩, 0⟩

theorem Race.fresh_reach {ok : Race Unit → RaceStep Unit → Prop} :
    (race Unit).ReachVia ok Race.fresh := .start ⟨⟨1000, rfl⟩, rfl, rfl, rfl⟩

/-- A timer due at 1024 is cancelled, and a pass at 1024 then finds its flag up. -/
theorem cancel_final_one_shot :
    (0, ()) ∉ ((race Unit).run ((race Unit).run Race.fresh
      [.addTimer 24 (some ()) false 1000 1000, .call 0, .exchange 0, .clear 0])
      [.start fun _ => 1024, .advance, .advance]).emitted :=
  (cancel_final (k := 0) (Machine.reachVia_run Race.fresh_reach (by decide +kernel))
    (by decide +kernel) (by decide +kernel) (Machine.later_run (by decide +kernel))).2.2
    (by decide +kernel) ()

/-- The pass loads the flag of the timer due at 1024, `cancel` exchanges it, the pass goes on to
its end after `n` more steps, and `cancel` returns. -/
def lateCancel (recurring : Bool) (n : ℕ) : List (RaceStep Unit) :=
  [.addTimer 24 (some ()) recurring 1000 1000, .call 0, .start fun _ => 1024, .advance, .advance,
    .exchange 0] ++ List.replicate n .advance ++ [.clear 0]

/-- In the window `cancel` returns true for a one-shot timer whose callback is emitted, and for a
recurring timer that the pass re-arms, with the flag down again. -/
theorem cancel_in_window :
    (∃ s : Race Unit, (race Unit).Reach s ∧ 0 < s.count ∧
      (s.cancels 0).pc = .returned true ∧ (s.pass.tm.heap (s.cancels 0).id).recurring = false ∧
      ((s.cancels 0).id, ()) ∈ s.emitted) ∧
    ∃ s : Race Unit, (race Unit).Reach s ∧ 0 < s.count ∧
      (s.cancels 0).pc = .returned true ∧ (s.pass.tm.heap (s.cancels 0).id).recurring = true ∧
      (s.pass.tm.heap (s.cancels 0).id).cancelled = false ∧
      (s.cancels 0).id ∈ s.pass.tm.store (.wheel0 24) :=
  ⟨⟨(race Unit).run Race.fresh (lateCancel false 453),
      Machine.reachVia_run Race.fresh_reach (by decide +kernel), by decide +kernel⟩,
    (race Unit).run Race.fresh (lateCancel true 456),
      Machine.reachVia_run Race.fresh_reach (by decide +kernel), by decide +kernel⟩

end PulsarRuntime.Timers
