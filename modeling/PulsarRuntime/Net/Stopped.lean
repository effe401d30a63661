import Mathlib.Tactic.Basic
import PulsarRuntime.Net.Server

/-!
# What `Server::Stop` closes

In every run each accepted connection is closed, or known to somebody who will close it: it is in
the hand of the accept loop, or registered, or on the list of a `Stop` call (`Tracked`).  The first
of these is the gap.  A connection that the loop has in hand when `Stop` takes the registered ones
is registered too late, and so is one that the loop accepts before `Stop` has closed the listener.
Besides, a `Stop` that finds `running` cleared returns at once, whether or not the one that has
cleared it is done.
-/

namespace PulsarRuntime.Net.Server

/-- `Stop` takes the connections while the loop has none in hand, the loop accepts none afterwards,
and `Stop` is not called while another one is at work. -/
def Undisturbed (s : State) : Action → Prop
  | .take _ => s.loop.inHand = none
  | .accept .client => s.snapshot = false
  | .stop => s.running = true ∨ ∀ j < s.stopCount, s.stops j = .returned
  | _ => True

instance (s : State) (a : Action) : Decidable (Undisturbed s a) := by
  induction a using Action.casesOn with
  | take j => dsimp only [Undisturbed]; infer_instance
  | accept r => rcases r <;> (dsimp only [Undisturbed]; infer_instance)
  | stop => dsimp only [Undisturbed]; infer_instance
  | _ => exact isTrue trivial

theorem State.setStage_closed (s : State) (c : ℕ) (st : Stage) (d : ℕ) :
    ((s.setStage c st).conns d).closed = (s.conns d).closed := by
  simp only [setStage, setConn]
  by_cases hd : d = c
  · subst hd
    rw [Function.update_self]
  · rw [Function.update_of_ne hd]

/-! ### Nobody forgets a connection -/

/-- Somebody has connection `c` to close. -/
def Known (s : State) (c : ℕ) : Prop :=
  s.loop.inHand = some c ∨ c ∈ s.connections ∨ ∃ j < s.stopCount, c ∈ (s.stops j).conns

structure Tracked (s : State) : Prop where
  expired : ∀ c < s.connCount, (s.conns c).expired = true → (s.conns c).closed = true
  known : ∀ c < s.connCount, (s.conns c).closed = true ∨ Known s c

namespace Tracked

variable {s s' : State}

section

variable (h : Tracked s)
include h

/-- A step after which connections are closed that were, and known those that were known. -/
theorem step (hcount : s'.connCount = s.connCount)
    (hclosed : ∀ c < s.connCount, (s.conns c).closed = true → (s'.conns c).closed = true)
    (hexpired : ∀ c < s.connCount, (s'.conns c).expired = true →
      (s.conns c).expired = true ∨ (s'.conns c).closed = true)
    (hknown : ∀ c < s.connCount, Known s c → (s'.conns c).closed = true ∨ Known s' c) :
    Tracked s' := by
  refine ⟨fun c hc hx => ?_, fun c hc => ?_⟩
  · rw [hcount] at hc
    rcases hexpired c hc hx with hold | hnew
    · exact hclosed c hc (h.expired c hc hold)
    · exact hnew
  · rw [hcount] at hc
    rcases h.known c hc with hold | hk
    · exact .inl (hclosed c hc hold)
    · exact hknown c hc hk

/-- Connection `d` becomes `x`, which is closed if it was, and if it is destroyed. -/
theorem conn {d : ℕ} {x : Conn} (hconns : s'.conns = Function.update s.conns d x)
    (hcount : s'.connCount = s.connCount)
    (hclosed : (s.conns d).closed = true → x.closed = true)
    (hexpired : x.expired = true → (s.conns d).expired = true ∨ x.closed = true)
    (hknown : ∀ c < s.connCount, Known s c → (s'.conns c).closed = true ∨ Known s' c) :
    Tracked s' := by
  refine h.step hcount (fun c _ hold => ?_) (fun c _ hx => ?_) hknown
  · rw [hconns]
    by_cases hcd : c = d
    · subst hcd
      rw [Function.update_self]
      exact hclosed hold
    · rw [Function.update_of_ne hcd]
      exact hold
  · rw [hconns] at hx ⊢
    by_cases hcd : c = d
    · subst hcd
      rw [Function.update_self] at hx ⊢
      exact hexpired hx
    · rw [Function.update_of_ne hcd] at hx
      exact .inl hx

theorem close (c : ℕ) : Tracked (s.close c) :=
  h.conn rfl rfl (fun _ => rfl) (fun _ => .inr rfl) fun _ _ hk => .inr hk

theorem setStage (c : ℕ) (st : Stage) : Tracked (s.setStage c st) :=
  h.conn rfl rfl id .inl fun _ _ hk => .inr hk

/-- A step that closes nothing. -/
theorem frame (hconns : s'.conns = s.conns) (hcount : s'.connCount = s.connCount)
    (hknown : ∀ c < s.connCount, Known s c → (s.conns c).closed = true ∨ Known s' c) :
    Tracked s' := by
  refine h.step hcount (fun c _ hold => ?_) (fun c _ hx => ?_) fun c hc hk => ?_
  · rw [hconns]
    exact hold
  · rw [hconns] at hx
    exact .inl hx
  · rw [hconns]
    exact hknown c hc hk

/-- A step of the loop that has nothing in hand before or after. -/
theorem idle (hhand : s.loop.inHand = none) (pc : LoopPc) : Tracked { s with loop := pc } := by
  refine h.frame rfl rfl fun c _ hk => ?_
  rcases hk with hk | hk
  · rw [hhand] at hk
    cases hk
  · exact .inr (.inr hk)

theorem accept (hpc : s.loop = .checked) (r : AcceptResult) : Tracked (s.accept r) := by
  have hhand : s.loop.inHand = none := by
    rw [hpc]
    rfl
  simp only [State.accept]
  split
  · exact h.idle hhand _
  · cases r with
    | client =>
      refine ⟨fun c hc hx => ?_, fun c hc => ?_⟩
      · by_cases hcn : c = s.connCount
        · subst hcn
          dsimp only at hx
          rw [Function.update_self] at hx
          cases hx
        · dsimp only at hx ⊢
          rw [Function.update_of_ne hcn] at hx ⊢
          exact h.expired c (by dsimp only at hc; omega) hx
      · by_cases hcn : c = s.connCount
        · subst hcn
          exact .inr (.inl rfl)
        · dsimp only
          rw [Function.update_of_ne hcn]
          rcases h.known c (by dsimp only at hc; omega) with hold | hk
          · exact .inl hold
          · rcases hk with hk | hk
            · rw [hhand] at hk
              cases hk
            · exact .inr (.inr hk)
    | interrupted => exact h.idle hhand _
    | again => exact h.idle hhand _
    | failed => exact h.idle hhand _

theorem exchange {c : ℕ} {count : ℤ} (hpc : s.loop = .counting c count)
    (spurious : Bool) : Tracked (s.exchange c count spurious) := by
  have hhand : s.loop.inHand = some c := by
    rw [hpc]
    rfl
  have hsame : ∀ {s' : State} {d : ℕ}, s'.loop.inHand = some c → s'.connections = s.connections →
      s'.stops = s.stops → s'.stopCount = s.stopCount → Known s d → Known s' d := by
    intro s' d hloop hconnections hstops hcount hk
    rw [Known, hhand] at hk
    rw [Known, hloop, hconnections, hstops, hcount]
    exact hk
  rw [State.exchange]
  split
  · split
    · exact h.conn rfl rfl id .inl fun d _ hk => .inr (hsame rfl rfl rfl rfl hk)
    · exact h.frame rfl rfl fun d _ hk => .inr (hsame rfl rfl rfl rfl hk)
  · refine ((h.close c).setStage c .refused).frame rfl rfl fun d _ hk => ?_
    rcases hk with hk | hk
    · have hd : some c = some d := hhand.symm.trans hk
      cases hd
      left
      simp only [State.setStage, State.close, State.setConn, Function.update_self]
    · exact .inr (.inr hk)

theorem register {c : ℕ} (hpc : s.loop = .admitted c) : Tracked (s.register c) := by
  have hstage : Tracked (s.setStage c .registered) :=
    h.conn rfl rfl id .inl fun d _ hk => .inr hk
  refine hstage.frame rfl rfl fun d hd hk => ?_
  rcases hk with hk | hk | hk
  · have hc : some c = some d := by
      rw [← hk]
      show some c = s.loop.inHand
      rw [hpc]
      rfl
    cases hc
    exact .inr (.inr (.inl (List.mem_append_right _ (List.mem_singleton.mpr rfl))))
  · cases hx : (s.conns d).expired with
    | true =>
      left
      rw [State.setStage_closed]
      exact h.expired d hd hx
    | false =>
      right
      right
      left
      apply List.mem_append_left
      apply List.mem_filter.mpr
      exact ⟨hk, by simp [hx]⟩
  · exact .inr (.inr (.inr hk))

/-- `Stop` call `j` goes on: what is no longer on its list is closed. -/
theorem setStop {j : ℕ} (hj : j < s.stopCount) {pc : StopPc}
    (hconns : s'.conns = s.conns) (hcount : s'.connCount = s.connCount)
    (hloop : s'.loop = s.loop) (hstops : s'.stops = Function.update s.stops j pc)
    (hstopCount : s'.stopCount = s.stopCount)
    (hregistered : ∀ c < s.connCount, c ∈ s.connections →
      (s.conns c).closed = true ∨ c ∈ s'.connections ∨ c ∈ pc.conns)
    (hlist : ∀ c ∈ (s.stops j).conns, (s.conns c).closed = true ∨ c ∈ pc.conns) : Tracked s' := by
  have hown : ∀ {c : ℕ}, c ∈ pc.conns → Known s' c := by
    intro c hc
    refine .inr (.inr ⟨j, Nat.lt_of_lt_of_eq hj hstopCount.symm, ?_⟩)
    rw [hstops, Function.update_self]
    exact hc
  refine h.frame hconns hcount fun c hc hk => ?_
  rcases hk with hk | hk | ⟨i, hi, hk⟩
  · exact .inr (.inl ((congrArg LoopPc.inHand hloop).trans hk))
  · rcases hregistered c hc hk with hclosed | hstill | hmem
    · exact .inl hclosed
    · exact .inr (.inr (.inl hstill))
    · exact .inr (hown hmem)
  · by_cases hij : i = j
    · subst hij
      exact (hlist c hk).imp_right hown
    · refine .inr (.inr (.inr ⟨i, Nat.lt_of_lt_of_eq hi hstopCount.symm, ?_⟩))
      rw [hstops, Function.update_of_ne hij]
      exact hk

theorem take {j : ℕ} (hj : j < s.stopCount) (hpc : s.stops j = .exchanged) :
    Tracked (s.take j) := by
  refine h.setStop hj rfl rfl rfl rfl rfl (fun c hc hmem => ?_) fun c hmem => ?_
  · cases hx : (s.conns c).expired with
    | true => exact .inl (h.expired c hc hx)
    | false => exact .inr (.inr (List.mem_filter.mpr ⟨hmem, by simp [hx]⟩))
  · rw [hpc] at hmem
    cases hmem

theorem closeNext {j c : ℕ} {rest : List ℕ} (hj : j < s.stopCount)
    (hpc : s.stops j = .closing (c :: rest)) : Tracked (s.closeNext j c rest) := by
  have hclosed : Tracked (s.close c) :=
    h.conn rfl rfl (fun _ => rfl) (fun _ => .inr rfl) fun d _ hk => .inr hk
  refine hclosed.setStop hj rfl rfl rfl rfl rfl (fun d _ hmem => .inr (.inl hmem)) fun d hmem => ?_
  change d ∈ (s.stops j).conns at hmem
  rw [hpc] at hmem
  rcases List.mem_cons.mp hmem with rfl | hrest
  · left
    simp only [State.close, State.setConn, Function.update_self]
  · exact .inr hrest

theorem stop : Tracked s.stop := by
  refine h.frame rfl rfl fun c _ hk => .inr ?_
  rcases hk with hk | hk | ⟨i, hi, hk⟩
  · exact .inl hk
  · exact .inr (.inl hk)
  · refine .inr (.inr ⟨i, Nat.lt_succ_of_lt hi, ?_⟩)
    show c ∈ (Function.update s.stops s.stopCount _ i).conns
    rw [Function.update_of_ne (by omega)]
    exact hk

theorem next {a : Action} (he : server.enabled s a) : Tracked (server.next s a) := by
  cases a with
  | check => exact h.idle (by rw [show s.loop = .top from he]; rfl) _
  | accept r => exact h.accept he r
  | wake ok => exact h.idle (by rw [show s.loop = .waiting from he]; rfl) _
  | load c =>
    refine h.frame rfl rfl fun d _ hk => ?_
    rw [Known, show s.loop = .accepted c from he] at hk
    exact .inr hk
  | exchange c count spurious => exact h.exchange he spurious
  | register c => exact h.register he
  | schedule c =>
    have hhand : (s.setStage c .scheduled).loop.inHand = none := by
      rw [show (s.setStage c .scheduled).loop = .registered c from he]
      rfl
    exact (h.setStage c .scheduled).idle hhand _
  | start c => exact h.conn rfl rfl id .inl fun d _ hk => .inr hk
  | drop c => exact h.setStage c _
  | exit c e => cases e <;> exact h.setStage c _
  | closeTask c => exact (h.close c).setStage c _
  | release c => exact h.conn rfl rfl id .inl fun d _ hk => .inr hk
  | close c => exact h.close c
  | destroy c => exact h.conn rfl rfl (fun _ => rfl) (fun _ => .inr rfl) fun d _ hk => .inr hk
  | stop => exact h.stop
  | take j => exact h.take he.1 he.2
  | closeListener j conns =>
    refine h.setStop he.1 rfl rfl rfl rfl rfl (fun c _ hmem => .inr (.inl hmem)) fun c hmem => ?_
    rw [he.2] at hmem
    exact .inr hmem
  | closeNext j c rest => exact h.closeNext he.1 he.2
  | returnStop j =>
    refine h.setStop he.1 rfl rfl rfl rfl rfl (fun c _ hmem => .inr (.inl hmem)) fun c hmem => ?_
    rw [he.2] at hmem
    cases hmem

end

theorem of_init (h : server.init s) : Tracked s := by
  have hcount : s.connCount = 0 := h.2.2.2.2.2.1
  refine ⟨fun c hc => ?_, fun c hc => ?_⟩
  · rw [hcount] at hc
    exact absurd hc (Nat.not_lt_zero c)
  · rw [hcount] at hc
    exact absurd hc (Nat.not_lt_zero c)

end Tracked

/-! ### The `Stop` calls -/

/-- The first `Stop` call does the work, the others return at once; after its critical section the
loop has nothing in hand and nothing is registered. -/
structure Stopping (s : State) : Prop where
  taken : s.snapshot = true → s.loop.inHand = none ∧ s.connections = []
  running : s.running = true ↔ s.stopCount = 0
  others : ∀ j < s.stopCount, 0 < j → s.stops j = .returned
  first : 0 < s.stopCount → s.stops 0 = .exchanged ∨ s.snapshot = true
  second : 1 < s.stopCount → s.stops 0 = .returned

namespace Stopping

variable {s s' : State}

/-- A step that `Stop` has no part in. -/
theorem frame (h : Stopping s) (hrunning : s'.running = s.running) (hstops : s'.stops = s.stops)
    (hcount : s'.stopCount = s.stopCount) (hsnapshot : s'.snapshot = s.snapshot)
    (htaken : s.snapshot = true → s'.loop.inHand = none ∧ s'.connections = []) : Stopping s' := by
  refine ⟨?_, ?_, ?_, ?_, ?_⟩
  · rw [hsnapshot]
    exact htaken
  · rw [hrunning, hcount]
    exact h.running
  · rw [hstops, hcount]
    exact h.others
  · rw [hstops, hcount, hsnapshot]
    exact h.first
  · rw [hstops, hcount]
    exact h.second

/-- The loop goes on without anything in hand. -/
theorem idle (h : Stopping s) {pc : LoopPc} (hpc : pc.inHand = none) :
    Stopping { s with loop := pc } :=
  h.frame rfl rfl rfl rfl fun hs => ⟨hpc, (h.taken hs).2⟩

/-- The loop has a connection in hand, so no `Stop` has been through its critical section. -/
theorem inHand (h : Stopping s) {c : ℕ} (hhand : s.loop.inHand = some c) : s.snapshot ≠ true := by
  intro hs
  have hnone := (h.taken hs).1
  rw [hhand] at hnone
  cases hnone

variable {j : ℕ}

section

variable (h : Stopping s)
include h

/-- The call that is at work is the first. -/
theorem eq_zero (hj : j < s.stopCount) (hpc : s.stops j ≠ .returned) : j = 0 := by
  by_contra hne
  exact hpc (h.others j hj (Nat.pos_of_ne_zero hne))

/-- A call that is at work and not at its beginning has been through its critical section. -/
theorem snapshot (hj : j < s.stopCount) (hpc : s.stops j ≠ .returned)
    (hbegin : s.stops j ≠ .exchanged) : s.snapshot = true := by
  have hzero := h.eq_zero hj hpc
  subst hzero
  exact (h.first hj).resolve_left hbegin

/-- The first call goes on behind its critical section. -/
theorem setStop (hj : j < s.stopCount) (hold : s.stops j ≠ .returned)
    {pc : StopPc} (hrunning : s'.running = s.running)
    (hstops : s'.stops = Function.update s.stops j pc) (hcount : s'.stopCount = s.stopCount)
    (hsnapshot : s'.snapshot = true) (hloop : s'.loop.inHand = none)
    (hconnections : s'.connections = []) : Stopping s' := by
  have hzero := h.eq_zero hj hold
  subst hzero
  refine ⟨fun _ => ⟨hloop, hconnections⟩, ?_, fun i hi hpos => ?_, fun _ => .inr hsnapshot,
    fun hsecond => ?_⟩
  · rw [hrunning, hcount]
    exact h.running
  · rw [hstops, Function.update_of_ne (by omega)]
    exact h.others i (Nat.lt_of_lt_of_eq hi hcount) hpos
  · rw [hcount] at hsecond
    exact absurd (h.second hsecond) hold

/-- It goes on without a change of what it has taken. -/
theorem proceed (hj : j < s.stopCount) (hold : s.stops j ≠ .returned)
    (hbegin : s.stops j ≠ .exchanged) {pc : StopPc} (hrunning : s'.running = s.running)
    (hstops : s'.stops = Function.update s.stops j pc) (hcount : s'.stopCount = s.stopCount)
    (hsnapshot : s'.snapshot = s.snapshot) (hloop : s'.loop = s.loop)
    (hconnections : s'.connections = s.connections) : Stopping s' := by
  have htrue := h.snapshot hj hold hbegin
  obtain ⟨hhand, hempty⟩ := h.taken htrue
  apply h.setStop hj hold hrunning hstops hcount (hsnapshot.trans htrue)
  · rw [hloop]
    exact hhand
  · exact hconnections.trans hempty

theorem stop (hok : Undisturbed s .stop) : Stopping s.stop := by
  have hother : ∀ j < s.stopCount, s.stop.stops j = s.stops j := by
    intro j hj
    exact Function.update_of_ne (by omega) ..
  have hnew : s.stop.stops s.stopCount = if s.running then .exchanged else .returned :=
    Function.update_self ..
  refine ⟨h.taken, iff_of_false nofun (Nat.succ_ne_zero _), fun j hj hpos => ?_, fun _ => ?_,
    fun hsecond => ?_⟩
  · rcases Nat.lt_succ_iff_lt_or_eq.mp hj with hlt | rfl
    · rw [hother j hlt]
      exact h.others j hlt hpos
    · rw [hnew, if_neg fun hrunning => by have := h.running.mp hrunning; omega]
  · by_cases hzero : s.stopCount = 0
    · rw [hzero, if_pos (h.running.mpr hzero)] at hnew
      exact .inl hnew
    · rw [hother 0 (Nat.pos_of_ne_zero hzero)]
      exact h.first (Nat.pos_of_ne_zero hzero)
  · have hpos : 0 < s.stopCount := Nat.lt_of_succ_lt_succ hsecond
    rw [hother 0 hpos]
    rcases hok with hrunning | hall
    · have hzero := h.running.mp hrunning
      omega
    · exact hall 0 hpos

theorem next {a : Action} (he : server.enabled s a) (hok : Undisturbed s a) :
    Stopping (server.next s a) := by
  have hhand : ∀ {c : ℕ} {pc : LoopPc}, s.loop = pc → pc.inHand = some c → s.snapshot ≠ true := by
    intro c pc hpc hc
    apply h.inHand
    rw [hpc]
    exact hc
  cases a with
  | check =>
    apply h.idle
    split <;> rfl
  | accept r =>
    simp only [server, State.accept]
    split
    · exact h.idle rfl
    · cases r with
      | client =>
        refine h.frame rfl rfl rfl rfl fun hs => ?_
        exact absurd (hs.symm.trans hok) (by simp)
      | interrupted => exact h.idle rfl
      | again => exact h.idle rfl
      | failed => exact h.idle rfl
  | wake ok =>
    apply h.idle
    cases ok <;> rfl
  | load c => exact h.frame rfl rfl rfl rfl fun hs => absurd hs (hhand he rfl)
  | exchange c count spurious =>
    have hs := hhand he rfl
    simp only [server, State.exchange]
    split
    · split <;> exact h.frame rfl rfl rfl rfl fun hsnap => absurd hsnap hs
    · exact h.frame rfl rfl rfl rfl fun hsnap => absurd hsnap hs
  | register c => exact h.frame rfl rfl rfl rfl fun hs => absurd hs (hhand he rfl)
  | schedule c => exact h.frame rfl rfl rfl rfl fun hs => ⟨rfl, (h.taken hs).2⟩
  | exit c e => cases e <;> exact h.frame rfl rfl rfl rfl h.taken
  | stop => exact h.stop hok
  | take j =>
    exact h.setStop he.1 (by rw [he.2]; exact nofun) rfl rfl rfl rfl hok rfl
  | closeListener j conns =>
    obtain ⟨hj, hpc⟩ := he
    exact h.proceed hj (by simp [hpc]) (by simp [hpc]) rfl rfl rfl rfl rfl rfl
  | closeNext j c rest =>
    obtain ⟨hj, hpc⟩ := he
    exact h.proceed hj (by simp [hpc]) (by simp [hpc]) rfl rfl rfl rfl rfl rfl
  | returnStop j =>
    obtain ⟨hj, hpc⟩ := he
    exact h.proceed hj (by simp [hpc]) (by simp [hpc]) rfl rfl rfl rfl rfl rfl
  | _ => exact h.frame rfl rfl rfl rfl h.taken

end

theorem of_init (h : server.init s) : Stopping s := by
  obtain ⟨hrunning, -, -, -, -, -, hcount, hsnapshot⟩ := h
  refine ⟨fun hs => ?_, iff_of_true hrunning hcount, fun j hj => ?_, fun hpos => ?_, fun hpos => ?_⟩
  · exact absurd (hs.symm.trans hsnapshot) (by simp)
  · omega
  · omega
  · omega

/-- A call has returned, so every call has. -/
theorem all_returned (h : Stopping s) (hj : j < s.stopCount) (hpc : s.stops j = .returned) :
    ∀ i < s.stopCount, s.stops i = .returned := by
  intro i hi
  by_cases hi0 : i = 0
  · by_cases hj0 : j = 0
    · rw [hi0, ← hj0]
      exact hpc
    · rw [hi0]
      exact h.second (by omega)
  · exact h.others i hi (Nat.pos_of_ne_zero hi0)

/-- A call that has returned has left nothing to anybody. -/
theorem not_known (h : Stopping s) (hj : j < s.stopCount) (hpc : s.stops j = .returned)
    (c : ℕ) : ¬Known s c := by
  have hall := h.all_returned hj hpc
  have hsnapshot : s.snapshot = true := by
    have hpos : 0 < s.stopCount := Nat.zero_lt_of_lt hj
    apply (h.first hpos).resolve_left
    rw [hall 0 hpos]
    exact nofun
  obtain ⟨hloop, hconnections⟩ := h.taken hsnapshot
  rintro (hk | hk | ⟨i, hi, hk⟩)
  · rw [hloop] at hk
    cases hk
  · rw [hconnections] at hk
    cases hk
  · rw [hall i hi] at hk
    cases hk

end Stopping

/-! ### Runs -/

theorem tracked_stopping {s : State} (h : server.ReachVia Undisturbed s) : Tracked s ∧ Stopping s :=
  h.invariant (I := fun s => Tracked s ∧ Stopping s)
    (fun _ hinit => ⟨.of_init hinit, .of_init hinit⟩)
    fun _ _ hi he hok => ⟨hi.1.next he, hi.2.next he hok⟩

theorem closed_of_returned {s : State} (h : server.ReachVia Undisturbed s) {j : ℕ}
    (hj : j < s.stopCount) (hpc : s.stops j = .returned) :
    ∀ c < s.connCount, (s.conns c).closed = true := by
  obtain ⟨htracked, hstopping⟩ := tracked_stopping h
  intro c hc
  exact (htracked.known c hc).resolve_right (hstopping.not_known hj hpc c)

/-- A call that has returned is not moved any more. -/
theorem returned_next {s : State} {j : ℕ} (h : j < s.stopCount ∧ s.stops j = .returned)
    {a : Action} (he : server.enabled s a) :
    j < (server.next s a).stopCount ∧ (server.next s a).stops j = .returned := by
  -- a call that moves is another one
  have hmoves : ∀ {i : ℕ} {pc pc' : StopPc}, s.stops i = pc → pc ≠ .returned →
      Function.update s.stops i pc' j = .returned := by
    intro i pc pc' hpc hne
    rw [Function.update_of_ne, h.2]
    rintro rfl
    exact hne (hpc.symm.trans h.2)
  cases a with
  | accept r =>
    simp only [server, State.accept]
    split
    · exact h
    · cases r <;> exact h
  | exchange c count spurious =>
    simp only [server, State.exchange]
    split
    · split <;> exact h
    · exact h
  | exit c e => cases e <;> exact h
  | stop => exact ⟨Nat.lt_succ_of_lt h.1, (Function.update_of_ne (Nat.ne_of_lt h.1) ..).trans h.2⟩
  | take i => exact ⟨h.1, hmoves he.2 nofun⟩
  | closeListener i conns => exact ⟨h.1, hmoves he.2 nofun⟩
  | closeNext i c rest => exact ⟨h.1, hmoves he.2 nofun⟩
  | returnStop i => exact ⟨h.1, hmoves he.2 nofun⟩
  | _ => exact h

/-- **What `Stop` closes.**  If `Stop` takes the connections while the loop has none in hand, the
loop accepts none afterwards and no `Stop` is called during another, then once a call has returned
every accepted connection is closed, and every handler that is started later is started on a closed
one. -/
theorem stop_closes_everything {s : State} (h : server.ReachVia Undisturbed s) {j : ℕ}
    (hj : j < s.stopCount) (hpc : s.stops j = .returned) :
    (∀ c < s.connCount, (s.conns c).closed = true) ∧
    ∀ t, server.Later Undisturbed s t → ∀ c, server.enabled t (.start c) →
      (t.conns c).closed = true := by
  refine ⟨closed_of_returned h hj hpc, fun t hlater c hstart => ?_⟩
  have hreturned : j < t.stopCount ∧ t.stops j = .returned :=
    hlater.invariant (I := fun s => j < s.stopCount ∧ s.stops j = .returned)
      (fun _ _ hi he _ => returned_next hi he) ⟨hj, hpc⟩
  exact closed_of_returned (h.later hlater) hreturned.1 hreturned.2 c hstart.1

/-- A connection is registered and its task scheduled, then `Stop` runs to its end. -/
def stoppedAfterSchedule : State :=
  server.run (.started 1) [.check, .accept .client, .load 0, .exchange 0 0 false, .register 0,
    .schedule 0, .stop, .take 0, .closeListener 0 [0], .closeNext 0 0 [], .returnStop 0]

theorem stop_closes_scheduled : (stoppedAfterSchedule.conns 0).closed = true ∧
    server.enabled stoppedAfterSchedule (.start 0) ∧
    ∀ c, server.enabled stoppedAfterSchedule (.start c) →
      (stoppedAfterSchedule.conns c).closed = true := by
  have hreach : server.ReachVia Undisturbed stoppedAfterSchedule :=
    Machine.reachVia_run (.start (server_init_started 1)) (by decide +kernel)
  have hreturned : 0 < stoppedAfterSchedule.stopCount ∧ stoppedAfterSchedule.stops 0 = .returned :=
    by decide +kernel
  obtain ⟨hclosed, hlater⟩ := stop_closes_everything hreach hreturned.1 hreturned.2
  exact ⟨hclosed 0 (by decide +kernel), by decide +kernel, hlater _ .refl⟩

/-- The loop has counted a connection and not registered it when `Stop` takes the connections:
`Stop` returns, the connection is open, and its handler is started on it. -/
theorem stop_misses_connection : ∃ s, server.Reach s ∧ (0 < s.stopCount ∧ s.stops 0 = .returned) ∧
    (0 < s.connCount ∧ (s.conns 0).closed = false) ∧
    ∃ t, server.Later (fun _ _ => True) s t ∧ server.enabled t (.start 0) ∧
      (t.conns 0).closed = false := by
  refine ⟨server.run (.started 1) [.check, .accept .client, .load 0, .exchange 0 0 false, .stop,
    .take 0, .closeListener 0 [], .returnStop 0], ?_, by decide +kernel, by decide +kernel,
    server.run _ [.register 0, .schedule 0], Machine.later_run (by decide +kernel), ?_⟩
  · exact Machine.reachVia_run (.start (server_init_started 1)) (by decide +kernel)
  · decide +kernel

end PulsarRuntime.Net.Server
