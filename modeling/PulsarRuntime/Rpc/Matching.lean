import Mathlib.Data.List.Basic
import PulsarRuntime.Lib.Family
import PulsarRuntime.Rpc.Session

/-!
# Responses are matched by request id

`Fate` says, by who has erased the entry of a call, what has become of its `PendingCall`; that the
list of removers is never longer than one is part of it.  Everything rests on the ids of the calls
in flight being different, since the timer and a failed send erase by id.  The counter has 64 bits:
a call has an id of its own only until the counter has gone round once.  `Fresh` asks that this
does not happen while the call is in flight.
-/

namespace PulsarRuntime.Rpc.Session

namespace PendingCall

/-- In flight: the call has drawn an id, and it has not returned, or its entry is still in the map,
or its timer callback has still to run. -/
def Live (c : PendingCall) : Prop :=
  c.pc ≠ .entered ∧
    (c.pc.hasReturned = false ∨ c.timer = .queued ∨ (c.since.isSome = true ∧ c.removedBy = []))

instance (c : PendingCall) : Decidable c.Live :=
  inferInstanceAs (Decidable (_ ∧ _))

/-- The first response with the call's id since the call was entered in the map. -/
def first (c : PendingCall) (received : List Response) : Option Response :=
  c.since.bind fun n => (received.drop n).find? fun f => f.requestId = c.reqId

def Undone (c : PendingCall) : Prop := c.done = false ∧ c.failed = false

/-- The call holds what `f` says. -/
def Answered (c : PendingCall) (f : Response) : Prop :=
  c.done = true ∧ if f.error ≠ "" then c.failed = true ∧ c.error = f.error
    else c.failed = false ∧ c.payload = f.payload

/-- What has become of call `k`, whose id has `entry` in the map. -/
def Fate (c : PendingCall) (received : List Response) (entry : Option ℕ) (k : ℕ) : Prop :=
  match c.since, c.removedBy with
  | none, removedBy => removedBy = [] ∧ c.Undone
  | some _, [] => entry = some k ∧ c.Undone ∧ c.first received = none
  | some _, [.response] => if c.holder.isSome then c.Undone
      else ∃ f, c.first received = some f ∧ c.Answered f
  | some _, [.timeout] => c.done = true ∧ c.failed = true
  | some _, [.sendFailure] => c.Undone
  | some _, [.sweep] => if c.holder.isSome then c.Undone else c.done = true ∧ c.failed = true
  | some _, _ => False

structure Ok (c : PendingCall) (draws : ℕ) (received : List Response) (entry : Option ℕ)
    (k : ℕ) : Prop where
  ticket : c.pc ≠ .entered → c.ticket < draws ∧ c.reqId = (c.ticket + 1) % 2 ^ 64
  nonzero : c.pc ≠ .entered → c.pc ≠ .redraw → c.reqId ≠ 0
  redraw : c.pc = .redraw → c.reqId = 0
  early : c.pc.early = true → c.since = none
  timer : c.timer ≠ .off → c.pc = .waiting ∨ (c.pc.hasReturned = true ∧ c.timer = .queued)
  since : ∀ n, c.since = some n → n ≤ received.length
  fate : c.Fate received entry k

variable {c c' : PendingCall} {received : List Response} {found : Option ℕ} {draws k n r : ℕ}
  {f : Response}

/-- Before it is in the map a call is neither removed nor answered. -/
theorem Ok.unregistered (hok : c.Ok draws received found k) (hearly : c.pc.early = true) :
    c.since = none ∧ c.removedBy = [] ∧ c.Undone := by
  have hsince := hok.early hearly
  have hfate := hok.fate
  simp only [Fate, hsince] at hfate
  exact ⟨hsince, hfate⟩

/-- The call has an entry in the map, under `id`. -/
structure Entry (c : PendingCall) (id : ℕ) : Prop where
  reqId : c.reqId = id
  since : c.since.isSome = true
  unremoved : c.removedBy = []

/-- The two agree in what a call is matched by. -/
structure SameMatch (c c' : PendingCall) : Prop where
  reqId : c'.reqId = c.reqId
  ticket : c'.ticket = c.ticket
  since : c'.since = c.since
  removedBy : c'.removedBy = c.removedBy

theorem SameMatch.refl (c : PendingCall) : c.SameMatch c := ⟨rfl, rfl, rfl, rfl⟩

theorem SameMatch.first (h : c.SameMatch c') (received : List Response) :
    c'.first received = c.first received := by
  simp only [PendingCall.first, h.since, h.reqId]

theorem SameMatch.entry (h : c.SameMatch c') {id : ℕ} (he : c.Entry id) : c'.Entry id :=
  ⟨h.reqId.trans he.reqId, by rw [h.since, he.since], h.removedBy.trans he.unremoved⟩

theorem SameMatch.live (h : c.SameMatch c') (hpc : c'.pc = c.pc)
    (htimer : c'.timer = c.timer) (hlive : c'.Live) : c.Live := by
  simpa only [Live, hpc, htimer, h.since, h.removedBy] using hlive

/-- Only what the call is completed with has changed. -/
theorem SameMatch.ok (h : c.SameMatch c') (hok : c.Ok draws received found k)
    (hpc : c'.pc = c.pc) (htimer : c'.timer = c.timer) (hfate : c'.Fate received found k) :
    c'.Ok draws received found k where
  ticket := by simpa only [hpc, h.ticket, h.reqId] using hok.ticket
  nonzero := by simpa only [hpc, h.reqId] using hok.nonzero
  redraw := by simpa only [hpc, h.reqId] using hok.redraw
  early := by simpa only [hpc, h.since] using hok.early
  timer := by simpa only [hpc, htimer] using hok.timer
  since := by simpa only [h.since] using hok.since
  fate := hfate

/-- Still in the map. -/
theorem Fate.entry (h : c.Fate received found k) (hsince : c.since.isSome = true)
    (hremoved : c.removedBy = []) :
    found = some k ∧ c.Undone ∧ c.first received = none := by
  obtain ⟨n, hn⟩ := Option.isSome_iff_exists.mp hsince
  simp only [Fate, hn, hremoved] at h
  exact h

/-- Taken out by reader `r`. -/
theorem fate_held (hn : c.since = some n) (hremoved : c.removedBy = [.response] ∨
    c.removedBy = [.sweep]) (hholder : c.holder = some r) :
    c.Fate received found k ↔ c.Undone := by
  rcases hremoved with hremoved | hremoved <;> simp [Fate, hn, hremoved, hholder]

theorem fate_answered (hn : c.since = some n) (hremoved : c.removedBy = [.response])
    (hholder : c.holder = none) :
    c.Fate received found k ↔ ∃ f, c.first received = some f ∧ c.Answered f := by
  simp [Fate, hn, hremoved, hholder]

theorem fate_swept (hn : c.since = some n) (hremoved : c.removedBy = [.sweep])
    (hholder : c.holder = none) :
    c.Fate received found k ↔ c.done = true ∧ c.failed = true := by
  simp [Fate, hn, hremoved, hholder]

theorem Fate.of_entry {found' : Option ℕ} (h : c.Fate received found k)
    (he : found = some k → found' = some k) : c.Fate received found' k := by
  simp only [Fate] at h ⊢
  split <;> simp_all

theorem first_append (f : Response) (hsince : ∀ n, c.since = some n → n ≤ received.length) :
    c.first (received ++ [f]) =
      (c.first received).or
        (c.since.bind fun _ => if f.requestId = c.reqId then some f else none) := by
  cases hn : c.since with
  | none => simp [first, hn]
  | some n =>
    simp only [first, hn, Option.bind_some, List.drop_append_of_le_length (hsince n hn),
      List.find?_append]
    by_cases hid : f.requestId = c.reqId <;> simp [hid]

/-- A response that is not for a pending call changes no fate. -/
theorem Ok.receive (h : c.Ok draws received found k)
    (hf : c.since.isSome = true → c.removedBy = [] → f.requestId ≠ c.reqId) :
    c.Ok draws (received ++ [f]) found k := by
  refine { h with since := fun n hn => ?_, fate := ?_ }
  · have := h.since n hn
    simp only [List.length_append]
    omega
  · have hfate := h.fate
    have happend := first_append f h.since
    simp only [Fate] at hfate ⊢
    split <;> simp_all
    split at hfate
    · rwa [if_pos ‹_›]
    · obtain ⟨f', hfirst, hheld⟩ := hfate
      rw [if_neg ‹_›]
      exact ⟨f', by simp [hfirst], hheld⟩

end PendingCall

/-! ### Tickets -/

/-- Fewer than `2 ^ 64` draws lie between the two. -/
def Apart (t u : ℕ) : Prop := t ≠ u ∧ t < u + 2 ^ 64 ∧ u < t + 2 ^ 64

theorem Apart.symm {t u : ℕ} (h : Apart t u) : Apart u t := ⟨h.1.symm, h.2.2, h.2.1⟩

theorem Apart.id_ne {t u : ℕ} (h : Apart t u) : (t + 1) % 2 ^ 64 ≠ (u + 1) % 2 ^ 64 := by
  obtain ⟨hne, htu, hut⟩ := h
  omega

/-- When an id is drawn, the counter has not gone round since the id of a call in flight. -/
def Fresh (s : State) : Action → Prop
  | .draw _ => ∀ j < s.count, (s.calls j).Live → s.draws - (s.calls j).ticket < 2 ^ 64
  | _ => True

instance (s : State) (a : Action) : Decidable (Fresh s a) := by
  rcases a <;> (dsimp only [Fresh]; infer_instance)

/-! ### The invariant -/

/-- What a reader has taken out of the map is its own to complete. -/
def ReaderPc.Holds (calls : ℕ → PendingCall) (count : ℕ) (received : List Response) (r : ℕ) :
    ReaderPc → Prop
  | .holding k f => k < count ∧ (calls k).holder = some r ∧ (calls k).removedBy = [.response] ∧
      (calls k).first received = some f
  | .sweeping remaining => ∀ id k, remaining id = some k → k < count ∧
      (calls k).holder = some r ∧ (calls k).removedBy = [.sweep] ∧ (calls k).reqId = id
  | _ => True

structure Inv (s : State) : Prop where
  counter : s.nextRequestId = (s.draws + 1) % 2 ^ 64
  calls : ∀ k < s.count, (s.calls k).Ok s.draws s.received (s.pending (s.calls k).reqId) k
  apart : ∀ j < s.count, ∀ k < s.count, j ≠ k → (s.calls j).Live → (s.calls k).Live →
    Apart (s.calls j).ticket (s.calls k).ticket
  mapped : ∀ id k, s.pending id = some k → k < s.count ∧ (s.calls k).Entry id
  readers : ∀ r < s.readerCount, (s.readers r).Holds s.calls s.count s.received r

theorem PendingCall.live_of_pc {c : PendingCall} (h : c.pc ≠ .entered)
    (hreturned : c.pc.hasReturned = false) : c.Live := ⟨h, .inl hreturned⟩

/-- A call in the map is in flight. -/
theorem Inv.live_of_pending {s : State} (h : Inv s) {id k : ℕ} (hk : s.pending id = some k) :
    (s.calls k).Live := by
  obtain ⟨hlt, hentry⟩ := h.mapped id k hk
  refine ⟨fun hpc => ?_, .inr (.inr ⟨hentry.since, hentry.unremoved⟩)⟩
  have hearly := (h.calls k hlt).early (by simp [hpc, Pc.early])
  simpa [hearly] using hentry.since

/-- The entry found under the id of a call in flight is that call's own. -/
theorem Inv.own_entry {s : State} (h : Inv s) {j k : ℕ} (hk : k < s.count)
    (hlive : (s.calls k).Live) (hj : s.pending (s.calls k).reqId = some j) : j = k := by
  obtain ⟨hlt, hentry⟩ := h.mapped _ j hj
  by_contra hne
  have hjlive := h.live_of_pending hj
  have hapart := h.apart j hlt k hk hne hjlive hlive
  apply hapart.id_ne
  rw [← ((h.calls j hlt).ticket hjlive.1).2, ← ((h.calls k hk).ticket hlive.1).2, hentry.reqId]

section Holds

variable {calls calls' : ℕ → PendingCall} {count count' r : ℕ} {received : List Response}
  {pc : ReaderPc}

theorem ReaderPc.Holds.frame (h : pc.Holds calls count received r) (hcount : count ≤ count')
    (hcalls : ∀ k < count, (calls k).holder = some r → (calls k).removedBy ≠ [] →
      (calls k).SameMatch (calls' k) ∧ (calls' k).holder = some r) :
    pc.Holds calls' count' received r := by
  cases pc with
  | holding k f =>
    obtain ⟨hk, hholder, hremoved, hfirst⟩ := h
    obtain ⟨hsame, hholder'⟩ := hcalls k hk hholder (by simp [hremoved])
    exact ⟨by omega, hholder', by rw [hsame.removedBy, hremoved], by rw [hsame.first, hfirst]⟩
  | sweeping remaining =>
    intro id k hid
    obtain ⟨hk, hholder, hremoved, hreqId⟩ := h id k hid
    obtain ⟨hsame, hholder'⟩ := hcalls k hk hholder (by simp [hremoved])
    exact ⟨by omega, hholder', by rw [hsame.removedBy, hremoved], by rw [hsame.reqId, hreqId]⟩
  | top | reading | leaving | cleared | closed => trivial

/-- The step does not touch the calls the reader holds. -/
theorem ReaderPc.Holds.untouched (h : pc.Holds calls count received r) (hcount : count ≤ count')
    (hcalls : ∀ k < count, (calls k).holder = some r → (calls k).removedBy ≠ [] →
      calls' k = calls k) : pc.Holds calls' count' received r := by
  refine h.frame hcount fun k hk hholder hremoved => ?_
  rw [hcalls k hk hholder hremoved]
  exact ⟨.refl _, hholder⟩

end Holds

namespace Inv

variable {s : State} {k r : ℕ} {c : PendingCall}

theorem apart_of (h : Inv s) {calls : ℕ → PendingCall}
    (hcalls : ∀ j < s.count, (calls j).Live →
      (s.calls j).Live ∧ (calls j).ticket = (s.calls j).ticket) :
    ∀ i < s.count, ∀ j < s.count, i ≠ j → (calls i).Live → (calls j).Live →
      Apart (calls i).ticket (calls j).ticket := by
  intro i hi j hj hne hlivei hlivej
  obtain ⟨hlivei, hti⟩ := hcalls i hi hlivei
  obtain ⟨hlivej, htj⟩ := hcalls j hj hlivej
  rw [hti, htj]
  exact h.apart i hi j hj hne hlivei hlivej

/-- A call that is replaced stays in flight only if it was. -/
theorem live_update (hlive : c.Live → (s.calls k).Live) (hticket : c.ticket = (s.calls k).ticket) :
    ∀ j < s.count, (Function.update s.calls k c j).Live →
      (s.calls j).Live ∧ (Function.update s.calls k c j).ticket = (s.calls j).ticket := by
  intro j _ hj
  by_cases hjk : j = k
  · subst hjk
    rw [Function.update_self] at hj ⊢
    exact ⟨hlive hj, hticket⟩
  · rw [Function.update_of_ne hjk] at hj ⊢
    exact ⟨hj, rfl⟩

variable (h : Inv s)
include h

theorem setReader {pc : ReaderPc} (hpc : pc.Holds s.calls s.count s.received r) :
    Inv (s.setReader r pc) :=
  ⟨h.counter, h.calls, h.apart, h.mapped,
    Family.forall_update (P := fun r (pc : ReaderPc) => pc.Holds s.calls s.count s.received r)
      h.readers hpc⟩

/-- A call is replaced by one with the same id. -/
theorem calls_update (hok : c.Ok s.draws s.received (s.pending (s.calls k).reqId) k)
    (hid : c.reqId = (s.calls k).reqId) :
    ∀ j < s.count, (Function.update s.calls k c j).Ok s.draws s.received
      (s.pending (Function.update s.calls k c j).reqId) j :=
  Family.forall_update
    (P := fun j (x : PendingCall) => x.Ok s.draws s.received (s.pending x.reqId) j) h.calls
    (by rwa [hid])

/-- A call that nobody has taken from the map is not with a reader. -/
theorem readers_update (hremoved : (s.calls k).removedBy = []) (c : PendingCall) :
    ∀ r < s.readerCount,
      (s.readers r).Holds (Function.update s.calls k c) s.count s.received r := by
  intro r hr
  refine (h.readers r hr).untouched le_rfl fun j _ _ hj => Function.update_of_ne ?_ _ _
  rintro rfl
  exact hj hremoved

/-- A step of a call that leaves alone what it is matched by. -/
theorem setCall (hok : c.Ok s.draws s.received (s.pending (s.calls k).reqId) k)
    (hsame : (s.calls k).SameMatch c) (hholder : c.holder = (s.calls k).holder)
    (hlive : c.Live → (s.calls k).Live) : Inv (s.setCall k c) := by
  have hupdate : ∀ j, (s.calls j).SameMatch (Function.update s.calls k c j) ∧
      (Function.update s.calls k c j).holder = (s.calls j).holder := by
    intro j
    by_cases hjk : j = k
    · subst hjk
      rw [Function.update_self]
      exact ⟨hsame, hholder⟩
    · rw [Function.update_of_ne hjk]
      exact ⟨.refl _, rfl⟩
  refine ⟨h.counter, h.calls_update hok hsame.reqId, h.apart_of (live_update hlive hsame.ticket),
    ?_, ?_⟩
  · intro id j hj
    obtain ⟨hlt, hentry⟩ := h.mapped id j hj
    exact ⟨hlt, (hupdate j).1.entry hentry⟩
  · intro r hr
    refine (h.readers r hr).frame le_rfl fun j _ hj _ => ?_
    obtain ⟨hmatch, hj'⟩ := hupdate j
    exact ⟨hmatch, hj'.trans hj⟩

/-- The entry of call `k` is erased. -/
theorem remove {id : ℕ} (hentry : s.pending id = some k)
    (hok : c.Ok s.draws s.received none k) (hid : c.reqId = (s.calls k).reqId)
    (hticket : c.ticket = (s.calls k).ticket) (hlive : c.Live → (s.calls k).Live) :
    Inv { s.setCall k c with pending := Function.update s.pending id none } := by
  obtain ⟨hk, hkentry⟩ := h.mapped id k hentry
  refine ⟨h.counter, ?_, h.apart_of (live_update hlive hticket), ?_,
    h.readers_update hkentry.unremoved c⟩
  · intro j hj
    show (Function.update s.calls k c j).Ok _ _
      (Function.update s.pending id none (Function.update s.calls k c j).reqId) j
    by_cases hjk : j = k
    · subst hjk
      rw [Function.update_self, hid, hkentry.reqId, Function.update_self]
      exact hok
    · rw [Function.update_of_ne hjk]
      refine { h.calls j hj with fate := (h.calls j hj).fate.of_entry fun hj' => ?_ }
      rw [Function.update_of_ne, hj']
      intro hsameid
      rw [hsameid, hentry] at hj'
      exact hjk (Option.some.inj hj').symm
  · intro id' j hj
    have hid' : id' ≠ id := by
      rintro rfl
      simp at hj
    have hj' : s.pending id' = some j := by simpa [Function.update_of_ne hid'] using hj
    obtain ⟨hlt, hjentry⟩ := h.mapped id' j hj'
    have hjk : j ≠ k := by
      rintro rfl
      exact hid' (hjentry.reqId.symm.trans hkentry.reqId)
    show j < s.count ∧ (Function.update s.calls k c j).Entry id'
    rw [Function.update_of_ne hjk]
    exact ⟨hlt, hjentry⟩

/-- A reader completes a call that it holds. -/
theorem release {pc : ReaderPc} (hholder : (s.calls k).holder = some r)
    (hok : c.Ok s.draws s.received (s.pending (s.calls k).reqId) k)
    (hsame : (s.calls k).SameMatch c) (hremoved : (s.calls k).removedBy ≠ [])
    (hlive : c.Live → (s.calls k).Live)
    (hpc : pc.Holds (Function.update s.calls k c) s.count s.received r) :
    Inv ((s.setCall k c).setReader r pc) := by
  refine ⟨h.counter, h.calls_update hok hsame.reqId, h.apart_of (live_update hlive hsame.ticket),
    ?_, ?_⟩
  · intro id j hj
    obtain ⟨hlt, hentry⟩ := h.mapped id j hj
    have hjk : j ≠ k := by
      rintro rfl
      exact hremoved hentry.unremoved
    show j < s.count ∧ (Function.update s.calls k c j).Entry id
    rw [Function.update_of_ne hjk]
    exact ⟨hlt, hentry⟩
  · intro r' hr'
    show (Function.update s.readers r pc r').Holds (Function.update s.calls k c) _ _ r'
    by_cases hrr : r' = r
    · subst hrr
      rw [Function.update_self]
      exact hpc
    · rw [Function.update_of_ne hrr]
      refine (h.readers r' hr').untouched le_rfl fun j _ hj _ => Function.update_of_ne ?_ _ _
      rintro rfl
      exact hrr (Option.some.inj (hj.symm.trans hholder))

/-- A response has been read for which there is no entry. -/
theorem receive {f : Response} (hnone : s.pending f.requestId = none) :
    Inv { s with received := s.received ++ [f] } := by
  refine ⟨h.counter, fun k hk => ?_, h.apart, h.mapped, fun r hr => ?_⟩
  · refine (h.calls k hk).receive fun hsince hremoved hid => ?_
    obtain ⟨hentry, -⟩ := (h.calls k hk).fate.entry hsince hremoved
    rw [← hid, hnone] at hentry
    cases hentry
  · have hold := h.readers r hr
    show (s.readers r).Holds s.calls s.count (s.received ++ [f]) r
    cases hpc : s.readers r with
    | holding k f' =>
      rw [hpc] at hold
      obtain ⟨hk, hholder, hremoved, hfirst⟩ := hold
      refine ⟨hk, hholder, hremoved, ?_⟩
      simp [PendingCall.first_append f (h.calls k hk).since, hfirst]
    | sweeping remaining =>
      rw [hpc] at hold
      exact hold
    | top | reading | leaving | cleared | closed => trivial

/-! ### Steps -/

theorem addCall :
    Inv { s with calls := Function.update s.calls s.count .new, count := s.count + 1 } := by
  have hold : ∀ j < s.count, Function.update s.calls s.count PendingCall.new j = s.calls j :=
    fun j hj => Function.update_of_ne (Nat.ne_of_lt hj) _ _
  have hnew : ∀ j < s.count + 1, (Function.update s.calls s.count PendingCall.new j).Live →
      j < s.count := by
    intro j hj hlive
    by_contra hge
    obtain rfl : j = s.count := by omega
    rw [Function.update_self] at hlive
    exact hlive.1 rfl
  refine ⟨h.counter, ?_, ?_, ?_, ?_⟩
  · refine Family.forall_add
      (P := fun j (x : PendingCall) => x.Ok s.draws s.received (s.pending x.reqId) j) h.calls ?_
    refine ⟨fun hpc => absurd rfl hpc, fun hpc => absurd rfl hpc, nofun, fun _ => rfl,
      fun htimer => absurd rfl htimer, nofun, ?_⟩
    exact ⟨rfl, rfl, rfl⟩
  · intro i hi j hj hne hlivei hlivej
    have hi' := hnew i hi hlivei
    have hj' := hnew j hj hlivej
    simp only [hold i hi', hold j hj'] at hlivei hlivej ⊢
    exact h.apart i hi' j hj' hne hlivei hlivej
  · intro id j hj
    obtain ⟨hlt, hentry⟩ := h.mapped id j hj
    show j < s.count + 1 ∧ (Function.update s.calls s.count PendingCall.new j).Entry id
    rw [hold j hlt]
    exact ⟨by omega, hentry⟩
  · intro r hr
    exact (h.readers r hr).untouched (Nat.le_succ _) fun j hj _ _ => hold j hj

/-- A call draws its id: the counter has not gone round since that of any other call in flight. -/
theorem draw (hk : k < s.count) (hpc : (s.calls k).pc = .entered ∨ (s.calls k).pc = .redraw)
    (hfresh : Fresh s (.draw k)) : Inv (s.draw k) := by
  have hok := h.calls k hk
  obtain ⟨hsince, hfate⟩ :=
    hok.unregistered (by rcases hpc with hpc | hpc <;> simp [hpc, Pc.early])
  have hsecond : (s.calls k).pc = .redraw → s.nextRequestId ≠ 0 := by
    intro hre
    have hlive : (s.calls k).Live :=
      PendingCall.live_of_pc (by simp [hre]) (by simp [hre, Pc.hasReturned])
    have hgap := hfresh k hk hlive
    obtain ⟨hticket, hid⟩ := hok.ticket hlive.1
    rw [hok.redraw hre] at hid
    rw [h.counter]
    omega
  have hunmapped : ∀ {id}, s.pending id ≠ some k := by
    intro id hid
    have := (h.mapped id k hid).2.since
    simp [hsince] at this
  refine ⟨?_, ?_, ?_, ?_, ?_⟩
  · show (s.nextRequestId + 1) % 2 ^ 64 = (s.draws + 1 + 1) % 2 ^ 64
    rw [h.counter]
    omega
  · refine Family.forall_update (P := fun j (x : PendingCall) =>
      x.Ok (s.draws + 1) s.received (s.pending x.reqId) j) (fun j hj => ?_) ?_
    · refine { h.calls j hj with ticket := fun hdrawn => ?_ }
      obtain ⟨hlt, hid⟩ := (h.calls j hj).ticket hdrawn
      exact ⟨by omega, hid⟩
    · refine ⟨fun _ => ⟨Nat.lt_succ_self _, h.counter⟩, fun _ hre => ?_, fun hre => ?_,
        fun _ => hsince, fun htimer => ?_, hok.since, ?_⟩
      · rcases hpc with hpc | hpc
        · intro hzero
          exact hre (if_pos ⟨hzero, hpc⟩)
        · exact hsecond hpc
      · by_contra hnonzero
        simp [hnonzero] at hre
      · have := hok.timer htimer
        rcases hpc with hpc | hpc <;> simp [hpc, Pc.hasReturned] at this
      · simp only [PendingCall.Fate, hsince]
        exact hfate
  · intro i hi j hj hne hlivei hlivej
    have hgap : ∀ j < s.count, (s.calls j).Live → Apart s.draws (s.calls j).ticket := by
      intro j hj hlive
      obtain ⟨hlt, -⟩ := (h.calls j hj).ticket hlive.1
      have := hfresh j hj hlive
      exact ⟨by omega, by omega, by omega⟩
    simp only [State.draw, State.setCall] at hlivei hlivej ⊢
    by_cases hik : i = k
    · subst hik
      rw [Function.update_of_ne hne.symm] at hlivej ⊢
      rw [Function.update_self]
      exact hgap j hj hlivej
    · rw [Function.update_of_ne hik] at hlivei ⊢
      by_cases hjk : j = k
      · subst hjk
        rw [Function.update_self]
        exact (hgap i hi hlivei).symm
      · rw [Function.update_of_ne hjk] at hlivej ⊢
        exact h.apart i hi j hj hne hlivei hlivej
  · intro id j hj
    obtain ⟨hlt, hentry⟩ := h.mapped id j hj
    have hjk : j ≠ k := by
      rintro rfl
      exact hunmapped hj
    refine ⟨hlt, ?_⟩
    simp only [State.draw, State.setCall, Function.update_of_ne hjk]
    exact hentry
  · exact h.readers_update hfate.1 _

/-- No call has an entry under the id of a call that is not in the map yet. -/
theorem register (hk : k < s.count) (hpc : (s.calls k).pc = .ready) : Inv (s.register k) := by
  have hok := h.calls k hk
  obtain ⟨hsince, hfate⟩ := hok.unregistered (by simp [hpc, Pc.early])
  have hlive : (s.calls k).Live :=
    PendingCall.live_of_pc (by simp [hpc]) (by simp [hpc, Pc.hasReturned])
  have hnone : s.pending (s.calls k).reqId = none := by
    cases hj : s.pending (s.calls k).reqId with
    | none => rfl
    | some j =>
      obtain rfl := h.own_entry hk hlive hj
      have := (h.mapped _ j hj).2.since
      simp [hsince] at this
  refine ⟨h.counter, ?_, h.apart_of (live_update (fun _ => hlive) rfl), ?_, ?_⟩
  · intro j hj
    by_cases hjk : j = k
    · subst hjk
      simp only [State.register, State.setCall, Function.update_self]
      refine ⟨fun _ => hok.ticket (by simp [hpc]), fun _ _ => hok.nonzero (by simp [hpc])
        (by simp [hpc]), nofun, nofun, fun htimer => ?_, fun n hn => ?_, ?_⟩
      · simpa [hpc, Pc.hasReturned] using hok.timer htimer
      · exact (Option.some.inj hn).symm.le
      · simp only [PendingCall.Fate, hfate.1, PendingCall.first, Option.bind_some, List.drop_length]
        exact ⟨trivial, hfate.2, rfl⟩
    · simp only [State.register, State.setCall, Function.update_of_ne hjk]
      refine { h.calls j hj with fate := (h.calls j hj).fate.of_entry fun hj' => ?_ }
      rw [Function.update_of_ne, hj']
      intro hid
      rw [hid, hnone] at hj'
      cases hj'
  · intro id j hj
    simp only [State.register] at hj
    by_cases hid : id = (s.calls k).reqId
    · subst hid
      rw [Function.update_self] at hj
      obtain rfl := Option.some.inj hj
      refine ⟨hk, ?_⟩
      simp only [State.register, State.setCall, Function.update_self]
      exact ⟨rfl, rfl, hfate.1⟩
    · rw [Function.update_of_ne hid] at hj
      obtain ⟨hlt, hentry⟩ := h.mapped id j hj
      have hjk : j ≠ k := by
        rintro rfl
        exact hid hentry.reqId.symm
      refine ⟨hlt, ?_⟩
      simp only [State.register, State.setCall, Function.update_of_ne hjk]
      exact hentry
  · exact h.readers_update hfate.1 _

/-- A failed send: the call erases its own entry, if it is still there. -/
theorem withdraw (hk : k < s.count) (hpc : (s.calls k).pc = .unsent) :
    Inv ((s.erase (s.calls k).reqId .sendFailure).setPc k (.returned .sendFailed)) := by
  have hok := h.calls k hk
  have hlive : (s.calls k).Live :=
    PendingCall.live_of_pc (by simp [hpc]) (by simp [hpc, Pc.hasReturned])
  have hid := hok.ticket hlive.1
  have hnonzero := hok.nonzero hlive.1 (by simp [hpc])
  cases hj : s.pending (s.calls k).reqId with
  | none =>
    simp only [State.erase, hj, State.setPc]
    refine h.setCall ⟨fun _ => hid, fun _ _ => hnonzero, nofun, nofun, fun htimer => ?_, hok.since,
      hok.fate⟩ ⟨rfl, rfl, rfl, rfl⟩ rfl fun _ => hlive
    simpa [hpc, Pc.hasReturned] using hok.timer htimer
  | some j =>
    obtain rfl := h.own_entry hk hlive hj
    obtain ⟨-, hentry⟩ := h.mapped _ j hj
    obtain ⟨-, hundone, -⟩ := hok.fate.entry hentry.since hentry.unremoved
    obtain ⟨n, hn⟩ := Option.isSome_iff_exists.mp hentry.since
    simp only [State.erase, hj, State.setPc, State.setCall, Function.update_self,
      Function.update_idem]
    refine h.remove hj ⟨fun _ => hid, fun _ _ => hnonzero, nofun, nofun, fun htimer => ?_,
      hok.since, ?_⟩ rfl rfl fun _ => hlive
    · simpa [hpc, Pc.hasReturned] using hok.timer htimer
    · simp only [PendingCall.Fate, hn, hentry.unremoved, List.nil_append]
      exact hundone

/-- The timer callback erases the entry of its own call, if it is still there. -/
theorem fire (hk : k < s.count) (htimer : (s.calls k).timer = .queued) : Inv (s.fire k) := by
  have hok := h.calls k hk
  have hpc := hok.timer (by simp [htimer])
  have hdrawn : (s.calls k).pc ≠ .entered := by
    rintro hpc'
    simp [hpc', Pc.hasReturned] at hpc
  have hre : (s.calls k).pc ≠ .redraw := by
    rintro hpc'
    simp [hpc', Pc.hasReturned] at hpc
  have hlive : (s.calls k).Live := ⟨hdrawn, .inr (.inl htimer)⟩
  have hid := hok.ticket hdrawn
  have hnonzero := hok.nonzero hdrawn hre
  cases hj : s.pending (s.calls k).reqId with
  | none =>
    simp only [State.fire, State.erase, hj, Option.isSome_none, Bool.false_eq_true, if_false]
    exact h.setCall ⟨fun _ => hid, fun _ _ => hnonzero, fun hre' => absurd hre' hre, hok.early,
      fun htimer => absurd rfl htimer, hok.since, hok.fate⟩ ⟨rfl, rfl, rfl, rfl⟩ rfl fun _ => hlive
  | some j =>
    obtain rfl := h.own_entry hk hlive hj
    obtain ⟨-, hentry⟩ := h.mapped _ j hj
    obtain ⟨n, hn⟩ := Option.isSome_iff_exists.mp hentry.since
    simp only [State.fire, State.erase, hj, Option.isSome_some, if_true, State.setCall,
      Function.update_self, Function.update_idem]
    refine h.remove hj ⟨fun _ => hid, fun _ _ => hnonzero, fun hre' => absurd hre' hre, hok.early,
      fun htimer => absurd rfl htimer, hok.since, ?_⟩ rfl rfl fun _ => hlive
    simp only [PendingCall.Fate, PendingCall.failWith, hn, hentry.unremoved, List.nil_append]
    exact ⟨trivial, trivial⟩

/-- A response has been read. -/
theorem receiveStep {f : Response} : Inv (s.receive r f) := by
  cases hk : s.pending f.requestId with
  | none =>
    simp only [State.receive, hk]
    exact (h.receive hk).setReader trivial
  | some k =>
    obtain ⟨hlt, hentry⟩ := h.mapped _ k hk
    have hok := h.calls k hlt
    obtain ⟨-, hundone, hfirst⟩ := hok.fate.entry hentry.since hentry.unremoved
    obtain ⟨n, hn⟩ := Option.isSome_iff_exists.mp hentry.since
    simp only [State.receive, State.erase, hk, State.setCall, Function.update_self,
      Function.update_idem]
    -- the entry goes first, so that the response finds none
    have htaken := h.remove (c := { s.calls k with
        removedBy := (s.calls k).removedBy ++ [.response], holder := some r }) hk
      { hok with
        fate := by
          simp only [PendingCall.Fate, hn, hentry.unremoved, List.nil_append]
          exact hundone } rfl rfl fun _ => h.live_of_pending hk
    refine (htaken.receive (f := f) (Function.update_self _ _ _)).setReader ⟨hlt, ?_⟩
    simp only [State.setCall, Function.update_self]
    refine ⟨trivial, by simp [hentry.unremoved], ?_⟩
    show (s.calls k).first (s.received ++ [f]) = some f
    simp [PendingCall.first_append f hok.since, hfirst, hn, hentry.reqId]

theorem since_of_removed (hk : k < s.count) (hremoved : (s.calls k).removedBy ≠ []) :
    ∃ n, (s.calls k).since = some n := by
  cases hn : (s.calls k).since with
  | none =>
    have := (h.calls k hk).fate
    simp only [PendingCall.Fate, hn] at this
    exact absurd this.1 hremoved
  | some n => exact ⟨n, rfl⟩

/-- The reader stores the response in the call it has found. -/
theorem complete (hr : r < s.readerCount) : Inv (s.complete r) := by
  have hold := h.readers r hr
  cases hpc : s.readers r with
  | holding k f =>
    rw [hpc] at hold
    obtain ⟨hk, hholder, hremoved, hfirst⟩ := hold
    have hok := h.calls k hk
    obtain ⟨n, hn⟩ := h.since_of_removed hk (by simp [hremoved])
    have hundone := (PendingCall.fate_held hn (.inl hremoved) hholder).mp hok.fate
    have hsame : (s.calls k).SameMatch { (s.calls k).answer f with holder := none } := by
      simp only [PendingCall.answer]
      split <;> exact ⟨rfl, rfl, rfl, rfl⟩
    have hkept : ((s.calls k).answer f).pc = (s.calls k).pc ∧
        ((s.calls k).answer f).timer = (s.calls k).timer := by
      simp only [PendingCall.answer]
      split <;> exact ⟨rfl, rfl⟩
    have hanswered : ((s.calls k).answer f).Answered f := by
      by_cases herror : f.error = ""
      · simpa [PendingCall.answer, PendingCall.Answered, herror] using hundone.2
      · simp [PendingCall.answer, PendingCall.Answered, PendingCall.failWith, herror]
    simp only [State.complete, hpc]
    refine h.release hholder (hsame.ok hok hkept.1 hkept.2 ?_) hsame (by simp [hremoved])
      (hsame.live hkept.1 hkept.2) trivial
    exact (PendingCall.fate_answered (hsame.since.trans hn) (hsame.removedBy.trans hremoved)
      rfl).mpr ⟨f, (hsame.first _).trans hfirst, hanswered⟩
  | top | reading | leaving | cleared | closed | sweeping =>
    simpa only [State.complete, hpc] using h

/-- The whole map becomes what the reader has to fail. -/
theorem swap : Inv (s.swap r) := by
  have hcall : ∀ k < s.count, ((s.swap r).calls k = s.calls k ∧
      ¬ ((s.calls k).since.isSome = true ∧ (s.calls k).removedBy = [])) ∨
      ((s.calls k).Entry (s.calls k).reqId ∧ (s.calls k).Undone ∧
        (s.swap r).calls k = { s.calls k with removedBy := [.sweep], holder := some r }) := by
    intro k hk
    by_cases hentry : s.pending (s.calls k).reqId = some k
    · obtain ⟨-, he⟩ := h.mapped _ k hentry
      obtain ⟨-, hundone, -⟩ := (h.calls k hk).fate.entry he.since he.unremoved
      refine .inr ⟨he, hundone, ?_⟩
      simp [State.swap, hentry, he.unremoved]
    · refine .inl ⟨by simp [State.swap, hentry], fun hin => hentry ?_⟩
      exact ((h.calls k hk).fate.entry hin.1 hin.2).1
  refine ⟨h.counter, fun k hk => ?_, h.apart_of fun k hk hlive => ?_, nofun, fun r' hr' => ?_⟩
  · have hok := h.calls k hk
    rcases hcall k hk with ⟨heq, hout⟩ | ⟨he, hundone, heq⟩
    · rw [heq]
      refine { hok with fate := hok.fate.of_entry fun hentry => ?_ }
      obtain ⟨-, he⟩ := h.mapped _ k hentry
      exact absurd ⟨he.since, he.unremoved⟩ hout
    · obtain ⟨n, hn⟩ := Option.isSome_iff_exists.mp he.since
      rw [heq]
      exact { hok with
        fate := (PendingCall.fate_held (c := { s.calls k with
          removedBy := [.sweep], holder := some r }) hn (.inr rfl) rfl).mpr hundone }
  · rcases hcall k hk with ⟨heq, -⟩ | ⟨he, -, heq⟩
    · rw [heq] at hlive ⊢
      exact ⟨hlive, rfl⟩
    · rw [heq] at hlive ⊢
      exact ⟨⟨hlive.1, .inr (.inr ⟨he.since, he.unremoved⟩)⟩, rfl⟩
  · have huntouched : ∀ k < s.count, (s.calls k).removedBy ≠ [] →
        (s.swap r).calls k = s.calls k := by
      intro k hk hremoved
      rcases hcall k hk with ⟨heq, -⟩ | ⟨he, -, -⟩
      · exact heq
      · exact absurd he.unremoved hremoved
    by_cases hrr : r' = r
    · subst hrr
      show (Function.update s.readers r' (.sweeping s.pending) r').Holds (s.swap r').calls _ _ r'
      rw [Function.update_self]
      intro id k hid
      obtain ⟨hk, he⟩ := h.mapped id k hid
      rcases hcall k hk with ⟨-, hout⟩ | ⟨-, -, heq⟩
      · exact absurd ⟨he.since, he.unremoved⟩ hout
      · rw [heq]
        exact ⟨hk, rfl, rfl, he.reqId⟩
    · show (Function.update s.readers r (.sweeping s.pending) r').Holds (s.swap r).calls _ _ r'
      rw [Function.update_of_ne hrr]
      exact (h.readers r' hr').untouched le_rfl fun k hk _ hremoved => huntouched k hk hremoved

/-- The reader fails one of the calls it has swept. -/
theorem sweepOne {id : ℕ} (hr : r < s.readerCount) : Inv (s.sweepOne r id) := by
  have hold := h.readers r hr
  cases hpc : s.readers r with
  | sweeping remaining =>
    rw [hpc] at hold
    cases hid : remaining id with
    | none => simpa only [State.sweepOne, hpc, hid] using h
    | some k =>
      obtain ⟨hk, hholder, hremoved, hreqId⟩ := hold id k hid
      have hok := h.calls k hk
      obtain ⟨n, hn⟩ := h.since_of_removed hk (by simp [hremoved])
      have hundone := (PendingCall.fate_held hn (.inr hremoved) hholder).mp hok.fate
      simp only [State.sweepOne, hpc, hid, hundone.1, Bool.false_eq_true, if_false]
      have hsame : (s.calls k).SameMatch { { s.calls k with holder := none }.failWith
          "RPC connection closed" with swept := true } := ⟨rfl, rfl, rfl, rfl⟩
      refine h.release hholder (hsame.ok hok rfl rfl
        ((PendingCall.fate_swept (hsame.since.trans hn) (hsame.removedBy.trans hremoved) rfl).mpr
          ⟨rfl, rfl⟩)) hsame (by simp [hremoved]) (hsame.live rfl rfl) ?_
      -- the calls that remain have other ids
      intro id' k' hid'
      have hne : id' ≠ id := by
        rintro rfl
        simp at hid'
      rw [Function.update_of_ne hne] at hid'
      obtain ⟨hk', hrest⟩ := hold id' k' hid'
      have hkk : k' ≠ k := by
        rintro rfl
        exact hne (hrest.2.2.symm.trans hreqId)
      rw [Function.update_of_ne hkk]
      exact ⟨hk', hrest⟩
  | top | reading | leaving | cleared | closed | holding =>
    simpa only [State.sweepOne, hpc] using h

/-- A call goes on from one program point to the next. -/
theorem setPc (hk : k < s.count) {p q : Pc} (hpc : (s.calls k).pc = p)
    (hmoves : p ≠ .entered ∧ p ≠ .redraw ∧ p ≠ .waiting ∧ p.hasReturned = false ∧ q ≠ .redraw ∧
      (q.early = true → p.early = true)) (sentOn : Option ℕ) :
    Inv (s.setCall k { s.calls k with pc := q, sentOn := sentOn }) := by
  subst hpc
  obtain ⟨hentered, hre, hwait, hreturned, hq, hearly⟩ := hmoves
  have hok := h.calls k hk
  refine h.setCall ⟨fun _ => hok.ticket hentered, fun _ _ => hok.nonzero hentered hre,
    fun hq' => absurd hq' hq, fun hq' => hok.early (hearly hq'), fun htimer => ?_, hok.since,
    hok.fate⟩ ⟨rfl, rfl, rfl, rfl⟩ rfl fun _ => PendingCall.live_of_pc hentered hreturned
  simpa [hwait, hreturned] using hok.timer htimer

/-- The mutex, the connections and `reader_running` have no part in the matching. -/
theorem channel (writer conn : Option ℕ) (isClosed : ℕ → Bool) (connCount : ℕ)
    (readerRunning : Bool) :
    Inv { s with
      writer := writer, conn := conn, isClosed := isClosed, connCount := connCount
      readerRunning := readerRunning } :=
  ⟨h.counter, h.calls, h.apart, h.mapped, h.readers⟩

theorem addReader :
    Inv { s with
      readers := Function.update s.readers s.readerCount .top
      readerCount := s.readerCount + 1 } :=
  ⟨h.counter, h.calls, h.apart, h.mapped, Family.forall_add
    (P := fun r (pc : ReaderPc) => pc.Holds s.calls s.count s.received r) h.readers trivial⟩

/-- **Step lemma.** -/
theorem next {a : Action} (he : session.enabled s a) (hfresh : Fresh s a) :
    Inv (session.next s a) := by
  cases a with
  | call => exact h.addCall
  | draw k => exact h.draw he.1 he.2 hfresh
  | lock k =>
    obtain ⟨hk, hpc, -⟩ := he
    exact (h.setPc (q := .locked) hk hpc (by decide) _).channel _ _ _ _ _
  | check k =>
    obtain ⟨hk, hpc⟩ := he
    exact h.setPc hk hpc (by cases s.isOpen <;> decide) _
  | connect k ok =>
    obtain ⟨hk, hpc⟩ := he
    cases ok with
    | true => exact (h.setPc (q := .connected) hk hpc (by decide) _).channel _ _ _ _ _
    | false =>
      exact (h.setPc (q := .returned .connectFailed) hk hpc (by decide) _).channel _ _ _ _ _
  | startReader k =>
    obtain ⟨hk, hpc⟩ := he
    have hready := h.setPc (q := .ready) hk hpc (by decide) (s.calls k).sentOn
    simp only [session, State.startReader]
    split
    · exact hready
    · exact hready.addReader.channel _ _ _ _ _
  | register k => exact h.register he.1 he.2
  | write k =>
    obtain ⟨hk, hpc⟩ := he
    simp only [session, State.write]
    split
    · exact h.setPc hk hpc (by decide) _
    · exact (h.setPc (q := .unsent) hk hpc (by decide) _).channel _ _ _ _ _
  | written k ok =>
    obtain ⟨hk, hpc⟩ := he
    exact (h.setPc (q := if ok then .sent else .unsent) hk hpc (by cases ok <;> decide) _).channel
      _ _ _ _ _
  | withdraw k => exact h.withdraw he.1 he.2
  | wait k =>
    obtain ⟨hk, hpc⟩ := he
    have hok := h.calls k hk
    have hentered : (s.calls k).pc ≠ .entered := by simp [hpc]
    exact h.setCall ⟨fun _ => hok.ticket hentered, fun _ _ => hok.nonzero hentered (by simp [hpc]),
      fun h => (by cases h), fun h => (by cases h), fun _ => .inl rfl, hok.since, hok.fate⟩
      ⟨rfl, rfl, rfl, rfl⟩ rfl
      fun _ => PendingCall.live_of_pc hentered (by simp [hpc, Pc.hasReturned])
  | expire k =>
    obtain ⟨hk, htimer⟩ := he
    have hok := h.calls k hk
    have hpc : (s.calls k).pc = .waiting := by simpa [htimer] using hok.timer (by simp [htimer])
    exact h.setCall { hok with timer := fun _ => .inl hpc } ⟨rfl, rfl, rfl, rfl⟩ rfl
      fun _ => PendingCall.live_of_pc (by simp [hpc]) (by simp [hpc, Pc.hasReturned])
  | fire k => exact h.fire he.1 he.2
  | finish k parses =>
    obtain ⟨hk, hpc⟩ := he
    have hok := h.calls k hk
    have hentered : (s.calls k).pc ≠ .entered := by simp [hpc]
    refine h.setCall ⟨fun _ => hok.ticket hentered, fun _ _ => hok.nonzero hentered (by simp [hpc]),
      fun h => (by cases h), fun h => (by cases h), fun htimer => .inr ⟨rfl, ?_⟩, hok.since,
      hok.fate⟩ ⟨rfl, rfl, rfl, rfl⟩ rfl
      fun _ => PendingCall.live_of_pc hentered (by simp [hpc, Pc.hasReturned])
    cases ht : (s.calls k).timer <;> simp_all
  | loop r =>
    refine h.setReader ?_
    split
    · trivial
    · split <;> trivial
  | retry r => exact h.setReader trivial
  | quit r => exact h.setReader trivial
  | receive r f => exact h.receiveStep
  | complete r => exact h.complete he.1
  | clear r =>
    have hcleared : Inv (s.setReader r .cleared) := h.setReader trivial
    exact hcleared.channel _ _ _ _ _
  | close r =>
    have hclosed : Inv (s.setReader r .closed) := h.setReader trivial
    exact hclosed.channel _ _ _ _ _
  | swap r => exact h.swap
  | sweepOne r id => exact h.sweepOne he.1

end Inv

theorem inv_of_init {s : State} (h : session.init s) : Inv s := by
  obtain ⟨hnext, hdraws, hpending, hcount, -, -, -, -, hreaders, -⟩ := h
  refine ⟨by simp [hnext, hdraws], ?_, ?_, ?_, ?_⟩
  · rw [hcount]
    exact nofun
  · rw [hcount]
    exact nofun
  · intro id k hk
    rw [hpending] at hk
    cases hk
  · rw [hreaders]
    exact nofun

/-! ### The fate of a call -/

namespace PendingCall

variable {c : PendingCall} {received : List Response} {entry : Option ℕ} {k : ℕ}

/-- Only a response makes a call done and not failed. -/
theorem Fate.of_done (h : c.Fate received entry k) (hdone : c.done = true)
    (hfailed : c.failed = false) :
    ∃ f, c.first received = some f ∧ f.error = "" ∧ c.payload = f.payload := by
  simp only [Fate] at h
  split at h
  · exact absurd hdone (by simp [h.2.1])
  · exact absurd hdone (by simp [h.2.1.1])
  · split at h
    · exact absurd hdone (by simp [h.1])
    · obtain ⟨f, hfirst, -, hanswer⟩ := h
      by_cases herror : f.error = ""
      · rw [if_neg (by simpa using herror)] at hanswer
        exact ⟨f, hfirst, herror, hanswer.2⟩
      · rw [if_pos herror] at hanswer
        exact absurd hanswer.1 (by simp [hfailed])
  · exact absurd h.2 (by simp [hfailed])
  · exact absurd hdone (by simp [h.1])
  · split at h
    · exact absurd hdone (by simp [h.1])
    · exact absurd h.2 (by simp [hfailed])
  · exact h.elim

theorem Fate.of_failed (h : c.Fate received entry k) (hfailed : c.failed = true)
    (hremoved : c.removedBy = [.response]) :
    ∃ f, c.first received = some f ∧ f.error ≠ "" ∧ c.error = f.error := by
  simp only [Fate, hremoved] at h
  split at h
  · exact absurd h.1 (by simp)
  · simp_all
  · split at h
    · exact absurd hfailed (by simp [h.2])
    · obtain ⟨f, hfirst, -, hanswer⟩ := h
      by_cases herror : f.error = ""
      · rw [if_neg (by simpa using herror)] at hanswer
        exact absurd hfailed (by simp [hanswer.1])
      · rw [if_pos herror] at hanswer
        exact ⟨f, hfirst, herror, hanswer.2⟩
  all_goals simp_all

/-- At most one party erases the entry. -/
theorem Fate.removed_once (h : c.Fate received entry k) : c.removedBy.length ≤ 1 := by
  simp only [Fate] at h
  split at h <;> simp_all

end PendingCall

/-- **Response matching.**  In every run in which the id counter does not go round while a call is
in flight: a call that is done and not failed holds the payload of the first response with its id
since it was entered in the map, and one failed by a response holds that response's error; the ids
of the calls in flight are not 0 and all different; a response without an entry completes no call;
and an entry is in the map or has been erased by one party. -/
theorem response_matching {s : State} (h : session.ReachVia Fresh s) :
    (∀ k < s.count, (s.calls k).done = true → (s.calls k).failed = false →
      ∃ f, (s.calls k).first s.received = some f ∧ f.error = "" ∧
        (s.calls k).payload = f.payload) ∧
    (∀ k < s.count, (s.calls k).failed = true → (s.calls k).removedBy = [.response] →
      ∃ f, (s.calls k).first s.received = some f ∧ f.error ≠ "" ∧ (s.calls k).error = f.error) ∧
    (∀ k < s.count, (s.calls k).Live → (s.calls k).pc ≠ .redraw → (s.calls k).reqId ≠ 0 ∧
      ∀ j < s.count, (s.calls j).Live → j ≠ k → (s.calls j).reqId ≠ (s.calls k).reqId) ∧
    (∀ r f, s.pending f.requestId = none → (session.next s (.receive r f)).calls = s.calls ∧
      (session.next s (.receive r f)).readers r = .top) ∧
    (∀ k < s.count, (s.calls k).since.isSome = true →
      ((s.calls k).removedBy = [] ∧ s.pending (s.calls k).reqId = some k) ∨
      (∃ remover, (s.calls k).removedBy = [remover] ∧ ∀ id, s.pending id ≠ some k)) := by
  have hinv : Inv s :=
    h.invariant (fun _ => inv_of_init) fun _ _ hi he hfresh => hi.next he hfresh
  refine ⟨fun k hk => (hinv.calls k hk).fate.of_done, fun k hk => (hinv.calls k hk).fate.of_failed,
    fun k hk hlive hre => ⟨(hinv.calls k hk).nonzero hlive.1 hre, fun j hj hjlive hne => ?_⟩,
    fun r f hnone => ?_, fun k hk hsince => ?_⟩
  · rw [((hinv.calls j hj).ticket hjlive.1).2, ((hinv.calls k hk).ticket hlive.1).2]
    exact (hinv.apart j hj k hk hne hjlive hlive).id_ne
  · simp [session, State.receive, hnone, State.setReader]
  · cases hremoved : (s.calls k).removedBy with
    | nil => exact .inl ⟨rfl, ((hinv.calls k hk).fate.entry hsince hremoved).1⟩
    | cons remover more =>
      have honce := (hinv.calls k hk).fate.removed_once
      rw [hremoved, List.length_cons] at honce
      obtain rfl : more = [] := List.length_eq_zero_iff.mp (by omega)
      refine .inr ⟨remover, rfl, fun id hid => ?_⟩
      simpa [hremoved] using (hinv.mapped id k hid).2.unremoved

/-- Two calls wait at the same time; the reader gets a response to neither, and then the second
call's before the first one's. -/
def twoCalls : List Action :=
  [.call, .draw 0, .lock 0, .check 0, .connect 0 true, .startReader 0, .register 0, .write 0,
    .written 0 true, .wait 0, .call, .draw 1, .lock 1, .check 1, .register 1, .write 1,
    .written 1 true, .wait 1, .loop 0, .receive 0 ⟨7, "", [1]⟩, .loop 0, .receive 0 ⟨2, "", [2]⟩,
    .complete 0, .loop 0, .receive 0 ⟨1, "", [3]⟩, .complete 0]

theorem response_matching_two :
    let s := session.run (.fresh true) twoCalls
    (s.calls 0).payload = [3] ∧ (s.calls 1).payload = [2] ∧
      ∀ k < 2, ∃ f, (s.calls k).first s.received = some f ∧ f.error = "" ∧
        (s.calls k).payload = f.payload := by
  intro s
  have hs : session.ReachVia Fresh s :=
    Machine.reachVia_run (.start (session_init_fresh true)) (by decide +kernel)
  have hdone : ∀ k < 2, k < s.count ∧ (s.calls k).done = true ∧ (s.calls k).failed = false := by
    decide +kernel
  refine ⟨by decide +kernel, by decide +kernel, fun k hk => ?_⟩
  obtain ⟨hcount, hanswered, hfailed⟩ := hdone k hk
  exact (response_matching hs).1 k hcount hanswered hfailed

/-! ### The counter goes round -/

/-- One more call draws its id. -/
theorem reach_draw {s : State} (hs : session.Reach s) (hcount : 0 < s.count) :
    ∃ t, session.Reach t ∧ t.draws = s.draws + 1 ∧ t.count = s.count + 1 ∧
      t.nextRequestId = (s.nextRequestId + 1) % 2 ^ 64 ∧ t.calls 0 = s.calls 0 ∧
      (t.calls s.count).reqId = s.nextRequestId ∧
      (s.nextRequestId ≠ 0 → (t.calls s.count).pc = .drawn) := by
  have hcall : session.Reach (session.next s .call) := hs.step trivial trivial
  have hdraw : session.Reach (session.next (session.next s .call) (.draw s.count)) :=
    hcall.step ⟨Nat.lt_succ_self _, .inl (by simp [session, PendingCall.new])⟩ trivial
  refine ⟨_, hdraw, rfl, rfl, rfl, ?_, ?_, fun hnonzero => ?_⟩
  · simp [session, State.draw, State.setCall, Function.update_of_ne hcount.ne]
  · simp [session, State.draw, State.setCall]
  · simp [session, State.draw, State.setCall, hnonzero]

/-- Any number of calls can draw ids while the first one, with id 1, is in flight. -/
theorem many_draws (n : ℕ) : ∃ s, session.Reach s ∧ s.draws = n + 1 ∧ s.count = n + 1 ∧
    s.nextRequestId = (n + 2) % 2 ^ 64 ∧ (s.calls 0).pc = .drawn ∧ (s.calls 0).reqId = 1 := by
  induction n with
  | zero =>
    refine ⟨session.run (.fresh true) [.call, .draw 0], ?_, by decide +kernel⟩
    exact Machine.reachVia_run (.start (session_init_fresh true)) (by decide +kernel)
  | succ n ih =>
    obtain ⟨s, hs, hdraws, hcount, hnext, hpc, hid⟩ := ih
    obtain ⟨t, ht, htdraws, htcount, htnext, hfirst, -⟩ := reach_draw hs (by omega)
    refine ⟨t, ht, by omega, by omega, ?_, by rw [hfirst, hpc], by rw [hfirst, hid]⟩
    rw [htnext, hnext]
    omega

/-- After `2 ^ 64` draws a second call gets the id of one that is still in flight. -/
theorem request_id_reused : ∃ s, session.Reach s ∧ ∃ j < s.count, ∃ k < s.count, j ≠ k ∧
    (s.calls j).Live ∧ (s.calls k).Live ∧ (s.calls j).pc = .drawn ∧ (s.calls k).pc = .drawn ∧
    (s.calls j).reqId = (s.calls k).reqId := by
  obtain ⟨s, hs, hdraws, hcount, hnext, hpc, hid⟩ := many_draws (2 ^ 64 - 1)
  have hone : s.nextRequestId = 1 := by omega
  obtain ⟨t, ht, -, htcount, -, hfirst, hid', hpc'⟩ := reach_draw hs (by omega)
  rw [hone] at hid' hpc'
  have hdrawn := hpc' one_ne_zero
  rw [← hfirst] at hpc hid
  have hlive : ∀ c : PendingCall, c.pc = .drawn → c.Live := fun c hc =>
    PendingCall.live_of_pc (by simp [hc]) (by simp [hc, Pc.hasReturned])
  exact ⟨t, ht, 0, by omega, s.count, by omega, by omega, hlive _ hpc, hlive _ hdrawn, hpc, hdrawn,
    hid.trans hid'.symm⟩

end PulsarRuntime.Rpc.Session
