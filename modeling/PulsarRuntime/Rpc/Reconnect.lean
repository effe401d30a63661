import PulsarRuntime.Lib.Family
import PulsarRuntime.Rpc.Session

/-!
# The connection a call belongs to

A channel has at most one open connection, the current one, and at most one reader in its loop,
which reads from it; only that reader closes it, after it has left the loop (`Linked`).  A frame is
therefore read from one connection even though `ReaderLoop` looks at `conn` again for each part.

At its end a reader clears `reader_running`, closes the connection and only then takes over what is
in `pending_calls`.  A call that finds the connection closed can connect anew and enter the map in
between, and is then swept with the calls of the old connection.  `Orderly` excludes just that.
-/

namespace PulsarRuntime.Rpc.Session

/-- The call holds `write_mutex`. -/
def Pc.holdsWriter : Pc → Bool
  | .locked | .connecting | .connected | .ready | .registered | .writing => true
  | _ => false

/-- The reader has still to close the connection. -/
def ReaderPc.active : ReaderPc → Bool
  | .closed | .sweeping _ => false
  | _ => true

theorem ReaderPc.active_of_stage {pc : ReaderPc} (h : pc.stage ≠ .closed ∧ pc.stage ≠ .sweeping) :
    pc.active = true := by
  cases pc <;> simp_all [ReaderPc.stage, ReaderPc.active]

def State.Quiet (s : State) : Prop := ∀ r < s.readerCount, (s.readers r).active = false

/-- A call and the channel's connection. -/
structure PendingCall.Route (c : PendingCall) (conn : Option ℕ) (isOpen : Bool) (connCount : ℕ)
    (writer : Option ℕ) (quiet : Prop) (k : ℕ) : Prop where
  mutex : c.pc.holdsWriter = true → writer = some k
  connecting : c.pc = .connecting → isOpen = false
  connected : c.pc = .connected → isOpen = true ∧ quiet
  early : c.pc.early = true → c.sentOn = none
  registered : c.pc = .registered → c.enteredOn = conn
  sent : ∀ x, c.sentOn = some x → c.enteredOn = some x
  known : ∀ x, c.enteredOn = some x → x < connCount

structure Linked (s : State) : Prop where
  bound : ∀ c, s.conn = some c → c < s.connCount
  current : ∀ c < s.connCount, s.isClosed c = false → s.conn = some c
  calls : ∀ k < s.count,
    (s.calls k).Route s.conn s.isOpen s.connCount s.writer s.Quiet k
  active : ∀ r < s.readerCount, (s.readers r).active = true → s.isOpen = true ∧
    (∀ c, s.readers r = .reading c → s.conn = some c) ∧
    ∀ r' < s.readerCount, (s.readers r').active = true → r' = r

/-! ### What a step does to a call -/

/-- The step does not move the call to another connection and does not fail it as swept. -/
structure PendingCall.Kept (c c' : PendingCall) : Prop where
  enteredOn : c'.enteredOn = c.enteredOn
  late : c.pc.early = false → c'.pc.early = false
  swept : c'.swept = c.swept

theorem PendingCall.Kept.refl (c : PendingCall) : c.Kept c := ⟨rfl, id, rfl⟩

theorem PendingCall.Kept.trans {c d e : PendingCall} (h : c.Kept d) (h' : d.Kept e) : c.Kept e :=
  ⟨h'.enteredOn.trans h.enteredOn, fun hlate => h'.late (h.late hlate), h'.swept.trans h.swept⟩

namespace State

variable {s : State} {k : ℕ} {c : PendingCall}

theorem kept_update (h : (s.calls k).Kept c) (j : ℕ) :
    (s.calls j).Kept (Function.update s.calls k c j) := by
  by_cases hjk : j = k
  · subst hjk
    rw [Function.update_self]
    exact h
  · rw [Function.update_of_ne hjk]
    exact .refl _

theorem kept_erase (id : ℕ) (by_ : Remover) (j : ℕ) :
    (s.calls j).Kept ((s.erase id by_).calls j) := by
  simp only [erase]
  split
  · exact .refl _
  · refine kept_update (s := s) ?_ j
    exact ⟨rfl, fun hlate => hlate, rfl⟩

theorem erase_pending {id id' k : ℕ} {by_ : Remover}
    (h : (s.erase id by_).pending id' = some k) : s.pending id' = some k := by
  simp only [erase] at h
  split at h
  · exact h
  · by_cases hid : id' = id
    · subst hid
      simp at h
    · simpa [Function.update_of_ne hid] using h

/-- Erasing an entry has no part in the readers and the connections. -/
theorem erase_same (id : ℕ) (by_ : Remover) : (s.erase id by_).count = s.count ∧
    (s.erase id by_).readers = s.readers ∧ (s.erase id by_).readerCount = s.readerCount ∧
    (s.erase id by_).isClosed = s.isClosed := by
  simp only [erase]
  split <;> exact ⟨rfl, rfl, rfl, rfl⟩

theorem kept_setPc {p q : Pc} (hpc : (s.calls k).pc = p)
    (hearly : p.early = false → q.early = false) (j : ℕ) :
    (s.calls j).Kept ((s.setPc k q).calls j) := by
  refine kept_update (s := s) ?_ j
  exact ⟨rfl, by rwa [hpc], rfl⟩

/-- What a step leaves alone in a call; entering the map and the sweep are apart. -/
theorem kept_next {a : Action} (he : session.enabled s a) (hk : k < s.count)
    (hregister : a ≠ .register k) (hsweep : ∀ r id, a ≠ .sweepOne r id) :
    (s.calls k).Kept ((session.next s a).calls k) := by
  cases a with
  | call =>
    show (s.calls k).Kept (Function.update s.calls s.count PendingCall.new k)
    rw [Function.update_of_ne (Nat.ne_of_lt hk)]
    exact .refl _
  | draw i =>
    refine kept_update (s := s) ?_ k
    refine ⟨rfl, ?_, rfl⟩
    rcases he.2 with hpc | hpc <;> simp [hpc, Pc.early]
  | lock i => exact kept_setPc he.2.1 nofun k
  | check i => exact kept_setPc he.2 nofun k
  | connect i ok =>
    cases ok with
    | true => exact kept_setPc he.2 nofun k
    | false => exact kept_setPc he.2 nofun k
  | startReader i =>
    have hready : (s.calls k).Kept ((s.setPc i .ready).calls k) :=
      kept_setPc he.2 (fun hearly => by cases hearly) k
    simp only [session, startReader]
    split
    · exact hready
    · exact hready
  | register i =>
    have hik : k ≠ i := fun heq => hregister (by rw [heq])
    show (s.calls k).Kept (Function.update s.calls i _ k)
    rw [Function.update_of_ne hik]
    exact .refl _
  | write i =>
    simp only [session, write]
    split
    · refine kept_update (s := s) ?_ k
      exact ⟨rfl, fun _ => rfl, rfl⟩
    · exact kept_setPc he.2 (fun _ => rfl) k
  | written i ok => exact kept_setPc he.2 (fun _ => by cases ok <;> rfl) k
  | withdraw i =>
    refine (kept_erase (s.calls i).reqId .sendFailure k).trans ?_
    refine kept_update ?_ k
    exact ⟨rfl, fun _ => rfl, rfl⟩
  | wait i =>
    refine kept_update (s := s) ?_ k
    exact ⟨rfl, fun _ => rfl, rfl⟩
  | expire i =>
    refine kept_update (s := s) ?_ k
    exact ⟨rfl, id, rfl⟩
  | fire i =>
    refine (kept_erase (s.calls i).reqId .timeout k).trans ?_
    refine kept_update ?_ k
    split <;> exact ⟨rfl, id, rfl⟩
  | finish i parses =>
    refine kept_update (s := s) ?_ k
    exact ⟨rfl, fun _ => rfl, rfl⟩
  | receive r f =>
    simp only [session, receive]
    split
    · exact .refl _
    · refine (kept_erase (s := { s with received := s.received ++ [f] }) f.requestId .response
        k).trans ?_
      refine kept_update ?_ k
      exact ⟨rfl, id, rfl⟩
  | complete r =>
    simp only [session, complete]
    split
    · refine kept_update (s := s) ?_ k
      simp only [PendingCall.answer]
      split <;> exact ⟨rfl, id, rfl⟩
    · exact .refl _
  | swap r =>
    simp only [session, swap]
    split
    · exact ⟨rfl, id, rfl⟩
    · exact .refl _
  | sweepOne r id => exact absurd rfl (hsweep r id)
  | loop | retry | quit | clear | close => exact .refl _

/-- Only entering adds to the map. -/
theorem pending_next {a : Action} {id : ℕ} (h : (session.next s a).pending id = some k) :
    s.pending id = some k ∨ a = .register k := by
  cases a with
  | register i =>
    simp only [session, register] at h
    by_cases hid : id = (s.calls i).reqId
    · subst hid
      rw [Function.update_self] at h
      exact .inr (by rw [Option.some.inj h])
    · rw [Function.update_of_ne hid] at h
      exact .inl h
  | withdraw i => exact .inl (erase_pending h)
  | fire i => exact .inl (erase_pending h)
  | receive r f =>
    simp only [session, receive] at h
    split at h
    · exact .inl h
    · exact .inl (erase_pending (s := { s with received := s.received ++ [f] }) h)
  | swap r => cases h
  | connect i ok => cases ok <;> exact .inl h
  | startReader i =>
    simp only [session, startReader] at h
    split at h <;> exact .inl h
  | write i =>
    simp only [session, write] at h
    split at h <;> exact .inl h
  | complete r =>
    simp only [session, complete] at h
    split at h <;> exact .inl h
  | sweepOne r id =>
    simp only [session, sweepOne] at h
    split at h
    · split at h <;> exact .inl h
    · exact .inl h
  | call | draw | lock | check | written | wait | expire | finish | loop | retry | quit | clear
  | close => exact .inl h

end State

/-! ### One open connection, one reader -/

namespace PendingCall.Route

variable {c c' : PendingCall} {conn writer writer' : Option ℕ} {isOpen : Bool} {connCount k : ℕ}
  {quiet : Prop} (h : c.Route conn isOpen connCount writer quiet k)
include h

theorem same (hpc : c'.pc = c.pc)
    (hsent : c'.sentOn = c.sentOn) (hentered : c'.enteredOn = c.enteredOn) :
    c'.Route conn isOpen connCount writer quiet k where
  mutex := by simpa only [hpc] using h.mutex
  connecting := by simpa only [hpc] using h.connecting
  connected := by simpa only [hpc] using h.connected
  early := by simpa only [hpc, hsent] using h.early
  registered := by simpa only [hpc, hentered] using h.registered
  sent := by simpa only [hsent, hentered] using h.sent
  known := by simpa only [hentered] using h.known

/-- A call that has not come to `register` yet goes on. -/
theorem ahead (hbefore : c.pc.early = true)
    (hsent : c'.sentOn = c.sentOn) (hentered : c'.enteredOn = c.enteredOn)
    (hmutex : c'.pc.holdsWriter = true → writer' = some k)
    (hconnecting : c'.pc = .connecting → isOpen = false) (hconnected : c'.pc ≠ .connected)
    (hregistered : c'.pc ≠ .registered) : c'.Route conn isOpen connCount writer' quiet k where
  mutex := hmutex
  connecting := hconnecting
  connected hpc := absurd hpc hconnected
  early _ := hsent.trans (h.early hbefore)
  registered hpc := absurd hpc hregistered
  sent := by simpa only [hsent, hentered] using h.sent
  known := by simpa only [hentered] using h.known

/-- A call that is past `register` and does not hold the mutex. -/
theorem late {q : Pc}
    (hholds : q.holdsWriter = false) (hearly : q.early = false) (hsent : c'.sentOn = c.sentOn)
    (hentered : c'.enteredOn = c.enteredOn) (hpc : c'.pc = q) :
    c'.Route conn isOpen connCount writer' quiet k where
  mutex := by simp [hpc, hholds]
  connecting := by
    rw [hpc]
    rintro rfl
    cases hholds
  connected := by
    rw [hpc]
    rintro rfl
    cases hholds
  early := by simp [hpc, hearly]
  registered := by
    rw [hpc]
    rintro rfl
    cases hholds
  sent := by simpa only [hsent, hentered] using h.sent
  known := by simpa only [hentered] using h.known

/-- A call that does not hold the mutex does not notice a new connection. -/
theorem outside (hholds : writer ≠ some k)
    {conn' : Option ℕ} {isOpen' : Bool} {connCount' : ℕ} {quiet' : Prop}
    (hcount : connCount ≤ connCount') :
    c.Route conn' isOpen' connCount' writer' quiet' k := by
  have hpc : ∀ q : Pc, q.holdsWriter = true → c.pc ≠ q := by
    rintro q hq rfl
    exact hholds (h.mutex hq)
  refine ⟨fun hh => absurd (h.mutex hh) hholds, fun hp => absurd hp (hpc _ rfl),
    fun hp => absurd hp (hpc _ rfl), h.early, fun hp => absurd hp (hpc _ rfl), h.sent,
    fun x hx => ?_⟩
  have := h.known x hx
  omega

end PendingCall.Route

namespace Linked

variable {s : State} {k r : ℕ} {c : PendingCall} (h : Linked s)
include h

/-- A step of the call `k`, which may take or release the mutex. -/
theorem move {writer : Option ℕ} (hroute : c.Route s.conn s.isOpen s.connCount writer s.Quiet k)
    (hwriter : ∀ j, j ≠ k → s.writer = some j → writer = some j) :
    Linked { s.setCall k c with writer := writer } := by
  refine ⟨h.bound, h.current, fun j hj => ?_, h.active⟩
  show (Function.update s.calls k c j).Route s.conn s.isOpen s.connCount writer s.Quiet j
  by_cases hjk : j = k
  · subst hjk
    rw [Function.update_self]
    exact hroute
  · rw [Function.update_of_ne hjk]
    exact { h.calls j hj with mutex := fun hh => hwriter j hjk ((h.calls j hj).mutex hh) }

theorem setCall (hroute : c.Route s.conn s.isOpen s.connCount s.writer s.Quiet k) :
    Linked (s.setCall k c) := h.move hroute fun _ _ hj => hj

/-- The calls keep their program points and connections. -/
theorem setCalls {calls : ℕ → PendingCall} {pending : ℕ → Option ℕ} {received : List Response}
    (hcalls : ∀ k, (calls k).pc = (s.calls k).pc ∧ (calls k).sentOn = (s.calls k).sentOn ∧
      (calls k).enteredOn = (s.calls k).enteredOn) :
    Linked { s with calls := calls, pending := pending, received := received } := by
  refine ⟨h.bound, h.current, fun k hk => ?_, h.active⟩
  obtain ⟨hpc, hsent, hentered⟩ := hcalls k
  exact (h.calls k hk).same hpc hsent hentered

/-- A call is completed. -/
theorem setSame (hpc : c.pc = (s.calls k).pc) (hsent : c.sentOn = (s.calls k).sentOn)
    (hentered : c.enteredOn = (s.calls k).enteredOn) : Linked (s.setCall k c) := by
  refine h.setCalls fun j => ?_
  by_cases hjk : j = k
  · subst hjk
    rw [Function.update_self]
    exact ⟨hpc, hsent, hentered⟩
  · rw [Function.update_of_ne hjk]
    exact ⟨rfl, rfl, rfl⟩

theorem erase (id : ℕ) (by_ : Remover) : Linked (s.erase id by_) := by
  simp only [State.erase]
  split
  · exact h
  next j _ =>
    have hset : Linked (s.setCall j { s.calls j with
      removedBy := (s.calls j).removedBy ++ [by_] }) := h.setSame rfl rfl rfl
    exact ⟨hset.bound, hset.current, hset.calls, hset.active⟩

/-- A reader that has not closed the connection goes on, or ends. -/
theorem setReader (pc : ReaderPc) (hr : r < s.readerCount)
    (hactive : pc.active = true → (s.readers r).active = true)
    (hreading : ∀ c, pc = .reading c → s.conn = some c) : Linked (s.setReader r pc) := by
  have hbefore : ∀ r' < s.readerCount, (Function.update s.readers r pc r').active = true →
      (s.readers r').active = true := by
    intro r' _ hr'
    by_cases hrr : r' = r
    · subst hrr
      rw [Function.update_self] at hr'
      exact hactive hr'
    · rwa [Function.update_of_ne hrr] at hr'
  refine ⟨h.bound, h.current, fun k hk => ?_, fun r' hr' hr'active => ?_⟩
  · refine { h.calls k hk with connected := fun hpc => ?_ }
    obtain ⟨hopen, hquiet⟩ := (h.calls k hk).connected hpc
    refine ⟨hopen, fun r' hr' => ?_⟩
    by_contra hr'active
    have hnow : ((s.setReader r pc).readers r').active = true := by simpa using hr'active
    have := hbefore r' hr' hnow
    rw [hquiet r' hr'] at this
    cases this
  · obtain ⟨hopen, hread, hunique⟩ := h.active r' hr' (hbefore r' hr' hr'active)
    refine ⟨hopen, fun c hc => ?_, fun r'' hr'' hr''active =>
      hunique r'' hr'' (hbefore r'' hr'' hr''active)⟩
    simp only [State.setReader] at hc
    by_cases hrr : r' = r
    · subst hrr
      rw [Function.update_self] at hc
      exact hreading c hc
    · rw [Function.update_of_ne hrr] at hc
      exact hread c hc

/-- A reader that sweeps neither reads nor holds a connection. -/
theorem setSweeping (remaining : ℕ → Option ℕ) (hr : r < s.readerCount) :
    Linked (s.setReader r (.sweeping remaining)) :=
  h.setReader _ hr nofun nofun

/-- While a call connects there is no open connection, and no reader either. -/
theorem quiet_of_connecting (hk : k < s.count) (hpc : (s.calls k).pc = .connecting) : s.Quiet := by
  intro r hr
  by_contra hactive
  have hopen := (h.active r hr (by simpa using hactive)).1
  rw [(h.calls k hk).connecting hpc] at hopen
  cases hopen

theorem closed_of_connecting (hk : k < s.count)
    (hpc : (s.calls k).pc = .connecting) : ∀ c < s.connCount, s.isClosed c = true := by
  intro c hc
  by_contra hopen
  have hconn := h.current c hc (by simpa using hopen)
  have hclosed := (h.calls k hk).connecting hpc
  simp only [State.isOpen, hconn] at hclosed
  exact hopen (by simpa using hclosed)

theorem connect (hk : k < s.count) (hpc : (s.calls k).pc = .connecting)
    (ok : Bool) : Linked (s.connect k ok) := by
  have hwriter := (h.calls k hk).mutex (by simp [hpc, Pc.holdsWriter])
  have hquiet := h.quiet_of_connecting hk hpc
  have hclosed := h.closed_of_connecting hk hpc
  have hother : ∀ {j}, j ≠ k → s.writer ≠ some j := by
    intro j hj hw
    exact hj (Option.some.inj (hw.symm.trans hwriter))
  cases ok with
  | true =>
    have hopen : (s.connect k true).isOpen = true := by simp [State.connect, State.isOpen]
    refine ⟨fun c hc => ?_, fun c hc hopen' => ?_, fun j hj => ?_, fun r hr hactive => ?_⟩
    · obtain rfl : s.connCount = c := Option.some.inj hc
      exact Nat.lt_succ_self _
    · by_cases hnew : c = s.connCount
      · subst hnew
        rfl
      · have hold : s.isClosed c = true := hclosed c (by
          have : c < s.connCount + 1 := hc
          omega)
        simp [State.connect, Function.update_of_ne hnew, hold] at hopen'
    · by_cases hjk : j = k
      · subst hjk
        have hold := h.calls j hj
        show (Function.update s.calls j _ j).Route _ _ _ _ _ j
        rw [Function.update_self]
        refine ⟨fun _ => hwriter, nofun, fun _ => ⟨hopen, hquiet⟩, fun _ => hold.early
          (by simp [hpc, Pc.early]), nofun, hold.sent, fun x hx => ?_⟩
        exact Nat.lt_succ_of_lt (hold.known x hx)
      · show (Function.update s.calls k _ j).Route _ _ _ _ _ j
        rw [Function.update_of_ne hjk]
        exact (h.calls j hj).outside (hother hjk) (Nat.le_succ _)
    · exact absurd hactive (by simpa [State.connect, State.setPc, State.setCall] using hquiet r hr)
  | false =>
    refine ⟨nofun, fun c hc hopen' => ?_, fun j hj => ?_, fun r hr hactive => ?_⟩
    · exact absurd (hclosed c hc)
        (by simpa [State.connect, State.setPc, State.setCall] using hopen')
    · by_cases hjk : j = k
      · subst hjk
        show (Function.update s.calls j _ j).Route _ _ _ _ _ j
        rw [Function.update_self]
        have hlate : ({ s.calls j with pc := .returned .connectFailed } : PendingCall).Route s.conn
            s.isOpen s.connCount none s.Quiet j := (h.calls j hj).late rfl rfl rfl rfl rfl
        exact hlate.outside nofun le_rfl
      · show (Function.update s.calls k _ j).Route _ _ _ _ _ j
        rw [Function.update_of_ne hjk]
        exact (h.calls j hj).outside (hother hjk) le_rfl
    · exact absurd hactive (by simpa [State.connect, State.setPc, State.setCall] using hquiet r hr)

theorem startReader (hk : k < s.count) (hpc : (s.calls k).pc = .connected) :
    Linked (s.startReader k) := by
  have hroute := h.calls k hk
  have hwriter := hroute.mutex (by simp [hpc, Pc.holdsWriter])
  obtain ⟨hopen, hquiet⟩ := hroute.connected hpc
  have hready : Linked (s.setPc k .ready) := h.setCall
    (hroute.ahead (by simp [hpc, Pc.early]) rfl rfl (fun _ => hwriter) nofun nofun nofun)
  simp only [State.startReader]
  split
  · exact hready
  · refine ⟨h.bound, h.current, fun j hj => ?_, fun r hr hactive => ?_⟩
    · refine { hready.calls j hj with connected := fun hj' => ?_ }
      have hjw : s.writer = some j := (hready.calls j hj).mutex (by rw [hj']; rfl)
      obtain rfl : j = k := Option.some.inj (hjw.symm.trans hwriter)
      simp [State.setPc, State.setCall] at hj'
    · have hnew : ∀ r < s.readerCount + 1, (Function.update s.readers s.readerCount ReaderPc.top
          r).active = true → r = s.readerCount := by
        intro r hr hactive
        by_contra hne
        rw [Function.update_of_ne hne, hquiet r (by omega)] at hactive
        cases hactive
      obtain rfl := hnew r hr hactive
      refine ⟨hopen, fun c hc => ?_, fun r' hr' hactive' => hnew r' hr' hactive'⟩
      simp at hc

/-- The last reader closes the connection. -/
theorem close (hr : r < s.readerCount) (hpc : (s.readers r).stage = .cleared) :
    Linked (s.close r) := by
  have hactive : (s.readers r).active = true := by
    cases hreader : s.readers r <;> simp_all [ReaderPc.stage, ReaderPc.active]
  obtain ⟨hopen, -, hunique⟩ := h.active r hr hactive
  obtain ⟨c, hconn⟩ : ∃ c, s.conn = some c := by
    cases hconn : s.conn with
    | none => simp [State.isOpen, hconn] at hopen
    | some c => exact ⟨c, rfl⟩
  have hshut : (s.close r).isOpen = false := by
    simp [State.close, State.isOpen, State.setReader, hconn]
  refine ⟨h.bound, fun c' hc' hopen' => ?_, fun k hk => ?_, fun r' hr' hactive' => ?_⟩
  · simp only [State.close, State.setReader, hconn] at hopen'
    by_cases hcc : c' = c
    · subst hcc
      exact hconn
    · rw [Function.update_of_ne hcc] at hopen'
      exact h.current c' hc' hopen'
  · refine { h.calls k hk with connecting := fun _ => hshut, connected := fun hk' => ?_ }
    have := ((h.calls k hk).connected hk').2 r hr
    rw [hactive] at this
    cases this
  · exfalso
    simp only [State.close, State.setReader] at hactive'
    by_cases hrr : r' = r
    · subst hrr
      simp [ReaderPc.active] at hactive'
    · rw [Function.update_of_ne hrr] at hactive'
      exact hrr (hunique r' hr' hactive')

/-- The call releases the mutex, if it holds it, and goes on. -/
theorem leave (hk : k < s.count) {p q : Pc} (hpc : (s.calls k).pc = p)
    (hp : p.holdsWriter = true) (hholds : q.holdsWriter = false) (hearly : q.early = false) :
    Linked { s.setPc k q with writer := none } := by
  have hwriter := (h.calls k hk).mutex (by rw [hpc, hp])
  refine h.move ((h.calls k hk).late hholds hearly rfl rfl rfl) fun j hj hw => ?_
  exact absurd (Option.some.inj (hw.symm.trans hwriter)) hj

theorem write (hk : k < s.count) (hpc : (s.calls k).pc = .registered) : Linked (s.write k) := by
  have hroute := h.calls k hk
  have hwriter := hroute.mutex (by simp [hpc, Pc.holdsWriter])
  simp only [State.write]
  split
  · refine h.setCall ⟨fun _ => hwriter, nofun, nofun, nofun, nofun, fun x hx => ?_, hroute.known⟩
    exact (hroute.registered hpc).trans hx
  · exact h.leave hk hpc rfl rfl rfl

/-- The reader takes the call of a response out of the map, and stays on its connection. -/
theorem receive (hr : r < s.readerCount) (hactive : (s.readers r).active = true)
    (f : Response) : Linked (s.receive r f) := by
  have hreceived : Linked { s with received := s.received ++ [f] } :=
    ⟨h.bound, h.current, h.calls, h.active⟩
  simp only [State.receive]
  split
  · exact hreceived.setReader _ hr (fun _ => hactive) (by simp)
  next k _ =>
    have herased := hreceived.erase f.requestId .response
    obtain ⟨-, hreaders, hcount, -⟩ :=
      State.erase_same (s := { s with received := s.received ++ [f] }) f.requestId .response
    refine Linked.setReader (herased.setSame ?_ ?_ ?_) _ (lt_of_lt_of_eq hr hcount.symm)
      (fun _ => ?_) ?_
    · rfl
    · rfl
    · rfl
    · rw [← hactive]
      exact congrArg (fun readers => (readers r).active) hreaders
    · exact fun _ hc => nomatch hc

theorem complete (hr : r < s.readerCount) (hactive : (s.readers r).active = true) :
    Linked (s.complete r) := by
  simp only [State.complete]
  split
  next k f hpc =>
    have hsame : Linked (s.setCall k { (s.calls k).answer f with holder := none }) := by
      refine h.setSame ?_ ?_ ?_ <;> (simp only [PendingCall.answer]; split <;> rfl)
    exact hsame.setReader _ hr (fun _ => hactive) nofun
  · exact h

/-- **Step lemma.** -/
theorem next {a : Action} (he : session.enabled s a) : Linked (session.next s a) := by
  cases a with
  | call =>
    refine ⟨h.bound, h.current, ?_, h.active⟩
    refine Family.forall_add (P := fun k (c : PendingCall) =>
      c.Route s.conn s.isOpen s.connCount s.writer s.Quiet k) h.calls ?_
    exact ⟨nofun, nofun, nofun, fun _ => rfl, nofun, nofun, nofun⟩
  | draw k =>
    obtain ⟨hk, hpc⟩ := he
    have hearly : (s.calls k).pc.early = true := by
      rcases hpc with hpc | hpc <;> simp [hpc, Pc.early]
    have hset := h.setCall (k := k) (c := { s.calls k with
      pc := if s.nextRequestId = 0 ∧ (s.calls k).pc = .entered then .redraw else .drawn
      reqId := s.nextRequestId
      ticket := s.draws })
      ((h.calls k hk).ahead hearly rfl rfl (by split <;> nofun) (by split <;> nofun)
        (by split <;> nofun) (by split <;> nofun))
    exact ⟨hset.bound, hset.current, hset.calls, hset.active⟩
  | lock k =>
    obtain ⟨hk, hpc, hfree⟩ := he
    refine h.move ((h.calls k hk).ahead (by simp [hpc, Pc.early]) rfl rfl (fun _ => rfl) nofun nofun
      nofun) fun j _ hw => ?_
    rw [hfree] at hw
    cases hw
  | check k =>
    obtain ⟨hk, hpc⟩ := he
    have hroute := h.calls k hk
    have hwriter := hroute.mutex (by simp [hpc, Pc.holdsWriter])
    refine h.setCall (hroute.ahead (by simp [hpc, Pc.early]) rfl rfl (fun _ => hwriter) ?_ ?_ ?_)
    all_goals cases hopen : s.isOpen <;> simp
  | connect k ok => exact h.connect he.1 he.2 ok
  | startReader k => exact h.startReader he.1 he.2
  | register k =>
    obtain ⟨hk, hpc⟩ := he
    have hroute := h.calls k hk
    have hsent := hroute.early (by simp [hpc, Pc.early])
    have hwriter := hroute.mutex (by simp [hpc, Pc.holdsWriter])
    have hset := h.setCall (k := k) (c := { s.calls k with
      pc := .registered, since := some s.received.length, enteredOn := s.conn })
      ⟨fun _ => hwriter, nofun, nofun, nofun, fun _ => rfl, by simp [hsent], h.bound⟩
    exact ⟨hset.bound, hset.current, hset.calls, hset.active⟩
  | write k => exact h.write he.1 he.2
  | written k ok =>
    obtain ⟨hk, hpc⟩ := he
    cases ok with
    | true => exact h.leave hk hpc rfl rfl rfl
    | false => exact h.leave hk hpc rfl rfl rfl
  | withdraw k =>
    obtain ⟨hk, hpc⟩ := he
    have herased := h.erase (s.calls k).reqId .sendFailure
    refine herased.setCall
      ((herased.calls k ?_).late (q := .returned .sendFailed) rfl rfl rfl rfl rfl)
    rwa [(State.erase_same _ _).1]
  | wait k =>
    obtain ⟨hk, hpc⟩ := he
    exact h.setCall ((h.calls k hk).late (q := .waiting) rfl rfl rfl rfl rfl)
  | expire k => exact h.setCall ((h.calls k he.1).same rfl rfl rfl)
  | fire k =>
    have herased := h.erase (s.calls k).reqId .timeout
    refine herased.setCall ((herased.calls k ?_).same ?_ ?_ ?_)
    · rw [(State.erase_same _ _).1]
      exact he.1
    all_goals split <;> rfl
  | finish k parses =>
    obtain ⟨hk, hpc⟩ := he
    exact h.setCall ((h.calls k hk).late (q := .returned _) rfl rfl rfl rfl rfl)
  | loop r =>
    refine h.setReader _ he.1 (fun _ => ReaderPc.active_of_stage (by simp [he.2])) fun c hc => ?_
    cases hconn : s.conn with
    | none => simp [hconn] at hc
    | some c' =>
      simp only [hconn] at hc
      split at hc
      · cases hc
      · exact congrArg some (ReaderPc.reading.inj hc)
  | retry r =>
    refine h.setReader _ he.1 (fun _ => ReaderPc.active_of_stage (by simp [he.2])) fun c hc => ?_
    cases hc
  | quit r =>
    refine h.setReader _ he.1 (fun _ => ReaderPc.active_of_stage (by simp [he.2])) fun c hc => ?_
    cases hc
  | receive r f => exact h.receive he.1 (ReaderPc.active_of_stage (by simp [he.2])) f
  | complete r => exact h.complete he.1 (ReaderPc.active_of_stage (by simp [he.2]))
  | clear r =>
    have hcleared := h.setReader .cleared he.1
      (fun _ => ReaderPc.active_of_stage (by simp [he.2])) fun c hc => by cases hc
    exact ⟨hcleared.bound, hcleared.current, hcleared.calls, hcleared.active⟩
  | close r => exact h.close he.1 he.2
  | swap r =>
    have hswapped := h.setSweeping s.pending he.1
    refine hswapped.setCalls fun k => ?_
    show (ite _ _ _ : PendingCall).pc = _ ∧ (ite _ _ _ : PendingCall).sentOn = _ ∧
      (ite _ _ _ : PendingCall).enteredOn = _
    split <;> exact ⟨rfl, rfl, rfl⟩
  | sweepOne r id =>
    simp only [session, State.sweepOne]
    split
    · split
      · exact h
      next k _ =>
        refine Linked.setSweeping (h.setSame ?_ ?_ ?_) _ he.1 <;> (split <;> rfl)
    · exact h

end Linked

variable {s : State}

theorem linked_of_init (h : session.init s) : Linked s := by
  obtain ⟨-, -, -, hcount, -, hconn, hconns, -, hreaders, -⟩ := h
  refine ⟨fun c hc => ?_, ?_, ?_, ?_⟩
  · rw [hconn] at hc
    cases hc
  · rw [hconns]
    exact nofun
  · rw [hcount]
    exact nofun
  · rw [hreaders]
    exact nofun

/-- As long as the channel is not destroyed, a reader reads from its connection, which is open, and
no other reader reads. -/
theorem reading_current {s : State} (h : session.Reach s) {r c : ℕ} (hr : r < s.readerCount)
    (hpc : s.readers r = .reading c) : s.conn = some c ∧ s.isClosed c = false ∧
      ∀ r' < s.readerCount, ∀ c', s.readers r' = .reading c' → r' = r := by
  have hlinked : Linked s := h.invariant (fun _ => linked_of_init) fun _ _ hl he => hl.next he
  obtain ⟨hopen, hread, hunique⟩ := hlinked.active r hr (by rw [hpc]; rfl)
  have hconn := hread c hpc
  refine ⟨hconn, by simpa [State.isOpen, hconn] using hopen, fun r' hr' c' hc' => ?_⟩
  exact hunique r' hr' (by rw [hc']; rfl)

/-- The first connection is lost with a call on it, and a second call connects while the first
reader is sweeping. -/
def reconnected : List Action :=
  [.call, .draw 0, .lock 0, .check 0, .connect 0 true, .startReader 0, .register 0, .write 0,
    .written 0 true, .wait 0, .loop 0, .quit 0, .clear 0, .close 0, .swap 0, .call, .draw 1,
    .lock 1, .check 1, .connect 1 true, .startReader 1, .loop 1]

theorem reading_current_reconnected :
    let s := session.run (.fresh true) reconnected
    (s.readers 0).stage = .sweeping ∧ s.conn = some 1 ∧ s.isClosed 1 = false := by
  intro s
  have hs : session.Reach s :=
    Machine.reachVia_run (.start (session_init_fresh true)) (by decide +kernel)
  obtain ⟨hconn, hopen, -⟩ := reading_current hs (r := 1) (c := 1) (by decide +kernel) rfl
  exact ⟨by decide +kernel, hconn, hopen⟩

/-! ### The sweep -/

/-- No call enters the map on an open connection while a reader that has closed its connection has
still to sweep. -/
def Orderly (s : State) : Action → Prop
  | .register _ => s.isOpen = true → ∀ r < s.readerCount, (s.readers r).stage ≠ .closed
  | _ => True

instance (s : State) (a : Action) : Decidable (Orderly s a) := by
  rcases a <;> (dsimp only [Orderly]; infer_instance)

/-- The call has been entered in the map, and its connection is closed. -/
def PendingCall.Lost (c : PendingCall) (isClosed : ℕ → Bool) : Prop :=
  c.pc.early = false ∧ ∀ x, c.enteredOn = some x → isClosed x = true

variable {a : Action}

theorem isClosed_next {x : ℕ} (hx : x < s.connCount)
    (h : s.isClosed x = true) : (session.next s a).isClosed x = true := by
  cases a with
  | connect k ok =>
    cases ok with
    | true =>
      simp only [session, State.connect, if_true]
      rwa [Function.update_of_ne (Nat.ne_of_lt hx)]
    | false => exact h
  | close r =>
    cases hconn : s.conn with
    | none => simpa only [session, State.close, hconn] using h
    | some c =>
      simp only [session, State.close, hconn]
      by_cases hxc : x = c
      · subst hxc
        rw [Function.update_self]
      · rwa [Function.update_of_ne hxc]
  | startReader k =>
    simp only [session, State.startReader]
    split <;> exact h
  | write k =>
    simp only [session, State.write]
    split <;> exact h
  | withdraw k => exact (congrFun (State.erase_same _ _).2.2.2 x).trans h
  | fire k =>
    exact (congrFun (State.erase_same (s := s) (s.calls k).reqId .timeout).2.2.2 x).trans h
  | receive r f =>
    simp only [session, State.receive]
    split
    · exact h
    · exact (congrFun (State.erase_same (s := { s with received := s.received ++ [f] })
        f.requestId .response).2.2.2 x).trans h
  | complete r =>
    simp only [session, State.complete]
    split <;> exact h
  | sweepOne r id =>
    simp only [session, State.sweepOne]
    split
    · split <;> exact h
    · exact h
  | call | draw | lock | check | register | written | wait | expire | finish | loop | retry | quit
  | clear | swap => exact h

/-- One round of the sweep moves no call; it fails one that the reader has taken over. -/
theorem sweepOne_call (s : State) (r id k : ℕ) :
    ((s.sweepOne r id).calls k).pc = (s.calls k).pc ∧
    ((s.sweepOne r id).calls k).enteredOn = (s.calls k).enteredOn ∧
    (((s.sweepOne r id).calls k).swept = (s.calls k).swept ∨
      ∃ remaining, s.readers r = .sweeping remaining ∧ remaining id = some k) := by
  simp only [State.sweepOne]
  split
  next remaining hpc =>
    split
    · exact ⟨rfl, rfl, .inl rfl⟩
    next j hj =>
      by_cases hkj : k = j
      · subst hkj
        refine ⟨?_, ?_, .inr ⟨remaining, hpc, hj⟩⟩ <;>
          (simp only [State.setReader, State.setCall, Function.update_self]; split <;> rfl)
      · simp only [State.setReader, State.setCall, Function.update_of_ne hkj]
        exact ⟨trivial, trivial, .inl trivial⟩
  · exact ⟨rfl, rfl, .inl rfl⟩

/-- A call that has been entered in the map stays on its connection. -/
theorem stays_next {k : ℕ} (he : session.enabled s a) (hk : k < s.count)
    (hlate : (s.calls k).pc.early = false) : ((session.next s a).calls k).pc.early = false ∧
      ((session.next s a).calls k).enteredOn = (s.calls k).enteredOn := by
  by_cases hregister : a = .register k
  · subst hregister
    simp [he.2, Pc.early] at hlate
  by_cases hsweep : ∃ r id, a = .sweepOne r id
  · obtain ⟨r, id, rfl⟩ := hsweep
    obtain ⟨hpc, hentered, -⟩ := sweepOne_call s r id k
    exact ⟨(congrArg Pc.early hpc).trans hlate, hentered⟩
  · have hkept := State.kept_next he hk hregister fun r id hrid => hsweep ⟨r, id, hrid⟩
    exact ⟨hkept.late hlate, hkept.enteredOn⟩

theorem Linked.lost_next (h : Linked s) {k : ℕ}
    (he : session.enabled s a) (hk : k < s.count) (hlost : (s.calls k).Lost s.isClosed) :
    ((session.next s a).calls k).Lost (session.next s a).isClosed := by
  obtain ⟨hlate, hentered⟩ := stays_next he hk hlost.1
  refine ⟨hlate, fun x hx => ?_⟩
  rw [hentered] at hx
  exact isClosed_next ((h.calls k hk).known x hx) (hlost.2 x hx)

/-- What step `a` can make of reader `r`. -/
inductive ReaderStep (s : State) (a : Action) (r : ℕ) : ReaderPc → Prop where
  | same : r < s.readerCount → ReaderStep s a r (s.readers r)
  | loops {pc : ReaderPc} : pc.active = true → ReaderStep s a r pc
  | closes : a = .close r → ReaderStep s a r .closed
  | swaps : a = .swap r → ReaderStep s a r (.sweeping s.pending)
  | sweeps {id : ℕ} {remaining : ℕ → Option ℕ} : a = .sweepOne r id →
      s.readers r = .sweeping remaining →
      ReaderStep s a r (.sweeping (Function.update remaining id none))

theorem ReaderStep.setReader {s t : State} {r r₀ : ℕ} {pc : ReaderPc}
    (hr : r < s.readerCount) (ht : t.readers = s.readers) (h : ReaderStep s a r₀ pc) :
    ReaderStep s a r ((t.setReader r₀ pc).readers r) := by
  simp only [State.setReader]
  by_cases hrr : r = r₀
  · subst hrr
    rw [Function.update_self]
    exact h
  · rw [Function.update_of_ne hrr, ht]
    exact .same hr

theorem reader_next {r : ℕ} (he : session.enabled s a) (hr : r < (session.next s a).readerCount) :
    ReaderStep s a r ((session.next s a).readers r) := by
  cases a with
  | startReader k =>
    simp only [session, State.startReader] at hr ⊢
    by_cases hrun : s.readerRunning = true
    · rw [if_pos hrun] at hr ⊢
      exact .same hr
    · rw [if_neg hrun] at hr ⊢
      by_cases hnew : r = s.readerCount
      · subst hnew
        simp only [Function.update_self]
        exact .loops rfl
      · simp only [Function.update_of_ne hnew]
        have hr' : r < s.readerCount + 1 := hr
        exact .same (by omega)
  | loop r₀ =>
    refine .setReader hr rfl (.loops ?_)
    cases s.conn with
    | none => rfl
    | some c =>
      dsimp only
      split <;> rfl
  | retry r₀ => exact .setReader hr rfl (.loops rfl)
  | quit r₀ => exact .setReader hr rfl (.loops rfl)
  | receive r₀ f =>
    simp only [session, State.receive] at hr ⊢
    obtain ⟨-, hreaders, hcount, -⟩ :=
      State.erase_same (s := { s with received := s.received ++ [f] }) f.requestId .response
    cases hk : s.pending f.requestId with
    | none =>
      simp only [hk] at hr ⊢
      exact .setReader hr rfl (.loops rfl)
    | some k =>
      simp only [hk] at hr ⊢
      exact .setReader (lt_of_lt_of_eq hr hcount) hreaders (.loops rfl)
  | complete r₀ =>
    obtain ⟨hr₀, hstage⟩ := he
    cases hpc : s.readers r₀ with
    | holding k f =>
      simp only [session, State.complete, hpc] at hr ⊢
      exact .setReader hr rfl (.loops rfl)
    | top | reading | leaving | cleared | closed | sweeping => simp [hpc, ReaderPc.stage] at hstage
  | clear r₀ => exact .setReader hr rfl (.loops rfl)
  | close r₀ => exact .setReader hr rfl (.closes rfl)
  | swap r₀ => exact .setReader hr rfl (.swaps rfl)
  | sweepOne r₀ id =>
    simp only [session, State.sweepOne] at hr ⊢
    cases hpc : s.readers r₀ with
    | sweeping remaining =>
      simp only [hpc] at hr ⊢
      cases hid : remaining id with
      | none =>
        simp only [hid] at hr ⊢
        exact .same hr
      | some k =>
        simp only [hid] at hr ⊢
        exact .setReader hr rfl (.sweeps rfl hpc)
    | top | reading | leaving | cleared | closed | holding =>
      simp only [hpc] at hr ⊢
      exact .same hr
  | withdraw k =>
    obtain ⟨-, hreaders, hcount, -⟩ := State.erase_same (s := s) (s.calls k).reqId .sendFailure
    exact (congrFun hreaders r).symm ▸ .same (lt_of_lt_of_eq hr hcount)
  | fire k =>
    obtain ⟨-, hreaders, hcount, -⟩ := State.erase_same (s := s) (s.calls k).reqId .timeout
    exact (congrFun hreaders r).symm ▸ .same (lt_of_lt_of_eq hr hcount)
  | connect k ok => cases ok <;> exact .same hr
  | write k =>
    simp only [session, State.write] at hr ⊢
    by_cases hopen : s.isOpen = true
    · rw [if_pos hopen] at hr ⊢
      exact .same hr
    · rw [if_neg hopen] at hr ⊢
      exact .same hr
  | call | draw | lock | check | register | written | wait | expire | finish => exact .same hr

theorem close_isOpen (s : State) (r : ℕ) : (s.close r).isOpen = false := by
  cases hconn : s.conn <;> simp [State.close, State.isOpen, State.setReader, hconn]

/-- What is swept, or is going to be, belongs to a closed connection. -/
structure Settled (s : State) : Prop where
  linked : Linked s
  mapped : ∀ id k, s.pending id = some k → k < s.count ∧ (s.calls k).pc.early = false
  pending : ∀ r < s.readerCount, s.readers r = .closed → ∀ id k, s.pending id = some k →
    (s.calls k).Lost s.isClosed
  remaining : ∀ r < s.readerCount, ∀ remaining, s.readers r = .sweeping remaining →
    ∀ id k, remaining id = some k → k < s.count ∧ (s.calls k).Lost s.isClosed
  swept : ∀ k < s.count, (s.calls k).swept = true → (s.calls k).Lost s.isClosed

theorem count_next (s : State) (ha : a ≠ .call) : (session.next s a).count = s.count := by
  cases a with
  | call => exact absurd rfl ha
  | connect k ok => cases ok <;> exact rfl
  | startReader k =>
    simp only [session, State.startReader]
    split <;> exact rfl
  | write k =>
    simp only [session, State.write]
    split <;> exact rfl
  | withdraw k => exact (State.erase_same (s := s) _ .sendFailure).1
  | fire k => exact (State.erase_same (s := s) (s.calls k).reqId .timeout).1
  | receive r f =>
    simp only [session, State.receive]
    split
    · exact rfl
    · exact (State.erase_same (s := { s with received := s.received ++ [f] }) f.requestId
        .response).1
  | complete r =>
    simp only [session, State.complete]
    split <;> exact rfl
  | sweepOne r id =>
    simp only [session, State.sweepOne]
    split
    · split <;> exact rfl
    · exact rfl
  | draw | lock | check | register | written | wait | expire | finish | loop | retry | quit | clear
  | close | swap => exact rfl

theorem count_le_next (s : State) (a : Action) : s.count ≤ (session.next s a).count := by
  by_cases ha : a = .call
  · subst ha
    exact Nat.le_succ _
  · exact (count_next s ha).ge

namespace Settled

variable {s : State} {a : Action}

theorem mapped_next (h : Settled s) (he : session.enabled s a) {id k : ℕ}
    (hk : (session.next s a).pending id = some k) :
    k < (session.next s a).count ∧ ((session.next s a).calls k).pc.early = false := by
  rcases State.pending_next hk with hold | rfl
  · obtain ⟨hlt, hlate⟩ := h.mapped id k hold
    exact ⟨lt_of_lt_of_le hlt (count_le_next s a), (stays_next he hlt hlate).1⟩
  · refine ⟨he.1, ?_⟩
    simp [session, State.register, State.setCall, Pc.early]

/-- What is in the map when a reader has closed its connection. -/
theorem pending_next (h : Settled s) (he : session.enabled s a) (hok : Orderly s a) {r : ℕ}
    (hr : r < (session.next s a).readerCount) (hpc : (session.next s a).readers r = .closed)
    {id k : ℕ} (hk : (session.next s a).pending id = some k) :
    ((session.next s a).calls k).Lost (session.next s a).isClosed := by
  have hstep := reader_next he hr
  generalize hnew : (session.next s a).readers r = pc at hstep
  rw [hpc] at hnew
  cases hstep with
  | same hr' =>
    rcases State.pending_next hk with hold | rfl
    · exact h.linked.lost_next he (h.mapped id k hold).1 (h.pending r hr' hnew.symm id k hold)
    · -- the call is entered while `r` has still to sweep: the connection is closed
      refine ⟨by simp [session, State.register, State.setCall, Pc.early], fun x hx => ?_⟩
      simp only [session, State.register, State.setCall, Function.update_self] at hx ⊢
      by_contra hopen
      exact hok (by simpa [State.isOpen, hx] using hopen) r hr' (by rw [← hnew]; rfl)
  | loops hactive =>
    rw [← hnew] at hactive
    cases hactive
  | closes hclose =>
    subst hclose
    obtain ⟨-, hlate⟩ := h.mapped_next he hk
    refine ⟨hlate, fun x hx => ?_⟩
    have hlinked := h.linked.next he
    by_contra hopen
    have hopen' : (session.next s (.close r)).isClosed x = false := by simpa using hopen
    obtain ⟨hlt, -⟩ := h.mapped_next he hk
    have hconn := hlinked.current x ((hlinked.calls k hlt).known x hx) hopen'
    have hshut : (session.next s (.close r)).isOpen = false := close_isOpen s r
    simp [State.isOpen, hconn, hopen'] at hshut
  | swaps | sweeps => cases hnew

theorem remaining_next (h : Settled s) (he : session.enabled s a) {r : ℕ}
    (hr : r < (session.next s a).readerCount) {remaining : ℕ → Option ℕ}
    (hpc : (session.next s a).readers r = .sweeping remaining) {id k : ℕ}
    (hk : remaining id = some k) : k < (session.next s a).count ∧
      ((session.next s a).calls k).Lost (session.next s a).isClosed := by
  have hkeep : k < s.count ∧ (s.calls k).Lost s.isClosed → k < (session.next s a).count ∧
      ((session.next s a).calls k).Lost (session.next s a).isClosed := fun hold =>
    ⟨lt_of_lt_of_le hold.1 (count_le_next s a), h.linked.lost_next he hold.1 hold.2⟩
  apply hkeep
  have hstep := reader_next he hr
  generalize hnew : (session.next s a).readers r = pc at hstep
  rw [hpc] at hnew
  cases hstep with
  | same hr' => exact h.remaining r hr' remaining hnew.symm id k hk
  | loops hactive =>
    rw [← hnew] at hactive
    cases hactive
  | swaps hswap =>
    subst hswap
    obtain rfl := ReaderPc.sweeping.inj hnew
    have hclosed : s.readers r = .closed := by
      have hstage : (s.readers r).stage = .closed := he.2
      cases hreader : s.readers r <;> simp [hreader, ReaderPc.stage] at hstage
      rfl
    exact ⟨(h.mapped id k hk).1, h.pending r he.1 hclosed id k hk⟩
  | @sweeps id' before hsweep hbefore =>
    subst hsweep
    obtain rfl := ReaderPc.sweeping.inj hnew
    have hid : id ≠ id' := by
      rintro rfl
      simp at hk
    rw [Function.update_of_ne hid] at hk
    exact h.remaining r he.1 before hbefore id k hk
  | closes => cases hnew

theorem swept_next (h : Settled s) (he : session.enabled s a) {k : ℕ}
    (hk : k < (session.next s a).count) (hswept : ((session.next s a).calls k).swept = true) :
    ((session.next s a).calls k).Lost (session.next s a).isClosed := by
  have hold : k < s.count ∧ (s.calls k).Lost s.isClosed := by
    by_cases hcall : a = .call
    · subst hcall
      have hlt : k < s.count := by
        by_contra hge
        have hlt : k < s.count + 1 := hk
        obtain rfl : k = s.count := by omega
        simp [session, PendingCall.new] at hswept
      have hkept := State.kept_next he hlt (by simp) (by simp)
      exact ⟨hlt, h.swept k hlt (hkept.swept.symm.trans hswept)⟩
    rw [count_next s hcall] at hk
    refine ⟨hk, ?_⟩
    by_cases hsweep : ∃ r id, a = .sweepOne r id
    · obtain ⟨r, id, rfl⟩ := hsweep
      obtain ⟨-, -, hsame | ⟨remaining, hpc, hid⟩⟩ := sweepOne_call s r id k
      · exact h.swept k hk (hsame.symm.trans hswept)
      · exact (h.remaining r he.1 remaining hpc id k hid).2
    by_cases hregister : a = .register k
    · subst hregister
      refine h.swept k hk ?_
      simpa [session, State.register, State.setCall] using hswept
    · have hkept := State.kept_next he hk hregister fun r id hrid => hsweep ⟨r, id, hrid⟩
      exact h.swept k hk (hkept.swept.symm.trans hswept)
  exact h.linked.lost_next he hold.1 hold.2

theorem next (h : Settled s) (he : session.enabled s a) (hok : Orderly s a) :
    Settled (session.next s a) where
  linked := h.linked.next he
  mapped _ _ := h.mapped_next he
  pending _ hr hpc _ _ := h.pending_next he hok hr hpc
  remaining _ hr _ hpc _ _ := h.remaining_next he hr hpc
  swept _ := h.swept_next he

end Settled

theorem settled_of_init (h : session.init s) : Settled s := by
  have hlinked := linked_of_init h
  obtain ⟨-, -, hpending, hcount, -, -, -, -, hreaders, -⟩ := h
  refine ⟨hlinked, fun id k hk => ?_, ?_, ?_, ?_⟩
  · rw [hpending] at hk
    cases hk
  · rw [hreaders]
    exact nofun
  · rw [hreaders]
    exact nofun
  · rw [hcount]
    exact nofun

/-- **A call shares the fate of its own connection.**  In every orderly run, a call that the end of
a `ReaderLoop` has failed was written, if at all, on a connection that is closed. -/
theorem own_connection_only {s : State} (h : session.ReachVia Orderly s) {k : ℕ}
    (hk : k < s.count) (hswept : (s.calls k).swept = true) :
    ∀ c, (s.calls k).sentOn = some c → s.isClosed c = true := by
  have hsettled : Settled s :=
    h.invariant (fun _ => settled_of_init) fun _ _ hs he hok => hs.next he hok
  intro c hc
  exact (hsettled.swept k hk hswept).2 c ((hsettled.linked.calls k hk).sent c hc)

/-- A call waits for its response; its reader loses the connection and closes it. -/
def lostConnection : List Action :=
  [.call, .draw 0, .lock 0, .check 0, .connect 0 true, .startReader 0, .register 0, .write 0,
    .written 0 true, .wait 0, .loop 0, .quit 0, .clear 0, .close 0]

theorem own_connection_only_lost :
    let s := session.run (.fresh true) (lostConnection ++ [.swap 0, .sweepOne 0 1])
    (s.calls 0).swept = true ∧ (s.calls 0).error = "RPC connection closed" ∧
      ∀ c, (s.calls 0).sentOn = some c → s.isClosed c = true := by
  intro s
  have hs : session.ReachVia Orderly s :=
    Machine.reachVia_run (.start (session_init_fresh true)) (by decide +kernel)
  exact ⟨by decide +kernel, by decide +kernel,
    own_connection_only hs (by decide +kernel) (by decide +kernel)⟩

/-- The second call finds the connection closed, connects anew and sends its request before the
old reader sweeps: it fails although its own connection is open. -/
theorem new_call_swept :
    let s := session.run (.fresh true) (lostConnection ++
      [.call, .draw 1, .lock 1, .check 1, .connect 1 true, .startReader 1, .register 1, .write 1,
        .written 1 true, .wait 1, .loop 1, .swap 0, .sweepOne 0 2])
    session.Reach s ∧ (s.calls 1).swept = true ∧ (s.calls 1).failed = true ∧
      (s.calls 1).error = "RPC connection closed" ∧ (s.calls 1).sentOn = some 1 ∧
      s.conn = some 1 ∧ s.isClosed 1 = false := by
  intro s
  have hs : session.Reach s :=
    Machine.reachVia_run (.start (session_init_fresh true)) (by decide +kernel)
  exact ⟨hs, by decide +kernel⟩

end PulsarRuntime.Rpc.Session
