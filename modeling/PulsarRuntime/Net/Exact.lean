import PulsarRuntime.Net.Transfer

/-!
# What the transfers move

Two invariants of a call, each kept by every step of it: `Faithful` says that the bytes of the log
are the front of the buffer and that no system call went past its end; `Controlled` says where the
call can be, and with which value it returns.  The flags are an invariant of the connection: a flag
is up exactly while one call holds it.
-/

namespace PulsarRuntime.Net.Transfers

open Family

/-! ### The bytes of one call -/

namespace Transfer

variable {t : Transfer}

structure Faithful (t : Transfer) : Prop where
  moved : t.moved = t.transferred.length
  bound : t.moved ≤ t.size
  written : t.kind.event = .write →
    t.buffer = t.initial ∧ t.transferred = t.initial.take t.moved
  stored : t.kind.event = .read → t.buffer = t.transferred ++ t.initial.drop t.moved
  requests : ∀ r ∈ t.log, r.offset + r.length = t.size ∧ r.bytes.length ≤ r.length

theorem transferred_request (t : Transfer) (bytes : List UInt8) :
    (t.request bytes).transferred = t.transferred ++ bytes := by
  simp [transferred, request]

theorem requests_append (h : t.Faithful) {bytes : List UInt8}
    (hlen : bytes.length ≤ t.size - t.moved) :
    ∀ r ∈ (t.request bytes).log, r.offset + r.length = t.size ∧ r.bytes.length ≤ r.length := by
  have hbound := h.bound
  intro r hr
  rcases List.mem_append.mp hr with hr | hr
  · exact h.requests r hr
  · obtain rfl := List.mem_singleton.mp hr
    exact ⟨Nat.add_sub_cancel' hbound, hlen⟩

/-- A system call that moved nothing. -/
theorem Faithful.request_nil (h : t.Faithful) : (t.request []).Faithful := by
  have hsame : (t.request []).transferred = t.transferred := by
    rw [transferred_request, List.append_nil]
  refine ⟨?_, h.bound, ?_, ?_, requests_append h (Nat.zero_le _)⟩ <;> rw [hsame]
  · exact h.moved
  · exact h.written
  · exact h.stored

/-- A `recv` of some bytes. -/
theorem Faithful.store (h : t.Faithful) (hkind : t.kind.event = .read) {bytes : List UInt8}
    (hlen : bytes.length ≤ t.size - t.moved) : ((t.request bytes).store bytes).Faithful := by
  have hmore : ((t.request bytes).store bytes).transferred = t.transferred ++ bytes :=
    transferred_request t bytes
  have hbound := h.bound
  refine ⟨?_, ?_, ?_, ?_, requests_append h hlen⟩
  · show t.moved + bytes.length = _
    rw [hmore, List.length_append, h.moved]
  · show t.moved + bytes.length ≤ t.size
    omega
  · intro hwrite
    exact absurd (hkind.symm.trans hwrite) (by decide)
  · intro _
    show t.buffer.take t.moved ++ bytes ++ t.buffer.drop (t.moved + bytes.length) =
      _ ++ t.initial.drop (t.moved + bytes.length)
    -- the bytes behind the new ones are those of the buffer at the call
    have hrest : t.buffer.drop (t.moved + bytes.length) =
        t.initial.drop (t.moved + bytes.length) := by
      rw [h.stored hkind, List.drop_append, ← h.moved, Nat.add_sub_cancel_left, List.drop_drop,
        List.drop_of_length_le (by rw [← h.moved]; exact Nat.le_add_right _ _), List.nil_append]
    have hfront : t.buffer.take t.moved = t.transferred := by
      rw [h.stored hkind, h.moved, List.take_left]
    rw [hmore, hrest, hfront]

/-- A `send` that took some bytes. -/
theorem Faithful.sent (h : t.Faithful) (hkind : t.kind.event = .write) {count : ℕ}
    (hle : count ≤ t.size - t.moved) {t' : Transfer}
    (ht' : t' = { t.request ((t.buffer.drop t.moved).take count) with
      moved := t.moved + count }) : t'.Faithful := by
  subst ht'
  obtain ⟨hbuffer, hfront⟩ := h.written hkind
  have hbound := h.bound
  have hlen : ((t.buffer.drop t.moved).take count).length = count := by
    rw [hbuffer, List.length_take, List.length_drop]
    exact Nat.min_eq_left hle
  have hmore := transferred_request t ((t.buffer.drop t.moved).take count)
  refine ⟨?_, ?_, ?_, ?_, requests_append h (hlen.trans_le hle)⟩
  · show t.moved + count = (t.request _).transferred.length
    rw [hmore, List.length_append, hlen, ← h.moved]
  · show t.moved + count ≤ t.size
    omega
  · intro _
    refine ⟨hbuffer, ?_⟩
    show (t.request _).transferred = t.initial.take (t.moved + count)
    rw [hmore, hfront, hbuffer, List.take_add]
  · intro hread
    exact absurd (hkind.symm.trans hread) (by decide)

/-- The other fields do not matter. -/
theorem Faithful.control (h : t.Faithful) (result errno : ℤ) (admitted : Bool) (pc : Pc) :
    Faithful { t with result := result, errno := errno, admitted := admitted, pc := pc } :=
  ⟨h.moved, h.bound, h.written, h.stored, h.requests⟩

/-! ### The way of one call -/

structure Controlled (t : Transfer) : Prop where
  inside : t.pc = .trying ∨ t.pc = .waiting → t.moved < t.size
  admitted : t.pc.active = true → t.admitted = true
  refused : t.admitted = false →
    t.log = [] ∧ (t.pc = .called ∨ t.pc = .returned t.kind.refusal)
  returned : t.admitted = true → t.pc ≠ .called ∧ ∀ v, t.pc = .returned v → v = t.value

/-- A call that holds its flag. -/
theorem Controlled.of_active (ha : t.admitted = true) (hpc : t.pc.active = true)
    (hin : t.pc = .leaving ∨ t.moved < t.size) : t.Controlled := by
  refine ⟨fun h => ?_, fun _ => ha, fun hr => ?_, fun _ => ⟨fun h => ?_, fun v h => ?_⟩⟩
  · refine hin.resolve_left fun hleave => ?_
    rw [hleave] at h
    exact h.elim (fun h => by cases h) fun h => by cases h
  · exact absurd (ha.symm.trans hr) (by decide)
  · exact absurd hpc (by rw [h]; decide)
  · exact absurd hpc (by rw [h]; exact Bool.false_ne_true)

/-- A call that does not hold its flag. -/
theorem Controlled.of_idle (hpc : t.pc.active = false)
    (hrefused : t.admitted = false →
      t.log = [] ∧ (t.pc = .called ∨ t.pc = .returned t.kind.refusal))
    (hreturned : t.admitted = true → t.pc ≠ .called ∧ ∀ v, t.pc = .returned v → v = t.value) :
    t.Controlled := by
  have hidle : t.pc.active ≠ true := Bool.eq_false_iff.mp hpc
  refine ⟨fun h => absurd ?_ hidle, fun h => absurd h hidle, hrefused, hreturned⟩
  rcases h with h | h <;> rw [h] <;> rfl

/-- In its loop a call holds its flag and is not done. -/
theorem Controlled.looping (h : t.Controlled) (hpc : t.pc = .trying ∨ t.pc = .waiting) :
    t.pc.active = true ∧ t.admitted = true ∧ t.moved < t.size := by
  have hactive : t.pc.active = true := by
    rcases hpc with hpc | hpc <;> rw [hpc] <;> rfl
  exact ⟨hactive, h.admitted hactive, h.inside hpc⟩

theorem Controlled.not_admitted (h : t.Controlled) (hpc : t.pc = .called) : t.admitted = false := by
  rw [Bool.eq_false_iff]
  exact fun ha => (h.returned ha).1 hpc

/-- A call of this kind that holds its flag, as it should be. -/
structure Inside (kind : Kind) (t : Transfer) : Prop where
  kind_eq : t.kind = kind
  faithful : t.Faithful
  controlled : t.Controlled
  active : t.pc.active = true

/-- A call goes on inside, or to the end of its loop. -/
theorem Inside.control (h : t.Faithful) (ha : t.admitted = true) (result errno : ℤ) (pc : Pc)
    (hpc : pc.active = true) (hin : pc = .leaving ∨ t.moved < t.size) :
    Inside t.kind { t with result := result, errno := errno, pc := pc } :=
  ⟨rfl, h.control result errno t.admitted pc, .of_active ha hpc hin, hpc⟩

theorem Inside.fail (h : t.Faithful) (ha : t.admitted = true) (errno : ℤ) :
    Inside t.kind (t.fail errno) :=
  .control h ha (-1) errno .leaving rfl (.inl rfl)

/-- Back to the test of the loop. -/
theorem Inside.head (h : t.Faithful) (ha : t.admitted = true) : Inside t.kind t.head := by
  apply Inside.control h ha t.result t.errno
  · split <;> rfl
  · by_cases hlt : t.moved < t.size
    · exact .inr hlt
    · exact .inl (if_neg hlt)

theorem Inside.recv (h : t.Faithful) (hc : t.Controlled) (hpc : t.pc = .trying)
    (hkind : t.kind.event = .read) {o : Outcome} (ho : t.Answers o) :
    Inside t.kind (t.recv o) := by
  obtain ⟨hactive, ha, hlt⟩ := hc.looping (.inl hpc)
  have hnil := h.request_nil
  cases o with
  | received bytes =>
    have hstored := h.store hkind ho.2.2
    simp only [Transfer.recv]
    split
    · exact Inside.control hstored ha bytes.length t.errno .leaving rfl (.inl rfl)
    · exact Inside.head hstored ha
  | zero =>
    simp only [Transfer.recv]
    split
    · exact Inside.control hnil ha 0 t.errno .leaving rfl (.inl rfl)
    · exact Inside.control hnil ha 0 ECONNRESET .leaving rfl (.inl rfl)
  | interrupted => exact Inside.control hnil ha t.result t.errno t.pc hactive (.inr hlt)
  | again => exact Inside.control hnil ha t.result t.errno .waiting rfl (.inr hlt)
  | error e => exact Inside.fail hnil ha e
  | sent count => exact absurd (hkind.symm.trans ho.1) (by decide)

theorem Inside.send (h : t.Faithful) (hc : t.Controlled) (hpc : t.pc = .trying)
    (hkind : t.kind.event = .write) {o : Outcome} (ho : t.Answers o) :
    Inside t.kind (t.send o) := by
  obtain ⟨hactive, ha, hlt⟩ := hc.looping (.inl hpc)
  have hnil := h.request_nil
  cases o with
  | sent count => exact Inside.head (h.sent hkind ho.2.2 rfl) ha
  | zero => exact Inside.control hnil ha t.result EPIPE .leaving rfl (.inl rfl)
  | interrupted => exact Inside.control hnil ha t.result t.errno t.pc hactive (.inr hlt)
  | again => exact Inside.control hnil ha t.result t.errno .waiting rfl (.inr hlt)
  | error e => exact Inside.fail hnil ha e
  | received bytes => exact absurd (hkind.symm.trans ho.1) (by decide)

end Transfer

/-! ### The flags -/

namespace Connection

variable {s s' : Connection} {c d : ℕ} {e : Event} {t : Transfer}

/-- Call `c` holds flag `e`. -/
def Holds (s : Connection) (c : ℕ) (e : Event) : Prop :=
  c < s.count ∧ (s.calls c).pc.active = true ∧ (s.calls c).kind.event = e

/-- A flag is up exactly while one call holds it. -/
def Flag (s : Connection) (e : Event) : Prop :=
  (s.busy e = true ∧ ∃ c, ∀ d, s.Holds d e ↔ d = c) ∨ (s.busy e = false ∧ ∀ d, ¬s.Holds d e)

structure Inv (s : Connection) : Prop where
  faithful : ∀ c < s.count, (s.calls c).Faithful
  controlled : ∀ c < s.count, (s.calls c).Controlled
  flag : ∀ e, s.Flag e

theorem Flag.congr (h : s.Flag e) (hbusy : s'.busy e = s.busy e)
    (hholds : ∀ d, s'.Holds d e ↔ s.Holds d e) : s'.Flag e := by
  rcases h with ⟨hb, c, hc⟩ | ⟨hb, hnone⟩
  · exact .inl ⟨hbusy.trans hb, c, fun d => (hholds d).trans (hc d)⟩
  · exact .inr ⟨hbusy.trans hb, fun d hd => hnone d ((hholds d).mp hd)⟩

theorem holds_setCall_ne (s : Connection) (t : Transfer) (h : d ≠ c) :
    (s.setCall c t).Holds d e ↔ s.Holds d e := by
  have hcall : (s.setCall c t).calls d = s.calls d := Function.update_of_ne h ..
  unfold Holds
  rw [hcall]
  exact Iff.rfl

theorem holds_setCall_self (s : Connection) (t : Transfer) (hc : c < s.count) :
    (s.setCall c t).Holds c e ↔ t.pc.active = true ∧ t.kind.event = e := by
  have hcall : (s.setCall c t).calls c = t := Function.update_self ..
  unfold Holds
  rw [hcall]
  exact ⟨fun h => h.2, fun h => ⟨hc, h⟩⟩

/-- A call goes on, and holds what it held. -/
theorem Inv.setCall (h : Inv s) (hc : c < s.count) (hf : t.Faithful) (ht : t.Controlled)
    (hactive : t.pc.active = (s.calls c).pc.active) (hkind : t.kind = (s.calls c).kind) :
    Inv (s.setCall c t) := by
  refine ⟨forall_update (P := fun _ t => Transfer.Faithful t) h.faithful hf,
    forall_update (P := fun _ t => Transfer.Controlled t) h.controlled ht, fun e => ?_⟩
  have hsame : ∀ d, (s.setCall c t).Holds d e ↔ s.Holds d e := by
    intro d
    by_cases hd : d = c
    · subst hd
      rw [holds_setCall_self s t hc, hactive, hkind]
      exact ⟨fun hh => ⟨hc, hh⟩, fun hh => hh.2⟩
    · exact holds_setCall_ne s t hd
  exact (h.flag e).congr rfl hsame

theorem Inv.inside (h : Inv s) (hc : c < s.count) (hactive : (s.calls c).pc.active = true)
    (ht : Transfer.Inside (s.calls c).kind t) : Inv (s.setCall c t) :=
  h.setCall hc ht.faithful ht.controlled (ht.active.trans hactive.symm) ht.kind_eq

theorem Inv.call (h : Inv s) (kind : Kind) (buffer : List UInt8) : Inv (s.call kind buffer) := by
  refine ⟨forall_add (P := fun _ t => Transfer.Faithful t) h.faithful ?_,
    forall_add (P := fun _ t => Transfer.Controlled t) h.controlled ?_, fun e => ?_⟩
  · exact ⟨rfl, Nat.zero_le _, fun _ => ⟨rfl, rfl⟩, fun _ => rfl, fun r hr => by cases hr⟩
  · exact .of_idle rfl (fun _ => ⟨rfl, .inl rfl⟩) fun ha => absurd ha Bool.false_ne_true
  · have hsame : ∀ d, (s.call kind buffer).Holds d e ↔ s.Holds d e := by
      intro d
      by_cases hd : d = s.count
      · subst hd
        have hnew : (s.call kind buffer).calls s.count =
            ⟨kind, buffer, buffer, 0, 0, 0, false, [], .called⟩ := Function.update_self ..
        constructor
        · exact fun hh => absurd hh.2.1 (by rw [hnew]; exact Bool.false_ne_true)
        · exact fun hh => absurd hh.1 (Nat.lt_irrefl _)
      · have hold : (s.call kind buffer).calls d = s.calls d := Function.update_of_ne hd ..
        have hlt : d < (s.call kind buffer).count ↔ d < s.count :=
          ⟨fun hlt => Nat.lt_of_le_of_ne (Nat.le_of_lt_succ hlt) hd, Nat.lt_succ_of_lt⟩
        unfold Holds
        rw [hold, hlt]
    exact (h.flag e).congr rfl hsame

/-- The flag is up: the call is refused. -/
theorem Inv.refuse (h : Inv s) (hc : c < s.count) (hpc : (s.calls c).pc = .called) :
    Inv (s.setCall c { s.calls c with
      errno := EBUSY, pc := .returned (s.calls c).kind.refusal }) := by
  have hcontrolled := h.controlled c hc
  have hnot := hcontrolled.not_admitted hpc
  apply h.setCall hc
  · exact (h.faithful c hc).control _ _ _ _
  · exact .of_idle rfl (fun _ => ⟨(hcontrolled.refused hnot).1, .inr rfl⟩)
      fun ha => absurd (hnot.symm.trans ha) Bool.false_ne_true
  · rw [hpc]
    rfl
  · rfl

/-- Call `c` moves its flag; the other flag does not notice. -/
theorem Flag.other (h : s.Flag e) (hc : c < s.count) (hkind : t.kind = (s.calls c).kind)
    (hne : e ≠ (s.calls c).kind.event) (b : Bool) :
    Flag { s.setCall c t with busy := Function.update s.busy (s.calls c).kind.event b } e := by
  have hsame : ∀ d, (s.setCall c t).Holds d e ↔ s.Holds d e := by
    intro d
    by_cases hd : d = c
    · subst hd
      rw [holds_setCall_self s t hc, hkind]
      exact ⟨fun hh => absurd hh.2.symm hne, fun hh => absurd hh.2.2.symm hne⟩
    · exact holds_setCall_ne s t hd
  exact h.congr (Function.update_of_ne hne ..) hsame

/-- The flag is taken. -/
theorem Inv.admit (h : Inv s) (hc : c < s.count)
    (hfree : s.busy (s.calls c).kind.event = false) :
    Inv { s.setCall c { s.calls c with admitted := true }.head with
      busy := Function.update s.busy (s.calls c).kind.event true } := by
  have hin : Transfer.Inside (s.calls c).kind { s.calls c with admitted := true }.head :=
    Transfer.Inside.head (t := { s.calls c with admitted := true })
      ((h.faithful c hc).control _ _ _ _) rfl
  refine ⟨forall_update (P := fun _ t => Transfer.Faithful t) h.faithful hin.faithful,
    forall_update (P := fun _ t => Transfer.Controlled t) h.controlled hin.controlled,
    fun e => ?_⟩
  by_cases he : e = (s.calls c).kind.event
  · subst he
    refine .inl ⟨Function.update_self .., c, fun d => ?_⟩
    by_cases hd : d = c
    · subst hd
      exact iff_of_true ((holds_setCall_self s _ hc).mpr ⟨hin.active, rfl⟩) rfl
    · refine iff_of_false (fun hh => ?_) hd
      have hh := (holds_setCall_ne s _ hd).mp hh
      rcases h.flag (s.calls c).kind.event with ⟨hb, -⟩ | ⟨-, hnone⟩
      · exact absurd (hfree.symm.trans hb) Bool.false_ne_true
      · exact hnone d hh
  · exact (h.flag e).other hc hin.kind_eq he true

theorem take_of_busy (hbusy : s.busy (s.calls c).kind.event = true) :
    s.take c = s.setCall c { s.calls c with
      errno := EBUSY, pc := .returned (s.calls c).kind.refusal } := if_pos hbusy

theorem Inv.take (h : Inv s) (hc : c < s.count) (hpc : (s.calls c).pc = .called) :
    Inv (s.take c) := by
  unfold Connection.take
  dsimp only
  split
  · exact h.refuse hc hpc
  · exact h.admit hc (Bool.eq_false_iff.mpr (by assumption))

/-- The flag is cleared. -/
theorem Inv.leave (h : Inv s) (hc : c < s.count) (hpc : (s.calls c).pc = .leaving) :
    Inv (s.leave c) := by
  have hheld : s.Holds c (s.calls c).kind.event := by
    refine ⟨hc, ?_, rfl⟩
    rw [hpc]
    rfl
  have hadmitted := (h.controlled c hc).admitted hheld.2.1
  refine ⟨forall_update (P := fun _ t => Transfer.Faithful t) h.faithful ?_,
    forall_update (P := fun _ t => Transfer.Controlled t) h.controlled ?_, fun e => ?_⟩
  · exact (h.faithful c hc).control _ _ _ _
  · refine .of_idle rfl (fun hr => ?_) fun _ => ⟨fun hp => ?_, fun v hv => ?_⟩
    · exact absurd (hr.symm.trans hadmitted) Bool.false_ne_true
    · cases hp
    · exact (Pc.returned.inj hv).symm
  · by_cases he : e = (s.calls c).kind.event
    · subst he
      refine .inr ⟨Function.update_self .., fun d hd => ?_⟩
      by_cases hdc : d = c
      · subst hdc
        exact absurd ((holds_setCall_self s _ hc).mp hd).1 Bool.false_ne_true
      · -- the flag had one holder, and that was `c`
        have hd := (holds_setCall_ne s _ hdc).mp hd
        rcases h.flag (s.calls c).kind.event with ⟨-, x, hx⟩ | ⟨-, hnone⟩
        · exact hdc (((hx d).mp hd).trans ((hx c).mp hheld).symm)
        · exact hnone c hheld
    · exact (h.flag e).other (t := { s.calls c with pc := .returned (s.calls c).value }) hc rfl
        he false

theorem Inv.attempt (h : Inv s) (hc : c < s.count) (hpc : (s.calls c).pc = .trying) {o : Outcome}
    (ho : (s.calls c).Answers o) : Inv (s.attempt c o) := by
  have hf := h.faithful c hc
  have ht := h.controlled c hc
  obtain ⟨hactive, ha, -⟩ := ht.looping (.inl hpc)
  unfold Connection.attempt
  dsimp only
  split
  · exact h.inside hc hactive (.fail hf ha EBADF)
  split
  · exact h.inside hc hactive (.recv hf ht hpc (by assumption) ho)
  · have hwrite : (s.calls c).kind.event = .write := by
      cases hk : (s.calls c).kind.event with
      | read => exact absurd hk (by assumption)
      | write => rfl
    exact h.inside hc hactive (.send hf ht hpc hwrite ho)

theorem Inv.waited (h : Inv s) (hc : c < s.count) (hpc : (s.calls c).pc = .waiting)
    (error : Option ℤ) : Inv (s.waited c error) := by
  have hf := h.faithful c hc
  obtain ⟨hactive, ha, hlt⟩ := (h.controlled c hc).looping (.inr hpc)
  cases error with
  | none =>
    exact h.inside hc hactive
      (.control hf ha (s.calls c).result (s.calls c).errno .trying rfl (.inr hlt))
  | some e => exact h.inside hc hactive (.fail hf ha e)

end Connection

theorem reach_inv {s : Connection} (h : connection.Reach s) : s.Inv := by
  apply h.invariant (I := Connection.Inv)
  · rintro s ⟨-, hbusy, hcount⟩
    have hnone : ∀ c, ¬c < s.count := by
      rw [hcount]
      exact Nat.not_lt_zero
    refine ⟨fun c hc => absurd hc (hnone c), fun c hc => absurd hc (hnone c), fun e => ?_⟩
    exact .inr ⟨congrFun hbusy e, fun d hd => hnone d hd.1⟩
  · intro s a hs he
    cases a with
    | call kind buffer => exact hs.call kind buffer
    | take c => exact hs.take he.1 he.2
    | attempt c o => exact hs.attempt he.1 he.2.1 he.2.2
    | waited c error => exact hs.waited he.1 he.2 error
    | leave c => exact hs.leave he.1 he.2
    | close => exact ⟨hs.faithful, hs.controlled, fun e => (hs.flag e).congr rfl fun _ => Iff.rfl⟩

/-! ### Exact transfers -/

/-- A call of `WriteAll`: what the kernel was given is a prefix of the buffer, and a call that was
not refused returns true exactly if it is the whole buffer; it then makes no further `send`. -/
structure WritesExactly (t : Transfer) : Prop where
  front : t.transferred <+: t.initial
  unchanged : t.buffer = t.initial
  value : t.admitted = true → ∀ v, t.pc = .returned v →
    v = .ok (decide (t.transferred = t.initial))
  complete : t.admitted = true → t.transferred = t.initial →
    t.pc = .leaving ∨ t.pc = .returned (.ok true)

/-- A call of `ReadExact`: the bytes received stand in order at the front of the buffer and the rest
of it is as it was; a call that was not refused returns true exactly if there are `size` of them,
and then makes no further `recv`. -/
structure ReadsExactly (t : Transfer) : Prop where
  front : t.buffer = t.transferred ++ t.initial.drop t.transferred.length
  value : t.admitted = true → ∀ v, t.pc = .returned v →
    v = .ok (decide (t.transferred.length = t.size))
  complete : t.admitted = true → t.transferred.length = t.size →
    t.pc = .leaving ∨ t.pc = .returned (.ok true)

/-- A call that was refused or has not begun. -/
structure Untouched (t : Transfer) : Prop where
  log : t.log = []
  buffer : t.buffer = t.initial
  value : ∀ v, t.pc = .returned v → v = t.kind.refusal

namespace Transfer

variable {t : Transfer}

/-- A full call is past its loop. -/
theorem Controlled.complete (h : t.Controlled) (ha : t.admitted = true) (hfull : t.moved = t.size)
    (hv : t.value = .ok true) : t.pc = .leaving ∨ t.pc = .returned (.ok true) := by
  have hnot : ¬t.moved < t.size := hfull.not_lt
  cases hpc : t.pc with
  | called => exact absurd hpc (h.returned ha).1
  | trying => exact absurd (h.inside (.inl hpc)) hnot
  | waiting => exact absurd (h.inside (.inr hpc)) hnot
  | leaving => exact .inl rfl
  | returned v => exact .inr (congrArg Pc.returned (((h.returned ha).2 v hpc).trans hv))

theorem writesExactly (hf : t.Faithful) (hc : t.Controlled) (hkind : t.kind = .writeAll) :
    WritesExactly t := by
  obtain ⟨hbuffer, hfront⟩ := hf.written (by rw [hkind]; rfl)
  have hfull : t.moved = t.size ↔ t.transferred = t.initial := by
    rw [hfront]
    constructor
    · exact fun h => List.take_of_length_le h.ge
    · intro h
      rw [hf.moved, hfront, h]
      rfl
  have hvalue : t.value = .ok (decide (t.transferred = t.initial)) := by
    simp only [value, hkind, hfull]
  refine ⟨?_, hbuffer, fun ha v hv => ?_, fun ha hwhole => ?_⟩
  · rw [hfront]
    exact List.take_prefix _ _
  · exact ((hc.returned ha).2 v hv).trans hvalue
  · exact hc.complete ha (hfull.mpr hwhole) (hvalue.trans (by rw [decide_eq_true hwhole]))

theorem readsExactly (hf : t.Faithful) (hc : t.Controlled) (hkind : t.kind = .readExact) :
    ReadsExactly t := by
  have hvalue : t.value = .ok (decide (t.transferred.length = t.size)) := by
    simp only [value, hkind, hf.moved]
  refine ⟨?_, fun ha v hv => ?_, fun ha hwhole => ?_⟩
  · rw [← hf.moved]
    exact hf.stored (by rw [hkind]; rfl)
  · exact ((hc.returned ha).2 v hv).trans hvalue
  · exact hc.complete ha (hf.moved.trans hwhole) (hvalue.trans (by rw [decide_eq_true hwhole]))

theorem untouched (hf : t.Faithful) (hc : t.Controlled) (hr : t.admitted = false) :
    Untouched t := by
  obtain ⟨hlog, hpc⟩ := hc.refused hr
  have hnone : t.transferred = [] := by simp only [transferred, hlog, List.flatMap_nil]
  refine ⟨hlog, ?_, fun v hv => ?_⟩
  · cases hk : t.kind.event with
    | write => exact (hf.written hk).1
    | read =>
      rw [hf.stored hk, hf.moved, hnone]
      rfl
  · rw [hv] at hpc
    exact Pc.returned.inj (hpc.resolve_left fun h => by cases h)

end Transfer

/-- **Exact transfers.**  In every state that any interleaving of calls, answers and `Close`
reaches: `WriteAll` and `ReadExact` move exactly what they should and say so, no system call asks
for more than the rest of the buffer, a refused call touches nothing, and a flag is up exactly while
one call holds it.  A return clears the flag of its call; a call that meets it up is refused with
`EBUSY` and changes neither flag. -/
theorem exact_transfer {s : Connection} (h : connection.Reach s) :
    (∀ c < s.count, ((s.calls c).kind = .writeAll → WritesExactly (s.calls c)) ∧
      ((s.calls c).kind = .readExact → ReadsExactly (s.calls c)) ∧
      (∀ r ∈ (s.calls c).log, r.offset + r.length ≤ (s.calls c).size ∧
        r.bytes.length ≤ r.length) ∧
      ((s.calls c).admitted = false → Untouched (s.calls c))) ∧
    (∀ e, s.Flag e) ∧
    (∀ c, connection.enabled s (.leave c) →
      (s.leave c).busy (s.calls c).kind.event = false ∧
        ((s.leave c).calls c).pc = .returned (s.calls c).value) ∧
    ∀ c, connection.enabled s (.take c) → s.busy (s.calls c).kind.event = true →
      (s.take c).busy = s.busy ∧ Untouched ((s.take c).calls c) ∧
        ((s.take c).calls c).pc = .returned (s.calls c).kind.refusal ∧
        ((s.take c).calls c).errno = EBUSY := by
  have hinv := reach_inv h
  refine ⟨fun c hc => ?_, hinv.flag, fun c _ => ?_, fun c he hbusy => ?_⟩
  · have hf := hinv.faithful c hc
    have ht := hinv.controlled c hc
    refine ⟨Transfer.writesExactly hf ht, Transfer.readsExactly hf ht, fun r hr => ?_,
      Transfer.untouched hf ht⟩
    exact ⟨(hf.requests r hr).1.le, (hf.requests r hr).2⟩
  · refine ⟨Function.update_self .., ?_⟩
    exact congrArg Transfer.pc (Function.update_self c _ s.calls)
  · have hcall : (s.take c).calls c = { s.calls c with
        errno := EBUSY, pc := .returned (s.calls c).kind.refusal } := by
      rw [Connection.take_of_busy hbusy]
      exact Function.update_self ..
    have hinv' := hinv.take he.1 he.2
    have hlt : c < (s.take c).count := by
      rw [Connection.take_of_busy hbusy]
      exact he.1
    have hnot : ((s.take c).calls c).admitted = false := by
      rw [hcall]
      exact (hinv.controlled c he.1).not_admitted he.2
    refine ⟨?_, Transfer.untouched (hinv'.faithful c hlt) (hinv'.controlled c hlt) hnot, ?_, ?_⟩
    · rw [Connection.take_of_busy hbusy]
      rfl
    · rw [hcall]
    · rw [hcall]

/-- A connection just made. -/
def Connection.opened : Connection :=
  ⟨false, fun _ => false, fun _ => ⟨.readSome, [], [], 0, 0, 0, false, [], .called⟩, 0⟩

/-- A write in two parts with an interruption and a wait between them, a second write that is
refused, and a read that the peer cuts short. -/
def segmented : List Action :=
  [.call .writeAll [1, 2, 3, 4, 5], .call .writeAll [6], .call .readExact [0, 0, 0], .take 0,
    .take 1, .take 2, .attempt 0 (.sent 2), .attempt 2 (.received [7]), .attempt 0 .interrupted,
    .attempt 0 .again, .waited 0 none, .attempt 0 (.sent 3), .attempt 2 .zero, .leave 0, .leave 2]

theorem exact_transfer_segmented :
    let s := connection.run .opened segmented
    (WritesExactly (s.calls 0) ∧ (s.calls 0).pc = .returned (.ok true)) ∧
      (Untouched (s.calls 1) ∧ (s.calls 1).errno = EBUSY) ∧
      ReadsExactly (s.calls 2) ∧ (s.calls 2).buffer = [7, 0, 0] ∧
      (s.calls 2).pc = .returned (.ok false) := by
  have hreach : connection.Reach (connection.run .opened segmented) :=
    Machine.reachVia_run (.start ⟨rfl, rfl, rfl⟩) (by decide +kernel)
  have hcalls := (exact_transfer hreach).1
  refine ⟨⟨(hcalls 0 (by decide +kernel)).1 (by decide +kernel), by decide +kernel⟩,
    ⟨(hcalls 1 (by decide +kernel)).2.2.2 (by decide +kernel), by decide +kernel⟩,
    (hcalls 2 (by decide +kernel)).2.1 (by decide +kernel), by decide +kernel, by decide +kernel⟩

end PulsarRuntime.Net.Transfers
