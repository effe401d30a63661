import Mathlib.Data.List.Basic
import PulsarRuntime.Lib.Family
import PulsarRuntime.Rpc.Slots

/-!
# A call reads the response to its own request

The connection of a slot that nobody uses has answered all its requests and holds no unread byte
(`Clean`).  A call that has the slot adds one request to it, and `Stage` says at each program point
what the connection owes and what has been read.  Every exit restores `Clean` or drops the
connection; a response that comes later than that is never read.
-/

namespace PulsarRuntime.Rpc.Slots

/-- The call has a slot. -/
def Pc.holds : Pc → Bool
  | .entered | .returned => false
  | _ => true

namespace Conn

/-- All requests are answered and all responses read. -/
def Clean (x : Conn) : Prop := x.requests.length = x.responses.length ∧ x.inbox = []

/-- The last request, of call `k`, is to be answered. -/
def Owes (x : Conn) (k : ℕ) : Prop :=
  ∃ earlier, x.requests = earlier ++ [k] ∧ earlier.length = x.responses.length ∧ x.inbox = []

/-- The last request, of call `k`, has been answered with `body`. -/
def Answered (x : Conn) (k : ℕ) (body : List UInt8) : Prop :=
  ∃ earlier bodies, x.requests = earlier ++ [k] ∧ x.responses = bodies ++ [body] ∧
    earlier.length = bodies.length

/-- `body` is the response to the request of call `k`. -/
def Paired (x : Conn) (k : ℕ) (body : List UInt8) : Prop :=
  ∃ j : ℕ, x.requests[j]? = some k ∧ x.responses[j]? = some body

variable {body : List UInt8} {x : Conn} {k : ℕ}

theorem Answered.paired (h : x.Answered k body) : x.Paired k body := by
  obtain ⟨earlier, bodies, hrequests, hresponses, hlength⟩ := h
  refine ⟨earlier.length, ?_, ?_⟩
  · simp [hrequests]
  · simp [hresponses, hlength]

theorem Answered.length_eq (h : x.Answered k body) : x.requests.length = x.responses.length := by
  obtain ⟨earlier, bodies, hrequests, hresponses, hlength⟩ := h
  simp [hrequests, hresponses, hlength]

/-- What has been paired stays so when requests and responses are added. -/
theorem Paired.append {y : Conn} (h : x.Paired k body)
    {requests : List ℕ} {responses : List (List UInt8)}
    (hrequests : y.requests = x.requests ++ requests)
    (hresponses : y.responses = x.responses ++ responses) : y.Paired k body := by
  obtain ⟨j, hj, hbody⟩ := h
  refine ⟨j, ?_, ?_⟩
  · rw [hrequests, List.getElem?_append_left (List.getElem?_eq_some_iff.mp hj).1, hj]
  · rw [hresponses, List.getElem?_append_left (List.getElem?_eq_some_iff.mp hbody).1, hbody]

end Conn

/-- What the slot's connection holds for call `k`. -/
def Pc.Stage (pc : Pc) (conn : Option Conn) (k : ℕ) : Prop :=
  match pc with
  | .acquired | .connecting => ∀ x, conn = some x → x.Clean
  | .sending _ => ∃ x, conn = some x ∧ x.Clean
  | .readingLength got => ∃ x, conn = some x ∧ ((got = [] ∧ x.Owes k) ∨
      ∃ body, body.length < 2 ^ 32 ∧ x.Answered k body ∧ got ++ x.inbox = responseBytes body)
  | .readingBody length got => ∃ x body, conn = some x ∧ x.Answered k body ∧
      length = body.length ∧ got ++ x.inbox = body
  | .parsing payload => ∃ x, conn = some x ∧ x.Answered k payload ∧ x.inbox = []
  | .finished true => ∃ x, conn = some x ∧ x.Clean
  | .finished false => True
  | .entered | .returned => False

/-- The peer answers on the connection of call `k`: only a call that waits for the response is owed
one. -/
theorem Pc.Stage.answer {pc : Pc} {x : Conn} {k : ℕ} {body : List UInt8}
    (h : pc.Stage (some x) k) (howed : x.responses.length < x.requests.length)
    (hsize : body.length < 2 ^ 32) :
    pc.Stage (some { x with
      responses := x.responses ++ [body]
      inbox := x.inbox ++ responseBytes body }) k := by
  have hunclean : ¬ x.Clean := fun hclean => by
    have := hclean.1
    omega
  have hunanswered : ∀ b, ¬ x.Answered k b := fun b hanswered => by
    have := hanswered.length_eq
    omega
  cases pc with
  | readingLength got =>
    obtain ⟨y, hy, howes⟩ := h
    obtain rfl := Option.some.inj hy
    rcases howes with ⟨rfl, earlier, hrequests, hlength, hempty⟩ | ⟨b, -, hanswered, -⟩
    · refine ⟨_, rfl, .inr ⟨body, hsize, ⟨earlier, _, hrequests, rfl, hlength⟩, ?_⟩⟩
      simp [hempty]
    · exact absurd hanswered (hunanswered b)
  | finished success =>
    cases success with
    | true =>
      obtain ⟨y, hy, hclean⟩ := h
      obtain rfl := Option.some.inj hy
      exact absurd hclean hunclean
    | false => trivial
  | acquired | connecting => exact absurd (h x rfl) hunclean
  | sending sent =>
    obtain ⟨y, hy, hclean⟩ := h
    obtain rfl := Option.some.inj hy
    exact absurd hclean hunclean
  | readingBody length got =>
    obtain ⟨y, b, hy, hanswered, -⟩ := h
    obtain rfl := Option.some.inj hy
    exact absurd hanswered (hunanswered b)
  | parsing payload =>
    obtain ⟨y, hy, hanswered, -⟩ := h
    obtain rfl := Option.some.inj hy
    exact absurd hanswered (hunanswered payload)
  | entered | returned => exact h

/-- A slot, with its connection and the call that has it. -/
def Slot.Ok (sl : Slot) (i : ℕ) (conns : ℕ → Conn) (calls : ℕ → Call) (count : ℕ) : Prop :=
  match sl.user with
  | none => sl.busy = false ∧ ∀ x, sl.conn.map conns = some x → x.Clean
  | some k => sl.busy = true ∧ k < count ∧ (calls k).slot = i ∧
      (calls k).pc.Stage (sl.conn.map conns) k

/-- How often a call has taken and given back a slot, and what it has written. -/
def Call.Account (c : Call) : Prop :=
  match c.pc with
  | .entered => c.acquisitions = 0 ∧ c.releases = 0 ∧ c.written = 0 ∧ c.parsed = none ∧
      c.error = none
  | .returned => (c.error = some .overloaded ∧ c.acquisitions = 0 ∧ c.releases = 0 ∧
      c.written = 0) ∨ (c.error ≠ some .overloaded ∧ c.acquisitions = 1 ∧ c.releases = 1)
  | _ => c.error ≠ some .overloaded ∧ c.acquisitions = 1 ∧ c.releases = 0

structure Call.Ok (c : Call) (k : ℕ) (slots : ℕ → Slot) (limit : ℕ) (conns : ℕ → Conn)
    (connCount : ℕ) : Prop where
  slot : c.pc.holds = true → c.slot < limit ∧ (slots c.slot).user = some k
  account : c.Account
  request : ∀ f, c.request = .error f → f ≠ .overloaded
  parsed : ∀ body, c.parsed = some body → ∃ x < connCount, (conns x).Paired k body

structure Inv (s : Channel) : Prop where
  slots : ∀ i < s.limit, (s.slots i).Ok i s.conns s.calls s.count
  calls : ∀ k < s.count, (s.calls k).Ok k s.slots s.limit s.conns s.connCount
  attached : ∀ i < s.limit, ∀ x, (s.slots i).conn = some x → x < s.connCount
  separate : ∀ i < s.limit, ∀ j < s.limit, ∀ x, (s.slots i).conn = some x →
    (s.slots j).conn = some x → i = j

theorem Call.account_holds {c : Call} (h : c.pc.holds = true) :
    c.Account ↔ c.error ≠ some .overloaded ∧ c.acquisitions = 1 ∧ c.releases = 0 := by
  cases hpc : c.pc <;> simp_all [Call.Account, Pc.holds]

/-! ### Bytes -/

theorem be32_length (n : ℕ) : (be32 n).length = 4 := by simp [be32]

theorem ofBe32_be32 {n : ℕ} (h : n < 2 ^ 32) : ofBe32 (be32 n) = n := by
  simp only [ofBe32, be32, List.foldl_cons, List.foldl_nil, UInt8.toNat_ofNat']
  omega

/-! ### One call, one slot, one connection -/

namespace Inv

variable {s : Channel} {k i : ℕ} (h : Inv s)
include h

/-- The slot of a call that has one. -/
theorem user (hk : k < s.count) (hholds : (s.calls k).pc.holds = true) :
    (s.calls k).slot < s.limit ∧ (s.slotOf k).user = some k ∧ (s.slotOf k).busy = true ∧
      (s.calls k).pc.Stage ((s.slotOf k).conn.map s.conns) k := by
  obtain ⟨hlt, huser⟩ := (h.calls k hk).slot hholds
  have hslot := h.slots _ hlt
  simp only [Slot.Ok, huser] at hslot
  exact ⟨hlt, huser, hslot.1, hslot.2.2.2⟩

/-- **Frame.**  A step of call `k` replaces its own record, the slot `i`, which no other call has,
and the connection of this slot. -/
theorem change (c : Call) (sl : Slot) (conns : ℕ → Conn) (connCount : ℕ) (hk : k < s.count)
    (hmine : ∀ j, (s.slots i).user = some j → j = k)
    (honly : ∀ j < s.limit, j ≠ i → (s.slots j).user ≠ some k)
    (hconns : ∀ j < s.limit, j ≠ i → ∀ x, (s.slots j).conn = some x →
      conns x = s.conns x ∧ sl.conn ≠ some x)
    (hcount : s.connCount ≤ connCount) (hattached : ∀ x, sl.conn = some x → x < connCount)
    (hpaired : ∀ j body x, x < s.connCount → (s.conns x).Paired j body →
      (conns x).Paired j body)
    (hslot : sl.Ok i conns (Function.update s.calls k c) s.count)
    (hcall : c.Ok k (Function.update s.slots i sl) s.limit conns connCount) :
    Inv { s with
      slots := Function.update s.slots i sl
      calls := Function.update s.calls k c
      conns := conns
      connCount := connCount } := by
  refine ⟨?_, ?_, ?_, ?_⟩
  · intro j hj
    by_cases hji : j = i
    · subst hji
      simp only [Function.update_self]
      exact hslot
    · simp only [Function.update_of_ne hji]
      have hold := h.slots j hj
      have hsame : (s.slots j).conn.map conns = (s.slots j).conn.map s.conns := by
        cases hx : (s.slots j).conn with
        | none => rfl
        | some x => simp [(hconns j hj hji x hx).1]
      simp only [Slot.Ok, hsame] at hold ⊢
      split at hold
      · exact hold
      next j' huser =>
        have hne : j' ≠ k := by
          rintro rfl
          exact honly j hj hji huser
        simpa only [Function.update_of_ne hne] using hold
  · intro j hj
    by_cases hjk : j = k
    · subst hjk
      simp only [Function.update_self]
      exact hcall
    · simp only [Function.update_of_ne hjk]
      have hold := h.calls j hj
      refine { hold with slot := fun hholds => ?_, parsed := fun body hbody => ?_ }
      · obtain ⟨hlt, huser⟩ := hold.slot hholds
        have hne : (s.calls j).slot ≠ i := by
          intro heq
          rw [heq] at huser
          exact hjk (hmine j huser)
        exact ⟨hlt, by rw [Function.update_of_ne hne, huser]⟩
      · obtain ⟨x, hx, hp⟩ := hold.parsed body hbody
        exact ⟨x, by omega, hpaired j body x hx hp⟩
  · intro j hj x hx
    by_cases hji : j = i
    · subst hji
      simp only [Function.update_self] at hx
      exact hattached x hx
    · simp only [Function.update_of_ne hji] at hx
      exact lt_of_lt_of_le (h.attached j hj x hx) hcount
  · intro j hj j' hj' x hx hx'
    by_cases hji : j = i
    · by_cases hji' : j' = i
      · rw [hji, hji']
      · subst hji
        simp only [Function.update_self, Function.update_of_ne hji'] at hx hx'
        exact absurd hx (hconns j' hj' hji' x hx').2
    · by_cases hji' : j' = i
      · subst hji'
        simp only [Function.update_self, Function.update_of_ne hji] at hx hx'
        exact absurd hx' (hconns j hj hji x hx).2
      · simp only [Function.update_of_ne hji, Function.update_of_ne hji'] at hx hx'
        exact h.separate j hj j' hj' x hx hx'

/-- A call that has a slot is in no other slot. -/
theorem only : ∀ j < s.limit, j ≠ (s.calls k).slot → (s.slots j).user ≠ some k := by
  intro j hj hne huser
  have hslot := h.slots j hj
  simp only [Slot.Ok, huser] at hslot
  exact hne hslot.2.2.1.symm

/-- The connection of a slot is in no other slot. -/
theorem unshared (hi : i < s.limit) {conns : ℕ → Conn}
    (hconns : ∀ x, (s.slots i).conn ≠ some x → conns x = s.conns x) :
    ∀ j < s.limit, j ≠ i → ∀ x, (s.slots j).conn = some x →
      conns x = s.conns x ∧ (s.slots i).conn ≠ some x := by
  intro j hj hne x hx
  have hx' : (s.slots i).conn ≠ some x := fun hi' => hne (h.separate j hj i hi x hx hi')
  exact ⟨hconns x hx', hx'⟩

section

variable (hk : k < s.count)
include hk

variable {c : Call} (hholds : (s.calls k).pc.holds = true)
include hholds

/-- A step of a call on the connection of its slot. -/
theorem work {conns : ℕ → Conn} (hslot : c.slot = (s.calls k).slot)
    (hrequest : c.request = (s.calls k).request)
    (hconns : ∀ x, (s.slotOf k).conn ≠ some x → conns x = s.conns x)
    (hpaired : ∀ j body x, (s.conns x).Paired j body → (conns x).Paired j body)
    (hstage : c.pc.Stage ((s.slotOf k).conn.map conns) k)
    (haccount : c.Account)
    (hparsed : ∀ body, c.parsed = some body → ∃ x < s.connCount, (conns x).Paired k body) :
    Inv { s with calls := Function.update s.calls k c, conns := conns } := by
  obtain ⟨hlt, huser, hbusy, -⟩ := h.user hk hholds
  have hchanged := h.change c (s.slotOf k) conns s.connCount hk
    (fun j hj => Option.some.inj (hj.symm.trans huser)) h.only (h.unshared hlt hconns) le_rfl
    (h.attached _ hlt) (fun j body x _ => hpaired j body x) ?_ ?_
  · simpa only [Channel.slotOf, Function.update_eq_self] using hchanged
  · simp only [Slot.Ok, huser, Function.update_self]
    exact ⟨hbusy, hk, hslot, hstage⟩
  · refine ⟨fun _ => ?_, haccount, ?_, hparsed⟩
    · rw [hslot, Function.update_self]
      exact ⟨hlt, huser⟩
    · rw [hrequest]
      exact (h.calls k hk).request

/-- A step of a call that adds to its connection, or reads from it. -/
theorem useConn {x : ℕ} (hx : (s.slotOf k).conn = some x) {y : Conn} {more : List ℕ}
    (hslot : c.slot = (s.calls k).slot) (hrequest : c.request = (s.calls k).request)
    (hrequests : y.requests = (s.conns x).requests ++ more)
    (hresponses : y.responses = (s.conns x).responses) (hstage : c.pc.Stage (some y) k)
    (haccount : c.Account) (hparsed : c.parsed = (s.calls k).parsed) :
    Inv ((s.setConn x y).setCall k c) := by
  have hpaired : ∀ j body x', (s.conns x').Paired j body →
      (Function.update s.conns x y x').Paired j body := by
    intro j body x' hp
    by_cases hxx : x' = x
    · subst hxx
      rw [Function.update_self]
      exact hp.append hrequests (by rw [hresponses, List.append_nil])
    · rwa [Function.update_of_ne hxx]
  refine h.work hk hholds hslot hrequest ?_ hpaired ?_ haccount ?_
  · intro x' hx'
    have hne : x' ≠ x := fun heq => hx' (by rw [hx, heq])
    exact Function.update_of_ne hne _ _
  · simpa only [hx, Option.map_some, Channel.setConn, Function.update_self] using hstage
  · intro body hbody
    rw [hparsed] at hbody
    obtain ⟨x', hx', hp⟩ := (h.calls k hk).parsed body hbody
    exact ⟨x', hx', hpaired k body x' hp⟩

/-- A step of a call that leaves the connections alone. -/
theorem setCall (hslot : c.slot = (s.calls k).slot) (hrequest : c.request = (s.calls k).request)
    (hstage : c.pc.Stage ((s.slotOf k).conn.map s.conns) k) (haccount : c.Account)
    (hparsed : ∀ body, c.parsed = some body → ∃ x < s.connCount, (s.conns x).Paired k body) :
    Inv (s.setCall k c) :=
  h.work hk hholds hslot hrequest (fun _ _ => rfl) (fun _ _ _ hp => hp) hstage haccount hparsed

/-- A call goes on to its next program point. -/
theorem setPc {pc : Pc}
    (hpc : pc.holds = true) (hstage : pc.Stage ((s.slotOf k).conn.map s.conns) k) :
    Inv (s.setPc k pc) := by
  have hcall := h.calls k hk
  refine h.setCall hk hholds rfl rfl hstage ?_ hcall.parsed
  exact (Call.account_holds hpc).mpr ((Call.account_holds hholds).mp hcall.account)

theorem fail {f : Failure} (hf : f ≠ .overloaded) : Inv (s.fail k f) := by
  have hcall := h.calls k hk
  obtain ⟨-, hacquired, hreleased⟩ := (Call.account_holds hholds).mp hcall.account
  refine h.setCall hk hholds rfl rfl trivial ?_ hcall.parsed
  exact ⟨by simpa using hf, hacquired, hreleased⟩

end

/-- A call without a slot. -/
theorem detached {c : Call} (hnoslot : ∀ j < s.limit, (s.slots j).user ≠ some k)
    (hcall : c.Ok k s.slots s.limit s.conns s.connCount) : Inv (s.setCall k c) := by
  refine ⟨fun j hj => ?_, Family.forall_update
    (P := fun k (c : Call) => c.Ok k s.slots s.limit s.conns s.connCount) h.calls hcall,
    h.attached, h.separate⟩
  have hold := h.slots j hj
  simp only [Slot.Ok, Channel.setCall] at hold ⊢
  split at hold
  · exact hold
  next j' huser =>
    have hne : j' ≠ k := by
      rintro rfl
      exact hnoslot j hj huser
    simpa only [Function.update_of_ne hne] using hold

/-! ### Steps -/

theorem addCall {request : Except Failure (List UInt8)}
    (hrequest : ∀ f, request = .error f → f ≠ .overloaded) :
    Inv { s with
      calls := Function.update s.calls s.count ⟨.entered, request, 0, none, none, 0, 0, 0⟩
      count := s.count + 1 } := by
  refine ⟨fun j hj => ?_, ?_, h.attached, h.separate⟩
  · have hold := h.slots j hj
    simp only [Slot.Ok] at hold ⊢
    split at hold
    · exact hold
    next j' huser =>
      obtain ⟨hbusy, hlt, hrest⟩ := hold
      rw [Function.update_of_ne (Nat.ne_of_lt hlt)]
      exact ⟨hbusy, Nat.lt_succ_of_lt hlt, hrest⟩
  · refine Family.forall_add
      (P := fun k (c : Call) => c.Ok k s.slots s.limit s.conns s.connCount) h.calls ?_
    exact ⟨nofun, ⟨rfl, rfl, rfl, rfl, rfl⟩, hrequest, nofun⟩

section

variable (hk : k < s.count)
include hk

/-- A free slot is clean, and so is the connection that the call finds there. -/
theorem acquire (hpc : (s.calls k).pc = .entered) : Inv (s.acquire k) := by
  have hcall := h.calls k hk
  have haccount := hcall.account
  simp only [Call.Account, hpc] at haccount
  obtain ⟨hacquired, hreleased, hwritten, -, herror⟩ := haccount
  have hnoslot : ∀ j < s.limit, (s.slots j).user ≠ some k := by
    intro j hj huser
    have hslot := h.slots j hj
    simp only [Slot.Ok, huser, hpc, Pc.Stage] at hslot
    exact hslot.2.2.2
  simp only [Channel.acquire]
  split
  · refine h.detached hnoslot ⟨nofun, .inl ⟨rfl, hacquired, hreleased, hwritten⟩, hcall.request, ?_⟩
    exact hcall.parsed
  next i hi =>
    have hlt : i < s.limit := by simpa using List.mem_of_find?_eq_some hi
    have hfree : (s.slots i).busy = false := by simpa using List.find?_some hi
    have hslot := h.slots i hlt
    have huser : (s.slots i).user = none := by
      cases huser : (s.slots i).user with
      | none => rfl
      | some j =>
        simp only [Slot.Ok, huser, hfree] at hslot
        exact absurd hslot.1 (by simp)
    simp only [Slot.Ok, huser] at hslot
    refine h.change _ { s.slots i with busy := true, user := some k } s.conns s.connCount hk ?_
      (fun j hj _ => hnoslot j hj) (h.unshared hlt fun _ _ => rfl) le_rfl (h.attached i hlt)
      (fun _ _ _ _ hp => hp) ?_ ?_
    · intro j hj
      rw [huser] at hj
      cases hj
    · simp only [Slot.Ok, Function.update_self]
      exact ⟨trivial, hk, trivial, hslot.2⟩
    · refine ⟨fun _ => ⟨hlt, by simp⟩, ?_, hcall.request, hcall.parsed⟩
      exact ⟨by simp [herror], by simp [hacquired], hreleased⟩

theorem prepare (hpc : (s.calls k).pc = .acquired) : Inv (s.prepare k) := by
  have hholds : (s.calls k).pc.holds = true := by simp [hpc, Pc.holds]
  obtain ⟨-, -, -, hstage⟩ := h.user hk hholds
  rw [hpc] at hstage
  simp only [Channel.prepare]
  split
  next f hf => exact h.fail hk hholds ((h.calls k hk).request f hf)
  next frame hframe =>
    split
    · exact h.setPc hk hholds rfl hstage
    next x hx =>
      split
      · exact h.setPc hk hholds rfl hstage
      · refine h.setPc hk hholds rfl ⟨s.conns x, by simp [hx], hstage _ ?_⟩
        simp [hx]

/-- The slot gets a connection of its own, or none. -/
theorem connect (hpc : (s.calls k).pc = .connecting) (ok : Bool) : Inv (s.connect k ok) := by
  have hholds : (s.calls k).pc.holds = true := by simp [hpc, Pc.holds]
  obtain ⟨hlt, huser, hbusy, -⟩ := h.user hk hholds
  have hcall := h.calls k hk
  obtain ⟨herror, hacquired, hreleased⟩ := (Call.account_holds hholds).mp hcall.account
  have hmine : ∀ j, (s.slots (s.calls k).slot).user = some j → j = k := fun j hj =>
    Option.some.inj (hj.symm.trans huser)
  cases ok with
  | true =>
    refine h.change { s.calls k with pc := .sending 0 } { s.slotOf k with conn := some s.connCount }
      (Function.update s.conns s.connCount ⟨false, [], [], []⟩) (s.connCount + 1) hk hmine h.only
      ?_ (Nat.le_succ _) ?_ ?_ ?_ ?_
    · intro j hj _ x hx
      have hne := Nat.ne_of_lt (h.attached j hj x hx)
      exact ⟨Function.update_of_ne hne _ _, fun heq => hne (Option.some.inj heq).symm⟩
    · intro x hx
      exact lt_of_eq_of_lt (Option.some.inj hx).symm (Nat.lt_succ_self _)
    · intro j body x hx hp
      rwa [Function.update_of_ne (Nat.ne_of_lt hx)]
    · simp only [Slot.Ok, huser, Function.update_self]
      refine ⟨hbusy, hk, trivial, ⟨false, [], [], []⟩, ?_, rfl, rfl⟩
      simp
    · refine ⟨fun _ => ⟨hlt, ?_⟩, ⟨herror, hacquired, hreleased⟩, hcall.request, fun body hb => ?_⟩
      · rw [Function.update_self]
        exact huser
      · obtain ⟨x, hx, hp⟩ := hcall.parsed body hb
        refine ⟨x, Nat.lt_succ_of_lt hx, ?_⟩
        rwa [Function.update_of_ne (Nat.ne_of_lt hx)]
  | false =>
    refine h.change { s.calls k with pc := .finished false, error := some .connect }
      { s.slotOf k with conn := none } s.conns s.connCount hk hmine h.only
      (fun _ _ _ _ _ => ⟨rfl, nofun⟩) le_rfl nofun (fun _ _ _ _ hp => hp) ?_ ?_
    · simp only [Slot.Ok, huser, Function.update_self]
      exact ⟨hbusy, hk, trivial, trivial⟩
    · refine ⟨fun _ => ⟨hlt, ?_⟩, ⟨nofun, hacquired, hreleased⟩, hcall.request, hcall.parsed⟩
      rw [Function.update_self]
      exact huser

theorem write {n : ℕ} (hpc : (s.calls k).pc.isSending = true) : Inv (s.write k n) := by
  cases hsend : (s.calls k).pc with
  | sending sent =>
    have hholds : (s.calls k).pc.holds = true := by simp [hsend, Pc.holds]
    obtain ⟨-, -, -, hstage⟩ := h.user hk hholds
    rw [hsend] at hstage
    obtain ⟨y, hy, hclean⟩ := hstage
    obtain ⟨x, hx, rfl⟩ := Option.map_eq_some_iff.mp hy
    have hcall := h.calls k hk
    have haccount := (Call.account_holds hholds).mp hcall.account
    simp only [Channel.write, hsend, hx]
    split
    · -- the request is complete: the connection owes its response
      exact h.useConn hk hholds hx rfl rfl rfl rfl
        ⟨_, rfl, .inl ⟨rfl, (s.conns x).requests, rfl, hclean⟩⟩ haccount rfl
    · exact h.setCall hk hholds rfl rfl ⟨_, hy, hclean⟩ haccount hcall.parsed
  | entered | acquired | connecting | readingLength | readingBody | parsing | finished | returned =>
    simp [hsend, Pc.isSending] at hpc

theorem read {n : ℕ} (hpc : (s.calls k).pc.isReading = true)
    (hn : 0 < n) (havailable : n ≤ s.available k) : Inv (s.read k n) := by
  have hholds : (s.calls k).pc.holds = true := by
    cases hread : (s.calls k).pc <;> simp_all [Pc.isReading, Pc.holds]
  obtain ⟨-, -, -, hstage⟩ := h.user hk hholds
  have haccount := (Call.account_holds hholds).mp (h.calls k hk).account
  have hbytes : ∀ (got inbox : List UInt8), got ++ inbox.take n ++ inbox.drop n = got ++ inbox := by
    intro got inbox
    rw [List.append_assoc, List.take_append_drop]
  cases hread : (s.calls k).pc with
  | readingLength got =>
    rw [hread] at hstage
    obtain ⟨y, hy, howed⟩ := hstage
    obtain ⟨x, hx, rfl⟩ := Option.map_eq_some_iff.mp hy
    simp only [Channel.available, hx] at havailable
    simp only [Channel.read, hx, hread]
    refine h.useConn hk hholds hx rfl rfl (List.append_nil _).symm rfl ⟨_, rfl, .inr ?_⟩ haccount
      rfl
    rcases howed with ⟨-, -, -, -, hempty⟩ | ⟨body, hsize, hanswered, hbody⟩
    · -- nothing has come yet
      simp only [hempty, List.length_nil] at havailable
      omega
    · exact ⟨body, hsize, hanswered, (hbytes _ _).trans hbody⟩
  | readingBody length got =>
    rw [hread] at hstage
    obtain ⟨y, body, hy, hanswered, hlength, hbody⟩ := hstage
    obtain ⟨x, hx, rfl⟩ := Option.map_eq_some_iff.mp hy
    simp only [Channel.read, hx, hread]
    exact h.useConn hk hholds hx rfl rfl (List.append_nil _).symm rfl
      ⟨_, body, rfl, hanswered, hlength, (hbytes _ _).trans hbody⟩ haccount rfl
  | entered | acquired | connecting | sending | parsing | finished | returned =>
    simp [hread, Pc.isReading] at hpc

/-- The four bytes are the length of the body, and what follows is the body. -/
theorem checkLength (hpc : (s.calls k).pc.hasLength = true) : Inv (s.checkLength k) := by
  cases hread : (s.calls k).pc with
  | readingLength got =>
    have hholds : (s.calls k).pc.holds = true := by simp [hread, Pc.holds]
    have hfour : got.length = 4 := by simpa [hread, Pc.hasLength] using hpc
    obtain ⟨-, -, -, hstage⟩ := h.user hk hholds
    rw [hread] at hstage
    obtain ⟨y, hy, howed⟩ := hstage
    simp only [Channel.checkLength, hread]
    split
    · exact h.fail hk hholds (by decide)
    · refine h.setPc hk hholds rfl ?_
      rcases howed with ⟨rfl, -⟩ | ⟨body, hsize, hanswered, hbody⟩
      · simp at hfour
      · obtain ⟨hgot, hinbox⟩ := List.append_inj hbody (by rw [hfour, be32_length])
        exact ⟨y, body, hy, hanswered, by rw [hgot, ofBe32_be32 hsize], hinbox⟩
  | entered | acquired | connecting | sending | readingBody | parsing | finished | returned =>
    simp [hread, Pc.hasLength] at hpc

theorem body (hpc : (s.calls k).pc.hasBody = true) : Inv (s.body k) := by
  cases hread : (s.calls k).pc with
  | readingBody length got =>
    have hholds : (s.calls k).pc.holds = true := by simp [hread, Pc.holds]
    have hall : got.length = length := by simpa [hread, Pc.hasBody] using hpc
    obtain ⟨-, -, -, hstage⟩ := h.user hk hholds
    rw [hread] at hstage
    obtain ⟨y, body, hy, hanswered, hlength, hbody⟩ := hstage
    have hempty : y.inbox = [] := by
      have := congrArg List.length hbody
      simp only [List.length_append] at this
      exact List.length_eq_zero_iff.mp (by omega)
    have hgot : got = body := by simpa [hempty] using hbody
    simp only [Channel.body, hread]
    refine h.setPc hk hholds rfl ⟨y, hy, ?_, hempty⟩
    rwa [hgot]
  | entered | acquired | connecting | sending | readingLength | parsing | finished | returned =>
    simp [hread, Pc.hasBody] at hpc

theorem parse (hpc : (s.calls k).pc.isParsing = true) (ok : Bool) : Inv (s.parse k ok) := by
  cases hparse : (s.calls k).pc with
  | parsing payload =>
    have hholds : (s.calls k).pc.holds = true := by simp [hparse, Pc.holds]
    obtain ⟨hlt, -, -, hstage⟩ := h.user hk hholds
    obtain ⟨herror, hacquired, hreleased⟩ := (Call.account_holds hholds).mp (h.calls k hk).account
    rw [hparse] at hstage
    obtain ⟨y, hy, hanswered, hempty⟩ := hstage
    obtain ⟨x, hx, rfl⟩ := Option.map_eq_some_iff.mp hy
    have hpaired : ∀ b, some payload = some b → ∃ x < s.connCount, (s.conns x).Paired k b := by
      intro b hb
      obtain rfl := Option.some.inj hb
      exact ⟨x, h.attached _ hlt x hx, hanswered.paired⟩
    simp only [Channel.parse, hparse]
    split
    · exact h.setCall hk hholds rfl rfl ⟨_, hy, hanswered.length_eq, hempty⟩
        ⟨herror, hacquired, hreleased⟩ hpaired
    · exact h.setCall hk hholds rfl rfl trivial ⟨nofun, hacquired, hreleased⟩ hpaired
  | entered | acquired | connecting | sending | readingLength | readingBody | finished | returned =>
    simp [hparse, Pc.isParsing] at hpc

/-- The slot is given back clean, or without its connection. -/
theorem release (hpc : (s.calls k).pc.isFinished = true) : Inv (s.release k) := by
  have hholds : (s.calls k).pc.holds = true := by
    cases hfinished : (s.calls k).pc <;> simp_all [Pc.isFinished, Pc.holds]
  obtain ⟨hlt, huser, -, hstage⟩ := h.user hk hholds
  have hcall := h.calls k hk
  obtain ⟨herror, hacquired, hreleased⟩ := (Call.account_holds hholds).mp hcall.account
  have hmine : ∀ j, (s.slots (s.calls k).slot).user = some j → j = k := fun j hj =>
    Option.some.inj (hj.symm.trans huser)
  have haccount : ({ s.calls k with pc := .returned, releases := (s.calls k).releases + 1 } :
      Call).Account := .inr ⟨herror, hacquired, by simp [hreleased]⟩
  simp only [Channel.release]
  split
  next x hfinished hx =>
    have hclosed : ∀ j body x', x' < s.connCount → (s.conns x').Paired j body →
        (Function.update s.conns x { s.conns x with closed := true } x').Paired j body := by
      intro j body x' _ hp
      by_cases hxx : x' = x
      · subst hxx
        rw [Function.update_self]
        exact hp
      · rwa [Function.update_of_ne hxx]
    refine h.change _ ⟨false, none, none⟩
      (Function.update s.conns x { s.conns x with closed := true }) s.connCount hk hmine h.only
      ?_ le_rfl nofun hclosed ⟨rfl, nofun⟩ ⟨nofun, haccount, hcall.request, fun body hb => ?_⟩
    · intro j hj hne x' hx'
      have hxx : x' ≠ x := by
        rintro rfl
        exact hne (h.separate j hj _ hlt x' hx' hx)
      exact ⟨Function.update_of_ne hxx _ _, nofun⟩
    · obtain ⟨x', hx', hp⟩ := hcall.parsed body hb
      exact ⟨x', hx', hclosed k body x' hx' hp⟩
  next hother =>
    refine h.change _ ⟨false, (s.slotOf k).conn, none⟩ s.conns s.connCount hk hmine h.only
      (h.unshared hlt fun _ _ => rfl) le_rfl (h.attached _ hlt) (fun _ _ _ _ hp => hp)
      ⟨rfl, fun y hy => ?_⟩ ⟨nofun, haccount, hcall.request, hcall.parsed⟩
    obtain ⟨x, hx, -⟩ := Option.map_eq_some_iff.mp hy
    cases hfinished : (s.calls k).pc with
    | finished success =>
      cases success with
      | true =>
        rw [hfinished] at hstage
        obtain ⟨y', hy', hclean⟩ := hstage
        obtain rfl := Option.some.inj (hy.symm.trans hy')
        exact hclean
      | false => exact absurd hx (hother x hfinished)
    | entered | acquired | connecting | sending | readingLength | readingBody | parsing
    | returned =>
      simp [hfinished, Pc.isFinished] at hpc

end

/-- The peer answers only what is owed: the slots nobody uses stay clean. -/
theorem answer {c : ℕ} {body : List UInt8}
    (howed : (s.conns c).responses.length < (s.conns c).requests.length)
    (hsize : body.length < 2 ^ 32) : Inv (s.answer c body) := by
  have hpaired : ∀ j b x, (s.conns x).Paired j b → ((s.answer c body).conns x).Paired j b := by
    intro j b x hp
    simp only [Channel.answer, Channel.setConn]
    by_cases hxc : x = c
    · subst hxc
      rw [Function.update_self]
      exact hp.append (List.append_nil _).symm rfl
    · rwa [Function.update_of_ne hxc]
  refine ⟨fun i hi => ?_, fun k hk => ?_, h.attached, h.separate⟩
  · have hold := h.slots i hi
    by_cases hconn : (s.slots i).conn = some c
    · simp only [Slot.Ok, Channel.answer, Channel.setConn, hconn, Option.map_some,
        Function.update_self] at hold ⊢
      split at hold
      · have := (hold.2 _ rfl).1
        omega
      next k huser =>
        obtain ⟨hbusy, hk, hslot, hstage⟩ := hold
        exact ⟨hbusy, hk, hslot, hstage.answer howed hsize⟩
    · have hsame : (s.slots i).conn.map (s.answer c body).conns = (s.slots i).conn.map s.conns := by
        cases hx : (s.slots i).conn with
        | none => rfl
        | some x =>
          have hne : x ≠ c := fun heq => hconn (by rw [hx, heq])
          simp [Channel.answer, Channel.setConn, Function.update_of_ne hne]
      show (s.slots i).Ok i (s.answer c body).conns s.calls s.count
      simp only [Slot.Ok, hsame] at hold ⊢
      exact hold
  · have hold := h.calls k hk
    refine { hold with parsed := fun b hb => ?_ }
    obtain ⟨x, hx, hp⟩ := hold.parsed b hb
    exact ⟨x, hx, hpaired k b x hp⟩

/-- **Step lemma.** -/
theorem next {a : Action} (he : channel.enabled s a) : Inv (channel.next s a) := by
  cases a with
  | call request =>
    refine h.addCall fun f hf => ?_
    subst hf
    rcases he with rfl | rfl <;> decide
  | acquire k => exact h.acquire he.1 he.2
  | prepare k => exact h.prepare he.1 he.2
  | connect k ok => exact h.connect he.1 he.2 ok
  | write k n => exact h.write he.1 he.2.1
  | sendFailed k =>
    refine h.fail he.1 ?_ (by decide)
    have hsending := he.2
    cases hpc : (s.calls k).pc <;> simp_all [Pc.isSending, Pc.holds]
  | read k n => exact h.read he.1 he.2.1 he.2.2.1 he.2.2.2.2
  | readFailed k =>
    have hreading := he.2.1
    refine h.fail he.1 ?_ ?_
    · cases hpc : (s.calls k).pc <;> simp_all [Pc.isReading, Pc.holds]
    · cases hpc : (s.calls k).pc <;> simp [Pc.readFailure]
  | checkLength k => exact h.checkLength he.1 he.2
  | body k => exact h.body he.1 he.2
  | parse k ok => exact h.parse he.1 he.2 ok
  | release k => exact h.release he.1 he.2
  | answer c body => exact h.answer he.2.1 he.2.2

end Inv

theorem inv_of_init {s : Channel} (h : channel.init s) : Inv s := by
  obtain ⟨hcount, -, hslots⟩ := h
  refine ⟨fun i hi => ?_, ?_, fun i hi x hx => ?_, fun i hi j _ x hx => ?_⟩
  · obtain ⟨hbusy, hconn, huser⟩ := hslots i hi
    simp [Slot.Ok, hbusy, hconn, huser]
  · rw [hcount]
    exact nofun
  · simp [(hslots i hi).2.1] at hx
  · simp [(hslots i hi).2.1] at hx

/-- **Pairing.**  In every run of calls on a channel with any number of slots: a slot is busy just
when a call has it, and then one call only; a call takes at most one slot and gives it back once;
what a call parses is the response to its own request; and a call that finds no free slot writes
nothing. -/
theorem slot_pairing {s : Channel} (h : channel.Reach s) :
    (∀ i < s.limit, ((s.slots i).busy = true ↔
      ∃ k < s.count, (s.calls k).pc.holds = true ∧ (s.calls k).slot = i) ∧
      ∀ j < s.count, ∀ k < s.count, (s.calls j).pc.holds = true → (s.calls k).pc.holds = true →
        (s.calls j).slot = i → (s.calls k).slot = i → j = k) ∧
    (∀ k < s.count, (s.calls k).acquisitions ≤ 1 ∧
      ((s.calls k).pc.holds = true → (s.calls k).acquisitions = 1 ∧ (s.calls k).releases = 0) ∧
      ((s.calls k).pc = .returned → (s.calls k).releases = (s.calls k).acquisitions)) ∧
    (∀ k < s.count, ∀ body, (s.calls k).parsed = some body →
      ∃ c < s.connCount, (s.conns c).Paired k body) ∧
    (∀ k < s.count, (s.calls k).error = some .overloaded →
      (s.calls k).acquisitions = 0 ∧ (s.calls k).written = 0) := by
  have hinv : Inv s := h.invariant (fun _ => inv_of_init) fun _ _ hi he => hi.next he
  refine ⟨fun i hi => ⟨⟨fun hbusy => ?_, ?_⟩, ?_⟩, fun k hk => ?_,
    fun k hk => (hinv.calls k hk).parsed, fun k hk herror => ?_⟩
  · have hslot := hinv.slots i hi
    cases huser : (s.slots i).user with
    | none =>
      simp only [Slot.Ok, huser] at hslot
      simp [hslot.1] at hbusy
    | some k =>
      simp only [Slot.Ok, huser] at hslot
      obtain ⟨-, hk, hslot', hstage⟩ := hslot
      refine ⟨k, hk, ?_, hslot'⟩
      cases hpc : (s.calls k).pc <;> simp_all [Pc.holds, Pc.Stage]
  · rintro ⟨k, hk, hholds, rfl⟩
    exact (hinv.user hk hholds).2.2.1
  · rintro j hj k hk hjholds hkholds rfl hkslot
    have huser := ((hinv.calls j hj).slot hjholds).2
    rw [← hkslot, ((hinv.calls k hk).slot hkholds).2] at huser
    exact (Option.some.inj huser).symm
  · have haccount := (hinv.calls k hk).account
    cases hpc : (s.calls k).pc <;> simp only [Call.Account, hpc] at haccount <;>
      refine ⟨by omega, ?_, ?_⟩ <;> simp [Pc.holds] <;> omega
  · have haccount := (hinv.calls k hk).account
    cases hpc : (s.calls k).pc <;> simp only [Call.Account, hpc, herror] at haccount <;>
      simp_all

/-- Service `E`, method `G`, and one byte of arguments. -/
def echoFrame : List UInt8 := [8, 0x0a, 1, 0x45, 0x12, 1, 0x47, 0x18, 1, 9]

/-- One slot: call 0 gives up and is answered too late, call 1 connects anew, and call 2 finds no
slot while call 1 waits. -/
def lateAnswer : List Action :=
  [.call (.ok echoFrame), .acquire 0, .prepare 0, .connect 0 true, .write 0 10, .readFailed 0,
    .release 0, .answer 0 [1], .call (.ok echoFrame), .acquire 1, .call (.ok echoFrame), .acquire 2,
    .prepare 1, .connect 1 true, .write 1 4, .write 1 6, .answer 1 [2, 3], .read 1 3, .read 1 1,
    .checkLength 1, .read 1 2, .body 1, .parse 1 true, .release 1]

theorem slot_pairing_late :
    let s := channel.run (.fresh 1) lateAnswer
    (s.calls 1).parsed = some [2, 3] ∧ (s.calls 2).error = some .overloaded ∧
      ∃ c < s.connCount, (s.conns c).Paired 1 [2, 3] := by
  intro s
  have hs : channel.Reach s :=
    Machine.reachVia_run (.start (channel_init_fresh 1)) (by decide +kernel)
  exact ⟨by decide +kernel, by decide +kernel,
    (slot_pairing hs).2.2.1 1 (by decide +kernel) _ (by decide +kernel)⟩

end PulsarRuntime.Rpc.Slots
