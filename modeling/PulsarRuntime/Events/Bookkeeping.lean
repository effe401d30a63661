import Mathlib.Algebra.Order.BigOperators.Group.Finset
import PulsarRuntime.Events.Model
import PulsarRuntime.Lib.Family

/-!
# Bits, contexts and the counter agree

Every critical section changes the registered events of one context, what is kept for them and
`pendingEventCnt_` together (`Balanced`); so the counter is the number of events registered in all
contexts, and a context keeps something for an event exactly while it is registered.

Two things can break this.  A worker that comes to a notification in which one reported event is
still registered and another one is not triggers both; and `addEvent` on a thread without a
scheduler registers an event nobody can be scheduled for.  `Unmixed` rules them out.
-/

namespace PulsarRuntime.Events

open Finset (range)

/-- Events are added on threads of a scheduler, and the events that a worker finds to have really
happened are all registered, or none of them is. -/
def Unmixed (s : Manager) : Action → Prop
  | .call (.addEvent _ _ caller) _ => caller.scheduler.isSome = true
  | .process i _ =>
      match s.fetched[i]? with
      | some n =>
          (∀ event, s.realEvents n event = true → (s.contexts n.ctx).events event = true) ∨
          (∀ event, s.realEvents n event = true → (s.contexts n.ctx).events event = false)
      | none => True
  | _ => True

instance (s : Manager) (a : Action) : Decidable (Unmixed s a) := by
  induction a using Action.casesOn with
  | call kind fd => rcases kind <;> (dsimp only [Unmixed]; infer_instance)
  | process i ok =>
    dsimp only [Unmixed]
    rcases s.fetched[i]? <;> (dsimp only; infer_instance)
  | _ => exact isTrue trivial

/-! ### One context -/

/-- There is a scheduler, and a Fiber or callback for it. -/
def EventContext.Full (ctx : EventContext) : Prop :=
  ctx.scheduler.isSome = true ∧ (ctx.fiber.isSome = true ∨ ctx.cb.isSome = true)

theorem EventContext.of_full {caller : Caller} (h : caller.scheduler.isSome = true)
    (cb : Option ℕ) : (EventContext.of cb caller).Full := by
  refine ⟨h, ?_⟩
  cases cb with
  | none => exact .inl rfl
  | some f => exact .inr rfl

namespace FdContext

/-- The number of registered events. -/
def bits (c : FdContext) : ℤ :=
  (if c.events .read then 1 else 0) + (if c.events .write then 1 else 0)

/-- Something is kept for an event exactly while it is registered. -/
def Ok (c : FdContext) : Prop :=
  ∀ event, if c.events event = true then (c.context event).Full else c.context event = .reset

theorem new_ok (fd : ℕ) : (FdContext.new fd).Ok := by
  intro event
  simp [FdContext.new]

theorem bits_new (fd : ℕ) : (FdContext.new fd).bits = 0 := by
  simp [bits, FdContext.new]

/-- One event and what is kept for it are replaced. -/
theorem Ok.update {c : FdContext} (h : c.Ok) {event : Event} {set : Bool} {ctx : EventContext}
    (hctx : if set = true then ctx.Full else ctx = .reset) :
    Ok { c with
      events := Function.update c.events event set
      context := Function.update c.context event ctx } := by
  intro event'
  by_cases heq : event' = event
  · subst heq
    simpa only [Function.update_self] using hctx
  · simpa only [Function.update_of_ne heq] using h event'

theorem bits_update (c : FdContext) (event : Event) (set : Bool) (ctx : EventContext) :
    bits { c with
      events := Function.update c.events event set
      context := Function.update c.context event ctx } =
      c.bits + ((if set then 1 else 0) - (if c.events event then 1 else 0)) := by
  cases event with
  | read =>
    simp only [bits, Function.update_self,
      Function.update_of_ne (show Event.write ≠ .read by nofun)]
    omega
  | write =>
    simp only [bits, Function.update_self,
      Function.update_of_ne (show Event.read ≠ .write by nofun)]
    omega

end FdContext

/-! ### One critical section -/

namespace Manager

/-- A critical section of context `p` that keeps the books. -/
structure Balanced (p : ℕ) (s s' : Manager) : Prop extends Touches p s s' where
  counted : s'.pendingEventCnt = s.pendingEventCnt + ((s'.contexts p).bits - (s.contexts p).bits)
  ok : (s'.contexts p).Ok
  sound : s'.panicked ≠ some .notRegistered

variable {s s' s'' : Manager} {p : ℕ} {event : Event}

theorem Balanced.refl (hok : (s.contexts p).Ok) (hpanic : s.panicked = none) : Balanced p s s := by
  refine ⟨.refl p s, by omega, hok, ?_⟩
  rw [hpanic]
  exact nofun

theorem Balanced.trans (h : Balanced p s s') (h' : Balanced p s' s'') : Balanced p s s'' := by
  refine ⟨h.toTouches.trans h'.toTouches, ?_, h'.ok, h'.sound⟩
  rw [h'.counted, h.counted]
  omega

/-- An event is registered or cleared, and counted so. -/
theorem setEvent_balanced (event : Event) (set : Bool) (ctx : EventContext)
    (hok : (s.contexts p).Ok) (hpanic : s.panicked = none)
    (hctx : if set = true then ctx.Full else ctx = .reset)
    (hbit : (s.contexts p).events event = !set) (htouches : Touches p s s')
    (hself : s'.contexts p = (s.setEvent p event set ctx).contexts p)
    (hcount : s'.pendingEventCnt = s.pendingEventCnt + if set then 1 else -1)
    (hpanic' : s'.panicked = s.panicked) : Balanced p s s' := by
  rw [setEvent_self] at hself
  refine ⟨htouches, ?_, ?_, ?_⟩
  · rw [hcount, hself, FdContext.bits_update, hbit]
    cases set <;> simp
  · rw [hself]
    exact hok.update hctx
  · rw [hpanic', hpanic]
    exact nofun

section

variable (hok : (s.contexts p).Ok)
include hok

variable (hpanic : s.panicked = none)
include hpanic

/-- A registered event is triggered and no longer counted. -/
theorem triggerCounted_balanced (hbit : (s.contexts p).events event = true) :
    Balanced p s (s.triggerCounted p event) ∧ (s.triggerCounted p event).panicked = none ∧
      ∀ event', event' ≠ event →
        ((s.triggerCounted p event).contexts p).events event' = (s.contexts p).events event' := by
  have heq : s.triggerCounted p event = { s.setEvent p event false .reset with
      scheduled := s.scheduled ++ [(s.contexts p).context event]
      pendingEventCnt := s.pendingEventCnt - 1 } := by
    simp only [triggerCounted, triggerEvent, if_pos hbit]
    exact if_neg (by simp [setEvent, setContext, hpanic])
  refine ⟨?_, ?_, ?_⟩
  · refine setEvent_balanced event false .reset hok hpanic rfl hbit
      (triggerCounted_touches s p event) ?_ ?_ ?_
    · rw [heq]
    · rw [heq]
      rfl
    · rw [heq]
      rfl
  · rw [heq]
    exact hpanic
  · intro event' hne
    rw [heq]
    show ((s.setEvent p event false .reset).contexts p).events event' = _
    rw [setEvent_self]
    exact Function.update_of_ne hne ..

theorem addEvent_balanced {caller : Caller}
    (hcaller : caller.scheduler.isSome = true) (cb : Option ℕ) (ok : Bool) :
    Balanced p s (s.addEvent p event cb caller ok).1 := by
  have htouches := addEvent_touches s p event cb caller ok
  simp only [addEvent] at htouches ⊢
  split
  · exact ⟨⟨fun _ _ => rfl, rfl, rfl, rfl, rfl, rfl, rfl⟩, by simp [panic], hok,
      fun hp => by cases hp⟩
  · rename_i hbit
    rw [if_neg hbit] at htouches
    split
    · exact .refl hok hpanic
    · rename_i hadded
      rw [if_neg hadded] at htouches
      have hempty := hok event
      rw [if_neg hbit] at hempty
      rw [hempty] at htouches ⊢
      exact setEvent_balanced event true (EventContext.of cb caller) hok hpanic
        (EventContext.of_full hcaller cb) (by simpa using hbit) htouches rfl rfl rfl

theorem delEvent_balanced (ok : Bool) : Balanced p s (s.delEvent p event ok).1 := by
  have htouches := delEvent_touches s p event ok
  simp only [delEvent] at htouches ⊢
  split
  · exact .refl hok hpanic
  · rename_i hbit
    rw [if_neg hbit] at htouches
    split
    · exact .refl hok hpanic
    · rename_i hdone
      rw [if_neg hdone] at htouches
      exact setEvent_balanced event false .reset hok hpanic rfl (by simpa using hbit) htouches rfl
        rfl rfl

theorem cancelEvent_balanced (ok : Bool) : Balanced p s (s.cancelEvent p event ok).1 := by
  simp only [cancelEvent]
  split
  · exact .refl hok hpanic
  · rename_i hbit
    split
    · exact .refl hok hpanic
    · exact (triggerCounted_balanced hok hpanic (by simpa using hbit)).1

end

theorem triggerRegistered_balanced (event : Event) (hok : (s.contexts p).Ok)
    (hpanic : s.panicked = none) : Balanced p s (s.triggerRegistered p event) ∧
      (s.triggerRegistered p event).panicked = none := by
  simp only [triggerRegistered]
  split
  · rename_i hbit
    have h := triggerCounted_balanced hok hpanic hbit
    exact ⟨h.1, h.2.1⟩
  · exact ⟨.refl hok hpanic, hpanic⟩

theorem cancelAll_balanced (hok : (s.contexts p).Ok) (hpanic : s.panicked = none) (ok : Bool) :
    Balanced p s (s.cancelAll p ok).1 := by
  obtain ⟨hread, hpanic'⟩ := triggerRegistered_balanced .read hok hpanic
  have h := hread.trans (triggerRegistered_balanced .write hread.ok hpanic').1
  simp only [cancelAll]
  split
  · exact .refl hok hpanic
  · split
    · exact .refl hok hpanic
    · split
      · exact ⟨⟨h.contexts, h.fd, h.table, h.allocated, h.ops, h.count, h.fetched⟩, h.counted,
          h.ok, fun hp => by cases hp⟩
      · exact h

theorem body_balanced (hok : (s.contexts p).Ok) (hpanic : s.panicked = none) {kind : Kind}
    (hkind : ∀ event cb caller, kind = .addEvent event cb caller →
      caller.scheduler.isSome = true) (ok : Bool) : Balanced p s (s.body kind p ok).1 := by
  cases kind with
  | addEvent event cb caller => exact addEvent_balanced hok hpanic (hkind event cb caller rfl) cb ok
  | delEvent event => exact delEvent_balanced hok hpanic ok
  | cancelEvent event => exact cancelEvent_balanced hok hpanic ok
  | cancelAll => exact cancelAll_balanced hok hpanic ok

/-- What has really happened is triggered if it is registered. -/
theorem triggerReal_balanced (hok : (s.contexts p).Ok) (hpanic : s.panicked = none) {real : Bool}
    (hreal : real = true → (s.contexts p).events event = true) :
    Balanced p s (s.triggerReal p event real) ∧ (s.triggerReal p event real).panicked = none ∧
      ∀ event', event' ≠ event →
        ((s.triggerReal p event real).contexts p).events event' = (s.contexts p).events event' := by
  simp only [triggerReal]
  rw [if_neg (by simp [hpanic])]
  split
  · rename_i h
    exact triggerCounted_balanced hok hpanic (hreal h)
  · exact ⟨.refl hok hpanic, hpanic, fun _ _ => rfl⟩

theorem notify_balanced {n : Notification} (hok : (s.contexts n.ctx).Ok)
    (hpanic : s.panicked = none)
    (hunmixed :
      (∀ event, s.realEvents n event = true → (s.contexts n.ctx).events event = true) ∨
      (∀ event, s.realEvents n event = true → (s.contexts n.ctx).events event = false))
    (ok : Bool) : Balanced n.ctx s (s.notify n ok) := by
  simp only [notify]
  rcases hunmixed with hall | hnone
  · split
    · exact .refl hok hpanic
    · split
      · exact .refl hok hpanic
      · obtain ⟨hread, hpanic', hkept⟩ := triggerReal_balanced hok hpanic (hall .read)
        refine hread.trans (triggerReal_balanced hread.ok hpanic' fun hreal => ?_).1
        rw [hkept .write (by decide)]
        exact hall .write hreal
  · -- nothing that has happened is registered, and the worker passes on
    have hskip : ∀ event,
        ((s.contexts n.ctx).events event && s.realEvents n event) = false := by
      intro event
      cases hreal : s.realEvents n event with
      | false => exact Bool.and_false _
      | true => rw [hnone event hreal]; rfl
    rw [if_pos (by rw [hskip .read, hskip .write]; rfl)]
    exact .refl hok hpanic

/-! ### Runs -/

/-- A call knows only contexts there are, and an event is added by a thread of a scheduler. -/
structure OpOk (allocated : ℕ) (op : Op) : Prop where
  found : ∀ p, op.pc = .found p → p < allocated
  attached : ∀ event cb caller, op.kind = .addEvent event cb caller →
    caller.scheduler.isSome = true

structure Inv (s : Manager) : Prop where
  ops : ∀ k < s.count, OpOk s.allocated (s.ops k)
  fetched : ∀ n ∈ s.fetched, n.ctx < s.allocated
  table : ∀ p ∈ s.table, p < s.allocated
  counted : s.pendingEventCnt = ∑ p ∈ range s.allocated, (s.contexts p).bits
  ok : ∀ p < s.allocated, (s.contexts p).Ok
  sound : s.panicked ≠ some .notRegistered

section

variable (h : s.Inv)
include h

theorem Inv.balanced (hp : p < s.allocated) (hb : Balanced p s s') : s'.Inv := by
  have hcontexts : s'.contexts = Function.update s.contexts p (s'.contexts p) := by
    funext q
    by_cases hq : q = p
    · rw [hq, Function.update_self]
    · rw [Function.update_of_ne hq, hb.contexts q hq]
  constructor
  case ops =>
    rw [hb.count, hb.ops, hb.allocated]
    exact h.ops
  case fetched =>
    rw [hb.fetched, hb.allocated]
    exact h.fetched
  case table =>
    rw [hb.table, hb.allocated]
    exact h.table
  case counted =>
    have hsum := Family.sum_update (f := s.contexts) FdContext.bits hp (s'.contexts p)
    rw [hb.counted, hb.allocated, hcontexts, hsum, h.counted, Function.update_self]
  case ok =>
    rw [hb.allocated, hcontexts]
    exact Family.forall_update (P := fun _ => FdContext.Ok) h.ok hb.ok
  case sound => exact hb.sound

theorem Inv.setPc {k : ℕ} {pc : OpPc} (hk : k < s.count)
    (hpc : ∀ p, pc = .found p → p < s.allocated) : (s.setPc k pc).Inv :=
  ⟨Family.forall_update (P := fun _ op => OpOk s.allocated op) h.ops ⟨hpc, (h.ops k hk).attached⟩,
    h.fetched, h.table, h.counted, h.ok, h.sound⟩

theorem Inv.panic {cause : Panic} (hcause : cause ≠ .notRegistered) : (s.panic cause).Inv :=
  ⟨h.ops, h.fetched, h.table, h.counted, h.ok, fun heq => hcause (Option.some.inj heq)⟩

/-- A lookup finds a context of the table. -/
theorem Inv.setFound {k fd : ℕ} (hk : k < s.count) (hfd : s.table[fd]? = some p) :
    (s.setPc k (.found p)).Inv := by
  refine h.setPc hk fun q hq => ?_
  obtain rfl : p = q := by injection hq
  exact h.table p (List.mem_of_getElem? hfd)

theorem Inv.lookup {k : ℕ} (hk : k < s.count) : (s.lookup k).Inv := by
  simp only [Manager.lookup]
  split
  · rename_i p hp
    exact h.setFound hk hp
  · refine h.setPc hk fun p hp => ?_
    split at hp <;> cases hp

theorem Inv.contextResize (size : ℕ) : (s.contextResize size).Inv := by
  have hold : ∀ p < s.allocated, (s.contextResize size).contexts p = s.contexts p := by
    intro p hp
    simp only [Manager.contextResize, if_neg fun hnew : _ ∧ _ => absurd hp (Nat.not_lt.mpr hnew.1)]
  have hnew : ∀ i < size - s.table.length, (s.contextResize size).contexts (s.allocated + i) =
      .new (s.table.length + i) := by
    intro i hi
    simp only [Manager.contextResize]
    rw [if_pos ⟨Nat.le_add_right _ _, by omega⟩, Nat.add_sub_cancel_left]
  have hmore : s.allocated ≤ (s.contextResize size).allocated := Nat.le_add_right _ _
  constructor
  case ops =>
    intro k hk
    exact ⟨fun p hp => Nat.lt_of_lt_of_le ((h.ops k hk).found p hp) hmore, (h.ops k hk).attached⟩
  case fetched => exact fun n hn => Nat.lt_of_lt_of_le (h.fetched n hn) hmore
  case table =>
    intro p hp
    simp only [Manager.contextResize, List.mem_append, List.mem_map, List.mem_range] at hp ⊢
    rcases hp with hp | ⟨i, hi, rfl⟩
    · exact Nat.lt_of_lt_of_le (h.table p (List.mem_of_mem_take hp)) hmore
    · omega
  case counted =>
    show s.pendingEventCnt = ∑ p ∈ range (s.allocated + (size - s.table.length)),
      ((s.contextResize size).contexts p).bits
    rw [Finset.sum_range_add, h.counted]
    have hzero : ∑ i ∈ range (size - s.table.length),
        ((s.contextResize size).contexts (s.allocated + i)).bits = 0 := by
      refine Finset.sum_eq_zero fun i hi => ?_
      rw [hnew i (Finset.mem_range.mp hi), FdContext.bits_new]
    rw [hzero, add_zero]
    refine Finset.sum_congr rfl fun p hp => ?_
    rw [hold p (Finset.mem_range.mp hp)]
  case ok =>
    intro p hp
    by_cases hlt : p < s.allocated
    · rw [hold p hlt]
      exact h.ok p hlt
    · have hp : p < s.allocated + (size - s.table.length) := hp
      have hi := hnew (p - s.allocated) (by omega)
      rw [Nat.add_sub_cancel' (Nat.not_lt.mp hlt)] at hi
      rw [hi]
      exact FdContext.new_ok _
  case sound => exact h.sound

theorem Inv.resize {k : ℕ} (hk : k < s.count) : (s.resize k).Inv := by
  have hgrown := h.contextResize ((s.ops k).fd * 3 / 2)
  simp only [Manager.resize]
  split
  · rename_i p hp
    exact hgrown.setFound hk hp
  · exact hgrown.panic nofun

theorem Inv.enter {k : ℕ} (hk : k < s.count) (hpc : (s.ops k).pc = .found p)
    (hpanic : s.panicked = none) (ok : Bool) : (s.enter k p ok).Inv := by
  have hop := h.ops k hk
  have hp := hop.found p hpc
  have hb := body_balanced (h.ok p hp) hpanic hop.attached ok
  refine (h.balanced hp hb).setPc ?_ nofun
  rw [hb.count]
  exact hk

theorem Inv.process {i : ℕ} (hpanic : s.panicked = none) (ok : Bool)
    (hok : Unmixed s (.process i ok)) : (manager.next s (.process i ok)).Inv := by
  simp only [manager]
  split
  · rename_i n hn
    simp only [Unmixed, hn] at hok
    have herased : Inv { s with fetched := s.fetched.eraseIdx i } :=
      ⟨h.ops, fun n hn => h.fetched n (List.mem_of_mem_eraseIdx hn), h.table, h.counted, h.ok,
        h.sound⟩
    have hctx := h.fetched n (List.mem_of_getElem? hn)
    exact herased.balanced hctx
      (notify_balanced (s := { s with fetched := s.fetched.eraseIdx i }) (h.ok _ hctx) hpanic
        hok ok)
  · exact h

theorem Inv.next {a : Action} (he : manager.enabled s a) (hok : Unmixed s a) :
    (manager.next s a).Inv := by
  obtain ⟨hpanic, he⟩ := he
  cases a with
  | call kind fd =>
    refine ⟨Family.forall_add (P := fun _ => OpOk s.allocated) h.ops ⟨nofun, ?_⟩, h.fetched,
      h.table, h.counted, h.ok, h.sound⟩
    rintro event cb caller rfl
    exact hok
  | lookup k => exact h.lookup he.1
  | resize k => exact h.resize he.1
  | enter k ok =>
    simp only [manager]
    split
    · rename_i p hpc
      exact h.enter he.1 hpc hpanic ok
    · exact h
  | fetch n =>
    refine ⟨h.ops, fun n' hn' => ?_, h.table, h.counted, h.ok, h.sound⟩
    rcases List.mem_append.mp hn' with hn' | hn'
    · exact h.fetched n' hn'
    · rw [List.mem_singleton.mp hn']
      exact he.1
  | process i ok => exact h.process hpanic ok hok

end

theorem inv_of_init (h : manager.init s) : s.Inv := by
  obtain ⟨htable, halloc, hctx, hcnt, hcount, hfetched, hpanic⟩ := h
  constructor
  case ops => simp [hcount]
  case fetched => simp [hfetched]
  case table => simp [htable, halloc]
  case counted => simp [hcnt, hctx, FdContext.bits_new]
  case ok => exact fun p _ => hctx p ▸ FdContext.new_ok p
  case sound => simp [hpanic]

end Manager

/-- **The books are kept.**  In a run whose workers find what they process registered altogether or
not at all, `triggerEvent` is never called for an event that is not registered; the counter is the
number of registered events over all contexts; and a context keeps a scheduler and a Fiber or
callback for an event if the event is registered, and nothing otherwise. -/
theorem event_bookkeeping {s : Manager} (h : manager.ReachVia Unmixed s) :
    s.panicked ≠ some .notRegistered ∧
    s.pendingEventCnt = ∑ p ∈ range s.allocated, (s.contexts p).bits ∧ 0 ≤ s.pendingEventCnt ∧
    ∀ p < s.allocated, ∀ event,
      ((s.contexts p).events event = true ↔ ((s.contexts p).context event).Full) ∧
      ((s.contexts p).events event = false → (s.contexts p).context event = .reset) := by
  have hi : s.Inv := h.invariant (I := Manager.Inv) (fun _ => Manager.inv_of_init)
    fun _ _ hs he hok => hs.next he hok
  refine ⟨hi.sound, hi.counted, ?_, fun p hp event => ?_⟩
  · rw [hi.counted]
    refine Finset.sum_nonneg fun p _ => ?_
    simp only [FdContext.bits]
    split <;> split <;> decide
  · have hok := hi.ok p hp event
    cases hbit : (s.contexts p).events event with
    | true =>
      rw [hbit, if_pos rfl] at hok
      exact ⟨⟨fun _ => hok, fun _ => rfl⟩, nofun⟩
    | false =>
      rw [hbit, if_neg nofun] at hok
      refine ⟨⟨nofun, fun hfull => ?_⟩, fun _ => hok⟩
      rw [hok] at hfull
      cases hfull.1

/-- Both events of descriptor 5 are registered and reported ready. -/
def readyTrace : List Action :=
  [.call (.addEvent .read none reader) 5, .lookup 0, .enter 0 true,
    .call (.addEvent .write (some 9) reader) 5, .lookup 1, .enter 1 true,
    .fetch ⟨5, fun _ => true, false⟩]

/-- A worker triggers both. -/
theorem event_bookkeeping_ready :
    let s := manager.run .fresh (readyTrace ++ [.process 0 true])
    s.pendingEventCnt = 0 ∧ s.panicked ≠ some .notRegistered ∧
      s.pendingEventCnt = ∑ p ∈ range s.allocated, (s.contexts p).bits := by
  intro s
  have hs : manager.ReachVia Unmixed s :=
    Machine.reachVia_run (.start manager_init_fresh) (by decide +kernel)
  exact ⟨by decide +kernel, (event_bookkeeping hs).1, (event_bookkeeping hs).2.1⟩

/-- Before the worker comes to the notification another thread cancels the read event.  The masks
still intersect, and the worker triggers both events. -/
theorem stale_event_triggered :
    let s := manager.run .fresh (readyTrace ++
      [.call (.cancelEvent .read) 5, .lookup 2, .enter 2 true])
    manager.Reach s ∧ (s.contexts 5).events .read = false ∧
      manager.enabled s (.process 0 true) ∧
      (manager.next s (.process 0 true)).panicked = some .notRegistered := by
  intro s
  exact ⟨Machine.reachVia_run (.start manager_init_fresh) (by decide +kernel), by decide +kernel,
    by decide +kernel, by decide +kernel⟩

end PulsarRuntime.Events
