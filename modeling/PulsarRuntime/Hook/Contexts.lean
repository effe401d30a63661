import PulsarRuntime.Hook.Nonblock

/-!
# Whether a descriptor has one context

`FdManager::get` looks the context up under the read lock, gives the lock up, and makes a context
under the write lock.  A context is an object here: the table holds pointers, and so do the callers
it has been returned to.  Calls are cut where the lock is given up.

The creation does not look at the table again.  When another call has made the context in between,
it makes a second one, and the callers of the first keep an object that nobody else will find.
-/

namespace PulsarRuntime.Hook

/-- Where a call of `FdManager::get` is. -/
inductive GetPc where
  | called (autoCreate : Bool)
  /-- the read lock is given up, the write lock is not taken yet -/
  | unlocked
  | returned (ctx : Option ℕ)
  deriving DecidableEq

structure GetCall where
  fd : ℤ
  pc : GetPc
  deriving DecidableEq

/-- What is set through a context. -/
inductive Setting where
  | userNonblock (v : Bool)
  | timeout (type : TimeoutType) (v : BitVec 64)

def Setting.apply (c : FdCtx) : Setting → FdCtx
  | .userNonblock v => { c with userNonblock := v }
  | .timeout type v => c.setTimeout type v

structure Contexts where
  files : Files
  /-- the contexts made so far; a pointer is a position in the list -/
  objects : List FdCtx
  /-- `FdManager::m_datas` -/
  datas : Slots ℕ
  calls : ℕ → Option GetCall

namespace Contexts

variable (s : Contexts)

def setCall (k : ℕ) (c : GetCall) : Contexts :=
  { s with calls := Function.update s.calls k (some c) }

/-- `FdManager::get` under the read lock. -/
def lookup (fd : ℤ) (autoCreate : Bool) : GetPc :=
  if fd = -1 then .returned none
  else if s.datas.length ≤ fd.toNat then
    if autoCreate then .unlocked else .returned none
  else if (s.datas.slot fd.toNat).isSome || !autoCreate then .returned (s.datas.slot fd.toNat)
  else .unlocked

/-- `FdManager::get` under the write lock; the number is not -1. -/
def create (K : Kernel) (s : Contexts) (k fd : ℕ) : Contexts :=
  let r := FdCtx.new K s.files fd
  { files := r.2
    objects := s.objects ++ [r.1]
    datas := (s.datas.reserve fd (fd * 3 / 2)).set fd (some s.objects.length)
    calls := Function.update s.calls k (some ⟨fd, .returned (some s.objects.length)⟩) }

/-- The holder of the pointer sets something. -/
def set (p : ℕ) (m : Setting) : Contexts :=
  { s with objects := s.objects.modify p m.apply }

/-- `FdManager::del` -/
def del (fd : ℕ) : Contexts := { s with datas := s.datas.set fd none }

/-- Call `k` has returned the context `p` for the descriptor. -/
def Returned (k fd p : ℕ) : Prop := s.calls k = some ⟨fd, .returned (some p)⟩

instance (s : Contexts) (k fd p : ℕ) : Decidable (s.Returned k fd p) := by
  dsimp only [Returned]
  infer_instance

/-- All calls that have returned a context for the descriptor have returned the same one. -/
def Agree (fd : ℕ) : Prop :=
  ∀ k k' p p', s.Returned k fd p → s.Returned k' fd p' → p = p'

end Contexts

inductive ContextAction where
  | call (k : ℕ) (fd : ℤ) (autoCreate : Bool)
  | lookup (k : ℕ) (fd : ℤ) (autoCreate : Bool)
  | create (k fd : ℕ)
  | set (p : ℕ) (m : Setting)
  | del (fd : ℕ)
  /-- a number is opened, closed, or its file changes -/
  | file (fd : ℕ) (f : Option File)

/-- Any number of calls, by any threads.  An index below -1 is outside the vector. -/
def contexts (K : Kernel) : Machine Contexts ContextAction where
  init s := s.objects = [] ∧ s.datas = List.replicate 64 none ∧ s.calls = fun _ => none
  enabled s
    | .call k fd _ => s.calls k = none ∧ -1 ≤ fd
    | .lookup k fd autoCreate => s.calls k = some ⟨fd, .called autoCreate⟩
    | .create k fd => s.calls k = some ⟨fd, .unlocked⟩
    | _ => True
  next s
    | .call k fd autoCreate => s.setCall k ⟨fd, .called autoCreate⟩
    | .lookup k fd autoCreate => s.setCall k ⟨fd, s.lookup fd autoCreate⟩
    | .create k fd => s.create K k fd
    | .set p m => s.set p m
    | .del fd => s.del fd
    | .file fd f => { s with files := Function.update s.files fd f }

instance (K : Kernel) (s : Contexts) (a : ContextAction) :
    Decidable ((contexts K).enabled s a) := by
  rcases a <;> (dsimp only [contexts]; infer_instance)

/-- No `del` on the descriptor. -/
def Kept (fd : ℕ) (_ : Contexts) : ContextAction → Prop
  | .del d => d ≠ fd
  | _ => True

/-- No `del` on the descriptor, and a context is made for it only while it still has none. -/
def Vacant (fd : ℕ) (s : Contexts) : ContextAction → Prop
  | .del d => d ≠ fd
  | .create _ d => d = fd → s.datas.slot fd = none
  | _ => True

instance (fd : ℕ) (s : Contexts) (a : ContextAction) : Decidable (Kept fd s a) := by
  rcases a <;> (dsimp only [Kept]; infer_instance)

instance (fd : ℕ) (s : Contexts) (a : ContextAction) : Decidable (Vacant fd s a) := by
  rcases a <;> (dsimp only [Vacant]; infer_instance)

namespace Contexts

variable {K : Kernel} {s : Contexts} {k fd p : ℕ}

/-! ### Making a context -/

section Create

variable (h : 64 ≤ s.datas.length)
include h

theorem room (fd : ℕ) :
    let datas := s.datas.reserve fd (fd * 3 / 2)
    fd < datas.length ∧ s.datas.length ≤ datas.length ∧ ∀ j, datas.slot j = s.datas.slot j :=
  Slots.reserve_spec fun _ => by omega

theorem slot_create_self (k fd : ℕ) : (s.create K k fd).datas.slot fd = some s.objects.length :=
  Slots.slot_set_self (room h fd).1 _

theorem slot_create_ne (k : ℕ) {d : ℕ} (hd : d ≠ fd) :
    (s.create K k fd).datas.slot d = s.datas.slot d :=
  (Slots.slot_set_ne _ hd).trans ((room h fd).2.2 d)

theorem length_create (k fd : ℕ) : s.datas.length ≤ (s.create K k fd).datas.length :=
  (room h fd).2.1.trans (List.length_set ..).ge

end Create

theorem returned_create (k fd : ℕ) : (s.create K k fd).Returned k fd s.objects.length :=
  Function.update_self ..

/-! ### What the calls have returned -/

theorem lookup_returned {autoCreate : Bool} (h : s.lookup fd autoCreate = .returned (some p)) :
    s.datas.slot fd = some p := by
  rw [lookup, if_neg (by omega), Int.toNat_natCast] at h
  split_ifs at h
  · cases h
  · exact GetPc.returned.inj h

variable {a : ContextAction}

/-- A call that has returned stays as it is. -/
theorem returned_stays (he : (contexts K).enabled s a)
    (h : s.Returned k fd p) : ((contexts K).next s a).Returned k fd p := by
  have hother : ∀ {k' c c'}, s.calls k' = c → c ≠ some ⟨fd, .returned (some p)⟩ →
      Function.update s.calls k' c' k = some ⟨fd, .returned (some p)⟩ := by
    intro k' c c' hc hne
    have hk : k ≠ k' := by
      intro hk
      rw [← hc, ← hk] at hne
      exact hne h
    rw [Function.update_of_ne hk]
    exact h
  cases a with
  | call k' d autoCreate => exact hother he.1 (by simp)
  | lookup k' d autoCreate => exact hother he (by simp)
  | create k' d => exact hother he (by simp)
  | set q m => exact h
  | del d => exact h
  | file d f => exact h

/-- What a call returns comes from the table, or it has made it. -/
theorem returned_next (h : ((contexts K).next s a).Returned k fd p) :
    s.Returned k fd p ∨ s.datas.slot fd = some p ∨ (a = .create k fd ∧ p = s.objects.length) := by
  have hupdate : ∀ {k' c}, Function.update s.calls k' (some c) k = some ⟨fd, .returned (some p)⟩ →
      s.Returned k fd p ∨ (k = k' ∧ c = ⟨fd, .returned (some p)⟩) := by
    intro k' c h
    by_cases hk : k = k'
    · rw [hk, Function.update_self] at h
      exact .inr ⟨hk, Option.some.inj h⟩
    · rw [Function.update_of_ne hk] at h
      exact .inl h
  cases a with
  | call k' d autoCreate =>
    rcases hupdate h with hold | ⟨-, hnew⟩
    · exact .inl hold
    · cases hnew
  | lookup k' d autoCreate =>
    rcases hupdate h with hold | ⟨-, hnew⟩
    · exact .inl hold
    · obtain ⟨rfl, hpc⟩ := GetCall.mk.inj hnew
      exact .inr (.inl (lookup_returned hpc))
  | create k' d =>
    rcases hupdate h with hold | ⟨rfl, hnew⟩
    · exact .inl hold
    · obtain ⟨hd, hpc⟩ := GetCall.mk.inj hnew
      cases hpc
      rw [Int.ofNat_inj.mp hd]
      exact .inr (.inr ⟨rfl, rfl⟩)
  | set q m => exact .inl h
  | del d => exact .inl h
  | file d f => exact .inl h

/-! ### The table and what has been returned -/

/-- The pointers in the table are those of contexts; the context of `fd` in the table has been
returned, and every one that has been returned for `fd` is in the table. -/
structure Inv (fd : ℕ) (s : Contexts) : Prop where
  length : 64 ≤ s.datas.length
  valid : ∀ d p, s.datas.slot d = some p → p < s.objects.length
  made : ∀ p, s.datas.slot fd = some p → ∃ k, s.Returned k fd p
  found : ∀ k p, s.Returned k fd p → s.datas.slot fd = some p

theorem Inv.agree (h : s.Inv fd) : s.Agree fd := by
  intro k k' p p' hp hp'
  have hsame : some p = some p' := (h.found k p hp).symm.trans (h.found k' p' hp')
  exact Option.some.inj hsame

theorem init_inv (h : (contexts K).init s) : s.Inv fd := by
  obtain ⟨-, hdatas, hcalls⟩ := h
  have hslot : ∀ d, s.datas.slot d = none := by
    intro d
    rw [hdatas]
    exact Slots.slot_replicate 64 d
  refine ⟨?_, fun d p hp => ?_, fun p hp => ?_, fun k p hp => ?_⟩
  · rw [hdatas, List.length_replicate]
  · rw [hslot] at hp
    cases hp
  · rw [hslot] at hp
    cases hp
  · rw [Returned, hcalls] at hp
    cases hp

/-- A step that leaves the table alone at `fd`. -/
theorem Inv.same (h : s.Inv fd) (he : (contexts K).enabled s a)
    (hlength : 64 ≤ ((contexts K).next s a).datas.length)
    (hvalid : ∀ d p, ((contexts K).next s a).datas.slot d = some p →
      p < ((contexts K).next s a).objects.length)
    (hslot : ((contexts K).next s a).datas.slot fd = s.datas.slot fd)
    (hother : ∀ k, a ≠ .create k fd) : ((contexts K).next s a).Inv fd := by
  refine ⟨hlength, hvalid, fun p hp => ?_, fun k p hp => ?_⟩
  · rw [hslot] at hp
    obtain ⟨k, hk⟩ := h.made p hp
    exact ⟨k, returned_stays he hk⟩
  · rw [hslot]
    rcases returned_next hp with hold | htable | ⟨ha, -⟩
    · exact h.found k p hold
    · exact htable
    · exact absurd ha (hother k)

/-- Every pointer in the table after a creation is that of a context. -/
theorem create_valid (h : s.Inv fd) (k d : ℕ) :
    ∀ j p, (s.create K k d).datas.slot j = some p → p < (s.create K k d).objects.length := by
  intro j p hp
  have hlength : (s.create K k d).objects.length = s.objects.length + 1 := List.length_append
  rw [hlength]
  by_cases hj : j = d
  · rw [hj, slot_create_self h.length] at hp
    cases hp
    exact Nat.lt_succ_self _
  · rw [slot_create_ne h.length k hj] at hp
    exact (h.valid j p hp).trans (Nat.lt_succ_self _)

theorem create_inv (h : s.Inv fd) (hslot : s.datas.slot fd = none) : (s.create K k fd).Inv fd := by
  refine ⟨h.length.trans (length_create h.length k fd), create_valid h k fd, fun p hp => ?_,
    fun k' p hp => ?_⟩
  · rw [slot_create_self h.length] at hp
    cases hp
    exact ⟨k, returned_create k fd⟩
  · rcases returned_next (K := K) (a := .create k fd) hp with hold | htable | ⟨-, rfl⟩
    · exact absurd (hslot.symm.trans (h.found k' p hold)) (by simp)
    · exact absurd (hslot.symm.trans htable) (by simp)
    · exact slot_create_self h.length k fd

theorem next_inv (h : s.Inv fd) (he : (contexts K).enabled s a)
    (hok : Vacant fd s a) : ((contexts K).next s a).Inv fd := by
  cases a with
  | call k d autoCreate => exact h.same he h.length h.valid rfl (by simp)
  | lookup k d autoCreate => exact h.same he h.length h.valid rfl (by simp)
  | create k d =>
    by_cases hd : d = fd
    · subst hd
      exact create_inv h (hok rfl)
    · exact h.same he (h.length.trans (length_create h.length k d)) (create_valid h k d)
        (slot_create_ne h.length k (Ne.symm hd)) (by simp [hd])
  | set p m =>
    refine h.same he h.length (fun d q hq => ?_) rfl (by simp)
    exact (h.valid d q hq).trans_eq (List.length_modify ..).symm
  | del d =>
    have hset : ∀ j, j ≠ d → (s.del d).datas.slot j = s.datas.slot j :=
      fun j hj => Slots.slot_set_ne none hj
    refine h.same he (h.length.trans_eq (List.length_set ..).symm) (fun j q hq => ?_)
      (hset fd (Ne.symm hok)) (by simp)
    by_cases hj : j = d
    · rw [hj] at hq
      exact absurd ((Slots.slot_set_none s.datas d).symm.trans hq) (by simp)
    · exact h.valid j q ((hset j hj).symm.trans hq)
  | file d f => exact h.same he h.length h.valid rfl (by simp)

/-- A creation that does not find the slot empty makes a second context. -/
theorem agree_create_iff (h : s.Inv fd) (he : s.calls k = some ⟨fd, .unlocked⟩) :
    (s.create K k fd).Agree fd ↔ s.datas.slot fd = none := by
  constructor
  · intro hagree
    cases hslot : s.datas.slot fd with
    | none => rfl
    | some p =>
      obtain ⟨k', hk'⟩ := h.made p hslot
      have hold : (s.create K k fd).Returned k' fd p :=
        returned_stays (K := K) (a := .create k fd) he hk'
      have hp : p = s.objects.length := hagree k' k p _ hold (returned_create k fd)
      exact absurd (h.valid fd p hslot) (by omega)
  · intro hslot
    exact (create_inv h hslot).agree

theorem set_objects (s : Contexts) (p : ℕ) (m : Setting) :
    (s.set p m).objects[p]? = s.objects[p]?.map m.apply := by
  simp only [set, List.getElem?_modify, if_true]
  rfl

/-- **One context for a descriptor.**  In every run without a `del` on `fd` in which each context
for `fd` is made while there is still none, all calls of `get` that have returned a context for
`fd` have returned the same object, and what is set through one is seen through every other; and a
call that is about to make a context for `fd` keeps this exactly if there is still none. -/
theorem one_context (h : (contexts K).ReachVia (Vacant fd) s) :
    s.Agree fd ∧
    (∀ k k' p p', s.Returned k fd p → s.Returned k' fd p' → ∀ m : Setting,
      (s.set p m).objects[p']? = s.objects[p']?.map m.apply) ∧
    ∀ k, s.calls k = some ⟨fd, .unlocked⟩ →
      ((s.create K k fd).Agree fd ↔ s.datas.slot fd = none) := by
  have hi : s.Inv fd :=
    h.invariant (I := Inv fd) (fun _ => init_inv) fun _ _ hi he hok => next_inv hi he hok
  refine ⟨hi.agree, fun k k' p p' hp hp' m => ?_, fun k hk => agree_create_iff hi hk⟩
  rw [hi.agree k k' p p' hp hp']
  exact set_objects s p' m

/-! ### A call that is left alone -/

/-- `FdManager::get(fd, true)` with nobody in between. -/
def ensure (K : Kernel) (s : Contexts) (k fd : ℕ) : Contexts :=
  match s.lookup fd true with
  | .unlocked => s.create K k fd
  | pc => s.setCall k ⟨fd, pc⟩

/-- The context the table leads to. -/
def find (s : Contexts) (fd : ℕ) : Option FdCtx := (s.datas.slot fd).bind (s.objects[·]?)

/-- The same table, with the contexts in the place of the pointers. -/
structure Shows (s : Contexts) (d : Descriptors) : Prop where
  files : d.files = s.files
  length : 64 ≤ d.datas.length
  find : ∀ fd, d.find fd = s.find fd

theorem find_create_self (h : 64 ≤ s.datas.length) (k fd : ℕ) :
    (s.create K k fd).find fd = some (FdCtx.new K s.files fd).1 := by
  rw [find, slot_create_self h]
  exact List.getElem?_concat_length

theorem find_create_other (h : s.Inv fd) (k : ℕ) {j : ℕ} (hj : j ≠ fd) :
    (s.create K k fd).find j = s.find j := by
  rw [find, find, slot_create_ne h.length k hj]
  cases hslot : s.datas.slot j with
  | none => rfl
  | some p => exact List.getElem?_append_left (h.valid j p hslot)

/-- Alone, the call does to the table what `Descriptors.ensure` does. -/
theorem ensure_shows (h : s.Inv fd) {d : Descriptors} (hd : s.Shows d) (k : ℕ) :
    (s.ensure K k fd).Shows (d.ensure K fd) := by
  have hnone : s.find fd = none ↔ s.datas.slot fd = none := by
    cases hslot : s.datas.slot fd with
    | none => simp [find, hslot]
    | some p => simp [find, hslot, h.valid fd p hslot]
  have hlookup : s.lookup fd true =
      if s.datas.slot fd = none then .unlocked else .returned (s.datas.slot fd) := by
    rw [lookup, if_neg (by omega), Int.toNat_natCast]
    cases hslot : s.datas.slot fd with
    | none => simp
    | some p => simp [Nat.not_le.mpr (Slots.lt_of_slot hslot)]
  rw [ensure, Descriptors.ensure, hlookup, hd.find]
  by_cases hslot : s.datas.slot fd = none
  · rw [if_pos hslot, hnone.mpr hslot]
    refine ⟨?_, hd.length.trans (Descriptors.create_only hd.length fd).length, fun j => ?_⟩
    · show (FdCtx.new K d.files fd).2 = (FdCtx.new K s.files fd).2
      rw [hd.files]
    · by_cases hj : j = fd
      · rw [hj, Descriptors.find_create hd.length, hd.files, find_create_self h.length]
      · rw [Descriptors.find_create_ne hd.length hj, hd.find, find_create_other h k hj]
  · obtain ⟨c, hc⟩ := Option.ne_none_iff_exists'.mp (mt hnone.mp hslot)
    rw [if_neg hslot, hc]
    exact ⟨hd.files, hd.length, hd.find⟩

/-! ### Two creators -/

def initial : Contexts := ⟨fun _ => some ⟨true, 2⟩, [], List.replicate 64 none, fun _ => none⟩

/-- Two calls for socket 7 and one for socket 70; the second comes when the first has returned. -/
theorem one_context_socket :
    let s := (contexts linux).run initial
      [.call 0 7 true, .call 2 70 true, .lookup 2 70 true, .lookup 0 7 true, .create 0 7,
        .call 1 7 true, .create 2 70, .lookup 1 7 true]
    s.Returned 0 7 0 ∧ s.Returned 1 7 0 ∧ s.Agree 7 := by
  refine ⟨by decide +kernel, by decide +kernel, ?_⟩
  exact (one_context (K := linux) (Machine.reachVia_run (.start ⟨rfl, rfl, rfl⟩)
    (by decide +kernel))).1

/-- Both calls look before either makes a context: the second replaces the first one's, and the
mode set through the first is not seen through the second. -/
theorem two_contexts : ∃ s, (contexts linux).ReachVia (Kept 7) s ∧ s.Returned 0 7 0 ∧
    s.Returned 1 7 1 ∧ ¬s.Agree 7 ∧ s.objects.map FdCtx.userNonblock = [true, false] := by
  refine ⟨(contexts linux).run initial
    [.call 0 7 true, .call 1 7 true, .lookup 0 7 true, .lookup 1 7 true, .create 0 7,
      .create 1 7, .set 0 (.userNonblock true)],
    Machine.reachVia_run (.start ⟨rfl, rfl, rfl⟩) (by decide +kernel), by decide +kernel,
    by decide +kernel, fun hagree => ?_, by decide +kernel⟩
  have hsame := hagree 0 1 0 1 (by decide +kernel) (by decide +kernel)
  cases hsame

end Contexts

end PulsarRuntime.Hook
