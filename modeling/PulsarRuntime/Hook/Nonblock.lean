import Mathlib.Order.Nat
import Mathlib.Tactic.Basic
import PulsarRuntime.Hook.Descriptor

/-!
# The mode of a managed socket

The user's mode is the one the last call on the socket has asked for.  The kernel's mode is
non-blocking as long as nobody calls `ioctl(FIONBIO)` with 0: the hook hands the user's value on
to the system.
-/

namespace PulsarRuntime.Hook

/-! ### The bit of `O_NONBLOCK` -/

theorem nonblocking_eq (flags : BitVec 32) : nonblocking flags = flags.getLsbD 11 := by
  have hbit : O_NONBLOCK = BitVec.twoPow 32 11 := rfl
  simp only [nonblocking, hbit, BitVec.and_twoPow]
  cases flags.getLsbD 11 <;> rfl

theorem nonblocking_or (flags : BitVec 32) : nonblocking (flags ||| O_NONBLOCK) = true := by
  rw [nonblocking_eq, BitVec.getLsbD_or, ← nonblocking_eq O_NONBLOCK]
  exact Bool.or_true _

theorem nonblocking_and_not (flags : BitVec 32) :
    nonblocking (flags &&& ~~~O_NONBLOCK) = false := by
  rw [nonblocking_eq, BitVec.getLsbD_and, ← nonblocking_eq (~~~O_NONBLOCK)]
  exact Bool.and_false _

/-- `F_SETFL` gives the file the mode of the argument. -/
theorem nonblocking_replaced (K : Kernel) (flags arg : BitVec 32) :
    nonblocking ((flags &&& ~~~K.settable) ||| (arg &&& K.settable)) = nonblocking arg := by
  have hset : K.settable.getLsbD 11 = true := (nonblocking_eq _).symm.trans K.nonblock_settable
  rw [nonblocking_eq, nonblocking_eq, BitVec.getLsbD_or, BitVec.getLsbD_and, BitVec.getLsbD_and,
    BitVec.getLsbD_not, hset]
  simp

/-! ### What the system calls do to a file -/

namespace Files

variable {K : Kernel} {files : Files} {fd : ℕ} {f : File}

theorem setFl_ne (arg : BitVec 32) {j : ℕ} (h : j ≠ fd) : (files.setFl K fd arg).1 j = files j := by
  simp only [setFl]
  split
  · rfl
  · split
    · rfl
    · exact Function.update_of_ne h ..

/-- With `O_NONBLOCK` in the argument the file is non-blocking afterwards, if it was before. -/
theorem setFl_self (hf : files fd = some f) {arg : BitVec 32} (harg : nonblocking arg = true) :
    ∃ f', (files.setFl K fd arg).1 fd = some f' ∧ f'.isSocket = f.isSocket ∧
      (nonblocking f.flags = true → nonblocking f'.flags = true) := by
  simp only [setFl, hf]
  split
  · exact ⟨f, hf, rfl, fun h => h⟩
  · refine ⟨_, Function.update_self .., rfl, fun _ => ?_⟩
    rw [nonblocking_replaced, harg]

theorem setFl_granted (hf : files fd = some f) :
    ∃ f', (files.setFl K fd (f.flags ||| O_NONBLOCK)).1 fd = some f' ∧
      f'.isSocket = f.isSocket ∧ nonblocking f'.flags = true := by
  simp only [setFl, hf, K.nonblock_granted, Bool.false_eq_true, if_false]
  refine ⟨_, Function.update_self .., rfl, ?_⟩
  rw [nonblocking_replaced, nonblocking_or]

theorem fionbio_ne (value : BitVec 32) {j : ℕ} (h : j ≠ fd) :
    (files.fionbio fd value).1 j = files j := by
  simp only [fionbio]
  split
  · rfl
  · exact Function.update_of_ne h ..

theorem fionbio_self (hf : files fd = some f) (value : BitVec 32) :
    ∃ f', (files.fionbio fd value).1 fd = some f' ∧ f'.isSocket = f.isSocket ∧
      (value ≠ 0 → nonblocking f'.flags = true) := by
  simp only [fionbio, hf]
  refine ⟨_, Function.update_self .., rfl, fun hvalue => ?_⟩
  rw [if_neg hvalue]
  exact nonblocking_or _

end Files

theorem asked_append (calls : List ModeCall) (c : ModeCall) :
    asked (calls ++ [c]) = c.nonblocking := by
  simp [asked]

/-- Nobody has cleared the mode with `ioctl`. -/
def Uncleared (calls : List ModeCall) : Prop := ∀ c ∈ calls, c ≠ .fionbio 0

theorem uncleared_append {calls : List ModeCall} {c : ModeCall} (h : Uncleared (calls ++ [c])) :
    Uncleared calls ∧ c ≠ .fionbio 0 :=
  ⟨fun d hd => h d (List.mem_append_left _ hd), h c (List.mem_append_right _ (by simp))⟩

namespace Descriptors

variable {K : Kernel} {s s' : Descriptors} {fd : ℕ} {c : FdCtx}

/-! ### The table of contexts -/

theorem find_setCtx (h : s.find fd = some c) (c' : FdCtx) : (s.setCtx fd c').find fd = some c' :=
  Slots.slot_set_self (Slots.lt_of_slot h) _

theorem find_set_ne (o : Option FdCtx) {j : ℕ} (h : j ≠ fd) :
    Slots.slot (s.datas.set fd o) j = s.find j :=
  Slots.slot_set_ne o h

theorem find_del : (s.del fd).find fd = none := Slots.slot_set_none s.datas fd

/-- The vector as `create` leaves it before it writes. -/
theorem room (h : 64 ≤ s.datas.length) (fd : ℕ) :
    let datas := Slots.reserve s.datas fd (fd * 3 / 2)
    fd < datas.length ∧ s.datas.length ≤ datas.length ∧ ∀ j, datas.slot j = s.find j :=
  Slots.reserve_spec fun _ => by omega

theorem find_create (h : 64 ≤ s.datas.length) (fd : ℕ) :
    (s.create K fd).find fd = some (FdCtx.new K s.files fd).1 :=
  Slots.slot_set_self (room h fd).1 _

theorem find_create_ne (h : 64 ≤ s.datas.length) {j : ℕ} (hj : j ≠ fd) :
    (s.create K fd).find j = s.find j :=
  (Slots.slot_set_ne _ hj).trans ((room h fd).2.2 j)

/-! ### The invariant -/

/-- The context of the number belongs to the socket that is open there, and tells both modes. -/
structure Managed (s : Descriptors) (fd : ℕ) (c : FdCtx) : Prop where
  isSocket : c.isSocket = true
  sysNonblock : c.sysNonblock = true
  isClosed : c.isClosed = false
  userNonblock : c.userNonblock = asked (s.modes fd)
  file : ∃ f, s.files fd = some f ∧ f.isSocket = true ∧
    (Uncleared (s.modes fd) → nonblocking f.flags = true)

theorem Managed.managed (h : s.Managed fd c) : c.unmanaged = false := by
  rw [FdCtx.unmanaged, h.isClosed, h.isSocket]
  rfl

structure Inv (s : Descriptors) : Prop where
  length : 64 ≤ s.datas.length
  managed : ∀ fd c, s.find fd = some c → s.Managed fd c

/-- The step is one on the number `fd`. -/
structure Only (fd : ℕ) (s s' : Descriptors) : Prop where
  length : s.datas.length ≤ s'.datas.length
  find : ∀ j, j ≠ fd → s'.find j = s.find j
  files : ∀ j, j ≠ fd → s'.files j = s.files j
  modes : ∀ j, j ≠ fd → s'.modes j = s.modes j

theorem Inv.only (h : s.Inv) (honly : Only fd s s')
    (hfd : ∀ c, s'.find fd = some c → s'.Managed fd c) : s'.Inv := by
  refine ⟨h.length.trans honly.length, fun j c hc => ?_⟩
  by_cases hj : j = fd
  · subst hj
    exact hfd c hc
  · rw [honly.find j hj] at hc
    have hm := h.managed j c hc
    refine ⟨hm.isSocket, hm.sysNonblock, hm.isClosed, ?_, ?_⟩
    · rw [honly.modes j hj, hm.userNonblock]
    · rw [honly.files j hj, honly.modes j hj]
      exact hm.file

/-! ### What the calls do -/

theorem Only.trans {s'' : Descriptors} (h : Only fd s s') (h' : Only fd s' s'') : Only fd s s'' :=
  ⟨h.length.trans h'.length, fun j hj => (h'.find j hj).trans (h.find j hj),
    fun j hj => (h'.files j hj).trans (h.files j hj),
    fun j hj => (h'.modes j hj).trans (h.modes j hj)⟩

theorem setCtx_only (fd : ℕ) (c : FdCtx) : Only fd s (s.setCtx fd c) :=
  ⟨(List.length_set ..).ge, fun _ hj => find_set_ne _ hj, fun _ _ => rfl, fun _ _ => rfl⟩

theorem log_only (fd : ℕ) (call : ModeCall) : Only fd s (s.log fd call) :=
  ⟨le_rfl, fun _ _ => rfl, fun _ _ => rfl, fun _ hj => Function.update_of_ne hj ..⟩

theorem openF_only (fd : ℕ) (f : File) : Only fd s (s.openF fd f) :=
  ⟨le_rfl, fun _ _ => rfl, fun _ hj => Function.update_of_ne hj ..,
    fun _ hj => Function.update_of_ne hj ..⟩

theorem setFlF_only (fd : ℕ) (arg : BitVec 32) : Only fd s (s.setFlF K fd arg).1 :=
  ⟨le_rfl, fun _ _ => rfl, fun _ hj => Files.setFl_ne arg hj, fun _ _ => rfl⟩

theorem fionbioF_only (fd : ℕ) (value : BitVec 32) : Only fd s (s.fionbioF fd value).1 :=
  ⟨le_rfl, fun _ _ => rfl, fun _ hj => Files.fionbio_ne value hj, fun _ _ => rfl⟩

theorem del_only (fd : ℕ) : Only fd s (s.del fd) :=
  ⟨(List.length_set ..).ge, fun _ hj => find_set_ne _ hj, fun _ _ => rfl, fun _ _ => rfl⟩

theorem closeF_only (fd : ℕ) : Only fd s (s.closeF fd) :=
  ⟨le_rfl, fun _ _ => rfl, fun _ hj => Function.update_of_ne hj .., fun _ _ => rfl⟩

/-- The system's part of making a context. -/
theorem init_files_ne (files : Files) (c : FdCtx) {j : ℕ} (hj : j ≠ c.fd) :
    (c.init K files).2 j = files j := by
  simp only [FdCtx.init]
  split
  · rfl
  · dsimp only
    split
    · exact Files.setFl_ne _ hj
    · rfl

theorem create_only (h : 64 ≤ s.datas.length) (fd : ℕ) : Only fd s (s.create K fd) := by
  refine ⟨?_, fun j hj => find_create_ne h hj,
    fun j hj => init_files_ne s.files (.blank fd) hj, fun _ _ => rfl⟩
  rw [create, List.length_set]
  exact (room h fd).2.1

theorem new_socket {f : File} (hf : s.files fd = some f) (hsock : f.isSocket = true) :
    (FdCtx.new K s.files fd).1 = ⟨true, true, true, false, false, fd, -1, -1⟩ ∧
      ∃ f', (FdCtx.new K s.files fd).2 fd = some f' ∧ f'.isSocket = true ∧
        nonblocking f'.flags = true := by
  simp only [FdCtx.new, FdCtx.init, FdCtx.blank, hf, hsock, Files.getFl, Bool.false_eq_true,
    if_false, Option.isSome_some, Option.any_some, Bool.true_and, true_and]
  split
  · obtain ⟨f', hf', hsame, hmode⟩ := Files.setFl_granted (K := K) hf
    exact ⟨f', hf', hsame.trans hsock, hmode⟩
  · rename_i hmode
    exact ⟨f, hf, hsock, by simpa using hmode⟩

/-- A context made for a socket just opened. -/
theorem create_managed (h : 64 ≤ s.datas.length) {f : File} (hf : s.files fd = some f)
    (hsock : f.isSocket = true) (hmodes : s.modes fd = []) (hc : (s.create K fd).find fd = some c) :
    (s.create K fd).Managed fd c := by
  obtain ⟨hnew, f', hf', hsame, hmode⟩ := new_socket (K := K) hf hsock
  rw [find_create h, hnew] at hc
  cases hc
  refine ⟨rfl, rfl, rfl, ?_, f', hf', hsame, fun _ => hmode⟩
  show false = asked (s.modes fd)
  rw [hmodes]
  rfl

variable (h : s.Inv)
include h

theorem Inv.free (hfree : s.files fd = none) : s.find fd = none := by
  cases hc : s.find fd with
  | none => rfl
  | some c =>
    obtain ⟨f, hf, _⟩ := (h.managed fd c hc).file
    rw [hfree] at hf
    cases hf

theorem Inv.openF (hfree : s.files fd = none) (f : File) : (s.openF fd f).Inv := by
  apply h.only (openF_only fd f)
  intro c hc
  exact absurd ((h.free hfree).symm.trans hc) (by simp)

theorem Inv.socket (hfree : s.files fd = none) (hook : Bool) (flags : BitVec 32) :
    (s.socket K hook fd flags).Inv := by
  have hopen := h.openF hfree ⟨true, flags⟩
  cases hook with
  | false => exact hopen
  | true =>
    have hnone : (s.openF fd ⟨true, flags⟩).find fd = none := h.free hfree
    simp only [Descriptors.socket, ensure, hnone, if_true]
    apply hopen.only (create_only hopen.length fd)
    intro c hc
    exact create_managed hopen.length (Function.update_self ..) rfl (Function.update_self ..) hc

/-- Both mode calls: the context takes the user's mode, the system changes the file, and the call
is logged. -/
theorem Inv.mode (hc : s.find fd = some c) (call : ModeCall) (honly : Only fd s s')
    (hmodes : s'.modes fd = s.modes fd)
    (hfind : s'.find fd = some { c with userNonblock := call.nonblocking })
    (hfile : ∀ f, s.files fd = some f → ∃ f', s'.files fd = some f' ∧ f'.isSocket = f.isSocket ∧
      (nonblocking f.flags = true → call ≠ .fionbio 0 → nonblocking f'.flags = true)) :
    (s'.log fd call).Inv := by
  apply h.only (honly.trans (log_only fd call))
  intro c' hc'
  cases hfind.symm.trans hc'
  have hlog : (s'.log fd call).modes fd = s.modes fd ++ [call] := by
    rw [← hmodes]
    exact Function.update_self ..
  have hm := h.managed fd c hc
  obtain ⟨f, hf, hsock, hflag⟩ := hm.file
  obtain ⟨f', hf', hsame, hmode⟩ := hfile f hf
  refine ⟨hm.isSocket, hm.sysNonblock, hm.isClosed, ?_, f', hf', hsame.trans hsock, fun hun => ?_⟩
  · rw [hlog, asked_append]
  · rw [hlog] at hun
    exact hmode (hflag (uncleared_append hun).1) (uncleared_append hun).2

/-- A step on a number without context. -/
theorem Inv.unmanaged (honly : Only fd s s') (hnone : s'.find fd = none) : s'.Inv := by
  apply h.only honly
  intro c hc
  cases hnone.symm.trans hc

theorem Inv.fcntlSetFl (fd : ℕ) (arg : BitVec 32) :
    ((s.fcntlSetFl K fd arg).1.log fd (.setFl arg)).Inv := by
  cases hc : s.find fd with
  | none =>
    simp only [Descriptors.fcntlSetFl, hc]
    exact h.unmanaged ((setFlF_only fd arg).trans (log_only fd _)) hc
  | some c =>
    have hm := h.managed fd c hc
    simp only [Descriptors.fcntlSetFl, hc, hm.managed, Bool.false_eq_true, if_false]
    rw [if_pos hm.sysNonblock]
    apply h.mode hc (.setFl arg) ((setCtx_only fd _).trans (setFlF_only fd _)) rfl
      (find_setCtx hc _)
    intro f hf
    obtain ⟨f', hf', hsame, hmode⟩ := Files.setFl_self (K := K) hf (nonblocking_or arg)
    exact ⟨f', hf', hsame, fun hflag _ => hmode hflag⟩

theorem Inv.ioctl (fd : ℕ) (value : BitVec 32) :
    ((s.ioctl fd value).1.log fd (.fionbio value)).Inv := by
  cases hc : s.find fd with
  | none =>
    simp only [Descriptors.ioctl, hc]
    exact h.unmanaged ((fionbioF_only fd value).trans (log_only fd _)) hc
  | some c =>
    simp only [Descriptors.ioctl, hc, (h.managed fd c hc).managed, Bool.false_eq_true, if_false]
    apply h.mode hc (.fionbio value) ((setCtx_only fd _).trans (fionbioF_only fd _)) rfl
      (find_setCtx hc _)
    intro f hf
    obtain ⟨f', hf', hsame, hmode⟩ := Files.fionbio_self hf value
    refine ⟨f', hf', hsame, fun _ hcall => hmode ?_⟩
    rintro rfl
    exact hcall rfl

theorem Inv.setsockopt (fd : ℕ) (type : TimeoutType) (v : BitVec 64) :
    (s.setsockopt fd type v).Inv := by
  cases hc : s.find fd with
  | none =>
    simp only [Descriptors.setsockopt, hc]
    exact h
  | some c =>
    simp only [Descriptors.setsockopt, hc]
    apply h.only (setCtx_only fd _)
    intro c' hc'
    rw [find_setCtx hc] at hc'
    cases hc'
    obtain ⟨hsock, hsys, hclosed, huser, hfile⟩ := h.managed fd c hc
    cases type <;> exact ⟨hsock, hsys, hclosed, huser, hfile⟩

end Descriptors

/-- No number that has a context is closed on a thread without hooks. -/
def Hooked (s : Descriptors) : Action → Prop
  | .closeF fd => s.find fd = none
  | _ => True

instance (s : Descriptors) (a : Action) : Decidable (Hooked s a) := by
  rcases a <;> (dsimp only [Hooked]; infer_instance)

namespace Descriptors

variable {K : Kernel} {s : Descriptors}

theorem Inv.next (h : s.Inv) {a : Action} (he : (descriptors K).enabled s a) (hok : Hooked s a) :
    ((descriptors K).next s a).Inv := by
  cases a with
  | socket hook fd flags => exact h.socket he hook flags
  | openF fd f => exact h.openF he f
  | setFl fd arg => exact h.fcntlSetFl fd arg
  | fionbio fd value => exact h.ioctl fd value
  | setsockopt fd type v => exact h.setsockopt fd type v
  | del fd => exact h.unmanaged (del_only fd) find_del
  | closeF fd => exact h.unmanaged (closeF_only fd) hok

theorem inv_of_init (h : (descriptors K).init s) : s.Inv := by
  have hdatas : s.datas = List.replicate 64 none := h
  refine ⟨by rw [hdatas, List.length_replicate], fun fd c hc => ?_⟩
  rw [find, hdatas, Slots.slot_replicate] at hc
  cases hc

theorem reach_inv (h : (descriptors K).ReachVia Hooked s) : s.Inv :=
  h.invariant (fun _ => inv_of_init) (fun _ _ hi he hok => hi.next he hok)

end Descriptors

/-- **The mode of a managed socket is virtualised.**  A number that has a context is an open
socket.  `F_GETFL` reports the file's flags with the mode that the last mode call on the socket
has asked for.  Without a `FIONBIO` of 0 among these calls the socket is non-blocking in the
kernel. -/
theorem nonblock_virtualised (K : Kernel) {s : Descriptors}
    (h : (descriptors K).ReachVia Hooked s) {fd : ℕ} {c : FdCtx} (hc : s.find fd = some c) :
    ∃ f, s.files fd = some f ∧ f.isSocket = true ∧
      (Uncleared (s.modes fd) → nonblocking f.flags = true) ∧
      s.fcntlGetFl fd = (if asked (s.modes fd) then f.flags ||| O_NONBLOCK
        else f.flags &&& ~~~O_NONBLOCK) ∧
      nonblocking (s.fcntlGetFl fd) = asked (s.modes fd) := by
  have hm := (Descriptors.reach_inv h).managed fd c hc
  obtain ⟨f, hf, hsock, hflag⟩ := hm.file
  have hget : s.fcntlGetFl fd = (if asked (s.modes fd) then f.flags ||| O_NONBLOCK
      else f.flags &&& ~~~O_NONBLOCK) := by
    simp only [Descriptors.fcntlGetFl, hc, hm.managed, Bool.false_eq_true, if_false,
      hm.userNonblock, Files.getFl, hf]
  refine ⟨f, hf, hsock, hflag, hget, ?_⟩
  rw [hget]
  cases asked (s.modes fd)
  · exact nonblocking_and_not _
  · exact nonblocking_or _

/-- `fcntl(5, F_SETFL, 0)` on a socket that the user had made non-blocking. -/
theorem nonblock_virtualised_reset :
    ∃ f, ((descriptors linux).run .fresh [.socket true 5 2, .setFl 5 0x802, .setFl 5 0]).files 5 =
        some f ∧ nonblocking f.flags = true := by
  have hreach : (descriptors linux).ReachVia Hooked
      ((descriptors linux).run .fresh [.socket true 5 2, .setFl 5 0x802, .setFl 5 0]) :=
    Machine.reachVia_run (.start rfl) (by decide +kernel)
  have hfind : ((descriptors linux).run .fresh [.socket true 5 2, .setFl 5 0x802,
      .setFl 5 0]).find 5 = some ⟨true, true, true, false, false, 5, -1, -1⟩ := by decide +kernel
  obtain ⟨f, hf, _, hflag, _⟩ := nonblock_virtualised linux hreach hfind
  refine ⟨f, hf, hflag ?_⟩
  unfold Uncleared
  decide +kernel

/-- `ioctl(5, FIONBIO, 0)` makes the managed socket blocking in the kernel. -/
theorem nonblock_cleared :
    ∃ s c f, (descriptors linux).ReachVia Hooked s ∧ s.find 5 = some c ∧ c.isSocket = true ∧
      s.files 5 = some f ∧ nonblocking f.flags = false :=
  ⟨(descriptors linux).run .fresh [.socket true 5 2, .fionbio 5 0],
    ⟨true, true, true, false, false, 5, -1, -1⟩, ⟨true, 2⟩,
    Machine.reachVia_run (.start rfl) (by decide +kernel), by decide +kernel⟩

end PulsarRuntime.Hook
