import PulsarRuntime.Rpc.Integrity

/-!
# Which frames the stream is made of

`Integrity` says that the stream is a sequence of frames.  Here they are named: the frames of the
writers that have sent anything, each once, in the order in which they began (`Carries`).  Of the
last one a part may be missing, `rest`, which its writer is about to send; once the connection is
closed, the part is missing for good.
-/

namespace PulsarRuntime.Rpc

/-- What a writer has not sent of its frame. -/
def Writer.unsent [HeaderCodec] (w : Writer) : List UInt8 := w.frame.bytes.drop w.sent

theorem Writer.sent_of_unsent_nil [HeaderCodec] {w : Writer} (h : w.unsent = [])
    (hle : w.sent ≤ w.size) : w.sent = w.size := Nat.le_antisymm hle (List.drop_eq_nil_iff.mp h)

namespace Stream

/-- The frames on the stream, by their writers. -/
def frames (s : Stream) (order : List ℕ) : List Frame := order.map fun k => (s.writers k).frame

/-- What a step leaves as it is: the frames, the writers that are done, and what has been sent. -/
structure Keeps (s s' : Stream) : Prop where
  count : s.count ≤ s'.count
  frame : ∀ k < s.count, (s'.writers k).frame = (s.writers k).frame
  done : ∀ k < s.count, (s.writers k).pc = .done → s'.writers k = s.writers k
  sent : s.sent <+: s'.sent

/-- Nothing is sent. -/
structure Unsent (s s' : Stream) : Prop extends s.Keeps s' where
  nothing : s'.sent = s.sent
  part : ∀ k < s.count, (s'.writers k).sent = (s.writers k).sent
  added : ∀ k, s.count ≤ k → k < s'.count → (s'.writers k).sent = 0

variable {s s' : Stream} {order : List ℕ} {rest : List UInt8} {k n : ℕ}

theorem frames_congr (hcount : ∀ k ∈ order, k < s.count)
    (hsame : ∀ k < s.count, (s'.writers k).frame = (s.writers k).frame) :
    s'.frames order = s.frames order :=
  List.map_congr_left fun k hk => hsame k (hcount k hk)

theorem frames_append (order more : List ℕ) :
    s.frames (order ++ more) = s.frames order ++ s.frames more := List.map_append

theorem Keeps.refl (s : Stream) : s.Keeps s :=
  ⟨le_rfl, fun _ _ => rfl, fun _ _ _ => rfl, List.prefix_rfl⟩

/-- A step of one writer that is not done. -/
theorem keeps_of_writer (hpc : (s.writers k).pc ≠ .done) (hcount : s'.count = s.count)
    (hframe : (s'.writers k).frame = (s.writers k).frame)
    (hother : ∀ j, j ≠ k → s'.writers j = s.writers j) (hsent : s.sent <+: s'.sent) :
    s.Keeps s' := by
  refine ⟨hcount.ge, fun j _ => ?_, fun j _ hdone => ?_, hsent⟩
  · by_cases hjk : j = k
    · rw [hjk, hframe]
    · rw [hother j hjk]
  · exact hother j fun heq => hpc (heq ▸ hdone)

/-- A writer moves on; the mutex and the flags of the connection play no part. -/
theorem unsent_of_setPc {p pc : WriterPc} (hpc : (s.writers k).pc = p) (hp : p ≠ .done)
    (hcount : s'.count = s.count) (hwriters : s'.writers = (s.setPc k pc).writers)
    (hsent : s'.sent = s.sent) : s.Unsent s' := by
  refine ⟨keeps_of_writer (fun hdone => hp (hpc.symm.trans hdone)) hcount ?_ (fun j hj => ?_) ?_,
    hsent, fun j _ => ?_, fun j hj hj' => ?_⟩
  · rw [hwriters, (setPc_same k pc k).1]
  · rw [hwriters]
    exact setWriter_ne _ hj
  · rw [hsent]
  · rw [hwriters, (setPc_same k pc j).2]
  · omega

variable [HeaderCodec]

/-- What the holder of the write mutex has still to send of the frame it has begun. -/
def missing (s : Stream) : List UInt8 :=
  match s.holder with
  | none => []
  | some k => if (s.writers k).sent = 0 then [] else (s.writers k).unsent

/-- The stream, with `rest`, consists of the frames of the writers in `order`. -/
structure Carries (s : Stream) (order : List ℕ) (rest : List UInt8) : Prop where
  nodup : order.Nodup
  begun : ∀ k, k ∈ order ↔ k < s.count ∧ 0 < (s.writers k).sent
  bytes : s.sent ++ rest = wire (s.frames order)
  current : s.closed = false → rest = s.missing
  whole : ∀ k ∈ order, (s.writers k).sent = (s.writers k).size ∨
    order.getLast? = some k ∧ rest = (s.writers k).unsent

theorem Inv.sent_le (h : s.Inv) (hk : k < s.count) : (s.writers k).sent ≤ (s.writers k).size := by
  have hp := h.progress k hk
  unfold Writer.Progress at hp
  split at hp <;> omega

theorem Carries.unsent (h : s.Carries order rest) (hu : s.Unsent s')
    (hcurrent : s'.closed = false → s.closed = false ∧ s'.missing = s.missing) :
    s'.Carries order rest where
  nodup := h.nodup
  begun := by
    intro k
    rw [h.begun k]
    constructor
    · rintro ⟨hk, hpos⟩
      rw [hu.part k hk]
      exact ⟨Nat.lt_of_lt_of_le hk hu.count, hpos⟩
    · rintro ⟨hk, hpos⟩
      by_cases hold : k < s.count
      · rw [hu.part k hold] at hpos
        exact ⟨hold, hpos⟩
      · rw [hu.added k (Nat.le_of_not_lt hold) hk] at hpos
        cases hpos
  bytes := by
    rw [hu.nothing, frames_congr (fun k hk => ((h.begun k).mp hk).1) hu.frame]
    exact h.bytes
  current := fun hopen => (h.current (hcurrent hopen).1).trans (hcurrent hopen).2.symm
  whole := by
    intro k hk
    have hlt := ((h.begun k).mp hk).1
    rw [Writer.size, Writer.unsent, hu.frame k hlt, hu.part k hlt]
    exact h.whole k hk

theorem missing_congr (hi : s.Inv) (hu : s.Unsent s') (hholder : s'.holder = s.holder) :
    s'.missing = s.missing := by
  rw [missing, missing, hholder]
  cases hh : s.holder with
  | none => rfl
  | some k =>
    simp only [Writer.unsent, hu.frame k (hi.held k hh), hu.part k (hi.held k hh)]

theorem unsent_call (m : Message) : s.Unsent (s.call m) := by
  obtain ⟨hsent, -, -, hold⟩ := call_frame (s := s) m
  have hadd (t : Stream) (f : Frame) (hcount : t.count = s.count) :
      s.count ≤ (t.addWriter f).count ∧ ∀ k, s.count ≤ k → k < (t.addWriter f).count →
        ((t.addWriter f).writers k).sent = 0 := by
    refine ⟨hcount.ge.trans (Nat.le_succ _), fun k hk hk' => ?_⟩
    obtain rfl : k = t.count := by
      change k < t.count + 1 at hk'
      omega
    rw [show (t.addWriter f).writers t.count = ⟨f, 0, .waiting⟩ from Function.update_self ..]
  have hnew : s.count ≤ (s.call m).count ∧ ∀ k, s.count ≤ k → k < (s.call m).count →
      ((s.call m).writers k).sent = 0 := by
    cases m with
    | request serviceName methodName args =>
      unfold Stream.call
      dsimp only
      split
      · exact ⟨le_rfl, fun _ hk hk' => absurd hk' (Nat.not_lt.mpr hk)⟩
      · exact hadd _ _ rfl
    | response reqId completion => exact hadd _ _ rfl
  refine ⟨⟨hnew.1, fun k hk => ?_, fun k hk _ => hold k hk, ?_⟩, hsent, fun k hk => ?_, hnew.2⟩
  · rw [hold k hk]
  · rw [hsent]
  · rw [hold k hk]

/-- The mutex changes hands where nothing is missing. -/
theorem missing_lock (h : s.Inv) (hk : k < s.count) (hpc : (s.writers k).pc = .waiting)
    (hfree : s.holder = none) :
    ({ s.setPc k .locked with holder := some k } : Stream).missing = s.missing := by
  have hzero : (s.writers k).sent = 0 := (h.progress k hk).at hpc
  rw [missing, missing, hfree]
  simp only [(setPc_same k .locked k).2, hzero, if_true]

theorem missing_unlock (h : s.Inv) (hk : k < s.count) (hpc : (s.writers k).pc = .finished)
    (hok : ClosesTorn s (.unlock k)) (hopen : s.closed = false) :
    ({ s.setPc k .done with holder := none } : Stream).missing = s.missing := by
  have hholder : s.holder = some k := h.holder hk (by rw [hpc]; rfl)
  have hle : (s.writers k).sent ≤ (s.writers k).size := (h.progress k hk).at hpc
  have hwhole : (s.writers k).sent = 0 ∨ (s.writers k).sent = (s.writers k).size := by
    by_contra hpart
    rw [not_or] at hpart
    have hclosed := hok (Nat.pos_of_ne_zero hpart.1) (Nat.lt_of_le_of_ne hle hpart.2)
    exact absurd (hopen.symm.trans hclosed) Bool.false_ne_true
  simp only [missing, hholder]
  split
  · rfl
  · rw [Writer.unsent, hwhole.resolve_left (by assumption), Writer.size, List.drop_length]

variable {a : StreamAction} {side : Side}

/-- The steps that send nothing. -/
theorem unsent_next (he : (stream side).enabled s a)
    (hsend : ∀ k n, a ≠ .send k n) : s.Unsent ((stream side).next s a) := by
  cases a with
  | call m => exact unsent_call m
  | lock k => exact unsent_of_setPc he.2.1 (by decide) rfl rfl rfl
  | check k => exact unsent_of_setPc he.2 (by decide) rfl rfl rfl
  | enter k =>
    change s.Unsent (s.enter k)
    unfold Stream.enter
    split <;> exact unsent_of_setPc he.2 (by decide) rfl rfl rfl
  | send k n => exact absurd rfl (hsend k n)
  | fail k => exact unsent_of_setPc he.2 (by decide) rfl rfl rfl
  | block k => exact unsent_of_setPc he.2.1 (by decide) rfl rfl rfl
  | wake k ready => exact unsent_of_setPc he.2 (by decide) rfl rfl rfl
  | leave k => exact unsent_of_setPc he.2 (by decide) rfl rfl rfl
  | unlock k => exact unsent_of_setPc he.2 (by decide) rfl rfl rfl
  | close =>
    exact ⟨⟨le_rfl, fun _ _ => rfl, fun _ _ _ => rfl, List.prefix_rfl⟩, rfl, fun _ _ => rfl,
      fun _ hk hk' => absurd hk' (Nat.not_lt.mpr hk)⟩

/-- They leave what is missing as it is, unless they close. -/
theorem missing_next (h : s.Inv)
    (he : (stream side).enabled s a) (hok : ClosesTorn s a) (hsend : ∀ k n, a ≠ .send k n)
    (hopen : ((stream side).next s a).closed = false) :
    s.closed = false ∧ ((stream side).next s a).missing = s.missing := by
  have hu := unsent_next he hsend
  cases a with
  | call m =>
    obtain ⟨-, hclosed, hholder, -⟩ := call_frame (s := s) m
    exact ⟨hclosed.symm.trans hopen, missing_congr h hu hholder⟩
  | lock k => exact ⟨hopen, missing_lock h he.1 he.2.1 he.2.2⟩
  | unlock k => exact ⟨hopen, missing_unlock h he.1 he.2 hok hopen⟩
  | enter k =>
    have hsame : (s.enter k).holder = s.holder ∧ (s.enter k).closed = s.closed := by
      unfold Stream.enter
      split <;> exact ⟨rfl, rfl⟩
    exact ⟨hsame.2.symm.trans hopen, missing_congr h hu hsame.1⟩
  | close => cases hopen
  | _ => exact ⟨hopen, missing_congr h hu rfl⟩

theorem send_frame (k n j : ℕ) : ((s.send k n).writers j).frame = (s.writers j).frame := by
  by_cases hjk : j = k
  · rw [hjk, send_writer_self]
  · rw [show (s.send k n).writers j = s.writers j from setWriter_ne _ hjk]

theorem send_sent (k n j : ℕ) :
    ((s.send k n).writers j).sent = (s.writers j).sent + if j = k then n else 0 := by
  by_cases hjk : j = k
  · rw [hjk, send_writer_self, if_pos rfl]
  · rw [show (s.send k n).writers j = s.writers j from setWriter_ne _ hjk, if_neg hjk, Nat.add_zero]

/-- What is on the stream and what its writer has still to send, after a part has been sent. -/
theorem send_bytes (hholder : s.holder = some k) (hpos : 0 < n) :
    (s.send k n).missing = ((s.send k n).writers k).unsent ∧
      (s.send k n).sent ++ (s.send k n).missing = s.sent ++ (s.writers k).unsent := by
  have hmissing : (s.send k n).missing = ((s.send k n).writers k).unsent := by
    rw [missing, show (s.send k n).holder = some k from hholder]
    simp only [send_sent, if_true]
    rw [if_neg (by omega)]
  refine ⟨hmissing, ?_⟩
  rw [hmissing, Writer.unsent, Writer.unsent, send_frame, send_sent, if_pos rfl]
  show s.sent ++ _ ++ _ = _
  rw [List.append_assoc, ← List.drop_drop, List.take_append_drop]

theorem send_size (k n j : ℕ) : ((s.send k n).writers j).size = (s.writers j).size := by
  rw [Writer.size, Writer.size, send_frame]

theorem send_frames (k n : ℕ) (order : List ℕ) : (s.send k n).frames order = s.frames order :=
  List.map_congr_left fun j _ => send_frame k n j

section

variable (h : s.Carries order rest)
include h

/-- A writer begins its frame. -/
theorem Carries.begin (hi : s.Inv) (hk : k < s.count)
    (hholder : s.holder = some k) (hopen : s.closed = false) (hpos : 0 < n)
    (hzero : (s.writers k).sent = 0) :
    (s.send k n).Carries (order ++ [k]) (s.send k n).missing := by
  have hrest : rest = [] := by
    rw [h.current hopen, missing, hholder]
    exact if_pos hzero
  have hnew : k ∉ order := fun hmem => absurd hzero (Nat.ne_of_gt ((h.begun k).mp hmem).2)
  obtain ⟨hmissing, hbytes⟩ := send_bytes hholder hpos
  refine ⟨?_, fun j => ?_, ?_, fun _ => rfl, fun j hj => ?_⟩
  · rw [List.nodup_append_comm]
    exact List.nodup_cons.mpr ⟨hnew, h.nodup⟩
  · rw [List.mem_append, h.begun j, List.mem_singleton, send_sent]
    show _ ↔ j < s.count ∧ _
    by_cases hjk : j = k
    · subst hjk
      simp only [if_true, hk, true_and, or_true, true_iff]
      omega
    · simp [hjk]
  · have hsent : s.sent = wire (s.frames order) := by
      rw [← h.bytes, hrest, List.append_nil]
    rw [hbytes, send_frames, hsent, Writer.unsent, hzero, List.drop_zero, frames_append]
    rw [← wire_singleton, wire_append]
    rfl
  · rcases List.mem_append.mp hj with hj | hj
    · -- nothing was missing, so the frames before are whole
      have hjk : j ≠ k := fun heq => hnew (heq ▸ hj)
      left
      rw [send_sent, if_neg hjk, Nat.add_zero, send_size]
      rcases h.whole j hj with hwhole | ⟨-, hunsent⟩
      · exact hwhole
      · exact Writer.sent_of_unsent_nil (hunsent.symm.trans hrest)
          (hi.sent_le ((h.begun j).mp hj).1)
    · obtain rfl := List.mem_singleton.mp hj
      exact .inr ⟨List.getLast?_concat, hmissing⟩

/-- A writer goes on with its frame. -/
theorem Carries.extend (hk : k < s.count)
    (hholder : s.holder = some k) (hopen : s.closed = false) (hpos : 0 < n)
    (hpart : (s.writers k).sent ≠ 0) (hlt : (s.writers k).sent < (s.writers k).size) :
    (s.send k n).Carries order (s.send k n).missing := by
  have hrest : rest = (s.writers k).unsent := by
    rw [h.current hopen, missing, hholder]
    exact if_neg hpart
  have hmem : k ∈ order := (h.begun k).mpr ⟨hk, Nat.pos_of_ne_zero hpart⟩
  have hlast : order.getLast? = some k := ((h.whole k hmem).resolve_left (Nat.ne_of_lt hlt)).1
  obtain ⟨hmissing, hbytes⟩ := send_bytes hholder hpos
  refine ⟨h.nodup, fun j => ?_, ?_, fun _ => rfl, fun j hj => ?_⟩
  · rw [h.begun j, send_sent]
    show _ ↔ j < s.count ∧ _
    by_cases hjk : j = k
    · subst hjk
      simp only [if_true, hk, true_and]
      omega
    · simp [hjk]
  · rw [hbytes, send_frames, ← h.bytes, hrest]
  · by_cases hjk : j = k
    · subst hjk
      exact .inr ⟨hlast, hmissing⟩
    · left
      rw [send_sent, if_neg hjk, Nat.add_zero, send_size]
      rcases h.whole j hj with hwhole | ⟨hlast', -⟩
      · exact hwhole
      · exact absurd (Option.some.inj (hlast'.symm.trans hlast)) hjk

theorem Carries.send (hi : s.Inv) (hk : k < s.count)
    (hpc : (s.writers k).pc = .writing) (hopen : s.closed = false) (hpos : 0 < n) :
    ∃ more rest', (s.send k n).Carries (order ++ more) rest' := by
  have hholder : s.holder = some k := hi.holder hk (by rw [hpc]; rfl)
  by_cases hzero : (s.writers k).sent = 0
  · exact ⟨[k], _, h.begin hi hk hholder hopen hpos hzero⟩
  · refine ⟨[], (s.send k n).missing, ?_⟩
    rw [List.append_nil]
    exact h.extend hk hholder hopen hpos hzero ((hi.progress k hk).at hpc)

/-- Every step keeps the frames that are on the stream and may begin another. -/
theorem Carries.next (hi : s.Inv) (he : (stream side).enabled s a) (hok : ClosesTorn s a) :
    ∃ more rest', ((stream side).next s a).Carries (order ++ more) rest' := by
  by_cases hsend : ∃ k n, a = .send k n
  · obtain ⟨k, n, rfl⟩ := hsend
    exact h.send hi he.1 he.2.1 he.2.2.1 he.2.2.2.1
  · have hother : ∀ k n, a ≠ .send k n := fun k n heq => hsend ⟨k, n, heq⟩
    refine ⟨[], rest, ?_⟩
    rw [List.append_nil]
    exact h.unsent (unsent_next he hother) (missing_next hi he hok hother)

end

theorem keeps_call (s : Stream) (m : Message) : s.Keeps (s.call m) := (unsent_call m).toKeeps

theorem keeps_next (he : (stream side).enabled s a) : s.Keeps ((stream side).next s a) := by
  by_cases hsend : ∃ k n, a = .send k n
  · obtain ⟨k, n, rfl⟩ := hsend
    refine keeps_of_writer ?_ rfl (send_frame k n k) (fun _ hj => setWriter_ne _ hj)
      (List.prefix_append ..)
    rw [he.2.1]
    decide
  · exact (unsent_next he fun k n heq => hsend ⟨k, n, heq⟩).toKeeps

/-! ### Reading -/

/-- The other end has read the first `n` frames, which are `read` bytes. -/
structure Passed (s : Stream) (order : List ℕ) (n read : ℕ) : Prop where
  carries : ∃ rest, s.Carries order rest
  le : n ≤ order.length
  read_eq : read = (wire (s.frames (order.take n))).length
  arrived : read ≤ s.sent.length

variable {read : ℕ}

theorem passed_of_init (h : (stream side).init s) : s.Passed [] 0 0 := by
  obtain ⟨hcount, hholder, -, -, hsent⟩ := h
  have hnone : ∀ k, ¬k < s.count := fun k hk => by omega
  refine ⟨⟨[], List.nodup_nil, fun k => ?_, ?_, fun _ => ?_, fun k hk => ?_⟩, le_rfl, rfl,
    Nat.zero_le _⟩
  · exact iff_of_false List.not_mem_nil fun hk => hnone k hk.1
  · rw [hsent]
    rfl
  · rw [missing, hholder]
  · cases hk

variable (h : s.Passed order n read)
include h

theorem Passed.next (hi : s.Inv) (he : (stream side).enabled s a) (hok : ClosesTorn s a) :
    ∃ more, ((stream side).next s a).Passed (order ++ more) n read := by
  obtain ⟨rest, hc⟩ := h.carries
  obtain ⟨more, rest', hc'⟩ := hc.next hi he hok
  have hkeeps := keeps_next he
  refine ⟨more, ⟨rest', hc'⟩, ?_, ?_, h.arrived.trans hkeeps.sent.length_le⟩
  · rw [List.length_append]
    exact Nat.le_add_right_of_le h.le
  · rw [List.take_append_of_le_length h.le, h.read_eq, frames_congr _ hkeeps.frame]
    exact fun k hk => ((hc.begun k).mp (List.mem_of_mem_take hk)).1

/-- What has arrived belongs to the frames that have not been read. -/
theorem Passed.ahead {arrived : List UInt8} (harrived : arrived <+: s.sent.drop read) :
    ∃ lost, arrived ++ lost = wire (s.frames (order.drop n)) := by
  obtain ⟨rest, hc⟩ := h.carries
  obtain ⟨more, hmore⟩ := harrived
  refine ⟨more ++ rest, ?_⟩
  have hsplit : wire (s.frames (order.take n)) ++ wire (s.frames (order.drop n)) =
      s.sent ++ rest := by
    rw [hc.bytes, ← wire_append, ← frames_append, List.take_append_drop]
  have hdrop := congrArg (List.drop read) hsplit
  rw [h.read_eq, List.drop_left, ← h.read_eq, List.drop_append_of_le_length h.arrived] at hdrop
  rw [hdrop, ← hmore, List.append_assoc]

/-- The next frame is read. -/
theorem Passed.step (hk : order[n]? = some k)
    {arrived left : List UInt8} (harrived : arrived <+: s.sent.drop read)
    (hread : arrived = (s.writers k).frame.bytes ++ left) :
    s.Passed order (n + 1) (read + (arrived.length - left.length)) := by
  obtain ⟨hlt, rfl⟩ := List.getElem?_eq_some_iff.mp hk
  have hlength : arrived.length - left.length = (s.writers order[n]).frame.bytes.length := by
    rw [hread, List.length_append, Nat.add_sub_cancel]
  refine ⟨h.carries, hlt, ?_, ?_⟩
  · rw [hlength, List.take_add_one, hk, Option.toList_some, frames_append, wire_append,
      List.length_append, ← h.read_eq]
    simp [frames, wire]
  · have hle := harrived.length_le
    have harr := h.arrived
    rw [List.length_drop] at hle
    omega

/-- A frame that has been read has been sent whole. -/
theorem Passed.whole (hi : s.Inv) {j : ℕ} (hj : j < n)
    (hk : order[j]? = some k) : (s.writers k).sent = (s.writers k).size := by
  obtain ⟨rest, hc⟩ := h.carries
  rcases hc.whole k (List.mem_of_getElem? hk) with hwhole | ⟨hlast, hrest⟩
  · exact hwhole
  · -- the last frame has been read, so nothing of it is missing
    have hn : n = order.length := by
      rw [List.getLast?_eq_getElem?] at hlast
      have hj' : j = order.length - 1 :=
        (List.getElem?_inj (List.getElem?_eq_some_iff.mp hk).1 hc.nodup).mp (hk.trans hlast.symm)
      have hle := h.le
      omega
    have hlength := congrArg List.length hc.bytes
    have hread := h.read_eq
    rw [hn, List.take_length, ← hlength, List.length_append] at hread
    have harrived := h.arrived
    have hnil : (s.writers k).unsent = [] := by
      rw [← hrest]
      exact List.length_eq_zero_iff.mp (by omega)
    exact Writer.sent_of_unsent_nil hnil (hi.sent_le ((hc.begun k).mp (List.mem_of_getElem? hk)).1)

end Stream

end PulsarRuntime.Rpc
