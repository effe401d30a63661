import PulsarRuntime.Lib.Family
import PulsarRuntime.Rpc.Stream

/-!
# What is on the stream

`Stream.Shape s tail` says how the stream can end behind its complete frames: not at all, in the
frame that the holder of the write mutex is sending, or, once the connection is closed, in a torn
one.  `ClosesTorn` asks of every writer that gives up inside its frame that the connection is
closed before the mutex is released.  In runs that meet it the stream is a sequence of frames with
at most one torn frame at its end, behind which nothing is written any more.
-/

namespace PulsarRuntime.Rpc

namespace Stream

variable {s : Stream}

theorem setWriter_self (k : ℕ) (w : Writer) : (s.setWriter k w).writers k = w :=
  Function.update_self ..

theorem setWriter_ne {k j : ℕ} (w : Writer) (h : j ≠ k) :
    (s.setWriter k w).writers j = s.writers j := Function.update_of_ne h ..

/-- The program point of a writer does not matter to the stream. -/
theorem setPc_same (k : ℕ) (pc : WriterPc) (j : ℕ) :
    ((s.setPc k pc).writers j).frame = (s.writers j).frame ∧
      ((s.setPc k pc).writers j).sent = (s.writers j).sent := by
  by_cases hjk : j = k
  · rw [hjk, show (s.setPc k pc).writers k = _ from setWriter_self ..]
    exact ⟨rfl, rfl⟩
  · rw [show (s.setPc k pc).writers j = _ from setWriter_ne _ hjk]
    exact ⟨rfl, rfl⟩

end Stream

section Codec

variable [HeaderCodec]

/-- A writer that has sent a part of its frame leaves no open connection behind. -/
def ClosesTorn (s : Stream) : StreamAction → Prop
  | .unlock k => 0 < (s.writers k).sent → (s.writers k).sent < (s.writers k).size →
      s.closed = true
  | _ => True

instance (s : Stream) (a : StreamAction) : Decidable (ClosesTorn s a) := by
  rcases a <;> (dsimp only [ClosesTorn]; infer_instance)

/-- A proper prefix of some frame. -/
def ProperPrefix (tail : List UInt8) : Prop := ∃ f : Frame, tail <+: f.bytes ∧ tail ≠ f.bytes

/-- What a writer has sent, by where it is. -/
def Writer.Progress (w : Writer) : Prop :=
  match w.pc with
  | .waiting | .locked | .entering => w.sent = 0
  | .writing | .parked => w.sent < w.size
  | _ => w.sent ≤ w.size

theorem Writer.Progress.at {w : Writer} (h : w.Progress) {p : WriterPc} (hpc : w.pc = p) :
    Writer.Progress { w with pc := p } := by
  subst hpc
  exact h

theorem Writer.properPrefix {w : Writer} (h : w.sent < w.size) :
    ProperPrefix (w.frame.bytes.take w.sent) := by
  refine ⟨w.frame, List.take_prefix .., fun heq => ?_⟩
  have hlen := congrArg List.length heq
  rw [List.length_take] at hlen
  unfold Writer.size at h
  omega

namespace Stream

/-- How the stream ends behind its complete frames. -/
inductive Shape (s : Stream) (tail : List UInt8) : Prop where
  | whole (nil : tail = []) (idle : ∀ k, s.holder = some k →
      (s.writers k).sent = 0 ∨ (s.writers k).sent = (s.writers k).size)
  | partway {k : ℕ} (held : s.holder = some k) (pos : 0 < (s.writers k).sent)
      (lt : (s.writers k).sent < (s.writers k).size)
      (eq : tail = (s.writers k).frame.bytes.take (s.writers k).sent)
  | torn (closed : s.closed = true) (proper : ProperPrefix tail)

structure Inv (s : Stream) : Prop where
  mutex : ∀ k < s.count, (s.writers k).pc.critical = true ↔ s.holder = some k
  held : ∀ k, s.holder = some k → k < s.count
  progress : ∀ k < s.count, (s.writers k).Progress
  shape : ∃ frames tail, s.sent = wire frames ++ tail ∧ s.Shape tail

variable {s : Stream}

theorem Shape.congr {s' : Stream} {tail : List UInt8} (h : s.Shape tail)
    (hholder : s'.holder = s.holder) (hclosed : s.closed = true → s'.closed = true)
    (hsame : ∀ k, s.holder = some k → (s'.writers k).frame = (s.writers k).frame ∧
      (s'.writers k).sent = (s.writers k).sent) : s'.Shape tail := by
  have hsize : ∀ k, s.holder = some k → (s'.writers k).size = (s.writers k).size := by
    intro k hk
    unfold Writer.size
    rw [(hsame k hk).1]
  cases h with
  | whole nil idle =>
    refine .whole nil fun k hk => ?_
    rw [hholder] at hk
    rw [(hsame k hk).2, hsize k hk]
    exact idle k hk
  | @partway k held pos lt eq =>
    obtain ⟨hframe, hsent⟩ := hsame k held
    refine .partway (k := k) (hholder.trans held) ?_ ?_ ?_
    · rwa [hsent]
    · rwa [hsent, hsize k held]
    · rwa [hframe, hsent]
  | torn closed proper => exact .torn (hclosed closed) proper

variable {k : ℕ}

section

variable (h : s.Inv)
include h

/-- One writer goes on. -/
theorem Inv.progress_setPc (pc : WriterPc) (hk : { s.writers k with pc := pc }.Progress) :
    ∀ j < s.count, ((s.setPc k pc).writers j).Progress :=
  Family.forall_update (P := fun _ w => Writer.Progress w) h.progress hk

/-- A writer moves on without sending, keeping or not keeping the mutex as before. -/
theorem Inv.setPc (hk : k < s.count) {pc : WriterPc}
    (hcritical : pc.critical = (s.writers k).pc.critical)
    (hprogress : Writer.Progress { s.writers k with pc := pc }) : (s.setPc k pc).Inv where
  mutex := Family.forall_update
    (P := fun j (w : Writer) => w.pc.critical = true ↔ s.holder = some j) h.mutex (by
      rw [hcritical]
      exact h.mutex k hk)
  held := h.held
  progress := h.progress_setPc pc hprogress
  shape := by
    obtain ⟨frames, tail, hsent, hshape⟩ := h.shape
    exact ⟨frames, tail, hsent, hshape.congr rfl (fun hc => hc) fun j _ => setPc_same k pc j⟩

/-- The connection's own flags may change, `closed_` only to true. -/
theorem Inv.setFlags (writing : Bool) {closed : Bool} (hclosed : s.closed = true → closed = true) :
    ({ s with writing := writing, closed := closed } : Stream).Inv where
  mutex := h.mutex
  held := h.held
  progress := h.progress
  shape := by
    obtain ⟨frames, tail, hsent, hshape⟩ := h.shape
    exact ⟨frames, tail, hsent, hshape.congr rfl hclosed fun _ _ => ⟨rfl, rfl⟩⟩

theorem Inv.addWriter (f : Frame) : (s.addWriter f).Inv := by
  have hold : ∀ k < s.count, (s.addWriter f).writers k = s.writers k :=
    fun k hk => Function.update_of_ne (Nat.ne_of_lt hk) ..
  refine ⟨Family.forall_add
      (P := fun j (w : Writer) => w.pc.critical = true ↔ s.holder = some j) h.mutex
      ⟨fun hc => (nomatch hc), fun hh => absurd (h.held _ hh) (Nat.lt_irrefl _)⟩,
    fun k hk => Nat.lt_succ_of_lt (h.held k hk),
    Family.forall_add (P := fun _ w => Writer.Progress w) h.progress rfl, ?_⟩
  obtain ⟨frames, tail, hsent, hshape⟩ := h.shape
  refine ⟨frames, tail, hsent, hshape.congr rfl (fun hc => hc) fun k hk => ?_⟩
  rw [hold k (h.held k hk)]
  exact ⟨rfl, rfl⟩

theorem Inv.call (m : Message) : (s.call m).Inv := by
  cases m with
  | request serviceName methodName args =>
    unfold Stream.call
    dsimp only
    have hid : ({ s with nextRequestId := (fetchRequestId s.nextRequestId).2 } : Stream).Inv := by
      obtain ⟨frames, tail, hsent, hshape⟩ := h.shape
      exact ⟨h.mutex, h.held, h.progress, frames, tail, hsent,
        hshape.congr rfl (fun hc => hc) fun _ _ => ⟨rfl, rfl⟩⟩
    split
    · exact hid
    · exact hid.addWriter _
  | response reqId completion => exact h.addWriter _

/-- Only the holder is between `lock` and `unlock`. -/
theorem Inv.holder (hk : k < s.count)
    (hc : (s.writers k).pc.critical = true) : s.holder = some k := (h.mutex k hk).mp hc

theorem lock_inv (hk : k < s.count) (hpc : (s.writers k).pc = .waiting)
    (hfree : s.holder = none) : ({ s.setPc k .locked with holder := some k } : Stream).Inv := by
  have hunsent : (s.writers k).sent = 0 := by
    have hp := h.progress k hk
    unfold Writer.Progress at hp
    rwa [hpc] at hp
  have hself : (s.setPc k .locked).writers k = { s.writers k with pc := .locked } :=
    setWriter_self ..
  have hother : ∀ j, j ≠ k → (s.setPc k .locked).writers j = s.writers j :=
    fun j hj => setWriter_ne _ hj
  refine ⟨fun j hj => ?_, fun j hj => ?_, fun j hj => ?_, ?_⟩
  · show ((s.setPc k .locked).writers j).pc.critical = true ↔ some k = some j
    by_cases hjk : j = k
    · rw [hjk, hself]
      exact ⟨fun _ => rfl, fun _ => rfl⟩
    · rw [hother j hjk, h.mutex j hj, hfree]
      exact ⟨nofun, fun heq => absurd (Option.some.inj heq).symm hjk⟩
  · obtain rfl := Option.some.inj hj
    exact hk
  · exact h.progress_setPc (k := k) .locked hunsent j hj
  · obtain ⟨frames, tail, hsent, hshape⟩ := h.shape
    refine ⟨frames, tail, hsent, ?_⟩
    cases hshape with
    | whole nil _ =>
      refine .whole nil fun j hj => ?_
      obtain rfl := Option.some.inj hj
      left
      show ((s.setPc k .locked).writers k).sent = 0
      rw [hself]
      exact hunsent
    | partway held _ _ _ => exact absurd (hfree.symm.trans held) nofun
    | torn closed proper => exact .torn closed proper

theorem unlock_inv (hk : k < s.count) (hpc : (s.writers k).pc = .finished)
    (hok : ClosesTorn s (.unlock k)) :
    ({ s.setPc k .done with holder := none } : Stream).Inv := by
  have hholder : s.holder = some k := h.holder hk (by rw [hpc]; rfl)
  have hself : (s.setPc k .done).writers k = { s.writers k with pc := .done } := setWriter_self ..
  have hother : ∀ j, j ≠ k → (s.setPc k .done).writers j = s.writers j :=
    fun j hj => setWriter_ne _ hj
  refine ⟨fun j hj => ?_, fun j hj => (nomatch hj), fun j hj => ?_, ?_⟩
  · show ((s.setPc k .done).writers j).pc.critical = true ↔ none = some j
    by_cases hjk : j = k
    · rw [hjk, hself]
      exact ⟨fun hc => (nomatch hc), nofun⟩
    · rw [hother j hjk, h.mutex j hj, hholder]
      exact ⟨fun heq => absurd (Option.some.inj heq).symm hjk, nofun⟩
  · have hp := h.progress k hk
    unfold Writer.Progress at hp
    rw [hpc] at hp
    exact h.progress_setPc (k := k) .done hp j hj
  · obtain ⟨frames, tail, hsent, hshape⟩ := h.shape
    refine ⟨frames, tail, hsent, ?_⟩
    cases hshape with
    | whole nil _ => exact .whole nil fun j hj => (nomatch hj)
    | @partway j held pos lt eq =>
      obtain rfl := Option.some.inj (held.symm.trans hholder)
      exact .torn (hok pos lt) (eq ▸ Writer.properPrefix lt)
    | torn closed proper => exact .torn closed proper

end

theorem send_writer_self (s : Stream) (k n : ℕ) :
    (s.send k n).writers k = { s.writers k with
      sent := (s.writers k).sent + n
      pc := if (s.writers k).sent + n = (s.writers k).size then .leaving else .writing } :=
  setWriter_self ..

/-- What the stream gains completes the frame of its writer, or extends its part. -/
theorem send_shape (h : s.Inv) {k n : ℕ} (hk : k < s.count) (hpc : (s.writers k).pc = .writing)
    (hopen : s.closed = false) (hpos : 0 < n)
    (hle : (s.writers k).sent + n ≤ (s.writers k).size) :
    ∃ frames tail, (s.send k n).sent = wire frames ++ tail ∧ (s.send k n).Shape tail := by
  have hholder : s.holder = some k := h.holder hk (by rw [hpc]; rfl)
  have hlt : (s.writers k).sent < (s.writers k).size := by omega
  have hself := send_writer_self s k n
  -- the tail is the part of the frame that is already there, be it empty
  have htail : ∃ frames, s.sent =
      wire frames ++ (s.writers k).frame.bytes.take (s.writers k).sent := by
    obtain ⟨frames, tail, hsent, hshape⟩ := h.shape
    refine ⟨frames, ?_⟩
    cases hshape with
    | whole nil idle =>
      have hzero : (s.writers k).sent = 0 := (idle k hholder).resolve_right (Nat.ne_of_lt hlt)
      rw [hsent, nil, hzero, List.take_zero]
    | @partway j held _ _ eq =>
      obtain rfl := Option.some.inj (held.symm.trans hholder)
      rw [hsent, eq]
    | torn closed _ => exact absurd (hopen.symm.trans closed) (by decide)
  obtain ⟨frames, hsent⟩ := htail
  have hnew : (s.send k n).sent =
      wire frames ++ (s.writers k).frame.bytes.take ((s.writers k).sent + n) := by
    show s.sent ++ _ = _
    rw [hsent, List.append_assoc, List.take_add]
  by_cases hall : (s.writers k).sent + n = (s.writers k).size
  · refine ⟨frames ++ [(s.writers k).frame], [], ?_, .whole rfl fun j hj => .inr ?_⟩
    · rw [hnew, hall, wire_append, wire_singleton, List.append_nil]
      unfold Writer.size
      rw [List.take_length]
    · obtain rfl := Option.some.inj (hholder.symm.trans hj)
      rw [hself]
      exact hall
  · refine ⟨frames, _, hnew, .partway (k := k) hholder ?_ ?_ ?_⟩
    · rw [hself]
      exact Nat.lt_of_lt_of_le hpos (Nat.le_add_left _ _)
    · rw [hself]
      show (s.writers k).sent + n < (s.writers k).size
      omega
    · rw [hself]

theorem send_inv (h : s.Inv) {k n : ℕ} (hk : k < s.count) (hpc : (s.writers k).pc = .writing)
    (hopen : s.closed = false) (hpos : 0 < n)
    (hle : (s.writers k).sent + n ≤ (s.writers k).size) : (s.send k n).Inv := by
  refine ⟨Family.forall_update
      (P := fun j (w : Writer) => w.pc.critical = true ↔ s.holder = some j) h.mutex ?_, h.held,
    Family.forall_update (P := fun _ w => Writer.Progress w) h.progress ?_,
    send_shape h hk hpc hopen hpos hle⟩
  · refine Iff.trans ?_ (h.mutex k hk)
    rw [hpc]
    dsimp only
    split <;> exact Iff.rfl
  · unfold Writer.Progress
    dsimp only
    by_cases hall : (s.writers k).sent + n = (s.writers k).size
    · rw [if_pos hall]
      exact Nat.le_of_eq hall
    · rw [if_neg hall]
      show (s.writers k).sent + n < (s.writers k).size
      omega

variable {side : Side}

theorem next_inv {a : StreamAction} (h : s.Inv) (he : (stream side).enabled s a)
    (hok : ClosesTorn s a) : ((stream side).next s a).Inv := by
  cases a with
  | call m => exact h.call m
  | lock k => exact lock_inv h he.1 he.2.1 he.2.2
  | check k =>
    have hp : (s.writers k).sent = 0 := (h.progress k he.1).at he.2
    show (s.setPc k (if s.closed then .finished else .entering)).Inv
    split
    · exact h.setPc he.1 (by rw [he.2]; rfl) (hp.trans_le (Nat.zero_le _))
    · exact h.setPc he.1 (by rw [he.2]; rfl) hp
  | enter k =>
    have hp : (s.writers k).sent = 0 := (h.progress k he.1).at he.2
    show (s.enter k).Inv
    unfold Stream.enter
    split
    · exact h.setPc he.1 (by rw [he.2]; rfl) (hp.trans_le (Nat.zero_le _))
    · have hpos : 0 < (s.writers k).size := List.length_pos_of_ne_nil (Frame.bytes_ne_nil _)
      have hset : (s.setPc k .writing).Inv := h.setPc he.1 (by rw [he.2]; rfl) (hp.trans_lt hpos)
      exact hset.setFlags true fun hc => hc
  | send k n => exact send_inv h he.1 he.2.1 he.2.2.1 he.2.2.2.1 he.2.2.2.2
  | fail k =>
    have hp : (s.writers k).sent < (s.writers k).size := (h.progress k he.1).at he.2
    exact h.setPc he.1 (by rw [he.2]; rfl) (Nat.le_of_lt hp)
  | block k =>
    have hp : (s.writers k).sent < (s.writers k).size := (h.progress k he.1).at he.2.1
    exact h.setPc he.1 (by rw [he.2.1]; rfl) hp
  | wake k ready =>
    have hp : (s.writers k).sent < (s.writers k).size := (h.progress k he.1).at he.2
    cases ready
    · exact h.setPc he.1 (by rw [he.2]; rfl) (Nat.le_of_lt hp)
    · exact h.setPc he.1 (by rw [he.2]; rfl) hp
  | leave k =>
    have hp : (s.writers k).sent ≤ (s.writers k).size := (h.progress k he.1).at he.2
    have hset : (s.setPc k .finished).Inv := h.setPc he.1 (by rw [he.2]; rfl) hp
    exact hset.setFlags false fun hc => hc
  | unlock k => exact unlock_inv h he.1 he.2 hok
  | close => exact h.setFlags s.writing fun _ => rfl

theorem init_inv (h : (stream side).init s) : s.Inv := by
  obtain ⟨hcount, hholder, -, -, hsent⟩ := h
  have hnone : ∀ k, s.holder ≠ some k := by
    rw [hholder]
    exact nofun
  refine ⟨fun k hk => absurd hk (by omega), fun k hk => absurd hk (hnone k),
    fun k hk => absurd hk (by omega), [], [], hsent, .whole rfl fun k hk => absurd hk (hnone k)⟩

theorem reachVia_inv (h : (stream side).ReachVia ClosesTorn s) : s.Inv :=
  h.invariant (I := Inv) (fun _ => init_inv) fun _ _ => next_inv

/-! ### Behind a torn frame -/

/-- Nothing can be sent any more: the connection is closed, or the holder of the mutex has given
up inside its frame and has still to release the mutex. -/
def Over (s : Stream) : Prop :=
  s.closed = true ∨ ∃ k, s.holder = some k ∧
    ((s.writers k).pc = .leaving ∨ (s.writers k).pc = .finished) ∧
    0 < (s.writers k).sent ∧ (s.writers k).sent < (s.writers k).size

theorem over_of_tail (h : s.Inv) {tail : List UInt8} (hshape : s.Shape tail) (htail : tail ≠ [])
    (hidle : ∀ k < s.count, (s.writers k).pc ≠ .writing ∧ (s.writers k).pc ≠ .parked) :
    s.Over := by
  cases hshape with
  | whole nil _ => exact absurd nil htail
  | @partway k held pos lt _ =>
    refine .inr ⟨k, held, ?_, pos, lt⟩
    have hk := h.held k held
    have hc := (h.mutex k hk).mpr held
    have hp := h.progress k hk
    unfold Writer.Progress at hp
    cases hpc : (s.writers k).pc with
    | leaving => exact .inl rfl
    | finished => exact .inr rfl
    | writing => exact absurd hpc (hidle k hk).1
    | parked => exact absurd hpc (hidle k hk).2
    | waiting =>
      rw [hpc] at hc
      cases hc
    | done =>
      rw [hpc] at hc
      cases hc
    | locked =>
      rw [hpc] at hp
      exact absurd pos (by rw [show (s.writers k).sent = 0 from hp]; decide)
    | entering =>
      rw [hpc] at hp
      exact absurd pos (by rw [show (s.writers k).sent = 0 from hp]; decide)
  | torn closed _ => exact .inl closed

theorem call_frame (m : Message) : (s.call m).sent = s.sent ∧ (s.call m).closed = s.closed ∧
    (s.call m).holder = s.holder ∧ ∀ k < s.count, (s.call m).writers k = s.writers k := by
  have hadd : ∀ (t : Stream) (f : Frame), t.count = s.count → t.writers = s.writers →
      ∀ k < s.count, (t.addWriter f).writers k = s.writers k := by
    intro t f hcount hwriters k hk
    rw [show (t.addWriter f).writers k = t.writers k from
      Function.update_of_ne (Nat.ne_of_lt (hcount ▸ hk)) .., hwriters]
  cases m with
  | request serviceName methodName args =>
    unfold Stream.call
    dsimp only
    split
    · exact ⟨rfl, rfl, rfl, fun _ _ => rfl⟩
    · exact ⟨rfl, rfl, rfl, hadd _ _ rfl rfl⟩
  | response reqId completion => exact ⟨rfl, rfl, rfl, hadd _ _ rfl rfl⟩

/-- A step that keeps the mutex and the holder's writer as they are keeps `Over`. -/
theorem Over.congr {s' : Stream} (h : s.Over) (hclosed : s.closed = true → s'.closed = true)
    (hholder : s'.holder = s.holder)
    (hwriter : ∀ k, s.holder = some k → s'.writers k = s.writers k) : s'.Over := by
  rcases h with hc | ⟨k, hk, hrest⟩
  · exact .inl (hclosed hc)
  · right
    refine ⟨k, hholder.trans hk, ?_⟩
    rw [hwriter k hk]
    exact hrest

theorem over_next {a : StreamAction} (h : s.Inv) (ho : s.Over)
    (he : (stream side).enabled s a) (hok : ClosesTorn s a) :
    ((stream side).next s a).sent = s.sent ∧ ((stream side).next s a).Over := by
  rcases ho with hclosed | ⟨k, hk, hpc, hpos, hlt⟩
  · -- closed: `send` is not enabled, and nothing opens the connection again
    cases a with
    | call m => exact ⟨(call_frame m).1, .inl ((call_frame m).2.1.trans hclosed)⟩
    | enter j =>
      show (s.enter j).sent = s.sent ∧ (s.enter j).Over
      unfold Stream.enter
      split <;> exact ⟨rfl, .inl hclosed⟩
    | send j n => exact absurd (he.2.2.1.symm.trans hclosed) (by decide)
    | close => exact ⟨rfl, .inl rfl⟩
    | _ => exact ⟨rfl, .inl hclosed⟩
  · have hover : s.Over := .inr ⟨k, hk, hpc, hpos, hlt⟩
    -- a step at any other critical point would be one of the holder
    have hmine : ∀ {j : ℕ} {p : WriterPc}, j < s.count → (s.writers j).pc = p →
        p.critical = true → p ≠ .leaving → p ≠ .finished → False := by
      intro j p hj hp hc hleaving hfinished
      have hjk := h.holder hj (by rw [hp]; exact hc)
      obtain rfl := Option.some.inj (hk.symm.trans hjk)
      rcases hpc with hpc | hpc
      · exact hleaving (hp.symm.trans hpc)
      · exact hfinished (hp.symm.trans hpc)
    cases a with
    | call m =>
      obtain ⟨hsent, hclosed, hholder, hwriters⟩ := call_frame (s := s) m
      exact ⟨hsent, hover.congr (fun hc => hclosed.trans hc) hholder
        fun j hj => hwriters j (h.held j hj)⟩
    | lock j => exact absurd (he.2.2.symm.trans hk) nofun
    | check j => exact (hmine he.1 he.2 rfl (by decide) (by decide)).elim
    | enter j => exact (hmine he.1 he.2 rfl (by decide) (by decide)).elim
    | send j n => exact (hmine he.1 he.2.1 rfl (by decide) (by decide)).elim
    | fail j => exact (hmine he.1 he.2 rfl (by decide) (by decide)).elim
    | block j => exact (hmine he.1 he.2.1 rfl (by decide) (by decide)).elim
    | wake j ready => exact (hmine he.1 he.2 rfl (by decide) (by decide)).elim
    | leave j =>
      have hjk := h.holder he.1 (by rw [he.2]; rfl)
      obtain rfl := Option.some.inj (hk.symm.trans hjk)
      refine ⟨rfl, .inr ⟨k, hk, ?_⟩⟩
      show (((s.setPc k .finished).writers k).pc = .leaving ∨
        ((s.setPc k .finished).writers k).pc = .finished) ∧ _
      rw [show ((stream side).next s (.leave k)).writers k = { s.writers k with pc := .finished }
        from setWriter_self .., show (s.setPc k .finished).writers k = _ from setWriter_self ..]
      exact ⟨.inr rfl, hpos, hlt⟩
    | unlock j =>
      have hjk := h.holder he.1 (by rw [he.2]; rfl)
      obtain rfl := Option.some.inj (hk.symm.trans hjk)
      exact ⟨rfl, .inl (hok hpos hlt)⟩
    | close => exact ⟨rfl, .inl rfl⟩

end Stream

/-- **Stream integrity.**  In every state of a run whose writers close what they tear, the stream
is a sequence of complete frames followed by at most one proper prefix of a frame; and unless its
writer is still sending it, nothing is ever written behind such a prefix. -/
theorem stream_integrity {side : Side} {s : Stream} (h : (stream side).ReachVia ClosesTorn s) :
    ∃ frames tail, s.sent = wire frames ++ tail ∧ (tail = [] ∨ ProperPrefix tail) ∧
      (tail ≠ [] → (∀ k < s.count, (s.writers k).pc ≠ .writing ∧ (s.writers k).pc ≠ .parked) →
        ∀ t, (stream side).Later ClosesTorn s t → t.sent = s.sent) := by
  have hi := Stream.reachVia_inv h
  obtain ⟨frames, tail, hsent, hshape⟩ := hi.shape
  refine ⟨frames, tail, hsent, ?_, fun htail hidle t hlater => ?_⟩
  · cases hshape with
    | whole nil _ => exact .inl nil
    | partway _ _ lt eq => exact .inr (eq ▸ Writer.properPrefix lt)
    | torn _ proper => exact .inr proper
  · have hover := Stream.over_of_tail hi hshape htail hidle
    have hkeep := hlater.invariant (I := fun t => t.Inv ∧ t.Over ∧ t.sent = s.sent)
      (fun u a hu he hok => ⟨Stream.next_inv hu.1 he hok, (Stream.over_next hu.1 hu.2.1 he hok).2,
        (Stream.over_next hu.1 hu.2.1 he hok).1.trans hu.2.2⟩) ⟨hi, hover, rfl⟩
    exact hkeep.2.2

end Codec

section Runs

open Proto3

/-- A request without arguments: service `S`, method `M`. -/
def ping : Message := .request [0x53] [0x4d] []

/-- One request is sent; the next is torn after three bytes, and the connection closed. -/
def tornAndClosed : List StreamAction :=
  [.call ping, .lock 0, .check 0, .enter 0, .send 0 9, .leave 0, .unlock 0,
    .call ping, .lock 1, .check 1, .enter 1, .send 1 3, .block 1, .wake 1 false, .close, .leave 1,
    .unlock 1]

theorem stream_integrity_torn : ∃ frames tail,
    ((stream .client).run .fresh tornAndClosed).sent = wire frames ++ tail ∧
      (tail = [] ∨ ProperPrefix tail) := by
  have hreach : (stream .client).ReachVia ClosesTorn ((stream .client).run .fresh tornAndClosed) :=
    Machine.reachVia_run (.start (Stream.fresh_init _)) (by decide +kernel)
  obtain ⟨frames, tail, hsent, hprefix, -⟩ := stream_integrity hreach
  exact ⟨frames, tail, hsent, hprefix⟩

variable {rest : List UInt8}

/-- A first byte below 128 is the whole varint. -/
theorem encodeVarint_small (rounds : ℕ) {value : ℕ} {b : UInt8} (hb : b < 128)
    (h : encodeVarint (rounds + 1) value = b :: rest) : rest = [] ∧ value < 128 ∧
      b = UInt8.ofNat value := by
  unfold encodeVarint at h
  split at h
  next hlarge =>
    obtain ⟨rfl, -⟩ := List.cons.inj h
    have hlt : (value % 128 + 128) % 256 < 128 := by
      have := UInt8.lt_iff_toNat_lt.mp hb
      simpa using this
    omega
  next hsmall =>
    obtain ⟨hb', hrest⟩ := List.cons.inj h
    exact ⟨hrest.symm, by omega, hb'.symm⟩

/-- The tags of the fields of `RpcHeader`. -/
def tags : List UInt8 := [0x0a, 0x12, 0x18, 0x20, 0x2a]

/-- A serialized header starts with a tag. -/
theorem serialize_head {h : RpcHeader} {b : UInt8} (heq : h.serialize = b :: rest) : b ∈ tags := by
  have hbytes : ∀ tag data, tag ∈ tags → ∀ b rest, bytesField tag data = b :: rest → b ∈ tags := by
    intro tag data htag b rest hb
    unfold bytesField at hb
    split at hb
    · cases hb
    · obtain ⟨rfl, -⟩ := List.cons.inj hb
      exact htag
  have hvarint : ∀ tag rounds value, tag ∈ tags → ∀ b rest,
      varintField tag rounds value = b :: rest → b ∈ tags := by
    intro tag rounds value htag b rest hb
    unfold varintField at hb
    split at hb
    · cases hb
    · obtain ⟨rfl, -⟩ := List.cons.inj hb
      exact htag
  -- the first field that is present gives the byte
  have happend : ∀ {x y : List UInt8}, (∀ b rest, x = b :: rest → b ∈ tags) →
      (∀ b rest, y = b :: rest → b ∈ tags) → ∀ b rest, x ++ y = b :: rest → b ∈ tags := by
    intro x y hx hy b rest hb
    cases x with
    | nil => exact hy b rest hb
    | cons c x' =>
      obtain ⟨rfl, -⟩ := List.cons.inj hb
      exact hx c x' rfl
  exact happend (happend (happend (happend (hbytes _ _ (by decide)) (hbytes _ _ (by decide)))
    (hvarint _ _ _ (by decide))) (hvarint _ _ _ (by decide))) (hbytes _ _ (by decide)) b rest heq

/-- After a short, non-zero header size comes a tag. -/
theorem Frame.second_byte {f : Frame} {b : UInt8} (hb : b < 128)
    (hzero : b ≠ 0) (h : f.bytes = b :: rest) : ∃ c ∈ tags, ∃ rest', rest = c :: rest' := by
  unfold Frame.bytes at h
  rw [List.append_assoc] at h
  cases hv : encodeVarint32 f.header.serialize.length with
  | nil => exact absurd hv (encodeVarint_ne_nil 4 _)
  | cons b' digits =>
    rw [hv] at h
    obtain ⟨rfl, htail⟩ := List.cons.inj h
    obtain ⟨rfl, -, hlen⟩ := encodeVarint_small 3 hb hv
    cases hs : f.header.serialize with
    | nil =>
      rw [hs] at hlen
      exact absurd hlen hzero
    | cons c rest' =>
      rw [hs] at htail
      exact ⟨c, serialize_head hs, _, htail.symm⟩

/-- A stream that starts with a short header size and then no tag is not made of frames. -/
theorem not_framed {b c : UInt8} (hb : b < 128) (hzero : b ≠ 0)
    (hc : c ∉ tags) : ¬ ∃ frames tail, b :: c :: rest = wire frames ++ tail ∧
      (tail = [] ∨ ProperPrefix tail) := by
  rintro ⟨frames, tail, heq, htail⟩
  -- the first frame, or the one the tail is a prefix of, would have the tag
  have hno : ∀ (f : Frame) (x y : List UInt8), f.bytes ++ x ≠ b :: c :: y := by
    intro f x y h
    cases hf : f.bytes with
    | nil => exact f.bytes_ne_nil hf
    | cons b' digits =>
      rw [hf] at h
      obtain ⟨rfl, hrest⟩ := List.cons.inj h
      obtain ⟨c', hmem, rest', rfl⟩ := Frame.second_byte hb hzero hf
      obtain ⟨rfl, -⟩ := List.cons.inj hrest
      exact hc hmem
  cases frames with
  | nil =>
    have heq' : tail = b :: c :: rest := heq.symm
    rcases htail with rfl | ⟨f, ⟨more, hmore⟩, -⟩
    · cases heq'
    · apply hno f [] (rest ++ more)
      rw [List.append_nil, ← hmore, heq']
      rfl
  | cons f frames =>
    apply hno f (wire frames ++ tail) rest
    rw [heq, ← List.append_assoc]
    rfl

/-- The first request is torn after one byte by a write timeout; the connection stays open. -/
def tornAndOpen : List StreamAction :=
  [.call ping, .lock 0, .check 0, .enter 0, .send 0 1, .block 0, .wake 0 false, .leave 0, .unlock 0,
    .call ping, .lock 1, .check 1, .enter 1, .send 1 9, .leave 1, .unlock 1]

/-- The second request is written behind it, and the stream is no sequence of frames. -/
theorem torn_frame_written_behind : ∃ s, (stream .client).Reach s ∧
    ¬ ∃ frames tail, s.sent = wire frames ++ tail ∧ (tail = [] ∨ ProperPrefix tail) := by
  refine ⟨(stream .client).run .fresh tornAndOpen,
    Machine.reachVia_run (.start (Stream.fresh_init _)) (by decide +kernel), ?_⟩
  have hsent : ((stream .client).run .fresh tornAndOpen).sent =
      [8, 8, 0x0a, 1, 0x53, 0x12, 1, 0x4d, 0x20, 2] := by
    decide +kernel
  rw [hsent]
  exact not_framed (by decide) (by decide) (by decide)

end Runs

end PulsarRuntime.Rpc
