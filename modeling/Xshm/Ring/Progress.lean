import Xshm.Ring.Counters
import Xshm.Ring.Ledger
import Xshm.System.Budget

/-!
# The ring is lock-free

Neither side of a ring ever waits: every access can be made, and the two loops over
`compare_exchange` are the only ones that depend on the other side.  A `compare_exchange` fails
only if the other side has moved `read_pos` since it was loaded, so every pass that fails is paid
for by a move of the other side.

`Writer.left` and `Reader.left` count the accesses up to the end of the call, or up to the next
move of the same side; a stale value of `read_pos` costs one more pass.

* `RingState.lockFree` : in any `2 ^ 18` steps, whosoever they are, a call returns or a frame is
  evicted.
* `RingState.reader_steps_lt` : only evictions make the consumer try again.
* `RingState.writer_waitFree` : while the consumer takes only counted frames, a call of
  `write_message` ends after a bounded number of its own accesses, whatever the consumer does
  meanwhile.
-/

namespace Xshm

/-! ### The accesses that are left -/

/-- The value of `read_pos` that `discard_oldest` has loaded, until it has moved it. -/
def Discard.seen : Discard → Option UInt32
  | .loadWrite read | .readLen0 read | .readLen1 read _ | .compareExchange read _ => some read
  | .loadRead | .subCount | .addDrop => none

/-- The value of `read_pos` that the producer has loaded to evict a frame. -/
def Writer.seen : Writer → Option UInt32
  | .discard _ _ d => d.seen
  | _ => none

/-- The accesses of `discard_oldest` up to its move of `read_pos`, or from there to the end of the
pass of `write_message`. -/
def Discard.left : Discard → ℕ
  | .loadRead => 17
  | .loadWrite _ => 16
  | .readLen0 _ => 15
  | .readLen1 _ _ => 14
  | .compareExchange _ _ => 13
  | .subCount => 22
  | .addDrop => 21

/-- The accesses of `write_message` if it evicts nothing more, and 12 for the frame that it will
count. -/
def Writer.left : Writer → ℕ
  | .idle => 65560
  | .loadWrite p _ => (frameBytes p).length + 20
  | .loadRead p _ _ => (frameBytes p).length + 19
  | .loadCount p _ _ _ => (frameBytes p).length + 18
  | .discard p _ d => (frameBytes p).length + d.left
  | .copy p _ _ k => (frameBytes p).length - k + 15
  | .addCount _ _ _ => 14
  | .storeWrite _ _ _ _ => 1
  | .addSequence _ _ => 0

/-- The accesses of `read_message` if its `compare_exchange` succeeds, and 5 for the pass of
`discard_oldest` that this one makes fail. -/
def Reader.left : Reader → ℕ
  | .idle => 65551
  | .loadCount => 65550
  | .loadRead => 65549
  | .readLen0 _ => 65548
  | .readLen1 _ _ => 65547
  | .reload _ => 1
  | .copy _ msgLen out => msgLen - out.length + 9
  | .compareExchange _ _ _ => 8
  | .subCount _ _ => 2
  | .addSequence _ _ => 1

/-- The value of `read_pos` that the attempt in progress has loaded. -/
def Reader.seen (rd : Reader) : Option UInt32 := rd.attempt.map Attempt.read

namespace RingState

variable (s : RingState)

/-- The accesses of the producer: one more pass of `discard_oldest` if what it has loaded is not
`read_pos` any more. -/
def writerLeft : ℕ :=
  s.writer.left + if s.writer.seen.any (· ≠ s.header.readPos) then 5 else 0

/-- The accesses of the consumer: one more pass of `read_message` if what it has loaded is not
`read_pos` any more. -/
def readerLeft : ℕ :=
  s.reader.left + if s.reader.seen.any (· ≠ s.header.readPos) then 65550 else 0

/-- The calls that have returned and the frames that have been evicted. -/
def progress : ℕ := s.hist.writes.length + s.hist.reads.length + s.hist.evictions

end RingState

/-! ### What a step of each side can do -/

/-- A step of the producer: it goes on, returns, or evicts a frame. -/
inductive ProducerStep (s s' : RingState) : Prop
  | go : s'.reader = s.reader → s'.header.readPos = s.header.readPos →
    s'.hist.reads = s.hist.reads → s'.hist.moves = s.hist.moves →
    s'.hist.writes = s.hist.writes → s.hist.frames.length ≤ s'.hist.frames.length →
    s'.writerLeft + 12 * s'.hist.frames.length + 1 ≤ s.writerLeft + 12 * s.hist.frames.length →
    ProducerStep s s'
  | ret : s'.reader = s.reader → s'.header.readPos = s.header.readPos →
    s'.hist.reads = s.hist.reads → s'.hist.moves = s.hist.moves →
    s'.hist.writes.length = s.hist.writes.length + 1 → s'.hist.frames = s.hist.frames →
    s'.writer = .idle → ProducerStep s s'
  | evict (msgLen : ℕ) : s'.reader = s.reader → s'.hist.reads = s.hist.reads →
    s'.hist.moves = s.hist.moves ++ [.evict msgLen] → s'.hist.writes = s.hist.writes →
    s'.hist.frames = s.hist.frames → s'.writerLeft ≤ s.writerLeft + 9 → ProducerStep s s'

/-- A step of the consumer: it goes on, returns, or takes a frame. -/
inductive ConsumerStep (s s' : RingState) : Prop
  | go : s'.writer = s.writer → s'.header.readPos = s.header.readPos → s'.hist = s.hist →
    s'.readerLeft + 1 ≤ s.readerLeft → ConsumerStep s s'
  | ret : s'.writer = s.writer → s'.header.readPos = s.header.readPos →
    s'.hist.reads.length = s.hist.reads.length + 1 → s'.hist.moves = s.hist.moves →
    s'.hist.writes = s.hist.writes → s'.hist.frames = s.hist.frames → s'.reader = .idle →
    ConsumerStep s s'
  | take (msgLen : ℕ) (out : Payload) : s'.writer = s.writer → s'.hist.reads = s.hist.reads →
    s'.hist.moves = s.hist.moves ++ [.take msgLen out] → s'.hist.writes = s.hist.writes →
    s'.hist.frames = s.hist.frames → s'.readerLeft + 6 ≤ s.readerLeft → ConsumerStep s s'

/-- The payload of a call has an allowed length, and no byte behind its frame is copied. -/
def Writer.Sized : Writer → Prop
  | .idle | .addSequence _ _ => True
  | .loadWrite p _ | .loadRead p _ _ | .loadCount p _ _ _ | .discard p _ _ | .addCount p _ _
  | .storeWrite p _ _ _ => p.Valid
  | .copy p _ _ k => p.Valid ∧ k < (frameBytes p).length

/-- The length that an attempt has decoded is an allowed one. -/
def Reader.Sized : Reader → Prop
  | .copy _ msgLen _ => LengthOk msgLen
  | _ => True

/-- A step of one side leaves the program point of the other. -/
theorem ProducerStep.reader_eq {s s' : RingState} (h : ProducerStep s s') :
    s'.reader = s.reader := by
  cases h <;> assumption

theorem ConsumerStep.writer_eq {s s' : RingState} (h : ConsumerStep s s') :
    s'.writer = s.writer := by
  cases h <;> assumption

theorem Payload.Valid.length_frameBytes_le_max {p : Payload} (hp : p.Valid) :
    (frameBytes p).length ≤ 65539 := by
  have := hp.2
  rw [length_frameBytes]
  simp only [maxMessageSize, messageHeaderSize] at this ⊢
  omega

namespace RingState

variable {s s' : RingState}

theorem writerLeft_of_seen_none (h : s.writer.seen = none) : s.writerLeft = s.writer.left := by
  rw [writerLeft, h]
  exact Nat.add_zero _

theorem readerLeft_of_seen_none (h : s.reader.seen = none) : s.readerLeft = s.reader.left := by
  rw [readerLeft, h]
  exact Nat.add_zero _

theorem left_le_writerLeft (s : RingState) : s.writer.left ≤ s.writerLeft := Nat.le_add_right ..

theorem left_le_readerLeft (s : RingState) : s.reader.left ≤ s.readerLeft := Nat.le_add_right ..

/-- What the producer has loaded costs it another pass at most. -/
theorem writerLeft_le (s : RingState) : s.writerLeft ≤ s.writer.left + 5 := by
  rw [writerLeft]
  split_ifs <;> omega

theorem readerLeft_le (s : RingState) : s.readerLeft ≤ s.reader.left + 65550 := by
  rw [readerLeft]
  split_ifs <;> omega

/-- The other side has not moved `read_pos`. -/
theorem writerLeft_congr (hw : s'.writer = s.writer)
    (hr : s'.header.readPos = s.header.readPos) : s'.writerLeft = s.writerLeft := by
  rw [writerLeft, writerLeft, hw, hr]

theorem readerLeft_congr (hw : s'.reader = s.reader)
    (hr : s'.header.readPos = s.header.readPos) : s'.readerLeft = s.readerLeft := by
  rw [readerLeft, readerLeft, hw, hr]

/-- `write_message` returns. -/
theorem producerStep_returnWrite {s₁ : RingState} (hrd : s₁.reader = s.reader)
    (hr : s₁.header.readPos = s.header.readPos) (hh : s₁.hist = s.hist)
    (res : Except ShmError WriteOutcome) : ProducerStep s (s₁.returnWrite res) := by
  refine .ret hrd hr ?_ ?_ ?_ ?_ rfl
  · rw [returnWrite, hh]
  · rw [returnWrite, hh]
  · rw [returnWrite, List.length_append, hh, List.length_singleton]
  · rw [returnWrite, hh]

/-- `write_message` goes to a program point with fewer accesses left. -/
theorem producerStep_local (w : Writer) (hseen : w.seen = s.writer.seen)
    (hleft : w.left + 1 ≤ s.writer.left) : ProducerStep s { s with writer := w } := by
  refine .go rfl rfl rfl rfl rfl le_rfl ?_
  simp only [writerLeft, hseen]
  omega

/-- A step between program points that have loaded nothing that can be stale. -/
theorem producerStep_unseen (hrd : s'.reader = s.reader)
    (hr : s'.header.readPos = s.header.readPos) (hh : s'.hist = s.hist)
    (hseen : s.writer.seen = none) (hseen' : s'.writer.seen = none)
    (hleft : s'.writer.left + 1 ≤ s.writer.left) : ProducerStep s s' := by
  refine .go hrd hr (by rw [hh]) (by rw [hh]) (by rw [hh]) (by rw [hh]) ?_
  rw [writerLeft_of_seen_none hseen, writerLeft_of_seen_none hseen', hh]
  omega

/-- `discard_oldest` does not move `read_pos` and does not fail, or moves it. -/
theorem producerStep_discard {p : Payload} {ov : UInt32} {d : Discard}
    (hw : s.writer = .discard p ov d) : ProducerStep s (s.discardStep p ov d) := by
  cases d with
  | loadRead =>
    -- what it has loaded is `read_pos`
    refine .go rfl rfl rfl rfl rfl le_rfl ?_
    simp only [discardStep, writerLeft, hw, Writer.seen, Discard.seen, Writer.left, Discard.left,
      ne_eq, Option.any_some, not_true_eq_false, decide_false, Bool.false_eq_true, Option.any_none,
      ↓reduceIte]
    omega
  | loadWrite read =>
    rw [discardStep]
    split_ifs
    · refine producerStep_returnWrite ?_ ?_ ?_ _ <;> rfl
    · exact producerStep_local _ (by rw [hw]; rfl) (by rw [hw]; exact le_rfl)
  | readLen0 read => exact producerStep_local _ (by rw [hw]; rfl) (by rw [hw]; exact le_rfl)
  | readLen1 read b₀ =>
    simp only [discardStep]
    split_ifs
    · exact producerStep_local _ (by rw [hw]; rfl) (by rw [hw]; exact le_rfl)
    · refine producerStep_returnWrite ?_ ?_ ?_ _ <;> rfl
  | compareExchange read msgLen =>
    rw [discardStep]
    split_ifs with he
    · refine .evict msgLen rfl rfl rfl rfl rfl ?_
      rw [writerLeft_of_seen_none rfl]
      refine le_trans ?_ (Nat.add_le_add_right (left_le_writerLeft s) 9)
      rw [hw]
      exact le_rfl
    · -- the consumer has moved `read_pos`: this pass has paid for the next one
      refine .go rfl rfl rfl rfl rfl le_rfl ?_
      have hstale : s.writerLeft = (frameBytes p).length + 13 + 5 := by
        have hne : read ≠ s.header.readPos := Ne.symm he
        simp [writerLeft, hw, Writer.seen, Discard.seen, Writer.left, Discard.left, hne]
      rw [hstale, writerLeft_of_seen_none rfl]
      simp only [Writer.left, Discard.left]
      omega
  | subCount =>
    exact producerStep_unseen rfl rfl rfl (by rw [hw]; rfl) rfl (by rw [hw]; exact le_rfl)
  | addDrop =>
    exact producerStep_unseen rfl rfl rfl (by rw [hw]; rfl) rfl (by rw [hw]; exact le_rfl)

/-- **What an access of the producer does.** -/
theorem producerStep_writerStep (hsized : s.writer.Sized) (hst : s.writerStep = some s') :
    ProducerStep s s' := by
  rw [writerStep] at hst
  cases hw : s.writer with
  | idle => simp [hw] at hst
  | loadWrite p ov =>
    simp only [hw] at hst
    cases hst
    exact producerStep_local _ (by rw [hw]; rfl) (by rw [hw]; exact le_rfl)
  | loadRead p ov write =>
    simp only [hw] at hst
    cases hst
    exact producerStep_local _ (by rw [hw]; rfl) (by rw [hw]; exact le_rfl)
  | loadCount p ov write read =>
    simp only [hw] at hst
    split_ifs at hst <;> cases hst
    · refine producerStep_returnWrite ?_ ?_ ?_ _ <;> rfl
    · exact producerStep_local _ (by rw [hw]; rfl) (by rw [hw]; exact le_rfl)
    · exact producerStep_local _ (by rw [hw]; rfl) (by rw [hw]; simp [Writer.left])
  | discard p ov d =>
    simp only [hw] at hst
    cases hst
    exact producerStep_discard hw
  | copy p ov write k =>
    rw [hw] at hsized
    have hk : k < (frameBytes p).length := hsized.2
    simp only [hw] at hst
    cases hst
    refine producerStep_unseen rfl rfl rfl (by rw [hw]; rfl) ?_ ?_
    · dsimp only
      split_ifs <;> rfl
    · rw [hw]
      dsimp only
      split_ifs <;> simp only [Writer.left] <;> omega
  | addCount p ov write =>
    simp only [hw] at hst
    cases hst
    refine .go rfl rfl rfl rfl rfl (by simp) ?_
    rw [writerLeft_of_seen_none rfl, writerLeft_of_seen_none (by rw [hw]; rfl), hw]
    simp only [Writer.left, List.length_append, List.length_singleton]
    omega
  | storeWrite p ov write prevCount =>
    simp only [hw] at hst
    split_ifs at hst <;> cases hst
    · exact producerStep_unseen rfl rfl rfl (by rw [hw]; rfl) rfl (by rw [hw]; exact le_rfl)
    · refine producerStep_returnWrite ?_ ?_ ?_ _ <;> rfl
  | addSequence ov prevCount =>
    simp only [hw] at hst
    cases hst
    refine producerStep_returnWrite ?_ ?_ ?_ _ <;> rfl

/-- A call of `write_message` returns at once, or begins. -/
theorem producerStep_callWrite (hw : s.writer = .idle) (p : Payload) :
    ProducerStep s (s.callWrite p) := by
  have fail (e : ShmError) : ProducerStep s
      { s with hist := { s.hist with writes := s.hist.writes ++ [.error e] } } :=
    .ret rfl rfl rfl rfl (by simp) rfl hw
  rw [callWrite]
  split_ifs with hmin hmax
  · exact fail _
  · exact fail _
  · exact fail _
  · have hp : p.Valid := ⟨not_lt.1 hmin, not_lt.1 hmax⟩
    have := hp.length_frameBytes_le_max
    refine producerStep_local _ (by rw [hw]; rfl) ?_
    rw [hw]
    simp only [Writer.left]
    omega

/-- `read_message` returns. -/
theorem consumerStep_returnRead {s₁ : RingState} (hw : s₁.writer = s.writer)
    (hr : s₁.header.readPos = s.header.readPos) (hh : s₁.hist = s.hist)
    (res : Except ShmError (ℕ × Payload)) : ConsumerStep s (s₁.returnRead res) := by
  refine .ret hw hr ?_ ?_ ?_ ?_ rfl
  · rw [returnRead, List.length_append, hh, List.length_singleton]
  · rw [returnRead, hh]
  · rw [returnRead, hh]
  · rw [returnRead, hh]

/-- `read_message` goes to a program point with fewer accesses left. -/
theorem consumerStep_local (rd : Reader) (hseen : rd.seen = s.reader.seen)
    (hleft : rd.left + 1 ≤ s.reader.left) : ConsumerStep s { s with reader := rd } := by
  refine .go rfl rfl rfl ?_
  simp only [readerLeft, hseen]
  omega

/-- The other side has moved `read_pos` since this attempt began: it has paid for the next one. -/
theorem consumerStep_again {a : Attempt} (hseen : s.reader.attempt = some a)
    (hne : s.header.readPos ≠ a.read) (hleft : 1 ≤ s.reader.left) :
    ConsumerStep s { s with reader := .loadCount } := by
  refine .go rfl rfl rfl ?_
  have hstale : s.readerLeft = s.reader.left + 65550 := by
    simp [readerLeft, Reader.seen, hseen, hne.symm]
  have hnext : ({ s with reader := .loadCount } : RingState).readerLeft = 65550 :=
    readerLeft_of_seen_none rfl
  omega

/-- **What an access of the consumer does.** -/
theorem consumerStep_readerStep (hst : s.readerStep = some s') : ConsumerStep s s' := by
  rw [readerStep] at hst
  cases hr : s.reader with
  | idle => simp [hr] at hst
  | loadCount =>
    simp only [hr] at hst
    split_ifs at hst <;> cases hst
    · refine consumerStep_returnRead ?_ ?_ ?_ _ <;> rfl
    · exact consumerStep_local _ (by rw [hr]; rfl) (by rw [hr]; exact le_rfl)
  | loadRead =>
    simp only [hr] at hst
    cases hst
    -- what it has loaded is `read_pos`
    refine .go rfl rfl rfl ?_
    simp [readerLeft, hr, Reader.seen, Reader.attempt, Reader.left]
  | readLen0 a =>
    simp only [hr] at hst
    cases hst
    exact consumerStep_local _ (by rw [hr]; rfl) (by rw [hr]; exact le_rfl)
  | readLen1 a b₀ =>
    simp only [hr] at hst
    split_ifs at hst with hlen <;> cases hst
    · refine consumerStep_local _ (by rw [hr]; rfl) ?_
      have hle := hlen.2
      rw [hr]
      simp only [maxMessageSize, Reader.left, List.length_nil] at hle ⊢
      omega
    · exact consumerStep_local _ (by rw [hr]; rfl) (by rw [hr]; simp [Reader.left])
  | reload a =>
    simp only [hr] at hst
    split_ifs at hst with hne <;> cases hst
    · exact consumerStep_again (by rw [hr]; rfl) hne (by rw [hr]; exact le_rfl)
    · refine consumerStep_returnRead ?_ ?_ ?_ _ <;> rfl
  | copy a msgLen out =>
    simp only [hr] at hst
    cases hst
    refine consumerStep_local _ ?_ ?_
    · rw [hr]
      split_ifs <;> rfl
    · rw [hr]
      split_ifs with hlt <;>
        simp only [Reader.left, List.length_append, List.length_singleton] at hlt ⊢ <;> omega
  | compareExchange a msgLen out =>
    simp only [hr] at hst
    split_ifs at hst with he <;> cases hst
    · refine .take msgLen out rfl rfl rfl rfl rfl ?_
      rw [readerLeft_of_seen_none rfl]
      refine le_trans ?_ (left_le_readerLeft s)
      rw [hr]
      exact le_rfl
    · exact consumerStep_again (by rw [hr]; rfl) he (by rw [hr]; simp [Reader.left])
  | subCount msgLen out =>
    simp only [hr] at hst
    split_ifs at hst <;> cases hst
    · refine .go rfl rfl rfl ?_
      rw [readerLeft_of_seen_none rfl, readerLeft_of_seen_none (by rw [hr]; rfl), hr]
      exact le_rfl
    · refine consumerStep_returnRead ?_ ?_ ?_ _ <;> rfl
  | addSequence msgLen out =>
    simp only [hr] at hst
    cases hst
    refine consumerStep_returnRead ?_ ?_ ?_ _ <;> rfl

theorem consumerStep_callRead (hr : s.reader = .idle) :
    ConsumerStep s { s with reader := .loadCount } :=
  consumerStep_local _ (by rw [hr]; rfl) (by rw [hr]; exact le_rfl)

/-! ### The accesses that can be left -/

/-- Both sides are inside calls with allowed lengths. -/
def Sized (s : RingState) : Prop := s.writer.Sized ∧ s.reader.Sized

theorem sized_discardStep {p : Payload} {ov : UInt32} {d : Discard} (hp : p.Valid) :
    (s.discardStep p ov d).writer.Sized := by
  cases d with
  | loadRead | readLen0 | subCount | addDrop => exact hp
  | loadWrite | compareExchange =>
    rw [discardStep]
    split_ifs
    · trivial
    · exact hp
  | readLen1 =>
    simp only [discardStep]
    split_ifs
    · exact hp
    · trivial

theorem sized_writerStep (h : s.writer.Sized) (hst : s.writerStep = some s') :
    s'.writer.Sized := by
  rw [writerStep] at hst
  cases hw : s.writer with
  | idle => simp [hw] at hst
  | loadWrite | loadRead =>
    rw [hw] at h
    simp only [hw] at hst
    cases hst
    exact h
  | loadCount p ov write read =>
    rw [hw] at h
    simp only [hw] at hst
    split_ifs at hst <;> cases hst
    · trivial
    · exact h
    · refine ⟨h, ?_⟩
      rw [length_frameBytes]
      exact Nat.add_pos_left (by decide) _
  | discard p ov d =>
    rw [hw] at h
    simp only [hw] at hst
    cases hst
    exact sized_discardStep h
  | copy p ov write k =>
    rw [hw] at h
    simp only [hw] at hst
    cases hst
    dsimp only
    split_ifs with hk
    · exact ⟨h.1, hk⟩
    · exact h.1
  | addCount p ov write =>
    rw [hw] at h
    simp only [hw] at hst
    cases hst
    exact h
  | storeWrite | addSequence =>
    simp only [hw] at hst
    try split_ifs at hst
    all_goals
      cases hst
      trivial

theorem sized_readerStep (h : s.reader.Sized) (hst : s.readerStep = some s') :
    s'.reader.Sized := by
  rw [readerStep] at hst
  cases hr : s.reader with
  | idle => simp [hr] at hst
  | loadRead | readLen0 | addSequence =>
    simp only [hr] at hst
    cases hst
    trivial
  | loadCount | reload | compareExchange | subCount =>
    simp only [hr] at hst
    split_ifs at hst <;> cases hst <;> trivial
  | readLen1 a b₀ =>
    simp only [hr] at hst
    split_ifs at hst with hlen <;> cases hst
    · exact hlen
    · trivial
  | copy a msgLen out =>
    rw [hr] at h
    simp only [hr] at hst
    cases hst
    dsimp only
    split_ifs
    · exact h
    · trivial

/-- **What a step does**, and whose it is. -/
theorem step_cases (h : s.Sized) {l : RingLabel} (hst : s.step l = some s') : s'.Sized ∧
    ((l = .writer ∨ ∃ p, l = .callWrite p) ∧ ProducerStep s s' ∨
      (l = .reader ∨ l = .callRead) ∧ ConsumerStep s s') := by
  cases l with
  | callWrite p =>
    rw [step] at hst
    split at hst
    case h_1 hw =>
      cases hst
      refine ⟨⟨?_, ?_⟩, .inl ⟨.inr ⟨p, rfl⟩, producerStep_callWrite hw p⟩⟩
      · rw [callWrite]
        split_ifs with hmin hmax
        · exact h.1
        · exact h.1
        · exact h.1
        · exact ⟨not_lt.1 hmin, not_lt.1 hmax⟩
      · rw [(producerStep_callWrite hw p).reader_eq]
        exact h.2
    case h_2 => cases hst
  | callRead =>
    rw [step] at hst
    split at hst
    case h_1 hr =>
      cases hst
      exact ⟨⟨h.1, trivial⟩, .inr ⟨.inr rfl, consumerStep_callRead hr⟩⟩
    case h_2 => cases hst
  | writer =>
    have hp := producerStep_writerStep h.1 hst
    refine ⟨⟨sized_writerStep h.1 hst, ?_⟩, .inl ⟨.inl rfl, hp⟩⟩
    rw [hp.reader_eq]
    exact h.2
  | reader =>
    have hc := consumerStep_readerStep hst
    refine ⟨⟨?_, sized_readerStep h.2 hst⟩, .inr ⟨.inl rfl, hc⟩⟩
    rw [hc.writer_eq]
    exact h.1

theorem sized_of_reach (h : ringSystem.Reach s) : s.Sized := by
  refine h.invariant ?_ fun r l r' hi _ hst => ?_
  · rintro _ ⟨hdr, st, generation, rfl⟩
    exact ⟨trivial, trivial⟩
  · obtain ⟨hi', -⟩ := step_cases hi hst
    exact hi'

theorem Sized.writerLeft_le (h : s.Sized) : s.writerLeft ≤ 65566 := by
  refine s.writerLeft_le.trans (Nat.add_le_add_right (?_ : _ ≤ 65561) 5)
  have hw := h.1
  cases hc : s.writer with
  | idle | storeWrite | addSequence | addCount => simp [Writer.left]
  | loadWrite p | loadRead p | loadCount p =>
    rw [hc] at hw
    have := hw.length_frameBytes_le_max
    simp only [Writer.left]
    omega
  | discard p ov d =>
    rw [hc] at hw
    have := hw.length_frameBytes_le_max
    have hd : d.left ≤ 22 := by cases d <;> simp [Discard.left]
    simp only [Writer.left]
    omega
  | copy p ov write k =>
    rw [hc] at hw
    have := hw.1.length_frameBytes_le_max
    simp only [Writer.left]
    omega

theorem Sized.readerLeft_le (h : s.Sized) : s.readerLeft ≤ 131101 := by
  refine s.readerLeft_le.trans (Nat.add_le_add_right (?_ : _ ≤ 65551) 65550)
  have hr := h.2
  cases hc : s.reader with
  | copy a msgLen out =>
    rw [hc] at hr
    have := hr.2
    simp only [maxMessageSize, Reader.left] at this ⊢
    omega
  | _ => simp [Reader.left]

end RingState

/-! ### Progress -/

theorem History.evictions_append_evict (h : History) {h' : History} {msgLen : ℕ}
    (hM : h'.moves = h.moves ++ [.evict msgLen]) : h'.evictions = h.evictions + 1 := by
  rw [History.evictions, hM, List.countP_append]
  rfl

theorem History.evictions_append_take (h : History) {h' : History} {msgLen : ℕ} {out : Payload}
    (hM : h'.moves = h.moves ++ [.take msgLen out]) : h'.evictions = h.evictions := by
  rw [History.evictions, hM, List.countP_append]
  rfl

theorem History.evictions_congr {h h' : History} (hM : h'.moves = h.moves) :
    h'.evictions = h.evictions := by
  rw [History.evictions, hM, History.evictions]

/-- A step of the producer is paid for by what it and the consumer have left. -/
theorem ProducerStep.paid {s s' : RingState} (h : ProducerStep s s') :
    1 + (s'.writerLeft + s'.readerLeft) + 2 ^ 18 * s.progress ≤
      s.writerLeft + s.readerLeft + 2 ^ 18 * s'.progress := by
  cases h with
  | go hrd hr hreads hM hwrites hframes hleft =>
    have := RingState.readerLeft_congr hrd hr
    rw [RingState.progress, RingState.progress, hwrites, hreads, History.evictions_congr hM]
    omega
  | ret hrd hr hreads hM hwrites hframes hidle =>
    have := RingState.readerLeft_congr hrd hr
    have hw : s'.writerLeft = 65560 := by
      rw [RingState.writerLeft_of_seen_none (by rw [hidle]; rfl), hidle]
      rfl
    rw [RingState.progress, RingState.progress, hwrites, hreads, History.evictions_congr hM]
    omega
  | evict msgLen hrd hreads hM hwrites hframes hleft =>
    have hle := RingState.readerLeft_le s'
    have hge := RingState.left_le_readerLeft s
    rw [hrd] at hle
    rw [RingState.progress, RingState.progress, hwrites, hreads,
      History.evictions_append_evict _ hM]
    omega

/-- A step of the consumer is paid for by what it has left. -/
theorem ConsumerStep.paid {s s' : RingState} (h : ConsumerStep s s') :
    1 + (s'.writerLeft + s'.readerLeft) + 2 ^ 18 * s.progress ≤
      s.writerLeft + s.readerLeft + 2 ^ 18 * s'.progress := by
  cases h with
  | go hw hr hh hleft =>
    have := RingState.writerLeft_congr hw hr
    rw [RingState.progress, RingState.progress, hh]
    omega
  | ret hw hr hreads hM hwrites hframes hidle =>
    have := RingState.writerLeft_congr hw hr
    have hrd : s'.readerLeft = 65551 := by
      rw [RingState.readerLeft_of_seen_none (by rw [hidle]; rfl), hidle]
      rfl
    rw [RingState.progress, RingState.progress, hwrites, hreads, History.evictions_congr hM]
    omega
  | take msgLen out hw hreads hM hwrites hframes hleft =>
    have hle := RingState.writerLeft_le s'
    have hge := RingState.left_le_writerLeft s
    rw [hw] at hle
    rw [RingState.progress, RingState.progress, hwrites, hreads, History.evictions_append_take _ hM]
    omega

namespace RingState

variable {s s' : RingState}

/-- **The ring is lock-free.**  Of any `2 ^ 18` steps, whosoever they are, one returns from a call
or evicts a frame. -/
theorem lockFree {ls : List RingLabel} (h : ringSystem.Reach s)
    (hr : ringSystem.run s ls = some s') :
    ls.length < 2 ^ 18 * (1 + (s'.progress - s.progress)) := by
  have hs := sized_of_reach h
  have hpay := System.length_add_le (A := ringSystem) (I := Sized)
    (μ := fun s => s.writerLeft + s.readerLeft) (e := progress) (K := 2 ^ 18)
    (fun _ _ _ hi hst => by
      obtain ⟨hi', ⟨-, hp⟩ | ⟨-, hc⟩⟩ := step_cases hi hst
      · exact ⟨hi', hp.paid⟩
      · exact ⟨hi', hc.paid⟩) hs hr
  have hw := hs.writerLeft_le
  have hrd := hs.readerLeft_le
  omega

/-- One message is sent. -/
theorem lockFree_writeThenRead : ∃ s, ringSystem.run zeroed writeThenRead = some s ∧
    writeThenRead.length < 2 ^ 18 * (1 + (s.progress - zeroed.progress)) := by
  obtain ⟨s, hr⟩ := Option.isSome_iff_exists.1
    (show (ringSystem.run zeroed writeThenRead).isSome = true by decide +kernel)
  exact ⟨s, hr, lockFree (.init freshRing_zeroed) hr⟩

end RingState

/-- The steps of the consumer. -/
def RingLabel.consumer : RingLabel → Bool
  | .callRead | .reader => true
  | .callWrite _ | .writer => false

/-- The steps of the producer. -/
def RingLabel.producer : RingLabel → Bool
  | .callWrite _ | .writer => true
  | .callRead | .reader => false

/-- What the producer does costs the consumer nothing, unless it evicts. -/
theorem ProducerStep.paid_reader {s s' : RingState} (h : ProducerStep s s') :
    s'.readerLeft + 2 ^ 18 * (s.hist.reads.length + s.hist.evictions) ≤
      s.readerLeft + 2 ^ 18 * (s'.hist.reads.length + s'.hist.evictions) := by
  cases h with
  | go hrd hr hreads hM hwrites hframes hleft =>
    rw [RingState.readerLeft_congr hrd hr, hreads, History.evictions_congr hM]
  | ret hrd hr hreads hM hwrites hframes hidle =>
    rw [RingState.readerLeft_congr hrd hr, hreads, History.evictions_congr hM]
  | evict msgLen hrd hreads hM hwrites hframes hleft =>
    have hle := RingState.readerLeft_le s'
    have hge := RingState.left_le_readerLeft s
    rw [hrd] at hle
    rw [hreads, History.evictions_append_evict _ hM]
    omega

theorem ConsumerStep.paid_reader {s s' : RingState} (h : ConsumerStep s s') :
    1 + s'.readerLeft + 2 ^ 18 * (s.hist.reads.length + s.hist.evictions) ≤
      s.readerLeft + 2 ^ 18 * (s'.hist.reads.length + s'.hist.evictions) := by
  cases h with
  | go hw hr hh hleft =>
    rw [hh]
    omega
  | ret hw hr hreads hM hwrites hframes hidle =>
    have hrd : s'.readerLeft = 65551 := by
      rw [RingState.readerLeft_of_seen_none (by rw [hidle]; rfl), hidle]
      rfl
    rw [hreads, History.evictions_congr hM]
    omega
  | take msgLen out hw hreads hM hwrites hframes hleft =>
    rw [hreads, History.evictions_append_take _ hM]
    omega

/-- The accesses that the producer has left, and 12 for each frame that it can evict. -/
def RingState.writerBudget (s : RingState) : ℕ := s.writerLeft + 12 * s.hist.unread

/-- A step of the producer is paid for by what it has left and the frames that are unread. -/
theorem ProducerStep.paid_writer {s s' : RingState} (h : ProducerStep s s')
    (hm : s'.hist.moves.length ≤ s'.hist.frames.length) :
    1 + s'.writerBudget + 72000 * s.hist.writes.length ≤
      s.writerBudget + 72000 * s'.hist.writes.length := by
  rw [RingState.writerBudget, RingState.writerBudget, History.unread, History.unread]
  cases h with
  | go hrd hr hreads hM hwrites hframes hleft =>
    rw [hM] at hm ⊢
    rw [hwrites]
    omega
  | ret hrd hr hreads hM hwrites hframes hidle =>
    have hw : s'.writerLeft = 65560 := by
      rw [RingState.writerLeft_of_seen_none (by rw [hidle]; rfl), hidle]
      rfl
    rw [hM, hframes, hwrites]
    omega
  | evict msgLen hrd hreads hM hwrites hframes hleft =>
    rw [hM, hframes, List.length_append, List.length_singleton] at hm
    rw [hM, hframes, hwrites, List.length_append, List.length_singleton]
    omega

/-- What the consumer does costs the producer nothing: the frame that it takes is one that the
producer need not evict. -/
theorem ConsumerStep.paid_writer {s s' : RingState} (h : ConsumerStep s s')
    (hm : s'.hist.moves.length ≤ s'.hist.frames.length) :
    s'.writerBudget + 72000 * s.hist.writes.length ≤
      s.writerBudget + 72000 * s'.hist.writes.length := by
  rw [RingState.writerBudget, RingState.writerBudget, History.unread, History.unread]
  cases h with
  | go hw hr hh hleft => rw [RingState.writerLeft_congr hw hr, hh]
  | ret hw hr hreads hM hwrites hframes hidle =>
    rw [RingState.writerLeft_congr hw hr, hM, hframes, hwrites]
  | take msgLen out hw hreads hM hwrites hframes hleft =>
    have hle := RingState.writerLeft_le s'
    have hge := RingState.left_le_writerLeft s
    rw [hw] at hle
    rw [hM, hframes, List.length_append, List.length_singleton] at hm
    rw [hM, hframes, hwrites, List.length_append, List.length_singleton]
    omega

namespace RingState

variable {s s' : RingState}

/-- **Only evictions make the consumer try again**: of any `2 ^ 18` of its steps, one returns from
`read_message`, unless a frame is evicted meanwhile. -/
theorem reader_steps_lt {ls : List RingLabel} (h : ringSystem.Reach s)
    (hr : ringSystem.run s ls = some s') :
    ls.countP RingLabel.consumer < 2 ^ 18 * (1 + (s'.hist.reads.length - s.hist.reads.length) +
      (s'.hist.evictions - s.hist.evictions)) := by
  have hs := sized_of_reach h
  rw [← System.runWhen_true] at hr
  let earned (s : RingState) : ℕ := s.hist.reads.length + s.hist.evictions
  have hpay : ls.countP RingLabel.consumer + readerLeft s' + 2 ^ 18 * earned s ≤
      readerLeft s + 2 ^ 18 * earned s' := by
    refine System.countP_add_le (fun s l s' hi _ hst => ?_) hs hr
    obtain ⟨hi', ⟨rfl | ⟨p, rfl⟩, hp⟩ | ⟨rfl | rfl, hc⟩⟩ := step_cases hi hst
    · exact ⟨hi', by simpa [RingLabel.consumer] using hp.paid_reader⟩
    · exact ⟨hi', by simpa [RingLabel.consumer] using hp.paid_reader⟩
    · exact ⟨hi', hc.paid_reader⟩
    · exact ⟨hi', hc.paid_reader⟩
  simp only [earned] at hpay
  have hrd := hs.readerLeft_le
  omega

theorem reader_steps_lt_writeThenRead : ∃ s, ringSystem.run zeroed writeThenRead = some s ∧
    writeThenRead.countP RingLabel.consumer <
      2 ^ 18 * (1 + (s.hist.reads.length - zeroed.hist.reads.length) +
        (s.hist.evictions - zeroed.hist.evictions)) := by
  obtain ⟨s, hr⟩ := Option.isSome_iff_exists.1
    (show (ringSystem.run zeroed writeThenRead).isSome = true by decide +kernel)
  exact ⟨s, hr, reader_steps_lt (.init freshRing_zeroed) hr⟩

/-- The ring never holds more than 500 frames, so the producer has little left to evict. -/
theorem writerBudget_le {P : UInt32 → Prop} (h : s.Sized) (hc : CountInv P s) :
    s.writerBudget ≤ 71566 := by
  have hcount := hc.count
  have hle := hc.count_le
  have hw := h.writerLeft_le
  rw [writerBudget]
  omega

/-- **`write_message` is wait-free** while the consumer takes only counted frames: of any 72000 of
the producer's steps one returns, whatever the consumer does in between. -/
theorem writer_waitFree {ls : List RingLabel} (h : ringSystem.ReachWhen TakesFrame s)
    (hr : ringSystem.runWhen TakesFrame s ls = some s') :
    ls.countP RingLabel.producer <
      72000 * (1 + (s'.hist.writes.length - s.hist.writes.length)) := by
  let P (_ : UInt32) : Prop := False
  have step {s s' : RingState} {l : RingLabel} (hi : s.Sized ∧ CountInv P s)
      (ht : TakesFrame s l) (hst : ringSystem.step s l = some s') : CountInv P s' :=
    hi.2.step ht (fun _ _ _ hp => hp.elim) hst
  obtain ⟨hs, hc⟩ := h.invariant (I := fun s => s.Sized ∧ CountInv P s)
    (fun s h₀ => ⟨sized_of_reach (.init h₀), .init h₀⟩)
    fun s l s' hi ht hst => ⟨(step_cases hi.1 hst).1, step hi ht hst⟩
  let earned (s : RingState) : ℕ := s.hist.writes.length
  have hpay : ls.countP RingLabel.producer + writerBudget s' + 72000 * earned s ≤
      writerBudget s + 72000 * earned s' := by
    refine System.countP_add_le (I := fun s => s.Sized ∧ CountInv P s)
      (fun s l s' hi ht hst => ?_) ⟨hs, hc⟩ hr
    have hc' := step hi ht hst
    have hm := hc'.ring.moves_le
    obtain ⟨hi', ⟨rfl | ⟨p, rfl⟩, hp⟩ | ⟨rfl | rfl, hrd⟩⟩ := step_cases hi.1 hst
    · exact ⟨⟨hi', hc'⟩, hp.paid_writer hm⟩
    · exact ⟨⟨hi', hc'⟩, hp.paid_writer hm⟩
    · exact ⟨⟨hi', hc'⟩, by simpa [RingLabel.producer] using hrd.paid_writer hm⟩
    · exact ⟨⟨hi', hc'⟩, by simpa [RingLabel.producer] using hrd.paid_writer hm⟩
  have hle := writerBudget_le hs hc
  simp only [earned] at hpay
  omega

theorem writer_waitFree_writeThenRead :
    ∃ s, ringSystem.runWhen TakesFrame zeroed writeThenRead = some s ∧
      writeThenRead.countP RingLabel.producer <
        72000 * (1 + (s.hist.writes.length - zeroed.hist.writes.length)) := by
  obtain ⟨s, hr⟩ := Option.isSome_iff_exists.1
    (show (ringSystem.runWhen TakesFrame zeroed writeThenRead).isSome = true by decide +kernel)
  exact ⟨s, hr, writer_waitFree (.init freshRing_zeroed) hr⟩

end RingState

end Xshm
