import Xshm.Ring.Eviction
import Xshm.System.Simulation

/-!
# The shared ring as a queue with atomic operations

`Atomic.system` says what the ring is for: a queue of messages between a producer and a consumer,
in which storing a message, dropping the oldest one, taking the oldest one and finding that there
is none are single steps, each of them between the call and the return of the operation it belongs
to.  A producer that has found the queue full drops the oldest message in a later step, whatever the
consumer has taken meanwhile; if nothing is left by then, the call fails.

`RingState.atomic` sees a state of the ring as one of this queue: the frames that are counted and
not moved over are the messages.

## Main results

* `RingState.step_matches` : every access of the producer and of the consumer is a step of the
  queue or none.
* `RingState.linearizable` : the calls and returns of every run of the ring, in their order, are
  those of a run of the queue.
-/

namespace Xshm

/-- What the application sees of a ring. -/
inductive RingEvent where
  /-- `write_message(p)` is called. -/
  | callWrite (p : Payload)
  | returnWrite (res : Except ShmError WriteOutcome)
  /-- `read_message` is called. -/
  | callRead
  /-- With the bytes left in `out`. -/
  | returnRead (res : Except ShmError (ℕ × Payload))
  deriving DecidableEq

namespace Atomic

/-- Where a `write_message` stands. -/
inductive Producer where
  | idle
  | writing (p : Payload) (overwritten : UInt32)
  /-- The queue has been found full. -/
  | full (p : Payload) (overwritten : UInt32)
  | returning (res : Except ShmError WriteOutcome)
  deriving DecidableEq

/-- Where a `read_message` stands. -/
inductive Consumer where
  | idle
  | reading
  | returning (res : Except ShmError (ℕ × Payload))
  deriving DecidableEq

/-- The message that has been taken and not returned. -/
def Consumer.taken : Consumer → List Payload
  | .returning (.ok (_, out)) => [out]
  | _ => []

/-- A queue with its two sides. -/
structure State where
  queue : List Payload
  producer : Producer
  consumer : Consumer
  deriving DecidableEq

/-- What happens. -/
inductive Label where
  | event (e : RingEvent)
  /-- The producer finds the queue full. -/
  | seeFull
  /-- The producer drops the oldest message. -/
  | evict
  /-- The producer, which has found the queue full, finds it empty. -/
  | drained (e : ShmError)
  /-- The producer stores its message. -/
  | enqueue (wasEmpty : Bool)
  /-- The consumer takes the oldest message. -/
  | dequeue
  /-- The consumer finds the queue empty. -/
  | seeEmpty

/-- What a step shows. -/
def Label.event? : Label → Option RingEvent
  | .event e => some e
  | _ => none

namespace State

variable (s : State)

/-- There is no room for `p`, or there are as many messages as there may be, with the one that the
consumer is about to return. -/
def Full (p : Payload) : Prop :=
  LacksRoom s.queue p ∨ maxMessages.toNat ≤ (s.consumer.taken ++ s.queue).length

instance (p : Payload) : Decidable (s.Full p) := inferInstanceAs (Decidable (_ ∨ _))

/-- `was_empty` may be so: it says whether the queue is empty, while the consumer returns the last
message it may say that it is not. -/
def WasEmpty (b : Bool) : Prop :=
  if b then s.queue = [] else s.consumer.taken ++ s.queue ≠ []

instance (b : Bool) : Decidable (s.WasEmpty b) := by
  unfold WasEmpty
  infer_instance

/-- The next step of the producer. -/
def producerStep : Label → Option State
  | .event (.callWrite p) =>
    if s.producer = .idle then
      some { s with producer :=
        if p.length < minMessageSize then .returning (.error .messageTooSmall)
        else if maxMessageSize < p.length then .returning (.error .messageTooLarge)
        else .writing p 0 }
    else none
  | .event (.returnWrite res) =>
    if s.producer = .returning res then some { s with producer := .idle } else none
  | .seeFull =>
    match s.producer with
    | .writing p ov => if s.Full p then some { s with producer := .full p ov } else none
    | _ => none
  | .evict =>
    match s.producer, s.queue with
    | .full p ov, _ :: Q => some { s with producer := .writing p (ov + 1), queue := Q }
    | _, _ => none
  | .drained e =>
    match s.producer, s.queue with
    | .full _ _, [] =>
      if e = .queueEmpty ∨ e = .messageTooLarge then
        some { s with producer := .returning (.error e) }
      else none
    | _, _ => none
  | .enqueue b =>
    match s.producer with
    | .writing p ov =>
      if ¬ LacksRoom s.queue p ∧ s.WasEmpty b then
        some { s with producer := .returning (.ok ⟨ov, b⟩), queue := s.queue ++ [p] }
      else none
    | _ => none
  | _ => none

/-- The next step of the consumer. -/
def consumerStep : Label → Option State
  | .event .callRead =>
    if s.consumer = .idle then some { s with consumer := .reading } else none
  | .event (.returnRead res) =>
    if s.consumer = .returning res then some { s with consumer := .idle } else none
  | .dequeue =>
    match s.consumer, s.queue with
    | .reading, p :: Q => some { s with consumer := .returning (.ok (p.length, p)), queue := Q }
    | _, _ => none
  | .seeEmpty =>
    match s.consumer, s.queue with
    | .reading, [] => some { s with consumer := .returning (.error .queueEmpty) }
    | _, _ => none
  | _ => none

/-- One step. -/
def step : Label → Option State
  | l@(.event (.callWrite _)) | l@(.event (.returnWrite _)) | l@.seeFull | l@.evict
  | l@(.drained _) | l@(.enqueue _) => s.producerStep l
  | l@(.event .callRead) | l@(.event (.returnRead _)) | l@.dequeue | l@.seeEmpty =>
    s.consumerStep l

variable {s}

/-- The producer finds the queue full. -/
theorem step_seeFull {p : Payload} {ov : UInt32} (hp : s.producer = .writing p ov)
    (hfull : s.Full p) : s.step .seeFull = some { s with producer := .full p ov } := by
  simp only [step, producerStep, hp, hfull, if_true]

/-- The producer has found the queue full, and drops the oldest message. -/
theorem step_evict {p f : Payload} {ov : UInt32} {Q : List Payload}
    (hp : s.producer = .full p ov) (hQ : s.queue = f :: Q) :
    s.step .evict = some { s with producer := .writing p (ov + 1), queue := Q } := by
  simp only [step, producerStep, hp, hQ]

/-- The producer has found the queue full, and there is nothing in it. -/
theorem step_drained {p : Payload} {ov : UInt32} {e : ShmError} (hp : s.producer = .full p ov)
    (hQ : s.queue = []) (he : e = .queueEmpty ∨ e = .messageTooLarge) :
    s.step (.drained e) = some { s with producer := .returning (.error e) } := by
  simp only [step, producerStep, hp, hQ, he, if_true]

/-- The producer stores its message. -/
theorem step_enqueue {p : Payload} {ov : UInt32} {b : Bool} (hp : s.producer = .writing p ov)
    (hroom : ¬ LacksRoom s.queue p) (hb : s.WasEmpty b) : s.step (.enqueue b) =
      some { s with producer := .returning (.ok ⟨ov, b⟩), queue := s.queue ++ [p] } := by
  simp only [step, producerStep, hp, hroom, hb, not_false_eq_true, and_self, if_true]

/-- The consumer takes the oldest message. -/
theorem step_dequeue {p : Payload} {Q : List Payload} (hc : s.consumer = .reading)
    (hQ : s.queue = p :: Q) : s.step .dequeue =
      some { s with consumer := .returning (.ok (p.length, p)), queue := Q } := by
  simp only [step, consumerStep, hc, hQ]

/-- The consumer finds the queue empty. -/
theorem step_seeEmpty (hc : s.consumer = .reading) (hQ : s.queue = []) :
    s.step .seeEmpty = some { s with consumer := .returning (.error .queueEmpty) } := by
  simp only [step, consumerStep, hc, hQ]

end State

/-- The queue with its two sides. -/
def system : System State Label where
  init s := s = ⟨[], .idle, .idle⟩
  step := State.step

end Atomic

/-! ### The ring seen as the queue -/

/-- Where `write_message` stands, seen from outside. -/
def Writer.producer : Writer → Atomic.Producer
  | .idle => .idle
  | .loadWrite p ov | .loadRead p ov _ | .copy p ov _ _ | .addCount p ov _ => .writing p ov
  | .loadCount p ov write read =>
    -- the producer looks at `message_count` too, but there is too little room already
    if availableBytes write read < ((totalRequired p).toNat : ℤ) then .full p ov
    else .writing p ov
  | .discard p ov d => if d.searching then .full p ov else .writing p (ov + 1)
  | .storeWrite _ ov _ prevCount | .addSequence ov prevCount =>
    .returning (.ok ⟨ov, prevCount == 0⟩)

/-- Where `read_message` stands, seen from outside. -/
def Reader.consumer : Reader → Atomic.Consumer
  | .idle => .idle
  | .loadCount | .loadRead | .readLen0 _ | .readLen1 _ _ | .reload _ | .copy _ _ _
  | .compareExchange _ _ _ => .reading
  | .subCount msgLen out | .addSequence msgLen out => .returning (.ok (msgLen, out))

/-- The call that a label makes. -/
def RingLabel.call : RingLabel → List RingEvent
  | .callWrite p => [.callWrite p]
  | .callRead => [.callRead]
  | .writer | .reader => []

namespace RingState

/-- The ring seen as a queue. -/
def atomic (s : RingState) : Atomic.State where
  queue := s.hist.waiting
  producer := s.writer.producer
  consumer := s.reader.consumer

/-- What the step `l` from `s` to `s'` shows: a call, and what has been returned. -/
def events (s : RingState) (l : RingLabel) (s' : RingState) : List RingEvent :=
  l.call ++ (s'.hist.writes.drop s.hist.writes.length).map .returnWrite ++
    (s'.hist.reads.drop s.hist.reads.length).map .returnRead

/-- The step `l` from `s` to `s'` is a step of the queue, some steps or none, that show the same. -/
def MatchesAtomic (s : RingState) (l : RingLabel) (s' : RingState) : Prop :=
  System.Matches Atomic.system atomic Atomic.Label.event? events s l s'

section Matches

variable {s s' : RingState} {l : RingLabel}

theorem events_eq (ws : List (Except ShmError WriteOutcome))
    (rs : List (Except ShmError (ℕ × Payload))) (hw : s'.hist.writes = s.hist.writes ++ ws)
    (hr : s'.hist.reads = s.hist.reads ++ rs) :
    s.events l s' = l.call ++ ws.map .returnWrite ++ rs.map .returnRead := by
  rw [events, hw, hr, List.drop_left, List.drop_left]

/-- A step that returns nothing. -/
theorem events_silent (hw : s'.hist.writes = s.hist.writes) (hr : s'.hist.reads = s.hist.reads) :
    s.events l s' = l.call := by
  rw [events_eq [] [] (by rw [hw, List.append_nil]) (by rw [hr, List.append_nil])]
  simp

namespace MatchesAtomic

/-- Nothing happens in the queue. -/
theorem silent (hl : l.call = []) (hw : s'.hist.writes = s.hist.writes)
    (hr : s'.hist.reads = s.hist.reads) (h : s'.atomic = s.atomic) : s.MatchesAtomic l s' := by
  refine ⟨[], by rw [h]; rfl, ?_⟩
  rw [events_silent hw hr, hl]
  rfl

/-- One step of the queue that shows nothing. -/
theorem internal (m : Atomic.Label) (hm : m.event? = none) (hl : l.call = [])
    (hw : s'.hist.writes = s.hist.writes) (hr : s'.hist.reads = s.hist.reads)
    (h : s.atomic.step m = some s'.atomic) : s.MatchesAtomic l s' := by
  refine ⟨[m], System.run_single h, ?_⟩
  rw [events_silent hw hr, hl, List.filterMap_cons_none hm, List.filterMap_nil]

/-- A call that does not return at once. -/
theorem call {e : RingEvent} (hl : l.call = [e]) (hw : s'.hist.writes = s.hist.writes)
    (hr : s'.hist.reads = s.hist.reads) (h : s.atomic.step (.event e) = some s'.atomic) :
    s.MatchesAtomic l s' := by
  refine ⟨[.event e], System.run_single h, ?_⟩
  rw [events_silent hw hr, hl]
  rfl

/-- `write_message` returns, after the steps `ms` of the queue. -/
theorem returnWrite (ms : List Atomic.Label) {t : Atomic.State}
    {res : Except ShmError WriteOutcome} (hms : ms.filterMap Atomic.Label.event? = l.call)
    (hw : s'.hist.writes = s.hist.writes ++ [res]) (hr : s'.hist.reads = s.hist.reads)
    (ht : Atomic.system.run s.atomic ms = some t) (hp : t.producer = .returning res)
    (h : s'.atomic = { t with producer := .idle }) : s.MatchesAtomic l s' := by
  refine ⟨ms ++ [.event (.returnWrite res)], System.run_trans ht (System.run_single ?_), ?_⟩
  · rw [h]
    exact if_pos hp
  · rw [events_eq [res] [] hw (by rw [hr, List.append_nil]),
      List.filterMap_append, hms]
    simp [Atomic.Label.event?]

/-- `read_message` returns, after the steps `ms` of the queue. -/
theorem returnRead (ms : List Atomic.Label) {t : Atomic.State}
    {res : Except ShmError (ℕ × Payload)} (hms : ms.filterMap Atomic.Label.event? = l.call)
    (hw : s'.hist.writes = s.hist.writes) (hr : s'.hist.reads = s.hist.reads ++ [res])
    (ht : Atomic.system.run s.atomic ms = some t) (hc : t.consumer = .returning res)
    (h : s'.atomic = { t with consumer := .idle }) : s.MatchesAtomic l s' := by
  refine ⟨ms ++ [.event (.returnRead res)], System.run_trans ht (System.run_single ?_), ?_⟩
  · rw [h]
    exact if_pos hc
  · rw [events_eq [] [res] (by rw [hw, List.append_nil]) hr,
      List.filterMap_append, hms]
    simp [Atomic.Label.event?]

end MatchesAtomic

/-- The frame at `read_pos` is the oldest message. -/
theorem waiting_of_frameAt (h : DeliveryInv s) {f : Payload}
    (hf : History.frameAt s.hist.frames s.hist.readEnd = some f) :
    s.hist.waiting = f :: s.hist.waiting.tail := by
  obtain ⟨taken, unread, hF, hM⟩ := h.inOrder
  have hwait : s.hist.waiting = unread := by
    rw [History.waiting, hF, hM.length_eq, List.drop_left]
  rw [hF, History.InOrder.forall₂_readEnd hM, History.frameAt_framesBytes] at hf
  rw [hwait]
  cases unread with
  | nil => cases hf
  | cons g unread =>
    cases hf
    rfl

theorem waiting_eq_nil (h : s.hist.unread = 0) : s.hist.waiting = [] :=
  List.eq_nil_of_length_eq_zero ((History.length_waiting _).trans h)

/-- A `message_count` of zero says that there is no message. -/
theorem waiting_of_messageCount {P : UInt32 → Prop} (h : CountInv P s)
    (h₀ : s.header.messageCount = 0) : s.hist.waiting = [] := by
  have hcount := h.count
  rw [h₀] at hcount
  change 0 = _ at hcount
  exact waiting_eq_nil (by omega)

/-- `discard_oldest` finds `read_pos` at the end of the frames: there is no message. -/
theorem waiting_of_seenRead (h : RingInv s) {read : UInt32} {pos : ℕ}
    (hs : SeenRead s.hist.frames s.hist.readEnd read pos) (hun : s.writer.unpublished = 0)
    (he : read = s.header.writePos) : s.hist.waiting = [] := by
  have hcap : ringCapacity < 2 ^ 32 := by decide
  have hle := hs.2.1
  have hend := h.readEnd_le
  have hlap := hs.2.2
  have hpos := h.writePos
  rw [hun, Nat.sub_zero, ← he, hs.1] at hpos
  have := ofNat_inj_of_lt (by omega) (by omega) hpos.symm
  refine waiting_eq_nil (Nat.eq_zero_of_not_pos fun hlt => ?_)
  have := h.unread_pos_iff.1 hlt
  omega

/-- What the consumer has taken and not counted it is about to return. -/
theorem uncounted_le (r : Reader) : r.uncounted ≤ r.consumer.taken.length := by
  cases r with
  | subCount => exact le_rfl
  | _ => exact Nat.zero_le _

/-- A side has moved `read_pos`. -/
theorem atomic_move {m : Move} (hF : s'.hist.frames = s.hist.frames)
    (hM : s'.hist.moves = s.hist.moves ++ [m]) :
    s'.atomic = ⟨s.hist.waiting.tail, s'.writer.producer, s'.reader.consumer⟩ := by
  rw [atomic, History.waiting_move hF hM]

/-- A producer that counts its frame has room for it. -/
theorem not_lacksRoom {P : UInt32 → Prop} (h : CountInv P s) {p : Payload} {ov write : UInt32}
    (hw : s.writer = .addCount p ov write) : ¬ LacksRoom s.hist.waiting p := by
  have hcount := h.count
  have hlt := h.filling (by rw [hw]; rfl)
  have hroom := h.ring.room
  have hsum := h.ring.sum_waiting
  rw [hw] at hroom
  simp only [Writer.reserved, length_frameBytes] at hroom
  rintro (hmany | hlarge)
  · change 500 ≤ _ at hmany
    rw [History.length_waiting] at hmany
    omega
  · omega

/-- `message_count` is zero only if there is no message, and if there is none and the consumer
returns none either. -/
theorem wasEmpty_messageCount {P : UInt32 → Prop} (h : CountInv P s) {p : Payload}
    {ov write : UInt32} (hw : s.writer = .addCount p ov write) :
    s.atomic.WasEmpty (s.header.messageCount == 0) := by
  by_cases h₀ : s.header.messageCount = 0
  · rw [beq_iff_eq.2 h₀]
    exact waiting_of_messageCount h h₀
  · rw [beq_eq_false_iff_ne.2 h₀]
    have hcount := h.count
    have hle := uncounted_le s.reader
    rw [hw] at hcount
    simp only [Writer.uncounted] at hcount
    have hne : 0 < s.header.messageCount.toNat := by
      refine Nat.pos_of_ne_zero fun hz => h₀ ?_
      exact UInt32.toNat_inj.1 hz
    refine List.ne_nil_of_length_pos ?_
    rw [List.length_append]
    change 0 < s.reader.consumer.taken.length + s.hist.waiting.length
    rw [History.length_waiting]
    omega

/-- The next access of `discard_oldest`. -/
theorem discardStep_matches (h : DeliveryInv s) {p : Payload} {ov : UInt32} {d : Discard}
    (hw : s.writer = .discard p ov d) : s.MatchesAtomic .writer (s.discardStep p ov d) := by
  have hok := h.ring.writer
  rw [hw] at hok
  cases d with
  | loadRead | readLen0 => exact .silent rfl rfl rfl (by rw [atomic, atomic, hw]; rfl)
  | subCount | addDrop => exact .silent rfl rfl rfl (by rw [atomic, atomic, hw]; rfl)
  | loadWrite read =>
    obtain ⟨-, pos, hs, -⟩ := hok
    rw [discardStep]
    split_ifs with he
    · have hp : s.atomic.producer = .full p ov := by rw [atomic, hw]; rfl
      have hQ := waiting_of_seenRead h.ring hs (by rw [hw]; rfl) he
      exact .returnWrite [.drained .queueEmpty] rfl rfl rfl
        (System.run_single (Atomic.State.step_drained hp hQ (.inl rfl))) rfl rfl
    · exact .silent rfl rfl rfl (by rw [atomic, atomic, hw]; rfl)
  | readLen1 read b₀ =>
    -- what is at `read_pos` is a frame, or has been read before `read_pos` moved
    obtain ⟨-, pos, f, hs, hf, h₀⟩ := hok
    have hvalid : LengthOk f.length := h.ring.valid_of_frameAt hf
    rw [discardStep, h.ring.decodeLen_seen (by rw [hw]; rfl) hs hf h₀]
    simp only [hvalid, not_true_eq_false, ↓reduceIte]
    exact .silent rfl rfl rfl (by rw [atomic, atomic, hw]; rfl)
  | compareExchange read msgLen =>
    obtain ⟨-, pos, f, hs, hf, -⟩ := hok
    rw [discardStep]
    split_ifs with he
    · rw [← h.ring.readEnd_eq_seen hs he] at hf
      have hp : s.atomic.producer = .full p ov := by rw [atomic, hw]; rfl
      have hstep := Atomic.State.step_evict hp (waiting_of_frameAt h hf)
      refine .internal .evict rfl rfl rfl rfl (hstep.trans (congrArg some ?_))
      exact Eq.symm (atomic_move rfl rfl)
    · exact .silent rfl rfl rfl (by rw [atomic, atomic, hw]; rfl)

/-- The next access of the producer. -/
theorem writerStep_matches (h : DeliveryInv s) {P : UInt32 → Prop} (hc : CountInv P s)
    (hst : s.writerStep = some s') : s.MatchesAtomic .writer s' := by
  have hok := h.ring.writer
  rw [writerStep] at hst
  cases hw : s.writer with
  | idle => simp [hw] at hst
  | loadWrite p ov =>
    simp only [hw] at hst
    cases hst
    exact .silent rfl rfl rfl (by rw [atomic, atomic, hw]; rfl)
  | loadRead p ov write =>
    simp only [hw] at hst hok
    cases hst
    by_cases hfull : availableBytes write s.header.readPos < ((totalRequired p).toNat : ℤ)
    · have hlack := h.ring.lacksRoom_of_available hok.1 hok.2 hfull
      have hp : s.atomic.producer = .writing p ov := by rw [atomic, hw]; rfl
      have hstep := Atomic.State.step_seeFull hp (.inl hlack)
      refine .internal .seeFull rfl rfl rfl rfl (hstep.trans ?_)
      simp only [atomic, Writer.producer, hfull, if_true]
    · refine .silent rfl rfl rfl ?_
      simp only [atomic, hw, Writer.producer, hfull, if_false]
  | loadCount p ov write read =>
    simp only [hw] at hst
    split_ifs at hst with hm h₀
    · cases hst
      -- 500 messages are not none, so there is too little room
      have hfull : availableBytes write read < ((totalRequired p).toNat : ℤ) := by
        refine hm.resolve_right fun hmany => ?_
        rw [h₀] at hmany
        exact absurd hmany (by decide)
      have hp : s.atomic.producer = .full p ov := by rw [atomic, hw]; exact if_pos hfull
      have hQ := waiting_of_messageCount hc h₀
      exact .returnWrite [.drained .messageTooLarge] rfl rfl rfl
        (System.run_single (Atomic.State.step_drained hp hQ (.inr rfl))) rfl rfl
    · cases hst
      by_cases hfull : availableBytes write read < ((totalRequired p).toNat : ℤ)
      · refine .silent rfl rfl rfl ?_
        simp only [atomic, hw, Writer.producer, hfull, if_true]
        rfl
      · -- the frame that the consumer has taken may still be counted
        have hmany : 500 ≤ s.header.messageCount.toNat :=
          UInt32.le_iff_toNat_le.1 (hm.resolve_left hfull)
        have hcount := hc.count
        have hle := uncounted_le s.reader
        rw [hw] at hcount
        simp only [Writer.uncounted] at hcount
        have hp : s.atomic.producer = .writing p ov := by rw [atomic, hw]; exact if_neg hfull
        have hlen : 500 ≤ (s.reader.consumer.taken ++ s.hist.waiting).length := by
          rw [List.length_append, History.length_waiting]
          omega
        exact .internal .seeFull rfl rfl rfl rfl (Atomic.State.step_seeFull hp (.inr hlen))
    · cases hst
      refine .silent rfl rfl rfl ?_
      simp only [atomic, hw, Writer.producer, mt Or.inl hm, if_false]
  | discard p ov d =>
    simp only [hw] at hst
    cases hst
    exact discardStep_matches h hw
  | copy p ov write k =>
    simp only [hw] at hst
    cases hst
    refine .silent rfl rfl rfl ?_
    simp only [atomic, hw]
    split_ifs <;> rfl
  | addCount p ov write =>
    simp only [hw] at hst hok
    cases hst
    have hp : s.atomic.producer = .writing p ov := by rw [atomic, hw]; rfl
    have hstep := Atomic.State.step_enqueue hp (not_lacksRoom hc hw) (wasEmpty_messageCount hc hw)
    refine .internal (.enqueue (s.header.messageCount == 0)) rfl rfl rfl rfl
      (hstep.trans (congrArg some ?_))
    simp only [atomic, History.waiting, List.drop_append_of_le_length h.ring.moves_le]
    rfl
  | storeWrite p ov write prevCount =>
    simp only [hw] at hst
    split_ifs at hst with h₀
    · cases hst
      exact .silent rfl rfl rfl (by rw [atomic, atomic, hw]; rfl)
    · cases hst
      refine .returnWrite [] rfl rfl rfl rfl ?_ rfl
      simp only [atomic, hw, Writer.producer, beq_eq_false_iff_ne.2 h₀]
  | addSequence ov prevCount =>
    simp only [hw] at hst
    cases hst
    exact .returnWrite [] rfl rfl rfl rfl (by rw [atomic, hw]; rfl) rfl

/-- The next access of the consumer. -/
theorem readerStep_matches (h : DeliveryInv s) {P : UInt32 → Prop} (hc : CountInv P s)
    (hshort : ShortAttempt s .reader) (hst : s.readerStep = some s') :
    s.MatchesAtomic .reader s' := by
  have hok := h.ring.reader
  rw [readerStep] at hst
  cases hr : s.reader with
  | idle => simp [hr] at hst
  | loadCount =>
    simp only [hr] at hst
    split_ifs at hst with h₀
    · cases hst
      have hcon : s.atomic.consumer = .reading := by rw [atomic, hr]; rfl
      have hQ := waiting_of_messageCount hc h₀
      exact .returnRead [.seeEmpty] rfl rfl rfl
        (System.run_single (Atomic.State.step_seeEmpty hcon hQ)) rfl rfl
    · cases hst
      exact .silent rfl rfl rfl (by rw [atomic, atomic, hr]; rfl)
  | loadRead | readLen0 =>
    simp only [hr] at hst
    cases hst
    exact .silent rfl rfl rfl (by rw [atomic, atomic, hr]; rfl)
  | readLen1 a b₀ =>
    simp only [hr] at hst
    split_ifs at hst <;> cases hst
    · exact .silent rfl rfl rfl (by rw [atomic, atomic, hr]; rfl)
    · exact .silent rfl rfl rfl (by rw [atomic, atomic, hr]; rfl)
  | reload a =>
    have hmem : a ∈ s.reader.attempt := by rw [hr]; rfl
    simp only [hr] at hst hok
    split_ifs at hst with he
    · cases hst
      exact .silent rfl rfl rfl (by rw [atomic, atomic, hr]; rfl)
    · -- the length was not valid, so `read_pos` has moved since it was loaded
      obtain ⟨f, hf⟩ := Option.isSome_iff_exists.1 (h.attempt a hmem)
      have hbase := h.ring.readEnd_eq_base hok.1 (hshort a hmem) (not_not.1 he)
      exact absurd hbase (hok.2 f hf)
  | copy a msgLen out =>
    simp only [hr] at hst
    cases hst
    refine .silent rfl rfl rfl ?_
    simp only [atomic, hr]
    split_ifs <;> rfl
  | compareExchange a msgLen out =>
    simp only [hr] at hst
    split_ifs at hst with he
    · cases hst
      obtain ⟨f, hf, rfl, rfl⟩ := h.takes hshort hr he
      have hcon : s.atomic.consumer = .reading := by rw [atomic, hr]; rfl
      have hstep := Atomic.State.step_dequeue hcon (waiting_of_frameAt h hf)
      refine .internal .dequeue rfl rfl rfl rfl (hstep.trans (congrArg some ?_))
      exact Eq.symm (atomic_move rfl rfl)
    · cases hst
      exact .silent rfl rfl rfl (by rw [atomic, atomic, hr]; rfl)
  | subCount msgLen out =>
    simp only [hr] at hst
    split_ifs at hst <;> cases hst
    · exact .silent rfl rfl rfl (by rw [atomic, atomic, hr]; rfl)
    · exact .returnRead [] rfl rfl rfl rfl (by rw [atomic, hr]; rfl) rfl
  | addSequence msgLen out =>
    simp only [hr] at hst
    cases hst
    exact .returnRead [] rfl rfl rfl rfl (by rw [atomic, hr]; rfl) rfl

/-- `write_message(p)` is called. -/
theorem callWrite_matches (hw : s.writer = .idle) (p : Payload) :
    s.MatchesAtomic (.callWrite p) (s.callWrite p) := by
  have hidle : s.atomic.producer = .idle := by rw [atomic, hw]; rfl
  by_cases hmin : p.length < minMessageSize
  · have hstep : s.atomic.step (.event (.callWrite p)) =
        some { s.atomic with producer := .returning (.error .messageTooSmall) } := by
      simp only [Atomic.State.step, Atomic.State.producerStep, hidle, hmin, if_true]
    refine .returnWrite [.event (.callWrite p)] rfl ?_ ?_ (System.run_single hstep) rfl ?_
    all_goals rw [callWrite, if_pos hmin]
    rw [atomic, atomic, hw]
    rfl
  by_cases hmax : maxMessageSize < p.length
  · have hstep : s.atomic.step (.event (.callWrite p)) =
        some { s.atomic with producer := .returning (.error .messageTooLarge) } := by
      simp only [Atomic.State.step, Atomic.State.producerStep, hidle, hmin, hmax, if_true, if_false]
    refine .returnWrite [.event (.callWrite p)] rfl ?_ ?_ (System.run_single hstep) rfl ?_
    all_goals rw [callWrite, if_neg hmin, if_pos hmax]
    rw [atomic, atomic, hw]
    rfl
  · have hvalid : p.Valid := ⟨not_lt.1 hmin, not_lt.1 hmax⟩
    have hstep : s.atomic.step (.event (.callWrite p)) =
        some { s.atomic with producer := .writing p 0 } := by
      simp only [Atomic.State.step, Atomic.State.producerStep, hidle, hmin, hmax, if_true, if_false]
    rw [callWrite_of_valid hvalid]
    refine .call rfl rfl rfl (hstep.trans (congrArg some ?_))
    rw [atomic]
    rfl

/-- **Every access is a step of the queue**, some steps or none. -/
theorem step_matches (h : DeliveryInv s) {P : UInt32 → Prop} (hc : CountInv P s)
    (hshort : ShortAttempt s l) (hst : s.step l = some s') : s.MatchesAtomic l s' := by
  cases l with
  | callWrite p =>
    rw [step] at hst
    cases hw : s.writer with
    | idle =>
      simp only [hw] at hst
      cases hst
      exact callWrite_matches hw p
    | _ => simp [hw] at hst
  | callRead =>
    rw [step] at hst
    cases hr : s.reader with
    | idle =>
      simp only [hr] at hst
      cases hst
      have hidle : s.atomic.consumer = .idle := by rw [atomic, hr]; rfl
      exact .call rfl rfl rfl (if_pos hidle)
    | _ => simp [hr] at hst
  | writer => exact writerStep_matches h hc hst
  | reader => exact readerStep_matches h hc hshort hst

end Matches

/-- **The ring is linearizable.**  While the consumer loads `read_pos` only when a counted frame is
unread, the calls and returns of a run are those of a run of the queue, in the same order. -/
theorem linearizable {s s' : RingState} {ls : List RingLabel} (h : FreshRing s)
    (hr : ringSystem.runWhen (fun s l => ShortAttempt s l ∧ FrameUnread s l) s ls = some s') :
    ∃ ms, Atomic.system.run ⟨[], .idle, .idle⟩ ms = some s'.atomic ∧
      ms.filterMap Atomic.Label.event? = ringSystem.trace events s ls := by
  have hinit : s.atomic = ⟨[], .idle, .idle⟩ := by
    obtain ⟨hd, storage, generation, rfl⟩ := h
    rfl
  have hstep : ∀ s l s', DeliveryInv s ∧ CountInv (fun _ => False) s →
      ShortAttempt s l ∧ FrameUnread s l → s.step l = some s' →
      (DeliveryInv s' ∧ CountInv (fun _ => False) s') ∧ s.MatchesAtomic l s' := by
    rintro s l s' ⟨hd, hc⟩ ⟨hshort, hun⟩ hst
    have htakes := hd.takesFrame hshort
    exact ⟨⟨hd.step hshort hun hst, hc.step htakes (fun _ _ _ hP => hP.elim) hst⟩,
      step_matches hd hc hshort hst⟩
  rw [← hinit]
  exact System.exists_run_of_match hstep ⟨.init h, .init h⟩ hr

theorem linearizable_writeThenRead : ∃ s ms,
    Atomic.system.run ⟨[], .idle, .idle⟩ ms = some s ∧ ms.filterMap Atomic.Label.event? =
      [.callWrite [1, 2], .returnWrite (.ok ⟨0, true⟩), .callRead,
        .returnRead (.ok (2, [1, 2]))] := by
  let ls := writeThenRead ++ List.replicate 3 .reader
  obtain ⟨s', hs'⟩ := Option.isSome_iff_exists.1
    (show (ringSystem.runWhen (fun s l => ShortAttempt s l ∧ FrameUnread s l) zeroed ls).isSome
      = true by decide +kernel)
  have htrace : ringSystem.trace events zeroed ls =
      [.callWrite [1, 2], .returnWrite (.ok ⟨0, true⟩), .callRead,
        .returnRead (.ok (2, [1, 2]))] := by decide +kernel
  obtain ⟨ms, hms, he⟩ := linearizable freshRing_zeroed hs'
  exact ⟨_, ms, hms, he.trans htrace⟩

end RingState

end Xshm
