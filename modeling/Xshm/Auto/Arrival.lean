import Xshm.Auto.Wakeup
import Xshm.Ring.Progress
import Xshm.System.Fairness

/-!
# What brings a message to an auto-mode worker

That no wakeup is lost (`Wakeup.awake_of_neverEvicts`) speaks of single states.  Here is what
follows for steps: each step of the worker, or of the peer it waits for, brings the next successful
read nearer, without the help of the timeout of `wait_any` or of another event.

* `Wakeup.Points` : a call is in progress exactly where the program points say so.
* `Wakeup.State.leftToArrive` : the way to the next successful read.  The peer is in the way only
  while the worker waits and `data` is not signalled yet.
* `Wakeup.helps` : every step brings it nearer, or leaves it as it is.
-/

namespace Xshm

/-! ### What a call adds to the history -/

namespace RingState

variable {s s' : RingState}

/-- What `read_message` has returned, if it returns. -/
theorem readerStep_reads (hst : s.readerStep = some s') :
    (s'.reader ≠ .idle ∧ s'.hist.reads = s.hist.reads) ∨
      s'.reader = .idle ∧ ∃ res, s'.hist.reads = s.hist.reads ++ [res] := by
  rw [readerStep] at hst
  cases hr : s.reader with
  | idle => simp [hr] at hst
  | loadRead | readLen0 =>
    simp only [hr] at hst
    cases hst
    exact .inl ⟨by rintro ⟨⟩, rfl⟩
  | loadCount =>
    simp only [hr] at hst
    split_ifs at hst <;> cases hst
    · exact .inr ⟨rfl, _, rfl⟩
    · exact .inl ⟨by rintro ⟨⟩, rfl⟩
  | reload | subCount =>
    simp only [hr] at hst
    split_ifs at hst <;> cases hst
    · exact .inl ⟨by rintro ⟨⟩, rfl⟩
    · exact .inr ⟨rfl, _, rfl⟩
  | readLen1 | copy | compareExchange =>
    simp only [hr] at hst
    split_ifs at hst <;> cases hst <;> exact .inl ⟨by rintro ⟨⟩, rfl⟩
  | addSequence =>
    simp only [hr] at hst
    cases hst
    exact .inr ⟨rfl, _, rfl⟩

end RingState

namespace UnevictedInv

variable {s : RingState}

/-- What has been read is a beginning of what has been stored. -/
theorem received_prefix (h : UnevictedInv s) (hev : NeverEvicts s.hist) :
    s.hist.received.map Prod.snd <+: s.hist.frames := by
  obtain ⟨taken, unread, hF, hM⟩ := h.delivery.inOrder
  have htaken : (s.hist.moves.filterMap Move.taken).map Prod.snd = taken := by
    rw [NeverEvicts] at hev
    clear hF
    generalize s.hist.moves = moves at hM hev
    induction hM with
    | nil => rfl
    | @cons m p moves taken hm _ ih =>
      cases m with
      | evict => exact absurd (hev _ (List.mem_cons_self ..)) Bool.noConfusion
      | take msgLen out =>
        have := ih fun m hm => hev m (List.mem_cons_of_mem _ hm)
        simp [Move.taken, hm.2, this]
  have hres : s.hist.received ++ s.reader.pending = s.hist.moves.filterMap Move.taken :=
    h.delivery.results
  refine ⟨s.reader.pending.map Prod.snd ++ unread, ?_⟩
  rw [hF, ← htaken, ← hres, List.map_append, List.append_assoc]

/-- Between two reads that find nothing everything has been read. -/
theorem received_length (h : UnevictedInv s) (hev : NeverEvicts s.hist) (hr : s.reader = .idle)
    (hc : s.header.messageCount = 0) : s.hist.frames.length ≤ s.hist.received.length := by
  have hu := h.unread_eq_zero hc
  have hres : s.hist.received ++ s.reader.pending = s.hist.moves.filterMap Move.taken :=
    h.delivery.results
  have hp : s.reader.pending = [] := by
    rw [hr]
    rfl
  rw [hp, List.append_nil] at hres
  have hlen : (s.hist.moves.filterMap Move.taken).length = s.hist.moves.length := by
    rw [List.length_filterMap_eq_countP]
    exact List.countP_eq_length.2 hev
  rw [History.unread] at hu
  rw [hres, hlen]
  omega

end UnevictedInv

namespace RingState

variable {s s' : RingState}

/-- What has been stored stays. -/
theorem frames_step (h : RingInv s) (hz : s.Sized) {l : RingLabel} (hst : s.step l = some s') :
    s.hist.frames <+: s'.hist.frames := by
  have same (hF : s'.hist.frames = s.hist.frames) : s.hist.frames <+: s'.hist.frames :=
    hF ▸ List.prefix_refl _
  cases l with
  | callWrite p =>
    rw [step] at hst
    split at hst <;> cases hst
    refine same ?_
    rw [callWrite]
    split_ifs <;> rfl
  | writer =>
    obtain ⟨-, -, hp, -⟩ := h.writerStep_progress hst
    cases hp with
    | count qs hF _ => exact hF ▸ List.prefix_append _ _
    | move f m _ _ hF _ => exact same hF
  | callRead | reader =>
    obtain ⟨-, ⟨hl, -⟩ | ⟨-, hc⟩⟩ := step_cases hz hst
    · rcases hl with hl | ⟨p, hl⟩ <;> cases hl
    · cases hc with
      | go _ _ hh _ => exact same (by rw [hh])
      | ret _ _ _ _ _ hF _ => exact same hF
      | take _ _ _ _ _ _ hF _ => exact same hF

/-- An access can always be made. -/
theorem writerStep_isSome (h : s.writer ≠ .idle) : s.writerStep.isSome := by
  rw [writerStep]
  cases hw : s.writer with
  | idle => exact absurd hw h
  | loadCount | storeWrite =>
    dsimp only
    split_ifs <;> rfl
  | _ => rfl

theorem readerStep_isSome (h : s.reader ≠ .idle) : s.readerStep.isSome := by
  rw [readerStep]
  cases hr : s.reader with
  | idle => exact absurd hr h
  | loadRead | readLen0 | addSequence => rfl
  | _ =>
    dsimp only
    split_ifs <;> rfl

end RingState

/-- A step of the producer that does not evict leaves the way of the consumer as it is. -/
theorem ProducerStep.unevicted {s s' : RingState} (h : ProducerStep s s')
    (hev : NeverEvicts s'.hist) :
    s'.readerLeft = s.readerLeft ∧ s'.hist.reads = s.hist.reads := by
  cases h with
  | go hrd hr hreads => exact ⟨RingState.readerLeft_congr hrd hr, hreads⟩
  | ret hrd hr hreads => exact ⟨RingState.readerLeft_congr hrd hr, hreads⟩
  | evict msgLen _ _ hM =>
    have := hev (.evict msgLen) (hM ▸ List.mem_append_right _ (List.mem_singleton.2 rfl))
    exact absurd this Bool.noConfusion

theorem Reader.left_pos (rd : Reader) : 0 < rd.left := by
  cases rd <;> simp [Reader.left]

/-! ### The two threads -/

namespace Wakeup

/-- Which of the two threads moves. -/
inductive Thread where
  | worker
  | peer
  deriving DecidableEq

/-- The steps of a thread.  That `wait_any` times out, fails or reports another event, and that the
peer sends, may happen or not. -/
def Label.of : Thread → Label → Prop
  | .worker, .worker | .worker, .wake .data => True
  | .peer, .peer => True
  | _, _ => False

/-- A call is in progress exactly where the program points say so. -/
structure Points (s : State) : Prop where
  peer : s.peer = .writing ↔ s.ring.writer ≠ .idle
  worker : (∃ left, s.worker = .reading left) ↔ s.ring.reader ≠ .idle
  sized : s.ring.Sized

theorem nextPeer_eq_writing (r : RingState) : nextPeer r = .writing ↔ r.writer ≠ .idle := by
  rw [nextPeer]
  cases hw : r.writer with
  | idle =>
    refine ⟨?_, fun h => absurd rfl h⟩
    dsimp only
    split
    · split_ifs <;> rintro ⟨⟩
    · rintro ⟨⟩
  | _ => exact ⟨fun _ => by rintro ⟨⟩, fun _ => rfl⟩

theorem nextWorker_reading (left : ℕ) (r : RingState) :
    (∃ left', nextWorker left r = .reading left') ↔ r.reader ≠ .idle := by
  rw [nextWorker]
  cases hr : r.reader with
  | idle =>
    refine ⟨?_, fun h => absurd rfl h⟩
    dsimp only
    split <;> rintro ⟨_, ⟨⟩⟩
  | _ => exact ⟨fun _ => by rintro ⟨⟩, fun _ => ⟨left, rfl⟩⟩

namespace Points

variable {side : Side} {recvBatch : ℕ} {s s' : State}

/-- The worker moves outside `read_message`. -/
theorem goto (h : Points s) {w : Worker} (hs : ∀ left, s.worker ≠ .reading left)
    (hw : ∀ left, w ≠ .reading left) : Points { s with worker := w } := by
  refine ⟨h.peer, ⟨fun hr => ?_, fun hr => ?_⟩, h.sized⟩
  · obtain ⟨left, hleft⟩ := hr
    exact absurd hleft (hw left)
  · obtain ⟨left, hleft⟩ := h.worker.2 hr
    exact absurd hleft (hs left)

/-- A step of the ring which is one of the peer. -/
theorem ofPeer (h : Points s) {l : RingLabel} (hl : l = .writer ∨ ∃ p, l = .callWrite p)
    {r : RingState} (hr : s.ring.step l = some r) :
    Points { s with ring := r, peer := nextPeer r } := by
  obtain ⟨hsized, ⟨-, hp⟩ | ⟨hl', -⟩⟩ := RingState.step_cases h.sized hr
  · refine ⟨nextPeer_eq_writing r, ?_, hsized⟩
    rw [hp.reader_eq]
    exact h.worker
  · rcases hl with rfl | ⟨p, rfl⟩ <;> rcases hl' with h' | h' <;> cases h'

theorem workerStep (h : Points s) (hst : s.workerStep recvBatch = some s') : Points s' := by
  have hsized {l : RingLabel} (hl : l = .reader ∨ l = .callRead) {r : RingState}
      (hr : s.ring.step l = some r) : r.Sized ∧ r.writer = s.ring.writer := by
    obtain ⟨hsized, ⟨hl', -⟩ | ⟨-, hc⟩⟩ := RingState.step_cases h.sized hr
    · rcases hl with rfl | rfl <;> rcases hl' with h' | ⟨p, h'⟩ <;> cases h'
    · exact ⟨hsized, hc.writer_eq⟩
  rw [State.workerStep] at hst
  cases hw : s.worker with
  | away =>
    simp only [hw] at hst
    split_ifs at hst
    cases hst
    exact h.goto (by simp [hw]) (by rintro _ ⟨⟩)
  | head =>
    simp only [hw] at hst
    cases hst
    exact h.goto (by simp [hw]) (by split_ifs <;> rintro _ ⟨⟩)
  | receive left =>
    cases left with
    | zero =>
      simp only [hw] at hst
      cases hst
      exact h.goto (by simp [hw]) (by rintro _ ⟨⟩)
    | succ left =>
      simp only [hw] at hst
      split_ifs at hst
      · obtain ⟨r, hr, rfl⟩ := Option.map_eq_some_iff.1 hst
        obtain ⟨hz, hwr⟩ := hsized (.inr rfl) hr
        refine ⟨hwr ▸ h.peer, ⟨fun _ => ?_, fun _ => ⟨left, rfl⟩⟩, hz⟩
        rw [RingState.step] at hr
        split at hr <;> cases hr
        rintro ⟨⟩
      · cases hst
        exact h.goto (by simp [hw]) (by rintro _ ⟨⟩)
  | reading left =>
    simp only [hw] at hst
    obtain ⟨r, hr, rfl⟩ := Option.map_eq_some_iff.1 hst
    obtain ⟨hz, hwr⟩ := hsized (.inl rfl) hr
    exact ⟨hwr ▸ h.peer, nextWorker_reading left r, hz⟩
  | loadCount left =>
    simp only [hw] at hst
    cases hst
    exact h.goto (by simp [hw]) (by split_ifs <;> rintro _ ⟨⟩)
  | setSpace left =>
    simp only [hw] at hst
    cases hst
    obtain ⟨hp, hr, hz⟩ := h.goto (w := .receive left) (by simp [hw]) (by rintro _ ⟨⟩)
    exact ⟨hp, hr, hz⟩
  | leave =>
    simp only [hw] at hst
    cases hst
    obtain ⟨hp, hr, hz⟩ := h.goto (w := .away) (by simp [hw]) (by rintro _ ⟨⟩)
    exact ⟨hp, hr, hz⟩
  | waitAny | ended => simp [hw] at hst

theorem step (h : Points s) {l : Label} (hst : s.step side recvBatch l = some s') :
    Points s' := by
  cases l with
  | send p =>
    rw [State.step] at hst
    split at hst
    · obtain ⟨r, hr, rfl⟩ := Option.map_eq_some_iff.1 hst
      exact h.ofPeer (.inr ⟨p, rfl⟩) hr
    · cases hst
  | peer =>
    rw [State.step] at hst
    cases hp : s.peer with
    | idle => simp [hp] at hst
    | writing =>
      simp only [hp] at hst
      obtain ⟨r, hr, rfl⟩ := Option.map_eq_some_iff.1 hst
      exact h.ofPeer (.inl rfl) hr
    | setData =>
      simp only [hp] at hst
      cases hst
      refine ⟨⟨by rintro ⟨⟩, fun hw => ?_⟩, h.worker, h.sized⟩
      cases hp.symm.trans (h.peer.2 hw)
  | reset generation =>
    rw [State.step] at hst
    split_ifs at hst with hc
    cases hst
    refine ⟨⟨fun hp => ?_, fun hw => absurd rfl hw⟩, ⟨?_, fun hr => absurd rfl hr⟩,
      trivial, trivial⟩
    · cases hc.2.symm.trans hp
    · rintro ⟨left, hleft⟩
      cases hc.1.symm.trans hleft
  | enter =>
    rw [State.step] at hst
    split_ifs at hst with hc
    cases hst
    obtain ⟨hp, hr, hz⟩ := h.goto (w := side.entry recvBatch) (by simp [hc])
      (by cases side <;> rintro _ ⟨⟩)
    exact ⟨hp, hr, hz⟩
  | worker => exact h.workerStep hst
  | wake w =>
    rw [State.step] at hst
    cases hw : s.worker with
    | waitAny =>
      simp only [hw] at hst
      cases w with
      | data =>
        rw [State.wake] at hst
        split_ifs at hst
        cases hst
        obtain ⟨hp, hr, hz⟩ := h.goto (w := .head) (by simp [hw]) (by rintro _ ⟨⟩)
        exact ⟨hp, hr, hz⟩
      | _ =>
        cases hst
        exact h.goto (by simp [hw]) (by rintro _ ⟨⟩)
    | _ => simp [hw] at hst
  | stop =>
    cases hst
    exact ⟨h.peer, h.worker, h.sized⟩

end Points

/-! ### The way to the next message -/

namespace State

/-- What is left to the peer until `data` is signalled. -/
def leftToSignal (s : State) : ℕ :=
  match s.peer, s.ring.writer with
  | .setData, _ => 1
  | _, .storeWrite .. => 3
  | _, _ => 2

/-- What is left to the worker until a read succeeds, if there is a message. -/
def leftToRead (s : State) : ℕ :=
  match s.worker with
  | .away | .leave | .ended => 0
  | .reading _ => s.ring.readerLeft
  | .receive (_ + 1) => 131102
  | .head => 131103
  | .receive 0 => 131104
  | .setSpace _ => 131105
  | .loadCount _ => 131106
  | .waitAny => 131107 + if s.data then 0 else s.leftToSignal

/-- What is left until `target` reads have succeeded. -/
def leftToArrive (target : ℕ) (s : State) : ℕ :=
  131111 * (target - s.ring.hist.received.length) + s.leftToRead

/-- Who has to move next. -/
def helpful (s : State) : Thread :=
  if s.worker = .waitAny ∧ s.data = false then .peer else .worker

/-- What was to arrive has arrived; or the worker has left the connected loop, or a message was
evicted. -/
def Arrived (frames : List Payload) (s : State) : Prop :=
  frames <+: s.ring.hist.received.map Prod.snd ∨ s.worker.connected = false ∨
    ¬ NeverEvicts s.ring.hist

theorem leftToSignal_le (s : State) : s.leftToSignal ≤ 3 := by
  unfold leftToSignal
  split <;> decide

theorem leftToRead_receive {s : State} {left : ℕ} (h : s.worker = .receive left) :
    s.leftToRead ≤ 131104 := by
  rw [leftToRead, h]
  cases left with
  | zero => exact le_rfl
  | succ left => exact (by decide : 131102 ≤ 131104)

theorem leftToRead_le {s : State} (h : Points s) : s.leftToRead ≤ 131110 := by
  have hr := h.sized.readerLeft_le
  have hs := s.leftToSignal_le
  unfold leftToRead
  split
  all_goals first | omega | skip
  split_ifs <;> omega

end State

/-- What a step does to the ring. -/
theorem step_ring {side : Side} {recvBatch : ℕ} {s s' : State} {l : Label}
    (hst : s.step side recvBatch l = some s') :
    s.worker = .away ∨ s'.ring = s.ring ∨ ∃ l', s.ring.step l' = some s'.ring := by
  cases l with
  | send p =>
    rw [State.step] at hst
    split at hst
    · obtain ⟨r, hr, rfl⟩ := Option.map_eq_some_iff.1 hst
      exact .inr (.inr ⟨_, hr⟩)
    · cases hst
  | peer =>
    rw [State.step] at hst
    split at hst
    · cases hst
    · obtain ⟨r, hr, rfl⟩ := Option.map_eq_some_iff.1 hst
      exact .inr (.inr ⟨_, hr⟩)
    · cases hst
      exact .inr (.inl rfl)
  | reset generation =>
    rw [State.step] at hst
    split_ifs at hst with hc
    exact .inl hc.1
  | enter =>
    rw [State.step] at hst
    split_ifs at hst with hc
    exact .inl hc
  | worker =>
    rw [State.step, State.workerStep] at hst
    cases hw : s.worker with
    | away => exact .inl rfl
    | receive left =>
      cases left with
      | zero =>
        simp only [hw] at hst
        cases hst
        exact .inr (.inl rfl)
      | succ left =>
        simp only [hw] at hst
        split_ifs at hst
        · obtain ⟨r, hr, rfl⟩ := Option.map_eq_some_iff.1 hst
          exact .inr (.inr ⟨_, hr⟩)
        · cases hst
          exact .inr (.inl rfl)
    | reading left =>
      simp only [hw] at hst
      obtain ⟨r, hr, rfl⟩ := Option.map_eq_some_iff.1 hst
      exact .inr (.inr ⟨_, hr⟩)
    | head | loadCount | setSpace | leave =>
      simp only [hw] at hst
      cases hst
      exact .inr (.inl rfl)
    | waitAny | ended => simp [hw] at hst
  | wake w =>
    rw [State.step] at hst
    split at hst
    · exact .inr (.inl (wake_ring hst))
    · cases hst
  | stop =>
    cases hst
    exact .inr (.inl rfl)

/-- What holds while the messages are on their way. -/
structure Arriving (frames : List Payload) (s : State) : Prop where
  points : Points s
  inv : NeverEvicts s.ring.hist → WakeupInv s
  stored : frames <+: s.ring.hist.frames

namespace Arriving

variable {side : Side} {recvBatch : ℕ} {frames : List Payload} {s s' : State}

/-- As many messages have been received as were to arrive. -/
theorem arrived (h : Arriving frames s) (hev : NeverEvicts s.ring.hist)
    (hle : frames.length ≤ s.ring.hist.received.length) : s.Arrived frames := by
  have hprefix := (h.inv hev).ring.received_prefix hev
  exact .inl (List.prefix_of_prefix_length_le h.stored hprefix (by rwa [List.length_map]))

theorem received_lt (h : Arriving frames s) (hn : ¬ s.Arrived frames) :
    s.ring.hist.received.length < frames.length := by
  have hev : NeverEvicts s.ring.hist := by
    by_contra hev
    exact hn (.inr (.inr hev))
  by_contra hle
  exact hn (h.arrived hev (Nat.le_of_not_lt hle))

/-- A worker that finds `message_count` zero has received everything. -/
theorem arrived_of_messageCount (h : Arriving frames s) (hev : NeverEvicts s.ring.hist)
    (hw : s.worker = .waitAny) (hc : s.ring.header.messageCount = 0) : s.Arrived frames := by
  have hidle : s.ring.reader = .idle := by
    by_contra hr
    obtain ⟨left, hleft⟩ := h.points.worker.2 hr
    cases hw.symm.trans hleft
  exact h.arrived hev (h.stored.length_le.trans ((h.inv hev).ring.received_length hev hidle hc))

/-- If the worker waits for the peer, the peer is about to signal `data`. -/
theorem signalling (h : Arriving frames s) (hn : ¬ s.Arrived frames) (hh : s.helpful = .peer) :
    s.worker = .waitAny ∧ s.data = false ∧ s.Signalling := by
  have hev : NeverEvicts s.ring.hist := by
    by_contra hev
    exact hn (.inr (.inr hev))
  rw [State.helpful] at hh
  split_ifs at hh with hw
  refine ⟨hw.1, hw.2, ?_⟩
  rcases (h.inv hev).awake hw.1 with hc | hd | hs
  · exact absurd (h.arrived_of_messageCount hev hw.1 hc) hn
  · cases hw.2.symm.trans hd
  · exact hs

theorem step (h : Arriving frames s) (hn : ¬ s.Arrived frames) {l : Label}
    (hst : s.step side recvBatch l = some s') : Arriving frames s' := by
  refine ⟨h.points.step hst, WakeupInv.step h.inv hst, ?_⟩
  rcases step_ring hst with hw | hr | ⟨l', hr⟩
  · refine absurd (.inr (.inl ?_)) hn
    rw [hw]
    rfl
  · exact hr ▸ h.stored
  · have hev : NeverEvicts s.ring.hist := by
      by_contra hev
      exact hn (.inr (.inr hev))
    have hring := (h.inv hev).ring.delivery.ring
    exact h.stored.trans (RingState.frames_step hring h.points.sized hr)

/-- If the worker waits for the peer, the peer is in the middle of a call. -/
theorem peer_ne_idle (h : Arriving frames s) (hn : ¬ s.Arrived frames) (hh : s.helpful = .peer) :
    s.peer = .setData ∨ s.peer = .writing ∧ s.ring.writer ≠ .idle := by
  obtain ⟨-, -, hs | hs⟩ := h.signalling hn hh
  · have hw : s.ring.writer ≠ .idle := by
      intro hw
      rw [hw] at hs
      cases hs
    exact .inr ⟨h.points.peer.2 hw, hw⟩
  · exact .inl hs

end Arriving

/-! ### Every step brings the next message nearer -/

section Helps

variable {side : Side} {recvBatch : ℕ} {frames : List Payload} {s s' : State}

/-- The goal, for messages that are already stored. -/
abbrev HelpsArrive (frames : List Payload) : State → Label → State → Prop :=
  System.Execution.Helps Label.of (State.Arrived frames) State.helpful
    (State.leftToArrive frames.length)

/-- Nothing has been received by this step, and the way to the next read is shorter. -/
theorem helps_of_leftToRead {l : Label} (hr : s'.ring.hist.reads = s.ring.hist.reads)
    (hlt : s'.leftToRead < s.leftToRead) : HelpsArrive frames s l s' := by
  refine .lowers ?_
  rw [State.leftToArrive, State.leftToArrive, History.received, History.received, hr]
  exact Nat.add_lt_add_left hlt _

/-- The peer moves while the worker does not wait for it. -/
theorem helps_of_peer {l : Label} (hw : s'.worker = s.worker)
    (hl : s'.ring.readerLeft = s.ring.readerLeft)
    (hr : s'.ring.hist.reads = s.ring.hist.reads) (hd : s.data = true → s'.data = true)
    (hh : s.helpful = .worker) (hof : ¬ Label.of .worker l) : HelpsArrive frames s l s' := by
  have hwait : s.worker = .waitAny → s.data = true := by
    intro hwait
    rw [State.helpful] at hh
    split_ifs at hh with hc
    rw [not_and] at hc
    exact Bool.eq_true_of_not_eq_false (hc hwait)
  refine .keeps ?_ ?_ (hh ▸ hof)
  · have hread : s'.leftToRead = s.leftToRead := by
      rw [State.leftToRead, State.leftToRead, hw, hl]
      cases hs : s.worker with
      | waitAny =>
        have := hwait hs
        simp only [this, hd this, if_true]
      | receive left => cases left <;> rfl
      | _ => rfl
    rw [State.leftToArrive, State.leftToArrive, History.received, History.received, hr, hread]
  · rw [hh, State.helpful, if_neg]
    rintro ⟨hwait', hd'⟩
    have := hd (hwait (hw ▸ hwait'))
    cases this.symm.trans hd'

/-- The worker waits for the peer, which goes on. -/
theorem helps_of_signal (h : Arriving frames s) (hn : ¬ s.Arrived frames)
    (hh : s.helpful = .peer) (hst : s.step side recvBatch .peer = some s') :
    HelpsArrive frames s .peer s' := by
  obtain ⟨hw, hd, hs⟩ := h.signalling hn hh
  have hleft : s.leftToRead = 131107 + s.leftToSignal := by
    rw [State.leftToRead, hw, hd]
    rfl
  rw [State.step] at hst
  cases hp : s.peer with
  | idle => simp [hp] at hst
  | setData =>
    simp only [hp] at hst
    cases hst
    refine helps_of_leftToRead rfl ?_
    rw [hleft]
    simp [State.leftToRead, State.leftToSignal, hw, hp]
  | writing =>
    simp only [hp] at hst
    obtain ⟨r, hr, rfl⟩ := Option.map_eq_some_iff.1 hst
    rcases hs with hs | hs
    · change s.ring.writerStep = some r at hr
      rw [RingState.writerStep] at hr
      cases hwr : s.ring.writer with
      | storeWrite p ov write prevCount =>
        rw [hwr] at hs
        have hz : prevCount = 0 := beq_iff_eq.1 hs
        simp only [hwr, hz, if_true] at hr
        cases hr
        refine helps_of_leftToRead rfl ?_
        rw [hleft]
        simp [State.leftToRead, State.leftToSignal, nextPeer, hw, hd, hp, hwr]
      | addSequence ov prevCount =>
        rw [hwr] at hs
        have hz : (prevCount == 0) = true := hs
        simp only [hwr] at hr
        cases hr
        refine helps_of_leftToRead rfl ?_
        rw [hleft]
        simp [State.leftToRead, State.leftToSignal, nextPeer, RingState.returnWrite, hw, hd, hp,
          hwr, hz]
      | _ =>
        rw [hwr] at hs
        cases hs
    · cases hp.symm.trans hs

/-- `read_message` goes on: its attempt is nearer to its end, or it returns a message. -/
theorem helps_of_reading (h : Arriving frames s) (hn : ¬ s.Arrived frames) {left : ℕ}
    (hw : s.worker = .reading left) {r : RingState} (hr : s.ring.step .reader = some r)
    (h' : Arriving frames { s with ring := r, worker := nextWorker left r })
    (hev' : NeverEvicts r.hist) :
    HelpsArrive frames s .worker { s with ring := r, worker := nextWorker left r } := by
  have hleft : s.leftToRead = s.ring.readerLeft := by rw [State.leftToRead, hw]
  have hc := RingState.consumerStep_readerStep hr
  rcases RingState.readerStep_reads hr with ⟨hgo, hreads⟩ | ⟨hidle, res, hreads⟩
  · -- it has not returned
    have hnext : nextWorker left r = .reading left := by
      rw [nextWorker]
      split
      case h_1 hi => exact absurd hi hgo
      case h_2 => rfl
    refine helps_of_leftToRead hreads ?_
    rw [hleft, hnext]
    change r.readerLeft < s.ring.readerLeft
    cases hc with
    | go _ _ _ hlt => omega
    | ret _ _ hlen => rw [hreads] at hlen; omega
    | take _ _ _ _ _ _ _ hlt => omega
  · have hlast : r.hist.reads.getLast? = some res := by rw [hreads, List.getLast?_concat]
    cases res with
    | ok m =>
      refine .lowers ?_
      have hlt := h.received_lt hn
      have hle := State.leftToRead_le h'.points
      have hrec : r.hist.received = s.ring.hist.received ++ [m] := by
        rw [History.received, hreads, filterMap_toOption_ok, History.received]
      unfold State.leftToArrive
      rw [hrec, List.length_append, List.length_singleton]
      omega
    | error err =>
      by_cases herr : err = .corrupted
      · have hnext : nextWorker left r = .leave := by
          rw [nextWorker, hidle, hlast, herr]
        have hpos := s.ring.left_le_readerLeft
        have := s.ring.reader.left_pos
        refine .lowers ?_
        have hrec : r.hist.received = s.ring.hist.received := by
          rw [History.received, hreads, filterMap_toOption_error, History.received]
        unfold State.leftToArrive
        rw [hrec, hleft, hnext]
        change 131111 * _ + 0 < _
        omega
      · have hnext : nextWorker left r = .waitAny := by
          rw [nextWorker, hidle, hlast]
          cases err <;> first | rfl | exact absurd rfl herr
        exact .done (h'.arrived_of_messageCount hev' hnext (readerStep_waitAny hr hnext))

theorem helps_of_worker (h : Arriving frames s) (hn : ¬ s.Arrived frames)
    (hst : s.workerStep recvBatch = some s') (h' : Arriving frames s')
    (hev' : NeverEvicts s'.ring.hist) : HelpsArrive frames s .worker s' := by
  have hconn : s.worker.connected = true := by
    by_contra hc
    exact hn (.inr (.inl (Bool.eq_false_iff.2 hc)))
  have hev : NeverEvicts s.ring.hist := by
    by_contra hev
    exact hn (.inr (.inr hev))
  have hsz := h'.points.sized.readerLeft_le
  rw [State.workerStep] at hst
  cases hw : s.worker with
  | away | ended =>
    rw [hw] at hconn
    cases hconn
  | head =>
    simp only [hw] at hst
    cases hst
    cases hrun : s.running with
    | false => exact .done (.inr (.inl rfl))
    | true =>
      refine helps_of_leftToRead rfl ?_
      obtain ⟨left, hleft⟩ : ∃ left, max recvBatch 1 = left + 1 :=
        Nat.exists_eq_add_of_le' (Nat.le_max_right recvBatch 1)
      simp [State.leftToRead, hw, hleft]
  | receive left =>
    cases left with
    | zero =>
      simp only [hw] at hst
      cases hst
      refine helps_of_leftToRead rfl ?_
      simp [State.leftToRead, hw]
    | succ left =>
      have hc := (h.inv hev).connected hconn
      simp only [hw, hc, if_true] at hst
      obtain ⟨r, hr, rfl⟩ := Option.map_eq_some_iff.1 hst
      have hreads : r.hist.reads = s.ring.hist.reads := by
        rw [RingState.step] at hr
        split at hr <;> cases hr
        rfl
      refine helps_of_leftToRead hreads ?_
      have hleft : s.leftToRead = 131102 := by rw [State.leftToRead, hw]
      rw [hleft]
      exact Nat.lt_succ_of_le hsz
  | reading left =>
    simp only [hw] at hst
    obtain ⟨r, hr, rfl⟩ := Option.map_eq_some_iff.1 hst
    exact helps_of_reading h hn hw hr h' hev'
  | loadCount left =>
    simp only [hw] at hst
    cases hst
    refine helps_of_leftToRead rfl ?_
    have hleft : s.leftToRead = 131106 := by rw [State.leftToRead, hw]
    rw [hleft]
    split_ifs
    · exact Nat.lt_succ_self _
    · exact (State.leftToRead_receive rfl).trans_lt (by decide)
  | setSpace left =>
    simp only [hw] at hst
    cases hst
    refine helps_of_leftToRead rfl ?_
    have hleft : s.leftToRead = 131105 := by rw [State.leftToRead, hw]
    rw [hleft]
    exact (State.leftToRead_receive rfl).trans_lt (by decide)
  | leave =>
    simp only [hw] at hst
    cases hst
    exact .done (.inr (.inl rfl))
  | waitAny => simp [hw] at hst

theorem helps_of_wake {w : Wake} (hw : s.worker = .waitAny) (hst : s.wake w = some s') :
    HelpsArrive frames s (.wake w) s' := by
  have hring := wake_ring hst
  have hle : 131107 ≤ s.leftToRead := by
    rw [State.leftToRead, hw]
    exact Nat.le_add_right _ _
  refine helps_of_leftToRead (by rw [hring]) (lt_of_lt_of_le ?_ hle)
  cases w with
  | data =>
    rw [State.wake] at hst
    split_ifs at hst
    cases hst
    exact (by decide : 131103 < 131107)
  | disconnect | failed =>
    cases hst
    exact (by decide : 0 < 131107)
  | space | timeout =>
    cases hst
    exact (by decide : 131103 < 131107)

/-- **Every step brings the next message nearer**, or leaves the way to it as it is. -/
theorem helps (h : Arriving frames s) (hn : ¬ s.Arrived frames) {l : Label}
    (hst : s.step side recvBatch l = some s') : HelpsArrive frames s l s' := by
  have h' := h.step hn hst
  by_cases hev' : NeverEvicts s'.ring.hist
  swap
  · exact .done (.inr (.inr hev'))
  have ofRing {l : Label} {l' : RingLabel} (hl : l' = .writer ∨ ∃ p, l' = .callWrite p)
      {r : RingState} (hr : s.ring.step l' = some r) (hev' : NeverEvicts r.hist)
      (hh : s.helpful = .worker) (hof : ¬ Label.of .worker l) :
      HelpsArrive frames s l { s with ring := r, peer := nextPeer r } := by
    obtain ⟨-, ⟨-, hc⟩ | ⟨hl', -⟩⟩ := RingState.step_cases h.points.sized hr
    · obtain ⟨hleft, hreads⟩ := hc.unevicted hev'
      exact helps_of_peer rfl hleft hreads id hh hof
    · rcases hl with rfl | ⟨p, rfl⟩ <;> rcases hl' with hl' | hl' <;> cases hl'
  cases l with
  | send p =>
    rw [State.step] at hst
    cases hp : s.peer with
    | idle =>
      simp only [hp] at hst
      obtain ⟨r, hr, rfl⟩ := Option.map_eq_some_iff.1 hst
      cases hh : s.helpful with
      | worker => exact ofRing (.inr ⟨p, rfl⟩) hr hev' hh id
      | peer =>
        rcases h.peer_ne_idle hn hh with hp' | ⟨hp', -⟩ <;> cases hp.symm.trans hp'
    | _ => simp [hp] at hst
  | peer =>
    cases hh : s.helpful with
    | peer => exact helps_of_signal h hn hh hst
    | worker =>
      rw [State.step] at hst
      cases hp : s.peer with
      | idle => simp [hp] at hst
      | writing =>
        simp only [hp] at hst
        obtain ⟨r, hr, rfl⟩ := Option.map_eq_some_iff.1 hst
        exact ofRing (.inl rfl) hr hev' hh id
      | setData =>
        simp only [hp] at hst
        cases hst
        exact helps_of_peer rfl rfl rfl (fun _ => rfl) hh id
  | reset generation | enter =>
    rw [State.step] at hst
    split_ifs at hst with hc
    refine absurd (.inr (.inl ?_)) hn
    simp [hc, Worker.connected]
  | worker => exact helps_of_worker h hn hst h' hev'
  | wake w =>
    rw [State.step] at hst
    split at hst
    case h_1 hw => exact helps_of_wake hw hst
    case h_2 => cases hst
  | stop =>
    cases hst
    exact .keeps rfl rfl (by cases s.helpful <;> exact id)

/-- The thread that has to move next can. -/
theorem helpful_enabled (h : Arriving frames s) (hn : ¬ s.Arrived frames) :
    (wakeupSystem side recvBatch).Enabled (Label.of s.helpful) s := by
  have hconn : s.worker.connected = true := by
    by_contra hc
    exact hn (.inr (.inl (Bool.eq_false_iff.2 hc)))
  have hev : NeverEvicts s.ring.hist := by
    by_contra hev
    exact hn (.inr (.inr hev))
  cases hh : s.helpful with
  | peer =>
    refine ⟨.peer, trivial, ?_⟩
    change (s.step side recvBatch .peer).isSome
    rw [State.step]
    rcases h.peer_ne_idle hn hh with hp | ⟨hp, hw⟩
    · rw [hp]
      rfl
    · rw [hp, Option.isSome_map]
      exact RingState.writerStep_isSome hw
  | worker =>
    by_cases hwait : s.worker = .waitAny
    · -- `data` is signalled
      have hd : s.data = true := by
        rw [State.helpful] at hh
        split_ifs at hh with hc
        exact Bool.eq_true_of_not_eq_false fun hd => hc ⟨hwait, hd⟩
      refine ⟨.wake .data, trivial, ?_⟩
      change (s.step side recvBatch (.wake .data)).isSome
      rw [State.step, hwait, State.wake, hd]
      rfl
    · refine ⟨.worker, trivial, ?_⟩
      change (s.workerStep recvBatch).isSome
      have hrd := h.points.worker
      rw [State.workerStep]
      cases hw : s.worker with
      | away | ended =>
        rw [hw] at hconn
        cases hconn
      | waitAny => exact absurd hw hwait
      | receive left =>
        cases left with
        | zero => rfl
        | succ left =>
          have hidle : s.ring.reader = .idle := by
            by_contra hr
            obtain ⟨left', hleft⟩ := hrd.2 hr
            cases hw.symm.trans hleft
          simp only [(h.inv hev).connected hconn, if_true, Option.isSome_map]
          rw [RingState.step, hidle]
          rfl
      | reading left =>
        simp only [Option.isSome_map]
        exact RingState.readerStep_isSome (hrd.1 ⟨left, hw⟩)
      | head | loadCount | setSpace | leave => rfl

end Helps

/-- What holds of every state that is reached, before any message is on its way. -/
theorem arriving_of_reach {side : Side} {recvBatch : ℕ} {s : State}
    (h : (wakeupSystem side recvBatch).Reach s) : Arriving s.ring.hist.frames s := by
  have hinv : Points s ∧ (NeverEvicts s.ring.hist → WakeupInv s) := by
    refine h.invariant
      (I := fun s => Points s ∧ (NeverEvicts s.ring.hist → WakeupInv s)) ?_ ?_
    · rintro s ⟨r, data, space, hr, rfl⟩
      refine ⟨?_, fun _ => ⟨.init hr, Bool.noConfusion, by rintro ⟨⟩⟩⟩
      obtain ⟨hd, st, generation, rfl⟩ := hr
      refine ⟨⟨by rintro ⟨⟩, fun hw => absurd rfl hw⟩, ⟨?_, fun hr => absurd rfl hr⟩,
        trivial, trivial⟩
      rintro ⟨left, ⟨⟩⟩
    · intro s l s' hi _ hst
      exact ⟨hi.1.step hst, WakeupInv.step hi.2 hst⟩
  exact ⟨hinv.1, hinv.2, List.prefix_refl _⟩

end Wakeup

end Xshm
