import Xshm.Ring.Counters

/-!
# The wait of an auto-mode worker

`server_worker` and `client_worker` of `auto/mod.rs` receive from one ring, in the same connected
loop: `process_receive_queue` takes up to `recv_batch` messages, and `wait_any` is called only
after a read that found no message.  The peer that sends into that ring sets the `data` event only
when its `write_message` has raised `message_count` from 0, and `wait_any` clears the event.

What the worker sends, its callbacks and its commands touch neither this ring nor this event and
are left out; `Xshm.Auto.Loop` adds the commands and the sends, which may hold the worker up.  What
is left of `wait_any` is its outcome, any at any moment, except that it reports `data` only when
that event is signalled.  Setting an event succeeds.

As long as no write evicts, the worker never waits without reason (`State.Awake`): there is no
message, or `data` is signalled, or the peer is about to signal it.  Behind it stands
`UnevictedInv`: without evictions the consumer finds a frame whenever it has found
`message_count` not zero, and then `message_count` is exact.
-/

namespace Xshm

/-! ### A ring on which nothing is evicted -/

/-- No `write_message` has evicted a message. -/
def NeverEvicts (h : History) : Prop := ∀ m ∈ h.moves, m.taken.isSome

instance (h : History) : Decidable (NeverEvicts h) :=
  inferInstanceAs (Decidable (∀ m ∈ h.moves, m.taken.isSome = true))

/-- The producer has raised `message_count` from 0 and has not returned. -/
def Writer.raised : Writer → Bool
  | .storeWrite _ _ _ prevCount => prevCount == 0
  | .addSequence _ prevCount => prevCount == 0
  | _ => false

/-- What holds of a ring while nothing is evicted: `message_count` says how many frames are
unread, and `read_pos` stays where an attempt of the consumer has found it. -/
structure UnevictedInv (s : RingState) : Prop where
  delivery : DeliveryInv s
  count : CountInv (fun _ => False) s
  uncounted : s.writer.uncounted = 0
  unread : s.reader = .loadRead → 0 < s.hist.unread
  fixed : ∀ a ∈ s.reader.attempt, s.hist.readEnd = a.base

namespace RingState

variable {s s' : RingState}

theorem neverEvicts_of_step {l : RingLabel} (hst : s.step l = some s')
    (hev : NeverEvicts s'.hist) : NeverEvicts s.hist := by
  obtain ⟨ms, hms⟩ := moves_step hst
  intro m hm
  exact hev m (by rw [hms]; exact List.mem_append_left ms hm)

/-- A step of a producer that does not evict: `read_pos` stays where it is. -/
theorem writerStep_neverEvicts (hst : s.writerStep = some s') (hev : NeverEvicts s'.hist) :
    s'.hist.moves = s.hist.moves ∧ s'.writer.uncounted = 0 := by
  rw [writerStep] at hst
  cases hw : s.writer with
  | idle => simp [hw] at hst
  | loadWrite | loadRead | addCount | addSequence =>
    simp only [hw] at hst
    cases hst
    exact ⟨rfl, rfl⟩
  | loadCount | storeWrite =>
    simp only [hw] at hst
    split_ifs at hst <;> cases hst <;> exact ⟨rfl, rfl⟩
  | copy p ov write k =>
    simp only [hw] at hst
    cases hst
    refine ⟨rfl, ?_⟩
    dsimp only
    split_ifs <;> rfl
  | discard p ov d =>
    simp only [hw] at hst
    cases hst
    cases d with
    | loadRead | readLen0 | subCount | addDrop => exact ⟨rfl, rfl⟩
    | loadWrite | readLen1 =>
      rw [discardStep]
      split_ifs <;> exact ⟨rfl, rfl⟩
    | compareExchange read msgLen =>
      rw [discardStep] at hev ⊢
      split_ifs at hev ⊢
      · have := hev (.evict msgLen) (List.mem_append_right _ (List.mem_singleton.2 rfl))
        exact absurd this Bool.noConfusion
      · exact ⟨rfl, rfl⟩

theorem readerStep_writer (hst : s.readerStep = some s') : s'.writer = s.writer := by
  rw [readerStep] at hst
  cases hr : s.reader with
  | idle => simp [hr] at hst
  | loadRead | readLen0 | copy | addSequence =>
    simp only [hr] at hst
    cases hst
    rfl
  | loadCount | readLen1 | reload | compareExchange | subCount =>
    simp only [hr] at hst
    split_ifs at hst <;> cases hst <;> rfl

end RingState

namespace UnevictedInv

variable {s s' : RingState}

theorem init (h : FreshRing s) : UnevictedInv s := by
  have hd := DeliveryInv.init h
  have hc := CountInv.init (P := fun _ => False) h
  obtain ⟨hd', st, generation, rfl⟩ := h
  exact ⟨hd, hc, rfl, (by rintro ⟨⟩), (by rintro a ⟨⟩)⟩

/-- `message_count` is zero: every frame has been read. -/
theorem unread_eq_zero (h : UnevictedInv s) (hc : s.header.messageCount = 0) :
    s.hist.unread = 0 := by
  have := h.count.count
  rw [hc] at this
  change 0 = _ at this
  omega

/-- The consumer has found a message: the frame is there. -/
theorem unread_of_messageCount (h : UnevictedInv s) (hr : s.reader = .loadCount)
    (hc : s.header.messageCount ≠ 0) : 0 < s.hist.unread := by
  have hcount := h.count.count
  have hu := h.uncounted
  have hpos : s.header.messageCount.toNat ≠ 0 := fun h₀ => hc (UInt32.toNat_inj.1 h₀)
  have hr' : s.reader.uncounted = 0 := by rw [hr]; rfl
  omega

theorem shortAttempt (h : UnevictedInv s) (l : RingLabel) : ShortAttempt s l := by
  intro a ha
  rw [h.fixed a ha, Nat.sub_self]
  exact Nat.two_pow_pos 32

theorem frameUnread (h : UnevictedInv s) (l : RingLabel) : FrameUnread s l := by
  intro _ hr
  have := h.unread hr
  rw [History.unread] at this
  omega

/-- What a step of the consumer keeps of the two facts about its locals. -/
theorem readerStep (h : UnevictedInv s) (hst : s.readerStep = some s') :
    (s'.reader = .loadRead → 0 < s'.hist.unread) ∧
      ∀ a ∈ s'.reader.attempt, s'.hist.readEnd = a.base := by
  have hfix := h.fixed
  rw [RingState.readerStep] at hst
  cases hr : s.reader with
  | idle => simp [hr] at hst
  | loadCount =>
    simp only [hr] at hst
    split_ifs at hst with hc
    · cases hst
      exact ⟨(by rintro ⟨⟩), (by rintro a ⟨⟩)⟩
    · cases hst
      exact ⟨fun _ => h.unread_of_messageCount hr hc, (by rintro a ⟨⟩)⟩
  | loadRead =>
    simp only [hr] at hst
    cases hst
    refine ⟨(by rintro ⟨⟩), ?_⟩
    rintro a ⟨rfl⟩
    rfl
  | readLen0 a =>
    simp only [hr] at hst hfix
    cases hst
    exact ⟨(by rintro ⟨⟩), hfix⟩
  | readLen1 a b₀ =>
    simp only [hr] at hst hfix
    split_ifs at hst <;> cases hst <;> exact ⟨(by rintro ⟨⟩), hfix⟩
  | reload a =>
    simp only [hr] at hst
    split_ifs at hst <;> cases hst <;> exact ⟨(by rintro ⟨⟩), (by rintro a ⟨⟩)⟩
  | copy a msgLen out =>
    simp only [hr] at hst hfix
    split_ifs at hst <;> cases hst <;> exact ⟨(by rintro ⟨⟩), hfix⟩
  | compareExchange | subCount =>
    simp only [hr] at hst
    split_ifs at hst <;> cases hst <;> exact ⟨(by rintro ⟨⟩), (by rintro a ⟨⟩)⟩
  | addSequence =>
    simp only [hr] at hst
    cases hst
    exact ⟨(by rintro ⟨⟩), (by rintro a ⟨⟩)⟩

/-- **A step after which nothing has been evicted keeps the invariant.** -/
theorem step (h : UnevictedInv s) {l : RingLabel} (hst : s.step l = some s')
    (hev : NeverEvicts s'.hist) : UnevictedInv s' := by
  have hshort := h.shortAttempt l
  have hd := h.delivery.step hshort (h.frameUnread l) hst
  have hc := h.count.step (h.delivery.takesFrame hshort) (fun _ _ _ hf => hf.elim) hst
  cases l with
  | callWrite p =>
    rw [RingState.step] at hst
    cases hw : s.writer with
    | idle =>
      simp only [hw] at hst
      cases hst
      rw [RingState.callWrite] at hd hc ⊢
      split_ifs at hd hc ⊢
      · exact ⟨hd, hc, h.uncounted, h.unread, h.fixed⟩
      · exact ⟨hd, hc, h.uncounted, h.unread, h.fixed⟩
      · exact ⟨hd, hc, h.uncounted, h.unread, h.fixed⟩
      · exact ⟨hd, hc, rfl, h.unread, h.fixed⟩
    | _ => simp [hw] at hst
  | callRead =>
    rw [RingState.step] at hst
    cases hr : s.reader with
    | idle =>
      simp only [hr] at hst
      cases hst
      exact ⟨hd, hc, h.uncounted, (by rintro ⟨⟩), (by rintro a ⟨⟩)⟩
    | _ => simp [hr] at hst
  | writer =>
    obtain ⟨hM, hu⟩ := RingState.writerStep_neverEvicts hst hev
    obtain ⟨hr, -, hp, -⟩ := h.delivery.ring.writerStep_progress hst
    have hun : s.hist.unread ≤ s'.hist.unread := by
      rw [History.unread, History.unread, hM]
      cases hp with
      | count qs hF _ =>
        rw [hF, List.length_append]
        omega
      | move f m _ _ hF _ => rw [hF]
    refine ⟨hd, hc, hu, ?_, ?_⟩
    · rw [hr]
      exact fun hl => (h.unread hl).trans_le hun
    · rw [hr, History.readEnd, hM]
      exact h.fixed
  | reader =>
    obtain ⟨hun, hfix⟩ := h.readerStep hst
    exact ⟨hd, hc, by rw [RingState.readerStep_writer hst]; exact h.uncounted, hun, hfix⟩

end UnevictedInv

/-! ### The worker and its peer -/

namespace Wakeup

/-- Which of the two workers receives. -/
inductive Side where
  | server
  | client
  deriving DecidableEq

/-- How `wait_any` ends: the handles are `disconnect`, `data` and `space` of the other ring. -/
inductive Wake where
  | disconnect
  | data
  | space
  | timeout
  | failed
  deriving DecidableEq

/-- Program points of `send_to_server` and of `send_to_client`. -/
inductive Peer where
  | idle
  /-- In `write_message`. -/
  | writing
  /-- `write_message` has returned `was_empty`: `data` is to be set. -/
  | setData
  deriving DecidableEq

/-- Program points of `server_worker` and of `client_worker`. -/
inductive Worker where
  /-- Not in the connected loop: in `wait_for_client`, in `connect` or in `wait_delay`. -/
  | away
  /-- The head of the connected loop. -/
  | head
  /-- `process_receive_queue`, with `left` reads to go. -/
  | receive (left : ℕ)
  /-- In `read_message`; after it `left` reads are to go. -/
  | reading (left : ℕ)
  /-- `receive_from_client` or `receive_from_server` looks at `message_count`. -/
  | loadCount (left : ℕ)
  /-- `space` is to be set. -/
  | setSpace (left : ℕ)
  | waitAny
  /-- `mark_disconnected`. -/
  | leave
  | ended
  deriving DecidableEq

namespace Worker

/-- In the connected loop. -/
def connected : Worker → Bool
  | .away | .ended => false
  | _ => true

end Worker

/-- Where a worker is after its handshake: the server goes on in the same pass, the client begins
its loop. -/
def Side.entry (recvBatch : ℕ) : Side → Worker
  | .server => .receive (max recvBatch 1)
  | .client => .head

structure State where
  /-- The ring the worker receives from. -/
  ring : RingState
  /-- The events of this ring. -/
  data : Bool
  space : Bool
  peer : Peer := .idle
  worker : Worker := .away
  /-- The field `connected` of the worker's end of the segment. -/
  connected : Bool := false
  running : Bool := true

/-- Who moves. -/
inductive Label where
  /-- The peer sends `p`. -/
  | send (p : Payload)
  /-- The next access of the peer. -/
  | peer
  /-- The handshake resets the ring. -/
  | reset (generation : UInt32)
  /-- `wait_for_client` or `connect` succeeds. -/
  | enter
  /-- The next access of the worker. -/
  | worker
  | wake (w : Wake)
  /-- `running` is cleared. -/
  | stop
  deriving DecidableEq

/-- Where the peer is after a step of its `write_message`: `data` is set if it returns
`was_empty`. -/
def nextPeer (r : RingState) : Peer :=
  match r.writer with
  | .idle =>
    match r.hist.writes.getLast? with
    | some (.ok o) => if o.wasEmpty then .setData else .idle
    | _ => .idle
  | _ => .writing

/-- Where the worker is after a step of its `read_message`. -/
def nextWorker (left : ℕ) (r : RingState) : Worker :=
  match r.reader with
  | .idle =>
    match r.hist.reads.getLast? with
    | some (.ok _) => .loadCount left
    | some (.error .corrupted) => .leave
    -- `QueueEmpty`, or an error after which the pass ends: drained
    | _ => .waitAny
  | _ => .reading left

namespace State

/-- The next access of the worker. -/
def workerStep (recvBatch : ℕ) (s : State) : Option State :=
  match s.worker with
  | .away => if s.running then none else some { s with worker := .ended }
  | .head =>
    some { s with worker := if s.running then .receive (max recvBatch 1) else .ended }
  -- the batch is at its limit: `more_pending`
  | .receive 0 => some { s with worker := .head }
  | .receive (left + 1) =>
    if s.connected then
      (s.ring.step .callRead).map fun r => { s with ring := r, worker := .reading left }
    -- `NotConnected`: drained
    else some { s with worker := .waitAny }
  | .reading left =>
    (s.ring.step .reader).map fun r => { s with ring := r, worker := nextWorker left r }
  | .loadCount left =>
    some { s with
      worker := if s.ring.header.messageCount = 0 then .setSpace left else .receive left }
  | .setSpace left => some { s with space := true, worker := .receive left }
  | .waitAny => none
  | .leave => some { s with connected := false, worker := .away }
  | .ended => none

/-- `wait_any` returns. -/
def wake (s : State) : Wake → Option State
  | .disconnect | .failed => some { s with worker := .leave }
  -- the event resets itself
  | .data => if s.data then some { s with data := false, worker := .head } else none
  | .space | .timeout => some { s with worker := .head }

/-- One step. -/
def step (side : Side) (recvBatch : ℕ) (s : State) : Label → Option State
  | .send p =>
    match s.peer with
    | .idle =>
      (s.ring.step (.callWrite p)).map fun r => { s with ring := r, peer := nextPeer r }
    | _ => none
  | .peer =>
    match s.peer with
    | .idle => none
    | .writing => (s.ring.step .writer).map fun r => { s with ring := r, peer := nextPeer r }
    | .setData => some { s with data := true, peer := .idle }
  | .reset generation =>
    if s.worker = .away ∧ s.peer = .idle then
      some { s with
        ring := { header := s.ring.header.reset generation, storage := s.ring.storage } }
    else none
  | .enter =>
    if s.worker = .away then some { s with connected := true, worker := side.entry recvBatch }
    else none
  | .worker => s.workerStep recvBatch
  | .wake w =>
    match s.worker with
    | .waitAny => s.wake w
    | _ => none
  | .stop => some { s with running := false }

/-- The peer is between the `fetch_add` that raised `message_count` from 0 and the `set` of
`data`. -/
def Signalling (s : State) : Prop := s.ring.writer.raised = true ∨ s.peer = .setData

/-- No message waits unnoticed: there is none, or `data` is signalled, or it is about to be. -/
def Awake (s : State) : Prop :=
  (s.ring.header.messageCount = 0 ∧ s.ring.hist.unread = 0) ∨ s.data = true ∨ s.Signalling

end State

/-- The worker and its peer, from a reset ring; an earlier session may have left the events
signalled. -/
def wakeupSystem (side : Side) (recvBatch : ℕ) : System State Label where
  init s := ∃ r data space, FreshRing r ∧ s = { ring := r, data := data, space := space }
  step := State.step side recvBatch

/-! ### What one step keeps -/

/-- A step of `write_message` that does not evict: it changes `message_count` only when it counts
its frame, and a producer that has raised it from 0 signals or is still on its way. -/
theorem writerStep_raised {r r' : RingState} (hst : r.writerStep = some r')
    (hu : r.writer.uncounted = 0) :
    (r'.writer.raised = true ∨ nextPeer r' = .setData) ∨
      r.writer.raised = false ∧ (r.header.messageCount = 0 → r'.header.messageCount = 0) := by
  rw [RingState.writerStep] at hst
  cases hw : r.writer with
  | idle => simp [hw] at hst
  | loadWrite | loadRead | copy =>
    simp only [hw] at hst
    cases hst
    exact .inr ⟨rfl, id⟩
  | loadCount =>
    simp only [hw] at hst
    split_ifs at hst <;> cases hst <;> exact .inr ⟨rfl, id⟩
  | discard p ov d =>
    simp only [hw] at hst
    cases hst
    cases d with
    | subCount =>
      rw [hw] at hu
      cases hu
    | loadRead | readLen0 | addDrop => exact .inr ⟨rfl, id⟩
    | loadWrite | readLen1 | compareExchange =>
      rw [RingState.discardStep]
      split_ifs <;> exact .inr ⟨rfl, id⟩
  | addCount p ov write =>
    simp only [hw] at hst
    cases hst
    by_cases hc : r.header.messageCount = 0
    · exact .inl (.inl (beq_iff_eq.2 hc))
    · exact .inr ⟨rfl, fun h => absurd h hc⟩
  | storeWrite p ov write prevCount =>
    simp only [hw] at hst
    split_ifs at hst with hp <;> cases hst
    · exact .inl (.inl (beq_iff_eq.2 hp))
    · exact .inr ⟨beq_eq_false_iff_ne.2 hp, id⟩
  | addSequence ov prevCount =>
    simp only [hw] at hst
    cases hst
    cases hp : prevCount == 0 with
    | true => exact .inl (.inr (by simp [nextPeer, RingState.returnWrite]))
    | false => exact .inr ⟨hp, id⟩

/-- `read_message` sends the worker to `wait_any` only when it has found `message_count` zero. -/
theorem readerStep_waitAny {r r' : RingState} {left : ℕ} (hst : r.readerStep = some r')
    (hw : nextWorker left r' = .waitAny) : r'.header.messageCount = 0 := by
  rw [RingState.readerStep] at hst
  cases hr : r.reader with
  | idle => simp [hr] at hst
  | loadCount =>
    simp only [hr] at hst
    split_ifs at hst with hc <;> cases hst
    · exact hc
    · cases hw
  | loadRead | readLen0 =>
    simp only [hr] at hst
    cases hst
    cases hw
  | readLen1 | compareExchange =>
    simp only [hr] at hst
    split_ifs at hst <;> cases hst <;> cases hw
  | copy a msgLen out =>
    simp only [hr] at hst
    split_ifs at hst <;> cases hst <;> cases hw
  | reload a =>
    simp only [hr] at hst
    split_ifs at hst <;> cases hst
    · cases hw
    · simp [nextWorker, RingState.returnRead] at hw
  | subCount msgLen out =>
    simp only [hr] at hst
    split_ifs at hst <;> cases hst
    · cases hw
    · simp [nextWorker, RingState.returnRead] at hw
  | addSequence msgLen out =>
    simp only [hr] at hst
    cases hst
    simp [nextWorker, RingState.returnRead] at hw

theorem workerStep_neverEvicts {recvBatch : ℕ} {s s' : State}
    (hst : s.workerStep recvBatch = some s') (hev : NeverEvicts s'.ring.hist) :
    NeverEvicts s.ring.hist := by
  rw [State.workerStep] at hst
  cases hw : s.worker with
  | receive left =>
    cases left with
    | zero =>
      simp only [hw] at hst
      cases hst
      exact hev
    | succ left =>
      simp only [hw] at hst
      split_ifs at hst
      · obtain ⟨r, hr, rfl⟩ := Option.map_eq_some_iff.1 hst
        exact RingState.neverEvicts_of_step hr hev
      · cases hst
        exact hev
  | reading left =>
    simp only [hw] at hst
    obtain ⟨r, hr, rfl⟩ := Option.map_eq_some_iff.1 hst
    exact RingState.neverEvicts_of_step hr hev
  | away =>
    simp only [hw] at hst
    split_ifs at hst
    cases hst
    exact hev
  | head | loadCount | setSpace | leave =>
    simp only [hw] at hst
    cases hst
    exact hev
  | waitAny | ended => simp [hw] at hst

theorem wake_ring {s s' : State} {w : Wake} (hst : s.wake w = some s') : s'.ring = s.ring := by
  cases w with
  | data =>
    rw [State.wake] at hst
    split_ifs at hst
    cases hst
    rfl
  | _ =>
    cases hst
    rfl

/-- What holds of the two sides as long as nothing is evicted. -/
structure WakeupInv (s : State) : Prop where
  ring : UnevictedInv s.ring
  connected : s.worker.connected = true → s.connected = true
  awake : s.worker = .waitAny →
    s.ring.header.messageCount = 0 ∨ s.data = true ∨ s.Signalling

namespace WakeupInv

variable {side : Side} {recvBatch : ℕ} {s s' : State}

/-- A step of the worker that does not lead to `wait_any`. -/
theorem moveWorker (h : WakeupInv s) {w : Worker} (hw : w.connected = true → s.connected = true)
    (hwait : w ≠ .waitAny) : WakeupInv { s with worker := w } :=
  ⟨h.ring, hw, fun h' => absurd h' hwait⟩

theorem send (h : WakeupInv s) {p : Payload} (hp : s.peer = .idle) {r : RingState}
    (hr : s.ring.step (.callWrite p) = some r) (hev : NeverEvicts r.hist) :
    WakeupInv { s with ring := r, peer := nextPeer r } := by
  refine ⟨h.ring.step hr hev, h.connected, ?_⟩
  intro hw
  have hidle : s.ring.writer.raised = false := by
    rw [RingState.step] at hr
    cases hwr : s.ring.writer with
    | idle => rfl
    | _ => simp [hwr] at hr
  have hcount : r.header.messageCount = s.ring.header.messageCount := by
    rw [RingState.step] at hr
    split at hr <;> cases hr
    rw [RingState.callWrite]
    split_ifs <;> rfl
  rcases h.awake hw with hc | hd | hs
  · exact .inl (hcount.trans hc)
  · exact .inr (.inl hd)
  · rcases hs with hs | hs
    · rw [hidle] at hs
      cases hs
    · rw [hp] at hs
      cases hs

theorem write (h : WakeupInv s) (hp : s.peer = .writing) {r : RingState}
    (hr : s.ring.step .writer = some r) (hev : NeverEvicts r.hist) :
    WakeupInv { s with ring := r, peer := nextPeer r } := by
  refine ⟨h.ring.step hr hev, h.connected, ?_⟩
  intro hw
  rcases writerStep_raised hr h.ring.uncounted with hs | ⟨hraised, hcount⟩
  · exact .inr (.inr hs)
  · rcases h.awake hw with hc | hd | hs
    · exact .inl (hcount hc)
    · exact .inr (.inl hd)
    · rcases hs with hs | hs
      · rw [hraised] at hs
        cases hs
      · rw [hp] at hs
        cases hs

theorem workerStep (h : WakeupInv s) (hst : s.workerStep recvBatch = some s')
    (hev : NeverEvicts s'.ring.hist) : WakeupInv s' := by
  have hconn := h.connected
  rw [State.workerStep] at hst
  cases hw : s.worker with
  | away =>
    simp only [hw] at hst
    split_ifs at hst
    cases hst
    exact h.moveWorker Bool.noConfusion (by rintro ⟨⟩)
  | head =>
    simp only [hw] at hst hconn
    cases hst
    split_ifs
    · exact h.moveWorker (fun _ => hconn rfl) (by rintro ⟨⟩)
    · exact h.moveWorker Bool.noConfusion (by rintro ⟨⟩)
  | receive left =>
    rw [hw] at hconn
    cases left with
    | zero =>
      simp only [hw] at hst
      cases hst
      exact h.moveWorker (fun _ => hconn rfl) (by rintro ⟨⟩)
    | succ left =>
      -- in the connected loop a read never fails with `NotConnected`
      simp only [hw, hconn rfl, ↓reduceIte] at hst
      obtain ⟨r, hr, rfl⟩ := Option.map_eq_some_iff.1 hst
      exact ⟨h.ring.step hr hev, fun _ => rfl, (by rintro ⟨⟩)⟩
  | reading left =>
    simp only [hw] at hst hconn
    obtain ⟨r, hr, rfl⟩ := Option.map_eq_some_iff.1 hst
    exact ⟨h.ring.step hr hev, fun _ => hconn rfl, fun hwait => .inl (readerStep_waitAny hr hwait)⟩
  | loadCount left =>
    simp only [hw] at hst hconn
    cases hst
    split_ifs <;> exact h.moveWorker (fun _ => hconn rfl) (by rintro ⟨⟩)
  | setSpace left =>
    simp only [hw] at hst hconn
    cases hst
    exact ⟨h.ring, fun _ => hconn rfl, (by rintro ⟨⟩)⟩
  | leave =>
    simp only [hw] at hst
    cases hst
    exact ⟨h.ring, Bool.noConfusion, (by rintro ⟨⟩)⟩
  | waitAny | ended => simp [hw] at hst

theorem wake (h : WakeupInv s) {w : Wake} (hw : s.worker = .waitAny)
    (hst : s.wake w = some s') : WakeupInv s' := by
  have hconn : s.connected = true := h.connected (by rw [hw]; rfl)
  cases w with
  | disconnect | failed | space | timeout =>
    cases hst
    exact h.moveWorker (fun _ => hconn) (by rintro ⟨⟩)
  | data =>
    rw [State.wake] at hst
    split_ifs at hst
    cases hst
    exact ⟨h.ring, fun _ => hconn, (by rintro ⟨⟩)⟩

/-- A state after which nothing has been evicted is reached from one in which nothing was, unless
the ring has been reset. -/
theorem step {l : Label} (h : NeverEvicts s.ring.hist → WakeupInv s)
    (hst : s.step side recvBatch l = some s') (hev : NeverEvicts s'.ring.hist) :
    WakeupInv s' := by
  cases l with
  | send p =>
    rw [State.step] at hst
    cases hp : s.peer with
    | idle =>
      simp only [hp] at hst
      obtain ⟨r, hr, rfl⟩ := Option.map_eq_some_iff.1 hst
      exact (h (RingState.neverEvicts_of_step hr hev)).send hp hr hev
    | _ => simp [hp] at hst
  | peer =>
    rw [State.step] at hst
    cases hp : s.peer with
    | idle => simp [hp] at hst
    | writing =>
      simp only [hp] at hst
      obtain ⟨r, hr, rfl⟩ := Option.map_eq_some_iff.1 hst
      exact (h (RingState.neverEvicts_of_step hr hev)).write hp hr hev
    | setData =>
      simp only [hp] at hst
      cases hst
      exact ⟨(h hev).ring, (h hev).connected, fun _ => .inr (.inl rfl)⟩
  | reset generation =>
    rw [State.step] at hst
    split_ifs at hst with hc
    cases hst
    have hw : s.worker = .away := hc.1
    refine ⟨.init ⟨_, _, _, rfl⟩, ?_, ?_⟩
    · rw [hw]
      exact Bool.noConfusion
    · rw [hw]
      rintro ⟨⟩
  | enter =>
    rw [State.step] at hst
    split_ifs at hst
    cases hst
    refine ⟨(h hev).ring, fun _ => rfl, ?_⟩
    cases side <;> rintro ⟨⟩
  | worker => exact (h (workerStep_neverEvicts hst hev)).workerStep hst hev
  | wake w =>
    rw [State.step] at hst
    cases hw : s.worker with
    | waitAny =>
      simp only [hw] at hst
      exact (h (wake_ring hst ▸ hev)).wake hw hst
    | _ => simp [hw] at hst
  | stop =>
    cases hst
    exact ⟨(h hev).ring, (h hev).connected, (h hev).awake⟩

end WakeupInv

/-- **No wakeup is lost.** -/
theorem awake_of_neverEvicts {side : Side} {recvBatch : ℕ} {s : State}
    (h : (wakeupSystem side recvBatch).Reach s) (hev : NeverEvicts s.ring.hist)
    (hw : s.worker = .waitAny) : s.Awake := by
  have hinv : NeverEvicts s.ring.hist → WakeupInv s := by
    refine h.invariant (I := fun s => NeverEvicts s.ring.hist → WakeupInv s) ?_ ?_
    · rintro s ⟨r, data, space, hr, rfl⟩ _
      exact ⟨.init hr, Bool.noConfusion, (by rintro ⟨⟩)⟩
    · intro s l s' hi _ hst hev'
      exact WakeupInv.step hi hst hev'
  have hi := hinv hev
  rcases hi.awake hw with hc | hd | hs
  · exact .inl ⟨hc, hi.ring.unread_eq_zero hc⟩
  · exact .inr (.inl hd)
  · exact .inr (.inr hs)

/-- With a batch limit of 0 one read is made; it finds nothing.  The peer sends while the worker
waits. -/
theorem awake_of_neverEvicts_send : ∃ s : State, s.worker = .waitAny ∧
    s.ring.header.messageCount = 1 ∧ s.data = false ∧ s.Awake := by
  obtain ⟨s, h, hs⟩ := System.exists_reachWhen (A := wakeupSystem .server 0)
    (C := fun _ _ => True)
    (r := [.enter, .worker, .worker, .send [1, 2]] ++ List.replicate 12 .peer)
    (f := fun s => (s.worker, s.ring.header.messageCount, s.data,
      decide (NeverEvicts s.ring.hist)))
    (t := (.waitAny, 1, false, true))
    ⟨RingState.zeroed, false, false, RingState.freshRing_zeroed, rfl⟩ (by decide +kernel)
  simp only [Prod.mk.injEq, decide_eq_true_eq] at hs
  obtain ⟨hw, hc, hd, hev⟩ := hs
  exact ⟨s, hw, hc, hd, awake_of_neverEvicts h hev hw⟩

end Wakeup

end Xshm
