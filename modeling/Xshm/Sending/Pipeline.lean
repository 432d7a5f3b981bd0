import Xshm.Sending.Worker
import Xshm.Ring.Atomic
import Xshm.Ring.Ledger

/-!
# From `send` to the handler of the other side

The way of a message through one direction of a connection: the application's `send`, the channel,
the send queue of the worker, the ring, and `on_message` at the other end.  The sending side is a
worker with its application (`Sending.system`).  The ring is the machine of `Xshm.Ring.Machine`, in
which every access is a step of its own; the worker calls `write_message` with the head of its
queue and goes on when it has returned, and what `read_message` returns is handed to the handler.
A handshake resets the ring.

* `Pipeline.inOrder` : the messages arrive in the order in which they were accepted, each at most
  once and unchanged, in every run in which the consumer loads `read_pos` only when a counted frame
  is unread and the ring is reset between calls (`Pipeline.Orderly`).

This is proved of the queue as which the ring is seen (`RingState.step_matches`): what a step of
that queue does to the messages is said once (`Flow.step`), and no program point of the ring comes
into it.
-/

namespace Xshm

namespace Atomic

/-- The payload that is to be stored. -/
def Producer.payload : Producer → Option Payload
  | .writing p _ | .full p _ => some p
  | .idle | .returning _ => none

/-- The message that is stored, while its call has not returned. -/
def Producer.stored : Producer → ℕ
  | .returning (.ok _) => 1
  | _ => 0

end Atomic

namespace Sending

/-- The worker is at a write. -/
def State.AtWrite (s : State) : Prop := s.point = .sending ∧ s.box.queue ≠ []

instance (s : State) : Decidable s.AtWrite := inferInstanceAs (Decidable (_ ∧ _))

/-- The next step of the worker is a write. -/
def State.writes (s : State) : Label → Bool
  | .worker _ => s.AtWrite
  | _ => false

/-- The messages on the way to the ring. -/
def State.waiting (s : State) : List Sent := s.box.queue ++ s.channel.filterMap Command.msg?

/-- The two ends of one direction. -/
structure Ends where
  sender : State := {}
  /-- Record: the payloads of the calls of `on_message`. -/
  onMessage : List Payload := []
  /-- `AutoStats.received_messages`. -/
  receivedMessages : UInt64 := 0

/-- What the ends make of a call on the ring, and of what it returns. -/
def Ends.hear (w : Worker) (maxSendQueue : ℕ) (e : Ends) : RingEvent → Option Ends
  -- the worker writes the head of its queue
  | .callWrite p =>
    if e.sender.point = .sending ∧ e.sender.box.queue.head?.map Sent.data = some p then some e
    else none
  | .returnWrite res =>
    if e.sender.AtWrite then
      (e.sender.workerStep w maxSendQueue (.wrote res)).map fun sender =>
        { e with sender := sender }
    else none
  | .callRead => some e
  | .returnRead (.ok (len, out)) =>
    some { e with
      receivedMessages := e.receivedMessages + 1
      onMessage := e.onMessage ++ [out.take len] }
  | .returnRead (.error _) => some e

/-- One direction of a connection. -/
structure Pipeline where
  ends : Ends := {}
  ring : RingState
  /-- Record: the messages that were in the ring when it was reset. -/
  lost : ℕ := 0

/-- Who moves. -/
inductive PipelineLabel where
  /-- The sending side, but for its writes. -/
  | sender (l : Label)
  /-- A write of the worker finds the endpoint not connected. -/
  | notConnected
  /-- A call on the ring, or the next access of one. -/
  | ring (l : RingLabel)
  /-- A handshake. -/
  | reset (generation : UInt32)

/-- One direction of a connection, from its first handshake on. -/
def pipeline (w : Worker) (maxSendQueue : ℕ) : System Pipeline PipelineLabel where
  init s := ∃ ring, FreshRing ring ∧ s = { ring := ring }
  step s
    | .sender l =>
      if s.ends.sender.writes l then none
      else
        ((system w maxSendQueue).step s.ends.sender l).map fun sender =>
          { s with ends := { s.ends with sender := sender } }
    | .notConnected =>
      if s.ring.writer = .idle then
        (s.ends.hear w maxSendQueue (.returnWrite (.error .notConnected))).map fun ends =>
          { s with ends := ends }
      else none
    | .ring l =>
      (s.ring.step l).bind fun ring =>
        ((s.ring.events l ring).foldlM (Ends.hear w maxSendQueue) s.ends).map fun ends =>
          { s with ends := ends, ring := ring }
    | .reset generation =>
      some { s with
        ring := { s.ring with header := s.ring.header.reset generation, hist := {} }
        lost := s.lost + s.ring.header.messageCount.toNat }

namespace Pipeline

/-- The consumer reads in order, and the ring is reset between calls. -/
def Orderly (s : Pipeline) : PipelineLabel → Prop
  | .ring l => ShortAttempt s.ring l ∧ FrameUnread s.ring l
  | .reset _ => s.ring.Quiet
  | _ => True

/-- The messages on the way to the ring; the one that is stored there already stays at the head of
the queue until its write returns. -/
def waiting (s : Pipeline) : List Sent := s.ends.sender.waiting.drop s.ring.writer.returning

end Pipeline

instance (s : RingState) : Decidable s.Quiet := inferInstanceAs (Decidable (_ ∧ _))

instance (s : Pipeline) : DecidablePred s.Orderly
  | .ring _ => inferInstanceAs (Decidable (_ ∧ _))
  | .reset _ => inferInstanceAs (Decidable s.ring.Quiet)
  | .sender _ | .notConnected => isTrue trivial

theorem filterMap_cons_toList {α β : Type*} (f : α → Option β) (a : α) (l : List α) :
    (a :: l).filterMap f = (f a).toList ++ l.filterMap f := by
  rw [List.filterMap_cons]
  cases f a <;> rfl

/-! ### The ends alone -/

section

variable {w : Worker} {maxSendQueue : ℕ}

/-- A message that is put into the queue stays behind the others. -/
theorem push_sublist (b : Outbox Sent) (msg : Sent) :
    (w.push maxSendQueue b msg).queue.Sublist (b.queue ++ [msg]) := by
  rw [Worker.push_queue]
  split_ifs
  · exact .append (List.tail_sublist _) (.refl _)
  · exact .refl _

/-- Putting a message into the queue sends nothing. -/
theorem push_stats (hw : w ≠ .multiClient) (b : Outbox Sent) (msg : Sent) :
    (w.push maxSendQueue b msg).sentMessages = b.sentMessages ∧
      (w.push maxSendQueue b msg).sendOverflows = b.sendOverflows := by
  cases w with
  | autoServer | autoClient =>
    unfold Worker.push Outbox.push
    split_ifs <;> exact ⟨rfl, rfl⟩
  | multiClient => exact absurd rfl hw

/-- What a successful write adds to the statistics. -/
theorem trySend_stats (hw : w ≠ .multiClient) {b : Outbox Sent} {msg : Sent} {queue : List Sent}
    (h : b.queue = msg :: queue) (outcome : WriteOutcome) :
    (w.trySend b (.ok outcome)).1.sentMessages = b.sentMessages + 1 ∧
      (w.trySend b (.ok outcome)).1.sendOverflows =
        b.sendOverflows + outcome.overwritten.toUInt64 := by
  cases w with
  | autoServer | autoClient => simp only [Worker.trySend, Outbox.popAndSend, h, and_self]
  | multiClient => exact absurd rfl hw

theorem trySend_error_stats (hw : w ≠ .multiClient) (b : Outbox Sent) (e : ShmError) :
    (w.trySend b (.error e)).1.sentMessages = b.sentMessages ∧
      (w.trySend b (.error e)).1.sendOverflows = b.sendOverflows := by
  cases w with
  | autoServer | autoClient =>
    cases hq : b.queue with
    | nil => simp only [Worker.trySend, Outbox.popAndSend, hq, and_self]
    | cons msg queue => cases e <;> simp only [Worker.trySend, Outbox.popAndSend, hq, and_self]
  | multiClient => exact absurd rfl hw

/-- A write of the worker. -/
theorem workerStep_atWrite {s : State} (h : s.AtWrite) (result : Except ShmError WriteOutcome) :
    s.workerStep w maxSendQueue (.wrote result) = some { s with
      box := (w.trySend s.box result).1
      point := if (w.trySend s.box result).2 then .sending else .receiving } := by
  obtain ⟨hpoint, hq⟩ := h
  obtain ⟨msg, queue, hq⟩ := List.exists_cons_of_ne_nil hq
  simp only [State.workerStep, hpoint, hq]

/-- A step of the worker that is not a write brings no message forward but into the queue. -/
theorem waiting_workerStep {s s' : State} {o : Outcome} (hwr : ¬ s.AtWrite)
    (hst : s.workerStep w maxSendQueue o = some s') :
    s'.waiting.Sublist s.waiting ∧ s'.accepted = s.accepted ∧
      (w ≠ .multiClient → s'.box.sentMessages = s.box.sentMessages ∧
        s'.box.sendOverflows = s.box.sendOverflows) := by
  cases workerStep_cases hst with
  | @take connected msg channel hpoint hc =>
    refine ⟨?_, rfl, fun hw => push_stats hw _ _⟩
    have hsub : (w.push maxSendQueue s.box msg).queue.Sublist (s.box.queue ++ [msg]) :=
      push_sublist s.box msg
    simp only [State.waiting, hc, Command.msg?, List.filterMap_cons]
    rw [List.append_cons]
    exact .append hsub (.refl _)
  | shutdown hpoint hc =>
    refine ⟨?_, rfl, fun _ => ⟨rfl, rfl⟩⟩
    simp only [State.waiting, hc, Command.msg?, List.filterMap_cons]
    exact .refl _
  | @trySend msg queue result hpoint hq =>
    exact absurd ⟨hpoint, by rw [hq]; exact List.cons_ne_nil _ _⟩ hwr
  | endPass hpoint =>
    cases w with
    | autoServer | autoClient => exact ⟨.refl _, rfl, fun _ => ⟨rfl, rfl⟩⟩
    | multiClient =>
      refine ⟨?_, rfl, fun hw => absurd rfl hw⟩
      simp only [State.waiting, State.endPass, List.nil_append]
      exact List.sublist_append_right _ _
  | goto => exact ⟨.refl _, rfl, fun _ => ⟨rfl, rfl⟩⟩

/-- What a step of the sending side that is not a write does: it accepts messages, or drops some. -/
theorem waiting_step {s s' : State} {l : Label} (hwr : s.writes l = false)
    (hst : (system w maxSendQueue).step s l = some s') :
    (∃ new, s'.waiting.Sublist (s.waiting ++ new) ∧ s'.accepted = s.accepted ++ new) ∧
      (s.AtWrite → s'.point = s.point ∧ s'.box = s.box) ∧
      (w ≠ .multiClient → s'.box.sentMessages = s.box.sentMessages ∧
        s'.box.sendOverflows = s.box.sendOverflows) := by
  cases l with
  | send data =>
    simp only [system] at hst
    split_ifs at hst
    cases hst
    refine ⟨⟨[⟨s.accepted.length, data⟩], ?_, rfl⟩, fun _ => ⟨rfl, rfl⟩, fun _ => ⟨rfl, rfl⟩⟩
    simp only [State.waiting, List.filterMap_append, List.filterMap_cons, List.filterMap_nil,
      Command.msg?, List.append_assoc]
    exact .refl _
  | stop =>
    simp only [system] at hst
    split_ifs at hst
    cases hst
    have hsame : (s.channel ++ [Command.shutdown]).filterMap Command.msg? =
        s.channel.filterMap Command.msg? := by
      rw [List.filterMap_append]
      exact List.append_nil _
    refine ⟨⟨[], ?_, (List.append_nil _).symm⟩, fun _ => ⟨rfl, rfl⟩, fun _ => ⟨rfl, rfl⟩⟩
    simp only [State.waiting, hsame, List.append_nil]
    exact .refl _
  | drop =>
    cases hst
    refine ⟨⟨[], ?_, (List.append_nil _).symm⟩, fun _ => ⟨rfl, rfl⟩, fun _ => ⟨rfl, rfl⟩⟩
    rw [List.append_nil]
    exact .refl _
  | worker o =>
    have hwr : ¬ s.AtWrite := of_decide_eq_false hwr
    obtain ⟨hsub, hacc, hstats⟩ := waiting_workerStep hwr hst
    refine ⟨⟨[], ?_, by rw [hacc, List.append_nil]⟩, fun h => absurd h hwr, hstats⟩
    rw [List.append_nil]
    exact hsub

end

/-! ### The order of the messages -/

/-- What has happened to the messages while the ring, seen as a queue, is in state `q`: those in
`got` have been taken from it, those in `inRing` are in it, and the others that are left are on
the way to it. -/
structure Flow (q : Atomic.State) (e : Ends) (got inRing : List Sent) : Prop where
  onMessage : got.map Sent.data = e.onMessage ++ q.consumer.taken
  queue : inRing.map Sent.data = q.queue
  len : ∀ len out, q.consumer = .returning (.ok (len, out)) → len = out.length
  /-- While its `write_message` has not returned, the worker stays where it is. -/
  writing : q.producer ≠ .idle → e.sender.point = .sending ∧
    ∃ msg queue, e.sender.box.queue = msg :: queue ∧ ∀ p ∈ q.producer.payload, msg.data = p
  inOrder : (got ++ inRing ++ e.sender.waiting.drop q.producer.stored).Sublist e.sender.accepted

namespace Flow

variable {w : Worker} {maxSendQueue : ℕ} {q q' : Atomic.State} {e e' : Ends}
  {got inRing : List Sent}

theorem atWrite (h : Flow q e got inRing) (hp : q.producer ≠ .idle) : e.sender.AtWrite := by
  obtain ⟨hpoint, msg, queue, hq, -⟩ := h.writing hp
  exact ⟨hpoint, by rw [hq]; exact List.cons_ne_nil _ _⟩

/-- The producer goes on; nothing is stored. -/
theorem producer (h : Flow q e got inRing) {p : Atomic.Producer} (hp : q.producer ≠ .idle)
    (hpay : ∀ x ∈ p.payload, x ∈ q.producer.payload) (hs : p.stored = q.producer.stored) :
    Flow { q with producer := p } e got inRing := by
  obtain ⟨hpoint, msg, queue, hq, hdata⟩ := h.writing hp
  exact { h with
    writing := fun _ => ⟨hpoint, msg, queue, hq, fun x hx => hdata x (hpay x hx)⟩
    inOrder := by rw [hs]; exact h.inOrder }

/-- The worker calls `write_message`. -/
theorem callWrite (h : Flow q e got inRing) {p : Payload}
    (hst : q.step (.event (.callWrite p)) = some q')
    (he : e.hear w maxSendQueue (.callWrite p) = some e') : Flow q' e' got inRing := by
  simp only [Ends.hear] at he
  split_ifs at he with hhead
  cases he
  obtain ⟨hpoint, hhead⟩ := hhead
  obtain ⟨msg, hmsg, hdata⟩ := Option.map_eq_some_iff.1 hhead
  obtain ⟨queue, hq⟩ := List.head?_eq_some_iff.1 hmsg
  have goes (r : Atomic.Producer) (hidle : q.producer = .idle) (hpay : ∀ x ∈ r.payload, x = p)
      (hs : r.stored = 0) : Flow { q with producer := r } e got inRing := by
    have hs' : q.producer.stored = 0 := by rw [hidle]; rfl
    exact { h with
      writing := fun _ => ⟨hpoint, msg, queue, hq, fun x hx => hdata.trans (hpay x hx).symm⟩
      inOrder := by rw [hs, ← hs']; exact h.inOrder }
  simp only [Atomic.State.step, Atomic.State.producerStep] at hst
  split_ifs at hst with hidle <;> cases hst
  · exact goes _ hidle (by rintro x ⟨⟩) rfl
  · exact goes _ hidle (by rintro x ⟨⟩) rfl
  · exact goes _ hidle (by rintro x ⟨⟩; rfl) rfl

/-- `write_message` returns: a message that is stored leaves the queue of the worker. -/
theorem returnWrite (h : Flow q e got inRing) {res : Except ShmError WriteOutcome}
    (hst : q.step (.event (.returnWrite res)) = some q')
    (he : e.hear w maxSendQueue (.returnWrite res) = some e') : Flow q' e' got inRing := by
  simp only [Atomic.State.step, Atomic.State.producerStep] at hst
  split_ifs at hst with hp
  cases hst
  have hne : q.producer ≠ .idle := by rw [hp]; rintro ⟨⟩
  have hat := h.atWrite hne
  simp only [Ends.hear, if_pos hat, workerStep_atWrite hat, Option.map_some] at he
  cases he
  obtain ⟨-, msg, queue, hq, -⟩ := h.writing hne
  have hio := h.inOrder
  refine { h with writing := fun hi => absurd rfl hi, inOrder := ?_ }
  cases res with
  | ok outcome =>
    have hs : q.producer.stored = 1 := by rw [hp]; rfl
    obtain ⟨-, hqueue, -⟩ := w.trySend_ok hq outcome
    rw [hs] at hio
    simp only [State.waiting, hq, List.cons_append, List.drop_one, List.tail_cons] at hio
    simpa only [State.waiting, hqueue, Atomic.Producer.stored, List.drop_zero] using hio
  | error err =>
    have hs : q.producer.stored = 0 := by rw [hp]; rfl
    obtain ⟨-, hqueue, -⟩ := w.trySend_error e.sender.box err
    rw [hs, List.drop_zero] at hio
    simpa only [State.waiting, hqueue, Atomic.Producer.stored, List.drop_zero] using hio

/-- The head of the queue of the worker is stored in the ring. -/
theorem enqueue (h : Flow q e got inRing) {b : Bool} (hst : q.step (.enqueue b) = some q') :
    ∃ inRing, Flow q' e got inRing := by
  simp only [Atomic.State.step, Atomic.State.producerStep] at hst
  split at hst
  case h_2 => cases hst
  case h_1 p ov hp =>
    split_ifs at hst
    cases hst
    obtain ⟨hpoint, msg, queue, hq, hdata⟩ := h.writing (by rw [hp]; rintro ⟨⟩)
    have hmsg : msg.data = p := hdata p (by rw [hp]; rfl)
    have hs : q.producer.stored = 0 := by rw [hp]; rfl
    have hio := h.inOrder
    rw [hs] at hio
    refine ⟨inRing ++ [msg], { h with queue := ?_, writing := fun _ => ?_, inOrder := ?_ }⟩
    · rw [List.map_append, h.queue, List.map_singleton, hmsg]
    · exact ⟨hpoint, msg, queue, hq, by rintro x ⟨⟩⟩
    · have hsame : got ++ (inRing ++ [msg]) ++ e.sender.waiting.drop 1 =
          got ++ inRing ++ e.sender.waiting.drop 0 := by
        simp only [State.waiting, hq, List.cons_append, List.drop_one, List.tail_cons,
          List.drop_zero, List.append_assoc, List.nil_append]
      change (_ ++ e.sender.waiting.drop 1).Sublist _
      rw [hsame]
      exact hio

/-- The producer drops the oldest message. -/
theorem evict (h : Flow q e got inRing) (hst : q.step .evict = some q') :
    ∃ inRing, Flow q' e got inRing := by
  simp only [Atomic.State.step, Atomic.State.producerStep] at hst
  split at hst
  case h_2 => cases hst
  case h_1 p ov x Q hp hQ =>
    cases hst
    have hne : q.producer ≠ .idle := by rw [hp]; rintro ⟨⟩
    have hprod := h.producer (p := .writing p (ov + 1)) hne (by rw [hp]; exact fun _ hx => hx)
      (by rw [hp]; rfl)
    refine ⟨inRing.tail, { hprod with queue := ?_, inOrder := ?_ }⟩
    · rw [List.map_tail, h.queue, hQ, List.tail_cons]
    · refine List.Sublist.trans (.append ?_ (.refl _)) hprod.inOrder
      exact .append (.refl _) (List.tail_sublist _)

/-- The consumer takes the oldest message. -/
theorem dequeue (h : Flow q e got inRing) (hst : q.step .dequeue = some q') :
    ∃ got inRing, Flow q' e got inRing := by
  simp only [Atomic.State.step, Atomic.State.consumerStep] at hst
  split at hst
  case h_2 => cases hst
  case h_1 p Q hc hQ =>
    cases hst
    have honm := h.onMessage
    have hio := h.inOrder
    have hin := h.queue
    rw [hc] at honm
    rw [hQ] at hin
    cases inRing with
    | nil => cases hin
    | cons msg inRing =>
      obtain ⟨hmsg, hrest⟩ := List.cons.inj hin
      refine ⟨got ++ [msg], inRing,
        { h with onMessage := ?_, queue := hrest, len := ?_, inOrder := ?_ }⟩
      · rw [List.map_append, honm, List.map_singleton, hmsg, List.append_assoc]
        rfl
      · rintro len out ⟨⟩
        rfl
      · simpa only [List.append_assoc, List.cons_append, List.nil_append] using hio

/-- `read_message` returns: a message is handed to the handler. -/
theorem returnRead (h : Flow q e got inRing) {res : Except ShmError (ℕ × Payload)}
    (hst : q.step (.event (.returnRead res)) = some q')
    (he : e.hear w maxSendQueue (.returnRead res) = some e') : Flow q' e' got inRing := by
  simp only [Atomic.State.step, Atomic.State.consumerStep] at hst
  split_ifs at hst with hc
  cases hst
  have honm := h.onMessage
  rw [hc] at honm
  cases res with
  | ok r =>
    obtain ⟨len, out⟩ := r
    cases he
    refine { h with onMessage := ?_, len := by rintro len out ⟨⟩ }
    rw [honm, h.len len out hc, List.take_length]
    exact (List.append_nil _).symm
  | error err =>
    cases he
    exact { h with onMessage := honm, len := by rintro len out ⟨⟩ }

/-- **A step of the queue**, and what the ends make of it. -/
theorem step (h : Flow q e got inRing) {m : Atomic.Label} (hst : q.step m = some q')
    (he : m.event?.toList.foldlM (Ends.hear w maxSendQueue) e = some e') :
    ∃ got inRing, Flow q' e' got inRing := by
  cases m with
  | event ev =>
    have he : e.hear w maxSendQueue ev = some e' := by
      simpa only [Atomic.Label.event?, Option.toList_some, List.foldlM_cons, List.foldlM_nil,
        bind_pure] using he
    cases ev with
    | callWrite p => exact ⟨got, inRing, h.callWrite hst he⟩
    | returnWrite res => exact ⟨got, inRing, h.returnWrite hst he⟩
    | callRead =>
      cases he
      simp only [Atomic.State.step, Atomic.State.consumerStep] at hst
      split_ifs at hst with hc
      cases hst
      have honm := h.onMessage
      rw [hc] at honm
      exact ⟨got, inRing, { h with onMessage := honm, len := by rintro len out ⟨⟩ }⟩
    | returnRead res => exact ⟨got, inRing, h.returnRead hst he⟩
  | seeFull =>
    cases he
    simp only [Atomic.State.step, Atomic.State.producerStep] at hst
    split at hst
    case h_2 => cases hst
    case h_1 p ov hp =>
      split_ifs at hst
      cases hst
      refine ⟨got, inRing, h.producer (by rw [hp]; rintro ⟨⟩) (fun x hx => ?_) (by rw [hp]; rfl)⟩
      rw [hp]
      exact hx
  | evict =>
    cases he
    exact ⟨got, h.evict hst⟩
  | drained err =>
    cases he
    simp only [Atomic.State.step, Atomic.State.producerStep] at hst
    split at hst
    case h_2 => cases hst
    case h_1 p ov hp hQ =>
      split_ifs at hst
      cases hst
      exact ⟨got, inRing, h.producer (by rw [hp]; rintro ⟨⟩) (by rintro x ⟨⟩) (by rw [hp]; rfl)⟩
  | enqueue b =>
    cases he
    exact ⟨got, h.enqueue hst⟩
  | dequeue =>
    cases he
    exact h.dequeue hst
  | seeEmpty =>
    cases he
    simp only [Atomic.State.step, Atomic.State.consumerStep] at hst
    split at hst
    case h_2 => cases hst
    case h_1 hc hQ =>
      cases hst
      have honm := h.onMessage
      rw [hc] at honm
      exact ⟨got, inRing, { h with onMessage := honm, len := by rintro len out ⟨⟩ }⟩

/-- A run of the queue, and what the ends make of it. -/
theorem run {ms : List Atomic.Label} (h : Flow q e got inRing)
    (hr : Atomic.system.run q ms = some q')
    (he : (ms.filterMap Atomic.Label.event?).foldlM (Ends.hear w maxSendQueue) e = some e') :
    ∃ got inRing, Flow q' e' got inRing := by
  induction ms generalizing q e got inRing with
  | nil =>
    cases hr
    cases he
    exact ⟨got, inRing, h⟩
  | cons m ms ih =>
    obtain ⟨q₁, hst, hr⟩ := Option.bind_eq_some_iff.1 hr
    rw [filterMap_cons_toList, List.foldlM_append] at he
    obtain ⟨e₁, he₁, he⟩ := Option.bind_eq_some_iff.1 he
    obtain ⟨got, inRing, h⟩ := h.step hst he₁
    exact ih h hr he

/-- The ends are ready for whatever returns. -/
theorem hears (h : Flow q e got inRing) {ev : RingEvent} (hst : q.step (.event ev) = some q')
    (hev : ∀ p, ev ≠ .callWrite p) : ∃ e', e.hear w maxSendQueue ev = some e' := by
  cases ev with
  | callWrite p => exact absurd rfl (hev p)
  | returnWrite res =>
    simp only [Atomic.State.step, Atomic.State.producerStep] at hst
    split_ifs at hst with hp
    have hat := h.atWrite (by rw [hp]; rintro ⟨⟩)
    exact ⟨_, by rw [Ends.hear, if_pos hat, workerStep_atWrite hat, Option.map_some]⟩
  | callRead => exact ⟨_, rfl⟩
  | returnRead res =>
    cases res with
    | ok r => exact ⟨_, rfl⟩
    | error err => exact ⟨_, rfl⟩

theorem hears_run {ms : List Atomic.Label} (h : Flow q e got inRing)
    (hr : Atomic.system.run q ms = some q')
    (hev : ∀ p, .callWrite p ∉ ms.filterMap Atomic.Label.event?) :
    ∃ e', (ms.filterMap Atomic.Label.event?).foldlM (Ends.hear w maxSendQueue) e = some e' := by
  induction ms generalizing q e got inRing with
  | nil => exact ⟨e, rfl⟩
  | cons m ms ih =>
    obtain ⟨q₁, hst, hr⟩ := Option.bind_eq_some_iff.1 hr
    rw [filterMap_cons_toList] at hev ⊢
    have hrest (p : Payload) : .callWrite p ∉ ms.filterMap Atomic.Label.event? := fun hp =>
      hev p (List.mem_append_right _ hp)
    obtain ⟨e₁, he₁⟩ : ∃ e₁, m.event?.toList.foldlM (Ends.hear w maxSendQueue) e = some e₁ := by
      cases hm : m.event? with
      | none => exact ⟨e, rfl⟩
      | some ev =>
        have hmev : m = .event ev := by
          cases m <;> cases hm
          rfl
        have hne (p : Payload) : ev ≠ .callWrite p := by
          rintro rfl
          exact hev p (List.mem_append_left _ (by rw [hm]; exact List.mem_singleton_self _))
        obtain ⟨e₁, he₁⟩ : ∃ e₁, e.hear w maxSendQueue ev = some e₁ := h.hears (hmev ▸ hst) hne
        exact ⟨e₁, by simpa using he₁⟩
    obtain ⟨got, inRing, h⟩ := h.step hst he₁
    obtain ⟨e', he'⟩ := ih h hr hrest
    exact ⟨e', by rw [List.foldlM_append, he₁]; exact he'⟩

/-- A step of the sending side that is not a write. -/
theorem sender (h : Flow q e got inRing) {l : Label} {s : State}
    (hwr : e.sender.writes l = false) (hst : (system w maxSendQueue).step e.sender l = some s) :
    Flow q { e with sender := s } got inRing := by
  obtain ⟨⟨new, hsub, hacc⟩, hkeep, -⟩ := waiting_step hwr hst
  refine { h with writing := fun hp => ?_, inOrder := ?_ }
  · obtain ⟨hpoint, hbox⟩ := hkeep (h.atWrite hp)
    rw [hpoint, hbox]
    exact h.writing hp
  · have hdrop : (s.waiting.drop q.producer.stored).Sublist
        (e.sender.waiting.drop q.producer.stored ++ new) := by
      refine (hsub.drop _).trans ?_
      rw [List.drop_append]
      exact .append (.refl _) (List.drop_sublist _ _)
    have hio := h.inOrder.append_right new
    rw [List.append_assoc] at hio
    rw [hacc]
    exact (List.Sublist.append (.refl _) hdrop).trans hio

/-- A write that does not come to the ring. -/
theorem notConnected (h : Flow q e got inRing) (hp : q.producer = .idle)
    (he : e.hear w maxSendQueue (.returnWrite (.error .notConnected)) = some e') :
    Flow q e' got inRing := by
  simp only [Ends.hear] at he
  split_ifs at he with hat
  rw [workerStep_atWrite hat, Option.map_some] at he
  cases he
  obtain ⟨-, hqueue, -⟩ := w.trySend_error e.sender.box .notConnected
  refine { h with writing := fun hne => absurd hp hne, inOrder := ?_ }
  have hio := h.inOrder
  simpa only [State.waiting, hqueue] using hio

end Flow

/-- The invariant of order. -/
structure OrderInv (s : Pipeline) : Prop where
  delivery : DeliveryInv s.ring
  count : CountInv (fun _ => False) s.ring
  flow : ∃ got inRing, Flow s.ring.atomic s.ends got inRing

theorem freshRing_reset {r : RingState} (h : r.Quiet) (generation : UInt32) :
    FreshRing { r with header := r.header.reset generation, hist := {} } := by
  obtain ⟨header, storage, writer, reader, hist⟩ := r
  obtain ⟨hw, hr⟩ := h
  cases hw
  cases hr
  exact ⟨_, _, _, rfl⟩

theorem atomic_of_freshRing {r : RingState} (h : FreshRing r) : r.atomic = ⟨[], .idle, .idle⟩ := by
  obtain ⟨hd, storage, generation, rfl⟩ := h
  rfl

namespace OrderInv

variable {w : Worker} {maxSendQueue : ℕ} {s s' : Pipeline}

theorem init (h : (pipeline w maxSendQueue).init s) : OrderInv s := by
  obtain ⟨ring, hring, rfl⟩ := h
  refine ⟨.init hring, .init hring, [], [], ?_⟩
  rw [atomic_of_freshRing hring]
  exact ⟨rfl, rfl, by rintro len out ⟨⟩, fun h => absurd rfl h, .refl _⟩

/-- **Every step keeps the order.** -/
theorem step (h : OrderInv s) {l : PipelineLabel} (hc : s.Orderly l)
    (hst : (pipeline w maxSendQueue).step s l = some s') : OrderInv s' := by
  obtain ⟨hdel, hcount, got, inRing, hf⟩ := h
  cases l with
  | sender l =>
    simp only [pipeline] at hst
    split_ifs at hst with hwr
    obtain ⟨sender, hs, rfl⟩ := Option.map_eq_some_iff.1 hst
    exact ⟨hdel, hcount, got, inRing, hf.sender (Bool.eq_false_iff.2 hwr) hs⟩
  | notConnected =>
    simp only [pipeline] at hst
    split_ifs at hst with hw
    obtain ⟨ends, he, rfl⟩ := Option.map_eq_some_iff.1 hst
    refine ⟨hdel, hcount, got, inRing, hf.notConnected ?_ he⟩
    rw [RingState.atomic, hw]
    rfl
  | ring l =>
    obtain ⟨hshort, hun⟩ := hc
    obtain ⟨ring, hring, hst⟩ := Option.bind_eq_some_iff.1 hst
    obtain ⟨ends, he, rfl⟩ := Option.map_eq_some_iff.1 hst
    obtain ⟨ms, hms, hevents⟩ := RingState.step_matches hdel hcount hshort hring
    rw [← hevents] at he
    have htakes := hdel.takesFrame hshort
    exact ⟨hdel.step hshort hun hring, hcount.step htakes (fun _ _ _ hP => hP.elim) hring,
      hf.run hms he⟩
  | reset generation =>
    cases hst
    have hq : s.ring.Quiet := hc
    have hfresh := freshRing_reset hq generation
    refine ⟨.init hfresh, .init hfresh, got, [], ?_⟩
    have honm := hf.onMessage
    have hio := hf.inOrder
    simp only [RingState.atomic, hq.1, hq.2] at honm hio
    rw [atomic_of_freshRing hfresh]
    refine ⟨honm, rfl, by rintro len out ⟨⟩, fun h => absurd rfl h, ?_⟩
    refine List.Sublist.trans (.append ?_ (.refl _)) hio
    exact .append (.refl _) (List.nil_sublist _)

end OrderInv

theorem stored_producer (wr : Writer) : wr.producer.stored = wr.returning := by
  cases wr with
  | loadCount p ov write read =>
    rw [Writer.producer]
    split_ifs <;> rfl
  | discard p ov d =>
    rw [Writer.producer]
    split_ifs <;> rfl
  | _ => rfl

theorem taken_consumer (rd : Reader) : rd.consumer.taken = rd.pending.map Prod.snd := by
  cases rd <;> rfl

namespace Pipeline

variable {w : Worker} {maxSendQueue : ℕ} {s : Pipeline}

/-- No access of the ring has to wait for the ends; only a write begins when the worker says so. -/
theorem ring_goes_on (h : (pipeline w maxSendQueue).ReachWhen Orderly s) {l : RingLabel}
    (hl : ∀ p, l ≠ .callWrite p) (hc : ShortAttempt s.ring l) {ring : RingState}
    (hst : s.ring.step l = some ring) :
    ∃ s', (pipeline w maxSendQueue).step s (.ring l) = some s' ∧ s'.ring = ring := by
  obtain ⟨hdel, hcount, got, inRing, hf⟩ := h.invariant (I := OrderInv) (fun _ => OrderInv.init)
    fun _ _ _ hi hc hst => hi.step hc hst
  obtain ⟨ms, hms, hevents⟩ := RingState.step_matches hdel hcount hc hst
  have hno (p : Payload) : .callWrite p ∉ ms.filterMap Atomic.Label.event? := by
    rw [hevents, RingState.events, List.append_assoc, List.mem_append, not_or]
    constructor
    · cases l with
      | callWrite q => exact absurd rfl (hl q)
      | callRead | writer | reader => simp [RingLabel.call]
    · simp only [List.mem_append, List.mem_map, reduceCtorEq, and_false, exists_false, or_self,
        not_false_eq_true]
  obtain ⟨ends, he⟩ : ∃ ends, (ms.filterMap Atomic.Label.event?).foldlM
      (Ends.hear w maxSendQueue) s.ends = some ends := hf.hears_run hms hno
  rw [hevents] at he
  exact ⟨{ s with ends := ends, ring := ring }, by simp [pipeline, hst, he], rfl⟩

/-- **Messages arrive in order**, each at most once and unchanged: what the handler has got and what
a `read_message` is about to return, what is in the ring, and what is on the way to it is, in this
order, a part of what `send` has accepted. -/
theorem inOrder (h : (pipeline w maxSendQueue).ReachWhen Orderly s) :
    (s.ends.onMessage ++ s.ring.reader.pending.map Prod.snd ++ s.ring.hist.waiting ++
      s.waiting.map Sent.data).Sublist (s.ends.sender.accepted.map Sent.data) := by
  obtain ⟨-, -, got, inRing, hf⟩ := h.invariant (I := OrderInv) (fun _ => OrderInv.init)
    fun _ _ _ hi hc hst => hi.step hc hst
  have hio := hf.inOrder.map Sent.data
  have honm : got.map Sent.data = s.ends.onMessage ++ s.ring.reader.consumer.taken := hf.onMessage
  have hqueue : inRing.map Sent.data = s.ring.hist.waiting := hf.queue
  have hstored : s.ring.atomic.producer.stored = s.ring.writer.returning := stored_producer _
  rw [List.map_append, List.map_append, honm, hqueue, taken_consumer, hstored] at hio
  exact hio

/-- One direction whose ring has been reset and is empty. -/
def fresh : Pipeline := { ring := RingState.zeroed }

theorem init_fresh : (pipeline w maxSendQueue).init fresh :=
  ⟨_, RingState.freshRing_zeroed, rfl⟩

/-- `write_message(p)` is called and returns after `n` accesses. -/
def writes (p : Payload) (n : ℕ) : List PipelineLabel :=
  .ring (.callWrite p) :: List.replicate n (.ring .writer)

/-- Two messages are sent; the first is read while the second is written, and a handshake resets the
ring with the second in it.  A third message is sent and read. -/
def threeMessages : List PipelineLabel :=
  [.sender (.send [1, 2]), .sender (.send [3, 4, 5])] ++
    List.replicate 6 (.sender (.worker .succeeded)) ++ writes [1, 2] 12 ++ writes [3, 4, 5] 0 ++
    .ring .callRead :: (List.replicate 9 [.ring .writer, .ring .reader]).flatten ++
    List.replicate 4 (.ring .writer) ++
    [.reset 2, .sender (.send [6, 7]), .sender (.worker .succeeded), .sender (.worker .drained),
      .sender (.worker (.waited false))] ++
    List.replicate 3 (.sender (.worker .succeeded)) ++ writes [6, 7] 12 ++
    .ring .callRead :: List.replicate 9 (.ring .reader)

theorem inOrder_threeMessages : ∃ s : Pipeline,
    (s.ends.onMessage ++ s.ring.reader.pending.map Prod.snd ++ s.ring.hist.waiting ++
      s.waiting.map Sent.data).Sublist (s.ends.sender.accepted.map Sent.data) ∧
    s.ends.onMessage = [[1, 2], [6, 7]] ∧
    s.ends.sender.accepted.map Sent.data = [[1, 2], [3, 4, 5], [6, 7]] := by
  obtain ⟨s, h, hs⟩ := System.exists_reachWhen (A := pipeline .autoClient 4) (C := Orderly)
    (r := threeMessages)
    (f := fun s => (s.ends.onMessage, s.ends.sender.accepted.map Sent.data))
    (t := ([[1, 2], [6, 7]], [[1, 2], [3, 4, 5], [6, 7]])) init_fresh (by decide +kernel)
  obtain ⟨honm, hacc⟩ := Prod.mk.inj hs
  exact ⟨s, inOrder h, honm, hacc⟩

end Pipeline

end Sending

end Xshm
