import Mathlib.Data.List.Perm.Basic
import Xshm.Sending.Outbox

/-!
# The two send queues

Auto-mode and `MultiClient` each have a send queue of their own.  `process_send_queue` takes a
message out of the queue before it writes it, and puts it back to the front if the write fails;
the worker of `MultiClient` writes the message at the front and takes it out if the write has
succeeded.

* `Relay` : what a send queue does, without the calls of the handler and the statistics.
* `Outbox.relay_autoPass`, `Outbox.relay_multiPass` : a pass of either worker does just that.
* `sendQueues_agree` : whatever is sent, in whatever passes, and however the writes end, both have
  written the same messages and have the same queue.  What has been written is a part of what was
  accepted, in order; the queue is the end of what was accepted, and never longer than
  `max_send_queue`, or 1.
-/

namespace Xshm

namespace Sending

variable {M : Type*}

/-- What one pass of a worker takes from the channel, and what its writes return. -/
structure Round (M : Type*) where
  msgs : List M
  write : ℕ → M → Except ShmError WriteOutcome

/-- A queue that drops its oldest messages, and what became of those that have left it. -/
structure Relay (M : Type*) where
  queue : List M := []
  written : List M := []
  /-- The messages dropped to make room. -/
  evicted : List M := []

namespace Relay

variable (r : Relay M)

/-- A message is accepted. -/
def push (maxSendQueue : ℕ) (msg : M) : Relay M :=
  if maxSendQueue ≤ r.queue.length then
    { r with queue := r.queue.tail ++ [msg], evicted := r.evicted ++ r.queue.head?.toList }
  else { r with queue := r.queue ++ [msg] }

/-- The messages that are written, up to the first write that fails, and those that are left. -/
def split (ok : ℕ → M → Bool) : ℕ → List M → List M × List M
  | _, [] => ([], [])
  | k, msg :: queue =>
    if ok k msg then
      (msg :: (split ok (k + 1) queue).1, (split ok (k + 1) queue).2)
    else ([], msg :: queue)

/-- The queue is written, from its front. -/
def send (ok : ℕ → M → Bool) (k : ℕ) : Relay M :=
  { r with
    queue := (split ok k r.queue).2
    written := r.written ++ (split ok k r.queue).1 }

/-- A pass: messages are accepted, then the queue is written. -/
def pass (maxSendQueue : ℕ) (msgs : List M) (ok : ℕ → M → Bool) : Relay M :=
  (msgs.foldl (fun r msg => r.push maxSendQueue msg) r).send ok 0

theorem split_append (ok : ℕ → M → Bool) (k : ℕ) (queue : List M) :
    (split ok k queue).1 ++ (split ok k queue).2 = queue := by
  induction queue generalizing k with
  | nil => rfl
  | cons msg queue ih =>
    rw [split]
    split_ifs
    · exact congrArg (msg :: ·) (ih (k + 1))
    · rfl

/-- What has been accepted: first the messages that have been written or dropped, in some order,
of which those written are in order, and then the queue. -/
structure Accounts (maxSendQueue : ℕ) (accepted : List M) : Prop where
  gone : ∃ gone, accepted = gone ++ r.queue ∧ r.written.Sublist gone ∧
    gone.Perm (r.written ++ r.evicted)
  bound : r.queue.length ≤ max maxSendQueue 1

variable {r} {maxSendQueue : ℕ} {accepted : List M}

theorem Accounts.push (h : r.Accounts maxSendQueue accepted) (msg : M) :
    (r.push maxSendQueue msg).Accounts maxSendQueue (accepted ++ [msg]) := by
  obtain ⟨⟨gone, hacc, hsub, hperm⟩, hbound⟩ := h
  obtain ⟨queue, written, evicted⟩ := r
  unfold Relay.push
  split_ifs with hfull
  · cases queue with
    | nil =>
      refine ⟨⟨gone, ?_, hsub, ?_⟩, Nat.le_max_right ..⟩
      · rw [hacc, List.append_assoc]
        rfl
      · simpa using hperm
    | cons first queue =>
      -- the oldest message is dropped
      refine ⟨⟨gone ++ [first], ?_, hsub.trans (List.sublist_append_left ..), ?_⟩, ?_⟩
      · rw [hacc]
        simp
      · change (gone ++ [first]).Perm (written ++ (evicted ++ [first]))
        rw [← List.append_assoc]
        exact hperm.append_right [first]
      · simpa using hbound
  · refine ⟨⟨gone, ?_, hsub, hperm⟩, ?_⟩
    · rw [hacc, List.append_assoc]
    · change ¬ maxSendQueue ≤ queue.length at hfull
      change (queue ++ [msg]).length ≤ _
      rw [List.length_append, List.length_singleton]
      omega

theorem Accounts.send (h : r.Accounts maxSendQueue accepted) (ok : ℕ → M → Bool) (k : ℕ) :
    (r.send ok k).Accounts maxSendQueue accepted := by
  obtain ⟨⟨gone, hacc, hsub, hperm⟩, hbound⟩ := h
  have hsplit := split_append ok k r.queue
  refine ⟨⟨gone ++ (split ok k r.queue).1, ?_, hsub.append (List.Sublist.refl _), ?_⟩, ?_⟩
  · change accepted = _ ++ (split ok k r.queue).2
    rw [List.append_assoc, hsplit, hacc]
  · refine (hperm.append_right _).trans ?_
    change (r.written ++ r.evicted ++ _).Perm (r.written ++ _ ++ r.evicted)
    rw [List.append_assoc, List.append_assoc]
    exact List.perm_append_comm.append_left r.written
  · have hlen := congrArg List.length hsplit
    rw [List.length_append] at hlen
    change (split ok k r.queue).2.length ≤ _
    omega

theorem Accounts.pass (h : r.Accounts maxSendQueue accepted) (msgs : List M) (ok : ℕ → M → Bool) :
    (r.pass maxSendQueue msgs ok).Accounts maxSendQueue (accepted ++ msgs) := by
  refine Accounts.send ?_ ok 0
  induction msgs generalizing r accepted with
  | nil => rwa [List.append_nil]
  | cons msg msgs ih =>
    rw [List.append_cons]
    exact ih (h.push msg)

end Relay

namespace Outbox

variable (b : Outbox M)

/-- `SendQueue::pop`. -/
def pop : Option M × Outbox M := (b.queue.head?, { b with queue := b.queue.tail })

/-- `SendQueue::push_front`. -/
def pushFront (msg : M) : Outbox M := { b with queue := msg :: b.queue }

/-- One pass through the loop of `process_send_queue`, with what happens to the queue while the
message is written. -/
def popThenSend (write : M → Except ShmError WriteOutcome) : Outbox M × Bool :=
  match b.pop with
  | (none, b) => (b, false)
  | (some msg, b) =>
    match write msg with
    | .ok outcome =>
      ({ b with
        written := b.written ++ [msg]
        sentMessages := b.sentMessages + 1
        sendOverflows := b.sendOverflows + outcome.overwritten.toUInt64
        ringReported := b.ringReported + outcome.overwritten.toNat
        calls := if 0 < outcome.overwritten then b.calls ++ [.onOverflow outcome.overwritten]
          else b.calls }, true)
    | .error .queueFull => (b.pushFront msg, false)
    | .error e => (({ b with calls := b.calls ++ [.onError e] } : Outbox M).pushFront msg, false)

/-- The loop of `process_send_queue`, `fuel` times at most. -/
def processSendQueue (write : ℕ → M → Except ShmError WriteOutcome) :
    ℕ → ℕ → Outbox M → Outbox M
  | 0, _, b => b
  | fuel + 1, k, b =>
    match b.popThenSend (write k) with
    | (b', true) => processSendQueue write fuel (k + 1) b'
    | (b', false) => b'

/-- The message is back at the front if it has not been written. -/
theorem popThenSend_cons {msg : M} {queue : List M} (h : b.queue = msg :: queue)
    (write : M → Except ShmError WriteOutcome) :
    b.popThenSend write = b.popAndSend (write msg) := by
  obtain ⟨q, n, m, calls, written, evicted, r⟩ := b
  obtain rfl : q = msg :: queue := h
  simp only [popThenSend, pop, popAndSend, List.head?_cons, List.tail_cons, pushFront]
  cases write msg with
  | ok outcome => rfl
  | error e => cases e <;> rfl

theorem popThenSend_nil (h : b.queue = []) (write : M → Except ShmError WriteOutcome) :
    b.popThenSend write = (b, false) := by
  obtain ⟨q, n, m, calls, written, evicted, r⟩ := b
  obtain rfl : q = [] := h
  rfl

/-- **`process_send_queue` leaves the message in the queue while it is written**, for all that can
be told afterwards. -/
theorem processSendQueue_eq (write : ℕ → M → Except ShmError WriteOutcome) (fuel k : ℕ) :
    processSendQueue write fuel k b = Worker.autoServer.sendLoop write fuel k b := by
  induction fuel generalizing k b with
  | zero => rfl
  | succ fuel ih =>
    rw [processSendQueue, Worker.sendLoop]
    cases hq : b.queue with
    | nil => simp only [b.popThenSend_nil hq]
    | cons msg queue =>
      simp only [b.popThenSend_cons hq, Worker.trySend]
      split <;> simp only [*]

/-- A pass of the workers of auto-mode: `drain_commands` and `process_send_queue`. -/
def autoPass (maxSendQueue : ℕ) (p : Round M) : Outbox M :=
  let b := p.msgs.foldl (fun b msg => b.push maxSendQueue msg) b
  processSendQueue p.write b.queue.length 0 b

/-- A pass of the worker of `MultiClient`. -/
def multiPass (maxSendQueue : ℕ) (p : Round M) : Outbox M :=
  Worker.multiClient.sendPass p.write
    (p.msgs.foldl (fun b msg => b.pushReporting maxSendQueue msg) b)

/-- Where the messages are. -/
def relay : Relay M := ⟨b.queue, b.written, b.evicted⟩

theorem relay_push (maxSendQueue : ℕ) (msg : M) :
    (b.push maxSendQueue msg).relay = b.relay.push maxSendQueue msg := by
  unfold push Relay.push
  change _ = if maxSendQueue ≤ b.queue.length then _ else _
  split_ifs <;> rfl

theorem relay_pushReporting (maxSendQueue : ℕ) (msg : M) :
    (b.pushReporting maxSendQueue msg).relay = b.relay.push maxSendQueue msg := by
  unfold Relay.push
  change _ = if maxSendQueue ≤ b.queue.length then _ else _
  split_ifs with h
  · rw [b.pushReporting_of_full h]
    rfl
  · rw [b.pushReporting_of_room h]
    rfl

/-- A worker that accepts messages one by one accepts them all. -/
theorem relay_foldl {push : Outbox M → M → Outbox M} {maxSendQueue : ℕ}
    (h : ∀ b msg, (push b msg).relay = b.relay.push maxSendQueue msg) (msgs : List M) :
    (msgs.foldl push b).relay = msgs.foldl (fun r msg => r.push maxSendQueue msg) b.relay := by
  induction msgs generalizing b with
  | nil => rfl
  | cons msg msgs ih => rw [List.foldl_cons, ih, h, List.foldl_cons]

end Outbox

/-- The write does not fail. -/
def succeeds (write : ℕ → M → Except ShmError WriteOutcome) (k : ℕ) (msg : M) : Bool :=
  (write k msg).isOk

theorem Worker.relay_trySend_ok (w : Worker) {b : Outbox M} {msg : M} {queue : List M}
    (h : b.queue = msg :: queue) (outcome : WriteOutcome) :
    (w.trySend b (.ok outcome)).1.relay = ⟨queue, b.written ++ [msg], b.evicted⟩ := by
  cases w <;> simp only [trySend, Outbox.popAndSend, Outbox.sendFront, h, Outbox.relay]

theorem Worker.relay_trySend_error (w : Worker) (b : Outbox M) (e : ShmError) :
    (w.trySend b (.error e)).1.relay = b.relay := by
  cases w <;> simp only [trySend, Outbox.popAndSend, Outbox.sendFront]
  all_goals
    split
    all_goals first | rfl | contradiction

/-- **The loop of a worker writes its queue from the front.** -/
theorem Worker.relay_sendLoop (w : Worker) (write : ℕ → M → Except ShmError WriteOutcome)
    {fuel : ℕ} (k : ℕ) {b : Outbox M} (hfuel : b.queue.length ≤ fuel) :
    (w.sendLoop write fuel k b).relay = b.relay.send (succeeds write) k := by
  induction fuel generalizing k b with
  | zero =>
    have hnil : b.queue = [] := List.length_eq_zero_iff.1 (Nat.le_zero.1 hfuel)
    simp only [sendLoop, Relay.send, Outbox.relay, hnil, Relay.split, List.append_nil]
  | succ fuel ih =>
    cases hq : b.queue with
    | nil => simp only [sendLoop, Relay.send, Outbox.relay, hq, Relay.split, List.append_nil]
    | cons msg queue =>
      cases hw : write k msg with
      | ok outcome =>
        obtain ⟨hgo, hqueue, hwritten⟩ := w.trySend_ok hq outcome
        have hfuel' : (w.trySend b (.ok outcome)).1.queue.length ≤ fuel := by
          rw [hqueue]
          rw [hq, List.length_cons] at hfuel
          omega
        have hstep : w.sendLoop write (fuel + 1) k b =
            w.sendLoop write fuel (k + 1) (w.trySend b (.ok outcome)).1 := by
          simp only [sendLoop, hq, hw]
          rw [← Prod.mk.eta (p := w.trySend b (.ok outcome)), hgo]
        rw [hstep, ih (k + 1) hfuel', w.relay_trySend_ok hq]
        simp only [Relay.send, Outbox.relay, hq, Relay.split, succeeds, hw, Except.isOk,
          Except.toBool, if_true, List.append_assoc, List.singleton_append]
      | error e =>
        have hstop := (w.trySend_error b e).1
        have hstep : w.sendLoop write (fuel + 1) k b = (w.trySend b (.error e)).1 := by
          simp only [sendLoop, hq, hw]
          rw [← Prod.mk.eta (p := w.trySend b (.error e)), hstop]
        rw [hstep, w.relay_trySend_error]
        simp only [Relay.send, Outbox.relay, hq, Relay.split, succeeds, hw, Except.isOk,
          Except.toBool, Bool.false_eq_true, if_false, List.append_nil]

/-! ### The passes -/

namespace Outbox

variable (b : Outbox M)

/-- **A pass of auto-mode** accepts the messages and writes the queue from the front. -/
theorem relay_autoPass (maxSendQueue : ℕ) (p : Round M) :
    (b.autoPass maxSendQueue p).relay =
      b.relay.pass maxSendQueue p.msgs (succeeds p.write) := by
  rw [autoPass, processSendQueue_eq, Worker.autoServer.relay_sendLoop p.write 0 le_rfl,
    relay_foldl b fun b msg => b.relay_push maxSendQueue msg]
  rfl

/-- **A pass of `MultiClient`** does the same. -/
theorem relay_multiPass (maxSendQueue : ℕ) (p : Round M) :
    (b.multiPass maxSendQueue p).relay =
      b.relay.pass maxSendQueue p.msgs (succeeds p.write) := by
  rw [multiPass, Worker.sendPass, Worker.multiClient.relay_sendLoop p.write 0 le_rfl,
    relay_foldl b fun b msg => b.relay_pushReporting maxSendQueue msg]
  rfl

end Outbox

/-- The passes of a worker of auto-mode. -/
def autoRun (maxSendQueue : ℕ) (ps : List (Round M)) : Outbox M :=
  ps.foldl (fun b p => b.autoPass maxSendQueue p) {}

/-- The passes of the worker of `MultiClient` in one session. -/
def multiRun (maxSendQueue : ℕ) (ps : List (Round M)) : Outbox M :=
  ps.foldl (fun b p => b.multiPass maxSendQueue p) {}

/-- The messages accepted in some passes. -/
def acceptedIn (ps : List (Round M)) : List M := ps.flatMap Round.msgs

/-- Passes that do what a `Relay` does, one after the other. -/
theorem relay_run {step : Outbox M → Round M → Outbox M} {maxSendQueue : ℕ}
    (h : ∀ b p, (step b p).relay = b.relay.pass maxSendQueue p.msgs (succeeds p.write))
    (ps : List (Round M)) (b : Outbox M) :
    (ps.foldl step b).relay =
      ps.foldl (fun r p => r.pass maxSendQueue p.msgs (succeeds p.write)) b.relay := by
  induction ps generalizing b with
  | nil => rfl
  | cons p ps ih => rw [List.foldl_cons, ih, h, List.foldl_cons]

theorem accounts_run {maxSendQueue : ℕ} (ps : List (Round M)) {r : Relay M} {accepted : List M}
    (h : r.Accounts maxSendQueue accepted) :
    (ps.foldl (fun r p => r.pass maxSendQueue p.msgs (succeeds p.write)) r).Accounts maxSendQueue
      (accepted ++ acceptedIn ps) := by
  induction ps generalizing r accepted with
  | nil => rwa [acceptedIn, List.flatMap_nil, List.append_nil]
  | cons p ps ih =>
    rw [acceptedIn, List.flatMap_cons, ← List.append_assoc]
    exact ih (h.pass p.msgs (succeeds p.write))

/-- **The two send queues are one algorithm.**  After any passes both have written the same
messages and have the same queue; these are, each once and in order, messages that were accepted;
the queue is the end of what was accepted, and what was accepted before it has been written or
dropped. -/
theorem sendQueues_agree (maxSendQueue : ℕ) (ps : List (Round M)) :
    (autoRun maxSendQueue ps).relay = (multiRun maxSendQueue ps).relay ∧
      (autoRun maxSendQueue ps).written.Sublist (acceptedIn ps) ∧
      (∃ gone, acceptedIn ps = gone ++ (autoRun maxSendQueue ps).queue ∧
        gone.Perm ((autoRun maxSendQueue ps).written ++ (autoRun maxSendQueue ps).evicted)) ∧
      (autoRun maxSendQueue ps).queue.length ≤ max maxSendQueue 1 := by
  have hauto := relay_run (fun b p => b.relay_autoPass maxSendQueue p) ps {}
  have hmulti := relay_run (fun b p => b.relay_multiPass maxSendQueue p) ps {}
  have hinit : (({} : Outbox M).relay).Accounts maxSendQueue [] :=
    ⟨⟨[], rfl, List.Sublist.refl _, List.Perm.refl _⟩, Nat.zero_le _⟩
  have hacc := accounts_run ps hinit
  rw [← hauto, List.nil_append] at hacc
  obtain ⟨⟨gone, hgone, hsub, hperm⟩, hbound⟩ := hacc
  refine ⟨hauto.trans hmulti.symm, ?_, ⟨gone, hgone, hperm⟩, hbound⟩
  rw [hgone]
  exact hsub.trans (List.sublist_append_left ..)

end Sending

end Xshm
