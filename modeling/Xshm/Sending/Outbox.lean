import Mathlib.Data.List.TakeWhile
import Xshm.Endpoint.Data

/-!
# The send queues of the workers

The queue from which a worker of `AutoServer`, `AutoClient` or `MultiClient` sends: the `Send`
branch of `drain_commands` and `push_with_cap`, which put a message into it, and the passes that
write its messages to the ring (`process_send_queue`, and the loop of the worker of `MultiClient`).
A pass stops at the first message that is not written and leaves it at the head, whatever the
error is.

* `delivers_iff` : on a ring that takes every message of an allowed length, a pass writes the
  messages of allowed lengths and leaves no other at the head if and only if no other is queued.
* `sendPass_blocked` : a message of another length at the head blocks the queue.
-/

namespace Xshm

namespace Sending

/-- The workers with a send queue. -/
inductive Worker where
  | autoServer
  | autoClient
  | multiClient
  deriving DecidableEq

/-- What a worker tells the handler about its sends. -/
inductive SendCall where
  | onOverflow (count : UInt32)
  | onError (e : ShmError)
  deriving DecidableEq

/-- The number of messages that a call reports as dropped. -/
def SendCall.count : SendCall → ℕ
  | .onOverflow count => count.toNat
  | .onError _ => 0

/-- A send queue of messages `M`, and what became of the messages that have left it. -/
structure Outbox (M : Type*) where
  queue : List M := []
  /-- `AutoStats.sent_messages`. -/
  sentMessages : UInt64 := 0
  /-- `AutoStats.send_overflows`. -/
  sendOverflows : UInt64 := 0
  /-- Record: the calls of the handler. -/
  calls : List SendCall := []
  /-- Record: the messages written to the ring. -/
  written : List M := []
  /-- Record: the messages dropped to make room in the queue. -/
  evicted : List M := []
  /-- Record: the messages dropped in the ring that `calls` has reported. -/
  ringReported : ℕ := 0
  deriving DecidableEq

namespace Outbox

variable {M : Type*} (b : Outbox M)

/-- The `Send` branch of `drain_commands`. -/
def push (maxSendQueue : ℕ) (msg : M) : Outbox M :=
  if maxSendQueue ≤ b.queue.length then
    { b with queue := b.queue.tail ++ [msg], evicted := b.evicted ++ b.queue.head?.toList }
  else { b with queue := b.queue ++ [msg] }

/-- `push_with_cap(queue, data, max_send_queue)`. -/
def pushWithCap (queue : List M) (data : M) (maxSendQueue : ℕ) : List M × Bool :=
  if maxSendQueue ≤ queue.length then (queue.tail ++ [data], true) else (queue ++ [data], false)

/-- The `Send` branch in the worker of `MultiClient`. -/
def pushReporting (maxSendQueue : ℕ) (data : M) : Outbox M :=
  let (queue, overflowed) := pushWithCap b.queue data maxSendQueue
  if overflowed then
    { b with
      queue := queue
      evicted := b.evicted ++ b.queue.head?.toList
      calls := b.calls ++ [.onOverflow 1] }
  else { b with queue := queue }

/-- One pass through the loop of `process_send_queue`: what `write` returns for the message popped,
and whether the loop goes on. -/
def popAndSend (result : Except ShmError WriteOutcome) : Outbox M × Bool :=
  match b.queue, result with
  | [], _ => (b, false)
  | msg :: queue, .ok outcome =>
    ({ b with
      queue := queue
      written := b.written ++ [msg]
      sentMessages := b.sentMessages + 1
      sendOverflows := b.sendOverflows + outcome.overwritten.toUInt64
      ringReported := b.ringReported + outcome.overwritten.toNat
      calls := if 0 < outcome.overwritten then b.calls ++ [.onOverflow outcome.overwritten]
        else b.calls }, true)
  -- the message is pushed back to the front
  | _ :: _, .error .queueFull => (b, false)
  | _ :: _, .error e => ({ b with calls := b.calls ++ [.onError e] }, false)

/-- One pass through the send loop of the worker of `MultiClient`, which leaves the message in the
queue while it is sent. -/
def sendFront (result : Except ShmError WriteOutcome) : Outbox M × Bool :=
  match b.queue, result with
  | [], _ => (b, false)
  | msg :: queue, .ok _ => ({ b with queue := queue, written := b.written ++ [msg] }, true)
  | _ :: _, .error .queueFull => (b, false)
  | _ :: _, .error e => ({ b with calls := b.calls ++ [.onError e] }, false)

theorem pushReporting_of_full {maxSendQueue : ℕ} (h : maxSendQueue ≤ b.queue.length) (data : M) :
    b.pushReporting maxSendQueue data = { b with
      queue := b.queue.tail ++ [data]
      evicted := b.evicted ++ b.queue.head?.toList
      calls := b.calls ++ [.onOverflow 1] } := by
  simp only [pushReporting, pushWithCap, if_pos h, if_true]

theorem pushReporting_of_room {maxSendQueue : ℕ} (h : ¬ maxSendQueue ≤ b.queue.length) (data : M) :
    b.pushReporting maxSendQueue data = { b with queue := b.queue ++ [data] } := by
  simp only [pushReporting, pushWithCap, if_neg h, Bool.false_eq_true, if_false]

end Outbox

namespace Worker

variable {M : Type*} (w : Worker)

/-- How the worker takes a `Send` command. -/
def push (maxSendQueue : ℕ) (b : Outbox M) (msg : M) : Outbox M :=
  match w with
  | .autoServer | .autoClient => b.push maxSendQueue msg
  | .multiClient => b.pushReporting maxSendQueue msg

/-- How the worker sends the head of its queue. -/
def trySend (b : Outbox M) (result : Except ShmError WriteOutcome) : Outbox M × Bool :=
  match w with
  | .autoServer | .autoClient => b.popAndSend result
  | .multiClient => b.sendFront result

/-- The loop that sends, `fuel` times at most; `write k` is the `k`-th write. -/
def sendLoop (write : ℕ → M → Except ShmError WriteOutcome) : ℕ → ℕ → Outbox M → Outbox M
  | 0, _, b => b
  | fuel + 1, k, b =>
    match b.queue with
    | [] => b
    | msg :: _ =>
      match w.trySend b (write k msg) with
      | (b', true) => sendLoop write fuel (k + 1) b'
      | (b', false) => b'

/-- The sending pass of a worker (`process_send_queue` in auto-mode).  Every time that the loop
goes on it has shortened the queue. -/
def sendPass (write : ℕ → M → Except ShmError WriteOutcome) (b : Outbox M) : Outbox M :=
  w.sendLoop write b.queue.length 0 b

theorem push_queue (maxSendQueue : ℕ) (b : Outbox M) (msg : M) :
    (w.push maxSendQueue b msg).queue =
      if maxSendQueue ≤ b.queue.length then b.queue.tail ++ [msg] else b.queue ++ [msg] := by
  cases w with
  | autoServer | autoClient =>
    unfold push Outbox.push
    split_ifs <;> rfl
  | multiClient =>
    unfold push
    split_ifs with h
    · rw [Outbox.pushReporting_of_full _ h]
    · rw [Outbox.pushReporting_of_room _ h]

/-- The bound on the queue. -/
theorem length_push_queue_le {maxSendQueue : ℕ} {b : Outbox M}
    (h : b.queue.length ≤ max maxSendQueue 1) (msg : M) :
    (w.push maxSendQueue b msg).queue.length ≤ max maxSendQueue 1 := by
  rw [push_queue]
  split_ifs with hfull
  · rw [List.length_append, List.length_tail, List.length_singleton]
    omega
  · rw [List.length_append, List.length_singleton]
    omega

theorem trySend_ok {b : Outbox M} {msg : M} {queue : List M} (h : b.queue = msg :: queue)
    (outcome : WriteOutcome) : (w.trySend b (.ok outcome)).2 = true ∧
      (w.trySend b (.ok outcome)).1.queue = queue ∧
      (w.trySend b (.ok outcome)).1.written = b.written ++ [msg] := by
  cases w <;> simp only [trySend, Outbox.popAndSend, Outbox.sendFront, h, and_self]

/-- A message that is not written stays where it is, and the loop stops. -/
theorem trySend_error (b : Outbox M) (e : ShmError) : (w.trySend b (.error e)).2 = false ∧
    (w.trySend b (.error e)).1.queue = b.queue ∧
    (w.trySend b (.error e)).1.written = b.written := by
  cases w <;> simp only [trySend, Outbox.popAndSend, Outbox.sendFront]
  all_goals
    split
    all_goals trivial

/-- The loop writes the messages before the first one that fails, and leaves the others. -/
theorem sendLoop_spec {valid : M → Bool} {write : ℕ → M → Except ShmError WriteOutcome}
    (hok : ∀ k msg, valid msg = true → ∃ outcome, write k msg = .ok outcome)
    (herr : ∀ k msg, valid msg = false → ∃ e, write k msg = .error e) {fuel : ℕ} (k : ℕ)
    {b : Outbox M} (hfuel : b.queue.length ≤ fuel) :
    (w.sendLoop write fuel k b).written = b.written ++ b.queue.takeWhile valid ∧
      (w.sendLoop write fuel k b).queue = b.queue.dropWhile valid := by
  induction fuel generalizing k b with
  | zero =>
    have hnil : b.queue = [] := List.length_eq_zero_iff.1 (Nat.le_zero.1 hfuel)
    simp only [sendLoop, hnil, List.takeWhile_nil, List.dropWhile_nil, List.append_nil, and_self]
  | succ fuel ih =>
    cases hq : b.queue with
    | nil =>
      simp only [sendLoop, hq, List.takeWhile_nil, List.dropWhile_nil, List.append_nil, and_self]
    | cons msg queue =>
      by_cases hv : valid msg = true
      · obtain ⟨outcome, hw⟩ := hok k msg hv
        obtain ⟨hgo, hqueue, hwritten⟩ := w.trySend_ok hq outcome
        have hfuel' : (w.trySend b (.ok outcome)).1.queue.length ≤ fuel := by
          rw [hqueue]
          rw [hq, List.length_cons] at hfuel
          omega
        obtain ⟨ih₁, ih₂⟩ := ih (k + 1) hfuel'
        have hstep : w.sendLoop write (fuel + 1) k b =
            w.sendLoop write fuel (k + 1) (w.trySend b (.ok outcome)).1 := by
          simp only [sendLoop, hq, hw]
          rw [← Prod.mk.eta (p := w.trySend b (.ok outcome)), hgo]
        rw [hstep, ih₁, ih₂, hqueue, hwritten, List.takeWhile_cons_of_pos hv,
          List.dropWhile_cons_of_pos hv, List.append_assoc]
        exact ⟨rfl, rfl⟩
      · obtain ⟨e, hw⟩ := herr k msg (Bool.eq_false_iff.2 hv)
        obtain ⟨hstop, hqueue, hwritten⟩ := w.trySend_error b e
        have hstep : w.sendLoop write (fuel + 1) k b = (w.trySend b (.error e)).1 := by
          simp only [sendLoop, hq, hw]
          rw [← Prod.mk.eta (p := w.trySend b (.error e)), hstop]
        rw [hstep, hqueue, hwritten, List.takeWhile_cons_of_neg hv, List.dropWhile_cons_of_neg hv,
          List.append_nil, hq]
        exact ⟨rfl, rfl⟩

end Worker

/-! ### A ring that takes every message of an allowed length -/

/-- The writes of a pass over a connected endpoint; `ends k` is the ring to the peer as the `k`-th
write finds it, since the peer reads in between. -/
def writes (ends : ℕ → Direction) (setOk : ℕ → Bool) (k : ℕ) (payload : Payload) :
    Except ShmError WriteOutcome :=
  ((ends k).send true (setOk k) payload).1

/-- A pass over `b` writes every message of an allowed length, in order, and no other message is
left at the head. -/
def Delivers (w : Worker) (ends : ℕ → Direction) (setOk : ℕ → Bool) (b : Outbox Payload) : Prop :=
  (w.sendPass (writes ends setOk) b).written =
      b.written ++ b.queue.filter (fun msg => msg.Valid) ∧
    ∀ msg, (w.sendPass (writes ends setOk) b).queue.head? = some msg → msg.Valid

section

variable (w : Worker) {ends : ℕ → Direction} (setOk : ℕ → Bool) (b : Outbox Payload)

theorem sendPass_spec (hends : ∀ k, (ends k).Accepts) :
    (w.sendPass (writes ends setOk) b).written =
        b.written ++ b.queue.takeWhile (fun msg => msg.Valid) ∧
      (w.sendPass (writes ends setOk) b).queue = b.queue.dropWhile (fun msg => msg.Valid) := by
  refine w.sendLoop_spec (fun k msg hv => ?_) (fun k msg hv => ?_) 0 (Nat.le_refl _)
  · exact Direction.send_of_valid (hends k) (of_decide_eq_true hv)
  · unfold writes
    rw [Direction.send_of_not_valid (of_decide_eq_false hv)]
    exact ⟨_, rfl⟩

/-- **A message of another length at the head blocks the queue**, on every pass. -/
theorem sendPass_blocked (hends : ∀ k, (ends k).Accepts) {msg : Payload} {queue : List Payload}
    (hq : b.queue = msg :: queue) (hmsg : ¬ msg.Valid) :
    (w.sendPass (writes ends setOk) b).queue = b.queue ∧
      (w.sendPass (writes ends setOk) b).written = b.written := by
  obtain ⟨hwritten, hqueue⟩ := sendPass_spec w setOk b hends
  have hneg : decide msg.Valid = false := decide_eq_false hmsg
  rw [hwritten, hqueue, hq, List.takeWhile_cons, List.dropWhile_cons]
  simp only [hneg, Bool.false_eq_true, ↓reduceIte, List.append_nil, and_self]

end

/-- **The send queue is not poisoned** exactly when every queued message has an allowed length. -/
theorem delivers_iff (w : Worker) (ends : ℕ → Direction) (setOk : ℕ → Bool) (b : Outbox Payload)
    (hends : ∀ k, (ends k).Accepts) : Delivers w ends setOk b ↔ ∀ msg ∈ b.queue, msg.Valid := by
  obtain ⟨hwritten, hqueue⟩ := sendPass_spec w setOk b hends
  unfold Delivers
  rw [hwritten, hqueue]
  constructor
  · rintro ⟨-, hhead⟩
    have hnil : b.queue.dropWhile (fun msg => decide msg.Valid) = [] := by
      cases hd : b.queue.dropWhile (fun msg => decide msg.Valid) with
      | nil => rfl
      | cons msg queue =>
        have hv := hhead msg (by rw [hd]; rfl)
        have := List.head?_dropWhile_not (fun msg : Payload => decide msg.Valid) b.queue
        simp [hd, hv] at this
    intro msg hmsg
    exact of_decide_eq_true (List.dropWhile_eq_nil_iff.1 hnil msg hmsg)
  · intro hall
    have hall' : ∀ msg ∈ b.queue, decide msg.Valid = true := fun msg h =>
      decide_eq_true (hall msg h)
    rw [List.dropWhile_eq_nil_iff.2 hall', List.filter_eq_self.2 hall',
      List.takeWhile_eq_self_iff.2 hall']
    exact ⟨rfl, by rintro msg ⟨⟩⟩

theorem delivers_iff_threeMessages : Delivers .autoClient (fun _ => freshDirection) (fun _ => true)
    { queue := [[1, 2], [3, 4, 5], [6, 7]] } :=
  (delivers_iff _ _ _ _ fun _ => Direction.accepts_of_represents (represents_reset _ _)).2
    (by decide)

/-- One byte before two: the two bytes are never written. -/
theorem not_delivers : ¬ ∀ (w : Worker) (ends : ℕ → Direction) (setOk : ℕ → Bool)
    (b : Outbox Payload), (∀ k, (ends k).Accepts) → Delivers w ends setOk b := by
  intro h
  have hends : ∀ _ : ℕ, freshDirection.Accepts := fun _ =>
    Direction.accepts_of_represents (represents_reset _ _)
  have hd := h .autoServer (fun _ => freshDirection) (fun _ => true)
    { queue := [[1], [1, 2]] } hends
  obtain ⟨hqueue, hwritten⟩ := sendPass_blocked .autoServer (fun _ => true)
    { queue := [[1], [1, 2]] } hends rfl (by decide)
  rw [Delivers, hwritten] at hd
  exact absurd hd.1 (by decide)

end Sending

end Xshm
