import Xshm.Sending.Outbox
import Xshm.System.History

/-!
# The workers and their commands

The loops of `server_worker` and `client_worker` of `auto/mod.rs` and of `client_worker` of
`multi/mod.rs`, as far as the commands of the application and the send queue go.  Everything else
is left to the label of a step: whether a client comes, a slot is free and a connection is made,
what a write returns, how the receiving pass ends and whether `wait_any` ends the session.  The
application calls `send` and `stop` and drops the handle at any moment.

The send queue of `MultiClient` belongs to one session and is dropped at the end of the pass through
the outer loop in which the session was.
-/

namespace Xshm

namespace Sending

/-- A message; `serial` is a record that tells equal messages apart. -/
structure Sent where
  serial : ℕ
  data : Payload
  deriving DecidableEq

/-- `WorkerCommand` and `ClientCommand`. -/
inductive Command where
  | send (msg : Sent)
  | shutdown
  deriving DecidableEq

/-- The message of a command. -/
def Command.msg? : Command → Option Sent
  | .send msg => some msg
  | .shutdown => none

/-- Program points of the workers. -/
inductive Point where
  /-- The head of the outer loop, with the local `connected` of `server_worker`. -/
  | head (connected : Bool)
  /-- `wait_for_client`. -/
  | waiting
  /-- `claim_free_slot`. -/
  | claiming
  /-- `SharedClient::connect`. -/
  | connecting
  /-- The head of the loop of a session. -/
  | session
  /-- `drain_commands`; without a connection the pass ends after it. -/
  | draining (connected : Bool)
  | sending
  | receiving
  | waitingAny
  /-- `wait_delay`. -/
  | delaying
  | ended
  deriving DecidableEq

/-- The outcome of what a worker does next. -/
inductive Outcome where
  /-- There is a client, a slot, a connection. -/
  | succeeded
  /-- There is none, for whatever reason. -/
  | failed
  | wrote (result : Except ShmError WriteOutcome)
  /-- The receiving pass has emptied the ring, or stopped for an error that is not fatal. -/
  | drained
  /-- The receiving pass has reached its limit. -/
  | morePending
  /-- The receiving pass has found the ring corrupted. -/
  | fatal
  /-- `wait_any` ends; `gone` says that the session does too. -/
  | waited (gone : Bool)

/-- A worker, its commands and its send queue. -/
structure State where
  point : Point := .head false
  running : Bool := true
  channel : List Command := []
  box : Outbox Sent := {}
  /-- Record: the messages for which `send` has returned `Ok`. -/
  accepted : List Sent := []
  deriving DecidableEq

/-- Who moves. -/
inductive Label where
  /-- The application's `send` puts a message into the channel. -/
  | send (data : Payload)
  /-- The application's `stop`, and the end of its `drop`, put `Shutdown` into the channel. -/
  | stop
  /-- The application's `drop` clears `running`. -/
  | drop
  | worker (o : Outcome)

namespace State

variable (w : Worker) (maxSendQueue : ℕ) (s : State)

/-- The pass through the outer loop is over: the queue of a session of `MultiClient` is dropped. -/
def endPass : State :=
  match w with
  | .autoServer | .autoClient => s
  | .multiClient => { s with box := { s.box with queue := [] } }

/-- The session is over. -/
def leave : State :=
  match w with
  | .autoServer => { s with point := .head false }
  | .autoClient | .multiClient => { s with point := .delaying }

/-- The session goes on. -/
def stay : State :=
  match w with
  | .autoServer => { s with point := .head true }
  | .autoClient | .multiClient => { s with point := .session }

/-- The next step of the worker. -/
def workerStep (o : Outcome) : Option State :=
  match s.point with
  | .head connected =>
    if s.running = false then some { s with point := .ended }
    else
      match w with
      | .autoServer => some { s with point := if connected then .draining true else .waiting }
      | .autoClient => some { s with point := .connecting }
      | .multiClient => some { s with point := .claiming }
  | .waiting =>
    match o with
    | .succeeded => some { s with point := .draining true }
    | .failed => some { s with point := .draining false }
    | _ => none
  | .claiming =>
    match o with
    | .succeeded => some { s with point := .connecting }
    | .failed => some { s with point := .delaying }
    | _ => none
  | .connecting =>
    match o with
    | .succeeded => some { s with point := .session }
    | .failed => some { s with point := .delaying }
    | _ => none
  | .session =>
    if s.running = false then some { s with point := .delaying }
    else some { s with point := .draining true }
  | .draining connected =>
    match s.channel with
    | [] => some { s with point := if connected then .sending else .head false }
    | .send msg :: channel =>
      some { s with channel := channel, box := w.push maxSendQueue s.box msg }
    | .shutdown :: channel => some { s with channel := channel, running := false }
  | .sending =>
    match s.box.queue, o with
    | [], _ => some { s with point := .receiving }
    | _ :: _, .wrote result =>
      some { s with
        box := (w.trySend s.box result).1
        point := if (w.trySend s.box result).2 then .sending else .receiving }
    | _ :: _, _ => none
  | .receiving =>
    match o with
    | .drained => some { s with point := .waitingAny }
    | .morePending => if w = .multiClient then none else some (s.stay w)
    | .fatal => if w = .multiClient then none else some (s.leave w)
    | _ => none
  | .waitingAny =>
    match o with
    | .waited gone => some (if gone then s.leave w else s.stay w)
    | _ => none
  | .delaying =>
    some { s.endPass w with point := if s.running then .head false else .ended }
  | .ended => none

end State

/-- A worker with its application. -/
def system (w : Worker) (maxSendQueue : ℕ) : System State Label where
  init s := s = {}
  step s
    | .send data =>
      -- the receiver of the channel is dropped when the worker ends
      if s.point = .ended then none
      else
        some { s with
          channel := s.channel ++ [.send ⟨s.accepted.length, data⟩]
          accepted := s.accepted ++ [⟨s.accepted.length, data⟩] }
    | .stop =>
      if s.point = .ended then none else some { s with channel := s.channel ++ [.shutdown] }
    | .drop => some { s with running := false }
    | .worker o => s.workerStep w maxSendQueue o

/-! ### What a step of the worker does -/

/-- At this point the worker has drained the channel in the present pass, or the pass is over. -/
def Point.taken : Point → Bool
  | .head _ | .sending | .receiving | .waitingAny | .delaying | .ended => true
  | .waiting | .claiming | .connecting | .session | .draining _ => false

/-- The step leads to the end of the pass although the channel may not have been drained in it: no
slot is free or no connection is made, or `running` is found cleared at the head of the loop of a
session. -/
def State.givesUp (s : State) : Label → Bool
  | .worker o =>
    match s.point, o with
    | .claiming, .failed | .connecting, .failed => true
    | .session, _ => !s.running
    | _, _ => false
  | _ => false

/-- The steps of the worker from `s`. -/
inductive WorkerMove (w : Worker) (maxSendQueue : ℕ) (s : State) (o : Outcome) : State → Prop
  | take {connected : Bool} {msg : Sent} {channel : List Command} :
    s.point = .draining connected → s.channel = .send msg :: channel →
    WorkerMove w maxSendQueue s o
      { s with channel := channel, box := w.push maxSendQueue s.box msg }
  | shutdown {connected : Bool} {channel : List Command} : s.point = .draining connected →
    s.channel = .shutdown :: channel →
    WorkerMove w maxSendQueue s o { s with channel := channel, running := false }
  | trySend {msg : Sent} {queue : List Sent} {result : Except ShmError WriteOutcome} :
    s.point = .sending → s.box.queue = msg :: queue →
    WorkerMove w maxSendQueue s o { s with
      box := (w.trySend s.box result).1
      point := if (w.trySend s.box result).2 then .sending else .receiving }
  | endPass : s.point = .delaying →
    WorkerMove w maxSendQueue s o
      { s.endPass w with point := if s.running then .head false else .ended }
  /-- Only the program point changes. -/
  | goto {p : Point} (hended : p = .ended → s.running = false)
    (hhead : ∀ connected, s.point = .head connected → s.running = true → p.taken = false)
    (htaken : p.taken = true →
      s.point.taken = true ∨ s.channel = [] ∨ s.givesUp (.worker o) = true)
    (hdrain : ∀ connected, s.point = .draining connected → s.channel = []) :
    s.point ≠ .delaying → WorkerMove w maxSendQueue s o { s with point := p }

section Moves

variable {w : Worker} {maxSendQueue : ℕ} {s s' : State} {o : Outcome}

/-- A step whose program point follows one at which the channel has been drained. -/
theorem WorkerMove.after {p : Point} (hs : s.point.taken = true) (hp : p ≠ .ended)
    (hhead : ∀ connected, s.point ≠ .head connected) (hd : s.point ≠ .delaying) :
    WorkerMove w maxSendQueue s o { s with point := p } :=
  .goto (fun h => absurd h hp) (fun connected h => absurd h (hhead connected)) (fun _ => .inl hs)
    (fun connected h => by rw [h] at hs; cases hs) hd

/-- A step to a point before the channel has been drained. -/
theorem WorkerMove.before {p : Point} (hp : p.taken = false)
    (hdrain : ∀ connected, s.point ≠ .draining connected) (hd : s.point ≠ .delaying) :
    WorkerMove w maxSendQueue s o { s with point := p } := by
  refine .goto (fun h => ?_) (fun _ _ _ => hp) (fun h => ?_)
    (fun connected h => absurd h (hdrain connected)) hd
  · rw [h] at hp
    cases hp
  · rw [hp] at h
    cases h

/-- **The steps of the worker.** -/
theorem workerStep_cases (h : s.workerStep w maxSendQueue o = some s') :
    WorkerMove w maxSendQueue s o s' := by
  obtain ⟨point, running, channel, box, accepted⟩ := s
  unfold State.workerStep at h
  cases point with
  | head connected =>
    cases running with
    | false =>
      cases h
      exact .goto (fun _ => rfl) (fun _ _ ht => by cases ht) (fun _ => .inl rfl)
        (fun _ => by rintro ⟨⟩) (by rintro ⟨⟩)
    | true =>
      cases w <;> cases h
      · refine .before ?_ (fun _ => by rintro ⟨⟩) (by rintro ⟨⟩)
        cases connected <;> rfl
      all_goals exact .before rfl (fun _ => by rintro ⟨⟩) (by rintro ⟨⟩)
  | waiting =>
    cases o <;> cases h
    all_goals exact .before rfl (fun _ => by rintro ⟨⟩) (by rintro ⟨⟩)
  | claiming | connecting =>
    cases o <;> cases h
    · exact .before rfl (fun _ => by rintro ⟨⟩) (by rintro ⟨⟩)
    · exact .goto (by rintro ⟨⟩) (fun _ => by rintro ⟨⟩) (fun _ => .inr (.inr rfl))
        (fun _ => by rintro ⟨⟩) (by rintro ⟨⟩)
  | session =>
    cases running with
    | false =>
      cases h
      exact .goto (by rintro ⟨⟩) (fun _ => by rintro ⟨⟩) (fun _ => .inr (.inr rfl))
        (fun _ => by rintro ⟨⟩) (by rintro ⟨⟩)
    | true =>
      cases h
      exact .before rfl (fun _ => by rintro ⟨⟩) (by rintro ⟨⟩)
  | draining connected =>
    cases channel with
    | nil =>
      cases h
      refine .goto ?_ (fun _ => by rintro ⟨⟩) (fun _ => .inr (.inl rfl)) (fun _ _ => rfl)
        (by rintro ⟨⟩)
      cases connected <;> rintro ⟨⟩
    | cons c channel =>
      cases c with
      | send msg =>
        cases h
        exact .take rfl rfl
      | shutdown =>
        cases h
        exact .shutdown rfl rfl
  | sending =>
    obtain ⟨queue, n, m, calls, written, evicted, k⟩ := box
    cases queue with
    | nil =>
      cases h
      exact .after rfl (by rintro ⟨⟩) (fun _ => by rintro ⟨⟩) (by rintro ⟨⟩)
    | cons msg queue =>
      cases o <;> cases h
      exact .trySend rfl rfl
  | receiving =>
    cases o with
    | drained =>
      cases h
      exact .after rfl (by rintro ⟨⟩) (fun _ => by rintro ⟨⟩) (by rintro ⟨⟩)
    | morePending | fatal =>
      cases w <;> cases h
      all_goals exact .after rfl (by rintro ⟨⟩) (fun _ => by rintro ⟨⟩) (by rintro ⟨⟩)
    | _ => cases h
  | waitingAny =>
    cases o with
    | waited gone =>
      cases h
      cases gone <;> cases w
      all_goals exact .after rfl (by rintro ⟨⟩) (fun _ => by rintro ⟨⟩) (by rintro ⟨⟩)
    | _ => cases h
  | delaying =>
    cases h
    exact .endPass rfl
  | ended => cases h

end Moves

end Sending

end Xshm
