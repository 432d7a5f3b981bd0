import Xshm.Auto.Receiving
import Xshm.Auto.Wakeup
import Xshm.Sending.Worker
import Xshm.System.Budget

/-!
# What a handler of auto-mode is told

The workers of `AutoServer` and `AutoClient` with the calls of their `AutoHandler`.  What they get
from the endpoint is left open: whether there is a client, what each write and each read returns and
how `wait_any` ends.

## Main results

* `Handler.contract` : `on_connect` and `on_disconnect` alternate, beginning with `on_connect`,
  everything but `on_error` is called between the two, every call names the direction it is about,
  and the statistics agree with the calls.
* `Handler.ends` : a worker whose `AutoServer` or `AutoClient` is dropped ends after so many steps.
-/

namespace Xshm

namespace Handler

open Wakeup (Side)

/-- `ChannelKind`. -/
inductive ChannelKind where
  | serverToClient
  | clientToServer
  deriving DecidableEq

/-- The calls of an `AutoHandler`. -/
inductive Call where
  | onConnect
  | onDisconnect
  | onMessage (direction : ChannelKind) (payload : Payload)
  | onOverflow (direction : ChannelKind) (count : UInt32)
  | onSpaceAvailable (direction : ChannelKind)
  | onError (err : ShmError)
  deriving DecidableEq

/-- The worker of a side. -/
def worker : Side → Sending.Worker
  | .server => .autoServer
  | .client => .autoClient

/-- The direction in which a side sends. -/
def sends : Side → ChannelKind
  | .server => .serverToClient
  | .client => .clientToServer

/-- The direction in which a side receives. -/
def receives : Side → ChannelKind
  | .server => .clientToServer
  | .client => .serverToClient

/-- What a worker gets from its endpoint. -/
inductive Answer where
  /-- Of `wait_for_client`, and of `SharedClient::connect`. -/
  | connected (res : Except ShmError Unit)
  | wrote (res : Except ShmError WriteOutcome)
  /-- The results of the reads of a receiving pass; after these the ring is empty. -/
  | reads (results : List (Except ShmError Payload))
  /-- Of `wait_any`: the handles are `disconnect`, `data` and `space` of the other ring. -/
  | waited (res : Except ShmError (Option ℕ))

/-- What a receiving pass has done. -/
structure Received where
  outcome : Receiving.Outcome
  /-- What it adds to `AutoStats.received_messages`. -/
  messages : UInt64 := 0
  calls : List Call := []

/-- The loop of `process_receive_queue` with `left` reads to go. -/
def receiveLoop (direction : ChannelKind) : ℕ → List (Except ShmError Payload) → Received
  | 0, _ => { outcome := ⟨false, true⟩ }
  | _ + 1, [] => { outcome := ⟨false, false⟩ }
  | left + 1, .ok payload :: results =>
    let r := receiveLoop direction left results
    { r with messages := r.messages + 1, calls := .onMessage direction payload :: r.calls }
  | _ + 1, .error e :: _ =>
    match e with
    | .queueEmpty | .notConnected | .notReady | .timeout => { outcome := ⟨false, false⟩ }
    | .corrupted => { outcome := ⟨true, false⟩, calls := [.onError .corrupted] }
    | e => { outcome := ⟨false, false⟩, calls := [.onError e] }

/-- `process_receive_queue`. -/
def processReceiveQueue (side : Side) (batch : ℕ) (results : List (Except ShmError Payload)) :
    Received :=
  receiveLoop (receives side) (max batch 1) results

/-- What an answer means for the worker. -/
def Answer.outcome (side : Side) (batch : ℕ) : Answer → Sending.Outcome
  | .connected (.ok _) => .succeeded
  | .connected (.error _) => .failed
  | .wrote res => .wrote res
  | .reads results =>
    let o := (processReceiveQueue side batch results).outcome
    if o.fatal then .fatal else if o.morePending then .morePending else .drained
  | .waited (.ok res) => .waited (res = some 0)
  | .waited (.error _) => .waited true

/-- A call of the sending pass. -/
def ofSendCall (side : Side) : Sending.SendCall → Call
  | .onOverflow count => .onOverflow (sends side) count
  | .onError e => .onError e

/-- The calls of the worker at its next step. -/
def calls (side : Side) (batch : ℕ) (s : Sending.State) (a : Answer) : List Call :=
  match s.point, a with
  | .waiting, .connected (.error .timeout) => []
  | .waiting, .connected (.error e) | .connecting, .connected (.error e) => [.onError e]
  | .waiting, .connected (.ok _) | .connecting, .connected (.ok _) => [.onConnect]
  | .sending, .wrote res =>
    (((worker side).trySend s.box res).1.calls.drop s.box.calls.length).map (ofSendCall side)
  | .receiving, .reads results =>
    let r := processReceiveQueue side batch results
    r.calls ++ if r.outcome.fatal then [.onDisconnect] else []
  | .waitingAny, .waited (.ok (some 0)) => [.onDisconnect]
  | .waitingAny, .waited (.ok (some 2)) => [.onSpaceAvailable (sends side)]
  | .waitingAny, .waited (.error e) => [.onError e, .onDisconnect]
  | _, _ => []

/-- What the next step adds to `AutoStats.received_messages`. -/
def received (side : Side) (batch : ℕ) (s : Sending.State) (a : Answer) : UInt64 :=
  match s.point, a with
  | .receiving, .reads results => (processReceiveQueue side batch results).messages
  | _, _ => 0

/-- A worker with its application and its handler. -/
structure State where
  worker : Sending.State := {}
  /-- `AutoStats.received_messages`. -/
  receivedMessages : UInt64 := 0
  /-- Record: the calls of the handler. -/
  calls : List Call := []

/-- Who moves. -/
inductive Label where
  | send (data : Payload)
  | stop
  | drop
  | worker (a : Answer)

/-- A worker with its application and its handler. -/
def system (side : Side) (maxSendQueue batch : ℕ) : System State Label where
  init s := s = {}
  step s l :=
    let step := (Sending.system (worker side) maxSendQueue).step s.worker
    match l with
    | .send data => (step (.send data)).map fun w => { s with worker := w }
    | .stop => (step .stop).map fun w => { s with worker := w }
    | .drop => (step .drop).map fun w => { s with worker := w }
    | .worker a => (step (.worker (a.outcome side batch))).map fun w =>
      { worker := w
        receivedMessages := s.receivedMessages + received side batch s.worker a
        calls := s.calls ++ calls side batch s.worker a }

/-! ### The contract -/

/-- A call while a session is on (`open`) or not, and whether one is on after it; `none` if the call
is out of place. -/
def Call.follows : Bool → Call → Option Bool
  | false, .onConnect => some true
  | true, .onDisconnect => some false
  | true, .onMessage _ _ | true, .onOverflow _ _ | true, .onSpaceAvailable _ => some true
  | on, .onError _ => some on
  | _, _ => none

/-- The call names the direction that it is about. -/
def Call.Directed (side : Side) : Call → Prop
  | .onMessage direction _ => direction = receives side
  | .onOverflow direction _ | .onSpaceAvailable direction => direction = sends side
  | _ => True

/-- The messages that a call reports as received. -/
def Call.messages : Call → UInt64
  | .onMessage _ _ => 1
  | _ => 0

/-- The messages that a call reports as dropped. -/
def Call.overflows : Call → UInt64
  | .onOverflow _ count => count.toUInt64
  | _ => 0

/-- What a handler may rely on. -/
structure Contract (side : Side) (s : State) : Prop where
  sessions : (s.calls.foldlM Call.follows false).isSome
  directed : ∀ c ∈ s.calls, c.Directed side
  received : s.receivedMessages = (s.calls.map Call.messages).sum
  overflows : s.worker.box.sendOverflows = (s.calls.map Call.overflows).sum

section Passes

variable {side : Side} {direction : ChannelKind}

/-- A receiving pass in a session calls the handler in the session, about the right direction, and
counts what it calls for. -/
theorem receiveLoop_spec (direction : ChannelKind) (left : ℕ)
    (results : List (Except ShmError Payload)) : let r := receiveLoop direction left results
    r.calls.foldlM Call.follows true = some true ∧
      (∀ c ∈ r.calls, (∃ payload, c = .onMessage direction payload) ∨ ∃ e, c = .onError e) ∧
      r.messages = (r.calls.map Call.messages).sum ∧ (r.calls.map Call.overflows).sum = 0 := by
  induction left generalizing results with
  | zero => exact ⟨rfl, by simp [receiveLoop], rfl, rfl⟩
  | succ left ih =>
    match results with
    | [] => exact ⟨rfl, by simp [receiveLoop], rfl, rfl⟩
    | .ok payload :: results =>
      obtain ⟨hfollows, hcalls, hmessages, hoverflows⟩ := ih results
      refine ⟨hfollows, fun c hc => ?_, ?_, ?_⟩
      · rcases List.mem_cons.1 hc with rfl | hc
        · exact .inl ⟨payload, rfl⟩
        · exact hcalls c hc
      · simp only [receiveLoop, hmessages, List.map_cons, List.sum_cons, Call.messages,
          UInt64.add_comm]
      · simpa only [receiveLoop, List.map_cons, List.sum_cons, Call.overflows, UInt64.zero_add]
          using hoverflows
    | .error e :: _ => cases e <;> exact ⟨rfl, by simp [receiveLoop], rfl, rfl⟩

/-- A call of a receiving pass. -/
def ofReceivingCall (direction : ChannelKind) : Receiving.Call → Call
  | .onMessage payload => .onMessage direction payload
  | .onError e => .onError e

/-- A receiving pass over a ring is a pass with the results of its reads. -/
theorem exists_receiveLoop (direction : ChannelKind) (connected : Bool) (setOk : ℕ → Bool)
    (left : ℕ) (b : Receiving.Inbox) : ∃ results,
    let r := receiveLoop direction left results
    let p := Receiving.receiveLoop connected setOk left b
    r.outcome = p.1 ∧ p.2.receivedMessages = b.receivedMessages + r.messages ∧
      p.2.calls.map (ofReceivingCall direction) =
        b.calls.map (ofReceivingCall direction) ++ r.calls := by
  induction left generalizing b with
  | zero => exact ⟨[], rfl, (UInt64.add_zero _).symm, (List.append_nil _).symm⟩
  | succ left ih =>
    rcases hres : b.link.receive connected (setOk left) b.buffer with ⟨e | len, link, buffer⟩
    · refine ⟨[.error e], ?_⟩
      cases e <;> simp [receiveLoop, Receiving.receiveLoop, hres, ofReceivingCall]
    · obtain ⟨results, houtcome, hmessages, hcalls⟩ := ih (b.onMessage link buffer len)
      refine ⟨.ok (buffer.take len) :: results, ?_⟩
      simp only [receiveLoop, Receiving.receiveLoop, hres]
      refine ⟨houtcome, ?_, ?_⟩
      · have hone : (b.onMessage link buffer len).receivedMessages = b.receivedMessages + 1 := rfl
        rw [hmessages, hone, UInt64.add_assoc, UInt64.add_comm 1]
      · rw [hcalls, Receiving.Inbox.onMessage, List.map_append, List.append_assoc]
        rfl

/-- A write in a session. -/
theorem trySend_spec (side : Side) (b : Sending.Outbox Sending.Sent)
    (res : Except ShmError WriteOutcome) :
    let b' := ((worker side).trySend b res).1
    let cs := (b'.calls.drop b.calls.length).map (ofSendCall side)
    cs.foldlM Call.follows true = some true ∧ (∀ c ∈ cs, c.Directed side) ∧
      (cs.map Call.messages).sum = 0 ∧
      b'.sendOverflows = b.sendOverflows + (cs.map Call.overflows).sum := by
  have hw : (worker side).trySend b res = b.popAndSend res := by cases side <;> rfl
  rw [hw]
  obtain ⟨queue, n, m, calls, written, evicted, k⟩ := b
  cases queue with
  | nil => simp [Sending.Outbox.popAndSend]
  | cons msg queue =>
    cases res with
    | ok o =>
      by_cases ho : 0 < o.overwritten
      · simp [Sending.Outbox.popAndSend, ho, ofSendCall, Call.Directed, Call.messages,
          Call.overflows, Call.follows]
      · have hzero : o.overwritten = 0 := by
          rw [UInt32.lt_iff_toNat_lt] at ho
          exact UInt32.toNat_inj.1 (Nat.eq_zero_of_not_pos ho)
        simp [Sending.Outbox.popAndSend, hzero]
    | error e =>
      cases e <;> simp [Sending.Outbox.popAndSend, ofSendCall, Call.Directed, Call.messages,
        Call.overflows, Call.follows]

end Passes

/-! ### The steps of the worker -/

/-- Where the worker is while a session is on or not. -/
def SessionOk (side : Side) (on : Bool) (w : Sending.State) : Prop :=
  match w.point with
  | .head connected => on = connected ∧ (on = true → side = .server)
  | .draining connected => on = connected
  | .waiting | .claiming | .connecting => on = false
  | .session | .sending | .receiving | .waitingAny => on = true
  -- a session that `stop` ends has no `on_disconnect`, and there is no other
  | .delaying => on = true → w.running = false
  | .ended => True

/-- The application does not move the worker, and does not start it again. -/
theorem SessionOk.mono {side : Side} {on : Bool} {w w' : Sending.State} (h : SessionOk side on w)
    (hpoint : w'.point = w.point) (hrun : w.running = false → w'.running = false) :
    SessionOk side on w' := by
  unfold SessionOk at h ⊢
  rw [hpoint]
  cases hp : w.point <;> simp only [hp] at h ⊢
  case delaying => exact fun hon => hrun (h hon)
  all_goals exact h

section Leave

variable {side : Side} {w : Sending.State}

theorem worker_ne : worker side ≠ .multiClient := by
  cases side <;> rintro ⟨⟩

theorem sessionOk_leave : SessionOk side false (w.leave (worker side)) := by
  cases side
  · exact ⟨rfl, by rintro ⟨⟩⟩
  · rintro ⟨⟩

theorem sessionOk_stay : SessionOk side true (w.stay (worker side)) := by
  cases side
  · exact ⟨rfl, fun _ => rfl⟩
  · rfl

theorem leave_box : (w.leave (worker side)).box = w.box := by
  cases side <;> rfl

theorem stay_box : (w.stay (worker side)).box = w.box := by
  cases side <;> rfl

end Leave

/-- What a step adds to the calls and to the statistics. -/
structure Tells (side : Side) (on : Bool) (w w' : Sending.State) (cs : List Call)
    (received : UInt64) :
    Prop where
  sessions : ∃ on', cs.foldlM Call.follows on = some on' ∧ SessionOk side on' w'
  directed : ∀ c ∈ cs, c.Directed side
  received : received = (cs.map Call.messages).sum
  overflows : w'.box.sendOverflows = w.box.sendOverflows + (cs.map Call.overflows).sum

/-- A step that calls for nothing. -/
theorem Tells.silent {side : Side} {on : Bool} {w w' : Sending.State} (h : SessionOk side on w')
    (hbox : w'.box.sendOverflows = w.box.sendOverflows) : Tells side on w w' [] 0 :=
  ⟨⟨on, rfl, h⟩, by simp, rfl, by simp [hbox]⟩

section Steps

variable {side : Side} {maxSendQueue batch : ℕ} {on : Bool} {w w' : Sending.State} {a : Answer}

/-- Of `wait_for_client` or of `SharedClient::connect`. -/
theorem outcome_connected (h : a.outcome side batch = .succeeded ∨
    a.outcome side batch = .failed) : ∃ res, a = .connected res := by
  cases a with
  | connected res => exact ⟨res, rfl⟩
  | wrote res => rcases h with h | h <;> cases h
  | reads results =>
    dsimp only [Answer.outcome] at h
    split_ifs at h <;> rcases h with h | h <;> cases h
  | waited res => cases res <;> rcases h with h | h <;> cases h

/-- Of a receiving pass. -/
theorem outcome_reads (h : a.outcome side batch = .fatal ∨
    a.outcome side batch = .morePending ∨ a.outcome side batch = .drained) :
    ∃ results, a = .reads results ∧ (a.outcome side batch = .fatal ↔
      (processReceiveQueue side batch results).outcome.fatal = true) := by
  cases a with
  | connected res => cases res <;> rcases h with h | h | h <;> cases h
  | wrote res => rcases h with h | h | h <;> cases h
  | reads results =>
    refine ⟨results, rfl, ?_⟩
    dsimp only [Answer.outcome]
    split_ifs with h₁ h₂ <;> simp [h₁]
  | waited res => cases res <;> rcases h with h | h | h <;> cases h

/-- Of `wait_any`. -/
theorem outcome_waited {gone : Bool} (h : a.outcome side batch = .waited gone) :
    ∃ res, a = .waited res := by
  cases a with
  | connected res => cases res <;> cases h
  | wrote res => cases h
  | reads results =>
    dsimp only [Answer.outcome] at h
    split_ifs at h
  | waited res => exact ⟨res, rfl⟩

/-- Of a write. -/
theorem outcome_wrote {res : Except ShmError WriteOutcome}
    (h : a.outcome side batch = .wrote res) : a = .wrote res := by
  cases a with
  | connected res => cases res <;> cases h
  | wrote res =>
    cases h
    rfl
  | reads results =>
    dsimp only [Answer.outcome] at h
    split_ifs at h
  | waited res => cases res <;> cases h

/-- There is nothing to send. -/
theorem trySend_nil {b : Sending.Outbox Sending.Sent} (hq : b.queue = [])
    (res : Except ShmError WriteOutcome) : (worker side).trySend b res = (b, false) := by
  cases side <;> simp only [worker, Sending.Worker.trySend, Sending.Outbox.popAndSend, hq]

/-- Taking a message from the channel changes no statistics. -/
theorem push_sendOverflows (side : Side) (maxSendQueue : ℕ) (b : Sending.Outbox Sending.Sent)
    (msg : Sending.Sent) :
    ((worker side).push maxSendQueue b msg).sendOverflows = b.sendOverflows := by
  have hw : (worker side).push maxSendQueue b msg = b.push maxSendQueue msg := by
    cases side <;> rfl
  rw [hw, Sending.Outbox.push]
  split_ifs <;> rfl

/-- A receiving pass. -/
theorem tells_reads {results : List (Except ShmError Payload)} {fatal : Bool}
    (hfatal : (processReceiveQueue side batch results).outcome.fatal = fatal)
    (h : SessionOk side (!fatal) w') (hbox : w'.box.sendOverflows = w.box.sendOverflows) :
    Tells side true w w' ((processReceiveQueue side batch results).calls ++
        if (processReceiveQueue side batch results).outcome.fatal then [.onDisconnect] else [])
      (processReceiveQueue side batch results).messages := by
  obtain ⟨hfollows, hcalls, hmessages, hoverflows⟩ :=
    receiveLoop_spec (receives side) (max batch 1) results
  rw [← processReceiveQueue] at hfollows hcalls hmessages hoverflows
  have hdirected : ∀ c ∈ (processReceiveQueue side batch results).calls, c.Directed side := by
    intro c hc
    rcases hcalls c hc with ⟨payload, rfl⟩ | ⟨e, rfl⟩
    · exact rfl
    · trivial
  rw [hfatal]
  cases fatal with
  | false =>
    rw [if_neg Bool.false_ne_true, List.append_nil]
    exact ⟨⟨true, hfollows, h⟩, hdirected, hmessages, by
      rw [hbox, hoverflows, UInt64.add_zero]⟩
  | true =>
    rw [if_pos rfl]
    refine ⟨⟨false, ?_, h⟩, fun c hc => ?_, ?_, ?_⟩
    · rw [List.foldlM_append, hfollows]
      rfl
    · rcases List.mem_append.1 hc with hc | hc
      · exact hdirected c hc
      · rw [List.mem_singleton.1 hc]
        trivial
    · simpa [Call.messages] using hmessages
    · simpa [Call.overflows, hbox] using hoverflows

/-- `wait_any` ends. -/
theorem tells_waited (hpoint : w.point = .waitingAny) {res : Except ShmError (Option ℕ)}
    {gone : Bool} (ho : (Answer.waited res).outcome side batch = .waited gone) :
    Tells side true w (if gone then w.leave (worker side) else w.stay (worker side))
      (calls side batch w (.waited res)) (received side batch w (.waited res)) := by
  obtain ⟨point, running, channel, box, accepted⟩ := w
  cases hpoint
  rcases res with e | k
  · cases ho
    exact ⟨⟨false, rfl, sessionOk_leave⟩, by simp [calls, Call.Directed], rfl, by
      rw [if_pos rfl, leave_box]
      simp [calls, Call.overflows]⟩
  · cases ho
    by_cases hk : k = some 0
    · subst hk
      exact ⟨⟨false, rfl, sessionOk_leave⟩, by simp [calls, Call.Directed], rfl, by
        rw [if_pos (decide_eq_true rfl), leave_box]
        simp [calls, Call.overflows]⟩
    · rw [decide_eq_false hk, if_neg Bool.false_ne_true]
      rcases k with _ | _ | _ | _ | k
      · exact .silent sessionOk_stay (by rw [stay_box])
      · exact absurd rfl hk
      · exact .silent sessionOk_stay (by rw [stay_box])
      · refine ⟨⟨true, rfl, sessionOk_stay⟩, by simp [calls, Call.Directed], rfl, ?_⟩
        rw [stay_box]
        simp [calls, Call.overflows]
      · exact .silent sessionOk_stay (by rw [stay_box])

/-- After a write the session goes on. -/
theorem sessionOk_sent (go : Bool) {running : Bool} {channel : List Sending.Command}
    {box : Sending.Outbox Sending.Sent} {accepted : List Sending.Sent} : SessionOk side true
      ⟨if go then .sending else .receiving, running, channel, box, accepted⟩ := by
  cases go <;> rfl

theorem tells_worker (h : SessionOk side on w)
    (hst : w.workerStep (worker side) maxSendQueue (a.outcome side batch) = some w') :
    Tells side on w w' (calls side batch w a) (received side batch w a) := by
  obtain ⟨point, running, channel, box, accepted⟩ := w
  unfold Sending.State.workerStep at hst
  cases point with
  | head connected =>
    obtain ⟨rfl, hside⟩ := h
    cases running with
    | false =>
      cases hst
      exact .silent trivial rfl
    | true =>
      cases side <;> cases hst
      · cases on <;> exact .silent rfl rfl
      · refine .silent ?_ rfl
        cases on with
        | false => rfl
        | true => cases hside rfl
  | waiting =>
    cases h
    cases ho : a.outcome side batch <;> simp only [ho] at hst <;> cases hst
    · obtain ⟨res, rfl⟩ := outcome_connected (.inl ho)
      cases res with
      | ok u =>
        exact ⟨⟨true, rfl, rfl⟩, by simp [calls, Call.Directed], rfl,
          by simp [calls, Call.overflows]⟩
      | error e => cases ho
    · obtain ⟨res, rfl⟩ := outcome_connected (.inr ho)
      cases res with
      | ok u => cases ho
      | error e =>
        cases e <;> exact ⟨⟨false, rfl, rfl⟩, by simp [calls, Call.Directed], rfl,
          by simp [calls, Call.overflows]⟩
  | claiming =>
    cases h
    cases ho : a.outcome side batch <;> simp only [ho] at hst <;> cases hst
    · exact .silent rfl rfl
    · exact .silent (by rintro ⟨⟩) rfl
  | connecting =>
    cases h
    cases ho : a.outcome side batch <;> simp only [ho] at hst <;> cases hst
    · obtain ⟨res, rfl⟩ := outcome_connected (.inl ho)
      cases res with
      | ok u =>
        exact ⟨⟨true, rfl, rfl⟩, by simp [calls, Call.Directed], rfl,
          by simp [calls, Call.overflows]⟩
      | error e => cases ho
    · obtain ⟨res, rfl⟩ := outcome_connected (.inr ho)
      cases res with
      | ok u => cases ho
      | error e =>
        exact ⟨⟨false, rfl, by rintro ⟨⟩⟩, by simp [calls, Call.Directed], rfl,
          by simp [calls, Call.overflows]⟩
  | session =>
    cases running with
    | false =>
      cases hst
      exact .silent (fun _ => rfl) rfl
    | true =>
      cases hst
      exact .silent h rfl
  | draining connected =>
    cases channel with
    | nil =>
      cases hst
      refine .silent ?_ rfl
      cases connected with
      | false => exact ⟨h, by rw [show on = false from h]; rintro ⟨⟩⟩
      | true => exact h
    | cons c channel =>
      cases c with
      | send msg =>
        cases hst
        exact .silent h (push_sendOverflows side maxSendQueue box msg)
      | shutdown =>
        cases hst
        exact .silent h rfl
  | sending =>
    cases h
    cases hq : box.queue with
    | nil =>
      simp only [hq] at hst
      cases hst
      cases a with
      | wrote res =>
        simp only [calls, received, trySend_nil hq, List.drop_length, List.map_nil]
        exact .silent rfl rfl
      | connected res => exact .silent rfl rfl
      | reads results => exact .silent rfl rfl
      | waited res => exact .silent rfl rfl
    | cons msg queue =>
      cases ho : a.outcome side batch <;> simp only [hq, ho] at hst <;> cases hst
      rename_i res
      cases outcome_wrote ho
      obtain ⟨hfollows, hdirected, hmessages, hoverflows⟩ := trySend_spec side box res
      refine ⟨⟨true, hfollows, ?_⟩, hdirected, hmessages.symm, hoverflows⟩
      exact sessionOk_sent _
  | receiving =>
    cases h
    cases ho : a.outcome side batch <;> simp only [ho] at hst
    case drained =>
      cases hst
      obtain ⟨results, rfl, hfatal⟩ := outcome_reads (.inr (.inr ho))
      have hnot := (by simpa [ho] using hfatal :
        (processReceiveQueue side batch results).outcome.fatal = false)
      exact tells_reads hnot rfl rfl
    case morePending =>
      obtain ⟨results, rfl, hfatal⟩ := outcome_reads (.inr (.inl ho))
      have hnot := (by simpa [ho] using hfatal :
        (processReceiveQueue side batch results).outcome.fatal = false)
      rw [if_neg worker_ne] at hst
      cases hst
      exact tells_reads hnot sessionOk_stay (by rw [stay_box])
    case fatal =>
      obtain ⟨results, rfl, hfatal⟩ := outcome_reads (.inl ho)
      have hyes := hfatal.1 ho
      rw [if_neg worker_ne] at hst
      cases hst
      exact tells_reads hyes sessionOk_leave (by rw [leave_box])
    all_goals cases hst
  | waitingAny =>
    cases h
    cases ho : a.outcome side batch <;> simp only [ho] at hst <;> cases hst
    obtain ⟨res, rfl⟩ := outcome_waited ho
    exact tells_waited rfl ho
  | delaying =>
    cases hst
    cases running with
    | false => exact .silent trivial (by cases side <;> rfl)
    | true =>
      have hon : on = false := by
        cases on with
        | false => rfl
        | true => cases h rfl
      subst hon
      exact .silent ⟨rfl, by rintro ⟨⟩⟩ (by cases side <;> rfl)
  | ended => cases hst

end Steps

/-- **What a handler may rely on**: in every run, `on_connect` and `on_disconnect` alternate and all
other calls but `on_error` stand between them, each call names its direction, and the statistics
are what the calls say. -/
theorem contract {side : Side} {maxSendQueue batch : ℕ} {s : State}
    (h : (system side maxSendQueue batch).Reach s) : Contract side s := by
  have hinv : Contract side s ∧
      ∃ on, s.calls.foldlM Call.follows false = some on ∧ SessionOk side on s.worker := by
    refine h.invariant (I := fun s => Contract side s ∧
      ∃ on, s.calls.foldlM Call.follows false = some on ∧ SessionOk side on s.worker) ?_ ?_
    · rintro s rfl
      exact ⟨⟨rfl, by simp, rfl, rfl⟩, false, rfl, rfl, by rintro ⟨⟩⟩
    · rintro s l s' ⟨hc, on, hon, hok⟩ - hst
      cases l with
      | send data | stop =>
        simp only [system, Sending.system] at hst
        split_ifs at hst
        · cases hst
        · cases hst
          exact ⟨⟨hc.sessions, hc.directed, hc.received, hc.overflows⟩, on, hon, hok.mono rfl id⟩
      | drop =>
        cases hst
        exact ⟨⟨hc.sessions, hc.directed, hc.received, hc.overflows⟩, on, hon,
          hok.mono rfl fun _ => rfl⟩
      | worker a =>
        obtain ⟨w, hw, rfl⟩ := Option.map_eq_some_iff.1 hst
        obtain ⟨⟨on', hfollows, hok'⟩, hdirected, hreceived, hoverflows⟩ := tells_worker hok hw
        have hon' : (s.calls ++ calls side batch s.worker a).foldlM Call.follows false =
            some on' := by
          rw [List.foldlM_append, hon]
          exact hfollows
        refine ⟨⟨by rw [hon']; rfl, fun c hm => ?_, ?_, ?_⟩, on', hon', hok'⟩
        · exact (List.mem_append.1 hm).elim (hc.directed c) (hdirected c)
        · rw [List.map_append, List.sum_append, ← hc.received, ← hreceived]
        · rw [List.map_append, List.sum_append, ← hc.overflows, ← hoverflows]
  exact hinv.1

/-- A client comes, sends a message and goes. -/
def oneMessage : List Label :=
  [.worker (.waited (.ok none)), .worker (.connected (.ok ())), .worker (.waited (.ok none)),
    .worker (.waited (.ok none)), .worker (.reads [.ok [1, 2]]), .worker (.waited (.ok (some 0)))]

theorem contract_oneMessage : ∃ s, (system .server 256 32).Reach s ∧
    s.calls = [.onConnect, .onMessage .clientToServer [1, 2], .onDisconnect] ∧
      Contract .server s := by
  have hrun : (((system .server 256 32).run {} oneMessage).map State.calls) =
      some [.onConnect, .onMessage .clientToServer [1, 2], .onDisconnect] := by decide
  obtain ⟨s, hs, hcalls⟩ := Option.map_eq_some_iff.1 hrun
  have hreach := System.Reach.run (.init rfl) hs
  exact ⟨s, hreach, hcalls, contract hreach⟩

/-! ### The end of a worker -/

/-- The steps that a worker has still to make once `running` is cleared, if no command follows. -/
def left (w : Sending.State) : ℕ :=
  match w.point with
  | .ended => 0
  | .head _ | .delaying => 1
  | .session => 2
  | .connecting | .waitingAny => 3
  | .claiming | .receiving => 4
  | .sending => 5 + w.box.queue.length
  -- a command taken may be one more message to send
  | .draining _ => 6 + w.box.queue.length + 2 * w.channel.length
  | .waiting => 7 + w.box.queue.length + 2 * w.channel.length

/-- The steps of the worker. -/
def Label.isWorker : Label → Bool
  | .worker _ => true
  | _ => false

/-- The steps that a command may cost the worker. -/
def Label.costs : Label → ℕ
  | .send _ | .stop => 2
  | .drop | .worker _ => 0

section Ends

variable {side : Side} {maxSendQueue batch : ℕ} {w w' : Sending.State} {o : Sending.Outcome}

theorem left_send (c : Sending.Command) (accepted : List Sending.Sent) :
    left { w with channel := w.channel ++ [c], accepted := accepted } ≤ left w + 2 := by
  unfold left
  cases w.point <;> simp only [List.length_append, List.length_singleton] <;> omega

theorem length_push_queue_le_add (v : Sending.Worker) (maxSendQueue : ℕ)
    (b : Sending.Outbox Sending.Sent) (msg : Sending.Sent) :
    (v.push maxSendQueue b msg).queue.length ≤ b.queue.length + 1 := by
  rw [v.push_queue]
  split_ifs
  · rw [List.length_append, List.length_tail, List.length_singleton]
    omega
  · rw [List.length_append, List.length_singleton]

/-- **Every step of a worker that is to stop** leaves it fewer to make. -/
theorem left_worker (hrun : w.running = false)
    (hst : w.workerStep (worker side) maxSendQueue o = some w') :
    w'.running = false ∧ left w' < left w := by
  obtain ⟨point, running, channel, box, accepted⟩ := w
  cases hrun
  unfold Sending.State.workerStep at hst
  cases point with
  | head connected =>
    cases hst
    exact ⟨rfl, Nat.one_pos⟩
  | waiting =>
    cases o <;> cases hst
    all_goals exact ⟨rfl, by simp only [left]; omega⟩
  | claiming =>
    cases o <;> cases hst
    all_goals exact ⟨rfl, by simp [left]⟩
  | connecting =>
    cases o <;> cases hst
    all_goals exact ⟨rfl, by simp [left]⟩
  | session =>
    cases hst
    exact ⟨rfl, by simp [left]⟩
  | draining connected =>
    cases channel with
    | nil =>
      cases hst
      refine ⟨rfl, ?_⟩
      cases connected <;> simp only [left, if_true, Bool.false_eq_true, if_false] <;> omega
    | cons c channel =>
      cases c with
      | send msg =>
        cases hst
        have := length_push_queue_le_add (worker side) maxSendQueue box msg
        refine ⟨rfl, ?_⟩
        simp only [left, List.length_cons]
        omega
      | shutdown =>
        cases hst
        exact ⟨rfl, by simp [left]⟩
  | sending =>
    cases hq : box.queue with
    | nil =>
      simp only [hq] at hst
      cases hst
      exact ⟨rfl, by simp [left, hq]⟩
    | cons msg queue =>
      cases o <;> simp only [hq] at hst <;> cases hst
      rename_i res
      refine ⟨rfl, ?_⟩
      cases res with
      | ok outcome =>
        obtain ⟨hgo, hqueue, -⟩ := (worker side).trySend_ok hq outcome
        simp only [left, hgo, hqueue, hq, if_true, List.length_cons]
        omega
      | error e =>
        obtain ⟨hstop, -⟩ := (worker side).trySend_error box e
        simp only [left, hstop, Bool.false_eq_true, if_false]
        omega
  | receiving =>
    cases o <;> cases side <;> cases hst
    all_goals exact ⟨rfl, by simp [left, Sending.State.leave, Sending.State.stay, worker]⟩
  | waitingAny =>
    cases o <;> cases hst
    rename_i gone
    cases gone <;> cases side
    all_goals exact ⟨rfl, by simp [left, Sending.State.leave, Sending.State.stay, worker]⟩
  | delaying =>
    cases hst
    cases side <;> exact ⟨rfl, Nat.one_pos⟩
  | ended => cases hst

/-- A worker that has not ended can go on. -/
theorem exists_answer (hpoint : w.point ≠ .ended) :
    ∃ a : Answer, (w.workerStep (worker side) maxSendQueue (a.outcome side batch)).isSome := by
  obtain ⟨point, running, channel, box, accepted⟩ := w
  cases point with
  | head connected =>
    refine ⟨.connected (.ok ()), ?_⟩
    cases running <;> cases side <;> rfl
  | waiting | claiming | connecting => exact ⟨.connected (.ok ()), rfl⟩
  | session =>
    refine ⟨.connected (.ok ()), ?_⟩
    cases running <;> rfl
  | draining connected =>
    refine ⟨.connected (.ok ()), ?_⟩
    rcases channel with _ | ⟨_ | _, channel⟩ <;> rfl
  | sending =>
    refine ⟨.wrote (.error .queueFull), ?_⟩
    obtain ⟨_ | ⟨msg, queue⟩, n, m, calls, written, evicted, k⟩ := box <;> rfl
  | receiving =>
    refine ⟨.reads [], ?_⟩
    obtain ⟨k, hk⟩ : ∃ k, max batch 1 = k + 1 :=
      Nat.exists_eq_succ_of_ne_zero (Nat.pos_iff_ne_zero.1 (le_max_right batch 1))
    have hpass : processReceiveQueue side batch [] = { outcome := ⟨false, false⟩ } := by
      rw [processReceiveQueue, hk, receiveLoop]
    rw [Answer.outcome, hpass]
    rfl
  | waitingAny => exact ⟨.waited (.ok none), rfl⟩
  | delaying => exact ⟨.connected (.ok ()), rfl⟩
  | ended => exact absurd rfl hpoint

end Ends

/-- **A dropped worker ends**: once `drop` has cleared `running`, the worker makes at most `left`
steps, and two more for each command, whatever its endpoint answers; and until it has ended it can
make one. -/
theorem ends {side : Side} {maxSendQueue batch : ℕ} {s s' : State} {ls : List Label}
    (hrun : s.worker.running = false)
    (hr : (system side maxSendQueue batch).run s ls = some s') :
    ls.countP Label.isWorker + left s'.worker ≤ left s.worker + (ls.map Label.costs).sum ∧
      (s'.worker.point ≠ .ended →
        ∃ a, ((system side maxSendQueue batch).step s' (.worker a)).isSome) := by
  have hstep : ∀ s l s', s.worker.running = false →
      (system side maxSendQueue batch).step s l = some s' → s'.worker.running = false ∧
        l.isWorker.toNat + left s'.worker ≤ left s.worker + l.costs := by
    intro s l s' hrun hst
    cases l with
    | send data | stop =>
      simp only [system, Sending.system] at hst
      split_ifs at hst
      · cases hst
      · cases hst
        exact ⟨hrun, (Nat.zero_add _).trans_le (left_send _ _)⟩
    | drop =>
      cases hst
      exact ⟨rfl, Nat.le_of_eq (Nat.zero_add _)⟩
    | worker a =>
      obtain ⟨w, hw, rfl⟩ := Option.map_eq_some_iff.1 hst
      obtain ⟨hrun', hlt⟩ := left_worker hrun hw
      exact ⟨hrun', (Nat.add_comm 1 _).trans_le hlt⟩
  refine ⟨System.countP_add_le_sum hstep hrun hr, fun hpoint => ?_⟩
  obtain ⟨a, ha⟩ := exists_answer hpoint
  exact ⟨a, Option.isSome_map.trans ha⟩

/-- `drop` while a message waits in the channel. -/
theorem ends_oneMessage :
    let s : State := { worker := { running := false, channel := [.send ⟨0, [1, 2]⟩] } }
    let ls := [Label.stop, .worker (.connected (.ok ()))]
    ∃ s', (system .client 256 32).run s ls = some s' ∧
      ls.countP Label.isWorker + left s'.worker ≤ left s.worker + (ls.map Label.costs).sum ∧
        (s'.worker.point ≠ .ended →
          ∃ a, ((system .client 256 32).step s' (.worker a)).isSome) := by
  intro s ls
  exact ⟨_, rfl, @ends .client 256 32 s _ ls rfl rfl⟩

end Handler

end Xshm
