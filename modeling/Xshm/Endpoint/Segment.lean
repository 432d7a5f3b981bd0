import Xshm.Ring.Queue

/-!
# The two ends of a segment

The control block, the handshake words of the two ring headers and the named events of one
segment, and the functions of `server.rs` and `client.rs` that use them, one shared access a
step: `SharedServer::wait_for_client`, `mark_disconnected` and `Drop for SharedServer`,
`SharedClient::connect` and `Drop for SharedClient`.  `magic` and `version` are written once,
before the first client can open the segment, so the two checks on them are left out.

Events are auto-reset: `set` signals, and a wait that succeeds consumes the signal.  A wait is
given its outcome by the label of the step (`WaitOutcome`); it can succeed only on a signalled
event and time out only on one that is not.

A ring is the queue that `Xshm.Ring.Queue` proves it to be; ring `A` carries messages to the client
and ring `B` to the server.
-/

namespace Xshm

/-- How a wait ends. -/
inductive WaitOutcome where
  | signalled
  | timeout
  | failed (e : ShmError)
  deriving DecidableEq

def WaitOutcome.isFailed : WaitOutcome → Bool
  | .failed _ => true
  | _ => false

/-- How `wait_any` ends for a side that has `disconnect` as its first handle. -/
inductive AnyOutcome where
  | disconnect
  /-- Another handle or the timeout. -/
  | other
  | failed
  deriving DecidableEq

/-- A queued payload with a record about the send, which no function looks at. -/
structure Message (R : Type*) where
  payload : Payload
  record : R
  deriving DecidableEq

/-- The limits of a ring, for payloads with records. -/
def messageQueue (R : Type*) : DropOldest (Message R) where
  size m := ringQueue.size m.payload
  capacity := ringQueue.capacity
  maxCount := ringQueue.maxCount

/-- `write_message` on a queue. -/
def pushMessage {R : Type*} (Q : List (Message R)) (m : Message R) : List (Message R) :=
  if m.payload.Valid then (messageQueue R).push Q m else Q

/-- The memory and the events of a segment, with messages of type `A` to the client and of type `B`
to the server. -/
structure Segment (A B : Type*) where
  generation : UInt32 := 1
  serverState : UInt32 := handshakeIdle
  clientState : UInt32 := handshakeIdle
  handshakeA : UInt32 := handshakeIdle
  handshakeB : UInt32 := handshakeIdle
  connectionGenA : UInt32 := 1
  connectionGenB : UInt32 := 1
  ringA : List A := []
  ringB : List B := []
  connectReq : Bool := false
  connectAck : Bool := false
  disconnect : Bool := false
  deriving DecidableEq

/-- What follows a step of a function: its next program point, or its return. -/
inductive Next (P : Type*) where
  | goto (pc : P)
  | done (res : Except ShmError Unit)

/-- Program points of `SharedClient::connect`. -/
inductive Connect where
  | storeClient
  | storeA
  | storeB
  | setReq
  | waitAck
  /-- `client_state` and the two handshake words are reset, then `connect` returns `e`. -/
  | resetClient (e : ShmError)
  | resetA (e : ShmError)
  | resetB (e : ShmError)
  | loadServer
  | loadGeneration
  | storeGenA (generation : UInt32)
  | storeGenB (generation : UInt32)
  | readyA
  | readyB
  deriving DecidableEq

/-- Program points of `SharedServer::wait_for_client`, after its check of `connected`. -/
inductive WaitForClient where
  | waitReq
  | loadClient
  | loadGeneration
  | resetA (generation : UInt32)
  | resetB (generation : UInt32)
  | storeGeneration (generation : UInt32)
  | readyA
  | readyB
  | readyServer
  | readyClient
  | setAck
  deriving DecidableEq

/-- Program points of `mark_disconnected`, after it has cleared `connected`. -/
inductive MarkDisconnected where
  | storeServer
  | storeClient
  | storeA
  | storeB
  deriving DecidableEq

/-- Program points of `Drop for SharedServer`: the stores of `mark_disconnected`, and a signal if
the server is connected. -/
inductive DropServer where
  | store (pc : MarkDisconnected)
  | setDisconnect
  deriving DecidableEq

/-- Program points of `Drop for SharedClient`, if the client is connected. -/
inductive DropClient where
  | storeClient
  | storeA
  | storeB
  | setDisconnect
  deriving DecidableEq

/-- A handshake is in progress: between the reset of the first ring and the signal. -/
def WaitForClient.handshaking : WaitForClient → Bool
  | .waitReq | .loadClient | .loadGeneration | .resetA _ => false
  | _ => true

/-- The step resets the first ring. -/
def WaitForClient.begins : WaitForClient → Bool
  | .resetA _ => true
  | _ => false

/-- The step publishes the generation. -/
def WaitForClient.publishes : WaitForClient → Bool
  | .storeGeneration _ => true
  | _ => false

/-- The step signals `connect_ack`. -/
def WaitForClient.signals : WaitForClient → Bool
  | .setAck => true
  | _ => false

/-- The handshake in progress has reset the rings and published its generation. -/
def WaitForClient.published : WaitForClient → Bool
  | .readyA | .readyB | .readyServer | .readyClient | .setAck => true
  | _ => false

/-- The handshake has stored `SERVER_READY` in `server_state`. -/
def WaitForClient.readied : WaitForClient → Bool
  | .readyClient | .setAck => true
  | _ => false

/-- The step stores `CLIENT_HELLO` in the control block. -/
def Connect.hellos : Connect → Bool
  | .storeClient => true
  | _ => false

/-- The step consumes `connect_ack`. -/
def Connect.acks : Connect → WaitOutcome → Bool
  | .waitAck, .signalled => true
  | _, _ => false

/-- The step loads the generation. -/
def Connect.loads : Connect → Bool
  | .loadGeneration => true
  | _ => false

/-- The client has loaded the generation. -/
def Connect.loaded : Connect → Bool
  | .storeGenA _ | .storeGenB _ | .readyA | .readyB => true
  | _ => false

/-- The client has stored `CLIENT_HELLO` and waits for the answer. -/
def Connect.waiting : Connect → Bool
  | .storeA | .storeB | .setReq | .waitAck => true
  | _ => false

/-- The client has consumed `connect_ack` and is about to look at `server_state`. -/
def Connect.acked : Connect → Bool
  | .loadServer => true
  | _ => false

/-- The client has taken what it saw for the answer to its `CLIENT_HELLO`. -/
def Connect.accepted : Connect → Bool
  | .loadGeneration | .storeGenA _ | .storeGenB _ | .readyA | .readyB => true
  | _ => false

theorem Connect.accepted_of_loaded {pc : Connect} (h : pc.loaded = true) : pc.accepted = true := by
  cases pc with
  | storeGenA | storeGenB | readyA | readyB => rfl
  | _ => cases h

theorem handshakeIdle_ne_serverReady : handshakeIdle ≠ handshakeServerReady := by decide

section Steps

variable {A B : Type*} (seg : Segment A B)

/-- The next access of `SharedClient::connect`. -/
def Connect.step (w : WaitOutcome) : Connect → Option (Segment A B × Next Connect)
  | .storeClient => some ({ seg with clientState := handshakeClientHello }, .goto .storeA)
  | .storeA => some ({ seg with handshakeA := handshakeClientHello }, .goto .storeB)
  | .storeB => some ({ seg with handshakeB := handshakeClientHello }, .goto .setReq)
  | .setReq => some ({ seg with connectReq := true }, .goto .waitAck)
  | .waitAck =>
    match w with
    | .signalled =>
      if seg.connectAck then some ({ seg with connectAck := false }, .goto .loadServer) else none
    | .timeout => if seg.connectAck then none else some (seg, .goto (.resetClient .timeout))
    | .failed e => some (seg, .done (.error e))
  | .resetClient e => some ({ seg with clientState := handshakeIdle }, .goto (.resetA e))
  | .resetA e => some ({ seg with handshakeA := handshakeIdle }, .goto (.resetB e))
  | .resetB e => some ({ seg with handshakeB := handshakeIdle }, .done (.error e))
  | .loadServer =>
    if seg.serverState ≠ handshakeServerReady then
      some (seg, .goto (.resetClient .handshakeFailed))
    else some (seg, .goto .loadGeneration)
  | .loadGeneration => some (seg, .goto (.storeGenA seg.generation))
  | .storeGenA generation =>
    some ({ seg with connectionGenA := generation }, .goto (.storeGenB generation))
  | .storeGenB generation => some ({ seg with connectionGenB := generation }, .goto .readyA)
  | .readyA => some ({ seg with handshakeA := handshakeServerReady }, .goto .readyB)
  | .readyB => some ({ seg with handshakeB := handshakeServerReady }, .done (.ok ()))

/-- The next access of `SharedServer::wait_for_client`. -/
def WaitForClient.step (w : WaitOutcome) : WaitForClient → Option (Segment A B × Next WaitForClient)
  | .waitReq =>
    match w with
    | .signalled =>
      if seg.connectReq then some ({ seg with connectReq := false }, .goto .loadClient) else none
    | .timeout => if seg.connectReq then none else some (seg, .done (.error .timeout))
    | .failed e => some (seg, .done (.error e))
  | .loadClient =>
    if seg.clientState ≠ handshakeClientHello then some (seg, .done (.error .handshakeFailed))
    else some (seg, .goto .loadGeneration)
  | .loadGeneration => some (seg, .goto (.resetA (seg.generation + 1)))
  | .resetA generation =>
    some ({ seg with ringA := [], connectionGenA := generation, handshakeA := handshakeIdle },
      .goto (.resetB generation))
  | .resetB generation =>
    some ({ seg with ringB := [], connectionGenB := generation, handshakeB := handshakeIdle },
      .goto (.storeGeneration generation))
  | .storeGeneration generation => some ({ seg with generation := generation }, .goto .readyA)
  | .readyA => some ({ seg with handshakeA := handshakeServerReady }, .goto .readyB)
  | .readyB => some ({ seg with handshakeB := handshakeServerReady }, .goto .readyServer)
  | .readyServer => some ({ seg with serverState := handshakeServerReady }, .goto .readyClient)
  | .readyClient => some ({ seg with clientState := handshakeServerReady }, .goto .setAck)
  | .setAck => some ({ seg with connectAck := true }, .done (.ok ()))

/-- The next access of `mark_disconnected`. -/
def MarkDisconnected.step : MarkDisconnected → Segment A B × Next MarkDisconnected
  | .storeServer => ({ seg with serverState := handshakeIdle }, .goto .storeClient)
  | .storeClient => ({ seg with clientState := handshakeIdle }, .goto .storeA)
  | .storeA => ({ seg with handshakeA := handshakeIdle }, .goto .storeB)
  | .storeB => ({ seg with handshakeB := handshakeIdle }, .done (.ok ()))

/-- The next access of `Drop for SharedServer`. -/
def DropServer.step (connected : Bool) : DropServer → Segment A B × Next DropServer
  | .store pc =>
    match pc.step seg with
    | (seg, .goto pc') => (seg, .goto (.store pc'))
    | (seg, .done res) => (seg, if connected then .goto .setDisconnect else .done res)
  | .setDisconnect => ({ seg with disconnect := true }, .done (.ok ()))

/-- The next access of `Drop for SharedClient`. -/
def DropClient.step : DropClient → Segment A B × Next DropClient
  | .storeClient => ({ seg with clientState := handshakeIdle }, .goto .storeA)
  | .storeA => ({ seg with handshakeA := handshakeIdle }, .goto .storeB)
  | .storeB => ({ seg with handshakeB := handshakeIdle }, .goto .setDisconnect)
  | .setDisconnect => ({ seg with disconnect := true }, .done (.ok ()))

/-- What `connect` leaves alone; it consumes `connect_ack` and never signals it. -/
theorem Connect.step_frame {w : WaitOutcome} {pc : Connect} {r : Segment A B × Next Connect}
    (h : pc.step seg w = some r) :
    r.1.ringA = seg.ringA ∧ r.1.ringB = seg.ringB ∧ r.1.disconnect = seg.disconnect ∧
      r.1.serverState = seg.serverState ∧ (r.1.connectAck = true → seg.connectAck = true) := by
  cases pc with
  | waitAck =>
    simp only [Connect.step] at h
    cases w with
    | signalled | timeout =>
      simp only at h
      split_ifs at h
      cases h
      simp_all
    | failed e =>
      cases h
      exact ⟨rfl, rfl, rfl, rfl, id⟩
  | loadServer =>
    simp only [Connect.step] at h
    split_ifs at h <;> cases h <;> exact ⟨rfl, rfl, rfl, rfl, id⟩
  | _ =>
    cases h
    exact ⟨rfl, rfl, rfl, rfl, id⟩

/-- What `mark_disconnected` leaves alone. -/
theorem MarkDisconnected.step_frame (pc : MarkDisconnected) :
    (pc.step seg).1.ringA = seg.ringA ∧ (pc.step seg).1.ringB = seg.ringB ∧
      (pc.step seg).1.connectAck = seg.connectAck ∧
      ((pc.step seg).1.serverState = seg.serverState ∨
        (pc.step seg).1.serverState = handshakeIdle) := by
  cases pc <;> simp [MarkDisconnected.step]

/-- `mark_disconnected` does not touch `disconnect`. -/
theorem MarkDisconnected.step_disconnect (pc : MarkDisconnected) :
    (pc.step seg).1.disconnect = seg.disconnect := by
  cases pc <;> rfl

theorem MarkDisconnected.disconnect_of_step {pc : MarkDisconnected} {seg' : Segment A B}
    {next : Next MarkDisconnected} (h : pc.step seg = (seg', next)) :
    seg'.disconnect = seg.disconnect := by
  have hd := pc.step_disconnect seg
  rwa [h] at hd

/-- `CLIENT_HELLO` is stored first, once. -/
theorem Connect.step_not_hellos {w : WaitOutcome} {pc pc' : Connect} {seg' : Segment A B}
    (h : pc.step seg w = some (seg', .goto pc')) : pc'.hellos = false := by
  cases pc <;> simp only [Connect.step] at h
  case waitAck =>
    cases w <;> simp only at h
    case failed => cases h
    all_goals
      split_ifs at h
      cases h
      rfl
  case loadServer => split_ifs at h <;> cases h <;> rfl
  all_goals cases h <;> rfl

/-- A handshake does not touch `disconnect`. -/
theorem WaitForClient.step_disconnect {w : WaitOutcome} {pc : WaitForClient}
    {r : Segment A B × Next WaitForClient} (h : pc.step seg w = some r) :
    r.1.disconnect = seg.disconnect := by
  cases pc <;> simp only [WaitForClient.step] at h
  case waitReq =>
    cases w <;> simp only at h
    case failed => cases h; rfl
    all_goals
      split_ifs at h
      cases h
      rfl
  case loadClient => split_ifs at h <;> cases h <;> rfl
  all_goals
    cases h
    rfl

/-- A handshake that succeeds leaves `SERVER_READY` in `server_state`. -/
theorem WaitForClient.step_readied {w : WaitOutcome} {pc : WaitForClient} {seg' : Segment A B}
    {next : Next WaitForClient}
    (h : pc.readied = true → seg.serverState = handshakeServerReady)
    (hst : pc.step seg w = some (seg', next)) :
    (∀ pc', next = .goto pc' → pc'.readied = true → seg'.serverState = handshakeServerReady) ∧
      ∀ u, next = .done (.ok u) → seg'.serverState = handshakeServerReady := by
  cases pc with
  | waitReq =>
    simp only [WaitForClient.step] at hst
    cases w <;> simp only at hst
    case failed =>
      cases hst
      exact ⟨(by rintro _ ⟨⟩), (by rintro _ ⟨⟩)⟩
    all_goals
      split_ifs at hst
      cases hst
      exact ⟨(by rintro _ ⟨⟩ ⟨⟩), (by rintro _ ⟨⟩)⟩
  | loadClient =>
    simp only [WaitForClient.step] at hst
    split_ifs at hst <;> cases hst <;> exact ⟨(by rintro _ ⟨⟩ ⟨⟩), (by rintro _ ⟨⟩)⟩
  | readyServer =>
    cases hst
    exact ⟨fun _ _ _ => rfl, (by rintro _ ⟨⟩)⟩
  | readyClient =>
    cases hst
    exact ⟨fun _ _ _ => h rfl, (by rintro _ ⟨⟩)⟩
  | setAck =>
    cases hst
    exact ⟨(by rintro _ ⟨⟩), fun _ _ => h rfl⟩
  | _ =>
    cases hst
    exact ⟨(by rintro _ ⟨⟩ ⟨⟩), (by rintro _ ⟨⟩)⟩

/-- What the end of a server leaves alone. -/
theorem DropServer.step_frame (connected : Bool) (pc : DropServer) :
    (pc.step seg connected).1.ringA = seg.ringA ∧ (pc.step seg connected).1.ringB = seg.ringB ∧
      (pc.step seg connected).1.connectAck = seg.connectAck ∧
      ((pc.step seg connected).1.serverState = seg.serverState ∨
        (pc.step seg connected).1.serverState = handshakeIdle) := by
  cases pc with
  | store pc => cases pc <;> simp [DropServer.step, MarkDisconnected.step]
  | setDisconnect => simp [DropServer.step]

/-- What the end of a client leaves alone. -/
theorem DropClient.step_frame (pc : DropClient) :
    (pc.step seg).1.ringA = seg.ringA ∧ (pc.step seg).1.ringB = seg.ringB ∧
      (pc.step seg).1.connectAck = seg.connectAck ∧
      (pc.step seg).1.serverState = seg.serverState := by
  cases pc <;> simp [DropClient.step]

end Steps

end Xshm
