import Mathlib.Data.Finset.Basic
import Xshm.System.Basic
import Xshm.Endpoint.Segment

/-!
# The slots of a multi-client server

`worker_loop` of a `MultiServer`, application threads that call `disconnect_client` and `send_to`,
and the `client_worker` of any number of `MultiClient`s, on the slots `0, …, maxClients - 1`.  One
access of an atomic, one `set` or one successful wait of an event is one step.  The fields of a
`ClientSlot` are guarded by its mutex, so an access to them is part of the step before or after
it; `slots` itself is only ever locked for reading and is left out.

Processes may exit at any moment (`Label.exit`); `is_process_alive` may answer `false` only for a
process that has.  Claim tokens are fresh and not zero.  A call on a ring is one step, and the ring
is the queue that `Xshm.Ring.Queue` proves it to be for calls one after the other; what the accesses
of two calls at a time may do is the subject of `Xshm.Ring.Machine`.  The events `s2c.data` and
`space` only wake a client, whose waits may end at any time anyway, and are left out, as is the end
of the segments after `stop`.

Also left out are the failures of `Mapping::open` in `try_claim_slot` and `release_claim`, of a
`set` of `c2s.data` or in the `Drop` of a client, and of a read in `receive_from_slot`, which then
calls `on_error` and changes nothing of the slot; and the calls that lock a slot only to look at it
(`broadcast` is `send_to` for each of them; `Xshm.Multi.Shutdown` has these threads).
-/

namespace Xshm

namespace Multi

/-- `CLAIM_FREE`. -/
def claimFree : UInt32 := 0

/-- `MAX_MULTI_CLIENTS`. -/
def maxMultiClients : ℕ := 31

/-- `RESERVE_TIMEOUT`, in milliseconds as all times are. -/
def reserveTimeout : ℕ := 10000

/-- `LIVENESS_CHECK_INTERVAL`. -/
def livenessCheckInterval : ℕ := 3000

/-- The holder of the mutex of a slot. -/
inductive Owner (κ : Type*) where
  | worker
  | app (a : κ)
  deriving DecidableEq

/-- The callbacks of a slot. -/
inductive Callback where
  | connect
  | message (m : Payload)
  | disconnect
  deriving DecidableEq

/-- Record: a session of a slot, by the handshake that opened it, counted from 1, and the token of
the client whose `CLIENT_HELLO` that handshake answered. -/
structure SlotSession where
  handshake : ℕ := 0
  token : UInt32 := claimFree
  deriving DecidableEq

/-- A segment with its `ClientSlot`.  Messages carry the token of their sender or, to the client,
of the session they were sent in. -/
structure Slot (κ : Type*) where
  seg : Segment (Message UInt32) (Message UInt32) := {}
  /-- The event `c2s.data`. -/
  data : Bool := false
  /-- `reserved[RESERVED_CLAIM_INDEX]`. -/
  claim : UInt32 := claimFree
  /-- `reserved[RESERVED_OWNER_PID_INDEX]`. -/
  ownerPid : UInt32 := 0
  lock : Option (Owner κ) := none
  connected : Bool := false
  /-- The field `connected` of its `SharedServer`. -/
  serverConnected : Bool := false
  claimSeenAt : Option ℕ := none
  /-- Record: the claim that was in the word when `claim_seen_at` was taken. -/
  seenClaim : UInt32 := claimFree
  /-- Record: the token of the client that stored `CLIENT_HELLO` last. -/
  hello : UInt32 := claimFree
  /-- Record: the last handshake begun, each by its load of a `CLIENT_HELLO`. -/
  answered : SlotSession := {}
  /-- Record: the last session, opened by `slot.connected = true`. -/
  session : SlotSession := {}
  /-- Record: when and for whom `disconnect` was set last: the last handshake and the client that
  set it, or the session that `disconnect_client` ended. -/
  disconnectBy : SlotSession := {}
  /-- Record: the callbacks that have been started. -/
  calls : List Callback := []
  deriving DecidableEq

/-- `EventSource`. -/
inductive EventSource where
  | slotConnect (k : ℕ)
  | slotData (k : ℕ)
  | slotDisconnect (k : ℕ)
  deriving DecidableEq

/-- Program points of `worker_loop`. -/
inductive Worker where
  | head
  /-- `reclaim_stale_claims`, about to load the claim of slot `k`. -/
  | reclaim (k : ℕ) (orphaned : List (ℕ × UInt32))
  | claimLoaded (k : ℕ) (orphaned : List (ℕ × UInt32)) (claim : UInt32)
  | loadOwner (k : ℕ) (orphaned : List (ℕ × UInt32)) (claim : UInt32)
  | checkAlive (k : ℕ) (orphaned : List (ℕ × UInt32)) (claim pid : UInt32)
  /-- `handle_orphaned_slot_disconnect` for each of them. -/
  | orphans (orphaned : List (ℕ × UInt32))
  | orphanCas (k : ℕ) (expected : UInt32) (orphaned : List (ℕ × UInt32))
  | orphanMark (k : ℕ) (orphaned : List (ℕ × UInt32)) (pc : MarkDisconnected)
  | orphanCall (k : ℕ) (orphaned : List (ℕ × UInt32))
  /-- The handles for `wait_any` are collected, slot `k` next. -/
  | collect (k : ℕ) (handles : List EventSource)
  | waitAny (handles : List EventSource)
  | slotConnect (k : ℕ)
  | handshake (k : ℕ) (pc : WaitForClient)
  /-- `do_slot_handshake` has returned. -/
  | handshaken (k : ℕ) (ok : Bool)
  | callConnect (k : ℕ)
  /-- `poll_all_slots` collects the connected slots, slot `k` next. -/
  | poll (k : ℕ) (ids : List ℕ)
  /-- `receive_from_slot` for each of them. -/
  | receive (ids : List ℕ)
  | receiving (k left : ℕ) (messages : List (Message UInt32)) (ids : List ℕ)
  | callMessages (k : ℕ) (messages : List (Message UInt32)) (ids : List ℕ)
  /-- `handle_slot_disconnect`.  Record: when and for whom the event was set. -/
  | slotDisconnect (k : ℕ) (setBy : SlotSession)
  /-- Record: the session that the call has ended, if the slot was connected. -/
  | marking (k : ℕ) (ended : Option SlotSession) (pc : MarkDisconnected)
  | release (k : ℕ) (ended : Option SlotSession)
  | callDisconnect (k : ℕ)
  | ended
  deriving DecidableEq

/-- Program points of `disconnect_client` with the session it has ended as a record. -/
inductive App where
  | idle
  | setEvent (k : ℕ) (ended : SlotSession)
  | marking (k : ℕ) (ended : SlotSession) (pc : MarkDisconnected)
  | release (k : ℕ) (ended : SlotSession)
  | callDisconnect (k : ℕ)
  deriving DecidableEq

/-- Program points of `client_worker`. -/
inductive ClientPc where
  | head
  /-- `claim_free_slot`, about to try slot `slotId`. -/
  | claim
  | storePid
  | connecting (pc : Connect)
  /-- The head of the connected loop. -/
  | connected
  /-- Messages are sent and received. -/
  | transfer
  /-- The first message of a ring has been written and its event is to be set. -/
  | setData
  | waitAny
  | dropping (pc : DropClient)
  | release
  | delay
  | ended
  deriving DecidableEq

structure Client where
  pc : ClientPc := .head
  running : Bool := true
  slotId : ℕ := 0
  token : UInt32 := claimFree
  /-- Record: when the claim was won. -/
  wonAt : ℕ := 0
  /-- Record: the claim has been won, and since then the client has not called `release_claim`, the
  server has not ended the client's session, and the claim has not been without a session for
  `RESERVE_TIMEOUT`. -/
  entitled : Bool := false
  deriving DecidableEq

/-- Record: a session ended by `handle_slot_disconnect`, and when and for whom the event that was
consumed had been set. -/
structure Ended where
  slotId : ℕ
  session : SlotSession
  setBy : SlotSession
  deriving DecidableEq

/-- What is fixed in a run. -/
structure Config (ι : Type*) where
  maxClients : ℕ
  recvBatch : ℕ
  /-- The process of a client. -/
  pid : ι → UInt32

structure State (ι κ : Type*) where
  slot : ℕ → Slot κ := fun _ => {}
  worker : Worker := .head
  running : Bool := true
  app : κ → App := fun _ => .idle
  client : ι → Client := fun _ => {}
  now : ℕ := 0
  /-- The processes that have exited. -/
  exited : Finset UInt32 := ∅
  /-- Record: the tokens that have been generated. -/
  used : Finset UInt32 := ∅
  /-- Record: the tokens that have won a claim. -/
  won : Finset UInt32 := ∅
  ended : List Ended := []

/-- The outcome of whatever a client does next. -/
inductive Outcome where
  | token (t : UInt32)
  | wait (w : WaitOutcome)
  | send (p : Payload)
  | receive
  /-- There is nothing more to send or to receive. -/
  | proceed
  | any (a : AnyOutcome)
  deriving DecidableEq

/-- Who moves. -/
inductive Label (ι κ : Type*) where
  | stop
  | tick (ms : ℕ)
  | exit (pid : UInt32)
  | worker (w : WaitOutcome)
  /-- `is_process_alive` answers. -/
  | alive (b : Bool)
  | disconnectClient (a : κ) (k : ℕ)
  | app (a : κ) (w : WaitOutcome)
  | sendTo (k : ℕ) (p : Payload)
  /-- `running` of a client is cleared. -/
  | shutdown (c : ι)
  | client (c : ι) (o : Outcome)
  deriving DecidableEq

section Steps

variable {ι κ : Type*}

/-! ### Changes of a slot -/

namespace Slot

variable (sl : Slot κ)

/-- `release_slot_claim`. -/
def releaseSlotClaim : Slot κ := { sl with claim := claimFree }

/-- The slot is no longer connected. -/
def disconnect : Slot κ := { sl with connected := false, claimSeenAt := none }

/-- The slot is no longer connected, and neither is its `SharedServer`. -/
def close : Slot κ := { sl.disconnect with serverConnected := false }

/-- The handshake has succeeded: a session is opened. -/
def accept : Slot κ :=
  { sl with
    connected := true
    serverConnected := true
    claimSeenAt := none
    session := sl.answered
    lock := none }

/-- The handshake has failed. -/
def refuse : Slot κ := { sl.releaseSlotClaim with claimSeenAt := none, lock := none }

/-- `claim_seen_at` is taken while that claim is in the word. -/
def see (now : ℕ) (claim : UInt32) : Slot κ :=
  { sl with claimSeenAt := some now, seenClaim := claim }

/-- Record: a load of `CLIENT_HELLO` begins a handshake. -/
def answering (pc : WaitForClient) : SlotSession :=
  if pc = .loadClient ∧ sl.seg.clientState = handshakeClientHello then
    ⟨sl.answered.handshake + 1, sl.hello⟩
  else sl.answered

/-- Record: who has stored `CLIENT_HELLO`. -/
def helloBy (pc : Connect) (token : UInt32) : UInt32 := if pc.hellos then token else sl.hello

def call (e : Callback) : Slot κ := { sl with calls := sl.calls ++ [e] }

/-- `reclaim_stale_claims` on a slot that is not connected. -/
def reclaim (now : ℕ) (claim : UInt32) : Slot κ :=
  if claim = claimFree then { sl with claimSeenAt := none }
  else
    match sl.claimSeenAt with
    | none => sl.see now claim
    | some t =>
      if reserveTimeout ≤ now - t then { sl.releaseSlotClaim with claimSeenAt := none } else sl

end Slot

namespace State

variable (s : State ι κ)

def setSlot (k : ℕ) (sl : Slot κ) : State ι κ := { s with slot := Function.update s.slot k sl }

def setSeg (k : ℕ) (seg : Segment (Message UInt32) (Message UInt32)) : State ι κ :=
  s.setSlot k { s.slot k with seg := seg }

def lock (k : ℕ) (o : Owner κ) : State ι κ := s.setSlot k { s.slot k with lock := some o }

def unlock (k : ℕ) : State ι κ := s.setSlot k { s.slot k with lock := none }

/-- A callback for slot `k` is started. -/
def call (k : ℕ) (e : Callback) : State ι κ := s.setSlot k ((s.slot k).call e)

def setWorker (t : Worker) : State ι κ := { s with worker := t }

def setApp [DecidableEq κ] (a : κ) (t : App) : State ι κ :=
  { s with app := Function.update s.app a t }

def setClient [DecidableEq ι] (c : ι) (cl : Client) : State ι κ :=
  { s with client := Function.update s.client c cl }

@[simp] theorem setSlot_slot_self (k : ℕ) (sl : Slot κ) : (s.setSlot k sl).slot k = sl := by
  simp [setSlot]

theorem setSlot_slot_of_ne {j k : ℕ} (h : j ≠ k) (sl : Slot κ) :
    (s.setSlot k sl).slot j = s.slot j := by
  simp [setSlot, h]

@[simp] theorem setSlot_setSlot (k : ℕ) (sl sl' : Slot κ) :
    (s.setSlot k sl).setSlot k sl' = s.setSlot k sl' := by
  simp [setSlot]

@[simp] theorem setSlot_self (k : ℕ) : s.setSlot k (s.slot k) = s := by
  simp [setSlot]

variable {s} in
/-- What holds of the slots that did not change and of the new one holds of all. -/
theorem forall_setSlot {k : ℕ} {sl : Slot κ} {P : ℕ → Slot κ → Prop} (hk : P k sl)
    (h : ∀ j, P j (s.slot j)) (j : ℕ) : P j ((s.setSlot k sl).slot j) := by
  by_cases hj : j = k
  · subst hj
    rwa [setSlot_slot_self]
  · rw [setSlot_slot_of_ne s hj]
    exact h j

variable {s} in
/-- What holds of the clients that did not move and of the one that did holds of all. -/
theorem forall_setClient [DecidableEq ι] {c : ι} {cl : Client} {P : ι → Client → Prop}
    (hc : P c cl) (h : ∀ d, P d (s.client d)) (d : ι) : P d ((s.setClient c cl).client d) := by
  by_cases hd : d = c
  · subst hd
    simpa [setClient] using hc
  · simpa [setClient, hd] using h d

/-- The clients with `p` lose their titles. -/
def revoke (p : ι → Prop) [DecidablePred p] : State ι κ :=
  { s with
    client := fun c => { s.client c with entitled := (s.client c).entitled && !decide (p c) } }

/-- The claim of the client has been without a session for `RESERVE_TIMEOUT` at that time. -/
def Expired (now : ℕ) (c : ι) : Prop :=
  let cl := s.client c
  let sl := s.slot cl.slotId
  cl.wonAt + reserveTimeout ≤ now ∧ ¬ (sl.connected = true ∧ sl.session.token = cl.token)

instance (now : ℕ) (c : ι) : Decidable (s.Expired now c) :=
  inferInstanceAs (Decidable (_ ∧ ¬ (_ ∧ _)))

/-- Time passes. -/
def tick (now : ℕ) : State ι κ := { s.revoke (s.Expired now) with now := now }

/-- The session of slot `k` is ended. -/
def endSession (k : ℕ) : State ι κ :=
  s.revoke fun c => (s.client c).slotId = k ∧ (s.client c).token = (s.slot k).session.token

/-- `next_claim_token` has generated a token. -/
def recordToken (t : UInt32) : State ι κ := { s with used := insert t s.used }

/-- A token has won a claim. -/
def recordWin (t : UInt32) : State ι κ := { s with won := insert t s.won }

/-- `handle_slot_disconnect` has ended a session. -/
def recordEnd (e : Ended) : State ι κ := { s with ended := s.ended ++ [e] }

/-! ### The worker -/

/-- The event is signalled. -/
def signalled : EventSource → Bool
  | .slotConnect k => (s.slot k).seg.connectReq
  | .slotData k => (s.slot k).data
  | .slotDisconnect k => (s.slot k).seg.disconnect

/-- A wait consumes the signal, and `handle_event` is called. -/
def handleEvent : EventSource → State ι κ
  | .slotConnect k =>
    (s.setSeg k { (s.slot k).seg with connectReq := false }).setWorker (.slotConnect k)
  | .slotData k => (s.setSlot k { s.slot k with data := false }).setWorker (.receive [k])
  | .slotDisconnect k =>
    (s.setSeg k { (s.slot k).seg with disconnect := false }).setWorker
      (.slotDisconnect k (s.slot k).disconnectBy)

variable (cfg : Config ι)

/-- `reclaim_stale_claims` for slot `k`, whose claim has been loaded. -/
def reclaimStep (k : ℕ) (orphaned : List (ℕ × UInt32)) (claim : UInt32) : State ι κ :=
  let sl := s.slot k
  if sl.connected then
    if claim = claimFree then
      (s.unlock k).setWorker (.reclaim (k + 1) (orphaned ++ [(k, claimFree)]))
    else if ∀ t ∈ sl.claimSeenAt, livenessCheckInterval ≤ s.now - t then
      (s.setSlot k (sl.see s.now claim)).setWorker (.loadOwner k orphaned claim)
    else (s.unlock k).setWorker (.reclaim (k + 1) orphaned)
  else
    ((s.setSlot k (sl.reclaim s.now claim)).unlock k).setWorker (.reclaim (k + 1) orphaned)

/-- The next access of the handshake on slot `k`; `connect_ack.set` may fail. -/
def handshakeStep (k : ℕ) (pc : WaitForClient) (w : WaitOutcome) : Option (State ι κ) :=
  let sl := s.slot k
  if pc = .setAck ∧ w.isFailed = true then some (s.setWorker (.handshaken k false))
  else
    (pc.step sl.seg w).map fun (seg, next) =>
      (s.setSlot k { sl with seg := seg, answered := sl.answering pc }).setWorker
        (match next with
        | .goto pc' => .handshake k pc'
        | .done (.ok ()) => .handshaken k true
        | .done (.error _) => .handshaken k false)

/-- The next step of the worker. -/
def workerStep (w : WaitOutcome) : Option (State ι κ) :=
  match s.worker with
  | .head => some (s.setWorker (if s.running then .reclaim 0 [] else .ended))
  | .reclaim k orphaned =>
    if k < cfg.maxClients then
      if (s.slot k).lock = none then
        some ((s.lock k .worker).setWorker (.claimLoaded k orphaned (s.slot k).claim))
      else none
    else some (s.setWorker (.orphans orphaned))
  | .claimLoaded k orphaned claim => some (s.reclaimStep k orphaned claim)
  | .loadOwner k orphaned claim =>
    some (s.setWorker (.checkAlive k orphaned claim (s.slot k).ownerPid))
  | .checkAlive .. => none
  | .orphans [] => some (s.setWorker (.collect 0 []))
  | .orphans ((k, expected) :: orphaned) =>
    if (s.slot k).lock = none then
      if (s.slot k).connected then
        some ((s.lock k .worker).setWorker (.orphanCas k expected orphaned))
      else some (s.setWorker (.orphans orphaned))
    else none
  | .orphanCas k expected orphaned =>
    if (s.slot k).claim = expected then
      some (((s.endSession k).setSlot k (s.slot k).releaseSlotClaim.close).setWorker
        (.orphanMark k orphaned .storeServer))
    else some ((s.unlock k).setWorker (.orphans orphaned))
  | .orphanMark k orphaned pc =>
    match pc.step (s.slot k).seg with
    | (seg, .goto pc') => some ((s.setSeg k seg).setWorker (.orphanMark k orphaned pc'))
    | (seg, .done _) => some (((s.setSeg k seg).unlock k).setWorker (.orphanCall k orphaned))
  | .orphanCall k orphaned => some ((s.call k .disconnect).setWorker (.orphans orphaned))
  | .collect k handles =>
    if k < cfg.maxClients then
      if (s.slot k).lock = none then
        let sources := if (s.slot k).connected then [.slotData k, .slotDisconnect k]
          else [.slotConnect k]
        some (s.setWorker (.collect (k + 1) (handles ++ sources)))
      else none
    else some (s.setWorker (.waitAny handles))
  | .waitAny handles =>
    match w with
    | .signalled => (handles.find? s.signalled).map s.handleEvent
    | .timeout => if handles.any s.signalled then none else some (s.setWorker (.poll 0 []))
    | .failed _ => some (s.setWorker .head)
  | .slotConnect k =>
    if (s.slot k).lock = none then
      if (s.slot k).connected then some (s.setWorker .head)
      -- `do_slot_handshake` refuses a server that is connected
      else if (s.slot k).serverConnected then
        some ((s.lock k .worker).setWorker (.handshaken k false))
      else some ((s.lock k .worker).setWorker (.handshake k .loadClient))
    else none
  | .handshake k pc => s.handshakeStep k pc w
  | .handshaken k true => some ((s.setSlot k (s.slot k).accept).setWorker (.callConnect k))
  | .handshaken k false => some ((s.setSlot k (s.slot k).refuse).setWorker .head)
  | .callConnect k => some ((s.call k .connect).setWorker .head)
  | .poll k ids =>
    if k < cfg.maxClients then
      if (s.slot k).lock = none then
        some (s.setWorker (.poll (k + 1) (if (s.slot k).connected then ids ++ [k] else ids)))
      else none
    else some (s.setWorker (.receive ids))
  | .receive [] => some (s.setWorker .head)
  | .receive (k :: ids) =>
    if (s.slot k).lock = none then
      if (s.slot k).connected then
        some ((s.lock k .worker).setWorker (.receiving k cfg.recvBatch [] ids))
      else some (s.setWorker (.receive ids))
    else none
  | .receiving k left messages ids =>
    match left, (s.slot k).seg.ringB with
    | left + 1, m :: rest =>
      some ((s.setSeg k { (s.slot k).seg with ringB := rest }).setWorker
        (.receiving k left (messages ++ [m]) ids))
    | _, _ => some ((s.unlock k).setWorker (.callMessages k messages ids))
  | .callMessages _ [] ids => some (s.setWorker (.receive ids))
  | .callMessages k (m :: messages) ids =>
    some ((s.call k (.message m.payload)).setWorker (.callMessages k messages ids))
  | .slotDisconnect k setBy =>
    if (s.slot k).lock = none then
      let sl := { (s.slot k).close with lock := some .worker }
      if (s.slot k).connected then
        some ((((s.endSession k).recordEnd ⟨k, (s.slot k).session, setBy⟩).setSlot k sl).setWorker
          (.marking k (some (s.slot k).session) .storeServer))
      else some ((s.setSlot k sl).setWorker (.marking k none .storeServer))
    else none
  | .marking k ended pc =>
    match pc.step (s.slot k).seg with
    | (seg, .goto pc') => some ((s.setSeg k seg).setWorker (.marking k ended pc'))
    | (seg, .done _) => some ((s.setSeg k seg).setWorker (.release k ended))
  | .release k ended =>
    some (((s.setSlot k (s.slot k).releaseSlotClaim).unlock k).setWorker
      (if ended.isSome then .callDisconnect k else .head))
  | .callDisconnect k => some ((s.call k .disconnect).setWorker .head)
  | .ended => none

/-! ### Application threads -/

variable [DecidableEq κ]

/-- The next step of an application thread in `disconnect_client`. -/
def appStep (a : κ) (w : WaitOutcome) : Option (State ι κ) :=
  match s.app a with
  | .idle => none
  | .setEvent k ended =>
    let sl := { s.slot k with serverConnected := false }
    match w with
    | .failed _ => some ((s.setSlot k sl).setApp a (.marking k ended .storeServer))
    | _ =>
      some ((s.setSlot k
        { sl with seg := { sl.seg with disconnect := true }, disconnectBy := ended }).setApp a
          (.marking k ended .storeServer))
  | .marking k ended pc =>
    match pc.step (s.slot k).seg with
    | (seg, .goto pc') => some ((s.setSeg k seg).setApp a (.marking k ended pc'))
    | (seg, .done _) => some ((s.setSeg k seg).setApp a (.release k ended))
  | .release k _ =>
    some (((s.setSlot k (s.slot k).releaseSlotClaim).unlock k).setApp a (.callDisconnect k))
  | .callDisconnect k => some ((s.call k .disconnect).setApp a .idle)

/-! ### Clients -/

variable [DecidableEq ι]

/-- The next access of `SharedClient::connect`; the segment may not open, and `connect_req.set` may
fail. -/
def connectStep (c : ι) (pc : Connect) (w : WaitOutcome) : Option (State ι κ) :=
  let cl := s.client c
  let sl := s.slot cl.slotId
  if (pc = .storeClient ∨ pc = .setReq) ∧ w.isFailed = true then
    some (s.setClient c { cl with pc := .release, entitled := false })
  else
    (pc.step sl.seg w).map fun (seg, next) =>
      (s.setSlot cl.slotId { sl with seg := seg, hello := sl.helloBy pc cl.token }).setClient c
        (match next with
        | .goto pc' => { cl with pc := .connecting pc' }
        | .done (.ok ()) => { cl with pc := .connected }
        | .done (.error _) => { cl with pc := .release, entitled := false })

/-- The next step of a client. -/
def clientStep (c : ι) (o : Outcome) : Option (State ι κ) :=
  let cl := s.client c
  let k := cl.slotId
  let sl := s.slot k
  match cl.pc, o with
  | .head, o =>
    if cl.running = false then some (s.setClient c { cl with pc := .ended })
    else
      match o with
      | .token t =>
        if t ≠ claimFree ∧ t ∉ s.used then
          some ((s.recordToken t).setClient c { cl with pc := .claim, slotId := 0, token := t })
        else none
      | _ => none
  | .claim, _ =>
    if k < cfg.maxClients ∧ k < maxMultiClients then
      if sl.claim = claimFree then
        some (((s.recordWin cl.token).setSlot k { sl with claim := cl.token }).setClient c
          { cl with pc := .storePid, wonAt := s.now, entitled := true })
      else some (s.setClient c { cl with slotId := k + 1 })
    else some (s.setClient c { cl with pc := .delay })
  | .storePid, _ =>
    some ((s.setSlot k { sl with ownerPid := cfg.pid c }).setClient c
      { cl with pc := .connecting .storeClient })
  | .connecting pc, .wait w => s.connectStep c pc w
  | .connecting _, _ => none
  | .connected, _ =>
    some (s.setClient c
      { cl with pc := if cl.running then .transfer else .dropping .storeClient })
  | .transfer, .send p =>
    let ringB := pushMessage sl.seg.ringB ⟨p, cl.token⟩
    -- `was_empty`: nothing but the new message is in the ring
    some ((s.setSeg k { sl.seg with ringB := ringB }).setClient c
      { cl with pc := if p.Valid ∧ ringB.length = 1 then .setData else .transfer })
  | .transfer, .receive => some (s.setSeg k { sl.seg with ringA := sl.seg.ringA.tail })
  | .transfer, .proceed => some (s.setClient c { cl with pc := .waitAny })
  | .transfer, _ => none
  | .setData, _ =>
    some ((s.setSlot k { sl with data := true }).setClient c { cl with pc := .transfer })
  | .waitAny, .any .disconnect =>
    if sl.seg.disconnect then
      some ((s.setSeg k { sl.seg with disconnect := false }).setClient c
        { cl with pc := .dropping .storeClient })
    else none
  | .waitAny, .any .other =>
    if sl.seg.disconnect then none else some (s.setClient c { cl with pc := .connected })
  | .waitAny, .any .failed => some (s.setClient c { cl with pc := .dropping .storeClient })
  | .waitAny, _ => none
  | .dropping pc, _ =>
    let setBy :=
      if pc = .setDisconnect then SlotSession.mk sl.answered.handshake cl.token else sl.disconnectBy
    match pc.step sl.seg with
    | (seg, .goto pc') =>
      some ((s.setSlot k { sl with seg := seg, disconnectBy := setBy }).setClient c
        { cl with pc := .dropping pc' })
    | (seg, .done _) =>
      some ((s.setSlot k { sl with seg := seg, disconnectBy := setBy }).setClient c
        { cl with pc := .release, entitled := false })
  | .release, _ =>
    some ((s.setSlot k (if sl.claim = cl.token then sl.releaseSlotClaim else sl)).setClient c
      { cl with pc := .delay })
  | .delay, _ => some (s.setClient c { cl with pc := if cl.running then .head else .ended })
  | .ended, _ => none

/-- `is_process_alive` answers for the owner of slot `k`. -/
def aliveStep (alive : Bool) : Option (State ι κ) :=
  match s.worker with
  | .checkAlive k orphaned claim pid =>
    if alive then some ((s.unlock k).setWorker (.reclaim (k + 1) orphaned))
    else if pid ≠ 0 ∧ pid ∈ s.exited then
      some ((s.unlock k).setWorker (.reclaim (k + 1) (orphaned ++ [(k, claim)])))
    else none
  | _ => none

/-- One step. -/
def step : Label ι κ → Option (State ι κ)
  | .stop => some { s with running := false }
  | .tick ms => some (s.tick (s.now + ms))
  | .exit pid => some { s with exited := insert pid s.exited }
  | .worker w => s.workerStep cfg w
  | .alive b => s.aliveStep b
  | .disconnectClient a k =>
    if s.app a = .idle ∧ k < cfg.maxClients ∧ (s.slot k).lock = none then
      if (s.slot k).connected then
        some (((s.endSession k).setSlot k
          { (s.slot k).disconnect with lock := some (.app a) }).setApp a
            (.setEvent k (s.slot k).session))
      else some s
    else none
  | .app a w => s.appStep a w
  | .sendTo k p =>
    if k < cfg.maxClients ∧ (s.slot k).lock = none then
      if (s.slot k).connected then
        let m : Message UInt32 := ⟨p, (s.slot k).session.token⟩
        some (s.setSeg k
          { (s.slot k).seg with ringA := pushMessage (s.slot k).seg.ringA m })
      else some s
    else none
  | .shutdown c => some (s.setClient c { s.client c with running := false })
  | .client c o => if cfg.pid c ∈ s.exited then none else s.clientStep cfg c o

end State

end Steps

/-! ### What clients leave alone -/

/-- What only the server changes: the `ClientSlot`, and the records about it. -/
def Slot.clientSlot {κ : Type*} (sl : Slot κ) :=
  (sl.lock, sl.connected, sl.serverConnected, sl.claimSeenAt, sl.seenClaim, sl.answered,
    sl.session, sl.calls)

section Clients

variable {ι κ : Type*} {s s' : State ι κ}

/-- `s'` differs from `s` in nothing that belongs to the server. -/
structure SameServer (s s' : State ι κ) : Prop where
  slot : ∀ k, (s'.slot k).clientSlot = (s.slot k).clientSlot
  worker : s'.worker = s.worker
  app : s'.app = s.app
  now : s'.now = s.now
  ended : s'.ended = s.ended

namespace SameServer

theorem refl : SameServer s s := ⟨fun _ => rfl, rfl, rfl, rfl, rfl⟩

theorem setClient [DecidableEq ι] (h : SameServer s s') (c : ι) (cl : Client) :
    SameServer s (s'.setClient c cl) :=
  ⟨h.slot, h.worker, h.app, h.now, h.ended⟩

theorem setSlot (h : SameServer s s') {k : ℕ} {sl : Slot κ}
    (hk : sl.clientSlot = (s.slot k).clientSlot) : SameServer s (s'.setSlot k sl) :=
  ⟨State.forall_setSlot (P := fun j (sl : Slot κ) => sl.clientSlot = (s.slot j).clientSlot) hk
    h.slot, h.worker, h.app, h.now, h.ended⟩

theorem recordToken (h : SameServer s s') (t : UInt32) : SameServer s (s'.recordToken t) :=
  ⟨h.slot, h.worker, h.app, h.now, h.ended⟩

theorem recordWin (h : SameServer s s') (t : UInt32) : SameServer s (s'.recordWin t) :=
  ⟨h.slot, h.worker, h.app, h.now, h.ended⟩

end SameServer

theorem connectStep_sameServer [DecidableEq ι] {c : ι} {pc : Connect} {w : WaitOutcome}
    (hst : s.connectStep c pc w = some s') : SameServer s s' := by
  rw [State.connectStep] at hst
  split_ifs at hst
  · cases hst
    exact SameServer.refl.setClient c _
  · obtain ⟨_, -, rfl⟩ := Option.map_eq_some_iff.1 hst
    exact (SameServer.refl.setSlot (by rfl)).setClient c _

/-- A client changes nothing that belongs to the server. -/
theorem clientStep_sameServer [DecidableEq ι] {cfg : Config ι} {c : ι} {o : Outcome}
    (hst : s.clientStep cfg c o = some s') : SameServer s s' := by
  have h : SameServer s s := .refl
  simp only [State.clientStep] at hst
  cases hpc : (s.client c).pc <;> simp only [hpc] at hst
  case head =>
    split_ifs at hst
    · cases hst
      exact h.setClient c _
    · cases o <;> simp only [reduceCtorEq] at hst
      split_ifs at hst
      cases hst
      exact (h.recordToken _).setClient c _
  case claim =>
    split_ifs at hst <;> cases hst
    · exact ((h.recordWin _).setSlot (by rfl)).setClient c _
    · exact h.setClient c _
    · exact h.setClient c _
  case connecting pc =>
    cases o <;> simp only [reduceCtorEq] at hst
    exact connectStep_sameServer hst
  case transfer =>
    cases o <;> simp only [reduceCtorEq] at hst <;> cases hst
    · exact (h.setSlot (by rfl)).setClient c _
    · exact h.setSlot (by rfl)
    · exact h.setClient c _
  case waitAny =>
    cases o with
    | any r =>
      cases r <;> simp only at hst
      case disconnect =>
        split_ifs at hst
        cases hst
        exact (h.setSlot (by rfl)).setClient c _
      case other =>
        split_ifs at hst
        cases hst
        exact h.setClient c _
      case failed =>
        cases hst
        exact h.setClient c _
    | _ => cases hst
  case dropping pc =>
    split at hst <;> cases hst <;> exact (h.setSlot (by rfl)).setClient c _
  case release =>
    cases hst
    exact (h.setSlot (by split_ifs <;> rfl)).setClient c _
  case storePid | setData =>
    cases hst
    exact (h.setSlot (by rfl)).setClient c _
  case connected | delay =>
    cases hst
    exact h.setClient c _
  case ended => cases hst

end Clients

/-- A server that has just been started and its clients. -/
def system {ι : Type*} (κ : Type*) [DecidableEq ι] [DecidableEq κ] (cfg : Config ι) :
    System (State ι κ) (Label ι κ) where
  init s := s = {}
  step s := s.step cfg

/-! ### Pieces of runs -/

section Runs

variable {ι κ : Type*} (c : ι)

/-- One slot, and one process for all clients. -/
def oneSlot (ι : Type*) : Config ι := ⟨1, 32, fun _ => 7⟩

def work (n : ℕ) : List (Label ι κ) := List.replicate n (.worker .signalled)

/-- A client claims a free slot and stores its PID. -/
def claimSlot (t : UInt32) : List (Label ι κ) :=
  .client c (.token t) :: List.replicate 2 (.client c .proceed)

/-- A client claims a free slot, the server performs a handshake with it, and it connects. -/
def openSession (t : UInt32) : List (Label ι κ) :=
  claimSlot c t ++ List.replicate 4 (.client c (.wait .signalled)) ++ work 21 ++
    List.replicate 7 (.client c (.wait .signalled))

/-- The worker finds the owner of the slot alive and comes to `wait_any`. -/
def connectedPass : List (Label ι κ) := work 4 ++ .alive true :: work 4

/-- A client that is told to stop drops its `SharedClient` and calls `release_claim`. -/
def leave : List (Label ι κ) := .shutdown c :: List.replicate 6 (.client c .proceed)

/-- A session of one client ends, and another client has the slot. -/
def nextSession (d : ι) (t u : UInt32) : List (Label ι κ) :=
  openSession c t ++ connectedPass ++ leave c ++ work 8 ++ openSession d u

end Runs

end Multi

end Xshm
