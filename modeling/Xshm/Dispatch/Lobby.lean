import Mathlib.Data.Finset.Basic
import Xshm.System.Basic
import Xshm.Endpoint.Segment

/-!
# Registration in the lobby

The lobby worker of a `DispatchServer` (`worker_loop` with `handle_lobby_client`) and any number of
clients in `lobby_register`, in any order of their steps.  Requests and responses are the records
that `dispatch/protocol.rs` encodes; what happens to a channel after its name has been sent is not
part of the lobby.  The name of a channel comes from `RandomState` and the success of
`AutoServer::start` from the system, so both are chosen by the label.  A `set` of `connect_req` or
`connect_ack` does not fail here (`Xshm.Endpoint.HandshakeErrors` has the paths on which it does).

The response carries nothing that says for whom it is: whoever reads the ring takes it.  If
clients send and take messages only in the session that the last handshake opened for them, and
as long as ids do not wrap and names do not repeat (`OwnSession`), every client gets the id and
the channel that were created for its own request, and no two clients get the same
(`registered_of_ownSession`).
-/

namespace Xshm

namespace Lobby

/-- What a client says about itself. -/
structure ClientRegistration where
  pid : UInt32
  revision : UInt16
  name : String
  deriving DecidableEq

/-- A `RegistrationRequest`.  Record: who sent it, in which of its sessions. -/
structure Request (ι : Type*) where
  registration : ClientRegistration
  sender : ι
  session : ℕ
  deriving DecidableEq

/-- A `RegistrationResponse`.  Record: whose request it answers. -/
structure Response (ι : Type*) where
  accepted : Bool
  clientId : UInt32
  channelName : String
  sender : ι
  session : ℕ
  deriving DecidableEq

/-- The limits of the ring to the server, for requests. -/
def requestQueue (ι : Type*) : DropOldest (Request ι) where
  size r := messageHeaderSize + 13 + min r.registration.name.utf8ByteSize 64
  capacity := ringCapacity
  maxCount := maxMessages.toNat

/-- The limits of the ring to the client, for responses. -/
def responseQueue (ι : Type*) : DropOldest (Response ι) where
  size r := messageHeaderSize + 12 + min r.channelName.utf8ByteSize 64
  capacity := ringCapacity
  maxCount := maxMessages.toNat

/-- Program points of the lobby worker. -/
inductive Worker (ι : Type*) where
  /-- No lobby segment: `SharedServer::start` is tried. -/
  | down
  | head
  | waiting (pc : WaitForClient)
  /-- `handle_lobby_client` waits for the request. -/
  | receive
  | fetchId (req : Request ι)
  | startChannel (req : Request ι) (clientId : UInt32)
  | respond (resp : Response ι)
  | marking (pc : MarkDisconnected)
  /-- The lobby segment is dropped. -/
  | dropping (pc : DropServer)
  | ended
  deriving DecidableEq

/-- What follows an error of `wait_for_client`: the next pass, or a new lobby. -/
def Worker.afterError {ι : Type*} (e : ShmError) : Worker ι :=
  if e = .timeout then .head else .dropping (.store .storeServer)

/-- Program points of `lobby_register`. -/
inductive Client (ι : Type*) where
  | idle
  | connecting (pc : Connect)
  | sendRequest
  | receive
  /-- The client is dropped; `resp` is what will be returned. -/
  | dropping (resp : Option (Response ι)) (pc : DropClient)
  deriving DecidableEq

/-- Record: a channel that was started. -/
structure Created (ι : Type*) where
  clientId : UInt32
  channelName : String
  sender : ι
  session : ℕ
  deriving DecidableEq

/-- Record: an `Ok` of `lobby_register`. -/
structure Registered (ι : Type*) where
  client : ι
  session : ℕ
  clientId : UInt32
  channelName : String
  deriving DecidableEq

structure State (ι : Type*) where
  seg : Segment (Response ι) (Request ι) := {}
  worker : Worker ι := .down
  running : Bool := true
  nextClientId : UInt32 := 1
  client : ι → Client ι := fun _ => .idle
  registration : ι → ClientRegistration := fun _ => ⟨0, 0, ""⟩
  /-- The clients that have the segment open. -/
  holders : Finset ι := ∅
  /-- Record: the handshakes begun, each by its reset of the first ring. -/
  begun : ℕ := 0
  /-- Record: the handshake that last signalled `connect_ack`. -/
  acked : ℕ := 0
  /-- Record: the last handshake whose signal was consumed. -/
  taken : ℕ := 0
  /-- Record: who consumed the signal of a handshake. -/
  holder : ℕ → Option ι := fun _ => none
  /-- Record: the handshake whose signal the client consumed last. -/
  session : ι → ℕ := fun _ => 0
  /-- Record: how many ids have been taken. -/
  fetched : ℕ := 0
  created : List (Created ι) := []
  registered : List (Registered ι) := []

/-- Who moves. -/
inductive Label (ι : Type*) where
  | stop
  | worker (w : WaitOutcome)
  /-- `handle_lobby_client` ends without a response. -/
  | giveUp
  /-- `generate_channel_name` and `AutoServer::start`. -/
  | channel (name : String) (started : Bool)
  | register (c : ι) (registration : ClientRegistration)
  | client (c : ι) (w : WaitOutcome)
  /-- `response_timeout` has elapsed. -/
  | responseTimeout (c : ι)
  deriving DecidableEq

variable {ι : Type*} [DecidableEq ι]

/-- The next step of the lobby worker. -/
def State.workerStep (s : State ι) (w : WaitOutcome) : Option (State ι) :=
  match s.worker with
  | .down =>
    if s.running = false then some { s with worker := .ended }
    -- the name is taken as long as a client has the old segment open
    else if s.holders = ∅ then some { s with seg := {}, worker := .head }
    else some s
  | .head =>
    let next := if s.running then Worker.waiting .waitReq else .dropping (.store .storeServer)
    some { s with worker := next }
  | .waiting pc =>
    (pc.step s.seg w).map fun (seg, next) =>
      let s' := { s with
        seg := seg
        begun := if pc.begins then s.begun + 1 else s.begun
        acked := if pc.signals then s.begun else s.acked }
      match next with
      | .goto pc' => { s' with worker := .waiting pc' }
      | .done (.ok ()) => { s' with worker := .receive }
      | .done (.error e) => { s' with worker := .afterError e }
  | .receive =>
    match s.seg.ringB with
    | [] => some s
    | req :: rest => some { s with seg := { s.seg with ringB := rest }, worker := .fetchId req }
  | .fetchId req =>
    some { s with
      nextClientId := s.nextClientId + 1
      fetched := s.fetched + 1
      worker := .startChannel req s.nextClientId }
  | .startChannel _ _ => none
  | .respond resp =>
    some { s with
      seg := { s.seg with ringA := (responseQueue ι).push s.seg.ringA resp }
      worker := .marking .storeServer }
  | .marking pc =>
    match pc.step s.seg with
    | (seg, .goto pc') => some { s with seg := seg, worker := .marking pc' }
    | (seg, .done _) => some { s with seg := seg, worker := .head }
  | .dropping pc =>
    match pc.step s.seg false with
    | (seg, .goto pc') => some { s with seg := seg, worker := .dropping pc' }
    | (seg, .done _) => some { s with seg := seg, worker := .down }
  | .ended => none

/-- A client returns from `lobby_register`. -/
def State.return_ (s : State ι) (c : ι) (resp : Option (Response ι)) : State ι :=
  { s with
    client := Function.update s.client c .idle
    holders := s.holders.erase c
    registered :=
      match resp with
      | some r => s.registered ++ [⟨c, s.session c, r.clientId, r.channelName⟩]
      | none => s.registered }

/-- The next step of a client. -/
def State.clientStep (s : State ι) (c : ι) (w : WaitOutcome) : Option (State ι) :=
  match s.client c with
  | .idle => none
  | .connecting pc =>
    (pc.step s.seg w).map fun (seg, next) =>
      let s' := if pc.acks w then
          { s with
            seg := seg
            taken := s.acked
            holder := Function.update s.holder s.acked (some c)
            session := Function.update s.session c s.acked }
        else { s with seg := seg }
      match next with
      | .goto pc' => { s' with client := Function.update s.client c (.connecting pc') }
      | .done (.ok ()) => { s' with client := Function.update s.client c .sendRequest }
      | .done (.error _) => s'.return_ c none
  | .sendRequest =>
    let req := ⟨s.registration c, c, s.session c⟩
    some { s with
      seg := { s.seg with ringB := (requestQueue ι).push s.seg.ringB req }
      client := Function.update s.client c .receive }
  | .receive =>
    match s.seg.ringA with
    | [] => some s
    | r :: rest =>
      let resp := if r.accepted then some r else none
      some { s with
        seg := { s.seg with ringA := rest }
        client := Function.update s.client c (.dropping resp .storeClient) }
  | .dropping resp pc =>
    match pc.step s.seg with
    | (seg, .goto pc') =>
      some { s with seg := seg, client := Function.update s.client c (.dropping resp pc') }
    | (seg, .done _) => some ({ s with seg := seg }.return_ c resp)

/-- One step. -/
def State.step (s : State ι) : Label ι → Option (State ι)
  | .stop => some { s with running := false }
  | .worker w => s.workerStep w
  | .giveUp => if s.worker = .receive then some { s with worker := .marking .storeServer } else none
  | .channel name started =>
    match s.worker with
    | .startChannel req clientId =>
      if started then
        some { s with
          created := s.created ++ [⟨clientId, name, req.sender, req.session⟩]
          worker := .respond ⟨true, clientId, name, req.sender, req.session⟩ }
      else some { s with worker := .respond ⟨false, 0, "", req.sender, req.session⟩ }
    | _ => none
  | .register c registration =>
    -- the segment can be opened while the server or another client has it open
    if s.client c = .idle ∧ ¬ ((s.worker = .down ∨ s.worker = .ended) ∧ s.holders = ∅) then
      some { s with
        client := Function.update s.client c (.connecting .storeClient)
        registration := Function.update s.registration c registration
        holders := insert c s.holders }
    else none
  | .client c w => s.clientStep c w
  | .responseTimeout c =>
    if s.client c = .receive then
      some { s with client := Function.update s.client c (.dropping none .storeClient) }
    else none

/-- A dispatch server that has just been started and its clients. -/
def system (ι : Type*) [DecidableEq ι] : System (State ι) (Label ι) where
  init s := s = {}
  step := State.step

/-- Every `Ok` returns what the server created for that client's own request, and no two return the
same id or channel. -/
structure RegisteredOk (s : State ι) : Prop where
  own : ∀ r ∈ s.registered, ⟨r.clientId, r.channelName, r.client, r.session⟩ ∈ s.created
  clientId : (s.registered.map Registered.clientId).Nodup
  channelName : (s.registered.map Registered.channelName).Nodup

/-- A client sends its request and takes a response only while the last handshake is the one it
was answered by; ids have not wrapped around, and channel names do not repeat. -/
def OwnSession (s : State ι) : Label ι → Prop
  | .client c _ =>
    s.client c = .sendRequest ∨ s.client c = .receive ∧ s.seg.ringA ≠ [] → s.session c = s.begun
  | .worker _ =>
    match s.worker with
    | .fetchId _ => s.fetched < 2 ^ 32
    | _ => True
  | .channel name _ => name ∉ s.created.map Created.channelName
  | _ => True

/-! ### The invariant -/

omit [DecidableEq ι]

/-- A handshake is in progress. -/
def Worker.handshaking : Worker ι → Bool
  | .waiting pc => pc.handshaking
  | _ => false

/-- The second ring still has what the session before left in it. -/
def Worker.stale : Worker ι → Bool
  | .waiting (.resetB _) => true
  | _ => false

/-- The request that the worker is handling. -/
def Worker.handling : Worker ι → Option (ι × ℕ)
  | .fetchId req | .startChannel req _ => some (req.sender, req.session)
  | .respond resp => some (resp.sender, resp.session)
  | _ => none

/-- The client has consumed a `connect_ack` and not let go of the session. -/
def Client.active : Client ι → Bool
  | .connecting pc => pc.acked || pc.accepted
  | .idle => false
  | _ => true

/-- What the client will return. -/
def Client.returning : Client ι → Option (Response ι)
  | .dropping resp _ => resp
  | _ => none

/-- `c` consumed the signal of the last handshake. -/
def State.Mine (s : State ι) (c : ι) (session : ℕ) : Prop :=
  session = s.begun ∧ s.holder s.begun = some c

section Connect

variable {A B : Type*} {seg seg' : Segment A B} {w : WaitOutcome} {pc : Connect}

/-- Only the step that consumes `connect_ack` makes a client active. -/
theorem active_of_goto {pc' : Connect} (h : pc.step seg w = some (seg', .goto pc'))
    (hacks : pc.acks w = false) (ht : (Client.connecting (ι := ι) pc').active = true) :
    (Client.connecting (ι := ι) pc).active = true := by
  cases pc with
  | waitAck =>
    cases w with
    | signalled => cases hacks
    | timeout =>
      simp only [Connect.step] at h
      split_ifs at h
      cases h
      cases ht
    | failed e => cases h
  | loadServer => rfl
  | _ => cases h <;> first | rfl | cases ht

/-- Only a client that has consumed `connect_ack` returns from `connect` with `Ok`. -/
theorem active_of_done (h : pc.step seg w = some (seg', .done (.ok ()))) :
    (Client.connecting (ι := ι) pc).active = true := by
  cases pc with
  | waitAck => cases w <;> simp only [Connect.step] at h <;> (try split_ifs at h) <;> cases h
  | readyB => rfl
  | loadServer => rfl
  | _ => cases h

end Connect

structure Inv (s : State ι) : Prop where
  acked_le : s.acked ≤ s.begun
  taken_le : s.taken ≤ s.acked
  signalled : s.seg.connectAck = true → s.taken < s.acked
  handshaking : s.worker.handshaking = true → s.acked < s.begun
  holder_le : ∀ n c, s.holder n = some c → n ≤ s.taken
  active : ∀ c, (s.client c).active = true → s.holder (s.session c) = some c ∧
    ∀ r ∈ s.registered, r.session ≠ s.session c
  requests : s.worker.stale = false → ∀ r ∈ s.seg.ringB, s.Mine r.sender r.session
  handling : ∀ r ∈ s.worker.handling, s.Mine r.1 r.2
  responses : ∀ r ∈ s.seg.ringA, s.Mine r.sender r.session ∧
    (r.accepted = true → ⟨r.clientId, r.channelName, r.sender, r.session⟩ ∈ s.created)
  responding : ∀ r, s.worker = .respond r → r.accepted = true →
    ⟨r.clientId, r.channelName, r.sender, r.session⟩ ∈ s.created
  returning : ∀ c, ∀ r ∈ (s.client c).returning,
    ⟨r.clientId, r.channelName, c, s.session c⟩ ∈ s.created
  own : ∀ r ∈ s.registered, ⟨r.clientId, r.channelName, r.client, r.session⟩ ∈ s.created
  registered_le : ∀ r ∈ s.registered, r.session ≤ s.taken
  sessions : (s.registered.map Registered.session).Nodup
  nextClientId : s.nextClientId = UInt32.ofNat (s.fetched + 1)
  fetched_le : s.fetched ≤ 2 ^ 32
  starting : ∀ req clientId, s.worker = .startChannel req clientId →
    (∃ k < s.fetched, clientId = UInt32.ofNat (k + 1)) ∧
      clientId ∉ s.created.map Created.clientId
  clientIds : ∀ e ∈ s.created, ∃ k < s.fetched, e.clientId = UInt32.ofNat (k + 1)
  clientIds_nodup : (s.created.map Created.clientId).Nodup
  channelNames_nodup : (s.created.map Created.channelName).Nodup
  holders : ∀ c, c ∉ s.holders → s.client c = .idle

namespace Inv

variable {s s' : State ι}

theorem init : Inv ({} : State ι) := by
  constructor <;> simp [Worker.handshaking, Worker.handling, Client.active, Client.returning]

/-- Sessions of different clients are different. -/
theorem mine_unique {c d : ι} {n m : ℕ} (hc : s.Mine c n) (hd : s.Mine d m) : c = d :=
  Option.some.inj (hc.2.symm.trans hd.2)

/-- A step of the worker that touches neither ring and leads to no point that the invariant
speaks of. -/
theorem worker_move (h : Inv s) {seg : Segment (Response ι) (Request ι)} {t : Worker ι}
    (hA : seg.ringA = s.seg.ringA) (hB : seg.ringB = s.seg.ringB)
    (hack : seg.connectAck = s.seg.connectAck)
    (hhs : t.handshaking = true → s.worker.handshaking = true) (hst : s.worker.stale = false)
    (hh : t.handling = none) (hr : ∀ r, t ≠ .respond r) (hs : ∀ req i, t ≠ .startChannel req i) :
    Inv { s with seg := seg, worker := t } :=
  { h with
    signalled := fun ha => h.signalled (hack ▸ ha)
    handshaking := fun ht => h.handshaking (hhs ht)
    requests := fun _ r hm => h.requests hst r (hB ▸ hm)
    handling := fun r hm => by rw [hh] at hm; cases hm
    responses := fun r hm => h.responses r (hA ▸ hm)
    responding := fun r ht => absurd ht (hr r)
    starting := fun req i ht => absurd ht (hs req i) }

theorem worker_retry (h : Inv s) (hst : s.worker.stale = false) (e : ShmError) :
    Inv { s with worker := .afterError e } := by
  rw [Worker.afterError]
  split_ifs <;> exact h.worker_move rfl rfl rfl Bool.noConfusion hst rfl (by rintro _ ⟨⟩)
    (by rintro _ _ ⟨⟩)

theorem waitStep [DecidableEq ι] (h : Inv s) {pc : WaitForClient} (hs : s.worker = .waiting pc)
    {w : WaitOutcome}
    (hst : s.workerStep w = some s') : Inv s' := by
  have hstale := h.requests
  have hhs := h.handshaking
  rw [hs] at hstale hhs
  simp only [State.workerStep, hs] at hst
  cases pc with
  | waitReq =>
    cases w with
    | signalled | timeout =>
      simp only [WaitForClient.step, WaitForClient.begins, WaitForClient.signals,
        Bool.false_eq_true, ↓reduceIte] at hst
      split_ifs at hst <;> cases hst
      exact h.worker_move rfl rfl rfl Bool.noConfusion (by rw [hs]; rfl) rfl (by rintro _ ⟨⟩)
        (by rintro _ _ ⟨⟩)
    | failed e =>
      cases hst
      exact h.worker_retry (by rw [hs]; rfl) e
  | loadClient =>
    simp only [WaitForClient.step, WaitForClient.begins, WaitForClient.signals,
      Bool.false_eq_true, ↓reduceIte] at hst
    split_ifs at hst <;> cases hst <;>
      exact h.worker_move rfl rfl rfl Bool.noConfusion (by rw [hs]; rfl) rfl (by rintro _ ⟨⟩)
        (by rintro _ _ ⟨⟩)
  | loadGeneration =>
    cases hst
    exact h.worker_move rfl rfl rfl Bool.noConfusion (by rw [hs]; rfl) rfl (by rintro _ ⟨⟩)
      (by rintro _ _ ⟨⟩)
  | resetA generation =>
    cases hst
    exact { h with
      acked_le := h.acked_le.trans (Nat.le_succ _)
      handshaking := fun _ => Nat.lt_succ_of_le h.acked_le
      requests := by rintro ⟨⟩
      handling := by rintro _ ⟨⟩
      responses := by rintro _ ⟨⟩
      responding := by rintro _ ⟨⟩
      starting := by rintro _ _ ⟨⟩ }
  | resetB generation =>
    cases hst
    exact { h with
      handshaking := fun _ => hhs rfl
      requests := by rintro _ _ ⟨⟩
      handling := by rintro _ ⟨⟩
      responding := by rintro _ ⟨⟩
      starting := by rintro _ _ ⟨⟩ }
  | storeGeneration | readyA | readyB | readyServer | readyClient =>
    cases hst
    exact h.worker_move rfl rfl rfl (fun _ => by rw [hs]; rfl) (by rw [hs]; rfl) rfl
      (by rintro _ ⟨⟩) (by rintro _ _ ⟨⟩)
  | setAck =>
    cases hst
    exact { h with
      acked_le := le_rfl
      taken_le := h.taken_le.trans h.acked_le
      signalled := fun _ => h.taken_le.trans_lt (hhs rfl)
      handshaking := Bool.noConfusion
      requests := fun _ => hstale rfl
      handling := by rintro _ ⟨⟩
      responding := by rintro _ ⟨⟩
      starting := by rintro _ _ ⟨⟩ }

theorem mem_push {α : Type*} (q : DropOldest α) {Q : List α} {a b : α} (h : b ∈ q.push Q a) :
    b ∈ Q ∨ b = a :=
  (List.mem_append.1 h).imp List.mem_of_mem_drop List.mem_singleton.1

theorem nodup_snoc {α : Type*} {l : List α} {a : α} (h : l.Nodup) (ha : a ∉ l) :
    (l ++ [a]).Nodup := by
  rw [← List.concat_eq_append]
  exact h.concat ha

/-- Ids taken within `2 ^ 32` registrations are different. -/
theorem ofNat_succ_ne {k n : ℕ} (hk : k < n) (hn : n < 2 ^ 32) :
    UInt32.ofNat (k + 1) ≠ UInt32.ofNat (n + 1) := fun h => by
  have := congrArg UInt32.toNat h
  rw [toNat_ofNat, toNat_ofNat] at this
  omega

theorem workerStep [DecidableEq ι] (h : Inv s) {w : WaitOutcome} (ho : OwnSession s (.worker w))
    (hst : s.workerStep w = some s') : Inv s' := by
  cases hs : s.worker with
  | ended | startChannel => simp [State.workerStep, hs] at hst
  | waiting pc => exact h.waitStep hs hst
  | down =>
    simp only [State.workerStep, hs] at hst
    split_ifs at hst <;> cases hst
    · exact h.worker_move rfl rfl rfl Bool.noConfusion (by rw [hs]; rfl) rfl (by rintro _ ⟨⟩)
        (by rintro _ _ ⟨⟩)
    · exact { h with
        signalled := Bool.noConfusion
        handshaking := Bool.noConfusion
        requests := by rintro _ _ ⟨⟩
        handling := by rintro _ ⟨⟩
        responses := by rintro _ ⟨⟩
        responding := by rintro _ ⟨⟩
        starting := by rintro _ _ ⟨⟩ }
    · exact h
  | head =>
    simp only [State.workerStep, hs] at hst
    split_ifs at hst <;> cases hst <;>
      exact h.worker_move rfl rfl rfl Bool.noConfusion (by rw [hs]; rfl) rfl (by rintro _ ⟨⟩)
        (by rintro _ _ ⟨⟩)
  | receive =>
    have hreq := h.requests (by rw [hs]; rfl)
    simp only [State.workerStep, hs] at hst
    cases hB : s.seg.ringB with
    | nil =>
      simp only [hB] at hst
      cases hst
      exact h
    | cons req rest =>
      simp only [hB] at hst
      cases hst
      rw [hB] at hreq
      exact { h with
        handshaking := Bool.noConfusion
        requests := fun _ r hm => hreq r (List.mem_cons_of_mem _ hm)
        handling := fun r hm => by
          cases hm
          exact hreq req List.mem_cons_self
        responding := by rintro _ ⟨⟩
        starting := by rintro _ _ ⟨⟩ }
  | fetchId req =>
    have hreq := h.requests (by rw [hs]; rfl)
    have hhd := h.handling
    rw [hs] at hhd
    simp only [OwnSession, hs] at ho
    simp only [State.workerStep, hs] at hst
    cases hst
    exact { h with
      handshaking := Bool.noConfusion
      requests := fun _ => hreq
      handling := hhd
      responding := by rintro _ ⟨⟩
      nextClientId := by
        change s.nextClientId + 1 = _
        rw [h.nextClientId, ← ofNat_add (s.fetched + 1) 1]
        rfl
      fetched_le := ho
      starting := fun req' i hi => by
        cases hi
        refine ⟨⟨s.fetched, Nat.lt_succ_self _, h.nextClientId⟩, fun hm => ?_⟩
        obtain ⟨e, he, hid⟩ := List.mem_map.1 hm
        obtain ⟨k, hk, hek⟩ := h.clientIds e he
        exact ofNat_succ_ne hk ho (by rw [← hek, hid, h.nextClientId])
      clientIds := fun e he => by
        obtain ⟨k, hk, hek⟩ := h.clientIds e he
        exact ⟨k, Nat.lt_succ_of_lt hk, hek⟩ }
  | respond resp =>
    have hreq := h.requests (by rw [hs]; rfl)
    have hhd := h.handling
    have hresp := h.responding resp hs
    rw [hs] at hhd
    simp only [State.workerStep, hs] at hst
    cases hst
    exact { h with
      handshaking := Bool.noConfusion
      requests := fun _ => hreq
      handling := by rintro _ ⟨⟩
      responses := fun r hm => (mem_push _ hm).elim (h.responses r) fun hr => by
        subst hr
        exact ⟨hhd _ rfl, hresp⟩
      responding := by rintro _ ⟨⟩
      starting := by rintro _ _ ⟨⟩ }
  | marking pc =>
    simp only [State.workerStep, hs] at hst
    obtain ⟨hA, hB, hack, -⟩ := pc.step_frame s.seg
    split at hst <;> rename_i hn <;> rw [hn] at hA hB hack <;> cases hst <;>
      exact h.worker_move hA hB hack Bool.noConfusion (by rw [hs]; rfl) rfl (by rintro _ ⟨⟩)
        (by rintro _ _ ⟨⟩)
  | dropping pc =>
    simp only [State.workerStep, hs] at hst
    obtain ⟨hA, hB, hack, -⟩ := pc.step_frame s.seg false
    split at hst <;> rename_i hn <;> rw [hn] at hA hB hack <;> cases hst <;>
      exact h.worker_move hA hB hack Bool.noConfusion (by rw [hs]; rfl) rfl (by rintro _ ⟨⟩)
        (by rintro _ _ ⟨⟩)

theorem channelStep [DecidableEq ι] (h : Inv s) {name : String} {started : Bool}
    (ho : OwnSession s (.channel name started))
    (hst : s.step (.channel name started) = some s') : Inv s' := by
  simp only [State.step] at hst
  cases hs : s.worker with
  | startChannel req clientId =>
    have hreq := h.requests (by rw [hs]; rfl)
    have hhd := h.handling
    obtain ⟨⟨k, hk, hid⟩, hnew⟩ := h.starting req clientId hs
    rw [hs] at hhd
    simp only [hs] at hst
    split_ifs at hst <;> cases hst
    · exact { h with
        handshaking := Bool.noConfusion
        requests := fun _ => hreq
        handling := hhd
        responses := fun r hm => (h.responses r hm).imp_right fun hr ha =>
          List.mem_append_left _ (hr ha)
        responding := fun r hr _ => by
          cases hr
          simp
        returning := fun c r hc => List.mem_append_left _ (h.returning c r hc)
        own := fun r hr => List.mem_append_left _ (h.own r hr)
        starting := by rintro _ _ ⟨⟩
        clientIds := fun e he => (List.mem_append.1 he).elim (h.clientIds e) fun he => by
          rw [List.mem_singleton.1 he]
          exact ⟨k, hk, hid⟩
        clientIds_nodup := by
          rw [List.map_append]
          exact nodup_snoc h.clientIds_nodup hnew
        channelNames_nodup := by
          rw [List.map_append]
          exact nodup_snoc h.channelNames_nodup ho }
    · exact { h with
        handshaking := Bool.noConfusion
        requests := fun _ => hreq
        handling := hhd
        responding := fun r hr ha => by
          cases hr
          cases ha
        starting := by rintro _ _ ⟨⟩ }
  | _ => simp [hs] at hst

/-! ### The clients -/

/-- Not in the lobby, or with the segment open. -/
theorem mem_holders [DecidableEq ι] (h : Inv s) {c : ι} (hc : s.client c ≠ .idle) :
    c ∈ s.holders :=
  not_not.1 fun hm => hc (h.holders c hm)

/-- A step of client `c` that takes nothing from the rings. -/
theorem client_move [DecidableEq ι] (h : Inv s) {seg : Segment (Response ι) (Request ι)} {c : ι}
    {t : Client ι} (hA : seg.ringA = s.seg.ringA) (hB : seg.ringB = s.seg.ringB)
    (hack : seg.connectAck = true → s.seg.connectAck = true)
    (hact : t.active = true → (s.client c).active = true)
    (hret : ∀ r ∈ t.returning, ⟨r.clientId, r.channelName, c, s.session c⟩ ∈ s.created)
    (hc : c ∈ s.holders) :
    Inv { s with seg := seg, client := Function.update s.client c t } :=
  { h with
    signalled := fun ha => h.signalled (hack ha)
    active := forall_update (P := fun t : Client ι => t.active = true)
      (fun ht => h.active c (hact ht)) h.active
    requests := fun ht r hm => h.requests ht r (hB ▸ hm)
    responses := fun r hm => h.responses r (hA ▸ hm)
    returning := fun d r => forall_update (P := fun t : Client ι => r ∈ t.returning)
      (Q := fun d => ⟨r.clientId, r.channelName, d, s.session d⟩ ∈ s.created)
      (hret r) (fun d => h.returning d r) d
    holders := fun d hd => by
      have hdc : d ≠ c := fun hdc => hd (hdc ▸ hc)
      exact (Function.update_of_ne hdc _ _).trans (h.holders d hd) }

/-- The client consumes the signal: a session that nobody has had before. -/
theorem client_ack [DecidableEq ι] (h : Inv s) {c : ι} (hack : s.seg.connectAck = true)
    (hc : c ∈ s.holders) :
    Inv { s with
      seg := { s.seg with connectAck := false }
      taken := s.acked
      holder := Function.update s.holder s.acked (some c)
      session := Function.update s.session c s.acked
      client := Function.update s.client c (.connecting .loadServer) } := by
  have hlt := h.signalled hack
  -- what was held before stays held
  have hold {n : ℕ} {d : ι} (hd : s.holder n = some d) :
      Function.update s.holder s.acked (some c) n = some d := by
    rw [Function.update_of_ne (by have := h.holder_le n d hd; omega), hd]
  have hmine {d : ι} {n : ℕ} (hd : s.Mine d n) :
      n = s.begun ∧ Function.update s.holder s.acked (some c) s.begun = some d :=
    ⟨hd.1, hold hd.2⟩
  exact
    { h with
      taken_le := le_rfl
      signalled := Bool.noConfusion
      holder_le := fun n d hd => by
        by_cases hn : n = s.acked
        · exact hn.le
        · exact (h.holder_le n d ((Function.update_of_ne hn _ _).symm.trans hd)).trans hlt.le
      active := fun d hd => by
        by_cases hdc : d = c
        · subst hdc
          simp only [Function.update_self]
          exact ⟨trivial, fun r hr => ((h.registered_le r hr).trans_lt hlt).ne⟩
        · simp only [Function.update_of_ne hdc] at hd ⊢
          exact ⟨hold (h.active d hd).1, (h.active d hd).2⟩
      requests := fun ht r hm => hmine (h.requests ht r hm)
      handling := fun r hm => hmine (h.handling r hm)
      responses := fun r hm => ⟨hmine (h.responses r hm).1, (h.responses r hm).2⟩
      returning := fun d r hd => by
        by_cases hdc : d = c
        · subst hdc
          simp [Client.returning] at hd
        · simp only [Function.update_of_ne hdc] at hd ⊢
          exact h.returning d r hd
      registered_le := fun r hr => (h.registered_le r hr).trans hlt.le
      holders := fun d hd => by
        have hdc : d ≠ c := fun hdc => hd (hdc ▸ hc)
        exact (Function.update_of_ne hdc _ _).trans (h.holders d hd) }

/-- The client returns: an `Ok` is the only one of its session. -/
theorem return_ [DecidableEq ι] (h : Inv s) {seg : Segment (Response ι) (Request ι)} {c : ι}
    {resp : Option (Response ι)} (hA : seg.ringA = s.seg.ringA) (hB : seg.ringB = s.seg.ringB)
    (hack : seg.connectAck = true → s.seg.connectAck = true)
    (hact : resp ≠ none → (s.client c).active = true)
    (hret : ∀ r ∈ resp, ⟨r.clientId, r.channelName, c, s.session c⟩ ∈ s.created) :
    Inv (State.return_ { s with seg := seg } c resp) := by
  have hactive : ∀ d, (Function.update s.client c .idle d).active = true →
      s.holder (s.session d) = some d ∧ ∀ r ∈ s.registered, r.session ≠ s.session d :=
    forall_update (P := fun t : Client ι => t.active = true) Bool.noConfusion h.active
  have hreturning (d : ι) (r : Response ι) : r ∈ (Function.update s.client c .idle d).returning →
      ⟨r.clientId, r.channelName, d, s.session d⟩ ∈ s.created :=
    forall_update (P := fun t : Client ι => r ∈ t.returning) (by rintro ⟨⟩) (h.returning · r) d
  have hholders (d : ι) (hd : d ∉ s.holders.erase c) :
      Function.update s.client c .idle d = .idle := by
    by_cases hdc : d = c
    · rw [hdc, Function.update_self]
    · rw [Function.update_of_ne hdc]
      exact h.holders d fun hm => hd (Finset.mem_erase.2 ⟨hdc, hm⟩)
  cases resp with
  | none =>
    exact { h with
      signalled := fun ha => h.signalled (hack ha)
      active := hactive
      requests := fun ht r hm => h.requests ht r (hB ▸ hm)
      responses := fun r hm => h.responses r (hA ▸ hm)
      returning := hreturning
      holders := hholders }
  | some r =>
    obtain ⟨hheld, hnew⟩ := h.active c (hact (by rintro ⟨⟩))
    exact { h with
      signalled := fun ha => h.signalled (hack ha)
      active := fun d hd => by
        refine ⟨(hactive d hd).1, fun e he => ?_⟩
        rcases List.mem_append.1 he with he | he
        · exact (hactive d hd).2 e he
        · rw [List.mem_singleton.1 he]
          -- the sessions of two clients differ, and `c` has left
          intro hcd
          have hd' := (hactive d hd).1
          rw [← show s.session c = s.session d from hcd, hheld] at hd'
          rw [← Option.some.inj hd'] at hd
          simp [State.return_, Client.active] at hd
      requests := fun ht r hm => h.requests ht r (hB ▸ hm)
      responses := fun r hm => h.responses r (hA ▸ hm)
      returning := hreturning
      own := fun e he => (List.mem_append.1 he).elim (h.own e) fun he => by
        rw [List.mem_singleton.1 he]
        exact hret r rfl
      registered_le := fun e he => (List.mem_append.1 he).elim (h.registered_le e) fun he => by
        rw [List.mem_singleton.1 he]
        exact h.holder_le _ _ hheld
      sessions := by
        change ((s.registered ++ [_]).map Registered.session).Nodup
        rw [List.map_append]
        refine nodup_snoc h.sessions fun hm => ?_
        obtain ⟨e, he, hes⟩ := List.mem_map.1 hm
        exact hnew e he hes
      holders := hholders }

theorem connectStep [DecidableEq ι] (h : Inv s) {c : ι} {pc : Connect}
    (hs : s.client c = .connecting pc) {w : WaitOutcome} (hst : s.clientStep c w = some s') :
    Inv s' := by
  have hc := h.mem_holders (c := c) (by rw [hs]; rintro ⟨⟩)
  simp only [State.clientStep, hs] at hst
  obtain ⟨⟨seg, next⟩, hpc, hst⟩ := Option.map_eq_some_iff.1 hst
  obtain ⟨hA, hB, -, -, hack⟩ := pc.step_frame s.seg hpc
  cases hacks : pc.acks w with
  | true =>
    cases pc <;> try cases hacks
    cases w <;> try cases hacks
    simp only [Connect.step] at hpc
    split_ifs at hpc with hsig
    cases hpc
    cases hst
    exact h.client_ack hsig hc
  | false =>
    simp only [hacks, Bool.false_eq_true, ↓reduceIte] at hst
    cases next with
    | goto pc' =>
      cases hst
      refine h.client_move hA hB hack (fun ht => ?_) (by rintro _ ⟨⟩) hc
      rw [hs]
      exact active_of_goto hpc hacks ht
    | done r =>
      cases r with
      | ok u =>
        cases hst
        refine h.client_move hA hB hack (fun _ => ?_) (by rintro _ ⟨⟩) hc
        rw [hs]
        exact active_of_done hpc
      | error e =>
        cases hst
        exact h.return_ hA hB hack (absurd rfl) (by rintro _ ⟨⟩)

theorem clientStep [DecidableEq ι] (h : Inv s) {c : ι} {w : WaitOutcome}
    (ho : OwnSession s (.client c w)) (hst : s.clientStep c w = some s') : Inv s' := by
  cases hs : s.client c with
  | idle => simp [State.clientStep, hs] at hst
  | connecting pc => exact h.connectStep hs hst
  | sendRequest =>
    have hc := h.mem_holders (c := c) (by rw [hs]; rintro ⟨⟩)
    have hact := h.active c (by rw [hs]; rfl)
    have hmine : s.Mine c (s.session c) := by
      refine ⟨ho (.inl hs), ?_⟩
      rw [← ho (.inl hs)]
      exact hact.1
    simp only [State.clientStep, hs] at hst
    cases hst
    have hI : Inv { s with seg := { s.seg with
        ringB := (requestQueue ι).push s.seg.ringB ⟨s.registration c, c, s.session c⟩ } } :=
      { h with
        requests := fun ht r hm => by
          rcases mem_push _ hm with hr | rfl
          exacts [h.requests ht r hr, hmine] }
    exact hI.client_move rfl rfl id (fun _ => by rw [hs]; rfl) (by rintro _ ⟨⟩) hc
  | receive =>
    have hc := h.mem_holders (c := c) (by rw [hs]; rintro ⟨⟩)
    have hact := h.active c (by rw [hs]; rfl)
    simp only [State.clientStep, hs] at hst
    cases hA : s.seg.ringA with
    | nil =>
      simp only [hA] at hst
      cases hst
      exact h
    | cons r rest =>
      simp only [hA] at hst
      cases hst
      have hown : s.session c = s.begun := ho (.inr ⟨hs, by rw [hA]; rintro ⟨⟩⟩)
      have hresp := h.responses
      rw [hA] at hresp
      obtain ⟨hmine, hcreated⟩ := hresp r List.mem_cons_self
      have hsender : r.sender = c := mine_unique hmine ⟨hown, by rw [← hown]; exact hact.1⟩
      have hI : Inv { s with seg := { s.seg with ringA := rest } } :=
        { h with responses := fun e he => hresp e (List.mem_cons_of_mem _ he) }
      refine hI.client_move rfl rfl id (fun _ => by rw [hs]; rfl) (fun e he => ?_) hc
      simp only [Client.returning] at he
      split_ifs at he with hacc
      · cases he
        have := hcreated hacc
        rw [hsender, hmine.1, ← hown] at this
        exact this
      · cases he
  | dropping resp pc =>
    have hc := h.mem_holders (c := c) (by rw [hs]; rintro ⟨⟩)
    have hret := h.returning c
    rw [hs] at hret
    simp only [State.clientStep, hs] at hst
    obtain ⟨hA, hB, hack, -⟩ := pc.step_frame s.seg
    split at hst <;> rename_i hn <;> rw [hn] at hA hB hack <;> cases hst
    · exact h.client_move hA hB (hack ▸ id) (fun _ => by rw [hs]; rfl) hret hc
    · exact h.return_ hA hB (hack ▸ id) (fun _ => by rw [hs]; rfl) hret

theorem step [DecidableEq ι] (h : Inv s) {l : Label ι} (ho : OwnSession s l)
    (hst : s.step l = some s') : Inv s' := by
  cases l with
  | stop =>
    cases hst
    exact { h with }
  | worker w => exact h.workerStep ho hst
  | giveUp =>
    simp only [State.step] at hst
    split_ifs at hst with hs
    cases hst
    exact h.worker_move rfl rfl rfl Bool.noConfusion (by rw [hs]; rfl) rfl (by rintro _ ⟨⟩)
      (by rintro _ _ ⟨⟩)
  | channel name started => exact h.channelStep ho hst
  | register c registration =>
    simp only [State.step] at hst
    split_ifs at hst
    cases hst
    have hI : Inv { s with
        registration := Function.update s.registration c registration
        holders := insert c s.holders } :=
      { h with holders := fun d hd => h.holders d fun hm => hd (Finset.mem_insert_of_mem hm) }
    exact hI.client_move rfl rfl id Bool.noConfusion (by rintro _ ⟨⟩) (Finset.mem_insert_self c _)
  | client c w => exact h.clientStep ho hst
  | responseTimeout c =>
    simp only [State.step] at hst
    split_ifs at hst with hs
    cases hst
    exact h.client_move rfl rfl id (fun _ => by rw [hs]; rfl) (by rintro _ ⟨⟩)
      (h.mem_holders (by rw [hs]; rintro ⟨⟩))

/-- A result is known by what the server created for it. -/
theorem registered_inj (h : Inv s) {α : Type*} {f : Created ι → α} {g : Registered ι → α}
    (hf : (s.created.map f).Nodup)
    (hfg : ∀ r : Registered ι, f ⟨r.clientId, r.channelName, r.client, r.session⟩ = g r) :
    (s.registered.map g).Nodup := by
  refine List.Nodup.map_on (fun r hr r' hr' hg => ?_) (List.Nodup.of_map _ h.sessions)
  have he := List.inj_on_of_nodup_map hf (h.own r hr) (h.own r' hr')
    ((hfg r).trans (hg.trans (hfg r').symm))
  exact List.inj_on_of_nodup_map h.sessions hr hr' (congrArg Created.session he)

theorem registeredOk (h : Inv s) : RegisteredOk s where
  own := h.own
  clientId := h.registered_inj h.clientIds_nodup fun _ => rfl
  channelName := h.registered_inj h.channelNames_nodup fun _ => rfl

end Inv

instance (s : State ι) (l : Label ι) : Decidable (OwnSession s l) :=
  match l with
  | .client c _ => inferInstanceAs <| Decidable
      (s.client c = .sendRequest ∨ s.client c = .receive ∧ s.seg.ringA ≠ [] →
        s.session c = s.begun)
  | .worker _ =>
    match h : s.worker with
    | .fetchId _ => decidable_of_iff (s.fetched < 2 ^ 32) (by simp [OwnSession, h])
    | .down | .head | .waiting _ | .receive | .startChannel _ _ | .respond _ | .marking _
    | .dropping _ | .ended => isTrue (by simp [OwnSession, h])
  | .channel name _ => inferInstanceAs <| Decidable (name ∉ s.created.map Created.channelName)
  | .stop | .giveUp | .register _ _ | .responseTimeout _ => isTrue trivial

end Lobby

open Lobby

/-- **Registration goes to the right client.**  If every client sends its request and takes a
response only while no handshake has begun after the one that it was answered by, then each result
of `lobby_register` is what the server created for that client's own request, and no two results
share an id or a channel. -/
theorem registered_of_ownSession {ι : Type*} [DecidableEq ι] {s : State ι}
    (h : (Lobby.system ι).ReachWhen OwnSession s) : RegisteredOk s :=
  Inv.registeredOk <| h.invariant (fun s (h₀ : s = {}) => h₀ ▸ Inv.init) fun _ _ _ hi hc hst =>
    hi.step hc hst

namespace Lobby

section Runs

variable {ι : Type*} (c : ι)

/-- A client registers up to its wait for `connect_ack`. -/
def hello : List (Label ι) := .register c ⟨1, 1, "a"⟩ :: List.replicate 4 (.client c .signalled)

/-- The worker, about to wait, performs a handshake. -/
def handshake : List (Label ι) := List.replicate 12 (.worker .signalled)

/-- The worker answers the request in the ring with a channel of that name. -/
def answer (name : String) : List (Label ι) :=
  [.worker .signalled, .worker .signalled, .channel name true, .worker .signalled]

/-- The client consumes `connect_ack` and sends its request. -/
def request : List (Label ι) := List.replicate 8 (.client c .signalled)

/-- The client takes a response and returns. -/
def finish : List (Label ι) := List.replicate 5 (.client c .signalled)

end Runs

/-- Two clients register, one after the other. -/
def twoRegistrations : List (Label Bool) :=
  .worker .signalled :: hello false ++ handshake ++ request false ++ answer "x" ++ finish false ++
    List.replicate 4 (.worker .signalled) ++ hello true ++ handshake ++ request true ++
      answer "y" ++
    finish true

/-- The worker answers `false`, then `true`; the response to `true` is the first that `false`
reads. -/
def lateRead : List (Label Bool) :=
  .worker .signalled :: hello false ++ handshake ++ request false ++ answer "x" ++
    List.replicate 4 (.worker .signalled) ++ hello true ++ handshake ++ request true ++
      answer "y" ++
    finish false

end Lobby

theorem registered_of_ownSession_twoRegistrations : ∃ s : State Bool,
    RegisteredOk s ∧ s.registered = [⟨false, 1, 1, "x"⟩, ⟨true, 2, 2, "y"⟩] := by
  obtain ⟨s, h, hs⟩ := System.exists_reachWhen (A := Lobby.system Bool) (C := OwnSession)
    (s := {}) (r := twoRegistrations) (f := State.registered)
    (t := [⟨false, 1, 1, "x"⟩, ⟨true, 2, 2, "y"⟩]) rfl (by decide +kernel)
  exact ⟨s, registered_of_ownSession h, hs⟩

/-- A client that reads late gets the id and the channel of the next client. -/
theorem not_registered : ¬ ∀ (ι : Type) [DecidableEq ι] (s : State ι),
    (Lobby.system ι).Reach s → RegisteredOk s := by
  intro h
  obtain ⟨s, hr, hs⟩ := System.exists_reachWhen (A := Lobby.system Bool) (C := fun _ _ => True)
    (s := {}) (r := lateRead) (f := fun s => (s.registered, s.created))
    (t := ([⟨false, 1, 2, "y"⟩], [⟨1, "x", false, 1⟩, ⟨2, "y", true, 2⟩])) rfl (by decide +kernel)
  simp only [Prod.mk.injEq] at hs
  have := (h Bool s hr).own ⟨false, 1, 2, "y"⟩ (by rw [hs.1]; exact List.mem_singleton_self _)
  rw [hs.2] at this
  simp at this

end Xshm
