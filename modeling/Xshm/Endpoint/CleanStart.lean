import Xshm.System.Basic
import Xshm.Endpoint.Segment

/-!
# One server, any number of clients

The interleavings of a `SharedServer` with clients that call `SharedClient::connect` on its
segment, one after another or at the same time: every access of `connect`, `wait_for_client`,
`mark_disconnected` and the two `Drop`s to the control block and the events is one step.  So is a
reset of a ring, and a send or a receive of a message; `Xshm.Endpoint.Reconnect` takes these apart.
A `set` of an event does not fail here (`Xshm.Endpoint.HandshakeErrors` has the paths on which it
does).

A client believes that it is connected when a wait on `connect_ack` succeeds and `server_state` is
`SERVER_READY`.  A signal that an earlier client has not consumed and the state of an earlier
handshake look the same.  `HelloClean` excludes them at the moment the client stores
`CLIENT_HELLO`; then `connect` returns `Ok` only after a handshake that began later
(`CleanStart.Inv.connected`).
-/

namespace Xshm

namespace CleanStart

/-- What the thread of the server is doing. -/
inductive ServerThread where
  | idle
  | waiting (pc : WaitForClient)
  | marking (pc : MarkDisconnected)
  | dropping (pc : DropServer)
  | dropped
  deriving DecidableEq

/-- What the thread of a client is doing. -/
inductive ClientThread where
  | idle
  | connecting (pc : Connect)
  | connected
  | dropping (pc : DropClient)
  deriving DecidableEq

namespace ServerThread

/-- A handshake is in progress. -/
def handshaking : ServerThread → Bool
  | .waiting pc => pc.handshaking
  | _ => false

/-- The handshake in progress has published its generation. -/
def published : ServerThread → Bool
  | .waiting pc => pc.published
  | _ => false

end ServerThread

namespace ClientThread

/-- The client waits for the answer to its `CLIENT_HELLO`. -/
def waiting : ClientThread → Bool
  | .connecting pc => pc.waiting
  | _ => false

/-- The client has consumed `connect_ack`. -/
def acked : ClientThread → Bool
  | .connecting pc => pc.acked
  | _ => false

/-- The client has taken what it saw for the answer. -/
def accepted : ClientThread → Bool
  | .connecting pc => pc.accepted
  | .connected => true
  | _ => false

end ClientThread

/-- The states.  The record of a message is the number of handshakes begun when it was sent. -/
structure State (ι : Type*) where
  seg : Segment (Message ℕ) Payload := {}
  server : ServerThread := .idle
  /-- The field `connected` of the server. -/
  connected : Bool := false
  client : ι → ClientThread := fun _ => .idle
  /-- Record: the handshakes begun, each by its reset of the first ring. -/
  begun : ℕ := 0
  /-- Record: the last handshake that has reset the rings and published its generation. -/
  performed : ℕ := 0
  /-- Record: the handshakes begun when the client last stored `CLIENT_HELLO`. -/
  hello : ι → ℕ := fun _ => 0
  /-- Record: what a client has received since it last called `connect`. -/
  received : ι → List (Message ℕ) := fun _ => []

/-- Who moves. -/
inductive Label (ι : Type*) where
  | callWait
  | send (p : Payload)
  | markDisconnected
  | dropServer
  | server (w : WaitOutcome)
  | callConnect (c : ι)
  | receive (c : ι)
  | dropClient (c : ι)
  | client (c : ι) (w : WaitOutcome)
  deriving DecidableEq

variable {ι : Type*} [DecidableEq ι]

/-- The next access of the server. -/
def State.serverStep (s : State ι) (w : WaitOutcome) : Option (State ι) :=
  match s.server with
  | .idle | .dropped => none
  | .waiting pc =>
    (pc.step s.seg w).map fun (seg, next) =>
      let s' := { s with
        seg := seg
        begun := if pc.begins then s.begun + 1 else s.begun
        performed := if pc.publishes then s.begun else s.performed }
      match next with
      | .goto pc' => { s' with server := .waiting pc' }
      | .done (.ok ()) => { s' with server := .idle, connected := true }
      | .done (.error _) => { s' with server := .idle }
  | .marking pc =>
    match pc.step s.seg with
    | (seg, .goto pc') => some { s with seg := seg, server := .marking pc' }
    | (seg, .done _) => some { s with seg := seg, server := .idle }
  | .dropping pc =>
    match pc.step s.seg s.connected with
    | (seg, .goto pc') => some { s with seg := seg, server := .dropping pc' }
    | (seg, .done _) => some { s with seg := seg, server := .dropped }

/-- The next access of a client. -/
def State.clientStep (s : State ι) (c : ι) (w : WaitOutcome) : Option (State ι) :=
  match s.client c with
  | .idle | .connected => none
  | .connecting pc =>
    (pc.step s.seg w).map fun (seg, next) =>
      { s with
        seg := seg
        hello := if pc.hellos then Function.update s.hello c s.begun else s.hello
        client := Function.update s.client c <|
          match next with
          | .goto pc' => .connecting pc'
          | .done (.ok ()) => .connected
          | .done (.error _) => .idle }
  | .dropping pc =>
    match pc.step s.seg with
    | (seg, .goto pc') =>
      some { s with seg := seg, client := Function.update s.client c (.dropping pc') }
    | (seg, .done _) => some { s with seg := seg, client := Function.update s.client c .idle }

/-- One step. -/
def State.step (s : State ι) : Label ι → Option (State ι)
  | .callWait =>
    -- a connected server gets `AlreadyConnected`
    if s.server = .idle ∧ s.connected = false then some { s with server := .waiting .waitReq }
    else none
  | .send p =>
    if s.server = .idle ∧ s.connected = true then
      some { s with seg := { s.seg with ringA := pushMessage s.seg.ringA ⟨p, s.begun⟩ } }
    else none
  | .markDisconnected =>
    if s.server = .idle then some { s with server := .marking .storeServer, connected := false }
    else none
  | .dropServer =>
    if s.server = .idle then some { s with server := .dropping (.store .storeServer) } else none
  | .server w => s.serverStep w
  | .callConnect c =>
    if s.client c = .idle then
      some { s with
        client := Function.update s.client c (.connecting .storeClient)
        received := Function.update s.received c [] }
    else none
  | .receive c =>
    match s.client c, s.seg.ringA with
    | .connected, m :: rest =>
      some { s with
        seg := { s.seg with ringA := rest }
        received := Function.update s.received c (s.received c ++ [m]) }
    | _, _ => none
  | .dropClient c =>
    if s.client c = .connected then
      some { s with client := Function.update s.client c (.dropping .storeClient) }
    else none
  | .client c w => s.clientStep c w

/-- A server that has just been started and its clients. -/
def system (ι : Type*) [DecidableEq ι] : System (State ι) (Label ι) where
  init s := s = {}
  step := State.step

/-- If the next step stores `CLIENT_HELLO`, then no handshake is in progress, and `connect_ack` is
not left over from one whose `SERVER_READY` still stands. -/
def HelloClean (s : State ι) (l : Label ι) : Prop :=
  ∀ c w, l = .client c w → s.client c = .connecting .storeClient →
    s.server.handshaking = false ∧
      ¬ (s.seg.connectAck = true ∧ s.seg.serverState = handshakeServerReady)

/-! ### The invariant -/

/-- The invariant: what a client takes for the answer to its `CLIENT_HELLO` is one. -/
structure Inv (s : State ι) : Prop where
  performed_le : s.performed ≤ s.begun
  hello_le : ∀ c, s.hello c ≤ s.begun
  published : s.server.published = true → s.performed = s.begun
  handshaking : s.server.handshaking = true → ∀ c,
    (s.client c).waiting = true ∨ (s.client c).acked = true → s.hello c < s.begun
  waiting : s.seg.connectAck = true → s.seg.serverState = handshakeServerReady →
    ∀ c, (s.client c).waiting = true → s.hello c < s.performed
  acked : s.seg.serverState = handshakeServerReady →
    ∀ c, (s.client c).acked = true → s.hello c < s.performed
  accepted : ∀ c, (s.client c).accepted = true → s.hello c < s.performed

namespace Inv

variable {s s' : State ι}

omit [DecidableEq ι]

theorem init : Inv ({} : State ι) := by
  constructor <;> simp [ServerThread.published, ServerThread.handshaking, ClientThread.waiting,
    ClientThread.acked, ClientThread.accepted]

theorem performed_mono (h : Inv s) {c : ι} (hc : s.hello c < s.performed) : s.hello c < s.begun :=
  hc.trans_le h.performed_le

/-- A server step that stores nothing the invariant reads and leads to no point between a reset
and its signal. -/
theorem server_idle (h : Inv s) {seg : Segment (Message ℕ) Payload} {t : ServerThread}
    {connected : Bool}
    (hack : seg.connectAck = s.seg.connectAck)
    (hst : seg.serverState = s.seg.serverState ∨ seg.serverState = handshakeIdle)
    (hpub : t.published = true → s.server.published = true)
    (hhs : t.handshaking = true → s.server.handshaking = true) :
    Inv { s with seg := seg, server := t, connected := connected } := by
  have hready (hr : seg.serverState = handshakeServerReady) :
      s.seg.serverState = handshakeServerReady := by
    rcases hst with hst | hst
    · rw [← hst, hr]
    · rw [hst] at hr
      cases hr
  exact { h with
    published := fun hp => h.published (hpub hp)
    handshaking := fun hp => h.handshaking (hhs hp)
    waiting := fun ha hr => h.waiting (hack ▸ ha) (hready hr)
    acked := fun hr => h.acked (hready hr) }

theorem serverStep (h : Inv s) {w : WaitOutcome} (hst : s.serverStep w = some s') : Inv s' := by
  rw [State.serverStep] at hst
  cases hs : s.server with
  | idle | dropped => simp [hs] at hst
  | marking pc =>
    simp only [hs] at hst
    obtain ⟨-, -, hack, hse⟩ := pc.step_frame s.seg
    split at hst <;> rename_i hn <;> rw [hn] at hack hse <;> cases hst <;>
      exact h.server_idle hack hse Bool.noConfusion Bool.noConfusion
  | dropping pc =>
    simp only [hs] at hst
    obtain ⟨-, -, hack, hse⟩ := pc.step_frame s.seg s.connected
    split at hst <;> rename_i hn <;> rw [hn] at hack hse <;> cases hst <;>
      exact h.server_idle hack hse Bool.noConfusion Bool.noConfusion
  | waiting pc =>
    have hpub := h.published
    have hhs := h.handshaking
    rw [hs] at hpub hhs
    simp only [hs] at hst
    cases pc with
    | waitReq =>
      cases w with
      | signalled =>
        simp only [WaitForClient.step, WaitForClient.begins, WaitForClient.publishes,
          Bool.false_eq_true, ↓reduceIte] at hst
        split_ifs at hst <;> cases hst
        exact h.server_idle rfl (.inl rfl) Bool.noConfusion Bool.noConfusion
      | timeout =>
        simp only [WaitForClient.step, WaitForClient.begins, WaitForClient.publishes,
          Bool.false_eq_true, ↓reduceIte] at hst
        split_ifs at hst <;> cases hst
        exact h.server_idle rfl (.inl rfl) Bool.noConfusion Bool.noConfusion
      | failed e =>
        cases hst
        exact h.server_idle rfl (.inl rfl) Bool.noConfusion Bool.noConfusion
    | loadClient =>
      simp only [WaitForClient.step, WaitForClient.begins, WaitForClient.publishes,
        Bool.false_eq_true, ↓reduceIte] at hst
      split_ifs at hst <;> cases hst <;> exact h.server_idle rfl (.inl rfl) Bool.noConfusion
        Bool.noConfusion
    | loadGeneration =>
      cases hst
      exact h.server_idle rfl (.inl rfl) Bool.noConfusion Bool.noConfusion
    | resetA generation =>
      cases hst
      -- whoever has stored `CLIENT_HELLO` did so before this handshake
      exact { h with
        performed_le := h.performed_le.trans (Nat.le_succ _)
        hello_le := fun c => (h.hello_le c).trans (Nat.le_succ _)
        published := Bool.noConfusion
        handshaking := fun _ c _ => Nat.lt_succ_of_le (h.hello_le c) }
    | resetB generation =>
      cases hst
      exact { h with published := Bool.noConfusion, handshaking := fun _ => hhs rfl }
    | storeGeneration generation =>
      cases hst
      exact { h with
        performed_le := le_rfl
        published := fun _ => rfl
        handshaking := fun _ => hhs rfl
        waiting := fun ha hr c hc => h.performed_mono (h.waiting ha hr c hc)
        acked := fun hr c hc => h.performed_mono (h.acked hr c hc)
        accepted := fun c hc => h.performed_mono (h.accepted c hc) }
    | readyA | readyB | readyClient =>
      cases hst
      exact { h with published := fun _ => hpub rfl, handshaking := fun _ => hhs rfl }
    | readyServer =>
      cases hst
      have hp : s.performed = s.begun := hpub rfl
      exact { h with
        published := fun _ => hp
        handshaking := fun _ => hhs rfl
        waiting := fun _ _ c hc => hp ▸ hhs rfl c (.inl hc)
        acked := fun _ c hc => hp ▸ hhs rfl c (.inr hc) }
    | setAck =>
      cases hst
      have hp : s.performed = s.begun := hpub rfl
      exact { h with
        published := Bool.noConfusion
        handshaking := Bool.noConfusion
        waiting := fun _ _ c hc => hp ▸ hhs rfl c (.inl hc) }

/-- A step of client `c` that keeps what the invariant knows of it. -/
theorem client_step [DecidableEq ι] (h : Inv s) {seg : Segment (Message ℕ) Payload} {c : ι}
    {t : ClientThread}
    (hack : seg.connectAck = true → s.seg.connectAck = true)
    (hse : seg.serverState = s.seg.serverState)
    (hw : t.waiting = true → (s.client c).waiting = true)
    (hk : t.acked = true → s.server.handshaking = true → s.hello c < s.begun)
    (hk' : t.acked = true → s.seg.serverState = handshakeServerReady → s.hello c < s.performed)
    (hacc : t.accepted = true → s.hello c < s.performed) :
    Inv { s with seg := seg, client := Function.update s.client c t } := by
  exact { h with
    handshaking := fun hp => forall_update
      (P := fun t : ClientThread => t.waiting = true ∨ t.acked = true)
      (fun hc => hc.elim (fun hc => h.handshaking hp c (.inl (hw hc))) fun hc => hk hc hp)
      (h.handshaking hp)
    waiting := fun ha hr => forall_update (P := fun t : ClientThread => t.waiting = true)
      (fun hc => h.waiting (hack ha) (hse ▸ hr) c (hw hc)) (h.waiting (hack ha) (hse ▸ hr))
    acked := fun hr => forall_update (P := fun t : ClientThread => t.acked = true)
      (fun hc => hk' hc (hse ▸ hr)) (h.acked (hse ▸ hr))
    accepted := forall_update (P := fun t : ClientThread => t.accepted = true) hacc h.accepted }

/-- A client stores `CLIENT_HELLO` when nothing is left over that it could take for its answer. -/
theorem hello_step [DecidableEq ι] (h : Inv s) {c : ι}
    (hhs : s.server.handshaking = false)
    (hack : ¬ (s.seg.connectAck = true ∧ s.seg.serverState = handshakeServerReady)) :
    Inv { s with
      seg := { s.seg with clientState := handshakeClientHello }
      hello := Function.update s.hello c s.begun
      client := Function.update s.client c (.connecting .storeA) } where
  performed_le := h.performed_le
  hello_le d := by
    simp only [Function.update_apply]
    split_ifs
    exacts [le_rfl, h.hello_le d]
  published := h.published
  handshaking hp := absurd hp (by rw [hhs]; decide)
  waiting ha hr := absurd ⟨ha, hr⟩ hack
  acked hr d := by
    simp only [Function.update_apply]
    split_ifs
    exacts [Bool.noConfusion, h.acked hr d]
  accepted d := by
    simp only [Function.update_apply]
    split_ifs
    exacts [Bool.noConfusion, h.accepted d]

theorem clientStep [DecidableEq ι] (h : Inv s) {c : ι} {w : WaitOutcome}
    (hcl : HelloClean s (.client c w)) (hst : s.clientStep c w = some s') : Inv s' := by
  rw [State.clientStep] at hst
  cases hs : s.client c with
  | idle | connected => simp [hs] at hst
  | dropping pc =>
    simp only [hs] at hst
    obtain ⟨-, -, hack, hse⟩ := pc.step_frame s.seg
    split at hst <;> rename_i hn <;> rw [hn] at hack hse <;> cases hst <;>
      exact h.client_step (fun ha => hack ▸ ha) hse Bool.noConfusion Bool.noConfusion
        Bool.noConfusion Bool.noConfusion
  | connecting pc =>
    simp only [hs] at hst
    cases pc with
    | storeClient =>
      cases hst
      exact h.hello_step (hcl c w rfl hs).1 (hcl c w rfl hs).2
    | storeA | storeB | setReq =>
      cases hst
      exact h.client_step id rfl (fun _ => by rw [hs]; rfl) Bool.noConfusion Bool.noConfusion
        Bool.noConfusion
    | waitAck =>
      have hwait : (s.client c).waiting = true := by rw [hs]; rfl
      cases w with
      | signalled =>
        simp only [Connect.step, Connect.hellos, Bool.false_eq_true, ↓reduceIte] at hst
        split_ifs at hst with hack <;> cases hst
        exact h.client_step Bool.noConfusion rfl Bool.noConfusion
          (fun _ hp => h.handshaking hp c (.inl hwait))
          (fun _ hr => h.waiting hack hr c hwait) Bool.noConfusion
      | timeout =>
        simp only [Connect.step, Connect.hellos, Bool.false_eq_true, ↓reduceIte] at hst
        split_ifs at hst <;> cases hst
        exact h.client_step id rfl Bool.noConfusion Bool.noConfusion Bool.noConfusion
          Bool.noConfusion
      | failed e =>
        cases hst
        exact h.client_step id rfl Bool.noConfusion Bool.noConfusion Bool.noConfusion
          Bool.noConfusion
    | resetClient | resetA | resetB =>
      cases hst
      exact h.client_step id rfl Bool.noConfusion Bool.noConfusion Bool.noConfusion
        Bool.noConfusion
    | loadServer =>
      simp only [Connect.step, Connect.hellos, Bool.false_eq_true, ↓reduceIte] at hst
      split_ifs at hst with hr <;> cases hst
      · exact h.client_step id rfl Bool.noConfusion Bool.noConfusion Bool.noConfusion
          Bool.noConfusion
      · exact h.client_step id rfl Bool.noConfusion Bool.noConfusion Bool.noConfusion
          (fun _ => h.acked (not_not.1 hr) c (by rw [hs]; rfl))
    | loadGeneration | storeGenA | storeGenB | readyA | readyB =>
      cases hst
      exact h.client_step id rfl Bool.noConfusion Bool.noConfusion Bool.noConfusion
        (fun _ => h.accepted c (by rw [hs]; rfl))

/-- **A step at which no client mistakes a leftover for its answer keeps the invariant.** -/
theorem step [DecidableEq ι] (h : Inv s) {l : Label ι} (hcl : HelloClean s l)
    (hst : s.step l = some s') : Inv s' := by
  cases l with
  | callWait | markDisconnected | dropServer =>
    simp only [State.step] at hst
    split_ifs at hst
    cases hst
    exact h.server_idle rfl (.inl rfl) Bool.noConfusion Bool.noConfusion
  | send p =>
    simp only [State.step] at hst
    split_ifs at hst
    cases hst
    exact { h with }
  | server w => exact h.serverStep hst
  | callConnect c =>
    simp only [State.step] at hst
    split_ifs at hst
    cases hst
    exact { h with
      handshaking := fun hp => forall_update
        (P := fun t : ClientThread => t.waiting = true ∨ t.acked = true)
        (by rintro (⟨⟨⟩⟩ | ⟨⟨⟩⟩)) (h.handshaking hp)
      waiting := fun ha hr => forall_update (P := fun t : ClientThread => t.waiting = true)
        Bool.noConfusion (h.waiting ha hr)
      acked := fun hr => forall_update (P := fun t : ClientThread => t.acked = true)
        Bool.noConfusion (h.acked hr)
      accepted := forall_update (P := fun t : ClientThread => t.accepted = true) Bool.noConfusion
        h.accepted }
  | receive c =>
    simp only [State.step] at hst
    split at hst
    · cases hst
      exact { h with }
    · cases hst
  | dropClient c =>
    simp only [State.step] at hst
    split_ifs at hst
    cases hst
    exact h.client_step id rfl Bool.noConfusion Bool.noConfusion Bool.noConfusion
      Bool.noConfusion
  | client c w => exact h.clientStep hcl hst

/-- **A connected client has a handshake of its own.** -/
theorem connected (h : Inv s) {c : ι} (hc : s.client c = .connected) : s.hello c < s.performed :=
  h.accepted c (by rw [hc]; rfl)

end Inv

instance (s : State ι) (l : Label ι) : Decidable (HelloClean s l) :=
  match l with
  | .client c w =>
    decidable_of_iff (s.client c = .connecting .storeClient → s.server.handshaking = false ∧
        ¬ (s.seg.connectAck = true ∧ s.seg.serverState = handshakeServerReady)) <| by
      simp only [HelloClean, Label.client.injEq]
      constructor
      · rintro h c w ⟨rfl, rfl⟩
        exact h
      · exact fun h => h c w ⟨rfl, rfl⟩
  | .callWait | .send _ | .markDisconnected | .dropServer | .server _ | .callConnect _ | .receive _
  | .dropClient _ => isTrue (by simp [HelloClean])

/-- A client connects up to its wait for `connect_ack`. -/
def hello {ι : Type*} (c : ι) : List (Label ι) :=
  .callConnect c :: List.replicate 4 (.client c .signalled)

/-- A client whose wait for `connect_ack` succeeds connects. -/
def accept {ι : Type*} (c : ι) : List (Label ι) := List.replicate 7 (.client c .signalled)

/-- The server performs a handshake up to its signal. -/
def handshake {ι : Type*} : List (Label ι) := .callWait :: List.replicate 10 (.server .signalled)

end CleanStart

end Xshm
