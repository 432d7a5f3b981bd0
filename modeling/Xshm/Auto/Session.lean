import Xshm.System.Basic
import Xshm.Endpoint.Segment

/-!
# The workers of auto-mode

`server_worker` and `client_worker` of `auto/mod.rs` on one channel, in any order of their steps.
What the rings carry is left to the label: a pass of `process_receive_queue` may end in any way,
and so may `wait_any`, except that it reports `disconnect` (handle 0) if and only if that event is
signalled, and consumes it.  `running` may be cleared at any moment.  A `set` of `connect_req` or
`connect_ack` does not fail here (`Xshm.Endpoint.HandshakeErrors` has the paths on which it does).

A side can leave its connected loop in four ways.  Two of them signal the other side or follow its
signal: `running` is cleared (then the `Drop` of the segment's end signals `disconnect`), or
`disconnect` is consumed.  After a fatal read or a failed wait nothing is signalled.  If these two
are taken only when the other side is not in the session (`LeavesAlone`), a side that has left a
session does not leave the other one behind (`agree_of_leavesAlone`).
-/

namespace Xshm

namespace Session

/-- How `process_receive_queue` ends. -/
inductive ReadOutcome where
  | drained
  | morePending
  | fatal
  deriving DecidableEq

/-- The outcome of whatever a worker does next. -/
inductive Outcome where
  | wait (w : WaitOutcome)
  | read (r : ReadOutcome)
  | any (a : AnyOutcome)
  deriving DecidableEq

/-- Program points of `server_worker`. -/
inductive ServerWorker where
  /-- The head of the loop, with its local `connected`. -/
  | head (connected : Bool)
  | waiting (pc : WaitForClient)
  | receive
  | waitAny
  /-- `mark_disconnected`; `silent` says that no disconnect event was consumed. -/
  | marking (silent : Bool) (pc : MarkDisconnected)
  /-- The worker has ended and its `SharedServer` is dropped. -/
  | dropping (connected : Bool) (pc : DropServer)
  | ended
  deriving DecidableEq

/-- Program points of `client_worker`. -/
inductive ClientWorker where
  | head
  | connecting (pc : Connect)
  /-- The head of the connected loop. -/
  | connected
  | receive
  | waitAny
  /-- `wait_delay`; `client` is the `SharedClient` of the pass, if there is one, with its field
  `connected`. -/
  | delay (client : Option Bool)
  | dropping (pc : DropClient)
  | ended
  deriving DecidableEq

structure State where
  seg : Segment Payload Payload := {}
  server : ServerWorker := .head false
  client : ClientWorker := .head
  serverRunning : Bool := true
  clientRunning : Bool := true
  /-- Record: the sessions the server has opened, each by publishing its generation. -/
  sessions : ℕ := 0
  /-- Record: the session whose generation the client loaded last. -/
  clientSession : ℕ := 0
  /-- Record: the sessions that the server has left, its cleanup finished. -/
  serverLeft : List ℕ := []
  /-- Record: the sessions that the client has left, its cleanup finished. -/
  clientLeft : List ℕ := []
  deriving DecidableEq

/-- Who moves. -/
inductive Label where
  | stopServer
  | stopClient
  | server (o : Outcome)
  | client (o : Outcome)
  deriving DecidableEq

/-- The next step of the server's worker. -/
def State.serverStep (s : State) (o : Outcome) : Option State :=
  match s.server with
  | .head connected =>
    if s.serverRunning = false then
      some { s with server := .dropping connected (.store .storeServer) }
    else if connected then some { s with server := .receive }
    else some { s with server := .waiting .waitReq }
  | .waiting pc =>
    match o with
    | .wait w =>
      (pc.step s.seg w).map fun (seg, next) =>
        let s' := { s with
          seg := seg
          sessions := if pc.publishes then s.sessions + 1 else s.sessions }
        match next with
        | .goto pc' => { s' with server := .waiting pc' }
        | .done (.ok ()) => { s' with server := .receive }
        | .done (.error _) => { s' with server := .head false }
    | _ => none
  | .receive =>
    match o with
    | .read .fatal => some { s with server := .marking true .storeServer }
    | .read .morePending => some { s with server := .head true }
    | .read .drained => some { s with server := .waitAny }
    | _ => none
  | .waitAny =>
    match o with
    | .any .disconnect =>
      if s.seg.disconnect then
        some { s with
          seg := { s.seg with disconnect := false }
          server := .marking false .storeServer }
      else none
    | .any .other => if s.seg.disconnect then none else some { s with server := .head true }
    | .any .failed => some { s with server := .marking true .storeServer }
    | _ => none
  | .marking silent pc =>
    match pc.step s.seg with
    | (seg, .goto pc') => some { s with seg := seg, server := .marking silent pc' }
    | (seg, .done _) =>
      some { s with seg := seg, server := .head false, serverLeft := s.sessions :: s.serverLeft }
  | .dropping connected pc =>
    match pc.step s.seg connected with
    | (seg, .goto pc') => some { s with seg := seg, server := .dropping connected pc' }
    | (seg, .done _) =>
      some { s with
        seg := seg
        server := .ended
        serverLeft := if connected then s.sessions :: s.serverLeft else s.serverLeft }
  | .ended => none

/-- What follows the drop of the `SharedClient` of a pass. -/
def State.nextPass (s : State) : ClientWorker := if s.clientRunning then .head else .ended

/-- The next step of the client's worker. -/
def State.clientStep (s : State) (o : Outcome) : Option State :=
  match s.client with
  | .head =>
    if s.clientRunning = false then some { s with client := .ended }
    else some { s with client := .connecting .storeClient }
  | .connecting pc =>
    match o with
    | .wait w =>
      (pc.step s.seg w).map fun (seg, next) =>
        let s' := { s with
          seg := seg
          clientSession := if pc.loads then s.sessions else s.clientSession }
        match next with
        | .goto pc' => { s' with client := .connecting pc' }
        | .done (.ok ()) => { s' with client := .connected }
        | .done (.error _) => { s' with client := .delay none }
    | _ => none
  | .connected =>
    if s.clientRunning = false then some { s with client := .delay (some true) }
    else some { s with client := .receive }
  | .receive =>
    match o with
    | .read .fatal => some { s with client := .delay (some false) }
    | .read .morePending => some { s with client := .connected }
    | .read .drained => some { s with client := .waitAny }
    | _ => none
  | .waitAny =>
    match o with
    | .any .disconnect =>
      if s.seg.disconnect then
        some { s with seg := { s.seg with disconnect := false }, client := .delay (some false) }
      else none
    | .any .other => if s.seg.disconnect then none else some { s with client := .connected }
    | .any .failed => some { s with client := .delay (some false) }
    | _ => none
  | .delay none => some { s with client := s.nextPass }
  | .delay (some false) =>
    -- `mark_disconnected` has been called, so the drop does nothing
    some { s with client := s.nextPass, clientLeft := s.clientSession :: s.clientLeft }
  | .delay (some true) => some { s with client := .dropping .storeClient }
  | .dropping pc =>
    match pc.step s.seg with
    | (seg, .goto pc') => some { s with seg := seg, client := .dropping pc' }
    | (seg, .done _) =>
      some { s with
        seg := seg
        client := s.nextPass
        clientLeft := s.clientSession :: s.clientLeft }
  | .ended => none

def State.step (s : State) : Label → Option State
  | .stopServer => some { s with serverRunning := false }
  | .stopClient => some { s with clientRunning := false }
  | .server o => s.serverStep o
  | .client o => s.clientStep o

/-- Two workers that have just been started. -/
def system : System State Label where
  init s := s = {}
  step := State.step

/-- The server is in its connected loop. -/
def ServerWorker.inLoop : ServerWorker → Bool
  | .head true | .receive | .waitAny => true
  | _ => false

/-- The client is in its connected loop. -/
def ClientWorker.inLoop : ClientWorker → Bool
  | .connected | .receive | .waitAny => true
  | _ => false

/-- A side that stays in a session that the other one has left has a disconnect pending. -/
structure Agree (s : State) : Prop where
  client : s.client.inLoop = true → s.clientSession ∈ s.serverLeft → s.seg.disconnect = true
  server : s.server.inLoop = true → s.sessions ∈ s.clientLeft → s.seg.disconnect = true

/-- The client has accepted `SERVER_READY` and has not left its loop. -/
def ClientWorker.engaged : ClientWorker → Bool
  | .connecting pc => pc.accepted
  | .connected | .receive | .waitAny => true
  | _ => false

/-- The server has stored `SERVER_READY` and has not left its loop. -/
def ServerWorker.isOpen : ServerWorker → Bool
  | .waiting .readyClient | .waiting .setAck => true
  | .head true | .receive | .waitAny => true
  | _ => false

/-- The exits that signal nothing are taken alone: after a fatal read or a failed wait the server
takes back `SERVER_READY` only when the client is not in the session, and the client leaves only
when the server has left. -/
def LeavesAlone (s : State) : Label → Prop
  | .server _ => s.server = .marking true .storeServer → s.client.engaged = false
  | .client o =>
    s.client = .receive ∧ o = .read .fatal ∨ s.client = .waitAny ∧ o = .any .failed →
      s.server.isOpen = false
  | _ => True

instance (s : State) (l : Label) : Decidable (LeavesAlone s l) :=
  match l with
  | .server _ => inferInstanceAs (Decidable (_ → _))
  | .client _ => inferInstanceAs (Decidable (_ → _))
  | .stopServer | .stopClient => isTrue trivial

/-! ### The invariant -/

/-- The server may still have `SERVER_READY` in `server_state`. -/
def ServerWorker.offers : ServerWorker → Bool
  | .marking _ .storeServer | .dropping true (.store .storeServer) => true
  | t => t.isOpen

/-- The server is in a session with a client or about to tell it that it is not. -/
def ServerWorker.hosts : ServerWorker → Bool
  | .marking true .storeServer | .dropping true _ => true
  | t => t.isOpen

/-- The server has published the generation of a session and has not left its loop. -/
def ServerWorker.live : ServerWorker → Bool
  | .waiting pc => pc.published
  | t => t.inLoop

/-- The server has published the generation of a session and has not finished its cleanup. -/
def ServerWorker.unfinished : ServerWorker → Bool
  | .marking _ _ | .dropping true _ => true
  | t => t.live

/-- The client has loaded the generation of the session it is in. -/
def ClientWorker.loaded : ClientWorker → Bool
  | .connecting pc => pc.loaded
  | t => t.inLoop

/-- The client has left its loop because `running` was cleared. -/
def ClientWorker.stopping : ClientWorker → Bool
  | .delay (some true) | .dropping _ => true
  | _ => false

structure Inv (s : State) : Prop where
  ready : s.seg.serverState = handshakeServerReady → s.server.offers = true
  engaged : s.client.engaged = true →
    s.server.hosts = true ∨ s.server = .ended ∧ s.seg.disconnect = true
  disconnect : s.seg.disconnect = true → s.client = .ended ∨ s.server = .ended
  consumed : ∀ pc, s.server = .marking false pc → s.client = .ended
  session : s.client.loaded = true → s.clientSession = s.sessions
  clientSession_le : s.clientSession ≤ s.sessions
  serverLeft_le : ∀ g ∈ s.serverLeft, g ≤ s.sessions
  clientLeft_le : ∀ g ∈ s.clientLeft, g ≤ s.sessions
  unfinished : s.server.unfinished = true → s.sessions ∉ s.serverLeft
  live : s.server.live = true → s.sessions ∈ s.clientLeft → s.seg.disconnect = true
  left : s.client = .delay (some false) → s.clientSession = s.sessions → s.server.live = false
  stopping : s.client.stopping = true → s.clientRunning = false

namespace Inv

variable {s s' : State}

theorem init : Inv {} := by
  constructor <;> simp [handshakeServerReady, handshakeIdle, ServerWorker.unfinished,
    ServerWorker.live, ServerWorker.inLoop, ClientWorker.engaged, ClientWorker.loaded,
    ClientWorker.inLoop, ClientWorker.stopping]

/-- The server moves within a session or outside. -/
theorem server_move (h : Inv s) {seg : Segment Payload Payload} {t : ServerWorker}
    (hd : seg.disconnect = s.seg.disconnect)
    (hr : seg.serverState = handshakeServerReady → t.offers = true)
    (hh : s.client.engaged = true → s.server.hosts = true → t.hosts = true)
    (hc : ∀ pc, t = .marking false pc → s.client = .ended)
    (hu : t.unfinished = true → s.server.unfinished = true)
    (hl : t.live = true → s.server.live = true) (hne : s.server ≠ .ended) :
    Inv { s with seg := seg, server := t } :=
  { h with
    ready := hr
    engaged := fun he => (h.engaged he).elim (fun hs => .inl (hh he hs)) fun hs => absurd hs.1 hne
    disconnect := fun hs => (h.disconnect (hd ▸ hs)).elim .inl fun hs => absurd hs hne
    consumed := hc
    unfinished := fun ht => h.unfinished (hu ht)
    live := fun ht hm => hd ▸ h.live (hl ht) hm
    left := fun hcl he => by
      have := h.left hcl he
      by_contra ht
      rw [hl (by simpa using ht)] at this
      cases this }

/-- The client moves outside its loop or within. -/
theorem client_move (h : Inv s) {seg : Segment Payload Payload} {t : ClientWorker}
    (hd : seg.disconnect = s.seg.disconnect) (hs : seg.serverState = s.seg.serverState)
    (he : t.engaged = true → s.client.engaged = true)
    (hl : t.loaded = true → s.client.loaded = true) (hf : t ≠ .delay (some false))
    (hst : t.stopping = true → s.clientRunning = false) (hne : s.client ≠ .ended) :
    Inv { s with seg := seg, client := t } :=
  { h with
    ready := fun hr => h.ready (hs ▸ hr)
    engaged := fun ht => by rw [hd]; exact h.engaged (he ht)
    disconnect := fun ht => (h.disconnect (hd ▸ ht)).elim (fun ht => absurd ht hne) .inr
    consumed := fun pc hm => absurd (h.consumed pc hm) hne
    session := fun ht => h.session (hl ht)
    live := fun ht hm => by rw [hd]; exact h.live ht hm
    left := fun ht => absurd ht hf
    stopping := hst }

theorem ready_ne (h : Inv s) (ho : s.server.offers = false) :
    s.seg.serverState ≠ handshakeServerReady := fun hr => by
  have := h.ready hr
  rw [ho] at this
  cases this

/-- While the server has not stored `SERVER_READY`, no client is in a session. -/
theorem engaged_eq_false (h : Inv s) (hh : s.server.hosts = false) (hne : s.server ≠ .ended) :
    s.client.engaged = false := by
  by_contra he
  rcases h.engaged (by simpa using he) with hs | hs
  · rw [hh] at hs
    cases hs
  · exact hne hs.1

theorem loaded_engaged {t : ClientWorker} (ht : t.loaded = true) : t.engaged = true := by
  cases t with
  | connecting pc => exact Connect.accepted_of_loaded ht
  | connected | receive | waitAny => rfl
  | _ => cases ht

theorem waitStep (h : Inv s) {pc : WaitForClient} (hs : s.server = .waiting pc) {w : WaitOutcome}
    (hst : s.serverStep (.wait w) = some s') : Inv s' := by
  have hne : s.server ≠ .ended := by rw [hs]; rintro ⟨⟩
  simp only [State.serverStep, hs] at hst
  cases pc with
  | waitReq =>
    have hr : s.seg.serverState ≠ handshakeServerReady := h.ready_ne (by rw [hs]; rfl)
    cases w with
    | signalled | timeout =>
      simp only [WaitForClient.step, WaitForClient.publishes, Bool.false_eq_true, ↓reduceIte] at hst
      split_ifs at hst <;> cases hst
      exact h.server_move rfl (fun hr' => absurd hr' hr) (by rw [hs]; rintro _ ⟨⟩) (by rintro _ ⟨⟩)
        Bool.noConfusion Bool.noConfusion hne
    | failed e =>
      cases hst
      exact h.server_move rfl (fun hr' => absurd hr' hr) (by rw [hs]; rintro _ ⟨⟩) (by rintro _ ⟨⟩)
        Bool.noConfusion Bool.noConfusion hne
  | loadClient =>
    have hr : s.seg.serverState ≠ handshakeServerReady := h.ready_ne (by rw [hs]; rfl)
    simp only [WaitForClient.step, WaitForClient.publishes, Bool.false_eq_true, ↓reduceIte] at hst
    split_ifs at hst <;> cases hst <;>
      exact h.server_move rfl (fun hr' => absurd hr' hr) (by rw [hs]; rintro _ ⟨⟩) (by rintro _ ⟨⟩)
        Bool.noConfusion Bool.noConfusion hne
  | loadGeneration | resetA | resetB =>
    have hr : s.seg.serverState ≠ handshakeServerReady := h.ready_ne (by rw [hs]; rfl)
    cases hst
    exact h.server_move rfl (fun hr' => absurd hr' hr) (by rw [hs]; rintro _ ⟨⟩) (by rintro _ ⟨⟩)
      Bool.noConfusion Bool.noConfusion hne
  | storeGeneration generation =>
    have hr : s.seg.serverState ≠ handshakeServerReady := h.ready_ne (by rw [hs]; rfl)
    have he := h.engaged_eq_false (by rw [hs]; rfl) hne
    cases hst
    -- a new session: nobody has left it, and the client is in none
    exact { h with
      ready := fun hr' => absurd hr' hr
      engaged := fun he' => absurd (he.symm.trans he') (by decide)
      disconnect := fun hd => (h.disconnect hd).elim .inl fun hs' => absurd hs' hne
      consumed := by rintro _ ⟨⟩
      session := fun hl => absurd (he.symm.trans (loaded_engaged hl)) (by decide)
      clientSession_le := h.clientSession_le.trans (Nat.le_succ _)
      serverLeft_le := fun g hg => (h.serverLeft_le g hg).trans (Nat.le_succ _)
      clientLeft_le := fun g hg => (h.clientLeft_le g hg).trans (Nat.le_succ _)
      unfinished := fun _ hm => Nat.not_succ_le_self _ (h.serverLeft_le _ hm)
      live := fun _ hm => absurd (h.clientLeft_le _ hm) (Nat.not_succ_le_self _)
      left := fun _ heq => absurd heq (Nat.lt_succ_of_le h.clientSession_le).ne }
  | readyA | readyB =>
    have hr : s.seg.serverState ≠ handshakeServerReady := h.ready_ne (by rw [hs]; rfl)
    cases hst
    exact h.server_move rfl (fun hr' => absurd hr' hr) (by rw [hs]; rintro _ ⟨⟩) (by rintro _ ⟨⟩)
      (fun _ => by rw [hs]; rfl) (fun _ => by rw [hs]; rfl) hne
  | readyServer | readyClient | setAck =>
    cases hst
    exact h.server_move rfl (fun _ => rfl) (fun _ _ => rfl) (by rintro _ ⟨⟩)
      (fun _ => by rw [hs]; rfl) (fun _ => by rw [hs]; rfl) hne

/-- The end of a cleanup: the server has left the session, if it was in one. -/
theorem server_leave (h : Inv s) {seg : Segment Payload Payload} {t : ServerWorker} {left : List ℕ}
    (hleft : ∀ g ∈ left, g ∈ s.serverLeft ∨ g = s.sessions)
    (hr : seg.serverState ≠ handshakeServerReady)
    (he : s.client.engaged = true → t = .ended ∧ seg.disconnect = true)
    (hd : seg.disconnect = true → s.client = .ended ∨ t = .ended)
    (hc : ∀ pc, t ≠ .marking false pc) (hu : t.unfinished = false) (hl : t.live = false) :
    Inv { s with seg := seg, server := t, serverLeft := left } :=
  { h with
    ready := fun hr' => absurd hr' hr
    engaged := fun he' => .inr (he he')
    disconnect := hd
    consumed := fun pc hm => absurd hm (hc pc)
    serverLeft_le := fun g hg => (hleft g hg).elim (h.serverLeft_le g) fun hg => hg.le
    unfinished := fun ht => absurd (hu.symm.trans ht) (by decide)
    live := fun ht => absurd (hl.symm.trans ht) (by decide)
    left := fun _ _ => hl }

theorem markStep (h : Inv s) {silent : Bool} {pc : MarkDisconnected}
    (hs : s.server = .marking silent pc) {o : Outcome} (hal : LeavesAlone s (.server o))
    (hst : s.serverStep o = some s') : Inv s' := by
  have hne : s.server ≠ .ended := by rw [hs]; rintro ⟨⟩
  -- nobody is in the session any more when `SERVER_READY` is taken back
  have he : s.client.engaged = false := by
    cases silent with
    | false => rw [h.consumed pc hs]; rfl
    | true =>
      cases pc with
      | storeServer => exact hal hs
      | _ => exact h.engaged_eq_false (by rw [hs]; rfl) hne
  have hcons (pc' pc'' : MarkDisconnected)
      (hm : ServerWorker.marking silent pc' = .marking false pc'') : s.client = .ended := by
    cases hm
    exact h.consumed pc hs
  have hh {t : ServerWorker} (he' : s.client.engaged = true) (_ : s.server.hosts = true) :
      t.hosts = true := absurd (he.symm.trans he') (by decide)
  simp only [State.serverStep, hs] at hst
  cases pc with
  | storeServer =>
    cases hst
    exact h.server_move rfl (fun hr => absurd hr handshakeIdle_ne_serverReady) hh (hcons _)
      (fun _ => by rw [hs]; rfl) Bool.noConfusion hne
  | storeClient | storeA =>
    have hr : s.seg.serverState ≠ handshakeServerReady := h.ready_ne (by rw [hs]; rfl)
    cases hst
    exact h.server_move rfl (fun hr' => absurd hr' hr) hh (hcons _) (fun _ => by rw [hs]; rfl)
      Bool.noConfusion hne
  | storeB =>
    have hr : s.seg.serverState ≠ handshakeServerReady := h.ready_ne (by rw [hs]; rfl)
    cases hst
    exact h.server_leave (fun g hg => (List.mem_cons.1 hg).symm) hr
      (fun he' => absurd (he.symm.trans he') (by decide))
      (fun hd => .inl ((h.disconnect hd).resolve_right hne)) (by rintro _ ⟨⟩) rfl rfl

theorem dropStep (h : Inv s) {connected : Bool} {pc : DropServer}
    (hs : s.server = .dropping connected pc) {o : Outcome}
    (hst : s.serverStep o = some s') : Inv s' := by
  have hne : s.server ≠ .ended := by rw [hs]; rintro ⟨⟩
  have hr (hpc : pc ≠ .store .storeServer) : s.seg.serverState ≠ handshakeServerReady := by
    refine h.ready_ne ?_
    rw [hs]
    cases connected <;> cases pc with
    | store pc => cases pc <;> first | exact absurd rfl hpc | rfl
    | setDisconnect => rfl
  have hh (pc' : DropServer) (_ : s.client.engaged = true) (hh : s.server.hosts = true) :
      (ServerWorker.dropping connected pc').hosts = true := by
    rw [hs] at hh
    cases connected with
    | false => cases hh
    | true => rfl
  have hu (pc' : DropServer)
      (hu : (ServerWorker.dropping connected pc').unfinished = true) :
      s.server.unfinished = true := by
    rw [hs]
    cases connected with
    | false => cases hu
    | true => rfl
  simp only [State.serverStep, hs] at hst
  cases pc with
  | store pc =>
    cases pc with
    | storeServer =>
      cases hst
      exact h.server_move rfl (fun hr => absurd hr handshakeIdle_ne_serverReady) (hh _)
        (by rintro _ ⟨⟩) (hu _)
        Bool.noConfusion hne
    | storeClient | storeA =>
      cases hst
      exact h.server_move rfl (fun hr' => absurd hr' (hr (by rintro ⟨⟩))) (hh _) (by rintro _ ⟨⟩)
        (hu _) Bool.noConfusion hne
    | storeB =>
      cases connected with
      | true =>
        cases hst
        exact h.server_move rfl (fun hr' => absurd hr' (hr (by rintro ⟨⟩))) (hh _) (by rintro _ ⟨⟩)
          (hu _) Bool.noConfusion hne
      | false =>
        have he := h.engaged_eq_false (by rw [hs]; rfl) hne
        cases hst
        exact h.server_leave (fun g hg => .inl hg) (hr (by rintro ⟨⟩))
          (fun he' => absurd (he.symm.trans he') (by decide)) (fun _ => .inr rfl) (by rintro _ ⟨⟩)
            rfl rfl
  | setDisconnect =>
    cases hst
    refine h.server_leave (fun g hg => ?_) (hr (by rintro ⟨⟩)) (fun _ => ⟨rfl, rfl⟩)
      (fun _ => .inr rfl)
      (by rintro _ ⟨⟩) rfl rfl
    split_ifs at hg
    · exact (List.mem_cons.1 hg).symm
    · exact .inl hg

theorem serverStep (h : Inv s) {o : Outcome} (hal : LeavesAlone s (.server o))
    (hst : s.serverStep o = some s') : Inv s' := by
  cases hs : s.server with
  | ended => simp [State.serverStep, hs] at hst
  | waiting pc =>
    cases o with
    | wait w => exact h.waitStep hs hst
    | _ => simp [State.serverStep, hs] at hst
  | head connected =>
    have hne : s.server ≠ .ended := by rw [hs]; rintro ⟨⟩
    have hready := h.ready
    rw [hs] at hready
    simp only [State.serverStep, hs] at hst
    split_ifs at hst with hrun hcon <;> cases hst
    · cases connected with
      | false =>
        exact h.server_move rfl (fun hr => hready hr) (by rw [hs]; rintro _ ⟨⟩) (by rintro _ ⟨⟩)
          Bool.noConfusion Bool.noConfusion hne
      | true =>
        exact h.server_move rfl (fun _ => rfl) (fun _ _ => rfl) (by rintro _ ⟨⟩)
          (fun _ => by rw [hs]; rfl)
          Bool.noConfusion hne
    · subst hcon
      exact h.server_move rfl (fun _ => rfl) (fun _ _ => rfl) (by rintro _ ⟨⟩)
        (fun _ => by rw [hs]; rfl)
        (fun _ => by rw [hs]; rfl) hne
    · cases connected with
      | false =>
        exact h.server_move rfl (fun hr => hready hr) (by rw [hs]; rintro _ ⟨⟩) (by rintro _ ⟨⟩)
          Bool.noConfusion Bool.noConfusion hne
      | true => exact absurd rfl hcon
  | receive =>
    have hne : s.server ≠ .ended := by rw [hs]; rintro ⟨⟩
    simp only [State.serverStep, hs] at hst
    cases o with
    | read r =>
      cases r <;> cases hst <;>
        exact h.server_move rfl (fun _ => rfl) (fun _ _ => rfl) (by rintro _ ⟨⟩)
          (fun _ => by rw [hs]; rfl)
          (fun _ => by rw [hs]; rfl) hne
    | _ => cases hst
  | waitAny =>
    have hne : s.server ≠ .ended := by rw [hs]; rintro ⟨⟩
    simp only [State.serverStep, hs] at hst
    cases o with
    | any a =>
      cases a with
      | disconnect =>
        simp only at hst
        split_ifs at hst with hd
        cases hst
        -- only a side that has ended signals
        have hcl : s.client = .ended := (h.disconnect hd).resolve_right hne
        exact { h with
          ready := fun _ => rfl
          engaged := fun he => absurd he (by rw [hcl]; decide)
          disconnect := Bool.noConfusion
          consumed := fun _ _ => hcl
          unfinished := fun _ => h.unfinished (by rw [hs]; rfl)
          live := Bool.noConfusion
          left := fun _ _ => rfl }
      | other =>
        simp only at hst
        split_ifs at hst
        cases hst
        exact h.server_move rfl (fun _ => rfl) (fun _ _ => rfl) (by rintro _ ⟨⟩)
          (fun _ => by rw [hs]; rfl)
          (fun _ => by rw [hs]; rfl) hne
      | failed =>
        cases hst
        exact h.server_move rfl (fun _ => rfl) (fun _ _ => rfl) (by rintro _ ⟨⟩)
          (fun _ => by rw [hs]; rfl)
          Bool.noConfusion hne
    | _ => cases hst
  | marking silent pc => exact h.markStep hs hal hst
  | dropping connected pc => exact h.dropStep hs hst

/-! ### The client -/

/-- The client takes `SERVER_READY` for its answer: the server is in the session, or was when it
stored it and will say that it is not. -/
theorem client_accept (h : Inv s) (hs : s.client = .connecting .loadServer)
    (hr : s.seg.serverState = handshakeServerReady) :
    Inv { s with client := .connecting .loadGeneration } := by
  have hne : s.client ≠ .ended := by rw [hs]; rintro ⟨⟩
  have hoffers := h.ready hr
  refine { h with
    engaged := fun _ => .inl ?_
    disconnect := fun hd => (h.disconnect hd).elim (fun hd => absurd hd hne) .inr
    consumed := fun pc hm => absurd (h.consumed pc hm) hne
    session := Bool.noConfusion
    left := by rintro ⟨⟩
    stopping := Bool.noConfusion }
  change s.server.hosts = true
  cases hsv : s.server with
  | marking silent pc =>
    cases silent with
    | false => exact absurd (h.consumed pc hsv) hne
    | true =>
      rw [hsv] at hoffers
      cases pc <;> first | rfl | cases hoffers
  | dropping connected pc =>
    rw [hsv] at hoffers
    cases connected with
    | true => rfl
    | false => cases hoffers
  | _ =>
    rw [hsv] at hoffers
    exact hoffers

/-- The client leaves its loop without a signal, after the server has left. -/
theorem client_leave (h : Inv s) {seg : Segment Payload Payload}
  (hs : seg.serverState = s.seg.serverState)
    (hd : seg.disconnect = true → s.seg.disconnect = true) (hne : s.client ≠ .ended)
    (hl : s.server.live = false) : Inv { s with seg := seg, client := .delay (some false) } :=
  { h with
    ready := fun hr => h.ready (hs ▸ hr)
    engaged := Bool.noConfusion
    disconnect := fun ht => (h.disconnect (hd ht)).elim (fun ht => absurd ht hne) .inr
    consumed := fun pc hm => absurd (h.consumed pc hm) hne
    session := Bool.noConfusion
    live := fun ht => absurd (hl.symm.trans ht) (by decide)
    left := fun _ _ => hl
    stopping := Bool.noConfusion }

theorem nextPass_engaged (s : State) : s.nextPass.engaged = false := by
  rw [State.nextPass]
  split_ifs <;> rfl

theorem nextPass_loaded (s : State) : s.nextPass.loaded = false := by
  rw [State.nextPass]
  split_ifs <;> rfl

theorem nextPass_stopping (s : State) : s.nextPass.stopping = false := by
  rw [State.nextPass]
  split_ifs <;> rfl

theorem nextPass_ne (s : State) (b : Bool) : s.nextPass ≠ .delay (some b) := by
  rw [State.nextPass]
  split_ifs <;> rintro ⟨⟩

/-- The `SharedClient` of a pass has been dropped. -/
theorem client_dropped (h : Inv s) {seg : Segment Payload Payload} {left : List ℕ}
    (hs : seg.serverState = s.seg.serverState)
    (hleft : ∀ g ∈ left, g ∈ s.clientLeft ∨ g = s.clientSession)
    (hne : s.client ≠ .ended)
    (hd : seg.disconnect = true → s.seg.disconnect = true ∨ s.clientRunning = false)
    (hl : s.server.live = true → s.sessions ∈ left → seg.disconnect = true) :
    Inv { s with seg := seg, client := s.nextPass, clientLeft := left } :=
  { h with
    ready := fun hr => h.ready (hs ▸ hr)
    engaged := fun he => absurd ((nextPass_engaged s).symm.trans he) (by decide)
    disconnect := fun ht => (hd ht).elim
      (fun hd => (h.disconnect hd).elim (fun ht => absurd ht hne) .inr)
      fun hr => .inl (by rw [State.nextPass, hr]; rfl)
    consumed := fun pc hm => absurd (h.consumed pc hm) hne
    session := fun he => absurd ((nextPass_loaded s).symm.trans he) (by decide)
    clientLeft_le := fun g hg => (hleft g hg).elim (h.clientLeft_le g) fun hg =>
      hg ▸ h.clientSession_le
    live := hl
    left := fun ht => absurd ht (nextPass_ne s _)
    stopping := fun he => absurd ((nextPass_stopping s).symm.trans he) (by decide) }

/-- In its loop with no session left to host it, the client is in one that the server has left. -/
theorem not_live_of_inLoop (h : Inv s) (he : s.client.engaged = true)
    (ho : s.server.isOpen = false) : s.server.live = false := by
  rcases h.engaged he with hh | hh
  · cases hs : s.server with
    | waiting pc => rw [hs] at hh ho; exact absurd (hh.symm.trans ho) (by decide)
    | head connected => rw [hs] at hh ho; exact absurd (hh.symm.trans ho) (by decide)
    | receive | waitAny => rw [hs] at ho; cases ho
    | marking | dropping | ended => rfl
  · rw [hh.1]
    rfl

theorem connectStep (h : Inv s) {pc : Connect} (hs : s.client = .connecting pc) {w : WaitOutcome}
    (hst : s.clientStep (.wait w) = some s') : Inv s' := by
  have hne : s.client ≠ .ended := by rw [hs]; rintro ⟨⟩
  simp only [State.clientStep, hs] at hst
  cases pc with
  | storeClient | storeA | storeB | setReq | resetClient | resetA | resetB =>
    cases hst
    exact h.client_move rfl rfl Bool.noConfusion Bool.noConfusion (by rintro ⟨⟩) Bool.noConfusion
      hne
  | waitAck =>
    cases w with
    | signalled | timeout =>
      simp only [Connect.step, Connect.loads, Bool.false_eq_true, ↓reduceIte] at hst
      split_ifs at hst <;> cases hst
      exact h.client_move rfl rfl Bool.noConfusion Bool.noConfusion (by rintro ⟨⟩) Bool.noConfusion
        hne
    | failed e =>
      cases hst
      exact h.client_move rfl rfl Bool.noConfusion Bool.noConfusion (by rintro ⟨⟩) Bool.noConfusion
        hne
  | loadServer =>
    simp only [Connect.step, Connect.loads, Bool.false_eq_true, ↓reduceIte] at hst
    split_ifs at hst with hr <;> cases hst
    · exact h.client_move rfl rfl Bool.noConfusion Bool.noConfusion (by rintro ⟨⟩) Bool.noConfusion
        hne
    · exact h.client_accept hs (not_not.1 hr)
  | loadGeneration =>
    cases hst
    exact { h with
      engaged := fun _ => h.engaged (by rw [hs]; rfl)
      disconnect := fun hd => (h.disconnect hd).elim (fun hd => absurd hd hne) .inr
      consumed := fun pc hm => absurd (h.consumed pc hm) hne
      session := fun _ => rfl
      clientSession_le := le_rfl
      left := by rintro ⟨⟩
      stopping := Bool.noConfusion }
  | storeGenA | storeGenB | readyA | readyB =>
    cases hst
    exact h.client_move rfl rfl (fun _ => by rw [hs]; rfl) (fun _ => by rw [hs]; rfl) (by rintro ⟨⟩)
      Bool.noConfusion hne

theorem clientStep (h : Inv s) {o : Outcome} (hal : LeavesAlone s (.client o))
    (hst : s.clientStep o = some s') : Inv s' := by
  cases hs : s.client with
  | ended => simp [State.clientStep, hs] at hst
  | connecting pc =>
    cases o with
    | wait w => exact h.connectStep hs hst
    | _ => simp [State.clientStep, hs] at hst
  | head =>
    have hne : s.client ≠ .ended := by rw [hs]; rintro ⟨⟩
    simp only [State.clientStep, hs] at hst
    split_ifs at hst <;> cases hst <;> exact h.client_move rfl rfl Bool.noConfusion Bool.noConfusion
      (by rintro ⟨⟩) Bool.noConfusion hne
  | connected =>
    have hne : s.client ≠ .ended := by rw [hs]; rintro ⟨⟩
    simp only [State.clientStep, hs] at hst
    split_ifs at hst with hrun <;> cases hst
    · exact h.client_move rfl rfl Bool.noConfusion Bool.noConfusion (by rintro ⟨⟩) (fun _ => hrun)
        hne
    · exact h.client_move rfl rfl (fun _ => by rw [hs]; rfl) (fun _ => by rw [hs]; rfl)
        (by rintro ⟨⟩) Bool.noConfusion
        hne
  | receive =>
    have hne : s.client ≠ .ended := by rw [hs]; rintro ⟨⟩
    simp only [State.clientStep, hs] at hst
    cases o with
    | read r =>
      cases r with
      | fatal =>
        cases hst
        exact h.client_leave rfl id hne
          (h.not_live_of_inLoop (by rw [hs]; rfl) (hal (.inl ⟨hs, rfl⟩)))
      | morePending | drained =>
        cases hst
        exact h.client_move rfl rfl (fun _ => by rw [hs]; rfl) (fun _ => by rw [hs]; rfl)
          (by rintro ⟨⟩)
          Bool.noConfusion hne
    | _ => cases hst
  | waitAny =>
    have hne : s.client ≠ .ended := by rw [hs]; rintro ⟨⟩
    simp only [State.clientStep, hs] at hst
    cases o with
    | any a =>
      cases a with
      | disconnect =>
        simp only at hst
        split_ifs at hst with hd
        cases hst
        -- only a side that has ended signals
        have hsv : s.server = .ended := (h.disconnect hd).resolve_left hne
        exact h.client_leave rfl Bool.noConfusion hne (by rw [hsv]; rfl)
      | other =>
        simp only at hst
        split_ifs at hst
        cases hst
        exact h.client_move rfl rfl (fun _ => by rw [hs]; rfl) (fun _ => by rw [hs]; rfl)
          (by rintro ⟨⟩)
          Bool.noConfusion hne
      | failed =>
        cases hst
        exact h.client_leave rfl id hne
          (h.not_live_of_inLoop (by rw [hs]; rfl) (hal (.inr ⟨hs, rfl⟩)))
    | _ => cases hst
  | delay client =>
    have hne : s.client ≠ .ended := by rw [hs]; rintro ⟨⟩
    simp only [State.clientStep, hs] at hst
    cases client with
    | none =>
      cases hst
      exact h.client_dropped rfl (fun g hg => .inl hg) hne .inl h.live
    | some b =>
      cases b with
      | false =>
        cases hst
        refine h.client_dropped rfl (fun g hg => (List.mem_cons.1 hg).symm) hne
          .inl fun hl hm => ?_
        rcases List.mem_cons.1 hm with hm | hm
        · have := h.left hs hm.symm
          rw [hl] at this
          cases this
        · exact h.live hl hm
      | true =>
        cases hst
        exact h.client_move rfl rfl Bool.noConfusion Bool.noConfusion (by rintro ⟨⟩)
          (fun _ => h.stopping (by rw [hs]; rfl)) hne
  | dropping pc =>
    have hne : s.client ≠ .ended := by rw [hs]; rintro ⟨⟩
    have hrun := h.stopping (by rw [hs]; rfl)
    simp only [State.clientStep, hs] at hst
    cases pc with
    | storeClient | storeA | storeB =>
      cases hst
      exact h.client_move rfl rfl Bool.noConfusion Bool.noConfusion (by rintro ⟨⟩) (fun _ => hrun)
        hne
    | setDisconnect =>
      cases hst
      exact h.client_dropped rfl (fun g hg => (List.mem_cons.1 hg).symm) hne
        (fun _ => .inr hrun) fun _ _ => rfl

theorem step (h : Inv s) {l : Label} (hal : LeavesAlone s l) (hst : s.step l = some s') :
    Inv s' := by
  cases l with
  | stopServer => cases hst; exact { h with }
  | stopClient => cases hst; exact { h with stopping := fun _ => rfl }
  | server o => exact h.serverStep hal hst
  | client o => exact h.clientStep hal hst

theorem unfinished_of_hosts {t : ServerWorker} (ht : t.hosts = true) : t.unfinished = true := by
  cases t with
  | waiting pc => cases pc <;> first | rfl | cases ht
  | dropping connected pc => cases connected <;> first | rfl | cases ht
  | head connected => cases connected <;> first | rfl | cases ht
  | receive | waitAny | marking => rfl
  | ended => cases ht

/-- Neither side has left the other behind. -/
theorem agree (h : Inv s) : Agree s where
  client hl hm := by
    have he : s.client.engaged = true ∧ s.client.loaded = true := by
      cases hc : s.client with
      | connected | receive | waitAny => exact ⟨rfl, rfl⟩
      | _ => rw [hc] at hl; cases hl
    rcases h.engaged he.1 with hh | hh
    · rw [h.session he.2] at hm
      exact absurd hm (h.unfinished (unfinished_of_hosts hh))
    · exact hh.2
  server hl hm := by
    refine h.live ?_ hm
    cases hs : s.server with
    | waiting pc => rw [hs] at hl; cases hl
    | _ => rwa [hs] at hl

end Inv

end Session

open Session

/-- **Session agreement.**  If the two exits that signal nothing are taken only alone, then a side
that is still in its loop for a session that the other side has left has a disconnect pending. -/
theorem agree_of_leavesAlone {s : State} (h : Session.system.ReachWhen LeavesAlone s) : Agree s :=
  Inv.agree <| h.invariant (fun s (h₀ : s = {}) => h₀ ▸ Inv.init) fun _ _ _ hi hc hst =>
    hi.step hc hst

namespace Session

/-- Both workers enter their connected loops. -/
def connectBoth : List Label :=
  List.replicate 5 (.client (.wait .signalled)) ++ List.replicate 12 (.server (.wait .signalled)) ++
    List.replicate 7 (.client (.wait .signalled))

end Session

theorem agree_of_leavesAlone_stopClient : ∃ s : State, Agree s ∧ s.server.inLoop = true ∧
    s.clientLeft = [1] ∧ s.seg.disconnect = true := by
  obtain ⟨s, h, hs⟩ := System.exists_reachWhen (A := Session.system) (C := LeavesAlone)
    (s := {}) (r := connectBoth ++ .stopClient :: List.replicate 6 (.client (.any .other)))
    (f := fun s => (s.server.inLoop, s.clientLeft, s.seg.disconnect)) (t := (true, [1], true)) rfl
    (by decide +kernel)
  simp only [Prod.mk.injEq] at hs
  exact ⟨s, agree_of_leavesAlone h, hs⟩

/-- A server that leaves on a fatal read leaves the client in its loop, with nothing pending. -/
theorem not_agree : ¬ ∀ s, Session.system.Reach s → Agree s := by
  intro h
  obtain ⟨s, hr, hs⟩ := System.exists_reachWhen (A := Session.system) (C := fun _ _ => True)
    (s := {}) (r := connectBoth ++ List.replicate 5 (.server (.read .fatal)))
    (f := fun s => (s.client.inLoop, s.clientSession, s.serverLeft, s.seg.disconnect))
    (t := (true, 1, [1], false)) rfl (by decide +kernel)
  simp only [Prod.mk.injEq] at hs
  obtain ⟨hl, hc, hleft, hd⟩ := hs
  have := (h s hr).client hl (by rw [hc, hleft]; decide)
  rw [hd] at this
  cases this

end Xshm
