import Mathlib.Data.Fintype.Basic
import Xshm.Endpoint.CleanStart
import Xshm.Ring.Access
import Xshm.Ring.Consumers

/-!
# A clean start

The interleavings of a `SharedServer` with clients that connect to it one after another or at the
same time, with the ring to the clients access by access: the stores of `RingHeader::reset`, the
calls of `write_message` behind `send_to_client`, and the calls of `read_message` behind
`receive_from_server`, of which every client that thinks it is connected may be in one.  The control
block and the events are those of `Xshm.Endpoint.CleanStart`, whose own rings are not used.

Two things spoil a clean start.  A client may take a leftover for the answer to its `CLIENT_HELLO`
(`not_cleanStart`).  And nothing keeps an earlier client out of the ring while it is reset: its
`compare_exchange` may succeed on a `read_pos` that it loaded before, and its `fetch_sub` may come
after the store of `message_count`.

* `cleanStart_of_undisturbed` : otherwise `connect` returns `Ok` only after a handshake that began
  after its `CLIENT_HELLO`, and everything the client receives was sent after that.
-/

namespace Xshm

namespace Reconnect

/-- The states. -/
structure State (ι : Type*) where
  base : CleanStart.State ι := {}
  /-- The header of the ring to the clients; the last two words are those of `base.seg`. -/
  header : RingHeader := ⟨0, 0, 0, 0, 0, 1, handshakeIdle⟩
  storage : Storage := fun _ => 0
  writer : Writer := .idle
  reader : ι → Reader := fun _ => .idle
  /-- The stores of `RingHeader::reset` that are still to come. -/
  resetting : List (HeaderField × UInt32) := []
  /-- Record: what has happened on the ring since it was last reset. -/
  hist : History := {}
  /-- Record: the client is in a call that loaded `read_pos` before the last reset was complete. -/
  stale : ι → Bool := fun _ => false
  /-- Record: what `send_to_client` was called with, and the handshakes begun then. -/
  sent : List (Message ℕ) := []
  /-- Record: what a client has received since it last called `connect`. -/
  received : ι → List Payload := fun _ => []

/-- Who moves. -/
inductive Label (ι : Type*) where
  /-- An access to the control block or to an event, or a call that is no send and no receive. -/
  | control (l : CleanStart.Label ι)
  /-- The next store of `RingHeader::reset`. -/
  | reset
  | callSend (p : Payload)
  | writer
  | callReceive (c : ι)
  | reader (c : ι)
  deriving DecidableEq

namespace State

variable {ι : Type*}

/-- The ring, with one of its consumers. -/
def ring (s : State ι) (r : Reader) : RingState := ⟨s.header, s.storage, s.writer, r, s.hist⟩

/-- What the producer or a consumer leaves. -/
def onRing (s : State ι) (r : RingState) : State ι :=
  { s with header := r.header, storage := r.storage, writer := r.writer, hist := r.hist }

variable [DecidableEq ι]

/-- The thread of the server goes on outside of `send_to_client`. -/
def serverControl (s : State ι) (l : CleanStart.Label ι) : Option (State ι) :=
  if s.writer = .idle ∧ s.resetting = [] then
    (s.base.step l).map fun base =>
      match s.base.server with
      | .waiting (.resetA generation) =>
        { s with
          base := base
          resetting := RingHeader.resetStores generation
          hist := {}
          stale := fun c => (s.reader c).onFrame }
      | _ => { s with base := base }
  else none

/-- An access to the control block or to an event. -/
def control (s : State ι) : CleanStart.Label ι → Option (State ι)
  | .send _ | .receive _ => none
  | .callConnect c => (s.base.step (.callConnect c)).map fun base =>
      { s with base := base, received := Function.update s.received c [] }
  | .dropClient c =>
    if s.reader c = .idle then
      (s.base.step (.dropClient c)).map fun base => { s with base := base }
    else none
  | .client c w => (s.base.step (.client c w)).map fun base => { s with base := base }
  | .callWait => s.serverControl .callWait
  | .markDisconnected => s.serverControl .markDisconnected
  | .dropServer => s.serverControl .dropServer
  | .server w => s.serverControl (.server w)

/-- The next access of a client to the ring. -/
def readerStep (s : State ι) (c : ι) : Option (State ι) :=
  (s.ring (s.reader c)).readerStep.map fun r =>
    { s.onRing r with
      reader := Function.update s.reader c r.reader
      stale := Function.update s.stale c
        (r.reader.onFrame && (s.stale c || !s.resetting.isEmpty))
      received := Function.update s.received c (s.received c ++
        (r.hist.reads.drop s.hist.reads.length).filterMap fun res => res.toOption.map Prod.snd) }

/-- One step. -/
def step (s : State ι) : Label ι → Option (State ι)
  | .control l => s.control l
  | .reset =>
    match s.resetting with
    | [] => none
    | st :: stores => some { s with header := s.header.set st.2 st.1, resetting := stores }
  | .callSend p =>
    if s.base.server = .idle ∧ s.base.connected = true ∧ s.writer = .idle then
      some { s.onRing ((s.ring .idle).callWrite p) with sent := s.sent ++ [⟨p, s.base.begun⟩] }
    else none
  | .writer => (s.ring .idle).writerStep.map s.onRing
  | .callReceive c =>
    if s.base.client c = .connected ∧ s.reader c = .idle then
      some { s with reader := Function.update s.reader c .loadCount }
    else none
  | .reader c => s.readerStep c

end State

/-- A server that has just been started and its clients. -/
def system (ι : Type*) [DecidableEq ι] : System (State ι) (Label ι) where
  init s := ∃ storage, s = { storage := storage }
  step := State.step

variable {ι : Type*}

/-- A connected client has a handshake of its own, and everything it has received was sent in
that handshake or a later one. -/
def Clean (s : State ι) : Prop :=
  ∀ c, (s.base.client c = .connected → s.base.hello c < s.base.performed) ∧
    ∀ p ∈ s.received c, ∃ m ∈ s.sent, m.payload = p ∧ s.base.hello c < m.record

/-- If the next step stores `CLIENT_HELLO`, then nothing is left over that could be taken for its
answer. -/
def NoLeftover (s : State ι) (l : Label ι) : Prop :=
  ∀ l', l = .control l' → CleanStart.HelloClean s.base l'

/-- Nothing disturbs the next step. -/
structure Undisturbed (s : State ι) (l : Label ι) : Prop where
  hello : NoLeftover s l
  /-- No `compare_exchange` of a client succeeds on a `read_pos` loaded before the ring was reset.
  -/
  moved : ∀ c, l = .reader c → s.stale c = true → (s.reader c).taking ≠ some s.header.readPos
  /-- A client loads `read_pos` of a ring that is not being reset only while a message that has been
  counted is neither read nor evicted, -/
  unread : ∀ c, l = .reader c → s.resetting = [] → FrameUnread (s.ring (s.reader c)) .reader
  /-- and fewer than `2 ^ 32` bytes are read or evicted before its `compare_exchange`. -/
  short : ∀ c, l = .reader c → s.stale c = false → ShortAttempt (s.ring (s.reader c)) .reader

/-! ### The control block -/

section Frame

variable [DecidableEq ι] {b b' : CleanStart.State ι}

/-- What the server does to the records, and to the clients. -/
theorem server_frame {l : CleanStart.Label ι}
    (hl : l = .callWait ∨ l = .markDisconnected ∨ l = .dropServer ∨ ∃ w, l = .server w)
    (hst : b.step l = some b') : b'.client = b.client ∧ b'.hello = b.hello ∧
      ((∀ generation, b.server ≠ .waiting (.resetA generation)) → b'.begun = b.begun) ∧
      ((∃ generation, b.server = .waiting (.resetA generation)) → b'.server ≠ .idle) := by
  rcases hl with rfl | rfl | rfl | ⟨w, rfl⟩
  · simp only [CleanStart.State.step] at hst
    split_ifs at hst with hs
    cases hst
    exact ⟨rfl, rfl, fun _ => rfl, fun _ => by rintro ⟨⟩⟩
  · simp only [CleanStart.State.step] at hst
    split_ifs at hst with hs
    cases hst
    exact ⟨rfl, rfl, fun _ => rfl, fun _ => by rintro ⟨⟩⟩
  · simp only [CleanStart.State.step] at hst
    split_ifs at hst with hs
    cases hst
    exact ⟨rfl, rfl, fun _ => rfl, fun _ => by rintro ⟨⟩⟩
  · simp only [CleanStart.State.step, CleanStart.State.serverStep] at hst
    cases hs : b.server with
    | idle | dropped => simp [hs] at hst
    | marking pc | dropping pc =>
      simp only [hs] at hst
      split at hst <;> cases hst <;> exact ⟨rfl, rfl, fun _ => rfl, by simp⟩
    | waiting pc =>
      simp only [hs] at hst
      obtain ⟨⟨seg, next⟩, hpc, rfl⟩ := Option.map_eq_some_iff.1 hst
      cases pc with
      | resetA generation =>
        cases hpc
        exact ⟨rfl, rfl, fun h => absurd rfl (h generation), fun _ => by rintro ⟨⟩⟩
      | _ =>
        cases next with
        | goto => exact ⟨rfl, rfl, fun _ => rfl, by simp⟩
        | done res => cases res <;> exact ⟨rfl, rfl, fun _ => rfl, by simp⟩

/-- What a client does to the records, and to the other clients. -/
theorem client_frame {c : ι} {w : WaitOutcome} (hst : b.step (.client c w) = some b') :
    b'.begun = b.begun ∧ b'.server = b.server ∧
      (∀ d, d ≠ c → b'.client d = b.client d ∧ b'.hello d = b.hello d) ∧
      (b.client c = .connecting .storeClient ∨ b'.hello c = b.hello c) ∧
      b.client c ≠ .connected ∧ b'.client c ≠ .connecting .storeClient := by
  simp only [CleanStart.State.step, CleanStart.State.clientStep] at hst
  cases hs : b.client c with
  | idle | connected => simp [hs] at hst
  | dropping pc =>
    simp only [hs] at hst
    split at hst <;> cases hst <;>
      refine ⟨rfl, rfl, fun d hd => ⟨Function.update_of_ne hd .., rfl⟩, .inr rfl, by rintro ⟨⟩, ?_⟩
    all_goals
      simp only [Function.update_self]
      rintro ⟨⟩
  | connecting pc =>
    simp only [hs] at hst
    obtain ⟨⟨seg, next⟩, hpc, rfl⟩ := Option.map_eq_some_iff.1 hst
    refine ⟨rfl, rfl, fun d hd => ⟨Function.update_of_ne hd .., ?_⟩, ?_, by rintro ⟨⟩, ?_⟩
    · simp only
      split_ifs
      · exact Function.update_of_ne hd ..
      · rfl
    · cases pc with
      | storeClient => exact .inl rfl
      | _ => exact .inr rfl
    · simp only [Function.update_self]
      cases next with
      | goto pc' =>
        rintro ⟨⟩
        cases Connect.step_not_hellos b.seg hpc
      | done res => cases res <;> rintro ⟨⟩

end Frame

/-! ### The invariant -/

/-- The server was asked to send `p` after a handshake that began after the client's
`CLIENT_HELLO`. -/
def State.SentTo (s : State ι) (c : ι) (p : Payload) : Prop :=
  ∃ m ∈ s.sent, m.payload = p ∧ s.base.hello c < m.record

/-- The invariant: the ring is one ring for all clients whose calls began after its last reset. -/
structure Inv (s : State ι) : Prop where
  base : CleanStart.Inv s.base
  busy : ∀ c, s.reader c ≠ .idle → s.base.client c = .connected
  server : s.resetting ≠ [] → s.base.server ≠ .idle
  clearing : s.resetting ≠ [] → s.writer = .idle ∧ s.hist.frames = [] ∧ s.hist.moves = [] ∧
    (s.header.storeAll s.resetting).readPos = 0 ∧ (s.header.storeAll s.resetting).writePos = 0
  ring : s.resetting = [] → ConsumerInv (s.ring .idle)
  current : s.resetting = [] → ∀ c, s.stale c = false → ConsumerInv (s.ring (s.reader c))
  early : s.resetting ≠ [] → ∀ c, s.stale c = false → (s.reader c).onFrame = false
  queued : ∀ p, p ∈ s.hist.frames ∨ p ∈ s.writer.payload → ⟨p, s.base.begun⟩ ∈ s.sent
  taken : ∀ c, ∀ x ∈ (s.reader c).pending, s.SentTo c x.2
  received : ∀ c, ∀ p ∈ s.received c, s.SentTo c p
  fresh : ∀ c, s.base.client c = .connecting .storeClient → s.received c = []

namespace Inv

variable {s s' : State ι}

theorem init (storage : Storage) : Inv ({ storage := storage } : State ι) where
  base := CleanStart.Inv.init
  busy _ h := absurd rfl h
  server h := absurd rfl h
  clearing h := absurd rfl h
  ring _ := .init rfl rfl rfl rfl rfl rfl
  current _ _ _ := .init rfl rfl rfl rfl rfl rfl
  early h := absurd rfl h
  queued := by rintro p (⟨⟨⟩⟩ | ⟨⟨⟩⟩)
  taken := by rintro c x ⟨⟩
  received := by rintro c p ⟨⟩
  fresh _ _ := rfl

theorem clean (h : Inv s) : Clean s := fun c => ⟨h.base.connected, h.received c⟩

/-- What is on the ring, or about to be, was sent to every connected client. -/
theorem sentTo (h : Inv s) {c : ι} (hc : s.base.client c = .connected) {p : Payload}
    (hp : p ∈ s.hist.frames ∨ p ∈ s.writer.payload) : s.SentTo c p :=
  ⟨⟨p, s.base.begun⟩, h.queued p hp, rfl, h.base.performed_mono (h.base.connected hc)⟩

/-- A step of the control block that concerns no ring. -/
theorem keep (h : Inv s) {base : CleanStart.State ι} (hb : CleanStart.Inv base)
    (hbusy : ∀ c, s.reader c ≠ .idle → base.client c = .connected)
    (hbegun : base.begun = s.base.begun) (hserver : s.resetting ≠ [] → base.server ≠ .idle)
    (hhello : ∀ c, base.hello c = s.base.hello c ∨ s.received c = [] ∧ s.reader c = .idle)
    (hfresh : ∀ c, base.client c = .connecting .storeClient → s.received c = []) :
    Inv { s with base := base } where
  base := hb
  busy := hbusy
  server := hserver
  clearing := h.clearing
  ring := h.ring
  current := h.current
  early := h.early
  queued p hp := by
    change (⟨p, base.begun⟩ : Message ℕ) ∈ s.sent
    rw [hbegun]
    exact h.queued p hp
  taken c x hx := by
    rcases hhello c with hc | ⟨-, hr⟩
    · obtain ⟨m, hm, hmp, hlt⟩ := h.taken c x hx
      exact ⟨m, hm, hmp, hc.trans_lt hlt⟩
    · rw [show ({ s with base := base } : State ι).reader c = .idle from hr] at hx
      cases hx
  received c p hp := by
    rcases hhello c with hc | ⟨hr, -⟩
    · obtain ⟨m, hm, hmp, hlt⟩ := h.received c p hp
      exact ⟨m, hm, hmp, hc.trans_lt hlt⟩
    · rw [show ({ s with base := base } : State ι).received c = [] from hr] at hp
      cases hp
  fresh := hfresh

/-- The next store of `RingHeader::reset`; after the last one the ring is empty. -/
theorem reset (h : Inv s) {st : HeaderField × UInt32} {stores : List (HeaderField × UInt32)}
    (hres : s.resetting = st :: stores) :
    Inv { s with header := s.header.set st.2 st.1, resetting := stores } := by
  have hne : s.resetting ≠ [] := by simp [hres]
  obtain ⟨hw, hF, hM, hread, hwrite⟩ := h.clearing hne
  rw [hres] at hread hwrite
  have hinit (hs : stores = []) {r : Reader} (hr : r.onFrame = false) :
      ConsumerInv ⟨s.header.set st.2 st.1, s.storage, s.writer, r, s.hist⟩ := by
    subst hs
    exact .init hread hwrite hw hr hF hM
  exact { h with
    server := fun _ => h.server hne
    clearing := fun _ => ⟨hw, hF, hM, hread, hwrite⟩
    ring := fun hs => hinit hs rfl
    current := fun hs c hc => hinit hs (h.early hne c hc)
    early := fun _ => h.early hne }

/-- The producer goes on. -/
theorem onRing (h : Inv s) (hres : s.resetting = []) {r : RingState}
    (hr : ConsumerInv r ∧ Onward (s.ring .idle) r) (hrd : r.reader = .idle)
    {sent : List (Message ℕ)} (hsent : ∀ m ∈ s.sent, m ∈ sent)
    (hq : ∀ p, p ∈ r.hist.frames ∨ p ∈ r.writer.payload → ⟨p, s.base.begun⟩ ∈ sent) :
    Inv { s.onRing r with sent := sent } := by
  have hmono (c : ι) (p : Payload) (hp : s.SentTo c p) :
      ∃ m ∈ sent, m.payload = p ∧ s.base.hello c < m.record := by
    obtain ⟨m, hm, hmp⟩ := hp
    exact ⟨m, hsent m hm, hmp⟩
  exact { h with
    clearing := absurd hres
    ring := fun _ => by
      obtain ⟨header, storage, writer, reader, hist⟩ := r
      cases hrd
      exact hr.1
    current := fun _ c hc => (h.current hres c hc).other hr.1 ⟨hr.2.frames, hr.2.readEnd_le⟩
    early := absurd hres
    queued := hq
    taken := fun c x hx => hmono c x.2 (h.taken c x hx)
    received := fun c p hp => hmono c p (h.received c p hp) }

section Steps

variable [DecidableEq ι]

theorem serverControl (h : Inv s) {l : CleanStart.Label ι}
    (hcl : CleanStart.HelloClean s.base l)
    (hl : l = .callWait ∨ l = .markDisconnected ∨ l = .dropServer ∨ ∃ w, l = .server w)
    (hst : s.serverControl l = some s') : Inv s' := by
  rw [State.serverControl] at hst
  split_ifs at hst with hidle
  obtain ⟨base, hbase, hst⟩ := Option.map_eq_some_iff.1 hst
  have hb := h.base.step hcl hbase
  obtain ⟨hclient, hhello, hbegun, hserver⟩ := server_frame hl hbase
  have hsent (c : ι) (p : Payload) (hp : s.SentTo c p) :
      ∃ m ∈ s.sent, m.payload = p ∧ base.hello c < m.record := by
    rw [hhello]
    exact hp
  split at hst
  · -- `RingHeader::reset` of the ring to the clients is called
    rename_i generation hreset
    cases hst
    exact {
      base := hb
      busy := fun c => hclient ▸ h.busy c
      server := fun _ => hserver ⟨generation, hreset⟩
      clearing := fun _ => ⟨hidle.1, rfl, rfl, rfl, rfl⟩
      ring := by rintro ⟨⟩
      current := by rintro ⟨⟩
      early := fun _ _ hs => hs
      queued := by
        rintro p (⟨⟨⟩⟩ | hp)
        rw [show ({ s with base := base } : State ι).writer = .idle from hidle.1] at hp
        cases hp
      taken := fun c x hx => hsent c x.2 (h.taken c x hx)
      received := fun c p hp => hsent c p (h.received c p hp)
      fresh := fun c => hclient ▸ h.fresh c }
  · rename_i hreset
    cases hst
    exact h.keep hb (fun c => hclient ▸ h.busy c) (hbegun hreset) (absurd hidle.2)
      (fun c => .inl (by rw [hhello])) fun c => hclient ▸ h.fresh c

/-- A client forgets what an earlier connection of it has received. -/
theorem callConnect (h : Inv s) {c : ι} (hcl : CleanStart.HelloClean s.base (.callConnect c))
    (hst : s.control (.callConnect c) = some s') : Inv s' := by
  obtain ⟨base, hbase, rfl⟩ := Option.map_eq_some_iff.1 hst
  have hb := h.base.step hcl hbase
  have h₁ : Inv { s with received := Function.update s.received c [] } :=
    { h with
      received := fun d p hp => by
        by_cases hd : d = c
        · subst hd
          simp only [Function.update_self] at hp
          cases hp
        · simp only [Function.update_of_ne hd] at hp
          exact h.received d p hp
      fresh := fun d hf => by
        by_cases hd : d = c
        · subst hd
          exact Function.update_self ..
        · simp only [Function.update_of_ne hd]
          exact h.fresh d hf }
  simp only [CleanStart.State.step] at hbase
  split_ifs at hbase with hidle
  cases hbase
  refine h₁.keep hb (fun d hd => ?_) rfl h.server (fun _ => .inl rfl) fun d hf => ?_
  · have hdc : d ≠ c := by
      rintro rfl
      rw [h.busy d hd] at hidle
      cases hidle
    simp only [Function.update_of_ne hdc]
    exact h.busy d hd
  · by_cases hd : d = c
    · subst hd
      exact Function.update_self ..
    · simp only [Function.update_of_ne hd] at hf ⊢
      exact h.fresh d hf

/-- No call of the client is in the ring when it drops its end. -/
theorem dropClient (h : Inv s) {c : ι} (hcl : CleanStart.HelloClean s.base (.dropClient c))
    (hst : s.control (.dropClient c) = some s') : Inv s' := by
  simp only [State.control] at hst
  split_ifs at hst with hr
  obtain ⟨base, hbase, rfl⟩ := Option.map_eq_some_iff.1 hst
  have hb := h.base.step hcl hbase
  simp only [CleanStart.State.step] at hbase
  split_ifs at hbase with hconn
  cases hbase
  refine h.keep hb (fun d hd => ?_) rfl h.server (fun _ => .inl rfl) fun d hf => ?_
  · have hdc : d ≠ c := by
      rintro rfl
      exact hd hr
    simp only [Function.update_of_ne hdc]
    exact h.busy d hd
  · by_cases hd : d = c
    · subst hd
      simp only [Function.update_self] at hf
      cases hf
    · simp only [Function.update_of_ne hd] at hf
      exact h.fresh d hf

/-- `connect` and the `Drop` of a client do not touch the ring. -/
theorem clientControl (h : Inv s) {c : ι} {w : WaitOutcome}
    (hcl : CleanStart.HelloClean s.base (.client c w))
    (hst : s.control (.client c w) = some s') : Inv s' := by
  obtain ⟨base, hbase, rfl⟩ := Option.map_eq_some_iff.1 hst
  have hb := h.base.step hcl hbase
  obtain ⟨hbegun, hserver, hother, hhello, hconn, hstart⟩ := client_frame hbase
  have hr : s.reader c = .idle := by
    by_contra hr
    exact hconn (h.busy c hr)
  refine h.keep hb (fun d hd => ?_) hbegun (hserver ▸ h.server) (fun d => ?_) fun d hf => ?_
  · have hdc : d ≠ c := by
      rintro rfl
      exact hd hr
    rw [(hother d hdc).1]
    exact h.busy d hd
  · by_cases hd : d = c
    · subst hd
      exact hhello.symm.imp id fun hs => ⟨h.fresh d hs, hr⟩
    · exact .inl (hother d hd).2
  · by_cases hd : d = c
    · subst hd
      exact absurd hf hstart
    · exact h.fresh d ((hother d hd).1 ▸ hf)

theorem control (h : Inv s) {l : CleanStart.Label ι}
    (hcl : CleanStart.HelloClean s.base l)
    (hst : s.control l = some s') : Inv s' := by
  cases l with
  | send p => cases hst
  | receive c => cases hst
  | callWait => exact h.serverControl hcl (.inl rfl) hst
  | markDisconnected => exact h.serverControl hcl (.inr (.inl rfl)) hst
  | dropServer => exact h.serverControl hcl (.inr (.inr (.inl rfl))) hst
  | server w => exact h.serverControl hcl (.inr (.inr (.inr ⟨w, rfl⟩))) hst
  | callConnect c => exact h.callConnect hcl hst
  | dropClient c => exact h.dropClient hcl hst
  | client c w => exact h.clientControl hcl hst

/-- The client of a call that goes on; the ring is left to the others as the hypotheses say. -/
theorem afterReader (h : Inv s) {c : ι} {r : RingState} (hconn : s.base.client c = .connected)
    (hw : r.writer = s.writer) (hF : r.hist.frames = s.hist.frames)
    (hclear : s.resetting ≠ [] → r.hist.moves = s.hist.moves ∧
      r.header.readPos = s.header.readPos ∧ r.header.writePos = s.header.writePos)
    (hring : s.resetting = [] → ConsumerInv { r with reader := .idle })
    (hself : s.resetting = [] → s.stale c = false → ConsumerInv r)
    (hother : s.resetting = [] → ∀ d, s.stale d = false →
      ConsumerInv { r with reader := s.reader d })
    (hpend : ∀ x ∈ r.reader.pending, s.SentTo c x.2)
    (hreads : ∃ res, r.hist.reads = s.hist.reads ++ res ∧ ∀ x, .ok x ∈ res → s.SentTo c x.2) :
    Inv { s.onRing r with
      reader := Function.update s.reader c r.reader
      stale := Function.update s.stale c (r.reader.onFrame && (s.stale c || !s.resetting.isEmpty))
      received := Function.update s.received c (s.received c ++
        (r.hist.reads.drop s.hist.reads.length).filterMap fun res =>
          res.toOption.map Prod.snd) } where
  base := h.base
  busy d hd := by
    by_cases hdc : d = c
    · exact hdc ▸ hconn
    · simp only [Function.update_of_ne hdc] at hd
      exact h.busy d hd
  server := h.server
  clearing hres := by
    obtain ⟨hidle, hfr, hmv, hread, hwrite⟩ := h.clearing hres
    obtain ⟨hM, hr, hwp⟩ := hclear hres
    exact ⟨hw.trans hidle, hF.trans hfr, hM.trans hmv,
      (RingHeader.word_storeAll_congr (f := .readPos) hr s.resetting).trans hread,
      (RingHeader.word_storeAll_congr (f := .writePos) hwp s.resetting).trans hwrite⟩
  ring := hring
  current hres d hd := by
    by_cases hdc : d = c
    · subst hdc
      simp only [Function.update_self] at hd ⊢
      rcases Bool.and_eq_false_iff.1 hd with hd | hd
      · exact (hring hres).rest hd
      · exact hself hres (Bool.or_eq_false_iff.1 hd).1
    · simp only [Function.update_of_ne hdc] at hd ⊢
      exact hother hres d hd
  early hres d hd := by
    by_cases hdc : d = c
    · subst hdc
      simp only [Function.update_self] at hd ⊢
      rcases Bool.and_eq_false_iff.1 hd with hd | hd
      · exact hd
      · have hempty : s.resetting.isEmpty = true := by simpa using (Bool.or_eq_false_iff.1 hd).2
        exact absurd (List.isEmpty_iff.1 hempty) hres
    · simp only [Function.update_of_ne hdc] at hd ⊢
      exact h.early hres d hd
  queued p hp := h.queued p <| hp.imp (fun hp => hF ▸ hp) fun hp => hw ▸ hp
  taken d x hx := by
    by_cases hdc : d = c
    · subst hdc
      simp only [Function.update_self] at hx
      exact hpend x hx
    · simp only [Function.update_of_ne hdc] at hx
      exact h.taken d x hx
  received d p hp := by
    by_cases hdc : d = c
    · subst hdc
      obtain ⟨res, hr, hsent⟩ := hreads
      simp only [Function.update_self, hr, List.drop_left, List.mem_append, List.mem_filterMap,
        Option.map_eq_some_iff] at hp
      rcases hp with hp | ⟨y, hy, x, hx, rfl⟩
      · exact h.received d p hp
      · cases y with
        | error e => cases hx
        | ok y =>
          cases hx
          exact hsent x hy
    · simp only [Function.update_of_ne hdc] at hp
      exact h.received d p hp
  fresh d hd := by
    have hdc : d ≠ c := by
      rintro rfl
      rw [show s.base.client d = _ from hd] at hconn
      cases hconn
    simp only [Function.update_of_ne hdc]
    exact h.fresh d hd

/-- A client goes on in `read_message`. -/
theorem readerStep (h : Inv s) {c : ι} (hu : Undisturbed s (.reader c))
    (hst : s.readerStep c = some s') : Inv s' := by
  obtain ⟨r, hr, rfl⟩ := Option.map_eq_some_iff.1 hst
  have hconn : s.base.client c = .connected := h.busy c <| by
    intro hidle
    rw [hidle] at hr
    cases hr
  by_cases hcur : s.resetting = [] ∧ s.stale c = false
  · -- the call belongs to the ring as it was last reset
    obtain ⟨hres, hstale⟩ := hcur
    obtain ⟨⟨hr', ho⟩, hw, hF, res, hreads, hsent⟩ :=
      (h.current hres c hstale).readerStep (hu.short c rfl hstale) (hu.unread c rfl hres) hr
    exact h.afterReader hconn hw hF (absurd hres) (fun _ => hr'.rest rfl) (fun _ _ => hr')
      (fun _ d hd => (h.current hres d hd).other hr' ⟨ho.frames, ho.readEnd_le⟩)
      (fun x hx => h.sentTo hconn (.inl (hF ▸ hr'.pending x hx)))
      ⟨res, hreads, fun x hx => h.sentTo hconn (.inl (hsent x hx))⟩
  · -- the call began before the reset, or has not loaded `read_pos`: it leaves the ring as it is
    have hne : (s.reader c).taking ≠ some s.header.readPos := by
      cases hs : s.stale c with
      | true => exact hu.moved c rfl hs
      | false =>
        have hf := h.early (fun hres => hcur ⟨hres, hs⟩) c hs
        cases hc : s.reader c with
        | compareExchange a n out =>
          rw [hc] at hf
          cases hf
        | _ => rintro ⟨⟩
    obtain ⟨⟨hst, hrp, hwp, hF, hM, hw⟩, hpend, res, hreads, hsent⟩ :=
      RingState.readerStep_still hne hr
    exact h.afterReader hconn hw hF (fun _ => ⟨hM, hrp, hwp⟩)
      (fun hres => (h.ring hres).still hst hrp hwp hF hM hw rfl)
      (fun hres hs => absurd ⟨hres, hs⟩ hcur)
      (fun hres d hd => (h.current hres d hd).still hst hrp hwp hF hM hw rfl)
      (fun x hx => h.taken c x (hpend x hx)) ⟨res, hreads, fun x hx => h.taken c x (hsent x hx)⟩

/-- **A step that nothing disturbs keeps the invariant.** -/
theorem step (h : Inv s) {l : Label ι} (hu : Undisturbed s l) (hst : s.step l = some s') :
    Inv s' := by
  cases l with
  | control l => exact h.control (hu.hello l rfl) hst
  | reset =>
    simp only [State.step] at hst
    split at hst
    · cases hst
    · rename_i st stores hres
      cases hst
      exact h.reset hres
  | callSend p =>
    simp only [State.step] at hst
    split_ifs at hst with hidle
    cases hst
    have hres : s.resetting = [] := by
      by_contra hne
      exact h.server hne hidle.1
    have hcall := (h.ring hres).callWrite hidle.2.2 p
    refine h.onRing hres hcall ?_ (fun m hm => List.mem_append_left _ hm) fun q hq => ?_
    · rw [RingState.callWrite]
      split_ifs <;> rfl
    · have hq' : q ∈ s.hist.frames ∨ q ∈ s.writer.payload ∨ q = p := by
        rw [RingState.callWrite] at hq
        split_ifs at hq
        all_goals first
          | exact hq.imp id .inl
          | exact hq.imp id fun hq => .inr (Option.some.inj hq).symm
      rcases hq' with hq | hq | rfl
      · exact List.mem_append_left _ (h.queued q (.inl hq))
      · exact List.mem_append_left _ (h.queued q (.inr hq))
      · exact List.mem_append_right _ (List.mem_singleton_self _)
  | writer =>
    obtain ⟨r, hr, rfl⟩ := Option.map_eq_some_iff.1 hst
    have hres : s.resetting = [] := by
      by_contra hne
      have hw := (h.clearing hne).1
      simp [RingState.writerStep, State.ring, hw] at hr
    have hring := h.ring hres
    obtain ⟨hpay, hfr⟩ := ConsumerInv.writerStep_payload hr
    refine h.onRing hres (hring.writerStep hr) (hring.ring.writerStep_progress hr).1
      (fun _ hm => hm) fun q hq => ?_
    exact h.queued q (hq.elim (hfr q) fun hq => .inr (hpay q hq))
  | callReceive c =>
    simp only [State.step] at hst
    split_ifs at hst with hconn
    cases hst
    exact { h with
      busy := forall_update (P := fun r : Reader => r ≠ .idle) (fun _ => hconn.1) h.busy
      current := fun hres d hd => by
        by_cases hdc : d = c
        · subst hdc
          simp only [Function.update_self]
          exact (h.ring hres).rest rfl
        · simp only [Function.update_of_ne hdc]
          exact h.current hres d hd
      early := fun hres d hd => by
        by_cases hdc : d = c
        · subst hdc
          simp only [Function.update_self]
          rfl
        · simp only [Function.update_of_ne hdc]
          exact h.early hres d hd
      taken := fun d x hx => by
        by_cases hdc : d = c
        · subst hdc
          simp only [Function.update_self] at hx
          cases hx
        · simp only [Function.update_of_ne hdc] at hx
          exact h.taken d x hx }
  | reader c => exact h.readerStep hu hst

end Steps

end Inv

instance [DecidableEq ι] (s : State ι) (l : Label ι) : Decidable (NoLeftover s l) :=
  match l with
  | .control l =>
    decidable_of_iff (CleanStart.HelloClean s.base l)
      ⟨by rintro h _ ⟨rfl⟩; exact h, fun h => h l rfl⟩
  | .reset | .callSend _ | .writer | .callReceive _ | .reader _ => isTrue (by rintro l ⟨⟩)

instance [DecidableEq ι] (s : State ι) (l : Label ι) : Decidable (Undisturbed s l) :=
  match l with
  | .control l =>
    decidable_of_iff (NoLeftover s (.control l))
      ⟨fun h => ⟨h, by rintro c ⟨⟩, by rintro c ⟨⟩, by rintro c ⟨⟩⟩, fun h => h.hello⟩
  | .reader c =>
    decidable_of_iff ((s.stale c = true → (s.reader c).taking ≠ some s.header.readPos) ∧
        (s.resetting = [] → FrameUnread (s.ring (s.reader c)) .reader) ∧
        (s.stale c = false → ShortAttempt (s.ring (s.reader c)) .reader))
      ⟨fun h => ⟨by rintro l ⟨⟩, by rintro _ ⟨rfl⟩; exact h.1, by rintro _ ⟨rfl⟩; exact h.2.1,
          by rintro _ ⟨rfl⟩; exact h.2.2⟩,
        fun h => ⟨h.moved c rfl, h.unread c rfl, h.short c rfl⟩⟩
  | .reset | .callSend _ | .writer | .callReceive _ =>
    isTrue ⟨by rintro l ⟨⟩, by rintro c ⟨⟩, by rintro c ⟨⟩, by rintro c ⟨⟩⟩

end Reconnect

open Reconnect
/-- **A clean start.**  If no client stores `CLIENT_HELLO` where a leftover can be taken for its
answer and no client reads across a reset of the ring, `connect` returns `Ok` only after a handshake
of its own, and the client receives only what was sent after that. -/
theorem cleanStart_of_undisturbed {ι : Type*} [DecidableEq ι] {s : State ι}
    (h : (Reconnect.system ι).ReachWhen Undisturbed s) : Clean s := by
  refine (h.invariant (I := Inv) ?_ fun _ _ _ hi hc hst => hi.step hc hst).clean
  rintro _ ⟨storage, rfl⟩
  exact Inv.init storage

namespace Reconnect

/-- A client connects up to its wait for `connect_ack`. -/
def hello {ι : Type*} (c : ι) : List (Label ι) := (CleanStart.hello c).map .control

/-- A client whose wait for `connect_ack` succeeds connects. -/
def accept {ι : Type*} (c : ι) : List (Label ι) := (CleanStart.accept c).map .control

/-- The server performs a handshake up to its signal. -/
def handshake {ι : Type*} : List (Label ι) :=
  (CleanStart.handshake.take 5).map .control ++ List.replicate 7 .reset ++
    (CleanStart.handshake.drop 5).map .control

/-- The server signals `connect_ack`. -/
def ack {ι : Type*} : List (Label ι) := [.control (.server .signalled)]

/-- The server gives its client up. -/
def teardown {ι : Type*} : List (Label ι) :=
  .control .markDisconnected :: List.replicate 4 (.control (.server .signalled))

/-- The server sends a message, in `n` accesses. -/
def send {ι : Type*} (p : Payload) (n : ℕ) : List (Label ι) :=
  .callSend p :: List.replicate n .writer

/-- A client is in a receive, `n` accesses on. -/
def receive {ι : Type*} (c : ι) (n : ℕ) : List (Label ι) :=
  .callReceive c :: List.replicate n (.reader c)

/-- The client `false` has received a message and is about to take another when the server resets
the ring for the client `true`; its `compare_exchange` fails. -/
def secondConnection : List (Label Bool) :=
  hello false ++ handshake ++ ack ++ accept false ++ send [1, 2] 12 ++ receive false 9 ++
    send [3, 4] 12 ++ receive false 6 ++ teardown ++ hello true ++ handshake ++ ack ++
    accept true ++ .reader false :: send [5, 6] 12 ++ receive true 9

/-- The client `false` gives up before the server signals `connect_ack`; the client `true` takes
that signal for its own. -/
def leftoverAck : List (Label Bool) :=
  hello false ++ handshake ++ .control (.client false .timeout) ::
    List.replicate 3 (.control (.client false .signalled)) ++ ack ++ send [1, 2] 12 ++
    hello true ++ accept true ++ receive true 9

/-- The client `false` takes a message after the server has reset the ring for the client
`true`. -/
def lateRead : List (Label Bool) :=
  hello false ++ handshake ++ ack ++ accept false ++ send [1, 2] 12 ++ send [3, 4] 11 ++
    receive false 6 ++ teardown ++ hello true ++ handshake ++ ack ++
    List.replicate 2 (.reader false) ++ accept true ++ receive true 8

end Reconnect

theorem cleanStart_of_undisturbed_secondConnection : ∃ s : State Bool, Clean s ∧
    s.base.client true = .connected ∧ s.base.hello true = 1 ∧ s.received false = [[1, 2]] ∧
      s.received true = [[5, 6]] := by
  obtain ⟨s, h, hs⟩ := System.exists_reachWhen (A := Reconnect.system Bool) (C := Undisturbed)
    (s := {}) (r := secondConnection)
    (f := fun s => (s.base.client true, s.base.hello true, s.received false, s.received true))
    (t := (.connected, 1, [[1, 2]], [[5, 6]])) ⟨_, rfl⟩ (by decide +kernel)
  simp only [Prod.mk.injEq] at hs
  exact ⟨s, cleanStart_of_undisturbed h, hs⟩

/-- A leftover `connect_ack` connects a client without a handshake and delivers a message sent
before. -/
theorem not_cleanStart :
    ¬ ∀ (ι : Type) [DecidableEq ι] (s : State ι), (Reconnect.system ι).Reach s → Clean s := by
  intro h
  obtain ⟨s, hr, hs⟩ := System.exists_reachWhen (A := Reconnect.system Bool)
    (C := fun _ _ => True) (s := {}) (r := leftoverAck)
    (f := fun s => (s.base.client true, s.base.hello true, s.base.performed, s.received true))
    (t := (.connected, 1, 1, [[1, 2]])) ⟨_, rfl⟩ (by decide +kernel)
  simp only [Prod.mk.injEq] at hs
  have := (h Bool s hr true).1 hs.1
  omega

/-- Nor is it enough that no `CLIENT_HELLO` meets a leftover: a `compare_exchange` on a
`read_pos` loaded before the reset delivers a message of the earlier session. -/
theorem not_cleanStart_of_helloClean :
    ¬ ∀ (ι : Type) [DecidableEq ι] (s : State ι),
      (Reconnect.system ι).ReachWhen NoLeftover s → Clean s := by
  intro h
  obtain ⟨s, hr, hs⟩ := System.exists_reachWhen (A := Reconnect.system Bool) (C := NoLeftover)
    (s := {}) (r := lateRead)
    (f := fun s => (s.base.hello true, s.received true, s.sent.map fun m => (m.payload, m.record)))
    (t := (1, [[3, 4]], [([1, 2], 1), ([3, 4], 1)])) ⟨_, rfl⟩ (by decide +kernel)
  simp only [Prod.mk.injEq] at hs
  obtain ⟨hhello, hrec, hsent⟩ := hs
  have hclean := h Bool s hr true
  obtain ⟨m, hm, -, hlt⟩ := hclean.2 [3, 4] (by rw [hrec]; exact List.mem_singleton_self _)
  have hmem : (m.payload, m.record) ∈ s.sent.map fun m => (m.payload, m.record) :=
    List.mem_map_of_mem hm
  rw [hsent, hhello] at *
  simp only [List.mem_cons, Prod.mk.injEq, List.not_mem_nil, or_false] at hmem
  omega

end Xshm
