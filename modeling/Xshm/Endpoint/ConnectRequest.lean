import Xshm.System.History
import Xshm.Endpoint.CleanStart

/-!
# No connect request is lost

A client announces itself in two places: it stores `CLIENT_HELLO` in `client_state`, and it sets
`connect_req`.  `wait_for_client` consumes the event first and looks at `client_state` next.
Whoever stores something else there in between (the `Drop` of an earlier client, a `connect` that
gives up, `mark_disconnected`, the end of a handshake with another client) makes that call return
`HandshakeFailed`, and the request is lost.

`HelloKept` excludes these stores while a `CLIENT_HELLO` that the server has not read stands there;
then the call that consumes a request completes its handshake and signals `connect_ack`
(`acknowledged_of_helloKept`).  The model is that of `Xshm.Endpoint.CleanStart`, with a history of
the requests; a `set` of an event does not fail in it.
-/

namespace Xshm

/-- How many accesses `wait_for_client` still makes, if it completes its handshake. -/
def WaitForClient.left : WaitForClient → ℕ
  | .waitReq => 11
  | .loadClient => 10
  | .loadGeneration => 9
  | .resetA _ => 8
  | .resetB _ => 7
  | .storeGeneration _ => 6
  | .readyA => 5
  | .readyB => 4
  | .readyServer => 3
  | .readyClient => 2
  | .setAck => 1

/-- `wait_for_client` has consumed `connect_req`. -/
def WaitForClient.answering : WaitForClient → Bool
  | .waitReq => false
  | _ => true

/-- `wait_for_client` is about to read `client_state`. -/
def WaitForClient.reading : WaitForClient → Bool
  | .loadClient => true
  | _ => false

namespace CleanStart

/-- The server is in a `wait_for_client` that has consumed `connect_req`. -/
def ServerThread.answering : ServerThread → Bool
  | .waiting pc => pc.answering
  | _ => false

/-- The server is about to read `client_state`. -/
def ServerThread.reading : ServerThread → Bool
  | .waiting pc => pc.reading
  | _ => false

/-- The next access of the server stores something other than `CLIENT_HELLO` in `client_state`. -/
def ServerThread.overwrites : ServerThread → Bool
  | .waiting .readyClient | .marking .storeClient | .dropping (.store .storeClient) => true
  | _ => false

/-- The next access of the client stores something other than `CLIENT_HELLO` in `client_state`. -/
def ClientThread.overwrites : ClientThread → Bool
  | .connecting (.resetClient _) | .dropping .storeClient => true
  | _ => false

/-- The client waits for `connect_ack`. -/
def ClientThread.atAck : ClientThread → Bool
  | .connecting .waitAck => true
  | _ => false

theorem ClientThread.waiting_of_atAck {t : ClientThread} (h : t.atAck = true) :
    t.waiting = true := by
  unfold ClientThread.atAck at h
  split at h
  · rfl
  · cases h

/-- What has become of the request of a client, since it last stored `CLIENT_HELLO`. -/
structure Request where
  /-- The client has set `connect_req` and waits for the answer, and no `wait_for_client` has
  consumed the event. -/
  asked : Bool := false
  /-- The `wait_for_client` that has consumed it has not returned, and the client waits. -/
  taken : Bool := false
  /-- The server has read `CLIENT_HELLO`. -/
  read : Bool := false
  deriving DecidableEq

theorem Request.not_out : ¬ (({} : Request).asked = true ∨ ({} : Request).taken = true) := by
  decide

variable {ι : Type*} [DecidableEq ι]

/-- The history of the requests. -/
def noteRequest (s : State ι) (l : Label ι) (_ : State ι) (g : ι → Request) : ι → Request :=
  match l with
  | .client c _ =>
    match s.client c with
    | .connecting .setReq => Function.update g c { g c with asked := true }
    | .connecting .storeClient | .connecting .waitAck => Function.update g c {}
    | _ => g
  | .server w =>
    match s.server with
    | .waiting .waitReq =>
      if w = .signalled then
        fun c => { g c with asked := false, taken := (g c).asked }
      else g
    | .waiting .loadClient =>
      if s.seg.clientState = handshakeClientHello then fun c => { g c with read := true } else g
    | .waiting .setAck => fun c => { g c with taken := false }
    | _ => g
  | _ => g

/-- A server and its clients, with the requests. -/
def requestSystem (ι : Type*) [DecidableEq ι] : System (State ι × (ι → Request)) (Label ι) :=
  (CleanStart.system ι).withHistory (fun _ => {}) noteRequest

/-- The call of `wait_for_client` that the server is in has consumed `connect_req`, and left alone
it completes its handshake and signals `connect_ack`. -/
def Acknowledges (s : State ι) : Prop :=
  s.server.answering = true ∧ ∃ s', (CleanStart.system ι).Solo (.server .signalled) s s' ∧
    s'.server = .idle ∧ s'.connected = true ∧ s'.seg.connectAck = true

/-- Every `CLIENT_HELLO` of a waiting client has been read. -/
def AllRead (p : State ι × (ι → Request)) : Prop :=
  ∀ c, (p.1.client c).waiting = true → (p.2 c).read = true

/-- `CLIENT_HELLO` is overwritten only after the server has read it, and `connect_req` is not
consumed while it stands for a client whose `CLIENT_HELLO` the server has read before. -/
def HelloKept (p : State ι × (ι → Request)) : Label ι → Prop
  | .server w =>
    (p.1.server.overwrites = true → AllRead p) ∧
      (w = .signalled → p.1.server = .waiting .waitReq →
        ∀ c, (p.2 c).asked = true → (p.2 c).read = false)
  | .client d _ => (p.1.client d).overwrites = true → AllRead p
  | _ => True

/-! ### What one call does -/

/-- An access of `wait_for_client` after it has consumed `connect_req`, with `CLIENT_HELLO` in place
when it reads `client_state`. -/
theorem step_left {A B : Type*} {seg : Segment A B} {pc : WaitForClient} {w : WaitOutcome}
    (ha : pc.answering = true)
    (hr : pc.reading = true → seg.clientState = handshakeClientHello) :
    ∃ seg' next, pc.step seg w = some (seg', next) ∧
      ((∃ pc', next = .goto pc' ∧ pc'.answering = true ∧ pc'.reading = false ∧
          pc'.left < pc.left) ∨
        next = .done (.ok ()) ∧ seg'.connectAck = true) := by
  cases pc with
  | waitReq => cases ha
  | setAck => exact ⟨_, _, rfl, .inr ⟨rfl, rfl⟩⟩
  | loadClient =>
    refine ⟨seg, .goto .loadGeneration, ?_, .inl ⟨_, rfl, rfl, rfl, by decide⟩⟩
    rw [WaitForClient.step, if_neg (not_not.2 (hr rfl))]
  | _ => exact ⟨_, _, rfl, .inl ⟨_, rfl, rfl, rfl, by simp [WaitForClient.left]⟩⟩

/-- A call that has consumed `connect_req` and does not find `client_state` changed completes. -/
theorem acknowledges_of_answering {s : State ι} {pc : WaitForClient} (hs : s.server = .waiting pc)
    (ha : pc.answering = true)
    (hr : pc.reading = true → s.seg.clientState = handshakeClientHello) : Acknowledges s := by
  refine ⟨by rw [hs]; exact ha, ?_⟩
  induction hn : pc.left using Nat.strong_induction_on generalizing s pc with
  | _ n ih =>
    obtain ⟨seg', next, hst, hnext⟩ := step_left (w := .signalled) ha hr
    rcases hnext with ⟨pc', rfl, ha', hr', hlt⟩ | ⟨rfl, hack⟩
    · obtain ⟨s', hsolo, hs'⟩ := ih pc'.left (hn ▸ hlt) (s := { s with
        seg := seg'
        begun := if pc.begins then s.begun + 1 else s.begun
        performed := if pc.publishes then s.begun else s.performed
        server := .waiting pc' }) rfl ha'
        (fun h => absurd h (by rw [hr']; exact Bool.false_ne_true)) rfl
      refine ⟨s', .step ?_ hsolo, hs'⟩
      simp [CleanStart.system, State.step, State.serverStep, hs, hst]
    · refine ⟨{ s with
        seg := seg'
        begun := if pc.begins then s.begun + 1 else s.begun
        performed := if pc.publishes then s.begun else s.performed
        server := .idle
        connected := true }, .single ?_, rfl, rfl, hack⟩
      simp [CleanStart.system, State.step, State.serverStep, hs, hst]

/-! ### The invariant -/

/-- The invariant: an unread `CLIENT_HELLO` stands in `client_state`. -/
structure RequestInv (p : State ι × (ι → Request)) : Prop where
  atAck : ∀ c, (p.2 c).asked = true ∨ (p.2 c).taken = true → (p.1.client c).atAck = true
  hello : ∀ c, (p.1.client c).waiting = true → (p.2 c).read = false →
    p.1.seg.clientState = handshakeClientHello
  answering : ∀ c, (p.2 c).taken = true → p.1.server.answering = true
  reading : ∀ c, (p.2 c).taken = true → p.1.server.reading = true → (p.2 c).read = false

namespace RequestInv

variable {s s' : State ι} {g : ι → Request}

omit [DecidableEq ι] in
theorem init : RequestInv (({} : State ι), fun _ => {}) := by
  constructor <;> simp [ClientThread.waiting]

omit [DecidableEq ι] in
/-- A step of the server that no request notices. -/
theorem server_step (h : RequestInv (s, g))
    (hseg : s'.seg.clientState = s.seg.clientState ∨ AllRead (s, g)) (hcl : s'.client = s.client)
    (ht : ∀ c, (g c).taken = true → s'.server.answering = true ∧ s'.server.reading = false) :
    RequestInv (s', g) where
  atAck c hc := by
    rw [hcl]
    exact h.atAck c hc
  hello c hc hr := by
    rw [hcl] at hc
    rcases hseg with hseg | hall
    · rw [hseg]
      exact h.hello c hc hr
    · exact absurd hr (by rw [hall c hc]; decide)
  answering c hc := (ht c hc).1
  reading c hc hr := absurd hr (by rw [(ht c hc).2]; decide)

omit [DecidableEq ι] in
/-- No request has been consumed by a server that is not in `wait_for_client`. -/
theorem not_taken (h : RequestInv (s, g)) (hs : s.server.answering = false) (c : ι) :
    (g c).taken = false := by
  by_contra hc
  rw [Bool.not_eq_false] at hc
  rw [h.answering c hc] at hs
  cases hs

omit [DecidableEq ι] in
/-- A server that has consumed no request moves. -/
theorem server_free (h : RequestInv (s, g)) (hs : s.server.answering = false)
    (hseg : s'.seg.clientState = s.seg.clientState ∨ AllRead (s, g))
    (hcl : s'.client = s.client) : RequestInv (s', g) :=
  h.server_step hseg hcl fun c hc => absurd hc (by rw [h.not_taken hs c]; decide)

/-- A step of client `c`, whose request becomes `r`. -/
theorem client_step (h : RequestInv (s, g)) {c : ι} {t : ClientThread}
    {r : Request} (hserver : s'.server = s.server)
    (hseg : s'.seg.clientState = s.seg.clientState ∨
      s'.seg.clientState = handshakeClientHello ∨ AllRead (s, g))
    (hcl : s'.client = Function.update s.client c t)
    (hr : r.asked = true ∨ r.taken = true → t.atAck = true)
    (hw : t.waiting = true → r.read = false → s'.seg.clientState = handshakeClientHello)
    (ht : r.taken = true → (g c).taken = true ∧ r.read = (g c).read) :
    RequestInv (s', Function.update g c r) := by
  constructor
  · intro d
    simp only [hcl, Function.update_apply]
    split_ifs with hd
    · exact hr
    · exact h.atAck d
  · intro d
    simp only [hcl, Function.update_apply]
    split_ifs with hd
    · exact hw
    · intro hc hread
      rcases hseg with hseg | hseg | hall
      · rw [hseg]
        exact h.hello d hc hread
      · exact hseg
      · exact absurd hread (by rw [hall d hc]; decide)
  · intro d
    simp only [hserver, Function.update_apply]
    split_ifs with hd
    · exact fun hc => h.answering c (ht hc).1
    · exact h.answering d
  · intro d
    simp only [hserver, Function.update_apply]
    split_ifs with hd
    · exact fun hc hs => (ht hc).2.trans (h.reading c (ht hc).1 hs)
    · exact h.reading d

theorem serverStep (h : RequestInv (s, g)) {w : WaitOutcome}
    (hk : HelloKept (s, g) (.server w)) (hst : s.serverStep w = some s') :
    RequestInv (s', noteRequest s (.server w) s' g) := by
  obtain ⟨hall, hearly⟩ := hk
  unfold State.serverStep at hst
  cases hs : s.server with
  | idle | dropped => simp [hs] at hst
  | marking pc =>
    have hfree : s.server.answering = false := by rw [hs]; rfl
    simp only [hs] at hst
    simp only [noteRequest, hs]
    cases pc with
    | storeClient =>
      cases hst
      exact h.server_free hfree (.inr (hall (by rw [hs]; rfl))) rfl
    | storeServer | storeA | storeB =>
      cases hst
      exact h.server_free hfree (.inl rfl) rfl
  | dropping pc =>
    have hfree : s.server.answering = false := by rw [hs]; rfl
    simp only [hs] at hst
    simp only [noteRequest, hs]
    cases pc with
    | store pc =>
      cases pc with
      | storeClient =>
        cases hst
        exact h.server_free hfree (.inr (hall (by rw [hs]; rfl))) rfl
      | storeServer | storeA =>
        cases hst
        exact h.server_free hfree (.inl rfl) rfl
      | storeB =>
        simp only [DropServer.step, MarkDisconnected.step] at hst
        split_ifs at hst <;> cases hst <;> exact h.server_free hfree (.inl rfl) rfl
    | setDisconnect =>
      cases hst
      exact h.server_free hfree (.inl rfl) rfl
  | waiting pc =>
    simp only [hs] at hst
    simp only [noteRequest, hs]
    cases pc with
    | waitReq =>
      have hfree : s.server.answering = false := by rw [hs]; rfl
      cases w with
      | signalled =>
        simp only [WaitForClient.step, WaitForClient.begins, WaitForClient.publishes,
          Bool.false_eq_true, ↓reduceIte] at hst
        split_ifs at hst <;> cases hst
        rw [if_pos rfl]
        exact
          { atAck := fun c hc => h.atAck c (.inl (hc.resolve_left Bool.false_ne_true))
            hello := h.hello
            answering := fun _ _ => rfl
            reading := fun c hc _ => hearly rfl hs c hc }
      | timeout =>
        simp only [WaitForClient.step, WaitForClient.begins, WaitForClient.publishes,
          Bool.false_eq_true, ↓reduceIte] at hst
        split_ifs at hst <;> cases hst
        exact h.server_free hfree (.inl rfl) rfl
      | failed e =>
        cases hst
        exact h.server_free hfree (.inl rfl) rfl
    | loadClient =>
      simp only [WaitForClient.step, WaitForClient.begins, WaitForClient.publishes,
        Bool.false_eq_true, ↓reduceIte] at hst
      split_ifs at hst with hhello
      · -- whoever's request this call has consumed has its `CLIENT_HELLO` in place
        cases hst
        rw [if_neg hhello]
        refine h.server_step (.inl rfl) rfl fun c hc => absurd ?_ hhello
        exact h.hello c (ClientThread.waiting_of_atAck (h.atAck c (.inr hc)))
          (h.reading c hc (by rw [hs]; rfl))
      · cases hst
        rw [if_pos (not_not.1 hhello)]
        exact
          { atAck := h.atAck
            hello := fun _ _ => Bool.noConfusion
            answering := fun _ _ => rfl
            reading := fun _ _ => Bool.noConfusion }
    | readyClient =>
      cases hst
      exact h.server_step (.inr (hall (by rw [hs]; rfl))) rfl fun _ _ => ⟨rfl, rfl⟩
    | setAck =>
      cases hst
      exact
        { atAck := fun c hc => h.atAck c (.inl (hc.resolve_right Bool.false_ne_true))
          hello := h.hello
          answering := fun _ => Bool.noConfusion
          reading := fun _ => Bool.noConfusion }
    | loadGeneration | resetA | resetB | storeGeneration | readyA | readyB | readyServer =>
      cases hst
      exact h.server_step (.inl rfl) rfl fun _ _ => ⟨rfl, rfl⟩

theorem clientStep (h : RequestInv (s, g)) {c : ι} {w : WaitOutcome}
    (hk : HelloKept (s, g) (.client c w)) (hst : s.clientStep c w = some s') :
    RequestInv (s', noteRequest s (.client c w) s' g) := by
  -- a client that does not wait for `connect_ack` has no request out
  have hout (hc : (s.client c).atAck = false) : ¬ ((g c).asked = true ∨ (g c).taken = true) := by
    intro hr
    rw [h.atAck c hr] at hc
    cases hc
  have stay {t : ClientThread} (hserver : s'.server = s.server)
      (hcl : s'.client = Function.update s.client c t) (hc : (s.client c).atAck = false)
      (hseg : s'.seg.clientState = s.seg.clientState ∨ AllRead (s, g))
      (hw : t.waiting = true → (s.client c).waiting = true ∧
        s'.seg.clientState = s.seg.clientState) : RequestInv (s', g) := by
    have := h.client_step (r := g c) hserver (hseg.imp_right .inr) hcl
      (fun hr => absurd hr (hout hc))
      (fun ht hr => (hw ht).2.trans (h.hello c (hw ht).1 hr)) fun ht => ⟨ht, rfl⟩
    rwa [Function.update_eq_self] at this
  unfold State.clientStep at hst
  cases hs : s.client c with
  | idle | connected => simp [hs] at hst
  | dropping pc =>
    have hc : (s.client c).atAck = false := by rw [hs]; rfl
    simp only [hs] at hst
    simp only [noteRequest, hs]
    cases pc with
    | storeClient =>
      cases hst
      exact stay rfl rfl hc (.inr (hk (by rw [hs]; rfl))) Bool.noConfusion
    | storeA | storeB | setDisconnect =>
      cases hst
      exact stay rfl rfl hc (.inl rfl) Bool.noConfusion
  | connecting pc =>
    simp only [hs] at hst
    simp only [noteRequest, hs]
    cases pc with
    | storeClient =>
      cases hst
      exact h.client_step rfl (.inr (.inl rfl)) rfl (fun hr => absurd hr Request.not_out)
        (fun _ _ => rfl) Bool.noConfusion
    | storeA | storeB =>
      cases hst
      exact stay rfl rfl (by rw [hs]; rfl) (.inl rfl) fun _ => ⟨by rw [hs]; rfl, rfl⟩
    | setReq =>
      cases hst
      exact h.client_step rfl (.inl rfl) rfl (fun _ => rfl)
        (fun _ hr => h.hello c (by rw [hs]; rfl) hr) fun ht => ⟨ht, rfl⟩
    | waitAck =>
      have leave {t : ClientThread} (hserver : s'.server = s.server)
          (hseg : s'.seg.clientState = s.seg.clientState)
          (hcl : s'.client = Function.update s.client c t) (ht : t.waiting = false) :
          RequestInv (s', Function.update g c {}) :=
        h.client_step hserver (.inl hseg) hcl (fun hr => absurd hr Request.not_out)
          (fun hw => absurd hw (by rw [ht]; decide)) Bool.noConfusion
      cases w with
      | signalled | timeout =>
        simp only [Connect.step, Connect.hellos, Bool.false_eq_true, ↓reduceIte] at hst
        split_ifs at hst <;> cases hst
        exact leave rfl rfl rfl rfl
      | failed e =>
        cases hst
        exact leave rfl rfl rfl rfl
    | resetClient e =>
      cases hst
      exact stay rfl rfl (by rw [hs]; rfl) (.inr (hk (by rw [hs]; rfl))) Bool.noConfusion
    | loadServer =>
      simp only [Connect.step, Connect.hellos, Bool.false_eq_true, ↓reduceIte] at hst
      split_ifs at hst <;> cases hst <;>
        exact stay rfl rfl (by rw [hs]; rfl) (.inl rfl) Bool.noConfusion
    | resetA | resetB | loadGeneration | storeGenA | storeGenB | readyA | readyB =>
      cases hst
      exact stay rfl rfl (by rw [hs]; rfl) (.inl rfl) Bool.noConfusion

/-- **A step that overwrites no unread `CLIENT_HELLO` keeps the invariant.** -/
theorem step {p p' : State ι × (ι → Request)} {l : Label ι} (h : RequestInv p)
    (hk : HelloKept p l) (h' : (requestSystem ι).step p l = some p') : RequestInv p' := by
  obtain ⟨s, g⟩ := p
  obtain ⟨s', g'⟩ := p'
  obtain ⟨hst, hg⟩ : s.step l = some s' ∧ g' = noteRequest s l s' g := System.withHistory_step.1 h'
  subst hg
  -- a client that calls or receives has no request out
  have stay {c : ι} {t : ClientThread} (hserver : s'.server = s.server)
      (hseg : s'.seg.clientState = s.seg.clientState)
      (hcl : s'.client = Function.update s.client c t) (hc : (s.client c).atAck = false)
      (ht : t.waiting = false) : RequestInv (s', g) := by
    have := h.client_step (r := g c) hserver (.inl hseg) hcl
      (fun hr => absurd (h.atAck c hr) (by rw [hc]; decide))
      (fun hw => absurd hw (by rw [ht]; decide)) fun hr => ⟨hr, rfl⟩
    rwa [Function.update_eq_self] at this
  cases l with
  | server w => exact h.serverStep hk hst
  | client c w => exact h.clientStep hk hst
  | callWait | send | markDisconnected | dropServer =>
    simp only [State.step] at hst
    split_ifs at hst with hs
    cases hst
    exact h.server_free (by simp [hs, ServerThread.answering]) (.inl rfl) rfl
  | callConnect c | dropClient c =>
    simp only [State.step] at hst
    split_ifs at hst with hs
    cases hst
    exact stay rfl rfl rfl (by rw [hs]; rfl) rfl
  | receive c =>
    simp only [State.step] at hst
    split at hst
    · cases hst
      exact ⟨h.atAck, h.hello, h.answering, h.reading⟩
    · cases hst

theorem of_reachWhen {p : State ι × (ι → Request)}
    (h : (requestSystem ι).ReachWhen HelloKept p) : RequestInv p := by
  refine h.invariant (I := RequestInv) ?_ fun _ _ _ hi hk hst => hi.step hk hst
  rintro ⟨s, g⟩ ⟨hs, hg⟩
  obtain rfl : s = {} := hs
  obtain rfl : g = fun _ => {} := hg
  exact .init

/-- The call that has consumed a request completes. -/
theorem acknowledges (h : RequestInv (s, g)) {c : ι} (hc : (g c).taken = true) :
    Acknowledges s := by
  have ha := h.answering c hc
  cases hs : s.server with
  | waiting pc =>
    rw [hs] at ha
    refine acknowledges_of_answering hs ha fun hr => ?_
    exact h.hello c (ClientThread.waiting_of_atAck (h.atAck c (.inr hc)))
      (h.reading c hc (by rw [hs]; exact hr))
  | _ =>
    rw [hs] at ha
    cases ha

end RequestInv

instance [Fintype ι] (p : State ι × (ι → Request)) : Decidable (AllRead p) :=
  inferInstanceAs (Decidable (∀ _, _ → _))

instance [Fintype ι] (p : State ι × (ι → Request)) (l : Label ι) : Decidable (HelloKept p l) :=
  match l with
  | .server _ => inferInstanceAs (Decidable (_ ∧ _))
  | .client _ _ => inferInstanceAs (Decidable (_ → _))
  | .callWait | .send _ | .markDisconnected | .dropServer | .callConnect _ | .receive _
  | .dropClient _ => isTrue trivial

end CleanStart

open CleanStart

/-- **No connect request is lost.**  If nobody overwrites a `CLIENT_HELLO` that the server has not
read, then a `wait_for_client` that has consumed the request of a waiting client completes its
handshake and signals `connect_ack`. -/
theorem acknowledged_of_helloKept {ι : Type*} [DecidableEq ι] {p : State ι × (ι → Request)}
    (h : (requestSystem ι).ReachWhen HelloKept p) {c : ι} (hc : (p.2 c).taken = true) :
    Acknowledges p.1 :=
  (RequestInv.of_reachWhen h).acknowledges hc

namespace CleanStart

/-- The client `false` has had a session and left, the server has torn it down, and consumes the
request of the client `true`. -/
def secondRequest : List (Label Bool) :=
  hello false ++ handshake ++ .server .signalled :: accept false ++
    .dropClient false :: List.replicate 4 (.client false .signalled) ++
    .markDisconnected :: List.replicate 4 (.server .signalled) ++
    hello true ++ [.callWait, .server .signalled]

/-- The client `false` has a session; the stores of its `Drop` come after the `CLIENT_HELLO` of the
client `true`, whose request the next `wait_for_client` consumes. -/
def lateDrop : List (Label Bool) :=
  hello false ++ handshake ++ .server .signalled :: accept false ++
    .dropClient false :: .callConnect true :: .client true .signalled ::
    List.replicate 4 (.client false .signalled) ++
    List.replicate 3 (.client true .signalled) ++
    .markDisconnected :: List.replicate 4 (.server .signalled) ++
    .callWait :: List.replicate 2 (.server .signalled)

end CleanStart

theorem acknowledged_of_helloKept_secondRequest :
    ∃ p : State Bool × (Bool → Request),
      ((p.2 true).taken = true ∧ p.1.hello true = 1) ∧ Acknowledges p.1 := by
  obtain ⟨p, h, hp⟩ := System.exists_reachWhen (A := requestSystem Bool) (C := HelloKept)
    (s := ({}, fun _ => {})) (r := secondRequest)
    (f := fun p => ((p.2 true).taken, p.1.hello true)) (t := (true, 1)) ⟨rfl, rfl⟩
    (by decide +kernel)
  simp only [Prod.mk.injEq] at hp
  exact ⟨p, hp, acknowledged_of_helloKept h hp.1⟩

/-- The `Drop` of an earlier client overwrites the `CLIENT_HELLO` of the next one; the call that
consumes its request has returned, and the server is not connected. -/
theorem not_acknowledged :
    ¬ ∀ (ι : Type) [DecidableEq ι] (p : State ι × (ι → Request)), (requestSystem ι).Reach p →
      ∀ c, (p.2 c).taken = true → Acknowledges p.1 := by
  intro h
  obtain ⟨p, hr, hp⟩ := System.exists_reachWhen (A := requestSystem Bool)
    (C := fun _ _ => True) (s := ({}, fun _ => {})) (r := lateDrop)
    (f := fun p => ((p.2 true).taken, p.1.server, p.1.client true, p.1.connected))
    (t := (true, .idle, .connecting .waitAck, false)) ⟨rfl, rfl⟩ (by decide +kernel)
  simp only [Prod.mk.injEq] at hp
  have hidle := (h Bool p hr true hp.1).1
  rw [hp.2.1] at hidle
  cases hidle

end Xshm
