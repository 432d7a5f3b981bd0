import Xshm.System.History
import Xshm.Multi.Moves

/-!
# Whether both sides know that a session is over

`disconnect_client` ends a session and sets the event `disconnect` for the client.  The other two
ends of a session, `handle_slot_disconnect` and `handle_orphaned_slot_disconnect`, set nothing, as
their client is supposed to be gone.  The worker waits for the same event, on handles that it has
collected before, and so do the clients that have held the slot.

`SignalKept` says what must not happen: a session opens with a signal left over, an orphaned slot
still has its client, a stale wait of the worker or a client whose own session is open consumes a
signal that another client needs, or a client signals in the session of another.  Then a client
whose session is over finds `disconnect` signalled as long as it is in its data loop, and the worker
never consumes a signal of `disconnect_client` (`sessionsAgree_of_signalKept`).  The sessions that
have ended are kept as a history.
-/

namespace Xshm

namespace Multi

variable {ι κ : Type*}

/-- The client is in its data loop. -/
def ClientPc.looping : ClientPc → Bool
  | .connected | .transfer | .setData | .waitAny => true
  | _ => false

theorem ClientPc.bound_of_looping {pc : ClientPc} (h : pc.looping = true) : pc.bound = true := by
  cases pc <;> first | rfl | cases h

/-- The history of a slot. -/
structure SlotEnds where
  /-- The sessions that the server has ended. -/
  ended : List SlotSession := []
  /-- `disconnect_client` has set `disconnect`, and no wait has consumed it since. -/
  informing : Bool := false
  /-- The worker has consumed such a signal. -/
  consumed : Bool := false

/-- The step sets `disconnect` of slot `k` for its client. -/
def State.informs (s : State ι κ) (k : ℕ) : Label ι κ → Bool
  | .app a w =>
    match s.app a with
    | .setEvent j _ => j = k && !w.isFailed
    | _ => false
  | _ => false

def Label.isWorker : Label ι κ → Bool
  | .worker _ => true
  | _ => false

/-- The history of the slots. -/
def noteEnd (s : State ι κ) (l : Label ι κ) (s' : State ι κ) (g : ℕ → SlotEnds) (k : ℕ) :
    SlotEnds where
  ended := if (s.slot k).connected = true ∧ (s'.slot k).connected = false then
      (g k).ended ++ [(s.slot k).session]
    else (g k).ended
  informing := s.informs k l || (g k).informing && (s'.slot k).seg.disconnect
  consumed := (g k).consumed || l.isWorker && (g k).informing && !(s'.slot k).seg.disconnect

/-- A server with its slots and clients, with the sessions that have ended. -/
def endSystem {ι : Type*} (κ : Type*) [DecidableEq ι] [DecidableEq κ] (cfg : Config ι) :
    System (State ι κ × (ℕ → SlotEnds)) (Label ι κ) :=
  (Multi.system κ cfg).withHistory (fun _ => {}) noteEnd

/-- The client of the session `e` of slot `k`, which the server has ended, is alive and still in its
data loop; if the session was ended by `disconnect_client`, that call has come past its `set`. -/
structure Stranded (cfg : Config ι) (p : State ι κ × (ℕ → SlotEnds)) (k : ℕ) (e : SlotSession)
    (c : ι) : Prop where
  ended : e ∈ (p.2 k).ended
  slotId : (p.1.client c).slotId = k
  token : (p.1.client c).token = e.token
  looping : (p.1.client c).pc.looping = true
  alive : cfg.pid c ∉ p.1.exited
  finished : ∀ a, p.1.app a ≠ .setEvent k e

/-- A client whose session is over finds `disconnect` signalled, and leaves its loop at the next
`wait_any`; the worker has not consumed a signal that was meant for a client. -/
structure SessionsAgree [DecidableEq ι] [DecidableEq κ] (cfg : Config ι)
    (p : State ι κ × (ℕ → SlotEnds)) : Prop where
  informed : ∀ k e c, Stranded cfg p k e c → (p.1.slot k).seg.disconnect = true
  leaves : ∀ k e c o s', Stranded cfg p k e c → (p.1.client c).pc = .waitAny →
    p.1.step cfg (.client c o) = some s' → (s'.client c).pc = .dropping .storeClient
  kept : ∀ k, (p.2 k).consumed = false

/-- The thread is about to set `disconnect`. -/
def App.setting : App → Bool
  | .setEvent .. => true
  | _ => false

/-- The slot whose event `disconnect` has been signalled. -/
def EventSource.disconnects : EventSource → Option ℕ
  | .slotDisconnect k => some k
  | _ => none

/-- A step of the worker leaves no client without a signal. -/
def State.WorkerKeeps (cfg : Config ι) (s : State ι κ) (g : ℕ → SlotEnds) (w : WaitOutcome) :
    Worker → Prop
  | .handshaken k true => (s.slot k).seg.disconnect = true →
      (g k).informing = false ∧ (s.slot k).disconnectBy = (s.slot k).answered
  | .waitAny handles => w = .signalled →
      ∀ k ∈ (handles.find? s.signalled).bind EventSource.disconnects, (s.slot k).connected = true
  | .orphanCas k expected _ => (s.slot k).claim = expected → ∀ c, cfg.pid c ∉ s.exited →
      (s.client c).Bound k → (s.client c).token ≠ (s.slot k).session.token
  | _ => True

/-- A session opens only if `disconnect` is not signalled, or has been by its own client alone; the
worker consumes `disconnect` only while the slot is connected; an orphaned slot has no client that
is alive and bound to it.  The `set` of `disconnect_client` succeeds.  A client signals only while
the slot is not connected or in its session, and consumes `disconnect` only if no other client is
left over from a session that has ended. -/
def SignalKept (cfg : Config ι) (p : State ι κ × (ℕ → SlotEnds)) : Label ι κ → Prop
  | .worker w => p.1.WorkerKeeps cfg p.2 w p.1.worker
  | .app a w => (p.1.app a).setting = true → w.isFailed = false
  | .client c o =>
    ((p.1.client c).pc = .dropping .setDisconnect →
      (p.1.slot (p.1.client c).slotId).connected = true →
        (p.1.slot (p.1.client c).slotId).session.token = (p.1.client c).token) ∧
    ((p.1.client c).pc = .waitAny → o = .any .disconnect → ∀ d, d ≠ c → cfg.pid d ∉ p.1.exited →
      (p.1.client d).Bound (p.1.client c).slotId →
        ∀ e ∈ (p.2 (p.1.client c).slotId).ended, (p.1.client d).token ≠ e.token)
  | _ => True

/-! ### The invariant -/

/-- No client has the token any more without having stored `CLIENT_HELLO` with it. -/
def State.Spoken (s : State ι κ) (t : UInt32) : Prop :=
  t = claimFree ∨ t ∈ s.used ∧ ∀ c, (s.client c).pc.silent = true → (s.client c).token ≠ t

/-- The tokens that have been heard of in a slot. -/
def SlotView.heard (v : SlotView) (g : SlotEnds) : List UInt32 :=
  v.hello :: v.answered.token :: v.session.token :: v.disconnectBy.token ::
    g.ended.map SlotSession.token

/-- What the invariant says of slot `k`. -/
structure SlotAgrees (cfg : Config ι) (s : State ι κ) (k : ℕ) (g : SlotEnds) : Prop where
  informing : g.informing = true → (s.slot k).view.signalled = true
  /-- Clients on their way into the loop count as well. -/
  informed : ∀ e ∈ g.ended, ∀ c, (s.client c).Bound k → (s.client c).token = e.token →
    cfg.pid c ∉ s.exited → (∀ a, s.app a ≠ .setEvent k e) → g.informing = true
  /-- A signal during a session comes from its client. -/
  own : (s.slot k).view.connected = true → (s.slot k).view.signalled = true →
    g.informing = false ∧
      ∀ c, (s.client c).Bound k → (s.client c).token ≠ (s.slot k).view.session.token
  draining : ∀ e, s.worker = .slotDisconnect k e → (s.slot k).view.connected = true →
    ∀ c, (s.client c).Bound k → (s.client c).token ≠ (s.slot k).view.session.token
  /-- A client that has signalled has left. -/
  signal : (s.slot k).view.signalled = true → g.informing = false →
    ∀ c, (s.client c).Bound k → (s.client c).token ≠ (s.slot k).view.disconnectBy.token
  heard : ∀ t ∈ (s.slot k).view.heard g, s.Spoken t
  setting : ∀ a e, s.app a = .setEvent k e → e ∈ g.ended
  kept : g.consumed = false

/-- The clients that have a token. -/
def Named (s : State ι κ) : Prop :=
  ∀ c, (s.client c).pc.silent = true ∨ (s.client c).pc.bound = true →
    (s.client c).token ≠ claimFree

structure EndInv (cfg : Config ι) (p : State ι κ × (ℕ → SlotEnds)) : Prop where
  lock : LockInv p.1
  token : TokenInv p.1
  named : Named p.1
  slot : ∀ k, SlotAgrees cfg p.1 k (p.2 k)

section Notes

variable {cfg : Config ι} {s s' : State ι κ} {l : Label ι κ} {g : ℕ → SlotEnds} {k : ℕ}

theorem noteEnd_ended : (noteEnd s l s' g k).ended =
    if (s.slot k).view.connected = true ∧ (s'.slot k).view.connected = false then
      (g k).ended ++ [(s.slot k).view.session]
    else (g k).ended := rfl

theorem noteEnd_informing : (noteEnd s l s' g k).informing =
    (s.informs k l || (g k).informing && (s'.slot k).view.signalled) := rfl

theorem noteEnd_consumed : (noteEnd s l s' g k).consumed =
    ((g k).consumed || l.isWorker && (g k).informing && !(s'.slot k).view.signalled) := rfl

theorem informs_of_setEvent {a : κ} {w : WaitOutcome} {e : SlotSession}
    (ha : s.app a = .setEvent k e) (hw : w.isFailed = false) :
    s.informs k (.app a w : Label ι κ) = true := by
  simp [State.informs, ha, hw]

/-- `disconnect_client` signals only after the session has ended. -/
theorem informs_eq_false (h : LockInv s) (hc : (s.slot k).connected = true) :
    s.informs k l = false := by
  rw [Bool.eq_false_iff]
  intro hi
  cases l <;> simp only [State.informs] at hi
  case app a w =>
    split at hi
    · rename_i j e hs
      simp only [Bool.and_eq_true, decide_eq_true_eq] at hi
      obtain ⟨rfl, -⟩ := hi
      have := h.disconnecting a j (by rw [hs]; rfl)
      rw [hc] at this
      cases this
    · cases hi
  all_goals cases hi

/-- A client that is about to store `CLIENT_HELLO` has not been heard of. -/
theorem SlotAgrees.token_ne_of_silent (h : SlotAgrees cfg s k (g k)) (hn : Named s) {t : UInt32}
    (ht : t ∈ (s.slot k).view.heard (g k)) {c : ι} (hc : (s.client c).pc.silent = true) :
    (s.client c).token ≠ t := by
  rcases h.heard t ht with rfl | ⟨-, hs⟩
  · exact hn c (.inl hc)
  · exact hs c hc

/-- The worker does not consume the signal of `disconnect_client`. -/
theorem SlotAgrees.not_taken (h : SlotAgrees cfg s k (g k)) {handles : List EventSource}
    (hk : SignalKept cfg (s, g) (.worker .signalled)) (hw : s.worker = .waitAny handles)
    (he : handles.find? s.signalled = some (.slotDisconnect k)) (hi : (g k).informing = true) :
    False := by
  simp only [SignalKept, State.WorkerKeeps, hw, he] at hk
  have hcon := hk trivial k (Option.mem_some_self k)
  rw [(h.own hcon (h.informing hi)).1] at hi
  cases hi

end Notes

section Steps

variable [DecidableEq ι] [DecidableEq κ] {cfg : Config ι} {s s' : State ι κ} {l : Label ι κ}
  {g : ℕ → SlotEnds} {k : ℕ}

theorem Named.step (h : Named s) (hst : s.step cfg l = some s') : Named s' := by
  intro c hc
  have hm := step_clientMoves hst c
  rcases hc with hc | hc
  · rcases hm.silent hc with ⟨ht, hs⟩ | ⟨ht, -⟩
    · rw [ht]
      exact h c (.inl hs)
    · exact ht
  · obtain ⟨ht, hb | ⟨hb, -⟩⟩ := hm.bound _ ⟨rfl, hc⟩
    · rw [ht]
      exact h c (.inr hb.2)
    · rw [ht]
      exact h c (.inl (by rw [hb]; rfl))

/-- A token that has been heard of stays so. -/
theorem State.Spoken.step {t : UInt32} (h : s.Spoken t) (hst : s.step cfg l = some s') :
    s'.Spoken t := by
  rcases h with h | ⟨hu, hc⟩
  · exact .inl h
  refine .inr ⟨(step_exited_used hst).2 hu, fun c hs htok => ?_⟩
  rcases (step_clientMoves hst c).silent hs with ⟨ht, hs⟩ | ⟨-, hnew⟩
  · exact hc c hs (ht ▸ htok)
  · exact hnew (htok ▸ hu)

/-- `disconnect_client` signals. -/
theorem step_informs (h : s.informs k l = true) (hst : s.step cfg l = some s') :
    (s'.slot k).view.signalled = true := by
  cases l <;> simp only [State.informs] at h
  case app a w =>
    split at h
    · rename_i j e hs
      simp only [Bool.and_eq_true, decide_eq_true_eq, Bool.not_eq_true'] at h
      obtain ⟨rfl, hw⟩ := h
      simp only [State.step, State.appStep, hs] at hst
      cases w with
      | failed => cases hw
      | _ =>
        cases hst
        change ((s.setSlot j _).slot j).view.signalled = true
        rw [State.setSlot_slot_self]
        rfl
    · cases h
  all_goals cases h

namespace SlotAgrees

/-- If no client with a token that has been heard of is bound to the slot, none is after a step. -/
theorem avoid (h : SlotAgrees cfg s k (g k)) (hn : Named s) (hst : s.step cfg l = some s')
    {t : UInt32} (ht : t ∈ (s.slot k).view.heard (g k))
    (hb : ∀ c, (s.client c).Bound k → (s.client c).token ≠ t) (c : ι)
    (hc : (s'.client c).Bound k) : (s'.client c).token ≠ t := by
  obtain ⟨htok, hc | ⟨hc, -⟩⟩ := (step_clientMoves hst c).bound k hc
  · rw [htok]
    exact hb c hc
  · rw [htok]
    exact h.token_ne_of_silent hn ht (by rw [hc]; rfl)

/-- The client of an open session is not bound to the slot any more once its signal is out. -/
theorem own_step (h : SlotAgrees cfg s k (g k)) (hl : LockInv s) (ht : TokenInv s) (hn : Named s)
    (hk : SignalKept cfg (s, g) l) (hst : s.step cfg l = some s')
    (hcon : (s'.slot k).view.connected = true) (hsig : (s'.slot k).view.signalled = true) :
    (noteEnd s l s' g k).informing = false ∧ ∀ c, (s'.client c).Bound k →
      (s'.client c).token ≠ (s'.slot k).view.session.token := by
  have havoid {t : UInt32} := h.avoid (t := t) hn hst
  have hsession : (s.slot k).view.session.token ∈ (s.slot k).view.heard (g k) := by
    simp [SlotView.heard]
  have hm := step_slotMove hst k
  rw [noteEnd_informing]
  generalize (s'.slot k).view = v at hm hcon hsig ⊢
  cases hm with
  | quiet =>
    obtain ⟨hi, hb⟩ := h.own hcon hsig
    rw [informs_eq_false hl hcon, hi]
    exact ⟨rfl, havoid hsession hb⟩
  | answers =>
    obtain ⟨hi, hb⟩ := h.own hcon hsig
    rw [hi]
    exact ⟨rfl, havoid hsession hb⟩
  | hellos =>
    obtain ⟨hi, hb⟩ := h.own hcon hsig
    rw [hi]
    exact ⟨rfl, havoid hsession hb⟩
  | opens hw =>
    simp only [SignalKept, State.WorkerKeeps, hw] at hk
    obtain ⟨hi, hby⟩ := hk hsig
    rw [hi]
    refine ⟨rfl, havoid (by simp [SlotView.heard, Slot.view]) fun c hc => ?_⟩
    have := h.signal hsig hi c hc
    rwa [show (s.slot k).view.disconnectBy = (s.slot k).answered from hby] at this
  | ends => cases hcon
  | informs ha =>
    have := hl.disconnecting _ k (by rw [ha]; rfl)
    rw [show (s.slot k).connected = true from hcon] at this
    cases this
  | taken => cases hsig
  | takenBy => cases hsig
  | @leaves c _ _ hpc hid =>
    have hi : (g k).informing = false := by
      by_contra hi
      rw [Bool.not_eq_false] at hi
      rw [(h.own hcon (h.informing hi)).1] at hi
      cases hi
    rw [hi]
    refine ⟨rfl, havoid hsession fun d hd htok => ?_⟩
    have hown := hk.1 hpc (by rw [hid]; exact hcon)
    rw [hid] at hown
    have hdc := ht.token_inj d c (htok.trans hown) (hn d (.inr hd.2))
    rw [hdc, Client.Bound, hpc] at hd
    cases hd.2

theorem informing_step (hst : s.step cfg l = some s')
    (hi : (noteEnd s l s' g k).informing = true) : (s'.slot k).view.signalled = true := by
  rw [noteEnd_informing, Bool.or_eq_true, Bool.and_eq_true] at hi
  rcases hi with hi | ⟨-, hi⟩
  · exact step_informs hi hst
  · exact hi

/-- A signal stays until the client that needs it has consumed it. -/
theorem signalled_step (h : SlotAgrees cfg s k (g k)) (hk : SignalKept cfg (s, g) l)
    (hst : s.step cfg l = some s') (hi : (g k).informing = true) {e : SlotSession}
    (he : e ∈ (g k).ended) {c : ι} (hc : (s.client c).Bound k) (hc' : (s'.client c).Bound k)
    (htok : (s.client c).token = e.token) (hal : cfg.pid c ∉ s.exited) :
    (s'.slot k).view.signalled = true := by
  have hsig := h.informing hi
  have hm := step_slotMove hst k
  generalize (s'.slot k).view = v at hm ⊢
  cases hm with
  | quiet => exact hsig
  | answers => exact hsig
  | opens => exact hsig
  | ends => exact hsig
  | hellos => exact hsig
  | informs => rfl
  | leaves => rfl
  | taken hw hfind => exact (h.not_taken hk hw hfind hi).elim
  | @takenBy d hpc hid hnot =>
    have hne : c ≠ d := by
      rintro rfl
      rw [Client.Bound, hnot] at hc'
      cases hc'.2
    have := hk.2 hpc rfl c hne hal
    rw [hid] at this
    exact absurd htok (this hc e he)

theorem informed_step (h : SlotAgrees cfg s k (g k)) (hn : Named s) (hk : SignalKept cfg (s, g) l)
    (hst : s.step cfg l = some s') {e : SlotSession} (he : e ∈ (noteEnd s l s' g k).ended) {c : ι}
    (hc : (s'.client c).Bound k) (htok : (s'.client c).token = e.token)
    (hal : cfg.pid c ∉ s'.exited) (hset : ∀ a, s'.app a ≠ .setEvent k e) :
    (noteEnd s l s' g k).informing = true := by
  have hal : cfg.pid c ∉ s.exited := fun hm => hal ((step_exited_used hst).1 hm)
  have hheard : e.token ∈ (s.slot k).view.heard (g k) := by
    rw [noteEnd_ended] at he
    split_ifs at he
    · rcases List.mem_append.1 he with he | he
      · simp only [SlotView.heard, List.mem_cons]
        exact .inr (.inr (.inr (.inr (List.mem_map_of_mem he))))
      · rw [List.mem_singleton.1 he]
        simp [SlotView.heard]
    · simp only [SlotView.heard, List.mem_cons]
      exact .inr (.inr (.inr (.inr (List.mem_map_of_mem he))))
  obtain ⟨hsame, hb | ⟨hs, -⟩⟩ := (step_clientMoves hst c).bound k hc
  swap
  · exact absurd (hsame ▸ htok) (h.token_ne_of_silent hn hheard (by rw [hs]; rfl))
  rw [hsame] at htok
  rw [noteEnd_ended] at he
  rw [noteEnd_informing, Bool.or_eq_true, Bool.and_eq_true]
  -- a session that ended before
  have old (he : e ∈ (g k).ended) : s.informs k l = true ∨
      (g k).informing = true ∧ (s'.slot k).view.signalled = true := by
    by_cases hs : ∃ a, s.app a = .setEvent k e
    · obtain ⟨a, ha⟩ := hs
      rcases (step_threadsMove hst k).leaving a e ha with ha' | ⟨w, rfl⟩
      · exact absurd ha' (hset a)
      · exact .inl (informs_of_setEvent ha (hk (by rw [ha]; rfl)))
    · have hi := h.informed e he c hb htok hal fun a ha => hs ⟨a, ha⟩
      exact .inr ⟨hi, h.signalled_step hk hst hi he hb hc htok hal⟩
  split_ifs at he with hend
  · rcases List.mem_append.1 he with he | he
    · exact old he
    · -- the session that this step ends
      rw [List.mem_singleton] at he
      subst he
      obtain ⟨hcon, hcon'⟩ := hend
      have hm := step_slotMove hst k
      generalize (s'.slot k).view = v at hm hcon'
      cases hm with
      | ends _ hend =>
        cases hend with
        | disconnectClient _ ha => exact absurd ha (hset _)
        | slotDisconnect hw => exact absurd htok (h.draining _ hw hcon c hb)
        | orphaned hw hcl =>
          simp only [SignalKept, State.WorkerKeeps, hw] at hk
          exact absurd htok (hk hcl c hal hb)
      | opens => cases hcon'
      | _ => cases hcon.symm.trans hcon'
  · exact old he

theorem draining_step (h : SlotAgrees cfg s k (g k)) (hn : Named s) (hst : s.step cfg l = some s')
    {e : SlotSession} (hw : s'.worker = .slotDisconnect k e)
    (hcon : (s'.slot k).view.connected = true) (c : ι) (hc : (s'.client c).Bound k) :
    (s'.client c).token ≠ (s'.slot k).view.session.token := by
  have hwork := (step_threadsMove hst k).draining e hw
  have hm := step_slotMove hst k
  generalize (s'.slot k).view = v at hm hcon ⊢
  have hsame : v.connected = (s.slot k).view.connected ∧ v.session = (s.slot k).view.session := by
    cases hm with
    | opens hop =>
      rcases hwork with hwork | ⟨⟨_, hwork⟩, -⟩ <;> cases hop.symm.trans hwork
    | ends => cases hcon
    | _ => exact ⟨rfl, rfl⟩
  rw [hsame.2]
  refine h.avoid hn hst (by simp [SlotView.heard]) (fun d hd => ?_) c hc
  rw [hsame.1] at hcon
  rcases hwork with hwork | ⟨-, hsig⟩
  · exact h.draining e hwork hcon d hd
  · exact (h.own hcon hsig).2 d hd

theorem signal_step (h : SlotAgrees cfg s k (g k)) (ht : TokenInv s) (hn : Named s)
    (hst : s.step cfg l = some s') (hsig : (s'.slot k).view.signalled = true)
    (hi : (noteEnd s l s' g k).informing = false) (c : ι) (hc : (s'.client c).Bound k) :
    (s'.client c).token ≠ (s'.slot k).view.disconnectBy.token := by
  rw [noteEnd_informing, hsig, Bool.and_true, Bool.or_eq_false_iff] at hi
  obtain ⟨hl, hi⟩ := hi
  have hby : (s.slot k).view.disconnectBy.token ∈ (s.slot k).view.heard (g k) := by
    simp [SlotView.heard]
  have hm := step_slotMove hst k
  generalize (s'.slot k).view = v at hm hsig ⊢
  cases hm with
  | informs ha hw =>
    rw [informs_of_setEvent ha hw] at hl
    cases hl
  | taken => cases hsig
  | takenBy => cases hsig
  | @leaves d _ _ hpc =>
    intro htok
    obtain ⟨hsame, hb⟩ := (step_clientMoves hst c).bound k hc
    have hcd : c = d := by
      refine ht.token_inj c d (hsame ▸ htok) (hn c ?_)
      exact hb.elim (fun hb => .inr hb.2) fun hb => .inl (by rw [hb.1]; rfl)
    subst hcd
    rw [Client.Bound, hpc] at hb
    rcases hb with ⟨-, hb⟩ | ⟨hb, -⟩ <;> cases hb
  | _ => exact h.avoid hn hst hby (h.signal hsig hi) c hc

/-- A client that speaks for the first time, or leaves. -/
theorem spoken_step (ht : TokenInv s) (hn : Named s) (hst : s.step cfg l = some s') {c : ι}
    (hc : (s.client c).pc.silent = false ∨ (s'.client c).pc.silent = false) :
    s'.Spoken (s.client c).token := by
  refine (ht.token_used c).imp_right fun hu => ⟨(step_exited_used hst).2 hu, fun d hd htok => ?_⟩
  rcases (step_clientMoves hst d).silent hd with ⟨hsame, hs⟩ | ⟨-, hnew⟩
  · rw [hsame] at htok
    have hdc := ht.token_inj d c htok (hn d (.inl hs))
    subst hdc
    rcases hc with hc | hc
    · rw [hs] at hc
      cases hc
    · rw [hd] at hc
      cases hc
  · exact hnew (htok ▸ hu)

theorem heard_step (h : SlotAgrees cfg s k (g k)) (ht : TokenInv s) (hn : Named s)
    (hst : s.step cfg l = some s') {t : UInt32}
    (hm : t ∈ (s'.slot k).view.heard (noteEnd s l s' g k)) : s'.Spoken t := by
  have hsp {t : UInt32} (ht : t ∈ (s.slot k).view.heard (g k)) : s'.Spoken t :=
    (h.heard t ht).step hst
  simp only [SlotView.heard, List.mem_cons] at hm hsp
  have hmove := step_slotMove hst k
  have hended (ht : t ∈ (noteEnd s l s' g k).ended.map SlotSession.token) : s'.Spoken t := by
    rw [noteEnd_ended] at ht
    split_ifs at ht
    · rw [List.map_append, List.mem_append] at ht
      rcases ht with ht | ht
      · exact hsp (.inr (.inr (.inr (.inr ht))))
      · rw [List.map_singleton, List.mem_singleton] at ht
        exact hsp (.inr (.inr (.inl ht)))
    · exact hsp (.inr (.inr (.inr (.inr ht))))
  generalize (s'.slot k).view = v at hm hmove
  rcases hm with rfl | rfl | rfl | rfl | hm
  · cases hmove with
    | hellos _ _ hs => exact spoken_step ht hn hst (.inr hs)
    | _ => exact hsp (.inl rfl)
  · cases hmove with
    | answers he =>
      dsimp only
      rw [he]
      exact hsp (.inl rfl)
    | _ => exact hsp (.inr (.inl rfl))
  · cases hmove with
    | opens => exact hsp (.inr (.inl rfl))
    | _ => exact hsp (.inr (.inr (.inl rfl)))
  · cases hmove with
    | informs ha => exact hsp (.inr (.inr (.inr (.inr (List.mem_map_of_mem (h.setting _ _ ha))))))
    | leaves hpc => exact spoken_step ht hn hst (.inl (by rw [hpc]; rfl))
    | _ => exact hsp (.inr (.inr (.inr (.inl rfl))))
  · exact hended hm

theorem setting_step (h : SlotAgrees cfg s k (g k)) (hst : s.step cfg l = some s') {a : κ}
    {e : SlotSession} (ha : s'.app a = .setEvent k e) : e ∈ (noteEnd s l s' g k).ended := by
  rw [noteEnd_ended]
  rcases (step_threadsMove hst k).entering a e ha with ha | ⟨hc, hc', rfl⟩
  · have := h.setting a e ha
    split_ifs
    · exact List.mem_append_left _ this
    · exact this
  · rw [if_pos ⟨hc, hc'⟩]
    exact List.mem_append_right _ (List.mem_singleton_self _)

theorem kept_step (h : SlotAgrees cfg s k (g k)) (hk : SignalKept cfg (s, g) l)
    (hst : s.step cfg l = some s') : (noteEnd s l s' g k).consumed = false := by
  rw [noteEnd_consumed, h.kept, Bool.false_or]
  by_contra hne
  simp only [Bool.not_eq_false, Bool.and_eq_true, Bool.not_eq_true'] at hne
  obtain ⟨⟨hl, hi⟩, hsig⟩ := hne
  have hold := h.informing hi
  have hm := step_slotMove hst k
  generalize (s'.slot k).view = v at hm hsig
  cases hm with
  | taken hw hfind => exact h.not_taken hk hw hfind hi
  | takenBy => cases hl
  | informs => cases hsig
  | leaves => cases hsig
  | _ => cases hold.symm.trans hsig

theorem step (h : SlotAgrees cfg s k (g k)) (hl : LockInv s) (ht : TokenInv s) (hn : Named s)
    (hk : SignalKept cfg (s, g) l) (hst : s.step cfg l = some s') :
    SlotAgrees cfg s' k (noteEnd s l s' g k) where
  informing := informing_step hst
  informed _ he _ := h.informed_step hn hk hst he
  own := h.own_step hl ht hn hk hst
  draining _ := h.draining_step hn hst
  signal := h.signal_step ht hn hst
  heard _ := h.heard_step ht hn hst
  setting _ _ := h.setting_step hst
  kept := h.kept_step hk hst

end SlotAgrees

theorem EndInv.step (h : EndInv cfg (s, g)) (hk : SignalKept cfg (s, g) l)
    (hst : s.step cfg l = some s') : EndInv cfg (s', noteEnd s l s' g) where
  lock := h.lock.step hst
  token := h.token.step hst
  named := h.named.step hst
  slot k := (h.slot k).step h.lock h.token h.named hk hst

omit [DecidableEq ι] [DecidableEq κ] in
theorem EndInv.init : EndInv cfg (({} : State ι κ), fun _ => {}) where
  lock := .init
  token := .init
  named := by
    intro c hc
    rcases hc with hc | hc <;> cases hc
  slot k :=
    { informing := by rintro ⟨⟩
      informed := by rintro _ ⟨⟩
      own := by rintro ⟨⟩
      draining := by rintro _ ⟨⟩
      signal := by rintro ⟨⟩
      heard := fun t ht => .inl (by simpa [SlotView.heard, Slot.view] using ht)
      setting := by rintro _ _ ⟨⟩
      kept := rfl }

/-- A client that finds `disconnect` signalled leaves its loop. -/
theorem dropping_of_signalled {c : ι} {o : Outcome} (hpc : (s.client c).pc = .waitAny)
    (hsig : (s.slot (s.client c).slotId).seg.disconnect = true)
    (hst : s.step cfg (.client c o) = some s') :
    (s'.client c).pc = .dropping .storeClient := by
  rw [State.step] at hst
  split_ifs at hst
  simp only [State.clientStep, hpc] at hst
  cases o with
  | any r =>
    cases r <;> simp only [hsig, if_true, reduceCtorEq] at hst <;> cases hst <;>
      simp [State.setClient]
  | _ => cases hst

theorem EndInv.sessionsAgree {p : State ι κ × (ℕ → SlotEnds)} (h : EndInv cfg p) :
    SessionsAgree cfg p := by
  have informed (k : ℕ) (e : SlotSession) (c : ι) (hs : Stranded cfg p k e c) :
      (p.1.slot k).seg.disconnect = true := by
    have hb : (p.1.client c).Bound k := ⟨hs.slotId, ClientPc.bound_of_looping hs.looping⟩
    exact (h.slot k).informing ((h.slot k).informed e hs.ended c hb hs.token hs.alive hs.finished)
  refine ⟨informed, fun k e c o s' hs hpc hst => ?_, fun k => (h.slot k).kept⟩
  have hsig := informed k e c hs
  rw [← hs.slotId] at hsig
  exact dropping_of_signalled hpc hsig hst

end Steps

/-! ### Every run -/

/-- **Both sides know that a session is over.**  If no signal of `disconnect` is left over, taken by
another or missing, then a client whose session is over finds `disconnect` signalled, and the worker
never consumes a signal that was meant for a client. -/
theorem sessionsAgree_of_signalKept [DecidableEq ι] [DecidableEq κ] {cfg : Config ι}
    {p : State ι κ × (ℕ → SlotEnds)} (h : (endSystem κ cfg).ReachWhen (SignalKept cfg) p) :
    SessionsAgree cfg p := by
  refine (h.invariant (I := EndInv cfg) ?_ ?_).sessionsAgree
  · rintro ⟨s, g⟩ ⟨rfl, rfl⟩
    exact .init
  · rintro ⟨s, g⟩ l ⟨s', g'⟩ hi hk hst
    obtain ⟨hs, hg⟩ := System.withHistory_step.1 hst
    dsimp only at hs hg
    subst hg
    exact hi.step hk hs

instance (cl : Client) (k : ℕ) : Decidable (cl.Bound k) := inferInstanceAs (Decidable (_ ∧ _))

instance [Fintype ι] (cfg : Config ι) (s : State ι κ) (g : ℕ → SlotEnds) (w : WaitOutcome) :
    DecidablePred (s.WorkerKeeps cfg g w)
  | .handshaken _ true => inferInstanceAs (Decidable (_ → _ ∧ _))
  | .waitAny handles => inferInstanceAs (Decidable (_ →
      ∀ k ∈ (handles.find? s.signalled).bind EventSource.disconnects, _))
  | .orphanCas .. => inferInstanceAs (Decidable (_ → ∀ _ : ι, _ → _ → _))
  | .head | .reclaim .. | .claimLoaded .. | .loadOwner .. | .checkAlive .. | .orphans _
  | .orphanMark .. | .orphanCall .. | .collect .. | .slotConnect _ | .handshake ..
  | .handshaken _ false | .callConnect _ | .poll .. | .receive _ | .receiving ..
  | .callMessages .. | .slotDisconnect .. | .marking .. | .release .. | .callDisconnect _
  | .ended => isTrue trivial

instance [Fintype ι] [DecidableEq ι] (cfg : Config ι) (p : State ι κ × (ℕ → SlotEnds)) :
    DecidablePred (SignalKept cfg p)
  | .worker w => inferInstanceAs (Decidable (p.1.WorkerKeeps cfg p.2 w p.1.worker))
  | .app .. => inferInstanceAs (Decidable (_ → _))
  | .client .. => inferInstanceAs (Decidable ((_ → _ → _) ∧ (_ → _ → ∀ _ : ι, _ → _ → _ →
      ∀ _ ∈ (p.2 _).ended, _)))
  | .stop | .tick _ | .exit _ | .alive _ | .disconnectClient .. | .sendTo .. | .shutdown _ =>
    isTrue trivial

/-- A client connects, and `disconnect_client` ends its session. -/
def toldToLeave : List (Label Unit Unit) :=
  openSession () 5 ++ .disconnectClient () 0 :: List.replicate 7 (.app () .signalled)

theorem sessionsAgree_of_signalKept_toldToLeave :
    ∃ p : State Unit Unit × (ℕ → SlotEnds), Stranded (oneSlot Unit) p 0 ⟨1, 5⟩ () ∧
      SessionsAgree (oneSlot Unit) p := by
  obtain ⟨p, h, hp⟩ := System.exists_reachWhen (A := endSystem Unit (oneSlot Unit))
    (C := SignalKept (oneSlot Unit)) (s := ({}, fun _ => {})) (r := toldToLeave)
    (f := fun p => ((p.2 0).ended, p.1.client (), p.1.exited, p.1.app ()))
    (t := ([⟨1, 5⟩], { pc := .connected, token := 5 }, ∅, .idle)) ⟨rfl, rfl⟩ (by decide +kernel)
  simp only [Prod.mk.injEq] at hp
  obtain ⟨hend, hcl, hex, happ⟩ := hp
  refine ⟨p, ?_, sessionsAgree_of_signalKept h⟩
  constructor <;> simp [hend, hcl, hex, happ, ClientPc.looping]

/-- The worker waits while the client is connected; `disconnect_client` ends the session, and the
wait of the worker consumes the signal. -/
def stolen : List (Label Unit Unit) :=
  openSession () 5 ++ connectedPass ++ .disconnectClient () 0 ::
    List.replicate 7 (.app () .signalled) ++ work 7

/-- The client stays in its loop, and no call is in progress any more. -/
theorem not_sessionsAgree : ¬ ∀ (ι κ : Type) [DecidableEq ι] [DecidableEq κ] (cfg : Config ι)
    (p : State ι κ × (ℕ → SlotEnds)), (endSystem κ cfg).Reach p → p.1.worker = .head →
      (∀ a, p.1.app a = .idle) → SessionsAgree cfg p := by
  intro h
  obtain ⟨p, hr, hp⟩ := System.exists_reachWhen (A := endSystem Unit (oneSlot Unit))
    (C := fun _ _ => True) (s := ({}, fun _ => {})) (r := stolen)
    (f := fun p => ((p.2 0).ended, p.1.client (), p.1.exited, decide (p.1.app () = .idle),
      decide (p.1.worker = .head), (p.1.slot 0).seg.disconnect))
    (t := ([⟨1, 5⟩], { pc := .connected, token := 5 }, ∅, true, true, false)) ⟨rfl, rfl⟩
    (by decide +kernel)
  simp only [Prod.mk.injEq, decide_eq_true_eq] at hp
  obtain ⟨hend, hcl, hex, happ, hw, hsig⟩ := hp
  have hs : Stranded (oneSlot Unit) p 0 ⟨1, 5⟩ () := by
    constructor <;> simp [hend, hcl, hex, happ, ClientPc.looping]
  have := (h Unit Unit _ p hr hw fun _ => happ).informed 0 _ _ hs
  rw [hsig] at this
  cases this

end Multi

end Xshm
