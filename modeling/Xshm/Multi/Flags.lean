import Xshm.Multi.Locks

/-!
# The three flags of a slot

That a slot has a client is kept in three places: in `slot.connected`, in the field `connected` of
its `SharedServer`, and in the shared word `server_state`.  `handle_slot_connect`,
`handle_slot_disconnect`, `handle_orphaned_slot_disconnect` and `disconnect_client` change them one
after another, each under the mutex of the slot, and some return early.

Whenever the mutex is free, the first two agree, and a connected slot has `SERVER_READY` in the
third (`flagsAgree`).  So neither of the two functions that look at the second flag after the first
ever finds it different: `do_slot_handshake` does not fail with `AlreadyConnected`, and
`send_to_client`, called for a connected slot, not with `NotConnected`.  `broadcast` is one
`send_to` for each slot; it counts the successes and drops the errors.

The clients may do more here than `client_worker` does: at any moment any words of a segment that a
client ever writes may change to anything (`ClientWords`).  The generation and `server_state` belong
to the server.
-/

namespace Xshm

namespace Multi

variable {ι κ : Type*}

/-! ### Clients that write anything -/

/-- The words and the events of a slot that clients write. -/
structure ClientWords where
  clientState : UInt32
  handshakeA : UInt32
  handshakeB : UInt32
  connectionGenA : UInt32
  connectionGenB : UInt32
  ringA : List (Message UInt32)
  ringB : List (Message UInt32)
  connectReq : Bool
  connectAck : Bool
  disconnect : Bool
  data : Bool
  claim : UInt32
  ownerPid : UInt32

/-- The words are written. -/
def Slot.write (sl : Slot κ) (w : ClientWords) : Slot κ :=
  { sl with
    seg := { sl.seg with
      clientState := w.clientState
      handshakeA := w.handshakeA
      handshakeB := w.handshakeB
      connectionGenA := w.connectionGenA
      connectionGenB := w.connectionGenB
      ringA := w.ringA
      ringB := w.ringB
      connectReq := w.connectReq
      connectAck := w.connectAck
      disconnect := w.disconnect }
    data := w.data
    claim := w.claim
    ownerPid := w.ownerPid }

/-- Who moves. -/
inductive FreeLabel (ι κ : Type*) where
  | step (l : Label ι κ)
  /-- Words of slot `k` are written by whoever has the segment open. -/
  | write (k : ℕ) (w : ClientWords)

/-- A server that has just been started, its clients, and anyone who writes what clients write. -/
def freeSystem {ι : Type*} (κ : Type*) [DecidableEq ι] [DecidableEq κ] (cfg : Config ι) :
    System (State ι κ) (FreeLabel ι κ) where
  init s := s = {}
  step s
    | .step l => s.step cfg l
    | .write k w => some (s.setSlot k ((s.slot k).write w))

/-! ### The functions that look at two flags -/

/-- `SharedServer::send_to_client`. -/
def Slot.sendToClient (sl : Slot κ) (m : Message UInt32) : Except ShmError (Slot κ) :=
  if sl.serverConnected then
    if m.payload.length < minMessageSize then .error .messageTooSmall
    else if maxMessageSize < m.payload.length then .error .messageTooLarge
    else .ok { sl with seg := { sl.seg with ringA := pushMessage sl.seg.ringA m } }
  else .error .notConnected

/-- `MultiServer::send_to`, once it has the mutex of the slot. -/
def State.sendTo (cfg : Config ι) (s : State ι κ) (k : ℕ) (p : Payload) :
    Except ShmError (State ι κ) :=
  if k < cfg.maxClients then
    if (s.slot k).connected then
      ((s.slot k).sendToClient ⟨p, (s.slot k).session.token⟩).map (s.setSlot k)
    else .error .notConnected
  else .error .notConnected

/-- The flags of the slots agree whenever their mutexes are free, and what follows from that. -/
structure FlagsAgree [DecidableEq ι] [DecidableEq κ] (cfg : Config ι) (s : State ι κ) : Prop where
  agree : ∀ k, (s.slot k).lock = none → (s.slot k).connected = (s.slot k).serverConnected
  ready : ∀ k, (s.slot k).lock = none → (s.slot k).connected = true →
    (s.slot k).seg.serverState = handshakeServerReady
  /-- `do_slot_handshake` is not refused with `AlreadyConnected`, the only error it returns before
  its first access. -/
  accepts : ∀ k w s', s.worker = .slotConnect k → s.step cfg (.worker w) = some s' →
    s'.worker ≠ .handshaken k false
  /-- `send_to` for a connected slot does not fail with `NotConnected`. -/
  sends : ∀ k p, k < cfg.maxClients → (s.slot k).lock = none → (s.slot k).connected = true →
    s.sendTo cfg k p ≠ .error .notConnected

/-! ### The invariant -/

/-- The slot in which the handshake has stored `SERVER_READY`. -/
def Worker.readied : Worker → Option ℕ
  | .handshake k pc => if pc.readied then some k else none
  | .handshaken k true => some k
  | _ => none

theorem Worker.closing_of_readied {t : Worker} {k : ℕ} (h : t.readied = some k) :
    t.closing = some k := by
  cases t with
  | handshake j pc =>
    rw [Worker.readied] at h
    split_ifs at h
    exact h
  | handshaken j ok => cases ok <;> first | exact h | cases h
  | _ => cases h

/-- A handshake begins with a load. -/
theorem Worker.Takes.readied {cfg : Config ι} {sl : Slot κ} {k : ℕ} {t t' : Worker}
    (h : t.Takes cfg sl k t') : t'.readied = none := by
  cases h <;> rfl

/-- The slot whose `SharedServer` the thread has closed. -/
def App.closed : App → Option ℕ
  | .marking k .. | .release k _ => some k
  | _ => none

theorem App.holding_of_closed {t : App} {k : ℕ} (h : t.closed = some k) : t.holding = some k := by
  cases t <;> first | exact h | cases h

/-- What the mutex guards, and `server_state`. -/
def Slot.flags (sl : Slot κ) : Option (Owner κ) × Bool × Bool × UInt32 :=
  (sl.lock, sl.connected, sl.serverConnected, sl.seg.serverState)

/-- The flags agree. -/
structure Slot.Settled (sl : Slot κ) : Prop where
  agree : sl.connected = sl.serverConnected
  ready : sl.connected = true → sl.seg.serverState = handshakeServerReady

theorem Slot.Settled.of_closed {sl : Slot κ} (hc : sl.connected = false)
    (hs : sl.serverConnected = false) : sl.Settled :=
  ⟨hc.trans hs.symm, fun h => absurd (hc.symm.trans h) Bool.noConfusion⟩

/-- `reclaim_stale_claims` looks after the claim alone. -/
theorem Slot.flags_reclaim (sl : Slot κ) (now : ℕ) (claim : UInt32) :
    (sl.reclaim now claim).flags = sl.flags := by
  rw [Slot.reclaim]
  split_ifs
  · rfl
  · split
    · rfl
    · split_ifs <;> rfl

/-- Where the flags agree, and what is known of them where they may not. -/
structure FlagInv (s : State ι κ) : Prop where
  settled : ∀ k, s.worker.closing ≠ some k → (∀ a, (s.slot k).lock ≠ some (.app a)) →
    (s.slot k).Settled
  closing : ∀ k, s.worker.closing = some k → (s.slot k).serverConnected = false
  closed : ∀ a k, (s.app a).closed = some k → (s.slot k).serverConnected = false
  readied : ∀ k, s.worker.readied = some k → (s.slot k).seg.serverState = handshakeServerReady

namespace FlagInv

variable {s s' : State ι κ} {k : ℕ}

theorem init : FlagInv ({} : State ι κ) where
  settled _ _ _ := .of_closed rfl rfl
  closing := by rintro _ ⟨⟩
  closed := by rintro _ _ ⟨⟩
  readied := by rintro _ ⟨⟩

/-- No flag changes. -/
theorem congr (h : FlagInv s) (hf : ∀ k, (s'.slot k).flags = (s.slot k).flags)
    (hw : s'.worker = s.worker) (ha : s'.app = s.app) : FlagInv s' := by
  have hf' (k : ℕ) := hf k
  simp only [Slot.flags, Prod.mk.injEq] at hf'
  refine ⟨fun k hk hl => ?_, fun k hk => ?_, fun a k hk => ?_, fun k hk => ?_⟩
  · obtain ⟨hlock, hc, hs, hr⟩ := hf' k
    have hset := h.settled k (hw ▸ hk) fun a => by rw [← hlock]; exact hl a
    refine ⟨by rw [hc, hs]; exact hset.agree, fun ht => ?_⟩
    rw [hr]
    exact hset.ready (hc ▸ ht)
  · rw [(hf' k).2.2.1]
    exact h.closing k (hw ▸ hk)
  · rw [(hf' k).2.2.1]
    exact h.closed a k (ha ▸ hk)
  · rw [(hf' k).2.2.2]
    exact h.readied k (hw ▸ hk)

/-- A slot changes, but none of its flags. -/
theorem keepSlot (h : FlagInv s) {sl : Slot κ} (hf : sl.flags = (s.slot k).flags) :
    FlagInv (s.setSlot k sl) :=
  h.congr (State.forall_setSlot (P := fun j (sl : Slot κ) => sl.flags = (s.slot j).flags) hf
    fun _ => rfl) rfl rfl

/-- The worker moves outside the sections in which it changes flags. -/
theorem setWorker (h : FlagInv s) {t : Worker} (hs : s.worker.closing = none)
    (ht : t.closing = none) : FlagInv (s.setWorker t) where
  settled k _ := h.settled k (by rw [hs]; exact (Option.some_ne_none k).symm)
  closing k hk := by cases ht.symm.trans hk
  closed := h.closed
  readied k hk := by cases ht.symm.trans (Worker.closing_of_readied hk)

/-- A thread moves, but not into a section in which it has closed a slot. -/
theorem setApp [DecidableEq κ] (h : FlagInv s) (a : κ) {t : App} (ht : t.closed = none) :
    FlagInv (s.setApp a t) where
  settled := h.settled
  closing := h.closing
  closed b k := forall_update (P := fun t : App => t.closed = some k)
    (fun hk => by cases ht.symm.trans hk) (fun b => h.closed b k) b
  readied := h.readied

/-- A slot that is free, or that the worker holds without changing flags. -/
theorem settled_of_free (h : FlagInv s) (hl : LockInv s) (hk : (s.slot k).lock = none) :
    (s.slot k).Settled := by
  refine h.settled k (fun hc => ?_) fun a ha => ?_
  · cases hk.symm.trans (hl.worker k (Worker.holding_of_closing hc))
  · cases hk.symm.trans ha

theorem settled_of_holding (h : FlagInv s) (hl : LockInv s) (hk : s.worker.holding = some k)
    (hc : s.worker.closing = none) : (s.slot k).Settled := by
  refine h.settled k (by rw [hc]; exact (Option.some_ne_none k).symm) fun a ha => ?_
  cases (hl.worker k hk).symm.trans ha

/-- The worker, which holds the mutex of slot `k` or takes it, changes the slot. -/
theorem workerMove (h : FlagInv s) (hl : LockInv s) {sl : Slot κ} {t : Worker}
    (hk : s.worker.holding = some k ∨ s.worker.holding = none ∧ (s.slot k).lock = none)
    (ht : t.holding = some k ∨ t.holding = none) (hs : t.closing = none → sl.Settled)
    (hc : t.closing = some k → sl.serverConnected = false)
    (hr : t.readied = some k → sl.seg.serverState = handshakeServerReady) :
    FlagInv ((s.setSlot k sl).setWorker t) := by
  have hno (a : κ) : (s.app a).holding ≠ some k := fun ha => by
    rcases hk with hk | ⟨-, hk⟩
    · exact hl.holder_unique.1 a hk ha
    · cases hk.symm.trans (hl.app a k ha)
  have hold {j : ℕ} (hj : s.worker.closing = some j) : j = k := by
    have hj := Worker.holding_of_closing hj
    rcases hk with hk | ⟨hk, -⟩ <;> cases hj.symm.trans hk
    rfl
  have hnew {j : ℕ} (hj : t.closing = some j) : j = k := by
    have hj := Worker.holding_of_closing hj
    rcases ht with ht | ht <;> cases hj.symm.trans ht
    rfl
  have hother {j : ℕ} (hj : j ≠ k) : ((s.setSlot k sl).setWorker t).slot j = s.slot j :=
    s.setSlot_slot_of_ne hj sl
  have hself : ((s.setSlot k sl).setWorker t).slot k = sl := s.setSlot_slot_self k sl
  refine ⟨fun j hj hlock => ?_, fun j hj => ?_, fun a j hj => ?_, fun j hj => ?_⟩
  · by_cases hjk : j = k
    · subst hjk
      rw [hself]
      cases htc : t.closing with
      | none => exact hs htc
      | some i =>
        cases hnew htc
        exact absurd htc hj
    · rw [hother hjk] at hlock ⊢
      exact h.settled j (fun hc' => hjk (hold hc')) hlock
  · cases hnew hj
    rw [hself]
    exact hc hj
  · have hjk : j ≠ k := fun he => hno a (he ▸ App.holding_of_closed hj)
    rw [hother hjk]
    exact h.closed a j hj
  · cases hnew (Worker.closing_of_readied hj)
    rw [hself]
    exact hr hj

/-- A thread in `disconnect_client`, which holds the mutex of slot `k` or takes it, changes the
slot. -/
theorem appMove [DecidableEq κ] (h : FlagInv s) (hl : LockInv s) {a : κ} {sl : Slot κ} {t : App}
    (hk : (s.app a).holding = some k ∨ (s.app a).holding = none ∧ (s.slot k).lock = none)
    (ht : t.holding = some k ∨ t.holding = none)
    (hs : (∀ b, sl.lock ≠ some (.app b)) → sl.Settled)
    (hc : t.closed = some k → sl.serverConnected = false) :
    FlagInv ((s.setSlot k sl).setApp a t) := by
  have hlock : (s.slot k).lock = some (.app a) ∨ (s.slot k).lock = none :=
    hk.imp (hl.app a k) And.right
  have hno {b : κ} (hb : b ≠ a) : (s.app b).holding ≠ some k := fun hbk => by
    rcases hlock with h' | h' <;> cases h'.symm.trans (hl.app b k hbk)
    exact hb rfl
  have hnow : s.worker.closing ≠ some k := fun hw => by
    rcases hlock with h' | h' <;>
      cases h'.symm.trans (hl.worker k (Worker.holding_of_closing hw))
  have hother {j : ℕ} (hj : j ≠ k) : ((s.setSlot k sl).setApp a t).slot j = s.slot j :=
    s.setSlot_slot_of_ne hj sl
  have hself : ((s.setSlot k sl).setApp a t).slot k = sl := s.setSlot_slot_self k sl
  refine ⟨fun j hj hlock' => ?_, fun j hj => ?_, fun b j hj => ?_, fun j hj => ?_⟩
  · by_cases hjk : j = k
    · subst hjk
      rw [hself] at hlock' ⊢
      exact hs hlock'
    · rw [hother hjk] at hlock' ⊢
      exact h.settled j hj hlock'
  · have hjk : j ≠ k := fun he => hnow (he ▸ hj)
    rw [hother hjk]
    exact h.closing j hj
  · by_cases hb : b = a
    · subst hb
      simp only [State.setApp, Function.update_self] at hj
      have hjk : j = k := by
        have hj := App.holding_of_closed hj
        rcases ht with ht | ht <;> cases hj.symm.trans ht
        rfl
      subst hjk
      rw [hself]
      exact hc hj
    · simp only [State.setApp, Function.update_of_ne hb] at hj
      have hjk : j ≠ k := fun he => hno hb (he ▸ App.holding_of_closed hj)
      rw [hother hjk]
      exact h.closed b j hj
  · have hjk : j ≠ k := fun he => hnow (he ▸ Worker.closing_of_readied hj)
    rw [hother hjk]
    exact h.readied j hj

/-- The worker takes the free mutex of slot `k`. -/
theorem lock_setWorker (h : FlagInv s) (hl : LockInv s) {t : Worker}
    (hw : s.worker.holding = none) (hk : (s.slot k).lock = none) (ht : t.holding = some k)
    (hc : t.closing = some k → (s.slot k).serverConnected = false) (hr : t.readied = none) :
    FlagInv ((s.lock k .worker).setWorker t) := by
  have hset := h.settled_of_free hl hk
  refine h.workerMove hl (.inr ⟨hw, hk⟩) (.inl ht) (fun _ => ⟨hset.agree, hset.ready⟩) hc ?_
  intro hr'
  cases hr.symm.trans hr'

/-- The worker, which has not changed the flags, releases the mutex of slot `k`. -/
theorem unlock_setWorker (h : FlagInv s) (hl : LockInv s) {sl : Slot κ} {t : Worker}
    (hw : s.worker.holding = some k) (hc : s.worker.closing = none)
    (hf : sl.flags = (s.slot k).flags) (ht : t.holding = none) :
    FlagInv (((s.setSlot k sl).unlock k).setWorker t) := by
  have hset := h.settled_of_holding hl hw hc
  have htc : t.closing ≠ some k := fun htk => by
    cases ht.symm.trans (Worker.holding_of_closing htk)
  simp only [Slot.flags, Prod.mk.injEq] at hf
  obtain ⟨-, hcon, hsrv, hstate⟩ := hf
  rw [State.unlock, State.setSlot_slot_self, State.setSlot_setSlot]
  refine h.workerMove hl (.inl hw) (.inr ht) (fun _ => ⟨?_, fun hct => ?_⟩)
    (fun htk => absurd htk htc) fun htk => absurd (Worker.closing_of_readied htk) htc
  · change sl.connected = sl.serverConnected
    rw [hcon, hsrv]
    exact hset.agree
  · change sl.seg.serverState = _
    rw [hstate]
    exact hset.ready (hcon ▸ hct)

theorem drop_setWorker (h : FlagInv s) (hl : LockInv s) {t : Worker}
    (hw : s.worker.holding = some k) (hc : s.worker.closing = none) (ht : t.holding = none) :
    FlagInv ((s.unlock k).setWorker t) := by
  rw [← s.setSlot_self k]
  exact h.unlock_setWorker hl hw hc rfl ht

theorem handleEvent (h : FlagInv s) (hs : s.worker.closing = none) (e : EventSource) :
    FlagInv (s.handleEvent e) := by
  cases e <;> exact .setWorker (h.keepSlot (by rfl)) hs rfl

/-- An access of the handshake. -/
theorem handshake (h : FlagInv s) (hl : LockInv s) {pc : WaitForClient} {w : WaitOutcome}
    {seg : Segment (Message UInt32) (Message UInt32)} {next : Next WaitForClient}
    (hs : s.worker = .handshake k pc) (hpc : pc.step (s.slot k).seg w = some (seg, next)) :
    FlagInv ((s.setSlot k
      { s.slot k with seg := seg, answered := (s.slot k).answering pc }).setWorker
        (handshakeNext k next)) := by
  have hk : s.worker.holding = some k := by rw [hs]; rfl
  have hsrv : (s.slot k).serverConnected = false := h.closing k (by rw [hs]; rfl)
  have hready : pc.readied = true → (s.slot k).seg.serverState = handshakeServerReady := by
    intro hp
    exact h.readied k (by rw [hs]; exact if_pos hp)
  have hstep := pc.step_readied _ hready hpc
  rcases next with pc' | (e | u)
  · refine h.workerMove hl (.inl hk) (.inl rfl) (by rintro ⟨⟩) (fun _ => hsrv) fun hr => ?_
    refine hstep.1 pc' rfl ?_
    by_contra hp
    cases (if_neg hp).symm.trans hr
  · exact h.workerMove hl (.inl hk) (.inl rfl) (by rintro ⟨⟩) (fun _ => hsrv) (by rintro ⟨⟩)
  · exact h.workerMove hl (.inl hk) (.inl rfl) (by rintro ⟨⟩) (fun _ => hsrv)
      fun _ => hstep.2 u rfl

theorem workerStep (h : FlagInv s) (hl : LockInv s) {cfg : Config ι} {l : Label ι κ}
    (hm : WorkerMove cfg s l s') : FlagInv s' := by
  have held {t : Worker} {k : ℕ} (hs : s.worker = t) (ht : t.holding = some k) :
      s.worker.holding = some k := hs ▸ ht
  have unclosing {t : Worker} (hs : s.worker = t) (ht : t.closing = none) :
      s.worker.closing = none := hs ▸ ht
  have server {t : Worker} {k : ℕ} (hs : s.worker = t) (ht : t.closing = some k) :
      (s.slot k).serverConnected = false := h.closing k (hs ▸ ht)
  have closed {t : Worker} {k : ℕ} (hs : s.worker = t) (ht : t.closing = some k) :
      (s.slot k).connected = false := hl.closing k (hs ▸ ht)
  cases hm with
  | goes hg =>
    exact h.setWorker (Worker.closing_eq_none hg.holding.1) (Worker.closing_eq_none hg.holding.2)
  | takes hfree ht =>
    -- the flags agree, so `do_slot_handshake` is not refused
    have hagree := (h.settled_of_free hl hfree).agree
    exact h.lock_setWorker hl ht.holding.1 hfree ht.holding.2
      (fun hc => hagree.symm.trans (ht.closing hc)) ht.readied
  | drops hd => exact h.drop_setWorker hl hd.holding.1 hd.closing hd.holding.2
  | checks hc => exact h.drop_setWorker hl hc.holding.1 hc.closing hc.holding.2
  | calls hc =>
    exact .setWorker (h.keepSlot (by rfl)) (Worker.closing_eq_none hc.holding.1)
      (Worker.closing_eq_none hc.holding.2)
  | consumes hs => exact h.handleEvent (unclosing hs rfl) _
  | sees hs =>
    have hset := h.settled_of_holding hl (held hs rfl) (unclosing hs rfl)
    exact h.workerMove hl (.inl (held hs rfl)) (.inl rfl) (fun _ => ⟨hset.agree, hset.ready⟩)
      (by rintro ⟨⟩) (by rintro ⟨⟩)
  | reclaims hs =>
    exact h.unlock_setWorker hl (held hs rfl) (unclosing hs rfl) (Slot.flags_reclaim ..) rfl
  | loads hs => exact h.setWorker (unclosing hs rfl) rfl
  | @orphans w k expected orphaned hs =>
    have he : FlagInv (s.endSession k) := h.congr (fun _ => rfl) rfl rfl
    exact he.workerMove hl.endSession (.inl (held hs rfl)) (.inl rfl) (by rintro ⟨⟩)
      (fun _ => rfl) (by rintro ⟨⟩)
  | orphanMarks hs | marks hs | marked hs =>
    have hsrv := server hs rfl
    exact h.workerMove hl (.inl (held hs rfl)) (.inl rfl) (by rintro ⟨⟩) (fun _ => hsrv)
      (by rintro ⟨⟩)
  | orphanMarked hs =>
    have hcon := closed hs rfl
    have hsrv := server hs rfl
    rw [State.unlock, State.setSeg, State.setSlot_slot_self, State.setSlot_setSlot]
    exact h.workerMove hl (.inl (held hs rfl)) (.inr rfl) (fun _ => .of_closed hcon hsrv)
      (by rintro ⟨⟩) (by rintro ⟨⟩)
  | @ackFails w k hs =>
    have hsrv := server hs rfl
    rw [← s.setSlot_self k]
    exact h.workerMove hl (.inl (held hs rfl)) (.inl rfl) (by rintro ⟨⟩) (fun _ => hsrv)
      (by rintro ⟨⟩)
  | handshakes hs hpc => exact h.handshake hl hs hpc
  | accepts hs =>
    have hready := h.readied _ (by rw [hs]; rfl)
    exact h.workerMove hl (.inl (held hs rfl)) (.inr rfl) (fun _ => ⟨rfl, fun _ => hready⟩)
      (by rintro ⟨⟩) (by rintro ⟨⟩)
  | refuses hs =>
    have hcon := closed hs rfl
    have hsrv := server hs rfl
    exact h.workerMove hl (.inl (held hs rfl)) (.inr rfl) (fun _ => .of_closed hcon hsrv)
      (by rintro ⟨⟩) (by rintro ⟨⟩)
  | receives hs =>
    have hset := h.settled_of_holding hl (held hs rfl) (unclosing hs rfl)
    exact h.workerMove hl (.inl (held hs rfl)) (.inl rfl) (fun _ => ⟨hset.agree, hset.ready⟩)
      (by rintro ⟨⟩) (by rintro ⟨⟩)
  | @ends w k setBy hs hfree =>
    have he : FlagInv ((s.endSession k).recordEnd ⟨k, (s.slot k).session, setBy⟩) :=
      h.congr (fun _ => rfl) rfl rfl
    have hw : s.worker.holding = none := by rw [hs]; rfl
    exact he.workerMove (hl.endSession.recordEnd _) (.inr ⟨hw, hfree⟩) (.inl rfl)
      (by rintro ⟨⟩) (fun _ => rfl) (by rintro ⟨⟩)
  | clears hs hfree =>
    have hw : s.worker.holding = none := by rw [hs]; rfl
    exact h.workerMove hl (.inr ⟨hw, hfree⟩) (.inl rfl) (by rintro ⟨⟩) (fun _ => rfl)
      (by rintro ⟨⟩)
  | @releases w k ended hs =>
    have hcon := closed hs rfl
    have hsrv := server hs rfl
    have ht : (if ended.isSome then Worker.callDisconnect k else .head).holding = none := by
      split_ifs <;> rfl
    have htc (j : ℕ) : (if ended.isSome then Worker.callDisconnect k else .head).closing ≠
        some j := fun hj => by cases ht.symm.trans (Worker.holding_of_closing hj)
    rw [State.unlock, State.setSlot_slot_self, State.setSlot_setSlot]
    exact h.workerMove hl (.inl (held hs rfl)) (.inr ht) (fun _ => .of_closed hcon hsrv)
      (fun hj => absurd hj (htc k)) fun hj => absurd (Worker.closing_of_readied hj) (htc k)

theorem appStep [DecidableEq κ] (h : FlagInv s) (hl : LockInv s) {a : κ} {w : WaitOutcome}
    (hst : s.appStep a w = some s') : FlagInv s' := by
  rw [State.appStep] at hst
  cases hs : s.app a <;> simp only [hs] at hst
  case idle => cases hst
  case setEvent k ended =>
    have hk : (s.app a).holding = some k := by rw [hs]; rfl
    have hcon := hl.disconnecting a k hk
    split at hst <;> cases hst <;>
      exact h.appMove hl (.inl hk) (.inl rfl) (fun _ => .of_closed hcon rfl) fun _ => rfl
  case marking k ended pc =>
    have hk : (s.app a).holding = some k := by rw [hs]; rfl
    have hcon := hl.disconnecting a k hk
    have hsrv := h.closed a k (by rw [hs]; rfl)
    split at hst <;> cases hst <;>
      exact h.appMove hl (.inl hk) (.inl rfl) (fun _ => .of_closed hcon hsrv) fun _ => hsrv
  case release k ended =>
    have hk : (s.app a).holding = some k := by rw [hs]; rfl
    have hcon := hl.disconnecting a k hk
    have hsrv := h.closed a k (by rw [hs]; rfl)
    cases hst
    rw [State.unlock, State.setSlot_slot_self, State.setSlot_setSlot]
    exact h.appMove hl (.inl hk) (.inr rfl) (fun _ => .of_closed hcon hsrv) (by rintro ⟨⟩)
  case callDisconnect k =>
    cases hst
    exact .setApp (h.keepSlot (by rfl)) a rfl

theorem write (h : FlagInv s) (w : ClientWords) : FlagInv (s.setSlot k ((s.slot k).write w)) :=
  h.keepSlot rfl

end FlagInv

/-! ### Clients -/

section Clients

variable {s s' : State ι κ}

/-- `server_state` is the server's. -/
theorem connectStep_serverState [DecidableEq ι] {c : ι} {pc : Connect} {w : WaitOutcome}
    (hst : s.connectStep c pc w = some s') (k : ℕ) :
    (s'.slot k).seg.serverState = (s.slot k).seg.serverState := by
  rw [State.connectStep] at hst
  split_ifs at hst
  · cases hst
    rfl
  · obtain ⟨⟨seg, next⟩, hpc, rfl⟩ := Option.map_eq_some_iff.1 hst
    exact State.forall_setSlot (P := fun j (sl : Slot κ) =>
      sl.seg.serverState = (s.slot j).seg.serverState) (pc.step_frame _ hpc).2.2.2.1
        (fun _ => rfl) k

theorem clientStep_serverState [DecidableEq ι] {cfg : Config ι} {c : ι} {o : Outcome}
    (hst : s.clientStep cfg c o = some s') (k : ℕ) :
    (s'.slot k).seg.serverState = (s.slot k).seg.serverState := by
  have hset {j : ℕ} {sl : Slot κ} (h : sl.seg.serverState = (s.slot j).seg.serverState) :
      ((s.setSlot j sl).slot k).seg.serverState = (s.slot k).seg.serverState :=
    State.forall_setSlot (P := fun j (sl : Slot κ) =>
      sl.seg.serverState = (s.slot j).seg.serverState) h (fun _ => rfl) k
  simp only [State.clientStep] at hst
  cases hpc : (s.client c).pc <;> simp only [hpc] at hst
  case head =>
    split_ifs at hst
    · cases hst
      rfl
    · cases o <;> simp only [reduceCtorEq] at hst
      split_ifs at hst
      cases hst
      rfl
  case claim =>
    split_ifs at hst <;> cases hst
    · exact hset rfl
    · rfl
    · rfl
  case connecting pc =>
    cases o <;> simp only [reduceCtorEq] at hst
    exact connectStep_serverState hst k
  case transfer =>
    cases o <;> simp only [reduceCtorEq] at hst <;> cases hst
    · exact hset rfl
    · exact hset rfl
    · rfl
  case waitAny =>
    cases o with
    | any r =>
      cases r <;> simp only at hst
      case disconnect =>
        split_ifs at hst
        cases hst
        exact hset rfl
      case other =>
        split_ifs at hst
        cases hst
        rfl
      case failed =>
        cases hst
        rfl
    | _ => cases hst
  case dropping pc =>
    have hframe := (pc.step_frame (s.slot (s.client c).slotId).seg).2.2.2
    split at hst <;> rename_i hn <;> rw [hn] at hframe <;> cases hst <;> exact hset hframe
  case release =>
    cases hst
    exact hset (by split_ifs <;> rfl)
  case storePid | setData =>
    cases hst
    exact hset rfl
  case connected | delay =>
    cases hst
    rfl
  case ended => cases hst

theorem clientStep_flags [DecidableEq ι] {cfg : Config ι} {c : ι} {o : Outcome}
    (hst : s.clientStep cfg c o = some s') (k : ℕ) : (s'.slot k).flags = (s.slot k).flags := by
  have hslot := (clientStep_sameServer hst).slot k
  simp only [Slot.clientSlot, Prod.mk.injEq] at hslot
  rw [Slot.flags, Slot.flags, hslot.1, hslot.2.1, hslot.2.2.1, clientStep_serverState hst k]

end Clients

section Run

variable [DecidableEq ι] [DecidableEq κ] {cfg : Config ι} {s s' : State ι κ}

theorem FlagInv.step (h : FlagInv s) (hl : LockInv s) {l : Label ι κ}
    (hst : s.step cfg l = some s') : FlagInv s' := by
  cases l <;> simp only [State.step] at hst
  case stop | exit | tick =>
    cases hst
    exact h.congr (fun _ => rfl) rfl rfl
  case worker w => exact h.workerStep hl (workerStep_move hst)
  case alive b => exact h.workerStep hl (aliveStep_move cfg hst)
  case disconnectClient a k =>
    split_ifs at hst with hk hc <;> cases hst
    · have he : FlagInv (s.endSession k) := h.congr (fun _ => rfl) rfl rfl
      have hidle : (s.app a).holding = none := by rw [hk.1]; rfl
      exact he.appMove hl.endSession (.inr ⟨hidle, hk.2.2⟩) (.inl rfl)
        (fun hno => absurd rfl (hno a)) (by rintro ⟨⟩)
    · exact h
  case app a w => exact h.appStep hl hst
  case sendTo k p =>
    split_ifs at hst <;> cases hst
    · exact h.keepSlot rfl
    · exact h
  case shutdown c =>
    cases hst
    exact h.congr (fun _ => rfl) rfl rfl
  case client c o =>
    split_ifs at hst
    have hsame := clientStep_sameServer hst
    exact h.congr (clientStep_flags hst) hsame.worker hsame.app

/-- Both invariants hold in every run. -/
theorem flagInv_of_reach (h : (freeSystem κ cfg).Reach s) : LockInv s ∧ FlagInv s := by
  refine h.invariant (I := fun s => LockInv s ∧ FlagInv s) ?_ ?_
  · rintro s rfl
    exact ⟨.init, .init⟩
  · rintro s (l | ⟨k, w⟩) s' ⟨hl, hi⟩ - hst
    · exact ⟨hl.step hst, hi.step hl hst⟩
    · cases hst
      exact ⟨hl.keepSlot rfl rfl, hi.write w⟩

/-- What `send_to` does in the model is what the source does: `send_to_client` finds the second flag
as `send_to` has found the first. -/
theorem step_sendTo (h : (freeSystem κ cfg).Reach s) {k : ℕ} (hk : k < cfg.maxClients)
    (hlock : (s.slot k).lock = none) (p : Payload) :
    s.step cfg (.sendTo k p) = some (((s.sendTo cfg k p).toOption).getD s) := by
  obtain ⟨hl, hi⟩ := flagInv_of_reach h
  have hagree := (hi.settled_of_free hl hlock).agree
  rw [State.step, State.sendTo, if_pos ⟨hk, hlock⟩, if_pos hk]
  by_cases hc : (s.slot k).connected = true
  · rw [if_pos hc, if_pos hc, Slot.sendToClient, if_pos (hagree.symm.trans hc)]
    -- a payload of a wrong length changes nothing
    have hinvalid (hp : ¬ p.Valid) : s.setSeg k { (s.slot k).seg with
        ringA := pushMessage (s.slot k).seg.ringA ⟨p, (s.slot k).session.token⟩ } = s := by
      rw [pushMessage, if_neg hp]
      exact s.setSlot_self k
    split_ifs with hmin hmax
    · exact congrArg some (hinvalid fun hp => Nat.not_lt.2 hp.1 hmin)
    · exact congrArg some (hinvalid fun hp => Nat.not_lt.2 hp.2 hmax)
    · rfl
  · rw [if_neg hc, if_neg hc]
    rfl

/-- **The flags of a slot never drift apart.** -/
theorem flagsAgree (h : (freeSystem κ cfg).Reach s) : FlagsAgree cfg s := by
  obtain ⟨hl, hi⟩ := flagInv_of_reach h
  have hset {k : ℕ} (hk : (s.slot k).lock = none) : (s.slot k).Settled := hi.settled_of_free hl hk
  refine ⟨fun k hk => (hset hk).agree, fun k hk => (hset hk).ready, ?_, ?_⟩
  · rintro k w s' hs hst hw
    simp only [State.step, State.workerStep, hs] at hst
    split_ifs at hst with hk hc hd <;> cases hst
    · cases hw
    · have := (hset hk).agree
      rw [hd] at this
      exact hc this
    · cases hw
  · intro k p hk hlock hc
    rw [State.sendTo, if_pos hk, if_pos hc, Slot.sendToClient,
      if_pos ((hset hlock).agree.symm.trans hc)]
    split_ifs <;> rintro ⟨⟩

end Run

/-- A client connects, and then someone writes `CLIENT_HELLO` and signals `connect_req` again. -/
def helloTwice : List (FreeLabel Unit Unit) :=
  (openSession () 1).map .step ++
    [.write 0 ⟨handshakeClientHello, 0, 0, 0, 0, [], [], true, false, false, false, 0, 0⟩]

theorem flagsAgree_helloTwice : ∃ s : State Unit Unit,
    ((s.slot 0).lock = none ∧ (s.slot 0).connected = true ∧
      (s.slot 0).seg.clientState = handshakeClientHello) ∧ FlagsAgree (oneSlot Unit) s := by
  obtain ⟨s, h, hs⟩ := System.exists_reachWhen (A := freeSystem Unit (oneSlot Unit))
    (C := fun _ _ => True) (s := {}) (r := helloTwice)
    (f := fun s => ((s.slot 0).lock, (s.slot 0).connected, (s.slot 0).seg.clientState))
    (t := (none, true, handshakeClientHello)) rfl (by decide +kernel)
  simp only [Prod.mk.injEq] at hs
  exact ⟨s, hs, flagsAgree h⟩

end Multi

end Xshm
