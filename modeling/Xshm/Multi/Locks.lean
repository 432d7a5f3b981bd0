import Xshm.Multi.Worker

/-!
# The mutex of a slot

Who is inside a critical section holds the mutex of its slot, so no two threads are in one for the
same slot (`LockInv.holder_unique`).  Only `handle_slot_connect` sets `slot.connected`, at the end
of its section: while a handshake or the end of a session is in progress the slot is not connected.
These hold in every run.
-/

namespace Xshm

namespace Multi

/-- The slot whose mutex the worker holds. -/
def Worker.holding : Worker → Option ℕ
  | .claimLoaded k .. | .loadOwner k .. | .checkAlive k .. | .orphanCas k .. | .orphanMark k ..
  | .handshake k _ | .handshaken k _ | .receiving k .. | .marking k .. | .release k _ => some k
  | _ => none

/-- The slot that the worker keeps from being connected. -/
def Worker.closing : Worker → Option ℕ
  | .orphanMark k .. | .handshake k _ | .handshaken k _ | .marking k .. | .release k _ => some k
  | _ => none

theorem Worker.holding_of_closing {t : Worker} {k : ℕ} (h : t.closing = some k) :
    t.holding = some k := by
  cases t <;> first | exact h | cases h

theorem Worker.closing_eq_none {t : Worker} (h : t.holding = none) : t.closing = none := by
  cases t <;> first | rfl | cases h

namespace Worker

variable {ι κ : Type*} {cfg : Config ι} {s : State ι κ} {sl : Slot κ} {k : ℕ} {t t' : Worker}

theorem Goes.holding (h : t.Goes cfg s t') : t.holding = none ∧ t'.holding = none := by
  cases h <;> exact ⟨rfl, rfl⟩

theorem Takes.holding (h : t.Takes cfg sl k t') : t.holding = none ∧ t'.holding = some k := by
  cases h <;> exact ⟨rfl, rfl⟩

/-- A slot that is kept from being connected is not. -/
theorem Takes.closing (h : t.Takes cfg sl k t') (hk : t'.closing = some k) :
    sl.connected = false := by
  cases h with
  | refuse hcon | handshake hcon => exact hcon
  | _ => cases hk

theorem Drops.holding (h : t.Drops sl k t') : t.holding = some k ∧ t'.holding = none := by
  cases h <;> exact ⟨rfl, rfl⟩

/-- A slot that has not changed was not kept from being connected. -/
theorem Drops.closing (h : t.Drops sl k t') : t.closing = none := by
  cases h <;> rfl

theorem Checks.holding {exited : Finset UInt32} (h : t.Checks exited k t') :
    t.holding = some k ∧ t'.holding = none := by
  cases h <;> exact ⟨rfl, rfl⟩

theorem Checks.closing {exited : Finset UInt32} (h : t.Checks exited k t') : t.closing = none := by
  cases h <;> rfl

theorem Calls.holding {e : Callback} (h : t.Calls k e t') :
    t.holding = none ∧ t'.holding = none := by
  cases h <;> exact ⟨rfl, rfl⟩

end Worker

theorem handshakeNext_holding (k : ℕ) (next : Next WaitForClient) :
    (handshakeNext k next).holding = some k := by
  rcases next with pc | (e | u) <;> rfl

/-- The slot whose mutex the thread holds. -/
def App.holding : App → Option ℕ
  | .setEvent k _ | .marking k .. | .release k _ => some k
  | _ => none

variable {ι κ : Type*}

structure LockInv (s : State ι κ) : Prop where
  worker : ∀ k, s.worker.holding = some k → (s.slot k).lock = some .worker
  app : ∀ a k, (s.app a).holding = some k → (s.slot k).lock = some (.app a)
  closing : ∀ k, s.worker.closing = some k → (s.slot k).connected = false
  disconnecting : ∀ a k, (s.app a).holding = some k → (s.slot k).connected = false

namespace LockInv

variable {s s' : State ι κ} {k : ℕ}

theorem init : LockInv ({} : State ι κ) where
  worker := by rintro _ ⟨⟩
  app := by rintro _ _ ⟨⟩
  closing := by rintro _ ⟨⟩
  disconnecting := by rintro _ _ ⟨⟩

/-- Two threads are not in a critical section for the same slot. -/
theorem holder_unique (h : LockInv s) :
    (∀ a, s.worker.holding = some k → (s.app a).holding ≠ some k) ∧
      ∀ a b, (s.app a).holding = some k → (s.app b).holding = some k → a = b := by
  refine ⟨fun a hw ha => ?_, fun a b ha hb => ?_⟩
  · cases (h.worker k hw).symm.trans (h.app a k ha)
  · cases (h.app a k ha).symm.trans (h.app b k hb)
    rfl

theorem congr (h : LockInv s) (hl : ∀ k, (s'.slot k).lock = (s.slot k).lock)
    (hc : ∀ k, (s'.slot k).connected = (s.slot k).connected) (hw : s'.worker = s.worker)
    (ha : s'.app = s.app) : LockInv s' where
  worker k hk := (hl k).trans (h.worker k (hw ▸ hk))
  app a k hk := (hl k).trans (h.app a k (ha ▸ hk))
  closing k hk := (hc k).trans (h.closing k (hw ▸ hk))
  disconnecting a k hk := (hc k).trans (h.disconnecting a k (ha ▸ hk))

/-- A slot changes outside its `ClientSlot`. -/
theorem keepSlot (h : LockInv s) {sl : Slot κ} (hl : sl.lock = (s.slot k).lock)
    (hc : sl.connected = (s.slot k).connected) : LockInv (s.setSlot k sl) where
  worker j hj := State.forall_setSlot (P := fun j (sl : Slot κ) =>
    s.worker.holding = some j → sl.lock = some .worker)
      (fun hk => hl.trans (h.worker k hk)) h.worker j hj
  app a j hj := State.forall_setSlot (P := fun j (sl : Slot κ) =>
    (s.app a).holding = some j → sl.lock = some (.app a))
      (fun hk => hl.trans (h.app a k hk)) (h.app a) j hj
  closing j hj := State.forall_setSlot (P := fun j (sl : Slot κ) =>
    s.worker.closing = some j → sl.connected = false)
      (fun hk => hc.trans (h.closing k hk)) h.closing j hj
  disconnecting a j hj := State.forall_setSlot (P := fun j (sl : Slot κ) =>
    (s.app a).holding = some j → sl.connected = false)
      (fun hk => hc.trans (h.disconnecting a k hk)) (h.disconnecting a) j hj

theorem setClient [DecidableEq ι] (h : LockInv s) (c : ι) (cl : Client) :
    LockInv (s.setClient c cl) :=
  h.congr (fun _ => rfl) (fun _ => rfl) rfl rfl

theorem endSession (h : LockInv s) : LockInv (s.endSession k) :=
  h.congr (fun _ => rfl) (fun _ => rfl) rfl rfl

theorem recordEnd (h : LockInv s) (e : Ended) : LockInv (s.recordEnd e) :=
  h.congr (fun _ => rfl) (fun _ => rfl) rfl rfl

/-- The worker moves outside all critical sections. -/
theorem setWorker (h : LockInv s) {t : Worker} (ht : t.holding = none) :
    LockInv (s.setWorker t) :=
  { h with
    worker := fun k hk => by
      have hk : t.holding = some k := hk
      rw [ht] at hk
      cases hk
    closing := fun k hk => by
      have hk : t.holding = some k := Worker.holding_of_closing hk
      rw [ht] at hk
      cases hk }

/-- A thread moves outside all critical sections. -/
theorem setApp [DecidableEq κ] (h : LockInv s) (a : κ) {t : App} (ht : t.holding = none) :
    LockInv (s.setApp a t) :=
  { h with
    app := fun b k => forall_update (P := fun t : App => t.holding = some k)
      (fun hk => by cases ht.symm.trans hk) (fun b => h.app b k) b
    disconnecting := fun b k => forall_update (P := fun t : App => t.holding = some k)
      (fun hk => by cases ht.symm.trans hk) (fun b => h.disconnecting b k) b }

/-- The worker, which holds the mutex of slot `k` or takes it, changes the slot and keeps or
releases the mutex. -/
theorem workerMove (h : LockInv s) {sl : Slot κ} {t : Worker}
    (hk : s.worker.holding = some k ∨ (s.slot k).lock = none)
    (ht : t.holding = some k ∧ sl.lock = some .worker ∨ t.holding = none ∧ sl.lock = none)
    (hc : t.closing = some k → sl.connected = false) :
    LockInv ((s.setSlot k sl).setWorker t) := by
  have hno (a : κ) : (s.app a).holding ≠ some k := fun ha => by
    rcases hk with hk | hk
    · exact h.holder_unique.1 a hk ha
    · cases hk.symm.trans (h.app a k ha)
  have heq {j : ℕ} (hj : t.holding = some j) : j = k := by
    rcases ht with ⟨ht, -⟩ | ⟨ht, -⟩ <;> cases hj.symm.trans ht
    rfl
  refine ⟨fun j hj => ?_, fun a j hj => ?_, fun j hj => ?_, fun a j hj => ?_⟩
  · cases heq hj
    rcases ht with ⟨-, hl⟩ | ⟨ht, -⟩
    · simpa [State.setWorker] using hl
    · cases hj.symm.trans ht
  · have hne : j ≠ k := fun hjk => hno a (hjk ▸ hj)
    exact (congrArg Slot.lock (s.setSlot_slot_of_ne hne sl)).trans (h.app a j hj)
  · cases heq (Worker.holding_of_closing hj)
    simpa [State.setWorker] using hc hj
  · have hne : j ≠ k := fun hjk => hno a (hjk ▸ hj)
    exact (congrArg Slot.connected (s.setSlot_slot_of_ne hne sl)).trans (h.disconnecting a j hj)

/-- The same for a thread in `disconnect_client`, which leaves its slot not connected. -/
theorem appMove [DecidableEq κ] (h : LockInv s) {a : κ} {sl : Slot κ} {t : App}
    (hk : (s.app a).holding = some k ∨ (s.app a).holding = none ∧ (s.slot k).lock = none)
    (ht : t.holding = some k ∧ sl.lock = some (.app a) ∨ t.holding = none ∧ sl.lock = none)
    (hc : sl.connected = false) : LockInv ((s.setSlot k sl).setApp a t) := by
  have hlock : (s.slot k).lock = some (.app a) ∨ (s.slot k).lock = none :=
    hk.imp (h.app a k) And.right
  have hno {b : κ} (hb : b ≠ a) : (s.app b).holding ≠ some k := fun hbk => by
    rcases hlock with hl | hl <;> cases hl.symm.trans (h.app b k hbk)
    exact hb rfl
  have hnow : s.worker.holding ≠ some k := fun hw => by
    rcases hlock with hl | hl <;> cases hl.symm.trans (h.worker k hw)
  have heq {j : ℕ} (hj : t.holding = some j) : j = k := by
    rcases ht with ⟨ht, -⟩ | ⟨ht, -⟩ <;> cases hj.symm.trans ht
    rfl
  refine ⟨fun j hj => ?_, fun b j hj => ?_, fun j hj => ?_, fun b j hj => ?_⟩
  · have hne : j ≠ k := fun hjk => hnow (hjk ▸ hj)
    exact (congrArg Slot.lock (s.setSlot_slot_of_ne hne sl)).trans (h.worker j hj)
  · by_cases hb : b = a
    · subst hb
      simp only [State.setApp, Function.update_self] at hj
      cases heq hj
      rcases ht with ⟨-, hl⟩ | ⟨ht, -⟩
      · simpa [State.setApp] using hl
      · cases hj.symm.trans ht
    · simp only [State.setApp, Function.update_of_ne hb] at hj
      have hne : j ≠ k := fun hjk => hno hb (hjk ▸ hj)
      exact (congrArg Slot.lock (s.setSlot_slot_of_ne hne sl)).trans (h.app b j hj)
  · have hne : j ≠ k := fun hjk => hnow (hjk ▸ Worker.holding_of_closing hj)
    exact (congrArg Slot.connected (s.setSlot_slot_of_ne hne sl)).trans (h.closing j hj)
  · by_cases hb : b = a
    · subst hb
      simp only [State.setApp, Function.update_self] at hj
      cases heq hj
      simpa [State.setApp] using hc
    · simp only [State.setApp, Function.update_of_ne hb] at hj
      have hne : j ≠ k := fun hjk => hno hb (hjk ▸ hj)
      exact (congrArg Slot.connected (s.setSlot_slot_of_ne hne sl)).trans (h.disconnecting b j hj)

theorem handleEvent (h : LockInv s) (e : EventSource) : LockInv (s.handleEvent e) := by
  cases e <;> exact .setWorker (h.keepSlot (by rfl) (by rfl)) (by rfl)

/-- The worker holds the mutex of slot `k` and goes on in it. -/
theorem setSeg_setWorker (h : LockInv s) {seg : Segment (Message UInt32) (Message UInt32)}
    {t : Worker} (hk : s.worker.holding = some k) (ht : t.holding = some k)
    (hc : t.closing = some k → s.worker.closing = some k) :
    LockInv ((s.setSeg k seg).setWorker t) :=
  h.workerMove (.inl hk) (.inl ⟨ht, h.worker k hk⟩) fun htc => h.closing k (hc htc)

/-- The worker releases the mutex of slot `k`, which it holds. -/
theorem unlock_setWorker (h : LockInv s) {sl : Slot κ} {t : Worker}
    (hk : s.worker.holding = some k) (ht : t.holding = none) :
    LockInv (((s.setSlot k sl).unlock k).setWorker t) := by
  rw [State.unlock, State.setSlot_setSlot]
  refine h.workerMove (.inl hk) (.inr ⟨ht, rfl⟩) fun htc => ?_
  cases ht.symm.trans (Worker.holding_of_closing htc)

theorem drop_setWorker (h : LockInv s) {t : Worker} (hk : s.worker.holding = some k)
    (ht : t.holding = none) : LockInv ((s.unlock k).setWorker t) := by
  rw [← s.setSlot_self k]
  exact h.unlock_setWorker hk ht

/-- The worker goes on in the critical section of slot `k`. -/
theorem stay (h : LockInv s) {t : Worker} (hk : s.worker.holding = some k)
    (ht : t.holding = some k) (hc : t.closing = some k → s.worker.closing = some k) :
    LockInv (s.setWorker t) := by
  rw [← s.setSlot_self k]
  exact h.workerMove (.inl hk) (.inl ⟨ht, h.worker k hk⟩) fun htc => h.closing k (hc htc)

/-- The worker takes the free mutex of slot `k`. -/
theorem lock_setWorker (h : LockInv s) {t : Worker} (hk : (s.slot k).lock = none)
    (ht : t.holding = some k) (hc : t.closing = some k → (s.slot k).connected = false) :
    LockInv ((s.lock k .worker).setWorker t) :=
  h.workerMove (.inr hk) (.inl ⟨ht, rfl⟩) hc

theorem workerStep (h : LockInv s) {cfg : Config ι} {l : Label ι κ}
    (hm : WorkerMove cfg s l s') : LockInv s' := by
  have held {t : Worker} {k : ℕ} (hs : s.worker = t) (ht : t.holding = some k) :
      s.worker.holding = some k := hs ▸ ht
  have closed {t : Worker} {k : ℕ} (hs : s.worker = t) (ht : t.closing = some k) :
      (s.slot k).connected = false := h.closing k (hs ▸ ht)
  cases hm with
  | goes hg => exact h.setWorker hg.holding.2
  | takes hfree ht => exact h.lock_setWorker hfree ht.holding.2 ht.closing
  | drops hd => exact h.drop_setWorker hd.holding.1 hd.holding.2
  | checks hc => exact h.drop_setWorker hc.holding.1 hc.holding.2
  | calls hc => exact .setWorker (h.keepSlot (by rfl) (by rfl)) hc.holding.2
  | consumes => exact h.handleEvent _
  | sees hs =>
    have hk := held hs rfl
    exact h.workerMove (.inl hk) (.inl ⟨rfl, h.worker _ hk⟩) (by rintro ⟨⟩)
  | reclaims hs => exact h.unlock_setWorker (held hs rfl) rfl
  | loads hs => exact h.stay (held hs rfl) rfl (by rintro ⟨⟩)
  | orphans hs =>
    have hk := held hs rfl
    exact h.endSession.workerMove (.inl hk) (.inl ⟨rfl, h.worker _ hk⟩) fun _ => rfl
  | orphanMarks hs | marks hs | marked hs =>
    exact h.setSeg_setWorker (held hs rfl) rfl fun _ => by rw [hs]; rfl
  | orphanMarked hs => exact h.unlock_setWorker (held hs rfl) rfl
  | ackFails hs => exact h.stay (held hs rfl) rfl fun _ => by rw [hs]; rfl
  | @handshakes w k pc seg next hs hpc =>
    have hk := held hs rfl
    have hcon := closed hs rfl
    exact h.workerMove (.inl hk) (.inl ⟨handshakeNext_holding _ _, h.worker _ hk⟩) fun _ => hcon
  | accepts hs | refuses hs =>
    exact h.workerMove (.inl (held hs rfl)) (.inr ⟨rfl, rfl⟩) (by rintro ⟨⟩)
  | receives hs => exact h.setSeg_setWorker (held hs rfl) rfl (by rintro ⟨⟩)
  | ends hs hfree =>
    exact (h.endSession.recordEnd _).workerMove (.inr hfree) (.inl ⟨rfl, rfl⟩) fun _ => rfl
  | clears hs hfree => exact h.workerMove (.inr hfree) (.inl ⟨rfl, rfl⟩) fun _ => rfl
  | releases hs => exact h.unlock_setWorker (held hs rfl) (by split_ifs <;> rfl)

theorem appStep [DecidableEq κ] (h : LockInv s) {a : κ} {w : WaitOutcome}
    (hst : s.appStep a w = some s') : LockInv s' := by
  rw [State.appStep] at hst
  cases hs : s.app a <;> simp only [hs] at hst
  case idle => cases hst
  case setEvent k ended =>
    have hk : (s.app a).holding = some k := by rw [hs]; rfl
    split at hst <;> cases hst <;>
      exact h.appMove (.inl hk) (.inl ⟨rfl, h.app a k hk⟩) (h.disconnecting a k hk)
  case marking k ended pc =>
    have hk : (s.app a).holding = some k := by rw [hs]; rfl
    split at hst <;> cases hst <;>
      exact h.appMove (.inl hk) (.inl ⟨rfl, h.app a k hk⟩) (h.disconnecting a k hk)
  case release k ended =>
    have hk : (s.app a).holding = some k := by rw [hs]; rfl
    cases hst
    rw [State.unlock, State.setSlot_setSlot]
    refine h.appMove (.inl hk) (.inr ⟨rfl, rfl⟩) ?_
    rw [State.setSlot_slot_self]
    exact h.disconnecting a k hk
  case callDisconnect k =>
    cases hst
    exact .setApp (h.keepSlot (by rfl) (by rfl)) a (by rfl)

theorem sameServer (h : LockInv s) (hs : SameServer s s') : LockInv s' :=
  h.congr (fun k => congrArg Prod.fst (hs.slot k))
    (fun k => congrArg (fun p => p.2.1) (hs.slot k)) hs.worker hs.app

theorem step [DecidableEq ι] [DecidableEq κ] (h : LockInv s) {cfg : Config ι} {l : Label ι κ}
    (hst : s.step cfg l = some s') : LockInv s' := by
  cases l <;> simp only [State.step] at hst
  case stop | exit => cases hst; exact h.congr (fun _ => rfl) (fun _ => rfl) rfl rfl
  case tick ms => cases hst; exact h.congr (fun _ => rfl) (fun _ => rfl) rfl rfl
  case worker w => exact h.workerStep (workerStep_move hst)
  case alive b => exact h.workerStep (aliveStep_move cfg hst)
  case disconnectClient a k =>
    split_ifs at hst with hk hc <;> cases hst
    · exact h.endSession.appMove (.inr ⟨by change (s.app a).holding = _; rw [hk.1]; rfl, hk.2.2⟩)
        (.inl ⟨rfl, rfl⟩) rfl
    · exact h
  case app a w => exact h.appStep hst
  case sendTo k p =>
    split_ifs at hst <;> cases hst
    · exact h.keepSlot rfl rfl
    · exact h
  case shutdown c => cases hst; exact h.setClient _ _
  case client c o =>
    split_ifs at hst
    exact h.sameServer (clientStep_sameServer hst)

end LockInv

end Multi

end Xshm
