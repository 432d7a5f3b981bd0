import Xshm.Multi.Locks

/-!
# Disconnect signals and sessions

There is one event `disconnect` for each slot.  `disconnect_client` sets it for the client, every
client sets it when its `SharedClient` is dropped, and nothing clears it but a wait.  A client that
`disconnect_client` has told to leave sets it again, after the slot may have been taken by another.
If a signal is never left over when a session opens, and no client of an earlier session signals
in a later one (`OwnSignal`), then `handle_slot_disconnect` ends a session only on a signal of that
session (`endedBySelf_of_ownSignal`).
-/

namespace Xshm

namespace Multi

variable {ι κ : Type*}

/-- Every session that `handle_slot_disconnect` has ended was ended by an event that had been set
in that session, by its client or by `disconnect_client` for it. -/
def EndedBySelf (s : State ι κ) : Prop := ∀ e ∈ s.ended, e.setBy = e.session

/-- The slot on which the worker is about to open a session. -/
def Worker.opening : Worker → Option ℕ
  | .handshaken k true => some k
  | _ => none

/-- A session opens only if `disconnect` is not signalled, or has been by its own client since its
handshake began; the drop of a `SharedClient` signals `disconnect` only while the slot is not
connected or in the session of that client. -/
def OwnSignal (s : State ι κ) : Label ι κ → Prop
  | .worker _ => ∀ k ∈ s.worker.opening, (s.slot k).seg.disconnect = true →
      (s.slot k).disconnectBy = (s.slot k).answered
  | .client c _ => (s.client c).pc = .dropping .setDisconnect →
      (s.slot (s.client c).slotId).connected = true →
      (s.slot (s.client c).slotId).session.token = (s.client c).token
  | _ => True

/-! ### The invariant -/

/-- What the invariant says of one slot. -/
structure Slot.Signals (sl : Slot κ) : Prop where
  answered : sl.connected = true → sl.answered = sl.session
  signalled : sl.connected = true → sl.seg.disconnect = true → sl.disconnectBy = sl.session

structure SignalInv (s : State ι κ) : Prop where
  slot : ∀ k, (s.slot k).Signals
  consumed : ∀ k e, s.worker = .slotDisconnect k e → (s.slot k).connected = true →
    e = (s.slot k).session
  ended : EndedBySelf s

theorem Slot.Signals.of_disconnected {sl : Slot κ} (h : sl.connected = false) : sl.Signals where
  answered ht := absurd (h.symm.trans ht) Bool.noConfusion
  signalled ht := absurd (h.symm.trans ht) Bool.noConfusion

namespace SignalInv

variable {s s' : State ι κ} {k : ℕ}

theorem init : SignalInv ({} : State ι κ) where
  slot _ := .of_disconnected rfl
  consumed := by rintro _ _ ⟨⟩
  ended := by rintro _ ⟨⟩

/-- Records and threads that the invariant does not speak of. -/
theorem congr (h : SignalInv s) (hsl : s'.slot = s.slot) (hw : s'.worker = s.worker)
    (he : s'.ended = s.ended) : SignalInv s' where
  slot := hsl ▸ h.slot
  consumed := hsl ▸ hw ▸ h.consumed
  ended := fun e hm => h.ended e (he ▸ hm)

/-- A slot changes within its session, or its session ends. -/
theorem setSlot (h : SignalInv s) {sl : Slot κ}
    (hc : sl.connected = true → (s.slot k).connected = true ∧ sl.session = (s.slot k).session)
    (hsl : sl.Signals) : SignalInv (s.setSlot k sl) where
  slot := State.forall_setSlot (P := fun _ sl => sl.Signals) hsl h.slot
  consumed j e he := State.forall_setSlot (P := fun j (sl : Slot κ) =>
    s.worker = .slotDisconnect j e → sl.connected = true → e = sl.session)
      (fun he ht => (h.consumed k e he (hc ht).1).trans (hc ht).2.symm)
      (fun j => h.consumed j e) j he
  ended := h.ended

/-- The session of a slot ends. -/
theorem endSlot (h : SignalInv s) {sl : Slot κ} (hc : sl.connected = false) :
    SignalInv (s.setSlot k sl) :=
  h.setSlot (fun ht => absurd (hc.symm.trans ht) Bool.noConfusion) (.of_disconnected hc)

/-- A slot changes, but not in what the invariant speaks of. -/
theorem keepSlot (h : SignalInv s) {sl : Slot κ}
    (hs : (sl.connected, sl.answered, sl.session, sl.seg.disconnect, sl.disconnectBy) =
      ((s.slot k).connected, (s.slot k).answered, (s.slot k).session, (s.slot k).seg.disconnect,
        (s.slot k).disconnectBy)) :
    SignalInv (s.setSlot k sl) := by
  simp only [Prod.mk.injEq] at hs
  obtain ⟨hc, ha, hse, hd, hb⟩ := hs
  refine h.setSlot (fun ht => ⟨hc ▸ ht, hse⟩) ⟨fun ht => ?_, fun ht htd => ?_⟩
  · rw [ha, hse]
    exact (h.slot k).answered (hc ▸ ht)
  · rw [hb, hse]
    exact (h.slot k).signalled (hc ▸ ht) (hd ▸ htd)

theorem lock (h : SignalInv s) (o : Owner κ) : SignalInv (s.lock k o) := h.keepSlot rfl

theorem unlock (h : SignalInv s) : SignalInv (s.unlock k) := h.keepSlot rfl

theorem call (h : SignalInv s) (e : Callback) : SignalInv (s.call k e) := h.keepSlot rfl

/-- `disconnect` is not set; it may be consumed. -/
theorem setSeg (h : SignalInv s) {seg : Segment (Message UInt32) (Message UInt32)}
    (hd : seg.disconnect = true → (s.slot k).seg.disconnect = true) : SignalInv (s.setSeg k seg) :=
  h.setSlot (fun ht => ⟨ht, rfl⟩)
    ⟨(h.slot k).answered, fun ht htd => (h.slot k).signalled ht (hd htd)⟩

/-- The worker moves, but not to `handle_slot_disconnect`. -/
theorem setWorker (h : SignalInv s) {t : Worker} (ht : ∀ k e, t ≠ .slotDisconnect k e) :
    SignalInv (s.setWorker t) :=
  { h with consumed := fun k e he => absurd he (ht k e) }

theorem setApp [DecidableEq κ] (h : SignalInv s) (a : κ) (t : App) : SignalInv (s.setApp a t) :=
  h.congr rfl rfl rfl

theorem setClient [DecidableEq ι] (h : SignalInv s) (c : ι) (cl : Client) :
    SignalInv (s.setClient c cl) :=
  h.congr rfl rfl rfl

theorem endSession (h : SignalInv s) : SignalInv (s.endSession k) := h.congr rfl rfl rfl

theorem recordEnd (h : SignalInv s) (e : Ended) (he : e.setBy = e.session) :
    SignalInv (s.recordEnd e) :=
  { h with
    ended := fun e' hm => (List.mem_append.1 hm).elim (h.ended e') fun hm => by
      rwa [List.mem_singleton.1 hm] }

theorem reclaim (h : SignalInv s) (claim : UInt32) :
    SignalInv (s.setSlot k ((s.slot k).reclaim s.now claim)) := by
  refine h.keepSlot ?_
  rw [Slot.reclaim]
  split_ifs
  · rfl
  · split
    · rfl
    · split_ifs <;> rfl

/-- A wait consumes a signal; that of `disconnect` belongs to the session, if there is one. -/
theorem handleEvent (h : SignalInv s) {e : EventSource} (he : s.signalled e = true) :
    SignalInv (s.handleEvent e) := by
  cases e with
  | slotConnect k =>
    have hk : SignalInv (s.setSeg k { (s.slot k).seg with connectReq := false }) := h.setSeg id
    exact hk.setWorker (by rintro _ _ ⟨⟩)
  | slotData k =>
    have hk : SignalInv (s.setSlot k { s.slot k with data := false }) := h.keepSlot rfl
    exact hk.setWorker (by rintro _ _ ⟨⟩)
  | slotDisconnect k =>
    have hk : SignalInv (s.setSeg k { (s.slot k).seg with disconnect := false }) := h.setSeg
      Bool.noConfusion
    exact { hk with
      consumed := fun j e hj hc => by
        cases hj
        rw [State.handleEvent, State.setSeg] at hc ⊢
        simp only [State.setWorker, State.setSlot_slot_self] at hc ⊢
        exact (h.slot k).signalled hc he }

theorem workerStep (h : SignalInv s) (hl : LockInv s) {cfg : Config ι} {l : Label ι κ}
    (ho : OwnSignal s l) (hm : WorkerMove cfg s l s') : SignalInv s' := by
  cases hm with
  | goes hg => exact h.setWorker hg.ne_slotDisconnect
  | takes _ ht => exact (h.lock _).setWorker ht.ne_slotDisconnect
  | drops hd => exact h.unlock.setWorker hd.ne_slotDisconnect
  | checks hc => exact h.unlock.setWorker hc.ne_slotDisconnect
  | calls hc => exact (h.call _).setWorker hc.ne_slotDisconnect
  | consumes hs he => exact h.handleEvent (List.find?_some he)
  | @sees w k orphaned claim =>
    have hk : SignalInv (s.setSlot k ((s.slot k).see s.now claim)) := h.keepSlot rfl
    exact hk.setWorker (by rintro _ _ ⟨⟩)
  | reclaims => exact (h.reclaim _).unlock.setWorker (by rintro _ _ ⟨⟩)
  | loads | ackFails => exact h.setWorker (by rintro _ _ ⟨⟩)
  | orphans => exact (h.endSession.endSlot (by rfl)).setWorker (by rintro _ _ ⟨⟩)
  | orphanMarks _ hpc | marks _ hpc | marked _ hpc =>
    have hd := MarkDisconnected.disconnect_of_step _ hpc
    exact (h.setSeg (hd ▸ id)).setWorker (by rintro _ _ ⟨⟩)
  | orphanMarked _ hpc =>
    have hd := MarkDisconnected.disconnect_of_step _ hpc
    exact (h.setSeg (hd ▸ id)).unlock.setWorker (by rintro _ _ ⟨⟩)
  | @handshakes w k pc seg next hs =>
    -- a handshake begins and goes on while the slot is not connected
    have hk : (s.slot k).connected = false := hl.closing k (by rw [hs]; rfl)
    refine (h.endSlot (by exact hk)).setWorker ?_
    rcases next with pc' | (e | u) <;> rintro _ _ ⟨⟩
  | @accepts w k hs =>
    have hd := ho k (by rw [hs]; rfl)
    have hw : SignalInv (s.setWorker (.callConnect k)) := h.setWorker (by rintro _ _ ⟨⟩)
    exact { hw with
      slot := State.forall_setSlot (P := fun _ sl => sl.Signals) ⟨fun _ => rfl, fun _ => hd⟩
        h.slot
      consumed := by rintro _ _ ⟨⟩ }
  | refuses => exact (h.keepSlot (by rfl)).setWorker (by rintro _ _ ⟨⟩)
  | @receives w k left m messages rest =>
    have hk : SignalInv (s.setSeg k { (s.slot k).seg with ringB := rest }) := h.setSeg id
    exact hk.setWorker (by rintro _ _ ⟨⟩)
  | @ends w k setBy hs _ hcon =>
    have he := (h.endSession (k := k)).recordEnd ⟨k, _, _⟩ (h.consumed k setBy hs hcon)
    exact (he.endSlot (by rfl)).setWorker (by rintro _ _ ⟨⟩)
  | clears => exact (h.endSlot (by rfl)).setWorker (by rintro _ _ ⟨⟩)
  | @releases w k ended =>
    have hk : SignalInv (s.setSlot k (s.slot k).releaseSlotClaim) := h.keepSlot rfl
    exact hk.unlock.setWorker (by split_ifs <;> rintro _ _ ⟨⟩)

theorem appStep [DecidableEq κ] (h : SignalInv s) (hl : LockInv s) {a : κ} {w : WaitOutcome}
    (hst : s.appStep a w = some s') : SignalInv s' := by
  rw [State.appStep] at hst
  cases hs : s.app a <;> simp only [hs] at hst
  case idle => cases hst
  case setEvent k ended =>
    -- the signal is for the session that has just ended
    have hk := hl.disconnecting a k (by rw [hs]; rfl)
    split at hst <;> cases hst <;> exact (h.endSlot (by exact hk)).setApp a _
  case marking k ended pc =>
    have hd := pc.step_disconnect (s.slot k).seg
    split at hst <;> rename_i hn <;> rw [hn] at hd <;> cases hst <;>
      exact (h.setSeg (hd ▸ id)).setApp a _
  case release k ended =>
    cases hst
    have hk : SignalInv (s.setSlot k (s.slot k).releaseSlotClaim) := h.keepSlot rfl
    exact hk.unlock.setApp a _
  case callDisconnect k =>
    cases hst
    exact (h.call _).setApp a _

theorem connectStep [DecidableEq ι] (h : SignalInv s) {c : ι} {pc : Connect} {w : WaitOutcome}
    (hst : s.connectStep c pc w = some s') : SignalInv s' := by
  rw [State.connectStep] at hst
  split_ifs at hst
  · cases hst
    exact h.setClient c _
  · obtain ⟨⟨seg, next⟩, hpc, rfl⟩ := Option.map_eq_some_iff.1 hst
    obtain ⟨-, -, hd, -, -⟩ := pc.step_frame _ hpc
    simp only at hd
    exact (h.keepSlot (by simp only [hd])).setClient c _

theorem clientStep [DecidableEq ι] (h : SignalInv s) {cfg : Config ι} {c : ι} {o : Outcome}
    (ho : OwnSignal s (.client c o)) (hst : s.clientStep cfg c o = some s') : SignalInv s' := by
  simp only [State.clientStep] at hst
  cases hpc : (s.client c).pc <;> simp only [hpc] at hst
  case head =>
    split_ifs at hst
    · cases hst
      exact h.setClient c _
    · cases o <;> simp only [reduceCtorEq] at hst
      split_ifs at hst
      cases hst
      exact h.congr rfl rfl rfl
  case claim =>
    split_ifs at hst <;> cases hst
    · exact (SignalInv.keepSlot (h.congr (by rfl) (by rfl) (by rfl)) (by rfl)).setClient c _
    · exact h.setClient c _
    · exact h.setClient c _
  case connecting pc =>
    cases o <;> simp only [reduceCtorEq] at hst
    exact h.connectStep hst
  case transfer =>
    cases o <;> simp only [reduceCtorEq] at hst <;> cases hst
    · exact (h.setSeg (by exact id)).setClient c _
    · exact h.setSeg id
    · exact h.setClient c _
  case waitAny =>
    cases o with
    | any r =>
      cases r <;> simp only at hst
      case disconnect =>
        split_ifs at hst
        cases hst
        exact (h.setSeg (by exact Bool.noConfusion)).setClient c _
      case other =>
        split_ifs at hst
        cases hst
        exact h.setClient c _
      case failed =>
        cases hst
        exact h.setClient c _
    | _ => cases hst
  case dropping pc =>
    have hk := h.slot (s.client c).slotId
    cases pc <;> cases hst
    case setDisconnect =>
      -- in a session the client is its own
      refine .setClient (h.setSlot ?_ ⟨?_, ?_⟩) c _
      · exact fun ht => ⟨ht, rfl⟩
      · exact hk.answered
      · intro ht _
        change SlotSession.mk _ _ = (s.slot (s.client c).slotId).session
        rw [hk.answered ht, ← ho hpc ht]
    all_goals exact (h.keepSlot (by rfl)).setClient c _
  case release =>
    cases hst
    exact (h.keepSlot (by split_ifs <;> rfl)).setClient c _
  case storePid | setData =>
    cases hst
    exact (h.keepSlot (by rfl)).setClient c _
  case connected | delay =>
    cases hst
    exact h.setClient c _
  case ended => cases hst

theorem step [DecidableEq ι] [DecidableEq κ] (h : SignalInv s) (hl : LockInv s) {cfg : Config ι}
    {l : Label ι κ} (ho : OwnSignal s l) (hst : s.step cfg l = some s') : SignalInv s' := by
  cases l <;> simp only [State.step] at hst
  case stop | exit => cases hst; exact h.congr rfl rfl rfl
  case tick ms => cases hst; exact h.congr rfl rfl rfl
  case worker w => exact h.workerStep hl ho (workerStep_move hst)
  case alive b => exact h.workerStep hl ho (aliveStep_move cfg hst)
  case disconnectClient a k =>
    split_ifs at hst <;> cases hst
    · exact (h.endSession.endSlot (by rfl)).setApp a _
    · exact h
  case app a w => exact h.appStep hl hst
  case sendTo k p =>
    split_ifs at hst <;> cases hst
    · exact h.setSeg id
    · exact h
  case shutdown c => cases hst; exact h.setClient c _
  case client c o =>
    split_ifs at hst
    exact h.clientStep ho hst

end SignalInv

instance (s : State ι κ) (l : Label ι κ) : Decidable (OwnSignal s l) :=
  match l with
  | .worker _ => inferInstanceAs (Decidable (∀ k ∈ s.worker.opening, _ → _))
  | .client _ _ => inferInstanceAs (Decidable (_ → _ → _))
  | .stop | .tick _ | .exit _ | .alive _ | .disconnectClient _ _ | .app _ _ | .sendTo _ _
  | .shutdown _ => isTrue trivial

/-- **A disconnect signal ends only its own session.**  If a session opens only without a signal
left over from before, and clients signal only outside the sessions of others, then every session
that `handle_slot_disconnect` ends was ended by an event that its own client, or
`disconnect_client` for it, had set in that session. -/
theorem endedBySelf_of_ownSignal [DecidableEq ι] [DecidableEq κ] {cfg : Config ι}
    {s : State ι κ} (h : (system κ cfg).ReachWhen OwnSignal s) : EndedBySelf s :=
  (h.invariant (I := fun s => LockInv s ∧ SignalInv s)
    (fun s (h₀ : s = {}) => h₀ ▸ ⟨LockInv.init, SignalInv.init⟩)
    fun _ _ _ hi ho hst => ⟨hi.1.step hst, hi.2.step hi.1 ho hst⟩).2.ended

/-- `disconnect_client` ends a session; its client consumes the signal and sets it again. -/
def disconnectTwice : List (Label Unit Unit) :=
  .disconnectClient () 0 :: List.replicate 7 (.app () .signalled) ++
    List.replicate 2 (.client () .proceed) ++ .client () (.any .disconnect) ::
      List.replicate 6 (.client () .proceed)

theorem endedBySelf_of_ownSignal_nextSession : ∃ s : State Bool Unit,
    EndedBySelf s ∧ s.ended = [⟨0, ⟨1, 5⟩, ⟨1, 5⟩⟩, ⟨0, ⟨2, 6⟩, ⟨2, 6⟩⟩] := by
  obtain ⟨s, h, hs⟩ := System.exists_reachWhen (A := system Unit (oneSlot Bool)) (C := OwnSignal)
    (s := {}) (r := nextSession false true 5 6 ++ connectedPass ++ leave true ++ work 8)
    (f := State.ended) (t := [⟨0, ⟨1, 5⟩, ⟨1, 5⟩⟩, ⟨0, ⟨2, 6⟩, ⟨2, 6⟩⟩]) rfl (by decide +kernel)
  exact ⟨s, endedBySelf_of_ownSignal h, hs⟩

/-- The signal that a client sets when it leaves after `disconnect_client` ends its next session. -/
theorem not_endedBySelf : ¬ ∀ (ι κ : Type) [DecidableEq ι] [DecidableEq κ] (cfg : Config ι)
    (s : State ι κ), (system κ cfg).Reach s → EndedBySelf s := by
  intro h
  obtain ⟨s, hr, hs⟩ := System.exists_reachWhen (A := system Unit (oneSlot Unit))
    (C := fun _ _ => True) (s := {})
    (r := openSession () 5 ++ disconnectTwice ++ openSession () 6 ++ connectedPass ++ work 2)
    (f := State.ended) (t := [⟨0, ⟨2, 6⟩, ⟨1, 5⟩⟩]) rfl (by decide +kernel)
  have := h Unit Unit _ s hr ⟨0, ⟨2, 6⟩, ⟨1, 5⟩⟩ (by rw [hs]; exact List.mem_singleton_self _)
  simp at this

end Multi

end Xshm
