import Xshm.Multi.Tokens

/-!
# What a step does to a session

The event `disconnect` of a slot is set by `disconnect_client` and by every client that leaves, and
consumed by the worker and by the clients.  `SlotMove` lists what one step can do to the session and
the event of a slot, with what is known of the thread that does it (`step_slotMove`), and
`ThreadsMove` and `ClientsMove` what it can do to the threads and to the clients.
-/

namespace Xshm

namespace Multi

variable {ι κ : Type*}

/-- The session of a slot, its event `disconnect`, and the records about them. -/
structure SlotView where
  connected : Bool
  signalled : Bool
  hello : UInt32
  answered : SlotSession
  session : SlotSession
  disconnectBy : SlotSession

def Slot.view (sl : Slot κ) : SlotView :=
  ⟨sl.connected, sl.seg.disconnect, sl.hello, sl.answered, sl.session, sl.disconnectBy⟩

/-- The client has stored `CLIENT_HELLO` and is on its way into its data loop, or in it. -/
def ClientPc.bound : ClientPc → Bool
  | .connecting pc => !pc.hellos
  | .connected | .transfer | .setData | .waitAny => true
  | _ => false

/-- The client has a token and has not stored `CLIENT_HELLO`. -/
def ClientPc.silent : ClientPc → Bool
  | .claim | .storePid => true
  | .connecting pc => pc.hellos
  | _ => false

/-- The client is bound to slot `k`. -/
def Client.Bound (cl : Client) (k : ℕ) : Prop := cl.slotId = k ∧ cl.pc.bound = true

/-- Why the session of slot `k` ends in a step to `s'`. -/
inductive Ending (s s' : State ι κ) (k : ℕ) : Label ι κ → Prop
  | disconnectClient {a : κ} : (s.slot k).lock = none →
      s'.app a = .setEvent k (s.slot k).session → Ending s s' k (.disconnectClient a k)
  | slotDisconnect {w : WaitOutcome} {e : SlotSession} :
      s.worker = .slotDisconnect k e → Ending s s' k (.worker w)
  | orphaned {w : WaitOutcome} {expected : UInt32} {orphaned : List (ℕ × UInt32)} :
      s.worker = .orphanCas k expected orphaned → (s.slot k).claim = expected →
      Ending s s' k (.worker w)

/-- What a step can do to the session of slot `k`. -/
inductive SlotMove (s s' : State ι κ) (k : ℕ) : Label ι κ → SlotView → Prop
  | quiet {l : Label ι κ} : SlotMove s s' k l (s.slot k).view
  | answers {w : WaitOutcome} {e : SlotSession} : e.token = (s.slot k).hello →
      SlotMove s s' k (.worker w) { (s.slot k).view with answered := e }
  | opens {w : WaitOutcome} : s.worker = .handshaken k true →
      SlotMove s s' k (.worker w)
        { (s.slot k).view with connected := true, session := (s.slot k).answered }
  | ends {l : Label ι κ} : (s.slot k).connected = true → Ending s s' k l →
      SlotMove s s' k l { (s.slot k).view with connected := false }
  /-- `disconnect_client` sets `disconnect`. -/
  | informs {a : κ} {w : WaitOutcome} {e : SlotSession} : s.app a = .setEvent k e →
      w.isFailed = false → SlotMove s s' k (.app a w)
        { (s.slot k).view with signalled := true, disconnectBy := e }
  /-- `wait_any` of the worker consumes it. -/
  | taken {handles : List EventSource} : s.worker = .waitAny handles →
      handles.find? s.signalled = some (.slotDisconnect k) →
      SlotMove s s' k (.worker .signalled) { (s.slot k).view with signalled := false }
  /-- `wait_any` of a client consumes it. -/
  | takenBy {c : ι} : (s.client c).pc = .waitAny → (s.client c).slotId = k →
      (s'.client c).pc.bound = false →
      SlotMove s s' k (.client c (.any .disconnect)) { (s.slot k).view with signalled := false }
  /-- The drop of a `SharedClient` sets it. -/
  | leaves {c : ι} {o : Outcome} {n : ℕ} : (s.client c).pc = .dropping .setDisconnect →
      (s.client c).slotId = k → SlotMove s s' k (.client c o)
        { (s.slot k).view with signalled := true, disconnectBy := ⟨n, (s.client c).token⟩ }
  | hellos {c : ι} {o : Outcome} : (s.client c).pc = .connecting .storeClient →
      (s.client c).slotId = k → (s'.client c).pc.silent = false →
      SlotMove s s' k (.client c o) { (s.slot k).view with hello := (s.client c).token }

/-- What a step can do to the threads that are at work on slot `k`. -/
structure ThreadsMove (s s' : State ι κ) (k : ℕ) (l : Label ι κ) : Prop where
  /-- A thread in `disconnect_client` goes on by its own steps. -/
  leaving : ∀ a e, s.app a = .setEvent k e → s'.app a = .setEvent k e ∨ ∃ w, l = .app a w
  entering : ∀ a e, s'.app a = .setEvent k e → s.app a = .setEvent k e ∨
    (s.slot k).connected = true ∧ (s'.slot k).connected = false ∧ e = (s.slot k).session
  /-- The worker comes to `handle_slot_disconnect` by a signal. -/
  draining : ∀ e, s'.worker = .slotDisconnect k e → s.worker = .slotDisconnect k e ∨
    (∃ handles, s.worker = .waitAny handles) ∧ (s.slot k).seg.disconnect = true

/-- What a step can do to the clients. -/
structure ClientMoves (s s' : State ι κ) (c : ι) : Prop where
  bound : ∀ k, (s'.client c).Bound k → (s'.client c).token = (s.client c).token ∧
    ((s.client c).Bound k ∨
      (s.client c).pc = .connecting .storeClient ∧ (s.client c).slotId = k)
  silent : (s'.client c).pc.silent = true →
    (s'.client c).token = (s.client c).token ∧ (s.client c).pc.silent = true ∨
      (s'.client c).token ≠ claimFree ∧ (s'.client c).token ∉ s.used

/-! ### The slots -/

/-- No session and no event `disconnect` changes. -/
def SameView (s s' : State ι κ) : Prop := ∀ k, (s'.slot k).view = (s.slot k).view

namespace SameView

variable {s s' : State ι κ} {k : ℕ}

theorem refl : SameView s s := fun _ => rfl

theorem of_slot (h : s'.slot = s.slot) : SameView s s' := fun k => by rw [h]

theorem setSlot (h : SameView s s') {sl : Slot κ} (hk : sl.view = (s.slot k).view) :
    SameView s (s'.setSlot k sl) :=
  State.forall_setSlot (P := fun j (sl : Slot κ) => sl.view = (s.slot j).view) hk h

theorem setWorker (h : SameView s s') (t : Worker) : SameView s (s'.setWorker t) := h

theorem setApp [DecidableEq κ] (h : SameView s s') (a : κ) (t : App) :
    SameView s (s'.setApp a t) := h

theorem setClient [DecidableEq ι] (h : SameView s s') (c : ι) (cl : Client) :
    SameView s (s'.setClient c cl) := h

theorem lock (h : SameView s s') (o : Owner κ) : SameView s (s'.lock k o) := h.setSlot (h k)

theorem unlock (h : SameView s s') : SameView s (s'.unlock k) := h.setSlot (h k)

theorem call (h : SameView s s') (e : Callback) : SameView s (s'.call k e) := h.setSlot (h k)

/-- The rings and the states of a handshake change. -/
theorem setSeg (h : SameView s s') {seg : Segment (Message UInt32) (Message UInt32)}
    (hd : seg.disconnect = (s'.slot k).seg.disconnect) : SameView s (s'.setSeg k seg) := by
  refine h.setSlot (Eq.trans ?_ (h k))
  rw [Slot.view, hd]
  rfl

theorem move (h : SameView s s') (l : Label ι κ) (k : ℕ) :
    SlotMove s s' k l (s'.slot k).view := by
  rw [h k]
  exact .quiet

end SameView

/-- One slot changes. -/
theorem SlotMove.of_setSlot {s s' : State ι κ} {l : Label ι κ} {j : ℕ} {sl : Slot κ}
    (hs : ∀ k, s'.slot k = (s.setSlot j sl).slot k) (hj : SlotMove s s' j l sl.view) (k : ℕ) :
    SlotMove s s' k l (s'.slot k).view := by
  rw [hs]
  by_cases hk : k = j
  · subst hk
    rw [State.setSlot_slot_self]
    exact hj
  · rw [State.setSlot_slot_of_ne s hk]
    exact .quiet

section Server

variable {s s' : State ι κ}

/-- `reclaim_stale_claims` looks after the claim alone. -/
theorem Slot.view_reclaim (sl : Slot κ) (now : ℕ) (claim : UInt32) :
    (sl.reclaim now claim).view = sl.view := by
  rw [Slot.reclaim]
  split_ifs
  · rfl
  · split
    · rfl
    · split_ifs <;> rfl

theorem WorkerMove.slotMove {cfg : Config ι} {l : Label ι κ} (hm : WorkerMove cfg s l s') :
    ∀ k, SlotMove s s' k l (s'.slot k).view := by
  have h : SameView s s := .refl
  cases hm with
  | goes | loads | ackFails => exact (h.setWorker _).move _
  | takes => exact ((h.lock _).setWorker _).move _
  | drops | checks => exact (h.unlock.setWorker _).move _
  | calls => exact ((h.call _).setWorker _).move _
  | @consumes _ e hs he =>
    cases e with
    | slotConnect k => exact SameView.move (SameView.setWorker (h.setSeg (by rfl)) _) _
    | slotData k => exact SameView.move (SameView.setWorker (h.setSlot (by rfl)) _) _
    | slotDisconnect k => exact SlotMove.of_setSlot (fun _ => rfl) (.taken hs he)
  | sees => exact SameView.move (SameView.setWorker (h.setSlot (by rfl)) _) _
  | reclaims => exact (h.setSlot (Slot.view_reclaim ..)).unlock.setWorker _ |>.move _
  | @orphans w k expected orphaned hs hcas =>
    refine SlotMove.of_setSlot (fun _ => rfl) ?_
    by_cases hcon : (s.slot k).connected = true
    · exact .ends hcon (.orphaned hs hcas)
    · rw [Slot.view, show (s.slot k).releaseSlotClaim.close.connected = (s.slot k).connected from
        (Bool.eq_false_iff.2 hcon).symm]
      exact .quiet
  | orphanMarks _ hpc | marks _ hpc | marked _ hpc =>
    exact ((h.setSeg (MarkDisconnected.disconnect_of_step _ hpc)).setWorker _).move _
  | orphanMarked _ hpc =>
    exact ((h.setSeg (MarkDisconnected.disconnect_of_step _ hpc)).unlock.setWorker _).move _
  | @handshakes w k pc seg next hs hpc =>
    have hd := pc.step_disconnect _ hpc
    dsimp only at hd
    refine SlotMove.of_setSlot (fun _ => rfl) ?_
    rw [Slot.view, hd, Slot.answering]
    split_ifs
    · exact .answers rfl
    · exact .quiet
  | accepts hs => exact SlotMove.of_setSlot (fun _ => rfl) (.opens hs)
  | refuses => exact SameView.move (SameView.setWorker (h.setSlot (by rfl)) _) _
  | receives => exact SameView.move (SameView.setWorker (h.setSeg (by rfl)) _) _
  | ends hs _ hcon => exact SlotMove.of_setSlot (fun _ => rfl) (.ends hcon (.slotDisconnect hs))
  | @clears w k setBy hs _ hcon =>
    refine SlotMove.of_setSlot (fun _ => rfl) ?_
    rw [Slot.view, show ({ (s.slot k).close with lock := some .worker } : Slot κ).connected =
      (s.slot k).connected from hcon.symm]
    exact .quiet
  | releases => exact SameView.move (SameView.setWorker (SameView.unlock (h.setSlot (by rfl))) _) _

theorem appStep_slotMove [DecidableEq κ] {a : κ} {w : WaitOutcome}
    (hst : s.appStep a w = some s') :
    ∀ k, SlotMove s s' k (.app a w : Label ι κ) (s'.slot k).view := by
  have h : SameView s s := .refl
  rw [State.appStep] at hst
  cases hs : s.app a <;> simp only [hs] at hst
  case idle => cases hst
  case setEvent k e =>
    cases w with
    | failed =>
      cases hst
      exact SameView.move (SameView.setApp (h.setSlot (by rfl)) a _) _
    | _ =>
      cases hst
      exact SlotMove.of_setSlot (fun _ => rfl) (.informs hs rfl)
  case marking k e pc =>
    have hd := pc.step_disconnect (s.slot k).seg
    split at hst <;> rename_i hn <;> rw [hn] at hd <;> cases hst <;>
      exact ((h.setSeg hd).setApp a _).move _
  case release =>
    cases hst
    exact SameView.move (SameView.setApp (SameView.unlock (h.setSlot (by rfl))) a _) _
  case callDisconnect =>
    cases hst
    exact ((h.call _).setApp a _).move _

end Server

section Client

variable [DecidableEq ι] {s s' : State ι κ} {c : ι}

theorem connectStep_slotMove {pc : Connect} {w : WaitOutcome}
    (hs : (s.client c).pc = .connecting pc) (hst : s.connectStep c pc w = some s') :
    ∀ k, SlotMove s s' k (.client c (.wait w) : Label ι κ) (s'.slot k).view := by
  rw [State.connectStep] at hst
  split_ifs at hst
  · cases hst
    exact (SameView.refl.setClient c _).move _
  · obtain ⟨⟨seg, next⟩, hpc, rfl⟩ := Option.map_eq_some_iff.1 hst
    obtain ⟨-, -, hd, -, -⟩ := pc.step_frame _ hpc
    dsimp only at hd
    refine SlotMove.of_setSlot (fun _ => rfl) ?_
    rw [Slot.view, hd, Slot.helloBy]
    by_cases hh : pc.hellos = true
    · rw [if_pos hh]
      cases pc with
      | storeClient =>
        cases hpc
        refine .hellos hs rfl ?_
        simp [State.setClient, ClientPc.silent, Connect.hellos]
      | _ => cases hh
    · rw [if_neg hh]
      exact .quiet

theorem clientStep_slotMove {cfg : Config ι} {o : Outcome}
    (hst : s.clientStep cfg c o = some s') :
    ∀ k, SlotMove s s' k (.client c o : Label ι κ) (s'.slot k).view := by
  have h : SameView s s := .refl
  simp only [State.clientStep] at hst
  cases hpc : (s.client c).pc <;> simp only [hpc] at hst
  case head =>
    split_ifs at hst
    · cases hst
      exact (h.setClient c _).move _
    · cases o <;> simp only [reduceCtorEq] at hst
      split_ifs at hst
      cases hst
      exact SameView.move (.of_slot (by rfl)) _
  case claim =>
    split_ifs at hst <;> cases hst
    · exact SlotMove.of_setSlot (fun _ => rfl) .quiet
    · exact (h.setClient c _).move _
    · exact (h.setClient c _).move _
  case connecting pc =>
    cases o <;> simp only [reduceCtorEq] at hst
    exact connectStep_slotMove hpc hst
  case transfer =>
    cases o <;> simp only [reduceCtorEq] at hst <;> cases hst
    · exact SameView.move (SameView.setClient (h.setSeg (by rfl)) c _) _
    · exact SameView.move (h.setSeg (by rfl)) _
    · exact (h.setClient c _).move _
  case waitAny =>
    cases o with
    | any r =>
      cases r <;> simp only at hst
      case disconnect =>
        split_ifs at hst
        cases hst
        refine SlotMove.of_setSlot (fun _ => rfl) (.takenBy hpc rfl ?_)
        simp [State.setClient, ClientPc.bound]
      case other =>
        split_ifs at hst
        cases hst
        exact (h.setClient c _).move _
      case failed =>
        cases hst
        exact (h.setClient c _).move _
    | _ => cases hst
  case dropping pc =>
    cases pc <;> cases hst
    case setDisconnect => exact SlotMove.of_setSlot (fun _ => rfl) (.leaves hpc rfl)
    all_goals exact SameView.move (SameView.setClient (h.setSlot (by rfl)) c _) _
  case release =>
    cases hst
    exact SameView.move (SameView.setClient (h.setSlot (by split_ifs <;> rfl)) c _) _
  case storePid | setData =>
    cases hst
    exact SameView.move (SameView.setClient (h.setSlot (by rfl)) c _) _
  case connected | delay =>
    cases hst
    exact (h.setClient c _).move _
  case ended => cases hst

end Client

/-- What a step can do to the session and the event `disconnect` of a slot. -/
theorem step_slotMove [DecidableEq ι] [DecidableEq κ] {cfg : Config ι} {s s' : State ι κ}
    {l : Label ι κ} (hst : s.step cfg l = some s') :
    ∀ k, SlotMove s s' k l (s'.slot k).view := by
  have h : SameView s s := .refl
  cases l <;> simp only [State.step] at hst
  case stop | exit | tick =>
    cases hst
    exact SameView.move (.of_slot (by rfl)) _
  case shutdown c =>
    cases hst
    exact (h.setClient c _).move _
  case worker w => exact (workerStep_move hst).slotMove
  case alive b => exact (aliveStep_move cfg hst).slotMove
  case disconnectClient a k =>
    split_ifs at hst with hk hc <;> cases hst
    · refine SlotMove.of_setSlot (fun _ => rfl) (.ends hc (.disconnectClient hk.2.2 ?_))
      simp [State.setApp]
    · exact h.move _
  case app a w => exact appStep_slotMove hst
  case sendTo k p =>
    split_ifs at hst <;> cases hst
    · exact SameView.move (h.setSeg (by rfl)) _
    · exact h.move _
  case client c o =>
    split_ifs at hst
    exact clientStep_slotMove hst

/-! ### The threads and the clients -/

section Threads

variable {s s' : State ι κ} {k : ℕ}

/-- The threads stay, and the worker does not come to `handle_slot_disconnect`. -/
theorem ThreadsMove.of_worker {l : Label ι κ} (ha : s'.app = s.app)
    (hw : ∀ e, s'.worker ≠ .slotDisconnect k e) : ThreadsMove s s' k l where
  leaving _ _ hae := .inl (ha ▸ hae)
  entering _ _ hae := .inl (ha ▸ hae)
  draining e he := absurd he (hw e)

/-- The threads stay. -/
theorem ThreadsMove.of_same {l : Label ι κ} (ha : s'.app = s.app) (hw : s'.worker = s.worker) :
    ThreadsMove s s' k l where
  leaving _ _ hae := .inl (ha ▸ hae)
  entering _ _ hae := .inl (ha ▸ hae)
  draining _ he := .inl (hw ▸ he)

/-- A thread in `disconnect_client` goes on. -/
theorem ThreadsMove.of_app [DecidableEq κ] {a : κ} {w : WaitOutcome} {t : App}
    (ha : s'.app = Function.update s.app a t) (ht : ∀ e, t ≠ .setEvent k e)
    (hw : s'.worker = s.worker) : ThreadsMove s s' k (.app a w : Label ι κ) where
  leaving b e hbe := by
    by_cases hb : b = a
    · subst hb
      exact .inr ⟨w, rfl⟩
    · rw [ha, Function.update_of_ne hb]
      exact .inl hbe
  entering b e hbe := by
    rw [ha] at hbe
    by_cases hb : b = a
    · subst hb
      rw [Function.update_self] at hbe
      exact absurd hbe (ht e)
    · rw [Function.update_of_ne hb] at hbe
      exact .inl hbe
  draining e he := .inl (hw ▸ he)

theorem WorkerMove.threadsMove {cfg : Config ι} {l : Label ι κ} (hm : WorkerMove cfg s l s') :
    ThreadsMove s s' k l := by
  cases hm with
  | goes hg => exact .of_worker rfl (hg.ne_slotDisconnect k)
  | takes _ ht => exact .of_worker rfl (ht.ne_slotDisconnect k)
  | drops hd => exact .of_worker rfl (hd.ne_slotDisconnect k)
  | checks hc => exact .of_worker rfl (hc.ne_slotDisconnect k)
  | calls hc => exact .of_worker rfl (hc.ne_slotDisconnect k)
  | @consumes handles e hs he =>
    have happ : (s.handleEvent e).app = s.app := by cases e <;> rfl
    refine ⟨fun a x hx => .inl ?_, fun a x hx => .inl ?_, fun x hx => .inr ⟨⟨_, hs⟩, ?_⟩⟩
    · rwa [happ]
    · rwa [happ] at hx
    · cases e with
      | slotConnect | slotData => cases hx
      | slotDisconnect j =>
        cases hx
        exact (List.find?_some he :)
  | @handshakes w j pc seg next =>
    rcases next with pc' | (e | u) <;> exact .of_worker rfl (by rintro _ ⟨⟩)
  | releases =>
    exact .of_worker rfl (by dsimp only [State.setWorker]; split_ifs <;> rintro _ ⟨⟩)
  | _ => exact .of_worker rfl (by rintro _ ⟨⟩)

theorem step_threadsMove [DecidableEq ι] [DecidableEq κ] {cfg : Config ι} {l : Label ι κ}
    (hst : s.step cfg l = some s') (k : ℕ) : ThreadsMove s s' k l := by
  cases l <;> simp only [State.step] at hst
  case stop | exit | tick | shutdown =>
    cases hst
    exact .of_same rfl rfl
  case worker w => exact (workerStep_move hst).threadsMove
  case alive b => exact (aliveStep_move cfg hst).threadsMove
  case disconnectClient a j =>
    split_ifs at hst with hj hc <;> cases hst
    · refine ⟨fun b e hbe => .inl ?_, fun b e hbe => ?_, fun e he => .inl he⟩
      · have hb : b ≠ a := fun hba => by rw [hba, hj.1] at hbe; cases hbe
        exact (Function.update_of_ne hb _ _).trans hbe
      · by_cases hb : b = a
        · subst hb
          simp only [State.setApp, Function.update_self] at hbe
          cases hbe
          refine .inr ⟨hc, ?_, rfl⟩
          simp [State.setApp, Slot.disconnect]
        · simp only [State.setApp, Function.update_of_ne hb] at hbe
          exact .inl hbe
    · exact .of_same rfl rfl
  case app a w =>
    rw [State.appStep] at hst
    cases hs : s.app a <;> simp only [hs] at hst
    case idle => cases hst
    case setEvent | marking =>
      split at hst <;> cases hst <;> exact .of_app rfl (by rintro _ ⟨⟩) rfl
    case release | callDisconnect =>
      cases hst
      exact .of_app rfl (by rintro _ ⟨⟩) rfl
  case sendTo j p =>
    split_ifs at hst <;> cases hst
    · exact .of_same rfl rfl
    · exact .of_same rfl rfl
  case client c o =>
    split_ifs at hst
    have hs := clientStep_sameServer hst
    exact .of_same hs.app hs.worker

end Threads

section Clients

variable {cfg : Config ι} {s s' : State ι κ} {l : Label ι κ} {c : ι}

/-- A client that does not move. -/
theorem ClientMoves.of_core (h : (s'.client c).core = (s.client c).core) :
    ClientMoves s s' c := by
  simp only [Client.core, Prod.mk.injEq] at h
  obtain ⟨hpc, hid, htok, -⟩ := h
  refine ⟨fun k hk => ⟨htok, .inl ?_⟩, fun hs => .inl ⟨htok, ?_⟩⟩
  · rwa [Client.Bound, hpc, hid] at hk
  · rwa [hpc] at hs

variable [DecidableEq ι]

/-- A client goes on with its token. -/
theorem ClientMoves.of_setClient {cl : Client} (hs : s'.client = Function.update s.client c cl)
    (ht : cl.token = (s.client c).token)
    (hb : cl.pc.bound = true → cl.slotId = (s.client c).slotId ∧
      ((s.client c).pc.bound = true ∨ (s.client c).pc = .connecting .storeClient))
    (hsil : cl.pc.silent = true → (s.client c).pc.silent = true) : ClientMoves s s' c := by
  have hc : s'.client c = cl := by rw [hs, Function.update_self]
  refine ⟨fun k hk => ?_, fun h => .inl ⟨hc ▸ ht, hsil (hc ▸ h)⟩⟩
  rw [hc] at hk ⊢
  obtain ⟨hid, hbound⟩ := hb hk.2
  exact ⟨ht, hbound.imp (fun h => ⟨hid.symm.trans hk.1, h⟩) fun h => ⟨h, hid.symm.trans hk.1⟩⟩

/-- The client leaves, or does not get in. -/
theorem ClientMoves.of_leaver {cl : Client} (hs : s'.client = Function.update s.client c cl)
    (ht : cl.token = (s.client c).token) (hb : cl.pc.bound = false) (hsil : cl.pc.silent = false) :
    ClientMoves s s' c :=
  .of_setClient hs ht (fun h => by rw [hb] at h; cases h) fun h => by rw [hsil] at h; cases h

/-- A client that is bound stays so. -/
theorem ClientMoves.of_bound {cl : Client} (hs : s'.client = Function.update s.client c cl)
    (ht : cl.token = (s.client c).token) (hid : cl.slotId = (s.client c).slotId)
    (hb : (s.client c).pc.bound = true) (hsil : cl.pc.silent = false) : ClientMoves s s' c :=
  .of_setClient hs ht (fun _ => ⟨hid, .inl hb⟩) fun h => by rw [hsil] at h; cases h

omit [DecidableEq ι] in
theorem ClientPc.bound_or_storeClient (pc : Connect) :
    (ClientPc.connecting pc).bound = true ∨ ClientPc.connecting pc = .connecting .storeClient := by
  cases pc <;> simp [ClientPc.bound, Connect.hellos]

theorem connectStep_clientMoves {pc : Connect} {w : WaitOutcome}
    (hs : (s.client c).pc = .connecting pc) (hst : s.connectStep c pc w = some s') :
    ClientMoves s s' c := by
  rw [State.connectStep] at hst
  split_ifs at hst
  · cases hst
    exact .of_leaver rfl rfl rfl rfl
  · obtain ⟨⟨seg, next⟩, hpc, rfl⟩ := Option.map_eq_some_iff.1 hst
    have hb := ClientPc.bound_or_storeClient pc
    rw [← hs] at hb
    rcases next with pc' | (e | u)
    · refine .of_setClient rfl rfl (fun _ => ⟨rfl, hb⟩) fun h => ?_
      have hne : pc'.hellos = false := pc.step_not_hellos _ hpc
      rw [ClientPc.silent, hne] at h
      cases h
    · exact .of_leaver rfl rfl rfl rfl
    · exact .of_setClient rfl rfl (fun _ => ⟨rfl, hb⟩) (by rintro ⟨⟩)

theorem clientStep_clientMoves {o : Outcome} (hst : s.clientStep cfg c o = some s') :
    ClientMoves s s' c := by
  simp only [State.clientStep] at hst
  cases hpc : (s.client c).pc <;> simp only [hpc] at hst
  case head =>
    split_ifs at hst
    · cases hst
      exact .of_leaver rfl rfl rfl rfl
    · cases o <;> simp only [reduceCtorEq] at hst
      split_ifs at hst with ht
      cases hst
      refine ⟨fun k hk => ?_, fun _ => .inr ?_⟩
      · simp [State.setClient, Client.Bound, ClientPc.bound] at hk
      · simpa [State.setClient] using ht
  case claim =>
    have hsil : (s.client c).pc.silent = true := by rw [hpc]; rfl
    split_ifs at hst <;> cases hst
    · exact .of_setClient rfl rfl (by rintro ⟨⟩) fun _ => hsil
    · exact .of_setClient rfl rfl (by rintro ⟨⟩) fun _ => hsil
    · exact .of_leaver rfl rfl rfl rfl
  case storePid =>
    cases hst
    exact .of_setClient rfl rfl (by rintro ⟨⟩) fun _ => by rw [hpc]; rfl
  case connecting pc =>
    cases o <;> simp only [reduceCtorEq] at hst
    exact connectStep_clientMoves hpc hst
  case dropping pc => split at hst <;> cases hst <;> exact .of_leaver rfl rfl rfl rfl
  case release =>
    cases hst
    exact .of_leaver rfl rfl rfl rfl
  case delay =>
    cases hst
    exact .of_leaver rfl rfl (by dsimp only; split_ifs <;> rfl) (by dsimp only; split_ifs <;> rfl)
  case ended => cases hst
  all_goals have hb : (s.client c).pc.bound = true := by rw [hpc]; rfl
  case connected =>
    cases hst
    exact .of_bound rfl rfl rfl hb (by dsimp only; split_ifs <;> rfl)
  case setData =>
    cases hst
    exact .of_bound rfl rfl rfl hb rfl
  case transfer =>
    cases o <;> simp only [reduceCtorEq] at hst <;> cases hst
    · exact .of_bound rfl rfl rfl hb (by dsimp only; split_ifs <;> rfl)
    · exact .of_core rfl
    · exact .of_bound rfl rfl rfl hb rfl
  case waitAny =>
    cases o with
    | any r =>
      cases r <;> simp only at hst
      case disconnect =>
        split_ifs at hst
        cases hst
        exact .of_leaver rfl rfl rfl rfl
      case other =>
        split_ifs at hst
        cases hst
        exact .of_bound rfl rfl rfl hb rfl
      case failed =>
        cases hst
        exact .of_leaver rfl rfl rfl rfl
    | _ => cases hst

omit [DecidableEq ι] in
theorem ClientMove.others [DecidableEq ι] (h : ClientMove cfg s c s') {d : ι} (hd : d ≠ c) :
    s'.client d = s.client d := by
  cases h with
  | quiet hq => exact hq.others d hd
  | _ => exact Function.update_of_ne hd _ _

theorem step_clientMoves [DecidableEq κ] (hst : s.step cfg l = some s') (c : ι) :
    ClientMoves s s' c := by
  by_cases hl : l.keepsClients = true
  · exact .of_core ((step_sameClients hl hst).client c)
  · cases l <;> simp only [State.step] at hst
    case tick | exit =>
      cases hst
      exact .of_core rfl
    case client d o =>
      split_ifs at hst
      by_cases hc : c = d
      · subst hc
        exact clientStep_clientMoves hst
      · exact .of_core (by rw [(clientStep_cases hst).others hc])
    all_goals exact absurd rfl hl

/-- No process comes back, and no token is taken back. -/
theorem step_exited_used [DecidableEq κ] (hst : s.step cfg l = some s') :
    s.exited ⊆ s'.exited ∧ s.used ⊆ s'.used := by
  by_cases hl : l.keepsClients = true
  · have h := step_sameClients hl hst
    exact ⟨h.exited.ge, h.used.ge⟩
  · cases l <;> simp only [State.step] at hst
    case tick =>
      cases hst
      exact ⟨le_rfl, le_rfl⟩
    case exit =>
      cases hst
      exact ⟨Finset.subset_insert _ _, le_rfl⟩
    case client c o =>
      split_ifs at hst
      cases clientStep_cases hst with
      | quiet hq => exact ⟨hq.exited.ge, hq.used.ge⟩
      | token => exact ⟨le_rfl, Finset.subset_insert _ _⟩
      | _ => exact ⟨le_rfl, le_rfl⟩
    all_goals exact absurd rfl hl

end Clients

end Multi

end Xshm
