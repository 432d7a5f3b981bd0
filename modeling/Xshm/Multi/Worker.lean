import Xshm.Multi.Slots

/-!
# The steps of the worker

`WorkerMove` lists what one step of `worker_loop` can do, with what is known of the state before it:
it moves between its critical sections (`Worker.Goes`), takes the mutex of a slot (`Worker.Takes`)
or releases it as it was (`Worker.Drops`, `Worker.Checks`), starts a callback (`Worker.Calls`), or
changes the slot whose mutex it holds.  `workerStep_move` and `aliveStep_move` say that there are no
more, so that an invariant is derived from this list and not from `State.workerStep`.
-/

namespace Xshm

namespace Multi

variable {ι κ : Type*}

namespace Worker

/-- The worker moves outside all critical sections.  Where it looks at a slot, the mutex is free. -/
inductive Goes (cfg : Config ι) (s : State ι κ) : Worker → Worker → Prop
  | start (h : s.running = true) : Goes cfg s .head (.reclaim 0 [])
  | stop (h : s.running = false) : Goes cfg s .head .ended
  | reclaimed {k : ℕ} {orphaned : List (ℕ × UInt32)} (h : cfg.maxClients ≤ k) :
      Goes cfg s (.reclaim k orphaned) (.orphans orphaned)
  | handled : Goes cfg s (.orphans []) (.collect 0 [])
  | noOrphan {k : ℕ} {expected : UInt32} {orphaned : List (ℕ × UInt32)}
      (h : (s.slot k).connected = false) :
      Goes cfg s (.orphans ((k, expected) :: orphaned)) (.orphans orphaned)
  | collect {k : ℕ} {handles : List EventSource} (h : k < cfg.maxClients) :
      Goes cfg s (.collect k handles) (.collect (k + 1) (handles ++
        if (s.slot k).connected then [.slotData k, .slotDisconnect k] else [.slotConnect k]))
  | collected {k : ℕ} {handles : List EventSource} (h : cfg.maxClients ≤ k) :
      Goes cfg s (.collect k handles) (.waitAny handles)
  | timeout {handles : List EventSource} (h : handles.any s.signalled = false) :
      Goes cfg s (.waitAny handles) (.poll 0 [])
  | failed {handles : List EventSource} : Goes cfg s (.waitAny handles) .head
  | present {k : ℕ} (h : (s.slot k).connected = true) : Goes cfg s (.slotConnect k) .head
  | poll {k : ℕ} {ids : List ℕ} (h : k < cfg.maxClients) :
      Goes cfg s (.poll k ids) (.poll (k + 1) (if (s.slot k).connected then ids ++ [k] else ids))
  | polled {k : ℕ} {ids : List ℕ} (h : cfg.maxClients ≤ k) : Goes cfg s (.poll k ids) (.receive ids)
  | received : Goes cfg s (.receive []) .head
  | absent {k : ℕ} {ids : List ℕ} (h : (s.slot k).connected = false) :
      Goes cfg s (.receive (k :: ids)) (.receive ids)
  | told {k : ℕ} {ids : List ℕ} : Goes cfg s (.callMessages k [] ids) (.receive ids)

/-- The worker takes the mutex of slot `k`. -/
inductive Takes (cfg : Config ι) (sl : Slot κ) (k : ℕ) : Worker → Worker → Prop
  | reclaim {orphaned : List (ℕ × UInt32)} (h : k < cfg.maxClients) :
      Takes cfg sl k (.reclaim k orphaned) (.claimLoaded k orphaned sl.claim)
  | orphan {expected : UInt32} {orphaned : List (ℕ × UInt32)} (h : sl.connected = true) :
      Takes cfg sl k (.orphans ((k, expected) :: orphaned)) (.orphanCas k expected orphaned)
  | refuse (h : sl.connected = false) (hs : sl.serverConnected = true) :
      Takes cfg sl k (.slotConnect k) (.handshaken k false)
  | handshake (h : sl.connected = false) (hs : sl.serverConnected = false) :
      Takes cfg sl k (.slotConnect k) (.handshake k .loadClient)
  | receive {ids : List ℕ} (h : sl.connected = true) :
      Takes cfg sl k (.receive (k :: ids)) (.receiving k cfg.recvBatch [] ids)

/-- The worker releases the mutex of slot `k`, which it has not changed. -/
inductive Drops (sl : Slot κ) (k : ℕ) : Worker → Worker → Prop
  | unclaimed {orphaned : List (ℕ × UInt32)} (h : sl.connected = true) :
      Drops sl k (.claimLoaded k orphaned claimFree)
        (.reclaim (k + 1) (orphaned ++ [(k, claimFree)]))
  | seen {orphaned : List (ℕ × UInt32)} {claim : UInt32} (h : sl.connected = true) :
      Drops sl k (.claimLoaded k orphaned claim) (.reclaim (k + 1) orphaned)
  | kept {expected : UInt32} {orphaned : List (ℕ × UInt32)} (h : sl.claim ≠ expected) :
      Drops sl k (.orphanCas k expected orphaned) (.orphans orphaned)
  | received {left : ℕ} {messages : List (Message UInt32)} {ids : List ℕ}
      (h : left = 0 ∨ sl.seg.ringB = []) :
      Drops sl k (.receiving k left messages ids) (.callMessages k messages ids)

/-- `is_process_alive` has answered. -/
inductive Checks (exited : Finset UInt32) (k : ℕ) : Worker → Worker → Prop
  | alive {orphaned : List (ℕ × UInt32)} {claim pid : UInt32} :
      Checks exited k (.checkAlive k orphaned claim pid) (.reclaim (k + 1) orphaned)
  | dead {orphaned : List (ℕ × UInt32)} {claim pid : UInt32} (h : pid ≠ 0) (hpid : pid ∈ exited) :
      Checks exited k (.checkAlive k orphaned claim pid)
        (.reclaim (k + 1) (orphaned ++ [(k, claim)]))

/-- The worker starts a callback of slot `k`. -/
inductive Calls (k : ℕ) : Callback → Worker → Worker → Prop
  | connect : Calls k .connect (.callConnect k) .head
  | message {m : Message UInt32} {messages : List (Message UInt32)} {ids : List ℕ} :
      Calls k (.message m.payload) (.callMessages k (m :: messages) ids)
        (.callMessages k messages ids)
  | disconnect : Calls k .disconnect (.callDisconnect k) .head
  | orphan {orphaned : List (ℕ × UInt32)} :
      Calls k .disconnect (.orphanCall k orphaned) (.orphans orphaned)

/-! Only a signal leads to `handle_slot_disconnect`. -/

section

variable {cfg : Config ι} {s : State ι κ} {sl : Slot κ} {k : ℕ} {t t' : Worker}

theorem Goes.ne_slotDisconnect (h : t.Goes cfg s t') (j : ℕ) (e : SlotSession) :
    t' ≠ .slotDisconnect j e := by
  rintro rfl
  cases h

theorem Takes.ne_slotDisconnect (h : t.Takes cfg sl k t') (j : ℕ) (e : SlotSession) :
    t' ≠ .slotDisconnect j e := by
  rintro rfl
  cases h

theorem Drops.ne_slotDisconnect (h : t.Drops sl k t') (j : ℕ) (e : SlotSession) :
    t' ≠ .slotDisconnect j e := by
  rintro rfl
  cases h

theorem Checks.ne_slotDisconnect {exited : Finset UInt32} (h : t.Checks exited k t') (j : ℕ)
    (e : SlotSession) : t' ≠ .slotDisconnect j e := by
  rintro rfl
  cases h

theorem Calls.ne_slotDisconnect {c : Callback} (h : t.Calls k c t') (j : ℕ) (e : SlotSession) :
    t' ≠ .slotDisconnect j e := by
  rintro rfl
  cases h

end

end Worker

/-- Where an access of the handshake on slot `k` leads the worker. -/
def handshakeNext (k : ℕ) : Next WaitForClient → Worker
  | .goto pc => .handshake k pc
  | .done (.ok ()) => .handshaken k true
  | .done (.error _) => .handshaken k false

/-- What a step of the worker does. -/
inductive WorkerMove (cfg : Config ι) (s : State ι κ) : Label ι κ → State ι κ → Prop
  | goes {w : WaitOutcome} {t : Worker} (h : s.worker.Goes cfg s t) :
      WorkerMove cfg s (.worker w) (s.setWorker t)
  | takes {w : WaitOutcome} {k : ℕ} {t : Worker} (hfree : (s.slot k).lock = none)
      (h : s.worker.Takes cfg (s.slot k) k t) :
      WorkerMove cfg s (.worker w) ((s.lock k .worker).setWorker t)
  | drops {w : WaitOutcome} {k : ℕ} {t : Worker} (h : s.worker.Drops (s.slot k) k t) :
      WorkerMove cfg s (.worker w) ((s.unlock k).setWorker t)
  | checks {b : Bool} {k : ℕ} {t : Worker} (h : s.worker.Checks s.exited k t) :
      WorkerMove cfg s (.alive b) ((s.unlock k).setWorker t)
  | calls {w : WaitOutcome} {k : ℕ} {e : Callback} {t : Worker} (h : s.worker.Calls k e t) :
      WorkerMove cfg s (.worker w) ((s.call k e).setWorker t)
  | sees {w : WaitOutcome} {k : ℕ} {orphaned : List (ℕ × UInt32)} {claim : UInt32}
      (hs : s.worker = .claimLoaded k orphaned claim) (hcon : (s.slot k).connected = true)
      (hfree : claim ≠ claimFree) : WorkerMove cfg s (.worker w)
        ((s.setSlot k ((s.slot k).see s.now claim)).setWorker (.loadOwner k orphaned claim))
  | reclaims {w : WaitOutcome} {k : ℕ} {orphaned : List (ℕ × UInt32)} {claim : UInt32}
      (hs : s.worker = .claimLoaded k orphaned claim) (hcon : (s.slot k).connected = false) :
      WorkerMove cfg s (.worker w)
        (((s.setSlot k ((s.slot k).reclaim s.now claim)).unlock k).setWorker
          (.reclaim (k + 1) orphaned))
  | loads {w : WaitOutcome} {k : ℕ} {orphaned : List (ℕ × UInt32)} {claim : UInt32}
      (hs : s.worker = .loadOwner k orphaned claim) : WorkerMove cfg s (.worker w)
        (s.setWorker (.checkAlive k orphaned claim (s.slot k).ownerPid))
  | orphans {w : WaitOutcome} {k : ℕ} {expected : UInt32} {orphaned : List (ℕ × UInt32)}
      (hs : s.worker = .orphanCas k expected orphaned) (hcas : (s.slot k).claim = expected) :
      WorkerMove cfg s (.worker w)
        (((s.endSession k).setSlot k (s.slot k).releaseSlotClaim.close).setWorker
          (.orphanMark k orphaned .storeServer))
  | orphanMarks {w : WaitOutcome} {k : ℕ} {orphaned : List (ℕ × UInt32)}
      {pc pc' : MarkDisconnected} {seg : Segment (Message UInt32) (Message UInt32)}
      (hs : s.worker = .orphanMark k orphaned pc)
      (hpc : pc.step (s.slot k).seg = (seg, .goto pc')) :
      WorkerMove cfg s (.worker w) ((s.setSeg k seg).setWorker (.orphanMark k orphaned pc'))
  | orphanMarked {w : WaitOutcome} {k : ℕ} {orphaned : List (ℕ × UInt32)} {pc : MarkDisconnected}
      {seg : Segment (Message UInt32) (Message UInt32)} {u : Except ShmError Unit}
      (hs : s.worker = .orphanMark k orphaned pc) (hpc : pc.step (s.slot k).seg = (seg, .done u)) :
      WorkerMove cfg s (.worker w) (((s.setSeg k seg).unlock k).setWorker (.orphanCall k orphaned))
  | consumes {handles : List EventSource} {e : EventSource} (hs : s.worker = .waitAny handles)
      (he : handles.find? s.signalled = some e) :
      WorkerMove cfg s (.worker .signalled) (s.handleEvent e)
  | ackFails {w : WaitOutcome} {k : ℕ} (hs : s.worker = .handshake k .setAck) :
      WorkerMove cfg s (.worker w) (s.setWorker (.handshaken k false))
  | handshakes {w : WaitOutcome} {k : ℕ} {pc : WaitForClient}
      {seg : Segment (Message UInt32) (Message UInt32)} {next : Next WaitForClient}
      (hs : s.worker = .handshake k pc) (hpc : pc.step (s.slot k).seg w = some (seg, next)) :
      WorkerMove cfg s (.worker w)
        ((s.setSlot k { s.slot k with seg := seg, answered := (s.slot k).answering pc }).setWorker
          (handshakeNext k next))
  | accepts {w : WaitOutcome} {k : ℕ} (hs : s.worker = .handshaken k true) :
      WorkerMove cfg s (.worker w)
        ((s.setSlot k (s.slot k).accept).setWorker (.callConnect k))
  | refuses {w : WaitOutcome} {k : ℕ} (hs : s.worker = .handshaken k false) :
      WorkerMove cfg s (.worker w) ((s.setSlot k (s.slot k).refuse).setWorker .head)
  | receives {w : WaitOutcome} {k left : ℕ} {m : Message UInt32}
      {messages rest : List (Message UInt32)} {ids : List ℕ}
      (hs : s.worker = .receiving k (left + 1) messages ids)
      (hring : (s.slot k).seg.ringB = m :: rest) : WorkerMove cfg s (.worker w)
        ((s.setSeg k { (s.slot k).seg with ringB := rest }).setWorker
          (.receiving k left (messages ++ [m]) ids))
  | ends {w : WaitOutcome} {k : ℕ} {setBy : SlotSession} (hs : s.worker = .slotDisconnect k setBy)
      (hfree : (s.slot k).lock = none) (hcon : (s.slot k).connected = true) :
      WorkerMove cfg s (.worker w)
        ((((s.endSession k).recordEnd ⟨k, (s.slot k).session, setBy⟩).setSlot k
          { (s.slot k).close with lock := some .worker }).setWorker
            (.marking k (some (s.slot k).session) .storeServer))
  | clears {w : WaitOutcome} {k : ℕ} {setBy : SlotSession}
      (hs : s.worker = .slotDisconnect k setBy) (hfree : (s.slot k).lock = none)
      (hcon : (s.slot k).connected = false) : WorkerMove cfg s (.worker w)
        ((s.setSlot k { (s.slot k).close with lock := some .worker }).setWorker
          (.marking k none .storeServer))
  | marks {w : WaitOutcome} {k : ℕ} {ended : Option SlotSession} {pc pc' : MarkDisconnected}
      {seg : Segment (Message UInt32) (Message UInt32)} (hs : s.worker = .marking k ended pc)
      (hpc : pc.step (s.slot k).seg = (seg, .goto pc')) :
      WorkerMove cfg s (.worker w) ((s.setSeg k seg).setWorker (.marking k ended pc'))
  | marked {w : WaitOutcome} {k : ℕ} {ended : Option SlotSession} {pc : MarkDisconnected}
      {seg : Segment (Message UInt32) (Message UInt32)} {u : Except ShmError Unit}
      (hs : s.worker = .marking k ended pc) (hpc : pc.step (s.slot k).seg = (seg, .done u)) :
      WorkerMove cfg s (.worker w) ((s.setSeg k seg).setWorker (.release k ended))
  | releases {w : WaitOutcome} {k : ℕ} {ended : Option SlotSession}
      (hs : s.worker = .release k ended) : WorkerMove cfg s (.worker w)
        (((s.setSlot k (s.slot k).releaseSlotClaim).unlock k).setWorker
          (if ended.isSome then .callDisconnect k else .head))

section Steps

variable {cfg : Config ι} {s s' : State ι κ}

theorem reclaimStep_move {k : ℕ} {orphaned : List (ℕ × UInt32)} {claim : UInt32} {w : WaitOutcome}
    (hs : s.worker = .claimLoaded k orphaned claim) :
    WorkerMove cfg s (.worker w) (s.reclaimStep k orphaned claim) := by
  rw [State.reclaimStep]
  split_ifs with hcon hfree hdue
  · subst hfree
    exact .drops (hs ▸ .unclaimed hcon)
  · exact .sees hs hcon hfree
  · exact .drops (hs ▸ .seen hcon)
  · exact .reclaims hs (Bool.eq_false_iff.2 hcon)

theorem handshakeStep_move {k : ℕ} {pc : WaitForClient} {w : WaitOutcome}
    (hs : s.worker = .handshake k pc) (hst : s.handshakeStep k pc w = some s') :
    WorkerMove cfg s (.worker w) s' := by
  rw [State.handshakeStep] at hst
  split_ifs at hst with hack
  · obtain ⟨rfl, -⟩ := hack
    cases hst
    exact .ackFails hs
  · obtain ⟨⟨seg, next⟩, hpc, rfl⟩ := Option.map_eq_some_iff.1 hst
    have hmove : WorkerMove cfg s (.worker w) _ := .handshakes hs hpc
    rcases next with pc' | (e | u) <;> exact hmove

theorem workerStep_move {w : WaitOutcome} (hst : s.workerStep cfg w = some s') :
    WorkerMove cfg s (.worker w) s' := by
  rw [State.workerStep] at hst
  cases hs : s.worker <;> simp only [hs] at hst
  case checkAlive | ended => cases hst
  case claimLoaded k orphaned claim =>
    cases hst
    exact reclaimStep_move hs
  case handshake k pc => exact handshakeStep_move hs hst
  case head =>
    cases hst
    split_ifs with hr
    · exact .goes (hs ▸ .start hr)
    · exact .goes (hs ▸ .stop (Bool.eq_false_iff.2 hr))
  case reclaim k orphaned =>
    split_ifs at hst with hk hl <;> cases hst
    · exact .takes hl (hs ▸ .reclaim hk)
    · exact .goes (hs ▸ .reclaimed (Nat.le_of_not_lt hk))
  case loadOwner k orphaned claim =>
    cases hst
    exact .loads hs
  case orphans orphaned =>
    cases orphaned with
    | nil =>
      cases hst
      exact .goes (hs ▸ .handled)
    | cons o orphaned =>
      simp only at hst
      split_ifs at hst with hl hcon <;> cases hst
      · exact .takes hl (hs ▸ .orphan hcon)
      · exact .goes (hs ▸ .noOrphan (Bool.eq_false_iff.2 hcon))
  case orphanCas k expected orphaned =>
    split_ifs at hst with hcas <;> cases hst
    · exact .orphans hs hcas
    · exact .drops (hs ▸ .kept hcas)
  case orphanMark k orphaned pc =>
    split at hst <;> rename_i hpc <;> cases hst
    · exact .orphanMarks hs hpc
    · exact .orphanMarked hs hpc
  case orphanCall k orphaned =>
    cases hst
    exact .calls (hs ▸ .orphan)
  case collect k handles =>
    by_cases hk : k < cfg.maxClients
    · rw [if_pos hk, Option.ite_none_right_eq_some] at hst
      cases hst.2
      exact .goes (hs ▸ .collect hk)
    · rw [if_neg hk] at hst
      cases hst
      exact .goes (hs ▸ .collected (Nat.le_of_not_lt hk))
  case waitAny handles =>
    cases w with
    | signalled =>
      obtain ⟨e, he, rfl⟩ := Option.map_eq_some_iff.1 hst
      exact .consumes hs he
    | timeout =>
      simp only at hst
      split_ifs at hst with hany
      cases hst
      exact .goes (hs ▸ .timeout (Bool.eq_false_iff.2 hany))
    | failed e =>
      cases hst
      exact .goes (hs ▸ .failed)
  case slotConnect k =>
    split_ifs at hst with hl hcon hserver <;> cases hst
    · exact .goes (hs ▸ .present hcon)
    · exact .takes hl (hs ▸ .refuse (Bool.eq_false_iff.2 hcon) hserver)
    · exact .takes hl (hs ▸ .handshake (Bool.eq_false_iff.2 hcon) (Bool.eq_false_iff.2 hserver))
  case handshaken k ok =>
    cases ok <;> cases hst
    · exact .refuses hs
    · exact .accepts hs
  case callConnect k =>
    cases hst
    exact .calls (hs ▸ .connect)
  case poll k ids =>
    by_cases hk : k < cfg.maxClients
    · rw [if_pos hk, Option.ite_none_right_eq_some] at hst
      cases hst.2
      exact .goes (hs ▸ .poll hk)
    · rw [if_neg hk] at hst
      cases hst
      exact .goes (hs ▸ .polled (Nat.le_of_not_lt hk))
  case receive ids =>
    cases ids with
    | nil =>
      cases hst
      exact .goes (hs ▸ .received)
    | cons k ids =>
      simp only at hst
      split_ifs at hst with hl hcon <;> cases hst
      · exact .takes hl (hs ▸ .receive hcon)
      · exact .goes (hs ▸ .absent (Bool.eq_false_iff.2 hcon))
  case receiving k left messages ids =>
    cases left with
    | zero =>
      cases hst
      exact .drops (hs ▸ .received (.inl rfl))
    | succ left =>
      cases hring : (s.slot k).seg.ringB with
      | nil =>
        simp only [hring] at hst
        cases hst
        exact .drops (hs ▸ .received (.inr hring))
      | cons m rest =>
        simp only [hring] at hst
        cases hst
        exact .receives hs hring
  case callMessages k messages ids =>
    cases messages <;> cases hst
    · exact .goes (hs ▸ .told)
    · exact .calls (hs ▸ .message)
  case slotDisconnect k setBy =>
    split_ifs at hst with hl hcon <;> cases hst
    · exact .ends hs hl hcon
    · exact .clears hs hl (Bool.eq_false_iff.2 hcon)
  case marking k ended pc =>
    split at hst <;> rename_i hpc <;> cases hst
    · exact .marks hs hpc
    · exact .marked hs hpc
  case release k ended =>
    cases hst
    exact .releases hs
  case callDisconnect k =>
    cases hst
    exact .calls (hs ▸ .disconnect)

variable (cfg) in
theorem aliveStep_move {b : Bool} (hst : s.aliveStep b = some s') :
    WorkerMove cfg s (.alive b) s' := by
  rw [State.aliveStep] at hst
  split at hst
  · rename_i k orphaned claim pid hs
    split_ifs at hst with hb hpid <;> cases hst
    · exact .checks (hs ▸ .alive)
    · exact .checks (hs ▸ .dead hpid.1 hpid.2)
  · cases hst

end Steps

end Multi

end Xshm
