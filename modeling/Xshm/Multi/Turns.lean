import Xshm.Endpoint.ConnectRequest
import Xshm.Multi.Locks
import Xshm.System.Fairness

/-!
# The threads of a multi-client server

The worker takes the mutexes of the slots one after the other, and so do the application threads in
`disconnect_client`; a thread holds one mutex at a time and needs no other thread to release it.

* `step_turn` : what a step does to the mutexes and the threads.  Each pass of the worker is finite:
  once `running` has been cleared, its steps lower `Worker.left`.
* `State.lock_iff` : a mutex is held by the thread that is inside, and by no other.
* `worker_enabled`, `app_enabled` : a thread can go on, or it waits for a mutex.
-/

namespace Xshm

/-- The stores that are left of `mark_disconnected`. -/
def MarkDisconnected.left : MarkDisconnected → ℕ
  | .storeServer => 4
  | .storeClient => 3
  | .storeA => 2
  | .storeB => 1

section Segment

variable {A B : Type*} {seg seg' : Segment A B}

/-- An access of the handshake brings its end nearer. -/
theorem WaitForClient.left_lt {pc pc' : WaitForClient} {w : WaitOutcome}
    (h : pc.step seg w = some (seg', .goto pc')) : pc'.left < pc.left := by
  cases pc <;> simp only [WaitForClient.step] at h
  case waitReq =>
    cases w <;> simp only at h
    case failed => cases h
    all_goals
      split_ifs at h
      cases h
      try exact Nat.lt_succ_self _
  case loadClient =>
    split_ifs at h <;> cases h
    exact Nat.lt_succ_self _
  all_goals
    cases h
    try exact Nat.lt_succ_self _

/-- No access of the handshake waits for another thread for ever. -/
theorem WaitForClient.step_enabled (pc : WaitForClient) (seg : Segment A B) :
    ∃ w, w.isFailed = false ∧ (pc.step seg w).isSome := by
  cases pc with
  | waitReq =>
    by_cases hreq : seg.connectReq = true
    · exact ⟨.signalled, rfl, by simp [WaitForClient.step, hreq]⟩
    · exact ⟨.timeout, rfl, by simp [WaitForClient.step, hreq]⟩
  | loadClient =>
    refine ⟨.signalled, rfl, ?_⟩
    simp only [WaitForClient.step]
    split_ifs <;> rfl
  | _ => exact ⟨.signalled, rfl, rfl⟩

theorem MarkDisconnected.left_lt {pc pc' : MarkDisconnected}
    (h : pc.step seg = (seg', .goto pc')) : pc'.left < pc.left := by
  cases pc <;> cases h <;> decide

theorem MarkDisconnected.left_pos (pc : MarkDisconnected) : 0 < pc.left := by
  cases pc <;> decide

theorem MarkDisconnected.left_le (pc : MarkDisconnected) : pc.left ≤ 4 := by
  cases pc <;> decide

end Segment

namespace Multi

variable {ι κ : Type*}

/-! ### The threads of the server -/

/-- The steps of a thread of the server; the call of `disconnect_client` itself is made by the
application. -/
def Label.of : Owner κ → Label ι κ → Prop
  | .worker, .worker _ | .worker, .alive _ => True
  | .app a, .app b _ => a = b
  | _, _ => False

/-- The slot whose mutex the thread holds. -/
def State.holding (s : State ι κ) : Owner κ → Option ℕ
  | .worker => s.worker.holding
  | .app a => (s.app a).holding

/-- The steps that are left to a thread in `disconnect_client`. -/
def App.left : App → ℕ
  | .idle => 0
  | .callDisconnect _ => 1
  | .release .. => 2
  | .marking _ _ pc => 2 + pc.left
  | .setEvent .. => 7

theorem App.left_le (t : App) : t.left ≤ 7 := by
  cases t with
  | marking k ended pc =>
    have := pc.left_le
    simp only [left]
    omega
  | _ =>
    simp only [left]
    decide

theorem App.left_pos {t : App} {k : ℕ} (h : t.holding = some k) : 0 < t.left := by
  cases t with
  | idle => cases h
  | marking k ended pc => exact Nat.lt_of_lt_of_le Nat.two_pos (Nat.le_add_right _ _)
  | _ =>
    simp only [left]
    decide

namespace Worker

variable (cfg : Config ι)

/-- The slot whose mutex the worker takes next. -/
def wants : Worker → Option ℕ
  | .reclaim k _ | .collect k _ | .poll k _ => if k < cfg.maxClients then some k else none
  | .orphans ((k, _) :: _) | .slotConnect k | .slotDisconnect k _ | .receive (k :: _) => some k
  | _ => none

variable {cfg} in
/-- The worker holds no mutex when it takes one. -/
theorem holding_of_wants {t : Worker} {k : ℕ} (h : t.wants cfg = some k) : t.holding = none := by
  cases t <;> first | rfl | cases h

/-- The steps of `receive_from_slot` for each of `n` slots. -/
def leftReceive (n : ℕ) : ℕ := 2 + (2 * cfg.recvBatch + 3) * n

/-- The steps from `wait_any` on. -/
def leftWait : ℕ := 20 + leftReceive cfg (cfg.maxClients + 1) + cfg.maxClients

/-- The steps from the handling of `n` orphaned slots on. -/
def leftOrphans (n : ℕ) : ℕ := leftWait cfg + cfg.maxClients + 2 + 7 * n

/-- The steps of the worker up to the end of the pass, at most. -/
def left : Worker → ℕ
  | .ended => 0
  | .head => 1
  | .reclaim k orphaned =>
    leftOrphans cfg (orphaned.length + (cfg.maxClients - k)) + 4 * (cfg.maxClients - k) + 1
  | .claimLoaded k orphaned _ => leftReclaim k orphaned + 3
  | .loadOwner k orphaned _ => leftReclaim k orphaned + 2
  | .checkAlive k orphaned _ _ => leftReclaim k orphaned + 1
  | .orphans orphaned => leftOrphans cfg orphaned.length
  | .orphanCas _ _ orphaned => leftOrphans cfg orphaned.length + 6
  | .orphanMark _ orphaned pc => leftOrphans cfg orphaned.length + 1 + pc.left
  | .orphanCall _ orphaned => leftOrphans cfg orphaned.length + 1
  | .collect k _ => leftWait cfg + 1 + (cfg.maxClients - k)
  | .waitAny _ => leftWait cfg
  | .slotConnect _ => 15
  | .handshake _ pc => 3 + pc.left
  | .handshaken .. => 3
  | .callConnect _ | .callDisconnect _ => 2
  | .poll k ids =>
    leftReceive cfg (ids.length + (cfg.maxClients - k)) + (cfg.maxClients - k) + 1
  | .receive ids => leftReceive cfg ids.length
  | .receiving _ left messages ids =>
    leftReceive cfg ids.length + 2 * left + messages.length + 2
  | .callMessages _ messages ids => leftReceive cfg ids.length + messages.length + 1
  | .slotDisconnect .. => 8
  | .marking _ _ pc => 3 + pc.left
  | .release .. => 3
where
  /-- The steps from the next slot on, whether or not this one is found to be orphaned. -/
  leftReclaim (k : ℕ) (orphaned : List (ℕ × UInt32)) : ℕ :=
    leftOrphans cfg (orphaned.length + 1 + (cfg.maxClients - (k + 1))) +
      4 * (cfg.maxClients - (k + 1)) + 1

theorem leftReceive_mono {m n : ℕ} (h : m ≤ n) : leftReceive cfg m ≤ leftReceive cfg n :=
  Nat.add_le_add_left (Nat.mul_le_mul_left _ h) _

end Worker

section

variable {cfg : Config ι} {s : State ι κ} {sl : Slot κ} {k : ℕ} {t t' : Worker}

/-- The worker takes the mutex that it wants. -/
theorem Worker.Takes.wants (h : t.Takes cfg sl k t') : t.wants cfg = some k := by
  cases h with
  | reclaim hk => exact if_pos hk
  | _ => rfl

theorem Worker.Goes.left (h : t.Goes cfg s t') (hr : s.running = false) :
    t'.left cfg < t.left cfg := by
  cases h with
  | start hr' => cases hr.symm.trans hr'
  | stop => exact Nat.one_pos
  | collect hk | reclaimed | collected | handled | noOrphan | present | failed =>
    simp only [Worker.left, leftOrphans, leftWait, List.length_cons]
    omega
  | timeout | received | told =>
    simp only [Worker.left, leftWait, leftReceive, List.length_nil]
    lia
  | absent =>
    simp only [Worker.left, leftReceive, List.length_cons]
    lia
  | @poll k ids hk =>
    have hids : (if (s.slot k).connected then ids ++ [k] else ids).length ≤ ids.length + 1 := by
      split_ifs
      · rw [List.length_append, List.length_singleton]
      · exact Nat.le_succ _
    have hsum : (if (s.slot k).connected then ids ++ [k] else ids).length +
        (cfg.maxClients - (k + 1)) ≤ ids.length + (cfg.maxClients - k) := by omega
    have hmono := leftReceive_mono cfg hsum
    simp only [Worker.left]
    omega
  | @polled k ids =>
    have hmono := leftReceive_mono cfg (Nat.le_add_right ids.length (cfg.maxClients - k))
    simp only [Worker.left]
    omega

theorem Worker.Takes.left (h : t.Takes cfg sl k t') : t'.left cfg < t.left cfg := by
  cases h with
  | reclaim hk =>
    rw [Worker.left, Worker.left, left.leftReclaim,
      show cfg.maxClients - k = cfg.maxClients - (k + 1) + 1 by omega]
    simp only [leftOrphans]
    omega
  | orphan =>
    simp only [Worker.left, leftOrphans, List.length_cons]
    omega
  | refuse | handshake =>
    simp only [Worker.left, WaitForClient.left]
    omega
  | receive =>
    simp only [Worker.left, leftReceive, List.length_cons, List.length_nil]
    lia

theorem Worker.Drops.left (h : t.Drops sl k t') : t'.left cfg < t.left cfg := by
  cases h <;>
  · simp only [Worker.left, left.leftReclaim, leftOrphans, List.length_append,
      List.length_singleton]
    omega

theorem Worker.Checks.left {exited : Finset UInt32} (h : t.Checks exited k t') :
    t'.left cfg < t.left cfg := by
  cases h <;>
  · simp only [Worker.left, left.leftReclaim, leftOrphans, List.length_append,
      List.length_singleton]
    omega

theorem Worker.Calls.left {e : Callback} (h : t.Calls k e t') : t'.left cfg < t.left cfg := by
  cases h <;>
  · simp only [Worker.left, List.length_cons]
    omega

/-- An access of the handshake brings its end nearer. -/
theorem handshakeNext_left {A B : Type*} {seg seg' : Segment A B} {pc : WaitForClient}
    {w : WaitOutcome} {next : Next WaitForClient} (h : pc.step seg w = some (seg', next)) :
    (handshakeNext k next).left cfg < (Worker.handshake k pc).left cfg := by
  have hpos : 0 < pc.left := by cases pc <;> exact Nat.succ_pos _
  rcases next with pc' | (e | u)
  · exact Nat.add_lt_add_left (WaitForClient.left_lt h) _
  · exact Nat.lt_add_of_pos_right hpos
  · exact Nat.lt_add_of_pos_right hpos

end

/-! ### What the steps do to the mutexes -/

section Turns

variable {cfg : Config ι} {s s' : State ι κ}

/-- A step of the worker. -/
structure WorkerTurn (cfg : Config ι) (s s' : State ι κ) : Prop where
  app : s'.app = s.app
  running : s'.running = s.running
  left : s.running = false → s'.worker.left cfg < s.worker.left cfg
  /-- Of the mutexes, the worker takes or keeps the one of the slot it is at, and releases only the
  one it has held. -/
  lock : ∀ k, s'.worker.holding = some k ∨ (s'.slot k).lock = none ∨
    s.worker.holding ≠ some k ∧ (s'.slot k).lock = (s.slot k).lock
  takes : ∀ k, s'.worker.holding = some k →
    s.worker.holding = some k ∨ s.worker.wants cfg = some k

namespace WorkerTurn

/-- The worker moves outside all critical sections. -/
theorem goto {t : Worker} (hw : s.worker.holding = none) (ht : t.holding = none)
    (hl : s.running = false → t.left cfg < s.worker.left cfg) :
    WorkerTurn cfg s (s.setWorker t) := by
  refine ⟨rfl, rfl, hl, fun k => .inr (.inr ⟨?_, rfl⟩), fun k hk => ?_⟩
  · rw [hw]
    rintro ⟨⟩
  · cases hk.symm.trans ht

/-- The worker changes slot `k`, whose mutex it takes, holds or releases. -/
theorem setSlot {k : ℕ} {sl : Slot κ} {t : Worker}
    (hw : s.worker.holding = some k ∨ s.worker.holding = none)
    (ht : t.holding = some k ∧ (s.worker.holding = some k ∨ s.worker.wants cfg = some k) ∨
      t.holding = none ∧
        (sl.lock = none ∨ s.worker.holding = none ∧ sl.lock = (s.slot k).lock))
    (hl : t.left cfg < s.worker.left cfg) : WorkerTurn cfg s ((s.setSlot k sl).setWorker t) := by
  refine ⟨rfl, rfl, fun _ => hl, fun j => ?_, fun j hj => ?_⟩
  · by_cases hj : j = k
    · subst hj
      have hsl : (((s.setSlot j sl).setWorker t).slot j).lock = sl.lock :=
        congrArg Slot.lock (s.setSlot_slot_self j sl)
      rw [hsl]
      rcases ht with ⟨htj, -⟩ | ⟨-, hnone | ⟨hnone, hsame⟩⟩
      · exact .inl htj
      · exact .inr (.inl hnone)
      · refine .inr (.inr ⟨?_, hsame⟩)
        rw [hnone]
        rintro ⟨⟩
    · refine .inr (.inr ⟨fun hh => ?_, congrArg Slot.lock (s.setSlot_slot_of_ne hj sl)⟩)
      rcases hw with hw | hw <;> cases hw.symm.trans hh
      exact hj rfl
  · rcases ht with ⟨htk, h⟩ | ⟨hnone, -⟩
    · cases htk.symm.trans hj
      exact h
    · cases hnone.symm.trans hj

/-- The worker goes on in the critical section of slot `k`, which it changes. -/
theorem stay {k : ℕ} {sl : Slot κ} {t : Worker} (hw : s.worker.holding = some k)
    (ht : t.holding = some k) (hl : t.left cfg < s.worker.left cfg) :
    WorkerTurn cfg s ((s.setSlot k sl).setWorker t) :=
  .setSlot (.inl hw) (.inl ⟨ht, .inl hw⟩) hl

theorem move {k : ℕ} {t : Worker} (hw : s.worker.holding = some k) (ht : t.holding = some k)
    (hl : t.left cfg < s.worker.left cfg) : WorkerTurn cfg s (s.setWorker t) := by
  have h : WorkerTurn cfg s ((s.setSlot k (s.slot k)).setWorker t) := .stay hw ht hl
  rwa [State.setSlot_self] at h

/-- The worker releases the mutex of slot `k`. -/
theorem unlock {k : ℕ} {sl : Slot κ} {t : Worker} (hw : s.worker.holding = some k)
    (ht : t.holding = none) (hl : t.left cfg < s.worker.left cfg) :
    WorkerTurn cfg s (((s.setSlot k sl).unlock k).setWorker t) := by
  rw [State.unlock, State.setSlot_setSlot]
  exact .setSlot (.inl hw) (.inr ⟨ht, .inl rfl⟩) hl

/-- A change of the records before the step. -/
theorem congr {r : State ι κ} (h : WorkerTurn cfg r s') (hw : r.worker = s.worker)
    (ha : r.app = s.app) (hr : r.running = s.running) (hs : r.slot = s.slot) :
    WorkerTurn cfg s s' where
  app := h.app.trans ha
  running := h.running.trans hr
  left hrun := hw ▸ h.left (hr.trans hrun)
  lock k := by
    have := h.lock k
    rwa [hw, hs] at this
  takes k hk := hw ▸ h.takes k hk

end WorkerTurn

theorem WorkerMove.of_worker {l : Label ι κ} (hm : WorkerMove cfg s l s') : l.of .worker := by
  cases hm <;> trivial

theorem WorkerMove.turn {l : Label ι κ} (hm : WorkerMove cfg s l s') : WorkerTurn cfg s s' := by
  have held {t : Worker} {k : ℕ} (hs : s.worker = t) (ht : t.holding = some k) :
      s.worker.holding = some k := hs ▸ ht
  have left {t t' : Worker} (hs : s.worker = t) (hl : t'.left cfg < t.left cfg) :
      t'.left cfg < s.worker.left cfg := hs ▸ hl
  cases hm with
  | goes hg => exact .goto hg.holding.1 hg.holding.2 hg.left
  | takes _ ht => exact .setSlot (.inr ht.holding.1) (.inl ⟨ht.holding.2, .inr ht.wants⟩) ht.left
  | drops hd => exact .setSlot (.inl hd.holding.1) (.inr ⟨hd.holding.2, .inl rfl⟩) hd.left
  | checks hc => exact .setSlot (.inl hc.holding.1) (.inr ⟨hc.holding.2, .inl rfl⟩) hc.left
  | calls hc =>
    exact .setSlot (.inr hc.holding.1) (.inr ⟨hc.holding.2, .inr ⟨hc.holding.1, rfl⟩⟩) hc.left
  | @consumes handles e hs =>
    have hw : s.worker.holding = none := by rw [hs]; rfl
    cases e <;>
    · refine .setSlot (.inr hw) (.inr ⟨rfl, .inr ⟨hw, rfl⟩⟩) (left hs ?_)
      simp only [Worker.left, Worker.leftWait, Worker.leftReceive, List.length_singleton]
      lia
  | sees hs => exact .stay (held hs rfl) rfl (left hs (Nat.lt_succ_self _))
  | reclaims hs =>
    refine .unlock (held hs rfl) rfl (left hs ?_)
    simp only [Worker.left, Worker.left.leftReclaim, Worker.leftOrphans]
    omega
  | @loads w k orphaned claim hs =>
    refine .move (held hs rfl) rfl (left hs ?_)
    exact Nat.lt_succ_self (Worker.left.leftReclaim cfg k orphaned + 1)
  | @orphans w k expected orphaned hs =>
    have h : WorkerTurn cfg (s.endSession k) (((s.endSession k).setSlot k
        (s.slot k).releaseSlotClaim.close).setWorker (.orphanMark k orphaned .storeServer)) := by
      refine .stay (held hs rfl) rfl (left hs ?_)
      simp only [Worker.left, MarkDisconnected.left]
      omega
    exact h.congr rfl rfl rfl rfl
  | orphanMarks hs hpc =>
    have := MarkDisconnected.left_lt hpc
    exact .stay (held hs rfl) rfl (left hs (Nat.add_lt_add_left this _))
  | @orphanMarked w k orphaned pc seg u hs =>
    have := pc.left_pos
    exact .unlock (held hs rfl) rfl (left hs (Nat.lt_add_of_pos_right this))
  | ackFails hs => exact .move (held hs rfl) rfl (left hs (Nat.lt_succ_self 3))
  | handshakes hs hpc =>
    exact .stay (held hs rfl) (handshakeNext_holding _ _) (left hs (handshakeNext_left hpc))
  | accepts hs | refuses hs =>
    refine .setSlot (.inl (held hs rfl)) (.inr ⟨rfl, .inl rfl⟩) (left hs ?_)
    simp only [Worker.left]
    omega
  | receives hs =>
    refine .stay (held hs rfl) rfl (left hs ?_)
    simp only [Worker.left, List.length_append, List.length_singleton]
    omega
  | @ends w k setBy hs =>
    have h : WorkerTurn cfg ((s.endSession k).recordEnd ⟨k, (s.slot k).session, setBy⟩)
        ((((s.endSession k).recordEnd ⟨k, (s.slot k).session, setBy⟩).setSlot k
          { (s.slot k).close with lock := some .worker }).setWorker
            (.marking k (some (s.slot k).session) .storeServer)) := by
      have hw : s.worker.wants cfg = some k := by rw [hs]; rfl
      refine .setSlot (.inr ?_) (.inl ⟨rfl, .inr hw⟩) (left hs ?_)
      · change s.worker.holding = none
        rw [hs]
        rfl
      · simp only [Worker.left, MarkDisconnected.left]
        omega
    exact h.congr rfl rfl rfl rfl
  | @clears w k setBy hs =>
    have hw : s.worker.wants cfg = some k := by rw [hs]; rfl
    refine .setSlot (.inr (by rw [hs]; rfl)) (.inl ⟨rfl, .inr hw⟩) (left hs ?_)
    simp only [Worker.left, MarkDisconnected.left]
    omega
  | marks hs hpc =>
    have := MarkDisconnected.left_lt hpc
    exact .stay (held hs rfl) rfl (left hs (Nat.add_lt_add_left this _))
  | @marked w k ended pc seg u hs =>
    have := pc.left_pos
    exact .stay (held hs rfl) rfl (left hs (Nat.lt_add_of_pos_right this))
  | releases hs =>
    refine .unlock (held hs rfl) (by split_ifs <;> rfl) (left hs ?_)
    split_ifs <;> simp only [Worker.left] <;> omega

/-- A step of the application thread `a` in `disconnect_client`. -/
structure AppTurn (a : κ) (s s' : State ι κ) : Prop where
  worker : s'.worker = s.worker
  running : s'.running = s.running
  app : ∀ b, b ≠ a → s'.app b = s.app b
  left : (s'.app a).left < (s.app a).left
  connected : ∀ k, (s'.slot k).connected = (s.slot k).connected
  lock : ∀ k, if (s.app a).holding = some k then
      (s'.app a).holding = some k ∨ (s'.slot k).lock = none
    else (s'.app a).holding ≠ some k ∧ (s'.slot k).lock = (s.slot k).lock

/-- Another step, which leaves the mutexes and the threads of the server alone. -/
structure QuietTurn (s s' : State ι κ) : Prop where
  worker : s'.worker = s.worker
  app : s'.app = s.app
  running : s.running = false → s'.running = false
  connected : ∀ k, (s'.slot k).connected = (s.slot k).connected
  lock : ∀ k, (s'.slot k).lock = (s.slot k).lock

/-- What a step does to the mutexes and the threads of the server. -/
inductive Turn [DecidableEq κ] (cfg : Config ι) (s s' : State ι κ) : Label ι κ → Prop
  | worker {l : Label ι κ} : WorkerMove cfg s l s' → WorkerTurn cfg s s' → Turn cfg s s' l
  | app {a : κ} {w : WaitOutcome} : AppTurn a s s' → Turn cfg s s' (.app a w)
  /-- A call of `disconnect_client` takes the mutex of a slot, which is no longer connected. -/
  | enters {a : κ} {k : ℕ} {sl : Slot κ} {t : App} : s.app a = .idle → (s.slot k).lock = none →
    (s.slot k).connected = true → sl.lock = some (.app a) → sl.connected = false →
    t.holding = some k → s'.slot = Function.update s.slot k sl →
    s'.app = Function.update s.app a t → s'.worker = s.worker → s'.running = s.running →
    Turn cfg s s' (.disconnectClient a k)
  | quiet {l : Label ι κ} : (∀ o, ¬ l.of o) → QuietTurn s s' → Turn cfg s s' l

/-- Nobody sets `running`. -/
theorem Turn.running [DecidableEq κ] {l : Label ι κ} (h : Turn cfg s s' l)
    (hr : s.running = false) : s'.running = false := by
  cases h with
  | worker _ ht => exact ht.running.trans hr
  | app ht => exact ht.running.trans hr
  | enters _ _ _ _ _ _ _ _ _ hrun => exact hrun.trans hr
  | quiet _ hq => exact hq.running hr

theorem QuietTurn.refl : QuietTurn s s := ⟨rfl, rfl, id, fun _ => rfl, fun _ => rfl⟩

/-- A slot changes outside its `ClientSlot`. -/
theorem QuietTurn.setSlot {k : ℕ} {sl : Slot κ} (hl : sl.lock = (s.slot k).lock)
    (hc : sl.connected = (s.slot k).connected) : QuietTurn s (s.setSlot k sl) where
  worker := rfl
  app := rfl
  running := id
  connected := State.forall_setSlot
    (P := fun j (sl : Slot κ) => sl.connected = (s.slot j).connected) hc fun _ => rfl
  lock := State.forall_setSlot
    (P := fun j (sl : Slot κ) => sl.lock = (s.slot j).lock) hl fun _ => rfl

theorem SameServer.quietTurn (h : SameServer s s') (hr : s'.running = s.running) :
    QuietTurn s s' where
  worker := h.worker
  app := h.app
  running hrun := hr.trans hrun
  connected k := congrArg (fun p => p.2.1) (h.slot k)
  lock k := congrArg Prod.fst (h.slot k)

theorem clientStep_running [DecidableEq ι] {c : ι} {o : Outcome}
    (hst : s.clientStep cfg c o = some s') :
    s'.running = s.running := by
  simp only [State.clientStep] at hst
  cases hpc : (s.client c).pc <;> simp only [hpc] at hst
  case head =>
    split_ifs at hst
    · cases hst
      rfl
    · cases o <;> simp only [reduceCtorEq] at hst
      split_ifs at hst
      cases hst
      rfl
  case claim =>
    split_ifs at hst <;> cases hst <;> rfl
  case connecting pc =>
    cases o <;> simp only [reduceCtorEq] at hst
    rw [State.connectStep] at hst
    split_ifs at hst
    · cases hst
      rfl
    · obtain ⟨_, -, rfl⟩ := Option.map_eq_some_iff.1 hst
      rfl
  case transfer =>
    cases o <;> simp only [reduceCtorEq] at hst <;> cases hst <;> rfl
  case waitAny =>
    cases o with
    | any r =>
      cases r <;> simp only at hst
      case failed =>
        cases hst
        rfl
      all_goals
        split_ifs at hst
        cases hst
        rfl
    | _ => cases hst
  case dropping pc =>
    split at hst <;> cases hst <;> rfl
  case ended => cases hst
  all_goals
    cases hst
    rfl

section App

variable [DecidableEq κ] {a : κ}

/-- The thread changes slot `k`, whose mutex it holds. -/
theorem AppTurn.setSlot {k : ℕ} {sl : Slot κ} {t : App} (ha : (s.app a).holding = some k)
    (ht : t.holding = some k ∨ t.holding = none ∧ sl.lock = none)
    (hc : sl.connected = (s.slot k).connected) (hl : t.left < (s.app a).left) :
    AppTurn a s ((s.setSlot k sl).setApp a t) := by
  have happ : ((s.setSlot k sl).setApp a t).app a = t := Function.update_self ..
  refine ⟨rfl, rfl, fun b hb => Function.update_of_ne hb .., by rwa [happ],
    State.forall_setSlot (P := fun j (sl : Slot κ) => sl.connected = (s.slot j).connected) hc
      fun _ => rfl, fun j => ?_⟩
  rw [happ]
  by_cases hj : j = k
  · subst hj
    rw [if_pos ha]
    refine ht.imp id ?_
    rintro ⟨-, hnone⟩
    exact (congrArg Slot.lock (s.setSlot_slot_self j sl)).trans hnone
  · rw [if_neg (by rw [ha]; rintro ⟨⟩; exact hj rfl)]
    refine ⟨fun hh => ?_, congrArg Slot.lock (s.setSlot_slot_of_ne hj sl)⟩
    rcases ht with ht | ⟨ht, -⟩ <;> cases ht.symm.trans hh
    exact hj rfl

theorem State.appStep_turn {w : WaitOutcome} (hst : s.appStep a w = some s') :
    AppTurn a s s' := by
  rw [State.appStep] at hst
  cases hs : s.app a <;> simp only [hs] at hst
  case idle => cases hst
  case setEvent k ended =>
    have ha : (s.app a).holding = some k := by rw [hs]; rfl
    split at hst <;> cases hst
    all_goals
      refine .setSlot ha (.inl rfl) rfl ?_
      rw [hs]
      exact Nat.lt_succ_self _
  case marking k ended pc =>
    have ha : (s.app a).holding = some k := by rw [hs]; rfl
    split at hst <;> cases hst
    · rename_i hpc
      refine .setSlot ha (.inl rfl) rfl ?_
      rw [hs]
      exact Nat.add_lt_add_left (MarkDisconnected.left_lt hpc) _
    · refine .setSlot ha (.inl rfl) rfl ?_
      rw [hs]
      exact Nat.lt_add_of_pos_right pc.left_pos
  case release k ended =>
    have ha : (s.app a).holding = some k := by rw [hs]; rfl
    cases hst
    rw [State.unlock, State.setSlot_setSlot, State.setSlot_slot_self]
    refine .setSlot ha (.inr ⟨rfl, rfl⟩) rfl ?_
    rw [hs]
    exact Nat.lt_succ_self _
  case callDisconnect k =>
    cases hst
    have ha (j : ℕ) : (s.app a).holding ≠ some j := by
      rw [hs]
      rintro ⟨⟩
    have hq : QuietTurn s (s.call k .disconnect) := .setSlot rfl rfl
    have happ : ((s.call k .disconnect).setApp a .idle).app a = .idle := Function.update_self ..
    refine ⟨rfl, rfl, fun b hb => Function.update_of_ne hb .., ?_, hq.connected, fun j => ?_⟩
    · rw [happ, hs]
      exact Nat.one_pos
    · rw [if_neg (ha j), happ]
      refine ⟨?_, hq.lock j⟩
      rintro ⟨⟩

variable [DecidableEq ι]

/-- What every step does to the mutexes and the threads of the server. -/
theorem step_turn {l : Label ι κ} (hst : s.step cfg l = some s') : Turn cfg s s' l := by
  cases l <;> simp only [State.step] at hst
  case stop =>
    cases hst
    exact .quiet (by rintro (_ | _) ⟨⟩) ⟨rfl, rfl, fun _ => rfl, fun _ => rfl, fun _ => rfl⟩
  case tick | exit | shutdown =>
    cases hst
    exact .quiet (by rintro (_ | _) ⟨⟩) ⟨rfl, rfl, id, fun _ => rfl, fun _ => rfl⟩
  case worker w =>
    have hm := workerStep_move hst
    exact .worker hm hm.turn
  case alive b =>
    have hm : WorkerMove cfg s (.alive b) s' := aliveStep_move cfg hst
    exact .worker hm hm.turn
  case disconnectClient a k =>
    split_ifs at hst with hk hc <;> cases hst
    · exact .enters hk.1 hk.2.2 hc rfl rfl rfl rfl rfl rfl rfl
    · exact .quiet (by rintro (_ | _) ⟨⟩) .refl
  case app a w => exact .app (State.appStep_turn hst)
  case sendTo k p =>
    split_ifs at hst <;> cases hst
    · exact .quiet (by rintro (_ | _) ⟨⟩) (.setSlot rfl rfl)
    · exact .quiet (by rintro (_ | _) ⟨⟩) .refl
  case client c o =>
    split_ifs at hst
    exact .quiet (by rintro (_ | _) ⟨⟩)
      ((clientStep_sameServer hst).quietTurn (clientStep_running hst))

end App

end Turns

/-! ### Who holds a mutex -/

section Held

variable [DecidableEq κ] {cfg : Config ι} {s s' : State ι κ}

/-- A mutex that is taken is held by a thread that is inside. -/
def State.Held (s : State ι κ) : Prop := ∀ k o, (s.slot k).lock = some o → s.holding o = some k

theorem State.Held.step {l : Label ι κ} (h : s.Held) (hL : LockInv s') (ht : Turn cfg s s' l) :
    s'.Held := by
  intro k o ho
  cases ht with
  | worker _ ht =>
    rcases ht.lock k with hw | hnone | ⟨hw, hsame⟩
    · cases (hL.worker k hw).symm.trans ho
      exact hw
    · cases hnone.symm.trans ho
    · have hold := h k o (hsame.symm.trans ho)
      cases o with
      | worker => exact absurd hold hw
      | app a => exact (congrArg (fun app => (app a).holding) ht.app).trans hold
  | @app a w ht =>
    have hlock := ht.lock k
    split_ifs at hlock with ha
    · rcases hlock with hin | hnone
      · cases (hL.app a k hin).symm.trans ho
        exact hin
      · cases hnone.symm.trans ho
    · have hold := h k o (hlock.2.symm.trans ho)
      cases o with
      | worker => exact (congrArg Worker.holding ht.worker).trans hold
      | app b =>
        have hb : b ≠ a := fun hba => ha (hba ▸ hold)
        exact (congrArg App.holding (ht.app b hb)).trans hold
  | @enters a j sl t hidle hfree hc hl hc' ht hslot happ hworker hrun =>
    rw [hslot] at ho
    by_cases hk : k = j
    · subst hk
      rw [Function.update_self, hl] at ho
      cases ho
      rw [State.holding, happ, Function.update_self]
      exact ht
    · rw [Function.update_of_ne hk] at ho
      have hold := h k o ho
      cases o with
      | worker => exact (congrArg Worker.holding hworker).trans hold
      | app b =>
        have hb : b ≠ a := by
          rintro rfl
          rw [State.holding, hidle] at hold
          cases hold
        rw [State.holding, happ, Function.update_of_ne hb]
        exact hold
  | quiet _ hq =>
    have hold := h k o ((hq.lock k).symm.trans ho)
    cases o with
    | worker => exact (congrArg Worker.holding hq.worker).trans hold
    | app a => exact (congrArg (fun app => (app a).holding) hq.app).trans hold

theorem held_of_reach [DecidableEq ι] (h : (system κ cfg).Reach s) : LockInv s ∧ s.Held := by
  refine h.invariant (I := fun s => LockInv s ∧ s.Held) ?_ fun s l s' hi _ hst => ?_
  · rintro _ rfl
    exact ⟨.init, by rintro _ _ ⟨⟩⟩
  · have hL := hi.1.step hst
    exact ⟨hL, hi.2.step hL (step_turn hst)⟩

/-- **A mutex is held by the thread that is inside**, and by no other. -/
theorem State.lock_iff [DecidableEq ι] (h : (system κ cfg).Reach s) (k : ℕ) (o : Owner κ) :
    (s.slot k).lock = some o ↔ s.holding o = some k := by
  obtain ⟨hL, hH⟩ := held_of_reach h
  refine ⟨hH k o, fun ho => ?_⟩
  cases o with
  | worker => exact hL.worker k ho
  | app a => exact hL.app a k ho

end Held

/-! ### Nobody is stuck -/

section Enabled

variable [DecidableEq ι] [DecidableEq κ] {cfg : Config ι} {s : State ι κ}

/-- An application thread in `disconnect_client` can always go on. -/
theorem app_enabled {a : κ} (h : s.app a ≠ .idle) :
    (system κ cfg).Enabled (Label.of (.app a)) s := by
  refine ⟨.app a .signalled, rfl, ?_⟩
  change (s.appStep a .signalled).isSome
  rw [State.appStep]
  cases hs : s.app a with
  | idle => exact absurd hs h
  | marking k ended pc => cases pc <;> rfl
  | _ => rfl

/-- The worker can go on unless it waits for a mutex. -/
theorem worker_enabled (h : s.worker ≠ .ended)
    (hfree : ∀ k, s.worker.wants cfg = some k → (s.slot k).lock = none) :
    (system κ cfg).Enabled (Label.of .worker) s := by
  have go (w : WaitOutcome) (hw : (s.workerStep cfg w).isSome) :
      (system κ cfg).Enabled (Label.of .worker) s := ⟨.worker w, trivial, hw⟩
  cases hs : s.worker with
  | ended => exact absurd hs h
  | checkAlive k orphaned claim pid =>
    refine ⟨.alive true, trivial, ?_⟩
    change (s.aliveStep true).isSome
    rw [State.aliveStep, hs]
    rfl
  | waitAny handles =>
    by_cases hany : handles.any s.signalled = true
    · refine go .signalled ?_
      rw [State.workerStep, hs]
      simpa [List.find?_isSome] using hany
    · refine go .timeout ?_
      simp only [State.workerStep, hs, hany]
      rfl
  | handshake k pc =>
    obtain ⟨w, hw, hsome⟩ := pc.step_enabled (s.slot k).seg
    refine go w ?_
    rw [State.workerStep, hs]
    simpa [State.handshakeStep, hw] using hsome
  | reclaim k orphaned | collect k handles | poll k ids =>
    refine go .signalled ?_
    by_cases hk : k < cfg.maxClients
    · have hl := hfree k (by rw [hs, Worker.wants, if_pos hk])
      simp only [State.workerStep, hs, hk, hl, if_true]
      rfl
    · simp only [State.workerStep, hs, hk, if_false]
      rfl
  | orphans orphaned =>
    refine go .signalled ?_
    cases orphaned with
    | nil => simp [State.workerStep, hs]
    | cons o orphaned =>
      have hl := hfree o.1 (by rw [hs]; rfl)
      simp only [State.workerStep, hs, hl, if_true]
      split_ifs <;> rfl
  | receive ids =>
    refine go .signalled ?_
    cases ids with
    | nil => simp [State.workerStep, hs]
    | cons k ids =>
      have hl := hfree k (by rw [hs]; rfl)
      simp only [State.workerStep, hs, hl, if_true]
      split_ifs <;> rfl
  | slotConnect k | slotDisconnect k =>
    refine go .signalled ?_
    have hl := hfree k (by rw [hs]; rfl)
    simp only [State.workerStep, hs, hl, if_true]
    split_ifs <;> rfl
  | orphanCas k expected orphaned =>
    refine go .signalled ?_
    simp only [State.workerStep, hs]
    split_ifs <;> rfl
  | orphanMark k orphaned pc | marking k ended pc =>
    refine go .signalled ?_
    rw [State.workerStep, hs]
    cases pc <;> rfl
  | handshaken k ok =>
    refine go .signalled ?_
    rw [State.workerStep, hs]
    cases ok <;> rfl
  | receiving k left messages ids =>
    refine go .signalled ?_
    simp only [State.workerStep, hs]
    split <;> rfl
  | callMessages k messages ids =>
    refine go .signalled ?_
    rw [State.workerStep, hs]
    cases messages <;> rfl
  | head | claimLoaded | loadOwner | orphanCall | callConnect | release | callDisconnect =>
    refine go .signalled ?_
    rw [State.workerStep, hs]
    rfl

end Enabled

end Multi

end Xshm
