import Mathlib.Data.List.Count
import Xshm.Sending.Worker

/-!
# Where the accepted messages are

A message for which `send` has returned `Ok` is to be in the channel, in the send queue, written to
the ring or evicted from the queue, and the application is to be told how many are evicted.
`drain_commands` evicts without a word; `push_with_cap` reports an eviction when `max_send_queue` is
0 and the queue is empty, and what is in the queue of a session of `MultiClient` is lost with the
session: `not_accounted`.

* `accounted_of_keeps` : the property, if none of the three happens.
-/

namespace Xshm

namespace Sending

/-- The number of messages that the handler has been told are dropped. -/
def Outbox.overflows {M : Type*} (b : Outbox M) : ℕ := (b.calls.map SendCall.count).sum

/-- The places of the messages. -/
def State.places (s : State) : List Sent :=
  s.channel.filterMap Command.msg? ++ s.box.queue ++ s.box.written ++ s.box.evicted

/-- **No silent loss**: every accepted message is in one place, and the evictions are reported, by
`on_overflow` and in auto-mode by `send_overflows`, which wraps. -/
def Accounted (w : Worker) (s : State) : Prop :=
  (∀ msg ∈ s.accepted, s.places.count msg = 1) ∧
    s.box.evicted.length + s.box.ringReported = s.box.overflows ∧
    (w ≠ .multiClient →
      UInt64.ofNat (s.box.evicted.length + s.box.ringReported) = s.box.sendOverflows)

/-- The step takes a `Send` command from the channel. -/
def State.takesSend (s : State) : Label → Bool
  | .worker _ =>
    match s.point, s.channel with
    | .draining _, .send _ :: _ => true
    | _, _ => false
  | _ => false

/-- The step ends `wait_delay`, and with it the pass through the outer loop. -/
def State.endsPass (s : State) : Label → Bool
  | .worker _ => s.point = .delaying
  | _ => false

/-- A `Send` command does not evict in auto-mode, and meets an empty queue in `MultiClient` only if
the queue may hold a message; a session of `MultiClient` ends with an empty queue, unless the worker
ends. -/
def Keeps (w : Worker) (maxSendQueue : ℕ) (s : State) (l : Label) : Prop :=
  (w ≠ .multiClient → s.takesSend l = true → maxSendQueue ≤ s.box.queue.length →
      s.box.queue = []) ∧
    (w = .multiClient → s.takesSend l = true → s.box.queue = [] → 0 < maxSendQueue) ∧
    (w = .multiClient → s.endsPass l = true → s.running = true → s.box.queue = [])

instance (w : Worker) (maxSendQueue : ℕ) (s : State) (l : Label) :
    Decidable (Keeps w maxSendQueue s l) :=
  inferInstanceAs (Decidable ((_ → _ → _ → _) ∧ (_ → _ → _ → _) ∧ (_ → _ → _ → _)))

/-! ### The invariant -/

/-- What every step keeps while the worker runs. -/
structure Tidy (w : Worker) (s : State) : Prop where
  perm : s.places.Perm s.accepted
  serial : s.accepted.map Sent.serial = List.range s.accepted.length
  overflows : s.box.evicted.length + s.box.ringReported = s.box.overflows
  sendOverflows : w ≠ .multiClient →
    UInt64.ofNat (s.box.evicted.length + s.box.ringReported) = s.box.sendOverflows

theorem nodup_of_serial {l : List Sent} (h : l.map Sent.serial = List.range l.length) :
    l.Nodup := by
  refine List.Nodup.of_map Sent.serial ?_
  rw [h]
  exact List.nodup_range

theorem Tidy.accounted {w : Worker} {s : State} (h : Tidy w s) : Accounted w s := by
  refine ⟨fun msg hmsg => ?_, h.overflows, h.sendOverflows⟩
  rw [h.perm.count_eq, List.count_eq_one_of_mem (nodup_of_serial h.serial) hmsg]

section

variable {w : Worker} {maxSendQueue : ℕ} {b : Outbox Sent}

theorem head?_toList_append_tail {α : Type*} (l : List α) : l.head?.toList ++ l.tail = l := by
  cases l <;> rfl

variable (w maxSendQueue b) in
/-- A message put into the queue is in the queue, and one that leaves it is evicted. -/
theorem push_places (msg : Sent) :
    ((w.push maxSendQueue b msg).queue ++ (w.push maxSendQueue b msg).evicted).Perm
        (msg :: (b.queue ++ b.evicted)) ∧ (w.push maxSendQueue b msg).written = b.written := by
  have hfull : ((b.queue.tail ++ [msg]) ++ (b.evicted ++ b.queue.head?.toList)).Perm
      (msg :: (b.queue ++ b.evicted)) := by
    rw [List.perm_iff_count]
    intro a
    conv_rhs => rw [← head?_toList_append_tail b.queue]
    simp only [List.count_append, List.count_cons, List.count_nil]
    omega
  have hroom : ((b.queue ++ [msg]) ++ b.evicted).Perm (msg :: (b.queue ++ b.evicted)) := by
    rw [List.append_assoc]
    exact List.perm_middle
  cases w with
  | autoServer | autoClient =>
    unfold Worker.push Outbox.push
    split_ifs
    · exact ⟨hfull, rfl⟩
    · exact ⟨hroom, rfl⟩
  | multiClient =>
    unfold Worker.push
    by_cases h : maxSendQueue ≤ b.queue.length
    · rw [Outbox.pushReporting_of_full _ h]
      exact ⟨hfull, rfl⟩
    · rw [Outbox.pushReporting_of_room _ h]
      exact ⟨hroom, rfl⟩

variable (w maxSendQueue b) in
/-- An eviction is reported, under the condition. -/
theorem push_overflows (msg : Sent)
    (hauto : w ≠ .multiClient → maxSendQueue ≤ b.queue.length → b.queue = [])
    (hmulti : w = .multiClient → b.queue = [] → 0 < maxSendQueue) :
    ∃ k, (w.push maxSendQueue b msg).evicted.length = b.evicted.length + k ∧
      (w.push maxSendQueue b msg).overflows = b.overflows + k ∧
      (w.push maxSendQueue b msg).ringReported = b.ringReported ∧
      (w ≠ .multiClient → k = 0 ∧ (w.push maxSendQueue b msg).sendOverflows = b.sendOverflows) := by
  cases w with
  | autoServer | autoClient =>
    refine ⟨0, ?_⟩
    unfold Worker.push Outbox.push
    split_ifs with hfull
    · rw [hauto (by rintro ⟨⟩) hfull]
      simp [Outbox.overflows]
    · simp [Outbox.overflows]
  | multiClient =>
    unfold Worker.push
    by_cases hfull : maxSendQueue ≤ b.queue.length
    · refine ⟨1, ?_⟩
      rw [Outbox.pushReporting_of_full _ hfull]
      cases hq : b.queue with
      | nil =>
        have := hmulti rfl hq
        rw [hq, List.length_nil] at hfull
        omega
      | cons msg' queue => simp [Outbox.overflows, SendCall.count]
    · refine ⟨0, ?_⟩
      rw [Outbox.pushReporting_of_room _ hfull]
      simp [Outbox.overflows]

/-- A message that is sent moves from the queue to the ring. -/
theorem trySend_places {msg : Sent} {queue : List Sent} (h : b.queue = msg :: queue)
    (result : Except ShmError WriteOutcome) :
    ((w.trySend b result).1.queue ++ (w.trySend b result).1.written).Perm (b.queue ++ b.written) ∧
      (w.trySend b result).1.evicted = b.evicted := by
  have hev : (w.trySend b result).1.evicted = b.evicted := by
    unfold Worker.trySend Outbox.popAndSend Outbox.sendFront
    cases w <;> simp only [h]
    all_goals
      split
      all_goals rfl
  cases result with
  | ok outcome =>
    obtain ⟨-, hq, hw⟩ := w.trySend_ok h outcome
    refine ⟨?_, hev⟩
    rw [hq, hw, h, List.perm_iff_count]
    intro a
    simp only [List.count_append, List.count_cons, List.count_nil]
    omega
  | error e =>
    obtain ⟨-, hq, hw⟩ := w.trySend_error b e
    rw [hq, hw]
    exact ⟨.refl _, hev⟩

/-- What `write_message` drops is reported in auto-mode, and is not looked at in `MultiClient`. -/
theorem trySend_overflows {msg : Sent} {queue : List Sent} (h : b.queue = msg :: queue)
    (result : Except ShmError WriteOutcome) :
    ∃ k, (w.trySend b result).1.ringReported = b.ringReported + k ∧
      (w.trySend b result).1.overflows = b.overflows + k ∧
      (w ≠ .multiClient →
        (w.trySend b result).1.sendOverflows = b.sendOverflows + UInt64.ofNat k) := by
  cases w with
  | autoServer | autoClient =>
    unfold Worker.trySend Outbox.popAndSend
    cases result with
    | ok outcome =>
      refine ⟨outcome.overwritten.toNat, ?_⟩
      by_cases hpos : 0 < outcome.overwritten
      · simp [h, hpos, Outbox.overflows, SendCall.count]
      · have hzero : outcome.overwritten = 0 := by
          rw [UInt32.lt_iff_toNat_lt] at hpos
          exact UInt32.toNat_inj.1 (Nat.eq_zero_of_not_pos hpos)
        simp [h, hzero, Outbox.overflows]
    | error e =>
      refine ⟨0, ?_⟩
      cases e <;> simp [h, Outbox.overflows, SendCall.count]
  | multiClient =>
    refine ⟨0, ?_⟩
    unfold Worker.trySend Outbox.sendFront
    cases result with
    | ok outcome => simp [h, Outbox.overflows]
    | error e => cases e <;> simp [h, Outbox.overflows, SendCall.count]

end

section

variable {w : Worker} {maxSendQueue : ℕ} {s s' : State}

/-- While the worker runs or has not ended, every message is accounted for. -/
def TidyInv (w : Worker) (s : State) : Prop :=
  if s.point = .ended then s.running = false else Tidy w s

theorem Tidy.workerStep (h : Tidy w s) {o : Outcome} (hC : Keeps w maxSendQueue s (.worker o))
    (hst : s.workerStep w maxSendQueue o = some s') : TidyInv w s' := by
  cases workerStep_cases hst with
  | @take connected msg channel hpoint hc =>
    have hsend : s.takesSend (.worker o) = true := by
      simp only [State.takesSend, hpoint, hc]
    obtain ⟨hplaces, hwritten⟩ := push_places w maxSendQueue s.box msg
    obtain ⟨k, hev, hov, hring, hsov⟩ := push_overflows w maxSendQueue s.box msg
      (fun hw => hC.1 hw hsend) (fun hw => hC.2.1 hw hsend)
    rw [TidyInv, if_neg (by rw [hpoint]; rintro ⟨⟩)]
    refine { h with perm := .trans ?_ h.perm, overflows := ?_, sendOverflows := fun hw => ?_ }
    · have hp := List.perm_iff_count.1 hplaces
      rw [List.perm_iff_count]
      intro a
      have := hp a
      simp only [State.places, hc, Command.msg?, List.filterMap_cons, List.count_append, hwritten,
        List.count_cons] at this ⊢
      omega
    · have := h.overflows
      simp only [hev, hov, hring]
      omega
    · have := h.sendOverflows hw
      obtain ⟨hk, hs⟩ := hsov hw
      rwa [hev, hs, hring, hk, Nat.add_zero]
  | shutdown hpoint hc =>
    rw [TidyInv, if_neg (by rw [hpoint]; rintro ⟨⟩)]
    refine { h with perm := ?_ }
    have := h.perm
    simpa only [State.places, hc, Command.msg?, List.filterMap_cons] using this
  | @trySend msg queue result hpoint hq =>
    obtain ⟨hplaces, hev⟩ := trySend_places (w := w) hq result
    obtain ⟨k, hring, hov, hsov⟩ := trySend_overflows (w := w) hq result
    rw [TidyInv, if_neg (by split_ifs <;> rintro ⟨⟩)]
    refine { h with perm := .trans ?_ h.perm, overflows := ?_, sendOverflows := fun hw => ?_ }
    · have hp := List.perm_iff_count.1 hplaces
      rw [List.perm_iff_count]
      intro a
      have := hp a
      simp only [State.places, List.count_append, hev] at this ⊢
      omega
    · have := h.overflows
      simp only [hev, hov, hring]
      omega
    · have := h.sendOverflows hw
      rw [hev, hsov hw, hring, ← Nat.add_assoc, UInt64.ofNat_add, this]
  | endPass hpoint =>
    by_cases hrun : s.running = true
    · have hsame : s.endPass w = s := by
        cases w with
        | autoServer | autoClient => rfl
        | multiClient =>
          have := hC.2.2 rfl (by simp only [State.endsPass, hpoint, decide_true]) hrun
          unfold State.endPass
          rw [← this]
      rw [hsame, TidyInv, if_neg (by rw [hrun]; rintro ⟨⟩)]
      exact { h with }
    · rw [TidyInv, if_pos (by rw [if_neg hrun])]
      cases w <;> exact Bool.eq_false_iff.2 hrun
  | goto hended _ _ _ _ =>
    rw [TidyInv]
    split_ifs with he
    · exact hended he
    · exact { h with }

/-- A message accepted by `send`. -/
theorem Tidy.send (h : Tidy w s) (data : Payload) : Tidy w { s with
    channel := s.channel ++ [.send ⟨s.accepted.length, data⟩]
    accepted := s.accepted ++ [⟨s.accepted.length, data⟩] } where
  perm := by
    have hp := List.perm_iff_count.1 h.perm
    rw [List.perm_iff_count]
    intro a
    have := hp a
    simp only [State.places, List.filterMap_append, List.filterMap_cons, List.filterMap_nil,
      Command.msg?, List.count_append] at this ⊢
    omega
  serial := by
    rw [List.map_append, h.serial, List.length_append, List.length_singleton, List.range_succ]
    rfl
  overflows := h.overflows
  sendOverflows := h.sendOverflows

/-- **Every step keeps the invariant.** -/
theorem TidyInv.step (h : TidyInv w s) {l : Label} (hC : Keeps w maxSendQueue s l)
    (hst : (system w maxSendQueue).step s l = some s') : TidyInv w s' := by
  by_cases he : s.point = .ended
  · -- the worker has ended, and only `drop` can be called
    rw [TidyInv, if_pos he] at h
    cases l with
    | send data | stop =>
      simp only [system, he, if_true] at hst
      cases hst
    | drop =>
      cases hst
      rw [TidyInv, if_pos he]
    | worker o =>
      simp only [system, State.workerStep, he] at hst
      cases hst
  · rw [TidyInv, if_neg he] at h
    cases l with
    | send data =>
      simp only [system, if_neg he] at hst
      cases hst
      rw [TidyInv, if_neg he]
      exact h.send data
    | stop =>
      simp only [system, if_neg he] at hst
      cases hst
      rw [TidyInv, if_neg he]
      have hsame : (s.channel ++ [Command.shutdown]).filterMap Command.msg? =
          s.channel.filterMap Command.msg? := by
        rw [List.filterMap_append]
        exact List.append_nil _
      refine { h with perm := ?_ }
      have := h.perm
      simp only [State.places, hsame] at this ⊢
      exact this
    | drop =>
      cases hst
      rw [TidyInv, if_neg he]
      exact { h with }
    | worker o => exact h.workerStep hC hst

end

/-- **No silent loss**, if nothing is evicted without a word, reported without an eviction or
dropped with a session. -/
theorem accounted_of_keeps (w : Worker) (maxSendQueue : ℕ) (s : State)
    (h : (system w maxSendQueue).ReachWhen (Keeps w maxSendQueue) s) (hrun : s.running = true) :
    Accounted w s := by
  have hinv : TidyInv w s := by
    refine System.ReachWhen.invariant ?_ (fun s l s' hI hC hst => TidyInv.step hI hC hst) h
    intro s hs
    change s = {} at hs
    subst hs
    rw [TidyInv, if_neg (by rintro ⟨⟩)]
    exact ⟨.refl _, rfl, rfl, fun _ => rfl⟩
  rw [TidyInv] at hinv
  split_ifs at hinv with he
  · rw [hinv] at hrun
    cases hrun
  · exact hinv.accounted

/-- A client of `MultiClient` evicts a message, reports it and writes the next one. -/
theorem accounted_of_keeps_evicted :
    ∃ s, (system .multiClient 1).ReachWhen (Keeps .multiClient 1) s ∧
      (s.box.evicted.length, s.box.written.length, s.running) = (1, 1, true) ∧
      Accounted .multiClient s := by
  obtain ⟨s, hs, hf⟩ := System.exists_reachWhen (A := system .multiClient 1)
    (C := Keeps .multiClient 1) (s := {})
    (f := fun s => (s.box.evicted.length, s.box.written.length, s.running))
    (r := [.send [1, 2], .send [3, 4], .worker .failed, .worker .succeeded, .worker .succeeded,
      .worker .failed, .worker .failed, .worker .failed, .worker .failed,
      .worker (.wrote (.ok ⟨0, true⟩))]) rfl rfl
  exact ⟨s, hs, hf, accounted_of_keeps .multiClient 1 s hs (Prod.mk.inj (Prod.mk.inj hf).2).2⟩

/-- A server of auto-mode without a client evicts a message and tells nobody. -/
theorem not_accounted : ¬ ∀ (w : Worker) (maxSendQueue : ℕ) (s : State),
    (system w maxSendQueue).Reach s → s.running = true → Accounted w s := by
  intro h
  obtain ⟨s, hs, hf⟩ := System.exists_reachWhen (A := system .autoServer 1)
    (C := fun _ _ => True) (s := {})
    (f := fun s => (s.running, s.box.evicted.length + s.box.ringReported, s.box.overflows))
    (r := [.send [1, 2], .send [3, 4], .worker .failed, .worker .failed, .worker .failed,
      .worker .failed]) rfl rfl
  obtain ⟨hrun, hf⟩ := Prod.mk.inj hf
  obtain ⟨hev, hov⟩ := Prod.mk.inj hf
  have := (h .autoServer 1 s hs hrun).2.1
  rw [hev, hov] at this
  cases this

end Sending

end Xshm
