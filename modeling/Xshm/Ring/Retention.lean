import Xshm.Circular.Retention
import Xshm.Ring.Queue

/-!
# How much of what is written can still be read

A ring drops its oldest messages to make room, so the newest ones are safe: if no message is longer
than `L`, the newest `min 500 (ringCapacity / (L + 4))` messages that were written have been read
or are in the ring, whatever was called in between (`newest_kept`); for messages of any length these
are 31.
-/

namespace Xshm

/-- The messages written to a ring and read from it since it was reset. -/
structure Traffic where
  sent : List Payload := []
  received : List Payload := []

/-- A call and its reply. -/
def Traffic.record (t : Traffic) : Call → Reply → Traffic
  | .reset _, _ => {}
  | .write p, .write (.ok _) => { t with sent := t.sent ++ [p] }
  | .read, .read (.ok (_, out)) => { t with received := t.received ++ [out] }
  | _, _ => t

/-- Calls one after the other, with the messages they write and read. -/
def Ring.traffic (r : Ring) (t : Traffic) : List Call → Ring × Traffic
  | [] => (r, t)
  | c :: cs => (r.call c).2.traffic (t.record c (r.call c).1) cs

/-- The number of messages of at most `L` bytes for which a ring has room in any case. -/
def keptMessages (L : ℕ) : ℕ := min maxMessages.toNat (ringCapacity / (L + messageHeaderSize))

theorem keptMessages_eq (L : ℕ) : keptMessages L = ringQueue.keeps (L + messageHeaderSize) := rfl

/-- What the messages in the ring and the traffic have to do with each other. -/
structure TrafficOk (L : ℕ) (t : Traffic) (Q : List Payload) : Prop where
  kept : DropOldest.Kept (keptMessages L) t.sent t.received Q
  length_le : ∀ p ∈ Q, p.length ≤ L

/-- **One call keeps the newest messages.** -/
theorem TrafficOk.call {L : ℕ} {t : Traffic} {m : MessageQueue} (h : TrafficOk L t m.queue)
    (c : Call) (hL : ∀ p, c = .write p → p.Valid → p.length ≤ L) :
    TrafficOk L (t.record c (m.call c).1) (m.call c).2.queue := by
  cases c with
  | reset generation => exact ⟨.nil _, fun p hp => absurd hp List.not_mem_nil⟩
  | write p =>
    have hsize {b : Payload} (hb : b.length ≤ L) : ringQueue.size b ≤ L + messageHeaderSize :=
      Nat.add_le_add_right hb _
    simp only [MessageQueue.call]
    split_ifs with hmin hmax
    · exact h
    · exact h
    · have hp := hL p rfl ⟨not_lt.1 hmin, not_lt.1 hmax⟩
      refine ⟨h.kept.push (keptMessages_eq L).le (fun b hb => hsize (h.length_le b hb))
        (hsize hp), fun b hb => ?_⟩
      rcases List.mem_append.1 hb with hb | hb
      · exact h.length_le b (List.mem_of_mem_drop hb)
      · exact List.mem_singleton.1 hb ▸ hp
  | read =>
    obtain ⟨Q, n⟩ := m
    cases Q with
    | nil => exact h
    | cons q Q => exact ⟨h.kept.pop, fun b hb => h.length_le b (List.mem_cons_of_mem _ hb)⟩

theorem TrafficOk.traffic {L : ℕ} {r : Ring} {t : Traffic} {m : MessageQueue}
    (hr : Represents r m.queue m.drops) (h : TrafficOk L t m.queue) {cs : List Call}
    (hL : ∀ p, Call.write p ∈ cs → p.Valid → p.length ≤ L) :
    ∃ Q n, Represents (r.traffic t cs).1 Q n ∧ TrafficOk L (r.traffic t cs).2 Q := by
  induction cs generalizing r t m with
  | nil => exact ⟨_, _, hr, h⟩
  | cons c cs ih =>
    obtain ⟨hreply, hr'⟩ := represents_call hr c
    have h' := h.call c fun p hp => hL p (hp ▸ List.mem_cons_self)
    rw [Ring.traffic, hreply]
    exact ih hr' h' fun p hp => hL p (List.mem_cons_of_mem _ hp)

/-- **The newest messages are never dropped.**  After any calls on a ring that was reset, with
messages of at most `L` bytes, what was read and what is still in the ring is what was written, in
this order, but for older messages than the newest `keptMessages L`. -/
theorem newest_kept (r : Ring) (generation : UInt32) (L : ℕ) (cs : List Call)
    (hL : ∀ p, Call.write p ∈ cs → p.Valid → p.length ≤ L) :
    ∃ Q n, Represents ((r.reset generation).traffic {} cs).1 Q n ∧
      let t := ((r.reset generation).traffic {} cs).2
      (t.received ++ Q).Sublist t.sent ∧
        t.sent.drop (t.sent.length - keptMessages L) <:+ t.received ++ Q := by
  obtain ⟨Q, n, hr, h⟩ := TrafficOk.traffic (m := {}) (L := L) (t := {})
    (represents_reset r generation) ⟨.nil _, fun p hp => absurd hp List.not_mem_nil⟩ hL
  exact ⟨Q, n, hr, h.kept.inOrder, h.kept.newest⟩

theorem Traffic.record_write (t : Traffic) (p : Payload) (outcome : ℕ × Bool) :
    t.record (.write p) (.write (.ok outcome)) = { t with sent := t.sent ++ [p] } := rfl

/-- Messages of an allowed length are all written. -/
theorem Represents.traffic_writes {r : Ring} {Q : List Payload} {n : ℕ} (h : Represents r Q n)
    (t : Traffic) {ps : List Payload} (hps : ∀ p ∈ ps, p.Valid) :
    (r.traffic t (ps.map .write)).2 = { t with sent := t.sent ++ ps } := by
  induction ps generalizing r Q n t with
  | nil => simp only [List.map_nil, Ring.traffic, List.append_nil]
  | cons p ps ih =>
    obtain ⟨hmin, hmax⟩ := hps p List.mem_cons_self
    obtain ⟨hreply, h'⟩ := represents_call (m := ⟨Q, n⟩) h (.write p)
    simp only [MessageQueue.call, if_neg (not_lt.2 hmin), if_neg (not_lt.2 hmax)] at hreply
    rw [List.map_cons, Ring.traffic, ih h' _ fun q hq => hps q (List.mem_cons_of_mem _ hq), hreply]
    simp only [Traffic.record_write, List.append_assoc, List.singleton_append]

/-- More messages than a ring holds. -/
def manyMessages : List Payload :=
  (List.range 501).map fun k => [UInt8.ofNat (k / 256), UInt8.ofNat k]

theorem length_of_mem_manyMessages {p : Payload} (hp : p ∈ manyMessages) : p.length = 2 := by
  obtain ⟨k, -, rfl⟩ := List.mem_map.1 hp
  rfl

/-- The oldest message is dropped, and no other. -/
theorem newest_kept_manyMessages :
    let r : Ring := ⟨⟨0, 0, 0, 0, 0, 0, 0⟩, fun _ => 0⟩
    ∃ Q n, Represents ((r.reset 1).traffic {} (manyMessages.map .write)).1 Q n ∧
      Q.length < manyMessages.length ∧ manyMessages.drop 1 <:+ Q := by
  intro r
  have hvalid (p : Payload) (hp : p ∈ manyMessages) : p.Valid := by
    rw [Payload.Valid, length_of_mem_manyMessages hp]
    decide
  obtain ⟨Q, n, hr, -, hnewest⟩ := newest_kept r 1 2 (manyMessages.map .write) fun p hp _ => by
    obtain ⟨q, hq, hpq⟩ := List.mem_map.1 hp
    cases hpq
    exact (length_of_mem_manyMessages hq).le
  rw [(represents_reset r 1).traffic_writes {} hvalid] at hnewest
  have hlen : manyMessages.length = 501 := by rw [manyMessages, List.length_map, List.length_range]
  refine ⟨Q, n, hr, ?_, ?_⟩
  · rw [hlen]
    exact Nat.lt_succ_of_le hr.length_le
  · simpa only [List.nil_append, hlen, show 501 - keptMessages 2 = 1 by decide] using hnewest

/-- Messages of any length: the newest 31 are safe. -/
example : keptMessages maxMessageSize = 31 := by decide

end Xshm
