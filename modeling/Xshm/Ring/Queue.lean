import Xshm.Ring.Sequential

/-!
# The ring as a queue of messages

Calls made one after the other on a reset ring behave as a bounded queue of payloads that drops
its oldest elements (`DropOldest` with the frame sizes, the capacity and the message limit).

`Represents r Q n` relates a ring to the queue `Q` and the number `n` of messages dropped since
the reset: the bytes written so far are the stream `past ++ frames of Q`, `read_pos` and
`write_pos` are the two ends of the frames of `Q` in this stream, modulo `2 ^ 32`, and the
storage holds the last `ringCapacity` bytes of the stream.  Every call keeps it
(`represents_writeMessage`, `represents_readMessage`), whatever laps the positions have made.
-/

namespace Xshm

open Circular

/-- The limits of a ring. -/
def ringQueue : DropOldest Payload where
  size p := p.length + messageHeaderSize
  capacity := ringCapacity
  maxCount := maxMessages.toNat

/-- The bytes of the frames of a list of payloads. -/
def framesBytes (Q : List Payload) : List UInt8 := Q.flatMap frameBytes

@[simp] theorem framesBytes_nil : framesBytes [] = [] := rfl

@[simp] theorem framesBytes_cons (p : Payload) (Q : List Payload) :
    framesBytes (p :: Q) = frameBytes p ++ framesBytes Q := rfl

@[simp] theorem framesBytes_append (Q Q' : List Payload) :
    framesBytes (Q ++ Q') = framesBytes Q ++ framesBytes Q' := by
  simp [framesBytes]

theorem length_framesBytes (Q : List Payload) : (framesBytes Q).length = ringQueue.used Q := by
  induction Q with
  | nil => rfl
  | cons p Q ih =>
    simp only [framesBytes_cons, List.length_append, length_frameBytes, ih, DropOldest.used_cons]
    simp only [ringQueue]
    omega

/-- The length field at the start of a frame that is still in the window. -/
theorem readU16_of_holds {st : Storage} {past post : List UInt8} {p : Payload} (hp : p.Valid)
    (h : Holds ringCapacity st (past ++ frameBytes p ++ post))
    (hle : (past ++ frameBytes p ++ post).length ≤ past.length + ringCapacity) :
    (readU16 st (past.length % ringCapacity)).toNat = p.length := by
  have h₀ := h.get_block (k := 0) (by simp [messageHeaderSize]) hle
  have h₁ := h.get_block (k := 1) (by simp [messageHeaderSize]; omega) hle
  rw [Nat.add_zero] at h₀
  rw [readU16_eq, h₀, h₁]
  exact (congrArg UInt16.toNat (fromLeBytes_toLeBytes _)).trans (toNat_ofNat_length hp)

/-- The payload of a frame that is still in the window. -/
theorem readFrom_of_holds {st : Storage} {past post : List UInt8} {p : Payload}
    (h : Holds ringCapacity st (past ++ frameBytes p ++ post))
    (hle : (past ++ frameBytes p ++ post).length ≤ past.length + ringCapacity) :
    readFrom ringCapacity st (past.length + messageHeaderSize) p.length = p := by
  have hlen : (past ++ (toLeBytes (UInt16.ofNat p.length) ++ toLeBytes 0)).length =
      past.length + messageHeaderSize := by
    simp [messageHeaderSize]
  have hstr : past ++ frameBytes p ++ post =
      past ++ (toLeBytes (UInt16.ofNat p.length) ++ toLeBytes 0) ++ p ++ post := by
    simp [frameBytes, List.append_assoc]
  rw [hstr] at h hle
  have := h.readAt (by rw [hlen]; omega)
  rwa [hlen] at this

/-- The ring `r` represents the queue `Q` after `n` messages have been dropped. -/
structure Represents (r : Ring) (Q : List Payload) (n : ℕ) : Prop where
  stream : ∃ past : List UInt8,
    r.header.readPos = UInt32.ofNat past.length ∧
    r.header.writePos = UInt32.ofNat (past ++ framesBytes Q).length ∧
    Holds ringCapacity r.storage (past ++ framesBytes Q)
  messageCount : r.header.messageCount = UInt32.ofNat Q.length
  dropCount : r.header.dropCount = UInt32.ofNat n
  bounded : ringQueue.Bounded Q
  valid : ∀ p ∈ Q, p.Valid

theorem represents_reset (r : Ring) (generation : UInt32) :
    Represents (r.reset generation) [] 0 where
  stream := ⟨[], rfl, rfl, holds_nil _⟩
  messageCount := rfl
  dropCount := rfl
  bounded := DropOldest.Bounded.nil
  valid := by simp

namespace Represents

variable {r : Ring} {Q : List Payload} {n : ℕ}

theorem length_le (h : Represents r Q n) : Q.length ≤ 500 := h.bounded.length_le

theorem toNat_messageCount (h : Represents r Q n) : r.header.messageCount.toNat = Q.length := by
  rw [h.messageCount, toNat_ofNat_of_lt (by have := h.length_le; omega)]

theorem messageCount_eq_zero (h : Represents r Q n) : r.header.messageCount = 0 ↔ Q = [] := by
  rw [← List.length_eq_zero_iff, ← h.toNat_messageCount, ← UInt32.toNat_inj]
  rfl

/-- The test before an eviction is that of the queue. -/
theorem mustEvict_iff (h : Represents r Q n) {p : Payload} (hp : p.Valid) :
    MustEvict p r.header.writePos r.header.readPos r.header.messageCount ↔
      ¬ ringQueue.Fits Q p := by
  obtain ⟨past, hr, hw, -⟩ := h.stream
  have hb := h.bounded.used_le
  rw [← length_framesBytes] at hb
  have hlen : (past ++ framesBytes Q).length = past.length + (framesBytes Q).length := by simp
  have hsub : (past ++ framesBytes Q).length - past.length = (framesBytes Q).length := by omega
  have hc := h.toNat_messageCount
  rw [MustEvict, hr, hw, availableBytes_ofNat (by omega) (by rw [hsub]; exact hb), hsub,
    toNat_totalRequired hp, UInt32.le_iff_toNat_le, hc, DropOldest.Fits, ← length_framesBytes]
  simp only [ringQueue, messageHeaderSize]
  omega

/-- The frame of the head of the queue can be read at `read_pos`. -/
theorem head {q : Payload} (h : Represents r (q :: Q) n) :
    (readU16 r.storage (maskIndex r.header.readPos)).toNat = q.length ∧
      copyFromWrapped r.storage
        ((maskIndex r.header.readPos + messageHeaderSize) &&& ringMask.toNat) q.length = q := by
  obtain ⟨past, hr, -, hst⟩ := h.stream
  have hq : q.Valid := h.valid q List.mem_cons_self
  have hb := h.bounded.used_le
  have hle : (past ++ frameBytes q ++ framesBytes Q).length ≤ past.length + ringCapacity := by
    rw [← length_framesBytes] at hb
    simpa [ringQueue, Nat.add_assoc] using hb
  rw [framesBytes_cons, ← List.append_assoc] at hst
  have hcap : q.length ≤ ringCapacity := by
    have := hq.2
    simp only [maxMessageSize, ringCapacity] at this ⊢
    omega
  rw [hr, maskIndex_ofNat]
  refine ⟨readU16_of_holds hq hst hle, ?_⟩
  rw [copyFromWrapped_eq _ _ _ hcap, and_ringMask, Nat.mod_add_mod, readFrom_mod]
  exact readFrom_of_holds hst hle

/-- Moving `read_pos` past the head and lowering the count removes the head. -/
theorem advance {q : Payload} {r' : Ring} {n' : ℕ} (h : Represents r (q :: Q) n)
    (hread : r'.header.readPos =
      r.header.readPos + UInt32.ofNat (messageHeaderSize + q.length))
    (hwrite : r'.header.writePos = r.header.writePos)
    (hcount : r'.header.messageCount = r.header.messageCount - 1)
    (hstorage : r'.storage = r.storage) (hdrop : r'.header.dropCount = UInt32.ofNat n') :
    Represents r' Q n' := by
  obtain ⟨past, hr, hw, hst⟩ := h.stream
  refine ⟨⟨past ++ frameBytes q, ?_, ?_, ?_⟩, ?_, hdrop, h.bounded.tail, fun p hp =>
    h.valid p (List.mem_cons_of_mem _ hp)⟩
  · rw [hread, hr, ofNat_add, List.length_append, length_frameBytes]
  · rw [hwrite, hw, framesBytes_cons, List.append_assoc]
  · rwa [hstorage, List.append_assoc]
  · rw [hcount, h.messageCount, List.length_cons, ← ofNat_add]
    simp

/-- The positions differ while something is queued. -/
theorem readPos_ne_writePos {q : Payload} (h : Represents r (q :: Q) n) :
    r.header.readPos ≠ r.header.writePos := by
  obtain ⟨past, hr, hw, -⟩ := h.stream
  have hb := h.bounded.used_le
  rw [← length_framesBytes] at hb
  have hcap : ringQueue.capacity < 2 ^ 32 := by decide
  have hlen : (past ++ framesBytes (q :: Q)).length =
      past.length + (framesBytes (q :: Q)).length := by simp
  have hpos : 0 < (framesBytes (q :: Q)).length := by simp [messageHeaderSize]
  rw [hr, hw]
  intro he
  have := ofNat_inj_of_lt (by omega) (by omega) he.symm
  omega

/-- **`discard_oldest` drops the head of the queue.** -/
theorem discardOldest {q : Payload} (h : Represents r (q :: Q) n) :
    ∃ r', r.discardOldest = .ok r' ∧ Represents r' Q (n + 1) := by
  have hq : LengthOk q.length := h.valid q List.mem_cons_self
  obtain ⟨hlen, -⟩ := h.head
  refine ⟨{ r with header := { r.header with
    readPos := r.header.readPos + UInt32.ofNat (messageHeaderSize + q.length)
    messageCount := r.header.messageCount - 1
    dropCount := r.header.dropCount + 1 } }, ?_, h.advance rfl rfl rfl rfl ?_⟩
  · simp only [Ring.discardOldest, h.readPos_ne_writePos, hlen, hq, not_true_eq_false, ↓reduceIte]
  · simp [h.dropCount]

/-- Storing a frame that fits appends it to the queue. -/
theorem commit (h : Represents r Q n) {p : Payload} (hp : p.Valid) (hf : ringQueue.Fits Q p)
    (k : UInt32) : Represents (r.commit p k).2 (Q ++ [p]) n := by
  obtain ⟨past, hr, hw, hst⟩ := h.stream
  have hidx : maskIndex r.header.writePos = (past ++ framesBytes Q).length % ringCapacity := by
    rw [hw, maskIndex_ofNat]
  refine ⟨⟨past, hr, ?_, ?_⟩, ?_, h.dropCount, DropOldest.Bounded.snoc hf, ?_⟩
  · simp only [Ring.commit, hw, totalRequired, ofNat_add]
    congr 1
    simp [Nat.add_assoc]
  · simp only [Ring.commit, hidx, storeFrame_eq _ _ hp]
    have := holds_append hst (frameBytes p)
    simpa using this
  · simp [Ring.commit, h.messageCount]
  · intro p' hp'
    rcases List.mem_append.1 hp' with hp' | hp'
    · exact h.valid p' hp'
    · rwa [List.mem_singleton.1 hp']

/-- The eviction loop drops the shortest prefix that makes room and appends the payload. -/
theorem writeLoop (h : Represents r Q n) {p : Payload} (hp : p.Valid) (k : UInt32) :
    ∃ r', Ring.writeLoop p k r =
        (.ok ⟨k + UInt32.ofNat (ringQueue.excess Q p),
          (Q.drop (ringQueue.excess Q p)).isEmpty⟩, r') ∧
      Represents r' (ringQueue.push Q p) (n + ringQueue.excess Q p) := by
  induction Q generalizing r n k with
  | nil =>
    have hfit : ringQueue.Fits [] p := DropOldest.fits_drop_excess (by
      have := hp.2
      simp only [ringQueue, maxMessageSize, ringCapacity, messageHeaderSize] at this ⊢
      omega) (by decide) []
    have hm := (h.mustEvict_iff hp).not.2 (not_not.2 hfit)
    refine ⟨(r.commit p k).2, ?_, h.commit hp hfit k⟩
    rw [Ring.writeLoop, if_neg hm]
    simp [Ring.commit, h.messageCount, DropOldest.excess]
  | cons q Q ih =>
    by_cases hfit : ringQueue.Fits (q :: Q) p
    · have hm := (h.mustEvict_iff hp).not.2 (not_not.2 hfit)
      refine ⟨(r.commit p k).2, ?_, ?_⟩
      · have hc : r.header.messageCount ≠ 0 := h.messageCount_eq_zero.not.2 (by simp)
        rw [Ring.writeLoop, if_neg hm, DropOldest.excess_of_fits hfit]
        simp [Ring.commit, hc]
      · rw [DropOldest.push, DropOldest.excess_of_fits hfit]
        exact h.commit hp hfit k
    · have hm := (h.mustEvict_iff hp).2 hfit
      have hc : r.header.messageCount ≠ 0 := h.messageCount_eq_zero.not.2 (by simp)
      obtain ⟨r₁, hd, h₁⟩ := h.discardOldest
      obtain ⟨r', hl, h'⟩ := ih h₁ (k + 1)
      refine ⟨r', ?_, ?_⟩
      · rw [Ring.writeLoop, if_pos hm, if_neg hc]
        split
        · rename_i he
          rw [hd] at he
          cases he
        · rename_i he
          rw [hd] at he
          cases he
          rw [hl, DropOldest.excess_cons hfit, List.drop_succ_cons, ← ofNat_add,
            UInt32.add_comm (UInt32.ofNat _) (UInt32.ofNat 1), ← UInt32.add_assoc]
          rfl
      · rw [DropOldest.push, DropOldest.excess_cons hfit, List.drop_succ_cons]
        rwa [show n + (ringQueue.excess Q p + 1) = n + 1 + ringQueue.excess Q p by omega]

theorem readMessage_nil (h : Represents r [] n) (out : Payload) :
    r.readMessage out = (.error .queueEmpty, r, out) := by
  rw [Ring.readMessage, if_pos (h.messageCount_eq_zero.2 rfl)]

/-- **`read_message` takes the head of the queue.** -/
theorem readMessage_cons {q : Payload} (h : Represents r (q :: Q) n) (out : Payload) :
    ∃ r', r.readMessage out = (.ok q.length, r', q) ∧ Represents r' Q n := by
  have hc : r.header.messageCount ≠ 0 := h.messageCount_eq_zero.not.2 (by simp)
  have hq : LengthOk q.length := h.valid q List.mem_cons_self
  obtain ⟨hlen, hcopy⟩ := h.head
  refine ⟨(r.readMessage out).2.1, ?_, ?_⟩
  · simp only [Ring.readMessage, hc, hlen, hq, hcopy, not_true_eq_false, ↓reduceIte]
  · simp only [Ring.readMessage, hc, hlen, hq, not_true_eq_false, ↓reduceIte]
    exact h.advance rfl rfl rfl rfl h.dropCount

end Represents

theorem Ring.writeMessage_of_valid (r : Ring) {p : Payload} (hp : p.Valid) :
    r.writeMessage p = r.writeLoop p 0 := by
  obtain ⟨h₁, h₂⟩ := hp
  rw [Ring.writeMessage, if_neg (not_lt.2 h₁), if_neg (not_lt.2 h₂),
    if_neg (not_capacity_lt_totalRequired ⟨h₁, h₂⟩)]

/-! ### Sequences of calls -/

/-- A call on a ring. -/
inductive Call where
  | reset (generation : UInt32)
  | write (p : Payload)
  | read
  deriving DecidableEq, Repr

/-- What a call returns: the number of messages a write dropped and its `was_empty`, the length a
read returned and the bytes it left in `out`. -/
inductive Reply where
  | reset
  | write (res : Except ShmError (ℕ × Bool))
  | read (res : Except ShmError (ℕ × Payload))

/-- One call on a ring. -/
def Ring.call (r : Ring) : Call → Reply × Ring
  | .reset generation => (.reset, r.reset generation)
  | .write p =>
    let (res, r') := r.writeMessage p
    (.write (res.map fun w => (w.overwritten.toNat, w.wasEmpty)), r')
  | .read =>
    let (res, r', out) := r.readMessage []
    (.read (res.map fun len => (len, out)), r')

/-- Calls one after the other. -/
def Ring.calls (r : Ring) : List Call → List Reply × Ring
  | [] => ([], r)
  | c :: cs =>
    let (reply, r') := r.call c
    let (replies, r'') := r'.calls cs
    (reply :: replies, r'')

/-- The queue that a ring implements: what is queued and how many messages have been dropped
since the last reset. -/
structure MessageQueue where
  queue : List Payload := []
  drops : ℕ := 0

/-- One call on the queue. -/
def MessageQueue.call (m : MessageQueue) : Call → Reply × MessageQueue
  | .reset _ => (.reset, {})
  | .write p =>
    if p.length < minMessageSize then (.write (.error .messageTooSmall), m)
    else if maxMessageSize < p.length then (.write (.error .messageTooLarge), m)
    else
      let k := ringQueue.excess m.queue p
      (.write (.ok (k, (m.queue.drop k).isEmpty)), ⟨m.queue.drop k ++ [p], m.drops + k⟩)
  | .read =>
    match m.queue with
    | [] => (.read (.error .queueEmpty), m)
    | p :: rest => (.read (.ok (p.length, p)), { m with queue := rest })

/-- Calls one after the other. -/
def MessageQueue.calls (m : MessageQueue) : List Call → List Reply × MessageQueue
  | [] => ([], m)
  | c :: cs =>
    let (reply, m') := m.call c
    let (replies, m'') := m'.calls cs
    (reply :: replies, m'')

/-- **One call keeps the representation and returns what the queue returns.** -/
theorem represents_call {r : Ring} {m : MessageQueue} (h : Represents r m.queue m.drops)
    (c : Call) : (r.call c).1 = (m.call c).1 ∧
      Represents (r.call c).2 (m.call c).2.queue (m.call c).2.drops := by
  cases c with
  | reset generation => exact ⟨rfl, represents_reset r generation⟩
  | write p =>
    by_cases hp : p.Valid
    · obtain ⟨r', hl, h'⟩ := h.writeLoop hp 0
      have hk : ringQueue.excess m.queue p < 2 ^ 32 := by
        have := DropOldest.excess_le (q := ringQueue) m.queue p
        have := h.length_le
        omega
      obtain ⟨h₁, h₂⟩ := hp
      simp only [Ring.call, r.writeMessage_of_valid ⟨h₁, h₂⟩, hl, MessageQueue.call,
        not_lt.2 h₁, not_lt.2 h₂, ↓reduceIte, Except.map, UInt32.zero_add, toNat_ofNat_of_lt hk]
      exact ⟨trivial, h'⟩
    · by_cases h₁ : p.length < minMessageSize
      · simp only [Ring.call, Ring.writeMessage, MessageQueue.call, h₁, ↓reduceIte, Except.map]
        exact ⟨trivial, h⟩
      · have h₂ : maxMessageSize < p.length := not_le.1 fun h₂ => hp ⟨not_lt.1 h₁, h₂⟩
        simp only [Ring.call, Ring.writeMessage, MessageQueue.call, h₁, h₂, ↓reduceIte, Except.map]
        exact ⟨trivial, h⟩
  | read =>
    obtain ⟨Q, n⟩ := m
    cases Q with
    | nil =>
      simp only [Ring.call, h.readMessage_nil, MessageQueue.call, Except.map]
      exact ⟨trivial, h⟩
    | cons q Q =>
      obtain ⟨r', hr, h'⟩ := h.readMessage_cons []
      simp only [Ring.call, hr, MessageQueue.call, Except.map]
      exact ⟨trivial, h'⟩

/-- Any sequence of calls keeps the representation and returns what the queue returns. -/
theorem represents_calls {r : Ring} {m : MessageQueue} (h : Represents r m.queue m.drops)
    (cs : List Call) : (r.calls cs).1 = (m.calls cs).1 ∧
      Represents (r.calls cs).2 (m.calls cs).2.queue (m.calls cs).2.drops := by
  induction cs generalizing r m with
  | nil => exact ⟨rfl, h⟩
  | cons c cs ih =>
    obtain ⟨hc, h'⟩ := represents_call h c
    obtain ⟨hcs, h''⟩ := ih h'
    exact ⟨by simp only [Ring.calls, MessageQueue.calls, hc, hcs], h''⟩

/-- The queue never answers `Corrupted`. -/
theorem MessageQueue.call_ne_corrupted (m : MessageQueue) (c : Call) :
    (m.call c).1 ≠ .write (.error .corrupted) ∧ (m.call c).1 ≠ .read (.error .corrupted) := by
  cases c with
  | reset => simp [MessageQueue.call]
  | write p =>
    simp only [MessageQueue.call]
    split_ifs <;> simp
  | read => cases h : m.queue <;> simp [MessageQueue.call, h]

theorem MessageQueue.calls_ne_corrupted (m : MessageQueue) (cs : List Call) :
    .write (.error .corrupted) ∉ (m.calls cs).1 ∧ .read (.error .corrupted) ∉ (m.calls cs).1 := by
  induction cs generalizing m with
  | nil => simp [MessageQueue.calls]
  | cons c cs ih =>
    have h₀ := m.call_ne_corrupted c
    have h := ih (m.call c).2
    simp only [MessageQueue.calls, List.mem_cons, not_or]
    exact ⟨⟨h₀.1.symm, h.1⟩, ⟨h₀.2.symm, h.2⟩⟩

/-- **A reset ring used by one call at a time is a bounded queue that drops its oldest
messages.**  Every reply is that of the queue, a write drops the shortest prefix that makes
room, an over-long or too short payload changes nothing, and the two counters of the header
count what is queued and what has been dropped. -/
theorem calls_eq_messageQueue (r : Ring) (generation : UInt32) (cs : List Call) :
    let end_ := (r.reset generation).calls cs
    let spec := MessageQueue.calls {} cs
    end_.1 = spec.1 ∧
    end_.2.header.messageCount.toNat = spec.2.queue.length ∧
    end_.2.header.dropCount = UInt32.ofNat spec.2.drops ∧
    .write (.error .corrupted) ∉ end_.1 ∧ .read (.error .corrupted) ∉ end_.1 ∧
    (∀ p : Payload, p.Valid → IsLeast
      {k | ((spec.2.queue.drop k).map fun m => m.length + messageHeaderSize).sum +
          (p.length + messageHeaderSize) ≤ ringCapacity ∧
        (spec.2.queue.drop k).length < maxMessages.toNat}
      (ringQueue.excess spec.2.queue p)) ∧
    ∀ p : Payload, ¬ p.Valid → (end_.2.writeMessage p).2 = end_.2 := by
  intro end_ spec
  obtain ⟨hreplies, hrep⟩ := represents_calls (m := {}) (represents_reset r generation) cs
  obtain ⟨hw, hr⟩ := MessageQueue.calls_ne_corrupted {} cs
  refine ⟨hreplies, hrep.toNat_messageCount, hrep.dropCount, ?_, ?_, fun p hp => ?_, fun p hp => ?_⟩
  · exact fun h => hw (hreplies ▸ h)
  · exact fun h => hr (hreplies ▸ h)
  · refine DropOldest.isLeast_excess (q := ringQueue) ?_ (by decide) spec.2.queue
    have := hp.2
    simp only [ringQueue, maxMessageSize, ringCapacity, messageHeaderSize] at this ⊢
    omega
  · by_cases h₁ : p.length < minMessageSize
    · simp only [Ring.writeMessage, h₁, ↓reduceIte]
    · have h₂ : maxMessageSize < p.length := not_le.1 fun h₂ => hp ⟨not_lt.1 h₁, h₂⟩
      simp only [Ring.writeMessage, h₁, h₂, ↓reduceIte]

end Xshm
