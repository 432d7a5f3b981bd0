import Xshm.Endpoint.Data

/-!
# A receiving pass

`process_receive_queue` of `auto/mod.rs`: up to `recv_batch` messages, but at least one, are read
and given to the handler.  The worker of a session passes on without a wait as long as a pass has
reached its limit.

* `processReceiveQueue_spec` : on a ring that is used as it should be, a pass delivers the oldest
  messages in order, up to its limit, and reports `more_pending` if there may be others.
* `receivePasses_spec` : when the worker comes to its wait, everything has been delivered.
* `processReceiveQueue_any` : on any memory whatsoever, a pass makes no more calls than its limit
  allows, and gives the handler only messages of an allowed length.
-/

namespace Xshm

namespace Receiving

/-- A call of the handler by a receiving pass. -/
inductive Call where
  | onMessage (payload : Payload)
  | onError (e : ShmError)
  deriving DecidableEq

/-- `ReceiveOutcome`. -/
structure Outcome where
  fatal : Bool
  morePending : Bool
  deriving DecidableEq

/-- The endpoint that a pass reads from, its buffer, and what it leaves behind. -/
structure Inbox where
  link : Direction
  buffer : Payload := []
  /-- `AutoStats.received_messages`. -/
  receivedMessages : UInt64 := 0
  /-- Record: the calls of the handler. -/
  calls : List Call := []

/-- A message has been read. -/
def Inbox.onMessage (b : Inbox) (link : Direction) (buffer : Payload) (len : ℕ) : Inbox where
  link := link
  buffer := buffer
  receivedMessages := b.receivedMessages + 1
  calls := b.calls ++ [.onMessage (buffer.take len)]

/-- The loop of a pass with `left` reads to go; `setOk` says whether the event can be set. -/
def receiveLoop (connected : Bool) (setOk : ℕ → Bool) : ℕ → Inbox → Outcome × Inbox
  | 0, b => (⟨false, true⟩, b)
  | left + 1, b =>
    match b.link.receive connected (setOk left) b.buffer with
    | (.ok len, link, buffer) => receiveLoop connected setOk left (b.onMessage link buffer len)
    | (.error e, link, buffer) =>
      match e with
      | .queueEmpty | .notConnected | .notReady | .timeout =>
        (⟨false, false⟩, { b with link := link, buffer := buffer })
      | .corrupted =>
        (⟨true, false⟩,
          { b with link := link, buffer := buffer, calls := b.calls ++ [.onError .corrupted] })
      | e =>
        (⟨false, false⟩,
          { b with link := link, buffer := buffer, calls := b.calls ++ [.onError e] })

/-- `process_receive_queue`. -/
def processReceiveQueue (connected : Bool) (setOk : ℕ → Bool) (batch : ℕ) (b : Inbox) :
    Outcome × Inbox :=
  receiveLoop connected setOk (max batch 1) b

/-- The passes of a session while nobody sends, `fuel` at most, up to the first after which the
worker waits or gives up. -/
def receivePasses (setOk : ℕ → ℕ → Bool) (batch : ℕ) : ℕ → Inbox → Outcome × Inbox
  | 0, b => (⟨false, true⟩, b)
  | fuel + 1, b =>
    match processReceiveQueue true (setOk fuel) batch b with
    | (⟨false, true⟩, b') => receivePasses setOk batch fuel b'
    | (outcome, b') => (outcome, b')

/-! ### A ring that is used as it should be -/

/-- What a pass delivers of the messages `Q`. -/
structure Delivers (b b' : Inbox) (Q : List Payload) : Prop where
  calls : b'.calls = b.calls ++ Q.map Call.onMessage
  received : b'.receivedMessages = b.receivedMessages + UInt64.ofNat Q.length

theorem Delivers.trans {b b' b'' : Inbox} {Q Q' : List Payload} (h : Delivers b b' Q)
    (h' : Delivers b' b'' Q') : Delivers b b'' (Q ++ Q') where
  calls := by rw [h'.calls, h.calls, List.map_append, List.append_assoc]
  received := by
    rw [h'.received, h.received, List.length_append, UInt64.ofNat_add, UInt64.add_assoc]

section

variable {d : Direction} {Q : List Payload} {n : ℕ}

/-- A read of an empty ring changes nothing. -/
theorem receive_nil (h : Represents d.ring [] n) (setOk : Bool) (buffer : Payload) :
    d.receive true setOk buffer = (.error .queueEmpty, d, buffer) := by
  simp only [Direction.receive, h.readMessage_nil, Bool.true_eq_false, if_false]

/-- A read takes the oldest message. -/
theorem receive_cons {q : Payload} (h : Represents d.ring (q :: Q) n) (setOk : Bool)
    (buffer : Payload) : ∃ d', d.receive true setOk buffer = (.ok q.length, d', q) ∧
      Represents d'.ring Q n := by
  obtain ⟨r', hr, h'⟩ := h.readMessage_cons buffer
  refine ⟨(d.receive true setOk buffer).2.1, ?_, ?_⟩
  · simp only [Direction.receive, hr, Bool.true_eq_false, if_false]
  · simpa only [Direction.receive, hr, Bool.true_eq_false, if_false] using h'

end

section

variable {b : Inbox} {Q : List Payload} {n : ℕ}

theorem receiveLoop_spec (h : Represents b.link.ring Q n) (setOk : ℕ → Bool) (left : ℕ) :
    (receiveLoop true setOk left b).1 = ⟨false, left ≤ Q.length⟩ ∧
      Delivers b (receiveLoop true setOk left b).2 (Q.take left) ∧
      Represents (receiveLoop true setOk left b).2.link.ring (Q.drop left) n := by
  induction left generalizing b Q with
  | zero => exact ⟨rfl, ⟨by simp [receiveLoop], by simp [receiveLoop]⟩, h⟩
  | succ left ih =>
    cases Q with
    | nil =>
      rw [receiveLoop, receive_nil h]
      exact ⟨rfl, ⟨(List.append_nil _).symm, (UInt64.add_zero _).symm⟩, h⟩
    | cons q Q =>
      obtain ⟨link, hres, hrep⟩ := receive_cons h (setOk left) b.buffer
      have hstep : receiveLoop true setOk (left + 1) b =
          receiveLoop true setOk left (b.onMessage link q q.length) := by
        rw [receiveLoop, hres]
      have hone : Delivers b (b.onMessage link q q.length) [q] := by
        refine ⟨?_, rfl⟩
        rw [Inbox.onMessage, List.take_length]
        rfl
      obtain ⟨hout, hdel, hrest⟩ := ih (b := b.onMessage link q q.length) hrep
      rw [hstep]
      refine ⟨?_, hone.trans hdel, hrest⟩
      rw [hout]
      simp

/-- **A pass delivers the oldest messages**, in order and up to its limit, never finds the ring
corrupted, and reports `more_pending` exactly if it has reached its limit. -/
theorem processReceiveQueue_spec (h : Represents b.link.ring Q n) (setOk : ℕ → Bool)
    (batch : ℕ) :
    (processReceiveQueue true setOk batch b).1 = ⟨false, max batch 1 ≤ Q.length⟩ ∧
      Delivers b (processReceiveQueue true setOk batch b).2 (Q.take (max batch 1)) ∧
      Represents (processReceiveQueue true setOk batch b).2.link.ring (Q.drop (max batch 1)) n :=
  receiveLoop_spec h _ _

/-- **When the worker comes to its wait, everything has been delivered**, in order, after as many
passes as the messages fill, and one. -/
theorem receivePasses_spec (h : Represents b.link.ring Q n) (setOk : ℕ → ℕ → Bool) (batch : ℕ)
    {fuel : ℕ} (hfuel : Q.length / max batch 1 < fuel) :
    (receivePasses setOk batch fuel b).1 = ⟨false, false⟩ ∧
      Delivers b (receivePasses setOk batch fuel b).2 Q ∧
      Represents (receivePasses setOk batch fuel b).2.link.ring [] n := by
  have hpos : 0 < max batch 1 := Nat.lt_of_lt_of_le Nat.one_pos (le_max_right _ _)
  induction fuel generalizing b Q with
  | zero => exact absurd hfuel (Nat.not_lt_zero _)
  | succ fuel ih =>
    obtain ⟨hout, hdel, hrep⟩ := processReceiveQueue_spec h (setOk fuel) batch
    by_cases hmore : max batch 1 ≤ Q.length
    · -- the limit is reached: another pass
      have hstep : receivePasses setOk batch (fuel + 1) b =
          receivePasses setOk batch fuel (processReceiveQueue true (setOk fuel) batch b).2 := by
        rw [receivePasses, ← Prod.mk.eta (p := processReceiveQueue true (setOk fuel) batch b), hout,
          decide_eq_true hmore]
      have hfuel' : (Q.drop (max batch 1)).length / max batch 1 < fuel := by
        have := Nat.div_eq_sub_div hpos hmore
        rw [List.length_drop]
        omega
      obtain ⟨hout', hdel', hrep'⟩ := ih hrep hfuel'
      rw [hstep]
      refine ⟨hout', ?_, hrep'⟩
      have := hdel.trans hdel'
      rwa [List.take_append_drop] at this
    · have hstep : receivePasses setOk batch (fuel + 1) b =
          processReceiveQueue true (setOk fuel) batch b := by
        rw [receivePasses, ← Prod.mk.eta (p := processReceiveQueue true (setOk fuel) batch b), hout,
          decide_eq_false hmore]
      have hle : Q.length ≤ max batch 1 := Nat.le_of_not_le hmore
      rw [List.take_of_length_le hle] at hdel
      rw [List.drop_of_length_le hle] at hrep
      rw [hstep, hout, decide_eq_false hmore]
      exact ⟨rfl, hdel, hrep⟩

end

/-- Two messages, one a pass. -/
theorem receivePasses_spec_two : ∃ b : Inbox, ∃ n, Represents b.link.ring [[1, 2], [3, 4]] n ∧
    (receivePasses (fun _ _ => true) 1 3 b).1 = ⟨false, false⟩ ∧
      Delivers b (receivePasses (fun _ _ => true) 1 3 b).2 [[1, 2], [3, 4]] ∧
      Represents (receivePasses (fun _ _ => true) 1 3 b).2.link.ring [] n := by
  have h₀ : Represents freshDirection.ring [] 0 := represents_reset _ _
  have hv₁ : Payload.Valid [1, 2] := by decide
  have hv₂ : Payload.Valid [3, 4] := by decide
  obtain ⟨r₁, -, h₁⟩ := h₀.writeLoop hv₁ 0
  obtain ⟨r₂, -, h₂⟩ := h₁.writeLoop hv₂ 0
  exact ⟨{ link := { freshDirection with ring := r₂ } }, _, h₂,
    receivePasses_spec h₂ (fun _ _ => true) 1 (by decide)⟩

/-! ### Any memory -/

/-- The errors of a read. -/
theorem receive_error {connected setOk : Bool} {d d' : Direction} {buffer buffer' : Payload}
    {e : ShmError} (h : d.receive connected setOk buffer = (.error e, d', buffer')) :
    e = .notConnected ∨ e = .queueEmpty ∨ e = .corrupted := by
  unfold Direction.receive at h
  split_ifs at h
  · cases h
    exact .inl rfl
  · split at h
    · cases h
    · rename_i hr
      cases h
      simp only [Ring.readMessage] at hr
      split_ifs at hr <;> cases hr
      · exact .inr (.inl rfl)
      · exact .inr (.inr rfl)

/-- A pass whose limit is `limit` has called the handler for the messages `msgs`, and once more if
it has found the ring corrupted. -/
structure Bounded (limit : ℕ) (b : Inbox) (o : Outcome) (b' : Inbox) (msgs : List Payload) :
    Prop where
  calls : b'.calls = b.calls ++ msgs.map Call.onMessage ++
    if o.fatal then [.onError .corrupted] else []
  received : b'.receivedMessages = b.receivedMessages + UInt64.ofNat msgs.length
  valid : ∀ p ∈ msgs, p.Valid
  length_le : msgs.length ≤ limit
  morePending : o.morePending = true ↔ msgs.length = limit

theorem receiveLoop_any (connected : Bool) (setOk : ℕ → Bool) (left : ℕ) (b : Inbox) :
    ∃ msgs, Bounded left b (receiveLoop connected setOk left b).1
      (receiveLoop connected setOk left b).2 msgs := by
  induction left generalizing b with
  | zero =>
    exact ⟨[], by simp [receiveLoop], (UInt64.add_zero _).symm, by simp, le_rfl,
      by simp [receiveLoop]⟩
  | succ left ih =>
    rcases hres : b.link.receive connected (setOk left) b.buffer with ⟨e | len, link, buffer⟩
    case error =>
      refine ⟨[], ?_⟩
      rw [receiveLoop, hres]
      rcases receive_error hres with rfl | rfl | rfl
      · exact ⟨by simp, (UInt64.add_zero _).symm, by simp, Nat.zero_le _, by simp⟩
      · exact ⟨by simp, (UInt64.add_zero _).symm, by simp, Nat.zero_le _, by simp⟩
      · exact ⟨by simp, (UInt64.add_zero _).symm, by simp, Nat.zero_le _, by simp⟩
    case ok =>
      obtain ⟨hlen, hvalid⟩ := Direction.receive_ok hres
      obtain ⟨msgs, h⟩ := ih (b.onMessage link buffer len)
      have hstep : receiveLoop connected setOk (left + 1) b =
          receiveLoop connected setOk left (b.onMessage link buffer len) := by
        rw [receiveLoop, hres]
      rw [hstep]
      refine ⟨buffer.take len :: msgs, ?_, ?_, ?_, ?_, ?_⟩
      · rw [h.calls, List.map_cons]
        simp [Inbox.onMessage]
      · rw [h.received, List.length_cons, Nat.add_comm, UInt64.ofNat_add, ← UInt64.add_assoc]
        rfl
      · intro p hp
        rcases List.mem_cons.1 hp with rfl | hp
        · rw [valid_iff_lengthOk, ← hlen, List.take_length, hlen]
          exact hvalid
        · exact h.valid p hp
      · exact Nat.succ_le_succ h.length_le
      · rw [h.morePending, List.length_cons, Nat.succ_inj]

/-- **On any memory**, whatever the peer has left in the ring, a pass calls the handler for at most
`max recv_batch 1` messages, all of an allowed length, counts them, reports `more_pending` exactly
if there were so many, and `fatal` exactly if its last call has reported that the ring is
corrupted. -/
theorem processReceiveQueue_any (connected : Bool) (setOk : ℕ → Bool) (batch : ℕ) (b : Inbox) :
    ∃ msgs, Bounded (max batch 1) b (processReceiveQueue connected setOk batch b).1
      (processReceiveQueue connected setOk batch b).2 msgs :=
  receiveLoop_any connected setOk _ b

end Receiving

end Xshm
