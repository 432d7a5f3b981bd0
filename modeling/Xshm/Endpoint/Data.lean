import Xshm.Endpoint.Segment

/-!
# The data calls of the two ends

`send_to_server`, `receive_from_server` and `poll_server` of `client.rs`, and their mirror images of
`server.rs` for a server with a name, each run alone.  A `Direction` is a ring with its two events:
a write into an empty ring signals `data`, a read that empties the ring signals `space`.  The result
of these two `set` calls is ignored; that the event could be set is an argument.
-/

namespace Xshm

/-- A ring and its two events, which are auto-reset. -/
structure Direction where
  ring : Ring
  data : Bool
  space : Bool

namespace Direction

variable (connected : Bool) (d : Direction)

/-- Send a payload, which signals `data` if the ring was empty. -/
def send (setOk : Bool) (payload : Payload) : Except ShmError WriteOutcome × Direction :=
  if connected = false then (.error .notConnected, d)
  else
    match d.ring.writeMessage payload with
    | (.ok outcome, ring) =>
      (.ok outcome, { d with ring := ring, data := d.data || (outcome.wasEmpty && setOk) })
    | (.error e, ring) => (.error e, { d with ring := ring })

/-- Receive a payload into `buffer`, which signals `space` if the ring is empty afterwards. -/
def receive (setOk : Bool) (buffer : Payload) : Except ShmError ℕ × Direction × Payload :=
  if connected = false then (.error .notConnected, d, buffer)
  else
    match d.ring.readMessage buffer with
    | (.ok len, ring, buffer) =>
      (.ok len,
        { d with ring := ring, space := d.space || (ring.header.messageCount == 0 && setOk) },
        buffer)
    | (.error e, ring, buffer) => (.error e, { d with ring := ring }, buffer)

/-- Wait until there is something to receive; `none` if the wait cannot end like `w`. -/
def poll (w : WaitOutcome) : Option (Except ShmError Bool × Direction) :=
  if connected = false then some (.error .notConnected, d)
  else if d.ring.header.messageCount ≠ 0 then some (.ok true, d)
  else
    match w with
    | .signalled => if d.data then some (.ok true, { d with data := false }) else none
    | .timeout => if d.data then none else some (.ok false, d)
    | .failed e => some (.error e, d)

end Direction

/-- A ring that has just been reset. -/
def freshDirection : Direction where
  ring := ({ header := ⟨0, 0, 0, 0, 0, 0, 0⟩, storage := fun _ => 0 } : Ring).reset 1
  data := false
  space := false

/-- `SharedClient::send_to_server(payload)` on the ring to the server. -/
abbrev sendToServer := Direction.send

/-- `SharedServer::send_to_client(payload)` on the ring to the client. -/
abbrev sendToClient := Direction.send

/-- `SharedServer::receive_from_client(buffer)` on the ring to the server. -/
abbrev receiveFromClient := Direction.receive

/-- `SharedClient::receive_from_server(buffer)` on the ring to the client. -/
abbrev receiveFromServer := Direction.receive

/-- `SharedServer::poll_client(timeout)` on the ring to the server. -/
abbrev pollClient := Direction.poll

/-- `SharedClient::poll_server(timeout)` on the ring to the client. -/
abbrev pollServer := Direction.poll

/-- The error of `write_message` for a length that it rejects. -/
def lengthError (payload : Payload) : ShmError :=
  if payload.length < minMessageSize then .messageTooSmall else .messageTooLarge

/-- A length that is rejected leaves the ring as it is. -/
theorem Ring.writeMessage_of_not_valid (r : Ring) {p : Payload} (hp : ¬ p.Valid) :
    r.writeMessage p = (.error (lengthError p), r) := by
  unfold Ring.writeMessage lengthError
  by_cases hsmall : p.length < minMessageSize
  · rw [if_pos hsmall, if_pos hsmall]
  · have hlarge : maxMessageSize < p.length :=
      Nat.lt_of_not_le fun h => hp ⟨Nat.not_lt.1 hsmall, h⟩
    rw [if_neg hsmall, if_neg hsmall, if_pos hlarge]

theorem length_copyFromWrapped (st : Storage) (start n : ℕ) :
    (copyFromWrapped st start n).length = n := by
  simp only [copyFromWrapped, copyFrom]
  split_ifs with h
  · rw [List.length_map, List.length_range]
  · rw [List.length_append, List.length_map, List.length_map, List.length_range, List.length_range]
    omega

/-- What a successful read leaves in its buffer. -/
theorem Ring.readMessage_ok {r r' : Ring} {out out' : Payload} {len : ℕ}
    (h : r.readMessage out = (.ok len, r', out')) : out'.length = len ∧ LengthOk len := by
  by_cases hc : r.header.messageCount = 0
  · simp only [Ring.readMessage, hc, if_true] at h
    cases h
  · by_cases hlen : LengthOk (readU16 r.storage (maskIndex r.header.readPos)).toNat
    · simp only [Ring.readMessage, hc, hlen, not_true_eq_false, ↓reduceIte] at h
      cases h
      exact ⟨length_copyFromWrapped _ _ _, hlen⟩
    · simp only [Ring.readMessage, hc, hlen, not_false_eq_true, ↓reduceIte] at h
      cases h

namespace Direction

/-- The ring takes every payload whose length is allowed. -/
def Accepts (d : Direction) : Prop :=
  ∀ payload : Payload, payload.Valid → ∃ outcome, (d.ring.writeMessage payload).1 = .ok outcome

/-- A ring that implements a queue takes every such payload. -/
theorem accepts_of_represents {d : Direction} {Q : List Payload} {n : ℕ}
    (h : Represents d.ring Q n) : d.Accepts := by
  intro payload hp
  obtain ⟨r', hw, -⟩ := h.writeLoop hp 0
  rw [Ring.writeMessage_of_valid _ hp, hw]
  exact ⟨_, rfl⟩

variable {d : Direction} {setOk : Bool} {payload : Payload}

theorem send_of_valid (h : d.Accepts) (hp : payload.Valid) :
    ∃ outcome, (d.send true setOk payload).1 = .ok outcome := by
  obtain ⟨outcome, hw⟩ := h payload hp
  refine ⟨outcome, ?_⟩
  unfold send
  rw [if_neg (by decide)]
  split
  · rename_i hw'
    rw [hw'] at hw
    exact hw
  · rename_i hw'
    rw [hw'] at hw
    exact hw

theorem send_of_not_valid (hp : ¬ payload.Valid) :
    d.send true setOk payload = (.error (lengthError payload), d) := by
  unfold send
  rw [if_neg (by decide), Ring.writeMessage_of_not_valid _ hp]

/-- What a call that receives a message leaves in its buffer. -/
theorem receive_ok {connected : Bool} {buffer buffer' : Payload} {len : ℕ} {d' : Direction}
    (h : d.receive connected setOk buffer = (.ok len, d', buffer')) :
    buffer'.length = len ∧ LengthOk len := by
  unfold receive at h
  split_ifs at h
  · cases h
  · split at h
    · rename_i hr
      cases h
      exact Ring.readMessage_ok hr
    · cases h

end Direction

end Xshm
