import Xshm.Circular.DropOldest
import Xshm.Ring.Copy

/-!
# Ring calls that run alone

`discard_oldest`, `write_message` and `read_message` of a ring as functions on the header and
the storage, for a call during which nobody else touches the ring.  (The calls interleaved with
each other, access by access, are the machine of `Xshm.Ring.Machine`.)

When a call runs alone, nothing moves `read_pos` between its load and the `compare_exchange`
that follows, so the retry branches of the two loops over `compare_exchange` are never taken and
do not appear here.  The eviction loop of `write_message` does: it ends because every pass that
goes on has lowered a message count that was not zero.
-/

namespace Xshm

/-- A ring in shared memory. -/
structure Ring where
  header : RingHeader
  storage : Storage

/-- What a successful `write_message` returns. -/
structure WriteOutcome where
  /-- The number of messages dropped to make room. -/
  overwritten : UInt32
  wasEmpty : Bool
  deriving DecidableEq, Repr

/-- The length field of a frame is one that `write_message` can have stored. -/
def LengthOk (msgLen : ℕ) : Prop := minMessageSize ≤ msgLen ∧ msgLen ≤ maxMessageSize

instance (n : ℕ) : Decidable (LengthOk n) := inferInstanceAs (Decidable (_ ∧ _))

/-- `total_required` of a payload. -/
def totalRequired (p : Payload) : UInt32 := UInt32.ofNat (messageHeaderSize + p.length)

/-- `available_bytes(write, read)`. -/
def availableBytes (write read : UInt32) : ℤ := (ringCapacity : ℤ) - ((write - read).toNat : ℤ)

/-- The payload must make room for itself first. -/
def MustEvict (p : Payload) (write read count : UInt32) : Prop :=
  availableBytes write read < ((totalRequired p).toNat : ℤ) ∨ maxMessages ≤ count

instance (p : Payload) (write read count : UInt32) : Decidable (MustEvict p write read count) :=
  inferInstanceAs (Decidable (_ ∨ _))

namespace Ring

/-- `reset(generation)`. -/
def reset (r : Ring) (generation : UInt32) : Ring :=
  { r with header := r.header.reset generation }

/-- `discard_oldest()`. -/
def discardOldest (r : Ring) : Except ShmError Ring :=
  let read := r.header.readPos
  let write := r.header.writePos
  if read = write then .error .queueEmpty
  else
    let msgLen := (readU16 r.storage (maskIndex read)).toNat
    if ¬ LengthOk msgLen then .error .corrupted
    else
      .ok { r with
        header := { r.header with
          readPos := read + UInt32.ofNat (messageHeaderSize + msgLen)
          messageCount := r.header.messageCount - 1
          dropCount := r.header.dropCount + 1 } }

theorem discardOldest_messageCount {r r' : Ring} (h : r.discardOldest = .ok r') :
    r'.header.messageCount = r.header.messageCount - 1 := by
  simp only [discardOldest] at h
  split at h
  · cases h
  · split at h
    · cases h
    · cases h
      rfl

theorem toNat_sub_one_lt {n : UInt32} (h : n ≠ 0) : (n - 1).toNat < n.toNat := by
  have hn : n.toNat ≠ 0 := fun h' => h (UInt32.toNat_inj.1 h')
  have := n.toNat_lt
  rw [UInt32.toNat_sub, UInt32.toNat_one]
  omega

/-- The end of `write_message`, once there is room: store the frame, count it, publish it. -/
def commit (r : Ring) (p : Payload) (overwritten : UInt32) : WriteOutcome × Ring :=
  let write := r.header.writePos
  let prevCount := r.header.messageCount
  (⟨overwritten, prevCount == 0⟩,
    { header := { r.header with
        messageCount := prevCount + 1
        writePos := write + totalRequired p
        sequence := if prevCount = 0 then r.header.sequence + 1 else r.header.sequence }
      storage := storeFrame r.storage (maskIndex write) p })

/-- The loop of `write_message`. -/
def writeLoop (p : Payload) (overwritten : UInt32) (r : Ring) :
    Except ShmError WriteOutcome × Ring :=
  if MustEvict p r.header.writePos r.header.readPos r.header.messageCount then
    if r.header.messageCount = 0 then (.error .messageTooLarge, r)
    else
      match _h : r.discardOldest with
      | .error e => (.error e, r)
      | .ok r' => writeLoop p (overwritten + 1) r'
  else ((.ok (r.commit p overwritten).1), (r.commit p overwritten).2)
termination_by r.header.messageCount.toNat
decreasing_by
  rw [discardOldest_messageCount _h]
  exact toNat_sub_one_lt ‹_›

/-- `write_message(payload)`. -/
def writeMessage (r : Ring) (p : Payload) : Except ShmError WriteOutcome × Ring :=
  if p.length < minMessageSize then (.error .messageTooSmall, r)
  else if maxMessageSize < p.length then (.error .messageTooLarge, r)
  else if UInt32.ofNat ringCapacity < totalRequired p then (.error .messageTooLarge, r)
  else r.writeLoop p 0

/-- `read_message(out)`: the result, the ring and the buffer `out` afterwards. -/
def readMessage (r : Ring) (out : Payload) : Except ShmError ℕ × Ring × Payload :=
  if r.header.messageCount = 0 then (.error .queueEmpty, r, out)
  else
    let read := r.header.readPos
    let idx := maskIndex read
    let msgLen := (readU16 r.storage idx).toNat
    -- `read_pos` loaded again is still `read`
    if ¬ LengthOk msgLen then (.error .corrupted, r, out)
    else
      let prevCount := r.header.messageCount
      (.ok msgLen,
        { r with header := { r.header with
            readPos := read + UInt32.ofNat (messageHeaderSize + msgLen)
            messageCount := prevCount - 1
            sequence := if prevCount ≤ 1 then r.header.sequence + 1 else r.header.sequence } },
        copyFromWrapped r.storage ((idx + messageHeaderSize) &&& ringMask.toNat) msgLen)

/-- A read leaves `write_pos` to the producer. -/
theorem readMessage_writePos (r : Ring) (out : Payload) :
    (r.readMessage out).2.1.header.writePos = r.header.writePos := by
  simp only [readMessage]
  split_ifs <;> rfl

end Ring

/-! ### The lengths of frames -/

theorem valid_iff_lengthOk {p : Payload} : p.Valid ↔ LengthOk p.length := Iff.rfl

theorem toNat_totalRequired {p : Payload} (hp : p.Valid) :
    (totalRequired p).toNat = messageHeaderSize + p.length := by
  have := hp.2
  simp only [maxMessageSize] at this
  exact toNat_ofNat_of_lt (by simp only [messageHeaderSize]; omega)

theorem not_capacity_lt_totalRequired {p : Payload} (hp : p.Valid) :
    ¬ UInt32.ofNat ringCapacity < totalRequired p := by
  have := hp.2
  rw [UInt32.lt_iff_toNat_lt, toNat_totalRequired hp, toNat_ofNat_of_lt (by decide)]
  simp only [maxMessageSize, ringCapacity, messageHeaderSize] at *
  omega

/-- The room left when `write` and `read` are positions of a ring that is not over-full. -/
theorem availableBytes_ofNat {w r : ℕ} (hr : r ≤ w) (hw : w - r ≤ ringCapacity) :
    availableBytes (UInt32.ofNat w) (UInt32.ofNat r) = (ringCapacity : ℤ) - ((w - r : ℕ) : ℤ) := by
  have : ringCapacity < 2 ^ 32 := by decide
  rw [availableBytes, toNat_ofNat_sub hr (by omega)]

end Xshm
