import Xshm.System.Basic
import Xshm.Ring.Sequential

/-!
# The ring shared by a writer and a reader

The step system of one producer and one consumer on one ring: every atomic load, store,
`fetch_add`, `fetch_sub` and `compare_exchange` on a field of the header is one step, and so is
every byte copied into or out of the storage.  A label says which side moves; a side that is
idle starts its next call.

`Writer`, `Discard` and `Reader` are the program points of `write_message`, `discard_oldest` and
`read_message`, with the values of their local variables.  `History` records what has happened
(which frames were stored and counted, which moves of `read_pos` succeeded, what the calls
returned); no step looks at it.
-/

namespace Xshm

/-- Program points of `discard_oldest`. -/
inductive Discard where
  | loadRead
  | loadWrite (read : UInt32)
  | readLen0 (read : UInt32)
  | readLen1 (read : UInt32) (b₀ : UInt8)
  | compareExchange (read : UInt32) (msgLen : ℕ)
  | subCount
  | addDrop
  deriving DecidableEq

/-- Program points of `write_message(payload)`; `overwritten` is its local counter. -/
inductive Writer where
  | idle
  | loadWrite (p : Payload) (overwritten : UInt32)
  | loadRead (p : Payload) (overwritten write : UInt32)
  | loadCount (p : Payload) (overwritten write read : UInt32)
  | discard (p : Payload) (overwritten : UInt32) (d : Discard)
  /-- The first `k` bytes of the frame have been stored. -/
  | copy (p : Payload) (overwritten write : UInt32) (k : ℕ)
  | addCount (p : Payload) (overwritten write : UInt32)
  | storeWrite (p : Payload) (overwritten write prevCount : UInt32)
  | addSequence (overwritten prevCount : UInt32)
  deriving DecidableEq

/-- One pass of the loop of `read_message`: the value of `read_pos` it loaded. -/
structure Attempt where
  read : UInt32
  /-- Record: the bytes by which `read_pos` had been moved in all when it was loaded. -/
  base : ℕ
  /-- Record: the frame, stored and counted, that began at `read_pos` when it was loaded. -/
  frame : Option Payload
  deriving DecidableEq

/-- Program points of `read_message`. -/
inductive Reader where
  | idle
  | loadCount
  | loadRead
  | readLen0 (a : Attempt)
  | readLen1 (a : Attempt) (b₀ : UInt8)
  /-- The length is not valid: `read_pos` is loaded again. -/
  | reload (a : Attempt)
  /-- The bytes `out` of the payload have been copied. -/
  | copy (a : Attempt) (msgLen : ℕ) (out : Payload)
  | compareExchange (a : Attempt) (msgLen : ℕ) (out : Payload)
  | subCount (msgLen : ℕ) (out : Payload)
  | addSequence (msgLen : ℕ) (out : Payload)
  deriving DecidableEq

/-- A successful `compare_exchange` on `read_pos`. -/
inductive Move where
  /-- By `read_message`, with the length it decoded and the bytes it left in `out`. -/
  | take (msgLen : ℕ) (out : Payload)
  /-- By `discard_oldest`, with the length it decoded. -/
  | evict (msgLen : ℕ)
  deriving DecidableEq

/-- What has happened on a ring since it was reset, oldest first. -/
structure History where
  /-- The frames that have been stored and counted. -/
  frames : List Payload := []
  moves : List Move := []
  /-- The results of `write_message`. -/
  writes : List (Except ShmError WriteOutcome) := []
  /-- The results of `read_message`, with the bytes left in `out`. -/
  reads : List (Except ShmError (ℕ × Payload)) := []

/-- States of the machine. -/
structure RingState where
  header : RingHeader
  storage : Storage
  writer : Writer := .idle
  reader : Reader := .idle
  hist : History := {}

/-- Who moves. -/
inductive RingLabel where
  /-- The producer calls `write_message(p)`. -/
  | callWrite (p : Payload)
  /-- The consumer calls `read_message`. -/
  | callRead
  /-- The next access of the producer. -/
  | writer
  /-- The next access of the consumer. -/
  | reader
  deriving DecidableEq

/-- The length decoded at the start of a frame. -/
def decodeLen (b₀ b₁ : UInt8) : ℕ := (fromLeBytes b₀ b₁).toNat

/-- The index of byte `k` of a wrapped copy from or to `start`. -/
def wrapIndex (start k : ℕ) : ℕ :=
  let start := start % ringCapacity
  let first := ringCapacity - start
  if k < first then start + k else k - first

/-- The index to which `write_message` copies byte `k` of the frame at `idx`: the length, the
flags and the payload are three wrapped copies. -/
def frameIndex (idx k : ℕ) : ℕ :=
  if k < 2 then wrapIndex idx k
  else if k < 4 then wrapIndex ((idx + 2) &&& ringMask.toNat) (k - 2)
  else wrapIndex ((idx + messageHeaderSize) &&& ringMask.toNat) (k - 4)

/-- The index from which `read_message` copies byte `k` of the payload of the frame at `idx`. -/
def payloadIndex (idx k : ℕ) : ℕ :=
  wrapIndex ((idx + messageHeaderSize) &&& ringMask.toNat) k

def Move.size : Move → ℕ
  | .take msgLen _ => messageHeaderSize + msgLen
  | .evict msgLen => messageHeaderSize + msgLen

namespace History

/-- The bytes by which `read_pos` has been moved in all. -/
def readEnd (h : History) : ℕ := (h.moves.map Move.size).sum

/-- The bytes of all frames stored and counted. -/
def writeEnd (h : History) : ℕ := (h.frames.map fun p => messageHeaderSize + p.length).sum

/-- The frame that begins `pos` bytes into a list of frames. -/
def frameAt : List Payload → ℕ → Option Payload
  | [], _ => none
  | p :: ps, pos =>
    if pos = 0 then some p
    else if pos < messageHeaderSize + p.length then none
    else frameAt ps (pos - (messageHeaderSize + p.length))

end History

namespace RingState

/-- The ring seen by a call that runs alone. -/
def ring (s : RingState) : Ring := ⟨s.header, s.storage⟩

/-- `write_message(p)` is called: the checks on the length touch nothing shared. -/
def callWrite (s : RingState) (p : Payload) : RingState :=
  if p.length < minMessageSize then
    { s with hist := { s.hist with writes := s.hist.writes ++ [.error .messageTooSmall] } }
  else if maxMessageSize < p.length then
    { s with hist := { s.hist with writes := s.hist.writes ++ [.error .messageTooLarge] } }
  else if UInt32.ofNat ringCapacity < totalRequired p then
    { s with hist := { s.hist with writes := s.hist.writes ++ [.error .messageTooLarge] } }
  else { s with writer := .loadWrite p 0 }

/-- `write_message` returns `res`. -/
def returnWrite (s : RingState) (res : Except ShmError WriteOutcome) : RingState :=
  { s with writer := .idle, hist := { s.hist with writes := s.hist.writes ++ [res] } }

/-- `read_message` returns `res`. -/
def returnRead (s : RingState) (res : Except ShmError (ℕ × Payload)) : RingState :=
  { s with reader := .idle, hist := { s.hist with reads := s.hist.reads ++ [res] } }

/-- The next access of `discard_oldest`, called by `write_message(p)`. -/
def discardStep (s : RingState) (p : Payload) (overwritten : UInt32) : Discard → RingState
  | .loadRead => { s with writer := .discard p overwritten (.loadWrite s.header.readPos) }
  | .loadWrite read =>
    if read = s.header.writePos then s.returnWrite (.error .queueEmpty)
    else { s with writer := .discard p overwritten (.readLen0 read) }
  | .readLen0 read =>
    let b₀ := s.storage (wrapIndex (maskIndex read) 0)
    { s with writer := .discard p overwritten (.readLen1 read b₀) }
  | .readLen1 read b₀ =>
    let msgLen := decodeLen b₀ (s.storage (wrapIndex (maskIndex read) 1))
    if ¬ LengthOk msgLen then s.returnWrite (.error .corrupted)
    else { s with writer := .discard p overwritten (.compareExchange read msgLen) }
  | .compareExchange read msgLen =>
    if s.header.readPos = read then
      { s with
        header := { s.header with
          readPos := read + UInt32.ofNat (messageHeaderSize + msgLen) }
        writer := .discard p overwritten .subCount
        hist := { s.hist with moves := s.hist.moves ++ [.evict msgLen] } }
    -- the reader moved `read_pos`: retry with fresh values
    else { s with writer := .discard p overwritten .loadRead }
  | .subCount =>
    { s with
      header := { s.header with messageCount := s.header.messageCount - 1 }
      writer := .discard p overwritten .addDrop }
  | .addDrop =>
    { s with
      header := { s.header with dropCount := s.header.dropCount + 1 }
      writer := .loadWrite p (overwritten + 1) }

/-- The next access of the producer. -/
def writerStep (s : RingState) : Option RingState :=
  match s.writer with
  | .idle => none
  | .loadWrite p ov => some { s with writer := .loadRead p ov s.header.writePos }
  | .loadRead p ov write => some { s with writer := .loadCount p ov write s.header.readPos }
  | .loadCount p ov write read =>
    if MustEvict p write read s.header.messageCount then
      if s.header.messageCount = 0 then some (s.returnWrite (.error .messageTooLarge))
      else some { s with writer := .discard p ov .loadRead }
    else some { s with writer := .copy p ov write 0 }
  | .discard p ov d => some (s.discardStep p ov d)
  | .copy p ov write k =>
    some { s with
      storage := Function.update s.storage (frameIndex (maskIndex write) k)
        ((frameBytes p).getD k 0)
      writer := if k + 1 < (frameBytes p).length then .copy p ov write (k + 1)
        else .addCount p ov write }
  | .addCount p ov write =>
    some { s with
      header := { s.header with messageCount := s.header.messageCount + 1 }
      writer := .storeWrite p ov write s.header.messageCount
      hist := { s.hist with frames := s.hist.frames ++ [p] } }
  | .storeWrite p ov write prevCount =>
    let s' := { s with header := { s.header with writePos := write + totalRequired p } }
    if prevCount = 0 then some { s' with writer := .addSequence ov prevCount }
    else some (s'.returnWrite (.ok ⟨ov, false⟩))
  | .addSequence ov prevCount =>
    let s' := { s with header := { s.header with sequence := s.header.sequence + 1 } }
    some (s'.returnWrite (.ok ⟨ov, prevCount == 0⟩))

/-- The next access of the consumer. -/
def readerStep (s : RingState) : Option RingState :=
  match s.reader with
  | .idle => none
  | .loadCount =>
    if s.header.messageCount = 0 then some (s.returnRead (.error .queueEmpty))
    else some { s with reader := .loadRead }
  | .loadRead =>
    let base := s.hist.readEnd
    let frame := History.frameAt s.hist.frames base
    some { s with reader := .readLen0 ⟨s.header.readPos, base, frame⟩ }
  | .readLen0 a =>
    some { s with reader := .readLen1 a (s.storage (wrapIndex (maskIndex a.read) 0)) }
  | .readLen1 a b₀ =>
    let msgLen := decodeLen b₀ (s.storage (wrapIndex (maskIndex a.read) 1))
    if ¬ LengthOk msgLen then some { s with reader := .reload a }
    else some { s with reader := .copy a msgLen [] }
  | .reload a =>
    -- a torn length is an overwrite by the producer; a wrong length that stays is corruption
    if s.header.readPos ≠ a.read then some { s with reader := .loadCount }
    else some (s.returnRead (.error .corrupted))
  | .copy a msgLen out =>
    let out' := out ++ [s.storage (payloadIndex (maskIndex a.read) out.length)]
    some { s with reader := if out'.length < msgLen then .copy a msgLen out'
      else .compareExchange a msgLen out' }
  | .compareExchange a msgLen out =>
    if s.header.readPos = a.read then
      some { s with
        header := { s.header with
          readPos := a.read + UInt32.ofNat (messageHeaderSize + msgLen) }
        reader := .subCount msgLen out
        hist := { s.hist with moves := s.hist.moves ++ [.take msgLen out] } }
    -- the producer moved `read_pos`: the copied bytes are not valid
    else some { s with reader := .loadCount }
  | .subCount msgLen out =>
    let s' := { s with header := { s.header with messageCount := s.header.messageCount - 1 } }
    if s.header.messageCount ≤ 1 then some { s' with reader := .addSequence msgLen out }
    else some (s'.returnRead (.ok (msgLen, out)))
  | .addSequence msgLen out =>
    let s' := { s with header := { s.header with sequence := s.header.sequence + 1 } }
    some (s'.returnRead (.ok (msgLen, out)))

/-- One step. -/
def step (s : RingState) : RingLabel → Option RingState
  | .callWrite p =>
    match s.writer with
    | .idle => some (s.callWrite p)
    | _ => none
  | .callRead =>
    match s.reader with
    | .idle => some { s with reader := .loadCount }
    | _ => none
  | .writer => s.writerStep
  | .reader => s.readerStep

end RingState

/-- A freshly reset ring, with any bytes in its storage. -/
def FreshRing (s : RingState) : Prop :=
  ∃ h storage generation, s = { header := RingHeader.reset h generation, storage := storage }

/-- The ring with its two sides. -/
def ringSystem : System RingState RingLabel where
  init := FreshRing
  step := RingState.step

end Xshm
