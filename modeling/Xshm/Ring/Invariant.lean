import Xshm.Ring.Machine
import Xshm.Ring.Queue

/-!
# The invariant of the shared ring

The producer writes its frames one behind the other to a stream of bytes.  As long as every
successful `compare_exchange` of the consumer takes a frame of this stream (`TakesFrame`),

* `read_pos` has been moved over the first frames of the stream and over nothing else,
* the storage holds the last `ringCapacity` bytes of the stream, and
* whatever the producer is about to store begins at most `ringCapacity` bytes behind `read_pos`,
  however old its view of `read_pos` is,

so a frame is not overwritten before `read_pos` has been moved past it (`RingInv`).  For the
consumer this means that what it has read so far in an attempt is what the frame says, unless
`read_pos` has moved since it loaded it (`ReaderOk`).
-/

namespace Xshm

open Circular

/-! ### Storage indices -/

theorem wrapIndex_eq (start : ℕ) {k : ℕ} (hk : k ≤ ringCapacity) :
    wrapIndex start k = (start + k) % ringCapacity := by
  have hlt := Nat.mod_lt start ringCapacity_pos
  rw [← Nat.mod_add_mod, wrapIndex]
  generalize start % ringCapacity = s at hlt ⊢
  split
  · rw [Nat.mod_eq_of_lt (by omega)]
  · rename_i hk'
    rw [show s + k = k - (ringCapacity - s) + ringCapacity by omega, Nat.add_mod_right]
    by_cases hs : k - (ringCapacity - s) = ringCapacity
    · omega
    · rw [Nat.mod_eq_of_lt (by omega)]

theorem frameIndex_eq (pos : ℕ) {k : ℕ} (hk : k ≤ ringCapacity) :
    frameIndex (pos % ringCapacity) k = (pos + k) % ringCapacity := by
  rw [frameIndex, and_ringMask, and_ringMask, messageHeaderSize]
  split
  · rw [wrapIndex_eq _ hk, Nat.mod_add_mod]
  · split
    · rw [wrapIndex_eq _ (by omega), Nat.mod_add_mod, Nat.add_assoc, Nat.mod_add_mod,
        show 2 + (k - 2) = k by omega]
    · rw [wrapIndex_eq _ (by omega), Nat.mod_add_mod, Nat.add_assoc, Nat.mod_add_mod,
        show 4 + (k - 4) = k by omega]

theorem payloadIndex_eq (pos : ℕ) {k : ℕ} (hk : k ≤ ringCapacity) :
    payloadIndex (pos % ringCapacity) k = (pos + messageHeaderSize + k) % ringCapacity := by
  rw [payloadIndex, and_ringMask, wrapIndex_eq _ hk, Nat.mod_add_mod, Nat.add_assoc,
    Nat.mod_add_mod, Nat.add_assoc]

theorem Payload.Valid.length_frameBytes_le {p : Payload} (hp : p.Valid) :
    (frameBytes p).length ≤ ringCapacity := by
  have := hp.2
  rw [length_frameBytes]
  simp only [maxMessageSize, ringCapacity, messageHeaderSize] at this ⊢
  omega

/-! ### Frames of the stream -/

namespace History

theorem writeEnd_eq (h : History) : h.writeEnd = (framesBytes h.frames).length := by
  rw [writeEnd]
  induction h.frames with
  | nil => rfl
  | cons p ps ih => simp [ih]

/-- A frame begins where the frames before it end. -/
theorem frameAt_eq_some {ps : List Payload} {pos : ℕ} {f : Payload} :
    frameAt ps pos = some f ↔
      ∃ pre post, ps = pre ++ f :: post ∧ pos = (framesBytes pre).length := by
  induction ps generalizing pos with
  | nil => simp [frameAt]
  | cons p ps ih =>
    have hp : 0 < messageHeaderSize + p.length := by simp [messageHeaderSize]
    constructor
    · intro h
      rw [frameAt] at h
      split_ifs at h with h₀ h₁
      · cases h
        exact ⟨[], ps, rfl, h₀⟩
      · obtain ⟨pre, post, rfl, hpos⟩ := ih.1 h
        exact ⟨p :: pre, post, rfl, by simp; omega⟩
    · rintro ⟨pre, post, hps, rfl⟩
      cases pre with
      | nil =>
        cases hps
        simp [frameAt]
      | cons q pre =>
        obtain ⟨rfl, rfl⟩ := List.cons.inj hps
        have hlen : (framesBytes (p :: pre)).length =
            messageHeaderSize + p.length + (framesBytes pre).length := by simp
        rw [frameAt, if_neg (by omega), if_neg (by omega), hlen, Nat.add_sub_cancel_left]
        exact ih.2 ⟨pre, post, rfl, rfl⟩

/-- Frames already there stay when more are counted. -/
theorem frameAt_append {ps : List Payload} {pos : ℕ} {f : Payload} (h : frameAt ps pos = some f)
    (qs : List Payload) : frameAt (ps ++ qs) pos = some f := by
  obtain ⟨pre, post, rfl, hpos⟩ := frameAt_eq_some.1 h
  exact frameAt_eq_some.2 ⟨pre, post ++ qs, by simp, hpos⟩

theorem frameAt_lt {ps : List Payload} {pos : ℕ} {f : Payload} (h : frameAt ps pos = some f) :
    pos + (frameBytes f).length ≤ (framesBytes ps).length := by
  obtain ⟨pre, post, rfl, rfl⟩ := frameAt_eq_some.1 h
  simp

theorem frameAt_mem {ps : List Payload} {pos : ℕ} {f : Payload} (h : frameAt ps pos = some f) :
    f ∈ ps := by
  obtain ⟨pre, post, rfl, -⟩ := frameAt_eq_some.1 h
  simp

/-- The frame behind a list of frames. -/
theorem frameAt_framesBytes (taken rest : List Payload) :
    frameAt (taken ++ rest) (framesBytes taken).length = rest.head? := by
  cases rest with
  | nil =>
    rw [List.head?_nil, List.append_nil]
    by_contra h
    obtain ⟨f, hf⟩ := Option.ne_none_iff_exists'.1 h
    have := frameAt_lt hf
    simp [messageHeaderSize] at this
  | cons f rest => exact frameAt_eq_some.2 ⟨taken, rest, rfl, rfl⟩

end History

/-- Byte `k` of a frame that is still in the window. -/
theorem get_frameBytes {st : Storage} {ps : List Payload} {part : List UInt8} {pos k : ℕ}
    {f : Payload} (h : Holds ringCapacity st (framesBytes ps ++ part))
    (hf : History.frameAt ps pos = some f)
    (hle : (framesBytes ps).length + part.length ≤ pos + ringCapacity)
    (hk : k < (frameBytes f).length) : st ((pos + k) % ringCapacity) = (frameBytes f)[k] := by
  obtain ⟨pre, post, rfl, rfl⟩ := History.frameAt_eq_some.1 hf
  have hstr : framesBytes (pre ++ f :: post) ++ part =
      framesBytes pre ++ frameBytes f ++ (framesBytes post ++ part) := by simp
  rw [← List.length_append, hstr] at hle
  rw [hstr] at h
  exact h.get_block hk hle

theorem decodeLen_frameBytes {f : Payload} (hf : f.Valid) {b₀ b₁ : UInt8}
    (h₀ : (frameBytes f)[0]? = some b₀) (h₁ : (frameBytes f)[1]? = some b₁) :
    decodeLen b₀ b₁ = f.length := by
  cases h₀
  cases h₁
  exact (congrArg UInt16.toNat (fromLeBytes_toLeBytes _)).trans (toNat_ofNat_length hf)

/-- Behind the header of a frame comes its payload. -/
theorem getElem_frameBytes (f : Payload) {k : ℕ} (hk : k < f.length)
    (h : messageHeaderSize + k < (frameBytes f).length := by simp; omega) :
    (frameBytes f)[messageHeaderSize + k] = f[k] := by
  have hlen : (toLeBytes (UInt16.ofNat f.length) ++ toLeBytes 0).length = messageHeaderSize := rfl
  simp only [frameBytes]
  rw [List.getElem_append_right (by rw [hlen]; omega)]
  simp only [hlen, Nat.add_sub_cancel_left]

/-! ### The invariant -/

/-- The bytes of its frame that the producer has stored but not counted. -/
def Writer.stored : Writer → List UInt8
  | .copy p _ _ k => (frameBytes p).take k
  | .addCount p _ _ => frameBytes p
  | _ => []

/-- The room that the producer has found and is filling. -/
def Writer.reserved : Writer → ℕ
  | .copy p _ _ _ => (frameBytes p).length
  | .addCount p _ _ => (frameBytes p).length
  | _ => 0

/-- The bytes of the frame that is counted but not yet covered by `write_pos`. -/
def Writer.unpublished : Writer → ℕ
  | .storeWrite p _ _ _ => (frameBytes p).length
  | _ => 0

/-- `read` is an earlier value of `read_pos`, no more than the capacity behind the frames. -/
def SeenRead (ps : List Payload) (readEnd : ℕ) (read : UInt32) (pos : ℕ) : Prop :=
  read = UInt32.ofNat pos ∧ pos ≤ readEnd ∧ (framesBytes ps).length ≤ pos + ringCapacity

/-- The locals of `discard_oldest`. -/
def DiscardOk (ps : List Payload) (readEnd : ℕ) : Discard → Prop
  | .loadRead => True
  | .loadWrite read => ∃ pos, SeenRead ps readEnd read pos ∧
      (pos = (framesBytes ps).length ∨ ∃ f, History.frameAt ps pos = some f)
  | .readLen0 read => ∃ pos f, SeenRead ps readEnd read pos ∧ History.frameAt ps pos = some f
  | .readLen1 read b₀ => ∃ pos f, SeenRead ps readEnd read pos ∧
      History.frameAt ps pos = some f ∧ (frameBytes f)[0]? = some b₀
  | .compareExchange read msgLen => ∃ pos f, SeenRead ps readEnd read pos ∧
      History.frameAt ps pos = some f ∧ msgLen = f.length
  | .subCount => True
  | .addDrop => True

/-- The locals of `write_message`. -/
def WriterOk (ps : List Payload) (readEnd : ℕ) : Writer → Prop
  | .idle => True
  | .loadWrite p _ => p.Valid
  | .loadRead p _ write => p.Valid ∧ write = UInt32.ofNat (framesBytes ps).length
  | .loadCount p _ write read => p.Valid ∧ write = UInt32.ofNat (framesBytes ps).length ∧
      ∃ pos, SeenRead ps readEnd read pos
  | .discard p _ d => p.Valid ∧ DiscardOk ps readEnd d
  | .copy p _ write k => p.Valid ∧ write = UInt32.ofNat (framesBytes ps).length ∧
      k < (frameBytes p).length
  | .addCount p _ write => p.Valid ∧ write = UInt32.ofNat (framesBytes ps).length
  | .storeWrite p _ write _ =>
      p.Valid ∧ write = UInt32.ofNat ((framesBytes ps).length - (frameBytes p).length) ∧
        (frameBytes p).length ≤ (framesBytes ps).length
  | .addSequence _ _ => True

/-- The value of `read_pos` that an attempt loaded. -/
def AttemptOk (ps : List Payload) (readEnd : ℕ) (a : Attempt) : Prop :=
  a.read = UInt32.ofNat a.base ∧ a.base ≤ readEnd ∧
    ∀ f, a.frame = some f → History.frameAt ps a.base = some f

/-- The locals of `read_message`: what an attempt has read is what the frame that began at its
`read_pos` says, unless `read_pos` has moved since. -/
def ReaderOk (ps : List Payload) (readEnd : ℕ) : Reader → Prop
  | .readLen0 a => AttemptOk ps readEnd a
  | .readLen1 a b₀ => AttemptOk ps readEnd a ∧
      ∀ f, a.frame = some f → readEnd = a.base → (frameBytes f)[0]? = some b₀
  | .reload a => AttemptOk ps readEnd a ∧ ∀ f, a.frame = some f → readEnd ≠ a.base
  | .copy a msgLen out => AttemptOk ps readEnd a ∧
      ∀ f, a.frame = some f → readEnd = a.base →
        msgLen = f.length ∧ out.length < msgLen ∧ out = f.take out.length
  | .compareExchange a msgLen out => AttemptOk ps readEnd a ∧
      ∀ f, a.frame = some f → readEnd = a.base → msgLen = f.length ∧ out = f
  | _ => True

/-- The invariant of the shared ring. -/
structure RingInv (s : RingState) : Prop where
  valid : ∀ p ∈ s.hist.frames, p.Valid
  moves : ∃ taken rest, s.hist.frames = taken ++ rest ∧
    s.hist.moves.map Move.size = taken.map fun p => (frameBytes p).length
  readPos : s.header.readPos = UInt32.ofNat s.hist.readEnd
  writePos : s.header.writePos =
    UInt32.ofNat ((framesBytes s.hist.frames).length - s.writer.unpublished)
  room : (framesBytes s.hist.frames).length + s.writer.reserved ≤ s.hist.readEnd + ringCapacity
  window : Holds ringCapacity s.storage (framesBytes s.hist.frames ++ s.writer.stored)
  writer : WriterOk s.hist.frames s.hist.readEnd s.writer
  reader : ReaderOk s.hist.frames s.hist.readEnd s.reader

/-- If the next step is a successful `compare_exchange` of the consumer, it takes a frame that
has been stored and counted. -/
def TakesFrame (s : RingState) (l : RingLabel) : Prop :=
  ∀ a msgLen out, l = .reader → s.reader = .compareExchange a msgLen out →
    s.header.readPos = a.read →
      (History.frameAt s.hist.frames s.hist.readEnd).map List.length = some msgLen

instance (s : RingState) (l : RingLabel) : Decidable (TakesFrame s l) :=
  match h : s.reader with
  | .compareExchange a n out =>
    decidable_of_iff (l = .reader → s.header.readPos = a.read →
        (History.frameAt s.hist.frames s.hist.readEnd).map List.length = some n) <| by
      simp only [TakesFrame, h, Reader.compareExchange.injEq]
      constructor
      · rintro h a n out hl ⟨rfl, rfl, rfl⟩
        exact h hl
      · exact fun h hl => h a n out hl ⟨rfl, rfl, rfl⟩
  | .idle | .loadCount | .loadRead | .readLen0 _ | .readLen1 _ _ | .reload _ | .copy _ _ _
  | .subCount _ _ | .addSequence _ _ => isTrue (by simp [TakesFrame, h])

/-! ### Locals of one side while the other side moves -/

theorem SeenRead.mono {ps : List Payload} {r r' : ℕ} {read : UInt32} {pos : ℕ}
    (h : SeenRead ps r read pos) (hr : r ≤ r') : SeenRead ps r' read pos :=
  ⟨h.1, h.2.1.trans hr, h.2.2⟩

theorem DiscardOk.mono {ps : List Payload} {r r' : ℕ} {d : Discard} (h : DiscardOk ps r d)
    (hr : r ≤ r') : DiscardOk ps r' d := by
  cases d with
  | loadRead | subCount | addDrop => trivial
  | loadWrite => obtain ⟨pos, hs, hf⟩ := h; exact ⟨pos, hs.mono hr, hf⟩
  | readLen0 | readLen1 | compareExchange =>
    obtain ⟨pos, f, hs, hf⟩ := h
    exact ⟨pos, f, hs.mono hr, hf⟩

theorem WriterOk.mono {ps : List Payload} {r r' : ℕ} {w : Writer} (h : WriterOk ps r w)
    (hr : r ≤ r') : WriterOk ps r' w := by
  cases w with
  | discard => exact ⟨h.1, h.2.mono hr⟩
  | loadCount => obtain ⟨hp, hw, pos, hs⟩ := h; exact ⟨hp, hw, pos, hs.mono hr⟩
  | _ => exact h

theorem AttemptOk.mono {ps qs : List Payload} {r r' : ℕ} {a : Attempt} (h : AttemptOk ps r a)
    (hr : r ≤ r') : AttemptOk (ps ++ qs) r' a :=
  ⟨h.1, h.2.1.trans hr, fun f hf => History.frameAt_append (h.2.2 f hf) qs⟩

/-- The producer may count frames and move `read_pos` on: what an attempt has read stays right
or stops mattering. -/
theorem ReaderOk.mono {ps qs : List Payload} {r r' : ℕ} {rd : Reader} (h : ReaderOk ps r rd)
    (hr : r ≤ r') : ReaderOk (ps ++ qs) r' rd := by
  have back {a : Attempt} (ha : AttemptOk ps r a) (he : r' = a.base) : r = a.base :=
    le_antisymm (hr.trans he.le) ha.2.1
  cases rd with
  | readLen0 => exact AttemptOk.mono h hr
  | readLen1 | copy | compareExchange =>
    exact ⟨h.1.mono hr, fun f hf he => h.2 f hf (back h.1 he)⟩
  | reload => exact ⟨h.1.mono hr, fun f hf he => h.2 f hf (back h.1 he)⟩
  | _ => trivial

namespace RingInv

variable {s s' : RingState}

theorem exists_taken (h : RingInv s) : ∃ taken rest, s.hist.frames = taken ++ rest ∧
    s.hist.readEnd = (framesBytes taken).length ∧
    s.hist.moves.map Move.size = taken.map fun p => (frameBytes p).length := by
  obtain ⟨taken, rest, hF, hM⟩ := h.moves
  refine ⟨taken, rest, hF, ?_, hM⟩
  rw [History.readEnd, hM, framesBytes, List.length_flatMap]

theorem readEnd_le (h : RingInv s) : s.hist.readEnd ≤ (framesBytes s.hist.frames).length := by
  obtain ⟨taken, rest, hF, hR, -⟩ := h.exists_taken
  rw [hF, hR]
  simp

/-- A step that touches neither the storage nor the positions. -/
theorem local_step (h : RingInv s) (hst : s'.storage = s.storage)
    (hr : s'.header.readPos = s.header.readPos) (hw : s'.header.writePos = s.header.writePos)
    (hF : s'.hist.frames = s.hist.frames) (hM : s'.hist.moves = s.hist.moves)
    (hstored : s'.writer.stored = s.writer.stored)
    (hres : s'.writer.reserved ≤ s.writer.reserved)
    (hun : s'.writer.unpublished = s.writer.unpublished)
    (hwr : WriterOk s.hist.frames s.hist.readEnd s'.writer)
    (hrd : ReaderOk s.hist.frames s.hist.readEnd s'.reader) : RingInv s' := by
  have hR : s'.hist.readEnd = s.hist.readEnd := by rw [History.readEnd, History.readEnd, hM]
  have hroom := h.room
  constructor
  · rw [hF]; exact h.valid
  · rw [hF, hM]; exact h.moves
  · rw [hr, hR]; exact h.readPos
  · rw [hw, hF, hun]; exact h.writePos
  · rw [hF, hR]; omega
  · rw [hst, hF, hstored]; exact h.window
  · rw [hF, hR]; exact hwr
  · rw [hF, hR]; exact hrd

end RingInv

end Xshm
