import Xshm.Ring.Invariant

/-!
# The steps of the shared ring keep its invariant

One lemma for each kind of step that moves a position or touches the storage (`advance` for a
successful `compare_exchange`, `storeByte`, `count`, `publish`), and one lemma for each label
(`callWrite`, `callRead`, `writerStep`, `readerStep`).  Only a successful `compare_exchange` of
the consumer needs `TakesFrame`.

## Main results

* `RingInv.step` : a step that meets `TakesFrame` keeps the invariant.
* `ringInv_of_reachWhen` : so it holds in every state reached by such steps.
-/

namespace Xshm

open Circular

theorem Writer.length_stored_le (w : Writer) : w.stored.length ≤ w.reserved := by
  cases w with
  | copy p ov write k => simp [Writer.stored, Writer.reserved]
  | addCount p ov write => simp [Writer.stored, Writer.reserved]
  | _ => exact Nat.zero_le _

theorem totalRequired_eq (p : Payload) : totalRequired p = UInt32.ofNat (frameBytes p).length := by
  rw [totalRequired, length_frameBytes]

/-- A fresh ring has stored nothing. -/
theorem ringInv_of_freshRing {s : RingState} (h : FreshRing s) : RingInv s := by
  obtain ⟨hd, st, generation, rfl⟩ := h
  exact
    { valid := by simp
      moves := ⟨[], [], rfl, rfl⟩
      readPos := rfl
      writePos := rfl
      room := Nat.zero_le _
      window := holds_nil st
      writer := trivial
      reader := trivial }

namespace RingInv

variable {s s' : RingState}

/-- `read_pos` is at the end of the frames or a frame begins there. -/
theorem end_or_frame (h : RingInv s) : s.hist.readEnd = (framesBytes s.hist.frames).length ∨
    ∃ f, History.frameAt s.hist.frames s.hist.readEnd = some f := by
  obtain ⟨taken, rest, hF, hR, -⟩ := h.exists_taken
  have hat := History.frameAt_framesBytes taken rest
  rw [← hF, ← hR] at hat
  cases rest with
  | nil =>
    left
    rw [hR, hF, List.append_nil]
  | cons f rest => exact .inr ⟨f, hat⟩

theorem seenRead (h : RingInv s) :
    SeenRead s.hist.frames s.hist.readEnd s.header.readPos s.hist.readEnd :=
  ⟨h.readPos, le_rfl, (Nat.le_add_right _ _).trans h.room⟩

/-- `read_pos` is what the producer loaded only if it has not moved: no frame has been counted
since, so less than a lap has been moved over. -/
theorem readEnd_eq_seen (h : RingInv s) {read : UInt32} {pos : ℕ}
    (hs : SeenRead s.hist.frames s.hist.readEnd read pos) (he : s.header.readPos = read) :
    s.hist.readEnd = pos := by
  refine (ofNat_inj_of_lt hs.2.1 ?_ (by rw [← h.readPos, he, hs.1])).symm
  have hcap : ringCapacity < 2 ^ 32 := by decide
  have hend := h.readEnd_le
  have hlap := hs.2.2
  omega

/-- A byte of the frame at `read_pos`. -/
theorem get_frame (h : RingInv s) {f : Payload}
    (hf : History.frameAt s.hist.frames s.hist.readEnd = some f) {k : ℕ}
    (hk : k < (frameBytes f).length) :
    s.storage ((s.hist.readEnd + k) % ringCapacity) = (frameBytes f)[k] := by
  have hroom := h.room
  have hstored := s.writer.length_stored_le
  exact get_frameBytes h.window hf (by omega) hk

/-- A byte of a frame that the producer still sees at `read_pos`. -/
theorem get_seen (h : RingInv s) (hw : s.writer.stored = []) {read : UInt32} {pos : ℕ}
    (hs : SeenRead s.hist.frames s.hist.readEnd read pos) {f : Payload}
    (hf : History.frameAt s.hist.frames pos = some f) {k : ℕ} (hk : k < (frameBytes f).length)
    (hcap : k ≤ ringCapacity) :
    s.storage (wrapIndex (maskIndex read) k) = (frameBytes f)[k] := by
  have hwin := h.window
  rw [hw] at hwin
  rw [hs.1, maskIndex_ofNat, wrapIndex_eq _ hcap, Nat.mod_add_mod]
  exact get_frameBytes hwin hf (by simpa using hs.2.2) hk

theorem valid_of_frameAt (h : RingInv s) {f : Payload} {pos : ℕ}
    (hf : History.frameAt s.hist.frames pos = some f) : f.Valid :=
  h.valid f (History.frameAt_mem hf)

/-- The length that the producer decodes there is the length of that frame. -/
theorem decodeLen_seen (h : RingInv s) (hw : s.writer.stored = []) {read : UInt32} {pos : ℕ}
    (hs : SeenRead s.hist.frames s.hist.readEnd read pos) {f : Payload}
    (hf : History.frameAt s.hist.frames pos = some f) {b₀ : UInt8}
    (h₀ : (frameBytes f)[0]? = some b₀) :
    decodeLen b₀ (s.storage (wrapIndex (maskIndex read) 1)) = f.length := by
  have hlen : 1 < (frameBytes f).length := by simp [messageHeaderSize]; omega
  refine decodeLen_frameBytes (h.valid_of_frameAt hf) h₀ ?_
  rw [h.get_seen hw hs hf hlen (by decide), List.getElem?_eq_getElem hlen]

/-- `read_pos` is moved over the frame that begins there. -/
theorem advance (h : RingInv s) {f : Payload} {m : Move}
    (hf : History.frameAt s.hist.frames s.hist.readEnd = some f)
    (hm : m.size = (frameBytes f).length)
    (hst : s'.storage = s.storage)
    (hr : s'.header.readPos = s.header.readPos + UInt32.ofNat m.size)
    (hw : s'.header.writePos = s.header.writePos)
    (hF : s'.hist.frames = s.hist.frames) (hM : s'.hist.moves = s.hist.moves ++ [m])
    (hstored : s'.writer.stored = s.writer.stored)
    (hres : s'.writer.reserved = s.writer.reserved)
    (hun : s'.writer.unpublished = s.writer.unpublished)
    (hwr : WriterOk s.hist.frames s.hist.readEnd s'.writer)
    (hrd : ReaderOk s.hist.frames s.hist.readEnd s'.reader) : RingInv s' := by
  have hR : s'.hist.readEnd = s.hist.readEnd + m.size := by
    rw [History.readEnd, History.readEnd, hM]
    simp
  have hle : s.hist.readEnd ≤ s'.hist.readEnd := by omega
  obtain ⟨taken, rest, hfr, hend, hmoves⟩ := h.exists_taken
  have hhead : rest.head? = some f := by
    rw [← History.frameAt_framesBytes taken rest, ← hfr, ← hend, hf]
  obtain ⟨rest, rfl⟩ : ∃ rest', rest = f :: rest' := by
    cases rest with
    | nil => cases hhead
    | cons f' rest => cases hhead; exact ⟨rest, rfl⟩
  have hroom := h.room
  constructor
  · rw [hF]; exact h.valid
  · refine ⟨taken ++ [f], rest, by rw [hF, hfr, List.append_assoc]; rfl, ?_⟩
    rw [hM, List.map_append, List.map_append, hmoves, List.map_singleton, List.map_singleton, hm]
  · rw [hr, h.readPos, hR, ofNat_add]
  · rw [hw, hF, hun]; exact h.writePos
  · rw [hF, hres]; omega
  · rw [hst, hF, hstored]; exact h.window
  · rw [hF]; exact hwr.mono hle
  · rw [hF]
    have : ReaderOk (s.hist.frames ++ []) s'.hist.readEnd s'.reader := hrd.mono hle
    rwa [List.append_nil] at this

/-- The producer stores byte `k` of its frame. -/
theorem storeByte (h : RingInv s) {p : Payload} {write : UInt32} {k : ℕ} {b : UInt8}
    (hw : WriterOk s.hist.frames s.hist.readEnd s'.writer)
    (hp : p.Valid) (hwrite : write = UInt32.ofNat (framesBytes s.hist.frames).length)
    (hk : k < (frameBytes p).length) (hb : b = (frameBytes p)[k])
    (hstored : s.writer.stored = (frameBytes p).take k)
    (hstored' : s'.writer.stored = (frameBytes p).take (k + 1))
    (hres : s'.writer.reserved = s.writer.reserved)
    (hun : s'.writer.unpublished = s.writer.unpublished)
    (hst : s'.storage = Function.update s.storage (frameIndex (maskIndex write) k) b)
    (hhd : s'.header = s.header) (hh : s'.hist = s.hist) (hrd : s'.reader = s.reader) :
    RingInv s' := by
  have hcap := hp.length_frameBytes_le
  have hidx : frameIndex (maskIndex write) k =
      (framesBytes s.hist.frames ++ (frameBytes p).take k).length % ringCapacity := by
    rw [hwrite, maskIndex_ofNat, frameIndex_eq _ (by omega), List.length_append, List.length_take,
      Nat.min_eq_left hk.le]
  have hwin := holds_snoc (hstored ▸ h.window) b
  constructor
  · rw [hh]; exact h.valid
  · rw [hh]; exact h.moves
  · rw [hhd, hh]; exact h.readPos
  · rw [hhd, hh, hun]; exact h.writePos
  · rw [hh, hres]; exact h.room
  · rw [hst, hh, hstored', hidx, List.take_succ_eq_append_getElem hk, ← hb, ← List.append_assoc]
    exact hwin
  · rw [hh]; exact hw
  · rw [hh, hrd]; exact h.reader

/-- The producer counts its frame. -/
theorem count (h : RingInv s) {p : Payload} {ov write : UInt32} (c : UInt32)
    (hw : s.writer = .addCount p ov write) :
    RingInv { s with
      header := { s.header with messageCount := c }
      writer := .storeWrite p ov write s.header.messageCount
      hist := { s.hist with frames := s.hist.frames ++ [p] } } := by
  have hwr := h.writer
  have hwin := h.window
  have hroom := h.room
  have hpos := h.writePos
  rw [hw] at hwr hwin hroom hpos
  obtain ⟨hp, hwrite⟩ := hwr
  have hlen : (framesBytes (s.hist.frames ++ [p])).length =
      (framesBytes s.hist.frames).length + (frameBytes p).length := by simp
  constructor
  · intro q hq
    rcases List.mem_append.1 hq with hq | hq
    · exact h.valid q hq
    · rwa [List.mem_singleton.1 hq]
  · obtain ⟨taken, rest, hF, hM⟩ := h.moves
    exact ⟨taken, rest ++ [p], by rw [hF, List.append_assoc], hM⟩
  · exact h.readPos
  · simp only [Writer.unpublished, hlen, Nat.add_sub_cancel] at hpos ⊢
    exact hpos
  · simp only [Writer.reserved] at hroom ⊢
    rw [hlen]
    exact hroom
  · simpa [Writer.stored] using hwin
  · refine ⟨hp, ?_, by rw [hlen]; omega⟩
    rw [hwrite, hlen, Nat.add_sub_cancel]
  · exact h.reader.mono le_rfl

/-- The producer publishes its frame. -/
theorem publish (h : RingInv s) {p : Payload} {ov write prevCount : UInt32}
    (hw : s.writer = .storeWrite p ov write prevCount)
    (hst : s'.storage = s.storage) (hr : s'.header.readPos = s.header.readPos)
    (hpos : s'.header.writePos = write + totalRequired p)
    (hF : s'.hist.frames = s.hist.frames) (hM : s'.hist.moves = s.hist.moves)
    (hstored : s'.writer.stored = []) (hres : s'.writer.reserved = 0)
    (hun : s'.writer.unpublished = 0)
    (hwr : WriterOk s.hist.frames s.hist.readEnd s'.writer) (hrd : s'.reader = s.reader) :
    RingInv s' := by
  have hR : s'.hist.readEnd = s.hist.readEnd := by rw [History.readEnd, History.readEnd, hM]
  have hok := h.writer
  have hwin := h.window
  have hroom := h.room
  rw [hw] at hok hwin hroom
  obtain ⟨-, hwrite, hle⟩ := hok
  constructor
  · rw [hF]; exact h.valid
  · rw [hF, hM]; exact h.moves
  · rw [hr, hR]; exact h.readPos
  · rw [hpos, hF, hun, hwrite, totalRequired_eq, ofNat_add, Nat.sub_add_cancel hle, Nat.sub_zero]
  · rw [hF, hR, hres]; exact hroom
  · rw [hst, hF, hstored]; exact hwin
  · rw [hF, hR]; exact hwr
  · rw [hF, hR, hrd]; exact h.reader

/-! ### The producer -/

/-- `write_message` returns from a point at which it has stored and counted everything. -/
theorem returnWrite (h : RingInv s) (hstored : s.writer.stored = [])
    (hun : s.writer.unpublished = 0) (res : Except ShmError WriteOutcome) :
    RingInv (s.returnWrite res) :=
  h.local_step rfl rfl rfl rfl rfl hstored.symm (Nat.zero_le _) hun.symm trivial h.reader

theorem callWrite (h : RingInv s) (hw : s.writer = .idle) (p : Payload) :
    RingInv (s.callWrite p) := by
  have hstored : s.writer.stored = [] := by rw [hw]; rfl
  have hun : s.writer.unpublished = 0 := by rw [hw]; rfl
  rw [RingState.callWrite]
  split_ifs with h₁ h₂ h₃
  · exact h.local_step rfl rfl rfl rfl rfl rfl le_rfl rfl h.writer h.reader
  · exact h.local_step rfl rfl rfl rfl rfl rfl le_rfl rfl h.writer h.reader
  · exact h.local_step rfl rfl rfl rfl rfl rfl le_rfl rfl h.writer h.reader
  · exact h.local_step rfl rfl rfl rfl rfl hstored.symm (Nat.zero_le _) hun.symm
      ⟨not_lt.1 h₁, not_lt.1 h₂⟩ h.reader

theorem discardStep (h : RingInv s) {p : Payload} {ov : UInt32} {d : Discard}
    (hw : s.writer = .discard p ov d) : RingInv (s.discardStep p ov d) := by
  have hstored : s.writer.stored = [] := by rw [hw]; rfl
  have hun : s.writer.unpublished = 0 := by rw [hw]; rfl
  have hok := h.writer
  rw [hw] at hok
  obtain ⟨hp, hd⟩ := hok
  -- every step of `discard_oldest` but the `compare_exchange` is local
  have stay {s' : RingState} {d' : Discard} (hs : s'.storage = s.storage)
      (hr : s'.header.readPos = s.header.readPos) (hwp : s'.header.writePos = s.header.writePos)
      (hh : s'.hist = s.hist) (hrd : s'.reader = s.reader) (hd' : s'.writer = .discard p ov d')
      (hok : DiscardOk s.hist.frames s.hist.readEnd d') : RingInv s' :=
    h.local_step hs hr hwp (by rw [hh]) (by rw [hh]) (by rw [hstored, hd']; rfl)
      (by rw [hd']; exact Nat.zero_le _) (by rw [hun, hd']; rfl) (by rw [hd']; exact ⟨hp, hok⟩)
      (by rw [hrd]; exact h.reader)
  cases d with
  | loadRead => exact stay rfl rfl rfl rfl rfl rfl ⟨_, h.seenRead, h.end_or_frame⟩
  | loadWrite read =>
    obtain ⟨pos, hs, hf⟩ := hd
    rw [RingState.discardStep]
    split_ifs with he
    · exact h.returnWrite hstored hun _
    · refine stay rfl rfl rfl rfl rfl rfl ?_
      rcases hf with hend | ⟨f, hf⟩
      · refine absurd ?_ he
        rw [hs.1, h.writePos, hun, hend, Nat.sub_zero]
      · exact ⟨pos, f, hs, hf⟩
  | readLen0 read =>
    obtain ⟨pos, f, hs, hf⟩ := hd
    refine stay rfl rfl rfl rfl rfl rfl ⟨pos, f, hs, hf, ?_⟩
    have hlen : 0 < (frameBytes f).length := by simp [messageHeaderSize]
    rw [h.get_seen hstored hs hf hlen (Nat.zero_le _), List.getElem?_eq_getElem hlen]
  | readLen1 read b₀ =>
    obtain ⟨pos, f, hs, hf, h₀⟩ := hd
    have hdec := h.decodeLen_seen hstored hs hf h₀
    have hvalid : LengthOk f.length := h.valid_of_frameAt hf
    rw [RingState.discardStep, hdec]
    simp only [hvalid, not_true_eq_false, ↓reduceIte]
    exact stay rfl rfl rfl rfl rfl rfl ⟨pos, f, hs, hf, rfl⟩
  | compareExchange read msgLen =>
    obtain ⟨pos, f, hs, hf, hlen⟩ := hd
    rw [RingState.discardStep]
    split_ifs with he
    · have hpos := h.readEnd_eq_seen hs he
      rw [← hpos] at hf
      have hsize : (Move.evict msgLen).size = (frameBytes f).length := by
        rw [hlen, length_frameBytes, Move.size]
      have hr : read + UInt32.ofNat (messageHeaderSize + msgLen) =
          s.header.readPos + UInt32.ofNat (Move.evict msgLen).size := by rw [he, Move.size]
      exact h.advance hf hsize rfl hr rfl rfl rfl hstored.symm (by rw [hw]; rfl) hun.symm
        ⟨hp, trivial⟩ h.reader
    · exact stay rfl rfl rfl rfl rfl rfl trivial
  | subCount => exact stay rfl rfl rfl rfl rfl rfl trivial
  | addDrop =>
    exact h.local_step rfl rfl rfl rfl rfl hstored.symm (Nat.zero_le _) hun.symm hp h.reader

theorem writerStep (h : RingInv s) (hst : s.writerStep = some s') : RingInv s' := by
  have hok := h.writer
  rw [RingState.writerStep] at hst
  cases hw : s.writer with
  | idle => simp [hw] at hst
  | loadWrite p ov =>
    simp only [hw] at hst hok
    cases hst
    refine h.local_step rfl rfl rfl rfl rfl (by rw [hw]; rfl) (Nat.zero_le _) (by rw [hw]; rfl)
      ⟨hok, ?_⟩ h.reader
    rw [h.writePos, hw]
    rfl
  | loadRead p ov write =>
    simp only [hw] at hst hok
    cases hst
    exact h.local_step rfl rfl rfl rfl rfl (by rw [hw]; rfl) (Nat.zero_le _) (by rw [hw]; rfl)
      ⟨hok.1, hok.2, _, h.seenRead⟩ h.reader
  | loadCount p ov write read =>
    simp only [hw] at hst hok
    obtain ⟨hp, hwrite, pos, hs⟩ := hok
    split_ifs at hst with hm hc
    · cases hst
      exact h.returnWrite (by rw [hw]; rfl) (by rw [hw]; rfl) _
    · cases hst
      exact h.local_step rfl rfl rfl rfl rfl (by rw [hw]; rfl) (Nat.zero_le _) (by rw [hw]; rfl)
        ⟨hp, trivial⟩ h.reader
    · cases hst
      have hle := hs.2.1.trans h.readEnd_le
      -- an old `read_pos` shows less room than there is
      have hroom : (framesBytes s.hist.frames).length + (frameBytes p).length ≤
          s.hist.readEnd + ringCapacity := by
        have hlap := hs.2.2
        have hread := hs.2.1
        rw [MustEvict, not_or, hwrite, hs.1, availableBytes_ofNat hle (by omega),
          toNat_totalRequired hp, ← length_frameBytes] at hm
        omega
      exact
        { valid := h.valid
          moves := h.moves
          readPos := h.readPos
          writePos := by have := h.writePos; rwa [hw] at this
          room := hroom
          window := by have := h.window; rwa [hw] at this
          writer := ⟨hp, hwrite, by simp [messageHeaderSize]⟩
          reader := h.reader }
  | discard p ov d =>
    simp only [hw] at hst
    cases hst
    exact h.discardStep hw
  | copy p ov write k =>
    simp only [hw] at hst hok
    obtain ⟨hp, hwrite, hk⟩ := hok
    cases hst
    have hb : (frameBytes p).getD k 0 = (frameBytes p)[k] := by
      rw [List.getD_eq_getElem?_getD, List.getElem?_eq_getElem hk, Option.getD_some]
    by_cases hlast : k + 1 < (frameBytes p).length
    · exact h.storeByte (by simpa only [hlast, ↓reduceIte] using ⟨hp, hwrite, hlast⟩) hp hwrite
        hk hb (by rw [hw]; rfl) (by simp only [hlast, ↓reduceIte]; rfl)
        (by rw [hw]; simp only [hlast, ↓reduceIte]; rfl)
        (by rw [hw]; simp only [hlast, ↓reduceIte]; rfl) rfl rfl rfl rfl
    · have htake : (frameBytes p).take (k + 1) = frameBytes p :=
        List.take_of_length_le (by omega)
      exact h.storeByte (by simpa only [hlast, ↓reduceIte] using ⟨hp, hwrite⟩) hp hwrite
        hk hb (by rw [hw]; rfl) (by rw [htake]; simp only [hlast, ↓reduceIte]; rfl)
        (by rw [hw]; simp only [hlast, ↓reduceIte]; rfl)
        (by rw [hw]; simp only [hlast, ↓reduceIte]; rfl) rfl rfl rfl rfl
  | addCount p ov write =>
    simp only [hw] at hst
    cases hst
    exact h.count _ hw
  | storeWrite p ov write prevCount =>
    simp only [hw] at hst
    split_ifs at hst
    · cases hst
      exact h.publish hw rfl rfl rfl rfl rfl rfl rfl rfl trivial rfl
    · cases hst
      exact h.publish hw rfl rfl rfl rfl rfl rfl rfl rfl trivial rfl
  | addSequence ov prevCount =>
    simp only [hw] at hst
    cases hst
    exact h.local_step rfl rfl rfl rfl rfl (by rw [hw]; rfl) (Nat.zero_le _) (by rw [hw]; rfl)
      trivial h.reader

/-! ### The consumer -/

/-- A step that changes only the locals of the consumer and what no invariant reads. -/
theorem reader_step (h : RingInv s) (hst : s'.storage = s.storage)
    (hr : s'.header.readPos = s.header.readPos) (hw : s'.header.writePos = s.header.writePos)
    (hF : s'.hist.frames = s.hist.frames) (hM : s'.hist.moves = s.hist.moves)
    (hwr : s'.writer = s.writer) (hrd : ReaderOk s.hist.frames s.hist.readEnd s'.reader) :
    RingInv s' :=
  h.local_step hst hr hw hF hM (by rw [hwr]) (by rw [hwr]) (by rw [hwr])
    (by rw [hwr]; exact h.writer) hrd

theorem readerStep (h : RingInv s) (hc : TakesFrame s .reader) (hst : s.readerStep = some s') :
    RingInv s' := by
  have hok := h.reader
  rw [RingState.readerStep] at hst
  cases hr : s.reader with
  | idle => simp [hr] at hst
  | loadCount =>
    simp only [hr] at hst
    split_ifs at hst
    · cases hst
      exact h.reader_step rfl rfl rfl rfl rfl rfl trivial
    · cases hst
      exact h.reader_step rfl rfl rfl rfl rfl rfl trivial
  | loadRead =>
    simp only [hr] at hst
    cases hst
    exact h.reader_step rfl rfl rfl rfl rfl rfl ⟨h.readPos, le_rfl, fun f hf => hf⟩
  | readLen0 a =>
    simp only [hr] at hst hok
    cases hst
    refine h.reader_step rfl rfl rfl rfl rfl rfl ⟨hok, fun f hf he => ?_⟩
    have hlen : 0 < (frameBytes f).length := by simp [messageHeaderSize]
    rw [hok.1, ← he, maskIndex_ofNat, wrapIndex_eq _ (Nat.zero_le _), Nat.mod_add_mod,
      h.get_frame (he ▸ hok.2.2 f hf) hlen, List.getElem?_eq_getElem hlen]
  | readLen1 a b₀ =>
    simp only [hr] at hst hok
    obtain ⟨ha, hb⟩ := hok
    have hdec (f : Payload) (hf : a.frame = some f) (he : s.hist.readEnd = a.base) :
        decodeLen b₀ (s.storage (wrapIndex (maskIndex a.read) 1)) = f.length ∧ f.Valid := by
      have hat := ha.2.2 f hf
      have hlen : 1 < (frameBytes f).length := by simp [messageHeaderSize]; omega
      rw [← he] at hat
      refine ⟨decodeLen_frameBytes (h.valid_of_frameAt hat) (hb f hf he) ?_, h.valid_of_frameAt hat⟩
      rw [ha.1, ← he, maskIndex_ofNat, wrapIndex_eq _ (by decide), Nat.mod_add_mod,
        h.get_frame hat hlen, List.getElem?_eq_getElem hlen]
    by_cases hlen : LengthOk (decodeLen b₀ (s.storage (wrapIndex (maskIndex a.read) 1)))
    · simp only [hlen, not_true_eq_false, ↓reduceIte] at hst
      cases hst
      refine h.reader_step rfl rfl rfl rfl rfl rfl ⟨ha, fun f hf he => ?_⟩
      obtain ⟨hd, hmin, -⟩ := hdec f hf he
      rw [minMessageSize] at hmin
      exact ⟨hd, by rw [hd, List.length_nil]; omega, by simp⟩
    · simp only [hlen, not_false_eq_true, ↓reduceIte] at hst
      cases hst
      refine h.reader_step rfl rfl rfl rfl rfl rfl
        ⟨ha, fun f hf he => ?_⟩
      obtain ⟨hd, hv⟩ := hdec f hf he
      exact absurd (valid_iff_lengthOk.1 hv) (hd ▸ hlen)
  | reload a =>
    simp only [hr] at hst
    split_ifs at hst
    · cases hst
      exact h.reader_step rfl rfl rfl rfl rfl rfl trivial
    · cases hst
      exact h.reader_step rfl rfl rfl rfl rfl rfl trivial
  | copy a msgLen out =>
    simp only [hr] at hst hok
    obtain ⟨ha, hcopy⟩ := hok
    cases hst
    -- the next byte of the payload, while `read_pos` has not moved
    have hnext (f : Payload) (hf : a.frame = some f) (he : s.hist.readEnd = a.base) :
        msgLen = f.length ∧ out.length < msgLen ∧
          out ++ [s.storage (payloadIndex (maskIndex a.read) out.length)] =
            f.take (out.length + 1) := by
      obtain ⟨hlen, hlt, hout⟩ := hcopy f hf he
      refine ⟨hlen, hlt, ?_⟩
      rw [hlen] at hlt
      have hat := ha.2.2 f hf
      rw [← he] at hat
      have hcap : (frameBytes f).length ≤ ringCapacity :=
        (h.valid_of_frameAt hat).length_frameBytes_le
      rw [length_frameBytes] at hcap
      have hk : messageHeaderSize + out.length < (frameBytes f).length := by
        rw [length_frameBytes]; omega
      have hbyte : s.storage (payloadIndex (maskIndex a.read) out.length) = f[out.length] := by
        rw [ha.1, ← he, maskIndex_ofNat, payloadIndex_eq _ (by omega), Nat.add_assoc,
          h.get_frame hat hk]
        exact getElem_frameBytes f hlt
      rw [List.take_succ_eq_append_getElem hlt, hbyte, ← hout]
    split_ifs with hlast
    · refine h.reader_step rfl rfl rfl rfl rfl rfl ⟨ha, fun f hf he => ?_⟩
      obtain ⟨hlen, -, hout⟩ := hnext f hf he
      exact ⟨hlen, hlast, by rw [hout, List.length_take]; congr 1; simp at hlast; omega⟩
    · refine h.reader_step rfl rfl rfl rfl rfl rfl ⟨ha, fun f hf he => ?_⟩
      obtain ⟨hlen, hlt, hout⟩ := hnext f hf he
      simp only [List.length_append, List.length_singleton] at hlast
      exact ⟨hlen, by rw [hout, List.take_of_length_le (by omega)]⟩
  | compareExchange a msgLen out =>
    simp only [hr] at hst
    split_ifs at hst with he
    · cases hst
      obtain ⟨f, hf, hlen⟩ := Option.map_eq_some_iff.1 (hc a msgLen out rfl hr he)
      have hsize : (Move.take msgLen out).size = (frameBytes f).length := by
        rw [← hlen, length_frameBytes, Move.size]
      have hread : a.read + UInt32.ofNat (messageHeaderSize + msgLen) =
          s.header.readPos + UInt32.ofNat (Move.take msgLen out).size := by rw [he, Move.size]
      exact h.advance hf hsize rfl hread rfl rfl rfl rfl rfl rfl h.writer trivial
    · cases hst
      exact h.reader_step rfl rfl rfl rfl rfl rfl trivial
  | subCount msgLen out =>
    simp only [hr] at hst
    split_ifs at hst
    · cases hst
      exact h.reader_step rfl rfl rfl rfl rfl rfl trivial
    · cases hst
      exact h.reader_step rfl rfl rfl rfl rfl rfl trivial
  | addSequence msgLen out =>
    simp only [hr] at hst
    cases hst
    exact h.reader_step rfl rfl rfl rfl rfl rfl trivial

/-- **A step that meets `TakesFrame` keeps the invariant.** -/
theorem step (h : RingInv s) {l : RingLabel} (hc : TakesFrame s l)
    (hst : s.step l = some s') : RingInv s' := by
  cases l with
  | callWrite p =>
    rw [RingState.step] at hst
    cases hw : s.writer with
    | idle =>
      simp only [hw] at hst
      cases hst
      exact h.callWrite hw p
    | _ => simp [hw] at hst
  | callRead =>
    rw [RingState.step] at hst
    cases hr : s.reader with
    | idle =>
      simp only [hr] at hst
      cases hst
      exact h.reader_step rfl rfl rfl rfl rfl rfl trivial
    | _ => simp [hr] at hst
  | writer => exact h.writerStep hst
  | reader => exact h.readerStep hc hst

end RingInv

/-- **The invariant holds in every state reached by steps that meet `TakesFrame`.** -/
theorem ringInv_of_reachWhen {s : RingState} (h : ringSystem.ReachWhen TakesFrame s) : RingInv s :=
  h.invariant (fun _ => ringInv_of_freshRing) fun _ _ _ hi hc hst => hi.step hc hst

end Xshm
