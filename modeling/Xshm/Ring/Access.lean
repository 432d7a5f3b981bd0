import Xshm.Memory.Access
import Xshm.Ring.AnyMemory

/-!
# The two sides of a ring as programs

What each program point of `write_message`, `discard_oldest` and `read_message` does to the shared
memory, with the words of the header and the bytes of the storage as its cells, and how it goes on.
A thread knows nothing of the ring but the answers to its accesses; `Sides.on_step` says that these
programs are the machine of `Xshm.Ring.Machine`.
-/

namespace Xshm

/-- The fields of a ring header. -/
inductive HeaderField where
  | writePos
  | readPos
  | messageCount
  | dropCount
  | sequence
  | connectionGen
  | handshakeState
  deriving DecidableEq

namespace RingHeader

def word (h : RingHeader) : HeaderField → UInt32
  | .writePos => h.writePos
  | .readPos => h.readPos
  | .messageCount => h.messageCount
  | .dropCount => h.dropCount
  | .sequence => h.sequence
  | .connectionGen => h.connectionGen
  | .handshakeState => h.handshakeState

/-- The header with these words. -/
def ofWords (w : HeaderField → UInt32) : RingHeader where
  writePos := w .writePos
  readPos := w .readPos
  messageCount := w .messageCount
  dropCount := w .dropCount
  sequence := w .sequence
  connectionGen := w .connectionGen
  handshakeState := w .handshakeState

/-- A field is stored. -/
def set (h : RingHeader) (v : UInt32) : HeaderField → RingHeader
  | .writePos => { h with writePos := v }
  | .readPos => { h with readPos := v }
  | .messageCount => { h with messageCount := v }
  | .dropCount => { h with dropCount := v }
  | .sequence => { h with sequence := v }
  | .connectionGen => { h with connectionGen := v }
  | .handshakeState => { h with handshakeState := v }

@[simp] theorem word_ofWords (w : HeaderField → UInt32) : (ofWords w).word = w := by
  funext f
  cases f <;> rfl

@[simp] theorem ofWords_update (w : HeaderField → UInt32) (f : HeaderField) (v : UInt32) :
    ofWords (Function.update w f v) = (ofWords w).set v f := by
  cases f <;> rfl

/-- The stores of `reset(generation)`, in order. -/
def resetStores (generation : UInt32) : List (HeaderField × UInt32) :=
  [(.writePos, 0), (.readPos, 0), (.messageCount, 0), (.dropCount, 0), (.sequence, 0),
    (.connectionGen, generation), (.handshakeState, handshakeIdle)]

/-- The header after some stores. -/
def storeAll (h : RingHeader) (stores : List (HeaderField × UInt32)) : RingHeader :=
  stores.foldl (fun h st => h.set st.2 st.1) h

theorem storeAll_resetStores (h : RingHeader) (generation : UInt32) :
    h.storeAll (resetStores generation) = h.reset generation := rfl

theorem word_set (h : RingHeader) (v : UInt32) (f g : HeaderField) :
    (h.set v f).word g = if g = f then v else h.word g := by
  cases f <;> cases g <;> rfl

/-- A word after some stores depends on no other word. -/
theorem word_storeAll_congr {h h' : RingHeader} {f : HeaderField} (hf : h'.word f = h.word f)
    (stores : List (HeaderField × UInt32)) :
    (h'.storeAll stores).word f = (h.storeAll stores).word f := by
  induction stores generalizing h h' with
  | nil => exact hf
  | cons st stores ih => exact ih (by rw [word_set, word_set, hf])

end RingHeader

/-! ### The producer -/

/-- What a thread goes on with, and what is recorded. -/
abbrev Recorded (T : Type) := History → T × History

/-- The next program point; nothing is recorded. -/
def Recorded.goto {T : Type} (t : T) : Recorded T := fun h => (t, h)

open Recorded (goto)

namespace Writer

/-- `write_message` returns `res`. -/
def ret (res : Except ShmError WriteOutcome) : Recorded Writer := fun h =>
  (.idle, { h with writes := h.writes ++ [res] })

/-- The next access of `discard_oldest`. -/
def discardAccess (p : Payload) (ov : UInt32) : Discard → Access HeaderField (Recorded Writer)
  | .loadRead => .load .readPos fun read => goto (.discard p ov (.loadWrite read))
  | .loadWrite read =>
    .load .writePos fun write =>
      if read = write then ret (.error .queueEmpty) else goto (.discard p ov (.readLen0 read))
  | .readLen0 read =>
    .loadByte (wrapIndex (maskIndex read) 0) fun b₀ => goto (.discard p ov (.readLen1 read b₀))
  | .readLen1 read b₀ =>
    .loadByte (wrapIndex (maskIndex read) 1) fun b₁ =>
      if ¬ LengthOk (decodeLen b₀ b₁) then ret (.error .corrupted)
      else goto (.discard p ov (.compareExchange read (decodeLen b₀ b₁)))
  | .compareExchange read msgLen =>
    .compareExchange .readPos read (read + UInt32.ofNat (messageHeaderSize + msgLen)) fun
      | true => fun h => (.discard p ov .subCount, { h with moves := h.moves ++ [.evict msgLen] })
      | false => goto (.discard p ov .loadRead)
  | .subCount => .fetchSub .messageCount 1 fun _ => goto (.discard p ov .addDrop)
  | .addDrop => .fetchAdd .dropCount 1 fun _ => goto (.loadWrite p (ov + 1))

/-- The next access of the producer. -/
def access : Writer → Option (Access HeaderField (Recorded Writer))
  | .idle => none
  | .loadWrite p ov => some (.load .writePos fun write => goto (.loadRead p ov write))
  | .loadRead p ov write =>
    some (.load .readPos fun read => goto (.loadCount p ov write read))
  | .loadCount p ov write read =>
    some (.load .messageCount fun count =>
      if MustEvict p write read count then
        if count = 0 then ret (.error .messageTooLarge) else goto (.discard p ov .loadRead)
      else goto (.copy p ov write 0))
  | .discard p ov d => some (discardAccess p ov d)
  | .copy p ov write k =>
    some (.storeByte (frameIndex (maskIndex write) k) ((frameBytes p).getD k 0)
      (goto (if k + 1 < (frameBytes p).length then .copy p ov write (k + 1)
        else .addCount p ov write)))
  | .addCount p ov write =>
    some (.fetchAdd .messageCount 1 fun prevCount h =>
      (.storeWrite p ov write prevCount, { h with frames := h.frames ++ [p] }))
  | .storeWrite p ov write prevCount =>
    some (.store .writePos (write + totalRequired p)
      (if prevCount = 0 then goto (.addSequence ov prevCount) else ret (.ok ⟨ov, false⟩)))
  | .addSequence ov prevCount =>
    some (.fetchAdd .sequence 1 fun _ => ret (.ok ⟨ov, prevCount == 0⟩))

/-- `write_message(p)` is called: what it checks first. -/
def call (p : Payload) : Recorded Writer :=
  if p.length < minMessageSize then ret (.error .messageTooSmall)
  else if maxMessageSize < p.length then ret (.error .messageTooLarge)
  else if UInt32.ofNat ringCapacity < totalRequired p then ret (.error .messageTooLarge)
  else goto (.loadWrite p 0)

end Writer

/-! ### The consumer -/

namespace Reader

/-- `read_message` returns `res`. -/
def ret (res : Except ShmError (ℕ × Payload)) : Recorded Reader := fun h =>
  (.idle, { h with reads := h.reads ++ [res] })

/-- The next access of the consumer. -/
def access : Reader → Option (Access HeaderField (Recorded Reader))
  | .idle => none
  | .loadCount =>
    some (.load .messageCount fun count =>
      if count = 0 then ret (.error .queueEmpty) else goto .loadRead)
  | .loadRead =>
    some (.load .readPos fun read h =>
      (.readLen0 ⟨read, h.readEnd, History.frameAt h.frames h.readEnd⟩, h))
  | .readLen0 a =>
    some (.loadByte (wrapIndex (maskIndex a.read) 0) fun b₀ => goto (.readLen1 a b₀))
  | .readLen1 a b₀ =>
    some (.loadByte (wrapIndex (maskIndex a.read) 1) fun b₁ =>
      if ¬ LengthOk (decodeLen b₀ b₁) then goto (.reload a)
      else goto (.copy a (decodeLen b₀ b₁) []))
  | .reload a =>
    some (.load .readPos fun read =>
      if read ≠ a.read then goto .loadCount else ret (.error .corrupted))
  | .copy a msgLen out =>
    some (.loadByte (payloadIndex (maskIndex a.read) out.length) fun b =>
      goto (if (out ++ [b]).length < msgLen then .copy a msgLen (out ++ [b])
        else .compareExchange a msgLen (out ++ [b])))
  | .compareExchange a msgLen out =>
    some (.compareExchange .readPos a.read
      (a.read + UInt32.ofNat (messageHeaderSize + msgLen)) fun
      | true => fun h => (.subCount msgLen out, { h with moves := h.moves ++ [.take msgLen out] })
      | false => goto .loadCount)
  | .subCount msgLen out =>
    some (.fetchSub .messageCount 1 fun prevCount =>
      if prevCount ≤ 1 then goto (.addSequence msgLen out) else ret (.ok (msgLen, out)))
  | .addSequence msgLen out =>
    some (.fetchAdd .sequence 1 fun _ => ret (.ok (msgLen, out)))

end Reader

/-! ### Both sides -/

/-- A branch of the machine is one of the program. -/
theorem ite_eq_apply {α β : Type*} {P : Prop} [Decidable P] (f : α → β) {x y : β} {r r' : α}
    (hx : x = f r) (hy : y = f r') : (if P then x else y) = f (if P then r else r') := by
  rw [apply_ite f, hx, hy]

/-- What the two threads of a ring have to themselves, and what is recorded. -/
structure Sides where
  writer : Writer := .idle
  reader : Reader := .idle
  hist : History := {}

namespace Sides

/-- The ring with these cells. -/
def on (t : Sides) (c : Cells HeaderField) : RingState where
  header := .ofWords c.words
  storage := c.bytes
  writer := t.writer
  reader := t.reader
  hist := t.hist

/-- The producer goes on. -/
def write (t : Sides) (r : Recorded Writer) : Sides :=
  { t with writer := (r t.hist).1, hist := (r t.hist).2 }

/-- The consumer goes on. -/
def read (t : Sides) (r : Recorded Reader) : Sides :=
  { t with reader := (r t.hist).1, hist := (r t.hist).2 }

/-- What a side does next. -/
def access (t : Sides) : RingLabel → Option (Access HeaderField Sides)
  | .callWrite p =>
    match t.writer with
    | .idle => some (.pass (t.write (Writer.call p)))
    | _ => none
  | .callRead =>
    match t.reader with
    | .idle => some (.pass (t.read (goto .loadCount)))
    | _ => none
  | .writer => t.writer.access.map (Access.map t.write)
  | .reader => t.reader.access.map (Access.map t.read)

/-- One step of a side, on the cells. -/
def step (c : Cells HeaderField) (t : Sides) (l : RingLabel) : Option (Cells HeaderField × Sides) :=
  (t.access l).map (Access.onCells c)

variable {t : Sides} {c : Cells HeaderField}

theorem on_callWrite (hw : t.writer = .idle) (p : Payload) :
    (t.on c).callWrite p = (t.write (Writer.call p)).on c := by
  obtain ⟨writer, reader, hist⟩ := t
  cases hw
  rw [RingState.callWrite, Writer.call]
  split_ifs <;> rfl

theorem on_discardStep (p : Payload) (ov : UInt32) (d : Discard) :
    (t.on c).discardStep p ov d =
      let a := (Writer.discardAccess p ov d).map t.write
      (a.onCells c).2.on (a.onCells c).1 := by
  cases d with
  | loadRead | readLen0 | subCount | addDrop => rfl
  | loadWrite | readLen1 => exact ite_eq_apply (fun r => (t.write r).on c) rfl rfl
  | compareExchange =>
    exact ite_eq_apply (fun r : Cells HeaderField × Sides => r.2.on r.1) rfl rfl

theorem on_writerStep : (t.on c).writerStep =
    (t.step c .writer).map fun r => r.2.on r.1 := by
  have hw : (t.on c).writer = t.writer := rfl
  rw [RingState.writerStep, hw, step, access]
  cases t.writer with
  | idle | loadWrite | loadRead | copy | addCount | addSequence => rfl
  | loadCount p ov write read =>
    let f (r : Recorded Writer) : Option RingState := some ((t.write r).on c)
    exact ite_eq_apply f (ite_eq_apply f rfl rfl) rfl
  | discard p ov d => exact congrArg some (on_discardStep p ov d)
  | storeWrite p ov write prevCount =>
    let c' : Cells HeaderField :=
      { c with words := Function.update c.words .writePos (write + totalRequired p) }
    exact ite_eq_apply (fun r => some ((t.write r).on c')) rfl rfl

theorem on_readerStep : (t.on c).readerStep =
    (t.step c .reader).map fun r => r.2.on r.1 := by
  have hr : (t.on c).reader = t.reader := rfl
  rw [RingState.readerStep, hr, step, access]
  let f (r : Recorded Reader) : Option RingState := some ((t.read r).on c)
  cases t.reader with
  | idle | loadRead | readLen0 | copy | addSequence => rfl
  | loadCount | readLen1 | reload => exact ite_eq_apply f rfl rfl
  | compareExchange =>
    exact ite_eq_apply (fun r : Cells HeaderField × Sides => some (r.2.on r.1)) rfl rfl
  | subCount msgLen out =>
    let c' : Cells HeaderField :=
      { c with words := Function.update c.words .messageCount (c.words .messageCount - 1) }
    exact ite_eq_apply (fun r => some ((t.read r).on c')) rfl rfl

/-- **The programs of the two sides are the machine.** -/
theorem on_step (l : RingLabel) : (t.on c).step l = (t.step c l).map fun r => r.2.on r.1 := by
  cases l with
  | callWrite p =>
    have hw : (t.on c).writer = t.writer := rfl
    rw [RingState.step, hw, step, access]
    cases h : t.writer with
    | idle => exact congrArg some (on_callWrite h p)
    | _ => rfl
  | callRead =>
    have hr : (t.on c).reader = t.reader := rfl
    rw [RingState.step, hr, step, access]
    cases t.reader <;> rfl
  | writer => exact on_writerStep
  | reader => exact on_readerStep

/-- The byte that an access touches. -/
theorem index_of_access {l : RingLabel} {a : Access HeaderField Sides} (ha : t.access l = some a) :
    a.index = (t.on c).accessed l := by
  have hw : (t.on c).writer = t.writer := rfl
  have hr : (t.on c).reader = t.reader := rfl
  cases l with
  | callWrite p =>
    rw [access] at ha
    split at ha <;> cases ha
    rfl
  | callRead =>
    rw [access] at ha
    split at ha <;> cases ha
    rfl
  | writer =>
    obtain ⟨b, hb, rfl⟩ := Option.map_eq_some_iff.1 ha
    rw [Access.index_map]
    simp only [RingState.accessed, hw]
    cases h : t.writer with
    | discard p ov d =>
      rw [h] at hb
      cases hb
      cases d <;> rfl
    | _ =>
      rw [h] at hb
      cases hb
      try rfl
  | reader =>
    obtain ⟨b, hb, rfl⟩ := Option.map_eq_some_iff.1 ha
    rw [Access.index_map]
    simp only [RingState.accessed, hr]
    cases h : t.reader <;> rw [h] at hb <;> cases hb <;> rfl

/-- Both sides stay within the storage. -/
def Within (t : Sides) : Prop := t.writer.Within ∧ t.reader.Within

theorem within_on : (t.on c).Within ↔ t.Within :=
  ⟨fun h => ⟨h.writer, h.reader⟩, fun h => ⟨h.1, h.2⟩⟩

theorem Within.index_lt (h : t.Within) {l : RingLabel} {a : Access HeaderField Sides}
    (ha : t.access l = some a) {i : ℕ} (hi : a.index = some i) : i < ringCapacity := by
  have c : Cells HeaderField := ⟨fun _ => 0, fun _ => 0⟩
  exact (within_on.2 h).accessed_lt ((index_of_access (c := c) ha).symm.trans hi)

theorem Within.step (h : t.Within) {l : RingLabel} {r : Cells HeaderField × Sides}
    (hst : t.step c l = some r) : r.2.Within := by
  have hon : (t.on c).step l = some (r.2.on r.1) := by rw [on_step, hst, Option.map_some]
  exact within_on.1 ((within_on.2 h).step hon)

/-- No side of a ring looks at the words of the handshake. -/
theorem word_of_access {l : RingLabel} {a : Access HeaderField Sides} (ha : t.access l = some a) :
    a.word ≠ some .connectionGen ∧ a.word ≠ some .handshakeState := by
  cases l with
  | callWrite p =>
    rw [access] at ha
    split at ha <;> cases ha
    exact ⟨by rintro ⟨⟩, by rintro ⟨⟩⟩
  | callRead =>
    rw [access] at ha
    split at ha <;> cases ha
    exact ⟨by rintro ⟨⟩, by rintro ⟨⟩⟩
  | writer =>
    obtain ⟨b, hb, rfl⟩ := Option.map_eq_some_iff.1 ha
    rw [Access.word_map]
    cases h : t.writer with
    | discard p ov d =>
      rw [h] at hb
      cases hb
      cases d <;> exact ⟨by rintro ⟨⟩, by rintro ⟨⟩⟩
    | _ =>
      rw [h] at hb
      cases hb
      try exact ⟨by rintro ⟨⟩, by rintro ⟨⟩⟩
  | reader =>
    obtain ⟨b, hb, rfl⟩ := Option.map_eq_some_iff.1 ha
    rw [Access.word_map]
    cases h : t.reader <;> rw [h] at hb <;> cases hb <;> exact ⟨by rintro ⟨⟩, by rintro ⟨⟩⟩

/-- A word that no access touches. -/
theorem step_set {f : HeaderField} (hf : f = .connectionGen ∨ f = .handshakeState) (v : UInt32)
    (l : RingLabel) : t.step (c.set f v) l = (t.step c l).map fun r => (r.1.set f v, r.2) := by
  rw [step, step, Option.map_map]
  cases ha : t.access l with
  | none => rfl
  | some a =>
    obtain ⟨hgen, hstate⟩ := word_of_access ha
    have hne : a.word ≠ some f := by rcases hf with rfl | rfl <;> assumption
    exact congrArg some (Access.onCells_set hne v)

end Sides

namespace RingState

/-- What the threads have to themselves. -/
def sides (s : RingState) : Sides := ⟨s.writer, s.reader, s.hist⟩

/-- What is shared. -/
def cells (s : RingState) : Cells HeaderField := ⟨s.header.word, s.storage⟩

theorem sides_on_cells (s : RingState) : s.sides.on s.cells = s := rfl

/-- The ring with these words of the handshake. -/
def withWords (s : RingState) (generation state : UInt32) : RingState :=
  { s with
    header := { s.header with connectionGen := generation, handshakeState := state } }

theorem withWords_on (t : Sides) (c : Cells HeaderField) (generation state : UInt32) :
    (t.on c).withWords generation state =
      t.on ((c.set .connectionGen generation).set .handshakeState state) := rfl

/-- **The words of the handshake do not matter to a ring.** -/
theorem withWords_step (s : RingState) (generation state : UInt32) (l : RingLabel) :
    (s.withWords generation state).step l =
      (s.step l).map fun s' => s'.withWords generation state := by
  rw [← s.sides_on_cells, withWords_on, Sides.on_step, Sides.step_set (.inr rfl),
    Sides.step_set (.inl rfl), Sides.on_step, Option.map_map, Option.map_map, Option.map_map]
  rfl

end RingState

end Xshm
