import Xshm.Ring.Delivery

/-!
# Consumers that share a ring

`read_message` may be called by several threads at once: by a client that still thinks that it is
connected and by the one that has connected after it.  The invariant of a ring with one consumer
holds for each of them (`ConsumerInv`): a step of one leaves the others with what they have read,
as long as every attempt begins at a frame that is counted and unread.

* `ConsumerInv.readerStep`, `ConsumerInv.writerStep` : what a consumer and the producer keep.
* `ConsumerInv.other` : what they leave to the other consumers.
* `RingState.readerStep_still` : only a successful `compare_exchange` of a consumer matters to the
  others.
-/

namespace Xshm

/-- The call has loaded `read_pos` and not returned. -/
def Reader.onFrame : Reader → Bool
  | .idle | .loadCount | .loadRead => false
  | _ => true

/-- The payload that `write_message` was called with. -/
def Writer.payload : Writer → Option Payload
  | .idle | .addSequence _ _ => none
  | .loadWrite p _ | .loadRead p _ _ | .loadCount p _ _ _ | .discard p _ _ | .copy p _ _ _
  | .addCount p _ _ | .storeWrite p _ _ _ => some p

/-- What holds of a ring and one of its consumers. -/
structure ConsumerInv (s : RingState) : Prop where
  ring : RingInv s
  attempt : ∀ a ∈ s.reader.attempt, a.frame.isSome
  inOrder : s.hist.InOrder
  pending : ∀ x ∈ s.reader.pending, x.2 ∈ s.hist.frames

/-- A step of a consumer that is no successful `compare_exchange` leaves the positions and the
storage, and returns nothing but what the call has taken before. -/
theorem RingState.readerStep_still {s s' : RingState}
    (hne : s.reader.taking ≠ some s.header.readPos)
    (hst : s.readerStep = some s') :
    (s'.storage = s.storage ∧ s'.header.readPos = s.header.readPos ∧
        s'.header.writePos = s.header.writePos ∧ s'.hist.frames = s.hist.frames ∧
        s'.hist.moves = s.hist.moves ∧ s'.writer = s.writer) ∧
      (∀ x ∈ s'.reader.pending, x ∈ s.reader.pending) ∧
      ∃ res, s'.hist.reads = s.hist.reads ++ res ∧ ∀ x, .ok x ∈ res → x ∈ s.reader.pending := by
  have none_ (P : ℕ × Payload → Prop) : ∃ res, s.hist.reads = s.hist.reads ++ res ∧
      ∀ x, .ok x ∈ res → P x := ⟨[], (List.append_nil _).symm, by rintro x ⟨⟩⟩
  rw [RingState.readerStep] at hst
  cases hr : s.reader with
  | idle => simp [hr] at hst
  | loadCount =>
    simp only [hr] at hst
    split_ifs at hst <;> cases hst
    · exact ⟨⟨rfl, rfl, rfl, rfl, rfl, rfl⟩, by rintro x ⟨⟩, [.error .queueEmpty], rfl, by simp⟩
    · exact ⟨⟨rfl, rfl, rfl, rfl, rfl, rfl⟩, by rintro x ⟨⟩, none_ _⟩
  | loadRead | readLen0 a =>
    simp only [hr] at hst
    cases hst
    exact ⟨⟨rfl, rfl, rfl, rfl, rfl, rfl⟩, by rintro x ⟨⟩, none_ _⟩
  | readLen1 a b₀ =>
    simp only [hr] at hst
    split_ifs at hst <;> cases hst <;>
      exact ⟨⟨rfl, rfl, rfl, rfl, rfl, rfl⟩, by rintro x ⟨⟩, none_ _⟩
  | reload a =>
    simp only [hr] at hst
    split_ifs at hst <;> cases hst
    · exact ⟨⟨rfl, rfl, rfl, rfl, rfl, rfl⟩, by rintro x ⟨⟩, none_ _⟩
    · exact ⟨⟨rfl, rfl, rfl, rfl, rfl, rfl⟩, by rintro x ⟨⟩, [.error .corrupted], rfl, by simp⟩
  | copy a msgLen out =>
    simp only [hr] at hst
    cases hst
    refine ⟨⟨rfl, rfl, rfl, rfl, rfl, rfl⟩, ?_, none_ _⟩
    split_ifs <;> rintro x ⟨⟩
  | compareExchange a msgLen out =>
    have hread : s.header.readPos ≠ a.read := by
      rintro he
      rw [hr, he] at hne
      exact hne rfl
    simp only [hr, if_neg hread] at hst
    cases hst
    exact ⟨⟨rfl, rfl, rfl, rfl, rfl, rfl⟩, by rintro x ⟨⟩, none_ _⟩
  | subCount msgLen out =>
    simp only [hr] at hst
    split_ifs at hst <;> cases hst
    · exact ⟨⟨rfl, rfl, rfl, rfl, rfl, rfl⟩, fun x hx => hx, none_ _⟩
    · refine ⟨⟨rfl, rfl, rfl, rfl, rfl, rfl⟩, by rintro x ⟨⟩, [.ok (msgLen, out)], rfl, ?_⟩
      exact fun x hx => List.mem_singleton.2 (Except.ok.inj (List.mem_singleton.1 hx))
  | addSequence msgLen out =>
    simp only [hr] at hst
    cases hst
    refine ⟨⟨rfl, rfl, rfl, rfl, rfl, rfl⟩, by rintro x ⟨⟩, [.ok (msgLen, out)], rfl, ?_⟩
    exact fun x hx => List.mem_singleton.2 (Except.ok.inj (List.mem_singleton.1 hx))

/-- What a step of a consumer or of the producer does to what all consumers share. -/
structure Onward (s s' : RingState) : Prop where
  frames : ∃ qs, s'.hist.frames = s.hist.frames ++ qs
  readEnd_le : s.hist.readEnd ≤ s'.hist.readEnd

namespace ConsumerInv

variable {s s' : RingState}

/-- A step that touches neither the storage nor the positions. -/
theorem still (h : ConsumerInv s) (hst : s'.storage = s.storage)
    (hr : s'.header.readPos = s.header.readPos) (hw : s'.header.writePos = s.header.writePos)
    (hF : s'.hist.frames = s.hist.frames) (hM : s'.hist.moves = s.hist.moves)
    (hwr : s'.writer = s.writer) (hrd : s'.reader = s.reader) : ConsumerInv s' where
  ring := h.ring.local_step hst hr hw hF hM (by rw [hwr]) (by rw [hwr]) (by rw [hwr])
    (by rw [hwr]; exact h.ring.writer) (by rw [hrd]; exact h.ring.reader)
  attempt := by rw [hrd]; exact h.attempt
  inOrder := by rw [History.InOrder, hF, hM]; exact h.inOrder
  pending := by rw [hrd, hF]; exact h.pending

/-- A consumer that has not loaded `read_pos` is bound to nothing. -/
theorem rest (h : ConsumerInv s) {r : Reader} (hr : r.onFrame = false) :
    ConsumerInv { s with reader := r } := by
  cases r with
  | idle | loadCount | loadRead =>
    exact ⟨{ h.ring with reader := trivial }, by rintro a ⟨⟩, h.inOrder, by rintro x ⟨⟩⟩
  | _ => cases hr

/-- A ring whose positions have been reset while no call has loaded `read_pos`. -/
theorem init (hr : s.header.readPos = 0) (hw : s.header.writePos = 0) (hwr : s.writer = .idle)
    (hrd : s.reader.onFrame = false) (hF : s.hist.frames = []) (hM : s.hist.moves = []) :
    ConsumerInv s := by
  obtain ⟨header, storage, writer, reader, hist⟩ := s
  cases hwr
  have hfresh := ringInv_of_freshRing ⟨header, storage, 0, rfl⟩
  have hring : RingInv ⟨header, storage, .idle, .idle, hist⟩ :=
    hfresh.local_step rfl hr hw hF hM rfl le_rfl rfl trivial trivial
  exact rest ⟨hring, by rintro a ⟨⟩, ⟨[], [], hF, by rw [hM]; exact .nil⟩, by rintro x ⟨⟩⟩ hrd

theorem readEnd_append (h : History) (ms : List Move) :
    h.readEnd ≤ ({ h with moves := h.moves ++ ms } : History).readEnd := by
  rw [History.readEnd, History.readEnd, List.map_append, List.sum_append]
  exact Nat.le_add_right ..

/-- What the producer and another consumer leave to a consumer. -/
theorem other (h : ConsumerInv s) (h' : ConsumerInv s') (ho : Onward s s') :
    ConsumerInv { s' with reader := s.reader } where
  ring :=
    { h'.ring with
      reader := by
        obtain ⟨qs, hqs⟩ := ho.frames
        change ReaderOk s'.hist.frames s'.hist.readEnd s.reader
        rw [hqs]
        exact h.ring.reader.mono ho.readEnd_le }
  attempt := h.attempt
  inOrder := h'.inOrder
  pending x hx := by
    obtain ⟨qs, hqs⟩ := ho.frames
    change x.2 ∈ s'.hist.frames
    rw [hqs]
    exact List.mem_append_left _ (h.pending x hx)

/-- A step of a consumer that moves nothing. -/
theorem quiet (h : ConsumerInv s) (hring : RingInv s')
    (ha : ∀ a ∈ s'.reader.attempt, a.frame.isSome) (hF : s'.hist.frames = s.hist.frames)
    (hM : s'.hist.moves = s.hist.moves)
    (hp : ∀ x ∈ s'.reader.pending, x ∈ s.reader.pending) :
    ConsumerInv s' ∧ Onward s s' :=
  ⟨⟨hring, ha, h.inOrder.step (.count [] (by rw [hF, List.append_nil]) hM),
      fun x hx => by rw [hF]; exact h.pending x (hp x hx)⟩,
    ⟨[], by rw [hF, List.append_nil]⟩, by rw [History.readEnd, History.readEnd, hM]⟩

/-- **A consumer goes on**, with a frame to read whenever it loads `read_pos`: what it returns is a
frame of the ring. -/
theorem readerStep (h : ConsumerInv s) (hshort : ShortAttempt s .reader)
    (hun : FrameUnread s .reader) (hst : s.readerStep = some s') :
    (ConsumerInv s' ∧ Onward s s') ∧ s'.writer = s.writer ∧
      s'.hist.frames = s.hist.frames ∧ ∃ res, s'.hist.reads = s.hist.reads ++ res ∧
        ∀ x, .ok x ∈ res → x.2 ∈ s.hist.frames := by
  have hring := h.ring.readerStep (h.ring.takesFrame h.attempt hshort) hst
  have hatt := h.attempt
  have hpend := h.pending
  have none_ {res : List (Except ShmError (ℕ × Payload))} (hres : s.hist.reads = res) :
      ∃ res', res = s.hist.reads ++ res' ∧ ∀ x, .ok x ∈ res' → x.2 ∈ s.hist.frames :=
    ⟨[], by rw [hres, List.append_nil], by rintro x ⟨⟩⟩
  rw [RingState.readerStep] at hst
  cases hr : s.reader with
  | idle => simp [hr] at hst
  | loadCount =>
    simp only [hr] at hst
    split_ifs at hst <;> cases hst
    · exact ⟨h.quiet hring (by rintro a ⟨⟩) rfl rfl (by rintro x ⟨⟩), rfl, rfl,
        [.error .queueEmpty], rfl, by simp⟩
    · exact ⟨h.quiet hring (by rintro a ⟨⟩) rfl rfl (by rintro x ⟨⟩), rfl, rfl, none_ rfl⟩
  | loadRead =>
    simp only [hr] at hst
    cases hst
    refine ⟨h.quiet hring ?_ rfl rfl (by rintro x ⟨⟩), rfl, rfl, none_ rfl⟩
    rintro a ⟨rfl⟩
    exact h.inOrder.frameAt_isSome (hun rfl hr)
  | readLen0 a =>
    simp only [hr] at hst hatt
    cases hst
    exact ⟨h.quiet hring hatt rfl rfl (by rintro x ⟨⟩), rfl, rfl, none_ rfl⟩
  | readLen1 a b₀ =>
    simp only [hr] at hst hatt
    split_ifs at hst <;> cases hst <;>
      exact ⟨h.quiet hring hatt rfl rfl (by rintro x ⟨⟩), rfl, rfl, none_ rfl⟩
  | reload a =>
    simp only [hr] at hst
    split_ifs at hst <;> cases hst
    · exact ⟨h.quiet hring (by rintro a ⟨⟩) rfl rfl (by rintro x ⟨⟩), rfl, rfl, none_ rfl⟩
    · exact ⟨h.quiet hring (by rintro a ⟨⟩) rfl rfl (by rintro x ⟨⟩), rfl, rfl, [.error .corrupted],
        rfl, by simp⟩
  | copy a msgLen out =>
    simp only [hr] at hst hatt
    cases hst
    split_ifs at hring ⊢ <;>
      exact ⟨h.quiet hring hatt rfl rfl (by rintro x ⟨⟩), rfl, rfl, none_ rfl⟩
  | compareExchange a msgLen out =>
    simp only [hr] at hst
    split_ifs at hst with he <;> cases hst
    · obtain ⟨f, hf, hlen, hout⟩ := h.ring.takes h.attempt hshort hr he
      refine ⟨⟨⟨hring, by rintro a ⟨⟩, h.inOrder.step (.move f (.take msgLen out) hf
        ⟨hlen, hout⟩ rfl rfl), ?_⟩, ⟨⟨[], (List.append_nil _).symm⟩, readEnd_append _ _⟩⟩, rfl, rfl,
        none_ rfl⟩
      intro x hx
      obtain rfl : x = (msgLen, out) := List.mem_singleton.1 hx
      exact hout ▸ History.frameAt_mem hf
    · exact ⟨h.quiet hring (by rintro a ⟨⟩) rfl rfl (by rintro x ⟨⟩), rfl, rfl, none_ rfl⟩
  | subCount msgLen out =>
    simp only [hr] at hst hpend
    have hout := hpend (msgLen, out) (List.mem_singleton_self _)
    split_ifs at hst <;> cases hst
    · refine ⟨h.quiet hring (by rintro a ⟨⟩) rfl rfl ?_, rfl, rfl, none_ rfl⟩
      rw [hr]
      exact fun x hx => hx
    · refine ⟨h.quiet hring (by rintro a ⟨⟩) rfl rfl (by rintro x ⟨⟩), rfl, rfl,
        [.ok (msgLen, out)], rfl, fun x hx => ?_⟩
      obtain rfl : x = (msgLen, out) := Except.ok.inj (List.mem_singleton.1 hx)
      exact hout
  | addSequence msgLen out =>
    simp only [hr] at hst hpend
    have hout := hpend (msgLen, out) (List.mem_singleton_self _)
    cases hst
    refine ⟨h.quiet hring (by rintro a ⟨⟩) rfl rfl (by rintro x ⟨⟩), rfl, rfl,
      [.ok (msgLen, out)], rfl, fun x hx => ?_⟩
    obtain rfl : x = (msgLen, out) := Except.ok.inj (List.mem_singleton.1 hx)
    exact hout

/-- The producer goes on. -/
theorem writerStep (h : ConsumerInv s) (hst : s.writerStep = some s') :
    ConsumerInv s' ∧ Onward s s' := by
  obtain ⟨hrd, -, hp, -⟩ := h.ring.writerStep_progress hst
  have ho : Onward s s' := by
    cases hp with
    | count qs hF hM => exact ⟨⟨qs, hF⟩, by rw [History.readEnd, History.readEnd, hM]⟩
    | move f m _ _ hF hM =>
      exact ⟨⟨[], by rw [hF, List.append_nil]⟩, by
        rw [show s'.hist.readEnd = ({ s.hist with moves := s.hist.moves ++ [m] } : History).readEnd
          by rw [History.readEnd, History.readEnd, hM]]
        exact readEnd_append ..⟩
  obtain ⟨qs, hqs⟩ := ho.frames
  exact ⟨⟨h.ring.writerStep hst, by rw [hrd]; exact h.attempt, h.inOrder.step hp,
    fun x hx => by
      rw [hqs]
      exact List.mem_append_left _ (h.pending x (hrd ▸ hx))⟩, ho⟩

/-- `write_message` is called. -/
theorem callWrite (h : ConsumerInv s) (hw : s.writer = .idle) (p : Payload) :
    ConsumerInv (s.callWrite p) ∧ Onward s (s.callWrite p) := by
  have hring := h.ring.callWrite hw p
  rw [RingState.callWrite] at hring ⊢
  split_ifs at hring ⊢ <;>
    exact ⟨⟨hring, h.attempt, h.inOrder, h.pending⟩, ⟨[], (List.append_nil _).symm⟩, le_rfl⟩

/-- The frames that the producer stores are those it was called with. -/
theorem writerStep_payload (hst : s.writerStep = some s') :
    (∀ p ∈ s'.writer.payload, p ∈ s.writer.payload) ∧
      ∀ p ∈ s'.hist.frames, p ∈ s.hist.frames ∨ p ∈ s.writer.payload := by
  have stay (hF : s'.hist.frames = s.hist.frames)
      (hw : ∀ p ∈ s'.writer.payload, p ∈ s.writer.payload) :
      (∀ p ∈ s'.writer.payload, p ∈ s.writer.payload) ∧
        ∀ p ∈ s'.hist.frames, p ∈ s.hist.frames ∨ p ∈ s.writer.payload :=
    ⟨hw, fun p hp => .inl (hF ▸ hp)⟩
  rw [RingState.writerStep] at hst
  cases hw : s.writer with
  | idle => simp [hw] at hst
  | addCount p ov write =>
    simp only [hw] at hst stay
    cases hst
    refine ⟨fun q hq => hq, fun q hq => ?_⟩
    rcases List.mem_append.1 hq with hq | hq
    · exact .inl hq
    · exact .inr (by rw [List.mem_singleton.1 hq]; rfl)
  | discard p ov d =>
    simp only [hw] at hst stay
    cases hst
    cases d with
    | loadRead | readLen0 | subCount | addDrop => exact stay rfl fun q hq => hq
    | loadWrite | readLen1 | compareExchange =>
      simp only [RingState.discardStep] at stay ⊢
      split_ifs at stay ⊢ <;> refine stay rfl ?_
      all_goals first
        | exact fun q hq => hq
        | rintro q ⟨⟩
  | loadWrite | loadRead | addSequence =>
    simp only [hw] at hst stay
    cases hst
    exact stay rfl fun q hq => hq
  | loadCount | storeWrite =>
    simp only [hw] at hst stay
    split_ifs at hst <;> cases hst <;> refine stay rfl ?_
    all_goals first
      | exact fun q hq => hq
      | rintro q ⟨⟩
  | copy p ov write k =>
    simp only [hw] at hst stay
    cases hst
    refine stay rfl ?_
    intro q hq
    simp only at hq
    split_ifs at hq <;> exact hq

end ConsumerInv

end Xshm
