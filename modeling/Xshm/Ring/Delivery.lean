import Xshm.Ring.Preservation
import Xshm.Ring.Alone

/-!
# What the consumer of a shared ring receives

Two results on every interleaving of a producer and a consumer.

A read attempt that begins where a counted frame begins, and whose `compare_exchange` succeeds,
leaves exactly that frame in `out`, whatever the producer stored meanwhile
(`RingState.compareExchange_exact`).

`read_message` decides by `message_count` alone that there is something to read.  Between the
`compare_exchange` and the `fetch_sub` of `discard_oldest` that counter is too large, and a
consumer that loads it there reads behind the last frame.  As long as it never loads `read_pos`
when no counted frame is unread (`FrameUnread`), the frames are delivered in order, each at most
once and unchanged, and no read reports corruption (`RingState.delivered_of_frameUnread`).
-/

namespace Xshm

open Circular

namespace Reader

/-- The attempt in progress. -/
def attempt : Reader → Option Attempt
  | .readLen0 a | .readLen1 a _ | .reload a | .copy a _ _ | .compareExchange a _ _ => some a
  | _ => none

/-- The value of `read_pos` for which the consumer is about to take a frame. -/
def taking : Reader → Option UInt32
  | .compareExchange a _ _ => some a.read
  | _ => none

/-- The message taken by a `read_message` that has not returned yet. -/
def pending : Reader → List (ℕ × Payload)
  | .subCount msgLen out | .addSequence msgLen out => [(msgLen, out)]
  | _ => []

end Reader

/-- A move of `read_pos` over the frame of `p`; a `read_message` took exactly `p`. -/
def Move.Over : Move → Payload → Prop
  | .take msgLen out, p => msgLen = p.length ∧ out = p
  | .evict msgLen, p => msgLen = p.length

/-- What `read_message` took by a move. -/
def Move.taken : Move → Option (ℕ × Payload)
  | .take msgLen out => some (msgLen, out)
  | .evict _ => none

theorem Move.Over.size_eq {m : Move} {p : Payload} (h : m.Over p) :
    m.size = (frameBytes p).length := by
  cases m with
  | take msgLen out => rw [length_frameBytes, Move.size, h.1]
  | evict msgLen => rw [length_frameBytes, Move.size, h]

/-- The producer evicts fewer than `2 ^ 32` bytes during one attempt of the consumer. -/
def ShortAttempt (s : RingState) (_l : RingLabel) : Prop :=
  ∀ a ∈ s.reader.attempt, s.hist.readEnd - a.base < 2 ^ 32

/-- The consumer loads `read_pos` only while a frame that has been counted is neither read nor
evicted. -/
def FrameUnread (s : RingState) (l : RingLabel) : Prop :=
  l = .reader → s.reader = .loadRead → s.hist.moves.length < s.hist.frames.length

/-- Delivery in order: `read_pos` has been moved over the first frames that were counted, one
move a frame and each by the length of its frame, and stands at the end of the last of them; the
successful reads are the moves of the consumer, with the payloads of their frames; no read has
reported corruption. -/
structure Delivered (s : RingState) : Prop where
  inOrder : ∃ taken unread, s.hist.frames = taken ++ unread ∧
    List.Forall₂ Move.Over s.hist.moves taken ∧
    s.header.readPos = UInt32.ofNat (framesBytes taken).length
  results : s.hist.reads.filterMap Except.toOption ++ s.reader.pending =
    s.hist.moves.filterMap Move.taken
  notCorrupted : .error .corrupted ∉ s.hist.reads

namespace RingInv

variable {s s' : RingState}

/-- While the producer evicts fewer than `2 ^ 32` bytes, `read_pos` is what an attempt loaded only
if it has not moved. -/
theorem readEnd_eq_base (h : RingInv s) {a : Attempt}
    (ha : AttemptOk s.hist.frames s.hist.readEnd a) (hshort : s.hist.readEnd - a.base < 2 ^ 32)
    (hr : s.header.readPos = a.read) : s.hist.readEnd = a.base :=
  (ofNat_inj_of_lt ha.2.1 hshort (by rw [← h.readPos, hr, ha.1])).symm

/-- The two ways in which a step moves the history on: frames are counted, or `read_pos` moves
over the frame that begins there. -/
inductive Progress (s s' : RingState) : Prop
  | count (qs : List Payload) : s'.hist.frames = s.hist.frames ++ qs →
      s'.hist.moves = s.hist.moves → Progress s s'
  | move (f : Payload) (m : Move) :
      History.frameAt s.hist.frames s.hist.readEnd = some f → m.Over f →
      s'.hist.frames = s.hist.frames → s'.hist.moves = s.hist.moves ++ [m] → Progress s s'

/-- What a step of the producer does to the history: nothing that the consumer did changes, and
what it evicts is the oldest frame. -/
theorem writerStep_progress (h : RingInv s) (hst : s.writerStep = some s') :
    s'.reader = s.reader ∧ s'.hist.reads = s.hist.reads ∧ Progress s s' ∧
      s'.hist.moves.filterMap Move.taken = s.hist.moves.filterMap Move.taken := by
  have stay {s' : RingState} (hrd : s'.reader = s.reader) (hre : s'.hist.reads = s.hist.reads)
      (hF : s'.hist.frames = s.hist.frames) (hM : s'.hist.moves = s.hist.moves) :
      s'.reader = s.reader ∧ s'.hist.reads = s.hist.reads ∧ Progress s s' ∧
        s'.hist.moves.filterMap Move.taken = s.hist.moves.filterMap Move.taken :=
    ⟨hrd, hre, .count [] (by rw [hF, List.append_nil]) hM, by rw [hM]⟩
  have hok := h.writer
  rw [RingState.writerStep] at hst
  cases hw : s.writer with
  | idle => simp [hw] at hst
  | loadWrite | loadRead | copy | addSequence =>
    simp only [hw] at hst
    cases hst
    exact stay rfl rfl rfl rfl
  | loadCount | storeWrite =>
    simp only [hw] at hst
    split_ifs at hst <;> cases hst <;> exact stay rfl rfl rfl rfl
  | addCount p ov write =>
    simp only [hw] at hst
    cases hst
    exact ⟨rfl, rfl, .count [p] rfl rfl, rfl⟩
  | discard p ov d =>
    simp only [hw] at hst hok
    cases hst
    cases d with
    | loadRead | readLen0 | subCount | addDrop => exact stay rfl rfl rfl rfl
    | loadWrite | readLen1 =>
      simp only [RingState.discardStep]
      split_ifs <;> exact stay rfl rfl rfl rfl
    | compareExchange read msgLen =>
      obtain ⟨-, pos, f, hs, hf, hlen⟩ := hok
      rw [RingState.discardStep]
      split_ifs with he
      · have hpos : s.hist.readEnd = pos := h.readEnd_eq_seen hs he
        exact ⟨rfl, rfl, .move f (.evict msgLen) (hpos ▸ hf) hlen rfl rfl, by
          simp [Move.taken]⟩
      · exact stay rfl rfl rfl rfl

/-- An attempt that began at a frame and whose `compare_exchange` succeeds takes the frame at
`read_pos`. -/
theorem takes (h : RingInv s) (hatt : ∀ a ∈ s.reader.attempt, a.frame.isSome)
    (hshort : ShortAttempt s .reader) {a : Attempt} {msgLen : ℕ} {out : Payload}
    (hr : s.reader = .compareExchange a msgLen out) (he : s.header.readPos = a.read) :
    ∃ f, History.frameAt s.hist.frames s.hist.readEnd = some f ∧ msgLen = f.length ∧
      out = f := by
  have hok := h.reader
  have hmem : a ∈ s.reader.attempt := by rw [hr]; rfl
  obtain ⟨f, hf⟩ := Option.isSome_iff_exists.1 (hatt a hmem)
  rw [hr] at hok
  have hbase := h.readEnd_eq_base hok.1 (hshort a hmem) he
  exact ⟨f, hbase ▸ hok.1.2.2 f hf, hok.2 f hf hbase⟩

theorem takesFrame (h : RingInv s) (hatt : ∀ a ∈ s.reader.attempt, a.frame.isSome)
    {l : RingLabel} (hshort : ShortAttempt s l) : TakesFrame s l := by
  rintro a msgLen out rfl hr he
  obtain ⟨f, hf, hlen, -⟩ := h.takes hatt hshort hr he
  rw [hf, hlen]
  rfl

end RingInv

/-- `read_pos` has been moved over the first of the frames, one move a frame. -/
def History.InOrder (h : History) : Prop :=
  ∃ taken unread, h.frames = taken ++ unread ∧ List.Forall₂ Move.Over h.moves taken

namespace History.InOrder

variable {h : History}

theorem forall₂_readEnd {taken : List Payload} (hM : List.Forall₂ Move.Over h.moves taken) :
    h.readEnd = (framesBytes taken).length := by
  rw [History.readEnd]
  generalize h.moves = moves at hM
  induction hM with
  | nil => rfl
  | cons hm _ ih =>
    rw [List.map_cons, List.sum_cons, ih, hm.size_eq, framesBytes_cons, List.length_append]

/-- The order of the moves after a step. -/
theorem step {s s' : RingState} (h : s.hist.InOrder) (hp : RingInv.Progress s s') :
    s'.hist.InOrder := by
  obtain ⟨taken, unread, hF, hM⟩ := h
  cases hp with
  | count qs hF' hM' => exact ⟨taken, unread ++ qs, by rw [hF', hF, List.append_assoc], hM' ▸ hM⟩
  | move f m hf hm hF' hM' =>
    have hhead := History.frameAt_framesBytes taken unread
    rw [← hF, ← forall₂_readEnd hM, hf] at hhead
    cases unread with
    | nil => cases hhead
    | cons f' unread =>
      cases hhead
      refine ⟨taken ++ [f], unread, by rw [hF', hF, List.append_assoc]; rfl, ?_⟩
      rw [hM']
      exact List.rel_append hM (.cons hm .nil)

/-- A frame is unread: one begins at `read_pos`. -/
theorem frameAt_isSome (hi : h.InOrder) (hlt : h.moves.length < h.frames.length) :
    (History.frameAt h.frames h.readEnd).isSome := by
  obtain ⟨taken, unread, hF, hM⟩ := hi
  rw [hF, forall₂_readEnd hM, History.frameAt_framesBytes]
  rw [hF, List.length_append, hM.length_eq] at hlt
  cases unread with
  | nil => simp at hlt
  | cons => rfl

end History.InOrder

/-- The second history goes on from the first. -/
structure History.Extends (h h' : History) : Prop where
  moves : h.moves <+: h'.moves
  writes : h.writes <+: h'.writes
  reads : h.reads <+: h'.reads

namespace History.Extends

variable {h h' : History}

theorem same (hM : h'.moves = h.moves) (hW : h'.writes = h.writes) (hR : h'.reads = h.reads) :
    h.Extends h' :=
  ⟨hM ▸ List.prefix_rfl, hW ▸ List.prefix_rfl, hR ▸ List.prefix_rfl⟩

theorem moved {m : Move} (hM : h'.moves = h.moves ++ [m]) (hW : h'.writes = h.writes)
    (hR : h'.reads = h.reads) : h.Extends h' :=
  ⟨hM ▸ List.prefix_append .., hW ▸ List.prefix_rfl, hR ▸ List.prefix_rfl⟩

theorem wrote {res : Except ShmError WriteOutcome} (hM : h'.moves = h.moves)
    (hW : h'.writes = h.writes ++ [res]) (hR : h'.reads = h.reads) : h.Extends h' :=
  ⟨hM ▸ List.prefix_rfl, hW ▸ List.prefix_append .., hR ▸ List.prefix_rfl⟩

theorem read {res : Except ShmError (ℕ × Payload)} (hM : h'.moves = h.moves)
    (hW : h'.writes = h.writes) (hR : h'.reads = h.reads ++ [res]) : h.Extends h' :=
  ⟨hM ▸ List.prefix_rfl, hW ▸ List.prefix_rfl, hR ▸ List.prefix_append ..⟩

end History.Extends

/-- The invariant of delivery: that of the ring, every attempt began where a frame begins, and the
history so far. -/
structure DeliveryInv (s : RingState) : Prop where
  ring : RingInv s
  attempt : ∀ a ∈ s.reader.attempt, a.frame.isSome
  inOrder : ∃ taken unread, s.hist.frames = taken ++ unread ∧
    List.Forall₂ Move.Over s.hist.moves taken
  results : s.hist.reads.filterMap Except.toOption ++ s.reader.pending =
    s.hist.moves.filterMap Move.taken
  notCorrupted : .error .corrupted ∉ s.hist.reads

namespace DeliveryInv

variable {s s' : RingState}

theorem init (h : FreshRing s) : DeliveryInv s := by
  have hring := ringInv_of_freshRing h
  obtain ⟨hd, st, generation, rfl⟩ := h
  exact ⟨hring, by simp [Reader.attempt], ⟨[], [], rfl, .nil⟩, rfl, by simp⟩

theorem delivered (h : DeliveryInv s) : Delivered s := by
  obtain ⟨taken, unread, hF, hM⟩ := h.inOrder
  exact ⟨⟨taken, unread, hF, hM, by rw [h.ring.readPos, History.InOrder.forall₂_readEnd hM]⟩,
    h.results, h.notCorrupted⟩

/-- The order of the moves after a step. -/
theorem inOrder_step (h : DeliveryInv s) (hp : RingInv.Progress s s') : s'.hist.InOrder :=
  History.InOrder.step h.inOrder hp

theorem takes (h : DeliveryInv s) (hshort : ShortAttempt s .reader) {a : Attempt} {msgLen : ℕ}
    {out : Payload} (hr : s.reader = .compareExchange a msgLen out)
    (he : s.header.readPos = a.read) : ∃ f,
      History.frameAt s.hist.frames s.hist.readEnd = some f ∧ msgLen = f.length ∧ out = f :=
  h.ring.takes h.attempt hshort hr he

theorem takesFrame (h : DeliveryInv s) {l : RingLabel} (hshort : ShortAttempt s l) :
    TakesFrame s l :=
  h.ring.takesFrame h.attempt hshort

theorem frameAt_isSome (h : DeliveryInv s) (hlt : s.hist.moves.length < s.hist.frames.length) :
    (History.frameAt s.hist.frames s.hist.readEnd).isSome :=
  History.InOrder.frameAt_isSome h.inOrder hlt

/-- A step that only changes the locals of one side or appends a result that is no message. -/
theorem quiet (h : DeliveryInv s) (hring : RingInv s')
    (ha : ∀ a ∈ s'.reader.attempt, a.frame.isSome) (hF : s'.hist.frames = s.hist.frames)
    (hM : s'.hist.moves = s.hist.moves)
    (hres : s'.hist.reads.filterMap Except.toOption ++ s'.reader.pending =
      s.hist.reads.filterMap Except.toOption ++ s.reader.pending)
    (hc : .error .corrupted ∉ s'.hist.reads) : DeliveryInv s' :=
  ⟨hring, ha, h.inOrder_step (.count [] (by rw [hF, List.append_nil]) hM),
    by rw [hres, hM]; exact h.results, hc⟩

theorem readerStep (h : DeliveryInv s) (hshort : ShortAttempt s .reader)
    (hun : FrameUnread s .reader) (hst : s.readerStep = some s') : DeliveryInv s' := by
  have hring := h.ring.readerStep (h.takesFrame hshort) hst
  have hatt := h.attempt
  have hok := h.ring.reader
  have hnc := h.notCorrupted
  rw [RingState.readerStep] at hst
  cases hr : s.reader with
  | idle => simp [hr] at hst
  | loadCount =>
    simp only [hr] at hst
    split_ifs at hst
    · cases hst
      refine h.quiet hring (by simp [RingState.returnRead, Reader.attempt]) rfl rfl ?_ ?_
      · simp [RingState.returnRead, Reader.pending, hr, Except.toOption]
      · simpa [RingState.returnRead] using hnc
    · cases hst
      exact h.quiet hring (by simp [Reader.attempt]) rfl rfl (by rw [hr]; rfl) hnc
  | loadRead =>
    simp only [hr] at hst
    cases hst
    refine h.quiet hring ?_ rfl rfl (by rw [hr]; rfl) hnc
    rintro a ⟨rfl⟩
    exact h.frameAt_isSome (hun rfl hr)
  | readLen0 a =>
    simp only [hr] at hst hatt
    cases hst
    exact h.quiet hring hatt rfl rfl (by rw [hr]; rfl) hnc
  | readLen1 a b₀ =>
    simp only [hr] at hst hatt
    split_ifs at hst
    · cases hst
      exact h.quiet hring hatt rfl rfl (by rw [hr]; rfl) hnc
    · cases hst
      exact h.quiet hring hatt rfl rfl (by rw [hr]; rfl) hnc
  | reload a =>
    simp only [hr] at hst hatt hok
    split_ifs at hst with he
    · cases hst
      exact h.quiet hring (by simp [Reader.attempt]) rfl rfl (by rw [hr]; rfl) hnc
    · -- the length was not valid, so `read_pos` has moved since it was loaded
      obtain ⟨f, hf⟩ := Option.isSome_iff_exists.1 (hatt a rfl)
      have hbase := h.ring.readEnd_eq_base hok.1 (hshort a (by rw [hr]; rfl)) (not_not.1 he)
      exact absurd hbase (hok.2 f hf)
  | copy a msgLen out =>
    simp only [hr] at hst hatt
    split_ifs at hst
    · cases hst
      exact h.quiet hring hatt rfl rfl (by rw [hr]; rfl) hnc
    · cases hst
      exact h.quiet hring hatt rfl rfl (by rw [hr]; rfl) hnc
  | compareExchange a msgLen out =>
    simp only [hr] at hst
    split_ifs at hst with he
    · cases hst
      obtain ⟨f, hf, hlen, hout⟩ := h.takes hshort hr he
      have hres := h.results
      rw [hr] at hres
      change _ ++ [] = _ at hres
      rw [List.append_nil] at hres
      refine ⟨hring, by simp [Reader.attempt], ?_, ?_, hnc⟩
      · exact h.inOrder_step (.move f (.take msgLen out) hf ⟨hlen, hout⟩ rfl rfl)
      · rw [List.filterMap_append, ← hres]
        rfl
    · cases hst
      exact h.quiet hring (by simp [Reader.attempt]) rfl rfl (by rw [hr]; rfl) hnc
  | subCount msgLen out =>
    simp only [hr] at hst
    split_ifs at hst
    · cases hst
      exact h.quiet hring (by simp [Reader.attempt]) rfl rfl (by rw [hr]; rfl) hnc
    · cases hst
      refine h.quiet hring (by simp [RingState.returnRead, Reader.attempt]) rfl rfl ?_ ?_
      · simp [RingState.returnRead, Reader.pending, hr, Except.toOption]
      · simpa [RingState.returnRead] using hnc
  | addSequence msgLen out =>
    simp only [hr] at hst
    cases hst
    refine h.quiet hring (by simp [RingState.returnRead, Reader.attempt]) rfl rfl ?_ ?_
    · simp [RingState.returnRead, Reader.pending, hr, Except.toOption]
    · simpa [RingState.returnRead] using hnc

/-- **A step at which the consumer has a frame to read keeps delivery.** -/
theorem step (h : DeliveryInv s) {l : RingLabel} (hshort : ShortAttempt s l)
    (hun : FrameUnread s l) (hst : s.step l = some s') : DeliveryInv s' := by
  have hring := h.ring.step (h.takesFrame hshort) hst
  cases l with
  | callWrite p =>
    rw [RingState.step] at hst
    cases hw : s.writer with
    | idle =>
      simp only [hw] at hst
      cases hst
      rw [RingState.callWrite] at hring ⊢
      split_ifs at hring ⊢ <;> exact h.quiet hring h.attempt rfl rfl rfl h.notCorrupted
    | _ => simp [hw] at hst
  | callRead =>
    rw [RingState.step] at hst
    cases hr : s.reader with
    | idle =>
      simp only [hr] at hst
      cases hst
      exact h.quiet hring (by simp [Reader.attempt]) rfl rfl (by rw [hr]; rfl) h.notCorrupted
    | _ => simp [hr] at hst
  | writer =>
    obtain ⟨hrd, hre, hp, hM⟩ := h.ring.writerStep_progress hst
    exact ⟨hring, by rw [hrd]; exact h.attempt, h.inOrder_step hp,
      by rw [hre, hrd, hM]; exact h.results, by rw [hre]; exact h.notCorrupted⟩
  | reader => exact h.readerStep hshort hun hst

end DeliveryInv

instance (s : RingState) (l : RingLabel) : Decidable (ShortAttempt s l) :=
  inferInstanceAs (Decidable (∀ a ∈ s.reader.attempt, _))

instance (s : RingState) (l : RingLabel) : Decidable (FrameUnread s l) :=
  inferInstanceAs (Decidable (_ → _ → _))

namespace RingState

/-- **A successful attempt that began at a counted frame read exactly that frame.** -/
theorem compareExchange_exact {s : RingState} (h : ringSystem.ReachWhen TakesFrame s)
    {a : Attempt} {msgLen : ℕ} {out f : Payload} (hr : s.reader = .compareExchange a msgLen out)
    (hsucc : s.header.readPos = a.read) (hf : a.frame = some f)
    (hshort : s.hist.readEnd - a.base < 2 ^ 32) :
    History.frameAt s.hist.frames a.base = some f ∧ msgLen = f.length ∧ out = f := by
  have hi := ringInv_of_reachWhen h
  have hok := hi.reader
  rw [hr] at hok
  have hbase := hi.readEnd_eq_base hok.1 hshort hsucc
  exact ⟨hok.1.2.2 f hf, hok.2 f hf hbase⟩

/-- A reset ring with an empty storage. -/
def zeroed : RingState :=
  { header := RingHeader.reset ⟨0, 0, 0, 0, 0, 0, 0⟩ 1, storage := fun _ => 0 }

theorem freshRing_zeroed : FreshRing zeroed := ⟨_, _, _, rfl⟩

/-- The labels of one write of two bytes and of a read up to its `compare_exchange`. -/
def writeThenRead : List RingLabel :=
  .callWrite [1, 2] :: List.replicate 12 .writer ++ .callRead :: List.replicate 6 .reader

theorem compareExchange_exact_writeThenRead :
    ∃ s a, ringSystem.ReachWhen TakesFrame s ∧ s.reader = .compareExchange a 2 [1, 2] ∧
      History.frameAt s.hist.frames a.base = some [1, 2] ∧ 2 = [1, 2].length ∧
        ([1, 2] : Payload) = [1, 2] := by
  obtain ⟨s, h, hs⟩ := System.exists_reachWhen (A := ringSystem) (C := TakesFrame)
    (r := writeThenRead) (f := fun s => (s.reader, s.header.readPos, s.hist.readEnd))
    (t := (.compareExchange ⟨0, 0, some [1, 2]⟩ 2 [1, 2], 0, 0)) freshRing_zeroed
    (by decide +kernel)
  simp only [Prod.mk.injEq] at hs
  obtain ⟨hr, hpos, hend⟩ := hs
  exact ⟨s, _, h, hr, compareExchange_exact h hr hpos rfl (by simp [hend])⟩

/-- **While the consumer loads `read_pos` only when a counted frame is unread, the frames are
delivered in order.** -/
theorem delivered_of_frameUnread {s : RingState}
    (h : ringSystem.ReachWhen (fun s l => ShortAttempt s l ∧ FrameUnread s l) s) : Delivered s :=
  (h.invariant (I := DeliveryInv) (fun _ => DeliveryInv.init) fun _ _ _ hi hc hst =>
    hi.step hc.1 hc.2 hst).delivered

theorem delivered_of_frameUnread_writeThenRead :
    ∃ s, Delivered s ∧ s.hist.reads = [.ok (2, [1, 2])] := by
  obtain ⟨s, h, hs⟩ := System.exists_reachWhen (A := ringSystem)
    (C := fun s l => ShortAttempt s l ∧ FrameUnread s l)
    (r := writeThenRead ++ List.replicate 3 .reader) (f := fun s => s.hist.reads)
    (t := [.ok (2, [1, 2])]) freshRing_zeroed (by decide +kernel)
  exact ⟨s, delivered_of_frameUnread h, hs⟩

/-! ### A count that is too large -/

/-- What has happened has happened. -/
theorem extends_step {s s' : RingState} {l : RingLabel} (hst : ringSystem.step s l = some s') :
    s.hist.Extends s'.hist := by
  cases l with
  | callWrite p =>
    simp only [ringSystem, step] at hst
    split at hst <;> cases hst
    rw [callWrite]
    split_ifs
    · exact .wrote rfl rfl rfl
    · exact .wrote rfl rfl rfl
    · exact .wrote rfl rfl rfl
    · exact .same rfl rfl rfl
  | callRead =>
    simp only [ringSystem, step] at hst
    split at hst <;> cases hst
    exact .same rfl rfl rfl
  | writer =>
    simp only [ringSystem, step, writerStep] at hst
    cases hw : s.writer with
    | discard p ov d =>
      simp only [hw] at hst
      cases hst
      cases d with
      | compareExchange read msgLen =>
        simp only [discardStep]
        split_ifs
        · exact .moved rfl rfl rfl
        · exact .same rfl rfl rfl
      | loadWrite | readLen1 =>
        simp only [discardStep]
        split_ifs
        all_goals first | exact .same rfl rfl rfl | exact .wrote rfl rfl rfl
      | _ => exact .same rfl rfl rfl
    | loadCount | storeWrite =>
      simp only [hw] at hst
      split_ifs at hst <;> cases hst
      all_goals first | exact .same rfl rfl rfl | exact .wrote rfl rfl rfl
    | addSequence =>
      simp only [hw] at hst
      cases hst
      exact .wrote rfl rfl rfl
    | _ =>
      simp only [hw] at hst
      cases hst <;> exact .same rfl rfl rfl
  | reader =>
    simp only [ringSystem, step, readerStep] at hst
    cases hr : s.reader with
    | compareExchange a msgLen out =>
      simp only [hr] at hst
      split_ifs at hst <;> cases hst
      · exact .moved rfl rfl rfl
      · exact .same rfl rfl rfl
    | loadCount | readLen1 | reload | subCount =>
      simp only [hr] at hst
      split_ifs at hst <;> cases hst
      all_goals first | exact .same rfl rfl rfl | exact .read rfl rfl rfl
    | addSequence =>
      simp only [hr] at hst
      cases hst
      exact .read rfl rfl rfl
    | _ =>
      simp only [hr] at hst
      cases hst <;> exact .same rfl rfl rfl

/-- `read_pos` only moves on. -/
theorem moves_step {s s' : RingState} {l : RingLabel} (hst : ringSystem.step s l = some s') :
    ∃ ms, s'.hist.moves = s.hist.moves ++ ms := by
  obtain ⟨ms, hms⟩ := (extends_step hst).moves
  exact ⟨ms, hms.symm⟩

/-- A successful `compare_exchange` of the consumer is a move. -/
theorem moves_of_taking {s s' : RingState} (ht : s.reader.taking = some s.header.readPos)
    (hst : s.readerStep = some s') : s'.hist.moves.length = s.hist.moves.length + 1 := by
  rw [readerStep] at hst
  cases hr : s.reader with
  | compareExchange a msgLen out =>
    rw [hr] at ht
    simp only [hr, if_pos (Option.some.inj ht).symm] at hst
    cases hst
    exact List.length_append
  | _ =>
    rw [hr] at ht
    cases ht

theorem moves_solo {s s' : RingState} {l : RingLabel} (h : ringSystem.Solo l s s') :
    ∃ ms, s'.hist.moves = s.hist.moves ++ ms := by
  induction h with
  | refl => exact ⟨[], (List.append_nil _).symm⟩
  | step hst _ ih =>
    obtain ⟨ms, hms⟩ := moves_step hst
    obtain ⟨ms', hms'⟩ := ih
    exact ⟨ms ++ ms', by rw [hms', hms, List.append_assoc]⟩

/-- Before `2 ^ 32` bytes have been moved over in all, every attempt is short. -/
theorem reachWhen_shortAttempt {s : RingState} (h : ringSystem.Reach s)
    (hlt : s.hist.readEnd < 2 ^ 32) : ringSystem.ReachWhen ShortAttempt s := by
  induction h with
  | init h => exact .init h
  | @step s s' l _ _ hst ih =>
    obtain ⟨ms, hms⟩ := moves_step hst
    have hle : s.hist.readEnd ≤ s'.hist.readEnd := by
      rw [History.readEnd, History.readEnd, hms]
      simp
    exact .step (ih (by omega)) (fun a _ => by omega) hst

/-- What the run below keeps: the last frame ends at 3000, and behind it the storage is empty. -/
structure Short (s : RingState) (Q : List Payload) : Prop where
  reach : ringSystem.Reach s
  reader : s.reader = .idle
  represents : Represents s.ring Q 0
  storage : s.storage 3000 = 0 ∧ s.storage 3001 = 0

/-- The producer alone queues up to 500 messages of two bytes. -/
theorem exists_filled {n : ℕ} (hn : n ≤ 500) : ∃ s, Short s (List.replicate n [1, 2]) ∧
    s.writer = .idle ∧ s.header.writePos = UInt32.ofNat (6 * n) ∧ s.hist.moves = [] ∧
    s.hist.frames = List.replicate n [1, 2] := by
  induction n with
  | zero =>
    exact ⟨zeroed, ⟨.init freshRing_zeroed, rfl, represents_reset ⟨⟨0, 0, 0, 0, 0, 0, 0⟩, _⟩ 1,
      ⟨rfl, rfl⟩⟩, rfl, rfl, rfl, rfl⟩
  | succ n ih =>
    obtain ⟨s, hs, hw, hpos, hM, hF⟩ := ih (by omega)
    have hp : Payload.Valid [1, 2] := by decide
    have hlen : (framesBytes (List.replicate n [1, 2])).length = 6 * n := by
      simp [framesBytes, List.length_flatMap, messageHeaderSize, Nat.mul_comm]
    have hfit : ringQueue.Fits (List.replicate n [1, 2]) [1, 2] := by
      refine ⟨?_, by rw [List.length_replicate]; exact hn⟩
      rw [← length_framesBytes, hlen]
      simp only [ringQueue, ringCapacity, messageHeaderSize, List.length_cons, List.length_nil]
      omega
    have hroom := (hs.represents.mustEvict_iff hp).not.2 (not_not.2 hfit)
    have hstep : ringSystem.step s (.callWrite [1, 2]) =
        some { s with writer := .loadWrite [1, 2] 0 } := by
      simp only [ringSystem, step, hw]
      rfl
    have hsolo := solo_commit (s := { s with writer := .loadWrite [1, 2] 0 }) hp rfl hroom
    have hstored (i : ℕ) (hi : 3000 ≤ i) (hc : i < ringCapacity) (h₀ : s.storage i = 0) :
        storeFrame s.storage (maskIndex s.header.writePos) [1, 2] i = 0 := by
      rw [hpos, maskIndex_ofNat, storeFrame_eq _ _ hp, writeFrom_of_forall_ne, h₀]
      intro k hk
      have hk' : k < 6 := hk
      simp only [ringCapacity]
      rw [Nat.mod_eq_of_lt] <;> omega
    refine ⟨_, ⟨hsolo.reach (hs.reach.step hstep), hs.reader, ?_, ⟨?_, ?_⟩⟩, rfl, ?_, hM, ?_⟩
    · rw [List.replicate_succ']
      exact hs.represents.commit hp hfit 0
    · exact hstored 3000 le_rfl (by decide) hs.storage.1
    · exact hstored 3001 (by decide) (by decide) hs.storage.2
    · change s.header.writePos + totalRequired [1, 2] = _
      rw [hpos, totalRequired_eq, ofNat_add, length_frameBytes]
      rfl
    · change s.hist.frames ++ [[1, 2]] = _
      rw [hF, List.replicate_succ']

/-- The consumer alone reads the next of them. -/
theorem Short.readMessage {s : RingState} {Q : List Payload} (hs : Short s ([1, 2] :: Q)) :
    ∃ s', Short s' Q ∧ s'.writer = s.writer ∧ s'.header.writePos = s.header.writePos ∧
      s'.hist.moves = s.hist.moves ++ [.take 2 [1, 2]] ∧ s'.hist.frames = s.hist.frames := by
  obtain ⟨r', hread, hrep⟩ := hs.represents.readMessage_cons []
  obtain ⟨s₁, hstep, hsolo, hring⟩ := solo_readMessage hs.reader
  rw [hread] at hring
  have hres : s.readResult = .ok (2, [1, 2]) := by
    rw [readResult, hread]
    rfl
  refine ⟨_, ⟨hsolo.reach (hs.reach.step hstep), rfl, hring ▸ hrep, hs.storage⟩, rfl, ?_, ?_, rfl⟩
  · exact Ring.readMessage_writePos _ _
  · rw [readDone, hres]
    rfl

/-- The producer finds 500 messages queued and decides to evict; before it does, the consumer
reads up to 499 of them. -/
theorem exists_drained {k : ℕ} (hk : k ≤ 499) : ∃ s, Short s (List.replicate (500 - k) [1, 2]) ∧
    s.writer = .discard [1, 2] 0 .loadRead ∧ s.header.writePos = UInt32.ofNat 3000 ∧
    s.hist.readEnd = 6 * k ∧ s.hist.moves.length = k ∧
    s.hist.frames = List.replicate 500 [1, 2] := by
  induction k with
  | zero =>
    obtain ⟨s, hs, hw, hpos, hM, hF⟩ := exists_filled le_rfl
    have hstep : ringSystem.step s (.callWrite [1, 2]) =
        some { s with writer := .loadWrite [1, 2] 0 } := by
      simp only [ringSystem, step, hw]
      rfl
    have hc : s.header.messageCount = 500 := by
      have := hs.represents.messageCount
      rwa [List.length_replicate] at this
    have hm : MustEvict [1, 2] s.header.writePos s.header.readPos s.header.messageCount :=
      .inr (by rw [hc]; decide)
    have hne : s.header.messageCount ≠ 0 := by rw [hc]; decide
    have hsolo := solo_mustEvict (s := { s with writer := .loadWrite [1, 2] 0 }) rfl hm hne
    exact ⟨_, ⟨hsolo.reach (hs.reach.step hstep), hs.reader, hs.represents, hs.storage⟩,
      rfl, hpos, by simp [History.readEnd, hM], by rw [hM]; rfl, hF⟩
  | succ k ih =>
    obtain ⟨s, hs, hw, hpos, hend, hlen, hF⟩ := ih (by omega)
    rw [show 500 - k = 500 - (k + 1) + 1 by omega, List.replicate_succ] at hs
    obtain ⟨s₁, hs₁, hw₁, hpos₁, hM, hF₁⟩ := hs.readMessage
    refine ⟨s₁, hs₁, hw₁.trans hw, hpos₁.trans hpos, ?_, ?_, hF₁.trans hF⟩
    · rw [History.readEnd, hM, List.map_append, List.sum_append]
      change s.hist.readEnd + 6 = _
      omega
    · rw [hM, List.length_append, hlen]
      rfl

/-- The consumer has drained the ring down to one message, which the producer then evicts.
`message_count` is still 1. -/
theorem exists_evicted : ∃ s, ringSystem.Reach s ∧ s.reader = .idle ∧
    s.writer = .discard [1, 2] 0 .subCount ∧ s.header.readPos = UInt32.ofNat 3000 ∧
    s.header.writePos = UInt32.ofNat 3000 ∧ s.header.messageCount = 1 ∧
    (s.storage 3000 = 0 ∧ s.storage 3001 = 0) ∧ s.hist.readEnd < 2 ^ 32 := by
  obtain ⟨s, hs, hw, hpos, hend, -⟩ := exists_drained le_rfl
  obtain ⟨r', hdis, hrep⟩ := Represents.discardOldest hs.represents
  obtain ⟨n, hn, hevict, hr'⟩ := solo_evict hw hdis
  refine ⟨s.evicted [1, 2] 0 n, hevict.reach hs.reach, hs.reader, rfl, ?_, hpos,
    hs.represents.messageCount, hs.storage, ?_⟩
  · -- `read_pos` has caught up with `write_pos`
    obtain ⟨past, hr, hwr, -⟩ := hrep.stream
    rw [← hr'] at hr hwr
    rw [List.replicate_zero, framesBytes_nil, List.append_nil] at hwr
    exact hr.trans (hwr.symm.trans hpos)
  · have hM : (s.evicted [1, 2] 0 n).hist.moves = s.hist.moves ++ [.evict n] := rfl
    rw [History.readEnd, hM, List.map_append, List.sum_append]
    change s.hist.readEnd + (messageHeaderSize + n + 0) < _
    have := hn.2
    simp only [maxMessageSize, messageHeaderSize] at this ⊢
    omega

/-- The failing run: the consumer reads behind the last frame. -/
theorem exists_corrupted : ∃ s, ringSystem.ReachWhen ShortAttempt s ∧
    .error .corrupted ∈ s.hist.reads := by
  obtain ⟨s, hs, hr, -, hread, -, hcount, hst, hend⟩ := exists_evicted
  obtain ⟨s₁, hstep, hsolo, -⟩ := solo_readMessage hr
  have hlen : (readU16 s.storage (maskIndex s.header.readPos)).toNat = 0 := by
    rw [hread, maskIndex_ofNat, readU16_eq]
    change (fromLeBytes (s.storage 3000) (s.storage 3001)).toNat = 0
    rw [hst.1, hst.2]
    rfl
  have hres : s.readResult = .error .corrupted := by
    simp only [readResult, Ring.readMessage, ring, hcount, hlen]
    rfl
  refine ⟨_, reachWhen_shortAttempt (hsolo.reach (hs.step hstep)) ?_, ?_⟩
  · have hM : s.readDone.hist.moves = s.hist.moves := by
      rw [readDone, hres]
      exact List.append_nil _
    rwa [History.readEnd, hM]
  · rw [readDone, hres]
    simp

/-- Without the condition on the load of `read_pos`, delivery fails. -/
theorem not_delivered : ¬ ∀ s, ringSystem.ReachWhen ShortAttempt s → Delivered s := by
  intro h
  obtain ⟨s, hs, hc⟩ := exists_corrupted
  exact (h s hs).notCorrupted hc

end RingState

end Xshm
