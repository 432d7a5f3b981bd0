import Xshm.Ring.Counters

/-!
# What the counters of a ring add up to

`drop_count`, the results of `write_message` and `read_message`, and the frames between `read_pos`
and `write_pos`.  A `write_message` that succeeds reports how many frames it has evicted; one that
fails reports nothing.  So the evictions are the sum of what is reported as long as no call fails
after it has evicted a frame (`LedgerInv`), and then the counters are exact whenever neither side
is inside a call (`RingState.countersExact_of_notDrained`).
-/

namespace Xshm

open Circular

namespace Writer

/-- The frame that the producer has evicted but not added to `drop_count`. -/
def undropped : Writer → ℕ
  | .discard _ _ .subCount | .discard _ _ .addDrop => 1
  | _ => 0

/-- The frames evicted by the call that has not returned. -/
def evicted (w : Writer) : ℕ := w.overwritten.toNat + w.undropped

/-- The frame that is counted, while its `write_message` has not returned. -/
def returning : Writer → ℕ
  | .storeWrite .. | .addSequence .. => 1
  | _ => 0

end Writer

namespace History

/-- The number of frames that have been evicted. -/
def evictions (h : History) : ℕ := h.moves.countP fun m => m.taken.isNone

/-- The results of the calls of `write_message` that succeeded. -/
def sent (h : History) : List WriteOutcome := h.writes.filterMap Except.toOption

/-- The results of the calls of `read_message` that succeeded. -/
def received (h : History) : List (ℕ × Payload) := h.reads.filterMap Except.toOption

end History

section Results

variable {ε α : Type*}

theorem filterMap_toOption_ok (l : List (Except ε α)) (a : α) :
    (l ++ [Except.ok a]).filterMap Except.toOption = l.filterMap Except.toOption ++ [a] := by
  rw [List.filterMap_append]
  rfl

theorem filterMap_toOption_error (l : List (Except ε α)) (e : ε) :
    (l ++ [Except.error e]).filterMap Except.toOption = l.filterMap Except.toOption := by
  rw [List.filterMap_append]
  exact List.append_nil _

end Results

/-- The ledger: frames and results, evictions and what is reported about them. -/
structure LedgerInv (s : RingState) : Prop where
  sent : s.hist.sent.length + s.writer.returning = s.hist.frames.length
  received : s.hist.received.length + s.reader.pending.length =
    (s.hist.moves.filterMap Move.taken).length
  drops : s.header.dropCount + UInt32.ofNat s.writer.undropped = UInt32.ofNat s.hist.evictions
  overwritten : (s.hist.sent.map fun o => o.overwritten.toNat).sum + s.writer.evicted =
    s.hist.evictions
  evicted_le : s.writer.evicted + s.hist.frames.length ≤
    s.hist.moves.length + 500 + s.writer.returning

namespace LedgerInv

variable {s s' : RingState}

theorem init (h : FreshRing s) : LedgerInv s := by
  obtain ⟨hd, st, generation, rfl⟩ := h
  exact ⟨rfl, rfl, rfl, rfl, Nat.zero_le _⟩

/-- The producer moves; nothing that the ledger speaks of changes. -/
theorem quiet (h : LedgerInv s) (hd : s'.header.dropCount = s.header.dropCount)
    (hh : s'.hist = s.hist) (hr : s'.reader = s.reader)
    (hret : s'.writer.returning = s.writer.returning)
    (hun : s'.writer.undropped = s.writer.undropped)
    (hov : s'.writer.overwritten = s.writer.overwritten) : LedgerInv s' := by
  have hev : s'.writer.evicted = s.writer.evicted := by
    rw [Writer.evicted, Writer.evicted, hov, hun]
  refine ⟨?_, ?_, ?_, ?_, ?_⟩
  · rw [hh, hret]
    exact h.sent
  · rw [hh, hr]
    exact h.received
  · rw [hd, hh, hun]
    exact h.drops
  · rw [hh, hev]
    exact h.overwritten
  · rw [hh, hev, hret]
    exact h.evicted_le

/-- `write_message` returns: what it has evicted is reported, if it succeeds. -/
theorem returnWrite (h : LedgerInv s) {P : UInt32 → Prop} (hc : CountInv P s)
    {res : Except ShmError WriteOutcome}
    (hd : s'.header.dropCount = s.header.dropCount)
    (hh : s'.hist = { s.hist with writes := s.hist.writes ++ [res] }) (hr : s'.reader = s.reader)
    (hw : s'.writer = .idle) (hun : s.writer.undropped = 0)
    (hres : (∃ o, res = .ok o ∧ o.overwritten = s.writer.overwritten ∧ s.writer.returning = 1) ∨
      (∃ e, res = .error e) ∧ s.writer.overwritten = 0 ∧ s.writer.returning = 0) :
    LedgerInv s' := by
  have hle := hc.count_le
  have hcount := hc.count
  have hsent := h.sent
  have hov := h.overwritten
  rw [Writer.evicted, hun] at hov
  have hunread : s.hist.frames.length ≤ s.hist.moves.length + 500 := by
    rw [History.unread] at hcount
    omega
  refine ⟨?_, ?_, ?_, ?_, ?_⟩
  · rw [hh, hw]
    rcases hres with ⟨o, rfl, -, hret⟩ | ⟨⟨e, rfl⟩, -, hret⟩
    · rw [hret] at hsent
      rw [History.sent, filterMap_toOption_ok, List.length_append]
      exact hsent
    · rw [hret] at hsent
      rw [History.sent, filterMap_toOption_error]
      exact hsent
  · rw [hh, hr]
    exact h.received
  · have hdrops := h.drops
    rw [hd, hh, hw]
    rw [hun] at hdrops
    exact hdrops
  · rw [hh, hw]
    rcases hres with ⟨o, rfl, ho, -⟩ | ⟨⟨e, rfl⟩, ho, -⟩
    · rw [History.sent, filterMap_toOption_ok, List.map_append, List.sum_append]
      rw [List.map_singleton, List.sum_singleton, ho]
      exact hov
    · rw [ho] at hov
      rw [History.sent, filterMap_toOption_error]
      exact hov
  · rw [hh, hw]
    simpa [Writer.evicted, Writer.overwritten, Writer.undropped, Writer.returning] using hunread

/-- A frame is evicted. -/
theorem evict (h : LedgerInv s) {p : Payload} {ov read : UInt32} {msgLen : ℕ}
    (hw : s.writer = .discard p ov (.compareExchange read msgLen))
    (hd : s'.header.dropCount = s.header.dropCount)
    (hh : s'.hist = { s.hist with moves := s.hist.moves ++ [.evict msgLen] })
    (hr : s'.reader = s.reader) (hw' : s'.writer = .discard p ov .subCount) : LedgerInv s' := by
  have hev : s'.hist.evictions = s.hist.evictions + 1 := by
    rw [hh, History.evictions, List.countP_append]
    rfl
  have hdrops := h.drops
  have hov := h.overwritten
  have hle := h.evicted_le
  have hsent := h.sent
  rw [hw] at hdrops hov hle hsent
  refine ⟨?_, ?_, ?_, ?_, ?_⟩
  · rw [hh, hw']
    exact hsent
  · rw [hh, hr, List.filterMap_append]
    exact h.received.trans (congrArg List.length (List.append_nil _).symm)
  · rw [hd, hw', hev]
    simp only [Writer.undropped] at hdrops ⊢
    rw [← ofNat_add, ← hdrops]
    simp
  · rw [hev, hw', ← hov, hh]
    simp only [Writer.evicted, Writer.overwritten, Writer.undropped]
    rfl
  · rw [hh, hw', List.length_append, List.length_singleton]
    simp only [Writer.evicted, Writer.overwritten, Writer.undropped, Writer.returning] at hle ⊢
    omega

/-- The eviction is added to `drop_count` and to `overwritten`. -/
theorem addDrop (h : LedgerInv s) {p : Payload} {ov : UInt32}
    (hm : s.hist.moves.length ≤ s.hist.frames.length)
    (hw : s.writer = .discard p ov .addDrop)
    (hd : s'.header.dropCount = s.header.dropCount + 1) (hh : s'.hist = s.hist)
    (hr : s'.reader = s.reader) (hw' : s'.writer = .loadWrite p (ov + 1)) : LedgerInv s' := by
  have hdrops := h.drops
  have hov := h.overwritten
  have hle := h.evicted_le
  have hsent := h.sent
  rw [hw] at hdrops hov hle hsent
  simp only [Writer.evicted, Writer.overwritten, Writer.undropped, Writer.returning] at hov hle
  -- no call evicts more frames than the ring can hold
  have hadd : (ov + 1).toNat = ov.toNat + 1 := by
    rw [UInt32.toNat_add, UInt32.toNat_one]
    omega
  refine ⟨?_, ?_, ?_, ?_, ?_⟩
  · rw [hh, hw']
    exact hsent
  · rw [hh, hr]
    exact h.received
  · rw [hd, hh, hw', ← hdrops]
    simp [Writer.undropped]
  · rw [hh, hw']
    simp only [Writer.evicted, Writer.overwritten, Writer.undropped, hadd]
    omega
  · rw [hh, hw']
    simp only [Writer.evicted, Writer.overwritten, Writer.undropped, Writer.returning, hadd]
    omega

theorem discardStep (h : LedgerInv s) (hc : CountInv (· ≠ 0) s) {p : Payload} {ov : UInt32}
    {d : Discard} (hw : s.writer = .discard p ov d) : LedgerInv (s.discardStep p ov d) := by
  have hres := hc.discardStep_results hw
  cases d with
  | loadRead | readLen0 | subCount =>
    exact h.quiet rfl rfl rfl (by rw [hw]; rfl) (by rw [hw]; rfl) (by rw [hw]; rfl)
  | loadWrite read =>
    rw [RingState.discardStep] at hres ⊢
    split_ifs at hres ⊢
    · -- an error is returned only if nothing has been evicted
      have hov : ov = 0 := by simpa [RingState.returnWrite] using hres
      refine h.returnWrite hc rfl rfl rfl rfl (by rw [hw]; rfl) (.inr ⟨⟨_, rfl⟩, ?_, ?_⟩)
      · rw [hw]
        exact hov
      · rw [hw]
        rfl
    · exact h.quiet rfl rfl rfl (by rw [hw]; rfl) (by rw [hw]; rfl) (by rw [hw]; rfl)
  | readLen1 read b₀ =>
    rw [RingState.discardStep] at hres ⊢
    split_ifs at hres ⊢
    · exact h.quiet rfl rfl rfl (by rw [hw]; rfl) (by rw [hw]; rfl) (by rw [hw]; rfl)
    · have hov : ov = 0 := by simpa [RingState.returnWrite] using hres
      refine h.returnWrite hc rfl rfl rfl rfl (by rw [hw]; rfl) (.inr ⟨⟨_, rfl⟩, ?_, ?_⟩)
      · rw [hw]
        exact hov
      · rw [hw]
        rfl
  | compareExchange read msgLen =>
    rw [RingState.discardStep]
    split_ifs
    · exact h.evict hw rfl rfl rfl rfl
    · exact h.quiet rfl rfl rfl (by rw [hw]; rfl) (by rw [hw]; rfl) (by rw [hw]; rfl)
  | addDrop => exact h.addDrop hc.ring.moves_le hw rfl rfl rfl rfl

theorem writerStep (h : LedgerInv s) (hc : CountInv (· ≠ 0) s) (hst : s.writerStep = some s') :
    LedgerInv s' := by
  have hres := hc.writerStep_results hst
  rw [RingState.writerStep] at hst
  cases hw : s.writer with
  | idle => simp [hw] at hst
  | loadWrite | loadRead =>
    simp only [hw] at hst
    cases hst
    exact h.quiet rfl rfl rfl (by rw [hw]; rfl) (by rw [hw]; rfl) (by rw [hw]; rfl)
  | loadCount p ov write read =>
    simp only [hw] at hst
    split_ifs at hst <;> cases hst
    · have hov : ov = 0 := by simpa [RingState.returnWrite, hw, Writer.overwritten] using hres
      refine h.returnWrite hc rfl rfl rfl rfl (by rw [hw]; rfl) (.inr ⟨⟨_, rfl⟩, ?_, ?_⟩)
      · rw [hw]
        exact hov
      · rw [hw]
        rfl
    · exact h.quiet rfl rfl rfl (by rw [hw]; rfl) (by rw [hw]; rfl) (by rw [hw]; rfl)
    · exact h.quiet rfl rfl rfl (by rw [hw]; rfl) (by rw [hw]; rfl) (by rw [hw]; rfl)
  | discard p ov d =>
    simp only [hw] at hst
    cases hst
    exact h.discardStep hc hw
  | copy p ov write k =>
    simp only [hw] at hst
    cases hst
    split_ifs <;>
      exact h.quiet rfl rfl rfl (by rw [hw]; rfl) (by rw [hw]; rfl) (by rw [hw]; rfl)
  | addCount p ov write =>
    have hsent := h.sent
    have hdrops := h.drops
    have hov := h.overwritten
    have hle := h.evicted_le
    simp only [hw] at hst hsent hdrops hov hle
    cases hst
    refine ⟨?_, h.received, hdrops, hov, ?_⟩
    · rw [List.length_append, ← hsent]
      rfl
    · rw [List.length_append]
      exact Nat.add_le_add_right hle 1
  | storeWrite p ov write prevCount =>
    simp only [hw] at hst
    split_ifs at hst <;> cases hst
    · exact h.quiet rfl rfl rfl (by rw [hw]; rfl) (by rw [hw]; rfl) (by rw [hw]; rfl)
    · exact h.returnWrite hc rfl rfl rfl rfl (by rw [hw]; rfl)
        (.inl ⟨_, rfl, by rw [hw]; rfl, by rw [hw]; rfl⟩)
  | addSequence ov prevCount =>
    simp only [hw] at hst
    cases hst
    exact h.returnWrite hc rfl rfl rfl rfl (by rw [hw]; rfl)
      (.inl ⟨_, rfl, by rw [hw]; rfl, by rw [hw]; rfl⟩)

/-- The consumer moves; it may return, or take a frame. -/
theorem reader_step (h : LedgerInv s) (hd : s'.header.dropCount = s.header.dropCount)
    (hF : s'.hist.frames = s.hist.frames) (hW : s'.hist.writes = s.hist.writes)
    (hw : s'.writer = s.writer) {T : List Move} (hM : s'.hist.moves = s.hist.moves ++ T)
    (hT : ∀ m ∈ T, m.taken.isSome = true)
    (hr : s'.hist.received.length + s'.reader.pending.length =
      s.hist.received.length + s.reader.pending.length + (T.filterMap Move.taken).length) :
    LedgerInv s' := by
  have hsent : s'.hist.sent = s.hist.sent := by rw [History.sent, History.sent, hW]
  have hnone : T.countP (fun m => m.taken.isNone) = 0 := by
    rw [List.countP_eq_zero]
    intro m hm
    have := hT m hm
    rw [Option.isNone_eq_false_iff.2 this]
    exact Bool.false_ne_true
  have hev : s'.hist.evictions = s.hist.evictions := by
    rw [History.evictions, hM, List.countP_append, hnone]
    rfl
  have hle := h.evicted_le
  refine ⟨?_, ?_, ?_, ?_, ?_⟩
  · rw [hsent, hw, hF]
    exact h.sent
  · rw [hr, hM, List.filterMap_append, List.length_append, h.received]
  · rw [hd, hw, hev]
    exact h.drops
  · rw [hsent, hw, hev]
    exact h.overwritten
  · rw [hw, hF, hM, List.length_append]
    omega

theorem readerStep (h : LedgerInv s) (hst : s.readerStep = some s') : LedgerInv s' := by
  -- every step but a successful `compare_exchange` and a return is local
  have stay {s' : RingState} (hd : s'.header.dropCount = s.header.dropCount)
      (hh : s'.hist = s.hist) (hw : s'.writer = s.writer)
      (hp : s'.reader.pending.length = s.reader.pending.length) : LedgerInv s' := by
    refine h.reader_step hd (by rw [hh]) (by rw [hh]) hw (T := []) ?_ ?_ ?_
    · rw [hh, List.append_nil]
    · intro m hm
      cases hm
    · rw [hh, hp]
      rfl
  rw [RingState.readerStep] at hst
  cases hr : s.reader with
  | idle => simp [hr] at hst
  | loadRead | readLen0 =>
    simp only [hr] at hst
    cases hst
    exact stay rfl rfl rfl (by rw [hr]; rfl)
  | readLen1 =>
    simp only [hr] at hst
    split_ifs at hst <;> cases hst <;> exact stay rfl rfl rfl (by rw [hr]; rfl)
  | copy a msgLen out =>
    simp only [hr] at hst
    cases hst
    split_ifs <;> exact stay rfl rfl rfl (by rw [hr]; rfl)
  | loadCount | reload =>
    simp only [hr] at hst
    split_ifs at hst <;> cases hst
    all_goals first
      | exact stay rfl rfl rfl (by rw [hr]; rfl)
      | refine h.reader_step rfl rfl rfl rfl (List.append_nil _).symm (fun m hm => by cases hm) ?_
        simp [RingState.returnRead, History.received, hr, Reader.pending, Except.toOption]
  | compareExchange a msgLen out =>
    simp only [hr] at hst
    split_ifs at hst <;> cases hst
    · refine h.reader_step rfl rfl rfl rfl (T := [.take msgLen out]) rfl ?_ ?_
      · intro m hm
        rw [List.mem_singleton.1 hm]
        rfl
      · simp [hr, Reader.pending, History.received, Move.taken]
    · exact stay rfl rfl rfl (by rw [hr]; rfl)
  | subCount msgLen out =>
    simp only [hr] at hst
    split_ifs at hst <;> cases hst
    · exact stay rfl rfl rfl (by rw [hr]; rfl)
    · refine h.reader_step rfl rfl rfl rfl (List.append_nil _).symm (fun m hm => by cases hm) ?_
      simp [RingState.returnRead, History.received, hr, Reader.pending, Except.toOption]
  | addSequence msgLen out =>
    simp only [hr] at hst
    cases hst
    refine h.reader_step rfl rfl rfl rfl (List.append_nil _).symm (fun m hm => by cases hm) ?_
    simp [RingState.returnRead, History.received, hr, Reader.pending, Except.toOption]

/-- **A step at which the consumer leaves a frame for a producer that has evicted keeps the
ledger.** -/
theorem step (h : LedgerInv s) (hc : CountInv (· ≠ 0) s) {l : RingLabel}
    (hst : s.step l = some s') : LedgerInv s' := by
  cases l with
  | callWrite p =>
    rw [RingState.step] at hst
    cases hw : s.writer with
    | idle =>
      simp only [hw] at hst
      cases hst
      rw [RingState.callWrite]
      split_ifs
      · exact h.returnWrite hc rfl rfl rfl hw (by rw [hw]; rfl)
          (.inr ⟨⟨_, rfl⟩, by rw [hw]; rfl, by rw [hw]; rfl⟩)
      · exact h.returnWrite hc rfl rfl rfl hw (by rw [hw]; rfl)
          (.inr ⟨⟨_, rfl⟩, by rw [hw]; rfl, by rw [hw]; rfl⟩)
      · exact h.returnWrite hc rfl rfl rfl hw (by rw [hw]; rfl)
          (.inr ⟨⟨_, rfl⟩, by rw [hw]; rfl, by rw [hw]; rfl⟩)
      · exact h.quiet rfl rfl rfl (by rw [hw]; rfl) (by rw [hw]; rfl) (by rw [hw]; rfl)
    | _ => simp [hw] at hst
  | callRead =>
    rw [RingState.step] at hst
    cases hr : s.reader with
    | idle =>
      simp only [hr] at hst
      cases hst
      refine h.reader_step rfl rfl rfl rfl (List.append_nil _).symm (fun m hm => by cases hm) ?_
      simp [hr, Reader.pending, History.received]
    | _ => simp [hr] at hst
  | writer => exact h.writerStep hc hst
  | reader => exact h.readerStep hst

end LedgerInv

/-- Neither side is inside a call. -/
def RingState.Quiet (s : RingState) : Prop := s.writer = .idle ∧ s.reader = .idle

/-- `message_count` is exact: no `fetch_sub` underflows, the limit is kept, and while neither side
is inside a call the counters say how many frames are in the ring and how many were evicted. -/
structure CountersExact (s : RingState) : Prop where
  producerSub : ∀ p ov, s.writer = .discard p ov .subCount → s.header.messageCount ≠ 0
  consumerSub : ∀ msgLen out, s.reader = .subCount msgLen out → s.header.messageCount ≠ 0
  count_le : s.header.messageCount ≤ maxMessages
  /-- The frames between `read_pos` and `write_pos` are counted. -/
  frames : s.Quiet → ∃ taken unread, s.hist.frames = taken ++ unread ∧
    s.header.readPos = UInt32.ofNat (framesBytes taken).length ∧
    s.header.writePos = UInt32.ofNat (framesBytes (taken ++ unread)).length ∧
    s.header.messageCount.toNat = unread.length
  balance : s.Quiet → s.hist.sent.length =
    s.hist.received.length + s.hist.evictions + s.header.messageCount.toNat
  drops : s.Quiet → s.header.dropCount = UInt32.ofNat s.hist.evictions
  overwritten : s.Quiet →
    (s.hist.sent.map fun o => o.overwritten.toNat).sum = s.hist.evictions

/-- The moves of the consumer and the evictions are all moves. -/
theorem History.length_moves (h : History) :
    h.moves.length = (h.moves.filterMap Move.taken).length + h.evictions := by
  rw [History.evictions, List.length_filterMap_eq_countP,
    List.length_eq_countP_add_countP (fun m : Move => m.taken.isSome)]
  congr 1
  refine List.countP_congr fun m _ => ?_
  simp

theorem countersExact {s : RingState} {P : UInt32 → Prop} (hc : CountInv P s)
    (h : LedgerInv s) : CountersExact s where
  producerSub p ov hw := by
    refine hc.messageCount_ne_zero (Nat.add_pos_left ?_ _)
    rw [hw]
    exact Nat.one_pos
  consumerSub msgLen out hr := by
    refine hc.messageCount_ne_zero (Nat.add_pos_right _ ?_)
    rw [hr]
    exact Nat.one_pos
  count_le := UInt32.le_iff_toNat_le.2 hc.count_le
  frames hq := by
    obtain ⟨taken, unread, hF, hR, hM⟩ := hc.ring.exists_taken
    have hlen := congrArg List.length hM
    rw [List.length_map, List.length_map] at hlen
    have hcount := hc.count
    have hpos := hc.ring.writePos
    rw [hq.1, hq.2, History.unread, hF, List.length_append, hlen] at hcount
    rw [hq.1] at hpos
    refine ⟨taken, unread, hF, by rw [hc.ring.readPos, hR], by rw [hpos, hF]; rfl, ?_⟩
    simp only [Writer.uncounted, Reader.uncounted] at hcount
    omega
  balance hq := by
    have hsent := h.sent
    have hrec := h.received
    have hcount := hc.count
    have hle := hc.ring.moves_le
    have hmoves := s.hist.length_moves
    rw [hq.1] at hsent hcount
    rw [hq.2] at hrec hcount
    rw [History.unread] at hcount
    simp only [Writer.returning, Reader.pending, Writer.uncounted, Reader.uncounted,
      List.length_nil] at hsent hrec hcount
    omega
  drops hq := by
    have hdrops := h.drops
    rw [hq.1] at hdrops
    simpa [Writer.undropped] using hdrops
  overwritten hq := by
    have hov := h.overwritten
    rw [hq.1] at hov
    exact hov

namespace RingState

/-- **The counters stay exact.**  While the consumer takes only counted frames, and never the last
one of a ring from which the producer is about to evict a second frame for one message, no
`fetch_sub` on `message_count` underflows, the limit is kept, and between calls the count, the
results and the evictions agree. -/
theorem countersExact_of_notDrained {s : RingState}
    (h : ringSystem.ReachWhen (fun s l => TakesFrame s l ∧ NotDrained (· ≠ 0) s l) s) :
    CountersExact s := by
  obtain ⟨hc, hl⟩ := h.invariant (I := fun s => CountInv (· ≠ 0) s ∧ LedgerInv s)
    (fun _ h₀ => ⟨.init h₀, .init h₀⟩) fun _ _ _ hi hc hst =>
      ⟨hi.1.step hc.1 hc.2 hst, hi.2.step hi.1 hst⟩
  exact countersExact hc hl

theorem countersExact_of_notDrained_evictedTwice : ∃ s p n m, CountersExact s ∧
    s.hist.moves = [.evict n, .take maxMessageSize p, .evict m] := by
  obtain ⟨s, p, n, m, h, -, hM⟩ := exists_evictedTwice
  refine ⟨s, p, n, m, countersExact_of_notDrained (h.reach.mono fun s l hC => ?_), hM⟩
  exact ⟨hC.1, fun hl ht he _ => hC.2 hl ht he trivial⟩

/-- The failing run: the consumer loads `message_count` before the `fetch_sub` for the last frame
and reads the length of the next frame while the producer stores it.  It takes that frame before it
is counted. -/
theorem exists_underflow : ∃ s msgLen out, ringSystem.Reach s ∧
    s.reader = .subCount msgLen out ∧ s.header.messageCount = 0 := by
  obtain ⟨s, hs, hr, hw, hread, hwrite, hcount, hst, -⟩ := exists_evicted
  let a : Attempt :=
    ⟨UInt32.ofNat 3000, s.hist.readEnd, History.frameAt s.hist.frames s.hist.readEnd⟩
  have h₁ : ringSystem.Reach { s with reader := .loadCount } :=
    hs.step (l := .callRead) (by simp only [ringSystem, step, hr])
  have h₂ : ringSystem.Reach { s with reader := .loadRead } := h₁.step (l := .reader) (by
    simp only [ringSystem, step, readerStep, hcount]
    rfl)
  have h₃ : ringSystem.Reach { s with reader := .readLen0 a } := h₂.step (l := .reader) (by
    simp only [ringSystem, step, readerStep, hread, a])
  -- the producer counts the eviction and begins to store its frame
  let hd : RingHeader := { s.header with messageCount := 0, dropCount := s.header.dropCount + 1 }
  have h₄ : ringSystem.Reach { s with
      header := { s.header with messageCount := 0 }
      writer := .discard [1, 2] 0 .addDrop
      reader := .readLen0 a } := h₃.step (l := .writer) (by
    simp only [ringSystem, step, writerStep, hw, discardStep, hcount]
    rfl)
  have h₅ : ringSystem.Reach { s with
      header := hd
      writer := .loadWrite [1, 2] 1
      reader := .readLen0 a } := h₄.step (l := .writer) rfl
  have h₆ : ringSystem.Reach { s with
      header := hd
      writer := .loadCount [1, 2] 1 (UInt32.ofNat 3000) (UInt32.ofNat 3000)
      reader := .readLen0 a } :=
    (h₅.step (l := .writer) rfl).step (l := .writer) (by
      simp only [ringSystem, step, writerStep, hd, hread, hwrite])
  have h₇ : ringSystem.Reach { s with
      header := hd
      writer := .copy [1, 2] 1 (UInt32.ofNat 3000) 0
      reader := .readLen0 a } := h₆.step (l := .writer) (by
    simp only [ringSystem, step, writerStep, hd]
    rfl)
  let st := Function.update s.storage 3000 2
  have h₈ : ringSystem.Reach { s with
      header := hd
      storage := st
      writer := .copy [1, 2] 1 (UInt32.ofNat 3000) 1
      reader := .readLen0 a } := h₇.step (l := .writer) rfl
  -- the consumer goes on
  have h₉ : ringSystem.Reach { s with
      header := hd
      storage := st
      writer := .copy [1, 2] 1 (UInt32.ofNat 3000) 1
      reader := .readLen1 a 2 } := h₈.step (l := .reader) (by
    have hi : wrapIndex (maskIndex a.read) 0 = 3000 :=
      (by decide : wrapIndex (maskIndex (UInt32.ofNat 3000)) 0 = 3000)
    simp only [ringSystem, step, readerStep, hi, st, Function.update_self])
  have h₁₀ : ringSystem.Reach { s with
      header := hd
      storage := st
      writer := .copy [1, 2] 1 (UInt32.ofNat 3000) 1
      reader := .copy a 2 [] } := h₉.step (l := .reader) (by
    have hi : wrapIndex (maskIndex a.read) 1 = 3001 :=
      (by decide : wrapIndex (maskIndex (UInt32.ofNat 3000)) 1 = 3001)
    have hb : st 3001 = 0 := (Function.update_of_ne (by decide) _ _).trans hst.2
    simp only [ringSystem, step, readerStep, hi, hb]
    rfl)
  let i (k : ℕ) : ℕ := payloadIndex (maskIndex a.read) k
  have h₁₁ : ringSystem.Reach { s with
      header := hd
      storage := st
      writer := .copy [1, 2] 1 (UInt32.ofNat 3000) 1
      reader := .compareExchange a 2 [st (i 0), st (i 1)] } :=
    (h₁₀.step (l := .reader) rfl).step (l := .reader) rfl
  have h₁₂ : ringSystem.step { s with
      header := hd
      storage := st
      writer := .copy [1, 2] 1 (UInt32.ofNat 3000) 1
      reader := .compareExchange a 2 [st (i 0), st (i 1)] } .reader =
        some { s with
          header := { hd with readPos := a.read + UInt32.ofNat (messageHeaderSize + 2) }
          storage := st
          writer := .copy [1, 2] 1 (UInt32.ofNat 3000) 1
          reader := .subCount 2 [st (i 0), st (i 1)]
          hist := { s.hist with moves := s.hist.moves ++ [.take 2 [st (i 0), st (i 1)]] } } := by
    simp only [ringSystem, step, readerStep, hd, a, hread, ↓reduceIte]
  exact ⟨_, _, _, h₁₁.step h₁₂, rfl, rfl⟩

/-- Without the condition, a `fetch_sub` underflows. -/
theorem not_countersExact : ¬ ∀ s, ringSystem.Reach s → CountersExact s := by
  intro h
  obtain ⟨s, msgLen, out, hs, hr, hc⟩ := exists_underflow
  exact (h s hs).consumerSub msgLen out hr hc

end RingState

end Xshm
