import Xshm.Ring.Counters

/-!
# Evictions and the room in a shared ring

`write_message` looks for room before it evicts, and `discard_oldest` looks at the positions again
but not at the room.  Between the two the consumer may make room, and `message_count`, which it
lowers after it has moved `read_pos`, may say that there are 500 messages when there are 499.

As long as neither happens (`LeavesNoRoom`), a message is evicted only if there is no room for the
one that is sent (`RingState.evictsIfFull_of_leavesNoRoom`): from the test to the eviction the
unread frames are too many, or too large (`EvictInv`).
-/

namespace Xshm

open Circular

/-- The frames that have been counted and not moved over. -/
def History.waiting (h : History) : List Payload := h.frames.drop h.moves.length

/-- There is no room for payload `p` behind these frames. -/
def LacksRoom (fs : List Payload) (p : Payload) : Prop :=
  maxMessages.toNat ≤ fs.length ∨ ringCapacity <
    (fs.map fun f => messageHeaderSize + f.length).sum + (messageHeaderSize + p.length)

instance (fs : List Payload) (p : Payload) : Decidable (LacksRoom fs p) :=
  inferInstanceAs (Decidable (_ ∨ _))

/-- If `discard_oldest` succeeds in moving `read_pos`, then there is no room for the payload. -/
def EvictsIfFull (s : RingState) : Prop :=
  ∀ p ov read msgLen, s.writer = .discard p ov (.compareExchange read msgLen) →
    s.header.readPos = read → LacksRoom s.hist.waiting p

/-- The payload for which the producer has seen too little room, or is looking for the oldest frame
to evict it. -/
def Writer.evictingFor : Writer → Option Payload
  | .loadCount p _ write read =>
    if availableBytes write read < ((totalRequired p).toNat : ℤ) then some p else none
  | .discard p _ d => if d.searching then some p else none
  | _ => none

/-- The payload for which the producer is about to look at `message_count`. -/
def Writer.counting : Writer → Option Payload
  | .loadCount p _ _ _ => some p
  | _ => none

/-- What the consumer takes while the producer is about to evict makes no room, unless it is the
last frame; and if the producer finds a `message_count` of 500, then the consumer has lowered it
for all that it has taken, or there is no room anyway. -/
def LeavesNoRoom (s : RingState) : RingLabel → Prop
  | .reader => s.reader.taking = some s.header.readPos → ∀ p ∈ s.writer.evictingFor,
      s.hist.waiting.tail = [] ∨ LacksRoom s.hist.waiting.tail p
  | .writer => ∀ p ∈ s.writer.counting, maxMessages ≤ s.header.messageCount →
      s.reader.uncounted = 0 ∨ LacksRoom s.hist.waiting p
  | _ => True

instance (s : RingState) : DecidablePred (LeavesNoRoom s)
  | .reader => inferInstanceAs (Decidable (_ → _))
  | .writer => inferInstanceAs (Decidable (∀ p ∈ s.writer.counting, _))
  | .callWrite _ | .callRead => isTrue trivial

/-! ### The unread frames -/

namespace History

variable {h h' : History}

theorem length_waiting (h : History) : h.waiting.length = h.unread := List.length_drop ..

theorem waiting_congr (hF : h'.frames = h.frames) (hM : h'.moves = h.moves) :
    h'.waiting = h.waiting := by
  rw [waiting, waiting, hF, hM]

/-- `read_pos` has been moved over one more frame. -/
theorem waiting_move {m : Move} (hF : h'.frames = h.frames) (hM : h'.moves = h.moves ++ [m]) :
    h'.waiting = h.waiting.tail := by
  rw [waiting, waiting, hF, hM, List.length_append, List.length_singleton, List.tail_drop]

end History

namespace RingInv

variable {s : RingState}

/-- The bytes of the unread frames are those from `read_pos` on. -/
theorem sum_waiting (h : RingInv s) :
    (s.hist.waiting.map fun f => messageHeaderSize + f.length).sum + s.hist.readEnd =
      (framesBytes s.hist.frames).length := by
  obtain ⟨taken, rest, hF, hR, hM⟩ := h.exists_taken
  have hlen := congrArg List.length hM
  rw [List.length_map, List.length_map] at hlen
  have hwait : s.hist.waiting = rest := by
    rw [History.waiting, hF, hlen, List.drop_left]
  have hsum : (rest.map fun f => messageHeaderSize + f.length).sum = (framesBytes rest).length := by
    rw [framesBytes, List.length_flatMap]
    congr 1
    exact List.map_congr_left fun f _ => (length_frameBytes f).symm
  rw [hwait, hsum, hR, hF, framesBytes_append, List.length_append, Nat.add_comm]

/-- A producer that has just loaded `read_pos` and sees too little room is right. -/
theorem lacksRoom_of_available (h : RingInv s) {p : Payload} (hp : p.Valid) {write : UInt32}
    (hw : write = UInt32.ofNat (framesBytes s.hist.frames).length)
    (hfull : availableBytes write s.header.readPos < ((totalRequired p).toNat : ℤ)) :
    LacksRoom s.hist.waiting p := by
  have hroom := h.room
  have hsum := h.sum_waiting
  rw [hw, h.readPos, availableBytes_ofNat h.readEnd_le (by omega), toNat_totalRequired hp] at hfull
  refine .inr ?_
  omega

end RingInv

/-! ### From the test to the eviction -/

/-- What the ring needs of the consumer. -/
def LeavesFull (s : RingState) (l : RingLabel) : Prop := TakesFrame s l ∧ LeavesNoRoom s l

instance (s : RingState) (l : RingLabel) : Decidable (LeavesFull s l) :=
  inferInstanceAs (Decidable (_ ∧ _))

/-- The invariant of evictions: a producer that is about to evict has no frame to evict, or has a
reason to. -/
structure EvictInv (s : RingState) : Prop where
  count : CountInv (fun _ => False) s
  full : ∀ p ∈ s.writer.evictingFor, s.hist.waiting = [] ∨ LacksRoom s.hist.waiting p

namespace EvictInv

variable {s s' : RingState}

theorem init (h : FreshRing s) : EvictInv s := by
  refine ⟨.init h, ?_⟩
  obtain ⟨hd, st, generation, rfl⟩ := h
  rintro p ⟨⟩

/-- The unread frames stay, and the producer evicts for no other payload. -/
theorem quiet (h : EvictInv s) (hc : CountInv (fun _ => False) s')
    (hF : s'.hist.frames = s.hist.frames) (hM : s'.hist.moves = s.hist.moves)
    (hw : s'.writer.evictingFor = s.writer.evictingFor ∨ s'.writer.evictingFor = none) :
    EvictInv s' := by
  refine ⟨hc, fun p hp => ?_⟩
  rcases hw with hw | hw <;> rw [hw] at hp
  · rw [History.waiting_congr hF hM]
    exact h.full p hp
  · cases hp

/-- The producer begins to evict. -/
theorem evict (hc : CountInv (fun _ => False) s') (hF : s'.hist.frames = s.hist.frames)
    (hM : s'.hist.moves = s.hist.moves) {p : Payload}
    (hw : ∀ q ∈ s'.writer.evictingFor, q = p ∧ LacksRoom s.hist.waiting p) : EvictInv s' := by
  refine ⟨hc, fun q hq => .inr ?_⟩
  obtain ⟨rfl, hlack⟩ := hw q hq
  rw [History.waiting_congr hF hM]
  exact hlack

/-- The consumer takes the oldest frame. -/
theorem take (hc : CountInv (fun _ => False) s') {m : Move} (hF : s'.hist.frames = s.hist.frames)
    (hM : s'.hist.moves = s.hist.moves ++ [m]) (hw : s'.writer = s.writer)
    (hl : ∀ p ∈ s.writer.evictingFor,
      s.hist.waiting.tail = [] ∨ LacksRoom s.hist.waiting.tail p) : EvictInv s' := by
  refine ⟨hc, ?_⟩
  rw [History.waiting_move hF hM, hw]
  exact hl

theorem discardStep (h : EvictInv s) {p : Payload} {ov : UInt32} {d : Discard}
    (hw : s.writer = .discard p ov d) : EvictInv (s.discardStep p ov d) := by
  have hc := h.count.discardStep hw
  cases d with
  | loadRead | readLen0 => exact h.quiet hc rfl rfl (.inl (by rw [hw]; rfl))
  | loadWrite read =>
    rw [RingState.discardStep] at hc ⊢
    split_ifs at hc ⊢
    · exact h.quiet hc rfl rfl (.inr rfl)
    · exact h.quiet hc rfl rfl (.inl (by rw [hw]; rfl))
  | readLen1 read b₀ =>
    rw [RingState.discardStep] at hc ⊢
    split_ifs at hc ⊢
    · exact h.quiet hc rfl rfl (.inl (by rw [hw]; rfl))
    · exact h.quiet hc rfl rfl (.inr rfl)
  | compareExchange read msgLen =>
    rw [RingState.discardStep] at hc ⊢
    split_ifs at hc ⊢
    · exact ⟨hc, by rintro q ⟨⟩⟩
    · exact h.quiet hc rfl rfl (.inl (by rw [hw]; rfl))
  | subCount | addDrop => exact h.quiet hc rfl rfl (.inr rfl)

theorem writerStep (h : EvictInv s) (hl : LeavesNoRoom s .writer) (hst : s.writerStep = some s') :
    EvictInv s' := by
  have hc := h.count.writerStep hst
  have hok := h.count.ring.writer
  rw [RingState.writerStep] at hst
  cases hw : s.writer with
  | idle => simp [hw] at hst
  | loadWrite | addSequence =>
    simp only [hw] at hst
    cases hst
    exact h.quiet hc rfl rfl (.inr rfl)
  | loadRead p ov write =>
    simp only [hw] at hst hok
    cases hst
    refine evict (s := s) hc rfl rfl (p := p) fun q hq => ?_
    simp only [Writer.evictingFor] at hq
    split_ifs at hq with hfull
    · cases hq
      exact ⟨rfl, h.count.ring.lacksRoom_of_available hok.1 hok.2 hfull⟩
    · cases hq
  | loadCount p ov write read =>
    simp only [hw] at hst
    split_ifs at hst with hm h₀
    · cases hst
      exact h.quiet hc rfl rfl (.inr rfl)
    · cases hst
      rcases hm with hfull | hmany
      · refine h.quiet hc rfl rfl (.inl ?_)
        rw [hw]
        exact (if_pos hfull).symm
      · refine evict (s := s) hc rfl rfl (p := p) fun q hq => ?_
        cases hq
        refine ⟨rfl, (hl p (by rw [hw]; rfl) hmany).elim (fun hr => .inl ?_) id⟩
        -- `message_count` is the number of unread frames
        have hcount := h.count.count
        have hmany' : 500 ≤ s.header.messageCount.toNat := UInt32.le_iff_toNat_le.1 hmany
        rw [hw, hr] at hcount
        simp only [Writer.uncounted] at hcount
        rw [History.length_waiting]
        change 500 ≤ _
        omega
    · cases hst
      exact h.quiet hc rfl rfl (.inr rfl)
  | discard p ov d =>
    simp only [hw] at hst
    cases hst
    exact h.discardStep hw
  | copy p ov write k =>
    simp only [hw] at hst
    cases hst
    refine h.quiet hc rfl rfl (.inr ?_)
    dsimp only
    split_ifs <;> rfl
  | addCount p ov write =>
    simp only [hw] at hst
    cases hst
    exact ⟨hc, by rintro q ⟨⟩⟩
  | storeWrite p ov write prevCount =>
    simp only [hw] at hst
    split_ifs at hst <;> cases hst <;> exact h.quiet hc rfl rfl (.inr rfl)

theorem readerStep (h : EvictInv s) (hl : LeavesFull s .reader) (hst : s.readerStep = some s') :
    EvictInv s' := by
  have hc := h.count.readerStep hl.1 (fun _ _ _ hP => hP.elim) hst
  rw [RingState.readerStep] at hst
  cases hr : s.reader with
  | idle => simp [hr] at hst
  | loadRead | readLen0 | copy | addSequence =>
    simp only [hr] at hst
    cases hst
    exact h.quiet hc rfl rfl (.inl rfl)
  | loadCount | readLen1 | reload | subCount =>
    simp only [hr] at hst
    split_ifs at hst <;> cases hst <;> exact h.quiet hc rfl rfl (.inl rfl)
  | compareExchange a msgLen out =>
    simp only [hr] at hst
    split_ifs at hst with he
    · cases hst
      exact take (s := s) hc rfl rfl rfl (hl.2 (by rw [hr, he]; rfl))
    · cases hst
      exact h.quiet hc rfl rfl (.inl rfl)

theorem step (h : EvictInv s) {l : RingLabel} (hl : LeavesFull s l) (hst : s.step l = some s') :
    EvictInv s' := by
  have hc := h.count.step hl.1 (fun _ _ _ hP => hP.elim) hst
  cases l with
  | callWrite p =>
    rw [RingState.step] at hst
    cases hw : s.writer with
    | idle =>
      simp only [hw] at hst
      cases hst
      rw [RingState.callWrite] at hc ⊢
      split_ifs at hc ⊢
      · exact h.quiet hc rfl rfl (.inl rfl)
      · exact h.quiet hc rfl rfl (.inl rfl)
      · exact h.quiet hc rfl rfl (.inl rfl)
      · exact h.quiet hc rfl rfl (.inr rfl)
    | _ => simp [hw] at hst
  | callRead =>
    rw [RingState.step] at hst
    cases hr : s.reader with
    | idle =>
      simp only [hr] at hst
      cases hst
      exact h.quiet hc rfl rfl (.inl rfl)
    | _ => simp [hr] at hst
  | writer => exact h.writerStep hl.2 hst
  | reader => exact h.readerStep hl hst

/-- What `discard_oldest` finds at `read_pos` is a frame, and there is no room. -/
theorem evictsIfFull (h : EvictInv s) : EvictsIfFull s := by
  intro p ov read msgLen hw he
  have hok := h.count.ring.writer
  rw [hw] at hok
  obtain ⟨-, pos, f, hs, hf, -⟩ := hok
  have hpos := h.count.ring.readEnd_eq_seen hs he
  have hlt := History.frameAt_lt hf
  rw [length_frameBytes, ← hpos] at hlt
  refine (h.full p (by rw [hw]; rfl)).resolve_left fun hnil => ?_
  have hun := h.count.ring.unread_pos_iff.2 (by simp only [messageHeaderSize] at hlt; omega)
  rw [← History.length_waiting, hnil] at hun
  exact lt_irrefl _ hun

end EvictInv

namespace RingState

/-- **Nothing is evicted from a ring with room**, as long as the consumer makes no room between the
test of `write_message` and the eviction. -/
theorem evictsIfFull_of_leavesNoRoom {s : RingState} (h : ringSystem.ReachWhen LeavesFull s) :
    EvictsIfFull s :=
  (h.invariant (I := EvictInv) (fun _ => .init) fun _ _ _ hi hl hst =>
    hi.step hl hst).evictsIfFull

/-- A consumer that has not moved `read_pos` has taken nothing. -/
theorem readerStep_quiet {s s' : RingState} (hst : s.readerStep = some s')
    (hM : s'.hist.moves = s.hist.moves) :
    s.reader.taking ≠ some s.header.readPos ∧ s'.reader.uncounted = 0 := by
  rw [readerStep] at hst
  cases hr : s.reader with
  | compareExchange a msgLen out =>
    simp only [hr] at hst
    split_ifs at hst with he <;> cases hst
    · simp at hM
    · exact ⟨fun h => he (Option.some_inj.1 h).symm, rfl⟩
  | idle => simp [hr] at hst
  | copy a msgLen out =>
    simp only [hr] at hst
    cases hst
    refine ⟨by rintro ⟨⟩, ?_⟩
    dsimp only
    split_ifs <;> rfl
  | loadRead | readLen0 | addSequence =>
    simp only [hr] at hst
    cases hst
    exact ⟨by rintro ⟨⟩, rfl⟩
  | loadCount | readLen1 | reload | subCount =>
    simp only [hr] at hst
    split_ifs at hst <;> cases hst <;> exact ⟨by rintro ⟨⟩, rfl⟩

/-- Before `read_pos` has been moved at all, no room has been made. -/
theorem leavesFull_of_moves_nil {s : RingState} (h : ringSystem.Reach s) (hM : s.hist.moves = []) :
    ringSystem.ReachWhen LeavesFull s ∧ s.reader.uncounted = 0 := by
  induction h with
  | init h =>
    refine ⟨.init h, ?_⟩
    obtain ⟨hd, st, generation, rfl⟩ := h
    rfl
  | @step s s' l _ _ hst ih =>
    obtain ⟨ms, hms⟩ := moves_step hst
    have hM₀ : s.hist.moves = [] := (List.append_eq_nil_iff.1 (hms.symm.trans hM)).1
    obtain ⟨hs, hu⟩ := ih hM₀
    cases l with
    | reader =>
      obtain ⟨ht, hu'⟩ := readerStep_quiet hst (hM.trans hM₀.symm)
      refine ⟨.step (l := .reader) hs ⟨?_, fun h => absurd h ht⟩ hst, hu'⟩
      intro a n out _ hr he
      exact absurd (by rw [hr, he]; rfl) ht
    | writer =>
      have hring := ringInv_of_reachWhen (hs.mono fun _ _ h => h.1)
      refine ⟨.step (l := .writer) hs ⟨by rintro _ _ _ ⟨⟩, fun _ _ _ => .inl hu⟩ hst, ?_⟩
      rw [(hring.writerStep_progress hst).1]
      exact hu
    | callWrite p =>
      refine ⟨.step (l := .callWrite p) hs ⟨by rintro _ _ _ ⟨⟩, trivial⟩ hst, ?_⟩
      simp only [ringSystem, step] at hst
      split at hst <;> cases hst
      rw [callWrite]
      split_ifs <;> exact hu
    | callRead =>
      refine ⟨.step (l := .callRead) hs ⟨by rintro _ _ _ ⟨⟩, trivial⟩ hst, ?_⟩
      simp only [ringSystem, step] at hst
      split at hst <;> cases hst
      rfl

/-- The producer finds 500 messages queued and decides to evict; the consumer reads `k` of them; the
producer goes on to its `compare_exchange`. -/
theorem exists_oldest {k : ℕ} (hk : k ≤ 499) : ∃ s n, ringSystem.Reach s ∧
    s.writer = .discard [1, 2] 0 (.compareExchange s.header.readPos n) ∧ s.hist.moves.length = k ∧
    s.hist.waiting = List.replicate (500 - k) [1, 2] := by
  obtain ⟨s, hs, hw, -, -, hlen, hF⟩ := exists_drained hk
  have hrep := hs.represents
  rw [show 500 - k = 499 - k + 1 by omega, List.replicate_succ] at hrep
  obtain ⟨r', hdis, -⟩ := hrep.discardOldest
  obtain ⟨n, -, hsolo, -⟩ := solo_oldest hw hdis
  refine ⟨_, n, hsolo.reach hs.reach, rfl, hlen, ?_⟩
  change s.hist.waiting = _
  rw [History.waiting, hF, hlen, List.drop_replicate]

theorem evictsIfFull_of_leavesNoRoom_oldest : ∃ s n,
    s.writer = .discard [1, 2] 0 (.compareExchange s.header.readPos n) ∧
      s.hist.waiting.length = 500 ∧ EvictsIfFull s := by
  obtain ⟨s, n, h, hw, hlen, hwait⟩ := exists_oldest (Nat.zero_le 499)
  refine ⟨s, n, hw, by rw [hwait, List.length_replicate], ?_⟩
  exact evictsIfFull_of_leavesNoRoom (leavesFull_of_moves_nil h (List.length_eq_zero_iff.1 hlen)).1

/-- The failing run: after the producer has seen 500 messages, the consumer reads one of them, and
the producer still evicts one. -/
theorem not_evictsIfFull : ¬ ∀ s, ringSystem.Reach s → EvictsIfFull s := by
  intro h
  obtain ⟨s, n, hs, hw, -, hwait⟩ := exists_oldest (k := 1) (by decide)
  have hlack := h s hs _ _ _ _ hw rfl
  rw [hwait] at hlack
  exact absurd hlack (by decide +kernel)

end RingState

end Xshm
