import Xshm.Ring.Consumers

/-!
# The message count of a shared ring

`message_count` is changed by both sides: the producer adds to it before it moves `write_pos`, and
whoever moves `read_pos` takes from it afterwards.  As long as the consumer takes only frames that
were counted (`TakesFrame`), it is the number of unread frames and one more for each side that has
moved `read_pos` and not come to its `fetch_sub` (`CountInv.count`).

The producer decides to evict before it looks for the oldest frame.  If the consumer does not take
the last frame in between (`NotDrained`), then `write_message` fails only by its checks on the
length of the payload (`RingState.sendsOk_of_notDrained`).
-/

namespace Xshm

open Circular

/-! ### What is in flight -/

/-- `discard_oldest` has not moved `read_pos` yet. -/
def Discard.searching : Discard → Bool
  | .subCount | .addDrop => false
  | _ => true

namespace Writer

/-- The frame that the producer has evicted but not taken off `message_count`. -/
def uncounted : Writer → ℕ
  | .discard _ _ .subCount => 1
  | _ => 0

/-- `overwritten`, the local counter of `write_message`. -/
def overwritten : Writer → UInt32
  | .idle => 0
  | .loadWrite _ ov | .loadRead _ ov _ | .loadCount _ ov _ _ | .discard _ ov _ | .copy _ ov _ _
  | .addCount _ ov _ | .storeWrite _ ov _ _ | .addSequence ov _ => ov

/-- The producer has found room. -/
def filling : Writer → Bool
  | .copy .. | .addCount .. => true
  | _ => false

/-- The producer has seen too little room, or is looking for the oldest frame to evict it. -/
def evicting : Writer → Bool
  | .loadCount p _ write read => decide (availableBytes write read < ((totalRequired p).toNat : ℤ))
  | .discard _ _ d => d.searching
  | _ => false

end Writer

/-- The frame that the consumer has taken but not taken off `message_count`. -/
def Reader.uncounted : Reader → ℕ
  | .subCount .. => 1
  | _ => 0

namespace History

/-- The frames that have been counted and not moved over. -/
def unread (h : History) : ℕ := h.frames.length - h.moves.length

end History

/-- While the producer, having evicted `P` frames, is about to evict another, the consumer does
not take the last frame. -/
def NotDrained (P : UInt32 → Prop) (s : RingState) (l : RingLabel) : Prop :=
  l = .reader → s.reader.taking = some s.header.readPos →
    s.writer.evicting = true → P s.writer.overwritten → 1 < s.hist.unread

instance (P : UInt32 → Prop) [DecidablePred P] (s : RingState) (l : RingLabel) :
    Decidable (NotDrained P s l) :=
  inferInstanceAs (Decidable (_ → _ → _ → _ → _))

/-! ### The count -/

namespace RingInv

variable {s : RingState}

theorem moves_le (h : RingInv s) : s.hist.moves.length ≤ s.hist.frames.length := by
  obtain ⟨taken, rest, hF, hM⟩ := h.moves
  have hlen := congrArg List.length hM
  rw [List.length_map, List.length_map] at hlen
  rw [hF, List.length_append]
  omega

/-- `read_pos` has not reached the end of the stream only while a frame is unread. -/
theorem unread_pos_iff (h : RingInv s) :
    0 < s.hist.unread ↔ s.hist.readEnd < (framesBytes s.hist.frames).length := by
  obtain ⟨taken, rest, hF, hR, hM⟩ := h.exists_taken
  have hlen := congrArg List.length hM
  rw [List.length_map, List.length_map] at hlen
  rw [History.unread, hR, hF, hlen, List.length_append, framesBytes_append, List.length_append]
  cases rest with
  | nil => simp
  | cons p rest => simp [messageHeaderSize]

/-- There is less room than the capacity only while a frame is unread. -/
theorem unread_pos_of_full (h : RingInv s) {p : Payload} (hp : p.Valid) {write : UInt32}
    (hw : write = UInt32.ofNat (framesBytes s.hist.frames).length)
    (hfull : availableBytes write s.header.readPos < ((totalRequired p).toNat : ℤ)) :
    0 < s.hist.unread := by
  have hroom := h.room
  have hcap := hp.length_frameBytes_le
  rw [hw, h.readPos, availableBytes_ofNat h.readEnd_le (by omega), toNat_totalRequired hp,
    ← length_frameBytes] at hfull
  rw [h.unread_pos_iff]
  omega

end RingInv

/-- The invariant of `message_count`: it is exact but for what is in flight, and a producer that
is about to evict has a frame to evict. -/
structure CountInv (P : UInt32 → Prop) (s : RingState) : Prop where
  ring : RingInv s
  count : s.header.messageCount.toNat =
    s.hist.unread + s.writer.uncounted + s.reader.uncounted
  count_le : s.header.messageCount.toNat ≤ 500
  filling : s.writer.filling = true → s.header.messageCount.toNat < 500
  evicting : s.writer.evicting = true → P s.writer.overwritten → 0 < s.hist.unread

namespace CountInv

variable {P : UInt32 → Prop} {s s' : RingState}

theorem init (h : FreshRing s) : CountInv P s := by
  have hring := ringInv_of_freshRing h
  obtain ⟨hd, st, generation, rfl⟩ := h
  exact ⟨hring, rfl, Nat.zero_le _, Bool.noConfusion, Bool.noConfusion⟩

/-- A step that changes neither `message_count` nor the history of the ring. -/
theorem quiet (h : CountInv P s) (hring : RingInv s')
    (hc : s'.header.messageCount = s.header.messageCount)
    (hF : s'.hist.frames = s.hist.frames) (hM : s'.hist.moves = s.hist.moves)
    (hw : s'.writer.uncounted = s.writer.uncounted)
    (hr : s'.reader.uncounted = s.reader.uncounted)
    (hfill : s'.writer.filling = true → s.header.messageCount.toNat < 500)
    (hev : s'.writer.evicting = true → P s'.writer.overwritten → 0 < s.hist.unread) :
    CountInv P s' := by
  have hun : s'.hist.unread = s.hist.unread := by rw [History.unread, History.unread, hF, hM]
  refine ⟨hring, ?_, ?_, ?_, ?_⟩
  · rw [hc, hun, hw, hr]
    exact h.count
  · rw [hc]
    exact h.count_le
  · rw [hc]
    exact hfill
  · rw [hun]
    exact hev

/-- A side that has moved `read_pos` finds a `message_count` that is not zero. -/
theorem messageCount_ne_zero (h : CountInv P s)
    (hu : 0 < s.writer.uncounted + s.reader.uncounted) : s.header.messageCount ≠ 0 := by
  intro h₀
  have hcount := h.count
  rw [h₀] at hcount
  change 0 = _ at hcount
  omega

/-- `read_pos` has been moved over one more frame. -/
theorem unread_move {m : Move} (hF : s'.hist.frames = s.hist.frames)
    (hM : s'.hist.moves = s.hist.moves ++ [m]) : s'.hist.unread = s.hist.unread - 1 := by
  rw [History.unread, History.unread, hF, hM, List.length_append, List.length_singleton,
    Nat.sub_add_eq]

/-- The consumer, or the producer, moves `read_pos` and has yet to lower `message_count`. -/
theorem move (h : CountInv P s) (hring : RingInv s') {m : Move}
    (hc : s'.header.messageCount = s.header.messageCount)
    (hF : s'.hist.frames = s.hist.frames) (hM : s'.hist.moves = s.hist.moves ++ [m])
    (hu : s'.writer.uncounted + s'.reader.uncounted =
      s.writer.uncounted + s.reader.uncounted + 1)
    (hfill : s'.writer.filling = true → s.writer.filling = true)
    (hev : s'.writer.evicting = true → P s'.writer.overwritten → 1 < s.hist.unread) :
    CountInv P s' := by
  have hun := unread_move hF hM
  have hcount := h.count
  have hpos : 0 < s.hist.unread := by
    have hle := hring.moves_le
    rw [hF, hM, List.length_append, List.length_singleton] at hle
    rw [History.unread]
    omega
  refine ⟨hring, ?_, ?_, ?_, ?_⟩
  · rw [hc, hun]
    omega
  · rw [hc]
    exact h.count_le
  · intro hf
    rw [hc]
    exact h.filling (hfill hf)
  · intro he hp
    rw [hun]
    have := hev he hp
    omega

/-- Whoever has moved `read_pos` lowers `message_count`. -/
theorem lower (h : CountInv P s) (hring : RingInv s')
    (hc : s'.header.messageCount = s.header.messageCount - 1)
    (hF : s'.hist.frames = s.hist.frames) (hM : s'.hist.moves = s.hist.moves)
    (hu : s'.writer.uncounted + s'.reader.uncounted + 1 =
      s.writer.uncounted + s.reader.uncounted)
    (hfill : s'.writer.filling = true → s.writer.filling = true)
    (hev : s'.writer.evicting = true → s.writer.evicting = true)
    (hov : s'.writer.overwritten = s.writer.overwritten) : CountInv P s' := by
  have hun : s'.hist.unread = s.hist.unread := by rw [History.unread, History.unread, hF, hM]
  have hcount := h.count
  have hle := h.count_le
  have hsub : s'.header.messageCount.toNat = s.header.messageCount.toNat - 1 := by
    have hlt := s.header.messageCount.toNat_lt
    rw [hc, UInt32.toNat_sub, UInt32.toNat_one]
    omega
  refine ⟨hring, by omega, by omega, ?_, ?_⟩
  · intro hf
    have := h.filling (hfill hf)
    omega
  · rw [hun, hov]
    exact fun he => h.evicting (hev he)

/-- A producer that has found room counts its frame. -/
theorem count_frame (h : CountInv P s) (hring : RingInv s') {p : Payload} {ov write : UInt32}
    (hw : s.writer = .addCount p ov write) {prevCount : UInt32}
    (hw' : s'.writer = .storeWrite p ov write prevCount)
    (hc : s'.header.messageCount = s.header.messageCount + 1)
    (hF : s'.hist.frames = s.hist.frames ++ [p]) (hM : s'.hist.moves = s.hist.moves)
    (hr : s'.reader = s.reader) : CountInv P s' := by
  have hlt := h.filling (by rw [hw]; rfl)
  have hcount := h.count
  have hle := h.ring.moves_le
  have hadd : s'.header.messageCount.toNat = s.header.messageCount.toNat + 1 := by
    rw [hc, UInt32.toNat_add, UInt32.toNat_one]
    omega
  have hun : s'.hist.unread = s.hist.unread + 1 := by
    rw [History.unread, History.unread, hF, hM, List.length_append, List.length_singleton]
    omega
  rw [hw] at hcount
  refine ⟨hring, ?_, by omega, ?_, ?_⟩
  · rw [hadd, hun, hw', hr]
    simp only [Writer.uncounted] at hcount ⊢
    omega
  · rw [hw']
    exact Bool.noConfusion
  · rw [hw']
    exact Bool.noConfusion

theorem discardStep (h : CountInv P s) {p : Payload} {ov : UInt32} {d : Discard}
    (hw : s.writer = .discard p ov d) : CountInv P (s.discardStep p ov d) := by
  have hring := h.ring.discardStep hw
  have hev := h.evicting
  rw [hw] at hev
  cases d with
  | loadRead | readLen0 =>
    exact h.quiet hring rfl rfl rfl (by rw [hw]; rfl) rfl Bool.noConfusion hev
  | loadWrite read =>
    rw [RingState.discardStep] at hring ⊢
    split_ifs at hring ⊢
    · exact h.quiet hring rfl rfl rfl (by rw [hw]; rfl) rfl Bool.noConfusion Bool.noConfusion
    · exact h.quiet hring rfl rfl rfl (by rw [hw]; rfl) rfl Bool.noConfusion hev
  | readLen1 read b₀ =>
    rw [RingState.discardStep] at hring ⊢
    split_ifs at hring ⊢
    · exact h.quiet hring rfl rfl rfl (by rw [hw]; rfl) rfl Bool.noConfusion hev
    · exact h.quiet hring rfl rfl rfl (by rw [hw]; rfl) rfl Bool.noConfusion Bool.noConfusion
  | compareExchange read msgLen =>
    rw [RingState.discardStep] at hring ⊢
    split_ifs at hring ⊢
    · refine h.move hring (m := .evict msgLen) rfl rfl rfl ?_ Bool.noConfusion Bool.noConfusion
      rw [hw]
      simp only [Writer.uncounted]
      omega
    · exact h.quiet hring rfl rfl rfl (by rw [hw]; rfl) rfl Bool.noConfusion hev
  | subCount =>
    refine h.lower hring rfl rfl rfl ?_ Bool.noConfusion Bool.noConfusion (by rw [hw]; rfl)
    rw [hw]
    simp only [RingState.discardStep, Writer.uncounted]
    omega
  | addDrop =>
    exact h.quiet hring rfl rfl rfl (by rw [hw]; rfl) rfl Bool.noConfusion Bool.noConfusion

theorem writerStep (h : CountInv P s) (hst : s.writerStep = some s') : CountInv P s' := by
  have hring := h.ring.writerStep hst
  have hok := h.ring.writer
  rw [RingState.writerStep] at hst
  cases hw : s.writer with
  | idle => simp [hw] at hst
  | loadWrite p ov =>
    simp only [hw] at hst
    cases hst
    exact h.quiet hring rfl rfl rfl (by rw [hw]; rfl) rfl Bool.noConfusion Bool.noConfusion
  | loadRead p ov write =>
    simp only [hw] at hst hok
    cases hst
    refine h.quiet hring rfl rfl rfl (by rw [hw]; rfl) rfl Bool.noConfusion ?_
    intro he _
    exact h.ring.unread_pos_of_full hok.1 hok.2 (of_decide_eq_true he)
  | loadCount p ov write read =>
    simp only [hw] at hst
    split_ifs at hst with hm hc
    · cases hst
      exact h.quiet hring rfl rfl rfl (by rw [hw]; rfl) rfl Bool.noConfusion Bool.noConfusion
    · cases hst
      refine h.quiet hring rfl rfl rfl (by rw [hw]; rfl) rfl Bool.noConfusion ?_
      intro _ hp
      rcases hm with hfull | hmany
      · exact h.evicting (by rw [hw]; exact decide_eq_true hfull) (by rw [hw]; exact hp)
      · -- at most one of the frames in `message_count` is in flight
        have hcount := h.count
        have hmany' : 500 ≤ s.header.messageCount.toNat := UInt32.le_iff_toNat_le.1 hmany
        have hr : s.reader.uncounted ≤ 1 := by
          cases s.reader <;> simp [Reader.uncounted]
        rw [hw] at hcount
        simp only [Writer.uncounted] at hcount
        change 0 < s.hist.unread
        omega
    · cases hst
      refine h.quiet hring rfl rfl rfl (by rw [hw]; rfl) rfl ?_ Bool.noConfusion
      intro _
      rw [MustEvict, not_or] at hm
      have := UInt32.lt_iff_toNat_lt.1 (UInt32.not_le.1 hm.2)
      exact this
  | discard p ov d =>
    simp only [hw] at hst
    cases hst
    exact h.discardStep hw
  | copy p ov write k =>
    have hfill := h.filling (by rw [hw]; rfl)
    simp only [hw] at hst
    cases hst
    refine h.quiet hring rfl rfl rfl ?_ rfl (fun _ => hfill) ?_
    · rw [hw]
      dsimp only
      split_ifs <;> rfl
    · dsimp only
      split_ifs <;> exact Bool.noConfusion
  | addCount p ov write =>
    simp only [hw] at hst
    cases hst
    exact h.count_frame hring hw rfl rfl rfl rfl rfl
  | storeWrite p ov write prevCount =>
    simp only [hw] at hst
    split_ifs at hst <;> cases hst <;>
      exact h.quiet hring rfl rfl rfl (by rw [hw]; rfl) rfl Bool.noConfusion Bool.noConfusion
  | addSequence ov prevCount =>
    simp only [hw] at hst
    cases hst
    exact h.quiet hring rfl rfl rfl (by rw [hw]; rfl) rfl Bool.noConfusion Bool.noConfusion

/-- The consumer changes only its own locals. -/
theorem reader_quiet (h : CountInv P s) (hring : RingInv s')
    (hc : s'.header.messageCount = s.header.messageCount)
    (hF : s'.hist.frames = s.hist.frames) (hM : s'.hist.moves = s.hist.moves)
    (hw : s'.writer = s.writer) (hr : s'.reader.uncounted = s.reader.uncounted) :
    CountInv P s' := by
  refine h.quiet hring hc hF hM (by rw [hw]) hr ?_ ?_
  · rw [hw]
    exact h.filling
  · rw [hw]
    exact h.evicting

theorem readerStep (h : CountInv P s) (ht : TakesFrame s .reader) (hd : NotDrained P s .reader)
    (hst : s.readerStep = some s') : CountInv P s' := by
  have hring := h.ring.readerStep ht hst
  rw [RingState.readerStep] at hst
  cases hr : s.reader with
  | idle => simp [hr] at hst
  | loadRead | readLen0 | addSequence =>
    simp only [hr] at hst
    cases hst
    exact h.reader_quiet hring rfl rfl rfl rfl (by rw [hr]; rfl)
  | loadCount | readLen1 | reload =>
    simp only [hr] at hst
    split_ifs at hst <;> cases hst <;>
      exact h.reader_quiet hring rfl rfl rfl rfl (by rw [hr]; rfl)
  | copy a msgLen out =>
    simp only [hr] at hst
    cases hst
    refine h.reader_quiet hring rfl rfl rfl rfl ?_
    rw [hr]
    dsimp only
    split_ifs <;> rfl
  | compareExchange a msgLen out =>
    simp only [hr] at hst
    split_ifs at hst with he
    · cases hst
      refine h.move hring (m := .take msgLen out) rfl rfl rfl ?_ id ?_
      · rw [hr]
        simp only [Reader.uncounted]
      · exact hd rfl (by rw [hr, he]; rfl)
    · cases hst
      exact h.reader_quiet hring rfl rfl rfl rfl (by rw [hr]; rfl)
  | subCount msgLen out =>
    have hu : s.reader.uncounted = 1 := by rw [hr]; rfl
    simp only [hr] at hst
    split_ifs at hst <;> cases hst
    · exact h.lower hring rfl rfl rfl (by rw [hu]; rfl) id id rfl
    · exact h.lower hring rfl rfl rfl (by rw [hu]; rfl) id id rfl

/-- **A step at which the consumer leaves a frame for the producer keeps the count.** -/
theorem step (h : CountInv P s) {l : RingLabel} (ht : TakesFrame s l) (hd : NotDrained P s l)
    (hst : s.step l = some s') : CountInv P s' := by
  have hring := h.ring.step ht hst
  cases l with
  | callWrite p =>
    rw [RingState.step] at hst
    cases hw : s.writer with
    | idle =>
      simp only [hw] at hst
      cases hst
      rw [RingState.callWrite] at hring ⊢
      split_ifs at hring ⊢
      · exact h.quiet hring rfl rfl rfl rfl rfl h.filling h.evicting
      · exact h.quiet hring rfl rfl rfl rfl rfl h.filling h.evicting
      · exact h.quiet hring rfl rfl rfl rfl rfl h.filling h.evicting
      · exact h.quiet hring rfl rfl rfl (by rw [hw]; rfl) rfl Bool.noConfusion Bool.noConfusion
    | _ => simp [hw] at hst
  | callRead =>
    rw [RingState.step] at hst
    cases hr : s.reader with
    | idle =>
      simp only [hr] at hst
      cases hst
      exact h.reader_quiet hring rfl rfl rfl rfl (by rw [hr]; rfl)
    | _ => simp [hr] at hst
  | writer => exact h.writerStep hst
  | reader => exact h.readerStep ht hd hst

/-! ### What `write_message` returns -/

/-- A producer that has a frame to evict gets no error from `discard_oldest`. -/
theorem discardStep_results (h : CountInv P s) {p : Payload} {ov : UInt32} {d : Discard}
    (hw : s.writer = .discard p ov d) :
    (s.discardStep p ov d).hist.writes = s.hist.writes ∨
      ¬ P ov ∧ ∃ e, (s.discardStep p ov d).hist.writes = s.hist.writes ++ [.error e] := by
  have hstored : s.writer.stored = [] := by rw [hw]; rfl
  have hok := h.ring.writer
  have hev := h.evicting
  rw [hw] at hok hev
  cases d with
  | loadRead | readLen0 | subCount | addDrop => exact .inl rfl
  | loadWrite read =>
    obtain ⟨-, pos, hs, -⟩ := hok
    rw [RingState.discardStep]
    split_ifs with he
    · refine .inr ⟨fun hp => ?_, _, rfl⟩
      -- a frame begins behind every earlier value of `read_pos`
      have hlt := h.ring.unread_pos_iff.1 (hev rfl hp)
      have hpos := h.ring.writePos
      have hcap : ringCapacity < 2 ^ 32 := by decide
      have hle := hs.2.1
      have hlap := hs.2.2
      rw [hw, ← he, hs.1] at hpos
      simp only [Writer.unpublished, Nat.sub_zero] at hpos
      have := ofNat_inj_of_lt (by omega) (by omega) hpos.symm
      omega
    · exact .inl rfl
  | readLen1 read b₀ =>
    obtain ⟨-, pos, f, hs, hf, h₀⟩ := hok
    have hvalid : LengthOk f.length := h.ring.valid_of_frameAt hf
    left
    rw [RingState.discardStep, h.ring.decodeLen_seen hstored hs hf h₀]
    simp only [hvalid, not_true_eq_false, ↓reduceIte]
  | compareExchange read msgLen =>
    left
    rw [RingState.discardStep]
    split_ifs <;> rfl

/-- A producer that has evicted `P` frames gets no error. -/
theorem writerStep_results (h : CountInv P s) (hst : s.writerStep = some s') :
    s'.hist.writes = s.hist.writes ∨ (∃ o, s'.hist.writes = s.hist.writes ++ [.ok o]) ∨
      ¬ P s.writer.overwritten ∧ ∃ e, s'.hist.writes = s.hist.writes ++ [.error e] := by
  rw [RingState.writerStep] at hst
  cases hw : s.writer with
  | idle => simp [hw] at hst
  | loadWrite | loadRead | copy | addCount =>
    simp only [hw] at hst
    cases hst
    exact .inl rfl
  | loadCount p ov write read =>
    simp only [hw] at hst
    split_ifs at hst with hm hc
    · cases hst
      refine .inr (.inr ⟨fun hp => ?_, _, rfl⟩)
      -- no message is left, but the producer has seen too little room
      have hcount := h.count
      rw [hc] at hcount
      change 0 = _ at hcount
      rcases hm with hfull | hmany
      · have := h.evicting (by rw [hw]; exact decide_eq_true hfull) (by rw [hw]; exact hp)
        omega
      · rw [hc] at hmany
        exact absurd hmany (by decide)
    · cases hst
      exact .inl rfl
    · cases hst
      exact .inl rfl
  | discard p ov d =>
    simp only [hw] at hst
    cases hst
    rcases h.discardStep_results hw with hres | hres
    · exact .inl hres
    · exact .inr (.inr hres)
  | storeWrite p ov write prevCount =>
    simp only [hw] at hst
    split_ifs at hst <;> cases hst
    · exact .inl rfl
    · exact .inr (.inl ⟨_, rfl⟩)
  | addSequence ov prevCount =>
    simp only [hw] at hst
    cases hst
    exact .inr (.inl ⟨_, rfl⟩)

end CountInv

/-- At this step no `write_message` fails, but for its checks on the length of the payload. -/
def SendsOk (s : RingState) (l : RingLabel) (s' : RingState) : Prop :=
  ∀ e, s'.hist.writes = s.hist.writes ++ [.error e] → ∃ p, l = .callWrite p ∧ ¬ p.Valid

theorem CountInv.sendsOk {s s' : RingState} {l : RingLabel} (h : CountInv (fun _ => True) s)
    (hst : ringSystem.step s l = some s') : SendsOk s l s' := by
  intro e he
  cases l with
  | callWrite p =>
    refine ⟨p, rfl, fun hp => ?_⟩
    simp only [ringSystem, RingState.step] at hst
    split at hst
    · cases hst
      have hmin : ¬ p.length < minMessageSize := not_lt.2 hp.1
      have hmax : ¬ maxMessageSize < p.length := not_lt.2 hp.2
      simp [RingState.callWrite, hmin, hmax, not_capacity_lt_totalRequired hp] at he
    · cases hst
  | callRead =>
    simp only [ringSystem, RingState.step] at hst
    split at hst <;> cases hst
    simp at he
  | writer =>
    rcases h.writerStep_results hst with hres | ⟨o, hres⟩ | ⟨hp, -⟩
    · simp [hres] at he
    · simp [hres] at he
    · exact absurd trivial hp
  | reader =>
    have hw : s'.hist.writes = s.hist.writes := by
      simp only [ringSystem, RingState.step, RingState.readerStep] at hst
      cases hr : s.reader <;> simp only [hr] at hst
      case idle => cases hst
      all_goals first | (cases hst; rfl) | (split_ifs at hst <;> cases hst <;> rfl)
    simp [hw] at he

namespace RingState

/-- **Valid sends do not fail.**  While the consumer takes only counted frames, and never the last
one of a ring from which the producer is about to evict, `write_message` fails only for payloads
that are too short or too long. -/
theorem sendsOk_of_notDrained {s s' : RingState} {l : RingLabel}
    (h : ringSystem.ReachWhen (fun s l => TakesFrame s l ∧ NotDrained (fun _ => True) s l) s)
    (hst : ringSystem.step s l = some s') : SendsOk s l s' :=
  (h.invariant (I := CountInv fun _ => True) (fun _ => CountInv.init) fun _ _ _ hi hc hst =>
    hi.step hc.1 hc.2 hst).sendsOk hst

/-! A run with evictions. -/

/-- What the run keeps. -/
structure Undrained (s : RingState) : Prop where
  reach : ringSystem.ReachWhen (fun s l => TakesFrame s l ∧ NotDrained (fun _ => True) s l) s
  consumer : ConsumerInv s

namespace Undrained

variable {s s' : RingState}

/-- The producer runs alone. -/
theorem solo_writer (h : Undrained s) (hsolo : ringSystem.Solo .writer s s') :
    Undrained s' ∧ s'.reader = s.reader := by
  induction hsolo with
  | refl => exact ⟨h, rfl⟩
  | @step s s₁ s' hst _ ih =>
    have hC : TakesFrame s .writer ∧ NotDrained (fun _ => True) s .writer :=
      ⟨by rintro a n out ⟨⟩, by rintro ⟨⟩⟩
    obtain ⟨h', hrd⟩ := ih ⟨h.reach.step hC hst, (h.consumer.writerStep hst).1⟩
    exact ⟨h', hrd.trans (h.consumer.ring.writerStep_progress hst).1⟩

theorem callWrite (h : Undrained s) (hw : s.writer = .idle) (p : Payload) :
    Undrained (s.callWrite p) :=
  ⟨h.reach.step (l := .callWrite p) ⟨by rintro a n out ⟨⟩, by rintro ⟨⟩⟩
    (by simp only [ringSystem, step, hw]), (h.consumer.callWrite hw p).1⟩

/-- The consumer runs alone, and leaves a frame. -/
theorem solo_reader (h : Undrained s) (hsolo : ringSystem.Solo .reader s s')
    (hend : s'.hist.readEnd < 2 ^ 32) (hm : s'.hist.moves.length < s.hist.frames.length) :
    Undrained s' := by
  induction hsolo with
  | refl => exact h
  | @step s s₁ s' hst hsolo ih =>
    obtain ⟨ms, hms⟩ := moves_step hst
    obtain ⟨ms', hms'⟩ := moves_solo hsolo
    have hle : s.hist.readEnd ≤ s'.hist.readEnd := by
      rw [History.readEnd, History.readEnd, hms', hms, List.append_assoc, List.map_append,
        List.sum_append]
      exact Nat.le_add_right ..
    rw [hms', hms, List.length_append, List.length_append] at hm
    have hshort : ShortAttempt s .reader := fun a _ => by omega
    have hun : FrameUnread s .reader := fun _ _ => by omega
    have hdrained : NotDrained (fun _ => True) s .reader := by
      intro _ htake _ _
      have hlen := moves_of_taking htake hst
      rw [hms, List.length_append] at hlen
      rw [History.unread]
      omega
    obtain ⟨⟨hi, -⟩, -, hF, -⟩ := h.consumer.readerStep hshort hun hst
    refine ih ⟨h.reach.step ⟨h.consumer.ring.takesFrame h.consumer.attempt hshort, hdrained⟩ hst,
      hi⟩ hend ?_
    rw [hF, hms', hms, List.length_append, List.length_append]
    exact hm

/-- The consumer reads the oldest message, and leaves one. -/
theorem readMessage (h : Undrained s) (hr : s.reader = .idle) {q : Payload} {Q : List Payload}
    {n : ℕ} (hrep : Represents s.ring (q :: Q) n)
    (hm : s.hist.moves.length + 1 < s.hist.frames.length)
    (hend : s.hist.readEnd + (messageHeaderSize + q.length) < 2 ^ 32) :
    ∃ s', Undrained s' ∧ s'.reader = .idle ∧ Represents s'.ring Q n ∧ s'.writer = s.writer ∧
      s'.hist.moves = s.hist.moves ++ [.take q.length q] ∧ s'.hist.frames = s.hist.frames := by
  obtain ⟨r', hread, hrep'⟩ := hrep.readMessage_cons []
  obtain ⟨s₁, hstep, hsolo, hring⟩ := solo_readMessage hr
  rw [hread] at hring
  have hres : s.readResult = .ok (q.length, q) := by
    rw [readResult, hread]
    rfl
  have hM : s.readDone.hist.moves = s.hist.moves ++ [.take q.length q] := by
    rw [readDone, hres]
    rfl
  have hs₁ : s₁ = { s with reader := .loadCount } := by
    simp only [ringSystem, step, hr] at hstep
    exact (Option.some.inj hstep).symm
  subst hs₁
  have h₁ : Undrained { s with reader := .loadCount } :=
    ⟨h.reach.step (l := .callRead) ⟨by rintro a n out ⟨⟩, by rintro ⟨⟩⟩ hstep,
      h.consumer.rest rfl⟩
  refine ⟨s.readDone, h₁.solo_reader hsolo ?_ ?_, rfl, ?_, rfl, hM, rfl⟩
  · rw [History.readEnd, hM, List.map_append, List.sum_append]
    exact hend
  · rw [hM, List.length_append]
    exact hm
  · rw [hring]
    exact hrep'

end Undrained

/-- The producer alone queues a short message and up to 31 messages of the longest length. -/
theorem exists_filledUp {p : Payload} (hp : p.length = maxMessageSize) {n : ℕ} (hn : n ≤ 31) :
    ∃ s, Undrained s ∧ s.reader = .idle ∧ s.writer = .idle ∧
      Represents s.ring ([1, 2] :: List.replicate n p) 0 ∧ s.hist.moves = [] ∧
      s.hist.frames.length = n + 1 := by
  have write {s : RingState} {Q : List Payload} {q : Payload} (h : Undrained s)
      (hr : s.reader = .idle) (hw : s.writer = .idle) (hrep : Represents s.ring Q 0)
      (hq : q.Valid) (hfit : ringQueue.Fits Q q) :
      ∃ s', Undrained s' ∧ s'.reader = .idle ∧ s'.writer = .idle ∧
        Represents s'.ring (Q ++ [q]) 0 ∧ s'.hist.moves = s.hist.moves ∧
        s'.hist.frames = s.hist.frames ++ [q] := by
    have hcall := h.callWrite hw q
    rw [callWrite_of_valid hq] at hcall
    have hroom := (hrep.mustEvict_iff hq).not.2 (not_not.2 hfit)
    obtain ⟨h', hr'⟩ := hcall.solo_writer (solo_commit hq rfl hroom)
    exact ⟨_, h', hr'.trans hr, rfl, hrep.commit hq hfit 0, rfl, rfl⟩
  induction n with
  | zero =>
    have hzeroed : Undrained zeroed := ⟨.init freshRing_zeroed, .init rfl rfl rfl rfl rfl rfl⟩
    have hrep₀ : Represents zeroed.ring [] 0 := represents_reset ⟨⟨0, 0, 0, 0, 0, 0, 0⟩, _⟩ 1
    obtain ⟨s, h, hr, hw, hrep, hM, hF⟩ := write hzeroed rfl rfl hrep₀ (q := [1, 2]) (by decide)
      (by decide)
    exact ⟨s, h, hr, hw, hrep, hM, by rw [hF]; rfl⟩
  | succ n ih =>
    obtain ⟨s, h, hr, hw, hrep, hM, hF⟩ := ih (by omega)
    have hused : ringQueue.used ([1, 2] :: List.replicate n p) = 6 + 65539 * n := by
      rw [← length_framesBytes]
      simp [framesBytes, List.length_flatMap, messageHeaderSize, hp, maxMessageSize, Nat.mul_comm]
    have hfit : ringQueue.Fits ([1, 2] :: List.replicate n p) p := by
      refine ⟨?_, ?_⟩
      · rw [hused]
        simp only [ringQueue, ringCapacity, messageHeaderSize, hp, maxMessageSize]
        omega
      · simp only [List.length_cons, List.length_replicate, ringQueue]
        exact Nat.lt_of_le_of_lt (Nat.succ_le_of_lt hn) (by decide)
    obtain ⟨s', h', hr', hw', hrep', hM', hF'⟩ := write h hr hw hrep
      (q := p) ⟨by rw [hp]; decide, by rw [hp]⟩ hfit
    refine ⟨s', h', hr', hw', ?_, hM'.trans hM, ?_⟩
    · rw [List.replicate_succ']
      exact hrep'
    · rw [hF', List.length_append, hF]
      rfl

/-- For a message of the longest length the producer evicts the short one; while it is about to
evict a second one, the consumer takes the next; then the producer evicts another. -/
theorem exists_evictedTwice : ∃ s p n m, Undrained s ∧ s.writer = .discard p 1 .subCount ∧
    s.hist.moves = [.evict n, .take maxMessageSize p, .evict m] := by
  obtain ⟨p, hlen⟩ : ∃ p : Payload, p.length = maxMessageSize :=
    ⟨List.replicate maxMessageSize 7, List.length_replicate⟩
  have hp : p.Valid := ⟨by rw [hlen]; decide, by rw [hlen]⟩
  have hused (n : ℕ) : ringQueue.used (List.replicate n p) = 65539 * n := by
    rw [← length_framesBytes]
    simp [framesBytes, List.length_flatMap, messageHeaderSize, hlen, maxMessageSize, Nat.mul_comm]
  have hfull {Q : List Payload} (hQ : 65539 * 31 ≤ ringQueue.used Q) : ¬ ringQueue.Fits Q p := by
    rintro ⟨hfit, -⟩
    simp only [ringQueue, ringCapacity, messageHeaderSize, hlen, maxMessageSize] at hfit
    change ringQueue.used Q + _ ≤ _ at hfit
    omega
  obtain ⟨s, h, hr, hw, hrep, hM, hF⟩ := exists_filledUp hlen le_rfl
  have hne {r : Ring} {q : Payload} {Q : List Payload} {n : ℕ} (hrep : Represents r (q :: Q) n) :
      r.header.messageCount ≠ 0 := hrep.messageCount_eq_zero.not.2 (List.cons_ne_nil q Q)
  -- the first eviction
  have h₁ := h.callWrite hw p
  rw [callWrite_of_valid hp] at h₁
  have hm₁ := (hrep.mustEvict_iff hp).2 (hfull (by rw [DropOldest.used_cons, hused]; omega))
  obtain ⟨h₂, hr₂⟩ := h₁.solo_writer (solo_mustEvict rfl hm₁ (hne hrep))
  obtain ⟨r, hdis, hrep₂⟩ := hrep.discardOldest
  obtain ⟨n, hn, hevict, hring⟩ := solo_evict
    (s := { s with writer := .discard p 0 .loadRead }) rfl hdis
  obtain ⟨h₃, hr₃⟩ := h₂.solo_writer (hevict.trans (.step rfl (.single rfl)))
  rw [← hring] at hrep₂
  -- the producer has decided on the second, and the consumer takes a frame
  have hm₂ := (hrep₂.mustEvict_iff hp).2 (hfull (by rw [hused]))
  obtain ⟨h₄, hr₄⟩ := h₃.solo_writer (solo_mustEvict rfl hm₂ (hne hrep₂))
  have hM₄ : s.hist.moves ++ [.evict n] = [.evict n] := by rw [hM, List.nil_append]
  obtain ⟨s₅, h₅, -, hrep₅, hw₅, hM₅, -⟩ := h₄.readMessage (hr₄.trans (hr₃.trans (hr₂.trans hr)))
    hrep₂ (by
      change (s.hist.moves ++ [Move.evict n]).length + 1 < s.hist.frames.length
      rw [hM₄, hF, List.length_singleton]
      decide) (by
      change ((s.hist.moves ++ [Move.evict n]).map Move.size).sum + _ < _
      have hle := hn.2
      rw [hM₄, hlen]
      simp only [List.map_singleton, List.sum_singleton, Move.size, messageHeaderSize,
        maxMessageSize] at hle ⊢
      omega)
  obtain ⟨r', hdis', -⟩ := hrep₅.discardOldest
  obtain ⟨m, -, hevict', -⟩ := solo_evict hw₅ hdis'
  refine ⟨_, p, n, m, (h₅.solo_writer hevict').1, rfl, ?_⟩
  change s₅.hist.moves ++ [.evict m] = _
  rw [hM₅]
  change s.hist.moves ++ [.evict n] ++ [.take p.length p] ++ [.evict m] = _
  rw [hM₄, hlen]
  rfl

theorem sendsOk_of_notDrained_evictedTwice : ∃ s s' p n m, SendsOk s .writer s' ∧
    s'.hist.moves = [.evict n, .take maxMessageSize p, .evict m] := by
  obtain ⟨s, p, n, m, h, hw, hM⟩ := exists_evictedTwice
  have hst : ringSystem.step s .writer = some (s.discardStep p 1 .subCount) := by
    simp only [ringSystem, step, writerStep, hw]
  exact ⟨s, _, p, n, m, sendsOk_of_notDrained h.reach hst, hM⟩

/-- The failing run: between the decision of the producer to evict and its `discard_oldest` the
consumer reads all messages. -/
theorem not_sendsOk : ¬ ∀ s l s', ringSystem.Reach s → ringSystem.step s l = some s' →
    SendsOk s l s' := by
  intro h
  obtain ⟨s₀, hs₀, hw₀, -⟩ := exists_drained le_rfl
  obtain ⟨s, hs, hw, -⟩ := hs₀.readMessage
  rw [hw₀] at hw
  -- `read_pos` has caught up with `write_pos`
  have hend : s.header.readPos = s.header.writePos := by
    obtain ⟨past, hr, hwr, -⟩ := hs.represents.stream
    rw [List.replicate_zero, framesBytes_nil, List.append_nil] at hwr
    exact hr.trans hwr.symm
  have h₁ : ringSystem.Reach { s with writer := .discard [1, 2] 0 (.loadWrite s.header.readPos) } :=
    hs.reach.step (l := .writer) (by simp only [ringSystem, step, writerStep, hw]; rfl)
  obtain ⟨p, hl, -⟩ := h _ .writer _ h₁ (by
    simp only [ringSystem, step, writerStep, discardStep, hend, ↓reduceIte]
    rfl) .queueEmpty rfl
  cases hl

end RingState

end Xshm
