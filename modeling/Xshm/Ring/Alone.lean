import Xshm.Ring.Invariant

/-!
# A side that runs alone

If the producer makes all its accesses with no step of the consumer in between, then what
`write_message` does to the ring and returns is `Ring.writeMessage` of the ring it found; the same
for the consumer and `Ring.readMessage`.  So the machine of `Xshm.Ring.Machine` and the calls of
`Xshm.Ring.Sequential` are one program at two granularities.

## Main results

* `RingState.solo_writeMessage`, `RingState.solo_readMessage`
-/

namespace Xshm

open Circular

theorem maskIndex_eq (pos : UInt32) : maskIndex pos = pos.toNat % ringCapacity := by
  have := toNat_and_ringMask pos.toNat
  rwa [UInt32.ofNat_toNat] at this

/-- The two bytes of the length of a frame, read one at a time. -/
theorem decodeLen_eq_readU16 (st : Storage) (pos : UInt32) :
    decodeLen (st (wrapIndex (maskIndex pos) 0)) (st (wrapIndex (maskIndex pos) 1)) =
      (readU16 st (maskIndex pos)).toNat := by
  rw [maskIndex_eq, readU16_eq, wrapIndex_eq _ (Nat.zero_le _), wrapIndex_eq _ (by decide),
    Nat.mod_add_mod, Nat.mod_add_mod, decodeLen, Nat.add_zero]

/-- The first `n` bytes of the payload of the frame at `pos`, read one at a time. -/
def payloadBytes (st : Storage) (pos : UInt32) (n : ℕ) : Payload :=
  (List.range n).map fun k => st (payloadIndex (maskIndex pos) k)

@[simp] theorem length_payloadBytes (st : Storage) (pos : UInt32) (n : ℕ) :
    (payloadBytes st pos n).length = n := by
  simp [payloadBytes]

theorem payloadBytes_succ (st : Storage) (pos : UInt32) (n : ℕ) :
    payloadBytes st pos (n + 1) =
      payloadBytes st pos n ++ [st (payloadIndex (maskIndex pos) n)] := by
  simp [payloadBytes, List.range_succ]

theorem payloadBytes_eq_copyFromWrapped (st : Storage) (pos : UInt32) {n : ℕ} (hn : LengthOk n) :
    payloadBytes st pos n =
      copyFromWrapped st ((maskIndex pos + messageHeaderSize) &&& ringMask.toNat) n := by
  have hcap : n ≤ ringCapacity := hn.2.trans (by decide)
  rw [copyFromWrapped_eq _ _ _ hcap, and_ringMask, maskIndex_eq, payloadBytes]
  refine List.map_congr_left fun k hk => ?_
  rw [List.mem_range] at hk
  rw [maskIndex_eq, payloadIndex_eq _ (by omega), Nat.mod_add_mod, Nat.add_assoc, Nat.add_assoc,
    Nat.mod_add_mod]

namespace RingState

variable {s : RingState}

/-! ### The producer -/

theorem callWrite_of_valid {p : Payload} (hp : p.Valid) :
    s.callWrite p = { s with writer := .loadWrite p 0 } := by
  rw [callWrite, if_neg (not_lt.2 hp.1), if_neg (not_lt.2 hp.2),
    if_neg (not_capacity_lt_totalRequired hp)]

/-- The state after the producer has stored, counted and published its frame alone. -/
def committed (s : RingState) (p : Payload) (ov : UInt32) : RingState :=
  { s with
    header := (s.ring.commit p ov).2.header
    storage := (s.ring.commit p ov).2.storage
    writer := .idle
    hist := { s.hist with
      frames := s.hist.frames ++ [p]
      writes := s.hist.writes ++ [.ok (s.ring.commit p ov).1] } }

/-- The producer stores the next byte of its frame. -/
theorem step_copy {p : Payload} (hp : p.Valid) {ov write : UInt32} {k : ℕ}
    (hk : k < (frameBytes p).length) (hw : s.writer = .copy p ov write k) :
    ringSystem.step s .writer = some { s with
      storage := Function.update s.storage ((write.toNat + k) % ringCapacity) (frameBytes p)[k]
      writer := if k + 1 < (frameBytes p).length then .copy p ov write (k + 1)
        else .addCount p ov write } := by
  have hcap := hp.length_frameBytes_le
  have hidx : frameIndex (maskIndex write) k = (write.toNat + k) % ringCapacity := by
    rw [maskIndex_eq, frameIndex_eq _ (by omega)]
  have hget : (frameBytes p).getD k 0 = (frameBytes p)[k] := by
    rw [List.getD_eq_getElem?_getD, List.getElem?_eq_getElem hk, Option.getD_some]
  simp only [ringSystem, step, writerStep, hw, hidx, hget]

/-- The producer stores the rest of its frame. -/
theorem solo_copy {p : Payload} (hp : p.Valid) {ov write : UInt32} {k j : ℕ}
    (hj : (frameBytes p).length = k + 1 + j) (hw : s.writer = .copy p ov write k) :
    ringSystem.Solo .writer s { s with
      storage := writeFrom ringCapacity s.storage (write.toNat + k) ((frameBytes p).drop k)
      writer := .addCount p ov write } := by
  have hk : k < (frameBytes p).length := by omega
  have hstep := step_copy hp hk hw
  rw [List.drop_eq_getElem_cons hk, writeFrom_cons]
  induction j generalizing s k with
  | zero =>
    rw [if_neg (by omega)] at hstep
    rw [List.drop_eq_nil_of_le (by omega), writeFrom_nil]
    exact .single hstep
  | succ j ih =>
    rw [if_pos (by omega)] at hstep
    have hk' : k + 1 < (frameBytes p).length := by omega
    rw [List.drop_eq_getElem_cons hk', writeFrom_cons]
    exact .step hstep (ih (by omega) rfl hk' (step_copy hp hk' rfl))

/-- The producer finds room and stores its frame. -/
theorem solo_commit {p : Payload} (hp : p.Valid) {ov : UInt32} (hw : s.writer = .loadWrite p ov)
    (hroom : ¬ MustEvict p s.header.writePos s.header.readPos s.header.messageCount) :
    ringSystem.Solo .writer s (s.committed p ov) := by
  have hlen : 0 < (frameBytes p).length := by simp [messageHeaderSize]
  refine .via ({ s with writer := .loadRead p ov s.header.writePos })
    (by simp only [ringSystem, step, writerStep, hw]) ?_
  refine .via ({ s with writer := .loadCount p ov s.header.writePos s.header.readPos })
    rfl ?_
  refine .via ({ s with writer := .copy p ov s.header.writePos 0 })
    (by simp only [ringSystem, step, writerStep, hroom, ↓reduceIte]) ?_
  refine .trans (solo_copy hp (Nat.add_sub_cancel' hlen).symm rfl) ?_
  refine .step rfl ?_
  have hst : writeFrom ringCapacity s.storage (s.header.writePos.toNat + 0)
      ((frameBytes p).drop 0) = storeFrame s.storage (maskIndex s.header.writePos) p := by
    rw [maskIndex_eq, storeFrame_eq _ _ hp, Nat.add_zero, List.drop_zero]
  by_cases hc : s.header.messageCount = 0
  · refine .step (by simp only [ringSystem, step, writerStep, hc, ↓reduceIte]; rfl) (.single ?_)
    simp only [ringSystem, step, writerStep, returnWrite, committed, ring, Ring.commit, hst, hc,
      ↓reduceIte]
  · have hb : (s.header.messageCount == 0) = false := by simp [hc]
    refine .single ?_
    simp only [ringSystem, step, writerStep, returnWrite, committed, ring, Ring.commit, hst, hc, hb,
      ↓reduceIte]

/-- The producer finds too little room. -/
theorem solo_mustEvict {p : Payload} {ov : UInt32} (hw : s.writer = .loadWrite p ov)
    (hm : MustEvict p s.header.writePos s.header.readPos s.header.messageCount)
    (hc : s.header.messageCount ≠ 0) :
    ringSystem.Solo .writer s { s with writer := .discard p ov .loadRead } :=
  .step (by simp only [ringSystem, step, writerStep, hw]; rfl) <| .step rfl <| .single <| by
    simp only [ringSystem, step, writerStep, hm, hc, ↓reduceIte]

/-- The state after the producer has discarded the oldest frame alone, with length `msgLen`. -/
def discarded (s : RingState) (p : Payload) (ov : UInt32) (msgLen : ℕ) : RingState :=
  { s with
    header := { s.header with
      readPos := s.header.readPos + UInt32.ofNat (messageHeaderSize + msgLen)
      messageCount := s.header.messageCount - 1
      dropCount := s.header.dropCount + 1 }
    writer := .loadWrite p (ov + 1)
    hist := { s.hist with moves := s.hist.moves ++ [.evict msgLen] } }

/-- `discard_oldest` fails alone. -/
theorem solo_discard_error {p : Payload} {ov : UInt32} (hw : s.writer = .discard p ov .loadRead)
    {e : ShmError} (he : s.ring.discardOldest = .error e) :
    ringSystem.Solo .writer s (s.returnWrite (.error e)) := by
  refine .via ({ s with writer := .discard p ov (.loadWrite s.header.readPos) })
    (by simp only [ringSystem, step, writerStep, hw, discardStep]) ?_
  simp only [Ring.discardOldest] at he
  split_ifs at he with hne hlen
  · cases he
    change s.header.readPos = s.header.writePos at hne
    refine .single ?_
    simp only [ringSystem, step, writerStep, discardStep, hne, ↓reduceIte, returnWrite]
  · cases he
    change ¬ s.header.readPos = s.header.writePos at hne
    change ¬ LengthOk (readU16 s.storage (maskIndex s.header.readPos)).toNat at hlen
    refine .step (by simp only [ringSystem, step, writerStep, discardStep, hne, ↓reduceIte]; rfl) ?_
    refine .step rfl (.single ?_)
    simp only [ringSystem, step, writerStep, discardStep, decodeLen_eq_readU16, hlen, returnWrite,
      ↓reduceIte, not_false_eq_true]

/-- The state after the producer has moved `read_pos` over the oldest frame, of length `msgLen`,
and before it lowers `message_count`. -/
def evicted (s : RingState) (p : Payload) (ov : UInt32) (msgLen : ℕ) : RingState :=
  { s with
    header := { s.header with
      readPos := s.header.readPos + UInt32.ofNat (messageHeaderSize + msgLen) }
    writer := .discard p ov .subCount
    hist := { s.hist with moves := s.hist.moves ++ [.evict msgLen] } }

/-- `discard_oldest` finds the oldest frame alone. -/
theorem solo_oldest {p : Payload} {ov : UInt32} (hw : s.writer = .discard p ov .loadRead)
    {r' : Ring} (he : s.ring.discardOldest = .ok r') :
    ∃ msgLen, LengthOk msgLen ∧ ringSystem.Solo .writer s
        { s with writer := .discard p ov (.compareExchange s.header.readPos msgLen) } ∧
      (s.discarded p ov msgLen).ring = r' := by
  simp only [Ring.discardOldest] at he
  split_ifs at he with hne hlen
  cases he
  change ¬ s.header.readPos = s.header.writePos at hne
  let n := (readU16 s.storage (maskIndex s.header.readPos)).toNat
  have hdec : decodeLen (s.storage (wrapIndex (maskIndex s.header.readPos) 0))
      (s.storage (wrapIndex (maskIndex s.header.readPos) 1)) = n := decodeLen_eq_readU16 _ _
  have hlen' : LengthOk n := hlen
  refine ⟨n, hlen', ?_, rfl⟩
  refine .via ({ s with writer := .discard p ov (.loadWrite s.header.readPos) })
    (by simp only [ringSystem, step, writerStep, hw, discardStep]) ?_
  refine .via ({ s with writer := .discard p ov (.readLen0 s.header.readPos) })
    (by simp only [ringSystem, step, writerStep, discardStep, hne, ↓reduceIte]) ?_
  refine .step rfl (.single ?_)
  simp only [ringSystem, step, writerStep, discardStep, hdec, hlen', not_true_eq_false, ↓reduceIte]

/-- `discard_oldest` moves `read_pos` alone. -/
theorem solo_evict {p : Payload} {ov : UInt32} (hw : s.writer = .discard p ov .loadRead)
    {r' : Ring} (he : s.ring.discardOldest = .ok r') :
    ∃ msgLen, LengthOk msgLen ∧ ringSystem.Solo .writer s (s.evicted p ov msgLen) ∧
      (s.discarded p ov msgLen).ring = r' := by
  obtain ⟨n, hn, hsolo, hr'⟩ := solo_oldest hw he
  refine ⟨n, hn, hsolo.trans (.single ?_), hr'⟩
  simp only [ringSystem, step, writerStep, discardStep, evicted, ↓reduceIte]

/-- `discard_oldest` succeeds alone. -/
theorem solo_discard_ok {p : Payload} {ov : UInt32} (hw : s.writer = .discard p ov .loadRead)
    {r' : Ring} (he : s.ring.discardOldest = .ok r') :
    ∃ msgLen, ringSystem.Solo .writer s (s.discarded p ov msgLen) ∧
      (s.discarded p ov msgLen).ring = r' := by
  obtain ⟨n, -, hsolo, hr'⟩ := solo_evict hw he
  exact ⟨n, hsolo.trans (.step rfl (.single rfl)), hr'⟩

/-- The loop of `write_message` alone. -/
theorem solo_writeLoop {p : Payload} (hp : p.Valid) {n : ℕ}
    (hn : s.header.messageCount.toNat = n) {ov : UInt32} (hw : s.writer = .loadWrite p ov) :
    ∃ s', ringSystem.Solo .writer s s' ∧ s'.ring = (Ring.writeLoop p ov s.ring).2 ∧
      s'.writer = .idle ∧ s'.hist.writes = s.hist.writes ++ [(Ring.writeLoop p ov s.ring).1] ∧
      s'.reader = s.reader ∧ s'.hist.reads = s.hist.reads := by
  induction n using Nat.strong_induction_on generalizing s ov with
  | _ n ih =>
    by_cases hm : MustEvict p s.header.writePos s.header.readPos s.header.messageCount
    · by_cases hc : s.header.messageCount = 0
      · have htest : ringSystem.Solo .writer s
            { s with writer := .loadCount p ov s.header.writePos s.header.readPos } :=
          .step (by simp only [ringSystem, step, writerStep, hw]; rfl) (.single rfl)
        refine ⟨s.returnWrite (.error .messageTooLarge), htest.trans (.single ?_), ?_⟩
        · simp only [ringSystem, step, writerStep]
          rw [if_pos hm, if_pos hc]
          rfl
        rw [Ring.writeLoop, if_pos (by exact hm), if_pos (by exact hc)]
        exact ⟨rfl, rfl, rfl, rfl, rfl⟩
      · have hdis := solo_mustEvict hw hm hc
        rw [Ring.writeLoop, if_pos (by exact hm), if_neg (by exact hc)]
        split
        · rename_i e he
          exact ⟨_, hdis.trans (solo_discard_error rfl he), rfl, rfl, rfl, rfl, rfl⟩
        · rename_i r' he
          obtain ⟨msgLen, hsolo, hr'⟩ := solo_discard_ok
            (s := { s with writer := .discard p ov .loadRead }) rfl he
          change (s.discarded p ov msgLen).ring = r' at hr'
          have hlt := Ring.toNat_sub_one_lt hc
          obtain ⟨s', hs', hring, hidle, hwrites, hrd, hre⟩ :=
            ih _ (by rw [← hn]; exact hlt) rfl (s := discarded _ p ov msgLen) rfl
          rw [hr'] at hring hwrites
          exact ⟨s', (hdis.trans hsolo).trans hs', hring, hidle, hwrites, hrd, hre⟩
    · refine ⟨_, solo_commit hp hw hm, ?_⟩
      rw [Ring.writeLoop, if_neg (by exact hm)]
      exact ⟨rfl, rfl, rfl, rfl, rfl⟩

/-- **A producer that runs alone performs `Ring.writeMessage`.** -/
theorem solo_writeMessage (hw : s.writer = .idle) (p : Payload) :
    ∃ s₁ s', ringSystem.step s (.callWrite p) = some s₁ ∧ ringSystem.Solo .writer s₁ s' ∧
      s'.ring = (s.ring.writeMessage p).2 ∧ s'.writer = .idle ∧
      s'.hist.writes = s.hist.writes ++ [(s.ring.writeMessage p).1] ∧
      s'.reader = s.reader ∧ s'.hist.reads = s.hist.reads := by
  have hstep : ringSystem.step s (.callWrite p) = some (s.callWrite p) := by
    simp only [ringSystem, step, hw]
  refine ⟨s.callWrite p, ?_⟩
  rw [hstep, callWrite, Ring.writeMessage]
  split_ifs with h₁ h₂ h₃
  · exact ⟨_, rfl, .refl _, rfl, hw, rfl, rfl, rfl⟩
  · exact ⟨_, rfl, .refl _, rfl, hw, rfl, rfl, rfl⟩
  · exact ⟨_, rfl, .refl _, rfl, hw, rfl, rfl, rfl⟩
  · obtain ⟨s', hs', hring, hidle, hwrites, hrd, hre⟩ :=
      solo_writeLoop (s := { s with writer := .loadWrite p 0 }) ⟨not_lt.1 h₁, not_lt.1 h₂⟩ rfl rfl
    exact ⟨s', rfl, hs', hring, hidle, hwrites, hrd, hre⟩

/-! ### The consumer -/

/-- The consumer copies the rest of the payload. -/
theorem solo_copyOut {a : Attempt} {n k j : ℕ} (hj : n = k + 1 + j)
    (hr : s.reader = .copy a n (payloadBytes s.storage a.read k)) :
    ringSystem.Solo .reader s
      { s with reader := .compareExchange a n (payloadBytes s.storage a.read n) } := by
  have hstep : ringSystem.step s .reader = some { s with
      reader := if k + 1 < n then .copy a n (payloadBytes s.storage a.read (k + 1))
        else .compareExchange a n (payloadBytes s.storage a.read (k + 1)) } := by
    simp only [ringSystem, step, readerStep, hr, length_payloadBytes, ← payloadBytes_succ]
  induction j generalizing s k with
  | zero =>
    rw [if_neg (by omega)] at hstep
    rw [hj, Nat.add_zero] at hstep ⊢
    exact .single hstep
  | succ j ih =>
    rw [if_pos (by omega)] at hstep
    refine .step hstep (ih (k := k + 1) (by omega) rfl ?_)
    simp only [ringSystem, step, readerStep, length_payloadBytes, ← payloadBytes_succ]

/-- What a read that runs alone returns. -/
def readResult (s : RingState) : Except ShmError (ℕ × Payload) :=
  (s.ring.readMessage []).1.map fun msgLen => (msgLen, (s.ring.readMessage []).2.2)

/-- The state after a read that runs alone. -/
def readDone (s : RingState) : RingState :=
  { s with
    header := (s.ring.readMessage []).2.1.header
    reader := .idle
    hist := { s.hist with
      moves := s.hist.moves ++
        (s.readResult.toOption.map fun r => Move.take r.1 r.2).toList
      reads := s.hist.reads ++ [s.readResult] } }

/-- **A consumer that runs alone performs `Ring.readMessage`.** -/
theorem solo_readMessage (hr : s.reader = .idle) :
    ∃ s₁, ringSystem.step s .callRead = some s₁ ∧ ringSystem.Solo .reader s₁ s.readDone ∧
      s.readDone.ring = (s.ring.readMessage []).2.1 := by
  refine ⟨{ s with reader := .loadCount }, by simp only [ringSystem, step, hr], ?_⟩
  by_cases hc : s.header.messageCount = 0
  · refine ⟨.single ?_, ?_⟩
    · simp only [ringSystem, step, readerStep, hc, ↓reduceIte, readDone, readResult,
        Ring.readMessage, ring, returnRead, Except.map, Except.toOption, Option.map_none,
        Option.toList_none, List.append_nil]
    · simp only [readDone, Ring.readMessage, ring, hc, ↓reduceIte]
  · let a : Attempt := ⟨s.header.readPos, s.hist.readEnd,
      History.frameAt s.hist.frames s.hist.readEnd⟩
    let b₀ := s.storage (wrapIndex (maskIndex s.header.readPos) 0)
    have hlen₀ : ringSystem.Solo .reader { s with reader := .loadCount }
        { s with reader := .readLen1 a b₀ } :=
      .step (by simp only [ringSystem, step, readerStep, hc, ↓reduceIte]; rfl)
        (.step rfl (.single rfl))
    have hdec : decodeLen b₀ (s.storage (wrapIndex (maskIndex s.header.readPos) 1)) =
        (readU16 s.storage (maskIndex s.header.readPos)).toNat := decodeLen_eq_readU16 _ _
    by_cases hlen : LengthOk (readU16 s.storage (maskIndex s.header.readPos)).toNat
    · refine ⟨hlen₀.trans ?_, ?_⟩
      · refine .step (by
          simp only [ringSystem, step, readerStep, a, hdec, hlen, not_true_eq_false, ↓reduceIte]
          rfl) ?_
        obtain ⟨j, hj⟩ : ∃ j, (readU16 s.storage (maskIndex s.header.readPos)).toNat = 0 + 1 + j :=
          ⟨_, (Nat.add_sub_cancel' (Nat.le_trans (by decide) hlen.1)).symm⟩
        refine .trans (solo_copyOut hj rfl) ?_
        refine .step (by simp only [ringSystem, step, readerStep, ↓reduceIte]; rfl) ?_
        rw [payloadBytes_eq_copyFromWrapped _ _ hlen]
        by_cases hlast : s.header.messageCount ≤ 1
        · refine .step (by simp only [ringSystem, step, readerStep, hlast, ↓reduceIte]; rfl)
            (.single ?_)
          simp only [ringSystem, step, readerStep, readDone, readResult, Ring.readMessage, ring, hc,
            hlen, hlast, not_true_eq_false, ↓reduceIte, returnRead, Except.map, Except.toOption,
            Option.map_some, Option.toList_some]
        · refine .single ?_
          simp only [ringSystem, step, readerStep, readDone, readResult, Ring.readMessage, ring, hc,
            hlen, hlast, not_true_eq_false, ↓reduceIte, returnRead, Except.map, Except.toOption,
            Option.map_some, Option.toList_some]
      · simp only [readDone, Ring.readMessage, ring, hc, hlen, not_true_eq_false, ↓reduceIte]
    · refine ⟨hlen₀.trans ?_, ?_⟩
      · refine .step (by
          simp only [ringSystem, step, readerStep, a, hdec, hlen, not_false_eq_true, ↓reduceIte]
          rfl) (.single ?_)
        simp only [ringSystem, step, readerStep, readDone, readResult, Ring.readMessage, ring, hc,
          hlen, ne_eq, not_true_eq_false, not_false_eq_true, ↓reduceIte, returnRead, Except.map,
          Except.toOption, Option.map_none, Option.toList_none, List.append_nil]
      · simp only [readDone, Ring.readMessage, ring, hc, hlen, not_false_eq_true, ↓reduceIte]

end RingState

end Xshm
