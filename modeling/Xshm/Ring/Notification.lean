import Xshm.Ring.Queue

/-!
# When a write tells the consumer

`write_message` reports `was_empty` if it has stored its frame in an empty ring, and the caller then
signals the event of the consumer.  Evictions do not count: they never empty the ring, since a
message always fits beside any other one (`excess_lt_length`).  So for one call at a time
`was_empty` is true exactly if the ring was empty when the call began, and `sequence` counts how
often the ring has become empty or has stopped being empty.

* `wasEmpty_exact` : the property.
-/

namespace Xshm

/-- A message fits beside any other one. -/
theorem fits_singleton {p q : Payload} (hp : p.Valid) (hq : q.Valid) : ringQueue.Fits [q] p := by
  have h₁ := hp.2
  have h₂ := hq.2
  simp only [maxMessageSize] at h₁ h₂
  refine ⟨?_, show 1 < maxMessages.toNat by decide⟩
  simp only [DropOldest.used_cons, DropOldest.used_nil, ringQueue, messageHeaderSize, ringCapacity]
  omega

/-- An eviction never empties the ring. -/
theorem excess_lt_length {Q : List Payload} {p : Payload} (hp : p.Valid) (hQ : ∀ q ∈ Q, q.Valid)
    (hne : Q ≠ []) : ringQueue.excess Q p < Q.length := by
  induction Q with
  | nil => exact absurd rfl hne
  | cons q Q ih =>
    by_cases hfit : ringQueue.Fits (q :: Q) p
    · rw [DropOldest.excess_of_fits hfit]
      exact Nat.succ_pos _
    · have hQ' : Q ≠ [] := by
        rintro rfl
        exact hfit (fits_singleton hp (hQ q List.mem_cons_self))
      rw [DropOldest.excess_cons hfit, List.length_cons]
      exact Nat.succ_lt_succ (ih (fun b hb => hQ b (List.mem_cons_of_mem _ hb)) hQ')

theorem isEmpty_drop_excess {Q : List Payload} {p : Payload} (hp : p.Valid)
    (hQ : ∀ q ∈ Q, q.Valid) : (Q.drop (ringQueue.excess Q p)).isEmpty = Q.isEmpty := by
  cases Q with
  | nil => rw [List.drop_nil]
  | cons q Q =>
    have hlt := excess_lt_length hp hQ (List.cons_ne_nil q Q)
    rw [List.isEmpty_cons, List.isEmpty_eq_false_iff, ← List.length_pos_iff, List.length_drop]
    omega

/-- `discard_oldest` leaves `sequence`. -/
theorem Ring.discardOldest_sequence {r r' : Ring} (h : r.discardOldest = .ok r') :
    r'.header.sequence = r.header.sequence := by
  simp only [discardOldest] at h
  split_ifs at h
  cases h
  rfl

namespace Represents

variable {r : Ring} {Q : List Payload} {n : ℕ}

theorem isEmpty_eq (h : Represents r Q n) : Q.isEmpty = (r.header.messageCount == 0) := by
  rw [Bool.eq_iff_iff, List.isEmpty_iff, beq_iff_eq, h.messageCount_eq_zero]

/-- The eviction loop changes `sequence` only at its end. -/
theorem writeLoop_sequence (h : Represents r Q n) {p : Payload} (hp : p.Valid) (k : UInt32) :
    (r.writeLoop p k).2.header.sequence = if Q = [] then r.header.sequence + 1
      else r.header.sequence := by
  induction Q generalizing r n k with
  | nil =>
    have hfit : ringQueue.Fits [] p := DropOldest.fits_drop_excess (by
      have := hp.2
      simp only [ringQueue, maxMessageSize, ringCapacity, messageHeaderSize] at this ⊢
      omega) (by decide) []
    have hc : r.header.messageCount = 0 := h.messageCount_eq_zero.2 rfl
    rw [Ring.writeLoop, if_neg ((h.mustEvict_iff hp).not.2 (not_not.2 hfit))]
    simp only [Ring.commit, hc, if_true]
  | cons q Q ih =>
    have hc : r.header.messageCount ≠ 0 := h.messageCount_eq_zero.not.2 (by simp)
    rw [if_neg (List.cons_ne_nil q Q)]
    by_cases hfit : ringQueue.Fits (q :: Q) p
    · rw [Ring.writeLoop, if_neg ((h.mustEvict_iff hp).not.2 (not_not.2 hfit))]
      simp only [Ring.commit, hc, if_false]
    · have hQ : Q ≠ [] := by
        rintro rfl
        exact hfit (fits_singleton hp (h.valid q List.mem_cons_self))
      obtain ⟨r₁, hd, h₁⟩ := h.discardOldest
      have hrest := ih h₁ (k + 1)
      rw [if_neg hQ, Ring.discardOldest_sequence hd] at hrest
      rw [← hrest, Ring.writeLoop, if_pos ((h.mustEvict_iff hp).2 hfit), if_neg hc]
      split
      · rename_i he
        rw [hd] at he
        cases he
      · rename_i he
        rw [hd] at he
        cases he
        rfl

end Represents

/-- The number of calls since the last reset by which the ring became empty or stopped being empty;
`n` counts those before. -/
def Ring.turns (r : Ring) (n : ℕ) : List Call → ℕ
  | [] => n
  | .reset generation :: cs => (r.call (.reset generation)).2.turns 0 cs
  | c :: cs =>
    let r' := (r.call c).2
    r'.turns (if (r.header.messageCount = 0) ↔ (r'.header.messageCount = 0) then n else n + 1) cs

/-- `sequence` is `n`, and odd while something is in the ring. -/
structure SequenceOk (r : Ring) (n : ℕ) : Prop where
  sequence : r.header.sequence = UInt32.ofNat n
  parity : n % 2 = if r.header.messageCount = 0 then 0 else 1

/-- A call that empties the ring or stores a frame in an empty one counts, and no other does. -/
theorem SequenceOk.step {r r' : Ring} {n : ℕ} (h : SequenceOk r n)
    (hseq : r'.header.sequence =
      if (r.header.messageCount = 0) ↔ (r'.header.messageCount = 0) then r.header.sequence
      else r.header.sequence + 1) :
    SequenceOk r' (if (r.header.messageCount = 0) ↔ (r'.header.messageCount = 0) then n
      else n + 1) := by
  have hparity := h.parity
  by_cases hsame : (r.header.messageCount = 0) ↔ (r'.header.messageCount = 0)
  · rw [if_pos hsame] at hseq ⊢
    refine ⟨hseq.trans h.sequence, ?_⟩
    simpa only [hsame] using hparity
  · rw [if_neg hsame] at hseq ⊢
    refine ⟨?_, ?_⟩
    · rw [hseq, h.sequence]
      exact ofNat_add n 1
    · by_cases hc : r.header.messageCount = 0
      · have hc' : r'.header.messageCount ≠ 0 := fun hc' => hsame (by simp [hc, hc'])
        rw [if_pos hc] at hparity
        rw [if_neg hc']
        omega
      · have hc' : r'.header.messageCount = 0 := by
          by_contra hc'
          exact hsame (by simp [hc, hc'])
        rw [if_neg hc] at hparity
        rw [if_pos hc']
        omega

/-- What a write does to `sequence` and to the emptiness of the ring. -/
theorem Represents.call_sequence {r : Ring} {Q : List Payload} {n : ℕ} (h : Represents r Q n)
    {c : Call} (hc : ∀ generation, c ≠ .reset generation) :
    (r.call c).2.header.sequence =
      if (r.header.messageCount = 0) ↔ ((r.call c).2.header.messageCount = 0)
        then r.header.sequence
      else r.header.sequence + 1 := by
  have hcall := (represents_call (m := ⟨Q, n⟩) h c).2
  cases c with
  | reset generation => exact absurd rfl (hc generation)
  | write p =>
    by_cases hp : p.Valid
    · have hmin : ¬ p.length < minMessageSize := not_lt.2 hp.1
      have hmax : ¬ maxMessageSize < p.length := not_lt.2 hp.2
      simp only [MessageQueue.call, hmin, hmax, if_false] at hcall
      have hne : (r.call (.write p)).2.header.messageCount ≠ 0 :=
        hcall.messageCount_eq_zero.not.2 (by simp)
      have hseq := h.writeLoop_sequence hp 0
      have hr : (r.call (.write p)).2 = (r.writeLoop p 0).2 := by
        rw [Ring.call, r.writeMessage_of_valid hp]
      rw [hr] at hne ⊢
      simp only [hseq, hne, iff_false, ite_not, h.messageCount_eq_zero]
    · have hr : (r.call (.write p)).2 = r := by
        by_cases hmin : p.length < minMessageSize
        · simp only [Ring.call, Ring.writeMessage, hmin, if_true]
        · have hmax : maxMessageSize < p.length := not_le.1 fun hmax => hp ⟨not_lt.1 hmin, hmax⟩
          simp only [Ring.call, Ring.writeMessage, hmin, hmax, if_false, if_true]
      rw [hr, if_pos Iff.rfl]
  | read =>
    cases Q with
    | nil =>
      have hr : (r.call .read).2 = r := by rw [Ring.call, h.readMessage_nil]
      rw [hr, if_pos Iff.rfl]
    | cons q Q =>
      have hne : r.header.messageCount ≠ 0 := h.messageCount_eq_zero.not.2 (by simp)
      have hlen : LengthOk (readU16 r.storage (maskIndex r.header.readPos)).toNat := by
        rw [h.head.1]
        exact h.valid q List.mem_cons_self
      have hone : r.header.messageCount ≤ 1 ↔ r.header.messageCount - 1 = 0 := by
        rw [UInt32.le_iff_toNat_le, ← UInt32.toNat_inj, UInt32.toNat_sub]
        have := r.header.messageCount.toNat_lt
        have hpos : r.header.messageCount.toNat ≠ 0 := fun h0 => hne (UInt32.toNat_inj.1 h0)
        simp only [UInt32.toNat_one, UInt32.toNat_zero]
        omega
      simp only [Ring.call, Ring.readMessage, hne, hlen, not_true_eq_false, if_false, false_iff,
        hone, ite_not]

theorem Represents.turns {r : Ring} {Q : List Payload} {m n : ℕ} (h : Represents r Q m)
    (hs : SequenceOk r n) (cs : List Call) :
    SequenceOk (r.calls cs).2 (r.turns n cs) ∧ ∃ Q m, Represents (r.calls cs).2 Q m := by
  induction cs generalizing r Q m n with
  | nil => exact ⟨hs, Q, m, h⟩
  | cons c cs ih =>
    have h' := (represents_call (m := ⟨Q, m⟩) h c).2
    cases c with
    | reset generation => exact ih h' ⟨rfl, rfl⟩
    | write p =>
      have hseq := h.call_sequence (c := .write p) (fun _ => by rintro ⟨⟩)
      exact ih h' (hs.step hseq)
    | read =>
      have hseq := h.call_sequence (c := .read) (fun _ => by rintro ⟨⟩)
      exact ih h' (hs.step hseq)

/-- **`was_empty` and `sequence` are exact.**  After any calls on a ring that was reset, `sequence`
is the number of times that the ring became empty or stopped being empty, so that it is odd while
something is in the ring, and a write reports `was_empty` if and only if nothing is. -/
theorem wasEmpty_exact (r : Ring) (generation : UInt32) (cs : List Call) :
    let r' := ((r.reset generation).calls cs).2
    let n := (r.reset generation).turns 0 cs
    r'.header.sequence = UInt32.ofNat n ∧ (n % 2 = 1 ↔ r'.header.messageCount ≠ 0) ∧
      ∀ p : Payload, p.Valid → ∃ outcome, (r'.writeMessage p).1 = .ok outcome ∧
        (outcome.wasEmpty = true ↔ r'.header.messageCount = 0) := by
  intro r' n
  obtain ⟨hs, Q, m, h⟩ := Represents.turns (represents_reset r generation)
    (n := 0) ⟨rfl, rfl⟩ cs
  refine ⟨hs.sequence, ?_, fun p hp => ?_⟩
  · have hparity := hs.parity
    by_cases hc : r'.header.messageCount = 0
    · rw [if_pos hc] at hparity
      exact ⟨fun h1 => absurd (hparity.symm.trans h1) (by decide), fun hne => absurd hc hne⟩
    · rw [if_neg hc] at hparity
      exact ⟨fun _ => hc, fun _ => hparity⟩
  · obtain ⟨r'', hw, -⟩ := h.writeLoop hp 0
    refine ⟨⟨0 + UInt32.ofNat (ringQueue.excess Q p),
      (Q.drop (ringQueue.excess Q p)).isEmpty⟩, ?_, ?_⟩
    · rw [Ring.writeMessage_of_valid _ hp, hw]
    · simp only [isEmpty_drop_excess hp h.valid, List.isEmpty_iff]
      exact h.messageCount_eq_zero.symm

end Xshm
