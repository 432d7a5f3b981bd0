import Xshm.Ring.Alone

/-!
# Ring calls on any shared memory

The other process may have left anything in the header and in the storage of a ring.  A call that
runs alone still ends: every pass of the eviction loop that goes on lowers a `message_count` that
was not zero, whatever it was at first.  And every byte that it touches is one of the storage, as
all indices go through `mask_index` and the wrapped copies.

* `RingState.accessed` : the storage index that the next access of a side touches;
  `RingState.storage_of_not_accessed` and `RingState.step_congr` say that it touches no other.
* `RingState.callsSafe` : both calls end, stay inside the storage and leave the ring as it was when
  they fail, apart from the messages that `write_message` has discarded.
-/

namespace Xshm

theorem wrapIndex_lt (start : ℕ) {k : ℕ} (hk : k ≤ ringCapacity) :
    wrapIndex start k < ringCapacity := by
  rw [wrapIndex_eq start hk]
  exact Nat.mod_lt _ ringCapacity_pos

theorem frameIndex_lt (idx : ℕ) {k : ℕ} (hk : k ≤ ringCapacity) :
    frameIndex idx k < ringCapacity := by
  unfold frameIndex
  split_ifs
  · exact wrapIndex_lt _ hk
  · exact wrapIndex_lt _ (by omega)
  · exact wrapIndex_lt _ (by omega)

namespace Ring

/-- `discard_oldest` touches neither the storage nor `write_pos`. -/
theorem discardOldest_frame {r r' : Ring} (h : r.discardOldest = .ok r') :
    r'.storage = r.storage ∧ r'.header.writePos = r.header.writePos := by
  simp only [discardOldest] at h
  split_ifs at h
  cases h
  exact ⟨rfl, rfl⟩

theorem discardOldest_error {r : Ring} {e : ShmError} (h : r.discardOldest = .error e) :
    e = .queueEmpty ∨ e = .corrupted := by
  simp only [discardOldest] at h
  split_ifs at h
  · cases h
    exact .inl rfl
  · cases h
    exact .inr rfl

/-- The errors of `write_message`. -/
def writeErrors : List ShmError := [.queueEmpty, .corrupted, .messageTooSmall, .messageTooLarge]

/-- The errors of `read_message`. -/
def readErrors : List ShmError := [.queueEmpty, .corrupted]

/-- The loop of `write_message` fails without having touched the storage. -/
theorem writeLoop_error {p : Payload} {n : ℕ} {r : Ring} (hn : r.header.messageCount.toNat = n)
    {ov : UInt32} {e : ShmError} (h : (writeLoop p ov r).1 = .error e) : e ∈ writeErrors ∧
      (writeLoop p ov r).2.storage = r.storage ∧
      (writeLoop p ov r).2.header.writePos = r.header.writePos := by
  induction n using Nat.strong_induction_on generalizing r ov with
  | _ n ih =>
    by_cases hm : MustEvict p r.header.writePos r.header.readPos r.header.messageCount
    · by_cases hc : r.header.messageCount = 0
      · rw [writeLoop, if_pos hm, if_pos hc] at h ⊢
        cases h
        exact ⟨by decide, rfl, rfl⟩
      · rw [writeLoop, if_pos hm, if_neg hc] at h ⊢
        split
        · rename_i e' he
          rw [he] at h
          cases h
          rcases discardOldest_error he with rfl | rfl
          · exact ⟨by decide, rfl, rfl⟩
          · exact ⟨by decide, rfl, rfl⟩
        · rename_i r' hok
          rw [hok] at h
          have hlt : r'.header.messageCount.toNat < n := by
            rw [← hn, discardOldest_messageCount hok]
            exact toNat_sub_one_lt hc
          obtain ⟨hst, hwp⟩ := discardOldest_frame hok
          rw [← hst, ← hwp]
          exact ih _ hlt rfl h
    · rw [writeLoop, if_neg hm] at h
      cases h

/-- **`write_message` fails** with one of four errors, and has stored nothing. -/
theorem writeMessage_error {r : Ring} {p : Payload} {e : ShmError}
    (h : (r.writeMessage p).1 = .error e) : e ∈ writeErrors ∧
      (r.writeMessage p).2.storage = r.storage ∧
      (r.writeMessage p).2.header.writePos = r.header.writePos := by
  rw [writeMessage] at h ⊢
  split_ifs at h ⊢
  · cases h
    exact ⟨by decide, rfl, rfl⟩
  · cases h
    exact ⟨by decide, rfl, rfl⟩
  · cases h
    exact ⟨by decide, rfl, rfl⟩
  · exact writeLoop_error rfl h

/-- **`read_message` fails** with one of two errors, and has changed nothing. -/
theorem readMessage_error {r : Ring} {out : Payload} {e : ShmError}
    (h : (r.readMessage out).1 = .error e) : e ∈ readErrors ∧ (r.readMessage out).2 = (r, out) := by
  simp only [readMessage] at h ⊢
  split_ifs at h ⊢
  · cases h
    exact ⟨by decide, rfl⟩
  · cases h
    exact ⟨by decide, rfl⟩

end Ring

/-! ### Accesses to the storage -/

/-- The producer fills a frame that fits into the storage. -/
def Writer.Within : Writer → Prop
  | .loadWrite p _ | .loadRead p _ _ | .loadCount p _ _ _ | .discard p _ _ => p.Valid
  | .copy p _ _ k => p.Valid ∧ k < (frameBytes p).length
  | _ => True

/-- The consumer copies a payload that fits into the storage. -/
def Reader.Within : Reader → Prop
  | .copy _ msgLen out => LengthOk msgLen ∧ out.length < msgLen
  | _ => True

namespace RingState

/-- The storage index that the next access of a side touches, if it is one to the storage. -/
def accessed (s : RingState) : RingLabel → Option ℕ
  | .writer =>
    match s.writer with
    | .discard _ _ (.readLen0 read) => some (wrapIndex (maskIndex read) 0)
    | .discard _ _ (.readLen1 read _) => some (wrapIndex (maskIndex read) 1)
    | .copy _ _ write k => some (frameIndex (maskIndex write) k)
    | _ => none
  | .reader =>
    match s.reader with
    | .readLen0 a => some (wrapIndex (maskIndex a.read) 0)
    | .readLen1 a _ => some (wrapIndex (maskIndex a.read) 1)
    | .copy a _ out => some (payloadIndex (maskIndex a.read) out.length)
    | _ => none
  | _ => none

/-- What a step does to everything but the storage. -/
def withoutStorage (s : RingState) : RingHeader × Writer × Reader × History :=
  (s.header, s.writer, s.reader, s.hist)

variable {s s' : RingState}

/-- A step changes no byte that it does not touch. -/
theorem storage_of_not_accessed {l : RingLabel} (hst : s.step l = some s') {i : ℕ}
    (hi : s.accessed l ≠ some i) : s'.storage i = s.storage i := by
  cases l <;> simp only [step] at hst
  case callWrite p =>
    split at hst <;> cases hst
    unfold callWrite
    split_ifs <;> rfl
  case callRead =>
    split at hst <;> cases hst
    rfl
  case writer =>
    unfold writerStep at hst
    cases hw : s.writer <;> simp only [hw] at hst
    case idle => cases hst
    case copy p ov write k =>
      cases hst
      refine Function.update_of_ne (fun he => hi ?_) ..
      simp only [accessed, hw, he]
    case discard p ov d =>
      cases hst
      cases d <;> simp only [discardStep]
      case loadWrite | readLen1 | compareExchange => split_ifs <;> rfl
    case loadCount | storeWrite => split_ifs at hst <;> cases hst <;> rfl
    all_goals
      cases hst
      rfl
  case reader =>
    unfold readerStep at hst
    cases hr : s.reader <;> simp only [hr] at hst
    case idle => cases hst
    case loadCount | readLen1 | reload | compareExchange | subCount =>
      split_ifs at hst <;> cases hst <;> rfl
    all_goals
      cases hst
      rfl

/-- What a step does depends on no byte that it does not touch. -/
theorem step_congr {l : RingLabel} {st : Storage} (h : ∀ i ∈ s.accessed l, st i = s.storage i) :
    ({ s with storage := st }.step l).map withoutStorage = (s.step l).map withoutStorage := by
  cases l <;> simp only [step]
  case callWrite p =>
    cases hw : s.writer
    case idle =>
      simp only [callWrite, Option.map_some, withoutStorage]
      split_ifs <;> first | rfl | simp only [hw]
    all_goals rfl
  case callRead => cases hr : s.reader <;> rfl
  case writer =>
    simp only [accessed] at h
    simp only [writerStep]
    cases hw : s.writer <;> simp only [hw] at h ⊢
    case discard p ov d =>
      cases d <;> simp only [discardStep, Option.map_some, withoutStorage]
      case readLen0 read => rw [h _ rfl]
      case readLen1 read b₀ =>
        rw [h _ rfl]
        split_ifs <;> rfl
      case loadWrite | compareExchange => split_ifs <;> rfl
    case loadCount | storeWrite => split_ifs <;> rfl
    all_goals rfl
  case reader =>
    simp only [accessed] at h
    simp only [readerStep]
    cases hr : s.reader <;> simp only [hr] at h ⊢
    case readLen0 a => rw [h _ rfl]; rfl
    case readLen1 a b₀ =>
      rw [h _ rfl]
      split_ifs <;> rfl
    case copy a msgLen out => rw [h _ rfl]; rfl
    case loadCount | reload | compareExchange | subCount => split_ifs <;> rfl
    all_goals rfl

/-- Both sides stay within the storage. -/
structure Within (s : RingState) : Prop where
  writer : s.writer.Within
  reader : s.reader.Within

theorem Within.accessed_lt (h : s.Within) {l : RingLabel} {i : ℕ} (hi : s.accessed l = some i) :
    i < ringCapacity := by
  cases l with
  | callWrite | callRead => cases hi
  | writer =>
    have hw := h.writer
    simp only [accessed] at hi
    split at hi
    · cases hi
      exact wrapIndex_lt _ (Nat.zero_le _)
    · cases hi
      exact wrapIndex_lt _ (by decide)
    · rename_i hcopy
      cases hi
      rw [hcopy] at hw
      exact frameIndex_lt _ (hw.2.le.trans hw.1.length_frameBytes_le)
    · cases hi
  | reader =>
    have hr := h.reader
    simp only [accessed] at hi
    split at hi
    · cases hi
      exact wrapIndex_lt _ (Nat.zero_le _)
    · cases hi
      exact wrapIndex_lt _ (by decide)
    · rename_i hcopy
      cases hi
      rw [hcopy] at hr
      exact wrapIndex_lt _ (hr.2.le.trans (hr.1.2.trans (by decide)))
    · cases hi

theorem Within.discardStep (h : s.Within) {p : Payload} {ov : UInt32} {d : Discard}
    (hp : p.Valid) : (s.discardStep p ov d).Within := by
  cases d <;> simp only [RingState.discardStep]
  case loadRead | readLen0 | subCount | addDrop => exact ⟨hp, h.reader⟩
  case loadWrite =>
    split_ifs
    · exact ⟨trivial, h.reader⟩
    · exact ⟨hp, h.reader⟩
  case readLen1 =>
    split_ifs
    · exact ⟨hp, h.reader⟩
    · exact ⟨trivial, h.reader⟩
  case compareExchange =>
    split_ifs
    · exact ⟨hp, h.reader⟩
    · exact ⟨hp, h.reader⟩

theorem Within.step (h : s.Within) {l : RingLabel} (hst : s.step l = some s') : s'.Within := by
  obtain ⟨hwr, hrd⟩ := h
  cases l <;> simp only [RingState.step] at hst
  case callWrite p =>
    split at hst <;> cases hst
    unfold callWrite
    split_ifs with hmin hmax
    · exact ⟨hwr, hrd⟩
    · exact ⟨hwr, hrd⟩
    · exact ⟨hwr, hrd⟩
    · exact ⟨⟨not_lt.1 hmin, not_lt.1 hmax⟩, hrd⟩
  case callRead =>
    split at hst <;> cases hst
    exact ⟨hwr, trivial⟩
  case writer =>
    unfold writerStep at hst
    cases hw : s.writer <;> simp only [hw] at hst hwr
    case idle => cases hst
    case loadWrite | loadRead =>
      cases hst
      exact ⟨hwr, hrd⟩
    case loadCount p ov write read =>
      split_ifs at hst <;> cases hst
      · exact ⟨trivial, hrd⟩
      · exact ⟨hwr, hrd⟩
      · exact ⟨⟨hwr, by simp [messageHeaderSize]⟩, hrd⟩
    case discard p ov d =>
      cases hst
      exact Within.discardStep ⟨by rw [hw]; exact hwr, hrd⟩ hwr
    case copy p ov write k =>
      cases hst
      refine ⟨?_, hrd⟩
      dsimp only
      split_ifs with hk
      · exact ⟨hwr.1, hk⟩
      · trivial
    case storeWrite =>
      split_ifs at hst <;> cases hst <;> exact ⟨trivial, hrd⟩
    all_goals
      cases hst
      exact ⟨trivial, hrd⟩
  case reader =>
    unfold readerStep at hst
    cases hr : s.reader <;> simp only [hr] at hst hrd
    case idle => cases hst
    case readLen1 a b₀ =>
      split_ifs at hst with hlen <;> cases hst
      · exact ⟨hwr, hlen, Nat.lt_of_lt_of_le (by decide) hlen.1⟩
      · exact ⟨hwr, trivial⟩
    case copy a msgLen out =>
      cases hst
      refine ⟨hwr, ?_⟩
      dsimp only
      split_ifs with hk
      · exact ⟨hrd.1, hk⟩
      · trivial
    case loadCount | reload | compareExchange | subCount =>
      split_ifs at hst <;> cases hst <;> exact ⟨hwr, trivial⟩
    all_goals
      cases hst
      exact ⟨hwr, trivial⟩

/-! ### Calls that run alone -/

/-- **A call of `write_message` is safe**: alone it ends, it touches only the storage, and if it
fails then with one of four errors, and with the storage and `write_pos` as they were. -/
structure WriteSafe (s : RingState) (p : Payload) : Prop where
  ends : ∃ s₁ s', ringSystem.step s (.callWrite p) = some s₁ ∧ ringSystem.Solo .writer s₁ s' ∧
    s'.writer = .idle ∧ s'.ring = (s.ring.writeMessage p).2 ∧
    s'.hist.writes = s.hist.writes ++ [(s.ring.writeMessage p).1]
  inside : ∀ n t, ringSystem.run s (.callWrite p :: List.replicate n .writer) = some t →
    ∀ i ∈ t.accessed .writer, i < ringCapacity
  fails : ∀ e, (s.ring.writeMessage p).1 = .error e → e ∈ Ring.writeErrors ∧
    (s.ring.writeMessage p).2.storage = s.storage ∧
    (s.ring.writeMessage p).2.header.writePos = s.header.writePos

/-- **A call of `read_message` is safe**: alone it ends, it touches only the storage, and if it
fails then with one of two errors, and with the ring and the buffer `out` as they were. -/
structure ReadSafe (s : RingState) (out : Payload) : Prop where
  ends : ∃ s₁ s', ringSystem.step s .callRead = some s₁ ∧ ringSystem.Solo .reader s₁ s' ∧
    s'.reader = .idle ∧ s'.ring = (s.ring.readMessage out).2.1 ∧
    s'.hist.reads = s.hist.reads ++
      [(s.ring.readMessage out).1.map fun msgLen => (msgLen, (s.ring.readMessage out).2.2)]
  inside : ∀ n t, ringSystem.run s (.callRead :: List.replicate n .reader) = some t →
    ∀ i ∈ t.accessed .reader, i < ringCapacity
  fails : ∀ e, (s.ring.readMessage out).1 = .error e →
    e ∈ Ring.readErrors ∧ (s.ring.readMessage out).2 = (s.ring, out)

theorem Within.inside (h : s.Within) {ls : List RingLabel} {t : RingState} (l : RingLabel)
    (hr : ringSystem.run s ls = some t) : ∀ i ∈ t.accessed l, i < ringCapacity := by
  have ht : t.Within := System.run_invariant (I := Within) (fun _ _ _ hi => hi.step) h hr
  exact fun i hi => ht.accessed_lt hi

/-- Whether the buffer was empty does not matter to a read. -/
theorem readMessage_out (r : Ring) (out out' : Payload) :
    (r.readMessage out).1 = (r.readMessage out').1 ∧
      (r.readMessage out).2.1 = (r.readMessage out').2.1 ∧
      ((r.readMessage out).1.map fun msgLen => (msgLen, (r.readMessage out).2.2)) =
        (r.readMessage out').1.map fun msgLen => (msgLen, (r.readMessage out').2.2) := by
  simp only [Ring.readMessage]
  split_ifs <;> exact ⟨rfl, rfl, rfl⟩

/-- **Ring calls are safe on any shared memory**, whatever its header and its storage hold. -/
theorem callsSafe (s : RingState) (hw : s.writer = .idle) (hr : s.reader = .idle) :
    (∀ p, s.WriteSafe p) ∧ ∀ out, s.ReadSafe out := by
  have hwithin : s.Within := ⟨by rw [hw]; trivial, by rw [hr]; trivial⟩
  refine ⟨fun p => ⟨?_, fun n t => hwithin.inside .writer, fun e => Ring.writeMessage_error⟩,
    fun out => ⟨?_, fun n t => hwithin.inside .reader, fun e => Ring.readMessage_error⟩⟩
  · obtain ⟨s₁, s', hst, hsolo, hring, hidle, hwrites, -⟩ := solo_writeMessage hw p
    exact ⟨s₁, s', hst, hsolo, hidle, hring, hwrites⟩
  · obtain ⟨s₁, hst, hsolo, hring⟩ := solo_readMessage hr
    obtain ⟨-, hring', hres⟩ := readMessage_out s.ring [] out
    exact ⟨s₁, s.readDone, hst, hsolo, rfl, hring.trans hring', by rw [← hres]; rfl⟩

/-- A ring whose positions and count make no sense, full of bytes that are no frame. -/
def garbled : RingState where
  header := { RingHeader.reset ⟨0, 0, 0, 0, 0, 0, 0⟩ 1 with
    writePos := 5
    readPos := 4294967295
    messageCount := 4294967295 }
  storage := fun _ => 255

theorem callsSafe_garbled : garbled.WriteSafe [1, 2] ∧ garbled.ReadSafe [] := by
  obtain ⟨hwrite, hread⟩ := callsSafe garbled rfl rfl
  exact ⟨hwrite [1, 2], hread []⟩

end RingState

end Xshm
