import Xshm.Sending.Pipeline

/-!
# The statistics of auto-mode

`sent_messages` and `send_overflows` of the one side, `received_messages` of the other, and the
`message_count` of the ring between them.  Each success of a call on the ring is counted once
(`Tally.hearAll`), so the balance of the ring (`countersExact`) is one of the statistics.

* `Pipeline.ledger` : between calls they add up, in every run in which the consumer takes only
  counted frames and leaves a frame for a producer that has evicted, and in which the ring is reset
  between calls (`Pipeline.Counted`).
-/

namespace Xshm

/-- What a `write_message` that has succeeded returns. -/
def RingEvent.sent? : RingEvent → Option WriteOutcome
  | .returnWrite (.ok outcome) => some outcome
  | _ => none

/-- What a `read_message` that has succeeded returns. -/
def RingEvent.received? : RingEvent → Option (ℕ × Payload)
  | .returnRead (.ok r) => some r
  | _ => none

/-- A step that shows a result records it. -/
theorem RingState.results_step {s s' : RingState} {l : RingLabel} (hst : s.step l = some s') :
    s'.hist.sent = s.hist.sent ++ (s.events l s').filterMap RingEvent.sent? ∧
      s'.hist.received = s.hist.received ++ (s.events l s').filterMap RingEvent.received? := by
  obtain ⟨-, ⟨ws, hws⟩, ⟨rs, hrs⟩⟩ := extends_step hst
  have hcall : l.call.filterMap RingEvent.sent? = [] ∧
      l.call.filterMap RingEvent.received? = [] := by
    cases l <;> exact ⟨rfl, rfl⟩
  have hw : ws.filterMap (RingEvent.sent? ∘ .returnWrite) = ws.filterMap Except.toOption ∧
      ws.filterMap (RingEvent.received? ∘ .returnWrite) = [] := by
    refine ⟨List.filterMap_congr fun res _ => ?_, List.filterMap_eq_nil_iff.2 fun res _ => rfl⟩
    cases res <;> rfl
  have hr : rs.filterMap (RingEvent.received? ∘ .returnRead) = rs.filterMap Except.toOption ∧
      rs.filterMap (RingEvent.sent? ∘ .returnRead) = [] := by
    refine ⟨List.filterMap_congr fun res _ => ?_, List.filterMap_eq_nil_iff.2 fun res _ => rfl⟩
    cases res <;> rfl
  rw [events_eq ws rs hws.symm hrs.symm]
  simp only [List.filterMap_append, List.filterMap_map, hcall, hw, hr, List.nil_append,
    List.append_nil, History.sent, History.received, ← hws, ← hrs, and_self]

namespace Sending

/-- The ring counts its messages, and it is reset between calls. -/
def Pipeline.Counted (s : Pipeline) : PipelineLabel → Prop
  | .ring l => TakesFrame s.ring l ∧ NotDrained (· ≠ 0) s.ring l
  | .reset _ => s.ring.Quiet
  | _ => True

instance (s : Pipeline) : DecidablePred s.Counted
  | .ring _ => inferInstanceAs (Decidable (_ ∧ _))
  | .reset _ => inferInstanceAs (Decidable s.ring.Quiet)
  | .sender _ | .notConnected => isTrue trivial

/-- The ends have counted `a` messages sent, `b` received and `c` overwritten. -/
structure Tally (e : Ends) (a b c : ℕ) : Prop where
  sent : e.sender.box.sentMessages = UInt64.ofNat a
  received : e.receivedMessages = UInt64.ofNat b
  onMessage : e.onMessage.length = b
  overwritten : e.sender.box.sendOverflows = UInt64.ofNat c

/-- The number of frames reported as overwritten. -/
def reported (outcomes : List WriteOutcome) : ℕ := (outcomes.map fun o => o.overwritten.toNat).sum

theorem reported_append (os os' : List WriteOutcome) :
    reported (os ++ os') = reported os + reported os' := by
  rw [reported, List.map_append, List.sum_append]
  rfl

section

variable {w : Worker} {maxSendQueue : ℕ}

namespace Tally

variable {e e' : Ends} {a b c : ℕ}

theorem hear (h : Tally e a b c) (hw : w ≠ .multiClient) {ev : RingEvent}
    (he : e.hear w maxSendQueue ev = some e') :
    Tally e' (a + ev.sent?.toList.length) (b + ev.received?.toList.length)
      (c + reported ev.sent?.toList) := by
  cases ev with
  | callWrite p =>
    simp only [Ends.hear] at he
    split_ifs at he
    cases he
    exact h
  | callRead =>
    cases he
    exact h
  | returnRead res =>
    cases res with
    | error err =>
      cases he
      exact h
    | ok r =>
      cases he
      refine ⟨h.sent, ?_, ?_, h.overwritten⟩
      · rw [h.received]
        exact (UInt64.ofNat_add ..).symm
      · rw [List.length_append, h.onMessage]
        rfl
  | returnWrite res =>
    simp only [Ends.hear] at he
    split_ifs at he with hat
    rw [workerStep_atWrite hat, Option.map_some] at he
    cases he
    cases res with
    | error err =>
      obtain ⟨hsent, hov⟩ := trySend_error_stats hw e.sender.box err
      exact ⟨hsent.trans h.sent, h.received, h.onMessage, hov.trans h.overwritten⟩
    | ok outcome =>
      obtain ⟨msg, queue, hq⟩ := List.exists_cons_of_ne_nil hat.2
      obtain ⟨hsent, hov⟩ := trySend_stats hw hq outcome
      refine ⟨?_, h.received, h.onMessage, ?_⟩
      · rw [hsent, h.sent]
        exact (UInt64.ofNat_add ..).symm
      · rw [hov, h.overwritten, UInt64.ofNat_add]
        simp [RingEvent.sent?, reported]

/-- What the ends count of what a step shows. -/
theorem hearAll (hw : w ≠ .multiClient) {evs : List RingEvent} (h : Tally e a b c)
    (he : evs.foldlM (Ends.hear w maxSendQueue) e = some e') :
    Tally e' (a + (evs.filterMap RingEvent.sent?).length)
      (b + (evs.filterMap RingEvent.received?).length)
      (c + reported (evs.filterMap RingEvent.sent?)) := by
  induction evs generalizing e a b c with
  | nil =>
    cases he
    exact h
  | cons ev evs ih =>
    rw [List.foldlM_cons] at he
    obtain ⟨e₁, he₁, he⟩ := Option.bind_eq_some_iff.1 he
    have hev := ih (h.hear hw he₁) he
    rw [Nat.add_assoc, Nat.add_assoc, Nat.add_assoc] at hev
    rw [filterMap_cons_toList, filterMap_cons_toList, reported_append, List.length_append,
      List.length_append]
    exact hev

end Tally

/-- The ledger of a run: before the last reset `a` messages were sent, of which `b` were received
and `c` reported as overwritten; the others were in the ring when it was reset. -/
structure StatsInv (s : Pipeline) : Prop where
  count : CountInv (· ≠ 0) s.ring
  ledger : LedgerInv s.ring
  tally : ∃ a b c, a = b + c + s.lost ∧ Tally s.ends (a + s.ring.hist.sent.length)
    (b + s.ring.hist.received.length) (c + reported s.ring.hist.sent)

namespace StatsInv

variable {s s' : Pipeline}

theorem init (h : (pipeline w maxSendQueue).init s) : StatsInv s := by
  obtain ⟨ring, hring, rfl⟩ := h
  refine ⟨.init hring, .init hring, 0, 0, 0, rfl, ?_⟩
  obtain ⟨hd, storage, generation, rfl⟩ := hring
  exact ⟨rfl, rfl, rfl, rfl⟩

/-- **Every step keeps the ledger.** -/
theorem step (h : StatsInv s) (hw : w ≠ .multiClient) {l : PipelineLabel} (hc : s.Counted l)
    (hst : (pipeline w maxSendQueue).step s l = some s') : StatsInv s' := by
  obtain ⟨hcount, hledger, a, b, c, habc, ht⟩ := h
  cases l with
  | sender l =>
    simp only [pipeline] at hst
    split_ifs at hst with hwr
    obtain ⟨sender, hs, rfl⟩ := Option.map_eq_some_iff.1 hst
    obtain ⟨-, -, hstats⟩ := waiting_step (Bool.eq_false_iff.2 hwr) hs
    obtain ⟨hsent, hov⟩ := hstats hw
    exact ⟨hcount, hledger, a, b, c, habc, hsent.trans ht.sent, ht.received, ht.onMessage,
      hov.trans ht.overwritten⟩
  | notConnected =>
    simp only [pipeline] at hst
    split_ifs at hst
    obtain ⟨ends, he, rfl⟩ := Option.map_eq_some_iff.1 hst
    exact ⟨hcount, hledger, a, b, c, habc, ht.hear hw he⟩
  | ring l =>
    obtain ⟨htakes, hleft⟩ := hc
    obtain ⟨ring, hring, hst⟩ := Option.bind_eq_some_iff.1 hst
    obtain ⟨ends, he, rfl⟩ := Option.map_eq_some_iff.1 hst
    refine ⟨hcount.step htakes hleft hring, hledger.step hcount hring, a, b, c, habc, ?_⟩
    obtain ⟨hsent, hreceived⟩ := RingState.results_step hring
    have ht' := ht.hearAll hw he
    rw [Nat.add_assoc, Nat.add_assoc, Nat.add_assoc] at ht'
    rw [hsent, hreceived, reported_append, List.length_append, List.length_append]
    exact ht'
  | reset generation =>
    cases hst
    have hq : s.ring.Quiet := hc
    have hfresh := freshRing_reset hq generation
    have hexact := countersExact hcount hledger
    have hbalance := hexact.balance hq
    have hover : reported s.ring.hist.sent = s.ring.hist.evictions := hexact.overwritten hq
    refine ⟨.init hfresh, .init hfresh, a + s.ring.hist.sent.length,
      b + s.ring.hist.received.length, c + reported s.ring.hist.sent, ?_, ht⟩
    dsimp only
    omega

end StatsInv

end

namespace Pipeline

variable {w : Worker} {maxSendQueue : ℕ} {s : Pipeline}

/-- **The statistics add up** whenever no call on the ring is in progress: of the messages sent in
auto-mode, some have been received, some are in the ring, some were reported as overwritten, and
the others were in the ring at a handshake.  All counters wrap at `2 ^ 64`. -/
theorem ledger (hw : w ≠ .multiClient) (h : (pipeline w maxSendQueue).ReachWhen Counted s)
    (hq : s.ring.Quiet) :
    s.ends.sender.box.sentMessages = s.ends.receivedMessages +
        s.ring.header.messageCount.toUInt64 + s.ends.sender.box.sendOverflows +
        UInt64.ofNat s.lost ∧
      s.ends.receivedMessages = UInt64.ofNat s.ends.onMessage.length := by
  obtain ⟨hcount, hledger, a, b, c, habc, ht⟩ := h.invariant (I := StatsInv)
    (fun _ => StatsInv.init) fun _ _ _ hi hc hst => hi.step hw hc hst
  have hexact := countersExact hcount hledger
  have hbalance := hexact.balance hq
  have hover : reported s.ring.hist.sent = s.ring.hist.evictions := hexact.overwritten hq
  refine ⟨?_, by rw [ht.received, ht.onMessage]⟩
  have hsum : a + s.ring.hist.sent.length = b + s.ring.hist.received.length +
      s.ring.header.messageCount.toNat + (c + reported s.ring.hist.sent) + s.lost := by omega
  rw [ht.sent, ht.received, ht.overwritten, hsum, UInt64.ofNat_add, UInt64.ofNat_add,
    UInt64.ofNat_add, UInt64.ofNat_uInt32ToNat]

theorem ledger_threeMessages : ∃ s : Pipeline,
    (s.ends.sender.box.sentMessages = s.ends.receivedMessages +
        s.ring.header.messageCount.toUInt64 + s.ends.sender.box.sendOverflows +
        UInt64.ofNat s.lost ∧
      s.ends.receivedMessages = UInt64.ofNat s.ends.onMessage.length) ∧
    s.ends.sender.box.sentMessages = 3 ∧ s.ends.receivedMessages = 2 ∧ s.lost = 1 := by
  obtain ⟨s, h, hs⟩ := System.exists_reachWhen (A := pipeline .autoClient 4) (C := Counted)
    (r := threeMessages) (f := fun s => (decide s.ring.Quiet,
      s.ends.sender.box.sentMessages, s.ends.receivedMessages, s.lost))
    (t := (true, 3, 2, 1)) init_fresh (by decide +kernel)
  simp only [Prod.mk.injEq] at hs
  obtain ⟨hq, hrest⟩ := hs
  exact ⟨s, ledger (by decide) h (of_decide_eq_true hq), hrest⟩

end Pipeline

end Sending

end Xshm
