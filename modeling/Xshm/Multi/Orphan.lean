import Xshm.System.History
import Xshm.Endpoint.Words
import Xshm.Multi.Slots

/-!
# A new client while an orphan is handled

`handle_orphaned_slot_disconnect` on one slot and a client that runs `try_claim_slot` and
`SharedClient::connect` there, from any state and in any order.  The `compare_exchange` makes the
slot claimable before `mark_disconnected` stores `IDLE` in the handshake words.  So a client that
wins the claim in between keeps it, but finds its `CLIENT_HELLO` overwritten: `not_unharmed`.

* `unharmed_of_spares` : the client is not harmed if it stores `CLIENT_HELLO` in no word in which
  the handler has yet to store `IDLE`, and its token is not the claim that the handler expects.
-/

namespace Xshm

/-- `mark_disconnected` has yet to store `IDLE` in the word. -/
def MarkDisconnected.ahead : MarkDisconnected → HandshakeWord → Bool
  | .storeServer, _ | .storeA, .ringA | .storeA, .ringB | .storeB, .ringB => true
  | .storeClient, x => x ≠ .server
  | _, _ => false

theorem MarkDisconnected.ahead_word (pc : MarkDisconnected) : pc.ahead pc.word = true := by
  cases pc <;> rfl

theorem MarkDisconnected.ahead_of_goto {A B : Type*} {seg : Segment A B}
    {pc pc' : MarkDisconnected} (h : (pc.step seg).2 = .goto pc') {x : HandshakeWord}
    (hx : pc'.ahead x = true) : pc.ahead x = true := by
  cases pc <;> cases h <;> cases x <;> first | rfl | cases hx

namespace Multi

/-- The word in which the client is about to store `CLIENT_HELLO`. -/
def ClientPc.sends : ClientPc → Option HandshakeWord
  | .connecting .storeClient => some .client
  | .connecting .storeA => some .ringA
  | .connecting .storeB => some .ringB
  | _ => none

/-- The client runs `try_claim_slot` or `connect`. -/
def ClientPc.trying : ClientPc → Bool
  | .claim | .storePid | .connecting _ => true
  | _ => false

/-- The handler has freed the claim and has yet to store `IDLE` in the word. -/
def Worker.ahead : Worker → HandshakeWord → Bool
  | .orphanMark _ _ pc, x => pc.ahead x
  | _, _ => false

variable {ι κ : Type*}

/-- Who moves. -/
inductive Mover where
  | handler
  | client (o : Outcome)

/-- `handle_orphaned_slot_disconnect` with a claim that it expects on slot `k`, after which the
worker has the orphans `rest` to handle, and client `c` on that slot. -/
def orphanRace [DecidableEq ι] (κ : Type*) (cfg : Config ι) (c : ι) (k : ℕ) (expected : UInt32)
    (rest : List (ℕ × UInt32)) : System (State ι κ) Mover where
  init s := s.worker = .orphans ((k, expected) :: rest) ∧ (s.client c).pc = .claim ∧
    (s.client c).slotId = k ∧ (s.client c).token ≠ claimFree ∧ (s.client c).token ∉ s.won
  step s
    | .handler => if s.worker = .orphans rest then none else s.workerStep cfg .signalled
    | .client o =>
      if (s.client c).pc.trying = true ∧ (s.client c).slotId = k then s.clientStep cfg c o
      else none

section

variable (c : ι) (k : ℕ) (expected : UInt32) (rest : List (ℕ × UInt32))

/-- A step replaces the `CLIENT_HELLO` in one of the words by `IDLE`. -/
def Overwrites (sent : List HandshakeWord) (s s' : State ι κ) : Prop :=
  ∃ x ∈ sent, (s.slot k).seg.word x = handshakeClientHello ∧
    (s'.slot k).seg.word x = handshakeIdle

instance (sent : List HandshakeWord) (s s' : State ι κ) : Decidable (Overwrites k sent s s') :=
  inferInstanceAs (Decidable (∃ x ∈ sent, _))

/-- The words in which the client has stored `CLIENT_HELLO`, and whether the handler has overwritten
one of them. -/
structure RaceRecord where
  sent : List HandshakeWord := []
  overwritten : Bool := false

def noteRace (s : State ι κ) (l : Mover) (s' : State ι κ) (g : RaceRecord) : RaceRecord :=
  match l with
  | .handler => { g with overwritten := g.overwritten || decide (Overwrites k g.sent s s') }
  -- a segment that does not open ends `connect` before the first store
  | .client _ =>
    if (s'.client c).pc = .release then g
    else { g with sent := g.sent ++ (s.client c).pc.sends.toList }

/-- The race with its record. -/
def recordedRace [DecidableEq ι] (κ : Type*) (cfg : Config ι) :
    System (State ι κ × RaceRecord) Mover :=
  (orphanRace κ cfg c k expected rest).withHistory {} (noteRace c k)

/-- **A new client is not harmed**: if it has won the claim when the handler has returned, then it
holds it, and the handler has not overwritten its `CLIENT_HELLO`. -/
def Unharmed (p : State ι κ × RaceRecord) : Prop :=
  p.1.worker = .orphans rest → (p.1.client c).token ∈ p.1.won →
    (p.1.slot k).claim = (p.1.client c).token ∧ p.2.overwritten = false

/-- The token of the client is not the claim that the handler expects, and the client stores
`CLIENT_HELLO` in no word in which the handler has yet to store `IDLE`. -/
def Spares (s : State ι κ) : Mover → Prop
  | .handler => True
  | .client _ => (s.client c).token ≠ expected ∧
      ∀ x ∈ (s.client c).pc.sends, s.worker.ahead x = false

instance (s : State ι κ) : (l : Mover) → Decidable (Spares c expected s l)
  | .handler => .isTrue trivial
  | .client _ => inferInstanceAs (Decidable (_ ∧ ∀ x ∈ (s.client c).pc.sends, _))

/-! ### The invariant -/

/-- The program points of the handler. -/
inductive Handling : Worker → Prop
  | head : Handling (.orphans ((k, expected) :: rest))
  | cas : Handling (.orphanCas k expected rest)
  | mark (pc : MarkDisconnected) : Handling (.orphanMark k rest pc)
  | call : Handling (.orphanCall k rest)
  | returned : Handling (.orphans rest)

structure RaceInv (s : State ι κ) (g : RaceRecord) : Prop where
  handler : Handling k expected rest s.worker
  claim : (s.client c).token ∈ s.won →
    (s.slot k).claim = (s.client c).token ∧ (s.client c).token ≠ expected
  trying : (s.client c).pc.trying = true →
    ((s.client c).pc = .claim ↔ (s.client c).token ∉ s.won)
  sent : ∀ x ∈ g.sent, (s.client c).token ∈ s.won ∧ s.worker.ahead x = false
  spared : g.overwritten = false

end

variable {c : ι} {k : ℕ} {expected : UInt32} {rest : List (ℕ × UInt32)}
  {s s' : State ι κ} {g : RaceRecord}

/-- A step of the handler that changes no word in which the client has stored. -/
theorem RaceInv.handle (h : RaceInv c k expected rest s g)
    (hw : Handling k expected rest s'.worker) (hpc : (s'.client c).pc = (s.client c).pc)
    (htoken : (s'.client c).token = (s.client c).token) (hwon : s'.won = s.won)
    (hclaim : (s.client c).token ∈ s.won → (s'.slot k).claim = (s.slot k).claim)
    (hword : ∀ x ∈ g.sent, s'.worker.ahead x = false ∧
      (s'.slot k).seg.word x = (s.slot k).seg.word x) :
    RaceInv c k expected rest s' (noteRace c k s .handler s' g) where
  handler := hw
  claim hmem := by
    rw [htoken, hwon] at hmem
    rw [htoken, hclaim hmem]
    exact h.claim hmem
  trying := by
    rw [hpc, htoken, hwon]
    exact h.trying
  sent x hx := by
    rw [htoken, hwon]
    exact ⟨(h.sent x hx).1, (hword x hx).1⟩
  spared := by
    have hnot : ¬ Overwrites k g.sent s s' := by
      rintro ⟨x, hx, hhello, hidle⟩
      rw [(hword x hx).2, hhello] at hidle
      exact absurd hidle (by decide)
    simp only [noteRace, hnot, decide_false, Bool.or_false]
    exact h.spared

theorem RaceInv.handlerStep {cfg : Config ι} (h : RaceInv c k expected rest s g)
    (hrest : s.worker ≠ .orphans rest) (hst : s.workerStep cfg .signalled = some s') :
    RaceInv c k expected rest s' (noteRace c k s .handler s' g) := by
  have hsent : ∀ x ∈ g.sent, s.worker.ahead x = false := fun x hx => (h.sent x hx).2
  have hh := h.handler
  simp only [State.workerStep] at hst
  generalize hs : s.worker = t at hh
  cases hh with
  | head =>
    simp only [hs] at hst
    split_ifs at hst <;> cases hst
    · refine h.handle .cas rfl rfl rfl (fun _ => ?_) fun x _ => ⟨rfl, ?_⟩
      · simp [State.lock, State.setWorker]
      · simp [State.lock, State.setWorker]
    · exact h.handle .returned rfl rfl rfl (fun _ => rfl) fun x _ => ⟨rfl, rfl⟩
  | cas =>
    simp only [hs] at hst
    split_ifs at hst with hclaim <;> cases hst
    · -- the client has not won the claim, and has stored nothing
      have hnot : (s.client c).token ∉ s.won := fun hmem => by
        obtain ⟨hheld, hne⟩ := h.claim hmem
        exact hne (hheld.symm.trans hclaim)
      refine h.handle (.mark .storeServer) rfl rfl rfl (fun hmem => absurd hmem hnot) ?_
      exact fun x hx => absurd (h.sent x hx).1 hnot
    · refine h.handle .returned rfl rfl rfl (fun _ => ?_) fun x _ => ⟨rfl, ?_⟩
      · simp [State.unlock, State.setWorker]
      · simp [State.unlock, State.setWorker]
  | mark pc =>
    simp only [hs] at hst
    have hword : ∀ x ∈ g.sent, (pc.step (s.slot k).seg).1.word x = (s.slot k).seg.word x := by
      intro x hx
      rw [MarkDisconnected.step_word, Function.update_of_ne]
      rintro rfl
      have hahead := hsent _ hx
      rw [hs] at hahead
      cases hahead.symm.trans pc.ahead_word
    split at hst <;> rename_i seg next hn <;> rw [hn] at hword <;> cases hst
    · refine h.handle (.mark _) rfl rfl rfl (fun _ => ?_) fun x hx => ⟨?_, ?_⟩
      · simp [State.setSeg, State.setWorker]
      · have hpc := hsent x hx
        rw [hs] at hpc
        refine Bool.eq_false_iff.2 fun hnext => ?_
        cases hpc.symm.trans (MarkDisconnected.ahead_of_goto (congrArg Prod.snd hn) hnext)
      · simpa [State.setSeg, State.setWorker] using hword x hx
    · refine h.handle .call rfl rfl rfl (fun _ => ?_) fun x hx => ⟨rfl, ?_⟩
      · simp [State.setSeg, State.unlock, State.setWorker]
      · simpa [State.setSeg, State.unlock, State.setWorker] using hword x hx
  | call =>
    simp only [hs] at hst
    cases hst
    refine h.handle .returned rfl rfl rfl (fun _ => ?_) fun x _ => ⟨rfl, ?_⟩
    · simp [State.call, Slot.call, State.setWorker]
    · simp [State.call, Slot.call, State.setWorker]
  | returned => exact absurd hs hrest

theorem mem_noteRace {o : Outcome} {x : HandshakeWord}
    (hx : x ∈ (noteRace c k s (.client o) s' g).sent) :
    x ∈ g.sent ∨ (s.client c).pc.sends = some x := by
  simp only [noteRace] at hx
  split_ifs at hx
  · exact .inl hx
  · rcases List.mem_append.1 hx with hx | hx
    · exact .inl hx
    · exact .inr (Option.mem_toList.1 hx)

theorem noteRace_overwritten {o : Outcome} :
    (noteRace c k s (.client o) s' g).overwritten = g.overwritten := by
  simp only [noteRace]
  split_ifs <;> rfl

/-- What the client stores is not ahead of the handler. -/
theorem RaceInv.sent_client (h : RaceInv c k expected rest s g) {o : Outcome}
    (hC : Spares c expected s (.client o)) :
    ∀ x ∈ (noteRace c k s (.client o) s' g).sent,
      (s.client c).token ∈ s.won ∧ s.worker.ahead x = false := by
  intro x hx
  rcases mem_noteRace hx with hx | hx
  · exact h.sent x hx
  · refine ⟨?_, hC.2 x hx⟩
    by_contra hnot
    cases hpc : (s.client c).pc <;> rw [hpc] at hx <;> try cases hx
    have hclaim := (h.trying (by rw [hpc]; rfl)).2 hnot
    cases hpc.symm.trans hclaim

section

variable [DecidableEq ι] {cfg : Config ι}

/-- The client goes on, and leaves the claim as it is. -/
theorem RaceInv.goOn (h : RaceInv c k expected rest s g) {o : Outcome} {cl : Client}
    (hC : Spares c expected s (.client o))
    (hworker : s'.worker = s.worker) (hwon : s'.won = s.won)
    (hclaim : (s'.slot k).claim = (s.slot k).claim) (htoken : cl.token = (s.client c).token)
    (hpc : cl.pc.trying = true → (s.client c).pc.trying = true ∧
      (cl.pc = .claim ↔ (s.client c).pc = .claim)) :
    RaceInv c k expected rest (s'.setClient c cl)
      (noteRace c k s (.client o) (s'.setClient c cl) g) := by
  have hcl : (s'.setClient c cl).client c = cl := by simp [State.setClient]
  have hworker' : (s'.setClient c cl).worker = s.worker := hworker
  have hwon' : (s'.setClient c cl).won = s.won := hwon
  have hclaim' : ((s'.setClient c cl).slot k).claim = (s.slot k).claim := hclaim
  refine ⟨?_, ?_, ?_, ?_, noteRace_overwritten.trans h.spared⟩
  · rw [hworker']
    exact h.handler
  · rw [hcl, htoken, hwon', hclaim']
    exact h.claim
  · rw [hcl, htoken, hwon']
    intro htry
    obtain ⟨htry, hiff⟩ := hpc htry
    exact hiff.trans (h.trying htry)
  · rw [hcl, htoken, hwon', hworker']
    exact h.sent_client hC

/-- The client wins the claim. -/
theorem RaceInv.win (h : RaceInv c k expected rest s g) {o : Outcome}
    (hk : (s.client c).slotId = k) (hC : Spares c expected s (.client o)) :
    let s' := ((s.recordWin (s.client c).token).setSlot (s.client c).slotId
      { s.slot (s.client c).slotId with claim := (s.client c).token }).setClient c
        { s.client c with pc := .storePid, wonAt := s.now, entitled := true }
    RaceInv c k expected rest s' (noteRace c k s (.client o) s' g) := by
  intro s'
  subst hk
  have hcl : s'.client c =
      { s.client c with pc := .storePid, wonAt := s.now, entitled := true } := by
    simp [s', State.setClient]
  have hwon : (s.client c).token ∈ s'.won := Finset.mem_insert_self _ _
  refine ⟨h.handler, ?_, ?_, ?_, noteRace_overwritten.trans h.spared⟩
  · rw [hcl]
    refine fun _ => ⟨?_, hC.1⟩
    exact congrArg Slot.claim (State.setSlot_slot_self _ _ _)
  · rw [hcl]
    exact fun _ => iff_of_false (by rintro ⟨⟩) (not_not_intro hwon)
  · rw [hcl]
    intro x hx
    exact ⟨hwon, (h.sent_client hC x hx).2⟩

theorem RaceInv.connectStep (h : RaceInv c k expected rest s g) {pc : Connect} {w : WaitOutcome}
    (hpc : (s.client c).pc = .connecting pc) (hk : (s.client c).slotId = k)
    (hC : Spares c expected s (.client (.wait w))) (hst : s.connectStep c pc w = some s') :
    RaceInv c k expected rest s' (noteRace c k s (.client (.wait w)) s' g) := by
  subst hk
  rw [State.connectStep] at hst
  split_ifs at hst
  · cases hst
    exact h.goOn hC rfl rfl rfl rfl (by rintro ⟨⟩)
  · obtain ⟨⟨seg, next⟩, -, rfl⟩ := Option.map_eq_some_iff.1 hst
    refine h.goOn hC rfl rfl ?_ ?_ ?_
    · simp
    · rcases next with pc' | (e | u) <;> rfl
    · rw [hpc]
      rcases next with pc' | (e | u)
      · exact fun _ => ⟨rfl, by simp⟩
      · rintro ⟨⟩
      · rintro ⟨⟩

theorem RaceInv.clientStep (h : RaceInv c k expected rest s g) {o : Outcome}
    (htry : (s.client c).pc.trying = true) (hk : (s.client c).slotId = k)
    (hC : Spares c expected s (.client o)) (hst : s.clientStep cfg c o = some s') :
    RaceInv c k expected rest s' (noteRace c k s (.client o) s' g) := by
  simp only [State.clientStep] at hst
  cases hpc : (s.client c).pc <;> simp only [hpc] at hst <;> rw [hpc] at htry
  case claim =>
    split_ifs at hst with hslots hfree <;> cases hst
    · exact h.win hk hC
    · exact h.goOn hC rfl rfl rfl rfl fun _ => by rw [hpc]; exact ⟨rfl, Iff.rfl⟩
    · exact h.goOn hC rfl rfl rfl rfl (by rintro ⟨⟩)
  case storePid =>
    cases hst
    refine h.goOn hC rfl rfl ?_ rfl fun _ => ?_
    · subst hk
      simp
    · rw [hpc]
      exact ⟨rfl, by simp⟩
  case connecting pc =>
    cases o <;> simp only [reduceCtorEq] at hst
    exact h.connectStep hpc hk hC hst
  all_goals cases htry

theorem RaceInv.step (h : RaceInv c k expected rest s g) {l : Mover} (hC : Spares c expected s l)
    (hst : (orphanRace κ cfg c k expected rest).step s l = some s') :
    RaceInv c k expected rest s' (noteRace c k s l s' g) := by
  cases l with
  | handler =>
    simp only [orphanRace] at hst
    split_ifs at hst with hrest
    exact h.handlerStep hrest hst
  | client o =>
    simp only [orphanRace] at hst
    split_ifs at hst with htry
    exact h.clientStep htry.1 htry.2 hC hst

/-- **A new client is not harmed** in any interleaving in which it stores `CLIENT_HELLO` in no word
in which the handler has yet to store `IDLE`. -/
theorem unharmed_of_spares (κ : Type*) (cfg : Config ι) (c : ι) (k : ℕ) (expected : UInt32)
    (rest : List (ℕ × UInt32)) {p : State ι κ × RaceRecord}
    (h : (recordedRace c k expected rest κ cfg).ReachWhen (fun p l => Spares c expected p.1 l) p) :
    Unharmed c k rest p := by
  have hinv : RaceInv c k expected rest p.1 p.2 := by
    refine System.ReachWhen.invariant (I := fun p : State ι κ × RaceRecord =>
      RaceInv c k expected rest p.1 p.2) ?_ ?_ h
    · rintro ⟨s, g⟩ ⟨⟨hworker, hpc, hk, -, hwon⟩, rfl⟩
      refine ⟨?_, fun hmem => absurd hmem hwon, fun _ => ?_, by rintro x ⟨⟩, rfl⟩
      · rw [hworker]
        exact .head
      · exact iff_of_true hpc hwon
    · intro p l p' hI hC hst
      obtain ⟨hstep, hg⟩ := System.withHistory_step.1 hst
      rw [hg]
      exact hI.step hC hstep
  exact fun _ hmem => ⟨(hinv.claim hmem).1, hinv.spared⟩

/-- A slot whose client is gone without a signal, which the worker has found, and a new client. -/
def orphaned : State Unit Unit where
  slot _ := { connected := true, serverConnected := true }
  worker := .orphans [(0, claimFree)]
  client _ := { pc := .claim, token := 5 }

/-- The client claims the slot and stores its PID and `CLIENT_HELLO`. -/
def hello : List Mover := List.replicate 5 (.client (.wait .signalled))

theorem unharmed_of_spares_after : ∃ p : State Unit Unit × RaceRecord,
    (p.1.worker = .orphans [] ∧ p.1.won = {5} ∧ p.2.sent = [.client, .ringA, .ringB]) ∧
      Unharmed () 0 [] p := by
  obtain ⟨p, h, hp⟩ := System.exists_reachWhen
    (A := recordedRace () 0 claimFree [] Unit (oneSlot Unit))
    (C := fun p l => Spares () claimFree p.1 l) (s := (orphaned, {}))
    (r := List.replicate 7 .handler ++ hello) (f := fun p => (p.1.worker, p.1.won, p.2.sent))
    (t := (.orphans [], {5}, [.client, .ringA, .ringB]))
    ⟨⟨rfl, rfl, rfl, by decide, by decide⟩, rfl⟩ (by decide +kernel)
  simp only [Prod.mk.injEq] at hp
  exact ⟨p, hp, unharmed_of_spares Unit _ _ _ _ _ h⟩

/-- The client wins the claim after the handler has freed it, and stores `CLIENT_HELLO` before the
handler stores `IDLE`. -/
theorem not_unharmed : ¬ ∀ (ι κ : Type) [DecidableEq ι] (cfg : Config ι) (c : ι) (k : ℕ)
    (expected : UInt32) (rest : List (ℕ × UInt32)) (p : State ι κ × RaceRecord),
    (recordedRace c k expected rest κ cfg).Reach p → Unharmed c k rest p := by
  intro h
  obtain ⟨p, hr, hp⟩ := System.exists_reachWhen
    (A := recordedRace () 0 claimFree [] Unit (oneSlot Unit)) (C := fun _ _ => True)
    (s := (orphaned, {})) (r := List.replicate 2 .handler ++ hello ++ List.replicate 5 .handler)
    (f := fun p => (p.1.worker, p.1.won, (p.1.client ()).token, p.2.overwritten))
    (t := (.orphans [], {5}, 5, true)) ⟨⟨rfl, rfl, rfl, by decide, by decide⟩, rfl⟩
    (by decide +kernel)
  simp only [Prod.mk.injEq] at hp
  obtain ⟨hworker, hwon, htoken, hover⟩ := hp
  have hmem : (p.1.client ()).token ∈ p.1.won := by
    rw [hwon, htoken]
    decide
  cases hover.symm.trans (h Unit Unit _ () 0 claimFree [] p hr hworker hmem).2

end

end Multi

end Xshm
