import Xshm.Multi.Exclusion

/-!
# What the server leaves alone, and what a client does

Two descriptions of a step, for the invariants that speak of claim words, PIDs and clients.

* `SameClients` : a step of the server (the worker or an application thread) moves no client,
  writes no PID, and changes a claim word only to `CLAIM_FREE` (`step_sameClients`).
* `ClientMove` : what a step of a client can be (`clientStep_cases`).

With them, the tokens in the claim words are known in every run (`TokenInv`): each was generated
once, by one client, and is in no word before that client wins it.
-/

namespace Xshm

namespace Multi

variable {ι κ : Type*}

/-! ### Steps of the server -/

/-- What the server can do to a slot, at that time: it stores no PID and no token, and it dates a
claim on a slot that is not connected only to the present. -/
structure Slot.Served (now : ℕ) (sl sl' : Slot κ) : Prop where
  ownerPid : sl'.ownerPid = sl.ownerPid
  claim : sl'.claim = sl.claim ∨ sl'.claim = claimFree
  seen : sl'.connected = false → ∀ t ∈ sl'.claimSeenAt,
    t = now ∨ sl.connected = false ∧ t ∈ sl.claimSeenAt

namespace Slot.Served

variable {now : ℕ} {sl sl' sl'' : Slot κ}

theorem trans (h : sl.Served now sl') (h' : sl'.Served now sl'') : sl.Served now sl'' where
  ownerPid := h'.ownerPid.trans h.ownerPid
  claim := by
    rcases h'.claim with hc | hc
    · rw [hc]
      exact h.claim
    · exact .inr hc
  seen hcon t ht := by
    rcases h'.seen hcon t ht with rfl | ⟨hcon', ht'⟩
    · exact .inl rfl
    · exact h.seen hcon' t ht'

/-- Nothing changes that concerns the claim. -/
theorem keep (h : (sl'.ownerPid, sl'.claim, sl'.connected, sl'.claimSeenAt) =
    (sl.ownerPid, sl.claim, sl.connected, sl.claimSeenAt)) : sl.Served now sl' := by
  simp only [Prod.mk.injEq] at h
  obtain ⟨hp, hc, hcon, hat⟩ := h
  refine ⟨hp, .inl hc, fun hcon' t ht => .inr ⟨hcon ▸ hcon', ?_⟩⟩
  rwa [← hat]

/-- `claim_seen_at` is reset, or the slot is connected. -/
theorem unseen (hp : sl'.ownerPid = sl.ownerPid)
    (hc : sl'.claim = sl.claim ∨ sl'.claim = claimFree)
    (hat : sl'.claimSeenAt = none) : sl.Served now sl' := by
  refine ⟨hp, hc, fun _ t ht => ?_⟩
  rw [hat] at ht
  cases ht

theorem releaseSlotClaim : sl.Served now sl.releaseSlotClaim :=
  ⟨rfl, .inr rfl, fun hc _ ht => .inr ⟨hc, ht⟩⟩

theorem see (claim : UInt32) : sl.Served now (sl.see now claim) :=
  ⟨rfl, .inl rfl, fun _ _ ht => .inl (Option.some_injective _ ht).symm⟩

theorem reclaim (claim : UInt32) : sl.Served now (sl.reclaim now claim) := by
  rw [Slot.reclaim]
  split_ifs
  · exact .unseen rfl (.inl rfl) rfl
  · split
    · exact .see claim
    · split_ifs
      · exact .unseen rfl (.inr rfl) rfl
      · exact .keep rfl

end Slot.Served

/-- What the invariants of this file and the next ones know of a client. -/
def Client.core (cl : Client) := (cl.pc, cl.slotId, cl.token, cl.wonAt)

/-- `s'` comes from `s` by a step of the server, or of nobody. -/
structure SameClients (s s' : State ι κ) : Prop where
  client : ∀ c, (s'.client c).core = (s.client c).core
  slot : ∀ k, (s.slot k).Served s.now (s'.slot k)
  now : s'.now = s.now
  exited : s'.exited = s.exited
  used : s'.used = s.used
  won : s'.won = s.won

namespace SameClients

variable {s s' : State ι κ} {k : ℕ}

theorem refl : SameClients s s :=
  ⟨fun _ => rfl, fun _ => .keep rfl, rfl, rfl, rfl, rfl⟩

theorem setSlot (h : SameClients s s') {sl : Slot κ} (hk : (s'.slot k).Served s.now sl) :
    SameClients s (s'.setSlot k sl) :=
  { h with
    slot := State.forall_setSlot (P := fun j (sl : Slot κ) => (s.slot j).Served s.now sl)
      ((h.slot k).trans hk) h.slot }

theorem setWorker (h : SameClients s s') (t : Worker) : SameClients s (s'.setWorker t) := { h with }

theorem setApp [DecidableEq κ] (h : SameClients s s') (a : κ) (t : App) :
    SameClients s (s'.setApp a t) := { h with }

theorem endSession (h : SameClients s s') : SameClients s (s'.endSession k) := { h with }

theorem recordEnd (h : SameClients s s') (e : Ended) : SameClients s (s'.recordEnd e) := { h with }

theorem setSeg (h : SameClients s s') (seg : Segment (Message UInt32) (Message UInt32)) :
    SameClients s (s'.setSeg k seg) := h.setSlot (.keep rfl)

theorem lock (h : SameClients s s') (o : Owner κ) : SameClients s (s'.lock k o) :=
  h.setSlot (.keep rfl)

theorem unlock (h : SameClients s s') : SameClients s (s'.unlock k) := h.setSlot (.keep rfl)

theorem call (h : SameClients s s') (e : Callback) : SameClients s (s'.call k e) :=
  h.setSlot (.keep rfl)

theorem pc (h : SameClients s s') (c : ι) : (s'.client c).pc = (s.client c).pc :=
  congrArg Prod.fst (h.client c)

theorem slotId (h : SameClients s s') (c : ι) : (s'.client c).slotId = (s.client c).slotId :=
  congrArg (fun t => t.2.1) (h.client c)

theorem token (h : SameClients s s') (c : ι) : (s'.client c).token = (s.client c).token :=
  congrArg (fun t => t.2.2.1) (h.client c)

theorem wonAt (h : SameClients s s') (c : ι) : (s'.client c).wonAt = (s.client c).wonAt :=
  congrArg (fun t => t.2.2.2) (h.client c)

end SameClients

section Server

variable {s s' : State ι κ}

theorem WorkerMove.sameClients {cfg : Config ι} {l : Label ι κ} (hm : WorkerMove cfg s l s') :
    SameClients s s' := by
  have h : SameClients s s := .refl
  cases hm with
  | goes | loads | ackFails => exact h.setWorker _
  | takes => exact (h.lock _).setWorker _
  | drops | checks => exact h.unlock.setWorker _
  | calls => exact (h.call _).setWorker _
  | @consumes _ e => cases e <;> exact (h.setSlot (.keep (by rfl))).setWorker _
  | sees => exact (h.setSlot (.see _)).setWorker _
  | reclaims => exact (h.setSlot (.reclaim _)).unlock.setWorker _
  | orphans =>
    exact (h.endSession.setSlot (.unseen (by rfl) (.inr (by rfl)) (by rfl))).setWorker _
  | orphanMarks | marks | marked | receives => exact (h.setSeg _).setWorker _
  | orphanMarked => exact (h.setSeg _).unlock.setWorker _
  | handshakes => exact (h.setSlot (.keep (by rfl))).setWorker _
  | accepts => exact (h.setSlot (.unseen (by rfl) (.inl (by rfl)) (by rfl))).setWorker _
  | refuses => exact (h.setSlot (.unseen (by rfl) (.inr (by rfl)) (by rfl))).setWorker _
  | ends =>
    refine SameClients.setWorker (.setSlot (h.endSession.recordEnd _) ?_) _
    exact .unseen rfl (.inl rfl) rfl
  | clears => exact (h.setSlot (.unseen (by rfl) (.inl (by rfl)) (by rfl))).setWorker _
  | releases => exact (h.setSlot .releaseSlotClaim).unlock.setWorker _

theorem appStep_sameClients [DecidableEq κ] {a : κ} {w : WaitOutcome}
    (hst : s.appStep a w = some s') : SameClients s s' := by
  have h : SameClients s s := .refl
  rw [State.appStep] at hst
  cases hs : s.app a <;> simp only [hs] at hst
  case idle => cases hst
  case setEvent => split at hst <;> cases hst <;> exact (h.setSlot (.keep (by rfl))).setApp a _
  case marking => split at hst <;> cases hst <;> exact (h.setSeg _).setApp a _
  case release =>
    cases hst
    exact (h.setSlot .releaseSlotClaim).unlock.setApp a _
  case callDisconnect =>
    cases hst
    exact (h.call _).setApp a _

/-- The step is not one of a client, of the clock, or of a process that exits. -/
def Label.keepsClients : Label ι κ → Bool
  | .client .. | .tick _ | .exit _ => false
  | _ => true

theorem step_sameClients [DecidableEq ι] [DecidableEq κ] {cfg : Config ι} {l : Label ι κ}
    (hl : l.keepsClients = true) (hst : s.step cfg l = some s') : SameClients s s' := by
  have h : SameClients s s := .refl
  cases l <;> simp only [State.step] at hst
  case tick | exit | client => cases hl
  case stop => cases hst; exact { h with }
  case shutdown c =>
    cases hst
    exact { h with
      client := State.forall_setClient (P := fun d (cl : Client) => cl.core = (s.client d).core)
        rfl fun _ => rfl }
  case worker w => exact (workerStep_move hst).sameClients
  case alive b => exact (aliveStep_move cfg hst).sameClients
  case app a w => exact appStep_sameClients hst
  case disconnectClient a k =>
    split_ifs at hst <;> cases hst
    · exact (h.endSession.setSlot (.unseen (by rfl) (.inl (by rfl)) (by rfl))).setApp a _
    · exact h
  case sendTo k p =>
    split_ifs at hst <;> cases hst
    · exact h.setSeg _
    · exact h

end Server

/-! ### Steps of a client -/

/-- The words of a slot that clients compare and store. -/
def Slot.words (sl : Slot κ) := (sl.claim, sl.ownerPid)

/-- A step of client `c` that stores no claim and no PID, and does not win or begin a claim. -/
structure QuietMove (s : State ι κ) (c : ι) (s' : State ι κ) : Prop where
  others : ∀ d, d ≠ c → s'.client d = s.client d
  words : ∀ k, (s'.slot k).words = (s.slot k).words
  token : (s'.client c).token = (s.client c).token
  wonAt : (s'.client c).wonAt = (s.client c).wonAt
  claiming : (s'.client c).pc = .claim → (s.client c).pc = .claim
  holds : (s'.client c).pc.holds = true →
    (s.client c).pc.holds = true ∧ (s'.client c).slotId = (s.client c).slotId
  storePid : (s.client c).pc ≠ .storePid ∧ (s'.client c).pc ≠ .storePid
  used : s'.used = s.used
  won : s'.won = s.won
  exited : s'.exited = s.exited

/-- What a step of client `c` can be. -/
inductive ClientMove [DecidableEq ι] (cfg : Config ι) (s : State ι κ) (c : ι) : State ι κ → Prop
  | token {t : UInt32} : (s.client c).pc = .head → t ≠ claimFree → t ∉ s.used →
      ClientMove cfg s c ((s.recordToken t).setClient c
        { s.client c with pc := .claim, slotId := 0, token := t })
  | win : (s.client c).pc = .claim → (s.slot (s.client c).slotId).claim = claimFree →
      ClientMove cfg s c (((s.recordWin (s.client c).token).setSlot (s.client c).slotId
        { s.slot (s.client c).slotId with claim := (s.client c).token }).setClient c
          { s.client c with pc := .storePid, wonAt := s.now, entitled := true })
  | storePid : (s.client c).pc = .storePid →
      ClientMove cfg s c ((s.setSlot (s.client c).slotId
        { s.slot (s.client c).slotId with ownerPid := cfg.pid c }).setClient c
          { s.client c with pc := .connecting .storeClient })
  | release : (s.client c).pc = .release →
      ClientMove cfg s c ((s.setSlot (s.client c).slotId
        (if (s.slot (s.client c).slotId).claim = (s.client c).token then
          (s.slot (s.client c).slotId).releaseSlotClaim
        else s.slot (s.client c).slotId)).setClient c { s.client c with pc := .delay })
  | quiet {s' : State ι κ} : QuietMove s c s' → ClientMove cfg s c s'

section Client

variable [DecidableEq ι] {cfg : Config ι} {s s' : State ι κ} {c : ι}

/-- A slot changes outside the words, and the client goes on. -/
theorem QuietMove.mk_setSlot {k : ℕ} {sl : Slot κ} {cl : Client}
    (hw : sl.words = (s.slot k).words) (ht : cl.token = (s.client c).token)
    (hat : cl.wonAt = (s.client c).wonAt) (hc : cl.pc = .claim → (s.client c).pc = .claim)
    (hh : cl.pc.holds = true → (s.client c).pc.holds = true ∧ cl.slotId = (s.client c).slotId)
    (hp : (s.client c).pc ≠ .storePid) (hp' : cl.pc ≠ .storePid) :
    QuietMove s c ((s.setSlot k sl).setClient c cl) where
  others d hd := by simp [State.setClient, hd, State.setSlot]
  words := State.forall_setSlot (P := fun j (sl : Slot κ) => sl.words = (s.slot j).words) hw
    fun _ => rfl
  token := by simpa [State.setClient] using ht
  wonAt := by simpa [State.setClient] using hat
  claiming := by simpa [State.setClient] using hc
  holds := by simpa [State.setClient] using hh
  storePid := ⟨hp, by simpa [State.setClient] using hp'⟩
  used := rfl
  won := rfl
  exited := rfl

omit [DecidableEq ι] in
theorem QuietMove.claim (h : QuietMove s c s') (k : ℕ) : (s'.slot k).claim = (s.slot k).claim :=
  congrArg Prod.fst (h.words k)

omit [DecidableEq ι] in
theorem QuietMove.ownerPid (h : QuietMove s c s') (k : ℕ) :
    (s'.slot k).ownerPid = (s.slot k).ownerPid :=
  congrArg Prod.snd (h.words k)

/-- No slot changes. -/
theorem QuietMove.setClient {cl : Client}
    (h : QuietMove s c ((s.setSlot 0 (s.slot 0)).setClient c cl)) :
    QuietMove s c (s.setClient c cl) := by
  rwa [State.setSlot_self] at h

/-- The client does not go on. -/
theorem QuietMove.setSlot {k : ℕ} {sl : Slot κ}
    (h : QuietMove s c ((s.setSlot k sl).setClient c (s.client c))) :
    QuietMove s c (s.setSlot k sl) := by
  have hself : (s.setSlot k sl).setClient c (s.client c) = s.setSlot k sl := by
    simp [State.setClient, State.setSlot]
  rwa [hself] at h

/-- A client that holds a claim goes on with it. -/
theorem QuietMove.holder {k : ℕ} {sl : Slot κ} {pc : ClientPc}
    (hw : sl.words = (s.slot k).words) (hc : (s.client c).pc.holds = true)
    (hp : (s.client c).pc ≠ .storePid) (hpc : pc.holds = true) (hp' : pc ≠ .storePid) :
    QuietMove s c ((s.setSlot k sl).setClient c { s.client c with pc := pc }) := by
  refine .mk_setSlot hw rfl rfl (fun h => ?_) (fun _ => ⟨hc, rfl⟩) hp hp'
  rw [show pc = .claim from h] at hpc
  cases hpc

/-- A client that holds no claim afterwards, and does not try for one. -/
theorem QuietMove.leaver {k : ℕ} {sl : Slot κ} {cl : Client}
    (hw : sl.words = (s.slot k).words) (ht : cl.token = (s.client c).token)
    (hat : cl.wonAt = (s.client c).wonAt) (hp : (s.client c).pc ≠ .storePid)
    (hpc : cl.pc = .release ∨ cl.pc = .delay ∨ cl.pc = .ended ∨ cl.pc = .head) :
    QuietMove s c ((s.setSlot k sl).setClient c cl) := by
  refine .mk_setSlot hw ht hat (fun h => ?_) (fun h => ?_) hp fun h => ?_ <;>
    rcases hpc with hpc | hpc | hpc | hpc <;> rw [hpc] at h <;> cases h

theorem connectStep_quiet {pc : Connect} {w : WaitOutcome}
    (hpc : (s.client c).pc = .connecting pc) (hst : s.connectStep c pc w = some s') :
    QuietMove s c s' := by
  have hp : (s.client c).pc ≠ .storePid := by rw [hpc]; rintro ⟨⟩
  have hc : (s.client c).pc.holds = true := by rw [hpc]; rfl
  rw [State.connectStep] at hst
  split_ifs at hst
  · cases hst
    exact .setClient (.leaver (by rfl) (by rfl) (by rfl) hp (.inl (by rfl)))
  · obtain ⟨⟨seg, next⟩, -, rfl⟩ := Option.map_eq_some_iff.1 hst
    rcases next with pc' | (e | u)
    · exact .holder rfl hc hp rfl (by rintro ⟨⟩)
    · exact .leaver (by rfl) (by rfl) (by rfl) hp (.inl (by rfl))
    · exact .holder rfl hc hp rfl (by rintro ⟨⟩)

theorem clientStep_cases {o : Outcome} (hst : s.clientStep cfg c o = some s') :
    ClientMove cfg s c s' := by
  simp only [State.clientStep] at hst
  cases hpc : (s.client c).pc <;> simp only [hpc] at hst
  case head =>
    have hp : (s.client c).pc ≠ .storePid := by rw [hpc]; rintro ⟨⟩
    split_ifs at hst
    · cases hst
      exact .quiet (.setClient (.leaver rfl rfl rfl hp (.inr (.inr (.inl rfl)))))
    · cases o <;> simp only [reduceCtorEq] at hst
      split_ifs at hst with ht
      cases hst
      exact .token hpc ht.1 ht.2
  case claim =>
    have hp : (s.client c).pc ≠ .storePid := by rw [hpc]; rintro ⟨⟩
    split_ifs at hst with hk hf <;> cases hst
    · exact .win hpc hf
    · exact .quiet (.setClient (.mk_setSlot (by rfl) (by rfl) (by rfl) (fun _ => hpc)
        (by rintro ⟨⟩) hp (by rintro ⟨⟩)))
    · exact .quiet (.setClient (.leaver rfl rfl rfl hp (.inr (.inl rfl))))
  case storePid =>
    cases hst
    exact .storePid hpc
  case release =>
    cases hst
    exact .release hpc
  all_goals have hp : (s.client c).pc ≠ .storePid := by rw [hpc]; rintro ⟨⟩
  case connecting pc =>
    cases o <;> simp only [reduceCtorEq] at hst
    exact .quiet (connectStep_quiet hpc hst)
  case delay =>
    cases hst
    refine .quiet (.setClient (.leaver rfl rfl rfl hp ?_))
    dsimp only
    split_ifs
    exacts [.inr (.inr (.inr rfl)), .inr (.inr (.inl rfl))]
  case ended => cases hst
  all_goals have hc : (s.client c).pc.holds = true := by rw [hpc]; rfl
  case setData =>
    cases hst
    exact .quiet (.holder rfl hc hp rfl (by rintro ⟨⟩))
  case connected =>
    cases hst
    refine .quiet (.setClient (.holder rfl hc hp ?_ ?_)) <;> split_ifs <;> first | rfl | rintro ⟨⟩
  case transfer =>
    cases o <;> simp only [reduceCtorEq] at hst <;> cases hst
    · refine .quiet (.holder rfl hc hp ?_ ?_) <;> split_ifs <;> first | rfl | rintro ⟨⟩
    · exact .quiet (.setSlot (.mk_setSlot (by rfl) rfl rfl id (fun h => ⟨h, rfl⟩) hp hp))
    · exact .quiet (.setClient (.holder rfl hc hp rfl (by rintro ⟨⟩)))
  case waitAny =>
    cases o with
    | any r =>
      cases r <;> simp only at hst
      case disconnect =>
        split_ifs at hst
        cases hst
        exact .quiet (.holder rfl hc hp rfl (by rintro ⟨⟩))
      case other =>
        split_ifs at hst
        cases hst
        exact .quiet (.setClient (.holder rfl hc hp rfl (by rintro ⟨⟩)))
      case failed =>
        cases hst
        exact .quiet (.setClient (.holder rfl hc hp rfl (by rintro ⟨⟩)))
    | _ => cases hst
  case dropping pc =>
    split at hst <;> cases hst
    · exact .quiet (.holder rfl hc hp rfl (by rintro ⟨⟩))
    · exact .quiet (.leaver rfl rfl rfl hp (.inl rfl))

end Client

/-! ### The tokens -/

/-- Every token was generated once, by one client, and no claim word holds one that has not been
won. -/
structure TokenInv (s : State ι κ) : Prop where
  token_inj : ∀ c d, (s.client c).token = (s.client d).token → (s.client c).token ≠ claimFree →
    c = d
  token_used : ∀ c, (s.client c).token = claimFree ∨ (s.client c).token ∈ s.used
  won_used : s.won ⊆ s.used
  claimFree_used : claimFree ∉ s.used
  claiming : ∀ c, (s.client c).pc = .claim →
    (s.client c).token ∉ s.won ∧ (s.client c).token ≠ claimFree
  claim : ∀ k, (s.slot k).claim = claimFree ∨ (s.slot k).claim ∈ s.won
  wonAt : ∀ c, (s.client c).wonAt ≤ s.now

namespace TokenInv

variable {s s' : State ι κ}

theorem init : TokenInv ({} : State ι κ) := by
  constructor <;> simp [claimFree]

theorem sameClients (h : TokenInv s) (hs : SameClients s s') : TokenInv s' where
  token_inj c d := by
    rw [hs.token, hs.token]
    exact h.token_inj c d
  token_used c := by
    rw [hs.token, hs.used]
    exact h.token_used c
  won_used := by
    rw [hs.won, hs.used]
    exact h.won_used
  claimFree_used := by
    rw [hs.used]
    exact h.claimFree_used
  claiming c := by
    rw [hs.pc, hs.token, hs.won]
    exact h.claiming c
  claim k := by
    rcases (hs.slot k).claim with hc | hc
    · rw [hc, hs.won]
      exact h.claim k
    · exact .inl hc
  wonAt c := by
    rw [hs.wonAt, hs.now]
    exact h.wonAt c

variable {c : ι}

/-- Nobody has a token that has not been generated. -/
theorem token_ne (h : TokenInv s) {t : UInt32} (ht : t ≠ claimFree) (hu : t ∉ s.used) (d : ι) :
    (s.client d).token ≠ t := by
  rintro rfl
  exact (h.token_used d).elim ht hu

theorem quiet [DecidableEq ι] (h : TokenInv s) (hq : QuietMove s c s') (hnow : s'.now = s.now) :
    TokenInv s' := by
  have htok (d : ι) : (s'.client d).token = (s.client d).token := by
    by_cases hd : d = c
    · rw [hd, hq.token]
    · rw [hq.others d hd]
  refine ⟨fun d e => ?_, fun d => ?_, ?_, ?_, fun d hd => ?_, fun k => ?_, fun d => ?_⟩
  · rw [htok, htok]
    exact h.token_inj d e
  · rw [htok, hq.used]
    exact h.token_used d
  · rw [hq.won, hq.used]
    exact h.won_used
  · rw [hq.used]
    exact h.claimFree_used
  · rw [htok, hq.won]
    by_cases hdc : d = c
    · subst hdc
      exact h.claiming d (hq.claiming hd)
    · rw [hq.others d hdc] at hd
      exact h.claiming d hd
  · rw [hq.claim, hq.won]
    exact h.claim k
  · rw [hnow]
    by_cases hdc : d = c
    · subst hdc
      rw [hq.wonAt]
      exact h.wonAt d
    · rw [hq.others d hdc]
      exact h.wonAt d

/-- A client moves with its token, and a claim word changes. -/
theorem setClient [DecidableEq ι] (h : TokenInv s) {k : ℕ} {sl : Slot κ} {cl : Client}
    (hc : sl.claim = (s.slot k).claim ∨ sl.claim = claimFree)
    (ht : cl.token = (s.client c).token) (hat : cl.wonAt = (s.client c).wonAt)
    (hpc : cl.pc ≠ .claim) : TokenInv ((s.setSlot k sl).setClient c cl) := by
  have htok (d : ι) : (((s.setSlot k sl).setClient c cl).client d).token = (s.client d).token :=
    State.forall_setClient (P := fun d (cl : Client) => cl.token = (s.client d).token) ht
      (fun _ => rfl) d
  exact
    { h with
      token_inj := fun d e => by
        rw [htok, htok]
        exact h.token_inj d e
      token_used := fun d => by
        rw [htok]
        exact h.token_used d
      claiming := State.forall_setClient (P := fun _ (cl : Client) => cl.pc = .claim →
        cl.token ∉ s.won ∧ cl.token ≠ claimFree) (fun hp => absurd hp hpc) h.claiming
      claim := State.forall_setSlot (P := fun _ (sl : Slot κ) =>
        sl.claim = claimFree ∨ sl.claim ∈ s.won) (hc.elim (fun hc => hc ▸ h.claim k) Or.inl) h.claim
      wonAt := State.forall_setClient (P := fun _ (cl : Client) => cl.wonAt ≤ s.now)
        (hat ▸ h.wonAt c) h.wonAt }

theorem token [DecidableEq ι] (h : TokenInv s) {t : UInt32} (ht : t ≠ claimFree)
    (hu : t ∉ s.used) :
    TokenInv ((s.recordToken t).setClient c
      { s.client c with pc := .claim, slotId := 0, token := t }) where
  token_inj := by
    have hne := h.token_ne ht hu
    refine State.forall_setClient (P := fun d (cl : Client) => ∀ e,
      cl.token = (((s.recordToken t).setClient c _).client e).token → cl.token ≠ claimFree →
        d = e) (fun e => ?_) fun d e => ?_
    · exact State.forall_setClient (P := fun e (cl : Client) => t = cl.token →
        t ≠ claimFree → c = e) (fun _ _ => rfl) (fun e he _ => absurd he.symm (hne e)) e
    · exact State.forall_setClient (P := fun e (cl : Client) => (s.client d).token = cl.token →
        (s.client d).token ≠ claimFree → d = e) (fun he _ => absurd he (hne d))
          (fun e => h.token_inj d e) e
  token_used := State.forall_setClient (P := fun _ (cl : Client) => cl.token = claimFree ∨
    cl.token ∈ insert t s.used) (.inr (Finset.mem_insert_self t _)) fun d =>
      (h.token_used d).imp_right (Finset.mem_insert_of_mem ·)
  won_used := h.won_used.trans (Finset.subset_insert t _)
  claimFree_used := by
    intro hm
    exact (Finset.mem_insert.1 hm).elim (fun hf => ht hf.symm) h.claimFree_used
  claiming := State.forall_setClient (P := fun _ (cl : Client) => cl.pc = .claim →
    cl.token ∉ s.won ∧ cl.token ≠ claimFree) (fun _ => ⟨fun hm => hu (h.won_used hm), ht⟩)
      h.claiming
  claim := h.claim
  wonAt := State.forall_setClient (P := fun _ (cl : Client) => cl.wonAt ≤ s.now) (h.wonAt c) h.wonAt

/-- A client wins a free claim. -/
theorem win [DecidableEq ι] (h : TokenInv s) (hpc : (s.client c).pc = .claim) :
    TokenInv (((s.recordWin (s.client c).token).setSlot (s.client c).slotId
      { s.slot (s.client c).slotId with claim := (s.client c).token }).setClient c
        { s.client c with pc := .storePid, wonAt := s.now, entitled := true }) := by
  obtain ⟨hnew, hne⟩ := h.claiming c hpc
  have htok (d : ι) : ((s.setClient c
      { s.client c with pc := .storePid, wonAt := s.now, entitled := true }).client d).token =
        (s.client d).token := by
    refine State.forall_setClient (P := fun d (cl : Client) => cl.token = (s.client d).token) ?_
      (fun _ => rfl) d
    rfl
  exact
    { token_inj := fun d e hde hd => h.token_inj d e ((htok d).symm.trans (hde.trans (htok e)))
        ((htok d).symm ▸ hd)
      token_used := fun d => (congrArg (fun t => t = claimFree ∨ t ∈ s.used) (htok d)).mpr
        (h.token_used d)
      won_used := Finset.insert_subset ((h.token_used c).resolve_left hne) h.won_used
      claimFree_used := h.claimFree_used
      claiming := fun d hd => by
        by_cases hdc : d = c
        · subst hdc
          simp [State.setClient] at hd
        · simp only [State.setClient, Function.update_of_ne hdc] at hd ⊢
          obtain ⟨hm, hfree⟩ := h.claiming d hd
          exact ⟨fun hi => (Finset.mem_insert.1 hi).elim
            (fun he => hdc (h.token_inj d c he hfree)) hm, hfree⟩
      claim := State.forall_setSlot (P := fun _ (sl : Slot κ) =>
        sl.claim = claimFree ∨ sl.claim ∈ insert (s.client c).token s.won)
          (.inr (Finset.mem_insert_self _ _))
            fun k => (h.claim k).imp_right (Finset.mem_insert_of_mem ·)
      wonAt := State.forall_setClient (P := fun _ (cl : Client) => cl.wonAt ≤ s.now) le_rfl
        h.wonAt }

theorem clientMove [DecidableEq ι] (h : TokenInv s) {cfg : Config ι}
    (hm : ClientMove cfg s c s') (hnow : s'.now = s.now) : TokenInv s' := by
  cases hm with
  | token hpc ht hu => exact h.token ht hu
  | win hpc hf => exact h.win hpc
  | storePid hpc => exact h.setClient (.inl rfl) rfl rfl (by rintro ⟨⟩)
  | release hpc =>
    refine h.setClient ?_ rfl rfl (by rintro ⟨⟩)
    split_ifs
    exacts [.inr rfl, .inl rfl]
  | quiet hq => exact h.quiet hq hnow

theorem step [DecidableEq ι] [DecidableEq κ] (h : TokenInv s) {cfg : Config ι} {l : Label ι κ}
    (hst : s.step cfg l = some s') : TokenInv s' := by
  by_cases hl : l.keepsClients = true
  · exact h.sameClients (step_sameClients hl hst)
  · cases l <;> simp only [State.step] at hst
    case tick ms =>
      cases hst
      exact { h with wonAt := fun c => (h.wonAt c).trans (Nat.le_add_right _ ms) }
    case exit pid => cases hst; exact { h with }
    case client c o =>
      split_ifs at hst
      exact h.clientMove (clientStep_cases hst) (clientStep_sameServer hst).now
    all_goals exact absurd rfl hl

end TokenInv

end Multi

end Xshm
