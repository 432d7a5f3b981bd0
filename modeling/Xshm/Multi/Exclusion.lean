import Xshm.Multi.Locks

/-!
# Mutual exclusion on a slot

A client takes a slot by a compare-and-swap of its claim word and gives it back by another.  The
server frees the word in five places, four times by a plain store: after a failed handshake, at the
end of a session in `handle_slot_disconnect` and `disconnect_client`, when a claim has stood for
`RESERVE_TIMEOUT`, and (by a compare-and-swap) when a slot is orphaned.  Each of them is meant for
one client, but frees whatever claim is in the word.  If it is the claim of that client, or of
nobody who is still using it (`OwnRelease`), then no claim is lost and no slot has two clients
(`exclusive_of_ownRelease`).
-/

namespace Xshm

namespace Multi

/-- The client has won a claim and has not called `release_claim`. -/
def ClientPc.holds : ClientPc → Bool
  | .storePid | .connecting _ | .connected | .transfer | .setData | .waitAny | .dropping _ => true
  | _ => false

variable {ι κ : Type*}

/-- The claims of the clients are in the words: no other client can win them, and no slot has two
clients. -/
structure Exclusive (s : State ι κ) : Prop where
  claim : ∀ c, (s.client c).entitled = true →
    (s.slot (s.client c).slotId).claim = (s.client c).token ∧
      (s.slot (s.client c).slotId).claim ≠ claimFree
  unique : ∀ c d, (s.client c).entitled = true → (s.client d).entitled = true →
    (s.client c).slotId = (s.client d).slotId → c = d

/-- The claim word of slot `k` is not the token of a client that has won it and has not called
`release_claim`. -/
def State.Unheld (s : State ι κ) (k : ℕ) : Prop :=
  ∀ c, (s.client c).pc.holds = true → (s.client c).slotId = k →
    (s.client c).token ≠ (s.slot k).claim

/-- `reclaim_stale_claims`, having loaded that claim, takes the branch that frees the slot. -/
def Slot.Reclaims (sl : Slot κ) (now : ℕ) (claim : UInt32) : Prop :=
  sl.connected = false ∧ claim ≠ claimFree ∧ ∃ t ∈ sl.claimSeenAt, reserveTimeout ≤ now - t

/-- A step of the worker that frees a slot frees no claim that a client holds, unless it ends the
session of that client, or the claim was already in the word when `claim_seen_at` was taken. -/
def State.WorkerOwns (s : State ι κ) : Worker → Prop
  | .claimLoaded k _ claim => (s.slot k).Reclaims s.now claim →
      (s.slot k).claim = (s.slot k).seenClaim ∨ s.Unheld k
  | .orphanCas k expected _ => (s.slot k).claim = expected →
      (s.slot k).claim = (s.slot k).session.token ∨ s.Unheld k
  | .handshaken k false => s.Unheld k
  | .release k ended => (∃ e ∈ ended, (s.slot k).claim = e.token) ∨ s.Unheld k
  | _ => True

/-- The same for `disconnect_client`. -/
def State.AppOwns (s : State ι κ) : App → Prop
  | .release k ended => (s.slot k).claim = ended.token ∨ s.Unheld k
  | _ => True

/-- The server frees only claims that nobody else holds. -/
def OwnRelease (s : State ι κ) : Label ι κ → Prop
  | .worker _ => s.WorkerOwns s.worker
  | .app a _ => s.AppOwns (s.app a)
  | _ => True

/-! ### The invariant -/

/-- The tokens that the worker has at hand. -/
def Worker.tokens : Worker → List UInt32
  | .claimLoaded _ _ claim => [claim]
  | .marking _ (some e) _ | .release _ (some e) => [e.token]
  | _ => []

/-- The slot and the client of the session that the worker has just ended. -/
def Worker.endedOf : Worker → Option (ℕ × UInt32)
  | .marking k (some e) _ | .release k (some e) => some (k, e.token)
  | _ => none

theorem Worker.endedOf_tokens {t : Worker} {e : ℕ × UInt32} (h : e ∈ t.endedOf) :
    e.2 ∈ t.tokens := by
  cases t with
  | marking k ended pc =>
    cases ended with
    | none => cases h
    | some e => cases h; exact List.mem_singleton_self _
  | release k ended =>
    cases ended with
    | none => cases h
    | some e => cases h; exact List.mem_singleton_self _
  | _ => cases h

section

variable {ι κ : Type*} {cfg : Config ι} {s : State ι κ} {sl : Slot κ} {k : ℕ} {t t' : Worker}

theorem Worker.Goes.tokens (h : t.Goes cfg s t') : t'.tokens = [] := by
  cases h <;> rfl

theorem Worker.Goes.endedOf (h : t.Goes cfg s t') : t'.endedOf = none := by
  cases h <;> rfl

/-- The worker loads the claim of the slot whose mutex it takes. -/
theorem Worker.Takes.known {won : Finset UInt32} (h : t.Takes cfg sl k t')
    (hk : sl.claim = claimFree ∨ sl.claim ∈ won) : ∀ u ∈ t'.tokens, u = claimFree ∨ u ∈ won := by
  cases h with
  | reclaim =>
    intro u hu
    rwa [List.mem_singleton.1 hu]
  | _ => rintro _ ⟨⟩

theorem Worker.Takes.endedOf (h : t.Takes cfg sl k t') : t'.endedOf = none := by
  cases h <;> rfl

theorem Worker.Drops.tokens (h : t.Drops sl k t') : t'.tokens = [] := by
  cases h <;> rfl

theorem Worker.Drops.endedOf (h : t.Drops sl k t') : t'.endedOf = none := by
  cases h <;> rfl

theorem Worker.Checks.tokens {exited : Finset UInt32} (h : t.Checks exited k t') :
    t'.tokens = [] := by
  cases h <;> rfl

theorem Worker.Checks.endedOf {exited : Finset UInt32} (h : t.Checks exited k t') :
    t'.endedOf = none := by
  cases h <;> rfl

theorem Worker.Calls.tokens {e : Callback} (h : t.Calls k e t') : t'.tokens = [] := by
  cases h <;> rfl

theorem Worker.Calls.endedOf {e : Callback} (h : t.Calls k e t') : t'.endedOf = none := by
  cases h <;> rfl

end

/-- The slot and the client of the session that the thread has just ended. -/
def App.endedOf : App → Option (ℕ × UInt32)
  | .setEvent k e | .marking k e _ | .release k e => some (k, e.token)
  | _ => none

/-- The tokens in a slot and in the records about it have won a claim. -/
structure Slot.Known (sl : Slot κ) (won : Finset UInt32) : Prop where
  claim : sl.claim = claimFree ∨ sl.claim ∈ won
  seenClaim : sl.seenClaim = claimFree ∨ sl.seenClaim ∈ won
  hello : sl.hello = claimFree ∨ sl.hello ∈ won
  answered : sl.answered.token = claimFree ∨ sl.answered.token ∈ won
  session : sl.session.token = claimFree ∨ sl.session.token ∈ won

theorem Slot.Known.mono {sl : Slot κ} {won won' : Finset UInt32} (h : sl.Known won)
    (hw : won ⊆ won') : sl.Known won' where
  claim := h.claim.imp_right (hw ·)
  seenClaim := h.seenClaim.imp_right (hw ·)
  hello := h.hello.imp_right (hw ·)
  answered := h.answered.imp_right (hw ·)
  session := h.session.imp_right (hw ·)

/-- What the invariant says of a client that is entitled to its claim, and its slot. -/
structure Slot.Serves (sl : Slot κ) (now : ℕ) (cl : Client) : Prop where
  claim : sl.claim = cl.token
  expiry : sl.connected = true ∧ sl.session.token = cl.token ∨ now < cl.wonAt + reserveTimeout
  seen : ∀ t ∈ sl.claimSeenAt, cl.token = sl.seenClaim → cl.wonAt ≤ t

structure ClaimInv (s : State ι κ) : Prop where
  serves : ∀ c, (s.client c).entitled = true →
    (s.slot (s.client c).slotId).Serves s.now (s.client c)
  holds : ∀ c, (s.client c).entitled = true → (s.client c).pc.holds = true
  wonAt : ∀ c, (s.client c).wonAt ≤ s.now
  token_inj : ∀ c d, (s.client c).token = (s.client d).token → (s.client c).token ≠ claimFree →
    c = d
  token_used : ∀ c, (s.client c).token = claimFree ∨ (s.client c).token ∈ s.used
  won_used : s.won ⊆ s.used
  claimFree_used : claimFree ∉ s.used
  claiming : ∀ c, (s.client c).pc = .claim →
    (s.client c).token ∉ s.won ∧ (s.client c).token ≠ claimFree
  holder : ∀ c, (s.client c).pc.holds = true → (s.client c).token ∈ s.won
  slot : ∀ k, (s.slot k).Known s.won
  worker : ∀ t ∈ s.worker.tokens, t = claimFree ∨ t ∈ s.won
  app : ∀ a, ∀ e ∈ (s.app a).endedOf, e.2 = claimFree ∨ e.2 ∈ s.won
  workerEnded : ∀ e ∈ s.worker.endedOf, ∀ c, (s.client c).slotId = e.1 →
    (s.client c).token = e.2 → (s.client c).entitled = false
  appEnded : ∀ a, ∀ e ∈ (s.app a).endedOf, ∀ c, (s.client c).slotId = e.1 →
    (s.client c).token = e.2 → (s.client c).entitled = false

namespace ClaimInv

variable {s s' : State ι κ} {k : ℕ}

theorem init : ClaimInv ({} : State ι κ) := by
  constructor <;> simp [claimFree, Worker.tokens, Worker.endedOf, App.endedOf, ClientPc.holds]
  exact ⟨.inl rfl, .inl rfl, .inl rfl, .inl rfl, .inl rfl⟩

theorem exclusive (h : ClaimInv s) : Exclusive s where
  claim c hc := by
    refine ⟨(h.serves c hc).claim, fun hf => h.claimFree_used (h.won_used ?_)⟩
    rw [← hf, (h.serves c hc).claim]
    exact h.holder c (h.holds c hc)
  unique c d hc hd hcd := by
    refine h.token_inj c d ?_ fun hf => h.claimFree_used (h.won_used ?_)
    · rw [← (h.serves c hc).claim, hcd, (h.serves d hd).claim]
    · rw [← hf]
      exact h.holder c (h.holds c hc)

/-! #### Changes of one part -/

/-- A slot changes; for the client that is entitled to it nothing does. -/
theorem setSlot (h : ClaimInv s) {sl : Slot κ} (hk : sl.Known s.won)
    (hs : ∀ c, (s.client c).entitled = true → (s.client c).slotId = k →
      (s.slot k).Serves s.now (s.client c) → sl.Serves s.now (s.client c)) :
    ClaimInv (s.setSlot k sl) :=
  { h with
    serves := fun c hc => by
      by_cases hck : (s.client c).slotId = k
      · change ((s.setSlot k sl).slot (s.client c).slotId).Serves s.now (s.client c)
        rw [hck, State.setSlot_slot_self]
        exact hs c hc hck (hck ▸ h.serves c hc)
      · exact (s.setSlot_slot_of_ne hck sl).symm ▸ h.serves c hc
    slot := State.forall_setSlot (P := fun _ sl => sl.Known s.won) hk h.slot }

/-- A slot changes, but not in what the invariant speaks of. -/
theorem keepSlot (h : ClaimInv s) {sl : Slot κ}
    (hs : (sl.claim, sl.connected, sl.claimSeenAt, sl.seenClaim, sl.hello, sl.answered,
      sl.session) =
      ((s.slot k).claim, (s.slot k).connected, (s.slot k).claimSeenAt, (s.slot k).seenClaim,
        (s.slot k).hello, (s.slot k).answered, (s.slot k).session)) :
    ClaimInv (s.setSlot k sl) := by
  simp only [Prod.mk.injEq] at hs
  obtain ⟨hc, hco, hat, hse, hh, ha, hss⟩ := hs
  have hk := h.slot k
  refine h.setSlot ⟨hc ▸ hk.claim, hse ▸ hk.seenClaim, hh ▸ hk.hello, ha ▸ hk.answered,
    hss ▸ hk.session⟩ fun c _ _ hsv => ⟨hc.trans hsv.claim, ?_, ?_⟩
  · rw [hco, hss]
    exact hsv.expiry
  · rw [hat, hse]
    exact hsv.seen

theorem lock (h : ClaimInv s) (o : Owner κ) : ClaimInv (s.lock k o) := h.keepSlot rfl

theorem unlock (h : ClaimInv s) : ClaimInv (s.unlock k) := h.keepSlot rfl

theorem call (h : ClaimInv s) (e : Callback) : ClaimInv (s.call k e) := h.keepSlot rfl

theorem setSeg (h : ClaimInv s) (seg : Segment (Message UInt32) (Message UInt32)) :
    ClaimInv (s.setSeg k seg) :=
  h.keepSlot rfl

theorem recordEnd (h : ClaimInv s) (e : Ended) : ClaimInv (s.recordEnd e) := { h with }

theorem setWorkerWith (h : ClaimInv s) {t : Worker}
    (ht : ∀ u ∈ t.tokens, u = claimFree ∨ u ∈ s.won)
    (he : ∀ e ∈ t.endedOf, ∀ c, (s.client c).slotId = e.1 → (s.client c).token = e.2 →
      (s.client c).entitled = false) : ClaimInv (s.setWorker t) :=
  { h with
    worker := ht
    workerEnded := he }

/-- The worker moves with no tokens at hand. -/
theorem setWorker (h : ClaimInv s) {t : Worker} (ht : t.tokens = []) (he : t.endedOf = none) :
    ClaimInv (s.setWorker t) :=
  h.setWorkerWith (fun u hu => by rw [ht] at hu; cases hu) fun e hm => by rw [he] at hm; cases hm

theorem setApp [DecidableEq κ] (h : ClaimInv s) (a : κ) {t : App}
    (ht : ∀ e ∈ t.endedOf, e.2 = claimFree ∨ e.2 ∈ s.won)
    (he : ∀ e ∈ t.endedOf, ∀ c, (s.client c).slotId = e.1 → (s.client c).token = e.2 →
      (s.client c).entitled = false) : ClaimInv (s.setApp a t) :=
  { h with
    app := fun b e hb => forall_update (P := fun t : App => e ∈ t.endedOf)
      (Q := fun _ => e.2 = claimFree ∨ e.2 ∈ s.won) (ht e) (fun b => h.app b e) b hb
    appEnded := fun b e hb => forall_update (P := fun t : App => e ∈ t.endedOf)
      (Q := fun _ => ∀ c, (s.client c).slotId = e.1 → (s.client c).token = e.2 →
        (s.client c).entitled = false) (he e) (fun b => h.appEnded b e) b hb }

/-- A client moves with its claim, or loses its title to it. -/
theorem setClient [DecidableEq ι] (h : ClaimInv s) {c : ι} {cl : Client}
    (ht : cl.token = (s.client c).token) (hw : cl.wonAt = (s.client c).wonAt)
    (he : cl.entitled = true → (s.client c).entitled = true ∧
      cl.slotId = (s.client c).slotId ∧ cl.pc.holds = true)
    (hc : cl.pc = .claim → (s.client c).pc = .claim)
    (hh : cl.pc.holds = true → (s.client c).pc.holds = true) : ClaimInv (s.setClient c cl) := by
  have hended (e : ℕ × UInt32) (hd : ∀ d, (s.client d).slotId = e.1 → (s.client d).token = e.2 →
      (s.client d).entitled = false) (d : ι) : ((s.setClient c cl).client d).slotId = e.1 →
      ((s.setClient c cl).client d).token = e.2 →
        ((s.setClient c cl).client d).entitled = false :=
    State.forall_setClient (P := fun _ (cl : Client) => cl.slotId = e.1 → cl.token = e.2 →
      cl.entitled = false) (fun hk htk => by
        by_contra hne
        obtain ⟨hent, hid, -⟩ := he (Bool.eq_true_of_not_eq_false hne)
        have := hd c (hid ▸ hk) (ht ▸ htk)
        rw [hent] at this
        cases this) hd d
  have htok (d : ι) : ((s.setClient c cl).client d).token = (s.client d).token :=
    State.forall_setClient (P := fun d (cl : Client) => cl.token = (s.client d).token) ht
      (fun _ => rfl) d
  exact
    { h with
      serves := State.forall_setClient (P := fun _ (cl : Client) => cl.entitled = true →
        (s.slot cl.slotId).Serves s.now cl) (fun hent => by
          obtain ⟨hent, hid, -⟩ := he hent
          obtain ⟨h1, h2, h3⟩ := h.serves c hent
          rw [hid]
          exact ⟨ht ▸ h1, ht ▸ hw ▸ h2, ht ▸ hw ▸ h3⟩) h.serves
      holds := State.forall_setClient (P := fun _ (cl : Client) => cl.entitled = true →
        cl.pc.holds = true) (fun hent => (he hent).2.2) h.holds
      wonAt := State.forall_setClient (P := fun _ (cl : Client) => cl.wonAt ≤ s.now)
        (hw ▸ h.wonAt c) h.wonAt
      token_inj := fun d e => by
        rw [htok, htok]
        exact h.token_inj d e
      token_used := fun d => by
        rw [htok]
        exact h.token_used d
      claiming := State.forall_setClient (P := fun _ (cl : Client) => cl.pc = .claim →
        cl.token ∉ s.won ∧ cl.token ≠ claimFree) (fun hp => ht ▸ h.claiming c (hc hp)) h.claiming
      holder := State.forall_setClient (P := fun _ (cl : Client) => cl.pc.holds = true →
        cl.token ∈ s.won) (fun hp => ht ▸ h.holder c (hh hp)) h.holder
      workerEnded := fun e hm => hended e (h.workerEnded e hm)
      appEnded := fun a e hm => hended e (h.appEnded a e hm) }

/-- Clients only lose their titles, as time passes. -/
theorem revoke (h : ClaimInv s) {p : ι → Prop} [DecidablePred p] {now : ℕ} (hn : s.now ≤ now)
    (hexp : ∀ c, (s.client c).entitled = true → ¬ p c →
      (s.slot (s.client c).slotId).connected = true ∧
        (s.slot (s.client c).slotId).session.token = (s.client c).token ∨
          now < (s.client c).wonAt + reserveTimeout) :
    ClaimInv { s.revoke p with now := now } := by
  have hent {c : ι} (hc : ((s.client c).entitled && !decide (p c)) = true) :
      (s.client c).entitled = true ∧ ¬ p c := by
    simpa using hc
  have hended {e : ℕ × UInt32} (hd : ∀ d, (s.client d).slotId = e.1 → (s.client d).token = e.2 →
      (s.client d).entitled = false) (d : ι) (hk : (s.client d).slotId = e.1)
      (ht : (s.client d).token = e.2) : ((s.client d).entitled && !decide (p d)) = false := by
    rw [hd d hk ht, Bool.false_and]
  exact
    { h with
      serves := fun c hc => by
        obtain ⟨hc, hp⟩ := hent hc
        have hsv := h.serves c hc
        exact ⟨hsv.claim, hexp c hc hp, hsv.seen⟩
      holds := fun c hc => h.holds c (hent hc).1
      wonAt := fun c => (h.wonAt c).trans hn
      workerEnded := fun e hm => hended (h.workerEnded e hm)
      appEnded := fun a e hm => hended (h.appEnded a e hm) }

theorem tick (h : ClaimInv s) {now : ℕ} (hn : s.now ≤ now) : ClaimInv (s.tick now) := by
  refine h.revoke hn fun c _ hp => ?_
  by_contra hne
  rw [not_or, not_lt] at hne
  exact hp ⟨hne.2, hne.1⟩

theorem endSession (h : ClaimInv s) : ClaimInv (s.endSession k) :=
  h.revoke le_rfl fun c hc _ => (h.serves c hc).expiry

/-- After the end of the session its client is not entitled to the slot. -/
theorem entitled_endSession {c : ι} (hid : (s.client c).slotId = k)
    (ht : (s.client c).token = (s.slot k).session.token) :
    ((s.endSession k).client c).entitled = false := by
  simp [State.endSession, State.revoke, hid, ht]

/-- The claim of a slot is freed, and nobody is entitled to it. -/
theorem free (h : ClaimInv s) {sl : Slot κ} (hk : sl.Known s.won)
    (hno : ∀ c, (s.client c).entitled = true → (s.client c).slotId = k →
      (s.client c).token ≠ (s.slot k).claim) : ClaimInv (s.setSlot k sl) :=
  h.setSlot hk fun c hc hid hsv => absurd hsv.claim.symm (hno c hc hid)

theorem not_entitled_of_unheld (h : ClaimInv s) (hu : s.Unheld k) (c : ι)
    (hc : (s.client c).entitled = true) (hid : (s.client c).slotId = k) :
    (s.client c).token ≠ (s.slot k).claim :=
  hu c (h.holds c hc) hid

/-- The session of a slot has ended: its client has lost its title, and the slot is not
connected. -/
theorem endSlot (h : ClaimInv s) {sl : Slot κ} (hk : sl.Known s.won)
    (hc : sl.claim = (s.slot k).claim) (hat : sl.claimSeenAt = none) :
    ClaimInv ((s.endSession k).setSlot k sl) := by
  refine h.endSession.setSlot hk fun c hent hid hsv => ⟨hc.trans hsv.claim, .inr ?_, ?_⟩
  · refine hsv.expiry.resolve_left fun hs => ?_
    cases (entitled_endSession (s := s) hid hs.2.symm).symm.trans hent
  · rw [hat]
    rintro t ⟨⟩

/-! #### The worker -/

theorem see (h : ClaimInv s) {claim : UInt32} (hk : claim = claimFree ∨ claim ∈ s.won) :
    ClaimInv (s.setSlot k ((s.slot k).see s.now claim)) := by
  refine h.setSlot { h.slot k with seenClaim := hk } fun c _ _ hsv =>
    ⟨hsv.claim, hsv.expiry, fun t ht _ => ?_⟩
  cases ht
  exact h.wonAt c

/-- A slot whose claim has been loaded is seen, freed or left alone. -/
theorem reclaim (h : ClaimInv s) {claim : UInt32} (hc : (s.slot k).connected = false)
    (hk : claim = claimFree ∨ claim ∈ s.won)
    (ho : (s.slot k).Reclaims s.now claim →
      (s.slot k).claim = (s.slot k).seenClaim ∨ s.Unheld k) :
    ClaimInv (s.setSlot k ((s.slot k).reclaim s.now claim)) := by
  have hkn := h.slot k
  rw [Slot.reclaim]
  split_ifs with hf
  · exact h.setSlot { hkn with } fun c _ _ hsv => { hsv with seen := by rintro _ ⟨⟩ }
  · split
    · exact h.see hk
    · rename_i t ht
      split_ifs with hel
      · refine h.free { hkn with claim := .inl rfl } fun c hent hid heq => ?_
        rcases ho ⟨hc, hf, t, ht, hel⟩ with hs | hu
        · -- the claim has been in the word since `t`, and never had a session
          have hsv := hid ▸ h.serves c hent
          have hseen := hsv.seen t ht (heq.trans hs)
          rcases hsv.expiry with ⟨hcon, -⟩ | hlt
          · cases hc.symm.trans hcon
          · have : 0 < reserveTimeout := by decide
            omega
        · exact h.not_entitled_of_unheld hu c hent hid heq
      · rw [State.setSlot_self]
        exact h

theorem handleEvent (h : ClaimInv s) (e : EventSource) : ClaimInv (s.handleEvent e) := by
  cases e with
  | slotData k =>
    have hk : ClaimInv (s.setSlot k { s.slot k with data := false }) := h.keepSlot rfl
    exact hk.setWorker rfl rfl
  | slotConnect k => exact (h.setSeg { (s.slot k).seg with connectReq := false }).setWorker rfl rfl
  | slotDisconnect k =>
    exact (h.setSeg { (s.slot k).seg with disconnect := false }).setWorker rfl rfl

theorem workerStep (h : ClaimInv s) (hl : LockInv s) {cfg : Config ι} {l : Label ι κ}
    (ho : OwnRelease s l) (hm : WorkerMove cfg s l s') : ClaimInv s' := by
  have htok {t : Worker} (hs : s.worker = t) : ∀ u ∈ t.tokens, u = claimFree ∨ u ∈ s.won :=
    hs ▸ h.worker
  have hend {t : Worker} (hs : s.worker = t) : ∀ e ∈ t.endedOf, ∀ c, (s.client c).slotId = e.1 →
      (s.client c).token = e.2 → (s.client c).entitled = false := hs ▸ h.workerEnded
  cases hm with
  | goes hg => exact h.setWorker hg.tokens hg.endedOf
  | @takes w k t _ ht =>
    exact (h.lock _).setWorkerWith (ht.known (h.slot k).claim) (by rw [ht.endedOf]; rintro _ ⟨⟩)
  | drops hd => exact h.unlock.setWorker hd.tokens hd.endedOf
  | checks hc => exact h.unlock.setWorker hc.tokens hc.endedOf
  | calls hc => exact (h.call _).setWorker hc.tokens hc.endedOf
  | consumes => exact h.handleEvent _
  | sees hs =>
    exact (h.see (htok hs _ (List.mem_singleton_self _))).setWorker rfl rfl
  | reclaims hs hcon =>
    rw [OwnRelease, hs] at ho
    exact (h.reclaim hcon (htok hs _ (List.mem_singleton_self _)) ho).unlock.setWorker rfl rfl
  | loads | ackFails => exact h.setWorker rfl rfl
  | @orphans w k expected orphaned hs hcas =>
    rw [OwnRelease, hs] at ho
    -- the claim is of the session that ends, or of nobody who still uses it
    have hk : ClaimInv ((s.endSession k).setSlot k (s.slot k).releaseSlotClaim.close) := by
      refine h.endSession.free { h.slot k with claim := .inl rfl } fun c hent hid heq => ?_
      rcases ho hcas with hs | hu
      · cases (entitled_endSession (s := s) hid (heq.trans hs)).symm.trans hent
      · exact h.not_entitled_of_unheld hu c (Bool.and_eq_true_iff.1 hent).1 hid heq
    exact hk.setWorker rfl rfl
  | orphanMarks | receives => exact (h.setSeg _).setWorker rfl rfl
  | orphanMarked => exact (h.setSeg _).unlock.setWorker rfl rfl
  | @handshakes w k pc seg next hs =>
    have hk : ClaimInv (s.setSlot k
        { s.slot k with seg := seg, answered := (s.slot k).answering pc }) := by
      refine h.setSlot { h.slot k with answered := ?_ } fun c _ _ hsv => { hsv with }
      rw [Slot.answering]
      split_ifs
      exacts [(h.slot k).hello, (h.slot k).answered]
    rcases next with pc' | (e | u) <;> exact hk.setWorker rfl rfl
  | @accepts w k hs =>
    have hcon := hl.closing k (by rw [hs]; rfl)
    have hk : ClaimInv (s.setSlot k (s.slot k).accept) := by
      refine h.setSlot { h.slot k with session := (h.slot k).answered } fun c _ _ hsv => ?_
      refine ⟨hsv.claim, .inr (hsv.expiry.resolve_left fun hcs => ?_), (by rintro _ ⟨⟩)⟩
      cases hcon.symm.trans hcs.1
    exact hk.setWorker rfl rfl
  | @refuses w k hs =>
    rw [OwnRelease, hs] at ho
    have hk : ClaimInv (s.setSlot k (s.slot k).refuse) :=
      h.free { h.slot k with claim := .inl rfl } (h.not_entitled_of_unheld ho)
    exact hk.setWorker rfl rfl
  | @ends w k setBy hs =>
    have hk : ClaimInv ((s.endSession k).setSlot k
        { (s.slot k).close with lock := some .worker }) := h.endSlot { h.slot k with } rfl rfl
    refine (hk.recordEnd _).setWorkerWith ?_ ?_
    · intro u hu
      rw [List.mem_singleton.1 hu]
      exact (h.slot k).session
    · intro e he c hid ht
      cases he
      exact entitled_endSession hid ht
  | @clears w k setBy hs _ hcon =>
    have hk : ClaimInv (s.setSlot k { (s.slot k).close with lock := some .worker }) := by
      refine h.setSlot { h.slot k with } fun c _ _ hsv =>
        ⟨hsv.claim, .inr (hsv.expiry.resolve_left fun hcs => ?_), (by rintro _ ⟨⟩)⟩
      cases hcon.symm.trans hcs.1
    exact hk.setWorker rfl rfl
  | @marks w k ended pc pc' seg hs | @marked w k ended pc seg u hs =>
    have ht := htok hs
    have he := hend hs
    cases ended <;> exact (h.setSeg _).setWorkerWith ht he
  | @releases w k ended hs =>
    rw [OwnRelease, hs] at ho
    have hk : ClaimInv (s.setSlot k (s.slot k).releaseSlotClaim) := by
      refine h.free { h.slot k with claim := .inl rfl } fun c hent hid heq => ?_
      rcases ho with ⟨e, hm, hcl⟩ | hu
      · cases hm
        cases (hend hs _ rfl c hid (heq.trans hcl)).symm.trans hent
      · exact h.not_entitled_of_unheld hu c hent hid heq
    exact hk.unlock.setWorker (by split_ifs <;> rfl) (by split_ifs <;> rfl)

/-! #### Application threads and clients -/

theorem appStep [DecidableEq κ] (h : ClaimInv s) {a : κ} {w : WaitOutcome}
    (ho : OwnRelease s (.app a w)) (hst : s.appStep a w = some s') : ClaimInv s' := by
  have ht := h.app a
  have he := h.appEnded a
  rw [State.appStep] at hst
  cases hs : s.app a <;> simp only [hs] at hst <;> rw [hs] at ht he
  case idle => cases hst
  case setEvent k ended =>
    split at hst <;> cases hst <;> exact (h.keepSlot (by rfl)).setApp a ht he
  case marking k ended pc =>
    split at hst <;> cases hst <;> exact (h.setSeg _).setApp a ht he
  case release k ended =>
    rw [OwnRelease, hs] at ho
    cases hst
    have hk : ClaimInv (s.setSlot k (s.slot k).releaseSlotClaim) := by
      refine h.free { h.slot k with claim := .inl rfl } fun c hent hid heq => ?_
      rcases ho with hcl | hu
      · cases (he _ rfl c hid (heq.trans hcl)).symm.trans hent
      · exact h.not_entitled_of_unheld hu c hent hid heq
    exact hk.unlock.setApp a (by rintro _ ⟨⟩) (by rintro _ ⟨⟩)
  case callDisconnect k =>
    cases hst
    exact (h.call _).setApp a (by rintro _ ⟨⟩) (by rintro _ ⟨⟩)

theorem disconnectClient [DecidableEq κ] (h : ClaimInv s) (a : κ) (k : ℕ) :
    ClaimInv (((s.endSession k).setSlot k
      { (s.slot k).disconnect with lock := some (.app a) }).setApp a
        (.setEvent k (s.slot k).session)) := by
  have hk : ClaimInv ((s.endSession k).setSlot k
      { (s.slot k).disconnect with lock := some (.app a) }) := h.endSlot { h.slot k with } rfl rfl
  refine hk.setApp a (fun e he => ?_) fun e he c hid ht => ?_ <;> cases he
  · exact (h.slot k).session
  · exact entitled_endSession hid ht

/-- Everybody but `c` has an older token. -/
theorem token_ne_of_not_used (h : ClaimInv s) {t : UInt32} (ht : t ≠ claimFree) (hu : t ∉ s.used)
    (d : ι) : (s.client d).token ≠ t := fun hd =>
  (h.token_used d).elim (fun hf => ht (hd ▸ hf)) fun hm => hu (hd ▸ hm)

/-- A client without a claim takes a new token. -/
theorem recordToken [DecidableEq ι] (h : ClaimInv s) {c : ι} {t : UInt32}
    (hpc : (s.client c).pc = .head) (ht : t ≠ claimFree) (hu : t ∉ s.used) :
    ClaimInv ((s.recordToken t).setClient c
      { s.client c with pc := .claim, slotId := 0, token := t }) := by
  have hent : (s.client c).entitled = false := by
    by_contra hne
    have := h.holds c (Bool.eq_true_of_not_eq_false hne)
    rw [hpc] at this
    cases this
  let cl' : Client := { s.client c with pc := .claim, slotId := 0, token := t }
  have hended (e : ℕ × UInt32) (he : ∀ d, (s.client d).slotId = e.1 → (s.client d).token = e.2 →
      (s.client d).entitled = false) (d : ι)
      (hid : (((s.recordToken t).setClient c cl').client d).slotId = e.1)
      (htd : (((s.recordToken t).setClient c cl').client d).token = e.2) :
      (((s.recordToken t).setClient c cl').client d).entitled = false := by
    refine State.forall_setClient (P := fun _ (cl : Client) => cl.slotId = e.1 →
      cl.token = e.2 → cl.entitled = false) ?_ he d hid htd
    exact fun _ _ => hent
  exact
    { h with
      serves := State.forall_setClient (P := fun _ (cl : Client) => cl.entitled = true →
        (s.slot cl.slotId).Serves s.now cl) (fun he => absurd (hent.symm.trans he) Bool.noConfusion)
          h.serves
      holds := State.forall_setClient (P := fun _ (cl : Client) => cl.entitled = true →
        cl.pc.holds = true) (fun he => absurd (hent.symm.trans he) Bool.noConfusion) h.holds
      wonAt := State.forall_setClient (P := fun _ (cl : Client) => cl.wonAt ≤ s.now)
        (h.wonAt c) h.wonAt
      token_inj := by
        have hne := h.token_ne_of_not_used ht hu
        refine State.forall_setClient (P := fun d (cl : Client) => ∀ e,
          cl.token = (((s.recordToken t).setClient c _).client e).token → cl.token ≠ claimFree →
            d = e) (fun e => ?_) fun d e => ?_
        · refine State.forall_setClient (P := fun e (cl : Client) => t = cl.token →
            t ≠ claimFree → c = e) (fun _ _ => rfl) (fun e he _ => absurd he.symm (hne e)) e
        · refine State.forall_setClient (P := fun e (cl : Client) => (s.client d).token = cl.token →
            (s.client d).token ≠ claimFree → d = e) (fun he _ => absurd he (hne d))
              (fun e => h.token_inj d e) e
      token_used := State.forall_setClient (P := fun _ (cl : Client) => cl.token = claimFree ∨
        cl.token ∈ insert t s.used) (.inr (Finset.mem_insert_self t _)) fun d =>
          (h.token_used d).imp_right (Finset.mem_insert_of_mem ·)
      won_used := h.won_used.trans (Finset.subset_insert t _)
      claimFree_used := fun hm => (Finset.mem_insert.1 hm).elim (fun hf => ht hf.symm)
        h.claimFree_used
      claiming := State.forall_setClient (P := fun _ (cl : Client) => cl.pc = .claim →
        cl.token ∉ s.won ∧ cl.token ≠ claimFree) (fun _ => ⟨fun hm => hu (h.won_used hm), ht⟩)
          h.claiming
      holder := State.forall_setClient (P := fun _ (cl : Client) => cl.pc.holds = true →
        cl.token ∈ s.won) Bool.noConfusion h.holder
      workerEnded := fun e hm => hended e (h.workerEnded e hm)
      appEnded := fun a e hm => hended e (h.appEnded a e hm) }

/-- A client wins a free claim. -/
theorem recordWin [DecidableEq ι] (h : ClaimInv s) {c : ι} (hpc : (s.client c).pc = .claim)
    (hf : (s.slot (s.client c).slotId).claim = claimFree) :
    ClaimInv (((s.recordWin (s.client c).token).setSlot (s.client c).slotId
      { s.slot (s.client c).slotId with claim := (s.client c).token }).setClient c
        { s.client c with pc := .storePid, wonAt := s.now, entitled := true }) := by
  obtain ⟨hnew, hne⟩ := h.claiming c hpc
  have hmono := Finset.subset_insert (s.client c).token s.won
  have hknown {u : UInt32} (hu : u = claimFree ∨ u ∈ s.won) : (s.client c).token ≠ u := by
    rintro rfl
    exact hu.elim hne hnew
  -- nobody is entitled to a free slot
  have hother (d : ι) (hd : (s.client d).entitled = true) :
      (s.client d).slotId ≠ (s.client c).slotId := fun hid => by
    have hm := h.holder d (h.holds d hd)
    rw [← (h.serves d hd).claim, hid, hf] at hm
    exact h.claimFree_used (h.won_used hm)
  let cl' : Client := { s.client c with pc := .storePid, wonAt := s.now, entitled := true }
  have hended (e : ℕ × UInt32) (hk : e.2 = claimFree ∨ e.2 ∈ s.won)
      (he : ∀ d, (s.client d).slotId = e.1 → (s.client d).token = e.2 →
        (s.client d).entitled = false) (d : ι)
      (hid : ((s.setClient c cl').client d).slotId = e.1)
      (htd : ((s.setClient c cl').client d).token = e.2) :
      ((s.setClient c cl').client d).entitled = false := by
    refine State.forall_setClient (P := fun _ (cl : Client) => cl.slotId = e.1 →
      cl.token = e.2 → cl.entitled = false) ?_ he d hid htd
    exact fun _ ht => absurd ht (hknown hk)
  have htok (d : ι) : ((s.setClient c cl').client d).token = (s.client d).token := by
    refine State.forall_setClient (P := fun d (cl : Client) => cl.token = (s.client d).token) ?_
      (fun _ => rfl) d
    rfl
  exact
    { h with
      serves := by
        refine State.forall_setClient (P := fun _ (cl : Client) => cl.entitled = true →
          (((s.recordWin _).setSlot _ _).slot cl.slotId).Serves s.now cl)
            (fun _ => ?_) fun d hd => ?_
        · rw [State.setSlot_slot_self]
          have : 0 < reserveTimeout := by decide
          exact ⟨rfl, .inr (Nat.lt_add_of_pos_right this), fun t _ ht =>
            absurd ht (hknown (h.slot _).seenClaim)⟩
        · exact (congrArg (fun sl : Slot κ => sl.Serves s.now (s.client d))
            (State.setSlot_slot_of_ne (s.recordWin _) (hother d hd) _)).mpr (h.serves d hd)
      holds := State.forall_setClient (P := fun _ (cl : Client) => cl.entitled = true →
        cl.pc.holds = true) (fun _ => rfl) h.holds
      wonAt := State.forall_setClient (P := fun _ (cl : Client) => cl.wonAt ≤ s.now) le_rfl h.wonAt
      token_inj := fun d e hde hd => h.token_inj d e ((htok d).symm.trans (hde.trans (htok e)))
        ((htok d).symm ▸ hd)
      token_used := fun d => (congrArg (fun t => t = claimFree ∨ t ∈ s.used) (htok d)).mpr
        (h.token_used d)
      won_used := Finset.insert_subset ((h.token_used c).resolve_left hne) h.won_used
      claiming := fun d hd => by
        by_cases hdc : d = c
        · subst hdc
          simp [State.setClient] at hd
        · simp only [State.setClient, Function.update_of_ne hdc] at hd ⊢
          obtain ⟨hm, hfree⟩ := h.claiming d hd
          exact ⟨fun hi => (Finset.mem_insert.1 hi).elim
            (fun he => hdc (h.token_inj d c he hfree)) hm, hfree⟩
      holder := State.forall_setClient (P := fun _ (cl : Client) => cl.pc.holds = true →
        cl.token ∈ insert (s.client c).token s.won) (fun _ => Finset.mem_insert_self _ _)
          fun d hd => hmono (h.holder d hd)
      slot := State.forall_setSlot (P := fun _ (sl : Slot κ) =>
        sl.Known (insert (s.client c).token s.won))
          { (h.slot _).mono hmono with claim := .inr (Finset.mem_insert_self _ _) }
          fun j => (h.slot j).mono hmono
      worker := fun u hu => (h.worker u hu).imp_right (hmono ·)
      app := fun a e he => (h.app a e he).imp_right (hmono ·)
      workerEnded := fun e hm => hended e (h.worker _ (Worker.endedOf_tokens hm))
        (h.workerEnded e hm)
      appEnded := fun a e hm => hended e (h.app a e hm) (h.appEnded a e hm) }

/-- A client that holds a claim goes on with it. -/
theorem holder_move [DecidableEq ι] (h : ClaimInv s) {c : ι} {pc : ClientPc}
    (hc : (s.client c).pc.holds = true) (hpc : pc.holds = true) :
    ClaimInv (s.setClient c { s.client c with pc := pc }) :=
  h.setClient rfl rfl (fun he => ⟨he, rfl, hpc⟩)
    (fun ht => by rw [show pc = .claim from ht] at hpc; cases hpc) fun _ => hc

/-- A client calls `release_claim`, or has no claim. -/
theorem leaver_move [DecidableEq ι] (h : ClaimInv s) {c : ι} {cl : Client}
    (ht : cl.token = (s.client c).token) (hw : cl.wonAt = (s.client c).wonAt)
    (he : cl.entitled = false) (hpc : cl.pc.holds = false) (hcl : cl.pc ≠ .claim) :
    ClaimInv (s.setClient c cl) :=
  h.setClient ht hw (fun ht => by rw [he] at ht; cases ht) (fun ht => absurd ht hcl)
    fun ht => by rw [hpc] at ht; cases ht

theorem connectStep [DecidableEq ι] (h : ClaimInv s) {c : ι} {pc : Connect} {w : WaitOutcome}
    (hpc : (s.client c).pc = .connecting pc) (hst : s.connectStep c pc w = some s') :
    ClaimInv s' := by
  have hc : (s.client c).pc.holds = true := by rw [hpc]; rfl
  rw [State.connectStep] at hst
  split_ifs at hst
  · cases hst
    exact h.leaver_move rfl rfl rfl rfl (by rintro ⟨⟩)
  · obtain ⟨⟨seg, next⟩, -, rfl⟩ := Option.map_eq_some_iff.1 hst
    have hk : ClaimInv (s.setSlot (s.client c).slotId { s.slot (s.client c).slotId with
        seg := seg
        hello := (s.slot (s.client c).slotId).helloBy pc (s.client c).token }) := by
      refine h.setSlot { h.slot _ with hello := ?_ } fun _ _ _ hsv => { hsv with }
      rw [Slot.helloBy]
      split_ifs
      exacts [.inr (h.holder c hc), (h.slot _).hello]
    rcases next with pc' | (e | u)
    · exact hk.holder_move hc rfl
    · exact hk.leaver_move rfl rfl rfl rfl (by rintro ⟨⟩)
    · exact hk.holder_move hc rfl

theorem not_entitled (h : ClaimInv s) {c : ι} (hc : (s.client c).pc.holds = false) :
    (s.client c).entitled = false := by
  by_contra hne
  cases hc.symm.trans (h.holds c (Bool.eq_true_of_not_eq_false hne))

theorem clientStep [DecidableEq ι] (h : ClaimInv s) {cfg : Config ι} {c : ι} {o : Outcome}
    (hst : s.clientStep cfg c o = some s') : ClaimInv s' := by
  simp only [State.clientStep] at hst
  cases hpc : (s.client c).pc <;> simp only [hpc] at hst
  case head =>
    split_ifs at hst
    · cases hst
      exact h.leaver_move rfl rfl (h.not_entitled (by rw [hpc]; rfl)) rfl (by rintro ⟨⟩)
    · cases o <;> simp only [reduceCtorEq] at hst
      split_ifs at hst with ht
      cases hst
      exact h.recordToken hpc ht.1 ht.2
  case claim =>
    have hent := h.not_entitled (c := c) (by rw [hpc]; rfl)
    split_ifs at hst with hk hf <;> cases hst
    · exact h.recordWin hpc hf
    · refine h.setClient rfl rfl (fun he => ?_) (fun _ => hpc) fun hh => ?_
      · cases hent.symm.trans he
      · cases hh
    · exact h.leaver_move rfl rfl hent rfl (by rintro ⟨⟩)
  case connecting pc =>
    cases o <;> simp only [reduceCtorEq] at hst
    exact h.connectStep hpc hst
  case ended => cases hst
  case delay =>
    cases hst
    exact h.leaver_move rfl rfl (h.not_entitled (by rw [hpc]; rfl))
      (by dsimp only; split_ifs <;> rfl)
      (by dsimp only; split_ifs <;> rintro ⟨⟩)
  case release =>
    have hent := h.not_entitled (c := c) (by rw [hpc]; rfl)
    cases hst
    refine .leaver_move ?_ rfl rfl hent rfl (by rintro ⟨⟩)
    split_ifs with hcl
    · -- only the client itself has its token
      refine h.free { h.slot _ with claim := .inl rfl } fun d hd _ heq => ?_
      have hfree : (s.client d).token ≠ claimFree := fun hf =>
        h.claimFree_used (h.won_used (hf ▸ h.holder d (h.holds d hd)))
      rw [h.token_inj d c (heq.trans hcl) hfree, hent] at hd
      cases hd
    · rw [State.setSlot_self]
      exact h
  all_goals have hc : (s.client c).pc.holds = true := by rw [hpc]; rfl
  case storePid | setData =>
    cases hst
    exact .holder_move (h.keepSlot (by rfl)) hc rfl
  case connected =>
    cases hst
    exact h.holder_move hc (by split_ifs <;> rfl)
  case transfer =>
    cases o <;> simp only [reduceCtorEq] at hst <;> cases hst
    · exact (h.setSeg _).holder_move hc (by split_ifs <;> rfl)
    · exact h.setSeg _
    · exact h.holder_move hc rfl
  case waitAny =>
    cases o with
    | any r =>
      cases r <;> simp only at hst
      case disconnect =>
        split_ifs at hst
        cases hst
        exact (h.setSeg _).holder_move hc rfl
      case other =>
        split_ifs at hst
        cases hst
        exact h.holder_move hc rfl
      case failed =>
        cases hst
        exact h.holder_move hc rfl
    | _ => cases hst
  case dropping pc =>
    split at hst <;> cases hst
    · exact .holder_move (h.keepSlot (by rfl)) hc rfl
    · exact .leaver_move (h.keepSlot (by rfl)) rfl rfl rfl rfl (by rintro ⟨⟩)

theorem step [DecidableEq ι] [DecidableEq κ] (h : ClaimInv s) (hl : LockInv s) {cfg : Config ι}
    {l : Label ι κ} (ho : OwnRelease s l) (hst : s.step cfg l = some s') : ClaimInv s' := by
  cases l <;> simp only [State.step] at hst
  case stop | exit => cases hst; exact { h with }
  case tick ms => cases hst; exact h.tick (Nat.le_add_right _ ms)
  case worker w => exact h.workerStep hl ho (workerStep_move hst)
  case alive b => exact h.workerStep hl ho (aliveStep_move cfg hst)
  case disconnectClient a k =>
    split_ifs at hst <;> cases hst
    · exact h.disconnectClient a k
    · exact h
  case app a w => exact h.appStep ho hst
  case sendTo k p =>
    split_ifs at hst <;> cases hst
    · exact h.setSeg _
    · exact h
  case shutdown c =>
    cases hst
    exact h.setClient rfl rfl (fun he => ⟨he, rfl, h.holds c he⟩) id id
  case client c o =>
    split_ifs at hst
    exact h.clientStep hst

end ClaimInv

instance [Fintype ι] (s : State ι κ) (k : ℕ) : Decidable (s.Unheld k) :=
  inferInstanceAs (Decidable (∀ _ : ι, _ → _ → _))

instance (sl : Slot κ) (now : ℕ) (claim : UInt32) : Decidable (sl.Reclaims now claim) :=
  inferInstanceAs (Decidable (_ ∧ _ ∧ ∃ t ∈ sl.claimSeenAt, _))

instance [Fintype ι] (s : State ι κ) : DecidablePred s.WorkerOwns
  | .claimLoaded .. | .orphanCas .. => inferInstanceAs (Decidable (_ → _ ∨ _))
  | .handshaken k false => inferInstanceAs (Decidable (s.Unheld k))
  | .release _ ended => inferInstanceAs (Decidable ((∃ e ∈ ended, _) ∨ _))
  | .head | .reclaim .. | .loadOwner .. | .checkAlive .. | .orphans _ | .orphanMark ..
  | .orphanCall .. | .collect .. | .waitAny _ | .slotConnect _ | .handshake .. | .handshaken _ true
  | .callConnect _ | .poll .. | .receive _ | .receiving .. | .callMessages .. | .slotDisconnect ..
  | .marking .. | .callDisconnect _ | .ended => isTrue trivial

instance [Fintype ι] (s : State ι κ) : DecidablePred s.AppOwns
  | .release .. => inferInstanceAs (Decidable (_ ∨ _))
  | .idle | .setEvent .. | .marking .. | .callDisconnect _ => isTrue trivial

instance [Fintype ι] (s : State ι κ) : DecidablePred (OwnRelease s)
  | .worker _ => inferInstanceAs (Decidable (s.WorkerOwns s.worker))
  | .app a _ => inferInstanceAs (Decidable (s.AppOwns (s.app a)))
  | .stop | .tick _ | .exit _ | .alive _ | .disconnectClient .. | .sendTo .. | .shutdown _
  | .client .. => isTrue trivial

/-- **Mutual exclusion on a slot.**  If the server frees a claim that a client holds only where it
ends the session of that client, or after the claim itself has stood for `RESERVE_TIMEOUT`, then
the claim word of a slot is the token of its client as long as that client is entitled to it, so
no other client can win the claim, and no two clients are in one slot. -/
theorem exclusive_of_ownRelease [DecidableEq ι] [DecidableEq κ] {cfg : Config ι} {s : State ι κ}
    (h : (system κ cfg).ReachWhen OwnRelease s) : Exclusive s :=
  (h.invariant (I := fun s => LockInv s ∧ ClaimInv s)
    (fun s (h₀ : s = {}) => h₀ ▸ ⟨LockInv.init, ClaimInv.init⟩)
    fun _ _ _ hi ho hst => ⟨hi.1.step hst, hi.2.step hi.1 ho hst⟩).2.exclusive

/-- A client leaves and another one takes the slot before the server has handled the signal. -/
def takeOver : List (Label Bool Unit) :=
  openSession false 5 ++ connectedPass ++ leave false ++ claimSlot true 6

theorem exclusive_of_ownRelease_nextSession : ∃ s : State Bool Unit, Exclusive s ∧
    ((s.client true).entitled = true ∧ (s.client false).entitled = false) ∧
      (s.slot 0).connected = true ∧ (s.slot 0).claim = 6 := by
  obtain ⟨s, h, hs⟩ := System.exists_reachWhen (A := system Unit (oneSlot Bool)) (C := OwnRelease)
    (s := {}) (r := nextSession false true 5 6)
    (f := fun s => (((s.client true).entitled, (s.client false).entitled), (s.slot 0).connected,
      (s.slot 0).claim))
    (t := ((true, false), true, 6)) rfl (by decide +kernel)
  simp only [Prod.mk.injEq] at hs
  exact ⟨s, exclusive_of_ownRelease h, hs⟩

/-- `handle_slot_disconnect` frees the claim of the next client. -/
theorem not_exclusive : ¬ ∀ (ι κ : Type) [DecidableEq ι] [DecidableEq κ] (cfg : Config ι)
    (s : State ι κ), (system κ cfg).Reach s → Exclusive s := by
  intro h
  obtain ⟨s, hr, hs⟩ := System.exists_reachWhen (A := system Unit (oneSlot Bool))
    (C := fun _ _ => True) (s := {}) (r := takeOver ++ work 7)
    (f := fun s => ((s.client true).entitled, (s.client true).slotId, (s.slot 0).claim))
    (t := (true, 0, 0)) rfl (by decide +kernel)
  simp only [Prod.mk.injEq] at hs
  obtain ⟨hent, hid, hcl⟩ := hs
  have := ((h Bool Unit _ s hr).claim true hent).2
  rw [hid] at this
  exact this hcl

end Multi

end Xshm
