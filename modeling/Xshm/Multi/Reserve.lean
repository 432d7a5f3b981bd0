import Xshm.Multi.Tokens

/-!
# No premature reclaim

`reclaim_stale_claims` frees the claim of a slot that is not connected when `claim_seen_at` is
`RESERVE_TIMEOUT` old, and a client keeps its claim for `clamp_slot_timeout` without a connection,
which is two seconds less.  But `claim_seen_at` has no token: if a client gives its claim back and
another one wins it before the worker looks again, then the time of the first claim is taken for
that of the second.  If claims are won only while `claim_seen_at` is not taken (`FreshClaim`), then
it is a moment at which the token was already in the word, and no claim is freed before its time
(`reserved_of_freshClaim`).
-/

namespace Xshm

namespace Multi

/-- `RESERVE_SAFETY_MARGIN`. -/
def reserveSafetyMargin : ℕ := 2000

/-- `clamp_slot_timeout`. -/
def clampSlotTimeout (requested : ℕ) : ℕ := min requested (reserveTimeout - reserveSafetyMargin)

theorem clampSlotTimeout_lt (requested : ℕ) : clampSlotTimeout requested < reserveTimeout :=
  (min_le_right _ _).trans_lt (by decide)

/-- The client has won a claim and has neither connected nor given up. -/
def ClientPc.reserves : ClientPc → Bool
  | .storePid | .connecting _ => true
  | _ => false

variable {ι κ : Type*}

/-- A claim that `reclaim_stale_claims` is about to free has stood for longer than its client was
to keep it without a connection, and `claim_seen_at` is not from before the claim was won. -/
structure Reserved (requested : ι → ℕ) (s : State ι κ) : Prop where
  expired : ∀ k orphaned claim, s.worker = .claimLoaded k orphaned claim →
    (s.slot k).Reclaims s.now claim → (s.slot k).claim ≠ claimFree →
      ∀ c, (s.client c).token = (s.slot k).claim →
        (s.client c).wonAt + clampSlotTimeout (requested c) < s.now
  seen : ∀ k, (s.slot k).connected = false → (s.slot k).claim ≠ claimFree →
    ∀ t ∈ (s.slot k).claimSeenAt, ∀ c, (s.client c).token = (s.slot k).claim →
      (s.client c).wonAt ≤ t

/-- The claim of a slot that is not connected is won only while `claim_seen_at` is not taken. -/
def FreshClaim (s : State ι κ) : Label ι κ → Prop
  | .client c _ => (s.client c).pc = .claim → (s.slot (s.client c).slotId).claim = claimFree →
      (s.slot (s.client c).slotId).connected = true ∨
        (s.slot (s.client c).slotId).claimSeenAt = none
  | _ => True

/-- No time passes in which a client would keep a claim without a connection for longer than
`clamp_slot_timeout`. -/
def Timely (requested : ι → ℕ) (s : State ι κ) : Label ι κ → Prop
  | .tick ms => ∀ c, (s.client c).pc.reserves = true →
      s.now + ms ≤ (s.client c).wonAt + clampSlotTimeout (requested c)
  | _ => True

/-! ### The invariant -/

/-- The claim of a slot that is not connected was won before `claim_seen_at`. -/
def Seen (s : State ι κ) : Prop :=
  ∀ k, (s.slot k).connected = false → (s.slot k).claim ≠ claimFree →
    ∀ t ∈ (s.slot k).claimSeenAt, ∀ c, (s.client c).token = (s.slot k).claim →
      (s.client c).wonAt ≤ t

namespace Seen

variable {s s' : State ι κ}

theorem sameClients (h : Seen s) (ht : TokenInv s) (hs : SameClients s s') : Seen s' := by
  intro k hcon hne t htk c hc
  have hclaim : (s'.slot k).claim = (s.slot k).claim := (hs.slot k).claim.resolve_right hne
  rw [hs.token, hclaim] at hc
  rw [hclaim] at hne
  rw [hs.wonAt]
  rcases (hs.slot k).seen hcon t htk with rfl | ⟨hcon', htk'⟩
  · exact ht.wonAt c
  · exact h k hcon' hne t htk' c hc

/-- Nobody else has the token in a claim word. -/
theorem token_ne (ht : TokenInv s) {k : ℕ} (hne : (s.slot k).claim ≠ claimFree) {t : UInt32}
    (hu : t ∉ s.won) : t ≠ (s.slot k).claim := by
  rintro rfl
  exact hu ((ht.claim k).resolve_left hne)

variable [DecidableEq ι] {c : ι} {o : Outcome} {cfg : Config ι}

/-- A client moves; a claim word that is not free afterwards is as before, and so is its owner. -/
theorem client_move (h : Seen s) (hst : s.clientStep cfg c o = some s')
    (hclaim : ∀ k, (s'.slot k).claim = (s.slot k).claim ∨ (s'.slot k).claim = claimFree)
    (htok : ∀ d k, (s.slot k).claim ≠ claimFree → (s'.client d).token = (s.slot k).claim →
      (s.client d).token = (s.slot k).claim ∧ (s'.client d).wonAt = (s.client d).wonAt) :
    Seen s' := by
  intro k hcon hne t htk d hd
  have hk := (clientStep_sameServer hst).slot k
  simp only [Slot.clientSlot, Prod.mk.injEq] at hk
  obtain ⟨-, hcon', -, hat, -⟩ := hk
  have hck : (s'.slot k).claim = (s.slot k).claim := (hclaim k).resolve_right hne
  rw [hck] at hne hd
  obtain ⟨hd', hwon⟩ := htok d k hne hd
  rw [hwon]
  exact h k (hcon' ▸ hcon) hne t (hat ▸ htk) d hd'

/-- The same for a client that keeps its token. -/
theorem client_keep (h : Seen s) {k : ℕ} {sl : Slot κ} {cl : Client}
    (hst : s.clientStep cfg c o = some ((s.setSlot k sl).setClient c cl))
    (hclaim : sl.claim = (s.slot k).claim ∨ sl.claim = claimFree)
    (ht : cl.token = (s.client c).token) (hw : cl.wonAt = (s.client c).wonAt) :
    Seen ((s.setSlot k sl).setClient c cl) := by
  refine h.client_move hst (State.forall_setSlot (P := fun j (sl : Slot κ) =>
    sl.claim = (s.slot j).claim ∨ sl.claim = claimFree) hclaim fun _ => .inl rfl) ?_
  refine State.forall_setClient (P := fun d (cl : Client) => ∀ k, (s.slot k).claim ≠ claimFree →
    cl.token = (s.slot k).claim → (s.client d).token = (s.slot k).claim ∧
      cl.wonAt = (s.client d).wonAt) (fun _ _ hc => ?_) fun d _ _ hd => ⟨hd, rfl⟩
  exact ⟨ht ▸ hc, hw⟩

/-- A client wins a claim. -/
theorem win (h : Seen s) (ht : TokenInv s) (hpc : (s.client c).pc = .claim)
    (hf : (s.slot (s.client c).slotId).connected = true ∨
      (s.slot (s.client c).slotId).claimSeenAt = none) :
    Seen (((s.recordWin (s.client c).token).setSlot (s.client c).slotId
      { s.slot (s.client c).slotId with claim := (s.client c).token }).setClient c
        { s.client c with pc := .storePid, wonAt := s.now, entitled := true }) := by
  intro k hcon hne t htk d hd
  by_cases hk : k = (s.client c).slotId
  · subst hk
    simp only [State.setClient, State.setSlot_slot_self] at hcon htk
    rcases hf with hf | hf
    · cases hcon.symm.trans hf
    · rw [hf] at htk
      cases htk
  · have hslot : (((s.recordWin (s.client c).token).setSlot (s.client c).slotId
        { s.slot (s.client c).slotId with claim := (s.client c).token }).slot k) = s.slot k :=
      State.setSlot_slot_of_ne (s.recordWin _) hk _
    simp only [State.setClient, hslot] at hcon hne htk hd ⊢
    by_cases hdc : d = c
    · subst hdc
      rw [Function.update_self] at hd
      exact absurd hd (token_ne ht hne (ht.claiming d hpc).1)
    · rw [Function.update_of_ne hdc] at hd ⊢
      exact h k hcon hne t htk d hd

theorem clientStep (h : Seen s) (ht : TokenInv s)
    (hf : FreshClaim s (.client c o : Label ι κ)) (hst : s.clientStep cfg c o = some s') :
    Seen s' := by
  have hm := clientStep_cases hst
  cases hm with
  | @token t hpc hne hu =>
    refine h.client_move hst (fun _ => .inl rfl) fun d k hk hd => ?_
    by_cases hdc : d = c
    · subst hdc
      simp only [State.setClient, Function.update_self] at hd
      exact absurd hd (token_ne ht hk fun hm => hu (ht.won_used hm))
    · simp only [State.setClient, Function.update_of_ne hdc] at hd ⊢
      exact ⟨hd, rfl⟩
  | win hpc hfree => exact h.win ht hpc (hf hpc hfree)
  | storePid hpc => exact h.client_keep hst (.inl rfl) rfl rfl
  | release hpc =>
    refine h.client_keep hst ?_ rfl rfl
    split_ifs
    exacts [.inr rfl, .inl rfl]
  | quiet hq =>
    refine h.client_move hst (fun k => .inl (hq.claim k)) fun d k _ hd => ?_
    by_cases hdc : d = c
    · subst hdc
      exact ⟨hq.token ▸ hd, hq.wonAt⟩
    · rw [hq.others d hdc] at hd ⊢
      exact ⟨hd, rfl⟩

theorem step [DecidableEq κ] (h : Seen s) (ht : TokenInv s) {l : Label ι κ}
    (hf : FreshClaim s l) (hst : s.step cfg l = some s') : Seen s' := by
  by_cases hl : l.keepsClients = true
  · exact h.sameClients ht (step_sameClients hl hst)
  · cases l <;> simp only [State.step] at hst
    case tick | exit => cases hst; exact h
    case client c o =>
      split_ifs at hst
      exact h.clientStep ht hf hst
    all_goals exact absurd rfl hl

omit [DecidableEq ι] in
/-- A claim that is about to be freed was won before `claim_seen_at`, which is `RESERVE_TIMEOUT`
old. -/
theorem reserved (h : Seen s) (requested : ι → ℕ) : Reserved requested s where
  seen := h
  expired k orphaned claim _ hrec hne c hc := by
    obtain ⟨hcon, -, t, ht, hel⟩ := hrec
    have hseen := h k hcon hne t ht c hc
    have hlt := clampSlotTimeout_lt (requested c)
    omega

end Seen

/-- **No premature reclaim.**  If claims are won only while `claim_seen_at` is not taken, then
`reclaim_stale_claims` frees no claim within the `clamp_slot_timeout` of its client, whatever
timeouts the clients have asked for. -/
theorem reserved_of_freshClaim [DecidableEq ι] [DecidableEq κ] {cfg : Config ι} {s : State ι κ}
    (h : (system κ cfg).ReachWhen FreshClaim s) (requested : ι → ℕ) : Reserved requested s := by
  refine Seen.reserved (h.invariant (I := fun s => TokenInv s ∧ Seen s) ?_ ?_).2 requested
  · rintro _ rfl
    exact ⟨.init, fun _ _ hne => absurd rfl hne⟩
  · exact fun _ _ _ hi hf hst => ⟨hi.1.step hst, hi.2.step hi.1 hf hst⟩

instance (s : State ι κ) : DecidablePred (FreshClaim s)
  | .client .. => inferInstanceAs (Decidable (_ → _ → _ ∨ _))
  | .stop | .tick _ | .exit _ | .worker _ | .alive _ | .disconnectClient .. | .app .. | .sendTo ..
  | .shutdown _ => isTrue trivial

instance [Fintype ι] (requested : ι → ℕ) (s : State ι κ) : DecidablePred (Timely requested s)
  | .tick _ => inferInstanceAs (Decidable (∀ _ : ι, _ → _))
  | .stop | .exit _ | .worker _ | .alive _ | .disconnectClient .. | .app .. | .sendTo ..
  | .shutdown _ | .client .. => isTrue trivial

/-- The worker finds nothing to do on the slot. -/
def idlePass {ι κ : Type*} : List (Label ι κ) := work 7 ++ .worker .timeout :: work 3

/-- A client claims the slot and never connects; the worker comes to free its claim. -/
def abandoned : List (Label Unit Unit) :=
  claimSlot () 5 ++ idlePass ++ .tick 10000 :: work 2

/-- A client gives its claim back after 8 s and another one wins it before the worker looks again;
2 s later the worker comes to free it. -/
def succession : List (Label Bool Unit) :=
  claimSlot false 5 ++ idlePass ++ .tick 8000 :: .client false (.wait (.failed .timeout)) ::
    .client false .proceed :: claimSlot true 6 ++ idlePass ++ .tick 2000 :: work 2

theorem reserved_of_freshClaim_abandoned : ∃ s : State Unit Unit,
    (s.worker = .claimLoaded 0 [] 5 ∧ (s.slot 0).Reclaims s.now 5) ∧
      Reserved (fun _ => 10000) s := by
  obtain ⟨s, h, hs⟩ := System.exists_reachWhen (A := system Unit (oneSlot Unit)) (C := FreshClaim)
    (s := {}) (r := abandoned)
    (f := fun s => (s.worker, decide ((s.slot 0).Reclaims s.now 5)))
    (t := (.claimLoaded 0 [] 5, true)) rfl (by decide +kernel)
  simp only [Prod.mk.injEq, decide_eq_true_eq] at hs
  exact ⟨s, hs, reserved_of_freshClaim h _⟩

/-- The claim of the second client is freed after 2 s. -/
theorem not_reserved : ¬ ∀ (ι κ : Type) [DecidableEq ι] [DecidableEq κ] (cfg : Config ι)
    (requested : ι → ℕ) (s : State ι κ), (system κ cfg).ReachWhen (Timely requested) s →
      Reserved requested s := by
  intro h
  obtain ⟨s, hr, hs⟩ := System.exists_reachWhen (A := system Unit (oneSlot Bool))
    (C := Timely fun _ => 10000) (s := {}) (r := succession)
    (f := fun s => (s.worker, decide ((s.slot 0).Reclaims s.now 6), (s.slot 0).claim,
      (s.client true).token, (s.client true).wonAt, s.now))
    (t := (.claimLoaded 0 [] 6, true, 6, 6, 8000, 10000)) rfl (by decide +kernel)
  simp only [Prod.mk.injEq, decide_eq_true_eq] at hs
  obtain ⟨hw, hrec, hcl, htok, hwon, hnow⟩ := hs
  have := (h Bool Unit _ _ s hr).expired 0 [] 6 hw hrec (by rw [hcl]; decide) true
    (htok.trans hcl.symm)
  rw [hwon, hnow] at this
  exact absurd this (by decide)

end Multi

end Xshm
