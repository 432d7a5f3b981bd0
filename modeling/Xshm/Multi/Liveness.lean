import Xshm.System.History
import Xshm.Multi.Tokens

/-!
# Who is found dead

The worker reports a connected slot as orphaned when `is_process_alive` denies that the process in
`reserved[RESERVED_OWNER_PID_INDEX]` runs, and frees the claim it has loaded before by a
compare-and-swap.  Claim and PID are two words, which a client stores one after the other.  So the
PID may be that of an earlier client: if the owner of the claim has not stored its own yet, or if an
earlier client that was slow has stored its own since.

If neither happens (`PidInOrder`), then a claim is freed for a dead owner only if the process of the
client that won this very claim has exited (`livenessExact_of_pidInOrder`).  The winners of each
slot are kept as a history.
-/

namespace Xshm

namespace Multi

variable {ι κ : Type*}

/-- The entries after the first `e`. -/
def later {α : Type*} [DecidableEq α] (e : α) : List α → List α
  | [] => []
  | x :: l => if x = e then l else later e l

/-- An entry is after `e`, or `e` is that entry or after it. -/
theorem mem_or_mem_later {α : Type*} [DecidableEq α] {e x : α} {pre post : List α}
    (he : e ∈ pre ++ x :: post) : e ∈ x :: post ∨ x ∈ later e (pre ++ x :: post) := by
  induction pre with
  | nil => exact .inl he
  | cons y pre ih =>
    rw [List.cons_append, later]
    split_ifs with hy
    · exact .inr (List.mem_append_right _ List.mem_cons_self)
    · refine ih ((List.mem_cons.1 he).resolve_left fun h => hy h.symm)

/-- The history: the tokens that have won each slot, with their clients, in order. -/
abbrev Wins (ι : Type*) := ℕ → List (UInt32 × ι)

def noteWin [DecidableEq ι] (s : State ι κ) (l : Label ι κ) (s' : State ι κ) (g : Wins ι) :
    Wins ι :=
  match l with
  | .client c _ =>
    if (s.client c).pc = .claim ∧ (s'.client c).pc = .storePid then
      Function.update g (s.client c).slotId
        (g (s.client c).slotId ++ [((s.client c).token, c)])
    else g
  | _ => g

theorem noteWin_of_ne [DecidableEq ι] {s s' : State ι κ} {g : Wins ι} {c : ι} {o : Outcome}
    (hpc : (s.client c).pc ≠ .claim) : noteWin s (.client c o) s' g = g :=
  if_neg fun h => hpc h.1

/-- A server with its slots and clients, with the winners. -/
def winSystem {ι : Type*} (κ : Type*) [DecidableEq ι] [DecidableEq κ] (cfg : Config ι) :
    System (State ι κ × Wins ι) (Label ι κ) :=
  (Multi.system κ cfg).withHistory (fun _ => []) noteWin

/-- The winner has not stored its PID. -/
def State.Pending (s : State ι κ) (k : ℕ) (e : UInt32 × ι) : Prop :=
  (s.client e.2).pc = .storePid ∧ (s.client e.2).token = e.1 ∧ (s.client e.2).slotId = k

/-- The PID is that of the client that won the slot with that claim, or of one that won it later. -/
def Attributed (cfg : Config ι) (W : List (UInt32 × ι)) (claim pid : UInt32) : Prop :=
  ∃ pre c post, W = pre ++ (claim, c) :: post ∧ ∃ y ∈ (claim, c) :: post, cfg.pid y.2 = pid

/-- A claim that is about to be freed for a dead owner was won by a client whose process has exited,
and no PID that was stored earlier is checked for a claim. -/
structure LivenessExact (cfg : Config ι) (p : State ι κ × Wins ι) : Prop where
  evicted : ∀ k expected orphaned, p.1.worker = .orphanCas k expected orphaned →
    (p.1.slot k).claim = expected → expected ≠ claimFree →
      ∃ c, (expected, c) ∈ p.2 k ∧ cfg.pid c ∈ p.1.exited
  attributed : ∀ k orphaned claim pid, p.1.worker = .checkAlive k orphaned claim pid →
    pid = 0 ∨ Attributed cfg (p.2 k) claim pid

/-- The claim for which the worker is about to load the PID, with its slot. -/
def Worker.checking : Worker → Option (ℕ × UInt32)
  | .loadOwner k _ claim => some (k, claim)
  | _ => none

/-- When the worker loads the PID for a claim, the winner of that claim has stored its own, or the
word holds none or that of the same process; and a client stores its PID before the clients of
other processes that have won the slot since. -/
def PidInOrder [DecidableEq ι] (cfg : Config ι) (p : State ι κ × Wins ι) : Label ι κ → Prop
  | .worker _ => ∀ e ∈ p.1.worker.checking, ∀ c, p.1.Pending e.1 (e.2, c) →
      (p.1.slot e.1).ownerPid = 0 ∨ (p.1.slot e.1).ownerPid = cfg.pid c
  | .client c _ => (p.1.client c).pc = .storePid →
      ∀ y ∈ later ((p.1.client c).token, c) (p.2 (p.1.client c).slotId),
        p.1.Pending (p.1.client c).slotId y ∨ cfg.pid y.2 = cfg.pid c
  | _ => True

/-! ### What the worker has at hand -/

/-- The slots that the worker has found orphaned, with the claims it expects there. -/
def Worker.orphaned : Worker → List (ℕ × UInt32)
  | .reclaim _ orphaned | .claimLoaded _ orphaned _ | .loadOwner _ orphaned _
  | .checkAlive _ orphaned _ _ | .orphans orphaned | .orphanMark _ orphaned _
  | .orphanCall _ orphaned => orphaned
  | .orphanCas k expected orphaned => (k, expected) :: orphaned
  | _ => []

/-- The claim that the worker has loaded, with its slot. -/
def Worker.loaded : Worker → Option (ℕ × UInt32)
  | .claimLoaded k _ claim | .loadOwner k _ claim | .checkAlive k _ claim _ => some (k, claim)
  | _ => none

/-- Where the reports and the words that the worker has at hand come from. -/
structure Reports (s s' : State ι κ) : Prop where
  orphaned : ∀ e ∈ s'.worker.orphaned, e ∈ s.worker.orphaned ∨ e.2 = claimFree
  loaded : ∀ k claim, s'.worker.loaded = some (k, claim) →
    s.worker.loaded = some (k, claim) ∨ claim = (s.slot k).claim
  nonfree : ∀ k orphaned claim, s'.worker = .loadOwner k orphaned claim → claim ≠ claimFree
  checked : ∀ k orphaned claim pid, s'.worker = .checkAlive k orphaned claim pid →
    s.worker = .loadOwner k orphaned claim ∧ pid = (s.slot k).ownerPid

section Reports

variable {s s' : State ι κ}

/-- The worker goes on with no claim at hand. -/
theorem Reports.unloaded (ho : ∀ e ∈ s'.worker.orphaned, e ∈ s.worker.orphaned ∨ e.2 = claimFree)
    (hl : s'.worker.loaded = none) : Reports s s' where
  orphaned := ho
  loaded k claim hk := by
    rw [hl] at hk
    cases hk
  nonfree k orphaned claim hw := by
    rw [hw] at hl
    cases hl
  checked k orphaned claim pid hw := by
    rw [hw] at hl
    cases hl

/-- The worker goes on with the reports it has, or with fewer. -/
theorem Reports.subset (ho : s'.worker.orphaned ⊆ s.worker.orphaned)
    (hl : s'.worker.loaded = none) : Reports s s' :=
  .unloaded (fun _ he => .inl (ho he)) hl

/-- The worker goes on with nothing. -/
theorem Reports.none (ho : s'.worker.orphaned = []) (hl : s'.worker.loaded = none) :
    Reports s s' := by
  refine .subset ?_ hl
  rw [ho]
  exact List.nil_subset _

/-- The worker keeps the reports it has, and the claim it has loaded. -/
theorem Reports.keeps (ho : s'.worker.orphaned = s.worker.orphaned)
    (hl : s'.worker.loaded = s.worker.loaded)
    (hn : ∀ k orphaned claim, s'.worker = .loadOwner k orphaned claim → claim ≠ claimFree)
    (hc : ∀ k orphaned claim pid, s'.worker = .checkAlive k orphaned claim pid →
      s.worker = .loadOwner k orphaned claim ∧ pid = (s.slot k).ownerPid) : Reports s s' where
  orphaned _ he := .inl (ho ▸ he)
  loaded _ _ hk := .inl (hl ▸ hk)
  nonfree := hn
  checked := hc

theorem Worker.Goes.reports {cfg : Config ι} {t t' : Worker} (h : t.Goes cfg s t') :
    t'.orphaned ⊆ t.orphaned ∧ t'.loaded = none := by
  cases h with
  | noOrphan => exact ⟨List.subset_cons_self _ _, rfl⟩
  | _ => exact ⟨fun _ he => he, rfl⟩

theorem Worker.Drops.reports {sl : Slot κ} {k : ℕ} {t t' : Worker} (h : t.Drops sl k t') :
    (∀ e ∈ t'.orphaned, e ∈ t.orphaned ∨ e.2 = claimFree) ∧ t'.loaded = none := by
  cases h with
  | unclaimed =>
    refine ⟨fun e he => ?_, rfl⟩
    rcases List.mem_append.1 he with he | he
    · exact .inl he
    · rw [List.mem_singleton.1 he]
      exact .inr rfl
  | kept => exact ⟨fun e he => .inl (List.mem_cons_of_mem _ he), rfl⟩
  | _ => exact ⟨fun _ he => .inl he, rfl⟩

theorem Worker.Calls.reports {k : ℕ} {c : Callback} {t t' : Worker} (h : t.Calls k c t') :
    t'.orphaned ⊆ t.orphaned ∧ t'.loaded = none := by
  cases h <;> exact ⟨fun _ he => he, rfl⟩

/-- The worker loads the claim of the slot whose mutex it takes. -/
theorem Reports.takes {cfg : Config ι} {k : ℕ} {t : Worker} (hw : s'.worker = t)
    (h : s.worker.Takes cfg (s.slot k) k t) : Reports s s' := by
  generalize hs : s.worker = u at h
  cases h with
  | reclaim =>
    refine ⟨?_, ?_, ?_, ?_⟩ <;> rw [hw]
    · rw [hs]
      exact fun e he => .inl he
    · rintro _ _ ⟨⟩
      exact .inr rfl
    · rintro _ _ _ ⟨⟩
    · rintro _ _ _ _ ⟨⟩
  | _ => exact .subset (by rw [hw, hs]; exact fun _ he => he) (by rw [hw]; rfl)

theorem WorkerMove.reports {cfg : Config ι} {w : WaitOutcome}
    (hm : WorkerMove cfg s (.worker w) s') : Reports s s' := by
  have same {t : Worker} {o : List (ℕ × UInt32)} (hs : s.worker = t) (ho : o ⊆ t.orphaned) :
      o ⊆ s.worker.orphaned := hs ▸ ho
  cases hm with
  | goes hg => exact .subset hg.reports.1 hg.reports.2
  | takes _ ht => exact .takes rfl ht
  | drops hd => exact .unloaded hd.reports.1 hd.reports.2
  | calls hc => exact .subset hc.reports.1 hc.reports.2
  | @consumes _ e => cases e <;> exact .none rfl rfl
  | sees hs _ hfree =>
    refine .keeps (by rw [hs]; rfl) (by rw [hs]; rfl) ?_ (by rintro _ _ _ _ ⟨⟩)
    rintro _ _ _ ⟨⟩
    exact hfree
  | loads hs =>
    refine .keeps (by rw [hs]; rfl) (by rw [hs]; rfl) (by rintro _ _ _ ⟨⟩) ?_
    rintro _ _ _ _ ⟨⟩
    exact ⟨hs, rfl⟩
  | orphans hs => exact .subset (same hs (List.subset_cons_self _ _)) rfl
  | reclaims hs | orphanMarks hs | orphanMarked hs =>
    exact .subset (same hs (List.Subset.refl _)) rfl
  | @handshakes w k pc seg next => rcases next with pc' | (e | u) <;> exact .none rfl rfl
  | releases =>
    exact .none (by dsimp only [State.setWorker]; split_ifs <;> rfl)
      (by dsimp only [State.setWorker]; split_ifs <;> rfl)
  | _ => exact .none rfl rfl

end Reports

/-! ### The invariant -/

/-- The PID word has been stored by the winner or by a later one, unless the winner has not stored
its own. -/
def Settled (cfg : Config ι) (s : State ι κ) (k : ℕ) (W : List (UInt32 × ι)) : Prop :=
  ∀ pre x post, W = pre ++ x :: post →
    s.Pending k x ∨ ∃ y ∈ x :: post, cfg.pid y.2 = (s.slot k).ownerPid

/-- The invariant: the last winner of a slot is the owner of its claim word, and what the worker
has at hand belongs to winners. -/
structure WinInv (cfg : Config ι) (p : State ι κ × Wins ι) : Prop where
  nodup : ∀ k, ((p.2 k).map Prod.fst).Nodup
  won : ∀ k, ∀ e ∈ p.2 k, e.1 ∈ p.1.won
  last : ∀ k, (p.1.slot k).claim ≠ claimFree →
    ∃ c, (p.2 k).getLast? = some ((p.1.slot k).claim, c)
  pending : ∀ c, (p.1.client c).pc = .storePid →
    ((p.1.client c).token, c) ∈ p.2 (p.1.client c).slotId
  settled : ∀ k, Settled cfg p.1 k (p.2 k)
  loaded : ∀ k claim, p.1.worker.loaded = some (k, claim) → claim ≠ claimFree →
    ∃ c, (claim, c) ∈ p.2 k
  nonfree : ∀ k orphaned claim, p.1.worker = .loadOwner k orphaned claim → claim ≠ claimFree
  checked : ∀ k orphaned claim pid, p.1.worker = .checkAlive k orphaned claim pid →
    pid = 0 ∨ Attributed cfg (p.2 k) claim pid
  orphaned : ∀ e ∈ p.1.worker.orphaned,
    e.2 = claimFree ∨ ∃ pid ∈ p.1.exited, Attributed cfg (p.2 e.1) e.2 pid

theorem Attributed.append {cfg : Config ι} {W : List (UInt32 × ι)} {claim pid : UInt32}
    (h : Attributed cfg W claim pid) (W' : List (UInt32 × ι)) :
    Attributed cfg (W ++ W') claim pid := by
  obtain ⟨pre, c, post, rfl, y, hy, hpid⟩ := h
  refine ⟨pre, c, post ++ W', by simp, y, ?_, hpid⟩
  rw [← List.cons_append]
  exact List.mem_append_left _ hy

/-- The claim of the last winner is attributed to its own process. -/
theorem Attributed.of_getLast {cfg : Config ι} {W : List (UInt32 × ι)} {claim pid : UInt32}
    (h : Attributed cfg W claim pid) (hn : (W.map Prod.fst).Nodup) {c : ι}
    (hl : W.getLast? = some (claim, c)) : cfg.pid c = pid := by
  obtain ⟨pre, d, post, rfl, y, hy, hpid⟩ := h
  have hpost : post = [] := by
    by_contra hne
    -- another entry has that token, against `nodup`
    have hlast : (claim, c) ∈ post := by
      rw [List.getLast?_append_of_ne_nil _ (List.cons_ne_nil _ _),
        List.getLast?_cons_of_ne_nil hne] at hl
      exact List.mem_of_getLast? hl
    rw [List.map_append, List.map_cons] at hn
    have hd := (List.nodup_append.1 hn).2.1
    exact (List.nodup_cons.1 hd).1 (List.mem_map.2 ⟨_, hlast, rfl⟩)
  subst hpost
  rw [List.getLast?_concat] at hl
  cases hl
  rw [List.mem_singleton.1 hy] at hpid
  exact hpid

namespace WinInv

variable {cfg : Config ι} {s s' : State ι κ} {g : Wins ι}

theorem init : WinInv cfg (({} : State ι κ), fun _ => []) := by
  constructor <;> simp [Worker.loaded, Worker.orphaned, Settled]

theorem livenessExact (h : WinInv cfg (s, g)) : LivenessExact cfg (s, g) where
  attributed := h.checked
  evicted k expected orphaned hw hcl hne := by
    obtain ⟨c, hc⟩ := h.last k (by rw [hcl]; exact hne)
    change (g k).getLast? = _ at hc
    rw [hcl] at hc
    refine ⟨c, List.mem_of_getLast? hc, ?_⟩
    have hmem : (k, expected) ∈ s.worker.orphaned := by
      rw [hw]
      exact List.mem_cons_self
    rcases h.orphaned (k, expected) hmem with hf | ⟨pid, hex, hatt⟩
    · exact absurd hf hne
    · rw [hatt.of_getLast (h.nodup k) hc]
      exact hex

theorem pending_iff (hs : SameClients s s') (k : ℕ) (e : UInt32 × ι) :
    s'.Pending k e ↔ s.Pending k e := by
  simp only [State.Pending, hs.pc, hs.token, hs.slotId]

/-- A step that moves no client, if what the worker has at hand afterwards belongs to winners. -/
theorem sameClients (h : WinInv cfg (s, g)) (hs : SameClients s s')
    (hl : ∀ k claim, s'.worker.loaded = some (k, claim) → claim ≠ claimFree →
      ∃ c, (claim, c) ∈ g k)
    (hn : ∀ k orphaned claim, s'.worker = .loadOwner k orphaned claim → claim ≠ claimFree)
    (hc : ∀ k orphaned claim pid, s'.worker = .checkAlive k orphaned claim pid →
      pid = 0 ∨ Attributed cfg (g k) claim pid)
    (ho : ∀ e ∈ s'.worker.orphaned,
      e.2 = claimFree ∨ ∃ pid ∈ s.exited, Attributed cfg (g e.1) e.2 pid) :
    WinInv cfg (s', g) where
  nodup := h.nodup
  won k e he := by
    change e.1 ∈ s'.won
    rw [hs.won]
    exact h.won k e he
  last k hne := by
    have hck : (s'.slot k).claim = (s.slot k).claim := (hs.slot k).claim.resolve_right hne
    change ∃ c, (g k).getLast? = some ((s'.slot k).claim, c)
    rw [hck]
    exact h.last k (hck ▸ hne)
  pending c := by
    change (s'.client c).pc = _ → ((s'.client c).token, c) ∈ g (s'.client c).slotId
    rw [hs.pc, hs.token, hs.slotId]
    exact h.pending c
  settled k pre x post hW := by
    rw [pending_iff hs, (hs.slot k).ownerPid]
    exact h.settled k pre x post hW
  loaded := hl
  nonfree := hn
  checked := hc
  orphaned e he := by
    change _ ∨ ∃ pid ∈ s'.exited, _
    rw [hs.exited]
    exact ho e he

/-- The worker does not move, and neither does a client. -/
theorem keepWorker (h : WinInv cfg (s, g)) (hs : SameClients s s') (hw : s'.worker = s.worker) :
    WinInv cfg (s', g) := by
  refine h.sameClients hs ?_ ?_ ?_ ?_ <;> rw [hw]
  exacts [h.loaded, h.nonfree, h.checked, h.orphaned]

/-- A step of the worker other than `is_process_alive`. -/
theorem worker_step (h : WinInv cfg (s, g)) (hs : SameClients s s') (hr : Reports s s')
    (hk : ∀ k orphaned claim, s.worker = .loadOwner k orphaned claim →
      ∀ c, s.Pending k (claim, c) → (s.slot k).ownerPid = 0 ∨
        (s.slot k).ownerPid = cfg.pid c) : WinInv cfg (s', g) := by
  refine h.sameClients hs (fun k claim hl hne => ?_) hr.nonfree (fun k orphaned claim pid hw => ?_)
    fun e he => ?_
  · rcases hr.loaded k claim hl with hl | rfl
    · exact h.loaded k claim hl hne
    · obtain ⟨c, hc⟩ := h.last k hne
      exact ⟨c, List.mem_of_getLast? hc⟩
  · obtain ⟨hw', rfl⟩ := hr.checked k orphaned claim pid hw
    have hl : s.worker.loaded = some (k, claim) := by rw [hw']; rfl
    obtain ⟨c, hc⟩ := h.loaded k claim hl (h.nonfree k orphaned claim hw')
    obtain ⟨pre, post, hW⟩ := List.append_of_mem hc
    rcases h.settled k pre (claim, c) post hW with hp | hy
    · rcases hk k orphaned claim hw' c hp with h0 | hpid
      · exact .inl h0
      · exact .inr ⟨pre, c, post, hW, (claim, c), List.mem_cons_self, hpid.symm⟩
    · exact .inr ⟨pre, c, post, hW, hy⟩
  · rcases hr.orphaned e he with he | he
    · exact h.orphaned e he
    · exact .inl he

/-- The worker has asked whether the owner is alive. -/
theorem checks (h : WinInv cfg (s, g)) {k : ℕ} {t : Worker}
    (hc : s.worker.Checks s.exited k t) : WinInv cfg ((s.unlock k).setWorker t, g) := by
  have hs : SameClients s ((s.unlock k).setWorker t) := SameClients.refl.unlock.setWorker t
  have hunloaded : t.loaded = none := by
    generalize s.worker = u at hc
    cases hc <;> rfl
  refine h.sameClients hs (fun j claim hj => ?_) (fun j o claim hj => ?_)
    (fun j o claim pid hj => ?_) fun e he => ?_
  · cases hunloaded.symm.trans hj
  · cases (congrArg Worker.loaded hj).symm.trans hunloaded
  · cases (congrArg Worker.loaded hj).symm.trans hunloaded
  · change e ∈ t.orphaned at he
    generalize hw : s.worker = u at hc
    cases hc with
    | alive => exact h.orphaned e (by dsimp only; rw [hw]; exact he)
    | @dead orphaned claim pid hpid hexited =>
      rcases List.mem_append.1 he with he | he
      · exact h.orphaned e (by dsimp only; rw [hw]; exact he)
      · -- the process has exited; whose it is was settled when its PID was loaded
        rw [List.mem_singleton.1 he]
        exact .inr ⟨pid, hexited, (h.checked k orphaned claim pid hw).resolve_left hpid⟩

variable {c : ι}

/-- A client moves without winning a claim or storing its PID; a claim word may be freed. -/
theorem client_step (h : WinInv cfg (s, g)) (hw : s'.worker = s.worker)
    (hex : s'.exited = s.exited) (hwon : s'.won = s.won)
    (hclaim : ∀ k, (s'.slot k).claim = (s.slot k).claim ∨ (s'.slot k).claim = claimFree)
    (hpid : ∀ k, (s'.slot k).ownerPid = (s.slot k).ownerPid)
    (hothers : ∀ d, d ≠ c → s'.client d = s.client d) (hpc : (s.client c).pc ≠ .storePid)
    (hpc' : (s'.client c).pc ≠ .storePid) : WinInv cfg (s', g) := by
  have hcl {d : ι} (hd : (s'.client d).pc = .storePid ∨ (s.client d).pc = .storePid) :
      s'.client d = s.client d := by
    refine hothers d ?_
    rintro rfl
    exact hd.elim hpc' hpc
  have hpend (k : ℕ) (e : UInt32 × ι) (he : s.Pending k e) : s'.Pending k e := by
    rw [State.Pending, hcl (.inr he.1)]
    exact he
  refine ⟨h.nodup, fun k e he => ?_, fun k hne => ?_, fun d hd => ?_, fun k pre x post hW => ?_,
    ?_, ?_, ?_, ?_⟩
  · change e.1 ∈ s'.won
    rw [hwon]
    exact h.won k e he
  · have hc := (hclaim k).resolve_right hne
    change ∃ c, (g k).getLast? = some ((s'.slot k).claim, c)
    rw [hc]
    exact h.last k (hc ▸ hne)
  · have hd' := hcl (.inl hd)
    change ((s'.client d).token, d) ∈ g (s'.client d).slotId
    rw [hd']
    exact h.pending d (hd' ▸ hd)
  · rw [hpid]
    exact (h.settled k pre x post hW).imp_left (hpend k x)
  all_goals
    dsimp only
    rw [hw]
  · exact h.loaded
  · exact h.nonfree
  · exact h.checked
  · rw [hex]
    exact h.orphaned

section

variable [DecidableEq ι]

/-- The other clients are pending as before. -/
theorem pending_setClient {sl : Slot κ} {cl : Client} {j k : ℕ} {e : UInt32 × ι} (he : e.2 ≠ c) :
    ((s.setSlot j sl).setClient c cl).Pending k e ↔ s.Pending k e := by
  simp [State.Pending, State.setClient, he, State.setSlot]

/-- A client stores its PID. -/
theorem storePid (h : WinInv cfg (s, g)) (hpc : (s.client c).pc = .storePid)
    (hord : ∀ y ∈ later ((s.client c).token, c) (g (s.client c).slotId),
      s.Pending (s.client c).slotId y ∨ cfg.pid y.2 = cfg.pid c) :
    WinInv cfg ((s.setSlot (s.client c).slotId
      { s.slot (s.client c).slotId with ownerPid := cfg.pid c }).setClient c
        { s.client c with pc := .connecting .storeClient }, g) := by
  have hclaim : ∀ k, ((s.setSlot (s.client c).slotId
      { s.slot (s.client c).slotId with ownerPid := cfg.pid c }).slot k).claim =
        (s.slot k).claim :=
    State.forall_setSlot (P := fun j (sl : Slot κ) => sl.claim = (s.slot j).claim) rfl fun _ => rfl
  refine
    { h with
      last := fun k hne => ?_
      pending := fun d hd => ?_
      settled := fun k pre x post hW => ?_ }
  · have hck := hclaim k
    change ∃ c, (g k).getLast? = some (((s.setSlot _ _).slot k).claim, c)
    rw [hck]
    exact h.last k (hck ▸ hne)
  · by_cases hdc : d = c
    · subst hdc
      simp [State.setClient] at hd
    · simp only [State.setClient, Function.update_of_ne hdc] at hd ⊢
      exact h.pending d hd
  · change g k = _ at hW
    by_cases hk : k = (s.client c).slotId
    · subst hk
      have hmem := h.pending c hpc
      change _ ∈ g _ at hmem
      rw [hW] at hmem hord
      have hpid : (((s.setSlot (s.client c).slotId
          { s.slot (s.client c).slotId with ownerPid := cfg.pid c }).slot
            (s.client c).slotId)).ownerPid = cfg.pid c := by
        rw [State.setSlot_slot_self]
      rcases mem_or_mem_later hmem with hx | hx
      · exact .inr ⟨_, hx, hpid.symm⟩
      · rcases hord x hx with hpend | hsame
        · by_cases hxc : x.2 = c
          · exact .inr ⟨x, List.mem_cons_self, (congrArg cfg.pid hxc).trans hpid.symm⟩
          · exact .inl ((pending_setClient hxc).2 hpend)
        · exact .inr ⟨x, List.mem_cons_self, hsame.trans hpid.symm⟩
    · have hpid : ((s.setSlot (s.client c).slotId
          { s.slot (s.client c).slotId with ownerPid := cfg.pid c }).slot k).ownerPid =
            (s.slot k).ownerPid := by
        rw [State.setSlot_slot_of_ne s hk]
      refine (h.settled k pre x post hW).imp (fun hpend => ?_) fun hy => ?_
      · refine (pending_setClient ?_).2 hpend
        rintro hxc
        exact hk (hxc ▸ hpend.2.2.symm)
      · change ∃ y ∈ x :: post, cfg.pid y.2 = ((s.setSlot _ _).slot k).ownerPid
        rw [hpid]
        exact hy

end

/-- What is in a list of winners stays there. -/
theorem mem_update {e : UInt32 × ι} {k : ℕ} (he : e ∈ g k) (j : ℕ) (W : List (UInt32 × ι)) :
    e ∈ Function.update g j (g j ++ W) k := by
  by_cases hk : k = j
  · subst hk
    rw [Function.update_self]
    exact List.mem_append_left _ he
  · rwa [Function.update_of_ne hk]

theorem attributed_update {claim pid : UInt32} {k : ℕ} (h : Attributed cfg (g k) claim pid)
    (j : ℕ) (W : List (UInt32 × ι)) :
    Attributed cfg (Function.update g j (g j ++ W) k) claim pid := by
  by_cases hk : k = j
  · subst hk
    rw [Function.update_self]
    exact h.append W
  · rwa [Function.update_of_ne hk]

/-- A split of a list with a new last entry. -/
theorem concat_split {α : Type*} {l pre post : List α} {e x : α}
    (h : l ++ [e] = pre ++ x :: post) :
    x = e ∧ post = [] ∨ ∃ post', post = post' ++ [e] ∧ l = pre ++ x :: post' := by
  rcases List.eq_nil_or_concat post with rfl | ⟨post', y, rfl⟩
  · obtain ⟨-, he⟩ := List.append_inj' h rfl
    cases he
    exact .inl ⟨rfl, rfl⟩
  · have h' : l ++ [e] = (pre ++ x :: post') ++ [y] := by simpa using h
    obtain ⟨hl, he⟩ := List.append_inj' h' rfl
    cases he
    exact .inr ⟨post', by simp, hl⟩

variable [DecidableEq ι]

/-- A client wins a free claim. -/
theorem win (h : WinInv cfg (s, g)) (ht : TokenInv s) (hpc : (s.client c).pc = .claim) :
    WinInv cfg (((s.recordWin (s.client c).token).setSlot (s.client c).slotId
      { s.slot (s.client c).slotId with claim := (s.client c).token }).setClient c
        { s.client c with pc := .storePid, wonAt := s.now, entitled := true },
      Function.update g (s.client c).slotId
        (g (s.client c).slotId ++ [((s.client c).token, c)])) := by
  obtain ⟨hnew, -⟩ := ht.claiming c hpc
  have hpend {k : ℕ} {e : UInt32 × ι} (he : s.Pending k e) :
      (((s.recordWin (s.client c).token).setSlot (s.client c).slotId
        { s.slot (s.client c).slotId with claim := (s.client c).token }).setClient c
          { s.client c with pc := .storePid, wonAt := s.now, entitled := true }).Pending k e := by
    refine (pending_setClient (s := s.recordWin _) ?_).2 he
    rintro hec
    have := he.1
    rw [hec, hpc] at this
    cases this
  have hpid : ∀ k, (((s.recordWin (s.client c).token).setSlot (s.client c).slotId
      { s.slot (s.client c).slotId with claim := (s.client c).token }).slot k).ownerPid =
        (s.slot k).ownerPid := by
    refine State.forall_setSlot (P := fun j (sl : Slot κ) =>
      sl.ownerPid = (s.slot j).ownerPid) ?_ fun _ => rfl
    rfl
  refine ⟨fun k => ?_, fun k e he => ?_, fun k hne => ?_, fun d hd => ?_,
    fun k pre x post hW => ?_, fun k claim hl hne => ?_, h.nonfree, fun k o claim pid hw => ?_,
    fun e he => ?_⟩
  · by_cases hk : k = (s.client c).slotId
    · subst hk
      simp only [Function.update_self, List.map_append, List.map_cons, List.map_nil]
      refine List.nodup_append.2 ⟨h.nodup _, List.nodup_singleton _, ?_⟩
      intro a ha b hb hab
      obtain ⟨e, he, rfl⟩ := List.mem_map.1 ha
      rw [List.mem_singleton.1 hb] at hab
      exact hnew (hab ▸ h.won _ e he)
    · simp only [Function.update_of_ne hk]
      exact h.nodup k
  · refine Finset.mem_insert.2 ?_
    by_cases hk : k = (s.client c).slotId
    · subst hk
      simp only [Function.update_self] at he
      rcases List.mem_append.1 he with he | he
      · exact .inr (h.won _ e he)
      · rw [List.mem_singleton.1 he]
        exact .inl rfl
    · simp only [Function.update_of_ne hk] at he
      exact .inr (h.won k e he)
  · by_cases hk : k = (s.client c).slotId
    · subst hk
      refine ⟨c, ?_⟩
      simp [State.setClient]
    · have hslot := State.setSlot_slot_of_ne (s.recordWin (s.client c).token) hk
        { s.slot (s.client c).slotId with claim := (s.client c).token }
      simp only [State.setClient, hslot, Function.update_of_ne hk] at hne ⊢
      exact h.last k hne
  · by_cases hdc : d = c
    · subst hdc
      simp [State.setClient]
    · simp only [State.setClient, Function.update_of_ne hdc] at hd ⊢
      exact mem_update (h.pending d hd) _ _
  · change _ ∨ ∃ y ∈ x :: post, cfg.pid y.2 = ((State.setSlot _ _ _).slot k).ownerPid
    rw [hpid]
    by_cases hk : k = (s.client c).slotId
    · subst hk
      simp only [Function.update_self] at hW
      rcases concat_split hW with ⟨rfl, rfl⟩ | ⟨post', rfl, hold⟩
      · left
        simp [State.Pending, State.setClient]
      · refine (h.settled _ pre x post' hold).imp hpend ?_
        rintro ⟨y, hy, hyp⟩
        refine ⟨y, ?_, hyp⟩
        rw [← List.cons_append]
        exact List.mem_append_left _ hy
    · simp only [Function.update_of_ne hk] at hW
      exact (h.settled k pre x post hW).imp_left hpend
  · obtain ⟨d, hd⟩ := h.loaded k claim hl hne
    exact ⟨d, mem_update hd _ _⟩
  · exact (h.checked k o claim pid hw).imp_right fun ha => attributed_update ha _ _
  · refine (h.orphaned e he).imp_right ?_
    rintro ⟨pid, hex, ha⟩
    exact ⟨pid, hex, attributed_update ha _ _⟩

theorem clientStep (h : WinInv cfg (s, g)) (ht : TokenInv s) {o : Outcome}
    (hord : PidInOrder cfg (s, g) (.client c o : Label ι κ))
    (hst : s.clientStep cfg c o = some s') :
    WinInv cfg (s', noteWin s (.client c o) s' g) := by
  have hworker := (clientStep_sameServer hst).worker
  have hm := clientStep_cases hst
  cases hm with
  | @token t hpc hne hu =>
    rw [noteWin_of_ne (by rw [hpc]; rintro ⟨⟩)]
    refine h.client_step (c := c) rfl rfl rfl (fun _ => .inl rfl) (fun _ => rfl) ?_ ?_ ?_
    · intro d hd
      simp [State.setClient, hd, State.recordToken]
    · rw [hpc]
      rintro ⟨⟩
    · simp [State.setClient]
  | win hpc hfree =>
    rw [noteWin, if_pos ⟨hpc, by simp [State.setClient]⟩]
    exact h.win ht hpc
  | storePid hpc =>
    rw [noteWin_of_ne (by rw [hpc]; rintro ⟨⟩)]
    exact h.storePid hpc (hord hpc)
  | release hpc =>
    rw [noteWin_of_ne (by rw [hpc]; rintro ⟨⟩)]
    refine h.client_step (c := c) rfl rfl rfl ?_ ?_ ?_ ?_ ?_
    · refine State.forall_setSlot (P := fun j (sl : Slot κ) =>
        sl.claim = (s.slot j).claim ∨ sl.claim = claimFree) ?_ fun _ => .inl rfl
      split_ifs
      exacts [.inr rfl, .inl rfl]
    · refine State.forall_setSlot (P := fun j (sl : Slot κ) =>
        sl.ownerPid = (s.slot j).ownerPid) ?_ fun _ => rfl
      split_ifs <;> rfl
    · intro d hd
      simp [State.setClient, hd, State.setSlot]
    · rw [hpc]
      rintro ⟨⟩
    · simp [State.setClient]
  | quiet hq =>
    rw [noteWin, if_neg fun hc => hq.storePid.2 hc.2]
    exact h.client_step hworker hq.exited hq.won (fun k => .inl (hq.claim k)) hq.ownerPid
      hq.others hq.storePid.1 hq.storePid.2

theorem step [DecidableEq κ] {p p' : State ι κ × Wins ι} {l : Label ι κ} (h : WinInv cfg p)
    (ht : TokenInv p.1) (hord : PidInOrder cfg p l)
    (h' : (winSystem κ cfg).step p l = some p') : WinInv cfg p' := by
  obtain ⟨s, g⟩ := p
  obtain ⟨s', g'⟩ := p'
  obtain ⟨hst, hg⟩ : s.step cfg l = some s' ∧ g' = noteWin s l s' g := System.withHistory_step.1 h'
  subst hg
  have hs (hl : l.keepsClients = true) : SameClients s s' := step_sameClients hl hst
  cases l <;> simp only [State.step] at hst
  case worker w =>
    refine h.worker_step (hs rfl) (workerStep_move hst).reports fun k orphaned claim hw => ?_
    exact hord (k, claim) (by rw [hw]; rfl)
  case alive b =>
    cases aliveStep_move cfg hst with
    | checks hc => exact h.checks hc
  case client c o =>
    split_ifs at hst
    exact h.clientStep ht hord hst
  case stop | shutdown => cases hst; exact h.keepWorker (hs rfl) rfl
  case tick ms => cases hst; exact ⟨h.nodup, h.won, h.last, h.pending, h.settled, h.loaded,
    h.nonfree, h.checked, h.orphaned⟩
  case exit pid =>
    cases hst
    refine { h with orphaned := fun e he => (h.orphaned e he).imp_right ?_ }
    rintro ⟨pid, hex, ha⟩
    exact ⟨pid, Finset.mem_insert_of_mem hex, ha⟩
  case disconnectClient a k =>
    split_ifs at hst <;> cases hst <;> exact h.keepWorker (hs rfl) rfl
  case sendTo k p =>
    split_ifs at hst <;> cases hst <;> exact h.keepWorker (hs rfl) rfl
  case app a w =>
    refine h.keepWorker (hs rfl) ?_
    rw [State.appStep] at hst
    cases ha : s.app a <;> simp only [ha] at hst
    case idle => cases hst
    case setEvent | marking => split at hst <;> cases hst <;> rfl
    case release | callDisconnect => cases hst; rfl

end WinInv

/-- **The liveness check evicts no living owner.**  If the PID word belongs to the winner of the
claim whenever the worker loads it, and clients store their PIDs in the order in which they have
won, then a claim is freed for a dead owner only if the process of its winner has exited. -/
theorem livenessExact_of_pidInOrder [DecidableEq ι] [DecidableEq κ] {cfg : Config ι}
    {p : State ι κ × Wins ι} (h : (winSystem κ cfg).ReachWhen (PidInOrder cfg) p) :
    LivenessExact cfg p := by
  refine (h.invariant (I := fun p => TokenInv p.1 ∧ WinInv cfg p) ?_ ?_).2.livenessExact
  · rintro ⟨s, g⟩ ⟨hs, hg⟩
    obtain rfl : s = {} := hs
    obtain rfl : g = fun _ => [] := hg
    exact ⟨.init, .init⟩
  · intro p l p' hi hord hst
    exact ⟨hi.1.step (System.withHistory_step.1 hst).1, hi.2.step hi.1 hord hst⟩

instance (s : State ι κ) (k : ℕ) (e : UInt32 × ι) : Decidable (s.Pending k e) :=
  inferInstanceAs (Decidable (_ ∧ _ ∧ _))

-- over the list: there are too many pairs
instance (cfg : Config ι) (s : State ι κ) (k : ℕ) (c : ι) (l : List (UInt32 × ι)) :
    Decidable (∀ y ∈ l, s.Pending k y ∨ cfg.pid y.2 = cfg.pid c) :=
  List.decidableBAll _ l

instance [Fintype ι] [DecidableEq ι] (cfg : Config ι) (p : State ι κ × Wins ι) :
    DecidablePred (PidInOrder cfg p)
  | .worker _ => inferInstanceAs (Decidable (∀ e ∈ p.1.worker.checking, ∀ _ : ι, _ → _ ∨ _))
  | .client .. => inferInstanceAs (Decidable (_ → ∀ y ∈ later _ _, _ ∨ _))
  | .stop | .tick _ | .exit _ | .alive _ | .disconnectClient .. | .app .. | .sendTo ..
  | .shutdown _ => isTrue trivial

/-- One slot and two clients in two processes. -/
def twoProcesses : Config Bool := ⟨1, 32, fun c => if c then 8 else 7⟩

/-- A client leaves and its process exits; the next one has won the claim and not stored its PID
when the worker looks. -/
def foundPredecessor : List (Label Bool Unit) :=
  openSession false 5 ++ leave false ++ .client true (.token 6) :: .client true .proceed ::
    .exit 7 :: work 4 ++ .alive false :: work 2

/-- The process of a client that has left exits, the next client connects, its process exits, and
the worker finds it dead. -/
def foundDead : List (Label Bool Unit) :=
  openSession false 5 ++ connectedPass ++ leave false ++ work 8 ++ .exit 7 :: openSession true 6 ++
    .exit 8 :: work 4 ++ .alive false :: work 2

theorem livenessExact_of_pidInOrder_foundDead : ∃ p : State Bool Unit × Wins Bool,
    (p.1.worker = .orphanCas 0 6 [] ∧ p.2 0 = [(5, false), (6, true)]) ∧
      LivenessExact twoProcesses p := by
  obtain ⟨p, h, hp⟩ := System.exists_reachWhen (A := winSystem Unit twoProcesses)
    (C := PidInOrder twoProcesses) (s := ({}, fun _ => [])) (r := foundDead)
    (f := fun p => (p.1.worker, p.2 0)) (t := (.orphanCas 0 6 [], [(5, false), (6, true)]))
    ⟨rfl, rfl⟩ (by decide +kernel)
  exact ⟨p, Prod.mk.injEq .. ▸ hp, livenessExact_of_pidInOrder h⟩

/-- The claim of a living client is freed because its predecessor is dead. -/
theorem not_livenessExact : ¬ ∀ (ι κ : Type) [DecidableEq ι] [DecidableEq κ] (cfg : Config ι)
    (p : State ι κ × Wins ι), (winSystem κ cfg).Reach p → LivenessExact cfg p := by
  intro h
  obtain ⟨p, hr, hp⟩ := System.exists_reachWhen (A := winSystem Unit twoProcesses)
    (C := fun _ _ => True) (s := ({}, fun _ => [])) (r := foundPredecessor)
    (f := fun p => (p.1.worker, (p.1.slot 0).claim, p.2 0, p.1.exited))
    (t := (.orphanCas 0 6 [], 6, [(5, false), (6, true)], {7})) ⟨rfl, rfl⟩ (by decide +kernel)
  simp only [Prod.mk.injEq] at hp
  obtain ⟨hw, hcl, hwins, hex⟩ := hp
  obtain ⟨c, hc, hpid⟩ := (h Bool Unit _ p hr).evicted 0 6 [] hw hcl (by decide)
  rw [hwins] at hc
  rw [hex] at hpid
  revert hc hpid
  cases c <;> decide

end Multi

end Xshm
