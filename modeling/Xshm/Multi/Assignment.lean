import Mathlib
import Xshm.Multi.Slots
import Xshm.Platform.Names

/-!
# Assigning slots to clients that come at the same time

`claim_free_slot`, run once by each of finitely many clients on the slots that a server has
created, one access a step: `try_claim_slot` opens the section of a slot by its name, checks
`magic` and `version`, and tries to swap its token into the claim word; whoever succeeds stores its
PID.  Nobody releases a claim meanwhile, and the server does not look at it.

A client passes a slot only if somebody holds it.  So if one client comes away empty-handed, then
all slots are held, each by a client of its own (`exactAssignment`); and every client comes to an
end, whatever the interleaving, as it makes at most two accesses a slot.
-/

namespace Xshm

namespace Multi

open Platform (mappingName)

/-- The words of a control block that `try_claim_slot` uses. -/
structure ClaimBlock where
  magic : UInt32
  version : UInt32
  /-- `reserved[RESERVED_CLAIM_INDEX]`. -/
  claim : UInt32
  /-- `reserved[RESERVED_OWNER_PID_INDEX]`. -/
  ownerPid : UInt32
  deriving DecidableEq

/-- The program points of `claim_free_slot`. -/
inductive ClaimFreeSlot where
  /-- `Mapping::open` for slot `slotId`, or the end of the loop. -/
  | tryOpen (slotId : ℕ) (sawSlot : Bool)
  | compareExchange (slotId : ℕ) (sawSlot : Bool)
  | storePid (slotId : ℕ)
  | done (res : Except ShmError (ℕ × String × UInt32))

/-- The clients: the name they share, the token and the process of each. -/
structure Claimers (ι : Type*) where
  baseName : String
  token : ι → UInt32
  pid : ι → UInt32

/-- The name of slot `k`. -/
def Claimers.slotName {ι : Type*} (cfg : Claimers ι) (k : ℕ) : String :=
  cfg.baseName ++ "_" ++ toString k

/-- The name of the section of slot `k`. -/
def Claimers.sectionName {ι : Type*} (cfg : Claimers ι) (k : ℕ) : String :=
  mappingName (cfg.slotName k)

/-- The sections by their names, and the clients. -/
structure ClaimState (ι : Type*) where
  mapping : String → Option ClaimBlock
  client : ι → ClaimFreeSlot

/-- The end of the loop without a slot. -/
def ClaimFreeSlot.noSlot (sawSlot : Bool) : ClaimFreeSlot :=
  .done (.error (if sawSlot then .noFreeSlot else .notConnected))

namespace ClaimState

variable {ι : Type*} [DecidableEq ι] (cfg : Claimers ι) (s : ClaimState ι)

def goto (c : ι) (pc : ClaimFreeSlot) : ClaimState ι :=
  { s with client := Function.update s.client c pc }

def setBlock (name : String) (b : ClaimBlock) : ClaimState ι :=
  { s with mapping := Function.update s.mapping name (some b) }

/-- The next access of client `c`. -/
def step (c : ι) : Option (ClaimState ι) :=
  match s.client c with
  | .tryOpen k sawSlot =>
    if k < maxMultiClients then
      match s.mapping (cfg.sectionName k) with
      | none => some (s.goto c (.noSlot sawSlot))
      | some b =>
        if b.magic ≠ sharedMagic ∨ b.version ≠ sharedVersion then
          some (s.goto c (.tryOpen (k + 1) true))
        else some (s.goto c (.compareExchange k sawSlot))
    else some (s.goto c (.noSlot sawSlot))
  | .compareExchange k _ =>
    (s.mapping (cfg.sectionName k)).map fun b =>
      if b.claim = claimFree then
        (s.setBlock (cfg.sectionName k) { b with claim := cfg.token c }).goto c (.storePid k)
      else s.goto c (.tryOpen (k + 1) true)
  | .storePid k =>
    (s.mapping (cfg.sectionName k)).map fun b =>
      (s.setBlock (cfg.sectionName k) { b with ownerPid := cfg.pid c }).goto c
        (.done (.ok (k, cfg.slotName k, cfg.token c)))
  | .done _ => none

end ClaimState

/-- The server has created the slots `0, …, n - 1`, all are free, and no client has begun. -/
structure FreeSlots {ι : Type*} (cfg : Claimers ι) (n : ℕ) (s : ClaimState ι) : Prop where
  block : ∀ k < n, ∃ b, s.mapping (cfg.sectionName k) = some b ∧ b.magic = sharedMagic ∧
    b.version = sharedVersion ∧ b.claim = claimFree
  missing : s.mapping (cfg.sectionName n) = none
  client : ∀ c, s.client c = .tryOpen 0 false

/-- The clients on `n` free slots. -/
def claimSystem {ι : Type*} [DecidableEq ι] (cfg : Claimers ι) (n : ℕ) :
    System (ClaimState ι) ι where
  init := FreeSlots cfg n
  step s := s.step cfg

/-- The client has returned a slot. -/
def ClaimFreeSlot.succeeded : ClaimFreeSlot → Bool
  | .done (.ok _) => true
  | _ => false

/-- Every client has returned; the slots they hold are pairwise distinct, as many clients hold one
as there are clients and slots for it, and with enough clients every slot is held by the one that
reports it. -/
structure ExactAssignment {ι : Type*} [Fintype ι] (cfg : Claimers ι) (n : ℕ) (s : ClaimState ι) :
    Prop where
  result : ∀ c, (∃ k < n, s.client c = .done (.ok (k, cfg.slotName k, cfg.token c))) ∨
    s.client c = .done (.error .noFreeSlot)
  distinct : ∀ c d k name name' t t', s.client c = .done (.ok (k, name, t)) →
    s.client d = .done (.ok (k, name', t')) → c = d
  count : (Finset.univ.filter fun c => (s.client c).succeeded = true).card =
    min (Fintype.card ι) n
  held : n ≤ Fintype.card ι → ∀ k < n, ∃ c b,
    s.client c = .done (.ok (k, cfg.slotName k, cfg.token c)) ∧
      s.mapping (cfg.sectionName k) = some b ∧ b.claim = cfg.token c

theorem Claimers.sectionName_injective {ι : Type*} (cfg : Claimers ι) :
    Function.Injective cfg.sectionName := by
  intro j k h
  have h' := (String.append_right_inj _).1 h
  exact Nat.repr_injective ((String.append_right_inj _).1 h')

/-! ### The invariant -/

/-- The slot that the client holds. -/
def ClaimFreeSlot.won : ClaimFreeSlot → Option ℕ
  | .storePid k => some k
  | .done (.ok (k, _, _)) => some k
  | _ => none

/-- The client has passed slot `j` or holds it or a later one. -/
def ClaimFreeSlot.passed (j : ℕ) : ClaimFreeSlot → Prop
  | .tryOpen k _ | .compareExchange k _ | .storePid k | .done (.ok (k, _, _)) => j < k
  | .done (.error _) => True

/-- Where client `c` can be on `n` slots. -/
def ClaimFreeSlot.Placed {ι : Type*} (cfg : Claimers ι) (n : ℕ) (c : ι) : ClaimFreeSlot → Prop
  | .tryOpen k sawSlot => k ≤ n ∧ (k = 0 ∨ sawSlot = true)
  | .compareExchange k _ | .storePid k => k < n
  | .done (.ok r) => r.1 < n ∧ r = (r.1, cfg.slotName r.1, cfg.token c)
  | .done (.error e) => e = .noFreeSlot

/-- How many accesses the client still makes, at most. -/
def ClaimFreeSlot.left (n : ℕ) : ClaimFreeSlot → ℕ
  | .tryOpen k _ => 2 * (n - k) + 1
  | .compareExchange k _ => 2 * (n - k)
  | .storePid _ => 1
  | .done _ => 0

/-- The claim word of slot `k`. -/
def ClaimState.claim {ι : Type*} (cfg : Claimers ι) (s : ClaimState ι) (k : ℕ) : UInt32 :=
  (s.mapping (cfg.sectionName k)).elim claimFree ClaimBlock.claim

/-- The invariant: a slot that is not free has an owner, and a client has passed only slots that
are not free. -/
structure AssignInv {ι : Type*} (cfg : Claimers ι) (n : ℕ) (s : ClaimState ι) : Prop where
  block : ∀ k < n, ∃ b, s.mapping (cfg.sectionName k) = some b ∧ b.magic = sharedMagic ∧
    b.version = sharedVersion
  missing : s.mapping (cfg.sectionName n) = none
  placed : ∀ c, (s.client c).Placed cfg n c
  own : ∀ c k, (s.client c).won = some k → s.claim cfg k = cfg.token c
  owner : ∀ k < n, s.claim cfg k ≠ claimFree → ∃ c, (s.client c).won = some k
  passed : ∀ c, ∀ j < n, (s.client c).passed j → s.claim cfg j ≠ claimFree

/-- What a step of client `c` can be. -/
inductive ClaimStep {ι : Type*} [DecidableEq ι] (cfg : Claimers ι) (n : ℕ) (s : ClaimState ι)
    (c : ι) : ClaimState ι → Prop
  | opened {k : ℕ} {sawSlot : Bool} : s.client c = .tryOpen k sawSlot → k < n →
      ClaimStep cfg n s c (s.goto c (.compareExchange k sawSlot))
  | gaveUp {sawSlot : Bool} : s.client c = .tryOpen n sawSlot →
      ClaimStep cfg n s c (s.goto c (.done (.error .noFreeSlot)))
  | won {k : ℕ} {sawSlot : Bool} {b : ClaimBlock} : s.client c = .compareExchange k sawSlot →
      k < n → s.mapping (cfg.sectionName k) = some b → b.claim = claimFree →
      ClaimStep cfg n s c
        ((s.setBlock (cfg.sectionName k) { b with claim := cfg.token c }).goto c (.storePid k))
  | lost {k : ℕ} {sawSlot : Bool} : s.client c = .compareExchange k sawSlot → k < n →
      s.claim cfg k ≠ claimFree → ClaimStep cfg n s c (s.goto c (.tryOpen (k + 1) true))
  | stored {k : ℕ} {b : ClaimBlock} : s.client c = .storePid k → k < n →
      s.mapping (cfg.sectionName k) = some b →
      ClaimStep cfg n s c ((s.setBlock (cfg.sectionName k) { b with ownerPid := cfg.pid c }).goto c
        (.done (.ok (k, cfg.slotName k, cfg.token c))))

section Invariant

variable {ι : Type*} {cfg : Claimers ι} {n : ℕ} {s s' : ClaimState ι}

theorem FreeSlots.assignInv (h : FreeSlots cfg n s) : AssignInv cfg n s where
  block k hk := by
    obtain ⟨b, hb, hm, hv, -⟩ := h.block k hk
    exact ⟨b, hb, hm, hv⟩
  missing := h.missing
  placed c := by
    rw [h.client c]
    exact ⟨Nat.zero_le n, .inl rfl⟩
  own c k hc := by
    rw [h.client c] at hc
    cases hc
  owner k hk hc := by
    obtain ⟨b, hb, -, -, hfree⟩ := h.block k hk
    rw [ClaimState.claim, hb] at hc
    exact absurd hfree hc
  passed c j hj hc := by
    rw [h.client c] at hc
    exact absurd hc (Nat.not_lt_zero j)

namespace AssignInv

variable [DecidableEq ι]

theorem step_cases (h : AssignInv cfg n s) (hn : 1 ≤ n) (hn' : n ≤ maxMultiClients) {c : ι}
    (hst : s.step cfg c = some s') : ClaimStep cfg n s c s' := by
  have hp := h.placed c
  unfold ClaimState.step at hst
  cases hpc : s.client c with
  | tryOpen k sawSlot =>
    rw [hpc] at hp
    obtain ⟨hk, hsaw⟩ := hp
    simp only [hpc] at hst
    rcases hk.lt_or_eq with hk | rfl
    · obtain ⟨b, hb, hm, hv⟩ := h.block k hk
      rw [if_pos (hk.trans_le hn'), hb] at hst
      simp only [hm, hv, ne_eq, not_true_eq_false, or_self, if_false] at hst
      cases hst
      exact .opened hpc hk
    · -- the section of slot `n` does not exist, or `n` ends the loop; a slot has been seen
      obtain rfl : sawSlot = true := hsaw.resolve_left (by omega)
      rw [h.missing] at hst
      simp only [ite_self, Option.some.injEq] at hst
      subst hst
      exact .gaveUp hpc
  | compareExchange k sawSlot =>
    rw [hpc] at hp
    obtain ⟨b, hb, -⟩ := h.block k hp
    simp only [hpc, hb, Option.map_some] at hst
    split_ifs at hst with hfree <;> cases hst
    · exact .won hpc hp hb hfree
    · exact .lost hpc hp (by rw [ClaimState.claim, hb]; exact hfree)
  | storePid k =>
    rw [hpc] at hp
    obtain ⟨b, hb, -⟩ := h.block k hp
    simp only [hpc, hb, Option.map_some] at hst
    cases hst
    exact .stored hpc hp hb
  | done res => simp [hpc] at hst

omit [DecidableEq ι] in
theorem claim_setBlock (k j : ℕ) (b : ClaimBlock) :
    (s.setBlock (cfg.sectionName k) b).claim cfg j = if j = k then b.claim else s.claim cfg j := by
  simp only [ClaimState.claim, ClaimState.setBlock, Function.update_apply,
    cfg.sectionName_injective.eq_iff]
  split_ifs <;> rfl

theorem client_goto (s : ClaimState ι) (c d : ι) (pc : ClaimFreeSlot) :
    (s.goto c pc).client d = if d = c then pc else s.client d :=
  Function.update_apply _ _ _ _

/-- A client goes on, and holds what it held. -/
theorem goto (h : AssignInv cfg n s) {c : ι} {pc : ClaimFreeSlot} (hp : pc.Placed cfg n c)
    (hw : pc.won = (s.client c).won)
    (hpass : ∀ j < n, pc.passed j → s.claim cfg j ≠ claimFree) :
    AssignInv cfg n (s.goto c pc) := by
  have hwon (d : ι) : ((s.goto c pc).client d).won = (s.client d).won := by
    rw [client_goto]
    split_ifs with hd
    · rw [hd, hw]
    · rfl
  refine ⟨h.block, h.missing, fun d => ?_, fun d k hk => ?_, fun k hk hc => ?_, fun d => ?_⟩
  · rw [client_goto]
    split_ifs with hd
    · exact hd ▸ hp
    · exact h.placed d
  · rw [hwon] at hk
    exact h.own d k hk
  · obtain ⟨d, hd⟩ := h.owner k hk hc
    exact ⟨d, (hwon d).trans hd⟩
  · rw [client_goto]
    split_ifs
    · exact hpass
    · exact h.passed d

omit [DecidableEq ι] in
/-- The sections stay those of slots. -/
theorem sections_setBlock (h : AssignInv cfg n s) {k : ℕ} {b : ClaimBlock} (hk : k < n)
    (hm : b.magic = sharedMagic) (hv : b.version = sharedVersion) :
    (∀ j < n, ∃ b', (s.setBlock (cfg.sectionName k) b).mapping (cfg.sectionName j) = some b' ∧
      b'.magic = sharedMagic ∧ b'.version = sharedVersion) ∧
    (s.setBlock (cfg.sectionName k) b).mapping (cfg.sectionName n) = none := by
  simp only [ClaimState.setBlock, Function.update_apply, cfg.sectionName_injective.eq_iff]
  constructor
  · intro j hj
    split_ifs
    · exact ⟨b, rfl, hm, hv⟩
    · exact h.block j hj
  · rw [if_neg hk.ne']
    exact h.missing

omit [DecidableEq ι] in
/-- The PID of the owner is stored. -/
theorem storePid (h : AssignInv cfg n s) {k : ℕ} {b : ClaimBlock} (hk : k < n)
    (hb : s.mapping (cfg.sectionName k) = some b) (pid : UInt32) :
    AssignInv cfg n (s.setBlock (cfg.sectionName k) { b with ownerPid := pid }) := by
  obtain ⟨b₀, hb₀, hm, hv⟩ := h.block k hk
  obtain rfl : b = b₀ := Option.some_injective _ (hb.symm.trans hb₀)
  have hclaim (j : ℕ) : (s.setBlock (cfg.sectionName k) { b with ownerPid := pid }).claim cfg j =
      s.claim cfg j := by
    rw [claim_setBlock]
    split_ifs with hj
    · rw [hj, ClaimState.claim, hb]
      rfl
    · rfl
  obtain ⟨hblock, hmissing⟩ := h.sections_setBlock (b := { b with ownerPid := pid }) hk hm hv
  refine ⟨hblock, hmissing, h.placed, ?_, ?_, ?_⟩ <;> simp only [hclaim]
  exacts [h.own, h.owner, h.passed]

/-- A client swaps its token into the claim word of a free slot. -/
theorem win (h : AssignInv cfg n s) (htok : ∀ c, cfg.token c ≠ claimFree) {c : ι} {k : ℕ}
    {sawSlot : Bool} {b : ClaimBlock} (hpc : s.client c = .compareExchange k sawSlot)
    (hk : k < n) (hb : s.mapping (cfg.sectionName k) = some b) (hfree : b.claim = claimFree) :
    AssignInv cfg n
      ((s.setBlock (cfg.sectionName k) { b with claim := cfg.token c }).goto c (.storePid k)) := by
  obtain ⟨b₀, hb₀, hm, hv⟩ := h.block k hk
  obtain rfl : b = b₀ := Option.some_injective _ (hb.symm.trans hb₀)
  obtain ⟨hblock, hmissing⟩ := h.sections_setBlock (b := { b with claim := cfg.token c }) hk hm hv
  have hclaim : s.claim cfg k = claimFree := by
    rw [ClaimState.claim, hb]
    exact hfree
  -- the other slots keep their claims, and what was not free is not free
  have hkeep {j : ℕ} (hj : s.claim cfg j ≠ claimFree) :
      (s.setBlock (cfg.sectionName k) { b with claim := cfg.token c }).claim cfg j =
        s.claim cfg j := by
    rw [claim_setBlock, if_neg]
    rintro rfl
    exact hj hclaim
  have hnew : (s.setBlock (cfg.sectionName k) { b with claim := cfg.token c }).claim cfg k =
      cfg.token c := by
    rw [claim_setBlock, if_pos rfl]
  refine ⟨hblock, hmissing, fun d => ?_, fun d j hj => ?_, fun j hj hc => ?_, fun d j hj hd => ?_⟩
  · rw [client_goto]
    split_ifs
    · exact hk
    · exact h.placed d
  · rw [client_goto] at hj
    split_ifs at hj with hd
    · cases hj
      exact hd ▸ hnew
    · refine (hkeep ?_).trans (h.own d j hj)
      rw [h.own d j hj]
      exact htok d
  · by_cases hjk : j = k
    · exact ⟨c, by rw [client_goto, if_pos rfl, hjk]; rfl⟩
    · have hj' : s.claim cfg j ≠ claimFree := by
        intro h0
        refine hc ?_
        change (s.setBlock _ _).claim cfg j = claimFree
        rw [claim_setBlock, if_neg hjk, h0]
      obtain ⟨d, hd⟩ := h.owner j hj hj'
      refine ⟨d, ?_⟩
      have hdc : d ≠ c := by
        rintro rfl
        rw [hpc] at hd
        cases hd
      rwa [client_goto, if_neg hdc]
  · have hj' : s.claim cfg j ≠ claimFree := by
      rw [client_goto] at hd
      split_ifs at hd with hdc
      · exact h.passed c j hj (by rw [hpc]; exact hd)
      · exact h.passed d j hj hd
    change (s.setBlock _ _).claim cfg j ≠ claimFree
    rw [hkeep hj']
    exact hj'

theorem step (h : AssignInv cfg n s) (htok : ∀ c, cfg.token c ≠ claimFree) {c : ι}
    (hst : ClaimStep cfg n s c s') : AssignInv cfg n s' := by
  cases hst with
  | @opened k sawSlot hpc hk =>
    refine h.goto hk (by rw [hpc]; rfl) fun j hj hjk => h.passed c j hj ?_
    rw [hpc]
    exact hjk
  | gaveUp hpc =>
    refine h.goto rfl (by rw [hpc]; rfl) fun j hj _ => h.passed c j hj ?_
    rw [hpc]
    exact hj
  | won hpc hk hb hfree => exact h.win htok hpc hk hb hfree
  | @lost k sawSlot hpc hk hheld =>
    refine h.goto ⟨hk, .inr rfl⟩ (by rw [hpc]; rfl) fun j hj hjk => ?_
    rcases Nat.lt_succ_iff_lt_or_eq.1 hjk with hjk | rfl
    · exact h.passed c j hj (by rw [hpc]; exact hjk)
    · exact hheld
  | @stored k b hpc hk hb =>
    refine (h.storePid hk hb (cfg.pid c)).goto ⟨hk, rfl⟩ ?_ fun j hj hjk => ?_
    · change _ = (s.client c).won
      rw [hpc]
      rfl
    · exact (h.storePid hk hb (cfg.pid c)).passed c j hj (by
        change (s.client c).passed j
        rw [hpc]
        exact hjk)

end AssignInv

/-- Every step brings its client nearer to its end. -/
theorem ClaimStep.left_lt [DecidableEq ι] [Fintype ι] {c : ι} (hst : ClaimStep cfg n s c s') :
    ∑ d, (s'.client d).left n < ∑ d, (s.client d).left n := by
  have hlt : (s'.client c).left n < (s.client c).left n := by
    cases hst with
    | opened hpc | gaveUp hpc | won hpc | lost hpc | stored hpc =>
      rw [hpc]
      simp only [ClaimState.goto, Function.update_self, ClaimFreeSlot.left]
      omega
  have hne {d : ι} (hd : d ≠ c) : s'.client d = s.client d := by
    cases hst <;> exact Function.update_of_ne hd _ _
  refine Finset.sum_lt_sum (fun d _ => ?_) ⟨c, Finset.mem_univ c, hlt⟩
  by_cases hd : d = c
  · exact hd ▸ hlt.le
  · rw [hne hd]

/-- A client that cannot move has returned. -/
theorem AssignInv.done_of_stuck [DecidableEq ι] (h : AssignInv cfg n s) {c : ι}
    (hst : s.step cfg c = none) : ∃ res, s.client c = .done res := by
  have hp := h.placed c
  unfold ClaimState.step at hst
  cases hpc : s.client c with
  | done res => exact ⟨res, rfl⟩
  | tryOpen k sawSlot =>
    simp only [hpc] at hst
    split_ifs at hst
    split at hst
    · cases hst
    · split_ifs at hst
  | compareExchange k sawSlot =>
    rw [hpc] at hp
    obtain ⟨b, hb, -⟩ := h.block k hp
    simp [hpc, hb] at hst
  | storePid k =>
    rw [hpc] at hp
    obtain ⟨b, hb, -⟩ := h.block k hp
    simp [hpc, hb] at hst

/-! ### All clients have returned -/

theorem ClaimFreeSlot.succeeded_of_won {res : Except ShmError (ℕ × String × UInt32)} {k : ℕ}
    (h : (ClaimFreeSlot.done res).won = some k) : (ClaimFreeSlot.done res).succeeded = true := by
  cases res with
  | ok r => rfl
  | error e => cases h

namespace AssignInv

/-- What a client returns. -/
theorem result (h : AssignInv cfg n s) {c : ι} {res : Except ShmError (ℕ × String × UInt32)}
    (hc : s.client c = .done res) :
    (∃ k < n, res = .ok (k, cfg.slotName k, cfg.token c)) ∨ res = .error .noFreeSlot := by
  have hp := h.placed c
  rw [hc] at hp
  cases res with
  | ok r => exact .inl ⟨r.1, hp.1, congrArg _ hp.2⟩
  | error e => exact .inr (congrArg _ hp)

/-- Two clients do not hold one slot. -/
theorem won_inj (h : AssignInv cfg n s) (hinj : Function.Injective cfg.token) {c d : ι} {k : ℕ}
    (hc : (s.client c).won = some k) (hd : (s.client d).won = some k) : c = d :=
  hinj ((h.own c k hc).symm.trans (h.own d k hd))

variable [Fintype ι]

/-- The slots of the clients that have succeeded. -/
theorem exactAssignment (h : AssignInv cfg n s) (hinj : Function.Injective cfg.token)
    (hdone : ∀ c, ∃ res, s.client c = .done res) : ExactAssignment cfg n s := by
  set W := Finset.univ.filter fun c => (s.client c).succeeded = true with hW
  have hwon {c : ι} (hc : c ∈ W) : ∃ k < n, (s.client c).won = some k := by
    obtain ⟨res, hres⟩ := hdone c
    rw [hW, Finset.mem_filter, hres] at hc
    rcases h.result hres with ⟨k, hk, rfl⟩ | rfl
    · exact ⟨k, hk, by rw [hres]; rfl⟩
    · exact absurd hc.2 Bool.false_ne_true
  have hmem {c : ι} {k : ℕ} (hc : (s.client c).won = some k) : c ∈ W := by
    obtain ⟨res, hres⟩ := hdone c
    rw [hres] at hc
    rw [hW, Finset.mem_filter, hres]
    exact ⟨Finset.mem_univ c, ClaimFreeSlot.succeeded_of_won hc⟩
  have hinjOn : Set.InjOn (fun c => (s.client c).won.getD 0) (W : Set ι) := by
    intro c hc d hd hcd
    obtain ⟨j, -, hj⟩ := hwon hc
    obtain ⟨k, -, hk⟩ := hwon hd
    simp only [hj, hk, Option.getD_some] at hcd
    exact h.won_inj hinj hj (hcd ▸ hk)
  have hsub : W.image (fun c => (s.client c).won.getD 0) ⊆ Finset.range n := by
    intro k hk
    obtain ⟨c, hc, rfl⟩ := Finset.mem_image.1 hk
    obtain ⟨k, hk, hck⟩ := hwon hc
    simpa [hck] using hk
  have hle : W.card ≤ n := by
    rw [← Finset.card_image_of_injOn hinjOn]
    simpa using Finset.card_le_card hsub
  have hcount : W.card = min (Fintype.card ι) n := by
    by_cases hall : ∀ c, (s.client c).succeeded = true
    · have huniv : W = Finset.univ := Finset.filter_true_of_mem fun c _ => hall c
      rw [huniv, Finset.card_univ] at hle ⊢
      rw [min_eq_left hle]
    · -- whoever came away empty-handed has found every slot held
      obtain ⟨c, hc⟩ := not_forall.1 hall
      obtain ⟨res, hres⟩ := hdone c
      rcases h.result hres with ⟨k, -, rfl⟩ | rfl
      · exact absurd (by rw [hres]; rfl) hc
      · have hge : Finset.range n ⊆ W.image (fun c => (s.client c).won.getD 0) := by
          intro k hk
          rw [Finset.mem_range] at hk
          obtain ⟨d, hd⟩ := h.owner k hk (h.passed c k hk (by rw [hres]; trivial))
          exact Finset.mem_image.2 ⟨d, hmem hd, by rw [hd]; rfl⟩
        have hcard := Finset.card_le_card hge
        rw [Finset.card_range, Finset.card_image_of_injOn hinjOn] at hcard
        have hW' : W.card ≤ Fintype.card ι := Finset.card_le_univ W
        omega
  refine ⟨fun c => ?_, ?_, hcount, fun hn k hk => ?_⟩
  · obtain ⟨res, hres⟩ := hdone c
    rcases h.result hres with ⟨k, hk, rfl⟩ | rfl
    · exact .inl ⟨k, hk, hres⟩
    · exact .inr hres
  · intro c d k name name' t t' hc hd
    exact h.won_inj hinj (by rw [hc]; rfl) (by rw [hd]; rfl)
  · have himage : W.image (fun c => (s.client c).won.getD 0) = Finset.range n := by
      refine Finset.eq_of_subset_of_card_le hsub ?_
      rw [Finset.card_range, Finset.card_image_of_injOn hinjOn, hcount, min_eq_right hn]
    obtain ⟨c, hc, hck⟩ := Finset.mem_image.1 (himage ▸ Finset.mem_range.2 hk)
    obtain ⟨j, hj, hcj⟩ := hwon hc
    obtain rfl : j = k := by simpa [hcj] using hck
    obtain ⟨b, hb, -⟩ := h.block j hj
    obtain ⟨res, hres⟩ := hdone c
    refine ⟨c, b, ?_, hb, ?_⟩
    · rcases h.result hres with ⟨i, -, rfl⟩ | rfl
      · rw [hres] at hcj
        cases hcj
        exact hres
      · rw [hres] at hcj
        cases hcj
    · rw [← h.own c j hcj, ClaimState.claim, hb]
      rfl

end AssignInv

end Invariant

/-- **Concurrent slot assignment is exact.**  In every run of `claim_free_slot` by any number of
clients on `1 ≤ n ≤ MAX_MULTI_CLIENTS` free slots, no client makes more than two accesses a slot
and one more; and when no client can move, all have returned and the assignment is exact. -/
theorem exactAssignment_of_run {ι : Type*} [DecidableEq ι] [Fintype ι] {cfg : Claimers ι} {n : ℕ}
    (hn : 1 ≤ n) (hn' : n ≤ maxMultiClients) (hinj : Function.Injective cfg.token)
    (htok : ∀ c, cfg.token c ≠ claimFree) {s₀ s : ClaimState ι} {ls : List ι}
    (h₀ : FreeSlots cfg n s₀) (hr : (claimSystem cfg n).run s₀ ls = some s) :
    ls.length ≤ Fintype.card ι * (2 * n + 1) ∧
      ((∀ c, s.step cfg c = none) → ExactAssignment cfg n s) := by
  have hstep (s : ClaimState ι) (c : ι) (s' : ClaimState ι) (h : AssignInv cfg n s)
      (hst : s.step cfg c = some s') : AssignInv cfg n s' ∧
        ∑ d, (s'.client d).left n < ∑ d, (s.client d).left n := by
    have hc := h.step_cases hn hn' hst
    exact ⟨h.step htok hc, hc.left_lt⟩
  constructor
  · have hlen := System.run_length_add_le hstep h₀.assignInv hr
    simp only [h₀.client, ClaimFreeSlot.left, Nat.sub_zero, Finset.sum_const, Finset.card_univ,
      smul_eq_mul] at hlen
    omega
  · intro hstuck
    have hreach : (claimSystem cfg n).Reach s := System.Reach.run (.init h₀) hr
    have hinv : AssignInv cfg n s :=
      System.ReachWhen.invariant (I := AssignInv cfg n) (fun _ h => FreeSlots.assignInv h)
        (fun s c s' h _ hst => (hstep s c s' h hst).1) hreach
    exact hinv.exactAssignment hinj fun c => hinv.done_of_stuck (hstuck c)

/-- Two clients. -/
def twoClaimers : Claimers Bool := ⟨"m", fun c => if c then 5 else 6, fun _ => 7⟩

/-- One free slot. -/
def oneFreeSlot : ClaimState Bool where
  mapping name :=
    if name = twoClaimers.sectionName 0 then some ⟨sharedMagic, sharedVersion, claimFree, 0⟩
    else none
  client _ := .tryOpen 0 false

theorem freeSlots_oneFreeSlot : FreeSlots twoClaimers 1 oneFreeSlot where
  block k hk := by
    obtain rfl : k = 0 := by omega
    exact ⟨⟨sharedMagic, sharedVersion, claimFree, 0⟩, by simp [oneFreeSlot], rfl, rfl, rfl⟩
  missing := by
    have hne : twoClaimers.sectionName 1 ≠ twoClaimers.sectionName 0 :=
      twoClaimers.sectionName_injective.ne (by decide)
    simp [oneFreeSlot, hne]
  client _ := rfl

theorem exactAssignment_of_run_twoClaimers :
    ∃ s, (claimSystem twoClaimers 1).run oneFreeSlot [false, true, false, true, true, false] =
      some s ∧ ExactAssignment twoClaimers 1 s := by
  have h : ((claimSystem twoClaimers 1).run oneFreeSlot
      [false, true, false, true, true, false]).map
        (fun s => decide (∀ c, (s.step twoClaimers c).isNone = true)) = some true := by
    decide +kernel
  obtain ⟨s, hs, hstuck⟩ := Option.map_eq_some_iff.1 h
  refine ⟨s, hs, (exactAssignment_of_run le_rfl (by decide) (by decide) (by decide)
    freeSlots_oneFreeSlot hs).2 fun c => ?_⟩
  exact Option.isNone_iff_eq_none.1 (of_decide_eq_true hstuck c)

end Multi

end Xshm
