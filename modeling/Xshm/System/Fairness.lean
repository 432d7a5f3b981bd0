import Mathlib.Data.Nat.Init
import Mathlib.Data.List.GetD
import Xshm.System.Basic

/-!
# Fair executions

What a system does in the end, if no side of it is held up for ever.  A *side* is a set of labels
(the steps of one thread).  An execution is fair to a side if the side moves whenever it could move
at all times from some time on, and strongly fair if it moves whenever it could again and again (a
thread that asks for a mutex which others take and release); how long it may be held up is left
open.

The rule `System.Execution.eventually` is the usual one with helpful sides: while the goal is not
reached some side is *helpful*, which can move; its moves lower a measure, and those of the others
lower the measure too or leave both the measure and the helpful side as they are.  In
`System.Execution.eventually_of_strongFair` one side lowers the measure alone, and need only be able
to move again and again.

## Main definitions

* `System.Execution` : an infinite run.
* `System.Enabled own s` : the side `own` can move in `s`.
* `System.Execution.Fair own`, `System.Execution.StrongFair own` : the execution is (strongly) fair
  to the side `own`.
* `System.Execution.ofRun` : a run whose last state is repeated.
-/

namespace Xshm

namespace System

variable {S L : Type*} {A : System S L}

/-- An infinite run. -/
structure Execution (A : System S L) where
  state : ℕ → S
  label : ℕ → L
  step : ∀ n, A.step (state n) (label n) = some (state (n + 1))

variable (A) in
/-- The side can move. -/
def Enabled (own : L → Prop) (s : S) : Prop := ∃ l, own l ∧ (A.step s l).isSome

namespace Execution

variable (e : A.Execution)

/-- A side that could move at all times from some time on moves. -/
def Fair (own : L → Prop) : Prop :=
  ∀ n, (∀ m, n ≤ m → A.Enabled own (e.state m)) → ∃ m, n ≤ m ∧ own (e.label m)

/-- A side that could move again and again moves. -/
def StrongFair (own : L → Prop) : Prop :=
  ∀ n, (∀ k, ∃ m, k ≤ m ∧ A.Enabled own (e.state m)) → ∃ m, n ≤ m ∧ own (e.label m)

variable {e} in
theorem StrongFair.fair {own : L → Prop} (h : e.StrongFair own) : e.Fair own := fun n hen =>
  h n fun k => ⟨max n k, Nat.le_max_right n k, hen _ (Nat.le_max_left n k)⟩

theorem reach (h : A.Reach (e.state 0)) (n : ℕ) : A.Reach (e.state n) := by
  induction n with
  | zero => exact h
  | succ n ih => exact ih.step (e.step n)

section

variable {G : Type*} {own : G → L → Prop} {C : L → Prop} {I Done : S → Prop} {helpful : S → G}
  {μ : S → ℕ}

/-- What one step does for the goal. -/
inductive Helps (own : G → L → Prop) (Done : S → Prop) (helpful : S → G) (μ : S → ℕ) (s : S)
    (l : L) (s' : S) : Prop
  | done : Done s' → Helps own Done helpful μ s l s'
  | lowers : μ s' < μ s → Helps own Done helpful μ s l s'
  /-- Another side moves, and the helpful side is left as it is. -/
  | keeps : μ s' = μ s → helpful s' = helpful s → ¬ own (helpful s) l →
    Helps own Done helpful μ s l s'

/-- While the goal is not reached and the measure does not fall, the helpful side stays. -/
theorem helpful_stays
    (hstep : ∀ s l s', I s → ¬ Done s → C l → A.step s l = some s' →
      I s' ∧ Helps own Done helpful μ s l s') {n : ℕ} (hC : ∀ m, n ≤ m → C (e.label m))
    (hI : I (e.state n))
    (hnot : ∀ m, n ≤ m → ¬ Done (e.state m)) (hμ : ∀ m, n ≤ m → μ (e.state n) ≤ μ (e.state m))
    (m : ℕ) (hm : n ≤ m) :
    I (e.state m) ∧ μ (e.state m) = μ (e.state n) ∧
      helpful (e.state m) = helpful (e.state n) := by
  induction m, hm using Nat.le_induction with
  | base => exact ⟨hI, rfl, rfl⟩
  | succ m hm ih =>
    obtain ⟨hIm, hμm, hhm⟩ := ih
    obtain ⟨hI', hhelps⟩ := hstep _ _ _ hIm (hnot m hm) (hC m hm) (e.step m)
    cases hhelps with
    | done hd => exact absurd hd (hnot _ (Nat.le_succ_of_le hm))
    | lowers hlt => exact absurd (hμm ▸ hlt) (Nat.not_lt.2 (hμ _ (Nat.le_succ_of_le hm)))
    | keeps hsame hh => exact ⟨hI', hsame.trans hμm, hh.trans hhm⟩

/-- **The goal is reached** if there is always a helpful side, which can move, and the execution is
fair to all sides.  Only the moves `C` are made from now on. -/
theorem eventually
    (henabled : ∀ s, I s → ¬ Done s → A.Enabled (own (helpful s)) s)
    (hstep : ∀ s l s', I s → ¬ Done s → C l → A.step s l = some s' →
      I s' ∧ Helps own Done helpful μ s l s')
    (hfair : ∀ g, e.Fair (own g)) {n : ℕ} (hC : ∀ m, n ≤ m → C (e.label m)) (hI : I (e.state n)) :
    ∃ m, n ≤ m ∧ Done (e.state m) := by
  induction hk : μ (e.state n) using Nat.strongRecOn generalizing n with
  | ind k ih =>
    by_contra hc
    have hnot : ∀ m, n ≤ m → ¬ Done (e.state m) := fun m hm hd => hc ⟨m, hm, hd⟩
    have hI' : ∀ m, n ≤ m → I (e.state m) := by
      intro m hm
      induction m, hm using Nat.le_induction with
      | base => exact hI
      | succ m hm ih => exact (hstep _ _ _ ih (hnot m hm) (hC m hm) (e.step m)).1
    -- otherwise the goal is reached from a state with a smaller measure
    have hμ : ∀ m, n ≤ m → μ (e.state n) ≤ μ (e.state m) := by
      intro m hm
      by_contra hlt
      obtain ⟨m', hm', hd⟩ := ih _ (hk ▸ Nat.lt_of_not_le hlt)
        (fun k hmk => hC k (Nat.le_trans hm hmk)) (hI' m hm) rfl
      exact hnot m' (Nat.le_trans hm hm') hd
    have hstays := e.helpful_stays hstep hC hI hnot hμ
    have hmoves : ∃ m, n ≤ m ∧ own (helpful (e.state n)) (e.label m) := by
      refine hfair _ n fun m hm => ?_
      obtain ⟨hIm, -, hh⟩ := hstays m hm
      exact hh ▸ henabled _ hIm (hnot m hm)
    obtain ⟨m, hm, hown⟩ := hmoves
    obtain ⟨hIm, hμm, hh⟩ := hstays m hm
    obtain ⟨-, hhelps⟩ := hstep _ _ _ hIm (hnot m hm) (hC m hm) (e.step m)
    cases hhelps with
    | done hd => exact hnot _ (Nat.le_succ_of_le hm) hd
    | lowers hlt => exact absurd (hμm ▸ hlt) (Nat.not_lt.2 (hμ _ (Nat.le_succ_of_le hm)))
    | keeps _ _ hno => exact hno (hh ▸ hown)

end

section

variable {own : L → Prop} {I Done : S → Prop} {μ : S → ℕ}

/-- **The goal is reached** by one side alone, whose moves lower a measure that no other move
raises, if the execution is strongly fair to it and it could move again and again. -/
theorem eventually_of_strongFair
    (hagain : ∀ n, I (e.state n) → ∃ m, n ≤ m ∧ (A.Enabled own (e.state m) ∨ Done (e.state m)))
    (hstep : ∀ s l s', I s → ¬ Done s → A.step s l = some s' →
      I s' ∧ μ s' ≤ μ s ∧ (own l → μ s' < μ s))
    (hfair : e.StrongFair own) {n : ℕ} (hI : I (e.state n)) :
    ∃ m, n ≤ m ∧ Done (e.state m) := by
  induction hk : μ (e.state n) using Nat.strongRecOn generalizing n with
  | ind k ih =>
    by_contra hc
    have hnot : ∀ m, n ≤ m → ¬ Done (e.state m) := fun m hm hd => hc ⟨m, hm, hd⟩
    have hkept : ∀ m, n ≤ m → I (e.state m) ∧ μ (e.state m) ≤ μ (e.state n) := by
      intro m hm
      induction m, hm using Nat.le_induction with
      | base => exact ⟨hI, Nat.le_refl _⟩
      | succ m hm ih =>
        obtain ⟨hI', hle, -⟩ := hstep _ _ _ ih.1 (hnot m hm) (e.step m)
        exact ⟨hI', Nat.le_trans hle ih.2⟩
    have hmoves : ∃ m, n ≤ m ∧ own (e.label m) := by
      refine hfair n fun j => ?_
      have hj : n ≤ max n j := Nat.le_max_left n j
      obtain ⟨m, hm, hen | hd⟩ := hagain _ (hkept _ hj).1
      · exact ⟨m, Nat.le_trans (Nat.le_max_right n j) hm, hen⟩
      · exact absurd hd (hnot m (Nat.le_trans hj hm))
    obtain ⟨m, hm, hown⟩ := hmoves
    obtain ⟨hI', -, hlt⟩ := hstep _ _ _ (hkept m hm).1 (hnot m hm) (e.step m)
    have hless : μ (e.state (m + 1)) < k := hk ▸ Nat.lt_of_lt_of_le (hlt hown) (hkept m hm).2
    obtain ⟨m', hm', hd⟩ := ih _ hless hI' rfl
    exact hnot m' (Nat.le_trans (Nat.le_succ_of_le hm) hm') hd

end

end Execution

section Repeat

variable {s t : S} {ls : List L} {l : L}

theorem run_take_isSome (hr : A.run s ls = some t) (n : ℕ) : (A.run s (ls.take n)).isSome := by
  rw [← List.take_append_drop n ls, run_append] at hr
  obtain ⟨s', hs', -⟩ := Option.bind_eq_some_iff.1 hr
  rw [hs']
  rfl

/-- A run that ends in a state which the step `l` leaves as it is, and `l` for ever after. -/
def Execution.ofRun (hr : A.run s ls = some t) (hl : A.step t l = some t) : A.Execution where
  state n := (A.run s (ls.take n)).getD t
  label n := ls.getD n l
  step n := by
    obtain ⟨s', hs'⟩ := Option.isSome_iff_exists.1 (run_take_isSome hr n)
    obtain ⟨s'', hs''⟩ := Option.isSome_iff_exists.1 (run_take_isSome hr (n + 1))
    rw [hs', hs'', Option.getD_some, Option.getD_some]
    by_cases hn : n < ls.length
    · rw [List.take_add_one, List.getElem?_eq_getElem hn, Option.toList_some, run_append, hs',
        Option.bind_some, run_cons] at hs''
      obtain ⟨s₁, hst, hnil⟩ := Option.bind_eq_some_iff.1 hs''
      cases hnil
      rwa [List.getD_eq_getElem ls l hn]
    · have hle : ls.length ≤ n := Nat.le_of_not_lt hn
      rw [List.take_of_length_le hle, hr] at hs'
      rw [List.take_of_length_le (Nat.le_succ_of_le hle), hr] at hs''
      cases hs'
      cases hs''
      rwa [List.getD_eq_default _ _ hle]

theorem Execution.ofRun_state_zero (hr : A.run s ls = some t) (hl : A.step t l = some t) :
    (Execution.ofRun hr hl).state 0 = s := by
  change (A.run s (ls.take 0)).getD t = s
  rw [List.take_zero]
  rfl

theorem Execution.ofRun_state_of_le (hr : A.run s ls = some t) (hl : A.step t l = some t) {n : ℕ}
    (hn : ls.length ≤ n) : (Execution.ofRun hr hl).state n = t := by
  change (A.run s (ls.take n)).getD t = t
  rw [List.take_of_length_le hn, hr]
  rfl

theorem Execution.ofRun_state {T : Type*} {f : S → T} {v : T} (hr : A.run s ls = some t)
    (hl : A.step t l = some t) {n : ℕ} (h : (A.run s (ls.take n)).map f = some v) :
    f ((Execution.ofRun hr hl).state n) = v := by
  obtain ⟨s', hs', hv⟩ := Option.map_eq_some_iff.1 h
  change f ((A.run s (ls.take n)).getD t) = v
  rw [hs']
  exact hv

theorem Execution.ofRun_label {P : L → Prop} (hr : A.run s ls = some t)
    (hl : A.step t l = some t) (hP : P l) {k : ℕ} (hdrop : ∀ l ∈ ls.drop k, P l) {n : ℕ}
    (hn : k ≤ n) : P ((Execution.ofRun hr hl).label n) := by
  change P (ls.getD n l)
  by_cases hlen : n < ls.length
  · rw [List.getD_eq_getElem _ _ hlen]
    exact hdrop _ (List.mem_drop_iff_getElem.2 ⟨n - k, by omega, by congr; omega⟩)
  · rwa [List.getD_eq_default _ _ (Nat.le_of_not_lt hlen)]

/-- A side that cannot move in the last state is treated fairly. -/
theorem Execution.strongFair_ofRun {own : L → Prop} (hr : A.run s ls = some t)
    (hl : A.step t l = some t) (h : ¬ A.Enabled own t) :
    (Execution.ofRun hr hl).StrongFair own := by
  intro n hen
  obtain ⟨m, hm, hm'⟩ := hen ls.length
  rw [Execution.ofRun_state_of_le hr hl hm] at hm'
  exact absurd hm' h

theorem Execution.fair_ofRun {own : L → Prop} (hr : A.run s ls = some t)
    (hl : A.step t l = some t) (h : ¬ A.Enabled own t) : (Execution.ofRun hr hl).Fair own :=
  (Execution.strongFair_ofRun hr hl h).fair

end Repeat

end System

end Xshm
