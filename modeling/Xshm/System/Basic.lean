import Mathlib.Data.List.Basic
import Mathlib.Logic.Function.Basic
import Mathlib.Tactic.Common

/-!
# Step systems

Every concurrent model of this development (the ring with its two sides, the handshake, the
slots of the multi-client server, the dispatch server) is a *step system*: a set of initial
states and a partial step function whose label fixes every choice (which thread moves, whether
a wait times out, which event of a wait is taken).  An interleaving is a list of labels.

## Main definitions

* `System S L` : initial states and the step function.
* `System.run` : the state after a list of labels, `none` if some label is not enabled.
* `System.ReachWhen C s` : `s` is reached from an initial state by steps that all meet the
  condition `C` on the state before the step and its label.
* `System.Reach s` : `s` is reached by any steps.

`System.ReachWhen.invariant` is the induction rule that every safety result below uses.
-/

namespace Xshm

/-- A step system with states `S` and labels `L`. -/
structure System (S : Type*) (L : Type*) where
  /-- The initial states. -/
  init : S → Prop
  /-- The state after the step `l`, if `l` is enabled. -/
  step : S → L → Option S

namespace System

variable {S L : Type*} (A : System S L)

/-- The state after performing the labels in order. -/
def run : S → List L → Option S
  | s, [] => some s
  | s, l :: ls => (A.step s l).bind fun s' => run s' ls

/-- States reached from an initial state by steps that all meet `C`. -/
inductive ReachWhen (C : S → L → Prop) : S → Prop
  | init {s : S} : A.init s → ReachWhen C s
  | step {s s' : S} {l : L} : ReachWhen C s → C s l → A.step s l = some s' → ReachWhen C s'

/-- States reached by any steps. -/
def Reach (s : S) : Prop := A.ReachWhen (fun _ _ => True) s

variable {A}

@[simp] theorem run_nil (s : S) : A.run s [] = some s := rfl

@[simp] theorem run_cons (s : S) (l : L) (ls : List L) :
    A.run s (l :: ls) = (A.step s l).bind fun s' => A.run s' ls := rfl

theorem run_append (s : S) (ls ls' : List L) :
    A.run s (ls ++ ls') = (A.run s ls).bind fun s' => A.run s' ls' := by
  induction ls generalizing s with
  | nil => rfl
  | cons l ls ih =>
    simp only [List.cons_append, run_cons, Option.bind_assoc]
    exact congrArg _ (funext fun s' => ih s')

/-- Runs compose. -/
theorem run_trans {s s' s'' : S} {ls ls' : List L} (h : A.run s ls = some s')
    (h' : A.run s' ls' = some s'') : A.run s (ls ++ ls') = some s'' := by
  rw [run_append, h, Option.bind_some, h']

theorem run_single {s s' : S} {l : L} (h : A.step s l = some s') : A.run s [l] = some s' := by
  simp [h]

theorem Reach.step {s s' : S} {l : L} (h : A.Reach s) (hst : A.step s l = some s') : A.Reach s' :=
  ReachWhen.step h trivial hst

theorem Reach.run {s s' : S} {ls : List L} (h : A.Reach s) (hr : A.run s ls = some s') :
    A.Reach s' := by
  induction ls generalizing s with
  | nil => cases hr; exact h
  | cons l ls ih =>
    obtain ⟨s₁, h₁, h₂⟩ := Option.bind_eq_some_iff.1 hr
    exact ih (h.step h₁) h₂

/-- The states reached by runs are the reachable ones. -/
theorem reach_iff_run {s : S} : A.Reach s ↔ ∃ s₀ ls, A.init s₀ ∧ A.run s₀ ls = some s := by
  constructor
  · intro h
    induction h with
    | init h => exact ⟨_, [], h, rfl⟩
    | step _ _ hst ih =>
      obtain ⟨s₀, ls, h₀, hr⟩ := ih
      exact ⟨s₀, ls ++ [_], h₀, run_trans hr (run_single hst)⟩
  · rintro ⟨s₀, ls, h₀, hr⟩
    exact Reach.run (ReachWhen.init h₀) hr

/-- What every step keeps, a run keeps. -/
theorem run_invariant {I : S → Prop} (hstep : ∀ s l s', I s → A.step s l = some s' → I s')
    {s s' : S} {ls : List L} (h : I s) (hr : A.run s ls = some s') : I s' := by
  induction ls generalizing s with
  | nil => cases hr; exact h
  | cons l ls ih =>
    obtain ⟨s₁, h₁, h₂⟩ := Option.bind_eq_some_iff.1 hr
    exact ih (hstep _ _ _ h h₁) h₂

/-- If every step lowers a measure, then it bounds the length of every run. -/
theorem run_length_add_le {I : S → Prop} {μ : S → ℕ}
    (hstep : ∀ s l s', I s → A.step s l = some s' → I s' ∧ μ s' < μ s) {s s' : S} {ls : List L}
    (h : I s) (hr : A.run s ls = some s') : ls.length + μ s' ≤ μ s := by
  induction ls generalizing s with
  | nil =>
    cases hr
    exact Nat.le_of_eq (Nat.zero_add _)
  | cons l ls ih =>
    obtain ⟨s₁, h₁, h₂⟩ := Option.bind_eq_some_iff.1 hr
    obtain ⟨hi, hlt⟩ := hstep _ _ _ h h₁
    have := ih hi h₂
    rw [List.length_cons]
    omega

namespace ReachWhen

variable {C C' : S → L → Prop}

/-- What holds initially and is kept by every step that meets `C` holds of every state reached
by such steps. -/
theorem invariant {I : S → Prop} (h₀ : ∀ s, A.init s → I s)
    (hstep : ∀ s l s', I s → C s l → A.step s l = some s' → I s') {s : S}
    (h : A.ReachWhen C s) : I s := by
  induction h with
  | init h => exact h₀ _ h
  | step _ hc hst ih => exact hstep _ _ _ ih hc hst

/-- Weakening the condition reaches more states. -/
theorem mono (hC : ∀ s l, C s l → C' s l) {s : S} (h : A.ReachWhen C s) : A.ReachWhen C' s := by
  induction h with
  | init h => exact .init h
  | step _ hc hst ih => exact .step ih (hC _ _ hc) hst

theorem reach {s : S} (h : A.ReachWhen C s) : A.Reach s := h.mono fun _ _ _ => trivial

end ReachWhen

section Decidable

variable (A) (C : S → L → Prop) [∀ s l, Decidable (C s l)]

/-- The state after performing the labels in order, if every step meets `C`. -/
def runWhen : S → List L → Option S
  | s, [] => some s
  | s, l :: ls => if C s l then (A.step s l).bind fun s' => runWhen s' ls else none

variable {A C}

theorem ReachWhen.runWhen {s s' : S} {ls : List L} (h : A.ReachWhen C s)
    (hr : A.runWhen C s ls = some s') : A.ReachWhen C s' := by
  induction ls generalizing s with
  | nil => cases hr; exact h
  | cons l ls ih =>
    rw [System.runWhen] at hr
    split_ifs at hr with hc
    obtain ⟨s₁, h₁, h₂⟩ := Option.bind_eq_some_iff.1 hr
    exact ih (h.step hc h₁) h₂

/-- A state computed by a run that meets `C` is reached; `f` is what is known of it. -/
theorem exists_reachWhen {T : Type*} {s : S} {r : List L} {f : S → T} {t : T} (h : A.init s)
    (hr : (A.runWhen C s r).map f = some t) : ∃ s', A.ReachWhen C s' ∧ f s' = t := by
  obtain ⟨s', hs', hf⟩ := Option.map_eq_some_iff.1 hr
  exact ⟨s', (ReachWhen.init h).runWhen hs', hf⟩

end Decidable

/-- From `s`, the side with label `l` moves alone until `s'`. -/
inductive Solo (A : System S L) (l : L) : S → S → Prop
  | refl (s : S) : Solo A l s s
  | step {s s' s'' : S} : A.step s l = some s' → Solo A l s' s'' → Solo A l s s''

namespace Solo

variable {l : L}

theorem single {s s' : S} (h : A.step s l = some s') : A.Solo l s s' := .step h (.refl s')

/-- A step to the state `s'`, named. -/
theorem via {s s'' : S} (s' : S) (h : A.step s l = some s') (h' : A.Solo l s' s'') :
    A.Solo l s s'' := .step h h'

theorem trans {s s' s'' : S} (h : A.Solo l s s') (h' : A.Solo l s' s'') : A.Solo l s s'' := by
  induction h with
  | refl => exact h'
  | step hst _ ih => exact .step hst (ih h')

theorem reach {s s' : S} (h : A.Solo l s s') (hs : A.Reach s) : A.Reach s' := by
  induction h with
  | refl => exact hs
  | step hst _ ih => exact ih (hs.step hst)

end Solo

end System

/-- One thread of many moves to `t`: what holds of the threads that did not move and of `t` holds
of all. -/
theorem forall_update {ι T : Type*} [DecidableEq ι] {P : T → Prop} {Q : ι → Prop} {f : ι → T}
    {c : ι} {t : T} (hc : P t → Q c) (hd : ∀ d, P (f d) → Q d) (d : ι)
    (h : P (Function.update f c t d)) : Q d := by
  by_cases hdc : d = c
  · subst hdc
    rw [Function.update_self] at h
    exact hc h
  · rw [Function.update_of_ne hdc] at h
    exact hd d h

end Xshm
