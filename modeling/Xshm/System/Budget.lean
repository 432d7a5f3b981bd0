import Mathlib.Algebra.Ring.Nat
import Xshm.System.Basic

/-!
# Steps that are paid for

A bound on the number of steps of one side, or of all, by a measure `μ` that each of these steps
lowers.  A step may raise the measure, or not lower it, if it earns: `e` counts what has been
earned (calls that have returned, messages that have moved), and one unit of it pays for `K`
steps.  What the other sides do must not raise the measure either, unless it earns.

* `System.countP_add_le` : the number of steps of a run with `own` is at most what the measure and
  the earnings pay for.
* `System.length_add_le` : the same for all steps.
* `System.countP_add_le_sum` : what the other sides do may raise the measure, by as much as is given
  for each of their steps.
-/

namespace Xshm

namespace System

variable {S L : Type*} {A : System S L}

section

variable {C : S → L → Prop} [∀ s l, Decidable (C s l)] {I : S → Prop} {own : L → Bool}
  {μ e : S → ℕ} {K : ℕ}

/-- **Own steps are paid for** by the measure and by what is earned. -/
theorem countP_add_le
    (hstep : ∀ s l s', I s → C s l → A.step s l = some s' →
      I s' ∧ (own l).toNat + μ s' + K * e s ≤ μ s + K * e s')
    {s s' : S} {ls : List L} (h : I s) (hr : A.runWhen C s ls = some s') :
    ls.countP own + μ s' + K * e s ≤ μ s + K * e s' := by
  induction ls generalizing s with
  | nil =>
    cases hr
    exact Nat.le_of_eq (by rw [List.countP_nil, Nat.zero_add])
  | cons l ls ih =>
    rw [System.runWhen] at hr
    split_ifs at hr with hc
    obtain ⟨s₁, h₁, h₂⟩ := Option.bind_eq_some_iff.1 hr
    obtain ⟨hi, hpay⟩ := hstep _ _ _ h hc h₁
    have hrest := ih hi h₂
    have hcount : (l :: ls).countP own = ls.countP own + (own l).toNat := by
      rw [List.countP_cons]
      cases own l <;> rfl
    rw [hcount]
    omega

end

/-- **Own steps are paid for** by the measure and by what `pays` gives for the steps of others. -/
theorem countP_add_le_sum {I : S → Prop} {own : L → Bool} {μ : S → ℕ} {pays : L → ℕ}
    (hstep : ∀ s l s', I s → A.step s l = some s' →
      I s' ∧ (own l).toNat + μ s' ≤ μ s + pays l)
    {s s' : S} {ls : List L} (h : I s) (hr : A.run s ls = some s') :
    ls.countP own + μ s' ≤ μ s + (ls.map pays).sum := by
  induction ls generalizing s with
  | nil =>
    cases hr
    exact Nat.le_of_eq (by simp)
  | cons l ls ih =>
    obtain ⟨s₁, h₁, h₂⟩ := Option.bind_eq_some_iff.1 hr
    obtain ⟨hi, hpay⟩ := hstep _ _ _ h h₁
    have hrest := ih hi h₂
    have hcount : (l :: ls).countP own = ls.countP own + (own l).toNat := by
      rw [List.countP_cons]
      cases own l <;> rfl
    rw [hcount, List.map_cons, List.sum_cons]
    omega

/-- Runs without a condition. -/
theorem runWhen_true (s : S) (ls : List L) : A.runWhen (fun _ _ => True) s ls = A.run s ls := by
  induction ls generalizing s with
  | nil => rfl
  | cons l ls ih =>
    rw [System.runWhen, if_pos trivial, run_cons]
    exact congrArg _ (funext fun s' => ih s')

/-- **Steps are paid for** by the measure and by what is earned. -/
theorem length_add_le {I : S → Prop} {μ e : S → ℕ} {K : ℕ}
    (hstep : ∀ s l s', I s → A.step s l = some s' →
      I s' ∧ 1 + μ s' + K * e s ≤ μ s + K * e s')
    {s s' : S} {ls : List L} (h : I s) (hr : A.run s ls = some s') :
    ls.length + μ s' + K * e s ≤ μ s + K * e s' := by
  rw [← runWhen_true] at hr
  have hcount : ls.countP (fun _ => true) + μ s' + K * e s ≤ μ s + K * e s' :=
    countP_add_le (fun s l s' hi _ hst => hstep s l s' hi hst) h hr
  rwa [List.countP_true] at hcount

end System

end Xshm
