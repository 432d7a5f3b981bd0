import Mathlib.Algebra.GroupWithZero.Nat
import Mathlib.Algebra.Order.BigOperators.Group.List
import Mathlib.Order.Bounds.Basic
import Mathlib.Tactic.Common

/-!
# Bounded queues that drop their oldest elements

A queue with two limits, on the sum of the sizes of its elements and on their number.  An
element that does not fit makes room for itself: the shortest prefix of the queue after whose
removal it fits is dropped.  Elements and sizes are arbitrary.

## Main definitions

* `DropOldest.Fits q Q a` : `a` can be appended to `Q` within both limits of `q`.
* `DropOldest.excess q Q a` : how many of the oldest elements are dropped for `a`.
* `DropOldest.push q Q a` : the queue after appending `a`.

## Main results

* `DropOldest.isLeast_excess` : `excess` is the length of the shortest prefix to drop.
* `DropOldest.Bounded.push` : `push` keeps both limits.
-/

namespace Xshm

/-- The limits of a queue over elements of type `α`. -/
structure DropOldest (α : Type*) where
  /-- The size of an element. -/
  size : α → ℕ
  /-- The limit on the sum of the sizes. -/
  capacity : ℕ
  /-- The limit on the number of elements. -/
  maxCount : ℕ

namespace DropOldest

variable {α : Type*} (q : DropOldest α)

/-- The sum of the sizes of the queued elements. -/
def used (Q : List α) : ℕ := (Q.map q.size).sum

/-- `a` can be appended to `Q`. -/
def Fits (Q : List α) (a : α) : Prop := q.used Q + q.size a ≤ q.capacity ∧ Q.length < q.maxCount

instance (Q : List α) (a : α) : Decidable (q.Fits Q a) := inferInstanceAs (Decidable (_ ∧ _))

/-- The number of oldest elements dropped to make room for `a`. -/
def excess : List α → α → ℕ
  | [], _ => 0
  | b :: Q, a => if q.Fits (b :: Q) a then 0 else excess Q a + 1

/-- The queue after appending `a`. -/
def push (Q : List α) (a : α) : List α := Q.drop (q.excess Q a) ++ [a]

/-- A queue within both limits. -/
structure Bounded (Q : List α) : Prop where
  used_le : q.used Q ≤ q.capacity
  length_le : Q.length ≤ q.maxCount

variable {q}

@[simp] theorem used_nil : q.used [] = 0 := rfl

@[simp] theorem used_cons (b : α) (Q : List α) : q.used (b :: Q) = q.size b + q.used Q := by
  simp [used]

@[simp] theorem used_append (Q Q' : List α) : q.used (Q ++ Q') = q.used Q + q.used Q' := by
  simp [used]

theorem excess_of_fits {Q : List α} {a : α} (h : q.Fits Q a) : q.excess Q a = 0 := by
  cases Q with
  | nil => rfl
  | cons b Q => simp [excess, h]

theorem excess_cons {b : α} {Q : List α} {a : α} (h : ¬ q.Fits (b :: Q) a) :
    q.excess (b :: Q) a = q.excess Q a + 1 := by
  simp [excess, h]

theorem excess_le (Q : List α) (a : α) : q.excess Q a ≤ Q.length := by
  induction Q with
  | nil => exact le_rfl
  | cons b Q ih =>
    unfold excess
    split
    · exact Nat.zero_le _
    · simpa using ih

/-- Room for `a` is made at the latest when the queue is empty. -/
theorem fits_drop_excess {a : α} (ha : q.size a ≤ q.capacity) (hm : 0 < q.maxCount) (Q : List α) :
    q.Fits (Q.drop (q.excess Q a)) a := by
  induction Q with
  | nil => exact ⟨by simpa [excess] using ha, by simpa [excess] using hm⟩
  | cons b Q ih =>
    by_cases h : q.Fits (b :: Q) a
    · rwa [excess_of_fits h, List.drop_zero]
    · rwa [excess_cons h, List.drop_succ_cons]

theorem not_fits_of_lt_excess {Q : List α} {a : α} {k : ℕ} (hk : k < q.excess Q a) :
    ¬ q.Fits (Q.drop k) a := by
  induction Q generalizing k with
  | nil => simp [excess] at hk
  | cons b Q ih =>
    by_cases h : q.Fits (b :: Q) a
    · rw [excess_of_fits h] at hk
      omega
    · rw [excess_cons h] at hk
      cases k with
      | zero => exact h
      | succ k => exact ih (by omega)

/-- **The dropped prefix is the shortest one.** -/
theorem isLeast_excess {a : α} (ha : q.size a ≤ q.capacity) (hm : 0 < q.maxCount) (Q : List α) :
    IsLeast {k | q.Fits (Q.drop k) a} (q.excess Q a) :=
  ⟨fits_drop_excess ha hm Q, fun _ hk => not_lt.1 fun hlt => not_fits_of_lt_excess hlt hk⟩

@[simp] theorem Bounded.nil : q.Bounded [] := ⟨Nat.zero_le _, Nat.zero_le _⟩

theorem Bounded.tail {b : α} {Q : List α} (h : q.Bounded (b :: Q)) : q.Bounded Q := by
  have h₁ := h.used_le
  have h₂ := h.length_le
  simp only [used_cons, List.length_cons] at h₁ h₂
  exact ⟨by omega, by omega⟩

theorem Bounded.snoc {Q : List α} {a : α} (hf : q.Fits Q a) : q.Bounded (Q ++ [a]) := by
  obtain ⟨h₁, h₂⟩ := hf
  exact ⟨by simpa using h₁, by simp; omega⟩

/-- **Appending keeps both limits.** -/
theorem Bounded.push {a : α} (ha : q.size a ≤ q.capacity) (hm : 0 < q.maxCount) (Q : List α) :
    q.Bounded (q.push Q a) :=
  Bounded.snoc (fits_drop_excess ha hm Q)

end DropOldest

end Xshm
