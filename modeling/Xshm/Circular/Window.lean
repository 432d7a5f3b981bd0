import Mathlib.Data.List.Basic
import Mathlib.Logic.Function.Basic
import Mathlib.Tactic.Common

/-!
# Circular storage as a window on a stream

A circular buffer of `c` cells that is written one element after the other, the `x`-th element
at cell `x % c`, always holds the last `c` elements of the stream written so far.  This file
states that invariant (`Holds`) for cells and elements of any type and proves that appending
keeps it, so that a reader at stream position `x` sees the `x`-th element as long as no more
than `c` elements have been written from `x` on.

The cells are a function on all natural numbers: indices from `c` on are memory outside the
buffer, so "stays inside the buffer" is a statement about this function.

## Main results

* `Circular.holds_append` : writing a list element by element keeps the window.
* `Circular.Holds.readAt` : reading a block of the stream that is still in the window.
-/

namespace Xshm

namespace Circular

variable {α : Type*} {c : ℕ}

/-- Write the elements of a list to consecutive cells, from position `pos` on, wrapping at `c`. -/
def writeFrom (c : ℕ) (cells : ℕ → α) (pos : ℕ) : List α → ℕ → α
  | [] => cells
  | a :: as => writeFrom c (Function.update cells (pos % c) a) (pos + 1) as

/-- Read `n` consecutive cells, from position `pos` on, wrapping at `c`. -/
def readFrom (c : ℕ) (cells : ℕ → α) (pos n : ℕ) : List α :=
  (List.range n).map fun k => cells ((pos + k) % c)

/-- The cells hold the last `c` elements of the stream `str`. -/
def Holds (c : ℕ) (cells : ℕ → α) (str : List α) : Prop :=
  ∀ x (hx : x < str.length), str.length ≤ x + c → cells (x % c) = str[x]

@[simp] theorem writeFrom_nil (cells : ℕ → α) (pos : ℕ) : writeFrom c cells pos [] = cells := rfl

@[simp] theorem writeFrom_cons (cells : ℕ → α) (pos : ℕ) (a : α) (as : List α) :
    writeFrom c cells pos (a :: as) =
      writeFrom c (Function.update cells (pos % c) a) (pos + 1) as := rfl

theorem writeFrom_append (cells : ℕ → α) (pos : ℕ) (as bs : List α) :
    writeFrom c cells pos (as ++ bs) =
      writeFrom c (writeFrom c cells pos as) (pos + as.length) bs := by
  induction as generalizing cells pos with
  | nil => rfl
  | cons a as ih =>
    simp only [List.cons_append, writeFrom_cons, ih, List.length_cons]
    congr 1
    omega

/-- Only the position modulo the capacity matters. -/
theorem writeFrom_mod (cells : ℕ → α) (pos : ℕ) (as : List α) :
    writeFrom c cells (pos % c) as = writeFrom c cells pos as := by
  induction as generalizing cells pos with
  | nil => rfl
  | cons a as ih =>
    simp only [writeFrom_cons, Nat.mod_mod]
    rw [← ih _ (pos % c + 1), ← ih _ (pos + 1), Nat.mod_add_mod]

theorem readFrom_mod (cells : ℕ → α) (pos n : ℕ) :
    readFrom c cells (pos % c) n = readFrom c cells pos n := by
  simp [readFrom, Nat.mod_add_mod]

@[simp] theorem length_readFrom (cells : ℕ → α) (pos n : ℕ) :
    (readFrom c cells pos n).length = n := by
  simp [readFrom]

/-- A write changes only the cells of its own positions. -/
theorem writeFrom_of_forall_ne (cells : ℕ → α) (pos : ℕ) (as : List α) {i : ℕ}
    (h : ∀ k < as.length, i ≠ (pos + k) % c) : writeFrom c cells pos as i = cells i := by
  induction as generalizing cells pos with
  | nil => rfl
  | cons a as ih =>
    have h₀ : i ≠ pos % c := h 0 (by simp)
    rw [writeFrom_cons, ih, Function.update_of_ne h₀]
    intro k hk
    have := h (k + 1) (by simpa using hk)
    rwa [show pos + (k + 1) = pos + 1 + k by omega] at this

/-- Two positions less than a lap apart are different cells. -/
theorem mod_ne_of_lt {x y : ℕ} (hxy : x < y) (hy : y < x + c) : x % c ≠ y % c := by
  intro h
  have hd : (y - x) % c = 0 := Nat.sub_mod_eq_zero_of_mod_eq h.symm
  rw [Nat.mod_eq_of_lt (by omega)] at hd
  omega

/-- Element `k` of a write of no more than a lap. -/
theorem writeFrom_get (cells : ℕ → α) (pos : ℕ) {as : List α} (h : as.length ≤ c) {k : ℕ}
    (hk : k < as.length) : writeFrom c cells pos as ((pos + k) % c) = as[k] := by
  induction as generalizing cells pos k with
  | nil => cases hk
  | cons a as ih =>
    rw [List.length_cons] at h hk
    rw [writeFrom_cons]
    cases k with
    | zero =>
      -- the rest of the write stays less than a lap away
      rw [writeFrom_of_forall_ne _ _ _ fun j hj => mod_ne_of_lt (by omega) (by omega)]
      exact Function.update_self ..
    | succ k =>
      rw [show pos + (k + 1) = pos + 1 + k by omega, List.getElem_cons_succ]
      exact ih _ _ (by omega) (by omega)

/-- **What has been written is read back.** -/
theorem readFrom_writeFrom (cells : ℕ → α) (pos : ℕ) {as : List α} (h : as.length ≤ c) :
    readFrom c (writeFrom c cells pos as) pos as.length = as := by
  refine List.ext_getElem (length_readFrom ..) fun k h₁ h₂ => ?_
  simp only [readFrom, List.getElem_map, List.getElem_range]
  exact writeFrom_get cells pos h h₂

/-- **Writes to different cells commute.** -/
theorem writeFrom_comm (cells : ℕ → α) {pos pos' : ℕ} {as bs : List α} (ha : as.length ≤ c)
    (hb : bs.length ≤ c)
    (hne : ∀ k < as.length, ∀ k' < bs.length, (pos + k) % c ≠ (pos' + k') % c) :
    writeFrom c (writeFrom c cells pos as) pos' bs =
      writeFrom c (writeFrom c cells pos' bs) pos as := by
  funext i
  by_cases hi : ∃ k < as.length, i = (pos + k) % c
  · obtain ⟨k, hk, rfl⟩ := hi
    rw [writeFrom_of_forall_ne _ _ _ (hne k hk), writeFrom_get _ _ ha hk, writeFrom_get _ _ ha hk]
  · have hia : ∀ k < as.length, i ≠ (pos + k) % c := fun k hk he => hi ⟨k, hk, he⟩
    rw [writeFrom_of_forall_ne _ _ as hia]
    by_cases hi' : ∃ k < bs.length, i = (pos' + k) % c
    · obtain ⟨k, hk, rfl⟩ := hi'
      rw [writeFrom_get _ _ hb hk, writeFrom_get _ _ hb hk]
    · have hib : ∀ k < bs.length, i ≠ (pos' + k) % c := fun k hk he => hi' ⟨k, hk, he⟩
      rw [writeFrom_of_forall_ne _ _ bs hib, writeFrom_of_forall_ne _ _ as hia,
        writeFrom_of_forall_ne _ _ bs hib]

/-! ### The window -/

@[simp] theorem holds_nil (cells : ℕ → α) : Holds c cells [] := fun x hx => by simp at hx

/-- Storing the next element keeps the window. -/
theorem holds_snoc {cells : ℕ → α} {str : List α} (h : Holds c cells str) (a : α) :
    Holds c (Function.update cells (str.length % c) a) (str ++ [a]) := by
  intro x hx hle
  simp only [List.length_append, List.length_singleton] at hx hle
  by_cases hxs : x = str.length
  · subst hxs
    simp
  · have hlt : x < str.length := by omega
    have hne : x % c ≠ str.length % c := mod_ne_of_lt hlt (by omega)
    rw [Function.update_of_ne hne, List.getElem_append_left hlt]
    exact h x hlt (by omega)

/-- **Writing at the end of the stream keeps the window.** -/
theorem holds_append {cells : ℕ → α} {str : List α} (h : Holds c cells str) (as : List α) :
    Holds c (writeFrom c cells str.length as) (str ++ as) := by
  induction as generalizing cells str with
  | nil => simpa using h
  | cons a as ih =>
    have := ih (holds_snoc h a)
    simpa using this

/-- The element at a stream position that is still in the window. -/
theorem Holds.get {cells : ℕ → α} {str : List α} (h : Holds c cells str) {x : ℕ}
    (hx : x < str.length) (hle : str.length ≤ x + c) : cells (x % c) = str[x] := h x hx hle

/-- The element `k` places into the block `as` that begins at position `pos` of the stream. -/
theorem Holds.get_block {cells : ℕ → α} {pre as post : List α} {k : ℕ}
    (h : Holds c cells (pre ++ as ++ post)) (hk : k < as.length)
    (hle : (pre ++ as ++ post).length ≤ pre.length + c) :
    cells ((pre.length + k) % c) = as[k] := by
  have hx : pre.length + k < (pre ++ as ++ post).length := by simp; omega
  rw [h.get hx (by omega)]
  simp [hk]

/-- **Reading a block of the stream that is still in the window.** -/
theorem Holds.readAt {cells : ℕ → α} {pre as post : List α}
    (h : Holds c cells (pre ++ as ++ post))
    (hle : (pre ++ as ++ post).length ≤ pre.length + c) :
    readFrom c cells pre.length as.length = as := by
  refine List.ext_getElem (by simp) fun k h₁ h₂ => ?_
  simp only [readFrom, List.getElem_map, List.getElem_range]
  exact h.get_block h₂ hle

end Circular

end Xshm
