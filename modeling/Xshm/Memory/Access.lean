import Mathlib.Data.UInt
import Mathlib.Logic.Function.Basic
import Mathlib.Tactic.Common

/-!
# Accesses to shared memory

What a thread does to shared memory in one atomic step, and what it goes on with.  The memory of a
program is a family of 32-bit words with names and a row of bytes with numbers (`Cells`); where
they lie in the memory of the machine is the matter of `Xshm.Memory.Placement`.

## Main definitions

* `Cells F` : words with names `F`, and bytes.
* `Access F K` : one atomic access, and what follows it for each answer.
* `Access.onCells` : what an access does.
-/

namespace Xshm

/-- Words with names `F`, and bytes with numbers. -/
@[ext]
structure Cells (F : Type*) where
  words : F → UInt32
  bytes : ℕ → UInt8

/-- The cells with `v` in the word `f`. -/
def Cells.set {F : Type*} [DecidableEq F] (c : Cells F) (f : F) (v : UInt32) : Cells F :=
  { c with words := Function.update c.words f v }

/-- One atomic access; `k` is what follows it. -/
inductive Access (F K : Type*) where
  /-- Nothing shared is touched. -/
  | pass (k : K)
  | load (f : F) (k : UInt32 → K)
  | store (f : F) (v : UInt32) (k : K)
  /-- `k` gets the word before the addition. -/
  | fetchAdd (f : F) (v : UInt32) (k : UInt32 → K)
  | fetchSub (f : F) (v : UInt32) (k : UInt32 → K)
  /-- `k` is told whether the word was `current`. -/
  | compareExchange (f : F) (current new : UInt32) (k : Bool → K)
  | loadByte (i : ℕ) (k : UInt8 → K)
  | storeByte (i : ℕ) (b : UInt8) (k : K)

namespace Access

variable {F K K' : Type*}

/-- What follows, seen as a value of another type. -/
def map (g : K → K') : Access F K → Access F K'
  | pass k => pass (g k)
  | load f k => load f fun v => g (k v)
  | store f v k => store f v (g k)
  | fetchAdd f v k => fetchAdd f v fun w => g (k w)
  | fetchSub f v k => fetchSub f v fun w => g (k w)
  | compareExchange f current new k => compareExchange f current new fun ok => g (k ok)
  | loadByte i k => loadByte i fun b => g (k b)
  | storeByte i b k => storeByte i b (g k)

/-- The byte that is touched. -/
def index : Access F K → Option ℕ
  | loadByte i _ | storeByte i _ _ => some i
  | _ => none

/-- The word that is touched. -/
def word : Access F K → Option F
  | load f _ | store f _ _ | fetchAdd f _ _ | fetchSub f _ _ | compareExchange f _ _ _ => some f
  | _ => none

@[simp] theorem index_map (g : K → K') (a : Access F K) : (a.map g).index = a.index := by
  cases a <;> rfl

@[simp] theorem word_map (g : K → K') (a : Access F K) : (a.map g).word = a.word := by
  cases a <;> rfl

variable [DecidableEq F]

/-- What an access does to the cells, and what follows. -/
def onCells (c : Cells F) : Access F K → Cells F × K
  | pass k => (c, k)
  | load f k => (c, k (c.words f))
  | store f v k => (c.set f v, k)
  | fetchAdd f v k => (c.set f (c.words f + v), k (c.words f))
  | fetchSub f v k => (c.set f (c.words f - v), k (c.words f))
  | compareExchange f current new k =>
    if c.words f = current then (c.set f new, k true) else (c, k false)
  | loadByte i k => (c, k (c.bytes i))
  | storeByte i b k => ({ c with bytes := Function.update c.bytes i b }, k)

/-- A word that is not touched stays as it is. -/
theorem words_onCells_of_ne {a : Access F K} {c : Cells F} {f : F} (h : a.word ≠ some f) :
    (a.onCells c).1.words f = c.words f := by
  have hne {f' : F} (hf : some f' ≠ some f) : f ≠ f' := fun he => hf (he ▸ rfl)
  cases a with
  | store | fetchAdd | fetchSub => exact Function.update_of_ne (hne h) ..
  | compareExchange f' current new k =>
    simp only [onCells]
    split_ifs
    · exact Function.update_of_ne (hne h) ..
    · rfl
  | _ => rfl

/-- Without an access to the bytes they stay as they are. -/
theorem bytes_onCells_of_index_none {a : Access F K} {c : Cells F} (h : a.index = none) :
    (a.onCells c).1.bytes = c.bytes := by
  cases a with
  | compareExchange =>
    simp only [onCells]
    split_ifs <;> rfl
  | storeByte => cases h
  | _ => rfl

/-- An access does not see a word that it does not touch. -/
theorem onCells_set {a : Access F K} {c : Cells F} {f : F} (h : a.word ≠ some f) (v : UInt32) :
    a.onCells (c.set f v) = ((a.onCells c).1.set f v, (a.onCells c).2) := by
  have hne {f' : F} (hf : some f' ≠ some f) : f' ≠ f := fun he => hf (he ▸ rfl)
  have hword {f' : F} (hf : some f' ≠ some f) : (c.set f v).words f' = c.words f' :=
    Function.update_of_ne (hne hf) ..
  have hset {f' : F} (hf : some f' ≠ some f) (w : UInt32) :
      (c.set f v).set f' w = (c.set f' w).set f v := by
    rw [Cells.set, Cells.set, Cells.set, Cells.set, Function.update_comm (hne hf).symm]
  cases a with
  | load f' k => exact congrArg (fun w => (c.set f v, k w)) (hword h)
  | store f' w k => exact congrArg (fun c => (c, k)) (hset h w)
  | fetchAdd f' w k =>
    simp only [onCells, hword h]
    exact congrArg (fun c' => (c', k (c.words f'))) (hset h _)
  | fetchSub f' w k =>
    simp only [onCells, hword h]
    exact congrArg (fun c' => (c', k (c.words f'))) (hset h _)
  | compareExchange f' current new k =>
    simp only [onCells, hword h]
    split_ifs
    · exact congrArg (fun c => (c, k true)) (hset h new)
    · rfl
  | _ => rfl

end Access

end Xshm
