import Xshm.Memory.Access

/-!
# Cells in a row of bytes

The memory of the machine is a row of bytes.  A `Placement` says at which addresses the cells of a
structure lie: each word is four bytes, the lowest first, and the bytes lie one behind the other.
As no two cells overlap, an access at these addresses is an access to the cells
(`Placement.onMemory_cells`), and it changes nothing else (`Placement.onMemory_of_not_owns`).

## Main definitions

* `Memory.loadWord`, `Memory.storeWord` : little-endian words.
* `Placement F` : the addresses of words with names `F` and of a row of bytes.
* `Placement.onMemory` : what an access does to the memory.
-/

namespace Xshm

/-- The byte at each address. -/
abbrev Memory := ℕ → UInt8

namespace Memory

/-- The word at the address `a`. -/
def loadWord (m : Memory) (a : ℕ) : UInt32 :=
  UInt32.ofNat ((m a).toNat + 2 ^ 8 * (m (a + 1)).toNat + 2 ^ 16 * (m (a + 2)).toNat +
    2 ^ 24 * (m (a + 3)).toNat)

/-- The memory with `v` at the address `a`. -/
def storeWord (m : Memory) (a : ℕ) (v : UInt32) : Memory := fun x =>
  if a ≤ x ∧ x < a + 4 then UInt8.ofNat (v.toNat / 2 ^ (8 * (x - a))) else m x

theorem storeWord_of_lt (m : Memory) (a : ℕ) (v : UInt32) {x : ℕ} (h : x < a ∨ a + 4 ≤ x) :
    m.storeWord a v x = m x := if_neg (by omega)

theorem storeWord_add (m : Memory) (a : ℕ) (v : UInt32) {i : ℕ} (h : i < 4) :
    m.storeWord a v (a + i) = UInt8.ofNat (v.toNat / 2 ^ (8 * i)) := by
  rw [storeWord, if_pos (by omega), Nat.add_sub_cancel_left]

/-- A word that has been stored is loaded. -/
theorem loadWord_storeWord (m : Memory) (a : ℕ) (v : UInt32) :
    (m.storeWord a v).loadWord a = v := by
  have h₀ : m.storeWord a v a = UInt8.ofNat (v.toNat / 2 ^ 0) :=
    m.storeWord_add a v (i := 0) (by decide)
  rw [loadWord, h₀, storeWord_add _ _ _ (by decide : 1 < 4),
    storeWord_add _ _ _ (by decide : 2 < 4), storeWord_add _ _ _ (by decide : 3 < 4)]
  have hv := v.toNat_lt
  apply UInt32.toNat_inj.1
  simp only [UInt8.toNat_ofNat', UInt32.toNat_ofNat']
  omega

theorem loadWord_congr {m m' : Memory} {a : ℕ} (h : ∀ x, a ≤ x → x < a + 4 → m x = m' x) :
    m.loadWord a = m'.loadWord a := by
  rw [loadWord, loadWord, h a (by omega) (by omega), h (a + 1) (by omega) (by omega),
    h (a + 2) (by omega) (by omega), h (a + 3) (by omega) (by omega)]

end Memory

/-- Where the words and the bytes of a structure lie. -/
structure Placement (F : Type*) where
  wordAt : F → ℕ
  bytesAt : ℕ
  /-- The number of bytes. -/
  size : ℕ
  words_apart : ∀ f g, f ≠ g → wordAt f + 4 ≤ wordAt g ∨ wordAt g + 4 ≤ wordAt f
  bytes_apart : ∀ f, wordAt f + 4 ≤ bytesAt ∨ bytesAt + size ≤ wordAt f

namespace Placement

variable {F K : Type*} (P : Placement F)

/-- The address is one of the structure. -/
def Owns (x : ℕ) : Prop :=
  (∃ f, P.wordAt f ≤ x ∧ x < P.wordAt f + 4) ∨ P.bytesAt ≤ x ∧ x < P.bytesAt + P.size

/-- The cells as they are in the memory. -/
def cells (m : Memory) : Cells F where
  words f := m.loadWord (P.wordAt f)
  bytes i := if i < P.size then m (P.bytesAt + i) else 0

/-- What an access does to the memory, and what follows. -/
def onMemory (m : Memory) : Access F K → Memory × K
  | .pass k => (m, k)
  | .load f k => (m, k (m.loadWord (P.wordAt f)))
  | .store f v k => (m.storeWord (P.wordAt f) v, k)
  | .fetchAdd f v k =>
    let w := m.loadWord (P.wordAt f)
    (m.storeWord (P.wordAt f) (w + v), k w)
  | .fetchSub f v k =>
    let w := m.loadWord (P.wordAt f)
    (m.storeWord (P.wordAt f) (w - v), k w)
  | .compareExchange f current new k =>
    if m.loadWord (P.wordAt f) = current then (m.storeWord (P.wordAt f) new, k true)
    else (m, k false)
  | .loadByte i k => (m, k (m (P.bytesAt + i)))
  | .storeByte i b k => (Function.update m (P.bytesAt + i) b, k)

/-- An access touches the address `x`. -/
def Touches (a : Access F K) (x : ℕ) : Prop :=
  (∃ f, a.word = some f ∧ P.wordAt f ≤ x ∧ x < P.wordAt f + 4) ∨
    ∃ i, a.index = some i ∧ x = P.bytesAt + i

/-- The byte that is touched is one of the structure. -/
def Within (a : Access F K) : Prop := ∀ i, a.index = some i → i < P.size

/-- No address belongs to both structures. -/
def Apart {G : Type*} (Q : Placement G) : Prop := ∀ x, P.Owns x → ¬ Q.Owns x

variable {P} {a : Access F K} {m m' : Memory}

theorem Apart.symm {G : Type*} {Q : Placement G} (h : P.Apart Q) : Q.Apart P :=
  fun x hQ hP => h x hP hQ

theorem Touches.owns {x : ℕ} (h : P.Touches a x) (hin : P.Within a) : P.Owns x := by
  rcases h with ⟨f, -, hf⟩ | ⟨i, hi, rfl⟩
  · exact .inl ⟨f, hf⟩
  · exact .inr ⟨Nat.le_add_right .., Nat.add_lt_add_left (hin i hi) _⟩

/-- The cells depend on nothing but the addresses of the structure. -/
theorem cells_congr (h : ∀ x, P.Owns x → m x = m' x) : P.cells m = P.cells m' := by
  have hwords : (P.cells m).words = (P.cells m').words := by
    funext f
    exact Memory.loadWord_congr fun x hx hx' => h x (.inl ⟨f, hx, hx'⟩)
  have hbytes : (P.cells m).bytes = (P.cells m').bytes := by
    funext i
    simp only [cells]
    split_ifs with hi
    · exact h _ (.inr ⟨Nat.le_add_right .., Nat.add_lt_add_left hi _⟩)
    · rfl
  exact Cells.ext hwords hbytes

/-- A word is stored. -/
theorem cells_storeWord [DecidableEq F] (m : Memory) (f : F) (v : UInt32) :
    P.cells (m.storeWord (P.wordAt f) v) = (P.cells m).set f v := by
  have hwords : (P.cells (m.storeWord (P.wordAt f) v)).words =
      Function.update (P.cells m).words f v := by
    funext g
    by_cases hg : g = f
    · subst hg
      rw [Function.update_self]
      exact Memory.loadWord_storeWord ..
    · rw [Function.update_of_ne hg]
      refine Memory.loadWord_congr fun x hx hx' => Memory.storeWord_of_lt _ _ _ ?_
      rcases P.words_apart f g (Ne.symm hg) with hlt | hlt <;> omega
  have hbytes : (P.cells (m.storeWord (P.wordAt f) v)).bytes = (P.cells m).bytes := by
    funext i
    simp only [cells]
    split_ifs with hi
    · refine Memory.storeWord_of_lt _ _ _ ?_
      rcases P.bytes_apart f with hlt | hlt <;> omega
    · rfl
  exact Cells.ext hwords hbytes

/-- A byte is stored. -/
theorem cells_update (m : Memory) {i : ℕ} (hi : i < P.size) (b : UInt8) :
    P.cells (Function.update m (P.bytesAt + i) b) =
      { P.cells m with bytes := Function.update (P.cells m).bytes i b } := by
  have hwords : (P.cells (Function.update m (P.bytesAt + i) b)).words = (P.cells m).words := by
    funext f
    refine Memory.loadWord_congr fun x hx hx' => Function.update_of_ne ?_ ..
    rcases P.bytes_apart f with hlt | hlt <;> omega
  have hbytes : (P.cells (Function.update m (P.bytesAt + i) b)).bytes =
      Function.update (P.cells m).bytes i b := by
    funext j
    by_cases hj : j = i
    · subst hj
      simp only [cells, Function.update_self, if_pos hi]
    · have hne : P.bytesAt + j ≠ P.bytesAt + i := fun he => hj (Nat.add_left_cancel he)
      simp only [cells, Function.update_of_ne hj, Function.update_of_ne hne]
  exact Cells.ext hwords hbytes

/-- **An access to the memory is one to the cells.** -/
theorem onMemory_cells [DecidableEq F] (h : P.Within a) :
    a.onCells (P.cells m) = (P.cells (P.onMemory m a).1, (P.onMemory m a).2) := by
  cases a with
  | pass k => rfl
  | load f k => rfl
  | store f v k | fetchAdd f v k | fetchSub f v k =>
    simp only [Access.onCells, onMemory, cells_storeWord]
    try rfl
  | compareExchange f current new k =>
    have hload : (P.cells m).words f = m.loadWord (P.wordAt f) := rfl
    simp only [Access.onCells, onMemory, hload]
    split_ifs
    · rw [cells_storeWord]
    · rfl
  | loadByte i k => simp only [Access.onCells, onMemory, cells, if_pos (h i rfl)]
  | storeByte i b k => simp only [Access.onCells, onMemory, cells_update _ (h i rfl)]

/-- An access changes nothing outside of its structure. -/
theorem onMemory_of_not_owns (h : P.Within a) {x : ℕ} (hx : ¬ P.Owns x) :
    (P.onMemory m a).1 x = m x := by
  have hword (f : F) : x < P.wordAt f ∨ P.wordAt f + 4 ≤ x := by
    by_contra hc
    exact hx (.inl ⟨f, by omega⟩)
  cases a with
  | pass | load | loadByte => rfl
  | store f | fetchAdd f | fetchSub f => exact Memory.storeWord_of_lt _ _ _ (hword f)
  | compareExchange f current new k =>
    simp only [onMemory]
    split_ifs
    · exact Memory.storeWord_of_lt _ _ _ (hword f)
    · rfl
  | storeByte i b k =>
    refine Function.update_of_ne ?_ ..
    rintro rfl
    exact hx (.inr ⟨Nat.le_add_right .., Nat.add_lt_add_left (h i rfl) _⟩)

/-- An access leaves the cells of another structure as they are. -/
theorem cells_onMemory_of_apart {G : Type*} {Q : Placement G} (hPQ : P.Apart Q)
    (h : P.Within a) : Q.cells (P.onMemory m a).1 = Q.cells m :=
  cells_congr fun x hQ => onMemory_of_not_owns h fun hP => hPQ x hP hQ

/-- A word that is stored in another structure. -/
theorem cells_storeWord_of_apart {G : Type*} {Q : Placement G} (hPQ : P.Apart Q) (f : F)
    (v : UInt32) : Q.cells (m.storeWord (P.wordAt f) v) = Q.cells m :=
  cells_onMemory_of_apart (a := .store f v ()) hPQ (by rintro i ⟨⟩)

end Placement

end Xshm
