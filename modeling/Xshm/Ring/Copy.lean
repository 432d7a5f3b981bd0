import Xshm.Circular.Window
import Xshm.Ring.Layout

/-!
# Wrapped copies

`copy_into`, `copy_from` and their wrapped versions on the storage of a ring.  The storage is
the memory from the `storage` pointer on, so an access past the ring is an access at an index
from `ringCapacity` on.

A wrapped copy of at most `ringCapacity` bytes is a write (a read) of consecutive cells of a
circular buffer (`copyIntoWrapped_eq`, `copyFromWrapped_eq`), which is what every statement
about frames below uses.

A frame is stored by three wrapped copies, for the length, the flags and the payload.  Together
they are one write of the bytes of the frame (`storeFrame_eq`).
-/

namespace Xshm

open Circular

/-- The bytes from the `storage` pointer on. -/
abbrev Storage := ℕ → UInt8

/-- `copy_into(index, data)`. -/
def copyInto (st : Storage) (index : ℕ) (data : List UInt8) : Storage := fun i =>
  if h : index ≤ i ∧ i - index < data.length then data[i - index] else st i

/-- `copy_from(index, dst)` for a destination of length `n`. -/
def copyFrom (st : Storage) (index n : ℕ) : List UInt8 :=
  (List.range n).map fun k => st (index + k)

/-- `copy_into_wrapped(start, data)`. -/
def copyIntoWrapped (st : Storage) (start : ℕ) (data : List UInt8) : Storage :=
  let start := start % ringCapacity
  let first := ringCapacity - start
  if data.length ≤ first then copyInto st start data
  else copyInto (copyInto st start (data.take first)) 0 (data.drop first)

/-- `copy_from_wrapped(start, dst)` for a destination of length `n`. -/
def copyFromWrapped (st : Storage) (start n : ℕ) : List UInt8 :=
  let start := start % ringCapacity
  let first := ringCapacity - start
  if n ≤ first then copyFrom st start n
  else copyFrom st start first ++ copyFrom st 0 (n - first)

/-- `u16::to_le_bytes`. -/
def toLeBytes (w : UInt16) : List UInt8 := [UInt8.ofNat w.toNat, UInt8.ofNat (w.toNat / 256)]

/-- `u16::from_le_bytes`. -/
def fromLeBytes (b₀ b₁ : UInt8) : UInt16 := UInt16.ofNat (b₀.toNat + 256 * b₁.toNat)

/-- `read_u16(index)`. -/
def readU16 (st : Storage) (index : ℕ) : UInt16 :=
  match copyFromWrapped st index 2 with
  | [b₀, b₁] => fromLeBytes b₀ b₁
  | _ => 0

/-- `mask_index(pos)`. -/
def maskIndex (pos : UInt32) : ℕ := (pos &&& ringMask).toNat

theorem maskIndex_ofNat (pos : ℕ) : maskIndex (UInt32.ofNat pos) = pos % ringCapacity :=
  toNat_and_ringMask pos

/-- The bytes of the frame of a payload: length, flags, payload. -/
def frameBytes (p : Payload) : List UInt8 :=
  toLeBytes (UInt16.ofNat p.length) ++ toLeBytes 0 ++ p

/-- The three copies by which `write_message` stores a frame at storage index `idx`. -/
def storeFrame (st : Storage) (idx : ℕ) (p : Payload) : Storage :=
  let st := copyIntoWrapped st idx (toLeBytes (UInt16.ofNat p.length))
  let st := copyIntoWrapped st ((idx + 2) &&& ringMask.toNat) (toLeBytes 0)
  copyIntoWrapped st ((idx + messageHeaderSize) &&& ringMask.toNat) p

/-! ### Copies as circular reads and writes -/

theorem copyInto_nil (st : Storage) (index : ℕ) : copyInto st index [] = st := by
  funext i
  simp [copyInto]

theorem copyInto_cons (st : Storage) (index : ℕ) (b : UInt8) (bs : List UInt8) :
    copyInto st index (b :: bs) = copyInto (Function.update st index b) (index + 1) bs := by
  funext i
  simp only [copyInto, List.length_cons]
  by_cases hi : i = index
  · subst hi
    simp
  · by_cases h : index + 1 ≤ i ∧ i - (index + 1) < bs.length
    · have h' : index ≤ i ∧ i - index < bs.length + 1 := by omega
      have he : i - index = i - (index + 1) + 1 := by omega
      rw [dif_pos h, dif_pos h']
      simp only [he, List.getElem_cons_succ]
    · have h' : ¬ (index ≤ i ∧ i - index < bs.length + 1) := by omega
      rw [dif_neg h, dif_neg h', Function.update_of_ne hi]

/-- A copy that stays below the capacity is a circular write. -/
theorem copyInto_eq_writeFrom (st : Storage) (index : ℕ) (data : List UInt8)
    (h : index + data.length ≤ ringCapacity) :
    copyInto st index data = writeFrom ringCapacity st index data := by
  induction data generalizing st index with
  | nil => exact copyInto_nil st index
  | cons b bs ih =>
    simp only [List.length_cons] at h
    rw [copyInto_cons, writeFrom_cons, Nat.mod_eq_of_lt (by omega : index < ringCapacity)]
    exact ih _ _ (by omega)

theorem ringCapacity_pos : 0 < ringCapacity := by decide

/-- **A wrapped copy into the storage is a circular write.** -/
theorem copyIntoWrapped_eq (st : Storage) (start : ℕ) (data : List UInt8)
    (h : data.length ≤ ringCapacity) :
    copyIntoWrapped st start data = writeFrom ringCapacity st start data := by
  rw [← writeFrom_mod]
  have hlt := Nat.mod_lt start ringCapacity_pos
  simp only [copyIntoWrapped]
  generalize start % ringCapacity = s at hlt ⊢
  split
  · exact copyInto_eq_writeFrom st s data (by omega)
  · rename_i hlong
    -- the first part ends exactly at the capacity, the second one starts at index 0
    have hlen : (data.take (ringCapacity - s)).length = ringCapacity - s := by
      rw [List.length_take]
      omega
    have hdrop : (data.drop (ringCapacity - s)).length ≤ ringCapacity := by
      rw [List.length_drop]
      omega
    rw [copyInto_eq_writeFrom st s _ (by omega), copyInto_eq_writeFrom _ 0 _ (by omega)]
    conv_rhs => rw [← List.take_append_drop (ringCapacity - s) data, writeFrom_append, hlen]
    rw [← writeFrom_mod _ (s + (ringCapacity - s)), Nat.add_sub_cancel' hlt.le, Nat.mod_self]

theorem copyFrom_eq_readFrom (st : Storage) (index n : ℕ) (h : index + n ≤ ringCapacity) :
    copyFrom st index n = readFrom ringCapacity st index n := by
  refine List.map_congr_left fun k hk => ?_
  rw [List.mem_range] at hk
  rw [Nat.mod_eq_of_lt (by omega)]

/-- **A wrapped copy from the storage is a circular read.** -/
theorem copyFromWrapped_eq (st : Storage) (start n : ℕ) (h : n ≤ ringCapacity) :
    copyFromWrapped st start n = readFrom ringCapacity st start n := by
  rw [← readFrom_mod]
  have hlt := Nat.mod_lt start ringCapacity_pos
  simp only [copyFromWrapped]
  generalize start % ringCapacity = s at hlt ⊢
  split
  · exact copyFrom_eq_readFrom st s n (by omega)
  · rename_i hlong
    refine List.ext_getElem (by simp [copyFrom]; omega) fun k h₁ h₂ => ?_
    simp only [copyFrom, readFrom, List.getElem_append, List.length_map, List.length_range,
      List.getElem_map, List.getElem_range]
    rw [length_readFrom] at h₂
    split
    · rw [Nat.mod_eq_of_lt (by omega)]
    · have he : s + k = k - (ringCapacity - s) + ringCapacity := by omega
      rw [he, Nat.add_mod_right, Nat.mod_eq_of_lt (by omega), Nat.zero_add]

/-- **Wrapped copies are exact**: what has been copied in is copied out, no other byte changes, and
copies to different bytes commute. -/
theorem copyWrapped_exact (st : Storage) (start : ℕ) (data : List UInt8)
    (h : data.length ≤ ringCapacity) :
    copyFromWrapped (copyIntoWrapped st start data) start data.length = data ∧
      (∀ i, (∀ k < data.length, i ≠ (start + k) % ringCapacity) →
        copyIntoWrapped st start data i = st i) ∧
      ∀ start' data', data'.length ≤ ringCapacity →
        (∀ k < data.length, ∀ k' < data'.length,
          (start + k) % ringCapacity ≠ (start' + k') % ringCapacity) →
        copyIntoWrapped (copyIntoWrapped st start data) start' data' =
          copyIntoWrapped (copyIntoWrapped st start' data') start data := by
  refine ⟨?_, fun i hi => ?_, fun start' data' h' hne => ?_⟩
  · rw [copyIntoWrapped_eq _ _ _ h, copyFromWrapped_eq _ _ _ h, readFrom_writeFrom _ _ h]
  · rw [copyIntoWrapped_eq _ _ _ h, writeFrom_of_forall_ne _ _ _ hi]
  · rw [copyIntoWrapped_eq _ _ _ h, copyIntoWrapped_eq _ _ _ h', copyIntoWrapped_eq _ _ _ h',
      copyIntoWrapped_eq _ _ _ h, writeFrom_comm _ h h' hne]

/-- Two bytes, from the last one of the storage on. -/
theorem copyWrapped_exact_split :
    copyFromWrapped (copyIntoWrapped (fun _ => 0) (ringCapacity - 1) [1, 2])
      (ringCapacity - 1) 2 = [1, 2] :=
  (copyWrapped_exact (fun _ => 0) (ringCapacity - 1) [1, 2] (by decide)).1

@[simp] theorem length_toLeBytes (w : UInt16) : (toLeBytes w).length = 2 := rfl

@[simp] theorem length_frameBytes (p : Payload) :
    (frameBytes p).length = messageHeaderSize + p.length := by
  simp [frameBytes, messageHeaderSize]
  omega

theorem fromLeBytes_toLeBytes (w : UInt16) :
    fromLeBytes (UInt8.ofNat w.toNat) (UInt8.ofNat (w.toNat / 256)) = w := by
  have hw := w.toNat_lt
  apply UInt16.toNat_inj.1
  simp only [fromLeBytes, UInt16.toNat_ofNat', UInt8.toNat_ofNat']
  omega

/-- The length field of the frame of a payload of at most `maxMessageSize` bytes. -/
theorem toNat_ofNat_length {p : Payload} (hp : p.Valid) :
    (UInt16.ofNat p.length).toNat = p.length := by
  obtain ⟨-, hmax⟩ := hp
  rw [maxMessageSize] at hmax
  rw [UInt16.toNat_ofNat', Nat.mod_eq_of_lt (by omega)]

/-- **Storing a frame is one circular write of its bytes.** -/
theorem storeFrame_eq (st : Storage) (pos : ℕ) {p : Payload} (hp : p.Valid) :
    storeFrame st (pos % ringCapacity) p = writeFrom ringCapacity st pos (frameBytes p) := by
  have hcap : p.length ≤ ringCapacity := by
    have := hp.2
    simp only [maxMessageSize, ringCapacity] at this ⊢
    omega
  have hle (w : UInt16) : (toLeBytes w).length ≤ ringCapacity := by
    rw [length_toLeBytes]
    decide
  simp only [storeFrame, and_ringMask, frameBytes, writeFrom_append, List.length_append,
    length_toLeBytes]
  rw [copyIntoWrapped_eq _ _ _ (hle _), copyIntoWrapped_eq _ _ _ (hle _),
    copyIntoWrapped_eq _ _ _ hcap, Nat.mod_add_mod, Nat.mod_add_mod, writeFrom_mod,
    writeFrom_mod, writeFrom_mod]
  rfl

/-- The length read at the start of a frame that is still in the window. -/
theorem readU16_eq (st : Storage) (pos : ℕ) :
    readU16 st (pos % ringCapacity) =
      fromLeBytes (st (pos % ringCapacity)) (st ((pos + 1) % ringCapacity)) := by
  rw [readU16, copyFromWrapped_eq _ _ _ (by decide), readFrom_mod]
  rfl

end Xshm
