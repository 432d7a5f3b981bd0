import Mathlib.Data.List.TakeWhile
import Xshm.Text.Lossy

/-!
# Strings that end with a NUL

A C string is a sequence of bytes without a zero byte; the zero byte that ends it in memory is left
out.  `CString.new` makes one of bytes if it can, and `CString.toStringLossy` reads one as UTF-8.

* `CString.zero_notMem_fromUtf8Lossy` : what is read of a C string can be made one again.
-/

namespace Xshm

/-- Bytes without a zero byte. -/
structure CString where
  bytes : List UInt8
  noZero : 0 ∉ bytes

namespace CString

open Utf8

/-- The C string of these bytes, or where the first zero byte is. -/
def new (data : List UInt8) : Except ℕ CString :=
  if h : 0 ∈ data then .error (data.idxOf 0) else .ok ⟨data, h⟩

/-- The empty C string. -/
def empty : CString := ⟨[], List.not_mem_nil⟩

/-- `CStr::to_string_lossy`. -/
def toStringLossy (c : CString) : String := fromUtf8Lossy c.bytes

/-- The bytes before the first zero byte. -/
theorem take_idxOf_zero (data : List UInt8) :
    data.take (data.idxOf 0) = data.takeWhile (· ≠ 0) := by
  induction data with
  | nil => rfl
  | cons b data ih =>
    by_cases hb : b = 0
    · subst hb
      simp
    · rw [List.idxOf_cons_ne _ hb, List.take_succ_cons, ih,
        List.takeWhile_cons_of_pos (by simpa using hb)]

/-! ### Zero bytes in UTF-8 -/

/-- A byte with a number that is not a multiple of 256. -/
theorem zero_ne_ofNat {n : ℕ} (h : n % 256 ≠ 0) : (0 : UInt8) ≠ UInt8.ofNat n := by
  intro h₀
  have := congrArg UInt8.toNat h₀
  rw [UInt8.toNat_ofNat'] at this
  exact h this.symm

/-- Only the character zero is encoded with a zero byte. -/
theorem zero_notMem_encode {c : Char} (hc : c ≠ '\x00') :
    (0 : UInt8) ∉ String.utf8EncodeChar c := by
  have hpos : c.val.toNat ≠ 0 := fun h => hc (Char.ext (UInt32.toNat_inj.1 h))
  rw [String.utf8EncodeChar]
  generalize c.val.toNat = v at hpos
  split_ifs with h₁ h₂ h₃
  all_goals
    simp only [List.mem_cons, List.not_mem_nil, or_false, not_or]
  · exact zero_ne_ofNat (by omega)
  · exact ⟨zero_ne_ofNat (by omega), zero_ne_ofNat (by omega)⟩
  · exact ⟨zero_ne_ofNat (by omega), zero_ne_ofNat (by omega), zero_ne_ofNat (by omega)⟩
  · exact ⟨zero_ne_ofNat (by omega), zero_ne_ofNat (by omega), zero_ne_ofNat (by omega),
      zero_ne_ofNat (by omega)⟩

/-- Bytes without a zero byte are not read as the character zero. -/
theorem nul_notMem_decodeLossy {bs : List UInt8} (h : (0 : UInt8) ∉ bs) (k : ℕ) :
    '\x00' ∉ decodeLossy k bs := by
  induction k generalizing bs with
  | zero => exact List.not_mem_nil
  | succ k ih =>
    have hdrop (n : ℕ) : (0 : UInt8) ∉ bs.drop n := fun hmem => h (List.mem_of_mem_drop hmem)
    cases bs with
    | nil => exact List.not_mem_nil
    | cons b bs =>
      intro hmem
      cases hd : (b :: bs).toByteArray.utf8DecodeChar? 0 with
      | none =>
        simp only [decodeLossy, hd] at hmem
        cases hmem with
        | tail _ hmem => exact ih (hdrop _) hmem
      | some c =>
        simp only [decodeLossy, hd] at hmem
        cases hmem with
        | head =>
          -- a character zero is read of a zero byte only
          have henc := congrArg (fun a => a.data.toList)
            (String.toByteArray_utf8EncodeChar_of_utf8DecodeChar?_eq_some hd)
          simp only [List.toList_data_toByteArray, ByteArray.data_extract, Array.toList_extract,
            List.extract_eq_take_drop] at henc
          have hzero : (0 : UInt8) ∈ String.utf8EncodeChar '\x00' := by decide
          rw [henc] at hzero
          exact h (List.mem_of_mem_take hzero)
        | tail _ hmem => exact ih (hdrop _) hmem

/-- **What is read of bytes without a zero byte** has none. -/
theorem zero_notMem_fromUtf8Lossy {bs : List UInt8} (h : (0 : UInt8) ∉ bs) :
    (0 : UInt8) ∉ Utf8.bytes (fromUtf8Lossy bs) := by
  rw [fromUtf8Lossy, bytes_ofList]
  intro hmem
  obtain ⟨c, hc, hb⟩ := List.mem_flatMap.1 hmem
  exact zero_notMem_encode (ne_of_mem_of_not_mem hc (nul_notMem_decodeLossy h _)) hb

end CString

end Xshm
