import Mathlib.Data.List.Basic
import Mathlib.Data.UInt
import Mathlib.Tactic.Common

/-!
# UTF-16

The code units of a string, and what they say about it.

* `Utf16.units_injective` : strings with the same code units are equal.
* `Utf16.units_append` : the code units of a concatenation.
-/

namespace Xshm

namespace Utf16

/-- The code units of a character. -/
def encodeChar (c : Char) : List UInt16 :=
  if c.toNat < 0x10000 then [UInt16.ofNat c.toNat]
  else
    let v := c.toNat - 0x10000
    [UInt16.ofNat (0xd800 + v / 0x400), UInt16.ofNat (0xdc00 + v % 0x400)]

/-- The code units of a string. -/
def units (s : String) : List UInt16 := s.toList.flatMap encodeChar

theorem units_append (s t : String) : units (s ++ t) = units s ++ units t := by
  rw [units, String.toList_append, List.flatMap_append]
  rfl

theorem encodeChar_ne_nil (c : Char) : encodeChar c ≠ [] := by
  unfold encodeChar
  split_ifs <;> simp

/-- A character outside of the surrogates and below the supplementary planes is one unit. -/
theorem toNat_lt_or (c : Char) : c.toNat < 0xd800 ∨ 0xdfff < c.toNat ∧ c.toNat < 0x110000 :=
  c.valid

theorem toNat_ofNat16 {n : ℕ} (h : n < 0x10000) : (UInt16.ofNat n).toNat = n := by
  rw [UInt16.toNat_ofNat']
  exact Nat.mod_eq_of_lt h

/-- Where the code units of one character end is seen from the first of them. -/
theorem encodeChar_append_inj {c d : Char} {l l' : List UInt16}
    (h : encodeChar c ++ l = encodeChar d ++ l') : c = d ∧ l = l' := by
  have hc := toNat_lt_or c
  have hd := toNat_lt_or d
  unfold encodeChar at h
  by_cases hcs : c.toNat < 0x10000
  · by_cases hds : d.toNat < 0x10000
    · rw [if_pos hcs, if_pos hds] at h
      obtain ⟨hunit, hl⟩ := List.cons.inj h
      have hnat := congrArg UInt16.toNat hunit
      rw [toNat_ofNat16 hcs, toNat_ofNat16 hds] at hnat
      exact ⟨Char.toNat_inj.1 hnat, hl⟩
    · rw [if_pos hcs, if_neg hds] at h
      have hnat := congrArg UInt16.toNat (List.cons.inj h).1
      rw [toNat_ofNat16 hcs, toNat_ofNat16 (by omega)] at hnat
      omega
  · by_cases hds : d.toNat < 0x10000
    · rw [if_neg hcs, if_pos hds] at h
      have hnat := congrArg UInt16.toNat (List.cons.inj h).1
      rw [toNat_ofNat16 hds, toNat_ofNat16 (by omega)] at hnat
      omega
    · rw [if_neg hcs, if_neg hds] at h
      obtain ⟨hhigh, htail⟩ := List.cons.inj h
      obtain ⟨hlow, hl⟩ := List.cons.inj htail
      have hhigh' := congrArg UInt16.toNat hhigh
      have hlow' := congrArg UInt16.toNat hlow
      rw [toNat_ofNat16 (by omega), toNat_ofNat16 (by omega)] at hhigh' hlow'
      exact ⟨Char.toNat_inj.1 (by omega), hl⟩

/-- **Strings with the same code units are equal.** -/
theorem units_injective : Function.Injective units := by
  intro s t h
  refine String.toList_inj.1 ?_
  unfold units at h
  generalize s.toList = cs at h
  generalize t.toList = ds at h
  induction cs generalizing ds with
  | nil =>
    cases ds with
    | nil => rfl
    | cons d ds =>
      rw [List.flatMap_cons] at h
      exact absurd (List.append_eq_nil_iff.1 h.symm).1 (encodeChar_ne_nil d)
  | cons c cs ih =>
    cases ds with
    | nil =>
      rw [List.flatMap_cons] at h
      exact absurd (List.append_eq_nil_iff.1 h).1 (encodeChar_ne_nil c)
    | cons d ds =>
      rw [List.flatMap_cons, List.flatMap_cons] at h
      obtain ⟨rfl, h'⟩ := encodeChar_append_inj h
      rw [ih _ h']

/-- The code units of characters below the surrogates. -/
theorem units_ofList_of_lt {cs : List Char} (h : ∀ c ∈ cs, c.toNat < 0xd800) :
    units (String.ofList cs) = cs.map fun c => UInt16.ofNat c.toNat := by
  rw [units, String.toList_ofList]
  induction cs with
  | nil => rfl
  | cons c cs ih =>
    have hc := h c List.mem_cons_self
    rw [List.flatMap_cons, List.map_cons, ih fun d hd => h d (List.mem_cons_of_mem _ hd),
      encodeChar, if_pos (by omega)]
    rfl

end Utf16

end Xshm
