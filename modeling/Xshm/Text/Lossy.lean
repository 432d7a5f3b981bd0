import Mathlib.Data.List.Basic
import Mathlib.Tactic.Common

/-!
# Lossy decoding of UTF-8

`fromUtf8Lossy` reads bytes as UTF-8 and puts U+FFFD in place of what is not: of a byte that begins
no character, and of the longest beginning of a character that is not completed.

* `fromUtf8Lossy_bytes` : the bytes of a string are read as that string.
* `lossy_prefix_iff` : the first `n` bytes of a string are read as a beginning of it, of at most `n`
  bytes, exactly if they end between two characters.
* `fromUtf8Lossy_append_take` : where they divide one, a single U+FFFD is read for what is left of
  it.
* `fromUtf8Lossy_take_eq_iff` : when they are read as the whole string.
-/

namespace Xshm

namespace Utf8

/-- The bytes of a string. -/
def bytes (s : String) : List UInt8 := s.toByteArray.data.toList

/-- The number of bytes of a character that begins with `first`, 0 if none does. -/
def width (first : UInt8) : ℕ :=
  if first < 0x80 then 1
  else if first < 0xC2 then 0
  else if first < 0xE0 then 2
  else if first < 0xF0 then 3
  else if first < 0xF5 then 4
  else 0

/-- `b` can stand inside a character. -/
def isContinuation (b : UInt8) : Bool := 0x80 ≤ b ∧ b ≤ 0xBF

/-- `second` can follow `first` in a character of three or four bytes: the shorter ways to write a
character, the surrogates and what is too large are left out. -/
def mayFollow (first second : UInt8) : Bool :=
  if first = 0xE0 then 0xA0 ≤ second ∧ second ≤ 0xBF
  else if first = 0xED then 0x80 ≤ second ∧ second ≤ 0x9F
  else if first = 0xF0 then 0x90 ≤ second ∧ second ≤ 0xBF
  else if first = 0xF4 then 0x80 ≤ second ∧ second ≤ 0x8F
  else isContinuation second

/-- How many bytes one U+FFFD replaces, where no character begins. -/
def invalidLength : List UInt8 → ℕ
  | first :: second :: rest =>
    if 3 ≤ width first ∧ mayFollow first second then
      match rest with
      | third :: _ => if width first = 4 ∧ isContinuation third then 3 else 2
      | [] => 2
    else 1
  | _ => 1

/-- The characters that the bytes are read as; `k` bounds their number. -/
def decodeLossy : ℕ → List UInt8 → List Char
  | 0, _ => []
  | _ + 1, [] => []
  | k + 1, b :: bs =>
    match (b :: bs).toByteArray.utf8DecodeChar? 0 with
    | some c => c :: decodeLossy k ((b :: bs).drop c.utf8Size)
    | none => '\uFFFD' :: decodeLossy k ((b :: bs).drop (invalidLength (b :: bs)))

/-- `String::from_utf8_lossy`. -/
def fromUtf8Lossy (bs : List UInt8) : String := String.ofList (decodeLossy bs.length bs)

theorem bytes_ofList (cs : List Char) :
    bytes (String.ofList cs) = cs.flatMap String.utf8EncodeChar := by
  rw [bytes, String.toByteArray_ofList, List.utf8Encode, List.toList_data_toByteArray]

/-- Reading a character leaves what follows it. -/
theorem decodeLossy_encode (k : ℕ) (c : Char) (bs : List UInt8) :
    decodeLossy (k + 1) (String.utf8EncodeChar c ++ bs) = c :: decodeLossy k bs := by
  have hd : (String.utf8EncodeChar c ++ bs).toByteArray.utf8DecodeChar? 0 = some c := by
    rw [List.toByteArray_append]
    exact ByteArray.utf8DecodeChar?_utf8EncodeChar_append
  have hdrop : (String.utf8EncodeChar c ++ bs).drop c.utf8Size = bs := by
    rw [← String.length_utf8EncodeChar, List.drop_left]
  cases hl : String.utf8EncodeChar c ++ bs with
  | nil =>
    have := c.utf8Size_pos
    rw [← String.length_utf8EncodeChar, (List.append_eq_nil_iff.1 hl).1] at this
    cases this
  | cons b bs' =>
    rw [hl] at hd hdrop
    simp only [decodeLossy, hd, hdrop]

theorem decodeLossy_flatMap {k : ℕ} {cs : List Char} (h : cs.length ≤ k) :
    decodeLossy k (cs.flatMap String.utf8EncodeChar) = cs := by
  induction cs generalizing k with
  | nil => cases k <;> rfl
  | cons c cs ih =>
    rw [List.length_cons] at h
    obtain ⟨j, rfl⟩ : ∃ j, k = j + 1 := ⟨k - 1, by omega⟩
    rw [List.flatMap_cons, decodeLossy_encode, ih (Nat.le_of_succ_le_succ h)]

theorem length_le_flatMap (cs : List Char) :
    cs.length ≤ (cs.flatMap String.utf8EncodeChar).length := by
  induction cs with
  | nil => exact Nat.le_refl 0
  | cons c cs ih =>
    have := c.utf8Size_pos
    rw [List.flatMap_cons, List.length_append, String.length_utf8EncodeChar, List.length_cons]
    omega

/-- **Valid UTF-8 is read as it was written.** -/
theorem fromUtf8Lossy_bytes (s : String) : fromUtf8Lossy (bytes s) = s := by
  obtain ⟨cs, rfl⟩ : ∃ cs, s = String.ofList cs := ⟨s.toList, (String.ofList_toList).symm⟩
  rw [bytes_ofList, fromUtf8Lossy]
  exact congrArg String.ofList (decodeLossy_flatMap (length_le_flatMap cs))

/-! ### Cuts -/

/-- No character of `s` is divided by a cut after `n` bytes. -/
def CutsAt (s : String) (n : ℕ) : Prop := ∀ b, (bytes s)[n]? = some b → b.IsUTF8FirstByte

instance (s : String) (n : ℕ) : Decidable (CutsAt s n) :=
  decidable_of_iff (((bytes s)[n]?.all fun b => decide b.IsUTF8FirstByte) = true) <| by
    rw [CutsAt]
    cases (bytes s)[n]? <;> simp

/-- A cut is between two characters, or it divides one. -/
theorem exists_cut (cs : List Char) (n : ℕ) :
    (∃ pre post, cs = pre ++ post ∧
      (cs.flatMap String.utf8EncodeChar).take n = pre.flatMap String.utf8EncodeChar) ∨
    ∃ pre c post j, cs = pre ++ c :: post ∧ 0 < j ∧ j < c.utf8Size ∧
      n = (pre.flatMap String.utf8EncodeChar).length + j := by
  induction cs generalizing n with
  | nil => exact .inl ⟨[], [], rfl, List.take_nil⟩
  | cons c cs ih =>
    by_cases hn : n < c.utf8Size
    · by_cases hz : n = 0
      · exact .inl ⟨[], c :: cs, rfl, by rw [hz]; rfl⟩
      · exact .inr ⟨[], c, cs, n, rfl, Nat.pos_of_ne_zero hz, hn, (Nat.zero_add n).symm⟩
    · have hlen : (String.utf8EncodeChar c).length = c.utf8Size := String.length_utf8EncodeChar c
      have hge : c.utf8Size ≤ n := Nat.not_lt.1 hn
      rcases ih (n - c.utf8Size) with ⟨pre, post, rfl, ht⟩ | ⟨pre, d, post, j, rfl, hpos, hlt, hj⟩
      · refine .inl ⟨c :: pre, post, rfl, ?_⟩
        rw [List.flatMap_cons, List.take_append, List.take_of_length_le (by rw [hlen]; exact hge),
          hlen, ht, List.flatMap_cons]
      · refine .inr ⟨c :: pre, d, post, j, rfl, hpos, hlt, ?_⟩
        rw [List.flatMap_cons, List.length_append, hlen]
        omega

/-- The first byte of what follows whole characters begins a character. -/
theorem isUTF8FirstByte_of_flatMap {cs : List Char} {b : UInt8}
    (h : (cs.flatMap String.utf8EncodeChar)[0]? = some b) : b.IsUTF8FirstByte := by
  cases cs with
  | nil => cases h
  | cons c cs =>
    have hpos : 0 < (String.utf8EncodeChar c).length := by
      rw [String.length_utf8EncodeChar]
      exact c.utf8Size_pos
    rw [List.flatMap_cons, List.getElem?_append_left hpos, List.getElem?_eq_getElem hpos,
      Option.some_inj] at h
    rw [← h]
    exact UInt8.isUTF8FirstByte_getElem_utf8EncodeChar.2 rfl

/-- What is left of a character is not another character. -/
theorem utf8DecodeChar?_take {j : ℕ} {c : Char} (hlt : j < c.utf8Size) :
    ((String.utf8EncodeChar c).take j).toByteArray.utf8DecodeChar? 0 = none := by
  cases hd : ((String.utf8EncodeChar c).take j).toByteArray.utf8DecodeChar? 0 with
  | none => rfl
  | some d =>
    have hsize := ByteArray.le_size_of_utf8DecodeChar?_eq_some hd
    have happ := ByteArray.utf8DecodeChar?_append_eq_some hd
      ((String.utf8EncodeChar c).drop j).toByteArray
    have hc := ByteArray.utf8DecodeChar?_utf8EncodeChar_append (b := ByteArray.empty) (c := c)
    rw [← List.toByteArray_append, List.take_append_drop] at happ
    rw [ByteArray.append_empty] at hc
    obtain rfl : c = d := Option.some_inj.1 (hc.symm.trans happ)
    rw [List.size_toByteArray, List.length_take, String.length_utf8EncodeChar] at hsize
    omega

/-- A divided character is read as U+FFFD. -/
theorem decodeLossy_take {k j : ℕ} {c : Char} (hpos : 0 < j) (hlt : j < c.utf8Size) :
    ∃ cs, decodeLossy (k + 1) ((String.utf8EncodeChar c).take j) = '\uFFFD' :: cs := by
  have hlen : ((String.utf8EncodeChar c).take j).length = j := by
    rw [List.length_take, String.length_utf8EncodeChar]
    omega
  have hnone := utf8DecodeChar?_take hlt
  cases hl : (String.utf8EncodeChar c).take j with
  | nil =>
    rw [hl] at hlen
    exact absurd hlen.symm (Nat.ne_of_gt hpos)
  | cons b bs =>
    rw [hl] at hnone
    exact ⟨decodeLossy k ((b :: bs).drop (invalidLength (b :: bs))), by
      simp only [decodeLossy, hnone]⟩

/-- Whole characters are read, and then what follows them. -/
theorem decodeLossy_flatMap_append (cs : List Char) (k : ℕ) (bs : List UInt8) :
    decodeLossy (cs.length + k) (cs.flatMap String.utf8EncodeChar ++ bs) =
      cs ++ decodeLossy k bs := by
  induction cs with
  | nil => rw [List.length_nil, Nat.zero_add, List.flatMap_nil, List.nil_append, List.nil_append]
  | cons c cs ih =>
    rw [List.length_cons, Nat.add_right_comm, List.flatMap_cons, List.append_assoc,
      decodeLossy_encode, ih, List.cons_append]

theorem bytes_eq (s : String) : bytes s = s.toList.flatMap String.utf8EncodeChar := by
  rw [← bytes_ofList, String.ofList_toList]

/-- **What is read of the first `n` bytes of a string** is a beginning of it of at most `n` bytes
exactly if the cut divides no character. -/
theorem lossy_prefix_iff (s : String) (n : ℕ) :
    ((fromUtf8Lossy ((bytes s).take n)).toList <+: s.toList ∧
      (bytes (fromUtf8Lossy ((bytes s).take n))).length ≤ n) ↔ CutsAt s n := by
  rcases exists_cut s.toList n with ⟨pre, post, hs, ht⟩ | ⟨pre, c, post, j, hs, hpos, hlt, rfl⟩
  · -- whole characters are left
    rw [← bytes_eq, ← bytes_ofList] at ht
    refine iff_of_true ⟨?_, ?_⟩ fun b hb => ?_
    · rw [ht, fromUtf8Lossy_bytes, String.toList_ofList, hs]
      exact List.prefix_append pre post
    · rw [ht, fromUtf8Lossy_bytes, ← ht]
      exact List.length_take_le n _
    · have hlen : (bytes (String.ofList pre)).length = n := by
        rw [← ht, List.length_take_of_le]
        exact Nat.le_of_lt (List.getElem?_eq_some_iff.1 hb).1
      rw [bytes_eq, hs, List.flatMap_append, ← bytes_ofList,
        List.getElem?_append_right (Nat.le_of_eq hlen), hlen, Nat.sub_self] at hb
      exact isUTF8FirstByte_of_flatMap hb
  · -- what is left of `c` is read as U+FFFD
    have hj : j ≤ (String.utf8EncodeChar c).length := by
      rw [String.length_utf8EncodeChar]
      exact Nat.le_of_lt hlt
    have hbytes : bytes s = pre.flatMap String.utf8EncodeChar ++ (String.utf8EncodeChar c ++
        post.flatMap String.utf8EncodeChar) := by
      rw [bytes_eq, hs, List.flatMap_append, List.flatMap_cons]
    refine iff_of_false ?_ fun hcut => ?_
    · rintro ⟨hpre, hle⟩
      have htake : (bytes s).take ((pre.flatMap String.utf8EncodeChar).length + j) =
          pre.flatMap String.utf8EncodeChar ++ (String.utf8EncodeChar c).take j := by
        rw [hbytes, List.take_length_add_append, List.take_append_of_le_length hj]
      obtain ⟨k, hk⟩ : ∃ k, ((bytes s).take
          ((pre.flatMap String.utf8EncodeChar).length + j)).length = pre.length + (k + 1) := by
        have := length_le_flatMap pre
        refine ⟨(pre.flatMap String.utf8EncodeChar).length + j - pre.length - 1, ?_⟩
        rw [htake, List.length_append, List.length_take_of_le hj]
        omega
      obtain ⟨cs, hcs⟩ := decodeLossy_take (k := k) hpos hlt
      have hread : fromUtf8Lossy ((bytes s).take
          ((pre.flatMap String.utf8EncodeChar).length + j)) =
          String.ofList (pre ++ '\uFFFD' :: cs) := by
        rw [fromUtf8Lossy, hk, htake, decodeLossy_flatMap_append, hcs]
      rw [hread] at hpre hle
      rw [String.toList_ofList, hs, List.prefix_append_right_inj, List.cons_prefix_cons] at hpre
      -- so `c` is U+FFFD, of which at most two bytes are left
      rw [← hpre.1] at hlt
      have hthree : ('\uFFFD').utf8Size = 3 := by decide
      rw [bytes_ofList, List.flatMap_append, List.flatMap_cons, List.length_append,
        List.length_append, String.length_utf8EncodeChar] at hle
      omega
    · have hjc : j < (String.utf8EncodeChar c).length := by rwa [String.length_utf8EncodeChar]
      have hget : (bytes s)[(pre.flatMap String.utf8EncodeChar).length + j]? =
          some (String.utf8EncodeChar c)[j] := by
        rw [hbytes, List.getElem?_append_right (Nat.le_add_right ..), Nat.add_sub_cancel_left,
          List.getElem?_append_left hjc, List.getElem?_eq_getElem hjc]
      exact absurd (UInt8.isUTF8FirstByte_getElem_utf8EncodeChar.1 (hcut _ hget))
        (Nat.ne_of_gt hpos)

/-! ### Divided characters -/

theorem width_of_three {a : ℕ} (ha : a < 16) : width (UInt8.ofNat (a + 224)) = 3 := by
  simp only [width, UInt8.lt_iff_toNat_lt, UInt8.toNat_ofNat', UInt8.reduceToNat]
  split_ifs <;> omega

theorem width_of_four {a : ℕ} (ha : a ≤ 4) : width (UInt8.ofNat (a + 240)) = 4 := by
  simp only [width, UInt8.lt_iff_toNat_lt, UInt8.toNat_ofNat', UInt8.reduceToNat]
  split_ifs <;> omega

theorem isContinuation_of_lt {a : ℕ} (ha : a < 64) :
    isContinuation (UInt8.ofNat (a + 128)) = true := by
  simp only [isContinuation, decide_eq_true_eq, UInt8.le_iff_toNat_le, UInt8.toNat_ofNat',
    UInt8.reduceToNat]
  omega

/-- The second byte of a character of three bytes can follow the first. -/
theorem mayFollow_of_three {v : ℕ} (hlow : 0x7ff < v) (hvalid : v < 0xd800 ∨ 0xdfff < v)
    (hhigh : v ≤ 0xffff) :
    mayFollow (UInt8.ofNat (v / 4096 % 16 + 224)) (UInt8.ofNat (v / 64 % 64 + 128)) = true := by
  simp only [mayFollow, isContinuation, UInt8.le_iff_toNat_le, ← UInt8.toNat_inj,
    UInt8.toNat_ofNat', UInt8.reduceToNat]
  split_ifs <;> rw [decide_eq_true_eq] <;> omega

theorem mayFollow_of_four {v : ℕ} (hlow : 0xffff < v) (hhigh : v < 0x110000) :
    mayFollow (UInt8.ofNat (v / 262144 % 8 + 240)) (UInt8.ofNat (v / 4096 % 64 + 128)) = true := by
  simp only [mayFollow, isContinuation, UInt8.le_iff_toNat_le, ← UInt8.toNat_inj,
    UInt8.toNat_ofNat', UInt8.reduceToNat]
  split_ifs <;> rw [decide_eq_true_eq] <;> omega

/-- All that is left of a character is replaced at once. -/
theorem invalidLength_take {j : ℕ} {c : Char} (hpos : 0 < j) (hlt : j < c.utf8Size) :
    invalidLength ((String.utf8EncodeChar c).take j) = j := by
  have hvalid : c.val.toNat < 0xd800 ∨ 0xdfff < c.val.toNat ∧ c.val.toNat < 0x110000 := c.valid
  rw [← String.length_utf8EncodeChar, String.utf8EncodeChar] at hlt
  rw [String.utf8EncodeChar]
  generalize c.val.toNat = v at hvalid hlt
  split_ifs at hlt ⊢ with h₁ h₂ h₃
  all_goals simp only [List.length_cons, List.length_nil] at hlt
  · omega
  · obtain rfl : j = 1 := by omega
    rfl
  · obtain rfl | rfl : j = 1 ∨ j = 2 := by omega
    · rfl
    · have hw := width_of_three (Nat.mod_lt (v / 4096) (show 0 < 16 by decide))
      have hf := mayFollow_of_three (v := v) (by omega) (by omega) h₃
      simp only [List.take_succ_cons, List.take_zero, invalidLength, hw, hf, Nat.le_refl, and_self,
        ↓reduceIte]
  · have hw : width (UInt8.ofNat (v / 262144 % 8 + 240)) = 4 := width_of_four (by omega)
    have hf := mayFollow_of_four (v := v) (by omega) (by omega)
    have hc := isContinuation_of_lt (Nat.mod_lt (v / 64) (show 0 < 64 by decide))
    obtain rfl | rfl | rfl : j = 1 ∨ j = 2 ∨ j = 3 := by omega
    · rfl
    · simp only [List.take_succ_cons, List.take_zero, invalidLength, hw, hf, Nat.reduceLeDiff,
        and_self, ↓reduceIte]
    · simp only [List.take_succ_cons, List.take_zero, invalidLength, hw, hf, hc, Nat.reduceLeDiff,
        and_self, ↓reduceIte]

/-- A divided character is read as one U+FFFD. -/
theorem decodeLossy_take_eq {k j : ℕ} {c : Char} (hpos : 0 < j) (hlt : j < c.utf8Size) :
    decodeLossy (k + 1) ((String.utf8EncodeChar c).take j) = ['\uFFFD'] := by
  have hlen : ((String.utf8EncodeChar c).take j).length = j := by
    rw [List.length_take, String.length_utf8EncodeChar]
    omega
  have hnone := utf8DecodeChar?_take hlt
  have hinvalid := invalidLength_take hpos hlt
  cases hl : (String.utf8EncodeChar c).take j with
  | nil =>
    rw [hl] at hlen
    exact absurd hlen.symm (Nat.ne_of_gt hpos)
  | cons b bs =>
    rw [hl] at hnone hinvalid hlen
    simp only [decodeLossy, hnone, hinvalid, List.drop_of_length_le (Nat.le_of_eq hlen)]
    cases k <;> rfl

theorem bytes_append (s t : String) : bytes (s ++ t) = bytes s ++ bytes t := by
  rw [bytes_eq, String.toList_append, List.flatMap_append, ← bytes_eq, ← bytes_eq]

/-- Whole characters are read, and one U+FFFD for what is left of another. -/
theorem fromUtf8Lossy_append_take (s : String) {j : ℕ} {c : Char} (hpos : 0 < j)
    (hlt : j < c.utf8Size) :
    fromUtf8Lossy (bytes s ++ (String.utf8EncodeChar c).take j) = s ++ "\uFFFD" := by
  obtain ⟨k, hk⟩ : ∃ k, (bytes s ++ (String.utf8EncodeChar c).take j).length =
      s.toList.length + (k + 1) := by
    have := length_le_flatMap s.toList
    refine ⟨(bytes s).length + j - s.toList.length - 1, ?_⟩
    rw [List.length_append, List.length_take, String.length_utf8EncodeChar, bytes_eq]
    omega
  rw [fromUtf8Lossy, hk, bytes_eq, decodeLossy_flatMap_append, decodeLossy_take_eq hpos hlt,
    String.ofList_append, String.ofList_toList]

/-- **The first `n` bytes of a string** are those of a beginning of it, or those and a part of the
next character, for which one U+FFFD is read. -/
theorem take_bytes_cases (s : String) (n : ℕ) :
    (∃ pre post, s = pre ++ post ∧ (bytes s).take n = bytes pre) ∨
      ∃ pre c post j, s = pre ++ String.ofList (c :: post) ∧ 0 < j ∧ j < c.utf8Size ∧
        n = (bytes pre).length + j ∧
        (bytes s).take n = bytes pre ++ (String.utf8EncodeChar c).take j := by
  rcases exists_cut s.toList n with ⟨pre, post, hs, ht⟩ | ⟨pre, c, post, j, hs, hpos, hlt, rfl⟩
  · refine .inl ⟨String.ofList pre, String.ofList post, ?_, ?_⟩
    · rw [← String.ofList_append, ← hs, String.ofList_toList]
    · rw [bytes_eq, ht, bytes_ofList]
  · refine .inr ⟨String.ofList pre, c, post, j, ?_, hpos, hlt, ?_, ?_⟩
    · rw [← String.ofList_append, ← hs, String.ofList_toList]
    · rw [bytes_ofList]
    · have hj : j ≤ (String.utf8EncodeChar c).length := by
        rw [String.length_utf8EncodeChar]
        exact Nat.le_of_lt hlt
      rw [bytes_eq, hs, List.flatMap_append, List.flatMap_cons, bytes_ofList,
        List.take_length_add_append, List.take_append_of_le_length hj]

/-- **The first `n` bytes are read as the whole string** if there are no more, or if U+FFFD is what
they divide. -/
theorem fromUtf8Lossy_take_eq_iff (s : String) (n : ℕ) :
    fromUtf8Lossy ((bytes s).take n) = s ↔
      (bytes s).length ≤ n ∨
        ∃ t, s = t ++ "\uFFFD" ∧ (bytes t).length < n ∧ n < (bytes t).length + 3 := by
  constructor
  · intro hread
    rcases take_bytes_cases s n with ⟨pre, post, hs, ht⟩ | ⟨pre, c, post, j, hs, hpos, hlt, hn, ht⟩
    · rw [ht, fromUtf8Lossy_bytes] at hread
      have hlen := congrArg List.length ht
      rw [hread, List.length_take] at hlen
      exact .inl (by omega)
    · rw [ht, fromUtf8Lossy_append_take pre hpos hlt] at hread
      refine .inr ⟨pre, hread.symm, by omega, ?_⟩
      have hc := congrArg String.toList (hread.trans hs)
      rw [String.toList_append, String.toList_append, List.append_right_inj,
        String.toList_ofList (l := c :: post)] at hc
      obtain rfl : '\uFFFD' = c := (List.cons.inj hc).1
      have hthree : ('\uFFFD').utf8Size = 3 := by decide
      omega
  · rintro (hle | ⟨t, rfl, hlow, hhigh⟩)
    · rw [List.take_of_length_le hle, fromUtf8Lossy_bytes]
    · obtain ⟨j, rfl⟩ : ∃ j, n = (bytes t).length + j := ⟨n - (bytes t).length, by omega⟩
      have hmark : bytes "\uFFFD" = String.utf8EncodeChar '\uFFFD' := by decide
      have hthree : ('\uFFFD').utf8Size = 3 := by decide
      rw [bytes_append, hmark, List.take_length_add_append]
      exact fromUtf8Lossy_append_take t (by omega) (by omega)

/-- What is read of `n` bytes of a string has at most two bytes more. -/
theorem length_fromUtf8Lossy_take (s : String) (n : ℕ) :
    (bytes (fromUtf8Lossy ((bytes s).take n))).length ≤ n + 2 := by
  rcases take_bytes_cases s n with ⟨pre, post, hs, ht⟩ | ⟨pre, c, post, j, hs, hpos, hlt, hn, ht⟩
  · have hle := List.length_take_le n (bytes s)
    rw [ht] at hle
    rw [ht, fromUtf8Lossy_bytes]
    omega
  · have hthree : (bytes "\uFFFD").length = 3 := by decide
    rw [ht, fromUtf8Lossy_append_take pre hpos hlt, bytes_append, List.length_append]
    omega

end Utf8

end Xshm
