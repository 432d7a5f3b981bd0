import Xshm.Circular.DropOldest

/-!
# What a queue that drops its oldest elements keeps

An element is dropped only to make room, so if no element is larger than `size`, the queue keeps at
least the newest `keeps size` elements that are not taken from its head.

* `DropOldest.Kept.push`, `DropOldest.Kept.pop` : the newest elements that were appended have been
  taken or are queued.
-/

namespace Xshm

namespace DropOldest

variable {α : Type*} {q : DropOldest α}

variable (q) in
/-- The number of elements no larger than `size` for which there is room in any case. -/
def keeps (size : ℕ) : ℕ := min q.maxCount (q.capacity / size)

theorem used_le {size : ℕ} {Q : List α} (h : ∀ b ∈ Q, q.size b ≤ size) :
    q.used Q ≤ Q.length * size := by
  induction Q with
  | nil => exact Nat.zero_le _
  | cons b Q ih =>
    have hb := h b List.mem_cons_self
    have hQ := ih fun c hc => h c (List.mem_cons_of_mem _ hc)
    rw [used_cons, List.length_cons, Nat.succ_mul]
    omega

/-- Elements are dropped only from a queue that still holds many afterwards. -/
theorem keeps_le_of_excess {size : ℕ} {Q : List α} {a : α} (hQ : ∀ b ∈ Q, q.size b ≤ size)
    (ha : q.size a ≤ size) (h : 0 < q.excess Q a) :
    q.keeps size ≤ (Q.drop (q.excess Q a) ++ [a]).length := by
  have hnot := not_fits_of_lt_excess (Nat.sub_lt h Nat.one_pos)
  have hle := q.excess_le Q a
  have hlen : (Q.drop (q.excess Q a - 1)).length = (Q.drop (q.excess Q a) ++ [a]).length := by
    rw [List.length_append, List.length_drop, List.length_drop, List.length_singleton]
    omega
  rw [← hlen]
  by_cases hcount : (Q.drop (q.excess Q a - 1)).length < q.maxCount
  · -- the sizes are too large, so there are many elements
    have hused : q.used (Q.drop (q.excess Q a - 1)) ≤ _ :=
      used_le fun b hb => hQ b (List.mem_of_mem_drop hb)
    have hfull : q.capacity < q.used (Q.drop (q.excess Q a - 1)) + q.size a := by
      by_contra hfit
      exact hnot ⟨not_lt.1 hfit, hcount⟩
    refine (min_le_right _ _).trans (Nat.le_of_lt_succ (Nat.div_lt_of_lt_mul ?_))
    rw [Nat.mul_succ, Nat.mul_comm]
    omega
  · exact (min_le_left _ _).trans (not_lt.1 hcount)

/-- What was appended has been taken or is queued, in this order, but for what was dropped; of the
newest `n` elements nothing was dropped. -/
structure Kept (n : ℕ) (appended taken Q : List α) : Prop where
  queued : Q <:+ appended
  inOrder : (taken ++ Q).Sublist appended
  newest : appended.drop (appended.length - n) <:+ taken ++ Q

theorem Kept.nil (n : ℕ) : Kept n ([] : List α) [] [] :=
  ⟨List.suffix_rfl, List.Sublist.refl _, by simp⟩

/-- The last `n` elements are among any `n` or more at the end. -/
theorem drop_length_sub_suffix {l l' : List α} {n : ℕ} (h : l' <:+ l) (hn : n ≤ l'.length) :
    l.drop (l.length - n) <:+ l' := by
  refine List.suffix_of_suffix_length_le (List.drop_suffix _ _) h ?_
  rw [List.length_drop]
  omega

/-- **Appending an element keeps the newest ones.** -/
theorem Kept.push {n size : ℕ} {appended taken Q : List α} {a : α} (h : Kept n appended taken Q)
    (hn : n ≤ q.keeps size) (hQ : ∀ b ∈ Q, q.size b ≤ size) (ha : q.size a ≤ size) :
    Kept n (appended ++ [a]) taken (q.push Q a) := by
  have hdrop : Q.drop (q.excess Q a) ++ [a] <:+ appended ++ [a] :=
    List.suffix_append_self_iff.2 ((List.drop_suffix _ _).trans h.queued)
  have horder : (taken ++ q.push Q a).Sublist (appended ++ [a]) := by
    rw [DropOldest.push, ← List.append_assoc]
    exact .append (.trans (.append (.refl _) (List.drop_sublist _ _)) h.inOrder) (.refl _)
  refine ⟨hdrop, horder, ?_⟩
  by_cases he : 0 < q.excess Q a
  · exact (drop_length_sub_suffix hdrop (hn.trans (keeps_le_of_excess hQ ha he))).trans
      (List.suffix_append _ _)
  · rw [DropOldest.push, Nat.eq_zero_of_not_pos he, List.drop_zero, ← List.append_assoc]
    cases n with
    | zero => simp
    | succ n =>
      rw [List.length_append, List.length_singleton, Nat.add_sub_add_right,
        List.drop_append_of_le_length (Nat.sub_le _ _)]
      have hnewer : appended.drop (appended.length - n) <:+
          appended.drop (appended.length - (n + 1)) := by
        refine List.suffix_of_suffix_length_le (List.drop_suffix _ _) (List.drop_suffix _ _) ?_
        rw [List.length_drop, List.length_drop]
        omega
      exact List.suffix_append_self_iff.2 (hnewer.trans h.newest)

/-- Taking the head. -/
theorem Kept.pop {n : ℕ} {appended taken Q : List α} {b : α} (h : Kept n appended taken (b :: Q)) :
    Kept n appended (taken ++ [b]) Q := by
  refine ⟨(List.suffix_cons b Q).trans h.queued, ?_, ?_⟩
  · rw [List.append_assoc]
    exact h.inOrder
  · rw [List.append_assoc]
    exact h.newest

end DropOldest

end Xshm
