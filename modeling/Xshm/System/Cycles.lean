import Mathlib.Logic.Relation
import Mathlib.Order.Basic
import Mathlib.Tactic.Common

/-!
# Relations without cycles

A waits-for relation without cycles is a system without deadlock.  If every wait leads to a thread
of lower rank, apart from waits of one kind between threads of one rank, then only waits of that
kind can form a cycle; and a new wait closes a cycle only if its end leads back to its start.

* `Acyclic.of_rank` : cycles are cycles of one kind, within one rank.
* `Acyclic.insert` : a new edge closes no cycle if its end does not lead back to its start.
-/

namespace Xshm

variable {α : Type*} {r r' j : α → α → Prop}

/-- There is no cycle. -/
def Acyclic (r : α → α → Prop) : Prop := ∀ a, ¬ Relation.TransGen r a a

theorem Acyclic.mono (h : Acyclic r) (hr : ∀ a b, r' a b → r a b) : Acyclic r' :=
  fun a ha => h a (Relation.TransGen.mono hr _ _ ha)

/-- Renaming makes no cycle. -/
theorem Acyclic.map {β : Type*} {f : α → β} (hf : Function.Injective f) (h : Acyclic r) :
    Acyclic (Relation.Map r f f) := by
  have hpath {x y : β} (hxy : Relation.TransGen (Relation.Map r f f) x y) :
      ∃ a b, f a = x ∧ f b = y ∧ Relation.TransGen r a b := by
    induction hxy with
    | single hr =>
      obtain ⟨a, b, hab, hx, hy⟩ := hr
      exact ⟨a, b, hx, hy, .single hab⟩
    | tail _ hr ih =>
      obtain ⟨a, b, hx, hb, hab⟩ := ih
      obtain ⟨b', c, hbc, hb', hy⟩ := hr
      obtain rfl := hf (hb'.trans hb.symm)
      exact ⟨a, c, hx, hy, hab.tail hbc⟩
  intro x hx
  obtain ⟨a, b, ha, hb, hab⟩ := hpath hx
  obtain rfl := hf (ha.trans hb.symm)
  exact h a hab

/-- A path does not rise, and a path that stays in its rank is one of `j`. -/
theorem transGen_rank {f : α → ℕ} (h : ∀ a b, r a b → f b < f a ∨ f b = f a ∧ j a b) {a b : α}
    (hab : Relation.TransGen r a b) : f b < f a ∨ f b = f a ∧ Relation.TransGen j a b := by
  induction hab with
  | single hr =>
    rcases h _ _ hr with hlt | ⟨heq, hj⟩
    · exact .inl hlt
    · exact .inr ⟨heq, .single hj⟩
  | tail _ hr ih =>
    rcases h _ _ hr with hlt | ⟨heq, hj⟩
    · rcases ih with ih | ⟨ih, -⟩
      · exact .inl (Nat.lt_trans hlt ih)
      · exact .inl (ih ▸ hlt)
    · rcases ih with ih | ⟨ih, hpath⟩
      · exact .inl (heq ▸ ih)
      · exact .inr ⟨heq.trans ih, hpath.tail hj⟩

/-- **Cycles stay in one rank.** -/
theorem Acyclic.of_rank {f : α → ℕ} (hj : Acyclic j)
    (h : ∀ a b, r a b → f b < f a ∨ f b = f a ∧ j a b) : Acyclic r := by
  intro a ha
  rcases transGen_rank h ha with hlt | ⟨-, hpath⟩
  · exact Nat.lt_irrefl _ hlt
  · exact hj a hpath

/-- A path that uses a new edge from `m` to `n` leads to `m` and goes on from `n`. -/
theorem transGen_of_edge {m n : α} (h : ∀ a b, r' a b → r a b ∨ a = m ∧ b = n) (hne : n ≠ m)
    (hnm : ¬ Relation.TransGen r n m) {a b : α} (hab : Relation.TransGen r' a b) :
    Relation.TransGen r a b ∨ Relation.ReflTransGen r a m ∧ Relation.ReflTransGen r n b := by
  induction hab with
  | single hr =>
    rcases h _ _ hr with hr | ⟨rfl, rfl⟩
    · exact .inl (.single hr)
    · exact .inr ⟨.refl, .refl⟩
  | tail _ hr ih =>
    rcases h _ _ hr with hr | ⟨rfl, rfl⟩
    · rcases ih with hpath | ⟨ham, hnb⟩
      · exact .inl (hpath.tail hr)
      · exact .inr ⟨ham, hnb.tail hr⟩
    · rcases ih with hpath | ⟨-, hnb⟩
      · exact .inr ⟨hpath.to_reflTransGen, .refl⟩
      · rcases Relation.reflTransGen_iff_eq_or_transGen.1 hnb with heq | hpath
        · exact absurd heq.symm hne
        · exact absurd hpath hnm

/-- **A new edge closes no cycle** if its end does not lead back. -/
theorem Acyclic.insert {m n : α} (hr : Acyclic r) (h : ∀ a b, r' a b → r a b ∨ a = m ∧ b = n)
    (hne : n ≠ m) (hnm : ¬ Relation.TransGen r n m) : Acyclic r' := by
  intro a ha
  rcases transGen_of_edge h hne hnm ha with hpath | ⟨ham, hna⟩
  · exact hr a hpath
  · rcases Relation.reflTransGen_iff_eq_or_transGen.1 (hna.trans ham) with heq | hpath
    · exact hne heq.symm
    · exact hnm hpath

end Xshm
