import Xshm.System.Basic

/-!
# Step systems with a history

Some properties speak of the past of a state: which request a call has consumed, which callbacks
have started.  `System.withHistory` runs a system together with a value that every step updates
and no step reads, so that the runs are those of the system and each of them has one history.

* `System.reach_of_withHistory` : forgetting the history gives a run of the system.
* `System.exists_history` : every run has a history.
-/

namespace Xshm

namespace System

variable {S L G : Type*}

/-- The system `A` with a history, which is `g₀` at first and which `note` updates at each step,
given the states before and after it. -/
def withHistory (A : System S L) (g₀ : G) (note : S → L → S → G → G) : System (S × G) L where
  init p := A.init p.1 ∧ p.2 = g₀
  step p l := (A.step p.1 l).map fun s' => (s', note p.1 l s' p.2)

variable {A : System S L} {g₀ : G} {note : S → L → S → G → G}

/-- A step is a step of the system, noted. -/
theorem withHistory_step {p p' : S × G} {l : L} :
    (A.withHistory g₀ note).step p l = some p' ↔
      A.step p.1 l = some p'.1 ∧ p'.2 = note p.1 l p'.1 p.2 := by
  obtain ⟨s', g'⟩ := p'
  simp only [withHistory, Option.map_eq_some_iff, Prod.mk.injEq]
  constructor
  · rintro ⟨s, hs, rfl, rfl⟩
    exact ⟨hs, rfl⟩
  · rintro ⟨hs, rfl⟩
    exact ⟨s', hs, rfl, rfl⟩

/-- Forgetting the history. -/
theorem reach_of_withHistory {C : S × G → L → Prop} {p : S × G}
    (h : (A.withHistory g₀ note).ReachWhen C p) : A.Reach p.1 := by
  induction h with
  | init h => exact .init h.1
  | step _ _ hst ih => exact ih.step (withHistory_step.1 hst).1

/-- Every run has a history. -/
theorem exists_history {s : S} (h : A.Reach s) : ∃ g, (A.withHistory g₀ note).Reach (s, g) := by
  induction h with
  | init h => exact ⟨g₀, .init ⟨h, rfl⟩⟩
  | @step s s' l _ _ hst ih =>
    obtain ⟨g, hg⟩ := ih
    exact ⟨note s l s' g, Reach.step hg (withHistory_step.2 ⟨hst, rfl⟩)⟩

end System

end Xshm
