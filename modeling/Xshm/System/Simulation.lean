import Xshm.System.Basic

/-!
# One machine seen as another

A function from the states of one system to those of another.

* If both systems have the same labels and the function commutes with every step, then it commutes
  with every run (`System.run_map`), and reachable states are seen as reachable ones
  (`System.reach_map`).
* If every step is matched by some steps, or none, of the other system that show the same events,
  then every run is matched by a run that shows the same events (`System.exists_run_of_match`).
-/

namespace Xshm

namespace System

variable {S T L : Type*} {A : System S L} {B : System T L} {I : S → Prop} {f : S → T}

/-- A run, seen through `f`, is the run of the same labels. -/
theorem run_map (hkeep : ∀ s l s', I s → A.step s l = some s' → I s')
    (hstep : ∀ s l, I s → (A.step s l).map f = B.step (f s) l) {s : S} (h : I s) (ls : List L) :
    (A.run s ls).map f = B.run (f s) ls := by
  induction ls generalizing s with
  | nil => rfl
  | cons l ls ih =>
    rw [run_cons, run_cons, ← hstep s l h]
    cases hst : A.step s l with
    | none => rfl
    | some s' => exact ih (hkeep s l s' h hst)

/-- What is reached, seen through `f`, is reached. -/
theorem reach_map (hkeep : ∀ s l s', I s → A.step s l = some s' → I s')
    (hstep : ∀ s l, I s → (A.step s l).map f = B.step (f s) l)
    (hinit : ∀ s, A.init s → I s ∧ B.init (f s)) {s : S} (h : A.Reach s) :
    I s ∧ B.Reach (f s) := by
  induction h with
  | init h => exact ⟨(hinit _ h).1, .init (hinit _ h).2⟩
  | @step s s' l _ _ hst ih =>
    have hB : B.step (f s) l = some (f s') := by rw [← hstep s l ih.1, hst, Option.map_some]
    exact ⟨hkeep s l s' ih.1 hst, ih.2.step hB⟩

/-! ### Other labels -/

section Match

variable {M E : Type*}

/-- What a run shows, if `events s l s'` is what the step `l` from `s` to `s'` shows. -/
def trace (A : System S L) (events : S → L → S → List E) : S → List L → List E
  | _, [] => []
  | s, l :: ls =>
    match A.step s l with
    | none => []
    | some s' => events s l s' ++ trace A events s' ls

/-- The step `l` from `s` to `s'`, seen through `f`, is matched by a run of `B` that shows the same;
`event` says what the labels of `B` show. -/
def Matches (B : System T M) (f : S → T) (event : M → Option E) (events : S → L → S → List E)
    (s : S) (l : L) (s' : S) : Prop :=
  ∃ ms, B.run (f s) ms = some (f s') ∧ ms.filterMap event = events s l s'

/-- **Every run is matched by a run that shows the same**, if every step is. -/
theorem exists_run_of_match {B : System T M} {C : S → L → Prop} [∀ s l, Decidable (C s l)]
    {event : M → Option E} {events : S → L → S → List E}
    (hstep : ∀ s l s', I s → C s l → A.step s l = some s' →
      I s' ∧ B.Matches f event events s l s') {s s' : S} {ls : List L} (h : I s)
    (hr : A.runWhen C s ls = some s') :
    ∃ ms, B.run (f s) ms = some (f s') ∧ ms.filterMap event = A.trace events s ls := by
  induction ls generalizing s with
  | nil =>
    cases hr
    exact ⟨[], rfl, rfl⟩
  | cons l ls ih =>
    rw [runWhen] at hr
    split_ifs at hr with hc
    obtain ⟨s₁, hst, hr⟩ := Option.bind_eq_some_iff.1 hr
    obtain ⟨hi, ms, hms, he⟩ := hstep s l s₁ h hc hst
    obtain ⟨ms', hms', he'⟩ := ih hi hr
    refine ⟨ms ++ ms', run_trans hms hms', ?_⟩
    rw [List.filterMap_append, he, he', trace, hst]

end Match

end System

end Xshm
