import Mathlib.Data.List.Basic
import Mathlib.Tactic.Common

/-!
# Deferred events

Threads that change a shared state under a lock, and report each change by a callback after they
have dropped the lock, *owe* the callback in between.  `Deferred O E` keeps the events that have
been caused: those whose callbacks have started, and those still owed, each with the thread that
owes it, in the order in which they were caused.

* `Deferred.pending o` : what the thread `o` owes, oldest first.
* `Deferred.caused` : all events in the order in which they were caused.
* `Deferred.caused_start` : if a thread starts a callback only when it owes the oldest event, then
  the callbacks start in that order.
-/

namespace Xshm

/-- The events caused by the threads `O`. -/
structure Deferred (O : Type*) (E : Type*) where
  /-- The events whose callbacks have started. -/
  started : List E := []
  owed : List (O × E) := []

namespace Deferred

variable {O E : Type*} (d : Deferred O E)

/-- All events, in the order in which they were caused, if they have started in that order. -/
def caused : List E := d.started ++ d.owed.map Prod.snd

/-- The thread `o` causes some events. -/
def owe (o : O) (es : List E) : Deferred O E :=
  { d with owed := d.owed ++ es.map fun e => (o, e) }

/-- The oldest event that has not started is owed by `o`. -/
def Oldest (o : O) : Prop := d.owed.head?.map Prod.fst = some o

theorem map_snd_owner (o : O) (es : List E) : (es.map fun e => (o, e)).map Prod.snd = es := by
  rw [List.map_map]
  exact List.map_id es

theorem caused_owe (o : O) (es : List E) : (d.owe o es).caused = d.caused ++ es := by
  rw [caused, owe, List.map_append, map_snd_owner, ← List.append_assoc]
  rfl

variable [DecidableEq O]

instance (o : O) : Decidable (d.Oldest o) := inferInstanceAs (Decidable (_ = _))

/-- What the thread `o` owes. -/
def pending (o : O) : List E := (d.owed.filter fun x => x.1 = o).map Prod.snd

/-- The thread `o` starts the callback of the oldest event that it owes. -/
def start (o : O) : Deferred O E where
  started := d.started ++ (d.pending o).head?.toList
  owed := d.owed.eraseP fun x => x.1 = o

variable {d}

theorem pending_owe_self (o : O) (es : List E) : (d.owe o es).pending o = d.pending o ++ es := by
  have h : (es.map fun e => (o, e)).filter (fun x => x.1 = o) = es.map fun e => (o, e) := by
    simp
  rw [pending, owe, List.filter_append, h, List.map_append, map_snd_owner, pending]

theorem pending_owe_of_ne {o o' : O} (h : o' ≠ o) (es : List E) :
    (d.owe o es).pending o' = d.pending o' := by
  have hnil : (es.map fun e => (o, e)).filter (fun x => x.1 = o') = [] := by
    simp [h.symm]
  rw [pending, owe, List.filter_append, hnil, List.append_nil, pending]

theorem started_start {o : O} {e : E} {es : List E} (h : d.pending o = e :: es) :
    (d.start o).started = d.started ++ [e] := by
  rw [start, h]
  rfl

/-- Erasing the first of some entries leaves the others of them. -/
theorem filter_eraseP_self {α : Type*} (p : α → Bool) (l : List α) :
    (l.eraseP p).filter p = (l.filter p).tail := by
  induction l with
  | nil => rfl
  | cons x l ih =>
    by_cases hx : p x = true
    · rw [List.eraseP_cons_of_pos hx, List.filter_cons_of_pos hx, List.tail_cons]
    · rw [List.eraseP_cons_of_neg hx, List.filter_cons_of_neg hx, List.filter_cons_of_neg hx, ih]

theorem filter_eraseP_of_disjoint {α : Type*} {p q : α → Bool} (h : ∀ x, p x = true → q x = false)
    (l : List α) : (l.eraseP p).filter q = l.filter q := by
  induction l with
  | nil => rfl
  | cons x l ih =>
    by_cases hx : p x = true
    · rw [List.eraseP_cons_of_pos hx, List.filter_cons_of_neg (by rw [h x hx]; decide)]
    · rw [List.eraseP_cons_of_neg hx, List.filter_cons, List.filter_cons, ih]

theorem pending_start_self (o : O) : (d.start o).pending o = (d.pending o).tail := by
  rw [pending, start, filter_eraseP_self, pending, List.map_tail]

theorem pending_start_of_ne {o o' : O} (h : o' ≠ o) : (d.start o).pending o' = d.pending o' := by
  rw [pending, start, filter_eraseP_of_disjoint, pending]
  intro x hx
  rw [decide_eq_true_eq] at hx
  rw [hx]
  exact decide_eq_false h.symm

/-- Starting the oldest event keeps the order. -/
theorem caused_start {o : O} (h : d.Oldest o) : (d.start o).caused = d.caused := by
  obtain ⟨started, owed⟩ := d
  cases owed with
  | nil => cases h
  | cons x owed =>
    have hx : x.1 = o := Option.some.inj h
    simp [caused, start, pending, hx]

end Deferred

end Xshm
