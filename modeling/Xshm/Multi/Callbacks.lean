import Xshm.System.Deferred
import Xshm.System.History
import Xshm.Multi.Locks

/-!
# The order of the callbacks of a slot

The worker and `disconnect_client` change a slot under its mutex and call the handler after they
have dropped it; received messages are collected under the mutex and delivered later.  In between,
the other thread can get in: the sessions of a slot open and close in order, but the callbacks that
report this need not start in that order.

If a callback starts only when no older one is owed for the slot (`OldestFirst`), then those that
have started are, session by session, one `on_client_connect`, any number of `on_message`, and at
most one `on_client_disconnect` (`callOrder_of_oldestFirst`).  The callbacks that are owed are kept
as a history, each with the number of its session.
-/

namespace Xshm

namespace Multi

/-- The last session, counted from 1, and whether it is open, after one more callback of a
session. -/
def nextPhase : ℕ × Bool → ℕ × Callback → Option (ℕ × Bool)
  | (n, false), (m, .connect) => if n < m then some (m, true) else none
  | (n, true), (m, .message _) => if m = n then some (n, true) else none
  | (n, true), (m, .disconnect) => if m = n then some (n, false) else none
  | _, _ => none

/-- The last session and whether it is open, after some callbacks; `none` if they are not those of
sessions, one after the other. -/
def phase (l : List (ℕ × Callback)) : Option (ℕ × Bool) := l.foldlM nextPhase (0, false)

/-- The callbacks are those of sessions, one after the other: `on_client_connect`, any number of
`on_message` and `on_client_disconnect`, the last session up to any of them. -/
def Orderly (l : List (ℕ × Callback)) : Prop := (phase l).isSome = true

instance (l : List (ℕ × Callback)) : Decidable (Orderly l) := inferInstanceAs (Decidable (_ = _))

theorem phase_append (l l' : List (ℕ × Callback)) :
    phase (l ++ l') = (phase l).bind fun q => l'.foldlM nextPhase q :=
  List.foldlM_append

theorem Orderly.of_append {l l' : List (ℕ × Callback)} (h : Orderly (l ++ l')) : Orderly l := by
  rw [Orderly, phase_append] at h
  exact Option.isSome_of_isSome_bind h

/-- Messages leave a session open. -/
theorem foldlM_messages (n : ℕ) (ms : List Payload) :
    (ms.map fun m => (n, Callback.message m)).foldlM nextPhase (n, true) = some (n, true) := by
  induction ms with
  | nil => rfl
  | cons m ms ih =>
    rw [List.map_cons, List.foldlM_cons]
    simpa [nextPhase] using ih

variable {ι κ : Type*}

/-- The history of a slot: the sessions that have been opened, and the callbacks for it, each with
its session. -/
structure SlotCalls (κ : Type*) where
  opened : ℕ := 0
  calls : Deferred (Owner κ) (ℕ × Callback) := {}

namespace SlotCalls

variable (g : SlotCalls κ)

/-- A session is opened. -/
def accept : SlotCalls κ :=
  { opened := g.opened + 1
    calls := g.calls.owe .worker [(g.opened + 1, .connect)] }

/-- A thread owes callbacks of the last session. -/
def owe (o : Owner κ) (es : List Callback) : SlotCalls κ :=
  { g with calls := g.calls.owe o (es.map fun e => (g.opened, e)) }

/-- A thread starts a callback. -/
def start [DecidableEq κ] (o : Owner κ) : SlotCalls κ := { g with calls := g.calls.start o }

end SlotCalls

/-- The slot whose callback the worker starts next. -/
def Worker.starts : Worker → Option ℕ
  | .callConnect k | .callMessages k (_ :: _) _ | .callDisconnect k | .orphanCall k _ => some k
  | _ => none

/-- The slot whose callback the thread starts next. -/
def App.starts : App → Option ℕ
  | .callDisconnect k => some k
  | _ => none

/-- What the worker causes at the slot by the step to `t`. -/
def State.causes (s : State ι κ) (k : ℕ) (t : Worker) (g : SlotCalls κ) : SlotCalls κ :=
  match s.worker, t with
  | .handshaken _ true, _ => g.accept
  | .receiving .., .callMessages _ ms _ => g.owe .worker (ms.map fun m => .message m.payload)
  | .slotDisconnect .., _ => if (s.slot k).connected then g.owe .worker [.disconnect] else g
  | .orphanCas _ expected _, _ =>
    if (s.slot k).claim = expected then g.owe .worker [.disconnect] else g
  | _, _ => g

/-- The slot that the worker is about to change. -/
def Worker.changing : Worker → Option ℕ
  | .handshaken k true | .receiving k .. | .slotDisconnect k _ | .orphanCas k .. => some k
  | _ => none

/-- The history of the slots. -/
def noteCall [DecidableEq κ] (s : State ι κ) (l : Label ι κ) (s' : State ι κ)
    (g : ℕ → SlotCalls κ) : ℕ → SlotCalls κ :=
  match l with
  | .worker _ =>
    match s.worker.changing, s.worker.starts with
    | some k, _ => Function.update g k (s.causes k s'.worker (g k))
    | none, some k => Function.update g k ((g k).start .worker)
    | none, none => g
  | .app a _ =>
    match (s.app a).starts with
    | some k => Function.update g k ((g k).start (.app a))
    | none => g
  | .disconnectClient a k =>
    if (s.slot k).connected then Function.update g k ((g k).owe (.app a) [.disconnect]) else g
  | _ => g

/-- A server with its slots and clients, with the callbacks. -/
def callSystem (ι κ : Type*) [DecidableEq ι] [DecidableEq κ] (cfg : Config ι) :
    System (State ι κ × (ℕ → SlotCalls κ)) (Label ι κ) :=
  (Multi.system κ cfg).withHistory (fun _ => {}) noteCall

/-- The callbacks that have started for a slot are those of its sessions, in order. -/
def CallOrder (p : State ι κ × (ℕ → SlotCalls κ)) : Prop :=
  ∀ k, (p.1.slot k).calls = (p.2 k).calls.started.map Prod.snd ∧
    Orderly (p.2 k).calls.started

/-- A callback starts only when it is the oldest that is owed for its slot. -/
def OldestFirst [DecidableEq κ] (p : State ι κ × (ℕ → SlotCalls κ)) : Label ι κ → Prop
  | .worker _ => ∀ k ∈ p.1.worker.starts, (p.2 k).calls.Oldest .worker
  | .app a _ => ∀ k ∈ (p.1.app a).starts, (p.2 k).calls.Oldest (.app a)
  | _ => True

/-! ### What a thread owes -/

/-- The callbacks of slot `k` that the worker owes. -/
def Worker.owes (k : ℕ) : Worker → List Callback
  | .callConnect j => if j = k then [.connect] else []
  | .callMessages j ms _ => if j = k then ms.map fun m => .message m.payload else []
  | .callDisconnect j | .orphanMark j .. | .orphanCall j _ | .marking j (some _) _
  | .release j (some _) => if j = k then [.disconnect] else []
  | _ => []

/-- The callbacks of slot `k` that the thread owes. -/
def App.owes (k : ℕ) : App → List Callback
  | .setEvent j _ | .marking j .. | .release j _ | .callDisconnect j =>
    if j = k then [.disconnect] else []
  | .idle => []

/-- The slot that the worker has found connected, and whose mutex it holds. -/
def Worker.serving : Worker → Option ℕ
  | .receiving k .. | .orphanCas k .. => some k
  | _ => none

theorem Worker.holding_of_serving {t : Worker} {k : ℕ} (h : t.serving = some k) :
    t.holding = some k := by
  cases t <;> first | exact h | cases h

/-- A move of the worker between `t` and `t'` that causes and starts no callback. -/
structure Worker.Quiet (t t' : Worker) : Prop where
  changing : t.changing = none
  starts : t.starts = none
  owes : ∀ j, t'.owes j = t.owes j

section

variable {cfg : Config ι} {s : State ι κ} {sl : Slot κ} {k : ℕ} {t t' : Worker}

theorem Worker.Goes.quiet (h : t.Goes cfg s t') : t.Quiet t' ∧ t'.serving = none := by
  cases h with
  | told => exact ⟨⟨rfl, rfl, fun j => by simp [owes]⟩, rfl⟩
  | _ => exact ⟨⟨rfl, rfl, fun _ => rfl⟩, rfl⟩

/-- The worker serves a slot that it has found connected. -/
theorem Worker.Takes.quiet (h : t.Takes cfg sl k t') :
    t.Quiet t' ∧ ∀ j, t'.serving = some j → j = k ∧ sl.connected = true := by
  cases h with
  | orphan hcon | receive hcon =>
    refine ⟨⟨rfl, rfl, fun _ => rfl⟩, ?_⟩
    rintro _ ⟨⟩
    exact ⟨rfl, hcon⟩
  | _ => exact ⟨⟨rfl, rfl, fun _ => rfl⟩, (by rintro _ ⟨⟩)⟩

theorem Worker.Checks.owes {exited : Finset UInt32} (h : t.Checks exited k t') (j : ℕ) :
    t'.owes j = t.owes j := by
  cases h <;> rfl

theorem Worker.Checks.serving {exited : Finset UInt32} (h : t.Checks exited k t') :
    t'.serving = none := by
  cases h <;> rfl

/-- The worker starts the callback that it owes for slot `k`. -/
theorem Worker.Calls.owed {e : Callback} (h : t.Calls k e t') :
    t.changing = none ∧ t.starts = some k ∧ t.owes k = e :: t'.owes k ∧
      (∀ j, j ≠ k → t'.owes j = t.owes j) ∧ t'.serving = none := by
  cases h <;>
    exact ⟨rfl, rfl, by simp [owes], fun j hj => by simp [owes, hj.symm], rfl⟩

end

/-- The history of a slot agrees with the slot and with what its threads owe. -/
structure SlotCalls.Agrees (g : SlotCalls κ) [DecidableEq κ] (sl : Slot κ)
    (worker : List Callback) (app : κ → List Callback) : Prop where
  calls : sl.calls = g.calls.started.map Prod.snd
  worker : (g.calls.pending .worker).map Prod.snd = worker
  app : ∀ a, (g.calls.pending (.app a)).map Prod.snd = app a
  phase : phase g.calls.caused = some (g.opened, sl.connected)

namespace SlotCalls.Agrees

variable [DecidableEq κ] {g : SlotCalls κ} {sl : Slot κ} {worker : List Callback}
  {app app' : κ → List Callback}

/-- The worker causes callbacks of the last session. -/
theorem oweWorker (h : g.Agrees sl worker app) (sl' : Slot κ) (es : List Callback)
    (hc : sl'.calls = sl.calls)
    (hp : (es.map fun e => (g.opened, e)).foldlM nextPhase (g.opened, sl.connected) =
      some (g.opened, sl'.connected)) : (g.owe .worker es).Agrees sl' (worker ++ es) app where
  calls := hc.trans h.calls
  worker := by
    rw [owe, Deferred.pending_owe_self, List.map_append, h.worker, Deferred.map_snd_owner]
  app a := by
    rw [owe, Deferred.pending_owe_of_ne (by rintro ⟨⟩)]
    exact h.app a
  phase := by
    rw [owe, Deferred.caused_owe, phase_append, h.phase]
    exact hp

/-- `disconnect_client` causes its callback. -/
theorem oweApp (h : g.Agrees sl worker app) {sl' : Slot κ} {a : κ} (hc : sl'.calls = sl.calls)
    (hcon : sl.connected = true) (hcon' : sl'.connected = false)
    (ha : app' a = app a ++ [.disconnect]) (hb : ∀ b, b ≠ a → app' b = app b) :
    (g.owe (.app a) [.disconnect]).Agrees sl' worker app' where
  calls := hc.trans h.calls
  worker := by
    rw [owe, Deferred.pending_owe_of_ne (by rintro ⟨⟩)]
    exact h.worker
  app b := by
    by_cases hba : b = a
    · subst hba
      rw [owe, Deferred.pending_owe_self, List.map_append, h.app, ha]
      rfl
    · rw [owe, Deferred.pending_owe_of_ne (by rintro ⟨⟩; exact hba rfl), hb b hba]
      exact h.app b
  phase := by
    rw [owe, Deferred.caused_owe, phase_append, h.phase, hcon, hcon']
    simp [nextPhase]

/-- The worker opens a session. -/
theorem accept (h : g.Agrees sl [] app) (sl' : Slot κ) (hc : sl'.calls = sl.calls)
    (hcon : sl.connected = false) (hcon' : sl'.connected = true) :
    g.accept.Agrees sl' [.connect] app where
  calls := hc.trans h.calls
  worker := by
    rw [SlotCalls.accept, Deferred.pending_owe_self, List.map_append, h.worker]
    rfl
  app a := by
    rw [SlotCalls.accept, Deferred.pending_owe_of_ne (by rintro ⟨⟩)]
    exact h.app a
  phase := by
    rw [SlotCalls.accept, Deferred.caused_owe, phase_append, h.phase, hcon, hcon']
    simp [nextPhase]

/-- The worker starts a callback. -/
theorem startWorker (h : g.Agrees sl worker app) (hold : g.calls.Oldest .worker) {e : Callback}
    {es : List Callback} (hw : worker = e :: es) :
    (g.start .worker).Agrees (sl.call e) es app := by
  obtain ⟨x, l, hx, rfl, rfl⟩ := List.map_eq_cons_iff.1 (h.worker.trans hw)
  refine ⟨?_, ?_, fun a => ?_, ?_⟩
  · rw [start, Deferred.started_start hx, List.map_append, ← h.calls]
    rfl
  · rw [start, Deferred.pending_start_self, hx]
    rfl
  · rw [start, Deferred.pending_start_of_ne (by rintro ⟨⟩)]
    exact h.app a
  · rw [start, Deferred.caused_start hold]
    exact h.phase

/-- A thread starts its callback. -/
theorem startApp (h : g.Agrees sl worker app) {a : κ} (hold : g.calls.Oldest (.app a))
    {e : Callback} (es : List Callback) (ha : app a = e :: es) (ha' : app' a = es)
    (hb : ∀ b, b ≠ a → app' b = app b) : (g.start (.app a)).Agrees (sl.call e) worker app' := by
  obtain ⟨x, l, hx, rfl, rfl⟩ := List.map_eq_cons_iff.1 ((h.app a).trans ha)
  refine ⟨?_, ?_, fun b => ?_, ?_⟩
  · rw [start, Deferred.started_start hx, List.map_append, ← h.calls]
    rfl
  · rw [start, Deferred.pending_start_of_ne (by rintro ⟨⟩)]
    exact h.worker
  · by_cases hba : b = a
    · subst hba
      rw [start, Deferred.pending_start_self, hx, ha']
      rfl
    · rw [start, Deferred.pending_start_of_ne (by rintro ⟨⟩; exact hba rfl), hb b hba]
      exact h.app b
  · rw [start, Deferred.caused_start hold]
    exact h.phase

end SlotCalls.Agrees

/-! ### Steps that cause and start no callback -/

/-- What the callbacks and their order depend on. -/
def Slot.shown (sl : Slot κ) := (sl.calls, sl.connected)

/-- `reclaim_stale_claims` looks after the claim alone. -/
theorem Slot.shown_reclaim (sl : Slot κ) (now : ℕ) (claim : UInt32) :
    (sl.reclaim now claim).shown = sl.shown := by
  rw [Slot.reclaim]
  split_ifs
  · rfl
  · split
    · rfl
    · split_ifs <;> rfl

structure SameCalls (s s' : State ι κ) : Prop where
  slot : ∀ k, (s'.slot k).shown = (s.slot k).shown
  app : s'.app = s.app

namespace SameCalls

variable {s s' : State ι κ} {k : ℕ}

theorem refl : SameCalls s s := ⟨fun _ => rfl, rfl⟩

theorem setSlot (h : SameCalls s s') {sl : Slot κ} (hk : sl.shown = (s'.slot k).shown) :
    SameCalls s (s'.setSlot k sl) where
  slot := State.forall_setSlot (P := fun j (sl : Slot κ) => sl.shown = (s.slot j).shown)
    (hk.trans (h.slot k)) h.slot
  app := h.app

theorem setWorker (h : SameCalls s s') (t : Worker) : SameCalls s (s'.setWorker t) :=
  ⟨h.slot, h.app⟩

theorem setClient [DecidableEq ι] (h : SameCalls s s') (c : ι) (cl : Client) :
    SameCalls s (s'.setClient c cl) :=
  ⟨h.slot, h.app⟩

theorem setSeg (h : SameCalls s s') (seg : Segment (Message UInt32) (Message UInt32)) :
    SameCalls s (s'.setSeg k seg) := h.setSlot rfl

theorem lock (h : SameCalls s s') (o : Owner κ) : SameCalls s (s'.lock k o) := h.setSlot rfl

theorem unlock (h : SameCalls s s') : SameCalls s (s'.unlock k) := h.setSlot rfl

/-- A client causes and starts none. -/
theorem of_sameServer (h : SameServer s s') : SameCalls s s' where
  slot k := by
    have hk := h.slot k
    simp only [Slot.clientSlot, Prod.mk.injEq] at hk
    exact Prod.ext hk.2.2.2.2.2.2.2 hk.2.1
  app := h.app

end SameCalls

/-! ### The invariant -/

/-- The invariant: the histories agree with the slots and with what the threads owe. -/
structure CallInv [DecidableEq κ] (p : State ι κ × (ℕ → SlotCalls κ)) : Prop where
  slot : ∀ k, (p.2 k).Agrees (p.1.slot k) (p.1.worker.owes k) fun a => (p.1.app a).owes k
  serving : ∀ k, p.1.worker.serving = some k → (p.1.slot k).connected = true

namespace CallInv

variable [DecidableEq κ] {s s' : State ι κ} {g : ℕ → SlotCalls κ}

theorem init : CallInv (({} : State ι κ), fun _ => {}) where
  slot _ := ⟨rfl, rfl, fun _ => rfl, rfl⟩
  serving := by rintro _ ⟨⟩

theorem callOrder (h : CallInv (s, g)) : CallOrder (s, g) := by
  intro k
  have hk := h.slot k
  refine ⟨hk.calls, Orderly.of_append (Option.isSome_iff_exists.2 ⟨_, hk.phase⟩)⟩

/-- A step that causes and starts no callback. -/
theorem quiet (h : CallInv (s, g)) (hs : SameCalls s s')
    (hw : ∀ k, s'.worker.owes k = s.worker.owes k)
    (hserv : ∀ k, s'.worker.serving = some k →
      s.worker.serving = some k ∨ (s.slot k).connected = true) : CallInv (s', g) where
  slot k := by
    have hk := hs.slot k
    simp only [Slot.shown, Prod.mk.injEq] at hk
    change (g k).Agrees (s'.slot k) (s'.worker.owes k) fun a => (s'.app a).owes k
    rw [hw, hs.app]
    have hg := h.slot k
    exact ⟨hk.1.trans hg.calls, hg.worker, hg.app, by rw [hk.2]; exact hg.phase⟩
  serving k hk := by
    have hcon := congrArg Prod.snd (hs.slot k)
    simp only [Slot.shown] at hcon
    rw [hcon]
    exact (hserv k hk).elim (h.serving k) id

/-- The worker moves and owes nothing new. -/
theorem quietWorker (h : CallInv (s, g)) (hs : SameCalls s s')
    (hw : ∀ k, s'.worker.owes k = s.worker.owes k) (hserv : s'.worker.serving = none) :
    CallInv (s', g) :=
  h.quiet hs hw fun k hk => by rw [hserv] at hk; cases hk

/-- The worker changes slot `k`, and owes or starts a callback for it. -/
theorem workerMove (h : CallInv (s, g)) {k : ℕ} {sl : Slot κ} {g' : SlotCalls κ}
    (hslot : ∀ j, s'.slot j = (s.setSlot k sl).slot j) (happ : s'.app = s.app)
    (hk : g'.Agrees sl (s'.worker.owes k) fun a => (s.app a).owes k)
    (hj : ∀ j, j ≠ k → s'.worker.owes j = s.worker.owes j) (hserv : s'.worker.serving = none) :
    CallInv (s', Function.update g k g') where
  slot j := by
    change (Function.update g k g' j).Agrees (s'.slot j) (s'.worker.owes j) fun a =>
      (s'.app a).owes j
    rw [hslot, happ]
    by_cases hjk : j = k
    · subst hjk
      rw [Function.update_self, State.setSlot_slot_self]
      exact hk
    · rw [Function.update_of_ne hjk, State.setSlot_slot_of_ne s hjk, hj j hjk]
      exact h.slot j
  serving j hj := by
    rw [show s'.worker.serving = some j from hj] at hserv
    cases hserv

/-- The same for an application thread; the worker is not at work on the slot, or it stays as
connected as it was. -/
theorem appMove (h : CallInv (s, g)) {k : ℕ} {sl : Slot κ} {g' : SlotCalls κ} {a : κ} {t : App}
    (hslot : ∀ j, s'.slot j = (s.setSlot k sl).slot j) (hw : s'.worker = s.worker)
    (happ : s'.app = Function.update s.app a t)
    (hk : g'.Agrees sl (s.worker.owes k) fun b => (s'.app b).owes k)
    (hj : ∀ j, j ≠ k → t.owes j = (s.app a).owes j)
    (hserv : s.worker.serving = some k → sl.connected = true) :
    CallInv (s', Function.update g k g') where
  slot j := by
    change (Function.update g k g' j).Agrees (s'.slot j) (s'.worker.owes j) fun b =>
      (s'.app b).owes j
    rw [hslot, hw]
    by_cases hjk : j = k
    · subst hjk
      rw [Function.update_self, State.setSlot_slot_self]
      exact hk
    · rw [Function.update_of_ne hjk, State.setSlot_slot_of_ne s hjk]
      have hsame : (fun b => (s'.app b).owes j) = fun b => (s.app b).owes j := by
        funext b
        rw [happ]
        by_cases hb : b = a
        · rw [hb, Function.update_self, hj j hjk]
        · rw [Function.update_of_ne hb]
      rw [hsame]
      exact h.slot j
  serving j hj := by
    change (s'.slot j).connected = true
    rw [hslot]
    have hj' : s.worker.serving = some j := hw ▸ hj
    by_cases hjk : j = k
    · subst hjk
      rw [State.setSlot_slot_self]
      exact hserv hj'
    · rw [State.setSlot_slot_of_ne s hjk]
      exact h.serving j hj'

theorem noteCall_quiet {w : WaitOutcome} (hc : s.worker.changing = none)
    (hs : s.worker.starts = none) : noteCall s (.worker w : Label ι κ) s' g = g := by
  simp only [noteCall, hc, hs]

theorem noteCall_change {w : WaitOutcome} {k : ℕ} (hc : s.worker.changing = some k) :
    noteCall s (.worker w : Label ι κ) s' g =
      Function.update g k (s.causes k s'.worker (g k)) := by
  simp only [noteCall, hc]

theorem noteCall_start {w : WaitOutcome} {k : ℕ} (hc : s.worker.changing = none)
    (hs : s.worker.starts = some k) : noteCall s (.worker w : Label ι κ) s' g =
      Function.update g k ((g k).start .worker) := by
  simp only [noteCall, hc, hs]

/-- A step of the worker that causes and starts no callback. -/
theorem quietStep (h : CallInv (s, g)) {w : WaitOutcome}
    (hq : s.worker.Quiet s'.worker) (hs : SameCalls s s') (ht : s'.worker.serving = none) :
    CallInv (s', noteCall s (.worker w) s' g) := by
  rw [noteCall_quiet hq.changing hq.starts]
  exact h.quietWorker hs hq.owes ht

/-- The worker releases the mutex of a slot; it owes the callbacks of the messages it has received
meanwhile. -/
theorem drops (h : CallInv (s, g)) {k : ℕ} {t : Worker} {w : WaitOutcome}
    (hd : s.worker.Drops (s.slot k) k t) :
    CallInv ((s.unlock k).setWorker t,
      noteCall s (.worker w) ((s.unlock k).setWorker t) g) := by
  have r : SameCalls s ((s.unlock k).setWorker t) := SameCalls.refl.unlock.setWorker t
  have hk := h.slot k
  have hserv := h.serving k
  dsimp only at hk hserv
  generalize hs : s.worker = u at hd hk hserv
  cases hd with
  | unclaimed | seen =>
    exact h.quietStep ⟨by rw [hs]; rfl, by rw [hs]; rfl, by rw [hs]; exact fun _ => rfl⟩ r rfl
  | @kept expected orphaned hcas =>
    have hsame : s.causes k (.orphans orphaned) (g k) = g k := by
      simp [State.causes, hs, hcas]
    rw [noteCall_change (by rw [hs]; rfl)]
    change CallInv (_, Function.update g k (s.causes k (.orphans orphaned) (g k)))
    rw [hsame, Function.update_eq_self]
    exact h.quietWorker r (by rw [hs]; exact fun _ => rfl) rfl
  | @received left messages ids =>
    have hcon := hserv rfl
    rw [noteCall_change (by rw [hs]; rfl)]
    refine h.workerMove (fun _ => rfl) rfl ?_ (fun j hj => ?_) rfl
    · have := hk.oweWorker { s.slot k with lock := none }
        (messages.map fun m => .message m.payload) rfl ?_
      · simpa [State.causes, hs, State.setWorker, Worker.owes] using this
      · have hm := foldlM_messages (g k).opened (messages.map Message.payload)
        rw [List.map_map] at hm ⊢
        rw [hcon]
        exact hm
    · rw [hs]
      simp [State.setWorker, Worker.owes, hj.symm]

theorem workerStep (h : CallInv (s, g)) (hl : LockInv s) {cfg : Config ι} {l : Label ι κ}
    (hold : OldestFirst (s, g) l) (hm : WorkerMove cfg s l s') :
    CallInv (s', noteCall s l s' g) := by
  have r : SameCalls s s := .refl
  have quiet {t t' : Worker} (hs : s.worker = t) (hc : t.changing = none) (hst : t.starts = none)
      (ho : ∀ j, t'.owes j = t.owes j) : s.worker.Quiet t' := hs ▸ ⟨hc, hst, ho⟩
  have owed {t : Worker} (hs : s.worker = t) (k : ℕ) :
      (g k).Agrees (s.slot k) (t.owes k) fun a => (s.app a).owes k := hs ▸ h.slot k
  have serving {t : Worker} {k : ℕ} (hs : s.worker = t) (ht : t.serving = some k) :
      (s.slot k).connected = true := h.serving k (by dsimp only; rw [hs]; exact ht)
  cases hm with
  | goes hg => exact h.quietStep hg.quiet.1 (r.setWorker _) hg.quiet.2
  | @takes w k t hfree ht =>
    obtain ⟨hq, hserv⟩ := ht.quiet
    rw [noteCall_quiet hq.changing hq.starts]
    refine h.quiet ((r.lock _).setWorker _) hq.owes fun j hj => .inr ?_
    obtain ⟨rfl, hcon⟩ := hserv j hj
    exact hcon
  | drops hd => exact h.drops hd
  | checks hc => exact h.quietWorker (r.unlock.setWorker _) hc.owes hc.serving
  | @calls w k e t hc =>
    obtain ⟨hchange, hstarts, hk, hj, ht⟩ := hc.owed
    rw [noteCall_start hchange hstarts]
    exact h.workerMove (fun _ => rfl) rfl ((h.slot k).startWorker (hold k hstarts) hk) hj ht
  | @consumes handles e hs =>
    cases e <;> exact h.quietStep (quiet hs rfl rfl fun _ => rfl)
      ((r.setSlot (by rfl)).setWorker _) rfl
  | sees hs =>
    exact h.quietStep (quiet hs rfl rfl fun _ => rfl) ((r.setSlot (by rfl)).setWorker _) rfl
  | reclaims hs =>
    exact h.quietStep (quiet hs rfl rfl fun _ => rfl)
      ((r.setSlot (Slot.shown_reclaim ..)).unlock.setWorker _) rfl
  | loads hs | ackFails hs =>
    exact h.quietStep (quiet hs rfl rfl fun _ => rfl) (r.setWorker _) rfl
  | @orphans w k expected orphaned hs hcas =>
    have hcon := serving hs rfl
    rw [noteCall_change (by rw [hs]; rfl)]
    refine h.workerMove (fun _ => rfl) rfl ?_ (fun j hj => ?_) rfl
    · have := (owed hs k).oweWorker (s.slot k).releaseSlotClaim.close [.disconnect] rfl
        (by simp [nextPhase, hcon, Slot.close, Slot.disconnect])
      simpa [State.causes, hs, hcas, State.setWorker, Worker.owes] using this
    · rw [hs]
      simp [State.setWorker, Worker.owes, hj.symm]
  | orphanMarks hs =>
    exact h.quietStep (quiet hs rfl rfl fun _ => rfl) ((r.setSeg _).setWorker _) rfl
  | orphanMarked hs =>
    exact h.quietStep (quiet hs rfl rfl fun _ => rfl) ((r.setSeg _).unlock.setWorker _) rfl
  | @handshakes w k pc seg next hs =>
    rcases next with pc' | (e | u) <;>
      exact h.quietStep (quiet hs rfl rfl fun _ => rfl) ((r.setSlot (by rfl)).setWorker _) rfl
  | @accepts w k hs =>
    rw [noteCall_change (by rw [hs]; rfl)]
    refine h.workerMove (fun _ => rfl) rfl ?_ (fun j hj => ?_) rfl
    · have := (owed hs k).accept (s.slot k).accept rfl (hl.closing k (by rw [hs]; rfl)) rfl
      simpa [State.causes, hs, State.setWorker, Worker.owes] using this
    · rw [hs]
      simp [State.setWorker, Worker.owes, hj.symm]
  | refuses hs =>
    exact h.quietStep (quiet hs rfl rfl fun _ => rfl) ((r.setSlot (by rfl)).setWorker _) rfl
  | @receives w k left m messages rest ids hs =>
    have hsame : s.causes k (.receiving k left (messages ++ [m]) ids) (g k) = g k := by
      simp only [State.causes, hs]
    rw [noteCall_change (by rw [hs]; rfl)]
    change CallInv (_, Function.update g k (s.causes k (.receiving k left _ ids) (g k)))
    rw [hsame, Function.update_eq_self]
    refine h.quiet ((r.setSeg _).setWorker _) (by rw [hs]; exact fun _ => rfl) fun j hj => .inl ?_
    rw [hs]
    exact hj
  | @ends w k setBy hs _ hcon =>
    rw [noteCall_change (by rw [hs]; rfl)]
    refine h.workerMove (fun _ => rfl) rfl ?_ (fun j hj => ?_) rfl
    · have := (owed hs k).oweWorker { (s.slot k).close with lock := some .worker } [.disconnect]
        rfl (by simp [nextPhase, hcon, Slot.close, Slot.disconnect])
      simpa [State.causes, hs, hcon, State.setWorker, Worker.owes] using this
    · rw [hs]
      simp [State.setWorker, Worker.owes, hj.symm]
  | @clears w k setBy hs _ hcon =>
    have hsame : s.causes k (.marking k none .storeServer) (g k) = g k := by
      simp [State.causes, hs, hcon]
    rw [noteCall_change (by rw [hs]; rfl)]
    change CallInv (_, Function.update g k (s.causes k (.marking k none .storeServer) (g k)))
    rw [hsame, Function.update_eq_self]
    refine h.quietWorker ((r.setSlot ?_).setWorker _) (by rw [hs]; exact fun _ => rfl) rfl
    exact Prod.ext rfl hcon.symm
  | @marks w k ended pc pc' seg hs | @marked w k ended pc seg u hs =>
    cases ended <;>
      exact h.quietStep (quiet hs rfl rfl fun _ => rfl) ((r.setSeg _).setWorker _) rfl
  | @releases w k ended hs =>
    cases ended <;> exact h.quietStep (quiet hs rfl rfl fun _ => rfl)
      ((r.setSlot (by rfl)).unlock.setWorker _) rfl

/-- A thread moves and owes what it owed before. -/
theorem quietApp (h : CallInv (s, g)) {a : κ} {t : App} (hs : SameCalls s s')
    (hw : s'.worker = s.worker) (ht : ∀ k, t.owes k = (s.app a).owes k) :
    CallInv (s'.setApp a t, g) := by
  have hq : CallInv (s', g) := h.quiet hs (fun _ => by rw [hw]) fun k hk => .inl (hw ▸ hk)
  have hsame (k : ℕ) : (fun b => ((s'.setApp a t).app b).owes k) = fun b => (s'.app b).owes k := by
    funext b
    by_cases hb : b = a
    · subst hb
      simp [State.setApp, ht, hs.app]
    · simp [State.setApp, hb]
  refine ⟨fun k => ?_, hq.serving⟩
  have hk := hq.slot k
  dsimp only at hk ⊢
  rw [hsame]
  exact hk

theorem appStep (h : CallInv (s, g)) {a : κ} {w : WaitOutcome}
    (hold : OldestFirst (s, g) (.app a w)) (hst : s.appStep a w = some s') :
    CallInv (s', noteCall s (.app a w) s' g) := by
  have r : SameCalls s s := .refl
  have hquiet (hs : (s.app a).starts = none) : noteCall s (.app a w : Label ι κ) s' g = g := by
    simp only [noteCall, hs]
  rw [State.appStep] at hst
  cases hs : s.app a <;> simp only [hs] at hst
  case idle => cases hst
  case setEvent k ended =>
    rw [hquiet (by rw [hs]; rfl)]
    split at hst <;> cases hst <;>
      exact h.quietApp (r.setSlot (by rfl)) (by rfl) (by rw [hs]; exact fun _ => rfl)
  case marking k ended pc =>
    rw [hquiet (by rw [hs]; rfl)]
    split at hst <;> cases hst <;>
      exact h.quietApp (r.setSeg _) (by rfl) (by rw [hs]; exact fun _ => rfl)
  case release k ended =>
    rw [hquiet (by rw [hs]; rfl)]
    cases hst
    exact h.quietApp (SameCalls.unlock (r.setSlot (by rfl))) (by rfl)
      (by rw [hs]; exact fun _ => rfl)
  case callDisconnect k =>
    cases hst
    have hstarts : (s.app a).starts = some k := by rw [hs]; rfl
    simp only [noteCall, hstarts]
    refine h.appMove (fun _ => rfl) rfl rfl ?_ (fun j hj => ?_) (h.serving k)
    · refine (h.slot k).startApp (hold k hstarts) [] ?_ ?_ fun b hb => ?_
      · simp [hs, App.owes]
      · simp [State.setApp, App.owes]
      · simp [State.setApp, State.call, State.setSlot, hb]
    · rw [hs]
      simp [App.owes, hj.symm]

theorem disconnectClient (h : CallInv (s, g)) (hl : LockInv s) {a : κ} {k : ℕ}
    (ha : s.app a = .idle) (hlock : (s.slot k).lock = none) (hcon : (s.slot k).connected = true) :
    CallInv (((s.endSession k).setSlot k
      { (s.slot k).disconnect with lock := some (.app a) }).setApp a
        (.setEvent k (s.slot k).session),
      Function.update g k ((g k).owe (.app a) [.disconnect])) := by
  refine h.appMove (fun _ => rfl) rfl rfl ?_ (fun j hj => ?_) fun hserv => ?_
  · refine (h.slot k).oweApp rfl hcon rfl ?_ fun b hb => ?_
    · simp [State.setApp, ha, App.owes]
    · simp [State.setApp, State.endSession, State.revoke, State.setSlot, hb]
  · rw [ha]
    simp [App.owes, hj.symm]
  · cases hlock.symm.trans (hl.worker k (Worker.holding_of_serving hserv))

theorem step [DecidableEq ι] (h : CallInv (s, g)) (hl : LockInv s) {cfg : Config ι}
    {l : Label ι κ} (hold : OldestFirst (s, g) l) (hst : s.step cfg l = some s') :
    CallInv (s', noteCall s l s' g) := by
  have r : SameCalls s s := .refl
  cases l <;> simp only [State.step] at hst
  case stop | exit | tick =>
    cases hst
    exact h.quiet ⟨fun _ => rfl, rfl⟩ (fun _ => rfl) fun k hk => .inl hk
  case worker w => exact h.workerStep hl hold (workerStep_move hst)
  case alive b => exact h.workerStep hl hold (aliveStep_move cfg hst)
  case disconnectClient a k =>
    split_ifs at hst with hk hc <;> cases hst <;> simp only [noteCall, hc]
    · exact h.disconnectClient hl hk.1 hk.2.2 hc
    · exact h
  case app a w => exact h.appStep hold hst
  case sendTo k p =>
    split_ifs at hst <;> cases hst
    · exact h.quiet (r.setSeg _) (fun _ => rfl) fun k hk => .inl hk
    · exact h
  case shutdown c =>
    cases hst
    exact h.quiet (r.setClient _ _) (fun _ => rfl) fun k hk => .inl hk
  case client c o =>
    split_ifs at hst
    have hs := clientStep_sameServer hst
    exact h.quiet (.of_sameServer hs) (fun _ => by rw [hs.worker]) fun k hk => .inl (hs.worker ▸ hk)

end CallInv

/-! ### Every run -/

variable [DecidableEq ι] [DecidableEq κ]

instance (p : State ι κ × (ℕ → SlotCalls κ)) (l : Label ι κ) : Decidable (OldestFirst p l) := by
  unfold OldestFirst
  split <;> infer_instance

/-- **The order of the callbacks.**  If a callback for a slot starts only when none is owed for an
earlier change of the slot, then the callbacks that have started are those of its sessions, in
order. -/
theorem callOrder_of_oldestFirst {cfg : Config ι} {p : State ι κ × (ℕ → SlotCalls κ)}
    (h : (callSystem ι κ cfg).ReachWhen OldestFirst p) : CallOrder p := by
  have hi : LockInv p.1 ∧ CallInv p := by
    refine h.invariant (I := fun p => LockInv p.1 ∧ CallInv p) ?_ ?_
    · rintro ⟨s, g⟩ ⟨rfl, rfl⟩
      exact ⟨.init, .init⟩
    · rintro ⟨s, g⟩ l ⟨s', g'⟩ ⟨hl, hc⟩ hold hst
      obtain ⟨hs, hg⟩ := System.withHistory_step.1 hst
      dsimp only at hs hg
      subst hg
      exact ⟨hl.step hs, hc.step hl hold hs⟩
  exact hi.2.callOrder

/-- A client connects, sends a message, which is delivered, and leaves. -/
def conversation : List (Label Unit Unit) :=
  openSession () 5 ++ [.client () .proceed, .client () (.send [1, 2]), .client () .proceed,
    .client () .proceed] ++ connectedPass ++ work 6 ++ .client () (.any .other) :: leave () ++
    work 14

theorem callOrder_of_oldestFirst_conversation :
    ∃ p : State Unit Unit × (ℕ → SlotCalls Unit),
      (p.1.slot 0).calls = [.connect, .message [1, 2], .disconnect] ∧ CallOrder p := by
  obtain ⟨p, h, hp⟩ := System.exists_reachWhen (A := callSystem Unit Unit (oneSlot Unit))
    (C := OldestFirst) (s := ({}, fun _ => {})) (r := conversation)
    (f := fun p => (p.1.slot 0).calls) (t := [.connect, .message [1, 2], .disconnect])
    ⟨rfl, rfl⟩ (by decide +kernel)
  exact ⟨p, hp, callOrder_of_oldestFirst h⟩

/-- The worker has opened a session and is about to call `on_client_connect`; a thread ends the
session with `disconnect_client` and calls `on_client_disconnect`. -/
def overtaken : List (Label Unit Unit) :=
  claimSlot () 5 ++ List.replicate 4 (.client () (.wait .signalled)) ++ work 20 ++
    .disconnectClient () 0 :: List.replicate 7 (.app () .signalled)

/-- `on_client_disconnect` is called before `on_client_connect`. -/
theorem not_callOrder : ¬ ∀ (ι κ : Type) [DecidableEq ι] [DecidableEq κ] (cfg : Config ι)
    (p : State ι κ × (ℕ → SlotCalls κ)), (callSystem ι κ cfg).Reach p → CallOrder p := by
  intro h
  obtain ⟨p, hr, hp⟩ := System.exists_reachWhen (A := callSystem Unit Unit (oneSlot Unit))
    (C := fun _ _ => True) (s := ({}, fun _ => {})) (r := overtaken)
    (f := fun p => (p.2 0).calls.started) (t := [(1, .disconnect)]) ⟨rfl, rfl⟩ (by decide +kernel)
  have horder := (h Unit Unit _ p hr 0).2
  rw [hp] at horder
  exact absurd horder (by decide)

end Multi

end Xshm
