import Xshm.Multi.Moves
import Xshm.Multi.Turns

/-!
# What `wait_any` waits for

Before each wait the worker goes through the slots and collects the events to wait for: `c2s.data`
and `disconnect` of a connected slot, `connect_req` of another one.  An application thread may end
a session meanwhile, or during the wait, but only the worker opens one, so that no connected slot
is ever left unwatched.

* `State.watches` : every wait is for at most `2 * max_clients` events, no two of them the same, and
  both events of every connected slot are among them.
-/

namespace Xshm

namespace Multi

variable {ι κ : Type*}

/-- The slot of an event. -/
def EventSource.slotId : EventSource → ℕ
  | .slotConnect k | .slotData k | .slotDisconnect k => k

/-- The events to wait for in a slot. -/
def slotSources (connected : Bool) (k : ℕ) : List EventSource :=
  if connected then [.slotData k, .slotDisconnect k] else [.slotConnect k]

/-- The events of the slots before `k`, if `c` says which of them were connected. -/
def sources (c : ℕ → Bool) (k : ℕ) : List EventSource :=
  (List.range k).flatMap fun j => slotSources (c j) j

/-- The slots that have been gone through for the next wait, and the events of them. -/
def Worker.watching (cfg : Config ι) : Worker → Option (ℕ × List EventSource)
  | .collect k handles => some (k, handles)
  | .waitAny handles => some (cfg.maxClients, handles)
  | _ => none

/-! ### Events of slots -/

theorem sources_succ (c : ℕ → Bool) (k : ℕ) :
    sources c (k + 1) = sources c k ++ slotSources (c k) k := by
  rw [sources, List.range_succ, List.flatMap_append, List.flatMap_singleton]
  rfl

theorem slotId_of_mem_slotSources {connected : Bool} {k : ℕ} {e : EventSource}
    (h : e ∈ slotSources connected k) : e.slotId = k := by
  cases connected with
  | false =>
    cases List.mem_singleton.1 h
    rfl
  | true =>
    rcases List.mem_cons.1 h with rfl | h
    · rfl
    · cases List.mem_singleton.1 h
      rfl

theorem mem_sources {c : ℕ → Bool} {k : ℕ} {e : EventSource} :
    e ∈ sources c k ↔ e.slotId < k ∧ e ∈ slotSources (c e.slotId) e.slotId := by
  rw [sources, List.mem_flatMap]
  constructor
  · rintro ⟨j, hj, he⟩
    obtain rfl := slotId_of_mem_slotSources he
    exact ⟨List.mem_range.1 hj, he⟩
  · rintro ⟨hk, he⟩
    exact ⟨_, List.mem_range.2 hk, he⟩

theorem length_sources_le (c : ℕ → Bool) (k : ℕ) : (sources c k).length ≤ 2 * k := by
  induction k with
  | zero => exact le_rfl
  | succ k ih =>
    have hone : (slotSources (c k) k).length ≤ 2 := by
      cases hc : c k <;> simp [slotSources]
    rw [sources_succ, List.length_append]
    omega

theorem nodup_sources (c : ℕ → Bool) (k : ℕ) : (sources c k).Nodup := by
  induction k with
  | zero => exact List.nodup_nil
  | succ k ih =>
    rw [sources_succ]
    refine List.Nodup.append ih ?_ fun e he he' => ?_
    · cases hc : c k <;> simp [slotSources]
    · have hlt := (mem_sources.1 he).1
      rw [slotId_of_mem_slotSources he'] at hlt
      exact absurd hlt (Nat.lt_irrefl k)

theorem sources_congr {c c' : ℕ → Bool} {k : ℕ} (h : ∀ j < k, c j = c' j) :
    sources c k = sources c' k := by
  induction k with
  | zero => rfl
  | succ k ih =>
    rw [sources_succ, sources_succ, ih fun j hj => h j (Nat.lt_succ_of_lt hj),
      h k (Nat.lt_succ_self k)]

/-! ### The invariant -/

section Steps

variable {cfg : Config ι} {s s' : State ι κ}

/-- `handles` are the events of the slots before `k`; each slot that is connected now was connected
when the worker went through it. -/
structure Watches (cfg : Config ι) (s : State ι κ) (k : ℕ) (handles : List EventSource)
    (c : ℕ → Bool) : Prop where
  le : k ≤ cfg.maxClients
  handles_eq : handles = sources c k
  connected : ∀ j < k, (s.slot j).connected = true → c j = true

/-- What a step of the worker does to the events it has collected. -/
inductive Collects (cfg : Config ι) (s s' : State ι κ) : Prop
  | leaves : s'.worker.watching cfg = none → Collects cfg s s'
  | starts : s'.worker = .collect 0 [] → Collects cfg s s'
  | slot {k : ℕ} {handles : List EventSource} : s.worker = .collect k handles →
    k < cfg.maxClients → s'.slot = s.slot →
    s'.worker = .collect (k + 1) (handles ++ slotSources (s.slot k).connected k) →
    Collects cfg s s'
  | waits {k : ℕ} {handles : List EventSource} : s.worker = .collect k handles →
    cfg.maxClients ≤ k → s'.slot = s.slot → s'.worker = .waitAny handles → Collects cfg s s'

theorem WorkerMove.collects {l : Label ι κ} (hm : WorkerMove cfg s l s') : Collects cfg s s' := by
  cases hm with
  | @goes w t hg =>
    generalize hs : s.worker = u at hg
    cases hg with
    | handled => exact .starts rfl
    | @collect k handles hk =>
      refine .slot hs hk rfl ?_
      cases hcon : (s.slot k).connected <;> rfl
    | collected hk => exact .waits hs hk rfl rfl
    | _ => exact .leaves rfl
  | takes _ ht =>
    generalize s.worker = u at ht
    cases ht <;> exact .leaves rfl
  | drops hd =>
    generalize s.worker = u at hd
    cases hd <;> exact .leaves rfl
  | checks hc =>
    generalize s.worker = u at hc
    cases hc <;> exact .leaves rfl
  | calls hc =>
    generalize s.worker = u at hc
    cases hc <;> exact .leaves rfl
  | @consumes _ e => cases e <;> exact .leaves rfl
  | @handshakes w k pc seg next => rcases next with pc' | (e | u) <;> exact .leaves rfl
  | releases =>
    refine .leaves ?_
    dsimp only [State.setWorker]
    split_ifs <;> rfl
  | _ => exact .leaves rfl

variable [DecidableEq ι] [DecidableEq κ]

/-- Only the worker opens sessions, and not while it collects events or waits. -/
theorem connected_of_watching {l : Label ι κ} (hst : s.step cfg l = some s') {k : ℕ}
    (hw : (s.worker.watching cfg).isSome) (hc : (s'.slot k).connected = true) :
    (s.slot k).connected = true := by
  have hmove := step_slotMove hst k
  generalize hv : (s'.slot k).view = v at hmove
  have hc' : v.connected = true := by rw [← hv]; exact hc
  cases hmove with
  | opens hs =>
    rw [hs] at hw
    cases hw
  | ends => cases hc'
  | _ => exact hc'

/-- What the worker has collected is what there is to wait for. -/
def State.Watching (cfg : Config ι) (s : State ι κ) : Prop :=
  ∀ k handles, s.worker.watching cfg = some (k, handles) → ∃ c, Watches cfg s k handles c

theorem State.Watching.step {l : Label ι κ} (h : s.Watching cfg) (hst : s.step cfg l = some s') :
    s'.Watching cfg := by
  intro k handles hk
  have hsame (hw : s'.worker = s.worker) : ∃ c, Watches cfg s' k handles c := by
    rw [hw] at hk
    obtain ⟨c, hle, heq, hcon⟩ := h k handles hk
    refine ⟨c, hle, heq, fun j hj hc => hcon j hj ?_⟩
    exact connected_of_watching hst (by rw [hk]; rfl) hc
  have hturn : Turn cfg s s' l := step_turn hst
  cases hturn with
  | app ht => exact hsame ht.worker
  | enters _ _ _ _ _ _ _ _ hworker _ => exact hsame hworker
  | quiet _ hq => exact hsame hq.worker
  | worker hm _ =>
    cases hm.collects with
    | leaves hnone => cases hnone.symm.trans hk
    | starts hw =>
      rw [hw] at hk
      cases hk
      exact ⟨fun _ => false, Nat.zero_le _, rfl, fun j hj => absurd hj (Nat.not_lt_zero j)⟩
    | @slot j handles' hs hj hslot hw =>
      rw [hw] at hk
      cases hk
      obtain ⟨c, -, heq, hcon⟩ := h j handles' (by rw [hs]; rfl)
      refine ⟨Function.update c j (s.slot j).connected, hj, ?_, fun i hi hc => ?_⟩
      · have hrest : sources (Function.update c j (s.slot j).connected) j = sources c j :=
          sources_congr fun i hi => Function.update_of_ne (Nat.ne_of_lt hi) _ _
        rw [sources_succ, hrest, Function.update_self, heq]
      · rw [hslot] at hc
        by_cases hij : i = j
        · subst hij
          rwa [Function.update_self]
        · rw [Function.update_of_ne hij]
          exact hcon i (by omega) hc
    | @waits j handles' hs hj hslot hw =>
      rw [hw] at hk
      cases hk
      obtain ⟨c, hle, heq, hcon⟩ := h j handles (by rw [hs]; rfl)
      obtain rfl := Nat.le_antisymm hle hj
      refine ⟨c, le_rfl, heq, fun i hi hc => ?_⟩
      rw [hslot] at hc
      exact hcon i hi hc

theorem watching_of_reach (h : (system κ cfg).Reach s) : s.Watching cfg :=
  h.invariant (by rintro _ rfl _ _ ⟨⟩) fun _ _ _ hi _ hst => hi.step hst

/-- **No connected slot is left unwatched.**  Every wait is for at most `2 * max_clients` events, no
two of them the same, all of them of slots of the server; both `c2s.data` and `disconnect` of every
connected slot are among them, and of the other slots these two or `connect_req`. -/
theorem State.watches (h : (system κ cfg).Reach s) {handles : List EventSource}
    (hw : s.worker = .waitAny handles) :
    handles.length ≤ 2 * cfg.maxClients ∧ handles.Nodup ∧
      (∀ e ∈ handles, e.slotId < cfg.maxClients) ∧
      ∀ k < cfg.maxClients,
        EventSource.slotData k ∈ handles ∧ EventSource.slotDisconnect k ∈ handles ∨
          (s.slot k).connected = false ∧ EventSource.slotConnect k ∈ handles := by
  obtain ⟨c, -, rfl, hcon⟩ := watching_of_reach h cfg.maxClients handles (by rw [hw]; rfl)
  refine ⟨length_sources_le _ _, nodup_sources _ _, fun e he => (mem_sources.1 he).1,
    fun k hk => ?_⟩
  cases hc : c k with
  | true =>
    refine .inl ⟨mem_sources.2 ⟨hk, ?_⟩, mem_sources.2 ⟨hk, ?_⟩⟩
    · simp [EventSource.slotId, slotSources, hc]
    · simp [EventSource.slotId, slotSources, hc]
  | false =>
    refine .inr ⟨Bool.eq_false_iff.2 fun hcon' => ?_, mem_sources.2 ⟨hk, ?_⟩⟩
    · cases hc.symm.trans (hcon k hk hcon')
    · simp [EventSource.slotId, slotSources, hc]

/-- A session is open, and the worker waits for its events. -/
theorem State.watches_session : ∃ s : State Unit Unit,
    s.worker = .waitAny [.slotData 0, .slotDisconnect 0] ∧ (s.slot 0).connected = true ∧
      ∀ k < 1, EventSource.slotData k ∈ [EventSource.slotData 0, .slotDisconnect 0] ∧
          EventSource.slotDisconnect k ∈ [EventSource.slotData 0, .slotDisconnect 0] ∨
        (s.slot k).connected = false ∧
          EventSource.slotConnect k ∈ [EventSource.slotData 0, .slotDisconnect 0] := by
  obtain ⟨s, h, hs⟩ := System.exists_reachWhen (A := system Unit (oneSlot Unit))
    (C := fun _ _ => True) (s := {}) (r := openSession () 5 ++ connectedPass)
    (f := fun s => (s.worker, (s.slot 0).connected))
    (t := (.waitAny [.slotData 0, .slotDisconnect 0], true)) rfl (by decide +kernel)
  simp only [Prod.mk.injEq] at hs
  exact ⟨s, hs.1, hs.2, (State.watches h hs.1).2.2.2⟩

end Steps

end Multi

end Xshm
