import Xshm.Multi.Turns

/-!
# `stop` of a multi-client server returns

`MultiServer::stop` clears `running` and joins the worker.  The mutexes of the slots are also taken
by the threads that call `send_to`, `broadcast`, `connected_clients`, `client_count` and
`is_client_connected`; each of them holds one mutex at a time, for a few steps, and may come back at
once.  A mutex of the standard library is not fair, so such threads can keep the worker from it as
long as they win every race; the worker gets it if the execution is strongly fair to it.  What the
calls return is left out.

* `Server.noDeadlock` : the worker can go on, or it waits for a mutex whose holder can.
* `stop_returns` : in every execution that is strongly fair to the worker and fair to the threads
  that hold a mutex the worker ends after `running` has been cleared.  Each of its steps brings the
  end nearer (`Worker.left`), and a mutex it waits for is released (`Server.frees`).
-/

namespace Xshm

namespace Multi

variable {ι κ ν : Type*}

/-- A call that locks slots only to look at them or to send. -/
inductive Call where
  | sendTo (clientId : ℕ) (data : Payload)
  | broadcast (data : Payload)
  | connectedClients
  | clientCount
  /-- Also `disconnect_client` for a client that is not connected. -/
  | isClientConnected (clientId : ℕ)

/-- Program points of such a call: slot `k` and the `n` slots behind it, or from it on, are left. -/
inductive Caller where
  | idle
  | locking (k n : ℕ) (data : Option Payload)
  | inside (k n : ℕ) (data : Option Payload)
  | leaving (k n : ℕ) (data : Option Payload)
  deriving DecidableEq

/-- The slot whose mutex the thread holds. -/
def Caller.holding : Caller → Option ℕ
  | .inside k .. | .leaving k .. => some k
  | _ => none

/-- The steps up to the release of the mutex. -/
def Caller.left : Caller → ℕ
  | .inside .. => 2
  | .leaving .. => 1
  | _ => 0

/-- The slots of the call are slots of the server. -/
def Caller.Within (maxClients : ℕ) : Caller → Prop
  | .idle => True
  | .locking k n _ => n = 0 ∨ k + n ≤ maxClients
  | .inside k n _ | .leaving k n _ => k + n < maxClients

/-- The call begins. -/
def Call.start (maxClients : ℕ) : Call → Caller
  | .sendTo k data => .locking k (if k < maxClients then 1 else 0) (some data)
  | .broadcast data => .locking 0 maxClients (some data)
  | .connectedClients | .clientCount => .locking 0 maxClients none
  | .isClientConnected k => .locking k (if k < maxClients then 1 else 0) none

theorem Call.start_within (maxClients : ℕ) (c : Call) : (c.start maxClients).Within maxClients := by
  cases c <;> simp only [start, Caller.Within]
  case sendTo k data | isClientConnected k =>
    split_ifs with hk
    · exact .inr hk
    · exact .inl rfl
  all_goals exact .inr (Nat.le_of_eq (Nat.zero_add _))

theorem Call.start_holding (maxClients : ℕ) (c : Call) : (c.start maxClients).holding = none := by
  cases c <;> rfl

/-- A server with the threads in such calls, and which of them is inside the mutex of a slot. -/
structure Server (ι κ ν : Type*) where
  base : State ι κ := {}
  mutex : ℕ → Option ν := fun _ => none
  caller : ν → Caller := fun _ => .idle

/-- Who moves. -/
inductive ServerLabel (ι κ ν : Type*) where
  | base (l : Label ι κ)
  | call (v : ν) (c : Call)
  | caller (v : ν)

/-- The slot whose mutex a step takes. -/
def Label.takes (cfg : Config ι) (s : State ι κ) : Label ι κ → Option ℕ
  | .worker _ | .alive _ => s.worker.wants cfg
  | .disconnectClient _ k | .sendTo k _ => some k
  | _ => none

section Steps

variable [DecidableEq ι] [DecidableEq κ] [DecidableEq ν]

def Server.setCaller (s : Server ι κ ν) (v : ν) (t : Caller) : Server ι κ ν :=
  { s with caller := Function.update s.caller v t }

def Server.setMutex (s : Server ι κ ν) (k : ℕ) (o : Option ν) : Server ι κ ν :=
  { s with mutex := Function.update s.mutex k o }

/-- One step. -/
def Server.step (cfg : Config ι) (s : Server ι κ ν) :
    ServerLabel ι κ ν → Option (Server ι κ ν)
  | .base l =>
    if ∀ k ∈ l.takes cfg s.base, s.mutex k = none then
      (s.base.step cfg l).map fun b => { s with base := b }
    else none
  | .call v c =>
    if s.caller v = .idle then some (s.setCaller v (c.start cfg.maxClients)) else none
  | .caller v =>
    match s.caller v with
    | .idle => none
    | .locking _ 0 _ => some (s.setCaller v .idle)
    | .locking k (n + 1) data =>
      if s.mutex k = none ∧ (s.base.slot k).lock = none then
        some ((s.setMutex k (some v)).setCaller v (.inside k n data))
      else none
    | .inside k n none => some (s.setCaller v (.leaving k n none))
    | .inside k n (some p) =>
      (s.base.step cfg (.sendTo k p)).map fun b =>
        { s with base := b }.setCaller v (.leaving k n (some p))
    | .leaving k n data => some ((s.setMutex k none).setCaller v (.locking (k + 1) n data))

end Steps

/-- A server that has just been started, its clients and its callers. -/
def server {ι : Type*} (κ ν : Type*) [DecidableEq ι] [DecidableEq κ] [DecidableEq ν]
    (cfg : Config ι) : System (Server ι κ ν) (ServerLabel ι κ ν) where
  init s := s = {}
  step s := s.step cfg

/-! ### Who is inside -/

section Inside

variable [DecidableEq ι] [DecidableEq κ] [DecidableEq ν] {cfg : Config ι} {s s' : Server ι κ ν}

/-- A mutex that a caller holds is free for the others, and the callers that hold one are inside. -/
structure CallerInv (cfg : Config ι) (s : Server ι κ ν) : Prop where
  reach : (system κ cfg).Reach s.base
  mutex : ∀ k v, s.mutex k = some v ↔ (s.caller v).holding = some k
  free : ∀ k v, s.mutex k = some v → (s.base.slot k).lock = none
  within : ∀ v, (s.caller v).Within cfg.maxClients

namespace CallerInv

omit [DecidableEq ν] in
theorem init : CallerInv cfg ({} : Server ι κ ν) where
  reach := .init rfl
  mutex k v := ⟨by rintro ⟨⟩, by rintro ⟨⟩⟩
  free := by rintro _ _ ⟨⟩
  within _ := trivial

omit [DecidableEq ι] [DecidableEq κ] in
theorem within_update {f : ν → Caller} {v : ν} {t : Caller} (ht : t.Within cfg.maxClients)
    (hf : ∀ w, (f w).Within cfg.maxClients) (w : ν) :
    (Function.update f v t w).Within cfg.maxClients := by
  by_cases hw : w = v
  · subst hw
    rwa [Function.update_self]
  · rw [Function.update_of_ne hw]
    exact hf w

/-- A caller that stays inside, or outside. -/
theorem setCaller (h : CallerInv cfg s) {v : ν} {t : Caller}
    (ht : t.holding = (s.caller v).holding) (hw : t.Within cfg.maxClients) :
    CallerInv cfg (s.setCaller v t) where
  reach := h.reach
  mutex k w := by
    change s.mutex k = some w ↔ (Function.update s.caller v t w).holding = some k
    rw [h.mutex]
    by_cases hwv : w = v
    · subst hwv
      rw [Function.update_self, ht]
    · rw [Function.update_of_ne hwv]
  free := h.free
  within := within_update hw h.within

/-- A caller takes a mutex that is free. -/
theorem take (h : CallerInv cfg s) {k : ℕ} {v : ν} {t : Caller} (hk : s.mutex k = none)
    (hlock : (s.base.slot k).lock = none) (hv : (s.caller v).holding = none)
    (ht : t.holding = some k) (hw : t.Within cfg.maxClients) :
    CallerInv cfg ((s.setMutex k (some v)).setCaller v t) where
  reach := h.reach
  mutex j w := by
    change Function.update s.mutex k (some v) j = some w ↔
      (Function.update s.caller v t w).holding = some j
    by_cases hj : j = k
    · subst hj
      rw [Function.update_self]
      by_cases hwv : w = v
      · subst hwv
        rw [Function.update_self, ht]
        exact iff_of_true rfl rfl
      · rw [Function.update_of_ne hwv, ← h.mutex, hk]
        refine iff_of_false (fun he => hwv ?_) (by rintro ⟨⟩)
        cases he
        rfl
    · rw [Function.update_of_ne hj, h.mutex]
      by_cases hwv : w = v
      · subst hwv
        rw [Function.update_self, hv, ht]
        refine iff_of_false (by rintro ⟨⟩) fun he => hj ?_
        cases he
        rfl
      · rw [Function.update_of_ne hwv]
  free j w hw' := by
    by_cases hj : j = k
    · exact hj ▸ hlock
    · exact h.free j w ((Function.update_of_ne hj _ _).symm.trans hw')
  within := within_update hw h.within

/-- A caller releases the mutex that it holds. -/
theorem drop (h : CallerInv cfg s) {k : ℕ} {v : ν} {t : Caller}
    (hv : (s.caller v).holding = some k) (ht : t.holding = none) (hw : t.Within cfg.maxClients) :
    CallerInv cfg ((s.setMutex k none).setCaller v t) where
  reach := h.reach
  mutex j w := by
    change Function.update s.mutex k none j = some w ↔
      (Function.update s.caller v t w).holding = some j
    by_cases hwv : w = v
    · subst hwv
      rw [Function.update_self, ht]
      refine iff_of_false (fun he => ?_) (by rintro ⟨⟩)
      by_cases hj : j = k
      · rw [hj, Function.update_self] at he
        cases he
      · rw [Function.update_of_ne hj, h.mutex, hv] at he
        cases he
        exact hj rfl
    · rw [Function.update_of_ne hwv, ← h.mutex]
      by_cases hj : j = k
      · subst hj
        rw [Function.update_self, (h.mutex j v).2 hv]
        refine iff_of_false (by rintro ⟨⟩) fun he => hwv ?_
        cases he
        rfl
      · rw [Function.update_of_ne hj]
  free j w hw' := by
    change Function.update s.mutex k none j = some w at hw'
    by_cases hj : j = k
    · rw [hj, Function.update_self] at hw'
      cases hw'
    · exact h.free j w ((Function.update_of_ne hj _ _).symm.trans hw')
  within := within_update hw h.within

omit [DecidableEq ν] in
/-- The others take no mutex that a caller holds. -/
theorem lock_of_step (h : CallerInv cfg s) {l : Label ι κ} {b : State ι κ}
    (hl : ∀ k ∈ l.takes cfg s.base, s.mutex k = none) (hst : s.base.step cfg l = some b) {k : ℕ}
    {v : ν} (hk : s.mutex k = some v) : (b.slot k).lock = none := by
  have hfree := h.free k v hk
  have hnot {o : Owner κ} (ho : s.base.holding o = some k) : False := by
    cases hfree.symm.trans ((State.lock_iff h.reach k o).2 ho)
  have hturn : Turn cfg s.base b l := step_turn hst
  cases hturn with
  | worker hm ht =>
    rcases ht.lock k with hin | hnone | ⟨-, hsame⟩
    · rcases ht.takes k hin with hold | hwants
      · exact (hnot (o := .worker) hold).elim
      · have hnone : s.mutex k = none := by
          cases l <;> first | exact hl k hwants | cases hm
        cases hk.symm.trans hnone
    · exact hnone
    · exact hsame.trans hfree
  | @app a w ht =>
    have hlock := ht.lock k
    rw [if_neg (show (s.base.app a).holding ≠ some k from hnot (o := .app a))] at hlock
    exact hlock.2.trans hfree
  | @enters a j sl t _ _ _ _ _ _ hslot =>
    have hj : k ≠ j := by
      rintro rfl
      cases hk.symm.trans (hl k rfl)
    rw [hslot, Function.update_of_ne hj]
    exact hfree
  | quiet _ hq => exact (hq.lock k).trans hfree

theorem step (h : CallerInv cfg s) {l : ServerLabel ι κ ν}
    (hst : (server κ ν cfg).step s l = some s') : CallerInv cfg s' := by
  change s.step cfg l = some s' at hst
  cases l with
  | base l =>
    rw [Server.step, Option.ite_none_right_eq_some] at hst
    obtain ⟨hl, hst⟩ := hst
    obtain ⟨b, hb, rfl⟩ := Option.map_eq_some_iff.1 hst
    exact { h with
      reach := h.reach.step hb
      free := fun k v hk => h.lock_of_step hl hb hk }
  | call v c =>
    rw [Server.step, Option.ite_none_right_eq_some] at hst
    obtain ⟨hidle, hst⟩ := hst
    cases hst
    refine h.setCaller ?_ (c.start_within _)
    rw [c.start_holding, hidle]
    rfl
  | caller v =>
    have hw := h.within v
    rw [Server.step] at hst
    cases hv : s.caller v with
    | idle =>
      simp only [hv] at hst
      cases hst
    | locking k n data =>
      cases n with
      | zero =>
        simp only [hv] at hst
        cases hst
        exact h.setCaller (by rw [hv]; rfl) trivial
      | succ n =>
        simp only [hv] at hst hw
        rw [Option.ite_none_right_eq_some] at hst
        obtain ⟨⟨hk, hlock⟩, hst⟩ := hst
        cases hst
        refine h.take hk hlock (by rw [hv]; rfl) rfl ?_
        exact hw.resolve_left (Nat.succ_ne_zero n)
    | inside k n data =>
      rw [hv] at hw
      cases data with
      | none =>
        simp only [hv] at hst
        cases hst
        exact h.setCaller (by rw [hv]; rfl) hw
      | some p =>
        simp only [hv] at hst
        obtain ⟨b, hb, rfl⟩ := Option.map_eq_some_iff.1 hst
        have hreach : (system κ cfg).Reach b := h.reach.step (l := .sendTo k p) hb
        have hturn : Turn cfg s.base b (.sendTo k p) := step_turn hb
        have hbase : CallerInv cfg { s with base := b } := { h with
          reach := hreach
          free := fun j v hj => by
            cases hturn with
            | worker hm => cases hm
            | quiet _ hq => exact (hq.lock j).trans (h.free j v hj) }
        exact hbase.setCaller (by change _ = (s.caller v).holding; rw [hv]; rfl) hw
    | leaving k n data =>
      rw [hv] at hw
      simp only [hv] at hst
      cases hst
      refine h.drop (by rw [hv]; rfl) rfl (.inr ?_)
      have hw : k + n < cfg.maxClients := hw
      omega

end CallerInv

theorem callerInv_of_reach (h : (server κ ν cfg).Reach s) : CallerInv cfg s :=
  h.invariant (fun s (h₀ : s = {}) => h₀ ▸ CallerInv.init) fun _ _ _ hi _ hst => hi.step hst

/-- **A mutex is held by the thread that is inside**, and by no other. -/
theorem Server.held_iff (h : (server κ ν cfg).Reach s) (k : ℕ) :
    (∀ v, s.mutex k = some v ↔ (s.caller v).holding = some k) ∧
      (∀ o, (s.base.slot k).lock = some o ↔ s.base.holding o = some k) ∧
      (s.mutex k = none ∨ (s.base.slot k).lock = none) := by
  have hi := callerInv_of_reach h
  refine ⟨hi.mutex k, State.lock_iff hi.reach k, ?_⟩
  cases hk : s.mutex k with
  | none => exact .inl rfl
  | some v => exact .inr (hi.free k v hk)

end Inside

/-! ### Nobody is stuck -/

/-- The threads of a server. -/
inductive Thread (κ ν : Type*) where
  | worker
  | app (a : κ)
  | caller (v : ν)

/-- The steps of a thread; a call itself is made by the application. -/
def ServerLabel.of : Thread κ ν → ServerLabel ι κ ν → Prop
  | .worker, .base l => l.of .worker
  | .app a, .base l => l.of (.app a)
  | .caller v, .caller w => v = w
  | _, _ => False

section Enabled

variable [DecidableEq ι] [DecidableEq κ] [DecidableEq ν] {cfg : Config ι} {s : Server ι κ ν}

/-- A step of the rest of the server, if no caller is in the way. -/
theorem base_enabled {l : Label ι κ} (hl : ∀ k ∈ l.takes cfg s.base, s.mutex k = none)
    (h : ((system κ cfg).step s.base l).isSome) :
    ((server κ ν cfg).step s (.base l)).isSome := by
  change (s.step cfg (.base l)).isSome
  rw [Server.step, if_pos hl, Option.isSome_map]
  exact h

/-- The worker can go on unless it waits for a mutex. -/
theorem Server.worker_enabled (h : s.base.worker ≠ .ended)
    (hfree : ∀ k, s.base.worker.wants cfg = some k →
      s.mutex k = none ∧ (s.base.slot k).lock = none) :
    (server κ ν cfg).Enabled (ServerLabel.of .worker) s := by
  obtain ⟨l, hl, hsome⟩ := Multi.worker_enabled (κ := κ) h fun k hk => (hfree k hk).2
  refine ⟨.base l, hl, base_enabled (fun k hk => ?_) hsome⟩
  cases l <;> first | exact (hfree k hk).1 | cases hl

theorem Server.app_enabled {a : κ} (h : s.base.app a ≠ .idle) :
    (server κ ν cfg).Enabled (ServerLabel.of (.app a)) s := by
  obtain ⟨l, hl, hsome⟩ : (Multi.system κ cfg).Enabled (Label.of (.app a)) s.base :=
    Multi.app_enabled h
  refine ⟨.base l, hl, base_enabled (fun k hk => ?_) hsome⟩
  cases l <;> first | cases hk; done | cases hl

/-- A caller that is inside can always go on. -/
theorem Server.caller_enabled (h : CallerInv cfg s) {v : ν} {k : ℕ}
    (hv : (s.caller v).holding = some k) :
    (server κ ν cfg).Enabled (ServerLabel.of (.caller v)) s := by
  refine ⟨.caller v, rfl, ?_⟩
  change (s.step cfg (.caller v)).isSome
  have hfree := h.free k v ((h.mutex k v).2 hv)
  have hw := h.within v
  rw [Server.step]
  cases hc : s.caller v with
  | idle | locking =>
    rw [hc] at hv
    cases hv
  | leaving => rfl
  | inside j n data =>
    rw [hc] at hv hw
    cases hv
    cases data with
    | none => rfl
    | some p =>
      have hk : k < cfg.maxClients := Nat.lt_of_le_of_lt (Nat.le_add_right k n) hw
      rw [Option.isSome_map]
      simp only [State.step, hk, hfree, and_self, if_true]
      split_ifs <;> rfl

/-- Why the worker cannot go on. -/
theorem Server.blocked (h : CallerInv cfg s) (hended : s.base.worker ≠ .ended)
    (hblocked : ¬ (server κ ν cfg).Enabled (ServerLabel.of .worker) s) :
    ∃ k, s.base.worker.wants cfg = some k ∧
      ((∃ v, s.mutex k = some v) ∨
        s.mutex k = none ∧ ∃ a, (s.base.slot k).lock = some (.app a)) := by
  by_contra hc
  refine hblocked (Server.worker_enabled hended fun k hk => ?_)
  cases hm : s.mutex k with
  | some v => exact absurd ⟨k, hk, .inl ⟨v, hm⟩⟩ hc
  | none =>
    refine ⟨rfl, ?_⟩
    cases hl : (s.base.slot k).lock with
    | none => rfl
    | some o =>
      cases o with
      | app a => exact absurd ⟨k, hk, .inr ⟨hm, a, hl⟩⟩ hc
      | worker =>
        cases (Worker.holding_of_wants hk).symm.trans ((State.lock_iff h.reach k .worker).1 hl)

/-- **No deadlock.**  The worker can go on, unless it has ended or waits for a mutex that an
application thread holds, in `disconnect_client` or in one of the calls that look at the slots; and
such a thread can always go on. -/
theorem Server.noDeadlock (h : (server κ ν cfg).Reach s) :
    (s.base.worker = .ended ∨ (server κ ν cfg).Enabled (ServerLabel.of .worker) s ∨
      ∃ k, s.base.worker.wants cfg = some k ∧
        ((∃ a, (s.base.app a).holding = some k) ∨ ∃ v, (s.caller v).holding = some k)) ∧
      (∀ a, s.base.app a ≠ .idle → (server κ ν cfg).Enabled (ServerLabel.of (.app a)) s) ∧
      ∀ v k, (s.caller v).holding = some k →
        (server κ ν cfg).Enabled (ServerLabel.of (.caller v)) s := by
  have hi := callerInv_of_reach h
  refine ⟨?_, fun a ha => Server.app_enabled ha, fun v k hv => Server.caller_enabled hi hv⟩
  by_cases hended : s.base.worker = .ended
  · exact .inl hended
  by_cases hen : (server κ ν cfg).Enabled (ServerLabel.of .worker) s
  · exact .inr (.inl hen)
  obtain ⟨k, hk, ⟨v, hv⟩ | ⟨-, a, ha⟩⟩ := Server.blocked hi hended hen
  · exact .inr (.inr ⟨k, hk, .inr ⟨v, (hi.mutex k v).1 hv⟩⟩)
  · exact .inr (.inr ⟨k, hk, .inl ⟨a, (State.lock_iff hi.reach k (.app a)).1 ha⟩⟩)

/-- The worker comes to a slot whose mutex a thread in `send_to` holds. -/
theorem Server.noDeadlock_locked :
    ∃ s : Server Unit Unit Unit, (server Unit Unit (oneSlot Unit)).Reach s ∧
      (s.base.worker = .poll 0 [] ∧ s.mutex 0 = some ()) ∧
      ((s.base.worker = .ended ∨
        (server Unit Unit (oneSlot Unit)).Enabled (ServerLabel.of .worker) s ∨
        ∃ k, s.base.worker.wants (oneSlot Unit) = some k ∧
          ((∃ a, (s.base.app a).holding = some k) ∨ ∃ v, (s.caller v).holding = some k)) ∧
        (∀ a, s.base.app a ≠ .idle →
          (server Unit Unit (oneSlot Unit)).Enabled (ServerLabel.of (.app a)) s) ∧
        ∀ v k, (s.caller v).holding = some k →
          (server Unit Unit (oneSlot Unit)).Enabled (ServerLabel.of (.caller v)) s) := by
  let start : Server Unit Unit Unit := {}
  let run : List (ServerLabel Unit Unit Unit) :=
    (openSession () 5 ++ connectedPass).map .base ++
      [.call () (.sendTo 0 [1]), .caller (), .base (.worker .timeout)]
  obtain ⟨s, hr, hs⟩ := Option.map_eq_some_iff.1
    (show ((server Unit Unit (oneSlot Unit)).run start run).map
        (fun s => (s.base.worker, s.mutex 0)) = some (.poll 0 [], some ()) by decide +kernel)
  have hreach : (server Unit Unit (oneSlot Unit)).Reach s := System.Reach.run (.init rfl) hr
  exact ⟨s, hreach, Prod.mk.inj hs, Server.noDeadlock hreach⟩

end Enabled

/-! ### The worker ends -/

section Stop

variable [DecidableEq ι] [DecidableEq κ] [DecidableEq ν] {cfg : Config ι} {s s' : Server ι κ ν}

/-- A step of the caller `w`, or of the application that makes a call there. -/
structure CallerTurn (w : ν) (s s' : Server ι κ ν) : Prop where
  worker : s'.base.worker = s.base.worker
  app : s'.base.app = s.base.app
  running : s.base.running = false → s'.base.running = false
  lock : ∀ k, (s'.base.slot k).lock = (s.base.slot k).lock
  caller : ∀ v, v ≠ w → s'.caller v = s.caller v
  /-- The caller takes a mutex that is free, or releases its own. -/
  mutex : ∀ k, s'.mutex k = s.mutex k ∨
    s.mutex k = none ∧ (s.base.slot k).lock = none ∨ (s.caller w).holding = some k
  left : ∀ k, (s.caller w).holding = some k →
    s'.mutex k = none ∨ s'.mutex k = s.mutex k ∧ (s'.caller w).left < (s.caller w).left

omit [DecidableEq ι] [DecidableEq κ] in
theorem CallerTurn.setCaller {w : ν} {t : Caller}
    (hl : ∀ k, (s.caller w).holding = some k → t.left < (s.caller w).left) :
    CallerTurn w s (s.setCaller w t) where
  worker := rfl
  app := rfl
  running := id
  lock _ := rfl
  caller _ hv := Function.update_of_ne hv _ _
  mutex _ := .inl rfl
  left k hk := by
    refine .inr ⟨rfl, ?_⟩
    change (Function.update s.caller w t w).left < _
    rw [Function.update_self]
    exact hl k hk

omit [DecidableEq ι] [DecidableEq κ] in
/-- The mutex of slot `j` changes hands. -/
theorem CallerTurn.setMutex {w : ν} {j : ℕ} {o : Option ν} {t : Caller}
    (hj : s.mutex j = none ∧ (s.base.slot j).lock = none ∧ (s.caller w).holding = none ∨
      (s.caller w).holding = some j ∧ o = none) :
    CallerTurn w s ((s.setMutex j o).setCaller w t) where
  worker := rfl
  app := rfl
  running := id
  lock _ := rfl
  caller _ hv := Function.update_of_ne hv _ _
  mutex k := by
    by_cases hk : k = j
    · subst hk
      exact .inr (hj.imp (fun h => ⟨h.1, h.2.1⟩) And.left)
    · exact .inl (Function.update_of_ne hk _ _)
  left k hk := by
    rcases hj with ⟨-, -, hnone⟩ | ⟨hhold, rfl⟩
    · cases hnone.symm.trans hk
    · cases hhold.symm.trans hk
      refine .inl ?_
      change Function.update s.mutex j none j = none
      rw [Function.update_self]

/-- What the steps of the callers do. -/
theorem Server.step_callerTurn {l : ServerLabel ι κ ν} (hst : (server κ ν cfg).step s l = some s') :
    match l with
    | .base l => (∀ k ∈ l.takes cfg s.base, s.mutex k = none) ∧
        ∃ b, s.base.step cfg l = some b ∧ s' = { s with base := b }
    | .call w _ | .caller w => CallerTurn w s s' := by
  change s.step cfg l = some s' at hst
  cases l with
  | base l =>
    rw [Server.step, Option.ite_none_right_eq_some] at hst
    obtain ⟨hl, hst⟩ := hst
    obtain ⟨b, hb, rfl⟩ := Option.map_eq_some_iff.1 hst
    exact ⟨hl, b, hb, rfl⟩
  | call w c =>
    rw [Server.step, Option.ite_none_right_eq_some] at hst
    obtain ⟨hidle, hst⟩ := hst
    cases hst
    refine .setCaller fun k hk => ?_
    rw [hidle] at hk
    cases hk
  | caller w =>
    rw [Server.step] at hst
    cases hw : s.caller w with
    | idle =>
      simp only [hw] at hst
      cases hst
    | locking k n data =>
      cases n with
      | zero =>
        simp only [hw] at hst
        cases hst
        refine .setCaller fun k hk => ?_
        rw [hw] at hk
        cases hk
      | succ n =>
        simp only [hw] at hst
        rw [Option.ite_none_right_eq_some] at hst
        obtain ⟨⟨hk, hlock⟩, hst⟩ := hst
        cases hst
        exact .setMutex (.inl ⟨hk, hlock, by rw [hw]; rfl⟩)
    | inside k n data =>
      have hleft : (Caller.leaving k n data).left < (s.caller w).left := by
        rw [hw]
        exact Nat.lt_succ_self 1
      cases data with
      | none =>
        simp only [hw] at hst
        cases hst
        exact .setCaller fun _ _ => hleft
      | some p =>
        simp only [hw] at hst
        obtain ⟨b, hb, rfl⟩ := Option.map_eq_some_iff.1 hst
        have hturn : Turn cfg s.base b (.sendTo k p) := step_turn hb
        have hq : QuietTurn s.base b := by
          cases hturn with
          | worker hm => cases hm
          | quiet _ hq => exact hq
        have ht : CallerTurn w s (s.setCaller w (.leaving k n (some p))) :=
          .setCaller fun _ _ => hleft
        exact { ht with
          worker := hq.worker
          app := hq.app
          running := hq.running
          lock := hq.lock }
    | leaving k n data =>
      simp only [hw] at hst
      cases hst
      exact .setMutex (.inr ⟨by rw [hw]; rfl, rfl⟩)

/-- Who has to move next if the worker is to go on. -/
def Server.helpful (cfg : Config ι) (s : Server ι κ ν) : Thread κ ν :=
  match s.base.worker.wants cfg with
  | none => .worker
  | some k =>
    match s.mutex k, (s.base.slot k).lock with
    | some v, _ => .caller v
    | none, some (.app a) => .app a
    | none, _ => .worker

/-- The steps up to the release of the mutex that the worker waits for. -/
def Server.delay (cfg : Config ι) (s : Server ι κ ν) : ℕ :=
  match s.base.worker.wants cfg with
  | none => 0
  | some k =>
    match s.mutex k, (s.base.slot k).lock with
    | some v, _ => (s.caller v).left
    | none, some (.app a) => (s.base.app a).left
    | none, _ => 0

section Waits

omit [DecidableEq ι] [DecidableEq κ] [DecidableEq ν]

variable {k : ℕ} (hk : s.base.worker.wants cfg = some k)
include hk

/-- The worker waits for a caller. -/
theorem Server.waits_caller {v : ν} (hv : s.mutex k = some v) :
    s.delay cfg = (s.caller v).left ∧ s.helpful cfg = .caller v := by
  simp only [delay, helpful, hk, hv, and_self]

/-- The worker waits for a thread in `disconnect_client`. -/
theorem Server.waits_app {a : κ} (hm : s.mutex k = none)
    (ha : (s.base.slot k).lock = some (.app a)) :
    s.delay cfg = (s.base.app a).left ∧ s.helpful cfg = .app a := by
  simp only [delay, helpful, hk, hm, ha, and_self]

theorem Server.delay_free (hm : s.mutex k = none) (hl : (s.base.slot k).lock = none) :
    s.delay cfg = 0 := by
  simp only [delay, hk, hm, hl]

end Waits

/-- The worker can go on, or need not. -/
def Server.Free (cfg : Config ι) (s : Server ι κ ν) : Prop :=
  (server κ ν cfg).Enabled (ServerLabel.of .worker) s ∨ s.base.worker = .ended

/-- While the worker waits for a caller, the steps of that caller bring the release of the mutex
nearer. -/
theorem Server.frees_caller (h : CallerInv cfg s)
    (hblocked : ¬ (server κ ν cfg).Enabled (ServerLabel.of .worker) s) {k : ℕ}
    (hk : s.base.worker.wants cfg = some k) {v : ν} (hv : s.mutex k = some v)
    {l : ServerLabel ι κ ν} (hst : (server κ ν cfg).step s l = some s') :
    System.Execution.Helps ServerLabel.of (Server.Free cfg) (Server.helpful cfg)
      (Server.delay cfg) s l s' := by
  obtain ⟨hd, hh⟩ := Server.waits_caller hk hv
  have hturn := Server.step_callerTurn hst
  cases l with
  | base l =>
    obtain ⟨hl, b, hb, rfl⟩ := hturn
    have hbase : Turn cfg s.base b l := step_turn hb
    have keeps (hw : b.worker = s.base.worker) :
        System.Execution.Helps ServerLabel.of (Server.Free cfg) (Server.helpful cfg)
          (Server.delay cfg) s (.base l) { s with base := b } := by
      have := Server.waits_caller (s := { s with base := b }) (hw ▸ hk) hv
      exact .keeps (this.1.trans hd.symm) (this.2.trans hh.symm) (by rw [hh]; exact id)
    cases hbase with
    | worker hm => exact absurd ⟨.base l, hm.of_worker, by rw [hst]; rfl⟩ hblocked
    | app ht => exact keeps ht.worker
    | enters _ _ _ _ _ _ _ _ hworker => exact keeps hworker
    | quiet _ hq => exact keeps hq.worker
  | call w c | caller w =>
    have ht : CallerTurn w s s' := hturn
    have hk' : s'.base.worker.wants cfg = some k := ht.worker ▸ hk
    have hin := (h.mutex k v).1 hv
    by_cases hvw : v = w
    · subst hvw
      refine .lowers ?_
      rw [hd]
      rcases ht.left k hin with hnone | ⟨hsame, hleft⟩
      · rw [Server.delay_free hk' hnone ((ht.lock k).trans (h.free k v hv))]
        generalize s.caller v = t at hin
        cases t <;> first | exact Nat.succ_pos _ | cases hin
      · rw [(Server.waits_caller hk' (hsame.trans hv)).1]
        exact hleft
    · have hsame : s'.mutex k = s.mutex k := by
        rcases ht.mutex k with hsame | ⟨hnone, -⟩ | hin'
        · exact hsame
        · cases hv.symm.trans hnone
        · cases hv.symm.trans ((h.mutex k w).2 hin')
          exact absurd rfl hvw
      have := Server.waits_caller hk' (hsame.trans hv)
      refine .keeps ?_ (this.2.trans hh.symm) ?_
      · rw [this.1, hd, ht.caller v hvw]
      · rw [hh]
        first | exact hvw | exact id

/-- While the worker waits for a thread in `disconnect_client`, the steps of that thread bring the
release of the mutex nearer. -/
theorem Server.frees_app (h : CallerInv cfg s) (h' : CallerInv cfg s')
    (hblocked : ¬ (server κ ν cfg).Enabled (ServerLabel.of .worker) s) {k : ℕ}
    (hk : s.base.worker.wants cfg = some k) (hm : s.mutex k = none) {a : κ}
    (ha : (s.base.slot k).lock = some (.app a)) {l : ServerLabel ι κ ν}
    (hst : (server κ ν cfg).step s l = some s') :
    System.Execution.Helps ServerLabel.of (Server.Free cfg) (Server.helpful cfg)
      (Server.delay cfg) s l s' := by
  obtain ⟨hd, hh⟩ := Server.waits_app hk hm ha
  have hturn := Server.step_callerTurn hst
  cases l with
  | base l =>
    obtain ⟨hl, b, hb, rfl⟩ := hturn
    have hbase : Turn cfg s.base b l := step_turn hb
    have hin : (s.base.app a).holding = some k := (State.lock_iff h.reach k (.app a)).1 ha
    have keeps (hw : b.worker = s.base.worker) (hlock : (b.slot k).lock = (s.base.slot k).lock)
        (happ : b.app a = s.base.app a) (hof : ¬ l.of (.app a)) :
        System.Execution.Helps ServerLabel.of (Server.Free cfg) (Server.helpful cfg)
          (Server.delay cfg) s (.base l) { s with base := b } := by
      have := Server.waits_app (s := { s with base := b }) (hw ▸ hk) hm (hlock.trans ha)
      refine .keeps ?_ (this.2.trans hh.symm) (by rw [hh]; exact hof)
      rw [this.1, hd]
      exact congrArg App.left happ
    cases hbase with
    | worker hm => exact absurd ⟨.base l, hm.of_worker, by rw [hst]; rfl⟩ hblocked
    | @app b' w ht =>
      have hk' : b.worker.wants cfg = some k := ht.worker ▸ hk
      by_cases hb' : b' = a
      · subst hb'
        refine .lowers ?_
        rw [hd]
        have hlock := ht.lock k
        rw [if_pos hin] at hlock
        rcases hlock with hin' | hnone
        · have hl' : (b.slot k).lock = some (.app b') :=
            (State.lock_iff h'.reach k (.app b')).2 hin'
          rw [(Server.waits_app (s := { s with base := b }) hk' hm hl').1]
          exact ht.left
        · rw [Server.delay_free (s := { s with base := b }) hk' hm hnone]
          exact App.left_pos hin
      · have hlock := ht.lock k
        have hother : (s.base.app b').holding ≠ some k := fun hin' => by
          cases ha.symm.trans ((State.lock_iff h.reach k (.app b')).2 hin')
          exact hb' rfl
        rw [if_neg hother] at hlock
        exact keeps ht.worker hlock.2 (ht.app a (Ne.symm hb')) fun hof => hb' hof.symm
    | @enters b' j sl t hidle hnone hc hl' hc' ht hslot happ hworker =>
      have hj : k ≠ j := by
        rintro rfl
        cases hnone.symm.trans ha
      have hb' : a ≠ b' := by
        rintro rfl
        rw [hidle] at hin
        cases hin
      refine keeps hworker ?_ ?_ id
      · rw [hslot, Function.update_of_ne hj]
      · rw [happ, Function.update_of_ne hb']
    | quiet hno hq => exact keeps hq.worker (hq.lock k) (congrFun hq.app a) (hno _)
  | call w c | caller w =>
    have ht : CallerTurn w s s' := hturn
    have hk' : s'.base.worker.wants cfg = some k := ht.worker ▸ hk
    have hsame : s'.mutex k = s.mutex k := by
      rcases ht.mutex k with hsame | ⟨-, hnone⟩ | hin'
      · exact hsame
      · cases ha.symm.trans hnone
      · cases hm.symm.trans ((h.mutex k w).2 hin')
    have := Server.waits_app hk' (hsame.trans hm) ((ht.lock k).trans ha)
    refine .keeps ?_ (this.2.trans hh.symm) (by rw [hh]; exact id)
    rw [this.1, hd, ht.app]

/-- **While the worker waits for a mutex, every step brings its release nearer**, or leaves the way
to it as it is. -/
theorem Server.frees (h : CallerInv cfg s) (h' : CallerInv cfg s') (hfree : ¬ s.Free cfg)
    {l : ServerLabel ι κ ν} (hst : (server κ ν cfg).step s l = some s') :
    System.Execution.Helps ServerLabel.of (Server.Free cfg) (Server.helpful cfg)
      (Server.delay cfg) s l s' := by
  have hblocked : ¬ (server κ ν cfg).Enabled (ServerLabel.of .worker) s := fun hen =>
    hfree (.inl hen)
  obtain ⟨k, hk, ⟨v, hv⟩ | ⟨hm, a, ha⟩⟩ :=
    Server.blocked h (fun hended => hfree (.inr hended)) hblocked
  · exact Server.frees_caller h hblocked hk hv hst
  · exact Server.frees_app h h' hblocked hk hm ha hst

/-- The thread that has to move next can. -/
theorem Server.helpful_enabled (h : CallerInv cfg s) (hfree : ¬ s.Free cfg) :
    (server κ ν cfg).Enabled (ServerLabel.of (s.helpful cfg)) s := by
  obtain ⟨k, hk, ⟨v, hv⟩ | ⟨hm, a, ha⟩⟩ :=
    Server.blocked h (fun hended => hfree (.inr hended)) fun hen => hfree (.inl hen)
  · rw [(Server.waits_caller hk hv).2]
    exact Server.caller_enabled h ((h.mutex k v).1 hv)
  · rw [(Server.waits_app hk hm ha).2]
    refine Server.app_enabled fun hidle => ?_
    have hin : (s.base.app a).holding = some k := (State.lock_iff h.reach k (.app a)).1 ha
    rw [hidle] at hin
    cases hin

/-- Once `running` has been cleared the steps of the worker bring its end nearer, and the others
leave the way to it as it is. -/
theorem Server.step_left (hr : s.base.running = false) {l : ServerLabel ι κ ν}
    (hst : (server κ ν cfg).step s l = some s') :
    s'.base.running = false ∧ s'.base.worker.left cfg ≤ s.base.worker.left cfg ∧
      (ServerLabel.of .worker l → s'.base.worker.left cfg < s.base.worker.left cfg) := by
  have keeps (hw : s'.base.worker = s.base.worker) (hof : ¬ ServerLabel.of .worker l) :
      s'.base.worker.left cfg ≤ s.base.worker.left cfg ∧
        (ServerLabel.of .worker l → s'.base.worker.left cfg < s.base.worker.left cfg) :=
    ⟨by rw [hw], fun h => absurd h hof⟩
  have hturn := Server.step_callerTurn hst
  cases l with
  | base l =>
    obtain ⟨-, b, hb, rfl⟩ := hturn
    have hbase : Turn cfg s.base b l := step_turn hb
    refine ⟨hbase.running hr, ?_⟩
    cases hbase with
    | worker _ ht =>
      have hlt := ht.left hr
      exact ⟨hlt.le, fun _ => hlt⟩
    | app ht => exact keeps ht.worker id
    | enters _ _ _ _ _ _ _ _ hworker => exact keeps hworker id
    | quiet hno hq => exact keeps hq.worker (hno .worker)
  | call w c | caller w =>
    have ht : CallerTurn w s s' := hturn
    exact ⟨ht.running hr, keeps ht.worker id⟩

/-- **`stop` returns.**  In every execution that is strongly fair to the worker and fair to the
threads that hold a mutex, the worker ends after `running` has been cleared, although the mutexes
are not fair and the threads may call again and again. -/
theorem stop_returns (e : (server κ ν cfg).Execution) (h : (server κ ν cfg).Reach (e.state 0))
    (hworker : e.StrongFair (ServerLabel.of .worker))
    (happ : ∀ a, e.Fair (ServerLabel.of (.app a)))
    (hcaller : ∀ v, e.Fair (ServerLabel.of (.caller v))) {n : ℕ}
    (hr : (e.state n).base.running = false) : ∃ m, n ≤ m ∧ (e.state m).base.worker = .ended := by
  let Stopping (s : Server ι κ ν) : Prop := CallerInv cfg s ∧ s.base.running = false
  let Ended (s : Server ι κ ν) : Prop := s.base.worker = .ended
  have hfair (t : Thread κ ν) : e.Fair (ServerLabel.of t) := by
    cases t with
    | worker => exact hworker.fair
    | app a => exact happ a
    | caller v => exact hcaller v
  have hstep : ∀ s l s', Stopping s → (server κ ν cfg).step s l = some s' →
      Stopping s' ∧ s'.base.worker.left cfg ≤ s.base.worker.left cfg ∧
        (ServerLabel.of .worker l → s'.base.worker.left cfg < s.base.worker.left cfg) := by
    intro s l s' hs hst
    have hmove := Server.step_left hs.2 hst
    exact ⟨⟨hs.1.step hst, hmove.1⟩, hmove.2⟩
  have hagain : ∀ n, Stopping (e.state n) → ∃ m, n ≤ m ∧
      ((server κ ν cfg).Enabled (ServerLabel.of .worker) (e.state m) ∨ Ended (e.state m)) := by
    intro n hn
    -- a mutex that the worker waits for is released
    have henabled : ∀ s, Stopping s → ¬ s.Free cfg →
        (server κ ν cfg).Enabled (ServerLabel.of (s.helpful cfg)) s := fun s hs hfree =>
      Server.helpful_enabled hs.1 hfree
    have hfrees : ∀ s l s', Stopping s → ¬ s.Free cfg → (server κ ν cfg).step s l = some s' →
        Stopping s' ∧ System.Execution.Helps ServerLabel.of (Server.Free cfg)
          (Server.helpful cfg) (Server.delay cfg) s l s' := fun s l s' hs hfree hst =>
      ⟨(hstep s l s' hs hst).1, Server.frees hs.1 (hs.1.step hst) hfree hst⟩
    exact e.eventually (C := fun _ => True) henabled
      (fun s l s' hs hfree _ => hfrees s l s' hs hfree) hfair (fun _ _ => trivial) hn
  exact e.eventually_of_strongFair hagain (fun s l s' hs _ hst => hstep s l s' hs hst) hworker
    ⟨callerInv_of_reach (e.reach h n), hr⟩

/-! Threads that have ended, or are in no call, take no step. -/

theorem Server.not_enabled_ended (h : s.base.worker = .ended) :
    ¬ (server κ ν cfg).Enabled (ServerLabel.of .worker) s := by
  rintro ⟨l, hof, hsome⟩
  obtain ⟨s', hst⟩ := Option.isSome_iff_exists.1 hsome
  cases l with
  | base l =>
    obtain ⟨-, b, hb, -⟩ := Server.step_callerTurn hst
    cases l with
    | worker w | alive w =>
      simp only [State.step, State.workerStep, State.aliveStep, h] at hb
      cases hb
    | _ => cases hof
  | _ => cases hof

theorem Server.not_enabled_app {a : κ} (h : s.base.app a = .idle) :
    ¬ (server κ ν cfg).Enabled (ServerLabel.of (.app a)) s := by
  rintro ⟨l, hof, hsome⟩
  obtain ⟨s', hst⟩ := Option.isSome_iff_exists.1 hsome
  cases l with
  | base l =>
    obtain ⟨-, b, hb, -⟩ := Server.step_callerTurn hst
    cases l with
    | app a' w =>
      obtain rfl : a = a' := hof
      simp only [State.step, State.appStep, h] at hb
      cases hb
    | _ => cases hof
  | _ => cases hof

theorem Server.not_enabled_caller {v : ν} (h : s.caller v = .idle) :
    ¬ (server κ ν cfg).Enabled (ServerLabel.of (.caller v)) s := by
  rintro ⟨l, hof, hsome⟩
  cases l with
  | caller w =>
    obtain rfl : v = w := hof
    change (s.step cfg (.caller v)).isSome at hsome
    simp only [Server.step, h] at hsome
    cases hsome
  | _ => cases hof

/-- The server is stopped.  The worker comes to slot 0 while its mutex is held, by a thread in
`send_to` and then by one in `disconnect_client`. -/
def stopWhileLocked : List (ServerLabel Unit Unit Unit) :=
  (openSession () 5 ++ connectedPass).map .base ++
    [.call () (.sendTo 0 [1]), .caller (), .base .stop, .base (.worker .timeout)] ++
    List.replicate 3 (.caller ()) ++ .base (.disconnectClient () 0) ::
    List.replicate 7 (.base (.app () .signalled)) ++ (work 4).map .base

theorem stop_returns_whileLocked :
    ∃ e : (server Unit Unit (oneSlot Unit)).Execution,
      ((e.state 48).base.running = false ∧ (e.state 48).base.worker = .poll 0 [] ∧
        (e.state 48).mutex 0 = some () ∧ ((e.state 52).base.slot 0).lock = some (.app ())) ∧
      ∃ m, 48 ≤ m ∧ (e.state m).base.worker = .ended := by
  let start : Server Unit Unit Unit := {}
  obtain ⟨t, hr, ht⟩ := Option.map_eq_some_iff.1
    (show ((server Unit Unit (oneSlot Unit)).run start stopWhileLocked).map
        (fun t => (t.base.running, t.base.worker, t.base.app (), t.caller ())) =
        some (false, .ended, .idle, .idle) by decide +kernel)
  obtain ⟨hrun, hended, happ, hcaller⟩ : t.base.running = false ∧ t.base.worker = .ended ∧
      t.base.app () = .idle ∧ t.caller () = .idle := by
    simpa only [Prod.mk.injEq] using ht
  have hl : (server Unit Unit (oneSlot Unit)).step t (.base .stop) = some t := by
    change some { t with base := { t.base with running := false } } = some t
    rw [← hrun]
  have hat (n : ℕ) (x : Bool × Worker × Option Unit × Option (Owner Unit))
      (h : ((server Unit Unit (oneSlot Unit)).run start (stopWhileLocked.take n)).map
        (fun s => (s.base.running, s.base.worker, s.mutex 0, (s.base.slot 0).lock)) = some x) :=
    System.Execution.ofRun_state hr hl h
  have hcall := hat 48 (false, .poll 0 [], some (), none) (by decide +kernel)
  have hdisconnect := hat 52 (false, .poll 0 [], none, some (.app ())) (by decide +kernel)
  simp only [Prod.mk.injEq] at hcall hdisconnect
  refine ⟨.ofRun hr hl, ⟨hcall.1, hcall.2.1, hcall.2.2.1, hdisconnect.2.2.2⟩,
    stop_returns _ ?_ ?_ (fun a => ?_) (fun v => ?_) hcall.1⟩
  · rw [System.Execution.ofRun_state_zero]
    exact .init rfl
  · exact System.Execution.strongFair_ofRun hr hl (Server.not_enabled_ended hended)
  · exact System.Execution.fair_ofRun hr hl (Server.not_enabled_app happ)
  · exact System.Execution.fair_ofRun hr hl (Server.not_enabled_caller hcaller)

end Stop

end Multi

end Xshm
