import Xshm.Dispatch.Entries
import Xshm.System.Cycles

/-!
# Threads that wait for each other

`worker_loop` ends by removing all clients from the map under its write lock: it calls
`on_client_disconnect` for each of them and joins the worker of its channel while it holds the
lock.  A handler that calls `client_count` there waits for its own thread, and a worker that is
about to look for its entry in `on_disconnect` waits for the lock while it is joined:
`not_noDeadlock`.

* `noDeadlock_of_unlocked` : no threads wait for each other in a circle, and no method of the
  handler is called under the lock, if the map is empty when `worker_loop` locks it, no entry is
  replaced, and a callback on the thread of a channel joins another worker only while that worker
  joins none or none joins its own.
-/

namespace Xshm

namespace Dispatch

variable {κ : Type*}

/-- The call is about to lock `clients`. -/
def Frame.locks : Frame → Bool
  | .readClients | .disconnectClient _ => true
  | _ => false

/-- The thread is about to lock `clients`, for reading or for writing. -/
def State.Locking (s : State κ) (t : Thread κ) : Prop :=
  match s.stack t with
  | f :: _ => f.locks = true
  | [] =>
    match t with
    | .lobby => s.lobby = .lock
    | .pending n => (s.channel n).pending = .insert
    | .channel n => (s.channel n).worker = .onDisconnect
    | .dropper _ | .app _ => False

/-- The first thread waits for the second. -/
inductive Waits (s : State κ) : Thread κ → Thread κ → Prop
  /-- `clients` is locked. -/
  | clients {t u : Thread κ} : s.Locking t → s.lock = some u → Waits s t u
  /-- `Drop for AutoServer` joins its worker. -/
  | join {t : Thread κ} {n : ℕ} {fs : List Frame} : s.stack t = .join n :: fs →
      (s.channel n).worker ≠ .ended → Waits s t (.channel n)
  /-- `stop` joins `worker_loop`. -/
  | lobby {a : κ} : s.stop a = .joinLobby → s.lobby ≠ .ended → Waits s (.app a) .lobby
  /-- `worker_handle` is locked. -/
  | handle {a b : κ} : s.stop a = .lockHandle → s.handleLock = some b → Waits s (.app a) (.app b)
  /-- `stop` joins a thread that waits for a client. -/
  | pending {a : κ} {n : ℕ} {ns : List ℕ} : s.stop a = .joinPending (n :: ns) →
      ¬ s.pendingFinished n → Waits s (.app a) (.pending n)

/-- **No deadlock**: threads do not wait for each other in a circle, and a thread that holds the
lock of `clients` is in no method of the handler. -/
def NoDeadlock (s : State κ) : Prop :=
  Acyclic (Waits s) ∧ ∀ t, s.lock = some t → .callback ∉ s.stack t

/-- The channel whose worker the call is joining. -/
def Frame.joins : Frame → Option ℕ
  | .join n => some n
  | _ => none

/-- The channel whose `AutoServer` the call drops next. -/
def Frame.drops : Frame → Option ℕ
  | .dropServer n => some n
  | _ => none

/-- The channel whose worker the thread of channel `m` is joining. -/
def State.joining (s : State κ) (m : ℕ) : Option ℕ := (s.stack (.channel m)).head?.bind Frame.joins

/-- The thread of channel `m` is joining the worker of channel `n`. -/
def State.Joins (s : State κ) (m n : ℕ) : Prop := s.joining m = some n

/-- What keeps threads from waiting for each other: the map is empty when `worker_loop` locks it,
no entry is replaced, and a callback on the thread of channel `m` goes on to join the worker of
another channel only while that worker joins none, or none joins that of `m`. -/
def Unlocked (s : State κ) : Label κ → Prop
  | .lobby _ => s.lobby = .lock → s.clients = []
  | .pending n _ => (s.channel n).pending = .insert → s.find (clientId n) = none
  | .frame (.channel m) _ => ∀ n ∈ (s.stack (.channel m)).head?.bind Frame.drops,
      n ≠ m → s.joining n = none ∨ ∀ k, s.joining k ≠ some m
  | _ => True

/-! ### The stacks -/

variable [DecidableEq κ]

/-- What a step does to the stacks. -/
inductive StackMove (s s' : State κ) : Label κ → Prop
  | same {l : Label κ} : s'.stack = s.stack → StackMove s s' l
  /-- A stack is replaced by one without joins. -/
  | start {l : Label κ} {t : Thread κ} {fs : List Frame} : (∀ f ∈ fs, f.joins = none) →
      s'.stack = Function.update s.stack t fs → StackMove s s' l
  | goOn {l : Label κ} {t : Thread κ} {f : Frame} {fs : List Frame} (gs : List Frame) :
      s.stack t = f :: fs → (∀ g ∈ gs, g.joins = none) →
      s'.stack = Function.update s.stack t (gs ++ fs) → StackMove s s' l
  | join {t : Thread κ} {o : HandlerOutcome} {n : ℕ} {fs : List Frame} :
      s.stack t = .dropServer n :: fs → t ≠ .channel n →
      s'.stack = Function.update s.stack t (.join n :: fs) → StackMove s s' (.frame t o)

section

variable {s s' : State κ}

theorem lobbyStep_stackMove {o : LobbyOutcome} (hst : s.lobbyStep o = some s') :
    StackMove s s' (.lobby o) := by
  unfold State.lobbyStep at hst
  rw [Option.ite_none_left_eq_some] at hst
  obtain ⟨-, hst⟩ := hst
  cases hl : s.lobby <;> simp only [hl] at hst
  case head =>
    cases hst
    exact .same rfl
  case accept =>
    cases o <;> cases hst
    case error => exact .start (by simp [Frame.joins]) rfl
    all_goals exact .same rfl
  case startServer n =>
    cases o <;> cases hst
    case ok => exact .same rfl
    all_goals exact .start (by simp [Frame.joins]) rfl
  case respond n =>
    cases o <;> cases hst
    case ok => exact .same rfl
    all_goals exact .start (by simp [Frame.joins]) rfl
  case lock =>
    split_ifs at hst
    cases hst
    exact .same rfl
  case drain =>
    cases o with
    | remove n =>
      simp only at hst
      split_ifs at hst
      cases hst
      exact .start (by simp [Frame.joins]) rfl
    | _ =>
      simp only at hst
      split_ifs at hst
      cases hst
      exact .same rfl
  case ended => cases hst

theorem pendingStep_stackMove {n : ℕ} {b : Bool} (hst : s.pendingStep n b = some s') :
    StackMove s s' (.pending n b) := by
  unfold State.pendingStep at hst
  rw [Option.ite_none_left_eq_some] at hst
  obtain ⟨-, hst⟩ := hst
  cases hp : (s.channel n).pending <;> simp only [hp] at hst
  case absent | ended => cases hst
  case poll => split_ifs at hst <;> cases hst <;> exact .same rfl
  case check =>
    split_ifs at hst <;> cases hst
    · exact .start (by simp [Frame.joins]) rfl
    · exact .same rfl
  case insert =>
    split_ifs at hst
    cases hf : s.find (clientId n) with
    | none =>
      simp only [hf] at hst
      cases hst
      exact .same rfl
    | some m =>
      simp only [hf] at hst
      cases hst
      exact .start (by simp [Frame.joins]) rfl
  case replaced =>
    cases hst
    exact .same rfl
  case callConnect =>
    cases hst
    exact .start (by simp [Frame.joins]) rfl

theorem workerStep_stackMove {n : ℕ} {o : WorkerOutcome} (hst : s.workerStep n o = some s') :
    StackMove s s' (.worker n o) := by
  unfold State.workerStep at hst
  rw [Option.ite_none_left_eq_some] at hst
  obtain ⟨-, hst⟩ := hst
  cases hw : (s.channel n).worker <;> simp only [hw] at hst
  case absent | ended => cases hst
  case head | onConnect | drainCommands | marking =>
    cases hst
    exact .same rfl
  case waitClient =>
    cases o <;> cases hst
    case ok | timeout => exact .same rfl
    all_goals exact .start (by simp [Frame.joins]) rfl
  case receive =>
    cases o <;> cases hst
    case sendError | fatal | error => exact .start (by simp [Frame.joins]) rfl
    all_goals exact .same rfl
  case callMessage | spawnDrop | callDisconnect =>
    cases hst
    exact .start (by simp [Frame.joins]) rfl
  case waitAny =>
    cases o <;> cases hst
    case error => exact .start (by simp [Frame.joins]) rfl
    all_goals exact .same rfl
  case onDisconnect =>
    split_ifs at hst
    cases hf : s.find (clientId n) with
    | none =>
      simp only [hf] at hst
      cases hst
      exact .same rfl
    | some m =>
      simp only [hf] at hst
      split_ifs at hst <;> cases hst <;> exact .same rfl

theorem frameStep_stackMove {t : Thread κ} {o : HandlerOutcome} (hst : s.frameStep t o = some s') :
    StackMove s s' (.frame t o) := by
  have pop {f : Frame} {fs : List Frame} (hs : s.stack t = f :: fs)
      (h : s'.stack = Function.update s.stack t fs) : StackMove s s' (.frame t o) :=
    .goOn [] hs (by simp) h
  have replace {f g : Frame} {fs : List Frame} (hs : s.stack t = f :: fs) (hg : g.joins = none)
      (h : s'.stack = Function.update s.stack t (g :: fs)) : StackMove s s' (.frame t o) :=
    .goOn [g] hs (by simpa using hg) h
  unfold State.frameStep at hst
  split at hst
  case h_1 => cases hst
  case h_2 fs hs =>
    cases o <;> cases hst
    case finish => exact pop hs rfl
    case readClients =>
      exact .goOn [.readClients, .callback] hs (by simp [Frame.joins]) rfl
    case disconnectClient i =>
      exact .goOn [.disconnectClient i, .callback] hs (by simp [Frame.joins]) rfl
  case h_3 fs hs =>
    split_ifs at hst
    cases hst
    exact pop hs rfl
  case h_4 i fs hs =>
    split_ifs at hst
    cases hf : s.find i with
    | none =>
      simp only [hf] at hst
      cases hst
      exact pop hs rfl
    | some n =>
      simp only [hf] at hst
      cases hst
      exact replace hs rfl rfl
  case h_5 i n fs hs | h_6 i n fs hs | h_8 n fs hs =>
    cases hst
    exact replace hs rfl rfl
  case h_7 i n fs hs =>
    cases hst
    exact .goOn [.callback, .dropServer n] hs (by simp [Frame.joins]) rfl
  case h_9 n fs hs =>
    cases hst
    by_cases ht : t = .channel n
    · exact pop hs (by simp only [if_pos ht]; rfl)
    · exact .join hs ht (by simp only [if_neg ht]; rfl)
  case h_10 n fs hs =>
    split_ifs at hst
    cases hst
    exact pop hs rfl

theorem step_stackMove {l : Label κ} (hst : s.step l = some s') : StackMove s s' l := by
  cases l <;> simp only [State.step] at hst
  case lobby => exact lobbyStep_stackMove hst
  case pending => exact pendingStep_stackMove hst
  case worker => exact workerStep_stackMove hst
  case frame => exact frameStep_stackMove hst
  case call a q =>
    unfold State.callStep at hst
    split_ifs at hst
    cases q with
    | stop =>
      cases hst
      exact .same rfl
    | _ =>
      cases hst
      exact .start (by simp [Frame.joins]) rfl
  case stop a =>
    unfold State.stopStep at hst
    cases hs : s.stop a <;> simp only [hs] at hst
    case idle => cases hst
    case lockHandle => split_ifs at hst <;> cases hst <;> exact .same rfl
    case joinLobby =>
      split_ifs at hst
      cases hst
      exact .same rfl
    case takePending =>
      cases hst
      exact .same rfl
    case joinPending ns =>
      cases ns with
      | nil =>
        cases hst
        exact .same rfl
      | cons n ns =>
        simp only at hst
        split_ifs at hst
        cases hst
        exact .same rfl

omit [DecidableEq κ] in
/-- Joins do not lead from a thread that joins none, nor to one that none joins. -/
theorem not_transGen_joins {m n : ℕ} (h : s.joining n = none ∨ ∀ k, s.joining k ≠ some m) :
    ¬ Relation.TransGen s.Joins n m := by
  intro hpath
  rcases h with hn | hm
  · obtain ⟨k, hk, -⟩ := Relation.TransGen.head'_iff.1 hpath
    cases hn.symm.trans hk
  · obtain ⟨k, -, hk⟩ := Relation.TransGen.tail'_iff.1 hpath
    exact hm k hk

/-- Joins are on top of their stacks, and those of the workers of channels form no circle. -/
structure JoinInv (s : State κ) : Prop where
  top : ∀ t, ∀ g ∈ (s.stack t).tail, g.joins = none
  acyclic : Acyclic s.Joins

omit [DecidableEq κ] in
theorem JoinInv.init : JoinInv ({} : State κ) where
  top := by rintro t g ⟨⟩
  acyclic m hm := by
    obtain ⟨n, hn, -⟩ := Relation.TransGen.head'_iff.1 hm
    cases hn

/-- Stacks change, and no thread starts to join a worker. -/
theorem JoinInv.quiet (h : JoinInv s) {t : Thread κ} {fs : List Frame}
    (hstack : s'.stack = Function.update s.stack t fs) (hfs : ∀ f ∈ fs, f.joins = none) :
    JoinInv s' where
  top u := by
    rw [hstack]
    by_cases hu : u = t
    · rw [hu, Function.update_self]
      exact fun g hg => hfs g (List.mem_of_mem_tail hg)
    · rw [Function.update_of_ne hu]
      exact h.top u
  acyclic := by
    refine h.acyclic.mono fun m n hmn => ?_
    rw [State.Joins, State.joining, hstack] at hmn
    by_cases hm : Thread.channel m = t
    · rw [hm, Function.update_self, Option.bind_eq_some_iff] at hmn
      obtain ⟨f, hf, hjoin⟩ := hmn
      rw [hfs f (List.mem_of_mem_head? hf)] at hjoin
      cases hjoin
    · rwa [Function.update_of_ne hm] at hmn

theorem JoinInv.move (h : JoinInv s) {l : Label κ} (hC : Unlocked s l) (hm : StackMove s s' l) :
    JoinInv s' := by
  cases hm with
  | same hstack =>
    refine ⟨by rw [hstack]; exact h.top, h.acyclic.mono fun m n hmn => ?_⟩
    rwa [State.Joins, State.joining, hstack] at hmn
  | start hfs hstack => exact h.quiet hstack hfs
  | @goOn _ t f fs gs hs hgs hstack =>
    refine h.quiet hstack fun g hg => ?_
    rcases List.mem_append.1 hg with hg | hg
    · exact hgs g hg
    · exact h.top t g (by rw [hs]; exact hg)
  | @join t o n fs hs hne hstack =>
    have htail : ∀ g ∈ fs, g.joins = none := fun g hg => h.top t g (by rw [hs]; exact hg)
    refine ⟨fun u => ?_, ?_⟩
    · rw [hstack]
      by_cases hu : u = t
      · rw [hu, Function.update_self]
        exact htail
      · rw [Function.update_of_ne hu]
        exact h.top u
    · cases t with
      | channel m =>
        -- the new wait does not lead back
        have hnm : n ≠ m := fun hnm => hne (by rw [hnm])
        have hpath : ¬ Relation.TransGen s.Joins n m :=
          not_transGen_joins (hC n (by rw [hs]; rfl) hnm)
        refine h.acyclic.insert (fun a b hab => ?_) hnm hpath
        by_cases ha : a = m
        · rw [State.Joins, ha, State.joining, hstack, Function.update_self] at hab
          exact .inr ⟨ha, (Option.some.inj hab).symm⟩
        · rw [State.Joins, State.joining, hstack, Function.update_of_ne (by simpa using ha)] at hab
          exact .inl hab
      | _ =>
        refine h.acyclic.mono fun a b hab => ?_
        rwa [State.Joins, State.joining, hstack, Function.update_of_ne (by rintro ⟨⟩)] at hab

/-! ### The lock -/

/-- Only `worker_loop` holds the lock of `clients` over several steps, when the map is empty, and
who has locked `worker_handle` is joining `worker_loop`. -/
structure LockInv (s : State κ) : Prop where
  lock : ∀ t, s.lock = some t → t = .lobby ∧ s.lobby = .drain ∧ s.clients = [] ∧
    s.stack .lobby = []
  replaced : ∀ n, (s.channel n).pending ≠ .replaced
  handle : ∀ a, s.handleLock = some a → s.stop a = .joinLobby

omit [DecidableEq κ] in
theorem LockInv.init : LockInv ({} : State κ) where
  lock := by rintro t ⟨⟩
  replaced := by rintro n ⟨⟩
  handle := by rintro a ⟨⟩

omit [DecidableEq κ] in
theorem LockInv.unlocked (h : LockInv s) (hlock : s'.lock = none) (hstop : s'.stop = s.stop)
    (hhandle : s'.handleLock = s.handleLock)
    (hreplaced : ∀ n, (s'.channel n).pending ≠ .replaced) : LockInv s' where
  lock t ht := by cases hlock.symm.trans ht
  replaced := hreplaced
  handle := by
    rw [hstop, hhandle]
    exact h.handle

omit [DecidableEq κ] in
/-- Another thread moves. -/
theorem LockInv.keep (h : LockInv s) (hlock : s'.lock = s.lock) (hlobby : s'.lobby = s.lobby)
    (hstop : s'.stop = s.stop) (hhandle : s'.handleLock = s.handleLock)
    (hclients : s.lock ≠ none → s.clients = [] → s'.clients = [])
    (hstack : s.lock ≠ none → s'.stack .lobby = s.stack .lobby)
    (hreplaced : ∀ n, (s'.channel n).pending ≠ .replaced) : LockInv s' where
  lock t ht := by
    rw [hlock] at ht
    have hne : s.lock ≠ none := by rw [ht]; rintro ⟨⟩
    obtain ⟨rfl, hl, hc, hs⟩ := h.lock t ht
    exact ⟨rfl, hlobby.trans hl, hclients hne hc, (hstack hne).trans hs⟩
  replaced := hreplaced
  handle := by
    rw [hstop, hhandle]
    exact h.handle

omit [DecidableEq κ] in
theorem LockInv.setChannel (h : LockInv s) {n : ℕ} {ch : Channel} (hch : ch.pending ≠ .replaced) :
    LockInv (s.setChannel n ch) := by
  refine h.keep rfl rfl rfl rfl (fun _ => id) (fun _ => rfl) fun m => ?_
  by_cases hm : m = n
  · rw [hm, s.setChannel_channel_self]
    exact hch
  · rw [s.setChannel_channel_of_ne hm]
    exact h.replaced m

omit [DecidableEq κ] in
theorem LockInv.setWorker (h : LockInv s) (n : ℕ) (pc : ServerWorker) :
    LockInv (s.setWorker n pc) :=
  h.setChannel (h.replaced n)

omit [DecidableEq κ] in
theorem LockInv.stopServer (h : LockInv s) (n : ℕ) : LockInv (s.stopServer n) :=
  h.setChannel (h.replaced n)

omit [DecidableEq κ] in
theorem LockInv.setPending (h : LockInv s) (n : ℕ) {pc : Pending} (hpc : pc ≠ .replaced) :
    LockInv (s.setPending n pc) :=
  h.setChannel hpc

omit [DecidableEq κ] in
theorem LockInv.record (h : LockInv s) (i : UInt32) (e : Event) : LockInv (s.record i e) :=
  { h with }

/-- The stack of a thread changes, but not that of `worker_loop` while it holds the lock. -/
theorem LockInv.setStack (h : LockInv s) (t : Thread κ) (fs : List Frame)
    (ht : s.lock ≠ none → t ≠ .lobby) : LockInv (s.setStack t fs) :=
  h.keep rfl rfl rfl rfl (fun _ => id) (fun hl => s.setStack_stack_of_ne (ht hl).symm fs) h.replaced

omit [DecidableEq κ] in
theorem LockInv.erase (h : LockInv s) (n : ℕ) : LockInv (s.erase n) :=
  h.keep rfl rfl rfl rfl (fun _ hc => by rw [State.erase, hc]; rfl) (fun _ => rfl) h.replaced

theorem LockInv.lobbyStep (h : LockInv s) {o : LobbyOutcome} (hC : Unlocked s (.lobby o))
    (hst : s.lobbyStep o = some s') : LockInv s' := by
  -- in all other cases nobody holds the lock
  have hfree (hl : s.lobby ≠ .drain) : s.lock = none := by
    cases hlock : s.lock with
    | none => rfl
    | some t => exact absurd (h.lock t hlock).2.1 hl
  unfold State.lobbyStep at hst
  rw [Option.ite_none_left_eq_some] at hst
  obtain ⟨hstack, hst⟩ := hst
  have hstack : s.stack .lobby = [] := not_not.1 hstack
  have hch {n : ℕ} {ch : Channel} (hch : ch.pending ≠ .replaced) :
      ∀ m, ((s.setChannel n ch).channel m).pending ≠ .replaced := (h.setChannel hch).replaced
  cases hl : s.lobby <;> simp only [hl] at hst hfree
  case head =>
    cases hst
    exact h.unlocked (hfree (by rintro ⟨⟩)) rfl rfl h.replaced
  case accept =>
    cases o <;> cases hst <;> exact h.unlocked (hfree (by rintro ⟨⟩)) rfl rfl h.replaced
  case startServer n =>
    cases o <;> cases hst
    case ok => exact h.unlocked (hfree (by rintro ⟨⟩)) rfl rfl (hch (h.replaced n))
    all_goals exact h.unlocked (hfree (by rintro ⟨⟩)) rfl rfl h.replaced
  case respond n =>
    cases o <;> cases hst
    case ok => exact h.unlocked (hfree (by rintro ⟨⟩)) rfl rfl (hch (by rintro ⟨⟩))
    all_goals exact h.unlocked (hfree (by rintro ⟨⟩)) rfl rfl h.replaced
  case lock =>
    split_ifs at hst
    cases hst
    refine ⟨?_, h.replaced, h.handle⟩
    rintro t ⟨⟩
    exact ⟨rfl, rfl, hC hl, hstack⟩
  case drain =>
    cases o with
    | remove n =>
      simp only at hst
      split_ifs at hst with hn
      cases hst
      refine h.unlocked ?_ rfl rfl h.replaced
      cases hlock : s.lock with
      | none => exact hlock
      | some t =>
        rw [(h.lock t hlock).2.2.1] at hn
        cases hn
    | _ =>
      simp only at hst
      split_ifs at hst
      cases hst
      exact h.unlocked rfl rfl rfl h.replaced
  case ended => cases hst

theorem LockInv.pendingStep (h : LockInv s) {n : ℕ} {b : Bool} (hC : Unlocked s (.pending n b))
    (hst : s.pendingStep n b = some s') : LockInv s' := by
  unfold State.pendingStep at hst
  rw [Option.ite_none_left_eq_some] at hst
  obtain ⟨-, hst⟩ := hst
  cases hp : (s.channel n).pending <;> simp only [hp] at hst
  case absent | ended => cases hst
  case poll =>
    split_ifs at hst <;> cases hst
    · exact h.setPending n (by rintro ⟨⟩)
    · exact h.setPending n (by rintro ⟨⟩)
    · exact h
  case check =>
    split_ifs at hst <;> cases hst
    · exact ((h.stopServer n).setPending n (by rintro ⟨⟩)).setStack (.pending n) _ fun _ => by
        rintro ⟨⟩
    · exact h.setPending n (by rintro ⟨⟩)
  case insert =>
    split_ifs at hst with hlock
    have hf : s.find (clientId n) = none := hC hp
    simp only [hf] at hst
    cases hst
    have hch : LockInv (s.setChannel n
        { s.channel n with disconnected := false, pending := .callConnect }) :=
      h.setChannel (by rintro ⟨⟩)
    exact h.unlocked hlock rfl rfl hch.replaced
  case replaced => exact absurd hp (h.replaced n)
  case callConnect =>
    cases hst
    exact ((h.record _ _).setPending n (by rintro ⟨⟩)).setStack (.pending n) _ fun _ => by rintro ⟨⟩

theorem LockInv.workerStep (h : LockInv s) {n : ℕ} {o : WorkerOutcome}
    (hst : s.workerStep n o = some s') : LockInv s' := by
  -- a callback is started
  have call {s₁ : State κ} (h₁ : LockInv s₁) : LockInv (s₁.setStack (.channel n) [.callback]) :=
    h₁.setStack _ _ fun _ => by rintro ⟨⟩
  unfold State.workerStep at hst
  rw [Option.ite_none_left_eq_some] at hst
  obtain ⟨-, hst⟩ := hst
  cases hw : (s.channel n).worker <;> simp only [hw] at hst
  case absent | ended => cases hst
  case head | marking =>
    cases hst
    exact h.setWorker n _
  case onConnect | drainCommands =>
    cases hst
    exact h.setChannel (h.replaced n)
  case waitClient =>
    cases o <;> cases hst
    case ok | timeout => exact h.setWorker n _
    all_goals exact call (h.setWorker n _)
  case receive =>
    cases o <;> cases hst
    case sendError => exact call h
    case fatal | error => exact call (h.setWorker n _)
    all_goals exact h.setWorker n _
  case callMessage | callDisconnect =>
    cases hst
    exact call ((h.record _ _).setWorker n _)
  case spawnDrop m =>
    cases hst
    exact (h.setWorker n _).setStack (.dropper m) _ fun _ => by rintro ⟨⟩
  case waitAny =>
    cases o <;> cases hst
    case error => exact call (h.setWorker n _)
    all_goals exact h.setWorker n _
  case onDisconnect =>
    split_ifs at hst
    cases hf : s.find (clientId n) with
    | none =>
      simp only [hf] at hst
      cases hst
      exact h.setChannel (h.replaced n)
    | some m =>
      simp only [hf] at hst
      split_ifs at hst <;> cases hst
      · have hm : LockInv ((s.erase m).setChannel m { s.channel m with disconnected := true }) :=
          (h.erase m).setChannel (h.replaced m)
        exact hm.setChannel (hm.replaced n)
      · exact h.setChannel (h.replaced n)

theorem LockInv.frameStep (h : LockInv s) {t : Thread κ} {o : HandlerOutcome}
    (hst : s.frameStep t o = some s') : LockInv s' := by
  have ht : s.lock ≠ none → t ≠ .lobby := by
    rintro hne rfl
    obtain ⟨u, hlock⟩ := Option.ne_none_iff_exists'.1 hne
    rw [State.frameStep, (h.lock u hlock).2.2.2] at hst
    cases hst
  unfold State.frameStep at hst
  split at hst
  case h_1 => cases hst
  case h_2 fs hs => cases o <;> cases hst <;> exact h.setStack t _ ht
  case h_3 fs hs =>
    split_ifs at hst
    cases hst
    exact h.setStack t _ ht
  case h_4 i fs hs =>
    split_ifs at hst
    cases hf : s.find i with
    | none =>
      simp only [hf] at hst
      cases hst
      exact h.setStack t _ ht
    | some n =>
      simp only [hf] at hst
      cases hst
      exact (h.erase n).setStack t _ ht
  case h_5 i n fs hs =>
    cases hst
    have hn : LockInv (s.setChannel n { s.channel n with disconnected := true }) :=
      h.setChannel (h.replaced n)
    exact hn.setStack t _ ht
  case h_6 i n fs hs =>
    cases hst
    exact (h.stopServer n).setStack t _ ht
  case h_7 i n fs hs =>
    cases hst
    exact (h.record _ _).setStack t _ ht
  case h_8 n fs hs =>
    cases hst
    exact (h.stopServer n).setStack t _ ht
  case h_9 n fs hs =>
    cases hst
    have hn : LockInv (s.setChannel n { s.channel n with running := false, shutdown := true }) :=
      h.setChannel (h.replaced n)
    exact hn.setStack t _ ht
  case h_10 n fs hs =>
    split_ifs at hst
    cases hst
    exact h.setStack t _ ht

/-- A thread that has not locked `worker_handle` goes on in `stop`. -/
theorem LockInv.setStop (h : LockInv s) {a : κ} (ha : s.handleLock ≠ some a) (pc : Stop) :
    LockInv (s.setStop a pc) :=
  { h with
    handle := fun b hb => by
      have hba : b ≠ a := by
        rintro rfl
        exact ha hb
      exact (Function.update_of_ne hba pc s.stop).trans (h.handle b hb) }

theorem LockInv.stopStep (h : LockInv s) {a : κ} (hst : s.stopStep a = some s') : LockInv s' := by
  have hnot (ha : s.stop a ≠ .joinLobby) : s.handleLock ≠ some a := fun hlock =>
    ha (h.handle a hlock)
  unfold State.stopStep at hst
  cases hs : s.stop a <;> simp only [hs] at hst hnot
  case idle => cases hst
  case lockHandle =>
    split_ifs at hst <;> cases hst
    · refine { h with handle := ?_ }
      rintro b ⟨⟩
      exact Function.update_self ..
    · exact h.setStop (hnot (by rintro ⟨⟩)) _
  case joinLobby =>
    split_ifs at hst
    cases hst
    exact { h with handle := by rintro b ⟨⟩ }
  case takePending =>
    cases hst
    exact { h.setStop (hnot (by rintro ⟨⟩)) (.joinPending s.pendingConnects) with }
  case joinPending ns =>
    cases ns with
    | nil =>
      cases hst
      exact { h.setStop (hnot (by rintro ⟨⟩)) .idle with }
    | cons n ns =>
      simp only at hst
      split_ifs at hst
      cases hst
      exact h.setStop (hnot (by rintro ⟨⟩)) _

theorem LockInv.step (h : LockInv s) {l : Label κ} (hC : Unlocked s l) (hst : s.step l = some s') :
    LockInv s' := by
  cases l <;> simp only [State.step] at hst
  case lobby => exact h.lobbyStep hC hst
  case pending => exact h.pendingStep hC hst
  case worker => exact h.workerStep hst
  case frame => exact h.frameStep hst
  case stop => exact h.stopStep hst
  case call a q =>
    unfold State.callStep at hst
    split_ifs at hst with hidle
    cases q with
    | stop =>
      cases hst
      have ha : s.handleLock ≠ some a := fun hlock => by
        cases hidle.1.symm.trans (h.handle a hlock)
      exact { h.setStop ha .lockHandle with }
    | _ =>
      cases hst
      exact h.setStack (.app a) _ fun _ => by rintro ⟨⟩

/-! ### Waits -/

/-- A thread waits for one of lower rank, or for one of the same rank if both are workers of
channels. -/
def State.rank (s : State κ) : Thread κ → ℕ
  | .lobby => if s.lock = none then 2 else 0
  | .channel _ => 1
  | .pending _ | .dropper _ => 2
  | .app a => if s.stop a = .lockHandle then 4 else 3

omit [DecidableEq κ] in
theorem Waits.rank (h : LockInv s) {t u : Thread κ} (hw : Waits s t u) :
    s.rank u < s.rank t ∨ s.rank u = s.rank t ∧
      Relation.Map s.Joins Thread.channel Thread.channel t u := by
  have happ (a : κ) : 2 < s.rank (.app a) := by
    simp only [State.rank]
    split_ifs <;> decide
  have hlobby : s.rank .lobby ≤ 2 := by
    simp only [State.rank]
    split_ifs <;> decide
  cases hw with
  | clients hlocking hlock =>
    obtain ⟨rfl, hl, -, hstack⟩ := h.lock u hlock
    have hzero : s.rank .lobby = 0 := if_neg (by rw [hlock]; rintro ⟨⟩)
    refine .inl ?_
    rw [hzero]
    cases t with
    | lobby =>
      -- `worker_loop` does not lock `clients` again
      simp only [State.Locking, hstack, hl, reduceCtorEq] at hlocking
    | app a => exact Nat.zero_lt_of_lt (happ a)
    | _ => exact Nat.succ_pos _
  | @join t n fs hs hne =>
    cases t with
    | lobby =>
      have hfree : s.lock = none := by
        cases hlock : s.lock with
        | none => rfl
        | some u =>
          rw [(h.lock u hlock).2.2.2] at hs
          cases hs
      exact .inl (by simp only [State.rank, hfree, if_true]; decide)
    | channel m =>
      have hj : s.Joins m n := by
        rw [State.Joins, State.joining, hs]
        rfl
      exact .inr ⟨rfl, m, n, hj, rfl, rfl⟩
    | app a => exact .inl (Nat.lt_of_succ_lt (happ a))
    | _ => exact .inl (by simp only [State.rank]; decide)
  | @lobby a hs hne => exact .inl (Nat.lt_of_le_of_lt hlobby (happ a))
  | @handle a b hs hlock =>
    have hb : s.stop b ≠ .lockHandle := by
      rw [h.handle b hlock]
      rintro ⟨⟩
    exact .inl (by simp only [State.rank, hs, if_true, if_neg hb]; decide)
  | @pending a n ns hs hne => exact .inl (happ a)

end

/-- **No deadlock.** -/
theorem noDeadlock_of_unlocked {s : State κ} (h : (system κ).ReachWhen Unlocked s) :
    NoDeadlock s := by
  have hinv : LockInv s ∧ JoinInv s := by
    refine System.ReachWhen.invariant (I := fun s : State κ => LockInv s ∧ JoinInv s) ?_ ?_ h
    · rintro s rfl
      exact ⟨.init, .init⟩
    · rintro s l s' ⟨hl, hj⟩ hC hst
      exact ⟨hl.step hC hst, hj.move hC (step_stackMove hst)⟩
  obtain ⟨hl, hj⟩ := hinv
  refine ⟨?_, fun t ht => ?_⟩
  · refine Acyclic.of_rank (hj.acyclic.map ?_) fun t u hw => hw.rank hl
    rintro m n ⟨⟩
    rfl
  · obtain ⟨rfl, -, -, hstack⟩ := hl.lock t ht
    rw [hstack]
    rintro ⟨⟩

/-- `Unlocked`, with a callback that joins only a worker that joins none. -/
def State.unlocked (s : State κ) : Label κ → Bool
  | .lobby _ => s.lobby ≠ .lock || s.clients = []
  | .pending n _ => (s.channel n).pending ≠ .insert || s.find (clientId n) = none
  | .frame (.channel m) _ => ((s.stack (.channel m)).head?.bind Frame.drops).all fun n =>
      n = m || s.joining n = none
  | _ => true

omit [DecidableEq κ] in
theorem unlocked_of_unlocked {s : State κ} {l : Label κ} (h : s.unlocked l = true) :
    Unlocked s l := by
  cases l with
  | lobby o =>
    simp only [State.unlocked, Bool.or_eq_true, decide_eq_true_eq] at h
    exact h.resolve_left ∘ not_not_intro
  | pending n b =>
    simp only [State.unlocked, Bool.or_eq_true, decide_eq_true_eq] at h
    exact h.resolve_left ∘ not_not_intro
  | frame t o =>
    cases t with
    | channel m =>
      intro n hn hne
      simp only [State.unlocked, Option.all_eq_true, Bool.or_eq_true, decide_eq_true_eq] at h
      exact .inl ((h n hn).resolve_left hne)
    | _ => trivial
  | _ => trivial

/-- The client of channel `n` connects and is inserted. -/
def enter {κ : Type*} (n : ℕ) : List (Label κ) :=
  List.replicate 4 (.lobby .ok) ++ List.replicate 3 (.worker n .ok) ++
    List.replicate 4 (.pending n false) ++ [.frame (.pending n) .finish]

/-- Two clients are connected.  A callback for the first calls `disconnect_client` for itself and
then for the other, whose worker is about to look for its entry, while `stop` is called twice. -/
def stopWhileJoining : List (Label Bool) :=
  enter 1 ++ enter 2 ++ [.worker 1 .ok, .worker 1 (.message []), .worker 1 .ok] ++
    .frame (.channel 1) (.disconnectClient 1) :: List.replicate 6 (.frame (.channel 1) .finish) ++
    .frame (.channel 1) (.disconnectClient 2) :: List.replicate 6 (.frame (.channel 1) .finish) ++
    [.worker 2 .ok, .worker 2 .timeout, .worker 2 .disconnect] ++
    [.call false .stop, .stop false, .call true .stop, .lobby .ok, .lobby .ok]

theorem noDeadlock_of_unlocked_stopWhileJoining : ∃ s : State Bool,
    (Waits s (.app true) (.app false) ∧ Waits s (.app false) .lobby ∧
      Waits s (.channel 1) (.channel 2) ∧ Waits s (.channel 2) .lobby) ∧ NoDeadlock s := by
  obtain ⟨s, h, hs⟩ := System.exists_reachWhen (A := system Bool)
    (C := fun s l => s.unlocked l = true) (s := {}) (r := stopWhileJoining)
    (f := fun s => decide ((s.stop true = .lockHandle ∧ s.handleLock = some false) ∧
      (s.stop false = .joinLobby ∧ s.lobby = .drain ∧ s.lock = some .lobby) ∧
      s.stack (.channel 1) = [.join 2, .callback] ∧ s.stack (.channel 2) = [] ∧
      (s.channel 2).worker = .onDisconnect)) (t := true) rfl (by decide +kernel)
  obtain ⟨⟨hstop, hhandle⟩, ⟨hjoin, hlobby, hlock⟩, hstack, hempty, hworker⟩ :=
    of_decide_eq_true hs
  have hlocking : s.Locking (.channel 2) := by
    rw [State.Locking, hempty]
    exact hworker
  refine ⟨s, ⟨.handle hstop hhandle, .lobby hjoin ?_, .join hstack ?_, .clients hlocking hlock⟩,
    noDeadlock_of_unlocked (h.mono fun s l => unlocked_of_unlocked)⟩
  · rw [hlobby]
    rintro ⟨⟩
  · rw [hworker]
    rintro ⟨⟩

/-- The server is stopped while the client is in the map. -/
def stopWithClient : List (Label Unit) :=
  arrive ++ insertOne ++ [.pending 1 false, .frame (.pending 1) .finish, .call () .stop] ++
    [.lobby .ok, .lobby .ok, .lobby (.remove 1)] ++ List.replicate 3 (.frame .lobby .finish) ++
    [.frame .lobby .readClients]

/-- `on_client_disconnect` asks for the number of clients, and waits for the lock of its own
thread. -/
theorem not_noDeadlock : ¬ ∀ (κ : Type) [DecidableEq κ] (s : State κ),
    (system κ).Reach s → NoDeadlock s := by
  intro h
  obtain ⟨s, hr, hs⟩ := System.exists_reachWhen (A := system Unit) (C := fun _ _ => True) (s := {})
    (r := stopWithClient) (f := fun s => (s.lock, s.stack .lobby))
    (t := (some .lobby, [.readClients, .callback, .dropServer 1])) rfl (by decide +kernel)
  simp only [Prod.mk.injEq] at hs
  obtain ⟨hlock, hstack⟩ := hs
  have hlocking : s.Locking .lobby := by
    rw [State.Locking, hstack]
    rfl
  exact (h Unit s hr).1 .lobby (.single (.clients hlocking hlock))

end Dispatch

end Xshm
