import Mathlib.Data.List.Forall2
import Mathlib.Data.List.ReduceOption
import Xshm.Dispatch.Order
import Xshm.System.History

/-!
# Who removes an entry, and who reports it

An entry of `clients` is removed by a call of `disconnect_client`, by `on_disconnect` of its channel
or at the end of `worker_loop`, and each of them then calls `on_client_disconnect`.  The log of a
run notes which of them it was, with the step at which a call of `disconnect_client` began, and what
the call has returned.

As long as the ids have not been used up, whoever has removed an entry reports it, and nobody else
does (`onePathReports`): the path of a call that is about to report is in the log of removals, an id
is removed at most once, and no two calls are on one path (`ReportInv`).
-/

namespace Xshm

namespace Dispatch

variable {κ : Type*}

/-- A path on which an entry is removed. -/
inductive Path where
  /-- The call `disconnect_client(clientId)` that began with step `k` of the run. -/
  | disconnectClient (k : ℕ) (clientId : UInt32)
  /-- `on_disconnect` of channel `n`. -/
  | onDisconnect (n : ℕ)
  /-- The end of `worker_loop`. -/
  | drain
  deriving DecidableEq

/-- The path that a call begins when step `k` pushes it. -/
def Frame.path (k : ℕ) : Frame → Option Path
  | .disconnectClient i => some (.disconnectClient k i)
  | .setDisconnected .. => some .drain
  | _ => none

/-- The id whose `on_client_disconnect` is called next. -/
def Frame.reporting : Frame → Option UInt32
  | .callDisconnect i _ => some i
  | _ => none

/-- The paths of the calls on a stack after step `k`: a call that is new begins its own, one that
stays or goes on keeps the one it had. -/
def retag (k : ℕ) (old new : List Frame) (ps : List (Option Path)) : List (Option Path) :=
  (new.take (new.length - old.length)).map (Frame.path k) ++ ps.drop (old.length - new.length)

/-- What a run has done. -/
structure Log (κ : Type*) where
  steps : ℕ := 0
  /-- The path of each call on the stack of a thread. -/
  paths : Thread κ → List (Option Path) := fun _ => []
  /-- The ids that have been inserted into `clients`. -/
  inserted : List UInt32 := []
  /-- The ids that have been removed, and the path. -/
  removed : List (UInt32 × Option Path) := []
  /-- The calls of `on_client_disconnect`, and the path. -/
  reported : List (UInt32 × Option Path) := []
  /-- The calls of `disconnect_client` that have returned, and whether with `Ok`. -/
  returned : List (ℕ × UInt32 × Bool) := []

/-- The id for which a step calls `on_client_disconnect`. -/
def State.reporting (s : State κ) : Label κ → Option UInt32
  | .worker n _ =>
    if (s.channel n).worker = .callDisconnect ∧ s.stack (.channel n) = [] then some (clientId n)
    else none
  | .frame t _ => (s.stack t).head?.bind Frame.reporting
  | _ => none

namespace Log

variable (g : Log κ)

/-- The path of what a step does. -/
def acting : Label κ → Option Path
  | .lobby _ => some .drain
  | .worker n _ => some (.onDisconnect n)
  | .frame t _ => (g.paths t).head?.join
  | _ => none

/-- The call of `disconnect_client` that a step ends: with `Err` where it looks for the entry, else
with `Ok`. -/
def returning (s s' : State κ) : Label κ → List (ℕ × UInt32 × Bool)
  | .frame t _ =>
    match s.stack t, (g.paths t).head?.join with
    | f :: fs, some (.disconnectClient k i) =>
      if s'.stack t = fs then [(k, i, f ≠ .disconnectClient i)] else []
    | _, _ => []
  | _ => []

/-- A step is noted. -/
def note (s : State κ) (l : Label κ) (s' : State κ) : Log κ where
  steps := g.steps + 1
  paths t := retag g.steps (s.stack t) (s'.stack t) (g.paths t)
  inserted := g.inserted ++ (s'.clients.filter (· ∉ s.clients)).map clientId
  removed := g.removed ++
    (s.clients.filter (· ∉ s'.clients)).map fun n => (clientId n, g.acting l)
  reported := g.reported ++ (s.reporting l).toList.map fun i => (i, g.acting l)
  returned := g.returned ++ g.returning s s' l

/-- The ids that have been reported. -/
def reportedIds : List UInt32 := g.reported.map Prod.fst

end Log

/-- A dispatch server with the log of its run. -/
def logged (κ : Type*) [DecidableEq κ] : System (State κ × Log κ) (Label κ) :=
  (system κ).withHistory {} fun s l s' g => g.note s l s'

/-- One path at most reports that an id has been removed, and it is the one that has removed it;
`disconnect_client` returns `Ok` if it is that path, and `Err` else. -/
structure OnePathReports (s : State κ) (g : Log κ) : Prop where
  once : ∀ i, (s.calls i).count .disconnect ≤ 1
  /-- The log has every call of `on_client_disconnect`. -/
  complete : ∀ i, (s.calls i).count .disconnect = g.reportedIds.count i
  remover : ∀ i p, (i, p) ∈ g.reported →
    i ∈ g.inserted ∧ p.isSome = true ∧ (i, p) ∈ g.removed ∧ ∀ q, (i, q) ∈ g.removed → q = p
  ok : ∀ k i b, (k, i, b) ∈ g.returned →
    (b = true ↔ (i, some (.disconnectClient k i)) ∈ g.removed)

/-! ### What a step does to the stacks -/

/-- A call on no path. -/
def Frame.aside : Frame → Bool
  | .callback | .readClients | .abandon _ | .dropServer _ => true
  | _ => false

theorem Frame.path_of_aside {f : Frame} (h : f.aside = true) (k : ℕ) : f.path k = none := by
  cases f <;> first | rfl | cases h

/-- Calls begin on an empty stack, or from a method of the handler. -/
def MayCall (fs : List Frame) : Prop := ∀ f ∈ fs.head?, f = .callback

theorem MayCall.nil : MayCall [] := by rintro _ ⟨⟩

/-- How a call goes on, unless it removes an entry or calls `on_client_disconnect`. -/
def Frame.next : Frame → Option Frame
  | .setDisconnected i n => some (.stopServer i n)
  | .stopServer i n => some (.callDisconnect i n)
  | .abandon n => some (.dropServer n)
  | .dropServer n => some (.join n)
  | _ => none

/-- What a step does to the stack of its thread, unless it removes an entry or calls
`on_client_disconnect`. -/
inductive QuietTurn : List Frame → List Frame → Prop
  | keep (fs : List Frame) : QuietTurn fs fs
  | push {fs gs : List Frame} (h : gs.all Frame.aside = true) (hfs : MayCall fs) :
      QuietTurn fs (gs ++ fs)
  | ask {fs : List Frame} (i : UInt32) (hfs : MayCall fs) : QuietTurn fs (.disconnectClient i :: fs)
  | pop (f : Frame) (fs : List Frame) : QuietTurn (f :: fs) fs
  | goOn {f f' : Frame} (h : f.next = some f') (fs : List Frame) : QuietTurn (f :: fs) (f' :: fs)

/-- What a step does to the stack of its thread. -/
inductive Turn : List Frame → List Frame → Prop
  | quiet {fs fs' : List Frame} (h : QuietTurn fs fs') : Turn fs fs'
  | found (i : UInt32) (n : ℕ) (fs : List Frame) :
      Turn (.disconnectClient i :: fs) (.setDisconnected i n :: fs)
  | drain (i : UInt32) (n : ℕ) : Turn [] [.setDisconnected i n]
  | report (i : UInt32) (n : ℕ) (fs : List Frame) :
      Turn (.callDisconnect i n :: fs) (.callback :: .dropServer n :: fs)

theorem Frame.next_dropping {f f' : Frame} (h : f.next = some f') (hf : f.dropping = true) :
    f'.dropping = true := by
  cases f <;> cases hf <;> cases h
  rfl

theorem QuietTurn.not_drain {i : UInt32} {n : ℕ} : ¬ QuietTurn [] [.setDisconnected i n] := by
  intro h
  generalize hfs : [Frame.setDisconnected i n] = fs at h
  cases h with
  | keep => cases hfs
  | push h =>
    rw [List.append_nil] at hfs
    subst hfs
    cases h
  | ask => cases hfs

/-- A server goes on being dropped. -/
theorem Turn.dropping {fs fs' : List Frame} (h : Turn fs fs') (hne : fs ≠ [])
    (hfs : ∀ f ∈ fs, f.dropping = true) : ∀ f ∈ fs', f.dropping = true := by
  obtain ⟨f, fs, rfl⟩ := List.exists_cons_of_ne_nil hne
  have hf := hfs f List.mem_cons_self
  have hcall : ¬ MayCall (f :: fs) := fun hc => by
    rw [hc f rfl] at hf
    cases hf
  cases h with
  | quiet h =>
    cases h with
    | keep => exact hfs
    | push h hc => exact absurd hc hcall
    | ask i hc => exact absurd hc hcall
    | pop => exact fun f' hf' => hfs f' (List.mem_cons_of_mem f hf')
    | goOn h =>
      intro f' hf'
      rcases List.mem_cons.1 hf' with rfl | hf'
      · exact Frame.next_dropping h hf
      · exact hfs f' (List.mem_cons_of_mem _ hf')
  | found => cases hf
  | report => cases hf

section Retag

variable (k : ℕ) (fs : List Frame) (ps : List (Option Path))

theorem retag_append (gs : List Frame) :
    retag k fs (gs ++ fs) ps = gs.map (Frame.path k) ++ ps := by
  simp [retag]

theorem retag_self : retag k fs fs ps = ps := retag_append k fs ps []

theorem retag_cons (f : Frame) : retag k fs (f :: fs) ps = f.path k :: ps :=
  retag_append k fs ps [f]

theorem retag_tail (f : Frame) (p : Option Path) : retag k (f :: fs) fs (p :: ps) = ps := by
  simp [retag]

theorem retag_goOn (f f' : Frame) : retag k (f :: fs) (f' :: fs) ps = ps := by
  simp [retag]

theorem retag_report (f f' : Frame) :
    retag k (f :: fs) (.callback :: f' :: fs) ps = none :: ps := by
  simp [retag, Frame.path]

end Retag

/-- No call begins a path, or the last one does. -/
theorem Turn.paths {fs fs' : List Frame} (h : Turn fs fs') (k : ℕ) {ps : List (Option Path)}
    (hlen : fs.length = ps.length) :
    (retag k fs fs' ps).reduceOption.Sublist ps.reduceOption ∨
      (∃ i, fs' = .disconnectClient i :: fs ∧
        retag k fs fs' ps = some (.disconnectClient k i) :: ps) ∨
      fs = [] ∧ (∃ i n, fs' = [.setDisconnected i n]) ∧ retag k fs fs' ps = some .drain :: ps := by
  cases h with
  | quiet h =>
    cases h with
    | keep =>
      left
      rw [retag_self]
    | @push _ gs h =>
      left
      have hn : (gs.map (Frame.path k)).reduceOption = [] := by
        rw [List.reduceOption, List.filterMap_map, List.filterMap_eq_nil_iff]
        exact fun f hf => Frame.path_of_aside (List.all_eq_true.1 h f hf) k
      rw [retag_append, List.reduceOption_append, hn, List.nil_append]
    | ask i => exact .inr (.inl ⟨i, rfl, retag_cons k fs ps _⟩)
    | pop f fs =>
      left
      obtain ⟨p, ps, rfl⟩ := List.exists_cons_of_length_eq_add_one hlen.symm
      rw [retag_tail]
      exact (List.sublist_cons_self p ps).filterMap id
    | goOn h fs =>
      left
      rw [retag_goOn]
  | found i n fs =>
    left
    rw [retag_goOn]
  | drain i n => exact .inr (.inr ⟨rfl, ⟨i, n, rfl⟩, retag_cons k [] ps _⟩)
  | report i n fs =>
    left
    rw [retag_report]
    exact .refl _

/-! ### What a step does to the entries -/

theorem State.record_calls_self (s : State κ) (i : UInt32) (e : Event) :
    (s.record i e).calls i = s.calls i ++ [e] :=
  Function.update_self ..

theorem State.record_calls_of_ne (s : State κ) {i j : UInt32} (h : j ≠ i) (e : Event) :
    (s.record i e).calls j = s.calls j :=
  Function.update_of_ne h ..

/-- No entry is removed, and `on_client_disconnect` is not called. -/
structure Unremoved (s s' : State κ) : Prop where
  clients : s'.clients = s.clients
  entered : ∀ n, (s.channel n).pending.entered = true → (s'.channel n).pending.entered = true
  owes : ∀ n, (s'.channel n).worker.owes = some .disconnect →
    (s.channel n).worker.owes = some .disconnect
  calls : ∀ i, (s'.calls i).count .disconnect = (s.calls i).count .disconnect

namespace Unremoved

variable {s s' : State κ}

theorem refl : Unremoved s s := ⟨rfl, fun _ => id, fun _ => id, fun _ => rfl⟩

theorem setChannel (h : Unremoved s s') {n : ℕ} {ch : Channel}
    (hent : (s'.channel n).pending.entered = true → ch.pending.entered = true)
    (howes : ch.worker.owes = some .disconnect →
      (s'.channel n).worker.owes = some .disconnect) : Unremoved s (s'.setChannel n ch) :=
  { h with
    entered := fun m hm => by
      by_cases hmn : m = n
      · subst hmn
        rw [State.setChannel_channel_self]
        exact hent (h.entered m hm)
      · rw [State.setChannel_channel_of_ne _ hmn]
        exact h.entered m hm
    owes := fun m hm => by
      by_cases hmn : m = n
      · subst hmn
        rw [State.setChannel_channel_self] at hm
        exact h.owes m (howes hm)
      · rw [State.setChannel_channel_of_ne _ hmn] at hm
        exact h.owes m hm }

theorem setWorker (h : Unremoved s s') (n : ℕ) {pc : ServerWorker}
    (hpc : pc.owes = some .disconnect → (s'.channel n).worker.owes = some .disconnect) :
    Unremoved s (s'.setWorker n pc) :=
  h.setChannel id hpc

theorem setPending (h : Unremoved s s') {n : ℕ} {pc : Pending}
    (hpc : (s'.channel n).pending.entered = true → pc.entered = true) :
    Unremoved s (s'.setPending n pc) :=
  h.setChannel hpc id

theorem stopServer (h : Unremoved s s') (n : ℕ) : Unremoved s (s'.stopServer n) :=
  h.setChannel id id

theorem record (h : Unremoved s s') (i : UInt32) {e : Event} (he : e ≠ .disconnect) :
    Unremoved s (s'.record i e) :=
  { h with
    calls := fun j => by
      by_cases hj : j = i
      · subst hj
        rw [State.record_calls_self, List.count_append, List.count_singleton,
          beq_eq_false_iff_ne.2 he]
        exact h.calls j
      · rw [State.record_calls_of_ne _ hj]
        exact h.calls j }

theorem setStack [DecidableEq κ] (h : Unremoved s s') (t : Thread κ) (fs : List Frame) :
    Unremoved s (s'.setStack t fs) :=
  { h with }

end Unremoved

section Steps

variable [DecidableEq κ]

/-- The steps that insert or remove an entry or call `on_client_disconnect`, and the others. -/
inductive PathMove (s : State κ) : Label κ → State κ → Prop
  | quiet {l : Label κ} {s' : State κ} {t : Thread κ} (h : Unremoved s s')
      (hr : s.reporting l = none) (hl : ∀ u o, l = .frame u o → u = t)
      (hs : ∀ u ≠ t, s'.stack u = s.stack u) (ht : QuietTurn (s.stack t) (s'.stack t))
      (hd : ∀ m, t = .dropper m → s.stack t ≠ []) : PathMove s l s'
  | insert {n : ℕ} {b : Bool} (h : (s.channel n).pending = .insert) : PathMove s (.pending n b)
      ({ s with clients := n :: s.clients }.setChannel n
        { s.channel n with disconnected := false, pending := .callConnect })
  | replace {n m : ℕ} {b : Bool} (h : (s.channel n).pending = .insert)
      (hf : s.find (clientId n) = some m) : PathMove s (.pending n b)
        ({ s with clients := n :: s.clients.erase m, lock := some (.pending n) }.setChannel n
          { s.channel n with disconnected := false, pending := .replaced }
          |>.setStack (.pending n) [.dropServer m])
  /-- `disconnect_client` finds the entry. -/
  | remove {t : Thread κ} {o : HandlerOutcome} {n : ℕ} {fs : List Frame}
      (hs : s.stack t = .disconnectClient (clientId n) :: fs) (hn : n ∈ s.clients) :
      PathMove s (.frame t o) ((s.erase n).setStack t (.setDisconnected (clientId n) n :: fs))
  | drain {n : ℕ} {o : LobbyOutcome} (hs : s.stack .lobby = []) (hn : n ∈ s.clients) :
      PathMove s (.lobby o) ((s.erase n).setStack .lobby [.setDisconnected (clientId n) n])
  /-- `on_disconnect` of the channel finds its entry. -/
  | leave {n m : ℕ} {o : WorkerOutcome} (h : (s.channel n).worker = .onDisconnect)
      (hm : m ∈ s.clients) (hid : clientId m = clientId n) : PathMove s (.worker n o)
        (((s.erase m).setChannel m { s.channel m with disconnected := true }).report n
          (.spawnDrop m))
  | spawnDrop {n m : ℕ} {o : WorkerOutcome} (h : (s.channel n).worker = .spawnDrop m) :
      PathMove s (.worker n o)
        ((s.setWorker n .callDisconnect).setStack (.dropper m) [.dropServer m])
  | report {t : Thread κ} {o : HandlerOutcome} {i : UInt32} {n : ℕ} {fs : List Frame}
      (hs : s.stack t = .callDisconnect i n :: fs) : PathMove s (.frame t o)
        ((s.record i .disconnect).setStack t (.callback :: .dropServer n :: fs))
  | leftReport {n : ℕ} {o : WorkerOutcome} (hs : s.stack (.channel n) = [])
      (h : (s.channel n).worker = .callDisconnect) : PathMove s (.worker n o)
        (((s.record (clientId n) .disconnect).setWorker n .marking).setStack (.channel n)
          [.callback])

namespace PathMove

variable {s s' : State κ} {l : Label κ}

/-- No stack changes. -/
theorem still (h : Unremoved s s') (hr : s.reporting l = none) (hs : s'.stack = s.stack)
    (hl : ∀ u o, l ≠ .frame u o) : PathMove s l s' :=
  .quiet (t := .lobby) h hr (fun u o he => absurd he (hl u o)) (fun u _ => congrFun hs u)
    (congrFun hs .lobby ▸ .keep _) (by rintro m ⟨⟩)

/-- The stack of thread `t` changes. -/
theorem turned (h : Unremoved s s') {t : Thread κ} {fs : List Frame}
    (hr : s.reporting l = none) (hl : ∀ u o, l = .frame u o → u = t) (hs : s'.stack = s.stack)
    (ht : QuietTurn (s.stack t) fs) (hd : ∀ m, t = .dropper m → s.stack t ≠ []) :
    PathMove s l (s'.setStack t fs) := by
  refine .quiet (t := t) (h.setStack t fs) hr hl (fun u hu => ?_) ?_ hd
  · rw [State.setStack_stack_of_ne _ hu, hs]
  · rw [State.setStack_stack_self]
    exact ht

/-- Calls that are on no path begin on an empty stack. -/
theorem begun (h : Unremoved s s') {t : Thread κ} {fs : List Frame} (hr : s.reporting l = none)
    (hl : ∀ u o, l ≠ .frame u o) (hs : s'.stack = s.stack) (ht : s.stack t = [])
    (hfs : fs.all Frame.aside = true) (hd : ∀ m, t ≠ .dropper m) :
    PathMove s l (s'.setStack t fs) := by
  refine turned h hr (fun u o he => absurd he (hl u o)) hs ?_ fun m he => absurd he (hd m)
  rw [ht, ← List.append_nil fs]
  exact .push hfs .nil

theorem lobbyStep (hi : EntryInv s) {o : LobbyOutcome} (hst : s.lobbyStep o = some s') :
    PathMove s (.lobby o) s' := by
  have r : Unremoved s s := .refl
  have setLobby (pc : Lobby) : Unremoved s { s with lobby := pc } := { r with }
  unfold State.lobbyStep at hst
  rw [Option.ite_none_left_eq_some, not_not] at hst
  obtain ⟨he, hst⟩ := hst
  have stay {s₁ : State κ} (h : Unremoved s s₁) (hs : s₁.stack = s.stack) :
      PathMove s (.lobby o) s₁ :=
    still h rfl hs (by rintro u o ⟨⟩)
  have push {fs : List Frame} (hfs : fs.all Frame.aside = true) :
      PathMove s (.lobby o) ({ s with lobby := .head }.setStack .lobby fs) :=
    begun (setLobby .head) rfl (by rintro u o ⟨⟩) rfl he hfs (by rintro m ⟨⟩)
  cases hl : s.lobby <;> simp only [hl] at hst
  case head =>
    cases hst
    exact stay (setLobby _) rfl
  case accept =>
    cases o <;> cases hst
    case ok => exact stay { r with } rfl
    case error => exact push rfl
    all_goals exact stay (setLobby .head) rfl
  case startServer n =>
    cases o <;> cases hst
    case ok => exact stay ((setLobby (.respond n)).setWorker n (by rintro ⟨⟩)) rfl
    all_goals exact push rfl
  case respond n =>
    cases o <;> cases hst
    case ok =>
      have hs (ns : List ℕ) : Unremoved s { s with lobby := .head, pendingConnects := ns } :=
        { r with }
      refine stay ((hs _).setPending fun hent => ?_) rfl
      -- the thread is only started now
      rw [(hi.starting n (by rw [hl]; rfl)).2.2] at hent
      cases hent
    all_goals exact push rfl
  case lock =>
    split_ifs at hst
    cases hst
    exact stay { r with } rfl
  case drain =>
    cases o with
    | remove n =>
      simp only at hst
      split_ifs at hst with hn
      cases hst
      exact .drain he hn
    | _ =>
      simp only at hst
      split_ifs at hst
      cases hst
      exact stay { r with } rfl
  case ended => cases hst

theorem pendingStep {n : ℕ} {b : Bool} (hst : s.pendingStep n b = some s') :
    PathMove s (.pending n b) s' := by
  have r : Unremoved s s := .refl
  unfold State.pendingStep at hst
  rw [Option.ite_none_left_eq_some, not_not] at hst
  obtain ⟨he, hst⟩ := hst
  have stay {s₁ : State κ} (h : Unremoved s s₁) (hs : s₁.stack = s.stack) :
      PathMove s (.pending n b) s₁ :=
    still h rfl hs (by rintro u o ⟨⟩)
  cases hp : (s.channel n).pending <;> simp only [hp] at hst
  case absent | ended => cases hst
  case poll =>
    have hr {pc : Pending} : Unremoved s (s.setPending n pc) :=
      r.setPending (by rw [hp]; rintro ⟨⟩)
    split_ifs at hst <;> cases hst
    · exact stay hr rfl
    · exact stay hr rfl
    · exact stay r rfl
  case check connected =>
    split_ifs at hst <;> cases hst
    · exact begun ((r.stopServer n).setPending fun _ => rfl) rfl (by rintro u o ⟨⟩) rfl he rfl
        (by rintro m ⟨⟩)
    · exact stay (r.setPending (by rw [hp]; rintro ⟨⟩)) rfl
  case insert =>
    split_ifs at hst
    cases hf : s.find (clientId n) with
    | none =>
      simp only [hf] at hst
      cases hst
      exact .insert hp
    | some m =>
      simp only [hf] at hst
      cases hst
      exact .replace hp hf
  case replaced =>
    cases hst
    have hs : Unremoved s { s with lock := none } := { r with }
    exact stay (hs.setPending fun _ => rfl) rfl
  case callConnect =>
    cases hst
    exact begun ((r.record _ (by rintro ⟨⟩)).setPending fun _ => rfl) rfl (by rintro u o ⟨⟩) rfl he
      rfl (by rintro m ⟨⟩)

theorem workerStep {n : ℕ} {o : WorkerOutcome} (hst : s.workerStep n o = some s') :
    PathMove s (.worker n o) s' := by
  have r : Unremoved s s := .refl
  unfold State.workerStep at hst
  rw [Option.ite_none_left_eq_some, not_not] at hst
  obtain ⟨he, hst⟩ := hst
  have hr (hw : (s.channel n).worker ≠ .callDisconnect) : s.reporting (.worker n o) = none :=
    if_neg fun hc => hw hc.1
  have stay {s₁ : State κ} (hw : (s.channel n).worker ≠ .callDisconnect) (h : Unremoved s s₁)
      (hs : s₁.stack = s.stack) : PathMove s (.worker n o) s₁ :=
    still h (hr hw) hs (by rintro u o ⟨⟩)
  have push {s₁ : State κ} (hw : (s.channel n).worker ≠ .callDisconnect) (h : Unremoved s s₁)
      (hs : s₁.stack = s.stack) : PathMove s (.worker n o) (s₁.setStack (.channel n) [.callback]) :=
    begun h (hr hw) (by rintro u o ⟨⟩) hs he rfl (by rintro m ⟨⟩)
  cases hw : (s.channel n).worker <;> simp only [hw] at hst
  case absent | ended => cases hst
  case callDisconnect =>
    cases hst
    exact .leftReport he hw
  all_goals
    have hne : (s.channel n).worker ≠ .callDisconnect := by
      rw [hw]
      rintro ⟨⟩
  case head connected =>
    cases hst
    refine stay hne (r.setWorker n ?_) rfl
    split_ifs <;> rintro ⟨⟩
  case marking =>
    cases hst
    exact stay hne (r.setWorker n (by rintro ⟨⟩)) rfl
  case waitClient =>
    cases o <;> cases hst
    case ok | timeout => exact stay hne (r.setWorker n (by rintro ⟨⟩)) rfl
    all_goals exact push hne (r.setWorker n (by rintro ⟨⟩)) rfl
  case onConnect =>
    cases hst
    exact stay hne (r.setChannel id (by rintro ⟨⟩)) rfl
  case drainCommands connected =>
    cases hst
    refine stay hne (r.setChannel id ?_) rfl
    cases connected <;> rintro ⟨⟩
  case receive =>
    cases o <;> cases hst
    case sendError => exact push hne r rfl
    case fatal | error => exact push hne (r.setWorker n (by rintro ⟨⟩)) rfl
    all_goals exact stay hne (r.setWorker n (by rintro ⟨⟩)) rfl
  case callMessage p =>
    cases hst
    exact push hne ((r.record _ (by rintro ⟨⟩)).setWorker n (by rintro ⟨⟩)) rfl
  case waitAny =>
    cases o <;> cases hst
    case error => exact push hne (r.setWorker n (by rintro ⟨⟩)) rfl
    all_goals exact stay hne (r.setWorker n (by rintro ⟨⟩)) rfl
  case onDisconnect =>
    have missed : PathMove s (.worker n o) (s.report n .marking) :=
      stay hne (r.setChannel id (by rintro ⟨⟩)) rfl
    split_ifs at hst
    cases hf : s.find (clientId n) with
    | none =>
      simp only [hf] at hst
      cases hst
      exact missed
    | some m =>
      simp only [hf] at hst
      split_ifs at hst with hd <;> cases hst
      · obtain ⟨hm, hid⟩ := find_some hf
        exact .leave hw hm hid
      · exact missed
  case spawnDrop m =>
    cases hst
    exact .spawnDrop hw

theorem frameStep {t : Thread κ} {o : HandlerOutcome} (hst : s.frameStep t o = some s') :
    PathMove s (.frame t o) s' := by
  have r : Unremoved s s := .refl
  unfold State.frameStep at hst
  cases hs : s.stack t with
  | nil =>
    simp only [hs] at hst
    cases hst
  | cons f fs =>
    -- the last call goes on, or ends
    have turn {s₁ : State κ} {gs : List Frame} (hf : f.reporting = none) (h : Unremoved s s₁)
        (hs₁ : s₁.stack = s.stack) (ht : QuietTurn (f :: fs) gs) :
        PathMove s (.frame t o) (s₁.setStack t gs) := by
      refine turned h ?_ (by rintro u o ⟨⟩; rfl) hs₁ (hs ▸ ht) fun m _ => ?_
      · rw [State.reporting, hs]
        exact hf
      · rw [hs]
        exact List.cons_ne_nil f fs
    cases f <;> simp only [hs] at hst
    case callback =>
      have hc : MayCall (.callback :: fs) := by
        rintro _ ⟨⟩
        rfl
      cases o <;> cases hst
      case finish => exact turn rfl r rfl (.pop _ fs)
      case readClients =>
        have hgs : [Frame.readClients].all Frame.aside = true := rfl
        exact turn rfl r rfl (.push hgs hc)
      case disconnectClient i => exact turn rfl r rfl (.ask i hc)
    case readClients =>
      split_ifs at hst
      cases hst
      exact turn rfl r rfl (.pop _ fs)
    case disconnectClient i =>
      split_ifs at hst
      cases hf : s.find i with
      | none =>
        simp only [hf] at hst
        cases hst
        exact turn rfl r rfl (.pop _ fs)
      | some n =>
        simp only [hf] at hst
        cases hst
        obtain ⟨hn, rfl⟩ := find_some hf
        exact .remove hs hn
    case setDisconnected i n =>
      cases hst
      exact turn rfl (r.setChannel id id) rfl (.goOn rfl fs)
    case stopServer i n =>
      cases hst
      exact turn rfl (r.stopServer n) rfl (.goOn rfl fs)
    case callDisconnect i n =>
      cases hst
      exact .report hs
    case abandon n =>
      cases hst
      exact turn rfl (r.stopServer n) rfl (.goOn rfl fs)
    case dropServer n =>
      cases hst
      refine turn rfl (r.setChannel id id) rfl ?_
      split_ifs
      · exact .pop _ fs
      · exact .goOn rfl fs
    case join n =>
      split_ifs at hst
      cases hst
      exact turn rfl r rfl (.pop _ fs)

theorem callStep {a : κ} {q : Request} (hst : s.callStep a q = some s') :
    PathMove s (.call a q) s' := by
  have r : Unremoved s s := .refl
  unfold State.callStep at hst
  split_ifs at hst with hc
  cases q with
  | stop =>
    cases hst
    exact still { r with } rfl rfl (by rintro u o ⟨⟩)
  | readClients =>
    cases hst
    exact begun r rfl (by rintro u o ⟨⟩) rfl hc.2 rfl (by rintro m ⟨⟩)
  | disconnectClient i =>
    cases hst
    exact turned r rfl (by rintro u o ⟨⟩) rfl (by rw [hc.2]; exact .ask i .nil)
      (by rintro m ⟨⟩)

theorem stopStep {a : κ} (hst : s.stopStep a = some s') : PathMove s (.stop a) s' := by
  have r : Unremoved s s := .refl
  have stay {s₁ : State κ} (h : Unremoved s s₁) (hs : s₁.stack = s.stack) :
      PathMove s (.stop a) s₁ :=
    still h rfl hs (by rintro u o ⟨⟩)
  unfold State.stopStep at hst
  cases hs : s.stop a <;> simp only [hs] at hst
  case idle => cases hst
  case lockHandle =>
    split_ifs at hst <;> cases hst <;> exact stay { r with } rfl
  case joinLobby =>
    split_ifs at hst
    cases hst
    exact stay { r with } rfl
  case takePending =>
    cases hst
    exact stay { r with } rfl
  case joinPending ns =>
    cases ns <;> simp only at hst
    case nil =>
      cases hst
      exact stay { r with } rfl
    case cons n ns =>
      split_ifs at hst
      cases hst
      exact stay { r with } rfl

/-- Every step is one of the moves. -/
theorem of_step (hi : EntryInv s) (hst : s.step l = some s') : PathMove s l s' := by
  cases l with
  | lobby => exact lobbyStep hi hst
  | pending => exact pendingStep hst
  | worker => exact workerStep hst
  | call => exact callStep hst
  | stop => exact stopStep hst
  | frame => exact frameStep hst

end PathMove

end Steps

/-! ### The invariant -/

/-- What is so of a call on a stack and its path. -/
def Log.Fits (g : Log κ) : Frame → Option Path → Prop
  | .disconnectClient i, p => (∃ k, p = some (.disconnectClient k i)) ∧ ∀ j, (j, p) ∉ g.removed
  | .setDisconnected i _, p | .stopServer i _, p | .callDisconnect i _, p =>
    p.isSome = true ∧ (∀ k j, p = some (.disconnectClient k j) → j = i) ∧
      (i, p) ∈ g.removed ∧ i ∉ g.reportedIds
  | .dropServer _, p | .join _, p => ∀ k i, p = some (.disconnectClient k i) → (i, p) ∈ g.removed
  | _, p => p = none

/-- Only the path `a` removes and reports. -/
structure Log.Acts (g g' : Log κ) (a : Option Path) : Prop where
  kept : g.removed ⊆ g'.removed
  removed : ∀ x ∈ g'.removed, x ∈ g.removed ∨ x.2 = a
  reported : ∀ i ∈ g'.reportedIds, i ∈ g.reportedIds ∨ (i, a) ∈ g.removed

/-- The paths of the calls on the stacks. -/
structure PathsInv (s : State κ) (g : Log κ) : Prop where
  length : ∀ t, (s.stack t).length = (g.paths t).length
  nodup : ∀ t, (g.paths t).reduceOption.Nodup
  place : ∀ t u p, some p ∈ g.paths t → some p ∈ g.paths u → t = u
  began : ∀ t k i, some (.disconnectClient k i) ∈ g.paths t → k < g.steps
  drain : ∀ t, some .drain ∈ g.paths t → t = .lobby
  noWorker : ∀ t n, some (.onDisconnect n) ∉ g.paths t
  dropping : ∀ m, ∀ f ∈ s.stack (.dropper m), f.dropping = true
  noDropper : ∀ m p, some p ∉ g.paths (.dropper m)

/-- The entries that have been removed. -/
structure RemovedInv (s : State κ) (g : Log κ) : Prop where
  inserted : ∀ n ∈ s.clients, clientId n ∈ g.inserted
  removed : ∀ x ∈ g.removed, x.1 ∈ g.inserted ∧ x.2.isSome = true ∧
    (∀ k i, x.2 = some (.disconnectClient k i) → k < g.steps) ∧
    ∃ n, clientId n = x.1 ∧ (s.channel n).pending.entered = true ∧ n ∉ s.clients
  once : (g.removed.map Prod.fst).Nodup

/-- The calls of `on_client_disconnect`. -/
structure ReportedInv (s : State κ) (g : Log κ) : Prop where
  owing : ∀ n, (s.channel n).worker.owes = some .disconnect →
    (clientId n, some (.onDisconnect n)) ∈ g.removed ∧ clientId n ∉ g.reportedIds
  removed : ∀ x ∈ g.reported, x ∈ g.removed
  once : g.reportedIds.Nodup
  complete : ∀ i, (s.calls i).count .disconnect = g.reportedIds.count i

/-- The calls of `disconnect_client` that have returned. -/
structure ReturnedInv (g : Log κ) : Prop where
  returned : ∀ x ∈ g.returned, x.1 < g.steps ∧
    (x.2.2 = true ↔ (x.2.1, some (.disconnectClient x.1 x.2.1)) ∈ g.removed)
  pending : ∀ t k i, some (.disconnectClient k i) ∈ g.paths t → ∀ b, (k, i, b) ∉ g.returned

structure RemovalInv (s : State κ) (g : Log κ) : Prop where
  paths : PathsInv s g
  fits : ∀ t, List.Forall₂ g.Fits (s.stack t) (g.paths t)
  removed : RemovedInv s g
  reported : ReportedInv s g
  returned : ReturnedInv g

namespace PathsInv

variable {s s' : State κ} {g : Log κ}

theorem init : PathsInv ({} : State κ) {} where
  length _ := rfl
  nodup _ := List.nodup_nil
  place := by rintro _ _ _ ⟨⟩
  began := by rintro _ _ _ ⟨⟩
  drain := by rintro _ ⟨⟩
  noWorker := by rintro _ _ ⟨⟩
  dropping := by rintro _ _ ⟨⟩
  noDropper := by rintro _ _ ⟨⟩

/-- A path that a step begins on thread `t` is nowhere else. -/
def Fresh (g : Log κ) (t : Thread κ) (p : Path) : Prop :=
  (∀ u, some p ∉ g.paths u) ∧ (p = .drain ∧ t = .lobby ∨ ∃ i, p = .disconnectClient g.steps i)

theorem note_paths_of_ne {l : Label κ} {u : Thread κ} (hs : s'.stack u = s.stack u) :
    (g.note s l s').paths u = g.paths u := by
  change retag _ _ _ _ = _
  rw [hs, retag_self]

/-- No thread but `t` begins a path, and that begins at most one. -/
theorem fresh (h : PathsInv s g) {t : Thread κ} (ht : Turn (s.stack t) (s'.stack t))
    (hlobby : ∀ i n, s'.stack t = [.setDisconnected i n] → s.stack t = [] → t = .lobby)
    (l : Label κ) :
    ((g.note s l s').paths t).reduceOption.Sublist (g.paths t).reduceOption ∨
      ∃ p, Fresh g t p ∧ (g.note s l s').paths t = some p :: g.paths t := by
  rcases ht.paths g.steps (h.length t) with hsub | ⟨i, -, hp⟩ | ⟨hnil, ⟨i, n, hs'⟩, hp⟩
  · exact .inl hsub
  · refine .inr ⟨_, ⟨fun u hu => ?_, .inr ⟨i, rfl⟩⟩, hp⟩
    exact lt_irrefl _ (h.began u _ _ hu)
  · have ht := hlobby i n hs' hnil
    refine .inr ⟨_, ⟨fun u hu => ?_, .inl ⟨rfl, ht⟩⟩, hp⟩
    -- no thread but `worker_loop` is on that path, and it has no call in progress
    have hlen := h.length t
    rw [ht, ← h.drain u hu] at hlen
    rw [ht, ← h.drain u hu] at hnil
    rw [hnil] at hlen
    rw [List.eq_nil_of_length_eq_zero hlen.symm] at hu
    cases hu

/-- The stack of one thread changes. -/
theorem note (h : PathsInv s g) {l : Label κ} {t : Thread κ}
    (hs : ∀ u ≠ t, s'.stack u = s.stack u)
    (hfresh : ((g.note s l s').paths t).reduceOption.Sublist (g.paths t).reduceOption ∨
      ∃ p, Fresh g t p ∧ (g.note s l s').paths t = some p :: g.paths t)
    (hdrop : ∀ m, t = .dropper m → (∀ f ∈ s'.stack t, f.dropping = true) ∧
      ((g.note s l s').paths t).reduceOption.Sublist (g.paths t).reduceOption) :
    PathsInv s' (g.note s l s') := by
  have hne {u : Thread κ} (hu : u ≠ t) : (g.note s l s').paths u = g.paths u :=
    note_paths_of_ne (hs u hu)
  have hold {p : Path}
      (hsub : ((g.note s l s').paths t).reduceOption.Sublist (g.paths t).reduceOption)
      (hp : some p ∈ (g.note s l s').paths t) : some p ∈ g.paths t :=
    List.reduceOption_mem_iff.1 (hsub.subset (List.reduceOption_mem_iff.2 hp))
  -- a path is an old one of the thread, or begins now
  have hmem {u : Thread κ} {p : Path} (hp : some p ∈ (g.note s l s').paths u) :
      some p ∈ g.paths u ∨ u = t ∧ Fresh g t p := by
    by_cases hu : u = t
    · subst hu
      rcases hfresh with hsub | ⟨q, hq, he⟩
      · exact .inl (hold hsub hp)
      · rw [he] at hp
        rcases List.mem_cons.1 hp with hp | hp
        · cases hp
          exact .inr ⟨rfl, hq⟩
        · exact .inl hp
    · exact .inl (hne hu ▸ hp)
  refine ⟨fun u => ?_, fun u => ?_, fun u v p hu hv => ?_, fun u k i hu => ?_, fun u hu => ?_,
    fun u n hu => ?_, fun m => ?_, fun m p hm => ?_⟩
  · change _ = (retag _ _ _ _).length
    have := h.length u
    simp only [retag, List.length_append, List.length_map, List.length_take, List.length_drop]
    omega
  · by_cases hu : u = t
    · subst hu
      rcases hfresh with hsub | ⟨q, hq, he⟩
      · exact (h.nodup u).sublist hsub
      · rw [he, List.reduceOption_cons_of_some, List.nodup_cons, List.reduceOption_mem_iff]
        exact ⟨hq.1 u, h.nodup u⟩
    · rw [hne hu]
      exact h.nodup u
  · rcases hmem hu with hu | ⟨rfl, hq⟩ <;> rcases hmem hv with hv | ⟨rfl, hq'⟩
    · exact h.place u v p hu hv
    · exact absurd hu (hq'.1 u)
    · exact absurd hv (hq.1 v)
    · rfl
  · rcases hmem hu with hu | ⟨-, -, ⟨⟨⟩, -⟩ | ⟨j, he⟩⟩
    · exact Nat.lt_succ_of_lt (h.began u k i hu)
    · cases he
      exact Nat.lt_succ_self _
  · rcases hmem hu with hu | ⟨rfl, -, ⟨-, ht⟩ | ⟨j, ⟨⟩⟩⟩
    · exact h.drain u hu
    · exact ht
  · rcases hmem hu with hu | ⟨-, -, ⟨⟨⟩, -⟩ | ⟨j, ⟨⟩⟩⟩
    exact h.noWorker u n hu
  · by_cases hm : .dropper m = t
    · subst hm
      exact (hdrop m rfl).1
    · rw [hs _ hm]
      exact h.dropping m
  · by_cases hmt : .dropper m = t
    · subst hmt
      exact h.noDropper m p (hold (hdrop m rfl).2 hm)
    · exact h.noDropper m p (hne hmt ▸ hm)

/-- One thread makes a turn. -/
theorem turn (h : PathsInv s g) {t : Thread κ} (hs : ∀ u ≠ t, s'.stack u = s.stack u)
    (ht : Turn (s.stack t) (s'.stack t)) (hd : ∀ m, t = .dropper m → s.stack t ≠ [])
    (hlobby : ∀ i n, s'.stack t = [.setDisconnected i n] → s.stack t = [] → t = .lobby)
    (l : Label κ) : PathsInv s' (g.note s l s') := by
  refine h.note hs (h.fresh ht hlobby l) ?_
  rintro m rfl
  have hdrop := ht.dropping (hd m rfl) (h.dropping m)
  refine ⟨hdrop, ?_⟩
  rcases ht.paths g.steps (h.length _) with hsub | ⟨i, hs', -⟩ | ⟨-, ⟨i, n, hs'⟩, -⟩
  · exact hsub
  all_goals
    have := hdrop _ (hs' ▸ List.mem_cons_self)
    cases this

/-- A client is to be dropped by a thread of its own. -/
theorem spawnDrop (h : PathsInv s g) {m : ℕ} (hs : ∀ u ≠ .dropper m, s'.stack u = s.stack u)
    (hm : s'.stack (.dropper m) = [.dropServer m]) (l : Label κ) : PathsInv s' (g.note s l s') := by
  have hsub : ((g.note s l s').paths (.dropper m)).reduceOption.Sublist
      (g.paths (.dropper m)).reduceOption := by
    change (retag _ _ _ _).reduceOption.Sublist _
    have hn (k : ℕ) : (([Frame.dropServer m].take k).map (Frame.path g.steps)).reduceOption =
        [] := by
      cases k with
      | zero => rfl
      | succ k =>
        rw [List.take_succ_cons, List.take_nil]
        rfl
    rw [hm, retag, List.reduceOption_append, hn, List.nil_append]
    exact (List.drop_sublist _ _).filterMap id
  refine h.note hs (.inl hsub) fun m' he => ⟨?_, hsub⟩
  rw [hm]
  intro f hf
  cases List.mem_singleton.1 hf
  rfl

end PathsInv

section Notes

variable {s s' : State κ} {g g' : Log κ} {l : Label κ}

theorem mem_reportedIds {i : UInt32} : i ∈ g.reportedIds ↔ ∃ p, (i, p) ∈ g.reported := by
  rw [Log.reportedIds, List.mem_map]
  constructor
  · rintro ⟨⟨i, p⟩, h, rfl⟩
    exact ⟨p, h⟩
  · rintro ⟨p, h⟩
    exact ⟨_, h, rfl⟩

theorem RemovedInv.unique (h : RemovedInv s g) {i : UInt32} {p q : Option Path}
    (hp : (i, p) ∈ g.removed) (hq : (i, q) ∈ g.removed) : p = q :=
  congrArg Prod.snd (List.inj_on_of_nodup_map h.once hp hq rfl)

/-- What the path `a` does is nothing to the calls on other paths. -/
theorem Log.Acts.fits {a : Option Path} (ha : g.Acts g' a) (h : RemovedInv s g) {fs : List Frame}
    {ps : List (Option Path)} (hf : List.Forall₂ g.Fits fs ps) (hps : a ∉ ps) :
    List.Forall₂ g'.Fits fs ps := by
  induction hf with
  | nil => exact .nil
  | @cons f p fs ps hfp _ ih =>
    rw [List.mem_cons, not_or] at hps
    refine .cons ?_ (ih hps.2)
    have hnew {i : UInt32} (hi : (i, p) ∈ g'.removed) : (i, p) ∈ g.removed :=
      (ha.removed _ hi).resolve_right fun he => hps.1 he.symm
    have hrep {i : UInt32} (hi : (i, p) ∈ g.removed) (hr : i ∉ g.reportedIds) :
        i ∉ g'.reportedIds := fun hr' =>
      hps.1 (h.unique ((ha.reported i hr').resolve_left hr) hi)
    cases f
    case disconnectClient i => exact ⟨hfp.1, fun j hj => hfp.2 j (hnew hj)⟩
    case setDisconnected i n | stopServer i n | callDisconnect i n =>
      obtain ⟨hsome, hown, hrem, hr⟩ := hfp
      exact ⟨hsome, hown, ha.kept hrem, hrep hrem hr⟩
    case dropServer n | join n => exact fun k i hp => ha.kept (hfp k i hp)
    case callback | readClients | abandon n => exact hfp

theorem Frame.next_fits {f f' : Frame} {p : Option Path} (h : f.next = some f')
    (hf : g.Fits f p) : g.Fits f' p := by
  cases f with
  | setDisconnected | stopServer | dropServer =>
    cases h
    exact hf
  | abandon =>
    cases h
    obtain rfl : p = none := hf
    rintro _ _ ⟨⟩
  | _ => cases h

/-- Nothing is removed or reported. -/
theorem QuietTurn.fits {fs fs' : List Frame} (ht : QuietTurn fs fs') {k : ℕ}
    {ps : List (Option Path)} (h : List.Forall₂ g.Fits fs ps)
    (hk : ∀ i j, (j, some (.disconnectClient k i)) ∉ g.removed) :
    List.Forall₂ g.Fits fs' (retag k fs fs' ps) := by
  cases ht with
  | keep =>
    rw [retag_self]
    exact h
  | @push _ gs hgs =>
    rw [retag_append]
    refine List.rel_append ?_ h
    clear h
    induction gs with
    | nil => exact .nil
    | cons f gs ih =>
      rw [List.all_cons, Bool.and_eq_true] at hgs
      refine .cons ?_ (ih hgs.2)
      rw [Frame.path_of_aside hgs.1]
      cases f
      case dropServer => rintro _ _ ⟨⟩
      case callback | readClients | abandon => rfl
      all_goals cases hgs.1
  | ask i =>
    rw [retag_cons]
    exact .cons ⟨⟨k, rfl⟩, hk i⟩ h
  | pop f fs =>
    cases h with
    | cons hfp h =>
      rw [retag_tail]
      exact h
  | goOn hf fs =>
    rw [retag_goOn]
    cases h with
    | cons hfp h => exact .cons (Frame.next_fits hf hfp) h

theorem mem_returning {x : ℕ × UInt32 × Bool} (hx : x ∈ g.returning s s' l) :
    ∃ t o f fs, l = .frame t o ∧ s.stack t = f :: fs ∧ s'.stack t = fs ∧
      (g.paths t).head?.join = some (.disconnectClient x.1 x.2.1) ∧
      x.2.2 = decide (f ≠ .disconnectClient x.2.1) := by
  cases l with
  | frame t o =>
    simp only [Log.returning] at hx
    split at hx
    case h_1 f fs k i hs hp =>
      split_ifs at hx with hs'
      · cases List.mem_singleton.1 hx
        exact ⟨t, o, f, fs, rfl, hs, hs', hp, rfl⟩
      · cases hx
    case h_2 => cases hx
  | _ => cases hx

/-- A call that goes on has not returned. -/
theorem returning_eq_nil {t : Thread κ} {o : HandlerOutcome}
    (h : (s.stack t).length ≤ (s'.stack t).length) : g.returning s s' (.frame t o) = [] := by
  refine List.eq_nil_iff_forall_not_mem.2 fun x hx => ?_
  obtain ⟨u, o', f, fs, hl, hs, hs', -⟩ := mem_returning hx
  cases hl
  rw [hs, hs', List.length_cons] at h
  exact Nat.not_succ_le_self _ h

/-- A path on a stack was there before, or begins with the step. -/
theorem mem_retag {k : ℕ} {fs fs' : List Frame} {ps : List (Option Path)} {p : Path}
    (h : some p ∈ retag k fs fs' ps) : some p ∈ ps ∨ ∃ f, Frame.path k f = some p := by
  rcases List.mem_append.1 h with h | h
  · obtain ⟨f, -, hf⟩ := List.mem_map.1 h
    exact .inr ⟨f, hf⟩
  · exact .inl (List.mem_of_mem_drop h)

theorem mem_note_paths {u : Thread κ} {k : ℕ} {i : UInt32}
    (h : some (.disconnectClient k i) ∈ (g.note s l s').paths u) :
    some (.disconnectClient k i) ∈ g.paths u ∨ k = g.steps := by
  refine (mem_retag h).imp_right ?_
  rintro ⟨f, hf⟩
  cases f <;> cases hf
  rfl

/-- The path of the last call is first in the list of its thread. -/
theorem paths_eq_cons {t : Thread κ} {p : Path} (h : (g.paths t).head?.join = some p) :
    ∃ ps, g.paths t = some p :: ps := by
  cases hp : g.paths t with
  | nil =>
    rw [hp] at h
    cases h
  | cons q ps =>
    rw [hp] at h
    obtain rfl : q = some p := h
    exact ⟨ps, rfl⟩

/-- Only calls of `disconnect_client` that have not returned remove entries on its path. -/
theorem ReturnedInv.note (h : ReturnedInv g) (hp : PathsInv s g)
    (hsub : g.removed ⊆ (g.note s l s').removed)
    (hrem : ∀ k i, (i, some (.disconnectClient k i)) ∈ (g.note s l s').removed →
      (i, some (.disconnectClient k i)) ∈ g.removed ∨
        ∃ t, some (.disconnectClient k i) ∈ g.paths t)
    (hret : ∀ x ∈ g.returning s s' l,
      (x.2.2 = true ↔ (x.2.1, some (.disconnectClient x.1 x.2.1)) ∈ (g.note s l s').removed)) :
    ReturnedInv (g.note s l s') := by
  have hlt {x : ℕ × UInt32 × Bool} (hx : x ∈ g.returning s s' l) : x.1 < g.steps := by
    obtain ⟨t, o, f, fs, -, -, -, hpath, -⟩ := mem_returning hx
    obtain ⟨ps, hps⟩ := paths_eq_cons hpath
    exact hp.began t _ _ (hps ▸ List.mem_cons_self)
  refine ⟨fun x hx => ?_, fun u k i hu b hx => ?_⟩
  · rcases List.mem_append.1 hx with hx | hx
    · obtain ⟨hk, hb⟩ := h.returned x hx
      refine ⟨Nat.lt_succ_of_lt hk, hb.trans ⟨fun hm => hsub hm, fun hm => ?_⟩⟩
      refine (hrem _ _ hm).resolve_right ?_
      rintro ⟨t, ht⟩
      exact h.pending t _ _ ht _ hx
    · exact ⟨Nat.lt_succ_of_lt (hlt hx), hret x hx⟩
  · rcases List.mem_append.1 hx with hx | hx
    · rcases mem_note_paths hu with hu | rfl
      · exact h.pending u k i hu b hx
      · exact lt_irrefl _ (h.returned _ hx).1
    · obtain ⟨t, o, f, fs, rfl, hs, hs', hpath, -⟩ := mem_returning hx
      obtain ⟨ps, hps⟩ := paths_eq_cons hpath
      rcases mem_note_paths hu with hu' | hk
      · -- the path was on the stack of the thread only, where its call has ended
        obtain rfl := hp.place u t _ hu' (hps ▸ List.mem_cons_self)
        have hnd := hp.nodup u
        rw [hps, List.reduceOption_cons_of_some, List.nodup_cons, List.reduceOption_mem_iff] at hnd
        refine hnd.1 ?_
        change _ ∈ retag _ _ _ _ at hu
        rw [hs, hs', hps, retag_tail] at hu
        exact hu
      · exact absurd (hlt hx) (hk ▸ lt_irrefl _)

/-! ### The entries -/

theorem note_removed_of_subset (h : s.clients ⊆ s'.clients) :
    (g.note s l s').removed = g.removed := by
  have hnil : s.clients.filter (· ∉ s'.clients) = [] :=
    List.filter_eq_nil_iff.2 fun n hn => by simpa using h hn
  simp only [Log.note, hnil, List.map_nil, List.append_nil]

theorem note_removed_of_erase {n : ℕ} (hn : n ∈ s.clients) (hnd : s.clients.Nodup)
    (hc : s'.clients = s.clients.erase n) :
    (g.note s l s').removed = g.removed ++ [(clientId n, g.acting l)] := by
  have hone : s.clients.filter (· ∉ s'.clients) = [n] := by
    have hiff : ∀ m ∈ s.clients, decide (m ∉ s'.clients) = (m == n) := fun m hm => by
      rw [hc, beq_eq_decide]
      simp [hnd.mem_erase_iff, hm]
    rw [List.filter_congr hiff, List.filter_beq, List.count_eq_one_of_mem hnd hn]
    rfl
  simp only [Log.note, hone, List.map_cons, List.map_nil]

theorem mem_note_inserted {n : ℕ} (h : n ∈ s.clients → clientId n ∈ g.inserted)
    (hn : n ∈ s'.clients) : clientId n ∈ (g.note s l s').inserted := by
  refine List.mem_append.2 ?_
  by_cases hc : n ∈ s.clients
  · exact .inl (h hc)
  · exact .inr (List.mem_map.2 ⟨n, List.mem_filter.2 ⟨hn, decide_eq_true hc⟩, rfl⟩)

namespace RemovedInv

theorem init : RemovedInv ({} : State κ) {} where
  inserted := by rintro _ ⟨⟩
  removed := by rintro _ ⟨⟩
  once := List.nodup_nil

/-- No entry with a removed id is in the map, as long as the ids have not been used up. -/
theorem not_removed (h : RemovedInv s g) (hi : EntryInv s) (hb : s.nextClientId ≤ 2 ^ 32) {n : ℕ}
    (hn : (s.channel n).pending.entered = true → n ∈ s.clients) (hu : 0 < n ∧ n < s.nextClientId)
    (p : Option Path) : (clientId n, p) ∉ g.removed := fun hp => by
  obtain ⟨-, -, -, m, hid, hent, hm⟩ := h.removed _ hp
  have hmu := hi.used_of_entered hent
  obtain rfl : m = n := clientId_inj (by omega) (by omega) hid
  exact hm (hn hent)

/-- No entry is removed. -/
theorem keep (h : RemovedInv s g) (hc : s.clients ⊆ s'.clients)
    (hent : ∀ n, (s.channel n).pending.entered = true → (s'.channel n).pending.entered = true)
    (hnew : ∀ n ∈ s'.clients, n ∉ s.clients → (s.channel n).pending.entered = false) :
    RemovedInv s' (g.note s l s') := by
  have hrem : (g.note s l s').removed = g.removed := note_removed_of_subset hc
  refine ⟨fun n hn => mem_note_inserted (h.inserted n) hn, fun x hx => ?_, hrem ▸ h.once⟩
  rw [hrem] at hx
  obtain ⟨hins, hsome, hk, m, hid, hm, hmc⟩ := h.removed x hx
  refine ⟨List.mem_append_left _ hins, hsome, fun k i he => Nat.lt_succ_of_lt (hk k i he), m, hid,
    hent m hm, fun hc' => ?_⟩
  have := hnew m hc' hmc
  rw [hm] at this
  cases this

/-- The entry of channel `n` is removed. -/
theorem erase (h : RemovedInv s g) (hi : EntryInv s) (hb : s.nextClientId ≤ 2 ^ 32) {n : ℕ}
    (hn : n ∈ s.clients) (hc : s'.clients = s.clients.erase n)
    (hent : ∀ m, (s.channel m).pending.entered = true → (s'.channel m).pending.entered = true)
    (ha : (g.acting l).isSome = true)
    (hk : ∀ k i, g.acting l = some (.disconnectClient k i) → k < g.steps) :
    RemovedInv s' (g.note s l s') := by
  have hrem : (g.note s l s').removed = g.removed ++ [(clientId n, g.acting l)] :=
    note_removed_of_erase hn hi.nodup hc
  refine ⟨fun m hm => mem_note_inserted (h.inserted m) hm, fun x hx => ?_, ?_⟩
  · rw [hrem] at hx
    rcases List.mem_append.1 hx with hx | hx
    · obtain ⟨hins, hsome, hk, m, hid, hm, hmc⟩ := h.removed x hx
      refine ⟨List.mem_append_left _ hins, hsome, fun k i he => Nat.lt_succ_of_lt (hk k i he), m,
        hid, hent m hm, fun hc' => hmc ?_⟩
      rw [hc] at hc'
      exact List.mem_of_mem_erase hc'
    · cases List.mem_singleton.1 hx
      refine ⟨List.mem_append_left _ (h.inserted n hn), ha,
        fun k i he => Nat.lt_succ_of_lt (hk k i he), n, rfl, hent n (hi.entry n hn).1, ?_⟩
      rw [hc]
      exact hi.nodup.not_mem_erase
  · rw [hrem, List.map_append, List.nodup_append]
    refine ⟨h.once, List.nodup_singleton _, ?_⟩
    intro i hi' j hj
    cases List.mem_singleton.1 hj
    rintro rfl
    obtain ⟨⟨i, p⟩, hx, he⟩ := List.mem_map.1 hi'
    cases he
    exact h.not_removed hi hb (fun _ => hn) (hi.used_of_entered (hi.entry n hn).1) p hx

end RemovedInv

/-! ### The calls of `on_client_disconnect` -/

theorem note_reported_of_none (h : s.reporting l = none) :
    (g.note s l s').reported = g.reported := by
  simp only [Log.note, h, Option.toList_none, List.map_nil, List.append_nil]

theorem note_reported_of_some {i : UInt32} (h : s.reporting l = some i) :
    (g.note s l s').reported = g.reported ++ [(i, g.acting l)] := by
  simp only [Log.note, h, Option.toList_some, List.map_cons, List.map_nil]

namespace ReportedInv

theorem init : ReportedInv ({} : State κ) {} where
  owing := by rintro _ ⟨⟩
  removed := by rintro _ ⟨⟩
  once := List.nodup_nil
  complete _ := rfl

/-- Nothing is reported. -/
theorem keep (h : ReportedInv s g) (hr : s.reporting l = none)
    (hsub : g.removed ⊆ (g.note s l s').removed)
    (howes : ∀ n, (s'.channel n).worker.owes = some .disconnect →
      (s.channel n).worker.owes = some .disconnect ∨
        (clientId n, some (.onDisconnect n)) ∈ (g.note s l s').removed ∧
          clientId n ∉ g.reportedIds)
    (hcalls : ∀ i, (s'.calls i).count .disconnect = (s.calls i).count .disconnect) :
    ReportedInv s' (g.note s l s') := by
  have hrep : (g.note s l s').reported = g.reported := note_reported_of_none hr
  have hids : (g.note s l s').reportedIds = g.reportedIds := congrArg (List.map Prod.fst) hrep
  refine ⟨fun n hn => ?_, fun x hx => hsub (h.removed x (hrep ▸ hx)), hids ▸ h.once, fun i => ?_⟩
  · rw [hids]
    rcases howes n hn with hn | hn
    · exact (h.owing n hn).imp_left fun hm => hsub hm
    · exact hn
  · rw [hids, hcalls]
    exact h.complete i

/-- `on_client_disconnect` is called for an id, on the path that has removed it. -/
theorem report (h : ReportedInv s g) {i : UInt32} (hr : s.reporting l = some i)
    (hc : s'.clients = s.clients) (hi : (i, g.acting l) ∈ g.removed) (hnot : i ∉ g.reportedIds)
    (howes : ∀ n, (s'.channel n).worker.owes = some .disconnect →
      (s.channel n).worker.owes = some .disconnect ∧ clientId n ≠ i)
    (hcalls : s'.calls = (s.record i .disconnect).calls) : ReportedInv s' (g.note s l s') := by
  have hrem : (g.note s l s').removed = g.removed :=
    note_removed_of_subset (hc ▸ List.Subset.refl _)
  have hrep : (g.note s l s').reported = g.reported ++ [(i, g.acting l)] := note_reported_of_some hr
  have hids : (g.note s l s').reportedIds = g.reportedIds ++ [i] := by
    rw [Log.reportedIds, hrep, List.map_append]
    rfl
  refine ⟨fun n hn => ?_, fun x hx => ?_, ?_, fun j => ?_⟩
  · obtain ⟨ho, hne⟩ := howes n hn
    obtain ⟨hm, hnr⟩ := h.owing n ho
    rw [hids, hrem, List.mem_append, List.mem_singleton]
    exact ⟨hm, fun hx => hx.elim hnr hne⟩
  · rw [hrep] at hx
    rw [hrem]
    rcases List.mem_append.1 hx with hx | hx
    · exact h.removed x hx
    · cases List.mem_singleton.1 hx
      exact hi
  · rw [hids, List.nodup_append]
    refine ⟨h.once, List.nodup_singleton i, fun j hj k hk => ?_⟩
    rw [List.mem_singleton.1 hk]
    rintro rfl
    exact hnot hj
  · rw [hids, hcalls, List.count_append, List.count_singleton]
    by_cases hji : j = i
    · subst hji
      rw [State.record_calls_self, List.count_append, List.count_singleton, h.complete j,
        beq_self_eq_true, beq_self_eq_true]
    · rw [State.record_calls_of_ne _ hji, beq_eq_false_iff_ne.2 (Ne.symm hji)]
      exact h.complete j

end ReportedInv

end Notes

/-! ### Every step -/

namespace RemovalInv

variable {s s' : State κ} {g : Log κ} {l : Label κ}

theorem init : RemovalInv ({} : State κ) {} where
  paths := .init
  fits _ := .nil
  removed := .init
  reported := .init
  returned := ⟨by rintro _ ⟨⟩, by rintro _ _ _ ⟨⟩⟩

/-- The last call of a thread and its path. -/
theorem top (h : RemovalInv s g) {t : Thread κ} {f : Frame} {fs : List Frame}
    (hs : s.stack t = f :: fs) : ∃ p ps, g.paths t = p :: ps ∧ (g.paths t).head?.join = p ∧
      g.Fits f p ∧ List.Forall₂ g.Fits fs ps := by
  have hf := h.fits t
  rw [hs] at hf
  cases hp : g.paths t with
  | nil =>
    rw [hp] at hf
    cases hf
  | cons p ps =>
    rw [hp] at hf
    cases hf with
    | cons hfp hf => exact ⟨p, ps, rfl, rfl, hfp, hf⟩

/-- The path of the last call is on no other stack, and on its own only once. -/
theorem not_mem (h : RemovalInv s g) {t : Thread κ} {p : Path} {ps : List (Option Path)}
    (hp : g.paths t = some p :: ps) : some p ∉ ps ∧ ∀ u ≠ t, some p ∉ g.paths u := by
  have hnd := h.paths.nodup t
  rw [hp, List.reduceOption_cons_of_some, List.nodup_cons, List.reduceOption_mem_iff] at hnd
  exact ⟨hnd.1, fun u hu hm => hu (h.paths.place u t p hm (hp ▸ List.mem_cons_self))⟩

/-- `disconnect_client` returns what it should. -/
theorem ok_iff (h : RemovalInv s g) {x : ℕ × UInt32 × Bool} (hx : x ∈ g.returning s s' l) :
    x.2.2 = true ↔ (x.2.1, some (.disconnectClient x.1 x.2.1)) ∈ g.removed := by
  obtain ⟨t, o, f, fs, rfl, hs, -, hpath, hb⟩ := mem_returning hx
  obtain ⟨p, ps, -, hhead, hfp, -⟩ := h.top hs
  obtain rfl : p = some (.disconnectClient x.1 x.2.1) := hhead.symm.trans hpath
  rw [hb, decide_eq_true_iff]
  cases f with
  | disconnectClient i =>
    obtain ⟨⟨k, he⟩, hnot⟩ := hfp
    cases he
    exact ⟨fun hne => absurd rfl hne, fun hm => absurd hm (hnot _)⟩
  | setDisconnected i n | stopServer i n | callDisconnect i n =>
    obtain ⟨-, hown, hm, -⟩ := hfp
    obtain rfl := hown _ _ rfl
    exact ⟨fun _ => hm, fun _ => by rintro ⟨⟩⟩
  | dropServer n | join n => exact ⟨fun _ => hfp _ _ rfl, fun _ => by rintro ⟨⟩⟩
  | callback | readClients | abandon => cases hfp

/-- Nothing is removed or reported on any path. -/
theorem keep (h : RemovalInv s g) (hpaths : PathsInv s' (g.note s l s'))
    (hfits : ∀ t, List.Forall₂ g.Fits (s'.stack t) ((g.note s l s').paths t))
    (hr : s.reporting l = none) (hc : s.clients ⊆ s'.clients)
    (hent : ∀ n, (s.channel n).pending.entered = true → (s'.channel n).pending.entered = true)
    (hnew : ∀ n ∈ s'.clients, n ∉ s.clients → (s.channel n).pending.entered = false)
    (howes : ∀ n, (s'.channel n).worker.owes = some .disconnect →
      (s.channel n).worker.owes = some .disconnect)
    (hcalls : ∀ i, (s'.calls i).count .disconnect = (s.calls i).count .disconnect) :
    RemovalInv s' (g.note s l s') := by
  have hrem : (g.note s l s').removed = g.removed := note_removed_of_subset hc
  have hrep : (g.note s l s').reported = g.reported := note_reported_of_none hr
  have hsame : (g.note s l s').Fits = g.Fits := by
    funext f p
    cases f <;> simp only [Log.Fits, Log.reportedIds, hrem, hrep]
  refine ⟨hpaths, fun t => hsame ▸ hfits t, h.removed.keep hc hent hnew,
    h.reported.keep hr (hrem ▸ List.Subset.refl _) (fun n hn => .inl (howes n hn)) hcalls,
    h.returned.note h.paths (hrem ▸ List.Subset.refl _) (fun k i hm => .inl (hrem ▸ hm))
      fun x hx => ?_⟩
  rw [hrem]
  exact h.ok_iff hx

/-- The entry of channel `n` is removed on path `p`. -/
theorem erase (h : RemovalInv s g) (hi : EntryInv s) (hb : s.nextClientId ≤ 2 ^ 32) {n : ℕ}
    (hn : n ∈ s.clients) (hc : s'.clients = s.clients.erase n) {p : Path}
    (ha : g.acting l = some p) (hr : s.reporting l = none)
    (hpaths : PathsInv s' (g.note s l s'))
    (hfits : g.Acts (g.note s l s') (some p) → (clientId n, some p) ∈ (g.note s l s').removed →
      clientId n ∉ (g.note s l s').reportedIds →
        ∀ t, List.Forall₂ (g.note s l s').Fits (s'.stack t) ((g.note s l s').paths t))
    (hent : ∀ m, (s.channel m).pending.entered = true → (s'.channel m).pending.entered = true)
    (howes : ∀ m, (s'.channel m).worker.owes = some .disconnect →
      (s.channel m).worker.owes = some .disconnect ∨ clientId m = clientId n ∧ p = .onDisconnect m)
    (hcalls : ∀ i, (s'.calls i).count .disconnect = (s.calls i).count .disconnect)
    (hret : g.returning s s' l = [])
    (hk : ∀ k i, p = .disconnectClient k i → ∃ t, some p ∈ g.paths t) :
    RemovalInv s' (g.note s l s') := by
  have hrem : (g.note s l s').removed = g.removed ++ [(clientId n, some p)] :=
    ha ▸ note_removed_of_erase hn hi.nodup hc
  have hids : (g.note s l s').reportedIds = g.reportedIds :=
    congrArg (List.map Prod.fst) (note_reported_of_none hr)
  have hsub : g.removed ⊆ (g.note s l s').removed := hrem ▸ List.subset_append_left ..
  have hmem : (clientId n, some p) ∈ (g.note s l s').removed :=
    hrem ▸ List.mem_append_right _ (List.mem_singleton_self _)
  -- an id that is in the map has not been reported
  have hnot : clientId n ∉ g.reportedIds := fun hx => by
    obtain ⟨q, hq⟩ := mem_reportedIds.1 hx
    exact h.removed.not_removed hi hb (fun _ => hn) (hi.used_of_entered (hi.entry n hn).1) q
      (h.reported.removed _ hq)
  have hacts : g.Acts (g.note s l s') (some p) := by
    refine ⟨hsub, fun x hx => ?_, fun i hx => .inl (hids ▸ hx)⟩
    rw [hrem] at hx
    refine (List.mem_append.1 hx).imp_right fun hx => ?_
    rw [List.mem_singleton.1 hx]
  refine ⟨hpaths, hfits hacts hmem (hids ▸ hnot),
    h.removed.erase hi hb hn hc hent (by rw [ha]; rfl) fun k i he => ?_,
    h.reported.keep hr hsub (fun m hm => (howes m hm).imp_right ?_) hcalls,
    h.returned.note h.paths hsub (fun k i hm => ?_) (by rw [hret]; rintro x ⟨⟩)⟩
  · rw [ha, Option.some_inj] at he
    obtain ⟨t, ht⟩ := hk k i he
    exact h.paths.began t k i (he ▸ ht)
  · rintro ⟨hid, rfl⟩
    exact hid ▸ ⟨hmem, hnot⟩
  · rw [hrem] at hm
    refine (List.mem_append.1 hm).imp_right fun hm => ?_
    have he : some (.disconnectClient k i) = some p := congrArg Prod.snd (List.mem_singleton.1 hm)
    obtain rfl := Option.some_inj.1 he
    exact hk k i rfl

/-- `on_client_disconnect` is called for an id, on the path that has removed it. -/
theorem report (h : RemovalInv s g) {i : UInt32} (hr : s.reporting l = some i)
    (hc : s'.clients = s.clients) (hi : (i, g.acting l) ∈ g.removed) (hnot : i ∉ g.reportedIds)
    (hpaths : PathsInv s' (g.note s l s'))
    (hfits : g.Acts (g.note s l s') (g.acting l) → (g.note s l s').removed = g.removed →
      ∀ t, List.Forall₂ (g.note s l s').Fits (s'.stack t) ((g.note s l s').paths t))
    (hent : ∀ m, (s.channel m).pending.entered = true → (s'.channel m).pending.entered = true)
    (howes : ∀ n, (s'.channel n).worker.owes = some .disconnect →
      (s.channel n).worker.owes = some .disconnect ∧ clientId n ≠ i)
    (hcalls : s'.calls = (s.record i .disconnect).calls) (hret : g.returning s s' l = []) :
    RemovalInv s' (g.note s l s') := by
  have hrem : (g.note s l s').removed = g.removed :=
    note_removed_of_subset (hc ▸ List.Subset.refl _)
  have hids : (g.note s l s').reportedIds = g.reportedIds ++ [i] := by
    rw [Log.reportedIds, note_reported_of_some hr, List.map_append]
    rfl
  have hacts : g.Acts (g.note s l s') (g.acting l) := by
    refine ⟨hrem ▸ List.Subset.refl _, fun x hx => .inl (hrem ▸ hx), fun j hj => ?_⟩
    rw [hids] at hj
    refine (List.mem_append.1 hj).imp_right fun hj => ?_
    rw [List.mem_singleton.1 hj]
    exact hi
  refine ⟨hpaths, hfits hacts hrem, h.removed.keep (hc ▸ List.Subset.refl _) hent ?_,
    h.reported.report hr hc hi hnot howes hcalls,
    h.returned.note h.paths (hrem ▸ List.Subset.refl _) (fun k j hm => .inl (hrem ▸ hm))
      (by rw [hret]; rintro x ⟨⟩)⟩
  exact fun n hn hne => absurd (hc ▸ hn) hne

theorem quiet (h : RemovalInv s g) {t : Thread κ} (hu : Unremoved s s')
    (hr : s.reporting l = none) (hs : ∀ u ≠ t, s'.stack u = s.stack u)
    (ht : QuietTurn (s.stack t) (s'.stack t)) (hd : ∀ m, t = .dropper m → s.stack t ≠ []) :
    RemovalInv s' (g.note s l s') := by
  have hlobby (i : UInt32) (n : ℕ) (hs' : s'.stack t = [.setDisconnected i n])
      (hnil : s.stack t = []) : t = .lobby := by
    rw [hnil, hs'] at ht
    exact absurd ht QuietTurn.not_drain
  refine h.keep (h.paths.turn hs (.quiet ht) hd hlobby l) (fun u => ?_) hr
    (hu.clients ▸ List.Subset.refl _) hu.entered (fun n hn hne => absurd (hu.clients ▸ hn) hne)
    hu.owes hu.calls
  by_cases hut : u = t
  · subst hut
    refine ht.fits (h.fits u) fun i j hm => ?_
    exact lt_irrefl _ ((h.removed.removed _ hm).2.2.1 _ i rfl)
  · rw [hs u hut, PathsInv.note_paths_of_ne (hs u hut)]
    exact h.fits u

theorem insert (h : RemovalInv s g) {n : ℕ} (hp : (s.channel n).pending = .insert)
    (hu : Unremoved s { s' with clients := s.clients }) (hc : s'.clients = n :: s.clients)
    (hs : s'.stack = s.stack) (hr : s.reporting l = none) : RemovalInv s' (g.note s l s') := by
  have hpaths := h.paths.turn (t := .lobby) (fun u _ => congrFun hs u)
    (.quiet (congrFun hs .lobby ▸ .keep _)) (by rintro m ⟨⟩) (fun _ _ _ _ => rfl) l
  refine h.keep hpaths (fun u => ?_) hr (hc ▸ List.subset_cons_self n _) hu.entered
    (fun m hm hne => ?_) hu.owes hu.calls
  · rw [PathsInv.note_paths_of_ne (congrFun hs u), hs]
    exact h.fits u
  · rw [hc] at hm
    obtain rfl := (List.mem_cons.1 hm).resolve_right hne
    rw [hp]
    rfl

/-- `on_disconnect` of channel `n` finds the entry. -/
theorem leave (h : RemovalInv s g) (hi : EntryInv s) (hb : s.nextClientId ≤ 2 ^ 32) {n m : ℕ}
    {o : WorkerOutcome} (hw : (s.channel n).worker = .onDisconnect) (hm : m ∈ s.clients)
    (hid : clientId m = clientId n) (hs : s'.stack = s.stack) (hc : s'.clients = s.clients.erase m)
    (hent : ∀ k, (s.channel k).pending.entered = true → (s'.channel k).pending.entered = true)
    (howes : ∀ k, (s'.channel k).worker.owes = some .disconnect →
      (s.channel k).worker.owes = some .disconnect ∨ k = n)
    (hcalls : s'.calls = s.calls) : RemovalInv s' (g.note s (.worker n o) s') := by
  have hpaths := h.paths.turn (t := .lobby) (fun u _ => congrFun hs u)
    (.quiet (congrFun hs .lobby ▸ .keep _)) (by rintro _ ⟨⟩) (fun _ _ _ _ => rfl) (.worker n o)
  have hr : s.reporting (.worker n o) = none := by
    refine if_neg fun hc => ?_
    rw [hw] at hc
    cases hc.1
  refine h.erase hi hb hm hc rfl hr hpaths (fun hacts _ _ u => ?_) hent (fun k hk => ?_)
    (fun _ => by rw [hcalls]) rfl (by rintro k i ⟨⟩)
  · rw [hs, PathsInv.note_paths_of_ne (congrFun hs u)]
    exact hacts.fits h.removed (h.fits u) (h.paths.noWorker u n)
  · refine (howes k hk).imp_right ?_
    rintro rfl
    exact ⟨hid.symm, rfl⟩

variable [DecidableEq κ]

theorem spawnDrop (h : RemovalInv s g) {n m : ℕ} {o : WorkerOutcome}
    (hw : (s.channel n).worker = .spawnDrop m) :
    RemovalInv ((s.setWorker n .callDisconnect).setStack (.dropper m) [.dropServer m])
      (g.note s (.worker n o)
        ((s.setWorker n .callDisconnect).setStack (.dropper m) [.dropServer m])) := by
  have hs {u : Thread κ} (hu : u ≠ .dropper m) :
      ((s.setWorker n .callDisconnect).setStack (.dropper m) [.dropServer m]).stack u = s.stack u :=
    State.setStack_stack_of_ne _ hu _
  have hm : ((s.setWorker n .callDisconnect).setStack (.dropper m) [.dropServer m]).stack
      (.dropper m) = [.dropServer m] := State.setStack_stack_self ..
  have hpaths := h.paths.spawnDrop (fun u => hs) hm (.worker n o)
  have hun : Unremoved s ((s.setWorker n .callDisconnect).setStack (.dropper m) [.dropServer m]) :=
    (Unremoved.refl.setWorker n fun _ => by rw [hw]; rfl).setStack _ _
  have hr : s.reporting (.worker n o) = none := by
    refine if_neg fun hc => ?_
    rw [hw] at hc
    cases hc.1
  refine h.keep hpaths (fun u => ?_) hr (List.Subset.refl _) hun.entered
    (fun _ hn hne => absurd hn hne) hun.owes hun.calls
  by_cases hu : u = .dropper m
  · subst hu
    have hlen := hpaths.length (.dropper m)
    have hnone := hpaths.noDropper m
    rw [hm] at hlen ⊢
    obtain ⟨p, hp⟩ := List.length_eq_one_iff.1 hlen.symm
    rw [hp] at hnone ⊢
    refine .cons (fun k i he => ?_) .nil
    rw [he] at hnone
    exact absurd (List.mem_singleton_self _) (hnone _)
  · rw [hs hu, PathsInv.note_paths_of_ne (hs hu)]
    exact h.fits u

/-- `disconnect_client` finds the entry. -/
theorem found (h : RemovalInv s g) (hi : EntryInv s) (hb : s.nextClientId ≤ 2 ^ 32)
    {t : Thread κ} {n : ℕ} {fs : List Frame} {o : HandlerOutcome}
    (hs : s.stack t = .disconnectClient (clientId n) :: fs) (hn : n ∈ s.clients) :
    RemovalInv ((s.erase n).setStack t (.setDisconnected (clientId n) n :: fs))
      (g.note s (.frame t o) ((s.erase n).setStack t (.setDisconnected (clientId n) n :: fs))) := by
  obtain ⟨p, ps, hps, ha, ⟨⟨k, rfl⟩, hnot⟩, hfs⟩ := h.top hs
  obtain ⟨htail, hother⟩ := h.not_mem hps
  have hself : ((s.erase n).setStack t (.setDisconnected (clientId n) n :: fs)).stack t =
      .setDisconnected (clientId n) n :: fs := State.setStack_stack_self ..
  have hne {u : Thread κ} (hu : u ≠ t) :
      ((s.erase n).setStack t (.setDisconnected (clientId n) n :: fs)).stack u = s.stack u :=
    State.setStack_stack_of_ne _ hu _
  have ht : Turn (s.stack t)
      (((s.erase n).setStack t (.setDisconnected (clientId n) n :: fs)).stack t) := by
    rw [hself, hs]
    exact .found _ n fs
  have hnil : s.stack t ≠ [] := by
    rw [hs]
    exact List.cons_ne_nil _ fs
  have hpaths := h.paths.turn (fun u => hne) ht (fun _ _ => hnil) (fun _ _ _ he => absurd he hnil)
    (.frame t o)
  have hr : s.reporting (.frame t o) = none := by
    rw [State.reporting, hs]
    rfl
  refine h.erase hi hb hn rfl ha hr hpaths (fun hacts hmem hrep u => ?_) (fun _ => id)
    (fun _ => .inl) (fun _ => rfl) (returning_eq_nil ?_) fun k' i he => ⟨t, ?_⟩
  · by_cases hu : u = t
    · subst hu
      rw [hself]
      change List.Forall₂ _ _ (retag _ _ _ _)
      rw [hself, hs, hps, retag_goOn]
      refine .cons ⟨rfl, fun k' j he => ?_, hmem, hrep⟩ (hacts.fits h.removed hfs htail)
      cases he
      rfl
    · rw [hne hu, PathsInv.note_paths_of_ne (hne hu)]
      exact hacts.fits h.removed (h.fits u) (hother u hu)
  · rw [hself, hs]
    exact le_rfl
  · rw [hps]
    exact List.mem_cons_self

/-- An entry is removed at the end of `worker_loop`. -/
theorem drain (h : RemovalInv s g) (hi : EntryInv s) (hb : s.nextClientId ≤ 2 ^ 32)
    {n : ℕ} {o : LobbyOutcome} (hs : s.stack .lobby = []) (hn : n ∈ s.clients) :
    RemovalInv ((s.erase n).setStack .lobby [.setDisconnected (clientId n) n])
      (g.note s (.lobby o) ((s.erase n).setStack .lobby [.setDisconnected (clientId n) n])) := by
  have hself : ((s.erase n).setStack .lobby [.setDisconnected (clientId n) n]).stack .lobby =
      [.setDisconnected (clientId n) n] := State.setStack_stack_self ..
  have hne {u : Thread κ} (hu : u ≠ .lobby) :
      ((s.erase n).setStack .lobby [.setDisconnected (clientId n) n]).stack u = s.stack u :=
    State.setStack_stack_of_ne _ hu _
  have ht : Turn (s.stack .lobby)
      (((s.erase n).setStack .lobby [.setDisconnected (clientId n) n]).stack .lobby) := by
    rw [hself, hs]
    exact .drain _ n
  have hpaths := h.paths.turn (fun u => hne) ht (by rintro m ⟨⟩) (fun _ _ _ _ => rfl) (.lobby o)
  have hnil : g.paths .lobby = [] :=
    List.eq_nil_of_length_eq_zero (by rw [← h.paths.length, hs]; rfl)
  refine h.erase hi hb hn rfl rfl rfl hpaths (fun hacts hmem hrep u => ?_) (fun _ => id)
    (fun _ => .inl) (fun _ => rfl) rfl (by rintro k i ⟨⟩)
  by_cases hu : u = .lobby
  · subst hu
    rw [hself]
    change List.Forall₂ _ _ (retag _ _ _ _)
    rw [hself, hs, hnil, retag_cons]
    exact .cons ⟨rfl, by rintro k j ⟨⟩, hmem, hrep⟩ .nil
  · rw [hne hu, PathsInv.note_paths_of_ne (hne hu)]
    exact hacts.fits h.removed (h.fits u) fun hm => hu (h.paths.drain u hm)

/-- The call that has removed an entry calls `on_client_disconnect`. -/
theorem callDisconnect (h : RemovalInv s g) {t : Thread κ} {i : UInt32} {n : ℕ} {fs : List Frame}
    {o : HandlerOutcome} (hs : s.stack t = .callDisconnect i n :: fs) :
    RemovalInv ((s.record i .disconnect).setStack t (.callback :: .dropServer n :: fs))
      (g.note s (.frame t o)
        ((s.record i .disconnect).setStack t (.callback :: .dropServer n :: fs))) := by
  obtain ⟨p, ps, hps, ha, ⟨hsome, hown, hrem, hnot⟩, hfs⟩ := h.top hs
  obtain ⟨p, rfl⟩ := Option.isSome_iff_exists.1 hsome
  obtain ⟨htail, hother⟩ := h.not_mem hps
  have ha : g.acting (.frame t o) = some p := ha
  have hself : ((s.record i .disconnect).setStack t (.callback :: .dropServer n :: fs)).stack t =
      .callback :: .dropServer n :: fs := State.setStack_stack_self ..
  have hne {u : Thread κ} (hu : u ≠ t) :
      ((s.record i .disconnect).setStack t (.callback :: .dropServer n :: fs)).stack u =
        s.stack u := State.setStack_stack_of_ne _ hu _
  have ht : Turn (s.stack t)
      (((s.record i .disconnect).setStack t (.callback :: .dropServer n :: fs)).stack t) := by
    rw [hself, hs]
    exact .report i n fs
  have hnil : s.stack t ≠ [] := by
    rw [hs]
    exact List.cons_ne_nil _ fs
  have hpaths := h.paths.turn (fun u => hne) ht (fun _ _ => hnil) (fun _ _ _ he => absurd he hnil)
    (.frame t o)
  have hr : s.reporting (.frame t o) = some i := by
    rw [State.reporting, hs]
    rfl
  refine h.report hr rfl (ha ▸ hrem) hnot hpaths (fun hacts hrem' u => ?_) (fun _ => id)
    (fun m hm => ⟨hm, ?_⟩) rfl (returning_eq_nil ?_)
  · rw [ha] at hacts
    by_cases hu : u = t
    · subst hu
      rw [hself]
      change List.Forall₂ _ _ (retag _ _ _ _)
      rw [hself, hs, hps, retag_report]
      refine .cons rfl (.cons (fun k j he => ?_) (hacts.fits h.removed hfs htail))
      obtain rfl := hown k j he
      exact hrem' ▸ hrem
    · rw [hne hu, PathsInv.note_paths_of_ne (hne hu)]
      exact hacts.fits h.removed (h.fits u) (hother u hu)
  · -- no channel has removed that entry
    rintro rfl
    have hp := h.removed.unique hrem (h.reported.owing m hm).1
    exact h.paths.noWorker t m (hp ▸ hps ▸ List.mem_cons_self)
  · rw [hself, hs]
    exact Nat.le_succ _

/-- `on_disconnect` of channel `n` calls `on_client_disconnect`. -/
theorem leftCall (h : RemovalInv s g) {n : ℕ} {o : WorkerOutcome} (hs : s.stack (.channel n) = [])
    (hw : (s.channel n).worker = .callDisconnect) :
    RemovalInv (((s.record (clientId n) .disconnect).setWorker n .marking).setStack (.channel n)
        [.callback])
      (g.note s (.worker n o) (((s.record (clientId n) .disconnect).setWorker n .marking).setStack
        (.channel n) [.callback])) := by
  have hself : (((s.record (clientId n) .disconnect).setWorker n .marking).setStack (.channel n)
      [.callback]).stack (.channel n) = [.callback] := State.setStack_stack_self ..
  have hne {u : Thread κ} (hu : u ≠ .channel n) :
      (((s.record (clientId n) .disconnect).setWorker n .marking).setStack (.channel n)
        [.callback]).stack u = s.stack u := State.setStack_stack_of_ne _ hu _
  have ht : QuietTurn (s.stack (.channel n))
      ((((s.record (clientId n) .disconnect).setWorker n .marking).setStack (.channel n)
        [.callback]).stack (.channel n)) := by
    rw [hself, hs]
    have hgs : [Frame.callback].all Frame.aside = true := rfl
    exact .push hgs .nil
  have hpaths := h.paths.turn (fun u => hne) (.quiet ht) (by rintro m ⟨⟩)
    (fun i m he => by rw [hself] at he; cases he) (.worker n o)
  obtain ⟨hrem, hnot⟩ := h.reported.owing n (by rw [hw]; rfl)
  refine h.report (if_pos ⟨hw, hs⟩) rfl hrem hnot hpaths (fun hacts hrem' u => ?_) (fun m hm => ?_)
    (fun m hm => ?_) rfl rfl
  · have hfits := hacts.fits h.removed (h.fits u) (h.paths.noWorker u n)
    by_cases hu : u = .channel n
    · subst hu
      refine ht.fits hfits fun i j hm => ?_
      rw [hrem'] at hm
      exact lt_irrefl _ ((h.removed.removed _ hm).2.2.1 _ i rfl)
    · rw [hne hu, PathsInv.note_paths_of_ne (hne hu)]
      exact hfits
  · exact (congrArg Pending.entered
      (State.setChannel_keeps _ Channel.pending (by rfl) m)).trans hm
  · change ((s.setWorker n .marking).channel m).worker.owes = _ at hm
    by_cases hmn : m = n
    · subst hmn
      rw [State.setWorker, State.setChannel_channel_self] at hm
      cases hm
    · rw [State.setWorker, State.setChannel_channel_of_ne _ hmn] at hm
      refine ⟨hm, fun hid => hmn ?_⟩
      have hp := h.removed.unique (hid ▸ (h.reported.owing m hm).1) hrem
      cases hp
      rfl

theorem move (h : RemovalInv s g) (hi : EntryInv s) (hb : s.nextClientId ≤ 2 ^ 32)
    (hm : PathMove s l s') : RemovalInv s' (g.note s l s') := by
  cases hm with
  | quiet hu hr hl hs ht hd => exact h.quiet hu hr hs ht hd
  | insert hp => exact h.insert hp (Unremoved.refl.setChannel (fun _ => rfl) id) rfl rfl rfl
  | @replace n m b hp hf =>
    -- two channels would have one id
    obtain ⟨hm, hid⟩ := find_some hf
    have hmu := hi.used_of_entered (hi.entry m hm).1
    have hnu := hi.used n (.inl (by rw [hp]; rintro ⟨⟩))
    obtain rfl := clientId_inj (by omega) (by omega) hid
    have hent := (hi.entry m hm).1
    rw [hp] at hent
    cases hent
  | remove hs hn => exact h.found hi hb hs hn
  | drain hs hn => exact h.drain hi hb hs hn
  | @leave n m o hw hm hid =>
    refine h.leave hi hb hw hm hid rfl rfl (fun k hk => ?_) (fun k hk => ?_) rfl
    · exact (congrArg Pending.entered ((State.setChannel_keeps _ Channel.pending (by rfl) k).trans
        (State.setChannel_keeps _ Channel.pending (by rfl) k))).trans hk
    · refine or_iff_not_imp_right.2 fun hkn => ?_
      rw [State.report, State.setChannel_channel_of_ne _ hkn] at hk
      exact (congrArg ServerWorker.owes
        (State.setChannel_keeps _ Channel.worker (by rfl) k)).symm.trans hk
  | spawnDrop hw => exact h.spawnDrop hw
  | report hs => exact h.callDisconnect hs
  | leftReport hs hw => exact h.leftCall hs hw

end RemovalInv

/-! ### Every run -/

variable [DecidableEq κ]

/-- Ids are only taken. -/
theorem EntryMove.nextClientId_le {s s' : State κ} {l : Label κ} (h : EntryMove s l s') :
    s.nextClientId ≤ s'.nextClientId := by
  cases h with
  | same hs => exact hs.nextClientId.ge
  | accept => exact Nat.le_succ _
  | _ => exact le_rfl

/-- An application thread disconnects client 1, and its `on_client_disconnect` tries to do it once
more. -/
def disconnectTwice : List (Label Unit) :=
  arrive ++ insertOne ++ .call () (.disconnectClient 1) ::
    List.replicate 4 (.frame (.app ()) .finish) ++
    [.frame (.app ()) (.disconnectClient 1), .frame (.app ()) .finish]

end Dispatch

end Xshm
