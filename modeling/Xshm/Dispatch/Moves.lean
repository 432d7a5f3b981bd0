import Mathlib.Data.List.Nodup
import Xshm.Dispatch.Server

/-!
# What a step does to the entries of `clients`

Most steps of a dispatch server leave the map of its clients, the flags of the clients and the calls
of the handler that are still owed as they are (`SameEntries`).  `EntryMove` lists the others, and
`step_entryMove` says that there are no more.
-/

namespace Xshm

namespace Dispatch

variable {κ : Type*}

/-- The thread is waiting for its client, or has seen it and is about to insert it. -/
def Pending.waiting : Pending → Bool
  | .poll | .check _ | .insert => true
  | _ => false

/-- The method of the handler that the worker is about to call for its client. -/
def ServerWorker.owes : ServerWorker → Option Event
  | .callMessage p => some (.message p)
  | .spawnDrop _ | .callDisconnect => some .disconnect
  | _ => none

def ServerWorker.started : ServerWorker → Bool
  | .absent => false
  | _ => true

/-- The entry that has been removed, and whose `on_client_disconnect` is still to be called. -/
def Frame.leaving : Frame → Option (UInt32 × ℕ)
  | .setDisconnected i n | .stopServer i n | .callDisconnect i n => some (i, n)
  | _ => none

/-- An `AutoServer` is being dropped. -/
def Frame.dropping : Frame → Bool
  | .dropServer _ | .join _ => true
  | _ => false

/-- The entries for which thread `t` is to call `on_client_disconnect`. -/
def State.leavers (s : State κ) (t : Thread κ) : List (UInt32 × ℕ) :=
  (s.stack t).filterMap Frame.leaving

theorem State.leavers_setStack_self [DecidableEq κ] (s : State κ) (t : Thread κ)
    (fs : List Frame) : (s.setStack t fs).leavers t = fs.filterMap Frame.leaving := by
  rw [leavers, setStack_stack_self]

theorem State.leavers_setStack_of_ne [DecidableEq κ] (s : State κ) {t u : Thread κ} (h : u ≠ t)
    (fs : List Frame) : (s.setStack t fs).leavers u = s.leavers u := by
  rw [leavers, setStack_stack_of_ne s h, leavers]

/-- What is tracked of a channel. -/
def Channel.entry (ch : Channel) :=
  (ch.pending, ch.disconnected, ch.worker.owes, ch.worker.started)

/-- The channel that `worker_loop` is about to start or to announce. -/
def Lobby.starting : Lobby → Option ℕ
  | .startServer n | .respond n => some n
  | _ => none

/-- No entry changes. -/
structure SameEntries (s s' : State κ) : Prop where
  clients : s'.clients = s.clients
  entry : ∀ n, (s'.channel n).entry = (s.channel n).entry
  reported : ∀ n, (s'.channel n).reported = true → (s.channel n).reported = true
  leavers : ∀ t, (s'.leavers t).Sublist (s.leavers t)
  lobby : s'.lobby.starting = s.lobby.starting ∨ s'.lobby.starting = none
  nextClientId : s'.nextClientId = s.nextClientId
  calls : s'.calls = s.calls

namespace SameEntries

variable {s s' : State κ}

theorem refl : SameEntries s s :=
  ⟨rfl, fun _ => rfl, fun _ h => h, fun _ => .refl _, .inl rfl, rfl, rfl⟩

theorem setChannel (h : SameEntries s s') {n : ℕ} {ch : Channel}
    (hn : ch.entry = (s'.channel n).entry)
    (hr : ch.reported = true → (s'.channel n).reported = true) :
    SameEntries s (s'.setChannel n ch) :=
  { h with
    entry := fun m => by
      by_cases hm : m = n
      · subst hm
        rw [State.setChannel_channel_self]
        exact hn.trans (h.entry m)
      · rw [State.setChannel_channel_of_ne _ hm]
        exact h.entry m
    reported := fun m => by
      by_cases hm : m = n
      · subst hm
        rw [State.setChannel_channel_self]
        exact fun hc => h.reported m (hr hc)
      · rw [State.setChannel_channel_of_ne _ hm]
        exact h.reported m }

theorem setWorker (h : SameEntries s s') {n : ℕ} {pc : ServerWorker}
    (ho : pc.owes = (s'.channel n).worker.owes)
    (hs : pc.started = (s'.channel n).worker.started) : SameEntries s (s'.setWorker n pc) :=
  h.setChannel (by simp only [Channel.entry, ho, hs]) id

theorem stopServer (h : SameEntries s s') (n : ℕ) : SameEntries s (s'.stopServer n) :=
  h.setChannel rfl id

variable [DecidableEq κ]

theorem setStack (h : SameEntries s s') {t : Thread κ} {fs : List Frame}
    (hfs : (fs.filterMap Frame.leaving).Sublist (s.leavers t)) : SameEntries s (s'.setStack t fs) :=
  { h with
    leavers := fun u => by
      by_cases hu : u = t
      · subst hu
        rw [State.leavers_setStack_self]
        exact hfs
      · rw [State.leavers_setStack_of_ne _ hu]
        exact h.leavers u }

/-- Calls that remove no entry are pushed on an empty stack. -/
theorem push (h : SameEntries s s') {t : Thread κ} {fs : List Frame}
    (hfs : fs.filterMap Frame.leaving = []) : SameEntries s (s'.setStack t fs) :=
  h.setStack (hfs ▸ List.nil_sublist _)

/-- The last call goes on. -/
theorem replace (h : SameEntries s s') {t : Thread κ} {f : Frame} {fs : List Frame}
    (hs : s.stack t = f :: fs) (gs : List Frame)
    (hgs : (gs.filterMap Frame.leaving).Sublist ([f].filterMap Frame.leaving)) :
    SameEntries s (s'.setStack t (gs ++ fs)) := by
  refine h.setStack ?_
  rw [State.leavers, hs, List.filterMap_append, ← List.singleton_append, List.filterMap_append]
  exact hgs.append_right _

theorem setStop (h : SameEntries s s') (a : κ) (pc : Stop) : SameEntries s (s'.setStop a pc) :=
  { h with }

end SameEntries

section Find

variable {s : State κ} {i : UInt32} {m : ℕ}

theorem find_some (h : s.find i = some m) : m ∈ s.clients ∧ clientId m = i := by
  rw [State.find] at h
  exact ⟨List.mem_of_find?_eq_some h, by simpa using List.find?_some h⟩

theorem find_none (h : s.find i = none) : ∀ n ∈ s.clients, clientId n ≠ i := by
  rw [State.find, List.find?_eq_none] at h
  intro n hn he
  exact h n hn (decide_eq_true he)

end Find

variable [DecidableEq κ]

/-- The steps that take an id, start a channel, insert or remove an entry, or call a method of the
handler for a client; and the others. -/
inductive EntryMove (s : State κ) : Label κ → State κ → Prop
  | same {l : Label κ} {s' : State κ} (h : SameEntries s s') : EntryMove s l s'
  | accept (h : s.lobby = .accept) : EntryMove s (.lobby .ok)
      { s with nextClientId := s.nextClientId + 1, lobby := .startServer s.nextClientId }
  | start {n : ℕ} (h : s.lobby = .startServer n) : EntryMove s (.lobby .ok)
      ({ s with lobby := .respond n }.setWorker n (.head false))
  | listen {n : ℕ} (h : s.lobby = .respond n) (ns : List ℕ) : EntryMove s (.lobby .ok)
      ({ s with lobby := .head, pendingConnects := ns }.setPending n .poll)
  | wait {n : ℕ} {b : Bool} {pc : Pending} (h : (s.channel n).pending.waiting = true)
      (hpc : pc.waiting = true) : EntryMove s (.pending n b) (s.setPending n pc)
  | abandon {n : ℕ} {b : Bool} (h : (s.channel n).pending.waiting = true) :
      EntryMove s (.pending n b)
        (((s.stopServer n).setPending n .ended).setStack (.pending n) [.abandon n])
  | insert {n : ℕ} {b : Bool} (h : (s.channel n).pending = .insert)
      (hf : s.find (clientId n) = none) : EntryMove s (.pending n b)
        ({ s with clients := n :: s.clients }.setChannel n
          { s.channel n with disconnected := false, pending := .callConnect })
  | replace {n m : ℕ} {b : Bool} (h : (s.channel n).pending = .insert)
      (hf : s.find (clientId n) = some m) : EntryMove s (.pending n b)
        ({ s with clients := n :: s.clients.erase m, lock := some (.pending n) }.setChannel n
          { s.channel n with disconnected := false, pending := .replaced }
          |>.setStack (.pending n) [.dropServer m])
  | replaced {n : ℕ} {b : Bool} (h : (s.channel n).pending = .replaced) :
      EntryMove s (.pending n b) ({ s with lock := none }.setPending n .callConnect)
  | callConnect {n : ℕ} {b : Bool} (h : (s.channel n).pending = .callConnect) :
      EntryMove s (.pending n b)
        (((s.record (clientId n) .connect).setPending n .ended).setStack (.pending n) [.callback])
  /-- The end of `worker_loop`, or `disconnect_client`. -/
  | remove {l : Label κ} {t : Thread κ} {n : ℕ} {fs : List Frame} (hn : n ∈ s.clients)
      (hfs : (fs.filterMap Frame.leaving).Sublist (s.leavers t)) :
      EntryMove s l ((s.erase n).setStack t (.setDisconnected (clientId n) n :: fs))
  | setDisconnected {t : Thread κ} {o : HandlerOutcome} {i : UInt32} {n : ℕ} {fs : List Frame}
      (hs : s.stack t = .setDisconnected i n :: fs) : EntryMove s (.frame t o)
        ((s.setChannel n { s.channel n with disconnected := true }).setStack t
          (.stopServer i n :: fs))
  | callDisconnect {t : Thread κ} {o : HandlerOutcome} {i : UInt32} {n : ℕ} {fs : List Frame}
      (hs : s.stack t = .callDisconnect i n :: fs) : EntryMove s (.frame t o)
        ((s.record i .disconnect).setStack t (.callback :: .dropServer n :: fs))
  /-- `on_disconnect` of the channel finds its entry. -/
  | leave {n m : ℕ} {o : WorkerOutcome} (h : (s.channel n).worker = .onDisconnect)
      (hm : s.find (clientId n) = some m) : EntryMove s (.worker n o)
        (((s.erase m).setChannel m { s.channel m with disconnected := true }).report n
          (.spawnDrop m))
  | missed {n : ℕ} {o : WorkerOutcome} (h : (s.channel n).worker = .onDisconnect)
      (hm : ∀ m, s.find (clientId n) = some m → (s.channel m).disconnected = true) :
      EntryMove s (.worker n o) (s.report n .marking)
  | read {n : ℕ} {p : Payload} (h : (s.channel n).worker = .receive) :
      EntryMove s (.worker n (.message p)) (s.setWorker n (.callMessage p))
  | callMessage {n : ℕ} {o : WorkerOutcome} {p : Payload}
      (h : (s.channel n).worker = .callMessage p) : EntryMove s (.worker n o)
        (((s.record (clientId n) (.message p)).setWorker n .receive).setStack (.channel n)
          [.callback])
  | leftCall {n : ℕ} {o : WorkerOutcome} (h : (s.channel n).worker = .callDisconnect) :
      EntryMove s (.worker n o)
        (((s.record (clientId n) .disconnect).setWorker n .marking).setStack (.channel n)
          [.callback])

variable {s s' : State κ}

theorem lobbyStep_entryMove {o : LobbyOutcome} (hst : s.lobbyStep o = some s') :
    EntryMove s (.lobby o) s' := by
  have setLobby {pc : Lobby} (hpc : pc.starting = none) : SameEntries s { s with lobby := pc } :=
    { SameEntries.refl with lobby := .inr hpc }
  unfold State.lobbyStep at hst
  rw [Option.ite_none_left_eq_some] at hst
  obtain ⟨-, hst⟩ := hst
  cases hl : s.lobby <;> simp only [hl] at hst
  case head =>
    cases hst
    exact .same (setLobby (by split_ifs <;> rfl))
  case accept =>
    cases o <;> cases hst
    case ok => exact .accept hl
    case error => exact .same ((setLobby rfl).push rfl)
    all_goals exact .same (setLobby rfl)
  case startServer n =>
    cases o <;> cases hst
    case ok => exact .start hl
    all_goals exact .same ((setLobby rfl).push rfl)
  case respond n =>
    cases o <;> cases hst
    case ok => exact .listen hl _
    all_goals exact .same ((setLobby rfl).push rfl)
  case lock =>
    split_ifs at hst
    cases hst
    exact .same { SameEntries.refl with lobby := .inr rfl }
  case drain =>
    cases o with
    | remove n =>
      simp only at hst
      split_ifs at hst with hn
      cases hst
      exact .remove hn (List.nil_sublist _)
    | _ =>
      simp only at hst
      split_ifs at hst
      cases hst
      exact .same { SameEntries.refl with lobby := .inr rfl }
  case ended => cases hst

theorem pendingStep_entryMove {n : ℕ} {b : Bool} (hst : s.pendingStep n b = some s') :
    EntryMove s (.pending n b) s' := by
  unfold State.pendingStep at hst
  rw [Option.ite_none_left_eq_some] at hst
  obtain ⟨-, hst⟩ := hst
  cases hp : (s.channel n).pending <;> simp only [hp] at hst
  case absent | ended => cases hst
  case poll =>
    split_ifs at hst <;> cases hst
    · exact .wait (by rw [hp]; rfl) rfl
    · exact .wait (by rw [hp]; rfl) rfl
    · exact .same .refl
  case check connected =>
    split_ifs at hst <;> cases hst
    · exact .abandon (by rw [hp]; rfl)
    · exact .wait (by rw [hp]; rfl) rfl
  case insert =>
    split_ifs at hst
    cases hf : s.find (clientId n) with
    | none =>
      simp only [hf] at hst
      cases hst
      exact .insert hp hf
    | some m =>
      simp only [hf] at hst
      cases hst
      exact .replace hp hf
  case replaced =>
    cases hst
    exact .replaced hp
  case callConnect =>
    cases hst
    exact .callConnect hp

theorem workerStep_entryMove {n : ℕ} {o : WorkerOutcome} (hst : s.workerStep n o = some s') :
    EntryMove s (.worker n o) s' := by
  have r : SameEntries s s := .refl
  unfold State.workerStep at hst
  rw [Option.ite_none_left_eq_some] at hst
  obtain ⟨-, hst⟩ := hst
  cases hw : (s.channel n).worker <;> simp only [hw] at hst
  case absent | ended => cases hst
  case head connected =>
    cases hst
    refine .same (r.setWorker ?_ ?_) <;>
    · rw [hw]
      split_ifs <;> rfl
  case marking =>
    cases hst
    exact .same (r.setWorker (by rw [hw]; rfl) (by rw [hw]; rfl))
  case waitClient =>
    have hr {pc : ServerWorker} (ho : pc.owes = none) (hs : pc.started = true) :
        SameEntries s (s.setWorker n pc) :=
      r.setWorker (by rw [hw]; exact ho) (by rw [hw]; exact hs)
    cases o <;> cases hst
    case ok | timeout => exact .same (hr rfl rfl)
    all_goals exact .same ((hr rfl rfl).push rfl)
  case onConnect =>
    cases hst
    exact .same (r.setChannel (by simp only [Channel.entry, hw]; rfl) (by rintro ⟨⟩))
  case drainCommands connected =>
    cases hst
    refine .same (r.setChannel ?_ id)
    cases connected <;> (simp only [Channel.entry, hw]; rfl)
  case receive =>
    have hr {pc : ServerWorker} (ho : pc.owes = none) (hs : pc.started = true) :
        SameEntries s (s.setWorker n pc) :=
      r.setWorker (by rw [hw]; exact ho) (by rw [hw]; exact hs)
    cases o <;> cases hst
    case message p => exact .read hw
    case sendError => exact .same (r.push rfl)
    case fatal | error => exact .same ((hr rfl rfl).push rfl)
    all_goals exact .same (hr rfl rfl)
  case callMessage p =>
    cases hst
    exact .callMessage hw
  case waitAny =>
    have hr {pc : ServerWorker} (ho : pc.owes = none) (hs : pc.started = true) :
        SameEntries s (s.setWorker n pc) :=
      r.setWorker (by rw [hw]; exact ho) (by rw [hw]; exact hs)
    cases o <;> cases hst
    case error => exact .same ((hr rfl rfl).push rfl)
    all_goals exact .same (hr rfl rfl)
  case onDisconnect =>
    split_ifs at hst
    cases hf : s.find (clientId n) with
    | none =>
      simp only [hf] at hst
      cases hst
      refine .missed hw fun m hm => ?_
      rw [hf] at hm
      cases hm
    | some m =>
      simp only [hf] at hst
      split_ifs at hst with hd <;> cases hst
      · exact .leave hw hf
      · refine .missed hw fun m' hm => ?_
        rw [hf] at hm
        cases hm
        exact Bool.eq_true_of_not_eq_false hd
  case spawnDrop m =>
    cases hst
    exact .same ((r.setWorker (by rw [hw]; rfl) (by rw [hw]; rfl)).push rfl)
  case callDisconnect =>
    cases hst
    exact .leftCall hw

theorem frameStep_entryMove {t : Thread κ} {o : HandlerOutcome} (hst : s.frameStep t o = some s') :
    EntryMove s (.frame t o) s' := by
  have r : SameEntries s s := .refl
  unfold State.frameStep at hst
  split at hst
  case h_1 => cases hst
  case h_2 fs hs =>
    cases o <;> cases hst
    case finish => exact .same (r.replace hs [] (.refl _))
    case readClients => exact .same (r.replace hs [.readClients, .callback] (.refl _))
    case disconnectClient i => exact .same (r.replace hs [.disconnectClient i, .callback] (.refl _))
  case h_3 fs hs =>
    split_ifs at hst
    cases hst
    exact .same (r.replace hs [] (.refl _))
  case h_4 i fs hs =>
    split_ifs at hst
    cases hf : s.find i with
    | none =>
      simp only [hf] at hst
      cases hst
      exact .same (r.replace hs [] (.refl _))
    | some n =>
      simp only [hf] at hst
      cases hst
      obtain ⟨hn, rfl⟩ := find_some hf
      refine .remove hn ?_
      rw [State.leavers, hs]
      exact .refl _
  case h_5 i n fs hs =>
    cases hst
    exact .setDisconnected hs
  case h_6 i n fs hs =>
    cases hst
    exact .same ((r.stopServer n).replace hs [.callDisconnect i n] (.refl _))
  case h_7 i n fs hs =>
    cases hst
    exact .callDisconnect hs
  case h_8 n fs hs =>
    cases hst
    exact .same ((r.stopServer n).replace hs [.dropServer n] (.refl _))
  case h_9 n fs hs =>
    cases hst
    have hr : SameEntries s
        (s.setChannel n { s.channel n with running := false, shutdown := true }) :=
      r.setChannel rfl id
    split_ifs
    · exact .same (hr.replace hs [] (.refl _))
    · exact .same (hr.replace hs [.join n] (.refl _))
  case h_10 n fs hs =>
    split_ifs at hst
    cases hst
    exact .same (r.replace hs [] (.refl _))

/-- Every step is one of the moves. -/
theorem step_entryMove {l : Label κ} (hst : s.step l = some s') : EntryMove s l s' := by
  have r : SameEntries s s := .refl
  cases l <;> simp only [State.step] at hst
  case lobby => exact lobbyStep_entryMove hst
  case pending => exact pendingStep_entryMove hst
  case worker => exact workerStep_entryMove hst
  case frame => exact frameStep_entryMove hst
  case call a q =>
    unfold State.callStep at hst
    split_ifs at hst
    cases q with
    | stop =>
      cases hst
      exact .same { r with }
    | _ =>
      cases hst
      exact .same (r.push rfl)
  case stop a =>
    unfold State.stopStep at hst
    cases hs : s.stop a <;> simp only [hs] at hst
    case idle => cases hst
    case lockHandle =>
      split_ifs at hst <;> cases hst
      · exact .same { r with }
      · exact .same (r.setStop a _)
    case joinLobby =>
      split_ifs at hst
      cases hst
      exact .same { r with }
    case takePending =>
      cases hst
      exact .same { r with }
    case joinPending ns =>
      cases ns with
      | nil =>
        cases hst
        exact .same { r with }
      | cons n ns =>
        simp only at hst
        split_ifs at hst
        cases hst
        exact .same (r.setStop a _)

end Dispatch

end Xshm
