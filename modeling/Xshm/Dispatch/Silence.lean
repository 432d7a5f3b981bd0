import Mathlib.Data.Fintype.Basic
import Xshm.Dispatch.Entries

/-!
# After `stop`

`stop` promises that no method of the handler is called after it has returned.  It joins
`worker_loop`, which at its end joins the workers of all channels that are still in the map, and
the threads that wait for a client.

It does not join the worker of a channel whose entry has been removed before, by
`disconnect_client` or by its own `on_disconnect`: `not_silent`.  Nor does it close the channel of
a client that is inserted after `worker_loop` has emptied the map, or wait for the threads that
another call of `stop` is joining.

* `StopInv.owned` : a worker that has not ended belongs to an entry of the map, to a thread that
  `stop` joins, or to a client that has been removed.
* `silent_of_allJoined` : apart from these cases, nothing is called after `stop`, and no channel is
  left in the map.
-/

namespace Xshm

namespace Dispatch

variable {κ : Type*}

/-- The worker has been started and has not ended. -/
def ServerWorker.live : ServerWorker → Bool
  | .absent | .ended => false
  | _ => true

theorem ServerWorker.started_of_live {pc : ServerWorker} (h : pc.live = true) :
    pc.started = true := by
  cases pc <;> first | rfl | cases h

/-- **Silence after `stop`**: no method of the handler is running, and no client in the map has a
running channel. -/
def Silent (s : State κ) : Prop :=
  s.stopped = true →
    (∀ t, .callback ∉ s.stack t) ∧ ∀ n ∈ s.clients, (s.channel n).worker.live = false

/-- The call leads to no method of the handler, if there is no client. -/
def Frame.silent : Frame → Bool
  | .readClients | .disconnectClient _ | .dropServer _ | .join _ => true
  | _ => false

/-- The threads that `stop` has still to join. -/
def Stop.threads : Stop → List ℕ
  | .joinPending ns => ns
  | _ => []

/-- The entry of channel `n` has been removed, or a callback on the thread of a channel is removing
it. -/
def State.Removed (s : State κ) (n : ℕ) : Prop :=
  (s.channel n).disconnected = true ∨
    ∃ m < s.nextClientId, ∃ x ∈ s.leavers (.channel m), x.2 = n

/-- What keeps the server silent after `stop`: no client is inserted after the map has been emptied
for the last time, and when `stop` returns, the workers of all clients that have been removed have
ended, no other call of `stop` is still joining a thread, and no application thread has removed a
client in a `disconnect_client` that has not called the handler yet. -/
def AllJoined (s : State κ) : Label κ → Prop
  | .pending n _ => (s.channel n).pending = .insert → s.lobby ≠ .ended
  | .stop a => s.stop a = .joinPending [] →
      (∀ n < s.nextClientId, s.Removed n → (s.channel n).worker.live = false) ∧
      (∀ b, ∀ n ∈ (s.stop b).threads, s.pendingFinished n) ∧
      ∀ b, ∀ f ∈ s.stack (.app b), f.silent = true
  | _ => True

instance (s : State κ) (n : ℕ) : Decidable (s.Removed n) := inferInstanceAs (Decidable (_ ∨ _))

instance [Fintype κ] (s : State κ) : (l : Label κ) → Decidable (AllJoined s l)
  | .pending _ _ => inferInstanceAs (Decidable (_ → _))
  | .stop _ => inferInstanceAs (Decidable (_ → _))
  | .lobby _ | .worker .. | .call .. | .frame .. => .isTrue trivial

/-! ### Owners -/

/-- `worker_loop`, or a thread that waits for a client. -/
def Thread.joinedByStop : Thread κ → Bool
  | .lobby | .pending _ => true
  | _ => false

/-- The call will stop the worker of channel `n`, on a thread that `stop` joins, or will mark its
client as removed. -/
def Frame.owns (t : Thread κ) (n : ℕ) : Frame → Prop
  | .setDisconnected _ m => m = n
  | .abandon m | .dropServer m | .join m => m = n ∧ t.joinedByStop = true
  | _ => False

/-- Who is to stop the worker of channel `n`. -/
inductive Owned (s : State κ) (n : ℕ) : Prop
  | entry : n ∈ s.clients → Owned s n
  | responding : s.lobby = .respond n → Owned s n
  | waiting : (s.channel n).pending.waiting = true → Owned s n
  | removed : (s.channel n).disconnected = true → Owned s n
  | frame {t : Thread κ} {f : Frame} : f ∈ s.stack t → f.owns t n → Owned s n

theorem Owned.of_eq {s s' : State κ} {n : ℕ} (h : Owned s n) (hc : s'.clients = s.clients)
    (hl : s'.lobby = s.lobby) (hch : s'.channel = s.channel) (hs : s'.stack = s.stack) :
    Owned s' n := by
  cases h with
  | entry he => exact .entry (hc ▸ he)
  | responding hr => exact .responding (hl.trans hr)
  | waiting hw => exact .waiting (hch ▸ hw)
  | removed hd => exact .removed (hch ▸ hd)
  | frame hf ho => exact .frame (hs ▸ hf) ho

theorem Frame.not_owns_of_dropping {f : Frame} (h : f.dropping = true) {t : Thread κ}
    (ht : t.joinedByStop = false) {n : ℕ} : ¬ f.owns t n := by
  cases f with
  | dropServer m | join m =>
    rintro ⟨-, hj⟩
    cases ht.symm.trans hj
  | _ => cases h

/-- `stop` has joined `worker_loop`. -/
def Stop.pastLobby : Stop → Bool
  | .takePending | .joinPending _ => true
  | _ => false

/-- The thread that waits for the client of channel `n` has been started, and is joined by `stop` if
it has not ended. -/
def State.Listed (s : State κ) (n : ℕ) : Prop :=
  s.pendingFinished n ∨ n ∈ s.pendingConnects ∨ ∃ a, n ∈ (s.stop a).threads

structure StopInv (s : State κ) : Prop where
  idle : ∀ n, (s.channel n).worker.live = false → s.stack (.channel n) = []
  absent : ∀ n, (s.channel n).pending = .absent → s.stack (.pending n) = []
  dropper : ∀ n, ∀ f ∈ s.stack (.dropper n), f.dropping = true
  ended : s.lobby = .ended → s.stack .lobby = [] ∧ s.clients = []
  handle : s.workerHandle = false → s.handleLock = none → s.lobby = .ended
  past : ∀ a, (s.stop a).pastLobby = true → s.lobby = .ended
  taken : ∀ a ns, s.stop a = .joinPending ns → s.pendingConnects = []
  listed : ∀ n, (s.channel n).pending ≠ .absent → s.Listed n
  owned : ∀ n, (s.channel n).worker.live = true → Owned s n

/-- The thread has something to do. -/
def State.Moving (s : State κ) : Thread κ → Prop
  | .lobby => s.lobby ≠ .ended
  | .pending n => (s.channel n).pending ≠ .absent ∧ ¬ s.pendingFinished n
  | .channel n => (s.channel n).worker.live = true
  | .dropper _ | .app _ => True

namespace StopInv

variable {s : State κ}

theorem init : StopInv ({} : State κ) where
  idle _ _ := rfl
  absent _ _ := rfl
  dropper := by rintro _ _ ⟨⟩
  ended := by rintro ⟨⟩
  handle := by rintro ⟨⟩
  past := by rintro _ ⟨⟩
  taken := by rintro _ _ ⟨⟩
  listed _ h := absurd rfl h
  owned := by rintro _ ⟨⟩

/-- A thread with calls on its stack has not ended. -/
theorem moving (h : StopInv s) {t : Thread κ} {f : Frame} {fs : List Frame}
    (hs : s.stack t = f :: fs) : s.Moving t := by
  have hne : s.stack t ≠ [] := by
    rw [hs]
    exact List.cons_ne_nil f fs
  cases t with
  | lobby => exact fun hl => hne (h.ended hl).1
  | pending n => exact ⟨fun hp => hne (h.absent n hp), fun hfin => hne hfin.2⟩
  | channel n => exact Bool.of_not_eq_false fun hlive => hne (h.idle n hlive)
  | dropper _ | app _ => trivial

/-- A thread that has not finished is joined. -/
theorem listed_of_moving (h : StopInv s) {n : ℕ} (hm : s.Moving (.pending n)) :
    n ∈ s.pendingConnects ∨ ∃ a, n ∈ (s.stop a).threads :=
  (h.listed n hm.1).resolve_left hm.2

/-! ### Changes of a channel -/

theorem setChannel (h : StopInv s) {n : ℕ} {ch : Channel}
    (hidle : ch.worker.live = false → s.stack (.channel n) = [])
    (habs : ch.pending = .absent → s.stack (.pending n) = [])
    (hlisted : ch.pending ≠ .absent → (s.setChannel n ch).Listed n)
    (hown : ch.worker.live = true → Owned (s.setChannel n ch) n) :
    StopInv (s.setChannel n ch) := by
  have hself : (s.setChannel n ch).channel n = ch := s.setChannel_channel_self n ch
  have hother {m : ℕ} (hm : m ≠ n) : (s.setChannel n ch).channel m = s.channel m :=
    s.setChannel_channel_of_ne hm ch
  refine { h with idle := fun m => ?_, absent := fun m => ?_, listed := fun m => ?_,
                  owned := fun m => ?_ }
  · by_cases hm : m = n
    · rw [hm, hself]
      exact hidle
    · rw [hother hm]
      exact h.idle m
  · by_cases hm : m = n
    · rw [hm, hself]
      exact habs
    · rw [hother hm]
      exact h.absent m
  · by_cases hm : m = n
    · rw [hm, hself]
      exact hlisted
    · rw [hother hm]
      intro hp
      rcases h.listed m hp with hfin | hlist
      · exact .inl ⟨by rw [hother hm]; exact hfin.1, hfin.2⟩
      · exact .inr hlist
  · by_cases hm : m = n
    · rw [hm, hself]
      exact hown
    · rw [hother hm]
      intro hlive
      cases h.owned m hlive with
      | entry he => exact .entry he
      | responding hl => exact .responding hl
      | waiting hw => exact .waiting (by rwa [hother hm])
      | removed hd => exact .removed (by rwa [hother hm])
      | frame hf ho => exact .frame hf ho

/-- The worker goes on, and the thread that waits for its client stays where it is. -/
theorem keepPending (h : StopInv s) {n : ℕ} {ch : Channel}
    (hp : ch.pending = (s.channel n).pending)
    (hidle : ch.worker.live = false → s.stack (.channel n) = [])
    (hw : ch.worker.live = true → (s.channel n).worker.live = true)
    (hd : (s.channel n).disconnected = true → ch.disconnected = true) :
    StopInv (s.setChannel n ch) := by
  have hself : (s.setChannel n ch).channel n = ch := s.setChannel_channel_self n ch
  refine h.setChannel hidle (fun ha => h.absent n (hp ▸ ha)) (fun ha => ?_) fun hlive => ?_
  · rcases h.listed n (hp ▸ ha) with hfin | hlist
    · exact .inl ⟨by rw [hself, hp]; exact hfin.1, hfin.2⟩
    · exact .inr hlist
  · cases h.owned n (hw hlive) with
    | entry he => exact .entry he
    | responding hl => exact .responding hl
    | waiting hwait => exact .waiting (by rwa [hself, hp])
    | removed hdis => exact .removed (by rw [hself]; exact hd hdis)
    | frame hf ho => exact .frame hf ho

theorem setWorker (h : StopInv s) {n : ℕ} {pc : ServerWorker}
    (hlive : (s.channel n).worker.live = true)
    (hidle : pc.live = false → s.stack (.channel n) = []) : StopInv (s.setWorker n pc) :=
  h.keepPending rfl hidle (fun _ => hlive) id

theorem stopServer (h : StopInv s) (n : ℕ) : StopInv (s.stopServer n) :=
  h.keepPending rfl (h.idle n) id id

/-- The thread that waits for a client goes on. -/
theorem setPending (h : StopInv s) {n : ℕ} (hm : s.Moving (.pending n)) {pc : Pending}
    (hpc : pc ≠ .absent)
    (hown : (s.channel n).pending.waiting = true → Owned (s.setPending n pc) n) :
    StopInv (s.setPending n pc) := by
  refine h.setChannel (h.idle n) (fun ha => absurd ha hpc) (fun _ => .inr (h.listed_of_moving hm))
    fun hlive => ?_
  cases h.owned n hlive with
  | entry he => exact .entry he
  | responding hl => exact .responding hl
  | waiting hw => exact hown hw
  | removed hd => exact .removed (by rwa [s.setChannel_channel_self])
  | frame hf ho => exact .frame hf ho

/-- What the invariant does not speak of changes. -/
theorem of_eq {s' : State κ} (h : StopInv s) (hc : s'.clients = s.clients)
    (hl : s'.lobby = s.lobby) (hch : s'.channel = s.channel) (hs : s'.stack = s.stack)
    (hstop : s'.stop = s.stop) (hlock : s'.handleLock = s.handleLock)
    (hhandle : s'.workerHandle = s.workerHandle) (hpc : s'.pendingConnects = s.pendingConnects) :
    StopInv s' where
  idle := by
    rw [hch, hs]
    exact h.idle
  absent := by
    rw [hch, hs]
    exact h.absent
  dropper := by
    rw [hs]
    exact h.dropper
  ended := by
    rw [hl, hs, hc]
    exact h.ended
  handle := by
    rw [hhandle, hlock, hl]
    exact h.handle
  past := by
    rw [hstop, hl]
    exact h.past
  taken := by
    rw [hstop, hpc]
    exact h.taken
  listed n hp := by
    rw [State.Listed, State.pendingFinished, hch, hs, hpc, hstop]
    exact h.listed n (hch ▸ hp)
  owned n hlive := (h.owned n (hch ▸ hlive)).of_eq hc hl hch hs

theorem record (h : StopInv s) (i : UInt32) (e : Event) : StopInv (s.record i e) :=
  h.of_eq rfl rfl rfl rfl rfl rfl rfl rfl

/-- An entry is removed whose channel has another owner. -/
theorem erase (h : StopInv s) {n : ℕ} (hown : Owned (s.erase n) n) : StopInv (s.erase n) where
  idle := h.idle
  absent := h.absent
  dropper := h.dropper
  ended hl := by
    obtain ⟨hs, hc⟩ := h.ended hl
    exact ⟨hs, by rw [State.erase, hc]; rfl⟩
  handle := h.handle
  past := h.past
  taken := h.taken
  listed := h.listed
  owned m hlive := by
    by_cases hm : m = n
    · rwa [hm]
    · cases h.owned m hlive with
      | entry he => exact .entry ((List.mem_erase_of_ne hm).2 he)
      | responding hl => exact .responding hl
      | waiting hw => exact .waiting hw
      | removed hd => exact .removed hd
      | frame hf ho => exact .frame hf ho

/-- An entry is inserted. -/
theorem insert (h : StopInv s) (n : ℕ) (hl : s.lobby ≠ .ended) :
    StopInv { s with clients := n :: s.clients } :=
  { h with
    ended := fun he => absurd he hl
    owned := fun m hlive => by
      cases h.owned m hlive with
      | entry he => exact .entry (List.mem_cons_of_mem n he)
      | responding hl => exact .responding hl
      | waiting hw => exact .waiting hw
      | removed hd => exact .removed hd
      | frame hf ho => exact .frame hf ho }

/-! ### Changes of a stack -/

variable [DecidableEq κ]

theorem setStack (h : StopInv s) {t : Thread κ} {fs : List Frame} (hm : s.Moving t)
    (hdrop : ∀ n, t = .dropper n → ∀ f ∈ fs, f.dropping = true)
    (hown : ∀ n, (s.channel n).worker.live = true → ∀ f ∈ s.stack t, f.owns t n →
      Owned (s.setStack t fs) n) : StopInv (s.setStack t fs) := by
  have hother {u : Thread κ} (hu : u ≠ t) : (s.setStack t fs).stack u = s.stack u :=
    s.setStack_stack_of_ne hu fs
  refine { h with idle := fun n hlive => ?_, absent := fun n hp => ?_, dropper := fun n => ?_,
                  ended := fun hl => ?_, listed := fun n hp => ?_, owned := fun n hlive => ?_ }
  · have hne : Thread.channel n ≠ t := by
      rintro rfl
      cases hlive.symm.trans hm
    rw [hother hne]
    exact h.idle n hlive
  · have hne : Thread.pending n ≠ t := by
      rintro rfl
      exact hm.1 hp
    rw [hother hne]
    exact h.absent n hp
  · by_cases ht : Thread.dropper n = t
    · rw [ht, s.setStack_stack_self]
      exact hdrop n ht.symm
    · rw [hother ht]
      exact h.dropper n
  · have hne : Thread.lobby ≠ t := by
      rintro rfl
      exact hm hl
    rw [hother hne]
    exact h.ended hl
  · by_cases ht : Thread.pending n = t
    · subst ht
      exact .inr (h.listed_of_moving hm)
    · rcases h.listed n hp with hfin | hlist
      · exact .inl ⟨hfin.1, by rw [hother ht]; exact hfin.2⟩
      · exact .inr hlist
  · cases h.owned n hlive with
    | entry he => exact .entry he
    | responding hl => exact .responding hl
    | waiting hw => exact .waiting hw
    | removed hd => exact .removed hd
    | @frame u f hf ho =>
      by_cases hu : u = t
      · subst hu
        exact hown n hlive f hf ho
      · exact .frame (by rwa [hother hu]) ho

/-- Calls are pushed on an empty stack. -/
theorem push (h : StopInv s) {t : Thread κ} (hm : s.Moving t) (hs : s.stack t = [])
    (fs : List Frame) (ht : ∀ n, t ≠ .dropper n) : StopInv (s.setStack t fs) :=
  h.setStack hm (fun n hn => absurd hn (ht n)) fun n _ f hf => by
    rw [hs] at hf
    cases hf

/-- The last call goes on. -/
theorem goOn (h : StopInv s) {t : Thread κ} {f : Frame} {fs : List Frame}
    (hs : s.stack t = f :: fs) (gs : List Frame)
    (hdrop : f.dropping = true → ∀ g ∈ gs, g.dropping = true)
    (hown : ∀ n, (s.channel n).worker.live = true → f.owns t n →
      Owned (s.setStack t (gs ++ fs)) n) : StopInv (s.setStack t (gs ++ fs)) := by
  have hmem {g : Frame} (hg : g ∈ fs) : g ∈ s.stack t := by
    rw [hs]
    exact List.mem_cons_of_mem f hg
  refine h.setStack (h.moving hs) ?_ fun n hlive g hg ho => ?_
  · rintro n rfl g hg
    rcases List.mem_append.1 hg with hg | hg
    · exact hdrop (h.dropper n f (by rw [hs]; exact List.mem_cons_self)) g hg
    · exact h.dropper n g (hmem hg)
  · rw [hs] at hg
    rcases List.mem_cons.1 hg with rfl | hg
    · exact hown n hlive ho
    · refine .frame (t := t) ?_ ho
      rw [s.setStack_stack_self]
      exact List.mem_append_right gs hg

/-! ### Steps -/

omit [DecidableEq κ] in
/-- `worker_loop` goes on. -/
theorem setLobby (h : StopInv s) (hne : s.lobby ≠ .ended) {pc : Lobby}
    (hpc : pc = .ended → s.stack .lobby = [] ∧ s.clients = [])
    (hown : ∀ n, s.lobby = .respond n → Owned { s with lobby := pc } n) :
    StopInv { s with lobby := pc } :=
  { h with
    ended := hpc
    handle := fun hw hl => absurd (h.handle hw hl) hne
    past := fun a ha => absurd (h.past a ha) hne
    owned := fun n hlive => by
      cases h.owned n hlive with
      | entry he => exact .entry he
      | responding hl => exact hown n hl
      | waiting hw => exact .waiting hw
      | removed hd => exact .removed hd
      | frame hf ho => exact .frame hf ho }

omit [DecidableEq κ] in
/-- The thread that waits for the client of channel `n` is started. -/
theorem listen (h : StopInv s) {n : ℕ} (hl : s.lobby = .respond n) {ns : List ℕ}
    (hns : ∀ m ∈ s.pendingConnects, ¬ s.pendingFinished m → m ∈ ns) :
    StopInv ({ s with lobby := .head, pendingConnects := ns ++ [n] }.setPending n .poll) := by
  have hne : s.lobby ≠ .ended := by
    rw [hl]
    rintro ⟨⟩
  have hlobby : StopInv { s with lobby := .respond n, pendingConnects := ns ++ [n] } := by
    refine { h with ended := ?_, handle := fun hw hlock => ?_, past := fun a ha => ?_,
                    taken := fun a ms ha => ?_, listed := fun m hm => ?_, owned := fun m hm => ?_ }
    · rintro ⟨⟩
    · exact absurd (h.handle hw hlock) hne
    · exact absurd (h.past a ha) hne
    · exact absurd (h.past a (by rw [show s.stop a = _ from ha]; rfl)) hne
    · rcases h.listed m hm with hfin | hlist | hstop
      · exact .inl hfin
      · by_cases hfin : s.pendingFinished m
        · exact .inl hfin
        · exact .inr (.inl (List.mem_append_left _ (hns m hlist hfin)))
      · exact .inr (.inr hstop)
    · exact (h.owned m hm).of_eq rfl hl.symm rfl rfl
  have hset : StopInv ({ s with lobby := .respond n, pendingConnects := ns ++ [n] }.setPending n
      .poll) := by
    refine hlobby.setChannel (h.idle n) (by rintro ⟨⟩) (fun _ => ?_) fun _ => .waiting ?_
    · exact .inr (.inl (List.mem_append_right _ (List.mem_singleton.2 rfl)))
    · rw [State.setChannel_channel_self]
      rfl
  refine hset.setLobby (by rintro ⟨⟩) (by rintro ⟨⟩) fun m hm => .waiting ?_
  cases hm
  change ((s.setPending n .poll).channel n).pending.waiting = true
  rw [State.setPending, State.setChannel_channel_self]
  rfl

theorem lobbyStep {s' : State κ} (h : StopInv s) {o : LobbyOutcome}
    (hst : s.lobbyStep o = some s') : StopInv s' := by
  unfold State.lobbyStep at hst
  rw [Option.ite_none_left_eq_some] at hst
  obtain ⟨hstack, hst⟩ := hst
  have hstack : s.stack .lobby = [] := not_not.1 hstack
  -- `worker_loop` goes on from a point at which it owns no worker
  have next {pc pc' : Lobby} (hl : s.lobby = pc) (hpc : pc ≠ .ended)
      (hr : ∀ n, pc ≠ .respond n) (hpc' : pc' ≠ .ended) : StopInv { s with lobby := pc' } := by
    subst hl
    exact h.setLobby hpc (fun he => absurd he hpc') fun n hn => absurd hn (hr n)
  have report (h₁ : StopInv { s with lobby := .head }) :
      StopInv ({ s with lobby := .head }.setStack .lobby [.callback]) := by
    have hm : ({ s with lobby := .head } : State κ).Moving .lobby := by rintro ⟨⟩
    exact h₁.push hm hstack _ fun n => by rintro ⟨⟩
  cases hl : s.lobby <;> simp only [hl] at hst
  case head =>
    cases hst
    exact next hl (by rintro ⟨⟩) (fun n => by rintro ⟨⟩) (by split_ifs <;> rintro ⟨⟩)
  case accept =>
    have hnext {pc : Lobby} (hpc : pc ≠ .ended) : StopInv { s with lobby := pc } :=
      next hl (by rintro ⟨⟩) (fun n => by rintro ⟨⟩) hpc
    cases o <;> cases hst
    case ok =>
      have hpc : StopInv { s with lobby := .startServer s.nextClientId } := hnext (by rintro ⟨⟩)
      exact hpc.of_eq rfl rfl rfl rfl rfl rfl rfl rfl
    case error => exact report (hnext (by rintro ⟨⟩))
    all_goals exact hnext (by rintro ⟨⟩)
  case startServer n =>
    have hnext {pc : Lobby} (hpc : pc ≠ .ended) : StopInv { s with lobby := pc } :=
      next hl (by rintro ⟨⟩) (fun n => by rintro ⟨⟩) hpc
    cases o <;> cases hst
    case ok =>
      have hpc : StopInv { s with lobby := .respond n } := hnext (by rintro ⟨⟩)
      refine hpc.setChannel (by rintro ⟨⟩) (h.absent n) (fun hp => ?_) fun _ => .responding rfl
      rcases h.listed n hp with hfin | hlist
      · exact .inl ⟨by rw [State.setChannel_channel_self]; exact hfin.1, hfin.2⟩
      · exact .inr hlist
    all_goals exact report (hnext (by rintro ⟨⟩))
  case respond n =>
    have hne : s.Moving .lobby := by
      change s.lobby ≠ .ended
      rw [hl]
      rintro ⟨⟩
    cases o <;> cases hst
    case ok =>
      refine h.listen hl fun m hm hfin => List.mem_filter.2 ⟨hm, ?_⟩
      exact decide_eq_true hfin
    all_goals
      have hpush : StopInv (s.setStack .lobby [.callback, .abandon n]) :=
        h.push hne hstack _ fun m => by rintro ⟨⟩
      refine hpush.setLobby hne (by rintro ⟨⟩) fun m hm => ?_
      cases hl.symm.trans hm
      refine .frame (t := .lobby) ?_ (show Frame.owns .lobby n (.abandon n) from ⟨rfl, rfl⟩)
      change _ ∈ (s.setStack .lobby [.callback, .abandon n]).stack .lobby
      rw [State.setStack_stack_self]
      exact List.mem_cons_of_mem _ List.mem_cons_self
  case lock =>
    split_ifs at hst
    cases hst
    have hpc : StopInv { s with lobby := .drain } :=
      next hl (by rintro ⟨⟩) (fun n => by rintro ⟨⟩) (by rintro ⟨⟩)
    exact hpc.of_eq rfl rfl rfl rfl rfl rfl rfl rfl
  case drain =>
    have hne : s.Moving .lobby := by
      change s.lobby ≠ .ended
      rw [hl]
      rintro ⟨⟩
    cases o with
    | remove n =>
      simp only at hst
      split_ifs at hst
      cases hst
      have hpush : StopInv (s.setStack .lobby [.setDisconnected (clientId n) n]) :=
        h.push hne hstack _ fun m => by rintro ⟨⟩
      refine hpush.erase (.frame (t := .lobby) (f := .setDisconnected (clientId n) n) ?_ rfl)
      change _ ∈ (s.setStack .lobby [.setDisconnected (clientId n) n]).stack .lobby
      rw [State.setStack_stack_self]
      exact List.mem_cons_self
    | _ =>
      simp only at hst
      split_ifs at hst with hc
      cases hst
      have hpc : StopInv { s with lobby := .ended } := by
        refine h.setLobby hne (fun _ => ⟨hstack, hc⟩) fun m hm => ?_
        cases hl.symm.trans hm
      exact hpc.of_eq rfl rfl rfl rfl rfl rfl rfl rfl
  case ended => cases hst

/-- The thread that waits for a client comes to its end, with calls to make. -/
theorem finish (h : StopInv s) {n : ℕ} (hm : s.Moving (.pending n))
    (hstack : s.stack (.pending n) = []) (fs : List Frame)
    (hown : (s.channel n).pending.waiting = true → ∃ f ∈ fs, f.owns (.pending n : Thread κ) n) :
    StopInv ((s.setPending n .ended).setStack (.pending n) fs) := by
  have hpush : StopInv (s.setStack (.pending n) fs) := h.push hm hstack fs fun m => by rintro ⟨⟩
  have hm' : (s.setStack (.pending n) fs).Moving (.pending n) :=
    ⟨hm.1, fun hfin => hm.2 ⟨hfin.1, hstack⟩⟩
  refine hpush.setPending hm' (by rintro ⟨⟩) fun hw => ?_
  obtain ⟨f, hf, ho⟩ := hown hw
  refine .frame (t := .pending n) ?_ ho
  change f ∈ (s.setStack (.pending n) fs).stack (.pending n)
  rwa [State.setStack_stack_self]

omit [DecidableEq κ] in
/-- A client is inserted. -/
theorem enter (h : StopInv s) {n : ℕ} (hm : s.Moving (.pending n)) (hl : s.lobby ≠ .ended)
    {ch : Channel} (hw : ch.worker = (s.channel n).worker) (hp : ch.pending ≠ .absent) :
    StopInv ({ s with clients := n :: s.clients }.setChannel n ch) := by
  refine (h.insert n hl).setChannel (fun hlive => h.idle n (hw ▸ hlive)) (fun ha => absurd ha hp)
    (fun _ => .inr (h.listed_of_moving hm)) fun _ => .entry List.mem_cons_self

theorem pendingStep {s' : State κ} (h : StopInv s) {n : ℕ} {b : Bool}
    (hins : (s.channel n).pending = .insert → s.lobby ≠ .ended)
    (hst : s.pendingStep n b = some s') : StopInv s' := by
  unfold State.pendingStep at hst
  rw [Option.ite_none_left_eq_some] at hst
  obtain ⟨hstack, hst⟩ := hst
  have hstack : s.stack (.pending n) = [] := not_not.1 hstack
  have moving (ha : (s.channel n).pending ≠ .absent) (he : (s.channel n).pending ≠ .ended) :
      s.Moving (.pending n) := ⟨ha, fun hfin => he hfin.1⟩
  have wait (hm : s.Moving (.pending n)) {pc : Pending} (hpc : pc.waiting = true) :
      StopInv (s.setPending n pc) := by
    refine h.setPending hm (by rintro rfl; cases hpc) fun _ => .waiting ?_
    rwa [State.setPending, State.setChannel_channel_self]
  cases hp : (s.channel n).pending <;> simp only [hp] at hst
  case absent | ended => cases hst
  case poll =>
    have hm := moving (by rw [hp]; rintro ⟨⟩) (by rw [hp]; rintro ⟨⟩)
    split_ifs at hst <;> cases hst
    · exact wait hm rfl
    · exact wait hm rfl
    · exact h
  case check connected =>
    have hm := moving (by rw [hp]; rintro ⟨⟩) (by rw [hp]; rintro ⟨⟩)
    split_ifs at hst <;> cases hst
    · have hm' : (s.stopServer n).Moving (.pending n) := by
        rw [State.Moving, State.pendingFinished, State.stopServer, State.setChannel_channel_self]
        exact hm
      exact (h.stopServer n).finish hm' hstack [.abandon n] fun _ =>
        ⟨_, List.mem_singleton_self _, rfl, rfl⟩
    · exact wait hm rfl
  case insert =>
    have hm := moving (by rw [hp]; rintro ⟨⟩) (by rw [hp]; rintro ⟨⟩)
    have hl := hins hp
    split_ifs at hst
    cases hf : s.find (clientId n) with
    | none =>
      simp only [hf] at hst
      cases hst
      exact h.enter hm hl rfl (by rintro ⟨⟩)
    | some m =>
      simp only [hf] at hst
      cases hst
      -- the thread will drop the client that it replaces
      have hpush : StopInv (s.setStack (.pending n) [.dropServer m]) :=
        h.push hm hstack _ fun m => by rintro ⟨⟩
      have herase : StopInv ((s.setStack (.pending n) [.dropServer m]).erase m) := by
        refine hpush.erase (.frame (t := .pending n) (f := .dropServer m) ?_ ⟨rfl, rfl⟩)
        change _ ∈ (s.setStack (.pending n) [.dropServer m]).stack (.pending n)
        rw [State.setStack_stack_self]
        exact List.mem_cons_self
      have hm' : ((s.setStack (.pending n) [.dropServer m]).erase m).Moving (.pending n) :=
        ⟨hm.1, fun hfin => hm.2 ⟨hfin.1, hstack⟩⟩
      have hent : StopInv ({ (s.setStack (.pending n) [.dropServer m]).erase m with
          clients := n :: s.clients.erase m }.setChannel n
            { s.channel n with disconnected := false, pending := .replaced }) :=
        herase.enter hm' hl rfl (by rintro ⟨⟩)
      exact hent.of_eq rfl rfl rfl rfl rfl rfl rfl rfl
  case replaced =>
    have hm := moving (by rw [hp]; rintro ⟨⟩) (by rw [hp]; rintro ⟨⟩)
    cases hst
    have hset : StopInv (s.setPending n .callConnect) := by
      refine h.setPending hm (by rintro ⟨⟩) fun hw => ?_
      rw [hp] at hw
      cases hw
    exact hset.of_eq rfl rfl rfl rfl rfl rfl rfl rfl
  case callConnect =>
    have hm := moving (by rw [hp]; rintro ⟨⟩) (by rw [hp]; rintro ⟨⟩)
    cases hst
    have hfin := h.finish hm hstack [.callback] fun hw => by
      rw [hp] at hw
      cases hw
    exact hfin.of_eq rfl rfl rfl rfl rfl rfl rfl rfl

omit [DecidableEq κ] in
/-- `on_disconnect` of channel `n` removes the entry of channel `m`. -/
theorem leave (h : StopInv s) {n m : ℕ} (hlive : (s.channel n).worker.live = true)
    (hstack : s.stack (.channel n) = []) :
    StopInv (((s.erase m).setChannel m { s.channel m with disconnected := true }).report n
      (.spawnDrop m)) := by
  have hdis : StopInv (s.setChannel m { s.channel m with disconnected := true }) :=
    h.keepPending rfl (h.idle m) id fun _ => rfl
  have herase : StopInv ((s.setChannel m { s.channel m with disconnected := true }).erase m) := by
    refine hdis.erase (.removed ?_)
    change ((s.setChannel m _).channel m).disconnected = true
    rw [State.setChannel_channel_self]
  have hlive' : ((s.setChannel m { s.channel m with disconnected := true }).channel
      n).worker.live = true :=
    (s.setChannel_keeps (fun ch => ch.worker.live) (by rfl) n).trans hlive
  exact herase.keepPending rfl (fun _ => hstack) (fun _ => hlive') id

theorem workerStep {s' : State κ} (h : StopInv s) {n : ℕ} {o : WorkerOutcome}
    (hst : s.workerStep n o = some s') : StopInv s' := by
  unfold State.workerStep at hst
  rw [Option.ite_none_left_eq_some] at hst
  obtain ⟨hstack, hst⟩ := hst
  have hstack : s.stack (.channel n) = [] := not_not.1 hstack
  -- the worker goes on
  have next {ch : Channel} (hlive : (s.channel n).worker.live = true)
      (hp : ch.pending = (s.channel n).pending)
      (hd : ch.disconnected = (s.channel n).disconnected) : StopInv (s.setChannel n ch) :=
    h.keepPending hp (fun _ => hstack) (fun _ => hlive) fun ht => hd.trans ht
  -- it calls a method of the handler
  have call {ch : Channel} (h₁ : StopInv (s.setChannel n ch)) (hlive : ch.worker.live = true) :
      StopInv ((s.setChannel n ch).setStack (.channel n) [.callback]) := by
    have hm : (s.setChannel n ch).Moving (.channel n) := by
      rw [State.Moving, State.setChannel_channel_self]
      exact hlive
    exact h₁.push hm hstack _ fun m => by rintro ⟨⟩
  cases hw : (s.channel n).worker <;> simp only [hw] at hst
  case absent | ended => cases hst
  all_goals have hlive : (s.channel n).worker.live = true := by rw [hw]; rfl
  case head connected =>
    cases hst
    exact next hlive rfl rfl
  case waitClient =>
    cases o <;> cases hst
    case ok | timeout => exact next hlive rfl rfl
    all_goals exact call (next hlive rfl rfl) rfl
  case onConnect | drainCommands | marking =>
    cases hst
    exact next hlive rfl rfl
  case receive =>
    cases o <;> cases hst
    case sendError => exact h.push (t := .channel n) hlive hstack _ fun m => by rintro ⟨⟩
    case fatal | error => exact call (next hlive rfl rfl) rfl
    all_goals exact next hlive rfl rfl
  case callMessage p =>
    cases hst
    have hcall : StopInv ((s.setWorker n .receive).setStack (.channel n) [.callback]) :=
      call (next hlive rfl rfl) rfl
    exact hcall.record (clientId n) (.message p)
  case waitAny =>
    cases o <;> cases hst
    case error => exact call (next hlive rfl rfl) rfl
    all_goals exact next hlive rfl rfl
  case onDisconnect =>
    split_ifs at hst
    cases hf : s.find (clientId n) with
    | none =>
      simp only [hf] at hst
      cases hst
      exact next hlive rfl rfl
    | some m =>
      simp only [hf] at hst
      split_ifs at hst <;> cases hst
      · exact h.leave hlive hstack
      · exact next hlive rfl rfl
  case spawnDrop m =>
    cases hst
    have hset : StopInv (s.setWorker n .callDisconnect) := next hlive rfl rfl
    refine hset.setStack trivial ?_ fun k _ f hf ho => ?_
    · rintro k - f hf
      rw [List.mem_singleton.1 hf]
      rfl
    · exact absurd ho (Frame.not_owns_of_dropping (h.dropper m f hf) rfl)
  case callDisconnect =>
    cases hst
    have hcall : StopInv ((s.setWorker n .marking).setStack (.channel n) [.callback]) :=
      call (next hlive rfl rfl) rfl
    exact hcall.record (clientId n) .disconnect

theorem frameStep {s' : State κ} (h : StopInv s) {t : Thread κ} {o : HandlerOutcome}
    (hst : s.frameStep t o = some s') : StopInv s' := by
  -- a call that a worker does not depend on goes on
  have turn {s₁ : State κ} {f : Frame} {fs : List Frame} (h₁ : StopInv s₁)
      (hs : s₁.stack t = f :: fs) (hf : f.dropping = false) (hno : ∀ n, ¬ f.owns t n)
      (gs : List Frame) : StopInv (s₁.setStack t (gs ++ fs)) :=
    h₁.goOn hs gs (fun hd => absurd (hf.symm.trans hd) Bool.noConfusion) fun n _ ho =>
      absurd ho (hno n)
  unfold State.frameStep at hst
  cases hs : s.stack t with
  | nil =>
    simp only [hs] at hst
    cases hst
  | cons f fs =>
    cases f <;> simp only [hs] at hst
    case callback =>
      have hno (n : ℕ) : ¬ Frame.callback.owns t n := id
      cases o <;> cases hst
      case finish => exact turn h hs rfl hno []
      case readClients => exact turn h hs rfl hno [.readClients, .callback]
      case disconnectClient i => exact turn h hs rfl hno [.disconnectClient i, .callback]
    case readClients =>
      split_ifs at hst
      cases hst
      exact turn h hs rfl (fun _ => id) []
    case disconnectClient i =>
      split_ifs at hst
      cases hf : s.find i with
      | none =>
        simp only [hf] at hst
        cases hst
        exact turn h hs rfl (fun _ => id) []
      | some n =>
        simp only [hf] at hst
        cases hst
        have hturn : StopInv (s.setStack t (.setDisconnected i n :: fs)) :=
          turn h hs rfl (fun _ => id) [.setDisconnected i n]
        refine hturn.erase (.frame (t := t) (f := .setDisconnected i n) ?_ rfl)
        change _ ∈ (s.setStack t (.setDisconnected i n :: fs)).stack t
        rw [State.setStack_stack_self]
        exact List.mem_cons_self
    case setDisconnected i n =>
      cases hst
      have hset : StopInv (s.setChannel n { s.channel n with disconnected := true }) :=
        h.keepPending rfl (h.idle n) id fun _ => rfl
      refine hset.goOn hs [.stopServer i n] (by rintro ⟨⟩) fun m _ ho => .removed ?_
      cases ho
      change ((s.setChannel n { s.channel n with disconnected := true }).channel n).disconnected =
        true
      rw [State.setChannel_channel_self]
    case stopServer i n =>
      cases hst
      exact turn (h.stopServer n) hs rfl (fun _ => id) [.callDisconnect i n]
    case callDisconnect i n =>
      cases hst
      exact turn (h.record i .disconnect) hs rfl (fun _ => id) [.callback, .dropServer n]
    case abandon n =>
      cases hst
      refine (h.stopServer n).goOn hs [.dropServer n] (by rintro ⟨⟩) fun m _ ho => ?_
      refine .frame (t := t) (f := .dropServer n) ?_ ho
      rw [State.setStack_stack_self]
      exact List.mem_cons_self
    case dropServer n =>
      cases hst
      have hset : StopInv
          (s.setChannel n { s.channel n with running := false, shutdown := true }) :=
        h.keepPending rfl (h.idle n) id id
      by_cases ht : t = .channel n
      · rw [if_pos ht]
        refine hset.goOn hs [] (fun _ g hg => by cases hg) fun m _ ho => ?_
        subst ht
        cases ho.2
      · rw [if_neg ht]
        refine hset.goOn hs [.join n] (fun _ g hg => ?_) fun m _ ho => ?_
        · rw [List.mem_singleton.1 hg]
          rfl
        · refine .frame (t := t) (f := .join n) ?_ ho
          rw [State.setStack_stack_self]
          exact List.mem_cons_self
    case join n =>
      split_ifs at hst with hw
      cases hst
      refine h.goOn hs [] (fun _ g hg => by cases hg) fun m hlive ho => ?_
      obtain rfl : n = m := ho.1
      rw [hw] at hlive
      cases hlive

/-! ### `stop` -/

/-- A thread goes on in `stop`. -/
theorem setStop (h : StopInv s) {a : κ} {pc : Stop}
    (hpast : pc.pastLobby = true → s.lobby = .ended)
    (htaken : ∀ ns, pc = .joinPending ns → s.pendingConnects = [])
    (hjoin : ∀ n ∈ (s.stop a).threads, s.pendingFinished n ∨ n ∈ pc.threads) :
    StopInv (s.setStop a pc) := by
  refine { h with past := ?_, taken := ?_, listed := fun n hn => ?_,
                  owned := fun n hlive => (h.owned n hlive).of_eq rfl rfl rfl rfl }
  · exact fun b => forall_update (P := fun pc : Stop => pc.pastLobby = true)
      (Q := fun _ => s.lobby = .ended) hpast (fun b => h.past b) b
  · exact fun b ns => forall_update (P := fun pc : Stop => pc = .joinPending ns)
      (Q := fun _ => s.pendingConnects = []) (htaken ns) (fun b => h.taken b ns) b
  · rcases h.listed n hn with hfin | hlist | ⟨b, hb⟩
    · exact .inl hfin
    · exact .inr (.inl hlist)
    · by_cases hba : b = a
      · subst hba
        rcases hjoin n hb with hfin | hpc
        · exact .inl hfin
        · refine .inr (.inr ⟨b, ?_⟩)
          change n ∈ (Function.update s.stop b pc b).threads
          rwa [Function.update_self]
      · refine .inr (.inr ⟨b, ?_⟩)
        change n ∈ (Function.update s.stop a pc b).threads
        rwa [Function.update_of_ne hba]

theorem callStep {s' : State κ} (h : StopInv s) {a : κ} {r : Request}
    (hst : s.callStep a r = some s') : StopInv s' := by
  unfold State.callStep at hst
  split_ifs at hst with hc
  have hpush (fs : List Frame) : StopInv (s.setStack (.app a) fs) :=
    h.push (t := .app a) trivial hc.2 fs fun n => by rintro ⟨⟩
  cases r with
  | stop =>
    cases hst
    have hset : StopInv (s.setStop a .lockHandle) := by
      refine h.setStop (by rintro ⟨⟩) (by rintro _ ⟨⟩) fun n hn => ?_
      rw [hc.1] at hn
      cases hn
    exact hset.of_eq rfl rfl rfl rfl rfl rfl rfl rfl
  | readClients =>
    cases hst
    exact hpush [.readClients]
  | disconnectClient i =>
    cases hst
    exact hpush [.disconnectClient i]

/-- `stop` takes the threads that it is to join. -/
theorem takePending (h : StopInv s) {a : κ} (hl : s.lobby = .ended)
    (ha : (s.stop a).threads = []) :
    StopInv ({ s with pendingConnects := [] }.setStop a (.joinPending s.pendingConnects)) := by
  refine { h with past := fun b _ => hl, taken := fun b ns _ => rfl, listed := fun n hn => ?_,
                  owned := fun n hlive => (h.owned n hlive).of_eq rfl rfl rfl rfl }
  rcases h.listed n hn with hfin | hlist | ⟨b, hb⟩
  · exact .inl hfin
  · refine .inr (.inr ⟨a, ?_⟩)
    change n ∈ (Function.update s.stop a (.joinPending s.pendingConnects) a).threads
    rwa [Function.update_self]
  · refine .inr (.inr ⟨b, ?_⟩)
    have hba : b ≠ a := by
      rintro rfl
      rw [ha] at hb
      cases hb
    change n ∈ (Function.update s.stop a (.joinPending s.pendingConnects) b).threads
    rwa [Function.update_of_ne hba]

theorem stopStep {s' : State κ} (h : StopInv s) {a : κ} (hst : s.stopStep a = some s') :
    StopInv s' := by
  unfold State.stopStep at hst
  have hpast := h.past a
  have htaken := h.taken a
  cases hs : s.stop a <;> simp only [hs] at hst
  case idle => cases hst
  case lockHandle =>
    have hnone {n : ℕ} {P : Prop} (hn : n ∈ (s.stop a).threads) : P := by
      rw [hs] at hn
      cases hn
    split_ifs at hst with hlock hw <;> cases hst
    · have hlock' : StopInv { s with workerHandle := false, handleLock := some a } :=
        { h with
          handle := fun _ hn => by cases hn
          owned := fun n hlive => (h.owned n hlive).of_eq rfl rfl rfl rfl }
      exact hlock'.setStop (by rintro ⟨⟩) (by rintro _ ⟨⟩) fun n hn => hnone hn
    · have hl := h.handle (Bool.eq_false_iff.2 hw) hlock
      exact h.setStop (fun _ => hl) (by rintro _ ⟨⟩) fun n hn => hnone hn
  case joinLobby =>
    split_ifs at hst with hl
    cases hst
    have hlock : StopInv { s with handleLock := none } :=
      { h with
        handle := fun _ _ => hl
        owned := fun n hlive => (h.owned n hlive).of_eq rfl rfl rfl rfl }
    refine hlock.setStop (fun _ => hl) (by rintro _ ⟨⟩) fun n hn => ?_
    have hn : n ∈ (s.stop a).threads := hn
    rw [hs] at hn
    cases hn
  case takePending =>
    cases hst
    exact h.takePending (hpast (by rw [hs]; rfl)) (by rw [hs]; rfl)
  case joinPending ns =>
    have hl := hpast (by rw [hs]; rfl)
    cases ns with
    | nil =>
      cases hst
      have hset : StopInv (s.setStop a .idle) := by
        refine h.setStop (by rintro ⟨⟩) (by rintro _ ⟨⟩) fun n hn => ?_
        rw [hs] at hn
        cases hn
      exact hset.of_eq rfl rfl rfl rfl rfl rfl rfl rfl
    | cons n ns =>
      simp only at hst
      split_ifs at hst with hfin
      cases hst
      refine h.setStop (fun _ => hl) (fun _ _ => htaken (n :: ns) hs) fun m hm => ?_
      rw [hs] at hm
      rcases List.mem_cons.1 hm with rfl | hm
      · exact .inl hfin
      · exact .inr hm

/-- **A step that inserts no client after the end of `worker_loop` keeps the invariant.** -/
theorem step {s' : State κ} (h : StopInv s) {l : Label κ}
    (hins : ∀ n b, l = .pending n b → (s.channel n).pending = .insert → s.lobby ≠ .ended)
    (hst : s.step l = some s') : StopInv s' := by
  cases l with
  | lobby o => exact h.lobbyStep hst
  | pending n b => exact h.pendingStep (hins n b rfl) hst
  | worker n o => exact h.workerStep hst
  | call a r => exact h.callStep hst
  | stop a => exact h.stopStep hst
  | frame t o => exact h.frameStep hst

end StopInv

/-! ### When `stop` returns -/

section Return

variable [DecidableEq κ] {s s' : State κ}

/-- The record that `stop` has returned is made by its last step. -/
theorem stopped_step {l : Label κ} (hst : s.step l = some s') :
    s'.stopped = s.stopped ∨ ∃ a, l = .stop a ∧ s.stop a = .joinPending [] := by
  cases l with
  | lobby o =>
    left
    simp only [State.step, State.lobbyStep] at hst
    split at hst
    · cases hst
    · split at hst <;> (try split_ifs at hst) <;> cases hst <;> rfl
  | pending n b =>
    left
    simp only [State.step, State.pendingStep] at hst
    split at hst
    · cases hst
    · split at hst <;> (try split_ifs at hst) <;> (try split at hst) <;> cases hst <;> rfl
  | worker n o =>
    left
    simp only [State.step, State.workerStep] at hst
    split at hst
    · cases hst
    · split at hst <;> (try split_ifs at hst) <;> (try split at hst) <;> (try split_ifs at hst) <;>
        cases hst <;> rfl
  | call a r =>
    left
    simp only [State.step, State.callStep] at hst
    split at hst
    · cases r <;> cases hst <;> rfl
    · cases hst
  | frame t o =>
    left
    simp only [State.step, State.frameStep] at hst
    split at hst <;> (try split_ifs at hst) <;> (try split at hst) <;> cases hst <;> rfl
  | stop a =>
    simp only [State.step, State.stopStep] at hst
    cases hs : s.stop a <;> simp only [hs] at hst
    case idle => cases hst
    case takePending =>
      cases hst
      exact .inl rfl
    case lockHandle | joinLobby =>
      split_ifs at hst <;> cases hst <;> exact .inl rfl
    case joinPending ns =>
      cases ns with
      | nil => exact .inr ⟨a, rfl, hs⟩
      | cons n ns =>
        simp only at hst
        split_ifs at hst
        cases hst
        exact .inl rfl

/-- No thread is left that could call the handler. -/
structure Quiet (s : State κ) : Prop where
  lobby : s.lobby = .ended
  clients : s.clients = []
  pending : ∀ n, (s.channel n).pending = .absent ∨ (s.channel n).pending = .ended
  worker : ∀ n, (s.channel n).worker.live = false
  stack : ∀ t, ∀ f ∈ s.stack t, f.silent = true

namespace Quiet

theorem setStack (h : Quiet s) (t : Thread κ) {fs : List Frame}
    (hfs : ∀ f ∈ fs, f.silent = true) : Quiet (s.setStack t fs) :=
  { h with
    stack := fun u => by
      by_cases hu : u = t
      · subst hu
        rw [State.setStack_stack_self]
        exact hfs
      · rw [State.setStack_stack_of_ne s hu]
        exact h.stack u }

/-- The last call goes on. -/
theorem goOn (h : Quiet s) {t : Thread κ} {f : Frame} {fs : List Frame} (hs : s.stack t = f :: fs)
    (gs : List Frame) (hgs : ∀ g ∈ gs, g.silent = true) : Quiet (s.setStack t (gs ++ fs)) := by
  refine h.setStack t fun g hg => ?_
  rcases List.mem_append.1 hg with hg | hg
  · exact hgs g hg
  · exact h.stack t g (by rw [hs]; exact List.mem_cons_of_mem f hg)

omit [DecidableEq κ] in
theorem setChannel (h : Quiet s) {n : ℕ} {ch : Channel} (hp : ch.pending = (s.channel n).pending)
    (hw : ch.worker = (s.channel n).worker) : Quiet (s.setChannel n ch) :=
  { h with
    pending := fun m => by
      rw [s.setChannel_keeps Channel.pending hp m]
      exact h.pending m
    worker := fun m => by
      rw [s.setChannel_keeps (fun ch => ch.worker.live) (congrArg ServerWorker.live hw) m]
      exact h.worker m }

theorem frameStep (h : Quiet s) {t : Thread κ} {o : HandlerOutcome}
    (hst : s.frameStep t o = some s') : Quiet s' := by
  unfold State.frameStep at hst
  cases hs : s.stack t with
  | nil =>
    simp only [hs] at hst
    cases hst
  | cons f fs =>
    have hf := h.stack t f (by rw [hs]; exact List.mem_cons_self)
    cases f <;> simp only [hs] at hst
    case readClients =>
      split_ifs at hst
      cases hst
      exact h.goOn hs [] (by rintro _ ⟨⟩)
    case disconnectClient i =>
      -- there is no client to be removed
      have hfind : s.find i = none := by
        rw [State.find, h.clients]
        rfl
      split_ifs at hst
      simp only [hfind] at hst
      cases hst
      exact h.goOn hs [] (by rintro _ ⟨⟩)
    case dropServer n =>
      cases hst
      have hset : Quiet (s.setChannel n { s.channel n with running := false, shutdown := true }) :=
        h.setChannel rfl rfl
      split_ifs
      · exact hset.goOn hs [] (by rintro _ ⟨⟩)
      · refine hset.goOn hs [.join n] fun g hg => ?_
        rw [List.mem_singleton.1 hg]
        rfl
    case join n =>
      split_ifs at hst
      cases hst
      exact h.goOn hs [] (by rintro _ ⟨⟩)
    all_goals cases hf

theorem stopStep (h : Quiet s) {a : κ} (hst : s.stopStep a = some s') : Quiet s' := by
  unfold State.stopStep at hst
  cases hs : s.stop a <;> simp only [hs] at hst
  case idle => cases hst
  case lockHandle | joinLobby => split_ifs at hst <;> cases hst <;> exact { h with }
  case takePending =>
    cases hst
    exact { h with }
  case joinPending ns =>
    cases ns with
    | nil =>
      cases hst
      exact { h with }
    | cons n ns =>
      simp only at hst
      split_ifs at hst
      cases hst
      exact { h with }

/-- Once it is quiet, it stays so. -/
theorem step (h : Quiet s) {l : Label κ} (hst : s.step l = some s') : Quiet s' := by
  cases l with
  | lobby o =>
    simp only [State.step, State.lobbyStep, h.lobby] at hst
    split at hst <;> cases hst
  | pending n b =>
    simp only [State.step, State.pendingStep] at hst
    rcases h.pending n with hp | hp <;> simp only [hp] at hst <;> split at hst <;> cases hst
  | worker n o =>
    have hw := h.worker n
    simp only [State.step, State.workerStep] at hst
    cases hn : (s.channel n).worker <;> simp only [hn] at hst hw
    case absent | ended => split at hst <;> cases hst
    all_goals cases hw
  | call a r =>
    simp only [State.step, State.callStep] at hst
    split at hst
    · cases r with
      | stop =>
        cases hst
        exact { h with }
      | readClients | disconnectClient =>
        cases hst
        refine h.setStack _ fun f hf => ?_
        rw [List.mem_singleton.1 hf]
        rfl
    · cases hst
  | stop a => exact h.stopStep hst
  | frame t o => exact h.frameStep hst

omit [DecidableEq κ] in
theorem silent (h : Quiet s) : Silent s := by
  refine fun _ => ⟨fun t ht => ?_, fun n hn => ?_⟩
  · cases h.stack t _ ht
  · rw [h.clients] at hn
    cases hn

end Quiet

omit [DecidableEq κ] in
theorem StopInv.used (h : StopInv s) (he : EntryInv s) {n : ℕ} {f : Frame}
    (hf : f ∈ s.stack (.channel n)) : n < s.nextClientId := by
  obtain ⟨g, gs, hs⟩ := List.exists_cons_of_ne_nil (List.ne_nil_of_mem hf)
  exact (he.used n (.inr (ServerWorker.started_of_live (h.moving hs)))).2

omit [DecidableEq κ] in
/-- When `stop` returns, nobody is left to call the handler. -/
theorem quiet_of_return (h : StopInv s) (he : EntryInv s) {a : κ}
    (hs : s.stop a = .joinPending []) (hc : AllJoined s (.stop a)) : Quiet s := by
  obtain ⟨hremoved, hthreads, happ⟩ := hc hs
  have hl : s.lobby = .ended := h.past a (by rw [hs]; rfl)
  obtain ⟨hlobby, hclients⟩ := h.ended hl
  have hpending (n : ℕ) : (s.channel n).pending = .absent ∨ s.pendingFinished n := by
    by_cases hp : (s.channel n).pending = .absent
    · exact .inl hp
    · rcases h.listed n hp with hfin | hlist | ⟨b, hb⟩
      · exact .inr hfin
      · rw [h.taken a [] hs] at hlist
        cases hlist
      · exact .inr (hthreads b n hb)
  have hwaits (n : ℕ) : s.stack (.pending n) = [] := (hpending n).elim (h.absent n) And.right
  have hended (n : ℕ) : (s.channel n).pending = .absent ∨ (s.channel n).pending = .ended :=
    (hpending n).imp_right And.left
  have hworker (n : ℕ) : (s.channel n).worker.live = false := by
    by_contra hlive
    have hlive := Bool.of_not_eq_false hlive
    have hn := (he.used n (.inr (ServerWorker.started_of_live hlive))).2
    have removed (hr : s.Removed n) : False := by
      cases hlive.symm.trans (hremoved n hn hr)
    cases h.owned n hlive with
    | entry hent =>
      rw [hclients] at hent
      cases hent
    | responding hr => cases hl.symm.trans hr
    | waiting hw => rcases hended n with hp | hp <;> rw [hp] at hw <;> cases hw
    | removed hd => exact removed (.inl hd)
    | @frame t f hf ho =>
      cases t with
      | lobby =>
        rw [hlobby] at hf
        cases hf
      | pending m =>
        rw [hwaits m] at hf
        cases hf
      | channel m =>
        cases f with
        | setDisconnected i k =>
          cases ho
          exact removed (.inr ⟨m, h.used he hf, (i, n), List.mem_filterMap.2 ⟨_, hf, rfl⟩, rfl⟩)
        | abandon | dropServer | join => cases ho.2
        | _ => cases ho
      | dropper m => exact Frame.not_owns_of_dropping (h.dropper m f hf) rfl ho
      | app b =>
        have hsilent := happ b f hf
        cases f with
        | dropServer | join => cases ho.2
        | readClients | disconnectClient => cases ho
        | _ => cases hsilent
  refine ⟨hl, hclients, hended, hworker, fun t f hf => ?_⟩
  cases t with
  | lobby =>
    rw [hlobby] at hf
    cases hf
  | pending n =>
    rw [hwaits n] at hf
    cases hf
  | channel n =>
    rw [h.idle n (hworker n)] at hf
    cases hf
  | dropper n =>
    have hd := h.dropper n f hf
    cases f <;> first | rfl | cases hd
  | app b => exact happ b f hf

/-- **Silence after `stop`**, if all threads that call the handler have been joined. -/
theorem silent_of_allJoined (h : (system κ).ReachWhen AllJoined s) : Silent s := by
  have hi : EntryInv s ∧ StopInv s ∧ (s.stopped = true → Quiet s) := by
    refine h.invariant (I := fun s => EntryInv s ∧ StopInv s ∧ (s.stopped = true → Quiet s)) ?_ ?_
    · rintro s rfl
      exact ⟨.init, .init, by rintro ⟨⟩⟩
    · rintro s l s' ⟨he, hstop, hquiet⟩ hl hst
      refine ⟨he.move (step_entryMove hst), hstop.step ?_ hst, fun hs' => ?_⟩
      · rintro n b rfl
        exact hl
      · rcases stopped_step hst with hsame | ⟨a, rfl, hret⟩
        · exact (hquiet (hsame ▸ hs')).step hst
        · have hst : s.step (.stop a) = some s' := hst
          exact (quiet_of_return hstop he hret hl).step hst
  exact fun hs => (hi.2.2 hs).silent hs

end Return

/-- `on_client_connect` is called for the client of channel 1, and returns. -/
def welcome : List (Label Unit) :=
  arrive ++ insertOne ++ [.pending 1 false, .frame (.pending 1) .finish]

/-- `stop` is called, and `worker_loop` comes to the end of its loops. -/
def beginStop : List (Label Unit) := .call () .stop :: List.replicate 2 (.lobby .ok)

/-- `worker_loop` ends, and `stop` joins it and the thread of channel 1. -/
def endStop : List (Label Unit) := .lobby .ok :: List.replicate 5 (.stop ())

/-- `worker_loop` removes the client of channel 1 and joins its worker. -/
def closeChannel : List (Label Unit) :=
  .lobby (.remove 1) :: List.replicate 5 (.frame .lobby .finish) ++
    List.replicate 3 (.worker 1 .timeout) ++ [.worker 1 .timeout, .frame .lobby .finish]

theorem silent_of_allJoined_closeChannel : ∃ s : State Unit,
    (s.stopped = true ∧ s.calls 1 = [.connect, .disconnect]) ∧ Silent s := by
  obtain ⟨s, h, hs⟩ := System.exists_reachWhen (A := system Unit) (C := AllJoined) (s := {})
    (r := welcome ++ beginStop ++ closeChannel ++ endStop)
    (f := fun s => (s.stopped, s.calls 1)) (t := (true, [.connect, .disconnect])) rfl
    (by decide +kernel)
  simp only [Prod.mk.injEq] at hs
  exact ⟨s, hs, silent_of_allJoined h⟩

/-- The client of channel 1 leaves, and its worker removes the entry. -/
def leaveChannel : List (Label Unit) :=
  List.replicate 2 (.worker 1 .timeout) ++ [.worker 1 .disconnect, .worker 1 .ok]

/-- The worker calls `on_client_disconnect` after `stop` has returned. -/
theorem not_silent : ¬ ∀ (κ : Type) [DecidableEq κ] (s : State κ),
    (system κ).Reach s → Silent s := by
  intro h
  obtain ⟨s, hr, hs⟩ := System.exists_reachWhen (A := system Unit) (C := fun _ _ => True) (s := {})
    (r := welcome ++ leaveChannel ++ beginStop ++ endStop ++ List.replicate 2 (.worker 1 .ok))
    (f := fun s => (s.stopped, s.stack (.channel 1))) (t := (true, [.callback])) rfl
    (by decide +kernel)
  simp only [Prod.mk.injEq] at hs
  have := (h Unit s hr hs.1).1 (.channel 1)
  rw [hs.2] at this
  exact this (List.mem_singleton_self _)

end Dispatch

end Xshm
