import Xshm.Dispatch.Entries

/-!
# The order of the handler's calls for a client

The handler is called by the thread that has inserted the client (`on_client_connect`), by the
worker of its channel (`on_message`, `on_client_disconnect`), and by whoever removes its entry
(`on_client_disconnect`).  The worker goes on to read as soon as the client is connected to its
channel, and no thread waits for another before it calls.

If messages are read only while the client is in the map, and no call gets in while another thread
is about to make one for an earlier change of the map (`InSession`), then the calls for an id are
those of one session, up to any of them (`callsInTurn_of_inSession`).
-/

namespace Xshm

namespace Dispatch

variable {κ : Type*}

/-- The calls for a client that is still there. -/
def talk (ms : List Payload) : List Event := .connect :: ms.map .message

/-- The calls are `on_client_connect`, any number of `on_message` and `on_client_disconnect`, up to
any of them. -/
def InTurn (l : List Event) : Prop := ∃ ms, l <+: talk ms ++ [.disconnect]

/-- The calls that have been started for an id are in turn. -/
def CallsInTurn (s : State κ) : Prop := ∀ i, InTurn (s.calls i)

theorem inTurn_nil : InTurn [] := ⟨[], List.nil_prefix⟩

theorem inTurn_talk (ms : List Payload) : InTurn (talk ms) := ⟨ms, List.prefix_append ..⟩

theorem inTurn_left (ms : List Payload) : InTurn (talk ms ++ [.disconnect]) := ⟨ms, List.prefix_rfl⟩

theorem talk_append (ms : List Payload) (p : Payload) :
    talk ms ++ [.message p] = talk (ms ++ [p]) := by
  rw [talk, talk, List.map_append]
  rfl

/-- The client has been inserted, and `on_client_connect` has not been called. -/
def Pending.announcing : Pending → Bool
  | .replaced | .callConnect => true
  | _ => false

theorem Pending.eq_ended {pc : Pending} (he : pc.entered = true) (ha : pc.announcing = false) :
    pc = .ended := by
  cases pc
  case ended => rfl
  case replaced | callConnect => cases ha
  all_goals cases he

/-- The worker calls the handler for its client next. -/
def ServerWorker.calling : ServerWorker → Bool
  | .callMessage _ | .callDisconnect => true
  | _ => false

/-- The client whose `on_client_disconnect` is called next. -/
def Frame.calling : Frame → Option ℕ
  | .callDisconnect _ n => some n
  | _ => none

def WorkerOutcome.isMessage : WorkerOutcome → Bool
  | .message _ => true
  | _ => false

/-- The ids have not been used up; a message is read only while its client is in the map; no thread
calls the handler for a client while the thread that has inserted it is about to do so; and whoever
removes an entry, other than its channel, does not call it while the channel is about to. -/
def InSession (s : State κ) : Label κ → Prop
  | .lobby _ => s.lobby = .accept → s.nextClientId ≤ 2 ^ 32
  | .worker n o =>
    ((s.channel n).worker = .receive → o.isMessage = true → n ∈ s.clients) ∧
      ((s.channel n).worker.calling = true → (s.channel n).pending.announcing = false)
  | .frame t _ => ∀ n ∈ (s.stack t).head?.bind Frame.calling,
      (s.channel n).pending.announcing = false ∧ (s.channel n).worker.owes = none
  | _ => True

/-- Ids are not repeated before they have been used up. -/
theorem clientId_inj {m n : ℕ} (hm : 0 < m ∧ m ≤ 2 ^ 32) (hn : 0 < n ∧ n ≤ 2 ^ 32)
    (h : clientId m = clientId n) : m = n := by
  have := congrArg UInt32.toNat h
  simp only [clientId, UInt32.toNat_ofNat'] at this
  omega

namespace State

variable (s : State κ)

/-- The client is in the map, or a call is owed for it. -/
def Open (n : ℕ) : Prop :=
  n ∈ s.clients ∨ (∃ t, ∃ x ∈ s.leavers t, x.2 = n) ∨ (s.channel n).worker.owes ≠ none

/-- The client has been inserted, and if its `on_client_connect` has been called, it is still
there as far as the handler knows. -/
def Live (n : ℕ) : Prop :=
  (s.channel n).pending.entered = true ∧
    ((s.channel n).pending = .ended → ∃ ms, s.calls (clientId n) = talk ms)

end State

/-! ### The invariant -/

structure OrderInv (s : State κ) : Prop where
  bound : s.nextClientId ≤ 2 ^ 32 + 1
  live : ∀ n, s.Open n → s.Live n
  ownId : ∀ t, ∀ x ∈ s.leavers t, x.1 = clientId x.2
  nodup : ∀ t, ((s.leavers t).map Prod.snd).Nodup
  unique : ∀ t u, ∀ x ∈ s.leavers t, ∀ y ∈ s.leavers u, x.2 = y.2 → t = u
  left : ∀ n, (s.channel n).worker.owes = some .disconnect →
    n ∉ s.clients ∧ ∀ t, ∀ x ∈ s.leavers t, x.2 ≠ n
  fresh : ∀ n, 0 < n ∧ n ≤ 2 ^ 32 → (s.channel n).pending ≠ .ended → s.calls (clientId n) = []
  inTurn : ∀ i, InTurn (s.calls i)

namespace OrderInv

variable {s s' : State κ}

theorem init : OrderInv ({} : State κ) where
  bound := Nat.le_add_left 1 (2 ^ 32)
  live := by
    rintro n (hn | ⟨t, x, hx, -⟩ | hn)
    · cases hn
    · cases hx
    · exact absurd rfl hn
  ownId := by rintro _ _ ⟨⟩
  nodup _ := List.nodup_nil
  unique := by rintro _ _ _ ⟨⟩
  left := by rintro _ ⟨⟩
  fresh _ _ _ := rfl
  inTurn _ := inTurn_nil

/-- The id of a client that has been inserted is its own. -/
theorem range (h : OrderInv s) (hi : EntryInv s) {n : ℕ}
    (hn : (s.channel n).pending.entered = true) : 0 < n ∧ n ≤ 2 ^ 32 := by
  have := h.bound
  have := hi.used_of_entered hn
  omega

/-- A step after which no more clients are open, and no call has been made. -/
theorem same (h : OrderInv s) (hs : SameEntries s s') : OrderInv s' := by
  have hent (n : ℕ) := hs.entry n
  simp only [Channel.entry, Prod.mk.injEq] at hent
  have hx {t : Thread κ} {x : UInt32 × ℕ} (hx : x ∈ s'.leavers t) : x ∈ s.leavers t :=
    (hs.leavers t).subset hx
  refine ⟨?_, fun n hn => ?_, fun t x h' => h.ownId t x (hx h'), fun t => ?_,
    fun t u x h₁ y h₂ => h.unique t u x (hx h₁) y (hx h₂), fun n hn => ?_, fun n hr hn => ?_, ?_⟩
  · rw [hs.nextClientId]
    exact h.bound
  · have hopen : s.Open n := by
      rcases hn with hn | ⟨t, x, h', rfl⟩ | hn
      · exact .inl (hs.clients ▸ hn)
      · exact .inr (.inl ⟨t, x, hx h', rfl⟩)
      · exact .inr (.inr ((hent n).2.2.1 ▸ hn))
    have hlive := h.live n hopen
    rw [State.Live] at hlive ⊢
    rw [(hent n).1, hs.calls]
    exact hlive
  · exact (h.nodup t).sublist ((hs.leavers t).map Prod.snd)
  · rw [(hent n).2.2.1] at hn
    rw [hs.clients]
    exact (h.left n hn).imp_right fun hl t x h' => hl t x (hx h')
  · rw [(hent n).1] at hn
    rw [hs.calls]
    exact h.fresh n hr hn
  · rw [hs.calls]
    exact h.inTurn

/-- A channel changes, and calls nothing that it did not owe before. -/
theorem setChannel (h : OrderInv s) {n : ℕ} {ch : Channel}
    (hent : s.Open n → (s.channel n).pending.entered = true → ch.pending.entered = true)
    (hend : ch.pending = .ended → s.Open n → (s.channel n).pending = .ended)
    (hfresh : (s.channel n).pending = .ended → ch.pending = .ended)
    (howes : ch.worker.owes = (s.channel n).worker.owes ∨ ch.worker.owes = none) :
    OrderInv (s.setChannel n ch) := by
  have hself : (s.setChannel n ch).channel n = ch := s.setChannel_channel_self n ch
  have hne {m : ℕ} (hm : m ≠ n) : (s.setChannel n ch).channel m = s.channel m :=
    s.setChannel_channel_of_ne hm ch
  have howes' {m : ℕ} (hm : ((s.setChannel n ch).channel m).worker.owes ≠ none) :
      ((s.setChannel n ch).channel m).worker.owes = (s.channel m).worker.owes := by
    by_cases hmn : m = n
    · subst hmn
      rw [hself] at hm ⊢
      exact howes.resolve_right hm
    · rw [hne hmn]
  refine { h with live := fun m hm => ?_, left := fun m hm => ?_, fresh := fun m hr hm => ?_ }
  · have hopen : s.Open m := by
      rcases hm with hm | hm | hm
      · exact .inl hm
      · exact .inr (.inl hm)
      · exact .inr (.inr (howes' hm ▸ hm))
    have hlive := h.live m hopen
    by_cases hmn : m = n
    · subst hmn
      rw [State.Live, hself]
      exact ⟨hent hopen hlive.1, fun he => hlive.2 (hend he hopen)⟩
    · rw [State.Live, hne hmn]
      exact hlive
  · refine h.left m ?_
    rw [← howes' (by rw [hm]; rintro ⟨⟩)]
    exact hm
  · by_cases hmn : m = n
    · subst hmn
      exact h.fresh m hr fun he => hm (hself.symm ▸ hfresh he)
    · exact h.fresh m hr (hne hmn ▸ hm)

/-- The handler is called for a client whose `on_client_connect` has been called. -/
theorem record (h : OrderInv s) (hi : EntryInv s) {n : ℕ} {e : Event}
    (hn : (s.channel n).pending = .ended) (hturn : InTurn (s.calls (clientId n) ++ [e]))
    (hlive : s.Open n → ∃ ms, s.calls (clientId n) ++ [e] = talk ms) :
    OrderInv (s.record (clientId n) e) := by
  have hr := h.range hi (n := n) (by rw [hn]; rfl)
  have hself : (s.record (clientId n) e).calls (clientId n) = s.calls (clientId n) ++ [e] :=
    Function.update_self ..
  have hne {i : UInt32} (h' : i ≠ clientId n) : (s.record (clientId n) e).calls i = s.calls i :=
    Function.update_of_ne h' ..
  refine { h with live := fun m hm => ?_, fresh := fun m hrm hm => ?_, inTurn := fun i => ?_ }
  · have hl := h.live m hm
    by_cases hmn : m = n
    · subst hmn
      exact ⟨hl.1, fun _ => hself ▸ hlive hm⟩
    · have hid : clientId m ≠ clientId n := fun he => hmn (clientId_inj (h.range hi hl.1) hr he)
      exact ⟨hl.1, fun he => hne hid ▸ hl.2 he⟩
  · have hid : clientId m ≠ clientId n := by
      intro he
      obtain rfl := clientId_inj hrm hr he
      exact hm hn
    rw [hne hid]
    exact h.fresh m hrm hm
  · by_cases hin : i = clientId n
    · subst hin
      rw [hself]
      exact hturn
    · rw [hne hin]
      exact h.inTurn i

/-- The worker is about to call the handler for its client, which has not been told to leave. -/
theorem owe (h : OrderInv s) {n : ℕ} {ch : Channel} (hlive : s.Live n)
    (hp : ch.pending = (s.channel n).pending)
    (hleft : ch.worker.owes = some .disconnect →
      n ∉ s.clients ∧ ∀ t, ∀ x ∈ s.leavers t, x.2 ≠ n) : OrderInv (s.setChannel n ch) := by
  have hself : (s.setChannel n ch).channel n = ch := s.setChannel_channel_self n ch
  have hne {m : ℕ} (hm : m ≠ n) : (s.setChannel n ch).channel m = s.channel m :=
    s.setChannel_channel_of_ne hm ch
  refine { h with live := fun m hm => ?_, left := fun m hm => ?_, fresh := fun m hr hm => ?_ }
  · by_cases hmn : m = n
    · subst hmn
      rw [State.Live, hself, hp]
      exact hlive
    · rw [State.Open, hne hmn] at hm
      rw [State.Live, hne hmn]
      exact h.live m hm
  · by_cases hmn : m = n
    · subst hmn
      exact hleft (hself ▸ hm)
    · exact h.left m (hne hmn ▸ hm)
  · refine h.fresh m hr fun he => hm ?_
    by_cases hmn : m = n
    · subst hmn
      rw [hself, hp]
      exact he
    · rw [hne hmn]
      exact he

theorem erase (h : OrderInv s) (n : ℕ) : OrderInv (s.erase n) :=
  { h with
    live := fun m hm => h.live m (hm.imp_left List.mem_of_mem_erase)
    left := fun m hm => (h.left m hm).imp_left fun hn he => hn (List.mem_of_mem_erase he) }

/-- A client is inserted. -/
theorem insert (h : OrderInv s) {n : ℕ} {cs : List ℕ} {ch : Channel}
    (hp : (s.channel n).pending = .insert) (hcs : cs ⊆ n :: s.clients)
    (hch : ch.pending.entered = true ∧ ch.pending ≠ .ended)
    (howes : ch.worker = (s.channel n).worker) :
    OrderInv ({ s with clients := cs }.setChannel n ch) := by
  have hclosed : ¬ s.Open n := fun ho => by
    have := (h.live n ho).1
    rw [hp] at this
    cases this
  have hself : ({ s with clients := cs }.setChannel n ch).channel n = ch :=
    State.setChannel_channel_self ..
  have hne {m : ℕ} (hm : m ≠ n) :
      ({ s with clients := cs }.setChannel n ch).channel m = s.channel m :=
    State.setChannel_channel_of_ne _ hm ch
  refine { h with live := fun m hm => ?_, left := fun m hm => ?_, fresh := fun m hr hm => ?_ }
  · by_cases hmn : m = n
    · subst hmn
      rw [State.Live, hself]
      exact ⟨hch.1, fun he => absurd he hch.2⟩
    · rw [State.Live, hne hmn]
      refine h.live m ?_
      rw [State.Open, hne hmn] at hm
      exact hm.imp_left fun hm => (List.mem_cons.1 (hcs hm)).resolve_left hmn
  · by_cases hmn : m = n
    · subst hmn
      rw [hself, howes] at hm
      exact absurd (.inr (.inr (by rw [hm]; rintro ⟨⟩))) hclosed
    · have hl := h.left m (hne hmn ▸ hm)
      exact hl.imp_left fun hm he => hm ((List.mem_cons.1 (hcs he)).resolve_left hmn)
  · by_cases hmn : m = n
    · subst hmn
      exact h.fresh m hr (by rw [hp]; rintro ⟨⟩)
    · exact h.fresh m hr (hne hmn ▸ hm)

/-- The thread that has inserted the client calls `on_client_connect`. -/
theorem callConnect (h : OrderInv s) (hi : EntryInv s) {n : ℕ}
    (hp : (s.channel n).pending = .callConnect) :
    OrderInv ((s.record (clientId n) .connect).setPending n .ended) := by
  have hr := h.range hi (n := n) (by rw [hp]; rfl)
  have hnil := h.fresh n hr (by rw [hp]; rintro ⟨⟩)
  have hcalls : ((s.record (clientId n) .connect).setPending n .ended).calls (clientId n) =
      talk [] := by
    change Function.update s.calls (clientId n) (s.calls (clientId n) ++ [.connect]) _ = _
    rw [Function.update_self, hnil]
    rfl
  have hcalls' {i : UInt32} (hin : i ≠ clientId n) :
      ((s.record (clientId n) .connect).setPending n .ended).calls i = s.calls i :=
    Function.update_of_ne hin ..
  have hself : ((s.record (clientId n) .connect).setPending n .ended).channel n =
      { s.channel n with pending := .ended } := State.setChannel_channel_self ..
  have hne {m : ℕ} (hm : m ≠ n) :
      ((s.record (clientId n) .connect).setPending n .ended).channel m = s.channel m :=
    State.setChannel_channel_of_ne _ hm _
  have howes (m : ℕ) : (((s.record (clientId n) .connect).setPending n .ended).channel
      m).worker = (s.channel m).worker := by
    by_cases hmn : m = n
    · subst hmn
      rw [hself]
    · rw [hne hmn]
  have hid {m : ℕ} (hm : 0 < m ∧ m ≤ 2 ^ 32) (hmn : m ≠ n) : clientId m ≠ clientId n :=
    fun he => hmn (clientId_inj hm hr he)
  refine { h with live := fun m hm => ?_, left := fun m hm => ?_, fresh := fun m hrm hm => ?_,
                  inTurn := fun i => ?_ }
  · by_cases hmn : m = n
    · subst hmn
      rw [State.Live, hself, hcalls]
      exact ⟨rfl, fun _ => ⟨[], rfl⟩⟩
    · rw [State.Open, howes] at hm
      have hl := h.live m hm
      rw [State.Live, hne hmn, hcalls' (hid (h.range hi hl.1) hmn)]
      exact hl
  · exact h.left m (howes m ▸ hm)
  · have hmn : m ≠ n := by
      rintro rfl
      rw [hself] at hm
      exact hm rfl
    rw [hcalls' (hid hrm hmn)]
    exact h.fresh m hrm (hne hmn ▸ hm)
  · by_cases hin : i = clientId n
    · subst hin
      rw [hcalls]
      exact inTurn_talk []
    · rw [hcalls' hin]
      exact h.inTurn i

variable [DecidableEq κ]

/-- A thread has removed an entry. -/
theorem remove (h : OrderInv s) (hi : EntryInv s) {t : Thread κ} {n : ℕ} {fs : List Frame}
    (hn : n ∈ s.clients) (hfs : (fs.filterMap Frame.leaving).Sublist (s.leavers t)) :
    OrderInv ((s.erase n).setStack t (.setDisconnected (clientId n) n :: fs)) := by
  have hself : ((s.erase n).setStack t (.setDisconnected (clientId n) n :: fs)).leavers t =
      (clientId n, n) :: fs.filterMap Frame.leaving := by
    rw [State.leavers_setStack_self]
    rfl
  -- what a thread is to call now
  have hx {u : Thread κ} {x : UInt32 × ℕ}
      (hx : x ∈ ((s.erase n).setStack t (.setDisconnected (clientId n) n :: fs)).leavers u) :
      u = t ∧ x = (clientId n, n) ∨ x ∈ s.leavers u := by
    by_cases hu : u = t
    · subst hu
      rw [hself] at hx
      exact (List.mem_cons.1 hx).imp (fun hx => ⟨rfl, hx⟩) fun hx => hfs.subset hx
    · rw [State.leavers_setStack_of_ne _ hu] at hx
      exact .inr hx
  have hnot {u : Thread κ} {x : UInt32 × ℕ} (hx : x ∈ s.leavers u) : x.2 ≠ n :=
    fun he => (hi.leaver u x hx).2 (he ▸ hn)
  refine { h.erase n with
    live := fun m hm => h.live m ?_, ownId := fun u x h' => ?_, nodup := fun u => ?_,
    unique := fun u v x h₁ y h₂ hxy => ?_, left := fun m hm => ?_ }
  · rcases hm with hm | ⟨u, x, h', rfl⟩ | hm
    · exact .inl (List.mem_of_mem_erase hm)
    · rcases hx h' with ⟨-, rfl⟩ | h'
      · exact .inl hn
      · exact .inr (.inl ⟨u, x, h', rfl⟩)
    · exact .inr (.inr hm)
  · rcases hx h' with ⟨-, rfl⟩ | h'
    · rfl
    · exact h.ownId u x h'
  · by_cases hu : u = t
    · subst hu
      rw [hself, List.map_cons, List.nodup_cons]
      refine ⟨fun hm => ?_, (h.nodup u).sublist (hfs.map Prod.snd)⟩
      obtain ⟨x, h', he⟩ := List.mem_map.1 hm
      exact hnot (hfs.subset h') he
    · rw [State.leavers_setStack_of_ne _ hu]
      exact h.nodup u
  · rcases hx h₁ with ⟨rfl, rfl⟩ | hu <;> rcases hx h₂ with ⟨rfl, rfl⟩ | hv
    · rfl
    · exact absurd hxy.symm (hnot hv)
    · exact absurd hxy (hnot hu)
    · exact h.unique u v x hu y hv hxy
  · obtain ⟨hm, hl⟩ := h.left m hm
    refine ⟨fun he => hm (List.mem_of_mem_erase he), fun u x h' => ?_⟩
    rcases hx h' with ⟨-, rfl⟩ | h'
    · rintro rfl
      exact hm hn
    · exact hl u x h'

/-- `on_client_disconnect` is called for an entry that thread `t` has removed. -/
theorem callDisconnect (h : OrderInv s) (hi : EntryInv s) {t : Thread κ} {i : UInt32} {n : ℕ}
    {fs : List Frame} (hs : s.stack t = .callDisconnect i n :: fs)
    (hn : (s.channel n).pending.announcing = false ∧ (s.channel n).worker.owes = none) :
    OrderInv ((s.record i .disconnect).setStack t (.callback :: .dropServer n :: fs)) := by
  have hx : s.leavers t = (i, n) :: fs.filterMap Frame.leaving := by
    rw [State.leavers, hs]
    rfl
  have hmem : (i, n) ∈ s.leavers t := hx ▸ List.mem_cons_self
  have hd : SameEntries s (s.setStack t (.callback :: .dropServer n :: fs)) :=
    SameEntries.replace (f := .callDisconnect i n) .refl hs [.callback, .dropServer n]
      (List.nil_sublist _)
  have hself := s.leavers_setStack_self t (.callback :: .dropServer n :: fs)
  -- nothing else is owed for the client
  have hclosed : ¬ (s.setStack t (.callback :: .dropServer n :: fs)).Open n := by
    rintro (hc | ⟨u, x, hm, rfl⟩ | hc)
    · exact (hi.leaver t _ hmem).2 hc
    · obtain rfl := h.unique u t x ((hd.leavers u).subset hm) _ hmem rfl
      rw [hself] at hm
      have hnd := h.nodup u
      rw [hx, List.map_cons, List.nodup_cons] at hnd
      exact hnd.1 (List.mem_map.2 ⟨x, hm, rfl⟩)
    · exact hc hn.2
  have hlive := h.live n (.inr (.inl ⟨t, _, hmem, rfl⟩))
  have hend := Pending.eq_ended hlive.1 hn.1
  obtain ⟨ms, hms⟩ := hlive.2 hend
  obtain rfl : i = clientId n := h.ownId t _ hmem
  refine (h.same hd).record (hi.same hd) hend ?_ fun ho => absurd ho hclosed
  change InTurn (s.calls (clientId n) ++ _)
  rw [hms]
  exact inTurn_left ms

/-- `on_disconnect` of a channel calls `on_client_disconnect`. -/
theorem leftCall (h : OrderInv s) (hi : EntryInv s) {n : ℕ}
    (hw : (s.channel n).worker = .callDisconnect)
    (hn : (s.channel n).pending.announcing = false) :
    OrderInv (((s.record (clientId n) .disconnect).setWorker n .marking).setStack (.channel n)
      [.callback]) := by
  have howes : (s.channel n).worker.owes = some .disconnect := by
    rw [hw]
    rfl
  have hm : OrderInv (s.setWorker n .marking) := h.setChannel (fun _ => id) (fun he _ => he) id
    (.inr rfl)
  have hmi : EntryInv (s.setWorker n .marking) := hi.setChannel id id
    (fun _ => hi.used n (.inr (by rw [hw]; rfl))) fun hc => (hi.entry n hc).2
  have hself : (s.setWorker n .marking).channel n = { s.channel n with worker := .marking } :=
    State.setChannel_channel_self ..
  have hlive := h.live n (.inr (.inr (by rw [howes]; rintro ⟨⟩)))
  have hend := Pending.eq_ended hlive.1 hn
  obtain ⟨ms, hms⟩ := hlive.2 hend
  have hr : OrderInv ((s.setWorker n .marking).record (clientId n) .disconnect) := by
    refine hm.record hmi (by rw [hself]; exact hend) ?_ ?_
    · change InTurn (s.calls (clientId n) ++ _)
      rw [hms]
      exact inTurn_left ms
    · rintro (hc | ⟨u, x, hx, he⟩ | hc)
      · exact absurd hc (h.left n howes).1
      · exact absurd he ((h.left n howes).2 u x hx)
      · rw [hself] at hc
        exact absurd rfl hc
  exact hr.same (SameEntries.refl.push rfl)

theorem move (h : OrderInv s) (hi : EntryInv s) {l : Label κ} (hl : InSession s l)
    (hm : EntryMove s l s') : OrderInv s' := by
  have hpush {s : State κ} (h : OrderInv s) {t : Thread κ} {fs : List Frame}
      (hfs : fs.filterMap Frame.leaving = []) : OrderInv (s.setStack t fs) :=
    h.same (SameEntries.refl.push hfs)
  have hwait {s : State κ} (h : OrderInv s) {n : ℕ} {pc : Pending}
      (hn : (s.channel n).pending.entered = false) (hpc : (s.channel n).pending ≠ .ended) :
      OrderInv (s.setPending n pc) := by
    have hclosed : ¬ s.Open n := fun ho => by
      have := (h.live n ho).1
      rw [hn] at this
      cases this
    exact h.setChannel (fun ho => absurd ho hclosed) (fun _ ho => absurd ho hclosed)
      (fun he => absurd he hpc) (.inl rfl)
  have hrange {n : ℕ} (hn : (s.channel n).worker.started = true) : 0 < n ∧ n ≤ 2 ^ 32 := by
    have := h.bound
    have := hi.used n (.inr hn)
    omega
  cases hm with
  | same hs => exact h.same hs
  | accept hc => exact { h with bound := Nat.succ_le_succ (hl hc) }
  | @start n hs =>
    have hs : OrderInv { s with lobby := .respond n } :=
      h.same { SameEntries.refl with lobby := .inl (by rw [hs]; rfl) }
    exact hs.setChannel (fun _ => id) (fun he _ => he) id (.inr rfl)
  | @listen n hs ns =>
    have habs := (hi.starting n (by rw [hs]; rfl)).2.2
    have hp : OrderInv (s.setPending n .poll) :=
      hwait h (by rw [habs]; rfl) (by rw [habs]; rintro ⟨⟩)
    exact hp.same { SameEntries.refl with lobby := .inr rfl }
  | @wait n b pc hw hpc =>
    refine hwait h (Pending.not_entered_of_waiting hw) fun he => ?_
    rw [he] at hw
    cases hw
  | @abandon n b hw =>
    have hp : ((s.stopServer n).channel n).pending = (s.channel n).pending := by
      rw [State.stopServer, State.setChannel_channel_self]
    rw [← hp] at hw
    refine hpush (hwait (h.same (SameEntries.refl.stopServer n))
      (Pending.not_entered_of_waiting hw) fun he => ?_) rfl
    rw [he] at hw
    cases hw
  | insert hp hf =>
    exact h.insert hp (List.Subset.refl _) ⟨rfl, by rintro ⟨⟩⟩ rfl
  | @replace n m b hp hf =>
    refine hpush ?_ rfl
    have hc : OrderInv ({ s with clients := n :: s.clients.erase m }.setChannel n
        { s.channel n with disconnected := false, pending := .replaced }) :=
      h.insert hp (List.cons_subset_cons n List.erase_subset) ⟨rfl, by rintro ⟨⟩⟩ rfl
    exact hc.same { SameEntries.refl with }
  | @replaced n b hp =>
    have hc : OrderInv (s.setPending n .callConnect) :=
      h.setChannel (fun _ _ => rfl) (by rintro ⟨⟩) (fun he => by cases hp.symm.trans he) (.inl rfl)
    exact hc.same { SameEntries.refl with }
  | callConnect hp => exact hpush (h.callConnect hi hp) rfl
  | remove hn hfs => exact h.remove hi hn hfs
  | @setDisconnected t o i n fs hs =>
    have hd : OrderInv (s.setChannel n { s.channel n with disconnected := true }) :=
      h.setChannel (fun _ => id) (fun he _ => he) id (.inl rfl)
    refine hd.same (SameEntries.replace (f := .setDisconnected i n) .refl ?_ [.stopServer i n]
      (.refl _))
    exact hs
  | @callDisconnect t o i n fs hs =>
    exact h.callDisconnect hi hs (hl n (by rw [hs]; rfl))
  | @leave n m o hw hm =>
    obtain ⟨hc, hid⟩ := find_some hm
    obtain rfl := clientId_inj (h.range hi (hi.entry m hc).1) (hrange (by rw [hw]; rfl)) hid
    have hd : OrderInv ((s.erase m).setChannel m { s.channel m with disconnected := true }) :=
      (h.erase m).setChannel (fun _ => id) (fun he _ => he) id (.inl rfl)
    have hself : ((s.erase m).setChannel m { s.channel m with disconnected := true }).channel m =
        { s.channel m with disconnected := true } := State.setChannel_channel_self ..
    refine hd.owe ?_ rfl fun _ => ⟨hi.nodup.not_mem_erase, fun t x hx he => ?_⟩
    · rw [State.Live, hself]
      exact h.live m (.inl hc)
    · exact (hi.leaver t x hx).2 (he ▸ hc)
  | missed hw hm => exact h.setChannel (fun _ => id) (fun he _ => he) id (.inr rfl)
  | @read n p hw => exact h.owe (h.live n (.inl (hl.1 hw rfl))) rfl (by rintro ⟨⟩)
  | @callMessage n o p hw =>
    have hlive := h.live n (.inr (.inr (by rw [hw]; rintro ⟨⟩)))
    have hn := Pending.eq_ended hlive.1 (hl.2 (by rw [hw]; rfl))
    obtain ⟨ms, hms⟩ := hlive.2 hn
    have hturn : s.calls (clientId n) ++ [.message p] = talk (ms ++ [p]) := by
      rw [hms, talk_append]
    have hr : OrderInv (s.record (clientId n) (.message p)) :=
      h.record hi hn (hturn ▸ inTurn_talk _) fun _ => ⟨_, hturn⟩
    refine hpush ?_ rfl
    exact hr.setChannel (fun _ => id) (fun he _ => he) id (.inr rfl)
  | leftCall hw => exact h.leftCall hi hw (hl.2 (by rw [hw]; rfl))

end OrderInv

/-! ### Every run -/

variable [DecidableEq κ]

instance (s : State κ) : DecidablePred (InSession s)
  | .lobby _ => inferInstanceAs (Decidable (_ → _))
  | .worker .. => inferInstanceAs (Decidable ((_ → _ → _) ∧ (_ → _)))
  | .frame t _ =>
    inferInstanceAs (Decidable (∀ n ∈ (s.stack t).head?.bind Frame.calling, _ ∧ _))
  | .pending .. | .call .. | .stop _ => isTrue trivial

/-- **The order of the handler's calls.**  The calls for an id are those of one session, up to any
of them, if messages are read only while the client is in the map and no call overtakes another. -/
theorem callsInTurn_of_inSession {s : State κ} (h : (system κ).ReachWhen InSession s) :
    CallsInTurn s := by
  have hi : EntryInv s ∧ OrderInv s := by
    refine h.invariant (I := fun s => EntryInv s ∧ OrderInv s) ?_ ?_
    · rintro s rfl
      exact ⟨.init, .init⟩
    · rintro s l s' ⟨hi, ho⟩ hl hst
      have hm := step_entryMove hst
      exact ⟨hi.move hm, ho.move hi hl hm⟩
  exact hi.2.inTurn

/-- Channel 1 reads a message, and the handler is told. -/
def readOne : List (Label Unit) := [.worker 1 .ok, .worker 1 (.message [1, 2]), .worker 1 .ok]

/-- A client arrives, is told to the handler, sends a message and leaves. -/
def visit : List (Label Unit) :=
  arrive ++ insertOne ++ [.pending 1 false, .frame (.pending 1) .finish] ++ readOne ++
    [.frame (.channel 1) .finish, .worker 1 .ok, .worker 1 .disconnect] ++
    List.replicate 3 (.worker 1 .ok)

theorem callsInTurn_of_inSession_visit : ∃ s : State Unit,
    s.calls (clientId 1) = [.connect, .message [1, 2], .disconnect] ∧ CallsInTurn s := by
  obtain ⟨s, h, hs⟩ := System.exists_reachWhen (A := system Unit) (C := InSession) (s := {})
    (r := visit) (f := fun s => s.calls (clientId 1))
    (t := [.connect, .message [1, 2], .disconnect]) rfl (by decide +kernel)
  exact ⟨s, hs, callsInTurn_of_inSession h⟩

/-- A client that talks at once is heard before it has been announced: `on_message` is called before
`on_client_connect`. -/
theorem not_callsInTurn : ¬ ∀ (κ : Type) [DecidableEq κ] (s : State κ),
    (system κ).Reach s → CallsInTurn s := by
  intro h
  obtain ⟨s, hr, hs⟩ := System.exists_reachWhen (A := system Unit) (C := fun _ _ => True) (s := {})
    (r := arrive ++ readOne) (f := fun s => s.calls (clientId 1)) (t := [.message [1, 2]]) rfl
    (by decide +kernel)
  obtain ⟨ms, hms⟩ := h Unit s hr (clientId 1)
  rw [hs, talk, List.cons_append, List.cons_prefix_cons] at hms
  cases hms.1

end Dispatch

end Xshm
