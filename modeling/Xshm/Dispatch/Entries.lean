import Xshm.Dispatch.Moves

/-!
# The entries of `clients`

A client is inserted once, by the thread that waits for it, and removed at most once: by its own
channel, by `disconnect_client` or at the end of `worker_loop`.  While an entry is in the map its
flag `disconnected` is not set, so `on_disconnect` of its channel removes it (`EntryInv`).

The entry goes in when the client has connected to its channel, and the channel may have reported
since that the client has left: then `on_disconnect` has found no entry, and nothing removes the one
that is inserted later.  If this does not happen (`NotLeft`), every client in the map is still
connected as far as its channel knows (`mapTruthful_of_notLeft`).
-/

namespace Xshm

namespace Dispatch

variable {κ : Type*}

/-- The client has been inserted, or never will be. -/
def Pending.entered : Pending → Bool
  | .replaced | .callConnect | .ended => true
  | _ => false

/-- The thread has seen the signal of its client and has not finished its insert. -/
def Pending.inserting : Pending → Bool
  | .check true | .insert | .replaced => true
  | _ => false

/-- `on_disconnect` of channel `n` is in progress. -/
def State.Reporting (s : State κ) (n : ℕ) : Prop :=
  (s.channel n).worker = .onDisconnect ∧ s.stack (.channel n) = [] ∨
    (∃ m, (s.channel n).worker = .spawnDrop m) ∨ (s.channel n).worker = .callDisconnect ∨
      (s.channel n).worker = .marking ∧ s.stack (.channel n) ≠ []

/-- The map tells the truth: the channel of a client that is in it has reported no disconnect. -/
def MapTruthful (s : State κ) : Prop :=
  ∀ n ∈ s.clients, (s.channel n).pending.inserting = false → ¬ s.Reporting n →
    (s.channel n).reported = false

/-- A client is inserted only if its channel has not looked in vain for its entry, to report that it
has left. -/
def NotLeft (s : State κ) : Label κ → Prop
  | .pending n _ => (s.channel n).pending = .insert → (s.channel n).reported = false
  | _ => True

theorem Pending.not_entered_of_waiting {pc : Pending} (h : pc.waiting = true) :
    pc.entered = false := by
  cases pc <;> first | rfl | cases h

/-! ### The invariant -/

structure EntryInv (s : State κ) : Prop where
  positive : 0 < s.nextClientId
  keys : (s.clients.map clientId).Nodup
  entry : ∀ n ∈ s.clients,
    (s.channel n).pending.entered = true ∧ (s.channel n).disconnected = false
  leaver : ∀ t, ∀ x ∈ s.leavers t, (s.channel x.2).pending.entered = true ∧ x.2 ∉ s.clients
  starting : ∀ n ∈ s.lobby.starting,
    0 < n ∧ n < s.nextClientId ∧ (s.channel n).pending = .absent
  used : ∀ n, (s.channel n).pending ≠ .absent ∨ (s.channel n).worker.started = true →
    0 < n ∧ n < s.nextClientId

namespace EntryInv

variable {s s' : State κ}

theorem init : EntryInv ({} : State κ) where
  positive := Nat.one_pos
  keys := List.nodup_nil
  entry := by rintro _ ⟨⟩
  leaver := by rintro _ _ ⟨⟩
  starting := by rintro _ ⟨⟩
  used := by
    rintro n (hn | hn)
    · exact absurd rfl hn
    · cases hn

theorem nodup (h : EntryInv s) : s.clients.Nodup := h.keys.of_map

/-- The entry of an id is the only one. -/
theorem find_clientId (h : EntryInv s) {n : ℕ} (hn : n ∈ s.clients) :
    s.find (clientId n) = some n := by
  cases hf : s.find (clientId n) with
  | none => exact absurd rfl (find_none hf n hn)
  | some m =>
    obtain ⟨hm, hid⟩ := find_some hf
    rw [List.inj_on_of_nodup_map h.keys hm hn hid]

theorem used_of_entered (h : EntryInv s) {n : ℕ} (hn : (s.channel n).pending.entered = true) :
    0 < n ∧ n < s.nextClientId := by
  refine h.used n (.inl fun ha => ?_)
  rw [ha] at hn
  cases hn

theorem same (h : EntryInv s) (hs : SameEntries s s') : EntryInv s' := by
  have hent (n : ℕ) := hs.entry n
  simp only [Channel.entry, Prod.mk.injEq] at hent
  refine ⟨?_, ?_, fun n hn => ?_, fun t x hx => ?_, fun n hn => ?_, fun n hn => ?_⟩
  · rw [hs.nextClientId]
    exact h.positive
  · rw [hs.clients]
    exact h.keys
  · rw [hs.clients] at hn
    rw [(hent n).1, (hent n).2.1]
    exact h.entry n hn
  · rw [hs.clients, (hent x.2).1]
    exact h.leaver t x ((hs.leavers t).subset hx)
  · rw [hs.nextClientId, (hent n).1]
    rcases hs.lobby with hl | hl <;> rw [hl] at hn
    · exact h.starting n hn
    · cases hn
  · rw [hs.nextClientId]
    rw [(hent n).1, (hent n).2.2.2] at hn
    exact h.used n hn

theorem erase (h : EntryInv s) (n : ℕ) : EntryInv (s.erase n) :=
  { h with
    keys := h.keys.sublist (List.erase_sublist.map clientId)
    entry := fun m hm => h.entry m (List.mem_of_mem_erase hm)
    leaver := fun t x hx => by
      obtain ⟨hent, hnot⟩ := h.leaver t x hx
      exact ⟨hent, fun he => hnot (List.mem_of_mem_erase he)⟩ }

/-- The channel `n` changes, and stays as entered as it was. -/
theorem setChannel (h : EntryInv s) {n : ℕ} {ch : Channel}
    (hch : (s.channel n).pending.entered = true → ch.pending.entered = true)
    (habs : (s.channel n).pending = .absent → ch.pending = .absent)
    (hused : ch.pending ≠ .absent ∨ ch.worker.started = true → 0 < n ∧ n < s.nextClientId)
    (hdis : n ∈ s.clients → ch.disconnected = false) : EntryInv (s.setChannel n ch) := by
  have hent {m : ℕ} (hm : (s.channel m).pending.entered = true) :
      ((s.setChannel n ch).channel m).pending.entered = true := by
    by_cases hmn : m = n
    · subst hmn
      simpa [State.setChannel] using hch hm
    · simpa [State.setChannel, hmn] using hm
  refine ⟨h.positive, h.keys, fun m hm => ⟨hent (h.entry m hm).1, ?_⟩, fun t x hx => ?_,
    fun m hm => ?_, fun m hm => ?_⟩
  · by_cases hmn : m = n
    · subst hmn
      simpa [State.setChannel] using hdis hm
    · simpa [State.setChannel, hmn] using (h.entry m hm).2
  · exact ⟨hent (h.leaver t x hx).1, (h.leaver t x hx).2⟩
  · obtain ⟨hpos, hlt, ha⟩ := h.starting m hm
    refine ⟨hpos, hlt, ?_⟩
    by_cases hmn : m = n
    · subst hmn
      simpa [State.setChannel] using habs ha
    · simpa [State.setChannel, hmn] using ha
  · by_cases hmn : m = n
    · subst hmn
      exact hused (by simpa [State.setChannel] using hm)
    · exact h.used m (by simpa [State.setChannel, hmn] using hm)

/-- A thread that has started goes on; a client is not taken out of the map by this. -/
theorem setPending (h : EntryInv s) {n : ℕ} {pc : Pending} (hn : (s.channel n).pending ≠ .absent)
    (hpc : (s.channel n).pending.entered = true → pc.entered = true) :
    EntryInv (s.setPending n pc) :=
  h.setChannel hpc (fun ha => absurd ha hn) (fun _ => h.used n (.inl hn)) fun hm => (h.entry n hm).2

/-- A client is inserted whose id is not in the map. -/
theorem insert (h : EntryInv s) {n : ℕ} {ch : Channel} (hp : (s.channel n).pending = .insert)
    (hid : ∀ m ∈ s.clients, clientId m ≠ clientId n)
    (hch : ch.pending.entered = true ∧ ch.disconnected = false) :
    EntryInv ({ s with clients := n :: s.clients }.setChannel n ch) := by
  have hused := h.used n (.inl (by rw [hp]; rintro ⟨⟩))
  have hs : EntryInv (s.setChannel n ch) := by
    refine h.setChannel (fun _ => hch.1) (fun ha => ?_) (fun _ => hused) fun _ => hch.2
    cases hp.symm.trans ha
  have hself : (s.setChannel n ch).channel n = ch := Function.update_self ..
  refine { hs with keys := ?_, entry := fun m hm => ?_, leaver := fun t x hx => ?_ }
  · change ((n :: s.clients).map clientId).Nodup
    rw [List.map_cons, List.nodup_cons]
    refine ⟨fun hm => ?_, h.keys⟩
    obtain ⟨m, hm, he⟩ := List.mem_map.1 hm
    exact hid m hm he
  · change ((s.setChannel n ch).channel m).pending.entered = true ∧
      ((s.setChannel n ch).channel m).disconnected = false
    rcases List.mem_cons.1 hm with rfl | hm
    · rw [hself]
      exact hch
    · exact hs.entry m hm
  · obtain ⟨hent, hnot⟩ := hs.leaver t x hx
    refine ⟨hent, fun hm => ?_⟩
    rcases List.mem_cons.1 hm with he | hm
    · -- a client that is being inserted has not been removed
      have := (h.leaver t x hx).1
      rw [he, hp] at this
      cases this
    · exact hnot hm

variable [DecidableEq κ]

/-- A thread has removed an entry. -/
theorem remove (h : EntryInv s) {t : Thread κ} {n : ℕ} {fs : List Frame} (hn : n ∈ s.clients)
    (hfs : (fs.filterMap Frame.leaving).Sublist (s.leavers t)) :
    EntryInv ((s.erase n).setStack t (.setDisconnected (clientId n) n :: fs)) :=
  { h.erase n with
    leaver := fun u x hx => by
      by_cases hu : u = t
      · subst hu
        rw [State.leavers_setStack_self] at hx
        rcases List.mem_cons.1 (show _ ∈ (clientId n, n) :: _ from hx) with rfl | hx
        · exact ⟨(h.entry n hn).1, h.nodup.not_mem_erase⟩
        · exact (h.erase n).leaver u x (hfs.subset hx)
      · rw [State.leavers_setStack_of_ne _ hu] at hx
        exact (h.erase n).leaver u x hx }

theorem move (h : EntryInv s) {l : Label κ} (hm : EntryMove s l s') : EntryInv s' := by
  have hpush {s : State κ} (h : EntryInv s) {t : Thread κ} {fs : List Frame}
      (hfs : fs.filterMap Frame.leaving = []) : EntryInv (s.setStack t fs) :=
    h.same (SameEntries.refl.push hfs)
  cases hm with
  | same hs => exact h.same hs
  | accept hl =>
    refine { h with positive := Nat.succ_pos _, starting := ?_, used := fun n hn => ?_ }
    · rintro n ⟨⟩
      refine ⟨h.positive, Nat.lt_succ_self _, by_contra fun hn => ?_⟩
      exact lt_irrefl _ (h.used _ (.inl hn)).2
    · exact (h.used n hn).imp_right Nat.lt_succ_of_lt
  | @start n hl =>
    obtain ⟨hpos, hlt, habs⟩ := h.starting n (by rw [hl]; rfl)
    have hs : EntryInv { s with lobby := .respond n } :=
      h.same { SameEntries.refl with lobby := .inl (by rw [hl]; rfl) }
    exact hs.setChannel id id (fun _ => ⟨hpos, hlt⟩) fun hm => (h.entry n hm).2
  | @listen n hl ns =>
    -- the thread that waits for the client is started
    obtain ⟨hpos, hlt, habs⟩ := h.starting n (by rw [hl]; rfl)
    have hs : EntryInv { s with lobby := .head, pendingConnects := ns } :=
      h.same { SameEntries.refl with lobby := .inr rfl }
    have hne {m : ℕ} (hm : (s.channel m).pending.entered = true) : m ≠ n := by
      rintro rfl
      rw [habs] at hm
      cases hm
    refine ⟨h.positive, h.keys, fun m hm => ?_, fun t x hx => ?_, by rintro _ ⟨⟩, fun m hm => ?_⟩
    · have hmn := hne (h.entry m hm).1
      simpa [State.setPending, State.setChannel, hmn] using h.entry m hm
    · have hmn := hne (h.leaver t x hx).1
      simpa [State.setPending, State.setChannel, hmn] using h.leaver t x hx
    · by_cases hmn : m = n
      · subst hmn
        exact ⟨hpos, hlt⟩
      · exact h.used m (by simpa [State.setPending, State.setChannel, hmn] using hm)
  | wait hw hpc =>
    refine h.setPending (fun ha => ?_) fun he => ?_
    · rw [ha] at hw
      cases hw
    · rw [Pending.not_entered_of_waiting hw] at he
      cases he
  | abandon hw =>
    refine hpush (EntryInv.setPending (h.same (SameEntries.refl.stopServer _)) ?_ fun _ => rfl) rfl
    rintro ha
    simp only [State.stopServer, State.setChannel, Function.update_self] at ha
    rw [ha] at hw
    cases hw
  | insert hp hf => exact h.insert hp (find_none hf) ⟨rfl, rfl⟩
  | @replace n m _ hp hf =>
    obtain ⟨hm, hid⟩ := find_some hf
    have he : EntryInv ({ s with clients := n :: s.clients.erase m }.setChannel n
        { s.channel n with disconnected := false, pending := .replaced }) := by
      refine (h.erase m).insert hp (fun k hk hkid => ?_) ⟨rfl, rfl⟩
      have hkm : k = m := List.inj_on_of_nodup_map h.keys (List.mem_of_mem_erase hk) hm
        (hkid.trans hid.symm)
      exact h.nodup.not_mem_erase (hkm ▸ hk)
    refine hpush ?_ rfl
    exact he.same { SameEntries.refl with }
  | replaced hp =>
    have hs : EntryInv { s with lock := none } := h.same { SameEntries.refl with }
    refine hs.setPending (fun ha => ?_) fun _ => rfl
    cases hp.symm.trans ha
  | @callConnect n b hp =>
    have hs : EntryInv (s.record (clientId n) .connect) := { h with }
    refine hpush (hs.setPending (fun ha => ?_) fun _ => rfl) rfl
    cases hp.symm.trans ha
  | remove hn hfs => exact h.remove hn hfs
  | @setDisconnected t o i n fs hs =>
    have hx : (i, n) ∈ s.leavers t := by
      rw [State.leavers, hs]
      exact List.mem_cons_self
    have hn := (h.leaver t _ hx).2
    have hd : EntryInv (s.setChannel n { s.channel n with disconnected := true }) :=
      h.setChannel id id (h.used n) fun hm => absurd hm hn
    refine hd.same (SameEntries.replace (f := .setDisconnected i n) .refl ?_ [.stopServer i n]
      (.refl _))
    exact hs
  | @callDisconnect t o i n fs hs =>
    have hr : EntryInv (s.record i .disconnect) := { h with }
    refine hr.same (SameEntries.replace (f := .callDisconnect i n) .refl ?_
      [.callback, .dropServer n] (List.nil_sublist _))
    exact hs
  | @leave n m o hw hm =>
    have hd : EntryInv ((s.erase m).setChannel m { s.channel m with disconnected := true }) :=
      (h.erase m).setChannel id id (h.used m) fun hm => absurd hm h.nodup.not_mem_erase
    have hstart : (((s.erase m).setChannel m { s.channel m with disconnected := true }).channel
        n).worker.started = true := by
      by_cases hnm : n = m
      · subst hnm
        simp [State.setChannel, State.erase, hw, ServerWorker.started]
      · simp [State.setChannel, State.erase, hnm, hw, ServerWorker.started]
    exact hd.setChannel id id (fun _ => hd.used n (.inr hstart)) fun hn => (hd.entry n hn).2
  | @missed n o hw hm =>
    have hused := h.used n (.inr (by rw [hw]; rfl))
    exact h.setChannel id id (fun _ => hused) fun hn => (h.entry n hn).2
  | @read n p hw =>
    have hused := h.used n (.inr (by rw [hw]; rfl))
    exact h.setChannel id id (fun _ => hused) fun hn => (h.entry n hn).2
  | @callMessage n o p hw =>
    have hused := h.used n (.inr (by rw [hw]; rfl))
    have hr : EntryInv (s.record (clientId n) (.message p)) := { h with }
    refine hpush ?_ rfl
    exact hr.setChannel id id (fun _ => hused) fun hn => (h.entry n hn).2
  | @leftCall n o hw =>
    have hused := h.used n (.inr (by rw [hw]; rfl))
    have hr : EntryInv (s.record (clientId n) .disconnect) := { h with }
    refine hpush ?_ rfl
    exact hr.setChannel id id (fun _ => hused) fun hn => (h.entry n hn).2

end EntryInv

/-! ### Every run -/

theorem State.reported_setChannel {s : State κ} {n : ℕ} {ch : Channel}
    (hch : ch.reported = (s.channel n).reported) (m : ℕ) :
    ((s.setChannel n ch).channel m).reported = (s.channel m).reported :=
  s.setChannel_keeps Channel.reported hch m

variable [DecidableEq κ]

instance (s : State κ) (l : Label κ) : Decidable (NotLeft s l) := by
  unfold NotLeft
  split <;> infer_instance

/-- No client in the map has been reported, if none is inserted that has been. -/
theorem EntryMove.reported {s s' : State κ} {l : Label κ} (hm : EntryMove s l s') (h : EntryInv s)
    (hl : NotLeft s l) (hr : ∀ n ∈ s.clients, (s.channel n).reported = false) :
    ∀ n ∈ s'.clients, (s'.channel n).reported = false := by
  -- the map does not grow, and no channel reports
  have quiet {s₁ : State κ} (hc : s₁.clients ⊆ s.clients)
      (hs : ∀ n, (s₁.channel n).reported = (s.channel n).reported) :
      ∀ n ∈ s₁.clients, (s₁.channel n).reported = false :=
    fun n hn => (hs n).trans (hr n (hc hn))
  cases hm with
  | same hs =>
    intro k hk
    rw [hs.clients] at hk
    refine Bool.eq_false_iff.2 fun hc => ?_
    have := hs.reported k hc
    rw [hr k hk] at this
    cases this
  | accept => exact quiet (List.Subset.refl _) fun _ => rfl
  | start | listen | wait | replaced | read =>
    exact quiet (List.Subset.refl _) (State.reported_setChannel (by rfl))
  | callDisconnect => exact quiet (List.Subset.refl _) fun _ => rfl
  | abandon =>
    refine quiet (List.Subset.refl _) fun k => ?_
    exact (State.reported_setChannel (by rfl) k).trans (State.reported_setChannel (by rfl) k)
  | callConnect | setDisconnected | callMessage | leftCall =>
    exact quiet (List.Subset.refl _) (State.reported_setChannel (by rfl))
  | remove => exact quiet List.erase_subset fun _ => rfl
  | @insert n b hp hf =>
    intro k hk
    refine (State.reported_setChannel (by rfl) k).trans ?_
    rcases List.mem_cons.1 hk with rfl | hk
    · exact hl hp
    · exact hr k hk
  | @replace n m b hp hf =>
    intro k hk
    refine (State.reported_setChannel (by rfl) k).trans ?_
    rcases List.mem_cons.1 hk with rfl | hk
    · exact hl hp
    · exact hr k (List.mem_of_mem_erase hk)
  | @leave n m o hw hf =>
    intro k hk
    have hk : k ∈ s.clients.erase m := hk
    have hkn : k ≠ n := by
      rintro rfl
      have := h.find_clientId (List.mem_of_mem_erase hk)
      rw [hf] at this
      cases this
      exact h.nodup.not_mem_erase hk
    rw [State.report, State.setChannel_channel_of_ne _ hkn]
    exact (State.reported_setChannel (by rfl) k).trans (hr k (List.mem_of_mem_erase hk))
  | @missed n o hw hd =>
    intro k hk
    have hk : k ∈ s.clients := hk
    have hkn : k ≠ n := by
      rintro rfl
      have := hd k (h.find_clientId hk)
      rw [(h.entry k hk).2] at this
      cases this
    rw [State.report, State.setChannel_channel_of_ne _ hkn]
    exact hr k hk

/-- **The map tells the truth**, if no client is inserted that its channel has reported. -/
theorem mapTruthful_of_notLeft {s : State κ} (h : (system κ).ReachWhen NotLeft s) :
    MapTruthful s := by
  have hi : EntryInv s ∧ ∀ n ∈ s.clients, (s.channel n).reported = false := by
    refine h.invariant (I := fun s => EntryInv s ∧ ∀ n ∈ s.clients, (s.channel n).reported = false)
      ?_ ?_
    · rintro s rfl
      exact ⟨.init, by rintro _ ⟨⟩⟩
    · rintro s l s' ⟨hi, hr⟩ hl hst
      have hm := step_entryMove hst
      exact ⟨hi.move hm, hm.reported hi hl hr⟩
  exact fun n hn _ _ => hi.2 n hn

/-- A client registers and connects to channel 1. -/
def arrive : List (Label Unit) :=
  List.replicate 4 (.lobby .ok) ++ List.replicate 3 (.worker 1 .ok)

/-- The thread that waits for the client of channel 1 inserts it. -/
def insertOne : List (Label Unit) := List.replicate 3 (.pending 1 false)

theorem mapTruthful_of_notLeft_arrive : ∃ s : State Unit, s.clients = [1] ∧ MapTruthful s := by
  obtain ⟨s, h, hs⟩ := System.exists_reachWhen (A := system Unit) (C := NotLeft) (s := {})
    (r := arrive ++ insertOne) (f := fun s => s.clients) (t := [1]) rfl (by decide +kernel)
  exact ⟨s, hs, mapTruthful_of_notLeft h⟩

/-- The client leaves channel 1 again, which reports it before the client is inserted. -/
def leaveEarly : List (Label Unit) :=
  arrive ++ List.replicate 2 (.worker 1 .ok) ++ .worker 1 .disconnect ::
    List.replicate 2 (.worker 1 .ok)

/-- The client that has left is inserted, and stays in the map. -/
theorem not_mapTruthful : ¬ ∀ (κ : Type) [DecidableEq κ] (s : State κ),
    (system κ).Reach s → MapTruthful s := by
  intro h
  obtain ⟨s, hr, hs⟩ := System.exists_reachWhen (A := system Unit) (C := fun _ _ => True) (s := {})
    (r := leaveEarly ++ insertOne)
    (f := fun s => (s.clients, (s.channel 1).pending, (s.channel 1).worker,
      (s.channel 1).reported)) (t := ([1], .callConnect, .head false, true)) rfl
    (by decide +kernel)
  simp only [Prod.mk.injEq] at hs
  obtain ⟨hc, hp, hw, hrep⟩ := hs
  have := h Unit s hr 1 (by rw [hc]; exact List.mem_singleton_self 1) (by rw [hp]; rfl) ?_
  · rw [hrep] at this
    cases this
  · rw [State.Reporting, hw]
    rintro (⟨⟨⟩, -⟩ | ⟨_, ⟨⟩⟩ | ⟨⟨⟩⟩ | ⟨⟨⟩, -⟩)

end Dispatch

end Xshm
