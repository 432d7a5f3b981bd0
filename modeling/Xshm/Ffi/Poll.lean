import Xshm.Ffi.Receive

/-!
# Polling through the C functions

`shm_server_poll` and `shm_client_poll` look at the ring and at its `data` event, and not at the
`RecvCache` of the handle, from which `shm_server_receive` and `shm_client_receive` take a message
first.  So a message that was kept because the caller had no room is not seen by a poll, unless
`data` happens to be signalled or there is another message: `not_pollAgrees`.

* `pollAgrees_iff` : exactly when a poll sees what a call to receive would return.
-/

namespace Xshm

namespace Ffi

/-- A connected handle: the rings that it sends to and receives from, and its cache. -/
structure Handle where
  tx : Direction
  rx : Direction
  cache : RecvCache := {}

namespace Handle

variable (h : Handle)

/-- `shm_server_receive` or `shm_client_receive`, run alone. -/
def receive (args : Caller) (setOk : Bool) : Returned × Handle :=
  match args.capacity? with
  | none => (.failed args .invalidParam, h)
  | some _ =>
    match h.cache.fetch true h.rx setOk with
    | (.error e, rx, cache) => (.failed args (.ofShmError e), { h with rx := rx, cache := cache })
    | (.ok len, rx, cache) =>
      ((cache.deliver len args).2, { h with rx := rx, cache := (cache.deliver len args).1 })

/-- The code for the result of `poll_client` or `poll_server`. -/
def pollCode : Except ShmError Bool → ErrorCode
  | .ok true => .success
  | .ok false => .timeout
  | .error e => .ofShmError e

/-- `shm_server_poll` or `shm_client_poll`, run alone; `none` if its wait cannot end like `w`. -/
def poll (w : WaitOutcome) : Option (ErrorCode × Handle) :=
  (h.rx.poll true w).map fun (res, rx) => (pollCode res, { h with rx := rx })

end Handle

section

variable {τ : Type*} [DecidableEq τ] {s : State τ} {t : τ} {args : Caller} {setOk : Bool}
  {ring : Direction} {cache : RecvCache}

theorem proceed_of_fetch_ok {len : ℕ} (ht : s.thread t = .locked args)
    (hf : s.cache.fetch s.connected s.ring setOk = (.ok len, ring, cache)) :
    ∃ log, (system τ).step s (.proceed t setOk) =
      some ({ s with ring := ring, cache := cache, log := log }.setThread t
        (.fetched args len)) := by
  simp only [system, State.proceed, ht, hf]
  exact ⟨_, rfl⟩

theorem proceed_of_fetch_error {e : ShmError} (ht : s.thread t = .locked args)
    (hf : s.cache.fetch s.connected s.ring setOk = (.error e, ring, cache)) :
    ∃ log, (system τ).step s (.proceed t setOk) =
      some ({ s with ring := ring, cache := cache, log := log }.finish t
        (.failed args (.ofShmError e))) := by
  simp only [system, State.proceed, ht, hf]
  exact ⟨_, rfl⟩

/-- A thread that calls to receive and is not disturbed does what `Handle.receive` says. -/
theorem run_receive (tx : Direction) (hidle : s.thread t = .idle) (hlock : s.lock = none)
    (hconn : s.connected = true) {capacity : ℕ} (hcap : args.capacity? = some capacity) :
    ∃ ls s', (system τ).run s ls = some s' ∧
      (⟨tx, s'.ring, s'.cache⟩ : Handle) =
        ((⟨tx, s.ring, s.cache⟩ : Handle).receive args setOk).2 ∧
      s'.log.getLast? =
        some (.returned ((⟨tx, s.ring, s.cache⟩ : Handle).receive args setOk).1) := by
  have hlocked : (system τ).run s [.call t args, .proceed t setOk] =
      some { s.setThread t (.locked args) with lock := some t } := by
    simp only [System.run_cons, System.run_nil, system, hidle, hcap, if_true, Option.bind_some,
      State.proceed, State.setThread, Function.update_self, hlock, Function.update_idem]
  have ht : (s.setThread t (.locked args)).thread t = .locked args := Function.update_self ..
  rcases hf : s.cache.fetch true s.ring setOk with ⟨res, ring, cache⟩
  have hf' := hf
  rw [← hconn] at hf'
  cases res with
  | error e =>
    obtain ⟨log, hp⟩ := proceed_of_fetch_error
      (s := { s.setThread t (.locked args) with lock := some t }) ht hf'
    refine ⟨_, _, System.run_trans hlocked (System.run_single hp), ?_, ?_⟩
    · simp only [Handle.receive, hcap, hf, State.finish, State.setThread]
    · simp only [Handle.receive, hcap, hf, State.finish, List.getLast?_concat]
  | ok len =>
    obtain ⟨log, hp⟩ := proceed_of_fetch_ok
      (s := { s.setThread t (.locked args) with lock := some t }) ht hf'
    obtain ⟨cache', r, hd⟩ : ∃ cache' r, cache.deliver len args = (cache', r) := ⟨_, _, rfl⟩
    have hlast : ∀ s₁ : State τ, s₁.thread t = .fetched args len → s₁.cache = cache →
        (system τ).step s₁ (.proceed t setOk) =
          some ({ s₁ with cache := cache' }.finish t r) := by
      intro s₁ h₁ h₂
      simp only [system, State.proceed, h₁, h₂, hd]
    refine ⟨_, _, System.run_trans (System.run_trans hlocked (System.run_single hp))
      (System.run_single (hlast _ (Function.update_self ..) rfl)), ?_, ?_⟩
    · simp only [Handle.receive, hcap, hf, hd, State.finish, State.setThread]
    · simp only [Handle.receive, hcap, hf, hd, State.finish, List.getLast?_concat]

end

/-- What happens on a connected handle. -/
inductive HandleCall where
  | send (payload : Payload) (setOk : Bool)
  | receive (args : Caller) (setOk : Bool)
  | poll (w : WaitOutcome)
  /-- The wait of a poll that began when the ring was empty. -/
  | wake
  /-- The peer sends. -/
  | peerSend (payload : Payload) (setOk : Bool)
  /-- The peer receives. -/
  | peerReceive (setOk : Bool)

/-- The calls on a connected handle, one after the other. -/
def handleSystem : System Handle HandleCall where
  init h := ∃ r r' generation,
    h.tx.ring = Ring.reset r generation ∧ h.rx.ring = Ring.reset r' generation ∧ h.cache = {}
  step h
    | .send payload setOk => some { h with tx := (h.tx.send true setOk payload).2 }
    | .receive args setOk => some (h.receive args setOk).2
    | .poll w => (h.poll w).map Prod.snd
    | .wake => if h.rx.data then some { h with rx := { h.rx with data := false } } else none
    | .peerSend payload setOk => some { h with rx := (h.rx.send true setOk payload).2 }
    | .peerReceive setOk => some { h with tx := (h.tx.receive true setOk []).2.1 }

/-- A call to receive with room for every message would return one. -/
def Handle.HasMessage (h : Handle) : Prop :=
  ∃ out setOk, (h.receive ⟨some out, some 65535⟩ setOk).1.code = .success

/-- A poll returns `SHM_SUCCESS` without waiting: so does every way in which it can end, if the wait
does not fail. -/
def Handle.PollsAtOnce (h : Handle) : Prop :=
  ∀ w code h', h.poll w = some (code, h') → w.isFailed = false → code = .success

/-- **A poll agrees with a call to receive.** -/
def Handle.PollAgrees (h : Handle) : Prop := h.HasMessage → h.PollsAtOnce

section

variable {h h' : Handle}

theorem pollsAtOnce_iff :
    h.PollsAtOnce ↔ h.rx.ring.header.messageCount ≠ 0 ∨ h.rx.data = true := by
  constructor
  · intro hpoll
    by_contra hnone
    obtain ⟨hcount, hdata⟩ := not_or.1 hnone
    have hcount := not_not.1 hcount
    have := hpoll .timeout .timeout h (by
      simp only [Handle.poll, Direction.poll, hcount, hdata, Bool.true_eq_false, Bool.false_eq_true,
        ne_eq, not_true_eq_false, ↓reduceIte, Option.map_some, Handle.pollCode]) rfl
    cases this
  · rintro hready w code h' hw hfailed
    unfold Handle.poll Direction.poll at hw
    by_cases hcount : h.rx.ring.header.messageCount = 0
    · have hdata : h.rx.data = true := hready.resolve_left (not_not.2 hcount)
      cases w with
      | signalled =>
        simp only [hcount, hdata, Bool.true_eq_false, ne_eq, not_true_eq_false, ↓reduceIte,
          Option.map_some] at hw
        cases hw
        rfl
      | timeout =>
        simp only [hcount, hdata, Bool.true_eq_false, ne_eq, not_true_eq_false, ↓reduceIte,
          Option.map_none] at hw
        cases hw
      | failed e => cases hfailed
    · simp only [hcount, Bool.true_eq_false, ne_eq, not_false_eq_true, ↓reduceIte,
        Option.map_some] at hw
      cases hw
      rfl

/-- A message that is kept is returned to a caller with room. -/
theorem hasMessage_of_pending {len : ℕ} (hlen : h.cache.pendingLen = some len)
    (hholds : h.cache.Holds len) : h.HasMessage := by
  refine ⟨[], true, ?_⟩
  have hroom : ¬ 65535 < len := Nat.not_lt.2 hholds.2
  have hcap : (⟨some [], some 65535⟩ : Caller).capacity? = some 65535 := by decide
  have hsize : (Option.getD (some (65535 : UInt32)) 0).toNat = 65535 := by decide
  simp only [Handle.receive, hcap, RecvCache.fetch, hlen, RecvCache.deliver, hsize, if_neg hroom]

/-- If nothing is kept, a message that is returned is in the ring. -/
theorem Handle.HasMessage.messageCount_ne_zero (hm : h.HasMessage)
    (hnone : h.cache.pendingLen = none) : h.rx.ring.header.messageCount ≠ 0 := by
  obtain ⟨out, setOk, hm⟩ := hm
  intro hcount
  have hcap : (⟨some out, some 65535⟩ : Caller).capacity? = some 65535 := rfl
  simp only [Handle.receive, hcap, RecvCache.fetch, hnone, Direction.receive, Ring.readMessage,
    hcount, Bool.true_eq_false, ↓reduceIte, Returned.failed] at hm
  cases hm

/-- What is kept is in the buffer. -/
def Handle.CacheOk (h : Handle) : Prop :=
  ∀ len, h.cache.pendingLen = some len → h.cache.Holds len

theorem Handle.CacheOk.receive (hc : h.CacheOk) (args : Caller) (setOk : Bool) :
    (h.receive args setOk).2.CacheOk := by
  unfold Handle.receive
  split
  · exact hc
  · split
    · rename_i hf
      have := (RecvCache.fetch_spec hc hf).1
      intro len hlen
      change _ = some len at hlen
      rw [this] at hlen
      cases hlen
    · rename_i len rx cache hf
      obtain ⟨hnone, hholds⟩ := RecvCache.fetch_spec hc hf
      intro len' hlen'
      obtain ⟨rfl, hb⟩ := (RecvCache.deliver_keeps len args hnone).2 len' hlen'
      unfold RecvCache.Holds
      rw [hb]
      exact hholds len' rfl

/-- **What is kept fits**, in every state of a connected handle. -/
theorem cacheOk_of_reach (h : Handle) (hr : handleSystem.Reach h) : h.CacheOk := by
  refine System.ReachWhen.invariant ?_ ?_ hr
  · rintro h ⟨r, r', generation, -, -, hcache⟩ len hlen
    rw [hcache] at hlen
    cases hlen
  · rintro h l h' hc - hst
    cases l with
    | receive args setOk =>
      cases hst
      exact hc.receive args setOk
    | poll w =>
      obtain ⟨⟨code, h''⟩, hp, rfl⟩ := Option.map_eq_some_iff.1 hst
      obtain ⟨⟨res, rx⟩, -, hp⟩ := Option.map_eq_some_iff.1 hp
      cases hp
      exact hc
    | wake =>
      simp only [handleSystem] at hst
      split_ifs at hst
      cases hst
      exact hc
    | _ =>
      cases hst
      exact hc

end

/-- **A poll agrees with a call to receive** exactly when no message is kept, or there is a message
in the ring, or the event of the ring is signalled. -/
theorem pollAgrees_iff (h : Handle) (hr : handleSystem.Reach h) : h.PollAgrees ↔
    h.cache.pendingLen = none ∨ h.rx.ring.header.messageCount ≠ 0 ∨ h.rx.data = true := by
  unfold Handle.PollAgrees
  rw [pollsAtOnce_iff]
  constructor
  · intro hagrees
    cases hp : h.cache.pendingLen with
    | none => exact .inl rfl
    | some len => exact .inr (hagrees (hasMessage_of_pending hp (cacheOk_of_reach h hr len hp)))
  · rintro (hnone | hready) hm
    · exact .inl (hm.messageCount_ne_zero hnone)
    · exact hready

/-- The peer sends a message into an empty ring. -/
theorem send_of_empty {d : Direction} {n : ℕ} (h : Represents d.ring [] n) {p : Payload}
    (hp : p.Valid) : ∃ n', Represents (d.send true true p).2.ring [p] n' ∧
      (d.send true true p).2.data = true := by
  obtain ⟨r', hw, hr'⟩ := h.writeLoop hp 0
  rw [← Ring.writeMessage_of_valid _ hp] at hw
  have hpush : ringQueue.push [] p = [p] := by
    simp only [DropOldest.push, List.drop_nil, List.nil_append]
  rw [hpush] at hr'
  refine ⟨n + ringQueue.excess [] p, ?_, ?_⟩
  · simpa only [Direction.send, hw, Bool.true_eq_false, if_false] using hr'
  · simp [Direction.send, hw]

/-- A caller without room for the only message. -/
theorem receive_of_short (h : Handle) {p : Payload} {n : ℕ} (hr : Represents h.rx.ring [p] n)
    (hc : h.cache = {}) (args : Caller) {capacity : ℕ} (hcap : args.capacity? = some capacity)
    (hshort : capacity < p.length) (setOk : Bool) :
    (h.receive args setOk).2.cache.pendingLen = some p.length ∧
      (h.receive args setOk).2.rx.ring.header.messageCount = 0 ∧
      (h.receive args setOk).2.rx.data = h.rx.data := by
  obtain ⟨r', hread, hr'⟩ := hr.readMessage_cons []
  have hsize := (Caller.capacity?_eq hcap).1
  simp only [Handle.receive, hcap, RecvCache.fetch, hc, Direction.receive, hread,
    Bool.true_eq_false, if_false, RecvCache.deliver, hsize, if_pos hshort]
  exact ⟨trivial, hr'.messageCount_eq_zero.2 rfl, trivial⟩

/-- A poll that uses up the signal. -/
theorem poll_of_signalled {h : Handle} (hcount : h.rx.ring.header.messageCount = 0)
    (hdata : h.rx.data = true) :
    handleSystem.step h (.poll .signalled) =
      some { h with rx := { h.rx with data := false } } := by
  simp only [handleSystem, Handle.poll, Direction.poll, hcount, hdata, Bool.true_eq_false, ne_eq,
    not_true_eq_false, if_false, if_true, Option.map_some]

/-- A connected handle that nobody has used. -/
def freshHandle : Handle := { tx := freshDirection, rx := freshDirection }

theorem reach_freshHandle : handleSystem.Reach freshHandle :=
  .init ⟨_, _, 1, rfl, rfl, rfl⟩

/-- A message that does not fit is received and kept, and a poll uses up the signal: the next poll
waits. -/
theorem not_pollAgrees : ¬ ∀ h, handleSystem.Reach h → h.PollAgrees := by
  intro hall
  obtain ⟨n, hring, hdata⟩ := send_of_empty (d := freshHandle.rx) (p := [7, 8])
    (represents_reset _ _) (by decide)
  let h₁ : Handle := { freshHandle with rx := (freshDirection.send true true [7, 8]).2 }
  have hr₁ : handleSystem.Reach h₁ :=
    reach_freshHandle.step (l := .peerSend [7, 8] true) rfl
  obtain ⟨hpending, hcount, hsame⟩ := receive_of_short h₁ hring rfl ⟨some [0], some 1⟩
    rfl (by decide) true
  have hr₂ := hr₁.step (l := .receive ⟨some [0], some 1⟩ true) rfl
  have hr₃ := hr₂.step (poll_of_signalled hcount (hsame.trans hdata))
  rcases (pollAgrees_iff _ hr₃).1 (hall _ hr₃) with hnone | hready | hready
  · cases hpending.symm.trans hnone
  · exact hready hcount
  · cases hready

/-- A message is kept, a poll has used up the signal, and the peer has sent another message. -/
def keptAndMore : List HandleCall :=
  [.peerSend [7, 8] true, .receive ⟨some [0], some 1⟩ true, .poll .signalled,
    .peerSend [9, 10, 11] true]

theorem pollAgrees_iff_keptAndMore : ∃ h, handleSystem.Reach h ∧
    (h.cache.pendingLen = some 2 ∧ h.rx.ring.header.messageCount = 1) ∧ h.HasMessage ∧
      h.PollsAtOnce := by
  obtain ⟨h, hr, hh⟩ := System.exists_reachWhen (A := handleSystem) (C := fun _ _ => True)
    (s := freshHandle) (r := keptAndMore)
    (f := fun h => (h.cache.pendingLen, h.rx.ring.header.messageCount)) (t := (some 2, 1))
    ⟨_, _, 1, rfl, rfl, rfl⟩ (by decide +kernel)
  simp only [Prod.mk.injEq] at hh
  obtain ⟨hpending, hcount⟩ := hh
  have hm : h.HasMessage := hasMessage_of_pending hpending (cacheOk_of_reach h hr 2 hpending)
  have hne : h.rx.ring.header.messageCount ≠ 0 := by rw [hcount]; decide
  exact ⟨h, hr, ⟨hpending, hcount⟩, hm, (pollAgrees_iff h hr).2 (.inr (.inl hne)) hm⟩

end Ffi

end Xshm
