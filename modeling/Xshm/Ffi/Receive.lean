import Xshm.Endpoint.Data
import Xshm.System.Basic

/-!
# Receiving through the C functions

`shm_server_receive` and `shm_client_receive` on one handle: the text is the same, and the ring is
the one to the server or the one to the client.  A message that does not fit into the caller's
buffer is kept in the `RecvCache` of the handle for a later call.  Any number of threads call;
between their steps the peer may do anything to the ring.

What the calls are for is said by `Replay`, about the reads of the ring and the returns of calls in
the order in which they happen: a message that has been read is kept until a call returns it, and
nothing is read meanwhile.

* `replay_of_reach` : every run is such a sequence.
* `deliversOnce_of_reach` : what is returned is what was read, once and in order; a call that
  returns an error changes nothing of the caller's; the next call that has room returns the message
  that was kept.
-/

namespace Xshm

namespace Ffi

/-- `shm_error_t`. -/
inductive ErrorCode where
  | success
  | invalidParam
  | memory
  | timeout
  | empty
  | exists
  | notFound
  | access
  | notReady
  | protocol
  | full
  | noSlot
  deriving DecidableEq

/-- `From<ShmError> for shm_error_t`. -/
def ErrorCode.ofShmError : ShmError → ErrorCode
  | .messageTooSmall | .messageTooLarge => .invalidParam
  | .queueEmpty => .empty
  | .queueFull => .full
  | .timeout => .timeout
  | .notReady => .notReady
  | .notConnected => .notFound
  | .alreadyConnected => .exists
  | .handshakeFailed | .corrupted => .protocol
  | .windowsError _ _ => .access
  | .invalidConfig _ => .invalidParam
  | .noFreeSlot => .noSlot

theorem ErrorCode.ofShmError_ne_success (e : ShmError) : ofShmError e ≠ .success := by
  cases e <;> rintro ⟨⟩

theorem ErrorCode.ofShmError_ne_memory (e : ShmError) : ofShmError e ≠ .memory := by
  cases e <;> rintro ⟨⟩

/-- What the pointers of a call point to: the bytes of the buffer and `*size`; `none` is a null
pointer. -/
structure Caller where
  buffer : Option Payload
  size : Option UInt32
  deriving DecidableEq

/-- The capacity of the caller's buffer, if the call passes the checks of its arguments. -/
def Caller.capacity? (args : Caller) : Option ℕ :=
  match args.buffer, args.size with
  | some _, some size => if size = 0 then none else some size.toNat
  | _, _ => none

/-- The bytes that a call has returned. -/
def Caller.payload (args : Caller) : Payload :=
  (args.buffer.getD []).take (args.size.getD 0).toNat

/-- A call that has returned. -/
structure Returned where
  args : Caller
  code : ErrorCode
  /-- What the pointers point to afterwards. -/
  after : Caller
  deriving DecidableEq

/-- A call that returns an error, with what the caller passed as it was. -/
def Returned.failed (args : Caller) (code : ErrorCode) : Returned := ⟨args, code, args⟩

/-- The buffer of a handle and the length of the message in it that has not been delivered. -/
structure RecvCache where
  buffer : Payload := []
  pendingLen : Option ℕ := none
  deriving DecidableEq

namespace RecvCache

variable (cache : RecvCache)

/-- Take the message that was kept, or receive one. -/
def fetch (connected : Bool) (d : Direction) (setOk : Bool) :
    Except ShmError ℕ × Direction × RecvCache :=
  match cache.pendingLen with
  | some len => (.ok len, d, { cache with pendingLen := none })
  | none =>
    match d.receive connected setOk cache.buffer with
    | (res, d, buffer) => (res, d, { cache with buffer := buffer })

/-- Copy the message of length `len` to the caller, or keep it. -/
def deliver (len : ℕ) (args : Caller) : RecvCache × Returned :=
  if (args.size.getD 0).toNat < len then
    ({ cache with pendingLen := some len }, .failed args .memory)
  else
    (cache, { args := args, code := .success, after := {
      buffer := args.buffer.map fun out => cache.buffer.take len ++ out.drop len
      size := some (UInt32.ofNat len) } })

end RecvCache

/-- Program points of a thread. -/
inductive Thread where
  | idle
  /-- In `recv_cache.lock()`. -/
  | locking (args : Caller)
  /-- With the mutex. -/
  | locked (args : Caller)
  /-- With the mutex and the length of the message to deliver. -/
  | fetched (args : Caller) (len : ℕ)
  deriving DecidableEq

/-- The thread has the mutex. -/
def Thread.holding : Thread → Bool
  | .locked _ | .fetched _ _ => true
  | .idle | .locking _ => false

/-- What happens in the calls. -/
inductive Event where
  /-- The ring is read; the payload if there is one. -/
  | read (res : Except ShmError Payload)
  | returned (r : Returned)

/-- A handle and the threads `τ` that use it. -/
structure State (τ : Type*) where
  connected : Bool
  ring : Direction
  cache : RecvCache := {}
  lock : Option τ := none
  thread : τ → Thread := fun _ => .idle
  /-- Record: the reads of the ring and the returns, in order. -/
  log : List Event := []

/-- Who moves. -/
inductive Label (τ : Type*) where
  /-- The peer, and whatever else uses the segment. -/
  | peer (connected : Bool) (ring : Direction)
  | call (t : τ) (args : Caller)
  /-- The thread moves; `setOk` says whether a `set` succeeds. -/
  | proceed (t : τ) (setOk : Bool)

section

variable {τ : Type*} [DecidableEq τ]

namespace State

variable (s : State τ)

def setThread (t : τ) (pc : Thread) : State τ :=
  { s with thread := Function.update s.thread t pc }

/-- The mutex is released and the call returns. -/
def finish (t : τ) (r : Returned) : State τ :=
  { s.setThread t .idle with lock := none, log := s.log ++ [.returned r] }

/-- The next step of a thread. -/
def proceed (t : τ) (setOk : Bool) : Option (State τ) :=
  match s.thread t with
  | .idle => none
  | .locking args =>
    if s.lock = none then some { s.setThread t (.locked args) with lock := some t } else none
  | .locked args =>
    let (res, ring, cache) := s.cache.fetch s.connected s.ring setOk
    -- the record of the read, if there is one
    let log := if s.cache.pendingLen = none then
      s.log ++ [.read (res.map fun len => cache.buffer.take len)] else s.log
    let s := { s with ring := ring, cache := cache, log := log }
    match res with
    | .ok len => some (s.setThread t (.fetched args len))
    | .error e => some (s.finish t (.failed args (.ofShmError e)))
  | .fetched args len =>
    let (cache, r) := s.cache.deliver len args
    some ({ s with cache := cache }.finish t r)

end State

/-- The calls of `shm_server_receive` or `shm_client_receive` on a handle. -/
def system (τ : Type*) [DecidableEq τ] : System (State τ) (Label τ) where
  init s := ∃ connected ring, s = { connected := connected, ring := ring }
  step s
    | .peer connected ring => some { s with connected := connected, ring := ring }
    | .call t args =>
      if s.thread t = .idle then
        match args.capacity? with
        | none => some { s with log := s.log ++ [.returned (.failed args .invalidParam)] }
        | some _ => some (s.setThread t (.locking args))
      else none
    | .proceed t setOk => s.proceed t setOk

end

/-! ### What the calls are for -/

/-- What a call returns that comes when `kept` has been read and not been returned. -/
def Returned.Fits (r : Returned) (kept : Option Payload) : Prop :=
  match r.args.capacity?, kept with
  | none, _ => r = .failed r.args .invalidParam
  | some _, none => ∃ e, r = .failed r.args (.ofShmError e)
  | some capacity, some p =>
    if capacity < p.length then r = .failed r.args .memory
    else r.code = .success ∧ r.after.payload = p

/-- What has been read and not been returned after an event. -/
def Event.keeps (kept : Option Payload) : Event → Option Payload
  | .read (.ok p) => some p
  | .read (.error _) => kept
  | .returned r => if r.code = .success then none else kept

/-- What has been read and not been returned after some events. -/
def keptAfter (kept : Option Payload) (log : List Event) : Option Payload :=
  log.foldl Event.keeps kept

/-- The ring is read only when nothing is kept, and calls return what fits. -/
def Event.Fits (kept : Option Payload) : Event → Prop
  | .read _ => kept = none
  | .returned r => r.Fits kept

/-- A sequence of reads and returns in which every message that is read is kept until a call returns
it. -/
def Replay : Option Payload → List Event → Prop
  | _, [] => True
  | kept, e :: log => e.Fits kept ∧ Replay (e.keeps kept) log

theorem keptAfter_append (kept : Option Payload) (log log' : List Event) :
    keptAfter kept (log ++ log') = keptAfter (keptAfter kept log) log' :=
  List.foldl_append

theorem replay_append {kept : Option Payload} {log log' : List Event} :
    Replay kept (log ++ log') ↔ Replay kept log ∧ Replay (keptAfter kept log) log' := by
  induction log generalizing kept with
  | nil => exact ⟨fun h => ⟨trivial, h⟩, fun h => h.2⟩
  | cons e log ih =>
    rw [List.cons_append, Replay, Replay, ih, and_assoc]
    rfl

theorem replay_concat {kept : Option Payload} {log : List Event} {e : Event} :
    Replay kept (log ++ [e]) ↔ Replay kept log ∧ e.Fits (keptAfter kept log) := by
  rw [replay_append, Replay]
  exact and_congr_right fun _ => and_iff_left trivial

/-! ### The calls do what they are for -/

/-- The message that is kept. -/
def RecvCache.kept (cache : RecvCache) : Option Payload :=
  cache.pendingLen.map fun len => cache.buffer.take len

/-- The arguments of the call that a thread is in. -/
def Thread.args? : Thread → Option Caller
  | .idle => none
  | .locking args | .locked args | .fetched args _ => some args

/-- A message of length `len` is in the buffer. -/
def RecvCache.Holds (cache : RecvCache) (len : ℕ) : Prop :=
  len ≤ cache.buffer.length ∧ len ≤ maxMessageSize

/-- What every step keeps. -/
structure Inv {τ : Type*} (s : State τ) : Prop where
  holder : ∀ t, (s.thread t).holding = true → s.lock = some t
  checked : ∀ t args, (s.thread t).args? = some args → ∃ capacity, args.capacity? = some capacity
  replay : Replay none s.log
  pending : ∀ len, s.cache.pendingLen = some len → s.cache.Holds len
  kept : (∀ t args len, s.thread t ≠ .fetched args len) → keptAfter none s.log = s.cache.kept
  fetched : ∀ t args len, s.thread t = .fetched args len →
    s.cache.pendingLen = none ∧ s.cache.Holds len ∧
      keptAfter none s.log = some (s.cache.buffer.take len)

section

variable {τ : Type*} {s s' : State τ} {t : τ}

/-- No thread delivers a message while another one has the mutex and does not. -/
theorem Inv.not_fetched (h : Inv s) {args : Caller} (ht : s.thread t = .locked args) (t' : τ)
    (args' : Caller) (len : ℕ) : s.thread t' ≠ .fetched args' len := by
  intro ht'
  have h₁ := h.holder t (by rw [ht]; rfl)
  have h₂ := h.holder t' (by rw [ht']; rfl)
  have htt : t = t' := Option.some_inj.1 (h₁.symm.trans h₂)
  subst htt
  rw [ht] at ht'
  cases ht'

variable [DecidableEq τ]

/-- The call of the thread with the mutex returns. -/
theorem Inv.finish (h : Inv s) {cache : RecvCache} {ring : Direction} {log : List Event}
    {r : Returned} (ht : (s.thread t).holding = true) (hreplay : Replay none log)
    (hfits : r.Fits (keptAfter none log)) (hpending : ∀ len, cache.pendingLen = some len →
      cache.Holds len)
    (hkept : (Event.returned r).keeps (keptAfter none log) = cache.kept) :
    Inv ({ s with ring := ring, cache := cache, log := log }.finish t r) := by
  have hlock := h.holder t ht
  -- no other thread has the mutex
  have hother : ∀ t', t' ≠ t → (s.thread t').holding = false := by
    intro t' hne
    by_contra hhold
    have := h.holder t' (by simpa using hhold)
    exact hne (Option.some_inj.1 (this.symm.trans hlock))
  have hidle : ∀ t', (Function.update s.thread t .idle t').holding = false := by
    intro t'
    by_cases htt : t' = t
    · subst htt
      rw [Function.update_self]
      rfl
    · rw [Function.update_of_ne htt]
      exact hother t' htt
  have hnot : ∀ t' args len, Function.update s.thread t .idle t' ≠ .fetched args len := by
    intro t' args len heq
    have := hidle t'
    rw [heq] at this
    cases this
  exact {
    holder := fun t' ht' => by
      have ht' : (Function.update s.thread t .idle t').holding = true := ht'
      rw [hidle t'] at ht'
      cases ht'
    checked := fun t' args => forall_update (P := fun pc : Thread => pc.args? = some args)
      (Q := fun _ => ∃ capacity, args.capacity? = some capacity) (by rintro ⟨⟩)
      (fun t' => h.checked t' args) t'
    replay := replay_concat.2 ⟨hreplay, hfits⟩
    pending := hpending
    kept := fun _ => (keptAfter_append none log [.returned r]).trans hkept
    fetched := fun t' args len ht' => absurd ht' (hnot t' args len) }

/-- A thread moves and changes neither the cache nor the log; it may take the mutex. -/
theorem Inv.move (h : Inv s) {pc : Thread} (lock : Option τ)
    (hlock : ∀ t', t' ≠ t → (s.thread t').holding = true → lock = some t')
    (ht : pc.holding = true → lock = some t)
    (hchecked : ∀ args, pc.args? = some args → ∃ capacity, args.capacity? = some capacity)
    (hpc : ∀ args len, pc ≠ .fetched args len) (hs : ∀ args len, s.thread t ≠ .fetched args len) :
    Inv { s.setThread t pc with lock := lock } where
  holder t' ht' := by
    have ht' : (Function.update s.thread t pc t').holding = true := ht'
    by_cases htt : t' = t
    · subst htt
      rw [Function.update_self] at ht'
      exact ht ht'
    · rw [Function.update_of_ne htt] at ht'
      exact hlock t' htt ht'
  checked t' args := forall_update (P := fun pc : Thread => pc.args? = some args)
    (Q := fun _ => ∃ capacity, args.capacity? = some capacity) (hchecked args)
    (fun t' => h.checked t' args) t'
  replay := h.replay
  pending := h.pending
  kept hnot := by
    refine h.kept fun t' args len ht' => ?_
    by_cases htt : t' = t
    · subst htt
      exact hs args len ht'
    · refine hnot t' args len ?_
      change Function.update s.thread t pc t' = _
      rw [Function.update_of_ne htt]
      exact ht'
  fetched t' args len ht' := by
    have ht' : Function.update s.thread t pc t' = .fetched args len := ht'
    by_cases htt : t' = t
    · subst htt
      rw [Function.update_self] at ht'
      exact absurd ht' (hpc args len)
    · rw [Function.update_of_ne htt] at ht'
      exact h.fetched t' args len ht'

/-- The thread with the mutex has found a message of length `len`. -/
theorem Inv.fetch (h : Inv s) {args : Caller} {cache : RecvCache} {ring : Direction}
    {log : List Event} {len : ℕ} (ht : s.thread t = .locked args) (hreplay : Replay none log)
    (hpending : cache.pendingLen = none) (hholds : cache.Holds len)
    (hkept : keptAfter none log = some (cache.buffer.take len)) :
    Inv ({ s with ring := ring, cache := cache, log := log }.setThread t (.fetched args len)) where
  holder t' ht' := by
    have ht' : (Function.update s.thread t (.fetched args len) t').holding = true := ht'
    by_cases htt : t' = t
    · subst htt
      exact h.holder t' (by rw [ht]; rfl)
    · rw [Function.update_of_ne htt] at ht'
      exact h.holder t' ht'
  checked t' args' := forall_update (P := fun pc : Thread => pc.args? = some args')
    (Q := fun _ => ∃ capacity, args'.capacity? = some capacity)
    (fun hargs => h.checked t args' (by rw [ht]; exact hargs)) (fun t' => h.checked t' args') t'
  replay := hreplay
  pending len' hlen' := by
    have hlen' : cache.pendingLen = some len' := hlen'
    rw [hpending] at hlen'
    cases hlen'
  kept hnot := by
    refine absurd ?_ (hnot t args len)
    exact Function.update_self t (Thread.fetched args len) s.thread
  fetched t' args' len' ht' := by
    have ht' : Function.update s.thread t (.fetched args len) t' = .fetched args' len' := ht'
    by_cases htt : t' = t
    · subst htt
      rw [Function.update_self] at ht'
      cases ht'
      exact ⟨hpending, hholds, hkept⟩
    · rw [Function.update_of_ne htt] at ht'
      exact absurd ht' (h.not_fetched ht t' args' len')

theorem Caller.capacity?_eq {args : Caller} {capacity : ℕ} (h : args.capacity? = some capacity) :
    (args.size.getD 0).toNat = capacity ∧ ∃ out, args.buffer = some out := by
  obtain ⟨buffer, size⟩ := args
  cases buffer with
  | none => cases h
  | some out =>
    cases size with
    | none => cases h
    | some size =>
      simp only [capacity?] at h
      split_ifs at h
      cases h
      exact ⟨rfl, out, rfl⟩

/-- What `deliver` returns. -/
theorem RecvCache.deliver_fits {cache : RecvCache} {len capacity : ℕ} {args : Caller}
    (hargs : args.capacity? = some capacity) (hholds : cache.Holds len) :
    (cache.deliver len args).2.Fits (some (cache.buffer.take len)) := by
  obtain ⟨hsize, out, hout⟩ := Caller.capacity?_eq hargs
  have hlen : (cache.buffer.take len).length = len := List.length_take_of_le hholds.1
  unfold deliver
  rw [hsize]
  by_cases hshort : capacity < len
  · simp only [if_pos hshort, Returned.Fits, Returned.failed, hargs, hlen]
  · simp only [if_neg hshort, Returned.Fits, hargs, hlen]
    refine ⟨trivial, ?_⟩
    have hnat : (UInt32.ofNat len).toNat = len := by
      have := hholds.2
      rw [maxMessageSize] at this
      exact toNat_ofNat_of_lt (by omega)
    simp only [Caller.payload, hout, Option.map_some, Option.getD_some, hnat]
    exact List.take_left' hlen

/-- What `deliver` keeps. -/
theorem RecvCache.deliver_keeps {cache : RecvCache} (len : ℕ) (args : Caller)
    (hpending : cache.pendingLen = none) :
    (Event.returned (cache.deliver len args).2).keeps (some (cache.buffer.take len)) =
        (cache.deliver len args).1.kept ∧
      ∀ len', (cache.deliver len args).1.pendingLen = some len' →
        len' = len ∧ (cache.deliver len args).1.buffer = cache.buffer := by
  unfold deliver
  split_ifs
  · exact ⟨rfl, by rintro len' ⟨⟩; exact ⟨rfl, rfl⟩⟩
  · refine ⟨?_, fun len' hlen' => ?_⟩
    · simp only [Event.keeps, kept, hpending, if_true, Option.map_none]
    · have hlen' : cache.pendingLen = some len' := hlen'
      rw [hpending] at hlen'
      cases hlen'

/-- What `fetch` leaves in the cache. -/
theorem RecvCache.fetch_spec {cache cache' : RecvCache} {connected : Bool} {d d' : Direction}
    {setOk : Bool} {res : Except ShmError ℕ}
    (h : ∀ len, cache.pendingLen = some len → cache.Holds len)
    (hf : cache.fetch connected d setOk = (res, d', cache')) :
    cache'.pendingLen = none ∧ ∀ len, res = .ok len → cache'.Holds len := by
  unfold fetch at hf
  cases hp : cache.pendingLen with
  | some len =>
    simp only [hp] at hf
    cases hf
    exact ⟨rfl, by rintro len' ⟨⟩; exact h len hp⟩
  | none =>
    rcases hr : d.receive connected setOk cache.buffer with ⟨res', d'', buffer⟩
    simp only [hp, hr] at hf
    cases hf
    refine ⟨rfl, ?_⟩
    rintro len rfl
    obtain ⟨hlen, hok⟩ := Direction.receive_ok hr
    exact ⟨hlen.ge, hok.2⟩

theorem Inv.proceedLocked (h : Inv s) {args : Caller} {setOk : Bool}
    (ht : s.thread t = .locked args) (hst : s.proceed t setOk = some s') : Inv s' := by
  have hkept : keptAfter none s.log = s.cache.kept := h.kept (h.not_fetched ht)
  have hhold : (s.thread t).holding = true := by
    rw [ht]
    rfl
  simp only [State.proceed, ht, RecvCache.fetch] at hst
  cases hp : s.cache.pendingLen with
  | some len =>
    -- the message that was kept
    simp only [hp] at hst
    cases hst
    refine h.fetch ht h.replay rfl (h.pending len hp) ?_
    change keptAfter none s.log = _
    rw [hkept, RecvCache.kept, hp]
    rfl
  | none =>
    have hnone : keptAfter none s.log = none := by
      rw [hkept, RecvCache.kept, hp]
      rfl
    simp only [hp, if_true] at hst
    rcases hr : s.ring.receive s.connected setOk s.cache.buffer with ⟨res, ring, buffer⟩
    rw [hr] at hst
    cases res with
    | ok len =>
      cases hst
      obtain ⟨hlen, hok⟩ := Direction.receive_ok hr
      refine h.fetch ht (replay_concat.2 ⟨h.replay, hnone⟩) rfl ⟨hlen.ge, hok.2⟩ ?_
      rw [keptAfter_append, hnone]
      rfl
    | error e =>
      cases hst
      have hafter : keptAfter none (s.log ++ [.read (.error e)]) = none := by
        rw [keptAfter_append, hnone]
        rfl
      refine h.finish hhold (replay_concat.2 ⟨h.replay, hnone⟩) ?_ (by rintro len ⟨⟩) ?_
      · rw [show Except.map (fun len => List.take len buffer) (Except.error e) = .error e from rfl,
          hafter]
        obtain ⟨capacity, hcap⟩ := h.checked t args (by rw [ht]; rfl)
        simp only [Returned.Fits, Returned.failed, hcap]
        exact ⟨e, rfl⟩
      · rw [show Except.map (fun len => List.take len buffer) (Except.error e) = .error e from rfl,
          hafter]
        simp only [Event.keeps, RecvCache.kept, Option.map_none, ite_self]

theorem Inv.proceedFetched (h : Inv s) {args : Caller} {len : ℕ} {setOk : Bool}
    (ht : s.thread t = .fetched args len) (hst : s.proceed t setOk = some s') : Inv s' := by
  obtain ⟨hpending, hholds, hkept⟩ := h.fetched t args len ht
  obtain ⟨capacity, hcap⟩ := h.checked t args (by rw [ht]; rfl)
  obtain ⟨hkeeps, hbuffer⟩ := RecvCache.deliver_keeps len args hpending
  simp only [State.proceed, ht] at hst
  cases hst
  refine h.finish (by rw [ht]; rfl) h.replay ?_ ?_ ?_
  · rw [hkept]
    exact RecvCache.deliver_fits hcap hholds
  · intro len' hlen'
    obtain ⟨rfl, hb⟩ := hbuffer len' hlen'
    unfold RecvCache.Holds
    rw [hb]
    exact hholds
  · rw [hkept]
    exact hkeeps

/-- **Every step keeps the invariant.** -/
theorem Inv.step (h : Inv s) {l : Label τ} (hst : (system τ).step s l = some s') : Inv s' := by
  cases l with
  | peer connected ring =>
    cases hst
    exact { h with }
  | call t args =>
    by_cases hidle : s.thread t = .idle
    · simp only [system, hidle, if_true] at hst
      cases hcap : args.capacity? with
      | none =>
        simp only [hcap] at hst
        cases hst
        have hsame : keptAfter none (s.log ++ [.returned (.failed args .invalidParam)]) =
            keptAfter none s.log := by
          rw [keptAfter_append]
          rfl
        refine { h with
          replay := replay_concat.2 ⟨h.replay, ?_⟩
          kept := fun hnot => hsame.trans (h.kept hnot)
          fetched := fun t' args' len ht' => ?_ }
        · simp only [Event.Fits, Returned.Fits, Returned.failed, hcap]
        · obtain ⟨h₁, h₂, h₃⟩ := h.fetched t' args' len ht'
          exact ⟨h₁, h₂, hsame.trans h₃⟩
      | some capacity =>
        simp only [hcap] at hst
        cases hst
        refine h.move s.lock (fun t' _ ht' => h.holder t' ht') (by rintro ⟨⟩) ?_
          (fun _ _ => by rintro ⟨⟩) (fun _ _ => by rw [hidle]; rintro ⟨⟩)
        rintro args' ⟨⟩
        exact ⟨capacity, hcap⟩
    · simp only [system, hidle, if_false] at hst
      cases hst
  | proceed t setOk =>
    change s.proceed t setOk = some s' at hst
    cases ht : s.thread t with
    | idle =>
      simp only [State.proceed, ht] at hst
      cases hst
    | locking args =>
      simp only [State.proceed, ht] at hst
      split_ifs at hst with hfree
      cases hst
      refine h.move (some t) (fun t' _ ht' => ?_) (fun _ => rfl)
        (fun args' hargs => h.checked t args' (by rw [ht]; exact hargs)) (fun _ _ => by rintro ⟨⟩)
        (fun _ _ => by rw [ht]; rintro ⟨⟩)
      have := h.holder t' ht'
      rw [hfree] at this
      cases this
    | locked args => exact h.proceedLocked ht hst
    | fetched args len => exact h.proceedFetched ht hst

/-- **The calls keep every message that has been read until one returns it**, and read nothing
meanwhile. -/
theorem replay_of_reach (h : (system τ).Reach s) : Replay none s.log := by
  refine Inv.replay (System.ReachWhen.invariant ?_ (fun s l s' hI _ hst => Inv.step hI hst) h)
  rintro s ⟨connected, ring, rfl⟩
  exact {
    holder := by rintro t ⟨⟩
    checked := by rintro t args ⟨⟩
    replay := trivial
    pending := by rintro len ⟨⟩
    kept := fun _ => rfl
    fetched := by rintro t args len ⟨⟩ }

end

/-! ### Exactly once -/

/-- The payloads taken from the ring. -/
def taken (log : List Event) : List Payload :=
  log.filterMap fun e =>
    match e with
    | .read (.ok p) => some p
    | _ => none

/-- The payloads returned with `SHM_SUCCESS`. -/
def delivered (log : List Event) : List Payload :=
  log.filterMap fun e =>
    match e with
    | .returned r => if r.code = .success then some r.after.payload else none
    | _ => none

/-- **Every message is delivered exactly once.** -/
structure DeliversOnce (log : List Event) : Prop where
  /-- What has been returned is what has been read, in order, but for one message at most that is
  still kept. -/
  inOrder : ∃ kept : Option Payload, taken log = delivered log ++ kept.toList
  /-- A call that returns an error leaves the caller's buffer and `*size` as they were. -/
  unchanged : ∀ r, .returned r ∈ log → r.code ≠ .success → r.after = r.args
  /-- After a call that had no room nothing is read until a call returns a message. -/
  noRead : ∀ l₁ r l₂ res l₃, log = l₁ ++ .returned r :: (l₂ ++ .read res :: l₃) →
    r.code = .memory → ∃ r', .returned r' ∈ l₂ ∧ r'.code = .success
  /-- The first call after it that has room for the message, which is the last one read, returns
  it. -/
  nextCall : ∀ l₁ r l₂ r' l₃ p capacity,
    log = l₁ ++ .returned r :: (l₂ ++ .returned r' :: l₃) → r.code = .memory →
    (taken l₁).getLast? = some p →
    (∀ r'', .returned r'' ∈ l₂ → ∀ capacity, r''.args.capacity? = some capacity →
      capacity < p.length) →
    r'.args.capacity? = some capacity → p.length ≤ capacity →
    r'.code = .success ∧ r'.after.payload = p

/-- What is read is returned or kept. -/
theorem taken_eq {kept : Option Payload} {log : List Event} (h : Replay kept log) :
    kept.toList ++ taken log = delivered log ++ (keptAfter kept log).toList := by
  induction log generalizing kept with
  | nil => exact List.append_nil _
  | cons e log ih =>
    obtain ⟨hfits, hrest⟩ := h
    have ih := ih hrest
    cases e with
    | read res =>
      have hfits : kept = none := hfits
      subst hfits
      cases res with
      | ok p => exact ih
      | error e => exact ih
    | returned r =>
      have hfits : r.Fits kept := hfits
      by_cases hsucc : r.code = .success
      · have hk : kept = some r.after.payload := by
          unfold Returned.Fits at hfits
          split at hfits
          · rw [hfits] at hsucc
            cases hsucc
          · obtain ⟨e, he⟩ := hfits
            rw [he] at hsucc
            exact absurd hsucc (ErrorCode.ofShmError_ne_success e)
          · split_ifs at hfits
            · rw [hfits] at hsucc
              cases hsucc
            · rw [hfits.2]
        have hd : delivered (.returned r :: log) = r.after.payload :: delivered log := by
          simp only [delivered, List.filterMap_cons, hsucc, if_true]
        have hkeeps : (Event.returned r).keeps kept = none := if_pos hsucc
        subst hk
        rw [hkeeps] at ih
        rw [hd, keptAfter, List.foldl_cons, hkeeps]
        exact congrArg (r.after.payload :: ·) ih
      · have hd : delivered (.returned r :: log) = delivered log := by
          simp only [delivered, List.filterMap_cons, hsucc, if_false]
        have hkeeps : (Event.returned r).keeps kept = kept := if_neg hsucc
        rw [hkeeps] at ih
        rw [hd, keptAfter, List.foldl_cons, hkeeps]
        exact ih

theorem Returned.Fits.unchanged {r : Returned} {kept : Option Payload} (h : r.Fits kept)
    (hr : r.code ≠ .success) : r.after = r.args := by
  unfold Returned.Fits at h
  split at h
  · rw [h]
    rfl
  · obtain ⟨e, he⟩ := h
    rw [he]
    rfl
  · split_ifs at h
    · rw [h]
      rfl
    · exact absurd h.1 hr

/-- A call that had no room has left a message. -/
theorem Returned.Fits.kept_of_memory {r : Returned} {kept : Option Payload} (h : r.Fits kept)
    (hr : r.code = .memory) : ∃ p, kept = some p := by
  cases kept with
  | some p => exact ⟨p, rfl⟩
  | none =>
    unfold Returned.Fits at h
    split at h
    · rw [h] at hr
      cases hr
    · obtain ⟨e, he⟩ := h
      rw [he] at hr
      exact absurd hr (ErrorCode.ofShmError_ne_memory e)
    · rename_i hnone
      cases hnone

theorem Replay.fits {kept : Option Payload} {l₁ l₂ : List Event} {e : Event}
    (h : Replay kept (l₁ ++ e :: l₂)) : e.Fits (keptAfter kept l₁) ∧
      Replay (e.keeps (keptAfter kept l₁)) l₂ :=
  (replay_append.1 h).2

/-- A message is kept for as long as no call returns it. -/
theorem keptAfter_of_not_success {p : Payload} {log : List Event} (h : Replay (some p) log)
    (hnone : ∀ r, .returned r ∈ log → r.code ≠ .success) : keptAfter (some p) log = some p := by
  induction log with
  | nil => rfl
  | cons e log ih =>
    have hkeeps : e.keeps (some p) = some p := by
      cases e with
      | read res => cases h.1
      | returned r => exact if_neg (hnone r List.mem_cons_self)
    rw [keptAfter, List.foldl_cons, hkeeps]
    have hrest := h.2
    rw [hkeeps] at hrest
    exact ih hrest fun r hr => hnone r (List.mem_cons_of_mem _ hr)

/-- A call without room for the message that is kept does not return it. -/
theorem not_success_of_short {p : Payload} {log : List Event} (h : Replay (some p) log)
    (hshort : ∀ r, .returned r ∈ log → ∀ capacity, r.args.capacity? = some capacity →
      capacity < p.length) : ∀ r, .returned r ∈ log → r.code ≠ .success := by
  induction log with
  | nil => rintro r ⟨⟩
  | cons e log ih =>
    cases e with
    | read res => cases h.1
    | returned r =>
      have hr : r.code ≠ .success := by
        have hfits : r.Fits (some p) := h.1
        unfold Returned.Fits at hfits
        split at hfits
        · rw [hfits]
          rintro ⟨⟩
        · rename_i hnone
          cases hnone
        · rename_i capacity p' hcap hp
          cases hp
          rw [if_pos (hshort r List.mem_cons_self capacity hcap)] at hfits
          rw [hfits]
          rintro ⟨⟩
      have hrest := h.2
      rw [show (Event.returned r).keeps (some p) = some p from if_neg hr] at hrest
      intro r' hr'
      rcases List.mem_cons.1 hr' with hr' | hr'
      · cases hr'
        exact hr
      · exact ih hrest (fun r'' h'' => hshort r'' (List.mem_cons_of_mem _ h'')) r' hr'

/-- After a call that had no room, the last message read is kept. -/
theorem Replay.kept_of_memory {l₁ l₂ : List Event} {r : Returned}
    (h : Replay none (l₁ ++ .returned r :: l₂)) (hr : r.code = .memory) :
    ∃ p, (taken l₁).getLast? = some p ∧ Replay (some p) l₂ := by
  obtain ⟨hfits, hrest⟩ := h.fits
  obtain ⟨p, hp⟩ := Returned.Fits.kept_of_memory hfits hr
  refine ⟨p, ?_, ?_⟩
  · have := taken_eq (replay_append.1 h).1
    rw [hp] at this
    rw [show taken l₁ = delivered l₁ ++ [p] from this, List.getLast?_concat]
  · rw [hp, show (Event.returned r).keeps (some p) = some p from
      if_neg (by rw [hr]; rintro ⟨⟩)] at hrest
    exact hrest

/-- A sequence of reads and returns as it is to be delivers every message once. -/
theorem Replay.deliversOnce {log : List Event} (h : Replay none log) : DeliversOnce log where
  inOrder := ⟨keptAfter none log, taken_eq h⟩
  unchanged := by
    intro r hr hne
    obtain ⟨l₁, l₂, rfl⟩ := List.append_of_mem hr
    exact Returned.Fits.unchanged h.fits.1 hne
  noRead := by
    rintro l₁ r l₂ res l₃ rfl hr
    obtain ⟨p, -, hrest⟩ := h.kept_of_memory hr
    by_contra hnone
    have hkept : keptAfter (some p) l₂ = some p := by
      refine keptAfter_of_not_success (replay_append.1 hrest).1 fun r' hr' hsucc => ?_
      exact hnone ⟨r', hr', hsucc⟩
    have hread : keptAfter (some p) l₂ = none := hrest.fits.1
    rw [hkept] at hread
    cases hread
  nextCall := by
    rintro l₁ r l₂ r' l₃ p capacity rfl hr hlast hshort hcap hroom
    obtain ⟨p', hlast', hrest⟩ := h.kept_of_memory hr
    rw [hlast] at hlast'
    cases hlast'
    have hrest₂ := (replay_append.1 hrest).1
    have hkept := keptAfter_of_not_success hrest₂ (not_success_of_short hrest₂ hshort)
    have hfits : r'.Fits (keptAfter (some p) l₂) := hrest.fits.1
    rw [hkept] at hfits
    simp only [Returned.Fits, hcap, if_neg (Nat.not_lt.2 hroom)] at hfits
    exact hfits

/-- **Receiving through the C functions delivers every message exactly once**, whatever threads
call with whatever buffers and whatever the peer does. -/
theorem deliversOnce_of_reach {τ : Type*} [DecidableEq τ] (s : State τ)
    (h : (system τ).Reach s) : DeliversOnce s.log :=
  (replay_of_reach h).deliversOnce

/-- A ring with the message `[7, 8]`. -/
def oneMessage : Direction where
  ring := { header := ⟨6, 0, 1, 0, 1, 1, 0⟩, storage := fun i => [2, 0, 0, 0, 7, 8].getD i 0 }
  data := true
  space := false

/-- One thread has no room for the message, the next one gets it. -/
theorem deliversOnce_of_reach_kept : ∃ s : State Bool, (system Bool).Reach s ∧
    (s.log.length, delivered s.log) = (3, [[7, 8]]) ∧ DeliversOnce s.log := by
  obtain ⟨s, hs, hf⟩ := System.exists_reachWhen (A := system Bool) (C := fun _ _ => True)
    (s := { connected := true, ring := oneMessage })
    (f := fun s => (s.log.length, delivered s.log))
    (r := [.call false ⟨some [0], some 1⟩, .proceed false true, .proceed false true,
      .call true ⟨some [0, 0], some 2⟩, .proceed false true, .proceed true true,
      .proceed true true, .proceed true true]) ⟨true, oneMessage, rfl⟩ rfl
  exact ⟨s, hs, hf, deliversOnce_of_reach s hs⟩

end Ffi

end Xshm
