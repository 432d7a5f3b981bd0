import Xshm.System.Basic
import Xshm.Endpoint.Words

/-!
# What a failed handshake leaves behind

`SharedClient::connect`, `SharedServer::wait_for_client` and `MultiServer::do_slot_handshake`, with
all their exits, while the other end does to the segment whatever it likes between two accesses.
Each call is recorded with what it has stored last in the handshake words, and with its event calls
that have failed.

`connect` stores `IDLE` in its three words when the wait for `connect_ack` times out or when the
server is not ready, but leaves `CLIENT_HELLO` there when `connect_req.set` or the wait fails and
`?` returns the error; in the same way the server leaves `SERVER_READY` when `connect_ack.set`
fails: `not_leavesNothing`.

* `leavesNothing_iff` : nothing is left behind exactly when those calls do not fail.
-/

namespace Xshm

/-- The function has succeeded. -/
def Next.isOk {P : Type*} : Next P → Bool
  | .done (.ok _) => true
  | _ => false

/-- The error that the function returns. -/
def Next.error {P : Type*} : Next P → Option ShmError
  | .done (.error e) => some e
  | _ => none

theorem Next.eq_of_error {P : Type*} {n : Next P} {e : ShmError} (h : n.error = some e) :
    n = .done (.error e) := by
  cases n with
  | goto => cases h
  | done res =>
    cases res with
    | error => cases h; rfl
    | ok => cases h

/-- The program point `pc` of one function is `f pc` of another. -/
def Next.map {P Q : Type*} (f : P → Q) : Next P → Next Q
  | .goto pc => .goto (f pc)
  | .done res => .done res

namespace HandshakeErrors

/-- A function of one end of a segment. -/
structure EndFunction (P A B : Type*) where
  /-- The next access. -/
  step : Segment A B → WaitOutcome → P → Option (Segment A B × Next P)
  /-- What the next access stores in the handshake words. -/
  stores : P → Option Store
  /-- The next access is a call that may fail. -/
  calls : P → Bool

/-- A call of such a function. -/
structure Call (P A B : Type*) where
  seg : Segment A B
  /-- The end is connected. -/
  connected : Bool
  next : Next P
  /-- Record: what the call has stored last in the handshake words. -/
  left : HandshakeWord → Option UInt32 := fun _ => none
  /-- Record: where calls have failed. -/
  failed : List P := []

/-- Who moves. -/
inductive Label (A B : Type*) where
  | access (w : WaitOutcome)
  /-- The other end changes the segment. -/
  | other (seg : Segment A B)

section

variable {P A B : Type*} (f : EndFunction P A B)

/-- The call that fails at the next access, if one does. -/
def EndFunction.failure (pc : P) (w : WaitOutcome) : List P :=
  if f.calls pc && w.isFailed then [pc] else []

variable {f} in
theorem EndFunction.eq_of_failure {pc q : P} {w : WaitOutcome} (h : q ∈ f.failure pc w) :
    q = pc := by
  rw [EndFunction.failure] at h
  split_ifs at h
  · exact List.mem_singleton.1 h
  · cases h

/-- One access of the call. -/
def EndFunction.access (s : Call P A B) (w : WaitOutcome) : Option (Call P A B) :=
  match s.next with
  | .done _ => none
  | .goto pc =>
    (f.step s.seg w pc).map fun (seg, next) =>
      { seg := seg
        connected := s.connected || next.isOk
        next := next
        left := Store.note some s.left (f.stores pc)
        failed := s.failed ++ f.failure pc w }

/-- A call of `f`, which begins at `entry`, on any segment. -/
def EndFunction.system (connected : Bool) (entry : Next P) :
    System (Call P A B) (Label A B) where
  init s := s = { seg := s.seg, connected := connected, next := entry }
  step s
    | .access w => f.access s w
    | .other seg => some { s with seg := seg }

variable {f}

/-- The record of a call that has stored `stored pc` when it comes to `pc`, and returns what `Q`
allows with the record that it then has. -/
def Call.Follows (stored : P → HandshakeWord → Option UInt32)
    (Q : Except ShmError Unit → (HandshakeWord → Option UInt32) → List P → Prop)
    (s : Call P A B) : Prop :=
  s.connected = s.next.isOk ∧
    (∀ pc, s.next = .goto pc → s.left = stored pc ∧ s.failed = []) ∧
    ∀ res, s.next = .done res → Q res s.left s.failed

/-- What each access stores determines what a call has stored. -/
theorem EndFunction.follows (stored : P → HandshakeWord → Option UInt32)
    (Q : Except ShmError Unit → (HandshakeWord → Option UInt32) → List P → Prop)
    (hgoto : ∀ seg w pc seg' pc', f.step seg w pc = some (seg', .goto pc') →
      Store.note some (stored pc) (f.stores pc) = stored pc' ∧ f.failure pc w = [])
    (hdone : ∀ seg w pc seg' res, f.step seg w pc = some (seg', .done res) →
      Q res (Store.note some (stored pc) (f.stores pc)) (f.failure pc w))
    {entry : P} (hentry : stored entry = fun _ => none) {s : Call P A B}
    (h : (f.system false (.goto entry)).Reach s) : s.Follows stored Q := by
  refine System.ReachWhen.invariant (I := Call.Follows stored Q) ?_ ?_ h
  · intro s hs
    rw [hs]
    refine ⟨rfl, ?_, by rintro _ ⟨⟩⟩
    rintro _ ⟨⟩
    exact ⟨hentry.symm, rfl⟩
  · rintro s l s' ⟨hcon, hat, hret⟩ - hst
    cases l with
    | other seg =>
      cases hst
      exact ⟨hcon, hat, hret⟩
    | access w =>
      simp only [EndFunction.system, EndFunction.access] at hst
      cases hnext : s.next with
      | done res =>
        rw [hnext] at hst
        cases hst
      | goto pc =>
        simp only [hnext] at hst
        obtain ⟨⟨seg', next⟩, hstep, rfl⟩ := Option.map_eq_some_iff.1 hst
        obtain ⟨hleft, hfailed⟩ := hat pc hnext
        rw [hnext] at hcon
        refine ⟨?_, ?_, ?_⟩
        · simp [hcon, Next.isOk]
        · rintro pc' rfl
          obtain ⟨hstored, hnone⟩ := hgoto _ _ _ _ _ hstep
          simp only [hleft, hfailed, hnone, hstored, List.append_nil, and_self]
        · rintro res rfl
          simp only [hleft, hfailed, List.nil_append]
          exact hdone _ _ _ _ _ hstep

end

/-! ### The functions -/

/-- Program points of `SharedClient::connect`, after the section has been opened. -/
inductive ConnectCall where
  | checkMagic
  | checkVersion
  | openEvents
  | handshake (pc : Connect)
  deriving DecidableEq

/-- Program points of `SharedServer::wait_for_client` and `MultiServer::do_slot_handshake`, after
the check of `connected`. -/
inductive WaitCall where
  /-- The loop of `wait_for_client_noevent`. -/
  | poll
  | handshake (pc : WaitForClient)
  deriving DecidableEq

section

variable (A B : Type*)

/-- `SharedClient::connect`, in a control block with this `magic` and `version`. -/
def connectFunction (magic version : UInt32) : EndFunction ConnectCall A B where
  step seg w
    | .checkMagic =>
      some (seg, if magic ≠ sharedMagic then .done (.error .corrupted) else .goto .checkVersion)
    | .checkVersion =>
      some (seg,
        if version ≠ sharedVersion then .done (.error .handshakeFailed) else .goto .openEvents)
    | .openEvents =>
      match w with
      | .failed e => some (seg, .done (.error e))
      | _ => some (seg, .goto (.handshake .storeClient))
    | .handshake pc =>
      match pc, w with
      | .setReq, .failed e => some (seg, .done (.error e))
      | pc, w => (pc.step seg w).map fun (seg, next) => (seg, next.map .handshake)
  stores
    | .handshake pc => pc.stores
    | _ => none
  calls
    | .openEvents | .handshake .setReq | .handshake .waitAck => true
    | _ => false

/-- The handshake of a server, which has events if it is `named`. -/
def waitFunction (named : Bool) : EndFunction WaitCall A B where
  step seg w
    | .poll =>
      if seg.clientState = handshakeClientHello then some (seg, .goto (.handshake .loadGeneration))
      else
        match w with
        | .timeout => some (seg, .done (.error .timeout))
        | _ => some (seg, .goto .poll)
    | .handshake pc =>
      match pc, w with
      | .setAck, .failed e => some (seg, .done (.error e))
      | pc, w =>
        (pc.step seg w).map fun (seg, next) =>
          (seg, if pc = .readyClient ∧ named = false then .done (.ok ()) else next.map .handshake)
  stores
    | .poll => none
    | .handshake pc => pc.stores
  calls
    | .handshake .waitReq | .handshake .setAck => true
    | _ => false

end

/-- The functions of a server that perform a handshake. -/
inductive ServerHandshake where
  | waitForClient (named : Bool)
  | doSlotHandshake
  deriving DecidableEq

/-- The server has events, as all servers of a `MultiServer` have. -/
def ServerHandshake.named : ServerHandshake → Bool
  | .waitForClient named => named
  | .doSlotHandshake => true

/-- Where the call begins. -/
def ServerHandshake.entry (f : ServerHandshake) (connected : Bool) : Next WaitCall :=
  if connected then .done (.error .alreadyConnected)
  else
    match f with
    | .waitForClient true => .goto (.handshake .waitReq)
    | .waitForClient false => .goto .poll
    | .doSlotHandshake => .goto (.handshake .loadClient)

section

variable (A B : Type*)

/-- Calls of `connect`. -/
def connectSystem (magic version : UInt32) : System (Call ConnectCall A B) (Label A B) :=
  (connectFunction A B magic version).system false (.goto .checkMagic)

/-- Calls of a function of a server. -/
def serverSystem (f : ServerHandshake) (connected : Bool) :
    System (Call WaitCall A B) (Label A B) :=
  (waitFunction A B f.named).system connected (f.entry connected)

end

section

variable {A B : Type*}

/-- `connect` leaves no `CLIENT_HELLO` behind. -/
def LeavesNoHello (s : Call ConnectCall A B) : Prop :=
  ∀ x ∈ helloWords, s.left x ≠ some handshakeClientHello

/-- The server is not connected, and leaves no `SERVER_READY` behind. -/
def LeavesNoReady (s : Call WaitCall A B) : Prop :=
  s.connected = false ∧
    ∀ x ∈ [HandshakeWord.server, .client], s.left x ≠ some handshakeServerReady

instance (s : Call ConnectCall A B) : Decidable (LeavesNoHello s) :=
  inferInstanceAs (Decidable (∀ x ∈ helloWords, _))

instance (s : Call WaitCall A B) : Decidable (LeavesNoReady s) :=
  inferInstanceAs (Decidable (_ ∧ ∀ x ∈ [HandshakeWord.server, .client], _))

/-! ### What has been stored at each program point -/

/-- What `connect` has stored last in the words when it comes to this point. -/
def ConnectCall.stored : ConnectCall → HandshakeWord → Option UInt32
  | .checkMagic, _ | .checkVersion, _ | .openEvents, _ | .handshake _, .server => none
  | .handshake .storeClient, _ | .handshake .storeB, .ringB => none
  | .handshake .storeA, .ringA | .handshake .storeA, .ringB => none
  | .handshake (.resetA _), .client | .handshake (.resetB _), .client => some handshakeIdle
  | .handshake (.resetB _), .ringA => some handshakeIdle
  | .handshake .readyB, .ringA => some handshakeServerReady
  | .handshake _, _ => some handshakeClientHello

/-- What a server has stored last in the words when it comes to this point of a handshake. -/
def WaitCall.stored : WaitCall → HandshakeWord → Option UInt32
  | .handshake (.resetB _), .ringA | .handshake (.storeGeneration _), .ringA
  | .handshake (.storeGeneration _), .ringB | .handshake .readyA, .ringA
  | .handshake .readyA, .ringB | .handshake .readyB, .ringB => some handshakeIdle
  | .handshake .readyB, .ringA | .handshake .readyServer, .ringA
  | .handshake .readyServer, .ringB | .handshake .readyClient, .ringA
  | .handshake .readyClient, .ringB | .handshake .readyClient, .server
  | .handshake .setAck, _ => some handshakeServerReady
  | _, _ => none

section

variable {magic version : UInt32} {seg : Segment A B} {w : WaitOutcome}

theorem connect_goto {pc pc' : ConnectCall} {seg' : Segment A B}
    (h : (connectFunction A B magic version).step seg w pc = some (seg', .goto pc')) :
    Store.note some pc.stored ((connectFunction A B magic version).stores pc) = pc'.stored ∧
      (connectFunction A B magic version).failure pc w = [] := by
  cases pc with
  | checkMagic | checkVersion =>
    simp only [connectFunction] at h
    split_ifs at h <;> cases h
    exact ⟨rfl, rfl⟩
  | openEvents =>
    cases w <;> cases h <;> exact ⟨funext fun x => by cases x <;> rfl, rfl⟩
  | handshake pc =>
    cases pc with
    | setReq =>
      cases w <;> cases h <;> exact ⟨funext fun x => by cases x <;> rfl, rfl⟩
    | waitAck =>
      cases w <;> simp only [connectFunction, Connect.step] at h
      case failed => cases h
      all_goals
        split_ifs at h <;> cases h
        exact ⟨funext fun x => by cases x <;> rfl, rfl⟩
    | loadServer =>
      simp only [connectFunction, Connect.step] at h
      split_ifs at h <;> cases h <;> exact ⟨funext fun x => by cases x <;> rfl, rfl⟩
    | resetB | readyB => cases h
    | _ =>
      cases h
      exact ⟨funext fun x => by cases x <;> rfl, rfl⟩

/-- An access that ends `connect` with an error leaves `CLIENT_HELLO` behind exactly when it is a
call after the stores that has failed. -/
theorem connect_error {pc : ConnectCall} {seg' : Segment A B} {e : ShmError}
    (h : (connectFunction A B magic version).step seg w pc = some (seg', .done (.error e))) :
    (∀ x ∈ helloWords, Store.note some pc.stored ((connectFunction A B magic version).stores pc) x ≠
      some handshakeClientHello) ↔
        .handshake .setReq ∉ (connectFunction A B magic version).failure pc w ∧
          .handshake .waitAck ∉ (connectFunction A B magic version).failure pc w := by
  cases pc with
  | checkMagic | checkVersion | openEvents =>
    refine iff_of_true (fun x _ => by rintro ⟨⟩) ⟨fun hmem => ?_, fun hmem => ?_⟩
    · cases EndFunction.eq_of_failure hmem
    · cases EndFunction.eq_of_failure hmem
  | handshake pc =>
    cases pc with
    | setReq =>
      cases w with
      | failed =>
        simp [helloWords, connectFunction, EndFunction.failure, Connect.stores, Store.note,
          ConnectCall.stored, WaitOutcome.isFailed]
      | _ => cases h
    | waitAck =>
      cases w <;> simp only [connectFunction, Connect.step] at h
      case failed =>
        simp [helloWords, connectFunction, EndFunction.failure, Connect.stores, Store.note,
          ConnectCall.stored, WaitOutcome.isFailed]
      all_goals split_ifs at h <;> cases h
    | resetB =>
      simp [helloWords, connectFunction, EndFunction.failure, Connect.stores, Store.note,
        ConnectCall.stored, handshakeIdle, handshakeClientHello]
    | loadServer =>
      simp only [connectFunction, Connect.step] at h
      split_ifs at h <;> cases h
    | _ => cases h

theorem wait_goto {named : Bool} {pc pc' : WaitCall} {seg' : Segment A B}
    (h : (waitFunction A B named).step seg w pc = some (seg', .goto pc')) :
    Store.note some pc.stored ((waitFunction A B named).stores pc) = pc'.stored ∧
      (waitFunction A B named).failure pc w = [] := by
  cases pc with
  | poll =>
    simp only [waitFunction] at h
    split_ifs at h
    · cases h
      exact ⟨rfl, rfl⟩
    · cases w <;> cases h <;> exact ⟨rfl, rfl⟩
  | handshake pc =>
    cases pc with
    | waitReq =>
      cases w <;> simp only [waitFunction, WaitForClient.step, reduceCtorEq, false_and,
        if_false] at h
      case failed => cases h
      case timeout => split_ifs at h <;> cases h
      case signalled =>
        split_ifs at h <;> cases h
        exact ⟨rfl, rfl⟩
    | loadClient =>
      simp only [waitFunction, WaitForClient.step, reduceCtorEq, false_and, if_false] at h
      split_ifs at h <;> cases h
      exact ⟨rfl, rfl⟩
    | readyClient =>
      cases named <;> cases h
      exact ⟨funext fun x => by cases x <;> rfl, rfl⟩
    | setAck => cases w <;> cases h
    | _ =>
      cases h
      exact ⟨funext fun x => by cases x <;> rfl, rfl⟩

/-- An access that ends a handshake of a server with an error leaves `SERVER_READY` behind exactly
when it is `connect_ack.set`. -/
theorem wait_error {named : Bool} {pc : WaitCall} {seg' : Segment A B} {e : ShmError}
    (h : (waitFunction A B named).step seg w pc = some (seg', .done (.error e))) :
    (∀ x ∈ [HandshakeWord.server, .client],
      Store.note some pc.stored ((waitFunction A B named).stores pc) x ≠
        some handshakeServerReady) ↔
      .handshake .setAck ∉ (waitFunction A B named).failure pc w := by
  cases pc with
  | poll =>
    exact iff_of_true (fun x _ => by rintro ⟨⟩) fun hmem => by cases EndFunction.eq_of_failure hmem
  | handshake pc =>
    cases pc with
    | waitReq | loadClient =>
      exact iff_of_true (fun x _ => by rintro ⟨⟩) fun hmem => by
        cases EndFunction.eq_of_failure hmem
    | readyClient => cases named <;> cases h
    | setAck =>
      cases w with
      | failed =>
        refine iff_of_false (fun hleft => hleft .server List.mem_cons_self rfl) ?_
        simp [waitFunction, EndFunction.failure, WaitOutcome.isFailed]
      | _ => cases h
    | _ => cases h

end

/-! ### The words -/

theorem connect_word {magic version : UInt32} {seg : Segment A B} {w : WaitOutcome}
    {pc : ConnectCall} {r : Segment A B × Next ConnectCall}
    (h : (connectFunction A B magic version).step seg w pc = some r) :
    r.1.word = Store.note id seg.word ((connectFunction A B magic version).stores pc) := by
  cases pc with
  | checkMagic | checkVersion =>
    cases h
    rfl
  | openEvents => cases w <;> cases h <;> rfl
  | handshake pc =>
    simp only [connectFunction] at h
    split at h
    · cases h
      rfl
    · obtain ⟨r, hr, rfl⟩ := Option.map_eq_some_iff.1 h
      exact Connect.step_word hr

theorem wait_word {named : Bool} {seg : Segment A B} {w : WaitOutcome} {pc : WaitCall}
    {r : Segment A B × Next WaitCall} (h : (waitFunction A B named).step seg w pc = some r) :
    r.1.word = Store.note id seg.word ((waitFunction A B named).stores pc) := by
  cases pc with
  | poll =>
    simp only [waitFunction] at h
    split_ifs at h
    · cases h
      rfl
    · cases w <;> cases h <;> rfl
  | handshake pc =>
    simp only [waitFunction] at h
    split at h
    · cases h
      rfl
    · obtain ⟨r, hr, rfl⟩ := Option.map_eq_some_iff.1 h
      exact WaitForClient.step_word hr

/-- The call makes the next access. -/
def Label.isAccess : Label A B → Bool
  | .access _ => true
  | .other _ => false

/-- What is recorded is in the words, if the other end does nothing. -/
theorem EndFunction.word_of_left {P : Type*} {f : EndFunction P A B}
    (hword : ∀ seg w pc r, f.step seg w pc = some r →
      r.1.word = Store.note id seg.word (f.stores pc))
    {connected : Bool} {entry : Next P} {s : Call P A B}
    (h : (f.system connected entry).ReachWhen (fun _ l => l.isAccess = true) s) :
    ∀ x v, s.left x = some v → s.seg.word x = v := by
  refine System.ReachWhen.invariant
    (I := fun s : Call P A B => ∀ x v, s.left x = some v → s.seg.word x = v) ?_ ?_ h
  · intro s hs
    rw [hs]
    rintro x v ⟨⟩
  · intro s l s' hinv hl hst x v
    cases l with
    | other seg => cases hl
    | access w =>
      simp only [EndFunction.system, EndFunction.access] at hst
      cases hnext : s.next with
      | done res =>
        rw [hnext] at hst
        cases hst
      | goto pc =>
        simp only [hnext] at hst
        obtain ⟨r, hstep, rfl⟩ := Option.map_eq_some_iff.1 hst
        have hr := hword _ _ _ _ hstep
        simp only
        rw [hr]
        cases hstores : f.stores pc with
        | none => exact hinv x v
        | some p =>
          simp only [Store.note, Function.update_apply]
          split_ifs
          · exact Option.some.inj
          · exact hinv x v

/-- What `connect` has stored last is in the words when it returns. -/
theorem connect_word_of_left {magic version : UInt32} {s : Call ConnectCall A B}
    (h : (connectSystem A B magic version).ReachWhen (fun _ l => l.isAccess = true) s) :
    ∀ x v, s.left x = some v → s.seg.word x = v :=
  EndFunction.word_of_left (fun _ _ _ _ => connect_word) h

/-- What the server has stored last is in the words when it returns. -/
theorem wait_word_of_left {f : ServerHandshake} {connected : Bool} {s : Call WaitCall A B}
    (h : (serverSystem A B f connected).ReachWhen (fun _ l => l.isAccess = true) s) :
    ∀ x v, s.left x = some v → s.seg.word x = v :=
  EndFunction.word_of_left (fun _ _ _ _ => wait_word) h

/-! ### What is left behind -/

theorem left_of_alreadyConnected {f : ServerHandshake} {s : Call WaitCall A B}
    (h : (serverSystem A B f true).Reach s) : s.connected = true := by
  have hinv : s.connected = true ∧ s.next = .done (.error .alreadyConnected) := by
    refine System.ReachWhen.invariant (I := fun s : Call WaitCall A B =>
      s.connected = true ∧ s.next = .done (.error .alreadyConnected)) ?_ ?_ h
    · intro s hs
      rw [hs]
      exact ⟨rfl, rfl⟩
    · rintro s l s' ⟨hcon, hnext⟩ - hst
      cases l with
      | other seg =>
        cases hst
        exact ⟨hcon, hnext⟩
      | access w =>
        simp only [serverSystem, EndFunction.system, EndFunction.access, hnext] at hst
        cases hst
  exact hinv.1

theorem ServerHandshake.entry_of_not_connected (f : ServerHandshake) :
    ∃ pc, f.entry false = .goto pc ∧ pc.stored = fun _ => none := by
  rcases f with (_ | _) | _ <;> exact ⟨_, rfl, funext fun _ => rfl⟩

/-- **Failed handshakes leave nothing behind**, exactly when no call after the stores has failed
and, for a server, it was not connected before. -/
theorem leavesNothing_iff (A B : Type*) :
    (∀ magic version (s : Call ConnectCall A B) e, (connectSystem A B magic version).Reach s →
      s.next = .done (.error e) →
        (LeavesNoHello s ↔
          .handshake .setReq ∉ s.failed ∧ .handshake .waitAck ∉ s.failed)) ∧
    ∀ (f : ServerHandshake) connected (s : Call WaitCall A B) e,
      (serverSystem A B f connected).Reach s → s.next = .done (.error e) →
        (LeavesNoReady s ↔ connected = false ∧ .handshake .setAck ∉ s.failed) := by
  constructor
  · intro magic version s e h hnext
    have hf := EndFunction.follows ConnectCall.stored
      (fun res left failed => ∀ e, res = .error e →
        ((∀ x ∈ helloWords, left x ≠ some handshakeClientHello) ↔
          .handshake .setReq ∉ failed ∧ .handshake .waitAck ∉ failed))
      (fun _ _ _ _ _ => connect_goto) (by rintro _ _ _ _ _ hst e rfl; exact connect_error hst)
      (funext fun _ => rfl) h
    exact hf.2.2 _ hnext e rfl
  · intro f connected s e h hnext
    cases connected with
    | true =>
      have hcon := left_of_alreadyConnected h
      exact iff_of_false (fun hleft => by cases hleft.1.symm.trans hcon) (by rintro ⟨⟨⟩, -⟩)
    | false =>
      obtain ⟨pc, hentry, hstored⟩ := f.entry_of_not_connected
      rw [serverSystem, hentry] at h
      have hf := EndFunction.follows WaitCall.stored
        (fun res left failed => ∀ e, res = .error e →
          ((∀ x ∈ [HandshakeWord.server, .client], left x ≠ some handshakeServerReady) ↔
            .handshake .setAck ∉ failed))
        (fun _ _ _ _ _ => wait_goto) (by rintro _ _ _ _ _ hst e rfl; exact wait_error hst)
        hstored h
      have hcon : s.connected = false := hf.1.trans (by rw [hnext]; rfl)
      exact and_congr (iff_of_true hcon rfl) (hf.2.2 _ hnext e rfl)

/-- `connect` gives up when the server does not answer in time. -/
def timedOut : List (Label Unit Unit) :=
  List.replicate 7 (.access .signalled) ++ .access .timeout ::
    List.replicate 3 (.access .signalled)

/-- The outcome of a call that cannot signal. -/
def cannotSet : WaitOutcome := .failed (.windowsError 0xC0000008 "NtSetEvent")

/-- `connect_req.set` fails. -/
def cannotRequest : List (Label Unit Unit) :=
  List.replicate 6 (.access .signalled) ++ [.access cannotSet]

/-- `connect_ack.set` fails in `do_slot_handshake`. -/
def cannotAnswer : List (Label Unit Unit) :=
  .other { clientState := handshakeClientHello } :: List.replicate 9 (.access .signalled) ++
    [.access cannotSet]

theorem leavesNothing_iff_timedOut : ∃ s : Call ConnectCall Unit Unit,
    s.next = .done (.error .timeout) ∧ LeavesNoHello s := by
  obtain ⟨s, h, hs⟩ := System.exists_reachWhen
    (A := connectSystem Unit Unit sharedMagic sharedVersion) (C := fun _ _ => True)
    (s := { seg := {}, connected := false, next := .goto .checkMagic }) (r := timedOut)
    (f := fun s => (s.next.error, s.failed)) (t := (some .timeout, [])) rfl (by decide +kernel)
  simp only [Prod.mk.injEq] at hs
  have hnext := Next.eq_of_error hs.1
  refine ⟨s, hnext, ((leavesNothing_iff Unit Unit).1 _ _ s _ h hnext).2 ?_⟩
  rw [hs.2]
  decide

/-- Both ends leave their words behind when a signal fails. -/
theorem not_leavesNothing :
    (¬ ∀ (A B : Type) magic version (s : Call ConnectCall A B) e,
      (connectSystem A B magic version).Reach s → s.next = .done (.error e) → LeavesNoHello s) ∧
    ¬ ∀ (A B : Type) f (s : Call WaitCall A B) e, (serverSystem A B f false).Reach s →
      s.next = .done (.error e) → LeavesNoReady s := by
  constructor
  · intro h
    obtain ⟨s, hr, hs⟩ := System.exists_reachWhen
      (A := connectSystem Unit Unit sharedMagic sharedVersion) (C := fun _ _ => True)
      (s := { seg := {}, connected := false, next := .goto .checkMagic }) (r := cannotRequest)
      (f := fun s => (s.next.error.isSome, decide (LeavesNoHello s))) (t := (true, false)) rfl
      (by decide +kernel)
    simp only [Prod.mk.injEq, decide_eq_false_iff_not, Option.isSome_iff_exists] at hs
    obtain ⟨⟨e, he⟩, hnot⟩ := hs
    exact hnot (h Unit Unit _ _ s e hr (Next.eq_of_error he))
  · intro h
    obtain ⟨s, hr, hs⟩ := System.exists_reachWhen
      (A := serverSystem Unit Unit .doSlotHandshake false) (C := fun _ _ => True)
      (s := { seg := {}, connected := false, next := .goto (.handshake .loadClient) })
      (r := cannotAnswer) (f := fun s => (s.next.error.isSome, decide (LeavesNoReady s)))
      (t := (true, false)) rfl (by decide +kernel)
    simp only [Prod.mk.injEq, decide_eq_false_iff_not, Option.isSome_iff_exists] at hs
    obtain ⟨⟨e, he⟩, hnot⟩ := hs
    exact hnot (h Unit Unit _ s e hr (Next.eq_of_error he))

end

end HandshakeErrors

end Xshm
