import Xshm.Auto.Arrival
import Xshm.Sending.Worker

/-!
# The passes of an auto-mode worker

A pass of the connected loop takes the commands of the application from the channel
(`drain_commands`) and writes its send queue to the other ring (`process_send_queue`) before it
receives.  The loop of `drain_commands` ends only at an empty channel, so that an application which
keeps sending can hold the worker up for ever; and a call of `write_message` on the other ring must
return (`RingState.writer_waitFree`).  Here the worker of `Xshm.Auto.Wakeup` makes these passes.
What a write returns, and when, is left open.

* `Passing.arrives` : every message arrives, if the application stops at some time.  The commands
  and the send queue are a budget of the pass, which no other step raises (`Passing.left`).
-/

namespace Xshm

namespace Wakeup

open Sending (Command Outbox Sent)

/-- What a pass does before it receives. -/
inductive Pass where
  | drainCommands
  | processSendQueue
  /-- In `write`, on the other ring. -/
  | write
  deriving DecidableEq

/-- A worker and its peer with the commands of the application. -/
structure Passing where
  base : State
  pass : Option Pass := none
  channel : List Command := []
  box : Outbox Sent := {}

/-- Who moves. -/
inductive PassingLabel where
  /-- The application puts a command into the channel. -/
  | command (c : Command)
  /-- The peer, a handshake, the end of a `wait_any`, and the `drop` of the handle. -/
  | base (l : Label)
  /-- `wait_for_client` fails. -/
  | noClient
  /-- The next access of the worker. -/
  | worker
  /-- `write` returns. -/
  | wrote (result : Except ShmError WriteOutcome)

namespace Passing

/-- A pass begins when `running` has been found set, and in the server also after its handshake. -/
def begins (side : Side) (s : State) : Label → Bool
  | .worker => s.worker = .head && s.running
  | .enter => side = .server
  | _ => false

/-- A step of the worker outside the loops of the pass, or of the others. -/
def baseStep (side : Side) (recvBatch : ℕ) (s : Passing) (l : Label) : Option Passing :=
  (s.base.step side recvBatch l).map fun b =>
    { s with base := b, pass := if begins side s.base l then some .drainCommands else s.pass }

/-- The next access of the worker. -/
def workerStep (side : Side) (recvBatch maxSendQueue : ℕ) (s : Passing) : Option Passing :=
  match s.pass with
  | none => s.baseStep side recvBatch .worker
  | some .drainCommands =>
    match s.channel with
    | [] =>
      -- without a client the pass is over
      some { s with pass := if s.base.worker = .away then none else some .processSendQueue }
    | .send msg :: channel => some { s with channel := channel, box := s.box.push maxSendQueue msg }
    | .shutdown :: channel =>
      some { s with channel := channel, base := { s.base with running := false } }
  | some .processSendQueue =>
    some { s with pass := if s.box.queue = [] then none else some .write }
  | some .write => none

/-- One step. -/
def step (side : Side) (recvBatch maxSendQueue : ℕ) (s : Passing) :
    PassingLabel → Option Passing
  | .command c => some { s with channel := s.channel ++ [c] }
  | .base l =>
    match l with
    | .worker => none
    -- the handshake is not part of the pass
    | .reset _ | .enter => if s.pass = none then s.baseStep side recvBatch l else none
    | .send _ | .peer | .wake _ | .stop => s.baseStep side recvBatch l
  | .noClient =>
    if side = .server ∧ s.base.worker = .away ∧ s.pass = none then
      some { s with pass := some .drainCommands }
    else none
  | .worker => s.workerStep side recvBatch maxSendQueue
  | .wrote result =>
    if s.pass = some .write then
      let (box, goesOn) := s.box.popAndSend result
      some { s with box := box, pass := if goesOn then some .processSendQueue else none }
    else none

end Passing

/-- The worker, its peer and its application, from a reset ring. -/
def passingSystem (side : Side) (recvBatch maxSendQueue : ℕ) : System Passing PassingLabel where
  init s := ∃ b, (wakeupSystem side recvBatch).init b ∧ s = { base := b }
  step := Passing.step side recvBatch maxSendQueue

/-! ### What the base does -/

section Base

variable {side : Side} {recvBatch maxSendQueue : ℕ} {s s' : Passing}

/-- Outside of its own steps, a handshake and a wait the worker stays where it is. -/
theorem worker_of_step {b b' : State} {l : Label} (hst : b.step side recvBatch l = some b')
    (hl : l ≠ .worker) (henter : l ≠ .enter) (hw : b.worker ≠ .waitAny) :
    b'.worker = b.worker := by
  cases l with
  | worker => exact absurd rfl hl
  | enter => exact absurd rfl henter
  | send p =>
    rw [State.step] at hst
    split at hst
    · obtain ⟨r, -, rfl⟩ := Option.map_eq_some_iff.1 hst
      rfl
    · cases hst
  | peer =>
    rw [State.step] at hst
    split at hst
    · cases hst
    · obtain ⟨r, -, rfl⟩ := Option.map_eq_some_iff.1 hst
      rfl
    · cases hst
      rfl
  | reset generation =>
    rw [State.step] at hst
    split_ifs at hst
    cases hst
    rfl
  | wake w =>
    rw [State.step] at hst
    split at hst
    case h_1 hwait => exact absurd hwait hw
    case h_2 => cases hst
  | stop =>
    cases hst
    rfl

namespace Passing

/-- What a step does. -/
inductive Move (side : Side) (recvBatch maxSendQueue : ℕ) (s : Passing) :
    PassingLabel → Passing → Prop
  | command (c : Command) :
      Move side recvBatch maxSendQueue s (.command c) { s with channel := s.channel ++ [c] }
  /-- A step of the base that begins no pass. -/
  | base {l : Label} {b : State} (hst : s.base.step side recvBatch l = some b)
      (hl : l ≠ .worker) (henter : l ≠ .enter) :
      Move side recvBatch maxSendQueue s (.base l) { s with base := b }
  | enter {b : State} {pass : Option Pass} (hst : s.base.step side recvBatch .enter = some b)
      (hp : pass = none ∨ side = .server) :
      Move side recvBatch maxSendQueue s (.base .enter) { s with base := b, pass := pass }
  | worker {b : State} (hp : s.pass = none) (hst : s.base.step side recvBatch .worker = some b)
      (hb : ¬ (s.base.worker = .head ∧ s.base.running = true)) :
      Move side recvBatch maxSendQueue s .worker { s with base := b }
  | begins {b : State} (hp : s.pass = none)
      (hst : s.base.step side recvBatch .worker = some b)
      (hw : b.worker = .receive (max recvBatch 1)) :
      Move side recvBatch maxSendQueue s .worker { s with base := b, pass := some .drainCommands }
  | noClient (haway : s.base.worker = .away) :
      Move side recvBatch maxSendQueue s .noClient { s with pass := some .drainCommands }
  | drained {pass : Option Pass} (hp : s.pass = some .drainCommands) (hc : s.channel = [])
      (hpass : pass = none ∧ s.base.worker = .away ∨ pass = some .processSendQueue) :
      Move side recvBatch maxSendQueue s .worker { s with pass := pass }
  | takes {msg : Sent} {channel : List Command} (hp : s.pass = some .drainCommands)
      (hc : s.channel = .send msg :: channel) : Move side recvBatch maxSendQueue s .worker
        { s with channel := channel, box := s.box.push maxSendQueue msg }
  | shutdown {channel : List Command} (hp : s.pass = some .drainCommands)
      (hc : s.channel = .shutdown :: channel) : Move side recvBatch maxSendQueue s .worker
        { s with channel := channel, base := { s.base with running := false } }
  | sent (hp : s.pass = some .processSendQueue) (hq : s.box.queue = []) :
      Move side recvBatch maxSendQueue s .worker { s with pass := none }
  | writes (hp : s.pass = some .processSendQueue) (hq : s.box.queue ≠ []) :
      Move side recvBatch maxSendQueue s .worker { s with pass := some .write }
  | wrote {result : Except ShmError WriteOutcome} (hp : s.pass = some .write) :
      Move side recvBatch maxSendQueue s (.wrote result)
        { s with box := (s.box.popAndSend result).1
                 pass := if (s.box.popAndSend result).2 then some .processSendQueue else none }

theorem step_move {l : PassingLabel} (hst : s.step side recvBatch maxSendQueue l = some s') :
    Move side recvBatch maxSendQueue s l s' := by
  cases l with
  | command c =>
    cases hst
    exact .command c
  | base l =>
    cases l with
    | worker => cases hst
    | enter =>
      rw [step, Option.ite_none_right_eq_some] at hst
      obtain ⟨hp, hst⟩ := hst
      obtain ⟨b, hb, rfl⟩ := Option.map_eq_some_iff.1 hst
      refine .enter hb ?_
      cases side
      · exact .inr rfl
      · exact .inl hp
    | reset generation =>
      rw [step, Option.ite_none_right_eq_some] at hst
      obtain ⟨b, hb, rfl⟩ := Option.map_eq_some_iff.1 hst.2
      exact .base hb (by rintro ⟨⟩) (by rintro ⟨⟩)
    | send | peer | wake | stop =>
      change s.baseStep side recvBatch _ = some s' at hst
      obtain ⟨b, hb, rfl⟩ := Option.map_eq_some_iff.1 hst
      exact .base hb (by rintro ⟨⟩) (by rintro ⟨⟩)
  | noClient =>
    rw [step, Option.ite_none_right_eq_some] at hst
    obtain ⟨⟨-, haway, -⟩, hst⟩ := hst
    cases hst
    exact .noClient haway
  | wrote result =>
    rw [step, Option.ite_none_right_eq_some] at hst
    obtain ⟨hp, hst⟩ := hst
    cases hst
    exact .wrote hp
  | worker =>
    rw [step, workerStep] at hst
    cases hp : s.pass with
    | none =>
      simp only [hp] at hst
      obtain ⟨b, hb, rfl⟩ := Option.map_eq_some_iff.1 hst
      by_cases hbegins : s.base.worker = .head ∧ s.base.running = true
      · have hif : begins side s.base .worker = true := by simp [begins, hbegins]
        rw [if_pos hif]
        refine .begins hp hb ?_
        simp only [State.step, State.workerStep, hbegins.1, hbegins.2, if_true] at hb
        cases hb
        rfl
      · have hif : ¬ begins side s.base .worker = true := by simpa [begins] using hbegins
        rw [if_neg hif]
        exact .worker hp hb hbegins
    | some p =>
      obtain ⟨base, pass, channel, box⟩ := s
      cases hp
      cases p with
      | drainCommands =>
        cases channel with
        | nil =>
          cases hst
          refine .drained rfl rfl ?_
          split_ifs with haway
          · exact .inl ⟨rfl, haway⟩
          · exact .inr rfl
        | cons c channel =>
          cases c with
          | send msg =>
            cases hst
            exact .takes rfl rfl
          | shutdown =>
            cases hst
            exact .shutdown rfl rfl
      | processSendQueue =>
        cases hst
        by_cases hq : box.queue = []
        · rw [if_pos hq]
          exact .sent rfl hq
        · rw [if_neg hq]
          exact .writes rfl hq
      | write => cases hst

/-- The base makes a step of its own, or none. -/
theorem base_of_step {l : PassingLabel} (hst : s.step side recvBatch maxSendQueue l = some s') :
    s'.base = s.base ∨ ∃ l', s.base.step side recvBatch l' = some s'.base := by
  cases step_move hst with
  | base hb => exact .inr ⟨_, hb⟩
  | enter hb => exact .inr ⟨_, hb⟩
  | worker _ hb => exact .inr ⟨_, hb⟩
  | begins _ hb => exact .inr ⟨_, hb⟩
  | shutdown => exact .inr ⟨.stop, rfl⟩
  | _ => exact .inl rfl

theorem base_reach (h : (passingSystem side recvBatch maxSendQueue).Reach s) :
    (wakeupSystem side recvBatch).Reach s.base := by
  refine h.invariant (I := fun s => (wakeupSystem side recvBatch).Reach s.base) ?_ ?_
  · rintro s ⟨b, hb, rfl⟩
    exact .init hb
  · intro s l s' hs _ hst
    rcases base_of_step hst with hsame | ⟨l', hb⟩
    · exact hsame ▸ hs
    · exact hs.step hb

end Passing

end Base

/-! ### The end of a pass -/

namespace Passing

/-- The steps that the channel and the queue are good for. -/
def load (s : Passing) : ℕ := 3 * s.channel.length + 2 * s.box.queue.length

/-- The steps to the end of the pass. -/
def left (s : Passing) : ℕ :=
  match s.pass with
  | none => 0
  | some .write => s.load + 1
  | some .processSendQueue => s.load + 2
  | some .drainCommands => s.load + 3

/-- A pass is made outside the waits of the base. -/
def PassOk (s : Passing) : Prop :=
  s.pass ≠ none → (∃ left, s.base.worker = .receive left) ∨ s.base.worker = .away

section

variable {side : Side} {recvBatch maxSendQueue : ℕ} {s s' : Passing}

theorem left_le (s : Passing) : s.left ≤ s.load + 3 := by
  rw [left]
  split <;> omega

theorem PassOk.step (h : s.PassOk) {l : PassingLabel}
    (hst : s.step side recvBatch maxSendQueue l = some s') : s'.PassOk := by
  have hwait (hp : s.pass ≠ none) : s.base.worker ≠ .waitAny := by
    rintro hw
    rcases h hp with ⟨left, hleft⟩ | haway
    · cases hw.symm.trans hleft
    · cases hw.symm.trans haway
  cases step_move hst with
  | command c => exact h
  | base hb hl henter =>
    intro hp
    rw [worker_of_step hb hl henter (hwait hp)]
    exact h hp
  | enter hb hpass =>
    intro hp
    refine .inl ?_
    obtain rfl : side = .server := hpass.resolve_left hp
    rw [State.step] at hb
    split_ifs at hb
    cases hb
    exact ⟨_, rfl⟩
  | worker hp => exact fun hne => absurd hp hne
  | begins _ _ hw => exact fun _ => .inl ⟨_, hw⟩
  | noClient haway => exact fun _ => .inr haway
  | drained hp _ _ => exact fun _ => h (by rw [hp]; exact Option.some_ne_none _)
  | takes => exact h
  | shutdown => exact h
  | sent => exact fun hne => absurd rfl hne
  | writes hp => exact fun _ => h (by rw [hp]; exact Option.some_ne_none _)
  | wrote hp => exact fun _ => h (by rw [hp]; exact Option.some_ne_none _)

theorem length_push_le (maxSendQueue : ℕ) (b : Outbox Sent) (msg : Sent) :
    (b.push maxSendQueue msg).queue.length ≤ b.queue.length + 1 := by
  rw [Outbox.push]
  split_ifs
  · simp only [List.length_append, List.length_tail, List.length_singleton]
    omega
  · simp only [List.length_append, List.length_singleton, le_refl]

/-- A message that is written leaves the queue; another one ends the pass. -/
theorem popAndSend_cases {b : Outbox Sent} (result : Except ShmError WriteOutcome) :
    (b.popAndSend result).1.queue.length ≤ b.queue.length ∧
      ((b.popAndSend result).2 = true →
        (b.popAndSend result).1.queue.length < b.queue.length) := by
  obtain ⟨queue, n, m, calls, written, evicted, k⟩ := b
  cases queue with
  | nil => exact ⟨le_rfl, by rintro ⟨⟩⟩
  | cons msg queue =>
    cases result with
    | ok o => exact ⟨Nat.le_succ _, fun _ => Nat.lt_succ_self _⟩
    | error e => cases e <;> exact ⟨le_rfl, by rintro ⟨⟩⟩

/-- The label is not a command of the application. -/
def Quiet : PassingLabel → Prop
  | .command _ => False
  | _ => True

instance : DecidablePred Quiet
  | .command _ => .isFalse id
  | .base _ | .noClient | .worker | .wrote _ => .isTrue trivial

/-- Only the application adds to the load. -/
theorem load_le {l : PassingLabel} (hl : Quiet l)
    (hst : s.step side recvBatch maxSendQueue l = some s') : s'.load ≤ s.load := by
  cases step_move hst with
  | command c => exact hl.elim
  | @takes msg channel hp hc =>
    have := length_push_le maxSendQueue s.box msg
    simp only [load, hc, List.length_cons]
    omega
  | @shutdown channel hp hc =>
    simp only [load, hc, List.length_cons]
    omega
  | wrote hp =>
    have := (popAndSend_cases (b := s.box) ‹_›).1
    simp only [load]
    omega
  | _ => exact le_rfl

end

/-! ### Every step brings the next message nearer -/

/-- Who has to move next: the ring into which the worker writes, the worker in its pass, or who has
to in the base. -/
inductive Mover where
  | thread (t : Thread)
  | write
  deriving DecidableEq

/-- The steps of a thread.  The other ring moves when it lets a `write` return. -/
def of : Mover → PassingLabel → Prop
  | .thread t, .base l => l.of t
  | .thread .worker, .worker => True
  | .write, .wrote _ => True
  | _, _ => False

def helpful (s : Passing) : Mover :=
  match s.pass with
  | none => .thread s.base.helpful
  | some .write => .write
  | some _ => .thread .worker

/-- What is left until `target` reads have succeeded, if no pass begins with a load above `bound`.
-/
def leftToArrive (bound target : ℕ) (s : Passing) : ℕ :=
  (bound + 4) * s.base.leftToArrive target + s.left

/-- What holds while the messages are on their way and the application is quiet. -/
structure OnTheWay (bound : ℕ) (frames : List Payload) (s : Passing) : Prop where
  base : Arriving frames s.base
  pass : s.PassOk
  load : s.load ≤ bound

section

variable {side : Side} {recvBatch maxSendQueue bound : ℕ} {frames : List Payload}
  {s s' : Passing}

theorem Arriving.of_step (h : Arriving frames s.base) (hn : ¬ s.base.Arrived frames)
    {l : PassingLabel} (hst : s.step side recvBatch maxSendQueue l = some s') :
    Arriving frames s'.base := by
  rcases base_of_step hst with hsame | ⟨l', hb⟩
  · exact hsame ▸ h
  · exact h.step hn hb

theorem OnTheWay.step (h : OnTheWay bound frames s) (hn : ¬ s.base.Arrived frames)
    {l : PassingLabel} (hl : Quiet l)
    (hst : s.step side recvBatch maxSendQueue l = some s') : OnTheWay bound frames s' :=
  ⟨Arriving.of_step h.base hn hst, h.pass.step hst, (load_le hl hst).trans h.load⟩

/-- The goal, for messages that are already stored. -/
abbrev HelpsArrive (bound : ℕ) (frames : List Payload) :
    Passing → PassingLabel → Passing → Prop :=
  System.Execution.Helps of (fun s => s.base.Arrived frames) helpful
    (leftToArrive bound frames.length)

/-- The way in the base is shorter; a pass that begins costs less. -/
theorem helps_of_base_lt {l : PassingLabel} (hload : s'.load ≤ bound)
    (hlt : s'.base.leftToArrive frames.length < s.base.leftToArrive frames.length) :
    HelpsArrive bound frames s l s' := by
  refine .lowers ?_
  have hmul : (bound + 4) * (s'.base.leftToArrive frames.length + 1) ≤
      (bound + 4) * s.base.leftToArrive frames.length := Nat.mul_le_mul_left _ hlt
  have hleft := s'.left_le
  rw [leftToArrive, leftToArrive]
  rw [Nat.mul_add, Nat.mul_one] at hmul
  omega

/-- The pass is nearer to its end. -/
theorem helps_of_left_lt {l : PassingLabel}
    (hbase : s'.base.leftToArrive frames.length = s.base.leftToArrive frames.length)
    (hlt : s'.left < s.left) : HelpsArrive bound frames s l s' := by
  refine .lowers ?_
  rw [leftToArrive, leftToArrive, hbase]
  exact Nat.add_lt_add_left hlt _

theorem PassOk.helpful (h : s.PassOk) (hp : s.pass ≠ none) : s.base.helpful = .worker := by
  refine if_neg fun hw => ?_
  rcases h hp with ⟨left, hleft⟩ | haway
  · cases hw.1.symm.trans hleft
  · cases hw.1.symm.trans haway

/-- Another thread moves in the base. -/
theorem helps_of_base (h : OnTheWay bound frames s) {l : Label} {b : State}
    (hb : Wakeup.HelpsArrive frames s.base l b) :
    HelpsArrive bound frames s (.base l) { s with base := b } := by
  cases hb with
  | done hd => exact .done hd
  | lowers hlt => exact helps_of_base_lt h.load hlt
  | keeps hμ hh hno =>
    refine .keeps ?_ ?_ ?_
    · change (bound + 4) * b.leftToArrive frames.length + s.left = _
      rw [hμ]
      rfl
    · cases hp : s.pass with
      | none => simp only [helpful, hp, hh]
      | some p => cases p <;> simp only [helpful, hp]
    · rw [helpful]
      cases hp : s.pass with
      | none => exact hno
      | some p =>
        rw [h.pass.helpful (by rw [hp]; exact Option.some_ne_none p)] at hno
        cases p with
        | write => exact id
        | _ => exact hno

/-- **Every step brings the next message nearer**, or leaves the way to it as it is. -/
theorem helps (h : OnTheWay bound frames s) (hn : ¬ s.base.Arrived frames) {l : PassingLabel}
    (hl : Quiet l) (hst : s.step side recvBatch maxSendQueue l = some s') :
    HelpsArrive bound frames s l s' := by
  have hload := (load_le hl hst).trans h.load
  have hconn : s.base.worker ≠ .away := by
    rintro haway
    exact hn (.inr (.inl (by rw [haway]; rfl)))
  -- the worker itself is never in its own way
  have own {b : State} (hb : s.base.step side recvBatch .worker = some b) (hs' : s'.base = b) :
      HelpsArrive bound frames s l s' := by
    subst hs'
    cases Wakeup.helps h.base hn hb with
    | done hd => exact .done hd
    | lowers hlt => exact helps_of_base_lt hload hlt
    | keeps _ _ hno =>
      cases hh : s.base.helpful with
      | worker => exact absurd (hh ▸ trivial) hno
      | peer =>
        have hw := (h.base.signalling hn hh).1
        rw [State.step, State.workerStep, hw] at hb
        cases hb
  cases step_move hst with
  | command c => exact hl.elim
  | base hb => exact helps_of_base h (Wakeup.helps h.base hn hb)
  | enter hb =>
    rw [State.step] at hb
    split_ifs at hb with haway
    exact absurd haway hconn
  | worker _ hb => exact own hb rfl
  | begins _ hb => exact own hb rfl
  | noClient haway => exact absurd haway hconn
  | drained hp hc hpass =>
    rcases hpass with ⟨-, haway⟩ | rfl
    · exact absurd haway hconn
    · refine helps_of_left_lt rfl ?_
      simp [left, hp, load]
  | @takes msg channel hp hc =>
    have := length_push_le maxSendQueue s.box msg
    refine helps_of_left_lt rfl ?_
    simp only [left, hp, load, hc, List.length_cons]
    omega
  | @shutdown channel hp hc =>
    refine helps_of_left_lt rfl ?_
    simp only [left, hp, load, hc, List.length_cons]
    omega
  | sent hp =>
    refine helps_of_left_lt rfl ?_
    simp [left, hp]
  | writes hp =>
    refine helps_of_left_lt rfl ?_
    simp [left, hp, load]
  | @wrote result hp =>
    obtain ⟨hle, hlt⟩ := popAndSend_cases (b := s.box) result
    refine helps_of_left_lt rfl ?_
    cases hgo : (s.box.popAndSend result).2 with
    | false => simp [left, hp]
    | true =>
      have := hlt hgo
      simp only [left, hp, if_true, load]
      omega

/-- The one that has to move next can. -/
theorem helpful_enabled (h : OnTheWay bound frames s) (hn : ¬ s.base.Arrived frames) :
    (passingSystem side recvBatch maxSendQueue).Enabled (of s.helpful) s := by
  cases hp : s.pass with
  | none =>
    obtain ⟨l, hof, hsome⟩ :
        (wakeupSystem side recvBatch).Enabled (Label.of s.base.helpful) s.base :=
      Wakeup.helpful_enabled h.base hn
    change (s.base.step side recvBatch l).isSome at hsome
    rw [helpful, hp]
    by_cases hl : l = .worker
    · subst hl
      refine ⟨.worker, ?_, ?_⟩
      · generalize s.base.helpful = t at hof
        cases t <;> exact hof
      · change (s.workerStep side recvBatch maxSendQueue).isSome
        rwa [workerStep, hp, baseStep, Option.isSome_map]
    · refine ⟨.base l, hof, ?_⟩
      change (s.step side recvBatch maxSendQueue (.base l)).isSome
      generalize s.base.helpful = t at hof
      have hbase : (s.baseStep side recvBatch l).isSome := by
        rwa [baseStep, Option.isSome_map]
      cases t <;> cases l <;> first | exact hbase | exact absurd rfl hl | cases hof
  | some p =>
    rw [helpful, hp]
    cases p with
    | drainCommands =>
      refine ⟨.worker, trivial, ?_⟩
      change (s.workerStep side recvBatch maxSendQueue).isSome
      rw [workerStep, hp]
      cases s.channel with
      | nil => rfl
      | cons c channel => cases c <;> rfl
    | processSendQueue =>
      refine ⟨.worker, trivial, ?_⟩
      change (s.workerStep side recvBatch maxSendQueue).isSome
      rw [workerStep, hp]
      rfl
    | write =>
      refine ⟨.wrote (.error .queueFull), trivial, ?_⟩
      change (s.step side recvBatch maxSendQueue (.wrote _)).isSome
      rw [step, if_pos hp]
      rfl

theorem passOk_of_reach (h : (passingSystem side recvBatch maxSendQueue).Reach s) : s.PassOk := by
  refine h.invariant (I := PassOk) ?_ fun s l s' hs _ hst => hs.step hst
  rintro s ⟨b, -, rfl⟩ hp
  exact absurd rfl hp

/-- **What is sent arrives.**  In every execution that is fair to the worker, to its peer and to its
writes, the messages stored up to some moment are all received in the end, in order, unless the
worker leaves the connected loop or a message is evicted, if the application is quiet from some time
on. -/
theorem arrives (e : (passingSystem side recvBatch maxSendQueue).Execution)
    (h : (passingSystem side recvBatch maxSendQueue).Reach (e.state 0))
    (hfair : ∀ g, e.Fair (of g)) {k : ℕ} (hquiet : ∀ m, k ≤ m → Quiet (e.label m)) (n : ℕ) :
    ∃ m, n ≤ m ∧ (e.state m).base.Arrived (e.state n).base.ring.hist.frames := by
  let frames := (e.state n).base.ring.hist.frames
  by_contra hc
  have hn : ∀ m, n ≤ m → ¬ (e.state m).base.Arrived frames := fun m hm hd => hc ⟨m, hm, hd⟩
  have harriving : ∀ m, n ≤ m → Arriving frames (e.state m).base := by
    intro m hm
    induction m, hm using Nat.le_induction with
    | base => exact arriving_of_reach (base_reach (e.reach h n))
    | succ m hm ih => exact Arriving.of_step ih (hn m hm) (e.step m)
  -- from here on the application is quiet
  let start := max n k
  let bound := (e.state start).load
  have hstart : OnTheWay bound frames (e.state start) :=
    ⟨harriving start (Nat.le_max_left n k), passOk_of_reach (e.reach h start), le_rfl⟩
  have henabled : ∀ s, OnTheWay bound frames s → ¬ s.base.Arrived frames →
      (passingSystem side recvBatch maxSendQueue).Enabled (of s.helpful) s := fun s hs hn =>
    helpful_enabled hs hn
  have hstep : ∀ s l s', OnTheWay bound frames s → ¬ s.base.Arrived frames → Quiet l →
      (passingSystem side recvBatch maxSendQueue).step s l = some s' →
      OnTheWay bound frames s' ∧ HelpsArrive bound frames s l s' := fun s l s' hs hn hl hst =>
    ⟨hs.step hn hl hst, helps hs hn hl hst⟩
  obtain ⟨m, hm, hd⟩ := e.eventually henabled hstep hfair
    (fun m hm => hquiet m (Nat.le_trans (Nat.le_max_right n k) hm)) hstart
  exact hn m (Nat.le_trans (Nat.le_max_left n k) hm) hd

end

/-! A worker that has ended, or is in no pass, and a peer that is in no call, take no step. -/

section Last

variable {side : Side} {recvBatch maxSendQueue : ℕ} {s : Passing}

theorem not_enabled_of_ended (hw : s.base.worker = .ended) (hp : s.pass = none) :
    ¬ (passingSystem side recvBatch maxSendQueue).Enabled (of (.thread .worker)) s := by
  rintro ⟨l, hof, hsome⟩
  change (s.step side recvBatch maxSendQueue l).isSome at hsome
  cases l with
  | worker => simp [step, workerStep, hp, baseStep, State.step, State.workerStep, hw] at hsome
  | base l =>
    cases l with
    | wake w => simp [step, baseStep, State.step, hw] at hsome
    | worker => cases hsome
    | _ => cases hof
  | _ => cases hof

theorem not_enabled_peer (hpeer : s.base.peer = .idle) :
    ¬ (passingSystem side recvBatch maxSendQueue).Enabled (of (.thread .peer)) s := by
  rintro ⟨l, hof, hsome⟩
  change (s.step side recvBatch maxSendQueue l).isSome at hsome
  cases l with
  | base l =>
    cases l with
    | peer => simp [step, baseStep, State.step, hpeer] at hsome
    | _ => cases hof
  | _ => cases hof

theorem not_enabled_write (hp : s.pass = none) :
    ¬ (passingSystem side recvBatch maxSendQueue).Enabled (of .write) s := by
  rintro ⟨l, hof, hsome⟩
  change (s.step side recvBatch maxSendQueue l).isSome at hsome
  cases l with
  | wrote result => simp [step, hp] at hsome
  | _ => cases hof

end Last

/-- The worker takes a command and writes its message, finds the ring empty and waits; a message is
sent, `data` wakes the worker, which receives it, and the handle is dropped. -/
def wakeThenStop : List PassingLabel :=
  [.base .enter, .command (.send ⟨0, [5]⟩)] ++ List.replicate 3 .worker ++
    .wrote (.ok ⟨0, true⟩) :: List.replicate 3 .worker ++
    .base (.send [1, 2]) :: List.replicate 13 (.base .peer) ++
    .base (.wake .data) :: List.replicate 16 .worker ++ [.base .stop, .worker]

theorem arrives_wakeThenStop : ∃ e : (passingSystem .server 0 4).Execution,
    ((e.state 20).base.worker = .waitAny ∧ (e.state 20).base.ring.hist.frames = [[1, 2]]) ∧
      ∃ m, 20 ≤ m ∧ (e.state m).base.Arrived [[1, 2]] := by
  let s₀ : Passing := { base := { ring := RingState.zeroed, data := false, space := false } }
  let A := passingSystem .server 0 4
  obtain ⟨t, ht, hend⟩ := Option.map_eq_some_iff.1
    (show (A.run s₀ wakeThenStop).map
        (fun t => (t.base.worker, t.base.peer, t.pass, t.base.running)) =
        some (.ended, .idle, none, false) by decide +kernel)
  simp only [Prod.mk.injEq] at hend
  obtain ⟨hw, hpeer, hp, hrun⟩ := hend
  have hstop : A.step t (.base .stop) = some t := by
    change some { t with base := { t.base with running := false } } = some t
    rw [← hrun]
  have hstored := System.Execution.ofRun_state
    (f := fun s => (s.base.worker, s.base.ring.hist.frames)) (v := (.waitAny, [[1, 2]])) ht hstop
    (n := 20) (by decide +kernel)
  simp only [Prod.mk.injEq] at hstored
  let e := System.Execution.ofRun ht hstop
  have hreach : A.Reach (e.state 0) := by
    rw [System.Execution.ofRun_state_zero]
    exact .init ⟨_, ⟨_, _, _, RingState.freshRing_zeroed, rfl⟩, rfl⟩
  have hfair : ∀ g, e.Fair (of g) := by
    intro g
    refine System.Execution.fair_ofRun ht hstop ?_
    match g with
    | .thread .worker => exact not_enabled_of_ended hw hp
    | .thread .peer => exact not_enabled_peer hpeer
    | .write => exact not_enabled_write hp
  have hquiet : ∀ m, 2 ≤ m → Quiet (e.label m) := fun m hm =>
    System.Execution.ofRun_label ht hstop trivial (by decide) hm
  exact ⟨e, hstored, hstored.2 ▸ arrives e hreach hfair hquiet 20⟩

end Passing

end Wakeup

end Xshm
