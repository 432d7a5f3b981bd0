import Xshm.Sending.Worker

/-!
# Commands are consumed

A pass through the outer loop of a worker is to take every command that was in the channel when it
began, so that a send queue that is bounded bounds what is held in memory, and `stop` ends a worker
that has no connection.  `server_worker` drains the channel on every path.  The two `client_worker`s
drain it in a session only, and a pass in which no slot is free or no connection is made ends
without one: `not_consumed`.

* `consumed_of_gotThere` : the property, if such a pass only ever begins with an empty channel.
-/

namespace Xshm

namespace Sending

/-- The pass through the outer loop that is in progress, or the last one. -/
structure Pass where
  /-- The number of commands in the channel when the pass began that have not been taken. -/
  left : ℕ := 0
  /-- The number of messages sent before it began. -/
  sentBefore : ℕ := 0
  /-- `Shutdown` was in the channel when it began. -/
  shutdown : Bool := false
  deriving DecidableEq

/-- What a step changes about the pass. -/
def notePass (s : State) (l : Label) (_s' : State) (g : Pass) : Pass :=
  match l, s.point with
  | .worker _, .head _ =>
    if s.running then ⟨s.channel.length, s.accepted.length, s.channel.contains .shutdown⟩ else g
  | .worker _, .draining _ => { g with left := g.left - 1 }
  | _, _ => g

/-- A worker with its application and its passes. -/
abbrev passes (w : Worker) (maxSendQueue : ℕ) : System (State × Pass) Label :=
  (system w maxSendQueue).withHistory {} notePass

/-- The messages held in memory. -/
def State.held (s : State) : List Sent := s.channel.filterMap Command.msg? ++ s.box.queue

/-- **Commands are consumed**: when a pass is over, every command that was in the channel when it
began has been taken, few of the messages sent before it are held, and a `Shutdown` among the
commands has cleared `running`. -/
def Consumed (maxSendQueue : ℕ) (p : State × Pass) : Prop :=
  (p.1.point = .ended ∨ ∃ connected, p.1.point = .head connected) →
    p.2.left = 0 ∧
      (p.1.held.filter fun msg => msg.serial < p.2.sentBefore).length ≤ max maxSendQueue 1 ∧
      (p.2.shutdown = true → p.1.running = false)

/-- A pass ends without a connection, or at the first look at `running` in a session, only when
there is no command left of those with which it began. -/
def GotThere (p : State × Pass) (l : Label) : Prop := p.1.givesUp l = true → p.2.left = 0

instance (p : State × Pass) (l : Label) : Decidable (GotThere p l) :=
  inferInstanceAs (Decidable (_ → _))

/-- What every step keeps. -/
structure PassInv (maxSendQueue : ℕ) (p : State × Pass) : Prop where
  bounded : p.1.box.queue.length ≤ max maxSendQueue 1
  left_le : p.2.left ≤ p.1.channel.length
  before_le : p.2.sentBefore ≤ p.1.accepted.length
  /-- What has been sent since the pass began stands behind the other commands. -/
  fresh : ∀ msg, .send msg ∈ p.1.channel.drop p.2.left → p.2.sentBefore ≤ msg.serial
  stops : p.2.shutdown = true → .shutdown ∈ p.1.channel.take p.2.left ∨ p.1.running = false
  taken : p.1.point.taken = true → p.2.left = 0

section

variable {w : Worker} {maxSendQueue : ℕ} {p : State × Pass}

theorem PassInv.consumed (h : PassInv maxSendQueue p) : Consumed maxSendQueue p := by
  intro hp
  have htaken : p.1.point.taken = true := by
    rcases hp with hp | ⟨connected, hp⟩
    all_goals
      rw [hp]
      rfl
  have hleft := h.taken htaken
  refine ⟨hleft, ?_, fun hs => ?_⟩
  · have hnone : (p.1.channel.filterMap Command.msg?).filter
        (fun msg => msg.serial < p.2.sentBefore) = [] := by
      refine List.filter_eq_nil_iff.2 fun msg hmsg => ?_
      obtain ⟨c, hc, hmsg⟩ := List.mem_filterMap.1 hmsg
      cases c with
      | shutdown => cases hmsg
      | send msg' =>
        cases hmsg
        have := h.fresh msg (by rwa [hleft, List.drop_zero])
        simpa using this
    rw [State.held, List.filter_append, hnone, List.nil_append]
    exact Nat.le_trans (List.length_filter_le _ _) h.bounded
  · rcases h.stops hs with hmem | hrun
    · rw [hleft, List.take_zero] at hmem
      cases hmem
    · exact hrun

/-- A command put into the channel. -/
theorem PassInv.put (h : PassInv maxSendQueue p) {c : Command} {accepted : List Sent}
    (hacc : p.1.accepted.length ≤ accepted.length)
    (hc : ∀ msg, c = .send msg → p.1.accepted.length ≤ msg.serial) :
    PassInv maxSendQueue
      ({ p.1 with channel := p.1.channel ++ [c], accepted := accepted }, p.2) where
  bounded := h.bounded
  left_le := by
    rw [List.length_append]
    exact Nat.le_trans h.left_le (Nat.le_add_right _ _)
  before_le := Nat.le_trans h.before_le hacc
  fresh := by
    intro msg hmsg
    rw [List.drop_append_of_le_length h.left_le] at hmsg
    rcases List.mem_append.1 hmsg with hmsg | hmsg
    · exact h.fresh msg hmsg
    · exact Nat.le_trans h.before_le (hc msg (List.mem_singleton.1 hmsg).symm)
  stops := by
    intro hs
    rw [List.take_append_of_le_length h.left_le]
    exact h.stops hs
  taken := h.taken

/-- A pass begins. -/
theorem PassInv.begin (h : PassInv maxSendQueue p) {point : Point} (hp : point.taken = false) :
    PassInv maxSendQueue ({ p.1 with point := point },
      ⟨p.1.channel.length, p.1.accepted.length, p.1.channel.contains .shutdown⟩) where
  bounded := h.bounded
  left_le := Nat.le_refl _
  before_le := Nat.le_refl _
  fresh := by
    intro msg hmsg
    rw [List.drop_length] at hmsg
    cases hmsg
  stops := by
    intro hs
    rw [List.take_length]
    exact .inl (List.contains_iff_mem.1 hs)
  taken := by
    intro ht
    rw [hp] at ht
    cases ht

/-- A command taken from the channel while it is drained. -/
theorem PassInv.take (h : PassInv maxSendQueue p) {connected : Bool} {c : Command}
    {channel : List Command} (hpoint : p.1.point = .draining connected)
    (hc : p.1.channel = c :: channel) {box : Outbox Sent} {running : Bool}
    (hbox : box.queue.length ≤ max maxSendQueue 1) (hrun : p.1.running = false → running = false)
    (hs : c = .shutdown → running = false) :
    PassInv maxSendQueue ({ p.1 with channel := channel, box := box, running := running },
      { p.2 with left := p.2.left - 1 }) where
  bounded := hbox
  left_le := by
    have := h.left_le
    rw [hc, List.length_cons] at this
    change p.2.left - 1 ≤ channel.length
    omega
  before_le := h.before_le
  fresh := by
    intro msg hmsg
    apply h.fresh msg
    rw [hc]
    cases hl : p.2.left with
    | zero =>
      change .send msg ∈ channel.drop (p.2.left - 1) at hmsg
      rw [hl] at hmsg
      exact List.mem_cons_of_mem _ hmsg
    | succ k =>
      change .send msg ∈ channel.drop (p.2.left - 1) at hmsg
      rw [hl] at hmsg
      exact hmsg
  stops := by
    intro hshut
    rcases h.stops hshut with hmem | hr
    · rw [hc] at hmem
      cases hl : p.2.left with
      | zero =>
        rw [hl] at hmem
        cases hmem
      | succ k =>
        rw [hl, List.take_succ_cons] at hmem
        rcases List.mem_cons.1 hmem with hmem | hmem
        · exact .inr (hs hmem.symm)
        · exact .inl hmem
    · exact .inr (hrun hr)
  taken := by
    intro ht
    change p.1.point.taken = true at ht
    rw [hpoint] at ht
    cases ht

/-- Nothing but the program point and the queue change, and the queue does not grow. -/
theorem PassInv.move (h : PassInv maxSendQueue p) (point : Point) (box : Outbox Sent)
    (hbox : box.queue.length ≤ p.1.box.queue.length)
    (htaken : point.taken = true → p.2.left = 0) :
    PassInv maxSendQueue ({ p.1 with point := point, box := box }, p.2) where
  bounded := Nat.le_trans hbox h.bounded
  left_le := h.left_le
  before_le := h.before_le
  fresh := h.fresh
  stops := h.stops
  taken := htaken

theorem notePass_of_not_head {s s' : State} {o : Outcome} {g : Pass}
    (hhead : ∀ connected, s.point ≠ .head connected)
    (hdrain : ∀ connected, s.point ≠ .draining connected) :
    notePass s (.worker o) s' g = g := by
  unfold notePass
  cases hp : s.point with
  | head connected => exact absurd hp (hhead connected)
  | draining connected => exact absurd hp (hdrain connected)
  | _ => rfl

theorem PassInv.workerStep (h : PassInv maxSendQueue p) {o : Outcome} {s' : State}
    (hC : GotThere p (.worker o)) (hst : p.1.workerStep w maxSendQueue o = some s') :
    PassInv maxSendQueue (s', notePass p.1 (.worker o) s' p.2) := by
  cases workerStep_cases hst with
  | take hpoint hc =>
    have hnote : ∀ s', notePass p.1 (.worker o) s' p.2 = { p.2 with left := p.2.left - 1 } := by
      intro s'
      simp only [notePass, hpoint]
    rw [hnote]
    exact h.take hpoint hc (w.length_push_queue_le h.bounded _) id (by rintro ⟨⟩)
  | shutdown hpoint hc =>
    have hnote : ∀ s', notePass p.1 (.worker o) s' p.2 = { p.2 with left := p.2.left - 1 } := by
      intro s'
      simp only [notePass, hpoint]
    rw [hnote]
    exact h.take hpoint hc h.bounded (fun _ => rfl) fun _ => rfl
  | @trySend msg queue result hpoint hq =>
    rw [notePass_of_not_head (by rw [hpoint]; rintro _ ⟨⟩) (by rw [hpoint]; rintro _ ⟨⟩)]
    have hleft : p.2.left = 0 := h.taken (by rw [hpoint]; rfl)
    refine h.move _ _ ?_ fun _ => hleft
    cases result with
    | ok outcome =>
      rw [(w.trySend_ok hq outcome).2.1, hq, List.length_cons]
      exact Nat.le_succ _
    | error e => rw [(w.trySend_error _ e).2.1]
  | endPass hpoint =>
    rw [notePass_of_not_head (by rw [hpoint]; rintro _ ⟨⟩) (by rw [hpoint]; rintro _ ⟨⟩)]
    have hleft : p.2.left = 0 := h.taken (by rw [hpoint]; rfl)
    have hq : (p.1.endPass w).box.queue.length ≤ p.1.box.queue.length := by
      cases w with
      | autoServer | autoClient => exact Nat.le_refl _
      | multiClient => exact Nat.zero_le _
    have := h.move (if p.1.running then .head false else .ended) (p.1.endPass w).box hq
      fun _ => hleft
    cases w <;> exact this
  | @goto point hended hhead htaken hdrain hdelay =>
    have hleft : point.taken = true → p.2.left = 0 := by
      intro ht
      rcases htaken ht with htaken | hchannel | hgives
      · exact h.taken htaken
      · have := h.left_le
        rw [hchannel] at this
        exact Nat.le_zero.1 this
      · exact hC hgives
    cases hp : p.1.point with
    | head connected =>
      by_cases hrun : p.1.running = true
      · have hnote : ∀ s', notePass p.1 (.worker o) s' p.2 =
            ⟨p.1.channel.length, p.1.accepted.length, p.1.channel.contains .shutdown⟩ := by
          intro s'
          simp only [notePass, hp, hrun, if_true]
        rw [hnote]
        exact h.begin (hhead connected hp hrun)
      · have hnote : ∀ s', notePass p.1 (.worker o) s' p.2 = p.2 := by
          intro s'
          simp only [notePass, hp, hrun, Bool.false_eq_true, if_false]
        rw [hnote]
        exact h.move _ _ (Nat.le_refl _) hleft
    | draining connected =>
      -- the channel is empty
      have hzero : p.2.left = 0 := by
        have := h.left_le
        rw [hdrain connected hp] at this
        exact Nat.le_zero.1 this
      have hsame : { p.2 with left := p.2.left - 1 } = p.2 := by
        rw [hzero, Nat.zero_sub, ← hzero]
      simp only [notePass, hp, hsame]
      exact h.move _ _ (Nat.le_refl _) fun _ => hzero
    | _ =>
      simp only [notePass, hp]
      exact h.move _ _ (Nat.le_refl _) hleft

/-- **Every step keeps the invariant.** -/
theorem PassInv.step (h : PassInv maxSendQueue p) {l : Label} {p' : State × Pass}
    (hC : GotThere p l) (hst : (passes w maxSendQueue).step p l = some p') :
    PassInv maxSendQueue p' := by
  obtain ⟨s', g'⟩ := p'
  obtain ⟨hst, hg⟩ := System.withHistory_step.1 hst
  change g' = notePass p.1 l s' p.2 at hg
  subst hg
  cases l with
  | send data =>
    simp only [system] at hst
    split_ifs at hst
    cases hst
    exact h.put (by simp) (by rintro msg ⟨⟩; exact Nat.le_refl _)
  | stop =>
    simp only [system] at hst
    split_ifs at hst
    cases hst
    exact h.put (Nat.le_refl _) (by rintro msg ⟨⟩)
  | drop =>
    cases hst
    exact { h with stops := fun _ => .inr rfl }
  | worker o => exact h.workerStep hC hst

theorem passInv_init : PassInv maxSendQueue ({}, {}) where
  bounded := Nat.zero_le _
  left_le := Nat.zero_le _
  before_le := Nat.zero_le _
  fresh := by
    intro msg hmsg
    cases hmsg
  stops := by rintro ⟨⟩
  taken := fun _ => rfl

end

/-- **Commands are consumed**, if every pass gets a connection that begins with a command. -/
theorem consumed_of_gotThere (w : Worker) (maxSendQueue : ℕ) (p : State × Pass)
    (h : (passes w maxSendQueue).ReachWhen GotThere p) : Consumed maxSendQueue p := by
  have hinv : PassInv maxSendQueue p := by
    refine System.ReachWhen.invariant ?_ (fun p l p' hI hC hst => PassInv.step hI hC hst) h
    rintro ⟨s, g⟩ ⟨hs, hg⟩
    change s = {} at hs
    change g = {} at hg
    subst hs hg
    exact passInv_init
  exact hinv.consumed

/-- A client of auto-mode takes a message and the command to stop in its first session. -/
theorem consumed_of_gotThere_stopped :
    ∃ p, (passes .autoClient 0).ReachWhen GotThere p ∧
      (p.1.point, p.1.running, p.2.sentBefore) = (Point.ended, false, 1) ∧ Consumed 0 p := by
  obtain ⟨p, hp, hf⟩ := System.exists_reachWhen (A := passes .autoClient 0) (C := GotThere)
    (s := ({}, {})) (f := fun p => (p.1.point, p.1.running, p.2.sentBefore))
    (r := [.send [1, 2], .stop, .worker .failed, .worker .succeeded, .worker .failed,
      .worker .failed, .worker .failed, .worker .failed,
      .worker (.wrote (.ok ⟨0, true⟩)), .worker .failed, .worker .drained,
      .worker (.waited true), .worker .failed]) ⟨rfl, rfl⟩ rfl
  exact ⟨p, hp, hf, consumed_of_gotThere .autoClient 0 p hp⟩

/-- A client that makes no connection leaves the message and the command to stop where they are. -/
theorem not_consumed : ¬ ∀ (w : Worker) (maxSendQueue : ℕ) (p : State × Pass),
    (passes w maxSendQueue).Reach p → Consumed maxSendQueue p := by
  intro h
  obtain ⟨p, hp, hf⟩ := System.exists_reachWhen (A := passes .autoClient 0)
    (C := fun _ _ => True) (s := ({}, {})) (f := fun p => (p.1.point, p.2.left))
    (r := [.send [1, 2], .stop, .worker .failed, .worker .failed, .worker .failed]) ⟨rfl, rfl⟩ rfl
  obtain ⟨hpoint, hleft⟩ := Prod.mk.inj hf
  have := (h .autoClient 0 p hp (.inr ⟨false, hpoint⟩)).1
  rw [hleft] at this
  cases this

end Sending

end Xshm
