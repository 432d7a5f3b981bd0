import Xshm.Memory.Placement
import Xshm.Ring.Access
import Xshm.System.Simulation

/-!
# A segment in one mapping

All that the two processes share is a mapping of `shared_mapping_size` bytes.  `SharedView` computes
from its base where the control block, the two ring headers and the two storages lie, and every
atomic operation and every copied byte goes to an address computed so.

Here the machine runs on the bytes of the mapping (`Mapping.step`), with each store of
`RingHeader::reset` a step of its own, whatever the two sides of the ring are doing.  Its cells do
not overlap, so it is the machine of the parts (`Mapping.view_step`): a control block and two rings,
each on its own.

* `Mapping.view_run` : every run on the bytes is the same run of the parts.
* `Mapping.touches_inside` : every access is inside the mapping, and words are aligned.
* `Mapping.reach_ring` : what is proved of one ring alone holds of both rings of a mapping, if no
  call is in a ring while it is reset.
-/

namespace Xshm

/-! ### Layout -/

/-- `n`, rounded up to a multiple of `align`. -/
def alignUp (n align : ℕ) : ℕ := (n + align - 1) / align * align

/-- Size and alignment of a field. -/
structure FieldLayout where
  size : ℕ
  align : ℕ

/-- The offsets of the fields of a `repr(C)` structure from `n` on, and the end of the last. -/
def reprC : List FieldLayout → ℕ → List ℕ × ℕ
  | [], n => ([], n)
  | f :: fs, n =>
    let offset := alignUp n f.align
    let (offsets, last) := reprC fs (offset + f.size)
    (offset :: offsets, last)

/-- An `u32` or an `AtomicU32`. -/
def u32Layout : FieldLayout := ⟨4, 4⟩

/-- `[u32; n]` or `[AtomicU32; n]`. -/
def u32ArrayLayout (n : ℕ) : FieldLayout := ⟨4 * n, 4⟩

/-- The fields of `RingHeader`; the last one is `reserved`. -/
def ringHeaderLayout : List FieldLayout := List.replicate 7 u32Layout ++ [u32ArrayLayout 8]

/-- The fields of `ControlBlock`; the last one is `reserved`. -/
def controlBlockLayout : List FieldLayout := List.replicate 5 u32Layout ++ [u32ArrayLayout 11]

/-- Both structures are `align(64)`. -/
def structAlign : ℕ := 64

def sizeOfRingHeader : ℕ := alignUp (reprC ringHeaderLayout 0).2 structAlign

def sizeOfControlBlock : ℕ := alignUp (reprC controlBlockLayout 0).2 structAlign

/-- `shared_mapping_size()`. -/
def sharedMappingSize : ℕ := sizeOfControlBlock + sizeOfRingHeader * 2 + ringCapacity * 2

theorem sizeOfRingHeader_eq : sizeOfRingHeader = 64 := by decide

theorem sizeOfControlBlock_eq : sizeOfControlBlock = 64 := by decide

/-- The place of a field in the declaration. -/
def HeaderField.index : HeaderField → ℕ
  | .writePos => 0
  | .readPos => 1
  | .messageCount => 2
  | .dropCount => 3
  | .sequence => 4
  | .connectionGen => 5
  | .handshakeState => 6

def HeaderField.offset (f : HeaderField) : ℕ := (reprC ringHeaderLayout 0).1.getD f.index 0

theorem HeaderField.offset_eq (f : HeaderField) : f.offset = 4 * f.index := by
  cases f <;> decide

theorem HeaderField.index_lt (f : HeaderField) : f.index < 7 := by
  cases f <;> decide

theorem HeaderField.index_injective {f g : HeaderField} (h : f.index = g.index) : f = g := by
  cases f <;> cases g <;> first | rfl | cases h

/-- The fields of `ControlBlock`. -/
inductive ControlField where
  | magic
  | version
  | generation
  | serverState
  | clientState
  | reserved (i : Fin 11)
  deriving DecidableEq

def ControlField.offset : ControlField → ℕ
  | .magic => (reprC controlBlockLayout 0).1.getD 0 0
  | .version => (reprC controlBlockLayout 0).1.getD 1 0
  | .generation => (reprC controlBlockLayout 0).1.getD 2 0
  | .serverState => (reprC controlBlockLayout 0).1.getD 3 0
  | .clientState => (reprC controlBlockLayout 0).1.getD 4 0
  | .reserved i => (reprC controlBlockLayout 0).1.getD 5 0 + 4 * i

/-- The number of words before a field. -/
def ControlField.index : ControlField → ℕ
  | .magic => 0
  | .version => 1
  | .generation => 2
  | .serverState => 3
  | .clientState => 4
  | .reserved i => 5 + i

theorem ControlField.offset_eq (f : ControlField) : f.offset = 4 * f.index := by
  cases f with
  | reserved i =>
    have hr : (reprC controlBlockLayout 0).1.getD 5 0 = 20 := by decide
    rw [offset, index, hr]
    omega
  | _ => decide

theorem ControlField.index_lt (f : ControlField) : f.index < 16 := by
  cases f with
  | reserved i => exact Nat.add_lt_add_left i.2 5
  | _ => decide

theorem ControlField.index_injective {f g : ControlField} (h : f.index = g.index) : f = g := by
  cases f <;> cases g <;> simp only [index] at h <;> first
    | rfl
    | omega
    | exact congrArg reserved (Fin.ext (Nat.add_left_cancel h))

/-- The two rings of a segment. -/
inductive RingId where
  | a
  | b
  deriving DecidableEq

/-- A mapping, seen from its base. -/
structure SharedView where
  base : ℕ

namespace SharedView

variable (v : SharedView)

def controlBlock : ℕ := v.base

def ringHeaderA : ℕ := v.base + sizeOfControlBlock

def ringBufferA : ℕ := v.ringHeaderA + sizeOfRingHeader

def ringHeaderB : ℕ := v.ringBufferA + ringCapacity

def ringBufferB : ℕ := v.ringHeaderB + sizeOfRingHeader

def ringHeader : RingId → ℕ
  | .a => v.ringHeaderA
  | .b => v.ringHeaderB

def ringBuffer : RingId → ℕ
  | .a => v.ringBufferA
  | .b => v.ringBufferB

theorem ringBuffer_eq (r : RingId) : v.ringBuffer r = v.ringHeader r + 64 := by
  cases r <;> simp only [ringBuffer, ringHeader, ringBufferA, ringBufferB, sizeOfRingHeader_eq]

/-- `RingBuffer::new` of a ring. -/
def ring (r : RingId) : Placement HeaderField where
  wordAt f := v.ringHeader r + f.offset
  bytesAt := v.ringBuffer r
  size := ringCapacity
  words_apart f g hfg := by
    have hne : f.index ≠ g.index := fun h => hfg (HeaderField.index_injective h)
    rw [f.offset_eq, g.offset_eq]
    omega
  bytes_apart f := by
    have := f.index_lt
    rw [v.ringBuffer_eq, f.offset_eq]
    omega

/-- The control block. -/
def control : Placement ControlField where
  wordAt f := v.controlBlock + f.offset
  bytesAt := v.controlBlock
  size := 0
  words_apart f g hfg := by
    have hne : f.index ≠ g.index := fun h => hfg (ControlField.index_injective h)
    rw [f.offset_eq, g.offset_eq]
    omega
  bytes_apart f := .inr (Nat.le_add_right ..)

theorem owns_ring {r : RingId} {x : ℕ} (h : (v.ring r).Owns x) :
    v.ringHeader r ≤ x ∧ x < v.ringHeader r + 64 + ringCapacity := by
  rcases h with ⟨f, hf⟩ | hx
  · have hlt := f.index_lt
    have heq : (v.ring r).wordAt f = v.ringHeader r + 4 * f.index := by
      rw [← f.offset_eq]
      rfl
    omega
  · have heq : (v.ring r).bytesAt = v.ringHeader r + 64 := v.ringBuffer_eq r
    have hsize : (v.ring r).size = ringCapacity := rfl
    omega

theorem owns_control {x : ℕ} (h : v.control.Owns x) : v.base ≤ x ∧ x < v.base + 64 := by
  rcases h with ⟨f, hf⟩ | hx
  · have hlt := f.index_lt
    have heq : v.control.wordAt f = v.base + 4 * f.index := by
      rw [← f.offset_eq]
      rfl
    omega
  · have hsize : v.control.size = 0 := rfl
    omega

theorem ringHeader_a : v.ringHeader .a = v.base + 64 := by
  rw [ringHeader, ringHeaderA, sizeOfControlBlock_eq]

theorem ringHeader_b : v.ringHeader .b = v.base + 128 + ringCapacity := by
  rw [ringHeader, ringHeaderB, ringBufferA, ringHeaderA, sizeOfControlBlock_eq, sizeOfRingHeader_eq]

/-- The three structures do not overlap. -/
theorem apart_rings {r r' : RingId} (h : r ≠ r') : (v.ring r).Apart (v.ring r') := by
  intro x hx hx'
  have ha := v.ringHeader_a
  have hb := v.ringHeader_b
  have := v.owns_ring hx
  have := v.owns_ring hx'
  cases r <;> cases r' <;> first | exact h rfl | omega

theorem apart_control (r : RingId) : v.control.Apart (v.ring r) := by
  intro x hx hx'
  have ha := v.ringHeader_a
  have hb := v.ringHeader_b
  have := v.owns_control hx
  have := v.owns_ring hx'
  cases r <;> omega

/-- All structures lie in the mapping. -/
theorem ring_inside {r : RingId} {x : ℕ} (h : (v.ring r).Owns x) :
    v.base ≤ x ∧ x < v.base + sharedMappingSize := by
  have ha := v.ringHeader_a
  have hb := v.ringHeader_b
  have := v.owns_ring h
  rw [sharedMappingSize, sizeOfControlBlock_eq, sizeOfRingHeader_eq]
  cases r <;> omega

/-- The words of a ring header are aligned if the mapping is. -/
theorem ring_aligned (h : v.base % structAlign = 0) (r : RingId) (f : HeaderField) :
    (v.ring r).wordAt f % 4 = 0 ∧ v.ringHeader r % structAlign = 0 := by
  have ha := v.ringHeader_a
  have hb := v.ringHeader_b
  have heq : (v.ring r).wordAt f = v.ringHeader r + 4 * f.index := by
    rw [← f.offset_eq]
    rfl
  simp only [structAlign, ringCapacity] at *
  cases r <;> omega

end SharedView

/-! ### The machine on the bytes -/

/-- The bytes of the mapping, and what the threads have to themselves. -/
structure Mapping where
  memory : Memory
  sides : RingId → Sides
  /-- The stores of `RingHeader::reset` that are still to come. -/
  resetting : RingId → List (HeaderField × UInt32) := fun _ => []

/-- Who moves. -/
inductive MappingLabel where
  /-- A side of a ring. -/
  | ring (r : RingId) (l : RingLabel)
  /-- The handshake calls `RingHeader::reset`. -/
  | callReset (r : RingId) (generation : UInt32)
  /-- Its next store; after the last one the record of the ring begins anew. -/
  | reset (r : RingId)
  /-- An access to a word of the control block. -/
  | control (a : Access ControlField Unit)
  /-- An access to a word of a ring header that the ring itself never touches. -/
  | handshake (r : RingId) (a : Access HeaderField Unit)

/-- An access of the handshake to a ring header. -/
def HandshakeAccess (a : Access HeaderField Unit) : Prop :=
  a.index = none ∧ (a.word = some .connectionGen ∨ a.word = some .handshakeState)

instance (a : Access HeaderField Unit) : Decidable (HandshakeAccess a) :=
  inferInstanceAs (Decidable (_ ∧ _))

namespace Mapping

/-- One step. -/
def step (v : SharedView) (s : Mapping) : MappingLabel → Option Mapping
  | .ring r l =>
    ((s.sides r).access l).map fun a =>
      let res := (v.ring r).onMemory s.memory a
      { s with memory := res.1, sides := Function.update s.sides r res.2 }
  | .callReset r generation =>
    if s.resetting r = [] then
      some { s with
        resetting := Function.update s.resetting r (RingHeader.resetStores generation) }
    else none
  | .reset r =>
    match s.resetting r with
    | [] => none
    | st :: stores =>
      some {
        memory := s.memory.storeWord ((v.ring r).wordAt st.1) st.2
        sides := Function.update s.sides r
          (if stores = [] then { s.sides r with hist := {} } else s.sides r)
        resetting := Function.update s.resetting r stores }
  | .control a =>
    if a.index = none then some { s with memory := (v.control.onMemory s.memory a).1 } else none
  | .handshake r a =>
    if HandshakeAccess a then some { s with memory := ((v.ring r).onMemory s.memory a).1 }
    else none

end Mapping

/-! ### The machine of the parts -/

/-- A control block and two rings. -/
structure SegmentParts where
  control : ControlField → UInt32
  ring : RingId → RingState
  resetting : RingId → List (HeaderField × UInt32)

namespace SegmentParts

/-- One step. -/
def step (s : SegmentParts) : MappingLabel → Option SegmentParts
  | .ring r l => ((s.ring r).step l).map fun t => { s with ring := Function.update s.ring r t }
  | .callReset r generation =>
    if s.resetting r = [] then
      some { s with
        resetting := Function.update s.resetting r (RingHeader.resetStores generation) }
    else none
  | .reset r =>
    match s.resetting r with
    | [] => none
    | st :: stores =>
      let t : RingState := { s.ring r with header := (s.ring r).header.set st.2 st.1 }
      some { s with
        ring := Function.update s.ring r (if stores = [] then { t with hist := {} } else t)
        resetting := Function.update s.resetting r stores }
  | .control a =>
    if a.index = none then
      some { s with control := (a.onCells ⟨s.control, fun _ => 0⟩).1.words }
    else none
  | .handshake r a =>
    if HandshakeAccess a then
      let c : Cells HeaderField := ⟨(s.ring r).header.word, (s.ring r).storage⟩
      let t : RingState := { s.ring r with header := .ofWords (a.onCells c).1.words }
      some { s with ring := Function.update s.ring r t }
    else none

end SegmentParts

/-- Two rings and a control block, on the bytes of a mapping; at first both rings are reset. -/
def mappingSystem (v : SharedView) : System Mapping MappingLabel where
  init s := ∀ r, s.sides r = {} ∧ s.resetting r = [] ∧
    ∃ h generation, RingHeader.ofWords ((v.ring r).cells s.memory).words = .reset h generation
  step := Mapping.step v

/-- The same, with each part on its own. -/
def partsSystem : System SegmentParts MappingLabel where
  init s := ∀ r, FreshRing (s.ring r) ∧ s.resetting r = []
  step := SegmentParts.step

namespace Mapping

/-- What is in the mapping. -/
def view (v : SharedView) (s : Mapping) : SegmentParts where
  control := (v.control.cells s.memory).words
  ring r := (s.sides r).on ((v.ring r).cells s.memory)
  resetting := s.resetting

/-- All threads stay within the storage of their ring. -/
def Within (s : Mapping) : Prop := ∀ r, (s.sides r).Within

section Step

variable {v : SharedView} {m : Memory}

/-- A step that touches the ring `r` only. -/
theorem view_ring (s : Mapping) {m' : Memory} {r : RingId}
    (hcontrol : v.control.cells m' = v.control.cells s.memory)
    (hother : ∀ r', r' ≠ r → (v.ring r').cells m' = (v.ring r').cells s.memory) (t : Sides)
    (stores : RingId → List (HeaderField × UInt32)) :
    view v ⟨m', Function.update s.sides r t, stores⟩ =
      { view v s with
        ring := Function.update (view v s).ring r (t.on ((v.ring r).cells m'))
        resetting := stores } := by
  have hring : (view v ⟨m', Function.update s.sides r t, stores⟩).ring =
      Function.update (view v s).ring r (t.on ((v.ring r).cells m')) := by
    funext r'
    by_cases hr : r' = r
    · subst hr
      simp only [view, Function.update_self]
    · simp only [view, Function.update_of_ne hr, hother r' hr]
  rw [← hring]
  simp only [view, hcontrol]

/-- A store of `RingHeader::reset`, on the bytes. -/
theorem on_storeWord (P : Placement HeaderField) (t : Sides) (st : HeaderField × UInt32) :
    t.on (P.cells (m.storeWord (P.wordAt st.1) st.2)) =
      { t.on (P.cells m) with header := (t.on (P.cells m)).header.set st.2 st.1 } := by
  rw [Placement.cells_storeWord]
  simp only [Sides.on, Cells.set, RingHeader.ofWords_update]

/-- An access of the handshake, on the bytes. -/
theorem on_handshake {P : Placement HeaderField} {a : Access HeaderField Unit}
    (ha : HandshakeAccess a) (t : Sides) :
    t.on (P.cells (P.onMemory m a).1) =
      let c := P.cells m
      { t.on c with
        header := .ofWords (a.onCells ⟨(t.on c).header.word, (t.on c).storage⟩).1.words } := by
  have hin : P.Within a := by
    rintro i hi
    rw [ha.1] at hi
    cases hi
  have hc : (⟨(t.on (P.cells m)).header.word, (t.on (P.cells m)).storage⟩ : Cells HeaderField) =
      P.cells m := Cells.ext (RingHeader.word_ofWords _) rfl
  have hbytes : (P.cells (P.onMemory m a).1).bytes = (P.cells m).bytes := by
    rw [← Access.bytes_onCells_of_index_none (c := P.cells m) ha.1, Placement.onMemory_cells hin]
  simp only [hc, Placement.onMemory_cells hin]
  simp only [Sides.on, hbytes]

/-- **A step on the bytes is the same step of the parts.** -/
theorem view_step {s : Mapping} (h : s.Within) (l : MappingLabel) :
    (s.step v l).map (view v) = (view v s).step l := by
  cases l with
  | ring r l =>
    have hstep : (view v s).ring r = (s.sides r).on ((v.ring r).cells s.memory) := rfl
    rw [step, SegmentParts.step, hstep, Sides.on_step, Sides.step]
    cases ha : (s.sides r).access l with
    | none => rfl
    | some a =>
      have hin : (v.ring r).Within a := fun i hi => (h r).index_lt ha hi
      have hcontrol := Placement.cells_onMemory_of_apart (m := s.memory)
        (v.apart_control r).symm hin
      have hother : ∀ r', r' ≠ r → (v.ring r').cells ((v.ring r).onMemory s.memory a).1 =
          (v.ring r').cells s.memory := fun r' hr =>
        Placement.cells_onMemory_of_apart (v.apart_rings (Ne.symm hr)) hin
      simp only [Option.map_some, Placement.onMemory_cells hin]
      exact congrArg some (view_ring s hcontrol hother _ _)
  | callReset r generation =>
    have hres : (view v s).resetting r = s.resetting r := rfl
    rw [step, SegmentParts.step, hres]
    split_ifs <;> rfl
  | reset r =>
    rw [step, SegmentParts.step]
    have hres : (view v s).resetting r = s.resetting r := rfl
    rw [hres]
    cases hr : s.resetting r with
    | nil => rfl
    | cons st stores =>
      have hother : ∀ r', r' ≠ r → (v.ring r').cells (s.memory.storeWord
          ((v.ring r).wordAt st.1) st.2) = (v.ring r').cells s.memory := fun r' hne =>
        Placement.cells_storeWord_of_apart (v.apart_rings (Ne.symm hne)) st.1 st.2
      refine congrArg some ((view_ring s
        (Placement.cells_storeWord_of_apart (v.apart_control r).symm st.1 st.2) hother _ _).trans
          ?_)
      rw [on_storeWord]
      split_ifs <;> rfl
  | control a =>
    rw [step, SegmentParts.step]
    split_ifs with hindex
    · have hin : v.control.Within a := by
        rintro i hi
        rw [hindex] at hi
        cases hi
      have hcells : v.control.cells s.memory = ⟨(view v s).control, fun _ => 0⟩ := rfl
      have hring : ∀ r, (v.ring r).cells (v.control.onMemory s.memory a).1 =
          (v.ring r).cells s.memory := fun r =>
        Placement.cells_onMemory_of_apart (v.apart_control r) hin
      rw [← hcells, Placement.onMemory_cells hin]
      simp only [Option.map_some, view, hring]
    · rfl
  | handshake r a =>
    rw [step, SegmentParts.step]
    split_ifs with ha
    · have hin : (v.ring r).Within a := by
        rintro i hi
        rw [ha.1] at hi
        cases hi
      have hcontrol := Placement.cells_onMemory_of_apart (m := s.memory)
        (v.apart_control r).symm hin
      have hother : ∀ r', r' ≠ r → (v.ring r').cells ((v.ring r).onMemory s.memory a).1 =
          (v.ring r').cells s.memory := fun r' hr =>
        Placement.cells_onMemory_of_apart (v.apart_rings (Ne.symm hr)) hin
      have hview := view_ring s hcontrol hother (s.sides r) s.resetting
      rw [Function.update_eq_self, on_handshake ha] at hview
      exact congrArg some hview
    · rfl

theorem within_step {s s' : Mapping} (h : s.Within) {l : MappingLabel}
    (hst : s.step v l = some s') : s'.Within := by
  cases l with
  | ring r l =>
    obtain ⟨a, ha, rfl⟩ := Option.map_eq_some_iff.1 hst
    intro r'
    by_cases hr : r' = r
    · subst hr
      have hin : (v.ring r').Within a := fun i hi => (h r').index_lt ha hi
      have hside : (s.sides r').step ((v.ring r').cells s.memory) l =
          some (a.onCells ((v.ring r').cells s.memory)) := by
        rw [Sides.step, ha, Option.map_some]
      have := (h r').step hside
      rw [Placement.onMemory_cells hin] at this
      simpa only [Function.update_self] using this
    · simpa only [Function.update_of_ne hr] using h r'
  | callReset r generation =>
    rw [step] at hst
    split_ifs at hst
    cases hst
    exact h
  | reset r =>
    rw [step] at hst
    split at hst
    · cases hst
    · cases hst
      intro r'
      by_cases hr : r' = r
      · subst hr
        simp only [Function.update_self]
        split_ifs <;> exact h r'
      · simpa only [Function.update_of_ne hr] using h r'
  | control a | handshake r a =>
    rw [step] at hst
    split_ifs at hst
    cases hst
    exact h

/-- **A run on the bytes is the same run of the parts**: the two rings and the control block do not
disturb each other. -/
theorem view_run {s : Mapping} (h : s.Within) (ls : List MappingLabel) :
    ((mappingSystem v).run s ls).map (view v) = partsSystem.run (view v s) ls := by
  have hkeep : ∀ s l s', Within s → (mappingSystem v).step s l = some s' → Within s' :=
    fun _ _ _ hs hst => within_step hs hst
  have hstep : ∀ s l, Within s →
      ((mappingSystem v).step s l).map (view v) = partsSystem.step (view v s) l :=
    fun _ l hs => view_step hs l
  exact System.run_map hkeep hstep h ls

theorem within_of_init {s : Mapping} (hs : (mappingSystem v).init s) : s.Within := by
  intro r
  rw [(hs r).1]
  exact ⟨trivial, trivial⟩

theorem within_of_reach {s : Mapping} (h : (mappingSystem v).Reach s) : s.Within :=
  h.invariant (fun _ => within_of_init) fun _ _ _ hs _ hst => within_step hs hst

end Step

/-- A mapping full of zeros. -/
def zeroed : Mapping := { memory := fun _ => 0, sides := fun _ => {} }

theorem init_zeroed (v : SharedView) : (mappingSystem v).init zeroed := fun _ =>
  ⟨rfl, rfl, ⟨0, 0, 0, 0, 0, 0, 0⟩, 0, rfl⟩

/-- Both producers send, and one consumer receives, while the claim of the slot is taken. -/
def bothRings : List MappingLabel :=
  [.ring .a (.callWrite [1, 2]), .ring .b (.callWrite [3, 4]),
    .control (.compareExchange (.reserved 0) 0 7 fun _ => ())] ++
    List.replicate 12 (.ring .a .writer) ++ List.replicate 8 (.ring .b .writer) ++
    .ring .a .callRead :: List.replicate 5 (.ring .a .reader)

/-- The second ring is reset while its producer is in a call. -/
def resetInCall : List MappingLabel :=
  bothRings ++ .callReset .b 2 :: List.replicate 2 (.reset .b) ++ [.ring .b .writer]

theorem view_run_resetInCall : let v : SharedView := ⟨65536⟩
    ((mappingSystem v).run zeroed resetInCall).map (view v) =
      partsSystem.run (view v zeroed) resetInCall := by
  intro v
  have hwithin : zeroed.Within := fun _ => ⟨trivial, trivial⟩
  exact view_run hwithin resetInCall

section Step

variable {v : SharedView}

/-- **Every access is inside the mapping**, to no other part of it than the own ring, and words are
aligned. -/
theorem touches_inside (hbase : v.base % structAlign = 0) {s : Mapping}
    (h : (mappingSystem v).Reach s) {r : RingId} {l : RingLabel} {a : Access HeaderField Sides}
    (ha : (s.sides r).access l = some a) :
    (∀ x, (v.ring r).Touches a x → v.base ≤ x ∧ x < v.base + sharedMappingSize ∧
      ¬ v.control.Owns x ∧ ∀ r', r' ≠ r → ¬ (v.ring r').Owns x) ∧
      ∀ f, a.word = some f → (v.ring r).wordAt f % 4 = 0 := by
  refine ⟨fun x hx => ?_, fun f _ => (v.ring_aligned hbase r f).1⟩
  have hin : (v.ring r).Within a := fun i hi => (within_of_reach h r).index_lt ha hi
  have hown : (v.ring r).Owns x := hx.owns hin
  obtain ⟨hle, hlt⟩ := v.ring_inside hown
  exact ⟨hle, hlt, fun hc => v.apart_control r x hc hown,
    fun r' hr hr' => v.apart_rings hr x hr' hown⟩

/-- Where the next access of ring `B` goes. -/
theorem touches_inside_bothRings : let v : SharedView := ⟨65536⟩
    ∃ s a, (mappingSystem v).run zeroed bothRings = some s ∧ (s.sides .b).access .writer = some a ∧
      (∀ x, (v.ring .b).Touches a x → v.base ≤ x ∧ x < v.base + sharedMappingSize ∧
        ¬ v.control.Owns x ∧ ∀ r', r' ≠ RingId.b → ¬ (v.ring r').Owns x) ∧
        ∀ f, a.word = some f → (v.ring .b).wordAt f % 4 = 0 := by
  intro v
  have hsome : (((mappingSystem v).run zeroed bothRings).bind fun s =>
      (s.sides .b).access .writer).isSome = true := by decide +kernel
  obtain ⟨a, ha⟩ := Option.isSome_iff_exists.1 hsome
  obtain ⟨s, hs, hacc⟩ := Option.bind_eq_some_iff.1 ha
  have hreach := System.Reach.run (.init (init_zeroed v)) hs
  exact ⟨s, a, hs, hacc, touches_inside (by decide) hreach hacc⟩

/-- The handshake changes only its words. -/
theorem withWords_handshake {t : RingState} {a : Access HeaderField Unit} (ha : HandshakeAccess a)
    (generation state : UInt32) :
    ({ t with header := .ofWords (a.onCells ⟨t.header.word, t.storage⟩).1.words } :
      RingState).withWords generation state = t.withWords generation state := by
  have hword {f : HeaderField} (hf : f ≠ .connectionGen ∧ f ≠ .handshakeState) :
      (a.onCells ⟨t.header.word, t.storage⟩).1.words f = t.header.word f := by
    refine Access.words_onCells_of_ne fun he => ?_
    rcases ha.2 with hw | hw <;> cases hw.symm.trans he
    · exact hf.1 rfl
    · exact hf.2 rfl
  simp only [RingState.withWords, RingHeader.ofWords]
  rw [hword (f := .writePos) (by decide), hword (f := .readPos) (by decide),
    hword (f := .messageCount) (by decide), hword (f := .dropCount) (by decide),
    hword (f := .sequence) (by decide)]
  rfl

end Step

end Mapping

/-! ### One ring of a mapping -/

/-- No call is in a ring, and none goes on in it, while it is reset. -/
def SegmentParts.Quiet (s : SegmentParts) : MappingLabel → Prop
  | .ring r _ => s.resetting r = []
  | .reset r => (s.ring r).writer = .idle ∧ (s.ring r).reader = .idle
  | _ => True

instance (s : SegmentParts) (l : MappingLabel) : Decidable (s.Quiet l) :=
  match l with
  | .ring _ _ => inferInstanceAs (Decidable (_ = _))
  | .reset _ => inferInstanceAs (Decidable (_ ∧ _))
  | .callReset _ _ | .control _ | .handshake _ _ => isTrue trivial

/-- A ring is one that is reached on its own, up to the words of the handshake, or it will have been
reset after the stores to come. -/
structure RingOrReset (t : RingState) (stores : List (HeaderField × UInt32)) : Prop where
  ring : stores = [] → ∃ generation state, ringSystem.Reach (t.withWords generation state)
  reset : stores ≠ [] → ∀ f, f ≠ .connectionGen → f ≠ .handshakeState →
    (t.header.storeAll stores).word f = 0

namespace RingOrReset

variable {t t' : RingState} {stores : List (HeaderField × UInt32)}

theorem step (h : RingOrReset t []) {l : RingLabel} (hst : t.step l = some t') :
    RingOrReset t' [] := by
  refine ⟨fun _ => ?_, fun hne => absurd rfl hne⟩
  obtain ⟨generation, state, hreach⟩ := h.ring rfl
  have hstep : ringSystem.step (t.withWords generation state) l =
      some (t'.withWords generation state) := by
    refine (RingState.withWords_step _ generation state l).trans ?_
    rw [hst, Option.map_some]
  exact ⟨generation, state, hreach.step hstep⟩

theorem callReset (generation : UInt32) :
    RingOrReset t (RingHeader.resetStores generation) := by
  refine ⟨by rintro ⟨⟩, fun _ f hgen hstate => ?_⟩
  rw [RingHeader.storeAll_resetStores]
  cases f <;> first | rfl | exact absurd rfl hgen

/-- The next store of a reset, while no call is in the ring. -/
theorem store {st : HeaderField × UInt32} (h : RingOrReset t (st :: stores))
    (hw : t.writer = .idle) (hr : t.reader = .idle) :
    RingOrReset
      (if stores = [] then { t with header := t.header.set st.2 st.1, hist := {} }
        else { t with header := t.header.set st.2 st.1 }) stores := by
  have hreset := h.reset (List.cons_ne_nil _ _)
  split_ifs with hlast
  · subst hlast
    refine ⟨fun _ => ?_, fun hne => absurd rfl hne⟩
    refine ⟨0, handshakeIdle, .init ⟨t.header, t.storage, 0, ?_⟩⟩
    have hzero (f : HeaderField) (hgen : f ≠ .connectionGen) (hstate : f ≠ .handshakeState) :
        (t.header.set st.2 st.1).word f = 0 := hreset f hgen hstate
    have hwp : (t.header.set st.2 st.1).writePos = 0 := hzero .writePos (by decide) (by decide)
    have hrp : (t.header.set st.2 st.1).readPos = 0 := hzero .readPos (by decide) (by decide)
    have hmc : (t.header.set st.2 st.1).messageCount = 0 :=
      hzero .messageCount (by decide) (by decide)
    have hdc : (t.header.set st.2 st.1).dropCount = 0 := hzero .dropCount (by decide) (by decide)
    have hsq : (t.header.set st.2 st.1).sequence = 0 := hzero .sequence (by decide) (by decide)
    simp only [RingState.withWords, hwp, hrp, hmc, hdc, hsq, hw, hr]
    rfl
  · exact ⟨fun hnil => absurd hnil hlast, fun _ => hreset⟩

/-- An access of the handshake. -/
theorem handshake (h : RingOrReset t stores) {a : Access HeaderField Unit}
    (ha : HandshakeAccess a) :
    RingOrReset { t with header := .ofWords (a.onCells ⟨t.header.word, t.storage⟩).1.words }
      stores := by
  refine ⟨fun hnil => ?_, fun hne f hgen hstate => ?_⟩
  · obtain ⟨generation, state, hreach⟩ := h.ring hnil
    refine ⟨generation, state, ?_⟩
    rw [Mapping.withWords_handshake ha]
    exact hreach
  · rw [← h.reset hne f hgen hstate]
    refine RingHeader.word_storeAll_congr ?_ stores
    rw [RingHeader.word_ofWords]
    refine Access.words_onCells_of_ne fun he => ?_
    rcases ha.2 with hw | hw <;> cases hw.symm.trans he
    · exact hgen rfl
    · exact hstate rfl

end RingOrReset

/-- What holds of the ring that changed and of the other one holds of both. -/
theorem forall_updateRing {P : RingState → List (HeaderField × UInt32) → Prop}
    {ring : RingId → RingState} {resetting : RingId → List (HeaderField × UInt32)} {r : RingId}
    {t : RingState} {stores : List (HeaderField × UInt32)} (hr : P t stores)
    (h : ∀ r, P (ring r) (resetting r)) (r' : RingId) :
    P (Function.update ring r t r') (Function.update resetting r stores r') := by
  by_cases hne : r' = r
  · subst hne
    rwa [Function.update_self, Function.update_self]
  · rw [Function.update_of_ne hne, Function.update_of_ne hne]
    exact h r'

/-- **A step that leaves a ring alone while it is reset.** -/
theorem SegmentParts.ringOrReset_step {p p' : SegmentParts} {l : MappingLabel}
    (h : ∀ r, RingOrReset (p.ring r) (p.resetting r)) (hq : p.Quiet l)
    (hst : p.step l = some p') (r : RingId) : RingOrReset (p'.ring r) (p'.resetting r) := by
  have keep {r' : RingId} {t : RingState} (ht : RingOrReset t (p.resetting r')) :
      RingOrReset (Function.update p.ring r' t r) (p.resetting r) := by
    have := forall_updateRing (r := r') ht h r
    rwa [Function.update_eq_self] at this
  rw [SegmentParts.step.eq_def] at hst
  cases l with
  | ring r' l =>
    obtain ⟨t, ht, rfl⟩ := Option.map_eq_some_iff.1 hst
    have hnil : p.resetting r' = [] := hq
    have hr' := h r'
    rw [hnil] at hr'
    exact keep (hnil ▸ hr'.step ht)
  | callReset r' generation =>
    simp only at hst
    split_ifs at hst
    cases hst
    have hnew : RingOrReset (p.ring r') (RingHeader.resetStores generation) := .callReset generation
    have := forall_updateRing (r := r') hnew h r
    rwa [Function.update_eq_self] at this
  | reset r' =>
    simp only at hst
    have hr' := h r'
    split at hst
    · cases hst
    · rename_i st stores hres
      cases hst
      rw [hres] at hr'
      exact forall_updateRing (hr'.store hq.1 hq.2) h r
  | control a =>
    simp only at hst
    split_ifs at hst
    cases hst
    exact h r
  | handshake r' a =>
    simp only at hst
    split_ifs at hst with ha
    cases hst
    exact keep ((h r').handshake ha)

namespace Mapping

variable {v : SharedView}

/-- **Each ring of a mapping is a ring**: if no call is in a ring while it is reset, then whatever
happens in the rest of the mapping, the ring is in a state that a ring reaches on its own, up to the
words of the handshake. -/
theorem reach_ring {s : Mapping}
    (h : (mappingSystem v).ReachWhen (fun s l => (view v s).Quiet l) s) {r : RingId}
    (hr : s.resetting r = []) :
    ∃ generation state, ringSystem.Reach (((view v s).ring r).withWords generation state) := by
  have hinv : s.Within ∧ ∀ r, RingOrReset ((view v s).ring r) ((view v s).resetting r) := by
    refine h.invariant (I := fun s => s.Within ∧
      ∀ r, RingOrReset ((view v s).ring r) ((view v s).resetting r)) ?_ ?_
    · refine fun s hs => ⟨within_of_init hs, fun r => ⟨fun _ => ?_, fun hne => ?_⟩⟩
      · obtain ⟨hsides, -, hd, generation, hreset⟩ := hs r
        refine ⟨generation, handshakeIdle, .init ⟨hd, ((v.ring r).cells s.memory).bytes, generation,
          ?_⟩⟩
        simp only [view, hsides, Sides.on, hreset]
        rfl
      · exact absurd (hs r).2.1 hne
    · rintro s l s' ⟨hin, hrings⟩ hq hst
      have hview := view_step (v := v) hin l
      rw [show s.step v l = some s' from hst, Option.map_some] at hview
      exact ⟨within_step hin hst, SegmentParts.ringOrReset_step hrings hq hview.symm⟩
  exact (hinv.2 r).ring hr

/-- The first ring is reset while the other producer is in a call, and used again. -/
def resetBetween : List MappingLabel :=
  bothRings ++ List.replicate 4 (.ring .a .reader) ++ .callReset .a 2 ::
    List.replicate 7 (.reset .a) ++ .ring .b .writer :: .ring .a (.callWrite [5, 6]) ::
    List.replicate 12 (.ring .a .writer)

theorem reach_ring_resetBetween : let v : SharedView := ⟨65536⟩
    ∃ s, ((view v s).ring .a).hist.frames = [[5, 6]] ∧ ∃ generation state,
      ringSystem.Reach (((view v s).ring .a).withWords generation state) := by
  intro v
  obtain ⟨s, h, hs⟩ := System.exists_reachWhen (A := mappingSystem v)
    (C := fun s l => (view v s).Quiet l) (s := zeroed) (r := resetBetween)
    (f := fun s => (s.resetting .a, (s.sides .a).hist.frames)) (t := ([], [[5, 6]]))
    (init_zeroed v) (by decide +kernel)
  simp only [Prod.mk.injEq] at hs
  exact ⟨s, hs.2, reach_ring h hs.1⟩

end Mapping

end Xshm
