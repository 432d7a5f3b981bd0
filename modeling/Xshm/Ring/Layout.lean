import Mathlib.Data.UInt
import Mathlib.Tactic.Common
import Mathlib.Tactic.NormNum

/-!
# Constants, errors and the ring header

The constants of `constants.rs`, the errors of `error.rs` and the header of a ring as
`layout.rs` lays it out in shared memory.  Header fields are 32-bit words and wrap.
Free-running positions are related to their unbounded values through `UInt32.ofNat`, with the
few lemmas on wrapping words that the proofs need.
-/

namespace Xshm

/-- `SHARED_MAGIC`. -/
def sharedMagic : UInt32 := 0x5853484d

/-- `SHARED_VERSION`. -/
def sharedVersion : UInt32 := 0x00010000

/-- Size of the storage of one ring, in bytes. -/
def ringCapacity : ℕ := 2 * 1024 * 1024

/-- Mask of a storage index (the capacity is a power of two). -/
def ringMask : UInt32 := UInt32.ofNat ringCapacity - 1

/-- Limit on the number of queued messages. -/
def maxMessages : UInt32 := 500

def maxMessageSize : ℕ := 65535

def minMessageSize : ℕ := 2

/-- A frame is a little-endian `u16` length, a `u16` of flags and the payload. -/
def messageHeaderSize : ℕ := 4

def handshakeIdle : UInt32 := 0

def handshakeClientHello : UInt32 := 1

def handshakeServerReady : UInt32 := 2

/-- The errors of the library. -/
inductive ShmError where
  | notConnected
  | notReady
  | alreadyConnected
  | timeout
  | queueEmpty
  | queueFull
  | messageTooSmall
  | messageTooLarge
  | corrupted
  | handshakeFailed
  | windowsError (code : UInt32) (context : String)
  | noFreeSlot
  | invalidConfig (msg : String)
  deriving DecidableEq, Repr

/-- The header of a ring.  (`reserved` is never accessed.) -/
structure RingHeader where
  writePos : UInt32
  readPos : UInt32
  messageCount : UInt32
  dropCount : UInt32
  sequence : UInt32
  connectionGen : UInt32
  handshakeState : UInt32
  deriving DecidableEq, Repr

/-- The header after `reset(generation)`. -/
def RingHeader.reset (_h : RingHeader) (generation : UInt32) : RingHeader where
  writePos := 0
  readPos := 0
  messageCount := 0
  dropCount := 0
  sequence := 0
  connectionGen := generation
  handshakeState := handshakeIdle

/-- A message body. -/
abbrev Payload := List UInt8

/-- The lengths `write_message` accepts. -/
def Payload.Valid (p : Payload) : Prop := minMessageSize ≤ p.length ∧ p.length ≤ maxMessageSize

instance (p : Payload) : Decidable p.Valid := inferInstanceAs (Decidable (_ ∧ _))

/-! ### Wrapping words -/

theorem ofNat_add (a b : ℕ) : UInt32.ofNat a + UInt32.ofNat b = UInt32.ofNat (a + b) := by
  simp

theorem toNat_ofNat (a : ℕ) : (UInt32.ofNat a).toNat = a % 2 ^ 32 := by simp

theorem toNat_ofNat_of_lt {a : ℕ} (h : a < 2 ^ 32) : (UInt32.ofNat a).toNat = a := by
  rw [toNat_ofNat, Nat.mod_eq_of_lt h]

/-- Distances of positions less than `2 ^ 32` apart are exact. -/
theorem toNat_ofNat_sub {a b : ℕ} (h : b ≤ a) (hlt : a - b < 2 ^ 32) :
    (UInt32.ofNat a - UInt32.ofNat b).toNat = a - b := by
  rw [UInt32.toNat_sub, toNat_ofNat, toNat_ofNat]
  omega

/-- Positions less than `2 ^ 32` apart are equal as words only if they are equal. -/
theorem ofNat_inj_of_lt {a b : ℕ} (hab : a ≤ b) (hlt : b - a < 2 ^ 32)
    (h : UInt32.ofNat b = UInt32.ofNat a) : a = b := by
  have := congrArg UInt32.toNat h
  rw [toNat_ofNat, toNat_ofNat] at this
  omega

/-- Masking a position gives its storage index. -/
theorem toNat_and_ringMask (a : ℕ) : (UInt32.ofNat a &&& ringMask).toNat = a % ringCapacity := by
  have hm : ringMask.toNat = 2 ^ 21 - 1 := by decide
  rw [UInt32.toNat_and, hm, Nat.and_two_pow_sub_one_eq_mod, toNat_ofNat, ringCapacity]
  omega

theorem and_ringMask (i : ℕ) : i &&& ringMask.toNat = i % ringCapacity := by
  have hm : ringMask.toNat = 2 ^ 21 - 1 := by decide
  rw [hm, Nat.and_two_pow_sub_one_eq_mod]
  rfl

end Xshm
