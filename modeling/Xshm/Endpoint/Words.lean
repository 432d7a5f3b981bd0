import Xshm.Endpoint.Segment

/-!
# Stores in the handshake words

A segment has four handshake words, two in the control block and one in the header of each ring.
Every function that runs a handshake or ends one stores in them, at most one word a step: `stores`
says which, and `step_word` that the step stores nothing else.
-/

namespace Xshm

/-- The handshake words of a segment. -/
inductive HandshakeWord where
  /-- `server_state`. -/
  | server
  /-- `client_state`. -/
  | client
  /-- `handshake_state` of ring `A`. -/
  | ringA
  | ringB
  deriving DecidableEq

/-- The words in which `connect` stores `CLIENT_HELLO`. -/
def helloWords : List HandshakeWord := [.client, .ringA, .ringB]

/-- What is in a handshake word. -/
def Segment.word {A B : Type*} (seg : Segment A B) : HandshakeWord → UInt32
  | .server => seg.serverState
  | .client => seg.clientState
  | .ringA => seg.handshakeA
  | .ringB => seg.handshakeB

/-- A store of a value in a word. -/
abbrev Store := HandshakeWord × UInt32

/-- The words after the stores, where `f` says what is noted of a value. -/
def Store.note {T : Type*} (f : UInt32 → T) (words : HandshakeWord → T) :
    Option Store → HandshakeWord → T
  | none => words
  | some (x, v) => Function.update words x (f v)

/-- The store of the next access of `SharedClient::connect`. -/
def Connect.stores : Connect → Option Store
  | .storeClient => some (.client, handshakeClientHello)
  | .storeA => some (.ringA, handshakeClientHello)
  | .storeB => some (.ringB, handshakeClientHello)
  | .resetClient _ => some (.client, handshakeIdle)
  | .resetA _ => some (.ringA, handshakeIdle)
  | .resetB _ => some (.ringB, handshakeIdle)
  | .readyA => some (.ringA, handshakeServerReady)
  | .readyB => some (.ringB, handshakeServerReady)
  | .setReq | .waitAck | .loadServer | .loadGeneration | .storeGenA _ | .storeGenB _ => none

/-- The store of the next access of `SharedServer::wait_for_client`. -/
def WaitForClient.stores : WaitForClient → Option Store
  | .resetA _ => some (.ringA, handshakeIdle)
  | .resetB _ => some (.ringB, handshakeIdle)
  | .readyA => some (.ringA, handshakeServerReady)
  | .readyB => some (.ringB, handshakeServerReady)
  | .readyServer => some (.server, handshakeServerReady)
  | .readyClient => some (.client, handshakeServerReady)
  | .waitReq | .loadClient | .loadGeneration | .storeGeneration _ | .setAck => none

/-- The word in which the next access of `mark_disconnected` stores `IDLE`. -/
def MarkDisconnected.word : MarkDisconnected → HandshakeWord
  | .storeServer => .server
  | .storeClient => .client
  | .storeA => .ringA
  | .storeB => .ringB

section

variable {A B : Type*} {seg : Segment A B}

theorem Connect.step_word {w : WaitOutcome} {pc : Connect} {r : Segment A B × Next Connect}
    (h : pc.step seg w = some r) : r.1.word = Store.note id seg.word pc.stores := by
  funext x
  cases pc with
  | waitAck =>
    simp only [Connect.step] at h
    cases w with
    | signalled | timeout =>
      simp only at h
      split_ifs at h
      cases h
      cases x <;> rfl
    | failed e =>
      cases h
      rfl
  | loadServer =>
    simp only [Connect.step] at h
    split_ifs at h <;> cases h <;> rfl
  | _ =>
    cases h
    cases x <;> rfl

theorem WaitForClient.step_word {w : WaitOutcome} {pc : WaitForClient}
    {r : Segment A B × Next WaitForClient} (h : pc.step seg w = some r) :
    r.1.word = Store.note id seg.word pc.stores := by
  funext x
  cases pc with
  | waitReq =>
    simp only [WaitForClient.step] at h
    cases w with
    | signalled | timeout =>
      simp only at h
      split_ifs at h
      cases h
      cases x <;> rfl
    | failed e =>
      cases h
      rfl
  | loadClient =>
    simp only [WaitForClient.step] at h
    split_ifs at h <;> cases h <;> rfl
  | _ =>
    cases h
    cases x <;> rfl

theorem MarkDisconnected.step_word (pc : MarkDisconnected) :
    (pc.step seg).1.word = Function.update seg.word pc.word handshakeIdle := by
  funext x
  cases pc <;> cases x <;> rfl

end

end Xshm
