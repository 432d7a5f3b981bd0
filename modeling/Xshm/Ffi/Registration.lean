import Xshm.Dispatch.Lobby
import Xshm.Dispatch.Protocol
import Xshm.Platform.Names
import Xshm.Text.CString

/-!
# Registration through the C functions

`shm_dispatch_client_connect` sends what a C program says about itself, and the server calls
`on_client_connect` with what it has received; the id and the channel that the server has chosen
come back to `on_connect`.  Names are C strings at both ends and at most 64 bytes of UTF-8 between
them, so a name is converted six times.  Here the messages pass from one end to the other as they
are; how they pass through the ring is said elsewhere.

* `registered` : what the callbacks are called with, and exactly when the name is the one that was
  given.
-/

namespace Xshm

namespace Ffi

open Dispatch Lobby Platform Utf8

def statusOk : UInt8 := 0

/-- `to_rust_str(ptr)`; `none` for a null pointer. -/
def toRustStr (ptr : Option CString) : Option String := ptr.map CString.toStringLossy

/-- `to_c_string_lossy(s)`. -/
def toCStringLossy (s : String) : CString :=
  match CString.new (Utf8.bytes s) with
  | .ok c => c
  | .error nulPos =>
    match CString.new ((Utf8.bytes s).take nulPos) with
    | .ok c => c
    | .error _ => CString.empty

/-- `shm_dispatch_registration_t`. -/
structure ShmDispatchRegistration where
  pid : UInt32
  revision : UInt16
  name : Option CString

/-- The arguments of the callback `on_client_connect` of the server. -/
structure OnClientConnect where
  clientId : UInt32
  pid : UInt32
  revision : UInt16
  name : CString

/-- The arguments of the callback `on_connect` of the client. -/
structure OnConnect where
  clientId : UInt32
  channelName : CString

/-- `FfiDispatchHandler::on_client_connect`. -/
def onClientConnect (clientId : UInt32) (info : ClientRegistration) : OnClientConnect :=
  ⟨clientId, info.pid, info.revision, toCStringLossy info.name⟩

/-- `FfiDispatchClientHandler::on_connect`. -/
def onConnect (clientId : UInt32) (channelName : String) : OnConnect :=
  ⟨clientId, toCStringLossy channelName⟩

/-- The registration that `shm_dispatch_client_connect` makes. -/
def ShmDispatchRegistration.registration (reg : ShmDispatchRegistration) : ClientRegistration :=
  ⟨reg.pid, reg.revision, (toRustStr reg.name).getD ""⟩

/-- The request that `lobby_register` sends. -/
def lobbyRequest (registration : ClientRegistration) : List UInt8 :=
  encodeRequest ⟨registration.pid, registration.revision, registration.name⟩

/-- What `handle_lobby_client` makes of a request, if it has chosen this id and this hash: who the
client is, and the response. -/
def handleRequest (clientId : UInt32) (hash : UInt64) (data : List UInt8) :
    Decoded (ClientRegistration × List UInt8) := do
  let request ← decodeRequest data
  return (⟨request.pid, request.revision, request.name⟩,
    encodeResponse ⟨statusOk, clientId, hexName hash⟩)

/-- What `lobby_register` makes of a response. -/
def lobbyResponse (data : List UInt8) : Decoded (UInt32 × String) := do
  let response ← decodeResponse data
  if response.status ≠ statusOk then throw .handshakeFailed else
  return (response.clientId, response.channelName)

/-- A registration from end to end. -/
def register (reg : ShmDispatchRegistration) (clientId : UInt32) (hash : UInt64) :
    Decoded (OnClientConnect × OnConnect) := do
  let (info, response) ← handleRequest clientId hash (lobbyRequest reg.registration)
  let (assignedId, assignedChannel) ← lobbyResponse response
  return (onClientConnect clientId info, onConnect assignedId assignedChannel)

/-- The bytes of the name; a null pointer is an empty name. -/
def ShmDispatchRegistration.nameBytes (reg : ShmDispatchRegistration) : List UInt8 :=
  match reg.name with
  | some name => name.bytes
  | none => []

/-- UTF-8 of at most 64 bytes, or of 65 or 66 bytes with U+FFFD at the end. -/
def PassesUnchanged (b : List UInt8) : Prop :=
  ∃ s, bytes s = b ∧ (b.length ≤ 64 ∨
    ∃ t, s = t ++ "\uFFFD" ∧ 61 < (bytes t).length ∧ (bytes t).length < 64)

/-! ### C strings -/

/-- Never less is kept than what is before the first zero byte. -/
theorem toCStringLossy_bytes (s : String) :
    (toCStringLossy s).bytes = (bytes s).takeWhile (· ≠ 0) := by
  rw [toCStringLossy]
  by_cases h : (0 : UInt8) ∈ bytes s
  · have hcut : (0 : UInt8) ∉ (bytes s).take ((bytes s).idxOf 0) := by
      rw [CString.take_idxOf_zero]
      intro hmem
      simpa using List.mem_takeWhile_imp hmem
    simp only [CString.new, h, ↓reduceDIte, hcut]
    exact CString.take_idxOf_zero _
  · simp only [CString.new, h, ↓reduceDIte]
    exact (List.takeWhile_eq_self_iff.2 fun b hb => by simpa using ne_of_mem_of_not_mem hb h).symm

theorem toCStringLossy_of_noZero {s : String} (h : (0 : UInt8) ∉ bytes s) :
    (toCStringLossy s).bytes = bytes s := by
  rw [toCStringLossy_bytes]
  exact List.takeWhile_eq_self_iff.2 fun b hb => by simpa using ne_of_mem_of_not_mem hb h

variable (reg : ShmDispatchRegistration)

theorem registration_name : reg.registration.name = fromUtf8Lossy reg.nameBytes := by
  rcases reg with ⟨pid, revision, _ | name⟩ <;> rfl

theorem zero_notMem_nameBytes : (0 : UInt8) ∉ reg.nameBytes := by
  rcases reg with ⟨pid, revision, _ | name⟩
  · exact List.not_mem_nil
  · exact name.noZero

/-- What a C string is read as is passed on to a C string whole, also if it has been cut. -/
theorem toCStringLossy_registration (n : ℕ) :
    (toCStringLossy (fromUtf8Lossy ((bytes reg.registration.name).take n))).bytes =
      bytes (fromUtf8Lossy ((bytes reg.registration.name).take n)) := by
  refine toCStringLossy_of_noZero (CString.zero_notMem_fromUtf8Lossy fun hmem => ?_)
  rw [registration_name] at hmem
  exact CString.zero_notMem_fromUtf8Lossy (zero_notMem_nameBytes reg) (List.mem_of_mem_take hmem)

/-! ### Channel names -/

/-- A hexadecimal digit is one byte. -/
theorem utf8EncodeChar_digitChar :
    ∀ d < 16, ∃ b : UInt8, b ≠ 0 ∧ String.utf8EncodeChar (Nat.digitChar d) = [b] := by
  intro d hd
  interval_cases d <;> exact ⟨_, by decide, rfl⟩

theorem bytes_hexName (hash : UInt64) :
    (bytes (hexName hash)).length = 16 ∧ (0 : UInt8) ∉ bytes (hexName hash) := by
  have hdigit (k : ℕ) := utf8EncodeChar_digitChar (hash.toNat / 16 ^ (15 - k) % 16)
    (Nat.mod_lt _ (by decide))
  choose b hb henc using hdigit
  have hbytes : bytes (hexName hash) = (List.range 16).map b := by
    rw [hexName, bytes_ofList, List.flatMap_map]
    simp only [henc]
    exact List.map_eq_flatMap.symm
  rw [hbytes]
  refine ⟨by rw [List.length_map, List.length_range], fun hmem => ?_⟩
  obtain ⟨k, -, hk⟩ := List.mem_map.1 hmem
  exact hb k hk

/-! ### End to end -/

/-- What the server knows of a client. -/
theorem handleRequest_lobbyRequest (info : ClientRegistration) (clientId : UInt32)
    (hash : UInt64) : handleRequest clientId hash (lobbyRequest info) = some (.ok
      ({ info with name := fromUtf8Lossy ((bytes info.name).take 64) },
        encodeResponse ⟨statusOk, clientId, hexName hash⟩)) := by
  rw [handleRequest, lobbyRequest, decodeRequest_encodeRequest_eq]
  rfl

/-- The id and the channel arrive as they were sent. -/
theorem lobbyResponse_encodeResponse (clientId : UInt32) (hash : UInt64) :
    lobbyResponse (encodeResponse ⟨statusOk, clientId, hexName hash⟩) =
      some (.ok (clientId, hexName hash)) := by
  have hlen : (bytes (hexName hash)).length ≤ 64 := by
    rw [(bytes_hexName hash).1]
    decide
  rw [lobbyResponse, decodeResponse_encodeResponse_eq,
    (fromUtf8Lossy_take_eq_iff _ 64).2 (.inl hlen)]
  rfl

/-- What the callbacks are called with. -/
theorem register_eq (clientId : UInt32) (hash : UInt64) :
    register reg clientId hash = some (.ok
      (⟨clientId, reg.pid, reg.revision,
        toCStringLossy (fromUtf8Lossy ((bytes reg.registration.name).take 64))⟩,
        ⟨clientId, toCStringLossy (hexName hash)⟩)) := by
  rw [register, handleRequest_lobbyRequest]
  change (lobbyResponse (encodeResponse ⟨statusOk, clientId, hexName hash⟩) >>= fun x =>
    pure (_, onConnect x.1 x.2) : Decoded _) = _
  rw [lobbyResponse_encodeResponse]
  rfl

/-- **Registration from end to end** always succeeds: the id, the process, the revision and the
channel are those of the other end, the name that `on_client_connect` gets has at most 66 bytes,
and it is the name that was given exactly if that passes unchanged. -/
theorem registered (clientId : UInt32) (hash : UInt64) :
    ∃ atServer atClient, register reg clientId hash = some (.ok (atServer, atClient)) ∧
      atServer.clientId = clientId ∧ atClient.clientId = clientId ∧
      atServer.pid = reg.pid ∧ atServer.revision = reg.revision ∧
      atClient.channelName.bytes = bytes (hexName hash) ∧
      atServer.name.bytes.length ≤ 66 ∧
      (atServer.name.bytes = reg.nameBytes ↔ PassesUnchanged reg.nameBytes) := by
  refine ⟨_, _, register_eq reg clientId hash, rfl, rfl, rfl, rfl,
    toCStringLossy_of_noZero (bytes_hexName hash).2, ?_, ?_⟩
  · rw [toCStringLossy_registration]
    exact length_fromUtf8Lossy_take _ 64
  · rw [toCStringLossy_registration, registration_name]
    constructor
    · intro hname
      -- what arrives is UTF-8, so what was given is
      have hread := congrArg fromUtf8Lossy hname
      rw [fromUtf8Lossy_bytes] at hread
      refine ⟨_, hname, ?_⟩
      have hfits := (fromUtf8Lossy_take_eq_iff _ 64).1 hread
      rw [← hread, hname] at hfits
      refine hfits.imp_right ?_
      rintro ⟨t, ht, hhigh, hlow⟩
      exact ⟨t, ht, by omega, hhigh⟩
    · rintro ⟨s, hs, hfits⟩
      rw [← hs, fromUtf8Lossy_bytes]
      rw [(fromUtf8Lossy_take_eq_iff s 64).2]
      rcases hfits with hle | ⟨t, rfl, hlow, hhigh⟩
      · exact .inl (hs ▸ hle)
      · exact .inr ⟨t, rfl, hhigh, by omega⟩

end Ffi

end Xshm
