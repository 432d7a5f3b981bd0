import Xshm.Ring.Copy
import Xshm.Text.Lossy

/-!
# The lobby protocol

The two messages of a registration, `RegistrationRequest` and `RegistrationResponse`, with their
encoders and decoders.  Both begin with a magic number, a version and the type of the message, and
end with the length and the bytes of a name (`requestBytes`, `responseBytes`).

* `codec_roundTrip` : a message is decoded as it was encoded, whatever follows it, and one type of
  message is never decoded as the other.
* `cutNames_iff` : a name of more than 64 bytes is cut without being altered exactly if no character
  is divided after 64 bytes.
* `decodes_documented` : what the decoders accept.  The bytes of a name need not be UTF-8, and the
  limit of the encoder on their number is not checked.
-/

namespace Xshm

namespace Dispatch

open Utf8

def dispatchMagic : UInt32 := 0x44495350

def dispatchVersion : UInt8 := 2

def msgTypeRequest : UInt8 := 1

def msgTypeResponse : UInt8 := 2

def maxNameLen : ℕ := 64

def maxChannelNameLen : ℕ := 64

/-- What a client sends to register. -/
structure RegistrationRequest where
  pid : UInt32
  revision : UInt16
  name : String
  deriving DecidableEq

/-- What the server answers. -/
structure RegistrationResponse where
  status : UInt8
  clientId : UInt32
  channelName : String
  deriving DecidableEq

/-- `u32::to_le_bytes`. -/
def u32ToLeBytes (w : UInt32) : List UInt8 :=
  [UInt8.ofNat w.toNat, UInt8.ofNat (w.toNat / 256), UInt8.ofNat (w.toNat / 65536),
    UInt8.ofNat (w.toNat / 16777216)]

/-- `u32::from_le_bytes`. -/
def u32FromLeBytes (b₀ b₁ b₂ b₃ : UInt8) : UInt32 :=
  UInt32.ofNat (b₀.toNat + 256 * b₁.toNat + 65536 * b₂.toNat + 16777216 * b₃.toNat)

/-- `encode_request(req)`. -/
def encodeRequest (req : RegistrationRequest) : List UInt8 :=
  let nameBytes := bytes req.name
  let nameLen := UInt8.ofNat (min nameBytes.length maxNameLen)
  u32ToLeBytes dispatchMagic ++ [dispatchVersion] ++ [msgTypeRequest] ++ u32ToLeBytes req.pid ++
    toLeBytes req.revision ++ [nameLen] ++ nameBytes.take nameLen.toNat

/-- `encode_response(resp)`. -/
def encodeResponse (resp : RegistrationResponse) : List UInt8 :=
  let nameBytes := bytes resp.channelName
  let nameLen := UInt8.ofNat (min nameBytes.length maxChannelNameLen)
  u32ToLeBytes dispatchMagic ++ [dispatchVersion] ++ [msgTypeResponse] ++ [resp.status] ++
    u32ToLeBytes resp.clientId ++ [nameLen] ++ nameBytes.take nameLen.toNat

/-- What a decoder returns; `none` if it uses an index that is out of range. -/
abbrev Decoded (α : Type) := ExceptT ShmError Option α

/-- `data[i]`. -/
def byteAt (data : List UInt8) (i : ℕ) : Decoded UInt8 := ExceptT.lift data[i]?

/-- `data[a..b]`. -/
def slice (data : List UInt8) (a b : ℕ) : Decoded (List UInt8) :=
  ExceptT.lift (if a ≤ b ∧ b ≤ data.length then some ((data.take b).drop a) else none)

/-- `decode_request(data)`. -/
def decodeRequest (data : List UInt8) : Decoded RegistrationRequest :=
  if data.length < 13 then throw .messageTooSmall else do
  let magic := u32FromLeBytes (← byteAt data 0) (← byteAt data 1) (← byteAt data 2)
    (← byteAt data 3)
  if magic ≠ dispatchMagic then throw .corrupted else
  let version ← byteAt data 4
  if version ≠ dispatchVersion then throw .handshakeFailed else
  let msgType ← byteAt data 5
  if msgType ≠ msgTypeRequest then throw .handshakeFailed else
  let pid := u32FromLeBytes (← byteAt data 6) (← byteAt data 7) (← byteAt data 8)
    (← byteAt data 9)
  let revision := fromLeBytes (← byteAt data 10) (← byteAt data 11)
  let nameLen := (← byteAt data 12).toNat
  if data.length < 13 + nameLen then throw .messageTooSmall else
  let name := fromUtf8Lossy (← slice data 13 (13 + nameLen))
  return ⟨pid, revision, name⟩

/-- `decode_response(data)`. -/
def decodeResponse (data : List UInt8) : Decoded RegistrationResponse :=
  if data.length < 12 then throw .messageTooSmall else do
  let magic := u32FromLeBytes (← byteAt data 0) (← byteAt data 1) (← byteAt data 2)
    (← byteAt data 3)
  if magic ≠ dispatchMagic then throw .corrupted else
  let version ← byteAt data 4
  if version ≠ dispatchVersion then throw .handshakeFailed else
  let msgType ← byteAt data 5
  if msgType ≠ msgTypeResponse then throw .handshakeFailed else
  let status ← byteAt data 6
  let clientId := u32FromLeBytes (← byteAt data 7) (← byteAt data 8) (← byteAt data 9)
    (← byteAt data 10)
  let nameLen := (← byteAt data 11).toNat
  if data.length < 12 + nameLen then throw .messageTooSmall else
  let channelName := fromUtf8Lossy (← slice data 12 (12 + nameLen))
  return ⟨status, clientId, channelName⟩

/-! ### The layouts -/

/-- A request whose name has the bytes `name`. -/
def requestBytes (pid : UInt32) (revision : UInt16) (name : List UInt8) : List UInt8 :=
  u32ToLeBytes dispatchMagic ++ dispatchVersion :: msgTypeRequest :: u32ToLeBytes pid ++
    toLeBytes revision ++ UInt8.ofNat name.length :: name

/-- A response whose name has the bytes `name`. -/
def responseBytes (status : UInt8) (clientId : UInt32) (name : List UInt8) : List UInt8 :=
  u32ToLeBytes dispatchMagic ++ dispatchVersion :: msgTypeResponse :: status ::
    u32ToLeBytes clientId ++ UInt8.ofNat name.length :: name

theorem u32FromLeBytes_u32ToLeBytes (w : UInt32) :
    u32FromLeBytes (UInt8.ofNat w.toNat) (UInt8.ofNat (w.toNat / 256))
      (UInt8.ofNat (w.toNat / 65536)) (UInt8.ofNat (w.toNat / 16777216)) = w := by
  have hw := w.toNat_lt
  apply UInt32.toNat_inj.1
  simp only [u32FromLeBytes, UInt32.toNat_ofNat', UInt8.toNat_ofNat']
  omega

theorem u32ToLeBytes_u32FromLeBytes (b₀ b₁ b₂ b₃ : UInt8) :
    u32ToLeBytes (u32FromLeBytes b₀ b₁ b₂ b₃) = [b₀, b₁, b₂, b₃] := by
  have h₀ := b₀.toNat_lt
  have h₁ := b₁.toNat_lt
  have h₂ := b₂.toNat_lt
  have h₃ := b₃.toNat_lt
  simp only [u32ToLeBytes, u32FromLeBytes, List.cons.injEq, and_true, ← UInt8.toNat_inj,
    UInt32.toNat_ofNat', UInt8.toNat_ofNat']
  omega

theorem toLeBytes_fromLeBytes (b₀ b₁ : UInt8) : toLeBytes (fromLeBytes b₀ b₁) = [b₀, b₁] := by
  have h₀ := b₀.toNat_lt
  have h₁ := b₁.toNat_lt
  simp only [toLeBytes, fromLeBytes, List.cons.injEq, and_true, ← UInt8.toNat_inj,
    UInt16.toNat_ofNat', UInt8.toNat_ofNat']
  omega

theorem toNat_nameLen (n : ℕ) : (UInt8.ofNat (min n 64)).toNat = min n 64 := by
  rw [UInt8.toNat_ofNat']
  omega

theorem take_min_length (b : List UInt8) (n : ℕ) : b.take (min b.length n) = b.take n := by
  rw [List.take_eq_take_iff]
  omega

theorem length_take_64 (b : List UInt8) : (b.take 64).length = min b.length 64 := by
  rw [List.length_take, Nat.min_comm]

/-- The first 64 bytes of a name are encoded. -/
theorem encodeRequest_eq_take (r : RegistrationRequest) :
    encodeRequest r = requestBytes r.pid r.revision ((bytes r.name).take 64) := by
  simp only [encodeRequest, requestBytes, maxNameLen, toNat_nameLen, length_take_64,
    take_min_length]
  simp

theorem encodeResponse_eq_take (r : RegistrationResponse) :
    encodeResponse r = responseBytes r.status r.clientId ((bytes r.channelName).take 64) := by
  simp only [encodeResponse, responseBytes, maxChannelNameLen, toNat_nameLen, length_take_64,
    take_min_length]
  simp

theorem encodeRequest_eq {r : RegistrationRequest} (h : (bytes r.name).length ≤ 64) :
    encodeRequest r = requestBytes r.pid r.revision (bytes r.name) := by
  rw [encodeRequest_eq_take, List.take_of_length_le h]

theorem encodeResponse_eq {r : RegistrationResponse} (h : (bytes r.channelName).length ≤ 64) :
    encodeResponse r = responseBytes r.status r.clientId (bytes r.channelName) := by
  rw [encodeResponse_eq_take, List.take_of_length_le h]

/-! ### What is decoded -/

theorem lift_bind {α β : Type} (x : α) (f : α → Decoded β) :
    (ExceptT.lift (some x) >>= f : Decoded β) = f x := rfl

theorem slice_of_le {data : List UInt8} {a b : ℕ} (ha : a ≤ b) (hb : b ≤ data.length) :
    slice data a b = ExceptT.lift (some ((data.take b).drop a)) := by
  rw [slice, if_pos ⟨ha, hb⟩]

theorem decodeRequest_cons (m₀ m₁ m₂ m₃ v ty p₀ p₁ p₂ p₃ r₀ r₁ n : UInt8) (rest : List UInt8) :
    decodeRequest (m₀ :: m₁ :: m₂ :: m₃ :: v :: ty :: p₀ :: p₁ :: p₂ :: p₃ :: r₀ :: r₁ :: n ::
      rest) = some (
        if u32FromLeBytes m₀ m₁ m₂ m₃ ≠ dispatchMagic then .error .corrupted
        else if v ≠ dispatchVersion then .error .handshakeFailed
        else if ty ≠ msgTypeRequest then .error .handshakeFailed
        else if rest.length < n.toNat then .error .messageTooSmall
        else .ok ⟨u32FromLeBytes p₀ p₁ p₂ p₃, fromLeBytes r₀ r₁,
          fromUtf8Lossy (rest.take n.toNat)⟩) := by
  have hlen : (m₀ :: m₁ :: m₂ :: m₃ :: v :: ty :: p₀ :: p₁ :: p₂ :: p₃ :: r₀ :: r₁ :: n ::
      rest).length = 13 + rest.length := by
    simp only [List.length_cons]
    omega
  simp only [decodeRequest, byteAt, List.getElem?_cons_zero, List.getElem?_cons_succ, lift_bind,
    hlen]
  rw [if_neg (by omega)]
  split_ifs with hm hv hty hn hn'
  · rfl
  · rfl
  · rfl
  · rfl
  · omega
  · omega
  · rw [slice_of_le (by omega) (by omega), Nat.add_comm 13]
    rfl

theorem decodeResponse_cons (m₀ m₁ m₂ m₃ v ty st c₀ c₁ c₂ c₃ n : UInt8) (rest : List UInt8) :
    decodeResponse (m₀ :: m₁ :: m₂ :: m₃ :: v :: ty :: st :: c₀ :: c₁ :: c₂ :: c₃ :: n :: rest) =
      some (
        if u32FromLeBytes m₀ m₁ m₂ m₃ ≠ dispatchMagic then .error .corrupted
        else if v ≠ dispatchVersion then .error .handshakeFailed
        else if ty ≠ msgTypeResponse then .error .handshakeFailed
        else if rest.length < n.toNat then .error .messageTooSmall
        else .ok ⟨st, u32FromLeBytes c₀ c₁ c₂ c₃, fromUtf8Lossy (rest.take n.toNat)⟩) := by
  have hlen : (m₀ :: m₁ :: m₂ :: m₃ :: v :: ty :: st :: c₀ :: c₁ :: c₂ :: c₃ :: n :: rest).length =
      12 + rest.length := by
    simp only [List.length_cons]
    omega
  simp only [decodeResponse, byteAt, List.getElem?_cons_zero, List.getElem?_cons_succ, lift_bind,
    hlen]
  rw [if_neg (by omega)]
  split_ifs with hm hv hty hn hn'
  · rfl
  · rfl
  · rfl
  · rfl
  · omega
  · omega
  · rw [slice_of_le (by omega) (by omega), Nat.add_comm 12]
    rfl

theorem exists_cons {k : ℕ} {d : List UInt8} (h : k + 1 ≤ d.length) :
    ∃ b t, d = b :: t ∧ k ≤ t.length := by
  obtain ⟨b, t, rfl⟩ := List.exists_cons_of_length_pos (Nat.lt_of_lt_of_le (Nat.succ_pos k) h)
  exact ⟨b, t, rfl, Nat.le_of_succ_le_succ h⟩

/-- Bytes that are long enough for the header of a response. -/
theorem exists_header {k : ℕ} {d : List UInt8} (h : k + 12 ≤ d.length) :
    ∃ b₀ b₁ b₂ b₃ b₄ b₅ b₆ b₇ b₈ b₉ b₁₀ b₁₁ t, d = b₀ :: b₁ :: b₂ :: b₃ :: b₄ :: b₅ :: b₆ :: b₇ ::
      b₈ :: b₉ :: b₁₀ :: b₁₁ :: t ∧ k ≤ t.length := by
  obtain ⟨b₀, d, rfl, h₀⟩ := exists_cons h
  obtain ⟨b₁, d, rfl, h₁⟩ := exists_cons h₀
  obtain ⟨b₂, d, rfl, h₂⟩ := exists_cons h₁
  obtain ⟨b₃, d, rfl, h₃⟩ := exists_cons h₂
  obtain ⟨b₄, d, rfl, h₄⟩ := exists_cons h₃
  obtain ⟨b₅, d, rfl, h₅⟩ := exists_cons h₄
  obtain ⟨b₆, d, rfl, h₆⟩ := exists_cons h₅
  obtain ⟨b₇, d, rfl, h₇⟩ := exists_cons h₆
  obtain ⟨b₈, d, rfl, h₈⟩ := exists_cons h₇
  obtain ⟨b₉, d, rfl, h₉⟩ := exists_cons h₈
  obtain ⟨b₁₀, d, rfl, h₁₀⟩ := exists_cons h₉
  obtain ⟨b₁₁, d, rfl, h₁₁⟩ := exists_cons h₁₀
  exact ⟨b₀, b₁, b₂, b₃, b₄, b₅, b₆, b₇, b₈, b₉, b₁₀, b₁₁, d, rfl, h₁₁⟩

/-- A length byte and what it counts. -/
theorem cons_eq_append_iff {n : UInt8} {rest : List UInt8} :
    n.toNat ≤ rest.length ↔ ∃ b t, b.length ≤ 255 ∧ n :: rest = UInt8.ofNat b.length :: b ++ t ∧
      rest.take n.toNat = b := by
  constructor
  · intro h
    have hn := n.toNat_lt
    have hlen : (rest.take n.toNat).length = n.toNat := List.length_take_of_le h
    refine ⟨_, rest.drop n.toNat, by omega, ?_, rfl⟩
    rw [List.cons_append, List.take_append_drop, hlen, UInt8.ofNat_toNat]
  · rintro ⟨b, t, hb, h, -⟩
    obtain ⟨rfl, rfl⟩ := List.cons.inj h
    change _ ≤ (b ++ t).length
    rw [UInt8.toNat_ofNat', List.length_append]
    omega

/-- **What `decode_request` accepts.** -/
theorem decodeRequest_iff {d : List UInt8} {r : RegistrationRequest} :
    decodeRequest d = some (.ok r) ↔ ∃ b t, b.length ≤ 255 ∧
      d = requestBytes r.pid r.revision b ++ t ∧ r.name = fromUtf8Lossy b := by
  constructor
  · intro h
    by_cases hlen : d.length < 13
    · rw [decodeRequest, if_pos hlen] at h
      cases h
    · obtain ⟨m₀, m₁, m₂, m₃, v, ty, p₀, p₁, p₂, p₃, r₀, r₁, d, rfl, hd⟩ :=
        exists_header (k := 1) (Nat.not_lt.1 hlen)
      obtain ⟨n, rest, rfl, -⟩ := exists_cons hd
      rw [decodeRequest_cons, Option.some_inj] at h
      split_ifs at h with hm hv hty hn
      obtain ⟨b, t, hb, hd, hname⟩ := cons_eq_append_iff.1 (Nat.not_lt.1 hn)
      rw [not_not] at hm hv hty
      cases h
      refine ⟨b, t, hb, ?_, by rw [hname]⟩
      rw [hd, requestBytes, ← hm, hv, hty, u32ToLeBytes_u32FromLeBytes,
        u32ToLeBytes_u32FromLeBytes, toLeBytes_fromLeBytes]
      simp
  · rintro ⟨b, t, hb, rfl, hname⟩
    have hlen : (UInt8.ofNat b.length).toNat = b.length := by
      rw [UInt8.toNat_ofNat']
      omega
    simp only [requestBytes, u32ToLeBytes, toLeBytes, List.cons_append, List.nil_append]
    rw [decodeRequest_cons, u32FromLeBytes_u32ToLeBytes, u32FromLeBytes_u32ToLeBytes,
      fromLeBytes_toLeBytes, hlen, List.take_left, if_neg (not_not.2 rfl), if_neg (not_not.2 rfl),
      if_neg (not_not.2 rfl), if_neg (by rw [List.length_append]; omega), ← hname]

/-- **What `decode_response` accepts.** -/
theorem decodeResponse_iff {d : List UInt8} {r : RegistrationResponse} :
    decodeResponse d = some (.ok r) ↔ ∃ b t, b.length ≤ 255 ∧
      d = responseBytes r.status r.clientId b ++ t ∧ r.channelName = fromUtf8Lossy b := by
  constructor
  · intro h
    by_cases hlen : d.length < 12
    · rw [decodeResponse, if_pos hlen] at h
      cases h
    · obtain ⟨m₀, m₁, m₂, m₃, v, ty, st, c₀, c₁, c₂, c₃, n, rest, rfl, -⟩ :=
        exists_header (k := 0) (Nat.not_lt.1 hlen)
      rw [decodeResponse_cons, Option.some_inj] at h
      split_ifs at h with hm hv hty hn
      obtain ⟨b, t, hb, hd, hname⟩ := cons_eq_append_iff.1 (Nat.not_lt.1 hn)
      rw [not_not] at hm hv hty
      cases h
      refine ⟨b, t, hb, ?_, by rw [hname]⟩
      rw [hd, responseBytes, ← hm, hv, hty, u32ToLeBytes_u32FromLeBytes,
        u32ToLeBytes_u32FromLeBytes]
      simp
  · rintro ⟨b, t, hb, rfl, hname⟩
    have hlen : (UInt8.ofNat b.length).toNat = b.length := by
      rw [UInt8.toNat_ofNat']
      omega
    simp only [responseBytes, u32ToLeBytes, List.cons_append, List.nil_append]
    rw [decodeResponse_cons, u32FromLeBytes_u32ToLeBytes, u32FromLeBytes_u32ToLeBytes, hlen,
      List.take_left, if_neg (not_not.2 rfl), if_neg (not_not.2 rfl), if_neg (not_not.2 rfl),
      if_neg (by rw [List.length_append]; omega), ← hname]

/-- No index of `decode_request` is out of range. -/
theorem decodeRequest_ne_none (d : List UInt8) : decodeRequest d ≠ none := by
  by_cases hlen : d.length < 13
  · rw [decodeRequest, if_pos hlen]
    rintro ⟨⟩
  · obtain ⟨m₀, m₁, m₂, m₃, v, ty, p₀, p₁, p₂, p₃, r₀, r₁, d, rfl, hd⟩ :=
      exists_header (k := 1) (Nat.not_lt.1 hlen)
    obtain ⟨n, rest, rfl, -⟩ := exists_cons hd
    rw [decodeRequest_cons]
    rintro ⟨⟩

/-- No index of `decode_response` is out of range. -/
theorem decodeResponse_ne_none (d : List UInt8) : decodeResponse d ≠ none := by
  by_cases hlen : d.length < 12
  · rw [decodeResponse, if_pos hlen]
    rintro ⟨⟩
  · obtain ⟨m₀, m₁, m₂, m₃, v, ty, st, c₀, c₁, c₂, c₃, n, rest, rfl, -⟩ :=
      exists_header (k := 0) (Nat.not_lt.1 hlen)
    rw [decodeResponse_cons]
    rintro ⟨⟩

/-! ### The round trip -/

theorem decodeRequest_encodeRequest {r : RegistrationRequest} (h : (bytes r.name).length ≤ 64)
    (t : List UInt8) : decodeRequest (encodeRequest r ++ t) = some (.ok r) := by
  rw [decodeRequest_iff, encodeRequest_eq h]
  exact ⟨bytes r.name, t, Nat.le_trans h (by decide), rfl, (fromUtf8Lossy_bytes r.name).symm⟩

theorem decodeResponse_encodeResponse {s : RegistrationResponse}
    (h : (bytes s.channelName).length ≤ 64) (t : List UInt8) :
    decodeResponse (encodeResponse s ++ t) = some (.ok s) := by
  rw [decodeResponse_iff, encodeResponse_eq h]
  exact ⟨bytes s.channelName, t, Nat.le_trans h (by decide), rfl,
    (fromUtf8Lossy_bytes s.channelName).symm⟩

/-- The two types of message are told apart by the sixth byte. -/
theorem requestBytes_ne_responseBytes {pid clientId : UInt32} {revision : UInt16} {status : UInt8}
    {b b' t t' : List UInt8} :
    requestBytes pid revision b ++ t ≠ responseBytes status clientId b' ++ t' := by
  intro h
  have h' := congrArg (fun d => d[5]?) h
  simp [requestBytes, responseBytes, u32ToLeBytes, msgTypeRequest, msgTypeResponse] at h'

theorem exists_error_of_ne {α : Type} {x : Decoded α} (hn : x ≠ none)
    (hok : ∀ a, x ≠ some (.ok a)) : ∃ e, x = some (.error e) := by
  obtain ⟨y, rfl⟩ : ∃ y, x = some y := Option.ne_none_iff_exists'.1 hn
  cases y with
  | error e => exact ⟨e, rfl⟩
  | ok a => exact absurd rfl (hok a)

theorem decodeResponse_encodeRequest {r : RegistrationRequest} (h : (bytes r.name).length ≤ 64)
    (t : List UInt8) : ∃ e, decodeResponse (encodeRequest r ++ t) = some (.error e) := by
  refine exists_error_of_ne (decodeResponse_ne_none _) fun s hs => ?_
  obtain ⟨b, t', -, hd, -⟩ := decodeResponse_iff.1 hs
  rw [encodeRequest_eq h] at hd
  exact requestBytes_ne_responseBytes hd

theorem decodeRequest_encodeResponse {s : RegistrationResponse}
    (h : (bytes s.channelName).length ≤ 64) (t : List UInt8) :
    ∃ e, decodeRequest (encodeResponse s ++ t) = some (.error e) := by
  refine exists_error_of_ne (decodeRequest_ne_none _) fun r hr => ?_
  obtain ⟨b, t', -, hd, -⟩ := decodeRequest_iff.1 hr
  rw [encodeResponse_eq h] at hd
  exact requestBytes_ne_responseBytes hd.symm

theorem length_requestBytes (pid : UInt32) (revision : UInt16) (b : List UInt8) :
    (requestBytes pid revision b).length = 13 + b.length := by
  simp only [requestBytes, u32ToLeBytes, toLeBytes, List.cons_append, List.nil_append,
    List.length_cons]
  omega

theorem length_responseBytes (status : UInt8) (clientId : UInt32) (b : List UInt8) :
    (responseBytes status clientId b).length = 12 + b.length := by
  simp only [responseBytes, u32ToLeBytes, List.cons_append, List.nil_append, List.length_cons]
  omega

theorem valid_encodeRequest {r : RegistrationRequest} (h : (bytes r.name).length ≤ 64) :
    Payload.Valid (encodeRequest r) := by
  rw [encodeRequest_eq h, Payload.Valid, length_requestBytes, minMessageSize, maxMessageSize]
  omega

theorem valid_encodeResponse {s : RegistrationResponse} (h : (bytes s.channelName).length ≤ 64) :
    Payload.Valid (encodeResponse s) := by
  rw [encodeResponse_eq h, Payload.Valid, length_responseBytes, minMessageSize, maxMessageSize]
  omega

/-- **The lobby codec is a round trip**, whatever follows a message; a message of one type is
rejected as one of the other, and the ring takes both. -/
theorem codec_roundTrip (r : RegistrationRequest) (s : RegistrationResponse) (t : List UInt8)
    (hr : (bytes r.name).length ≤ 64) (hs : (bytes s.channelName).length ≤ 64) :
    decodeRequest (encodeRequest r ++ t) = some (.ok r) ∧
      decodeResponse (encodeResponse s ++ t) = some (.ok s) ∧
      (∃ e, decodeResponse (encodeRequest r ++ t) = some (.error e)) ∧
      (∃ e, decodeRequest (encodeResponse s ++ t) = some (.error e)) ∧
      Payload.Valid (encodeRequest r) ∧ Payload.Valid (encodeResponse s) :=
  ⟨decodeRequest_encodeRequest hr t, decodeResponse_encodeResponse hs t,
    decodeResponse_encodeRequest hr t, decodeRequest_encodeResponse hs t, valid_encodeRequest hr,
    valid_encodeResponse hs⟩

theorem codec_roundTrip_request :
    decodeRequest (encodeRequest ⟨1234, 7, "test"⟩ ++ [0]) = some (.ok ⟨1234, 7, "test"⟩) :=
  (codec_roundTrip ⟨1234, 7, "test"⟩ ⟨0, 1, ""⟩ [0] (by decide) (by decide)).1

/-! ### Names that are too long -/

/-- The name of a request is cut, but not altered, by encoding and decoding it. -/
def KeepsRequest (r : RegistrationRequest) : Prop :=
  ∃ name, decodeRequest (encodeRequest r) = some (.ok { r with name := name }) ∧
    name.toList <+: r.name.toList ∧ (bytes name).length ≤ 64

/-- The name of a response is cut, but not altered, by encoding and decoding it. -/
def KeepsResponse (r : RegistrationResponse) : Prop :=
  ∃ name, decodeResponse (encodeResponse r) = some (.ok { r with channelName := name }) ∧
    name.toList <+: r.channelName.toList ∧ (bytes name).length ≤ 64

/-- A request is always decoded, and only its name changes. -/
theorem decodeRequest_encodeRequest_eq (r : RegistrationRequest) :
    decodeRequest (encodeRequest r) =
      some (.ok { r with name := fromUtf8Lossy ((bytes r.name).take 64) }) := by
  refine decodeRequest_iff.2 ⟨(bytes r.name).take 64, [], ?_, ?_, rfl⟩
  · rw [length_take_64]
    omega
  · rw [encodeRequest_eq_take, List.append_nil]

theorem decodeResponse_encodeResponse_eq (r : RegistrationResponse) :
    decodeResponse (encodeResponse r) =
      some (.ok { r with channelName := fromUtf8Lossy ((bytes r.channelName).take 64) }) := by
  refine decodeResponse_iff.2 ⟨(bytes r.channelName).take 64, [], ?_, ?_, rfl⟩
  · rw [length_take_64]
    omega
  · rw [encodeResponse_eq_take, List.append_nil]

theorem keepsRequest_iff (r : RegistrationRequest) :
    KeepsRequest r ↔ CutsAt r.name maxNameLen := by
  rw [KeepsRequest, decodeRequest_encodeRequest_eq, maxNameLen, ← lossy_prefix_iff]
  constructor
  · rintro ⟨name, hname, hkept⟩
    obtain rfl : fromUtf8Lossy ((bytes r.name).take 64) = name :=
      congrArg RegistrationRequest.name (Except.ok.inj (Option.some.inj hname))
    exact hkept
  · intro hkept
    exact ⟨_, rfl, hkept⟩

theorem keepsResponse_iff (r : RegistrationResponse) :
    KeepsResponse r ↔ CutsAt r.channelName maxChannelNameLen := by
  rw [KeepsResponse, decodeResponse_encodeResponse_eq, maxChannelNameLen, ← lossy_prefix_iff]
  constructor
  · rintro ⟨name, hname, hkept⟩
    obtain rfl : fromUtf8Lossy ((bytes r.channelName).take 64) = name :=
      congrArg RegistrationResponse.channelName (Except.ok.inj (Option.some.inj hname))
    exact hkept
  · intro hkept
    exact ⟨_, rfl, hkept⟩

/-- **Names are cut, not altered**, exactly if no character is divided after 64 bytes. -/
theorem cutNames_iff (r : RegistrationRequest) (s : RegistrationResponse) :
    (KeepsRequest r ↔ CutsAt r.name maxNameLen) ∧
      (KeepsResponse s ↔ CutsAt s.channelName maxChannelNameLen) :=
  ⟨keepsRequest_iff r, keepsResponse_iff s⟩

/-- A name of 63 letters and a character of two bytes. -/
def divided : String := String.ofList (List.replicate 63 'a' ++ ['\u00E9'])

/-- The character is replaced by U+FFFD. -/
theorem not_cutNames : ¬ ∀ r s, KeepsRequest r ∧ KeepsResponse s := by
  intro h
  have hcut := (keepsRequest_iff ⟨0, 0, divided⟩).1 (h ⟨0, 0, divided⟩ ⟨0, 0, ""⟩).1
  exact absurd hcut (by decide +kernel)

/-! ### What is accepted -/

/-- The decoders accept exactly what the encoders write, whatever follows it. -/
def AcceptsExactly : Prop :=
  ∀ d : List UInt8, decodeRequest d ≠ none ∧ decodeResponse d ≠ none ∧
    (∀ r, decodeRequest d = some (.ok r) ↔
      (bytes r.name).length ≤ 64 ∧ ∃ t, d = encodeRequest r ++ t) ∧
    (∀ s, decodeResponse d = some (.ok s) ↔
      (bytes s.channelName).length ≤ 64 ∧ ∃ t, d = encodeResponse s ++ t)

/-- The byte `0xFF` is in no UTF-8 text, but a request with this name is accepted. -/
theorem not_acceptsExactly : ¬ AcceptsExactly := by
  intro h
  have hd : decodeRequest (requestBytes 0 0 [0xFF]) = some (.ok ⟨0, 0, "\uFFFD"⟩) :=
    decodeRequest_iff.2 ⟨[0xFF], [], by decide, rfl, by decide⟩
  obtain ⟨-, t, ht⟩ := ((h _).2.2.1 _).1 hd
  have := congrArg (fun d => d[12]?) ht
  revert this
  exact (by decide : some (1 : UInt8) ≠ some 3)

/-- The byte of `d` at `i`, where the length of a name is, is at most 64. -/
def NameLenAt (i : ℕ) (d : List UInt8) : Prop := ∀ n, d[i]? = some n → n.toNat ≤ 64

theorem getElem?_requestBytes (pid : UInt32) (revision : UInt16) (b t : List UInt8) :
    (requestBytes pid revision b ++ t)[12]? = some (UInt8.ofNat b.length) := by
  simp [requestBytes, u32ToLeBytes, toLeBytes]

theorem getElem?_responseBytes (status : UInt8) (clientId : UInt32) (b t : List UInt8) :
    (responseBytes status clientId b ++ t)[11]? = some (UInt8.ofNat b.length) := by
  simp [responseBytes, u32ToLeBytes]

theorem NameLenAt.length_le {i : ℕ} {d b : List UInt8} (h : NameLenAt i d) (hb : b.length ≤ 255)
    (hd : d[i]? = some (UInt8.ofNat b.length)) : b.length ≤ 64 := by
  have := h _ hd
  rw [UInt8.toNat_ofNat'] at this
  omega

theorem decodeRequest_documented {d : List UInt8} (h : NameLenAt 12 d) (r : RegistrationRequest) :
    decodeRequest d = some (.ok r) ↔ ∃ b t, b.length ≤ 64 ∧
      d = requestBytes r.pid r.revision b ++ t ∧ r.name = fromUtf8Lossy b ∧
      ∀ name, b = bytes name → d = encodeRequest r ++ t := by
  rw [decodeRequest_iff]
  constructor
  · rintro ⟨b, t, hb, rfl, hname⟩
    have hb' : b.length ≤ 64 := h.length_le hb (getElem?_requestBytes _ _ b t)
    refine ⟨b, t, hb', rfl, hname, ?_⟩
    rintro name rfl
    rw [fromUtf8Lossy_bytes] at hname
    rw [encodeRequest_eq (hname ▸ hb'), hname]
  · rintro ⟨b, t, hb, hd, hname, -⟩
    exact ⟨b, t, Nat.le_trans hb (by decide), hd, hname⟩

theorem decodeResponse_documented {d : List UInt8} (h : NameLenAt 11 d)
    (s : RegistrationResponse) :
    decodeResponse d = some (.ok s) ↔ ∃ b t, b.length ≤ 64 ∧
      d = responseBytes s.status s.clientId b ++ t ∧ s.channelName = fromUtf8Lossy b ∧
      ∀ name, b = bytes name → d = encodeResponse s ++ t := by
  rw [decodeResponse_iff]
  constructor
  · rintro ⟨b, t, hb, rfl, hname⟩
    have hb' : b.length ≤ 64 := h.length_le hb (getElem?_responseBytes _ _ b t)
    refine ⟨b, t, hb', rfl, hname, ?_⟩
    rintro name rfl
    rw [fromUtf8Lossy_bytes] at hname
    rw [encodeResponse_eq (hname ▸ hb'), hname]
  · rintro ⟨b, t, hb, hd, hname, -⟩
    exact ⟨b, t, Nat.le_trans hb (by decide), hd, hname⟩

/-- **What the decoders accept**, of the bytes whose length byte is at most 64: the layout with
any bytes in place of the name, which is read as UTF-8 with replacements; where it is UTF-8 the
message is one the encoder writes. -/
theorem decodes_documented (d : List UInt8) :
    decodeRequest d ≠ none ∧ decodeResponse d ≠ none ∧
      (NameLenAt 12 d → ∀ r, decodeRequest d = some (.ok r) ↔ ∃ b t, b.length ≤ 64 ∧
        d = requestBytes r.pid r.revision b ++ t ∧ r.name = fromUtf8Lossy b ∧
        ∀ name, b = bytes name → d = encodeRequest r ++ t) ∧
      (NameLenAt 11 d → ∀ s, decodeResponse d = some (.ok s) ↔ ∃ b t, b.length ≤ 64 ∧
        d = responseBytes s.status s.clientId b ++ t ∧ s.channelName = fromUtf8Lossy b ∧
        ∀ name, b = bytes name → d = encodeResponse s ++ t) :=
  ⟨decodeRequest_ne_none d, decodeResponse_ne_none d, decodeRequest_documented,
    decodeResponse_documented⟩

theorem decodes_documented_replaced :
    decodeRequest (requestBytes 5 0 [0xFF]) = some (.ok ⟨5, 0, "\uFFFD"⟩) :=
  ((decodes_documented (requestBytes 5 0 [0xFF])).2.2.1
    (by rintro n hn; cases hn; decide) _).2 ⟨[0xFF], [], by decide, rfl, by decide, by
      intro name hname
      have h : name = "\uFFFD" := by
        rw [← fromUtf8Lossy_bytes name, ← hname]
        decide
      rw [h] at hname
      exact absurd hname (by decide)⟩

end Dispatch

end Xshm
