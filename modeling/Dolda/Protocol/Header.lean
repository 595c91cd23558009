/-
# `Dolda.Protocol.Header` — the header of a message

`MessageHeader` of `src/network.rs`: twenty bytes

    magic (4)   version (2)   type (2)   payload length (4)   request id (8)

with all words big-endian.  The encoder writes the discriminant of the message
type; the decoder has a table of its own for it (`msgTypeOfRaw`), and the two are
inverse to one another (`msgTypeOfRaw_eq_ok_iff`).

The bytes are those of the five fields one behind the other (`toBytes_eq`), and
`fromBytes_eq` says what the decoder does with any twenty bytes in terms of the
fields they are the text of; after them no proof opens either.
-/
import Dolda.Lib.Layout
import Dolda.Network.Stream

namespace Dolda.Protocol

open Memory (window splice splice_append)
open Layout (u16be u32be u64be)
open Network (IoError)

/-! ## Errors -/

inductive NetworkError where
  | io (error : IoError)
  | serialization (message : String)
  | unsupportedVersion (version : UInt16)
  | invalidMessage (message : String)
  | connection (message : String)
  | timeout
deriving DecidableEq, Repr

/-! ## The header -/

def protocolVersion : UInt16 := 1

def protocolMagic : UInt32 := 0xD01DA001

inductive MessageType where
  | ping
  | pong
  | appendRequest
  | appendResponse
  | readRequest
  | readResponse
  | replicateRequest
  | replicateResponse
  | healthRequest
  | healthResponse
  | error
deriving DecidableEq, Repr

/-- `msg_type as u16`. -/
def MessageType.discriminant : MessageType → UInt16
  | ping => 1
  | pong => 2
  | appendRequest => 10
  | appendResponse => 11
  | readRequest => 12
  | readResponse => 13
  | replicateRequest => 20
  | replicateResponse => 21
  | healthRequest => 30
  | healthResponse => 31
  | error => 255

structure MessageHeader where
  magic : UInt32
  version : UInt16
  msgType : MessageType
  payloadLen : UInt32
  requestId : UInt64
deriving DecidableEq, Repr

/-- A number as the format `x` with the flag `#` shows it. -/
def lowerHex (n : Nat) : String := "0x" ++ String.ofList (Nat.toDigits 16 n)

namespace MessageHeader

def size : Nat := 4 + 2 + 2 + 4 + 8

def new (msgType : MessageType) (payloadLen : UInt32) (requestId : UInt64) : MessageHeader :=
  { magic := protocolMagic, version := protocolVersion, msgType, payloadLen, requestId }

def toBytes (h : MessageHeader) : List UInt8 :=
  let bytes := List.replicate size 0
  let bytes := splice bytes 0 (u32be.write h.magic)
  let bytes := splice bytes 4 (u16be.write h.version)
  let bytes := splice bytes 6 (u16be.write h.msgType.discriminant)
  let bytes := splice bytes 8 (u32be.write h.payloadLen)
  splice bytes 12 (u64be.write h.requestId)

/-- The match on the raw message type in `from_bytes`. -/
def msgTypeOfRaw (msgTypeRaw : UInt16) : Except NetworkError MessageType :=
  match msgTypeRaw with
  | 1 => .ok .ping
  | 2 => .ok .pong
  | 10 => .ok .appendRequest
  | 11 => .ok .appendResponse
  | 12 => .ok .readRequest
  | 13 => .ok .readResponse
  | 20 => .ok .replicateRequest
  | 21 => .ok .replicateResponse
  | 30 => .ok .healthRequest
  | 31 => .ok .healthResponse
  | 255 => .ok .error
  | _ => .error (.invalidMessage ("Unknown message type: " ++ toString msgTypeRaw.toNat))

def fromBytes (bytes : List UInt8) : Except NetworkError MessageHeader :=
  if bytes.length < size then
    .error (.invalidMessage ("Header too short: " ++ toString bytes.length ++ " bytes"))
  else
    let magic := u32be.read (window bytes 0 4)
    if magic ≠ protocolMagic then
      .error (.invalidMessage ("Invalid magic: " ++ lowerHex magic.toNat))
    else
      let version := u16be.read (window bytes 4 2)
      if version ≠ protocolVersion then .error (.unsupportedVersion version)
      else
        let msgTypeRaw := u16be.read (window bytes 6 2)
        match msgTypeOfRaw msgTypeRaw with
        | .error e => .error e
        | .ok msgType =>
            let payloadLen := u32be.read (window bytes 8 4)
            let requestId := u64be.read (window bytes 12 8)
            .ok { magic, version, msgType, payloadLen, requestId }

/-! ## The fields

Writing behind the bytes written so far takes the place of as many zeros, so nothing is
left of the zeros in the end; and the ranges the decoder reads are the fields'. -/

/-- The five fields, one behind the other. -/
def fields : Layout (UInt32 × UInt16 × UInt16 × UInt32 × UInt64) UInt8 :=
  u32be.followed (u16be.followed (u16be.followed (u32be.followed u64be)))

theorem fields_size : fields.size = size := rfl

theorem splice_zeros {pre w : List UInt8} {a n : Nat} (h : pre.length = a) :
    splice (pre ++ List.replicate n 0) a w = (pre ++ w) ++ List.replicate (n - w.length) 0 := by
  rw [splice_append h, List.drop_replicate, List.append_assoc]

theorem toBytes_eq (h : MessageHeader) :
    h.toBytes = fields.write
      (h.magic, h.version, h.msgType.discriminant, h.payloadLen, h.requestId) := by
  have hstart : List.replicate size (0 : UInt8) = [] ++ List.replicate size 0 := rfl
  rw [toBytes, hstart, splice_zeros List.length_nil, splice_zeros, splice_zeros, splice_zeros,
    splice_zeros]
  · simp [fields, size]
  all_goals simp

theorem toBytes_length (h : MessageHeader) : h.toBytes.length = size := by
  rw [toBytes_eq, fields.write_length, fields_size]

theorem fields_read (bytes : List UInt8) :
    fields.read (bytes.take size) =
      (u32be.read (window bytes 0 4), u16be.read (window bytes 4 2),
        u16be.read (window bytes 6 2), u32be.read (window bytes 8 4),
        u64be.read (window bytes 12 8)) := by
  rw [← fields_size, ← Memory.window_zero, fields, Layout.followed_read_window,
    Layout.followed_read_window, Layout.followed_read_window, Layout.followed_read_window]
  rfl

/-- **What the decoder does with a header**, in terms of its fields. -/
theorem fromBytes_eq {bytes : List UInt8} (hlen : size ≤ bytes.length) {m : UInt32}
    {v r : UInt16} {l : UInt32} {id : UInt64}
    (hread : fields.read (bytes.take size) = (m, v, r, l, id)) :
    fromBytes bytes =
      if m ≠ protocolMagic then .error (.invalidMessage ("Invalid magic: " ++ lowerHex m.toNat))
      else if v ≠ protocolVersion then .error (.unsupportedVersion v)
      else match msgTypeOfRaw r with
        | .error e => .error e
        | .ok t => .ok { magic := m, version := v, msgType := t, payloadLen := l, requestId := id }
      := by
  rw [fields_read] at hread
  cases hread
  rw [fromBytes, if_neg (Nat.not_lt.mpr hlen)]

/-! ## Accepted headers -/

/-- The encoder's discriminants and the decoder's table are inverse to one another. -/
theorem msgTypeOfRaw_eq_ok_iff {raw : UInt16} {t : MessageType} :
    msgTypeOfRaw raw = .ok t ↔ raw = t.discriminant := by
  constructor
  · intro h
    unfold msgTypeOfRaw at h
    split at h <;> cases h <;> rfl
  · intro h
    subst h
    cases t <;> rfl

/-- The front is the text of a header made by `new` iff its fields are the header's. -/
theorem take_eq_toBytes_iff {bytes : List UInt8} (hlen : size ≤ bytes.length) (t : MessageType)
    (len : UInt32) (id : UInt64) :
    bytes.take size = (new t len id).toBytes ↔
      fields.read (bytes.take size)
        = (protocolMagic, protocolVersion, t.discriminant, len, id) := by
  rw [toBytes_eq]
  exact fields.take_eq_write_iff hlen _

theorem fromBytes_eq_ok_iff (bytes : List UInt8) (h : MessageHeader) :
    fromBytes bytes = .ok h ↔ size ≤ bytes.length ∧
      ∃ t len id, bytes.take size = (new t len id).toBytes ∧ h = new t len id := by
  by_cases hlen : size ≤ bytes.length
  · constructor
    · intro hok
      obtain ⟨m, v, r, l, id, hread⟩ :
          ∃ m v r l id, fields.read (bytes.take size) = (m, v, r, l, id) := ⟨_, _, _, _, _, rfl⟩
      rw [fromBytes_eq hlen hread] at hok
      split at hok
      · cases hok
      rename_i hm
      split at hok
      · cases hok
      rename_i hv
      split at hok
      · cases hok
      rename_i t ht
      cases hok
      have hmagic : m = protocolMagic := Decidable.not_not.mp hm
      have hversion : v = protocolVersion := Decidable.not_not.mp hv
      have htype : r = t.discriminant := msgTypeOfRaw_eq_ok_iff.mp ht
      subst hmagic hversion htype
      exact ⟨hlen, t, l, id, (take_eq_toBytes_iff hlen t l id).mpr hread, rfl⟩
    · rintro ⟨-, t, len, id, htake, rfl⟩
      have htype : msgTypeOfRaw t.discriminant = .ok t := msgTypeOfRaw_eq_ok_iff.mpr rfl
      rw [fromBytes_eq hlen ((take_eq_toBytes_iff hlen t len id).mp htake),
        if_neg (not_not_intro rfl), if_neg (not_not_intro rfl), htype]
      rfl
  · rw [fromBytes, if_pos (Nat.lt_of_not_le hlen)]
    constructor
    · intro hok
      cases hok
    · intro hok
      exact absurd hok.1 hlen

/-- A header made by `new` is read back whatever follows it. -/
theorem fromBytes_toBytes (t : MessageType) (len : UInt32) (id : UInt64) (rest : List UInt8) :
    fromBytes ((new t len id).toBytes ++ rest) = .ok (new t len id) := by
  have hlen : (new t len id).toBytes.length = size := toBytes_length _
  refine (fromBytes_eq_ok_iff _ _).mpr ⟨?_, t, len, id, List.take_left' hlen, rfl⟩
  rw [List.length_append, hlen]
  exact Nat.le_add_right _ _

/-- Writing an accepted header again gives the bytes it was read off. -/
theorem toBytes_of_fromBytes {bytes : List UInt8} {h : MessageHeader}
    (hok : fromBytes bytes = .ok h) : h.toBytes = bytes.take size := by
  obtain ⟨-, t, len, id, htake, rfl⟩ := (fromBytes_eq_ok_iff _ _).mp hok
  exact htake.symm

/-- **The decoder accepts exactly the headers of the encoder**: what it accepts
starts with the twenty bytes of a header made by `new` and is decoded as that
header, every such header is decoded in front of anything, and writing what was
decoded gives the twenty bytes back. -/
theorem decodes_exactly_encoded :
    (∀ (b : List UInt8) (h : MessageHeader), fromBytes b = .ok h ↔
      20 ≤ b.length ∧ ∃ t len id, b.take 20 = (new t len id).toBytes ∧
        h = { magic := protocolMagic, version := protocolVersion, msgType := t,
              payloadLen := len, requestId := id }) ∧
    (∀ (t : MessageType) (len : UInt32) (id : UInt64) (rest : List UInt8),
      fromBytes ((new t len id).toBytes ++ rest) = .ok (new t len id)) ∧
    ∀ (b : List UInt8) (h : MessageHeader), fromBytes b = .ok h → h.toBytes = b.take 20 := by
  refine ⟨fromBytes_eq_ok_iff, fromBytes_toBytes, ?_⟩
  intro b h hok
  exact toBytes_of_fromBytes hok

theorem decodes_exactly_encoded_ping :
    (new .ping 100 42).toBytes = ((new .ping 100 42).toBytes ++ [7]).take 20 :=
  decodes_exactly_encoded.2.2 _ _ (decodes_exactly_encoded.2.1 .ping 100 42 [7])

end MessageHeader

end Dolda.Protocol
