/-
# `Dolda.Protocol.Message` — messages on a stream

`Message` of `src/network.rs`: a header and as many bytes of payload as it says.
A message is read off a stream in two steps, the second of which believes the
header; nothing separates one message from the next.

**The rule.**  `read_from` answers with a message exactly when the stream begins
with the bytes of one that `new` makes, of a payload whose length fits its field
(`readFrom_readsFrames`), and it takes these bytes.  So reading stays in step with
what was written whatever the payloads look like, and a message that is cut off
is never taken for another.
-/
import Dolda.Lib.Framing
import Dolda.Protocol.Header

namespace Dolda.Protocol

open Framing (ReadsFrames readMany)
open Network (TcpStream readExact_append readExact_eq_some_iff)

structure Message where
  header : MessageHeader
  payload : List UInt8
deriving DecidableEq, Repr

namespace Message

/-- A length of 2^32 or more is cut off. -/
def new (msgType : MessageType) (payload : List UInt8) (requestId : UInt64) : Message :=
  let header := MessageHeader.new msgType (UInt32.ofNat payload.length) requestId
  { header, payload }

def toBytes (m : Message) : List UInt8 := m.header.toBytes ++ m.payload

def readFrom : EStateM NetworkError TcpStream Message := do
  let headerBytes ← EStateM.adaptExcept .io (TcpStream.readExact MessageHeader.size)
  let header ← MonadExcept.ofExcept (MessageHeader.fromBytes headerBytes)
  let payload ← EStateM.adaptExcept .io (TcpStream.readExact header.payloadLen.toNat)
  return { header, payload }

/-- Flushing a TCP stream does nothing. -/
def writeTo (m : Message) : EStateM NetworkError TcpStream Unit := do
  let bytes := m.toBytes
  EStateM.adaptExcept .io (TcpStream.writeAll bytes)

/-! ## What is sent and what is read

A message says its own length, so a read takes exactly its bytes and leaves those behind
it: as many reads as there are messages stay in step with the writes, whatever the
payloads hold, also if they look like headers. -/

/-- Made by `new`, of a payload whose length fits its field. -/
def Sendable (m : Message) : Prop :=
  ∃ t payload id, payload.length < 2 ^ 32 ∧ m = new t payload id

/-- `read_from`, step by step. -/
theorem readFrom_eq (s : TcpStream) : readFrom s =
    match Network.readExact MessageHeader.size s.incoming with
    | none => .error (.io s.incomingEnd) { s with incoming := [] }
    | some (headerBytes, rest) =>
        match MessageHeader.fromBytes headerBytes with
        | .error e => .error e { s with incoming := rest }
        | .ok header =>
            match Network.readExact header.payloadLen.toNat rest with
            | none => .error (.io s.incomingEnd) { s with incoming := [] }
            | some (payload, rest) => .ok { header, payload } { s with incoming := rest } := by
  simp only [readFrom, bind, EStateM.bind, EStateM.adaptExcept, TcpStream.readExact]
  cases Network.readExact MessageHeader.size s.incoming with
  | none => rfl
  | some p =>
      obtain ⟨headerBytes, rest⟩ := p
      cases hheader : MessageHeader.fromBytes headerBytes with
      | error e =>
          simp only [hheader]
          rfl
      | ok header =>
          simp only [hheader, MonadExcept.ofExcept, pure, EStateM.pure]
          cases Network.readExact header.payloadLen.toNat rest <;> rfl

/-- **`read_from` takes exactly the messages that can be sent**, off the front of
the stream. -/
theorem readFrom_readsFrames (s : TcpStream) :
    ReadsFrames toBytes Sendable readFrom (fun b => { s with incoming := b }) := by
  intro b m s'
  rw [readFrom_eq]
  dsimp only
  constructor
  · intro hok
    split at hok
    · cases hok
    rename_i headerBytes rest hfront
    split at hok
    · cases hok
    rename_i header hheader
    split at hok
    · cases hok
    rename_i payload rest' hback
    cases hok
    obtain ⟨hsize, hb⟩ := readExact_eq_some_iff.mp hfront
    obtain ⟨hlen, rfl⟩ := readExact_eq_some_iff.mp hback
    -- the twenty bytes are those of the header they were read as
    have hbytes : header.toBytes = headerBytes := by
      rw [MessageHeader.toBytes_of_fromBytes hheader, List.take_of_length_le (Nat.le_of_eq hsize)]
    obtain ⟨-, t, len, id, -, rfl⟩ := (MessageHeader.fromBytes_eq_ok_iff _ _).mp hheader
    have hnew : UInt32.ofNat payload.length = len := by
      rw [hlen]
      exact UInt32.ofNat_toNat
    refine ⟨⟨t, payload, id, ?_, ?_⟩, rest', ?_, rfl⟩
    · rw [hlen]
      exact UInt32.toNat_lt _
    · rw [new, hnew]
    · rw [hb, toBytes, hbytes, List.append_assoc]
  · rintro ⟨⟨t, payload, id, hfit, rfl⟩, rest, rfl, rfl⟩
    have hlen : (UInt32.ofNat payload.length).toNat = payload.length := by
      rw [UInt32.toNat_ofNat', Nat.mod_eq_of_lt hfit]
    have hheader := MessageHeader.fromBytes_toBytes t (UInt32.ofNat payload.length) id []
    rw [List.append_nil] at hheader
    simp only [toBytes, new, List.append_assoc, readExact_append (MessageHeader.toBytes_length _),
      hheader]
    rw [readExact_append (by rw [MessageHeader.new, hlen])]

/-- A message that can be sent is read off the front of what has come. -/
theorem readFrom_append {m : Message} (hm : Sendable m) (s : TcpStream) (rest : List UInt8) :
    readFrom { s with incoming := m.toBytes ++ rest } = .ok m { s with incoming := rest } :=
  (readFrom_readsFrames s _ _ _).mpr ⟨hm, rest, rfl, rfl⟩

theorem toBytes_length (m : Message) :
    m.toBytes.length = MessageHeader.size + m.payload.length := by
  rw [toBytes, List.length_append, MessageHeader.toBytes_length]

/-- Of a message that is cut off, a read gets what the stream ends with. -/
theorem readFrom_cut {m : Message} (hm : Sendable m) {cut rest : List UInt8}
    (h : m.toBytes = cut ++ rest) (hrest : rest ≠ []) (s : TcpStream) :
    readFrom { s with incoming := cut } = .error (.io s.incomingEnd) { s with incoming := [] } := by
  obtain ⟨t, payload, id, hfit, rfl⟩ := hm
  have hshort : cut.length < MessageHeader.size + payload.length := by
    have hlen := congrArg List.length h
    rw [toBytes_length, List.length_append] at hlen
    have hpos : 0 < rest.length := List.length_pos_iff.mpr hrest
    change MessageHeader.size + payload.length = _ at hlen
    omega
  rw [readFrom_eq]
  by_cases hheader : MessageHeader.size ≤ cut.length
  · -- the header is there, and says how much is missing
    have htake : cut.take MessageHeader.size
        = (MessageHeader.new t (UInt32.ofNat payload.length) id).toBytes := by
      have htake := congrArg (List.take MessageHeader.size) h
      rw [List.take_append_of_le_length hheader] at htake
      rw [← htake, toBytes, List.take_append_of_le_length (Nat.le_of_eq
        (MessageHeader.toBytes_length _).symm), List.take_of_length_le (Nat.le_of_eq
        (MessageHeader.toBytes_length _))]
      rfl
    have hparse := MessageHeader.fromBytes_toBytes t (UInt32.ofNat payload.length) id []
    have hlen : (UInt32.ofNat payload.length).toNat = payload.length := by
      rw [UInt32.toNat_ofNat', Nat.mod_eq_of_lt hfit]
    rw [List.append_nil, ← htake] at hparse
    have hpart : ¬ payload.length ≤ (cut.drop MessageHeader.size).length := by
      rw [List.length_drop]
      omega
    simp only [Network.readExact, if_pos hheader, hparse, MessageHeader.new, hlen,
      if_neg hpart]
  · simp only [Network.readExact, if_neg hheader]

theorem writeTo_eq (m : Message) {s : TcpStream} (h : s.outgoingEnd = none) :
    m.writeTo s = .ok () { s with outgoing := s.outgoing ++ m.toBytes } := by
  simp only [writeTo, EStateM.adaptExcept, TcpStream.writeAll, h]

/-- **Reading stays in step with writing.**  On a stream that carries messages made
by `new`, of payloads whose lengths fit their fields, and then anything, as many
reads give these messages back in order and leave what follows them.  On a stream
that ends inside one of them the reads give the messages before it, and the next
read gives an error. -/
theorem readFrom_in_step (msgs : List Message)
    (hmsgs : ∀ m ∈ msgs, ∃ t payload id, payload.length < 2 ^ 32 ∧ m = new t payload id) :
    (∀ (s : TcpStream) rest,
      readMany readFrom msgs.length { s with incoming := msgs.flatMap toBytes ++ rest }
        = .ok msgs { s with incoming := rest }) ∧
    ∀ (s : TcpStream) before m after cut, msgs = before ++ m :: after →
      cut <+: m.toBytes → cut ≠ m.toBytes →
      readMany readFrom before.length { s with incoming := before.flatMap toBytes ++ cut }
        = .ok before { s with incoming := cut } ∧
      ∃ e s', readFrom { s with incoming := cut } = .error e s' := by
  constructor
  · intro s rest
    exact ((readFrom_readsFrames s).many _ _ _ _).mpr ⟨rfl, hmsgs, rest, rfl, rfl⟩
  · rintro s before m after cut rfl hcut hne
    have hbefore : ∀ x ∈ before, Sendable x := by
      intro x hx
      exact hmsgs x (List.mem_append_left _ hx)
    have hm : Sendable m := hmsgs m (List.mem_append_right _ List.mem_cons_self)
    constructor
    · exact ((readFrom_readsFrames s).many _ _ _ _).mpr ⟨rfl, hbefore, cut, rfl, rfl⟩
    · exact (readFrom_readsFrames s).cut hm hcut hne

/-- A message whose payload is the bytes of a header. -/
def nested : Message := new .appendRequest (MessageHeader.new .error 7 9).toBytes 1

/-- A connection closed by the peer, with nothing left on it. -/
def closed : TcpStream :=
  { incoming := [], incomingEnd := ⟨.unexpectedEof, "early eof"⟩, outgoing := []
    outgoingEnd := none }

theorem nested_length : nested.toBytes.length = 40 := by
  rw [nested, toBytes, new, List.length_append, MessageHeader.toBytes_length,
    MessageHeader.toBytes_length]
  rfl

theorem nested_sendable : Sendable nested := by
  refine ⟨.appendRequest, (MessageHeader.new .error 7 9).toBytes, 1, ?_, rfl⟩
  rw [MessageHeader.toBytes_length]
  decide

theorem readFrom_in_step_nested :
    readMany readFrom 2
        { closed with incoming := [nested, new .ping [] 2].flatMap toBytes ++ [255] }
      = .ok [nested, new .ping [] 2] { closed with incoming := [255] } ∧
    ∃ e s', readFrom { closed with incoming := nested.toBytes.take 39 } = .error e s' := by
  have hmsgs : ∀ m ∈ [nested, new .ping [] 2],
      ∃ t payload id, payload.length < 2 ^ 32 ∧ m = new t payload id := by
    intro m hm
    rcases List.mem_pair.mp hm with rfl | rfl
    · exact nested_sendable
    · exact ⟨.ping, [], 2, by decide, rfl⟩
  have hcut : nested.toBytes.take 39 ≠ nested.toBytes := by
    intro h
    have hlen := congrArg List.length h
    rw [List.length_take, nested_length] at hlen
    cases hlen
  exact ⟨(readFrom_in_step _ hmsgs).1 closed [255],
    ((readFrom_in_step _ hmsgs).2 closed [] nested [new .ping [] 2] _ rfl
      (List.take_prefix _ _) hcut).2⟩

end Message

end Dolda.Protocol
