/-
# `Dolda.Protocol.Server` — whatever comes to a node

`NetworkServer::handle_connection` of `src/network.rs` with its loop, for a peer that
may send anything: read a message, have the handler answer it, write the response, go
round again.  The handler is any program with a state of its own.

**What is served.**  A stream is the bytes of messages, one after another, and a rest
that no further message can be read off (`Closing`).  The messages are handled in
order, and each is answered by one response that carries its id.  The loop returns
`Ok` iff the peer closes the connection where no whole message is left and no header
that is refused: also in the middle of a message, which is then dropped
(`connection_ok_iff`).
-/
import Dolda.Lib.Loop
import Dolda.Protocol.Connection

namespace Dolda.Protocol

open Network (TcpStream IoError readExact_append readExact_eq_some_iff)

/-- `handle_message`: what it answers, and its state afterwards. -/
abbrev MessageHandler (η : Type) :=
  η → MessageType → List UInt8 → Except NetworkError (List UInt8) × η

/-- A task that runs `handle_connection`. -/
structure ServerTask (η : Type) where
  serving : Serving
  stream : TcpStream
  handler : η

section
variable {η : Type}

/-- Up to the handler, or from there on. -/
def handleConnection (handle : MessageHandler η) (t : ServerTask η) :
    ServerTask η ⊕ (Except NetworkError Unit × ServerTask η) :=
  match t.serving with
  | .reading =>
      match Message.readFrom t.stream with
      | .ok message stream => .inl { t with serving := NetworkServer.accept (.ok message), stream }
      | .error e stream => .inl { t with serving := NetworkServer.accept (.error e), stream }
  | .handling message =>
      let (answer, handler) := handle t.handler message.header.msgType message.payload
      let (serving, stream) := NetworkServer.respond message answer t.stream
      .inl { serving, stream, handler }
  | .returned result => .inr (result, t)

/-! ## What is served -/

/-- A message that was handled, with the payload that answered it. -/
abbrev Answered := Message × List UInt8

def Answered.request (x : Answered) : List UInt8 := x.1.toBytes

/-- The response carries the id of the message. -/
def Answered.response (x : Answered) : Message :=
  Message.new (NetworkServer.getResponseType x.1.header.msgType) x.2 x.1.header.requestId

def Answered.reply (x : Answered) : List UInt8 := x.response.toBytes

/-- The handler answers the messages in order. -/
inductive Answers (handle : MessageHandler η) : η → List Answered → η → Prop where
  | nil (h : η) : Answers handle h [] h
  | cons {h h₁ h₂ : η} {x : Answered} {xs : List Answered} :
      handle h x.1.header.msgType x.1.payload = (.ok x.2, h₁) → Answers handle h₁ xs h₂ →
        Answers handle h (x :: xs) h₂

/-- A stream that ends before a header does, or before the payload that a header says. -/
def Incomplete (rest : List UInt8) : Prop :=
  rest.length < MessageHeader.size ∨
    ∃ header, MessageHeader.fromBytes (rest.take MessageHeader.size) = .ok header ∧
      rest.length < MessageHeader.size + header.payloadLen.toNat

/-- The rest of a stream at which a connection ends: with what result, the handler as it
is left, and the part of a response that was written.  A read that runs out gets `e`, and
a write that runs out of room `full`. -/
inductive Closing (handle : MessageHandler η) (h : η) (e : IoError) (full : Option IoError) :
    List UInt8 → Except NetworkError Unit → η → List UInt8 → Prop where
  | ended {rest : List UInt8} : Incomplete rest → e.kind = .unexpectedEof →
      Closing handle h e full rest (.ok ()) h []
  | broken {rest : List UInt8} : Incomplete rest → e.kind ≠ .unexpectedEof →
      Closing handle h e full rest (.error (.io e)) h []
  | refused {rest : List UInt8} {error : NetworkError} : MessageHeader.size ≤ rest.length →
      MessageHeader.fromBytes (rest.take MessageHeader.size) = .error error →
        Closing handle h e full rest (.error error) h []
  | failed {m : Message} {more : List UInt8} {error : NetworkError} {h' : η} : m.Sendable →
      handle h m.header.msgType m.payload = (.error error, h') →
        Closing handle h e full (m.toBytes ++ more) (.error error) h' []
  /-- The response could not be written, or only in part. -/
  | lost {x : Answered} {more part : List UInt8} {e' : IoError} {h' : η} : x.1.Sendable →
      handle h x.1.header.msgType x.1.payload = (.ok x.2, h') → full = some e' →
        part <+: x.reply →
          Closing handle h e full (x.request ++ more) (.error (.io e')) h' part

/-! ## One message

A header that is refused is not refused as an IO error.  Once a message has been read the
round answers it or is the last one; a read that gets an error ends the connection. -/

theorem fromBytes_error {bytes : List UInt8} {error : NetworkError}
    (h : MessageHeader.fromBytes bytes = .error error) (e : IoError) : error ≠ .io e := by
  rintro rfl
  simp only [MessageHeader.fromBytes] at h
  split at h
  · cases h
  split at h
  · cases h
  split at h
  · cases h
  split at h
  · rename_i htype
    cases h
    unfold MessageHeader.msgTypeOfRaw at htype
    split at htype <;> cases htype
  · cases h

/-- **What a read finds**: a message, too little, or a header that is refused. -/
theorem readFrom_cases (s : TcpStream) :
    (∃ m more, Message.Sendable m ∧ s.incoming = m.toBytes ++ more ∧
      Message.readFrom s = .ok m { s with incoming := more }) ∨
    (Incomplete s.incoming ∧
      Message.readFrom s = .error (.io s.incomingEnd) { s with incoming := [] }) ∨
    ∃ error, MessageHeader.size ≤ s.incoming.length ∧
      MessageHeader.fromBytes (s.incoming.take MessageHeader.size) = .error error ∧
      Message.readFrom s =
        .error error { s with incoming := s.incoming.drop MessageHeader.size } := by
  have heq := Message.readFrom_eq s
  simp only [Network.readExact] at heq
  by_cases hheader : MessageHeader.size ≤ s.incoming.length
  · simp only [if_pos hheader] at heq
    cases hparse : MessageHeader.fromBytes (s.incoming.take MessageHeader.size) with
    | error error =>
        simp only [hparse] at heq
        exact .inr (.inr ⟨error, hheader, rfl, heq⟩)
    | ok header =>
        simp only [hparse] at heq
        by_cases hpayload :
            header.payloadLen.toNat ≤ (s.incoming.drop MessageHeader.size).length
        · simp only [if_pos hpayload] at heq
          obtain ⟨hm, more, hincoming, hstream⟩ :=
            (Message.readFrom_readsFrames s s.incoming _ _).mp heq
          exact .inl ⟨_, more, hm, hincoming, heq.trans (congrArg _ hstream)⟩
        · simp only [if_neg hpayload] at heq
          refine .inr (.inl ⟨.inr ⟨header, hparse, ?_⟩, heq⟩)
          rw [List.length_drop] at hpayload
          omega
  · simp only [if_neg hheader] at heq
    exact .inr (.inl ⟨.inl (Nat.lt_of_not_le hheader), heq⟩)

/-- What a round that goes on has done. -/
structure Round (handle : MessageHandler η) (t : ServerTask η) (x : Answered)
    (t' : ServerTask η) : Prop where
  sendable : x.1.Sendable
  incoming : t.stream.incoming = x.request ++ t'.stream.incoming
  answered : handle t.handler x.1.header.msgType x.1.payload = (.ok x.2, t'.handler)
  outgoing : t'.stream.outgoing = t.stream.outgoing ++ x.reply
  incomingEnd : t'.stream.incomingEnd = t.stream.incomingEnd
  full : t'.stream.outgoingEnd.map Prod.snd = t.stream.outgoingEnd.map Prod.snd

/-- What a round that returns has found. -/
def Last (handle : MessageHandler η) (t : ServerTask η)
    (r : Except NetworkError Unit × ServerTask η) : Prop :=
  ∃ part, r.2.stream.outgoing = t.stream.outgoing ++ part ∧
    Closing handle t.handler t.stream.incomingEnd (t.stream.outgoingEnd.map Prod.snd)
      t.stream.incoming r.1 r.2.handler part

variable {handle : MessageHandler η} {t t' : ServerTask η}

theorem returns_returned {result : Except NetworkError Unit} (h : t.serving = .returned result) :
    Loop.Returns (handleConnection handle) t (result, t) :=
  (Loop.returns_inr (by simp only [handleConnection, h])).mpr rfl

theorem handling_cases {m : Message} {stream : TcpStream} (hm : m.Sendable)
    (hincoming : t.stream.incoming = m.toBytes ++ stream.incoming)
    (hstream : stream = { t.stream with incoming := stream.incoming }) :
    (∃ x t', (∀ r, Loop.Returns (handleConnection handle) t' r →
        Loop.Returns (handleConnection handle) { t with serving := .handling m, stream } r) ∧
      t'.serving = .reading ∧ Round handle t x t') ∨
    ∃ r, Loop.Returns (handleConnection handle) { t with serving := .handling m, stream } r ∧
      Last handle t r := by
  have hout : stream.outgoing = t.stream.outgoing := by rw [hstream]
  have hfull : stream.outgoingEnd.map Prod.snd = t.stream.outgoingEnd.map Prod.snd := by
    rw [hstream]
  have hend : stream.incomingEnd = t.stream.incomingEnd := by rw [hstream]
  rcases hanswer : handle t.handler m.header.msgType m.payload with ⟨error | payload, handler⟩
  · have hturn : handleConnection handle { t with serving := .handling m, stream } =
        .inl { serving := .returned (.error error), stream, handler } := by
      simp only [handleConnection, hanswer, NetworkServer.respond]
    refine .inr ⟨_, (Loop.returns_inl hturn).mpr (returns_returned rfl), [], ?_, ?_⟩
    · rw [List.append_nil]
      exact hout
    · rw [hincoming]
      exact .failed hm hanswer
  · have hresponse : Answered.response (m, payload) = Message.new
        (NetworkServer.getResponseType m.header.msgType) payload m.header.requestId := rfl
    cases hwrite : TcpStream.writeAll (Answered.reply (m, payload)) stream with
    | ok _ stream' =>
        obtain ⟨hin', hend', hout', hfull'⟩ := TcpStream.writeAll_ok hwrite
        have hturn : handleConnection handle { t with serving := .handling m, stream } =
            .inl { serving := .reading, stream := stream', handler } := by
          simp only [handleConnection, hanswer, NetworkServer.respond, ← hresponse, Message.writeTo,
            EStateM.adaptExcept]
          rw [show TcpStream.writeAll (Answered.response (m, payload)).toBytes stream = _ from
            hwrite]
        refine .inl ⟨(m, payload), _, fun r => (Loop.returns_inl hturn).mpr, rfl, hm, ?_, hanswer,
          ?_, ?_, ?_⟩
        · rw [hincoming, hin']
          rfl
        · rw [hout', hout]
        · exact hend'.trans hend
        · exact hfull'.trans hfull
    | error e stream' =>
        obtain ⟨he, part, hpart, hout'⟩ := TcpStream.writeAll_error hwrite
        have hturn : handleConnection handle { t with serving := .handling m, stream } =
            .inl { serving := .returned (.error (.io e)), stream := stream', handler } := by
          simp only [handleConnection, hanswer, NetworkServer.respond, ← hresponse, Message.writeTo,
            EStateM.adaptExcept]
          rw [show TcpStream.writeAll (Answered.response (m, payload)).toBytes stream = _ from
            hwrite]
        refine .inr ⟨_, (Loop.returns_inl hturn).mpr (returns_returned rfl), part, ?_, ?_⟩
        · rw [hout', hout]
        · rw [hincoming]
          exact .lost (x := (m, payload)) hm hanswer (hfull ▸ he) hpart

theorem returns_read_error {e : NetworkError} {stream : TcpStream}
    (hreading : t.serving = .reading) (hread : Message.readFrom t.stream = .error e stream)
    {result : Except NetworkError Unit}
    (haccept : NetworkServer.accept (.error e) = .returned result) :
    Loop.Returns (handleConnection handle) t
      (result, { t with serving := .returned result, stream }) := by
  have hturn : handleConnection handle t = .inl { t with serving := .returned result, stream } := by
    simp only [handleConnection, hreading, hread, haccept]
  exact (Loop.returns_inl hturn).mpr (returns_returned rfl)

theorem round_cases (handle : MessageHandler η) (hreading : t.serving = .reading) :
    (∃ x t', (∀ r, Loop.Returns (handleConnection handle) t' r →
        Loop.Returns (handleConnection handle) t r) ∧
      t'.serving = .reading ∧ Round handle t x t') ∨
    ∃ r, Loop.Returns (handleConnection handle) t r ∧ Last handle t r := by
  rcases readFrom_cases t.stream with
    ⟨m, more, hm, hincoming, hread⟩ | ⟨hincomplete, hread⟩ | ⟨error, hlong, hparse, hread⟩
  · have hturn : handleConnection handle t =
        .inl { t with serving := .handling m, stream := { t.stream with incoming := more } } := by
      simp only [handleConnection, hreading, hread, NetworkServer.accept]
    simp only [Loop.returns_inl hturn]
    exact handling_cases hm hincoming rfl
  · right
    by_cases hkind : t.stream.incomingEnd.kind = .unexpectedEof
    · exact ⟨_, returns_read_error hreading hread (if_pos hkind), [], (List.append_nil _).symm,
        .ended hincomplete hkind⟩
    · exact ⟨_, returns_read_error hreading hread (if_neg hkind), [], (List.append_nil _).symm,
        .broken hincomplete hkind⟩
  · have haccept : NetworkServer.accept (.error error) = .returned (.error error) := by
      cases error with
      | io e => exact absurd rfl (fromBytes_error hparse e)
      | serialization | unsupportedVersion | invalidMessage | connection | timeout => rfl
    exact .inr ⟨_, returns_read_error hreading hread haccept, [], (List.append_nil _).symm,
      .refused hlong hparse⟩

theorem readFrom_incomplete {s : TcpStream} (h : Incomplete s.incoming) :
    Message.readFrom s = .error (.io s.incomingEnd) { s with incoming := [] } := by
  rw [Message.readFrom_eq]
  rcases h with hshort | ⟨header, hparse, hshort⟩
  · simp only [Network.readExact, if_neg (Nat.not_le.mpr hshort)]
  · by_cases hheader : MessageHeader.size ≤ s.incoming.length
    · have hpayload : ¬ header.payloadLen.toNat ≤ (s.incoming.drop MessageHeader.size).length := by
        rw [List.length_drop]
        omega
      simp only [Network.readExact, if_pos hheader, hparse, if_neg hpayload]
    · simp only [Network.readExact, if_neg hheader]

/-! ## The whole connection

The rounds are served while messages arrive whole, are accepted and are answered; each
takes bytes off the stream, so there is a last one.  What it finds decides the result,
and the handler has seen the messages before it in order. -/

/-- What some rounds have done together. -/
structure Served (handle : MessageHandler η) (t : ServerTask η) (xs : List Answered)
    (t' : ServerTask η) : Prop where
  incoming : t.stream.incoming = xs.flatMap Answered.request ++ t'.stream.incoming
  sendable : ∀ x ∈ xs, x.1.Sendable
  answers : Answers handle t.handler xs t'.handler
  outgoing : t'.stream.outgoing = t.stream.outgoing ++ xs.flatMap Answered.reply
  incomingEnd : t'.stream.incomingEnd = t.stream.incomingEnd
  full : t'.stream.outgoingEnd.map Prod.snd = t.stream.outgoingEnd.map Prod.snd

theorem served_of_rounds {xs : List Answered} (h : Loop.Rounds (Round handle) t xs t') :
    Served handle t xs t' := by
  induction h with
  | nil t => exact ⟨rfl, List.forall_mem_nil _, .nil _, (List.append_nil _).symm, rfl, rfl⟩
  | @cons t t₁ t₂ x xs hround _ ih =>
      refine ⟨?_, List.forall_mem_cons.mpr ⟨hround.sendable, ih.sendable⟩,
        .cons hround.answered ih.answers, ?_, ih.incomingEnd.trans hround.incomingEnd,
        ih.full.trans hround.full⟩
      · rw [hround.incoming, ih.incoming, List.flatMap_cons, List.append_assoc]
      · rw [ih.outgoing, hround.outgoing, List.flatMap_cons, List.append_assoc]

/-- **Any stream is served to its end.** -/
theorem connection_served (handle : MessageHandler η) (stream : TcpStream) (h : η) :
    ∃ xs t r, Served handle { serving := .reading, stream, handler := h } xs t ∧
      Last handle t r ∧
      Loop.Returns (handleConnection handle) { serving := .reading, stream, handler := h } r := by
  obtain ⟨xs, t, r, hrounds, hlast, hreturns⟩ :=
    Loop.exists_returns (handleConnection handle) (fun t => t.serving = .reading)
      (fun t => t.stream.incoming.length) (Round handle) (Last handle) (by
        intro t hreading
        rcases round_cases handle hreading with ⟨x, t', hgoes, hreading', hround⟩ | hlast
        · refine .inl ⟨x, t', hgoes, hreading', hround, ?_⟩
          have hlen := Message.toBytes_length x.1
          have hsize : MessageHeader.size = 20 := rfl
          rw [hround.incoming, List.length_append, Answered.request]
          omega
        · exact .inr hlast)
      (s := { serving := .reading, stream, handler := h }) rfl
  exact ⟨xs, t, r, served_of_rounds hrounds, hlast, hreturns⟩

/-- A message is served when nothing stops the writes. -/
theorem returns_answered {x : Answered} {more : List UInt8} {handler : η} {r}
    (hreading : t.serving = .reading) (hopen : t.stream.outgoingEnd = none)
    (hx : x.1.Sendable) (hincoming : t.stream.incoming = x.request ++ more)
    (hanswer : handle t.handler x.1.header.msgType x.1.payload = (.ok x.2, handler))
    (hrest : Loop.Returns (handleConnection handle)
      { serving := .reading
        stream := { t.stream with incoming := more, outgoing := t.stream.outgoing ++ x.reply }
        handler } r) :
    Loop.Returns (handleConnection handle) t r := by
  have hread : Message.readFrom t.stream = .ok x.1 { t.stream with incoming := more } := by
    have happend := Message.readFrom_append hx t.stream more
    rwa [show x.1.toBytes ++ more = t.stream.incoming from hincoming.symm] at happend
  have hturn : handleConnection handle t =
      .inl { t with serving := .handling x.1, stream := { t.stream with incoming := more } } := by
    simp only [handleConnection, hreading, hread, NetworkServer.accept]
  have hwrite : Message.writeTo x.response { t.stream with incoming := more } = .ok ()
      { t.stream with incoming := more, outgoing := t.stream.outgoing ++ x.reply } :=
    Message.writeTo_eq _ hopen
  rw [Answered.response] at hwrite
  refine (Loop.returns_inl hturn).mpr ((Loop.returns_inl ?_).mpr hrest)
  simp only [handleConnection, hanswer, NetworkServer.respond, hwrite]

theorem returns_served {xs : List Answered} : ∀ {t : ServerTask η} {rest : List UInt8} {h : η},
    t.serving = .reading → t.stream.outgoingEnd = none →
      t.stream.incoming = xs.flatMap Answered.request ++ rest → (∀ x ∈ xs, x.1.Sendable) →
      Answers handle t.handler xs h → Incomplete rest →
      t.stream.incomingEnd.kind = .unexpectedEof →
      ∃ t', Loop.Returns (handleConnection handle) t (.ok (), t') ∧ t'.handler = h ∧
        t'.stream.outgoing = t.stream.outgoing ++ xs.flatMap Answered.reply := by
  induction xs with
  | nil =>
      intro t rest h hreading hopen hincoming _ hanswers hincomplete hkind
      cases hanswers
      obtain rfl : t.stream.incoming = rest := hincoming
      exact ⟨_, returns_read_error hreading (readFrom_incomplete hincomplete) (if_pos hkind), rfl,
        (List.append_nil _).symm⟩
  | cons x xs ih =>
      intro t rest h hreading hopen hincoming hsendable hanswers hincomplete hkind
      obtain ⟨hx, hxs⟩ := List.forall_mem_cons.mp hsendable
      cases hanswers with
      | cons hanswer hanswers =>
          rw [List.flatMap_cons, List.append_assoc] at hincoming
          obtain ⟨t', hreturns, hhandler, hout⟩ := ih (t :=
            { serving := .reading
              stream := { t.stream with incoming := xs.flatMap Answered.request ++ rest
                                        outgoing := t.stream.outgoing ++ x.reply }
              handler := _ }) rfl hopen rfl hxs hanswers hincomplete hkind
          refine ⟨t', returns_answered hreading hopen hx hincoming hanswer hreturns, hhandler, ?_⟩
          rw [hout, List.flatMap_cons, List.append_assoc]

end

/-- **When a connection ends with `Ok`.**  If nothing stops the writes, it does iff the
peer closes it after whole messages that the handler answered and an incomplete one, or
none; each message has then been answered by one response with its id, in their order,
and nothing else was written. -/
theorem connection_ok_iff {η : Type} (handle : MessageHandler η) (stream : TcpStream) (h h' : η)
    (out : List UInt8) (hopen : stream.outgoingEnd = none) :
    (∃ t, Loop.Returns (handleConnection handle) { serving := .reading, stream, handler := h }
        (.ok (), t) ∧ t.handler = h' ∧ t.stream.outgoing = stream.outgoing ++ out) ↔
      stream.incomingEnd.kind = .unexpectedEof ∧
        ∃ xs rest, stream.incoming = xs.flatMap Answered.request ++ rest ∧ Incomplete rest ∧
          (∀ x ∈ xs, x.1.Sendable) ∧ Answers handle h xs h' ∧
          out = xs.flatMap Answered.reply := by
  constructor
  · rintro ⟨t, hreturns, rfl, hout⟩
    obtain ⟨xs, t₁, r, hserved, ⟨part, hpart, hclosing⟩, hreturns₁⟩ :=
      connection_served handle stream h
    cases hreturns.unique hreturns₁
    rw [hserved.outgoing, List.append_assoc] at hpart
    have hwritten := List.append_cancel_left (hout.symm.trans hpart)
    rw [hserved.incomingEnd] at hclosing
    generalize hrest : t₁.stream.incoming = rest at hclosing
    generalize hleft : t.handler = left at hclosing
    cases hclosing with
    | ended hincomplete hkind =>
        rw [List.append_nil] at hwritten
        exact ⟨hkind, xs, rest, hrest ▸ hserved.incoming, hincomplete, hserved.sendable,
          hleft ▸ hserved.answers, hwritten⟩
  · rintro ⟨hkind, xs, rest, hincoming, hincomplete, hsendable, hanswers, rfl⟩
    exact returns_served rfl hopen hincoming hsendable hanswers hincomplete hkind

/-- A handler that answers with the payload, and counts. -/
def echoHandler : MessageHandler Nat := fun count _ payload => (.ok payload, count + 1)

/-- Two messages and part of a third. -/
theorem connection_ok_iff_echo : ∃ t,
    Loop.Returns (handleConnection echoHandler)
      { serving := .reading
        stream :=
          { Message.closed with
            incoming := [((Message.new .ping [] 1, []) : Answered),
              (Message.new .readRequest [7] 2, [7])].flatMap Answered.request ++ [0x44, 0x4f] }
        handler := 0 } (.ok (), t) ∧ t.handler = 2 ∧
    t.stream.outgoing = [((Message.new .ping [] 1, []) : Answered),
      (Message.new .readRequest [7] 2, [7])].flatMap Answered.reply := by
  refine (connection_ok_iff echoHandler _ 0 2 _ rfl).mpr ⟨rfl, _, [0x44, 0x4f], rfl,
    .inl (by decide), ?_, .cons rfl (.cons rfl (.nil _)), rfl⟩
  intro x hx
  rcases List.mem_pair.mp hx with rfl | rfl
  · exact ⟨.ping, [], 1, by decide, rfl⟩
  · exact ⟨.readRequest, [7], 2, by decide, rfl⟩

end Dolda.Protocol
