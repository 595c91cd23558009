/-
# `Dolda.Network.Session` — a connection to the mailbox server

`handle_tcp_connection` of `src/mailbox_network.rs` with its loop: read a length,
read so many bytes, handle the request they say, write the response, go round
again.  A client may send anything, and as many requests at once as it likes; what
it sends is the stream `incoming`, with what the stream ends with.

**What is served.**  Any stream is the frames of requests, one after another, and a
rest that no further request can be made of (`Closing`).  Each request is handled on
the server as the one before it left it, the responses are written in the same
order, and the rest is what the connection ends at (`tcp_connection_served`): a
handler that never returns leaves no result, and of a reply that cannot be written
whole any front may have been.  The end is clean iff all but less than a length of the
stream was requests (`closes_cleanly_iff`).
-/
import Dolda.Lib.Loop
import Dolda.Network.Client

namespace Dolda.Network

/-! ## The loop -/

/-- A connection, the server it is to, and how many requests it has handled. -/
structure Link where
  stream : TcpStream
  server : MailboxServer
  handled : Nat

/-- Handle a request, and write the response; the `n`-th request of a connection is
handled with `services n`.  The result is missing if the handler does not return. -/
def respond (B : Bincode) (J : SerdeJson) (H : Hasher) (services : Nat → Service)
    (networkMsg : NetworkMessage) (l : Link) :
    Link ⊕ (Option (Except NetworkError Unit) × Link) :=
  match l.server.handleMessage J H (services l.handled) networkMsg with
  | none => .inr (none, l)
  | some (response, server) =>
      let l : Link := { l with server, handled := l.handled + 1 }
      match B.serialize response with
      | .error e => .inr (some (.error (.serialization e)), l)
      | .ok responseBytes =>
          let responseLen := toBeBytes (UInt32.ofNat responseBytes.length)
          match TcpStream.writeAll responseLen l.stream with
          | .error e stream => .inr (some (.error (.io e.message)), { l with stream })
          | .ok () stream =>
              match TcpStream.writeAll responseBytes stream with
              | .error e stream => .inr (some (.error (.io e.message)), { l with stream })
              | .ok () stream => .inl { l with stream }

/-- One round of the loop. -/
def turn (B : Bincode) (J : SerdeJson) (H : Hasher) (services : Nat → Service) (l : Link) :
    Link ⊕ (Option (Except NetworkError Unit) × Link) :=
  match TcpStream.readExact 4 l.stream with
  | .error e stream =>
      -- the connection was closed
      if e.kind = .unexpectedEof then .inr (some (.ok ()), { l with stream })
      else .inr (some (.error (.io e.message)), { l with stream })
  | .ok lenBuf stream =>
      let msgLen := (fromBeBytes lenBuf).toNat
      if l.server.config.maxMessageSize < msgLen then
        .inr (some (.error (.io ("Message too large: " ++ toString msgLen ++ " bytes"))),
          { l with stream })
      else
        match TcpStream.readExact msgLen stream with
        | .error e stream => .inr (some (.error (.io e.message)), { l with stream })
        | .ok msgBuf stream =>
            match B.deserialize msgBuf with
            | .error e => .inr (some (.error (.serialization e)), { l with stream })
            | .ok networkMsg => respond B J H services networkMsg { l with stream }

/-! ## What is served -/

/-- A request as it came, what was answered, and the answer's bytes. -/
structure Exchange where
  lenBuf : List UInt8
  msgBuf : List UInt8
  request : NetworkMessage
  response : NetworkMessage
  responseBytes : List UInt8

def Exchange.frame (x : Exchange) : List UInt8 := x.lenBuf ++ x.msgBuf

def Exchange.reply (x : Exchange) : List UInt8 := writeFrame x.responseBytes

/-- The frame is one of a request, and the reply one of its response. -/
structure Exchange.Framed (B : Bincode) (maxMessageSize : Nat) (x : Exchange) : Prop where
  lenBuf : x.lenBuf.length = 4
  msgBuf : x.msgBuf.length = (fromBeBytes x.lenBuf).toNat
  small : x.msgBuf.length ≤ maxMessageSize
  request : B.deserialize x.msgBuf = .ok x.request
  response : B.serialize x.response = .ok x.responseBytes

/-- The server handles the requests in order, from the `n`-th of the connection on. -/
inductive Handles (J : SerdeJson) (H : Hasher) (services : Nat → Service) :
    Nat → MailboxServer → List Exchange → MailboxServer → Prop where
  | nil (n : Nat) (s : MailboxServer) : Handles J H services n s [] s
  | cons {n : Nat} {s s₁ s₂ : MailboxServer} {x : Exchange} {xs : List Exchange} :
      s.handleMessage J H (services n) x.request = some (x.response, s₁) →
        Handles J H services (n + 1) s₁ xs s₂ → Handles J H services n s (x :: xs) s₂

/-- The rest of a stream at which a connection ends: with what result, the server as it
leaves it, and the part of a reply that was written.  A read that runs out gets `e`, and
a write that runs out of room `full`. -/
inductive Closing (B : Bincode) (J : SerdeJson) (H : Hasher) (service : Service)
    (s : MailboxServer) (e : IoError) (full : Option IoError) :
    List UInt8 → Option (Except NetworkError Unit) → MailboxServer → List UInt8 → Prop where
  | ended {rest : List UInt8} : rest.length < 4 → e.kind = .unexpectedEof →
      Closing B J H service s e full rest (some (.ok ())) s []
  | broken {rest : List UInt8} : rest.length < 4 → e.kind ≠ .unexpectedEof →
      Closing B J H service s e full rest (some (.error (.io e.message))) s []
  | tooLarge {lenBuf more : List UInt8} : lenBuf.length = 4 →
      s.config.maxMessageSize < (fromBeBytes lenBuf).toNat →
        Closing B J H service s e full (lenBuf ++ more)
          (some (.error (.io ("Message too large: " ++ toString (fromBeBytes lenBuf).toNat ++
            " bytes")))) s []
  | cut {lenBuf more : List UInt8} : lenBuf.length = 4 →
      (fromBeBytes lenBuf).toNat ≤ s.config.maxMessageSize →
      more.length < (fromBeBytes lenBuf).toNat →
        Closing B J H service s e full (lenBuf ++ more) (some (.error (.io e.message))) s []
  | garbled {lenBuf msgBuf more : List UInt8} {message : String} : lenBuf.length = 4 →
      msgBuf.length = (fromBeBytes lenBuf).toNat → msgBuf.length ≤ s.config.maxMessageSize →
      B.deserialize msgBuf = .error message →
        Closing B J H service s e full (lenBuf ++ (msgBuf ++ more))
          (some (.error (.serialization message))) s []
  | stuck {lenBuf msgBuf more : List UInt8} {request : NetworkMessage} : lenBuf.length = 4 →
      msgBuf.length = (fromBeBytes lenBuf).toNat → msgBuf.length ≤ s.config.maxMessageSize →
      B.deserialize msgBuf = .ok request → s.handleMessage J H service request = none →
        Closing B J H service s e full (lenBuf ++ (msgBuf ++ more)) none s []
  | unwritable {lenBuf msgBuf more : List UInt8} {request response : NetworkMessage}
      {s' : MailboxServer} {message : String} : lenBuf.length = 4 →
      msgBuf.length = (fromBeBytes lenBuf).toNat → msgBuf.length ≤ s.config.maxMessageSize →
      B.deserialize msgBuf = .ok request →
      s.handleMessage J H service request = some (response, s') →
      B.serialize response = .error message →
        Closing B J H service s e full (lenBuf ++ (msgBuf ++ more))
          (some (.error (.serialization message))) s' []
  /-- The reply could not be written, or only in part. -/
  | lost {lenBuf msgBuf more bytes part : List UInt8} {request response : NetworkMessage}
      {s' : MailboxServer} {e' : IoError} : lenBuf.length = 4 →
      msgBuf.length = (fromBeBytes lenBuf).toNat → msgBuf.length ≤ s.config.maxMessageSize →
      B.deserialize msgBuf = .ok request →
      s.handleMessage J H service request = some (response, s') →
      B.serialize response = .ok bytes → full = some e' → part <+: writeFrame bytes →
        Closing B J H service s e full (lenBuf ++ (msgBuf ++ more))
          (some (.error (.io e'.message))) s' part

section
variable {B : Bincode} {J : SerdeJson} {H : Hasher} {services : Nat → Service} {s s' : MailboxServer}
  {service : Service}

/-! ## One round

No request changes the configuration. -/

theorem handleMessage_config {msg response : NetworkMessage}
    (h : s.handleMessage J H service msg = some (response, s')) : s'.config = s.config := by
  have hfetch : ∀ address, (s.fetch service address).2.config = s.config := by
    intro address
    simp only [MailboxServer.fetch]
    repeat' split
    all_goals rfl
  have hget : ∀ {address answer s₁}, s.getOrCreateMailbox service address = (answer, s₁) →
      s₁.config = s.config := by
    intro address answer s₁ hget
    have hf := hfetch address
    simp only [MailboxServer.getOrCreateMailbox] at hget
    split at hget
    · cases hget
      rfl
    · split at hget
      · rename_i heq
        cases hget
        rwa [heq] at hf
      · rename_i heq
        cases hget
        rw [heq] at hf
        exact hf
  cases msg with
  | messageResponse | success | error => cases h; rfl
  | send to_ from_ body subject =>
      simp only [MailboxServer.handleMessage, MailboxServer.handleSend] at h
      split at h
      · rename_i heq
        cases h
        exact hget heq
      · rename_i heq
        have hkept := hget heq
        simp only [MailboxServer.sendOn] at h
        repeat' split at h
        all_goals cases h
        all_goals exact hkept
  | receive mailbox =>
      simp only [MailboxServer.handleMessage, MailboxServer.handleReceive] at h
      split at h
      · rename_i heq
        cases h
        exact hget heq
      · rename_i heq
        have hkept := hget heq
        simp only [MailboxServer.receiveOn] at h
        repeat' split at h
        all_goals cases h
        all_goals exact hkept
  | peek mailbox =>
      simp only [MailboxServer.handleMessage, MailboxServer.handlePeek] at h
      split at h
      · rename_i heq
        cases h
        exact hget heq
      · rename_i heq
        have hkept := hget heq
        simp only [MailboxServer.peekOn] at h
        repeat' split at h
        all_goals cases h
        all_goals exact hkept

/-- What a round that goes on has done. -/
structure Round (B : Bincode) (J : SerdeJson) (H : Hasher) (services : Nat → Service)
    (l : Link) (x : Exchange) (l' : Link) : Prop where
  framed : x.Framed B l.server.config.maxMessageSize
  incoming : l.stream.incoming = x.frame ++ l'.stream.incoming
  answered : l.server.handleMessage J H (services l.handled) x.request =
    some (x.response, l'.server)
  outgoing : l'.stream.outgoing = l.stream.outgoing ++ x.reply
  incomingEnd : l'.stream.incomingEnd = l.stream.incomingEnd
  full : l'.stream.outgoingEnd.map Prod.snd = l.stream.outgoingEnd.map Prod.snd
  handled : l'.handled = l.handled + 1

/-- What a round that returns has found. -/
structure Last (B : Bincode) (J : SerdeJson) (H : Hasher) (services : Nat → Service)
    (l : Link) (result : Option (Except NetworkError Unit)) (l' : Link)
    (part : List UInt8) : Prop where
  closing : Closing B J H (services l.handled) l.server l.stream.incomingEnd
    (l.stream.outgoingEnd.map Prod.snd) l.stream.incoming result l'.server part
  outgoing : l'.stream.outgoing = l.stream.outgoing ++ part

theorem respond_cases {l : Link} {lenBuf msgBuf : List UInt8}
    {request : NetworkMessage} {stream : TcpStream}
    (hstream : stream = { l.stream with incoming := stream.incoming })
    (hincoming : l.stream.incoming = lenBuf ++ (msgBuf ++ stream.incoming))
    (hfour : lenBuf.length = 4) (hmany : msgBuf.length = (fromBeBytes lenBuf).toNat)
    (hsize : msgBuf.length ≤ l.server.config.maxMessageSize)
    (hrequest : B.deserialize msgBuf = .ok request) :
    (∃ x l', respond B J H services request { l with stream } = .inl l' ∧
        Round B J H services l x l') ∨
      ∃ result l' part, respond B J H services request { l with stream } = .inr (result, l') ∧
        Last B J H services l result l' part := by
  have hout : stream.outgoing = l.stream.outgoing := by rw [hstream]
  have hfull : stream.outgoingEnd.map Prod.snd = l.stream.outgoingEnd.map Prod.snd := by
    rw [hstream]
  have hinEnd : stream.incomingEnd = l.stream.incomingEnd := by rw [hstream]
  have hunwritten : stream.outgoing = l.stream.outgoing ++ [] := by rw [hout, List.append_nil]
  cases hanswer : l.server.handleMessage J H (services l.handled) request with
  | none =>
      refine .inr ⟨none, { l with stream }, [], ?_, ?_, hunwritten⟩
      · simp only [respond, hanswer]
      · rw [hincoming]
        exact .stuck hfour hmany hsize hrequest hanswer
  | some answer =>
      obtain ⟨response, server⟩ := answer
      cases hresponse : B.serialize response with
      | error message =>
          refine .inr ⟨some (.error (.serialization message)),
            { l with stream, server, handled := l.handled + 1 }, [], ?_, ?_, hunwritten⟩
          · simp only [respond, hanswer, hresponse]
          · rw [hincoming]
            exact .unwritable hfour hmany hsize hrequest hanswer hresponse
      | ok bytes =>
          cases hlen : TcpStream.writeAll (toBeBytes (UInt32.ofNat bytes.length)) stream with
          | error e stream₁ =>
              obtain ⟨he, part, hpart, hout₁⟩ := TcpStream.writeAll_error hlen
              refine .inr ⟨some (.error (.io e.message)),
                { l with stream := stream₁, server, handled := l.handled + 1 }, part, ?_, ?_,
                by rw [hout₁, hout]⟩
              · simp only [respond, hanswer, hresponse, hlen]
              · rw [hincoming]
                exact .lost hfour hmany hsize hrequest hanswer hresponse (hfull ▸ he)
                  (hpart.trans (List.prefix_append _ _))
          | ok _ stream₁ =>
              obtain ⟨hin₁, hinEnd₁, hout₁, hfull₁⟩ := TcpStream.writeAll_ok hlen
              cases hbytes : TcpStream.writeAll bytes stream₁ with
              | error e stream₂ =>
                  obtain ⟨he, part, hpart, hout₂⟩ := TcpStream.writeAll_error hbytes
                  refine .inr ⟨some (.error (.io e.message)),
                    { l with stream := stream₂, server, handled := l.handled + 1 },
                    toBeBytes (UInt32.ofNat bytes.length) ++ part, ?_, ?_,
                    by rw [hout₂, hout₁, hout, List.append_assoc]⟩
                  · simp only [respond, hanswer, hresponse, hlen, hbytes]
                  · rw [hincoming]
                    exact .lost hfour hmany hsize hrequest hanswer hresponse
                      (hfull ▸ hfull₁ ▸ he) ((List.prefix_append_right_inj _).mpr hpart)
              | ok _ stream₂ =>
                  obtain ⟨hin₂, hinEnd₂, hout₂, hfull₂⟩ := TcpStream.writeAll_ok hbytes
                  refine .inl ⟨⟨lenBuf, msgBuf, request, response, bytes⟩,
                    { l with stream := stream₂, server, handled := l.handled + 1 }, ?_, ?_⟩
                  · simp only [respond, hanswer, hresponse, hlen, hbytes]
                  · constructor
                    · exact ⟨hfour, hmany, hsize, hrequest, hresponse⟩
                    · rw [hincoming, hin₂, hin₁, Exchange.frame, List.append_assoc]
                    · exact hanswer
                    · rw [hout₂, hout₁, hout, List.append_assoc]
                      rfl
                    · exact hinEnd₂.trans (hinEnd₁.trans hinEnd)
                    · exact hfull₂.trans (hfull₁.trans hfull)
                    · rfl

/-- A round serves one request, or it is the last one. -/
theorem turn_cases (B : Bincode) (J : SerdeJson) (H : Hasher) (services : Nat → Service)
    (l : Link) :
    (∃ x l', turn B J H services l = .inl l' ∧ Round B J H services l x l') ∨
      ∃ result l' part, turn B J H services l = .inr (result, l') ∧
        Last B J H services l result l' part := by
  cases hlen : TcpStream.readExact 4 l.stream with
  | error e stream =>
      obtain ⟨hshort, rfl, hstream⟩ := TcpStream.readExact_error hlen
      have hout : stream.outgoing = l.stream.outgoing ++ [] := by rw [hstream, List.append_nil]
      by_cases hkind : l.stream.incomingEnd.kind = .unexpectedEof
      · refine .inr ⟨some (.ok ()), { l with stream }, [], ?_, .ended hshort hkind, hout⟩
        simp only [turn, hlen, if_pos hkind]
      · refine .inr ⟨some (.error (.io l.stream.incomingEnd.message)), { l with stream }, [], ?_,
          .broken hshort hkind, hout⟩
        simp only [turn, hlen, if_neg hkind]
  | ok lenBuf stream =>
      obtain ⟨hfour, hin, hstream⟩ := TcpStream.readExact_ok hlen
      have hout : stream.outgoing = l.stream.outgoing ++ [] := by rw [hstream, List.append_nil]
      by_cases hlarge : l.server.config.maxMessageSize < (fromBeBytes lenBuf).toNat
      · refine .inr ⟨some (.error (.io ("Message too large: " ++
          toString (fromBeBytes lenBuf).toNat ++ " bytes"))), { l with stream }, [], ?_, ?_, hout⟩
        · simp only [turn, hlen, if_pos hlarge]
        · rw [hin]
          exact .tooLarge hfour hlarge
      · cases hmsg : TcpStream.readExact (fromBeBytes lenBuf).toNat stream with
        | error e stream₁ =>
            obtain ⟨hshort, rfl, hstream₁⟩ := TcpStream.readExact_error hmsg
            have hend : stream.incomingEnd = l.stream.incomingEnd := by rw [hstream]
            refine .inr ⟨some (.error (.io stream.incomingEnd.message)),
              { l with stream := stream₁ }, [], ?_, ?_, by rw [hstream₁]; exact hout⟩
            · simp only [turn, hlen, if_neg hlarge, hmsg]
            · rw [hin, hend]
              exact .cut hfour (Nat.le_of_not_lt hlarge) hshort
        | ok msgBuf stream₁ =>
            obtain ⟨hmany, hin₁, hstream₁⟩ := TcpStream.readExact_ok hmsg
            have hincoming : l.stream.incoming = lenBuf ++ (msgBuf ++ stream₁.incoming) := by
              rw [hin, hin₁]
            have hsize := hmany.trans_le (Nat.le_of_not_lt hlarge)
            have hkept : stream₁ = { l.stream with incoming := stream₁.incoming } := by
              rw [hstream₁, hstream]
            cases hrequest : B.deserialize msgBuf with
            | error message =>
                refine .inr ⟨some (.error (.serialization message)), { l with stream := stream₁ },
                  [], ?_, ?_, by rw [hkept, List.append_nil]⟩
                · simp only [turn, hlen, if_neg hlarge, hmsg, hrequest]
                · rw [hincoming]
                  exact .garbled hfour hmany hsize hrequest
            | ok request =>
                have hturn : turn B J H services l =
                    respond B J H services request { l with stream := stream₁ } := by
                  simp only [turn, hlen, if_neg hlarge, hmsg, hrequest]
                rw [hturn]
                exact respond_cases hkept hincoming hfour hmany hsize hrequest

/-! ## The whole connection -/

/-- What some rounds have done together. -/
structure Rounded (B : Bincode) (J : SerdeJson) (H : Hasher) (services : Nat → Service)
    (l : Link) (xs : List Exchange) (l' : Link) : Prop where
  framed : ∀ x ∈ xs, x.Framed B l.server.config.maxMessageSize
  incoming : l.stream.incoming = xs.flatMap Exchange.frame ++ l'.stream.incoming
  handles : Handles J H services l.handled l.server xs l'.server
  outgoing : l'.stream.outgoing = l.stream.outgoing ++ xs.flatMap Exchange.reply
  incomingEnd : l'.stream.incomingEnd = l.stream.incomingEnd
  full : l'.stream.outgoingEnd.map Prod.snd = l.stream.outgoingEnd.map Prod.snd
  handled : l'.handled = l.handled + xs.length

theorem rounded_of_rounds {l l' : Link} {xs : List Exchange}
    (h : Loop.Rounds (Round B J H services) l xs l') : Rounded B J H services l xs l' := by
  induction h with
  | nil l =>
      exact ⟨List.forall_mem_nil _, rfl, .nil _ _, (List.append_nil _).symm, rfl, rfl, rfl⟩
  | @cons l l₁ l₂ x xs hround _ ih =>
      have hhandles := ih.handles
      have hframed := ih.framed
      rw [hround.handled] at hhandles
      rw [handleMessage_config hround.answered] at hframed
      refine ⟨List.forall_mem_cons.mpr ⟨hround.framed, hframed⟩, ?_,
        .cons hround.answered hhandles, ?_, ih.incomingEnd.trans hround.incomingEnd,
        ih.full.trans hround.full, ?_⟩
      · rw [hround.incoming, ih.incoming, List.flatMap_cons, List.append_assoc]
      · rw [ih.outgoing, hround.outgoing, List.flatMap_cons, List.append_assoc]
      · rw [ih.handled, hround.handled, List.length_cons, Nat.add_assoc, Nat.add_comm 1]

theorem connection_served (B : Bincode) (J : SerdeJson) (H : Hasher)
    (services : Nat → Service) (l : Link) :
    ∃ xs l₁ result l' part, Rounded B J H services l xs l₁ ∧
      Last B J H services l₁ result l' part ∧
      Loop.Returns (turn B J H services) l (result, l') := by
  obtain ⟨xs, l₁, ⟨result, l'⟩, hrounds, ⟨part, hlast⟩, hreturns⟩ :=
    Loop.exists_returns (turn B J H services) (s := l) (fun _ => True)
      (fun l => l.stream.incoming.length) (Round B J H services)
      (fun l r => ∃ part, Last B J H services l r.1 r.2 part) (by
        intro l _
        rcases turn_cases B J H services l with
          ⟨x, l', hturn, hround⟩ | ⟨result, l', part, hturn, hlast⟩
        · refine .inl ⟨x, l', fun r => (Loop.returns_inl hturn).mpr, trivial, hround, ?_⟩
          -- the length alone is four bytes
          have hfour := hround.framed.lenBuf
          rw [hround.incoming, Exchange.frame, List.length_append, List.length_append]
          omega
        · exact .inr ⟨(result, l'), (Loop.returns_inr hturn).mpr rfl, part, hlast⟩) trivial
  exact ⟨xs, l₁, result, l', part, rounded_of_rounds hrounds, hlast, hreturns⟩

/-- A round on the frame of a request, when nothing stops the writes. -/
theorem turn_served {l : Link} {x : Exchange} {more : List UInt8} {server : MailboxServer}
    (hopen : l.stream.outgoingEnd = none) (hframed : x.Framed B l.server.config.maxMessageSize)
    (hin : l.stream.incoming = x.frame ++ more)
    (hanswer : l.server.handleMessage J H (services l.handled) x.request =
      some (x.response, server)) :
    turn B J H services l = .inl
      { stream := { l.stream with incoming := more, outgoing := l.stream.outgoing ++ x.reply }
        server, handled := l.handled + 1 } := by
  have hlen : TcpStream.readExact 4 l.stream =
      .ok x.lenBuf { l.stream with incoming := x.msgBuf ++ more } := by
    rw [TcpStream.readExact, hin, Exchange.frame, List.append_assoc,
      readExact_append hframed.lenBuf]
  have hmsg : TcpStream.readExact (fromBeBytes x.lenBuf).toNat
      { l.stream with incoming := x.msgBuf ++ more } =
        .ok x.msgBuf { l.stream with incoming := more } := by
    rw [TcpStream.readExact, readExact_append hframed.msgBuf]
  have hsmall := Nat.not_lt.mpr (hframed.msgBuf ▸ hframed.small)
  have hwrite : ∀ bytes incoming outgoing,
      TcpStream.writeAll bytes { l.stream with incoming, outgoing } =
        .ok () { l.stream with incoming, outgoing := outgoing ++ bytes } := by
    intro bytes incoming outgoing
    rw [TcpStream.writeAll]
    simp only [hopen]
  have hturn : turn B J H services l =
      respond B J H services x.request { l with stream := { l.stream with incoming := more } } := by
    simp only [turn, hlen, if_neg hsmall, hmsg, hframed.request]
  rw [hturn]
  simp only [respond, hanswer, hframed.response, hwrite, Exchange.reply, writeFrame,
    List.append_assoc]

/-- Requests that a client sends all at once are served one by one. -/
theorem returns_served {xs : List Exchange} : ∀ {l : Link} {rest : List UInt8},
    l.stream.outgoingEnd = none → l.stream.incoming = xs.flatMap Exchange.frame ++ rest →
      (∀ x ∈ xs, x.Framed B l.server.config.maxMessageSize) →
      Handles J H services l.handled l.server xs s →
      rest.length < 4 → l.stream.incomingEnd.kind = .unexpectedEof →
      Loop.Returns (turn B J H services) l
        (some (.ok ()),
          { stream := { l.stream with incoming := [],
                                      outgoing := l.stream.outgoing ++ xs.flatMap Exchange.reply }
            server := s, handled := l.handled + xs.length }) := by
  induction xs with
  | nil =>
      intro l rest hopen hin hframed hhandles hrest hkind
      cases hhandles
      have hshort : ¬ 4 ≤ l.stream.incoming.length := by
        rw [hin]
        exact Nat.not_le.mpr hrest
      have hlen : TcpStream.readExact 4 l.stream =
          .error l.stream.incomingEnd { l.stream with incoming := [] } := by
        simp only [TcpStream.readExact, readExact, if_neg hshort]
      refine (Loop.returns_inr ?_).mpr rfl
      simp only [turn, hlen, if_pos hkind, List.flatMap_nil, List.append_nil, List.length_nil,
        Nat.add_zero]
  | cons x xs ih =>
      intro l rest hopen hin hframed hhandles hrest hkind
      cases hhandles with
      | cons hanswer hhandles =>
          rw [List.flatMap_cons, List.append_assoc] at hin
          obtain ⟨hx, hxs⟩ := List.forall_mem_cons.mp hframed
          refine (Loop.returns_inl (turn_served hopen hx hin hanswer)).mpr ?_
          have hrun := ih (l := { stream := { l.stream with
              incoming := xs.flatMap Exchange.frame ++ rest
              outgoing := l.stream.outgoing ++ x.reply }
                                  server := _, handled := l.handled + 1 })
            hopen rfl (by rw [handleMessage_config hanswer]; exact hxs) hhandles hrest hkind
          rw [List.flatMap_cons, List.length_cons, Nat.add_comm xs.length, ← Nat.add_assoc,
            ← List.append_assoc]
          exact hrun

end

/-- **When a connection is closed cleanly.**  If nothing stops the writes, the loop
returns `Ok` iff the client closes the connection between two requests or inside a
length, all it sent before being requests that the server answered; its replies are
then just the answers, in the order of the requests. -/
theorem closes_cleanly_iff {B : Bincode} {J : SerdeJson} {H : Hasher} {services : Nat → Service}
    {l : Link} {s : MailboxServer} {out : List UInt8} (hopen : l.stream.outgoingEnd = none) :
    (∃ l', Loop.Returns (turn B J H services) l (some (.ok ()), l') ∧ l'.server = s ∧
        l'.stream.outgoing = l.stream.outgoing ++ out) ↔
      l.stream.incomingEnd.kind = .unexpectedEof ∧
        ∃ xs rest, l.stream.incoming = xs.flatMap Exchange.frame ++ rest ∧ rest.length < 4 ∧
          (∀ x ∈ xs, x.Framed B l.server.config.maxMessageSize) ∧
          Handles J H services l.handled l.server xs s ∧ out = xs.flatMap Exchange.reply := by
  constructor
  · rintro ⟨l', hreturns, rfl, hout⟩
    obtain ⟨xs, l₁, result, l₂, part, hrounded, hlast, hreturns₁⟩ :=
      connection_served B J H services l
    cases hreturns.unique hreturns₁
    have hout₁ := hlast.outgoing
    rw [hrounded.outgoing, List.append_assoc] at hout₁
    have hpart := List.append_cancel_left (hout.symm.trans hout₁)
    have hclosing := hlast.closing
    rw [hrounded.incomingEnd] at hclosing
    generalize hrest : l₁.stream.incoming = rest at hclosing
    generalize hserver : l'.server = server at hclosing
    cases hclosing with
    | ended hshort hkind =>
        rw [List.append_nil] at hpart
        exact ⟨hkind, xs, rest, hrest ▸ hrounded.incoming, hshort, hrounded.framed,
          hserver ▸ hrounded.handles, hpart⟩
  · rintro ⟨hkind, xs, rest, hin, hrest, hframed, hhandles, rfl⟩
    exact ⟨_, returns_served hopen hin hframed hhandles hrest hkind, rfl, rfl⟩

/-- The texts of a message that is no request and of what it is answered. -/
def invalidTexts : List (NetworkMessage × List UInt8) :=
  [(.success, Memory.writeU32 4),
    (.error "Invalid request", Memory.writeU32 5 ++ stringText "Invalid request")]

def invalid : Exchange where
  lenBuf := [0, 0, 0, 4]
  msgBuf := Memory.writeU32 4
  request := .success
  response := .error "Invalid request"
  responseBytes := Memory.writeU32 5 ++ stringText "Invalid request"

/-- Two such messages are sent at once, and both are answered. -/
theorem closes_cleanly_iff_invalid :
    ∃ l', Loop.Returns
      (turn (.ofTexts invalidTexts) Delivery.twoLetters crc32Hasher (fun _ => letterService))
      { stream := { incoming := [0, 0, 0, 4, 4, 0, 0, 0, 0, 0, 0, 4, 4, 0, 0, 0]
                    incomingEnd := { kind := .unexpectedEof, message := "early eof" }
                    outgoing := [], outgoingEnd := none }
        server := .new .default Delivery.emptySystem, handled := 0 } (some (.ok ()), l') ∧
      l'.server = .new .default Delivery.emptySystem ∧
      l'.stream.outgoing = invalid.reply ++ invalid.reply := by
  refine (closes_cleanly_iff rfl).mpr ⟨rfl, [invalid, invalid], [], rfl, by decide, ?_,
    .cons rfl (.cons rfl (.nil _ _)), by decide⟩
  intro x hx
  obtain rfl : x = invalid := by simpa using hx
  exact ⟨rfl, by decide, by decide, rfl, rfl⟩

end Dolda.Network
