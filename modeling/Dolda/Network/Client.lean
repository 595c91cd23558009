/-
# `Dolda.Network.Client` — sending over the network

`MailboxClient` of `src/mailbox_network.rs`, and the server's side of one
exchange over TCP (a length in four bytes, then the message, both ways) or UDP
(one datagram each way).

`bincode` is not part of the repository and is the parameter `B : Bincode`, of
which a round trip is relied on; what the operating system answers to the
client's calls is `Sockets`.

**The rule.**  A send waits for the response and then throws it away: it returns
`Ok` for any response there is, one that says that nothing was sent among them
(`unknown_recipient_ok`).  A receive does look at its response.  So a send tells
the truth iff no request arrives or the one that was sent does and the server can
do what it asks (`send_faithful_iff`).
-/
import Dolda.Network.Server
import Dolda.Network.Stream

namespace Dolda.Network

open Memory (readU32 writeU32)
open Workers (Office Sent Grown)

/-- `bincode::serialize` and `bincode::deserialize` at `NetworkMessage`. -/
structure Bincode where
  serialize : NetworkMessage → Except String (List UInt8)
  deserialize : List UInt8 → Except String NetworkMessage

def Bincode.RoundTrips (B : Bincode) : Prop :=
  ∀ {msg bytes}, B.serialize msg = .ok bytes → B.deserialize bytes = .ok msg

/-- `bincode` on the messages of a list of texts; other messages it refuses. -/
def Bincode.ofTexts (texts : List (NetworkMessage × List UInt8)) : Bincode where
  serialize msg :=
    match texts.find? (fun p => p.1 = msg) with
    | none => .error "not in the list"
    | some p => .ok p.2
  deserialize bytes :=
    match texts.find? (fun p => p.2 = bytes) with
    | none => .error "not the text of a message"
    | some p => .ok p.1

/-- It round-trips if no two messages have one text. -/
theorem Bincode.ofTexts_roundTrips {texts : List (NetworkMessage × List UInt8)}
    (h : ∀ p ∈ texts, ∀ p' ∈ texts, p.2 = p'.2 → p = p') : (Bincode.ofTexts texts).RoundTrips := by
  intro msg bytes hserialize
  simp only [ofTexts] at hserialize ⊢
  split at hserialize
  · cases hserialize
  · rename_i p hfind
    cases hserialize
    have hmem := List.mem_of_find?_eq_some hfind
    have hmsg : p.1 = msg := by simpa using List.find?_some hfind
    split
    · rename_i hnone
      exact absurd (decide_eq_true rfl) (List.find?_eq_none.mp hnone p hmem)
    · rename_i p' hfind'
      have hbytes : p'.2 = p.2 := by simpa using List.find?_some hfind'
      rw [h p' (List.mem_of_find?_eq_some hfind') p hmem hbytes, hmsg]

/-- What the client's calls of the operating system are answered. -/
structure Sockets where
  connect : Except String Unit
  bind : Except String Unit
  /-- Sending a datagram. -/
  sendTo : List UInt8 → Except String Unit

/-! ## Frames -/

def toBeBytes (n : UInt32) : List UInt8 := (writeU32 n).reverse

def fromBeBytes (bytes : List UInt8) : UInt32 := readU32 bytes.reverse

/-- A length of 2^32 or more is cut off. -/
def writeFrame (bytes : List UInt8) : List UInt8 :=
  toBeBytes (UInt32.ofNat bytes.length) ++ bytes

/-! ## The server's side -/

/-- What the server does about what it was sent: what it answered the request that
arrived, if one did, and the bytes of its reply, if it made one. -/
structure Served where
  response : Option NetworkMessage
  reply : Option (List UInt8)
  server : MailboxServer

/-- Nothing arrived that could be handled. -/
def Served.nothing (server : MailboxServer) : Served := { response := none, reply := none, server }

namespace MailboxServer

/-- A connection up to the first reply or to where it is closed; `none` if the
server waits for more of the stream. -/
def handleTcpConnection (B : Bincode) (J : SerdeJson) (H : Hasher) (service : Service)
    (stream : List UInt8) (s : MailboxServer) : Option Served :=
  match readExact 4 stream with
  | none => some (.nothing s)
  | some (lenBuf, stream) =>
      let msgLen := (fromBeBytes lenBuf).toNat
      if s.config.maxMessageSize < msgLen then some (.nothing s)
      else
        match readExact msgLen stream with
        | none => none
        | some (msgBuf, _) =>
            match B.deserialize msgBuf with
            | .error _ => some (.nothing s)
            | .ok msg =>
                match s.handleMessage J H service msg with
                | none => none
                | some (response, server) =>
                    match B.serialize response with
                    | .error _ => some { response := some response, reply := none, server }
                    | .ok bytes =>
                        some { response := some response, reply := some (writeFrame bytes), server }

/-- One datagram, of which no more is read than the buffer holds. -/
def handleDatagram (B : Bincode) (J : SerdeJson) (H : Hasher) (service : Service)
    (packet : List UInt8) (s : MailboxServer) : Option Served :=
  match B.deserialize (packet.take s.config.maxMessageSize) with
  | .error _ => some (.nothing s)
  | .ok msg =>
      match s.handleMessage J H service msg with
      | none => none
      | some (response, server) =>
          match B.serialize response with
          | .error _ => some { response := some response, reply := none, server }
          | .ok bytes => some { response := some response, reply := some bytes, server }

end MailboxServer

/-! ## The client -/

structure MailboxClient where
  protocol : Protocol

namespace MailboxClient

def decode (B : Bincode) (bytes : List UInt8) : Except NetworkError NetworkMessage :=
  match B.deserialize bytes with
  | .error e => .error (.serialization e)
  | .ok response => .ok response

/-- The response in what the server wrote before it closed the connection. -/
def readResponse (B : Bincode) (stream : List UInt8) : Except NetworkError NetworkMessage :=
  match readExact 4 stream with
  | none => .error (.io "early eof")
  | some (lenBuf, stream) =>
      match readExact (fromBeBytes lenBuf).toNat stream with
      | none => .error (.io "early eof")
      | some (responseBuf, _) => decode B responseBuf

def requestTcp (B : Bincode) (J : SerdeJson) (H : Hasher) (service : Service) (sockets : Sockets)
    (msg : NetworkMessage) (s : MailboxServer) :
    Option (Except NetworkError NetworkMessage × Served) :=
  match sockets.connect with
  | .error e => some (.error (.io e), .nothing s)
  | .ok () =>
      match B.serialize msg with
      | .error e => some (.error (.serialization e), .nothing s)
      | .ok msgBytes =>
          match s.handleTcpConnection B J H service (writeFrame msgBytes) with
          | none => none
          | some served => some (readResponse B (served.reply.getD []), served)

/-- `none` while no datagram comes back. -/
def requestUdp (B : Bincode) (J : SerdeJson) (H : Hasher) (service : Service) (sockets : Sockets)
    (msg : NetworkMessage) (s : MailboxServer) :
    Option (Except NetworkError NetworkMessage × Served) :=
  match sockets.bind with
  | .error e => some (.error (.io e), .nothing s)
  | .ok () =>
      match B.serialize msg with
      | .error e => some (.error (.serialization e), .nothing s)
      | .ok msgBytes =>
          match sockets.sendTo msgBytes with
          | .error e => some (.error (.io e), .nothing s)
          | .ok () =>
              match s.handleDatagram B J H service msgBytes with
              | none => none
              | some served =>
                  match served.reply with
                  | none => none
                  | some packet => some (decode B (packet.take (10 * 1024 * 1024)), served)

def sendTcp (B : Bincode) (J : SerdeJson) (H : Hasher) (service : Service) (sockets : Sockets)
    (msg : NetworkMessage) (s : MailboxServer) : Option (Except NetworkError Unit × Served) :=
  match requestTcp B J H service sockets msg s with
  | none => none
  | some (.error e, served) => some (.error e, served)
  -- whatever the response says
  | some (.ok _, served) => some (.ok (), served)

def sendUdp (B : Bincode) (J : SerdeJson) (H : Hasher) (service : Service) (sockets : Sockets)
    (msg : NetworkMessage) (s : MailboxServer) : Option (Except NetworkError Unit × Served) :=
  match requestUdp B J H service sockets msg s with
  | none => none
  | some (.error e, served) => some (.error e, served)
  | some (.ok _, served) => some (.ok (), served)

def send (B : Bincode) (J : SerdeJson) (H : Hasher) (service : Service) (sockets : Sockets)
    (to_ from_ : String) (body : List UInt8) (client : MailboxClient) (s : MailboxServer) :
    Option (Except NetworkError Unit × Served) :=
  let msg := .send to_ from_ body none
  match client.protocol with
  | .tcp => sendTcp B J H service sockets msg s
  | .udp => sendUdp B J H service sockets msg s

def sendWithSubject (B : Bincode) (J : SerdeJson) (H : Hasher) (service : Service)
    (sockets : Sockets) (to_ from_ subject : String) (body : List UInt8) (client : MailboxClient)
    (s : MailboxServer) : Option (Except NetworkError Unit × Served) :=
  let msg := .send to_ from_ body (some subject)
  match client.protocol with
  | .tcp => sendTcp B J H service sockets msg s
  | .udp => sendUdp B J H service sockets msg s

/-- A receive does look at the response. -/
def receive (B : Bincode) (J : SerdeJson) (H : Hasher) (service : Service) (sockets : Sockets)
    (mailbox : String) (client : MailboxClient) (s : MailboxServer) :
    Option (Except NetworkError (Option MessageData) × Served) :=
  let msg := .receive mailbox
  let request :=
    match client.protocol with
    | .tcp => requestTcp B J H service sockets msg s
    | .udp => requestUdp B J H service sockets msg s
  match request with
  | none => none
  | some (.error e, served) => some (.error e, served)
  | some (.ok (.messageResponse message), served) => some (.ok message, served)
  | some (.ok (.error message), served) =>
      some (.error (.mailbox (.mailboxNotFound message)), served)
  | some (.ok _, served) => some (.error (.invalidProtocol 0), served)

end MailboxClient

/-! ## What arrives

A frame shorter than 2^32 reads back, by the two reads there are of it.  TCP and UDP
share a part of the server, and a send is a request whose response is thrown away. -/

def decoded (B : Bincode) (bytes : List UInt8) : Option NetworkMessage :=
  match B.deserialize bytes with
  | .error _ => none
  | .ok msg => some msg

/-- The request that arrives at the server's handler, for one that is sent. -/
def arriving (B : Bincode) (sockets : Sockets) (config : NetworkConfig) (protocol : Protocol)
    (msg : NetworkMessage) : Option NetworkMessage :=
  match B.serialize msg with
  | .error _ => none
  | .ok bytes =>
      match protocol with
      | .tcp =>
          let len := (UInt32.ofNat bytes.length).toNat
          match sockets.connect with
          | .error _ => none
          | .ok () => if config.maxMessageSize < len then none else decoded B (bytes.take len)
      | .udp =>
          match sockets.bind with
          | .error _ => none
          | .ok () =>
              match sockets.sendTo bytes with
              | .error _ => none
              | .ok () => decoded B (bytes.take config.maxMessageSize)

/-- If a request was answered, the reply is made and fits a frame, or what the client
reads of a datagram. -/
def Served.Arrives (B : Bincode) (protocol : Protocol) (served : Served) : Prop :=
  ∀ response, served.response = some response → ∃ bytes, B.serialize response = .ok bytes ∧
    match protocol with
    | .tcp => bytes.length < 2 ^ 32
    | .udp => bytes.length ≤ 10 * 1024 * 1024

section
variable {B : Bincode} {J : SerdeJson} {H : Hasher} {service : Service} {sockets : Sockets}
  {msg response : NetworkMessage} {s s' : MailboxServer} {served : Served}
  {result : Except NetworkError Unit} {stream bytes : List UInt8}

theorem fromBeBytes_toBeBytes (n : UInt32) : fromBeBytes (toBeBytes n) = n := by
  rw [fromBeBytes, toBeBytes, List.reverse_reverse, Memory.readU32_writeU32]

theorem toBeBytes_length (n : UInt32) : (toBeBytes n).length = 4 := by
  rw [toBeBytes, List.length_reverse, Memory.writeU32_length]

theorem readExact_writeFrame (bytes : List UInt8) :
    readExact 4 (writeFrame bytes) = some (toBeBytes (UInt32.ofNat bytes.length), bytes) ∧
      readExact (UInt32.ofNat bytes.length).toNat bytes =
        some (bytes.take (UInt32.ofNat bytes.length).toNat,
          bytes.drop (UInt32.ofNat bytes.length).toNat) := by
  refine ⟨readExact_append (toBeBytes_length _) bytes, if_pos ?_⟩
  rw [UInt32.toNat_ofNat']
  exact Nat.mod_le _ _

theorem readResponse_writeFrame (hlen : bytes.length < 2 ^ 32)
    (h : B.deserialize bytes = .ok response) :
    MailboxClient.readResponse B (writeFrame bytes) = .ok response := by
  obtain ⟨hframe, hbody⟩ := readExact_writeFrame bytes
  have htoNat : (UInt32.ofNat bytes.length).toNat = bytes.length := by
    rw [UInt32.toNat_ofNat', Nat.mod_eq_of_lt hlen]
  rw [MailboxClient.readResponse, hframe]
  dsimp only
  rw [fromBeBytes_toBeBytes, hbody, htoNat, List.take_length]
  simp only [MailboxClient.decode, h]

/-- What the server makes of what it was sent: nothing, or its answer to the request
that arrived, with the bytes of the reply if the answer serializes. -/
def Answered (B : Bincode) (J : SerdeJson) (H : Hasher) (service : Service)
    (frame : List UInt8 → List UInt8) (arrived : Option NetworkMessage) (s : MailboxServer)
    (served : Served) : Prop :=
  (arrived = none ∧ served = .nothing s) ∨
    ∃ msg response, arrived = some msg ∧
      s.handleMessage J H service msg = some (response, served.server) ∧
      served.response = some response ∧
      ∀ bytes, B.serialize response = .ok bytes → served.reply = some (frame bytes)

theorem answered (frame : List UInt8 → List UInt8)
    (h : (match B.deserialize bytes with
      | .error _ => some (.nothing s)
      | .ok msg =>
          match s.handleMessage J H service msg with
          | none => none
          | some (response, server) =>
              match B.serialize response with
              | .error _ => some { response := some response, reply := none, server }
              | .ok bytes => some { response := some response, reply := some (frame bytes), server })
      = some served) : Answered B J H service frame (decoded B bytes) s served := by
  rw [decoded]
  cases hmsg : B.deserialize bytes with
  | error e =>
      rw [hmsg] at h
      cases h
      exact Or.inl ⟨rfl, rfl⟩
  | ok msg =>
  simp only [hmsg] at h
  cases hhandle : s.handleMessage J H service msg with
  | none =>
      rw [hhandle] at h
      cases h
  | some answer =>
  obtain ⟨response, server⟩ := answer
  simp only [hhandle] at h
  cases hreply : B.serialize response with
  | error e =>
      rw [hreply] at h
      cases h
      refine Or.inr ⟨msg, response, rfl, hhandle, rfl, ?_⟩
      intro reply hok
      cases hreply.symm.trans hok
  | ok reply =>
      rw [hreply] at h
      cases h
      refine Or.inr ⟨msg, response, rfl, hhandle, rfl, ?_⟩
      intro reply' hok
      cases hreply.symm.trans hok
      rfl

theorem handleTcpConnection_answered
    (h : s.handleTcpConnection B J H service (writeFrame bytes) = some served) :
    Answered B J H service writeFrame
      (if s.config.maxMessageSize < (UInt32.ofNat bytes.length).toNat then none
        else decoded B (bytes.take (UInt32.ofNat bytes.length).toNat)) s served := by
  obtain ⟨hframe, hbody⟩ := readExact_writeFrame bytes
  simp only [MailboxServer.handleTcpConnection, hframe, fromBeBytes_toBeBytes] at h
  by_cases hlarge : s.config.maxMessageSize < (UInt32.ofNat bytes.length).toNat
  · rw [if_pos hlarge] at h ⊢
    cases h
    exact Or.inl ⟨rfl, rfl⟩
  · rw [if_neg hlarge, hbody] at h
    rw [if_neg hlarge]
    exact answered writeFrame h

theorem handleDatagram_answered (h : s.handleDatagram B J H service bytes = some served) :
    Answered B J H service id (decoded B (bytes.take s.config.maxMessageSize)) s served :=
  answered id h

/-- What comes of a send: nothing arrived and it fails, or a request arrived, the
server answered it, and the send returns `Ok` whatever the answer was. -/
def Exchanged (J : SerdeJson) (H : Hasher) (service : Service) (arrived : Option NetworkMessage)
    (s : MailboxServer) (result : Except NetworkError Unit) (served : Served) : Prop :=
  (arrived = none ∧ served.response = none ∧ ∃ e, result = .error e) ∨
    ∃ msg response, arrived = some msg ∧
      s.handleMessage J H service msg = some (response, served.server) ∧
      served.response = some response ∧ result = .ok ()

theorem discarded {request : Option (Except NetworkError NetworkMessage × Served)}
    (h : (match request with
      | none => none
      | some (.error e, served) => some (.error e, served)
      | some (.ok _, served) => some (.ok (), served)) = some (result, served)) :
    ∃ read, request = some (read, served) ∧ result = read.map (fun _ => ()) := by
  match request, h with
  | some (.error e, _), h =>
      cases h
      exact ⟨.error e, rfl, rfl⟩
  | some (.ok response, _), h =>
      cases h
      exact ⟨.ok response, rfl, rfl⟩

theorem sendTcp_exchanged (hB : B.RoundTrips) (harrives : served.Arrives B .tcp)
    (h : MailboxClient.sendTcp B J H service sockets msg s = some (result, served)) :
    Exchanged J H service (arriving B sockets s.config .tcp msg) s result served := by
  obtain ⟨read, hrequest, rfl⟩ := discarded h
  simp only [MailboxClient.requestTcp] at hrequest
  simp only [arriving]
  cases hconnect : sockets.connect with
  | error e =>
      rw [hconnect] at hrequest
      cases hrequest
      cases B.serialize msg with
      | error e' => exact Or.inl ⟨rfl, rfl, _, rfl⟩
      | ok bytes => exact Or.inl ⟨rfl, rfl, _, rfl⟩
  | ok =>
  cases hbytes : B.serialize msg with
  | error e =>
      simp only [hconnect, hbytes] at hrequest
      cases hrequest
      exact Or.inl ⟨rfl, rfl, _, rfl⟩
  | ok bytes =>
  simp only [hconnect, hbytes] at hrequest
  cases hserved : s.handleTcpConnection B J H service (writeFrame bytes) with
  | none =>
      rw [hserved] at hrequest
      cases hrequest
  | some served' =>
  rw [hserved] at hrequest
  cases hrequest
  rcases handleTcpConnection_answered hserved with
    ⟨hnone, rfl⟩ | ⟨msg', response, hsome, hhandle, hresponse, hreply⟩
  · exact Or.inl ⟨hnone, rfl, _, rfl⟩
  · obtain ⟨reply, hserialize, hlen⟩ := harrives response hresponse
    refine Or.inr ⟨msg', response, hsome, hhandle, hresponse, ?_⟩
    rw [hreply reply hserialize, Option.getD_some, readResponse_writeFrame hlen (hB hserialize)]
    rfl

theorem sendUdp_exchanged (hB : B.RoundTrips) (harrives : served.Arrives B .udp)
    (h : MailboxClient.sendUdp B J H service sockets msg s = some (result, served)) :
    Exchanged J H service (arriving B sockets s.config .udp msg) s result served := by
  obtain ⟨read, hrequest, rfl⟩ := discarded h
  simp only [MailboxClient.requestUdp] at hrequest
  simp only [arriving]
  cases hbind : sockets.bind with
  | error e =>
      rw [hbind] at hrequest
      cases hrequest
      cases B.serialize msg with
      | error e' => exact Or.inl ⟨rfl, rfl, _, rfl⟩
      | ok bytes => exact Or.inl ⟨rfl, rfl, _, rfl⟩
  | ok =>
  cases hbytes : B.serialize msg with
  | error e =>
      simp only [hbind, hbytes] at hrequest
      cases hrequest
      exact Or.inl ⟨rfl, rfl, _, rfl⟩
  | ok bytes =>
  simp only [hbind, hbytes] at hrequest
  cases hsendTo : sockets.sendTo bytes with
  | error e =>
      simp only [hsendTo] at hrequest ⊢
      cases hrequest
      exact Or.inl ⟨rfl, rfl, _, rfl⟩
  | ok =>
  simp only [hsendTo] at hrequest ⊢
  cases hserved : s.handleDatagram B J H service bytes with
  | none =>
      rw [hserved] at hrequest
      cases hrequest
  | some served' =>
  simp only [hserved] at hrequest
  cases hpacket : served'.reply with
  | none =>
      rw [hpacket] at hrequest
      cases hrequest
  | some packet =>
  rw [hpacket] at hrequest
  cases hrequest
  rcases handleDatagram_answered hserved with
    ⟨-, rfl⟩ | ⟨msg', response, hsome, hhandle, hresponse, hreply⟩
  · cases hpacket
  · obtain ⟨reply, hserialize, hlen⟩ := harrives response hresponse
    cases hpacket.symm.trans (hreply reply hserialize)
    refine Or.inr ⟨msg', response, hsome, hhandle, hresponse, ?_⟩
    rw [id, List.take_of_length_le hlen, MailboxClient.decode, hB hserialize]
    rfl

end

/-! ## What the server does about a send

A handle is obtained iff the sender has a mailbox or one can be created, and nothing is
sent by that.  With a handle of the sender's either a queue takes the message and the
response is `Success`, or nothing is sent and the response is an error.  No other request
sends anything, and the mailboxes there were stay. -/

/-- The message that a request to send asks for. -/
def requested (call : Call) (to_ from_ : String) (body : List UInt8) (subject : Option String) :
    Message where
  from_ := ⟨from_⟩
  to_ := ⟨to_⟩
  id := call.id
  timestamp := call.timestamp
  body
  subject
  replyTo := none

/-- The sender has a mailbox, or one can be created; `system` is the system with
it. -/
inductive Prepared (service : Service) (from_ : String) (s : MailboxServer) :
    MailboxSystem → Prop where
  | cached {handle : Nat} : s.cached from_ = some handle → Prepared service from_ s s.office.system
  | existing {mailbox : Mailbox} : s.cached from_ = none →
      s.office.system.getMailbox from_ = .ok (some mailbox) →
      Prepared service from_ s s.office.system
  | created {mailbox : Mailbox} {system : MailboxSystem} : s.cached from_ = none →
      s.office.system.getMailbox from_ = .ok none →
      s.office.system.createMailbox service.call.fs service.paths from_ = (.ok mailbox, system) →
      Prepared service from_ s system

/-- The message is for a mailbox there is, it serializes, and the mailbox's queue takes
the bytes and is then `queue'`. -/
def Takes (J : SerdeJson) (H : Hasher) (call : Call) (m : Message) (system : MailboxSystem)
    (queue queue' : PersistQ) : Prop :=
  m.to_.address.isEmpty = false ∧ system.mailboxes.lookup m.to_ = some queue ∧
    ∃ bytes result, J.toVec m = .ok bytes ∧
      queue.append H call.fs call.startTime call.endTime call.rounds bytes
        = some (some (.ok result), queue')

/-- The server can do what a request to send asks. -/
def Accepts (J : SerdeJson) (H : Hasher) (service : Service) (to_ from_ : String)
    (body : List UInt8) (subject : Option String) (s : MailboxServer) : Prop :=
  ∃ system queue queue', Prepared service from_ s system ∧
    Takes J H service.call (requested service.call to_ from_ body subject) system queue queue'

/-- The message, and no other, was sent: the queue of its address is the one there was
before with the bytes of the message appended to it. -/
structure Appended (J : SerdeJson) (H : Hasher) (call : Call) (m : Message)
    (s s' : MailboxServer) : Prop where
  sent : ∃ x, s'.office.sent = s.office.sent ++ [x] ∧ x.message = m
  queue : ∃ queue bytes result queue', J.toVec m = .ok bytes ∧
    queue.append H call.fs call.startTime call.endTime call.rounds bytes
      = some (some (.ok result), queue') ∧
    s'.office.system.mailboxes.lookup m.to_ = some queue' ∧
    ∀ before, s.office.system.mailboxes.lookup m.to_ = some before → before = queue

section
variable {J : SerdeJson} {H : Hasher} {service : Service} {s s' : MailboxServer}
  {to_ from_ : String} {body : List UInt8} {subject : Option String} {response : NetworkMessage}
  {system system' : MailboxSystem}

theorem Prepared.unique (h : Prepared service from_ s system)
    (h' : Prepared service from_ s system') : system = system' := by
  cases h with
  | cached hcached =>
      cases h' with
      | cached => rfl
      | existing hnone => cases hcached.symm.trans hnone
      | created hnone => cases hcached.symm.trans hnone
  | existing hnone hget =>
      cases h' with
      | cached => rfl
      | existing => rfl
      | created _ hget' => cases hget.symm.trans hget'
  | created hnone hget hcreate =>
      cases h' with
      | cached hcached => cases hnone.symm.trans hcached
      | existing _ hget' => cases hget.symm.trans hget'
      | created _ _ hcreate' =>
          cases hcreate.symm.trans hcreate'
          rfl

theorem Prepared.lookup (h : Prepared service from_ s system) {a : MailboxAddress}
    {queue : PersistQ} (hlookup : s.office.system.mailboxes.lookup a = some queue) :
    system.mailboxes.lookup a = some queue := by
  cases h with
  | cached => exact hlookup
  | existing => exact hlookup
  | created _ _ hcreate =>
      rcases MailboxSystem.createMailbox_cases hcreate with ⟨e, he, -⟩ | ⟨-, -, hnone⟩
      · cases he
      obtain ⟨made, -, -, -, rfl⟩ := MailboxSystem.createMailbox_ok hcreate
      refine (MailboxSystem.putQueue_lookup_ne ?_ _ _).trans hlookup
      rintro rfl
      cases hnone.symm.trans hlookup

theorem getOrCreateMailbox_prepared {answer : Except NetworkError Nat}
    (h : s.getOrCreateMailbox service from_ = (answer, s')) :
    s'.office.sent = s.office.sent ∧
      ((∃ handle, answer = .ok handle ∧ Prepared service from_ s s'.office.system) ∨
        ∃ e, answer = .error e ∧ ∀ system, ¬ Prepared service from_ s system) := by
  simp only [MailboxServer.getOrCreateMailbox] at h
  cases hcached : s.cached from_ with
  | some handle =>
      rw [hcached] at h
      cases h
      exact ⟨rfl, Or.inl ⟨handle, rfl, .cached hcached⟩⟩
  | none =>
  simp only [hcached, MailboxServer.fetch, Office.get] at h
  cases hget : s.office.system.getMailbox from_ with
  | error e =>
      simp only [hget] at h
      cases h
      refine ⟨rfl, Or.inr ⟨_, rfl, ?_⟩⟩
      intro system hprepared
      cases hprepared with
      | cached hsome => cases hcached.symm.trans hsome
      | existing _ hget' => cases hget.symm.trans hget'
      | created _ hget' => cases hget.symm.trans hget'
  | ok found =>
  cases found with
  | some mailbox =>
      simp only [hget] at h
      cases h
      exact ⟨rfl, Or.inl ⟨_, rfl, .existing hcached hget⟩⟩
  | none =>
  simp only [hget, Office.create] at h
  cases hcreate : s.office.system.createMailbox service.call.fs service.paths from_ with
  | mk made system =>
  rw [hcreate] at h
  cases made with
  | error e =>
      cases h
      refine ⟨rfl, Or.inr ⟨_, rfl, ?_⟩⟩
      intro system' hprepared
      cases hprepared with
      | cached hsome => cases hcached.symm.trans hsome
      | existing _ hget' => cases hget.symm.trans hget'
      | created _ _ hcreate' => cases hcreate.symm.trans hcreate'
  | ok mailbox =>
      cases h
      exact ⟨rfl, Or.inl ⟨_, rfl, .created hcached hget hcreate⟩⟩

theorem compose_outgoing {sender : Mailbox} (haddress : sender.address = ⟨from_⟩) (call : Call)
    (to_ : String) (body : List UInt8) (subject : Option String) :
    sender.compose call.id call.timestamp (MailboxServer.outgoing to_ body subject) =
      if to_.isEmpty then .error (.invalidAddress "Address cannot be empty")
      else .ok (requested call to_ from_ body subject) := by
  cases subject with
  | none =>
      simp only [MailboxServer.outgoing, Mailbox.compose, MailboxAddress.new, haddress]
      cases to_.isEmpty with
      | true => rfl
      | false => rfl
  | some subject =>
      simp only [MailboxServer.outgoing, Mailbox.compose, MailboxAddress.new, haddress]
      cases to_.isEmpty with
      | true => rfl
      | false => rfl

theorem routeMessage_takes {call : Call} {m : Message} {answer : Except MailboxError String}
    (hto : m.to_.address.isEmpty = false)
    (h : system.routeMessage J H call m = some (answer, system')) :
    (∃ e, answer = .error e ∧ ∀ queue queue', ¬ Takes J H call m system queue queue') ∨
      ∃ id queue queue', answer = .ok id ∧ Takes J H call m system queue queue' ∧
        system' = system.putQueue m.to_ queue' := by
  simp only [MailboxSystem.routeMessage, Message.toBytes] at h
  cases hlookup : system.mailboxes.lookup m.to_ with
  | none =>
      rw [hlookup] at h
      cases h
      refine Or.inl ⟨_, rfl, ?_⟩
      rintro queue queue' ⟨-, hsome, -⟩
      cases hlookup.symm.trans hsome
  | some queue =>
  cases hbytes : J.toVec m with
  | error e =>
      rw [hlookup, hbytes] at h
      cases h
      refine Or.inl ⟨_, rfl, ?_⟩
      rintro queue' queue'' ⟨-, -, bytes, result, hok, -⟩
      cases hbytes.symm.trans hok
  | ok bytes =>
  simp only [hlookup, hbytes] at h
  split at h
  · cases h
  · cases h
  · rename_i outcome queue' happ
    cases h
    cases outcome with
    | error e =>
        refine Or.inl ⟨_, rfl, ?_⟩
        rintro queue₁ queue₂ ⟨-, hqueue, bytes', result, hok, happ'⟩
        cases hlookup.symm.trans hqueue
        cases hbytes.symm.trans hok
        cases happ.symm.trans happ'
    | ok result =>
        exact Or.inr ⟨_, queue, queue', rfl, ⟨hto, hlookup, bytes, result, hbytes, happ⟩, rfl⟩

/-- What is done with a handle of the sender's: a queue takes the message and the
response is `Success`, or nothing is sent and the response is an error. -/
theorem sendOn_takes {handle : Nat} (hhas : MailboxServer.Has s.office handle from_)
    (h : s.sendOn J H service to_ body subject handle = some (response, s')) :
    (∃ queue queue', response = .success ∧
      Takes J H service.call (requested service.call to_ from_ body subject) s.office.system
        queue queue' ∧
      s'.office.system = s.office.system.putQueue ⟨to_⟩ queue' ∧
      ∃ x, s'.office.sent = s.office.sent ++ [x] ∧
        x.message = requested service.call to_ from_ body subject) ∨
    ∃ text, response = .error text ∧ s'.office.sent = s.office.sent ∧
      ∀ queue queue', ¬ Takes J H service.call (requested service.call to_ from_ body subject)
        s.office.system queue queue' := by
  obtain ⟨sender, hsender, haddress⟩ := hhas
  have hcompose := compose_outgoing haddress service.call to_ body subject
  simp only [MailboxServer.sendOn, hsender, Office.send, Mailbox.send, hcompose] at h
  cases hto : to_.isEmpty with
  | true =>
      simp only [hto, if_true] at h
      cases h
      refine Or.inr ⟨_, rfl, List.append_nil _, ?_⟩
      rintro queue queue' ⟨hnonempty, -⟩
      cases hto.symm.trans hnonempty
  | false =>
  simp only [hto, Bool.false_eq_true, if_false] at h
  cases hroute : s.office.system.routeMessage J H service.call
      (requested service.call to_ from_ body subject) with
  | none =>
      rw [hroute] at h
      cases h
  | some answer =>
  obtain ⟨answer, system⟩ := answer
  simp only [hroute] at h
  rcases routeMessage_takes hto hroute with
    ⟨e, rfl, hrefused⟩ | ⟨id, queue, queue', rfl, htakes, rfl⟩
  · cases h
    exact Or.inr ⟨_, rfl, List.append_nil _, hrefused⟩
  · cases h
    exact Or.inl ⟨queue, queue', rfl, htakes, rfl, _, rfl, rfl⟩

/-- **The server's answer to a send is true**: `Success` if it could do what it was
asked and did, and otherwise an error, with nothing sent. -/
theorem handleSend_answer (hwired : s.Wired)
    (h : s.handleSend J H service to_ from_ body subject = some (response, s')) :
    (response = .success ∧ Accepts J H service to_ from_ body subject s ∧
      Appended J H service.call (requested service.call to_ from_ body subject) s s') ∨
    ∃ text, response = .error text ∧ s'.office.sent = s.office.sent ∧
      ¬ Accepts J H service to_ from_ body subject s := by
  simp only [MailboxServer.handleSend] at h
  cases hget : s.getOrCreateMailbox service from_ with
  | mk answer s₁ =>
  obtain ⟨-, hhas⟩ := MailboxServer.getOrCreateMailbox_wired hwired hget
  obtain ⟨hsent, ⟨handle, rfl, hprepared⟩ | ⟨e, rfl, hnot⟩⟩ := getOrCreateMailbox_prepared hget
  · simp only [hget] at h
    rcases sendOn_takes (hhas handle rfl) h with
      ⟨queue, queue', rfl, htakes, hsystem, x, hx, hmessage⟩ | ⟨text, rfl, hsame, hrefused⟩
    · refine Or.inl ⟨rfl, ⟨_, queue, queue', hprepared, htakes⟩, ⟨x, hsent ▸ hx, hmessage⟩, ?_⟩
      obtain ⟨-, hlookup, bytes, result, hbytes, happ⟩ := htakes
      refine ⟨queue, bytes, result, queue', hbytes, happ, ?_, ?_⟩
      · rw [hsystem]
        exact MailboxSystem.putQueue_lookup _ _ queue'
      · intro before hbefore
        cases hlookup.symm.trans (hprepared.lookup hbefore)
        rfl
    · refine Or.inr ⟨text, rfl, hsame.trans hsent, ?_⟩
      rintro ⟨system, queue, queue', hprepared', htakes⟩
      cases hprepared.unique hprepared'
      exact hrefused queue queue' htakes
  · rw [hget] at h
    cases h
    refine Or.inr ⟨_, rfl, hsent, ?_⟩
    rintro ⟨system, -, -, hprepared, -⟩
    exact hnot system hprepared

theorem receiveOn_sent {handle : Nat}
    (h : s.receiveOn J service handle = some (response, s')) : s'.office.sent = s.office.sent := by
  simp only [MailboxServer.receiveOn] at h
  split at h
  · cases h
  · rename_i office hreceive
    cases h
    obtain ⟨_, _, -, -, rfl⟩ := Workers.receive_moved hreceive
    rfl
  · rename_i office hreceive
    cases h
    obtain ⟨_, _, -, -, rfl⟩ := Workers.receive_moved hreceive
    rfl

/-- Only a request to send that is answered with `Success` sends anything. -/
theorem handleMessage_sent (hwired : s.Wired) {msg : NetworkMessage}
    (h : s.handleMessage J H service msg = some (response, s')) :
    s'.office.sent = s.office.sent ∨ ∃ to_ from_ body subject,
      msg = .send to_ from_ body subject ∧ Accepts J H service to_ from_ body subject s ∧
      Appended J H service.call (requested service.call to_ from_ body subject) s s' := by
  cases msg with
  | send to_ from_ body subject =>
      rcases handleSend_answer hwired h with ⟨-, haccepts, happended⟩ | ⟨text, -, hsame, -⟩
      · exact Or.inr ⟨to_, from_, body, subject, rfl, haccepts, happended⟩
      · exact Or.inl hsame
  | receive mailbox =>
      simp only [MailboxServer.handleMessage, MailboxServer.handleReceive] at h
      split at h
      · rename_i e s₁ hget
        cases h
        exact Or.inl (getOrCreateMailbox_prepared hget).1
      · rename_i handle s₁ hget
        exact Or.inl ((receiveOn_sent h).trans (getOrCreateMailbox_prepared hget).1)
  | peek mailbox =>
      simp only [MailboxServer.handleMessage, MailboxServer.handlePeek] at h
      split at h
      · rename_i e s₁ hget
        cases h
        exact Or.inl (getOrCreateMailbox_prepared hget).1
      · rename_i handle s₁ hget
        cases MailboxServer.peekOn_eq h
        exact Or.inl (getOrCreateMailbox_prepared hget).1
  | messageResponse message =>
      cases h
      exact Or.inl rfl
  | success =>
      cases h
      exact Or.inl rfl
  | error message =>
      cases h
      exact Or.inl rfl

theorem Appended.args {call : Call} {to_' from_' : String} {body' : List UInt8}
    {subject' : Option String}
    (h : Appended J H call (requested call to_ from_ body subject) s s')
    (h' : Appended J H call (requested call to_' from_' body' subject') s s') :
    NetworkMessage.send to_' from_' body' subject' = .send to_ from_ body subject := by
  obtain ⟨x, hx, hmessage⟩ := h.sent
  obtain ⟨x', hx', hmessage'⟩ := h'.sent
  cases List.append_cancel_left (hx.symm.trans hx')
  cases hmessage.symm.trans hmessage'
  rfl

end

/-! ## Both ways to send

A send says the truth iff `Ok` and the append go together.  The client does not look at
the response, so that is when the request does not arrive, and no append is claimed, or
when it does and the server can do what it asks. -/

/-- `send` or `send_with_subject`. -/
def MailboxClient.submit (B : Bincode) (J : SerdeJson) (H : Hasher) (service : Service)
    (sockets : Sockets) (to_ from_ : String) (body : List UInt8) (subject : Option String)
    (client : MailboxClient) (s : MailboxServer) : Option (Except NetworkError Unit × Served) :=
  match subject with
  | none => client.send B J H service sockets to_ from_ body s
  | some subject => client.sendWithSubject B J H service sockets to_ from_ subject body s

/-- `Ok` only if the server appended the message, and `Err` if it answered with an
error. -/
structure TellsTruth (J : SerdeJson) (H : Hasher) (call : Call) (m : Message) (s : MailboxServer)
    (result : Except NetworkError Unit) (served : Served) : Prop where
  ok : result = .ok () → Appended J H call m s served.server
  error : ∀ text, served.response = some (.error text) → ∃ e, result = .error e

theorem submit_exchanged {B : Bincode} {J : SerdeJson} {H : Hasher} {service : Service}
    {sockets : Sockets} {to_ from_ : String} {body : List UInt8} {subject : Option String}
    {client : MailboxClient} {s : MailboxServer} {result : Except NetworkError Unit}
    {served : Served} (hB : B.RoundTrips) (harrives : served.Arrives B client.protocol)
    (h : client.submit B J H service sockets to_ from_ body subject s = some (result, served)) :
    Exchanged J H service
      (arriving B sockets s.config client.protocol (.send to_ from_ body subject)) s result
      served := by
  obtain ⟨protocol⟩ := client
  cases subject with
  | none =>
      cases protocol with
      | tcp => exact sendTcp_exchanged hB harrives h
      | udp => exact sendUdp_exchanged hB harrives h
  | some subject =>
      cases protocol with
      | tcp => exact sendTcp_exchanged hB harrives h
      | udp => exact sendUdp_exchanged hB harrives h

section
open Delivery (bob alice letter letterText firstId freshCall twoLetters emptySystem)

/-- What a request that fits a frame and its response come to. -/
theorem sendTcp_whole {B : Bincode} {J : SerdeJson} {H : Hasher} {service : Service}
    {sockets : Sockets} {msg response : NetworkMessage} {bytes reply : List UInt8}
    {s s' : MailboxServer} (hB : B.RoundTrips) (hconnect : sockets.connect = .ok ())
    (hbytes : B.serialize msg = .ok bytes) (hlen : bytes.length < 2 ^ 32)
    (hmax : bytes.length ≤ s.config.maxMessageSize)
    (hhandle : s.handleMessage J H service msg = some (response, s'))
    (hreply : B.serialize response = .ok reply) (hlen' : reply.length < 2 ^ 32) :
    MailboxClient.sendTcp B J H service sockets msg s =
      some (.ok (),
        { response := some response, reply := some (writeFrame reply), server := s' }) := by
  obtain ⟨hframe, hbody⟩ := readExact_writeFrame bytes
  have htoNat : (UInt32.ofNat bytes.length).toNat = bytes.length := by
    rw [UInt32.toNat_ofNat', Nat.mod_eq_of_lt hlen]
  have hsmall : ¬ s.config.maxMessageSize < bytes.length := by omega
  rw [htoNat] at hbody
  simp only [MailboxClient.sendTcp, MailboxClient.requestTcp, hconnect, hbytes,
    MailboxServer.handleTcpConnection, hframe, fromBeBytes_toBeBytes, htoNat, if_neg hsmall, hbody,
    List.take_length, hB hbytes, hhandle, hreply, Option.getD_some,
    readResponse_writeFrame hlen' (hB hreply)]

theorem arriving_whole {B : Bincode} {sockets : Sockets} {config : NetworkConfig}
    {msg : NetworkMessage} {bytes : List UInt8} (hB : B.RoundTrips)
    (hconnect : sockets.connect = .ok ()) (hbytes : B.serialize msg = .ok bytes)
    (hlen : bytes.length < 2 ^ 32) (hmax : bytes.length ≤ config.maxMessageSize) :
    arriving B sockets config .tcp msg = some msg := by
  have htoNat : (UInt32.ofNat bytes.length).toNat = bytes.length := by
    rw [UInt32.toNat_ofNat', Nat.mod_eq_of_lt hlen]
  have hsmall : ¬ config.maxMessageSize < bytes.length := by omega
  simp only [arriving, hbytes, hconnect, htoNat, if_neg hsmall, List.take_length, decoded,
    hB hbytes]

/-- The request to send the letter. -/
def letterRequest : NetworkMessage := .send "bob@dolda" "alice@dolda" [65] none

/-- The response if there is no mailbox for it. -/
def noMailbox : NetworkMessage :=
  .error ("Failed to send: " ++ (MailboxError.mailboxNotFound "bob@dolda").display)

/-- A string is written with its length in front. -/
def stringText (s : String) : List UInt8 :=
  Memory.writeU64 (UInt64.ofNat s.utf8ByteSize) ++ s.toUTF8.data.toList

/-- The kind of message comes first. -/
def requestText : List UInt8 :=
  writeU32 0 ++ stringText "bob@dolda" ++ stringText "alice@dolda" ++ Memory.writeU64 1 ++ [65, 0]

def noMailboxText : List UInt8 :=
  writeU32 5 ++ stringText "Failed to send: Mailbox not found: bob@dolda"

/-- The request and two responses to it. -/
def exchange : Bincode :=
  .ofTexts [(letterRequest, requestText), (.success, writeU32 4), (noMailbox, noMailboxText)]

theorem exchange_roundTrips : exchange.RoundTrips := Bincode.ofTexts_roundTrips (by decide +kernel)

def letterService : Service :=
  { call := freshCall 0 1 1700000000000000 firstId, paths := .plain }

/-- Calls that all succeed. -/
def Sockets.open : Sockets where
  connect := .ok ()
  bind := .ok ()
  sendTo _ := .ok ()

/-- A new server where the sender had no mailbox, once there is one. -/
def aliceServer (system : MailboxSystem) : MailboxServer where
  config := .default
  office := { system, handles := [alice], sent := [], received := [] }
  mailboxes := (∅ : AList (fun _ : String => Nat)).insert "alice@dolda" 0

theorem alice_prepared (mailboxes : AList (fun _ : MailboxAddress => PersistQ))
    (hnone : mailboxes.lookup alice.address = none) : ∃ system,
    (MailboxServer.new .default ⟨mailboxes, "/data"⟩).getOrCreateMailbox letterService "alice@dolda"
      = (.ok 0, aliceServer system) ∧
    system.mailboxes.lookup bob.address = mailboxes.lookup bob.address := by
  have hvalid : { emptySystem.defaultConfig with
      storageDir := emptySystem.mailboxDir "alice@dolda" }.Valid := by
    decide +kernel
  let sys : MailboxSystem := ⟨mailboxes, "/data"⟩
  obtain ⟨system, hcreate⟩ : ∃ system, sys.createMailbox Files.fresh PersistQ.Paths.plain
      "alice@dolda" = (.ok alice, system) :=
    Delivery.createMailbox_willing Files.fresh_willing (by decide) hnone hvalid
  obtain ⟨queue, -, -, -, hsystem⟩ := MailboxSystem.createMailbox_ok hcreate
  have hget : MailboxSystem.getMailbox "alice@dolda" ⟨mailboxes, "/data"⟩ = .ok none := by
    have hnone' : mailboxes.lookup ⟨"alice@dolda"⟩ = none := hnone
    have haddress : MailboxAddress.new "alice@dolda" = .ok ⟨"alice@dolda"⟩ := rfl
    simp only [MailboxSystem.getMailbox, haddress, hnone']
  refine ⟨system, ?_, ?_⟩
  · have hcached : (MailboxServer.new .default ⟨mailboxes, "/data"⟩).cached "alice@dolda" = none :=
      AList.lookup_empty _
    have hcreate' : MailboxSystem.createMailbox letterService.call.fs letterService.paths
        "alice@dolda" ⟨mailboxes, "/data"⟩ = (.ok alice, system) := hcreate
    simp only [MailboxServer.getOrCreateMailbox, hcached, MailboxServer.fetch]
    simp only [MailboxServer.new, Office.start, Office.get, hget, Office.create, hcreate']
    rfl
  · rw [hsystem]
    exact MailboxSystem.putQueue_lookup_ne (by decide) sys queue

end

/-- **What a send says is true** iff no request arrives at the server, or the one that
was sent does and the server can do what it asks. -/
theorem send_faithful_iff {B : Bincode} {J : SerdeJson} {H : Hasher} {service : Service}
    {sockets : Sockets} {to_ from_ : String} {body : List UInt8} {subject : Option String}
    {client : MailboxClient} {s : MailboxServer} {result : Except NetworkError Unit}
    {served : Served} (hB : B.RoundTrips) (hreached : s.Reached J H)
    (harrives : served.Arrives B client.protocol)
    (h : client.submit B J H service sockets to_ from_ body subject s = some (result, served)) :
    TellsTruth J H service.call (requested service.call to_ from_ body subject) s result served ↔
      arriving B sockets s.config client.protocol (.send to_ from_ body subject) = none ∨
      (arriving B sockets s.config client.protocol (.send to_ from_ body subject)
          = some (.send to_ from_ body subject) ∧
        Accepts J H service to_ from_ body subject s) := by
  rcases submit_exchanged hB harrives h with
    ⟨hnone, hsilent, e, rfl⟩ | ⟨msg, response, hsome, hhandle, hresponse, rfl⟩
  · refine ⟨fun _ => Or.inl hnone, fun _ => ⟨?_, fun text _ => ⟨e, rfl⟩⟩⟩
    intro hok
    cases hok
  · constructor
    · intro htruth
      have happended := htruth.ok rfl
      rcases handleMessage_sent hreached.wired hhandle with
        hsame | ⟨to_', from_', body', subject', rfl, haccepts, happended'⟩
      · obtain ⟨x, hx, -⟩ := happended.sent
        have hlen := congrArg List.length (hsame.symm.trans hx)
        rw [List.length_append, List.length_singleton] at hlen
        omega
      · cases happended.args happended'
        exact Or.inr ⟨hsome, haccepts⟩
    · rintro (hnone | ⟨hsent, haccepts⟩)
      · cases hsome.symm.trans hnone
      cases hsome.symm.trans hsent
      rcases handleSend_answer hreached.wired hhandle with
        ⟨rfl, -, happended⟩ | ⟨text, -, -, hnot⟩
      · refine ⟨fun _ => happended, ?_⟩
        intro text herror
        cases hresponse.symm.trans herror
      · exact absurd haccepts hnot

section
open Delivery (alice bob letter letterText firstId twoLetters emptySystem)

/-- A letter that arrives, and a client that is told so. -/
theorem send_faithful_iff_letter : ∃ system served,
    emptySystem.createMailbox Files.fresh .plain "bob@dolda" = (.ok bob, system) ∧
    MailboxClient.submit exchange twoLetters crc32Hasher letterService .open "bob@dolda"
      "alice@dolda" [65] none ⟨.tcp⟩ (.new .default system) = some (.ok (), served) ∧
    Appended twoLetters crc32Hasher letterService.call (letter firstId 65) (.new .default system)
      served.server := by
  obtain ⟨-, queue, hcreate, rfl, hholds, hsize, -⟩ :=
    Delivery.bob_created Files.fresh_willing crc32Hasher
  obtain ⟨system', hget, hsame⟩ :=
    alice_prepared (emptySystem.putQueue bob.address queue).mailboxes rfl
  have hlookup : system'.mailboxes.lookup bob.address = some queue :=
    hsame.trans (emptySystem.putQueue_lookup _ queue)
  obtain ⟨result, queue', hsend, -⟩ :=
    Delivery.send_letter Files.fresh_willing (H := crc32Hasher) hlookup hholds hsize
      Delivery.twoLetters_first 0 1
  let s : MailboxServer := .new .default (emptySystem.putQueue bob.address queue)
  obtain ⟨s', hhandle⟩ : ∃ s', s.handleMessage twoLetters crc32Hasher letterService letterRequest
      = some (.success, s') := by
    have hsend' : alice.send twoLetters crc32Hasher letterService.call (.sendTo "bob@dolda" [65])
        system' = some (.ok firstId, system'.putQueue bob.address queue') := hsend
    have hget' : s.getOrCreateMailbox letterService "alice@dolda" = (.ok 0, aliceServer system') :=
      hget
    simp only [letterRequest, MailboxServer.handleMessage, MailboxServer.handleSend, hget']
    simp only [MailboxServer.sendOn, aliceServer, MailboxServer.outgoing, List.getElem?_cons_zero,
      Office.send, hsend']
    exact ⟨_, rfl⟩
  have hrequest : exchange.serialize letterRequest = .ok requestText := by decide +kernel
  have hsuccess : exchange.serialize .success = .ok (writeU32 4) := by decide +kernel
  have hlen : requestText.length < 2 ^ 32 := by decide +kernel
  have hmax : requestText.length ≤ s.config.maxMessageSize := by
    show requestText.length ≤ 10 * 1024 * 1024
    decide +kernel
  have hsent : MailboxClient.submit exchange twoLetters crc32Hasher letterService .open "bob@dolda"
      "alice@dolda" [65] none ⟨.tcp⟩ s = some (.ok (), _) :=
    sendTcp_whole exchange_roundTrips rfl hrequest hlen hmax hhandle hsuccess (by decide)
  have harriving : arriving exchange .open s.config .tcp letterRequest = some letterRequest :=
    arriving_whole exchange_roundTrips rfl hrequest hlen hmax
  have haccepts : Accepts twoLetters crc32Hasher letterService "bob@dolda" "alice@dolda" [65] none
      s := by
    have hreached : s.Reached twoLetters crc32Hasher := .new _ _
    rcases handleSend_answer hreached.wired hhandle with
      ⟨-, haccepts, -⟩ | ⟨text, herror, -⟩
    · exact haccepts
    · cases herror
  refine ⟨_, _, hcreate, hsent, ?_⟩
  refine ((send_faithful_iff exchange_roundTrips (.new _ _) ?_ hsent).mpr
    (Or.inr ⟨harriving, haccepts⟩)).ok rfl
  rintro response ⟨⟩
  exact ⟨_, hsuccess, by decide⟩

/-- **A send to someone who has no mailbox** returns `Ok`, and the server's response is
that it failed. -/
theorem unknown_recipient_ok : ∃ served,
    MailboxSystem.new Files.fresh "/data" = .ok emptySystem ∧ exchange.RoundTrips ∧
    served.Arrives exchange .tcp ∧
    MailboxClient.send exchange twoLetters crc32Hasher letterService .open "bob@dolda"
      "alice@dolda" [65] ⟨.tcp⟩ (.new .default emptySystem) = some (.ok (), served) ∧
    served.response = some (.error "Failed to send: Mailbox not found: bob@dolda") ∧
    served.server.office.sent = [] ∧
    ¬ TellsTruth twoLetters crc32Hasher letterService.call
      (requested letterService.call "bob@dolda" "alice@dolda" [65] none)
      (.new .default emptySystem) (.ok ()) served := by
  obtain ⟨system, hget, hsame⟩ := alice_prepared ∅ (AList.lookup_empty alice.address)
  have hnone : system.mailboxes.lookup bob.address = none := hsame.trans (AList.lookup_empty _)
  have hsend : alice.send twoLetters crc32Hasher letterService.call (.sendTo "bob@dolda" [65])
      system = some (.error (.mailboxNotFound "bob@dolda"), system) := by
    have hcompose : alice.compose letterService.call.id letterService.call.timestamp
        (.sendTo "bob@dolda" [65]) = .ok (letter firstId 65) := rfl
    have hnone' : system.mailboxes.lookup (letter firstId 65).to_ = none := hnone
    simp only [Mailbox.send, hcompose, MailboxSystem.routeMessage, hnone']
    rfl
  have hget' : (MailboxServer.new .default emptySystem).getOrCreateMailbox letterService
      "alice@dolda" = (.ok 0, aliceServer system) := hget
  have hhandle : (MailboxServer.new .default emptySystem).handleMessage twoLetters crc32Hasher
      letterService letterRequest = some (noMailbox, aliceServer system) := by
    simp only [letterRequest, MailboxServer.handleMessage, MailboxServer.handleSend, hget']
    simp only [MailboxServer.sendOn, aliceServer, MailboxServer.outgoing, List.getElem?_cons_zero,
      Office.send, hsend]
    rfl
  have hrequest : exchange.serialize letterRequest = .ok requestText := by decide +kernel
  have hreply : exchange.serialize noMailbox = .ok noMailboxText := by decide +kernel
  have hlen' : noMailboxText.length < 2 ^ 32 := by decide +kernel
  have hmax : requestText.length ≤ 10 * 1024 * 1024 := by decide +kernel
  have hsent : MailboxClient.sendTcp exchange twoLetters crc32Hasher letterService .open
      letterRequest (.new .default emptySystem) = some (.ok (), _) :=
    sendTcp_whole exchange_roundTrips rfl hrequest (by decide +kernel) hmax hhandle hreply hlen'
  refine ⟨_, rfl, exchange_roundTrips, ?_, hsent, ?_, rfl, ?_⟩
  · rintro response ⟨⟩
    exact ⟨_, hreply, hlen'⟩
  · show some noMailbox = _
    decide +kernel
  · intro htruth
    obtain ⟨e, he⟩ := htruth.error _ rfl
    cases he

end

end Dolda.Network
