/-
# `Dolda.Protocol.Connection` — a client's calls and the task that serves them

`Connection::send_request` and `NetworkServer::handle_connection` of
`src/network.rs`, one on either end of a connection.  The connection is reliable
and keeps the order of the bytes, but hands over any number of them at a time: a
`Session` is the two ends with what each has written and the other has not been
handed yet, and any interleaving of the two programs with the arrival of bytes is
a run of `step`.  A read that runs out of what has arrived waits while the other
end can still write.

**The rule.**  A client makes its calls one after another, so one message at most
is under way, and it is the request or the response of the call that is waiting
(`Reached`).  With it go the two facts about every run:

    what has returned is, call by call, the answer to that call   (`Reached.returned`)
    a run has so many steps at most, and one can follow until
      every call has returned                      (`run_length_le`, `Reached.progress`)
-/
import Dolda.Lib.Lts
import Dolda.Protocol.Message

namespace Dolda.Protocol

open Network (TcpStream)

/-! ## The client -/

structure Connection where
  stream : TcpStream
  nextRequestId : UInt64
deriving DecidableEq, Repr

namespace Connection

/-- An operation on the stream of a connection. -/
def onStream (act : EStateM NetworkError TcpStream α) : EStateM NetworkError Connection α :=
  fun c =>
    match act c.stream with
    | .ok a stream => .ok a { c with stream }
    | .error e stream => .error e { c with stream }

/-- `fetch_add` on the counter of the ids, which wraps around. -/
def drawId : EStateM NetworkError Connection UInt64 := fun c =>
  .ok c.nextRequestId { c with nextRequestId := c.nextRequestId + 1 }

/-- `send_request` up to where it waits for the response: the id of the request,
which is written. -/
def writeRequest (msgType : MessageType) (payload : List UInt8) :
    EStateM NetworkError Connection UInt64 := do
  let requestId ← drawId
  let request := Message.new msgType payload requestId
  onStream request.writeTo
  return requestId

/-- `send_request` from there on. -/
def readResponse (requestId : UInt64) : EStateM NetworkError Connection Message := do
  let response ← onStream Message.readFrom
  if response.header.requestId ≠ requestId then
    throw (.invalidMessage ("Request ID mismatch: expected " ++ toString requestId.toNat ++
      ", got " ++ toString response.header.requestId.toNat))
  return response

theorem writeRequest_eq {c : Connection} (h : c.stream.outgoingEnd = none) (msgType : MessageType)
    (payload : List UInt8) : writeRequest msgType payload c =
      .ok c.nextRequestId
        { stream :=
            { c.stream with
              outgoing := c.stream.outgoing
                ++ (Message.new msgType payload c.nextRequestId).toBytes }
          nextRequestId := c.nextRequestId + 1 } := by
  simp only [writeRequest, bind, EStateM.bind, drawId, onStream, Message.writeTo_eq _ h]
  rfl

/-- A response that is read is returned if it has the id. -/
theorem readResponse_of_ok {c : Connection} {m : Message} {stream : TcpStream}
    (h : Message.readFrom c.stream = .ok m stream) :
    readResponse m.header.requestId c = .ok m { c with stream } := by
  simp only [readResponse, bind, EStateM.bind, onStream, h]
  rw [if_neg (not_not_intro rfl)]
  rfl

theorem readResponse_of_error {c : Connection} {e : NetworkError} {stream : TcpStream}
    (h : Message.readFrom c.stream = .error e stream) (requestId : UInt64) :
    readResponse requestId c = .error e { c with stream } := by
  simp only [readResponse, bind, EStateM.bind, onStream, h]

def sendRequest (msgType : MessageType) (payload : List UInt8) :
    EStateM NetworkError Connection Message := do
  let requestId ← writeRequest msgType payload
  readResponse requestId

/-- The connection, with some bytes more from the other end. -/
def arrived (bytes : List UInt8) (c : Connection) : Connection :=
  { c with stream := { c.stream with incoming := c.stream.incoming ++ bytes } }

/-- The request does not depend on what has come, so the response is read as if it had been
there from the start. -/
theorem sendRequest_eq {c : Connection} (h : c.stream.outgoingEnd = none) (msgType : MessageType)
    (payload bytes : List UInt8) : ∃ c', writeRequest msgType payload c = .ok c.nextRequestId c' ∧
      sendRequest msgType payload (c.arrived bytes) =
        readResponse c.nextRequestId (c'.arrived bytes) := by
  refine ⟨_, writeRequest_eq h msgType payload, ?_⟩
  have hwrite := writeRequest_eq (c := c.arrived bytes) h msgType payload
  simp only [sendRequest, bind, EStateM.bind, hwrite]
  rfl

end Connection

/-! ## The server -/

/-- Where a task is that runs `handle_connection`. -/
inductive Serving where
  | reading
  | handling (message : Message)
  | returned (result : Except NetworkError Unit)

namespace NetworkServer

def getResponseType : MessageType → MessageType
  | .ping => .pong
  | .appendRequest => .appendResponse
  | .readRequest => .readResponse
  | .replicateRequest => .replicateResponse
  | .healthRequest => .healthResponse
  | _ => .error

/-- The body of the loop up to the handler, by what was read. -/
def accept : Except NetworkError Message → Serving
  | .ok message => .handling message
  | .error (.io e) =>
      -- the connection was closed
      if e.kind = .unexpectedEof then .returned (.ok ()) else .returned (.error (.io e))
  | .error e => .returned (.error e)

/-- The body of the loop from there on, by what the handler answered. -/
def respond (message : Message) (answer : Except NetworkError (List UInt8)) (stream : TcpStream) :
    Serving × TcpStream :=
  match answer with
  | .error e => (.returned (.error e), stream)
  | .ok responsePayload =>
      let response := Message.new (getResponseType message.header.msgType) responsePayload
        message.header.requestId
      match response.writeTo stream with
      | .ok () stream => (.reading, stream)
      | .error e stream => (.returned (.error e), stream)

end NetworkServer

/-! ## The two together

A session is the client, the server, and the bytes between them in both directions.
Bytes arrive in pieces of any size, in order; a read waits while more can come, and gets
the end of the stream only where nothing can. -/

abbrev Request := MessageType × List UInt8

structure Session where
  client : Connection
  server : TcpStream
  serving : Serving
  /-- The calls still to be made, in order. -/
  calls : List Request
  /-- The id of the call that waits for its response. -/
  waiting : Option UInt64
  /-- The client has dropped the connection. -/
  dropped : Bool
  /-- What the calls so far returned. -/
  returned : List (Except NetworkError Message)
  /-- What the handler was called with and what it answered. -/
  handled : List (Request × Except NetworkError (List UInt8))

inductive Event where
  /-- The client begins its next call. -/
  | call
  /-- The call returns. -/
  | result
  /-- The client drops the connection, its calls made. -/
  | drop
  /-- The server reads a message. -/
  | read
  /-- The handler answers, and the server goes on with it. -/
  | answer (answer : Except NetworkError (List UInt8))
  /-- So many bytes arrive at the server, or at the client. -/
  | toServer (n : Nat)
  | toClient (n : Nat)

/-- A read gets the end of the stream only if nothing more can come. -/
def await {σ : Type} (more : Bool) :
    EStateM.Result NetworkError σ Message → Option (Except NetworkError Message × σ)
  | .ok message s => some (.ok message, s)
  | .error (.io e) s => if more then none else some (.error (.io e), s)
  | .error e s => some (.error e, s)

namespace Session

/-- Bytes are in flight to the server, or may be sent still. -/
def moreToServer (s : Session) : Bool := !s.dropped || !s.client.stream.outgoing.isEmpty

def moreToClient (s : Session) : Bool :=
  (match s.serving with
    | .returned _ => false
    | _ => true) || !s.server.outgoing.isEmpty

def call (s : Session) : Option Session :=
  match s.waiting, s.calls with
  | none, (msgType, payload) :: calls =>
      match s.client.writeRequest msgType payload with
      | .ok requestId client => some { s with client, calls, waiting := some requestId }
      | .error e client => some { s with client, calls, returned := s.returned ++ [.error e] }
  | _, _ => none

def result (s : Session) : Option Session :=
  match s.waiting with
  | none => none
  | some requestId =>
      match await s.moreToClient (Connection.readResponse requestId s.client) with
      | none => none
      | some (r, client) =>
          some { s with client, waiting := none, returned := s.returned ++ [r] }

def drop (s : Session) : Option Session :=
  match s.waiting, s.calls, s.dropped with
  | none, [], false => some { s with dropped := true }
  | _, _, _ => none

def read (s : Session) : Option Session :=
  match s.serving with
  | .reading =>
      match await s.moreToServer (Message.readFrom s.server) with
      | none => none
      | some (r, server) => some { s with server, serving := NetworkServer.accept r }
  | _ => none

def answer (answer : Except NetworkError (List UInt8)) (s : Session) : Option Session :=
  match s.serving with
  | .handling message =>
      let (serving, server) := NetworkServer.respond message answer s.server
      let handled := s.handled ++ [((message.header.msgType, message.payload), answer)]
      some { s with serving, server, handled }
  | _ => none

/-- Bytes leave the one end and are behind what has come to the other. -/
def toServer (n : Nat) (s : Session) : Option Session :=
  let out := s.client.stream.outgoing
  if 0 < n ∧ n ≤ out.length then
    let stream := { s.client.stream with outgoing := out.drop n }
    let server := { s.server with incoming := s.server.incoming ++ out.take n }
    some { s with client := { s.client with stream }, server }
  else none

def toClient (n : Nat) (s : Session) : Option Session :=
  let out := s.server.outgoing
  if 0 < n ∧ n ≤ out.length then
    let incoming := s.client.stream.incoming ++ out.take n
    let server := { s.server with outgoing := out.drop n }
    some { s with client := { s.client with stream := { s.client.stream with incoming } }, server }
  else none

def step (s : Session) : Event → Option Session
  | .call => s.call
  | .result => s.result
  | .drop => s.drop
  | .read => s.read
  | .answer answer => s.answer answer
  | .toServer n => s.toServer n
  | .toClient n => s.toClient n

/-- An end of a connection that does not fail. -/
def reliable (incoming outgoing : List UInt8) : TcpStream :=
  { incoming, incomingEnd := ⟨.unexpectedEof, "early eof"⟩, outgoing, outgoingEnd := none }

/-- A fresh connection, with the calls to be made on it. -/
def start (calls : List Request) : Session where
  client := { stream := reliable [] [], nextRequestId := 1 }
  server := reliable [] []
  serving := .reading
  calls := calls
  waiting := none
  dropped := false
  returned := []
  handled := []

/-! ## Where a session gets to -/

/-- The id of the call that so many were made before. -/
def idAfter (n : Nat) : UInt64 := UInt64.ofNat (n + 1)

theorem idAfter_succ (n : Nat) : idAfter n + 1 = idAfter (n + 1) := by
  rw [idAfter, idAfter, ← UInt64.ofNat_one, ← UInt64.ofNat_add]

/-- The request of the call after `n` others, and the response to it. -/
def requestOf (n : Nat) (r : Request) : Message := Message.new r.1 r.2 (idAfter n)

def responseTo (n : Nat) (x : Request × List UInt8) : Message :=
  Message.new (NetworkServer.getResponseType x.1.1) x.2 (idAfter n)

/-- The session after the calls `past`, each with the answer to it, but for the call
that may be under way. -/
def after (past : List (Request × List UInt8)) (calls : List Request) : Session where
  client := { stream := reliable [] [], nextRequestId := idAfter past.length }
  server := reliable [] []
  serving := .reading
  calls := calls
  waiting := none
  dropped := false
  returned := past.mapIdx (fun n x => .ok (responseTo n x))
  handled := past.map (fun x => (x.1, .ok x.2))

/-- A call is under way. -/
def calling (past : List (Request × List UInt8)) (calls : List Request) (client server : TcpStream)
    (serving : Serving) (answered : List (Request × List UInt8)) : Session :=
  { after past calls with
    client := { stream := client, nextRequestId := idAfter (past.length + 1) }
    server, serving
    waiting := some (idAfter past.length)
    handled := (past ++ answered).map (fun x => (x.1, .ok x.2)) }

/-- The length fits its field. -/
def Fits (payload : List UInt8) : Prop := payload.length < 2 ^ 32

/-- The states of a session that makes the calls `requests`. -/
inductive Reached (requests : List Request) : Session → Prop
  | between {past calls} (hcalls : requests = past.map Prod.fst ++ calls) :
      Reached requests (after past calls)
  /-- Of the request a part has come to the server, and the rest is in flight. -/
  | asked {past r calls come rest} (hcalls : requests = past.map Prod.fst ++ r :: calls)
      (hbytes : (requestOf past.length r).toBytes = come ++ rest) :
      Reached requests (calling past calls (reliable [] rest) (reliable come []) .reading [])
  | handling {past r calls} (hcalls : requests = past.map Prod.fst ++ r :: calls) :
      Reached requests (calling past calls (reliable [] []) (reliable [] [])
        (.handling (requestOf past.length r)) [])
  /-- Of the response a part has come to the client, and the rest is in flight. -/
  | answered {past r calls payload come rest}
      (hcalls : requests = past.map Prod.fst ++ r :: calls) (hpayload : Fits payload)
      (hbytes : (responseTo past.length (r, payload)).toBytes = come ++ rest) :
      Reached requests (calling past calls (reliable come []) (reliable [] rest) .reading
        [(r, payload)])
  | finished {past serving} (hcalls : requests = past.map Prod.fst)
      (hserving : serving = .reading ∨ serving = .returned (.ok ())) :
      Reached requests { after past [] with dropped := true, serving }

section
variable {requests calls : List Request} {past answered : List (Request × List UInt8)}
  {r : Request} {payload come rest out : List UInt8} {n : Nat} {s s' : Session} {event : Event}

theorem requestOf_sendable (hr : Fits r.2) (n : Nat) : Message.Sendable (requestOf n r) :=
  ⟨r.1, r.2, idAfter n, hr, rfl⟩

theorem responseTo_sendable (hpayload : Fits payload) (n : Nat) :
    Message.Sendable (responseTo n (r, payload)) :=
  ⟨_, payload, idAfter n, hpayload, rfl⟩

/-! ### Reads -/

theorem readFrom_reliable {m : Message} (hm : m.Sendable) (out : List UInt8) :
    Message.readFrom (reliable m.toBytes out) = .ok m (reliable [] out) := by
  have hread := Message.readFrom_append hm (reliable [] out) []
  rwa [List.append_nil] at hread

theorem readFrom_reliable_cut {m : Message} (hm : m.Sendable) (h : m.toBytes = come ++ rest)
    (hrest : rest ≠ []) :
    Message.readFrom (reliable come out)
      = .error (.io (reliable [] out).incomingEnd) (reliable [] out) :=
  Message.readFrom_cut hm h hrest (reliable [] out)

theorem readFrom_reliable_nil :
    Message.readFrom (reliable [] out)
      = .error (.io (reliable [] out).incomingEnd) (reliable [] out) := by
  rw [Message.readFrom_eq]
  rfl

/-! ### One step -/

/-- A call writes its request and waits. -/
theorem call_after : (after past (r :: calls)).call =
    some (calling past calls (reliable [] (requestOf past.length r).toBytes) (reliable [] [])
      .reading []) := by
  have hwrite : (after past (r :: calls)).client.writeRequest r.1 r.2
      = .ok (idAfter past.length)
          { stream := reliable [] (requestOf past.length r).toBytes
            nextRequestId := idAfter (past.length + 1) } := by
    rw [Connection.writeRequest_eq rfl, ← idAfter_succ]
    rfl
  rw [Session.call, after] at *
  simp only [hwrite, calling, List.append_nil]
  rfl

/-- **The two steps of a call** are one `send_request`, on what has come by the second. -/
theorem call_result {s : Session} (hwaiting : s.waiting = none) (hcalls : s.calls = r :: calls)
    (hopen : s.client.stream.outgoingEnd = none) (bytes : List UInt8) : ∃ s₁, s.call = some s₁ ∧
      { s₁ with client := s₁.client.arrived bytes }.result =
        (await s.moreToClient (Connection.sendRequest r.1 r.2 (s.client.arrived bytes))).map
          (fun x => { s with
            client := x.2, calls, waiting := none, returned := s.returned ++ [x.1] }) := by
  obtain ⟨client, hwrite, hsend⟩ := Connection.sendRequest_eq hopen r.1 r.2 bytes
  refine ⟨{ s with client, calls, waiting := some s.client.nextRequestId }, ?_, ?_⟩
  · simp only [call, hwaiting, hcalls, hwrite]
  · rw [hsend]
    simp only [result, moreToClient]
    cases await _ (Connection.readResponse s.client.nextRequestId (client.arrived bytes)) <;> rfl

/-- A read that runs out waits while more can come. -/
theorem read_waits (s : Session) (hserving : s.serving = .reading) (hmore : s.moreToServer = true)
    {e : Network.IoError} {stream : TcpStream}
    (hread : Message.readFrom s.server = .error (.io e) stream) : s.read = none := by
  simp only [read, hserving, hread, await, hmore, if_true]

theorem read_message (s : Session) (hserving : s.serving = .reading) {m : Message}
    {stream : TcpStream} (hread : Message.readFrom s.server = .ok m stream) :
    s.read = some { s with server := stream, serving := .handling m } := by
  simp only [read, hserving, hread, await, NetworkServer.accept]

theorem result_waits (s : Session) {id : UInt64} (hwaiting : s.waiting = some id)
    (hmore : s.moreToClient = true) {e : Network.IoError} {stream : TcpStream}
    (hread : Message.readFrom s.client.stream = .error (.io e) stream) : s.result = none := by
  simp only [result, hwaiting, Connection.readResponse_of_error hread, await, hmore, if_true]

theorem result_message (s : Session) {m : Message} (hwaiting : s.waiting = some m.header.requestId)
    {stream : TcpStream} (hread : Message.readFrom s.client.stream = .ok m stream) :
    s.result = some { s with
      client := { s.client with stream }
      waiting := none
      returned := s.returned ++ [.ok m] } := by
  simp only [result, hwaiting, Connection.readResponse_of_ok hread, await]

theorem answer_ok {message : Message} (hserving : s.serving = .handling message)
    (hserver : s.server = reliable [] []) (payload : List UInt8) :
    s.answer (.ok payload) = some { s with
      server := reliable [] (Message.new (NetworkServer.getResponseType message.header.msgType)
        payload message.header.requestId).toBytes
      serving := .reading
      handled := s.handled ++ [((message.header.msgType, message.payload), .ok payload)] } := by
  have hend : (reliable [] []).outgoingEnd = none := rfl
  simp only [answer, hserving, hserver, NetworkServer.respond, Message.writeTo_eq _ hend]
  rfl

/-! ### A call, step by step

Bytes that are not there do not arrive, and once the connection is dropped the server's
loop ends. -/

theorem read_calling (hr : Fits r.2) :
    (calling past calls (reliable [] []) (reliable (requestOf past.length r).toBytes []) .reading
      []).read =
      some (calling past calls (reliable [] []) (reliable [] [])
        (.handling (requestOf past.length r)) []) :=
  read_message _ rfl (readFrom_reliable (requestOf_sendable hr _) [])

theorem answer_calling (payload : List UInt8) :
    (calling past calls (reliable [] []) (reliable [] []) (.handling (requestOf past.length r))
      []).answer (.ok payload) =
      some (calling past calls (reliable [] [])
        (reliable [] (responseTo past.length (r, payload)).toBytes) .reading [(r, payload)]) := by
  rw [answer_ok rfl rfl]
  simp only [calling, List.append_nil, List.map_append]
  rfl

theorem result_calling (hpayload : Fits payload) :
    (calling past calls (reliable (responseTo past.length (r, payload)).toBytes [])
      (reliable [] []) .reading [(r, payload)]).result =
      some (after (past ++ [(r, payload)]) calls) := by
  have hread := readFrom_reliable (responseTo_sendable (r := r) hpayload past.length) []
  have hresult := result_message (calling past calls
    (reliable (responseTo past.length (r, payload)).toBytes []) (reliable [] []) .reading
    [(r, payload)]) rfl hread
  rw [hresult, after, List.length_append, List.mapIdx_concat]
  rfl

theorem toServer_calling (past answered : List (Request × List UInt8)) (calls : List Request)
    (clientIn clientOut serverIn serverOut : List UInt8) (serving : Serving) (n : Nat) :
    (calling past calls (reliable clientIn clientOut) (reliable serverIn serverOut) serving
      answered).toServer n =
      if 0 < n ∧ n ≤ clientOut.length then
        some (calling past calls (reliable clientIn (clientOut.drop n))
          (reliable (serverIn ++ clientOut.take n) serverOut) serving answered)
      else none := rfl

theorem toClient_calling (past answered : List (Request × List UInt8)) (calls : List Request)
    (clientIn clientOut serverIn serverOut : List UInt8) (serving : Serving) (n : Nat) :
    (calling past calls (reliable clientIn clientOut) (reliable serverIn serverOut) serving
      answered).toClient n =
      if 0 < n ∧ n ≤ serverOut.length then
        some (calling past calls (reliable (clientIn ++ serverOut.take n) clientOut)
          (reliable serverIn (serverOut.drop n)) serving answered)
      else none := rfl

theorem toServer_none (h : s.client.stream.outgoing = []) (n : Nat) : s.toServer n = none := by
  rw [toServer, h, if_neg]
  rintro ⟨hpos, hn⟩
  exact Nat.not_le.mpr hpos hn

theorem toClient_none (h : s.server.outgoing = []) (n : Nat) : s.toClient n = none := by
  rw [toClient, h, if_neg]
  rintro ⟨hpos, hn⟩
  exact Nat.not_le.mpr hpos hn

/-- What the handler answers, if it answers, fits its field. -/
def Answers (event : Event) : Prop :=
  ∀ answer, event = .answer answer → ∃ payload, answer = .ok payload ∧ Fits payload

/-- The steps of the calls still to be made, at most; a byte costs one to arrive and
one to be read. -/
def work (calls : List Request) : Nat :=
  (calls.map (fun r => 2 * (MessageHeader.size + r.2.length) + 2)).sum

def ahead : Serving → Nat
  | .handling _ => 2
  | .reading => 1
  | .returned _ => 0

/-- How many steps are left at most, but for those an answer brings that is still to
come. -/
def potential (s : Session) : Nat :=
  work s.calls + 2 * (s.client.stream.outgoing.length + s.server.outgoing.length)
    + (s.client.stream.incoming.length + s.server.incoming.length)
    + (if s.waiting.isSome then 1 else 0) + ahead s.serving + (if s.dropped then 0 else 1)

def gain : Event → Nat
  | .answer (.ok payload) => 2 * (MessageHeader.size + payload.length)
  | _ => 0

theorem work_cons (r : Request) (calls : List Request) :
    work (r :: calls) = 2 * (MessageHeader.size + r.2.length) + 2 + work calls := rfl

theorem potential_after (past : List (Request × List UInt8)) (calls : List Request) :
    potential (after past calls) = work calls + 2 := rfl

theorem potential_calling (past answered : List (Request × List UInt8)) (calls : List Request)
    (clientIn clientOut serverIn serverOut : List UInt8) (serving : Serving) :
    potential (calling past calls (reliable clientIn clientOut) (reliable serverIn serverOut)
      serving answered) =
      work calls + 2 * (clientOut.length + serverOut.length)
        + (clientIn.length + serverIn.length) + ahead serving + 2 := by
  rw [potential]
  simp only [calling, after, reliable, Option.isSome_some, if_true, Bool.false_eq_true, if_false]
  omega

/-- What a step leads to. -/
def Goes (requests : List Request) (event : Event) (s s' : Session) : Prop :=
  Reached requests s' ∧ potential s' < potential s + gain event

theorem between_step (hcalls : requests = past.map Prod.fst ++ calls)
    (hstep : (after past calls).step event = some s') :
    Goes requests event (after past calls) s' := by
  cases event with
  | call =>
      cases calls with
      | nil => cases hstep
      | cons r calls =>
          rw [step, call_after] at hstep
          cases hstep
          refine ⟨.asked hcalls rfl, ?_⟩
          rw [potential_after, potential_calling, work_cons, requestOf, Message.toBytes_length,
            Message.new, ahead]
          simp only [List.length_nil]
          omega
  | result => cases hstep
  | drop =>
      cases calls with
      | nil =>
          cases hstep
          rw [List.append_nil] at hcalls
          exact ⟨.finished hcalls (Or.inl rfl), Nat.lt_succ_self _⟩
      | cons r calls => cases hstep
  | read =>
      rw [step, read_waits _ rfl rfl readFrom_reliable_nil] at hstep
      cases hstep
  | answer answer => cases hstep
  | toServer n =>
      rw [step, toServer_none rfl] at hstep
      cases hstep
  | toClient n =>
      rw [step, toClient_none rfl] at hstep
      cases hstep

theorem asked_step (hfit : Fits r.2) (hcalls : requests = past.map Prod.fst ++ r :: calls)
    (hbytes : (requestOf past.length r).toBytes = come ++ rest)
    (hstep : (calling past calls (reliable [] rest) (reliable come []) .reading []).step event
      = some s') :
    Goes requests event (calling past calls (reliable [] rest) (reliable come []) .reading []) s'
      := by
  have hsend := requestOf_sendable hfit past.length
  cases event with
  | call => cases hstep
  | result =>
      rw [step, result_waits _ rfl rfl readFrom_reliable_nil] at hstep
      cases hstep
  | drop => cases hstep
  | read =>
      by_cases hrest : rest = []
      · subst hrest
        rw [List.append_nil] at hbytes
        subst hbytes
        rw [step, read_calling hfit] at hstep
        cases hstep
        refine ⟨.handling hcalls, ?_⟩
        rw [potential_calling, potential_calling, Message.toBytes_length, MessageHeader.size,
          ahead, ahead]
        simp only [List.length_nil]
        omega
      · have hwait := read_waits (calling past calls (reliable [] rest) (reliable come [])
          .reading []) rfl rfl (readFrom_reliable_cut hsend hbytes hrest)
        rw [step, hwait] at hstep
        cases hstep
  | answer answer => cases hstep
  | toServer n =>
      rw [step, toServer_calling] at hstep
      split at hstep
      · rename_i hn
        cases hstep
        constructor
        · refine .asked hcalls ?_
          rw [List.append_assoc, List.take_append_drop]
          exact hbytes
        · rw [potential_calling, potential_calling, List.length_drop, List.length_append,
            List.length_take_of_le hn.2]
          omega
      · cases hstep
  | toClient n =>
      rw [step, toClient_none rfl] at hstep
      cases hstep

theorem handling_step (hanswers : Answers event)
    (hcalls : requests = past.map Prod.fst ++ r :: calls)
    (hstep : (calling past calls (reliable [] []) (reliable [] [])
      (.handling (requestOf past.length r)) []).step event = some s') :
    Goes requests event (calling past calls (reliable [] []) (reliable [] [])
      (.handling (requestOf past.length r)) []) s' := by
  cases event with
  | call => cases hstep
  | result =>
      rw [step, result_waits _ rfl rfl readFrom_reliable_nil] at hstep
      cases hstep
  | drop => cases hstep
  | read => cases hstep
  | answer answer =>
      obtain ⟨payload, rfl, hpayload⟩ := hanswers answer rfl
      rw [step, answer_calling] at hstep
      cases hstep
      refine ⟨.answered hcalls hpayload rfl, ?_⟩
      rw [potential_calling, potential_calling, responseTo, Message.toBytes_length, Message.new,
        gain, ahead, ahead]
      simp only [List.length_nil]
      omega
  | toServer n =>
      rw [step, toServer_none rfl] at hstep
      cases hstep
  | toClient n =>
      rw [step, toClient_none rfl] at hstep
      cases hstep

theorem answered_step (hcalls : requests = past.map Prod.fst ++ r :: calls)
    (hpayload : Fits payload)
    (hbytes : (responseTo past.length (r, payload)).toBytes = come ++ rest)
    (hstep : (calling past calls (reliable come []) (reliable [] rest) .reading
      [(r, payload)]).step event = some s') :
    Goes requests event (calling past calls (reliable come []) (reliable [] rest) .reading
      [(r, payload)]) s' := by
  have hsend := responseTo_sendable (r := r) hpayload past.length
  cases event with
  | call => cases hstep
  | result =>
      by_cases hrest : rest = []
      · subst hrest
        rw [List.append_nil] at hbytes
        subst hbytes
        rw [step, result_calling hpayload] at hstep
        cases hstep
        constructor
        · refine .between ?_
          rw [hcalls, List.map_append, List.append_assoc]
          rfl
        · rw [potential_calling, potential_after, Message.toBytes_length, MessageHeader.size]
          omega
      · have hwait := result_waits (calling past calls (reliable come []) (reliable [] rest)
          .reading [(r, payload)]) rfl rfl (readFrom_reliable_cut hsend hbytes hrest)
        rw [step, hwait] at hstep
        cases hstep
  | drop => cases hstep
  | read =>
      rw [step, read_waits _ rfl rfl readFrom_reliable_nil] at hstep
      cases hstep
  | answer answer => cases hstep
  | toServer n =>
      rw [step, toServer_none rfl] at hstep
      cases hstep
  | toClient n =>
      rw [step, toClient_calling] at hstep
      split at hstep
      · rename_i hn
        cases hstep
        constructor
        · refine .answered hcalls hpayload ?_
          rw [List.append_assoc, List.take_append_drop]
          exact hbytes
        · rw [potential_calling, potential_calling, List.length_drop, List.length_append,
            List.length_take_of_le hn.2]
          omega
      · cases hstep

theorem finished_step {serving : Serving} (hcalls : requests = past.map Prod.fst)
    (hserving : serving = .reading ∨ serving = .returned (.ok ()))
    (hstep : { after past [] with dropped := true, serving }.step event = some s') :
    Goes requests event { after past [] with dropped := true, serving } s' := by
  cases event with
  | call => cases hstep
  | result => cases hstep
  | drop => cases hstep
  | read =>
      rcases hserving with rfl | rfl
      · cases hstep
        exact ⟨.finished hcalls (Or.inr rfl), Nat.lt_succ_self _⟩
      · cases hstep
  | answer answer => rcases hserving with rfl | rfl <;> cases hstep
  | toServer n =>
      rw [step, toServer_none rfl] at hstep
      cases hstep
  | toClient n =>
      rw [step, toClient_none rfl] at hstep
      cases hstep

/-- **A step keeps to the calls**, and lowers what is left. -/
theorem Reached.step (hfit : ∀ r ∈ requests, Fits r.2) (h : Reached requests s)
    (hanswers : Answers event) (hstep : s.step event = some s') : Goes requests event s s' := by
  cases h with
  | between hcalls => exact between_step hcalls hstep
  | asked hcalls hbytes =>
      refine asked_step (hfit _ ?_) hcalls hbytes hstep
      rw [hcalls]
      exact List.mem_append_right _ List.mem_cons_self
  | handling hcalls => exact handling_step hanswers hcalls hstep
  | answered hcalls hpayload hbytes => exact answered_step hcalls hpayload hbytes hstep
  | finished hcalls hserving => exact finished_step hcalls hserving hstep

/-- **A session does not get stuck** before all calls have returned. -/
theorem Reached.progress (hfit : ∀ r ∈ requests, Fits r.2) (h : Reached requests s)
    (hmissing : s.returned.length < requests.length) :
    ∃ event, Answers event ∧ (s.step event).isSome := by
  have hnoanswer : ∀ {event : Event}, (∀ a, event ≠ .answer a) → Answers event := by
    intro event hne a ha
    exact absurd ha (hne a)
  cases h with
  | @between past calls hcalls =>
      cases calls with
      | nil =>
          rw [hcalls, List.append_nil, List.length_map] at hmissing
          exact absurd hmissing (by simp [after])
      | cons r calls =>
          refine ⟨.call, hnoanswer (by simp), ?_⟩
          rw [Session.step, call_after]
          rfl
  | @asked past r calls come rest hcalls hbytes =>
      have hr : Fits r.2 := by
        refine hfit r ?_
        rw [hcalls]
        exact List.mem_append_right _ List.mem_cons_self
      by_cases hrest : rest = []
      · subst hrest
        rw [List.append_nil] at hbytes
        subst hbytes
        refine ⟨.read, hnoanswer (by simp), ?_⟩
        rw [Session.step, read_calling hr]
        rfl
      · refine ⟨.toServer rest.length, hnoanswer (by simp), ?_⟩
        rw [Session.step, toServer_calling, if_pos ⟨List.length_pos_iff.mpr hrest, Nat.le_refl _⟩]
        rfl
  | handling hcalls =>
      refine ⟨.answer (.ok []), ?_, ?_⟩
      · intro a ha
        cases ha
        exact ⟨[], rfl, Nat.two_pow_pos 32⟩
      · rw [Session.step, answer_calling]
        rfl
  | @answered past r calls payload come rest hcalls hpayload hbytes =>
      by_cases hrest : rest = []
      · subst hrest
        rw [List.append_nil] at hbytes
        subst hbytes
        refine ⟨.result, hnoanswer (by simp), ?_⟩
        rw [Session.step, result_calling hpayload]
        rfl
      · refine ⟨.toClient rest.length, hnoanswer (by simp), ?_⟩
        rw [Session.step, toClient_calling, if_pos ⟨List.length_pos_iff.mpr hrest, Nat.le_refl _⟩]
        rfl
  | finished hcalls =>
      rw [hcalls, List.length_map] at hmissing
      exact absurd hmissing (by simp [after])

/-! ## What the calls return

In each state the session is at one point of one call.  The calls before it have returned
what the handler answered, in order, and the handler has been called once for each, and
for this one if its request has arrived. -/

/-- The handler has been called with the requests in order, and every call that
returned did so with what it answered. -/
structure Paired (requests : List Request) (s : Session) : Prop where
  handled : s.handled.map Prod.fst = requests.take s.handled.length
  ahead : s.returned.length ≤ s.handled.length ∧ s.handled.length ≤ s.returned.length + 1
  returned : ∀ n < s.returned.length, ∃ msgType payload answer,
    requests[n]? = some (msgType, payload) ∧
    s.handled[n]? = some ((msgType, payload), .ok answer) ∧
    s.returned[n]? = some (.ok (Message.new (NetworkServer.getResponseType msgType) answer
      (UInt64.ofNat (n + 1))))

theorem paired (hcalls : requests = past.map Prod.fst ++ answered.map Prod.fst ++ calls)
    (hanswered : answered.length ≤ 1)
    (hreturned : s.returned = past.mapIdx (fun n x => .ok (responseTo n x)))
    (hhandled : s.handled = (past ++ answered).map (fun x => (x.1, .ok x.2))) :
    Paired requests s := by
  have hlen : s.returned.length = past.length := by rw [hreturned, List.length_mapIdx]
  have hlen' : s.handled.length = past.length + answered.length := by
    rw [hhandled, List.length_map, List.length_append]
  refine ⟨?_, by omega, ?_⟩
  · rw [← List.map_append] at hcalls
    rw [hlen', hcalls, List.take_left' (by rw [List.length_map, List.length_append]), hhandled,
      List.map_map]
    rfl
  · intro n hn
    rw [hlen] at hn
    refine ⟨past[n].1.1, past[n].1.2, past[n].2, ?_, ?_, ?_⟩
    · rw [hcalls, List.append_assoc, List.getElem?_append_left (by rwa [List.length_map]),
        List.getElem?_map, List.getElem?_eq_getElem hn]
      rfl
    · rw [hhandled, List.getElem?_map, List.getElem?_append_left hn,
        List.getElem?_eq_getElem hn]
      rfl
    · rw [hreturned, List.getElem?_mapIdx, List.getElem?_eq_getElem hn]
      rfl

theorem Reached.paired (h : Reached requests s) : Paired requests s := by
  have hnil {past : List (Request × List UInt8)} {calls : List Request}
      (hcalls : requests = past.map Prod.fst ++ calls) :
      requests = past.map Prod.fst ++ ([] : List (Request × List UInt8)).map Prod.fst ++ calls := by
    rwa [List.map_nil, List.append_nil]
  cases h with
  | @between past calls hcalls =>
      refine Session.paired (hnil hcalls) (Nat.zero_le 1) rfl ?_
      rw [List.append_nil]
      rfl
  | asked hcalls => exact Session.paired (hnil hcalls) (Nat.zero_le 1) rfl rfl
  | handling hcalls => exact Session.paired (hnil hcalls) (Nat.zero_le 1) rfl rfl
  | @answered past r calls payload come rest hcalls =>
      have hcalls : requests = past.map Prod.fst ++ [(r, payload)].map Prod.fst ++ calls := by
        rw [hcalls, List.append_assoc]
        rfl
      exact Session.paired hcalls (Nat.le_refl 1) rfl rfl
  | @finished past serving hcalls =>
      have hcalls : requests = past.map Prod.fst ++ ([] : List Request) := by
        rw [hcalls, List.append_nil]
      refine Session.paired (hnil hcalls) (Nat.zero_le 1) rfl ?_
      rw [List.append_nil]
      rfl

theorem start_reached (requests : List Request) : Reached requests (start requests) := by
  have hcalls : requests = ([] : List (Request × List UInt8)).map Prod.fst ++ requests := rfl
  exact .between hcalls

/-- **Every call gets the answer to its own request.**  Calls are made one after
another on a fresh connection, and the handler answers each with a payload that
fits its field.  In every run the handler is called with the requests in order,
each once; the `n`-th call returns what the handler answered to the `n`-th request,
under the response type and the id of that request, and so never that the ids do
not match.  The run has so many steps at most, and one more is possible as long as
a call has not returned. -/
theorem calls_answered (requests : List (MessageType × List UInt8))
    (hfit : ∀ r ∈ requests, r.2.length < 2 ^ 32) {events : List Event} {s : Session}
    (hanswers : ∀ answer, Event.answer answer ∈ events →
      ∃ payload, answer = .ok payload ∧ payload.length < 2 ^ 32)
    (hrun : Lts.run step (start requests) events = some s) :
    s.handled.map Prod.fst = requests.take s.handled.length ∧
    (s.returned.length ≤ s.handled.length ∧ s.handled.length ≤ s.returned.length + 1) ∧
    (∀ n < s.returned.length, ∃ msgType payload answer,
      requests[n]? = some (msgType, payload) ∧
      s.handled[n]? = some ((msgType, payload), .ok answer) ∧
      s.returned[n]? = some (.ok (Message.new (NetworkServer.getResponseType msgType) answer
        (UInt64.ofNat (n + 1))))) ∧
    events.length ≤ potential (start requests) + (events.map gain).sum ∧
    (s.returned.length < requests.length →
      ∃ event, (∀ answer, event = .answer answer →
        ∃ payload, answer = .ok payload ∧ payload.length < 2 ^ 32) ∧ (s.step event).isSome) := by
  have hok : Lts.Guarded step (fun _ event => Answers event) (start requests) events := by
    have hall : Lts.Guarded step (fun _ _ => True) (start requests) events :=
      Lts.Guarded.of_forall (fun _ _ => trivial) events (start requests)
    have hguard :
        Lts.Guarded step (fun _ event => True ∧ Answers event) (start requests) events := by
      refine hall.and_forall ?_
      intro event hevent answer heq
      subst heq
      exact hanswers answer hevent
    exact hguard.imp (fun h => h.2)
  have hstep : ∀ {s event s'}, Reached requests s → Answers event → step s event = some s' →
      Reached requests s' ∧ potential s' < potential s + gain event := by
    intro s event s' h ha hs
    exact h.step hfit ha hs
  have hreached : Reached requests s :=
    hok.invariant (Reached requests) (fun h ha hs => (hstep h ha hs).1) (start_reached requests)
      hrun
  have hlength := Lts.run_length_le (Reached requests) potential gain hstep
    (start_reached requests) hok hrun
  have hpaired := hreached.paired
  refine ⟨hpaired.handled, hpaired.ahead, hpaired.returned, by omega, ?_⟩
  intro hmissing
  exact hreached.progress hfit hmissing

end

/-- A ping and an append, whose bytes come in pieces. -/
def pingAndAppend : List Event :=
  [.call, .toServer 7, .toServer 13, .read, .answer (.ok []), .toClient 20, .result,
    .call, .toServer 20, .toServer 2, .read, .answer (.ok [9]), .toClient 1, .toClient 20, .result]

theorem calls_answered_pingAndAppend :
    ∃ s, Lts.run step (start [(.ping, []), (.appendRequest, [4, 2])]) pingAndAppend = some s ∧
      s.returned[1]? = some (.ok (Message.new .appendResponse [9] 2)) := by
  obtain ⟨s, hrun, hlen, hhandled⟩ :
      ∃ s, Lts.run step (start [(.ping, []), (.appendRequest, [4, 2])]) pingAndAppend = some s ∧
        1 < s.returned.length ∧
        s.handled[1]? = some ((.appendRequest, [4, 2]), .ok [9]) := by
    exact ⟨_, rfl, by decide, rfl⟩
  refine ⟨s, hrun, ?_⟩
  have hanswers : ∀ answer, Event.answer answer ∈ pingAndAppend →
      ∃ payload, answer = .ok payload ∧ payload.length < 2 ^ 32 := by
    intro answer hanswer
    simp only [pingAndAppend, List.mem_cons, Event.answer.injEq, reduceCtorEq, false_or,
      List.not_mem_nil, or_false] at hanswer
    rcases hanswer with rfl | rfl
    · exact ⟨[], rfl, by decide⟩
    · exact ⟨[9], rfl, by decide⟩
  obtain ⟨t, p, answer, hrequest, hanswer, hreturned⟩ := (calls_answered _
    (by intro r hr; simp only [List.mem_cons, List.not_mem_nil, or_false] at hr
        rcases hr with rfl | rfl <;> decide) hanswers hrun).2.2.1 1 hlen
  rw [hhandled] at hanswer
  cases hanswer
  exact hreturned

end Session

end Dolda.Protocol
