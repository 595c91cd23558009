/-
# `Dolda.Health.Http` — the health endpoints

The HTTP side of `HealthServer` in `src/health.rs`: `serve` reads once from a
connection, takes what came for text, looks at the second word of its first line and
writes one response.

**Responses.**  Whatever was read, a client gets one response that ends where its
`Content-Length` says, and no part of it is taken for one (`response_framed`).

**Readiness.**  `/health/ready` is answered 200 after just those histories of calls in
which something has been registered, nothing twice, and each name's latest status is
healthy or degraded; its body is `ready` if each is healthy (`ready_iff`).  The
background checker reports on two names; alone it makes a server ready just if no
other is registered (`checker_ready_iff`).
-/
import Dolda.Health
import Dolda.Lib.Http

namespace Dolda.Health

/-! ## The text of a request -/

/-- `char::is_whitespace`: the Unicode property `White_Space`. -/
def isWhitespace (c : Char) : Bool :=
  (9 ≤ c.toNat && c.toNat ≤ 13) || (0x2000 ≤ c.toNat && c.toNat ≤ 0x200a) ||
    [0x20, 0x85, 0xa0, 0x1680, 0x2028, 0x2029, 0x202f, 0x205f, 0x3000].contains c.toNat

/-- `str::split_whitespace`. -/
def splitWhitespace (text : List Char) : List (List Char) :=
  (text.splitOnP isWhitespace).filter (· ≠ [])

/-- The first of `str::lines`, or nothing: a CR goes with the LF that ends the line. -/
def firstLine (text : List Char) : List Char :=
  let line := text.takeWhile (· ≠ '\n')
  if line.length < text.length ∧ line.getLast? = some '\r' then line.dropLast else line

/-- A range of bytes that may go on a character; none of them begins one. -/
structure ByteRange where
  low : UInt8
  high : UInt8
  continues : 0x80 ≤ low

def ByteRange.tail : ByteRange := ⟨0x80, 0xbf, by decide⟩

/-- A character that has begun: its bits so far, the range its next byte must be in,
and the ranges of those after it. -/
structure Begun where
  bits : Nat
  next : ByteRange
  more : List ByteRange

/-- What a first byte begins. -/
def Begun.ofFirst (b : UInt8) : Option Begun :=
  if 0xc2 ≤ b ∧ b ≤ 0xdf then some ⟨b.toNat % 32, .tail, []⟩
  else if b = 0xe0 then some ⟨b.toNat % 16, ⟨0xa0, 0xbf, by decide⟩, [.tail]⟩
  else if b = 0xed then some ⟨b.toNat % 16, ⟨0x80, 0x9f, by decide⟩, [.tail]⟩
  else if 0xe1 ≤ b ∧ b ≤ 0xef then some ⟨b.toNat % 16, .tail, [.tail]⟩
  else if b = 0xf0 then some ⟨b.toNat % 8, ⟨0x90, 0xbf, by decide⟩, [.tail, .tail]⟩
  else if 0xf1 ≤ b ∧ b ≤ 0xf3 then some ⟨b.toNat % 8, .tail, [.tail, .tail]⟩
  else if b = 0xf4 then some ⟨b.toNat % 8, ⟨0x80, 0x8f, by decide⟩, [.tail, .tail]⟩
  else none

def replacement : Char := Char.ofNat 0xfffd

/-- A byte where no character has begun. -/
def feedFirst (b : UInt8) : List Char × Option Begun :=
  if b < 0x80 then ([Char.ofNat b.toNat], none)
  else
    match Begun.ofFirst b with
    | none => ([replacement], none)
    | some begun => ([], some begun)

/-- A byte in the range of the next one. -/
def Begun.extend (begun : Begun) (b : UInt8) : List Char × Option Begun :=
  let bits := begun.bits * 64 + b.toNat % 64
  match begun.more with
  | [] => ([Char.ofNat bits], none)
  | next :: more => ([], some { bits, next, more })

/-- A byte more: the characters it completes, and the one that has begun. -/
def feed : Option Begun → UInt8 → List Char × Option Begun
  | none, b => feedFirst b
  | some begun, b =>
      if begun.next.low ≤ b ∧ b ≤ begun.next.high then begun.extend b
      else
        -- the character is given up, and the byte is looked at again
        (replacement :: (feedFirst b).1, (feedFirst b).2)

/-- `String::from_utf8_lossy` of the bytes after the beginning of a character. -/
def fromUtf8Lossy : Option Begun → List UInt8 → List Char
  | none, [] => []
  | some _, [] => [replacement]
  | begun, b :: rest => (feed begun b).1 ++ fromUtf8Lossy (feed begun b).2 rest

/-! ## The handlers -/

namespace HealthStatus

def isHealthy (status : HealthStatus) : Bool := status = .healthy

def httpCode : HealthStatus → Nat
  | .healthy => 200
  | .degraded => 200
  | .unhealthy => 503
  | .unknown => 503

end HealthStatus

/-- The two formats of a response. -/
def formatResponse (contentType : String) (code : Nat) (status body : String) : String :=
  "HTTP/1.1 " ++ toString code ++ " " ++ status ++ "\r\nContent-Type: " ++ contentType ++
    "\r\nContent-Length: " ++ toString body.utf8ByteSize ++ "\r\n\r\n" ++ body

def httpResponse (code : Nat) (status body : String) : String :=
  formatResponse "text/plain" code status body

def httpJsonResponse (code : Nat) (status json : String) : String :=
  formatResponse "application/json" code status json

namespace HealthServer

variable (toStringPretty : SystemHealth → Option String) (now : Nat) (server : HealthServer)

def handleLiveness : String := httpResponse 200 "OK" "alive"

def handleReadiness : String :=
  let health := server.getHealth now
  let code := health.status.httpCode
  let status := if code = 200 then "OK" else "Service Unavailable"
  let body := if health.status.isHealthy then "ready" else "not ready"
  httpResponse code status body

def handleDetail : String :=
  let health := server.getHealth now
  let code := health.status.httpCode
  let status := if code = 200 then "OK" else "Service Unavailable"
  let json := (toStringPretty health).getD "{}"
  httpJsonResponse code status json

def handleRequest (request : List Char) : String :=
  match splitWhitespace (firstLine request) with
  | _ :: path :: _ =>
      match String.ofList path with
      | "/health" | "/health/live" => handleLiveness
      | "/health/ready" => server.handleReadiness now
      | "/health/detail" => server.handleDetail toStringPretty now
      | "/" => httpResponse 200 "OK" "DOLDA Health Check Server"
      | _ => httpResponse 404 "Not Found" "Endpoint not found"
  | _ => httpResponse 400 "Bad Request" "Invalid HTTP request"

/-- What `serve` writes to a connection it has read from: nothing if the read failed or
the peer has closed it.  Whether all of it gets there is not looked at. -/
def answer (received : Option (List UInt8)) : Option (List UInt8) :=
  match received with
  | some (b :: bytes) =>
      some (Http.bytes (server.handleRequest toStringPretty now (fromUtf8Lossy none (b :: bytes))))
  | _ => none

end HealthServer

/-! ## One line of the request -/

theorem fromUtf8Lossy_cons (begun : Option Begun) (b : UInt8) (rest : List UInt8) :
    fromUtf8Lossy begun (b :: rest) =
      (feed begun b).1 ++ fromUtf8Lossy (feed begun b).2 rest := by
  cases begun <;> rfl

/-- A line feed is no part of a longer character: what is before it is read as if it
ended there, and what is after it as if it began there. -/
theorem fromUtf8Lossy_line (begun : Option Begun) (line rest : List UInt8) :
    fromUtf8Lossy begun (line ++ 10 :: rest) =
      fromUtf8Lossy begun line ++ '\n' :: fromUtf8Lossy none rest := by
  induction line generalizing begun with
  | nil =>
      cases begun with
      | none => rfl
      | some begun =>
          have hnext : ¬ (begun.next.low ≤ 10 ∧ 10 ≤ begun.next.high) := by
            rintro ⟨hle, -⟩
            exact absurd (UInt8.le_trans begun.next.continues hle) (by decide)
          have hfeed : feed (some begun) 10 = ([replacement, '\n'], none) := if_neg hnext
          rw [List.nil_append, fromUtf8Lossy_cons, hfeed]
          rfl
  | cons b line ih =>
      rw [List.cons_append, fromUtf8Lossy_cons, fromUtf8Lossy_cons, ih, List.append_assoc]

theorem firstLine_line (line rest : List Char) :
    firstLine (line ++ '\n' :: rest) = firstLine (line ++ ['\n']) := by
  have htake : ∀ rest, (line ++ '\n' :: rest).takeWhile (· ≠ '\n') = line.takeWhile (· ≠ '\n') := by
    intro rest
    induction line with
    | nil => rfl
    | cons c line ih =>
        rw [List.cons_append, List.takeWhile_cons, List.takeWhile_cons, ih]
  have hlonger : ∀ rest, (line.takeWhile (· ≠ '\n')).length < (line ++ '\n' :: rest).length := by
    intro rest
    have hle := (List.takeWhile_prefix (l := line) (· ≠ '\n')).length_le
    rw [List.length_append, List.length_cons]
    omega
  simp only [firstLine, htake, hlonger, true_and]

/-- What comes after the first line is not looked at. -/
theorem answer_line (toStringPretty : SystemHealth → Option String) (now : Nat)
    (server : HealthServer) (line rest : List UInt8) :
    server.answer toStringPretty now (some (line ++ 10 :: rest)) =
      server.answer toStringPretty now (some (line ++ [10])) := by
  have hrequest :
      server.handleRequest toStringPretty now (fromUtf8Lossy none (line ++ 10 :: rest)) =
        server.handleRequest toStringPretty now (fromUtf8Lossy none (line ++ [10])) := by
    rw [fromUtf8Lossy_line, fromUtf8Lossy_line none line [], HealthServer.handleRequest,
      firstLine_line, ← HealthServer.handleRequest]
    rfl
  cases line with
  | nil => exact congrArg (fun text => some (Http.bytes text)) hrequest
  | cons b line => exact congrArg (fun text => some (Http.bytes text)) hrequest

/-! ## Responses

Every answer is in one of two formats, and its body is as long as its header says, so a
client that reads a header and then so many bytes reads one response and nothing of
another.  What the components are called does not break it: it is only in the body. -/

/-- What a client reads in a response. -/
def response (contentType : String) (code : Nat) (status body : String) : Http.Response where
  code
  reason := Http.bytes status
  fields := [(Http.bytes "Content-Type", Http.bytes contentType),
    (Http.bytes "Content-Length", Http.bytes (toString body.utf8ByteSize))]
  body := Http.bytes body

theorem bytes_formatResponse (contentType : String) (code : Nat) (status body : String) :
    Http.bytes (formatResponse contentType code status body) =
      Http.write (response contentType code status body) := by
  have htype : Http.bytes "\r\nContent-Type: " =
      Http.crlf ++ (Http.bytes "Content-Type" ++ [58, 32]) := by decide
  have hlength : Http.bytes "\r\nContent-Length: " =
      Http.crlf ++ (Http.bytes "Content-Length" ++ [58, 32]) := by decide
  have hend : Http.bytes "\r\n\r\n" = Http.crlf ++ Http.crlf := by decide
  have hspace : Http.bytes " " = [32] := by decide
  show Http.bytes ("HTTP/1.1 " ++ toString code ++ " " ++ status ++ "\r\nContent-Type: " ++
    contentType ++ "\r\nContent-Length: " ++ toString body.utf8ByteSize ++ "\r\n\r\n" ++ body) = _
  simp only [Http.bytes_append, htype, hlength, hend, hspace, Http.write, Http.version,
    Http.writeField, response, List.flatMap_cons, List.flatMap_nil, List.append_nil,
    List.append_assoc, List.cons_append, List.nil_append]

theorem sendable_response {contentType status : String} (htype : 13 ∉ Http.bytes contentType)
    (hstatus : 13 ∉ Http.bytes status) (code : Nat) (body : String) :
    (response contentType code status body).Sendable := by
  constructor
  · exact hstatus
  · intro field hfield
    rcases List.mem_pair.mp hfield with rfl | rfl
    · exact (by decide : 13 ∉ Http.bytes "Content-Type" ∧ 58 ∉ Http.bytes "Content-Type")
    · exact (by decide : 13 ∉ Http.bytes "Content-Length" ∧ 58 ∉ Http.bytes "Content-Length")
  · intro field hfield
    rcases List.mem_pair.mp hfield with rfl | rfl
    · exact htype
    · exact Http.not_mem_number (by decide)
  · have hlookup : (response contentType code status body).fields.lookup
        (Http.bytes "Content-Length") = some (Http.bytes (toString body.utf8ByteSize)) := by
      rw [response, List.lookup_cons, List.lookup_cons_self]
      rfl
    rw [Http.contentLength, hlookup, Option.bind_some, Http.readNat_bytes]
    exact congrArg some (Http.length_bytes body).symm

/-- The second word of the first line. -/
def pathOf (request : List Char) : Option String :=
  ((splitWhitespace (firstLine request))[1]?).map String.ofList

/-- The codes, with their reasons. -/
def answers : List (Nat × String) :=
  [(200, "OK"), (400, "Bad Request"), (404, "Not Found"), (503, "Service Unavailable")]

theorem httpCode_answers (status : HealthStatus) :
    (status.httpCode, if status.httpCode = 200 then "OK" else "Service Unavailable") ∈ answers := by
  cases status <;> decide

/-- Every request is answered in one of the two formats. -/
theorem handleRequest_cases (toStringPretty : SystemHealth → Option String) (now : Nat)
    (server : HealthServer) (request : List Char) :
    ∃ contentType code status body,
      server.handleRequest toStringPretty now request =
        formatResponse contentType code status body ∧
      (code, status) ∈ answers ∧
      contentType = if pathOf request = some "/health/detail" then "application/json"
        else "text/plain" := by
  have htext : ∀ code status body, (code, status) ∈ answers →
      pathOf request ≠ some "/health/detail" →
      ∃ contentType code' status' body', httpResponse code status body =
        formatResponse contentType code' status' body' ∧ (code', status') ∈ answers ∧
        contentType = if pathOf request = some "/health/detail" then "application/json"
          else "text/plain" := by
    intro code status body hanswers hpath
    exact ⟨_, code, status, body, rfl, hanswers, (if_neg hpath).symm⟩
  rw [HealthServer.handleRequest]
  split
  · rename_i path _ hparts
    have hpath : pathOf request = some (String.ofList path) := by
      rw [pathOf, hparts]
      rfl
    -- every path but one is answered with text
    have hother : ∀ other, String.ofList path = other → other ≠ "/health/detail" →
        pathOf request ≠ some "/health/detail" := by
      rintro other rfl hne h
      exact hne (Option.some.inj (hpath.symm.trans h))
    split
    case h_1 heq => exact htext _ _ _ (by decide) (hother _ heq (by decide))
    case h_2 heq => exact htext _ _ _ (by decide) (hother _ heq (by decide))
    case h_3 heq => exact htext _ _ _ (httpCode_answers _) (hother _ heq (by decide))
    case h_4 heq =>
      exact ⟨_, _, _, _, rfl, httpCode_answers _, (if_pos (hpath.trans (congrArg some heq))).symm⟩
    case h_5 heq => exact htext _ _ _ (by decide) (hother _ heq (by decide))
    case h_6 hdetail _ => exact htext _ _ _ (by decide) (hother _ rfl hdetail)
  · rename_i hparts
    refine htext _ _ _ (by decide) ?_
    rw [pathOf]
    rcases hwords : splitWhitespace (firstLine request) with _ | ⟨method, _ | ⟨path, rest⟩⟩
    · intro h
      cases h
    · intro h
      cases h
    · exact absurd hwords (hparts method path rest)

/-- What a client reads, and that it reads it from nothing less. -/
def Reads (out : List UInt8) (r : Http.Response) : Prop :=
  (∀ rest, Http.read (out ++ rest) = some (r, rest)) ∧
    ∀ part, part <+: out → part ≠ out → Http.read part = none

theorem reads_response {contentType status : String} (htype : 13 ∉ Http.bytes contentType)
    (hstatus : 13 ∉ Http.bytes status) (code : Nat) (body : String) :
    Reads (Http.bytes (formatResponse contentType code status body))
      (response contentType code status body) := by
  have hsendable := sendable_response htype hstatus code body
  rw [bytes_formatResponse]
  exact ⟨Http.read_write hsendable, fun part => Http.read_cut hsendable⟩

/-- **One response.**  Whatever a connection has sent, and whatever the components' names
and messages hold, a client reads the answer as one response that ends where it ends, and
no part of it as one; its code and reason are one of four, and it is JSON just if the path
is `/health/detail`.  After a line feed nothing is looked at. -/
theorem response_framed (toStringPretty : SystemHealth → Option String) (now : Nat)
    (server : HealthServer) (b : UInt8) (received : List UInt8) :
    ∃ out r, server.answer toStringPretty now (some (b :: received)) = some out ∧ Reads out r ∧
      (∃ status, (r.code, status) ∈ answers ∧ r.reason = Http.bytes status) ∧
      r.fields.lookup (Http.bytes "Content-Type") = some (Http.bytes
        (if pathOf (fromUtf8Lossy none (b :: received)) = some "/health/detail" then
          "application/json" else "text/plain")) ∧
      ∀ line rest, b :: received = line ++ 10 :: rest →
        server.answer toStringPretty now (some (line ++ [10])) = some out := by
  obtain ⟨contentType, code, status, body, hrequest, hanswers, htype⟩ :=
    handleRequest_cases toStringPretty now server (fromUtf8Lossy none (b :: received))
  have htype' : 13 ∉ Http.bytes contentType := by
    rw [htype]
    split <;> decide
  have hstatus : 13 ∉ Http.bytes status := by
    have hall : ∀ answer ∈ answers, 13 ∉ Http.bytes answer.2 := by decide
    exact hall _ hanswers
  refine ⟨_, response contentType code status body, rfl, ?_, ⟨status, hanswers, rfl⟩, ?_, ?_⟩
  · rw [hrequest]
    exact reads_response htype' hstatus code body
  · rw [response, List.lookup_cons_self, htype]
  · intro line rest hline
    rw [← answer_line toStringPretty now server line rest, ← hline]
    rfl

/-! ## Readiness

The probe goes by the worst status there is.  Unknown is worse than all others and a
component registered twice shows it in its second entry, so a good answer says that
nothing was registered twice and that every latest status is good. -/

/-- Something has been registered, nothing twice, and the latest statuses are good. -/
def Serving (good : HealthStatus → Prop) (calls : List Call) : Prop :=
  registered calls ≠ [] ∧ (registered calls).Nodup ∧
    ∀ name ∈ registered calls, good (latest calls name)

theorem severity_le_iff {k : Nat} (hk : k < 3) (version : String) (startTime now : Nat)
    (calls : List Call) :
    ((run (.new version startTime) calls).getHealth now).status.severity ≤ k ↔
      Serving (fun status => status.severity ≤ k) calls := by
  obtain ⟨hnames, hshows⟩ := tracks_run version startTime calls
  have hworst := (run (.new version startTime) calls).getHealth_worst now
  have hunknown : ¬ HealthStatus.severity .unknown ≤ k := Nat.not_le.mpr hk
  have hstatuses : ((run (.new version startTime) calls).getHealth now).status.severity ≤ k ↔
      (run (.new version startTime) calls).components.map (·.status) ≠ [] ∧
        ∀ status ∈ (run (.new version startTime) calls).components.map (·.status),
          status.severity ≤ k := by
    rcases hworst with ⟨hnil, hstatus⟩ | ⟨hmem, hmax⟩
    · rw [hstatus, hnil]
      exact ⟨fun h => absurd h hunknown, fun h => absurd rfl h.1⟩
    · exact ⟨fun h => ⟨List.ne_nil_of_mem hmem, fun other hother => (hmax other hother).trans h⟩,
        fun h => h.2 _ hmem⟩
  have hnil : (run (.new version startTime) calls).components.map (·.status) = [] ↔
      registered calls = [] := by
    rw [← hnames, List.map_eq_nil_iff, List.map_eq_nil_iff]
  rw [hstatuses, ne_eq, hnil]
  refine and_congr_right (fun _ => ?_)
  constructor
  · intro h
    have hnodup : (registered calls).Nodup := by
      by_contra htwice
      -- the second entry of a name is unknown
      exact hunknown (h _ (hshows.unknown_mem (fun hall => htwice (hnames ▸ hall.1))))
    have hmap := hshows.statuses (hnames ▸ hnodup) (fun n _ => List.not_mem_nil)
    rw [hmap, hnames] at h
    exact ⟨hnodup, fun name hname => h _ (List.mem_map_of_mem hname)⟩
  · rintro ⟨hnodup, h⟩
    rw [hshows.statuses (hnames ▸ hnodup) (fun n _ => List.not_mem_nil), hnames]
    exact List.forall_mem_map.mpr h

theorem Serving.congr {good good' : HealthStatus → Prop} {calls : List Call}
    (h : ∀ status, good status ↔ good' status) : Serving good calls ↔ Serving good' calls :=
  and_congr_right (fun _ => and_congr_right (fun _ => forall₂_congr (fun _ _ => h _)))

theorem handleRequest_ready {request : List Char} (h : pathOf request = some "/health/ready")
    (toStringPretty : SystemHealth → Option String) (now : Nat) (server : HealthServer) :
    server.handleRequest toStringPretty now request = server.handleReadiness now := by
  obtain ⟨path, hpath, hready⟩ := Option.map_eq_some_iff.mp h
  rcases hwords : splitWhitespace (firstLine request) with _ | ⟨method, _ | ⟨word, rest⟩⟩
  · rw [hwords] at hpath
    cases hpath
  · rw [hwords] at hpath
    cases hpath
  · rw [hwords] at hpath
    cases hpath
    simp only [HealthServer.handleRequest, hwords, hready]

/-- What the readiness probe reads: `up` says whether the server is, `ready` whether it
says so. -/
structure Probe (out : List UInt8) (r : Http.Response) (up ready : Prop) : Prop where
  reads : Reads out r
  code : r.code = 200 ∧ up ∨ r.code = 503 ∧ ¬ up
  body : r.body = Http.bytes "ready" ∧ ready ∨ r.body = Http.bytes "not ready" ∧ ¬ ready

theorem probe_readiness (now : Nat) (server : HealthServer) :
    ∃ r, Probe (Http.bytes (server.handleReadiness now)) r
      ((server.getHealth now).status.severity ≤ 1)
      ((server.getHealth now).status.severity ≤ 0) := by
  generalize hstatus : (server.getHealth now).status = status
  rw [HealthServer.handleReadiness, hstatus]
  have hreason : 13 ∉ Http.bytes
      (if status.httpCode = 200 then "OK" else "Service Unavailable") := by
    split <;> decide
  refine ⟨_, reads_response (by decide) hreason _ _, ?_, ?_⟩
  · cases status <;> decide
  · cases status <;> decide

theorem Probe.congr {out : List UInt8} {r : Http.Response} {up up' ready ready' : Prop}
    (h : Probe out r up ready) (hup : up ↔ up') (hready : ready ↔ ready') :
    Probe out r up' ready' := by
  rwa [← hup, ← hready]

theorem probe_serving (version : String) (startTime now : Nat) (calls : List Call) :
    ∃ r, Probe (Http.bytes ((run (.new version startTime) calls).handleReadiness now)) r
      (Serving (fun status => status = .healthy ∨ status = .degraded) calls)
      (Serving (· = .healthy) calls) := by
  obtain ⟨r, hprobe⟩ := probe_readiness now (run (.new version startTime) calls)
  refine ⟨r, hprobe.congr ?_ ?_⟩
  · exact (severity_le_iff (by decide) version startTime now calls).trans
      (Serving.congr (fun status => by cases status <;> decide))
  · exact (severity_le_iff (by decide) version startTime now calls).trans
      (Serving.congr (fun status => by cases status <;> decide))

/-- **Readiness.**  However the components have been registered and updated, the probe
reads 200 if something has been registered, nothing twice, and each latest status is
healthy or degraded, and otherwise 503; and `ready` only if each is healthy. -/
theorem ready_iff (toStringPretty : SystemHealth → Option String) (version : String)
    (startTime now : Nat) (calls : List Call) (b : UInt8) (received : List UInt8)
    (hpath : pathOf (fromUtf8Lossy none (b :: received)) = some "/health/ready") :
    ∃ out r, (run (.new version startTime) calls).answer toStringPretty now
        (some (b :: received)) = some out ∧
      Probe out r (Serving (fun status => status = .healthy ∨ status = .degraded) calls)
        (Serving (· = .healthy) calls) := by
  obtain ⟨r, hprobe⟩ := probe_serving version startTime now calls
  refine ⟨_, r, rfl, ?_⟩
  rw [handleRequest_ready hpath]
  exact hprobe

/-- Two components, one of them slow. -/
def slowTask : List Call :=
  [.register "storage", .register "demo_task", .update "storage" .healthy "Initializing" 1,
    .update "demo_task" .degraded "Slow" 2]

/-- The server is up, and says that it is not ready; what follows the line is no text. -/
theorem ready_iff_slow :
    ∃ out r, (run (.new "1.0.0" 0) slowTask).answer (fun _ => none) 0
        (some [71, 69, 84, 32, 47, 104, 101, 97, 108, 116, 104, 47, 114, 101, 97, 100, 121, 13, 10,
          0xff]) = some out ∧
      Reads out r ∧ r.code = 200 ∧ r.body = Http.bytes "not ready" := by
  obtain ⟨out, r, hanswer, hprobe⟩ := ready_iff (fun _ => none) "1.0.0" 0 0 slowTask 71
    [69, 84, 32, 47, 104, 101, 97, 108, 116, 104, 47, 114, 101, 97, 100, 121, 13, 10, 0xff]
    (by decide)
  have hup : Serving (fun status => status = .healthy ∨ status = .degraded) slowTask :=
    ⟨by decide, by decide, by decide⟩
  have hready : ¬ Serving (· = .healthy) slowTask := by
    rintro ⟨-, -, h⟩
    exact absurd (h "demo_task" (by decide)) (by decide)
  exact ⟨out, r, hanswer, hprobe.reads, (hprobe.code.resolve_right (fun h => h.2 hup)).1,
    (hprobe.body.resolve_left (fun h => hready h.2)).1⟩

/-! ## The background checker

The latest status of a name is what the last event since it was registered said, and the
checker reports on its two names only. -/

inductive Event
  | register (name : String)
  | checkSystem (nowUs : Nat)
  /-- With what `check_memory` has returned. -/
  | checkMemory (memory : Option (HealthStatus × String)) (nowUs : Nat)
deriving DecidableEq

/-- The steps of a round; other calls may come in between. -/
def performChecks (memory : Option (HealthStatus × String)) (nowUs thenUs : Nat) : List Event :=
  [.checkSystem nowUs, .checkMemory memory thenUs]

namespace Event

def apply (server : HealthServer) : Event → HealthServer
  | .register name => server.registerComponent name
  | .checkSystem nowUs => server.updateComponent "system" .healthy "System is running" nowUs
  | .checkMemory none _ => server
  | .checkMemory (some (status, message)) nowUs =>
      server.updateComponent "memory" status message nowUs

def registers : Event → Option String
  | .register name => some name
  | .checkSystem _ | .checkMemory _ _ => none

/-- What a check of the memory found. -/
def memory : Event → Option (HealthStatus × String)
  | .checkMemory memory _ => memory
  | .register _ | .checkSystem _ => none

/-- The call an event makes. -/
def call : Event → Option Call
  | .register name => some (.register name)
  | .checkSystem nowUs => some (.update "system" .healthy "System is running" nowUs)
  | .checkMemory memory nowUs => memory.map (fun p => .update "memory" p.1 p.2 nowUs)

/-- What an event says of a name. -/
def report (name : String) (event : Event) : Option HealthStatus :=
  event.call.bind (Call.updates name)

end Event

/-- The events since the name was first registered. -/
def eventsSince (name : String) (events : List Event) : List Event :=
  (events.dropWhile (fun event => decide (event.registers ≠ some name))).tail

/-- There is a check of the system among the events. -/
def SystemChecked (events : List Event) : Prop := ∃ nowUs, Event.checkSystem nowUs ∈ events

theorem run_calls (server : HealthServer) (events : List Event) :
    run server (events.filterMap Event.call) = events.foldl Event.apply server := by
  induction events generalizing server with
  | nil => rfl
  | cons event events ih =>
      rw [List.foldl_cons, ← ih, List.filterMap_cons]
      cases event with
      | register name => rfl
      | checkSystem nowUs => rfl
      | checkMemory memory nowUs => cases memory <;> rfl

theorem registered_calls (events : List Event) :
    registered (events.filterMap Event.call) = events.filterMap Event.registers := by
  rw [registered, List.filterMap_filterMap]
  refine List.filterMap_congr (fun event _ => ?_)
  cases event with
  | register name => rfl
  | checkSystem nowUs => rfl
  | checkMemory memory nowUs => cases memory <;> rfl

theorem sinceRegistered_calls (name : String) (events : List Event) :
    sinceRegistered name (events.filterMap Event.call) =
      (eventsSince name events).filterMap Event.call := by
  induction events with
  | nil => rfl
  | cons event events ih =>
      rw [sinceRegistered] at ih ⊢
      cases event with
      | register other =>
          by_cases hname : other = name
          · simp [eventsSince, Event.call, Event.registers, Call.registers, hname]
          · simpa [eventsSince, Event.call, Event.registers, Call.registers, hname] using ih
      | checkSystem nowUs =>
          simpa [eventsSince, Event.call, Event.registers, Call.registers] using ih
      | checkMemory memory nowUs =>
          cases memory with
          | none =>
              rw [List.filterMap_cons_none rfl]
              simpa [eventsSince, Event.registers] using ih
          | some p => simpa [eventsSince, Event.call, Event.registers, Call.registers] using ih

theorem latest_calls (name : String) (events : List Event) :
    latest (events.filterMap Event.call) name =
      (((eventsSince name events).filterMap (Event.report name)).getLast?).getD .unknown := by
  rw [latest, sinceRegistered_calls, List.filterMap_filterMap]
  rfl

/-- Something has been registered, nothing twice, and only what the checker reports on,
with a good last report since. -/
def Checked (good : HealthStatus → Prop) (events : List Event) : Prop :=
  events.filterMap Event.registers ≠ [] ∧ (events.filterMap Event.registers).Nodup ∧
    ∀ name ∈ events.filterMap Event.registers,
      (name = "system" ∧ SystemChecked (eventsSince name events)) ∨
        (name = "memory" ∧ ∃ report,
          ((eventsSince name events).filterMap Event.memory).getLast? = some report ∧
            good report.1)

theorem report_system : Event.report "system" = fun event =>
    match event with
    | .checkSystem _ => some .healthy
    | .register _ | .checkMemory _ _ => none := by
  funext event
  cases event with
  | register name => rfl
  | checkSystem nowUs => rfl
  | checkMemory memory nowUs => cases memory <;> rfl

theorem report_memory : Event.report "memory" = fun event => event.memory.map (·.1) := by
  funext event
  cases event with
  | register name => rfl
  | checkSystem nowUs => rfl
  | checkMemory memory nowUs => cases memory <;> rfl

theorem report_other {name : String} (hsystem : name ≠ "system") (hmemory : name ≠ "memory")
    (event : Event) : event.report name = none := by
  cases event with
  | register other => rfl
  | checkSystem nowUs => exact if_neg (Ne.symm hsystem)
  | checkMemory memory nowUs =>
      cases memory with
      | none => rfl
      | some p => exact if_neg (Ne.symm hmemory)

theorem good_system_iff {good : HealthStatus → Prop} (hhealthy : good .healthy)
    (hunknown : ¬ good .unknown) (events : List Event) :
    good (((events.filterMap (Event.report "system")).getLast?).getD .unknown) ↔
      SystemChecked events := by
  have hmem : ∀ status ∈ events.filterMap (Event.report "system"),
      status = .healthy ∧ SystemChecked events := by
    intro status hstatus
    obtain ⟨event, hevent, hreport⟩ := List.mem_filterMap.mp hstatus
    rw [report_system] at hreport
    cases event with
    | register name => cases hreport
    | checkSystem nowUs => exact ⟨(Option.some.inj hreport).symm, nowUs, hevent⟩
    | checkMemory memory nowUs => cases hreport
  cases hlast : (events.filterMap (Event.report "system")).getLast? with
  | none =>
      refine iff_of_false hunknown ?_
      rintro ⟨nowUs, hevent⟩
      have hreported := List.mem_filterMap.mpr ⟨_, hevent, congrFun report_system _⟩
      rw [List.getLast?_eq_none_iff.mp hlast] at hreported
      cases hreported
  | some status =>
      obtain ⟨rfl, hchecked⟩ := hmem status (List.mem_of_getLast? hlast)
      exact iff_of_true hhealthy hchecked

/-- A good latest status is a report of the checker. -/
theorem good_latest_iff {good : HealthStatus → Prop} (hhealthy : good .healthy)
    (hunknown : ¬ good .unknown) (name : String) (events : List Event) :
    good (latest (events.filterMap Event.call) name) ↔
      (name = "system" ∧ SystemChecked (eventsSince name events)) ∨
        (name = "memory" ∧ ∃ report,
          ((eventsSince name events).filterMap Event.memory).getLast? = some report ∧
            good report.1) := by
  rw [latest_calls]
  generalize eventsSince name events = since
  by_cases hsystem : name = "system"
  · subst hsystem
    rw [good_system_iff hhealthy hunknown]
    simp
  by_cases hmemory : name = "memory"
  · subst hmemory
    rw [report_memory, ← List.map_filterMap, List.getLast?_map]
    cases (since.filterMap Event.memory).getLast? with
    | none => simp [hunknown]
    | some report => simp
  · have hreports : since.filterMap (Event.report name) = [] :=
      List.filterMap_eq_nil_iff.mpr (fun event _ => report_other hsystem hmemory event)
    simp [hreports, hsystem, hmemory, hunknown]

theorem serving_iff_checked (good : HealthStatus → Prop) (hhealthy : good .healthy)
    (hunknown : ¬ good .unknown) (events : List Event) :
    Serving good (events.filterMap Event.call) ↔ Checked good events := by
  rw [Serving, Checked, registered_calls]
  exact and_congr_right (fun _ => and_congr_right (fun _ =>
    forall₂_congr (fun name _ => good_latest_iff hhealthy hunknown name events)))

/-- **What the checker can report on.**  If nobody but the checker updates a component,
the server is up just if each component is registered once and is `system`, checked since,
or `memory`, healthy or degraded at the last check since that worked; one component of
another name keeps it down. -/
theorem checker_ready_iff (toStringPretty : SystemHealth → Option String) (version : String)
    (startTime now : Nat) (events : List Event) (b : UInt8) (received : List UInt8)
    (hpath : pathOf (fromUtf8Lossy none (b :: received)) = some "/health/ready") :
    ∃ out r, (events.foldl Event.apply (.new version startTime)).answer toStringPretty now
        (some (b :: received)) = some out ∧
      Probe out r (Checked (fun status => status = .healthy ∨ status = .degraded) events)
        (Checked (· = .healthy) events) := by
  obtain ⟨r, hprobe⟩ := probe_serving version startTime now (events.filterMap Event.call)
  rw [← run_calls]
  refine ⟨_, r, rfl, ?_⟩
  rw [handleRequest_ready hpath]
  refine hprobe.congr ?_ ?_
  · exact serving_iff_checked _ (.inl rfl) (by decide) events
  · exact serving_iff_checked (· = .healthy) rfl (by decide) events

/-- Both components, checked when a good part of the memory is in use. -/
def memoryInUse : List Event :=
  [.register "system", .register "memory"] ++
    performChecks (some (.degraded, "Memory usage: 85.0%")) 1 2

theorem checker_ready_iff_memory :
    ∃ out r, (memoryInUse.foldl Event.apply (.new "1.0.0" 0)).answer (fun _ => none) 0
        (some [71, 69, 84, 32, 47, 104, 101, 97, 108, 116, 104, 47, 114, 101, 97, 100, 121]) =
          some out ∧
      Reads out r ∧ r.code = 200 ∧ r.body = Http.bytes "not ready" := by
  obtain ⟨out, r, hanswer, hprobe⟩ := checker_ready_iff (fun _ => none) "1.0.0" 0 0 memoryInUse 71
    [69, 84, 32, 47, 104, 101, 97, 108, 116, 104, 47, 114, 101, 97, 100, 121] (by decide)
  have hup : Checked (fun status => status = .healthy ∨ status = .degraded) memoryInUse := by
    refine ⟨by decide, by decide, ?_⟩
    intro name hname
    rcases List.mem_pair.mp hname with rfl | rfl
    · exact .inl ⟨rfl, 1, by decide⟩
    · exact .inr ⟨rfl, (.degraded, "Memory usage: 85.0%"), by decide, .inr rfl⟩
  have hready : ¬ Checked (· = .healthy) memoryInUse := by
    rintro ⟨-, -, h⟩
    obtain ⟨hname, -⟩ | ⟨-, report, hreport, hgood⟩ := h "memory" (by decide)
    · exact absurd hname (by decide)
    · cases hreport
      cases hgood
  exact ⟨out, r, hanswer, hprobe.reads, (hprobe.code.resolve_right (fun h => h.2 hup)).1,
    (hprobe.body.resolve_left (fun h => hready h.2)).1⟩

end Dolda.Health
