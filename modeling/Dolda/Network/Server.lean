/-
# `Dolda.Network.Server` — the mailbox server

`MailboxServer` of `src/mailbox_network.rs`: requests to send, receive and peek,
each on the handle the server keeps for the address in its cache.  The handles
are those of an `Office`, and the cache maps an address to the place of its handle
there.

A request first comes by its handle, in `get_or_create_mailbox`: it looks in the
cache (`cached`); if there is none it takes the lock of the system and gets or
creates a mailbox (`fetch`), and caches the handle before the lock is released
(`remember`).  What it does with the handle then is `operate`.  The handlers do
all this in one go; `Dolda.Network.Concurrent` takes the steps apart.
-/
import Dolda.Mailbox.Workers

namespace Dolda

def MailboxError.display : MailboxError → String
  | .persistQ message => "PersistQ error: " ++ message
  | .mailboxNotFound address => "Mailbox not found: " ++ address
  | .invalidAddress message => "Invalid address: " ++ message
  | .serialization message => "Serialization error: " ++ message
  | .io message => "IO error: " ++ message

namespace Network

open Workers (Office Grown Kept)

inductive NetworkError where
  | io (message : String)
  | mailbox (error : MailboxError)
  | serialization (message : String)
  | invalidProtocol (version : Nat)

def NetworkError.display : NetworkError → String
  | .io message => "IO error: " ++ message
  | .mailbox error => "Mailbox error: " ++ error.display
  | .serialization message => "Serialization error: " ++ message
  | .invalidProtocol version => "Invalid protocol version: " ++ toString version

inductive Protocol where
  | tcp
  | udp
deriving DecidableEq

structure NetworkConfig where
  protocol : Protocol
  maxMessageSize : Nat

/-- 10MB. -/
def NetworkConfig.default : NetworkConfig :=
  { protocol := .tcp, maxMessageSize := 10 * 1024 * 1024 }

structure MessageData where
  from_ : String
  to_ : String
  id : String
  timestamp : Nat
  body : List UInt8
  subject : Option String
deriving DecidableEq

def MessageData.of (m : Message) : MessageData where
  from_ := m.from_.address
  to_ := m.to_.address
  id := m.id
  timestamp := m.timestamp
  body := m.body
  subject := m.subject

inductive NetworkMessage where
  | send (to_ from_ : String) (body : List UInt8) (subject : Option String)
  | receive (mailbox : String)
  | peek (mailbox : String)
  | messageResponse (message : Option MessageData)
  | success
  | error (message : String)
deriving DecidableEq

structure MailboxServer where
  config : NetworkConfig
  office : Office
  mailboxes : AList (fun _ : String => Nat)

/-- What a request is handled with besides its arguments. -/
structure Service where
  call : Call
  paths : PersistQ.Paths

namespace MailboxServer

def new (config : NetworkConfig) (system : MailboxSystem) : MailboxServer :=
  { config, office := .start system, mailboxes := ∅ }

/-! ## The handle of a request -/

def cached (address : String) (s : MailboxServer) : Option Nat := s.mailboxes.lookup address

/-- A handle on the mailbox, which is created if it is not there. -/
def fetch (service : Service) (address : String) (s : MailboxServer) :
    Except NetworkError Nat × MailboxServer :=
  match s.office.get address with
  | (.error e, office) => (.error (.mailbox e), { s with office })
  | (.ok (some _), office) => (.ok s.office.handles.length, { s with office })
  | (.ok none, _) =>
      match s.office.create service.call.fs service.paths address with
      | (.error e, office) => (.error (.mailbox e), { s with office })
      | (.ok _, office) => (.ok s.office.handles.length, { s with office })

def remember (address : String) (handle : Nat) (s : MailboxServer) : MailboxServer :=
  { s with mailboxes := s.mailboxes.insert address handle }

def getOrCreateMailbox (service : Service) (address : String) (s : MailboxServer) :
    Except NetworkError Nat × MailboxServer :=
  match s.cached address with
  | some handle => (.ok handle, s)
  | none =>
      match s.fetch service address with
      | (.error e, s) => (.error e, s)
      | (.ok handle, s) => (.ok handle, s.remember address handle)

/-! ## What is done with it -/

/-- The call by which a request is sent on. -/
def outgoing (to_ : String) (body : List UInt8) : Option String → Mailbox.Outgoing
  | some subject => .sendWithSubject to_ subject body
  | none => .sendTo to_ body

def sendOn (J : SerdeJson) (H : Hasher) (service : Service) (to_ : String) (body : List UInt8)
    (subject : Option String) (handle : Nat) (s : MailboxServer) :
    Option (NetworkMessage × MailboxServer) :=
  match s.office.handles[handle]? with
  | none => none
  | some sender =>
      match s.office.send J H service.call sender (outgoing to_ body subject) with
      | none => none
      | some (.ok _, office) => some (.success, { s with office })
      | some (.error e, office) => some (.error ("Failed to send: " ++ e.display), { s with office })

def receiveOn (J : SerdeJson) (service : Service) (handle : Nat) (s : MailboxServer) :
    Option (NetworkMessage × MailboxServer) :=
  match s.office.receive J service.call.startTime service.call.endTime handle with
  | none => none
  | some (.ok message, office) =>
      some (.messageResponse (message.map MessageData.of), { s with office })
  | some (.error e, office) =>
      some (.error ("Failed to receive: " ++ e.display), { s with office })

def peekOn (J : SerdeJson) (service : Service) (handle : Nat) (s : MailboxServer) :
    Option (NetworkMessage × MailboxServer) :=
  match s.office.peek J service.call.startTime service.call.endTime handle with
  | none => none
  | some (.ok message) => some (.messageResponse (message.map MessageData.of), s)
  | some (.error e) => some (.error ("Failed to peek: " ++ e.display), s)

/-! ## The handlers -/

/-- `none` if an operation panics or does not return. -/
def handleSend (J : SerdeJson) (H : Hasher) (service : Service) (to_ from_ : String)
    (body : List UInt8) (subject : Option String) (s : MailboxServer) :
    Option (NetworkMessage × MailboxServer) :=
  match s.getOrCreateMailbox service from_ with
  | (.error e, s) => some (.error ("Failed to get sender mailbox: " ++ e.display), s)
  | (.ok handle, s) => s.sendOn J H service to_ body subject handle

def handleReceive (J : SerdeJson) (service : Service) (mailbox : String) (s : MailboxServer) :
    Option (NetworkMessage × MailboxServer) :=
  match s.getOrCreateMailbox service mailbox with
  | (.error e, s) => some (.error ("Failed to get mailbox: " ++ e.display), s)
  | (.ok handle, s) => s.receiveOn J service handle

def handlePeek (J : SerdeJson) (service : Service) (mailbox : String) (s : MailboxServer) :
    Option (NetworkMessage × MailboxServer) :=
  match s.getOrCreateMailbox service mailbox with
  | (.error e, s) => some (.error ("Failed to get mailbox: " ++ e.display), s)
  | (.ok handle, s) => s.peekOn J service handle

def handleMessage (J : SerdeJson) (H : Hasher) (service : Service) (msg : NetworkMessage)
    (s : MailboxServer) : Option (NetworkMessage × MailboxServer) :=
  match msg with
  | .send to_ from_ body subject => s.handleSend J H service to_ from_ body subject
  | .receive mailbox => s.handleReceive J service mailbox
  | .peek mailbox => s.handlePeek J service mailbox
  | _ => some (.error "Invalid request", s)

/-! ## Whose handles they are

A cached handle is always one of the address it is cached for: it is put there by the
task that got it for that address, and a receive moves a handle without changing its
address.  So whoever takes a handle from the cache works on the mailbox that was asked
for. -/

section
variable {J : SerdeJson} {H : Hasher} {service : Service} {o o' : Office} {s s' : MailboxServer}
  {handle : Nat} {address : String}

/-- The handle is one of the address. -/
def Has (o : Office) (handle : Nat) (address : String) : Prop :=
  ∃ mailbox, o.handles[handle]? = some mailbox ∧ mailbox.address = ⟨address⟩

theorem Has.grown (h : Has o handle address) (hgrown : Grown o o') : Has o' handle address := by
  obtain ⟨mailbox, hget, haddress⟩ := h
  obtain ⟨more, hmore⟩ := hgrown.handles
  obtain ⟨hlt, -⟩ := List.getElem?_eq_some_iff.mp hget
  exact ⟨mailbox, by rw [hmore, List.getElem?_append_left hlt, hget], haddress⟩

theorem Has.moved (h : Has o handle address) {handle' : Nat} {mailbox mailbox' : Mailbox}
    (hget : o.handles[handle']? = some mailbox) (haddress : mailbox'.address = mailbox.address)
    (messages : List Message) : Has (o.moved handle' mailbox' messages) handle address := by
  obtain ⟨other, hother, hadd⟩ := h
  by_cases heq : handle' = handle
  · subst heq
    cases hget.symm.trans hother
    have hlt := (List.getElem?_eq_some_iff.mp hget).1
    exact ⟨mailbox', List.getElem?_set_self hlt, haddress.trans hadd⟩
  · exact ⟨other, (List.getElem?_set_ne heq).trans hother, hadd⟩

/-- Every cached handle is one of the address it is cached for. -/
def Wired (s : MailboxServer) : Prop :=
  ∀ address handle, s.cached address = some handle → Has s.office handle address

theorem has_last {mailbox : Mailbox} (h : o'.handles = o.handles ++ [mailbox])
    (haddress : mailbox.address = ⟨address⟩) : Has o' o.handles.length address :=
  ⟨mailbox, by rw [h, List.getElem?_concat_length], haddress⟩

/-- Getting or creating a mailbox adds the handle it answers. -/
theorem fetch_grown {answer : Except NetworkError Nat}
    (h : s.fetch service address = (answer, s')) :
    Grown s.office s'.office ∧ s'.mailboxes = s.mailboxes ∧
      ∀ handle, answer = .ok handle → Has s'.office handle address := by
  simp only [fetch] at h
  have hget := Workers.get_grown s.office address
  have hcreate := Workers.create_grown s.office service.call.fs service.paths address
  split at h
  · rename_i e office heq
    cases h
    rw [heq] at hget
    refine ⟨hget, rfl, ?_⟩
    intro handle hok
    cases hok
  · rename_i mailbox office heq
    cases h
    rw [heq] at hget
    refine ⟨hget, rfl, ?_⟩
    intro handle hok
    cases hok
    obtain ⟨rfl, rfl⟩ := Workers.get_some heq
    exact has_last rfl rfl
  · split at h
    · rename_i e office heq
      cases h
      rw [heq] at hcreate
      refine ⟨hcreate, rfl, ?_⟩
      intro handle hok
      cases hok
    · rename_i mailbox office heq
      cases h
      rw [heq] at hcreate
      refine ⟨hcreate, rfl, ?_⟩
      intro handle hok
      cases hok
      obtain ⟨rfl, hhandles⟩ := Workers.create_ok heq
      exact has_last hhandles rfl

theorem fetch_kept {answer : Except NetworkError Nat} {a : MailboxAddress}
    (h : s.fetch service address = (answer, s')) (hkept : Kept J s.office a) :
    Kept J s'.office a := by
  simp only [fetch] at h
  have hget := hkept.get address
  have hcreate := hkept.create service.call.fs service.paths address
  split at h
  · rename_i e office heq
    cases h
    rwa [heq] at hget
  · rename_i mailbox office heq
    cases h
    rwa [heq] at hget
  · split at h
    · rename_i e office heq
      cases h
      rwa [heq] at hcreate
    · rename_i mailbox office heq
      cases h
      rwa [heq] at hcreate

/-- What is cached while handles are only added. -/
theorem Wired.grown (h : s.Wired) (hgrown : Grown s.office s'.office)
    (hmailboxes : s'.mailboxes = s.mailboxes) : s'.Wired := by
  intro address handle hcached
  rw [cached, hmailboxes] at hcached
  exact (h address handle hcached).grown hgrown

theorem Wired.remember (h : s.Wired) (hhas : Has s.office handle address) :
    (s.remember address handle).Wired := by
  intro address' handle' hcached
  by_cases heq : address' = address
  · subst heq
    cases (AList.lookup_insert _).symm.trans hcached
    exact hhas
  · exact h address' handle' ((AList.lookup_insert_ne heq).symm.trans hcached)

theorem getOrCreateMailbox_wired (h : s.Wired) {answer : Except NetworkError Nat}
    (hget : s.getOrCreateMailbox service address = (answer, s')) :
    s'.Wired ∧ ∀ handle, answer = .ok handle → Has s'.office handle address := by
  simp only [getOrCreateMailbox] at hget
  cases hcached : s.cached address with
  | some handle =>
      rw [hcached] at hget
      cases hget
      refine ⟨h, ?_⟩
      intro handle' hok
      cases hok
      exact h address handle hcached
  | none =>
  rw [hcached] at hget
  cases hfetch : s.fetch service address with
  | mk answer' s₁ =>
  obtain ⟨hgrown, hmailboxes, hhas⟩ := fetch_grown hfetch
  have hwired := h.grown hgrown hmailboxes
  simp only [hfetch] at hget
  cases answer' with
  | error e =>
      cases hget
      refine ⟨hwired, ?_⟩
      intro handle hok
      cases hok
  | ok handle =>
      cases hget
      refine ⟨hwired.remember (hhas handle rfl), ?_⟩
      intro handle' hok
      cases hok
      exact hhas handle rfl

theorem sendOn_wired (h : s.Wired) {to_ : String} {body : List UInt8} {subject : Option String}
    {response : NetworkMessage}
    (hsend : s.sendOn J H service to_ body subject handle = some (response, s')) : s'.Wired := by
  simp only [sendOn] at hsend
  split at hsend
  · cases hsend
  split at hsend
  · cases hsend
  · rename_i office heq
    cases hsend
    exact h.grown (Workers.send_grown heq) rfl
  · rename_i office heq
    cases hsend
    exact h.grown (Workers.send_grown heq) rfl

/-- A receive moves a handle of the same address. -/
theorem Wired.received (h : s.Wired) {startTime endTime : Nat}
    {answer : Except MailboxError (Option Message)} {office : Office}
    (hreceive : s.office.receive J startTime endTime handle = some (answer, office)) :
    Wired { s with office } := by
  obtain ⟨mailbox, mailbox', hget, hmailbox, rfl⟩ := Workers.receive_moved hreceive
  obtain ⟨haddress, -⟩ := Workers.receive_forward hmailbox
  intro address' handle' hcached
  exact (h address' handle' hcached).moved hget haddress _

theorem receiveOn_wired (h : s.Wired) {response : NetworkMessage}
    (hreceive : s.receiveOn J service handle = some (response, s')) : s'.Wired := by
  simp only [receiveOn] at hreceive
  split at hreceive
  · cases hreceive
  · rename_i office heq
    cases hreceive
    exact h.received heq
  · rename_i office heq
    cases hreceive
    exact h.received heq

theorem peekOn_eq {response : NetworkMessage}
    (hpeek : s.peekOn J service handle = some (response, s')) : s' = s := by
  simp only [peekOn] at hpeek
  split at hpeek
  · cases hpeek
  · cases hpeek
    rfl
  · cases hpeek
    rfl

/-- The states a server is brought to by the steps of requests, in whatever order they
come, while others use the system as well. -/
inductive Reached (J : SerdeJson) (H : Hasher) : MailboxServer → Prop where
  | new (config : NetworkConfig) (system : MailboxSystem) : Reached J H (.new config system)
  | fetched {service : Service} {address : String} {answer : Except NetworkError Nat}
      {s s' : MailboxServer} :
      Reached J H s → s.fetch service address = (answer, s') → Reached J H s'
  | remembered {address : String} {handle : Nat} {s : MailboxServer} :
      Reached J H s → Has s.office handle address → Reached J H (s.remember address handle)
  | sent {service : Service} {to_ : String} {body : List UInt8} {subject : Option String}
      {handle : Nat} {response : NetworkMessage} {s s' : MailboxServer} :
      Reached J H s → s.sendOn J H service to_ body subject handle = some (response, s') →
      Reached J H s'
  | received {service : Service} {handle : Nat} {response : NetworkMessage}
      {s s' : MailboxServer} :
      Reached J H s → s.receiveOn J service handle = some (response, s') → Reached J H s'
  | shared {s : MailboxServer} (system : MailboxSystem) :
      Reached J H s → Reached J H { s with office := { s.office with system } }

theorem Reached.wired (h : s.Reached J H) : s.Wired := by
  induction h with
  | new config system =>
      intro address handle hcached
      cases (AList.lookup_empty address).symm.trans hcached
  | fetched _ hfetch ih =>
      obtain ⟨hgrown, hmailboxes, -⟩ := fetch_grown hfetch
      exact ih.grown hgrown hmailboxes
  | remembered _ hhas ih => exact ih.remember hhas
  | sent _ hsend ih => exact sendOn_wired ih hsend
  | received _ hreceive ih => exact receiveOn_wired ih hreceive
  | shared system _ ih => exact ih

end

end MailboxServer

end Network

end Dolda
