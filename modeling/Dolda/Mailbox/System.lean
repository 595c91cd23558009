/-
# `Dolda.Mailbox.System` — mailboxes and their messages

`src/mailbox.rs`.  A mailbox is an address with a queue behind it; a send
serializes a message and appends it to the queue of the address it is for, a
receive reads the queue at the handle's offset.

`serde_json` is not part of the repository and is the parameter `J : SerdeJson`;
`SerdeJson.Lawful` is what is relied on.  A message's id and time stamp, the
clock readings and the answers of the file system are parameters of each call
(`Call`).  No mailbox is removed or replaced, so the queue a handle shares is the
one the system keeps under the handle's address.
-/
import Dolda.PersistQ.Queue

namespace Dolda

structure MailboxAddress where
  address : String
deriving DecidableEq

inductive MailboxError where
  | persistQ (message : String)
  | mailboxNotFound (address : String)
  | invalidAddress (message : String)
  | serialization (message : String)
  | io (message : String)
deriving DecidableEq

def MailboxAddress.new (address : String) : Except MailboxError MailboxAddress :=
  if address.isEmpty then .error (.invalidAddress "Address cannot be empty")
  else .ok ⟨address⟩

theorem MailboxAddress.new_ok {address : String} {addr : MailboxAddress}
    (h : MailboxAddress.new address = .ok addr) : address.isEmpty = false ∧ addr = ⟨address⟩ := by
  simp only [MailboxAddress.new] at h
  split at h
  · cases h
  · rename_i hempty
    cases h
    exact ⟨Bool.not_eq_true _ ▸ hempty, rfl⟩

structure Message where
  from_ : MailboxAddress
  to_ : MailboxAddress
  id : String
  timestamp : Nat
  body : List UInt8
  subject : Option String
  replyTo : Option MailboxAddress
deriving DecidableEq

def Message.new (id : String) (timestamp : Nat) (from_ to_ : MailboxAddress)
    (body : List UInt8) : Message :=
  { from_, to_, id, timestamp, body, subject := none, replyTo := none }

def Message.withSubject (m : Message) (subject : String) : Message :=
  { m with subject := some subject }

/-! ## The serializer -/

/-- `serde_json::to_vec` and `serde_json::from_slice` at `Message`. -/
structure SerdeJson where
  toVec : Message → Except String (List UInt8)
  fromSlice : List UInt8 → Except String Message

/-- A space, tab, line feed or carriage return. -/
def isWhitespace (b : UInt8) : Bool := b == 32 || b == 9 || b == 10 || b == 13

/-- What is relied on: decoding undoes encoding and rejects trailing bytes other
than white space, and a message is written as an object. -/
structure SerdeJson.Lawful (J : SerdeJson) : Prop where
  fromSlice_toVec : ∀ {m bytes}, J.toVec m = .ok bytes → J.fromSlice bytes = .ok m
  trailing : ∀ {m bytes b rest}, J.toVec m = .ok bytes → isWhitespace b = false →
    ∃ e, J.fromSlice (bytes ++ b :: rest) = .error e
  object : ∀ {m bytes}, J.toVec m = .ok bytes → ∃ rest, bytes = 0x7B :: rest

/-- What begins inside the text of a message is not read as a message, also with texts
of messages behind it: in each text the quotes come in pairs, and what is opened is
closed at its end. -/
def SerdeJson.RejectsTails (J : SerdeJson) : Prop :=
  ∀ {m bytes n} {texts : List (List UInt8)}, J.toVec m = .ok bytes → 0 < n → n < bytes.length →
    (∀ text ∈ texts, ∃ m', J.toVec m' = .ok text) →
      ∃ e, J.fromSlice (bytes.drop n ++ texts.flatten) = .error e

/-- A vector has at most so many bytes. -/
def SerdeJson.Sized (J : SerdeJson) : Prop :=
  ∀ {m bytes}, J.toVec m = .ok bytes → bytes.length ≤ isizeMax

/-- The serializer on the messages of a list of texts; other messages it refuses. -/
def SerdeJson.ofTexts (texts : List (Message × List UInt8)) : SerdeJson where
  toVec m :=
    match texts.find? (fun p => p.1 = m) with
    | none => .error "not in the list"
    | some p => .ok p.2
  fromSlice bytes :=
    match texts.find? (fun p => p.2 = bytes) with
    | none => .error "not the text of a message"
    | some p => .ok p.1

section
variable {texts : List (Message × List UInt8)} {m : Message} {bytes : List UInt8}

theorem SerdeJson.ofTexts_toVec (h : (SerdeJson.ofTexts texts).toVec m = .ok bytes) :
    (m, bytes) ∈ texts := by
  simp only [SerdeJson.ofTexts] at h
  split at h
  · cases h
  · rename_i p hfind
    cases h
    have hm : p.1 = m := by simpa using List.find?_some hfind
    exact hm ▸ List.mem_of_find?_eq_some hfind

theorem SerdeJson.ofTexts_fromSlice (h : (SerdeJson.ofTexts texts).fromSlice bytes = .ok m) :
    (m, bytes) ∈ texts := by
  simp only [SerdeJson.ofTexts] at h
  split at h
  · cases h
  · rename_i p hfind
    cases h
    have hbytes : p.2 = bytes := by simpa using List.find?_some hfind
    exact hbytes ▸ List.mem_of_find?_eq_some hfind

/-- It is lawful if the texts are objects and none continues another. -/
theorem SerdeJson.ofTexts_lawful (hpre : ∀ p ∈ texts, ∀ p' ∈ texts, p.2 <+: p'.2 → p = p')
    (hobject : ∀ p ∈ texts, p.2.head? = some 0x7B) : (SerdeJson.ofTexts texts).Lawful where
  fromSlice_toVec := by
    intro m bytes h
    have hmem := SerdeJson.ofTexts_toVec h
    cases hdecoded : (SerdeJson.ofTexts texts).fromSlice bytes with
    | ok m' =>
        cases hpre _ hmem _ (SerdeJson.ofTexts_fromSlice hdecoded) List.prefix_rfl
        rfl
    | error e =>
        simp only [SerdeJson.ofTexts] at hdecoded
        split at hdecoded
        · rename_i hnone
          exact absurd (decide_eq_true rfl) (List.find?_eq_none.mp hnone _ hmem)
        · cases hdecoded
  trailing := by
    intro m bytes b rest h _
    cases hdecoded : (SerdeJson.ofTexts texts).fromSlice (bytes ++ b :: rest) with
    | error e => exact ⟨e, rfl⟩
    | ok m' =>
        have heq := hpre _ (SerdeJson.ofTexts_toVec h) _ (SerdeJson.ofTexts_fromSlice hdecoded)
          (List.prefix_append bytes _)
        have hlen := congrArg (fun p : Message × List UInt8 => p.2.length) heq
        simp only [List.length_append, List.length_cons] at hlen
        omega
  object := fun h => List.head?_eq_some_iff.mp (hobject _ (SerdeJson.ofTexts_toVec h))

theorem SerdeJson.ofTexts_rejectsTails (h : ∀ p ∈ texts, ∀ p' ∈ texts,
    ∀ n < p.2.length, 0 < n → ¬ p.2.drop n <+: p'.2) :
    (SerdeJson.ofTexts texts).RejectsTails := by
  intro m bytes n behind hbytes hpos hlt _
  cases hdecoded : (SerdeJson.ofTexts texts).fromSlice (bytes.drop n ++ behind.flatten) with
  | error e => exact ⟨e, rfl⟩
  | ok m' =>
      have htail := h _ (SerdeJson.ofTexts_toVec hbytes) _ (SerdeJson.ofTexts_fromSlice hdecoded)
        n hlt hpos
      exact absurd (List.prefix_append _ _) htail

/-! ## What is left of some texts -/

/-- Texts of messages, one behind the other, are nothing or begin an object. -/
theorem SerdeJson.Lawful.flatten_eq {J : SerdeJson} (hJ : J.Lawful) {texts : List (List UInt8)}
    (h : ∀ text ∈ texts, ∃ m, J.toVec m = .ok text) :
    texts.flatten = [] ∨ ∃ rest, texts.flatten = 0x7B :: rest := by
  cases texts with
  | nil => exact Or.inl rfl
  | cons text texts =>
      obtain ⟨m, hm⟩ := h text List.mem_cons_self
      obtain ⟨rest, rfl⟩ := hJ.object hm
      exact Or.inr ⟨rest ++ texts.flatten, rfl⟩

/-- A text is read alone only. -/
theorem SerdeJson.Lawful.flatten_eq_nil {J : SerdeJson} (hJ : J.Lawful) {m m' : Message}
    {bytes : List UInt8} (hbytes : J.toVec m = .ok bytes) {texts : List (List UInt8)}
    (h : ∀ text ∈ texts, ∃ m, J.toVec m = .ok text)
    (hdecoded : J.fromSlice (bytes ++ texts.flatten) = .ok m') : texts.flatten = [] := by
  rcases hJ.flatten_eq h with hnone | ⟨rest, hrest⟩
  · exact hnone
  · have hfail : ∃ e, J.fromSlice (bytes ++ 0x7B :: rest) = .error e := hJ.trailing hbytes rfl
    obtain ⟨e, hfail⟩ := hfail
    rw [hrest, hfail] at hdecoded
    cases hdecoded

/-- **What is left of messages' texts** from some place on is read as a message only if
it is the text of that message. -/
theorem SerdeJson.Lawful.toVec_of_fromSlice_drop {J : SerdeJson} (hJ : J.Lawful)
    (htails : J.RejectsTails) {texts : List (List UInt8)}
    (h : ∀ text ∈ texts, ∃ m, J.toVec m = .ok text) {n : Nat} (hleft : texts.flatten.drop n ≠ [])
    {m : Message} (hdecoded : J.fromSlice (texts.flatten.drop n) = .ok m) :
    J.toVec m = .ok (texts.flatten.drop n) := by
  induction texts generalizing n with
  | nil => exact absurd List.drop_nil hleft
  | cons text texts ih =>
      obtain ⟨⟨m', hm'⟩, hbehind⟩ := List.forall_mem_cons.mp h
      rw [List.flatten_cons] at hleft hdecoded ⊢
      rcases Nat.lt_or_ge n text.length with hlt | hge
      · rw [List.drop_append_of_le_length hlt.le] at hdecoded ⊢
        rcases Nat.eq_zero_or_pos n with rfl | hpos
        · -- a whole text, which is read alone only
          rw [List.drop_zero] at hdecoded ⊢
          have hnone := hJ.flatten_eq_nil hm' hbehind hdecoded
          rw [hnone, List.append_nil] at hdecoded ⊢
          cases (hJ.fromSlice_toVec hm').symm.trans hdecoded
          exact hm'
        · obtain ⟨e, hfail⟩ := htails hm' hpos hlt hbehind
          rw [hfail] at hdecoded
          cases hdecoded
      · have hdrop : (text ++ texts.flatten).drop n = texts.flatten.drop (n - text.length) := by
          rw [List.drop_append, List.drop_eq_nil_iff.mpr hge, List.nil_append]
        rw [hdrop] at hleft hdecoded ⊢
        exact ih hbehind hleft hdecoded

end

def Message.toBytes (J : SerdeJson) (m : Message) : Except MailboxError (List UInt8) :=
  match J.toVec m with
  | .error e => .error (.serialization e)
  | .ok bytes => .ok bytes

def Message.fromBytes (J : SerdeJson) (bytes : List UInt8) : Except MailboxError Message :=
  match J.fromSlice bytes with
  | .error e => .error (.serialization e)
  | .ok m => .ok m

/-! ## The system

A mailbox is a queue of one partition in a directory that goes by its address.  The
system keeps the queues by address, and handles are on addresses. -/

/-- `default_config` is set when the system is made and never again, so it is a
function of the base directory here. -/
structure MailboxSystem where
  mailboxes : AList (fun _ : MailboxAddress => PersistQ)
  baseDir : String

/-- A handle on a mailbox. -/
structure Mailbox where
  address : MailboxAddress
  readOffset : Nat
deriving DecidableEq

/-- What a send is called with besides its arguments. -/
structure Call where
  fs : Files
  startTime : Nat
  endTime : Nat
  rounds : Nat
  id : String
  timestamp : Nat

namespace MailboxSystem

def new (fs : Files) (baseDir : String) : Except MailboxError MailboxSystem :=
  match fs.createDirAll baseDir with
  | .error e => .error (.io e)
  | .ok () => .ok { mailboxes := ∅, baseDir }

/-- A new system has no mailbox. -/
theorem lookup_of_new {fs : Files} {baseDir : String} {sys : MailboxSystem}
    (h : MailboxSystem.new fs baseDir = .ok sys) (address : MailboxAddress) :
    sys.mailboxes.lookup address = none := by
  rw [MailboxSystem.new] at h
  split at h
  · cases h
  · cases h
    exact AList.lookup_empty address

/-- 64MB. -/
def segmentSize : Nat := 64 * 1024 * 1024

def defaultConfig (sys : MailboxSystem) : PersistQ.PersistQConfig where
  storageDir := sys.baseDir
  segmentSize := segmentSize
  numPartitions := 1
  replicationFactor := 1
  cacheConfig := { enabled := false, sizeBytes := 0, hotDataThreshold := .finite 0 }

def mailboxDir (sys : MailboxSystem) (address : String) : String :=
  sys.baseDir ++ "/mailbox_" ++ address.map (fun c => if c = '@' then '_' else c)

def putQueue (sys : MailboxSystem) (address : MailboxAddress) (queue : PersistQ) :
    MailboxSystem :=
  { sys with mailboxes := sys.mailboxes.insert address queue }

@[simp] theorem putQueue_lookup (sys : MailboxSystem) (address : MailboxAddress)
    (queue : PersistQ) : (sys.putQueue address queue).mailboxes.lookup address = some queue :=
  AList.lookup_insert _

theorem putQueue_lookup_ne {address address' : MailboxAddress} (h : address' ≠ address)
    (sys : MailboxSystem) (queue : PersistQ) :
    (sys.putQueue address queue).mailboxes.lookup address' = sys.mailboxes.lookup address' :=
  AList.lookup_insert_ne h

@[simp] theorem putQueue_putQueue (sys : MailboxSystem) (address : MailboxAddress)
    (queue queue' : PersistQ) :
    (sys.putQueue address queue).putQueue address queue' = sys.putQueue address queue' := by
  simp only [putQueue, AList.insert_insert]

def createMailbox (fs : Files) (paths : PersistQ.Paths) (address : String)
    (sys : MailboxSystem) : Except MailboxError Mailbox × MailboxSystem :=
  match MailboxAddress.new address with
  | .error e => (.error e, sys)
  | .ok addr =>
      match sys.mailboxes.lookup addr with
      | some _ => (.error (.invalidAddress ("Mailbox '" ++ address ++ "' already exists")), sys)
      | none =>
          match fs.createDirAll (sys.mailboxDir address) with
          | .error e => (.error (.io e), sys)
          | .ok () =>
              let config := { sys.defaultConfig with storageDir := sys.mailboxDir address }
              match PersistQ.new fs paths config with
              | .error e => (.error (.persistQ e), sys)
              | .ok queue => (.ok { address := addr, readOffset := 0 }, sys.putQueue addr queue)

def getMailbox (address : String) (sys : MailboxSystem) : Except MailboxError (Option Mailbox) :=
  match MailboxAddress.new address with
  | .error e => .error e
  | .ok addr =>
      match sys.mailboxes.lookup addr with
      | none => .ok none
      | some _ => .ok (some { address := addr, readOffset := 0 })

theorem getMailbox_some {address : String} {sys : MailboxSystem} {mailbox : Mailbox}
    (h : sys.getMailbox address = .ok (some mailbox)) :
    mailbox = { address := ⟨address⟩, readOffset := 0 } ∧
      ∃ queue, sys.mailboxes.lookup ⟨address⟩ = some queue := by
  simp only [getMailbox] at h
  split at h
  · cases h
  rename_i addr haddr
  obtain ⟨-, rfl⟩ := MailboxAddress.new_ok haddr
  split at h
  · cases h
  · rename_i queue hlookup
    cases h
    exact ⟨rfl, queue, hlookup⟩

/-- What creating a mailbox does when it succeeds. -/
theorem createMailbox_ok {fs : Files} {paths : PersistQ.Paths} {address : String}
    {sys sys' : MailboxSystem} {mailbox : Mailbox}
    (h : sys.createMailbox fs paths address = (.ok mailbox, sys')) :
    ∃ queue, PersistQ.new fs paths
        { sys.defaultConfig with storageDir := sys.mailboxDir address } = .ok queue ∧
      address.isEmpty = false ∧ mailbox = { address := ⟨address⟩, readOffset := 0 } ∧
      sys' = sys.putQueue ⟨address⟩ queue := by
  rw [createMailbox] at h
  split at h
  · cases h
  rename_i addr haddr
  obtain ⟨hempty, rfl⟩ := MailboxAddress.new_ok haddr
  split at h
  · cases h
  split at h
  · cases h
  dsimp only at h
  split at h
  · cases h
  · rename_i queue hnew
    cases h
    exact ⟨queue, hnew, hempty, rfl, rfl⟩

/-- A mailbox is made only under an address that has none, and otherwise nothing
changes. -/
theorem createMailbox_cases {fs : Files} {paths : PersistQ.Paths} {address : String}
    {sys sys' : MailboxSystem} {answer : Except MailboxError Mailbox}
    (h : sys.createMailbox fs paths address = (answer, sys')) :
    (∃ e, answer = .error e ∧ sys' = sys) ∨
      ∃ mailbox, answer = .ok mailbox ∧ sys.mailboxes.lookup ⟨address⟩ = none := by
  rw [createMailbox] at h
  split at h
  · cases h
    exact Or.inl ⟨_, rfl, rfl⟩
  rename_i addr haddr
  obtain ⟨-, rfl⟩ := MailboxAddress.new_ok haddr
  split at h
  · cases h
    exact Or.inl ⟨_, rfl, rfl⟩
  rename_i hnone
  split at h
  · cases h
    exact Or.inl ⟨_, rfl, rfl⟩
  dsimp only at h
  split at h
  · cases h
    exact Or.inl ⟨_, rfl, rfl⟩
  · cases h
    exact Or.inr ⟨_, rfl, hnone⟩

theorem getMailbox_of_lookup {address : String} {sys : MailboxSystem} {queue : PersistQ}
    (hempty : address.isEmpty = false) (hlookup : sys.mailboxes.lookup ⟨address⟩ = some queue) :
    sys.getMailbox address = .ok (some { address := ⟨address⟩, readOffset := 0 }) := by
  simp only [getMailbox, MailboxAddress.new, hempty, Bool.false_eq_true, if_false, hlookup]

/-- A handle got on a mailbox just made is the handle it was made with. -/
theorem getMailbox_of_createMailbox {fs : Files} {paths : PersistQ.Paths} {address : String}
    {sys sys' : MailboxSystem} {mailbox : Mailbox}
    (h : sys.createMailbox fs paths address = (.ok mailbox, sys')) :
    sys'.getMailbox address = .ok (some mailbox) := by
  obtain ⟨queue, -, hempty, rfl, rfl⟩ := createMailbox_ok h
  exact getMailbox_of_lookup hempty (sys.putQueue_lookup _ queue)

/-- `none` if the append does not return in the rounds allowed, or panics. -/
def routeMessage (J : SerdeJson) (H : Hasher) (call : Call) (message : Message)
    (sys : MailboxSystem) : Option (Except MailboxError String × MailboxSystem) :=
  match sys.mailboxes.lookup message.to_ with
  | none => some (.error (.mailboxNotFound message.to_.address), sys)
  | some queue =>
      match message.toBytes J with
      | .error e => some (.error e, sys)
      | .ok bytes =>
          match queue.append H call.fs call.startTime call.endTime call.rounds bytes with
          | none => none
          | some (none, _) => none
          | some (some outcome, queue) =>
              let answer :=
                match outcome with
                | .error e => .error (.persistQ e)
                | .ok _ => .ok message.id
              some (answer, sys.putQueue message.to_ queue)

end MailboxSystem

/-! ## The handles

A handle sends in its own name, in one of three ways, and receives at an offset of its
own.  The offset has moved on before the message is decoded. -/

namespace Mailbox

/-- The three ways to send, with their arguments. -/
inductive Outgoing where
  | sendTo (to_ : String) (body : List UInt8)
  | sendWithSubject (to_ subject : String) (body : List UInt8)
  | reply (original : Message) (body : List UInt8)

/-- The message that is sent. -/
def compose (mailbox : Mailbox) (id : String) (timestamp : Nat) :
    Outgoing → Except MailboxError Message
  | .sendTo to_ body =>
      match MailboxAddress.new to_ with
      | .error e => .error e
      | .ok toAddr => .ok (Message.new id timestamp mailbox.address toAddr body)
  | .sendWithSubject to_ subject body =>
      match MailboxAddress.new to_ with
      | .error e => .error e
      | .ok toAddr =>
          .ok ((Message.new id timestamp mailbox.address toAddr body).withSubject subject)
  | .reply original body =>
      let toAddr := original.replyTo.getD original.from_
      let subject :=
        match original.subject with
        | some s => "Re: " ++ s
        | none => "Re: (no subject)"
      .ok ((Message.new id timestamp mailbox.address toAddr body).withSubject subject)

/-- The address a send is for. -/
def Outgoing.destination : Outgoing → MailboxAddress
  | .sendTo to_ _ => ⟨to_⟩
  | .sendWithSubject to_ _ _ => ⟨to_⟩
  | .reply original _ =>
      match original.replyTo with
      | some address => address
      | none => original.from_

theorem compose_to_ {sender : Mailbox} {id : String} {timestamp : Nat} {outgoing : Outgoing}
    {m : Message} (h : sender.compose id timestamp outgoing = .ok m) :
    m.to_ = outgoing.destination := by
  cases outgoing with
  | sendTo to_ body =>
      simp only [Mailbox.compose] at h
      split at h
      · cases h
      · rename_i toAddr haddr
        cases h
        exact (MailboxAddress.new_ok haddr).2
  | sendWithSubject to_ subject body =>
      simp only [Mailbox.compose] at h
      split at h
      · cases h
      · rename_i toAddr haddr
        cases h
        exact (MailboxAddress.new_ok haddr).2
  | reply original body =>
      cases h
      show original.replyTo.getD original.from_ = _
      rw [Outgoing.destination]
      cases original.replyTo with
      | none => rfl
      | some address => rfl

def send (J : SerdeJson) (H : Hasher) (call : Call) (outgoing : Outgoing) (mailbox : Mailbox)
    (sys : MailboxSystem) : Option (Except MailboxError String × MailboxSystem) :=
  match mailbox.compose call.id call.timestamp outgoing with
  | .error e => some (.error e, sys)
  | .ok message => sys.routeMessage J H call message

/-- `none` if the read panics. -/
def receive (J : SerdeJson) (startTime endTime : Nat) (sys : MailboxSystem) (mailbox : Mailbox) :
    Option (Except MailboxError (Option Message) × Mailbox) :=
  match sys.mailboxes.lookup mailbox.address with
  | none => none
  | some queue =>
      match queue.read startTime endTime mailbox.readOffset with
      | none => none
      | some (.error e) => some (.error (.persistQ e), mailbox)
      | some (.ok result) =>
          if result.record.data.isEmpty then some (.ok none, mailbox)
          else
            -- the offset moves on before the bytes are decoded
            let mailbox := { mailbox with readOffset := mailbox.readOffset + 1 }
            match Message.fromBytes J result.record.data with
            | .error e => some (.error e, mailbox)
            | .ok message => some (.ok (some message), mailbox)

/-- The next message, without consuming it. -/
def peek (J : SerdeJson) (startTime endTime : Nat) (sys : MailboxSystem) (mailbox : Mailbox) :
    Option (Except MailboxError (Option Message)) :=
  match sys.mailboxes.lookup mailbox.address with
  | none => none
  | some queue =>
      match queue.read startTime endTime mailbox.readOffset with
      | none => none
      | some (.error e) => some (.error (.persistQ e))
      | some (.ok result) =>
          if result.record.data.isEmpty then some (.ok none)
          else
            match Message.fromBytes J result.record.data with
            | .error e => some (.error e)
            | .ok message => some (.ok (some message))

/-- Whether a message is pending, as a number. -/
def pendingCount (startTime endTime : Nat) (sys : MailboxSystem) (mailbox : Mailbox) :
    Option Nat :=
  match sys.mailboxes.lookup mailbox.address with
  | none => none
  | some queue =>
      match queue.read startTime endTime mailbox.readOffset with
      | none => none
      | some (.error _) => some 0
      | some (.ok result) => if result.record.data.isEmpty then some 0 else some 1

end Mailbox

end Dolda
