/-
# `Dolda.Mailbox.Workers` — several handles on one mailbox

Every handle on a mailbox comes from `create_mailbox` or from `get_mailbox`: that
of a worker, that of a processor, for which `register_processor` gets one each
time and whose task receives on it, and that the network server caches.  `Office`
is the system with all handles there are, what was sent with the segment of the
queue it went to, and what was received.  A segment's bytes are changed through
that segment alone here; `Dolda.Mailbox.Sharing` puts the queues on a disk.

**The rule.**  The offset is the handle's, the queue is everyone's.  A handle that
is not behind another of its address receives what none has received before; one
that is behind receives again what the other has.  So in runs whose receives are
made on handles that are not behind (`Meets`) what was received at an address are
the messages of different places in its queue (`run_sound`).
-/
import Dolda.Lib.Positions
import Dolda.PersistQ.Ledger
import Dolda.Mailbox.Delivery

namespace Dolda.Workers

open Delivery (messageOf)
open PersistQ (Entry)
open Positions (Taken)

/-- A message whose send was answered with `Ok`, and the segment of its queue that
was current then. -/
structure Sent where
  message : Message
  segment : Option Nat
deriving DecidableEq

structure Office where
  system : MailboxSystem
  handles : List Mailbox
  sent : List Sent
  received : List (MailboxAddress × Message)

inductive Event where
  | create (fs : Files) (paths : PersistQ.Paths) (address : String)
  | get (address : String)
  | send (call : Call) (sender : Mailbox) (outgoing : Mailbox.Outgoing)
  | receive (handle startTime endTime : Nat)
  | peek (handle startTime endTime : Nat)

/-- What a send that was answered adds to the messages sent. -/
def posted (system : MailboxSystem) (message : Except MailboxError Message)
    (answer : Except MailboxError String) : List Sent :=
  match message, answer with
  | .ok m, .ok _ =>
      let segment :=
        match system.mailboxes.lookup m.to_ with
        | none => none
        | some queue => queue.currentSegment
      [{ message := m, segment }]
  | _, _ => []

namespace Office

def start (system : MailboxSystem) : Office :=
  { system, handles := [], sent := [], received := [] }

/-- The new handle is the last. -/
def create (fs : Files) (paths : PersistQ.Paths) (address : String) (o : Office) :
    Except MailboxError Mailbox × Office :=
  match o.system.createMailbox fs paths address with
  | (.error e, system) => (.error e, { o with system })
  | (.ok mailbox, system) => (.ok mailbox, { o with system, handles := o.handles ++ [mailbox] })

def get (address : String) (o : Office) : Except MailboxError (Option Mailbox) × Office :=
  match o.system.getMailbox address with
  | .error e => (.error e, o)
  | .ok none => (.ok none, o)
  | .ok (some mailbox) => (.ok (some mailbox), { o with handles := o.handles ++ [mailbox] })

def send (J : SerdeJson) (H : Hasher) (call : Call) (sender : Mailbox)
    (outgoing : Mailbox.Outgoing) (o : Office) : Option (Except MailboxError String × Office) :=
  match sender.send J H call outgoing o.system with
  | none => none
  | some (answer, system) =>
      let message := sender.compose call.id call.timestamp outgoing
      some (answer, { o with system, sent := o.sent ++ posted system message answer })

/-- A handle changed, and what it received. -/
def moved (o : Office) (handle : Nat) (mailbox : Mailbox) (messages : List Message) : Office :=
  { o with
    handles := o.handles.set handle mailbox
    received := o.received ++ messages.map (fun m => (mailbox.address, m)) }

/-- `none` if there is no such handle. -/
def receive (J : SerdeJson) (startTime endTime handle : Nat) (o : Office) :
    Option (Except MailboxError (Option Message) × Office) :=
  match o.handles[handle]? with
  | none => none
  | some mailbox =>
      match mailbox.receive J startTime endTime o.system with
      | none => none
      | some (answer, mailbox) => some (answer, o.moved handle mailbox (messageOf answer))

def peek (J : SerdeJson) (startTime endTime handle : Nat) (o : Office) :
    Option (Except MailboxError (Option Message)) :=
  match o.handles[handle]? with
  | none => none
  | some mailbox => mailbox.peek J startTime endTime o.system

/-- What was sent to an address, in order. -/
def sentTo (address : MailboxAddress) (o : Office) : List Sent :=
  o.sent.filter (fun x => x.message.to_ = address)

/-- What the handles of an address received, in order. -/
def receivedAt (address : MailboxAddress) (o : Office) : List Message :=
  (o.received.filter (fun x => x.1 = address)).map Prod.snd

/-- No message sent to an address was received there more often than it was
sent. -/
def AtMostOnce (o : Office) : Prop :=
  ∀ address m, (o.receivedAt address).count m ≤ ((o.sentTo address).map Sent.message).count m

/-- No handle of its address is ahead of this one, and the message at its offset,
if one was sent, is in the queue's first segment. -/
structure Foremost (o : Office) (mailbox : Mailbox) : Prop where
  notBehind : ∀ other ∈ o.handles, other.address = mailbox.address →
    other.readOffset ≤ mailbox.readOffset
  inFirst : ∀ x, (o.sentTo mailbox.address)[mailbox.readOffset]? = some x → x.segment = some 0

end Office

def step (J : SerdeJson) (H : Hasher) (o : Office) : Event → Option Office
  | .create fs paths address => some (o.create fs paths address).2
  | .get address => some (o.get address).2
  | .send call sender outgoing => (o.send J H call sender outgoing).map Prod.snd
  | .receive handle startTime endTime => (o.receive J startTime endTime handle).map Prod.snd
  | .peek handle startTime endTime => (o.peek J startTime endTime handle).map (fun _ => o)

/-- A receive is made on a foremost handle. -/
def Meets (o : Office) : Event → Prop
  | .receive handle _ _ => ∀ mailbox, o.handles[handle]? = some mailbox → o.Foremost mailbox
  | _ => True

/-! ## The invariant -/

section
variable {J : SerdeJson} {H : Hasher} {o o' : Office} {a : MailboxAddress} {queue : PersistQ}
  {entries : List Entry} {mailbox mailbox' : Mailbox} {at_ : List Nat}

/-- The queue of an address holds what was sent there, each message in its
segment. -/
structure Box (J : SerdeJson) (o : Office) (a : MailboxAddress) (queue : PersistQ)
    (entries : List Entry) : Prop where
  lookup : o.system.mailboxes.lookup a = some queue
  keeps : queue.Keeps entries
  encoded : List.Forall₂
    (fun x e => J.toVec x.message = .ok e.payload ∧ x.segment = e.segment) (o.sentTo a) entries

/-- There is no mailbox yet, or its queue holds what was sent. -/
def Kept (J : SerdeJson) (o : Office) (a : MailboxAddress) : Prop :=
  (o.system.mailboxes.lookup a = none ∧ o.sentTo a = []) ∨ ∃ queue entries, Box J o a queue entries

/-- What was received was taken from different places, each behind the offset of
some handle. -/
structure Consumed (o : Office) (a : MailboxAddress) (at_ : List Nat) : Prop where
  nodup : at_.Nodup
  taken : Taken ((o.sentTo a).map Sent.message) at_ (o.receivedAt a)
  behind : ∀ k ∈ at_, ∃ mailbox ∈ o.handles, mailbox.address = a ∧ k < mailbox.readOffset

structure Sound (J : SerdeJson) (o : Office) : Prop where
  kept : ∀ a, Kept J o a
  consumed : ∀ a, ∃ at_, Consumed o a at_

theorem Sound.subperm (h : Sound J o) (a : MailboxAddress) :
    (o.receivedAt a).Subperm ((o.sentTo a).map Sent.message) := by
  obtain ⟨at_, hconsumed⟩ := h.consumed a
  exact hconsumed.taken.subperm hconsumed.nodup

theorem Sound.atMostOnce (h : Sound J o) : o.AtMostOnce :=
  fun a m => (h.subperm a).count_le m

theorem start_sound {fs : Files} {baseDir : String} {system : MailboxSystem}
    (h : MailboxSystem.new fs baseDir = .ok system) : Sound J (.start system) where
  kept a := Or.inl ⟨MailboxSystem.lookup_of_new h a, rfl⟩
  consumed _ := ⟨[], List.nodup_nil, .nil _, fun _ hk => absurd hk List.not_mem_nil⟩

theorem Kept.frame (h : Kept J o a)
    (hlookup : o'.system.mailboxes.lookup a = o.system.mailboxes.lookup a)
    (hsent : o'.sentTo a = o.sentTo a) : Kept J o' a := by
  rcases h with ⟨hnone, hnil⟩ | ⟨queue, entries, hbox⟩
  · exact Or.inl ⟨hlookup.trans hnone, hsent.trans hnil⟩
  · exact Or.inr ⟨queue, entries, hlookup.trans hbox.lookup, hbox.keeps, hsent ▸ hbox.encoded⟩

/-- Handles and messages sent were added, and nothing was received. -/
structure Grown (o o' : Office) : Prop where
  handles : ∃ more, o'.handles = o.handles ++ more
  sent : ∃ more, o'.sent = o.sent ++ more
  received : o'.received = o.received

theorem Grown.refl (o : Office) : Grown o o :=
  ⟨⟨[], (List.append_nil _).symm⟩, ⟨[], (List.append_nil _).symm⟩, rfl⟩

theorem sentTo_of_sent {more : List Sent} (h : o'.sent = o.sent ++ more) :
    o'.sentTo a = o.sentTo a ++ more.filter (fun x => x.message.to_ = a) := by
  rw [Office.sentTo, h, List.filter_append, Office.sentTo]

theorem Consumed.grown (h : Consumed o a at_) (hgrown : Grown o o') : Consumed o' a at_ where
  nodup := h.nodup
  taken := by
    obtain ⟨more, hsent⟩ := hgrown.sent
    rw [sentTo_of_sent hsent, List.map_append, Office.receivedAt, hgrown.received]
    exact h.taken.grow _
  behind := by
    obtain ⟨more, hhandles⟩ := hgrown.handles
    intro k hk
    obtain ⟨mailbox, hmem, hmailbox⟩ := h.behind k hk
    exact ⟨mailbox, hhandles ▸ List.mem_append_left more hmem, hmailbox⟩

/-! ### New handles

A mailbox that is not there yet was never sent to. -/

theorem get_grown (o : Office) (address : String) : Grown o (o.get address).2 := by
  simp only [Office.get]
  split
  · exact .refl o
  · exact .refl o
  · exact ⟨⟨_, rfl⟩, ⟨[], (List.append_nil _).symm⟩, rfl⟩

theorem create_grown (o : Office) (fs : Files) (paths : PersistQ.Paths) (address : String) :
    Grown o (o.create fs paths address).2 := by
  simp only [Office.create]
  split
  · exact ⟨⟨[], (List.append_nil _).symm⟩, ⟨[], (List.append_nil _).symm⟩, rfl⟩
  · exact ⟨⟨_, rfl⟩, ⟨[], (List.append_nil _).symm⟩, rfl⟩

theorem get_some {address : String} (h : o.get address = (.ok (some mailbox), o')) :
    mailbox = { address := ⟨address⟩, readOffset := 0 } ∧
      o' = { o with handles := o.handles ++ [mailbox] } := by
  simp only [Office.get] at h
  split at h
  · cases h
  · cases h
  · rename_i mailbox' hget
    cases h
    exact ⟨(MailboxSystem.getMailbox_some hget).1, rfl⟩

theorem create_ok {fs : Files} {paths : PersistQ.Paths} {address : String}
    (h : o.create fs paths address = (.ok mailbox, o')) :
    mailbox = { address := ⟨address⟩, readOffset := 0 } ∧
      o'.handles = o.handles ++ [mailbox] := by
  simp only [Office.create] at h
  split at h
  · cases h
  · rename_i mailbox' system hcreate
    cases h
    obtain ⟨queue, -, -, hmailbox, -⟩ := MailboxSystem.createMailbox_ok hcreate
    exact ⟨hmailbox, rfl⟩

theorem Kept.get (h : Kept J o a) (address : String) : Kept J (o.get address).2 a := by
  simp only [Office.get]
  split
  · exact h
  · exact h
  · exact h.frame rfl rfl

theorem Kept.sentTo_eq_nil (h : Kept J o a) (hnone : o.system.mailboxes.lookup a = none) :
    o.sentTo a = [] := by
  rcases h with ⟨-, hnil⟩ | ⟨queue, entries, hbox⟩
  · exact hnil
  · cases hnone.symm.trans hbox.lookup

theorem Kept.create (h : Kept J o a) (fs : Files) (paths : PersistQ.Paths) (address : String) :
    Kept J (o.create fs paths address).2 a := by
  cases hcreate : o.system.createMailbox fs paths address with
  | mk answer system =>
      rcases MailboxSystem.createMailbox_cases hcreate with ⟨e, rfl, rfl⟩ | ⟨mailbox, rfl, hnone⟩
      · simp only [Office.create, hcreate]
        exact h
      obtain ⟨queue, hnew, -, -, rfl⟩ := MailboxSystem.createMailbox_ok hcreate
      simp only [Office.create, hcreate]
      by_cases ha : a = ⟨address⟩
      · subst ha
        refine Or.inr ⟨queue, [], o.system.putQueue_lookup _ queue, PersistQ.new_keeps hnew rfl, ?_⟩
        show List.Forall₂ _ (o.sentTo _) []
        rw [h.sentTo_eq_nil hnone]
        exact .nil
      · exact h.frame (MailboxSystem.putQueue_lookup_ne ha _ _) rfl

/-! ### Sends -/

theorem send_grown {call : Call} {sender : Mailbox} {outgoing : Mailbox.Outgoing}
    {answer : Except MailboxError String}
    (hsend : o.send J H call sender outgoing = some (answer, o')) : Grown o o' := by
  simp only [Office.send] at hsend
  split at hsend
  · cases hsend
  · cases hsend
    exact ⟨⟨[], (List.append_nil _).symm⟩, ⟨_, rfl⟩, rfl⟩

theorem posted_putQueue (system : MailboxSystem) (queue : PersistQ) (m : Message) (id : String) :
    posted (system.putQueue m.to_ queue) (.ok m) (.ok id) =
      [{ message := m, segment := queue.currentSegment }] := by
  simp only [posted, MailboxSystem.putQueue_lookup]

theorem posted_other {system : MailboxSystem} {m : Message} (h : m.to_ ≠ a)
    (answer : Except MailboxError String) :
    (posted system (.ok m) answer).filter (fun x => x.message.to_ = a) = [] := by
  cases answer with
  | error e => rfl
  | ok id => exact List.filter_cons_of_neg (by simpa using h)

theorem Kept.route (hsized : J.Sized) (h : Kept J o a) {call : Call} {m : Message}
    {system : MailboxSystem} {answer : Except MailboxError String}
    (hroute : o.system.routeMessage J H call m = some (answer, system)) :
    Kept J { o with system, sent := o.sent ++ posted system (.ok m) answer } a := by
  rcases Delivery.routeMessage_cases hroute with
    ⟨rfl, e, rfl⟩ | ⟨queue, bytes, outcome, queue', hqueue, hbytes, happ, rfl, rfl⟩
  · refine h.frame rfl ((sentTo_of_sent rfl).trans ?_)
    exact List.append_nil _
  by_cases ha : m.to_ = a
  · subst ha
    rcases h with ⟨hnone, -⟩ | ⟨queue'', entries, hbox⟩
    · cases hnone.symm.trans hqueue
    cases hqueue.symm.trans hbox.lookup
    refine Or.inr ⟨queue', _, o.system.putQueue_lookup _ queue',
      hbox.keeps.appended (hsized hbytes) happ, ?_⟩
    rw [sentTo_of_sent rfl]
    refine List.rel_append hbox.encoded ?_
    cases outcome with
    | error e => exact .nil
    | ok result =>
        simp only [posted_putQueue, List.filter_cons, decide_true, if_true]
        exact .cons ⟨hbytes, rfl⟩ .nil
  · refine h.frame (MailboxSystem.putQueue_lookup_ne (Ne.symm ha) _ _) ?_
    rw [sentTo_of_sent rfl, posted_other ha, List.append_nil]

theorem Kept.send (hsized : J.Sized) (h : Kept J o a) {call : Call} {sender : Mailbox}
    {outgoing : Mailbox.Outgoing} {answer : Except MailboxError String}
    (hsend : o.send J H call sender outgoing = some (answer, o')) : Kept J o' a := by
  simp only [Office.send, Mailbox.send] at hsend
  cases hmessage : sender.compose call.id call.timestamp outgoing with
  | error e =>
      simp only [hmessage] at hsend
      cases hsend
      refine h.frame rfl ((sentTo_of_sent rfl).trans ?_)
      exact List.append_nil _
  | ok m =>
      simp only [hmessage] at hsend
      split at hsend
      · cases hsend
      · rename_i answer' system hroute
        cases hsend
        exact h.route hsized hroute

/-! ### Receives

Every payload is the text of a message.  A receive is of the handle's own address and
never moves its offset back, so a handle that moved still has behind it what was behind
it, and the place of a foremost handle was not taken before. -/

theorem receive_forward {system : MailboxSystem} {startTime endTime : Nat}
    {answer : Except MailboxError (Option Message)}
    (h : mailbox.receive J startTime endTime system = some (answer, mailbox')) :
    mailbox'.address = mailbox.address ∧ mailbox.readOffset ≤ mailbox'.readOffset := by
  rw [Mailbox.receive] at h
  split at h
  · cases h
  split at h
  · cases h
  · cases h
    exact ⟨rfl, Nat.le_refl _⟩
  · split at h
    · cases h
      exact ⟨rfl, Nat.le_refl _⟩
    · dsimp only at h
      split at h
      · cases h
        exact ⟨rfl, Nat.le_succ _⟩
      · cases h
        exact ⟨rfl, Nat.le_succ _⟩

theorem Box.payload_text (h : Box J o a queue entries) :
    ∀ e ∈ entries, ∃ m, J.toVec m = .ok e.payload := by
  intro e he
  obtain ⟨k, hlt, rfl⟩ := List.getElem_of_mem he
  have hlt' : k < (o.sentTo a).length := h.encoded.length_eq ▸ hlt
  exact ⟨_, (h.encoded.get hlt' hlt).1⟩

theorem texts_inSegment (h : ∀ e ∈ entries, ∃ m, J.toVec m = .ok e.payload)
    (segment : Option Nat) :
    ∀ text ∈ (entries.filter (fun e => e.segment = segment)).map Entry.payload,
      ∃ m, J.toVec m = .ok text := by
  intro text htext
  obtain ⟨e, he, rfl⟩ := List.mem_map.mp htext
  exact h e (List.mem_of_mem_filter he)

theorem Box.split (h : Box J o a queue entries) {k : Nat} {x : Sent}
    (hx : (o.sentTo a)[k]? = some x) : ∃ before e after, entries = before ++ e :: after ∧
      before.length = k ∧ J.toVec x.message = .ok e.payload ∧ x.segment = e.segment := by
  obtain ⟨hlt, hget⟩ := List.getElem?_eq_some_iff.mp hx
  have hlt' : k < entries.length := h.encoded.length_eq ▸ hlt
  have hrel := h.encoded.get hlt hlt'
  rw [List.get_eq_getElem, List.get_eq_getElem, hget] at hrel
  refine ⟨entries.take k, entries[k], entries.drop (k + 1), ?_, List.length_take_of_le hlt'.le,
    hrel⟩
  rw [List.getElem_cons_drop, List.take_append_drop]

/-- **A receive of a message in the first segment** decodes its text with all that
lies behind it there, which is nothing or begins another message. -/
theorem Box.receive_due (hJ : J.Lawful) (h : Box J o mailbox.address queue entries) {x : Sent}
    (hx : (o.sentTo mailbox.address)[mailbox.readOffset]? = some x) (hfirst : x.segment = some 0)
    (startTime endTime : Nat) :
    ∃ bytes behind, J.toVec x.message = .ok bytes ∧
      (behind = [] ∨ ∃ rest, behind = 0x7B :: rest) ∧
      (mailbox.readOffset + 1 = (o.sentTo mailbox.address).length → behind = []) ∧
      mailbox.receive J startTime endTime o.system = some
        (match Message.fromBytes J (bytes ++ behind) with
          | .error e => .error e
          | .ok message => .ok (some message),
        { mailbox with readOffset := mailbox.readOffset + 1 }) := by
  have htexts := h.payload_text
  have hlength := h.encoded.length_eq
  obtain ⟨before, e, after, rfl, hlen, hbytes, hsegment⟩ := h.split hx
  obtain ⟨rest, hrest⟩ := hJ.object hbytes
  refine ⟨e.payload, PersistQ.inSegment (some 0) after, hbytes, ?_, ?_, ?_⟩
  · have hbehind : ∀ e' ∈ after, ∃ m, J.toVec m = .ok e'.payload :=
      fun e' he' => htexts e' (List.mem_append_right _ (List.mem_cons_of_mem e he'))
    exact hJ.flatten_eq (texts_inSegment hbehind (some 0))
  · intro hlast
    rw [hlength, List.length_append, List.length_cons, hlen] at hlast
    have hnil : after = [] := List.length_eq_zero_iff.mp (by omega)
    rw [hnil]
    rfl
  · have hread := h.keeps.read_first (hsegment ▸ hfirst) (hrest ▸ List.cons_ne_nil _ rest)
      startTime endTime
    have hempty : (e.payload ++ PersistQ.inSegment (some 0) after).isEmpty = false := by
      rw [hrest]
      rfl
    rw [hlen] at hread
    simp only [Mailbox.receive, h.lookup, hread, hempty, Bool.false_eq_true, if_false]
    generalize Message.fromBytes J _ = decoded
    cases decoded with
    | error e => rfl
    | ok m => rfl

/-- **A receive on a foremost handle** returns the message at its offset, and moves
past it, or returns none. -/
theorem Box.receive (hJ : J.Lawful) (h : Box J o mailbox.address queue entries)
    (hfirst : o.Foremost mailbox) {startTime endTime : Nat}
    {answer : Except MailboxError (Option Message)}
    (hreceive : mailbox.receive J startTime endTime o.system = some (answer, mailbox')) :
    messageOf answer = [] ∨
      ∃ x, (o.sentTo mailbox.address)[mailbox.readOffset]? = some x ∧
        messageOf answer = [x.message] ∧ mailbox.readOffset < mailbox'.readOffset := by
  cases hx : (o.sentTo mailbox.address)[mailbox.readOffset]? with
  | none =>
      have hlen : entries.length ≤ mailbox.readOffset := by
        rw [← h.encoded.length_eq]
        exact List.getElem?_eq_none_iff.mp hx
      simp only [Mailbox.receive, h.lookup, h.keeps.read_unmapped hlen] at hreceive
      cases hreceive
      exact Or.inl rfl
  | some x =>
      obtain ⟨bytes, behind, hbytes, hbehind, -, hdue⟩ :=
        h.receive_due hJ hx (hfirst.inFirst x hx) startTime endTime
      cases hreceive.symm.trans hdue
      rcases hbehind with rfl | ⟨rest, rfl⟩
      · rw [List.append_nil, Message.fromBytes, hJ.fromSlice_toVec hbytes]
        exact Or.inr ⟨x, rfl, rfl, Nat.lt_succ_self _⟩
      · -- another message behind it keeps this one from being decoded
        have hfail : ∃ e, J.fromSlice (bytes ++ 0x7B :: rest) = .error e :=
          hJ.trailing hbytes rfl
        obtain ⟨message, hfail⟩ := hfail
        rw [Message.fromBytes, hfail]
        exact Or.inl rfl

theorem Consumed.behind_moved (h : Consumed o a at_) {handle : Nat}
    (hhandle : o.handles[handle]? = some mailbox) (haddress : mailbox'.address = mailbox.address)
    (hforward : mailbox.readOffset ≤ mailbox'.readOffset) : ∀ k ∈ at_,
    ∃ other ∈ o.handles.set handle mailbox', other.address = a ∧ k < other.readOffset := by
  obtain ⟨pre, post, hsplit, hset, -⟩ := Lts.exists_split hhandle
  intro k hk
  obtain ⟨other, hmem, hother, hlt⟩ := h.behind k hk
  rw [hset]
  rw [hsplit] at hmem
  rcases List.mem_append.mp hmem with hmem | hmem
  · exact ⟨other, List.mem_append_left _ hmem, hother, hlt⟩
  rcases List.mem_cons.mp hmem with rfl | hmem
  · exact ⟨mailbox', List.mem_append_right _ List.mem_cons_self, haddress.trans hother,
      lt_of_lt_of_le hlt hforward⟩
  · exact ⟨other, List.mem_append_right _ (List.mem_cons_of_mem _ hmem), hother, hlt⟩

theorem receivedAt_moved (handle : Nat) (messages : List Message) :
    (o.moved handle mailbox messages).receivedAt a =
      o.receivedAt a ++ if mailbox.address = a then messages else [] := by
  simp only [Office.receivedAt, Office.moved, List.filter_append, List.map_append, List.filter_map,
    List.map_map, Function.comp_def]
  refine congrArg _ ?_
  split
  · simp only [*, decide_true, List.filter_true, List.map_id']
  · simp only [*, decide_false, List.filter_false, List.map_nil]

theorem Consumed.moved (h : Consumed o a at_) {handle : Nat}
    (hhandle : o.handles[handle]? = some mailbox) (haddress : mailbox'.address = mailbox.address)
    (hforward : mailbox.readOffset ≤ mailbox'.readOffset) {messages : List Message}
    (hnone : mailbox.address = a → messages = []) :
    Consumed (o.moved handle mailbox' messages) a at_ where
  nodup := h.nodup
  taken := by
    rw [receivedAt_moved, haddress]
    split
    · rw [hnone ‹_›, List.append_nil]
      exact h.taken
    · rw [List.append_nil]
      exact h.taken
  behind := h.behind_moved hhandle haddress hforward

theorem Consumed.not_mem (h : Consumed o mailbox.address at_) (hfirst : o.Foremost mailbox) :
    mailbox.readOffset ∉ at_ := by
  intro hk
  obtain ⟨other, hmem, hother, hlt⟩ := h.behind _ hk
  have hle := hfirst.notBehind other hmem hother
  omega

theorem Consumed.received (h : Consumed o mailbox.address at_) (hfirst : o.Foremost mailbox)
    {handle : Nat} (hhandle : o.handles[handle]? = some mailbox)
    (haddress : mailbox'.address = mailbox.address)
    (hforward : mailbox.readOffset < mailbox'.readOffset) {x : Sent}
    (hx : (o.sentTo mailbox.address)[mailbox.readOffset]? = some x) :
    Consumed (o.moved handle mailbox' [x.message]) mailbox.address
      (at_ ++ [mailbox.readOffset]) where
  nodup := h.nodup.append (List.nodup_singleton _) (by simpa using h.not_mem hfirst)
  taken := by
    rw [receivedAt_moved, if_pos haddress]
    refine h.taken.snoc ?_
    rw [List.getElem?_map, hx]
    rfl
  behind := by
    intro k hk
    rcases List.mem_append.mp hk with hk | hk
    · exact h.behind_moved hhandle haddress (Nat.le_of_lt hforward) k hk
    · cases List.mem_singleton.mp hk
      have hlt := (List.getElem?_eq_some_iff.mp hhandle).1
      exact ⟨mailbox', List.mem_set hlt _, haddress, hforward⟩

/-- What a receive does to the office. -/
theorem receive_moved {handle startTime endTime : Nat}
    {answer : Except MailboxError (Option Message)}
    (h : o.receive J startTime endTime handle = some (answer, o')) :
    ∃ mailbox mailbox', o.handles[handle]? = some mailbox ∧
      mailbox.receive J startTime endTime o.system = some (answer, mailbox') ∧
      o' = o.moved handle mailbox' (messageOf answer) := by
  simp only [Office.receive] at h
  split at h
  · cases h
  rename_i mailbox hhandle
  split at h
  · cases h
  rename_i answer' mailbox' hmailbox
  cases h
  exact ⟨mailbox, mailbox', hhandle, hmailbox, rfl⟩

theorem Kept.receive (h : Kept J o a) {handle startTime endTime : Nat}
    {answer : Except MailboxError (Option Message)}
    (hreceive : o.receive J startTime endTime handle = some (answer, o')) : Kept J o' a := by
  obtain ⟨mailbox, mailbox', -, -, rfl⟩ := receive_moved hreceive
  exact h.frame rfl rfl

theorem Consumed.receive (hJ : J.Lawful) (h : Consumed o a at_) (hkept : Kept J o a)
    {handle startTime endTime : Nat} {answer : Except MailboxError (Option Message)}
    (hmeets : ∀ mailbox, o.handles[handle]? = some mailbox → o.Foremost mailbox)
    (hreceive : o.receive J startTime endTime handle = some (answer, o')) :
    ∃ at_, Consumed o' a at_ := by
  obtain ⟨mailbox, mailbox', hhandle, hmailbox, rfl⟩ := receive_moved hreceive
  obtain ⟨haddress, hforward⟩ := receive_forward hmailbox
  by_cases hmine : mailbox.address = a
  · subst hmine
    have hfirst := hmeets mailbox hhandle
    rcases hkept with ⟨hnone, -⟩ | ⟨queue, entries, hbox⟩
    · simp only [Mailbox.receive, hnone] at hmailbox
      cases hmailbox
    rcases hbox.receive hJ hfirst hmailbox with hnil | ⟨x, hx, hmessage, hlt⟩
    · exact ⟨at_, h.moved hhandle haddress hforward (fun _ => hnil)⟩
    · rw [hmessage]
      exact ⟨_, h.received hfirst hhandle haddress hlt hx⟩
  · exact ⟨at_, h.moved hhandle haddress hforward (fun hmine' => absurd hmine' hmine)⟩

/-! ### Runs -/

theorem Kept.step (hsized : J.Sized) (h : Kept J o a) {event : Event}
    (hstep : step J H o event = some o') : Kept J o' a := by
  cases event with
  | create fs paths address =>
      cases hstep
      exact h.create fs paths address
  | get address =>
      cases hstep
      exact h.get address
  | send call sender outgoing =>
      obtain ⟨⟨answer, o''⟩, hsend, rfl⟩ := Option.map_eq_some_iff.mp hstep
      exact h.send hsized hsend
  | receive handle startTime endTime =>
      obtain ⟨⟨answer, o''⟩, hreceive, rfl⟩ := Option.map_eq_some_iff.mp hstep
      exact h.receive hreceive
  | peek handle startTime endTime =>
      obtain ⟨answer, -, rfl⟩ := Option.map_eq_some_iff.mp hstep
      exact h

theorem Sound.step (hJ : J.Lawful) (hsized : J.Sized) (h : Sound J o) {event : Event}
    (hmeets : Meets o event) (hstep : step J H o event = some o') : Sound J o' := by
  refine ⟨fun a => (h.kept a).step hsized hstep, ?_⟩
  intro a
  obtain ⟨at_, hconsumed⟩ := h.consumed a
  cases event with
  | create fs paths address =>
      cases hstep
      exact ⟨at_, hconsumed.grown (create_grown o fs paths address)⟩
  | get address =>
      cases hstep
      exact ⟨at_, hconsumed.grown (get_grown o address)⟩
  | send call sender outgoing =>
      obtain ⟨⟨answer, o''⟩, hsend, rfl⟩ := Option.map_eq_some_iff.mp hstep
      exact ⟨at_, hconsumed.grown (send_grown hsend)⟩
  | receive handle startTime endTime =>
      obtain ⟨⟨answer, o''⟩, hreceive, rfl⟩ := Option.map_eq_some_iff.mp hstep
      exact hconsumed.receive hJ (h.kept a) hmeets hreceive
  | peek handle startTime endTime =>
      obtain ⟨answer, -, rfl⟩ := Option.map_eq_some_iff.mp hstep
      exact ⟨at_, hconsumed⟩

theorem run_sound (hJ : J.Lawful) (hsized : J.Sized) {fs : Files} {baseDir : String}
    {system : MailboxSystem} (hnew : MailboxSystem.new fs baseDir = .ok system)
    {events : List Event} (hmeets : Lts.Guarded (step J H) Meets (.start system) events)
    (hrun : Lts.run (step J H) (.start system) events = some o) : Sound J o :=
  hmeets.invariant (Sound J) (fun h hok hstep => h.step hJ hsized hok hstep) (start_sound hnew) hrun

end

/-! ### Two workers -/

section
open Delivery (bob alice letter letterText firstId freshCall twoLetters emptySystem)

theorem twoLetters_sized : twoLetters.Sized := fun h =>
  (Delivery.twoLetters_length h).trans (by decide)

/-- A mailbox with a second handle on it. -/
def hire : List Event :=
  [.create .fresh .plain "bob@dolda", .get "bob@dolda"]

def sendLetter : Event :=
  .send (freshCall 0 1 1700000000000000 firstId) alice (.sendTo "bob@dolda" [65])

/-- A handle that received the letter. -/
def bobServed : Mailbox := { bob with readOffset := 1 }

theorem receive_letter {o : Office} (hkept : Kept twoLetters o bob.address)
    (hsent : o.sent = [⟨letter firstId 65, some 0⟩]) {handle : Nat}
    (hhandle : o.handles[handle]? = some bob) (startTime endTime : Nat) :
    o.receive twoLetters startTime endTime handle =
      some (.ok (some (letter firstId 65)), o.moved handle bobServed [letter firstId 65]) := by
  have hsentTo : o.sentTo bob.address = [⟨letter firstId 65, some 0⟩] := by
    rw [Office.sentTo, hsent]
    decide +kernel
  rcases hkept with ⟨-, hnil⟩ | ⟨queue, entries, hbox⟩
  · cases hsentTo.symm.trans hnil
  have hdue : (o.sentTo bob.address)[bob.readOffset]? = some ⟨letter firstId 65, some 0⟩ := by
    rw [hsentTo]
    rfl
  obtain ⟨bytes, behind, hbytes, -, hlast, hreceive⟩ :=
    hbox.receive_due Delivery.twoLetters_lawful hdue rfl startTime endTime
  rw [hlast (by rw [hsentTo]; rfl), List.append_nil, Message.fromBytes,
    Delivery.twoLetters_lawful.fromSlice_toVec hbytes] at hreceive
  simp only [Office.receive, hhandle, hreceive]
  rfl

theorem step_letter {o : Office} (hkept : Kept twoLetters o bob.address)
    (hsent : o.sent = [⟨letter firstId 65, some 0⟩]) {handle : Nat}
    (hhandle : o.handles[handle]? = some bob) (startTime endTime : Nat) :
    step twoLetters crc32Hasher o (.receive handle startTime endTime) =
      some (o.moved handle bobServed [letter firstId 65]) := by
  simp only [step, receive_letter hkept hsent hhandle, Option.map_some]

theorem emptySystem_new : MailboxSystem.new Files.fresh "/data" = .ok emptySystem := rfl

end

end Dolda.Workers
