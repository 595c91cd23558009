/-
# `Dolda.Mailbox.Delivery` — what a mailbox delivers

Sends by any handles, mixed in any order with receives on one handle of one
mailbox.  `Traffic` is the system and the handle together with what was sent to
the mailbox, what the handle received, and for each receive the message that was
due then with the answer.  A queue's bytes are its own here, as they are if no send
is to another mailbox in the same directory (`Traffic.Aside`).

**The rule.**  A receive decodes all that the first segment of the mailbox's
queue holds from the message's place on.  So it delivers the message due exactly
as it was sent as long as that message is the last in the first segment
(`LastInFirstSegment`), and runs whose receives all meet this deliver in order
(`delivered_in_order`); with two messages pending in the first segment it fails,
and the first is lost (`receive_fails`).
-/
import Dolda.Lib.Lts
import Dolda.Mailbox.System

namespace Dolda.Delivery

open NextFit (Packing)
open PersistQ (AppendResult)

inductive Event where
  | send (call : Call) (sender : Mailbox) (outgoing : Mailbox.Outgoing)
  | receive (startTime endTime : Nat)

structure Traffic where
  system : MailboxSystem
  mailbox : Mailbox
  sent : List Message
  received : List Message
  answers : List (Option Message × Except MailboxError (Option Message))

namespace Traffic

/-- Before the first send and the first receive. -/
def start (mailbox : Mailbox) (system : MailboxSystem) : Traffic :=
  { system, mailbox, sent := [], received := [], answers := [] }

/-- The oldest message sent and not yet received. -/
def due (t : Traffic) : Option Message := t.sent[t.received.length]?

end Traffic

/-- The message of a send to an address that was answered with `Ok`. -/
def sentTo (address : MailboxAddress) (message : Except MailboxError Message)
    (answer : Except MailboxError String) : List Message :=
  match message, answer with
  | .ok m, .ok _ => if m.to_ = address then [m] else []
  | _, _ => []

/-- The message of a receive that returned one. -/
def messageOf : Except MailboxError (Option Message) → List Message
  | .ok (some m) => [m]
  | _ => []

def step (J : SerdeJson) (H : Hasher) (t : Traffic) : Event → Option Traffic
  | .send call sender outgoing =>
      match sender.send J H call outgoing t.system with
      | none => none
      | some (answer, system) =>
          let message := sender.compose call.id call.timestamp outgoing
          some { t with system, sent := t.sent ++ sentTo t.mailbox.address message answer }
  | .receive startTime endTime =>
      match t.mailbox.receive J startTime endTime t.system with
      | none => none
      | some (answer, mailbox) =>
          some
            { t with
              mailbox
              received := t.received ++ messageOf answer
              answers := t.answers ++ [(t.due, answer)] }

/-- Every receive made while a message was due returned that message, and what
was received is what was sent first. -/
structure Traffic.Delivered (t : Traffic) : Prop where
  answered : ∀ p ∈ t.answers, ∀ m, p.1 = some m → p.2 = .ok (some m)
  inOrder : t.received <+: t.sent

/-- A message for the mailbox is no longer than a segment. -/
def Event.Fits (J : SerdeJson) (address : MailboxAddress) : Event → Prop
  | .send call sender outgoing => ∀ m bytes,
      sender.compose call.id call.timestamp outgoing = .ok m → m.to_ = address →
        J.toVec m = .ok bytes → bytes.length ≤ MailboxSystem.segmentSize
  | .receive _ _ => True

def encodedLength (J : SerdeJson) (m : Message) : Nat :=
  match J.toVec m with
  | .error _ => 0
  | .ok bytes => bytes.length

/-- The message due is the last in the first segment: up to it the messages sent
fit one segment together, and there is none after it or the next does not fit. -/
def Traffic.LastInFirstSegment (J : SerdeJson) (t : Traffic) : Prop :=
  let lengths := t.sent.map (encodedLength J)
  let k := t.received.length
  (lengths.take (k + 1)).sum ≤ MailboxSystem.segmentSize ∧
    (k + 1 = lengths.length ∨ MailboxSystem.segmentSize < (lengths.take (k + 2)).sum)

/-- The address is the mailbox's own, or that of one in another directory. -/
def Traffic.Aside (t : Traffic) (address : MailboxAddress) : Prop :=
  address = t.mailbox.address ∨ ∀ queue queue',
    t.system.mailboxes.lookup t.mailbox.address = some queue →
      t.system.mailboxes.lookup address = some queue' →
        queue'.config.storageDir ≠ queue.config.storageDir

/-- A send to another mailbox leaves the files of this one alone, and a receive made
while a message is due finds it the last in the first segment. -/
def Meets (J : SerdeJson) (t : Traffic) : Event → Prop
  | .send _ _ outgoing => t.Aside outgoing.destination
  | .receive _ _ => ∀ m, t.due = some m → t.LastInFirstSegment J

/-! ## The invariant -/

section
variable {J : SerdeJson} {H : Hasher} {t t' : Traffic} {queue : PersistQ}
  {acked : List (AppendResult × List UInt8)}

/-- The mailbox's queue holds the encodings of what was sent, and the handle's
offset is the number of messages it received. -/
structure Serves (J : SerdeJson) (H : Hasher) (t : Traffic) (queue : PersistQ)
    (acked : List (AppendResult × List UInt8)) : Prop where
  lookup : t.system.mailboxes.lookup t.mailbox.address = some queue
  segmentSize : queue.config.segmentSize = MailboxSystem.segmentSize
  numPartitions : queue.config.numPartitions = 1
  holds : queue.Holds H acked
  encoded : List.Forall₂ (fun m a => J.toVec m = .ok a.2) t.sent acked
  readOffset : t.mailbox.readOffset = t.received.length
  delivered : t.Delivered

theorem createMailbox_serves {fs : Files} {paths : PersistQ.Paths} {address : String}
    {sys sys' : MailboxSystem} {mailbox : Mailbox}
    (h : sys.createMailbox fs paths address = (.ok mailbox, sys')) :
    ∃ queue, Serves J H (.start mailbox sys') queue [] := by
  obtain ⟨queue, hnew, -, rfl, rfl⟩ := MailboxSystem.createMailbox_ok h
  obtain ⟨hholds, -, path, hconfig⟩ := PersistQ.new_holds (H := H) hnew
  exact ⟨queue, sys.putQueue_lookup _ queue, by rw [hconfig]; rfl, by rw [hconfig]; rfl, hholds,
    .nil, rfl, nofun, List.prefix_rfl⟩

/-! ### Sends

A message routed to the mailbox and acknowledged goes behind those sent before. -/

/-- What routing a message can do. -/
theorem routeMessage_cases {call : Call} {m : Message} {sys sys' : MailboxSystem}
    {answer : Except MailboxError String}
    (h : sys.routeMessage J H call m = some (answer, sys')) :
    (sys' = sys ∧ ∃ e, answer = .error e) ∨
      ∃ q bytes outcome q', sys.mailboxes.lookup m.to_ = some q ∧ J.toVec m = .ok bytes ∧
        q.append H call.fs call.startTime call.endTime call.rounds bytes
          = some (some outcome, q') ∧
        sys' = sys.putQueue m.to_ q' ∧
        answer = match outcome with
          | .error e => .error (.persistQ e)
          | .ok _ => .ok m.id := by
  simp only [MailboxSystem.routeMessage, Message.toBytes] at h
  cases hlookup : sys.mailboxes.lookup m.to_ with
  | none =>
      rw [hlookup] at h
      cases h
      exact Or.inl ⟨rfl, _, rfl⟩
  | some q =>
      cases hbytes : J.toVec m with
      | error e =>
          rw [hlookup, hbytes] at h
          cases h
          exact Or.inl ⟨rfl, _, rfl⟩
      | ok bytes =>
          simp only [hlookup, hbytes] at h
          split at h
          · cases h
          · cases h
          · rename_i outcome q' happ
            cases h
            exact Or.inr ⟨q, bytes, outcome, q', rfl, rfl, happ, rfl, rfl⟩

theorem sentTo_other {m : Message} {address : MailboxAddress}
    {answer : Except MailboxError String} (h : m.to_ ≠ address) :
    sentTo address (.ok m) answer = [] := by
  cases answer with
  | error e => rfl
  | ok id => exact if_neg h

theorem Serves.route (h : Serves J H t queue acked) {call : Call} {m : Message}
    {sys' : MailboxSystem} {answer : Except MailboxError String}
    (hfits : ∀ bytes, m.to_ = t.mailbox.address → J.toVec m = .ok bytes →
      bytes.length ≤ MailboxSystem.segmentSize)
    (hroute : t.system.routeMessage J H call m = some (answer, sys')) :
    ∃ queue' acked', Serves J H
      { t with system := sys', sent := t.sent ++ sentTo t.mailbox.address (.ok m) answer }
      queue' acked' := by
  rcases routeMessage_cases hroute with
    ⟨rfl, e, rfl⟩ | ⟨q, bytes, outcome, q', hq, hbytes, happ, rfl, rfl⟩
  · simp only [sentTo, List.append_nil]
    exact ⟨queue, acked, h⟩
  by_cases haddr : m.to_ = t.mailbox.address
  · rw [haddr, h.lookup] at hq
    cases hq
    obtain ⟨hconfig, hholds⟩ :=
      h.holds.appended (h.segmentSize ▸ hfits bytes haddr hbytes) happ
    refine ⟨q', acked ++ PersistQ.acknowledged bytes (some outcome), ?_, hconfig ▸ h.segmentSize,
      hconfig ▸ h.numPartitions, hholds, ?_, h.readOffset, h.delivered.answered, ?_⟩
    · rw [← haddr]
      exact t.system.putQueue_lookup m.to_ q'
    · cases outcome with
      | error e => simpa only [sentTo, PersistQ.acknowledged, List.append_nil] using h.encoded
      | ok result =>
          simp only [sentTo, if_pos haddr]
          exact List.rel_append h.encoded (.cons hbytes .nil)
    · exact h.delivered.inOrder.trans (List.prefix_append _ _)
  · rw [sentTo_other haddr, List.append_nil]
    refine ⟨queue, acked, ?_, h.segmentSize, h.numPartitions, h.holds, h.encoded, h.readOffset,
      h.delivered.answered, h.delivered.inOrder⟩
    exact (MailboxSystem.putQueue_lookup_ne (Ne.symm haddr) _ _).trans h.lookup

/-- **A send** by any handle, to any address. -/
theorem Serves.send (h : Serves J H t queue acked) {call : Call} {sender : Mailbox}
    {outgoing : Mailbox.Outgoing}
    (hfits : Event.Fits J t.mailbox.address (.send call sender outgoing))
    (hstep : step J H t (.send call sender outgoing) = some t') :
    t'.mailbox = t.mailbox ∧ ∃ queue' acked', Serves J H t' queue' acked' := by
  simp only [step, Mailbox.send] at hstep
  cases hmessage : sender.compose call.id call.timestamp outgoing with
  | error e =>
      simp only [hmessage, sentTo, List.append_nil] at hstep
      cases hstep
      exact ⟨rfl, queue, acked, h⟩
  | ok m =>
      simp only [hmessage] at hstep
      split at hstep
      · cases hstep
      rename_i answer sys' hroute
      cases hstep
      exact ⟨rfl, h.route (fun bytes => hfits m bytes hmessage) hroute⟩

/-! ### Receives

The message due stands at the handle's place in the queue, with what the first segment
holds from there on; with nothing due a receive finds no global offset. -/

/-- The bytes of the messages sent, as the queue packs them. -/
def packed (acked : List (AppendResult × List UInt8)) : Packing UInt8 :=
  NextFit.pack MailboxSystem.segmentSize .empty (acked.map Prod.snd)

theorem packed_drop_first {before : List (AppendResult × List UInt8)} {bytes : List UInt8}
    (result : AppendResult) (after : List (AppendResult × List UInt8))
    (hfit : (before.map Prod.snd).flatten.length + bytes.length ≤ MailboxSystem.segmentSize) :
    ∃ mid rest, after.map Prod.snd = mid ++ rest ∧
      (packed (before ++ (result, bytes) :: after)).first.drop
        (NextFit.slot MailboxSystem.segmentSize (packed before) bytes) = bytes ++ mid.flatten ∧
      (before.map Prod.snd ++ bytes :: mid).flatten.length ≤ MailboxSystem.segmentSize ∧
      ∀ e es, rest = e :: es → MailboxSystem.segmentSize <
        (before.map Prod.snd ++ bytes :: mid).flatten.length + e.length := by
  rw [packed, packed, List.map_append, List.map_cons]
  exact NextFit.drop_first (after.map Prod.snd) hfit

theorem Serves.packed_eq (h : Serves J H t queue acked)
    (acked' : List (AppendResult × List UInt8)) :
    PersistQ.packed H queue 1 acked' = packed acked' := by
  rw [PersistQ.packed, h.numPartitions, PersistQ.inPartition_one, h.segmentSize, packed]

theorem Serves.split_due (h : Serves J H t queue acked) {m : Message} (hdue : t.due = some m) :
    ∃ before result bytes after, acked = before ++ (result, bytes) :: after ∧
      before.length = t.received.length ∧ J.toVec m = .ok bytes := by
  obtain ⟨hlt, hget⟩ := List.getElem?_eq_some_iff.mp hdue
  have hlt' : t.received.length < acked.length := h.encoded.length_eq ▸ hlt
  have hrel := h.encoded.get hlt hlt'
  refine ⟨acked.take t.received.length, acked[t.received.length].1, acked[t.received.length].2,
    acked.drop (t.received.length + 1), ?_, List.length_take_of_le hlt'.le, ?_⟩
  · rw [Prod.mk.eta, List.getElem_cons_drop, List.take_append_drop]
  · rwa [List.get_eq_getElem, List.get_eq_getElem, hget] at hrel

/-- **A receive while a message is due** decodes what the first segment holds from
the message's place on, and moves on whatever that is. -/
theorem Serves.receive_due {before after : List (AppendResult × List UInt8)}
    {result : AppendResult} {bytes data : List UInt8}
    (h : Serves J H t queue (before ++ (result, bytes) :: after))
    (hlen : before.length = t.received.length)
    (hdrop : (packed (before ++ (result, bytes) :: after)).first.drop
      (NextFit.slot MailboxSystem.segmentSize (packed before) bytes) = data)
    (hdata : data ≠ []) (startTime endTime : Nat) :
    t.mailbox.receive J startTime endTime t.system = some
      (match Message.fromBytes J data with
        | .error e => .error e
        | .ok m => .ok (some m),
      { t.mailbox with readOffset := t.mailbox.readOffset + 1 }) := by
  have hloc := h.holds.located before result bytes after rfl
  have hoffset : t.mailbox.readOffset = result.globalOffset := by
    rw [h.readOffset, hloc.globalOffset, hlen]
  have hread := h.holds.read hloc startTime endTime
  dsimp only at hread
  rw [PersistQ.localOffset, h.numPartitions, PersistQ.partition_one, h.packed_eq, h.packed_eq,
    h.segmentSize, hdrop] at hread
  subst hdrop
  rw [if_neg (fun hle => hdata (List.drop_eq_nil_of_le hle)), ← hoffset] at hread
  simp only [Mailbox.receive, h.lookup, hread, List.isEmpty_eq_false_iff.mpr hdata,
    Bool.false_eq_true, if_false]
  generalize Message.fromBytes J _ = decoded
  cases decoded with
  | error e => rfl
  | ok m => rfl

/-- With nothing due a receive finds no global offset, and stays where it is. -/
theorem Serves.receive_idle (h : Serves J H t queue acked) (hdue : t.due = none)
    (startTime endTime : Nat) :
    t.mailbox.receive J startTime endTime t.system = some
      (.error (.persistQ ("Global offset " ++ toString t.mailbox.readOffset ++ " not found")),
        t.mailbox) := by
  have hlen : acked.length ≤ t.mailbox.readOffset := by
    rw [h.readOffset, ← h.encoded.length_eq]
    exact List.getElem?_eq_none_iff.mp hdue
  simp only [Mailbox.receive, h.lookup, h.holds.read_unmapped hlen]

/-! ### The last in the first segment

The condition is on lengths, so it can be read off the messages; that what the first
segment holds from the due message on is that message alone follows from the packing.
Where another text is behind it, the serializer rejects both together. -/

theorem lengths_of_encoded {sent : List Message} {acked : List (AppendResult × List UInt8)}
    (h : List.Forall₂ (fun m a => J.toVec m = .ok a.2) sent acked) :
    sent.map (encodedLength J) = (acked.map Prod.snd).map List.length := by
  induction h with
  | nil => rfl
  | cons hbytes _ ih =>
      rw [List.map_cons, List.map_cons, List.map_cons, ih, encodedLength, hbytes]

theorem Serves.lastInFirstSegment_iff {before after : List (AppendResult × List UInt8)}
    {result : AppendResult} {bytes : List UInt8}
    (h : Serves J H t queue (before ++ (result, bytes) :: after))
    (hlen : before.length = t.received.length) :
    t.LastInFirstSegment J ↔
      (before.map Prod.snd).flatten.length + bytes.length ≤ MailboxSystem.segmentSize ∧
        ∀ e es, after.map Prod.snd = e :: es → MailboxSystem.segmentSize <
          (before.map Prod.snd).flatten.length + bytes.length + e.length := by
  have hlengths := lengths_of_encoded h.encoded
  rw [List.map_append, List.map_append, List.map_cons, List.map_cons] at hlengths
  have hk : t.received.length = ((before.map Prod.snd).map List.length).length := by
    rw [List.length_map, List.length_map, hlen]
  rw [Traffic.LastInFirstSegment, hlengths, hk, List.take_length_add_append,
    List.take_length_add_append, List.take_succ_cons, List.take_zero, List.sum_append,
    List.sum_singleton, ← List.length_flatten]
  refine and_congr_right ?_
  intro _
  cases after with
  | nil =>
      refine iff_of_true (Or.inl ?_) nofun
      rw [List.length_append]
      rfl
  | cons a after =>
      have hlast : ¬ ((before.map Prod.snd).map List.length).length + 1 =
          ((before.map Prod.snd).map List.length ++
            bytes.length :: ((a :: after).map Prod.snd).map List.length).length := by
        simp only [List.length_append, List.length_cons, List.length_map]
        omega
      rw [or_iff_right hlast, List.map_cons, List.map_cons, List.take_succ_cons,
        List.take_succ_cons, List.take_zero, List.sum_append, List.sum_cons, List.sum_singleton,
        ← List.length_flatten, ← Nat.add_assoc]
      constructor
      · rintro hnext e es ⟨⟩
        exact hnext
      · intro hnext
        exact hnext a.2 _ rfl

theorem toVec_ne_nil (hJ : J.Lawful) {m : Message} {bytes : List UInt8}
    (h : J.toVec m = .ok bytes) : bytes ≠ [] := by
  obtain ⟨rest, rfl⟩ := hJ.object h
  exact List.cons_ne_nil _ rest

/-- The traffic after a receive. -/
def Traffic.after (t : Traffic) (answer : Except MailboxError (Option Message))
    (mailbox : Mailbox) : Traffic :=
  { t with
    mailbox
    received := t.received ++ messageOf answer
    answers := t.answers ++ [(t.due, answer)] }

theorem step_receive {startTime endTime : Nat} {answer : Except MailboxError (Option Message)}
    {mailbox : Mailbox}
    (h : t.mailbox.receive J startTime endTime t.system = some (answer, mailbox)) :
    step J H t (.receive startTime endTime) = some (t.after answer mailbox) := by
  simp only [step, h, Traffic.after]

/-- A receive that answers with the message due, or has none due and answers with
none, keeps delivery right. -/
theorem Traffic.Delivered.after (h : t.Delivered)
    {answer : Except MailboxError (Option Message)} (mailbox : Mailbox)
    (hdue : ∀ m, t.due = some m → answer = .ok (some m))
    (hidle : t.due = none → messageOf answer = []) : (t.after answer mailbox).Delivered where
  answered := by
    intro p hp m hm
    rcases List.mem_append.mp hp with hp | hp
    · exact h.answered p hp m hm
    · cases List.mem_singleton.mp hp
      exact hdue m hm
  inOrder := by
    show t.received ++ messageOf answer <+: t.sent
    cases hm : t.due with
    | none =>
        rw [hidle hm, List.append_nil]
        exact h.inOrder
    | some m =>
        rw [hdue m hm]
        show t.received ++ [m] <+: t.sent
        rw [List.prefix_iff_eq_take, List.length_append, List.length_singleton,
          List.take_add_one, ← List.prefix_iff_eq_take.mp h.inOrder]
        exact congrArg _ (congrArg Option.toList hm).symm

/-- **A receive** that meets the condition delivers the message due, and one with
nothing due changes nothing. -/
theorem Serves.receive (hJ : J.Lawful) (h : Serves J H t queue acked) {startTime endTime : Nat}
    (hmeets : Meets J t (.receive startTime endTime)) :
    ∃ answer mailbox', step J H t (.receive startTime endTime) = some (t.after answer mailbox') ∧
      mailbox'.address = t.mailbox.address ∧ messageOf answer = t.due.toList ∧
      Serves J H (t.after answer mailbox') queue acked := by
  cases hdue : t.due with
  | none =>
      refine ⟨_, _, step_receive (h.receive_idle hdue startTime endTime), rfl, rfl, h.lookup,
        h.segmentSize, h.numPartitions, h.holds, h.encoded, ?_, ?_⟩
      · show t.mailbox.readOffset = (t.received ++ []).length
        rw [h.readOffset, List.append_nil]
      · refine h.delivered.after _ ?_ (fun _ => rfl)
        intro m hm
        cases hdue.symm.trans hm
  | some m =>
      obtain ⟨before, result, bytes, after, rfl, hlen, hbytes⟩ := h.split_due hdue
      obtain ⟨hfit, hnext⟩ := (h.lastInFirstSegment_iff hlen).mp (hmeets m hdue)
      obtain ⟨mid, rest, hafter, hdrop, hfit', -⟩ := packed_drop_first result after hfit
      -- nothing else lies behind the message in the first segment
      have hmid : mid = [] := by
        cases mid with
        | nil => rfl
        | cons e es =>
            have hover := hnext e (es ++ rest) hafter
            rw [List.flatten_append, List.flatten_cons, List.flatten_cons, List.length_append,
              List.length_append, List.length_append] at hfit'
            omega
      subst hmid
      rw [List.flatten_nil, List.append_nil] at hdrop
      have hreceive := h.receive_due hlen hdrop (toVec_ne_nil hJ hbytes) startTime endTime
      rw [Message.fromBytes, hJ.fromSlice_toVec hbytes] at hreceive
      refine ⟨_, _, step_receive hreceive, rfl, rfl, h.lookup, h.segmentSize, h.numPartitions,
        h.holds, h.encoded, ?_, ?_⟩
      · show t.mailbox.readOffset + 1 = (t.received ++ [m]).length
        rw [h.readOffset, List.length_append, List.length_singleton]
      · refine h.delivered.after _ ?_ ?_
        · intro m' hm'
          cases hdue.symm.trans hm'
          rfl
        · intro hnone
          cases hnone.symm.trans hdue

theorem encoded_of_mem {sent : List Message} {acked : List (AppendResult × List UInt8)}
    (h : List.Forall₂ (fun m a => J.toVec m = .ok a.2) sent acked) :
    ∀ bytes ∈ acked.map Prod.snd, ∃ m, J.toVec m = .ok bytes := by
  induction h with
  | nil => exact nofun
  | @cons m a sent acked hbytes _ ih =>
      intro bytes hmem
      rcases List.mem_cons.mp hmem with rfl | hmem
      · exact ⟨m, hbytes⟩
      · exact ih bytes hmem

/-- **A receive fails** if the message due is in the first segment and is not the
last there.  The offset moves on all the same, so the message is lost. -/
theorem Serves.receive_fails (hJ : J.Lawful) {before after : List (AppendResult × List UInt8)}
    {result : AppendResult} {bytes : List UInt8}
    (h : Serves J H t queue (before ++ (result, bytes) :: after))
    (hlen : before.length = t.received.length)
    (hfit : (before.map Prod.snd).flatten.length + bytes.length ≤ MailboxSystem.segmentSize)
    (hlast : ¬ t.LastInFirstSegment J) (startTime endTime : Nat) :
    ∃ e, t.mailbox.receive J startTime endTime t.system = some
      (.error (.serialization e), { t.mailbox with readOffset := t.mailbox.readOffset + 1 }) := by
  obtain ⟨mid, rest, hafter, hdrop, -, hnext⟩ := packed_drop_first result after hfit
  have hencoded := encoded_of_mem h.encoded
  rw [List.map_append, List.map_cons] at hencoded
  obtain ⟨m, hbytes⟩ := hencoded bytes (List.mem_append_right _ List.mem_cons_self)
  cases mid with
  | nil =>
      refine absurd ((h.lastInFirstSegment_iff hlen).mpr ⟨hfit, ?_⟩) hlast
      intro e es hes
      have hover := hnext e es (hafter.symm.trans hes)
      rwa [List.flatten_append, List.flatten_singleton, List.length_append] at hover
  | cons e es =>
      obtain ⟨m', he⟩ := hencoded e (List.mem_append_right _ (List.mem_cons_of_mem _
        (hafter ▸ List.mem_cons_self)))
      obtain ⟨tl, rfl⟩ := hJ.object he
      have hfail : ∃ message, J.fromSlice (bytes ++ 0x7B :: (tl ++ es.flatten)) = .error message :=
        hJ.trailing hbytes rfl
      obtain ⟨message, hfail⟩ := hfail
      rw [List.flatten_cons, List.cons_append] at hdrop
      have hreceive := h.receive_due hlen hdrop
        (List.append_ne_nil_of_left_ne_nil (toVec_ne_nil hJ hbytes) _) startTime endTime
      rw [Message.fromBytes, hfail] at hreceive
      exact ⟨message, hreceive⟩

/-! ### Where everything succeeds -/

/-- A send on a file system where everything succeeds. -/
def freshCall (startTime endTime timestamp : Nat) (id : String) : Call :=
  { fs := Files.fresh, startTime, endTime, rounds := 2, id, timestamp }

theorem send_willing (call : Call) {sys : MailboxSystem} {sender : Mailbox}
    {outgoing : Mailbox.Outgoing} {m : Message} {bytes : List UInt8} (hfs : call.fs.Willing)
    (hrounds : call.rounds = 2) (hm : sender.compose call.id call.timestamp outgoing = .ok m)
    (hlookup : sys.mailboxes.lookup m.to_ = some queue) (hholds : queue.Holds H acked)
    (hbytes : J.toVec m = .ok bytes) (hsize : bytes.length ≤ queue.config.segmentSize) :
    ∃ result queue',
      sender.send J H call outgoing sys = some (.ok m.id, sys.putQueue m.to_ queue') ∧
      queue'.config = queue.config ∧ queue'.Holds H (acked ++ [(result, bytes)]) := by
  obtain ⟨result, queue', happ, hconfig, hholds'⟩ :=
    hholds.append_willing hfs bytes hsize call.startTime call.endTime
  refine ⟨result, queue', ?_, hconfig, hholds'⟩
  simp only [Mailbox.send, hm, MailboxSystem.routeMessage, hlookup, Message.toBytes, hbytes,
    hrounds, happ]

theorem Serves.send_fresh (h : Serves J H t queue acked) {startTime endTime timestamp : Nat}
    {id : String} {sender : Mailbox} {outgoing : Mailbox.Outgoing} {m : Message}
    {bytes : List UInt8} (hm : sender.compose id timestamp outgoing = .ok m)
    (haddr : m.to_ = t.mailbox.address) (hbytes : J.toVec m = .ok bytes)
    (hsize : bytes.length ≤ MailboxSystem.segmentSize) :
    ∃ t' queue' result,
      step J H t (.send (freshCall startTime endTime timestamp id) sender outgoing) = some t' ∧
        t'.mailbox = t.mailbox ∧ t'.sent = t.sent ++ [m] ∧ t'.received = t.received ∧
        Serves J H t' queue' (acked ++ [(result, bytes)]) := by
  have hlookup := h.lookup
  rw [← haddr] at hlookup
  obtain ⟨result, queue', hsend, hconfig, hholds⟩ :=
    send_willing (freshCall startTime endTime timestamp id) Files.fresh_willing rfl hm
      hlookup h.holds hbytes (h.segmentSize ▸ hsize)
  refine ⟨{ t with system := t.system.putQueue m.to_ queue', sent := t.sent ++ [m] }, queue',
    result, ?_, rfl, rfl, rfl, ?_, hconfig ▸ h.segmentSize, hconfig ▸ h.numPartitions, hholds,
    List.rel_append h.encoded (.cons hbytes .nil), h.readOffset, h.delivered.answered,
    h.delivered.inOrder.trans (List.prefix_append _ _)⟩
  · simp only [step, hsend]
    simp only [freshCall, hm, sentTo, if_pos haddr]
  · rw [← haddr]
    exact t.system.putQueue_lookup m.to_ queue'

theorem createMailbox_willing {fs : Files} (hfs : fs.Willing) {sys : MailboxSystem}
    {address : String} (haddr : address ≠ "") (hnew : sys.mailboxes.lookup ⟨address⟩ = none)
    (hvalid : { sys.defaultConfig with storageDir := sys.mailboxDir address }.Valid) :
    ∃ sys', sys.createMailbox fs PersistQ.Paths.plain address =
      (.ok { address := ⟨address⟩, readOffset := 0 }, sys') := by
  obtain ⟨queue, hqueue, -⟩ := PersistQ.new_willing hfs hvalid
  have haddr' : MailboxAddress.new address = .ok ⟨address⟩ := if_neg (by simpa using haddr)
  have hdir := hfs.createDirAll (sys.mailboxDir address)
  exact ⟨sys.putQueue ⟨address⟩ queue, by
    simp only [MailboxSystem.createMailbox, haddr', hnew, hdir, hqueue]⟩

end

/-! ### Letters -/

/-- A message of one byte from one mailbox to another, and its text. -/
def letter (id : String) (byte : UInt8) : Message :=
  Message.new id 1700000000000000 ⟨"alice@dolda"⟩ ⟨"bob@dolda"⟩ [byte]

def letterText (id byte : String) : List UInt8 :=
  ("\x7b\"from\":\"alice@dolda\",\"to\":\"bob@dolda\",\"id\":\"" ++ id ++
    "\",\"timestamp\":1700000000000000,\"body\":[" ++ byte ++
    "],\"subject\":null,\"reply_to\":null\x7d").toUTF8.data.toList

def firstId : String := "0b7e6a52-6c1f-4d3b-9a55-0f4a1c8e2d01"

def secondId : String := "5d2c9e10-3f7a-4b86-8c44-7e91b0a6f302"

/-- The serializer on two such messages. -/
def twoLetters : SerdeJson :=
  .ofTexts [(letter firstId 65, letterText firstId "65"),
    (letter secondId 66, letterText secondId "66")]

theorem twoLetters_lawful : twoLetters.Lawful :=
  SerdeJson.ofTexts_lawful (by decide +kernel) (by decide +kernel)

theorem twoLetters_rejectsTails : twoLetters.RejectsTails :=
  SerdeJson.ofTexts_rejectsTails (by decide +kernel)

theorem twoLetters_first :
    twoLetters.toVec (letter firstId 65) = .ok (letterText firstId "65") := by
  decide +kernel

theorem twoLetters_second :
    twoLetters.toVec (letter secondId 66) = .ok (letterText secondId "66") := by
  decide +kernel

theorem twoLetters_length {m : Message} {bytes : List UInt8}
    (h : twoLetters.toVec m = .ok bytes) : bytes.length ≤ 171 := by
  have hlength : ∀ p ∈ [(letter firstId 65, letterText firstId "65"),
      (letter secondId 66, letterText secondId "66")], p.2.length ≤ 171 := by
    decide +kernel
  exact hlength _ (SerdeJson.ofTexts_toVec h)

/-- A system with no mailboxes. -/
def emptySystem : MailboxSystem := { mailboxes := ∅, baseDir := "/data" }

def alice : Mailbox := { address := ⟨"alice@dolda"⟩, readOffset := 0 }

def bob : Mailbox := { address := ⟨"bob@dolda"⟩, readOffset := 0 }

theorem emptySystem_createMailbox {fs : Files} (hfs : fs.Willing) : ∃ sys',
    emptySystem.createMailbox fs PersistQ.Paths.plain "bob@dolda" = (.ok bob, sys') := by
  exact createMailbox_willing hfs (by decide) (AList.lookup_empty _) (by decide +kernel)

theorem bob_created {fs : Files} (hfs : fs.Willing) (H : Hasher) : ∃ sys' queue,
    emptySystem.createMailbox fs PersistQ.Paths.plain "bob@dolda" = (.ok bob, sys') ∧
    sys' = emptySystem.putQueue bob.address queue ∧ queue.Holds H [] ∧
    queue.config.segmentSize = MailboxSystem.segmentSize ∧ queue.config.numPartitions = 1 := by
  obtain ⟨sys', hcreate⟩ := emptySystem_createMailbox hfs
  obtain ⟨queue, hnew, -, -, hsystem⟩ := MailboxSystem.createMailbox_ok hcreate
  obtain ⟨hholds, -, path, hconfig⟩ := PersistQ.new_holds (H := H) hnew
  refine ⟨sys', queue, hcreate, hsystem, hholds, ?_, ?_⟩
  · rw [hconfig]
    rfl
  · rw [hconfig]
    rfl

/-- One mailbox sends the other a message. -/
def sendLetter (startTime endTime : Nat) (id : String) (byte : UInt8) : Event :=
  .send (freshCall startTime endTime 1700000000000000 id) alice (.sendTo "bob@dolda" [byte])

theorem sendLetter_fits (startTime endTime : Nat) (id : String) (byte : UInt8)
    (address : MailboxAddress) : (sendLetter startTime endTime id byte).Fits twoLetters address :=
  fun _ _ _ _ h => (twoLetters_length h).trans (by decide)

/-- The same with other files. -/
def letterCall (fs : Files) (startTime endTime : Nat) (id : String) : Call :=
  { freshCall startTime endTime 1700000000000000 id with fs }

theorem send_letter {fs : Files} (hfs : fs.Willing) {H : Hasher} {sys : MailboxSystem}
    {queue : PersistQ} {acked : List (AppendResult × List UInt8)}
    (hlookup : sys.mailboxes.lookup bob.address = some queue) (hholds : queue.Holds H acked)
    (hsize : queue.config.segmentSize = MailboxSystem.segmentSize) {id : String} {byte : UInt8}
    {bytes : List UInt8} (hbytes : twoLetters.toVec (letter id byte) = .ok bytes)
    (startTime endTime : Nat) :
    ∃ result queue', alice.send twoLetters H (letterCall fs startTime endTime id)
        (.sendTo "bob@dolda" [byte]) sys = some (.ok id, sys.putQueue bob.address queue') ∧
      queue'.config = queue.config ∧ queue'.Holds H (acked ++ [(result, bytes)]) := by
  have hfit : bytes.length ≤ queue.config.segmentSize := by
    rw [hsize]
    exact (twoLetters_length hbytes).trans (by decide)
  have hm : alice.compose id 1700000000000000 (.sendTo "bob@dolda" [byte])
      = .ok (letter id byte) := rfl
  exact send_willing (letterCall fs startTime endTime id) hfs rfl hm hlookup hholds hbytes
    hfit

theorem Serves.send_letter {H : Hasher} {t : Traffic} {queue : PersistQ}
    {acked : List (AppendResult × List UInt8)} (h : Serves twoLetters H t queue acked)
    (haddr : t.mailbox.address = bob.address) {id : String} {byte : UInt8} {bytes : List UInt8}
    (hbytes : twoLetters.toVec (letter id byte) = .ok bytes) (startTime endTime : Nat) :
    ∃ t' queue' result, step twoLetters H t (sendLetter startTime endTime id byte) = some t' ∧
      t'.mailbox = t.mailbox ∧ t'.sent = t.sent ++ [letter id byte] ∧
      t'.received = t.received ∧ Serves twoLetters H t' queue' (acked ++ [(result, bytes)]) :=
  h.send_fresh rfl haddr.symm hbytes ((twoLetters_length hbytes).trans (by decide))

/-! ## Runs

Sends and receives keep the queue as the acknowledged messages make it, and the received
ones a front of those sent.  A send to another mailbox is in another directory, so it
leaves the files of this one alone. -/

/-- **Delivery.**  In every run of sends by any handles, to the mailbox or to one in
another directory, and receives on one handle of the mailbox, whose messages for the
mailbox are no longer than a segment and whose receives with a message due all find it
the last in the queue's first segment, every receive made while a message is due
returns it, and the messages received are those sent, in order. -/
theorem delivered_in_order {J : SerdeJson} {H : Hasher} {t : Traffic} (hJ : J.Lawful)
    {fs : Files} {paths : PersistQ.Paths} {address : String} {sys sys' : MailboxSystem}
    {mailbox : Mailbox} (hcreate : sys.createMailbox fs paths address = (.ok mailbox, sys'))
    {events : List Event} (hfits : ∀ event ∈ events, event.Fits J mailbox.address)
    (hmeets : Lts.Guarded (step J H) (Meets J) (.start mailbox sys') events)
    (hrun : Lts.run (step J H) (.start mailbox sys') events = some t) : t.Delivered := by
  have hstep : ∀ {t event t'}, (t.mailbox.address = mailbox.address ∧
        ∃ queue acked, Serves J H t queue acked) →
      (Meets J t event ∧ event.Fits J mailbox.address) → step J H t event = some t' →
      t'.mailbox.address = mailbox.address ∧ ∃ queue acked, Serves J H t' queue acked := by
    rintro t event t' ⟨haddr, queue, acked, h⟩ ⟨hok, hfit⟩ htaken
    cases event with
    | send call sender outgoing =>
        rw [← haddr] at hfit
        obtain ⟨hmailbox, hserves⟩ := h.send hfit htaken
        exact ⟨hmailbox ▸ haddr, hserves⟩
    | receive startTime endTime =>
        obtain ⟨answer, mailbox', htaken', haddr', -, hserves⟩ := h.receive hJ hok
        cases htaken.symm.trans htaken'
        exact ⟨haddr'.trans haddr, queue, acked, hserves⟩
  obtain ⟨queue, hserves⟩ := createMailbox_serves (J := J) (H := H) hcreate
  obtain ⟨-, queue', acked, hserves'⟩ := Lts.Guarded.invariant _ hstep ⟨rfl, queue, [], hserves⟩
    (hmeets.and_forall hfits) hrun
  exact hserves'.delivered

/-- Two messages, each received before the next is sent. -/
theorem delivered_in_order_letter : ∃ sys' t,
    MailboxSystem.new Files.fresh "/data" = .ok emptySystem ∧
    emptySystem.createMailbox Files.fresh PersistQ.Paths.plain "bob@dolda" = (.ok bob, sys') ∧
    Lts.run (step twoLetters crc32Hasher) (.start bob sys')
      [sendLetter 0 1 firstId 65, .receive 2 3, sendLetter 4 5 secondId 66, .receive 6 7]
        = some t ∧
    t.received = [letter firstId 65, letter secondId 66] ∧ t.Delivered := by
  obtain ⟨sys', hcreate⟩ := emptySystem_createMailbox Files.fresh_willing
  obtain ⟨queue, h₀⟩ := createMailbox_serves (J := twoLetters) (H := crc32Hasher) hcreate
  obtain ⟨t₁, queue₁, result₁, hstep₁, hmailbox₁, hsent₁, hreceived₁, h₁⟩ :=
    h₀.send_letter rfl twoLetters_first 0 1
  have hlen₁ : ([] : List (AppendResult × List UInt8)).length = t₁.received.length := by
    rw [hreceived₁]
    rfl
  have hmeets₁ : Meets twoLetters t₁ (.receive 2 3) :=
    fun _ _ => (h₁.lastInFirstSegment_iff hlen₁).mpr ⟨by decide +kernel, nofun⟩
  obtain ⟨answer₁, mailbox₂, hstep₂, haddress₂, hanswer₁, h₂⟩ :=
    h₁.receive twoLetters_lawful hmeets₁
  have hreceived₂ : (t₁.after answer₁ mailbox₂).received = [letter firstId 65] := by
    show t₁.received ++ messageOf answer₁ = _
    rw [hanswer₁, Traffic.due, hreceived₁, hsent₁]
    rfl
  have haddress₃ : (t₁.after answer₁ mailbox₂).mailbox.address = bob.address :=
    haddress₂.trans (congrArg _ hmailbox₁)
  obtain ⟨t₃, queue₃, result₃, hstep₃, -, hsent₃, hreceived₃, h₃⟩ :=
    h₂.send_letter haddress₃ twoLetters_second 4 5
  have hserves : Serves twoLetters crc32Hasher t₃ queue₃
      ([(result₁, letterText firstId "65")] ++ (result₃, letterText secondId "66") :: []) := h₃
  have hlen₃ : [(result₁, letterText firstId "65")].length = t₃.received.length := by
    rw [hreceived₃, hreceived₂]
    rfl
  have hfit : ([(result₁, letterText firstId "65")].map Prod.snd).flatten.length +
      (letterText secondId "66").length ≤ MailboxSystem.segmentSize := by
    rw [List.map_singleton, List.flatten_singleton]
    exact (Nat.add_le_add (twoLetters_length twoLetters_first)
      (twoLetters_length twoLetters_second)).trans (by decide)
  have hmeets₃ : Meets twoLetters t₃ (.receive 6 7) := by
    intro _ _
    refine (hserves.lastInFirstSegment_iff hlen₃).mpr ⟨hfit, ?_⟩
    intro bytes rest hnil
    cases hnil
  obtain ⟨answer₃, mailbox₄, hstep₄, -, hanswer₃, -⟩ := h₃.receive twoLetters_lawful hmeets₃
  have hrun : Lts.run (step twoLetters crc32Hasher) (.start bob sys')
      [sendLetter 0 1 firstId 65, .receive 2 3, sendLetter 4 5 secondId 66, .receive 6 7] =
        some (t₃.after answer₃ mailbox₄) := by
    simp only [Lts.run, hstep₁, hstep₂, hstep₃, hstep₄]
  refine ⟨sys', _, rfl, hcreate, hrun, ?_, delivered_in_order twoLetters_lawful hcreate ?_ ?_ hrun⟩
  · have hsent : (t₁.after answer₁ mailbox₂).sent = t₁.sent := rfl
    show t₃.received ++ messageOf answer₃ = _
    rw [hanswer₃, Traffic.due, hreceived₃, hreceived₂, hsent₃, hsent, hsent₁]
    rfl
  · intro event hevent
    simp only [List.mem_cons, List.not_mem_nil, or_false] at hevent
    rcases hevent with rfl | rfl | rfl | rfl
    · exact sendLetter_fits 0 1 firstId 65 _
    · trivial
    · exact sendLetter_fits 4 5 secondId 66 _
    · trivial
  · simp only [Lts.Guarded, hstep₁, hstep₂, hstep₃, hstep₄]
    exact ⟨.inl rfl, hmeets₁, .inl haddress₃.symm, hmeets₃, trivial⟩

/-- **Two messages pending are not delivered**: with both in the queue the first
receive fails to decode, and has moved the offset past the first message. -/
theorem two_pending_not_delivered : ∃ sys' t e,
    MailboxSystem.new Files.fresh "/data" = .ok emptySystem ∧
    emptySystem.createMailbox Files.fresh PersistQ.Paths.plain "bob@dolda" = (.ok bob, sys') ∧
    Lts.run (step twoLetters crc32Hasher) (.start bob sys')
      [sendLetter 0 1 firstId 65, sendLetter 2 3 secondId 66] = some t ∧
    t.sent = [letter firstId 65, letter secondId 66] ∧
    t.mailbox.receive twoLetters 4 5 t.system
      = some (.error (.serialization e), { bob with readOffset := 1 }) := by
  obtain ⟨sys', hcreate⟩ := emptySystem_createMailbox Files.fresh_willing
  obtain ⟨queue, h₀⟩ := createMailbox_serves (J := twoLetters) (H := crc32Hasher) hcreate
  obtain ⟨t₁, queue₁, result₁, hstep₁, hmailbox₁, hsent₁, hreceived₁, h₁⟩ :=
    h₀.send_letter rfl twoLetters_first 0 1
  obtain ⟨t₂, queue₂, result₂, hstep₂, hmailbox₂, hsent₂, hreceived₂, h₂⟩ :=
    h₁.send_letter (hmailbox₁ ▸ rfl) twoLetters_second 2 3
  have hpending : Serves twoLetters crc32Hasher t₂ queue₂ ([] ++ (result₁, letterText firstId "65")
      :: [(result₂, letterText secondId "66")]) := h₂
  have hlen : ([] : List (AppendResult × List UInt8)).length = t₂.received.length := by
    rw [hreceived₂, hreceived₁]
    rfl
  have hmailbox : t₂.mailbox = bob := hmailbox₂.trans hmailbox₁
  have hlast : ¬ t₂.LastInFirstSegment twoLetters := by
    rw [hpending.lastInFirstSegment_iff hlen]
    rintro ⟨-, hnext⟩
    have hover := hnext (letterText secondId "66") [] rfl
    have hlen₁ := twoLetters_length twoLetters_first
    have hlen₂ := twoLetters_length twoLetters_second
    rw [List.map_nil, List.flatten_nil, List.length_nil, MailboxSystem.segmentSize] at hover
    omega
  obtain ⟨e, hreceive⟩ :=
    hpending.receive_fails twoLetters_lawful hlen (by decide +kernel) hlast 4 5
  refine ⟨sys', t₂, e, rfl, hcreate, ?_, ?_, ?_⟩
  · simp only [Lts.run, hstep₁, hstep₂]
  · rw [hsent₂, hsent₁]
    rfl
  · rw [hreceive, hmailbox]
    rfl

end Dolda.Delivery
