/-
# `Dolda.Mailbox.Skipping` — receives that fail

`receive` reads the queue, moves the offset on, and then decodes what it read.
If the read fails the handle stays where it is; if the decoding fails the handle
has moved, and the message at its old offset is never returned to it.

**The rule.**  Decoding fails if the handle's next message has another behind it
in the first segment, since a read takes both, and it goes by luck if the message
is in another segment, since a read takes what the first has at its place
(`Clear`).  A run loses no message to a failed receive, and returns none out of
its turn, iff its receives are all made on clear handles (`run_proper_iff`).
-/
import Dolda.PersistQ.Single
import Dolda.Mailbox.Workers

namespace Dolda.Workers

open Delivery (messageOf)
open PersistQ (Entry)

/-! ## What a receive is to do -/

/-- A receive that fails leaves the handle as it was, and one that returns a message
returns the next. -/
structure Proper (o : Office) (mailbox mailbox' : Mailbox)
    (answer : Except MailboxError (Option Message)) : Prop where
  failed : ∀ e, answer = .error e → mailbox' = mailbox
  returned : ∀ m, answer = .ok (some m) →
    ∃ x, (o.sentTo mailbox.address)[mailbox.readOffset]? = some x ∧ m = x.message

/-- The texts of the messages that went to a segment, one behind the other. -/
def textsIn (J : SerdeJson) (segment : Option Nat) (sent : List Sent) : List UInt8 :=
  (sent.filter (fun x => x.segment = segment)).flatMap (fun x =>
    match J.toVec x.message with
    | .error _ => []
    | .ok bytes => bytes)

/-- The handle's next message, if there is one, is the last in the first segment; or
it is in another, and of the texts in the first segment nothing is left from the
message's own place on, or what is left is its own text. -/
structure Clear (J : SerdeJson) (o : Office) (mailbox : Mailbox) : Prop where
  alone : ∀ x, (o.sentTo mailbox.address)[mailbox.readOffset]? = some x → x.segment = some 0 →
    ∀ k y, mailbox.readOffset < k → (o.sentTo mailbox.address)[k]? = some y → y.segment ≠ some 0
  elsewhere : ∀ x, (o.sentTo mailbox.address)[mailbox.readOffset]? = some x →
    x.segment ≠ some 0 →
      let before := (o.sentTo mailbox.address).take mailbox.readOffset
      let left := (textsIn J (some 0) (o.sentTo mailbox.address)).drop
        (textsIn J x.segment before).length
      left = [] ∨ J.toVec x.message = .ok left

def Unskipped (J : SerdeJson) (o : Office) : Event → Prop
  | .receive handle startTime endTime => ∀ mailbox answer mailbox',
      o.handles[handle]? = some mailbox →
        mailbox.receive J startTime endTime o.system = some (answer, mailbox') →
          Proper o mailbox mailbox' answer
  | _ => True

def ReadsClear (J : SerdeJson) (o : Office) : Event → Prop
  | .receive handle _ _ => ∀ mailbox, o.handles[handle]? = some mailbox → Clear J o mailbox
  | _ => True

/-- What a receive on one handle returned. -/
def returnedOn (J : SerdeJson) (handle : Nat) (o : Office) : Event → List Message
  | .receive i startTime endTime =>
      if i = handle then
        match o.receive J startTime endTime i with
        | none => []
        | some (answer, _) => messageOf answer
      else []
  | _ => []

section
variable {J : SerdeJson} {H : Hasher} {o o' : Office} {a : MailboxAddress} {queue : PersistQ}
  {entries : List Entry} {mailbox mailbox' : Mailbox}

/-! ## One receive

A queue has stored for an entry what its first segment holds from the entry's place on.
So a receive of a message in the first segment decodes its text and all that lies behind
it there, and gets the message iff none that was sent later lies there. -/

/-- **A receive** decodes what is stored at the handle's offset, and moves on first; it
fails and stays if nothing is. -/
theorem receive_stored (hsingle : queue.Single)
    (hlookup : o.system.mailboxes.lookup mailbox.address = some queue) (startTime endTime : Nat) :
    match queue.stored mailbox.readOffset with
    | none => ∃ e, mailbox.receive J startTime endTime o.system = some (.error e, mailbox)
    | some data => mailbox.receive J startTime endTime o.system = some
        (match Message.fromBytes J data with
          | .error e => .error e
          | .ok m => .ok (some m),
        { mailbox with readOffset := mailbox.readOffset + 1 }) := by
  have hread := hsingle.read startTime endTime mailbox.readOffset
  cases hstored : queue.stored mailbox.readOffset with
  | none =>
      rw [hstored] at hread
      obtain ⟨e, hread⟩ := hread
      simp only [Mailbox.receive, hlookup, hread]
      exact ⟨_, rfl⟩
  | some data =>
      rw [hstored] at hread
      obtain ⟨hdata, result, rfl, hread⟩ := hread
      simp only [Mailbox.receive, hlookup, hread, List.isEmpty_eq_false_iff.mpr hdata,
        Bool.false_eq_true, if_false]
      cases Message.fromBytes J result.record.data with
      | error e => rfl
      | ok m => rfl

/-- What fails to decode has been moved past. -/
theorem moved_ne (mailbox : Mailbox) :
    { mailbox with readOffset := mailbox.readOffset + 1 } ≠ mailbox := by
  intro h
  have hoffset := congrArg Mailbox.readOffset h
  exact absurd hoffset (Nat.succ_ne_self _)

/-- **A receive is proper** iff what is stored, if anything, decodes to the next
message. -/
theorem proper_iff_decodes (hsingle : queue.Single)
    (hlookup : o.system.mailboxes.lookup mailbox.address = some queue) (startTime endTime : Nat) :
    (∀ answer mailbox', mailbox.receive J startTime endTime o.system = some (answer, mailbox') →
      Proper o mailbox mailbox' answer) ↔
    ∀ data, queue.stored mailbox.readOffset = some data →
      ∃ x, (o.sentTo mailbox.address)[mailbox.readOffset]? = some x ∧
        J.fromSlice data = .ok x.message := by
  have hreceive := receive_stored (J := J) hsingle hlookup startTime endTime
  cases hstored : queue.stored mailbox.readOffset with
  | none =>
      rw [hstored] at hreceive
      obtain ⟨e, hreceive⟩ := hreceive
      refine iff_of_true ?_ ?_
      · intro answer mailbox' h
        cases hreceive.symm.trans h
        refine ⟨fun _ _ => rfl, ?_⟩
        intro m hm
        cases hm
      · intro data hdata
        cases hdata
  | some data =>
      rw [hstored] at hreceive
      dsimp only at hreceive
      constructor
      · rintro hproper _ ⟨⟩
        have h := hproper _ _ hreceive
        cases hdecoded : J.fromSlice data with
        | error e =>
            rw [Message.fromBytes, hdecoded] at h
            exact absurd (h.failed _ rfl) (moved_ne mailbox)
        | ok m =>
            rw [Message.fromBytes, hdecoded] at h
            obtain ⟨x, hx, rfl⟩ := h.returned m rfl
            exact ⟨x, hx, rfl⟩
      · intro hdecodes answer mailbox' h
        obtain ⟨x, hx, hdecoded⟩ := hdecodes data rfl
        rw [Message.fromBytes, hdecoded] at hreceive
        cases hreceive.symm.trans h
        refine ⟨?_, ?_⟩
        · intro e he
          cases he
        · intro m hm
          cases hm
          exact ⟨x, hx, rfl⟩

theorem stored_placed {before after : List Entry} {e : Entry}
    (h : queue.Keeps (before ++ e :: after)) (hsingle : queue.Single) :
    let left := (PersistQ.inSegment (some 0) (before ++ e :: after)).drop
      (PersistQ.inSegment e.segment before).length
    queue.stored before.length = if left = [] then none else some left := by
  have hread := h.read_placed 0 0
  have hstored := hsingle.read 0 0 before.length
  dsimp only at hread ⊢
  cases hdata : queue.stored before.length with
  | none =>
      rw [hdata] at hstored
      obtain ⟨e', hfails⟩ := hstored
      rw [hread] at hfails
      split at hfails
      · rename_i hle
        rw [if_pos (List.drop_eq_nil_iff.mpr hle)]
      · cases hfails
  | some data =>
      rw [hdata] at hstored
      obtain ⟨-, result, rfl, hread'⟩ := hstored
      rw [hread] at hread'
      split at hread'
      · cases hread'
      · rename_i hgt
        cases hread'
        rw [if_neg (mt List.drop_eq_nil_iff.mp hgt)]

theorem textsIn_eq {sent : List Sent} (h : List.Forall₂
    (fun x e => J.toVec x.message = .ok e.payload ∧ x.segment = e.segment) sent entries)
    (segment : Option Nat) : textsIn J segment sent = PersistQ.inSegment segment entries := by
  induction h with
  | nil => rfl
  | @cons x e sent entries hx _ ih =>
      obtain ⟨hbytes, hsegment⟩ := hx
      by_cases hsame : e.segment = segment
      · rw [PersistQ.inSegment_cons_same hsame, ← ih, textsIn,
          List.filter_cons_of_pos (by simpa [hsegment] using hsame), List.flatMap_cons, hbytes]
        rfl
      · rw [PersistQ.inSegment_cons_other hsame, ← ih, textsIn,
          List.filter_cons_of_neg (by simpa [hsegment] using hsame)]
        rfl

/-- **What is stored at the place of a message sent** is what is left of the texts in the
first segment from its own place on. -/
theorem Box.stored_next (h : Box J o mailbox.address queue entries) (hsingle : queue.Single)
    {x : Sent} (hx : (o.sentTo mailbox.address)[mailbox.readOffset]? = some x) :
    let before := (o.sentTo mailbox.address).take mailbox.readOffset
    let left := (textsIn J (some 0) (o.sentTo mailbox.address)).drop
      (textsIn J x.segment before).length
    queue.stored mailbox.readOffset = if left = [] then none else some left := by
  obtain ⟨before, e, after, rfl, hlen, -, hsegment⟩ := h.split hx
  have htake : (before ++ e :: after).take mailbox.readOffset = before := List.take_left' hlen
  have hbefore := textsIn_eq (List.forall₂_take mailbox.readOffset h.encoded) e.segment
  rw [htake] at hbefore
  have hstored := stored_placed h.keeps hsingle
  dsimp only at hstored ⊢
  rw [textsIn_eq h.encoded, hsegment, hbefore, ← hlen, hstored]

theorem Box.stored_eq_none (h : Box J o mailbox.address queue entries)
    (hx : (o.sentTo mailbox.address)[mailbox.readOffset]? = none) :
    queue.stored mailbox.readOffset = none := by
  have hlen : entries.length ≤ mailbox.readOffset := by
    rw [← h.encoded.length_eq]
    exact List.getElem?_eq_none_iff.mp hx
  simp only [PersistQ.stored, h.keeps.unmapped _ hlen]

theorem Box.stored_first (hJ : J.Lawful) (h : Box J o mailbox.address queue entries)
    (hsingle : queue.Single) {x : Sent}
    (hx : (o.sentTo mailbox.address)[mailbox.readOffset]? = some x) (hfirst : x.segment = some 0) :
    ∃ before e after, entries = before ++ e :: after ∧ before.length = mailbox.readOffset ∧
      J.toVec x.message = .ok e.payload ∧
      queue.stored mailbox.readOffset = some (e.payload ++ PersistQ.inSegment (some 0) after) := by
  obtain ⟨before, e, after, rfl, hlen, hbytes, hsegment⟩ := h.split hx
  obtain ⟨rest, hrest⟩ := hJ.object hbytes
  refine ⟨before, e, after, rfl, hlen, hbytes, ?_⟩
  have hstored := stored_placed h.keeps hsingle
  rw [hsegment] at hfirst
  simp only [hfirst, PersistQ.inSegment_append, PersistQ.inSegment_cons_same hfirst,
    List.drop_left] at hstored
  rw [← hlen, hstored, if_neg]
  rw [hrest]
  exact List.cons_ne_nil _ _

theorem Box.after (h : Box J o a queue entries) {before after : List Entry} {e : Entry}
    (hsplit : entries = before ++ e :: after) :
    (∀ e' ∈ after, e'.segment ≠ some 0) ↔
      ∀ k y, before.length < k → (o.sentTo a)[k]? = some y → y.segment ≠ some 0 := by
  subst hsplit
  have hlength := h.encoded.length_eq
  have hsegment : ∀ k (hk : k < (o.sentTo a).length) (hk' : k < (before ++ e :: after).length),
      (o.sentTo a)[k].segment = (before ++ e :: after)[k].segment :=
    fun k hk hk' => (h.encoded.get hk hk').2
  constructor
  · intro hafter k y hk hy
    obtain ⟨hlt, rfl⟩ := List.getElem?_eq_some_iff.mp hy
    rw [hsegment k hlt (hlength ▸ hlt)]
    refine hafter _ ?_
    have hlt' : k < (before ++ e :: after).length := hlength ▸ hlt
    have hget : (before ++ e :: after)[k] ∈ (before ++ e :: after).drop (before.length + 1) := by
      refine List.mem_iff_getElem?.mpr ⟨k - (before.length + 1), ?_⟩
      rw [List.getElem?_drop, Nat.add_sub_cancel' hk, List.getElem?_eq_getElem hlt']
    rwa [← List.drop_drop, List.drop_left] at hget
  · intro hsent e' he'
    obtain ⟨i, hi, rfl⟩ := List.getElem_of_mem he'
    have hlt' : before.length + 1 + i < (before ++ e :: after).length := by
      rw [List.length_append, List.length_cons]
      omega
    have hlt : before.length + 1 + i < (o.sentTo a).length := hlength ▸ hlt'
    have hget : (before ++ e :: after)[before.length + 1 + i] = after[i] := by
      rw [List.getElem_append_right (by omega)]
      have hindex : before.length + 1 + i - before.length = i + 1 := by omega
      simp only [hindex, List.getElem_cons_succ]
    rw [← hget, ← hsegment _ hlt hlt']
    exact hsent _ _ (by omega) (List.getElem?_eq_getElem hlt)

theorem Box.first_decodes_iff (hJ : J.Lawful) (h : Box J o mailbox.address queue entries)
    (hsingle : queue.Single) {x : Sent}
    (hx : (o.sentTo mailbox.address)[mailbox.readOffset]? = some x) (hfirst : x.segment = some 0) :
    (∀ data, queue.stored mailbox.readOffset = some data → J.fromSlice data = .ok x.message) ↔
      ∀ k y, mailbox.readOffset < k → (o.sentTo mailbox.address)[k]? = some y →
        y.segment ≠ some 0 := by
  obtain ⟨before, e, after, hsplit, hlen, hbytes, hstored⟩ := h.stored_first hJ hsingle hx hfirst
  have htexts : ∀ e' ∈ after, ∃ m, J.toVec m = .ok e'.payload := by
    intro e' he'
    have hentries := h.payload_text
    rw [hsplit] at hentries
    exact hentries e' (List.mem_append_right _ (List.mem_cons_of_mem _ he'))
  have hnil : PersistQ.inSegment (some 0) after = [] ↔ ∀ e' ∈ after, e'.segment ≠ some 0 := by
    refine PersistQ.inSegment_eq_nil_iff ?_
    intro e' he'
    obtain ⟨m, hm⟩ := htexts e' he'
    exact Delivery.toVec_ne_nil hJ hm
  have hafter := h.after hsplit
  rw [hlen] at hafter
  rw [← hafter, ← hnil]
  constructor
  · intro hdecodes
    -- what is behind the message begins another, and keeps it from being decoded
    exact hJ.flatten_eq_nil hbytes (texts_inSegment htexts (some 0)) (hdecodes _ hstored)
  · intro hnone data hdata
    rw [hnone, List.append_nil] at hstored
    cases hstored.symm.trans hdata
    exact hJ.fromSlice_toVec hbytes

/-- **What is stored for a clear handle** decodes to the next message. -/
theorem Box.decodes_of_clear (hJ : J.Lawful) (h : Box J o mailbox.address queue entries)
    (hsingle : queue.Single) (hclear : Clear J o mailbox) {data : List UInt8}
    (hdata : queue.stored mailbox.readOffset = some data) :
    ∃ x, (o.sentTo mailbox.address)[mailbox.readOffset]? = some x ∧
      J.fromSlice data = .ok x.message := by
  cases hx : (o.sentTo mailbox.address)[mailbox.readOffset]? with
  | none =>
      cases (h.stored_eq_none hx).symm.trans hdata
  | some x =>
      refine ⟨x, rfl, ?_⟩
      by_cases hfirst : x.segment = some 0
      · exact (h.first_decodes_iff hJ hsingle hx hfirst).mpr (hclear.alone x hx hfirst) data hdata
      · rw [h.stored_next hsingle hx] at hdata
        split at hdata
        · cases hdata
        · rename_i hleft
          cases hdata
          exact hJ.fromSlice_toVec ((hclear.elsewhere x hx hfirst).resolve_left hleft)

/-- **What is stored decodes to the next message** iff the handle is clear. -/
theorem Box.decodes_iff_clear (hJ : J.Lawful) (htails : J.RejectsTails)
    (h : Box J o mailbox.address queue entries) (hsingle : queue.Single) :
    (∀ data, queue.stored mailbox.readOffset = some data →
      ∃ x, (o.sentTo mailbox.address)[mailbox.readOffset]? = some x ∧
        J.fromSlice data = .ok x.message) ↔ Clear J o mailbox := by
  refine ⟨?_, fun hclear _ hdata => h.decodes_of_clear hJ hsingle hclear hdata⟩
  intro hdecodes
  have hnext : ∀ x, (o.sentTo mailbox.address)[mailbox.readOffset]? = some x →
      ∀ data, queue.stored mailbox.readOffset = some data → J.fromSlice data = .ok x.message := by
    intro x hx data hdata
    obtain ⟨x', hx', hdecoded⟩ := hdecodes data hdata
    cases hx.symm.trans hx'
    exact hdecoded
  refine ⟨?_, ?_⟩
  · intro x hx hfirst
    exact (h.first_decodes_iff hJ hsingle hx hfirst).mp (hnext x hx)
  · intro x hx _
    have hstored := h.stored_next hsingle hx
    dsimp only at hstored
    by_cases hleft : (textsIn J (some 0) (o.sentTo mailbox.address)).drop
        (textsIn J x.segment
          ((o.sentTo mailbox.address).take mailbox.readOffset)).length = []
    · exact Or.inl hleft
    · -- what is left is some texts, or their tail, and only one text alone is read
      rw [if_neg hleft] at hstored
      have hdecoded := hnext x hx _ hstored
      rw [textsIn_eq h.encoded (some 0), PersistQ.inSegment] at hleft hdecoded
      have hwhole := hJ.toVec_of_fromSlice_drop htails (texts_inSegment h.payload_text (some 0)) hleft hdecoded
      refine Or.inr ?_
      rw [textsIn_eq h.encoded (some 0), PersistQ.inSegment]
      exact hwhole

/-! ## The invariant -/

/-- What was sent is kept, in queues of one partition. -/
structure Stocked (J : SerdeJson) (o : Office) : Prop where
  kept : ∀ a, Kept J o a
  single : ∀ a queue, o.system.mailboxes.lookup a = some queue → queue.Single

theorem single_put {sys : MailboxSystem} {address : MailboxAddress}
    (h : ∀ a queue, sys.mailboxes.lookup a = some queue → queue.Single) (hsingle : queue.Single) :
    ∀ a queue', (sys.putQueue address queue).mailboxes.lookup a = some queue' → queue'.Single := by
  intro a queue' ha
  by_cases haddress : a = address
  · subst haddress
    cases (sys.putQueue_lookup a queue).symm.trans ha
    exact hsingle
  · exact h a queue' ((MailboxSystem.putQueue_lookup_ne haddress sys queue).symm.trans ha)

theorem Stocked.step (hsized : J.Sized) (h : Stocked J o) {event : Event}
    (hstep : step J H o event = some o') : Stocked J o' := by
  refine ⟨fun a => (h.kept a).step hsized hstep, ?_⟩
  cases event with
  | create fs paths address =>
      cases hstep
      simp only [Office.create]
      cases hcreate : o.system.createMailbox fs paths address with
      | mk answer system =>
          cases answer with
          | error e =>
              rcases MailboxSystem.createMailbox_cases hcreate with ⟨-, -, rfl⟩ | ⟨mailbox, hok, -⟩
              · exact h.single
              · cases hok
          | ok mailbox =>
              obtain ⟨queue, hnew, -, -, rfl⟩ := MailboxSystem.createMailbox_ok hcreate
              exact single_put h.single (PersistQ.new_single hnew rfl).1
  | get address =>
      cases hstep
      simp only [Office.get]
      split
      · exact h.single
      · exact h.single
      · exact h.single
  | send call sender outgoing =>
      obtain ⟨⟨answer, o''⟩, hsend, rfl⟩ := Option.map_eq_some_iff.mp hstep
      simp only [Office.send, Mailbox.send] at hsend
      cases hmessage : sender.compose call.id call.timestamp outgoing with
      | error e =>
          simp only [hmessage] at hsend
          cases hsend
          exact h.single
      | ok m =>
          simp only [hmessage] at hsend
          split at hsend
          · cases hsend
          rename_i answer' system hroute
          cases hsend
          rcases Delivery.routeMessage_cases hroute with
            ⟨rfl, -⟩ | ⟨queue, bytes, outcome, queue', hqueue, hbytes, happ, rfl, -⟩
          · exact h.single
          · exact single_put h.single ((h.single _ queue hqueue).append (hsized hbytes) happ).1
  | receive handle startTime endTime =>
      obtain ⟨⟨answer, o''⟩, hreceive, rfl⟩ := Option.map_eq_some_iff.mp hstep
      obtain ⟨mailbox, mailbox', -, -, rfl⟩ := receive_moved hreceive
      exact h.single
  | peek handle startTime endTime =>
      obtain ⟨answer, -, rfl⟩ := Option.map_eq_some_iff.mp hstep
      exact h.single

theorem start_stocked {fs : Files} {baseDir : String} {system : MailboxSystem}
    (h : MailboxSystem.new fs baseDir = .ok system) : Stocked J (.start system) := by
  refine ⟨(start_sound h).kept, ?_⟩
  intro a queue ha
  cases (MailboxSystem.lookup_of_new h a).symm.trans ha

/-- **A receive is proper** iff its handle is clear. -/
theorem Stocked.unskipped_iff (hJ : J.Lawful) (htails : J.RejectsTails) (h : Stocked J o)
    (event : Event) :
    Unskipped J o event ↔ ReadsClear J o event := by
  cases event with
  | receive handle startTime endTime =>
      rw [Unskipped, ReadsClear]
      refine forall_congr' ?_
      intro mailbox
      rcases h.kept mailbox.address with ⟨hnone, hnil⟩ | ⟨queue, entries, hbox⟩
      · -- there is no queue, and nothing was sent
        have hdue : ∀ x, (o.sentTo mailbox.address)[mailbox.readOffset]? ≠ some x := by
          intro x hx
          rw [hnil] at hx
          cases hx
        refine iff_of_true ?_ ?_
        · intro answer mailbox' _ hreceive
          simp only [Mailbox.receive, hnone] at hreceive
          cases hreceive
        · intro _
          exact ⟨fun x hx => absurd hx (hdue x), fun x hx => absurd hx (hdue x)⟩
      · have hsingle := h.single _ queue hbox.lookup
        rw [← hbox.decodes_iff_clear hJ htails hsingle,
          ← proper_iff_decodes hsingle hbox.lookup startTime endTime]
        constructor
        · intro hproper hhandle answer mailbox' hreceive
          exact hproper answer mailbox' hhandle hreceive
        · intro hproper answer mailbox' hhandle hreceive
          exact hproper hhandle answer mailbox' hreceive
  | create fs paths address => exact Iff.rfl
  | get address => exact Iff.rfl
  | send call sender outgoing => exact Iff.rfl
  | peek handle startTime endTime => exact Iff.rfl

/-! ## In turn

New handles are at the first message; a receive moves the handle it is made on and no
other. -/

/-- A handle has returned the messages before its offset, each in its turn. -/
def InTurn (handle : Nat) (o : Office) (messages : List Message) : Prop :=
  match o.handles[handle]? with
  | none => messages = []
  | some mailbox => mailbox.readOffset ≤ (o.sentTo mailbox.address).length ∧
      messages = ((o.sentTo mailbox.address).take mailbox.readOffset).map Sent.message

theorem InTurn.grown {handle : Nat} {messages : List Message} (h : InTurn handle o messages)
    {more : List Mailbox} (hhandles : o'.handles = o.handles ++ more)
    (hstart : ∀ mailbox ∈ more, mailbox.readOffset = 0) {sent : List Sent}
    (hsent : o'.sent = o.sent ++ sent) : InTurn handle o' messages := by
  rw [InTurn, hhandles]
  rcases Nat.lt_or_ge handle o.handles.length with hlt | hge
  · rw [List.getElem?_append_left hlt]
    rw [InTurn, List.getElem?_eq_getElem hlt] at h
    rw [List.getElem?_eq_getElem hlt]
    obtain ⟨hle, hmessages⟩ := h
    dsimp only
    rw [sentTo_of_sent hsent]
    refine ⟨?_, ?_⟩
    · rw [List.length_append]
      exact Nat.le_add_right_of_le hle
    · rw [List.take_append_of_le_length hle]
      exact hmessages
  · rw [InTurn, List.getElem?_eq_none hge] at h
    rw [List.getElem?_append_right hge]
    cases hmore : more[handle - o.handles.length]? with
    | none => exact h
    | some mailbox =>
        have hzero := hstart mailbox (List.mem_of_getElem? hmore)
        dsimp only
        rw [hzero, List.take_zero]
        exact ⟨Nat.zero_le _, h⟩

theorem InTurn.moved_other {handle i : Nat} {messages received : List Message}
    (h : InTurn handle o messages) (hne : i ≠ handle) (mailbox : Mailbox) :
    InTurn handle (o.moved i mailbox received) messages := by
  have hget : (o.handles.set i mailbox)[handle]? = o.handles[handle]? := List.getElem?_set_ne hne
  rw [InTurn, Office.moved, hget]
  exact h

/-- **The handle's own receive**, if it is clear. -/
theorem InTurn.receive (hJ : J.Lawful) (hstocked : Stocked J o) {handle : Nat}
    {messages : List Message} (h : InTurn handle o messages)
    (hhandle : o.handles[handle]? = some mailbox) (hclear : Clear J o mailbox)
    {startTime endTime : Nat} {answer : Except MailboxError (Option Message)}
    (hreceive : mailbox.receive J startTime endTime o.system = some (answer, mailbox')) :
    InTurn handle (o.moved handle mailbox' (messageOf answer)) (messages ++ messageOf answer) := by
  have hset : (o.handles.set handle mailbox')[handle]? = some mailbox' :=
    List.getElem?_set_self (List.getElem?_eq_some_iff.mp hhandle).1
  rw [InTurn, hhandle] at h
  obtain ⟨hle, hmessages⟩ := h
  rw [InTurn, Office.moved, hset]
  dsimp only
  rcases hstocked.kept mailbox.address with ⟨hnone, -⟩ | ⟨queue, entries, hbox⟩
  · simp only [Mailbox.receive, hnone] at hreceive
    cases hreceive
  have hsingle := hstocked.single _ queue hbox.lookup
  have hanswer := receive_stored (J := J) hsingle hbox.lookup startTime endTime
  cases hstored : queue.stored mailbox.readOffset with
  | none =>
      rw [hstored] at hanswer
      obtain ⟨e, hanswer⟩ := hanswer
      cases hreceive.symm.trans hanswer
      refine ⟨hle, ?_⟩
      show messages ++ [] = _
      rw [List.append_nil]
      exact hmessages
  | some data =>
      rw [hstored] at hanswer
      obtain ⟨x, hx, hdecoded⟩ := hbox.decodes_of_clear hJ hsingle hclear hstored
      simp only [Message.fromBytes, hdecoded] at hanswer
      cases hreceive.symm.trans hanswer
      obtain ⟨hlt, hget⟩ := List.getElem?_eq_some_iff.mp hx
      refine ⟨hlt, ?_⟩
      show messages ++ [x.message] =
        ((o.sentTo mailbox.address).take (mailbox.readOffset + 1)).map Sent.message
      rw [List.take_add_one, hx, List.map_append, hmessages]
      rfl

theorem create_handles (o : Office) (fs : Files) (paths : PersistQ.Paths) (address : String) :
    ∃ more, (o.create fs paths address).2.handles = o.handles ++ more ∧
      ∀ mailbox ∈ more, mailbox.readOffset = 0 := by
  cases hcreate : o.create fs paths address with
  | mk answer o₁ =>
      cases answer with
      | error e =>
          simp only [Office.create] at hcreate
          split at hcreate
          · cases hcreate
            exact ⟨[], (List.append_nil _).symm, fun _ hm => absurd hm List.not_mem_nil⟩
          · cases hcreate
      | ok mailbox =>
          obtain ⟨rfl, hhandles⟩ := create_ok hcreate
          refine ⟨_, hhandles, ?_⟩
          intro mailbox hm
          rw [List.mem_singleton.mp hm]

theorem get_handles (o : Office) (address : String) :
    ∃ more, (o.get address).2.handles = o.handles ++ more ∧
      ∀ mailbox ∈ more, mailbox.readOffset = 0 := by
  simp only [Office.get]
  split
  · exact ⟨[], (List.append_nil _).symm, fun _ hm => absurd hm List.not_mem_nil⟩
  · exact ⟨[], (List.append_nil _).symm, fun _ hm => absurd hm List.not_mem_nil⟩
  · rename_i mailbox hget
    refine ⟨[mailbox], rfl, ?_⟩
    intro other hm
    rw [List.mem_singleton.mp hm, (MailboxSystem.getMailbox_some hget).1]

theorem Stocked.inTurn (hJ : J.Lawful) (hstocked : Stocked J o) {handle : Nat}
    {messages : List Message} (h : InTurn handle o messages) {event : Event}
    (hclear : ReadsClear J o event) (hstep : Workers.step J H o event = some o') :
    InTurn handle o' (messages ++ returnedOn J handle o event) := by
  cases event with
  | create fs paths address =>
      cases hstep
      obtain ⟨more, hhandles, hstart⟩ := create_handles o fs paths address
      obtain ⟨sent, hsent⟩ := (create_grown o fs paths address).sent
      show InTurn handle _ (messages ++ [])
      rw [List.append_nil]
      exact h.grown hhandles hstart hsent
  | get address =>
      cases hstep
      obtain ⟨more, hhandles, hstart⟩ := get_handles o address
      obtain ⟨sent, hsent⟩ := (get_grown o address).sent
      show InTurn handle _ (messages ++ [])
      rw [List.append_nil]
      exact h.grown hhandles hstart hsent
  | send call sender outgoing =>
      obtain ⟨⟨answer, o₁⟩, hsend, rfl⟩ := Option.map_eq_some_iff.mp hstep
      obtain ⟨sent, hsent⟩ := (send_grown hsend).sent
      have hhandles : o₁.handles = o.handles ++ [] := by
        simp only [Office.send] at hsend
        split at hsend
        · cases hsend
        · cases hsend
          exact (List.append_nil _).symm
      show InTurn handle _ (messages ++ [])
      rw [List.append_nil]
      exact h.grown hhandles (fun _ hm => absurd hm List.not_mem_nil) hsent
  | receive i startTime endTime =>
      obtain ⟨⟨answer, o₁⟩, hreceive, rfl⟩ := Option.map_eq_some_iff.mp hstep
      obtain ⟨mailbox, mailbox', hhandle, hmailbox, rfl⟩ := receive_moved hreceive
      simp only [returnedOn, hreceive]
      by_cases hi : i = handle
      · subst hi
        rw [if_pos rfl]
        exact h.receive hJ hstocked hhandle (hclear mailbox hhandle) hmailbox
      · rw [if_neg hi, List.append_nil]
        exact h.moved_other hi mailbox'
  | peek i startTime endTime =>
      obtain ⟨answer, -, rfl⟩ := Option.map_eq_some_iff.mp hstep
      show InTurn handle _ (messages ++ [])
      rw [List.append_nil]
      exact h

end

/-- The receives of a run are proper iff each is made on a clear handle; and then every
handle has returned the messages before its offset, in the order they were sent. -/
theorem run_proper_iff {J : SerdeJson} {H : Hasher} (hJ : J.Lawful) (htails : J.RejectsTails)
    (hsized : J.Sized) {fs : Files} {baseDir : String} {system : MailboxSystem}
    (hnew : MailboxSystem.new fs baseDir = .ok system) (events : List Event) :
    (Lts.Guarded (step J H) (Unskipped J) (.start system) events ↔
      Lts.Guarded (step J H) (ReadsClear J) (.start system) events) ∧
    (Lts.Guarded (step J H) (ReadsClear J) (.start system) events →
      ∀ o, Lts.run (step J H) (.start system) events = some o →
        ∀ handle mailbox, o.handles[handle]? = some mailbox →
          Lts.outputs (step J H) (returnedOn J handle) (.start system) events =
            ((o.sentTo mailbox.address).take mailbox.readOffset).map Sent.message) := by
  constructor
  · exact Lts.guarded_congr_of (Stocked J) (fun h hstep => h.step hsized hstep)
      (fun event h => h.unskipped_iff hJ htails event) (start_stocked hnew) events
  · intro hclear o hrun handle mailbox hhandle
    have hstart : Stocked J (.start system) ∧ InTurn handle (.start system) [] :=
      ⟨start_stocked hnew, rfl⟩
    obtain ⟨-, hturn⟩ := hclear.collects (fun o messages => Stocked J o ∧ InTurn handle o messages)
      (fun h hok hstep => ⟨h.1.step hsized hstep, h.1.inTurn hJ h.2 hok hstep⟩) hstart hrun
    rw [List.nil_append, InTurn, hhandle] at hturn
    exact hturn.2

end Dolda.Workers
