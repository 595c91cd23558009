/-
# `Dolda.Mailbox.Polling` — a handle at the end of its queue

A receive reads the queue at the handle's offset, and a number nothing was given
is not mapped: the read fails.  So at the end of its queue a handle never finds
that there is nothing (`Idles`): `receive` and `peek` fail as they would on a
queue that is broken, in every state of every run (`never_idles`).  Only
`pending_count`, which takes each failure for an empty queue, answers 0.
-/
import Dolda.Mailbox.Conservation

namespace Dolda.Isolation

open Workers (Event)

/-- What is asked of a handle at the end of its queue: there is nothing to receive,
the handle stays where it is, and what is sent next is received next. -/
structure Idles (J : SerdeJson) (H : Hasher) (w : World) (mailbox : Mailbox) : Prop where
  receive : ∀ startTime endTime,
    mailbox.receive J startTime endTime (load w.disk mailbox.address w.system) =
      some (.ok none, mailbox)
  peek : ∀ startTime endTime,
    mailbox.peek J startTime endTime (load w.disk mailbox.address w.system) = some (.ok none)
  pendingCount : ∀ startTime endTime,
    mailbox.pendingCount startTime endTime (load w.disk mailbox.address w.system) = some 0
  next : ∀ call sender outgoing id w', outgoing.destination = mailbox.address →
    w.sendAnswer J H call sender outgoing = some (.ok id) →
    w.send J H call sender outgoing = some w' → ∃ m mailbox',
      sender.compose call.id call.timestamp outgoing = .ok m ∧
      ∀ startTime endTime,
        mailbox.receive J startTime endTime (load w'.disk mailbox.address w'.system) =
          some (.ok (some m), mailbox')

/-- What `receive` and `peek` answer with for a number that is not mapped. -/
def notFound (globalOffset : Nat) : MailboxError :=
  .persistQ ("Global offset " ++ toString globalOffset ++ " not found")

/-- What a handle at the end of its queue finds. -/
structure Fails (J : SerdeJson) (w : World) (mailbox : Mailbox) : Prop where
  receive : ∀ startTime endTime,
    mailbox.receive J startTime endTime (load w.disk mailbox.address w.system) =
      some (.error (notFound mailbox.readOffset), mailbox)
  peek : ∀ startTime endTime,
    mailbox.peek J startTime endTime (load w.disk mailbox.address w.system) =
      some (.error (notFound mailbox.readOffset))
  pendingCount : ∀ startTime endTime,
    mailbox.pendingCount startTime endTime (load w.disk mailbox.address w.system) = some 0

section
variable {J : SerdeJson} {H : Hasher} {w w' : World} {a b : MailboxAddress}
  {queue queue' : PersistQ} {mailbox : Mailbox}

theorem Fails.not_idles (h : Fails J w mailbox) : ¬ Idles J H w mailbox := by
  intro hidles
  cases (h.receive 0 0).symm.trans (hidles.receive 0 0)

/-- **A handle at the end of a queue** that maps no number not given. -/
theorem fails_of_end (hqueue : w.contents mailbox.address = some queue) (hbounded : queue.Bounded)
    (hend : queue.stats.totalRecords ≤ mailbox.readOffset) : Fails J w mailbox := by
  have hlookup : (load w.disk mailbox.address w.system).mailboxes.lookup mailbox.address =
      some queue := by
    rw [load_lookup]
    exact hqueue
  have hread := hbounded.read hend
  refine ⟨?_, ?_, ?_⟩
  · intro startTime endTime
    simp only [Mailbox.receive, hlookup, hread, notFound]
  · intro startTime endTime
    simp only [Mailbox.peek, hlookup, hread, notFound]
  · intro startTime endTime
    simp only [Mailbox.pendingCount, hlookup, hread]

/-! ## The invariant

A queue maps only global offsets it has given out, so at its end there is nothing to be
found, and the read fails before anything is decoded.  No operation maps a number ahead
of its time. -/

/-- Every queue maps only numbers it has given, and every handle has a queue. -/
structure Numbered (w : World) : Prop where
  bounded : ∀ b queue, w.system.mailboxes.lookup b = some queue → queue.Bounded
  handled : ∀ mailbox ∈ w.handles, ∃ queue,
    w.system.mailboxes.lookup mailbox.address = some queue

theorem Numbered.put (h : Numbered w) (hbounded : queue.Bounded) : Numbered (w.put a queue) where
  bounded := by
    intro b queue' hb
    by_cases hba : b = a
    · subst hba
      cases (put_lookup w b queue).symm.trans hb
      exact hbounded
    · exact h.bounded b queue' ((put_lookup_ne w queue hba).symm.trans hb)
  handled := by
    intro mailbox hmem
    by_cases hba : mailbox.address = a
    · rw [hba]
      exact ⟨queue, put_lookup w a queue⟩
    · rw [put_lookup_ne w queue hba]
      exact h.handled mailbox hmem

/-- A handle more, on a mailbox that is there. -/
theorem Numbered.hand (h : Numbered w) {mailbox : Mailbox}
    (hlookup : w.system.mailboxes.lookup mailbox.address = some queue) :
    Numbered { w with handles := w.handles ++ [mailbox] } where
  bounded := h.bounded
  handled := by
    intro other hmem
    rcases List.mem_append.mp hmem with hmem | hmem
    · exact h.handled other hmem
    · cases List.mem_singleton.mp hmem
      exact ⟨queue, hlookup⟩

theorem Numbered.answered (h : Numbered w) {handle : Nat} {mailbox mailbox' : Mailbox}
    (hhandle : w.handles[handle]? = some mailbox) (haddress : mailbox'.address = mailbox.address)
    (answer : Answer) : Numbered (w.answered handle mailbox' answer) where
  bounded := h.bounded
  handled := by
    intro other hmem
    rcases List.mem_or_eq_of_mem_set hmem with hmem | rfl
    · exact h.handled other hmem
    · rw [haddress]
      exact h.handled mailbox (List.mem_of_getElem? hhandle)

theorem routed_bounded {call : Call} {m : Message} (h : queue.Bounded)
    (hrouted : routed J H call m queue = some queue') : queue'.Bounded := by
  simp only [routed] at hrouted
  split at hrouted
  · cases hrouted
    exact h
  split at hrouted
  · cases hrouted
  · cases hrouted
  · rename_i happ
    cases hrouted
    exact h.append happ

theorem Numbered.send (h : Numbered w) {call : Call} {sender : Mailbox}
    {outgoing : Mailbox.Outgoing} (hsend : w.send J H call sender outgoing = some w') :
    Numbered w' := by
  cases hm : sender.compose call.id call.timestamp outgoing with
  | error e =>
      simp only [World.send, hm] at hsend
      cases hsend
      exact h
  | ok m =>
  rw [send_eq hm] at hsend
  cases hlookup : w.system.mailboxes.lookup m.to_ with
  | none =>
      rw [hlookup] at hsend
      cases hsend
      exact h
  | some queue =>
      rw [hlookup] at hsend
      obtain ⟨queue', hrouted, rfl⟩ := Option.map_eq_some_iff.mp hsend
      have hbounded : (queue.attach w.disk).Bounded := h.bounded _ queue hlookup
      exact h.put (routed_bounded hbounded hrouted)

theorem Numbered.create (h : Numbered w) (fs : Files) (paths : PersistQ.Paths)
    (address : String) : Numbered (w.create fs paths address) := by
  rw [create_eq]
  split
  · exact h
  split
  · exact h
  split
  · exact h
  split
  · exact h
  · rename_i queue hnew
    exact (h.put (PersistQ.new_bounded hnew)).hand (put_lookup w _ queue)

theorem Numbered.get (h : Numbered w) (address : String) : Numbered (w.get address) := by
  rw [World.get]
  split
  · rename_i mailbox hget
    obtain ⟨rfl, queue, hlookup⟩ := MailboxSystem.getMailbox_some hget
    exact h.hand hlookup
  · exact h

theorem Numbered.step (h : Numbered w) {event : Event} (hstep : step J H w event = some w') :
    Numbered w' := by
  cases event with
  | create fs paths address =>
      cases hstep
      exact h.create fs paths address
  | get address =>
      cases hstep
      exact h.get address
  | send call sender outgoing => exact h.send hstep
  | receive handle startTime endTime =>
      obtain ⟨mailbox, mailbox', answer, hhandle, haddress, rfl⟩ := receive_cases hstep
      exact h.answered hhandle haddress answer
  | peek handle startTime endTime =>
      obtain ⟨mailbox, answer, hhandle, rfl⟩ := peek_cases hstep
      exact h.answered hhandle rfl answer

theorem start_numbered {fs : Files} {baseDir : String} {system : MailboxSystem}
    (hnew : MailboxSystem.new fs baseDir = .ok system) (disk : Disk) :
    Numbered (.start disk system) := by
  refine ⟨?_, ?_⟩
  · intro b queue hb
    cases (MailboxSystem.lookup_of_new hnew b).symm.trans hb
  · intro mailbox hmem
    cases hmem

end

/-- **At the end of its queue a handle fails.**  In every state of every run of a new
system, whatever is on the disk, every handle has a queue; and one that has come to its
end, where `receive` and `peek` are to find nothing, gets an error from both. -/
theorem never_idles {J : SerdeJson} {H : Hasher} {fs : Files} {baseDir : String}
    {system : MailboxSystem} (hnew : MailboxSystem.new fs baseDir = .ok system) (disk : Disk)
    {events : List Event} {w : World}
    (hrun : Lts.run (step J H) (.start disk system) events = some w) :
    ∀ mailbox ∈ w.handles, ∃ queue, w.contents mailbox.address = some queue ∧
      (queue.stats.totalRecords ≤ mailbox.readOffset →
        ¬ Idles J H w mailbox ∧ Fails J w mailbox) := by
  have hnumbered := Lts.run_invariant Numbered (fun h hstep => h.step hstep)
    (start_numbered hnew disk) hrun
  intro mailbox hmem
  obtain ⟨queue, hlookup⟩ := hnumbered.handled mailbox hmem
  have hcontents := contents_of_lookup hlookup
  refine ⟨queue.attach w.disk, hcontents, fun hend => ?_⟩
  have hfails : Fails J w mailbox :=
    fails_of_end hcontents (hnumbered.bounded _ queue hlookup) hend
  exact ⟨hfails.not_idles, hfails⟩

section
open Delivery (bob emptySystem twoLetters)
open Workers (emptySystem_new)

/-- Two mailboxes, and the handle on the second. -/
theorem exists_bob : ∃ w,
    Lts.run (step twoLetters crc32Hasher) (.start (fun _ => []) emptySystem)
      (createBoth "team@dolda" "bob@dolda") = some w ∧ bob ∈ w.handles ∧
    ∃ queue, w.contents bob.address = some queue ∧ queue.Bounded ∧
      queue.stats.totalRecords = 0 := by
  obtain ⟨w, queue, hrun, hhandles, hnew, -⟩ := team_and_bob
  have hnumbered := Lts.run_invariant Numbered (fun h hstep => h.step hstep)
    (start_numbered emptySystem_new _) hrun
  refine ⟨w, hrun, ?_, queue.attach w.disk, contents_of_lookup hnew.lookup,
    hnumbered.bounded _ queue hnew.lookup, hnew.globalOffset⟩
  rw [hhandles]
  exact List.mem_cons_of_mem _ List.mem_cons_self

/-- A handle on a mailbox nothing was ever sent to. -/
theorem never_idles_bob : ∃ w,
    Lts.run (step twoLetters crc32Hasher) (.start (fun _ => []) emptySystem)
      (createBoth "team@dolda" "bob@dolda") = some w ∧ bob ∈ w.handles ∧
    ¬ Idles twoLetters crc32Hasher w bob ∧ Fails twoLetters w bob := by
  obtain ⟨w, hrun, hbob, queue, hcontents, -, hzero⟩ := exists_bob
  obtain ⟨queue', hcontents', hend⟩ := never_idles emptySystem_new (fun _ => []) hrun bob hbob
  cases hcontents.symm.trans hcontents'
  exact ⟨w, hrun, hbob, hend (Nat.le_of_eq hzero)⟩

/-- **Nothing was sent, and a poll fails**: a new mailbox's handle gets an error from
`receive` and from `peek`. -/
theorem empty_mailbox_fails : ∃ w queue,
    MailboxSystem.new Files.fresh "/data" = .ok emptySystem ∧
    Lts.run (step twoLetters crc32Hasher) (.start (fun _ => []) emptySystem)
      (createBoth "team@dolda" "bob@dolda") = some w ∧ bob ∈ w.handles ∧
    w.contents bob.address = some queue ∧ queue.stats.totalRecords = 0 ∧
    bob.receive twoLetters 2 3 (load w.disk bob.address w.system) =
      some (.error (.persistQ "Global offset 0 not found"), bob) ∧
    bob.peek twoLetters 2 3 (load w.disk bob.address w.system) =
      some (.error (.persistQ "Global offset 0 not found")) ∧
    ¬ Idles twoLetters crc32Hasher w bob := by
  obtain ⟨w, hrun, hbob, queue, hcontents, hbounded, hzero⟩ := exists_bob
  have hfails : Fails twoLetters w bob := fails_of_end hcontents hbounded (Nat.le_of_eq hzero)
  exact ⟨w, queue, emptySystem_new, hrun, hbob, hcontents, hzero, hfails.receive 2 3,
    hfails.peek 2 3, hfails.not_idles⟩

end

end Dolda.Isolation
