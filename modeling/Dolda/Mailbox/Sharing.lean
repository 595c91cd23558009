/-
# `Dolda.Mailbox.Sharing` — the handles on mailboxes on a disk

`Dolda.Mailbox.Workers` and `Dolda.Mailbox.Skipping` on a disk, whose files are shared
by all queues that have mapped them.

**The rule.**  In runs that make each mailbox in a directory no other has (`OwnDir`),
each message is received at most once where receives are made on foremost handles
(`at_most_once`), and none is skipped exactly where they are made on clear handles
(`skips_nothing_iff`).  Two workers both get the one message there is
(`received_twice`), and of two messages that wait the first is lost
(`first_letter_skipped`).
-/
import Dolda.Mailbox.Disk
import Dolda.Mailbox.Skipping

namespace Dolda.Workers

open PersistQ (AppendResult)

/-! ## The machine -/

def Event.atDisk (disk : Disk) : Event → Event
  | .create fs paths address => .create (fs.on disk) paths address
  | .get address => .get address
  | .send call sender outgoing => .send { call with fs := call.fs.on disk } sender outgoing
  | .receive handle startTime endTime => .receive handle startTime endTime
  | .peek handle startTime endTime => .peek handle startTime endTime

def Event.writes : Event → Option MailboxAddress
  | .create _ _ address => some ⟨address⟩
  | .send _ _ outgoing => some outgoing.destination
  | .get _ | .receive _ _ _ | .peek _ _ _ => none

/-- A mailbox is created in a directory that none of the mailboxes there has. -/
def OwnDir (o : Office) : Event → Prop
  | .create fs paths address => o.system.OwnDir fs paths address
  | .get _ | .send _ _ _ | .receive _ _ _ | .peek _ _ _ => True

def machine (J : SerdeJson) (H : Hasher) : Machine Office Event where
  step := step J H
  system := Office.system
  withSystem system o := { o with system }
  atDisk := Event.atDisk
  writes _ := Event.writes
  ownDir := OwnDir

section
variable {J : SerdeJson} {H : Hasher} {o o' : Office} {event : Event}

theorem create_system (o : Office) (fs : Files) (paths : PersistQ.Paths) (address : String) :
    (o.create fs paths address).2.system = (o.system.createMailbox fs paths address).2 := by
  simp only [Office.create]
  split
  · rename_i hcreate
    rw [hcreate]
  · rename_i hcreate
    rw [hcreate]

theorem get_system (o : Office) (address : String) : (o.get address).2.system = o.system := by
  simp only [Office.get]
  split
  · rfl
  · rfl
  · rfl

theorem send_system {call : Call} {sender : Mailbox} {outgoing : Mailbox.Outgoing}
    {answer : Except MailboxError String}
    (h : o.send J H call sender outgoing = some (answer, o')) :
    sender.send J H call outgoing o.system = some (answer, o'.system) := by
  simp only [Office.send] at h
  split at h
  · cases h
  · rename_i hsend
    cases h
    exact hsend

/-- **A step changes no queue** but that of the mailbox it makes or sends to. -/
theorem step_changes (hsized : J.Sized) (h : Apart o.system) (hown : OwnDir o event)
    (hstep : step J H o event = some o') : Changed o.system o'.system event.writes := by
  cases event with
  | create fs paths address =>
      cases hstep
      rw [create_system]
      exact h.createMailbox hown rfl
  | get address =>
      cases hstep
      rw [get_system]
      exact h.refl _
  | send call sender outgoing =>
      obtain ⟨⟨answer, o''⟩, hsend, rfl⟩ := Option.map_eq_some_iff.mp hstep
      exact h.send hsized (send_system hsend)
  | receive handle startTime endTime =>
      obtain ⟨⟨answer, o''⟩, hreceive, rfl⟩ := Option.map_eq_some_iff.mp hstep
      obtain ⟨mailbox, mailbox', -, -, rfl⟩ := receive_moved hreceive
      exact h.refl _
  | peek handle startTime endTime =>
      obtain ⟨answer, -, rfl⟩ := Option.map_eq_some_iff.mp hstep
      exact h.refl _

theorem machine_lawful (hsized : J.Sized) : (machine J H).Lawful where
  withSystem_system _ := rfl
  writes_atDisk _ _ event := by
    cases event <;> rfl
  ownDir_atDisk _ _ event := by
    cases event <;> exact Iff.rfl
  changes := step_changes hsized

theorem exists_stepOnDisk (hsized : J.Sized) {w : OnDisk Office}
    (hmirrors : Mirrors w.disk w.state.system) (event : Event) (hown : OwnDir w.state event)
    (hstep : step J H w.state (event.atDisk w.disk) = some o) :
    ∃ w', (machine J H).stepOnDisk w event = some w' ∧ w'.state = o ∧
      Mirrors w'.disk w'.state.system :=
  (machine_lawful hsized).exists_step hmirrors hown hstep

/-- A new system on a disk, whatever the files there hold. -/
def start (disk : Disk) (system : MailboxSystem) : OnDisk Office := ⟨disk, .start system⟩

theorem start_mirrors {fs : Files} {baseDir : String} {system : MailboxSystem}
    (hnew : MailboxSystem.new fs baseDir = .ok system) (disk : Disk) :
    Mirrors (start disk system).disk (start disk system).state.system :=
  .of_empty (MailboxSystem.lookup_of_new hnew) disk

/-! ### What is asked of events -/

theorem meets_atDisk (disk : Disk) : Meets o (event.atDisk disk) ↔ Meets o event := by
  cases event <;> exact Iff.rfl

theorem readsClear_atDisk (disk : Disk) :
    ReadsClear J o (event.atDisk disk) ↔ ReadsClear J o event := by
  cases event <;> exact Iff.rfl

theorem unskipped_atDisk (disk : Disk) :
    Unskipped J o (event.atDisk disk) ↔ Unskipped J o event := by
  cases event <;> exact Iff.rfl

theorem returnedOn_atDisk (disk : Disk) (handle : Nat) :
    returnedOn J handle o (event.atDisk disk) = returnedOn J handle o event := by
  cases event <;> rfl

theorem run_mirrors (hsized : J.Sized) {fs : Files} {baseDir : String} {system : MailboxSystem}
    (hnew : MailboxSystem.new fs baseDir = .ok system) {disk : Disk} {events : List Event}
    {w : OnDisk Office}
    (hown : Lts.Guarded (machine J H).stepOnDisk (fun w event => OwnDir w.state event)
      (start disk system) events)
    (hrun : Lts.run (machine J H).stepOnDisk (start disk system) events = some w) :
    Mirrors w.disk w.state.system ∧ Stocked J w.state := by
  have hsteps := (machine_lawful (H := H) hsized).stepsOf
  have hmirrors := start_mirrors hnew disk
  have hstate := hsteps.run_eq hmirrors hown
  rw [hrun, Option.map_some] at hstate
  refine ⟨hsteps.run_keeps hmirrors hown hrun, ?_⟩
  exact Lts.run_invariant (Stocked J) (fun h hstep => h.step hsized hstep) (start_stocked hnew)
    hstate

end

/-! ### Letters on a disk

A mailbox is created on an empty disk and is sent a letter, which goes to the first
segment and waits for two workers; a handle that has received nothing receives it. -/

section
open Delivery (bob alice letter letterText letterCall firstId secondId freshCall twoLetters
  twoLetters_lawful emptySystem)

variable {w : OnDisk Office} {queue : PersistQ} {acked : List (AppendResult × List UInt8)}

/-- A mailbox of the system whose queue holds what was acknowledged. -/
structure Serves (w : OnDisk Office) (queue : PersistQ)
    (acked : List (AppendResult × List UInt8)) : Prop where
  mirrors : Mirrors w.disk w.state.system
  lookup : w.state.system.mailboxes.lookup bob.address = some queue
  holds : queue.Holds crc32Hasher acked
  segmentSize : queue.config.segmentSize = MailboxSystem.segmentSize
  numPartitions : queue.config.numPartitions = 1

theorem exists_created : ∃ w queue,
    (machine twoLetters crc32Hasher).stepOnDisk (start (fun _ => []) emptySystem)
      (.create .fresh .plain "bob@dolda") = some w ∧
    OwnDir (.start emptySystem) (.create .fresh .plain "bob@dolda") ∧
    w.state.handles = [bob] ∧ w.state.sent = [] ∧ w.state.received = [] ∧ Serves w queue [] := by
  let disk : Disk := fun _ => []
  obtain ⟨system, queue, hcreate, hsystem, hholds, hsize, hpartitions⟩ :=
    Delivery.bob_created (Files.fresh_willing.on disk) crc32Hasher
  have hstep : step twoLetters crc32Hasher (.start emptySystem)
      (.create (Files.fresh.on disk) .plain "bob@dolda") = some ⟨system, [bob], [], []⟩ := by
    simp only [step, Office.create, Office.start, hcreate, List.nil_append]
  have hown : OwnDir (.start emptySystem) (.create .fresh .plain "bob@dolda") := by
    intro _ path _ b queue hb
    cases (AList.lookup_empty b).symm.trans hb
  obtain ⟨w, hw, hstate, hmirrors⟩ :=
    exists_stepOnDisk twoLetters_sized (start_mirrors emptySystem_new disk) _ hown hstep
  have hlookup : w.state.system.mailboxes.lookup bob.address = some queue := by
    rw [hstate, hsystem]
    exact emptySystem.putQueue_lookup _ queue
  refine ⟨w, queue, hw, hown, ?_, ?_, ?_, hmirrors, hlookup, hholds, hsize, hpartitions⟩
  · rw [hstate]
  · rw [hstate]
  · rw [hstate]

theorem Serves.exists_sent (h : Serves w queue acked) {id : String} {byte : UInt8}
    {bytes : List UInt8} (hbytes : twoLetters.toVec (letter id byte) = .ok bytes)
    (hfit : (acked.map Prod.snd).flatten.length ≤ 171) (startTime endTime : Nat) :
    ∃ w' result queue',
      (machine twoLetters crc32Hasher).stepOnDisk w
        (.send (freshCall startTime endTime 1700000000000000 id) alice
          (.sendTo "bob@dolda" [byte])) = some w' ∧
      w'.state.handles = w.state.handles ∧
      w'.state.sent = w.state.sent ++ [⟨letter id byte, some 0⟩] ∧
      w'.state.received = w.state.received ∧ Serves w' queue' (acked ++ [(result, bytes)]) := by
  obtain ⟨result, queue', hsend, hconfig, hholds⟩ := Delivery.send_letter
    (Files.fresh_willing.on w.disk) h.lookup h.holds h.segmentSize hbytes startTime endTime
  have hcur : queue'.currentSegment = some 0 := by
    refine hholds.currentSegment_first (hconfig ▸ h.numPartitions) ?_
    rw [hconfig, h.segmentSize, List.map_append, List.map_singleton, List.flatten_append,
      List.flatten_singleton, List.length_append]
    exact (Nat.add_le_add hfit (Delivery.twoLetters_length hbytes)).trans (by decide)
  have hposted := posted_putQueue w.state.system queue' (letter id byte) id
  rw [hcur] at hposted
  have hstep : step twoLetters crc32Hasher w.state
      (.send (letterCall (Files.fresh.on w.disk) startTime endTime id) alice
        (.sendTo "bob@dolda" [byte])) =
      some { w.state with
        system := w.state.system.putQueue bob.address queue'
        sent := w.state.sent ++ [⟨letter id byte, some 0⟩] } := by
    simp only [step, Office.send, hsend, Option.map_some]
    rw [← hposted]
    rfl
  obtain ⟨w', hw', hstate, hmirrors⟩ :=
    exists_stepOnDisk twoLetters_sized h.mirrors (.send
      (freshCall startTime endTime 1700000000000000 id) alice (.sendTo "bob@dolda" [byte]))
      trivial hstep
  have hlookup : w'.state.system.mailboxes.lookup bob.address = some queue' := by
    rw [hstate]
    exact w.state.system.putQueue_lookup bob.address queue'
  refine ⟨w', result, queue', hw', ?_, ?_, ?_, hmirrors, hlookup, hholds,
    hconfig ▸ h.segmentSize, hconfig ▸ h.numPartitions⟩
  · rw [hstate]
  · rw [hstate]
  · rw [hstate]

/-- Mailboxes of their own, and receives on foremost handles. -/
def OwnMeets (w : OnDisk Office) (event : Event) : Prop :=
  OwnDir w.state event ∧ Meets w.state event

theorem exists_pending : ∃ w queue acked,
    Lts.run (machine twoLetters crc32Hasher).stepOnDisk (start (fun _ => []) emptySystem)
      (hire ++ [sendLetter]) = some w ∧
    Lts.Guarded (machine twoLetters crc32Hasher).stepOnDisk OwnMeets
      (start (fun _ => []) emptySystem) (hire ++ [sendLetter]) ∧
    w.state.handles = [bob, bob] ∧ w.state.sent = [⟨letter firstId 65, some 0⟩] ∧
    w.state.received = [] ∧ Serves w queue acked := by
  obtain ⟨w₁, queue₁, hone, hown, hhandles₁, hsent₁, hreceived₁, h₁⟩ := exists_created
  have hget : step twoLetters crc32Hasher w₁.state (.get "bob@dolda") =
      some { w₁.state with handles := [bob, bob] } := by
    have hbob : w₁.state.system.getMailbox "bob@dolda" = .ok (some bob) :=
      MailboxSystem.getMailbox_of_lookup rfl h₁.lookup
    simp only [step, Office.get, hbob, hhandles₁]
    rfl
  obtain ⟨w₂, htwo, hstate₂, hmirrors₂⟩ :=
    exists_stepOnDisk twoLetters_sized h₁.mirrors (.get "bob@dolda") trivial hget
  have h₂ : Serves w₂ queue₁ [] :=
    ⟨hmirrors₂, hstate₂ ▸ h₁.lookup, h₁.holds, h₁.segmentSize, h₁.numPartitions⟩
  obtain ⟨w₃, result, queue₃, hthree, hhandles₃, hsent₃, hreceived₃, h₃⟩ :=
    h₂.exists_sent Delivery.twoLetters_first (Nat.zero_le _) 0 1
  refine ⟨w₃, queue₃, _, ?_, ?_, ?_, ?_, ?_, h₃⟩
  · simp only [hire, sendLetter, List.cons_append, List.nil_append, Lts.run, hone, htwo, hthree]
  · simp only [hire, sendLetter, List.cons_append, List.nil_append, Lts.Guarded, hone, htwo, hthree]
    exact ⟨⟨hown, trivial⟩, ⟨trivial, trivial⟩, ⟨trivial, trivial⟩, trivial⟩
  · rw [hhandles₃, hstate₂]
  · rw [hsent₃, hstate₂, hsent₁]
    rfl
  · rw [hreceived₃, hstate₂]
    exact hreceived₁

theorem exists_received (hmirrors : Mirrors w.disk w.state.system)
    (hkept : Kept twoLetters w.state bob.address)
    (hsent : w.state.sent = [⟨letter firstId 65, some 0⟩]) {handle : Nat}
    (hhandle : w.state.handles[handle]? = some bob) (startTime endTime : Nat) :
    ∃ w', (machine twoLetters crc32Hasher).stepOnDisk w (.receive handle startTime endTime) =
        some w' ∧
      w'.state = w.state.moved handle bobServed [letter firstId 65] ∧
      Mirrors w'.disk w'.state.system :=
  exists_stepOnDisk twoLetters_sized hmirrors (.receive handle startTime endTime) trivial
    (step_letter hkept hsent hhandle startTime endTime)

end

/-! ## At most once -/

/-- **At most once.**  In every run of a new system on a disk that makes its mailboxes in
directories of their own and whose receives are all made on foremost handles, however
the handles were obtained, no message is received at an address more often than it was
sent there. -/
theorem at_most_once {J : SerdeJson} {H : Hasher} (hJ : J.Lawful) (hsized : J.Sized) {fs : Files}
    {baseDir : String} {system : MailboxSystem} (hnew : MailboxSystem.new fs baseDir = .ok system)
    (disk : Disk) {events : List Event} {w : OnDisk Office}
    (hmeets : Lts.Guarded (machine J H).stepOnDisk OwnMeets (start disk system) events)
    (hrun : Lts.run (machine J H).stepOnDisk (start disk system) events = some w) :
    w.state.AtMostOnce := by
  have hsteps := (machine_lawful (H := H) hsized).stepsOf
  have hmirrors := start_mirrors hnew disk
  have hown := hmeets.imp (fun h => h.1)
  have hstate := hsteps.run_eq hmirrors hown
  rw [hrun, Option.map_some] at hstate
  have hmeets' := (hsteps.guarded_iff (fun _ => meets_atDisk _) hmirrors hown).mpr
    (hmeets.imp (fun h => h.2))
  exact (run_sound hJ hsized hnew hmeets' hstate).atMostOnce

section
open Delivery (bob letter firstId twoLetters twoLetters_lawful emptySystem)

/-- A letter received by one of two workers. -/
theorem at_most_once_letter : ∃ w,
    Lts.run (machine twoLetters crc32Hasher).stepOnDisk (start (fun _ => []) emptySystem)
      (hire ++ [sendLetter] ++ [.receive 0 2 3]) = some w ∧
    w.state.receivedAt bob.address = [letter firstId 65] ∧ w.state.AtMostOnce := by
  obtain ⟨w, _, _, hrun, hmeets, hhandles, hsent, hreceived, h⟩ := exists_pending
  obtain ⟨-, hstocked⟩ :=
    run_mirrors twoLetters_sized emptySystem_new (hmeets.imp (fun h => h.1)) hrun
  have hhandle : w.state.handles[0]? = some bob := by rw [hhandles]; rfl
  obtain ⟨w', hstep, hstate, -⟩ :=
    exists_received h.mirrors (hstocked.kept _) hsent hhandle 2 3
  have hfirst : OwnMeets w (.receive 0 2 3) := by
    refine ⟨trivial, ?_⟩
    intro mailbox hmailbox
    cases hhandle.symm.trans hmailbox
    refine ⟨?_, ?_⟩
    · intro other hother _
      rw [hhandles] at hother
      rcases List.mem_pair.mp hother with rfl | rfl
      · exact Nat.le_refl _
      · exact Nat.le_refl _
    · intro x hx
      have hmem := List.mem_of_getElem? hx
      rw [Office.sentTo, hsent] at hmem
      cases List.mem_singleton.mp (List.mem_of_mem_filter hmem)
      rfl
  have hrun' : Lts.run (machine twoLetters crc32Hasher).stepOnDisk
      (start (fun _ => []) emptySystem) (hire ++ [sendLetter] ++ [.receive 0 2 3]) = some w' := by
    rw [Lts.run_append, hrun]
    simp only [Option.bind_some, Lts.run, hstep]
  have hmeets' : Lts.Guarded (machine twoLetters crc32Hasher).stepOnDisk OwnMeets w
      [.receive 0 2 3] := by
    refine ⟨hfirst, ?_⟩
    rw [hstep]
    trivial
  refine ⟨w', hrun', ?_, at_most_once twoLetters_lawful twoLetters_sized emptySystem_new
    (fun _ => []) (hmeets.append hrun hmeets') hrun'⟩
  rw [hstate, receivedAt_moved, Office.receivedAt, hreceived]
  rfl

/-- **Both of two workers receive the one letter sent.** -/
theorem received_twice : ∃ w,
    MailboxSystem.new Files.fresh "/data" = .ok emptySystem ∧
    Lts.run (machine twoLetters crc32Hasher).stepOnDisk (start (fun _ => []) emptySystem)
      (hire ++ [sendLetter] ++ [.receive 0 2 3, .receive 1 4 5]) = some w ∧
    (w.state.sentTo bob.address).map Sent.message = [letter firstId 65] ∧
    w.state.receivedAt bob.address = [letter firstId 65, letter firstId 65] ∧
    ¬ w.state.AtMostOnce := by
  obtain ⟨w, _, _, hrun, hmeets, hhandles, hsent, hreceived, h⟩ := exists_pending
  obtain ⟨-, hstocked⟩ :=
    run_mirrors twoLetters_sized emptySystem_new (hmeets.imp (fun h => h.1)) hrun
  have hzero : w.state.handles[0]? = some bob := by rw [hhandles]; rfl
  obtain ⟨w₁, hstep₁, hstate₁, hmirrors₁⟩ :=
    exists_received h.mirrors (hstocked.kept _) hsent hzero 2 3
  have hkept₁ : Kept twoLetters w₁.state bob.address := by
    rw [hstate₁]
    exact (hstocked.kept bob.address).frame rfl rfl
  have hone : w₁.state.handles[1]? = some bob := by
    rw [hstate₁, Office.moved, hhandles]
    rfl
  have hsent₁ : w₁.state.sent = [⟨letter firstId 65, some 0⟩] := by
    rw [hstate₁]
    exact hsent
  obtain ⟨w₂, hstep₂, hstate₂, -⟩ := exists_received hmirrors₁ hkept₁ hsent₁ hone 4 5
  have hsentTo : (w₂.state.sentTo bob.address).map Sent.message = [letter firstId 65] := by
    rw [hstate₂, Office.sentTo, Office.moved, hsent₁]
    decide +kernel
  have htwice : w₂.state.receivedAt bob.address = [letter firstId 65, letter firstId 65] := by
    rw [hstate₂, receivedAt_moved, hstate₁, receivedAt_moved, Office.receivedAt, hreceived]
    rfl
  refine ⟨w₂, emptySystem_new, ?_, hsentTo, htwice, ?_⟩
  · rw [Lts.run_append, hrun]
    simp only [Option.bind_some, Lts.run, hstep₁, hstep₂]
  · intro honce
    have hle := honce bob.address (letter firstId 65)
    rw [htwice, hsentTo] at hle
    simp only [List.count_cons_self, List.count_nil] at hle
    omega

end

/-! ## Nothing skipped

Being clear is a condition on what was sent and where it went, so it says the same of a
run on the disk and of the run with queues in memory that goes along with it; and a
receive on the disk is judged by the queue as it is there. -/

/-- The receive is proper, on the queue as it is on the disk. -/
def UnskippedOnDisk (J : SerdeJson) (H : Hasher) (w : OnDisk Office) (event : Event) : Prop :=
  Unskipped J ((machine J H).view w) event

/-- What a receive on one handle returns on the disk. -/
def returnedOnDisk (J : SerdeJson) (H : Hasher) (handle : Nat) (w : OnDisk Office)
    (event : Event) : List Message :=
  returnedOn J handle ((machine J H).view w) event

/-- **Failed receives skip nothing, exactly where receives are clear.**  In every run of
a new system on a disk that makes its mailboxes in directories of their own, the receives
that fail leave their handles as they were, and the others return the next message, iff
each is made on a clear handle; and then every handle has returned the messages before
its offset, in the order they were sent. -/
theorem skips_nothing_iff {J : SerdeJson} {H : Hasher} (hJ : J.Lawful) (htails : J.RejectsTails)
    (hsized : J.Sized) {fs : Files} {baseDir : String} {system : MailboxSystem}
    (hnew : MailboxSystem.new fs baseDir = .ok system) (disk : Disk) (events : List Event)
    (hown : Lts.Guarded (machine J H).stepOnDisk (fun w event => OwnDir w.state event)
      (start disk system) events) :
    (Lts.Guarded (machine J H).stepOnDisk (UnskippedOnDisk J H) (start disk system) events ↔
      Lts.Guarded (machine J H).stepOnDisk (fun w event => ReadsClear J w.state event)
        (start disk system) events) ∧
    (Lts.Guarded (machine J H).stepOnDisk (fun w event => ReadsClear J w.state event)
        (start disk system) events →
      ∀ w, Lts.run (machine J H).stepOnDisk (start disk system) events = some w →
        ∀ handle mailbox, w.state.handles[handle]? = some mailbox →
          Lts.outputs (machine J H).stepOnDisk (returnedOnDisk J H handle) (start disk system)
              events =
            ((w.state.sentTo mailbox.address).take mailbox.readOffset).map Sent.message) := by
  have hlawful := machine_lawful (H := H) hsized
  have hsteps := hlawful.stepsOf
  have hmirrors := start_mirrors hnew disk
  obtain ⟨hiff, hturn⟩ := run_proper_iff (H := H) hJ htails hsized hnew
    (Lts.relabel (machine J H).stepOnDisk (fun w event => (machine J H).atDisk w.disk event)
      (start disk system) events)
  have hclear := hsteps.guarded_iff (q := ReadsClear J)
    (p := fun w event => ReadsClear J w.state event) (fun _ => readsClear_atDisk _) hmirrors hown
  have hproper := hsteps.guarded_iff (q := Unskipped J) (p := UnskippedOnDisk J H)
    (fun {w event} hw => by
      rw [UnskippedOnDisk, hlawful.view_eq hw]
      exact unskipped_atDisk w.disk) hmirrors hown
  refine ⟨hproper.symm.trans (hiff.trans hclear), ?_⟩
  intro hok w hrun handle mailbox hhandle
  have hstate := hsteps.run_eq hmirrors hown
  rw [hrun, Option.map_some] at hstate
  rw [← hturn (hclear.mpr hok) w.state hstate handle mailbox hhandle]
  refine (hsteps.outputs_eq _ _ (fun {w event} hw => ?_) hmirrors hown).symm
  rw [returnedOnDisk, hlawful.view_eq hw]
  exact returnedOn_atDisk w.disk handle

section
open Delivery (bob alice letter letterText firstId secondId freshCall twoLetters twoLetters_lawful
  twoLetters_rejectsTails emptySystem)

/-- A letter sent and received. -/
theorem skips_nothing_letter : ∃ w,
    Lts.run (machine twoLetters crc32Hasher).stepOnDisk (start (fun _ => []) emptySystem)
      (hire ++ [sendLetter] ++ [.receive 0 2 3]) = some w ∧
    Lts.Guarded (machine twoLetters crc32Hasher).stepOnDisk
      (UnskippedOnDisk twoLetters crc32Hasher) (start (fun _ => []) emptySystem)
      (hire ++ [sendLetter] ++ [.receive 0 2 3]) ∧
    Lts.outputs (machine twoLetters crc32Hasher).stepOnDisk
      (returnedOnDisk twoLetters crc32Hasher 0) (start (fun _ => []) emptySystem)
      (hire ++ [sendLetter] ++ [.receive 0 2 3]) = [letter firstId 65] := by
  obtain ⟨w, _, _, hrun, hmeets, hhandles, hsent, -, h⟩ := exists_pending
  obtain ⟨-, hstocked⟩ :=
    run_mirrors twoLetters_sized emptySystem_new (hmeets.imp (fun h => h.1)) hrun
  have hhandle : w.state.handles[0]? = some bob := by rw [hhandles]; rfl
  obtain ⟨w', hstep, hstate, -⟩ :=
    exists_received h.mirrors (hstocked.kept _) hsent hhandle 2 3
  have hsentTo : w.state.sentTo bob.address = [⟨letter firstId 65, some 0⟩] := by
    rw [Office.sentTo, hsent]
    decide +kernel
  have hclear : Clear twoLetters w.state bob := by
    refine ⟨?_, ?_⟩
    · intro x _ _ k y hk hy
      rw [hsentTo] at hy
      cases k with
      | zero => exact absurd hk (Nat.lt_irrefl 0)
      | succ k => cases hy
    · intro x hx hother
      rw [hsentTo] at hx
      cases hx
      exact absurd rfl hother
  have hrun' : Lts.run (machine twoLetters crc32Hasher).stepOnDisk
      (start (fun _ => []) emptySystem) (hire ++ [sendLetter] ++ [.receive 0 2 3]) = some w' := by
    rw [Lts.run_append, hrun]
    simp only [Option.bind_some, Lts.run, hstep]
  have hown : Lts.Guarded (machine twoLetters crc32Hasher).stepOnDisk
      (fun w event => OwnDir w.state event) (start (fun _ => []) emptySystem)
      (hire ++ [sendLetter] ++ [.receive 0 2 3]) := by
    refine (hmeets.imp (fun h => h.1)).append hrun ⟨trivial, ?_⟩
    rw [hstep]
    trivial
  have hclears : Lts.Guarded (machine twoLetters crc32Hasher).stepOnDisk
      (fun w event => ReadsClear twoLetters w.state event) (start (fun _ => []) emptySystem)
      (hire ++ [sendLetter] ++ [.receive 0 2 3]) := by
    refine Lts.Guarded.append ?_ hrun ?_
    · -- the first three events are no receives
      have hevents : ∀ event ∈ hire ++ [sendLetter], ∀ o, ReadsClear twoLetters o event := by
        intro event hevent
        simp only [hire, List.cons_append, List.nil_append, List.mem_cons, List.not_mem_nil,
          or_false] at hevent
        rcases hevent with rfl | rfl | rfl
        · exact fun _ => trivial
        · exact fun _ => trivial
        · exact fun _ => trivial
      exact (hmeets.and_forall hevents).imp (fun hok => hok.2 _)
    · refine ⟨?_, ?_⟩
      · intro mailbox hmailbox
        cases hhandle.symm.trans hmailbox
        exact hclear
      · rw [hstep]
        trivial
  obtain ⟨hiff, hturn⟩ := skips_nothing_iff (H := crc32Hasher) twoLetters_lawful twoLetters_rejectsTails
    twoLetters_sized emptySystem_new (fun _ => []) (hire ++ [sendLetter] ++ [.receive 0 2 3]) hown
  refine ⟨w', hrun', hiff.mpr hclears, ?_⟩
  have hserved : w'.state.handles[0]? = some bobServed := by
    rw [hstate, Office.moved, hhandles]
    rfl
  rw [hturn hclears w' hrun' 0 bobServed hserved, hstate]
  show (((w.state.sentTo bob.address).take 1).map Sent.message) = _
  rw [hsentTo]
  rfl

/-- The second letter. -/
def sendSecond : Event :=
  .send (freshCall 2 3 1700000000000000 secondId) alice (.sendTo "bob@dolda" [66])

/-- A mailbox, and two letters to it. -/
def twoSends : List Event := [.create .fresh .plain "bob@dolda", sendLetter, sendSecond]

theorem exists_two_pending : ∃ w queue acked,
    Lts.run (machine twoLetters crc32Hasher).stepOnDisk (start (fun _ => []) emptySystem)
      twoSends = some w ∧
    Lts.Guarded (machine twoLetters crc32Hasher).stepOnDisk
      (fun w event => OwnDir w.state event) (start (fun _ => []) emptySystem) twoSends ∧
    w.state.handles = [bob] ∧
    w.state.sent = [⟨letter firstId 65, some 0⟩, ⟨letter secondId 66, some 0⟩] ∧
    Serves w queue acked := by
  obtain ⟨w₁, queue₁, hone, hown, hhandles₁, hsent₁, -, h₁⟩ := exists_created
  obtain ⟨w₂, result₂, queue₂, htwo, hhandles₂, hsent₂, -, h₂⟩ :=
    h₁.exists_sent Delivery.twoLetters_first (Nat.zero_le _) 0 1
  have hfit : (([] ++ [(result₂, letterText firstId "65")]).map Prod.snd).flatten.length ≤ 171 := by
    rw [List.nil_append, List.map_singleton, List.flatten_singleton]
    exact Delivery.twoLetters_length Delivery.twoLetters_first
  obtain ⟨w₃, result₃, queue₃, hthree, hhandles₃, hsent₃, -, h₃⟩ :=
    h₂.exists_sent Delivery.twoLetters_second hfit 2 3
  refine ⟨w₃, queue₃, _, ?_, ?_, ?_, ?_, h₃⟩
  · simp only [twoSends, sendLetter, sendSecond, Lts.run, hone, htwo, hthree]
  · simp only [twoSends, sendLetter, sendSecond, Lts.Guarded, hone, htwo, hthree]
    exact ⟨hown, trivial, trivial, trivial⟩
  · rw [hhandles₃, hhandles₂, hhandles₁]
  · rw [hsent₃, hsent₂, hsent₁]
    rfl

/-- **A letter skipped**: two letters wait, the first receive fails and has moved past
the first of them, and the next receive returns the second. -/
theorem first_letter_skipped : ∃ w e,
    MailboxSystem.new Files.fresh "/data" = .ok emptySystem ∧
    Lts.run (machine twoLetters crc32Hasher).stepOnDisk (start (fun _ => []) emptySystem)
      twoSends = some w ∧
    w.state.handles = [bob] ∧
    (w.state.sentTo bob.address).map Sent.message = [letter firstId 65, letter secondId 66] ∧
    bob.receive twoLetters 4 5 (w.state.system.attach w.disk) =
      some (.error (.serialization e), bobServed) ∧
    bobServed.receive twoLetters 6 7 (w.state.system.attach w.disk) =
      some (.ok (some (letter secondId 66)), { bob with readOffset := 2 }) ∧
    ¬ Lts.Guarded (machine twoLetters crc32Hasher).stepOnDisk
      (UnskippedOnDisk twoLetters crc32Hasher) (start (fun _ => []) emptySystem)
      (twoSends ++ [.receive 0 4 5]) := by
  obtain ⟨w, _, _, hrun, hown, hhandles, hsent, h⟩ := exists_two_pending
  obtain ⟨hmirrors, hstocked⟩ := run_mirrors twoLetters_sized emptySystem_new hown hrun
  have hsentTo : w.state.sentTo bob.address =
      [⟨letter firstId 65, some 0⟩, ⟨letter secondId 66, some 0⟩] := by
    rw [Office.sentTo, hsent]
    decide +kernel
  have hhandle : w.state.handles[0]? = some bob := by rw [hhandles]; rfl
  have hnotClear : ¬ Unskipped twoLetters w.state (.receive 0 4 5) := by
    rw [hstocked.unskipped_iff twoLetters_lawful twoLetters_rejectsTails]
    intro hclear
    have halone := (hclear bob hhandle).alone ⟨letter firstId 65, some 0⟩
    rw [hsentTo] at halone
    exact halone rfl rfl 1 ⟨letter secondId 66, some 0⟩ Nat.zero_lt_one rfl rfl
  obtain ⟨queue, entries, hbox⟩ : ∃ queue entries,
      Box twoLetters w.state bob.address queue entries := by
    rcases hstocked.kept bob.address with ⟨-, hnil⟩ | hbox
    · cases hsentTo.symm.trans hnil
    · exact hbox
  have hbox' : Box twoLetters w.state bobServed.address queue entries := hbox
  obtain ⟨bytes₁, behind₁, hbytes₁, hbehind, -, hreceive₁⟩ := hbox.receive_due twoLetters_lawful
    (x := ⟨letter firstId 65, some 0⟩) (by rw [hsentTo]; rfl) rfl 4 5
  obtain ⟨bytes₂, behind₂, hbytes₂, -, hlast, hreceive₂⟩ := hbox'.receive_due twoLetters_lawful
    (x := ⟨letter secondId 66, some 0⟩) (by
      show (w.state.sentTo bob.address)[1]? = _
      rw [hsentTo]
      rfl) rfl 6 7
  have hnil : behind₂ = [] := hlast (by
    show 2 = (w.state.sentTo bob.address).length
    rw [hsentTo]
    rfl)
  rw [hnil, List.append_nil, Message.fromBytes, twoLetters_lawful.fromSlice_toVec hbytes₂]
    at hreceive₂
  have hfails : ∃ e, twoLetters.fromSlice (bytes₁ ++ behind₁) = .error e := by
    rcases hbehind with rfl | ⟨rest, rfl⟩
    · refine absurd ?_ hnotClear
      intro mailbox answer mailbox' hmailbox hreceive
      cases hhandle.symm.trans hmailbox
      rw [List.append_nil, Message.fromBytes, twoLetters_lawful.fromSlice_toVec hbytes₁]
        at hreceive₁
      cases hreceive.symm.trans hreceive₁
      refine ⟨?_, ?_⟩
      · intro e he
        cases he
      · intro m hm
        cases hm
        exact ⟨_, by rw [hsentTo]; rfl, rfl⟩
    · exact twoLetters_lawful.trailing hbytes₁ rfl
  obtain ⟨e, hfails⟩ := hfails
  rw [Message.fromBytes, hfails] at hreceive₁
  refine ⟨w, e, emptySystem_new, hrun, hhandles, ?_, ?_, ?_, ?_⟩
  · rw [hsentTo]
    rfl
  · rw [hmirrors.attach]
    exact hreceive₁
  · rw [hmirrors.attach]
    exact hreceive₂
  · intro hguarded
    have hlast := hguarded.last hrun
    rw [UnskippedOnDisk, (machine_lawful twoLetters_sized).view_eq hmirrors] at hlast
    exact hnotClear hlast

end

end Dolda.Workers
