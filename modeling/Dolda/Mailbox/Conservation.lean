/-
# `Dolda.Mailbox.Conservation` — what each operation does to the queues

Runs over the files on a disk, with what each send is answered with.  A queue is
what it is with the bytes of its files (`World.contents`).

**The rule.**  In runs that create each mailbox in a directory no other has, a
send that is answered with `Ok` adds one entry to the queue it is for, at the
end, and every other operation adds none (`Effect`): so a queue's `total_records`
is the number of sends to its address that were answered so (`conserved`).

**The invariant.**  `Counted`: every queue has one partition, laid out in a
directory of its own, and has numbered as many entries as were acknowledged.
-/
import Dolda.Mailbox.Isolation

namespace Dolda.Isolation

open PersistQ (Added Unadded)
open Workers (Event)

/-! ## What is acknowledged -/

/-- What a send is answered with; `none` if it does not return. -/
def World.sendAnswer (J : SerdeJson) (H : Hasher) (call : Call) (sender : Mailbox)
    (outgoing : Mailbox.Outgoing) (w : World) : Option (Except MailboxError String) :=
  match sender.compose call.id call.timestamp outgoing with
  | .error e => some (.error e)
  | .ok m =>
      (sender.send J H (onDisk w.disk call) outgoing (load w.disk m.to_ w.system)).map Prod.fst

/-- The address of a send that is answered with `Ok`. -/
def acknowledged (J : SerdeJson) (H : Hasher) (w : World) : Event → List MailboxAddress
  | .send call sender outgoing =>
      match w.sendAnswer J H call sender outgoing with
      | some (.ok _) => [outgoing.destination]
      | _ => []
  | _ => []

/-! ## What an operation does -/

/-- The message's text was added to the queue it is for. -/
def Posted (J : SerdeJson) (call : Call) (sender : Mailbox) (outgoing : Mailbox.Outgoing)
    (w w' : World) : Prop :=
  ∃ m data queue queue', sender.compose call.id call.timestamp outgoing = .ok m ∧
    J.toVec m = .ok data ∧ w.contents outgoing.destination = some queue ∧
    w'.contents outgoing.destination = some queue' ∧ Added queue queue' data

/-- What an operation does to the queues. -/
def Effect (J : SerdeJson) (H : Hasher) (w w' : World) : Event → Prop
  | .create _ _ address =>
      (∀ b, b ≠ ⟨address⟩ → w'.contents b = w.contents b) ∧
        (w'.contents ⟨address⟩ = w.contents ⟨address⟩ ∨
          w.contents ⟨address⟩ = none ∧ ∃ queue, w'.contents ⟨address⟩ = some queue ∧
            queue.stats.totalRecords = 0)
  | .send call sender outgoing =>
      (∀ b, b ≠ outgoing.destination → w'.contents b = w.contents b) ∧
        match w.sendAnswer J H call sender outgoing with
        | some (.ok _) => Posted J call sender outgoing w w'
        | some (.error (.mailboxNotFound _)) =>
            w'.contents outgoing.destination = w.contents outgoing.destination
        | _ => Option.Rel Unadded (w.contents outgoing.destination)
            (w'.contents outgoing.destination)
  | _ => ∀ b, w'.contents b = w.contents b

section
variable {J : SerdeJson} {H : Hasher} {w w' : World} {a b : MailboxAddress}
  {queue queue' : PersistQ} {acked : List MailboxAddress} {call : Call} {sender : Mailbox}
  {outgoing : Mailbox.Outgoing} {m : Message}

/-! ## The invariant

Only the system matters to it, and in the system what is in the queues. -/

structure Counted (w : World) (acked : List MailboxAddress) : Prop where
  tidy : Tidy w
  single : ∀ b queue, w.system.mailboxes.lookup b = some queue → queue.Single
  records : ∀ b queue, w.system.mailboxes.lookup b = some queue →
    queue.globalOffset = acked.count b
  unknown : ∀ b, w.system.mailboxes.lookup b = none → acked.count b = 0

theorem Counted.frame (h : Counted w acked) (hsystem : w'.system = w.system) :
    Counted w' acked where
  tidy := ⟨hsystem ▸ h.tidy.housed, hsystem ▸ h.tidy.apart⟩
  single := hsystem ▸ h.single
  records := hsystem ▸ h.records
  unknown := hsystem ▸ h.unknown

/-- A queue put where it belongs, with as many entries more as were acknowledged. -/
theorem Counted.put (h : Counted w acked) (hsingle : queue.Single)
    (hfree : Free w a queue.config.storageDir) {more : List MailboxAddress}
    (hmore : ∀ b, b ≠ a → more.count b = 0)
    (hrecords : queue.globalOffset = (acked ++ more).count a) :
    Counted (w.put a queue) (acked ++ more) where
  tidy := h.tidy.put hsingle.housed hfree
  single := by
    intro b queue' hb
    by_cases hba : b = a
    · subst hba
      cases (put_lookup w b queue).symm.trans hb
      exact hsingle
    · exact h.single b queue' ((put_lookup_ne w queue hba).symm.trans hb)
  records := by
    intro b queue' hb
    by_cases hba : b = a
    · subst hba
      cases (put_lookup w b queue).symm.trans hb
      exact hrecords
    · rw [List.count_append, hmore b hba, Nat.add_zero]
      exact h.records b queue' ((put_lookup_ne w queue hba).symm.trans hb)
  unknown := by
    intro b hb
    by_cases hba : b = a
    · subst hba
      cases (put_lookup w b queue).symm.trans hb
    · rw [List.count_append, hmore b hba, Nat.add_zero]
      exact h.unknown b ((put_lookup_ne w queue hba).symm.trans hb)

theorem put_contents (hsingle : queue.Single) : (w.put a queue).contents a = some queue := by
  rw [World.contents, put_lookup]
  exact congrArg some (hsingle.attach_spill w.disk)

/-- **No other queue is changed** by one put where it belongs. -/
theorem Counted.put_contents_ne (h : Counted w acked) (hhoused : queue.Housed)
    (hfree : Free w a queue.config.storageDir) (hba : b ≠ a) :
    (w.put a queue).contents b = w.contents b := by
  rw [World.contents, World.contents, put_lookup_ne w queue hba]
  cases hlookup : w.system.mailboxes.lookup b with
  | none => rfl
  | some queue' =>
      refine congrArg some (PersistQ.attach_congr (h.tidy.housed b queue' hlookup) ?_)
      intro path hpath
      refine PersistQ.spill_other hhoused ?_ w.disk
      intro hin
      exact hba (hfree b queue' hlookup (hpath.unique hin))

theorem contents_of_lookup (hlookup : w.system.mailboxes.lookup a = some queue) :
    w.contents a = some (queue.attach w.disk) := by
  rw [World.contents, hlookup]
  rfl

/-! ## Sends

A send changes a queue only by one append to it as it is on the disk, and the append is
acknowledged iff the queue has an entry more. -/

/-- **What a send comes to**: no mailbox, no text, or an append to the queue as it is
on the disk. -/
theorem send_cases (hm : sender.compose call.id call.timestamp outgoing = .ok m)
    (hsend : w.send J H call sender outgoing = some w') :
    (w.system.mailboxes.lookup m.to_ = none ∧ w' = w ∧
      w.sendAnswer J H call sender outgoing = some (.error (.mailboxNotFound m.to_.address))) ∨
    ∃ queue, w.system.mailboxes.lookup m.to_ = some queue ∧
      ((∃ e, w' = w.put m.to_ (queue.attach w.disk) ∧
          w.sendAnswer J H call sender outgoing = some (.error (.serialization e))) ∨
        ∃ bytes outcome queue', J.toVec m = .ok bytes ∧
          (queue.attach w.disk).append H (onDisk w.disk call).fs call.startTime call.endTime
            call.rounds bytes = some (some outcome, queue') ∧
          w' = w.put m.to_ queue' ∧
          w.sendAnswer J H call sender outgoing = some
            (match outcome with
              | .error e => .error (.persistQ e)
              | .ok _ => .ok m.id)) := by
  have hm' : sender.compose (onDisk w.disk call).id (onDisk w.disk call).timestamp outgoing =
      .ok m := hm
  simp only [World.send, World.sendAnswer, hm, Mailbox.send, hm'] at hsend ⊢
  cases hlookup : w.system.mailboxes.lookup m.to_ with
  | none =>
      have hload : load w.disk m.to_ w.system = w.system := by rw [load, hlookup]
      simp only [hload, MailboxSystem.routeMessage, hlookup, MailboxSystem.spill] at hsend ⊢
      cases hsend
      exact Or.inl ⟨trivial, rfl, rfl⟩
  | some queue =>
  refine Or.inr ⟨queue, rfl, ?_⟩
  simp only [load_of_lookup w.disk hlookup, MailboxSystem.routeMessage,
    MailboxSystem.putQueue_lookup, Message.toBytes] at hsend ⊢
  cases hbytes : J.toVec m with
  | error e =>
      simp only [hbytes, spill_putQueue] at hsend ⊢
      cases hsend
      exact Or.inl ⟨e, rfl, rfl⟩
  | ok bytes =>
      simp only [hbytes] at hsend ⊢
      cases happ : (queue.attach w.disk).append H (onDisk w.disk call).fs
          (onDisk w.disk call).startTime (onDisk w.disk call).endTime (onDisk w.disk call).rounds
          bytes with
      | none =>
          simp only [happ] at hsend
          cases hsend
      | some result =>
          obtain ⟨outcome, queue'⟩ := result
          cases outcome with
          | none =>
              simp only [happ] at hsend
              cases hsend
          | some outcome =>
              simp only [happ, MailboxSystem.putQueue_putQueue, spill_putQueue] at hsend ⊢
              cases hsend
              exact Or.inr ⟨bytes, outcome, queue', rfl, happ, rfl, rfl⟩

theorem Counted.sent (h : Counted w acked) (hlookup : w.system.mailboxes.lookup a = some queue)
    (hsingle : queue'.Single) (hconfig : queue'.config = queue.config)
    {more : List MailboxAddress} (hmore : ∀ b, b ≠ a → more.count b = 0)
    (hrecords : queue'.globalOffset = queue.globalOffset + more.count a) :
    Counted (w.put a queue') (acked ++ more) ∧
      ∀ b, b ≠ a → (w.put a queue').contents b = w.contents b := by
  have hfree : Free w a queue'.config.storageDir := by
    rw [hconfig]
    exact h.tidy.free hlookup
  refine ⟨h.put hsingle hfree hmore ?_, fun b hba => h.put_contents_ne hsingle.housed hfree hba⟩
  rw [List.count_append, ← h.records a queue hlookup, hrecords]

theorem count_singleton_ne (hba : b ≠ a) : [a].count b = 0 :=
  List.count_eq_zero.mpr (fun hmem => hba (List.mem_singleton.mp hmem))

theorem Counted.send (hsized : J.Sized) (h : Counted w acked)
    (hsend : w.send J H call sender outgoing = some w') :
    Counted w' (acked ++ acknowledged J H w (.send call sender outgoing)) ∧
      Effect J H w w' (.send call sender outgoing) := by
  cases hm : sender.compose call.id call.timestamp outgoing with
  | error e =>
      have hanswer : w.sendAnswer J H call sender outgoing = some (.error e) := by
        simp only [World.sendAnswer, hm]
      simp only [World.send, hm] at hsend
      cases hsend
      rw [acknowledged, hanswer, List.append_nil]
      refine ⟨h, fun _ _ => rfl, ?_⟩
      rw [hanswer]
      split
      · cases ‹_›
      · rfl
      · cases w.contents outgoing.destination with
        | none => exact .none
        | some queue => exact .some (.refl queue)
  | ok m =>
  have hto := Mailbox.compose_to_ hm
  rcases send_cases hm hsend with ⟨-, rfl, hanswer⟩ | ⟨queue, hlookup, hrest⟩
  · rw [acknowledged, hanswer, List.append_nil]
    refine ⟨h, fun _ _ => rfl, ?_⟩
    rw [hanswer]
  have hsingle := (h.single _ queue hlookup).attach w.disk
  have hcontents := contents_of_lookup hlookup
  rw [hto] at hlookup hcontents
  rcases hrest with ⟨e, rfl, hanswer⟩ | ⟨bytes, outcome, queue', hbytes, happ, rfl, hanswer⟩
  · rw [hto]
    have hsame : (queue.attach w.disk).globalOffset =
        queue.globalOffset + ([] : List MailboxAddress).count outgoing.destination := rfl
    obtain ⟨hcounted, hothers⟩ := h.sent hlookup hsingle rfl (fun _ _ => rfl) hsame
    simp only [acknowledged, Effect, hanswer]
    refine ⟨hcounted, hothers, ?_⟩
    rw [hcontents, put_contents hsingle]
    exact .some (.refl _)
  obtain ⟨hsingle', hconfig, hentered⟩ := hsingle.append (hsized hbytes) happ
  rw [hto]
  cases outcome with
  | error e =>
      have hsame : queue'.globalOffset =
          queue.globalOffset + ([] : List MailboxAddress).count outgoing.destination :=
        hentered.globalOffset
      obtain ⟨hcounted, hothers⟩ := h.sent hlookup hsingle' hconfig (fun _ _ => rfl) hsame
      simp only [acknowledged, Effect, hanswer]
      refine ⟨hcounted, hothers, ?_⟩
      rw [hcontents, put_contents hsingle']
      exact .some hentered
  | ok result =>
      have hone : queue'.globalOffset =
          queue.globalOffset + [outgoing.destination].count outgoing.destination := by
        rw [List.count_singleton_self]
        exact hentered.globalOffset
      obtain ⟨hcounted, hothers⟩ :=
        h.sent hlookup hsingle' hconfig (fun _ => count_singleton_ne) hone
      simp only [acknowledged, Effect, hanswer]
      exact ⟨hcounted, hothers, m, bytes, _, queue', hm, hbytes, hcontents, put_contents hsingle',
        hentered⟩

/-! ## The other operations

Creating a mailbox adds an empty queue, in a directory no other has, so what the others
hold stays as it was; the operations on handles change no queue. -/

theorem contents_frame (hsystem : w'.system = w.system) (hdisk : w'.disk = w.disk)
    (b : MailboxAddress) : w'.contents b = w.contents b := by
  rw [World.contents, World.contents, hsystem, hdisk]

theorem Counted.create (h : Counted w acked) {fs : Files} {paths : PersistQ.Paths}
    {address : String} (hmeets : Meets w (.create fs paths address)) :
    Counted (w.create fs paths address) acked ∧
      Effect J H w (w.create fs paths address) (.create fs paths address) := by
  have hstays : Counted w acked ∧ Effect J H w w (.create fs paths address) :=
    ⟨h, fun _ _ => rfl, Or.inl rfl⟩
  rw [create_eq]
  split
  · exact hstays
  cases hlookup : w.system.mailboxes.lookup ⟨address⟩ with
  | some queue => exact hstays
  | none =>
  dsimp only
  split
  · exact hstays
  split
  · exact hstays
  rename_i queue hnew
  obtain ⟨hsingle, hzero⟩ := PersistQ.new_single hnew rfl
  obtain ⟨-, hpath⟩ := PersistQ.new_housed hnew
  have hfree : Free w ⟨address⟩ queue.config.storageDir := by
    intro c queue' hc hsame
    exact absurd hsame (hmeets hlookup _ hpath c queue' hc)
  have hrecords : queue.globalOffset =
      (acked ++ ([] : List MailboxAddress)).count (⟨address⟩ : MailboxAddress) := by
    rw [List.append_nil, h.unknown _ hlookup, hzero]
  have hput := h.put hsingle hfree (fun _ _ => rfl) hrecords
  rw [List.append_nil] at hput
  have hopened : ∀ b, (w.opened address queue).contents b = (w.put ⟨address⟩ queue).contents b :=
    contents_frame rfl rfl
  refine ⟨hput.frame rfl, ?_, Or.inr ⟨?_, queue, ?_, hzero⟩⟩
  · intro b hb
    rw [hopened]
    exact h.put_contents_ne hsingle.housed hfree hb
  · rw [World.contents, hlookup]
    rfl
  · rw [hopened]
    exact put_contents hsingle

/-- **The step lemma.** -/
theorem Counted.step (hsized : J.Sized) (h : Counted w acked) {event : Event}
    (hmeets : Meets w event) (hstep : step J H w event = some w') :
    Counted w' (acked ++ acknowledged J H w event) ∧ Effect J H w w' event := by
  -- a step that leaves the system and the disk alone
  have hframe : w'.system = w.system → w'.disk = w.disk →
      Counted w' (acked ++ []) ∧ ∀ b, w'.contents b = w.contents b := by
    intro hsystem hdisk
    rw [List.append_nil]
    exact ⟨h.frame hsystem, contents_frame hsystem hdisk⟩
  cases event with
  | create fs paths address =>
      cases hstep
      have hcreated := h.create (J := J) (H := H) hmeets
      rw [← List.append_nil acked] at hcreated
      exact hcreated
  | get address =>
      cases hstep
      refine hframe ?_ ?_
      · rw [World.get]
        split
        · rfl
        · rfl
      · rw [World.get]
        split
        · rfl
        · rfl
  | send call sender outgoing => exact h.send hsized hstep
  | receive handle startTime endTime =>
      obtain ⟨mailbox, mailbox', answer, -, -, rfl⟩ := receive_cases hstep
      exact hframe rfl rfl
  | peek handle startTime endTime =>
      obtain ⟨mailbox, answer, -, rfl⟩ := peek_cases hstep
      exact hframe rfl rfl

theorem start_counted {fs : Files} {baseDir : String} {system : MailboxSystem}
    (hnew : MailboxSystem.new fs baseDir = .ok system) (disk : Disk) :
    Counted (.start disk system) [] := by
  have hempty := MailboxSystem.lookup_of_new hnew
  refine ⟨start_tidy hnew disk, ?_, ?_, fun _ _ => rfl⟩
  · intro b queue hb
    cases (hempty b).symm.trans hb
  · intro b queue hb
    cases (hempty b).symm.trans hb

end

section
open Delivery (bob alice letter letterText firstId emptySystem twoLetters)
open Workers (emptySystem_new sendLetter)

theorem team_and_bob : ∃ w queue,
    Lts.run (step twoLetters crc32Hasher) (.start (fun _ => []) emptySystem)
      (createBoth "team@dolda" "bob@dolda") = some w ∧
    w.handles = [⟨⟨"team@dolda"⟩, 0⟩, bob] ∧ w.HasNew "bob@dolda" queue ∧
    Lts.Guarded (step twoLetters crc32Hasher) Meets (.start (fun _ => []) emptySystem)
      (createBoth "team@dolda" "bob@dolda") := by
  have hvalid : { emptySystem.defaultConfig with
      storageDir := emptySystem.mailboxDir "team@dolda" }.Valid := by
    decide +kernel
  have hvalid' : { emptySystem.defaultConfig with
      storageDir := emptySystem.mailboxDir "bob@dolda" }.Valid := by
    decide +kernel
  obtain ⟨w, -, queue, hrun, hhandles, -, -, hnew, hguarded⟩ :=
    exists_both twoLetters crc32Hasher rfl rfl (by decide) hvalid hvalid'
  exact ⟨w, queue, hrun, hhandles, hnew, hguarded (by decide +kernel)⟩

theorem letter_to_bob {w : World} {queue : PersistQ} (hnew : w.HasNew "bob@dolda" queue) :
    ∃ queue', step twoLetters crc32Hasher w sendLetter = some (w.put bob.address queue') := by
  have hm : alice.compose firstId 1700000000000000 (.sendTo "bob@dolda" [65])
      = .ok (letter firstId 65) := rfl
  have hsize : (letterText firstId "65").length ≤ MailboxSystem.segmentSize :=
    (Delivery.twoLetters_length Delivery.twoLetters_first).trans (by decide)
  obtain ⟨queue', hsend, -⟩ :=
    send_first crc32Hasher hm rfl hnew Delivery.twoLetters_first hsize 0 1
  exact ⟨queue', hsend⟩

/-- **Conservation.**  In every run of a new system, whatever is on the disk, that creates
each mailbox in a directory no other has: every queue has as many records as sends
and replies to its address were answered with `Ok`, and the next operation, whichever
it is, adds an entry to the queue it sends to if it is answered so, and changes no
other. -/
theorem conserved {J : SerdeJson} {H : Hasher} (hsized : J.Sized) {fs : Files} {baseDir : String}
    {system : MailboxSystem} (hnew : MailboxSystem.new fs baseDir = .ok system) (disk : Disk)
    {events : List Event}
    (hmeets : Lts.Guarded (step J H) Meets (.start disk system) events) {w : World}
    (hrun : Lts.run (step J H) (.start disk system) events = some w) :
    (∀ a queue, w.contents a = some queue → queue.stats.totalRecords =
      (Lts.outputs (step J H) (acknowledged J H) (.start disk system) events).count a) ∧
    ∀ event w', Meets w event → step J H w event = some w' → Effect J H w w' event := by
  have hcounted := hmeets.collects Counted
    (fun h hok hstep => (h.step hsized hok hstep).1) (start_counted hnew disk) hrun
  rw [List.nil_append] at hcounted
  refine ⟨?_, fun event w' hok hstep => (hcounted.step hsized hok hstep).2⟩
  intro a queue hcontents
  obtain ⟨queue', hlookup, rfl⟩ := Option.map_eq_some_iff.mp hcontents
  exact hcounted.records a queue' hlookup

/-- A letter sent to one of two mailboxes. -/
theorem conserved_letter : ∃ w,
    Lts.run (step twoLetters crc32Hasher) (.start (fun _ => []) emptySystem)
      (createBoth "team@dolda" "bob@dolda" ++ [sendLetter]) = some w ∧
    (∀ a queue, w.contents a = some queue → queue.stats.totalRecords =
      (Lts.outputs (step twoLetters crc32Hasher) (acknowledged twoLetters crc32Hasher)
        (.start (fun _ => []) emptySystem)
        (createBoth "team@dolda" "bob@dolda" ++ [sendLetter])).count a) ∧
    ∀ event w', Meets w event → step twoLetters crc32Hasher w event = some w' →
      Effect twoLetters crc32Hasher w w' event := by
  obtain ⟨w, queue, hrun, -, hnew, hguarded⟩ := team_and_bob
  obtain ⟨queue₁, hstep⟩ := letter_to_bob hnew
  have hrun₁ : Lts.run (step twoLetters crc32Hasher) (.start (fun _ => []) emptySystem)
      (createBoth "team@dolda" "bob@dolda" ++ [sendLetter]) = some (w.put bob.address queue₁) := by
    rw [Lts.run_append, hrun]
    simp only [Option.bind_some, Lts.run, hstep]
  have hmeets : Lts.Guarded (step twoLetters crc32Hasher) Meets w [sendLetter] := by
    simp only [Lts.Guarded, hstep]
    exact ⟨trivial, trivial⟩
  exact ⟨_, hrun₁, conserved Workers.twoLetters_sized emptySystem_new (fun _ => [])
    (hguarded.append hrun hmeets) hrun₁⟩

end

end Dolda.Isolation
