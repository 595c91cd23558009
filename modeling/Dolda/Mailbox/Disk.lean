/-
# `Dolda.Mailbox.Disk` — mailboxes whose files are on a disk

The files of a queue are in a directory named after its address, and are shared by
all that have mapped them.  A `Machine` is anything that works on the mailboxes of a
system, with what it does given as if each queue's bytes were its own.  On the disk
(`Machine.stepOnDisk`) a step sees every queue as it is on the disk, and leaves there
the one it writes to.  What a failed creation does to a file, to give it the size it
has anyway, is left out.

**The rule.**  While each mailbox is created in a directory that none has (`OwnDir`),
every queue is on the disk as it is in memory (`Mirrors`), and a run on the disk is a
run of the machine (`Machine.Lawful.stepsOf`).  Without it two queues may have one
file, and each overwrites the other (`Dolda.Mailbox.Isolation`).
-/
import Dolda.Lib.Lts
import Dolda.PersistQ.Single
import Dolda.Mailbox.Delivery

namespace Dolda

open PersistQ (AgreeIn InDir)

/-! ## Systems -/

namespace MailboxSystem

/-- The addresses stay. -/
theorem nodupKeys_attach (disk : Disk) (mailboxes : AList (fun _ : MailboxAddress => PersistQ)) :
    (mailboxes.entries.map (Sigma.map id (fun _ => PersistQ.attach disk)) :
      List (Σ _ : MailboxAddress, PersistQ)).NodupKeys := by
  have hkeys : (mailboxes.entries.map (Sigma.map id (fun _ => PersistQ.attach disk)) :
      List (Σ _ : MailboxAddress, PersistQ)).keys = mailboxes.entries.keys := by
    rw [List.keys, List.map_map]
    rfl
  rw [List.NodupKeys, hkeys]
  exact mailboxes.nodupKeys

/-- The system, whose queues hold what is on the disk. -/
def attach (disk : Disk) (sys : MailboxSystem) : MailboxSystem :=
  { sys with
    mailboxes := ⟨sys.mailboxes.entries.map (Sigma.map id (fun _ => PersistQ.attach disk)),
      nodupKeys_attach disk _⟩ }

/-- The disk, with what the queue of an address holds. -/
def spill (address : MailboxAddress) (sys : MailboxSystem) (disk : Disk) : Disk :=
  match sys.mailboxes.lookup address with
  | none => disk
  | some queue => queue.spill disk

/-- A mailbox made now is in a directory that no mailbox has. -/
def OwnDir (fs : Files) (paths : PersistQ.Paths) (address : String) (sys : MailboxSystem) : Prop :=
  sys.mailboxes.lookup ⟨address⟩ = none →
    ∀ path, PersistQ.storagePath fs paths (sys.mailboxDir address) = .ok path →
      ∀ b queue, sys.mailboxes.lookup b = some queue → queue.config.storageDir ≠ path

end MailboxSystem

/-- Queues of one partition, and no two in one directory. -/
structure Apart (sys : MailboxSystem) : Prop where
  single : ∀ a queue, sys.mailboxes.lookup a = some queue → queue.Single
  apart : ∀ a b queue queue', sys.mailboxes.lookup a = some queue →
    sys.mailboxes.lookup b = some queue' →
    queue.config.storageDir = queue'.config.storageDir → a = b

/-- Every queue is on the disk as it is in memory. -/
structure Mirrors (disk : Disk) (sys : MailboxSystem) : Prop extends Apart sys where
  attached : ∀ a queue, sys.mailboxes.lookup a = some queue → queue.attach disk = queue

/-- Only the queue written to has changed. -/
structure Changed (sys sys' : MailboxSystem) (written : Option MailboxAddress) : Prop where
  apart : Apart sys'
  others : ∀ b, written ≠ some b → sys'.mailboxes.lookup b = sys.mailboxes.lookup b

section
variable {sys sys' : MailboxSystem} {disk : Disk} {address b : MailboxAddress} {queue : PersistQ}

theorem Apart.refl (h : Apart sys) (written : Option MailboxAddress) : Changed sys sys written :=
  ⟨h, fun _ _ => rfl⟩

theorem Changed.trans {sys₁ sys₂ : MailboxSystem} {written : Option MailboxAddress}
    (h : Changed sys sys₁ written) (h' : Changed sys₁ sys₂ written) : Changed sys sys₂ written :=
  ⟨h'.apart, fun b hb => (h'.others b hb).trans (h.others b hb)⟩

theorem Mirrors.of_empty (h : ∀ a, sys.mailboxes.lookup a = none) (disk : Disk) :
    Mirrors disk sys where
  single a _ ha := by cases (h a).symm.trans ha
  apart a _ _ _ ha := by cases (h a).symm.trans ha
  attached a _ ha := by cases (h a).symm.trans ha

/-- A mirrored system, attached, is the same. -/
theorem Mirrors.attach (h : Mirrors disk sys) : sys.attach disk = sys := by
  have hentries : (sys.mailboxes.entries.map (Sigma.map id (fun _ => PersistQ.attach disk)) :
      List (Σ _ : MailboxAddress, PersistQ)) = sys.mailboxes.entries := by
    refine (List.map_congr_left ?_).trans (List.map_id _)
    rintro ⟨a, queue⟩ hentry
    exact congrArg (Sigma.mk a) (h.attached a queue (AList.mem_lookup_iff.mpr hentry))
  simp only [MailboxSystem.attach, hentries]

/-- **What is left on the disk** is what the queue written to holds, and what the others
did. -/
theorem Mirrors.changed (h : Mirrors disk sys) (hchanged : Changed sys sys' (some address)) :
    Mirrors (sys'.spill address disk) sys' where
  toApart := hchanged.apart
  attached := by
    intro b queue hb
    rw [MailboxSystem.spill]
    cases hlookup : sys'.mailboxes.lookup address with
    | none =>
        have hne : address ≠ b := by
          rintro rfl
          cases hlookup.symm.trans hb
        have hb' := (hchanged.others b (fun heq => hne (Option.some.inj heq))).symm.trans hb
        exact h.attached b queue hb'
    | some written =>
        dsimp only
        by_cases hne : address = b
        · subst hne
          cases hlookup.symm.trans hb
          exact (hchanged.apart.single _ _ hb).attach_spill disk
        · have hb' := (hchanged.others b (fun heq => hne (Option.some.inj heq))).symm.trans hb
          -- no file of this queue is one of the queue written to
          have hagree : AgreeIn queue.config.storageDir (written.spill disk) disk := by
            intro path hpath
            refine PersistQ.spill_other (hchanged.apart.single _ _ hlookup).housed ?_ disk
            intro hin
            exact hne (hchanged.apart.apart _ _ _ _ hlookup hb (hin.unique hpath))
          rw [PersistQ.attach_congr (hchanged.apart.single _ _ hb).housed hagree]
          exact h.attached b queue hb'

/-! ### The operations -/

theorem Apart.put (h : Apart sys) (hsingle : queue.Single)
    (hfree : ∀ b queue', sys.mailboxes.lookup b = some queue' →
      queue'.config.storageDir = queue.config.storageDir → b = address) :
    Changed sys (sys.putQueue address queue) (some address) where
  apart :=
    { single := by
        intro b queue' hb
        by_cases hba : b = address
        · subst hba
          cases (sys.putQueue_lookup b queue).symm.trans hb
          exact hsingle
        · exact h.single b queue' ((MailboxSystem.putQueue_lookup_ne hba sys queue).symm.trans hb)
      apart := by
        intro b c queue₁ queue₂ hb hc hdir
        by_cases hba : b = address
        · subst hba
          cases (sys.putQueue_lookup b queue).symm.trans hb
          by_cases hcb : c = b
          · exact hcb.symm
          · have hc' := (MailboxSystem.putQueue_lookup_ne hcb sys queue).symm.trans hc
            exact (hfree c queue₂ hc' hdir.symm).symm
        · have hb' := (MailboxSystem.putQueue_lookup_ne hba sys queue).symm.trans hb
          by_cases hca : c = address
          · subst hca
            cases (sys.putQueue_lookup c queue).symm.trans hc
            exact hfree b queue₁ hb' hdir
          · have hc' := (MailboxSystem.putQueue_lookup_ne hca sys queue).symm.trans hc
            exact h.apart b c queue₁ queue₂ hb' hc' hdir }
  others b hb :=
    MailboxSystem.putQueue_lookup_ne (fun heq => hb (congrArg some heq.symm)) sys queue

/-- A mailbox created. -/
theorem Apart.createMailbox {fs : Files} {paths : PersistQ.Paths} {name : String}
    (h : Apart sys) (hown : sys.OwnDir fs paths name) {answer : Except MailboxError Mailbox}
    (hcreate : sys.createMailbox fs paths name = (answer, sys')) :
    Changed sys sys' (some ⟨name⟩) := by
  rcases MailboxSystem.createMailbox_cases hcreate with ⟨e, -, rfl⟩ | ⟨mailbox, rfl, hnone⟩
  · exact h.refl _
  obtain ⟨queue, hnew, -, -, rfl⟩ := MailboxSystem.createMailbox_ok hcreate
  refine h.put (PersistQ.new_single hnew rfl).1 ?_
  intro b queue' hb hdir
  exact absurd hdir (hown hnone _ (PersistQ.new_housed hnew).2 b queue' hb)

/-- A message routed. -/
theorem Apart.routeMessage {J : SerdeJson} (hsized : J.Sized) {H : Hasher} {call : Call}
    {m : Message} (h : Apart sys) {answer : Except MailboxError String}
    (hroute : sys.routeMessage J H call m = some (answer, sys')) :
    Changed sys sys' (some m.to_) := by
  rcases Delivery.routeMessage_cases hroute with
    ⟨rfl, -⟩ | ⟨queue, bytes, outcome, queue', hqueue, hbytes, happ, rfl, -⟩
  · exact h.refl _
  obtain ⟨hsingle, hconfig, -⟩ := (h.single _ queue hqueue).append (hsized hbytes) happ
  refine h.put hsingle ?_
  intro b queue₁ hb hdir
  exact h.apart b m.to_ queue₁ queue hb hqueue (hconfig ▸ hdir)

/-- A message sent. -/
theorem Apart.send {J : SerdeJson} (hsized : J.Sized) {H : Hasher} {call : Call}
    {sender : Mailbox} {outgoing : Mailbox.Outgoing} (h : Apart sys)
    {answer : Except MailboxError String}
    (hsend : sender.send J H call outgoing sys = some (answer, sys')) :
    Changed sys sys' (some outgoing.destination) := by
  rw [Mailbox.send] at hsend
  cases hm : sender.compose call.id call.timestamp outgoing with
  | error e =>
      simp only [hm] at hsend
      cases hsend
      exact h.refl _
  | ok m =>
      simp only [hm] at hsend
      rw [← Mailbox.compose_to_ hm]
      exact h.routeMessage hsized hsend

end

/-! ## Machines -/

/-- What works on the mailboxes of a system. -/
structure Machine (σ α : Type*) where
  step : σ → α → Option σ
  system : σ → MailboxSystem
  withSystem : MailboxSystem → σ → σ
  /-- The step, where the files are those on the disk. -/
  atDisk : Disk → α → α
  /-- The mailbox a step writes to. -/
  writes : σ → α → Option MailboxAddress
  /-- A mailbox that the step makes is in a directory of its own. -/
  ownDir : σ → α → Prop

structure OnDisk (σ : Type*) where
  disk : Disk
  state : σ

namespace Machine

variable {σ α : Type*}

/-- The state, whose queues are as they are on the disk. -/
def view (M : Machine σ α) (w : OnDisk σ) : σ :=
  M.withSystem ((M.system w.state).attach w.disk) w.state

def stepOnDisk (M : Machine σ α) (w : OnDisk σ) (a : α) : Option (OnDisk σ) :=
  match M.step (M.view w) (M.atDisk w.disk a) with
  | none => none
  | some state =>
      match M.writes w.state a with
      | none => some { w with state }
      | some address => some { disk := (M.system state).spill address w.disk, state }

/-- The machine changes no queue but the one it says it writes to. -/
structure Lawful (M : Machine σ α) : Prop where
  withSystem_system : ∀ s, M.withSystem (M.system s) s = s
  writes_atDisk : ∀ s disk a, M.writes s (M.atDisk disk a) = M.writes s a
  ownDir_atDisk : ∀ s disk a, M.ownDir s (M.atDisk disk a) ↔ M.ownDir s a
  changes : ∀ {s a s'}, Apart (M.system s) → M.ownDir s a → M.step s a = some s' →
    Changed (M.system s) (M.system s') (M.writes s a)

section
variable {M : Machine σ α} {w w' : OnDisk σ} {a : α} {s : σ}

theorem Lawful.view_eq (h : M.Lawful) (hmirrors : Mirrors w.disk (M.system w.state)) :
    M.view w = w.state := by
  rw [view, hmirrors.attach, h.withSystem_system]

/-- **A step on the disk** is one of the machine. -/
theorem Lawful.step_eq (h : M.Lawful) (hmirrors : Mirrors w.disk (M.system w.state)) (a : α) :
    M.step w.state (M.atDisk w.disk a) = (M.stepOnDisk w a).map OnDisk.state := by
  rw [stepOnDisk, h.view_eq hmirrors]
  cases M.step w.state (M.atDisk w.disk a) with
  | none => rfl
  | some s =>
      cases M.writes w.state a with
      | none => rfl
      | some address => rfl

theorem Lawful.mirrors (h : M.Lawful) (hmirrors : Mirrors w.disk (M.system w.state))
    (hown : M.ownDir w.state a) (hstep : M.stepOnDisk w a = some w') :
    Mirrors w'.disk (M.system w'.state) := by
  rw [stepOnDisk, h.view_eq hmirrors] at hstep
  split at hstep
  · cases hstep
  rename_i s hs
  have hchanged := h.changes hmirrors.toApart ((h.ownDir_atDisk _ _ _).mpr hown) hs
  rw [h.writes_atDisk] at hchanged
  cases hwrites : M.writes w.state a with
  | none =>
      rw [hwrites] at hstep hchanged
      cases hstep
      refine ⟨hchanged.apart, ?_⟩
      intro b queue hb
      exact hmirrors.attached b queue ((hchanged.others b (Option.some_ne_none b).symm).symm.trans hb)
  | some address =>
      rw [hwrites] at hstep hchanged
      cases hstep
      exact hmirrors.changed hchanged

/-- **A run on the disk**, whose mailboxes are made in directories of their own, is a run
of the machine. -/
theorem Lawful.stepsOf (h : M.Lawful) :
    Lts.StepsOf M.stepOnDisk M.step (fun w a => M.ownDir w.state a)
      (fun w => Mirrors w.disk (M.system w.state)) OnDisk.state
      (fun w a => M.atDisk w.disk a) where
  step_eq hmirrors _ := h.step_eq hmirrors _
  keeps hmirrors hown hstep := h.mirrors hmirrors hown hstep

/-- A step of the machine is taken on the disk. -/
theorem Lawful.exists_step (h : M.Lawful) (hmirrors : Mirrors w.disk (M.system w.state))
    (hown : M.ownDir w.state a) (hstep : M.step w.state (M.atDisk w.disk a) = some s) :
    ∃ w', M.stepOnDisk w a = some w' ∧ w'.state = s ∧ Mirrors w'.disk (M.system w'.state) := by
  rw [h.step_eq hmirrors] at hstep
  obtain ⟨w', hw', rfl⟩ := Option.map_eq_some_iff.mp hstep
  exact ⟨w', hw', rfl, h.mirrors hmirrors hown hw'⟩

end

end Machine

end Dolda
