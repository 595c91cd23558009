/-
# `Dolda.Mailbox.Isolation` — one mailbox and the sends to others

Runs over the files on a disk, which are shared by all that have mapped them: an
operation sees its queue as it is on the disk and leaves it there.  What a failed
creation does to a file, to give it the size it has anyway, is left out.

**The rule.**  A mailbox's directory is named after its address with `_` for `@`,
so two addresses may have one directory, and their queues the same files
(`letter_overwritten`).  In runs that create each mailbox in a directory no other
has (`Meets`), nobody at an address can tell whether there were sends to others
(`isolated`).
-/
import Dolda.Mailbox.Disk
import Dolda.Mailbox.Workers

namespace Dolda.Isolation

open PersistQ (InDir AgreeIn)
open Workers (Event)

/-- What a receive or a peek returned; `none` if the read panicked. -/
abbrev Answer := Option (Except MailboxError (Option Message))

structure World where
  disk : Disk
  system : MailboxSystem
  handles : List Mailbox
  /-- What was returned, with the address of the handle. -/
  answers : List (MailboxAddress × Answer)

def World.start (disk : Disk) (system : MailboxSystem) : World :=
  { disk, system, handles := [], answers := [] }

/-- The system, in which the queue of an address is as it is on the disk. -/
def load (disk : Disk) (address : MailboxAddress) (sys : MailboxSystem) : MailboxSystem :=
  match sys.mailboxes.lookup address with
  | none => sys
  | some queue => sys.putQueue address (queue.attach disk)

/-- The call, made where the files are those on the disk. -/
def onDisk (disk : Disk) (call : Call) : Call := { call with fs := call.fs.on disk }

namespace World

def create (fs : Files) (paths : PersistQ.Paths) (address : String) (w : World) : World :=
  match w.system.createMailbox (fs.on w.disk) paths address with
  | (.error _, system) => { w with system }
  | (.ok mailbox, system) =>
      { w with
        disk := system.spill mailbox.address w.disk
        system
        handles := w.handles ++ [mailbox] }

def get (address : String) (w : World) : World :=
  match w.system.getMailbox address with
  | .ok (some mailbox) => { w with handles := w.handles ++ [mailbox] }
  | _ => w

def send (J : SerdeJson) (H : Hasher) (call : Call) (sender : Mailbox)
    (outgoing : Mailbox.Outgoing) (w : World) : Option World :=
  match sender.compose call.id call.timestamp outgoing with
  | .error _ => some w
  | .ok m =>
      match sender.send J H (onDisk w.disk call) outgoing (load w.disk m.to_ w.system) with
      | none => none
      | some (_, system) => some { w with disk := system.spill m.to_ w.disk, system }

/-- A handle changed, and what was returned. -/
def answered (w : World) (handle : Nat) (mailbox : Mailbox) (answer : Answer) : World :=
  { w with
    handles := w.handles.set handle mailbox
    answers := w.answers ++ [(mailbox.address, answer)] }

def receive (J : SerdeJson) (startTime endTime handle : Nat) (w : World) : Option World :=
  match w.handles[handle]? with
  | none => none
  | some mailbox =>
      match mailbox.receive J startTime endTime (load w.disk mailbox.address w.system) with
      | none => some (w.answered handle mailbox none)
      | some (answer, mailbox) => some (w.answered handle mailbox (some answer))

def peek (J : SerdeJson) (startTime endTime handle : Nat) (w : World) : Option World :=
  match w.handles[handle]? with
  | none => none
  | some mailbox =>
      some (w.answered handle mailbox
        (mailbox.peek J startTime endTime (load w.disk mailbox.address w.system)))

end World

def step (J : SerdeJson) (H : Hasher) (w : World) : Event → Option World
  | .create fs paths address => some (w.create fs paths address)
  | .get address => some (w.get address)
  | .send call sender outgoing => w.send J H call sender outgoing
  | .receive handle startTime endTime => w.receive J startTime endTime handle
  | .peek handle startTime endTime => w.peek J startTime endTime handle

/-! ## What an address can tell -/

/-- A send to another address. -/
def forAnother (a : MailboxAddress) : Event → Bool
  | .send call sender outgoing =>
      match sender.compose call.id call.timestamp outgoing with
      | .error _ => false
      | .ok m => decide (m.to_ ≠ a)
  | _ => false

/-- The run without the sends to other addresses. -/
def without (a : MailboxAddress) (events : List Event) : List Event :=
  events.filter (fun event => !forAnother a event)

/-- What receives and peeks on the handles of an address returned. -/
def World.answersAt (a : MailboxAddress) (w : World) : List Answer :=
  (w.answers.filter (fun x => x.1 = a)).map Prod.snd

/-- The queue of an address, with the bytes of its files. -/
def World.contents (a : MailboxAddress) (w : World) : Option PersistQ :=
  (w.system.mailboxes.lookup a).map (PersistQ.attach w.disk)

/-- Nothing returned at an address, and nothing in its mailbox, differs. -/
structure SameAt (a : MailboxAddress) (w w' : World) : Prop where
  answers : w'.answersAt a = w.answersAt a
  contents : w'.contents a = w.contents a

/-- No address can tell the run from the one without the sends to others. -/
def Isolated (J : SerdeJson) (H : Hasher) (w : World) (events : List Event) : Prop :=
  ∀ a w₁, Lts.run (step J H) w events = some w₁ →
    ∃ w₂, Lts.run (step J H) w (without a events) = some w₂ ∧ SameAt a w₁ w₂

/-- A mailbox is created in a directory that none of the mailboxes there has. -/
def Meets (w : World) : Event → Prop
  | .create fs paths address => w.system.OwnDir fs paths address
  | _ => True

/-! ## What an operation does to a queue -/

section
variable {J : SerdeJson} {H : Hasher} {w w' : World} {a b : MailboxAddress}
  {queue queue' : PersistQ} {disk disk' : Disk} {sys : MailboxSystem} {call : Call} {m : Message}

/-- The queue of an address, in the system and on the disk. -/
def World.put (w : World) (address : MailboxAddress) (queue : PersistQ) : World :=
  { w with disk := queue.spill w.disk, system := w.system.putQueue address queue }

/-- A mailbox that was created, with a handle on it. -/
def World.opened (w : World) (address : String) (queue : PersistQ) : World :=
  { w.put ⟨address⟩ queue with
    handles := w.handles ++ [{ address := ⟨address⟩, readOffset := 0 }] }

theorem put_lookup (w : World) (address : MailboxAddress) (queue : PersistQ) :
    (w.put address queue).system.mailboxes.lookup address = some queue :=
  w.system.putQueue_lookup address queue

theorem put_lookup_ne (w : World) (queue : PersistQ) (h : b ≠ a) :
    (w.put a queue).system.mailboxes.lookup b = w.system.mailboxes.lookup b :=
  MailboxSystem.putQueue_lookup_ne h w.system queue

theorem load_of_lookup (disk : Disk) (hlookup : sys.mailboxes.lookup a = some queue) :
    load disk a sys = sys.putQueue a (queue.attach disk) := by
  rw [load, hlookup]

@[simp] theorem spill_putQueue (a : MailboxAddress) (sys : MailboxSystem) (queue : PersistQ)
    (disk : Disk) : (sys.putQueue a queue).spill a disk = queue.spill disk := by
  rw [MailboxSystem.spill, MailboxSystem.putQueue_lookup]

theorem load_lookup (disk : Disk) (address : MailboxAddress) (sys : MailboxSystem) :
    (load disk address sys).mailboxes.lookup address =
      (sys.mailboxes.lookup address).map (PersistQ.attach disk) := by
  simp only [load]
  cases hlookup : sys.mailboxes.lookup address with
  | none => exact hlookup
  | some queue => exact sys.putQueue_lookup address _

/-- A message appended to a queue: whether it returns, and the queue then. -/
def routed (J : SerdeJson) (H : Hasher) (call : Call) (m : Message) (queue : PersistQ) :
    Option PersistQ :=
  match m.toBytes J with
  | .error _ => some queue
  | .ok bytes =>
      match queue.append H call.fs call.startTime call.endTime call.rounds bytes with
      | none => none
      | some (none, _) => none
      | some (some _, queue) => some queue

/-- A send puts the queue of its address back as it then is, or finds none. -/
theorem send_eq {sender : Mailbox} {outgoing : Mailbox.Outgoing}
    (hm : sender.compose call.id call.timestamp outgoing = .ok m) (w : World) :
    w.send J H call sender outgoing =
      match w.system.mailboxes.lookup m.to_ with
      | none => some w
      | some queue =>
          (routed J H (onDisk w.disk call) m (queue.attach w.disk)).map (w.put m.to_) := by
  have hm' : sender.compose (onDisk w.disk call).id (onDisk w.disk call).timestamp outgoing =
      .ok m := hm
  simp only [World.send, hm, Mailbox.send, hm']
  cases hlookup : w.system.mailboxes.lookup m.to_ with
  | none =>
      have hload : load w.disk m.to_ w.system = w.system := by rw [load, hlookup]
      simp only [hload, MailboxSystem.routeMessage, hlookup, MailboxSystem.spill]
  | some queue =>
  simp only [load_of_lookup w.disk hlookup, MailboxSystem.routeMessage,
    MailboxSystem.putQueue_lookup, routed]
  cases m.toBytes J with
  | error e =>
      simp only [spill_putQueue]
      rfl
  | ok bytes =>
      dsimp only
      cases happ : (queue.attach w.disk).append H (onDisk w.disk call).fs
          (onDisk w.disk call).startTime (onDisk w.disk call).endTime (onDisk w.disk call).rounds
          bytes with
      | none => rfl
      | some result =>
          obtain ⟨outcome, queue'⟩ := result
          cases outcome with
          | none => rfl
          | some outcome =>
              simp only [MailboxSystem.putQueue_putQueue, spill_putQueue]
              rfl

theorem routed_housed (h : queue.Housed) (hrouted : routed J H call m queue = some queue') :
    queue'.Housed ∧ queue'.config = queue.config := by
  simp only [routed] at hrouted
  split at hrouted
  · cases hrouted
    exact ⟨h, rfl⟩
  split at hrouted
  · cases hrouted
  · cases hrouted
  · rename_i happ
    cases hrouted
    exact h.append happ

theorem routed_on (h : queue.Housed) (hagree : AgreeIn queue.config.storageDir disk disk') :
    routed J H (onDisk disk call) m queue = routed J H (onDisk disk' call) m queue := by
  unfold routed
  split
  · rfl
  · have happ := PersistQ.append_on h hagree H call.fs call.startTime call.endTime call.rounds
    simp only [onDisk, happ]

/-! ## The invariant

The two worlds have the same mailboxes, and their disks agree on the directory of `a`,
which no other mailbox has.  A queue put into both, a handle added to both and an answer
given in both keep them alike; so does a queue of another put into the first alone. -/

/-- Every queue's segments are in its directory, and no two have one directory. -/
structure Tidy (w : World) : Prop where
  housed : ∀ b queue, w.system.mailboxes.lookup b = some queue → queue.Housed
  apart : ∀ b c queue queue', w.system.mailboxes.lookup b = some queue →
    w.system.mailboxes.lookup c = some queue' →
    queue.config.storageDir = queue'.config.storageDir → b = c

/-- The directory is no mailbox's but that of `b`. -/
def Free (w : World) (b : MailboxAddress) (dir : String) : Prop :=
  ∀ c queue, w.system.mailboxes.lookup c = some queue → queue.config.storageDir = dir → c = b

theorem Tidy.free (h : Tidy w) (hlookup : w.system.mailboxes.lookup b = some queue) :
    Free w b queue.config.storageDir :=
  fun c _ hc hdir => h.apart c b _ _ hc hlookup hdir

theorem Tidy.put (h : Tidy w) (hhoused : queue.Housed) (hfree : Free w b queue.config.storageDir) :
    Tidy (w.put b queue) where
  housed := by
    intro c queue' hc
    by_cases hcb : c = b
    · subst hcb
      cases (put_lookup w c queue).symm.trans hc
      exact hhoused
    · exact h.housed c queue' ((put_lookup_ne w queue hcb).symm.trans hc)
  apart := by
    intro c d queue₁ queue₂ hc hd hdir
    by_cases hcb : c = b
    · subst hcb
      cases (put_lookup w c queue).symm.trans hc
      by_cases hdc : d = c
      · exact hdc.symm
      · exact (hfree d queue₂ ((put_lookup_ne w queue hdc).symm.trans hd) hdir.symm).symm
    · have hc' := (put_lookup_ne w queue hcb).symm.trans hc
      by_cases hdb : d = b
      · subst hdb
        cases (put_lookup w d queue).symm.trans hd
        exact hfree c queue₁ hc' hdir
      · exact h.apart c d queue₁ queue₂ hc' ((put_lookup_ne w queue hdb).symm.trans hd) hdir

/-- The worlds are alike as far as `a` can tell: all that is not in the files of
others. -/
structure Alike (a : MailboxAddress) (w w' : World) : Prop where
  baseDir : w'.system.baseDir = w.system.baseDir
  configs : ∀ b, (w'.system.mailboxes.lookup b).map PersistQ.config =
    (w.system.mailboxes.lookup b).map PersistQ.config
  queue : w'.system.mailboxes.lookup a = w.system.mailboxes.lookup a
  disk : ∀ path, (∀ b queue, w.system.mailboxes.lookup b = some queue →
    InDir queue.config.storageDir path → b = a) → w.disk path = w'.disk path
  addresses : w'.handles.map Mailbox.address = w.handles.map Mailbox.address
  handles : ∀ (i : Nat) (mailbox : Mailbox), w.handles[i]? = some mailbox →
    mailbox.address = a → w'.handles[i]? = some mailbox
  answers : w'.answersAt a = w.answersAt a

theorem Alike.refl (a : MailboxAddress) (w : World) : Alike a w w where
  baseDir := rfl
  configs _ := rfl
  queue := rfl
  disk _ _ := rfl
  addresses := rfl
  handles _ _ h _ := h
  answers := rfl

theorem Alike.lookup_some (h : Alike a w w') (hlookup : w.system.mailboxes.lookup b = some queue) :
    ∃ queue', w'.system.mailboxes.lookup b = some queue' ∧ queue'.config = queue.config := by
  have hconfig := h.configs b
  rw [hlookup] at hconfig
  exact Option.map_eq_some_iff.mp hconfig

theorem Alike.lookup_none (h : Alike a w w') (hlookup : w.system.mailboxes.lookup b = none) :
    w'.system.mailboxes.lookup b = none := by
  have hconfig := h.configs b
  rw [hlookup] at hconfig
  exact Option.map_eq_none_iff.mp hconfig

theorem Alike.free (h : Alike a w w') {dir : String} (hfree : Free w b dir) : Free w' b dir := by
  intro c queue hc hdir
  cases hlookup : w.system.mailboxes.lookup c with
  | none => cases (h.lookup_none hlookup).symm.trans hc
  | some queue₁ =>
      obtain ⟨queue₂, hqueue₂, hconfig⟩ := h.lookup_some hlookup
      cases hc.symm.trans hqueue₂
      exact hfree c queue₁ hlookup (hconfig ▸ hdir)

theorem Alike.agreeIn (h : Alike a w w') {dir : String} (hfree : Free w a dir) :
    AgreeIn dir w.disk w'.disk :=
  fun path hpath => h.disk path (fun b queue hb hin => hfree b queue hb (hin.unique hpath))

theorem Alike.sameAt (h : Alike a w w') (htidy : Tidy w) : SameAt a w w' where
  answers := h.answers
  contents := by
    rw [World.contents, World.contents, h.queue]
    cases hlookup : w.system.mailboxes.lookup a with
    | none => rfl
    | some queue =>
        have hagree := h.agreeIn (htidy.free hlookup)
        exact congrArg some (PersistQ.attach_congr (htidy.housed a queue hlookup) hagree).symm

/-- A path that another's directory does not have is in none that a put queue leaves. -/
theorem outside_of_put {path : String}
    (hold : ∀ old, w.system.mailboxes.lookup b = some old →
      old.config.storageDir = queue.config.storageDir)
    (hpath : ∀ c queue', (w.put b queue).system.mailboxes.lookup c = some queue' →
      InDir queue'.config.storageDir path → c = a) :
    ∀ c queue', w.system.mailboxes.lookup c = some queue' →
      InDir queue'.config.storageDir path → c = a := by
  intro c queue' hc hin
  by_cases hcb : c = b
  · subst hcb
    rw [hold queue' hc] at hin
    exact hpath c queue (put_lookup w c queue) hin
  · exact hpath c queue' ((put_lookup_ne w queue hcb).trans hc) hin

theorem Alike.put (h : Alike a w w') (hhoused : queue.Housed) (hhoused' : queue'.Housed)
    (hconfig : queue'.config = queue.config) (hsame : b = a → queue' = queue)
    (hold : ∀ old, w.system.mailboxes.lookup b = some old →
      old.config.storageDir = queue.config.storageDir) :
    Alike a (w.put b queue) (w'.put b queue') where
  baseDir := h.baseDir
  configs := by
    intro c
    by_cases hcb : c = b
    · subst hcb
      rw [put_lookup, put_lookup]
      exact congrArg some hconfig
    · rw [put_lookup_ne _ _ hcb, put_lookup_ne _ _ hcb]
      exact h.configs c
  queue := by
    by_cases hab : a = b
    · subst hab
      rw [put_lookup, put_lookup, hsame rfl]
    · rw [put_lookup_ne _ _ hab, put_lookup_ne _ _ hab]
      exact h.queue
  disk := by
    intro path hpath
    have hagree := h.disk path (outside_of_put hold hpath)
    by_cases hba : b = a
    · rw [hsame hba]
      exact PersistQ.spill_congr hagree queue
    · have hout : ¬ InDir queue.config.storageDir path :=
        fun hin => hba (hpath b queue (put_lookup w b queue) hin)
      show queue.spill w.disk path = queue'.spill w'.disk path
      rw [PersistQ.spill_other hhoused hout, PersistQ.spill_other hhoused' (hconfig ▸ hout), hagree]
  addresses := h.addresses
  handles := h.handles
  answers := h.answers

theorem Alike.put_other (h : Alike a w w') (hba : b ≠ a) (hhoused : queue.Housed) {old : PersistQ}
    (hlookup : w.system.mailboxes.lookup b = some old) (hconfig : queue.config = old.config) :
    Alike a (w.put b queue) w' where
  baseDir := h.baseDir
  configs := by
    intro c
    by_cases hcb : c = b
    · subst hcb
      rw [put_lookup, h.configs c, hlookup]
      exact congrArg some hconfig.symm
    · rw [put_lookup_ne _ _ hcb]
      exact h.configs c
  queue := by
    rw [put_lookup_ne _ _ (Ne.symm hba)]
    exact h.queue
  disk := by
    intro path hpath
    have hold : ∀ old', w.system.mailboxes.lookup b = some old' →
        old'.config.storageDir = queue.config.storageDir := by
      intro old' hold'
      cases hlookup.symm.trans hold'
      rw [hconfig]
    have hout : ¬ InDir queue.config.storageDir path :=
      fun hin => hba (hpath b queue (put_lookup w b queue) hin)
    show queue.spill w.disk path = w'.disk path
    rw [PersistQ.spill_other hhoused hout, h.disk path (outside_of_put hold hpath)]
  addresses := h.addresses
  handles := h.handles
  answers := h.answers

theorem Alike.length (h : Alike a w w') : w'.handles.length = w.handles.length := by
  simpa only [List.length_map] using congrArg List.length h.addresses

theorem Alike.hand (h : Alike a w w') (mailbox : Mailbox) :
    Alike a { w with handles := w.handles ++ [mailbox] }
      { w' with handles := w'.handles ++ [mailbox] } where
  baseDir := h.baseDir
  configs := h.configs
  queue := h.queue
  disk := h.disk
  addresses := by
    rw [List.map_append, List.map_append, h.addresses]
  handles := by
    intro i mailbox' hget haddress
    rcases Nat.lt_or_ge i w.handles.length with hlt | hge
    · rw [List.getElem?_append_left hlt] at hget
      rw [List.getElem?_append_left (h.length ▸ hlt)]
      exact h.handles i mailbox' hget haddress
    · rw [List.getElem?_append_right hge] at hget
      rwa [List.getElem?_append_right (h.length ▸ hge), h.length]
  answers := h.answers

theorem answersAt_answered (w : World) (handle : Nat) (mailbox : Mailbox) (answer : Answer) :
    (w.answered handle mailbox answer).answersAt a =
      w.answersAt a ++ if mailbox.address = a then [answer] else [] := by
  rw [World.answersAt, World.answered, List.filter_append, List.map_append]
  refine congrArg _ ?_
  by_cases hmine : mailbox.address = a
  · simp only [List.filter_cons, hmine, decide_true, if_true, List.filter_nil, List.map_cons,
      List.map_nil]
  · simp only [List.filter_cons, hmine, decide_false, Bool.false_eq_true, if_false,
      List.filter_nil, List.map_nil]

theorem Alike.answered (h : Alike a w w') {handle : Nat} {mailbox mailbox' : Mailbox}
    {answer answer' : Answer} (haddress : mailbox'.address = mailbox.address)
    (hsame : mailbox.address = a → mailbox' = mailbox ∧ answer' = answer) :
    Alike a (w.answered handle mailbox answer) (w'.answered handle mailbox' answer') where
  baseDir := h.baseDir
  configs := h.configs
  queue := h.queue
  disk := h.disk
  addresses := by
    show (w'.handles.set handle mailbox').map _ = (w.handles.set handle mailbox).map _
    rw [List.map_set, List.map_set, h.addresses, haddress]
  handles := by
    intro i mailbox₁ hget hmine
    by_cases hi : handle = i
    · subst hi
      have hlt := (List.getElem?_eq_some_iff.mp hget).1
      change handle < (w.handles.set handle mailbox).length at hlt
      rw [List.length_set] at hlt
      cases (List.getElem?_set_self hlt).symm.trans hget
      rw [(hsame hmine).1]
      exact List.getElem?_set_self (h.length ▸ hlt)
    · have hget' := (List.getElem?_set_ne hi).symm.trans hget
      exact (List.getElem?_set_ne hi).trans (h.handles i mailbox₁ hget' hmine)
  answers := by
    rw [answersAt_answered, answersAt_answered, h.answers, haddress]
    by_cases hmine : mailbox.address = a
    · rw [if_pos hmine, if_pos hmine, (hsame hmine).2]
    · rw [if_neg hmine, if_neg hmine]

/-! ## The steps

A send to `a` is made in both worlds and a send to another in the first; a receive or a
peek is made on the same handle in both; a mailbox is created in both, of whatever
address. -/

/-- Both worlds are tidy, and alike to `a`. -/
structure Unwound (a : MailboxAddress) (w w' : World) : Prop where
  tidy : Tidy w
  tidy' : Tidy w'
  alike : Alike a w w'

theorem Tidy.routed (h : Tidy w) (hlookup : w.system.mailboxes.lookup b = some queue)
    (hrouted : routed J H (onDisk disk call) m (queue.attach disk') = some queue') :
    queue'.Housed ∧ queue'.config = queue.config ∧ Free w b queue'.config.storageDir := by
  have hhoused := (h.housed _ queue hlookup).attach disk'
  obtain ⟨hhoused', hconfig⟩ := routed_housed hhoused hrouted
  have hconfig' : queue'.config = queue.config := hconfig
  exact ⟨hhoused', hconfig', hconfig' ▸ h.free hlookup⟩

theorem Unwound.send_other (h : Unwound a w w') {call : Call} {sender : Mailbox}
    {outgoing : Mailbox.Outgoing} {w₁ : World}
    (hm : sender.compose call.id call.timestamp outgoing = .ok m) (hother : m.to_ ≠ a)
    (hsend : w.send J H call sender outgoing = some w₁) : Unwound a w₁ w' := by
  rw [send_eq hm] at hsend
  cases hlookup : w.system.mailboxes.lookup m.to_ with
  | none =>
      rw [hlookup] at hsend
      cases hsend
      exact h
  | some queue =>
      rw [hlookup] at hsend
      obtain ⟨queue', hrouted, rfl⟩ := Option.map_eq_some_iff.mp hsend
      obtain ⟨hhoused, hconfig, hfree⟩ := h.tidy.routed hlookup hrouted
      exact ⟨h.tidy.put hhoused hfree, h.tidy', h.alike.put_other hother hhoused hlookup hconfig⟩

theorem Unwound.send_mine (h : Unwound m.to_ w w') {call : Call} {sender : Mailbox}
    {outgoing : Mailbox.Outgoing} {w₁ : World}
    (hm : sender.compose call.id call.timestamp outgoing = .ok m)
    (hsend : w.send J H call sender outgoing = some w₁) :
    ∃ w₂, w'.send J H call sender outgoing = some w₂ ∧ Unwound m.to_ w₁ w₂ := by
  rw [send_eq hm] at hsend ⊢
  rw [h.alike.queue]
  cases hlookup : w.system.mailboxes.lookup m.to_ with
  | none =>
      rw [hlookup] at hsend
      cases hsend
      exact ⟨w', rfl, h⟩
  | some queue =>
      rw [hlookup] at hsend
      obtain ⟨queue', hrouted, rfl⟩ := Option.map_eq_some_iff.mp hsend
      have hhoused := h.tidy.housed _ queue hlookup
      have hagree := h.alike.agreeIn (h.tidy.free hlookup)
      have hrouted' : routed J H (onDisk w'.disk call) m (queue.attach w'.disk) = some queue' := by
        rw [← PersistQ.attach_congr hhoused hagree, ← routed_on (hhoused.attach w.disk) hagree]
        exact hrouted
      obtain ⟨hhoused', hconfig, hfree⟩ := h.tidy.routed hlookup hrouted
      have hold : ∀ old, w.system.mailboxes.lookup m.to_ = some old →
          old.config.storageDir = queue'.config.storageDir := by
        intro old hold
        cases hlookup.symm.trans hold
        rw [hconfig]
      dsimp only
      rw [hrouted']
      exact ⟨_, rfl, h.tidy.put hhoused' hfree, h.tidy'.put hhoused' (h.alike.free hfree),
        h.alike.put hhoused' hhoused' rfl (fun _ => rfl) hold⟩

theorem Unwound.handle (h : Unwound a w w') {handle : Nat} {mailbox : Mailbox}
    (hget : w.handles[handle]? = some mailbox) : ∃ mailbox',
    w'.handles[handle]? = some mailbox' ∧ mailbox'.address = mailbox.address ∧
      (mailbox.address = a → mailbox' = mailbox ∧
        (load w'.disk a w'.system).mailboxes.lookup a =
          (load w.disk a w.system).mailboxes.lookup a) := by
  have haddress := congrArg (fun l : List MailboxAddress => l[handle]?) h.alike.addresses
  simp only [List.getElem?_map, hget, Option.map_some] at haddress
  obtain ⟨mailbox', hget', haddress'⟩ := Option.map_eq_some_iff.mp haddress
  refine ⟨mailbox', hget', haddress', fun hmine => ⟨?_, ?_⟩⟩
  · exact Option.some.inj (hget'.symm.trans (h.alike.handles handle mailbox hget hmine))
  · rw [load_lookup, load_lookup]
    exact (h.alike.sameAt h.tidy).contents

theorem Unwound.answered (h : Unwound a w w') {handle : Nat} {mailbox mailbox' : Mailbox}
    {answer answer' : Answer} (haddress : mailbox'.address = mailbox.address)
    (hsame : mailbox.address = a → mailbox' = mailbox ∧ answer' = answer) :
    Unwound a (w.answered handle mailbox answer) (w'.answered handle mailbox' answer') :=
  ⟨⟨h.tidy.housed, h.tidy.apart⟩, ⟨h.tidy'.housed, h.tidy'.apart⟩, h.alike.answered haddress hsame⟩

theorem receive_congr {sys sys' : MailboxSystem} {mailbox : Mailbox}
    (h : sys'.mailboxes.lookup mailbox.address = sys.mailboxes.lookup mailbox.address)
    (startTime endTime : Nat) :
    mailbox.receive J startTime endTime sys' = mailbox.receive J startTime endTime sys := by
  simp only [Mailbox.receive, h]

theorem peek_congr {sys sys' : MailboxSystem} {mailbox : Mailbox}
    (h : sys'.mailboxes.lookup mailbox.address = sys.mailboxes.lookup mailbox.address)
    (startTime endTime : Nat) :
    mailbox.peek J startTime endTime sys' = mailbox.peek J startTime endTime sys := by
  simp only [Mailbox.peek, h]

theorem Unwound.peek (h : Unwound a w w') {handle startTime endTime : Nat} {w₁ : World}
    (hpeek : w.peek J startTime endTime handle = some w₁) :
    ∃ w₂, w'.peek J startTime endTime handle = some w₂ ∧ Unwound a w₁ w₂ := by
  simp only [World.peek] at hpeek ⊢
  cases hget : w.handles[handle]? with
  | none =>
      rw [hget] at hpeek
      cases hpeek
  | some mailbox =>
      rw [hget] at hpeek
      cases hpeek
      obtain ⟨mailbox', hget', haddress, hmine⟩ := h.handle hget
      rw [hget']
      refine ⟨_, rfl, h.answered haddress ?_⟩
      intro hmine'
      subst hmine'
      obtain ⟨rfl, hlookup⟩ := hmine rfl
      exact ⟨rfl, peek_congr hlookup startTime endTime⟩

/-- What a receive answers with, and the handle then. -/
theorem receive_eq (J : SerdeJson) (startTime endTime : Nat) {handle : Nat} {mailbox : Mailbox}
    (hget : w.handles[handle]? = some mailbox) : ∃ mailbox' answer,
    w.receive J startTime endTime handle = some (w.answered handle mailbox' answer) ∧
    mailbox'.address = mailbox.address ∧
    (mailbox', answer) =
      match mailbox.receive J startTime endTime (load w.disk mailbox.address w.system) with
      | none => (mailbox, none)
      | some (answer, mailbox') => (mailbox', some answer) := by
  simp only [World.receive]
  rw [hget]
  dsimp only
  cases hreceive : mailbox.receive J startTime endTime (load w.disk mailbox.address w.system) with
  | none => exact ⟨mailbox, none, rfl, rfl, rfl⟩
  | some x =>
      obtain ⟨answer, mailbox'⟩ := x
      exact ⟨mailbox', some answer, rfl, (Workers.receive_forward hreceive).1, rfl⟩

theorem receive_cases {handle startTime endTime : Nat}
    (h : w.receive J startTime endTime handle = some w') : ∃ mailbox mailbox' answer,
    w.handles[handle]? = some mailbox ∧ mailbox'.address = mailbox.address ∧
    w' = w.answered handle mailbox' answer := by
  cases hget : w.handles[handle]? with
  | none =>
      rw [World.receive, hget] at h
      cases h
  | some mailbox =>
      obtain ⟨mailbox', answer, hreceive, haddress, -⟩ := receive_eq J startTime endTime hget
      cases h.symm.trans hreceive
      exact ⟨mailbox, mailbox', answer, rfl, haddress, rfl⟩

theorem peek_cases {handle startTime endTime : Nat}
    (h : w.peek J startTime endTime handle = some w') : ∃ mailbox answer,
    w.handles[handle]? = some mailbox ∧ w' = w.answered handle mailbox answer := by
  cases hget : w.handles[handle]? with
  | none =>
      rw [World.peek, hget] at h
      cases h
  | some mailbox =>
      rw [World.peek, hget] at h
      cases h
      exact ⟨mailbox, _, rfl, rfl⟩

theorem Unwound.receive (h : Unwound a w w') {handle startTime endTime : Nat} {w₁ : World}
    (hreceive : w.receive J startTime endTime handle = some w₁) :
    ∃ w₂, w'.receive J startTime endTime handle = some w₂ ∧ Unwound a w₁ w₂ := by
  cases hget : w.handles[handle]? with
  | none =>
      rw [World.receive, hget] at hreceive
      cases hreceive
  | some mailbox =>
      obtain ⟨mailbox', hget', haddress, hmine⟩ := h.handle hget
      obtain ⟨moved, answer, hmoved, haddress₁, hanswer⟩ := receive_eq J startTime endTime hget
      obtain ⟨moved', answer', hmoved', haddress₂, hanswer'⟩ :=
        receive_eq J startTime endTime hget'
      cases hreceive.symm.trans hmoved
      refine ⟨_, hmoved', h.answered ?_ ?_⟩
      · rw [haddress₂, haddress, haddress₁]
      · intro hmine'
        rw [haddress₁] at hmine'
        subst hmine'
        obtain ⟨rfl, hlookup⟩ := hmine rfl
        rw [receive_congr hlookup, ← hanswer] at hanswer'
        cases hanswer'
        exact ⟨rfl, rfl⟩

/-- A mailbox that is created puts its queue and adds a handle; one that is not changes
nothing. -/
theorem create_eq (fs : Files) (paths : PersistQ.Paths) (address : String) (w : World) :
    w.create fs paths address =
      if address.isEmpty then w
      else
        match w.system.mailboxes.lookup ⟨address⟩ with
        | some _ => w
        | none =>
            match fs.createDirAll (w.system.mailboxDir address) with
            | .error _ => w
            | .ok () =>
                match PersistQ.new (fs.on w.disk) paths
                  { w.system.defaultConfig with storageDir := w.system.mailboxDir address } with
                | .error _ => w
                | .ok queue => w.opened address queue := by
  simp only [World.create, MailboxSystem.createMailbox, MailboxAddress.new]
  cases address.isEmpty with
  | true => rfl
  | false =>
  simp only [Bool.false_eq_true, if_false]
  cases hlookup : w.system.mailboxes.lookup ⟨address⟩ with
  | some queue => rfl
  | none =>
  dsimp only
  have hdir : (fs.on w.disk).createDirAll = fs.createDirAll := rfl
  rw [hdir]
  cases fs.createDirAll (w.system.mailboxDir address) with
  | error e => rfl
  | ok =>
  dsimp only
  cases PersistQ.new (fs.on w.disk) paths
      { w.system.defaultConfig with storageDir := w.system.mailboxDir address } with
  | error e => rfl
  | ok queue =>
      simp only [spill_putQueue]
      rfl

theorem Unwound.create (h : Unwound a w w') {fs : Files} {paths : PersistQ.Paths}
    {address : String} (hmeets : Meets w (.create fs paths address)) :
    Unwound a (w.create fs paths address) (w'.create fs paths address) := by
  rw [create_eq, create_eq]
  cases address.isEmpty with
  | true => exact h
  | false =>
  simp only [Bool.false_eq_true, if_false]
  cases hlookup : w.system.mailboxes.lookup ⟨address⟩ with
  | some queue =>
      obtain ⟨queue', hlookup', -⟩ := h.alike.lookup_some hlookup
      rw [hlookup']
      exact h
  | none =>
  rw [h.alike.lookup_none hlookup]
  have hdir : w'.system.mailboxDir address = w.system.mailboxDir address := by
    rw [MailboxSystem.mailboxDir, h.alike.baseDir, MailboxSystem.mailboxDir]
  have hdefault : w'.system.defaultConfig = w.system.defaultConfig := by
    rw [MailboxSystem.defaultConfig, h.alike.baseDir, MailboxSystem.defaultConfig]
  have hfree : ∀ path, PersistQ.storagePath fs paths (w.system.mailboxDir address) = .ok path →
      ∀ b, Free w b path := by
    intro path hpath b c queue hc hsame
    exact absurd hsame (hmeets hlookup path hpath c queue hc)
  have hnew : PersistQ.new (fs.on w'.disk) paths
      { w.system.defaultConfig with storageDir := w.system.mailboxDir address } =
      PersistQ.new (fs.on w.disk) paths
      { w.system.defaultConfig with storageDir := w.system.mailboxDir address } :=
    (PersistQ.new_on (fun path hpath => h.alike.agreeIn (hfree path hpath a))).symm
  dsimp only
  rw [hdir, hdefault, hnew]
  cases fs.createDirAll (w.system.mailboxDir address) with
  | error e => exact h
  | ok =>
  dsimp only
  cases hqueue : PersistQ.new (fs.on w.disk) paths
      { w.system.defaultConfig with storageDir := w.system.mailboxDir address } with
  | error e => exact h
  | ok queue =>
      obtain ⟨hhoused, hpath⟩ := PersistQ.new_housed hqueue
      have hfree' : Free w ⟨address⟩ queue.config.storageDir := hfree _ hpath _
      have htidy := h.tidy.put hhoused hfree'
      have htidy' := h.tidy'.put hhoused (h.alike.free hfree')
      refine ⟨⟨htidy.housed, htidy.apart⟩, ⟨htidy'.housed, htidy'.apart⟩, ?_⟩
      refine (h.alike.put hhoused hhoused rfl (fun _ => rfl) ?_).hand _
      intro old hold
      cases hlookup.symm.trans hold

theorem Unwound.get (h : Unwound a w w') (address : String) :
    Unwound a (w.get address) (w'.get address) := by
  have hget : w'.system.getMailbox address = w.system.getMailbox address := by
    unfold MailboxSystem.getMailbox
    split
    · rfl
    · rename_i addr _
      cases hlookup : w.system.mailboxes.lookup addr with
      | none => rw [h.alike.lookup_none hlookup]
      | some queue =>
          obtain ⟨queue', hlookup', -⟩ := h.alike.lookup_some hlookup
          rw [hlookup']
  unfold World.get
  rw [hget]
  split
  · rename_i mailbox _
    exact ⟨⟨h.tidy.housed, h.tidy.apart⟩, ⟨h.tidy'.housed, h.tidy'.apart⟩, h.alike.hand mailbox⟩
  · exact h

/-! ## Runs -/

/-- A step that is not a send to another address is taken in both worlds. -/
theorem Unwound.shown (h : Unwound a w w') {event : Event} {w₁ : World} (hmeets : Meets w event)
    (hmine : forAnother a event = false) (hstep : step J H w event = some w₁) :
    ∃ w₂, step J H w' event = some w₂ ∧ Unwound a w₁ w₂ := by
  cases event with
  | create fs paths address =>
      cases hstep
      exact ⟨_, rfl, h.create hmeets⟩
  | get address =>
      cases hstep
      exact ⟨_, rfl, h.get address⟩
  | send call sender outgoing =>
      cases hm : sender.compose call.id call.timestamp outgoing with
      | error e =>
          simp only [step, World.send, hm] at hstep ⊢
          cases hstep
          exact ⟨w', rfl, h⟩
      | ok m =>
          have hto : m.to_ = a := by simpa [forAnother, hm] using hmine
          subst hto
          exact h.send_mine hm hstep
  | receive handle startTime endTime => exact h.receive hstep
  | peek handle startTime endTime => exact h.peek hstep

theorem Unwound.hidden (h : Unwound a w w') {event : Event} {w₁ : World}
    (hother : forAnother a event = true) (hstep : step J H w event = some w₁) :
    Unwound a w₁ w' := by
  cases event with
  | send call sender outgoing =>
      cases hm : sender.compose call.id call.timestamp outgoing with
      | error e =>
          simp only [forAnother, hm] at hother
          cases hother
      | ok m =>
          simp only [forAnother, hm] at hother
          exact h.send_other hm (of_decide_eq_true hother) hstep
  | create fs paths address => cases hother
  | get address => cases hother
  | receive handle startTime endTime => cases hother
  | peek handle startTime endTime => cases hother

theorem start_tidy {fs : Files} {baseDir : String} {system : MailboxSystem}
    (hnew : MailboxSystem.new fs baseDir = .ok system) (disk : Disk) :
    Tidy (.start disk system) := by
  refine ⟨?_, ?_⟩
  · intro b queue hb
    cases (MailboxSystem.lookup_of_new hnew b).symm.trans hb
  · intro b c queue queue' hb
    cases (MailboxSystem.lookup_of_new hnew b).symm.trans hb

end

/-! ### Letters of two mailboxes

The condition excludes something that happens: where two addresses have one directory
the second letter is written over the first, since each queue counts its own bytes.  With
directories of their own both letters are kept apart. -/

/-- Two mailboxes have one directory iff their addresses are the same with `_` for
`@`. -/
theorem mailboxDir_eq_iff (sys : MailboxSystem) (address address' : String) :
    sys.mailboxDir address = sys.mailboxDir address' ↔
      address.toList.map (fun c => if c = '@' then '_' else c) =
        address'.toList.map (fun c => if c = '@' then '_' else c) := by
  rw [MailboxSystem.mailboxDir, MailboxSystem.mailboxDir, ← String.toList_inj]
  simp only [String.toList_append, List.append_cancel_left_eq, String.toList_map]

section
open Delivery (alice emptySystem firstId secondId freshCall)
open PersistQ (firstFile)

variable {J : SerdeJson} {H : Hasher} {w : World} {address path : String} {queue : PersistQ}
  {bs data : List UInt8}

/-- A mailbox to which nothing was sent yet. -/
structure World.HasNew (w : World) (address : String) (queue : PersistQ) : Prop where
  lookup : w.system.mailboxes.lookup ⟨address⟩ = some queue
  sole : queue.Sole (firstFile (w.system.mailboxDir address)) []
  globalOffset : queue.globalOffset = 0
  config : queue.config =
    { w.system.defaultConfig with storageDir := w.system.mailboxDir address }

theorem World.HasNew.segmentSize (h : w.HasNew address queue) :
    queue.config.segmentSize = MailboxSystem.segmentSize := by
  rw [h.config]
  rfl

theorem World.HasNew.put (h : w.HasNew address queue) (hne : ⟨address⟩ ≠ a)
    (queue' : PersistQ) : (w.put a queue').HasNew address queue :=
  ⟨(put_lookup_ne w queue' hne).trans h.lookup, h.sole, h.globalOffset, h.config⟩

theorem create_fresh (haddress : address.isEmpty = false)
    (hnone : w.system.mailboxes.lookup ⟨address⟩ = none)
    (hvalid : { w.system.defaultConfig with storageDir := w.system.mailboxDir address }.Valid) :
    ∃ queue, w.create Files.fresh .plain address = w.opened address queue ∧
      (w.opened address queue).HasNew address queue := by
  obtain ⟨queue, hqueue, hconfig⟩ := PersistQ.new_willing (Files.fresh_willing.on w.disk) hvalid
  obtain ⟨hsole, hoffset⟩ := PersistQ.new_sole hqueue rfl
  have hdir : Files.fresh.createDirAll (w.system.mailboxDir address) = .ok () := rfl
  rw [hconfig] at hsole
  refine ⟨queue, ?_, put_lookup w ⟨address⟩ queue, hsole, hoffset, hconfig⟩
  simp only [create_eq, haddress, Bool.false_eq_true, if_false, hnone, hdir, hqueue]

theorem send_first (H : Hasher) {m : Message} {sender : Mailbox} {outgoing : Mailbox.Outgoing}
    {timestamp : Nat} {id : String} (hm : sender.compose id timestamp outgoing = .ok m)
    (hto : m.to_ = ⟨address⟩) (h : w.HasNew address queue) (hdata : J.toVec m = .ok data)
    (hsize : data.length ≤ MailboxSystem.segmentSize) (startTime endTime : Nat) : ∃ queue',
    w.send J H (freshCall startTime endTime timestamp id) sender outgoing
      = some (w.put ⟨address⟩ queue') ∧
    queue'.Sole (firstFile (w.system.mailboxDir address)) data ∧
    queue'.config.segmentSize = MailboxSystem.segmentSize ∧
    queue'.offsetMap.lookup 0 = some { partitionId := 1, localOffset := 0 } := by
  have hattached : (queue.attach w.disk).Sole (firstFile (w.system.mailboxDir address)) [] :=
    h.sole.attach rfl
  have hfit : ([] : List UInt8).length + data.length ≤ queue.config.segmentSize := by
    rw [List.length_nil, Nat.zero_add, h.segmentSize]
    exact hsize
  obtain ⟨result, queue', happ, hsole', hconfig, hmapped⟩ :=
    hattached.append H hfit (Files.fresh.on w.disk) startTime endTime 1
  have hrouted : routed J H (onDisk w.disk (freshCall startTime endTime timestamp id)) m
      (queue.attach w.disk) = some queue' := by
    simp only [routed, Message.toBytes, hdata, onDisk, freshCall, happ]
  have hzero : (queue.attach w.disk).globalOffset = 0 := h.globalOffset
  rw [hzero] at hmapped
  refine ⟨queue', ?_, hsole', (congrArg _ hconfig).trans h.segmentSize, hmapped⟩
  rw [send_eq hm, hto, h.lookup]
  dsimp only
  rw [hrouted]
  rfl

/-- A receive of whatever the file holds then. -/
theorem receive_first (hJ : J.Lawful) {m : Message} {handle : Nat} {a : MailboxAddress}
    (hhandle : w.handles[handle]? = some { address := a, readOffset := 0 })
    (hlookup : w.system.mailboxes.lookup a = some queue) (hsole : queue.Sole path bs)
    (hmapped : queue.offsetMap.lookup 0 = some { partitionId := 1, localOffset := 0 })
    (hdisk : (resize (w.disk path) queue.config.segmentSize).take bs.length = data)
    (hdata : J.toVec m = .ok data) (startTime endTime : Nat) :
    w.receive J startTime endTime handle =
      some (w.answered handle { address := a, readOffset := 1 } (some (.ok (some m)))) := by
  have hloaded := load_lookup w.disk a w.system
  rw [hlookup, Option.map_some] at hloaded
  obtain ⟨rest, rfl⟩ := hJ.object hdata
  have hread := (hsole.attach hdisk).read (List.cons_ne_nil _ _) hmapped startTime endTime
  simp only [World.receive, hhandle, Mailbox.receive, hloaded, hread, List.isEmpty_cons,
    Bool.false_eq_true, if_false, Message.fromBytes, hJ.fromSlice_toVec hdata]

/-- A message of one byte, and its text. -/
def note (to_ id : String) (byte : UInt8) : Message :=
  Message.new id 1700000000000000 ⟨"alice@dolda"⟩ ⟨to_⟩ [byte]

def noteText (to_ id byte : String) : List UInt8 :=
  ("\x7b\"from\":\"alice@dolda\",\"to\":\"" ++ to_ ++ "\",\"id\":\"" ++ id ++
    "\",\"timestamp\":1700000000000000,\"body\":[" ++ byte ++
    "],\"subject\":null,\"reply_to\":null\x7d").toUTF8.data.toList

/-- The serializer on three such messages. -/
def notes : SerdeJson :=
  .ofTexts [(note "team@dolda" firstId 65, noteText "team@dolda" firstId "65"),
    (note "team_dolda" secondId 66, noteText "team_dolda" secondId "66"),
    (note "bob@dolda" secondId 66, noteText "bob@dolda" secondId "66")]

theorem notes_lawful : notes.Lawful :=
  SerdeJson.ofTexts_lawful (by decide +kernel) (by decide +kernel)

def sendNote (to_ id : String) (byte : UInt8) : Event :=
  .send (freshCall 0 1 1700000000000000 id) alice (.sendTo to_ [byte])

/-- Two mailboxes. -/
def createBoth (address address' : String) : List Event :=
  [.create .fresh .plain address, .create .fresh .plain address']

theorem exists_both (J : SerdeJson) (H : Hasher) {address address' : String}
    (haddress : address.isEmpty = false) (haddress' : address'.isEmpty = false)
    (hne : address' ≠ address)
    (hvalid : { emptySystem.defaultConfig with
      storageDir := emptySystem.mailboxDir address }.Valid)
    (hvalid' : { emptySystem.defaultConfig with
      storageDir := emptySystem.mailboxDir address' }.Valid) : ∃ w queue queue',
    Lts.run (step J H) (.start (fun _ => []) emptySystem) (createBoth address address') = some w ∧
    w.handles = [{ address := ⟨address⟩, readOffset := 0 },
      { address := ⟨address'⟩, readOffset := 0 }] ∧ w.answers = [] ∧
    w.HasNew address queue ∧ w.HasNew address' queue' ∧
    (emptySystem.mailboxDir address ≠ emptySystem.mailboxDir address' →
      Lts.Guarded (step J H) Meets (.start (fun _ => []) emptySystem)
        (createBoth address address')) := by
  have hother : (⟨address'⟩ : MailboxAddress) ≠ ⟨address⟩ :=
    fun heq => hne (congrArg MailboxAddress.address heq)
  let w₀ : World := .start (fun _ => []) emptySystem
  have hempty : ∀ a, w₀.system.mailboxes.lookup a = none := AList.lookup_empty
  obtain ⟨queue, hcreate, hqueue⟩ := create_fresh (w := w₀) haddress (hempty _) hvalid
  have hnone : (w₀.opened address queue).system.mailboxes.lookup ⟨address'⟩ = none :=
    (put_lookup_ne w₀ queue hother).trans (hempty _)
  obtain ⟨queue', hcreate', hqueue'⟩ :=
    create_fresh (w := w₀.opened address queue) haddress' hnone hvalid'
  have hstep : step J H w₀ (.create .fresh .plain address) = some (w₀.opened address queue) :=
    congrArg some hcreate
  have hstep' : step J H (w₀.opened address queue) (.create .fresh .plain address') =
      some ((w₀.opened address queue).opened address' queue') := congrArg some hcreate'
  refine ⟨(w₀.opened address queue).opened address' queue', queue, queue', ?_, rfl, rfl, ?_,
    hqueue', ?_⟩
  · simp only [createBoth, Lts.run, ← show w₀ = .start (fun _ => []) emptySystem from rfl, hstep,
      hstep']
  · have hput := hqueue.put (Ne.symm hother) queue'
    exact ⟨hput.lookup, hput.sole, hput.globalOffset, hput.config⟩
  · intro hdirs
    simp only [createBoth, Lts.Guarded, ← show w₀ = .start (fun _ => []) emptySystem from rfl,
      hstep, hstep']
    refine ⟨?_, ?_, trivial⟩
    · intro _ path _ b queue₁ hb
      cases (hempty b).symm.trans hb
    · intro _ path hpath b queue₁ hb
      cases hpath
      by_cases hba : b = ⟨address⟩
      · subst hba
        cases hqueue.lookup.symm.trans hb
        rw [hqueue.config]
        exact hdirs
      · cases (hempty b).symm.trans ((put_lookup_ne w₀ queue hba).symm.trans hb)

/-- A message is all that the file of the first of two mailboxes holds, and it has
received nothing. -/
structure World.Due (other : String) (w : World) (m : Message) : Prop where
  handles : w.handles = [⟨⟨"team@dolda"⟩, 0⟩, ⟨⟨other⟩, 0⟩]
  answers : w.answers = []
  file : ∃ queue path bs text, w.system.mailboxes.lookup ⟨"team@dolda"⟩ = some queue ∧
    queue.Sole path bs ∧
    queue.offsetMap.lookup 0 = some { partitionId := 1, localOffset := 0 } ∧
    (resize (w.disk path) queue.config.segmentSize).take bs.length = text ∧
    notes.toVec m = .ok text

theorem World.Due.receive {other : String} {m : Message} (h : w.Due other m) : ∃ w',
    step notes H w (.receive 0 2 3) = some w' ∧
    w'.handles.map Mailbox.address = [⟨"team@dolda"⟩, ⟨other⟩] ∧
    w'.answersAt ⟨"team@dolda"⟩ = [some (.ok (some m))] := by
  obtain ⟨queue, path, bs, text, hlookup, hsole, hmapped, hdisk, hbytes⟩ := h.file
  have hhandle : w.handles[0]? = some ⟨⟨"team@dolda"⟩, 0⟩ := by
    rw [h.handles]
    rfl
  have hreceive :=
    receive_first notes_lawful hhandle hlookup hsole hmapped hdisk hbytes 2 3
  refine ⟨_, hreceive, ?_, ?_⟩
  · show (w.handles.set 0 _).map Mailbox.address = _
    rw [h.handles]
    rfl
  · have hnone : w.answersAt ⟨"team@dolda"⟩ = [] := by
      rw [World.answersAt, h.answers]
      rfl
    rw [answersAt_answered, hnone, if_pos rfl, List.nil_append]

theorem note_to_team (other : String) (hother : other.isEmpty = false)
    (hne : other ≠ "team@dolda")
    (hvalid : { emptySystem.defaultConfig with
      storageDir := emptySystem.mailboxDir other }.Valid) : ∃ w queue queue',
    Lts.run (step notes crc32Hasher) (.start (fun _ => []) emptySystem)
      (createBoth "team@dolda" other) = some w ∧
    step notes crc32Hasher w (sendNote "team@dolda" firstId 65) =
      some (w.put ⟨"team@dolda"⟩ queue) ∧
    queue.Sole (firstFile (w.system.mailboxDir "team@dolda"))
      (noteText "team@dolda" firstId "65") ∧
    queue.config.segmentSize = MailboxSystem.segmentSize ∧
    (w.put ⟨"team@dolda"⟩ queue).Due other (note "team@dolda" firstId 65) ∧
    (w.put ⟨"team@dolda"⟩ queue).HasNew other queue' ∧
    (emptySystem.mailboxDir "team@dolda" ≠ emptySystem.mailboxDir other →
      Lts.Guarded (step notes crc32Hasher) Meets (.start (fun _ => []) emptySystem)
        (createBoth "team@dolda" other)) := by
  have hvalid' : { emptySystem.defaultConfig with
      storageDir := emptySystem.mailboxDir "team@dolda" }.Valid := by
    decide +kernel
  obtain ⟨w, queue₀, queue', hrun, hhandles, hanswers, hnew, hnew', hguarded⟩ :=
    exists_both notes crc32Hasher rfl hother hne hvalid' hvalid
  have hbytes : notes.toVec (note "team@dolda" firstId 65) =
      .ok (noteText "team@dolda" firstId "65") := by decide +kernel
  have hsize : (noteText "team@dolda" firstId "65").length ≤ MailboxSystem.segmentSize := by
    decide +kernel
  have hnote : alice.compose firstId 1700000000000000 (.sendTo "team@dolda" [65]) =
      .ok (note "team@dolda" firstId 65) := rfl
  obtain ⟨queue, hsend, hsole, hcap, hmapped⟩ :=
    send_first crc32Hasher hnote rfl hnew hbytes hsize 0 1
  have haddress : (⟨other⟩ : MailboxAddress) ≠ ⟨"team@dolda"⟩ :=
    fun heq => hne (congrArg MailboxAddress.address heq)
  exact ⟨w, queue, queue', hrun, hsend, hsole, hcap,
    ⟨hhandles, hanswers, queue, _, _, _, put_lookup w _ queue, hsole, hmapped, hsole.spill w.disk,
      hbytes⟩,
    hnew'.put haddress queue, hguarded⟩

end

/-- **Isolation.**  In every run of a new system, whatever is on the disk, that creates
each mailbox in a directory no other has, no address can tell whether there were
sends to others. -/
theorem isolated {J : SerdeJson} {H : Hasher} {fs : Files} {baseDir : String}
    {system : MailboxSystem} (hnew : MailboxSystem.new fs baseDir = .ok system) (disk : Disk)
    {events : List Event}
    (hmeets : Lts.Guarded (step J H) Meets (.start disk system) events) :
    Isolated J H (.start disk system) events := by
  intro a w₁ hrun
  have hstart : Unwound a (.start disk system) (.start disk system) :=
    ⟨start_tidy hnew disk, start_tidy hnew disk, .refl a _⟩
  obtain ⟨w₂, hrun₂, h⟩ := Lts.Guarded.purge (forAnother a) (Unwound a)
    (fun h _ hother hstep => h.hidden hother hstep)
    (fun h hok hmine hstep => h.shown hok hmine hstep) hstart hmeets hrun
  exact ⟨w₂, hrun₂, h.alike.sameAt h.tidy⟩

section
open Delivery (alice emptySystem firstId secondId)
open Workers (emptySystem_new)

/-- A letter to one address, and one to another with a directory of its own. -/
theorem isolated_letter : ∃ w,
    Lts.run (step notes crc32Hasher) (.start (fun _ => []) emptySystem)
      (createBoth "team@dolda" "bob@dolda" ++
        [sendNote "team@dolda" firstId 65, sendNote "bob@dolda" secondId 66, .receive 0 2 3])
      = some w ∧
    w.answersAt ⟨"team@dolda"⟩ = [some (.ok (some (note "team@dolda" firstId 65)))] := by
  obtain ⟨w, queue, queue', hrun, hstep, -, -, hdue, hnew, hguarded⟩ :=
    note_to_team "bob@dolda" rfl (by decide) (by decide +kernel)
  have hguarded := hguarded (by decide +kernel)
  have hbytes : notes.toVec (note "bob@dolda" secondId 66) =
      .ok (noteText "bob@dolda" secondId "66") := by decide +kernel
  have hnote : alice.compose secondId 1700000000000000 (.sendTo "bob@dolda" [66]) =
      .ok (note "bob@dolda" secondId 66) := rfl
  obtain ⟨queue₁, hstep₁, -⟩ :=
    send_first crc32Hasher hnote rfl hnew hbytes (by decide +kernel) 0 1
  let w₁ : World := (w.put ⟨"team@dolda"⟩ queue).put ⟨"bob@dolda"⟩ queue₁
  have hsend : step notes crc32Hasher (w.put ⟨"team@dolda"⟩ queue)
      (sendNote "bob@dolda" secondId 66) = some w₁ := hstep₁
  have hhandle : w₁.handles[0]? = some ⟨⟨"team@dolda"⟩, 0⟩ := by
    show (w.put ⟨"team@dolda"⟩ queue).handles[0]? = _
    rw [hdue.handles]
    rfl
  obtain ⟨mailbox, answer, hreceive, -⟩ := receive_eq notes 2 3 hhandle
  have hreceive : step notes crc32Hasher w₁ (.receive 0 2 3) =
      some (w₁.answered 0 mailbox answer) := hreceive
  have hrun₁ : Lts.run (step notes crc32Hasher) (.start (fun _ => []) emptySystem)
      (createBoth "team@dolda" "bob@dolda" ++
        [sendNote "team@dolda" firstId 65, sendNote "bob@dolda" secondId 66, .receive 0 2 3])
      = some (w₁.answered 0 mailbox answer) := by
    rw [Lts.run_append, hrun]
    simp only [Option.bind_some, Lts.run, hstep, hsend, hreceive]
  have hmeets : Lts.Guarded (step notes crc32Hasher) Meets w
      [sendNote "team@dolda" firstId 65, sendNote "bob@dolda" secondId 66, .receive 0 2 3] := by
    simp only [Lts.Guarded, hstep, hsend, hreceive]
    exact ⟨trivial, trivial, trivial, trivial⟩
  -- without the letter to the other, the receive answers with the first
  obtain ⟨w₂, hrun₂, hsame⟩ := isolated emptySystem_new (fun _ => [])
    (hguarded.append hrun hmeets) ⟨"team@dolda"⟩ _ hrun₁
  obtain ⟨w₃, hreceive₃, -, hanswers⟩ := hdue.receive (H := crc32Hasher)
  have hmine : forAnother ⟨"team@dolda"⟩ (sendNote "team@dolda" firstId 65) = false := by
    decide +kernel
  have hother : forAnother ⟨"team@dolda"⟩ (sendNote "bob@dolda" secondId 66) = true := by
    decide +kernel
  have hwithout : without ⟨"team@dolda"⟩ (createBoth "team@dolda" "bob@dolda" ++
      [sendNote "team@dolda" firstId 65, sendNote "bob@dolda" secondId 66, .receive 0 2 3]) =
      createBoth "team@dolda" "bob@dolda" ++
        [sendNote "team@dolda" firstId 65, .receive 0 2 3] := by
    simp only [without, createBoth, List.cons_append, List.nil_append, List.filter_cons, hmine,
      hother]
    rfl
  have hrun₃ : Lts.run (step notes crc32Hasher) (.start (fun _ => []) emptySystem)
      (createBoth "team@dolda" "bob@dolda" ++
        [sendNote "team@dolda" firstId 65, .receive 0 2 3]) = some w₃ := by
    rw [Lts.run_append, hrun]
    simp only [Option.bind_some, Lts.run, hstep, hreceive₃]
  rw [hwithout, hrun₃] at hrun₂
  cases hrun₂
  exact ⟨_, hrun₁, hsame.answers.symm.trans hanswers⟩

theorem notes_sent : ∃ w w₁ w₂,
    Lts.run (step notes crc32Hasher) (.start (fun _ => []) emptySystem)
      (createBoth "team@dolda" "team_dolda") = some w ∧
    step notes crc32Hasher w (sendNote "team@dolda" firstId 65) = some w₁ ∧
    step notes crc32Hasher w₁ (sendNote "team_dolda" secondId 66) = some w₂ ∧
    w₁.Due "team_dolda" (note "team@dolda" firstId 65) ∧
    w₂.Due "team_dolda" (note "team_dolda" secondId 66) := by
  obtain ⟨w, queue₁, queue', hrun, hsend, hsole₁, hcap₁, hdue, hnew', -⟩ :=
    note_to_team "team_dolda" rfl (by decide) (by decide +kernel)
  have hbytes' : notes.toVec (note "team_dolda" secondId 66) =
      .ok (noteText "team_dolda" secondId "66") := by decide +kernel
  have hlen : (noteText "team@dolda" firstId "65").length =
      (noteText "team_dolda" secondId "66").length := by decide +kernel
  have hother : (⟨"team_dolda"⟩ : MailboxAddress) ≠ ⟨"team@dolda"⟩ := by decide
  have hnote' : alice.compose secondId 1700000000000000 (.sendTo "team_dolda" [66]) =
      .ok (note "team_dolda" secondId 66) := rfl
  obtain ⟨queue₂, hsend', hsole₂, hcap₂, -⟩ :=
    send_first crc32Hasher hnote' rfl hnew' hbytes' (by decide +kernel) 0 1
  obtain ⟨queue, -, -, -, hlookup, -, hmapped, -, -⟩ := hdue.file
  cases (put_lookup w _ queue₁).symm.trans hlookup
  -- the file holds the second letter, as long as the first was
  have hdisk' := hsole₂.spill (w.put ⟨"team@dolda"⟩ queue₁).disk
  have hdir : (w.put ⟨"team@dolda"⟩ queue₁).system.mailboxDir "team_dolda" =
      w.system.mailboxDir "team@dolda" := (mailboxDir_eq_iff _ _ _).mpr (by decide)
  rw [hdir, ← hlen, hcap₂, ← hcap₁] at hdisk'
  exact ⟨w, _, _, hrun, hsend, hsend', hdue,
    ⟨hdue.handles, hdue.answers, queue₁, _, _, _,
      (put_lookup_ne _ queue₂ (Ne.symm hother)).trans hlookup, hsole₁, hmapped, hdisk', hbytes'⟩⟩

/-- **A letter overwritten by one to another mailbox**: the two addresses have one
directory, and the first to receive gets what was sent to the second. -/
theorem letter_overwritten : ∃ w₁ w₂,
    MailboxSystem.new Files.fresh "/data" = .ok emptySystem ∧
    Lts.run (step notes crc32Hasher) (.start (fun _ => []) emptySystem)
      (createBoth "team@dolda" "team_dolda" ++
        [sendNote "team@dolda" firstId 65, sendNote "team_dolda" secondId 66, .receive 0 2 3])
      = some w₁ ∧
    Lts.run (step notes crc32Hasher) (.start (fun _ => []) emptySystem)
      (createBoth "team@dolda" "team_dolda" ++
        [sendNote "team@dolda" firstId 65, .receive 0 2 3]) = some w₂ ∧
    w₁.handles.map Mailbox.address = [⟨"team@dolda"⟩, ⟨"team_dolda"⟩] ∧
    w₁.answersAt ⟨"team@dolda"⟩ = [some (.ok (some (note "team_dolda" secondId 66)))] ∧
    w₂.answersAt ⟨"team@dolda"⟩ = [some (.ok (some (note "team@dolda" firstId 65)))] ∧
    ¬ Isolated notes crc32Hasher (.start (fun _ => []) emptySystem)
      (createBoth "team@dolda" "team_dolda" ++
        [sendNote "team@dolda" firstId 65, sendNote "team_dolda" secondId 66, .receive 0 2 3]) := by
  obtain ⟨w, w₁, w₂, hrun, hstep, hstep₁, hdue, hdue'⟩ := notes_sent
  obtain ⟨w₃, hstep₂, haddresses, hanswers₁⟩ := hdue'.receive (H := crc32Hasher)
  obtain ⟨w₄, hstep₃, -, hanswers₂⟩ := hdue.receive (H := crc32Hasher)
  have hrun₁ : Lts.run (step notes crc32Hasher) (.start (fun _ => []) emptySystem)
      (createBoth "team@dolda" "team_dolda" ++
        [sendNote "team@dolda" firstId 65, sendNote "team_dolda" secondId 66, .receive 0 2 3])
      = some w₃ := by
    rw [Lts.run_append, hrun]
    simp only [Option.bind_some, Lts.run, hstep, hstep₁, hstep₂]
  have hrun₂ : Lts.run (step notes crc32Hasher) (.start (fun _ => []) emptySystem)
      (createBoth "team@dolda" "team_dolda" ++
        [sendNote "team@dolda" firstId 65, .receive 0 2 3]) = some w₄ := by
    rw [Lts.run_append, hrun]
    simp only [Option.bind_some, Lts.run, hstep, hstep₃]
  refine ⟨w₃, w₄, emptySystem_new, hrun₁, hrun₂, haddresses, hanswers₁, hanswers₂, ?_⟩
  intro hisolated
  obtain ⟨w₅, hrun₅, hsame⟩ := hisolated ⟨"team@dolda"⟩ _ hrun₁
  have hmine : forAnother ⟨"team@dolda"⟩ (sendNote "team@dolda" firstId 65) = false := by
    decide +kernel
  have hother' : forAnother ⟨"team@dolda"⟩ (sendNote "team_dolda" secondId 66) = true := by
    decide +kernel
  have hwithout : without ⟨"team@dolda"⟩ (createBoth "team@dolda" "team_dolda" ++
      [sendNote "team@dolda" firstId 65, sendNote "team_dolda" secondId 66, .receive 0 2 3]) =
      createBoth "team@dolda" "team_dolda" ++
        [sendNote "team@dolda" firstId 65, .receive 0 2 3] := by
    simp only [without, createBoth, List.cons_append, List.nil_append, List.filter_cons, hmine,
      hother']
    rfl
  rw [hwithout, hrun₂] at hrun₅
  cases hrun₅
  have hanswer := hsame.answers
  rw [hanswers₁, hanswers₂, List.singleton_inj, Option.some_inj, Except.ok.injEq,
    Option.some_inj] at hanswer
  exact absurd (congrArg Message.body hanswer) (by decide)

end

end Dolda.Isolation
