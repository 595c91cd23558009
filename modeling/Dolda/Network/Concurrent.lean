/-
# `Dolda.Network.Concurrent` — requests handled at the same time

A task for each request, in the steps at which `get_or_create_mailbox` takes a
lock: the cache is read; the system is locked and a handle got or made; the
handle is cached and the system unlocked; then the operation on the mailbox.  The
labels of a run say which task moves next, so a statement about every run is one
about every interleaving.  Taken all at once, the steps of a task are the handler
(`run_alone`).

**The rule.**  Two tasks that both find no handle in the cache each get one of
their own, and the second replaces the first in the cache.  Both start at the
first message, so both may carry it in their responses (`carried_twice`).  Where
every receive is made on a foremost handle, and every mailbox made in a directory of
its own, each message is carried once (`carried_once`).
-/
import Dolda.Mailbox.Sharing
import Dolda.Network.Server

namespace Dolda.Network

open Workers (Office Kept Sound Grown Sent)
open MailboxServer (Has)

/-- The mailbox whose handle a request needs. -/
def NetworkMessage.address : NetworkMessage → Option String
  | .send _ from_ _ _ => some from_
  | .receive mailbox => some mailbox
  | .peek mailbox => some mailbox
  | _ => none

/-- The response when there is no handle. -/
def NetworkMessage.refused (e : NetworkError) : NetworkMessage → NetworkMessage
  | .send _ _ _ _ => .error ("Failed to get sender mailbox: " ++ e.display)
  | _ => .error ("Failed to get mailbox: " ++ e.display)

/-- The response to a request with a handle. -/
def MailboxServer.operate (J : SerdeJson) (H : Hasher) (service : Service)
    (request : NetworkMessage) (handle : Nat) (s : MailboxServer) :
    Option (NetworkMessage × MailboxServer) :=
  match request with
  | .send to_ _ body subject => s.sendOn J H service to_ body subject handle
  | .receive _ => s.receiveOn J service handle
  | .peek _ => s.peekOn J service handle
  | _ => some (.error "Invalid request", s)

/-- What a request is handled with, where the files are those on the disk. -/
def Service.atDisk (disk : Disk) (service : Service) : Service :=
  { service with call := { service.call with fs := service.call.fs.on disk } }

namespace Concurrent

/-- What a task does next. -/
inductive Phase where
  | lookup
  | fetch
  | insert (handle : Nat)
  | operate (handle : Nat)
  | done (response : NetworkMessage)

structure Task where
  request : NetworkMessage
  phase : Phase

structure World where
  server : MailboxServer
  /-- The task that holds the lock of the system. -/
  locked : Option Nat
  tasks : List Task

inductive Event where
  | arrive (request : NetworkMessage)
  | advance (task : Nat) (service : Service)

/-- A server with an empty cache, for a system whose mailboxes were sent `sent`. -/
def World.start (config : NetworkConfig) (system : MailboxSystem) (sent : List Sent) : World where
  server := { config, office := { system, handles := [], sent, received := [] }, mailboxes := ∅ }
  locked := none
  tasks := []

def World.put (w : World) (task : Nat) (request : NetworkMessage) (phase : Phase) : World :=
  { w with tasks := w.tasks.set task { request, phase } }

/-- A request that needs no handle is answered at once. -/
def Task.new (request : NetworkMessage) : Task :=
  match request.address with
  | none => { request, phase := .done (.error "Invalid request") }
  | some _ => { request, phase := .lookup }

/-- One step of a task whose request needs the handle of `address`; `none` while it
waits for the lock, and once it is done. -/
def advance (J : SerdeJson) (H : Hasher) (service : Service) (w : World) (task : Nat)
    (request : NetworkMessage) (address : String) : Phase → Option World
  | .lookup =>
      match w.server.cached address with
      | some handle => some (w.put task request (.operate handle))
      | none => some (w.put task request .fetch)
  | .fetch =>
      match w.locked with
      | some _ => none
      | none =>
          match w.server.fetch service address with
          | (.error e, server) =>
              some ({ w with server }.put task request (.done (request.refused e)))
          | (.ok handle, server) =>
              some ({ w with server, locked := some task }.put task request (.insert handle))
  | .insert handle =>
      let server := w.server.remember address handle
      some ({ w with server, locked := none }.put task request (.operate handle))
  | .operate handle =>
      match w.server.operate J H service request handle with
      | none => none
      | some (response, server) => some ({ w with server }.put task request (.done response))
  | .done _ => none

def step (J : SerdeJson) (H : Hasher) (w : World) : Event → Option World
  | .arrive request => some { w with tasks := w.tasks ++ [.new request] }
  | .advance task service =>
      match w.tasks[task]? with
      | none => none
      | some t =>
          match t.request.address with
          | none => none
          | some address => advance J H service w task t.request address t.phase

/-! ## A task alone

Each step of a task is a part of the sequential handler, and the parts taken without
another step in between are the handler; so the interleavings are those of the source's
own code. -/

/-- A handler comes by the handle, and then operates on it. -/
theorem handleMessage_eq (J : SerdeJson) (H : Hasher) (service : Service)
    {request : NetworkMessage} {address : String} (h : request.address = some address)
    (s : MailboxServer) : s.handleMessage J H service request =
      match s.getOrCreateMailbox service address with
      | (.error e, s) => some (request.refused e, s)
      | (.ok handle, s) => s.operate J H service request handle := by
  cases request with
  | send to_ from_ body subject => cases h; rfl
  | receive mailbox => cases h; rfl
  | peek mailbox => cases h; rfl
  | messageResponse message => cases h
  | success => cases h
  | error message => cases h

section
variable {J : SerdeJson} {H : Hasher} {service : Service} {w : World} {task handle : Nat}
  {request : NetworkMessage} {address : String}

theorem step_put (hlt : task < w.tasks.length) (haddress : request.address = some address)
    (phase : Phase) : step J H (w.put task request phase) (.advance task service) =
      advance J H service (w.put task request phase) task request address phase := by
  have htask : (w.put task request phase).tasks[task]? = some { request, phase } :=
    List.getElem?_set_self hlt
  simp only [step, htask, haddress]

theorem step_cached (hlt : task < w.tasks.length) (haddress : request.address = some address)
    (hcached : w.server.cached address = some handle) :
    step J H (w.put task request .lookup) (.advance task service) =
      some (w.put task request (.operate handle)) := by
  have hcached' : (w.put task request .lookup).server.cached address = some handle := hcached
  rw [step_put hlt haddress, advance, hcached']
  simp only [World.put, List.set_set]

theorem step_missed (hlt : task < w.tasks.length) (haddress : request.address = some address)
    (hcached : w.server.cached address = none) :
    step J H (w.put task request .lookup) (.advance task service) =
      some (w.put task request .fetch) := by
  have hcached' : (w.put task request .lookup).server.cached address = none := hcached
  rw [step_put hlt haddress, advance, hcached']
  simp only [World.put, List.set_set]

theorem step_fetch (J : SerdeJson) (H : Hasher) (service : Service) (hlt : task < w.tasks.length)
    (haddress : request.address = some address) (hlocked : w.locked = none) :
    step J H (w.put task request .fetch) (.advance task service) =
      match w.server.fetch service address with
      | (.error e, server) => some ({ w with server }.put task request (.done (request.refused e)))
      | (.ok handle, server) =>
          some ({ w with server, locked := some task }.put task request (.insert handle)) := by
  have hlocked' : (w.put task request .fetch).locked = none := hlocked
  have hserver : (w.put task request .fetch).server = w.server := rfl
  rw [step_put hlt haddress, advance, hlocked', hserver]
  dsimp only
  split
  · simp only [World.put, List.set_set, hlocked]
  · simp only [World.put, List.set_set]

theorem step_insert (hlt : task < w.tasks.length) (haddress : request.address = some address) :
    step J H (w.put task request (.insert handle)) (.advance task service) =
      some ({ w with server := w.server.remember address handle, locked := none }.put task request
        (.operate handle)) := by
  rw [step_put hlt haddress, advance]
  simp only [World.put, List.set_set]

theorem step_operate (hlt : task < w.tasks.length) (haddress : request.address = some address)
    {response : NetworkMessage} {server : MailboxServer}
    (hop : w.server.operate J H service request handle = some (response, server)) :
    step J H (w.put task request (.operate handle)) (.advance task service) =
      some ({ w with server }.put task request (.done response)) := by
  have hop' : (w.put task request (.operate handle)).server.operate J H service request handle =
      some (response, server) := hop
  rw [step_put hlt haddress, advance, hop']
  simp only [World.put, List.set_set]

/-- **A task whose steps are all taken at once** does what the handler does. -/
theorem run_alone (hlt : task < w.tasks.length) (haddress : request.address = some address)
    (hlocked : w.locked = none) {response : NetworkMessage} {server : MailboxServer}
    (hhandle : w.server.handleMessage J H service request = some (response, server)) :
    ∃ n, Lts.run (step J H) (w.put task request .lookup)
      (List.replicate n (.advance task service)) =
        some ({ w with server }.put task request (.done response)) := by
  rw [handleMessage_eq _ _ _ haddress, MailboxServer.getOrCreateMailbox] at hhandle
  cases hcached : w.server.cached address with
  | some handle =>
      rw [hcached] at hhandle
      refine ⟨2, ?_⟩
      simp only [List.replicate, Lts.run, step_cached hlt haddress hcached,
        step_operate hlt haddress hhandle]
  | none =>
  rw [hcached] at hhandle
  have hfetched := step_fetch J H service hlt haddress hlocked
  cases hfetch : w.server.fetch service address with
  | mk answer server₁ =>
  rw [hfetch] at hfetched
  simp only [hfetch] at hhandle
  cases answer with
  | error e =>
      cases hhandle
      refine ⟨2, ?_⟩
      simp only [List.replicate, Lts.run, step_missed hlt haddress hcached, hfetched]
  | ok handle =>
      let w₁ : World := { w with server := server₁, locked := some task }
      let w₂ : World :=
        { w₁ with server := server₁.remember address handle, locked := none }
      have hfetched' : step J H (w.put task request .fetch) (.advance task service) =
          some (w₁.put task request (.insert handle)) := hfetched
      have hinsert : step J H (w₁.put task request (.insert handle)) (.advance task service) =
          some (w₂.put task request (.operate handle)) := step_insert hlt haddress
      have hoperate : step J H (w₂.put task request (.operate handle)) (.advance task service) =
          some ({ w₂ with server }.put task request (.done response)) :=
        step_operate (w := w₂) hlt haddress hhandle
      refine ⟨4, ?_⟩
      simp only [List.replicate, Lts.run, step_missed hlt haddress hcached, hfetched', hinsert,
        hoperate]
      rw [hlocked]

end

/-- The message a task has carried out of a mailbox in its response. -/
def Task.carries (mailbox : String) (t : Task) : List MessageData :=
  match t.request, t.phase with
  | .receive address, .done (.messageResponse (some data)) =>
      if address = mailbox then [data] else []
  | _, _ => []

def carried (mailbox : String) (tasks : List Task) : List MessageData :=
  tasks.flatMap (Task.carries mailbox)

/-- No message sent to a mailbox was carried by more responses than it was sent
times. -/
def World.CarriedOnce (w : World) : Prop := ∀ mailbox data,
  (carried mailbox w.tasks).count data ≤
    (((w.server.office.sentTo ⟨mailbox⟩).map Sent.message).map MessageData.of).count data

/-- A receive is made on a foremost handle. -/
def Meets (w : World) : Event → Prop
  | .arrive _ => True
  | .advance task _ => ∀ address handle,
      w.tasks[task]? = some { request := .receive address, phase := .operate handle } →
        ∀ mailbox, w.server.office.handles[handle]? = some mailbox →
          w.server.office.Foremost mailbox

/-! ## The invariant -/

section
variable {J : SerdeJson} {H : Hasher} {o o' : Office} {w w' : World} {t : Task}
  {handle task : Nat} {address : String} {request : NetworkMessage} {phase : Phase}

/-- Every handle cached or held by a task is one of its address, and what was
received is what the responses carry. -/
structure Serving (J : SerdeJson) (w : World) : Prop where
  sound : Sound J w.server.office
  wired : w.server.Wired
  held : ∀ t ∈ w.tasks, ∀ handle, t.phase = .insert handle ∨ t.phase = .operate handle →
    ∃ address, t.request.address = some address ∧ Has w.server.office handle address
  carried : ∀ mailbox, (carried mailbox w.tasks).Perm
    ((w.server.office.receivedAt ⟨mailbox⟩).map MessageData.of)

theorem Serving.carriedOnce (h : Serving J w) : w.CarriedOnce := by
  intro mailbox data
  obtain ⟨messages, hperm, hsub⟩ := h.sound.subperm ⟨mailbox⟩
  have hle := (hsub.map MessageData.of).count_le data
  rw [(h.carried mailbox).count_eq, ← (hperm.map MessageData.of).count_eq]
  exact hle

theorem carried_set {tasks : List Task} {mailbox : String} (ht : tasks[task]? = some t)
    (hnone : t.carries mailbox = []) (t' : Task) :
    (carried mailbox (tasks.set task t')).Perm (carried mailbox tasks ++ t'.carries mailbox) := by
  obtain ⟨pre, post, hsplit, hset, -⟩ := Lts.exists_split ht
  rw [hset, hsplit]
  simp only [Concurrent.carried, List.flatMap_append, List.flatMap_cons, hnone, List.nil_append,
    List.append_assoc]
  exact List.perm_append_comm.append_left _

theorem Serving.put (h : Serving J w) (ht : w.tasks[task]? = some t)
    (hnone : ∀ mailbox, t.carries mailbox = []) {server : MailboxServer} {locked : Option Nat}
    (hsound : Sound J server.office)
    (hhas : ∀ {handle address}, Has w.server.office handle address →
      Has server.office handle address)
    (hwired : server.Wired)
    (hheld : ∀ handle, phase = .insert handle ∨ phase = .operate handle →
      ∃ address, request.address = some address ∧ Has server.office handle address)
    (hcarried : ∀ mailbox,
      ((w.server.office.receivedAt ⟨mailbox⟩).map MessageData.of ++
        Task.carries mailbox { request, phase }).Perm
        ((server.office.receivedAt ⟨mailbox⟩).map MessageData.of)) :
    Serving J ({ w with server, locked }.put task request phase) where
  sound := hsound
  wired := hwired
  held := by
    intro t' ht' handle hphase
    rcases List.mem_or_eq_of_mem_set ht' with hmem | rfl
    · obtain ⟨address, haddress, hhas'⟩ := h.held t' hmem handle hphase
      exact ⟨address, haddress, hhas hhas'⟩
    · exact hheld handle hphase
  carried := by
    intro mailbox
    refine (carried_set ht (hnone mailbox) _).trans ?_
    exact ((h.carried mailbox).append_right _).trans (hcarried mailbox)

theorem Sound.grown (h : Sound J o) (hgrown : Grown o o') (hkept : ∀ a, Kept J o' a) :
    Sound J o' where
  kept := hkept
  consumed a := by
    obtain ⟨at_, hconsumed⟩ := h.consumed a
    exact ⟨at_, hconsumed.grown hgrown⟩

/-! ### The steps of a task

Only a response to a receive carries a message: the one received.  A step in which
nothing is received and no handle is lost leaves what has been carried, and a response
to a request of another kind ends its task. -/

theorem carries_eq_nil (mailbox : String) (h : ∀ address data, request = .receive address →
    phase ≠ .done (.messageResponse (some data))) :
    Task.carries mailbox { request, phase } = [] := by
  rw [Task.carries]
  split
  · rename_i address data hrequest hphase
    exact absurd hphase (h address data hrequest)
  · rfl

theorem carries_pending (mailbox : String) (h : ∀ response, phase ≠ .done response) :
    Task.carries mailbox { request, phase } = [] :=
  carries_eq_nil mailbox (fun _ data _ => h (.messageResponse (some data)))

theorem Serving.handle_has (h : Serving J w)
    (ht : w.tasks[task]? = some { request, phase }) (haddress : request.address = some address)
    (hphase : phase = .insert handle ∨ phase = .operate handle) :
    Has w.server.office handle address := by
  obtain ⟨address', haddress', hhas⟩ := h.held _ (List.mem_of_getElem? ht) handle hphase
  cases haddress.symm.trans haddress'
  exact hhas

theorem Serving.quiet (h : Serving J w) (ht : w.tasks[task]? = some t)
    (hnone : ∀ mailbox, t.carries mailbox = []) {server : MailboxServer} {locked : Option Nat}
    (hgrown : Grown w.server.office server.office)
    (hkept : ∀ a, Kept J w.server.office a → Kept J server.office a)
    (hwired : server.Wired)
    (hheld : ∀ handle, phase = .insert handle ∨ phase = .operate handle →
      ∃ address, request.address = some address ∧ Has server.office handle address)
    (hcarries : ∀ mailbox, Task.carries mailbox { request, phase } = []) :
    Serving J ({ w with server, locked }.put task request phase) := by
  refine h.put ht hnone (Sound.grown h.sound hgrown (fun a => hkept a (h.sound.kept a)))
    (fun hhas => hhas.grown hgrown) hwired hheld ?_
  intro mailbox
  rw [hcarries mailbox, List.append_nil, Office.receivedAt, Office.receivedAt, hgrown.received]

theorem Serving.lookup (h : Serving J w) {service : Service}
    (ht : w.tasks[task]? = some { request, phase := .lookup })
    (haddress : request.address = some address)
    (hstep : advance J H service w task request address .lookup = some w') : Serving J w' := by
  have hpending : ∀ mailbox, Task.carries mailbox { request, phase := .lookup } = [] :=
    fun mailbox => carries_pending mailbox (fun _ hdone => by cases hdone)
  rw [advance] at hstep
  split at hstep
  · rename_i handle hcached
    cases hstep
    refine h.quiet ht hpending (.refl _) (fun _ hkept => hkept) h.wired ?_
      (fun mailbox => carries_pending mailbox (fun _ hdone => by cases hdone))
    rintro handle' (hphase | hphase)
    · cases hphase
    · cases hphase
      exact ⟨address, haddress, h.wired address handle hcached⟩
  · cases hstep
    refine h.quiet ht hpending (.refl _) (fun _ hkept => hkept) h.wired ?_
      (fun mailbox => carries_pending mailbox (fun _ hdone => by cases hdone))
    rintro handle' (hphase | hphase)
    · cases hphase
    · cases hphase

theorem Serving.fetch (h : Serving J w) {service : Service}
    (ht : w.tasks[task]? = some { request, phase := .fetch })
    (haddress : request.address = some address)
    (hstep : advance J H service w task request address .fetch = some w') : Serving J w' := by
  have hpending : ∀ mailbox, Task.carries mailbox { request, phase := .fetch } = [] :=
    fun mailbox => carries_pending mailbox (fun _ hdone => by cases hdone)
  rw [advance] at hstep
  split at hstep
  · cases hstep
  cases hfetch : w.server.fetch service address with
  | mk answer server =>
  obtain ⟨hgrown, hmailboxes, hhandle⟩ := MailboxServer.fetch_grown hfetch
  have hkept : ∀ a, Kept J w.server.office a → Kept J server.office a :=
    fun a hkept => MailboxServer.fetch_kept hfetch hkept
  have hwired := h.wired.grown hgrown hmailboxes
  rw [hfetch] at hstep
  cases answer with
  | error e =>
      cases hstep
      refine h.quiet ht hpending hgrown hkept hwired ?_ ?_
      · rintro handle' (hphase | hphase)
        · cases hphase
        · cases hphase
      · intro mailbox
        refine carries_eq_nil mailbox ?_
        intro address' data hrequest hdone
        rw [hrequest] at hdone
        cases hdone
  | ok handle =>
      cases hstep
      refine h.quiet ht hpending hgrown hkept hwired ?_
        (fun mailbox => carries_pending mailbox (fun _ hdone => by cases hdone))
      rintro handle' (hphase | hphase)
      · cases hphase
        exact ⟨address, haddress, hhandle handle rfl⟩
      · cases hphase

theorem Serving.insert (h : Serving J w) {service : Service}
    (ht : w.tasks[task]? = some { request, phase := .insert handle })
    (haddress : request.address = some address)
    (hstep : advance J H service w task request address (.insert handle) = some w') :
    Serving J w' := by
  have hhas := h.handle_has ht haddress (Or.inl rfl)
  cases hstep
  refine h.quiet ht (fun mailbox => carries_pending mailbox (fun _ hdone => by cases hdone))
    (.refl _) (fun _ hkept => hkept) (h.wired.remember hhas) ?_
    (fun mailbox => carries_pending mailbox (fun _ hdone => by cases hdone))
  rintro handle' (hphase | hphase)
  · cases hphase
  · cases hphase
    exact ⟨address, haddress, hhas⟩

theorem Serving.answered (h : Serving J w)
    (ht : w.tasks[task]? = some { request, phase := .operate handle })
    (hrequest : ∀ address, request ≠ .receive address) {office : Office}
    (hgrown : Grown w.server.office office)
    (hkept : ∀ a, Kept J w.server.office a → Kept J office a) (response : NetworkMessage) :
    Serving J
      ({ w with server := { w.server with office } }.put task request (.done response)) := by
  refine h.quiet ht (fun mailbox => carries_pending mailbox (fun _ hdone => by cases hdone))
    hgrown hkept (h.wired.grown hgrown rfl) ?_
    (fun mailbox => carries_eq_nil mailbox (fun address _ heq => absurd heq (hrequest address)))
  rintro handle' (hphase | hphase)
  · cases hphase
  · cases hphase

theorem Serving.sendOn (hsized : J.Sized) (h : Serving J w) {service : Service}
    {to_ from_ : String} {body : List UInt8} {subject : Option String}
    (ht : w.tasks[task]? =
      some { request := .send to_ from_ body subject, phase := .operate handle })
    {response : NetworkMessage} {server : MailboxServer}
    (hop : w.server.sendOn J H service to_ body subject handle = some (response, server)) :
    Serving J ({ w with server }.put task (.send to_ from_ body subject) (.done response)) := by
  have hrequest : ∀ address, NetworkMessage.send to_ from_ body subject ≠ .receive address :=
    fun _ heq => by cases heq
  simp only [MailboxServer.sendOn] at hop
  split at hop
  · cases hop
  split at hop
  · cases hop
  · rename_i id office hsend
    cases hop
    exact h.answered ht hrequest (Workers.send_grown hsend)
      (fun a hkept => hkept.send hsized hsend) _
  · rename_i e office hsend
    cases hop
    exact h.answered ht hrequest (Workers.send_grown hsend)
      (fun a hkept => hkept.send hsized hsend) _

theorem Serving.peekOn (h : Serving J w) {service : Service}
    (ht : w.tasks[task]? = some { request := .peek address, phase := .operate handle })
    {response : NetworkMessage} {server : MailboxServer}
    (hop : w.server.peekOn J service handle = some (response, server)) :
    Serving J ({ w with server }.put task (.peek address) (.done response)) := by
  have hrequest : ∀ address', NetworkMessage.peek address ≠ .receive address' :=
    fun _ heq => by cases heq
  simp only [MailboxServer.peekOn] at hop
  split at hop
  · cases hop
  · cases hop
    exact h.answered ht hrequest (.refl _) (fun _ hkept => hkept) _
  · cases hop
    exact h.answered ht hrequest (.refl _) (fun _ hkept => hkept) _

theorem receiveOn_carries (address : String) {service : Service} {s server : MailboxServer}
    {response : NetworkMessage} (h : s.receiveOn J service handle = some (response, server)) :
    ∃ answer office, s.office.receive J service.call.startTime service.call.endTime handle =
        some (answer, office) ∧ server = { s with office } ∧
      ∀ mailbox, Task.carries mailbox { request := .receive address, phase := .done response } =
        if address = mailbox then (Delivery.messageOf answer).map MessageData.of else [] := by
  simp only [MailboxServer.receiveOn] at h
  split at h
  · cases h
  · rename_i message office hreceive
    cases h
    refine ⟨_, office, hreceive, rfl, ?_⟩
    intro mailbox
    cases message with
    | none => exact (ite_self _).symm
    | some m => rfl
  · rename_i e office hreceive
    cases h
    exact ⟨_, office, hreceive, rfl, fun mailbox => (ite_self _).symm⟩

theorem Serving.receiveOn (hJ : J.Lawful) (h : Serving J w) {service : Service}
    (ht : w.tasks[task]? = some { request := .receive address, phase := .operate handle })
    (hmeets : Meets w (.advance task service)) {response : NetworkMessage}
    {server : MailboxServer}
    (hop : w.server.receiveOn J service handle = some (response, server)) :
    Serving J ({ w with server }.put task (.receive address) (.done response)) := by
  obtain ⟨answer, office, hreceive, rfl, hcarries⟩ := receiveOn_carries address hop
  have hsound : Sound J office := by
    refine ⟨fun a => (h.sound.kept a).receive hreceive, ?_⟩
    intro a
    obtain ⟨at_, hconsumed⟩ := h.sound.consumed a
    exact hconsumed.receive hJ (h.sound.kept a) (hmeets address handle ht) hreceive
  obtain ⟨mailbox, hget, haddress⟩ := h.handle_has ht rfl (Or.inr rfl)
  obtain ⟨mailbox', mailbox'', hget', hmailbox, rfl⟩ := Workers.receive_moved hreceive
  cases hget.symm.trans hget'
  obtain ⟨haddress', -⟩ := Workers.receive_forward hmailbox
  have hhas : ∀ {handle' address'}, Has w.server.office handle' address' →
      Has (w.server.office.moved handle mailbox'' (Delivery.messageOf answer)) handle' address' :=
    fun hhas => hhas.moved hget haddress' _
  refine h.put ht (fun mailbox => carries_pending mailbox (fun _ hdone => by cases hdone)) hsound
    hhas (fun address' handle' hcached => hhas (h.wired address' handle' hcached)) ?_
    ?_
  · rintro handle' (hphase | hphase)
    · cases hphase
    · cases hphase
  · intro name
    rw [hcarries, Workers.receivedAt_moved, haddress'.trans haddress, List.map_append]
    by_cases heq : address = name
    · rw [if_pos heq, if_pos (congrArg MailboxAddress.mk heq)]
    · rw [if_neg heq, if_neg (fun h => heq (MailboxAddress.mk.inj h)), List.map_nil]

theorem Serving.advance (hJ : J.Lawful) (hsized : J.Sized) (h : Serving J w) {service : Service}
    (ht : w.tasks[task]? = some { request, phase }) (haddress : request.address = some address)
    (hmeets : Meets w (.advance task service))
    (hstep : advance J H service w task request address phase = some w') : Serving J w' := by
  cases phase with
  | lookup => exact h.lookup ht haddress hstep
  | fetch => exact h.fetch ht haddress hstep
  | insert handle => exact h.insert ht haddress hstep
  | operate handle =>
      rw [Concurrent.advance] at hstep
      split at hstep
      · cases hstep
      rename_i response server hop
      cases hstep
      cases request with
      | send to_ from_ body subject => exact h.sendOn hsized ht hop
      | receive mailbox => exact h.receiveOn hJ ht hmeets hop
      | peek mailbox => exact h.peekOn ht hop
      | messageResponse message => cases haddress
      | success => cases haddress
      | error message => cases haddress
  | done response => cases hstep

theorem new_phase (request : NetworkMessage) : (Task.new request).phase = .lookup ∨
    (Task.new request).phase = .done (.error "Invalid request") := by
  simp only [Task.new]
  split
  · exact Or.inr rfl
  · exact Or.inl rfl

theorem Serving.arrive (h : Serving J w) (request : NetworkMessage) :
    Serving J { w with tasks := w.tasks ++ [.new request] } where
  sound := h.sound
  wired := h.wired
  held := by
    intro t ht handle hphase
    rcases List.mem_append.mp ht with ht | ht
    · exact h.held t ht handle hphase
    · cases List.mem_singleton.mp ht
      rcases new_phase request with hnew | hnew
      · rw [hnew] at hphase
        rcases hphase with hphase | hphase
        · cases hphase
        · cases hphase
      · rw [hnew] at hphase
        rcases hphase with hphase | hphase
        · cases hphase
        · cases hphase
  carried := by
    intro mailbox
    have hnone : (Task.new request).carries mailbox = [] := by
      refine carries_eq_nil mailbox ?_
      intro _ data _ hdone
      rcases new_phase request with hnew | hnew
      · cases hnew.symm.trans hdone
      · cases hnew.symm.trans hdone
    simp only [Concurrent.carried, List.flatMap_append, List.flatMap_singleton, hnone,
      List.append_nil]
    exact h.carried mailbox

theorem Serving.step (hJ : J.Lawful) (hsized : J.Sized) (h : Serving J w) {event : Event}
    (hmeets : Meets w event) (hstep : step J H w event = some w') : Serving J w' := by
  cases event with
  | arrive request =>
      cases hstep
      exact h.arrive request
  | advance task service =>
      unfold Concurrent.step at hstep
      dsimp only at hstep
      split at hstep
      · cases hstep
      rename_i t ht
      split at hstep
      · cases hstep
      rename_i address haddress
      exact h.advance hJ hsized ht haddress hmeets hstep

theorem start_serving {config : NetworkConfig} (hkept : ∀ a, Kept J o a) :
    Serving J (.start config o.system o.sent) where
  sound :=
    { kept := fun a => (hkept a).frame rfl rfl
      consumed := fun a =>
        ⟨[], List.nodup_nil, .nil _, fun k hk => absurd hk List.not_mem_nil⟩ }
  wired address handle hcached := by cases (AList.lookup_empty address).symm.trans hcached
  held t ht := absurd ht List.not_mem_nil
  carried _ := List.Perm.refl []

end

/-! ## On a disk

A task writes to the mailbox it gets or sends to, and the other steps leave every queue
as it was.  So the server is a machine like the mailboxes it serves, and its runs on a
disk are those with queues in memory as long as mailboxes have directories of their own. -/

def Event.atDisk (disk : Disk) : Event → Event
  | .arrive request => .arrive request
  | .advance task service => .advance task (service.atDisk disk)

/-- The mailbox that a task writes to next: the one it gets, or sends to. -/
def Task.writes (t : Task) : Option MailboxAddress :=
  match t.phase, t.request with
  | .fetch, request => request.address.map MailboxAddress.mk
  | .operate _, .send to_ _ _ _ => some ⟨to_⟩
  | _, _ => none

def World.writes (w : World) : Event → Option MailboxAddress
  | .arrive _ => none
  | .advance task _ =>
      match w.tasks[task]? with
      | none => none
      | some t => t.writes

/-- A mailbox is created in a directory that none of the mailboxes there has. -/
def OwnDir (w : World) : Event → Prop
  | .arrive _ => True
  | .advance task service => ∀ t address, w.tasks[task]? = some t → t.phase = .fetch →
      t.request.address = some address →
        w.server.office.system.OwnDir service.call.fs service.paths address

def machine (J : SerdeJson) (H : Hasher) : Machine World Event where
  step := step J H
  system w := w.server.office.system
  withSystem system w :=
    { w with server := { w.server with office := { w.server.office with system } } }
  atDisk := Event.atDisk
  writes := World.writes
  ownDir := OwnDir

section
variable {J : SerdeJson} {H : Hasher} {w w' : World} {s s' : MailboxServer} {service : Service}
  {event : Event} {handle : Nat} {address : String} {response : NetworkMessage}

theorem fetch_changes (h : Apart s.office.system)
    (hown : s.office.system.OwnDir service.call.fs service.paths address)
    {answer : Except NetworkError Nat} (hfetch : s.fetch service address = (answer, s')) :
    Changed s.office.system s'.office.system (some ⟨address⟩) := by
  have hget := Workers.get_system s.office address
  have hcreate := Workers.create_system s.office service.call.fs service.paths address
  simp only [MailboxServer.fetch] at hfetch
  split at hfetch
  · rename_i heq
    cases hfetch
    rw [heq] at hget
    dsimp only at hget ⊢
    rw [hget]
    exact h.refl _
  · rename_i heq
    cases hfetch
    rw [heq] at hget
    dsimp only at hget ⊢
    rw [hget]
    exact h.refl _
  · split at hfetch
    · rename_i heq
      cases hfetch
      rw [heq] at hcreate
      dsimp only at hcreate ⊢
      rw [hcreate]
      exact h.createMailbox hown rfl
    · rename_i heq
      cases hfetch
      rw [heq] at hcreate
      dsimp only at hcreate ⊢
      rw [hcreate]
      exact h.createMailbox hown rfl

theorem sendOn_changes (hsized : J.Sized) (h : Apart s.office.system) {to_ : String}
    {body : List UInt8} {subject : Option String}
    (hop : s.sendOn J H service to_ body subject handle = some (response, s')) :
    Changed s.office.system s'.office.system (some ⟨to_⟩) := by
  have hto : (MailboxServer.outgoing to_ body subject).destination = ⟨to_⟩ := by
    cases subject with
    | none => rfl
    | some subject => rfl
  rw [← hto]
  simp only [MailboxServer.sendOn] at hop
  split at hop
  · cases hop
  split at hop
  · cases hop
  · rename_i hsend
    cases hop
    exact h.send hsized (Workers.send_system hsend)
  · rename_i hsend
    cases hop
    exact h.send hsized (Workers.send_system hsend)

theorem receiveOn_system (hop : s.receiveOn J service handle = some (response, s')) :
    s'.office.system = s.office.system := by
  obtain ⟨answer, office, hreceive, rfl, -⟩ := receiveOn_carries "" hop
  obtain ⟨mailbox, mailbox', -, -, rfl⟩ := Workers.receive_moved hreceive
  rfl

theorem peekOn_system (hop : s.peekOn J service handle = some (response, s')) :
    s'.office.system = s.office.system := by
  simp only [MailboxServer.peekOn] at hop
  split at hop
  · cases hop
  · cases hop
    rfl
  · cases hop
    rfl

/-- **A step of a task changes no queue** but that of the mailbox it gets or sends to. -/
theorem step_changes (hsized : J.Sized) (h : Apart w.server.office.system)
    (hown : OwnDir w event) (hstep : step J H w event = some w') :
    Changed w.server.office.system w'.server.office.system (w.writes event) := by
  cases event with
  | arrive request =>
      cases hstep
      exact h.refl _
  | advance task service =>
  rw [step] at hstep
  split at hstep
  · cases hstep
  rename_i t ht
  split at hstep
  · cases hstep
  rename_i address haddress
  obtain ⟨request, phase⟩ := t
  simp only [World.writes, ht]
  cases phase with
  | lookup =>
      rw [advance] at hstep
      split at hstep
      · cases hstep
        exact h.refl _
      · cases hstep
        exact h.refl _
  | fetch =>
      have hown' := hown _ address ht rfl haddress
      rw [advance] at hstep
      split at hstep
      · cases hstep
      have hwrites : Task.writes { request, phase := .fetch } = some ⟨address⟩ :=
        congrArg (Option.map MailboxAddress.mk) haddress
      rw [hwrites]
      split at hstep
      · rename_i hfetch
        cases hstep
        exact fetch_changes h hown' hfetch
      · rename_i hfetch
        cases hstep
        exact fetch_changes h hown' hfetch
  | insert handle =>
      cases hstep
      exact h.refl _
  | operate handle =>
      rw [advance] at hstep
      split at hstep
      · cases hstep
      rename_i response server hop
      cases hstep
      cases request with
      | send to_ from_ body subject => exact sendOn_changes hsized h hop
      | receive mailbox =>
          have hsystem : server.office.system = w.server.office.system := receiveOn_system hop
          show Changed _ server.office.system none
          rw [hsystem]
          exact h.refl _
      | peek mailbox =>
          have hsystem : server.office.system = w.server.office.system := peekOn_system hop
          show Changed _ server.office.system none
          rw [hsystem]
          exact h.refl _
      | messageResponse message => cases haddress
      | success => cases haddress
      | error message => cases haddress
  | done response => cases hstep

theorem machine_lawful (hsized : J.Sized) : (machine J H).Lawful where
  withSystem_system _ := rfl
  writes_atDisk _ _ event := by
    cases event <;> rfl
  ownDir_atDisk _ _ event := by
    cases event <;> exact Iff.rfl
  changes := step_changes hsized

theorem meets_atDisk (disk : Disk) : Meets w (event.atDisk disk) ↔ Meets w event := by
  cases event <;> exact Iff.rfl

/-- Mailboxes of their own, and receives on foremost handles. -/
def OwnMeets (w : OnDisk World) (event : Event) : Prop :=
  OwnDir w.state event ∧ Meets w.state event

/-- A server with an empty cache, for the mailboxes there are on a disk. -/
def start (config : NetworkConfig) (w : OnDisk Office) : OnDisk World where
  disk := w.disk
  state := .start config w.state.system w.state.sent

theorem exists_stepOnDisk (hsized : J.Sized) {w : OnDisk World}
    (hmirrors : Mirrors w.disk w.state.server.office.system) (event : Event)
    (hown : OwnDir w.state event) (hstep : step J H w.state (event.atDisk w.disk) = some w') :
    ∃ w₁, (machine J H).stepOnDisk w event = some w₁ ∧ w₁.state = w' ∧
      Mirrors w₁.disk w₁.state.server.office.system :=
  (machine_lawful hsized).exists_step hmirrors hown hstep

end

/-! ### Two requests for a letter

The handler looks into the cache, and gets a handle later if it found none; two tasks
may both find none, and then each has a handle at the first message. -/

section
open Delivery (bob letter firstId freshCall twoLetters emptySystem)
open Workers (bobServed twoLetters_sized)

def receiveBob : NetworkMessage := .receive "bob@dolda"

def service : Service := { call := freshCall 2 3 0 "", paths := .plain }

/-- The response that carries the letter. -/
def letterCarried : Task :=
  { request := receiveBob
    phase := .done (.messageResponse (some (.of (letter firstId 65)))) }

/-- The world after a task that found no handle in the cache has received the
letter. -/
def World.served (w : World) (task : Nat) : World where
  server :=
    { w.server with
      office := Office.moved
        { w.server.office with handles := w.server.office.handles ++ [bob] }
        w.server.office.handles.length bobServed [letter firstId 65]
      mailboxes := w.server.mailboxes.insert "bob@dolda" w.server.office.handles.length }
  locked := none
  tasks := w.tasks.set task letterCarried

/-- The three steps of a task that found no handle in the cache. -/
def serve (task : Nat) : List Event :=
  [.advance task service, .advance task service, .advance task service]

theorem run_serve {w : OnDisk World} (task : Nat)
    (hmirrors : Mirrors w.disk w.state.server.office.system)
    (hkept : Kept twoLetters w.state.server.office bob.address)
    (hsent : w.state.server.office.sent = [⟨letter firstId 65, some 0⟩])
    (hlocked : w.state.locked = none)
    (htask : w.state.tasks[task]? = some { request := receiveBob, phase := .fetch }) : ∃ w',
    Lts.run (machine twoLetters crc32Hasher).stepOnDisk w (serve task) = some w' ∧
      w'.state = w.state.served task ∧ Mirrors w'.disk w'.state.server.office.system ∧
      (Office.Foremost
          { w.state.server.office with handles := w.state.server.office.handles ++ [bob] } bob →
        Lts.Guarded (machine twoLetters crc32Hasher).stepOnDisk OwnMeets w (serve task)) := by
  have hlt := (List.getElem?_eq_some_iff.mp htask).1
  obtain ⟨queue, hlookup⟩ : ∃ queue,
      w.state.server.office.system.mailboxes.lookup bob.address = some queue := by
    rcases hkept with ⟨-, hnil⟩ | ⟨queue, entries, hbox⟩
    · rw [Office.sentTo, hsent] at hnil
      cases hnil
    · exact ⟨queue, hbox.lookup⟩
  have hsystem : w.state.server.office.system.getMailbox "bob@dolda" = .ok (some bob) :=
    MailboxSystem.getMailbox_of_lookup rfl hlookup
  let office : Office :=
    { w.state.server.office with handles := w.state.server.office.handles ++ [bob] }
  let n := w.state.server.office.handles.length
  -- the mailbox is there, so what the file system answers does not matter
  have hfetch : ∀ service, w.state.server.fetch service "bob@dolda" =
      (.ok n, { w.state.server with office }) := by
    intro service
    simp only [MailboxServer.fetch, Office.get, hsystem]
    rfl
  let w₁ : World :=
    { w.state with server := { w.state.server with office }, locked := some task }.put task
      receiveBob (.insert n)
  have hone : step twoLetters crc32Hasher w.state (.advance task (service.atDisk w.disk)) =
      some w₁ := by
    simp only [step, htask, receiveBob, NetworkMessage.address, advance, hlocked, hfetch]
    rfl
  have hown : OwnDir w.state (.advance task service) := by
    intro t address ht _ haddress hnone
    cases htask.symm.trans ht
    cases haddress
    cases hnone.symm.trans hlookup
  obtain ⟨v₁, hv₁, hstate₁, hmirrors₁⟩ :=
    exists_stepOnDisk twoLetters_sized hmirrors (.advance task service) hown hone
  let w₂ : World :=
    { w₁ with server := w₁.server.remember "bob@dolda" n, locked := none }.put task receiveBob
      (.operate n)
  have htask₁ : w₁.tasks[task]? = some { request := receiveBob, phase := .insert n } :=
    List.getElem?_set_self hlt
  have htwo : step twoLetters crc32Hasher v₁.state (.advance task (service.atDisk v₁.disk)) =
      some w₂ := by
    rw [hstate₁]
    simp only [step, htask₁, receiveBob, NetworkMessage.address, advance]
    rfl
  have hown₁ : OwnDir v₁.state (.advance task service) := by
    rw [hstate₁]
    intro t address ht hphase
    cases htask₁.symm.trans ht
    cases hphase
  obtain ⟨v₂, hv₂, hstate₂, hmirrors₂⟩ :=
    exists_stepOnDisk twoLetters_sized hmirrors₁ (.advance task service) hown₁ htwo
  have hhandle : office.handles[n]? = some bob := List.getElem?_concat_length
  have htask₂ : w₂.tasks[task]? = some { request := receiveBob, phase := .operate n } :=
    List.getElem?_set_self (List.getElem?_eq_some_iff.mp htask₁).1
  have hreceive := Workers.receive_letter (o := office) (hkept.frame rfl rfl) hsent hhandle 2 3
  have hop : w₂.server.receiveOn twoLetters (service.atDisk v₂.disk) n = some
      (.messageResponse (some (.of (letter firstId 65))),
        { w₂.server with office := office.moved n bobServed [letter firstId 65] }) := by
    have hreceive' : w₂.server.office.receive twoLetters (service.atDisk v₂.disk).call.startTime
      (service.atDisk v₂.disk).call.endTime n = some _ := hreceive
    simp only [MailboxServer.receiveOn, hreceive', Option.map_some]
  have hthree : step twoLetters crc32Hasher v₂.state (.advance task (service.atDisk v₂.disk)) =
      some (w.state.served task) := by
    rw [hstate₂]
    simp only [step, htask₂, receiveBob, NetworkMessage.address, advance, MailboxServer.operate,
      hop]
    refine congrArg some ?_
    show World.mk _ _ ((((w.state.tasks.set task _).set task _).set task _)) = _
    rw [List.set_set, List.set_set]
    rfl
  have hown₂ : OwnDir v₂.state (.advance task service) := by
    rw [hstate₂]
    intro t address ht hphase
    cases htask₂.symm.trans ht
    cases hphase
  obtain ⟨v₃, hv₃, hstate₃, hmirrors₃⟩ :=
    exists_stepOnDisk twoLetters_sized hmirrors₂ (.advance task service) hown₂ hthree
  refine ⟨v₃, ?_, hstate₃, hmirrors₃, ?_⟩
  · simp only [serve, Lts.run, hv₁, hv₂, hv₃]
  · intro hfirst
    simp only [serve, Lts.Guarded, hv₁, hv₂, hv₃]
    refine ⟨⟨hown, ?_⟩, ⟨hown₁, ?_⟩, ⟨hown₂, ?_⟩, trivial⟩
    · intro address handle ht
      cases htask.symm.trans ht
    · rw [hstate₁]
      intro address handle ht
      cases htask₁.symm.trans ht
    · rw [hstate₂]
      intro address handle ht mailbox hmailbox
      cases htask₂.symm.trans ht
      cases hhandle.symm.trans hmailbox
      exact hfirst

theorem exists_start : ∃ w,
    Lts.run (Workers.machine twoLetters crc32Hasher).stepOnDisk
      (Workers.start (fun _ => []) emptySystem) (Workers.hire ++ [Workers.sendLetter]) = some w ∧
    Lts.Guarded (Workers.machine twoLetters crc32Hasher).stepOnDisk
      (fun w event => Workers.OwnDir w.state event) (Workers.start (fun _ => []) emptySystem)
      (Workers.hire ++ [Workers.sendLetter]) ∧
    Mirrors w.disk w.state.system ∧ Kept twoLetters w.state bob.address ∧
    w.state.sent = [⟨letter firstId 65, some 0⟩] := by
  obtain ⟨w, _, _, hrun, hmeets, -, hsent, -, -⟩ := Workers.exists_pending
  have hown := hmeets.imp (fun h => h.1)
  obtain ⟨hmirrors, hstocked⟩ :=
    Workers.run_mirrors twoLetters_sized Workers.emptySystem_new hown hrun
  exact ⟨w, hrun, hown, hmirrors, hstocked.kept _, hsent⟩

/-- A request to receive has arrived, and has found no handle in the cache. -/
def World.missed (w : World) : World :=
  { w with tasks := w.tasks ++ [{ request := receiveBob, phase := .fetch }] }

/-- How it comes to that. -/
def miss (task : Nat) : List Event := [.arrive receiveBob, .advance task service]

theorem run_miss {w : OnDisk World} (task : Nat) (htask : w.state.tasks.length = task)
    (hmirrors : Mirrors w.disk w.state.server.office.system)
    (hcache : w.state.server.cached "bob@dolda" = none) : ∃ w',
    Lts.run (machine twoLetters crc32Hasher).stepOnDisk w (miss task) = some w' ∧
      w'.state = w.state.missed ∧ Mirrors w'.disk w'.state.server.office.system ∧
      Lts.Guarded (machine twoLetters crc32Hasher).stepOnDisk OwnMeets w (miss task) := by
  subst htask
  let w₁ : World :=
    { w.state with tasks := w.state.tasks ++ [{ request := receiveBob, phase := .lookup }] }
  have hone : step twoLetters crc32Hasher w.state (.arrive receiveBob) = some w₁ := rfl
  obtain ⟨v₁, hv₁, hstate₁, hmirrors₁⟩ :=
    exists_stepOnDisk twoLetters_sized hmirrors (.arrive receiveBob) trivial hone
  have htask : w₁.tasks[w.state.tasks.length]? =
      some { request := receiveBob, phase := .lookup } := List.getElem?_concat_length
  have hcache₁ : w₁.server.cached "bob@dolda" = none := hcache
  have htwo : step twoLetters crc32Hasher v₁.state
      (.advance w.state.tasks.length (service.atDisk v₁.disk)) = some w.state.missed := by
    rw [hstate₁]
    simp only [step, htask, receiveBob, NetworkMessage.address, advance, hcache₁]
    refine congrArg some ?_
    show World.mk _ _ ((w.state.tasks ++ [_]).set w.state.tasks.length _) = _
    rw [List.set_append_right _ _ (Nat.le_refl _), Nat.sub_self]
    rfl
  have hown₁ : OwnDir v₁.state (.advance w.state.tasks.length service) := by
    rw [hstate₁]
    intro t address ht hphase
    cases htask.symm.trans ht
    cases hphase
  obtain ⟨v₂, hv₂, hstate₂, hmirrors₂⟩ := exists_stepOnDisk twoLetters_sized hmirrors₁
    (.advance w.state.tasks.length service) hown₁ htwo
  refine ⟨v₂, ?_, hstate₂, hmirrors₂, ?_⟩
  · simp only [miss, Lts.run, hv₁, hv₂]
  · simp only [miss, Lts.Guarded, hv₁, hv₂]
    refine ⟨⟨trivial, trivial⟩, ⟨hown₁, ?_⟩, trivial⟩
    rw [hstate₁]
    intro address handle ht
    cases htask.symm.trans ht

end

/-- **Carried once.**  Of any number of requests handled at the same time by a server
that starts with an empty cache, in every interleaving whose receives are all made
on foremost handles, and which like the run before it makes its mailboxes in
directories of their own, no message of a mailbox is carried by more responses to
receives than it was sent times. -/
theorem carried_once {J : SerdeJson} {H : Hasher} (hJ : J.Lawful) (hsized : J.Sized) {fs : Files}
    {baseDir : String} {system : MailboxSystem} (hnew : MailboxSystem.new fs baseDir = .ok system)
    (disk : Disk) {before : List Workers.Event} {w₀ : OnDisk Office}
    (hown : Lts.Guarded (Workers.machine J H).stepOnDisk
      (fun w event => Workers.OwnDir w.state event) (Workers.start disk system) before)
    (hbefore : Lts.run (Workers.machine J H).stepOnDisk (Workers.start disk system) before =
      some w₀)
    (config : NetworkConfig) {events : List Event} {w : OnDisk World}
    (hmeets : Lts.Guarded (machine J H).stepOnDisk OwnMeets (start config w₀) events)
    (hrun : Lts.run (machine J H).stepOnDisk (start config w₀) events = some w) :
    w.state.CarriedOnce := by
  obtain ⟨hmirrors, hstocked⟩ := Workers.run_mirrors hsized hnew hown hbefore
  have hsteps := (machine_lawful (H := H) hsized).stepsOf
  have hstart : Mirrors (start config w₀).disk
      (start config w₀).state.server.office.system := hmirrors
  have hown' := hmeets.imp (fun h => h.1)
  have hstate := hsteps.run_eq hstart hown'
  rw [hrun, Option.map_some] at hstate
  have hmeets' := (hsteps.guarded_iff (fun _ => meets_atDisk _) hstart hown').mpr
    (hmeets.imp (fun h => h.2))
  have hserving : Serving J w.state :=
    hmeets'.invariant (Serving J) (fun h hok hstep => h.step hJ hsized hok hstep)
      (start_serving hstocked.kept) hstate
  exact hserving.carriedOnce

section
open Delivery (bob letter firstId twoLetters emptySystem)
open Workers (twoLetters_sized)

/-- A request that receives a letter. -/
theorem carried_once_letter : ∃ w₀ w,
    Lts.run (Workers.machine twoLetters crc32Hasher).stepOnDisk
      (Workers.start (fun _ => []) emptySystem) (Workers.hire ++ [Workers.sendLetter]) = some w₀ ∧
    Lts.run (machine twoLetters crc32Hasher).stepOnDisk (start .default w₀)
      (miss 0 ++ serve 0) = some w ∧
    carried "bob@dolda" w.state.tasks = [.of (letter firstId 65)] ∧ w.state.CarriedOnce := by
  obtain ⟨w₀, hbefore, hown, hmirrors, hkept, hsent⟩ := exists_start
  obtain ⟨v₁, hmiss, hstate₁, hmirrors₁, hmeets⟩ :=
    run_miss (w := start .default w₀) 0 rfl hmirrors (AList.lookup_empty _)
  have hkept₁ : Kept twoLetters v₁.state.server.office bob.address := by
    rw [hstate₁]
    exact hkept.frame rfl rfl
  obtain ⟨v₂, hserve, hstate₂, -, hmeets'⟩ := run_serve 0 hmirrors₁ hkept₁
    (by rw [hstate₁]; exact hsent) (by rw [hstate₁]; rfl) (by rw [hstate₁]; rfl)
  have hrun : Lts.run (machine twoLetters crc32Hasher).stepOnDisk (start .default w₀)
      (miss 0 ++ serve 0) = some v₂ := by
    rw [Lts.run_append, hmiss]
    exact hserve
  have hfirst : Office.Foremost
      { v₁.state.server.office with handles := v₁.state.server.office.handles ++ [bob] } bob := by
    rw [hstate₁]
    refine ⟨?_, ?_⟩
    · intro other hother _
      cases List.mem_singleton.mp hother
      exact Nat.le_refl _
    · intro x hx
      have hmem := List.mem_of_getElem? hx
      change x ∈ w₀.state.sentTo bob.address at hmem
      rw [Office.sentTo, hsent] at hmem
      cases List.mem_singleton.mp (List.mem_of_mem_filter hmem)
      rfl
  refine ⟨w₀, v₂, hbefore, hrun, ?_, ?_⟩
  · rw [hstate₂, hstate₁]
    rfl
  · exact carried_once Delivery.twoLetters_lawful twoLetters_sized Workers.emptySystem_new
      (fun _ => []) hown hbefore .default (hmeets.append hmiss (hmeets' hfirst)) hrun

/-- **Two requests at the same time carry the one letter twice.** -/
theorem carried_twice : ∃ w₀ w,
    MailboxSystem.new Files.fresh "/data" = .ok emptySystem ∧
    Lts.run (Workers.machine twoLetters crc32Hasher).stepOnDisk
      (Workers.start (fun _ => []) emptySystem) (Workers.hire ++ [Workers.sendLetter]) = some w₀ ∧
    Lts.run (machine twoLetters crc32Hasher).stepOnDisk (start .default w₀)
      (miss 0 ++ miss 1 ++ serve 0 ++ serve 1) = some w ∧
    (w.state.server.office.sentTo ⟨"bob@dolda"⟩).map Sent.message = [letter firstId 65] ∧
    carried "bob@dolda" w.state.tasks = [.of (letter firstId 65), .of (letter firstId 65)] ∧
    ¬ w.state.CarriedOnce := by
  obtain ⟨w₀, hbefore, -, hmirrors, hkept, hsent⟩ := exists_start
  obtain ⟨v₁, hmiss₀, hstate₁, hmirrors₁, -⟩ :=
    run_miss (w := start .default w₀) 0 rfl hmirrors (AList.lookup_empty _)
  obtain ⟨v₂, hmiss₁, hstate₂, hmirrors₂, -⟩ := run_miss (w := v₁) 1 (by rw [hstate₁]; rfl)
    hmirrors₁ (by rw [hstate₁]; exact AList.lookup_empty _)
  rw [hstate₁] at hstate₂
  have hkept₂ : Kept twoLetters v₂.state.server.office bob.address := by
    rw [hstate₂]
    exact hkept.frame rfl rfl
  obtain ⟨v₃, hserve₀, hstate₃, hmirrors₃, -⟩ := run_serve 0 hmirrors₂ hkept₂
    (by rw [hstate₂]; exact hsent) (by rw [hstate₂]; rfl) (by rw [hstate₂]; rfl)
  rw [hstate₂] at hstate₃
  have hkept₃ : Kept twoLetters v₃.state.server.office bob.address := by
    rw [hstate₃]
    exact hkept.frame rfl rfl
  obtain ⟨v₄, hserve₁, hstate₄, -, -⟩ := run_serve 1 hmirrors₃ hkept₃
    (by rw [hstate₃]; exact hsent) (by rw [hstate₃]; rfl) (by rw [hstate₃]; rfl)
  rw [hstate₃] at hstate₄
  have hsentTo : (v₄.state.server.office.sentTo ⟨"bob@dolda"⟩).map Sent.message
      = [letter firstId 65] := by
    rw [hstate₄]
    show (w₀.state.sentTo ⟨"bob@dolda"⟩).map Sent.message = _
    rw [Office.sentTo, hsent]
    decide +kernel
  have hcarried : carried "bob@dolda" v₄.state.tasks =
      [.of (letter firstId 65), .of (letter firstId 65)] := by
    rw [hstate₄]
    rfl
  refine ⟨w₀, v₄, Workers.emptySystem_new, hbefore, ?_, hsentTo, hcarried, ?_⟩
  · rw [Lts.run_append, Lts.run_append, Lts.run_append, hmiss₀, Option.bind_some, hmiss₁,
      Option.bind_some, hserve₀]
    exact hserve₁
  · intro honce
    have hle := honce "bob@dolda" (.of (letter firstId 65))
    rw [hcarried, hsentTo, List.map_singleton, List.count_cons_self, List.count_cons_self,
      List.count_nil] at hle
    omega

end

end Concurrent

end Dolda.Network
