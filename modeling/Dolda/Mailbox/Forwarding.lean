/-
# `Dolda.Mailbox.Forwarding` — what processors do with messages

The tasks of `ProcessorManager` and the built-in processors of
`src/mailbox_processor.rs`.  At each tick a task receives on the handle it was given
and, where there is a message, lets the processor work on it: `EchoProcessor` sends
the body back, `FilterProcessor` and `TransformProcessor` send to an output mailbox,
and the two that need SQL ask the context for it, which has none.  A step of the
system is one of anyone's on the mailboxes (`Dolda.Mailbox.Workers`), a registration,
a tick's receive, what the processor does with the message, or the end of a task.

**The pipeline.**  Where mailboxes are made in directories of their own and receives
on clear handles, a task is given the messages of its mailbox in the order they were
sent, each once, and what it sends is what the processor makes of those it answered
with `Ok` (`pipeline_in_order`).  A message it answers with an error is gone: the task
has received it.
-/
import Dolda.Mailbox.Processors
import Dolda.Mailbox.Sharing

namespace Dolda.Forwarding

open Workers (Office ReadsClear Stocked InTurn)
open Delivery (messageOf)

/-! ## The processors

The processors of the source, each with the configuration its branches read.  A processor
gets its context, a message and what its sends are called with.  The contexts that the
manager makes have no layer for SQL, whatever the registration asks for. -/

/-- The layer for SQL: the record batches of a query, each as the JSON writer gives
it, and the export of one to a file. -/
structure DataFusionLayer where
  query : String → Except String (List (Except String (List UInt8)))
  exportToParquet : String → String → Except String Unit

structure ProcessorContext where
  address : MailboxAddress
  datafusion : Option DataFusionLayer

inductive MailboxProcessor where
  | echo
  | aggregation (query outputMailbox : String)
  | filter (predicate : Message → Bool) (outputMailbox : String)
  | transform (transform : List UInt8 → List UInt8) (outputMailbox : String)
  | parquetExport (outputDir : String)

/-- What a call of `process` is given besides its arguments: what each of its sends is
called with, and the time in seconds. -/
structure Environment where
  calls : Nat → Call
  seconds : Nat

namespace ProcessorContext

def sendTo (J : SerdeJson) (H : Hasher) (ctx : ProcessorContext) (call : Call) (to_ : String)
    (body : List UInt8) (o : Office) : Option (Except ProcessorError Unit × Office) :=
  match o.system.getMailbox ctx.address.address with
  | .error e => some (.error (.mailbox e), o)
  | .ok none => some (.error (.mailbox (.mailboxNotFound ctx.address.address)), o)
  | .ok (some mailbox) =>
      match o.send J H call mailbox (.sendTo to_ body) with
      | none => none
      | some (.error e, o) => some (.error (.mailbox e), o)
      | some (.ok _, o) => some (.ok (), o)

def query (ctx : ProcessorContext) (sql : String) :
    Except ProcessorError (List (Except String (List UInt8))) :=
  match ctx.datafusion with
  | none => .error (.dataFusion "DataFusion not enabled for this mailbox")
  | some df =>
      match df.query sql with
      | .error e => .error (.dataFusion e)
      | .ok batches => .ok batches

def exportParquet (ctx : ProcessorContext) (sql path : String) : Except ProcessorError Unit :=
  match ctx.datafusion with
  | none => .error (.dataFusion "DataFusion not enabled for this mailbox")
  | some df =>
      match df.exportToParquet sql path with
      | .error e => .error (.dataFusion e)
      | .ok () => .ok ()

end ProcessorContext

/-- The loop of `AggregationProcessor`: each batch is written and sent, up to the first
failure. -/
def sendBatches (J : SerdeJson) (H : Hasher) (ctx : ProcessorContext) (calls : Nat → Call)
    (outputMailbox : String) :
    Nat → List (Except String (List UInt8)) → Office → Option (Except ProcessorError Unit × Office)
  | _, [], o => some (.ok (), o)
  | _, .error e :: _, o => some (.error (.storage e), o)
  | n, .ok buf :: rest, o =>
      match ctx.sendTo J H (calls n) outputMailbox buf o with
      | none => none
      | some (.error e, o) => some (.error e, o)
      | some (.ok (), o) => sendBatches J H ctx calls outputMailbox (n + 1) rest o

namespace MailboxProcessor

/-- `init`: only the exporter has its own. -/
def init (fs : Files) : MailboxProcessor → Except ProcessorError Unit
  | parquetExport outputDir =>
      match fs.createDirAll outputDir with
      | .error e => .error (.io e)
      | .ok () => .ok ()
  | echo | aggregation _ _ | filter _ _ | transform _ _ => .ok ()

/-- `none` if a send does not return. -/
def process (J : SerdeJson) (H : Hasher) (ctx : ProcessorContext) (env : Environment)
    (msg : Message) (o : Office) :
    MailboxProcessor → Option (Except ProcessorError Unit × Office)
  | echo => ctx.sendTo J H (env.calls 0) msg.from_.address msg.body o
  | aggregation query outputMailbox =>
      match ctx.query query with
      | .error e => some (.error e, o)
      | .ok batches => sendBatches J H ctx env.calls outputMailbox 0 batches o
  | filter predicate outputMailbox =>
      if predicate msg then ctx.sendTo J H (env.calls 0) outputMailbox msg.body o
      else some (.ok (), o)
  | transform f outputMailbox => ctx.sendTo J H (env.calls 0) outputMailbox (f msg.body) o
  | parquetExport outputDir =>
      let outputPath := outputDir ++ "/export_" ++ toString env.seconds ++ ".parquet"
      match ctx.exportParquet "SELECT * FROM messages" outputPath with
      | .error e => some (.error e, o)
      | .ok () => some (.ok (), o)

/-- What a processor makes of a message without SQL: where it sends to, and what. -/
def reaction (msg : Message) : MailboxProcessor → Option (String × List UInt8)
  | echo => some (msg.from_.address, msg.body)
  | filter predicate outputMailbox =>
      if predicate msg then some (outputMailbox, msg.body) else none
  | transform f outputMailbox => some (outputMailbox, f msg.body)
  | aggregation _ _ | parquetExport _ => none

/-- The mailbox a processor sends to, if it sends. -/
def output (msg : Message) : MailboxProcessor → Option String
  | echo => some msg.from_.address
  | aggregation _ outputMailbox | filter _ outputMailbox | transform _ outputMailbox =>
      some outputMailbox
  | parquetExport _ => none

/-- The processors that ask the context for SQL. -/
def needsSql : MailboxProcessor → Bool
  | aggregation _ _ | parquetExport _ => true
  | echo | filter _ _ | transform _ _ => false

end MailboxProcessor

/-! ## The system

A task is made by its registration, receives on a handle of its own, and works on one
message at a time.  Receiving a message and processing it are two steps, so anything may
happen in between. -/

/-- The task of a registration, and the message it has received and not processed. -/
structure ProcessingTask where
  handle : Nat
  ctx : ProcessorContext
  processor : MailboxProcessor
  running : Bool
  pending : Option Message

/-- The mailboxes with all handles, and the tasks. -/
structure Floor where
  office : Office
  tasks : List ProcessingTask

inductive Event where
  /-- Anyone's step on the mailboxes. -/
  | office (event : Workers.Event)
  | register (fs : Files) (address : String) (processor : MailboxProcessor) (enableSql : Bool)
  /-- A tick of the `k`-th task, up to the message it receives. -/
  | tick (k startTime endTime : Nat)
  /-- The processor works on it. -/
  | process (k : Nat) (env : Environment)
  /-- The task sees its shutdown channel. -/
  | leave (k : Nat)

namespace Floor

def start (system : MailboxSystem) : Floor := ⟨.start system, []⟩

/-- The handle of a task is its own. -/
def owned (w : Floor) : Workers.Event → Bool
  | .receive handle _ _ | .peek handle _ _ => w.tasks.any (fun t => t.handle == handle)
  | .create _ _ _ | .get _ | .send _ _ _ => false

/-- `register_processor`, up to the spawning of the task. -/
def register (fs : Files) (address : String) (processor : MailboxProcessor) (enableSql : Bool)
    (w : Floor) : Except ProcessorError Unit × Floor :=
  match MailboxAddress.new address with
  | .error e => (.error (.mailbox e), w)
  | .ok addr =>
      match w.office.get address with
      | (.error e, _) => (.error (.mailbox e), w)
      | (.ok none, _) => (.error (.mailbox (.mailboxNotFound address)), w)
      | (.ok (some _), office) =>
          let ctx : ProcessorContext :=
            { address := addr
              datafusion := if enableSql then none else none }
          match processor.init fs with
          | .error e => (.error e, w)
          | .ok () =>
              (.ok (),
                { office
                  tasks := w.tasks ++ [{ handle := w.office.handles.length, ctx, processor,
                                         running := true, pending := none }] })

def step (J : SerdeJson) (H : Hasher) (w : Floor) : Event → Option Floor
  | .office event =>
      if w.owned event then none
      else (Workers.step J H w.office event).map (fun office => { w with office })
  | .register fs address processor enableSql =>
      some (w.register fs address processor enableSql).2
  | .tick k startTime endTime =>
      match w.tasks[k]? with
      | none => none
      | some t =>
          if t.running ∧ t.pending = none then
            match w.office.receive J startTime endTime t.handle with
            | none => none
            | some (answer, office) =>
                some
                  { office
                    tasks := w.tasks.set k { t with pending := (messageOf answer).head? } }
          else none
  | .process k env =>
      match w.tasks[k]? with
      | none => none
      | some t =>
          match t.pending with
          | none => none
          | some msg =>
              match t.processor.process J H t.ctx env msg w.office with
              | none => none
              | some (_, office) => some ⟨office, w.tasks.set k { t with pending := none }⟩
  | .leave k =>
      match w.tasks[k]? with
      | none => none
      | some t =>
          if t.running ∧ t.pending = none then
            some { w with tasks := w.tasks.set k { t with running := false } }
          else none

/-- Receives, those of the tasks too, are made on clear handles. -/
def ReadsClear (J : SerdeJson) (w : Floor) : Event → Prop
  | .office event => Workers.ReadsClear J w.office event
  | .tick k startTime endTime => ∀ t, w.tasks[k]? = some t →
      Workers.ReadsClear J w.office (.receive t.handle startTime endTime)
  | .register _ _ _ _ | .process _ _ | .leave _ => True

end Floor

/-- What a task did with a message: the processor's result, and what it sent. -/
structure Job where
  message : Message
  result : Except ProcessorError Unit
  sent : List Message

def Job.succeeded (job : Job) : Bool :=
  match job.result with
  | .ok () => true
  | .error _ => false

/-- The messages the `k`-th task works on. -/
def jobsOf (J : SerdeJson) (H : Hasher) (k : Nat) (w : Floor) : Event → List Job
  | .process i env =>
      if i = k then
        match w.tasks[k]? with
        | none => []
        | some t =>
            match t.pending with
            | none => []
            | some msg =>
                match t.processor.process J H t.ctx env msg w.office with
                | none => []
                | some (result, office) =>
                    [⟨msg, result,
                      (office.sent.drop w.office.sent.length).map Workers.Sent.message⟩]
      else []
  | .office _ | .register _ _ _ _ | .tick _ _ _ | .leave _ => []

/-- Where a message goes, and what it says. -/
def outline (m : Message) : String × List UInt8 := (m.to_.address, m.body)

/-- A processor sent what it makes of the message if it answered `Ok`, and nothing
otherwise; with SQL it never does. -/
structure Job.Done (ctx : ProcessorContext) (p : MailboxProcessor) (job : Job) : Prop where
  sent : job.sent.map outline
    = if job.succeeded then (p.reaction job.message).toList else []
  written : ∀ m ∈ job.sent, m.from_ = ctx.address ∧ m.subject = none ∧ m.replyTo = none
  sql : p.needsSql = true →
    job.result = .error (.dataFusion "DataFusion not enabled for this mailbox")

/-! ## One message

What `send_to` and `process` do is said once for each, in terms of the sends that were
acknowledged; the invariant uses nothing else of them. -/

section
variable {J : SerdeJson} {H : Hasher} {ctx : ProcessorContext} {o o' : Office} {call : Call}
  {to_ : String} {body : List UInt8} {result : Except ProcessorError Unit}

/-- Some send of anyone's, or none. -/
def Sends (J : SerdeJson) (H : Hasher) (o o' : Office) : Prop :=
  o' = o ∨ ∃ call sender outgoing, Workers.step J H o (.send call sender outgoing) = some o'

/-- A send that was answered `Ok` was posted, as composed. -/
theorem send_ok {sender : Mailbox} {outgoing : Mailbox.Outgoing} {id : String}
    (h : o.send J H call sender outgoing = some (.ok id, o')) :
    ∃ m segment, sender.compose call.id call.timestamp outgoing = .ok m ∧
      o'.sent = o.sent ++ [⟨m, segment⟩] := by
  simp only [Office.send] at h
  split at h
  · cases h
  rename_i answer system hsend
  cases h
  cases hm : sender.compose call.id call.timestamp outgoing with
  | error e =>
      simp only [Mailbox.send, hm] at hsend
      cases hsend
  | ok m => exact ⟨m, _, rfl, rfl⟩

theorem send_error {sender : Mailbox} {outgoing : Mailbox.Outgoing} {e : MailboxError}
    (h : o.send J H call sender outgoing = some (.error e, o')) : o'.sent = o.sent := by
  simp only [Office.send] at h
  split at h
  · cases h
  · cases h
    cases sender.compose call.id call.timestamp outgoing with
    | error e => exact List.append_nil _
    | ok m => exact List.append_nil _

/-- **The spec of `send_to`.** -/
theorem sendTo_spec (h : ctx.sendTo J H call to_ body o = some (result, o')) :
    Sends J H o o' ∧
    ((∃ e, result = .error e ∧ o'.sent = o.sent) ∨
      result = .ok () ∧ ∃ m segment, o'.sent = o.sent ++ [⟨m, segment⟩] ∧
        outline m = (to_, body) ∧ m.from_ = ctx.address ∧ m.subject = none ∧
        m.replyTo = none) := by
  simp only [ProcessorContext.sendTo] at h
  split at h
  · cases h
    exact ⟨Or.inl rfl, Or.inl ⟨_, rfl, rfl⟩⟩
  · cases h
    exact ⟨Or.inl rfl, Or.inl ⟨_, rfl, rfl⟩⟩
  rename_i mailbox hget
  obtain ⟨rfl, -⟩ := MailboxSystem.getMailbox_some hget
  cases hsend : o.send J H call ⟨⟨ctx.address.address⟩, 0⟩ (.sendTo to_ body) with
  | none =>
      rw [hsend] at h
      cases h
  | some x =>
      have hstep : Workers.step J H o
          (.send call ⟨⟨ctx.address.address⟩, 0⟩ (.sendTo to_ body)) = some x.2 := by
        rw [Workers.step, hsend]
        rfl
      rw [hsend] at h
      obtain ⟨answer, o₁⟩ := x
      cases answer with
      | error e =>
          cases h
          exact ⟨Or.inr ⟨_, _, _, hstep⟩, Or.inl ⟨_, rfl, send_error hsend⟩⟩
      | ok id =>
          cases h
          obtain ⟨m, segment, hm, hsent⟩ := send_ok hsend
          refine ⟨Or.inr ⟨_, _, _, hstep⟩, Or.inr ⟨rfl, m, segment, hsent, ?_⟩⟩
          simp only [Mailbox.compose] at hm
          split at hm
          · cases hm
          · rename_i addr haddr
            obtain ⟨-, rfl⟩ := MailboxAddress.new_ok haddr
            cases hm
            exact ⟨rfl, rfl, rfl, rfl⟩

theorem sent_since {o o' : Office} {more : List Workers.Sent} (h : o'.sent = o.sent ++ more) :
    o'.sent.drop o.sent.length = more := by
  rw [h, List.drop_left]

theorem done_of_sendTo {p : MailboxProcessor} {msg : Message} (hsql : p.needsSql = false)
    (hreaction : p.reaction msg = some (to_, body))
    (h : ctx.sendTo J H call to_ body o = some (result, o')) :
    Job.Done ctx p
      ⟨msg, result, (o'.sent.drop o.sent.length).map Workers.Sent.message⟩ := by
  obtain ⟨-, ⟨e, rfl, hsent⟩ | ⟨rfl, m, segment, hsent, hout, hwritten⟩⟩ := sendTo_spec h
  · have hnone := sent_since (hsent.trans (List.append_nil _).symm)
    refine ⟨?_, ?_, ?_⟩
    · rw [hnone]
      rfl
    · rw [hnone]
      exact List.forall_mem_nil _
    · rw [hsql]
      exact fun h => absurd h Bool.false_ne_true
  · have hone := sent_since hsent
    refine ⟨?_, ?_, ?_⟩
    · rw [hone]
      show [outline m] = (p.reaction msg).toList
      rw [hreaction, hout]
      rfl
    · rw [hone]
      exact List.forall_mem_singleton.mpr hwritten
    · rw [hsql]
      exact fun h => absurd h Bool.false_ne_true

theorem done_of_silent (p : MailboxProcessor) {msg : Message}
    (hquiet : Job.succeeded ⟨msg, result, []⟩ = true → p.reaction msg = none)
    (hsql : p.needsSql = true →
      result = .error (.dataFusion "DataFusion not enabled for this mailbox")) (o : Office) :
    Job.Done ctx p ⟨msg, result, (o.sent.drop o.sent.length).map Workers.Sent.message⟩ := by
  rw [List.drop_length]
  refine ⟨?_, List.forall_mem_nil _, hsql⟩
  split
  · rename_i hok
    rw [hquiet hok]
    rfl
  · rfl

/-- **The spec of `process`**, where the context has no SQL. -/
theorem process_spec {p : MailboxProcessor} {env : Environment} {msg : Message}
    (hdf : ctx.datafusion = none) (h : p.process J H ctx env msg o = some (result, o')) :
    Sends J H o o' ∧ Job.Done ctx p
      ⟨msg, result, (o'.sent.drop o.sent.length).map Workers.Sent.message⟩ := by
  cases p with
  | echo => exact ⟨(sendTo_spec h).1, done_of_sendTo rfl rfl h⟩
  | transform f outputMailbox => exact ⟨(sendTo_spec h).1, done_of_sendTo rfl rfl h⟩
  | filter predicate outputMailbox =>
      simp only [MailboxProcessor.process] at h
      split at h
      · rename_i hkeep
        exact ⟨(sendTo_spec h).1, done_of_sendTo rfl (if_pos hkeep) h⟩
      · rename_i hkeep
        cases h
        refine ⟨Or.inl rfl, done_of_silent (.filter predicate outputMailbox) ?_ ?_ o⟩
        · exact fun _ => if_neg hkeep
        · exact fun h => absurd h Bool.false_ne_true
  | aggregation query outputMailbox =>
      simp only [MailboxProcessor.process, ProcessorContext.query, hdf] at h
      cases h
      refine ⟨Or.inl rfl, done_of_silent (.aggregation query outputMailbox) ?_ (fun _ => rfl) o⟩
      exact fun h => absurd h Bool.false_ne_true
  | parquetExport outputDir =>
      simp only [MailboxProcessor.process, ProcessorContext.exportParquet, hdf] at h
      cases h
      refine ⟨Or.inl rfl, done_of_silent (.parquetExport outputDir) ?_ (fun _ => rfl) o⟩
      exact fun h => absurd h Bool.false_ne_true

end

/-! ## The invariant

A processor's sends are steps on the mailboxes like anyone's, and so is doing nothing.
Only the task receives on its own handle, so the messages it was given are those the
handle is past; a step that gives it nothing leaves them. -/

section
variable {J : SerdeJson} {H : Hasher} {w w' : Floor} {t : ProcessingTask} {k : Nat}
  {jobs : List Job}

/-- What was sent is kept, and each task has a handle of its own on its mailbox. -/
structure Fine (J : SerdeJson) (w : Floor) : Prop where
  stocked : Stocked J w.office
  handles : ∀ (k : Nat) (t : ProcessingTask), w.tasks[k]? = some t →
    ∃ mailbox, w.office.handles[t.handle]? = some mailbox ∧ mailbox.address = t.ctx.address
  datafusion : ∀ t ∈ w.tasks, t.ctx.datafusion = none
  own : ∀ (i j : Nat) (t u : ProcessingTask), w.tasks[i]? = some t → w.tasks[j]? = some u →
    t.handle = u.handle → i = j

/-- The `k`-th task was given the messages of its mailbox in turn, and did with them
what its processor does. -/
def Worked (k : Nat) (w : Floor) (jobs : List Job) : Prop :=
  match w.tasks[k]? with
  | none => jobs = []
  | some t => InTurn t.handle w.office (jobs.map Job.message ++ t.pending.toList) ∧
      ∀ job ∈ jobs, job.Done t.ctx t.processor

/-- The handles keep their addresses, and those that were there stay. -/
def Keeps (o o' : Office) : Prop :=
  ∀ (handle : Nat) (mailbox : Mailbox), o.handles[handle]? = some mailbox →
    ∃ mailbox', o'.handles[handle]? = some mailbox' ∧ mailbox'.address = mailbox.address

theorem keeps_of_grown {o o' : Office} (h : ∃ more, o'.handles = o.handles ++ more) :
    Keeps o o' := by
  obtain ⟨more, hmore⟩ := h
  intro handle mailbox hhandle
  refine ⟨mailbox, ?_, rfl⟩
  rw [hmore, List.getElem?_append_left (List.getElem?_eq_some_iff.mp hhandle).1]
  exact hhandle

theorem receive_address {startTime endTime : Nat} {sys : MailboxSystem} {mailbox mailbox' : Mailbox}
    {answer : Except MailboxError (Option Message)}
    (h : mailbox.receive J startTime endTime sys = some (answer, mailbox')) :
    mailbox'.address = mailbox.address := by
  simp only [Mailbox.receive] at h
  split at h
  · cases h
  split at h
  · cases h
  · cases h; rfl
  · split at h
    · cases h; rfl
    · split at h
      · cases h; rfl
      · cases h; rfl

theorem keeps_step {o o' : Office} {event : Workers.Event}
    (h : Workers.step J H o event = some o') : Keeps o o' := by
  cases event with
  | create fs paths address =>
      cases h
      exact keeps_of_grown (Workers.create_grown o fs paths address).handles
  | get address =>
      cases h
      exact keeps_of_grown (Workers.get_grown o address).handles
  | send call sender outgoing =>
      obtain ⟨⟨answer, o₁⟩, hsend, rfl⟩ := Option.map_eq_some_iff.mp h
      exact keeps_of_grown (Workers.send_grown hsend).handles
  | receive i startTime endTime =>
      obtain ⟨⟨answer, o₁⟩, hreceive, rfl⟩ := Option.map_eq_some_iff.mp h
      obtain ⟨mailbox, mailbox', hhandle, hmailbox, rfl⟩ := Workers.receive_moved hreceive
      intro handle other hother
      by_cases hi : i = handle
      · subst hi
        cases hhandle.symm.trans hother
        refine ⟨mailbox', ?_, receive_address hmailbox⟩
        exact List.getElem?_set_self (List.getElem?_eq_some_iff.mp hhandle).1
      · exact ⟨other, (List.getElem?_set_ne hi).trans hother, rfl⟩
  | peek i startTime endTime =>
      obtain ⟨answer, -, rfl⟩ := Option.map_eq_some_iff.mp h
      exact keeps_of_grown ⟨[], (List.append_nil _).symm⟩

theorem Fine.step (hsized : J.Sized) (h : Fine J w) {event : Workers.Event} {o' : Office}
    (hstep : Workers.step J H w.office event = some o') {tasks : List ProcessingTask}
    (htasks : ∀ (k : Nat) (t : ProcessingTask), tasks[k]? = some t →
      ∃ u, w.tasks[k]? = some u ∧ t.handle = u.handle ∧ t.ctx = u.ctx) : Fine J ⟨o', tasks⟩ where
  stocked := h.stocked.step hsized hstep
  handles := by
    intro k t ht
    obtain ⟨u, hu, hhandle, hctx⟩ := htasks k t ht
    obtain ⟨mailbox, hmailbox, haddress⟩ := h.handles k u hu
    obtain ⟨mailbox', hmailbox', haddress'⟩ := keeps_step hstep u.handle mailbox hmailbox
    exact ⟨mailbox', hhandle ▸ hmailbox', hctx ▸ haddress'.trans haddress⟩
  datafusion := by
    intro t ht
    obtain ⟨k, hk⟩ := List.mem_iff_getElem?.mp ht
    obtain ⟨u, hu, -, hctx⟩ := htasks k t hk
    exact hctx ▸ h.datafusion u (List.mem_of_getElem? hu)
  own := by
    intro i j t u ht hu heq
    obtain ⟨t', ht', hhandle, -⟩ := htasks i t ht
    obtain ⟨u', hu', hhandle', -⟩ := htasks j u hu
    exact h.own i j t' u' ht' hu' (hhandle.symm.trans (heq.trans hhandle'))

theorem Fine.sends (hsized : J.Sized) (h : Fine J w) {o' : Office} (hsends : Sends J H w.office o')
    {tasks : List ProcessingTask}
    (htasks : ∀ (k : Nat) (t : ProcessingTask), tasks[k]? = some t →
      ∃ u, w.tasks[k]? = some u ∧ t.handle = u.handle ∧ t.ctx = u.ctx) : Fine J ⟨o', tasks⟩ := by
  rcases hsends with rfl | ⟨call, sender, outgoing, hstep⟩
  · have hpeek := h.stocked
    refine ⟨hpeek, ?_, ?_, ?_⟩
    · intro k t ht
      obtain ⟨u, hu, hhandle, hctx⟩ := htasks k t ht
      exact hhandle ▸ hctx ▸ h.handles k u hu
    · intro t ht
      obtain ⟨k, hk⟩ := List.mem_iff_getElem?.mp ht
      obtain ⟨u, hu, -, hctx⟩ := htasks k t hk
      exact hctx ▸ h.datafusion u (List.mem_of_getElem? hu)
    · intro i j t u ht hu heq
      obtain ⟨t', ht', hhandle, -⟩ := htasks i t ht
      obtain ⟨u', hu', hhandle', -⟩ := htasks j u hu
      exact h.own i j t' u' ht' hu' (hhandle.symm.trans (heq.trans hhandle'))
  · exact h.step hsized hstep htasks

theorem Fine.registered (hsized : J.Sized) (h : Fine J w) {address : String} {mailbox : Mailbox}
    {office : Office} (hget : w.office.get address = (.ok (some mailbox), office))
    {ctx : ProcessorContext} (hctx : ctx.address = ⟨address⟩) (hdf : ctx.datafusion = none)
    (processor : MailboxProcessor) :
    Fine J ⟨office, w.tasks ++ [⟨w.office.handles.length, ctx, processor, true, none⟩]⟩ := by
  obtain ⟨rfl, rfl⟩ := Workers.get_some hget
  have hstep : Workers.step J crc32Hasher w.office (.get address)
      = some { w.office with handles := w.office.handles ++ [⟨⟨address⟩, 0⟩] } := by
    rw [Workers.step, hget]
  have hold : Fine J ⟨_, w.tasks⟩ := h.step hsized hstep (fun k t ht => ⟨t, ht, rfl, rfl⟩)
  have hlt : ∀ (i : Nat) (t : ProcessingTask), w.tasks[i]? = some t →
      t.handle < w.office.handles.length := by
    intro i t ht
    obtain ⟨mailbox, hmailbox, -⟩ := h.handles i t ht
    exact (List.getElem?_eq_some_iff.mp hmailbox).1
  refine ⟨hold.stocked, ?_, ?_, ?_⟩
  · intro k t ht
    rcases Lts.getElem?_of_concat ht with ht | ⟨-, rfl⟩
    · exact hold.handles k t ht
    · exact ⟨⟨⟨address⟩, 0⟩, List.getElem?_concat_length, hctx.symm⟩
  · exact List.forall_mem_append.mpr ⟨h.datafusion, List.forall_mem_singleton.mpr hdf⟩
  · intro i j t u ht hu heq
    rcases Lts.getElem?_of_concat ht with ht | ⟨rfl, rfl⟩
    · rcases Lts.getElem?_of_concat hu with hu | ⟨rfl, rfl⟩
      · exact h.own i j t u ht hu heq
      · exact absurd heq (Nat.ne_of_lt (hlt i t ht))
    · rcases Lts.getElem?_of_concat hu with hu | ⟨rfl, rfl⟩
      · exact absurd heq.symm (Nat.ne_of_lt (hlt j u hu))
      · rfl

theorem inTurn_frame (hJ : J.Lawful) (h : Fine J w) {handle : Nat} {messages : List Message}
    (hturn : InTurn handle w.office messages) {event : Workers.Event} {o' : Office}
    (hclear : Workers.ReadsClear J w.office event)
    (hstep : Workers.step J H w.office event = some o')
    (hnone : Workers.returnedOn J handle w.office event = []) : InTurn handle o' messages := by
  have hturn' := h.stocked.inTurn hJ hturn hclear hstep
  rwa [hnone, List.append_nil] at hturn'

theorem inTurn_sends (hJ : J.Lawful) (h : Fine J w) {handle : Nat} {messages : List Message}
    (hturn : InTurn handle w.office messages) {o' : Office} (hsends : Sends J H w.office o') :
    InTurn handle o' messages := by
  rcases hsends with rfl | ⟨call, sender, outgoing, hstep⟩
  · exact hturn
  · have hclear : Workers.ReadsClear J w.office (.send call sender outgoing) := trivial
    exact inTurn_frame hJ h hturn hclear hstep rfl

theorem returnedOn_of_not_owned {event : Workers.Event} (howned : w.owned event = false)
    (ht : t ∈ w.tasks) : Workers.returnedOn J t.handle w.office event = [] := by
  cases event with
  | create fs paths address => rfl
  | get address => rfl
  | send call sender outgoing => rfl
  | peek i startTime endTime => rfl
  | receive i startTime endTime =>
      refine if_neg ?_
      rintro rfl
      rw [Floor.owned, List.any_eq_false] at howned
      exact howned t ht (beq_self_eq_true _)

theorem messageOf_head (answer : Except MailboxError (Option Message)) :
    (messageOf answer).head?.toList = messageOf answer := by
  rcases answer with e | _ | m
  · rfl
  · rfl
  · rfl

theorem tasks_set {t' : ProcessingTask} (hk : w.tasks[k]? = some t) (hhandle : t'.handle = t.handle)
    (hctx : t'.ctx = t.ctx) (i : Nat) (u : ProcessingTask)
    (hu : (w.tasks.set k t')[i]? = some u) :
    ∃ u', w.tasks[i]? = some u' ∧ u.handle = u'.handle ∧ u.ctx = u'.ctx := by
  rcases Lts.getElem?_of_set hu with hu | ⟨rfl, rfl⟩
  · exact ⟨u, hu, rfl, rfl⟩
  · exact ⟨t, hk, hhandle, hctx⟩

/-- **The step lemma.** -/
theorem Fine.worked (hJ : J.Lawful) (hsized : J.Sized) (h : Fine J w) (hworked : Worked k w jobs)
    {event : Event} (hclear : w.ReadsClear J event) (hstep : w.step J H event = some w') :
    Fine J w' ∧ Worked k w' (jobs ++ jobsOf J H k w event) := by
  cases event with
  | office event =>
      simp only [Floor.step] at hstep
      split at hstep
      · cases hstep
      rename_i howned
      obtain ⟨o', hoffice, rfl⟩ := Option.map_eq_some_iff.mp hstep
      refine ⟨h.step hsized hoffice (fun k t ht => ⟨t, ht, rfl, rfl⟩), ?_⟩
      rw [jobsOf, List.append_nil]
      simp only [Worked] at hworked ⊢
      cases hk : w.tasks[k]? with
      | none =>
          rw [hk] at hworked
          exact hworked
      | some t =>
          rw [hk] at hworked
          have hnone := returnedOn_of_not_owned (J := J) (Bool.eq_false_iff.mpr howned)
            (List.mem_of_getElem? hk)
          exact ⟨inTurn_frame hJ h hworked.1 hclear hoffice hnone, hworked.2⟩
  | register fs address processor enableSql =>
      cases hstep
      rw [jobsOf, List.append_nil]
      simp only [Floor.register]
      split
      · exact ⟨h, hworked⟩
      rename_i addr haddr
      obtain ⟨-, rfl⟩ := MailboxAddress.new_ok haddr
      split
      · exact ⟨h, hworked⟩
      · exact ⟨h, hworked⟩
      rename_i mailbox office hget
      split
      · exact ⟨h, hworked⟩
      have hdf : (if enableSql = true then none else none : Option DataFusionLayer) = none :=
        ite_self none
      refine ⟨h.registered hsized hget rfl hdf processor, ?_⟩
      obtain ⟨rfl, rfl⟩ := Workers.get_some hget
      simp only [Worked] at hworked ⊢
      rcases Nat.lt_trichotomy k w.tasks.length with hlt | rfl | hgt
      · rw [List.getElem?_append_left hlt]
        cases hk : w.tasks[k]? with
        | none =>
            rw [hk] at hworked
            exact hworked
        | some t =>
            rw [hk] at hworked
            have hstep : Workers.step J H w.office (.get address)
                = some { w.office with handles := w.office.handles ++ [⟨⟨address⟩, 0⟩] } := by
              rw [Workers.step, hget]
            have hclear' : Workers.ReadsClear J w.office (.get address) := trivial
            exact ⟨inTurn_frame hJ h hworked.1 hclear' hstep rfl, hworked.2⟩
      · rw [List.getElem?_eq_none (Nat.le_refl _)] at hworked
        rw [List.getElem?_concat_length, hworked]
        refine ⟨?_, List.forall_mem_nil _⟩
        have hnew : (w.office.handles ++ [(⟨⟨address⟩, 0⟩ : Mailbox)])[w.office.handles.length]?
            = some ⟨⟨address⟩, 0⟩ := List.getElem?_concat_length
        rw [InTurn, hnew]
        exact ⟨Nat.zero_le _, rfl⟩
      · rw [List.getElem?_eq_none (Nat.le_of_lt hgt)] at hworked
        rw [List.getElem?_eq_none (by rw [List.length_append]; exact hgt)]
        exact hworked
  | tick i startTime endTime =>
      rw [jobsOf, List.append_nil]
      cases hi : w.tasks[i]? with
      | none => simp only [Floor.step, hi] at hstep; cases hstep
      | some t =>
          simp only [Floor.step, hi] at hstep
          split at hstep
          swap
          · cases hstep
          rename_i hready
          cases hreceive : w.office.receive J startTime endTime t.handle with
          | none => rw [hreceive] at hstep; cases hstep
          | some x =>
              obtain ⟨answer, office⟩ := x
              rw [hreceive] at hstep
              cases hstep
              have hoffice : Workers.step J H w.office (.receive t.handle startTime endTime)
                  = some office := by
                rw [Workers.step, hreceive]
                rfl
              refine ⟨h.step hsized hoffice (tasks_set hi rfl rfl), ?_⟩
              have hilt : i < w.tasks.length := (List.getElem?_eq_some_iff.mp hi).1
              simp only [Worked] at hworked ⊢
              by_cases hik : i = k
              · subst hik
                rw [hi] at hworked
                rw [List.getElem?_set_self hilt]
                obtain ⟨hturn, hdone⟩ := hworked
                refine ⟨?_, hdone⟩
                have hturn' := h.stocked.inTurn hJ hturn (hclear t hi) hoffice
                simp only [Workers.returnedOn, hreceive, if_true, hready.2, Option.toList_none,
                  List.append_nil] at hturn'
                dsimp only
                rwa [messageOf_head]
              · rw [List.getElem?_set_ne hik]
                cases hk : w.tasks[k]? with
                | none =>
                    rw [hk] at hworked
                    exact hworked
                | some u =>
                    rw [hk] at hworked
                    have hother : Workers.returnedOn J u.handle w.office
                        (.receive t.handle startTime endTime) = [] :=
                      if_neg (fun heq => hik (h.own i k t u hi hk heq))
                    exact ⟨inTurn_frame hJ h hworked.1 (hclear t hi) hoffice hother, hworked.2⟩
  | process i env =>
      cases hi : w.tasks[i]? with
      | none => simp only [Floor.step, hi] at hstep; cases hstep
      | some t =>
          cases hpending : t.pending with
          | none => simp only [Floor.step, hi, hpending] at hstep; cases hstep
          | some msg =>
              cases hprocess : t.processor.process J H t.ctx env msg w.office with
              | none => simp only [Floor.step, hi, hpending, hprocess] at hstep; cases hstep
              | some x =>
                  obtain ⟨result, office⟩ := x
                  simp only [Floor.step, hi, hpending, hprocess] at hstep
                  cases hstep
                  obtain ⟨hsends, hjob⟩ :=
                    process_spec (h.datafusion t (List.mem_of_getElem? hi)) hprocess
                  refine ⟨h.sends hsized hsends (tasks_set hi rfl rfl), ?_⟩
                  have hilt : i < w.tasks.length := (List.getElem?_eq_some_iff.mp hi).1
                  simp only [Worked] at hworked ⊢
                  by_cases hik : i = k
                  · subst hik
                    simp only [jobsOf, if_true, hi, hpending, hprocess]
                    rw [hi] at hworked
                    rw [List.getElem?_set_self hilt]
                    obtain ⟨hturn, hdone⟩ := hworked
                    refine ⟨?_, List.forall_mem_append.mpr
                      ⟨hdone, List.forall_mem_singleton.mpr hjob⟩⟩
                    rw [hpending] at hturn
                    rw [List.map_append, Option.toList_none, List.append_nil]
                    exact inTurn_sends hJ h hturn hsends
                  · rw [jobsOf, if_neg hik, List.append_nil, List.getElem?_set_ne hik]
                    cases hk : w.tasks[k]? with
                    | none =>
                        rw [hk] at hworked
                        exact hworked
                    | some u =>
                        rw [hk] at hworked
                        exact ⟨inTurn_sends hJ h hworked.1 hsends, hworked.2⟩
  | leave i =>
      rw [jobsOf, List.append_nil]
      cases hi : w.tasks[i]? with
      | none => simp only [Floor.step, hi] at hstep; cases hstep
      | some t =>
          simp only [Floor.step, hi] at hstep
          split at hstep
          swap
          · cases hstep
          cases hstep
          refine ⟨h.sends hsized (Or.inl rfl : Sends J H _ _) (tasks_set hi rfl rfl), ?_⟩
          have hilt : i < w.tasks.length := (List.getElem?_eq_some_iff.mp hi).1
          simp only [Worked] at hworked ⊢
          by_cases hik : i = k
          · subst hik
            rw [hi] at hworked
            rw [List.getElem?_set_self hilt]
            exact hworked
          · rw [List.getElem?_set_ne hik]
            exact hworked

end

/-! ## Every run -/

/-- What a task sends in all, of what its processor makes of the messages it answered
with `Ok`. -/
theorem sent_of_done {ctx : ProcessorContext} {p : MailboxProcessor} {jobs : List Job}
    (h : ∀ job ∈ jobs, job.Done ctx p) : (jobs.flatMap Job.sent).map outline =
      (jobs.filter Job.succeeded).filterMap (fun job => p.reaction job.message) := by
  induction jobs with
  | nil => rfl
  | cons job jobs ih =>
      obtain ⟨hjob, hjobs⟩ := List.forall_mem_cons.mp h
      rw [List.flatMap_cons, List.map_append, hjob.sent, ih hjobs]
      cases hok : job.succeeded with
      | false =>
          rw [List.filter_cons_of_neg (by rw [hok]; exact Bool.false_ne_true)]
          rfl
      | true =>
          rw [List.filter_cons_of_pos hok, if_pos rfl, List.filterMap_cons]
          cases hreaction : p.reaction job.message with
          | none => rfl
          | some x => rfl

theorem start_fine {J : SerdeJson} {fs : Files} {baseDir : String} {system : MailboxSystem}
    (hnew : MailboxSystem.new fs baseDir = .ok system) : Fine J (.start system) := by
  refine ⟨Workers.start_stocked hnew, ?_, List.forall_mem_nil _, ?_⟩
  · intro k t ht
    rw [Floor.start, List.getElem?_nil] at ht
    cases ht
  · intro i j t u ht
    rw [Floor.start, List.getElem?_nil] at ht
    cases ht

theorem run_worked {J : SerdeJson} {H : Hasher} (hJ : J.Lawful) (hsized : J.Sized) {fs : Files}
    {baseDir : String} {system : MailboxSystem}
    (hnew : MailboxSystem.new fs baseDir = .ok system) {events : List Event}
    (hclear : Lts.Guarded (Floor.step J H) (Floor.ReadsClear J) (.start system) events)
    {w : Floor} (hrun : Lts.run (Floor.step J H) (.start system) events = some w) (k : Nat) :
    Fine J w ∧
      Worked k w (Lts.outputs (Floor.step J H) (jobsOf J H k) (.start system) events) := by
  have hstart : Fine J (.start system) ∧ Worked k (.start system) [] := ⟨start_fine hnew, rfl⟩
  have hrun' := hclear.collects (fun w jobs => Fine J w ∧ Worked k w jobs)
    (fun h hok hstep => h.1.worked hJ hsized h.2 hok hstep) hstart hrun
  rwa [List.nil_append] at hrun'

/-- The messages a task has been given are those sent to its mailbox, up to where its
handle is. -/
def InOrder (w : Floor) (t : ProcessingTask) (jobs : List Job) : Prop :=
  ∃ mailbox, w.office.handles[t.handle]? = some mailbox ∧ mailbox.address = t.ctx.address ∧
    jobs.map Job.message ++ t.pending.toList =
      ((w.office.sentTo t.ctx.address).take mailbox.readOffset).map Workers.Sent.message

theorem Worked.inOrder {J : SerdeJson} {w : Floor} {t : ProcessingTask} {k : Nat}
    {jobs : List Job} (h : Worked k w jobs) (hfine : Fine J w) (hk : w.tasks[k]? = some t) :
    InOrder w t jobs ∧ ∀ job ∈ jobs, job.Done t.ctx t.processor := by
  rw [Worked, hk] at h
  obtain ⟨hturn, hdone⟩ := h
  obtain ⟨mailbox, hmailbox, haddress⟩ := hfine.handles k t hk
  rw [InTurn, hmailbox] at hturn
  refine ⟨⟨mailbox, hmailbox, haddress, ?_⟩, hdone⟩
  rw [← haddress]
  exact hturn.2

/-! ## On a disk

A step writes to one mailbox at most, a task's to the one its processor sends to.  So the
floor is a machine whose queues can be taken from the disk before each step and be put
there after it, and in directories of their own the runs are those of queues that stay
in memory. -/

def Environment.atDisk (disk : Disk) (env : Environment) : Environment :=
  { env with calls := fun n => { env.calls n with fs := (env.calls n).fs.on disk } }

def Event.atDisk (disk : Disk) : Event → Event
  | .office event => .office (event.atDisk disk)
  | .register fs address processor enableSql => .register fs address processor enableSql
  | .tick k startTime endTime => .tick k startTime endTime
  | .process k env => .process k (env.atDisk disk)
  | .leave k => .leave k

namespace Floor

/-- The mailbox a step writes to: one made or sent to by anyone, or the one a processor
sends to. -/
def writes (w : Floor) : Event → Option MailboxAddress
  | .office event => event.writes
  | .process k _ =>
      match w.tasks[k]? with
      | none => none
      | some t =>
          match t.pending with
          | none => none
          | some msg => (t.processor.output msg).map MailboxAddress.mk
  | .register _ _ _ _ | .tick _ _ _ | .leave _ => none

/-- A mailbox is created in a directory that none of the mailboxes there has. -/
def OwnDir (w : Floor) : Event → Prop
  | .office event => Workers.OwnDir w.office event
  | .register _ _ _ _ | .tick _ _ _ | .process _ _ | .leave _ => True

end Floor

def machine (J : SerdeJson) (H : Hasher) : Machine Floor Event where
  step := Floor.step J H
  system w := w.office.system
  withSystem system w := { w with office := { w.office with system } }
  atDisk := Event.atDisk
  writes := Floor.writes
  ownDir := Floor.OwnDir

section
variable {J : SerdeJson} {H : Hasher} {ctx : ProcessorContext} {o o' : Office} {call : Call}
  {to_ : String} {body : List UInt8} {result : Except ProcessorError Unit} {w w' : Floor}
  {event : Event}

theorem sendTo_changes (hsized : J.Sized) (h : Apart o.system)
    (hsend : ctx.sendTo J H call to_ body o = some (result, o')) :
    Changed o.system o'.system (some ⟨to_⟩) := by
  simp only [ProcessorContext.sendTo] at hsend
  split at hsend
  · cases hsend
    exact h.refl _
  · cases hsend
    exact h.refl _
  split at hsend
  · cases hsend
  · rename_i hoffice
    cases hsend
    exact h.send hsized (Workers.send_system hoffice)
  · rename_i hoffice
    cases hsend
    exact h.send hsized (Workers.send_system hoffice)

/-- All batches go to one mailbox. -/
theorem sendBatches_changes (hsized : J.Sized) {calls : Nat → Call}
    {batches : List (Except String (List UInt8))} {n : Nat} (h : Apart o.system)
    (hsend : sendBatches J H ctx calls to_ n batches o = some (result, o')) :
    Changed o.system o'.system (some ⟨to_⟩) := by
  induction batches generalizing n o with
  | nil =>
      cases hsend
      exact h.refl _
  | cons batch batches ih =>
      cases batch with
      | error e =>
          cases hsend
          exact h.refl _
      | ok buf =>
          rw [sendBatches] at hsend
          split at hsend
          · cases hsend
          · rename_i hone
            cases hsend
            exact sendTo_changes hsized h hone
          · rename_i hone
            have hchanged := sendTo_changes hsized h hone
            exact hchanged.trans (ih hchanged.apart hsend)

theorem process_changes (hsized : J.Sized) {p : MailboxProcessor} {env : Environment}
    {msg : Message} (h : Apart o.system)
    (hprocess : p.process J H ctx env msg o = some (result, o')) :
    Changed o.system o'.system ((p.output msg).map MailboxAddress.mk) := by
  cases p with
  | echo => exact sendTo_changes hsized h hprocess
  | transform f outputMailbox => exact sendTo_changes hsized h hprocess
  | filter predicate outputMailbox =>
      simp only [MailboxProcessor.process] at hprocess
      split at hprocess
      · exact sendTo_changes hsized h hprocess
      · cases hprocess
        exact h.refl _
  | aggregation query outputMailbox =>
      simp only [MailboxProcessor.process] at hprocess
      split at hprocess
      · cases hprocess
        exact h.refl _
      · exact sendBatches_changes hsized h hprocess
  | parquetExport outputDir =>
      simp only [MailboxProcessor.process] at hprocess
      split at hprocess
      · cases hprocess
        exact h.refl _
      · cases hprocess
        exact h.refl _

theorem register_system (w : Floor) (fs : Files) (address : String) (processor : MailboxProcessor)
    (enableSql : Bool) :
    (w.register fs address processor enableSql).2.office.system = w.office.system := by
  have hget := Workers.get_system w.office address
  simp only [Floor.register]
  split
  · rfl
  split
  · rfl
  · rfl
  · rename_i heq
    rw [heq] at hget
    split
    · rfl
    · exact hget

theorem step_changes (hsized : J.Sized) (h : Apart w.office.system) (hown : w.OwnDir event)
    (hstep : w.step J H event = some w') :
    Changed w.office.system w'.office.system (w.writes event) := by
  cases event with
  | office event =>
      simp only [Floor.step] at hstep
      split at hstep
      · cases hstep
      obtain ⟨office, hoffice, rfl⟩ := Option.map_eq_some_iff.mp hstep
      exact Workers.step_changes hsized h hown hoffice
  | register fs address processor enableSql =>
      cases hstep
      rw [register_system]
      exact h.refl _
  | tick k startTime endTime =>
      simp only [Floor.step] at hstep
      split at hstep
      · cases hstep
      split at hstep
      swap
      · cases hstep
      split at hstep
      · cases hstep
      rename_i hreceive
      cases hstep
      obtain ⟨mailbox, mailbox', -, -, rfl⟩ := Workers.receive_moved hreceive
      exact h.refl _
  | process k env =>
      simp only [Floor.step] at hstep
      split at hstep
      · cases hstep
      rename_i t ht
      split at hstep
      · cases hstep
      rename_i msg hpending
      split at hstep
      · cases hstep
      rename_i hprocess
      cases hstep
      simp only [Floor.writes, ht, hpending]
      exact process_changes hsized h hprocess
  | leave k =>
      simp only [Floor.step] at hstep
      split at hstep
      · cases hstep
      split at hstep
      · cases hstep
        exact h.refl _
      · cases hstep

theorem machine_lawful (hsized : J.Sized) : (machine J H).Lawful where
  withSystem_system _ := rfl
  writes_atDisk _ _ event := by
    cases event with
    | office event =>
        cases event <;> rfl
    | register fs address processor enableSql => rfl
    | tick k startTime endTime => rfl
    | process k env => rfl
    | leave k => rfl
  ownDir_atDisk _ _ event := by
    cases event with
    | office event =>
        cases event <;> exact Iff.rfl
    | register fs address processor enableSql => exact Iff.rfl
    | tick k startTime endTime => exact Iff.rfl
    | process k env => exact Iff.rfl
    | leave k => exact Iff.rfl
  changes := step_changes hsized

theorem readsClear_atDisk (disk : Disk) :
    w.ReadsClear J (event.atDisk disk) ↔ w.ReadsClear J event := by
  cases event with
  | office event => exact Workers.readsClear_atDisk disk
  | register fs address processor enableSql => exact Iff.rfl
  | tick k startTime endTime => exact Iff.rfl
  | process k env => exact Iff.rfl
  | leave k => exact Iff.rfl

/-- A new system on a disk, whatever the files there hold. -/
def start (disk : Disk) (system : MailboxSystem) : OnDisk Floor := ⟨disk, .start system⟩

/-- Mailboxes of their own, and receives on clear handles. -/
def OwnClear (J : SerdeJson) (w : OnDisk Floor) (event : Event) : Prop :=
  w.state.OwnDir event ∧ w.state.ReadsClear J event

/-- The messages the `k`-th task works on, where the queues are as they are on the
disk. -/
def jobsOnDisk (J : SerdeJson) (H : Hasher) (k : Nat) (w : OnDisk Floor) (event : Event) :
    List Job :=
  jobsOf J H k ((machine J H).view w) (event.atDisk w.disk)

theorem exists_stepOnDisk (hsized : J.Sized) {w : OnDisk Floor}
    (hmirrors : Mirrors w.disk w.state.office.system) (event : Event)
    (hown : w.state.OwnDir event)
    (hstep : w.state.step J H (event.atDisk w.disk) = some w') :
    ∃ w₁, (machine J H).stepOnDisk w event = some w₁ ∧ w₁.state = w' ∧
      Mirrors w₁.disk w₁.state.office.system :=
  (machine_lawful hsized).exists_step hmirrors hown hstep

/-- On the disk a run of clear receives keeps the invariant. -/
theorem run_worked_onDisk (hJ : J.Lawful) (hsized : J.Sized) {fs : Files} {baseDir : String}
    {system : MailboxSystem} (hnew : MailboxSystem.new fs baseDir = .ok system) (disk : Disk)
    {events : List Event}
    (hclear : Lts.Guarded (machine J H).stepOnDisk (OwnClear J) (start disk system) events)
    {w : OnDisk Floor} (hrun : Lts.run (machine J H).stepOnDisk (start disk system) events = some w)
    (k : Nat) : Mirrors w.disk w.state.office.system ∧ Fine J w.state ∧ Worked k w.state
      (Lts.outputs (machine J H).stepOnDisk (jobsOnDisk J H k) (start disk system) events) := by
  have hlawful := machine_lawful (H := H) hsized
  have hsteps := hlawful.stepsOf
  have hmirrors : Mirrors (start disk system).disk (start disk system).state.office.system :=
    .of_empty (MailboxSystem.lookup_of_new hnew) disk
  have hown := hclear.imp (fun h => h.1)
  have hstate := hsteps.run_eq hmirrors hown
  rw [hrun, Option.map_some] at hstate
  have hclear' := (hsteps.guarded_iff (q := Floor.ReadsClear J)
    (p := fun w event => w.state.ReadsClear J event) (fun _ => readsClear_atDisk _) hmirrors
    hown).mpr (hclear.imp (fun h => h.2))
  have hjobs := hsteps.outputs_eq (jobsOnDisk J H k) (jobsOf J H k)
    (fun {w event} hw => by rw [jobsOnDisk, hlawful.view_eq hw]; rfl) hmirrors hown
  obtain ⟨hfine, hworked⟩ := run_worked hJ hsized hnew hclear' hstate k
  exact ⟨hsteps.run_keeps hmirrors hown hrun, hfine,
    (congrArg (Worked k w.state) hjobs).mp hworked⟩

end

/-- **A processor's pipeline.**  In every run of a new system on a disk that makes its
mailboxes in directories of their own and whose receives are made on clear handles, each
task is given the messages sent to its mailbox in the order they were sent, each once, up
to where its handle is; and what it has sent, in order, is what its processor makes of
those it answered with `Ok`, in the processor's own name. -/
theorem pipeline_in_order {J : SerdeJson} {H : Hasher} (hJ : J.Lawful) (hsized : J.Sized)
    {fs : Files} {baseDir : String} {system : MailboxSystem}
    (hnew : MailboxSystem.new fs baseDir = .ok system) (disk : Disk) (events : List Event)
    (hclear : Lts.Guarded (machine J H).stepOnDisk (OwnClear J) (start disk system) events)
    (w : OnDisk Floor)
    (hrun : Lts.run (machine J H).stepOnDisk (start disk system) events = some w) (k : Nat)
    (t : ProcessingTask) (hk : w.state.tasks[k]? = some t) (jobs : List Job)
    (hjobs : Lts.outputs (machine J H).stepOnDisk (jobsOnDisk J H k) (start disk system) events =
      jobs) :
    InOrder w.state t jobs ∧
    (jobs.flatMap Job.sent).map outline =
      (jobs.filter Job.succeeded).filterMap (fun job => t.processor.reaction job.message) ∧
    ∀ m ∈ jobs.flatMap Job.sent, m.from_ = t.ctx.address := by
  subst hjobs
  obtain ⟨-, hfine, hworked⟩ := run_worked_onDisk hJ hsized hnew disk hclear hrun k
  obtain ⟨horder, hdone⟩ := hworked.inOrder hfine hk
  refine ⟨horder, sent_of_done hdone, ?_⟩
  intro m hm
  obtain ⟨job, hjob, hm⟩ := List.mem_flatMap.mp hm
  exact ((hdone job hjob).written m hm).1

section
open Delivery (bob alice letter letterText letterCall firstId freshCall twoLetters
  twoLetters_lawful emptySystem)
open Workers (bobServed sendLetter twoLetters_sized emptySystem_new)

/-- A mailbox, a processor on it, and a letter to it. -/
def employ (p : MailboxProcessor) : List Event :=
  [.office (.create .fresh .plain "bob@dolda"), .register .fresh "bob@dolda" p true,
    .office sendLetter]

/-- The floor with one task, on the second handle of a mailbox. -/
def staffed (o : Office) (p : MailboxProcessor) (pending : Option Message) : Floor :=
  ⟨o, [⟨1, ⟨⟨"bob@dolda"⟩, none⟩, p, true, pending⟩]⟩

theorem exists_employed {p : MailboxProcessor} (hinit : p.init .fresh = .ok ()) : ∃ w o,
    Lts.run (machine twoLetters crc32Hasher).stepOnDisk (start (fun _ => []) emptySystem)
      (employ p) = some w ∧
    w.state = staffed o p none ∧
    Lts.Guarded (machine twoLetters crc32Hasher).stepOnDisk (OwnClear twoLetters)
      (start (fun _ => []) emptySystem) (employ p) ∧
    o.handles = [bob, bob] ∧ o.sent = [⟨letter firstId 65, some 0⟩] := by
  let disk : Disk := fun _ => []
  obtain ⟨system, queue, hcreate, hsystem, hholds, hsize, hpartitions⟩ :=
    Delivery.bob_created (Files.fresh_willing.on disk) crc32Hasher
  have hget := MailboxSystem.getMailbox_of_createMailbox hcreate
  have hlookup : system.mailboxes.lookup bob.address = some queue := by
    rw [hsystem]
    exact emptySystem.putQueue_lookup _ queue
  have hone : Floor.step twoLetters crc32Hasher (.start emptySystem)
      (.office (.create (Files.fresh.on disk) .plain "bob@dolda")) =
        some ⟨⟨system, [bob], [], []⟩, []⟩ := by
    simp only [Floor.step, Floor.owned, Workers.step, Floor.start, Office.create, Office.start,
      hcreate, List.nil_append, Bool.false_eq_true, if_false, Option.map_some]
  have hown : Floor.OwnDir (.start emptySystem) (.office (.create .fresh .plain "bob@dolda")) := by
    intro _ path _ b queue hb
    cases (AList.lookup_empty b).symm.trans hb
  have hmirrors : Mirrors (start disk emptySystem).disk
      (start disk emptySystem).state.office.system := .of_empty AList.lookup_empty disk
  obtain ⟨w₁, hw₁, hstate₁, hmirrors₁⟩ := exists_stepOnDisk twoLetters_sized hmirrors _ hown hone
  have htwo : Floor.step twoLetters crc32Hasher w₁.state (.register .fresh "bob@dolda" p true) =
      some (staffed ⟨system, [bob, bob], [], []⟩ p none) := by
    have haddr : MailboxAddress.new "bob@dolda" = .ok ⟨"bob@dolda"⟩ := if_neg (by decide)
    rw [hstate₁]
    simp only [Floor.step, Floor.register, Office.get, haddr, hget, hinit, ite_self]
    rfl
  obtain ⟨w₂, hw₂, hstate₂, hmirrors₂⟩ := exists_stepOnDisk twoLetters_sized hmirrors₁
    (.register .fresh "bob@dolda" p true) trivial htwo
  obtain ⟨result, queue', hsend, hconfig', hholds'⟩ :=
    Delivery.send_letter (Files.fresh_willing.on w₂.disk) hlookup hholds hsize
      Delivery.twoLetters_first 0 1
  have hcur : queue'.currentSegment = some 0 := by
    refine hholds'.currentSegment_first (hconfig' ▸ hpartitions) ?_
    rw [hconfig', hsize, List.nil_append, List.map_singleton, List.flatten_singleton]
    exact (Delivery.twoLetters_length Delivery.twoLetters_first).trans (by decide)
  have hposted := Workers.posted_putQueue system queue' (letter firstId 65) firstId
  rw [hcur] at hposted
  let office : Office :=
    ⟨system.putQueue bob.address queue', [bob, bob], [⟨letter firstId 65, some 0⟩], []⟩
  have hthree : Floor.step twoLetters crc32Hasher w₂.state
      (.office (.send (letterCall (Files.fresh.on w₂.disk) 0 1 firstId) alice
        (.sendTo "bob@dolda" [65]))) = some (staffed office p none) := by
    rw [hstate₂]
    simp only [staffed, Floor.step, Floor.owned, Workers.step, Office.send, hsend,
      Option.map_some, List.nil_append, Bool.false_eq_true, if_false]
    exact congrArg (fun sent => some (Floor.mk (Office.mk _ _ sent []) _)) hposted
  obtain ⟨w₃, hw₃, hstate₃, -⟩ :=
    exists_stepOnDisk twoLetters_sized hmirrors₂ (.office sendLetter) trivial hthree
  refine ⟨w₃, office, ?_, hstate₃, ?_, rfl, rfl⟩
  · simp only [employ, Lts.run, ← show disk = fun _ => [] from rfl, hw₁, hw₂, hw₃]
  · simp only [employ, Lts.Guarded, ← show disk = fun _ => [] from rfl, hw₁, hw₂, hw₃]
    exact ⟨⟨hown, trivial⟩, ⟨trivial, trivial⟩, ⟨trivial, trivial⟩, trivial⟩

theorem exists_served {p : MailboxProcessor} (hinit : p.init .fresh = .ok ()) (env : Environment)
    {result : Except ProcessorError Unit}
    (hprocess : ∀ env o, p.process twoLetters crc32Hasher ⟨⟨"bob@dolda"⟩, none⟩ env
      (letter firstId 65) o = some (result, o)) : ∃ w,
    Lts.run (machine twoLetters crc32Hasher).stepOnDisk (start (fun _ => []) emptySystem)
      (employ p ++ [.tick 0 2 3, .process 0 env]) = some w ∧
    Lts.Guarded (machine twoLetters crc32Hasher).stepOnDisk (OwnClear twoLetters)
      (start (fun _ => []) emptySystem) (employ p ++ [.tick 0 2 3, .process 0 env]) ∧
    w.state.tasks[0]? = some ⟨1, ⟨⟨"bob@dolda"⟩, none⟩, p, true, none⟩ ∧
    ∀ jobs, InOrder w.state ⟨1, ⟨⟨"bob@dolda"⟩, none⟩, p, true, none⟩ jobs →
      jobs.map Job.message = [letter firstId 65] := by
  obtain ⟨w, o, hrun, hstate, hguarded, hhandles, hsent⟩ := exists_employed hinit
  obtain ⟨hmirrors, hfine, -⟩ := run_worked_onDisk twoLetters_lawful twoLetters_sized
    emptySystem_new (fun _ => []) hguarded hrun 0
  rw [hstate] at hfine
  have hhandle : o.handles[1]? = some bob := by
    rw [hhandles]
    rfl
  have hreceive := Workers.receive_letter (o := o) (hfine.stocked.kept bob.address) hsent hhandle
    2 3
  have htick : Floor.step twoLetters crc32Hasher w.state (.tick 0 2 3) =
      some (staffed (o.moved 1 bobServed [letter firstId 65]) p (some (letter firstId 65))) := by
    rw [hstate]
    simp only [staffed, Floor.step, List.getElem?_cons_zero, and_self, if_true, hreceive]
    rfl
  obtain ⟨w₁, hw₁, hstate₁, hmirrors₁⟩ :=
    exists_stepOnDisk twoLetters_sized hmirrors (.tick 0 2 3) trivial htick
  have hwork : Floor.step twoLetters crc32Hasher w₁.state (.process 0 (env.atDisk w₁.disk)) =
      some (staffed (o.moved 1 bobServed [letter firstId 65]) p none) := by
    rw [hstate₁]
    simp only [staffed, Floor.step, List.getElem?_cons_zero, hprocess, List.set_cons_zero]
  obtain ⟨w₂, hw₂, hstate₂, -⟩ :=
    exists_stepOnDisk twoLetters_sized hmirrors₁ (.process 0 env) trivial hwork
  have hsentTo : o.sentTo bob.address = [⟨letter firstId 65, some 0⟩] := by
    rw [Office.sentTo, hsent]
    decide +kernel
  have hclear : Workers.Clear twoLetters o bob := by
    refine ⟨?_, ?_⟩
    · intro x _ _ k y hk hy
      rw [hsentTo] at hy
      cases k with
      | zero => exact absurd hk (Nat.lt_irrefl 0)
      | succ k => cases hy
    · intro x hx hother
      rw [hsentTo] at hx
      cases hx
      exact absurd rfl hother
  have htickClear : w.state.ReadsClear twoLetters (.tick 0 2 3) := by
    rw [hstate]
    intro t ht mailbox hmailbox
    cases ht
    cases hhandle.symm.trans hmailbox
    exact hclear
  refine ⟨w₂, ?_, hguarded.append hrun ⟨⟨trivial, htickClear⟩, ?_⟩, ?_, ?_⟩
  · rw [Lts.run_append, hrun]
    simp only [Option.bind_some, Lts.run, hw₁, hw₂]
  · rw [hw₁]
    refine ⟨⟨trivial, trivial⟩, ?_⟩
    rw [hw₂]
    trivial
  · rw [hstate₂]
    rfl
  · rw [hstate₂]
    rintro jobs ⟨mailbox, hmailbox, -, hjobs⟩
    have hserved : (o.handles.set 1 bobServed)[1]? = some bobServed :=
      List.getElem?_set_self (by rw [hhandles]; decide)
    cases hmailbox.symm.trans hserved
    rw [Option.toList_none, List.append_nil] at hjobs
    rw [hjobs]
    show ((o.sentTo bob.address).take 1).map Workers.Sent.message = _
    rw [hsentTo]
    rfl

/-- A filter that lets no letter with a body pass. -/
theorem pipeline_in_order_letter : ∃ (w : OnDisk Floor) (jobs : List Job),
    Lts.run (machine twoLetters crc32Hasher).stepOnDisk (start (fun _ => []) emptySystem)
      (employ (.filter (fun m => m.body.isEmpty) "alice@dolda") ++
        [.tick 0 2 3, .process 0 ⟨fun _ => freshCall 4 5 6 firstId, 0⟩]) = some w ∧
    Lts.outputs (machine twoLetters crc32Hasher).stepOnDisk (jobsOnDisk twoLetters crc32Hasher 0)
      (start (fun _ => []) emptySystem)
      (employ (.filter (fun m => m.body.isEmpty) "alice@dolda") ++
        [.tick 0 2 3, .process 0 ⟨fun _ => freshCall 4 5 6 firstId, 0⟩]) = jobs ∧
    jobs.map Job.message = [letter firstId 65] ∧
    (jobs.flatMap Job.sent).map outline = (jobs.filter Job.succeeded).filterMap (fun job =>
      (MailboxProcessor.filter (fun m => m.body.isEmpty) "alice@dolda").reaction
        job.message) := by
  obtain ⟨w, hrun, hguarded, htask, hletter⟩ := exists_served
    (p := .filter (fun m => m.body.isEmpty) "alice@dolda") rfl
    ⟨fun _ => freshCall 4 5 6 firstId, 0⟩ (fun _ _ => rfl)
  obtain ⟨horder, hsent, -⟩ := pipeline_in_order twoLetters_lawful twoLetters_sized
    emptySystem_new (fun _ => []) _ hguarded w hrun 0 _ htask _ rfl
  exact ⟨w, _, hrun, rfl, hletter _ horder, hsent⟩

end

/-- **SQL processors send nothing.**  In the same runs, and whether or not it was
registered with SQL, an aggregation or an export is given the messages of its mailbox in
order, answers each with the same error, and sends nothing. -/
theorem sql_processors_silent {J : SerdeJson} {H : Hasher} (hJ : J.Lawful) (hsized : J.Sized)
    {fs : Files} {baseDir : String} {system : MailboxSystem}
    (hnew : MailboxSystem.new fs baseDir = .ok system) (disk : Disk) (events : List Event)
    (hclear : Lts.Guarded (machine J H).stepOnDisk (OwnClear J) (start disk system) events)
    (w : OnDisk Floor)
    (hrun : Lts.run (machine J H).stepOnDisk (start disk system) events = some w) (k : Nat)
    (t : ProcessingTask) (hk : w.state.tasks[k]? = some t) (hsql : t.processor.needsSql = true)
    (jobs : List Job)
    (hjobs : Lts.outputs (machine J H).stepOnDisk (jobsOnDisk J H k) (start disk system) events =
      jobs) :
    InOrder w.state t jobs ∧ ∀ job ∈ jobs, job.sent = [] ∧
      job.result = .error (.dataFusion "DataFusion not enabled for this mailbox") := by
  subst hjobs
  obtain ⟨-, hfine, hworked⟩ := run_worked_onDisk hJ hsized hnew disk hclear hrun k
  obtain ⟨horder, hdone⟩ := hworked.inOrder hfine hk
  refine ⟨horder, ?_⟩
  intro job hjob
  have hjob := hdone job hjob
  have hresult := hjob.sql hsql
  refine ⟨?_, hresult⟩
  have hsent := hjob.sent
  rw [Job.succeeded, hresult] at hsent
  exact List.map_eq_nil_iff.mp hsent

open Delivery Workers in
/-- An aggregation on a letter. -/
theorem sql_processors_silent_letter : ∃ (w : OnDisk Floor) (jobs : List Job),
    Lts.run (machine twoLetters crc32Hasher).stepOnDisk (start (fun _ => []) emptySystem)
      (employ (.aggregation "SELECT 1" "alice@dolda") ++
        [.tick 0 2 3, .process 0 ⟨fun _ => freshCall 4 5 6 firstId, 0⟩]) = some w ∧
    Lts.outputs (machine twoLetters crc32Hasher).stepOnDisk (jobsOnDisk twoLetters crc32Hasher 0)
      (start (fun _ => []) emptySystem) (employ (.aggregation "SELECT 1" "alice@dolda") ++
        [.tick 0 2 3, .process 0 ⟨fun _ => freshCall 4 5 6 firstId, 0⟩]) = jobs ∧
    jobs.map Job.message = [letter firstId 65] ∧
    ∀ job ∈ jobs, job.sent = [] ∧
      job.result = .error (.dataFusion "DataFusion not enabled for this mailbox") := by
  obtain ⟨w, hrun, hguarded, htask, hletter⟩ := exists_served
    (p := .aggregation "SELECT 1" "alice@dolda") rfl
    ⟨fun _ => freshCall 4 5 6 firstId, 0⟩ (fun _ _ => rfl)
  obtain ⟨horder, hsilent⟩ := sql_processors_silent twoLetters_lawful twoLetters_sized
    emptySystem_new (fun _ => []) _ hguarded w hrun 0 _ htask rfl _ rfl
  exact ⟨w, _, hrun, rfl, hletter _ horder, hsilent⟩

end Dolda.Forwarding
