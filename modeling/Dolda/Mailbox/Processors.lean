/-
# `Dolda.Mailbox.Processors` — processors and their tasks

`ProcessorManager` of `src/mailbox_processor.rs`.  A registration starts a task
that works on the messages of a mailbox until its shutdown channel tells it to
stop, by a signal or by having lost its sender; the manager keeps the channel, the
handle of the task and the processor in a table under the address.  To stop a
processor the manager takes its entry out of the table, sends the signal, waits for
the task and calls the shutdown hook.  The calls are made one at a time, and the
tasks run beside them.

**The invariant.**  A registration is held by the table or by the call under way,
at most one under an address, until its task has ended and its hook was called
(`Kept`).  What breaks it is a registration under an address that has an entry
(`Fresh`): the old entry is dropped, the old task is told but not waited for, and
nothing is left that could call the old processor's hook (`Lost`).
-/
import Dolda.Lib.Lts
import Dolda.Mailbox.Delivery

namespace Dolda

inductive ProcessorError where
  | mailbox (error : MailboxError)
  | dataFusion (message : String)
  | storage (message : String)
  | serialization (message : String)
  | io (message : String)
  | processorNotFound (message : String)
deriving DecidableEq

namespace Processors

/-- The task of a registration. -/
structure ProcessingTask where
  address : MailboxAddress
  running : Bool
  /-- The shutdown channel has a signal, or has lost its sender. -/
  told : Bool
deriving DecidableEq

/-- A registration is known by its number. -/
inductive Happening where
  /-- Its task ended. -/
  | ended (registration : Nat)
  /-- The shutdown hook of its processor was called. -/
  | hooked (registration : Nat)
deriving DecidableEq

inductive Operation where
  | register
  | unregister
  | shutdownAll
deriving DecidableEq

/-- Where the manager is. -/
inductive Doing where
  /-- Between calls, with what the last one returned. -/
  | idle (last : Option (Operation × Except ProcessorError Unit))
  /-- `register_processor`, its task started, before the entry is stored. -/
  | storing (address : MailboxAddress) (registration : Nat)
  /-- The entry is removed and the signal sent; before the hook is called.  The addresses
  are those `shutdown_all` still has to stop; `none` in `unregister_processor`. -/
  | stopping (address : MailboxAddress) (registration : Nat)
      (rest : Option (List MailboxAddress))

structure ProcessorManager where
  /-- The entries: the processor, the channel and the task handle of a registration. -/
  processors : AList (fun _ : MailboxAddress => Nat)
  tasks : List ProcessingTask
  log : List Happening
  doing : Doing

inductive Event where
  /-- `register_processor`, at the mailboxes of the system at that time; `init` is what
  the processor's own `init` answers. -/
  | register (address : String) (system : MailboxSystem) (init : Except ProcessorError Unit)
  | store
  | unregister (address : String)
  /-- `shutdown_all`, in the order the table gives the addresses out. -/
  | shutdownAll (addresses : List MailboxAddress)
  /-- The task has ended, and the hook is called, with this answer. -/
  | hook (result : Except ProcessorError Unit)
  /-- A task sees its shutdown channel. -/
  | leave (registration : Nat)
  /-- A task panics. -/
  | crash (registration : Nat)

namespace ProcessorManager

def new : ProcessorManager := { processors := ∅, tasks := [], log := [], doing := .idle none }

def finish (operation : Operation) (result : Except ProcessorError Unit) (m : ProcessorManager) :
    ProcessorManager :=
  { m with doing := .idle (some (operation, result)) }

/-- The shutdown channel of a registration tells its task. -/
def tell (registration : Nat) (m : ProcessorManager) : ProcessorManager :=
  { m with tasks := m.tasks.modify registration (fun t => { t with told := true }) }

def registerProcessor (address : String) (system : MailboxSystem)
    (init : Except ProcessorError Unit) (m : ProcessorManager) : ProcessorManager :=
  match MailboxAddress.new address with
  | .error e => m.finish .register (.error (.mailbox e))
  | .ok addr =>
      match system.getMailbox address with
      | .error e => m.finish .register (.error (.mailbox e))
      | .ok none => m.finish .register (.error (.mailbox (.mailboxNotFound address)))
      | .ok (some _) =>
          match init with
          | .error e => m.finish .register (.error e)
          | .ok () =>
              { m with
                tasks := m.tasks ++ [{ address := addr, running := true, told := false }]
                doing := .storing addr m.tasks.length }

/-- The entry is stored; one that it replaces is dropped, and its channel with it. -/
def storeEntry (addr : MailboxAddress) (registration : Nat) (m : ProcessorManager) :
    ProcessorManager :=
  let m' :=
    match m.processors.lookup addr with
    | none => m
    | some old => m.tell old
  { m' with processors := m.processors.insert addr registration }.finish .register (.ok ())

/-- An entry is taken out of the table and its task is told. -/
def stop (addr : MailboxAddress) (registration : Nat) (rest : Option (List MailboxAddress))
    (m : ProcessorManager) : ProcessorManager :=
  { m with
    processors := m.processors.erase addr
    doing := .stopping addr registration rest }.tell registration

def unregisterProcessor (address : String) (m : ProcessorManager) : ProcessorManager :=
  match MailboxAddress.new address with
  | .error e => m.finish .unregister (.error (.mailbox e))
  | .ok addr =>
      match m.processors.lookup addr with
      | none => m.finish .unregister (.ok ())
      | some registration => m.stop addr registration none

/-- The loop of `shutdown_all`, up to the next task it waits for. -/
def sweep : List MailboxAddress → ProcessorManager → ProcessorManager
  | [], m => m.finish .shutdownAll (.ok ())
  | addr :: rest, m =>
      match m.processors.lookup addr with
      | none => sweep rest m
      | some registration => m.stop addr registration (some rest)

/-- A task has ended: the hook is called, and the call goes on. -/
def callHook (registration : Nat) (rest : Option (List MailboxAddress))
    (result : Except ProcessorError Unit) (m : ProcessorManager) : ProcessorManager :=
  let m : ProcessorManager :=
    { m with log := m.log ++ [.hooked registration], doing := .idle none }
  match rest with
  | none => m.finish .unregister result
  | some rest => m.sweep rest

def endTask (registration : Nat) (m : ProcessorManager) : ProcessorManager :=
  { m with
    tasks := m.tasks.modify registration (fun t => { t with running := false })
    log := m.log ++ [.ended registration] }

def isIdle (m : ProcessorManager) : Bool :=
  match m.doing with
  | .idle _ => true
  | _ => false

def step (m : ProcessorManager) : Event → Option ProcessorManager
  | .register address system init =>
      if m.isIdle then some (m.registerProcessor address system init) else none
  | .unregister address => if m.isIdle then some (m.unregisterProcessor address) else none
  | .shutdownAll addresses =>
      if m.isIdle ∧ addresses.Perm m.processors.keys then some (m.sweep addresses) else none
  | .store =>
      match m.doing with
      | .storing addr registration => some (m.storeEntry addr registration)
      | _ => none
  | .hook result =>
      match m.doing with
      | .stopping _ registration rest =>
          match m.tasks[registration]? with
          | none => none
          | some task => if task.running then none else some (m.callHook registration rest result)
      | _ => none
  | .leave registration =>
      match m.tasks[registration]? with
      | none => none
      | some task => if task.running ∧ task.told then some (m.endTask registration) else none
  | .crash registration =>
      match m.tasks[registration]? with
      | none => none
      | some task => if task.running then some (m.endTask registration) else none

/-! ## Who holds a registration

What is held moves from the table to the call that stops it, and nothing else is told
from before: a task is started and its entry stored under an address that has none, and
the hook is called after the task has ended. -/

/-- The registration of the call under way. -/
def pending (m : ProcessorManager) : Option (MailboxAddress × Nat) :=
  match m.doing with
  | .idle _ => none
  | .storing addr registration => some (addr, registration)
  | .stopping addr registration _ => some (addr, registration)

/-- The registration is held under the address, by the table or by the call. -/
def Holds (m : ProcessorManager) (addr : MailboxAddress) (i : Nat) : Prop :=
  m.processors.lookup addr = some i ∨ m.pending = some (addr, i)

/-- Of the tasks, under which address they run and whether they do. -/
def shown (m : ProcessorManager) : List (MailboxAddress × Bool) :=
  m.tasks.map (fun t => (t.address, t.running))

/-- The hook was called, once, after the task had ended. -/
def Stopped (log : List Happening) (i : Nat) : Prop :=
  log.count (.hooked i) = 1 ∧
    ∃ before after, log = before ++ .hooked i :: after ∧ .ended i ∈ before

structure Kept (m : ProcessorManager) : Prop where
  held : ∀ {addr i}, m.Holds addr i →
    (∃ running, m.shown[i]? = some (addr, running)) ∧ .hooked i ∉ m.log
  apart : ∀ {addr i}, m.pending = some (addr, i) → m.processors.lookup addr = none
  done : ∀ {addr i running}, m.shown[i]? = some (addr, running) →
    m.Holds addr i ∨ Stopped m.log i
  ended : ∀ {addr i running}, m.shown[i]? = some (addr, running) →
    (running = false ↔ .ended i ∈ m.log)
  logged : ∀ {i}, .ended i ∈ m.log ∨ .hooked i ∈ m.log → i < m.shown.length
  rest : ∀ {a i rest}, m.doing = .stopping a i (some rest) →
    ∀ addr, m.processors.lookup addr ≠ none → addr ∈ rest
  emptied : ∀ {result}, m.doing = .idle (some (.shutdownAll, result)) →
    ∀ addr, m.processors.lookup addr = none

section
variable {m m' : ProcessorManager} {addr : MailboxAddress} {i j : Nat}
  {rest : Option (List MailboxAddress)} {addresses : List MailboxAddress}
  {operation : Operation} {result : Except ProcessorError Unit}

theorem tell_shown (i : Nat) (m : ProcessorManager) : (m.tell i).shown = m.shown := by
  refine List.ext_getElem? (fun n => ?_)
  simp only [shown, tell, List.getElem?_map, List.getElem?_modify]
  cases m.tasks[n]? with
  | none => rfl
  | some t => by_cases hi : i = n <;> simp [hi]

theorem Stopped.append {log : List Happening} (h : Stopped log i) {x : Happening}
    (hx : x ≠ .hooked i) : Stopped (log ++ [x]) i := by
  obtain ⟨hcount, before, after, rfl, hended⟩ := h
  refine ⟨?_, before, after ++ [x], by simp, hended⟩
  rw [List.count_append, hcount, List.count_singleton, if_neg (by simpa using hx)]

theorem Kept.moved (h : Kept m) (hshown : m'.shown = m.shown) (hlog : m'.log = m.log)
    (hholds : ∀ addr i, m'.Holds addr i ↔ m.Holds addr i)
    (hapart : ∀ {addr i}, m'.pending = some (addr, i) → m'.processors.lookup addr = none)
    (hrest : ∀ {a i rest}, m'.doing = .stopping a i (some rest) →
      ∀ addr, m'.processors.lookup addr ≠ none → addr ∈ rest)
    (hemptied : ∀ {result}, m'.doing = .idle (some (.shutdownAll, result)) →
      ∀ addr, m'.processors.lookup addr = none) : Kept m' where
  held := by
    intro addr i hheld
    rw [hshown, hlog]
    exact h.held ((hholds addr i).mp hheld)
  apart := hapart
  done := by
    intro addr i running hi
    rw [hshown] at hi
    rw [hlog, hholds]
    exact h.done hi
  ended := by
    intro addr i running hi
    rw [hshown] at hi
    rw [hlog]
    exact h.ended hi
  logged := by
    intro i hi
    rw [hlog] at hi
    rw [hshown]
    exact h.logged hi
  rest := hrest
  emptied := hemptied

theorem pending_idle {last : Option (Operation × Except ProcessorError Unit)}
    (h : m.doing = .idle last) : m.pending = none := by
  rw [pending, h]

theorem Kept.finish (h : Kept m) (hidle : m.pending = none)
    (hemptied : operation = .shutdownAll → ∀ addr, m.processors.lookup addr = none) :
    Kept (m.finish operation result) := by
  refine h.moved rfl rfl ?_ ?_ ?_ ?_
  · intro addr i
    rw [Holds, Holds, hidle]
    exact Iff.rfl
  · intro addr i hpending
    cases hpending
  · intro a i rest hdoing
    cases hdoing
  · intro r hdoing
    cases hdoing
    exact hemptied rfl

theorem Kept.stop (h : Kept m) (hidle : m.pending = none)
    (hlookup : m.processors.lookup addr = some i)
    (hrest : ∀ addresses, rest = some addresses →
      ∀ a, a ≠ addr → m.processors.lookup a ≠ none → a ∈ addresses) :
    Kept (m.stop addr i rest) := by
  have hthere {a : MailboxAddress} : (m.processors.erase addr).lookup a
      = if a = addr then none else m.processors.lookup a := by
    split
    · rename_i heq
      rw [heq]
      exact AList.lookup_erase _ _
    · rename_i hne
      exact AList.lookup_erase_ne hne
  refine h.moved (tell_shown _ _) rfl ?_ ?_ ?_ ?_
  · intro a j
    rw [Holds, Holds, hidle]
    change (m.processors.erase addr).lookup a = some j ∨ some (addr, i) = some (a, j) ↔ _
    rw [hthere]
    by_cases ha : a = addr
    · subst ha
      simp [hlookup]
    · simp [ha, Ne.symm ha]
  · intro a j hpending
    cases hpending
    exact AList.lookup_erase _ _
  · intro a j addresses hdoing b hb
    cases hdoing
    change (m.processors.erase addr).lookup b ≠ none at hb
    rw [hthere] at hb
    split at hb
    · exact absurd rfl hb
    · rename_i hne
      exact hrest _ rfl b hne hb
  · intro r hdoing
    cases hdoing

theorem Kept.sweep (h : Kept m) (hidle : m.pending = none)
    (hkeys : ∀ a, m.processors.lookup a ≠ none → a ∈ addresses) : Kept (m.sweep addresses) := by
  induction addresses with
  | nil =>
      refine h.finish hidle ?_
      intro _ a
      by_contra hne
      exact absurd (hkeys a hne) List.not_mem_nil
  | cons addr addresses ih =>
      have hother {a : MailboxAddress} (hne : a ≠ addr) (ha : m.processors.lookup a ≠ none) :
          a ∈ addresses := (List.mem_cons.mp (hkeys a ha)).resolve_left hne
      rw [ProcessorManager.sweep]
      cases hlookup : m.processors.lookup addr with
      | none =>
          refine ih ?_
          intro a ha
          refine hother ?_ ha
          rintro rfl
          exact ha hlookup
      | some i =>
          refine h.stop hidle hlookup ?_
          intro _ heq a hne ha
          cases heq
          exact hother hne ha

theorem Kept.started (h : Kept m) (hidle : m.pending = none)
    (hnone : m.processors.lookup addr = none) :
    Kept { m with
      tasks := m.tasks ++ [{ address := addr, running := true, told := false }]
      doing := .storing addr m.tasks.length } := by
  have hlen : m.shown.length = m.tasks.length := List.length_map _
  have hnew : ProcessorManager.shown { m with
      tasks := m.tasks ++ [{ address := addr, running := true, told := false }]
      doing := .storing addr m.tasks.length } = m.shown ++ [(addr, true)] := by
    simp only [shown, List.map_append]
    rfl
  have hold {a : MailboxAddress} {i : Nat} (hheld : m.Holds a i) : i < m.shown.length := by
    obtain ⟨⟨running, hi⟩, -⟩ := h.held hheld
    exact (List.getElem?_eq_some_iff.mp hi).1
  refine ⟨?_, ?_, ?_, ?_, ?_, ?_, ?_⟩
  · intro a i hheld
    rw [hnew]
    rcases hheld with hstored | hpending
    · obtain ⟨⟨running, hi⟩, hlog⟩ := h.held (Or.inl hstored)
      exact ⟨⟨running, by rw [List.getElem?_append_left (hold (Or.inl hstored)), hi]⟩, hlog⟩
    · cases hpending
      refine ⟨⟨true, ?_⟩, ?_⟩
      · rw [← hlen, List.getElem?_concat_length]
      · intro hlog
        exact absurd (h.logged (Or.inr hlog)) (by omega)
  · intro a i hpending
    cases hpending
    exact hnone
  · intro a i running hi
    rw [hnew] at hi
    rcases Lts.getElem?_of_concat hi with hi | ⟨rfl, hnew'⟩
    · rcases h.done hi with hheld | hstopped
      · rw [Holds, hidle] at hheld
        exact Or.inl (Or.inl (hheld.resolve_right (by simp)))
      · exact Or.inr hstopped
    · cases hnew'
      refine Or.inl (Or.inr ?_)
      rw [hlen]
      rfl
  · intro a i running hi
    rw [hnew] at hi
    rcases Lts.getElem?_of_concat hi with hi | ⟨rfl, hnew'⟩
    · exact h.ended hi
    · cases hnew'
      refine iff_of_false (by decide) ?_
      intro hlog
      exact absurd (h.logged (Or.inl hlog)) (Nat.lt_irrefl _)
  · intro i hi
    rw [hnew, List.length_append]
    exact Nat.lt_add_right _ (h.logged hi)
  · intro a i rest hdoing
    cases hdoing
  · intro r hdoing
    cases hdoing

theorem Kept.stored (h : Kept m) (hdoing : m.doing = .storing addr i) :
    Kept (m.storeEntry addr i) := by
  have hpending : m.pending = some (addr, i) := by rw [pending, hdoing]
  have hnone := h.apart hpending
  rw [storeEntry, hnone]
  refine h.moved rfl rfl ?_ ?_ ?_ ?_
  · intro a j
    rw [Holds, Holds, hpending]
    change (m.processors.insert addr i).lookup a = some j ∨ none = some (a, j) ↔ _
    by_cases ha : a = addr
    · subst ha
      simp [AList.lookup_insert, hnone]
    · simp [AList.lookup_insert_ne ha, Ne.symm ha]
  · intro a j hp
    cases hp
  · intro a j addresses hd
    cases hd
  · intro r hd
    cases hd

theorem Kept.hooked (h : Kept m) (hdoing : m.doing = .stopping addr i rest)
    (hended : m.shown[i]? = some (addr, false)) :
    Kept { m with log := m.log ++ [.hooked i], doing := .idle none } := by
  have hpending : m.pending = some (addr, i) := by rw [pending, hdoing]
  obtain ⟨-, hnot⟩ := h.held (Or.inr hpending)
  refine ⟨?_, ?_, ?_, ?_, ?_, ?_, ?_⟩
  · intro a j hheld
    have hstored : m.processors.lookup a = some j := hheld.resolve_right (by simp [pending])
    obtain ⟨⟨running, hj⟩, hlog⟩ := h.held (Or.inl hstored)
    refine ⟨⟨running, hj⟩, ?_⟩
    intro hmem
    rcases List.mem_append.mp hmem with hmem | hmem
    · exact hlog hmem
    · cases List.mem_singleton.mp hmem
      -- the registration that was hooked is under its own address, which has no entry
      change m.shown[i]? = _ at hj
      rw [hended] at hj
      cases hj
      rw [h.apart hpending] at hstored
      cases hstored
  · intro a j hp
    cases hp
  · intro a j running hj
    rcases h.done hj with hheld | hstopped
    · rcases hheld with hstored | hheld
      · exact Or.inl (Or.inl hstored)
      · rw [hpending] at hheld
        cases hheld
        refine Or.inr ⟨?_, m.log, [], rfl, (h.ended hended).mp rfl⟩
        rw [List.count_append, List.count_eq_zero.mpr hnot, List.count_singleton_self]
    · by_cases hji : j = i
      · subst hji
        refine absurd ?_ hnot
        obtain ⟨-, before, after, hlog, -⟩ := hstopped
        rw [hlog]
        exact List.mem_append_right _ List.mem_cons_self
      · exact Or.inr (hstopped.append (by simpa using Ne.symm hji))
  · intro a j running hj
    rw [h.ended hj]
    simp
  · intro j hj
    have hmem : .ended j ∈ m.log ∨ .hooked j ∈ m.log ∨ j = i := by simpa [or_assoc] using hj
    rcases hmem with hmem | hmem | rfl
    · exact h.logged (Or.inl hmem)
    · exact h.logged (Or.inr hmem)
    · exact (List.getElem?_eq_some_iff.mp hended).1
  · intro a j addresses hd
    cases hd
  · intro r hd
    cases hd

theorem endTask_shown (i : Nat) (m : ProcessorManager) :
    (m.endTask i).shown = m.shown.modify i (fun p => (p.1, false)) := by
  refine List.ext_getElem? (fun n => ?_)
  simp only [shown, endTask, List.getElem?_map, List.getElem?_modify]
  cases m.tasks[n]? with
  | none => rfl
  | some t => by_cases hi : i = n <;> simp [hi]

theorem Kept.endTask (h : Kept m) (hi : m.shown[i]? = some (addr, true)) : Kept (m.endTask i) := by
  have hget {j : Nat} (hne : j ≠ i) : (m.endTask i).shown[j]? = m.shown[j]? := by
    rw [endTask_shown, List.getElem?_modify_ne _ _ (Ne.symm hne)]
  have hself : (m.endTask i).shown[i]? = some (addr, false) := by
    rw [endTask_shown, List.getElem?_modify_eq, hi]
    rfl
  -- the address of a task is the one it had
  have hback {a : MailboxAddress} {j : Nat} {running : Bool}
      (hj : (m.endTask i).shown[j]? = some (a, running)) :
      ∃ running', m.shown[j]? = some (a, running') := by
    by_cases hne : j = i
    · subst hne
      rw [hself] at hj
      cases hj
      exact ⟨true, hi⟩
    · rw [hget hne] at hj
      exact ⟨running, hj⟩
  refine ⟨?_, ?_, ?_, ?_, ?_, ?_, ?_⟩
  · intro a j hheld
    obtain ⟨⟨running, hj⟩, hlog⟩ := h.held hheld
    refine ⟨?_, ?_⟩
    · by_cases hne : j = i
      · subst hne
        rw [hi] at hj
        cases hj
        exact ⟨false, hself⟩
      · exact ⟨running, by rw [hget hne, hj]⟩
    · intro hmem
      rcases List.mem_append.mp hmem with hmem | hmem
      · exact hlog hmem
      · cases List.mem_singleton.mp hmem
  · intro a j hpending
    exact h.apart hpending
  · intro a j running hj
    obtain ⟨running', hj⟩ := hback hj
    rcases h.done hj with hheld | hstopped
    · exact Or.inl hheld
    · exact Or.inr (hstopped.append (by simp))
  · intro a j running hj
    by_cases hne : j = i
    · subst hne
      rw [hself] at hj
      cases hj
      exact iff_of_true rfl (List.mem_append_right _ (List.mem_singleton.mpr rfl))
    · rw [hget hne] at hj
      rw [h.ended hj]
      change _ ↔ _ ∈ m.log ++ [.ended i]
      simp [hne]
  · intro j hj
    have hlen : (m.endTask i).shown.length = m.shown.length := by
      rw [endTask_shown, List.length_modify]
    have hmem : (.ended j ∈ m.log ∨ j = i) ∨ .hooked j ∈ m.log := by
      simpa [ProcessorManager.endTask] using hj
    rw [hlen]
    rcases hmem with (hmem | rfl) | hmem
    · exact h.logged (Or.inl hmem)
    · exact (List.getElem?_eq_some_iff.mp hi).1
    · exact h.logged (Or.inr hmem)
  · intro a j addresses hdoing
    exact h.rest hdoing
  · intro r hdoing
    exact h.emptied hdoing

/-! ## One step

A step is inverted once, into what it did to the tasks, the table and the call under
way.  While registrations are for addresses without an entry, each registration is in one
place: with a call, in the table, or done. -/

theorem shown_of_tasks {t : ProcessingTask} (h : m.tasks[i]? = some t) :
    m.shown[i]? = some (t.address, t.running) := by
  rw [shown, List.getElem?_map, h]
  rfl

theorem isIdle_iff : m.isIdle = true ↔ ∃ last, m.doing = .idle last := by
  rw [isIdle]
  cases m.doing <;> simp

theorem new_kept : Kept new where
  held := by
    intro addr i hheld
    rcases hheld with hstored | hpending
    · cases hstored
    · cases hpending
  apart := by
    intro addr i hpending
    cases hpending
  done := by
    intro addr i running hi
    cases hi
  ended := by
    intro addr i running hi
    cases hi
  logged := by
    intro i hi
    rcases hi with hi | hi <;> cases hi
  rest := by
    intro a i rest hdoing
    cases hdoing
  emptied := by
    intro r hdoing
    cases hdoing

/-- A registration that succeeds is for an address that has no entry. -/
def Fresh (m : ProcessorManager) : Event → Prop
  | .register address system init =>
      init = .ok () → (∃ mailbox, system.getMailbox address = .ok (some mailbox)) →
        m.processors.lookup ⟨address⟩ = none
  | _ => True

/-- What `register_processor` does: it fails, or starts a task. -/
theorem registerProcessor_cases (address : String) (system : MailboxSystem)
    (init : Except ProcessorError Unit) (m : ProcessorManager) :
    (∃ e, m.registerProcessor address system init = m.finish .register (.error e)) ∨
      init = .ok () ∧ (∃ mailbox, system.getMailbox address = .ok (some mailbox)) ∧
        m.registerProcessor address system init =
          { m with
            tasks := m.tasks ++ [{ address := ⟨address⟩, running := true, told := false }]
            doing := .storing ⟨address⟩ m.tasks.length } := by
  rw [registerProcessor]
  split
  · exact Or.inl ⟨_, rfl⟩
  rename_i addr haddr
  obtain ⟨-, rfl⟩ := MailboxAddress.new_ok haddr
  split
  · exact Or.inl ⟨_, rfl⟩
  · exact Or.inl ⟨_, rfl⟩
  rename_i mailbox hmailbox
  cases init with
  | error e => exact Or.inl ⟨_, rfl⟩
  | ok u => exact Or.inr ⟨rfl, ⟨mailbox, hmailbox⟩, rfl⟩

/-- What `unregister_processor` does: it returns, or takes an entry out. -/
theorem unregisterProcessor_cases (address : String) (m : ProcessorManager) :
    (∃ result, m.unregisterProcessor address = m.finish .unregister result) ∨
      ∃ addr i, m.processors.lookup addr = some i ∧
        m.unregisterProcessor address = m.stop addr i none := by
  rw [unregisterProcessor]
  split
  · exact Or.inl ⟨_, rfl⟩
  split
  · exact Or.inl ⟨_, rfl⟩
  · rename_i i hlookup
    exact Or.inr ⟨_, i, hlookup, rfl⟩

/-- What one step does. -/
inductive Stepped (m : ProcessorManager) : Event → ProcessorManager → Prop
  /-- A call returns at once, and has changed nothing. -/
  | returned {event : Event} {operation : Operation} {result : Except ProcessorError Unit} :
      m.pending = none → operation ≠ .shutdownAll → Stepped m event (m.finish operation result)
  | started {address : String} {system : MailboxSystem} {mailbox : Mailbox} :
      m.pending = none → system.getMailbox address = .ok (some mailbox) →
      Stepped m (.register address system (.ok ()))
        { m with
          tasks := m.tasks ++ [{ address := ⟨address⟩, running := true, told := false }]
          doing := .storing ⟨address⟩ m.tasks.length }
  | stored {addr : MailboxAddress} {i : Nat} :
      m.doing = .storing addr i → Stepped m .store (m.storeEntry addr i)
  | stopped {address : String} {addr : MailboxAddress} {i : Nat} :
      m.pending = none → m.processors.lookup addr = some i →
      Stepped m (.unregister address) (m.stop addr i none)
  | swept {addresses : List MailboxAddress} :
      m.pending = none → addresses.Perm m.processors.keys →
      Stepped m (.shutdownAll addresses) (m.sweep addresses)
  | hooked {addr : MailboxAddress} {i : Nat} {rest : Option (List MailboxAddress)}
      {t : ProcessingTask} {result : Except ProcessorError Unit} :
      m.doing = .stopping addr i rest → m.tasks[i]? = some t → t.running = false →
      Stepped m (.hook result) (m.callHook i rest result)
  | ended {event : Event} {i : Nat} {t : ProcessingTask} :
      m.tasks[i]? = some t → t.running = true → Stepped m event (m.endTask i)

theorem step_cases {event : Event} (h : m.step event = some m') : Stepped m event m' := by
  cases event with
  | register address system init =>
      simp only [step] at h
      split at h
      · rename_i hidle
        obtain ⟨last, hdoing⟩ := isIdle_iff.mp hidle
        cases h
        rcases registerProcessor_cases address system init m with
          ⟨e, heq⟩ | ⟨rfl, ⟨mailbox, hmailbox⟩, heq⟩
        · rw [heq]
          exact .returned (pending_idle hdoing) (by simp)
        · rw [heq]
          exact .started (pending_idle hdoing) hmailbox
      · cases h
  | store =>
      simp only [step] at h
      split at h
      · rename_i addr i hdoing
        cases h
        exact .stored hdoing
      · cases h
  | unregister address =>
      simp only [step] at h
      split at h
      · rename_i hidle
        obtain ⟨last, hdoing⟩ := isIdle_iff.mp hidle
        cases h
        rcases unregisterProcessor_cases address m with ⟨r, heq⟩ | ⟨addr, i, hlookup, heq⟩
        · rw [heq]
          exact .returned (pending_idle hdoing) (by simp)
        · rw [heq]
          exact .stopped (pending_idle hdoing) hlookup
      · cases h
  | shutdownAll addresses =>
      simp only [step] at h
      split at h
      · rename_i hcond
        obtain ⟨last, hdoing⟩ := isIdle_iff.mp hcond.1
        cases h
        exact .swept (pending_idle hdoing) hcond.2
      · cases h
  | hook result =>
      simp only [step] at h
      split at h
      · rename_i addr i rest hdoing
        split at h
        · cases h
        · rename_i t ht
          split at h
          · cases h
          · rename_i hrunning
            cases h
            exact .hooked hdoing ht (Bool.eq_false_iff.mpr hrunning)
      · cases h
  | leave i =>
      simp only [step] at h
      split at h
      · cases h
      · rename_i t ht
        split at h
        · rename_i hcond
          cases h
          exact .ended ht hcond.1
        · cases h
  | crash i =>
      simp only [step] at h
      split at h
      · cases h
      · rename_i t ht
        split at h
        · rename_i hrunning
          cases h
          exact .ended ht hrunning
        · cases h

theorem Kept.step {event : Event} (h : Kept m) (hfresh : Fresh m event)
    (hstep : m.step event = some m') : Kept m' := by
  cases step_cases hstep with
  | returned hidle hother => exact h.finish hidle (fun heq => absurd heq hother)
  | started hidle hmailbox => exact h.started hidle (hfresh rfl ⟨_, hmailbox⟩)
  | stored hdoing => exact h.stored hdoing
  | stopped hidle hlookup => exact h.stop hidle hlookup (by simp)
  | swept hidle hperm =>
      refine h.sweep hidle ?_
      intro a ha
      rw [hperm.mem_iff, ← AList.mem_keys]
      by_contra hnone
      exact ha (AList.lookup_eq_none.mpr hnone)
  | @hooked addr i rest t result hdoing ht hended =>
      have hpending : m.pending = some (addr, i) := by rw [pending, hdoing]
      have hshown : m.shown[i]? = some (addr, false) := by
        obtain ⟨⟨running, hi⟩, -⟩ := h.held (Or.inr hpending)
        rw [shown_of_tasks ht] at hi ⊢
        cases hi
        rw [hended]
      have hkept := h.hooked hdoing hshown
      cases rest with
      | none => exact hkept.finish rfl (by simp)
      | some addresses => exact hkept.sweep rfl (h.rest hdoing)
  | ended ht hrunning =>
      have hshown := shown_of_tasks ht
      rw [hrunning] at hshown
      exact h.endTask hshown

/-- At most one task runs under an address. -/
def AtMostOne (m : ProcessorManager) : Prop :=
  ∀ (i j : Nat) (t u : ProcessingTask), m.tasks[i]? = some t → m.tasks[j]? = some u →
    t.running = true → u.running = true → t.address = u.address → i = j

theorem Kept.atMostOne (h : Kept m) : AtMostOne m := by
  -- a running task is held
  have hheld {i : Nat} {t : ProcessingTask} (hi : m.tasks[i]? = some t)
      (hrunning : t.running = true) :
      m.Holds t.address i := by
    have hshown := shown_of_tasks hi
    refine (h.done hshown).resolve_right ?_
    rintro ⟨-, before, after, hlog, hmem⟩
    have hended := (h.ended hshown).mpr (by rw [hlog]; exact List.mem_append_left _ hmem)
    rw [hrunning] at hended
    cases hended
  intro i j t u hi hj ht hu haddress
  have hti := hheld hi ht
  have huj := hheld hj hu
  rw [← haddress] at huj
  rcases hti with hti | hti <;> rcases huj with huj | huj
  · rw [hti] at huj
    exact Option.some.inj huj
  · rw [h.apart huj] at hti
    cases hti
  · rw [h.apart hti] at huj
    cases huj
  · rw [hti] at huj
    cases huj
    rfl

/-- Every registration's hook was called once, after its task ended. -/
def AllStopped (m : ProcessorManager) : Prop := ∀ i < m.tasks.length, Stopped m.log i

theorem Kept.allStopped (h : Kept m) (hdoing : m.doing = .idle (some (.shutdownAll, result))) :
    AllStopped m := by
  intro i hi
  have hshown := shown_of_tasks (List.getElem?_eq_getElem hi)
  refine (h.done hshown).resolve_left ?_
  rintro (hstored | hpending)
  · rw [h.emptied hdoing] at hstored
    cases hstored
  · rw [pending_idle hdoing] at hpending
    cases hpending

/-! ## A registration that is lost

For the converse, a registration that nothing holds any more stays lost: no step gives
it back, and its hook is never called, so not all are stopped when `shutdown_all`
returns. -/

/-- Nothing can call the hook of the registration any more: nothing holds it, or only
an entry that is about to be replaced. -/
structure Lost (m : ProcessorManager) (i : Nat) : Prop where
  started : i < m.tasks.length
  unhooked : .hooked i ∉ m.log
  unheld : (∀ addr, ¬ m.Holds addr i) ∨
    ∃ addr j, m.doing = .storing addr j ∧ j ≠ i ∧ ∀ a, m.processors.lookup a = some i → a = addr

theorem Lost.idle (h : Lost m i) (hidle : m.pending = none) : ∀ addr, ¬ m.Holds addr i := by
  rcases h.unheld with hnot | ⟨addr, j, hdoing, -⟩
  · exact hnot
  · rw [pending, hdoing] at hidle
    cases hidle

theorem Lost.finish (h : Lost m i) (hidle : m.pending = none) :
    Lost (m.finish operation result) i := by
  refine ⟨h.started, h.unhooked, Or.inl ?_⟩
  rintro addr (hstored | hpending)
  · exact h.idle hidle addr (Or.inl hstored)
  · cases hpending

theorem Lost.stop (h : Lost m i) (hidle : m.pending = none)
    (hlookup : m.processors.lookup addr = some j) : Lost (m.stop addr j rest) i := by
  refine ⟨?_, h.unhooked, Or.inl ?_⟩
  · change i < (m.tasks.modify _ _).length
    rw [List.length_modify]
    exact h.started
  · rintro a (hstored | hpending)
    · refine h.idle hidle a (Or.inl ?_)
      change (m.processors.erase addr).lookup a = some i at hstored
      by_cases ha : a = addr
      · subst ha
        rw [AList.lookup_erase] at hstored
        cases hstored
      · rwa [AList.lookup_erase_ne ha] at hstored
    · cases hpending
      exact h.idle hidle _ (Or.inl hlookup)

theorem Lost.sweep (h : Lost m i) (hidle : m.pending = none) : Lost (m.sweep addresses) i := by
  induction addresses with
  | nil => exact h.finish hidle
  | cons addr addresses ih =>
      rw [ProcessorManager.sweep]
      cases hlookup : m.processors.lookup addr with
      | none => exact ih
      | some j => exact h.stop hidle hlookup

theorem Lost.stored (h : Lost m i) (hdoing : m.doing = .storing addr j) :
    Lost (m.storeEntry addr j) i := by
  have hpending : m.pending = some (addr, j) := by rw [pending, hdoing]
  obtain ⟨hne, hothers⟩ : j ≠ i ∧ ∀ a, m.processors.lookup a = some i → a = addr := by
    rcases h.unheld with hnot | ⟨addr', j', hdoing', hne, hothers⟩
    · refine ⟨?_, fun a ha => absurd (Or.inl ha) (hnot a)⟩
      rintro rfl
      exact hnot addr (Or.inr hpending)
    · rw [hdoing] at hdoing'
      cases hdoing'
      exact ⟨hne, hothers⟩
  have htasks : (m.storeEntry addr j).tasks.length = m.tasks.length := by
    rw [storeEntry]
    cases m.processors.lookup addr with
    | none => rfl
    | some old => exact List.length_modify ..
  have hlog : (m.storeEntry addr j).log = m.log := by
    rw [storeEntry]
    cases m.processors.lookup addr <;> rfl
  refine ⟨by rw [htasks]; exact h.started, by rw [hlog]; exact h.unhooked, Or.inl ?_⟩
  rintro a (hstored | hp)
  · change (m.processors.insert addr j).lookup a = some i at hstored
    by_cases ha : a = addr
    · subst ha
      rw [AList.lookup_insert] at hstored
      exact hne (Option.some.inj hstored)
    · rw [AList.lookup_insert_ne ha] at hstored
      exact ha (hothers a hstored)
  · cases hp

theorem Lost.hooked (h : Lost m i) (hdoing : m.doing = .stopping addr j rest) :
    Lost { m with log := m.log ++ [.hooked j], doing := .idle none } i := by
  have hpending : m.pending = some (addr, j) := by rw [pending, hdoing]
  have hnot : ∀ a, ¬ m.Holds a i := by
    rcases h.unheld with hnot | ⟨addr', j', hdoing', -⟩
    · exact hnot
    · rw [hdoing] at hdoing'
      cases hdoing'
  refine ⟨h.started, ?_, Or.inl ?_⟩
  · intro hmem
    rcases List.mem_append.mp hmem with hmem | hmem
    · exact h.unhooked hmem
    · cases List.mem_singleton.mp hmem
      exact hnot addr (Or.inr hpending)
  · rintro a (hstored | hp)
    · exact hnot a (Or.inl hstored)
    · cases hp

theorem Lost.begun (h : Lost m i) (hidle : m.pending = none) :
    Lost { m with
      tasks := m.tasks ++ [{ address := addr, running := true, told := false }]
      doing := .storing addr m.tasks.length } i := by
  refine ⟨?_, h.unhooked, Or.inl ?_⟩
  · change i < (m.tasks ++ _).length
    rw [List.length_append]
    exact Nat.lt_add_right _ h.started
  · rintro a (hstored | hpending)
    · exact h.idle hidle a (Or.inl hstored)
    · cases hpending
      exact Nat.lt_irrefl _ h.started

theorem Lost.endTask (h : Lost m i) : Lost (m.endTask j) i := by
  refine ⟨?_, ?_, h.unheld⟩
  · change i < (m.tasks.modify _ _).length
    rw [List.length_modify]
    exact h.started
  · intro hmem
    rcases List.mem_append.mp hmem with hmem | hmem
    · exact h.unhooked hmem
    · cases List.mem_singleton.mp hmem

theorem Lost.step {event : Event} (h : Lost m i) (hstep : m.step event = some m') : Lost m' i := by
  cases step_cases hstep with
  | returned hidle => exact h.finish hidle
  | started hidle => exact h.begun hidle
  | stored hdoing => exact h.stored hdoing
  | stopped hidle hlookup => exact h.stop hidle hlookup
  | swept hidle => exact h.sweep hidle
  | @hooked addr j rest t result hdoing =>
      cases rest with
      | none => exact (h.hooked hdoing).finish rfl
      | some addresses => exact (h.hooked hdoing).sweep rfl
  | ended => exact h.endTask

/-- A registration under an address that has an entry loses what is registered there. -/
theorem Kept.loses {event : Event} (h : Kept m) (hfresh : ¬ Fresh m event)
    (hstep : m.step event = some m') : ∃ i, Lost m' i := by
  cases event with
  | register address system init =>
      simp only [Fresh, not_forall] at hfresh
      obtain ⟨rfl, ⟨mailbox, hmailbox⟩, hentry⟩ := hfresh
      obtain ⟨i, hi⟩ := Option.ne_none_iff_exists'.mp hentry
      obtain ⟨⟨running, hshown⟩, hlog⟩ := h.held (Or.inl hi)
      have hlt : i < m.tasks.length := by
        have hlt := (List.getElem?_eq_some_iff.mp hshown).1
        rwa [shown, List.length_map] at hlt
      simp only [ProcessorManager.step] at hstep
      split at hstep
      · cases hstep
        rcases registerProcessor_cases address system (.ok ()) m with ⟨e, heq⟩ | ⟨-, -, heq⟩
        · rw [registerProcessor] at heq
          split at heq
          · rename_i e' haddr
            simp only [MailboxSystem.getMailbox, haddr] at hmailbox
            cases hmailbox
          · rw [hmailbox] at heq
            have hdoing := congrArg ProcessorManager.doing heq
            cases hdoing
        · rw [heq]
          refine ⟨i, ?_, hlog, Or.inr ⟨⟨address⟩, m.tasks.length, rfl, by omega, ?_⟩⟩
          · change i < (m.tasks ++ _).length
            rw [List.length_append]
            exact Nat.lt_add_right _ hlt
          · intro a ha
            obtain ⟨⟨running', hshown'⟩, -⟩ := h.held (Or.inl ha)
            rw [hshown] at hshown'
            cases hshown'
            rfl
      · cases hstep
  | _ => exact absurd trivial hfresh

theorem Lost.not_allStopped (h : Lost m i) : ¬ AllStopped m := by
  intro hall
  obtain ⟨-, before, after, hlog, -⟩ := hall i h.started
  refine h.unhooked ?_
  rw [hlog]
  exact List.mem_append_right _ List.mem_cons_self

/-- **When tasks and hooks are kept in order.**  In every run all of whose registrations
are for addresses without an entry, at most one task runs under an address.  When
`shutdown_all` has returned, the hook of every registration has been called once,
after its task ended, exactly if the registrations of the run were such. -/
theorem tasks_and_hooks {events : List Event} {m : ProcessorManager}
    (hrun : Lts.run step new events = some m) :
    (Lts.Guarded step Fresh new events → AtMostOne m) ∧
    ∀ result, m.doing = .idle (some (.shutdownAll, result)) →
      ((∀ i < m.tasks.length, m.log.count (.hooked i) = 1 ∧
        ∃ before after, m.log = before ++ .hooked i :: after ∧ .ended i ∈ before) ↔
        Lts.Guarded step Fresh new events) := by
  have hcases : (Lts.Guarded step Fresh new events ∧ Kept m) ∨
      (¬ Lts.Guarded step Fresh new events ∧ ∃ i, Lost m i) :=
    Lts.guarded_or_broken Kept (fun m => ∃ i, Lost m i)
      (fun h hok hs => h.step hok hs) (fun h hok hs => h.loses hok hs)
      (fun h hs => h.imp (fun i hi => hi.step hs)) new_kept hrun
  rcases hcases with ⟨hfresh, hkept⟩ | ⟨hnot, i, hlost⟩
  · exact ⟨fun _ => hkept.atMostOne,
      fun result hdoing => iff_of_true (hkept.allStopped hdoing) hfresh⟩
  · exact ⟨fun hfresh => absurd hfresh hnot,
      fun result _ => iff_of_false hlost.not_allStopped hnot⟩

end

open Delivery (bob emptySystem emptySystem_createMailbox)

/-- Registering a processor for a mailbox that is there. -/
def registerBob (system : MailboxSystem) : Event := .register "bob@dolda" system (.ok ())

theorem step_registerBob {system : MailboxSystem}
    (h : system.getMailbox "bob@dolda" = .ok (some bob))
    {m : ProcessorManager} (hidle : m.isIdle = true) :
    m.step (registerBob system) = some
      { m with
        tasks := m.tasks ++ [{ address := ⟨"bob@dolda"⟩, running := true, told := false }]
        doing := .storing ⟨"bob@dolda"⟩ m.tasks.length } := by
  have hempty : "bob@dolda".isEmpty = false := rfl
  simp only [registerBob, step, hidle, if_true, registerProcessor, MailboxAddress.new, hempty,
    Bool.false_eq_true, if_false, h]

/-- A mailbox with a processor, that is shut down. -/
theorem tasks_and_hooks_once : ∃ system m,
    Lts.run step new [registerBob system, .store, .shutdownAll [⟨"bob@dolda"⟩], .leave 0,
      .hook (.ok ())] = some m ∧
    m.log = [.ended 0, .hooked 0] ∧ m.log.count (.hooked 0) = 1 := by
  obtain ⟨system, hcreate⟩ := emptySystem_createMailbox Files.fresh_willing
  have hbob := MailboxSystem.getMailbox_of_createMailbox hcreate
  obtain ⟨m, hrun, hlog, hlen, hdoing⟩ : ∃ m,
      Lts.run step new [registerBob system, .store, .shutdownAll [⟨"bob@dolda"⟩], .leave 0,
        .hook (.ok ())] = some m ∧ m.log = [.ended 0, .hooked 0] ∧ 0 < m.tasks.length ∧
      m.doing = .idle (some (.shutdownAll, .ok ())) := by
    rw [Lts.run, step_registerBob hbob rfl]
    exact ⟨_, rfl, rfl, Nat.zero_lt_one, rfl⟩
  have hfresh : Lts.Guarded step Fresh new [registerBob system, .store,
      .shutdownAll [⟨"bob@dolda"⟩], .leave 0, .hook (.ok ())] := by
    refine ⟨fun _ _ => rfl, ?_⟩
    rw [step_registerBob hbob rfl]
    exact ⟨trivial, trivial, trivial, trivial, trivial⟩
  exact ⟨system, m, hrun, hlog, (((tasks_and_hooks hrun).2 _ hdoing).mpr hfresh 0 hlen).1⟩

/-- The manager with a processor for the mailbox. -/
def bobRegistered : ProcessorManager where
  processors := (∅ : AList (fun _ : MailboxAddress => Nat)).insert ⟨"bob@dolda"⟩ 0
  tasks := [{ address := ⟨"bob@dolda"⟩, running := true, told := false }]
  log := []
  doing := .idle (some (.register, .ok ()))

/-- **A processor registered again**: two tasks run for one mailbox, and after
`shutdown_all` the hook of the first processor has not been called. -/
theorem two_tasks_no_hook : ∃ system m m',
    Lts.run step new [registerBob system, .store, registerBob system, .store] = some m ∧
    m.tasks.map (fun t => (t.address, t.running))
      = [(⟨"bob@dolda"⟩, true), (⟨"bob@dolda"⟩, true)] ∧
    Lts.run step m [.leave 0, .shutdownAll [⟨"bob@dolda"⟩], .leave 1, .hook (.ok ())] = some m' ∧
    m'.doing = .idle (some (.shutdownAll, .ok ())) ∧
    m'.log = [.ended 0, .ended 1, .hooked 1] := by
  obtain ⟨system, hcreate⟩ := emptySystem_createMailbox Files.fresh_willing
  have hbob := MailboxSystem.getMailbox_of_createMailbox hcreate
  have honce : Lts.run step new [registerBob system, .store] = some bobRegistered := by
    rw [Lts.run, step_registerBob hbob rfl]
    rfl
  have htwice : Lts.run step new ([registerBob system, .store] ++ [registerBob system, .store]) =
      (Lts.run step new [registerBob system, .store]).bind
        (fun m => Lts.run step m [registerBob system, .store]) :=
    Lts.run_append [registerBob system, .store] [registerBob system, .store] new
  rw [honce, Option.bind_some, Lts.run, step_registerBob hbob rfl] at htwice
  exact ⟨system, _, _, htwice, rfl, rfl, rfl, rfl⟩

end ProcessorManager

end Processors

end Dolda
