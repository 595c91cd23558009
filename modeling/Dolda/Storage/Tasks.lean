/-
# `Dolda.Storage.Tasks` — appends to a partition from many tasks

`SegmentManager::append_record` takes `&self`, and so does the `append_record` of
the segments it appends to.  A task looks at the current segment, runs the steps
of an append in it, and where there is no space, or the space was gone by the time
it came to reserve it, takes the creation lock, looks again and creates a segment;
then it starts over (`Phase.step`).

**Two levels.**  A partition's interleaving shows in each of its segments as an
interleaving of the appends there (`Dolda.Storage.Concurrent`): the steps of a
task inside segment `i` are the steps of a call of that segment, and no other step
touches it (`Kept.step`).  So a segment of a partition is in a state that appends
to a fresh segment of its own reach, and what holds of those holds of it.
-/
import Dolda.PersistQ.Manager
import Dolda.Storage.Concurrent
import Dolda.Storage.Manager

namespace Dolda.Storage

/-! ## The steps of one task

A task looks for the current segment and appends to it; if that is full it takes the
creation lock, looks again, and creates a segment if there is still no space.  Inside a
segment it moves by the steps of the segment's own calls. -/

/-- How far a task inside `append_record` has come. -/
inductive Phase where
  /-- Before the look at the current segment. -/
  | looking
  /-- The segment had space; before its `fetch_add`. -/
  | starting (i : Nat)
  /-- Inside the `append_record` of a segment. -/
  | appending (i : Nat) (call : Call)
  /-- Before the creation lock. -/
  | waiting
  /-- Inside it, before the double-check. -/
  | checking
  /-- Before the number of segments is read. -/
  | counting
  | creating (segmentId : Nat)
  | pushing (segment : RecordSegment)
  /-- Pushed, before it becomes current. -/
  | switching (i : Nat)

/-- A manager that tasks share, and whether its creation lock is taken. -/
structure SharedManager where
  manager : SegmentManager
  locked : Bool

/-- What a task returns, nothing when it panics; and the segment it appended to. -/
structure Answer where
  segment : Option Nat
  result : Option (Except StorageError RecordOffset)

namespace Phase

def step (H : Hasher) (fs : Files) (r : Record) (sm : SharedManager) :
    Phase → Option ((Phase ⊕ Answer) × SharedManager)
  | looking =>
      match sm.manager.current with
      | none => some (.inl waiting, sm)
      | some (i, segment) =>
          if segment.hasSpace r.serializedSize then some (.inl (starting i), sm)
          else some (.inl waiting, sm)
  | starting i =>
      match sm.manager.segments[i]? with
      | none => some (.inr ⟨none, none⟩, sm)
      | some segment =>
          let (call, segment) := Call.start H segment r
          some (.inl (appending i call), { sm with manager := sm.manager.put i segment })
  | appending i call =>
      match sm.manager.segments[i]? with
      | none => some (.inr ⟨none, none⟩, sm)
      | some segment =>
          match call.advance H segment with
          | none => some (.inr ⟨some i, none⟩, sm)
          | some (.inl call, segment) =>
              some (.inl (appending i call), { sm with manager := sm.manager.put i segment })
          | some (.inr (.ok offset), segment) =>
              some (.inr ⟨some i, some (.ok offset)⟩,
                { sm with manager := sm.manager.put i segment })
          -- the one error that falls through to segment creation
          | some (.inr (.error (.segmentFull _ _)), segment) =>
              some (.inl waiting, { sm with manager := sm.manager.put i segment })
          | some (.inr (.error e), segment) =>
              some (.inr ⟨some i, some (.error e)⟩,
                { sm with manager := sm.manager.put i segment })
  | waiting => if sm.locked then none else some (.inl checking, { sm with locked := true })
  | checking =>
      if sm.manager.hasSpace r.serializedSize then
        some (.inl looking, { sm with locked := false })
      else some (.inl counting, sm)
  | counting => some (.inl (creating sm.manager.segments.length), sm)
  | creating segmentId =>
      match RecordSegment.new fs (sm.manager.segmentPath segmentId) sm.manager.segmentSize
          sm.manager.indexEnabled with
      | .error e => some (.inr ⟨none, some (.error e)⟩, { sm with locked := false })
      | .ok segment => some (.inl (pushing segment), sm)
  | pushing segment =>
      some (.inl (switching sm.manager.segments.length),
        { sm with
          manager := { sm.manager with segments := sm.manager.segments ++ [segment] } })
  | switching i =>
      some (.inl looking, ⟨{ sm.manager with currentSegment := some i }, false⟩)

/-- Inside the creation lock. -/
def inside : Phase → Bool
  | looking | starting _ | appending _ _ | waiting => false
  | checking | counting | creating _ | pushing _ | switching _ => true

/-- The call of the `i`-th segment a task is in. -/
def callIn (i : Nat) : Phase → Option Call
  | appending j call => if j = i then some call else none
  | looking | starting _ | waiting | checking | counting | creating _ | pushing _
  | switching _ => none

end Phase

/-- A task in flight. -/
structure Task where
  record : Record
  phase : Phase

/-- What was acknowledged in the `i`-th segment. -/
def Answer.okIn (i : Nat) : Record × Answer → Option (RecordOffset × Record)
  | (r, ⟨some j, some (.ok o)⟩) => if j = i then some (o, r) else none
  | _ => none

/-- A shared manager, the tasks in flight, and the others' records and answers. -/
structure Partition where
  shared : SharedManager
  tasks : List Task
  returned : List (Record × Answer)

namespace Partition

/-- A new task, or a step of the `k`-th in flight. -/
inductive Act where
  | start (r : Record) (built : r.Valid)
  | advance (k : Nat) (fs : Files)

def ofManager (m : SegmentManager) : Partition := ⟨⟨m, false⟩, [], []⟩

def step (H : Hasher) (w : Partition) : Act → Option Partition
  | .start r _ => some { w with tasks := w.tasks ++ [⟨r, .looking⟩] }
  | .advance k fs =>
      match w.tasks[k]? with
      | none => none
      | some t =>
          match t.phase.step H fs t.record w.shared with
          | none => none
          | some (.inl phase, shared) =>
              some { w with shared, tasks := w.tasks.set k { t with phase } }
          | some (.inr answer, shared) =>
              some ⟨shared, w.tasks.eraseIdx k, w.returned ++ [(t.record, answer)]⟩

/-! ## A segment of a partition -/

/-- The calls in flight in the `i`-th segment. -/
def callsIn (w : Partition) (i : Nat) : List Call :=
  w.tasks.filterMap (fun t => t.phase.callIn i)

/-- The records acknowledged there. -/
def acknowledgedIn (w : Partition) (i : Nat) : List (RecordOffset × Record) :=
  w.returned.filterMap (Answer.okIn i)

/-- The `i`-th segment, the calls in it and the records acknowledged there are those
of this system of one segment. -/
structure Shows (w : Partition) (i : Nat) (sw : World) : Prop where
  segment : w.shared.manager.segments[i]? = some sw.segment
  calls : sw.calls.Perm (w.callsIn i)
  acknowledged : sw.acknowledged = w.acknowledgedIn i

/-- The record whose append starts in a segment with this step, and the segment. -/
def starting (w : Partition) : Act → Option (Record × Nat × RecordSegment)
  | .start _ _ => none
  | .advance k _ =>
      match w.tasks[k]? with
      | some ⟨r, .starting i⟩ =>
          match w.shared.manager.segments[i]? with
          | none => none
          | some s => some (r, i, s)
      | _ => none

/-- Nothing is owed in a segment when a task's append there passes the capacity
check. -/
def GrantsUnowed (w : Partition) (a : Act) : Prop :=
  ∀ x ∈ w.starting a, x.2.2.hasSpace x.1.serializedSize = true → ∀ c ∈ w.callsIn x.2.1, c.owed = 0

instance (w : Partition) (a : Act) : Decidable (w.GrantsUnowed a) :=
  inferInstanceAs (Decidable (∀ x ∈ w.starting a, _))

end Partition

/-! ## One segment

A segment stays in its file, and an advance of one of the calls in flight in it is a
step of it. -/

/-- What an advance leaves: the call, if it goes on, the segment, and what the call
was told. -/
inductive Call.Advances (H : Hasher) (call : Call) (s : RecordSegment) :
    Option Call → RecordSegment → List (RecordOffset × Record) → Prop where
  | panicked : call.advance H s = none → Advances H call s none s []
  | moved (call' : Call) (s' : RecordSegment) : call.advance H s = some (.inl call', s') →
      Advances H call s (some call') s' []
  | answered (result : Except StorageError RecordOffset) (s' : RecordSegment) :
      call.advance H s = some (.inr result, s') →
        Advances H call s none s' (World.okOf (call.record, some result)).toList

section
variable {H : Hasher} {s s' : RecordSegment} {call call' : Call} {r : Record} {sw sw' : World}
  {next : Option Call} {acked : List (RecordOffset × Record)} {a : Act}

theorem Call.advance_record (h : call.advance H s = some (.inl call', s')) :
    call'.record = call.record := by
  cases call with
  | rollingBack r offset | indexing r offset recordNum => cases h
  | counting r offset => cases h; rfl
  | writing r offset =>
      simp only [Call.advance] at h
      split at h
      · cases h
      · cases h; rfl

theorem Call.advance_path {x : Call ⊕ Except StorageError RecordOffset}
    (h : call.advance H s = some (x, s')) : s'.path = s.path := by
  cases call with
  | rollingBack r offset | indexing r offset recordNum | counting r offset => cases h; rfl
  | writing r offset =>
      simp only [Call.advance] at h
      split at h
      · cases h
      · cases h; rfl

theorem Call.start_record (H : Hasher) (s : RecordSegment) (r : Record) :
    (Call.start H s r).1.record = r := by
  rw [Call.start]
  dsimp only
  split
  · rfl
  · rfl

theorem Call.start_path (H : Hasher) (s : RecordSegment) (r : Record) :
    (Call.start H s r).2.path = s.path := by
  rw [Call.start]
  dsimp only
  split
  · rfl
  · rfl

theorem World.step_path (h : sw.step H a = some sw') : sw'.segment.path = sw.segment.path := by
  rcases World.step_cases h with ⟨r, built, -, rfl⟩ | ⟨pre, call, post, -, -, hcase⟩
  · exact Call.start_path H _ r
  · rcases hcase with ⟨-, rfl⟩ | ⟨call', segment, hadv, rfl⟩ | ⟨result, segment, hadv, rfl⟩
    · rfl
    · exact Call.advance_path hadv
    · exact Call.advance_path hadv

theorem Call.Advances.step (h : call.Advances H sw.segment next s' acked)
    (hmem : call ∈ sw.calls) : ∃ k pre post sw', sw.calls = pre ++ call :: post ∧
      sw.step H (.advance k) = some sw' ∧ sw'.segment = s' ∧
      sw'.calls = pre ++ (next.toList ++ post) ∧ sw'.acknowledged = sw.acknowledged ++ acked := by
  obtain ⟨k, hk⟩ := List.mem_iff_getElem?.mp hmem
  obtain ⟨pre, post, hcalls, hset, herase⟩ := Lts.exists_split hk
  have hack : ∀ x, World.acknowledged ⟨s', pre ++ post, sw.returned ++ [x]⟩
      = sw.acknowledged ++ (World.okOf x).toList := by
    intro x
    rw [World.acknowledged, List.filterMap_append, List.filterMap_cons, List.filterMap_nil]
    cases World.okOf x with
    | none => rfl
    | some y => rfl
  cases h with
  | panicked hadv =>
      have hstep : sw.step H (.advance k)
          = some ⟨sw.segment, pre ++ post, sw.returned ++ [(call.record, none)]⟩ := by
        simp only [World.step, hk, hadv, herase]
      exact ⟨k, pre, post, _, hcalls, hstep, rfl, rfl, hack (call.record, none)⟩
  | moved call' s' hadv =>
      have hstep : sw.step H (.advance k) = some ⟨s', pre ++ call' :: post, sw.returned⟩ := by
        simp only [World.step, hk, hadv, hset]
      exact ⟨k, pre, post, _, hcalls, hstep, rfl, rfl, (List.append_nil _).symm⟩
  | answered result s' hadv =>
      have hstep : sw.step H (.advance k)
          = some ⟨s', pre ++ post, sw.returned ++ [(call.record, some result)]⟩ := by
        simp only [World.step, hk, hadv, herase]
      exact ⟨k, pre, post, _, hcalls, hstep, rfl, rfl, hack (call.record, some result)⟩

end

theorem RecordSegment.new_error {fs : Files} {path : String} {maxSize : Nat} {indexEnabled : Bool}
    {e : StorageError} (h : RecordSegment.new fs path maxSize indexEnabled = .error e) :
    ∃ e', e = .ofFile e' := by
  simp only [RecordSegment.new] at h
  split at h
  · cases h
    exact ⟨_, rfl⟩
  · cases h

/-- A segment of a partition, made in the file of its number and brought here by
steps of its appends that meet `ok`. -/
def SegmentManager.SegmentReaches (H : Hasher) (ok : World → Act → Prop) (m : SegmentManager)
    (i : Nat) (sw : World) : Prop :=
  ∃ fs s, RecordSegment.new fs (m.segmentPath i) m.segmentSize m.indexEnabled = .ok s ∧
    Lts.Reaches (World.step H) ok (World.ofSegment s) sw

theorem SegmentManager.SegmentReaches.path {H : Hasher} {ok : World → Act → Prop}
    {m : SegmentManager} {i : Nat} {sw : World} (h : m.SegmentReaches H ok i sw) :
    sw.segment.path = m.segmentPath i := by
  obtain ⟨fs, s, hnew, hreach⟩ := h
  refine hreach.invariant (fun sw => sw.segment.path = m.segmentPath i) ?_
    (RecordSegment.new_path hnew)
  intro sw a sw' hpath _ hstep
  exact (World.step_path hstep).trans hpath

/-! ## The invariant

What a task counts on stays where segments stay; outside the lock it does not care how
many there are. -/

/-- What a task counts on. -/
def Task.Fine (m : SegmentManager) : Task → Prop
  | ⟨_, .starting i⟩ | ⟨_, .switching i⟩ => i < m.segments.length
  | ⟨r, .appending i call⟩ => i < m.segments.length ∧ call.record = r
  | ⟨_, .creating segmentId⟩ => segmentId = m.segments.length
  | ⟨_, .pushing segment⟩ => ∃ fs, RecordSegment.new fs (m.segmentPath m.segments.length)
      m.segmentSize m.indexEnabled = .ok segment
  | ⟨_, .looking⟩ | ⟨_, .waiting⟩ | ⟨_, .checking⟩ | ⟨_, .counting⟩ => True

section
variable {m m' : SegmentManager} {t : Task}

theorem Task.Fine.congr (h : t.Fine m)
    (hlen : m'.segments.length = m.segments.length) (hpath : m'.segmentPath = m.segmentPath)
    (hsize : m'.segmentSize = m.segmentSize) (hindex : m'.indexEnabled = m.indexEnabled) :
    t.Fine m' := by
  obtain ⟨r, phase⟩ := t
  cases phase with
  | looking | waiting | checking | counting => trivial
  | starting i => exact Nat.lt_of_lt_of_eq h hlen.symm
  | switching i => exact Nat.lt_of_lt_of_eq h hlen.symm
  | appending i call => exact ⟨Nat.lt_of_lt_of_eq h.1 hlen.symm, h.2⟩
  | creating segmentId => exact Eq.trans h hlen.symm
  | pushing segment =>
      obtain ⟨fs, hnew⟩ := h
      exact ⟨fs, by rw [hpath, hlen, hsize, hindex]; exact hnew⟩

theorem Task.Fine.grown (h : t.Fine m) (hout : t.phase.inside = false)
    (hlen : m.segments.length ≤ m'.segments.length) : t.Fine m' := by
  obtain ⟨r, phase⟩ := t
  cases phase with
  | looking | waiting => trivial
  | starting i => exact Nat.lt_of_lt_of_le h hlen
  | appending i call => exact ⟨Nat.lt_of_lt_of_le h.1 hlen, h.2⟩
  | checking | counting | creating | pushing | switching => cases hout

end

/-- What holds in every state.  `ok` is what the steps inside each segment meet. -/
structure Partition.Kept (H : Hasher) (ok : World → Storage.Act → Prop) (w : Partition) : Prop where
  valid : ∀ t ∈ w.tasks, t.record.Valid
  segments : ∀ i, i < w.shared.manager.segments.length →
    ∃ sw, w.Shows i sw ∧ w.shared.manager.SegmentReaches H ok i sw
  current : ∃ i, w.shared.manager.currentSegment = some i ∧
    i < w.shared.manager.segments.length
  there : ∀ x ∈ w.returned, ∀ i, x.2.segment = some i → i < w.shared.manager.segments.length
  fine : ∀ t ∈ w.tasks, t.Fine w.shared.manager
  lock : Lts.Locked (fun t : Task => t.phase.inside) w.tasks w.shared.locked

/-- A step of a task, as the other tasks and the segments see it: where it goes, and
what is shared afterwards. -/
inductive Effect (H : Hasher) (sm : SharedManager) (t : Task) :
    (Phase ⊕ Answer) × SharedManager → Prop where
  | moved (p : Phase) : (∀ i, t.phase.callIn i = none) → (∀ i, p.callIn i = none) →
      p.inside = t.phase.inside → Task.Fine sm.manager ⟨t.record, p⟩ →
        Effect H sm t (.inl p, sm)
  | acquired (p : Phase) : (∀ i, t.phase.callIn i = none) → (∀ i, p.callIn i = none) →
      p.inside = true → sm.locked = false → Task.Fine sm.manager ⟨t.record, p⟩ →
        Effect H sm t (.inl p, { sm with locked := true })
  | pushed (segment : RecordSegment) : t.phase = .pushing segment →
      Effect H sm t (.inl (.switching sm.manager.segments.length),
        { sm with manager := { sm.manager with segments := sm.manager.segments ++ [segment] } })
  | released (i : Nat) : (∀ i, t.phase.callIn i = none) → t.phase.inside = true →
      i < sm.manager.segments.length →
        Effect H sm t (.inl .looking, ⟨{ sm.manager with currentSegment := some i }, false⟩)
  | refused (e : FileError) : (∀ i, t.phase.callIn i = none) → t.phase.inside = true →
      Effect H sm t (.inr ⟨none, some (.error (.ofFile e))⟩, { sm with locked := false })
  | started (i : Nat) (s : RecordSegment) : t.phase = .starting i →
      sm.manager.segments[i]? = some s →
        Effect H sm t (.inl (.appending i (Call.start H s t.record).1),
          { sm with manager := sm.manager.put i (Call.start H s t.record).2 })
  | advanced (i : Nat) (call call' : Call) (s s' : RecordSegment) :
      t.phase = .appending i call → sm.manager.segments[i]? = some s →
      call.advance H s = some (.inl call', s') →
        Effect H sm t (.inl (.appending i call'), { sm with manager := sm.manager.put i s' })
  | fell (i : Nat) (call : Call) (s s' : RecordSegment) (needed available : Nat) :
      t.phase = .appending i call → sm.manager.segments[i]? = some s →
      call.advance H s = some (.inr (.error (.segmentFull needed available)), s') →
        Effect H sm t (.inl .waiting, { sm with manager := sm.manager.put i s' })
  | answered (i : Nat) (call : Call) (s s' : RecordSegment) (o : RecordOffset) :
      t.phase = .appending i call → sm.manager.segments[i]? = some s →
      call.advance H s = some (.inr (.ok o), s') →
        Effect H sm t (.inr ⟨some i, some (.ok o)⟩, { sm with manager := sm.manager.put i s' })
  | panicked (i : Nat) (call : Call) (s : RecordSegment) :
      t.phase = .appending i call → sm.manager.segments[i]? = some s → call.advance H s = none →
        Effect H sm t (.inr ⟨some i, none⟩, sm)

namespace Partition

section
variable {H : Hasher} {ok : World → Storage.Act → Prop} {w w' : Partition} {t : Task}

theorem Kept.current_eq (h : w.Kept H ok) : ∃ i s,
    w.shared.manager.currentSegment = some i ∧ w.shared.manager.segments[i]? = some s ∧
      w.shared.manager.current = some (i, s) := by
  obtain ⟨i, hcur, hlt⟩ := h.current
  refine ⟨i, w.shared.manager.segments[i], hcur, List.getElem?_eq_getElem hlt, ?_⟩
  simp only [SegmentManager.current, hcur, List.getElem?_eq_getElem hlt]

/-- **The spec of a step.** -/
theorem Kept.effect (h : w.Kept H ok) (ht : t ∈ w.tasks) {fs : Files}
    {x : (Phase ⊕ Answer) × SharedManager} (hstep : t.phase.step H fs t.record w.shared = some x) :
    Effect H w.shared t x := by
  have hfine := h.fine t ht
  obtain ⟨r, phase⟩ := t
  obtain ⟨i₀, s₀, hcur, hget, hcurrent⟩ := h.current_eq
  have hlt : i₀ < w.shared.manager.segments.length := (List.getElem?_eq_some_iff.mp hget).1
  cases phase with
  | looking =>
      simp only [Phase.step, hcurrent] at hstep
      split at hstep
      · cases hstep
        exact .moved _ (fun _ => rfl) (fun _ => rfl) rfl hlt
      · cases hstep
        exact .moved _ (fun _ => rfl) (fun _ => rfl) rfl trivial
  | starting i =>
      have hi : i < w.shared.manager.segments.length := hfine
      simp only [Phase.step, List.getElem?_eq_getElem hi] at hstep
      cases hstep
      exact .started i _ rfl (List.getElem?_eq_getElem hi)
  | appending i call =>
      obtain ⟨hi, -⟩ := hfine
      have hget := List.getElem?_eq_getElem hi
      rcases hadv : call.advance H w.shared.manager.segments[i] with _ | ⟨call' | result, s'⟩
      · simp only [Phase.step, hget, hadv] at hstep
        cases hstep
        exact .panicked i call _ rfl hget hadv
      · simp only [Phase.step, hget, hadv] at hstep
        cases hstep
        exact .advanced i call call' _ s' rfl hget hadv
      · obtain ⟨-, ⟨r', offset, -, hx, -⟩ | ⟨-, -, ⟨call', hx, -⟩ | ⟨o, hx⟩⟩⟩ :=
          Call.advance_cases hadv
        · cases hx
          simp only [Phase.step, hget, hadv] at hstep
          cases hstep
          exact .fell i call _ s' _ _ rfl hget hadv
        · cases hx
        · cases hx
          simp only [Phase.step, hget, hadv] at hstep
          cases hstep
          exact .answered i call _ s' o rfl hget hadv
  | waiting =>
      simp only [Phase.step] at hstep
      cases hlocked : w.shared.locked with
      | true => rw [hlocked] at hstep; cases hstep
      | false =>
          rw [hlocked] at hstep
          cases hstep
          exact .acquired _ (fun _ => rfl) (fun _ => rfl) rfl hlocked trivial
  | checking =>
      simp only [Phase.step] at hstep
      split at hstep
      · cases hstep
        have hreleased : Effect H w.shared ⟨r, .checking⟩
            (.inl .looking, ⟨{ w.shared.manager with currentSegment := some i₀ }, false⟩) :=
          .released i₀ (fun _ => rfl) rfl hlt
        rwa [← hcur] at hreleased
      · cases hstep
        exact .moved _ (fun _ => rfl) (fun _ => rfl) rfl trivial
  | counting =>
      cases hstep
      exact .moved _ (fun _ => rfl) (fun _ => rfl) rfl rfl
  | creating segmentId =>
      have hid : segmentId = w.shared.manager.segments.length := hfine
      cases hnew : RecordSegment.new fs (w.shared.manager.segmentPath segmentId)
          w.shared.manager.segmentSize w.shared.manager.indexEnabled with
      | error e =>
          obtain ⟨e, rfl⟩ := RecordSegment.new_error hnew
          simp only [Phase.step, hnew] at hstep
          cases hstep
          exact .refused e (fun _ => rfl) rfl
      | ok segment =>
          simp only [Phase.step, hnew] at hstep
          cases hstep
          exact .moved _ (fun _ => rfl) (fun _ => rfl) rfl ⟨fs, hid ▸ hnew⟩
  | pushing segment =>
      cases hstep
      exact .pushed segment rfl
  | switching i =>
      cases hstep
      exact .released i (fun _ => rfl) rfl hfine

/-! ### Each step keeps the invariant

A segment shows as it did where no call in it moves, and otherwise the call that moves
or starts in it.  So the cases are a step that touches no segment, one inside a segment,
a new segment, and a call that moves in one. -/

variable {sm sm' : SharedManager} {pre post : List Task} {returned new : List (Record × Answer)}
  {next : Option Task} {i : Nat} {sw : World}

theorem Shows.frame (h : Shows ⟨sm, pre ++ t :: post, returned⟩ i sw)
    (hseg : sm'.manager.segments[i]? = sm.manager.segments[i]?)
    (hcall : (next.bind fun t' => t'.phase.callIn i) = t.phase.callIn i)
    (hnew : new.filterMap (Answer.okIn i) = []) :
    Shows ⟨sm', pre ++ (next.toList ++ post), returned ++ new⟩ i sw where
  segment := hseg.trans h.segment
  calls := by
    have hcalls := h.calls
    rw [callsIn, ← List.singleton_append, ← Option.toList_some, Lts.filterMap_replaced,
      Option.bind_some] at hcalls
    rwa [callsIn, Lts.filterMap_replaced, hcall]
  acknowledged := by
    rw [h.acknowledged, acknowledgedIn, acknowledgedIn, List.filterMap_append, hnew,
      List.append_nil]

theorem Shows.moved {call : Call} {s' : RecordSegment} {next' : Option Call}
    {acked : List (RecordOffset × Record)}
    (h : Shows ⟨sm, pre ++ t :: post, returned⟩ i sw) (ht : t.phase.callIn i = some call)
    (hadv : call.Advances H sw.segment next' s' acked)
    (hcall : (next.bind fun t' => t'.phase.callIn i) = next')
    (hnew : new.filterMap (Answer.okIn i) = acked) :
    ∃ k sw', sw.step H (.advance k) = some sw' ∧
      Shows ⟨{ sm with manager := sm.manager.put i s' }, pre ++ (next.toList ++ post),
        returned ++ new⟩ i sw' := by
  have hcalls := h.calls
  rw [callsIn, Lts.filterMap_here (f := fun t : Task => t.phase.callIn i) ht] at hcalls
  have hmem : call ∈ sw.calls :=
    hcalls.mem_iff.mpr (List.mem_append_right _ List.mem_cons_self)
  obtain ⟨k, pre', post', sw', hsw, hstep, hseg, hcalls', hack⟩ := hadv.step hmem
  refine ⟨k, sw', hstep, ?_, ?_, ?_⟩
  · have hi : i < sm.manager.segments.length := (List.getElem?_eq_some_iff.mp h.segment).1
    rw [hseg]
    exact List.getElem?_set_self hi
  · rw [hsw] at hcalls
    have hothers := (List.perm_middle.symm.trans (hcalls.trans List.perm_middle)).cons_inv
    rw [hcalls', callsIn, Lts.filterMap_replaced, hcall]
    refine List.perm_append_comm_assoc _ _ _ |>.trans ?_
    exact (hothers.append_left _).trans (List.perm_append_comm_assoc _ _ _)
  · rw [hack, h.acknowledged, acknowledgedIn, acknowledgedIn, List.filterMap_append, hnew]

theorem Shows.started {r : Record} (h : Shows ⟨sm, pre ++ t :: post, returned⟩ i sw)
    (ht : t.phase.callIn i = none) (built : r.Valid) :
    ∃ sw', sw.step H (.start r built) = some sw' ∧
      Shows ⟨{ sm with manager := sm.manager.put i (Call.start H sw.segment r).2 },
        pre ++ (Option.toList (some ⟨r, .appending i (Call.start H sw.segment r).1⟩) ++ post),
        returned⟩ i sw' := by
  have hcalls := h.calls
  rw [callsIn, Lts.filterMap_left (f := fun t : Task => t.phase.callIn i) ht] at hcalls
  refine ⟨_, rfl, ?_, ?_, h.acknowledged⟩
  · have hi : i < sm.manager.segments.length := (List.getElem?_eq_some_iff.mp h.segment).1
    exact List.getElem?_set_self hi
  · have hhere : Phase.callIn i (.appending i (Call.start H sw.segment r).1)
        = some (Call.start H sw.segment r).1 := if_pos rfl
    rw [callsIn, Lts.filterMap_replaced, Option.bind_some, hhere]
    exact (List.perm_append_singleton _ _).trans ((hcalls.cons _).trans List.perm_middle.symm)

theorem Kept.quiet (h : Kept H ok ⟨sm, pre ++ t :: post, returned⟩) (next : Option Task)
    (new : List (Record × Answer)) {locked : Bool} {current : Option Nat}
    (hcurrent : ∃ i, current = some i ∧ i < sm.manager.segments.length)
    (ht : ∀ i, t.phase.callIn i = none) (hnext : ∀ t', next = some t' →
      t'.record = t.record ∧ (∀ i, t'.phase.callIn i = none) ∧ t'.Fine sm.manager)
    (hnew : ∀ x ∈ new, x.2.segment = none)
    (hlock : Lts.Locked (fun t : Task => t.phase.inside) (pre ++ (next.toList ++ post)) locked) :
    Kept H ok ⟨⟨{ sm.manager with currentSegment := current }, locked⟩,
      pre ++ (next.toList ++ post), returned ++ new⟩ where
  valid := by
    intro t' ht'
    rcases Lts.mem_replaced ht' with hn | hother
    · rw [(hnext t' hn).1]
      exact h.valid t (List.mem_append_right _ List.mem_cons_self)
    · exact Lts.forall_others h.valid t' hother
  segments := by
    intro i hi
    obtain ⟨sw, hshows, hreach⟩ := h.segments i hi
    refine ⟨sw, hshows.frame rfl ?_ ?_, hreach⟩
    · rw [ht i]
      cases next with
      | none => rfl
      | some t' => exact (hnext t' rfl).2.1 i
    · refine List.filterMap_eq_nil_iff.mpr (fun x hx => ?_)
      obtain ⟨r, segment, result⟩ := x
      obtain rfl : segment = none := hnew _ hx
      rfl
  current := hcurrent
  there := by
    intro x hx i hi
    rcases List.mem_append.mp hx with hx | hx
    · exact h.there x hx i hi
    · rw [hnew x hx] at hi
      cases hi
  fine := by
    intro t' ht'
    rcases Lts.mem_replaced ht' with hn | hother
    · exact (hnext t' hn).2.2.congr rfl rfl rfl rfl
    · exact (Lts.forall_others h.fine t' hother).congr rfl rfl rfl rfl
  lock := hlock

theorem Kept.touched (h : Kept H ok ⟨sm, pre ++ t :: post, returned⟩) (next : Option Task)
    (new : List (Record × Answer)) (s' : RecordSegment)
    (hi : i < sm.manager.segments.length) (hother : ∀ j, j ≠ i → t.phase.callIn j = none)
    (hsegment : ∃ sw', Shows ⟨{ sm with manager := sm.manager.put i s' },
      pre ++ (next.toList ++ post), returned ++ new⟩ i sw' ∧
        sm.manager.SegmentReaches H ok i sw')
    (hout : t.phase.inside = false) (hnext : ∀ t', next = some t' → t'.record = t.record ∧
      (∀ j, j ≠ i → t'.phase.callIn j = none) ∧ t'.phase.inside = false ∧ t'.Fine sm.manager)
    (hnew : ∀ x ∈ new, x.2.segment = some i) :
    Kept H ok ⟨{ sm with manager := sm.manager.put i s' }, pre ++ (next.toList ++ post),
      returned ++ new⟩ := by
  have hlen : (sm.manager.put i s').segments.length = sm.manager.segments.length :=
    List.length_set
  refine ⟨?_, ?_, ?_, ?_, ?_, ?_⟩
  · intro t' ht'
    rcases Lts.mem_replaced ht' with hn | hother
    · rw [(hnext t' hn).1]
      exact h.valid t (List.mem_append_right _ List.mem_cons_self)
    · exact Lts.forall_others h.valid t' hother
  · intro j hj
    by_cases hji : j = i
    · subst hji
      exact hsegment
    · obtain ⟨sw, hshows, hreach⟩ := h.segments j (hlen ▸ hj)
      refine ⟨sw, hshows.frame ?_ ?_ ?_, hreach⟩
      · exact List.getElem?_set_ne (Ne.symm hji)
      · rw [hother j hji]
        cases next with
        | none => rfl
        | some t' => exact (hnext t' rfl).2.1 j hji
      · refine List.filterMap_eq_nil_iff.mpr (fun x hx => ?_)
        obtain ⟨r, segment, result⟩ := x
        obtain rfl : segment = some i := hnew _ hx
        rcases result with _ | _ | o
        · rfl
        · rfl
        · exact if_neg (Ne.symm hji)
  · obtain ⟨j, hcur, hlt⟩ := h.current
    exact ⟨j, hcur, hlen ▸ hlt⟩
  · intro x hx j hj
    rcases List.mem_append.mp hx with hx | hx
    · exact hlen ▸ h.there x hx j hj
    · rw [hnew x hx] at hj
      cases hj
      exact hlen ▸ hi
  · intro t' ht'
    rcases Lts.mem_replaced ht' with hn | hother
    · exact (hnext t' hn).2.2.2.congr hlen rfl rfl rfl
    · exact (Lts.forall_others h.fine t' hother).congr hlen rfl rfl rfl
  · refine Lts.Locked.stays h.lock ?_
    rw [hout]
    cases next with
    | none => rfl
    | some t' => exact (hnext t' rfl).2.2.1

theorem Kept.pushed (h : Kept H ok ⟨sm, pre ++ t :: post, returned⟩) {segment : RecordSegment}
    (ht : t.phase = .pushing segment) :
    Kept H ok ⟨{ sm with
      manager := { sm.manager with segments := sm.manager.segments ++ [segment] } },
      pre ++ (Option.toList (some ⟨t.record, .switching sm.manager.segments.length⟩) ++ post),
      returned⟩ := by
  have hlen : (sm.manager.segments ++ [segment]).length = sm.manager.segments.length + 1 :=
    List.length_append
  have hmem : t ∈ pre ++ t :: post := List.mem_append_right _ List.mem_cons_self
  have hin : t.phase.inside = true := by rw [ht]; rfl
  have hnone : ∀ i, t.phase.callIn i = none := fun i => by rw [ht]; rfl
  obtain ⟨hlocked, hothers⟩ := h.lock.others_outside hin
  refine ⟨?_, ?_, ?_, ?_, ?_, ?_⟩
  · exact Lts.forall_moved (Lts.forall_others h.valid) (h.valid t hmem)
  · intro i hi
    rcases Nat.lt_succ_iff_lt_or_eq.mp (hlen ▸ hi) with hi | rfl
    · obtain ⟨sw, hshows, hreach⟩ := h.segments i hi
      refine ⟨sw, ?_, hreach⟩
      have hnew : ([] : List (Record × Answer)).filterMap (Answer.okIn i) = [] := rfl
      rw [← List.append_nil returned]
      exact hshows.frame (List.getElem?_append_left hi) (hnone i).symm hnew
    · have hfine := h.fine t hmem
      obtain ⟨r, phase⟩ := t
      obtain rfl : phase = .pushing segment := ht
      obtain ⟨fs, hnew⟩ := hfine
      refine ⟨World.ofSegment segment, ⟨List.getElem?_concat_length, ?_, ?_⟩,
        fs, segment, hnew, .refl _⟩
      · refine .of_eq (Eq.symm (List.filterMap_eq_nil_iff.mpr ?_))
        intro t' ht'
        rcases Lts.mem_split ht' with rfl | ht'
        · rfl
        · have hf := Lts.forall_others h.fine t' ht'
          obtain ⟨r', phase'⟩ := t'
          cases phase' with
          | appending i call => exact if_neg (Nat.ne_of_lt hf.1)
          | looking | starting | waiting | checking | counting | creating | pushing
          | switching => rfl
      · refine Eq.symm (List.filterMap_eq_nil_iff.mpr ?_)
        rintro ⟨r', segment', result⟩ hx
        have hthere := h.there _ hx
        rcases segment' with _ | j
        · rfl
        · rcases result with _ | _ | o
          · rfl
          · rfl
          · exact if_neg (Nat.ne_of_lt (hthere j rfl))
  · obtain ⟨i, hcur, hlt⟩ := h.current
    exact ⟨i, hcur, hlen ▸ Nat.lt_succ_of_lt hlt⟩
  · intro x hx i hi
    exact hlen ▸ Nat.lt_succ_of_lt (h.there x hx i hi)
  · refine Lts.forall_moved ?_ ?_
    · intro t' ht'
      exact (Lts.forall_others h.fine t' ht').grown (hothers t' ht') (hlen ▸ Nat.le_succ _)
    · exact Nat.lt_of_lt_of_eq (Nat.lt_succ_self _) hlen.symm
  · exact Lts.Locked.stays h.lock hin.symm

theorem Kept.moved (h : Kept H ok ⟨sm, pre ++ t :: post, returned⟩) (next : Option Task)
    (new : List (Record × Answer)) (hadv : ∀ sw k, ok sw (.advance k)) {call : Call} {s s' : RecordSegment}
    {next' : Option Call} {acked : List (RecordOffset × Record)} (ht : t.phase = .appending i call)
    (hget : sm.manager.segments[i]? = some s) (hmove : call.Advances H s next' s' acked)
    (hnext : ∀ t', next = some t' → t'.record = t.record ∧
      (∀ j, j ≠ i → t'.phase.callIn j = none) ∧ t'.phase.inside = false ∧ t'.Fine sm.manager)
    (hcall : (next.bind fun t' => t'.phase.callIn i) = next')
    (hnew : ∀ x ∈ new, x.2.segment = some i) (hacked : new.filterMap (Answer.okIn i) = acked) :
    Kept H ok ⟨{ sm with manager := sm.manager.put i s' }, pre ++ (next.toList ++ post),
      returned ++ new⟩ := by
  have hi : i < sm.manager.segments.length := (List.getElem?_eq_some_iff.mp hget).1
  refine h.touched next new s' hi ?_ ?_ (by rw [ht]; rfl) hnext hnew
  · intro j hj
    rw [ht]
    exact if_neg (Ne.symm hj)
  · obtain ⟨sw, hshows, fs, s₀, hs₀, hreach⟩ := h.segments i hi
    cases hget.symm.trans hshows.segment
    have hhere : t.phase.callIn i = some call := by
      rw [ht]
      exact if_pos rfl
    obtain ⟨k, sw', hstep, hshows'⟩ := hshows.moved hhere hmove hcall hacked
    exact ⟨sw', hshows', fs, s₀, hs₀, hreach.snoc (hadv sw k) hstep⟩

/-- What a step of a task leaves. -/
def after (w : Partition) (pre : List Task) (r : Record) (post : List Task) :
    (Phase ⊕ Answer) × SharedManager → Partition
  | (.inl phase, shared) => ⟨shared, pre ++ ⟨r, phase⟩ :: post, w.returned⟩
  | (.inr answer, shared) => ⟨shared, pre ++ post, w.returned ++ [(r, answer)]⟩

theorem step_cases {a : Act} (h : w.step H a = some w') :
    (∃ r built, a = .start r built ∧ w' = { w with tasks := w.tasks ++ [⟨r, .looking⟩] }) ∨
    ∃ k fs t pre post x, a = .advance k fs ∧ w.tasks[k]? = some t ∧
      w.tasks = pre ++ t :: post ∧ t.phase.step H fs t.record w.shared = some x ∧
      w' = w.after pre t.record post x := by
  cases a with
  | start r built =>
      cases h
      exact Or.inl ⟨r, built, rfl, rfl⟩
  | advance k fs =>
      refine Or.inr ?_
      cases hk : w.tasks[k]? with
      | none => simp only [step, hk] at h; cases h
      | some t =>
          obtain ⟨pre, post, htasks, hset, herase⟩ := Lts.exists_split hk
          rcases hphase : t.phase.step H fs t.record w.shared with _ | ⟨phase | answer, shared⟩
          · simp only [step, hk, hphase] at h
            cases h
          · simp only [step, hk, hphase, hset] at h
            cases h
            exact ⟨k, fs, t, pre, post, _, rfl, hk, htasks, hphase, rfl⟩
          · simp only [step, hk, hphase, herase] at h
            cases h
            exact ⟨k, fs, t, pre, post, _, rfl, hk, htasks, hphase, rfl⟩

/-- **The step lemma.** -/
theorem Kept.step (h : w.Kept H ok) {a : Act} (hadv : ∀ sw k, ok sw (.advance k))
    (hstart : ∀ k fs r i sw built, a = .advance k fs → w.tasks[k]? = some ⟨r, .starting i⟩ →
      w.Shows i sw → ok sw (.start r built))
    (hstep : w.step H a = some w') : w'.Kept H ok := by
  rcases step_cases hstep with ⟨r, built, rfl, rfl⟩ |
    ⟨k, fs, t, pre, post, x, rfl, hk, htasks, hphase, rfl⟩
  · obtain ⟨hvalid, hsegments, hcurrent, hthere, hfine, hlock⟩ := h
    refine ⟨?_, ?_, hcurrent, hthere, ?_, ?_⟩
    · exact List.forall_mem_append.mpr ⟨hvalid, List.forall_mem_singleton.mpr built⟩
    · intro i hi
      obtain ⟨sw, hshows, hreach⟩ := hsegments i hi
      refine ⟨sw, ⟨hshows.segment, ?_, hshows.acknowledged⟩, hreach⟩
      have hcalls := hshows.calls
      rw [callsIn] at hcalls
      rw [callsIn, List.filterMap_append]
      simpa only [List.filterMap_cons, List.filterMap_nil, Phase.callIn, List.append_nil]
        using hcalls
    · exact List.forall_mem_append.mpr ⟨hfine, List.forall_mem_singleton.mpr trivial⟩
    · rw [Lts.Locked, List.countP_append]
      exact hlock
  have hmem : t ∈ w.tasks := htasks ▸ List.mem_append_right _ List.mem_cons_self
  have heffect := h.effect hmem hphase
  have hvalid := h.valid t hmem
  obtain ⟨sm, tasks, returned⟩ := w
  obtain rfl : tasks = pre ++ t :: post := htasks
  have hcurrent := h.current
  cases heffect with
  | moved p hnone hnone' hin hfine =>
      have hq := h.quiet (some ⟨t.record, p⟩) [] hcurrent hnone
        (by rintro t' ⟨⟩; exact ⟨rfl, hnone', hfine⟩) (by simp) (h.lock.stays hin)
      rwa [List.append_nil] at hq
  | acquired p hnone hnone' hin hfree hfine =>
      have hlock := h.lock
      rw [hfree] at hlock
      have hq := h.quiet (some ⟨t.record, p⟩) [] hcurrent hnone
        (by rintro t' ⟨⟩; exact ⟨rfl, hnone', hfine⟩) (by simp) (hlock.acquired hin)
      rwa [List.append_nil] at hq
  | pushed segment ht => exact h.pushed ht
  | released i hnone hin hlt =>
      have hq := h.quiet (some ⟨t.record, .looking⟩) [] ⟨i, rfl, hlt⟩ hnone
        (by rintro t' ⟨⟩; exact ⟨rfl, fun _ => rfl, trivial⟩) (by simp) (h.lock.released hin rfl)
      rwa [List.append_nil] at hq
  | refused e hnone hin =>
      exact h.quiet none _ hcurrent hnone (by intro t' ht'; cases ht')
        (List.forall_mem_singleton.mpr rfl) (h.lock.released hin rfl)
  | started i s ht hget =>
      have hi : i < sm.manager.segments.length := (List.getElem?_eq_some_iff.mp hget).1
      have hq := h.touched (some ⟨t.record, .appending i (Call.start H s t.record).1⟩) []
        (Call.start H s t.record).2 hi
        (by intro j _; rw [ht]; rfl) ?_ (by rw [ht]; rfl) ?_ (by simp)
      · rw [List.append_nil] at hq
        exact hq
      · obtain ⟨sw, hshows, fs', s₀, hs₀, hreach⟩ := h.segments i hi
        cases hget.symm.trans hshows.segment
        have hnone : t.phase.callIn i = none := by rw [ht]; rfl
        obtain ⟨sw', hstep', hshows'⟩ := hshows.started (H := H) hnone hvalid
        have hok : ok sw (.start t.record hvalid) := by
          refine hstart k fs t.record i sw hvalid rfl ?_ hshows
          rw [hk]
          obtain ⟨r, phase⟩ := t
          obtain rfl : phase = .starting i := ht
          rfl
        refine ⟨sw', ?_, fs', s₀, hs₀, hreach.snoc hok hstep'⟩
        rwa [List.append_nil]
      · rintro t' ⟨⟩
        exact ⟨rfl, fun j hj => if_neg (Ne.symm hj), rfl, hi, Call.start_record H s t.record⟩
  | advanced i call call' s s' ht hget hcall =>
      have hfine := h.fine t hmem
      have hq := h.moved (some ⟨t.record, .appending i call'⟩) [] hadv ht hget
        (.moved call' s' hcall) ?_ (if_pos rfl) (by simp) rfl
      · rwa [List.append_nil] at hq
      · rintro t' ⟨⟩
        obtain ⟨r, phase⟩ := t
        obtain rfl : phase = .appending i call := ht
        exact ⟨rfl, fun j hj => if_neg (Ne.symm hj), rfl, hfine.1,
          (Call.advance_record hcall).trans hfine.2⟩
  | fell i call s s' needed available ht hget hcall =>
      have hq := h.moved (some ⟨t.record, .waiting⟩) [] hadv ht hget
        (.answered _ s' hcall) ?_ rfl (by simp) rfl
      · rwa [List.append_nil] at hq
      · rintro t' ⟨⟩
        exact ⟨rfl, fun _ _ => rfl, rfl, trivial⟩
  | answered i call s s' o ht hget hcall =>
      have hfine := h.fine t hmem
      refine h.moved none _ hadv ht hget (.answered _ s' hcall)
        (by intro t' ht'; cases ht') rfl
        (List.forall_mem_singleton.mpr rfl) ?_
      obtain ⟨r, phase⟩ := t
      obtain rfl : phase = .appending i call := ht
      rw [hfine.2]
      simp only [List.filterMap_cons, List.filterMap_nil, Answer.okIn, if_true, World.okOf,
        Option.toList_some]
  | panicked i call s ht hget hcall =>
      have hi : i < sm.manager.segments.length := (List.getElem?_eq_some_iff.mp hget).1
      have hself : sm.manager.put i s = sm.manager := by
        rw [SegmentManager.put, (List.getElem?_eq_some_iff.mp hget).2.symm,
          List.set_getElem_self]
      have hq := h.moved none [(t.record, ⟨some i, none⟩)] hadv ht hget
        (.panicked hcall) (by intro t' ht'; cases ht') rfl (List.forall_mem_singleton.mpr rfl) rfl
      rwa [hself] at hq

theorem Kept.fresh {fs : Files} {partitionId segmentSize : Nat} {storageDir : String}
    {indexEnabled : Bool} {m : SegmentManager}
    (hnew : SegmentManager.new fs partitionId segmentSize storageDir indexEnabled = .ok m) :
    (ofManager m).Kept H ok := by
  simp only [SegmentManager.new] at hnew
  split at hnew
  · cases hnew
  obtain ⟨segment, hsegment, rfl⟩ := SegmentManager.createNewSegment_ok hnew
  refine ⟨List.forall_mem_nil _, ?_, ⟨0, rfl, Nat.zero_lt_one⟩, List.forall_mem_nil _,
    List.forall_mem_nil _, rfl⟩
  intro i hi
  obtain rfl : i = 0 := Nat.lt_one_iff.mp hi
  exact ⟨World.ofSegment segment, ⟨rfl, .nil, rfl⟩, fs, segment, hsegment, .refl _⟩

/-- What a task returns: where its record is, that a file could not be created, or a
panic in a segment. -/
inductive Good : Answer → Prop where
  | stored (i : Nat) (o : RecordOffset) : Good ⟨some i, some (.ok o)⟩
  | refused (e : FileError) : Good ⟨none, some (.error (.ofFile e))⟩
  | panicked (i : Nat) : Good ⟨some i, none⟩

theorem Kept.good (h : w.Kept H ok) {a : Act} (hgood : ∀ x ∈ w.returned, Good x.2)
    (hstep : w.step H a = some w') : ∀ x ∈ w'.returned, Good x.2 := by
  rcases step_cases hstep with ⟨r, built, rfl, rfl⟩ |
    ⟨k, fs, t, pre, post, x, rfl, hk, htasks, hphase, rfl⟩
  · exact hgood
  have hmem : t ∈ w.tasks := htasks ▸ List.mem_append_right _ List.mem_cons_self
  cases h.effect hmem hphase with
  | moved | acquired | pushed | released | started | advanced | fell => exact hgood
  | refused e =>
      exact List.forall_mem_append.mpr ⟨hgood, List.forall_mem_singleton.mpr (.refused e)⟩
  | answered i _ _ _ o =>
      exact List.forall_mem_append.mpr ⟨hgood, List.forall_mem_singleton.mpr (.stored i o)⟩
  | panicked i =>
      exact List.forall_mem_append.mpr ⟨hgood, List.forall_mem_singleton.mpr (.panicked i)⟩

theorem Tiled.advance_ne_none {rs : List Record} {call : Call} (h : World.Tiled H sw rs)
    (hmem : call ∈ sw.calls) : call.advance H sw.segment ≠ none := by
  intro hnone
  cases call with
  | counting | indexing | rollingBack => cases hnone
  | writing r offset =>
      obtain ⟨pre, post, hcalls⟩ := List.append_of_mem hmem
      obtain ⟨file, hstore, -⟩ := h.copy hcalls
      simp only [Call.advance, hstore] at hnone
      cases hnone

/-- A segment whose appends were granted with nothing owed is tiled. -/
theorem tiled_of_reaches {m : SegmentManager}
    (h : m.SegmentReaches H World.GrantsUnowed i sw) : ∃ rs, World.Tiled H sw rs := by
  obtain ⟨fs, s, hnew, hreach⟩ := h
  refine hreach.invariant (fun sw => ∃ rs, World.Tiled H sw rs) ?_ ⟨[], World.Tiled.start hnew⟩
  rintro sw a sw' ⟨rs, h⟩ ha hstep
  obtain ⟨rs', h', -⟩ := h.step ha hstep
  exact ⟨rs', h'⟩

/-- Where nothing is owed when an append is granted, no task panics. -/
theorem Kept.returns (h : w.Kept H World.GrantsUnowed) {a : Act}
    (hsome : ∀ x ∈ w.returned, x.2.result ≠ none) (hstep : w.step H a = some w') :
    ∀ x ∈ w'.returned, x.2.result ≠ none := by
  rcases step_cases hstep with ⟨r, built, rfl, rfl⟩ |
    ⟨k, fs, t, pre, post, x, rfl, hk, htasks, hphase, rfl⟩
  · exact hsome
  have hmem : t ∈ w.tasks := htasks ▸ List.mem_append_right _ List.mem_cons_self
  cases h.effect hmem hphase with
  | moved | acquired | pushed | released | started | advanced | fell => exact hsome
  | refused e =>
      exact List.forall_mem_append.mpr ⟨hsome, List.forall_mem_singleton.mpr nofun⟩
  | answered i _ _ _ o =>
      exact List.forall_mem_append.mpr ⟨hsome, List.forall_mem_singleton.mpr nofun⟩
  | panicked i call s ht hget hnone =>
      obtain ⟨sw, hshows, hreach⟩ := h.segments i (List.getElem?_eq_some_iff.mp hget).1
      cases hget.symm.trans hshows.segment
      obtain ⟨rs, htiled⟩ := tiled_of_reaches hreach
      refine absurd hnone (Tiled.advance_ne_none htiled (hshows.calls.mem_iff.mpr ?_))
      refine List.mem_filterMap.mpr ⟨t, hmem, ?_⟩
      rw [ht]
      exact if_pos rfl

theorem GrantsUnowed.segment {a : Act} (h : w.GrantsUnowed a) {k : Nat} {fs : Files} {r : Record}
    (ha : a = .advance k fs) (hk : w.tasks[k]? = some ⟨r, .starting i⟩) (hshows : w.Shows i sw)
    (built : r.Valid) : sw.GrantsUnowed (.start r built) := by
  subst ha
  intro hspace c hc
  have hstarting : w.starting (.advance k fs) = some (r, i, sw.segment) := by
    simp only [starting, hk, hshows.segment]
  exact h _ hstarting hspace c (hshows.calls.mem_iff.mp hc)

end

/-! ## Every interleaving

A segment shows an interleaving of the calls in it, so what was proved of one segment
holds of each; and the calls of different segments are in different files. -/

/-- What holds whatever the order of the steps: one task is inside the creation lock
while it is taken and none while it is not, each segment is in a file of its own and
shows an interleaving of the appends in it, and no task is told of a full segment. -/
structure Orderly (H : Hasher) (w : Partition) : Prop where
  exclusive : w.tasks.countP (fun t => t.phase.inside) = if w.shared.locked then 1 else 0
  current : ∃ i, w.shared.manager.currentSegment = some i ∧
    i < w.shared.manager.segments.length
  segments : ∀ i s, w.shared.manager.segments[i]? = some s →
    s.path = w.shared.manager.segmentPath i ∧
      ∃ sw, w.Shows i sw ∧ w.shared.manager.SegmentReaches H (fun _ _ => True) i sw
  files : ∀ (i j : Nat) (s t : RecordSegment), w.shared.manager.segments[i]? = some s →
    w.shared.manager.segments[j]? = some t → s.path = t.path → i = j
  neverFull : ∀ x ∈ w.returned, ∀ needed available,
    x.2.result ≠ some (.error (.segmentFull needed available))

/-- What readers and writers of a partition count on. -/
structure Sound (H : Hasher) (w : Partition) : Prop where
  segments : ∀ i, i < w.shared.manager.segments.length → ∃ sw, w.Shows i sw ∧ sw.Sound H
  answers : ∀ x ∈ w.returned,
    (∃ i o, x.2 = ⟨some i, some (.ok o)⟩ ∧ i < w.shared.manager.segments.length) ∨
      ∃ e, x.2 = ⟨none, some (.error (.ofFile e))⟩

theorem segmentPath_injective {m : SegmentManager} {i j : Nat}
    (h : m.segmentPath i = m.segmentPath j) : i = j := by
  simp only [SegmentManager.segmentPath, String.append_assoc] at h
  rw [String.append_right_inj, String.append_right_inj, String.append_right_inj,
    String.append_right_inj, String.append_left_inj] at h
  exact PersistQ.SegmentManager.toString_injective h

theorem Kept.orderly {H : Hasher} {w : Partition} (h : w.Kept H (fun _ _ => True))
    (hgood : ∀ x ∈ w.returned, Good x.2) : w.Orderly H where
  exclusive := h.lock
  current := h.current
  segments := by
    intro i s hs
    obtain ⟨sw, hshows, hreach⟩ := h.segments i (List.getElem?_eq_some_iff.mp hs).1
    cases hs.symm.trans hshows.segment
    exact ⟨hreach.path, sw, hshows, hreach⟩
  files := by
    intro i j s t hs ht hpath
    obtain ⟨sw, hshows, hreach⟩ := h.segments i (List.getElem?_eq_some_iff.mp hs).1
    obtain ⟨sw', hshows', hreach'⟩ := h.segments j (List.getElem?_eq_some_iff.mp ht).1
    cases hs.symm.trans hshows.segment
    cases ht.symm.trans hshows'.segment
    rw [hreach.path, hreach'.path] at hpath
    exact segmentPath_injective hpath
  neverFull := by
    intro x hx needed available
    obtain ⟨r, a⟩ := x
    cases hgood _ hx with
    | stored | panicked => nofun
    | refused e =>
        cases e with
        | opening | settingLen | mapping => nofun

/-- **A partition refines its segments.**  Whatever the order of the steps of any
number of appends to a new manager, one task is where segments are created while the
creation lock is taken and none while it is not, each segment is in a file of its own, and
it is in a state that an interleaving of appends to a fresh segment reaches, with the calls
that are in flight there and the records that were acknowledged there. -/
theorem partition_refines_segments (H : Hasher) (fs : Files) (partitionId segmentSize : Nat)
    (storageDir : String) (indexEnabled : Bool) (m : SegmentManager)
    (hnew : SegmentManager.new fs partitionId segmentSize storageDir indexEnabled = .ok m)
    (acts : List Act) (w : Partition) (hrun : Lts.run (step H) (ofManager m) acts = some w) :
    w.Orderly H := by
  have hkept : w.Kept H (fun _ _ => True) ∧ ∀ x ∈ w.returned, Good x.2 := by
    refine Lts.run_invariant
      (fun w => Kept H (fun _ _ => True) w ∧ ∀ x ∈ w.returned, Good x.2) ?_
      ⟨Kept.fresh hnew, List.forall_mem_nil _⟩ hrun
    rintro w a w' ⟨hkept, hgood⟩ hstep
    exact ⟨hkept.step (fun _ _ => trivial) (fun _ _ _ _ _ _ _ _ _ => trivial) hstep,
      hkept.good hgood hstep⟩
  exact hkept.1.orderly hkept.2

/-- Two tasks, of which the second finds the space gone and creates a segment, and the
first returns. -/
def twoTasks : List Act :=
  [.start ⟨1, [65]⟩ (by decide), .start ⟨2, List.replicate 10 0⟩ (by decide),
    .advance 0 Files.fresh, .advance 1 Files.fresh, .advance 0 Files.fresh,
    .advance 1 Files.fresh, .advance 0 Files.fresh, .advance 0 Files.fresh,
    .advance 0 Files.fresh] ++ List.replicate 12 (.advance 0 Files.fresh)

theorem partition_refines_segments_two : ∃ m w,
    SegmentManager.new Files.fresh 1 50 "data" true = .ok m ∧
    Lts.run (step crc32Hasher) (ofManager m) twoTasks = some w ∧
    w.tasks.length = 0 ∧ w.shared.manager.segments.length = 2 ∧ w.Orderly crc32Hasher := by
  refine ⟨_, _, rfl, rfl, rfl, rfl, ?_⟩
  exact partition_refines_segments crc32Hasher Files.fresh 1 50 "data" true _ rfl twoTasks _ rfl

end Partition

end Dolda.Storage
