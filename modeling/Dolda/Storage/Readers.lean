/-
# `Dolda.Storage.Readers` — readers beside the writers

`read_record` loads the write position and only then takes the map's lock, so
between the two other threads append and fail to.  A call of it is in one of two
places (`ReadCall`); an iterator is between two calls of `next` or inside the
read of one (`Scan`); and a state of the system is that of the writers with the
readers in flight and what reads have returned (`System`).

**The accounting.**  An append that fails owes its size until it gives it back,
and as long as it does the write position lies beyond the end of the segment
(`Accounted.beyond`).  A read that loads it there slices beyond the map and panics;
a second append that fetches it there reports a size that has wrapped around.
So a segment is safe to share for as long as nobody looks at the position while
space is owed, and no longer (`readers_and_writers_safe`).
-/
import Dolda.Storage.Concurrent
import Dolda.Storage.Iterate

namespace Dolda.Storage

open Memory

/-! ## The steps of a reader

A read loads the write position, and then slices the mapped file, which may be written
to in between; so these are two steps.  An iterator is at an offset of its own, and does
not advance on an error. -/

/-- How far a call of `read_record` has come. -/
inductive ReadCall where
  /-- Before the write position is loaded. -/
  | loading (offset : Nat)
  /-- Below it; before the bytes up to it are sliced and decoded. -/
  | slicing (offset currentPos : Nat)
deriving DecidableEq

/-- The next shared step of a read: on to the next point, or the result, `none`
being a panic. -/
def ReadCall.step (H : Hasher) (s : RecordSegment) :
    ReadCall → ReadCall ⊕ Option (Except StorageError Record)
  | loading offset =>
      let currentPos := s.writePos
      if currentPos ≤ offset then .inr (some (.error (.offsetOutOfBounds offset)))
      else .inl (slicing offset currentPos)
  | slicing offset currentPos =>
      match slice s.mmap offset currentPos with
      | none => .inr none
      | some data =>
          match Record.deserialize H data with
          | .error e => .inr (some (.error (.record e)))
          | .ok (record, _) => .inr (some (.ok record))

/-- An iterator, the read it is inside of, and what it has handed out. -/
structure Scan where
  it : RecordIterator
  call : Option ReadCall
  items : List ScanItem

namespace Scan

/-- What `next` makes of what its read returned. -/
def took (scan : Scan) : Except StorageError Record → Scan
  | .ok record =>
      let size := record.serializedSize
      { it := { scan.it with currentOffset := U64.add scan.it.currentOffset size }
        call := none
        items := scan.items ++ [.ok (⟨scan.it.currentOffset, size⟩, record)] }
  | .error e => { scan with call := none, items := scan.items ++ [.error e] }

/-- The scan after its next step, gone if that panics, and what a read returned
in it. -/
def step (H : Hasher) (s : RecordSegment) (scan : Scan) :
    Option Scan × List (Option (Except StorageError Record)) :=
  match scan.call with
  | none =>
      -- `next` compares its own two offsets
      if scan.it.endOffset ≤ scan.it.currentOffset then (some scan, [])
      else (some { scan with call := some (.loading scan.it.currentOffset) }, [])
  | some call =>
      match call.step H s with
      | .inl call => (some { scan with call := some call }, [])
      | .inr none => (none, [none])
      | .inr (some result) => (some (scan.took result), [some result])

end Scan

section
variable {H : Hasher} {s : RecordSegment}

/-- A read whose two steps are taken with no other in between. -/
def ReadCall.alone (H : Hasher) (s : RecordSegment) (call : ReadCall) :
    Option (Except StorageError Record) :=
  match call.step H s with
  | .inr result => result
  | .inl call =>
      match call.step H s with
      | .inr result => result
      | .inl _ => none

/-- A read that runs alone is `read_record`. -/
theorem readRecord_eq_alone (H : Hasher) (s : RecordSegment) (offset : Nat) :
    s.readRecord H offset = (ReadCall.loading offset).alone H s := by
  by_cases hle : s.writePos ≤ offset
  · simp only [ReadCall.alone, ReadCall.step, RecordSegment.readRecord, if_pos hle]
  simp only [ReadCall.alone, ReadCall.step, RecordSegment.readRecord, if_neg hle]
  cases slice s.mmap offset s.writePos with
  | none => rfl
  | some data =>
      cases hdec : Record.deserialize H data with
      | error e => simp only [hdec]
      | ok x => simp only [hdec]

/-- What `next` hands out is what a scan takes from its read. -/
theorem next_eq_took (H : Hasher) (s : RecordSegment) (it : RecordIterator)
    (hlt : it.currentOffset < it.endOffset) :
    it.next H s =
      match s.readRecord H it.currentOffset with
      | none => none
      | some result =>
          let scan := Scan.took ⟨it, none, []⟩ result
          some (scan.items.head?, scan.it) := by
  rw [RecordIterator.next, if_neg (Nat.not_le.mpr hlt)]
  rcases hread : s.readRecord H it.currentOffset with _ | e | r
  · simp only [hread]
  · simp only [hread]
    rfl
  · simp only [hread]
    rfl

end

/-- A thread inside `read_record`, or with an iterator. -/
inductive Reader where
  | reading (call : ReadCall)
  | scanning (scan : Scan)

namespace Reader

/-- The read it is inside of. -/
def call : Reader → Option ReadCall
  | reading call => some call
  | scanning scan => scan.call

/-- The reader after its next step, if it goes on, and what a read returned in
it. -/
def step (H : Hasher) (s : RecordSegment) :
    Reader → Option Reader × List (Option (Except StorageError Record))
  | reading call =>
      match call.step H s with
      | .inl call => (some (reading call), [])
      | .inr result => (none, [result])
  | scanning scan =>
      match scan.step H s with
      | (none, results) => (none, results)
      | (some scan, results) => (some (scanning scan), results)

end Reader

/-! ## The system -/

/-- The writers with their segment, the readers, and what calls of `read_record`
have returned, `none` being a panic. -/
structure System where
  writers : World
  readers : List Reader
  reads : List (Option (Except StorageError Record))

namespace System

/-- A label: a writer starts or steps, a thread calls `read_record` or
`iter_records`, or the `i`-th reader takes its next step. -/
inductive Act where
  | write (a : Storage.Act)
  | read (offset : Nat)
  | iterate
  | turn (i : Nat)

def ofSegment (s : RecordSegment) : System := ⟨World.ofSegment s, [], []⟩

def segment (sys : System) : RecordSegment := sys.writers.segment

def step (H : Hasher) (sys : System) : Act → Option System
  | .write a =>
      match sys.writers.step H a with
      | none => none
      | some writers => some { sys with writers }
  | .read offset => some { sys with readers := sys.readers ++ [.reading (.loading offset)] }
  | .iterate =>
      some { sys with readers := sys.readers ++ [.scanning ⟨sys.segment.iterRecords, none, []⟩] }
  | .turn i =>
      match sys.readers[i]? with
      | none => none
      | some reader =>
          match reader.step H sys.segment with
          | (none, results) =>
              some { sys with readers := sys.readers.eraseIdx i, reads := sys.reads ++ results }
          | (some reader, results) =>
              some { sys with readers := sys.readers.set i reader, reads := sys.reads ++ results }

/-- Nothing that a thread subtracts or slices is out of range, nothing panics,
and no size reported has wrapped around. -/
structure Safe (sys : System) : Prop where
  subtracts : ∀ r offset, .rollingBack r offset ∈ sys.writers.calls →
    offset ≤ sys.segment.maxSize
  reports : ∀ x ∈ sys.writers.returned, ∀ needed available,
    x.2 = some (.error (.segmentFull needed available)) → available ≤ sys.segment.maxSize
  appends : ∀ x ∈ sys.writers.returned, x.2 ≠ none
  slices : ∀ reader ∈ sys.readers, ∀ offset currentPos,
    reader.call = some (.slicing offset currentPos) →
      offset ≤ currentPos ∧ currentPos ≤ sys.segment.mmap.length
  reads : none ∉ sys.reads

/-- The offset at which the `i`-th reader is about to load the write position. -/
def loads (sys : System) (i : Nat) : Option Nat :=
  match sys.readers[i]? with
  | none => none
  | some reader =>
      match reader.call with
      | some (.loading offset) => some offset
      | some (.slicing _ _) | none => none

/-- No failed append still owes the space it reserved, when an append reserves
its own, and when a read at an offset below the write position loads it. -/
def GivenBack (sys : System) : Act → Prop
  | .write (.start _ _) => ∀ c ∈ sys.writers.calls, c.owed = 0
  | .turn i =>
      match sys.loads i with
      | none => True
      | some offset => offset < sys.segment.writePos → ∀ c ∈ sys.writers.calls, c.owed = 0
  | .write (.advance _) | .read _ | .iterate => True

instance (sys : System) : ∀ a : Act, Decidable (sys.GivenBack a)
  | .write (.start _ _) => inferInstanceAs (Decidable (∀ c ∈ sys.writers.calls, c.owed = 0))
  | .turn i =>
      match h : sys.loads i with
      | none => isTrue (by rw [GivenBack, h]; trivial)
      | some offset =>
          decidable_of_iff (offset < sys.segment.writePos → ∀ c ∈ sys.writers.calls, c.owed = 0)
            (by rw [GivenBack, h])
  | .write (.advance _) | .read _ | .iterate => isTrue trivial

end System

/-! ## What the writers keep

The account says which appends owe space and what the write position is without it.  An
append that finds the segment full comes to owe its size, giving it back settles the
account and reports what there is, and while an append owes no other finds any space. -/

namespace World

/-- At most one append owes space, and then the write position lies beyond the
segment; what has failed fetched a position inside it. -/
structure Accounted (w : World) : Prop where
  one : w.calls.countP (fun c => c.owed ≠ 0) ≤ 1
  beyond : (∃ c ∈ w.calls, c.owed ≠ 0) → w.segment.maxSize < w.segment.writePos ∧
    w.segment.writePos ≤ isizeMax + (recordHeaderSize + maxRecordSize)
  offsets : ∀ r offset, .rollingBack r offset ∈ w.calls → offset ≤ w.segment.maxSize
  reports : ∀ x ∈ w.returned, ∀ needed available,
    x.2 = some (.error (.segmentFull needed available)) → available ≤ w.segment.maxSize
  appends : ∀ x ∈ w.returned, x.2 ≠ none

section
variable {H : Hasher} {w w' : World} {a : Act} {rs : List Record} {r : Record} {offset : Nat}
  {call call' : Call} {pre post : List Call} {s' : RecordSegment}

theorem Tiled.advance_ne_none (h : Tiled H w rs) (hcalls : w.calls = pre ++ call :: post) :
    call.advance H w.segment ≠ none := by
  intro hnone
  cases call with
  | writing r offset =>
      obtain ⟨file, hstore, -⟩ := h.copy hcalls
      simp only [Call.advance, hstore] at hnone
      cases hnone
  | rollingBack | counting | indexing => cases hnone

theorem countP_owed {calls : List Call} (h : ∀ c ∈ calls, c.owed = 0) :
    calls.countP (fun c => c.owed ≠ 0) = 0 := by
  refine List.countP_eq_zero.mpr ?_
  intro c hc
  rw [decide_eq_true_iff]
  exact fun hne => hne (h c hc)

theorem Accounted.of_none (hnone : ∀ c ∈ w.calls, c.owed = 0)
    (hreports : ∀ x ∈ w.returned, ∀ needed available,
      x.2 = some (.error (.segmentFull needed available)) → available ≤ w.segment.maxSize)
    (happends : ∀ x ∈ w.returned, x.2 ≠ none) : Accounted w where
  one := by
    rw [countP_owed hnone]
    exact Nat.zero_le 1
  beyond := by
    rintro ⟨c, hc, hne⟩
    exact absurd (hnone c hc) hne
  offsets := by
    intro r offset hmem
    exact absurd (hnone _ hmem) (Call.owed_ne_zero_iff.mpr ⟨r, offset, rfl⟩)
  reports := hreports
  appends := happends

theorem Accounted.start_full (h : Accounted w) (ht : Tiled H w rs) (hr : r.Valid)
    (hnone : ∀ c ∈ w.calls, c.owed = 0) (hfull : w.segment.hasSpace r.serializedSize = false) :
    Accounted
      ⟨reserved w.segment r, w.calls ++ [.rollingBack r w.segment.writePos], w.returned⟩ := by
  have howed : w.owed = 0 := List.sum_eq_zero_iff_forall_eq_nat.mpr (by simpa using hnone)
  have hin := ht.inside
  rw [← ht.writePos_eq howed] at hin
  have hmax := w.segment.maxSize_le
  have hsize := hr.serializedSize_le
  rw [← Bool.not_eq_true, MappedFile.hasSpace_iff hin hr.size_le] at hfull
  refine ⟨?_, ?_, ?_, h.reports, h.appends⟩
  · rw [List.countP_append, countP_owed hnone, Nat.zero_add]
    exact List.countP_le_length
  · intro _
    show w.segment.maxSize < U64.add w.segment.writePos r.serializedSize ∧
      U64.add w.segment.writePos r.serializedSize ≤ _
    rw [MappedFile.add_of_le hin hr.size_le]
    omega
  · intro r' offset' hmem
    rcases List.mem_append.mp hmem with hmem | hmem
    · exact h.offsets r' offset' hmem
    · cases List.mem_singleton.mp hmem
      exact hin

theorem Accounted.quiet (h : Accounted w) (hcalls : w.calls = pre ++ call :: post)
    (hmax : s'.maxSize = w.segment.maxSize) (hpos : s'.writePos = w.segment.writePos)
    (next : List Call) (hnext : ∀ c ∈ next, c.owed = 0)
    (done : List (Record × Option (Except StorageError RecordOffset)))
    (hdone : ∀ x ∈ done, ∃ o, x.2 = some (.ok o)) :
    Accounted ⟨s', pre ++ (next ++ post), w.returned ++ done⟩ := by
  have hold : ∀ c ∈ pre ++ (next ++ post), c.owed ≠ 0 → c ∈ w.calls := by
    intro c hc hne
    rw [hcalls]
    rcases List.mem_append.mp hc with hc | hc
    · exact List.mem_append_left _ hc
    rcases List.mem_append.mp hc with hc | hc
    · exact absurd (hnext c hc) hne
    · exact List.mem_append_right _ (List.mem_cons_of_mem _ hc)
  refine ⟨?_, ?_, ?_, ?_, ?_⟩
  · have hone := h.one
    rw [hcalls, List.countP_append, List.countP_cons] at hone
    rw [List.countP_append, List.countP_append, countP_owed hnext]
    omega
  · rintro ⟨c, hc, hne⟩
    show s'.maxSize < s'.writePos ∧ s'.writePos ≤ _
    rw [hmax, hpos]
    exact h.beyond ⟨c, hold c hc hne, hne⟩
  · intro r offset hmem
    show offset ≤ s'.maxSize
    rw [hmax]
    exact h.offsets r offset (hold _ hmem (Call.owed_ne_zero_iff.mpr ⟨r, offset, rfl⟩))
  · intro x hx needed available hfull
    show available ≤ s'.maxSize
    rw [hmax]
    rcases List.mem_append.mp hx with hx | hx
    · exact h.reports x hx needed available hfull
    · obtain ⟨o, ho⟩ := hdone x hx
      cases ho.symm.trans hfull
  · intro x hx hpanic
    rcases List.mem_append.mp hx with hx | hx
    · exact h.appends x hx hpanic
    · obtain ⟨o, ho⟩ := hdone x hx
      cases ho.symm.trans hpanic

theorem Accounted.give_back (h : Accounted w)
    (hcalls : w.calls = pre ++ .rollingBack r offset :: post) :
    Accounted ⟨{ w.segment with toMappedFile := w.segment.release r.serializedSize }, pre ++ post,
      w.returned ++ [(r, some (.error
        (.segmentFull r.serializedSize (U64.sub w.segment.maxSize offset))))]⟩ := by
  have howing := Call.owed_ne_zero_iff.mpr ⟨r, offset, rfl⟩
  refine .of_none ?_ ?_ ?_
  · have hone := h.one
    rw [hcalls, List.countP_append, List.countP_cons, if_pos (decide_eq_true howing)] at hone
    have hnone : (pre ++ post).countP (fun c => c.owed ≠ 0) = 0 := by
      rw [List.countP_append]
      omega
    intro c hc
    exact Decidable.not_not.mp
      (fun hne => List.countP_eq_zero.mp hnone c hc (decide_eq_true hne))
  · intro x hx needed available hfull
    show available ≤ (w.segment.release r.serializedSize).maxSize
    rw [MappedFile.release_maxSize]
    rcases List.mem_append.mp hx with hx | hx
    · exact h.reports x hx needed available hfull
    · cases List.mem_singleton.mp hx
      cases hfull
      have hin := h.offsets r offset (hcalls ▸ List.mem_append_right _ List.mem_cons_self)
      have hmax := w.segment.maxSize_le
      simp only [isizeMax] at hmax
      rw [U64.sub_of_le hin (by omega)]
      exact Nat.sub_le _ _
  · intro x hx hpanic
    rcases List.mem_append.mp hx with hx | hx
    · exact h.appends x hx hpanic
    · cases List.mem_singleton.mp hx
      cases hpanic

/-- **The step lemma for the writers.** -/
theorem Accounted.step (h : Accounted w) (ht : Tiled H w rs)
    (hok : ∀ r built, a = .start r built → ∀ c ∈ w.calls, c.owed = 0)
    (hstep : w.step H a = some w') : Accounted w' := by
  rcases step_cases hstep with ⟨r, built, rfl, rfl⟩ | ⟨pre, call, post, -, hcalls, hcase⟩
  · have hnone := hok r built rfl
    have hover := w.segment.reserve_overflows r.serializedSize
    cases hspace : w.segment.hasSpace r.serializedSize with
    | false =>
        rw [Call.start_of_full (by rw [hover, hspace]; rfl)]
        exact h.start_full ht built hnone hspace
    | true =>
        rw [Call.start_of_fits (by rw [hover, hspace]; rfl)]
        refine .of_none ?_ ?_ h.appends
        · exact List.forall_mem_append.mpr ⟨hnone, List.forall_mem_singleton.mpr rfl⟩
        · show ∀ x ∈ w.returned, ∀ needed available, _ → available ≤ (w.segment.reserve _).maxSize
          rw [MappedFile.reserve_maxSize]
          exact h.reports
  · rcases hcase with ⟨hadv, -⟩ | ⟨call', segment, hadv, rfl⟩ | ⟨result, segment, hadv, rfl⟩
    · exact absurd hadv (ht.advance_ne_none hcalls)
    · obtain ⟨hmax, ⟨r, offset, -, hx, -⟩ | ⟨-, hpos, ⟨call'', hx, howed'⟩ | ⟨o, hx⟩⟩⟩ :=
        Call.advance_cases hadv
      · cases hx
      · cases hx
        have hquiet := h.quiet hcalls hmax hpos [call'] (List.forall_mem_singleton.mpr howed') []
          (fun x hx => absurd hx List.not_mem_nil)
        rwa [List.append_nil] at hquiet
      · cases hx
    · obtain ⟨hmax, ⟨r, offset, rfl, hx, rfl⟩ | ⟨-, hpos, ⟨call'', hx, -⟩ | ⟨o, hx⟩⟩⟩ :=
        Call.advance_cases hadv
      · cases hx
        exact h.give_back hcalls
      · cases hx
      · cases hx
        exact h.quiet hcalls hmax hpos [] (fun c hc => absurd hc List.not_mem_nil) _
          (List.forall_mem_singleton.mpr ⟨o, rfl⟩)

theorem step_maxSize (hstep : w.step H a = some w') :
    w'.segment.maxSize = w.segment.maxSize := by
  rcases step_cases hstep with ⟨r, built, rfl, rfl⟩ | ⟨pre, call, post, -, -, hcase⟩
  · exact Call.start_maxSize H w.segment r
  rcases hcase with ⟨-, rfl⟩ | ⟨call', segment, hadv, rfl⟩ | ⟨result, segment, hadv, rfl⟩
  · rfl
  · exact (Call.advance_cases hadv).1
  · exact (Call.advance_cases hadv).1

theorem Accounted.start_refused (h : Accounted w) (hr : r.Valid)
    (howing : ∃ c ∈ w.calls, c.owed ≠ 0) :
    Call.start H w.segment r = (.rollingBack r w.segment.writePos, reserved w.segment r) := by
  obtain ⟨hover, hle⟩ := h.beyond howing
  have hsize := hr.serializedSize_le
  have hadd : U64.add w.segment.writePos r.serializedSize
      = w.segment.writePos + r.serializedSize := by
    apply U64.add_of_lt
    simp only [isizeMax, recordHeaderSize, maxRecordSize] at hle
    simp only [recordHeaderSize, maxRecordSize] at hsize
    omega
  apply Call.start_of_full
  rw [w.segment.reserve_overflows, MappedFile.hasSpace, hadd]
  simp only [Bool.not_eq_true', decide_eq_false_iff_not, Nat.not_le]
  omega

end

end World

/-! ## What the readers keep

A reader is inside a read or between two, and a read about to slice has just loaded the
write position; only a slice out of range panics.  Looking at the position while space is
owed leads astray at once (`InOrder.astray`). -/

section
variable {H : Hasher} {s : RecordSegment} {call call' : ReadCall} {reader reader' : Reader}
  {offset currentPos : Nat} {results : List (Option (Except StorageError Record))}
  {result : Option (Except StorageError Record)}

/-- **What a read can do**: find its offset out of bounds, load the position, slice
out of range and panic, or decode. -/
theorem ReadCall.step_cases (H : Hasher) (s : RecordSegment) (call : ReadCall) :
    (∃ offset, call = .loading offset ∧ s.writePos ≤ offset ∧
      call.step H s = .inr (some (.error (.offsetOutOfBounds offset)))) ∨
    (∃ offset, call = .loading offset ∧ offset < s.writePos ∧
      call.step H s = .inl (.slicing offset s.writePos)) ∨
    (∃ offset currentPos, call = .slicing offset currentPos ∧
      slice s.mmap offset currentPos = none ∧ call.step H s = .inr none) ∨
    ∃ offset currentPos data, call = .slicing offset currentPos ∧
      slice s.mmap offset currentPos = some data ∧ call.step H s = .inr (some
        (match Record.deserialize H data with
          | .ok (r, _) => .ok r
          | .error e => .error (.record e))) := by
  cases call with
  | loading offset =>
      by_cases hle : s.writePos ≤ offset
      · exact Or.inl ⟨offset, rfl, hle, by rw [ReadCall.step]; exact if_pos hle⟩
      · exact Or.inr (Or.inl ⟨offset, rfl, Nat.not_le.mp hle, by
          rw [ReadCall.step]; exact if_neg hle⟩)
  | slicing offset currentPos =>
      cases hslice : slice s.mmap offset currentPos with
      | none =>
          exact Or.inr (Or.inr (Or.inl ⟨offset, currentPos, rfl, hslice, by
            simp only [ReadCall.step, hslice]⟩))
      | some data =>
          refine Or.inr (Or.inr (Or.inr ⟨offset, currentPos, data, rfl, hslice, ?_⟩))
          cases hdec : Record.deserialize H data with
          | error e => simp only [ReadCall.step, hslice, hdec]
          | ok x => simp only [ReadCall.step, hslice, hdec]

theorem Reader.step_on (hcall : reader.call = some call) (hstep : call.step H s = .inl call') :
    ∃ reader', reader.step H s = (some reader', []) ∧ reader'.call = some call' := by
  cases reader with
  | reading c =>
      cases hcall
      exact ⟨.reading call', by simp only [Reader.step, hstep], rfl⟩
  | scanning scan =>
      have hcall : scan.call = some call := hcall
      exact ⟨.scanning { scan with call := some call' },
        by simp only [Reader.step, Scan.step, hcall, hstep], rfl⟩

theorem Reader.step_returned (hcall : reader.call = some call)
    (hstep : call.step H s = .inr result) :
    (reader.step H s).2 = [result] ∧
      ∀ reader', (reader.step H s).1 = some reader' → reader'.call = none := by
  cases reader with
  | reading c =>
      cases hcall
      simp only [Reader.step, hstep]
      exact ⟨trivial, fun reader' h => by cases h⟩
  | scanning scan =>
      have hcall : scan.call = some call := hcall
      cases result with
      | none =>
          simp only [Reader.step, Scan.step, hcall, hstep]
          exact ⟨trivial, fun reader' h => by cases h⟩
      | some result =>
          simp only [Reader.step, Scan.step, hcall, hstep]
          refine ⟨trivial, ?_⟩
          intro reader' h
          cases h
          cases result with
          | error e => rfl
          | ok r => rfl

theorem Reader.step_idle (hcall : reader.call = none) : (reader.step H s).2 = [] ∧
    ∃ reader', (reader.step H s).1 = some reader' ∧
      (reader'.call = none ∨ ∃ offset, reader'.call = some (.loading offset)) := by
  cases reader with
  | reading c => cases hcall
  | scanning scan =>
      have hcall : scan.call = none := hcall
      by_cases hend : scan.it.endOffset ≤ scan.it.currentOffset
      · simp only [Reader.step, Scan.step, hcall, if_pos hend]
        exact ⟨trivial, _, rfl, Or.inl hcall⟩
      · simp only [Reader.step, Scan.step, hcall, if_neg hend]
        exact ⟨trivial, _, rfl, Or.inr ⟨_, rfl⟩⟩

theorem Reader.step_slicing (h : (reader.step H s).1 = some reader')
    (hcall' : reader'.call = some (.slicing offset currentPos)) :
    reader.call = some (.loading offset) ∧ offset < s.writePos ∧ currentPos = s.writePos := by
  cases hcall : reader.call with
  | none =>
      obtain ⟨-, reader'', h', hidle⟩ := Reader.step_idle (H := H) (s := s) hcall
      cases h.symm.trans h'
      rcases hidle with hnone | ⟨o, hload⟩
      · cases hnone.symm.trans hcall'
      · cases hload.symm.trans hcall'
  | some call =>
      rcases ReadCall.step_cases H s call with ⟨o, -, -, hstep⟩ | ⟨o, rfl, hlt, hstep⟩ |
        ⟨o, p, -, -, hstep⟩ | ⟨o, p, data, -, -, hstep⟩
      · cases ((Reader.step_returned hcall hstep).2 reader' h).symm.trans hcall'
      · obtain ⟨reader'', h', hon⟩ := Reader.step_on hcall hstep
        rw [h'] at h
        cases h
        cases hon.symm.trans hcall'
        exact ⟨rfl, hlt, rfl⟩
      · cases ((Reader.step_returned hcall hstep).2 reader' h).symm.trans hcall'
      · cases ((Reader.step_returned hcall hstep).2 reader' h).symm.trans hcall'

theorem Reader.step_panics (h : none ∈ (reader.step H s).2) :
    ∃ offset currentPos, reader.call = some (.slicing offset currentPos) ∧
      slice s.mmap offset currentPos = none := by
  cases hcall : reader.call with
  | none =>
      rw [(Reader.step_idle hcall).1] at h
      cases h
  | some call =>
      rcases ReadCall.step_cases H s call with ⟨o, -, -, hstep⟩ | ⟨o, rfl, hlt, hstep⟩ |
        ⟨o, p, rfl, hslice, hstep⟩ | ⟨o, p, data, -, -, hstep⟩
      · rw [(Reader.step_returned hcall hstep).1] at h
        cases List.mem_singleton.mp h
      · obtain ⟨reader'', h', -⟩ := Reader.step_on hcall hstep
        rw [h'] at h
        cases h
      · exact ⟨o, p, rfl, hslice⟩
      · rw [(Reader.step_returned hcall hstep).1] at h
        cases List.mem_singleton.mp h

end

namespace System

/-- What the steps of both keep. -/
structure InOrder (H : Hasher) (sys : System) : Prop where
  tiled : ∃ rs, sys.writers.Tiled H rs
  accounted : sys.writers.Accounted
  slices : ∀ reader ∈ sys.readers, ∀ offset currentPos,
    reader.call = some (.slicing offset currentPos) →
      offset ≤ currentPos ∧ currentPos ≤ sys.segment.mmap.length
  reads : none ∉ sys.reads

section
variable {H : Hasher} {sys sys' : System} {a : Act}

theorem InOrder.safe (h : sys.InOrder H) : sys.Safe :=
  ⟨h.accounted.offsets, h.accounted.reports, h.accounted.appends, h.slices, h.reads⟩

theorem InOrder.start {fs : Files} {path : String} {maxSize : Nat} {indexEnabled : Bool}
    {s : RecordSegment} (hnew : RecordSegment.new fs path maxSize indexEnabled = .ok s) :
    (ofSegment s).InOrder H := by
  refine ⟨⟨[], World.Tiled.start hnew⟩, .of_none ?_ ?_ ?_, ?_, List.not_mem_nil⟩
  · exact fun c hc => absurd hc List.not_mem_nil
  · exact fun x hx => absurd hx List.not_mem_nil
  · exact fun x hx => absurd hx List.not_mem_nil
  · exact fun reader hr => absurd hr List.not_mem_nil

theorem InOrder.write (h : sys.InOrder H) {a : Storage.Act} {writers : World}
    (hok : ∀ r built, a = .start r built → ∀ c ∈ sys.writers.calls, c.owed = 0)
    (hstep : sys.writers.step H a = some writers) : InOrder H { sys with writers } := by
  obtain ⟨rs, ht⟩ := h.tiled
  have hgrants : sys.writers.GrantsUnowed a := by
    cases a with
    | start r built => exact fun _ => hok r built rfl
    | advance i => trivial
  obtain ⟨rs', ht', -⟩ := ht.step hgrants hstep
  refine ⟨⟨rs', ht'⟩, h.accounted.step ht hok hstep, ?_, h.reads⟩
  intro reader hr offset currentPos hcall
  show offset ≤ currentPos ∧ currentPos ≤ writers.segment.mmap.length
  rw [writers.segment.mmap_length, World.step_maxSize hstep, ← sys.writers.segment.mmap_length]
  exact h.slices reader hr offset currentPos hcall

/-- **What a step does.** -/
theorem step_cases (h : sys.step H a = some sys') :
    (∃ b writers, a = .write b ∧ sys.writers.step H b = some writers ∧
      sys' = { sys with writers }) ∨
    (∃ offset, a = .read offset ∧
      sys' = { sys with readers := sys.readers ++ [.reading (.loading offset)] }) ∨
    (a = .iterate ∧ sys' =
      { sys with readers := sys.readers ++ [.scanning ⟨sys.segment.iterRecords, none, []⟩] }) ∨
    ∃ i reader pre post, a = .turn i ∧ sys.readers[i]? = some reader ∧
      sys.readers = pre ++ reader :: post ∧
      sys' = { sys with
        readers := pre ++ ((reader.step H sys.segment).1.toList ++ post)
        reads := sys.reads ++ (reader.step H sys.segment).2 } := by
  cases a with
  | write b =>
      cases hwrite : sys.writers.step H b with
      | none =>
          simp only [System.step, hwrite] at h
          cases h
      | some writers =>
          simp only [System.step, hwrite] at h
          cases h
          exact Or.inl ⟨b, writers, rfl, hwrite, rfl⟩
  | read offset =>
      cases h
      exact Or.inr (Or.inl ⟨offset, rfl, rfl⟩)
  | iterate =>
      cases h
      exact Or.inr (Or.inr (Or.inl ⟨rfl, rfl⟩))
  | turn i =>
      cases hreader : sys.readers[i]? with
      | none =>
          simp only [System.step, hreader] at h
          cases h
      | some reader =>
          obtain ⟨pre, post, hreaders, hset, herase⟩ := Lts.exists_split hreader
          refine Or.inr (Or.inr (Or.inr ⟨i, reader, pre, post, rfl, hreader, hreaders, ?_⟩))
          simp only [System.step, hreader, hset, herase] at h
          cases hgo : reader.step H sys.segment with
          | mk next results =>
              rw [hgo] at h
              cases next with
              | none =>
                  cases h
                  rfl
              | some reader' =>
                  cases h
                  rfl

theorem InOrder.turn (h : sys.InOrder H) {pre post : List Reader} {reader : Reader}
    (hreaders : sys.readers = pre ++ reader :: post)
    (hok : ∀ offset, reader.call = some (.loading offset) → offset < sys.segment.writePos →
      ∀ c ∈ sys.writers.calls, c.owed = 0) :
    (∀ reader', (reader.step H sys.segment).1 = some reader' → ∀ offset currentPos,
        reader'.call = some (.slicing offset currentPos) →
          offset ≤ currentPos ∧ currentPos ≤ sys.segment.mmap.length) ∧
      none ∉ sys.reads ++ (reader.step H sys.segment).2 := by
  have hmem : reader ∈ sys.readers := hreaders ▸ List.mem_append_right _ List.mem_cons_self
  constructor
  · intro reader' hstep offset currentPos hcall
    obtain ⟨hload, hlt, rfl⟩ := Reader.step_slicing hstep hcall
    obtain ⟨rs, ht⟩ := h.tiled
    have howed : sys.writers.owed = 0 :=
      List.sum_eq_zero_iff_forall_eq_nat.mpr (by simpa using hok offset hload hlt)
    refine ⟨hlt.le, ?_⟩
    rw [sys.segment.mmap_length]
    exact (ht.writePos_eq howed).le.trans ht.inside
  · intro hpanic
    rcases List.mem_append.mp hpanic with hpanic | hpanic
    · exact h.reads hpanic
    · obtain ⟨offset, currentPos, hcall, hslice⟩ := Reader.step_panics hpanic
      obtain ⟨hle, hin⟩ := h.slices reader hmem offset currentPos hcall
      rw [slice_of_le hle hin] at hslice
      cases hslice

theorem loads_eq_some {i offset : Nat} (h : sys.loads i = some offset) :
    ∃ reader, sys.readers[i]? = some reader ∧ reader.call = some (.loading offset) := by
  simp only [loads] at h
  split at h
  · cases h
  split at h
  · cases h
    exact ⟨_, ‹_›, ‹_›⟩
  · cases h
  · cases h

theorem loads_of_call {i offset : Nat} {reader : Reader} (hreader : sys.readers[i]? = some reader)
    (hcall : reader.call = some (.loading offset)) : sys.loads i = some offset := by
  simp only [loads, hreader, hcall]

/-- **The step lemma.** -/
theorem InOrder.step (h : sys.InOrder H) (hok : sys.GivenBack a)
    (hstep : sys.step H a = some sys') : sys'.InOrder H := by
  rcases step_cases hstep with ⟨b, writers, rfl, hwrite, rfl⟩ | ⟨offset, rfl, rfl⟩ |
    ⟨rfl, rfl⟩ | ⟨i, reader, pre, post, rfl, hreader, hreaders, rfl⟩
  · refine h.write ?_ hwrite
    rintro r built rfl
    exact hok
  · refine { h with slices := List.forall_mem_append.mpr ⟨h.slices, ?_⟩ }
    exact List.forall_mem_singleton.mpr (fun o p hcall => by cases hcall)
  · refine { h with slices := List.forall_mem_append.mpr ⟨h.slices, ?_⟩ }
    exact List.forall_mem_singleton.mpr (fun o p hcall => by cases hcall)
  · have hback : ∀ offset, reader.call = some (.loading offset) →
        offset < sys.segment.writePos → ∀ c ∈ sys.writers.calls, c.owed = 0 := by
      intro offset hcall
      rw [GivenBack, loads_of_call hreader hcall] at hok
      exact hok
    obtain ⟨hnext, hreads⟩ := h.turn hreaders hback
    have hslices := h.slices
    rw [hreaders] at hslices
    refine { h with slices := ?_, reads := hreads }
    intro reader' hmem
    rcases Lts.mem_replaced hmem with hmoved | hother
    · exact hnext reader' hmoved
    · exact Lts.forall_others hslices reader' hother

theorem InOrder.astray (h : sys.InOrder H) (hnot : ¬ sys.GivenBack a) :
    ∃ sys', sys.step H a = some sys' ∧ ¬ sys'.Safe := by
  cases a with
  | write a =>
      cases a with
      | advance i => exact absurd trivial hnot
      | start r built =>
          have howing : ∃ c ∈ sys.writers.calls, c.owed ≠ 0 := by
            simpa only [GivenBack, not_forall, exists_prop] using hnot
          have hstart := h.accounted.start_refused (H := H) built howing
          let w := sys.writers
          refine ⟨{ sys with writers := ⟨reserved w.segment r,
            w.calls ++ [.rollingBack r w.segment.writePos], w.returned⟩ }, ?_, ?_⟩
          · simp only [System.step, World.step, hstart, w]
          · intro hsafe
            have hin := hsafe.subtracts r w.segment.writePos
              (List.mem_append_right _ List.mem_cons_self)
            have hover := (h.accounted.beyond howing).1
            have hin : w.segment.writePos ≤ (w.segment.reserve r.serializedSize).maxSize := hin
            rw [MappedFile.reserve_maxSize] at hin
            exact absurd hover (Nat.not_lt.mpr hin)
  | read offset => exact absurd trivial hnot
  | iterate => exact absurd trivial hnot
  | turn i =>
      cases hload : sys.loads i with
      | none =>
          rw [GivenBack, hload] at hnot
          exact absurd trivial hnot
      | some offset =>
          rw [GivenBack, hload] at hnot
          obtain ⟨hlt, hnot⟩ := Classical.not_imp.mp hnot
          have howing : ∃ c ∈ sys.writers.calls, c.owed ≠ 0 := by
            simpa only [not_forall, exists_prop] using hnot
          obtain ⟨reader, hreader, hcall⟩ := loads_eq_some hload
          obtain ⟨pre, post, -, hset, -⟩ := Lts.exists_split hreader
          have hloaded : (ReadCall.loading offset).step H sys.segment
              = .inl (.slicing offset sys.segment.writePos) := if_neg (Nat.not_le.mpr hlt)
          obtain ⟨reader', hgo, hcall'⟩ := Reader.step_on hcall hloaded
          refine ⟨⟨sys.writers, pre ++ reader' :: post, sys.reads ++ []⟩, ?_, ?_⟩
          · simp only [System.step, hreader, hgo, hset]
          · intro hsafe
            have hover := (h.accounted.beyond howing).1
            have hin := (hsafe.slices reader' (List.mem_append_right _ List.mem_cons_self) _ _
              hcall').2
            have hlen := sys.writers.segment.mmap_length
            have hin : sys.writers.segment.writePos ≤ sys.writers.segment.mmap.length := hin
            omega

end

end System

/-! ## Every interleaving -/

/-- **Readers beside writers.**  Take any interleaving of any number of appends,
reads and iterations on a fresh segment.  In every state of it nothing is
subtracted or sliced out of range, no call has panicked and no size reported has
wrapped around, iff no append reserved space, and no read below the write position
loaded it, while a failed append had yet to give its own space back. -/
theorem readers_and_writers_safe (H : Hasher) (fs : Files) (path : String) (maxSize : Nat)
    (indexEnabled : Bool) (s : RecordSegment)
    (hnew : RecordSegment.new fs path maxSize indexEnabled = .ok s) (acts : List System.Act) :
    Lts.Always (System.step H) System.Safe (System.ofSegment s) acts ↔
      Lts.Guarded (System.step H) System.GivenBack (System.ofSegment s) acts := by
  have hpre : Lts.Guarded (System.step H) (fun _ _ => True) (System.ofSegment s) acts :=
    Lts.Guarded.of_forall (fun _ _ => trivial) acts _
  exact Lts.Guarded.always_iff System.InOrder.safe (fun h _ hok hstep => h.step hok hstep)
    (fun h _ hnot => h.astray hnot) (System.InOrder.start hnew) hpre

/-- A scan begun before an append, a read after it, and an append that fails while
the scan is between two steps. -/
theorem readers_and_writers_safe_three : ∃ s,
    RecordSegment.new Files.fresh "segment.dat" 100 true = .ok s ∧
    Lts.Always (System.step crc32Hasher) System.Safe (System.ofSegment s)
      [.write (.start ⟨1, [65]⟩ (by decide)), .iterate, .write (.advance 0), .turn 0, .turn 0,
        .read 0, .turn 1, .write (.advance 0), .write (.advance 0),
        .write (.start ⟨2, List.replicate 70 0⟩ (by decide)), .turn 0, .write (.advance 0),
        .turn 1] := by
  refine ⟨_, rfl, ?_⟩
  refine (readers_and_writers_safe crc32Hasher Files.fresh "segment.dat" 100 true _ rfl _).mpr ?_
  decide +kernel

/-- **A failed append makes others panic.**  An append of 60 bytes fails behind 60
bytes of a segment of 100.  Before it gives its space back a read at 0 slices up to
120, and another append reports 20 bytes less than none to be available. -/
theorem owed_space_panics : ∃ s sys,
    RecordSegment.new Files.fresh "segment.dat" 100 false = .ok s ∧
    Lts.run (System.step crc32Hasher) (System.ofSegment s)
      [.write (.start ⟨1, List.replicate 40 1⟩ (by decide)), .write (.advance 0),
        .write (.advance 0), .write (.advance 0),
        .write (.start ⟨2, List.replicate 40 2⟩ (by decide)), .read 0, .turn 0, .turn 0,
        .write (.start ⟨3, []⟩ (by decide)), .write (.advance 1)] = some sys ∧
    sys.reads = [none] ∧
    sys.writers.returned = [(⟨1, List.replicate 40 1⟩, some (.ok ⟨0, 60⟩)),
      (⟨3, []⟩, some (.error (.segmentFull 20 (2 ^ 64 - 20))))] ∧
    ¬ sys.Safe := by
  refine ⟨_, _, rfl, rfl, rfl, rfl, ?_⟩
  intro hsafe
  exact hsafe.reads List.mem_cons_self

end Dolda.Storage
