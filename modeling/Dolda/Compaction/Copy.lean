/-
# `Dolda.Compaction.Copy` — copying segments

`src/compaction.rs`: `compact_segment` copies the records of one segment into a
new one under an in-progress flag, `merge_segments` copies those of several.
Both walk an iterator, append what it yields, step over the errors it hands out
and give up at the first append that fails.

A call of `compact_segment` is cut where other calls can see it (`Phase`): the
check-and-set of the flag, creating the output, each turn of the copy loop, the
statistics, the clearing of the flag.  `CompactCall.step` is one such piece; a
call made alone is the loop over them (`compactTurn`).  Left out are the clock,
the log and the metrics, and with them the count of records copied, which only
they read.

**Termination.**  A copy loop goes on past an error, and the iterator hands out
the same error again.  So each of the two calls is sure to end iff the bytes of
its sources are frames (`copying_ends_iff`); where the output has room for all
of the source a compaction ends only then (`compact_ends_iff`).
-/
import Dolda.Storage.Scan
import Dolda.RecordIntegrity

namespace Dolda.Compaction

open Storage Memory

inductive CompactionError where
  | record (e : RecordError)
  | io (message : String)
  | storage (e : StorageError)
  | inProgress
  | noWork
deriving DecidableEq, Repr

/-- What a compaction reads of its policy. -/
structure CompactionPolicy where
  targetSegmentSize : Nat
deriving DecidableEq, Repr

structure CompactionStats where
  totalCompactions : Nat
  bytesReclaimed : Nat
  recordsRemoved : Nat
deriving DecidableEq, Repr

structure CompactionManager where
  policy : CompactionPolicy
  stats : CompactionStats
  inProgress : Bool
deriving DecidableEq, Repr

def CompactionManager.new (policy : CompactionPolicy) : CompactionManager :=
  ⟨policy, ⟨0, 0, 0⟩, false⟩

/-- The basic policy: keep all records. -/
def shouldKeepRecord (_ : Record) : Bool := true

/-! ## One compaction -/

/-- How far a call of `compact_segment` has come. -/
inductive Phase where
  | checking
  | creating
  | copying (it : RecordIterator) (newSegment : RecordSegment) (recordsSkipped bytesSaved : Nat)
  | counting (newSegment : RecordSegment) (recordsSkipped bytesSaved : Nat)
  | clearing (newSegment : RecordSegment)

structure CompactCall where
  outputPath : String
  phase : Phase

/-- What a call returns; nothing when it panics. -/
abbrev CompactResult := Option (Except CompactionError RecordSegment)

/-- The next piece of a call: on to the next phase, or out. -/
def CompactCall.step (H : Hasher) (fs : Files) (segment : RecordSegment) (c : CompactCall)
    (m : CompactionManager) : (CompactCall ⊕ CompactResult) × CompactionManager :=
  match c.phase with
  | .checking =>
      if m.inProgress then (.inr (some (.error .inProgress)), m)
      else (.inl { c with phase := .creating }, { m with inProgress := true })
  | .creating =>
      match RecordSegment.new fs c.outputPath m.policy.targetSegmentSize segment.indexEnabled with
      | .error e => (.inr (some (.error (.storage e))), m)
      | .ok newSegment =>
          (.inl { c with phase := .copying segment.iterRecords newSegment 0 0 }, m)
  | .copying it newSegment recordsSkipped bytesSaved =>
      match it.next H segment with
      | none => (.inr none, m)
      | some (none, _) =>
          (.inl { c with phase := .counting newSegment recordsSkipped bytesSaved }, m)
      | some (some (.ok (offset, record)), it) =>
          if shouldKeepRecord record then
            match newSegment.appendRecord H record with
            | none => (.inr none, m)
            | some (.error e, _) => (.inr (some (.error (.storage e))), m)
            | some (.ok _, newSegment) =>
                (.inl { c with phase := .copying it newSegment recordsSkipped bytesSaved }, m)
          else
            (.inl
              { c with
                phase := .copying it newSegment (U64.add recordsSkipped 1)
                  (U64.add bytesSaved offset.size) }, m)
      | some (some (.error _), it) =>
          (.inl
            { c with phase := .copying it newSegment (U64.add recordsSkipped 1) bytesSaved }, m)
  | .counting newSegment recordsSkipped bytesSaved =>
      (.inl { c with phase := .clearing newSegment },
        { m with
          stats :=
            { totalCompactions := U64.add m.stats.totalCompactions 1
              bytesReclaimed := U64.add m.stats.bytesReclaimed bytesSaved
              recordsRemoved := U64.add m.stats.recordsRemoved recordsSkipped } })
  | .clearing newSegment => (.inr (some (.ok newSegment)), { m with inProgress := false })

/-- A call made alone, piece by piece. -/
def compactTurn (H : Hasher) (fs : Files) (segment : RecordSegment) :
    CompactCall × CompactionManager →
      (CompactCall × CompactionManager) ⊕ (CompactResult × CompactionManager)
  | (c, m) =>
      match c.step H fs segment m with
      | (.inl c, m) => .inl (c, m)
      | (.inr result, m) => .inr (result, m)

/-- `compact_segment` returns. -/
def CompactEnds (H : Hasher) (fs : Files) (m : CompactionManager) (segment : RecordSegment)
    (outputPath : String) : Prop :=
  Loop.Terminates (compactTurn H fs segment) (⟨outputPath, .checking⟩, m)

/-! ## Merging -/

/-- How far a call of `merge_segments` has come: the output, the segment being
copied, the segments after it. -/
inductive MergeState where
  | creating (segments : List RecordSegment)
  | merging (merged : RecordSegment) (current : Option (RecordSegment × RecordIterator))
      (rest : List RecordSegment)

def mergeTurn (H : Hasher) (fs : Files) (outputPath : String) (targetSize : Nat)
    (indexEnabled : Bool) : MergeState → MergeState ⊕ CompactResult
  | .creating segments =>
      match RecordSegment.new fs outputPath targetSize indexEnabled with
      | .error e => .inr (some (.error (.storage e)))
      | .ok merged => .inl (.merging merged none segments)
  | .merging merged none [] => .inr (some (.ok merged))
  | .merging merged none (segment :: rest) =>
      .inl (.merging merged (some (segment, segment.iterRecords)) rest)
  | .merging merged (some (segment, it)) rest =>
      match it.next H segment with
      | none => .inr none
      | some (none, _) => .inl (.merging merged none rest)
      | some (some (.ok (_, record)), it) =>
          match merged.appendRecord H record with
          | none => .inr none
          | some (.error e, _) => .inr (some (.error (.storage e)))
          | some (.ok _, merged) => .inl (.merging merged (some (segment, it)) rest)
      | some (some (.error _), it) => .inl (.merging merged (some (segment, it)) rest)

/-- `merge_segments` returns. -/
def MergeEnds (H : Hasher) (fs : Files) (segments : List RecordSegment) (outputPath : String)
    (targetSize : Nat) (indexEnabled : Bool) : Prop :=
  Loop.Terminates (mergeTurn H fs outputPath targetSize indexEnabled) (.creating segments)

/-! ## Copy loops follow the scan

From its statistics on a compaction ends, its copy loop where the scan does; inside a
segment so does a merge, if it ends from the next segment on. -/

/-- The iterator of a call in its copy loop. -/
def CompactCall.iterator (c : CompactCall) : RecordIterator :=
  match c.phase with
  | .copying it _ _ _ => it
  | .checking | .creating | .counting _ _ _ | .clearing _ => ⟨0, 0⟩

/-- The iterator of a merge inside a segment. -/
def MergeState.iterator : MergeState → RecordIterator
  | .merging _ (some (_, it)) _ => it
  | .merging _ none _ | .creating _ => ⟨0, 0⟩

section
variable {H : Hasher} {fs : Files} {segment newSegment merged : RecordSegment}
  {it : RecordIterator} {m : CompactionManager} {outputPath : String}
  {targetSize skipped saved : Nat} {indexEnabled : Bool} {rest : List RecordSegment}

theorem counting_ends : Loop.Terminates (compactTurn H fs segment)
    (⟨outputPath, .counting newSegment skipped saved⟩, m) := by
  have hturn : ∃ m', compactTurn H fs segment
      (⟨outputPath, .counting newSegment skipped saved⟩, m)
        = .inl (⟨outputPath, .clearing newSegment⟩, m') := ⟨_, rfl⟩
  obtain ⟨m', hturn⟩ := hturn
  have hlast : compactTurn H fs segment (⟨outputPath, .clearing newSegment⟩, m')
      = .inr (some (.ok newSegment), { m' with inProgress := false }) := rfl
  exact (Loop.terminates_inl hturn).mpr (Loop.terminates_inr hlast)

theorem copying_ends (h : ScanEnds H segment it) : Loop.Terminates (compactTurn H fs segment)
    (⟨outputPath, .copying it newSegment skipped saved⟩, m) := by
  let π (t : CompactCall × CompactionManager) : RecordIterator := t.1.iterator
  have hscan : Loop.Terminates (scanTurn H segment)
      (π (⟨outputPath, .copying it newSegment skipped saved⟩, m)) := ⟨_, h⟩
  refine hscan.of_follows
    (fun t => ∃ it newSegment skipped saved, t.1.phase = .copying it newSegment skipped saved)
    ?_ ⟨it, newSegment, skipped, saved, rfl⟩
  clear hscan
  rintro ⟨⟨path, phase⟩, m⟩ t' ⟨it, newSegment, skipped, saved, rfl⟩ hturn
  cases hnext : it.next H segment with
  | none => simp only [compactTurn, CompactCall.step, hnext] at hturn; cases hturn
  | some x =>
      obtain ⟨item, it'⟩ := x
      have hscan : ∀ y, item = some y → scanTurn H segment it = .inl it' := by
        rintro y rfl
        simp only [scanTurn, hnext]
      rcases item with _ | e | ⟨offset, record⟩
      · simp only [compactTurn, CompactCall.step, hnext] at hturn
        cases hturn
        exact Or.inr counting_ends
      · simp only [compactTurn, CompactCall.step, hnext] at hturn
        cases hturn
        exact Or.inl ⟨⟨_, _, _, _, rfl⟩, hscan _ rfl⟩
      · simp only [compactTurn, CompactCall.step, hnext, shouldKeepRecord, if_true] at hturn
        rcases happ : newSegment.appendRecord H record with _ | ⟨_ | _, newSegment'⟩
        · rw [happ] at hturn; cases hturn
        · rw [happ] at hturn; cases hturn
        · rw [happ] at hturn
          cases hturn
          exact Or.inl ⟨⟨_, _, _, _, rfl⟩, hscan _ rfl⟩

theorem mergingScan_ends (h : ScanEnds H segment it)
    (hrest : ∀ merged, Loop.Terminates (mergeTurn H fs outputPath targetSize indexEnabled)
      (.merging merged none rest)) :
    Loop.Terminates (mergeTurn H fs outputPath targetSize indexEnabled)
      (.merging merged (some (segment, it)) rest) := by
  have hscan : Loop.Terminates (scanTurn H segment)
      (MergeState.iterator (.merging merged (some (segment, it)) rest)) := ⟨_, h⟩
  refine hscan.of_follows (fun t => ∃ merged it, t = .merging merged (some (segment, it)) rest)
    ?_ ⟨merged, it, rfl⟩
  clear hscan
  rintro t t' ⟨merged, it, rfl⟩ hturn
  cases hnext : it.next H segment with
  | none => simp only [mergeTurn, hnext] at hturn; cases hturn
  | some x =>
      obtain ⟨item, it'⟩ := x
      have hscan : ∀ y, item = some y → scanTurn H segment it = .inl it' := by
        rintro y rfl
        simp only [scanTurn, hnext]
      rcases item with _ | e | ⟨offset, record⟩
      · simp only [mergeTurn, hnext] at hturn
        cases hturn
        exact Or.inr (hrest merged)
      · simp only [mergeTurn, hnext] at hturn
        cases hturn
        exact Or.inl ⟨⟨_, _, rfl⟩, hscan _ rfl⟩
      · simp only [mergeTurn, hnext] at hturn
        rcases happ : merged.appendRecord H record with _ | ⟨_ | _, merged'⟩
        · rw [happ] at hturn; cases hturn
        · rw [happ] at hturn; cases hturn
        · rw [happ] at hturn
          cases hturn
          exact Or.inl ⟨⟨_, _, rfl⟩, hscan _ rfl⟩

theorem merging_ends {rest : List RecordSegment}
    (h : ∀ s ∈ rest, ScanEnds H s s.iterRecords) (merged : RecordSegment) :
    Loop.Terminates (mergeTurn H fs outputPath targetSize indexEnabled)
      (.merging merged none rest) := by
  induction rest generalizing merged with
  | nil => exact Loop.terminates_inr (r := some (.ok merged)) rfl
  | cons segment rest ih =>
      have hrest := ih (fun s hs => h s (List.mem_cons_of_mem _ hs))
      have hturn : mergeTurn H fs outputPath targetSize indexEnabled
          (.merging merged none (segment :: rest))
            = .inl (.merging merged (some (segment, segment.iterRecords)) rest) := rfl
      exact (Loop.terminates_inl hturn).mpr
        (mergingScan_ends (h segment List.mem_cons_self) hrest)

/-! ## When the calls end

A record the scan yields fits an output with room, and leaves it with room; so a call
goes on while its scan does. -/

/-- The scan of a whole segment ends iff its bytes are frames. -/
theorem scan_whole_iff (hin : segment.writePos ≤ segment.maxSize) :
    ScanEnds H segment segment.iterRecords ↔ (recordCodec H).Framed segment.content :=
  scan_ends_iff hin (iterRecords_on segment)

theorem compact_ends (h : ScanEnds H segment segment.iterRecords) :
    CompactEnds H fs m segment outputPath := by
  by_cases hbusy : m.inProgress = true
  · have hturn : compactTurn H fs segment (⟨outputPath, .checking⟩, m)
        = .inr (some (.error .inProgress), m) := by
      simp only [compactTurn, CompactCall.step, if_pos hbusy]
    exact Loop.terminates_inr hturn
  have hturn : compactTurn H fs segment (⟨outputPath, .checking⟩, m)
      = .inl (⟨outputPath, .creating⟩, { m with inProgress := true }) := by
    simp only [compactTurn, CompactCall.step, if_neg hbusy]
  refine (Loop.terminates_inl hturn).mpr ?_
  cases hnew : RecordSegment.new fs outputPath m.policy.targetSegmentSize segment.indexEnabled with
  | error e =>
      have hturn : compactTurn H fs segment (⟨outputPath, .creating⟩, { m with inProgress := true })
          = .inr (some (.error (.storage e)), { m with inProgress := true }) := by
        simp only [compactTurn, CompactCall.step, hnew]
      exact Loop.terminates_inr hturn
  | ok newSegment =>
      have hturn : compactTurn H fs segment (⟨outputPath, .creating⟩, { m with inProgress := true })
          = .inl (⟨outputPath, .copying segment.iterRecords newSegment 0 0⟩,
              { m with inProgress := true }) := by
        simp only [compactTurn, CompactCall.step, hnew]
      exact (Loop.terminates_inl hturn).mpr (copying_ends h)

theorem merge_ends {segments : List RecordSegment}
    (h : ∀ s ∈ segments, ScanEnds H s s.iterRecords) :
    MergeEnds H fs segments outputPath targetSize indexEnabled := by
  cases hnew : RecordSegment.new fs outputPath targetSize indexEnabled with
  | error e =>
      have hturn : mergeTurn H fs outputPath targetSize indexEnabled (.creating segments)
          = .inr (some (.error (.storage e))) := by
        simp only [mergeTurn, hnew]
      exact Loop.terminates_inr hturn
  | ok merged =>
      have hturn : mergeTurn H fs outputPath targetSize indexEnabled (.creating segments)
          = .inl (.merging merged none segments) := by
        simp only [mergeTurn, hnew]
      exact (Loop.terminates_inl hturn).mpr (merging_ends h merged)

/-- What the output of a copy has room for: all the source has, the part before
the iterator being copied already. -/
structure HasRoom (segment newSegment : RecordSegment) (it : RecordIterator) : Prop where
  on : it.On segment
  room : segment.writePos ≤ newSegment.maxSize
  behind : newSegment.writePos ≤ it.currentOffset

theorem HasRoom.start (hnew : newSegment.Filled [])
    (hroom : segment.writePos ≤ newSegment.maxSize) :
    HasRoom segment newSegment segment.iterRecords :=
  ⟨iterRecords_on segment, hroom, hnew.writePos.le.trans (Nat.zero_le _)⟩

theorem HasRoom.appended (h : HasRoom segment newSegment it) {r : Record}
    (hle : it.currentOffset + r.serializedSize ≤ it.endOffset) :
    ∃ o newSegment', newSegment.appendRecord H r = some (.ok o, newSegment') ∧
      HasRoom segment newSegment'
        { it with currentOffset := it.currentOffset + r.serializedSize } := by
  have hbehind := h.behind
  have hroom := h.room
  have hend := h.on.toEnd
  have hfit : newSegment.writePos + r.serializedSize ≤ newSegment.maxSize := by omega
  refine ⟨_, _, RecordSegment.appendRecord_of_fits hfit, ⟨hle, hend⟩, hroom, ?_⟩
  rw [RecordSegment.appended_writePos]
  exact Nat.add_le_add_right hbehind _

theorem copying_never_ends (hin : segment.writePos ≤ segment.maxSize)
    (hroom : HasRoom segment newSegment it)
    (hbad : ¬ (recordCodec H).Framed (segment.content.drop it.currentOffset)) :
    ¬ Loop.Terminates (compactTurn H fs segment)
      (⟨outputPath, .copying it newSegment skipped saved⟩, m) := by
  let π (t : CompactCall × CompactionManager) : RecordIterator := t.1.iterator
  have hscan : ¬ Loop.Terminates (scanTurn H segment)
      (π (⟨outputPath, .copying it newSegment skipped saved⟩, m)) :=
    scan_never_ends hin hroom.on hbad
  refine Loop.not_terminates_of_follows hscan
    (fun t => ∃ it newSegment skipped saved, t.1.phase = .copying it newSegment skipped saved ∧
      HasRoom segment newSegment it) ?_ ⟨it, newSegment, skipped, saved, rfl, hroom⟩
  clear hscan hroom hbad
  rintro ⟨⟨path, phase⟩, m⟩ u ⟨it, newSegment, skipped, saved, rfl, hroom⟩ hturn
  have hiter : π (⟨path, .copying it newSegment skipped saved⟩, m) = it := rfl
  rw [hiter] at hturn
  rcases next_cases H hin hroom.on with ⟨-, hnext⟩ | ⟨r, -, -, hle, hnext⟩ | ⟨e, -, -, hnext⟩
  · rw [scanTurn, hnext] at hturn
    cases hturn
  · rw [scanTurn, hnext] at hturn
    cases hturn
    obtain ⟨o, newSegment', happ, hroom'⟩ := hroom.appended (H := H) hle
    refine ⟨(⟨path, .copying _ newSegment' skipped saved⟩, m), ?_, ⟨_, _, _, _, rfl, hroom'⟩, rfl⟩
    simp only [compactTurn, CompactCall.step, hnext, happ, shouldKeepRecord, if_true]
  · rw [scanTurn, hnext] at hturn
    cases hturn
    refine ⟨(⟨path, .copying u newSegment (U64.add skipped 1) saved⟩, m), ?_,
      ⟨_, _, _, _, rfl, hroom⟩, rfl⟩
    simp only [compactTurn, CompactCall.step, hnext]

theorem mergingScan_never_ends (hin : segment.writePos ≤ segment.maxSize)
    (hroom : HasRoom segment merged it)
    (hbad : ¬ (recordCodec H).Framed (segment.content.drop it.currentOffset)) :
    ¬ Loop.Terminates (mergeTurn H fs outputPath targetSize indexEnabled)
      (.merging merged (some (segment, it)) rest) := by
  have hscan : ¬ Loop.Terminates (scanTurn H segment)
      (MergeState.iterator (.merging merged (some (segment, it)) rest)) :=
    scan_never_ends hin hroom.on hbad
  refine Loop.not_terminates_of_follows hscan
    (fun t => ∃ merged it, t = .merging merged (some (segment, it)) rest ∧
      HasRoom segment merged it) ?_ ⟨merged, it, rfl, hroom⟩
  clear hscan hroom hbad
  rintro t u ⟨merged, it, rfl, hroom⟩ hturn
  have hiter : MergeState.iterator (.merging merged (some (segment, it)) rest) = it := rfl
  rw [hiter] at hturn
  rcases next_cases H hin hroom.on with ⟨-, hnext⟩ | ⟨r, -, -, hle, hnext⟩ | ⟨e, -, -, hnext⟩
  · rw [scanTurn, hnext] at hturn
    cases hturn
  · rw [scanTurn, hnext] at hturn
    cases hturn
    obtain ⟨o, merged', happ, hroom'⟩ := hroom.appended (H := H) hle
    refine ⟨.merging merged' (some (segment, _)) rest, ?_, ⟨_, _, rfl, hroom'⟩, rfl⟩
    simp only [mergeTurn, hnext, happ]
  · rw [scanTurn, hnext] at hturn
    cases hturn
    refine ⟨.merging merged (some (segment, u)) rest, ?_, ⟨_, _, rfl, hroom⟩, rfl⟩
    simp only [mergeTurn, hnext]

/-- **A compaction with room for all of its source** ends iff the bytes of the
source are frames. -/
theorem compact_ends_iff (hin : segment.writePos ≤ segment.maxSize) (hidle : m.inProgress = false)
    (hnew : RecordSegment.new fs outputPath m.policy.targetSegmentSize segment.indexEnabled
      = .ok newSegment) (hroom : segment.writePos ≤ m.policy.targetSegmentSize) :
    CompactEnds H fs m segment outputPath ↔ (recordCodec H).Framed segment.content := by
  refine ⟨fun h => ?_, fun h => compact_ends ((scan_whole_iff hin).mpr h)⟩
  by_contra hbad
  obtain ⟨hfilled, hmax, -⟩ := RecordSegment.new_ok hnew
  have hcheck : compactTurn H fs segment (⟨outputPath, .checking⟩, m)
      = .inl (⟨outputPath, .creating⟩, { m with inProgress := true }) := by
    simp only [compactTurn, CompactCall.step, hidle, Bool.false_eq_true, if_false]
  have hcreate : compactTurn H fs segment (⟨outputPath, .creating⟩, { m with inProgress := true })
      = .inl (⟨outputPath, .copying segment.iterRecords newSegment 0 0⟩,
          { m with inProgress := true }) := by
    simp only [compactTurn, CompactCall.step, hnew]
  have hcopy := (Loop.terminates_inl hcreate).mp ((Loop.terminates_inl hcheck).mp h)
  exact copying_never_ends hin (.start hfilled (hmax ▸ hroom)) hbad hcopy

/-- **A merge with room for its first source** ends only if the bytes of that
source are frames. -/
theorem merge_ends_first (hin : segment.writePos ≤ segment.maxSize)
    (hnew : RecordSegment.new fs outputPath targetSize indexEnabled = .ok newSegment)
    (hroom : segment.writePos ≤ targetSize)
    (h : MergeEnds H fs (segment :: rest) outputPath targetSize indexEnabled) :
    (recordCodec H).Framed segment.content := by
  by_contra hbad
  obtain ⟨hfilled, hmax, -⟩ := RecordSegment.new_ok hnew
  have hcreate : mergeTurn H fs outputPath targetSize indexEnabled (.creating (segment :: rest))
      = .inl (.merging newSegment none (segment :: rest)) := by
    simp only [mergeTurn, hnew]
  have hnext : mergeTurn H fs outputPath targetSize indexEnabled
      (.merging newSegment none (segment :: rest))
        = .inl (.merging newSegment (some (segment, segment.iterRecords)) rest) := rfl
  have hcopy := (Loop.terminates_inl hnext).mp ((Loop.terminates_inl hcreate).mp h)
  exact mergingScan_never_ends hin (.start hfilled (hmax ▸ hroom)) hbad hcopy

end

/-- **When iteration and copying end.**  Take any sources whose write positions
lie inside them.  Iterating over each ends, and with it compacting each and
merging them all, whatever the manager, the output and the file system, iff the
bytes of each are frames of valid records, one behind the other. -/
theorem copying_ends_iff (H : Hasher) (segments : List RecordSegment)
    (hin : ∀ s ∈ segments, s.writePos ≤ s.maxSize) :
    ((∀ s ∈ segments, ScanEnds H s s.iterRecords ∧
        ∀ fs m outputPath, CompactEnds H fs m s outputPath) ∧
      ∀ fs outputPath targetSize indexEnabled,
        MergeEnds H fs segments outputPath targetSize indexEnabled) ↔
      ∀ s ∈ segments, (recordCodec H).Framed s.content := by
  constructor
  · rintro ⟨hends, -⟩ s hs
    exact (scan_whole_iff (hin s hs)).mp (hends s hs).1
  · intro hframed
    have hscan : ∀ s ∈ segments, ScanEnds H s s.iterRecords :=
      fun s hs => (scan_whole_iff (hin s hs)).mpr (hframed s hs)
    exact ⟨fun s hs => ⟨hscan s hs, fun _ _ _ => compact_ends (hscan s hs)⟩,
      fun _ _ _ _ => merge_ends hscan⟩

/-- A segment holding one record. -/
def storedSegment : RecordSegment where
  maxSize := 32
  writePos := 21
  mmap := resize (Record.serialize crc32Hasher ⟨1, [65]⟩).bytes 32
  mmap_length := resize_length _ _
  maxSize_le := by decide
  path := "segment.dat"
  recordCount := 1
  index := []
  indexEnabled := false

theorem copying_ends_iff_stored :
    ((∀ s ∈ [storedSegment], ScanEnds crc32Hasher s s.iterRecords ∧
        ∀ fs m outputPath, CompactEnds crc32Hasher fs m s outputPath) ∧
      ∀ fs outputPath targetSize indexEnabled,
        MergeEnds crc32Hasher fs [storedSegment] outputPath targetSize indexEnabled) ↔
      ∀ s ∈ [storedSegment], (recordCodec crc32Hasher).Framed s.content :=
  copying_ends_iff crc32Hasher [storedSegment] (by decide)

/-- The same segment with the payload byte of its record changed. -/
def corruptedSegment : RecordSegment :=
  { storedSegment with
    mmap := storedSegment.mmap.set 20 66
    mmap_length := by rw [List.length_set]; exact storedSegment.mmap_length }

/-- **A corrupted record is handed out for ever**: the scan of the segment never
comes to `None`, and neither compacting it nor merging it returns. -/
theorem corrupted_record_never_ends :
    ¬ ScanEnds crc32Hasher corruptedSegment corruptedSegment.iterRecords ∧
      ¬ CompactEnds crc32Hasher Files.fresh (.new ⟨64⟩) corruptedSegment "compacted.dat" ∧
      ¬ MergeEnds crc32Hasher Files.fresh [corruptedSegment] "merged.dat" 64 false := by
  have hdec : Record.deserialize crc32Hasher corruptedSegment.content
      = .error (.checksumMismatch 4037636587 1772101713) := by decide +kernel
  have hbad : ¬ (recordCodec crc32Hasher).Framed corruptedSegment.content :=
    not_framed_of_error (by decide +kernel) hdec
  have hin : corruptedSegment.writePos ≤ corruptedSegment.maxSize := by decide
  refine ⟨?_, ?_, ?_⟩
  · exact fun h => hbad ((scan_whole_iff hin).mp h)
  · exact fun h => hbad ((compact_ends_iff hin rfl rfl (by decide)).mp h)
  · exact fun h => hbad (merge_ends_first hin rfl (by decide) h)

end Dolda.Compaction
