/-
# `Dolda.Compaction.Preserve` — what a copy holds

Compacting a segment and merging several are one thing to their output: records
are appended to it one after another until one does not fit (`copyInto`).  Over
sources that hold records the two copy loops compute just that
(`copying_returns`, `merging_returns`), and so they succeed iff the output has
room for all of the records, and then it holds them in order.

What becomes of the source is a matter of files.  In `compactOn` every piece of
a compaction works on the files of a disk, the source is what its file shows at
that moment, and the output is written through to its file.  With the output in
a file of its own the loop does what `compactTurn` does and the source's file
stays as it is (`compactOn_returns`).
-/
import Mathlib.Data.List.Forall2
import Dolda.Storage.Iterate
import Dolda.Compaction.Copy

namespace Dolda.Compaction

open Storage

/-! ## Copying records

The scan of what is left ends, or gives a record and the rest. -/

/-- Append the records one after another, up to the first that does not go in. -/
def copyInto (H : Hasher) : RecordSegment → List Record →
    Option (Except StorageError RecordSegment)
  | output, [] => some (.ok output)
  | output, r :: rs =>
      match output.appendRecord H r with
      | none => none
      | some (.error e, _) => some (.error e)
      | some (.ok _, output) => copyInto H output rs

section
variable {H : Hasher} {fs : Files} {segment output merged : RecordSegment}
  {m : CompactionManager} {outputPath : String} {targetSize : Nat} {indexEnabled : Bool}
  {rest : List RecordSegment} {rs before : List Record}

/-- **The spec of a copy**: all goes in if there is room for all of it. -/
theorem copyInto_holds (h : Holds H output before) (hval : ∀ r ∈ rs, r.Valid) :
    ((frames H (before ++ rs)).length ≤ output.maxSize ∧ ∃ output',
      copyInto H output rs = some (.ok output') ∧ Holds H output' (before ++ rs) ∧
        output'.indexEnabled = output.indexEnabled) ∨
    (output.maxSize < (frames H (before ++ rs)).length ∧ ∃ e,
      copyInto H output rs = some (.error e)) := by
  induction rs generalizing output before with
  | nil =>
      rw [List.append_nil]
      exact Or.inl ⟨h.writePos ▸ h.inside, output, rfl, h, rfl⟩
  | cons r rs ih =>
      have hr := hval r List.mem_cons_self
      have hrest : ∀ x ∈ rs, x.Valid := fun x hx => hval x (List.mem_cons_of_mem r hx)
      rcases appendRecord_holds h hr with
        ⟨output', happ, h', hmax, hidx⟩ | ⟨hfull, needed, available, happ⟩
      · have hcopy := ih h' hrest
        rw [List.append_assoc, List.singleton_append, hmax, hidx] at hcopy
        rwa [copyInto, happ]
      · refine Or.inr ⟨?_, _, by rw [copyInto, happ]⟩
        rw [frames_append, frames_cons, List.length_append, List.length_append,
          Record.serialize_length]
        omega

theorem next_of_scan (h : Holds H segment rs) {k : Nat} :
    (rs.drop k = [] → (scanAt H rs k).next H segment = some (none, scanAt H rs k)) ∧
    ∀ r todo, rs.drop k = r :: todo → rs.drop (k + 1) = todo ∧
      ∃ o, (scanAt H rs k).next H segment = some (some (.ok (o, r)), scanAt H rs (k + 1)) := by
  have hnext := next_of_held h k
  rw [placed_getElem?] at hnext
  constructor
  · intro hnil
    have hlen := List.drop_eq_nil_iff.mp hnil
    rwa [List.getElem?_eq_none hlen, if_neg (Nat.not_lt.mpr hlen)] at hnext
  · intro r todo hcons
    have hlt : k < rs.length := by
      by_contra hge
      rw [List.drop_of_length_le (Nat.le_of_not_lt hge)] at hcons
      cases hcons
    rw [List.drop_eq_getElem_cons hlt] at hcons
    obtain ⟨hr, htodo⟩ := List.cons.inj hcons
    rw [List.getElem?_eq_getElem hlt, hr, if_pos hlt] at hnext
    exact ⟨htodo, _, hnext⟩

/-- What a call that has copied everything leaves of the manager. -/
def CompactionManager.finished (m : CompactionManager) : CompactionManager :=
  { m with
    stats :=
      { totalCompactions := U64.add m.stats.totalCompactions 1
        bytesReclaimed := U64.add m.stats.bytesReclaimed 0
        recordsRemoved := U64.add m.stats.recordsRemoved 0 }
    inProgress := false }

/-- What a compaction returns with, when its copy comes to this. -/
def copied (m : CompactionManager) :
    Option (Except StorageError RecordSegment) → CompactResult × CompactionManager
  | none => (none, m)
  | some (.error e) => (some (.error (.storage e)), m)
  | some (.ok output) => (some (.ok output), m.finished)

/-- **The copy loop of a compaction** copies the records from its iterator on. -/
theorem copying_returns (h : Holds H segment rs) (todo : List Record) :
    ∀ (k : Nat) (output : RecordSegment), rs.drop k = todo →
      Loop.Returns (compactTurn H fs segment)
        (⟨outputPath, .copying (scanAt H rs k) output 0 0⟩, m)
        (copied m (copyInto H output todo)) := by
  -- on the records not yet copied
  induction todo with
  | nil =>
      intro k output hnil
      have hnext := (next_of_scan h).1 hnil
      have hturn : compactTurn H fs segment
          (⟨outputPath, .copying (scanAt H rs k) output 0 0⟩, m)
            = .inl (⟨outputPath, .counting output 0 0⟩, m) := by
        simp only [compactTurn, CompactCall.step, hnext]
      have hcount : ∃ m₁, compactTurn H fs segment (⟨outputPath, .counting output 0 0⟩, m)
          = .inl (⟨outputPath, .clearing output⟩, m₁) ∧
          compactTurn H fs segment (⟨outputPath, .clearing output⟩, m₁)
            = .inr (some (.ok output), m.finished) := ⟨_, rfl, rfl⟩
      obtain ⟨m₁, hcount, hclear⟩ := hcount
      exact (Loop.returns_inl hturn).mpr ((Loop.returns_inl hcount).mpr
        ((Loop.returns_inr hclear).mpr rfl))
  | cons r todo ih =>
      intro k output hcons
      obtain ⟨htodo, o, hnext⟩ := (next_of_scan h).2 r todo hcons
      rcases happ : output.appendRecord H r with _ | ⟨e | o', output'⟩
      · have hturn : compactTurn H fs segment
            (⟨outputPath, .copying (scanAt H rs k) output 0 0⟩, m) = .inr (none, m) := by
          simp only [compactTurn, CompactCall.step, hnext, shouldKeepRecord, if_true, happ]
        rw [copyInto, happ]
        exact (Loop.returns_inr hturn).mpr rfl
      · have hturn : compactTurn H fs segment
            (⟨outputPath, .copying (scanAt H rs k) output 0 0⟩, m)
              = .inr (some (.error (.storage e)), m) := by
          simp only [compactTurn, CompactCall.step, hnext, shouldKeepRecord, if_true, happ]
        rw [copyInto, happ]
        exact (Loop.returns_inr hturn).mpr rfl
      · have hturn : compactTurn H fs segment
            (⟨outputPath, .copying (scanAt H rs k) output 0 0⟩, m)
              = .inl (⟨outputPath, .copying (scanAt H rs (k + 1)) output' 0 0⟩, m) := by
          simp only [compactTurn, CompactCall.step, hnext, shouldKeepRecord, if_true, happ]
        rw [copyInto, happ]
        exact (Loop.returns_inl hturn).mpr (ih (k + 1) output' htodo)

/-- **A compaction by an idle manager** whose output can be created copies all
the source holds. -/
theorem compact_returns (h : Holds H segment rs) (hidle : m.inProgress = false)
    (hnew : RecordSegment.new fs outputPath m.policy.targetSegmentSize segment.indexEnabled
      = .ok output) :
    Loop.Returns (compactTurn H fs segment) (⟨outputPath, .checking⟩, m)
      (copied { m with inProgress := true } (copyInto H output rs)) := by
  have hcheck : compactTurn H fs segment (⟨outputPath, .checking⟩, m)
      = .inl (⟨outputPath, .creating⟩, { m with inProgress := true }) := by
    simp only [compactTurn, CompactCall.step, hidle, Bool.false_eq_true, if_false]
  have hcreate : compactTurn H fs segment (⟨outputPath, .creating⟩, { m with inProgress := true })
      = .inl (⟨outputPath, .copying segment.iterRecords output 0 0⟩,
          { m with inProgress := true }) := by
    simp only [compactTurn, CompactCall.step, hnew]
  rw [scanAt_zero h] at hcreate
  exact (Loop.returns_inl hcheck).mpr ((Loop.returns_inl hcreate).mpr
    (copying_returns h rs 0 output rfl))

/-! ### Merging -/

/-- What a merge returns, when its copy comes to this. -/
def mergedTo : Option (Except StorageError RecordSegment) → CompactResult
  | none => none
  | some (.error e) => some (.error (.storage e))
  | some (.ok merged) => some (.ok merged)

/-- Copying one list after another is copying both in a row. -/
theorem copyInto_append (H : Hasher) (rs rs' : List Record) (output : RecordSegment) :
    copyInto H output (rs ++ rs') =
      match copyInto H output rs with
      | some (.ok output) => copyInto H output rs'
      | stopped => stopped := by
  induction rs generalizing output with
  | nil => rfl
  | cons r rs ih =>
      rw [List.cons_append, copyInto, copyInto]
      rcases output.appendRecord H r with _ | ⟨e | o, output'⟩
      · rfl
      · rfl
      · exact ih output'

/-- **The copy loop of a merge** copies the records of its segment from the
iterator on, and goes on to the next segment. -/
theorem mergingScan_returns (h : Holds H segment rs) (todo : List Record) :
    ∀ (k : Nat) (merged : RecordSegment) (x : CompactResult), rs.drop k = todo →
      (∀ merged', copyInto H merged todo = some (.ok merged') →
        Loop.Returns (mergeTurn H fs outputPath targetSize indexEnabled)
          (.merging merged' none rest) x) →
      (∀ stopped, copyInto H merged todo = stopped → (∀ merged', stopped ≠ some (.ok merged')) →
        x = mergedTo stopped) →
      Loop.Returns (mergeTurn H fs outputPath targetSize indexEnabled)
        (.merging merged (some (segment, scanAt H rs k)) rest) x := by
  induction todo with
  | nil =>
      intro k merged x hnil hdone _
      have hnext := (next_of_scan h).1 hnil
      have hturn : mergeTurn H fs outputPath targetSize indexEnabled
          (.merging merged (some (segment, scanAt H rs k)) rest)
            = .inl (.merging merged none rest) := by
        simp only [mergeTurn, hnext]
      exact (Loop.returns_inl hturn).mpr (hdone merged rfl)
  | cons r todo ih =>
      intro k merged x hcons hdone hstop
      obtain ⟨htodo, o, hnext⟩ := (next_of_scan h).2 r todo hcons
      rcases happ : merged.appendRecord H r with _ | ⟨e | o', merged'⟩
      · have hturn : mergeTurn H fs outputPath targetSize indexEnabled
            (.merging merged (some (segment, scanAt H rs k)) rest) = .inr none := by
          simp only [mergeTurn, hnext, happ]
        exact (Loop.returns_inr hturn).mpr
          (hstop none (by rw [copyInto, happ]) (fun _ h => by cases h))
      · have hturn : mergeTurn H fs outputPath targetSize indexEnabled
            (.merging merged (some (segment, scanAt H rs k)) rest)
              = .inr (some (.error (.storage e))) := by
          simp only [mergeTurn, hnext, happ]
        exact (Loop.returns_inr hturn).mpr
          (hstop (some (.error e)) (by rw [copyInto, happ]) (fun _ h => by cases h))
      · have hturn : mergeTurn H fs outputPath targetSize indexEnabled
            (.merging merged (some (segment, scanAt H rs k)) rest)
              = .inl (.merging merged' (some (segment, scanAt H rs (k + 1))) rest) := by
          simp only [mergeTurn, hnext, happ]
        rw [copyInto, happ] at hdone hstop
        exact (Loop.returns_inl hturn).mpr (ih (k + 1) merged' x htodo hdone hstop)

/-- **A merge** copies what its sources hold, one source after another. -/
theorem merging_returns {segments : List RecordSegment} {rss : List (List Record)}
    (h : List.Forall₂ (Holds H) segments rss) (merged : RecordSegment) :
    Loop.Returns (mergeTurn H fs outputPath targetSize indexEnabled)
      (.merging merged none segments) (mergedTo (copyInto H merged rss.flatten)) := by
  induction h generalizing merged with
  | nil =>
      have hturn : mergeTurn H fs outputPath targetSize indexEnabled (.merging merged none [])
          = .inr (some (.ok merged)) := rfl
      exact (Loop.returns_inr hturn).mpr rfl
  | @cons segment rs segments rss hsegment _ ih =>
      have hturn : mergeTurn H fs outputPath targetSize indexEnabled
          (.merging merged none (segment :: segments))
            = .inl (.merging merged (some (segment, scanAt H rs 0)) segments) := by
        rw [← scanAt_zero hsegment]
        rfl
      refine (Loop.returns_inl hturn).mpr
        (mergingScan_returns hsegment rs 0 merged _ rfl ?_ ?_)
      · intro merged' hcopy
        rw [List.flatten_cons, copyInto_append, hcopy]
        exact ih merged'
      · intro stopped hcopy hstop
        rw [List.flatten_cons, copyInto_append, hcopy]
        rcases stopped with _ | e | merged'
        · rfl
        · rfl
        · exact absurd rfl (hstop merged')

theorem merge_returns {segments : List RecordSegment} {rss : List (List Record)}
    (h : List.Forall₂ (Holds H) segments rss)
    (hnew : RecordSegment.new fs outputPath targetSize indexEnabled = .ok merged) :
    Loop.Returns (mergeTurn H fs outputPath targetSize indexEnabled) (.creating segments)
      (mergedTo (copyInto H merged rss.flatten)) := by
  have hcreate : mergeTurn H fs outputPath targetSize indexEnabled (.creating segments)
      = .inl (.merging merged none segments) := by
    simp only [mergeTurn, hnew]
  exact (Loop.returns_inl hcreate).mpr (merging_returns h merged)

end

/-! ## On the files of a disk

A piece of a call asks the file system for nothing but its output, which stays in one
file, so a turn of a call on a disk is a turn of the call alone. -/

/-- The output of a call that has created it. -/
def Phase.output : Phase → Option RecordSegment
  | .copying _ output _ _ | .counting output _ _ | .clearing output => some output
  | .checking | .creating => none

/-- The phase, its output as the file on the disk shows it. -/
def Phase.attach (disk : Disk) : Phase → Phase
  | .copying it output skipped saved => .copying it (output.attach disk) skipped saved
  | .counting output skipped saved => .counting (output.attach disk) skipped saved
  | .clearing output => .clearing (output.attach disk)
  | .checking => .checking
  | .creating => .creating

/-- The disk, with what the output holds. -/
def Phase.spill (phase : Phase) (disk : Disk) : Disk := fun path =>
  match phase.output with
  | none => disk path
  | some output => if path = output.path then output.mmap else disk path

/-- A piece of a call whose segments are files on a disk. -/
def compactOn (H : Hasher) (fs : Files) (segment : RecordSegment) :
    Disk × CompactCall × CompactionManager →
      (Disk × CompactCall × CompactionManager) ⊕ (Disk × CompactResult × CompactionManager)
  | (disk, c, m) =>
      match CompactCall.step H (fs.on disk) (segment.attach disk)
          { c with phase := c.phase.attach disk } m with
      | (.inl c, m) => .inl (c.phase.spill disk, c, m)
      | (.inr result, m) => .inr (disk, result, m)

/-- A call on a disk, and the call it makes alone: the source is in its file,
the output in another. -/
structure OnDisk (segment : RecordSegment) (disk : Disk)
    (t : Disk × CompactCall × CompactionManager) (s : CompactCall × CompactionManager) : Prop where
  same : t.2 = s
  apart : s.1.outputPath ≠ segment.path
  source : t.1 segment.path = segment.mmap
  before : s.1.phase.output = none → t.1 = disk
  output : ∀ o, s.1.phase.output = some o → o.path = s.1.outputPath ∧ t.1 o.path = o.mmap

section
variable {H : Hasher} {fs : Files} {segment : RecordSegment} {c c' : CompactCall}
  {m m' : CompactionManager} {disk : Disk}

theorem Phase.attach_self {phase : Phase}
    (h : ∀ o, phase.output = some o → disk o.path = o.mmap) : phase.attach disk = phase := by
  cases phase with
  | checking | creating => rfl
  | copying it o skipped saved =>
      rw [Phase.attach, RecordSegment.attach_self (h o rfl)]
  | counting o skipped saved => rw [Phase.attach, RecordSegment.attach_self (h o rfl)]
  | clearing o => rw [Phase.attach, RecordSegment.attach_self (h o rfl)]

theorem step_files (fs' : Files) (h : c.phase.output = none → fs' = fs) :
    c.step H fs' segment m = c.step H fs segment m := by
  obtain ⟨path, phase⟩ := c
  cases phase with
  | checking | creating => rw [h rfl]
  | copying | counting | clearing => rfl

theorem step_output (h : c.step H fs segment m = (.inl c', m')) :
    c'.outputPath = c.outputPath ∧ (c'.phase.output = none → c.phase.output = none) ∧
      ∀ o', c'.phase.output = some o' →
        (∀ o, c.phase.output = some o → o.path = c.outputPath) → o'.path = c.outputPath := by
  obtain ⟨path, phase⟩ := c
  cases phase with
  | checking =>
      simp only [CompactCall.step] at h
      split at h
      · cases h
      · cases h
        refine ⟨rfl, fun _ => rfl, ?_⟩
        rintro _ ⟨⟩
  | creating =>
      simp only [CompactCall.step] at h
      split at h
      · cases h
      · rename_i o hnew
        cases h
        refine ⟨rfl, ?_, ?_⟩
        · rintro ⟨⟩
        · intro o' ho' _
          cases ho'
          exact RecordSegment.new_path hnew
  | copying it o skipped saved =>
      have hkeep : (∃ o', c'.phase.output = some o' ∧ o'.path = o.path) ∧
          c'.outputPath = path := by
        simp only [CompactCall.step, shouldKeepRecord, if_true] at h
        split at h
        · cases h
        · cases h
          exact ⟨⟨o, rfl, rfl⟩, rfl⟩
        · split at h
          · cases h
          · cases h
          · rename_i happ
            cases h
            exact ⟨⟨_, rfl, RecordSegment.appendRecord_path happ⟩, rfl⟩
        · cases h
          exact ⟨⟨o, rfl, rfl⟩, rfl⟩
      obtain ⟨⟨o₁, ho₁, hpath⟩, hout⟩ := hkeep
      refine ⟨hout, ?_, ?_⟩
      · intro hnone
        cases ho₁.symm.trans hnone
      · intro o' ho' hall
        cases ho₁.symm.trans ho'
        exact hpath.trans (hall o rfl)
  | counting o skipped saved =>
      cases h
      refine ⟨rfl, ?_, ?_⟩
      · rintro ⟨⟩
      · intro o' ho' hall
        cases ho'
        exact hall o rfl
  | clearing o => cases h

theorem OnDisk.turn {t : Disk × CompactCall × CompactionManager}
    {s : CompactCall × CompactionManager} (h : OnDisk segment disk t s) :
    compactOn H fs segment t =
      match s.1.step H (fs.on disk) segment s.2 with
      | (.inl c, m) => .inl (c.phase.spill t.1, c, m)
      | (.inr result, m) => .inr (t.1, result, m) := by
  obtain ⟨disk', c, m⟩ := t
  obtain ⟨rfl, happart, hsource, hbefore, houtput⟩ := h
  have hphase : c.phase.attach disk' = c.phase := Phase.attach_self (fun o ho => (houtput o ho).2)
  have hfiles : c.step H (fs.on disk') segment m = c.step H (fs.on disk) segment m :=
    step_files (fs.on disk') (fun hnone => congrArg fs.on (hbefore hnone))
  simp only [compactOn, RecordSegment.attach_self hsource, hphase, hfiles]

theorem OnDisk.step {t : Disk × CompactCall × CompactionManager}
    {s s' : CompactCall × CompactionManager} (h : OnDisk segment disk t s)
    (hturn : compactTurn H (fs.on disk) segment s = .inl s') :
    ∃ t', compactOn H fs segment t = .inl t' ∧ OnDisk segment disk t' s' := by
  have hon : compactOn H fs segment t = _ := h.turn
  obtain ⟨c, m⟩ := s
  obtain ⟨disk', c₁, m₁⟩ := t
  rcases hstep : c.step H (fs.on disk) segment m with ⟨c' | result, m'⟩
  · simp only [compactTurn, hstep] at hturn
    cases hturn
    simp only [hstep] at hon
    obtain ⟨hout, hnone, hpath⟩ := step_output hstep
    have hfile : ∀ o', c'.phase.output = some o' → o'.path = c.outputPath :=
      fun o' ho' => hpath o' ho' (fun o ho => (h.output o ho).1)
    refine ⟨_, hon, rfl, ?_, ?_, ?_, ?_⟩
    · show c'.outputPath ≠ _
      rw [hout]
      exact h.apart
    · show c'.phase.spill disk' segment.path = _
      cases ho : c'.phase.output with
      | none =>
          simp only [Phase.spill, ho]
          exact h.source
      | some o' =>
          have hne : segment.path ≠ o'.path := fun heq =>
            h.apart ((hfile o' ho).symm.trans heq.symm)
          simp only [Phase.spill, ho, if_neg hne]
          exact h.source
    · intro ho
      show c'.phase.spill disk' = disk
      have hsame : disk' = disk := h.before (hnone ho)
      funext path
      simp only [Phase.spill, show c'.phase.output = none from ho, hsame]
    · intro o' ho'
      have ho : c'.phase.output = some o' := ho'
      refine ⟨(hfile o' ho).trans hout.symm, ?_⟩
      show c'.phase.spill disk' o'.path = _
      simp only [Phase.spill, ho, if_true]
  · simp only [compactTurn, hstep] at hturn
    cases hturn

theorem OnDisk.return {t : Disk × CompactCall × CompactionManager}
    {s : CompactCall × CompactionManager} {r : CompactResult × CompactionManager}
    (h : OnDisk segment disk t s) (hturn : compactTurn H (fs.on disk) segment s = .inr r) :
    compactOn H fs segment t = .inr (t.1, r) := by
  have hon : compactOn H fs segment t = _ := h.turn
  obtain ⟨c, m⟩ := s
  rcases hstep : c.step H (fs.on disk) segment m with ⟨c' | result, m'⟩
  · simp only [compactTurn, hstep] at hturn
    cases hturn
  · simp only [compactTurn, hstep] at hturn
    cases hturn
    simp only [hstep] at hon
    exact hon

/-- **A compaction whose segments are files** returns what it returns alone, and
leaves the source's file as it is. -/
theorem compactOn_returns {outputPath : String} {r : CompactResult × CompactionManager}
    (hdisk : disk segment.path = segment.mmap) (happart : outputPath ≠ segment.path)
    (h : Loop.Returns (compactTurn H (fs.on disk) segment) (⟨outputPath, .checking⟩, m) r) :
    ∃ disk', Loop.Returns (compactOn H fs segment) (disk, ⟨outputPath, .checking⟩, m) (disk', r) ∧
      segment.attach disk' = segment := by
  have hstart : OnDisk segment disk (disk, ⟨outputPath, .checking⟩, m)
      (⟨outputPath, .checking⟩, m) := by
    refine ⟨rfl, happart, hdisk, fun _ => rfl, ?_⟩
    rintro _ ⟨⟩
  have hsimulates : ∃ r',
      Loop.Returns (compactOn H fs segment) (disk, ⟨outputPath, .checking⟩, m) r' ∧
      r'.1 segment.path = segment.mmap ∧ r'.2 = r :=
    Loop.Returns.simulates (OnDisk segment disk)
      (fun r' r => r'.1 segment.path = segment.mmap ∧ r'.2 = r) OnDisk.step
      (fun ht hturn => ⟨_, ht.return hturn, ht.source, rfl⟩) hstart h
  obtain ⟨⟨disk', r'⟩, hret, hsource, rfl⟩ := hsimulates
  exact ⟨disk', hret, RecordSegment.attach_self hsource⟩

end

/-! ## What the copies hold

A segment filled by appends holds its acknowledged records, which is what a scan of it
yields; a copy loop appends these in order; and the output, filled by appends itself,
holds what was appended to it.  The counters are 64-bit words, and what they count fits. -/

/-- The counters are 64-bit words. -/
structure CompactionStats.Words (stats : CompactionStats) : Prop where
  totalCompactions : stats.totalCompactions < 2 ^ 64
  bytesReclaimed : stats.bytesReclaimed < 2 ^ 64
  recordsRemoved : stats.recordsRemoved < 2 ^ 64

/-- **A compaction preserves its source.**  Take any segment filled by appends,
some of which may have failed, and an idle manager, the output's file being new
and created without error.  The compaction returns; it succeeds iff what the
source uses fits the target size; the new segment then yields what the source
yields, in the same places, and counts as much; and the source is as it was. -/
theorem compaction_preserves {H : Hasher} {fs : Files} {m : CompactionManager}
    {segment output : RecordSegment} {kept : List (RecordOffset × Record)} {disk : Disk}
    {outputPath : String} (hfilled : FilledBy H segment kept) (hidle : m.inProgress = false)
    (hwords : m.stats.Words) (hdisk : disk segment.path = segment.mmap)
    (hfresh : outputPath ≠ segment.path)
    (hnew : RecordSegment.new (fs.on disk) outputPath m.policy.targetSegmentSize
      segment.indexEnabled = .ok output) :
    ∃ disk' result m',
      Loop.Returns (compactOn H fs segment) (disk, ⟨outputPath, .checking⟩, m)
        (disk', some result, m') ∧
      ((∃ newSegment, result = .ok newSegment) ↔
        segment.writePos ≤ m.policy.targetSegmentSize) ∧
      (∀ newSegment, result = .ok newSegment →
        (∀ items, Yields H segment items ↔ items = kept.map Except.ok) ∧
        (∀ items, Yields H newSegment items ↔ items = kept.map Except.ok) ∧
        newSegment.recordCount = segment.recordCount ∧
        newSegment.writePos = segment.writePos ∧
        m'.stats = { m.stats with
          totalCompactions := U64.add m.stats.totalCompactions 1 }) ∧
      segment.attach disk' = segment := by
  obtain ⟨rs, hholds, rfl⟩ := hfilled.holds
  obtain ⟨hempty, hmax, -⟩ := holds_new (H := H) hnew
  obtain ⟨disk', hret, hsource⟩ :=
    compactOn_returns hdisk hfresh (compact_returns hholds hidle hnew)
  have hcopy := copyInto_holds hempty hholds.valid
  rw [List.nil_append, hmax, ← hholds.writePos] at hcopy
  rcases hcopy with ⟨hfits, newSegment, hcopy, hcopied, -⟩ | ⟨hfull, e, hcopy⟩
  · rw [hcopy] at hret
    refine ⟨disk', _, _, hret, iff_of_true ⟨_, rfl⟩ hfits, ?_, hsource⟩
    rintro _ ⟨⟩
    refine ⟨fun _ => hholds.yields_iff, fun _ => hcopied.yields_iff, ?_, ?_, ?_⟩
    · rw [hcopied.recordCount, hholds.recordCount]
    · rw [hcopied.writePos, hholds.writePos]
    · have hbytes : U64.add m.stats.bytesReclaimed 0 = m.stats.bytesReclaimed :=
        U64.wrap_of_lt hwords.bytesReclaimed
      have hremoved : U64.add m.stats.recordsRemoved 0 = m.stats.recordsRemoved :=
        U64.wrap_of_lt hwords.recordsRemoved
      simp only [CompactionManager.finished, hbytes, hremoved]
  · rw [hcopy] at hret
    refine ⟨disk', _, _, hret, iff_of_false ?_ (Nat.not_le.mpr hfull), ?_, hsource⟩
    · rintro ⟨_, ⟨⟩⟩
    · rintro _ ⟨⟩

theorem two_of_three : ∃ s, FilledBy crc32Hasher s
      [(⟨0, 21⟩, ⟨1, [65]⟩), (⟨21, 20⟩, ⟨3, []⟩)] ∧
    s.path = "segment.dat" ∧ s.writePos = 41 := by
  obtain ⟨s₀, s, hnew, hrun, hpath, hpos⟩ : ∃ s₀ s,
      RecordSegment.new Files.fresh "segment.dat" 64 true = .ok s₀ ∧
      appendAll crc32Hasher s₀ [⟨1, [65]⟩, ⟨2, List.replicate 30 0⟩, ⟨3, []⟩]
        = some ([.ok ⟨0, 21⟩, .error (.segmentFull 50 43), .ok ⟨21, 20⟩], s) ∧
      s.path = "segment.dat" ∧ s.writePos = 41 := ⟨_, _, rfl, rfl, rfl, rfl⟩
  exact ⟨s, .appends hnew (by decide) hrun, hpath, hpos⟩

/-- It fits an output of 41 bytes. -/
theorem compaction_preserves_two : ∃ segment disk newSegment disk' m',
    Loop.Returns (compactOn crc32Hasher .fresh segment)
      (disk, ⟨"compacted.dat", .checking⟩, .new ⟨41⟩) (disk', some (.ok newSegment), m') ∧
    (∀ items, Yields crc32Hasher newSegment items ↔
      items = [.ok (⟨0, 21⟩, ⟨1, [65]⟩), .ok (⟨21, 20⟩, ⟨3, []⟩)]) ∧
    m'.stats = ⟨1, 0, 0⟩ ∧ segment.attach disk' = segment := by
  obtain ⟨segment, hfilled, hpath, hpos⟩ := two_of_three
  let disk : Disk := fun path => if path = "segment.dat" then segment.mmap else []
  have hnew : ∃ output, RecordSegment.new (Files.fresh.on disk) "compacted.dat" 41
      segment.indexEnabled = .ok output := ⟨_, rfl⟩
  obtain ⟨output, hnew⟩ := hnew
  obtain ⟨disk', result, m', hret, hok, hcopied, hsource⟩ :=
    compaction_preserves (m := .new ⟨41⟩) hfilled rfl ⟨by decide, by decide, by decide⟩
      (show disk segment.path = _ by rw [hpath]; rfl) (by rw [hpath]; decide) hnew
  obtain ⟨newSegment, rfl⟩ := hok.mpr hpos.le
  obtain ⟨-, hitems, -, -, hstats⟩ := hcopied newSegment rfl
  exact ⟨segment, disk, newSegment, disk', m', hret, hitems, hstats, hsource⟩

section
variable {H : Hasher} {segments : List RecordSegment} {rss : List (List Record)}

theorem exists_holds {kepts : List (List (RecordOffset × Record))}
    (h : List.Forall₂ (FilledBy H) segments kepts) :
    ∃ rss, List.Forall₂ (Holds H) segments rss ∧ kepts = rss.map (placed H) := by
  induction h with
  | nil => exact ⟨[], .nil, rfl⟩
  | cons hfilled _ ih =>
      obtain ⟨rs, hrs, rfl⟩ := hfilled.holds
      obtain ⟨rss, hrss, rfl⟩ := ih
      exact ⟨rs :: rss, .cons hrs hrss, rfl⟩

theorem valid_of_holds (h : List.Forall₂ (Holds H) segments rss) :
    ∀ r ∈ rss.flatten, r.Valid := by
  induction h with
  | nil => exact fun _ hr => absurd hr List.not_mem_nil
  | cons hholds _ ih =>
      intro r hr
      rcases List.mem_append.mp hr with hr | hr
      · exact hholds.valid r hr
      · exact ih r hr

theorem sum_writePos (h : List.Forall₂ (Holds H) segments rss) :
    (segments.map (fun s => s.writePos)).sum = (frames H rss.flatten).length := by
  induction h with
  | nil => rfl
  | cons hholds _ ih =>
      rw [List.map_cons, List.sum_cons, ih, List.flatten_cons, frames_append, List.length_append,
        hholds.writePos]

end

/-- **A merge is the concatenation of its sources.**  Take any segments filled by
appends, the output's file being new and created without error.  The merge
returns; it succeeds iff what the sources use together fits the target size; and
the merged segment then yields their records in order, each right behind those
before it, and finds each by its number. -/
theorem merge_concatenates {H : Hasher} {fs : Files} {segments : List RecordSegment}
    {output : RecordSegment} {kepts : List (List (RecordOffset × Record))} {outputPath : String}
    {targetSize : Nat} {indexEnabled : Bool}
    (hfilled : List.Forall₂ (FilledBy H) segments kepts)
    (hnew : RecordSegment.new fs outputPath targetSize indexEnabled = .ok output) :
    ∃ result,
      Loop.Returns (mergeTurn H fs outputPath targetSize indexEnabled) (.creating segments)
        (some result) ∧
      ((∃ merged, result = .ok merged) ↔
        (segments.map (fun s => s.writePos)).sum ≤ targetSize) ∧
      ∀ merged, result = .ok merged → ∃ kept : List (RecordOffset × Record),
        (∀ items, Yields H merged items ↔ items = kept.map Except.ok) ∧
        kept.map Prod.snd = kepts.flatten.map Prod.snd ∧
        (∀ (i : Nat) (x : RecordOffset × Record), kept[i]? = some x →
          x.1 = ⟨((kept.take i).map (fun y => y.2.serializedSize)).sum, x.2.serializedSize⟩) ∧
        (indexEnabled = true → ∀ (i : Nat) (x : RecordOffset × Record), kept[i]? = some x →
          merged.readRecordByNum H i = some (.ok x.2)) := by
  obtain ⟨rss, hholds, rfl⟩ := exists_holds hfilled
  obtain ⟨hempty, hmax, hidx⟩ := holds_new (H := H) hnew
  have hret := merge_returns hholds hnew
  have hcopy := copyInto_holds hempty (valid_of_holds hholds)
  rw [List.nil_append, hmax, ← sum_writePos hholds] at hcopy
  rcases hcopy with ⟨hfits, merged, hcopy, hcopied, hsame⟩ | ⟨hfull, e, hcopy⟩
  · rw [hcopy] at hret
    refine ⟨_, hret, iff_of_true ⟨_, rfl⟩ hfits, ?_⟩
    rintro _ ⟨⟩
    refine ⟨placed H rss.flatten, fun _ => hcopied.yields_iff, ?_, ?_, ?_⟩
    · rw [placed_map_snd, List.map_flatten, List.map_map]
      have hsnd : List.map Prod.snd ∘ placed H = id := funext (placed_map_snd (H := H))
      rw [hsnd, List.map_id]
    · intro i x hx
      have htake : ((placed H rss.flatten).take i).map (fun y => y.2.serializedSize)
          = (rss.flatten.take i).map Record.serializedSize := by
        rw [← placed_map_snd (H := H) rss.flatten, ← List.map_take, List.map_map,
          placed_map_snd (H := H)]
        rfl
      rw [htake, ← frames_length (H := H)]
      rw [placed_getElem?] at hx
      obtain ⟨r, -, rfl⟩ := Option.map_eq_some_iff.mp hx
      rfl
    · intro hen i x hx
      rw [placed_getElem?] at hx
      obtain ⟨r, hr, rfl⟩ := Option.map_eq_some_iff.mp hx
      rw [readRecordByNum_of_holds hcopied (hsame.trans (hidx.trans hen)) i, hr]
  · rw [hcopy] at hret
    refine ⟨_, hret, iff_of_false ?_ (Nat.not_le.mpr hfull), ?_⟩
    · rintro ⟨_, ⟨⟩⟩
    · rintro _ ⟨⟩

/-- A segment merged with itself, into exactly the room for both. -/
theorem merge_concatenates_two : ∃ segment merged,
    Loop.Returns (mergeTurn crc32Hasher .fresh "merged.dat" 82 true)
      (.creating [segment, segment]) (some (.ok merged)) ∧
    ∃ kept : List (RecordOffset × Record),
      (∀ items, Yields crc32Hasher merged items ↔ items = kept.map Except.ok) ∧
      kept.map Prod.snd = [⟨1, [65]⟩, ⟨3, []⟩, ⟨1, [65]⟩, ⟨3, []⟩] := by
  obtain ⟨segment, hfilled, -, hpos⟩ := two_of_three
  obtain ⟨output, hnew⟩ : ∃ output,
      RecordSegment.new Files.fresh "merged.dat" 82 true = .ok output := ⟨_, rfl⟩
  obtain ⟨result, hret, hok, hmerged⟩ :=
    merge_concatenates (.cons hfilled (.cons hfilled .nil)) hnew
  obtain ⟨merged, rfl⟩ := hok.mpr (by simp only [List.map_cons, List.map_nil, hpos]; decide)
  obtain ⟨kept, hitems, hrecords, -, -⟩ := hmerged merged rfl
  exact ⟨segment, merged, hret, kept, hitems, hrecords⟩

end Dolda.Compaction
