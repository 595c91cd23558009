/-
# `Dolda.Storage.Manager` — segments in rotation

`SegmentManager` of `src/storage.rs`: the segments of one partition, of which
the last is written to.  An append looks whether the current segment has space,
creates a new segment when it has not, and goes round again; one round is
`appendTurn`, and the append is the loop over it.

In the source the current segment is a second reference to one of the segments;
here it is that segment's position.
-/
import Dolda.Lib.Loop
import Dolda.Storage.Segment

namespace Dolda.Storage

structure SegmentManager where
  partitionId : Nat
  segments : List RecordSegment
  currentSegment : Option Nat
  segmentSize : Nat
  storageDir : String
  indexEnabled : Bool

namespace SegmentManager

def segmentPath (m : SegmentManager) (segmentId : Nat) : String :=
  m.storageDir ++ "/partition_" ++ toString m.partitionId ++ "_segment_" ++ toString segmentId
    ++ ".dat"

def createNewSegment (fs : Files) (m : SegmentManager) : Except StorageError SegmentManager :=
  match RecordSegment.new fs (m.segmentPath m.segments.length) m.segmentSize m.indexEnabled with
  | .error e => .error e
  | .ok segment =>
      .ok
        { m with
          segments := m.segments ++ [segment]
          currentSegment := some m.segments.length }

def new (fs : Files) (partitionId segmentSize : Nat) (storageDir : String) (indexEnabled : Bool) :
    Except StorageError SegmentManager :=
  match fs.createDirAll storageDir with
  | .error e => .error (.io e)
  | .ok () =>
      createNewSegment fs
        { partitionId, segments := [], currentSegment := none, segmentSize, storageDir,
          indexEnabled }

/-- The current segment and its position. -/
def current (m : SegmentManager) : Option (Nat × RecordSegment) :=
  match m.currentSegment with
  | none => none
  | some i =>
      match m.segments[i]? with
      | none => none
      | some segment => some (i, segment)

/-- Whether there is a current segment with space. -/
def hasSpace (m : SegmentManager) (recordSize : Nat) : Bool :=
  match m.current with
  | none => false
  | some (_, segment) => segment.hasSpace recordSize

def put (m : SegmentManager) (i : Nat) (segment : RecordSegment) : SegmentManager :=
  { m with segments := m.segments.set i segment }

/-- The slow path: check again, create a segment, go round again. -/
def slowPath (fs : Files) (m : SegmentManager) (recordSize : Nat) :
    SegmentManager ⊕ (Option (Except StorageError RecordOffset) × SegmentManager) :=
  if m.hasSpace recordSize then .inl m
  else
    match m.createNewSegment fs with
    | .error e => .inr (some (.error e), m)
    | .ok m => .inl m

/-- One round of `append_record`. -/
def appendTurn (H : Hasher) (fs : Files) (r : Record) (m : SegmentManager) :
    SegmentManager ⊕ (Option (Except StorageError RecordOffset) × SegmentManager) :=
  match m.current with
  | none => m.slowPath fs r.serializedSize
  | some (i, segment) =>
      if segment.hasSpace r.serializedSize then
        match segment.appendRecord H r with
        | none => .inr (none, m)
        | some (.ok offset, segment) => .inr (some (.ok offset), m.put i segment)
        | some (.error (.segmentFull _ _), segment) =>
            (m.put i segment).slowPath fs r.serializedSize
        | some (.error e, segment) => .inr (some (.error e), m.put i segment)
      else m.slowPath fs r.serializedSize

/-! ## The states of a manager

In every state the last segment is the current one, and its write position is inside it.
So a round appends, or creates a segment and goes round again; and what has no space in
a new segment will not have any in the next. -/

/-- The states one thread brings a manager to. -/
inductive Reached (H : Hasher) : SegmentManager → Prop where
  | new {fs : Files} {partitionId segmentSize : Nat} {storageDir : String} {indexEnabled : Bool}
      {m : SegmentManager} :
      SegmentManager.new fs partitionId segmentSize storageDir indexEnabled = .ok m → Reached H m
  | append {fs : Files} {r : Record} {m m' : SegmentManager}
      {result : Option (Except StorageError RecordOffset)} :
      Reached H m → r.serializedSize ≤ isizeMax →
        Loop.Returns (appendTurn H fs r) m (result, m') → Reached H m'

/-- The last segment is current, its size that of the configuration and its
write position inside it. -/
structure Healthy (size : Nat) (m : SegmentManager) : Prop where
  segmentSize : m.segmentSize = size
  current : ∃ full segment, m.segments = full ++ [segment] ∧
    m.currentSegment = some full.length ∧ segment.maxSize = size ∧
    segment.writePos ≤ segment.maxSize

section
variable {H : Hasher} {fs : Files} {m m' : SegmentManager} {r : Record} {n size : Nat}
  {full : List RecordSegment} {segment : RecordSegment}

theorem current_of_last (hsegs : m.segments = full ++ [segment])
    (hcur : m.currentSegment = some full.length) : m.current = some (full.length, segment) := by
  simp only [current, hcur, hsegs, List.getElem?_concat_length]

theorem put_last (hsegs : m.segments = full ++ [segment]) (segment' : RecordSegment) :
    (m.put full.length segment').segments = full ++ [segment'] := by
  simp only [put, hsegs, List.set_append_right _ _ (Nat.le_refl _), Nat.sub_self,
    List.set_cons_zero]

/-- **A round where the record fits the last segment.** -/
theorem appendTurn_last (H : Hasher) (fs : Files) (hsegs : m.segments = full ++ [segment])
    (hcur : m.currentSegment = some full.length)
    (hfit : segment.writePos + r.serializedSize ≤ segment.maxSize) :
    appendTurn H fs r m = .inr (some (.ok ⟨segment.writePos, r.serializedSize⟩),
      m.put full.length (segment.appended H r hfit)) := by
  have hmax := segment.maxSize_le
  have hspace : segment.hasSpace r.serializedSize = true :=
    (MappedFile.hasSpace_iff (by omega) (by omega)).mpr hfit
  have happ := RecordSegment.appendRecord_of_fits (H := H) hfit
  simp only [appendTurn, current_of_last hsegs hcur, if_pos hspace, happ]

theorem createNewSegment_ok (h : m.createNewSegment fs = .ok m') :
    ∃ segment, RecordSegment.new fs (m.segmentPath m.segments.length) m.segmentSize m.indexEnabled
        = .ok segment ∧
      m' = { m with
        segments := m.segments ++ [segment]
        currentSegment := some m.segments.length } := by
  simp only [createNewSegment] at h
  split at h
  · cases h
  · rename_i segment hnew
    cases h
    exact ⟨segment, hnew, rfl⟩

/-- A manager with a new segment is healthy, and has space for what fits a
segment. -/
theorem created (h : m.createNewSegment fs = .ok m') :
    m'.Healthy m.segmentSize ∧ m'.segments.length = m.segments.length + 1 ∧
      (n ≤ isizeMax → (m'.hasSpace n = true ↔ n ≤ m.segmentSize)) := by
  obtain ⟨segment, hnew, rfl⟩ := createNewSegment_ok h
  obtain ⟨hfilled, hmax, -⟩ := RecordSegment.new_ok hnew
  refine ⟨⟨rfl, m.segments, segment, rfl, rfl, hmax, hfilled.inside⟩, List.length_append, ?_⟩
  intro hn
  rw [hasSpace, current_of_last rfl rfl]
  show segment.hasSpace n = true ↔ _
  rw [MappedFile.hasSpace_iff hfilled.inside hn, hfilled.writePos, hmax, List.length_nil,
    Nat.zero_add]

theorem new_healthy {partitionId : Nat} {storageDir : String} {indexEnabled : Bool}
    (h : new fs partitionId size storageDir indexEnabled = .ok m) : m.Healthy size := by
  simp only [new] at h
  split at h
  · cases h
  · exact (created (n := 0) h).1

theorem createNewSegment_willing (hfs : fs.Willing) (m : SegmentManager)
    (h : m.segmentSize ≤ isizeMax) : ∃ m', m.createNewSegment fs = .ok m' := by
  obtain ⟨file, hfile⟩ := MappedFile.create_willing hfs (m.segmentPath m.segments.length) h
  simp only [createNewSegment, RecordSegment.new, hfile]
  exact ⟨_, rfl⟩

theorem new_willing (hfs : fs.Willing) (partitionId : Nat) (storageDir : String)
    (indexEnabled : Bool) (h : size ≤ isizeMax) :
    ∃ m, new fs partitionId size storageDir indexEnabled = .ok m := by
  rw [new, hfs.createDirAll]
  exact createNewSegment_willing hfs _ h

/-- What has space in a healthy manager fits a segment. -/
theorem Healthy.le_of_hasSpace (h : m.Healthy size) (hn : n ≤ isizeMax)
    (hspace : m.hasSpace n = true) : n ≤ size := by
  obtain ⟨full, segment, hsegs, hcur, hmax, hin⟩ := h.current
  rw [hasSpace, current_of_last hsegs hcur] at hspace
  have hle := (MappedFile.hasSpace_iff hin hn).mp hspace
  omega

/-- **A round where the record fits** appends it. -/
theorem Healthy.appendTurn_fits (h : m.Healthy size) (H : Hasher) (fs : Files)
    (hr : r.serializedSize ≤ isizeMax)
    (hspace : m.hasSpace r.serializedSize = true) :
    ∃ offset m', appendTurn H fs r m = .inr (some (.ok offset), m') ∧ m'.Healthy size ∧
      m'.segments.length = m.segments.length := by
  obtain ⟨full, segment, hsegs, hcur, hmax, hin⟩ := h.current
  have hcurrent := current_of_last hsegs hcur
  rw [hasSpace, hcurrent] at hspace
  have hfit := (MappedFile.hasSpace_iff hin hr).mp hspace
  refine ⟨⟨segment.writePos, r.serializedSize⟩, m.put full.length (segment.appended H r hfit),
    appendTurn_last H fs hsegs hcur hfit,
    ⟨h.segmentSize, full, segment.appended H r hfit, put_last hsegs _, hcur, hmax, ?_⟩,
    List.length_set⟩
  rw [RecordSegment.appended_writePos]
  exact hfit

/-- **A round where it does not** goes down the slow path and creates a
segment. -/
theorem Healthy.appendTurn_full (h : m.Healthy size)
    (hspace : ¬ m.hasSpace r.serializedSize = true) :
    appendTurn H fs r m =
      match m.createNewSegment fs with
      | .error e => .inr (some (.error e), m)
      | .ok m => .inl m := by
  obtain ⟨full, segment, hsegs, hcur, -, -⟩ := h.current
  have hcurrent := current_of_last hsegs hcur
  have hseg : ¬ segment.hasSpace r.serializedSize = true := by
    rwa [hasSpace, hcurrent] at hspace
  simp only [appendTurn, hcurrent]
  rw [if_neg hseg, slowPath, if_neg hspace]

/-- **An append retries** until the record fits or a segment cannot be
created. -/
theorem append_retries (H : Hasher) (fs : Files) (size : Nat) (hr : r.serializedSize ≤ isizeMax) :
    Loop.Retries (appendTurn H fs r) (fun m => m.hasSpace r.serializedSize = true)
      (createNewSegment fs) (r.serializedSize ≤ size)
      (fun x => x.1.isSome = true) (fun m => m.segments.length) (fun x => x.2.segments.length)
      (Healthy size) where
  done h hspace := by
    obtain ⟨offset, m', hturn, -, hlen⟩ := h.appendTurn_fits H fs hr hspace
    exact ⟨_, hturn, rfl, hlen⟩
  failed h hspace hgrow := by
    rw [h.appendTurn_full hspace, hgrow]
    exact ⟨_, rfl, rfl, rfl⟩
  goesOn h hspace hgrow := by rw [h.appendTurn_full hspace, hgrow]
  grown h hgrow := by
    obtain ⟨hhealthy, hlen, hspace⟩ := created hgrow
    rw [h.segmentSize] at hhealthy hspace
    exact ⟨hhealthy, hlen, hspace hr⟩
  fits_small h hspace := h.le_of_hasSpace hr hspace

/-- An append leaves the manager healthy, however it ends. -/
theorem Healthy.append (h : m.Healthy size) {result : Option (Except StorageError RecordOffset)}
    (hr : r.serializedSize ≤ isizeMax)
    (hret : Loop.Returns (appendTurn H fs r) m (result, m')) : m'.Healthy size := by
  have hretries := append_retries H fs size hr
  refine Loop.Returns.post (Healthy size) (fun x => x.2.Healthy size) ?_ ?_ h hret
  · intro m m' h hturn
    exact (hretries.grows.goesOn h hturn).1
  · intro m₁ x h hturn
    by_cases hspace : m₁.hasSpace r.serializedSize = true
    · obtain ⟨offset, m', hturn', hhealthy, -⟩ := h.appendTurn_fits H fs hr hspace
      cases hturn.symm.trans hturn'
      exact hhealthy
    · rw [h.appendTurn_full hspace] at hturn
      split at hturn
      · cases hturn
        exact h
      · cases hturn

/-- Every state one thread brings a manager to is healthy. -/
theorem Reached.healthy (h : Reached H m) : m.Healthy m.segmentSize := by
  induction h with
  | new hnew =>
      have hhealthy := new_healthy hnew
      rwa [hhealthy.segmentSize]
  | append _ hr hret ih =>
      have hhealthy := ih.append hr hret
      rwa [hhealthy.segmentSize]

end

/-! ## When an append is bounded -/

/-- The append returns, with `Ok` or `Err`, having created at most one segment. -/
def BoundedAppend (H : Hasher) (fs : Files) (r : Record) (m : SegmentManager) : Prop :=
  ∃ result m', Loop.Returns (appendTurn H fs r) m (some result, m') ∧
    m'.segments.length ≤ m.segments.length + 1

/-- Of the next two segments one cannot be created. -/
def CreationFails (fs : Files) (m : SegmentManager) : Prop :=
  (∃ e, m.createNewSegment fs = .error e) ∨
    ∃ m' e, m.createNewSegment fs = .ok m' ∧ m'.createNewSegment fs = .error e

section
variable {m : SegmentManager} {r : Record} {size : Nat}

/-- An append is bounded iff the record fits a segment or the segments it would
need cannot be created. -/
theorem Healthy.boundedAppend_iff (h : m.Healthy size) (H : Hasher) (fs : Files)
    (hr : r.serializedSize ≤ isizeMax) :
    BoundedAppend H fs r m ↔ r.serializedSize ≤ size ∨ m.CreationFails fs := by
  have hiff := (append_retries H fs size hr).bounded_iff h
  rw [BoundedAppend, Loop.exists_returns_some, hiff, CreationFails]

/-- A record that fits no segment keeps the append going for as long as segments
can be created. -/
theorem Healthy.append_never_ends (h : m.Healthy size) (H : Hasher) {fs : Files}
    (hr : r.serializedSize ≤ isizeMax) (hbig : size < r.serializedSize)
    (hcreate : ∀ m' : SegmentManager, m'.segmentSize = size →
      ∃ m'', m'.createNewSegment fs = .ok m'') :
    ¬ Loop.Terminates (appendTurn H fs r) m :=
  (append_retries H fs size hr).not_terminates (Nat.not_le.mpr hbig)
    (fun m' h' => hcreate m' h'.segmentSize) h

end

end SegmentManager

end Dolda.Storage
