/-
# `Dolda.Storage.Reopen` — a store opened again

A manager is dropped and another is made for the same partition, segment size and
directory, on the files the first one left (`Reopens`).  Each segment of the first
is still in its file, byte for byte.

The new manager does not look.  It has one segment, mapped onto the file of the
first, with its write position at 0: iterating yields nothing, and the first
append goes where the first record is.  So nothing is recovered, and nothing is
safe, unless nothing was appended (`reopened_iff`).
-/
import Dolda.Storage.Concurrent
import Dolda.Storage.Manager

namespace Dolda.Storage

/-- What `n` calls of `next` hand out, up to the first `None`. -/
def RecordIterator.items (H : Hasher) (s : RecordSegment) :
    Nat → RecordIterator → List (Except StorageError (RecordOffset × Record))
  | 0, _ => []
  | n + 1, it =>
      match it.next H s with
      | some (some item, it) => item :: items H s n it
      | _ => []

/-- A record, the segment it was appended to, and where in it. -/
structure Stored where
  segment : Nat
  offset : RecordOffset
  record : Record

namespace SegmentManager

/-- Successful appends, one after another, with what they stored. -/
inductive Lifetime (H : Hasher) (m : SegmentManager) : SegmentManager → List Stored → Prop where
  | opened : Lifetime H m m []
  | append {fs : Files} {r : Record} {offset : RecordOffset} {segment : Nat}
      {m' m'' : SegmentManager} {stored : List Stored} :
      Lifetime H m m' stored → r.serializedSize ≤ isizeMax →
        Loop.Returns (appendTurn H fs r) m' (some (.ok offset), m'') →
        m''.currentSegment = some segment →
          Lifetime H m m'' (stored ++ [{ segment, offset, record := r }])

/-- A manager made again on the files another has left. -/
structure Reopens (m m' : SegmentManager) : Prop where
  opened : ∃ (fs : Files) (indexEnabled : Bool),
    (∀ s ∈ m.segments, fs.openFile s.path = .ok s.mmap) ∧
    new fs m.partitionId m.segmentSize m.storageDir indexEnabled = .ok m'

/-- Iterating over the segments yields every record. -/
def Recovered (H : Hasher) (m : SegmentManager) (stored : List Stored) : Prop :=
  ∀ x ∈ stored, ∃ s ∈ m.segments, ∃ n offset,
    .ok (offset, x.record) ∈ s.iterRecords.items H s n

/-- No append is given bytes of any of the records. -/
def Untouched (H : Hasher) (m : SegmentManager) (stored : List Stored) : Prop :=
  ∀ m' added, Lifetime H m m' added → ∀ y ∈ added, ∀ x ∈ stored, x.segment = y.segment →
    World.Apart x.offset y.offset

section
variable {H : Hasher} {fs : Files} {m m' m'' : SegmentManager} {r : Record} {size : Nat}
  {stored : List Stored}

/-! ## A new manager -/

theorem new_ok {partitionId : Nat} {storageDir : String} {indexEnabled : Bool}
    (h : new fs partitionId size storageDir indexEnabled = .ok m) :
    ∃ s : RecordSegment, m.segments = [s] ∧ m.currentSegment = some 0 ∧ s.Filled [] ∧
      s.maxSize = size ∧ m.segmentSize = size := by
  simp only [new] at h
  split at h
  · cases h
  obtain ⟨s, hsegment, rfl⟩ := createNewSegment_ok h
  obtain ⟨hfilled, hmax, -⟩ := RecordSegment.new_ok hsegment
  exact ⟨s, rfl, rfl, hfilled, hmax, rfl⟩

/-- A manager with one empty segment, such as a new one. -/
structure Fresh (size : Nat) (m : SegmentManager) : Prop where
  healthy : m.Healthy size
  segment : ∃ s : RecordSegment, m.segments = [s] ∧ m.currentSegment = some 0 ∧ s.Filled [] ∧
    s.maxSize = size

theorem Fresh.of_new {partitionId : Nat} {storageDir : String} {indexEnabled : Bool}
    (h : new fs partitionId size storageDir indexEnabled = .ok m) : m.Fresh size := by
  obtain ⟨s, hsegs, hcur, hfilled, hmax, -⟩ := new_ok h
  exact ⟨new_healthy h, s, hsegs, hcur, hfilled, hmax⟩

/-- **The first record** of a manager goes to the start of its first segment. -/
theorem Fresh.append_fits (h : m.Fresh size) (H : Hasher) (fs : Files)
    (hfit : r.serializedSize ≤ size) :
    ∃ m' s, appendTurn H fs r m
        = .inr (some (.ok { offset := 0, size := r.serializedSize }), m') ∧
      m'.currentSegment = some 0 ∧ m'.segments = [s] := by
  obtain ⟨s, hsegs, hcur, hfilled, hmax⟩ := h.segment
  have hpos : s.writePos = 0 := hfilled.writePos
  have hle : s.writePos + r.serializedSize ≤ s.maxSize := by
    rw [hpos, hmax, Nat.zero_add]
    exact hfit
  have hlast : m.segments = [] ++ [s] := hsegs
  have hturn := appendTurn_last H fs hlast hcur hle
  rw [hpos] at hturn
  exact ⟨_, _, hturn, hcur, put_last hlast _⟩

theorem Healthy.size_le_of_append (h : m.Healthy size) (hr : r.serializedSize ≤ isizeMax)
    {offset : RecordOffset}
    (hret : Loop.Returns (appendTurn H fs r) m (some (.ok offset), m')) :
    r.serializedSize ≤ size := by
  have hpost := Loop.Returns.post (Healthy size)
    (fun x => (∃ offset, x.1 = some (.ok offset)) → r.serializedSize ≤ size) ?_ ?_ h hret
  · exact hpost ⟨offset, rfl⟩
  · intro m m' h hturn
    exact ((append_retries H fs size hr).grows.goesOn h hturn).1
  · intro m₁ x h hturn
    by_cases hspace : m₁.hasSpace r.serializedSize = true
    · intro _
      exact h.le_of_hasSpace hr hspace
    · rw [h.appendTurn_full hspace] at hturn
      split at hturn
      · cases hturn
        rintro ⟨offset, hok⟩
        cases hok
      · cases hturn

theorem Fresh.append (h : m.Fresh size) (hr : r.serializedSize ≤ isizeMax)
    {offset : RecordOffset}
    (hret : Loop.Returns (appendTurn H fs r) m (some (.ok offset), m')) :
    offset = { offset := 0, size := r.serializedSize } ∧ m'.currentSegment = some 0 := by
  obtain ⟨m₁, -, hturn, hcur, -⟩ :=
    h.append_fits H fs (h.healthy.size_le_of_append hr hret)
  rw [Loop.returns_inr hturn] at hret
  cases hret
  exact ⟨rfl, hcur⟩

/-! ## Two lifetimes

Whatever a manager stores first lies at the start of its first segment.  A manager made
again is as new: iterating over it yields nothing, and the first record appended again
is appended over itself. -/

theorem Lifetime.healthy (h : Lifetime H m m' stored) (hm : m.Healthy size) :
    m'.Healthy size := by
  induction h with
  | opened => exact hm
  | append _ hr hret _ ih => exact ih.append hr hret

theorem Lifetime.first (h : Lifetime H m m' stored) (hm : m.Fresh size) :
    (stored = [] ∧ m' = m) ∨ ∃ r rest, r.serializedSize ≤ isizeMax ∧ r.serializedSize ≤ size ∧
      stored = { segment := 0, offset := ⟨0, r.serializedSize⟩, record := r } :: rest := by
  induction h with
  | opened => exact Or.inl ⟨rfl, rfl⟩
  | @append fs r offset segment m' m'' stored hlife hr hret hcur ih =>
      right
      rcases ih with ⟨rfl, rfl⟩ | ⟨r₀, rest, hr₀, hsize, rfl⟩
      · obtain ⟨rfl, hcur'⟩ := hm.append hr hret
        cases hcur.symm.trans hcur'
        exact ⟨r, [], hr, hm.healthy.size_le_of_append hr hret, rfl⟩
      · exact ⟨r₀, _, hr₀, hsize, rfl⟩

theorem Reopens.fresh (h : Reopens m m') (hm : m.Healthy size) : m'.Fresh size := by
  obtain ⟨fs, indexEnabled, -, hnew⟩ := h.opened
  rw [hm.segmentSize] at hnew
  exact .of_new hnew

theorem Fresh.items (h : m.Fresh size) {s : RecordSegment} (hs : s ∈ m.segments) :
    ∀ n, s.iterRecords.items H s n = [] := by
  obtain ⟨s', hsegs, -, hfilled, -⟩ := h.segment
  rw [hsegs] at hs
  cases List.mem_singleton.mp hs
  have hpos : s.writePos = 0 := hfilled.writePos
  have hend : s.iterRecords.next H s = some (none, s.iterRecords) :=
    if_pos (by rw [RecordSegment.iterRecords, hpos])
  intro n
  cases n with
  | zero => rfl
  | succ n => rw [RecordIterator.items, hend]

theorem Fresh.recovered_iff (h : m.Fresh size) : Recovered H m stored ↔ stored = [] := by
  constructor
  · intro hrec
    cases stored with
    | nil => rfl
    | cons x rest =>
        obtain ⟨s, hs, n, offset, hitem⟩ := hrec x List.mem_cons_self
        rw [h.items hs n] at hitem
        cases hitem
  · rintro rfl x hx
    cases hx

theorem Fresh.untouched_iff (h : m.Fresh size) {m₀ m₁ : SegmentManager}
    (hlife : Lifetime H m₀ m₁ stored) (h₀ : m₀.Fresh size) :
    Untouched H m stored ↔ stored = [] := by
  constructor
  · intro huntouched
    rcases hlife.first h₀ with ⟨hnil, -⟩ | ⟨r, rest, hr, hsize, rfl⟩
    · exact hnil
    obtain ⟨m', -, hturn, hcur, -⟩ := h.append_fits H .fresh hsize
    have hagain : Lifetime H m m' [⟨0, ⟨0, r.serializedSize⟩, r⟩] :=
      Lifetime.opened.append hr ((Loop.returns_inr hturn).mpr rfl) hcur
    have hapart : 0 + r.serializedSize ≤ 0 ∨ 0 + r.serializedSize ≤ 0 :=
      huntouched _ _ hagain _ List.mem_cons_self _ List.mem_cons_self rfl
    have hpos := r.serializedSize_pos
    omega
  · rintro rfl m' added - y - x hx
    cases hx

end

/-! ### One record -/

/-- The files a manager leaves, on a system where everything succeeds. -/
def left (m : SegmentManager) : Files :=
  { Files.fresh with
    openFile := fun path =>
      match m.segments.find? (fun s => s.path = path) with
      | none => .ok []
      | some s => .ok s.mmap }

theorem left_willing (m : SegmentManager) : m.left.Willing where
  createDirAll _ := rfl
  openFile path := by
    simp only [left]
    split
    · exact ⟨_, rfl⟩
    · exact ⟨_, rfl⟩
  setLen _ _ := rfl
  mapFile _ := rfl

theorem reopens_left {m : SegmentManager} {s : RecordSegment} (hsegs : m.segments = [s])
    (hsize : m.segmentSize ≤ isizeMax) : ∃ m', Reopens m m' := by
  obtain ⟨m', hnew⟩ := new_willing m.left_willing m.partitionId m.storageDir false hsize
  refine ⟨m', m.left, false, ?_, hnew⟩
  intro s' hs'
  rw [hsegs] at hs'
  cases List.mem_singleton.mp hs'
  simp only [left, hsegs, List.find?_cons, decide_true]

/-- What a store holds to which one record was appended. -/
def oneStored : List Stored := [⟨0, ⟨0, 21⟩, ⟨1, [65]⟩⟩]

theorem one_record_reopened : ∃ m₀ m m',
    new Files.fresh 1 64 "data" false = .ok m₀ ∧
    Lifetime crc32Hasher m₀ m oneStored ∧ Reopens m m' := by
  obtain ⟨m₀, hnew⟩ :=
    new_willing Files.fresh_willing 1 "data" false (show 64 ≤ isizeMax by decide)
  have hsize : (⟨1, [65]⟩ : Record).serializedSize ≤ isizeMax := by decide
  obtain ⟨m, s, hturn, hcur, hsegs⟩ :=
    (Fresh.of_new hnew).append_fits (r := ⟨1, [65]⟩) crc32Hasher .fresh (by decide)
  have hlife : Lifetime crc32Hasher m₀ m oneStored :=
    Lifetime.opened.append hsize ((Loop.returns_inr hturn).mpr rfl) hcur
  have hsegmentSize := (hlife.healthy (Fresh.of_new hnew).healthy).segmentSize
  obtain ⟨m', hopen⟩ := reopens_left hsegs (hsegmentSize ▸ by decide)
  exact ⟨m₀, m, m', hnew, hlife, hopen⟩

/-- **A store opened again** yields the records appended before, and keeps their
bytes from new appends, only if there are none. -/
theorem reopened_iff {H : Hasher} {fs : Files} {partitionId size : Nat} {storageDir : String}
    {indexEnabled : Bool} {m₀ m m' : SegmentManager} {stored : List Stored}
    (hnew : new fs partitionId size storageDir indexEnabled = .ok m₀)
    (hlife : Lifetime H m₀ m stored) (hopen : Reopens m m') :
    (Recovered H m' stored ↔ stored = []) ∧ (Untouched H m' stored ↔ stored = []) := by
  have h₀ := Fresh.of_new hnew
  have hfresh := hopen.fresh (hlife.healthy h₀.healthy)
  exact ⟨hfresh.recovered_iff, hfresh.untouched_iff hlife h₀⟩

theorem reopened_iff_one : ∃ m', (Recovered crc32Hasher m' oneStored ↔ oneStored = []) ∧
    (Untouched crc32Hasher m' oneStored ↔ oneStored = []) := by
  obtain ⟨m₀, m, m', hnew, hlife, hopen⟩ := one_record_reopened
  exact ⟨m', reopened_iff hnew hlife hopen⟩

/-- **One record is lost**: of a store with one record, opened again, iterating
yields nothing, and new appends are given the bytes of the record. -/
theorem record_lost : ∃ m₀ m m',
    new Files.fresh 1 64 "data" false = .ok m₀ ∧ Lifetime crc32Hasher m₀ m oneStored ∧
    Reopens m m' ∧ ¬ Recovered crc32Hasher m' oneStored ∧
    ¬ Untouched crc32Hasher m' oneStored := by
  obtain ⟨m₀, m, m', hnew, hlife, hopen⟩ := one_record_reopened
  have h₀ := Fresh.of_new hnew
  have hfresh := hopen.fresh (hlife.healthy h₀.healthy)
  refine ⟨m₀, m, m', hnew, hlife, hopen, ?_, ?_⟩
  · rw [hfresh.recovered_iff]
    exact List.cons_ne_nil _ _
  · rw [hfresh.untouched_iff hlife h₀]
    exact List.cons_ne_nil _ _

end SegmentManager

end Dolda.Storage
