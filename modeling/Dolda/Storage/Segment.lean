/-
# `Dolda.Storage.Segment` — a segment of records

`RecordSegment` of `src/storage.rs`: a mapped file that records are appended to,
with an atomic record count and, when enabled, an index from byte offsets to
record numbers.  The model follows the source operation for operation; what is
left out of it is the timing and the metrics, which no result depends on.

**The spec lemmas.**

    the record fits    ⟹  `Ok` at the old position, state `appended`   (`appendRecord_of_fits`)
    it does not        ⟹  `SegmentFull`, state unchanged               (`appendRecord_of_full`)
-/
import Dolda.Lib.SortedMap
import Dolda.Files
import Dolda.Record

namespace Dolda

/-- A frame is no longer than a slice can be. -/
theorem Record.Valid.size_le {r : Record} (h : r.Valid) : r.serializedSize ≤ isizeMax :=
  h.serializedSize_le.trans (by decide)

namespace Storage

open Memory

inductive StorageError where
  | segmentFull (needed available : Nat)
  | record (e : RecordError)
  | io (message : String)
  | offsetOutOfBounds (offset : Nat)
  | invalidState
deriving DecidableEq, Repr

structure RecordOffset where
  offset : Nat
  size : Nat
deriving DecidableEq, Repr

structure IndexEntry where
  recordNum : Nat
  offset : Nat
  size : Nat
  timestamp : UInt64
deriving DecidableEq, Repr

structure RecordSegment extends MappedFile where
  path : String
  recordCount : Nat
  /-- The `BTreeMap` from offsets to entries, in key order. -/
  index : List (Nat × IndexEntry)
  indexEnabled : Bool

/-- `RecordIterator`; the segment it borrows is an argument of `next`. -/
structure RecordIterator where
  currentOffset : Nat
  endOffset : Nat
deriving DecidableEq, Repr

/-- Every failure of creating the file is an `Io` error here. -/
def StorageError.ofFile : FileError → StorageError
  | .opening e | .settingLen e | .mapping e => .io e

structure SegmentStats where
  path : String
  maxSize : Nat
  usedBytes : Nat
  recordCount : Nat
  indexEnabled : Bool
  indexSize : Nat
deriving DecidableEq, Repr

namespace RecordSegment

def new (fs : Files) (path : String) (maxSize : Nat) (indexEnabled : Bool) :
    Except StorageError RecordSegment :=
  match MappedFile.create fs path maxSize with
  | .error e => .error (.ofFile e)
  | .ok file =>
      .ok { toMappedFile := file, path, recordCount := 0, index := [], indexEnabled }

/-- `record_count.fetch_add(1)`. -/
def countRecord (s : RecordSegment) : RecordSegment :=
  { s with recordCount := U64.add s.recordCount 1 }

/-- `index.write().insert(offset, entry)`, if the index is built at all. -/
def indexRecord (s : RecordSegment) (entry : IndexEntry) : RecordSegment :=
  { s with
    index := if s.indexEnabled then SortedMap.insert entry.offset entry s.index else s.index }

def appendRecord (H : Hasher) (s : RecordSegment) (r : Record) :
    Option (Except StorageError RecordOffset × RecordSegment) :=
  let framed := r.serialize H
  let recordSize := framed.size
  match s.toMappedFile.append framed.bytes with
  | none => none
  | some (none, file) =>
      some (.error (.segmentFull recordSize (U64.sub s.maxSize s.writePos)),
        { s with toMappedFile := file })
  | some (some offset, file) =>
      let s := { s with toMappedFile := file }
      let recordNum := s.recordCount
      let s := s.countRecord
      let s := s.indexRecord ⟨recordNum, offset, recordSize, r.timestamp⟩
      some (.ok ⟨offset, recordSize⟩, s)

def readRecord (H : Hasher) (s : RecordSegment) (offset : Nat) :
    Option (Except StorageError Record) :=
  let currentPos := s.writePos
  if currentPos ≤ offset then some (.error (.offsetOutOfBounds offset))
  else
    match slice s.mmap offset currentPos with
    | none => none
    | some data =>
        match Record.deserialize H data with
        | .error e => some (.error (.record e))
        | .ok (record, _) => some (.ok record)

def readRecordByNum (H : Hasher) (s : RecordSegment) (recordNum : Nat) :
    Option (Except StorageError Record) :=
  if s.indexEnabled then
    match (s.index.map Prod.snd).find? (fun e => e.recordNum == recordNum) with
    | none => some (.error (.offsetOutOfBounds recordNum))
    | some entry => s.readRecord H entry.offset
  else some (.error .invalidState)

def iterRecords (s : RecordSegment) : RecordIterator := ⟨0, s.writePos⟩

def stats (s : RecordSegment) : SegmentStats where
  path := s.path
  maxSize := s.maxSize
  usedBytes := s.writePos
  recordCount := s.recordCount
  indexEnabled := s.indexEnabled
  indexSize := s.index.length

end RecordSegment

/-- One call of `next`: the item, and the iterator after it. -/
def RecordIterator.next (H : Hasher) (s : RecordSegment) (it : RecordIterator) :
    Option (Option (Except StorageError (RecordOffset × Record)) × RecordIterator) :=
  if it.endOffset ≤ it.currentOffset then some (none, it)
  else
    let offset := it.currentOffset
    match s.readRecord H offset with
    | none => none
    | some (.ok record) =>
        let size := record.serializedSize
        some (some (.ok (⟨offset, size⟩, record)),
          { it with currentOffset := U64.add it.currentOffset size })
    | some (.error e) => some (some (.error e), it)

/-! ## One append, alone -/

namespace RecordSegment
variable {H : Hasher} {s : RecordSegment} {r : Record}

theorem new_ok {fs : Files} {path : String} {maxSize : Nat} {indexEnabled : Bool}
    (h : new fs path maxSize indexEnabled = .ok s) :
    s.Filled [] ∧ s.maxSize = maxSize ∧ s.recordCount = 0 ∧ s.index = [] ∧
      s.indexEnabled = indexEnabled := by
  simp only [new] at h
  split at h
  · cases h
  · rename_i file hfile
    cases h
    exact ⟨.create hfile, (MappedFile.create_ok hfile).1, rfl, rfl, rfl⟩

/-- The segment as its file on the disk shows it. -/
def attach (disk : Disk) (s : RecordSegment) : RecordSegment :=
  { s with
    mmap := resize (disk s.path) s.maxSize
    mmap_length := resize_length _ _ }

theorem attach_self {disk : Disk} (h : disk s.path = s.mmap) : s.attach disk = s := by
  have hmap : resize (disk s.path) s.maxSize = s.mmap := by
    rw [h, ← s.mmap_length, resize_self]
  obtain ⟨⟨maxSize, writePos, mmap, hlen, hle⟩, path, recordCount, index, indexEnabled⟩ := s
  simp only [attach, RecordSegment.mk.injEq, MappedFile.mk.injEq, and_true, true_and]
  exact hmap

theorem new_path {fs : Files} {path : String} {maxSize : Nat} {indexEnabled : Bool}
    (h : new fs path maxSize indexEnabled = .ok s) : s.path = path := by
  simp only [new] at h
  split at h
  · cases h
  · cases h
    rfl

theorem appendRecord_path {s' : RecordSegment} {result : Except StorageError RecordOffset}
    (h : s.appendRecord H r = some (result, s')) : s'.path = s.path := by
  rw [appendRecord] at h
  dsimp only at h
  split at h
  · cases h
  · cases h
    rfl
  · cases h
    rfl

/-- The segment after a record has gone in. -/
def appended (H : Hasher) (s : RecordSegment) (r : Record)
    (h : s.writePos + r.serializedSize ≤ s.maxSize) : RecordSegment :=
  { s with
    toMappedFile := s.extended (r.serialize H).bytes (by rwa [Record.serialize_length])
    recordCount := U64.add s.recordCount 1
    index :=
      if s.indexEnabled then
        SortedMap.insert s.writePos ⟨s.recordCount, s.writePos, r.serializedSize, r.timestamp⟩
          s.index
      else s.index }

@[simp] theorem appended_writePos (h : s.writePos + r.serializedSize ≤ s.maxSize) :
    (s.appended H r h).writePos = s.writePos + r.serializedSize := by
  show s.writePos + (r.serialize H).bytes.length = _
  rw [Record.serialize_length]

theorem appendRecord_of_fits (h : s.writePos + r.serializedSize ≤ s.maxSize) :
    s.appendRecord H r = some (.ok ⟨s.writePos, r.serializedSize⟩, s.appended H r h) := by
  have hlen : s.writePos + (r.serialize H).bytes.length ≤ s.maxSize := by
    rwa [Record.serialize_length]
  have happ := MappedFile.append_of_fits hlen
  simp only [appendRecord, Record.serialize_size, happ, countRecord, indexRecord, appended]

theorem appendRecord_of_full (hpos : s.writePos ≤ s.maxSize)
    (hsize : r.serializedSize ≤ isizeMax) (h : s.maxSize < s.writePos + r.serializedSize) :
    s.appendRecord H r
      = some (.error (.segmentFull r.serializedSize (s.maxSize - s.writePos)), s) := by
  have hmax := s.maxSize_le
  simp only [isizeMax] at hmax
  rw [← Record.serialize_length H r] at hsize h
  have happ := MappedFile.append_of_full hpos hsize h
  have hsub : U64.sub s.maxSize s.writePos = s.maxSize - s.writePos :=
    U64.sub_of_le hpos (by omega)
  simp only [appendRecord, Record.serialize_size, happ, hsub]

/-- **The spec of an append, alone**: `has_space` decides. -/
theorem appendRecord_cases (H : Hasher) (hpos : s.writePos ≤ s.maxSize)
    (hsize : r.serializedSize ≤ isizeMax) :
    (∃ hfit, s.hasSpace r.serializedSize = true ∧
      s.appendRecord H r = some (.ok ⟨s.writePos, r.serializedSize⟩, s.appended H r hfit)) ∨
    (s.hasSpace r.serializedSize = false ∧
      s.appendRecord H r
        = some (.error (.segmentFull r.serializedSize (s.maxSize - s.writePos)), s)) := by
  have hspace := MappedFile.hasSpace_iff hpos hsize
  cases h : s.hasSpace r.serializedSize with
  | true =>
      have hfit := hspace.mp h
      exact Or.inl ⟨hfit, rfl, appendRecord_of_fits hfit⟩
  | false =>
      refine Or.inr ⟨rfl, appendRecord_of_full hpos hsize ?_⟩
      rw [← Nat.not_le, ← hspace, h]
      exact Bool.false_ne_true

end RecordSegment

end Storage

end Dolda
