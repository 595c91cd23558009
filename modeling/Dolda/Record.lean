/-
# `Dolda.Record` — the record format

`src/record.rs`: a record is a timestamp and a payload, written to disk as one
frame

    magic (4)   length (4)   CRC-32 (4)   timestamp (8)   data (length)

with all words little-endian and the checksum taken over timestamp and data.

The checksum itself is `crc32fast`, which is not part of the repository: it is
the parameter `H : Hasher`, with the three operations the code calls.  Nothing
in this module asks anything of it.

Two lemmas carry everything said about the format elsewhere.  `exists_rawFrame`
reads any twenty bytes as a header, and `deserialize_rawFrame` says what the
decoder does with a header in terms of its fields; after them no proof opens
`deserialize` again.
-/
import Dolda.Lib.Memory
import Dolda.Lib.Framing

namespace Dolda

open Memory

/-- The hasher of `crc32fast`: a fresh state, bytes fed to it, the checksum. -/
structure Hasher where
  State : Type
  new : State
  update : State → List UInt8 → State
  finalize : State → UInt32

def recordMagic : UInt32 := 0xD01DAC0D

def recordHeaderSize : Nat := 20

/-- 100MB. -/
def maxRecordSize : Nat := 100 * 1024 * 1024

structure Record where
  timestamp : UInt64
  data : List UInt8
deriving DecidableEq, Repr

/-- A serialized record; `offset` is where in a segment it goes. -/
structure FramedRecord where
  bytes : List UInt8
  offset : UInt64
deriving DecidableEq, Repr

inductive RecordError where
  | invalidMagic (magic : UInt32)
  | recordTooLarge (size : Nat)
  | checksumMismatch (expected actual : UInt32)
  | incompleteRecord (expected actual : Nat)
  | io (message : String)
deriving DecidableEq, Repr

def FramedRecord.size (f : FramedRecord) : Nat := f.bytes.length

namespace Record

/-- `Record::new`, the clock read being `now`. -/
def new (data : List UInt8) (now : UInt64) : Except RecordError Record :=
  if maxRecordSize < data.length then .error (.recordTooLarge data.length)
  else .ok ⟨now, data⟩

def withTimestamp (data : List UInt8) (timestamp : UInt64) : Except RecordError Record :=
  if maxRecordSize < data.length then .error (.recordTooLarge data.length)
  else .ok ⟨timestamp, data⟩

def calculateChecksum (H : Hasher) (timestamp : UInt64) (data : List UInt8) : UInt32 :=
  H.finalize (H.update (H.update H.new (writeU64 timestamp)) data)

def serializedSize (r : Record) : Nat := recordHeaderSize + r.data.length

def serialize (H : Hasher) (r : Record) : FramedRecord :=
  let dataLen : UInt32 := UInt32.ofNat r.data.length
  let checksum := calculateChecksum H r.timestamp r.data
  { bytes := writeU32 recordMagic ++ writeU32 dataLen ++ writeU32 checksum ++
      writeU64 r.timestamp ++ r.data
    offset := 0 }

def deserialize (H : Hasher) (bytes : List UInt8) : Except RecordError (Record × Nat) :=
  if bytes.length < recordHeaderSize then
    .error (.incompleteRecord recordHeaderSize bytes.length)
  else
    let magic := readU32 (window bytes 0 4)
    if magic ≠ recordMagic then .error (.invalidMagic magic)
    else
      let dataLen := (readU32 (window bytes 4 4)).toNat
      if maxRecordSize < dataLen then .error (.recordTooLarge dataLen)
      else
        let totalSize := recordHeaderSize + dataLen
        if bytes.length < totalSize then .error (.incompleteRecord totalSize bytes.length)
        else
          let storedChecksum := readU32 (window bytes 8 4)
          let timestamp := readU64 (window bytes 12 8)
          let data := window bytes 20 dataLen
          let calculatedChecksum := calculateChecksum H timestamp data
          if storedChecksum ≠ calculatedChecksum then
            .error (.checksumMismatch storedChecksum calculatedChecksum)
          else .ok (⟨timestamp, data⟩, totalSize)

/-! ## What the constructors promise -/

/-- The bound both constructors check. -/
def Valid (r : Record) : Prop := r.data.length ≤ maxRecordSize

instance (r : Record) : Decidable r.Valid := inferInstanceAs (Decidable (_ ≤ _))

/-- The records the two constructors build are exactly the valid ones. -/
theorem valid_iff_built {r : Record} :
    r.Valid ↔ (∃ data now, new data now = .ok r) ∨
      ∃ data timestamp, withTimestamp data timestamp = .ok r := by
  constructor
  · intro h
    exact Or.inr ⟨r.data, r.timestamp, if_neg (Nat.not_lt.mpr h)⟩
  · rintro (⟨data, ts, h⟩ | ⟨data, ts, h⟩) <;>
    · simp only [new, withTimestamp] at h
      split at h
      · cases h
      · cases h
        exact Nat.le_of_not_lt ‹_›

/-! ## Frames with arbitrary header fields -/

/-- Twenty bytes of header with the given fields, and what comes after. -/
def rawFrame (magic dataLen checksum : UInt32) (timestamp : UInt64) (rest : List UInt8) :
    List UInt8 :=
  writeU32 magic ++ writeU32 dataLen ++ writeU32 checksum ++ writeU64 timestamp ++ rest

section RawFrame
variable (m l c : UInt32) (ts : UInt64) (rest : List UInt8)

theorem rawFrame_length : (rawFrame m l c ts rest).length = 20 + rest.length := by
  simp only [rawFrame, List.length_append, writeU32_length, writeU64_length]

theorem rawFrame_append (t : List UInt8) :
    rawFrame m l c ts rest ++ t = rawFrame m l c ts (rest ++ t) := by
  simp only [rawFrame, List.append_assoc]

theorem window_rawFrame_magic : window (rawFrame m l c ts rest) 0 4 = writeU32 m := by
  simp only [rawFrame, List.append_assoc]
  rw [window_append_left (by simp)]
  exact List.take_of_length_le (by simp)

theorem window_rawFrame_dataLen : window (rawFrame m l c ts rest) 4 4 = writeU32 l := by
  simp only [rawFrame, List.append_assoc]
  rw [window_append_right (by simp), window_append_left (by simp)]
  exact List.take_of_length_le (by simp)

theorem window_rawFrame_checksum : window (rawFrame m l c ts rest) 8 4 = writeU32 c := by
  simp only [rawFrame, List.append_assoc]
  rw [window_append_right (by simp), window_append_right (by simp), window_append_left (by simp)]
  exact List.take_of_length_le (by simp)

theorem window_rawFrame_timestamp : window (rawFrame m l c ts rest) 12 8 = writeU64 ts := by
  simp only [rawFrame, List.append_assoc]
  rw [window_append_right (by simp), window_append_right (by simp),
    window_append_right (by simp), window_append_left (by simp)]
  exact List.take_of_length_le (by simp)

theorem window_rawFrame_rest (n : Nat) : window (rawFrame m l c ts rest) 20 n = rest.take n := by
  rw [rawFrame, window_append_right (by simp)]
  simp

theorem drop_rawFrame : (rawFrame m l c ts rest).drop 12 = writeU64 ts ++ rest := by
  rw [rawFrame, List.append_assoc, List.drop_append_of_le_length (by simp),
    List.drop_of_length_le (by simp), List.nil_append]

end RawFrame

/-- Any twenty bytes are a header with some fields. -/
theorem exists_rawFrame {b : List UInt8} (h : recordHeaderSize ≤ b.length) :
    ∃ m l c ts rest, b = rawFrame m l c ts rest := by
  have h20 : 20 ≤ b.length := h
  refine ⟨readU32 (window b 0 4), readU32 (window b 4 4), readU32 (window b 8 4),
    readU64 (window b 12 8), b.drop 20, ?_⟩
  rw [rawFrame, writeU32_readU32 (window_length (by omega)),
    writeU32_readU32 (window_length (by omega)), writeU32_readU32 (window_length (by omega)),
    writeU64_readU64 (window_length (by omega)), window_append_window b 0 4 4,
    window_append_window b 0 8 4, window_append_window b 0 12 8]
  exact (List.take_append_drop 20 b).symm

/-- **What the decoder does with a header.** -/
theorem deserialize_rawFrame (H : Hasher) (m l c : UInt32) (ts : UInt64) (rest : List UInt8) :
    deserialize H (rawFrame m l c ts rest) =
      if m ≠ recordMagic then .error (.invalidMagic m)
      else if maxRecordSize < l.toNat then .error (.recordTooLarge l.toNat)
      else if rest.length < l.toNat then
        .error (.incompleteRecord (20 + l.toNat) (20 + rest.length))
      else if c ≠ calculateChecksum H ts (rest.take l.toNat) then
        .error (.checksumMismatch c (calculateChecksum H ts (rest.take l.toNat)))
      else .ok (⟨ts, rest.take l.toNat⟩, 20 + l.toNat) := by
  have hlen : ¬ (20 + rest.length < 20) := by omega
  simp only [deserialize, rawFrame_length, recordHeaderSize, window_rawFrame_magic,
    window_rawFrame_dataLen, window_rawFrame_checksum, window_rawFrame_timestamp,
    window_rawFrame_rest, readU32_writeU32, readU64_writeU64, if_neg hlen,
    Nat.add_lt_add_iff_left]

/-! ## The frames of the encoder -/

theorem serialize_bytes (H : Hasher) (r : Record) :
    (serialize H r).bytes = rawFrame recordMagic (UInt32.ofNat r.data.length)
      (calculateChecksum H r.timestamp r.data) r.timestamp r.data := rfl

theorem serialize_length (H : Hasher) (r : Record) :
    (serialize H r).bytes.length = r.serializedSize := by
  rw [serialize_bytes, rawFrame_length]; rfl

theorem serialize_size (H : Hasher) (r : Record) :
    (serialize H r).size = r.serializedSize := serialize_length H r

theorem serializedSize_pos (r : Record) : 0 < r.serializedSize := by
  simp only [serializedSize, recordHeaderSize]
  omega

/-- A payload of a valid record has a length that fits its field. -/
theorem Valid.toNat_ofNat_length {r : Record} (h : r.Valid) :
    (UInt32.ofNat r.data.length).toNat = r.data.length := by
  apply UInt32.toNat_ofNat_of_lt'
  simp only [Valid, maxRecordSize] at h
  simp only [UInt32.size]
  omega

theorem Valid.serializedSize_le {r : Record} (h : r.Valid) :
    r.serializedSize ≤ recordHeaderSize + maxRecordSize :=
  Nat.add_le_add_left h _

/-- **The decoder accepts exactly the frames of the encoder**, in front of
anything. -/
theorem deserialize_eq_ok_iff (H : Hasher) (b : List UInt8) (r : Record) (n : Nat) :
    deserialize H b = .ok (r, n) ↔
      r.Valid ∧ n = (serialize H r).bytes.length ∧ (serialize H r).bytes <+: b := by
  constructor
  · intro h
    by_cases hshort : b.length < recordHeaderSize
    · rw [deserialize, if_pos hshort] at h
      cases h
    obtain ⟨m, l, c, ts, rest, rfl⟩ := exists_rawFrame (Nat.le_of_not_lt hshort)
    rw [deserialize_rawFrame] at h
    by_cases hm : m = recordMagic
    · by_cases hbig : maxRecordSize < l.toNat
      · simp only [hm, hbig, ne_eq, not_true_eq_false, if_false, if_true] at h
        cases h
      by_cases hinc : rest.length < l.toNat
      · simp only [hm, hbig, hinc, ne_eq, not_true_eq_false, if_false, if_true] at h
        cases h
      by_cases hc : c = calculateChecksum H ts (rest.take l.toNat)
      · simp only [hm, hbig, hinc, ← hc, ne_eq, not_true_eq_false, if_false] at h
        cases h
        have htake : (rest.take l.toNat).length = l.toNat := by
          rw [List.length_take]; omega
        refine ⟨by rw [Valid, htake]; omega, by rw [serialize_length, serializedSize, htake]; rfl,
          rest.drop l.toNat, ?_⟩
        simp only [serialize_bytes, htake, UInt32.ofNat_toNat, ← hc, rawFrame_append,
          List.take_append_drop, hm]
      · simp only [hm, hbig, hinc, hc, ne_eq, not_true_eq_false, not_false_eq_true, if_false,
          if_true] at h
        cases h
    · rw [if_pos hm] at h
      cases h
  · rintro ⟨hr, rfl, t, rfl⟩
    have hl := hr.toNat_ofNat_length
    have hbig : ¬ maxRecordSize < r.data.length := Nat.not_lt.mpr hr
    rw [serialize_length, serialize_bytes, rawFrame_append, deserialize_rawFrame]
    simp [hl, hbig, serializedSize, recordHeaderSize]

/-- A frame is read back whatever follows it. -/
theorem deserialize_serialize (H : Hasher) {r : Record} (hr : r.Valid) (t : List UInt8) :
    deserialize H ((serialize H r).bytes ++ t) = .ok (r, r.serializedSize) :=
  (deserialize_eq_ok_iff H _ _ _).mpr ⟨hr, (serialize_length H r).symm, List.prefix_append _ _⟩

end Record

/-- The record format as a codec. -/
def recordCodec (H : Hasher) : Framing.Codec Record UInt8 RecordError where
  encode r := (r.serialize H).bytes
  decode := Record.deserialize H
  Valid := Record.Valid
  decode_iff := Record.deserialize_eq_ok_iff H

/-- Bytes the decoder refuses are not frames. -/
theorem not_framed_of_error {H : Hasher} {b : List UInt8} {e : RecordError} (hb : b ≠ [])
    (h : Record.deserialize H b = .error e) : ¬ (recordCodec H).Framed b := by
  rw [(recordCodec H).framed_iff_decode hb]
  rintro ⟨r, n, hok, -⟩
  cases h.symm.trans hok

end Dolda
