/-
# `Dolda.RecordIntegrity` — what the record format guarantees

Five results about `serialize` and `deserialize`, for every record the
constructors build:

* the decoder accepts precisely the image of the encoder
  (`deserialize_accepts_iff`);
* a stream of frames is read back record for record, whatever follows it
  (`deserialize_stream`);
* a frame that is cut short is reported as incomplete, at every length, and so is
  never another frame (`deserialize_cut`);
* a change of the checksum field, or of up to four consecutive bytes of
  timestamp and payload, is reported as a checksum mismatch
  (`deserialize_burst_mismatch`);
* a change of the length field is reported unless the bytes it takes from the
  payload, or adds to it, leave the checksum as it is
  (`deserialize_wrong_length`): the checksum covers timestamp and payload, and
  the length only says where the payload ends.

Only the last two ask something of the hasher: that it computes the standard
CRC-32 over the concatenation of its updates (`Hasher.IsCrc32`).
-/
import Dolda.Lib.Crc32
import Dolda.Record

namespace Dolda

open Memory

/-! ## The standard hasher -/

/-- The hasher computes the standard CRC-32 of all it was fed. -/
def Hasher.IsCrc32 (H : Hasher) : Prop :=
  ∀ chunks : List (List UInt8),
    H.finalize (chunks.foldl H.update H.new) = Crc32.crc32 chunks.flatten

theorem calculateChecksum_eq {H : Hasher} (hH : H.IsCrc32) (ts : UInt64) (data : List UInt8) :
    Record.calculateChecksum H ts data = Crc32.crc32 (writeU64 ts ++ data) := by
  have h := hH [writeU64 ts, data]
  simpa [Record.calculateChecksum] using h

/-- A hasher that is the CRC-32 itself. -/
def crc32Hasher : Hasher where
  State := BitVec 32
  new := Crc32.initial
  update := Crc32.update
  finalize s := ⟨s ^^^ 0xFFFFFFFF#32⟩

theorem crc32Hasher_isCrc32 : crc32Hasher.IsCrc32 := by
  have hfold : ∀ (chunks : List (List UInt8)) (s : BitVec 32),
      chunks.foldl Crc32.update s = Crc32.update s chunks.flatten := by
    intro chunks
    induction chunks with
    | nil => intro s; rfl
    | cons x chunks ih =>
        intro s
        rw [List.foldl_cons, ih, List.flatten_cons, Crc32.update_append]
  intro chunks
  exact congrArg crc32Hasher.finalize (hfold chunks Crc32.initial)

/-! ## Reading frames back -/

/-- The decoder accepts a byte string iff it starts with the frame of a record
within the size bound, and then answers with that record and its size. -/
theorem deserialize_accepts_iff (H : Hasher) (b : List UInt8) (r : Record) (n : Nat) :
    Record.deserialize H b = .ok (r, n) ↔
      r.data.length ≤ maxRecordSize ∧ n = r.serializedSize ∧ n ≤ b.length ∧
        b.take n = (r.serialize H).bytes := by
  rw [Record.deserialize_eq_ok_iff, Record.serialize_length]
  constructor
  · rintro ⟨hr, rfl, hpre⟩
    have hlen := hpre.length_le
    rw [Record.serialize_length] at hlen
    refine ⟨hr, rfl, hlen, ?_⟩
    rw [← Record.serialize_length H r]
    exact (List.prefix_iff_eq_take.mp hpre).symm
  · rintro ⟨hr, rfl, -, htake⟩
    exact ⟨hr, rfl, htake ▸ List.take_prefix _ _⟩

/-- Reading frame after frame from the start of a stream gives back the records
written, each with its size, and stops where what follows them begins. -/
theorem deserialize_stream (H : Hasher) (rs : List Record) (t : List UInt8)
    (hrs : ∀ r ∈ rs, r.Valid) :
    Framing.readFrames (Record.deserialize H)
        ((rs.map (fun r => (r.serialize H).bytes)).flatten ++ t) rs.length 0
      = .ok (rs.map (fun r => (r, r.serializedSize)),
          (rs.map (fun r => (r.serialize H).bytes)).flatten.length) := by
  have hread := (recordCodec H).readFrames_frames t [] rs hrs
  have hframes : (recordCodec H).frames rs = (rs.map (fun r => (r.serialize H).bytes)).flatten :=
    List.flatMap_def
  have hsize : (fun r => (r, ((recordCodec H).encode r).length))
      = fun r : Record => (r, r.serializedSize) := by
    funext r
    exact congrArg (Prod.mk r) (Record.serialize_length H r)
  rw [hframes, hsize] at hread
  exact hread

theorem deserialize_stream_two :
    Framing.readFrames (Record.deserialize crc32Hasher)
        (([⟨1, [65, 66]⟩, ⟨2, []⟩].map (fun r => (Record.serialize crc32Hasher r).bytes)).flatten ++ [0xD0])
        2 0
      = .ok ([(⟨1, [65, 66]⟩, 22), (⟨2, []⟩, 20)], 42) :=
  deserialize_stream crc32Hasher [⟨1, [65, 66]⟩, ⟨2, []⟩] [0xD0] (by decide)

/-! ## Torn frames

A frame that is cut lacks part of its header, or is a frame with less payload than its
length says. -/

section Torn
variable {H : Hasher} {r : Record} {k : Nat}

theorem deserialize_short {b : List UInt8} (h : b.length < recordHeaderSize) :
    Record.deserialize H b = .error (.incompleteRecord recordHeaderSize b.length) :=
  if_pos h

theorem take_serialize (hk : recordHeaderSize ≤ k) :
    (r.serialize H).bytes.take k =
      Record.rawFrame recordMagic (UInt32.ofNat r.data.length)
        (Record.calculateChecksum H r.timestamp r.data) r.timestamp (r.data.take (k - 20)) := by
  have hheader : (writeU32 recordMagic ++ writeU32 (UInt32.ofNat r.data.length) ++
      writeU32 (Record.calculateChecksum H r.timestamp r.data) ++
      writeU64 r.timestamp).length = 20 := by
    simp only [List.length_append, writeU32_length, writeU64_length]
  rw [Record.serialize_bytes, Record.rawFrame, List.take_append, hheader, Record.rawFrame]
  rw [List.take_of_length_le (hheader.trans_le hk)]

theorem deserialize_torn (hr : r.Valid) (hk : recordHeaderSize ≤ k) (hlt : k < r.serializedSize) :
    Record.deserialize H ((r.serialize H).bytes.take k)
      = .error (.incompleteRecord r.serializedSize k) := by
  simp only [Record.serializedSize, recordHeaderSize] at hk hlt ⊢
  have hbig : ¬ maxRecordSize < r.data.length := Nat.not_lt.mpr hr
  have hrest : (r.data.take (k - 20)).length = k - 20 := by
    rw [List.length_take]
    omega
  have hmissing : k - 20 < r.data.length := by omega
  have hcut : 20 + (k - 20) = k := by omega
  rw [take_serialize hk, Record.deserialize_rawFrame, hr.toNat_ofNat_length, hrest,
    if_neg (not_not_intro rfl), if_neg hbig, if_pos hmissing, hcut]

end Torn

/-- **A torn frame is incomplete**, wherever it is cut: the decoder says how much it
has, and that it wants the header, or the whole frame once it has that.  So no frame
is a proper prefix of another. -/
theorem deserialize_cut (H : Hasher) (r : Record) (hr : r.Valid) :
    (∀ k < r.serializedSize,
      Record.deserialize H ((r.serialize H).bytes.take k) = .error (.incompleteRecord
        (if k < recordHeaderSize then recordHeaderSize else r.serializedSize) k)) ∧
    ∀ r' : Record, r'.Valid → (r'.serialize H).bytes <+: (r.serialize H).bytes → r' = r := by
  have hcut : ∀ k < r.serializedSize,
      Record.deserialize H ((r.serialize H).bytes.take k) = .error (.incompleteRecord
        (if k < recordHeaderSize then recordHeaderSize else r.serializedSize) k) := by
    intro k hk
    by_cases hshort : k < recordHeaderSize
    · have hlen : ((r.serialize H).bytes.take k).length = k := by
        rw [List.length_take, Record.serialize_length]
        exact Nat.min_eq_left hk.le
      have hdecode := deserialize_short (H := H) (hlen.symm ▸ hshort)
      rw [hdecode, hlen, if_pos hshort]
    · rw [if_neg hshort]
      exact deserialize_torn hr (Nat.le_of_not_lt hshort) hk
  refine ⟨hcut, ?_⟩
  intro r' hr' hpre
  have hdecode := Record.deserialize_serialize H hr' []
  rw [List.append_nil, List.prefix_iff_eq_take.mp hpre, Record.serialize_length] at hdecode
  rcases Nat.lt_or_ge r'.serializedSize r.serializedSize with hlt | hge
  · -- a proper prefix is torn, and so not a frame
    cases hdecode.symm.trans (hcut _ hlt)
  · have hwhole := Record.deserialize_serialize H hr []
    rw [List.append_nil] at hwhole
    rw [List.take_of_length_le (by rwa [Record.serialize_length])] at hdecode
    cases hdecode.symm.trans hwhole
    rfl

/-- Two bytes of payload, and the frame cut behind the first. -/
theorem deserialize_cut_first :
    Record.deserialize crc32Hasher (((⟨7, [65, 66]⟩ : Record).serialize crc32Hasher).bytes.take 21)
      = .error (.incompleteRecord 22 21) :=
  (deserialize_cut crc32Hasher ⟨7, [65, 66]⟩ (by decide)).1 21 (by decide)

/-! ## Detecting damage -/

section Damage
variable {H : Hasher} {r : Record}

/-- A frame of unchanged length and header words, whose checksum field does not
match its timestamp and payload, is a checksum mismatch. -/
theorem deserialize_mismatch (hr : r.Valid) {c : UInt32} {ts : UInt64} {rest : List UInt8}
    (hlen : rest.length = r.data.length) (hc : c ≠ Record.calculateChecksum H ts rest) :
    Record.deserialize H (Record.rawFrame recordMagic (UInt32.ofNat r.data.length) c ts rest)
      = .error (.checksumMismatch c (Record.calculateChecksum H ts rest)) := by
  have hbig : ¬ maxRecordSize < r.data.length := Nat.not_lt.mpr hr
  have htake : rest.take r.data.length = rest := List.take_of_length_le hlen.le
  rw [Record.deserialize_rawFrame, hr.toNat_ofNat_length, htake]
  simp [hbig, hlen, hc]

theorem exists_fields {f : List UInt8} {a b : Nat}
    (h : AgreeOutside a b (r.serialize H).bytes f) (ha : 8 ≤ a) :
    ∃ c ts rest, f = Record.rawFrame recordMagic (UInt32.ofNat r.data.length) c ts rest ∧
      rest.length = r.data.length := by
  have hlen := h.1
  rw [Record.serialize_length] at hlen
  obtain ⟨m, l, c, ts, rest, rfl⟩ := Record.exists_rawFrame (b := f)
    (hlen ▸ Nat.le_add_right _ _)
  have hm := h.window_eq (p := 0) (n := 4) (Or.inl (by omega))
  have hl := h.window_eq (p := 4) (n := 4) (Or.inl (by omega))
  rw [Record.serialize_bytes, Record.window_rawFrame_magic, Record.window_rawFrame_magic] at hm
  rw [Record.serialize_bytes, Record.window_rawFrame_dataLen,
    Record.window_rawFrame_dataLen] at hl
  have hm' : m = recordMagic := by simpa using congrArg readU32 hm.symm
  have hl' : l = UInt32.ofNat r.data.length := by simpa using congrArg readU32 hl.symm
  rw [Record.rawFrame_length] at hlen
  refine ⟨c, ts, rest, by rw [hm', hl'], ?_⟩
  simp only [Record.serializedSize, recordHeaderSize] at hlen
  omega

theorem mismatch_of_checksum_change (hr : r.Valid) {f : List UInt8}
    (hne : f ≠ (r.serialize H).bytes) (h : AgreeOutside 8 12 (r.serialize H).bytes f) :
    ∃ c e, Record.deserialize H f = .error (.checksumMismatch c e) := by
  obtain ⟨c, ts, rest, rfl, hlen⟩ := exists_fields h (Nat.le_refl 8)
  have hts := h.window_eq (p := 12) (n := 8) (Or.inr (Nat.le_refl 12))
  rw [Record.serialize_bytes, Record.window_rawFrame_timestamp,
    Record.window_rawFrame_timestamp] at hts
  have hts' : ts = r.timestamp := by simpa using congrArg readU64 hts.symm
  have hrest := h.drop_eq (n := 12) (Nat.le_refl 12)
  rw [Record.serialize_bytes, Record.drop_rawFrame, Record.drop_rawFrame, hts'] at hrest
  have hrest' : rest = r.data := (List.append_cancel_left hrest).symm
  subst hts' hrest'
  refine ⟨_, _, deserialize_mismatch hr rfl ?_⟩
  rintro rfl
  exact hne rfl

theorem mismatch_of_burst (hH : H.IsCrc32) (hr : r.Valid) {f : List UInt8} {k : Nat}
    (hk : 12 ≤ k) (hne : f ≠ (r.serialize H).bytes)
    (h : AgreeOutside k (k + 4) (r.serialize H).bytes f) :
    ∃ c e, Record.deserialize H f = .error (.checksumMismatch c e) := by
  obtain ⟨c, ts, rest, rfl, hlen⟩ := exists_fields h (by omega)
  have hc := h.window_eq (p := 8) (n := 4) (Or.inl (by omega))
  rw [Record.serialize_bytes, Record.window_rawFrame_checksum,
    Record.window_rawFrame_checksum] at hc
  have hc' : c = Record.calculateChecksum H r.timestamp r.data := by
    simpa using congrArg readU32 hc.symm
  -- the damage, seen in the region the checksum covers
  have hregion := h.drop hk
  rw [Record.serialize_bytes, Record.drop_rawFrame, Record.drop_rawFrame] at hregion
  obtain ⟨pre, x, y, post, hx, hy, hxy, hx4⟩ := hregion.exists_parts
  have hxne : x ≠ y := by
    rintro rfl
    have hsame := hx.trans hy.symm
    have htsb : writeU64 r.timestamp = writeU64 ts :=
      List.append_inj_left hsame (by simp)
    have hts' : ts = r.timestamp := by simpa using congrArg readU64 htsb.symm
    subst hts'
    have hrest : rest = r.data := (List.append_cancel_left hsame).symm
    exact hne (by rw [Record.serialize_bytes, hc', hrest])
  refine ⟨_, _, deserialize_mismatch hr hlen ?_⟩
  rw [hc', calculateChecksum_eq hH, calculateChecksum_eq hH, hx, hy]
  exact Crc32.crc32_ne_of_window hxy (by omega) hxne

end Damage

/-- **Burst detection.** Damage to the checksum field alone, or to a window of
at most four consecutive bytes of timestamp and payload, is always reported as
a checksum mismatch. -/
theorem deserialize_burst_mismatch (H : Hasher) (hH : H.IsCrc32) (r : Record) (hr : r.Valid)
    (f : List UInt8) (hne : f ≠ (r.serialize H).bytes)
    (hconf : AgreeOutside 8 12 (r.serialize H).bytes f ∨
      ∃ k, 12 ≤ k ∧ AgreeOutside k (k + 4) (r.serialize H).bytes f) :
    ∃ expected actual,
      Record.deserialize H f = .error (.checksumMismatch expected actual) := by
  rcases hconf with h | ⟨k, hk, h⟩
  · exact mismatch_of_checksum_change hr hne h
  · exact mismatch_of_burst hH hr hk hne h

theorem deserialize_burst_mismatch_payload :
    ∃ expected actual,
      Record.deserialize crc32Hasher
          (((⟨7, [65, 66, 67]⟩ : Record).serialize crc32Hasher).bytes.set 21 0)
        = .error (.checksumMismatch expected actual) :=
  deserialize_burst_mismatch crc32Hasher crc32Hasher_isCrc32 ⟨7, [65, 66, 67]⟩ (by decide) _
    (by decide +kernel)
    (Or.inr ⟨20, by decide, by simp, fun i hi => (List.getElem?_set_ne (by omega)).symm⟩)

/-! ## A wrong length

The checksum covers the time stamp and the payload, not the length.  So a wrong length is
found only if it is too large, if bytes are missing for it, or if the bytes between the
two ends change the remainder, which they do unless they are idle there. -/

/-- With `n` in its length field the frame of `r`, followed by `t`, passes every
check of the decoder. -/
structure Record.Undetected (r : Record) (t : List UInt8) (n : Nat) : Prop where
  admissible : n ≤ maxRecordSize
  available : n ≤ r.data.length + t.length
  cutOff : Crc32.Idle (writeU64 r.timestamp ++ r.data.take n) (r.data.drop n)
  addedOn : Crc32.Idle (writeU64 r.timestamp ++ r.data) (t.take (n - r.data.length))

section Length
variable {H : Hasher} {r : Record} {t f : List UInt8}

theorem exists_length (h : AgreeOutside 4 8 ((r.serialize H).bytes ++ t) f) :
    f = Record.rawFrame recordMagic (readU32 (window f 4 4))
      (Record.calculateChecksum H r.timestamp r.data) r.timestamp (r.data ++ t) := by
  have hlen := h.1
  rw [Record.serialize_bytes, Record.rawFrame_append, Record.rawFrame_length] at hlen
  obtain ⟨m, l, c, ts, rest, rfl⟩ := Record.exists_rawFrame (b := f)
    (hlen ▸ Nat.le_add_right _ _)
  rw [Record.serialize_bytes, Record.rawFrame_append] at h
  have hm := h.window_eq (p := 0) (n := 4) (Or.inl (Nat.le_refl 4))
  have hc := h.window_eq (p := 8) (n := 4) (Or.inr (Nat.le_refl 8))
  have hrest := h.drop_eq (n := 12) (by omega)
  rw [Record.window_rawFrame_magic, Record.window_rawFrame_magic] at hm
  rw [Record.window_rawFrame_checksum, Record.window_rawFrame_checksum] at hc
  rw [Record.drop_rawFrame, Record.drop_rawFrame] at hrest
  have hm' : m = recordMagic := by simpa using congrArg readU32 hm.symm
  have hc' : c = Record.calculateChecksum H r.timestamp r.data := by
    simpa using congrArg readU32 hc.symm
  have hts : writeU64 r.timestamp = writeU64 ts := List.append_inj_left hrest (by simp)
  have hts' : ts = r.timestamp := by simpa using congrArg readU64 hts.symm
  subst hts'
  rw [Record.window_rawFrame_dataLen, readU32_writeU32, hm', hc', List.append_cancel_left hrest]

theorem agreeOutside_length (l : UInt32) :
    AgreeOutside 4 8 ((r.serialize H).bytes ++ t)
      (Record.rawFrame recordMagic l (Record.calculateChecksum H r.timestamp r.data) r.timestamp
        (r.data ++ t)) := by
  have hlen : (writeU32 (UInt32.ofNat r.data.length)).length = (writeU32 l).length := by
    rw [writeU32_length, writeU32_length]
  have hparts := agreeOutside_parts (writeU32 recordMagic)
    (writeU32 (Record.calculateChecksum H r.timestamp r.data) ++
      (writeU64 r.timestamp ++ (r.data ++ t))) hlen
  rw [writeU32_length, writeU32_length] at hparts
  simpa only [Record.serialize_bytes, Record.rawFrame_append, Record.rawFrame,
    List.append_assoc] using hparts

/-- The checksum of the payload as cut or extended matches iff the bytes between
the two ends are idle. -/
theorem checksum_take_eq_iff (hH : H.IsCrc32) (n : Nat) :
    Record.calculateChecksum H r.timestamp r.data
        = Record.calculateChecksum H r.timestamp ((r.data ++ t).take n) ↔
      Crc32.Idle (writeU64 r.timestamp ++ r.data.take n) (r.data.drop n) ∧
        Crc32.Idle (writeU64 r.timestamp ++ r.data) (t.take (n - r.data.length)) := by
  rw [calculateChecksum_eq hH, calculateChecksum_eq hH, List.take_append]
  rcases Nat.le_total n r.data.length with hle | hle
  · rw [Nat.sub_eq_zero_of_le hle, List.take_zero, List.append_nil,
      ← Crc32.crc32_append_eq_iff, List.append_assoc, List.take_append_drop]
    exact (and_iff_left (Crc32.idle_nil _)).symm
  · rw [List.take_of_length_le hle, List.drop_of_length_le hle, ← List.append_assoc,
      eq_comm, Crc32.crc32_append_eq_iff]
    exact (and_iff_right (Crc32.idle_nil _)).symm

end Length

/-- **A changed length** is an error, save where the length it is changed to is
admissible, the bytes for it are there, and those between the two ends leave the
remainder of the CRC-32 as they find it.  There the decoder answers with the
payload cut off or added to. -/
theorem deserialize_wrong_length (H : Hasher) (hH : H.IsCrc32) (r : Record)
    (t f : List UInt8) (h : AgreeOutside 4 8 ((r.serialize H).bytes ++ t) f) :
    ((∃ e, Record.deserialize H f = .error e) ↔
      ¬ r.Undetected t (readU32 (window f 4 4)).toNat) ∧
    (r.Undetected t (readU32 (window f 4 4)).toNat →
      Record.deserialize H f = .ok
        (⟨r.timestamp, (r.data ++ t).take (readU32 (window f 4 4)).toNat⟩,
          recordHeaderSize + (readU32 (window f 4 4)).toNat)) := by
  have hf := exists_length h
  generalize readU32 (window f 4 4) = l at hf ⊢
  have hdecode := Record.deserialize_rawFrame H recordMagic l
    (Record.calculateChecksum H r.timestamp r.data) r.timestamp (r.data ++ t)
  rw [← hf, if_neg (not_not_intro rfl)] at hdecode
  have hrefused : ∀ {e}, Record.deserialize H f = .error e → ¬ r.Undetected t l.toNat →
      ((∃ e, Record.deserialize H f = .error e) ↔ ¬ r.Undetected t l.toNat) ∧
        (r.Undetected t l.toNat → Record.deserialize H f = .ok
          (⟨r.timestamp, (r.data ++ t).take l.toNat⟩, recordHeaderSize + l.toNat)) :=
    fun herror hseen => ⟨iff_of_true ⟨_, herror⟩ hseen, fun hun => absurd hun hseen⟩
  by_cases hbig : maxRecordSize < l.toNat
  · rw [if_pos hbig] at hdecode
    exact hrefused hdecode (fun hun => Nat.not_lt.mpr hun.admissible hbig)
  rw [if_neg hbig] at hdecode
  by_cases hshort : (r.data ++ t).length < l.toNat
  · rw [if_pos hshort] at hdecode
    rw [List.length_append] at hshort
    exact hrefused hdecode (fun hun => Nat.not_lt.mpr hun.available hshort)
  rw [if_neg hshort] at hdecode
  rw [List.length_append] at hshort
  have hsum := checksum_take_eq_iff (r := r) (t := t) hH l.toNat
  by_cases hc : Record.calculateChecksum H r.timestamp r.data
      = Record.calculateChecksum H r.timestamp ((r.data ++ t).take l.toNat)
  · rw [if_neg (not_not_intro hc)] at hdecode
    obtain ⟨hcut, hadded⟩ := hsum.mp hc
    have hun : r.Undetected t l.toNat :=
      ⟨Nat.le_of_not_lt hbig, Nat.le_of_not_lt hshort, hcut, hadded⟩
    refine ⟨iff_of_false ?_ (not_not_intro hun), fun _ => hdecode⟩
    rintro ⟨e, herror⟩
    cases hdecode.symm.trans herror
  · rw [if_pos hc] at hdecode
    exact hrefused hdecode (fun hun => hc (hsum.mpr ⟨hun.cutOff, hun.addedOn⟩))

/-- A length too long by one, with another byte after the frame. -/
theorem deserialize_wrong_length_longer :
    (∃ e, Record.deserialize crc32Hasher
      (Record.rawFrame recordMagic 3 (Record.calculateChecksum crc32Hasher 7 [65, 66]) 7
        [65, 66, 67]) = .error e) ↔ ¬ (⟨7, [65, 66]⟩ : Record).Undetected [67] 3 :=
  (deserialize_wrong_length crc32Hasher crc32Hasher_isCrc32 ⟨7, [65, 66]⟩ [67] _
    (agreeOutside_length 3)).1

/-- **A wrong length can pass.**  The payload of this record brings the remainder
back to where the time stamp left it, so its checksum is that of no payload. -/
theorem wrong_length_accepted :
    let r : Record := ⟨0, [117, 0, 102, 68]⟩
    let f := Record.rawFrame recordMagic 0 (Record.calculateChecksum crc32Hasher 0 r.data) 0 r.data
    r.Valid ∧ f ≠ (r.serialize crc32Hasher).bytes ++ [] ∧
      AgreeOutside 4 8 ((r.serialize crc32Hasher).bytes ++ []) f ∧
      Record.deserialize crc32Hasher f = .ok (⟨0, []⟩, 20) :=
  ⟨by decide, by decide +kernel, agreeOutside_length (r := ⟨0, [117, 0, 102, 68]⟩) 0,
    by decide +kernel⟩

end Dolda
