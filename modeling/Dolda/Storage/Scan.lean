/-
# `Dolda.Storage.Scan` — scanning bytes nobody vouches for

`RecordIterator::next` reads the record at its offset and, if that succeeds,
moves behind it.  If it fails the error is handed out and **the offset stays**:
the next call reads the same bytes and fails the same way.  So a scan is a loop
with one way to end, an offset at the end of the segment, and it gets there iff
the bytes from the offset on are a concatenation of frames
(`scan_ends_iff`).

Nothing is assumed here of how the bytes came about, only that the write
position lies inside the segment.
-/
import Dolda.Lib.Loop
import Dolda.Storage.Segment

namespace Dolda.Storage

open Memory

/-- The bytes up to the write position. -/
def RecordSegment.content (s : RecordSegment) : List UInt8 := s.mmap.take s.writePos

/-- One turn of `for result in segment.iter_records()`, with the item dropped;
the loop returns `()` when the iterator is at its end, nothing when a read
panics. -/
def scanTurn (H : Hasher) (s : RecordSegment) (it : RecordIterator) :
    RecordIterator ⊕ Option Unit :=
  match it.next H s with
  | none => .inr none
  | some (none, _) => .inr (some ())
  | some (some _, it) => .inl it

/-- The iterator hands out finitely many items and then `None`. -/
def ScanEnds (H : Hasher) (s : RecordSegment) (it : RecordIterator) : Prop :=
  Loop.Returns (scanTurn H s) it (some ())

section
variable {H : Hasher} {s : RecordSegment} {it : RecordIterator}

/-- The iterator is on the bytes of the segment. -/
structure RecordIterator.On (it : RecordIterator) (s : RecordSegment) : Prop where
  inside : it.currentOffset ≤ it.endOffset
  toEnd : it.endOffset = s.writePos

theorem iterRecords_on (s : RecordSegment) : s.iterRecords.On s := ⟨Nat.zero_le _, rfl⟩

/-- A read below the write position decodes the bytes from there on. -/
theorem readRecord_content (hin : s.writePos ≤ s.maxSize) {offset : Nat}
    (hlt : offset < s.writePos) :
    s.readRecord H offset = some
      (match Record.deserialize H (s.content.drop offset) with
        | .ok (r, _) => .ok r
        | .error e => .error (.record e)) := by
  have hslice : slice s.mmap offset s.writePos = some (s.content.drop offset) := by
    rw [RecordSegment.content, drop_take_window]
    exact slice_of_le hlt.le (by rwa [s.mmap_length])
  rw [RecordSegment.readRecord, if_neg (Nat.not_le.mpr hlt), hslice]
  cases hdec : Record.deserialize H (s.content.drop offset) with
  | error e => simp only [hdec]
  | ok x => simp only [hdec]

/-- **What `next` can do**: end; hand out the record whose frame starts here and
move behind it; or hand out an error and stay. -/
theorem next_cases (H : Hasher) (hin : s.writePos ≤ s.maxSize) (hit : it.On s) :
    (it.currentOffset = it.endOffset ∧ it.next H s = some (none, it)) ∨
    (∃ r, Record.deserialize H (s.content.drop it.currentOffset) = .ok (r, r.serializedSize) ∧
      r.Valid ∧ it.currentOffset + r.serializedSize ≤ it.endOffset ∧
      it.next H s = some (some (.ok (⟨it.currentOffset, r.serializedSize⟩, r)),
        { it with currentOffset := it.currentOffset + r.serializedSize })) ∨
    ∃ e, Record.deserialize H (s.content.drop it.currentOffset) = .error e ∧
      it.currentOffset < it.endOffset ∧ it.next H s = some (some (.error (.record e)), it) := by
  have hend := hit.toEnd
  rcases Nat.eq_or_lt_of_le hit.inside with heq | hlt
  · refine Or.inl ⟨heq, ?_⟩
    rw [RecordIterator.next, if_pos heq.ge]
  have hread := readRecord_content (H := H) hin (hend ▸ hlt)
  refine Or.inr ?_
  cases hdec : Record.deserialize H (s.content.drop it.currentOffset) with
  | error e =>
      rw [hdec] at hread
      refine Or.inr ⟨e, rfl, hlt, ?_⟩
      simp only [RecordIterator.next, if_neg (Nat.not_le.mpr hlt), hread]
  | ok x =>
      obtain ⟨r, n⟩ := x
      obtain ⟨hr, hn, hpre⟩ := (Record.deserialize_eq_ok_iff H _ _ _).mp hdec
      rw [Record.serialize_length] at hn
      subst hn
      have hlen := hpre.length_le
      rw [Record.serialize_length, RecordSegment.content, List.length_drop, List.length_take,
        s.mmap_length] at hlen
      have hmax := s.maxSize_le
      simp only [isizeMax] at hmax
      have hadd : U64.add it.currentOffset r.serializedSize
          = it.currentOffset + r.serializedSize := U64.add_of_lt (by omega)
      rw [hdec] at hread
      refine Or.inl ⟨r, rfl, hr, by omega, ?_⟩
      simp only [RecordIterator.next, if_neg (Nat.not_le.mpr hlt), hread, hadd]

/-- A record an iterator hands out is valid. -/
theorem next_valid {it it' : RecordIterator} {p : RecordOffset × Record}
    (h : it.next H s = some (some (.ok p), it')) : p.2.Valid := by
  rw [RecordIterator.next] at h
  split at h
  · cases h
  dsimp only at h
  split at h
  · cases h
  · rename_i r hread
    cases h
    unfold RecordSegment.readRecord at hread
    dsimp only at hread
    split at hread
    · cases hread
    split at hread
    · cases hread
    split at hread
    · cases hread
    · rename_i r' n hdec
      cases hread
      exact ((Record.deserialize_eq_ok_iff H _ _ _).mp hdec).1
  · cases h

/-- **A scan ends iff what it has left is frames.** -/
theorem scan_ends_iff (hin : s.writePos ≤ s.maxSize) (hit : it.On s) :
    ScanEnds H s it ↔ (recordCodec H).Framed (s.content.drop it.currentOffset) := by
  -- on what the scan has left: a record read moves it on, and every other turn settles it
  induction hleft : it.endOffset - it.currentOffset using Nat.strongRecOn generalizing it with
  | ind left ih =>
      have hlen : s.content.length = it.endOffset := by
        rw [RecordSegment.content, List.length_take, s.mmap_length, hit.toEnd]
        exact Nat.min_eq_left hin
      rcases next_cases H hin hit with ⟨heq, hnext⟩ | ⟨r, hdec, -, hle, hnext⟩ | ⟨e, hdec, hlt, hnext⟩
      · have hturn : scanTurn H s it = .inr (some ()) := by rw [scanTurn, hnext]
        have hdrop : s.content.drop it.currentOffset = [] :=
          List.drop_of_length_le (by rw [hlen, heq])
        rw [ScanEnds, Loop.returns_inr hturn, hdrop]
        exact iff_of_true rfl (recordCodec H).framed_nil
      · have hsize := r.serializedSize_pos
        have hturn : scanTurn H s it
            = .inl { it with currentOffset := it.currentOffset + r.serializedSize } := by
          rw [scanTurn, hnext]
        have hit' : RecordIterator.On { it with
            currentOffset := it.currentOffset + r.serializedSize } s := ⟨hle, hit.toEnd⟩
        have hrest := ih (it.endOffset - (it.currentOffset + r.serializedSize)) (by omega) hit' rfl
        have hne : s.content.drop it.currentOffset ≠ [] :=
          List.ne_nil_of_length_pos (by rw [List.length_drop]; omega)
        rw [ScanEnds, Loop.returns_inl hturn, (recordCodec H).framed_iff_decode hne]
        refine hrest.trans ?_
        rw [← List.drop_drop]
        constructor
        · intro hframed
          exact ⟨r, _, hdec, hframed⟩
        · rintro ⟨a, n, hdec', hframed⟩
          cases hdec.symm.trans hdec'
          exact hframed
      · have hne : s.content.drop it.currentOffset ≠ [] :=
          List.ne_nil_of_length_pos (by rw [List.length_drop]; omega)
        refine iff_of_false ?_ ?_
        · rintro ⟨n, hn⟩
          refine Loop.not_terminates (· = it) ?_ rfl ⟨_, n, hn⟩
          rintro _ rfl
          exact ⟨_, by rw [scanTurn, hnext], rfl⟩
        · exact not_framed_of_error hne hdec

/-- No read of a scan panics. -/
theorem scan_not_panics (hin : s.writePos ≤ s.maxSize) (n : Nat) {it : RecordIterator}
    (hit : it.On s) : Loop.run (scanTurn H s) n it ≠ some none := by
  induction n generalizing it with
  | zero =>
      intro h
      cases h
  | succ n ih =>
      rcases next_cases H hin hit with ⟨-, hnext⟩ | ⟨r, -, -, hle, hnext⟩ | ⟨e, -, -, hnext⟩
      · have hturn : scanTurn H s it = .inr (some ()) := by rw [scanTurn, hnext]
        rw [Loop.run_inr hturn]
        intro h
        cases h
      · have hturn : scanTurn H s it
            = .inl { it with currentOffset := it.currentOffset + r.serializedSize } := by
          rw [scanTurn, hnext]
        rw [Loop.run_inl hturn]
        exact ih ⟨hle, hit.toEnd⟩
      · have hturn : scanTurn H s it = .inl it := by rw [scanTurn, hnext]
        rw [Loop.run_inl hturn]
        exact ih hit

/-- A scan of anything but frames goes on for ever. -/
theorem scan_never_ends (hin : s.writePos ≤ s.maxSize) (hit : it.On s)
    (hbad : ¬ (recordCodec H).Framed (s.content.drop it.currentOffset)) :
    ¬ Loop.Terminates (scanTurn H s) it := by
  rintro ⟨_ | u, n, hn⟩
  · exact scan_not_panics hin n hit hn
  · exact hbad ((scan_ends_iff hin hit).mp ⟨n, hn⟩)

end

end Dolda.Storage
