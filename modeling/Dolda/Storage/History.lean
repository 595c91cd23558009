/-
# `Dolda.Storage.History` — a segment over a history of appends

One writer at a time.  `Holds H s rs` ties the cells of a segment together: the
bytes up to the write position are the frames of `rs`, the position is their
length, the count their number, and the index, where it is built, lists them.
An append either adds its record or leaves the segment as it was
(`appendRecord_holds`), and from `Holds` each of the three read paths answers
what the history says:

    random read    the record whose frame starts at the offset    (`readRecord_of_holds`)
    scan           record after record, then `None`               (`next_of_holds`)
    by number      the n-th record                                (`readRecordByNum_of_holds`)

`segment_history_reads` puts them side by side over every history.  In every state of
such a history `has_space` says what the next append answers (`append_iff_has_space`).
-/
import Dolda.RecordIntegrity
import Dolda.Storage.Segment

namespace Dolda.Storage

open Memory

/-! ## Runs -/

/-- Appends made one at a time: their results and the segment after them. -/
def appendAll (H : Hasher) : RecordSegment → List Record →
    Option (List (Except StorageError RecordOffset) × RecordSegment)
  | s, [] => some ([], s)
  | s, r :: rs =>
      match s.appendRecord H r with
      | none => none
      | some (res, s) =>
          match appendAll H s rs with
          | none => none
          | some (ress, s) => some (res :: ress, s)

/-- The appends that returned `Ok`: the record and where it went. -/
def acknowledged : List Record → List (Except StorageError RecordOffset) →
    List (RecordOffset × Record)
  | r :: rs, .ok o :: ress => (o, r) :: acknowledged rs ress
  | _ :: rs, .error _ :: ress => acknowledged rs ress
  | _, _ => []

/-- `next` called once for each batch, the batch being appended before the
call. -/
def scanDuring (H : Hasher) : RecordSegment → RecordIterator → List (List Record) →
    Option (List (Option (Except StorageError (RecordOffset × Record))))
  | _, _, [] => some []
  | s, it, batch :: batches =>
      match appendAll H s batch with
      | none => none
      | some (_, s) =>
          match it.next H s with
          | none => none
          | some (item, it) =>
              match scanDuring H s it batches with
              | none => none
              | some items => some (item :: items)

/-! ## What a segment holds -/

section
variable (H : Hasher)

/-- The bytes of a list of records, one frame behind the other. -/
def frames (rs : List Record) : List UInt8 := (recordCodec H).frames rs

/-- The records with the place each frame takes. -/
def placed (rs : List Record) : List (RecordOffset × Record) :=
  ((recordCodec H).places 0 rs).map (fun p => (⟨p.1, p.2.serializedSize⟩, p.2))

/-- The index entries of records numbered from `num` and placed from `off`. -/
def indexFrom : Nat → Nat → List Record → List (Nat × IndexEntry)
  | _, _, [] => []
  | num, off, r :: rs =>
      (off, ⟨num, off, r.serializedSize, r.timestamp⟩)
        :: indexFrom (num + 1) (off + r.serializedSize) rs

/-- The segment holds exactly the records `rs`. -/
structure Holds (s : RecordSegment) (rs : List Record) : Prop where
  valid : ∀ r ∈ rs, r.Valid
  filled : s.Filled (frames H rs)
  recordCount : s.recordCount = rs.length
  index : s.indexEnabled = true → s.index = indexFrom 0 0 rs

/-- What of it does not ask for records that can be decoded. -/
structure Laid (s : RecordSegment) (rs : List Record) : Prop where
  filled : s.Filled (frames H rs)
  recordCount : s.recordCount = rs.length
  index : s.indexEnabled = true → s.index = indexFrom 0 0 rs

end

/-! ### Places and frames

The record placed `k`-th stands right behind the frames before it; the places follow one
another, cover the frames without a gap, and no two have the same offset. -/

section
variable {H : Hasher} {s : RecordSegment} {rs : List Record} {r : Record}

theorem encode_length (r : Record) : ((recordCodec H).encode r).length = r.serializedSize :=
  Record.serialize_length H r

theorem frames_append (rs rs' : List Record) :
    frames H (rs ++ rs') = frames H rs ++ frames H rs' := (recordCodec H).frames_append rs rs'

theorem frames_cons (r : Record) (rs : List Record) :
    frames H (r :: rs) = (r.serialize H).bytes ++ frames H rs := rfl

theorem frames_snoc (rs : List Record) (r : Record) :
    frames H (rs ++ [r]) = frames H rs ++ (r.serialize H).bytes := by
  rw [frames_append, frames_cons]
  exact congrArg (frames H rs ++ ·) (List.append_nil _)

theorem frames_snoc_length (rs : List Record) (r : Record) :
    (frames H (rs ++ [r])).length = (frames H rs).length + r.serializedSize := by
  rw [frames_snoc, List.length_append, Record.serialize_length]

theorem placed_append (rs rs' : List Record) :
    placed H (rs ++ rs') = placed H rs ++
      ((recordCodec H).places (frames H rs).length rs').map
        (fun p => (⟨p.1, p.2.serializedSize⟩, p.2)) := by
  rw [placed, Framing.Codec.places_append, List.map_append, Nat.zero_add]
  rfl

theorem placed_snoc (rs : List Record) (r : Record) :
    placed H (rs ++ [r]) = placed H rs ++ [(⟨(frames H rs).length, r.serializedSize⟩, r)] :=
  placed_append rs [r]

theorem placed_getElem? (rs : List Record) (n : Nat) :
    (placed H rs)[n]? =
      rs[n]?.map (fun r => (⟨(frames H (rs.take n)).length, r.serializedSize⟩, r)) := by
  rw [placed, List.getElem?_map, Framing.Codec.places_getElem?, Option.map_map]
  congr 1
  funext r
  simp only [Function.comp_apply, Nat.zero_add]
  rfl

theorem placed_map_snd (rs : List Record) : (placed H rs).map Prod.snd = rs := by
  apply List.ext_getElem?
  intro n
  rw [List.getElem?_map, placed_getElem?, Option.map_map]
  exact Option.map_id'

theorem placed_length (rs : List Record) : (placed H rs).length = rs.length := by
  rw [← List.length_map (f := Prod.snd), placed_map_snd]

theorem frames_length (rs : List Record) :
    (frames H rs).length = (rs.map Record.serializedSize).sum := by
  induction rs with
  | nil => rfl
  | cons r rs ih =>
      rw [frames_cons, List.length_append, Record.serialize_length, ih, List.map_cons,
        List.sum_cons]

theorem length_le_frames (rs : List Record) : rs.length ≤ (frames H rs).length := by
  induction rs with
  | nil => exact Nat.le_refl 0
  | cons r rs ih =>
      have hr := r.serializedSize_pos
      rw [frames_cons, List.length_append, Record.serialize_length, List.length_cons]
      omega

theorem mem_placed {p : RecordOffset × Record} (h : p ∈ placed H rs) :
    ∃ pre post, rs = pre ++ p.2 :: post ∧
      p.1 = ⟨(frames H pre).length, p.2.serializedSize⟩ := by
  obtain ⟨q, hq, rfl⟩ := List.mem_map.mp h
  obtain ⟨pre, post, hrs, hoff⟩ := (recordCodec H).mem_places hq
  refine ⟨pre, post, hrs, ?_⟩
  rw [Nat.zero_add] at hoff
  show RecordOffset.mk q.1 _ = _
  rw [hoff]
  rfl

theorem placed_inside {p : RecordOffset × Record} (h : p ∈ placed H rs) :
    p.1.offset + p.1.size ≤ (frames H rs).length := by
  obtain ⟨pre, post, hrs, hp⟩ := mem_placed h
  rw [hp, hrs, frames_append, frames_cons, List.length_append, List.length_append,
    Record.serialize_length]
  show (frames H pre).length + p.2.serializedSize ≤ _
  omega

theorem placed_pairwise (rs : List Record) :
    (placed H rs).Pairwise (fun p q => p.1.offset + p.1.size ≤ q.1.offset) := by
  refine List.pairwise_map.mpr (((recordCodec H).places_pairwise 0 rs).imp ?_)
  intro p q h
  rwa [encode_length] at h

theorem placed_size_pos {p : RecordOffset × Record} (hp : p ∈ placed H rs) : 0 < p.1.size := by
  obtain ⟨pre, post, -, hplace⟩ := mem_placed hp
  rw [hplace]
  exact p.2.serializedSize_pos

theorem placed_offsets_sorted (rs : List Record) :
    ((placed H rs).map (fun p => p.1.offset)).Pairwise (· < ·) := by
  refine List.pairwise_map.mpr ((placed_pairwise rs).imp_of_mem ?_)
  rintro p q hp - hle
  have hsize := placed_size_pos hp
  omega

theorem placed_offsets_nodup (rs : List Record) :
    ((placed H rs).map (fun p => p.1.offset)).Nodup :=
  (placed_offsets_sorted rs).imp Nat.ne_of_lt

theorem placed_unique {p q : RecordOffset × Record} (hp : p ∈ placed H rs) (hq : q ∈ placed H rs)
    (hoff : p.1.offset = q.1.offset) : p = q :=
  List.inj_on_of_nodup_map (placed_offsets_nodup rs) hp hq hoff

theorem placed_cover {x : Nat} (hx : x < (frames H rs).length) :
    ∃ p ∈ placed H rs, p.1.offset ≤ x ∧ x < p.1.offset + p.1.size := by
  rw [← Nat.zero_add (frames H rs).length] at hx
  obtain ⟨p, hp, hle, hlt⟩ := (recordCodec H).places_cover (Nat.zero_le x) hx
  rw [encode_length] at hlt
  exact ⟨_, List.mem_map_of_mem hp, hle, hlt⟩

/-- A segment in which every place holds its frame holds the frames in a row. -/
theorem take_of_placed {m : List UInt8}
    (h : ∀ p ∈ placed H rs, window m p.1.offset p.1.size = (p.2.serialize H).bytes) :
    m.take (frames H rs).length = frames H rs := by
  refine (recordCodec H).window_frames m 0 rs ?_
  intro p hp
  rw [encode_length]
  exact h _ (List.mem_map_of_mem hp)

/-! ### The index

The keys of the index lie before the end of the frames, and an entry looked up by its
record number is of the record of that rank. -/

theorem indexFrom_snoc (num off : Nat) (rs : List Record) (r : Record) :
    indexFrom num off (rs ++ [r]) = indexFrom num off rs ++
      [(off + (frames H rs).length,
        ⟨num + rs.length, off + (frames H rs).length, r.serializedSize, r.timestamp⟩)] := by
  induction rs generalizing num off with
  | nil => rfl
  | cons x rs ih =>
      simp only [List.cons_append, indexFrom, ih, frames_cons, List.length_append,
        Record.serialize_length, List.length_cons, Nat.add_assoc, Nat.add_comm 1]

theorem indexFrom_lt {num off : Nat} {rs : List Record} :
    ∀ p ∈ indexFrom num off rs, p.1 < off + (frames H rs).length := by
  induction rs generalizing num off with
  | nil =>
      intro p hp
      exact absurd hp List.not_mem_nil
  | cons r rs ih =>
      intro p hp
      have hr := r.serializedSize_pos
      rw [frames_cons, List.length_append, Record.serialize_length]
      rcases List.mem_cons.mp hp with rfl | hp
      · show off < _
        omega
      · have hlt := ih p hp
        omega

theorem indexFrom_getElem? (num off : Nat) (rs : List Record) (k : Nat) :
    (indexFrom num off rs)[k]? = rs[k]?.map (fun r =>
      (off + (frames H (rs.take k)).length,
        ⟨num + k, off + (frames H (rs.take k)).length, r.serializedSize, r.timestamp⟩)) := by
  induction rs generalizing num off k with
  | nil => rfl
  | cons r rs ih =>
      cases k with
      | zero => rfl
      | succ k =>
          have ih := ih (num + 1) (off + r.serializedSize) k
          have hnum : num + 1 + k = num + (k + 1) := by omega
          rw [hnum] at ih
          rw [indexFrom, List.getElem?_cons_succ, List.getElem?_cons_succ, ih,
            List.take_succ_cons, frames_cons, List.length_append, Record.serialize_length,
            Nat.add_assoc]

theorem find?_indexFrom (num off : Nat) (rs : List Record) (k : Nat) :
    ((indexFrom num off rs).map Prod.snd).find? (fun e => e.recordNum == num + k)
      = rs[k]?.map (fun r =>
          ⟨num + k, off + (frames H (rs.take k)).length, r.serializedSize, r.timestamp⟩) := by
  induction rs generalizing num off k with
  | nil => rfl
  | cons r rs ih =>
      cases k with
      | zero => simp [indexFrom, frames]
      | succ k =>
          have ih := ih (num + 1) (off + r.serializedSize) k
          have hnum : num + 1 + k = num + (k + 1) := by omega
          rw [hnum] at ih
          rw [indexFrom, List.map_cons, List.find?_cons_of_neg (by simp), ih,
            List.getElem?_cons_succ, List.take_succ_cons, frames_cons, List.length_append,
            Record.serialize_length, Nat.add_assoc]

/-! ## The write path

A segment holds a list of records: their frames are its bytes up to the write position,
and the index, where there is one, has their places.  An append adds to the list or
leaves it, so after any appends the list is of those acknowledged. -/

theorem holds_new {fs : Files} {path : String} {maxSize : Nat} {indexEnabled : Bool}
    (h : RecordSegment.new fs path maxSize indexEnabled = .ok s) :
    Holds H s [] ∧ s.maxSize = maxSize ∧ s.indexEnabled = indexEnabled := by
  obtain ⟨hfilled, hmax, hcount, hindex, hidx⟩ := RecordSegment.new_ok h
  exact ⟨⟨by simp, hfilled, hcount, fun _ => hindex⟩, hmax, hidx⟩

theorem Holds.writePos (h : Holds H s rs) : s.writePos = (frames H rs).length :=
  h.filled.writePos

theorem Holds.inside (h : Holds H s rs) : s.writePos ≤ s.maxSize := h.filled.inside

theorem Holds.laid (h : Holds H s rs) : Laid H s rs := ⟨h.filled, h.recordCount, h.index⟩

theorem Laid.holds (h : Laid H s rs) (hval : ∀ r ∈ rs, r.Valid) : Holds H s rs :=
  ⟨hval, h.filled, h.recordCount, h.index⟩

theorem Laid.recordCount_lt (h : Laid H s rs) : s.recordCount + 1 < 2 ^ 64 := by
  have hmax := s.maxSize_le
  have hcount := h.recordCount
  have hpos := h.filled.writePos
  have hin := h.filled.inside
  have hle := length_le_frames (H := H) rs
  simp only [isizeMax] at hmax
  omega

theorem Laid.appended (h : Laid H s rs) (hfit : s.writePos + r.serializedSize ≤ s.maxSize) :
    Laid H (s.appended H r hfit) (rs ++ [r]) where
  filled := by
    rw [frames_snoc]
    exact h.filled.extended (by rwa [Record.serialize_length])
  recordCount := by
    show U64.add s.recordCount 1 = _
    rw [U64.add_of_lt h.recordCount_lt, h.recordCount, List.length_append]
    rfl
  index hidx := by
    have hidx' : s.indexEnabled = true := hidx
    have hlast : ∀ p ∈ s.index, p.1 < s.writePos := by
      rw [h.index hidx', h.filled.writePos, ← Nat.zero_add (frames H rs).length]
      exact indexFrom_lt
    show (if s.indexEnabled = true then _ else _) = _
    rw [if_pos hidx', SortedMap.insert_of_lt hlast, h.index hidx', h.filled.writePos,
      h.recordCount, indexFrom_snoc (H := H), Nat.zero_add, Nat.zero_add]

/-- A record that fits is added to what the segment holds. -/
theorem Holds.appended (h : Holds H s rs) (hr : r.Valid)
    (hfit : s.writePos + r.serializedSize ≤ s.maxSize) :
    Holds H (s.appended H r hfit) (rs ++ [r]) := by
  refine (h.laid.appended hfit).holds ?_
  intro x hx
  rcases List.mem_append.mp hx with hx | hx
  · exact h.valid x hx
  · exact List.mem_singleton.mp hx ▸ hr

/-- **The step lemma**: an append adds its record at the end, or finds the
segment full and leaves it as it was. -/
theorem appendRecord_holds (h : Holds H s rs) (hr : r.Valid) :
    (∃ s', s.appendRecord H r = some (.ok ⟨(frames H rs).length, r.serializedSize⟩, s') ∧
        Holds H s' (rs ++ [r]) ∧ s'.maxSize = s.maxSize ∧ s'.indexEnabled = s.indexEnabled) ∨
      (s.maxSize < (frames H rs).length + r.serializedSize ∧ ∃ needed available,
        s.appendRecord H r = some (.error (.segmentFull needed available), s)) := by
  by_cases hfit : s.writePos + r.serializedSize ≤ s.maxSize
  · refine Or.inl ⟨s.appended H r hfit, ?_, h.appended hr hfit, rfl, rfl⟩
    rw [RecordSegment.appendRecord_of_fits hfit, h.writePos]
  · have hfull := Nat.lt_of_not_le hfit
    exact Or.inr ⟨h.writePos ▸ hfull, _, _,
      RecordSegment.appendRecord_of_full h.inside hr.size_le hfull⟩

/-- **The run lemma**: after any appends the segment holds what it held and the
acknowledged records, each placed where its append said. -/
theorem appendAll_holds (rs' : List Record) {s : RecordSegment} {rs : List Record}
    (h : Holds H s rs) (hval : ∀ r ∈ rs', r.Valid) :
    ∃ ress s', appendAll H s rs' = some (ress, s') ∧ s'.indexEnabled = s.indexEnabled ∧
      ∃ new, Holds H s' (rs ++ new) ∧
        placed H (rs ++ new) = placed H rs ++ acknowledged rs' ress := by
  induction rs' generalizing s rs with
  | nil =>
      refine ⟨[], s, rfl, rfl, [], ?_, ?_⟩
      · rwa [List.append_nil]
      · simp only [acknowledged, List.append_nil]
  | cons r rs' ih =>
      have hval' : ∀ x ∈ rs', x.Valid := fun x hx => hval x (List.mem_cons_of_mem _ hx)
      rcases appendRecord_holds h (hval r List.mem_cons_self) with
        ⟨s', happ, h', -, hidx⟩ | ⟨-, needed, available, happ⟩
      · obtain ⟨ress, s'', hrun, hidx', new, hnew, hplaced⟩ := ih h' hval'
        refine ⟨.ok ⟨(frames H rs).length, r.serializedSize⟩ :: ress, s'', ?_, hidx'.trans hidx,
          r :: new, ?_, ?_⟩
        · simp only [appendAll, happ, hrun]
        · rwa [List.append_assoc] at hnew
        · rw [List.append_assoc] at hplaced
          rw [List.singleton_append] at hplaced
          rw [hplaced, placed_snoc, List.append_assoc]
          rfl
      · obtain ⟨ress, s'', hrun, hidx', new, hnew, hplaced⟩ := ih h hval'
        exact ⟨.error (.segmentFull needed available) :: ress, s'',
          by simp only [appendAll, happ, hrun], hidx', new, hnew, hplaced⟩

/-- A segment filled by appends of valid records, with those acknowledged. -/
inductive FilledBy (H : Hasher) : RecordSegment → List (RecordOffset × Record) → Prop where
  | appends {fs : Files} {path : String} {maxSize : Nat} {indexEnabled : Bool}
      {s₀ s : RecordSegment} {attempts : List Record}
      {ress : List (Except StorageError RecordOffset)} :
      RecordSegment.new fs path maxSize indexEnabled = .ok s₀ → (∀ r ∈ attempts, r.Valid) →
        appendAll H s₀ attempts = some (ress, s) → FilledBy H s (acknowledged attempts ress)

theorem FilledBy.holds {kept : List (RecordOffset × Record)} (h : FilledBy H s kept) :
    ∃ rs, Holds H s rs ∧ kept = placed H rs := by
  obtain ⟨hnew, hval, hrun⟩ := h
  obtain ⟨h₀, -, -⟩ := holds_new (H := H) hnew
  obtain ⟨ress', s', hrun', -, rs, hholds, hplaced⟩ := appendAll_holds _ h₀ hval
  cases hrun.symm.trans hrun'
  exact ⟨rs, hholds, hplaced.symm⟩

/-! ## The read paths

Reading at the place of a frame gives its record, whatever follows it, and the index
finds the `n`-th record and nothing past the last.  The iterator yields the `k`-th record
in its `k`-th step, or ends there, even when more records have gone in since the scan
began. -/

theorem readRecord_of_filled (pre post : List Record)
    (h : s.Filled (frames H (pre ++ r :: post))) (hr : r.Valid) :
    s.readRecord H (frames H pre).length = some (.ok r) := by
  have hpos := h.writePos
  have hsize := r.serializedSize_pos
  rw [frames_append, frames_cons, List.length_append, List.length_append,
    Record.serialize_length] at hpos
  have hslice := h.slice_eq (frames H pre).length (by omega)
  rw [frames_append, List.drop_left, frames_cons] at hslice
  have hdec := Record.deserialize_serialize H hr (frames H post)
  simp only [RecordSegment.readRecord, hslice, hdec]
  exact if_neg (by omega)

theorem readRecord_of_holds (pre post : List Record) (h : Holds H s (pre ++ r :: post)) :
    s.readRecord H (frames H pre).length = some (.ok r) :=
  readRecord_of_filled pre post h.filled (h.valid r (List.mem_append_right pre List.mem_cons_self))

/-- The iterator of a scan of `rs`, standing before its `k`-th record. -/
def scanAt (H : Hasher) (rs : List Record) (k : Nat) : RecordIterator :=
  ⟨(frames H (rs.take k)).length, (frames H rs).length⟩

theorem scanAt_zero (h : Holds H s rs) : s.iterRecords = scanAt H rs 0 := by
  rw [RecordSegment.iterRecords, h.writePos]
  rfl

theorem frames_take_succ {k : Nat} (hk : rs[k]? = some r) :
    (frames H (rs.take (k + 1))).length = (frames H (rs.take k)).length + r.serializedSize := by
  rw [List.take_add_one, hk]
  exact frames_snoc_length _ _

theorem frames_take_le {m n : Nat} (hmn : m ≤ n) :
    (frames H (rs.take m)).length ≤ (frames H (rs.take n)).length := by
  obtain ⟨more, hmore⟩ := List.take_prefix_take_left (l := rs) hmn
  rw [← hmore, frames_append, List.length_append]
  exact Nat.le_add_right _ _

theorem frames_take_lt {m n : Nat} (hmn : m < n) (hn : n ≤ rs.length) :
    (frames H (rs.take m)).length < (frames H (rs.take n)).length := by
  have hget : rs[m]? = some rs[m] := List.getElem?_eq_getElem (hmn.trans_le hn)
  have hsucc := frames_take_succ (H := H) hget
  have hsize := rs[m].serializedSize_pos
  have hle : (frames H (rs.take (m + 1))).length ≤ _ := frames_take_le (Nat.succ_le_of_lt hmn)
  omega

theorem next_of_holds {more : List Record} (h : Holds H s (rs ++ more)) (k : Nat) :
    (scanAt H rs k).next H s
      = some ((placed H rs)[k]?.map Except.ok, scanAt H rs (if k < rs.length then k + 1 else k)) := by
  cases hk : rs[k]? with
  | none =>
      have hlen : rs.length ≤ k := List.getElem?_eq_none_iff.mp hk
      have hend : (scanAt H rs k).endOffset ≤ (scanAt H rs k).currentOffset := by
        simp only [scanAt, List.take_of_length_le hlen, Nat.le_refl]
      rw [RecordIterator.next, if_pos hend, placed_getElem?, hk, if_neg (Nat.not_lt.mpr hlen)]
      rfl
  | some r =>
      obtain ⟨hlt, hget⟩ := List.getElem?_eq_some_iff.mp hk
      have hsplit : rs = rs.take k ++ r :: rs.drop (k + 1) := by
        rw [← hget, List.getElem_cons_drop, List.take_append_drop]
      have hstep := frames_take_succ (H := H) hk
      have hr := r.serializedSize_pos
      have hle : (frames H (rs.take (k + 1))).length ≤ (frames H rs).length := by
        conv => rhs; rw [← List.take_append_drop (k + 1) rs, frames_append, List.length_append]
        exact Nat.le_add_right _ _
      have hpos := h.writePos
      have hin := h.inside
      have hmax := s.maxSize_le
      rw [frames_append, List.length_append] at hpos
      simp only [isizeMax] at hmax
      have hread : s.readRecord H (frames H (rs.take k)).length = some (.ok r) := by
        refine readRecord_of_holds (rs.take k) (rs.drop (k + 1) ++ more) ?_
        rwa [← List.cons_append, ← List.append_assoc, ← hsplit]
      have hend : ¬ (scanAt H rs k).endOffset ≤ (scanAt H rs k).currentOffset := by
        simp only [scanAt]
        omega
      have hadd : U64.add (frames H (rs.take k)).length r.serializedSize
          = (frames H (rs.take (k + 1))).length := by
        rw [hstep]
        exact U64.add_of_lt (by omega)
      rw [RecordIterator.next, if_neg hend]
      simp only [scanAt, hread, hadd, placed_getElem?, hk, if_pos hlt, Option.map_some]

theorem next_of_held (h : Holds H s rs) (k : Nat) :
    (scanAt H rs k).next H s
      = some ((placed H rs)[k]?.map Except.ok,
          scanAt H rs (if k < rs.length then k + 1 else k)) := by
  have hall : Holds H s (rs ++ []) := by rwa [List.append_nil]
  exact next_of_holds hall k

theorem scanAt_past {k : Nat} (hk : ¬ k < rs.length) : scanAt H rs k = scanAt H rs (k + 1) := by
  rw [scanAt, scanAt, List.take_of_length_le (by omega), List.take_of_length_le (by omega)]

/-- A scan yields its records in order and then nothing, whatever is appended
between two of its steps. -/
theorem scanDuring_of_holds (batches : List (List Record)) {s : RecordSegment}
    (more : List Record) (k : Nat) (h : Holds H s (rs ++ more))
    (hval : ∀ b ∈ batches, ∀ r ∈ b, r.Valid) :
    scanDuring H s (scanAt H rs k) batches
      = some ((List.range' k batches.length).map (fun i => (placed H rs)[i]?.map Except.ok)) := by
  induction batches generalizing s more k with
  | nil => rfl
  | cons batch batches ih =>
      obtain ⟨ress, s', hrun, -, new, h', -⟩ :=
        appendAll_holds batch h (hval batch List.mem_cons_self)
      rw [List.append_assoc] at h'
      have hscan : scanAt H rs (if k < rs.length then k + 1 else k) = scanAt H rs (k + 1) := by
        split
        · rfl
        · exact scanAt_past ‹_›
      have ih := ih _ (k + 1) h' (fun b hb => hval b (List.mem_cons_of_mem _ hb))
      simp only [scanDuring, hrun, next_of_holds h' k, hscan, ih, List.length_cons,
        List.range'_succ, List.map_cons]

theorem readRecordByNum_of_holds (h : Holds H s rs) (hidx : s.indexEnabled = true) (n : Nat) :
    s.readRecordByNum H n = some
      (match rs[n]? with
        | some r => .ok r
        | none => .error (.offsetOutOfBounds n)) := by
  have hfind := find?_indexFrom (H := H) 0 0 rs n
  rw [Nat.zero_add, Nat.zero_add] at hfind
  rw [RecordSegment.readRecordByNum, if_pos hidx, h.index hidx, hfind]
  cases hn : rs[n]? with
  | none => rfl
  | some r =>
      obtain ⟨hlt, hget⟩ := List.getElem?_eq_some_iff.mp hn
      have hsplit : rs = rs.take n ++ r :: rs.drop (n + 1) := by
        rw [← hget, List.getElem_cons_drop, List.take_append_drop]
      exact readRecord_of_holds (rs.take n) (rs.drop (n + 1)) (hsplit ▸ h)

end

/-! ## The three read paths over a history -/

/-- **Reads agree with the history.**  Take any appends to a fresh segment, and
then any further ones.  Every record acknowledged by the first can be read at
its offset after the second; a scan begun between the two yields exactly those
records with their places and then ends, whatever is appended between its
steps; and, with the index built, the `n`-th of them is found by its number and
no number past them is. -/
theorem segment_history_reads (H : Hasher) (fs : Files) (path : String) (maxSize : Nat)
    (indexEnabled : Bool) (s₀ : RecordSegment)
    (hnew : RecordSegment.new fs path maxSize indexEnabled = .ok s₀)
    (before after : List Record) (hbefore : ∀ r ∈ before, r.Valid)
    (hafter : ∀ r ∈ after, r.Valid) :
    ∃ ress s ress' s', appendAll H s₀ before = some (ress, s) ∧
      appendAll H s after = some (ress', s') ∧
      (∀ p ∈ acknowledged before ress, s'.readRecord H p.1.offset = some (.ok p.2)) ∧
      (∀ batches : List (List Record), (∀ b ∈ batches, ∀ r ∈ b, r.Valid) →
        scanDuring H s s.iterRecords batches
          = some ((List.range batches.length).map
              (fun i => (acknowledged before ress)[i]?.map Except.ok))) ∧
      (indexEnabled = true → ∀ n : Nat,
        s.readRecordByNum H n = some
          (match (acknowledged before ress)[n]? with
            | some p => .ok p.2
            | none => .error (.offsetOutOfBounds n))) := by
  obtain ⟨h₀, -, hidx₀⟩ := holds_new (H := H) hnew
  obtain ⟨ress, s, hrun, hidx, rs, h, hplaced⟩ := appendAll_holds before h₀ hbefore
  obtain ⟨ress', s', hrun', -, new, h', -⟩ := appendAll_holds after h hafter
  rw [List.nil_append] at h h' hplaced
  have hack : acknowledged before ress = placed H rs := hplaced.symm
  refine ⟨ress, s, ress', s', hrun, hrun', ?_, ?_, ?_⟩
  · intro p hp
    rw [hack] at hp
    obtain ⟨pre, post, hrs, hoff⟩ := mem_placed hp
    rw [hoff]
    refine readRecord_of_holds pre (post ++ new) ?_
    rwa [← List.cons_append, ← List.append_assoc, ← hrs]
  · intro batches hval
    rw [scanAt_zero h, hack, List.range_eq_range']
    exact scanDuring_of_holds batches [] 0 (by rwa [List.append_nil]) hval
  · intro hen n
    rw [readRecordByNum_of_holds h (hidx.trans (hidx₀.trans hen)) n, hack, placed_getElem?]
    cases rs[n]? <;> rfl

/-- Of three appends to a segment of 64 bytes the second does not fit; one more
follows. -/
theorem segment_history_reads_three : ∃ s₀ ress s ress' s',
    RecordSegment.new Files.fresh "segment.dat" 64 true = .ok s₀ ∧
    appendAll crc32Hasher s₀ [⟨1, [65]⟩, ⟨2, List.replicate 30 0⟩, ⟨3, []⟩] = some (ress, s) ∧
    appendAll crc32Hasher s [⟨4, [66]⟩] = some (ress', s') ∧
    (∀ p ∈ acknowledged [⟨1, [65]⟩, ⟨2, List.replicate 30 0⟩, ⟨3, []⟩] ress,
      s'.readRecord crc32Hasher p.1.offset = some (.ok p.2)) ∧
    s.readRecordByNum crc32Hasher 2 = some
      (match (acknowledged [⟨1, [65]⟩, ⟨2, List.replicate 30 0⟩, ⟨3, []⟩] ress)[2]? with
        | some p => .ok p.2
        | none => .error (.offsetOutOfBounds 2)) := by
  obtain ⟨ress, s, ress', s', hbefore, hafter, hread, -, hnum⟩ :=
    segment_history_reads crc32Hasher Files.fresh "segment.dat" 64 true _ rfl
      [⟨1, [65]⟩, ⟨2, List.replicate 30 0⟩, ⟨3, []⟩] [⟨4, [66]⟩] (by decide) (by decide)
  exact ⟨_, ress, s, ress', s', rfl, hbefore, hafter, hread, hnum rfl 2⟩

/-! ## The capacity checks -/

theorem appendAll_used (attempts : List Record) {s : RecordSegment}
    (hpos : s.writePos ≤ s.maxSize) (hsize : ∀ r ∈ attempts, r.serializedSize ≤ isizeMax) :
    ∃ ress s', appendAll H s attempts = some (ress, s') ∧ s'.maxSize = s.maxSize ∧
      s'.writePos ≤ s'.maxSize ∧
      s'.writePos = s.writePos + ((acknowledged attempts ress).map (fun p => p.1.size)).sum := by
  induction attempts generalizing s with
  | nil => exact ⟨[], s, rfl, rfl, hpos, rfl⟩
  | cons r attempts ih =>
      have hrest : ∀ x ∈ attempts, x.serializedSize ≤ isizeMax :=
        fun x hx => hsize x (List.mem_cons_of_mem _ hx)
      rcases RecordSegment.appendRecord_cases H hpos (hsize r List.mem_cons_self) with
        ⟨hfit, -, happ⟩ | ⟨-, happ⟩
      · have hpos' : (s.appended H r hfit).writePos ≤ (s.appended H r hfit).maxSize := by
          rw [RecordSegment.appended_writePos]
          exact hfit
        obtain ⟨ress, s', hrun, hmax, hle, hused⟩ := ih hpos' hrest
        refine ⟨.ok ⟨s.writePos, r.serializedSize⟩ :: ress, s', ?_, hmax, hle, ?_⟩
        · simp only [appendAll, happ, hrun]
        · rw [hused, RecordSegment.appended_writePos, acknowledged, List.map_cons, List.sum_cons,
            Nat.add_assoc]
      · obtain ⟨ress, s', hrun, hmax, hle, hused⟩ := ih hpos hrest
        refine ⟨.error (.segmentFull r.serializedSize (s.maxSize - s.writePos)) :: ress, s', ?_,
          hmax, hle, hused⟩
        simp only [appendAll, happ, hrun]

/-- **`has_space` decides.**  Take any appends to a fresh segment, made one at a time.
The next one returns `Ok` iff `has_space` was true of its frame's size just before, and
else reports that size and what is left beside the bytes used, which are those of the
records acknowledged, and leaves the segment as it was. -/
theorem append_iff_has_space (H : Hasher) (fs : Files) (path : String) (maxSize : Nat)
    (indexEnabled : Bool) (s₀ : RecordSegment)
    (hnew : RecordSegment.new fs path maxSize indexEnabled = .ok s₀)
    (attempts : List Record) (hattempts : ∀ x ∈ attempts, x.serializedSize ≤ isizeMax)
    (r : Record) (hr : r.serializedSize ≤ isizeMax) :
    ∃ ress s result s', appendAll H s₀ attempts = some (ress, s) ∧
      s.appendRecord H r = some (result, s') ∧
      s.stats.usedBytes = ((acknowledged attempts ress).map (fun p => p.1.size)).sum ∧
      s.stats.usedBytes ≤ maxSize ∧
      ((∃ o, result = .ok o) ↔ s.hasSpace r.serializedSize = true) ∧
      (s.hasSpace r.serializedSize = false →
        result = .error (.segmentFull r.serializedSize (maxSize - s.stats.usedBytes)) ∧
          s' = s) := by
  obtain ⟨hfilled, hmax₀, -⟩ := RecordSegment.new_ok hnew
  have hpos₀ : s₀.writePos = 0 := hfilled.writePos
  obtain ⟨ress, s, hrun, hmax, hle, hused⟩ :=
    appendAll_used (H := H) attempts (hpos₀ ▸ Nat.zero_le _) hattempts
  rw [hpos₀, Nat.zero_add] at hused
  rw [hmax₀] at hmax
  rcases RecordSegment.appendRecord_cases H hle hr with ⟨hfit, hspace, happ⟩ | ⟨hspace, happ⟩
  · refine ⟨ress, s, _, _, hrun, happ, hused, hmax ▸ hle, iff_of_true ⟨_, rfl⟩ hspace, ?_⟩
    intro hnone
    cases hspace.symm.trans hnone
  · refine ⟨ress, s, _, _, hrun, happ, hused, hmax ▸ hle, iff_of_false ?_ ?_, ?_⟩
    · rintro ⟨o, ho⟩
      cases ho
    · rw [hspace]
      exact Bool.false_ne_true
    · intro _
      rw [hmax]
      exact ⟨rfl, rfl⟩

/-- A segment of 64 bytes with two records in it, and a third that does not fit. -/
theorem append_iff_has_space_third : ∃ s₀ ress s result s',
    RecordSegment.new Files.fresh "segment.dat" 64 true = .ok s₀ ∧
    appendAll crc32Hasher s₀ [⟨1, [65]⟩, ⟨2, [66, 67]⟩] = some (ress, s) ∧
    s.appendRecord crc32Hasher ⟨3, [68, 69]⟩ = some (result, s') ∧
    ((∃ o, result = .ok o) ↔ s.hasSpace 22 = true) := by
  obtain ⟨ress, s, result, s', hrun, happ, -, -, hiff, -⟩ :=
    append_iff_has_space crc32Hasher Files.fresh "segment.dat" 64 true _ rfl
      [⟨1, [65]⟩, ⟨2, [66, 67]⟩] (by decide) ⟨3, [68, 69]⟩ (by decide)
  exact ⟨_, ress, s, result, s', rfl, hrun, happ, hiff⟩

end Dolda.Storage
