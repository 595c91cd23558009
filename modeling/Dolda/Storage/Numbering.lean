/-
# `Dolda.Storage.Numbering` — byte order and record numbers

An append draws its byte offset from `write_pos` and its record number from
`record_count`, in two steps with the copy between them.  Another append may
overtake it there: behind it in the bytes, before it in the numbers.  On a
segment that never runs out of space the offsets are those of the tiling and the
numbers are `0, 1, …`, each once (`Numbered`); whether the two orders agree is
settled draw by draw, for good (`Numbered.step`).

    each number is drawn by the append
    furthest ahead of those still to draw   ⟺   the index numbers its records in
                                                byte order, and reads by number
                                                agree with the iteration
                                                       (`numbers_follow_bytes`)
-/
import Dolda.Storage.Concurrent
import Dolda.Storage.Iterate

namespace Dolda.Storage

open Memory

namespace Call

/-- The offset of a call that has yet to draw its record number. -/
def undrawn : Call → Option Nat
  | writing _ offset | counting _ offset => some offset
  | indexing .. | rollingBack .. => none

/-- The offset and number of one that has, and is not yet in the index. -/
def drawn : Call → Option (Nat × Nat)
  | indexing _ offset recordNum => some (offset, recordNum)
  | writing .. | counting .. | rollingBack .. => none

end Call

namespace World

/-- The offsets without a number. -/
def undrawn (w : World) : List Nat := w.calls.filterMap Call.undrawn

/-- The offsets with their numbers, in the index and on the way there. -/
def drawn (w : World) : List (Nat × Nat) :=
  w.segment.index.map (fun e => (e.1, e.2.recordNum)) ++ w.calls.filterMap Call.drawn

/-- The offset of the `i`-th call, if it is about to draw its number. -/
def draws (w : World) (i : Nat) : Option Nat :=
  match w.calls[i]? with
  | some (.counting _ offset) => some offset
  | some (.writing ..) | some (.indexing ..) | some (.rollingBack ..) | none => none

/-- An append that draws its number has the lowest offset of those yet to. -/
def DrawsInOrder (w : World) : Act → Prop
  | .start _ _ => True
  | .advance i => ∀ offset ∈ w.draws i, ∀ o ∈ w.undrawn, offset ≤ o

instance (w : World) : ∀ a : Act, Decidable (w.DrawsInOrder a)
  | .start _ _ => isTrue trivial
  | .advance i => inferInstanceAs (Decidable (∀ offset ∈ w.draws i, ∀ o ∈ w.undrawn, offset ≤ o))

end World

/-- The record numbers in the index follow byte order, and reading by number gives
the records an iteration hands out, in its order. -/
structure NumbersFollowBytes (H : Hasher) (s : RecordSegment) : Prop where
  index : ∀ e ∈ s.index, ∀ e' ∈ s.index, e.1 < e'.1 → e.2.recordNum < e'.2.recordNum
  reads : ∃ items, Yields H s items ∧ ∀ n, n < s.recordCount → ∃ p,
    items[n]? = some (.ok p) ∧ s.readRecordByNum H n = some (.ok p.2)

/-! ## What every step keeps

An append that starts gets the offset behind all others, a copy changes neither order,
and an append draws its record number before it enters the index.  No offset occurs
twice, and the record count does not wrap. -/

namespace World

/-- What is in the index stands for a record granted its place. -/
def Entry (H : Hasher) (rs : List Record) (e : Nat × IndexEntry) : Prop :=
  ∃ r, (⟨e.1, r.serializedSize⟩, r) ∈ placed H rs ∧
    e.2 = ⟨e.2.recordNum, e.1, r.serializedSize, r.timestamp⟩

/-- Offsets and numbers are those of the records granted, each once. -/
structure Numbered (H : Hasher) (w : World) (rs : List Record) : Prop where
  tiled : w.Tiled H rs
  none : ∀ c ∈ w.calls, c.owed = 0
  enabled : w.segment.indexEnabled = true
  offsets : (w.undrawn ++ w.drawn.map Prod.fst).Perm ((placed H rs).map (fun p => p.1.offset))
  numbers : (w.drawn.map Prod.snd).Perm (List.range w.segment.recordCount)
  entries : ∀ e ∈ w.segment.index, Entry H rs e
  sorted : w.segment.index.Pairwise (fun e e' => e.1 < e'.1)

/-- The numbers drawn follow the offsets, and those yet to draw are behind. -/
structure InByteOrder (w : World) : Prop where
  ordered : ∀ x ∈ w.drawn, ∀ y ∈ w.drawn, x.1 < y.1 → x.2 < y.2
  behind : ∀ o ∈ w.undrawn, ∀ x ∈ w.drawn, x.1 < o

section
variable {H : Hasher} {w w' : World} {a : Act} {rs : List Record} {r : Record}
  {pre post : List Call} {offset recordNum : Nat} {s : RecordSegment}

theorem InByteOrder.congr (hdrawn : w'.drawn.Perm w.drawn) (hundrawn : w'.undrawn.Perm w.undrawn) :
    w'.InByteOrder ↔ w.InByteOrder := by
  constructor
  · intro h
    refine ⟨?_, ?_⟩
    · intro x hx y hy
      exact h.ordered x (hdrawn.mem_iff.mpr hx) y (hdrawn.mem_iff.mpr hy)
    · intro o ho x hx
      exact h.behind o (hundrawn.mem_iff.mpr ho) x (hdrawn.mem_iff.mpr hx)
  · intro h
    refine ⟨?_, ?_⟩
    · intro x hx y hy
      exact h.ordered x (hdrawn.mem_iff.mp hx) y (hdrawn.mem_iff.mp hy)
    · intro o ho x hx
      exact h.behind o (hundrawn.mem_iff.mp ho) x (hdrawn.mem_iff.mp hx)

theorem Numbered.nodup (h : w.Numbered H rs) : (w.undrawn ++ w.drawn.map Prod.fst).Nodup :=
  (placed_offsets_nodup rs).perm h.offsets.symm

theorem Numbered.count_lt (h : w.Numbered H rs) : w.segment.recordCount + 1 < 2 ^ 64 := by
  have hnum := h.numbers.length_eq
  have hoff := h.offsets.length_eq
  have hle := length_le_frames (H := H) rs
  have hin := h.tiled.inside
  have hmax := w.segment.maxSize_le
  rw [List.length_map, List.length_range] at hnum
  rw [List.length_append, List.length_map, List.length_map, placed_length] at hoff
  simp only [isizeMax] at hmax
  omega

theorem Numbered.start (h : w.Numbered H rs) (hr : r.Valid)
    (hfit : w.segment.hasSpace r.serializedSize = true) :
    Numbered H ⟨reserved w.segment r, w.calls ++ [.writing r w.segment.writePos], w.returned⟩
        (rs ++ [r]) ∧
      (InByteOrder ⟨reserved w.segment r, w.calls ++ [.writing r w.segment.writePos], w.returned⟩ ↔
        w.InByteOrder) := by
  have howed : w.owed = 0 := List.sum_eq_zero_iff_forall_eq_nat.mpr (by simpa using h.none)
  have hpos := h.tiled.writePos_eq howed
  have hundrawn : undrawn ⟨reserved w.segment r, w.calls ++ [.writing r w.segment.writePos],
      w.returned⟩ = w.undrawn ++ [w.segment.writePos] := by
    rw [undrawn, List.filterMap_append]
    rfl
  have hdrawn : drawn ⟨reserved w.segment r, w.calls ++ [.writing r w.segment.writePos],
      w.returned⟩ = w.drawn := by
    rw [drawn, List.filterMap_append]
    exact congrArg _ (List.append_nil _)
  have hplaced : (placed H (rs ++ [r])).map (fun p => p.1.offset)
      = (placed H rs).map (fun p => p.1.offset) ++ [w.segment.writePos] := by
    rw [placed_snoc, List.map_append, hpos]
    rfl
  refine ⟨⟨h.tiled.start_fits hr howed hfit, ?_, h.enabled, ?_, ?_, ?_, h.sorted⟩, ?_⟩
  · exact List.forall_mem_append.mpr ⟨h.none, List.forall_mem_singleton.mpr rfl⟩
  · rw [hundrawn, hdrawn, hplaced, List.append_assoc]
    refine (List.perm_append_comm.append_left _).trans ?_
    rw [← List.append_assoc]
    exact h.offsets.append_right _
  · rw [hdrawn]
    exact h.numbers
  · intro e he
    obtain ⟨r', hmem, hentry⟩ := h.entries e he
    exact ⟨r', placed_snoc rs r ▸ List.mem_append_left _ hmem, hentry⟩
  · -- the offsets drawn are places granted, all before the write position
    have hbelow : ∀ x ∈ w.drawn, x.1 < w.segment.writePos := by
      intro x hx
      have hmem := h.offsets.mem_iff.mp (List.mem_append_right _ (List.mem_map_of_mem hx))
      obtain ⟨p, hp, hoff⟩ := List.mem_map.mp hmem
      have hin := placed_inside hp
      have hsize := placed_size_pos hp
      rw [hpos, ← hoff]
      omega
    constructor
    · rintro ⟨hord, hbeh⟩
      rw [hdrawn] at hord hbeh
      rw [hundrawn] at hbeh
      exact ⟨hord, fun o ho => hbeh o (List.mem_append_left _ ho)⟩
    · intro hord
      refine ⟨by rw [hdrawn]; exact hord.ordered, ?_⟩
      rw [hdrawn, hundrawn]
      exact List.forall_mem_append.mpr ⟨hord.behind, List.forall_mem_singleton.mpr hbelow⟩

theorem Numbered.copied (h : w.Numbered H rs)
    (hcalls : w.calls = pre ++ .writing r offset :: post) :
    ∃ file, w.segment.store offset (r.serialize H).bytes = some file ∧
      Numbered H ⟨{ w.segment with toMappedFile := file }, pre ++ .counting r offset :: post,
        w.returned⟩ rs ∧
      (InByteOrder ⟨{ w.segment with toMappedFile := file }, pre ++ .counting r offset :: post,
        w.returned⟩ ↔ w.InByteOrder) := by
  obtain ⟨file, hstore, hcopy⟩ := h.tiled.copy hcalls
  have hnone := h.none
  have hoffsets := h.offsets
  have hnumbers := h.numbers
  rw [hcalls] at hnone
  have hundrawn : undrawn ⟨{ w.segment with toMappedFile := file },
      pre ++ .counting r offset :: post, w.returned⟩ = w.undrawn := by
    rw [undrawn, undrawn, hcalls, List.filterMap_append, List.filterMap_append]
    rfl
  have hdrawn : drawn ⟨{ w.segment with toMappedFile := file },
      pre ++ .counting r offset :: post, w.returned⟩ = w.drawn := by
    rw [drawn, drawn, hcalls, List.filterMap_append, List.filterMap_append]
    rfl
  refine ⟨file, hstore, ⟨hcopy, ?_, h.enabled, ?_, ?_, h.entries, h.sorted⟩, ?_⟩
  · exact Lts.forall_moved (Lts.forall_others hnone) rfl
  · rwa [hundrawn, hdrawn]
  · rwa [hdrawn]
  · exact InByteOrder.congr (hdrawn ▸ List.Perm.refl _) (hundrawn ▸ List.Perm.refl _)

/-- A draw keeps the order iff there was one and it was the lowest offset's turn. -/
theorem InByteOrder.draw (hnodup : (w.undrawn ++ w.drawn.map Prod.fst).Nodup) {n : Nat}
    (hlt : ∀ x ∈ w.drawn, x.2 < n) (hundrawn : w.undrawn.Perm (offset :: w'.undrawn))
    (hdrawn : w'.drawn.Perm ((offset, n) :: w.drawn)) :
    w'.InByteOrder ↔ w.InByteOrder ∧ ∀ o ∈ w.undrawn, offset ≤ o := by
  have hself : offset ∈ w.undrawn := hundrawn.mem_iff.mpr List.mem_cons_self
  have hne : ∀ o ∈ w.undrawn, ∀ x ∈ w.drawn, x.1 ≠ o := by
    rintro o ho x hx rfl
    exact List.disjoint_of_nodup_append hnodup ho (List.mem_map_of_mem hx)
  have hold : ∀ o ∈ w'.undrawn, o ∈ w.undrawn ∧ o ≠ offset := by
    intro o ho
    refine ⟨hundrawn.mem_iff.mpr (List.mem_cons_of_mem _ ho), ?_⟩
    rintro rfl
    have hnodup' := (List.nodup_append.mp hnodup).1.perm hundrawn
    exact (List.nodup_cons.mp hnodup').1 ho
  have hnew : (offset, n) ∈ w'.drawn := hdrawn.mem_iff.mpr List.mem_cons_self
  have hkept : ∀ x ∈ w.drawn, x ∈ w'.drawn :=
    fun x hx => hdrawn.mem_iff.mpr (List.mem_cons_of_mem _ hx)
  constructor
  · intro h
    refine ⟨⟨fun x hx y hy => h.ordered x (hkept x hx) y (hkept y hy), ?_⟩, ?_⟩
    · intro o ho x hx
      rcases List.mem_cons.mp (hundrawn.mem_iff.mp ho) with rfl | ho'
      · -- drawn behind it, `x` would have the larger number
        rcases Nat.lt_or_gt_of_ne (hne o hself x hx) with hlt' | hgt
        · exact hlt'
        · exact absurd (h.ordered (o, n) hnew x (hkept x hx) hgt) (Nat.lt_asymm (hlt x hx))
      · exact h.behind o ho' x (hkept x hx)
    · intro o ho
      rcases List.mem_cons.mp (hundrawn.mem_iff.mp ho) with rfl | ho'
      · exact Nat.le_refl _
      · exact Nat.le_of_lt (h.behind o ho' _ hnew)
  · rintro ⟨h, hlow⟩
    refine ⟨?_, ?_⟩
    · intro x hx y hy hxy
      rcases List.mem_cons.mp (hdrawn.mem_iff.mp hx) with rfl | hx
      · rcases List.mem_cons.mp (hdrawn.mem_iff.mp hy) with rfl | hy
        · exact absurd hxy (Nat.lt_irrefl _)
        · exact absurd hxy (Nat.lt_asymm (h.behind offset hself y hy))
      · rcases List.mem_cons.mp (hdrawn.mem_iff.mp hy) with rfl | hy
        · exact hlt x hx
        · exact h.ordered x hx y hy hxy
    · intro o ho x hx
      obtain ⟨ho', hneo⟩ := hold o ho
      rcases List.mem_cons.mp (hdrawn.mem_iff.mp hx) with rfl | hx
      · exact Nat.lt_of_le_of_ne (hlow o ho') hneo.symm
      · exact h.behind o ho' x hx

theorem Numbered.counted (h : w.Numbered H rs)
    (hcalls : w.calls = pre ++ .counting r offset :: post) :
    Numbered H ⟨w.segment.countRecord, pre ++ .indexing r offset w.segment.recordCount :: post,
        w.returned⟩ rs ∧
      (InByteOrder ⟨w.segment.countRecord,
        pre ++ .indexing r offset w.segment.recordCount :: post, w.returned⟩ ↔
          w.InByteOrder ∧ ∀ o ∈ w.undrawn, offset ≤ o) := by
  have hnone := h.none
  rw [hcalls] at hnone
  have hundrawn : w.undrawn.Perm (offset :: undrawn ⟨w.segment.countRecord,
      pre ++ .indexing r offset w.segment.recordCount :: post, w.returned⟩) := by
    rw [undrawn, undrawn, hcalls, List.filterMap_append, List.filterMap_append]
    exact List.perm_middle
  have hdrawn : (drawn ⟨w.segment.countRecord,
      pre ++ .indexing r offset w.segment.recordCount :: post, w.returned⟩).Perm
        ((offset, w.segment.recordCount) :: w.drawn) := by
    rw [drawn, drawn, hcalls, List.filterMap_append, List.filterMap_append]
    exact (List.perm_middle.append_left _).trans List.perm_middle
  have hcount : U64.add w.segment.recordCount 1 = w.segment.recordCount + 1 :=
    U64.add_of_lt h.count_lt
  have hlt : ∀ x ∈ w.drawn, x.2 < w.segment.recordCount :=
    fun x hx => List.mem_range.mp (h.numbers.mem_iff.mp (List.mem_map_of_mem hx))
  refine ⟨⟨h.tiled.count hcalls, ?_, h.enabled, ?_, ?_, h.entries, h.sorted⟩,
    InByteOrder.draw h.nodup hlt hundrawn hdrawn⟩
  · exact Lts.forall_moved (Lts.forall_others hnone) rfl
  · refine List.Perm.trans ?_ h.offsets
    refine ((hdrawn.map Prod.fst).append_left _).trans ?_
    exact List.perm_middle.trans (hundrawn.append_right _).symm
  · show (List.map Prod.snd (drawn _)).Perm (List.range (U64.add w.segment.recordCount 1))
    rw [hcount, List.range_succ]
    exact (hdrawn.map Prod.snd).trans
      ((h.numbers.cons _).trans (List.perm_append_singleton _ _).symm)

theorem Numbered.indexed (h : w.Numbered H rs)
    (hcalls : w.calls = pre ++ .indexing r offset recordNum :: post) :
    Numbered H ⟨w.segment.indexRecord ⟨recordNum, offset, r.serializedSize, r.timestamp⟩,
        pre ++ post, w.returned ++ [(r, some (.ok ⟨offset, r.serializedSize⟩))]⟩ rs ∧
      (InByteOrder ⟨w.segment.indexRecord ⟨recordNum, offset, r.serializedSize, r.timestamp⟩,
        pre ++ post, w.returned ++ [(r, some (.ok ⟨offset, r.serializedSize⟩))]⟩ ↔
          w.InByteOrder) := by
  have hnone := h.none
  have hnodup := h.nodup
  rw [hcalls] at hnone
  have hindex : (w.segment.indexRecord ⟨recordNum, offset, r.serializedSize, r.timestamp⟩).index
      = SortedMap.insert offset ⟨recordNum, offset, r.serializedSize, r.timestamp⟩
        w.segment.index := if_pos h.enabled
  have hdrawn : w.drawn.Perm ((offset, recordNum) ::
      (w.segment.index.map (fun e => (e.1, e.2.recordNum)) ++
        (pre ++ post).filterMap Call.drawn)) := by
    rw [drawn, hcalls, List.filterMap_append, List.filterMap_append]
    exact (List.perm_middle.append_left _).trans List.perm_middle
  have hnew : ∀ e ∈ w.segment.index, e.1 ≠ offset := by
    intro e he heq
    have hfst := (List.nodup_append.mp hnodup).2.1.perm (hdrawn.map Prod.fst)
    refine (List.nodup_cons.mp hfst).1 (List.mem_map.mpr ⟨(e.1, e.2.recordNum), ?_, heq⟩)
    exact List.mem_append_left _ (List.mem_map_of_mem he)
  have hdrawn' : (drawn ⟨w.segment.indexRecord ⟨recordNum, offset, r.serializedSize, r.timestamp⟩,
      pre ++ post, w.returned ++ [(r, some (.ok ⟨offset, r.serializedSize⟩))]⟩).Perm w.drawn := by
    rw [drawn, hindex]
    exact (((SortedMap.insert_perm hnew).map _).append_right _).trans hdrawn.symm
  have hundrawn' : undrawn ⟨w.segment.indexRecord ⟨recordNum, offset, r.serializedSize,
      r.timestamp⟩, pre ++ post, w.returned ++ [(r, some (.ok ⟨offset, r.serializedSize⟩))]⟩
        = w.undrawn := by
    rw [undrawn, undrawn, hcalls, List.filterMap_append, List.filterMap_append]
    rfl
  refine ⟨⟨h.tiled.index _ hcalls, Lts.forall_others hnone, h.enabled, ?_, ?_, ?_, ?_⟩,
    InByteOrder.congr hdrawn' (hundrawn' ▸ List.Perm.refl _)⟩
  · rw [hundrawn']
    exact ((hdrawn'.map _).append_left _).trans h.offsets
  · exact (hdrawn'.map _).trans h.numbers
  · intro e he
    rw [hindex] at he
    rcases SortedMap.mem_insert he with rfl | he
    · refine ⟨r, h.tiled.places.mem_iff.mp ?_, rfl⟩
      rw [granted, hcalls, List.filterMap_append]
      exact List.mem_append_right _ (List.mem_append_right _ List.mem_cons_self)
    · exact h.entries e he
  · show List.Pairwise _ (RecordSegment.index _)
    rw [hindex]
    exact SortedMap.insert_sorted h.sorted

/-- **The step lemma.** -/
theorem Numbered.step (h : w.Numbered H rs) (hfits : w.Fits a) (hstep : w.step H a = some w') :
    (∃ rs', w'.Numbered H rs') ∧ (w'.InByteOrder ↔ w.InByteOrder ∧ w.DrawsInOrder a) := by
  rcases step_cases hstep with ⟨r, built, rfl, rfl⟩ | ⟨pre, call, post, ⟨i, rfl, hcall⟩, hcalls, hcase⟩
  · have hfit : w.segment.hasSpace r.serializedSize = true := hfits
    have hover := w.segment.reserve_overflows r.serializedSize
    rw [Call.start_of_fits (by rw [hover, hfit]; rfl)]
    obtain ⟨hnum, hiff⟩ := h.start built hfit
    exact ⟨⟨_, hnum⟩, hiff.trans (and_iff_left trivial).symm⟩
  cases call with
  | writing r offset =>
      obtain ⟨file, hstore, hnum, hiff⟩ := h.copied hcalls
      have hok : w.DrawsInOrder (.advance i) := by
        rw [DrawsInOrder, draws, hcall]
        exact fun offset hoff => by cases hoff
      simp only [Call.advance, hstore] at hcase
      rcases hcase with ⟨hadv, -⟩ | ⟨call', segment, hadv, rfl⟩ | ⟨result, segment, hadv, -⟩
      · cases hadv
      · cases hadv
        exact ⟨⟨rs, hnum⟩, hiff.trans (and_iff_left hok).symm⟩
      · cases hadv
  | counting r offset =>
      obtain ⟨hnum, hiff⟩ := h.counted hcalls
      have hok : w.DrawsInOrder (.advance i) ↔ ∀ o ∈ w.undrawn, offset ≤ o := by
        rw [DrawsInOrder, draws, hcall]
        simp only [Option.mem_def, Option.some.injEq, forall_eq']
      rcases hcase with ⟨hadv, -⟩ | ⟨call', segment, hadv, rfl⟩ | ⟨result, segment, hadv, -⟩
      · cases hadv
      · cases hadv
        rw [hok]
        exact ⟨⟨rs, hnum⟩, hiff⟩
      · cases hadv
  | indexing r offset recordNum =>
      obtain ⟨hnum, hiff⟩ := h.indexed hcalls
      have hok : w.DrawsInOrder (.advance i) := by
        rw [DrawsInOrder, draws, hcall]
        exact fun offset hoff => by cases hoff
      simp only [Call.advance, Record.serialize_size] at hcase
      rcases hcase with ⟨hadv, -⟩ | ⟨call', segment, hadv, -⟩ | ⟨result, segment, hadv, rfl⟩
      · cases hadv
      · cases hadv
      · cases hadv
        exact ⟨⟨rs, hnum⟩, hiff.trans (and_iff_left hok).symm⟩
  | rollingBack r offset =>
      have howed := h.none _ (List.mem_of_getElem? hcall)
      exact absurd howed r.serializedSize_pos.ne'

/-! ## When no call is left in flight

With nothing in flight every record has its number and is in the index, where the
records are found by their offsets.  The numbers follow the bytes iff they were drawn in
the order of the offsets. -/

theorem drawn_of_quiet (hcalls : w.calls = []) :
    w.drawn = w.segment.index.map (fun e => (e.1, e.2.recordNum)) := by
  rw [drawn, hcalls]
  exact List.append_nil _

theorem inByteOrder_of_quiet (hcalls : w.calls = []) : w.InByteOrder ↔
    ∀ e ∈ w.segment.index, ∀ e' ∈ w.segment.index, e.1 < e'.1 → e.2.recordNum < e'.2.recordNum := by
  constructor
  · intro h e he e' he' hlt
    have hord := h.ordered
    rw [drawn_of_quiet hcalls] at hord
    exact hord _ (List.mem_map_of_mem he) _ (List.mem_map_of_mem he') hlt
  · intro h
    refine ⟨?_, ?_⟩
    · rw [drawn_of_quiet hcalls]
      intro x hx y hy hlt
      obtain ⟨e, he, rfl⟩ := List.mem_map.mp hx
      obtain ⟨e', he', rfl⟩ := List.mem_map.mp hy
      exact h e he e' he' hlt
    · intro o ho
      rw [undrawn, hcalls] at ho
      cases ho

/-- **In byte order the segment holds its records** as appends one at a time would
have left them. -/
theorem Numbered.holds (h : w.Numbered H rs) (hcalls : w.calls = []) (hord : w.InByteOrder) :
    Holds H w.segment rs := by
  have hoffsets := h.offsets
  have hnumbers := h.numbers
  rw [undrawn, hcalls, List.filterMap_nil, List.nil_append, drawn_of_quiet hcalls,
    List.map_map] at hoffsets
  rw [drawn_of_quiet hcalls, List.map_map] at hnumbers
  have hlen : w.segment.index.length = rs.length := by
    have hlen := hoffsets.length_eq
    rwa [List.length_map, List.length_map, placed_length] at hlen
  have hcount : w.segment.recordCount = rs.length := by
    have hlen' := hnumbers.length_eq
    rw [List.length_map, List.length_range] at hlen'
    exact hlen'.symm.trans hlen
  have hkeys := hoffsets.eq_of_pairwise (fun a b _ _ hab hba => absurd hab (Nat.lt_asymm hba))
    (List.pairwise_map.mpr h.sorted) (placed_offsets_sorted rs)
  have hnums := hnumbers.eq_of_pairwise (fun a b _ _ hab hba => absurd hab (Nat.lt_asymm hba))
    (List.pairwise_map.mpr (h.sorted.imp_of_mem (fun he he' hlt =>
      (inByteOrder_of_quiet hcalls).mp hord _ he _ he' hlt))) List.pairwise_lt_range
  refine ⟨h.tiled.valid, h.tiled.filled_frames hcalls, hcount, ?_⟩
  intro _
  apply List.ext_getElem?
  intro k
  rw [indexFrom_getElem? (H := H)]
  rcases Nat.lt_or_ge k rs.length with hk | hk
  · have hki : k < w.segment.index.length := hlen ▸ hk
    have hget : rs[k]? = some rs[k] := List.getElem?_eq_getElem hk
    have hplace : (placed H rs)[k]? =
        some (⟨(frames H (rs.take k)).length, rs[k].serializedSize⟩, rs[k]) := by
      rw [placed_getElem?, hget, Option.map_some]
    have hkey : w.segment.index[k].1 = (frames H (rs.take k)).length := by
      have hk := congrArg (fun l => l[k]?) hkeys
      simp only [List.getElem?_map, List.getElem?_eq_getElem hki, hplace, Option.map_some,
        Option.some.injEq] at hk
      exact hk
    have hnum : w.segment.index[k].2.recordNum = k := by
      have hn := congrArg (fun l => l[k]?) hnums
      simp only [List.getElem?_map, List.getElem?_eq_getElem hki, Option.map_some,
        List.getElem?_range (hcount ▸ hk), Option.some.injEq] at hn
      exact hn
    obtain ⟨r, hmem, hentry⟩ := h.entries _ (List.getElem_mem hki)
    have heq := placed_unique hmem (List.mem_of_getElem? hplace) hkey
    cases (Prod.mk.inj heq).2
    rw [hkey, hnum] at hentry
    rw [List.getElem?_eq_getElem hki, hget, Option.map_some, Nat.zero_add, Nat.zero_add, ← hentry,
      ← hkey]
  · rw [List.getElem?_eq_none (hlen ▸ hk), List.getElem?_eq_none hk, Option.map_none]

theorem Numbered.numbersFollowBytes_iff (h : w.Numbered H rs) (hcalls : w.calls = []) :
    NumbersFollowBytes H w.segment ↔ w.InByteOrder := by
  constructor
  · exact fun hfollow => (inByteOrder_of_quiet hcalls).mpr hfollow.index
  · intro hord
    have hholds := h.holds hcalls hord
    refine ⟨(inByteOrder_of_quiet hcalls).mp hord, _, hholds.yields, ?_⟩
    intro n hn
    rw [hholds.recordCount] at hn
    have hget : rs[n]? = some rs[n] := List.getElem?_eq_getElem hn
    refine ⟨(⟨(frames H (rs.take n)).length, rs[n].serializedSize⟩, rs[n]), ?_, ?_⟩
    · rw [List.getElem?_map, placed_getElem?, hget]
      rfl
    · rw [readRecordByNum_of_holds hholds h.enabled, hget]

theorem Numbered.new {fs : Files} {path : String} {maxSize : Nat}
    (hnew : RecordSegment.new fs path maxSize true = .ok s) : (ofSegment s).Numbered H [] := by
  obtain ⟨-, -, hcount, hindex, hidx⟩ := RecordSegment.new_ok hnew
  have hdrawn : (ofSegment s).drawn = [] := by
    rw [drawn_of_quiet rfl]
    exact congrArg _ hindex
  refine ⟨Tiled.start hnew, fun _ hc => absurd hc List.not_mem_nil, hidx, ?_, ?_, ?_, ?_⟩
  · rw [hdrawn]
    exact List.Perm.nil
  · rw [hdrawn]
    show ([] : List Nat).Perm (List.range s.recordCount)
    rw [hcount]
    exact List.Perm.nil
  · show ∀ e ∈ s.index, _
    rw [hindex]
    exact fun e he => absurd he List.not_mem_nil
  · show s.index.Pairwise _
    rw [hindex]
    exact List.Pairwise.nil

end

end World

/-! ## Every interleaving -/

/-- **Numbers and bytes.**  Take any interleaving of any number of appends to a
fresh indexed segment that has space for all of them, at the end of which none is
in flight.  The record numbers in the index follow byte order, and reading by
number gives the records of an iteration in its order, iff each append drew its
number when no other with a lower offset had yet to draw its own. -/
theorem numbers_follow_bytes (H : Hasher) (fs : Files) (path : String) (maxSize : Nat)
    (s : RecordSegment) (hnew : RecordSegment.new fs path maxSize true = .ok s)
    (acts : List Act) (hfits : Lts.Guarded (World.step H) World.Fits (World.ofSegment s) acts)
    (w : World) (hrun : Lts.run (World.step H) (World.ofSegment s) acts = some w)
    (hcalls : w.calls = []) :
    NumbersFollowBytes H w.segment ↔
      Lts.Guarded (World.step H) World.DrawsInOrder (World.ofSegment s) acts := by
  let Base := fun w : World => ∃ rs, w.Numbered H rs
  have hinit : Base (World.ofSegment s) := ⟨[], World.Numbered.new hnew⟩
  have hstart : (World.ofSegment s).InByteOrder := by
    have hindex := (RecordSegment.new_ok hnew).2.2.2.1
    rw [World.inByteOrder_of_quiet rfl]
    show ∀ e ∈ s.index, _
    rw [hindex]
    exact fun e he => absurd he List.not_mem_nil
  have hlast : Base w ∧ (w.InByteOrder ↔ (World.ofSegment s).InByteOrder ∧
      Lts.Guarded (World.step H) World.DrawsInOrder (World.ofSegment s) acts) :=
    Lts.Guarded.last_iff (fun ⟨_, h⟩ hfits hstep => h.step hfits hstep) hinit hfits hrun
  obtain ⟨⟨rs, h⟩, hiff⟩ := hlast
  rw [h.numbersFollowBytes_iff hcalls, hiff, and_iff_right hstart]

/-- Two appends of which the second copies first, and waits to draw. -/
theorem numbers_follow_bytes_two : ∃ s w,
    RecordSegment.new Files.fresh "segment.dat" 100 true = .ok s ∧
    Lts.run (World.step crc32Hasher) (World.ofSegment s)
      [.start ⟨1, [65]⟩ (by decide), .start ⟨2, [66]⟩ (by decide), .advance 1, .advance 0,
        .advance 0, .advance 1, .advance 1, .advance 0] = some w ∧
    w.calls = [] ∧ NumbersFollowBytes crc32Hasher w.segment := by
  refine ⟨_, _, rfl, rfl, rfl, ?_⟩
  exact (numbers_follow_bytes crc32Hasher Files.fresh "segment.dat" 100 _ rfl
    [.start ⟨1, [65]⟩ (by decide), .start ⟨2, [66]⟩ (by decide), .advance 1, .advance 0,
      .advance 0, .advance 1, .advance 1, .advance 0] (by decide +kernel) _ rfl rfl).mpr
    (by decide +kernel)

/-- **Overtaken**: the append behind draws the first number, and reading the first
number gives its record, which the iteration hands out second. -/
theorem overtaken_number : ∃ s w,
    RecordSegment.new Files.fresh "segment.dat" 100 true = .ok s ∧
    Lts.Guarded (World.step crc32Hasher) World.Fits (World.ofSegment s)
      [.start ⟨1, [65]⟩ (by decide), .start ⟨2, [66]⟩ (by decide), .advance 1, .advance 1,
        .advance 0, .advance 0, .advance 0, .advance 0] ∧
    Lts.run (World.step crc32Hasher) (World.ofSegment s)
      [.start ⟨1, [65]⟩ (by decide), .start ⟨2, [66]⟩ (by decide), .advance 1, .advance 1,
        .advance 0, .advance 0, .advance 0, .advance 0] = some w ∧
    w.calls = [] ∧
    Yields crc32Hasher w.segment
      [.ok (⟨0, 21⟩, ⟨1, [65]⟩), .ok (⟨21, 21⟩, ⟨2, [66]⟩)] ∧
    w.segment.readRecordByNum crc32Hasher 0 = some (.ok ⟨2, [66]⟩) ∧
    ¬ NumbersFollowBytes crc32Hasher w.segment := by
  refine ⟨_, _, rfl, by decide +kernel, rfl, rfl, ⟨3, by decide +kernel⟩,
    by decide +kernel, ?_⟩
  intro h
  exact absurd (h.index (0, ⟨1, 0, 21, 1⟩) List.mem_cons_self (21, ⟨0, 21, 21, 2⟩)
    (List.mem_cons_of_mem _ List.mem_cons_self) (by decide)) (by decide)

end Dolda.Storage
