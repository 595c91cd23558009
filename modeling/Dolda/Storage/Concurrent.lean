/-
# `Dolda.Storage.Concurrent` — appends from many threads

`append_record` takes `&self`: any number of threads may be inside it at once.
Its shared steps are one `fetch_add`, then either the `fetch_sub` that gives the
space back or the locked copy, the count and the index.  A call in flight is the
point it has reached with the locals it still needs (`Call`); a state of the
system is the segment, the calls in flight and what has returned (`World`); and
an interleaving is a list of labels, each starting a call or advancing one.

**The accounting.**  While no space is owed the write position is the end of the
records granted so far.  An append that fails owes its size until it gives it
back, and until then the position is that end plus what is owed.  So a position
fetched in between is not the end of the granted records, and an append granted
there leaves a hole that later appends walk into (`owed_space_overlaps`).  Where
every grant happens with nothing owed, the granted records tile the segment from
its start (`Tiled`), which is what `concurrent_appends` rests on.
-/
import Dolda.Lib.Lts
import Dolda.Storage.History

namespace Dolda.Storage

open Memory

/-! ## The steps of one call

The counters are atomic, and between two of their steps any other call may move; the
copy is made under the lock of the file.  A call that finds the segment full has raised
the write position before it could know, and owes that space until it has given it back. -/

/-- How far a call of `append_record` has come. -/
inductive Call where
  /-- Past the capacity check, before the copy. -/
  | writing (r : Record) (offset : Nat)
  | counting (r : Record) (offset : Nat)
  | indexing (r : Record) (offset recordNum : Nat)
  /-- Past a failed capacity check, before the `fetch_sub`. -/
  | rollingBack (r : Record) (offset : Nat)
deriving DecidableEq, Repr

namespace Call

def record : Call → Record
  | writing r _ | counting r _ | indexing r _ _ | rollingBack r _ => r

/-- The place a call has been granted. -/
def place : Call → Option (RecordOffset × Record)
  | writing r offset | counting r offset | indexing r offset _ =>
      some (⟨offset, r.serializedSize⟩, r)
  | rollingBack _ _ => none

/-- The place a call has already filled. -/
def filled : Call → Option (RecordOffset × Record)
  | counting r offset | indexing r offset _ => some (⟨offset, r.serializedSize⟩, r)
  | writing _ _ | rollingBack _ _ => none

/-- The space a call has yet to give back. -/
def owed : Call → Nat
  | rollingBack r _ => r.serializedSize
  | writing _ _ | counting _ _ | indexing _ _ _ => 0

attribute [simp] place filled owed

/-- Serialize, `fetch_add`, check. -/
def start (H : Hasher) (s : RecordSegment) (r : Record) : Call × RecordSegment :=
  let recordSize := (r.serialize H).size
  let offset := s.writePos
  let s := { s with toMappedFile := s.reserve recordSize }
  if s.overflows offset recordSize then (rollingBack r offset, s) else (writing r offset, s)

/-- The next shared step of a call: on to the next point, or the result.  The
copy can panic. -/
def advance (H : Hasher) (s : RecordSegment) :
    Call → Option ((Call ⊕ Except StorageError RecordOffset) × RecordSegment)
  | rollingBack r offset =>
      let recordSize := (r.serialize H).size
      some (.inr (.error (.segmentFull recordSize (U64.sub s.maxSize offset))),
        { s with toMappedFile := s.release recordSize })
  | writing r offset =>
      match s.store offset (r.serialize H).bytes with
      | none => none
      | some file => some (.inl (counting r offset), { s with toMappedFile := file })
  | counting r offset => some (.inl (indexing r offset s.recordCount), s.countRecord)
  | indexing r offset recordNum =>
      let recordSize := (r.serialize H).size
      some (.inr (.ok ⟨offset, recordSize⟩),
        s.indexRecord ⟨recordNum, offset, recordSize, r.timestamp⟩)

/-- A call run to its end with no other call in between. -/
def alone (H : Hasher) : Nat → Call → RecordSegment →
    Option (Except StorageError RecordOffset × RecordSegment)
  | 0, _, _ => none
  | fuel + 1, c, s =>
      match c.advance H s with
      | none => none
      | some (.inl c, s) => alone H fuel c s
      | some (.inr res, s) => some (res, s)

end Call

section
variable {H : Hasher} {s : RecordSegment} {r : Record}

/-- The segment with the space of a record reserved. -/
def reserved (s : RecordSegment) (r : Record) : RecordSegment :=
  { s with toMappedFile := s.reserve r.serializedSize }

theorem Call.start_of_full
    (h : (s.reserve r.serializedSize).overflows s.writePos r.serializedSize = true) :
    Call.start H s r = (.rollingBack r s.writePos, reserved s r) := by
  rw [Call.start, Record.serialize_size]
  exact if_pos h

theorem Call.start_of_fits
    (h : (s.reserve r.serializedSize).overflows s.writePos r.serializedSize = false) :
    Call.start H s r = (.writing r s.writePos, reserved s r) := by
  rw [Call.start, Record.serialize_size]
  exact if_neg (by rw [← Bool.not_eq_true] at h; exact h)

/-- A call that runs alone is the sequential append. -/
theorem appendRecord_eq_alone (H : Hasher) (s : RecordSegment) (r : Record) :
    s.appendRecord H r = (Call.start H s r).1.alone H 3 (Call.start H s r).2 := by
  have hlen := Record.serialize_length H r
  cases hover : (s.reserve r.serializedSize).overflows s.writePos r.serializedSize with
  | true =>
      have happ : s.toMappedFile.append (r.serialize H).bytes
          = some (none, (s.reserve r.serializedSize).release r.serializedSize) := by
        rw [MappedFile.append, hlen]
        exact if_pos hover
      rw [Call.start_of_full hover, RecordSegment.appendRecord, happ]
      simp only [Call.alone, Call.advance, Record.serialize_size, reserved]
      rfl
  | false =>
      have happ : s.toMappedFile.append (r.serialize H).bytes
          = match (s.reserve r.serializedSize).store s.writePos (r.serialize H).bytes with
            | none => none
            | some file => some (some s.writePos, file) := by
        rw [MappedFile.append, hlen]
        exact if_neg (by rw [← Bool.not_eq_true] at hover; exact hover)
      rw [Call.start_of_fits hover, RecordSegment.appendRecord, happ]
      simp only [Call.alone, Call.advance, reserved]
      cases (s.reserve r.serializedSize).store s.writePos (r.serialize H).bytes with
      | none => rfl
      | some file => rfl

end

section
variable {H : Hasher} {s s' : RecordSegment} {call : Call}
  {x : Call ⊕ Except StorageError RecordOffset}

theorem Call.owed_ne_zero_iff : call.owed ≠ 0 ↔ ∃ r offset, call = .rollingBack r offset := by
  constructor
  · intro h
    cases call with
    | rollingBack r offset => exact ⟨r, offset, rfl⟩
    | writing | counting | indexing => exact absurd rfl h
  · rintro ⟨r, offset, rfl⟩
    exact r.serializedSize_pos.ne'

/-- **What a call can do**: give back what it owes and fail, or go on and return
`Ok` without touching the write position. -/
theorem Call.advance_cases (h : call.advance H s = some (x, s')) : s'.maxSize = s.maxSize ∧
    ((∃ r offset, call = .rollingBack r offset ∧
        x = .inr (.error (.segmentFull r.serializedSize (U64.sub s.maxSize offset))) ∧
        s' = { s with toMappedFile := s.release r.serializedSize }) ∨
      call.owed = 0 ∧ s'.writePos = s.writePos ∧
        ((∃ call', x = .inl call' ∧ call'.owed = 0) ∨ ∃ o, x = .inr (.ok o))) := by
  cases call with
  | rollingBack r offset =>
      rw [Call.advance, Record.serialize_size] at h
      cases h
      exact ⟨MappedFile.release_maxSize _ _, Or.inl ⟨r, offset, rfl, rfl, rfl⟩⟩
  | writing r offset =>
      cases hstore : s.store offset (r.serialize H).bytes with
      | none =>
          simp only [Call.advance, hstore] at h
          cases h
      | some file =>
          simp only [Call.advance, hstore] at h
          cases h
          obtain ⟨hmax, hpos⟩ := MappedFile.store_eq_some hstore
          exact ⟨hmax, Or.inr ⟨rfl, hpos, Or.inl ⟨_, rfl, rfl⟩⟩⟩
  | counting r offset =>
      cases h
      exact ⟨rfl, Or.inr ⟨rfl, rfl, Or.inl ⟨_, rfl, rfl⟩⟩⟩
  | indexing r offset recordNum =>
      cases h
      exact ⟨rfl, Or.inr ⟨rfl, rfl, Or.inr ⟨_, rfl⟩⟩⟩

theorem Call.start_maxSize (H : Hasher) (s : RecordSegment) (r : Record) :
    (Call.start H s r).2.maxSize = s.maxSize := by
  rw [Call.start]
  dsimp only
  split
  · exact MappedFile.reserve_maxSize _ _
  · exact MappedFile.reserve_maxSize _ _

end

/-! ## The system -/

/-- The segment, the calls in flight, and the calls that are over: the record
and the result, `none` being a panic. -/
structure World where
  segment : RecordSegment
  calls : List Call
  returned : List (Record × Option (Except StorageError RecordOffset))

/-- A label: some thread starts an append, or the `i`-th call in flight takes
its next step.  Records are built by the constructors. -/
inductive Act where
  | start (r : Record) (built : r.Valid)
  | advance (i : Nat)

namespace World

def ofSegment (s : RecordSegment) : World := ⟨s, [], []⟩

def step (H : Hasher) (w : World) : Act → Option World
  | .start r _ =>
      let (call, segment) := Call.start H w.segment r
      some { w with segment, calls := w.calls ++ [call] }
  | .advance i =>
      match w.calls[i]? with
      | none => none
      | some call =>
          match call.advance H w.segment with
          | none =>
              some
                { w with
                  calls := w.calls.eraseIdx i
                  returned := w.returned ++ [(call.record, none)] }
          | some (.inl call, segment) => some { w with segment, calls := w.calls.set i call }
          | some (.inr result, segment) =>
              some
                { segment
                  calls := w.calls.eraseIdx i
                  returned := w.returned ++ [(call.record, some result)] }

/-- What an append that returned `Ok` was told. -/
def okOf : Record × Option (Except StorageError RecordOffset) → Option (RecordOffset × Record)
  | (r, some (.ok o)) => some (o, r)
  | (_, some (.error _)) | (_, none) => none

/-- The appends that returned `Ok`. -/
def acknowledged (w : World) : List (RecordOffset × Record) := w.returned.filterMap okOf

/-- Nothing is owed when an append passes the capacity check. -/
def GrantsUnowed (w : World) : Act → Prop
  | .start r _ => w.segment.hasSpace r.serializedSize = true → ∀ c ∈ w.calls, c.owed = 0
  | .advance _ => True

instance (w : World) (a : Act) : Decidable (w.GrantsUnowed a) :=
  match a with
  | .start r _ =>
      inferInstanceAs (Decidable (w.segment.hasSpace r.serializedSize = true → _))
  | .advance _ => inferInstanceAs (Decidable True)

/-- The segment has space for the append that starts. -/
def Fits (w : World) : Act → Prop
  | .start r _ => w.segment.hasSpace r.serializedSize = true
  | .advance _ => True

instance (w : World) (a : Act) : Decidable (w.Fits a) :=
  match a with
  | .start r _ => inferInstanceAs (Decidable (w.segment.hasSpace r.serializedSize = true))
  | .advance _ => inferInstanceAs (Decidable True)

/-- Two byte ranges with nothing in common. -/
def Apart (p q : RecordOffset) : Prop :=
  p.offset + p.size ≤ q.offset ∨ q.offset + q.size ≤ p.offset

instance (p q : RecordOffset) : Decidable (Apart p q) := inferInstanceAs (Decidable (_ ∨ _))

/-- What readers and writers of a segment count on. -/
structure Sound (H : Hasher) (w : World) : Prop where
  disjoint : w.acknowledged.Pairwise (fun p q => Apart p.1 q.1)
  inside : ∀ p ∈ w.acknowledged, p.1.offset + p.1.size ≤ w.segment.maxSize
  covered : w.calls = [] → ∀ x, x < w.segment.writePos →
    ∃ p ∈ w.acknowledged, p.1.offset ≤ x ∧ x < p.1.offset + p.1.size
  readable : w.calls = [] → ∀ p ∈ w.acknowledged,
    w.segment.readRecord H p.1.offset = some (.ok p.2)

/-! ### What a step can do -/

section
variable {H : Hasher} {w w' : World} {a : Act}

theorem step_cases (h : w.step H a = some w') :
    (∃ r built, a = .start r built ∧
      w' = ⟨(Call.start H w.segment r).2, w.calls ++ [(Call.start H w.segment r).1],
        w.returned⟩) ∨
    ∃ pre call post, (∃ i, a = .advance i ∧ w.calls[i]? = some call) ∧
      w.calls = pre ++ call :: post ∧
      ((call.advance H w.segment = none ∧
          w' = ⟨w.segment, pre ++ post, w.returned ++ [(call.record, none)]⟩) ∨
        (∃ call' segment, call.advance H w.segment = some (.inl call', segment) ∧
          w' = ⟨segment, pre ++ call' :: post, w.returned⟩) ∨
        ∃ result segment, call.advance H w.segment = some (.inr result, segment) ∧
          w' = ⟨segment, pre ++ post, w.returned ++ [(call.record, some result)]⟩) := by
  cases a with
  | start r built =>
      cases h
      exact Or.inl ⟨r, built, rfl, rfl⟩
  | advance i =>
      refine Or.inr ?_
      cases hi : w.calls[i]? with
      | none => simp only [step, hi] at h; cases h
      | some call =>
          obtain ⟨pre, post, hcalls, hset, herase⟩ := Lts.exists_split hi
          refine ⟨pre, call, post, ⟨i, rfl, hi⟩, hcalls, ?_⟩
          simp only [step, hi, hset, herase] at h
          rcases hadv : call.advance H w.segment with _ | ⟨call' | result, segment⟩
          · rw [hadv] at h
            exact Or.inl ⟨rfl, by cases h; rfl⟩
          · rw [hadv] at h
            exact Or.inr (Or.inl ⟨call', segment, rfl, by cases h; rfl⟩)
          · rw [hadv] at h
            exact Or.inr (Or.inr ⟨result, segment, rfl, by cases h; rfl⟩)

/-! ### The accounting

Granted places lie inside the segment and apart from one another; filled ones have been
granted.  A start that fails the check owes its space until giving it back settles the
account; one that passes with nothing owed extends the tiling, for then the write
position is its end; and a copy fills the place granted and leaves every other as it
was.  Where there is space for every append none comes to owe any. -/

theorem owed_fits (hnone : ∀ c ∈ w.calls, c.owed = 0)
    (hfits : w.Fits a)
    (hstep : w.step H a = some w') : ∀ c ∈ w'.calls, c.owed = 0 := by
  rcases step_cases hstep with ⟨r, built, rfl, rfl⟩ | ⟨pre, call, post, -, hcalls, hcase⟩
  · have hover := w.segment.reserve_overflows r.serializedSize
    rw [Call.start_of_fits (by rw [hover, show w.segment.hasSpace r.serializedSize = true from hfits]; rfl)]
    exact List.forall_mem_append.mpr ⟨hnone, List.forall_mem_singleton.mpr rfl⟩
  rw [hcalls] at hnone
  rcases hcase with ⟨-, rfl⟩ | ⟨call', segment, hadv, rfl⟩ | ⟨result, segment, hadv, rfl⟩
  · exact Lts.forall_others hnone
  · obtain ⟨-, ⟨r, offset, -, hx, -⟩ | ⟨-, -, ⟨call'', hx, howed⟩ | ⟨o, hx⟩⟩⟩ :=
      Call.advance_cases hadv
    · cases hx
    · cases hx
      exact Lts.forall_moved (Lts.forall_others hnone) howed
    · cases hx
  · exact Lts.forall_others hnone

theorem grantsUnowed_of_none (hnone : ∀ c ∈ w.calls, c.owed = 0) (a : Act) :
    w.GrantsUnowed a := by
  cases a with
  | start r built => exact fun _ => hnone
  | advance i => trivial

/-- The space reserved by failed appends that have not given it back. -/
def owed (w : World) : Nat := (w.calls.map Call.owed).sum

/-- The places granted: to the appends acknowledged and to those on their way. -/
def granted (w : World) : List (RecordOffset × Record) :=
  w.acknowledged ++ w.calls.filterMap Call.place

/-- The places that have been filled. -/
def filled (w : World) : List (RecordOffset × Record) :=
  w.acknowledged ++ w.calls.filterMap Call.filled

/-- The records granted so far tile the segment from its start; each place that
has been filled holds its frame; and the write position is the end of the tiling
plus what is owed. -/
structure Tiled (H : Hasher) (w : World) (rs : List Record) : Prop where
  valid : ∀ r ∈ rs, r.Valid
  inside : (frames H rs).length ≤ w.segment.maxSize
  writePos : w.segment.writePos = U64.wrap ((frames H rs).length + w.owed)
  places : w.granted.Perm (placed H rs)
  copied : ∀ p ∈ w.filled, window w.segment.mmap p.1.offset p.1.size = (p.2.serialize H).bytes

section Steps
variable {rs : List Record} {r : Record} {s : RecordSegment} {offset recordNum : Nat}
  {pre post : List Call} {fs : Files} {path : String} {maxSize : Nat} {indexEnabled : Bool}

theorem Tiled.place_inside (h : Tiled H w rs) {p : RecordOffset × Record} (hp : p ∈ w.granted) :
    p.1.offset + p.1.size ≤ w.segment.maxSize :=
  (placed_inside (h.places.mem_iff.mp hp)).trans h.inside

theorem Tiled.places_apart (h : Tiled H w rs) {p q : RecordOffset × Record}
    (hp : p ∈ w.granted) (hq : q ∈ w.granted) : p = q ∨ Apart p.1 q.1 := by
  have hpair := placed_pairwise (H := H) rs
  have hall : ∀ ⦃p⦄, p ∈ placed H rs → ∀ ⦃q⦄, q ∈ placed H rs → p = q ∨ Apart p.1 q.1 :=
    List.Pairwise.forall_of_forall_of_flip (fun _ _ => Or.inl rfl)
      (hpair.imp (fun h => Or.inr (Or.inl h))) (hpair.imp (fun h => Or.inr (Or.inr h)))
  exact hall (h.places.mem_iff.mp hp) (h.places.mem_iff.mp hq)

theorem granted_of_filled {p : RecordOffset × Record} (hp : p ∈ w.filled) : p ∈ w.granted := by
  rcases List.mem_append.mp hp with hp | hp
  · exact List.mem_append_left _ hp
  · obtain ⟨c, hc, hcp⟩ := List.mem_filterMap.mp hp
    refine List.mem_append_right _ (List.mem_filterMap.mpr ⟨c, hc, ?_⟩)
    cases c with
    | writing | rollingBack => cases hcp
    | counting | indexing => exact hcp

/-- The tiling stays when neither the bytes nor the places change. -/
theorem Tiled.transfer (h : Tiled H w rs) (hmax : w'.segment.maxSize = w.segment.maxSize)
    (hmmap : w'.segment.mmap = w.segment.mmap) (hgranted : w'.granted.Perm w.granted)
    (hfilled : ∀ p ∈ w'.filled, p ∈ w.filled)
    (hpos : w'.segment.writePos = U64.wrap ((frames H rs).length + w'.owed)) : Tiled H w' rs where
  valid := h.valid
  inside := hmax ▸ h.inside
  writePos := hpos
  places := hgranted.trans h.places
  copied p hp := by rw [hmmap]; exact h.copied p (hfilled p hp)

theorem Tiled.start_full (h : Tiled H w rs) (r : Record) (offset : Nat) :
    Tiled H ⟨reserved w.segment r, w.calls ++ [.rollingBack r offset], w.returned⟩ rs := by
  refine h.transfer (MappedFile.reserve_maxSize _ _) (MappedFile.reserve_mmap _ _) ?_ ?_ ?_
  · simp [granted, acknowledged, List.filterMap_cons]
  · simp [filled, acknowledged, List.filterMap_cons]
  · have hpos := h.writePos
    show U64.add w.segment.writePos r.serializedSize = _
    rw [hpos, U64.add_wrap]
    simp [owed, Nat.add_assoc]

theorem Tiled.writePos_eq (h : Tiled H w rs) (howed : w.owed = 0) :
    w.segment.writePos = (frames H rs).length := by
  have hmax := w.segment.maxSize_le
  have hin := h.inside
  simp only [isizeMax] at hmax
  rw [h.writePos, howed, Nat.add_zero]
  exact U64.wrap_of_lt (by omega)

theorem Tiled.start_fits (h : Tiled H w rs) (hr : r.Valid) (howed : w.owed = 0)
    (hfit : w.segment.hasSpace r.serializedSize = true) :
    Tiled H ⟨reserved w.segment r, w.calls ++ [.writing r w.segment.writePos], w.returned⟩
      (rs ++ [r]) := by
  have hpos := h.writePos_eq howed
  rw [MappedFile.hasSpace_iff (hpos ▸ h.inside) hr.size_le, hpos] at hfit
  refine ⟨?_, ?_, ?_, ?_, ?_⟩
  · intro x hx
    rcases List.mem_append.mp hx with hx | hx
    · exact h.valid x hx
    · exact List.mem_singleton.mp hx ▸ hr
  · rw [frames_snoc_length]
    exact hfit
  · have howed' : ((w.calls ++ [Call.writing r w.segment.writePos]).map Call.owed).sum = 0 := by
      rw [List.map_append, List.sum_append]
      exact congrArg (· + 0) howed
    show U64.add w.segment.writePos r.serializedSize
      = U64.wrap (_ + ((w.calls ++ [Call.writing r w.segment.writePos]).map Call.owed).sum)
    rw [howed', frames_snoc_length, Nat.add_zero, hpos]
    rfl
  · rw [placed_snoc, ← hpos]
    simpa [granted, acknowledged, ← List.append_assoc] using h.places.append_right _
  · intro p hp
    exact h.copied p (by simpa [filled, acknowledged] using hp)

theorem Tiled.give_back (h : Tiled H w rs) (hcalls : w.calls = pre ++ .rollingBack r offset :: post)
    (e : StorageError) :
    Tiled H ⟨{ w.segment with toMappedFile := w.segment.release r.serializedSize }, pre ++ post,
      w.returned ++ [(r, some (.error e))]⟩ rs := by
  refine h.transfer (MappedFile.release_maxSize _ _) (MappedFile.release_mmap _ _) ?_ ?_ ?_
  · simp [granted, acknowledged, hcalls, okOf, List.filterMap_cons]
  · simp [filled, acknowledged, hcalls, okOf, List.filterMap_cons]
  · have hpos := h.writePos
    have howed : w.owed = ((pre ++ post).map Call.owed).sum + r.serializedSize := by
      simp only [owed, hcalls, List.map_append, List.map_cons, List.sum_append, List.sum_cons,
        Call.owed]
      omega
    show U64.sub w.segment.writePos r.serializedSize
      = U64.wrap ((frames H rs).length + ((pre ++ post).map Call.owed).sum)
    rw [hpos, howed, ← Nat.add_assoc, U64.sub_wrap]

theorem Tiled.copy (h : Tiled H w rs) (hcalls : w.calls = pre ++ .writing r offset :: post) :
    ∃ file, w.segment.store offset (r.serialize H).bytes = some file ∧
      Tiled H ⟨{ w.segment with toMappedFile := file }, pre ++ .counting r offset :: post,
        w.returned⟩ rs := by
  have hmem : (⟨offset, r.serializedSize⟩, r) ∈ w.granted := by
    simp [granted, hcalls]
  have hin : offset + (r.serialize H).bytes.length ≤ w.segment.maxSize := by
    rw [Record.serialize_length]
    exact h.place_inside hmem
  have hin' : offset + (r.serialize H).bytes.length ≤ w.segment.mmap.length := by
    rwa [w.segment.mmap_length]
  refine ⟨_, MappedFile.store_of_le hin, h.valid, h.inside, ?_, ?_, ?_⟩
  · have howed : ((pre ++ .counting r offset :: post).map Call.owed).sum = w.owed := by
      simp [owed, hcalls]
    exact h.writePos.trans (congrArg (fun n => U64.wrap (_ + n)) howed.symm)
  · have hplaces := h.places
    simpa [granted, acknowledged, hcalls] using hplaces
  · intro p hp
    have hcase : p = (⟨offset, r.serializedSize⟩, r) ∨ p ∈ w.filled := by
      simp only [filled, acknowledged, hcalls, List.filterMap_append, List.filterMap_cons,
        Call.filled, List.mem_append, List.mem_cons] at hp ⊢
      tauto
    show window (splice w.segment.mmap offset (r.serialize H).bytes) p.1.offset p.1.size = _
    have hself : window (splice w.segment.mmap offset (r.serialize H).bytes) offset
        r.serializedSize = (r.serialize H).bytes := by
      rw [← Record.serialize_length H r]
      exact window_splice_self hin'
    rcases hcase with rfl | hp
    · exact hself
    · rcases h.places_apart (granted_of_filled hp) hmem with rfl | hapart
      · exact hself
      · rw [window_splice_disjoint hin' (by rw [Record.serialize_length]; exact hapart)]
        exact h.copied p hp

theorem Tiled.count (h : Tiled H w rs) (hcalls : w.calls = pre ++ .counting r offset :: post) :
    Tiled H ⟨w.segment.countRecord, pre ++ .indexing r offset recordNum :: post, w.returned⟩
      rs := by
  refine h.transfer rfl rfl ?_ ?_ ?_
  · simp [granted, acknowledged, hcalls]
  · simp [filled, acknowledged, hcalls]
  · have howed : ((pre ++ .indexing r offset recordNum :: post).map Call.owed).sum = w.owed := by
      simp [owed, hcalls]
    exact h.writePos.trans (congrArg (fun n => U64.wrap (_ + n)) howed.symm)

theorem Tiled.index (h : Tiled H w rs) (entry : IndexEntry)
    (hcalls : w.calls = pre ++ .indexing r offset recordNum :: post) :
    Tiled H ⟨w.segment.indexRecord entry, pre ++ post,
      w.returned ++ [(r, some (.ok ⟨offset, r.serializedSize⟩))]⟩ rs := by
  refine h.transfer rfl rfl ?_ ?_ ?_
  · simp only [granted, acknowledged, hcalls, List.filterMap_append, List.filterMap_cons,
      List.filterMap_nil, Call.place, okOf, List.append_assoc, List.singleton_append]
    exact List.perm_middle.symm.append_left _
  · intro p hp
    simp only [filled, acknowledged, hcalls, List.filterMap_append, List.filterMap_cons,
      List.filterMap_nil, Call.filled, okOf, List.mem_append, List.mem_cons] at hp ⊢
    tauto
  · have howed : ((pre ++ post).map Call.owed).sum = w.owed := by
      simp [owed, hcalls]
    exact h.writePos.trans (congrArg (fun n => U64.wrap (_ + n)) howed.symm)

/-- **The step lemma**: a step that grants nothing while space is owed keeps the
segment tiled, by the same records and what it grants. -/
theorem Tiled.step (h : Tiled H w rs) (hok : w.GrantsUnowed a) (hstep : w.step H a = some w') :
    ∃ rs', Tiled H w' rs' ∧ rs <+: rs' := by
  rcases step_cases hstep with ⟨r, built, rfl, rfl⟩ | ⟨pre, call, post, -, hcalls, hcase⟩
  · have hover := w.segment.reserve_overflows r.serializedSize
    cases hspace : w.segment.hasSpace r.serializedSize with
    | false =>
        rw [Call.start_of_full (by rw [hover, hspace]; rfl)]
        exact ⟨rs, h.start_full r _, List.prefix_rfl⟩
    | true =>
        have howed : w.owed = 0 := List.sum_eq_zero_iff_forall_eq_nat.mpr (by simpa using hok hspace)
        rw [Call.start_of_fits (by rw [hover, hspace]; rfl)]
        exact ⟨rs ++ [r], h.start_fits built howed hspace, List.prefix_append rs [r]⟩
  cases call with
  | writing r offset =>
      obtain ⟨file, hstore, hcopy⟩ := h.copy hcalls
      simp only [Call.advance, hstore] at hcase
      rcases hcase with ⟨hadv, -⟩ | ⟨call', segment, hadv, rfl⟩ | ⟨result, segment, hadv, -⟩
      · cases hadv
      · cases hadv
        exact ⟨rs, hcopy, List.prefix_rfl⟩
      · cases hadv
  | counting r offset =>
      rcases hcase with ⟨hadv, -⟩ | ⟨call', segment, hadv, rfl⟩ | ⟨result, segment, hadv, -⟩
      · cases hadv
      · cases hadv
        exact ⟨rs, h.count hcalls, List.prefix_rfl⟩
      · cases hadv
  | indexing r offset recordNum =>
      simp only [Call.advance, Record.serialize_size] at hcase
      rcases hcase with ⟨hadv, -⟩ | ⟨call', segment, hadv, -⟩ | ⟨result, segment, hadv, rfl⟩
      · cases hadv
      · cases hadv
      · cases hadv
        exact ⟨rs, h.index _ hcalls, List.prefix_rfl⟩
  | rollingBack r offset =>
      simp only [Call.advance, Record.serialize_size] at hcase
      rcases hcase with ⟨hadv, -⟩ | ⟨call', segment, hadv, -⟩ | ⟨result, segment, hadv, rfl⟩
      · cases hadv
      · cases hadv
      · cases hadv
        exact ⟨rs, h.give_back hcalls _, List.prefix_rfl⟩

theorem Tiled.start (hs : RecordSegment.new fs path maxSize indexEnabled = .ok s) :
    Tiled H (ofSegment s) [] := by
  obtain ⟨hfilled, -⟩ := RecordSegment.new_ok hs
  refine ⟨by simp, Nat.zero_le _, hfilled.writePos, List.Perm.refl _, ?_⟩
  intro p hp
  cases hp

/-- With no call in flight the segment holds the records that tile it. -/
theorem Tiled.filled_frames (h : Tiled H w rs) (hcalls : w.calls = []) :
    w.segment.Filled (frames H rs) := by
  have hpos := h.writePos_eq (by rw [owed, hcalls]; rfl)
  have hgranted : w.granted = w.acknowledged := by
    rw [granted, hcalls]
    exact List.append_nil _
  refine ⟨hpos, hpos ▸ h.inside, ?_⟩
  rw [hpos]
  refine take_of_placed (fun q hq => h.copied q (List.mem_append_left _ ?_))
  rw [← hgranted]
  exact h.places.mem_iff.mpr hq

/-- **A tiled segment is sound.** -/
theorem Tiled.sound (h : Tiled H w rs) : w.Sound H := by
  have hack : ∀ p ∈ w.acknowledged, p ∈ w.granted := fun p hp => List.mem_append_left _ hp
  have hquiet : w.calls = [] → w.segment.writePos = (frames H rs).length ∧
      ∀ p, p ∈ placed H rs ↔ p ∈ w.acknowledged := by
    intro hcalls
    have howed : w.owed = 0 := by rw [owed, hcalls]; rfl
    have hgranted : w.granted = w.acknowledged := by
      rw [granted, hcalls]
      exact List.append_nil _
    refine ⟨h.writePos_eq howed, ?_⟩
    intro p
    rw [← hgranted]
    exact h.places.mem_iff.symm
  refine ⟨?_, ?_, ?_, ?_⟩
  · have hpair : w.granted.Pairwise (fun p q => Apart p.1 q.1) := by
      refine (h.places.pairwise_iff (fun h => Or.symm h)).mpr ?_
      exact (placed_pairwise rs).imp (fun h => Or.inl h)
    exact (List.pairwise_append.mp hpair).1
  · intro p hp
    exact h.place_inside (hack p hp)
  · intro hcalls x hx
    obtain ⟨hpos, hmem⟩ := hquiet hcalls
    rw [hpos] at hx
    obtain ⟨p, hp, hcov⟩ := placed_cover hx
    exact ⟨p, (hmem p).mp hp, hcov⟩
  · intro hcalls p hp
    obtain ⟨-, hmem⟩ := hquiet hcalls
    have hfilled := h.filled_frames hcalls
    obtain ⟨pre, post, hrs, hp'⟩ := mem_placed ((hmem p).mpr hp)
    rw [hp']
    refine readRecord_of_filled pre post (hrs ▸ hfilled) (h.valid p.2 ?_)
    rw [hrs]
    exact List.mem_append_right _ List.mem_cons_self

end Steps

end

end World

/-! ## Every interleaving -/

/-- **Concurrent appends.**  Take any interleaving of any number of appends to a
fresh segment in which no append passes the capacity check while a failed one
still owes its space.  In the state it reaches, the ranges acknowledged are
apart and inside the segment, and once no append is in flight they cover the
segment up to the write position and each reads back as its record. -/
theorem concurrent_appends (H : Hasher) (fs : Files) (path : String) (maxSize : Nat)
    (indexEnabled : Bool) (s : RecordSegment)
    (hnew : RecordSegment.new fs path maxSize indexEnabled = .ok s) (acts : List Act)
    (hok : Lts.Guarded (World.step H) World.GrantsUnowed (World.ofSegment s) acts) (w : World)
    (hrun : Lts.run (World.step H) (World.ofSegment s) acts = some w) : w.Sound H := by
  have hinv : ∃ rs, w.Tiled H rs := by
    refine Lts.Guarded.invariant (fun w => ∃ rs, World.Tiled H w rs) ?_
      ⟨[], World.Tiled.start hnew⟩ hok hrun
    rintro w a w' ⟨rs, h⟩ ha hstep
    obtain ⟨rs', h', -⟩ := h.step ha hstep
    exact ⟨rs', h'⟩
  obtain ⟨rs, h⟩ := hinv
  exact h.sound

/-- Three appends, of which the second does not fit and owes its space while the
first is copied. -/
theorem concurrent_appends_three : ∃ s w,
    RecordSegment.new Files.fresh "segment.dat" 100 true = .ok s ∧
    Lts.run (World.step crc32Hasher) (World.ofSegment s)
      [.start ⟨1, [65]⟩ (by decide), .start ⟨2, List.replicate 70 0⟩ (by decide), .advance 0,
        .advance 1, .start ⟨3, []⟩ (by decide), .advance 1, .advance 1, .advance 1, .advance 0,
        .advance 0] = some w ∧
    w.calls = [] ∧ w.acknowledged.length = 2 ∧ w.Sound crc32Hasher := by
  refine ⟨_, _, rfl, rfl, rfl, rfl, ?_⟩
  refine concurrent_appends crc32Hasher Files.fresh "segment.dat" 100 true _ rfl
    [.start ⟨1, [65]⟩ (by decide), .start ⟨2, List.replicate 70 0⟩ (by decide), .advance 0,
      .advance 1, .start ⟨3, []⟩ (by decide), .advance 1, .advance 1, .advance 1, .advance 0,
      .advance 0] (by decide) _ rfl

set_option maxRecDepth 2000 in
/-- **Owed space overlaps.**  Three appends to a segment of 100 bytes fail or fit
at 0, 60 and 120; the failed ones give their space back one after the other, and
before each does so a record of 20 bytes is granted at 80. -/
theorem owed_space_overlaps : ∃ s w,
    RecordSegment.new Files.fresh "segment.dat" 100 false = .ok s ∧
    Lts.run (World.step crc32Hasher) (World.ofSegment s)
      [.start ⟨1, List.replicate 40 1⟩ (by decide), .start ⟨2, List.replicate 40 2⟩ (by decide),
        .start ⟨3, []⟩ (by decide), .advance 0, .advance 0, .advance 0, .advance 0,
        .start ⟨4, []⟩ (by decide), .advance 1, .advance 1, .advance 1, .advance 0,
        .start ⟨5, []⟩ (by decide), .advance 0, .advance 0, .advance 0] = some w ∧
    w.calls = [] ∧
    w.acknowledged = [(⟨0, 60⟩, ⟨1, List.replicate 40 1⟩), (⟨80, 20⟩, ⟨4, []⟩),
      (⟨80, 20⟩, ⟨5, []⟩)] ∧
    ¬ w.Sound crc32Hasher := by
  refine ⟨_, _, rfl, rfl, rfl, rfl, ?_⟩
  intro h
  have hpair := (List.pairwise_cons.mp (List.pairwise_cons.mp h.disjoint).2).1
  exact absurd (hpair (⟨80, 20⟩, ⟨5, []⟩) List.mem_cons_self) (by decide)

end Dolda.Storage
