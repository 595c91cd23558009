/-
# `Dolda.Storage.Rotation` — what a manager keeps

Appends to a `SegmentManager`, one at a time, of records no longer than a
segment.  Each segment is laid out with records of its own (`Rotated`), and an
append does one of three things (`Rotated.append`):

    the record fits the last segment      it goes there, the segments before it stay
    it does not, and one can be created   it goes to the start of a new one, all before it stay
    it does not, and none can be          an error, and everything stays

So only the last segment changes, and iterating over the segments in order
yields the records in order — those the decoder accepts: one with more payload
than the constructors allow is appended all the same and then hidden, together
with what is behind it in its segment.
-/
import Mathlib.Algebra.Order.BigOperators.Group.List
import Mathlib.Data.List.Forall2
import Dolda.Lib.NextFit
import Dolda.Storage.Iterate
import Dolda.Storage.Manager

namespace Dolda.Storage

open NextFit (Packing)

/-- What `stats` reports, but for the average utilization. -/
structure ManagerStats where
  partitionId : Nat
  segmentCount : Nat
  totalRecords : Nat
  totalBytes : Nat
deriving DecidableEq, Repr

namespace SegmentManager

def stats (m : SegmentManager) : ManagerStats where
  partitionId := m.partitionId
  segmentCount := m.segments.length
  totalRecords := U64.sum (m.segments.map (fun s => s.recordCount))
  totalBytes := U64.sum (m.segments.map (fun s => s.writePos))

/-- Iterating over the segments in list order hands out `items`. -/
def Iterates (H : Hasher) (m : SegmentManager) (items : List ScanItem) : Prop :=
  ∃ itemss, List.Forall₂ (Yields H) m.segments itemss ∧ items = itemss.flatten

/-- Appends made one at a time, of records no longer than a segment, with their
answers. -/
inductive Appends (H : Hasher) (m : SegmentManager) :
    SegmentManager → List (Record × Except StorageError RecordOffset) → Prop where
  | opened : Appends H m m []
  | append {fs : Files} {r : Record} {result : Except StorageError RecordOffset}
      {m' m'' : SegmentManager} {history : List (Record × Except StorageError RecordOffset)} :
      Appends H m m' history → r.serializedSize ≤ m'.segmentSize →
        Loop.Returns (appendTurn H fs r) m' (some result, m'') →
          Appends H m m'' (history ++ [(r, result)])

/-- An answered append, if it was acknowledged. -/
def okOf : Record × Except StorageError RecordOffset → Option (RecordOffset × Record)
  | (r, .ok o) => some (o, r)
  | (_, .error _) => none

/-- The records appended, in order, with the place each was answered. -/
def appended (history : List (Record × Except StorageError RecordOffset)) :
    List (RecordOffset × Record) := history.filterMap okOf

/-- There is room behind the records of the last segment. -/
def LastHasRoom (m : SegmentManager) (n : Nat) : Prop :=
  ∃ s, m.segments.getLast? = some s ∧ s.writePos + n ≤ s.maxSize

/-- The maps of the segments lie side by side in a 64-bit address space. -/
def Mapped (m : SegmentManager) : Prop := (m.segments.map (fun s => s.maxSize)).sum < 2 ^ 64

/-! ## What the segments hold

A record that has room goes to the last segment, in one round; a segment created for a
record has room for it. -/

/-- The segments are laid out with the records of a packing, and the last is
current. -/
structure Rotated (H : Hasher) (size : Nat) (m : SegmentManager) (p : Packing Record) : Prop where
  segmentSize : m.segmentSize = size
  segments : ∃ full last, m.segments = full ++ [last] ∧ List.Forall₂ (Laid H) full p.full ∧
    Laid H last p.last ∧ last.maxSize = size ∧ m.currentSegment = some full.length

/-- The records of a packing with their places, bin by bin. -/
def places (H : Hasher) (p : Packing Record) : List (RecordOffset × Record) :=
  (p.full ++ [p.last]).flatMap (placed H)

/-- What an append comes to: its answer and the manager after it. -/
inductive Outcome (H : Hasher) (size : Nat) (m : SegmentManager) (p : Packing Record) (r : Record) :
    Except StorageError RecordOffset → SegmentManager → Prop where
  | fitted {m' : SegmentManager} : m.LastHasRoom r.serializedSize →
      m'.segments.dropLast = m.segments.dropLast → Rotated H size m' (p.extended [r]) →
        Outcome H size m p r (.ok ⟨(frames H p.last).length, r.serializedSize⟩) m'
  | rolledOver {m' : SegmentManager} : ¬ m.LastHasRoom r.serializedSize →
      m'.segments.dropLast = m.segments → Rotated H size m' (p.opened.extended [r]) →
        Outcome H size m p r (.ok ⟨0, r.serializedSize⟩) m'
  | refused (e : StorageError) : ¬ m.LastHasRoom r.serializedSize →
      Outcome H size m p r (.error e) m

section
variable {H : Hasher} {fs : Files} {m m' : SegmentManager} {r : Record} {size : Nat}
  {p : Packing Record} {full : List RecordSegment} {last : RecordSegment}

theorem places_extended (p : Packing Record) (r : Record) :
    places H (p.extended [r])
      = places H p ++ [(⟨(frames H p.last).length, r.serializedSize⟩, r)] := by
  simp only [places, Packing.extended, List.flatMap_append, List.flatMap_singleton, placed_snoc,
    List.append_assoc]

theorem places_opened (p : Packing Record) : places H p.opened = places H p := by
  rw [places, Packing.opened, List.flatMap_append]
  exact List.append_nil _

theorem Rotated.of_new {partitionId : Nat} {storageDir : String} {indexEnabled : Bool}
    (h : new fs partitionId size storageDir indexEnabled = .ok m) : Rotated H size m .empty := by
  simp only [new] at h
  split at h
  · cases h
  obtain ⟨s, hnew, rfl⟩ := createNewSegment_ok h
  obtain ⟨hholds, hmax, -⟩ := holds_new (H := H) hnew
  exact ⟨rfl, [], s, rfl, .nil, hholds.laid, hmax, rfl⟩

theorem lastHasRoom_iff (hsegs : m.segments = full ++ [last]) (n : Nat) :
    m.LastHasRoom n ↔ last.writePos + n ≤ last.maxSize := by
  rw [LastHasRoom, hsegs, List.getLast?_concat]
  constructor
  · rintro ⟨s, hs, hroom⟩
    cases hs
    exact hroom
  · exact fun hroom => ⟨last, rfl, hroom⟩

theorem Rotated.created (h : Rotated H size m p) (hnew : m.createNewSegment fs = .ok m') :
    Rotated H size m' p.opened ∧ m'.segments.dropLast = m.segments ∧
      ∀ n, m'.LastHasRoom n ↔ n ≤ size := by
  obtain ⟨s, hs, rfl⟩ := createNewSegment_ok hnew
  obtain ⟨hholds, hmax, -⟩ := holds_new (H := H) hs
  obtain ⟨full, last, hsegs, hfull, hlast, -, -⟩ := h.segments
  rw [h.segmentSize] at hmax
  refine ⟨⟨h.segmentSize, m.segments, s, rfl, ?_, hholds.laid, hmax, rfl⟩,
    List.dropLast_concat, ?_⟩
  · rw [hsegs]
    exact List.rel_append hfull (.cons hlast .nil)
  · intro n
    rw [lastHasRoom_iff rfl, hmax, hholds.writePos]
    exact iff_of_eq (congrArg (· ≤ size) (Nat.zero_add n))

theorem Rotated.appendTurn_fits (h : Rotated H size m p) (fs : Files)
    (hroom : m.LastHasRoom r.serializedSize) : ∃ m',
      appendTurn H fs r m
        = .inr (some (.ok ⟨(frames H p.last).length, r.serializedSize⟩), m') ∧
      m'.segments.dropLast = m.segments.dropLast ∧ Rotated H size m' (p.extended [r]) := by
  obtain ⟨full, last, hsegs, hfull, hlast, hmax, hcur⟩ := h.segments
  have hfit := (lastHasRoom_iff hsegs _).mp hroom
  have hturn := appendTurn_last H fs hsegs hcur hfit
  rw [hlast.filled.writePos] at hturn
  refine ⟨_, hturn, ?_, h.segmentSize, full, last.appended H r hfit, put_last hsegs _, hfull,
    hlast.appended hfit, hmax, hcur⟩
  rw [put_last hsegs, hsegs, List.dropLast_concat, List.dropLast_concat]

theorem Rotated.healthy (h : Rotated H size m p) : m.Healthy size := by
  obtain ⟨full, last, hsegs, -, hlast, hmax, hcur⟩ := h.segments
  exact ⟨h.segmentSize, full, last, hsegs, hcur, hmax, hlast.filled.inside⟩

theorem Rotated.size_le (h : Rotated H size m p) : size ≤ isizeMax := by
  obtain ⟨-, last, -, -, -, hmax, -⟩ := h.segments
  exact hmax ▸ last.maxSize_le

theorem Rotated.hasSpace_iff (h : Rotated H size m p) (hr : r.serializedSize ≤ size) :
    m.hasSpace r.serializedSize = true ↔ m.LastHasRoom r.serializedSize := by
  obtain ⟨full, last, hsegs, -, hlast, -, hcur⟩ := h.segments
  rw [hasSpace, current_of_last hsegs hcur, lastHasRoom_iff hsegs]
  exact MappedFile.hasSpace_iff hlast.filled.inside (hr.trans h.size_le)

/-- **The step lemma**: an append returns, with one of the three outcomes. -/
theorem Rotated.append (h : Rotated H size m p) (fs : Files) (hr : r.serializedSize ≤ size) :
    ∃ result m', Loop.Returns (appendTurn H fs r) m (some result, m') ∧
      Outcome H size m p r result m' := by
  by_cases hroom : m.LastHasRoom r.serializedSize
  · obtain ⟨m', hturn, hsegs, h'⟩ := h.appendTurn_fits fs hroom
    exact ⟨_, m', (Loop.returns_inr hturn).mpr rfl, .fitted hroom hsegs h'⟩
  have hfull : appendTurn H fs r m = _ := h.healthy.appendTurn_full
    (mt (h.hasSpace_iff hr).mp hroom)
  cases hnew : m.createNewSegment fs with
  | error e =>
      rw [hnew] at hfull
      exact ⟨_, m, (Loop.returns_inr hfull).mpr rfl, .refused e hroom⟩
  | ok m₁ =>
      rw [hnew] at hfull
      obtain ⟨h₁, hsegs₁, hroom₁⟩ := h.created hnew
      obtain ⟨m', hturn, hsegs, h'⟩ := h₁.appendTurn_fits fs ((hroom₁ _).mpr hr)
      exact ⟨_, m', (Loop.returns_inl hfull).mpr ((Loop.returns_inr hturn).mpr rfl),
        .rolledOver hroom (hsegs.trans hsegs₁) h'⟩

/-! ## Runs -/

/-- What an append answers and how many segments it adds. -/
theorem Outcome.counts {result : Except StorageError RecordOffset}
    (h : Outcome H size m p r result m') :
    (∀ o, result = .ok o →
      (m.LastHasRoom r.serializedSize ∧ m'.segments.length = m.segments.length) ∨
      (¬ m.LastHasRoom r.serializedSize ∧ m'.segments.length = m.segments.length + 1)) ∧
    (∀ e, result = .error e → ¬ m.LastHasRoom r.serializedSize ∧ m' = m) := by
  have hlen : ∀ {m' p'}, Rotated H size m' p' →
      m'.segments.dropLast.length + 1 = m'.segments.length := by
    intro m' p' h'
    obtain ⟨full, last, hsegs, -⟩ := h'.segments
    rw [hsegs, List.dropLast_concat, List.length_append]
    rfl
  cases h with
  | fitted hroom hsegs h' =>
      refine ⟨fun o _ => Or.inl ⟨hroom, ?_⟩, nofun⟩
      obtain ⟨s, hs, -⟩ := hroom
      have hpos := List.length_pos_of_mem (List.mem_of_getLast? hs)
      rw [← hlen h', hsegs, List.length_dropLast]
      omega
  | rolledOver hroom hsegs h' =>
      refine ⟨fun o _ => Or.inr ⟨hroom, ?_⟩, nofun⟩
      rw [← hlen h', hsegs]
  | refused e hroom => exact ⟨nofun, fun _ _ => ⟨hroom, rfl⟩⟩

/-- **The run lemma**: the segments are laid out with what was appended, and
those that were not the last are as they were. -/
theorem Appends.rotated {history : List (Record × Except StorageError RecordOffset)}
    (h : Appends H m m' history) (hm : Rotated H size m p) :
    ∃ p', Rotated H size m' p' ∧ places H p' = places H p ++ appended history ∧
      m.segments.dropLast <+: m'.segments.dropLast := by
  induction h with
  | opened => exact ⟨p, hm, (List.append_nil _).symm, List.prefix_refl _⟩
  | @append fs r result m₁ m₂ history _ hr hret ih =>
      obtain ⟨p₁, h₁, hplaces, hpre⟩ := ih
      rw [h₁.segmentSize] at hr
      obtain ⟨result', m', hret', houtcome⟩ := h₁.append fs hr
      cases hret.unique hret'
      rw [appended, List.filterMap_append, ← appended, ← List.append_assoc, ← hplaces]
      cases houtcome with
      | fitted _ hsegs h' =>
          exact ⟨_, h', places_extended p₁ r, hsegs ▸ hpre⟩
      | rolledOver _ hsegs h' =>
          refine ⟨_, h', ?_, hpre.trans (hsegs ▸ List.dropLast_prefix _)⟩
          rw [places_extended, places_opened]
          rfl
      | refused e _ => exact ⟨p₁, h₁, (List.append_nil _).symm, hpre⟩

/-! ## Iterating and counting

Iterating hands out the records of the bins in order, if they can be decoded, and what
it hands out as a record is one. -/

theorem Rotated.bins (h : Rotated H size m p) :
    List.Forall₂ (Laid H) m.segments (p.full ++ [p.last]) := by
  obtain ⟨full, last, hsegs, hfull, hlast, -, -⟩ := h.segments
  rw [hsegs]
  exact List.rel_append hfull (.cons hlast .nil)

theorem Rotated.iterates (h : Rotated H size m p) (hval : ∀ x ∈ places H p, x.2.Valid) :
    m.Iterates H ((places H p).map Except.ok) := by
  refine ⟨(p.full ++ [p.last]).map (fun rs => (placed H rs).map Except.ok), ?_, ?_⟩
  · rw [List.forall₂_map_right_iff]
    have hbin : ∀ rs ∈ p.full ++ [p.last], ∀ r ∈ rs, r.Valid := by
      intro rs hrs r hr
      obtain ⟨x, hx, rfl⟩ := List.mem_map.mp ((placed_map_snd (H := H) rs).symm ▸ hr)
      exact hval x (List.mem_flatMap.mpr ⟨rs, hrs, hx⟩)
    have hboth := (List.forall₂_and_left _ _).mpr ⟨hbin, h.bins.flip⟩
    refine List.Forall₂.flip (hboth.imp ?_)
    rintro rs s ⟨hrs, hlaid⟩
    exact (Laid.holds hlaid hrs).yields
  · rw [places, List.map_flatMap, List.flatMap_def]

theorem Iterates.unique {items items' : List ScanItem} (h : m.Iterates H items)
    (h' : m.Iterates H items') : items = items' := by
  obtain ⟨itemss, hyields, rfl⟩ := h
  obtain ⟨itemss', hyields', rfl⟩ := h'
  rw [List.right_unique_forall₂' (fun _ _ _ h h' => h.unique h') hyields hyields']

theorem Iterates.valid {items : List ScanItem} (h : m.Iterates H items)
    {x : RecordOffset × Record} (hx : .ok x ∈ items) : x.2.Valid := by
  obtain ⟨itemss, hyields, rfl⟩ := h
  obtain ⟨items, hitems, hmem⟩ := List.mem_flatten.mp hx
  obtain ⟨n, hn⟩ := List.mem_iff_getElem?.mp hitems
  obtain ⟨hlt, rfl⟩ := List.getElem?_eq_some_iff.mp hn
  have hlen := hyields.length_eq
  exact (hyields.get (by omega) hlt).valid hmem

theorem places_map_snd (p : Packing Record) :
    (places H p).map Prod.snd = (p.full ++ [p.last]).flatten := by
  have hsnd : (fun rs => (placed H rs).map Prod.snd) = id := funext (placed_map_snd (H := H))
  rw [places, List.map_flatMap, hsnd, List.flatMap_id]

/-- **The statistics** count the records and their bytes. -/
theorem Rotated.stats_eq (h : Rotated H size m p) (hmapped : m.Mapped) :
    m.stats.totalRecords = (places H p).length ∧
      m.stats.totalBytes = ((places H p).map (fun x => x.2.serializedSize)).sum := by
  have hinside : ∀ s ∈ m.segments, s.recordCount ≤ s.writePos ∧ s.writePos ≤ s.maxSize := by
    intro s hs
    obtain ⟨n, hn⟩ := List.mem_iff_getElem?.mp hs
    obtain ⟨hlt, rfl⟩ := List.getElem?_eq_some_iff.mp hn
    have hlaid : Laid H m.segments[n] _ := h.bins.get hlt (h.bins.length_eq ▸ hlt)
    refine ⟨?_, hlaid.filled.inside⟩
    rw [hlaid.recordCount, hlaid.filled.writePos]
    exact length_le_frames _
  have hcounts : m.segments.map (fun s => s.recordCount) = (p.full ++ [p.last]).map List.length := by
    rw [← List.forall₂_eq_eq_eq, List.forall₂_map_left_iff, List.forall₂_map_right_iff]
    exact h.bins.imp (fun _ _ hlaid => hlaid.recordCount)
  have hbytes : m.segments.map (fun s => s.writePos)
      = (p.full ++ [p.last]).map (fun rs => (rs.map Record.serializedSize).sum) := by
    rw [← List.forall₂_eq_eq_eq, List.forall₂_map_left_iff, List.forall₂_map_right_iff]
    exact h.bins.imp (fun _ rs hlaid => hlaid.filled.writePos.trans (frames_length rs))
  have hle : (m.segments.map (fun s => s.writePos)).sum ≤
      (m.segments.map (fun s => s.maxSize)).sum :=
    List.sum_le_sum (fun s hs => (hinside s hs).2)
  have hle' : (m.segments.map (fun s => s.recordCount)).sum ≤
      (m.segments.map (fun s => s.writePos)).sum :=
    List.sum_le_sum (fun s hs => (hinside s hs).1)
  have hbound : (m.segments.map (fun s => s.maxSize)).sum < 2 ^ 64 := hmapped
  constructor
  · show U64.sum _ = _
    rw [U64.sum_of_lt (by omega), hcounts, ← List.length_map (f := Prod.snd), places_map_snd,
      List.length_flatten]
  · show U64.sum _ = _
    have hsizes : (places H p).map (fun x => x.2.serializedSize)
        = ((places H p).map Prod.snd).map Record.serializedSize := by
      rw [List.map_map]
      rfl
    rw [U64.sum_of_lt (by omega), hbytes, hsizes, places_map_snd, List.map_flatten,
      List.sum_flatten, List.map_map]
    rfl

end

/-- **Appends rotate through the segments.**  After any appends of records no
longer than a segment to a new manager, made one at a time:

* iterating over the segments in order hands out exactly the records appended,
  in order, iff each is one the constructors build;
* the statistics count the records appended and their bytes;
* the next append returns, adds a segment iff the last has no room for the
  record, and changes nothing if that segment cannot be created;
* segments other than the last never change again. -/
theorem appends_rotate {H : Hasher} {fs : Files} {partitionId size : Nat} {storageDir : String}
    {indexEnabled : Bool} {m₀ m : SegmentManager}
    {history : List (Record × Except StorageError RecordOffset)}
    (hnew : new fs partitionId size storageDir indexEnabled = .ok m₀)
    (h : Appends H m₀ m history) :
    ((∀ items, m.Iterates H items ↔ items = (appended history).map Except.ok) ↔
      ∀ x ∈ appended history, x.2.Valid) ∧
    (m.Mapped → m.stats.totalRecords = (appended history).length ∧
      m.stats.totalBytes = ((appended history).map (fun x => x.2.serializedSize)).sum) ∧
    (∀ (fs : Files) (r : Record), r.serializedSize ≤ size →
      ∃ result m', Loop.Returns (appendTurn H fs r) m (some result, m') ∧
        (∀ o, result = .ok o →
          (m.LastHasRoom r.serializedSize ∧ m'.segments.length = m.segments.length) ∨
          (¬ m.LastHasRoom r.serializedSize ∧ m'.segments.length = m.segments.length + 1)) ∧
        (∀ e, result = .error e → ¬ m.LastHasRoom r.serializedSize ∧ m' = m)) ∧
    ∀ m' history', Appends H m m' history' → m.segments.dropLast <+: m'.segments.dropLast := by
  obtain ⟨p, hrotated, hplaces, -⟩ := h.rotated (Rotated.of_new hnew)
  have hempty : places H (Packing.empty : Packing Record) = [] := rfl
  rw [hempty, List.nil_append] at hplaces
  refine ⟨?_, ?_, ?_, ?_⟩
  · rw [← hplaces]
    constructor
    · intro hiff x hx
      exact ((hiff _).mpr rfl).valid (List.mem_map_of_mem hx)
    · intro hval items
      have hiterates := hrotated.iterates hval
      constructor
      · exact fun hitems => hitems.unique hiterates
      · rintro rfl
        exact hiterates
  · rw [← hplaces]
    exact hrotated.stats_eq
  · intro fs r hr
    obtain ⟨result, m', hret, houtcome⟩ := hrotated.append fs hr
    exact ⟨result, m', hret, houtcome.counts⟩
  · intro m' history' hmore
    obtain ⟨-, -, -, hpre⟩ := hmore.rotated hrotated
    exact hpre

/-- Two records in segments of 64 bytes, each in one of its own. -/
theorem appends_rotate_two : ∃ m₀ m₁ m₂,
    new Files.fresh 1 64 "data" false = .ok m₀ ∧
    Loop.Returns (appendTurn crc32Hasher .fresh ⟨1, List.replicate 20 65⟩) m₀
      (some (.ok ⟨0, 40⟩), m₁) ∧
    Loop.Returns (appendTurn crc32Hasher .fresh ⟨2, List.replicate 21 66⟩) m₁
      (some (.ok ⟨0, 41⟩), m₂) ∧
    m₂.segments.length = 2 ∧
    ∀ items, m₂.Iterates crc32Hasher items ↔
      items = [.ok (⟨0, 40⟩, ⟨1, List.replicate 20 65⟩), .ok (⟨0, 41⟩, ⟨2, List.replicate 21 66⟩)] := by
  obtain ⟨m₀, m₁, m₂, hnew, hret₁, hret₂, hsize₀, hsize₁, hlen⟩ : ∃ m₀ m₁ m₂,
      new Files.fresh 1 64 "data" false = .ok m₀ ∧
      Loop.Returns (appendTurn crc32Hasher .fresh ⟨1, List.replicate 20 65⟩) m₀
        (some (.ok ⟨0, 40⟩), m₁) ∧
      Loop.Returns (appendTurn crc32Hasher .fresh ⟨2, List.replicate 21 66⟩) m₁
        (some (.ok ⟨0, 41⟩), m₂) ∧
      m₀.segmentSize = 64 ∧ m₁.segmentSize = 64 ∧ m₂.segments.length = 2 :=
    ⟨_, _, _, rfl, ⟨1, rfl⟩, ⟨2, rfl⟩, rfl, rfl, rfl⟩
  have hrun := (Appends.opened.append (hsize₀ ▸ by decide) hret₁).append
    (hsize₁ ▸ by decide) hret₂
  exact ⟨m₀, m₁, m₂, hnew, hret₁, hret₂, hlen, (appends_rotate hnew hrun).1.mpr (by decide)⟩

/-- A record the constructors refuse is appended to a segment of its size, and
then not handed out. -/
theorem refused_record_hidden {r : Record} (hr : ¬ r.Valid) (hsize : r.serializedSize ≤ isizeMax) :
    ∃ m₀ m o, new Files.fresh 1 r.serializedSize "data" false = .ok m₀ ∧
      Loop.Returns (appendTurn crc32Hasher .fresh r) m₀ (some (.ok o), m) ∧
      ¬ m.Iterates crc32Hasher [.ok (o, r)] := by
  obtain ⟨m₀, hnew⟩ := new_willing Files.fresh_willing 1 "data" false hsize
  have hrotated := Rotated.of_new (H := crc32Hasher) hnew
  have hroom : m₀.LastHasRoom r.serializedSize := by
    obtain ⟨full, last, hsegs, -, hlast, hmax, -⟩ := hrotated.segments
    have hpos : last.writePos = 0 := hlast.filled.writePos
    rw [lastHasRoom_iff hsegs, hpos, hmax, Nat.zero_add]
  obtain ⟨m, hturn, -⟩ := hrotated.appendTurn_fits .fresh hroom
  refine ⟨m₀, m, _, hnew, (Loop.returns_inr hturn).mpr rfl, ?_⟩
  intro hiterates
  exact hr (hiterates.valid List.mem_cons_self)

def zeros (n : Nat) : Record := ⟨1, List.replicate n 0⟩

theorem zeros_size (n : Nat) : (zeros n).serializedSize = recordHeaderSize + n := by
  rw [zeros, Record.serializedSize, List.length_replicate]

theorem zeros_valid_iff (n : Nat) : (zeros n).Valid ↔ n ≤ maxRecordSize := by
  rw [zeros, Record.Valid, List.length_replicate]

/-- **An oversized record is hidden**: with one byte more than the constructors
allow it fits a segment and is appended, and iterating does not hand it out. -/
theorem oversized_record_hidden : ∃ m₀ m o,
    new Files.fresh 1 (zeros (maxRecordSize + 1)).serializedSize "data" false = .ok m₀ ∧
    Loop.Returns (appendTurn crc32Hasher .fresh (zeros (maxRecordSize + 1))) m₀ (some (.ok o), m) ∧
    ¬ m.Iterates crc32Hasher [.ok (o, zeros (maxRecordSize + 1))] :=
  refused_record_hidden (mt (zeros_valid_iff _).mp (Nat.not_succ_le_self _))
    ((zeros_size _).trans_le (by decide))

end SegmentManager

end Dolda.Storage
