/-
# `Dolda.PersistQ.Single` — one partition, whose segments are files on a disk

A mailbox's queue has one partition, whose `i`-th segment has the `i`-th path of
the storage directory (`Laid`).  So no two segments have one file, and a queue
that is spilled to a disk and attached again is the same (`Single.attach_spill`).

**The abstraction.**  A queue is the bytes written to its segments, in order, and
the map of its global offsets.  An append that is acknowledged adds one entry
(`Added`): its bytes behind the last of the last segment, or in a new one, and
the next global offset, mapped to where they begin.  An append that is refused
adds none (`Unadded`).
-/
import Dolda.PersistQ.Shared
import Dolda.PersistQ.Offsets

namespace Dolda.PersistQ

open NextFit (Packing)

/-! ## What is added -/

/-- The bytes written to each segment, in order. -/
def written (q : PersistQ) : List (List UInt8) :=
  q.segments.map (fun s => s.mmap.take s.writePos)

/-- One entry was added, at the end. -/
structure Added (q q' : PersistQ) (data : List UInt8) : Prop where
  globalOffset : q'.globalOffset = q.globalOffset + 1
  fresh : q.offsetMap.lookup q.globalOffset = none
  behind : ∃ full last, q'.written = full ++ [last ++ data] ∧
    (q.written = full ++ [last] ∨ q.written = full ∧ last = []) ∧
    q'.offsetMap = q.offsetMap.insert q.globalOffset
      { partitionId := 1, localOffset := last.length }

/-- No entry was added, and nothing was written. -/
structure Unadded (q q' : PersistQ) : Prop where
  globalOffset : q'.globalOffset = q.globalOffset
  offsetMap : q'.offsetMap = q.offsetMap
  written : q'.written.flatten = q.written.flatten

theorem Unadded.refl (q : PersistQ) : Unadded q q := ⟨rfl, rfl, rfl⟩

section
variable {cap : Nat} {fs : Files} {data : List UInt8} {disk : Disk}

/-! ## The manager -/

namespace SegmentManager

variable {m m' : SegmentManager} {p : Packing UInt8}

theorem Laid.housed {dir : String} (h : m.Laid dir) : m.Housed dir := by
  refine ⟨h.storageDir, ?_⟩
  intro s hs
  obtain ⟨i, hi⟩ := List.mem_iff_getElem?.mp hs
  rw [h.paths i s hi, ← h.storageDir]
  exact m.segmentPath_inDir i

/-- The bytes of the segments are the bins. -/
theorem Holds.written (h : m.Holds cap p) :
    m.segments.map (fun s => s.mmap.take s.writePos) = p.full ++ [p.last] := by
  obtain ⟨full, segment, hsegs, hfull, hlast, -⟩ := h.segments
  rw [hsegs, List.map_append, List.map_singleton, hlast.filled.bytes]
  refine congrArg (· ++ [p.last]) ?_
  clear hsegs
  generalize p.full = bins at hfull
  induction hfull with
  | nil => rfl
  | cons hs _ ih => rw [List.map_cons, hs.filled.bytes, ih]

/-- What an append of any length leaves: an acknowledged payload behind the last of
what there was, or in the segment behind it. -/
def Packs (cap : Nat) (p : Packing UInt8) (data : List UInt8) :
    Option (Except String Nat) × SegmentManager → Prop
  | (some (.ok offset), m) => ∃ p', (p' = p ∨ p' = p.opened) ∧ m.Holds cap (p'.extended data) ∧
      offset = p'.last.length
  | (_, m) => ∃ p', m.Holds cap p' ∧ (p'.full ++ [p'.last]).flatten = (p.full ++ [p.last]).flatten

theorem Holds.packs (h : m.Holds cap p) (hsize : data.length ≤ isizeMax)
    {result : Option (Except String Nat)}
    (hret : Loop.Returns (appendTurn fs data) m (result, m')) : Packs cap p data (result, m') := by
  -- a payload longer than a segment is never stored, however many are opened
  refine Loop.Returns.post
    (fun m : SegmentManager => ∃ p' : Packing UInt8, m.Holds cap p' ∧
      (p'.full ++ [p'.last]).flatten = (p.full ++ [p.last]).flatten ∧
      (p' = p ∨ p' = p.opened ∨ cap < data.length))
    (Packs cap p data) ?_ ?_ ⟨p, h, rfl, Or.inl rfl⟩ hret
  · rintro m₁ m₂ ⟨p', h', hflat, hopened⟩ hturn
    by_cases hfit : p'.Fits cap data
    · obtain ⟨m₃, hturn', -⟩ := h'.appendTurn_fits fs hsize hfit
      cases hturn.symm.trans hturn'
    rw [h'.appendTurn_full fs hsize hfit] at hturn
    split at hturn
    · cases hturn
    rename_i hnew
    cases hturn
    refine ⟨p'.opened, (h'.created hnew).1, ?_, ?_⟩
    · rw [← hflat, Packing.opened, List.flatten_append, List.flatten_singleton, List.append_nil]
    · rcases hopened with rfl | rfl | hbig
      · exact Or.inr (Or.inl rfl)
      · refine Or.inr (Or.inr ?_)
        change ¬ 0 + data.length ≤ cap at hfit
        omega
      · exact Or.inr (Or.inr hbig)
  · rintro m₁ x ⟨p', h', hflat, hopened⟩ hturn
    by_cases hfit : p'.Fits cap data
    · obtain ⟨m₂, hturn', hholds, -⟩ := h'.appendTurn_fits fs hsize hfit
      cases hturn.symm.trans hturn'
      refine ⟨p', ?_, hholds, rfl⟩
      rcases hopened with rfl | rfl | hbig
      · exact Or.inl rfl
      · exact Or.inr rfl
      · change p'.last.length + data.length ≤ cap at hfit
        omega
    · rw [h'.appendTurn_full fs hsize hfit] at hturn
      split at hturn
      · cases hturn
        exact ⟨p', h', hflat⟩
      · cases hturn

end SegmentManager

/-! ## The queue -/

variable {H : Hasher} {q q' : PersistQ} {m : SegmentManager}

/-- The queue has one partition, whose segments have the paths of their numbers, and
maps only numbers it has given. -/
structure Single (q : PersistQ) : Prop where
  numPartitions : q.config.numPartitions = 1
  manager : ∃ m p, q.segmentManagers = (∅ : AList (fun _ : Nat => SegmentManager)).insert 1 m ∧
    m.Laid q.config.storageDir ∧ m.Holds q.config.segmentSize p
  bounded : q.Bounded

theorem segments_single
    (h : q.segmentManagers = (∅ : AList (fun _ : Nat => SegmentManager)).insert 1 m) :
    q.segments = m.segments := by
  rw [PersistQ.segments, h]
  show m.segments ++ [] = _
  rw [List.append_nil]

theorem Single.housed (h : q.Single) : q.Housed := by
  obtain ⟨m, p, hmanagers, hlaid, -⟩ := h.manager
  intro i m' hm'
  rw [hmanagers] at hm'
  by_cases hi : i = 1
  · subst hi
    cases (AList.lookup_insert _).symm.trans hm'
    exact hlaid.housed
  · cases (AList.lookup_insert_ne hi).symm.trans hm'

theorem new_single {paths : Paths} {config : PersistQConfig}
    (h : PersistQ.new fs paths config = .ok q) (hone : config.numPartitions = 1) :
    q.Single ∧ q.globalOffset = 0 := by
  have hbounded := new_bounded h
  rw [PersistQ.new] at h
  split at h
  · cases h
  split at h
  · cases h
  rename_i dir hdir
  dsimp only at h
  split at h
  · cases h
  rename_i managers hmanagers
  cases h
  have hrange : List.range' 1 config.numPartitions = [1] := by
    rw [hone]
    rfl
  rw [hrange, newManagers] at hmanagers
  split at hmanagers
  · cases hmanagers
  rename_i manager hnew
  rw [newManagers] at hmanagers
  cases hmanagers
  exact ⟨⟨hone, ⟨manager, _, rfl, SegmentManager.new_laid hnew, SegmentManager.new_holds hnew⟩,
    hbounded⟩, rfl⟩

/-! ### On the disk -/

/-- A segment holds the bytes up to its write position. -/
theorem Segment.holds_take {s : Segment} (hsize : s.maxSize = cap) (hin : s.writePos ≤ s.maxSize) :
    s.Holds cap (s.mmap.take s.writePos) := by
  refine ⟨hsize, ?_, hin, rfl⟩
  rw [List.length_take, s.mmap_length, Nat.min_eq_left hin]

theorem Segment.Holds.attach {s : Segment} {bs : List UInt8} (h : s.Holds cap bs) (disk : Disk) :
    (s.attach disk).Holds cap ((resize (disk s.path) s.maxSize).take s.writePos) :=
  Segment.holds_take (s := s.attach disk) h.maxSize h.filled.inside

theorem SegmentManager.Holds.attach {p : Packing UInt8} (h : m.Holds cap p) (disk : Disk) :
    ∃ p', (m.attach disk).Holds cap p' := by
  obtain ⟨full, segment, hsegs, hfull, hlast, hcur⟩ := h.segments
  have hbins : ∃ bins, List.Forall₂ (Segment.Holds cap) (full.map (Segment.attach disk)) bins := by
    clear hsegs hcur
    generalize p.full = bins at hfull
    induction hfull with
    | nil => exact ⟨[], .nil⟩
    | cons hs _ ih =>
        obtain ⟨bins, hbins⟩ := ih
        exact ⟨_, .cons (hs.attach disk) hbins⟩
  obtain ⟨bins, hbins⟩ := hbins
  refine ⟨⟨bins, _⟩, h.segmentSize, _, segment.attach disk, ?_, hbins, hlast.attach disk, ?_⟩
  · show m.segments.map _ = _
    rw [hsegs, List.map_append, List.map_singleton]
  · rw [List.length_map]
    exact hcur

theorem SegmentManager.Laid.attach {dir : String} (h : m.Laid dir) (disk : Disk) :
    (m.attach disk).Laid dir := by
  refine ⟨h.storageDir, ?_⟩
  intro i s hs
  change (m.segments.map _)[i]? = some s at hs
  rw [List.getElem?_map] at hs
  obtain ⟨s', hs', rfl⟩ := Option.map_eq_some_iff.mp hs
  exact h.paths i s' hs'

theorem attach_single (disk : Disk)
    (h : q.segmentManagers = (∅ : AList (fun _ : Nat => SegmentManager)).insert 1 m) :
    (q.attach disk).segmentManagers =
      (∅ : AList (fun _ : Nat => SegmentManager)).insert 1 (m.attach disk) := by
  refine AList.ext ?_
  show q.segmentManagers.entries.map _ = _
  rw [h]
  rfl

theorem Single.attach (h : q.Single) (disk : Disk) : (q.attach disk).Single := by
  obtain ⟨m, p, hmanagers, hlaid, hholds⟩ := h.manager
  obtain ⟨p', hholds'⟩ := hholds.attach disk
  exact ⟨h.numPartitions, ⟨_, p', attach_single disk hmanagers, hlaid.attach disk, hholds'⟩,
    h.bounded⟩

/-- A segment's file holds what the segment does, once the queue has been spilled. -/
theorem SegmentManager.Laid.spill {dir : String} (h : m.Laid dir)
    (hsegments : q.segments = m.segments)
    (disk : Disk) {s : Segment} (hs : s ∈ m.segments) : q.spill disk s.path = s.mmap := by
  obtain ⟨i, hi⟩ := List.mem_iff_getElem?.mp hs
  simp only [PersistQ.spill, hsegments]
  cases hfind : m.segments.find? (fun t => t.path = s.path) with
  | none => exact absurd (decide_eq_true rfl) (List.find?_eq_none.mp hfind s hs)
  | some t =>
      obtain ⟨j, hj⟩ := List.mem_iff_getElem?.mp (List.mem_of_find?_eq_some hfind)
      have hpath : t.path = s.path := by simpa using List.find?_some hfind
      rw [h.paths i s hi, h.paths j t hj] at hpath
      cases SegmentManager.segmentPath_injective hpath
      cases hi.symm.trans hj
      rfl

/-- **A queue spilled and attached again** is the same. -/
theorem Single.attach_spill (h : q.Single) (disk : Disk) : q.attach (q.spill disk) = q := by
  obtain ⟨m, p, hmanagers, hlaid, -⟩ := h.manager
  have hsegments : m.segments.map (Segment.attach (q.spill disk)) = m.segments := by
    refine (List.map_congr_left ?_).trans (List.map_id _)
    intro s hs
    have hmmap : resize (q.spill disk s.path) s.maxSize = s.mmap := by
      rw [hlaid.spill (segments_single hmanagers) disk hs, ← s.mmap_length]
      exact resize_self s.mmap
    show Segment.attach (q.spill disk) s = s
    simp only [Segment.attach, hmmap]
  have hmanager : m.attach (q.spill disk) = m := by
    simp only [SegmentManager.attach, hsegments]
  have hattached := attach_single (q.spill disk) hmanagers
  rw [hmanager, ← hmanagers] at hattached
  show { q with segmentManagers := (q.attach (q.spill disk)).segmentManagers } = q
  rw [hattached]

/-! ### Appends -/

/-- What an append leaves: an entry added if it is acknowledged, and otherwise none. -/
def Entered (q q' : PersistQ) (data : List UInt8) : Option (Except String AppendResult) → Prop
  | some (.ok _) => Added q q' data
  | _ => Unadded q q'

theorem written_single {p : Packing UInt8}
    (h : q.segmentManagers = (∅ : AList (fun _ : Nat => SegmentManager)).insert 1 m)
    (hholds : m.Holds cap p) : q.written = p.full ++ [p.last] := by
  rw [PersistQ.written, segments_single h]
  exact hholds.written

/-- **An append of any length**, whatever it answers. -/
theorem Single.append (h : q.Single) (hsize : data.length ≤ isizeMax)
    {startTime endTime rounds : Nat} {outcome : Option (Except String AppendResult)}
    (happ : q.append H fs startTime endTime rounds data = some (outcome, q')) :
    q'.Single ∧ q'.config = q.config ∧ Entered q q' data outcome := by
  have hbounded := h.bounded.append happ
  obtain ⟨m, p, hmanagers, hlaid, hholds⟩ := h.manager
  have hpart : partition H q.config.numPartitions data = 1 := by
    rw [h.numPartitions, partition_one]
  have hlookup : q.segmentManagers.lookup 1 = some m := by
    rw [hmanagers]
    exact AList.lookup_insert _
  have hwritten := written_single hmanagers hholds
  rw [PersistQ.append, if_neg (by rw [h.numPartitions]; decide)] at happ
  dsimp only at happ
  rw [hpart, hlookup] at happ
  dsimp only at happ
  split at happ
  · cases happ
  rename_i result m' hrun
  have hpacks := hholds.packs hsize ⟨_, hrun⟩
  have hlaid' := (SegmentManager.laid_stable _).append hlaid ⟨_, hrun⟩
  have hput : (q.putManager 1 m').segmentManagers =
      (∅ : AList (fun _ : Nat => SegmentManager)).insert 1 m' := by
    show q.segmentManagers.insert 1 m' = _
    rw [hmanagers, AList.insert_insert]
  -- a refused append leaves the bytes, and numbers nothing
  have hrefused : ∀ p', m'.Holds q.config.segmentSize p' →
      (p'.full ++ [p'.last]).flatten = (p.full ++ [p.last]).flatten →
      (q.putManager 1 m').Single ∧ (q.putManager 1 m').config = q.config ∧
        Unadded q (q.putManager 1 m') := by
    intro p' hholds' hflat
    refine ⟨⟨h.numPartitions, ⟨m', p', hput, hlaid', hholds'⟩, h.bounded⟩, rfl, rfl, rfl, ?_⟩
    rw [written_single hput hholds', hwritten, hflat]
  rcases result with _ | e | offset
  · cases happ
    obtain ⟨p', hholds', hflat⟩ := hpacks
    exact hrefused p' hholds' hflat
  · cases happ
    obtain ⟨p', hholds', hflat⟩ := hpacks
    exact hrefused p' hholds' hflat
  · cases happ
    obtain ⟨p', hp', hholds', rfl⟩ := hpacks
    refine ⟨⟨h.numPartitions, ⟨m', _, hput, hlaid', hholds'⟩, hbounded⟩, rfl, rfl,
      h.bounded _ (Nat.le_refl _), p'.full, p'.last, ?_, ?_, rfl⟩
    · exact written_single hput hholds'
    · rcases hp' with rfl | rfl
      · exact Or.inl hwritten
      · exact Or.inr ⟨hwritten, rfl⟩

/-! ### Reads -/

/-- What the first segment holds from the place of a number on, if anything. -/
def stored (q : PersistQ) (globalOffset : Nat) : Option (List UInt8) :=
  match q.offsetMap.lookup globalOffset with
  | none => none
  | some { partitionId, localOffset } =>
      match q.segmentManagers.lookup partitionId with
      | none => none
      | some manager =>
          match manager.segments.head? with
          | none => none
          | some segment =>
              let bytes := segment.mmap.take segment.writePos
              if bytes.length ≤ localOffset then none else some (bytes.drop localOffset)

/-- **A read** answers with what is stored, and fails if nothing is. -/
theorem Single.read (h : q.Single) (startTime endTime globalOffset : Nat) :
    match q.stored globalOffset with
    | none => ∃ e, q.read startTime endTime globalOffset = some (.error e)
    | some data => data ≠ [] ∧ ∃ result, result.record.data = data ∧
        q.read startTime endTime globalOffset = some (.ok result) := by
  obtain ⟨m, p, hmanagers, -, hholds⟩ := h.manager
  simp only [stored, PersistQ.read]
  cases hmapped : q.offsetMap.lookup globalOffset with
  | none => exact ⟨_, rfl⟩
  | some mapping =>
  obtain ⟨partitionId, localOffset⟩ := mapping
  rw [hmanagers]
  by_cases hone : partitionId = 1
  · subst hone
    have hlookup : ((∅ : AList (fun _ : Nat => SegmentManager)).insert 1 m).lookup 1 = some m :=
      AList.lookup_insert _
    obtain ⟨s, hhead, hs⟩ := hholds.head
    have hread := hholds.read localOffset
    simp only [hlookup, hhead, hs.filled.bytes]
    by_cases hlen : p.first.length ≤ localOffset
    · rw [if_pos hlen] at hread
      simp only [if_pos hlen, hread]
      exact ⟨_, rfl⟩
    · rw [if_neg hlen] at hread
      simp only [if_neg hlen, hread]
      exact ⟨fun hnil => hlen (List.drop_eq_nil_iff.mp hnil), _, rfl, rfl⟩
  · have hlookup : ((∅ : AList (fun _ : Nat => SegmentManager)).insert 1 m).lookup partitionId =
        none := (AList.lookup_insert_ne hone).trans (AList.lookup_empty _)
    simp only [hlookup]
    exact ⟨_, rfl⟩

end

end Dolda.PersistQ
