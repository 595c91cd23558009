/-
# `Dolda.PersistQ.Manager` — the segments of a partition

`SegmentManager` of `src/persistq.rs`.  Appends go to the current segment, the
last, and roll over to a new one when it is full, in a loop of the same shape as
that of `storage.rs`; reads go to the first segment, whichever segment the offset
is of.

**The abstraction.**  The segments hold the bins of a next-fit packing
(`Holds`): an append packs its payload and answers with the slot
(`append_holds`), a read sees the first bin (`read_of_holds`).
-/
import Mathlib.Data.List.Basic
import Mathlib.Data.List.Forall2
import Dolda.Lib.Loop
import Dolda.Lib.Lts
import Dolda.Lib.NextFit
import Dolda.PersistQ.Segment

namespace Dolda.PersistQ

open NextFit (Packing)

structure SegmentManager where
  partitionId : Nat
  segments : List Segment
  currentSegment : Option Nat
  segmentSize : Nat
  storageDir : String

namespace SegmentManager

def segmentPath (m : SegmentManager) (segmentId : Nat) : String :=
  m.storageDir ++ "/partition_" ++ toString m.partitionId ++ "_segment_" ++ toString segmentId
    ++ ".dat"

def createNewSegment (fs : Files) (m : SegmentManager) : Except String SegmentManager :=
  match Segment.new fs (m.segmentPath m.segments.length) m.segmentSize with
  | .error e => .error e
  | .ok segment =>
      .ok
        { m with
          segments := m.segments ++ [segment]
          currentSegment := some m.segments.length }

def new (fs : Files) (partitionId segmentSize : Nat) (storageDir : String) :
    Except String SegmentManager :=
  match fs.createDirAll storageDir with
  | .error e => .error ("Failed to create storage directory: " ++ e)
  | .ok () =>
      createNewSegment fs
        { partitionId, segments := [], currentSegment := none, segmentSize, storageDir }

/-- The current segment and its position. -/
def current (m : SegmentManager) : Option (Nat × Segment) :=
  match m.currentSegment with
  | none => none
  | some i =>
      match m.segments[i]? with
      | none => none
      | some segment => some (i, segment)

/-- Whether there is a current segment with space. -/
def hasSpace (m : SegmentManager) (size : Nat) : Bool :=
  match m.current with
  | none => false
  | some (_, segment) => segment.hasSpace size

def put (m : SegmentManager) (i : Nat) (segment : Segment) : SegmentManager :=
  { m with segments := m.segments.set i segment }

/-- The slow path: check again, create a segment, go round again. -/
def slowPath (fs : Files) (m : SegmentManager) (size : Nat) :
    SegmentManager ⊕ (Option (Except String Nat) × SegmentManager) :=
  if m.hasSpace size then .inl m
  else
    match m.createNewSegment fs with
    | .error e => .inr (some (.error e), m)
    | .ok m => .inl m

/-- One round of `append`. -/
def appendTurn (fs : Files) (data : List UInt8) (m : SegmentManager) :
    SegmentManager ⊕ (Option (Except String Nat) × SegmentManager) :=
  match m.current with
  | none => m.slowPath fs data.length
  | some (i, segment) =>
      if segment.hasSpace data.length then
        -- the lock has been taken again: look once more
        if segment.hasSpace data.length then
          match segment.append data with
          | none => .inr (none, m)
          | some (result, segment) => .inr (some result, m.put i segment)
        else m.slowPath fs data.length
      else m.slowPath fs data.length

/-- `read`, from the first segment. -/
def read (m : SegmentManager) (offset : Nat) : Option (Except String (List UInt8)) :=
  match m.segments.head? with
  | none => some (.error "No segments available")
  | some segment => segment.read offset

/-- The states one thread brings a manager to. -/
inductive Reached : SegmentManager → Prop where
  | new {fs : Files} {partitionId segmentSize : Nat} {storageDir : String} {m : SegmentManager} :
      SegmentManager.new fs partitionId segmentSize storageDir = .ok m → Reached m
  | append {fs : Files} {data : List UInt8} {m m' : SegmentManager}
      {result : Option (Except String Nat)} :
      Reached m → data.length ≤ isizeMax →
        Loop.Returns (appendTurn fs data) m (result, m') → Reached m'

/-! ## What a manager holds

Segments of one directory have paths of their own, of whichever partitions.  A new
segment is a new bin, and one that could be mapped has the size of a slice.  The first
segment holds the first bin, which is all a read sees. -/

/-- The segments hold the bins of a packing, and the last is current. -/
structure Holds (cap : Nat) (m : SegmentManager) (p : Packing UInt8) : Prop where
  segmentSize : m.segmentSize = cap
  segments : ∃ full segment, m.segments = full ++ [segment] ∧
    List.Forall₂ (Segment.Holds cap) full p.full ∧ segment.Holds cap p.last ∧
    m.currentSegment = some full.length

section
variable {cap : Nat} {fs : Files} {m m' : SegmentManager} {p : Packing UInt8}
  {data : List UInt8} {full : List Segment} {segment : Segment}

theorem not_mem_toString {c : Char} (h : c.isDigit = false) (n : Nat) :
    c ∉ (toString n).toList := by
  intro hmem
  rw [Nat.toString_eq_ofList_toDigits, String.toList_ofList] at hmem
  have hdigit := Nat.isDigit_of_mem_toDigits (by decide) (by decide) hmem
  cases h.symm.trans hdigit

theorem toString_injective {i j : Nat} (h : toString i = toString j) : i = j := by
  have hrepr : Nat.repr i = Nat.repr j := h
  have hdigits : Nat.toDigits 10 i = Nat.toDigits 10 j := by
    rw [← Nat.toList_repr, ← Nat.toList_repr, hrepr]
  calc i = Nat.ofDigitChars 10 (Nat.toDigits 10 i) 0 :=
        (Nat.ofDigitChars_toDigits (by decide) (by decide)).symm
    _ = Nat.ofDigitChars 10 (Nat.toDigits 10 j) 0 := by rw [hdigits]
    _ = j := Nat.ofDigitChars_toDigits (by decide) (by decide)

theorem segmentPath_inj {i j : Nat} (hdir : m.storageDir = m'.storageDir)
    (h : m.segmentPath i = m'.segmentPath j) : m.partitionId = m'.partitionId ∧ i = j := by
  have hsplit : ∀ a b : String, (a ++ "_segment_" ++ b).toList =
      (a.toList ++ ['_']) ++ 's' :: ("egment_".toList ++ b.toList) := by
    intro a b
    simp only [String.toList_append, List.append_assoc]
    rfl
  have hletter := not_mem_toString (c := 's') (by decide)
  have hbody : toString m.partitionId ++ "_segment_" ++ toString i =
      toString m'.partitionId ++ "_segment_" ++ toString j := by
    simp only [segmentPath, hdir, String.append_assoc] at h
    rw [String.append_right_inj, String.append_right_inj, ← String.append_assoc,
      ← String.append_assoc, ← String.append_assoc, ← String.append_assoc,
      String.append_left_inj] at h
    exact h
  have hlist := congrArg String.toList hbody
  rw [hsplit, hsplit, List.append_cons_inj_of_notMem] at hlist
  · obtain ⟨hpartition, -, hsegment⟩ := hlist
    exact ⟨toString_injective (String.toList_inj.mp (List.append_cancel_right hpartition)),
      toString_injective (String.toList_inj.mp (List.append_cancel_left hsegment))⟩
  · simp only [List.mem_append, hletter, false_or]
    decide
  · simp only [List.mem_append, hletter, or_false]
    decide

theorem segmentPath_injective {i j : Nat} (h : m.segmentPath i = m.segmentPath j) : i = j :=
  (segmentPath_inj rfl h).2

theorem current_of_last (hsegs : m.segments = full ++ [segment])
    (hcur : m.currentSegment = some full.length) : m.current = some (full.length, segment) := by
  simp only [current, hcur, hsegs, List.getElem?_concat_length]

theorem new_holds {partitionId : Nat} {storageDir : String}
    (h : new fs partitionId cap storageDir = .ok m) : m.Holds cap .empty := by
  simp only [new] at h
  split at h
  · cases h
  simp only [createNewSegment] at h
  split at h
  · cases h
  · rename_i segment hnew
    cases h
    exact ⟨rfl, [], segment, rfl, .nil, Segment.new_holds hnew, rfl⟩

theorem createNewSegment_willing (hfs : fs.Willing) (m : SegmentManager)
    (h : m.segmentSize ≤ isizeMax) : ∃ m', m.createNewSegment fs = .ok m' := by
  obtain ⟨file, hfile⟩ := MappedFile.create_willing hfs (m.segmentPath m.segments.length) h
  simp only [createNewSegment, Segment.new, hfile]
  exact ⟨_, rfl⟩

theorem new_willing (hfs : fs.Willing) (partitionId : Nat) (storageDir : String)
    (h : cap ≤ isizeMax) : ∃ m, new fs partitionId cap storageDir = .ok m := by
  rw [new, hfs.createDirAll]
  exact createNewSegment_willing hfs _ h

theorem Holds.created (h : m.Holds cap p) (hnew : m.createNewSegment fs = .ok m') :
    m'.Holds cap p.opened ∧ m'.segments.length = m.segments.length + 1 := by
  simp only [createNewSegment] at hnew
  split at hnew
  · cases hnew
  · rename_i segment' hseg
    cases hnew
    obtain ⟨full, segment, hsegs, hfull, hlast, -⟩ := h.segments
    rw [h.segmentSize] at hseg
    refine ⟨⟨h.segmentSize, m.segments, segment', rfl, ?_, Segment.new_holds hseg, rfl⟩,
      List.length_append⟩
    rw [hsegs]
    exact List.rel_append hfull (.cons hlast .nil)

theorem Holds.cap_le (h : m.Holds cap p) : cap ≤ isizeMax := by
  obtain ⟨-, segment, -, -, hlast, -⟩ := h.segments
  exact hlast.maxSize ▸ segment.maxSize_le

theorem Holds.hasSpace_iff (h : m.Holds cap p) (hsize : data.length ≤ isizeMax) :
    m.hasSpace data.length = true ↔ p.Fits cap data := by
  obtain ⟨full, segment, hsegs, -, hlast, hcur⟩ := h.segments
  rw [hasSpace, current_of_last hsegs hcur]
  exact hlast.hasSpace_iff hsize

/-- **A round where the payload fits** puts it behind the last one. -/
theorem Holds.appendTurn_fits (h : m.Holds cap p) (fs : Files) (hsize : data.length ≤ isizeMax)
    (hfit : p.Fits cap data) :
    ∃ m', appendTurn fs data m = .inr (some (.ok p.last.length), m') ∧
      m'.Holds cap (p.extended data) ∧ m'.segments.length = m.segments.length := by
  obtain ⟨full, segment, hsegs, hfull, hlast, hcur⟩ := h.segments
  obtain ⟨segment', happ, hholds⟩ := hlast.append hfit
  refine ⟨m.put full.length segment', ?_, ⟨h.segmentSize, full, segment', ?_, hfull, hholds, hcur⟩,
    List.length_set⟩
  · have hspace := (hlast.hasSpace_iff hsize).mpr hfit
    simp only [appendTurn, current_of_last hsegs hcur, if_pos hspace, happ]
  · simp only [put, hsegs, List.set_append_right _ _ (Nat.le_refl _), Nat.sub_self,
      List.set_cons_zero]

/-- **A round where it does not** goes down the slow path and creates a
segment. -/
theorem Holds.appendTurn_full (h : m.Holds cap p) (fs : Files) (hsize : data.length ≤ isizeMax)
    (hfit : ¬ p.Fits cap data) :
    appendTurn fs data m =
      match m.createNewSegment fs with
      | .error e => .inr (some (.error e), m)
      | .ok m => .inl m := by
  have hspace : ¬ m.hasSpace data.length = true := by rwa [h.hasSpace_iff hsize]
  obtain ⟨full, segment, hsegs, -, hlast, hcur⟩ := h.segments
  have hseg : ¬ segment.hasSpace data.length = true := by rwa [hlast.hasSpace_iff hsize]
  simp only [appendTurn, current_of_last hsegs hcur, if_neg hseg]
  rw [slowPath, if_neg hspace]

/-- **An append that fits a segment** returns within two rounds: it packs its
payload and answers with the slot, or a segment cannot be created and everything
stays as it was. -/
theorem Holds.append (h : m.Holds cap p) (hdata : data.length ≤ cap) (fs : Files) (n : Nat) :
    (∃ m', Loop.run (appendTurn fs data) (n + 2) m
        = some (some (.ok (NextFit.slot cap p data)), m') ∧
      m'.Holds cap (NextFit.add cap p data)) ∨
    ∃ e, m.createNewSegment fs = .error e ∧
      Loop.run (appendTurn fs data) (n + 2) m = some (some (.error e), m) := by
  have hsize : data.length ≤ isizeMax := hdata.trans h.cap_le
  by_cases hfit : p.Fits cap data
  · obtain ⟨m', hturn, hholds, -⟩ := h.appendTurn_fits fs hsize hfit
    rw [NextFit.slot, NextFit.add, Packing.target, if_pos hfit]
    exact Or.inl ⟨m', Loop.run_inr hturn _, hholds⟩
  have hturn := h.appendTurn_full fs hsize hfit
  cases hnew : m.createNewSegment fs with
  | error e =>
      rw [hnew] at hturn
      exact Or.inr ⟨e, rfl, Loop.run_inr hturn _⟩
  | ok m₁ =>
      rw [hnew] at hturn
      obtain ⟨h₁, -⟩ := h.created hnew
      have hfit₁ : p.opened.Fits cap data := by
        show 0 + data.length ≤ cap
        omega
      obtain ⟨m', hturn₁, hholds, -⟩ := h₁.appendTurn_fits fs hsize hfit₁
      rw [NextFit.slot, NextFit.add, Packing.target, if_neg hfit]
      refine Or.inl ⟨m', ?_, hholds⟩
      rw [Loop.run_inl hturn]
      exact Loop.run_inr hturn₁ _

theorem Holds.head (h : m.Holds cap p) : ∃ s, m.segments.head? = some s ∧ s.Holds cap p.first := by
  obtain ⟨full, segment, hsegs, hfull, hlast, -⟩ := h.segments
  obtain ⟨bins, last⟩ := p
  rw [hsegs]
  cases hfull with
  | nil => exact ⟨segment, rfl, hlast⟩
  | cons hhead _ => exact ⟨_, rfl, hhead⟩

theorem Holds.read (h : m.Holds cap p) (offset : Nat) :
    m.read offset = some (if p.first.length ≤ offset then .error "Offset out of bounds"
      else .ok (p.first.drop offset)) := by
  obtain ⟨s, hhead, hs⟩ := h.head
  rw [SegmentManager.read, hhead]
  exact hs.read offset

/-! ## What every append keeps -/

theorem current_getElem {i : Nat} (h : m.current = some (i, segment)) :
    m.segments[i]? = some segment := by
  simp only [current] at h
  split at h
  · cases h
  split at h
  · cases h
  · rename_i hget
    cases h
    exact hget

/-- A new segment keeps `P`, and so does one written to. -/
structure Stable (P : SegmentManager → Prop) : Prop where
  created : ∀ {fs : Files} {m m' : SegmentManager}, P m → m.createNewSegment fs = .ok m' → P m'
  put : ∀ {m : SegmentManager} {i : Nat} {s s' : Segment}, P m → m.segments[i]? = some s →
    s'.path = s.path → P (m.put i s')

/-- The manager a round goes on or returns with has `P`. -/
def TurnHas (P : SegmentManager → Prop) :
    SegmentManager ⊕ (Option (Except String Nat) × SegmentManager) → Prop
  | .inl m => P m
  | .inr x => P x.2

theorem Stable.slowPath {P : SegmentManager → Prop} (h : Stable P) (hm : P m) (size : Nat) :
    TurnHas P (m.slowPath fs size) := by
  simp only [SegmentManager.slowPath]
  split
  · exact hm
  split
  · exact hm
  · rename_i hnew
    exact h.created hm hnew

theorem Stable.appendTurn {P : SegmentManager → Prop} (h : Stable P) (hm : P m) (fs : Files)
    (data : List UInt8) : TurnHas P (appendTurn fs data m) := by
  simp only [SegmentManager.appendTurn]
  split
  · exact h.slowPath hm _
  rename_i i segment hcurrent
  split
  · split
    · exact hm
    · rename_i result segment' happend
      exact h.put hm (current_getElem hcurrent) (Segment.append_path happend)
  · exact h.slowPath hm _

/-- **An append keeps** what a new segment and one written to keep. -/
theorem Stable.append {P : SegmentManager → Prop} (h : Stable P) (hm : P m)
    {result : Option (Except String Nat)}
    (hret : Loop.Returns (SegmentManager.appendTurn fs data) m (result, m')) : P m' := by
  refine Loop.Returns.post P (fun x => P x.2) ?_ ?_ hm hret
  · intro m₁ m₂ hm₁ hturn
    have hturned := h.appendTurn hm₁ fs data
    rwa [hturn] at hturned
  · intro m₁ x hm₁ hturn
    have hturned := h.appendTurn hm₁ fs data
    rwa [hturn] at hturned

/-- The segments have the paths of their numbers. -/
structure Laid (dir : String) (m : SegmentManager) : Prop where
  storageDir : m.storageDir = dir
  paths : ∀ (i : Nat) (s : Segment), m.segments[i]? = some s → s.path = m.segmentPath i

theorem Laid.created {dir : String} (h : m.Laid dir) (hnew : m.createNewSegment fs = .ok m') :
    m'.Laid dir := by
  simp only [createNewSegment] at hnew
  split at hnew
  · cases hnew
  rename_i segment hsegment
  cases hnew
  refine ⟨h.storageDir, ?_⟩
  intro i s hs
  change (m.segments ++ [segment])[i]? = some s at hs
  rcases Lts.getElem?_of_concat hs with hs | ⟨rfl, rfl⟩
  · exact h.paths i s hs
  · exact Segment.new_path hsegment

theorem new_laid {partitionId segmentSize : Nat} {dir : String}
    (h : SegmentManager.new fs partitionId segmentSize dir = .ok m) : m.Laid dir := by
  simp only [SegmentManager.new] at h
  split at h
  · cases h
  · refine Laid.created ⟨rfl, ?_⟩ h
    intro i s hs
    cases hs

theorem Laid.put {dir : String} (h : m.Laid dir) {i : Nat} {s s' : Segment}
    (hs : m.segments[i]? = some s) (hpath : s'.path = s.path) : (m.put i s').Laid dir := by
  refine ⟨h.storageDir, ?_⟩
  intro j t ht
  change (m.segments.set i s')[j]? = some t at ht
  rcases Lts.getElem?_of_set ht with ht | ⟨rfl, rfl⟩
  · exact h.paths j t ht
  · exact hpath.trans (h.paths j s hs)

theorem laid_stable (dir : String) : Stable (Laid dir) where
  created := fun h hnew => h.created hnew
  put := fun h hs hpath => h.put hs hpath

/-! ## When an append is bounded -/

/-- **An append retries** until the payload fits or a segment cannot be
created. -/
theorem append_retries (fs : Files) (cap : Nat) (hsize : data.length ≤ isizeMax) :
    Loop.Retries (appendTurn fs data) (fun m => m.hasSpace data.length = true)
      (createNewSegment fs) (data.length ≤ cap) (fun x => x.1.isSome = true)
      (fun m => m.segments.length) (fun x => x.2.segments.length) (fun m => ∃ p, m.Holds cap p)
    where
  done := by
    rintro m ⟨p, h⟩ hspace
    obtain ⟨m', hturn, -, hlen⟩ :=
      h.appendTurn_fits fs hsize ((h.hasSpace_iff hsize).mp hspace)
    exact ⟨_, hturn, rfl, hlen⟩
  failed := by
    rintro m e ⟨p, h⟩ hspace hgrow
    rw [h.hasSpace_iff hsize] at hspace
    rw [h.appendTurn_full fs hsize hspace, hgrow]
    exact ⟨_, rfl, rfl, rfl⟩
  goesOn := by
    rintro m m' ⟨p, h⟩ hspace hgrow
    rw [h.hasSpace_iff hsize] at hspace
    rw [h.appendTurn_full fs hsize hspace, hgrow]
  grown := by
    rintro m m' ⟨p, h⟩ hgrow
    obtain ⟨h', hlen⟩ := h.created hgrow
    refine ⟨⟨_, h'⟩, hlen, (h'.hasSpace_iff hsize).trans ?_⟩
    show 0 + data.length ≤ cap ↔ _
    rw [Nat.zero_add]
  fits_small := by
    rintro m ⟨p, h⟩ hspace
    exact (Nat.le_add_left _ _).trans ((h.hasSpace_iff hsize).mp hspace)

/-- In every state one thread brings a manager to, its segments hold a packing. -/
theorem Reached.holds (h : Reached m) : ∃ p, m.Holds m.segmentSize p := by
  induction h with
  | @new fs partitionId segmentSize storageDir m hnew =>
      have hholds := new_holds hnew
      exact ⟨_, hholds.segmentSize ▸ hholds⟩
  | @append fs data m m' result _ hsize hret ih =>
      have hretries := append_retries fs m.segmentSize hsize
      have hpost : ∃ p, m'.Holds m.segmentSize p := by
        refine Loop.Returns.post (fun m' => ∃ p, m'.Holds m.segmentSize p)
          (fun x => ∃ p, x.2.Holds m.segmentSize p) ?_ ?_ ih hret
        · intro m₁ m₂ h hturn
          exact (hretries.grows.goesOn h hturn).1
        · rintro m₁ x ⟨p, h⟩ hturn
          by_cases hfit : p.Fits m.segmentSize data
          · obtain ⟨m₂, hturn', hholds, -⟩ := h.appendTurn_fits fs hsize hfit
            cases hturn.symm.trans hturn'
            exact ⟨_, hholds⟩
          · rw [h.appendTurn_full fs hsize hfit] at hturn
            split at hturn
            · cases hturn
              exact ⟨p, h⟩
            · cases hturn
      obtain ⟨p, hp⟩ := hpost
      exact ⟨p, hp.segmentSize ▸ hp⟩

/-- The append returns, with `Ok` or `Err`, having created at most one segment. -/
def BoundedAppend (fs : Files) (data : List UInt8) (m : SegmentManager) : Prop :=
  ∃ result m', Loop.Returns (appendTurn fs data) m (some result, m') ∧
    m'.segments.length ≤ m.segments.length + 1

/-- Of the next two segments one cannot be created. -/
def CreationFails (fs : Files) (m : SegmentManager) : Prop :=
  (∃ e, m.createNewSegment fs = .error e) ∨
    ∃ m' e, m.createNewSegment fs = .ok m' ∧ m'.createNewSegment fs = .error e

/-- An append is bounded iff the payload fits a segment or the segments it would
need cannot be created. -/
theorem Holds.boundedAppend_iff (h : m.Holds cap p) (fs : Files) (hsize : data.length ≤ isizeMax) :
    BoundedAppend fs data m ↔ data.length ≤ cap ∨ m.CreationFails fs := by
  have hiff := (append_retries fs cap hsize).bounded_iff ⟨p, h⟩
  rw [BoundedAppend, Loop.exists_returns_some, hiff, CreationFails]

/-- A payload that fits no segment keeps the append going for as long as
segments can be created. -/
theorem Holds.append_never_ends (h : m.Holds cap p) (hsize : data.length ≤ isizeMax)
    (hbig : cap < data.length) (hcreate : ∀ m' : SegmentManager, m'.segmentSize = cap →
      ∃ m'', m'.createNewSegment fs = .ok m'') :
    ¬ Loop.Terminates (appendTurn fs data) m :=
  (append_retries fs cap hsize).not_terminates (Nat.not_le.mpr hbig)
    (fun m' ⟨_, h'⟩ => hcreate m' h'.segmentSize) ⟨p, h⟩

end

end SegmentManager

end Dolda.PersistQ
