/-
# `Dolda.PersistQ.Reads` — what has been read once

`PersistQ::read` looks its number up in the offset map, and then reads the first
segment of the partition from there to the write position, under the segment's
mutex.  Tasks that append may take steps in between (`readAcross`).

**The rule.**  A queue only grows (`Extends`): a number that is mapped stays
mapped to its place, and the bytes of a segment stay where they are, with more
behind them.  No two segments have one file, whatever their partitions, so what
one gets no other loses (`Apart`).  So what a read answered with is how every
later answer begins (`reads_extend`).
-/
import Dolda.PersistQ.Offsets

namespace Dolda.PersistQ

open Memory

/-! ## A read among appends -/

/-- The rest of a read, once its number is looked up. -/
def readMapped (startTime endTime globalOffset : Nat) (mapping : OffsetMapping) (q : PersistQ) :
    Option (Except String ReadResult) :=
  match q.segmentManagers.lookup mapping.partitionId with
  | none => some (.error (noSegmentManager mapping.partitionId))
  | some manager =>
      match manager.read mapping.localOffset with
      | none => none
      | some (.error e) => some (.error e)
      | some (.ok data) =>
          let record :=
            { offset := globalOffset
              data
              timestamp := startTime / 1000000
              partitionId := mapping.partitionId }
          some (.ok { record, cacheHit := false, latencyUs := endTime - startTime })

/-- A read that looks its number up in `q`, and reads the segment when the queue has
become `q'`. -/
def readAcross (startTime endTime globalOffset : Nat) (q q' : PersistQ) :
    Option (Except String ReadResult) :=
  match q.offsetMap.lookup globalOffset with
  | none => some (.error ("Global offset " ++ toString globalOffset ++ " not found"))
  | some mapping => q'.readMapped startTime endTime globalOffset mapping

/-- Where nothing happens in between it is `read`. -/
theorem readAcross_self (startTime endTime globalOffset : Nat) (q : PersistQ) :
    readAcross startTime endTime globalOffset q q = q.read startTime endTime globalOffset := by
  simp only [readAcross, PersistQ.read, readMapped]
  cases q.offsetMap.lookup globalOffset with
  | none => rfl
  | some mapping => rfl

/-! ## Growing -/

/-- The segment has its file, and its bytes with more behind them. -/
structure Segment.Extends (s s' : Segment) : Prop where
  path : s'.path = s.path
  bytes : s.mmap.take s.writePos <+: s'.mmap.take s'.writePos

/-- The manager has its segments in their places, extended. -/
structure SegmentManager.Extends (m m' : SegmentManager) : Prop where
  partitionId : m'.partitionId = m.partitionId
  storageDir : m'.storageDir = m.storageDir
  segments : ∀ (i : Nat) (s : Segment), m.segments[i]? = some s →
    ∃ s', m'.segments[i]? = some s' ∧ s.Extends s'

/-- What is mapped stays mapped, and what is written stays written. -/
structure Extends (q q' : PersistQ) : Prop where
  mapped : ∀ g mapping, q.offsetMap.lookup g = some mapping →
    q'.offsetMap.lookup g = some mapping
  managers : ∀ i m, q.segmentManagers.lookup i = some m →
    ∃ m', q'.segmentManagers.lookup i = some m' ∧ m.Extends m'

/-- No two segments of the queue have one file. -/
def Apart (q : PersistQ) : Prop :=
  ∀ (i j : Nat) (m m' : SegmentManager) (k l : Nat) (s s' : Segment),
    q.segmentManagers.lookup i = some m → q.segmentManagers.lookup j = some m' →
      m.segments[k]? = some s → m'.segments[l]? = some s' → s.path = s'.path → i = j ∧ k = l

section
variable {cap : Nat} {fs : Files} {s s' s'' : Segment} {m m' m'' : SegmentManager}
  {q q' q'' : PersistQ} {offset : Nat} {data : List UInt8}

theorem Segment.Extends.refl (s : Segment) : s.Extends s := ⟨rfl, List.prefix_rfl⟩

theorem Segment.Extends.trans (h : s.Extends s') (h' : s'.Extends s'') : s.Extends s'' :=
  ⟨h'.path.trans h.path, h.bytes.trans h'.bytes⟩

theorem SegmentManager.Extends.refl (m : SegmentManager) : m.Extends m :=
  ⟨rfl, rfl, fun _ s hs => ⟨s, hs, .refl s⟩⟩

theorem SegmentManager.Extends.trans (h : m.Extends m') (h' : m'.Extends m'') : m.Extends m'' := by
  refine ⟨h'.partitionId.trans h.partitionId, h'.storageDir.trans h.storageDir, ?_⟩
  intro i s hs
  obtain ⟨s', hs', hextends⟩ := h.segments i s hs
  obtain ⟨s'', hs'', hextends'⟩ := h'.segments i s' hs'
  exact ⟨s'', hs'', hextends.trans hextends'⟩

theorem Extends.refl (q : PersistQ) : q.Extends q :=
  ⟨fun _ _ h => h, fun _ m hm => ⟨m, hm, .refl m⟩⟩

theorem Extends.trans (h : q.Extends q') (h' : q'.Extends q'') : q.Extends q'' := by
  refine ⟨fun g mapping hg => h'.mapped g mapping (h.mapped g mapping hg), ?_⟩
  intro i m hm
  obtain ⟨m', hm', hextends⟩ := h.managers i m hm
  obtain ⟨m'', hm'', hextends'⟩ := h'.managers i m' hm'
  exact ⟨m'', hm'', hextends.trans hextends'⟩

/-! ## What a read sees

A read inside a segment's size sees what is written from its offset on, which stays so
as the segment grows. -/

theorem Segment.read_inside (hin : s.writePos ≤ s.maxSize) (offset : Nat) :
    s.read offset = some
      (if (s.mmap.take s.writePos).length ≤ offset then .error "Offset out of bounds"
        else .ok ((s.mmap.take s.writePos).drop offset)) := by
  have hlen : (s.mmap.take s.writePos).length = s.writePos := by
    rw [List.length_take, s.mmap_length, Nat.min_eq_left hin]
  have hholds : s.Holds s.maxSize (s.mmap.take s.writePos) := ⟨rfl, hlen.symm, hin, rfl⟩
  exact hholds.read offset

/-- **A segment read** answers later with what it answered, and more. -/
theorem Segment.Extends.read (h : s.Extends s') (hin : s.writePos ≤ s.maxSize)
    (hin' : s'.writePos ≤ s'.maxSize) (hread : s.read offset = some (.ok data)) :
    ∃ data', s'.read offset = some (.ok data') ∧ data <+: data' := by
  rw [Segment.read_inside hin] at hread
  split at hread
  · cases hread
  rename_i hlen
  cases hread
  have hlen' : ¬ (s'.mmap.take s'.writePos).length ≤ offset := by
    have hle := h.bytes.length_le
    omega
  refine ⟨_, ?_, h.bytes.drop offset⟩
  rw [Segment.read_inside hin', if_neg hlen']

/-- The segments are inside their sizes, in the files of their numbers. -/
structure SegmentManager.Filed (partitionId : Nat) (storageDir : String) (m : SegmentManager) :
    Prop extends m.Laid storageDir where
  partitionId : m.partitionId = partitionId
  inside : ∀ s ∈ m.segments, s.writePos ≤ s.maxSize

/-- Each partition's manager has its own files. -/
def Filed (q : PersistQ) : Prop :=
  ∀ i m, q.segmentManagers.lookup i = some m → m.Filed i q.config.storageDir

theorem SegmentManager.Extends.read {i j : Nat} {dir dir' : String} (h : m.Extends m')
    (hfiled : m.Filed i dir) (hfiled' : m'.Filed j dir') (hread : m.read offset = some (.ok data)) :
    ∃ data', m'.read offset = some (.ok data') ∧ data <+: data' := by
  rw [SegmentManager.read, List.head?_eq_getElem?] at hread
  cases hfirst : m.segments[0]? with
  | none =>
      rw [hfirst] at hread
      cases hread
  | some s =>
      rw [hfirst] at hread
      obtain ⟨s', hfirst', hextends⟩ := h.segments 0 s hfirst
      rw [SegmentManager.read, List.head?_eq_getElem?, hfirst']
      exact hextends.read (hfiled.inside s (List.mem_of_getElem? hfirst))
        (hfiled'.inside s' (List.mem_of_getElem? hfirst')) hread

theorem Extends.readMapped (h : q.Extends q') (hfiled : q.Filed) (hfiled' : q'.Filed)
    {startTime endTime g : Nat} {mapping : OffsetMapping} {result : ReadResult}
    (hread : q.readMapped startTime endTime g mapping = some (.ok result))
    (startTime' endTime' : Nat) :
    ∃ result', q'.readMapped startTime' endTime' g mapping = some (.ok result') ∧
      result.record.data <+: result'.record.data := by
  rw [PersistQ.readMapped] at hread
  split at hread
  · cases hread
  rename_i m hmanager
  split at hread
  · cases hread
  · cases hread
  rename_i data hdata
  cases hread
  obtain ⟨m', hmanager', hextends⟩ := h.managers _ m hmanager
  obtain ⟨data', hdata', hprefix⟩ :=
    hextends.read (hfiled _ m hmanager) (hfiled' _ m' hmanager') hdata
  simp only [PersistQ.readMapped, hmanager', hdata']
  exact ⟨_, rfl, hprefix⟩

/-- **A read among appends** answers later with what it answered, and more. -/
theorem Extends.readAcross {q₁ q₂ q₃ q₄ : PersistQ} (hlookup : q₁.Extends q₃)
    (hsegments : q₂.Extends q₄) (hfiled : q₂.Filed) (hfiled' : q₄.Filed)
    {startTime endTime g : Nat} {result : ReadResult}
    (hread : readAcross startTime endTime g q₁ q₂ = some (.ok result)) (startTime' endTime' : Nat) :
    ∃ result', PersistQ.readAcross startTime' endTime' g q₃ q₄ = some (.ok result') ∧
      result.record.data <+: result'.record.data := by
  rw [PersistQ.readAcross] at hread
  split at hread
  · cases hread
  rename_i mapping hmapped
  simp only [PersistQ.readAcross, hlookup.mapped g mapping hmapped]
  exact hsegments.readMapped hfiled hfiled' hread startTime' endTime'

/-- No file is of two segments. -/
theorem Filed.apart (h : q.Filed) : q.Apart := by
  intro i j m m' k l s s' hm hm' hs hs' hpath
  have hfiled := h i m hm
  have hfiled' := h j m' hm'
  rw [hfiled.paths k s hs, hfiled'.paths l s' hs'] at hpath
  obtain ⟨hpartition, hkl⟩ :=
    SegmentManager.segmentPath_inj (hfiled.storageDir.trans hfiled'.storageDir.symm) hpath
  exact ⟨hfiled.partitionId.symm.trans (hpartition.trans hfiled'.partitionId), hkl⟩

end

/-! ## What a step of a call does to the segments

A step of a call in its manager, which is one that is kept, extends the segments and
leaves each inside its size, in its file.  A number that is drawn is not mapped yet. -/

section
variable {H : Hasher} {cap : Nat} {fs : Files} {sm : SharedManager} {p : Phase} {calls : List Call}
  {stored : List Stored} {data : List UInt8} {x : (Phase ⊕ Answer) × SharedManager}
  {q : PersistQ} {w w' : World} {a : Act}

theorem Effect.extends (h : Effect cap data sm stored p x) (hkept : Kept cap sm calls stored) :
    sm.manager.Extends x.2.manager := by
  cases h with
  | moved p' => exact .refl _
  | acquired p' => exact .refl _
  | pushed segment =>
      refine ⟨rfl, rfl, ?_⟩
      intro i s hs
      have hlt := (List.getElem?_eq_some_iff.mp hs).1
      exact ⟨s, (List.getElem?_append_left hlt).trans hs, .refl s⟩
  | released i => exact ⟨rfl, rfl, fun _ s hs => ⟨s, hs, .refl s⟩⟩
  | stored i s s' hout hget hholds hpath =>
      refine ⟨rfl, rfl, ?_⟩
      intro j t ht
      by_cases hj : i = j
      · subst hj
        cases hget.symm.trans ht
        have hlt := (List.getElem?_eq_some_iff.mp hget).1
        refine ⟨s', List.getElem?_set_self hlt, hpath, ?_⟩
        rw [(hkept.segments i s hget).1.filled.bytes, hholds.filled.bytes]
        exact List.prefix_append _ _
      · exact ⟨t, (List.getElem?_set_ne hj).trans ht, .refl t⟩
  | refused e => exact .refl _

theorem Effect.filed {i : Nat} {dir : String} (h : Effect cap data sm stored p x)
    (hfiled : sm.manager.Filed i dir) : x.2.manager.Filed i dir := by
  cases h with
  | moved p' => exact hfiled
  | acquired p' => exact hfiled
  | pushed segment hin hholds hpath =>
      refine { hfiled with paths := ?_, inside := ?_ }
      · intro k s hs
        rcases Lts.getElem?_of_concat hs with hs | ⟨rfl, rfl⟩
        · exact hfiled.paths k s hs
        · exact hpath
      · exact List.forall_mem_append.mpr
          ⟨hfiled.inside, List.forall_mem_singleton.mpr hholds.filled.inside⟩
  | released k => exact { hfiled with }
  | stored k s s' hout hget hholds hpath =>
      refine { hfiled.toLaid.put hget hpath with partitionId := hfiled.partitionId, inside := ?_ }
      intro t ht
      rcases List.mem_or_eq_of_mem_set ht with ht | rfl
      · exact hfiled.inside t ht
      · exact hholds.filled.inside
  | refused e => exact hfiled

namespace World

/-- What a step does to the queue: no entry and no segment is touched, a manager takes a
step, or a number is mapped. -/
inductive Moves (w : World) : PersistQ → Prop where
  | still {q : PersistQ} : q.config = w.queue.config → q.offsetMap = w.queue.offsetMap →
      q.segmentManagers = w.queue.segmentManagers → Moves w q
  | managed {c : Caller} {i : Nat} {phase : Phase} {m : SegmentManager} {fs : Files}
      {next : Phase ⊕ Answer} {shared : SharedManager} :
      c ∈ w.calls → c.stage = .appending i phase → w.queue.segmentManagers.lookup i = some m →
        phase.step fs c.data ⟨m, w.shared.locked i⟩ = some (next, shared) →
          Moves w (w.queue.putManager i shared.manager)
  | mapped {c : Caller} {g i localOffset : Nat} : c ∈ w.calls →
      c.stage = .mapping g i localOffset →
        Moves w { w.queue with offsetMap := w.queue.offsetMap.insert g ⟨i, localOffset⟩ }

theorem Moves.of_stage {c : Caller} (hc : c ∈ w.calls) {startTime endTime : Nat}
    {x : (Stage ⊕ Option (Except String AppendResult)) × SharedQueue}
    (hstep : c.stage.step H fs startTime endTime c.data w.shared = some x) :
    w.Moves x.2.queue := by
  obtain ⟨data, start, stage⟩ := c
  cases stage with
  | routing =>
      simp only [Stage.step] at hstep
      split at hstep
      · cases hstep
        exact .still rfl rfl rfl
      split at hstep
      · cases hstep
        exact .still rfl rfl rfl
      · cases hstep
        exact .still rfl rfl rfl
  | appending i phase =>
      simp only [Stage.step] at hstep
      split at hstep
      · cases hstep
      rename_i m hlookup
      split at hstep
      · cases hstep
      rename_i next shared hphase
      cases hstep
      exact .managed hc rfl hlookup hphase
  | numbering i localOffset =>
      cases hstep
      exact .still rfl rfl rfl
  | mapping g i localOffset =>
      cases hstep
      exact .mapped hc rfl

/-- **What a step can do** to the queue. -/
theorem step_moves (hstep : w.step H a = some w') : w.Moves w'.queue := by
  cases a with
  | start data startTime =>
      cases hstep
      exact .still rfl rfl rfl
  | advance k fs endTime =>
      simp only [World.step] at hstep
      split at hstep
      · cases hstep
      rename_i c hcall
      have hc := List.mem_of_getElem? hcall
      split at hstep
      · cases hstep
      · rename_i stage shared hstage
        cases hstep
        exact .of_stage hc hstage
      · rename_i outcome shared hstage
        cases hstep
        exact .of_stage hc hstage

theorem Aligned.unmapped {stored : Nat → List Stored} (h : w.Aligned stored) {c : Caller}
    (hc : c ∈ w.calls) {g : Nat} (hg : c.drawn = some g) : w.queue.offsetMap.lookup g = none := by
  cases hlookup : w.queue.offsetMap.lookup g with
  | none => rfl
  | some mapping =>
      obtain ⟨-, data, result, hret, hresult, -⟩ := h.mapped g mapping hlookup
      have hdrawn : g ∈ w.drawn := List.mem_filterMap.mpr ⟨c, hc, hg⟩
      have hnumber : g ∈ w.numbers :=
        List.mem_filterMap.mpr ⟨_, hret, congrArg some hresult⟩
      have hnodup : (w.numbers ++ w.drawn).Nodup := h.numbered.nodup_iff.mpr List.nodup_range
      cases List.disjoint_of_nodup_append hnodup hnumber hdrawn

theorem Aligned.kept {stored : Nat → List Stored} (h : w.Aligned stored) {c : Caller}
    (hc : c ∈ w.calls) {i : Nat} {phase : Phase} (hstage : c.stage = .appending i phase)
    {m : SegmentManager} (hm : w.queue.segmentManagers.lookup i = some m) :
    Kept w.queue.config.segmentSize ⟨m, w.shared.locked i⟩ (w.callsIn i) (stored i) ∧
      (⟨c.data, phase⟩ : Call) ∈ w.callsIn i := by
  obtain ⟨data, startTime, stage⟩ := c
  cases hstage
  obtain ⟨m', hm', hkept⟩ := h.manager i (h.fine _ hc)
  cases hm.symm.trans hm'
  exact ⟨hkept, List.mem_filterMap.mpr ⟨_, hc, inPartition_self _ _ _ _⟩⟩

theorem Moves.extends {stored : Nat → List Stored} (h : w.Aligned stored) (hmoves : w.Moves q) :
    w.queue.Extends q := by
  cases hmoves with
  | still hconfig hoffsets hmanagers =>
      refine ⟨?_, ?_⟩
      · intro g mapping hg
        rwa [hoffsets]
      · intro i m hm
        exact ⟨m, hmanagers ▸ hm, .refl m⟩
  | @managed c i phase m fs next shared hc hstage hm hphase =>
      obtain ⟨hkept, hcall⟩ := h.kept hc hstage hm
      refine ⟨fun g mapping hg => hg, ?_⟩
      intro j m' hm'
      by_cases hj : j = i
      · subst hj
        cases hm.symm.trans hm'
        exact ⟨_, AList.lookup_insert _, (hkept.effect hcall hphase).extends hkept⟩
      · exact ⟨m', (AList.lookup_insert_ne hj).trans hm', .refl m'⟩
  | @mapped c g i localOffset hc hstage =>
      refine ⟨?_, fun i m hm => ⟨m, hm, .refl m⟩⟩
      intro g' mapping hg'
      have hne : g' ≠ g := by
        rintro rfl
        have hdrawn : c.drawn = some g' := by rw [Caller.drawn, hstage]
        cases (h.unmapped hc hdrawn).symm.trans hg'
      exact (AList.lookup_insert_ne hne).trans hg'

theorem Moves.filed {stored : Nat → List Stored} (h : w.Aligned stored) (hmoves : w.Moves q)
    (hfiled : w.queue.Filed) : q.Filed := by
  cases hmoves with
  | still hconfig hoffsets hmanagers =>
      intro i m hm
      rw [hmanagers] at hm
      rw [hconfig]
      exact hfiled i m hm
  | @managed c i phase m fs next shared hc hstage hm hphase =>
      obtain ⟨hkept, hcall⟩ := h.kept hc hstage hm
      intro j m' hm'
      change (w.queue.segmentManagers.insert i shared.manager).lookup j = some m' at hm'
      by_cases hj : j = i
      · subst hj
        rw [AList.lookup_insert] at hm'
        cases hm'
        exact (hkept.effect hcall hphase).filed (hfiled j m hm)
      · rw [AList.lookup_insert_ne hj] at hm'
        exact hfiled j m' hm'
  | mapped hc hstage => exact hfiled

/-- What a queue that started as `q` has become. -/
structure Grown (q : PersistQ) (w : World) : Prop where
  aligned : ∃ stored, w.Aligned stored
  filed : w.queue.Filed
  grown : q.Extends w.queue

/-- **The step lemma.** -/
theorem Grown.step (h : Grown q w)
    (hok : ∀ data startTime, a = .start data startTime → data.length ≤ isizeMax)
    (hstep : w.step H a = some w') : Grown q w' := by
  obtain ⟨stored, haligned⟩ := h.aligned
  have hmoves := step_moves hstep
  exact ⟨(haligned.step hok hstep).2, hmoves.filed haligned h.filed,
    h.grown.trans (hmoves.extends haligned)⟩

/-- **The run lemma.** -/
theorem Grown.run {acts : List Act} (h : Grown q w)
    (hslices : ∀ data startTime, .start data startTime ∈ acts → data.length ≤ isizeMax)
    (hrun : Lts.run (World.step H) w acts = some w') : Grown q w' := by
  have hok : Lts.Guarded (World.step H) (fun _ a => True ∧ ∀ data startTime,
      a = .start data startTime → data.length ≤ isizeMax) w acts := by
    refine (Lts.Guarded.of_forall (fun _ _ => trivial) acts w).and_forall ?_
    rintro a ha data startTime rfl
    exact hslices data startTime ha
  refine Lts.Guarded.invariant (Grown q) ?_ h hok hrun
  intro w a w' h ha hstep
  exact h.step ha.2 hstep

theorem Grown.here (h : Grown q w) : Grown w.queue w := ⟨h.aligned, h.filed, .refl _⟩

end World

/-! ## A new queue

A new queue is filed: each segment is inside its size, in a file of its own.  So the
invariant holds from the start, and what a read has seen is carried along any run. -/

theorem newManagers_only {config : PersistQConfig} {is : List Nat}
    {managers managers' : AList (fun _ : Nat => SegmentManager)}
    (h : newManagers fs config is managers = .ok managers')
    (hold : ∀ i m, managers.lookup i = some m →
      SegmentManager.new fs i config.segmentSize config.storageDir = .ok m) :
    ∀ i m, managers'.lookup i = some m →
      SegmentManager.new fs i config.segmentSize config.storageDir = .ok m := by
  induction is generalizing managers with
  | nil =>
      cases h
      exact hold
  | cons j is ih =>
      simp only [newManagers] at h
      split at h
      · cases h
      rename_i manager hnew
      refine ih h ?_
      intro i m hm
      by_cases hij : i = j
      · subst hij
        rw [AList.lookup_insert] at hm
        cases hm
        exact hnew
      · rw [AList.lookup_insert_ne hij] at hm
        exact hold i m hm

theorem SegmentManager.new_filed {partitionId segmentSize : Nat} {dir : String} {m : SegmentManager}
    (h : SegmentManager.new fs partitionId segmentSize dir = .ok m) : m.Filed partitionId dir := by
  refine { SegmentManager.new_laid h with partitionId := ?_, inside := ?_ }
  · simp only [SegmentManager.new] at h
    split at h
    · cases h
    simp only [SegmentManager.createNewSegment] at h
    split at h
    · cases h
    · cases h
      rfl
  · intro s hs
    obtain ⟨i, hi⟩ := List.mem_iff_getElem?.mp hs
    exact ((Kept.new h).segments i s hi).1.filled.inside

theorem new_filed {paths : Paths} {config : PersistQConfig}
    (h : PersistQ.new fs paths config = .ok q) : q.Filed := by
  rw [PersistQ.new] at h
  split at h
  · cases h
  split at h
  · cases h
  dsimp only at h
  split at h
  · cases h
  rename_i hmanagers
  cases h
  intro i m hm
  refine SegmentManager.new_filed (newManagers_only hmanagers ?_ i m hm)
  intro j m' hempty
  cases hempty

theorem World.Grown.new {paths : Paths} {config : PersistQConfig}
    (h : PersistQ.new fs paths config = .ok q) : World.Grown q (World.ofQueue q) :=
  ⟨⟨_, World.Aligned.new h⟩, new_filed h, .refl q⟩

end

/-- **What is read stays.**  Let any number of tasks append to a new queue, of payloads
that can be in memory, and a read among them answer `Ok`.  Then every read that starts
later, at whatever the appends have made of the queue, answers `Ok` with the same data and
perhaps more behind it.  No byte that was written changes, and no file is of two
segments. -/
theorem reads_extend (H : Hasher) (fs : Files) (paths : Paths) (config : PersistQConfig)
    (q : PersistQ) (hnew : PersistQ.new fs paths config = .ok q)
    (acts₁ acts₂ acts₃ acts₄ : List Act)
    (hslices : ∀ data startTime, Act.start data startTime ∈ acts₁ ++ acts₂ ++ acts₃ ++ acts₄ →
      data.length ≤ isizeMax)
    (w₁ w₂ w₃ w₄ : World) (hrun₁ : Lts.run (World.step H) (World.ofQueue q) acts₁ = some w₁)
    (hrun₂ : Lts.run (World.step H) w₁ acts₂ = some w₂)
    (hrun₃ : Lts.run (World.step H) w₂ acts₃ = some w₃)
    (hrun₄ : Lts.run (World.step H) w₃ acts₄ = some w₄)
    (startTime endTime globalOffset : Nat) (result : ReadResult)
    (hread : readAcross startTime endTime globalOffset w₁.queue w₂.queue = some (.ok result))
    (startTime' endTime' : Nat) :
    (∃ result', readAcross startTime' endTime' globalOffset w₃.queue w₄.queue =
        some (.ok result') ∧ result.record.data <+: result'.record.data) ∧
      w₂.queue.Extends w₄.queue ∧ w₄.queue.Apart := by
  simp only [List.mem_append, or_imp, forall_and] at hslices
  obtain ⟨⟨⟨hslices₁, hslices₂⟩, hslices₃⟩, hslices₄⟩ := hslices
  have h₁ := (World.Grown.new hnew).run hslices₁ hrun₁
  have h₂ := h₁.here.run hslices₂ hrun₂
  have h₃ := h₂.here.run hslices₃ hrun₃
  have h₄ := h₃.here.run hslices₄ hrun₄
  have hlookup : w₁.queue.Extends w₃.queue := h₂.grown.trans h₃.grown
  have hsegments : w₂.queue.Extends w₄.queue := h₃.grown.trans h₄.grown
  exact ⟨hlookup.readAcross hsegments h₂.filed h₄.filed hread startTime' endTime', hsegments,
    h₄.filed.apart⟩

/-- One append, a read, another append, and a read again. -/
theorem reads_extend_second : ∃ q w₁ w₂ w₃ result result',
    PersistQ.new Files.fresh Paths.plain smallConfig = .ok q ∧
    Lts.run (World.step crc32Hasher) (World.ofQueue q)
      (.start [65, 66] 0 :: List.replicate 5 (.advance 0 Files.fresh 1)) = some w₁ ∧
    Lts.run (World.step crc32Hasher) w₁ [.start [67] 2, .advance 0 Files.fresh 2] = some w₂ ∧
    Lts.run (World.step crc32Hasher) w₂ (List.replicate 4 (.advance 0 Files.fresh 3)) = some w₃ ∧
    readAcross 2 2 0 w₁.queue w₂.queue = some (.ok result) ∧ result.record.data = [65, 66] ∧
    readAcross 4 4 0 w₃.queue w₃.queue = some (.ok result') ∧
    result.record.data <+: result'.record.data := by
  let acts₁ : List Act := .start [65, 66] 0 :: List.replicate 5 (.advance 0 Files.fresh 1)
  let acts₂ : List Act := [.start [67] 2, .advance 0 Files.fresh 2]
  let acts₃ : List Act := List.replicate 4 (.advance 0 Files.fresh 3)
  have hruns : ((Lts.run (World.step crc32Hasher) (World.ofQueue smallQueue) acts₁).bind fun w₁ =>
      (Lts.run (World.step crc32Hasher) w₁ acts₂).bind fun w₂ =>
        (Lts.run (World.step crc32Hasher) w₂ acts₃).map fun _ =>
          readAcross 2 2 0 w₁.queue w₂.queue) =
        some (some (.ok ⟨⟨0, [65, 66], 0, 1⟩, false, 0⟩)) := by decide +kernel
  obtain ⟨w₁, hrun₁, hruns⟩ := Option.bind_eq_some_iff.mp hruns
  obtain ⟨w₂, hrun₂, hruns⟩ := Option.bind_eq_some_iff.mp hruns
  obtain ⟨w₃, hrun₃, hread⟩ := Option.map_eq_some_iff.mp hruns
  have hslices : ∀ data startTime, Act.start data startTime ∈ acts₁ ++ acts₂ ++ acts₃ ++ [] →
      data.length ≤ isizeMax := by
    intro data startTime hmem
    simp [acts₁, acts₂, acts₃] at hmem
    rcases hmem with ⟨rfl, -⟩ | ⟨rfl, -⟩
    · decide
    · decide
  obtain ⟨⟨result', hread', hprefix⟩, -⟩ := reads_extend crc32Hasher Files.fresh Paths.plain
    smallConfig smallQueue smallQueue_new acts₁ acts₂ acts₃ [] hslices w₁ w₂ w₃ w₃ hrun₁ hrun₂ hrun₃
    rfl 2 2 0 _ hread 4 4
  exact ⟨smallQueue, w₁, w₂, w₃, _, result', smallQueue_new, hrun₁, hrun₂, hrun₃, hread, rfl,
    hread', hprefix⟩

end Dolda.PersistQ
