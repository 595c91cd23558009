/-
# `Dolda.PersistQ.Shared` — segment files that are shared

Two segments with one path map one file, and each sees at once what the other
writes.  So what a segment's map holds is on a `Disk`, which has the bytes of
every file: before a queue is used it is attached, so that its segments hold what
is on the disk, and after an operation that writes what they hold is spilled to
the disk again.

A segment's file is directly in the storage directory of its queue (`Housed`).
What a queue does therefore depends on the files of its directory alone
(`append_on`, `attach_congr`), and changes no others (`spill_other`).
-/
import Dolda.PersistQ.Queue

namespace Dolda

namespace PersistQ

def Segment.attach (disk : Disk) (s : Segment) : Segment :=
  { s with
    mmap := resize (disk s.path) s.maxSize
    mmap_length := resize_length _ _ }

def SegmentManager.attach (disk : Disk) (m : SegmentManager) : SegmentManager :=
  { m with segments := m.segments.map (Segment.attach disk) }

/-- The keys stay. -/
theorem nodupKeys_attach (disk : Disk) (managers : AList (fun _ : Nat => SegmentManager)) :
    (managers.entries.map
      (Sigma.map id (fun _ => SegmentManager.attach disk)) :
        List (Σ _ : Nat, SegmentManager)).NodupKeys := by
  have hkeys : (managers.entries.map (Sigma.map id (fun _ => SegmentManager.attach disk)) :
      List (Σ _ : Nat, SegmentManager)).keys = managers.entries.keys := by
    rw [List.keys, List.map_map]
    rfl
  rw [List.NodupKeys, hkeys]
  exact managers.nodupKeys

/-- The queue, whose segments hold what is on the disk. -/
def attach (disk : Disk) (q : PersistQ) : PersistQ :=
  { q with
    segmentManagers := ⟨q.segmentManagers.entries.map
      (Sigma.map id (fun _ => SegmentManager.attach disk)), nodupKeys_attach disk _⟩ }

/-- All segments, of all partitions. -/
def segments (q : PersistQ) : List Segment :=
  q.segmentManagers.entries.flatMap (fun entry => entry.2.segments)

/-- The disk, with what the queue's segments hold. -/
def spill (q : PersistQ) (disk : Disk) : Disk := fun path =>
  match q.segments.find? (fun s => s.path = path) with
  | none => disk path
  | some s => s.mmap

/-! ## Directories

What comes before the last slash is the directory a file is directly in, so it is in no
other. -/

/-- The file is directly in the directory. -/
def InDir (dir path : String) : Prop :=
  ∃ name : String, '/' ∉ name.toList ∧ path = dir ++ "/" ++ name

theorem before_slash_inj {before before' name name' : List Char} (hname : '/' ∉ name)
    (hname' : '/' ∉ name') (h : before ++ '/' :: name = before' ++ '/' :: name') :
    before = before' := by
  rcases List.append_eq_append_iff.mp h with ⟨more, hbefore, hmore⟩ | ⟨more, hbefore, hmore⟩
  · cases more with
    | nil => rw [hbefore, List.append_nil]
    | cons c more =>
        obtain ⟨-, hrest⟩ := List.cons.inj hmore
        exact absurd (hrest ▸ List.mem_append_right more List.mem_cons_self) hname
  · cases more with
    | nil => rw [hbefore, List.append_nil]
    | cons c more =>
        obtain ⟨-, hrest⟩ := List.cons.inj hmore
        exact absurd (hrest ▸ List.mem_append_right more List.mem_cons_self) hname'

theorem InDir.unique {dir dir' path : String} (h : InDir dir path) (h' : InDir dir' path) :
    dir = dir' := by
  obtain ⟨name, hname, rfl⟩ := h
  obtain ⟨name', hname', heq⟩ := h'
  have hlist := congrArg String.toList heq
  simp only [String.toList_append] at hlist
  have hslash : "/".toList = ['/'] := rfl
  rw [hslash, List.append_assoc, List.append_assoc] at hlist
  exact String.toList_inj.mp (before_slash_inj hname hname' hlist)

theorem SegmentManager.segmentPath_inDir (m : SegmentManager) (segmentId : Nat) :
    InDir m.storageDir (m.segmentPath segmentId) := by
  refine ⟨"partition_" ++ toString m.partitionId ++ "_segment_" ++ toString segmentId ++ ".dat",
    ?_, ?_⟩
  · have hpartition := SegmentManager.not_mem_toString (c := '/') (by decide) m.partitionId
    have hsegment := SegmentManager.not_mem_toString (c := '/') (by decide) segmentId
    simp only [String.toList_append, List.mem_append, hpartition, hsegment, or_false]
    decide
  · have hslash : "/partition_" = "/" ++ "partition_" := rfl
    simp only [SegmentManager.segmentPath, hslash, String.append_assoc]

/-! ## What depends on a directory

All files of a queue are in its storage directory.  So an append answers alike on any two
disks that agree there, and what it leaves differs from what was there nowhere else. -/

/-- The disks agree on the files of a directory. -/
def AgreeIn (dir : String) (disk disk' : Disk) : Prop :=
  ∀ path, InDir dir path → disk path = disk' path

section
variable {fs : Files} {disk disk' : Disk} {dir : String} {data : List UInt8}

namespace SegmentManager

variable {m m' : SegmentManager}

/-- Its segments are in its directory. -/
structure Housed (dir : String) (m : SegmentManager) : Prop where
  storageDir : m.storageDir = dir
  inDir : ∀ s ∈ m.segments, InDir dir s.path

theorem createNewSegment_on (hdir : m.storageDir = dir) (hagree : AgreeIn dir disk disk') :
    m.createNewSegment (fs.on disk) = m.createNewSegment (fs.on disk') := by
  subst hdir
  have hpath := hagree _ (m.segmentPath_inDir m.segments.length)
  simp only [createNewSegment, Segment.new, MappedFile.create, Files.on, hpath]

theorem Housed.created (h : m.Housed dir) (hnew : m.createNewSegment fs = .ok m') :
    m'.Housed dir := by
  simp only [createNewSegment, Segment.new] at hnew
  split at hnew
  · cases hnew
  rename_i segment hsegment
  split at hsegment
  · cases hsegment
  cases hsegment
  cases hnew
  refine ⟨h.storageDir, ?_⟩
  intro s hs
  rcases List.mem_append.mp hs with hold | hnew
  · exact h.inDir s hold
  · rw [List.mem_singleton.mp hnew, ← h.storageDir]
    exact m.segmentPath_inDir _

theorem new_on {partitionId segmentSize : Nat} (hagree : AgreeIn dir disk disk') :
    SegmentManager.new (fs.on disk) partitionId segmentSize dir =
      SegmentManager.new (fs.on disk') partitionId segmentSize dir := by
  have hcreate : ∀ segments, createNewSegment (fs.on disk)
      { partitionId, segments, currentSegment := none, segmentSize, storageDir := dir } =
        createNewSegment (fs.on disk')
          { partitionId, segments, currentSegment := none, segmentSize, storageDir := dir } :=
    fun _ => createNewSegment_on rfl hagree
  simp only [SegmentManager.new, hcreate]
  rfl

theorem new_housed {partitionId segmentSize : Nat}
    (h : SegmentManager.new fs partitionId segmentSize dir = .ok m) : m.Housed dir := by
  simp only [SegmentManager.new] at h
  split at h
  · cases h
  · exact Housed.created ⟨rfl, fun s hs => absurd hs List.not_mem_nil⟩ h

theorem Housed.put (h : m.Housed dir) {i : Nat} {s : Segment} (hs : InDir dir s.path) :
    (m.put i s).Housed dir := by
  refine ⟨h.storageDir, ?_⟩
  intro s' hs'
  rcases List.mem_or_eq_of_mem_set hs' with hold | rfl
  · exact h.inDir s' hold
  · exact hs

theorem slowPath_on {size : Nat} (hdir : m.storageDir = dir) (hagree : AgreeIn dir disk disk') :
    m.slowPath (fs.on disk) size = m.slowPath (fs.on disk') size := by
  rw [slowPath, slowPath, createNewSegment_on hdir hagree]

/-- The manager a round goes on or returns with is housed. -/
def TurnHoused (dir : String) :
    SegmentManager ⊕ (Option (Except String Nat) × SegmentManager) → Prop
  | .inl m => m.Housed dir
  | .inr x => x.2.Housed dir

theorem housed_stable (dir : String) : Stable (Housed dir) where
  created := fun h hnew => h.created hnew
  put := fun h hs hpath => h.put (hpath ▸ h.inDir _ (List.mem_of_getElem? hs))

/-- A round of an append asks for files of the directory. -/
theorem appendTurn_on (hdir : m.storageDir = dir) (hagree : AgreeIn dir disk disk') :
    appendTurn (fs.on disk) data m = appendTurn (fs.on disk') data m := by
  simp only [appendTurn, slowPath_on hdir hagree]

theorem Housed.appendTurn (h : m.Housed dir) (fs : Files) (data : List UInt8) :
    TurnHoused dir (appendTurn fs data m) := by
  have hturned := (housed_stable dir).appendTurn h fs data
  revert hturned
  cases SegmentManager.appendTurn fs data m with
  | inl m₁ => exact id
  | inr x => exact id

theorem append_on (h : m.Housed dir) (hagree : AgreeIn dir disk disk') (rounds : Nat) :
    Loop.run (SegmentManager.appendTurn (fs.on disk) data) rounds m =
      Loop.run (SegmentManager.appendTurn (fs.on disk') data) rounds m := by
  refine Loop.run_congr (Housed dir) (fun hm => appendTurn_on hm.storageDir hagree) ?_ rounds h
  intro m₁ m₂ hm₁ hturn
  have hturned := hm₁.appendTurn (fs.on disk) data
  rwa [hturn] at hturned

theorem Housed.append (h : m.Housed dir) {rounds : Nat} {result : Option (Except String Nat)}
    (hrun : Loop.run (SegmentManager.appendTurn fs data) rounds m = some (result, m')) :
    m'.Housed dir :=
  (housed_stable dir).append h ⟨rounds, hrun⟩

theorem attach_congr (h : m.Housed dir) (hagree : AgreeIn dir disk disk') :
    m.attach disk = m.attach disk' := by
  have hsegments :
      m.segments.map (Segment.attach disk) = m.segments.map (Segment.attach disk') := by
    refine List.map_congr_left ?_
    intro s hs
    simp only [Segment.attach, hagree s.path (h.inDir s hs)]
  simp only [SegmentManager.attach, hsegments]

theorem Housed.attach (h : m.Housed dir) (disk : Disk) : (m.attach disk).Housed dir := by
  refine ⟨h.storageDir, ?_⟩
  intro s hs
  obtain ⟨s', hs', rfl⟩ := List.mem_map.mp hs
  exact h.inDir s' hs'

end SegmentManager

variable {H : Hasher} {q q' : PersistQ}

/-- Its segments are in its storage directory. -/
def Housed (q : PersistQ) : Prop :=
  ∀ i m, q.segmentManagers.lookup i = some m → m.Housed q.config.storageDir

theorem attach_lookup (disk : Disk) (q : PersistQ) (i : Nat) :
    (q.attach disk).segmentManagers.lookup i =
      (q.segmentManagers.lookup i).map (SegmentManager.attach disk) :=
  List.dlookup_map₂ i

theorem Housed.attach (h : q.Housed) (disk : Disk) : (q.attach disk).Housed := by
  intro i m hm
  rw [attach_lookup] at hm
  obtain ⟨m', hm', rfl⟩ := Option.map_eq_some_iff.mp hm
  exact (h i m' hm').attach disk

theorem mem_entries_iff {i : Nat} {m : SegmentManager} :
    (⟨i, m⟩ : Σ _ : Nat, SegmentManager) ∈ q.segmentManagers.entries ↔
      q.segmentManagers.lookup i = some m :=
  AList.mem_lookup_iff.symm

theorem Housed.inDir (h : q.Housed) {s : Segment} (hs : s ∈ q.segments) :
    InDir q.config.storageDir s.path := by
  obtain ⟨⟨i, m⟩, hentry, hmem⟩ := List.mem_flatMap.mp hs
  exact (h i m (mem_entries_iff.mp hentry)).inDir s hmem

/-- **What an attached queue holds** is on the disk in its directory. -/
theorem attach_congr (h : q.Housed) (hagree : AgreeIn q.config.storageDir disk disk') :
    q.attach disk = q.attach disk' := by
  have hentries : q.segmentManagers.entries.map
      (Sigma.map id (fun _ => SegmentManager.attach disk)) =
      (q.segmentManagers.entries.map (Sigma.map id (fun _ => SegmentManager.attach disk')) :
        List (Σ _ : Nat, SegmentManager)) := by
    refine List.map_congr_left ?_
    intro entry hentry
    obtain ⟨i, m⟩ := entry
    have hattach := SegmentManager.attach_congr (h i m (mem_entries_iff.mp hentry)) hagree
    exact congrArg (Sigma.mk i) hattach
  simp only [PersistQ.attach, hentries]

/-- **What is spilled** changes no file outside the directory. -/
theorem spill_other (h : q.Housed) {path : String} (hpath : ¬ InDir q.config.storageDir path)
    (disk : Disk) : q.spill disk path = disk path := by
  have hnone : q.segments.find? (fun s => s.path = path) = none := by
    refine List.find?_eq_none.mpr (fun s hs heq => hpath ?_)
    rw [← of_decide_eq_true heq]
    exact h.inDir hs
  simp only [spill, hnone]

theorem spill_congr {path : String} (hpath : disk path = disk' path) (q : PersistQ) :
    q.spill disk path = q.spill disk' path := by
  simp only [spill, hpath]

/-! ### New queues -/

theorem newManagers_on {config : PersistQConfig} (hagree : AgreeIn config.storageDir disk disk')
    (is : List Nat) (managers : AList (fun _ : Nat => SegmentManager)) :
    newManagers (fs.on disk) config is managers
      = newManagers (fs.on disk') config is managers := by
  induction is generalizing managers with
  | nil => rfl
  | cons i is ih =>
      rw [newManagers, newManagers, SegmentManager.new_on hagree]
      split
      · rfl
      · exact ih _

theorem newManagers_housed {config : PersistQConfig} {is : List Nat}
    {managers managers' : AList (fun _ : Nat => SegmentManager)}
    (hhoused : ∀ i m, managers.lookup i = some m → m.Housed config.storageDir)
    (h : newManagers fs config is managers = .ok managers') :
    ∀ i m, managers'.lookup i = some m → m.Housed config.storageDir := by
  induction is generalizing managers with
  | nil =>
      cases h
      exact hhoused
  | cons j is ih =>
      simp only [newManagers] at h
      split at h
      · cases h
      rename_i manager hnew
      refine ih ?_ h
      intro i m hm
      by_cases hij : i = j
      · subst hij
        cases (AList.lookup_insert _).symm.trans hm
        exact SegmentManager.new_housed hnew
      · exact hhoused i m ((AList.lookup_insert_ne hij).symm.trans hm)

theorem new_on {paths : Paths} {config : PersistQConfig}
    (hagree : ∀ path, storagePath fs paths config.storageDir = .ok path →
      AgreeIn path disk disk') :
    PersistQ.new (fs.on disk) paths config = PersistQ.new (fs.on disk') paths config := by
  have hstorage : ∀ disk, storagePath (fs.on disk) paths config.storageDir =
      storagePath fs paths config.storageDir := fun _ => rfl
  simp only [PersistQ.new, hstorage]
  split
  · rfl
  split
  · rfl
  · rename_i path hpath
    let config' : PersistQConfig := { config with storageDir := path }
    have hagree' : AgreeIn config'.storageDir disk disk' := hagree path hpath
    rw [newManagers_on hagree']

theorem new_housed {paths : Paths} {config : PersistQConfig}
    (h : PersistQ.new fs paths config = .ok q) :
    q.Housed ∧ storagePath fs paths config.storageDir = .ok q.config.storageDir := by
  rw [PersistQ.new] at h
  split at h
  · cases h
  split at h
  · cases h
  rename_i path hpath
  dsimp only at h
  split at h
  · cases h
  rename_i managers hmanagers
  cases h
  refine ⟨newManagers_housed ?_ hmanagers, hpath⟩
  intro i m hm
  cases (AList.lookup_empty i).symm.trans hm

/-! ### Appends -/

theorem append_on (h : q.Housed) (hagree : AgreeIn q.config.storageDir disk disk') (H : Hasher)
    (fs : Files) (startTime endTime rounds : Nat) (data : List UInt8) :
    q.append H (fs.on disk) startTime endTime rounds data =
      q.append H (fs.on disk') startTime endTime rounds data := by
  unfold PersistQ.append
  split
  · rfl
  dsimp only
  split
  · rfl
  · rename_i manager hmanager
    rw [SegmentManager.append_on (h _ manager hmanager) hagree]

theorem Housed.putManager (h : q.Housed) (i : Nat) {m : SegmentManager}
    (hm : m.Housed q.config.storageDir) : (q.putManager i m).Housed := by
  intro j m' hm'
  by_cases hji : j = i
  · subst hji
    cases (AList.lookup_insert _).symm.trans hm'
    exact hm
  · exact h j m' ((AList.lookup_insert_ne hji).symm.trans hm')

theorem Housed.append (h : q.Housed) {startTime endTime rounds : Nat}
    {outcome : Option (Except String AppendResult)}
    (happ : q.append H fs startTime endTime rounds data = some (outcome, q')) :
    q'.Housed ∧ q'.config = q.config := by
  rw [PersistQ.append] at happ
  split at happ
  · cases happ
    exact ⟨h, rfl⟩
  dsimp only at happ
  split at happ
  · cases happ
    exact ⟨h, rfl⟩
  rename_i manager hmanager
  split at happ
  · cases happ
  rename_i result manager' hrun
  have hput := h.putManager (partition H q.config.numPartitions data)
    ((h _ manager hmanager).append hrun)
  split at happ
  · cases happ
    exact ⟨hput, rfl⟩
  · cases happ
    exact ⟨hput, rfl⟩
  · cases happ
    exact ⟨hput, rfl⟩

/-! ## A queue of one file

The segment of such a queue is its file: what the queue holds is on the disk when it is
put there, and the queue holds what is on the disk when it is taken up. -/

/-- The queue has one partition, and that has one segment, which holds `bs`. -/
structure Sole (q : PersistQ) (path : String) (bs : List UInt8) : Prop where
  numPartitions : q.config.numPartitions = 1
  manager : ∃ m s, q.segmentManagers = (∅ : AList (fun _ : Nat => SegmentManager)).insert 1 m ∧
    m.Holds q.config.segmentSize ⟨[], bs⟩ ∧ m.segments = [s] ∧ s.path = path

/-- The file of the first segment. -/
def firstFile (dir : String) : String :=
  dir ++ "/partition_" ++ toString 1 ++ "_segment_" ++ toString 0 ++ ".dat"

variable {path : String} {bs bs' : List UInt8}

theorem new_sole {paths : Paths} {config : PersistQConfig}
    (h : PersistQ.new fs paths config = .ok q) (hone : config.numPartitions = 1) :
    q.Sole (firstFile q.config.storageDir) [] ∧ q.globalOffset = 0 := by
  rw [PersistQ.new] at h
  split at h
  · cases h
  split at h
  · cases h
  rename_i dir hdir
  dsimp only at h
  split at h
  · cases h
  rename_i managers hmanagers
  cases h
  have hrange : List.range' 1 config.numPartitions = [1] := by
    rw [hone]
    rfl
  rw [hrange, newManagers] at hmanagers
  split at hmanagers
  · cases hmanagers
  rename_i manager hnew
  rw [newManagers] at hmanagers
  cases hmanagers
  have hholds := SegmentManager.new_holds hnew
  rw [SegmentManager.new, SegmentManager.createNewSegment, Segment.new] at hnew
  split at hnew
  · cases hnew
  dsimp only at hnew
  split at hnew
  · cases hnew
  rename_i segment hsegment
  cases hnew
  split at hsegment
  · cases hsegment
  cases hsegment
  exact ⟨⟨hone, _, _, rfl, hholds, rfl, rfl⟩, rfl⟩

theorem Sole.segment (h : q.Sole path bs) : ∃ s, q.segments = [s] ∧ s.path = path ∧
    s.Holds q.config.segmentSize bs := by
  obtain ⟨m, s, hmanagers, hholds, hsegments, hpath⟩ := h.manager
  obtain ⟨full, segment, hsegs, hfull, hlast, -⟩ := hholds.segments
  cases hfull
  cases hsegments.symm.trans hsegs
  refine ⟨s, ?_, hpath, hlast⟩
  rw [PersistQ.segments, hmanagers]
  show m.segments ++ [] = [s]
  rw [List.append_nil, hsegments]

theorem Sole.spill (h : q.Sole path bs) (disk : Disk) :
    (resize (q.spill disk path) q.config.segmentSize).take bs.length = bs := by
  obtain ⟨s, hsegments, hpath, hholds⟩ := h.segment
  have hfind : q.segments.find? (fun s => s.path = path) = some s := by
    rw [hsegments]
    exact List.find?_cons_of_pos (decide_eq_true hpath)
  have hlen : s.mmap.length = q.config.segmentSize := s.mmap_length.trans hholds.maxSize
  have hresize : resize s.mmap q.config.segmentSize = s.mmap := by
    rw [resize, hlen, Nat.sub_self, ← hlen, List.take_length]
    exact List.append_nil _
  simp only [PersistQ.spill, hfind, hresize]
  rw [← hholds.filled.writePos]
  exact hholds.filled.bytes

theorem Sole.attach (h : q.Sole path bs)
    (hdisk : (resize (disk path) q.config.segmentSize).take bs.length = bs') :
    (q.attach disk).Sole path bs' := by
  obtain ⟨m, s, hmanagers, hholds, hsegments, hpath⟩ := h.manager
  obtain ⟨full, segment, hsegs, hfull, hlast, hcurrent⟩ := hholds.segments
  cases hfull
  cases hsegments.symm.trans hsegs
  have hsize : (s.attach disk).Holds q.config.segmentSize bs' := by
    have hle : bs.length ≤ q.config.segmentSize := by
      rw [← hlast.filled.writePos, ← hlast.maxSize]
      exact hlast.filled.inside
    have hlen : bs'.length = bs.length := by
      rw [← hdisk, List.length_take, resize_length, Nat.min_eq_left hle]
    refine ⟨hlast.maxSize, ?_, hlast.filled.inside, ?_⟩
    · rw [hlen]
      exact hlast.filled.writePos
    · show (resize (disk s.path) s.maxSize).take s.writePos = bs'
      rw [hpath, hlast.maxSize, hlast.filled.writePos, hdisk]
  refine ⟨h.numPartitions, m.attach disk, s.attach disk, ?_, ?_, ?_, hpath⟩
  · refine AList.ext ?_
    show q.segmentManagers.entries.map _ = _
    rw [hmanagers]
    rfl
  · refine ⟨hholds.segmentSize, [], s.attach disk, ?_, .nil, hsize, hcurrent⟩
    show m.segments.map _ = _
    rw [hsegments]
    rfl
  · show m.segments.map _ = _
    rw [hsegments]
    rfl

/-- **An append that fits the file**, wherever it is made. -/
theorem Sole.append (h : q.Sole path bs) (H : Hasher)
    (hfit : bs.length + data.length ≤ q.config.segmentSize) (fs : Files)
    (startTime endTime rounds : Nat) : ∃ result q',
    q.append H fs startTime endTime (rounds + 1) data = some (some (.ok result), q') ∧
    q'.Sole path (bs ++ data) ∧ q'.config = q.config ∧
    q'.offsetMap.lookup q.globalOffset = some { partitionId := 1, localOffset := bs.length } := by
  obtain ⟨m, s, hmanagers, hholds, hsegments, hpath⟩ := h.manager
  obtain ⟨full, segment, hsegs, hfull, hlast, hcurrent⟩ := hholds.segments
  cases hfull
  cases hsegments.symm.trans hsegs
  have hsize : data.length ≤ isizeMax := by
    have hcap := hholds.cap_le
    omega
  obtain ⟨s', happ, hholds'⟩ := hlast.append hfit
  have hturn : SegmentManager.appendTurn fs data m =
      .inr (some (.ok bs.length), m.put 0 s') := by
    have hspace := (hlast.hasSpace_iff hsize).mpr hfit
    have hcur : m.current = some (0, s) := SegmentManager.current_of_last hsegs hcurrent
    simp only [SegmentManager.appendTurn, hcur, if_pos hspace, happ]
  have hsegments' : (m.put 0 s').segments = [s'] := by
    rw [SegmentManager.put, hsegments]
    rfl
  have hpart : partition H q.config.numPartitions data = 1 := by
    rw [h.numPartitions, partition_one]
  have hlookup : q.segmentManagers.lookup (partition H q.config.numPartitions data) = some m := by
    rw [hpart, hmanagers]
    exact AList.lookup_insert _
  have hpos : ¬ q.config.numPartitions = 0 := by
    rw [h.numPartitions]
    decide
  simp only [PersistQ.append, if_neg hpos, hlookup, Loop.run_inr hturn]
  refine ⟨_, _, rfl, ⟨h.numPartitions, m.put 0 s', s', ?_, ?_, hsegments', ?_⟩, rfl, ?_⟩
  · show q.segmentManagers.insert (partition H q.config.numPartitions data) (m.put 0 s') = _
    rw [hpart, hmanagers, AList.insert_insert]
  · exact ⟨hholds.segmentSize, [], s', hsegments', .nil, hholds', hcurrent⟩
  · rw [Segment.append_path happ, hpath]
  · rw [hpart]
    exact AList.lookup_insert _

/-- A read of the first payload sees all that the file holds. -/
theorem Sole.read (h : q.Sole path bs) (hbs : bs ≠ [])
    (hmapped : q.offsetMap.lookup 0 = some { partitionId := 1, localOffset := 0 })
    (startTime endTime : Nat) : q.read startTime endTime 0 = some (.ok
      { record := { offset := 0, data := bs, timestamp := startTime / 1000000, partitionId := 1 }
        cacheHit := false
        latencyUs := endTime - startTime }) := by
  obtain ⟨m, s, hmanagers, hholds, -⟩ := h.manager
  have hlookup : q.segmentManagers.lookup 1 = some m := by
    rw [hmanagers]
    exact AList.lookup_insert _
  have hread := hholds.read 0
  have hpos : ¬ bs.length ≤ 0 := by
    have hlen := List.length_pos_of_ne_nil hbs
    omega
  change m.read 0 = some (if bs.length ≤ 0 then _ else .ok (bs.drop 0)) at hread
  rw [if_neg hpos, List.drop_zero] at hread
  simp only [PersistQ.read, hmapped, hlookup, hread]

end

end PersistQ

end Dolda
