/-
# `Dolda.PersistQ.Queue` — the queue

`PersistQ` of `src/persistq.rs`: a payload goes to the partition its hash names,
is appended there, and gets the next global offset; the offset map remembers
where it went.  `crc32fast::hash` is a new hasher given the payload, so the
`Hasher` of the records serves here.  The clock readings of a call are its
parameters, in microseconds, and so is the number of rounds its manager's loop
may take (`none` if they do not suffice).  The global offset is a counter of
appends, of which 2^64 are not made.

**The abstraction.**  `q.Holds H acked`: the queue after acknowledging the
payloads of `acked`, in order.  Partition `i` holds the next-fit packing of those
that hash to it, and each global offset maps to the slot its payload took
(`Located`).  So a read sees the first bin of the partition from that slot on
(`Holds.read`), whichever bin the payload went to.
-/
import Mathlib.Data.List.AList
import Dolda.RecordIntegrity
import Dolda.PersistQ.Config
import Dolda.PersistQ.Manager

namespace Dolda

namespace PersistQ

structure OffsetMapping where
  partitionId : Nat
  localOffset : Nat

structure AppendResult where
  globalOffset : Nat
  partitionId : Nat
  nodeId : Nat
  latencyUs : Nat
deriving DecidableEq

structure QueueRecord where
  offset : Nat
  data : List UInt8
  timestamp : Nat
  partitionId : Nat
deriving DecidableEq

structure ReadResult where
  record : QueueRecord
  cacheHit : Bool
  latencyUs : Nat
deriving DecidableEq

/-- What `canonicalize` answers, before and after the directory is created. -/
structure Paths where
  existing : String → Except String String
  created : String → Except String String

/-- The paths of directories that exist and are canonical. -/
def Paths.plain : Paths := ⟨.ok, .ok⟩

/-- The partition a payload goes to, of `n`. -/
def partition (H : Hasher) (n : Nat) (data : List UInt8) : Nat :=
  (H.finalize (H.update H.new data)).toNat % n + 1

end PersistQ

structure PersistQ where
  segmentManagers : AList (fun _ : Nat => PersistQ.SegmentManager)
  globalOffset : Nat
  offsetMap : AList (fun _ : Nat => PersistQ.OffsetMapping)
  config : PersistQ.PersistQConfig

namespace PersistQ

open NextFit (Packing)

/-- The storage directory, created if it is not there. -/
def storagePath (fs : Files) (paths : Paths) (storageDir : String) : Except String String :=
  match paths.existing storageDir with
  | .ok path => .ok path
  | .error _ =>
      match fs.createDirAll storageDir with
      | .error e => .error ("Failed to create storage directory: " ++ e)
      | .ok () =>
          match paths.created storageDir with
          | .error e => .error ("Failed to canonicalize storage path: " ++ e)
          | .ok path => .ok path

/-- The segment managers of the partitions listed, added one by one. -/
def newManagers (fs : Files) (config : PersistQConfig) :
    List Nat → AList (fun _ : Nat => SegmentManager) →
      Except String (AList (fun _ : Nat => SegmentManager))
  | [], managers => .ok managers
  | i :: is, managers =>
      match SegmentManager.new fs i config.segmentSize config.storageDir with
      | .error e => .error e
      | .ok manager => newManagers fs config is (managers.insert i manager)

def new (fs : Files) (paths : Paths) (config : PersistQConfig) : Except String PersistQ :=
  match config.validateConfig with
  | .error e => .error e
  | .ok () =>
      match storagePath fs paths config.storageDir with
      | .error e => .error e
      | .ok path =>
          let config := { config with storageDir := path }
          match newManagers fs config (List.range' 1 config.numPartitions) ∅ with
          | .error e => .error e
          | .ok segmentManagers =>
              .ok { segmentManagers, globalOffset := 0, offsetMap := ∅, config }

def noSegmentManager (partitionId : Nat) : String :=
  "No segment manager for partition " ++ toString partitionId

def putManager (q : PersistQ) (partitionId : Nat) (manager : SegmentManager) : PersistQ :=
  { q with segmentManagers := q.segmentManagers.insert partitionId manager }

/-- Take the next global offset and map it. -/
def assign (q : PersistQ) (mapping : OffsetMapping) : Nat × PersistQ :=
  (q.globalOffset,
    { q with
      globalOffset := q.globalOffset + 1
      offsetMap := q.offsetMap.insert q.globalOffset mapping })

def append (H : Hasher) (fs : Files) (startTime endTime rounds : Nat) (data : List UInt8)
    (q : PersistQ) : Option (Option (Except String AppendResult) × PersistQ) :=
  -- `%` by zero panics
  if q.config.numPartitions = 0 then some (none, q)
  else
    let partitionId := partition H q.config.numPartitions data
    match q.segmentManagers.lookup partitionId with
    | none => some (some (.error (noSegmentManager partitionId)), q)
    | some manager =>
        match Loop.run (SegmentManager.appendTurn fs data) rounds manager with
        | none => none
        | some (result, manager) =>
            let q := q.putManager partitionId manager
            match result with
            | none => some (none, q)
            | some (.error e) => some (some (.error e), q)
            | some (.ok localOffset) =>
                let (globalOffset, q) := q.assign { partitionId, localOffset }
                let latencyUs := endTime - startTime
                some (some (.ok { globalOffset, partitionId, nodeId := partitionId, latencyUs }), q)

def read (startTime endTime globalOffset : Nat) (q : PersistQ) :
    Option (Except String ReadResult) :=
  match q.offsetMap.lookup globalOffset with
  | none => some (.error ("Global offset " ++ toString globalOffset ++ " not found"))
  | some { partitionId, localOffset } =>
      match q.segmentManagers.lookup partitionId with
      | none => some (.error (noSegmentManager partitionId))
      | some manager =>
          match manager.read localOffset with
          | none => none
          | some (.error e) => some (.error e)
          | some (.ok data) =>
              let record :=
                { offset := globalOffset, data, timestamp := startTime / 1000000, partitionId }
              some (.ok { record, cacheHit := false, latencyUs := endTime - startTime })

/-! ## What is mapped

An append, whatever it answers, maps no number it does not take. -/

/-- Only numbers below the global offset are mapped. -/
def Bounded (q : PersistQ) : Prop := ∀ g, q.globalOffset ≤ g → q.offsetMap.lookup g = none

theorem new_bounded {fs : Files} {paths : Paths} {config : PersistQConfig} {q : PersistQ}
    (h : PersistQ.new fs paths config = .ok q) : q.Bounded := by
  rw [PersistQ.new] at h
  split at h
  · cases h
  split at h
  · cases h
  dsimp only at h
  split at h
  · cases h
  · cases h
    exact fun g _ => AList.lookup_empty g

theorem Bounded.append {H : Hasher} {fs : Files} {startTime endTime rounds : Nat}
    {data : List UInt8} {q q' : PersistQ} {outcome : Option (Except String AppendResult)}
    (h : q.Bounded) (happ : q.append H fs startTime endTime rounds data = some (outcome, q')) :
    q'.Bounded := by
  rw [PersistQ.append] at happ
  split at happ
  · cases happ
    exact h
  dsimp only at happ
  split at happ
  · cases happ
    exact h
  split at happ
  · cases happ
  split at happ
  · cases happ
    exact h
  · cases happ
    exact h
  · cases happ
    intro g hg
    change q.globalOffset + 1 ≤ g at hg
    have hne : g ≠ q.globalOffset := by omega
    exact (AList.lookup_insert_ne hne).trans (h g (by omega))

/-- A read beyond the global offset. -/
theorem Bounded.read {q : PersistQ} (h : q.Bounded) {g : Nat} (hg : q.globalOffset ≤ g)
    (startTime endTime : Nat) :
    q.read startTime endTime g =
      some (.error ("Global offset " ++ toString g ++ " not found")) := by
  simp only [PersistQ.read, h g hg]

/-! ## Runs of appends -/

/-- What an append adds to the acknowledged payloads. -/
def acknowledged (data : List UInt8) :
    Option (Except String AppendResult) → List (AppendResult × List UInt8)
  | some (.ok result) => [(result, data)]
  | _ => []

/-- The states that appends bring a queue to, one after another, of payloads no
longer than a segment; with the answers and payloads of those acknowledged. -/
inductive Appended (H : Hasher) : PersistQ → List (AppendResult × List UInt8) → Prop where
  | new {fs : Files} {paths : Paths} {config : PersistQConfig} {q : PersistQ} :
      PersistQ.new fs paths config = .ok q → Appended H q []
  | append {fs : Files} {startTime endTime rounds : Nat} {data : List UInt8} {q q' : PersistQ}
      {acked : List (AppendResult × List UInt8)} {outcome : Option (Except String AppendResult)} :
      Appended H q acked → data.length ≤ q.config.segmentSize →
        q.append H fs startTime endTime rounds data = some (outcome, q') →
          Appended H q' (acked ++ acknowledged data outcome)

/-! ## What a queue holds

With one partition every payload goes there.  A new queue has a new manager for each
partition listed; an append packs a payload, numbers it and maps the number; more rounds
do not change an answer. -/

section
variable {H : Hasher} {fs : Files} {q q' : PersistQ} {data : List UInt8}
  {acked before after : List (AppendResult × List UInt8)} {result : AppendResult}

/-- The payloads acknowledged for a partition, in order. -/
def inPartition (H : Hasher) (n i : Nat) (acked : List (AppendResult × List UInt8)) :
    List (List UInt8) :=
  (acked.map Prod.snd).filter (fun data => partition H n data = i)

/-- The payloads acknowledged for a partition, packed into its segments. -/
def packed (H : Hasher) (q : PersistQ) (i : Nat) (acked : List (AppendResult × List UInt8)) :
    Packing UInt8 :=
  NextFit.pack q.config.segmentSize .empty (inPartition H q.config.numPartitions i acked)

/-- Where in its segment a payload goes that is appended after those of
`before`. -/
def localOffset (H : Hasher) (q : PersistQ) (before : List (AppendResult × List UInt8))
    (data : List UInt8) : Nat :=
  NextFit.slot q.config.segmentSize
    (packed H q (partition H q.config.numPartitions data) before) data

/-- The global offset answered for a payload is its place in order, and maps to
its partition and local offset. -/
structure Located (H : Hasher) (q : PersistQ) (before : List (AppendResult × List UInt8))
    (result : AppendResult) (data : List UInt8) : Prop where
  globalOffset : result.globalOffset = before.length
  partitionId : result.partitionId = partition H q.config.numPartitions data
  mapped : q.offsetMap.lookup before.length =
    some { partitionId := partition H q.config.numPartitions data
           localOffset := localOffset H q before data }

theorem Located.congr (h : Located H q before result data) (hconfig : q'.config = q.config)
    (hmap : q'.offsetMap.lookup before.length = q.offsetMap.lookup before.length) :
    Located H q' before result data where
  globalOffset := h.globalOffset
  partitionId := hconfig ▸ h.partitionId
  mapped := by
    rw [hmap, h.mapped, localOffset, localOffset, packed, packed, hconfig]

structure Holds (H : Hasher) (q : PersistQ) (acked : List (AppendResult × List UInt8)) :
    Prop where
  numPartitions_pos : 0 < q.config.numPartitions
  manager : ∀ i ∈ List.range' 1 q.config.numPartitions, ∃ m,
    q.segmentManagers.lookup i = some m ∧ m.Holds q.config.segmentSize (packed H q i acked)
  globalOffset : q.globalOffset = acked.length
  unmapped : ∀ g, acked.length ≤ g → q.offsetMap.lookup g = none
  located : ∀ before result data after, acked = before ++ (result, data) :: after →
    Located H q before result data

theorem partition_mem {n : Nat} (hn : 0 < n) (data : List UInt8) :
    partition H n data ∈ List.range' 1 n := by
  rw [List.mem_range'_1, partition]
  have hlt := Nat.mod_lt (H.finalize (H.update H.new data)).toNat hn
  omega

theorem partition_one (data : List UInt8) : partition H 1 data = 1 := by
  rw [partition, Nat.mod_one]

theorem inPartition_one (acked : List (AppendResult × List UInt8)) :
    inPartition H 1 1 acked = acked.map Prod.snd :=
  List.filter_eq_self.mpr (fun data _ => decide_eq_true (partition_one data))

theorem inPartition_append (n i : Nat) (acked acked' : List (AppendResult × List UInt8)) :
    inPartition H n i (acked ++ acked') = inPartition H n i acked ++ inPartition H n i acked' := by
  rw [inPartition, List.map_append, List.filter_append]
  rfl

theorem inPartition_cons_same (n : Nat) (result : AppendResult) (data : List UInt8)
    (acked : List (AppendResult × List UInt8)) :
    inPartition H n (partition H n data) ((result, data) :: acked) =
      data :: inPartition H n (partition H n data) acked :=
  List.filter_cons_of_pos (decide_eq_true rfl)

theorem inPartition_cons_other {n i : Nat} (result : AppendResult)
    (acked : List (AppendResult × List UInt8)) (hi : i ≠ partition H n data) :
    inPartition H n i ((result, data) :: acked) = inPartition H n i acked :=
  List.filter_cons_of_neg (by simpa using hi.symm)

theorem packed_snoc_same (q : PersistQ) (acked : List (AppendResult × List UInt8))
    (result : AppendResult) (data : List UInt8) :
    packed H q (partition H q.config.numPartitions data) (acked ++ [(result, data)]) =
      NextFit.add q.config.segmentSize
        (packed H q (partition H q.config.numPartitions data) acked) data := by
  rw [packed, inPartition_append, inPartition_cons_same]
  exact NextFit.pack_snoc _ _ data

theorem packed_snoc_other {i : Nat} (acked : List (AppendResult × List UInt8))
    (result : AppendResult) (hi : i ≠ partition H q.config.numPartitions data) :
    packed H q i (acked ++ [(result, data)]) = packed H q i acked := by
  rw [packed, inPartition_append, inPartition_cons_other result [] hi]
  exact congrArg _ (List.append_nil _)

theorem newManagers_lookup {config : PersistQConfig} {is : List Nat}
    {managers managers' : AList (fun _ : Nat => SegmentManager)}
    (h : newManagers fs config is managers = .ok managers') {i : Nat}
    (hi : i ∈ is ∨ ∃ m, managers.lookup i = some m ∧
      SegmentManager.new fs i config.segmentSize config.storageDir = .ok m) :
    ∃ m, managers'.lookup i = some m ∧
      SegmentManager.new fs i config.segmentSize config.storageDir = .ok m := by
  induction is generalizing managers with
  | nil =>
      cases h
      exact hi.resolve_left List.not_mem_nil
  | cons j is ih =>
      simp only [newManagers] at h
      split at h
      · cases h
      rename_i manager hnew
      refine ih h ?_
      by_cases hij : i = j
      · subst hij
        exact Or.inr ⟨manager, AList.lookup_insert _, hnew⟩
      · rw [AList.lookup_insert_ne hij]
        exact hi.imp_left (fun hmem => (List.mem_cons.mp hmem).resolve_left hij)

theorem new_ok {paths : Paths} {config : PersistQConfig}
    (h : PersistQ.new fs paths config = .ok q) :
    config.Valid ∧ (∃ path, q.config = { config with storageDir := path }) ∧
      q.globalOffset = 0 ∧ q.offsetMap = ∅ ∧
      ∀ i ∈ List.range' 1 q.config.numPartitions, ∃ m, q.segmentManagers.lookup i = some m ∧
        SegmentManager.new fs i q.config.segmentSize q.config.storageDir = .ok m := by
  rw [PersistQ.new] at h
  split at h
  · cases h
  rename_i hvalid
  rw [PersistQConfig.validateConfig_ok_iff] at hvalid
  split at h
  · cases h
  rename_i path _
  dsimp only at h
  split at h
  · cases h
  rename_i managers hmanagers
  cases h
  exact ⟨hvalid, ⟨path, rfl⟩, rfl, rfl, fun i hi => newManagers_lookup hmanagers (Or.inl hi)⟩

theorem new_holds {paths : Paths} {config : PersistQConfig}
    (h : PersistQ.new fs paths config = .ok q) :
    q.Holds H [] ∧ config.Valid ∧ ∃ path, q.config = { config with storageDir := path } := by
  obtain ⟨hvalid, ⟨path, hconfig⟩, hoffset, hmap, hmanagers⟩ := new_ok h
  refine ⟨⟨?_, fun i hi => ?_, hoffset, fun g _ => ?_, ?_⟩, hvalid, path, hconfig⟩
  · rw [hconfig]
    exact hvalid.numPartitions_pos
  · obtain ⟨m, hlookup, hnew⟩ := hmanagers i hi
    exact ⟨m, hlookup, SegmentManager.new_holds hnew⟩
  · rw [hmap]
    exact AList.lookup_empty g
  intro before result data after hsplit
  cases List.append_ne_nil_of_right_ne_nil before (List.cons_ne_nil _ after) hsplit.symm

theorem Holds.putManager (h : q.Holds H acked) {i : Nat} {m : SegmentManager}
    (hm : q.segmentManagers.lookup i = some m) : (q.putManager i m).Holds H acked := by
  refine ⟨h.numPartitions_pos, ?_, h.globalOffset, h.unmapped,
    fun before result data after hsplit => (h.located before result data after hsplit).congr rfl rfl⟩
  intro j hj
  by_cases hji : j = i
  · subst hji
    obtain ⟨m', hlookup, hm'⟩ := h.manager j hj
    cases hm.symm.trans hlookup
    exact ⟨m, AList.lookup_insert _, hm'⟩
  · obtain ⟨m', hlookup, hm'⟩ := h.manager j hj
    exact ⟨m', (AList.lookup_insert_ne hji).trans hlookup, hm'⟩

theorem Holds.assign (h : q.Holds H acked) {m : SegmentManager}
    (hoffset : result.globalOffset = q.globalOffset)
    (hpart : result.partitionId = partition H q.config.numPartitions data)
    (hm : m.Holds q.config.segmentSize (NextFit.add q.config.segmentSize
      (packed H q (partition H q.config.numPartitions data) acked) data)) :
    ((q.putManager (partition H q.config.numPartitions data) m).assign
      { partitionId := partition H q.config.numPartitions data
        localOffset := localOffset H q acked data }).2.Holds H (acked ++ [(result, data)]) where
  numPartitions_pos := h.numPartitions_pos
  manager := by
    intro i hi
    by_cases hdata : i = partition H q.config.numPartitions data
    · subst hdata
      refine ⟨m, AList.lookup_insert _, ?_⟩
      rwa [← packed_snoc_same q acked result data] at hm
    · obtain ⟨m', hlookup, hm'⟩ := h.manager i hi
      refine ⟨m', (AList.lookup_insert_ne hdata).trans hlookup, ?_⟩
      rwa [← packed_snoc_other acked result hdata] at hm'
  globalOffset := by
    show q.globalOffset + 1 = _
    rw [h.globalOffset, List.length_append]
    rfl
  unmapped := by
    intro g hg
    rw [List.length_append] at hg
    have hne : g ≠ q.globalOffset := by
      rw [h.globalOffset]
      exact (Nat.lt_of_succ_le hg).ne'
    exact (AList.lookup_insert_ne hne).trans (h.unmapped g (Nat.le_of_succ_le hg))
  located := by
    intro before result' data' after hsplit
    rcases List.eq_nil_or_concat after with rfl | ⟨after, last, rfl⟩
    · obtain ⟨rfl, hlast⟩ := List.append_inj' hsplit rfl
      cases hlast
      refine ⟨hoffset.trans h.globalOffset, hpart, ?_⟩
      rw [← h.globalOffset]
      exact AList.lookup_insert _
    · rw [List.concat_eq_append, ← List.cons_append, ← List.append_assoc] at hsplit
      obtain ⟨rfl, -⟩ := List.append_inj' hsplit rfl
      refine (h.located before result' data' after rfl).congr rfl (AList.lookup_insert_ne ?_)
      show before.length ≠ q.globalOffset
      rw [h.globalOffset, List.length_append, List.length_cons]
      omega

/-- **An append** of a payload no longer than a segment is acknowledged, or is
refused because a segment could not be created. -/
theorem Holds.append (h : q.Holds H acked) (hdata : data.length ≤ q.config.segmentSize)
    (fs : Files) (startTime endTime n : Nat) :
    ∃ outcome q', q.append H fs startTime endTime (n + 2) data = some (some outcome, q') ∧
      q'.config = q.config ∧ q'.Holds H (acked ++ acknowledged data (some outcome)) ∧
      ∀ e, outcome = .error e → ∃ m : SegmentManager,
        m.segmentSize = q.config.segmentSize ∧ m.createNewSegment fs = .error e := by
  have hpos : q.config.numPartitions ≠ 0 := h.numPartitions_pos.ne'
  obtain ⟨m, hlookup, hm⟩ := h.manager _ (partition_mem (H := H) h.numPartitions_pos data)
  rcases hm.append hdata fs n with ⟨m', hrun, hm'⟩ | ⟨e, hnew, hrun⟩
  · let partitionId := partition H q.config.numPartitions data
    let result : AppendResult := ⟨q.globalOffset, partitionId, partitionId, endTime - startTime⟩
    refine ⟨.ok result, _, ?_, ?_, h.assign rfl rfl hm', nofun⟩
    · simp only [PersistQ.append, if_neg hpos, hlookup, hrun]
      rfl
    · rfl
  · refine ⟨.error e, _, ?_, ?_, (List.append_nil acked).symm ▸ h.putManager hlookup, ?_⟩
    · simp only [PersistQ.append, if_neg hpos, hlookup, hrun]
    · rfl
    · rintro e' ⟨⟩
      exact ⟨m, hm.segmentSize, hnew⟩

/-- More rounds do not change an answer. -/
theorem append_mono {startTime endTime rounds rounds' : Nat}
    {outcome : Option (Except String AppendResult)}
    (h : q.append H fs startTime endTime rounds data = some (outcome, q'))
    (hrounds : rounds ≤ rounds') :
    q.append H fs startTime endTime rounds' data = some (outcome, q') := by
  rw [PersistQ.append] at h ⊢
  by_cases hpos : q.config.numPartitions = 0
  · rwa [if_pos hpos] at h ⊢
  rw [if_neg hpos] at h ⊢
  dsimp only at h ⊢
  split at h
  · exact h
  split at h
  · cases h
  · rename_i manager _ result manager' hrun
    rw [Loop.run_mono hrun hrounds]
    exact h

/-- **Whatever an append answers**, the queue holds what was acknowledged. -/
theorem Holds.appended (h : q.Holds H acked) (hdata : data.length ≤ q.config.segmentSize)
    {startTime endTime rounds : Nat} {outcome : Option (Except String AppendResult)}
    (happ : q.append H fs startTime endTime rounds data = some (outcome, q')) :
    q'.config = q.config ∧ q'.Holds H (acked ++ acknowledged data outcome) := by
  obtain ⟨outcome', q'', happ', hconfig, hholds, -⟩ := h.append hdata fs startTime endTime rounds
  cases (append_mono happ (Nat.le_add_right rounds 2)).symm.trans happ'
  exact ⟨hconfig, hholds⟩

/-- **Every run of appends** leaves the queue holding what was acknowledged. -/
theorem Appended.holds (h : q.Appended H acked) : q.Holds H acked := by
  induction h with
  | new hnew => exact (new_holds hnew).1
  | append _ hdata happ ih => exact (ih.appended hdata happ).2

/-! ### Where everything succeeds

On a file system that refuses nothing a valid configuration makes a queue, and appends
to it are acknowledged. -/

theorem newManagers_willing (hfs : fs.Willing) {config : PersistQConfig}
    (hsize : config.segmentSize ≤ isizeMax) (is : List Nat)
    (managers : AList (fun _ : Nat => SegmentManager)) :
    ∃ managers', newManagers fs config is managers = .ok managers' := by
  induction is generalizing managers with
  | nil => exact ⟨managers, rfl⟩
  | cons i is ih =>
      obtain ⟨m, hm⟩ := SegmentManager.new_willing hfs i config.storageDir hsize
      rw [newManagers, hm]
      exact ih _

theorem new_willing (hfs : fs.Willing) {config : PersistQConfig} (h : config.Valid) :
    ∃ q, PersistQ.new fs Paths.plain config = .ok q ∧ q.config = config := by
  have hsize : config.segmentSize ≤ isizeMax := h.segmentSize_le.trans (by decide)
  obtain ⟨managers, hmanagers⟩ :=
    newManagers_willing hfs hsize (List.range' 1 config.numPartitions) ∅
  refine ⟨⟨managers, 0, ∅, config⟩, ?_, rfl⟩
  rw [PersistQ.new, (PersistQConfig.validateConfig_ok_iff config).mpr h]
  simp only [storagePath, Paths.plain, hmanagers]

theorem Holds.append_willing (h : q.Holds H acked) (hfs : fs.Willing) (data : List UInt8)
    (hdata : data.length ≤ q.config.segmentSize) (startTime endTime : Nat) :
    ∃ result q', q.append H fs startTime endTime 2 data = some (some (.ok result), q') ∧
      q'.config = q.config ∧ q'.Holds H (acked ++ [(result, data)]) := by
  obtain ⟨m, -, hm⟩ := h.manager _ (partition_mem (H := H) h.numPartitions_pos data)
  obtain ⟨outcome, q', happ, hconfig, hholds, hrefused⟩ :=
    h.append hdata fs startTime endTime 0
  cases outcome with
  | ok result => exact ⟨result, q', happ, hconfig, hholds⟩
  | error e =>
      obtain ⟨m', hsize, hnew⟩ := hrefused e rfl
      obtain ⟨m'', hnew'⟩ :=
        SegmentManager.createNewSegment_willing hfs m' (hsize ▸ hm.cap_le)
      cases hnew.symm.trans hnew'

theorem Appended.append_fresh (h : q.Appended H acked) (data : List UInt8)
    (hdata : data.length ≤ q.config.segmentSize) (startTime endTime : Nat) :
    ∃ result q', q.append H Files.fresh startTime endTime 2 data = some (some (.ok result), q') ∧
      q'.config = q.config ∧ q'.Appended H (acked ++ [(result, data)]) := by
  obtain ⟨result, q', happ, hconfig, -⟩ := h.holds.append_willing Files.fresh_willing data hdata startTime endTime
  exact ⟨result, q', happ, hconfig, h.append hdata happ⟩

/-- One partition of segments of 1024 bytes. -/
def smallConfig : PersistQConfig where
  storageDir := "data"
  segmentSize := 1024
  numPartitions := 1
  replicationFactor := 1
  cacheConfig := { enabled := false, sizeBytes := 0, hotDataThreshold := .finite 0 }

theorem smallConfig_valid : smallConfig.Valid := by
  rw [← PersistQConfig.validateConfig_ok_iff]
  decide +kernel

/-! ### Reads

A global offset not yet answered is not found.  A payload in the first segment stays
there, and the first to overflow its partition's first segment is looked for at its
start. -/

theorem Holds.read_unmapped (h : q.Holds H acked) {g : Nat} (hg : acked.length ≤ g)
    (startTime endTime : Nat) :
    q.read startTime endTime g = some (.error ("Global offset " ++ toString g ++ " not found")) := by
  simp only [PersistQ.read, h.unmapped g hg]

/-- **A read** sees the first segment of the partition, from the local offset
on. -/
theorem Holds.read (h : q.Holds H acked) (hloc : Located H q before result data)
    (startTime endTime : Nat) :
    q.read startTime endTime result.globalOffset = some
      (let partitionId := partition H q.config.numPartitions data
       let first := (packed H q partitionId acked).first
       if first.length ≤ localOffset H q before data then .error "Offset out of bounds"
       else .ok
        { record :=
            { offset := result.globalOffset
              data := first.drop (localOffset H q before data)
              timestamp := startTime / 1000000
              partitionId }
          cacheHit := false
          latencyUs := endTime - startTime }) := by
  obtain ⟨m, hlookup, hm⟩ := h.manager _ (partition_mem (H := H) h.numPartitions_pos data)
  have hmapped := hloc.mapped
  rw [← hloc.globalOffset] at hmapped
  have hread := hm.read (localOffset H q before data)
  by_cases hle : (packed H q (partition H q.config.numPartitions data) acked).first.length ≤
      localOffset H q before data
  · rw [if_pos hle] at hread
    simp only [PersistQ.read, hmapped, hlookup, hread, if_pos hle]
  · rw [if_neg hle] at hread
    simp only [PersistQ.read, hmapped, hlookup, hread, if_neg hle]

/-- A read at a global offset answers data that begin with a payload. -/
def ReadsBack (startTime endTime globalOffset : Nat) (data : List UInt8) (q : PersistQ) : Prop :=
  ∃ out, q.read startTime endTime globalOffset = some (.ok out) ∧ data <+: out.record.data

/-- The payload went to the first segment of its partition: with those
acknowledged there before it, it fits one segment. -/
def InFirstSegment (H : Hasher) (q : PersistQ) (before : List (AppendResult × List UInt8))
    (data : List UInt8) : Prop :=
  (inPartition H q.config.numPartitions (partition H q.config.numPartitions data)
    before).flatten.length + data.length ≤ q.config.segmentSize

/-- The first segment of its partition holds the payload's bytes at its local
offset, whichever segment the payload went to. -/
def FirstSegmentHas (H : Hasher) (q : PersistQ) (before acked : List (AppendResult × List UInt8))
    (data : List UInt8) : Prop :=
  data <+: (packed H q (partition H q.config.numPartitions data) acked).first.drop
    (localOffset H q before data)

theorem firstSegmentHas_of_inFirstSegment (result : AppendResult)
    (after : List (AppendResult × List UInt8)) (h : InFirstSegment H q before data) :
    FirstSegmentHas H q before (before ++ (result, data) :: after) data := by
  obtain ⟨mid, -, -, hdrop, -⟩ := NextFit.drop_first
    (inPartition H q.config.numPartitions (partition H q.config.numPartitions data) after) h
  rw [FirstSegmentHas, packed, inPartition_append, inPartition_cons_same, localOffset, packed, hdrop]
  exact List.prefix_append data mid.flatten

theorem firstSegmentHas_of_overflow (result : AppendResult) {bs : List UInt8}
    (hbs : (inPartition H q.config.numPartitions (partition H q.config.numPartitions data)
      before).flatten = bs)
    (hfit : bs.length ≤ q.config.segmentSize)
    (hover : q.config.segmentSize < bs.length + data.length) :
    FirstSegmentHas H q before (before ++ [(result, data)]) data ↔ data <+: bs := by
  subst hbs
  obtain ⟨hfirst, hslot⟩ := NextFit.overflow _ [] hfit hover
  rw [FirstSegmentHas, packed, inPartition_append, inPartition_cons_same, localOffset, packed,
    hslot, List.drop_zero]
  exact iff_of_eq (congrArg _ hfirst)

theorem Holds.readsBack_iff (h : q.Holds H acked) (hloc : Located H q before result data)
    (hdata : data ≠ []) (startTime endTime : Nat) :
    q.ReadsBack startTime endTime result.globalOffset data ↔
      FirstSegmentHas H q before acked data := by
  have hread := h.read hloc startTime endTime
  dsimp only at hread
  rw [ReadsBack, hread, FirstSegmentHas]
  split
  · rename_i hle
    rw [List.drop_eq_nil_of_le hle, List.prefix_nil]
    exact iff_of_false nofun hdata
  · constructor
    · rintro ⟨out, hout, hpre⟩
      cases hout
      exact hpre
    · exact fun hpre => ⟨_, rfl, hpre⟩

/-- **Reading back.**  In every run of appends of payloads no longer than a
segment, the global offset answered for a payload reads back data that begin with
the payload iff the payload went to its partition's first segment or that segment
happens to hold the same bytes at the same place, as it also does in the first case
(`firstSegmentHas_of_inFirstSegment`). -/
theorem reads_back_iff (h : q.Appended H (before ++ (result, data) :: after)) (hdata : data ≠ [])
    (startTime endTime : Nat) :
    q.ReadsBack startTime endTime result.globalOffset data ↔
      InFirstSegment H q before data ∨
        FirstSegmentHas H q before (before ++ (result, data) :: after) data := by
  rw [h.holds.readsBack_iff (h.holds.located before result data after rfl) hdata]
  constructor
  · exact Or.inr
  · rintro (hin | hhas)
    · exact firstSegmentHas_of_inFirstSegment result after hin
    · exact hhas

end

/-- The second of two payloads. -/
theorem reads_back_iff_second : ∃ q result₁ result₂,
    q.Appended crc32Hasher ([(result₁, [65, 66])] ++ [(result₂, [67])]) ∧
    (q.ReadsBack 5 7 result₂.globalOffset [67] ↔
      InFirstSegment crc32Hasher q [(result₁, [65, 66])] [67] ∨
        FirstSegmentHas crc32Hasher q [(result₁, [65, 66])]
          ([(result₁, [65, 66])] ++ [(result₂, [67])]) [67]) := by
  obtain ⟨q₀, hnew, hconfig₀⟩ := new_willing Files.fresh_willing smallConfig_valid
  have h₀ : q₀.Appended crc32Hasher [] := .new hnew
  obtain ⟨result₁, q₁, -, hconfig₁, h₁⟩ :=
    h₀.append_fresh [65, 66] (by rw [hconfig₀]; decide) 0 1
  obtain ⟨result₂, q₂, -, -, h₂⟩ :=
    h₁.append_fresh [67] (by rw [hconfig₁, hconfig₀]; decide) 2 3
  exact ⟨q₂, result₁, result₂, h₂, reads_back_iff h₂ (by decide) 5 7⟩

/-- **A payload in the second segment does not read back**: 600 bytes after
another 600, in segments of 1024, answer with those of the first. -/
theorem second_segment_not_read : ∃ q₀ q₁ q₂ result₁ result₂,
    PersistQ.new Files.fresh Paths.plain smallConfig = .ok q₀ ∧
    q₀.append crc32Hasher Files.fresh 0 1 2 (List.replicate 600 65)
      = some (some (.ok result₁), q₁) ∧
    q₁.append crc32Hasher Files.fresh 2 3 2 (List.replicate 600 66)
      = some (some (.ok result₂), q₂) ∧
    ¬ q₂.ReadsBack 5 7 result₂.globalOffset (List.replicate 600 66) := by
  have hlen : ∀ x : UInt8, (List.replicate 600 x).length = 600 := fun _ => List.length_replicate
  obtain ⟨q₀, hnew, hconfig₀⟩ := new_willing Files.fresh_willing smallConfig_valid
  have h₀ : q₀.Appended crc32Hasher [] := .new hnew
  obtain ⟨result₁, q₁, happ₁, hconfig₁, h₁⟩ :=
    h₀.append_fresh (List.replicate 600 65) (by rw [hconfig₀, hlen]; decide) 0 1
  obtain ⟨result₂, q₂, happ₂, hconfig₂, h₂⟩ :=
    h₁.append_fresh (List.replicate 600 66) (by rw [hconfig₁, hconfig₀, hlen]; decide) 2 3
  refine ⟨q₀, q₁, q₂, result₁, result₂, hnew, happ₁, happ₂, ?_⟩
  have hconfig : q₂.config = smallConfig := hconfig₂.trans (hconfig₁.trans hconfig₀)
  have hloc := h₂.holds.located [(result₁, List.replicate 600 65)] result₂ _ [] rfl
  have hnonempty : List.replicate 600 (66 : UInt8) ≠ [] := by
    rw [← List.length_pos_iff, hlen]
    decide
  rw [h₂.holds.readsBack_iff hloc hnonempty]
  have hone : q₂.config.numPartitions = 1 := by rw [hconfig]; rfl
  have hbefore : (inPartition crc32Hasher q₂.config.numPartitions
      (partition crc32Hasher q₂.config.numPartitions (List.replicate 600 66))
      [(result₁, List.replicate 600 65)]).flatten = List.replicate 600 65 := by
    rw [hone, partition_one, inPartition_one]
    exact List.flatten_singleton
  have hbytes : ¬ List.replicate 600 (66 : UInt8) <+: List.replicate 600 65 := by
    intro hpre
    have heq := hpre.eq_of_length (by rw [hlen, hlen])
    rw [List.replicate_right_inj (by decide)] at heq
    cases heq
  have hiff := firstSegmentHas_of_overflow result₂ hbefore (by rw [hlen, hconfig]; decide)
    (by rw [hlen, hlen, hconfig]; decide)
  exact fun hhas => hbytes (hiff.mp hhas)

end PersistQ

end Dolda
