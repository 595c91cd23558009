/-
# `Dolda.Demo` — the simplified cluster

`DemoCluster` of `src/demo.rs`: nodes, files and partitions in hash maps, and records
that are routed by the checksum of their key.  A node is chosen by its place in the
order in which the map of nodes is gone through; that order is arbitrary, and stays as
it is until a node is added (`Event.addNode` brings the new one along).

**Where records go.**  A write succeeds as soon as there is a node; the node it is
routed to and its replicas are different members, as many as there can be up to three,
and writing moves no key elsewhere (`writes_placed`).  A write reads the clock before and
after it; the clock does not step back in between, and the time it took is left out.

**What is counted.**  A partition counts the writes that have named it since it was
last created, and a write names its key's partition or, for want of that, the first.  So
a write is counted nowhere just if neither is there, and never if the partitions are
numbered from one without a gap (`writes_counted`).  The counters are 64-bit words, and
wrap around.
-/
import Dolda.RecordIntegrity
import Dolda.Lib.Layout
import Mathlib.Data.List.AList

namespace Dolda.Demo

/-! ## The data

The maps of the cluster are lists here, in the order in which they are gone through,
which the source does not fix; so a node is added in whatever place.  What no write reads
or changes is left out. -/

/-- What the cluster reads of a node. -/
structure DemoNode where
  id : UInt32
  memoryGb : UInt64
  storageGb : UInt64
deriving DecidableEq

inductive PartitionKey where
  | string (s : String)
  | integer (i : Int64)
  | timestamp (t : UInt64)
deriving DecidableEq

def PartitionKey.bytes : PartitionKey → List UInt8
  | .string s => s.toUTF8.data.toList
  | .integer i => Layout.u64le.write i.toUInt64
  | .timestamp t => Layout.u64le.write t

def PartitionKey.hash (H : Hasher) (key : PartitionKey) : Nat :=
  (H.finalize (H.update H.new key.bytes)).toNat

structure DemoFile where
  logicalPath : String
  sizeBytes : UInt64
  nodeId : UInt32
  replicas : List UInt32
deriving DecidableEq

def DemoFile.new (path : String) (size : UInt64) (nodeId : UInt32) (replicas : List UInt32) :
    DemoFile :=
  { logicalPath := path, sizeBytes := size, nodeId := nodeId, replicas := replicas }

structure DemoPartition where
  id : UInt32
  nodeIds : List UInt32
  totalRecords : UInt64
  totalSize : UInt64
deriving DecidableEq

/-- A new partition starts with numbers that go by its id. -/
def DemoPartition.new (id : UInt32) (nodeIds : List UInt32) : DemoPartition where
  id
  nodeIds
  totalRecords := 100000 * id.toUInt64
  totalSize := 100 * 1024 * 1024 * id.toUInt64

structure DataRecord where
  key : PartitionKey
  value : List UInt8
  timestamp : UInt64
deriving DecidableEq

/-- Eight bytes for the hash of the key and the timestamp. -/
def DataRecord.size (record : DataRecord) : Nat := record.value.length + 8

/-- The result of a write, but for the time it took. -/
structure WriteResult where
  record : DataRecord
  partitionId : UInt32
  nodeId : UInt32
  replicas : List UInt32
deriving DecidableEq

/-- The nodes are in the order in which the map is gone through. -/
structure DemoCluster where
  nodes : List DemoNode
  files : AList (fun _ : String => DemoFile)
  partitions : AList (fun _ : UInt32 => DemoPartition)
  totalMemory : UInt64
  totalStorage : UInt64

namespace DemoCluster

def new : DemoCluster :=
  { nodes := [], files := ∅, partitions := ∅, totalMemory := 0, totalStorage := 0 }

def nodeIds (c : DemoCluster) : List UInt32 := c.nodes.map (·.id)

/-- The nodes with the new one in place of one of its id, in whatever order. -/
def addNode (node : DemoNode) (order : List DemoNode) (c : DemoCluster) : Option DemoCluster :=
  if order.Perm (node :: c.nodes.filter (·.id ≠ node.id)) then
    some { c with
      nodes := order
      totalMemory := c.totalMemory + node.memoryGb
      totalStorage := c.totalStorage + node.storageGb }
  else none

def createFile (path : String) (size : UInt64) (nodeId : UInt32) (c : DemoCluster) :
    Except String Unit × DemoCluster :=
  if nodeId ∉ c.nodeIds then (.error ("Node " ++ toString nodeId ++ " not found"), c)
  else
    let replicas := c.nodeIds.take 3
    (.ok (), { c with files := c.files.insert path (.new path size nodeId replicas) })

def createPartition (id : UInt32) (c : DemoCluster) : Except String Unit × DemoCluster :=
  if c.nodeIds = [] then (.error "No nodes available", c)
  else (.ok (), { c with partitions := c.partitions.insert id (.new id c.nodeIds) })

def getNodeForKey (H : Hasher) (key : PartitionKey) (c : DemoCluster) : Option DemoNode :=
  if c.nodes.length = 0 then none
  else
    let nodeIndex := key.hash H % c.nodes.length
    (c.nodeIds[nodeIndex]?).bind (fun id => c.nodes.find? (·.id = id))

/-- The partition a key belongs in, of so many. -/
def slot (H : Hasher) (count : Nat) (key : PartitionKey) : UInt32 :=
  UInt32.ofNat (key.hash H % count + 1)

def getPartitionForKey (H : Hasher) (key : PartitionKey) (c : DemoCluster) :
    Option DemoPartition :=
  if c.partitions.keys.length = 0 then none
  else c.partitions.lookup (slot H c.partitions.keys.length key)

/-- Count a record in a partition. -/
def count (record : DataRecord) (p : DemoPartition) : DemoPartition :=
  { p with
    totalRecords := p.totalRecords + 1
    totalSize := p.totalSize + UInt64.ofNat record.size }

/-- The statistics of the partition, if it is there. -/
def countIn (partitionId : UInt32) (record : DataRecord) (c : DemoCluster) : DemoCluster :=
  match c.partitions.lookup partitionId with
  | none => c
  | some p => { c with partitions := c.partitions.insert partitionId (count record p) }

def writeRecord (H : Hasher) (record : DataRecord) (c : DemoCluster) :
    Except String WriteResult × DemoCluster :=
  let partitionId := ((c.getPartitionForKey H record.key).map (·.id)).getD 1
  match c.getNodeForKey H record.key with
  | none => (.error "No suitable node found for key", c)
  | some node =>
      let replicas := (c.nodeIds.filter (· ≠ node.id)).take 2
      (.ok { record, partitionId, nodeId := node.id, replicas }, c.countIn partitionId record)

def writeBatch (H : Hasher) : List DataRecord → DemoCluster →
    List (Except String WriteResult) × DemoCluster
  | [], c => ([], c)
  | record :: records, c =>
      let (result, c) := c.writeRecord H record
      let (results, c) := writeBatch H records c
      (result :: results, c)

end DemoCluster

/-! ## Runs -/

inductive Event where
  | addNode (node : DemoNode) (order : List DemoNode)
  | createFile (path : String) (size : UInt64) (nodeId : UInt32)
  | createPartition (id : UInt32)
  | writeRecord (record : DataRecord)
deriving DecidableEq

inductive Answer where
  | done
  | created (result : Except String Unit)
  | wrote (result : Except String WriteResult)

def step (H : Hasher) (c : DemoCluster) : Event → Option (Answer × DemoCluster)
  | .addNode node order => (c.addNode node order).map (fun c => (.done, c))
  | .createFile path size nodeId =>
      some (.created (c.createFile path size nodeId).1, (c.createFile path size nodeId).2)
  | .createPartition id => some (.created (c.createPartition id).1, (c.createPartition id).2)
  | .writeRecord record =>
      some (.wrote (c.writeRecord H record).1, (c.writeRecord H record).2)

/-- The clusters that some events lead to, with what they were answered. -/
inductive Runs (H : Hasher) : List (Event × Answer) → DemoCluster → Prop where
  | new : Runs H [] .new
  | step {history : List (Event × Answer)} {c c' : DemoCluster} {event : Event}
      {answer : Answer} : Runs H history c → step H c event = some (answer, c') →
        Runs H (history ++ [(event, answer)]) c'

/-- What an event does to the records of a partition: creating it forgets them. -/
def tally (id : UInt32) (records : List DataRecord) : Event × Answer → List DataRecord
  | (.createPartition created, .created (.ok ())) => if created = id then [] else records
  | (.writeRecord _, .wrote (.ok result)) =>
      if result.partitionId = id then records ++ [result.record] else records
  | _ => records

/-- The records written to a partition since it was last created. -/
def recorded (id : UInt32) (history : List (Event × Answer)) : List DataRecord :=
  history.foldl (tally id) []

@[simp] theorem recorded_concat (id : UInt32) (history : List (Event × Answer))
    (x : Event × Answer) : recorded id (history ++ [x]) = tally id (recorded id history) x :=
  List.foldl_concat ..

/-! ## Routing -/

section
variable {H : Hasher} {c c' : DemoCluster} {key : PartitionKey}

namespace DemoCluster

/-- The partition a write names. -/
def named (H : Hasher) (key : PartitionKey) (c : DemoCluster) : UInt32 :=
  ((c.getPartitionForKey H key).map (·.id)).getD 1

theorem getNodeForKey_some (H : Hasher) (key : PartitionKey) (h : c.nodes ≠ []) :
    ∃ node ∈ c.nodes, c.getNodeForKey H key = some node := by
  have hlength : c.nodes.length ≠ 0 := mt List.length_eq_zero_iff.mp h
  have hindex : key.hash H % c.nodes.length < c.nodes.length :=
    Nat.mod_lt _ (Nat.pos_of_ne_zero hlength)
  have hid : c.nodeIds[key.hash H % c.nodes.length]? =
      some (c.nodes[key.hash H % c.nodes.length]).id := by
    rw [nodeIds, List.getElem?_map, List.getElem?_eq_getElem hindex]
    rfl
  cases hfind : c.nodes.find? (·.id = (c.nodes[key.hash H % c.nodes.length]).id) with
  | none =>
      have hnone := List.find?_eq_none.mp hfind _ (List.getElem_mem hindex)
      exact absurd (decide_eq_true rfl) hnone
  | some node =>
      refine ⟨node, List.mem_of_find?_eq_some hfind, ?_⟩
      simp only [getNodeForKey, if_neg hlength, hid, Option.bind_some]
      exact hfind

theorem getNodeForKey_none (H : Hasher) (key : PartitionKey) (h : c.nodes = []) :
    c.getNodeForKey H key = none := by
  rw [getNodeForKey, if_pos (List.length_eq_zero_iff.mpr h)]

/-- The two replicas of a record. -/
def replicasOf (id : UInt32) (c : DemoCluster) : List UInt32 :=
  (c.nodeIds.filter (· ≠ id)).take 2

theorem writeRecord_ok (H : Hasher) (record : DataRecord) (h : c.nodes ≠ []) :
    ∃ node ∈ c.nodes, c.getNodeForKey H record.key = some node ∧
      c.writeRecord H record =
        (.ok { record, partitionId := c.named H record.key, nodeId := node.id
               replicas := c.replicasOf node.id },
          c.countIn (c.named H record.key) record) := by
  obtain ⟨node, hnode, hroute⟩ := getNodeForKey_some H record.key h
  refine ⟨node, hnode, hroute, ?_⟩
  rw [writeRecord, hroute]
  rfl

theorem writeRecord_error (H : Hasher) (record : DataRecord) (h : c.nodes = []) :
    c.writeRecord H record = (.error "No suitable node found for key", c) := by
  rw [writeRecord, getNodeForKey_none H record.key h]

/-! ## Counting moves nothing -/

@[simp] theorem countIn_nodes (id : UInt32) (record : DataRecord) :
    (c.countIn id record).nodes = c.nodes := by
  rw [countIn]
  split <;> rfl

@[simp] theorem countIn_files (id : UInt32) (record : DataRecord) :
    (c.countIn id record).files = c.files := by
  rw [countIn]
  split <;> rfl

theorem countIn_lookup (id other : UInt32) (record : DataRecord) :
    (c.countIn id record).partitions.lookup other =
      (c.partitions.lookup other).map (fun p => if id = other then count record p else p) := by
  rw [countIn]
  cases hlookup : c.partitions.lookup id with
  | none =>
      by_cases hid : id = other
      · rw [← hid, hlookup]
        rfl
      · simp only [if_neg hid, Option.map_id']
  | some p =>
      by_cases hid : id = other
      · rw [← hid, hlookup, AList.lookup_insert, Option.map_some, if_pos rfl]
      · rw [AList.lookup_insert_ne (Ne.symm hid)]
        simp only [if_neg hid, Option.map_id']

theorem countIn_size (id : UInt32) (record : DataRecord) :
    (c.countIn id record).partitions.keys.length = c.partitions.keys.length := by
  rw [countIn]
  cases hlookup : c.partitions.lookup id with
  | none => rfl
  | some p =>
      have hmem : id ∈ c.partitions.keys :=
        AList.mem_keys.mp (AList.lookup_isSome.mp (Option.isSome_iff_exists.mpr ⟨p, hlookup⟩))
      rw [AList.keys_insert, List.length_cons, List.length_erase_of_mem hmem]
      exact Nat.sub_add_cancel (List.length_pos_of_mem hmem)

theorem named_countIn (id : UInt32) (record : DataRecord) :
    (c.countIn id record).named H key = c.named H key := by
  rw [named, named, getPartitionForKey, getPartitionForKey, countIn_size]
  by_cases hsize : c.partitions.keys.length = 0
  · rw [if_pos hsize, if_pos hsize]
  · rw [if_neg hsize, if_neg hsize, countIn_lookup, Option.map_map]
    have hid : ∀ p : DemoPartition,
        (if id = slot H c.partitions.keys.length key then count record p else p).id = p.id := by
      intro p
      split <;> rfl
    simp only [Function.comp_def, hid]

theorem getNodeForKey_congr (h : c'.nodes = c.nodes) :
    c'.getNodeForKey H key = c.getNodeForKey H key := by
  rw [getNodeForKey, getNodeForKey, nodeIds, nodeIds, h]

/-- A write leaves all routes as they are. -/
theorem writeRecord_routes (H : Hasher) (record : DataRecord) (key : PartitionKey)
    (c : DemoCluster) :
    (c.writeRecord H record).2.getNodeForKey H key = c.getNodeForKey H key ∧
      (c.writeRecord H record).2.named H key = c.named H key := by
  by_cases hnodes : c.nodes = []
  · rw [writeRecord_error H record hnodes]
    exact ⟨rfl, rfl⟩
  · obtain ⟨node, -, -, hwrite⟩ := writeRecord_ok H record hnodes
    rw [hwrite]
    exact ⟨getNodeForKey_congr (countIn_nodes _ _), named_countIn _ _⟩

theorem writeBatch_routes (H : Hasher) (records : List DataRecord) (key : PartitionKey)
    (c : DemoCluster) :
    (c.writeBatch H records).2.getNodeForKey H key = c.getNodeForKey H key ∧
      (c.writeBatch H records).2.named H key = c.named H key := by
  induction records generalizing c with
  | nil => exact ⟨rfl, rfl⟩
  | cons record records ih =>
      obtain ⟨hnode, hnamed⟩ := writeRecord_routes H record key c
      obtain ⟨hnode', hnamed'⟩ := ih (c.writeRecord H record).2
      exact ⟨hnode'.trans hnode, hnamed'.trans hnamed⟩

end DemoCluster

/-! ## Members

What is chosen for a record is chosen among the members, and no step takes a member
away.  The replicas are taken from the members other than the primary, so all are
different. -/

/-- What the maps hold is members, and each partition is filed under its own id. -/
structure Filed (c : DemoCluster) : Prop where
  nodes : c.nodeIds.Nodup
  partitions : ∀ id p, c.partitions.lookup id = some p → p.id = id
  files : ∀ path f, c.files.lookup path = some f →
    f.nodeId ∈ c.nodeIds ∧ f.replicas ⊆ c.nodeIds ∧ f.replicas.Nodup ∧ f.replicas ≠ [] ∧
      f.replicas.length ≤ 3

theorem filed_new : Filed .new :=
  ⟨List.nodup_nil, fun _ _ h => (Option.some_ne_none _ h.symm).elim,
    fun _ _ h => (Option.some_ne_none _ h.symm).elim⟩

theorem Filed.addNode {node : DemoNode} {order : List DemoNode} (h : Filed c)
    (hadd : c.addNode node order = some c') : Filed c' := by
  rw [DemoCluster.addNode] at hadd
  by_cases hperm : order.Perm (node :: c.nodes.filter (·.id ≠ node.id))
  · rw [if_pos hperm] at hadd
    obtain rfl := Option.some.inj hadd
    have hids : (order.map (·.id)).Perm
        (node.id :: (c.nodes.filter (·.id ≠ node.id)).map (·.id)) := hperm.map _
    -- the new node has taken the place of one of its id
    have hnew : node.id ∉ (c.nodes.filter (·.id ≠ node.id)).map (·.id) := by
      intro hmem
      obtain ⟨other, hother, hid⟩ := List.mem_map.mp hmem
      exact of_decide_eq_true (List.mem_filter.mp hother).2 hid
    have hkept : c.nodeIds ⊆ order.map (·.id) := by
      intro id hid
      refine hids.mem_iff.mpr ?_
      obtain ⟨other, hother, rfl⟩ := List.mem_map.mp hid
      by_cases hsame : other.id = node.id
      · exact hsame ▸ List.mem_cons_self
      · exact List.mem_cons_of_mem _
          (List.mem_map_of_mem (List.mem_filter.mpr ⟨hother, decide_eq_true hsame⟩))
    refine ⟨?_, h.partitions, ?_⟩
    · exact hids.nodup_iff.mpr (List.nodup_cons.mpr
        ⟨hnew, (List.filter_sublist.map _).nodup h.nodes⟩)
    · intro path f hf
      obtain ⟨hnode, hreplicas, hrest⟩ := h.files path f hf
      exact ⟨hkept hnode, List.Subset.trans hreplicas hkept, hrest⟩
  · rw [if_neg hperm] at hadd
    cases hadd

theorem Filed.createFile (h : Filed c) (path : String) (size : UInt64) (nodeId : UInt32) :
    Filed (c.createFile path size nodeId).2 := by
  rw [DemoCluster.createFile]
  by_cases hnode : nodeId ∈ c.nodeIds
  · rw [if_neg (not_not_intro hnode)]
    refine ⟨h.nodes, h.partitions, ?_⟩
    intro other f hf
    by_cases hother : other = path
    · rw [hother, AList.lookup_insert] at hf
      obtain rfl := Option.some.inj hf
      refine ⟨hnode, List.take_subset _ _, (List.take_sublist _ _).nodup h.nodes, ?_,
        List.length_take_le _ _⟩
      have hne : c.nodeIds ≠ [] := List.ne_nil_of_mem hnode
      exact fun htake => (List.take_eq_nil_iff.mp htake).elim (by decide) hne
    · rw [AList.lookup_insert_ne hother] at hf
      exact h.files other f hf
  · rw [if_pos hnode]
    exact h

theorem Filed.createPartition (h : Filed c) (id : UInt32) :
    Filed (c.createPartition id).2 := by
  rw [DemoCluster.createPartition]
  by_cases hnodes : c.nodeIds = []
  · rw [if_pos hnodes]
    exact h
  · rw [if_neg hnodes]
    refine ⟨h.nodes, ?_, h.files⟩
    intro other p hp
    by_cases hother : other = id
    · rw [hother, AList.lookup_insert] at hp
      obtain rfl := Option.some.inj hp
      exact hother.symm
    · rw [AList.lookup_insert_ne hother] at hp
      exact h.partitions other p hp

theorem Filed.countIn (h : Filed c) (id : UInt32) (record : DataRecord) :
    Filed (c.countIn id record) := by
  have hids : (c.countIn id record).nodeIds = c.nodeIds := by
    rw [DemoCluster.nodeIds, DemoCluster.countIn_nodes, ← DemoCluster.nodeIds]
  refine ⟨hids ▸ h.nodes, ?_, ?_⟩
  · intro other p hp
    rw [DemoCluster.countIn_lookup] at hp
    obtain ⟨q, hq, rfl⟩ := Option.map_eq_some_iff.mp hp
    have hqid := h.partitions other q hq
    split
    · exact hqid
    · exact hqid
  · intro path f hf
    rw [DemoCluster.countIn_files] at hf
    rw [hids]
    exact h.files path f hf

theorem Filed.writeRecord (h : Filed c) (record : DataRecord) :
    Filed (c.writeRecord H record).2 := by
  by_cases hnodes : c.nodes = []
  · rw [DemoCluster.writeRecord_error H record hnodes]
    exact h
  · obtain ⟨node, -, -, hwrite⟩ := DemoCluster.writeRecord_ok H record hnodes
    rw [hwrite]
    exact h.countIn _ record

theorem Filed.step {event : Event} {answer : Answer} (h : Filed c)
    (hstep : Demo.step H c event = some (answer, c')) : Filed c' := by
  cases event with
  | addNode node order =>
      obtain ⟨c₁, hadd, heq⟩ := Option.map_eq_some_iff.mp hstep
      cases heq
      exact h.addNode hadd
  | createFile path size nodeId =>
      cases hstep
      exact h.createFile path size nodeId
  | createPartition id =>
      cases hstep
      exact h.createPartition id
  | writeRecord record =>
      cases hstep
      exact h.writeRecord record

theorem Runs.filed {history : List (Event × Answer)} (h : Runs H history c) : Filed c := by
  induction h with
  | new => exact filed_new
  | step _ hstep ih => exact ih.step hstep

/-- The primary and the replicas are different members, up to three. -/
theorem Filed.placed (h : Filed c) {node : DemoNode} (hnode : node ∈ c.nodes) :
    (node.id :: c.replicasOf node.id).Nodup ∧ node.id :: c.replicasOf node.id ⊆ c.nodeIds ∧
      (node.id :: c.replicasOf node.id).length = min 3 c.nodeIds.length := by
  have hmem : node.id ∈ c.nodeIds := List.mem_map_of_mem hnode
  have hothers : (c.nodeIds.filter (· ≠ node.id)).length = c.nodeIds.length - 1 := by
    rw [← List.length_erase_of_mem hmem, h.nodes.erase_eq_filter]
    refine congrArg List.length (List.filter_congr (fun id _ => ?_))
    by_cases hid : id = node.id <;> simp [hid]
  have hpos := List.length_pos_of_mem hmem
  refine ⟨List.nodup_cons.mpr ⟨?_, ?_⟩, List.cons_subset.mpr ⟨hmem, ?_⟩, ?_⟩
  · intro hreplica
    exact of_decide_eq_true (List.mem_filter.mp (List.mem_of_mem_take hreplica)).2 rfl
  · exact ((List.take_sublist _ _).trans List.filter_sublist).nodup h.nodes
  · exact List.Subset.trans (List.take_subset _ _) List.filter_sublist.subset
  · rw [List.length_cons, DemoCluster.replicasOf, List.length_take, hothers]
    omega

end

/-- **Where records go.**  After any calls a write succeeds iff there is a node; then its
node and its replicas are different members, three or as many as there are, and the node
is the one the key is routed to.  No batch of writes changes a route.  A file's node and
its replicas are members for good. -/
theorem writes_placed {H : Hasher} {history : List (Event × Answer)} {c : DemoCluster}
    (h : Runs H history c) :
    (∀ record, (∃ result, (c.writeRecord H record).1 = .ok result) ↔ c.nodes ≠ []) ∧
      (∀ record result, (c.writeRecord H record).1 = .ok result →
        (c.getNodeForKey H record.key).map (·.id) = some result.nodeId ∧
        (result.nodeId :: result.replicas).Nodup ∧
        result.nodeId :: result.replicas ⊆ c.nodeIds ∧
        (result.nodeId :: result.replicas).length = min 3 c.nodeIds.length) ∧
      (∀ records key,
        (c.writeBatch H records).2.getNodeForKey H key = c.getNodeForKey H key ∧
          (c.writeBatch H records).2.named H key = c.named H key) ∧
      ∀ path f, c.files.lookup path = some f →
        f.nodeId ∈ c.nodeIds ∧ f.replicas ⊆ c.nodeIds ∧ f.replicas.Nodup ∧ f.replicas ≠ [] ∧
          f.replicas.length ≤ 3 := by
  refine ⟨fun record => ⟨?_, ?_⟩, ?_, fun records key => c.writeBatch_routes H records key,
    h.filed.files⟩
  · rintro ⟨result, hresult⟩ hnodes
    rw [DemoCluster.writeRecord_error H record hnodes] at hresult
    cases hresult
  · intro hnodes
    obtain ⟨node, -, -, hwrite⟩ := DemoCluster.writeRecord_ok H record hnodes
    exact ⟨_, congrArg Prod.fst hwrite⟩
  · intro record result hresult
    by_cases hnodes : c.nodes = []
    · rw [DemoCluster.writeRecord_error H record hnodes] at hresult
      cases hresult
    · obtain ⟨node, hnode, hroute, hwrite⟩ := DemoCluster.writeRecord_ok H record hnodes
      rw [hwrite] at hresult
      obtain rfl := Except.ok.inj hresult
      exact ⟨congrArg (Option.map (·.id)) hroute, h.filed.placed hnode⟩

def alpha : DemoNode := { id := 1, memoryGb := 8, storageGb := 100 }

def beta : DemoNode := { id := 2, memoryGb := 8, storageGb := 100 }

def twoNodes : DemoCluster :=
  { DemoCluster.new with nodes := [beta, alpha], totalMemory := 16, totalStorage := 200 }

theorem step_addNode {H : Hasher} {c : DemoCluster} {node : DemoNode} {order : List DemoNode}
    (h : order.Perm (node :: c.nodes.filter (·.id ≠ node.id))) :
    step H c (.addNode node order) = some (.done,
      { c with
        nodes := order
        totalMemory := c.totalMemory + node.memoryGb
        totalStorage := c.totalStorage + node.storageGb }) := by
  rw [step, DemoCluster.addNode, if_pos h]
  rfl

theorem runs_twoNodes (H : Hasher) : ∃ history, Runs H history twoNodes := by
  have halpha : step H .new (.addNode alpha [alpha]) = some (.done, _) :=
    step_addNode (List.Perm.refl _)
  have hbeta : step H _ (.addNode beta [beta, alpha]) = some (.done, twoNodes) :=
    step_addNode (c := { DemoCluster.new with
      nodes := [alpha], totalMemory := 8, totalStorage := 100 }) (List.Perm.refl _)
  exact ⟨_, .step (.step .new halpha) hbeta⟩

def sevenRecord : DataRecord := { key := .timestamp 7, value := [1, 2], timestamp := 0 }

/-- With two nodes a record has one replica. -/
theorem writes_placed_two : ∃ result,
    (twoNodes.writeRecord crc32Hasher sevenRecord).1 = .ok result ∧
      (result.nodeId :: result.replicas).Nodup ∧
      (result.nodeId :: result.replicas).length = 2 := by
  obtain ⟨history, hruns⟩ := runs_twoNodes crc32Hasher
  obtain ⟨hwrites, hplaced, -⟩ := writes_placed hruns
  obtain ⟨result, hresult⟩ := (hwrites sevenRecord).mpr (List.cons_ne_nil _ _)
  obtain ⟨-, hnodup, -, hlength⟩ := hplaced sevenRecord result hresult
  exact ⟨result, hresult, hnodup, hlength⟩

/-! ## Counters

An event that touches no partition and writes nothing leaves the counters; a write names
its key's partition, or else the first, and has named one if it succeeds. -/

open DemoCluster (slot count)

section
variable {H : Hasher} {c c' : DemoCluster} {history : List (Event × Answer)}

/-- Each partition counts the records that named it since it was created, modulo `2^64`. -/
def Counted (history : List (Event × Answer)) (c : DemoCluster) : Prop :=
  ∀ id p, c.partitions.lookup id = some p →
    p.totalRecords = 100000 * id.toUInt64 + UInt64.ofNat (recorded id history).length ∧
      p.totalSize = 100 * 1024 * 1024 * id.toUInt64 +
        UInt64.ofNat ((recorded id history).map DataRecord.size).sum

theorem Counted.quiet {x : Event × Answer} (h : Counted history c)
    (hpartitions : c'.partitions = c.partitions)
    (htally : ∀ id records, tally id records x = records) : Counted (history ++ [x]) c' := by
  intro id p hp
  rw [hpartitions] at hp
  rw [recorded_concat, htally]
  exact h id p hp

theorem Counted.createPartition (h : Counted history c) (id : UInt32) :
    Counted (history ++ [(.createPartition id, .created (c.createPartition id).1)])
      (c.createPartition id).2 := by
  rw [DemoCluster.createPartition]
  by_cases hnodes : c.nodeIds = []
  · rw [if_pos hnodes]
    exact h.quiet rfl (fun _ _ => rfl)
  · rw [if_neg hnodes]
    intro other p hp
    rw [recorded_concat, tally]
    by_cases hother : other = id
    · rw [hother, AList.lookup_insert] at hp
      obtain rfl := Option.some.inj hp
      rw [if_pos hother.symm, hother]
      exact ⟨(UInt64.add_zero _).symm, (UInt64.add_zero _).symm⟩
    · rw [AList.lookup_insert_ne hother] at hp
      rw [if_neg (Ne.symm hother)]
      exact h other p hp

theorem Counted.writeRecord (h : Counted history c) (record : DataRecord) :
    Counted (history ++ [(.writeRecord record, .wrote (c.writeRecord H record).1)])
      (c.writeRecord H record).2 := by
  by_cases hnodes : c.nodes = []
  · rw [DemoCluster.writeRecord_error H record hnodes]
    exact h.quiet rfl (fun _ _ => rfl)
  · obtain ⟨node, -, -, hwrite⟩ := DemoCluster.writeRecord_ok H record hnodes
    rw [hwrite]
    intro other p hp
    rw [DemoCluster.countIn_lookup] at hp
    obtain ⟨q, hq, rfl⟩ := Option.map_eq_some_iff.mp hp
    obtain ⟨hrecords, hsize⟩ := h other q hq
    rw [recorded_concat, tally]
    by_cases hnamed : c.named H record.key = other
    · rw [if_pos hnamed, if_pos hnamed, List.length_append, List.map_append, List.sum_append,
        UInt64.ofNat_add, UInt64.ofNat_add, ← UInt64.add_assoc, ← UInt64.add_assoc, ← hrecords,
        ← hsize]
      exact ⟨rfl, rfl⟩
    · rw [if_neg hnamed, if_neg hnamed]
      exact ⟨hrecords, hsize⟩

theorem Runs.counted (h : Runs H history c) : Counted history c := by
  induction h with
  | new => exact fun _ _ h => (Option.some_ne_none _ h.symm).elim
  | @step history c c' event answer _ hstep ih =>
      cases event with
      | addNode node order =>
          obtain ⟨c₁, hadd, heq⟩ := Option.map_eq_some_iff.mp hstep
          cases heq
          rw [DemoCluster.addNode] at hadd
          split at hadd
          · cases hadd
            exact ih.quiet rfl (fun _ _ => rfl)
          · cases hadd
      | createFile path size nodeId =>
          cases hstep
          refine ih.quiet ?_ (fun _ _ => rfl)
          rw [DemoCluster.createFile]
          split <;> rfl
      | createPartition id =>
          cases hstep
          exact ih.createPartition id
      | writeRecord record =>
          cases hstep
          exact ih.writeRecord record

theorem Filed.named_cases (h : Filed c) (H : Hasher) (key : PartitionKey) :
    (c.partitions.lookup (slot H c.partitions.keys.length key) ≠ none ∧
        c.named H key = slot H c.partitions.keys.length key) ∨
      c.partitions.lookup (slot H c.partitions.keys.length key) = none ∧ c.named H key = 1 := by
  cases hlookup : c.partitions.lookup (slot H c.partitions.keys.length key) with
  | none =>
      refine .inr ⟨rfl, ?_⟩
      rw [DemoCluster.named, DemoCluster.getPartitionForKey, hlookup]
      split <;> rfl
  | some p =>
      have hmem : slot H c.partitions.keys.length key ∈ c.partitions.keys :=
        AList.mem_keys.mp (AList.lookup_isSome.mp (Option.isSome_iff_exists.mpr ⟨p, hlookup⟩))
      have hsize := Nat.ne_of_gt (List.length_pos_of_mem hmem)
      refine .inl ⟨Option.some_ne_none p, ?_⟩
      rw [DemoCluster.named, DemoCluster.getPartitionForKey, if_neg hsize, hlookup]
      exact h.partitions _ p hlookup

theorem named_of_ok {record : DataRecord} {result : WriteResult}
    (h : (c.writeRecord H record).1 = .ok result) :
    result.partitionId = c.named H record.key := by
  by_cases hnodes : c.nodes = []
  · rw [DemoCluster.writeRecord_error H record hnodes] at h
    cases h
  · obtain ⟨node, -, -, hwrite⟩ := DemoCluster.writeRecord_ok H record hnodes
    rw [hwrite] at h
    obtain rfl := Except.ok.inj h
    rfl

/-- The partitions are numbered from one without a gap. -/
def Numbered (c : DemoCluster) : Prop :=
  c.partitions.keys ≠ [] ∧
    ∀ k, 1 ≤ k → k ≤ c.partitions.keys.length → UInt32.ofNat k ∈ c.partitions

theorem Numbered.slot (h : Numbered c) (H : Hasher) (key : PartitionKey) :
    c.partitions.lookup (slot H c.partitions.keys.length key) ≠ none := by
  have hlt := Nat.mod_lt (key.hash H) (List.length_pos_iff.mpr h.1)
  have hmem := h.2 (key.hash H % c.partitions.keys.length + 1) (Nat.le_add_left 1 _) hlt
  exact Option.isSome_iff_ne_none.mp (AList.lookup_isSome.mpr hmem)

end

/-- **What is counted.**  In every run each partition has counted the records of the
writes that named it since it was created, with their sizes, modulo `2^64`; a write that
succeeds is counted nowhere iff neither its key's partition nor the first is there, and
never if the partitions are numbered without a gap. -/
theorem writes_counted {H : Hasher} {history : List (Event × Answer)} {c : DemoCluster}
    (h : Runs H history c) :
    Counted history c ∧
      (∀ record result, (c.writeRecord H record).1 = .ok result →
        (c.partitions.lookup result.partitionId = none ↔
          c.partitions.lookup (slot H c.partitions.keys.length record.key) = none ∧
            c.partitions.lookup 1 = none)) ∧
      (Numbered c → ∀ record result, (c.writeRecord H record).1 = .ok result →
        c.partitions.lookup result.partitionId ≠ none) := by
  refine ⟨h.counted, ?_, ?_⟩
  · intro record result hresult
    rw [named_of_ok hresult]
    rcases h.filed.named_cases H record.key with ⟨hfound, hnamed⟩ | ⟨hlost, hnamed⟩
    · rw [hnamed]
      exact ⟨fun hnone => absurd hnone hfound, fun hnone => absurd hnone.1 hfound⟩
    · rw [hnamed]
      exact ⟨fun hnone => ⟨hlost, hnone⟩, fun hnone => hnone.2⟩
  · intro hnumbered record result hresult
    have hfound := hnumbered.slot H record.key
    rw [named_of_ok hresult]
    rcases h.filed.named_cases H record.key with ⟨-, hnamed⟩ | ⟨hlost, -⟩
    · rw [hnamed]
      exact hfound
    · exact absurd hlost hfound

/-- A partition that has been written to once. -/
theorem writes_counted_once : ∃ p,
    ((twoNodes.createPartition 1).2.writeRecord crc32Hasher sevenRecord).2.partitions.lookup 1 =
        some p ∧
      p.totalRecords = 100001 ∧ p.totalSize = 100 * 1024 * 1024 + 10 := by
  obtain ⟨history, hruns⟩ := runs_twoNodes crc32Hasher
  have hcreated : step crc32Hasher twoNodes (.createPartition 1) =
      some (.created (.ok ()), (twoNodes.createPartition 1).2) := rfl
  have hwritten : step crc32Hasher (twoNodes.createPartition 1).2 (.writeRecord sevenRecord) =
      some (.wrote ((twoNodes.createPartition 1).2.writeRecord crc32Hasher sevenRecord).1,
        ((twoNodes.createPartition 1).2.writeRecord crc32Hasher sevenRecord).2) := rfl
  obtain ⟨hcounted, -, -⟩ := writes_counted ((hruns.step hcreated).step hwritten)
  obtain ⟨node, -, -, hwrite⟩ := DemoCluster.writeRecord_ok (c := (twoNodes.createPartition 1).2)
    crc32Hasher sevenRecord (List.cons_ne_nil _ _)
  have hnamed : (twoNodes.createPartition 1).2.named crc32Hasher sevenRecord.key = 1 := by
    decide +kernel
  have hlookup : ((twoNodes.createPartition 1).2.writeRecord crc32Hasher
      sevenRecord).2.partitions.lookup 1 = some (count sevenRecord (.new 1 [2, 1])) := by
    rw [hwrite, DemoCluster.countIn_lookup, hnamed]
    rfl
  refine ⟨_, hlookup, ?_⟩
  have h := hcounted 1 _ hlookup
  simp only [recorded_concat, tally, hwrite, hnamed, if_true] at h
  exact h

end Dolda.Demo
