/-
# `Dolda.PersistQ.Offsets` — appends to a queue from many tasks

`PersistQ::append` takes `&self`.  A call finds its partition's manager, appends
there in the steps of `Phase.step`, takes the next global offset under its lock,
and maps it; then it returns.  Each of these is one step (`Stage.step`).  The
calls share the queue and, for each partition, whether the creation lock of its
manager is taken (`SharedQueue`).

**The invariant.**  `Aligned w stored`: each manager keeps what its calls stored
(`Kept`); a call past its append has its payload where the manager said; and the
global offsets of the calls that returned `Ok`, with those drawn and not yet
mapped, are `0..globalOffset`, each once.  So a call that fails takes none, and
when no call is left in flight none is missing (`concurrent_appends_numbered`).
-/
import Dolda.PersistQ.Concurrent
import Dolda.PersistQ.Queue

namespace Dolda.PersistQ

open Memory

/-! ## Statistics -/

structure PersistQStats where
  totalRecords : Nat
  numPartitions : Nat
  totalSegments : Nat
  replicationFactor : Nat

def stats (q : PersistQ) : PersistQStats where
  totalRecords := q.globalOffset
  numPartitions := q.segmentManagers.entries.length
  totalSegments := U64.sum (q.segmentManagers.entries.map (fun entry => entry.2.segments.length))
  replicationFactor := q.config.replicationFactor

/-! ## The steps of one call -/

/-- How far a call of `append` has come. -/
inductive Stage where
  /-- Before its manager is found. -/
  | routing
  | appending (partitionId : Nat) (phase : Phase)
  /-- Appended, before the global offset is taken. -/
  | numbering (partitionId localOffset : Nat)
  /-- Before the global offset is mapped. -/
  | mapping (globalOffset partitionId localOffset : Nat)

/-- A queue that tasks share, and the partitions whose creation lock is taken. -/
structure SharedQueue where
  queue : PersistQ
  locked : Nat → Bool

def SharedQueue.put (sq : SharedQueue) (partitionId : Nat) (shared : SharedManager) :
    SharedQueue where
  queue := sq.queue.putManager partitionId shared.manager
  locked := Function.update sq.locked partitionId shared.locked

namespace Stage

/-- Where a call goes on, or what it returns, after a step of its manager. -/
def afterPhase (partitionId : Nat) : Phase ⊕ Answer → Stage ⊕ Option (Except String AppendResult)
  | .inl phase => .inl (appending partitionId phase)
  | .inr ⟨_, none⟩ => .inr none
  | .inr ⟨_, some (.error e)⟩ => .inr (some (.error e))
  | .inr ⟨_, some (.ok localOffset)⟩ => .inl (numbering partitionId localOffset)

def step (H : Hasher) (fs : Files) (startTime endTime : Nat) (data : List UInt8)
    (sq : SharedQueue) : Stage → Option ((Stage ⊕ Option (Except String AppendResult)) × SharedQueue)
  | routing =>
      -- `%` by zero panics
      if sq.queue.config.numPartitions = 0 then some (.inr none, sq)
      else
        let partitionId := partition H sq.queue.config.numPartitions data
        match sq.queue.segmentManagers.lookup partitionId with
        | none => some (.inr (some (.error (noSegmentManager partitionId))), sq)
        | some _ => some (.inl (appending partitionId .looking), sq)
  | appending partitionId phase =>
      -- managers stay in the map, so the one found is there
      match sq.queue.segmentManagers.lookup partitionId with
      | none => none
      | some manager =>
          match phase.step fs data ⟨manager, sq.locked partitionId⟩ with
          | none => none
          | some (next, shared) => some (afterPhase partitionId next, sq.put partitionId shared)
  | numbering partitionId localOffset =>
      some (.inl (mapping sq.queue.globalOffset partitionId localOffset),
        { sq with queue := { sq.queue with globalOffset := sq.queue.globalOffset + 1 } })
  | mapping globalOffset partitionId localOffset =>
      let offsetMap := sq.queue.offsetMap.insert globalOffset { partitionId, localOffset }
      let latencyUs := endTime - startTime
      some (.inr (some (.ok { globalOffset, partitionId, nodeId := partitionId, latencyUs })),
        { sq with queue := { sq.queue with offsetMap } })

end Stage

/-- A call in flight. -/
structure Caller where
  data : List UInt8
  startTime : Nat
  stage : Stage

/-- What it is to the manager of a partition. -/
def Caller.inPartition (partitionId : Nat) (c : Caller) : Option Call :=
  match c.stage with
  | .appending i phase => if i = partitionId then some ⟨c.data, phase⟩ else none
  | .routing | .numbering .. | .mapping .. => none

/-- The global offset it has drawn. -/
def Caller.drawn (c : Caller) : Option Nat :=
  match c.stage with
  | .mapping globalOffset _ _ => some globalOffset
  | .routing | .appending .. | .numbering .. => none

/-- The global offset of an answer. -/
def numberOf : Option (Except String AppendResult) → Option Nat
  | some (.ok result) => some result.globalOffset
  | _ => none

/-! ## Many calls -/

/-- A shared queue, the calls in flight, and the others' payloads and answers. -/
structure World where
  shared : SharedQueue
  calls : List Caller
  returned : List (List UInt8 × Option (Except String AppendResult))

/-- A new call, or a step of the `i`-th in flight. -/
inductive Act where
  | start (data : List UInt8) (startTime : Nat)
  | advance (i : Nat) (fs : Files) (endTime : Nat)

namespace World

def ofQueue (q : PersistQ) : World := ⟨⟨q, fun _ => false⟩, [], []⟩

def step (H : Hasher) (w : World) : Act → Option World
  | .start data startTime => some { w with calls := w.calls ++ [⟨data, startTime, .routing⟩] }
  | .advance i fs endTime =>
      match w.calls[i]? with
      | none => none
      | some c =>
          match c.stage.step H fs c.startTime endTime c.data w.shared with
          | none => none
          | some (.inl stage, shared) =>
              some { w with shared, calls := w.calls.set i { c with stage } }
          | some (.inr outcome, shared) =>
              some ⟨shared, w.calls.eraseIdx i, w.returned ++ [(c.data, outcome)]⟩

def queue (w : World) : PersistQ := w.shared.queue

/-- The calls in a partition's manager. -/
def callsIn (w : World) (partitionId : Nat) : List Call :=
  w.calls.filterMap (Caller.inPartition partitionId)

/-- The global offsets of the appends that returned `Ok`. -/
def numbers (w : World) : List Nat := w.returned.filterMap (fun x => numberOf x.2)

/-- The global offsets drawn and not yet mapped. -/
def drawn (w : World) : List Nat := w.calls.filterMap Caller.drawn

end World

/-- A payload is in one of the partition's segments, at the offset. -/
def StoredAt (q : PersistQ) (partitionId localOffset : Nat) (data : List UInt8) : Prop :=
  ∃ m, q.segmentManagers.lookup partitionId = some m ∧ ∃ s ∈ m.segments,
    localOffset + data.length ≤ s.writePos ∧ window s.mmap localOffset data.length = data

/-- What holds in every state. -/
structure World.Consistent (w : World) : Prop where
  routed : ∀ x ∈ w.returned, ∀ i, x.2 ≠ some (.error (noSegmentManager i))
  returns : ∀ x ∈ w.returned, x.2 ≠ none
  mapped : ∀ g mapping, w.queue.offsetMap.lookup g = some mapping → g < w.queue.globalOffset ∧
    mapping.partitionId ∈ List.range' 1 w.queue.config.numPartitions ∧
    ∃ data result, (data, some (.ok result)) ∈ w.returned ∧ result.globalOffset = g ∧
      result.partitionId = mapping.partitionId ∧
      StoredAt w.queue mapping.partitionId mapping.localOffset data
  numbered : (w.numbers ++ w.drawn).Perm (List.range w.queue.globalOffset)
  done : w.calls = [] → w.numbers.Perm (List.range w.numbers.length) ∧
    w.queue.stats.totalRecords = w.numbers.length

/-! ## What every step keeps

A step of one manager leaves the others as they are, and the payloads mapped stay among
those stored however these grow.  A call finds its manager, takes steps in it, and goes
on from its answer: with the next global offset, which it then maps, or back to its
caller. -/

/-- The payload is among those stored in the partition, at the offset. -/
def Among (stored : Nat → List Stored) (partitionId localOffset : Nat) (data : List UInt8) :
    Prop :=
  ∃ x ∈ stored partitionId, x.offset = localOffset ∧ x.data = data

/-- What a call at this stage counts on. -/
def Caller.Fine (n : Nat) (stored : Nat → List Stored) (c : Caller) : Prop :=
  match c.stage with
  | .routing => True
  | .appending partitionId _ => partitionId ∈ List.range' 1 n
  | .numbering partitionId localOffset | .mapping _ partitionId localOffset =>
      partitionId ∈ List.range' 1 n ∧ Among stored partitionId localOffset c.data

structure World.Aligned (w : World) (stored : Nat → List Stored) : Prop where
  numPartitions_pos : 0 < w.queue.config.numPartitions
  manager : ∀ i ∈ List.range' 1 w.queue.config.numPartitions, ∃ m,
    w.queue.segmentManagers.lookup i = some m ∧
      Kept w.queue.config.segmentSize ⟨m, w.shared.locked i⟩ (w.callsIn i) (stored i)
  fits : ∀ c ∈ w.calls, c.data.length ≤ isizeMax
  fine : ∀ c ∈ w.calls, c.Fine w.queue.config.numPartitions stored
  answered : ∀ x ∈ w.returned, (∃ result, x.2 = some (.ok result)) ∨
    ∃ e, x.2 = some (.error (fileMessage e))
  mapped : ∀ g mapping, w.queue.offsetMap.lookup g = some mapping →
    mapping.partitionId ∈ List.range' 1 w.queue.config.numPartitions ∧
    ∃ data result, (data, some (.ok result)) ∈ w.returned ∧ result.globalOffset = g ∧
      result.partitionId = mapping.partitionId ∧
      Among stored mapping.partitionId mapping.localOffset data
  numbered : (w.numbers ++ w.drawn).Perm (List.range w.queue.globalOffset)

section
variable {H : Hasher} {fs : Files} {q : PersistQ} {w w' : World} {a : Act} {c c' : Caller}
  {pre post : List Caller} {stored stored' : Nat → List Stored} {n : Nat} {data : List UInt8}

theorem Among.grown (h : ∀ i, stored i ⊆ stored' i) {i localOffset : Nat}
    (hx : Among stored i localOffset data) : Among stored' i localOffset data := by
  obtain ⟨x, hmem, hoff, hdata⟩ := hx
  exact ⟨x, h i hmem, hoff, hdata⟩

theorem Caller.Fine.grown (h : ∀ i, stored i ⊆ stored' i) (hc : c.Fine n stored) :
    c.Fine n stored' := by
  obtain ⟨data, startTime, stage⟩ := c
  cases stage with
  | routing => trivial
  | appending i phase => exact hc
  | numbering i localOffset => exact ⟨hc.1, hc.2.grown h⟩
  | mapping g i localOffset => exact ⟨hc.1, hc.2.grown h⟩

theorem subset_update (i : Nat) (xs : List Stored) :
    ∀ j, stored j ⊆ Function.update stored i (stored i ++ xs) j := by
  intro j
  by_cases hj : j = i
  · subst hj
    rw [Function.update_self]
    exact List.subset_append_left _ _
  · rw [Function.update_of_ne hj]
    exact fun _ h => h

theorem inPartition_self (data : List UInt8) (startTime i : Nat) (phase : Phase) :
    Caller.inPartition i ⟨data, startTime, .appending i phase⟩ = some ⟨data, phase⟩ := if_pos rfl

theorem inPartition_other (data : List UInt8) (startTime : Nat) {i j : Nat} (phase : Phase)
    (h : j ≠ i) : Caller.inPartition j ⟨data, startTime, .appending i phase⟩ = none := if_neg h.symm

theorem drawn_mapping (data : List UInt8) (startTime g i localOffset : Nat) :
    Caller.drawn ⟨data, startTime, .mapping g i localOffset⟩ = some g := rfl

theorem SharedQueue.put_managers {sq : SharedQueue} {i : Nat} {shared : SharedManager}
    {is : List Nat} {P Q : Nat → SharedManager → Prop}
    (h : ∀ j ∈ is, ∃ m, sq.queue.segmentManagers.lookup j = some m ∧ P j ⟨m, sq.locked j⟩)
    (hothers : ∀ j sm, j ≠ i → P j sm → Q j sm) (hi : Q i shared) :
    ∀ j ∈ is, ∃ m, (sq.put i shared).queue.segmentManagers.lookup j = some m ∧
      Q j ⟨m, (sq.put i shared).locked j⟩ := by
  intro j hj
  by_cases hji : j = i
  · subst hji
    refine ⟨shared.manager, AList.lookup_insert _, ?_⟩
    show Q j ⟨shared.manager, Function.update sq.locked j shared.locked j⟩
    rwa [Function.update_self]
  · obtain ⟨m, hlookup, hm⟩ := h j hj
    refine ⟨m, (AList.lookup_insert_ne hji).trans hlookup, ?_⟩
    show Q j ⟨m, Function.update sq.locked i shared.locked j⟩
    rw [Function.update_of_ne hji]
    exact hothers j _ hji hm

/-- A segment that could not be created is not a manager that is missing. -/
theorem fileMessage_ne_noSegmentManager (e : FileError) (i : Nat) :
    fileMessage e ≠ noSegmentManager i := by
  intro h
  have hhead : (noSegmentManager i).toList.head? = some 'N' := by
    show (_ ++ toString i).toList.head? = _
    rw [String.toList_append, List.head?_append]
    rfl
  rw [← h, fileMessage_head] at hhead
  exact absurd hhead (by decide)

namespace World

theorem Aligned.mapped_grown (h : w.Aligned stored) (hgrown : ∀ i, stored i ⊆ stored' i) :
    ∀ g mapping, w.queue.offsetMap.lookup g = some mapping →
      mapping.partitionId ∈ List.range' 1 w.queue.config.numPartitions ∧
      ∃ data result, (data, some (.ok result)) ∈ w.returned ∧ result.globalOffset = g ∧
        result.partitionId = mapping.partitionId ∧
        Among stored' mapping.partitionId mapping.localOffset data := by
  intro g mapping hlookup
  obtain ⟨hmem, data, result, hret, hg, hi, hamong⟩ := h.mapped g mapping hlookup
  exact ⟨hmem, data, result, hret, hg, hi, hamong.grown hgrown⟩

theorem Aligned.routing (h : w.Aligned stored) {startTime endTime : Nat}
    (hcalls : w.calls = pre ++ ⟨data, startTime, .routing⟩ :: post) :
    ∃ i, Stage.step H fs startTime endTime data w.shared .routing =
        some (.inl (.appending i .looking), w.shared) ∧
      Aligned { w with calls := pre ++ ⟨data, startTime, .appending i .looking⟩ :: post }
        stored := by
  have hfits := h.fits
  have hfine := h.fine
  have hnumbered := h.numbered
  rw [hcalls] at hfits hfine
  rw [drawn, hcalls] at hnumbered
  have hdata := hfits _ (List.mem_append_right _ List.mem_cons_self)
  have hmem := partition_mem (H := H) h.numPartitions_pos data
  obtain ⟨m, hlookup, -⟩ := h.manager _ hmem
  have hlookup : w.shared.queue.segmentManagers.lookup
      (partition H w.shared.queue.config.numPartitions data) = some m := hlookup
  have hpos : w.shared.queue.config.numPartitions ≠ 0 := h.numPartitions_pos.ne'
  refine ⟨partition H w.queue.config.numPartitions data, ?_,
    { h with manager := ?_, fits := ?_, fine := ?_, numbered := ?_ }⟩
  · simp only [Stage.step, if_neg hpos, hlookup]
    rfl
  · intro j hj
    obtain ⟨m, hlookup, hkept⟩ := h.manager j hj
    refine ⟨m, hlookup, ?_⟩
    rw [callsIn, hcalls, Lts.filterMap_left rfl] at hkept
    rw [callsIn]
    by_cases hji : j = partition H w.queue.config.numPartitions data
    · subst hji
      rw [Lts.filterMap_here (inPartition_self _ _ _ _)]
      exact hkept.started hdata
    · rwa [Lts.filterMap_left (inPartition_other _ _ _ hji)]
  · exact Lts.forall_moved (Lts.forall_others hfits) hdata
  · exact Lts.forall_moved (Lts.forall_others hfine) hmem
  · rw [drawn]
    rwa [Lts.filterMap_left rfl] at hnumbered ⊢

theorem Aligned.managers (h : w.Aligned stored) {i : Nat} {shared : SharedManager}
    {xs : List Stored} {calls : List Caller}
    (hkept : Kept w.queue.config.segmentSize shared (calls.filterMap (Caller.inPartition i))
      (stored i ++ xs))
    (hothers : ∀ j, j ≠ i → calls.filterMap (Caller.inPartition j) = w.callsIn j) :
    ∀ j ∈ List.range' 1 w.queue.config.numPartitions, ∃ m,
      (w.shared.put i shared).queue.segmentManagers.lookup j = some m ∧
        Kept w.queue.config.segmentSize ⟨m, (w.shared.put i shared).locked j⟩
          (calls.filterMap (Caller.inPartition j))
          (Function.update stored i (stored i ++ xs) j) := by
  refine SharedQueue.put_managers
    (P := fun j sm => Kept w.queue.config.segmentSize sm (w.callsIn j) (stored j))
    (Q := fun j sm => Kept w.queue.config.segmentSize sm (calls.filterMap (Caller.inPartition j))
      (Function.update stored i (stored i ++ xs) j)) h.manager ?_ ?_
  · intro j sm hji hsm
    rw [hothers j hji, Function.update_of_ne hji]
    exact hsm
  · rw [Function.update_self]
    exact hkept

theorem Aligned.advanced (h : w.Aligned stored) {startTime i : Nat} {phase : Phase} {stage : Stage}
    (hcalls : w.calls = pre ++ ⟨data, startTime, .appending i phase⟩ :: post)
    {shared : SharedManager} {xs : List Stored}
    (hkept : Kept w.queue.config.segmentSize shared
      ((pre ++ ⟨data, startTime, stage⟩ :: post).filterMap (Caller.inPartition i)) (stored i ++ xs))
    (hother : ∀ j, j ≠ i → Caller.inPartition j ⟨data, startTime, stage⟩ = none)
    (hdrawn : Caller.drawn ⟨data, startTime, stage⟩ = none)
    (hstage : Caller.Fine w.queue.config.numPartitions
      (Function.update stored i (stored i ++ xs)) ⟨data, startTime, stage⟩) :
    Aligned { w with
      shared := w.shared.put i shared
      calls := pre ++ ⟨data, startTime, stage⟩ :: post }
        (Function.update stored i (stored i ++ xs)) := by
  have hgrown : ∀ j, stored j ⊆ Function.update stored i (stored i ++ xs) j := subset_update i xs
  have hfits := h.fits
  have hfine := h.fine
  have hnumbered := h.numbered
  rw [hcalls] at hfits hfine
  rw [drawn, hcalls, Lts.filterMap_left rfl] at hnumbered
  have hdata := hfits _ (List.mem_append_right _ List.mem_cons_self)
  refine { h with
    manager := h.managers hkept ?_, fits := ?_, fine := ?_,
    mapped := h.mapped_grown hgrown, numbered := ?_ }
  · intro j hji
    rw [callsIn, hcalls, Lts.filterMap_left (inPartition_other _ _ _ hji),
      Lts.filterMap_left (hother j hji)]
  · exact Lts.forall_moved (Lts.forall_others hfits) hdata
  · exact Lts.forall_moved (fun c hc => (Lts.forall_others hfine c hc).grown hgrown) hstage
  · rw [drawn, Lts.filterMap_left hdrawn]
    exact hnumbered

theorem Aligned.refused (h : w.Aligned stored) {startTime i : Nat} {phase : Phase}
    (hcalls : w.calls = pre ++ ⟨data, startTime, .appending i phase⟩ :: post)
    {shared : SharedManager} (e : FileError)
    (hkept : Kept w.queue.config.segmentSize shared
      ((pre ++ post).filterMap (Caller.inPartition i)) (stored i ++ [])) :
    Aligned ⟨w.shared.put i shared, pre ++ post,
      w.returned ++ [(data, some (.error (fileMessage e)))]⟩
        (Function.update stored i (stored i ++ [])) := by
  have hgrown : ∀ j, stored j ⊆ Function.update stored i (stored i ++ []) j := subset_update i []
  have hfits := h.fits
  have hfine := h.fine
  have hnumbered := h.numbered
  rw [hcalls] at hfits hfine
  rw [drawn, hcalls, Lts.filterMap_left rfl] at hnumbered
  refine { h with
    manager := h.managers hkept ?_, fits := Lts.forall_others hfits, fine := ?_,
    answered := ?_, mapped := ?_, numbered := ?_ }
  · intro j hji
    rw [callsIn, hcalls, Lts.filterMap_left (inPartition_other _ _ _ hji), List.filterMap_append]
  · exact fun c hc => (Lts.forall_others hfine c hc).grown hgrown
  · exact List.forall_mem_append.mpr
      ⟨h.answered, List.forall_mem_singleton.mpr (Or.inr ⟨e, rfl⟩)⟩
  · intro g mapping hlookup
    obtain ⟨hmem, data, result, hret, hrest⟩ := h.mapped_grown hgrown g mapping hlookup
    exact ⟨hmem, data, result, List.mem_append_left _ hret, hrest⟩
  · rw [drawn, numbers, List.filterMap_append, List.filterMap_append,
      List.filterMap_cons_none rfl, List.filterMap_nil, List.append_nil]
    exact hnumbered

theorem Aligned.numbering (h : w.Aligned stored) {startTime i localOffset : Nat}
    (hcalls : w.calls = pre ++ ⟨data, startTime, .numbering i localOffset⟩ :: post) :
    Aligned { w with
      shared := { w.shared with
        queue := { w.queue with globalOffset := w.queue.globalOffset + 1 } }
      calls := pre ++ ⟨data, startTime, .mapping w.queue.globalOffset i localOffset⟩ :: post }
        stored := by
  have hfits := h.fits
  have hfine := h.fine
  have hnumbered := h.numbered
  rw [hcalls] at hfits hfine
  rw [drawn, hcalls, Lts.filterMap_left rfl] at hnumbered
  have hdata := hfits _ (List.mem_append_right _ List.mem_cons_self)
  have hc := hfine _ (List.mem_append_right _ List.mem_cons_self)
  refine { h with manager := ?_, fits := ?_, fine := ?_, numbered := ?_ }
  · intro j hj
    obtain ⟨m, hlookup, hkept⟩ := h.manager j hj
    refine ⟨m, hlookup, ?_⟩
    rw [callsIn, hcalls, Lts.filterMap_left rfl] at hkept
    rwa [callsIn, Lts.filterMap_left rfl]
  · exact Lts.forall_moved (Lts.forall_others hfits) hdata
  · exact Lts.forall_moved (Lts.forall_others hfine) hc
  · show (w.numbers ++ (pre ++ _ :: post).filterMap Caller.drawn).Perm
      (List.range (w.queue.globalOffset + 1))
    rw [Lts.filterMap_here (drawn_mapping _ _ _ _ _), List.range_succ, ← List.append_assoc]
    rw [← List.append_assoc] at hnumbered
    exact List.perm_middle.trans ((hnumbered.cons _).trans (List.perm_append_singleton _ _).symm)

theorem Aligned.mapping (h : w.Aligned stored) {startTime g i localOffset : Nat}
    (hcalls : w.calls = pre ++ ⟨data, startTime, .mapping g i localOffset⟩ :: post)
    {result : AppendResult} (hoffset : result.globalOffset = g) (hpart : result.partitionId = i) :
    Aligned
      ⟨{ w.shared with
          queue := { w.queue with offsetMap := w.queue.offsetMap.insert g ⟨i, localOffset⟩ } },
        pre ++ post, w.returned ++ [(data, some (.ok result))]⟩ stored := by
  have hfits := h.fits
  have hfine := h.fine
  have hnumbered := h.numbered
  rw [hcalls] at hfits hfine
  rw [drawn, hcalls, Lts.filterMap_here (drawn_mapping _ _ _ _ _)] at hnumbered
  obtain ⟨hmem, hamong⟩ := hfine _ (List.mem_append_right _ List.mem_cons_self)
  refine { h with
    manager := ?_, fits := Lts.forall_others hfits, fine := Lts.forall_others hfine,
    answered := ?_, mapped := ?_, numbered := ?_ }
  · intro j hj
    obtain ⟨m, hlookup, hkept⟩ := h.manager j hj
    refine ⟨m, hlookup, ?_⟩
    rw [callsIn, hcalls, Lts.filterMap_left rfl] at hkept
    rwa [callsIn, List.filterMap_append]
  · exact List.forall_mem_append.mpr
      ⟨h.answered, List.forall_mem_singleton.mpr (Or.inl ⟨result, rfl⟩)⟩
  · intro g' mapping hlookup
    have hlookup : (w.queue.offsetMap.insert g ⟨i, localOffset⟩).lookup g' = some mapping := hlookup
    by_cases hg : g' = g
    · subst hg
      rw [AList.lookup_insert] at hlookup
      cases hlookup
      exact ⟨hmem, data, result, List.mem_append_right _ List.mem_cons_self, hoffset, hpart, hamong⟩
    · rw [AList.lookup_insert_ne hg] at hlookup
      obtain ⟨hmem, data, result, hret, hrest⟩ := h.mapped g' mapping hlookup
      exact ⟨hmem, data, result, List.mem_append_left _ hret, hrest⟩
  · rw [numbers, drawn, List.filterMap_append, List.filterMap_append]
    have hone : [(data, some (.ok result))].filterMap
        (fun x : List UInt8 × Option (Except String AppendResult) => numberOf x.2) = [g] := by
      rw [← hoffset]
      rfl
    rw [hone, List.append_assoc, List.singleton_append]
    exact (List.perm_middle.symm.append_left _).trans hnumbered

/-- Where a step of a call leads: it is still in flight, or has returned. -/
def Leads (w : World) (pre post : List Caller) (c : Caller)
    (x : (Stage ⊕ Option (Except String AppendResult)) × SharedQueue) : Prop :=
  ∃ stored, (∃ stage, x.1 = .inl stage ∧
      Aligned { w with shared := x.2, calls := pre ++ { c with stage } :: post } stored) ∨
    ∃ outcome, x.1 = .inr outcome ∧
      Aligned ⟨x.2, pre ++ post, w.returned ++ [(c.data, outcome)]⟩ stored

theorem Aligned.appending (h : w.Aligned stored) {startTime endTime i : Nat} {phase : Phase}
    (hcalls : w.calls = pre ++ ⟨data, startTime, .appending i phase⟩ :: post)
    {x : (Stage ⊕ Option (Except String AppendResult)) × SharedQueue}
    (hstep : Stage.step H fs startTime endTime data w.shared (.appending i phase) = some x) :
    x.2.queue.config = w.queue.config ∧
      w.Leads pre post ⟨data, startTime, .appending i phase⟩ x := by
  have hmem : i ∈ List.range' 1 w.queue.config.numPartitions :=
    h.fine ⟨data, startTime, .appending i phase⟩
      (hcalls ▸ List.mem_append_right _ List.mem_cons_self)
  obtain ⟨m, hlookup, hkept⟩ := h.manager i hmem
  have hlookup : w.shared.queue.segmentManagers.lookup i = some m := hlookup
  rw [callsIn, hcalls, Lts.filterMap_here (inPartition_self _ _ _ _)] at hkept
  cases hphase : phase.step fs data ⟨m, w.shared.locked i⟩ with
  | none =>
      simp only [Stage.step, hlookup, hphase] at hstep
      cases hstep
  | some y =>
      simp only [Stage.step, hlookup, hphase] at hstep
      cases hstep
      refine ⟨rfl, ?_⟩
      obtain ⟨next, shared⟩ := y
      rcases hkept.step hphase with ⟨phase', rfl, hkept⟩ | ⟨answer, rfl, hgood, hkept⟩
      · rw [← List.append_nil (stored i),
          ← Lts.filterMap_here (inPartition_self data startTime i phase')] at hkept
        exact ⟨_, Or.inl ⟨_, rfl, h.advanced hcalls hkept
          (fun j hji => inPartition_other _ _ _ hji) rfl hmem⟩⟩
      · cases hgood with
        | stored segment offset =>
            have hnone : Caller.inPartition i ⟨data, startTime, .numbering i offset⟩ = none := rfl
            rw [← Lts.filterMap_left hnone] at hkept
            refine ⟨_, Or.inl ⟨_, rfl, h.advanced hcalls hkept (fun _ _ => rfl) rfl ⟨hmem, ?_⟩⟩⟩
            refine ⟨⟨segment, offset, data⟩, ?_, rfl, rfl⟩
            rw [Function.update_self]
            exact List.mem_append_right _ List.mem_cons_self
        | refused e =>
            rw [← List.filterMap_append] at hkept
            exact ⟨_, Or.inr ⟨_, rfl, h.refused hcalls e hkept⟩⟩

/-- **The spec of a step of one call.** -/
theorem Aligned.leads (h : w.Aligned stored) {endTime : Nat} (hcalls : w.calls = pre ++ c :: post)
    {x : (Stage ⊕ Option (Except String AppendResult)) × SharedQueue}
    (hstep : c.stage.step H fs c.startTime endTime c.data w.shared = some x) :
    x.2.queue.config = w.queue.config ∧ w.Leads pre post c x := by
  obtain ⟨data, startTime, stage⟩ := c
  cases stage with
  | routing =>
      have hrouting : ∃ i, Stage.step H fs startTime endTime data w.shared .routing = _ ∧ _ :=
        h.routing hcalls
      obtain ⟨i, hstage, hnext⟩ := hrouting
      cases hstep.symm.trans hstage
      exact ⟨rfl, stored, Or.inl ⟨_, rfl, hnext⟩⟩
  | appending i phase => exact h.appending hcalls hstep
  | numbering i localOffset =>
      cases hstep
      exact ⟨rfl, stored, Or.inl ⟨_, rfl, h.numbering hcalls⟩⟩
  | mapping g i localOffset =>
      cases hstep
      exact ⟨rfl, stored, Or.inr ⟨_, rfl, h.mapping hcalls rfl rfl⟩⟩

theorem Aligned.started (h : w.Aligned stored) (hdata : data.length ≤ isizeMax)
    (startTime : Nat) :
    Aligned { w with calls := w.calls ++ [⟨data, startTime, .routing⟩] } stored := by
  have hnumbered := h.numbered
  refine { h with manager := ?_, fits := ?_, fine := ?_, numbered := ?_ }
  · intro i hi
    obtain ⟨m, hlookup, hkept⟩ := h.manager i hi
    refine ⟨m, hlookup, ?_⟩
    rwa [callsIn, Lts.filterMap_left rfl, List.filterMap_nil, List.append_nil]
  · exact List.forall_mem_append.mpr ⟨h.fits, List.forall_mem_singleton.mpr hdata⟩
  · exact List.forall_mem_append.mpr ⟨h.fine, List.forall_mem_singleton.mpr trivial⟩
  · rwa [drawn, Lts.filterMap_left rfl, List.filterMap_nil, List.append_nil]

/-- **The step lemma.** -/
theorem Aligned.step (h : w.Aligned stored)
    (hok : ∀ data startTime, a = .start data startTime → data.length ≤ isizeMax)
    (hstep : w.step H a = some w') :
    w'.queue.config = w.queue.config ∧ ∃ stored', w'.Aligned stored' := by
  cases a with
  | start data startTime =>
      cases hstep
      exact ⟨rfl, stored, h.started (hok data startTime rfl) startTime⟩
  | advance k fs endTime =>
      cases hcall : w.calls[k]? with
      | none =>
          simp only [World.step, hcall] at hstep
          cases hstep
      | some c =>
          obtain ⟨pre, post, hcalls, hset, herase⟩ := Lts.exists_split hcall
          cases hstage : c.stage.step H fs c.startTime endTime c.data w.shared with
          | none =>
              simp only [World.step, hcall, hstage] at hstep
              cases hstep
          | some x =>
              obtain ⟨next, shared⟩ := x
              obtain ⟨hconfig, stored', ⟨stage, rfl, hnext⟩ | ⟨outcome, rfl, hnext⟩⟩ :=
                h.leads hcalls hstage
              · simp only [World.step, hcall, hstage, hset] at hstep
                cases hstep
                exact ⟨hconfig, stored', hnext⟩
              · simp only [World.step, hcall, hstage, herase] at hstep
                cases hstep
                exact ⟨hconfig, stored', hnext⟩

/-- **The run lemma.** -/
theorem Aligned.run (h : w.Aligned stored) {acts : List Act}
    (hslices : ∀ a ∈ acts, ∀ data startTime, a = .start data startTime → data.length ≤ isizeMax)
    (hrun : Lts.run (World.step H) w acts = some w') : ∃ stored', w'.Aligned stored' := by
  have hok : Lts.Guarded (World.step H) (fun _ a => True ∧ ∀ data startTime,
      a = .start data startTime → data.length ≤ isizeMax) w acts :=
    (Lts.Guarded.of_forall (fun _ _ => trivial) acts w).and_forall hslices
  refine Lts.Guarded.invariant (fun w : World => ∃ stored, w.Aligned stored) ?_ ⟨stored, h⟩ hok hrun
  rintro w a w' ⟨stored, h⟩ ⟨-, hdata⟩ hstep
  exact (h.step hdata hstep).2

/-! ## What it gives

What is kept among a partition's payloads is in one of its segments, and a global offset
answered is below the counter. -/

theorem Aligned.storedAt (h : w.Aligned stored) {i localOffset : Nat}
    (hi : i ∈ List.range' 1 w.queue.config.numPartitions)
    (hamong : Among stored i localOffset data) : StoredAt w.queue i localOffset data := by
  obtain ⟨m, hlookup, hkept⟩ := h.manager i hi
  obtain ⟨x, hx, rfl, rfl⟩ := hamong
  obtain ⟨before, after, hsplit⟩ := List.append_of_mem hx
  obtain ⟨s, hs, hin, hwindow⟩ := hkept.stored_at hsplit
  exact ⟨m, hlookup, s, List.mem_of_getElem? hs, hin, hwindow⟩

theorem Aligned.number_lt (h : w.Aligned stored) {result : AppendResult}
    (hret : (data, some (.ok result)) ∈ w.returned) : result.globalOffset < w.queue.globalOffset := by
  have hmem : result.globalOffset ∈ w.numbers := List.mem_filterMap.mpr ⟨_, hret, rfl⟩
  exact List.mem_range.mp (h.numbered.mem_iff.mp (List.mem_append_left _ hmem))

theorem Aligned.consistent (h : w.Aligned stored) : w.Consistent where
  routed := by
    intro x hx i hrefused
    rcases h.answered x hx with ⟨result, hok⟩ | ⟨e, herr⟩
    · cases hok.symm.trans hrefused
    · exact fileMessage_ne_noSegmentManager e i
        (Except.error.inj (Option.some.inj (herr.symm.trans hrefused)))
  returns := by
    intro x hx hnone
    rcases h.answered x hx with ⟨result, hok⟩ | ⟨e, herr⟩
    · cases hok.symm.trans hnone
    · cases herr.symm.trans hnone
  mapped := by
    intro g mapping hlookup
    obtain ⟨hmem, data, result, hret, hg, hi, hamong⟩ := h.mapped g mapping hlookup
    exact ⟨hg ▸ h.number_lt hret, hmem, data, result, hret, hg, hi, h.storedAt hmem hamong⟩
  numbered := h.numbered
  done := by
    intro hcalls
    have hnumbered := h.numbered
    rw [drawn, hcalls, List.filterMap_nil, List.append_nil] at hnumbered
    have hlen : w.numbers.length = w.queue.globalOffset := by
      rw [hnumbered.length_eq, List.length_range]
    exact ⟨hlen ▸ hnumbered, hlen.symm⟩

theorem Aligned.new {paths : Paths} {config : PersistQConfig}
    (hnew : PersistQ.new fs paths config = .ok q) : Aligned (ofQueue q) (fun _ => []) := by
  obtain ⟨hvalid, ⟨path, hconfig⟩, hoffset, hmap, hmanagers⟩ := new_ok hnew
  refine ⟨?_, ?_, ?_, ?_, ?_, ?_, ?_⟩
  · show 0 < q.config.numPartitions
    rw [hconfig]
    exact hvalid.numPartitions_pos
  · intro i hi
    obtain ⟨m, hlookup, hm⟩ := hmanagers i hi
    exact ⟨m, hlookup, Kept.new hm⟩
  · intro c hc
    cases hc
  · intro c hc
    cases hc
  · intro x hx
    cases hx
  · intro g mapping hlookup
    have hlookup : q.offsetMap.lookup g = some mapping := hlookup
    rw [hmap, AList.lookup_empty] at hlookup
    cases hlookup
  · show ([] : List Nat).Perm (List.range q.globalOffset)
    rw [hoffset]
    exact List.Perm.nil

end World

end

/-- The queue of `smallConfig`, its one segment empty. -/
def smallQueue : PersistQ where
  segmentManagers := AList.insert 1
    { partitionId := 1
      segments :=
        [{ maxSize := 1024
           writePos := 0
           mmap := resize [] 1024
           mmap_length := resize_length [] 1024
           maxSize_le := by decide
           path := "data/partition_1_segment_0.dat" }]
      currentSegment := some 0
      segmentSize := 1024
      storageDir := "data" } ∅
  globalOffset := 0
  offsetMap := ∅
  config := smallConfig

theorem smallQueue_new :
    PersistQ.new Files.fresh Paths.plain smallConfig = .ok smallQueue := by
  rw [PersistQ.new, (PersistQConfig.validateConfig_ok_iff _).mpr smallConfig_valid]
  rfl

/-- **Concurrent appends to a queue.**  In every state that an interleaving of any
number of appends, of payloads no longer than a segment, brings a new queue to,
segments, counter and map agree; and once all have returned, those that returned
`Ok` have the global offsets from 0 on, each once. -/
theorem concurrent_appends_numbered (H : Hasher) (fs : Files) (paths : Paths)
    (config : PersistQConfig) (q : PersistQ) (hnew : PersistQ.new fs paths config = .ok q)
    (acts : List Act)
    (hfit : ∀ data startTime, Act.start data startTime ∈ acts → data.length ≤ config.segmentSize)
    (w : World) (hrun : Lts.run (World.step H) (World.ofQueue q) acts = some w) :
    w.Consistent := by
  obtain ⟨hvalid, -⟩ := new_ok hnew
  have hsize : config.segmentSize ≤ isizeMax := hvalid.segmentSize_le.trans (by decide)
  have hslices : ∀ a ∈ acts, ∀ data startTime, a = Act.start data startTime →
      data.length ≤ isizeMax := by
    rintro a ha data startTime rfl
    exact (hfit data startTime ha).trans hsize
  obtain ⟨stored, h⟩ := (World.Aligned.new hnew).run hslices hrun
  exact h.consistent

/-- Two appends, of which the second to be stored is the first to be numbered. -/
theorem concurrent_appends_numbered_two : ∃ q w,
    PersistQ.new Files.fresh Paths.plain smallConfig = .ok q ∧
    Lts.run (World.step crc32Hasher) (World.ofQueue q)
      [.start [65, 66] 0, .start [67] 1, .advance 0 Files.fresh 2, .advance 1 Files.fresh 2,
        .advance 0 Files.fresh 2, .advance 0 Files.fresh 2, .advance 1 Files.fresh 2,
        .advance 1 Files.fresh 2, .advance 1 Files.fresh 3, .advance 0 Files.fresh 3,
        .advance 0 Files.fresh 4, .advance 0 Files.fresh 5] = some w ∧
    w.calls = [] ∧ w.numbers = [1, 0] ∧ w.Consistent := by
  let acts : List Act :=
    [.start [65, 66] 0, .start [67] 1, .advance 0 Files.fresh 2, .advance 1 Files.fresh 2,
      .advance 0 Files.fresh 2, .advance 0 Files.fresh 2, .advance 1 Files.fresh 2,
      .advance 1 Files.fresh 2, .advance 1 Files.fresh 3, .advance 0 Files.fresh 3,
      .advance 0 Files.fresh 4, .advance 0 Files.fresh 5]
  have hends : (Lts.run (World.step crc32Hasher) (World.ofQueue smallQueue) acts).map
      (fun w => (w.calls.length, w.numbers)) = some (0, [1, 0]) := by decide +kernel
  obtain ⟨w, hrun, hw⟩ := Option.map_eq_some_iff.mp hends
  obtain ⟨hcalls, hnumbers⟩ := Prod.mk.inj hw
  refine ⟨smallQueue, w, smallQueue_new, hrun, List.length_eq_zero_iff.mp hcalls, hnumbers, ?_⟩
  refine concurrent_appends_numbered crc32Hasher Files.fresh Paths.plain smallConfig smallQueue
    smallQueue_new acts ?_ w hrun
  intro data startTime hmem
  have hmem : Act.start data startTime = .start [65, 66] 0 ∨
      Act.start data startTime = .start [67] 1 := by simpa [acts] using hmem
  rcases hmem with h | h
  · cases h
    decide
  · cases h
    decide

end Dolda.PersistQ
