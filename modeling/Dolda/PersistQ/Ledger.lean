/-
# `Dolda.PersistQ.Ledger` — a queue of one partition

A mailbox's queue has one partition, and nothing bounds what is appended to it: a
payload longer than a segment opens segments until no more can be created, and
leaves them empty behind it.  So what such a queue holds is said without the
packing of its payloads, by the segment each of them went to.

`q.Keeps entries`: the queue after acknowledging the payloads of `entries`.  A
segment holds those that went there, one behind the other (`inSegment`), and a
global offset is the place of a payload in order, mapped to where it begins in
its segment.  A read sees what the first segment holds from there on
(`Keeps.read_placed`).
-/
import Dolda.PersistQ.Queue

namespace Dolda.PersistQ

open NextFit (Packing)

/-- A payload, and the segment that was current when it had been appended. -/
structure Entry where
  segment : Option Nat
  payload : List UInt8

/-- What of the entries is in a segment. -/
def inSegment (segment : Option Nat) (entries : List Entry) : List UInt8 :=
  ((entries.filter (fun e => e.segment = segment)).map Entry.payload).flatten

section
variable {cap : Nat} {fs : Files} {data : List UInt8} {segment : Option Nat} {e : Entry}
  {entries : List Entry}

theorem inSegment_append (before after : List Entry) :
    inSegment segment (before ++ after) = inSegment segment before ++ inSegment segment after := by
  rw [inSegment, List.filter_append, List.map_append, List.flatten_append]
  rfl

theorem inSegment_cons_same (h : e.segment = segment) (entries : List Entry) :
    inSegment segment (e :: entries) = e.payload ++ inSegment segment entries := by
  simp only [inSegment, List.filter_cons, h, decide_true, if_true, List.map_cons, List.flatten_cons]

theorem inSegment_cons_other (h : e.segment ≠ segment) (entries : List Entry) :
    inSegment segment (e :: entries) = inSegment segment entries := by
  simp only [inSegment, List.filter_cons, h, decide_false, Bool.false_eq_true, if_false]

/-- A segment has none of the entries iff none went there. -/
theorem inSegment_eq_nil_iff (h : ∀ e ∈ entries, e.payload ≠ []) :
    inSegment segment entries = [] ↔ ∀ e ∈ entries, e.segment ≠ segment := by
  induction entries with
  | nil => exact iff_of_true rfl (fun e he => absurd he List.not_mem_nil)
  | cons e entries ih =>
      rw [List.forall_mem_cons]
      have hrest := ih (fun e' he' => h e' (List.mem_cons_of_mem e he'))
      by_cases hsame : e.segment = segment
      · rw [inSegment_cons_same hsame]
        refine iff_of_false ?_ (fun hnone => hnone.1 hsame)
        exact List.append_ne_nil_of_left_ne_nil (h e List.mem_cons_self) _
      · rw [inSegment_cons_other hsame, hrest]
        exact (and_iff_right hsame).symm

/-! ## The manager -/

namespace SegmentManager

variable {m m' : SegmentManager} {p : Packing UInt8}

theorem Holds.currentSegment (h : m.Holds cap p) : m.currentSegment = some p.full.length := by
  obtain ⟨full, segment, -, hfull, -, hcur⟩ := h.segments
  rw [hcur, hfull.length_eq]

/-- The bins hold what is in the segments. -/
def Binned (p : Packing UInt8) (entries : List Entry) : Prop :=
  ∀ i, p.bin i = inSegment (some i) entries

/-- What an append of a payload leaves, if the segments held `entries`: a payload
acknowledged is at the end of the current segment. -/
def Appends (cap : Nat) (entries : List Entry) (data : List UInt8) :
    Option (Except String Nat) × SegmentManager → Prop
  | (some (.ok offset), m) => ∃ p, m.Holds cap (p.extended data) ∧ Binned p entries ∧
      offset = p.last.length
  | (_, m) => ∃ p, m.Holds cap p ∧ Binned p entries

/-- **An append of any length**, however many rounds it takes. -/
theorem Holds.returns (h : m.Holds cap p) (hbinned : Binned p entries)
    (hsize : data.length ≤ isizeMax) {result : Option (Except String Nat)}
    (hret : Loop.Returns (appendTurn fs data) m (result, m')) :
    Appends cap entries data (result, m') := by
  refine Loop.Returns.post
    (fun m : SegmentManager => ∃ p : Packing UInt8, m.Holds cap p ∧ Binned p entries)
    (Appends cap entries data) ?_ ?_ ⟨p, h, hbinned⟩ hret
  · rintro m₁ m₂ ⟨p', h', hbinned'⟩ hturn
    by_cases hfit : p'.Fits cap data
    · obtain ⟨m₃, hturn', -⟩ := h'.appendTurn_fits fs hsize hfit
      cases hturn.symm.trans hturn'
    · rw [h'.appendTurn_full fs hsize hfit] at hturn
      split at hturn
      · cases hturn
      · rename_i hnew
        cases hturn
        exact ⟨_, (h'.created hnew).1, fun i => (p'.bin_opened i).trans (hbinned' i)⟩
  · rintro m₁ x ⟨p', h', hbinned'⟩ hturn
    by_cases hfit : p'.Fits cap data
    · obtain ⟨m₂, hturn', hholds, -⟩ := h'.appendTurn_fits fs hsize hfit
      cases hturn.symm.trans hturn'
      exact ⟨p', hholds, hbinned', rfl⟩
    · rw [h'.appendTurn_full fs hsize hfit] at hturn
      split at hturn
      · cases hturn
        exact ⟨p', h', hbinned'⟩
      · cases hturn

theorem Binned.extended (h : Binned p entries) (data : List UInt8) :
    Binned (p.extended data)
      (entries ++ [{ segment := some p.full.length, payload := data }]) := by
  intro i
  rw [Packing.bin_extended, inSegment_append, h i]
  refine congrArg _ ?_
  split
  · rename_i hi
    rw [inSegment_cons_same (by rw [hi])]
    exact (List.append_nil data).symm
  · rename_i hi
    rw [inSegment_cons_other (fun heq => hi (Option.some.inj heq).symm)]
    rfl

end SegmentManager

/-! ## The queue

The entries are the payloads acknowledged, in order, each with the segment it went to;
an append that fails enters nothing, though it may have created segments.  So what a read
sees is said by the entries alone. -/

/-- The current segment of a queue of one partition. -/
def currentSegment (q : PersistQ) : Option Nat :=
  match q.segmentManagers.lookup 1 with
  | none => none
  | some manager => manager.currentSegment

/-- The entry an append makes that left the queue `q`. -/
def entered (q : PersistQ) (data : List UInt8) :
    Option (Except String AppendResult) → List Entry
  | some (.ok _) => [{ segment := q.currentSegment, payload := data }]
  | _ => []

variable {H : Hasher} {q q' : PersistQ} {before after : List Entry}

structure Keeps (q : PersistQ) (entries : List Entry) : Prop where
  numPartitions : q.config.numPartitions = 1
  manager : ∃ m p, q.segmentManagers.lookup 1 = some m ∧ m.Holds q.config.segmentSize p ∧
    SegmentManager.Binned p entries
  globalOffset : q.globalOffset = entries.length
  unmapped : ∀ g, entries.length ≤ g → q.offsetMap.lookup g = none
  located : ∀ before e after, entries = before ++ e :: after →
    q.offsetMap.lookup before.length =
      some { partitionId := 1, localOffset := (inSegment e.segment before).length }

theorem new_keeps {paths : Paths} {config : PersistQConfig}
    (h : PersistQ.new fs paths config = .ok q) (hone : config.numPartitions = 1) :
    q.Keeps [] := by
  obtain ⟨hholds, -, path, hconfig⟩ := new_holds (H := crc32Hasher) h
  have hpartitions : q.config.numPartitions = 1 := by rw [hconfig, hone]
  refine ⟨hpartitions, ?_, hholds.globalOffset, hholds.unmapped, ?_⟩
  · obtain ⟨m, hlookup, hm⟩ := hholds.manager 1 (by rw [hpartitions]; decide)
    refine ⟨m, _, hlookup, hm, ?_⟩
    intro i
    cases i with
    | zero => rfl
    | succ i => rfl
  · intro before e after hsplit
    cases List.append_ne_nil_of_right_ne_nil before (List.cons_ne_nil e after) hsplit.symm

theorem Keeps.refused (h : q.Keeps entries) {m : SegmentManager} {p : Packing UInt8}
    (hm : m.Holds q.config.segmentSize p) (hbinned : SegmentManager.Binned p entries) :
    (q.putManager 1 m).Keeps entries :=
  ⟨h.numPartitions, ⟨m, p, AList.lookup_insert _, hm, hbinned⟩, h.globalOffset, h.unmapped,
    h.located⟩

theorem Keeps.acknowledged (h : q.Keeps entries) {m : SegmentManager} {offset : Nat}
    (hm : SegmentManager.Appends q.config.segmentSize entries data (some (.ok offset), m)) :
    ((q.putManager 1 m).assign { partitionId := 1, localOffset := offset }).2.Keeps
      (entries ++ [{ segment := m.currentSegment, payload := data }]) := by
  obtain ⟨p, hholds, hbinned, rfl⟩ := hm
  have hcur : m.currentSegment = some p.full.length := hholds.currentSegment
  rw [hcur]
  refine ⟨h.numPartitions, ⟨m, _, AList.lookup_insert _, hholds, hbinned.extended data⟩, ?_, ?_, ?_⟩
  · show q.globalOffset + 1 = _
    rw [h.globalOffset, List.length_append, List.length_singleton]
  · intro g hg
    rw [List.length_append, List.length_singleton] at hg
    have hne : g ≠ q.globalOffset := by
      rw [h.globalOffset]
      omega
    exact (AList.lookup_insert_ne hne).trans (h.unmapped g (by omega))
  · intro before e after hsplit
    rcases List.eq_nil_or_concat after with rfl | ⟨after, last, rfl⟩
    · obtain ⟨rfl, hlast⟩ := List.append_inj' hsplit rfl
      cases hlast
      rw [← h.globalOffset, ← hbinned, Packing.bin_last]
      exact AList.lookup_insert _
    · rw [List.concat_eq_append, ← List.cons_append, ← List.append_assoc] at hsplit
      obtain ⟨rfl, -⟩ := List.append_inj' hsplit rfl
      have hne : before.length ≠ q.globalOffset := by
        rw [h.globalOffset, List.length_append, List.length_cons]
        omega
      exact (AList.lookup_insert_ne hne).trans (h.located before e after rfl)

/-- **An append of any length**, whatever it answers, enters the payload if it is
acknowledged. -/
theorem Keeps.appended (h : q.Keeps entries) (hsize : data.length ≤ isizeMax)
    {startTime endTime rounds : Nat} {outcome : Option (Except String AppendResult)}
    (happ : q.append H fs startTime endTime rounds data = some (outcome, q')) :
    q'.Keeps (entries ++ entered q' data outcome) := by
  obtain ⟨m, p, hlookup, hm, hbinned⟩ := h.manager
  have hpart : partition H q.config.numPartitions data = 1 := by
    rw [h.numPartitions, partition_one]
  rw [PersistQ.append] at happ
  rw [if_neg (by rw [h.numPartitions]; decide)] at happ
  dsimp only at happ
  rw [hpart, hlookup] at happ
  dsimp only at happ
  split at happ
  · cases happ
  rename_i result m' hrun
  have hpost := hm.returns hbinned hsize ⟨_, hrun⟩
  rcases result with _ | e | offset
  · cases happ
    obtain ⟨p', hm', hbinned'⟩ := hpost
    have hkeeps := h.refused hm' hbinned'
    rwa [← List.append_nil entries] at hkeeps
  · cases happ
    obtain ⟨p', hm', hbinned'⟩ := hpost
    have hkeeps := h.refused hm' hbinned'
    rwa [← List.append_nil entries] at hkeeps
  · cases happ
    have hcur : currentSegment ((q.putManager 1 m').assign
        { partitionId := 1, localOffset := offset }).2 = m'.currentSegment := by
      show (match (q.segmentManagers.insert 1 m').lookup 1 with
        | none => none
        | some manager => manager.currentSegment) = _
      rw [AList.lookup_insert]
    rw [entered, hcur]
    exact h.acknowledged hpost

/-- **A read of an entry** sees what the first segment holds from the entry's place on,
and fails if it holds nothing there. -/
theorem Keeps.read_placed (h : q.Keeps (before ++ e :: after)) (startTime endTime : Nat) :
    let bytes := inSegment (some 0) (before ++ e :: after)
    let place := (inSegment e.segment before).length
    q.read startTime endTime before.length = some (
      if bytes.length ≤ place then .error "Offset out of bounds"
      else .ok
        { record :=
            { offset := before.length
              data := bytes.drop place
              timestamp := startTime / 1000000
              partitionId := 1 }
          cacheHit := false
          latencyUs := endTime - startTime }) := by
  obtain ⟨m, p, hlookup, hm, hbinned⟩ := h.manager
  have hread := hm.read (inSegment e.segment before).length
  rw [← Packing.bin_zero, hbinned 0] at hread
  dsimp only
  split
  · rename_i hle
    rw [if_pos hle] at hread
    simp only [PersistQ.read, h.located before e after rfl, hlookup, hread]
  · rename_i hle
    rw [if_neg hle] at hread
    simp only [PersistQ.read, h.located before e after rfl, hlookup, hread]

/-- **A read of an entry in the first segment** sees it and all behind it there. -/
theorem Keeps.read_first (h : q.Keeps (before ++ e :: after)) (he : e.segment = some 0)
    (hpayload : e.payload ≠ []) (startTime endTime : Nat) :
    q.read startTime endTime before.length = some (.ok
      { record :=
          { offset := before.length
            data := e.payload ++ inSegment (some 0) after
            timestamp := startTime / 1000000
            partitionId := 1 }
        cacheHit := false
        latencyUs := endTime - startTime }) := by
  have hread := h.read_placed startTime endTime
  have hlen := List.length_pos_of_ne_nil hpayload
  simp only [he, inSegment_append, inSegment_cons_same he, List.length_append, List.drop_left]
    at hread
  rwa [if_neg (by omega)] at hread

theorem Keeps.read_unmapped (h : q.Keeps entries) {g : Nat} (hg : entries.length ≤ g)
    (startTime endTime : Nat) :
    q.read startTime endTime g = some (.error ("Global offset " ++ toString g ++ " not found")) := by
  simp only [PersistQ.read, h.unmapped g hg]

/-- While all that was acknowledged fits one segment, that is the current one. -/
theorem Holds.currentSegment_first {acked : List (AppendResult × List UInt8)}
    (h : q.Holds H acked) (hone : q.config.numPartitions = 1)
    (hfit : (acked.map Prod.snd).flatten.length ≤ q.config.segmentSize) :
    q.currentSegment = some 0 := by
  obtain ⟨m, hlookup, hm⟩ := h.manager 1 (by rw [hone]; decide)
  have hpacked : packed H q 1 acked = ⟨[], (acked.map Prod.snd).flatten⟩ := by
    rw [packed, hone, inPartition_one]
    exact NextFit.pack_of_le [] _ (by rwa [List.length_nil, Nat.zero_add])
  have hcur := hm.currentSegment
  rw [hpacked] at hcur
  rw [PersistQ.currentSegment, hlookup]
  exact hcur

end

end Dolda.PersistQ
