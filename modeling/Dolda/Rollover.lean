/-
# `Dolda.Rollover` — appends that need a new segment

Both segment managers append in the same loop: look for space, create a segment,
look again.  Neither asks whether a segment has space for the record at all, so
a record longer than a segment is answered by segment after segment.
-/
import Dolda.RecordIntegrity
import Dolda.Storage.Manager
import Dolda.PersistQ.Manager

namespace Dolda

/-- **Bounded appends.**  In every state one thread brings a segment manager to,
an append returns, having created at most one segment, iff its frame (or, for
the queue's manager, its payload) is no longer than a segment or the segments
the loop asks for cannot be created. -/
theorem appends_bounded_iff (H : Hasher) (fs : Files)
    (m : Storage.SegmentManager) (hm : m.Reached H) (r : Record)
    (hr : r.serializedSize ≤ isizeMax)
    (q : PersistQ.SegmentManager) (hq : q.Reached) (data : List UInt8)
    (hdata : data.length ≤ isizeMax) :
    (m.BoundedAppend H fs r ↔ r.serializedSize ≤ m.segmentSize ∨ m.CreationFails fs) ∧
      (q.BoundedAppend fs data ↔ data.length ≤ q.segmentSize ∨ q.CreationFails fs) := by
  obtain ⟨p, hholds⟩ := hq.holds
  exact ⟨hm.healthy.boundedAppend_iff H fs hr, hholds.boundedAppend_iff fs hdata⟩

/-- A record and a payload, in managers just made. -/
theorem appends_bounded_iff_new : ∃ m q,
    Storage.SegmentManager.new Files.fresh 1 64 "data" false = .ok m ∧
    PersistQ.SegmentManager.new Files.fresh 1 1024 "data" = .ok q ∧
    (m.BoundedAppend crc32Hasher Files.fresh ⟨1, [65]⟩ ↔
      Record.serializedSize ⟨1, [65]⟩ ≤ m.segmentSize ∨ m.CreationFails Files.fresh) ∧
    (q.BoundedAppend Files.fresh [65] ↔
      [65].length ≤ q.segmentSize ∨ q.CreationFails Files.fresh) := by
  obtain ⟨m, hm⟩ := Storage.SegmentManager.new_willing Files.fresh_willing 1 "data" false
    (show 64 ≤ isizeMax by decide)
  obtain ⟨q, hq⟩ := PersistQ.SegmentManager.new_willing Files.fresh_willing 1 "data"
    (show 1024 ≤ isizeMax by decide)
  refine ⟨m, q, hm, hq, ?_⟩
  exact appends_bounded_iff crc32Hasher Files.fresh m (.new hm) ⟨1, [65]⟩ (by decide) q (.new hq)
    [65] (by decide)

/-- **An oversized append never returns**: a record of 65 bytes in segments of 64,
a payload of 1025 bytes in segments of 1024, with every file system call
succeeding. -/
theorem oversized_append_never_ends : ∃ m q,
    Storage.SegmentManager.new Files.fresh 1 64 "data" false = .ok m ∧
    PersistQ.SegmentManager.new Files.fresh 1 1024 "data" = .ok q ∧
    ¬ Loop.Terminates (Storage.SegmentManager.appendTurn crc32Hasher Files.fresh
      ⟨1, List.replicate 45 65⟩) m ∧
    ¬ Loop.Terminates (PersistQ.SegmentManager.appendTurn Files.fresh (List.replicate 1025 65))
      q := by
  have h64 : 64 ≤ isizeMax := by decide
  have h1024 : 1024 ≤ isizeMax := by decide
  obtain ⟨m, hm⟩ := Storage.SegmentManager.new_willing Files.fresh_willing 1 "data" false h64
  obtain ⟨q, hq⟩ := PersistQ.SegmentManager.new_willing Files.fresh_willing 1 "data" h1024
  have hlen : (List.replicate 1025 (65 : UInt8)).length = 1025 := List.length_replicate
  refine ⟨m, q, hm, hq, ?_, ?_⟩
  · refine (Storage.SegmentManager.new_healthy hm).append_never_ends crc32Hasher (by decide)
      (by decide) ?_
    intro m' hsize
    exact Storage.SegmentManager.createNewSegment_willing Files.fresh_willing m' (hsize ▸ h64)
  · refine (PersistQ.SegmentManager.new_holds hq).append_never_ends (by rw [hlen]; decide)
      (by rw [hlen]; decide) ?_
    intro m' hsize
    exact PersistQ.SegmentManager.createNewSegment_willing Files.fresh_willing m' (hsize ▸ h1024)

end Dolda
