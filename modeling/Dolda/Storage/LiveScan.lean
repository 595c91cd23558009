/-
# `Dolda.Storage.LiveScan` — an iteration while records are written

An iterator takes the write position for its limit, and that position is raised
before the bytes are copied.  On a segment that never runs out of space the
granted records tile it (`Tiled`), so a scan walks from place to place
(`Follows`); what it finds in a place is the record granted it iff the copy has
been made.  A place it reaches before that holds whatever the file held there,
and an error item is handed out again and again.

    each place read has been copied   ⟺   every item of every scan, in every
                                          state, is a record written before,
                                          in order    (`live_scan_written`)
-/
import Dolda.Storage.Readers

namespace Dolda.Storage

open Memory

/-- The place a call has been granted and not yet filled. -/
def Call.uncopied : Call → Option (RecordOffset × Record)
  | .writing r offset => some (⟨offset, r.serializedSize⟩, r)
  | .counting .. | .indexing .. | .rollingBack .. => none

namespace System

/-- The segment has space for every append. -/
def Fits (sys : System) : Act → Prop
  | .write a => sys.writers.Fits a
  | .read _ | .iterate | .turn _ => True

instance (sys : System) : ∀ a : Act, Decidable (sys.Fits a)
  | .write a => inferInstanceAs (Decidable (sys.writers.Fits a))
  | .read _ | .iterate | .turn _ => isTrue trivial

/-- The offset at which the `i`-th reader, a scan, is about to decode. -/
def decodes (sys : System) (i : Nat) : Option Nat :=
  match sys.readers[i]? with
  | some (.scanning { call := some (.slicing offset _), .. }) => some offset
  | some (.scanning _) | some (.reading _) | none => none

/-- Where a scan decodes, no append has yet to copy its record. -/
def Copied (sys : System) : Act → Prop
  | .turn i =>
      ∀ c ∈ sys.writers.calls, ∀ p ∈ c.uncopied, sys.decodes i ≠ some p.1.offset
  | .write _ | .read _ | .iterate => True

instance (sys : System) : ∀ a : Act, Decidable (sys.Copied a)
  | .turn i =>
      inferInstanceAs (Decidable
        (∀ c ∈ sys.writers.calls, ∀ p ∈ c.uncopied, sys.decodes i ≠ some p.1.offset))
  | .write _ | .read _ | .iterate => isTrue trivial

/-- No read has panicked, and every scan has handed out the first records granted,
all of them written, and no error. -/
structure ScansWritten (H : Hasher) (sys : System) : Prop where
  reads : none ∉ sys.reads
  written : ∀ scan, .scanning scan ∈ sys.readers → ∀ item ∈ scan.items,
    ∃ p ∈ sys.writers.filled, item = .ok p
  inOrder : ∃ rs, sys.writers.granted.Perm (placed H rs) ∧
    ∀ scan, .scanning scan ∈ sys.readers →
      ∃ k, scan.items = ((placed H rs).take k).map Except.ok

end System

/-! ## Places granted, filled and to be filled

A granted place has been filled or has yet to be, by one call, and granted places with
the same offset are the same.  A call that has filled its place goes on with it, or is
acknowledged for it, so what has been filled stays so. -/

namespace World

section
variable {H : Hasher} {w w' : World} {a : Act} {rs : List Record} {c : Call}
  {p q : RecordOffset × Record}

theorem place_perm (calls : List Call) : (calls.filterMap Call.place).Perm
    (calls.filterMap Call.filled ++ calls.filterMap Call.uncopied) := by
  induction calls with
  | nil => exact List.Perm.nil
  | cons c calls ih =>
      cases c with
      | writing r offset => exact (ih.cons _).trans List.perm_middle.symm
      | counting r offset => exact ih.cons _
      | indexing r offset recordNum => exact ih.cons _
      | rollingBack r offset => exact ih

theorem granted_perm (w : World) :
    w.granted.Perm (w.filled ++ w.calls.filterMap Call.uncopied) := by
  rw [granted, filled, List.append_assoc]
  exact (place_perm w.calls).append_left _

theorem Tiled.place_unique (h : Tiled H w rs) (hp : p ∈ w.granted) (hq : q ∈ w.granted)
    (hoff : p.1.offset = q.1.offset) : p = q :=
  placed_unique (h.places.mem_iff.mp hp) (h.places.mem_iff.mp hq) hoff

theorem filled_of_granted (hp : p ∈ w.granted)
    (hcopied : ∀ c ∈ w.calls, ∀ q ∈ c.uncopied, p.1.offset ≠ q.1.offset) : p ∈ w.filled := by
  rcases List.mem_append.mp ((granted_perm w).mem_iff.mp hp) with hp | hp
  · exact hp
  · obtain ⟨c, hc, hcp⟩ := List.mem_filterMap.mp hp
    exact absurd rfl (hcopied c hc p hcp)

theorem Tiled.not_filled (h : Tiled H w rs) (hc : c ∈ w.calls) (hq : c.uncopied = some q) :
    ∀ p ∈ w.filled, p.1.offset ≠ q.1.offset := by
  intro p hp hoff
  have hqmem : q ∈ w.calls.filterMap Call.uncopied := List.mem_filterMap.mpr ⟨c, hc, hq⟩
  have hqgranted : q ∈ w.granted := (granted_perm w).mem_iff.mpr (List.mem_append_right _ hqmem)
  have heq := h.place_unique (granted_of_filled hp) hqgranted hoff
  have hnodup := (placed_offsets_nodup (H := H) rs).of_map.perm (h.places.symm.trans (granted_perm w))
  exact List.disjoint_of_nodup_append hnodup hp (heq ▸ hqmem)

theorem mem_filled : p ∈ w.filled ↔
    p ∈ w.acknowledged ∨ ∃ c ∈ w.calls, c.filled = some p := by
  rw [filled, List.mem_append, List.mem_filterMap]

theorem advance_filled {s s' : RecordSegment} {x : Call ⊕ Except StorageError RecordOffset}
    (hc : c.filled = some p) (hadv : c.advance H s = some (x, s')) :
    (∃ c', x = .inl c' ∧ c'.filled = some p) ∨ x = .inr (.ok p.1) ∧ c.record = p.2 := by
  cases c with
  | writing | rollingBack => cases hc
  | counting r offset =>
      cases hadv
      exact Or.inl ⟨_, rfl, hc⟩
  | indexing r offset recordNum =>
      cases hc
      cases hadv
      exact Or.inr ⟨by rw [Record.serialize_size], rfl⟩

theorem Tiled.filled_mono (h : Tiled H w rs) (hstep : w.step H a = some w') :
    ∀ p ∈ w.filled, p ∈ w'.filled := by
  intro p hp
  rcases step_cases hstep with ⟨r, built, rfl, rfl⟩ | ⟨pre, call, post, -, hcalls, hcase⟩
  · rw [filled, List.filterMap_append, ← List.append_assoc]
    exact List.mem_append_left _ hp
  rw [mem_filled, hcalls] at hp
  rw [mem_filled]
  rcases hcase with ⟨hadv, -⟩ | ⟨call', segment, hadv, rfl⟩ | ⟨result, segment, hadv, rfl⟩
  · exact absurd hadv (h.advance_ne_none hcalls)
  · rcases hp with hack | ⟨c, hc, hcp⟩
    · exact Or.inl hack
    rcases Lts.mem_split hc with rfl | hc
    · rcases advance_filled hcp hadv with ⟨c', hx, hc'⟩ | ⟨hx, -⟩
      · cases hx
        exact Or.inr ⟨_, List.mem_append_right _ List.mem_cons_self, hc'⟩
      · cases hx
    · exact Or.inr ⟨c, Lts.mem_moved hc, hcp⟩
  · rw [acknowledged, List.filterMap_append]
    rcases hp with hack | ⟨c, hc, hcp⟩
    · exact Or.inl (List.mem_append_left _ hack)
    rcases Lts.mem_split hc with rfl | hc
    · rcases advance_filled hcp hadv with ⟨c', hx, -⟩ | ⟨hx, hrecord⟩
      · cases hx
      · cases hx
        refine Or.inl (List.mem_append_right _ (List.mem_filterMap.mpr ⟨_, List.mem_cons_self, ?_⟩))
        rw [hrecord]
        rfl
    · exact Or.inr ⟨c, hc, hcp⟩

end

end World

/-! ## A scan from place to place

Between two items the next read begins or there is nothing left to read, a read loads
the end of all that has been granted, and a read of a place that has been copied to
hands out one more record.  More records granted and written do not change what a scan
has seen. -/

/-- The scan stands behind the first `k` records granted and goes up to the `e`-th:
it has handed out those `k`, all of them written, and the read it is inside of is
at the next, up to the end of some later one. -/
structure Follows (H : Hasher) (rs : List Record) (w : World) (scan : Scan) (k e : Nat) :
    Prop where
  le : k ≤ e
  inside : e ≤ rs.length
  it : scan.it = ⟨(frames H (rs.take k)).length, (frames H (rs.take e)).length⟩
  items : scan.items = ((placed H rs).take k).map Except.ok
  written : ∀ p ∈ (placed H rs).take k, p ∈ w.filled
  loading : ∀ offset, scan.call = some (.loading offset) →
    k < e ∧ offset = (frames H (rs.take k)).length
  slicing : ∀ offset currentPos, scan.call = some (.slicing offset currentPos) →
    k < e ∧ offset = (frames H (rs.take k)).length ∧
      ∃ n, k < n ∧ n ≤ rs.length ∧ currentPos = (frames H (rs.take n)).length

section
variable {H : Hasher} {w w' : World} {rs rs' : List Record} {scan : Scan} {k e : Nat}

theorem Follows.grown (h : Follows H rs w scan k e) (hgrown : rs <+: rs')
    (hfilled : ∀ p ∈ w.filled, p ∈ w'.filled) : Follows H rs' w' scan k e := by
  have htake : ∀ n, n ≤ rs.length → rs'.take n = rs.take n := by
    obtain ⟨more, rfl⟩ := hgrown
    exact fun n hn => List.take_append_of_le_length hn
  have hk := h.le.trans h.inside
  have hplaced : (placed H rs').take k = (placed H rs).take k := by
    obtain ⟨more, rfl⟩ := hgrown
    rw [placed_append, List.take_append_of_le_length (by rwa [placed_length])]
  refine ⟨h.le, h.inside.trans hgrown.length_le, ?_, ?_, ?_, ?_, ?_⟩
  · rw [htake k hk, htake e h.inside, h.it]
  · rw [hplaced, h.items]
  · rw [hplaced]
    exact fun p hp => hfilled p (h.written p hp)
  · rw [htake k hk]
    exact h.loading
  · intro offset currentPos hcall
    obtain ⟨hke, hoff, n, hkn, hn, hpos⟩ := h.slicing offset currentPos hcall
    rw [htake k hk]
    exact ⟨hke, hoff, n, hkn, hn.trans hgrown.length_le, by rw [htake n hn, hpos]⟩

theorem Follows.slice_eq (h : Follows H rs w scan k e) (ht : w.Tiled H rs) {offset currentPos : Nat}
    (hcall : scan.call = some (.slicing offset currentPos)) :
    slice w.segment.mmap offset currentPos
      = some (window w.segment.mmap offset (currentPos - offset)) := by
  obtain ⟨-, rfl, n, hkn, hn, rfl⟩ := h.slicing offset currentPos hcall
  refine slice_of_le (frames_take_le hkn.le) ?_
  rw [w.segment.mmap_length]
  refine le_trans ?_ ht.inside
  have hle : (frames H (rs.take n)).length ≤ (frames H (rs.take rs.length)).length :=
    frames_take_le hn
  rwa [List.take_length] at hle

/-- **What a scan reads in a place that has been filled** is the record granted
it. -/
theorem Follows.decode (h : Follows H rs w scan k e) (ht : w.Tiled H rs) {offset currentPos : Nat}
    (hcall : scan.call = some (.slicing offset currentPos))
    (hcopied : ∀ c ∈ w.calls, ∀ p ∈ c.uncopied, offset ≠ p.1.offset) :
    ∃ r, rs[k]? = some r ∧ (⟨offset, r.serializedSize⟩, r) ∈ w.filled ∧
      (ReadCall.slicing offset currentPos).step H w.segment = .inr (some (.ok r)) := by
  have hslice := h.slice_eq ht hcall
  obtain ⟨-, rfl, n, hkn, hn, rfl⟩ := h.slicing offset currentPos hcall
  have hget : rs[k]? = some rs[k] := List.getElem?_eq_getElem (hkn.trans_le hn)
  have hplaced : (placed H rs)[k]? =
      some (⟨(frames H (rs.take k)).length, rs[k].serializedSize⟩, rs[k]) := by
    rw [placed_getElem?, hget, Option.map_some]
  have hfilled := World.filled_of_granted (ht.places.mem_iff.mpr (List.mem_of_getElem? hplaced))
    hcopied
  refine ⟨rs[k], hget, hfilled, ?_⟩
  have hframe := ht.copied _ hfilled
  have hsize : rs[k].serializedSize ≤
      (frames H (rs.take n)).length - (frames H (rs.take k)).length := by
    have hle : (frames H (rs.take (k + 1))).length ≤ _ := frames_take_le (Nat.succ_le_of_lt hkn)
    have hsucc := frames_take_succ (H := H) hget
    omega
  have hpre : (rs[k].serialize H).bytes <+: window w.segment.mmap (frames H (rs.take k)).length
      ((frames H (rs.take n)).length - (frames H (rs.take k)).length) :=
    hframe ▸ List.take_prefix_take_left hsize
  have hdec := (Record.deserialize_eq_ok_iff H _ rs[k] rs[k].serializedSize).mpr
    ⟨ht.valid _ (List.mem_of_getElem? hget), (Record.serialize_length H _).symm, hpre⟩
  simp only [ReadCall.step, hslice, hdec]

theorem Follows.begins (h : Follows H rs w scan k e) (hcall : scan.call = none) :
    ∃ scan', (scan.step H w.segment).1 = some scan' ∧ Follows H rs w scan' k e := by
  by_cases hend : scan.it.endOffset ≤ scan.it.currentOffset
  · exact ⟨scan, by simp only [Scan.step, hcall, if_pos hend], h⟩
  refine ⟨{ scan with call := some (.loading scan.it.currentOffset) },
    by simp only [Scan.step, hcall, if_neg hend], { h with loading := ?_, slicing := ?_ }⟩
  · rintro offset ⟨⟩
    rw [h.it] at hend ⊢
    refine ⟨Nat.lt_of_not_le ?_, rfl⟩
    intro hek
    exact hend (frames_take_le hek)
  · rintro _ _ ⟨⟩

theorem Follows.loads (h : Follows H rs w scan k e) (ht : w.Tiled H rs) (howed : w.owed = 0)
    {offset : Nat} (hcall : scan.call = some (.loading offset)) :
    ∃ scan', (scan.step H w.segment).1 = some scan' ∧ Follows H rs w scan' k e := by
  obtain ⟨hke, rfl⟩ := h.loading offset hcall
  have hpos := ht.writePos_eq howed
  have hlt : (frames H (rs.take k)).length < w.segment.writePos := by
    have hlt := frames_take_lt (H := H) (hke.trans_le h.inside) (Nat.le_refl rs.length)
    rwa [List.take_length, ← hpos] at hlt
  have hstep : (ReadCall.loading (frames H (rs.take k)).length).step H w.segment
      = .inl (.slicing (frames H (rs.take k)).length w.segment.writePos) :=
    if_neg (Nat.not_le.mpr hlt)
  refine ⟨{ scan with
    call := some (.slicing (frames H (rs.take k)).length w.segment.writePos) },
    by simp only [Scan.step, hcall, hstep], { h with loading := ?_, slicing := ?_ }⟩
  · rintro _ ⟨⟩
  · rintro offset currentPos ⟨⟩
    exact ⟨hke, rfl, rs.length, hke.trans_le h.inside, Nat.le_refl _,
      by rw [List.take_length, hpos]⟩

theorem Follows.takes (h : Follows H rs w scan k e) (ht : w.Tiled H rs) {offset currentPos : Nat}
    (hcall : scan.call = some (.slicing offset currentPos))
    (hcopied : ∀ c ∈ w.calls, ∀ p ∈ c.uncopied, offset ≠ p.1.offset) :
    ∃ scan', (scan.step H w.segment).1 = some scan' ∧ Follows H rs w scan' (k + 1) e := by
  obtain ⟨r, hget, hfilled, hstep⟩ := h.decode ht hcall hcopied
  obtain ⟨hke, rfl, -⟩ := h.slicing offset currentPos hcall
  have hnext : (frames H (rs.take (k + 1))).length ≤ w.segment.maxSize := by
    refine le_trans ?_ ht.inside
    have hle : (frames H (rs.take (k + 1))).length ≤ _ := frames_take_le (hke.trans_le h.inside)
    rwa [List.take_length] at hle
  have hadd : U64.add (frames H (rs.take k)).length r.serializedSize
      = (frames H (rs.take (k + 1))).length := by
    have hmax := w.segment.maxSize_le
    simp only [isizeMax] at hmax
    rw [frames_take_succ hget] at hnext ⊢
    exact U64.add_of_lt (by omega)
  have hplace : (placed H rs)[k]? =
      some (⟨(frames H (rs.take k)).length, r.serializedSize⟩, r) := by
    rw [placed_getElem?, hget, Option.map_some]
  refine ⟨scan.took (.ok r), by simp only [Scan.step, hcall, hstep], ?_⟩
  refine ⟨hke, h.inside, ?_, ?_, ?_, ?_, ?_⟩
  · simp only [Scan.took, h.it, hadd]
  · simp only [Scan.took, h.it, h.items]
    rw [List.take_add_one, hplace, List.map_append]
    rfl
  · rw [List.take_add_one, hplace]
    exact List.forall_mem_append.mpr ⟨h.written, List.forall_mem_singleton.mpr hfilled⟩
  · rintro _ ⟨⟩
  · rintro _ _ ⟨⟩

/-- **A step of a scan** that decodes only what has been copied. -/
theorem Follows.step (h : Follows H rs w scan k e) (ht : w.Tiled H rs) (howed : w.owed = 0)
    (hcopied : ∀ offset currentPos, scan.call = some (.slicing offset currentPos) →
      ∀ c ∈ w.calls, ∀ p ∈ c.uncopied, offset ≠ p.1.offset) :
    ∃ scan' k', (scan.step H w.segment).1 = some scan' ∧ Follows H rs w scan' k' e := by
  cases hcall : scan.call with
  | none =>
      obtain ⟨scan', hstep, h'⟩ := h.begins hcall
      exact ⟨scan', k, hstep, h'⟩
  | some call =>
      cases call with
      | loading offset =>
          obtain ⟨scan', hstep, h'⟩ := h.loads ht howed hcall
          exact ⟨scan', k, hstep, h'⟩
      | slicing offset currentPos =>
          obtain ⟨scan', hstep, h'⟩ := h.takes ht hcall (hcopied offset currentPos hcall)
          exact ⟨scan', k + 1, hstep, h'⟩

/-- A scan that decodes a place no copy has been made to hands out something that
was never written there. -/
theorem Follows.astray (h : Follows H rs w scan k e) (ht : w.Tiled H rs)
    {offset currentPos : Nat} (hcall : scan.call = some (.slicing offset currentPos)) {c : Call}
    (hc : c ∈ w.calls) {p : RecordOffset × Record} (hp : c.uncopied = some p)
    (hoff : offset = p.1.offset) :
    ∃ scan', (scan.step H w.segment).1 = some scan' ∧
      ¬ ∀ item ∈ scan'.items, ∃ q ∈ w.filled, item = .ok q := by
  have hslice := h.slice_eq ht hcall
  have hit : scan.it.currentOffset = offset := by
    rw [h.it]
    exact (h.slicing offset currentPos hcall).2.1.symm
  obtain ⟨result, hstep⟩ : ∃ result,
      (ReadCall.slicing offset currentPos).step H w.segment = .inr (some result) := by
    rcases ReadCall.step_cases H w.segment (.slicing offset currentPos) with
      ⟨o, ho, -⟩ | ⟨o, ho, -⟩ | ⟨o, n, ho, hnone, -⟩ | ⟨o, n, data, -, -, hstep⟩
    · cases ho
    · cases ho
    · cases ho
      cases hslice.symm.trans hnone
    · exact ⟨_, hstep⟩
  refine ⟨scan.took result, by simp only [Scan.step, hcall, hstep], ?_⟩
  intro hall
  cases result with
  | error e =>
      obtain ⟨q, -, hq⟩ := hall (.error e) (List.mem_append_right _ List.mem_cons_self)
      cases hq
  | ok r =>
      obtain ⟨q, hfilled, hq⟩ := hall _ (List.mem_append_right _ List.mem_cons_self)
      cases hq
      exact ht.not_filled hc hp _ hfilled (hit.trans hoff)

end

namespace System

/-- What a system with space for every append keeps. -/
structure Roomy (H : Hasher) (sys : System) (rs : List Record) : Prop where
  inOrder : sys.InOrder H
  tiled : sys.writers.Tiled H rs
  none : ∀ c ∈ sys.writers.calls, c.owed = 0
  scans : ∀ scan, .scanning scan ∈ sys.readers → ∃ k e, Follows H rs sys.writers scan k e

section
variable {H : Hasher} {sys sys' : System} {a : Act} {rs : List Record}

theorem Roomy.owed (h : sys.Roomy H rs) : sys.writers.owed = 0 :=
  List.sum_eq_zero_iff_forall_eq_nat.mpr (by simpa using h.none)

theorem Roomy.start {fs : Files} {path : String} {maxSize : Nat} {indexEnabled : Bool}
    {s : RecordSegment} (hnew : RecordSegment.new fs path maxSize indexEnabled = .ok s) :
    (ofSegment s).Roomy H [] :=
  ⟨InOrder.start hnew, World.Tiled.start hnew, fun _ hc => absurd hc List.not_mem_nil,
    fun _ hs => absurd hs List.not_mem_nil⟩

theorem Roomy.scansWritten (h : sys.Roomy H rs) : sys.ScansWritten H where
  reads := h.inOrder.reads
  written := by
    intro scan hscan item hitem
    obtain ⟨k, e, hfollows⟩ := h.scans scan hscan
    rw [hfollows.items] at hitem
    obtain ⟨p, hp, rfl⟩ := List.mem_map.mp hitem
    exact ⟨p, hfollows.written p hp, rfl⟩
  inOrder := by
    refine ⟨rs, h.tiled.places, ?_⟩
    intro scan hscan
    obtain ⟨k, e, hfollows⟩ := h.scans scan hscan
    exact ⟨k, hfollows.items⟩

theorem Roomy.givenBack (h : sys.Roomy H rs) (a : Act) : sys.GivenBack a := by
  cases a with
  | write a =>
      cases a with
      | start r built => exact h.none
      | advance i => trivial
  | read offset => trivial
  | iterate => trivial
  | turn i =>
      rw [GivenBack]
      cases sys.loads i with
      | none => trivial
      | some offset => exact fun _ => h.none

theorem decodes_of_call {i offset currentPos : Nat} {scan : Scan}
    (hreader : sys.readers[i]? = some (.scanning scan))
    (hcall : scan.call = some (.slicing offset currentPos)) : sys.decodes i = some offset := by
  obtain ⟨it, call, items⟩ := scan
  cases hcall
  simp only [decodes, hreader]

theorem call_of_decodes {i offset : Nat} (h : sys.decodes i = some offset) :
    ∃ scan currentPos, sys.readers[i]? = some (.scanning scan) ∧
      scan.call = some (.slicing offset currentPos) := by
  simp only [decodes] at h
  split at h
  · cases h
    exact ⟨_, _, ‹_›, rfl⟩
  · cases h
  · cases h
  · cases h

theorem Roomy.begun (h : sys.Roomy H rs) :
    Follows H rs sys.writers ⟨sys.segment.iterRecords, Option.none, []⟩ 0 rs.length := by
  refine ⟨Nat.zero_le _, Nat.le_refl _, ?_, rfl, ?_, ?_, ?_⟩
  · rw [List.take_length, ← h.tiled.writePos_eq h.owed]
    rfl
  · intro p hp
    exact absurd hp List.not_mem_nil
  · rintro _ ⟨⟩
  · rintro _ _ ⟨⟩

theorem Roomy.turned (h : sys.Roomy H rs) {i : Nat} {reader : Reader}
    (hreader : sys.readers[i]? = some reader) (hok : sys.Copied (.turn i)) {scan' : Scan}
    (hstep : (reader.step H sys.segment).1 = some (.scanning scan')) :
    ∃ k e, Follows H rs sys.writers scan' k e := by
  cases reader with
  | reading call =>
      cases hcall : call.step H sys.segment with
      | inl call' =>
          simp only [Reader.step, hcall] at hstep
          cases hstep
      | inr result =>
          simp only [Reader.step, hcall] at hstep
          cases hstep
  | scanning scan =>
      obtain ⟨k, e, hfollows⟩ := h.scans scan (List.mem_of_getElem? hreader)
      have hcopied : ∀ offset currentPos, scan.call = some (.slicing offset currentPos) →
          ∀ c ∈ sys.writers.calls, ∀ p ∈ c.uncopied, offset ≠ p.1.offset := by
        intro offset currentPos hcall c hc p hp hoff
        refine hok c hc p hp ?_
        rw [decodes_of_call hreader hcall, hoff]
      obtain ⟨scan'', k', hgo, hfollows'⟩ := hfollows.step h.tiled h.owed hcopied
      have hgo : (scan.step H sys.segment).1 = some scan'' := hgo
      cases hscan : scan.step H sys.segment with
      | mk next results =>
          rw [hscan] at hgo
          cases hgo
          simp only [Reader.step, hscan] at hstep
          cases hstep
          exact ⟨k', e, hfollows'⟩

/-- **The step lemma.** -/
theorem Roomy.step (h : sys.Roomy H rs) (hfits : sys.Fits a) (hok : sys.Copied a)
    (hstep : sys.step H a = some sys') : ∃ rs', sys'.Roomy H rs' := by
  have hinOrder := h.inOrder.step (h.givenBack a) hstep
  rcases step_cases hstep with ⟨b, writers, rfl, hwrite, rfl⟩ | ⟨offset, rfl, rfl⟩ |
    ⟨rfl, rfl⟩ | ⟨i, reader, pre, post, rfl, hreader, hreaders, rfl⟩
  · obtain ⟨rs', ht', hgrown⟩ := h.tiled.step (World.grantsUnowed_of_none h.none b) hwrite
    refine ⟨rs', hinOrder, ht', World.owed_fits h.none hfits hwrite, ?_⟩
    intro scan hscan
    obtain ⟨k, e, hfollows⟩ := h.scans scan hscan
    exact ⟨k, e, hfollows.grown hgrown (h.tiled.filled_mono hwrite)⟩
  · refine ⟨rs, hinOrder, h.tiled, h.none, ?_⟩
    intro scan hscan
    rcases List.mem_append.mp hscan with hscan | hscan
    · exact h.scans scan hscan
    · cases List.mem_singleton.mp hscan
  · refine ⟨rs, hinOrder, h.tiled, h.none, ?_⟩
    intro scan hscan
    rcases List.mem_append.mp hscan with hscan | hscan
    · exact h.scans scan hscan
    · cases List.mem_singleton.mp hscan
      exact ⟨0, rs.length, h.begun⟩
  · have hscans := h.scans
    rw [hreaders] at hscans
    refine ⟨rs, hinOrder, h.tiled, h.none, ?_⟩
    intro scan hscan
    rcases Lts.mem_replaced hscan with hmoved | hother
    · exact h.turned hreader hok hmoved
    · exact hscans scan (Lts.mem_moved hother)

/-- Decoding a place before its copy leads astray at once. -/
theorem Roomy.astray (h : sys.Roomy H rs) (hnot : ¬ sys.Copied a) :
    ∃ sys', sys.step H a = some sys' ∧ ¬ sys'.ScansWritten H := by
  cases a with
  | write a => exact absurd trivial hnot
  | read offset => exact absurd trivial hnot
  | iterate => exact absurd trivial hnot
  | turn i =>
      have hbad : ∃ c ∈ sys.writers.calls, ∃ p ∈ c.uncopied, sys.decodes i = some p.1.offset := by
        simpa only [Copied, not_forall, exists_prop, not_not, ne_eq] using hnot
      obtain ⟨c, hc, p, hp, hdec⟩ := hbad
      obtain ⟨scan, currentPos, hreader, hcall⟩ := call_of_decodes hdec
      obtain ⟨pre, post, -, hset, -⟩ := Lts.exists_split hreader
      obtain ⟨k, e, hfollows⟩ := h.scans scan (List.mem_of_getElem? hreader)
      obtain ⟨scan', hgo, hastray⟩ := hfollows.astray h.tiled hcall hc hp rfl
      have hgo : (scan.step H sys.segment).1 = some scan' := hgo
      cases hscan : scan.step H sys.segment with
      | mk next results =>
          rw [hscan] at hgo
          cases hgo
          refine ⟨⟨sys.writers, pre ++ .scanning scan' :: post, sys.reads ++ results⟩, ?_,
            fun hwritten => hastray ?_⟩
          · simp only [System.step, hreader, Reader.step, hscan, hset]
          · exact hwritten.written scan' (List.mem_append_right _ List.mem_cons_self)

end

end System

/-! ## Every interleaving -/

/-- **A scan beside writers.**  Take any interleaving of any number of appends,
reads and iterations on a fresh segment that has space for every append.  In every
state of it each scan has handed out the first records granted, each of them
written before, and no error, iff no scan decoded a place whose append had yet to
copy its record there. -/
theorem live_scan_written (H : Hasher) (fs : Files) (path : String) (maxSize : Nat)
    (indexEnabled : Bool) (s : RecordSegment)
    (hnew : RecordSegment.new fs path maxSize indexEnabled = .ok s) (acts : List System.Act)
    (hfits : Lts.Guarded (System.step H) System.Fits (System.ofSegment s) acts) :
    Lts.Always (System.step H) (System.ScansWritten H) (System.ofSegment s) acts ↔
      Lts.Guarded (System.step H) System.Copied (System.ofSegment s) acts := by
  let Inv := fun sys : System => ∃ rs, sys.Roomy H rs
  have hinit : Inv (System.ofSegment s) := ⟨[], System.Roomy.start hnew⟩
  refine Lts.Guarded.always_iff (fun ⟨_, h⟩ => h.scansWritten) ?_ ?_ hinit hfits
  · rintro sys a sys' ⟨rs, h⟩ hfits hok hstep
    exact h.step hfits hok hstep
  · rintro sys a ⟨rs, h⟩ - hnot
    exact h.astray hnot

/-- A scan that waits for the copy of the second of two records. -/
theorem live_scan_written_two : ∃ s,
    RecordSegment.new Files.fresh "segment.dat" 100 false = .ok s ∧
    Lts.Always (System.step crc32Hasher) (System.ScansWritten crc32Hasher) (System.ofSegment s)
      [.write (.start ⟨1, [65]⟩ (by decide)), .write (.start ⟨2, [66]⟩ (by decide)), .iterate,
        .turn 0, .write (.advance 0), .turn 0, .turn 0, .turn 0, .turn 0, .write (.advance 1),
        .turn 0, .turn 0] := by
  refine ⟨_, rfl, ?_⟩
  refine (live_scan_written crc32Hasher Files.fresh "segment.dat" 100 false _ rfl _ ?_).mpr ?_
  · decide +kernel
  · decide +kernel

/-- **A scan reads what is not there yet**: between the reservation and the copy
the bytes of a record are those of the file, here zeros, and the scan hands out an
error. -/
theorem scan_before_copy : ∃ s sys,
    RecordSegment.new Files.fresh "segment.dat" 100 false = .ok s ∧
    Lts.Guarded (System.step crc32Hasher) System.Fits (System.ofSegment s)
      [.write (.start ⟨1, [65]⟩ (by decide)), .iterate, .turn 0, .turn 0, .turn 0] ∧
    Lts.run (System.step crc32Hasher) (System.ofSegment s)
      [.write (.start ⟨1, [65]⟩ (by decide)), .iterate, .turn 0, .turn 0, .turn 0] = some sys ∧
    (∃ scan, sys.readers = [.scanning scan] ∧
      scan.items = [.error (.record (.invalidMagic 0))]) ∧
    ¬ sys.ScansWritten crc32Hasher := by
  refine ⟨_, _, rfl, by decide +kernel, rfl, ⟨_, rfl, rfl⟩, ?_⟩
  intro h
  obtain ⟨p, -, hp⟩ := h.written _ List.mem_cons_self _ List.mem_cons_self
  cases hp

end Dolda.Storage
