/-
# `Dolda.PersistQ.Concurrent` — appends to a partition from many tasks

`SegmentManager::append` takes `&self`.  A call looks at the current segment,
locks the segment it found and looks again, and where there is no space takes the
creation lock, looks once more and creates a segment; then it starts over.  Each
of these is one step (`Phase.step`), and a call in flight is the phase it is in.
What the calls share is the manager and whether its creation lock is taken
(`SharedManager`).

**The invariant.**  `Kept cap sm calls stored`: each segment holds the payloads
stored in it, one behind the other in the order they were stored; a segment about
to be tried is there; and the creation lock is taken iff one call is inside it,
so a new segment has the next number and a path of its own.  The look made under
the segment's own mutex is the one that counts: a payload goes in there or not at
all, so no append ever finds the segment full (`Kept.step`).
-/
import Dolda.Lib.Lts
import Dolda.PersistQ.Manager

namespace Dolda.PersistQ

open Memory

/-! ## The steps of one call -/

/-- How far a call of `append` has come. -/
inductive Phase where
  /-- Before the look at the current segment. -/
  | looking
  /-- The segment had space; before its mutex is locked again. -/
  | trying (i : Nat)
  /-- Before the creation lock. -/
  | waiting
  /-- Inside it, before the double-check. -/
  | checking
  /-- Before the number of segments is read. -/
  | counting
  | creating (segmentId : Nat)
  | pushing (segment : Segment)
  /-- Pushed, before it becomes current. -/
  | switching (i : Nat)

/-- A manager that tasks share, and whether its creation lock is taken. -/
structure SharedManager where
  manager : SegmentManager
  locked : Bool

/-- What a call returns, nothing when it panics; and the segment it appended to. -/
structure Answer where
  segment : Option Nat
  result : Option (Except String Nat)

namespace Phase

def step (fs : Files) (data : List UInt8) (sm : SharedManager) :
    Phase → Option ((Phase ⊕ Answer) × SharedManager)
  | looking =>
      match sm.manager.current with
      | none => some (.inl waiting, sm)
      | some (i, segment) =>
          if segment.hasSpace data.length then some (.inl (trying i), sm)
          else some (.inl waiting, sm)
  | trying i =>
      match sm.manager.segments[i]? with
      | none => some (.inr ⟨none, none⟩, sm)
      | some segment =>
          if segment.hasSpace data.length then
            match segment.append data with
            | none => some (.inr ⟨some i, none⟩, sm)
            | some (result, segment) =>
                some (.inr ⟨some i, some result⟩, { sm with manager := sm.manager.put i segment })
          else some (.inl waiting, sm)
  | waiting => if sm.locked then none else some (.inl checking, { sm with locked := true })
  | checking =>
      if sm.manager.hasSpace data.length then some (.inl looking, { sm with locked := false })
      else some (.inl counting, sm)
  | counting => some (.inl (creating sm.manager.segments.length), sm)
  | creating segmentId =>
      match Segment.new fs (sm.manager.segmentPath segmentId) sm.manager.segmentSize with
      | .error e => some (.inr ⟨none, some (.error e)⟩, { sm with locked := false })
      | .ok segment => some (.inl (pushing segment), sm)
  | pushing segment =>
      some (.inl (switching sm.manager.segments.length),
        { sm with
          manager := { sm.manager with segments := sm.manager.segments ++ [segment] } })
  | switching i =>
      some (.inl looking, ⟨{ sm.manager with currentSegment := some i }, false⟩)

/-- Inside the creation lock. -/
def inside : Phase → Bool
  | looking | trying _ | waiting => false
  | checking | counting | creating _ | pushing _ | switching _ => true

end Phase

/-- A call in flight. -/
structure Call where
  data : List UInt8
  phase : Phase

/-! ## What is stored -/

/-- A payload, the segment it was appended to, and where in it. -/
structure Stored where
  segment : Nat
  offset : Nat
  data : List UInt8

/-- What a call stored that returned so. -/
def Answer.stored (data : List UInt8) : Answer → List Stored
  | ⟨some segment, some (.ok offset)⟩ => [⟨segment, offset, data⟩]
  | _ => []

/-- The payloads stored in the `i`-th segment, one behind the other. -/
def bytesIn (i : Nat) (stored : List Stored) : List UInt8 :=
  ((stored.filter (fun x => x.segment = i)).map (fun x => x.data)).flatten

/-- What a call in this phase counts on. -/
def Phase.Fine (cap : Nat) (m : SegmentManager) : Phase → Prop
  | trying i | switching i => i < m.segments.length
  | creating segmentId => segmentId = m.segments.length
  | pushing segment => segment.Holds cap [] ∧ segment.path = m.segmentPath m.segments.length
  | looking | waiting | checking | counting => True

structure Kept (cap : Nat) (sm : SharedManager) (calls : List Call) (stored : List Stored) :
    Prop where
  segmentSize : sm.manager.segmentSize = cap
  cap_le : cap ≤ isizeMax
  segments : ∀ i s, sm.manager.segments[i]? = some s →
    s.Holds cap (bytesIn i stored) ∧ s.path = sm.manager.segmentPath i
  current : ∃ i, sm.manager.currentSegment = some i ∧ i < sm.manager.segments.length
  placed : ∀ before x after, stored = before ++ x :: after →
    x.segment < sm.manager.segments.length ∧ x.offset = (bytesIn x.segment before).length
  fits : ∀ c ∈ calls, c.data.length ≤ isizeMax
  fine : ∀ c ∈ calls, c.phase.Fine cap sm.manager
  lock : calls.countP (fun c => c.phase.inside) = if sm.locked then 1 else 0

/-- What a call returns: where its payload is, or that a file could not be
created. -/
inductive Answer.Good : Answer → Prop where
  | stored (segment offset : Nat) : Answer.Good ⟨some segment, some (.ok offset)⟩
  | refused (e : FileError) : Answer.Good ⟨none, some (.error (fileMessage e))⟩

/-! ## What a step can do -/

/-- A step of a call in phase `p`, as the other calls see it. -/
inductive Effect (cap : Nat) (data : List UInt8) (sm : SharedManager) (stored : List Stored)
    (p : Phase) : (Phase ⊕ Answer) × SharedManager → Prop where
  | moved (p' : Phase) : p'.inside = p.inside → p'.Fine cap sm.manager →
      Effect cap data sm stored p (.inl p', sm)
  | acquired (p' : Phase) : p.inside = false → p'.inside = true → sm.locked = false →
      p'.Fine cap sm.manager → Effect cap data sm stored p (.inl p', { sm with locked := true })
  | pushed (segment : Segment) : p.inside = true → segment.Holds cap [] →
      segment.path = sm.manager.segmentPath sm.manager.segments.length →
        Effect cap data sm stored p (.inl (.switching sm.manager.segments.length),
          { sm with
            manager := { sm.manager with segments := sm.manager.segments ++ [segment] } })
  | released (i : Nat) : p.inside = true → i < sm.manager.segments.length →
      Effect cap data sm stored p
        (.inl .looking, ⟨{ sm.manager with currentSegment := some i }, false⟩)
  | stored (i : Nat) (s s' : Segment) : p.inside = false → sm.manager.segments[i]? = some s →
      s'.Holds cap (bytesIn i stored ++ data) → s'.path = s.path →
        Effect cap data sm stored p (.inr ⟨some i, some (.ok (bytesIn i stored).length)⟩,
          { sm with manager := sm.manager.put i s' })
  | refused (e : FileError) : p.inside = true →
      Effect cap data sm stored p
        (.inr ⟨none, some (.error (fileMessage e))⟩, { sm with locked := false })

section
variable {cap : Nat} {fs : Files} {sm sm' : SharedManager} {m m' : SegmentManager} {c : Call}
  {p : Phase} {calls pre post : List Call} {stored : List Stored} {data : List UInt8}

theorem Kept.current_eq (h : Kept cap sm calls stored) : ∃ i s,
    sm.manager.currentSegment = some i ∧ sm.manager.segments[i]? = some s ∧
      sm.manager.current = some (i, s) := by
  obtain ⟨i, hcur, hlt⟩ := h.current
  refine ⟨i, sm.manager.segments[i], hcur, List.getElem?_eq_getElem hlt, ?_⟩
  simp only [SegmentManager.current, hcur, List.getElem?_eq_getElem hlt]

/-- **The spec of a step.** -/
theorem Kept.effect (h : Kept cap sm calls stored) (hc : c ∈ calls)
    {x : (Phase ⊕ Answer) × SharedManager} (hstep : c.phase.step fs c.data sm = some x) :
    Effect cap c.data sm stored c.phase x := by
  have hfine := h.fine c hc
  have hdata := h.fits c hc
  obtain ⟨data, phase⟩ := c
  obtain ⟨i₀, s₀, hcur, hget, hcurrent⟩ := h.current_eq
  have hlt : i₀ < sm.manager.segments.length := (List.getElem?_eq_some_iff.mp hget).1
  cases phase with
  | looking =>
      simp only [Phase.step, hcurrent] at hstep
      split at hstep
      · cases hstep
        exact .moved _ rfl hlt
      · cases hstep
        exact .moved _ rfl trivial
  | trying i =>
      have hi : i < sm.manager.segments.length := hfine
      obtain ⟨hholds, hpath⟩ := h.segments i _ (List.getElem?_eq_getElem hi)
      simp only [Phase.step, List.getElem?_eq_getElem hi] at hstep
      split at hstep
      · rename_i hspace
        rw [hholds.hasSpace_iff hdata] at hspace
        obtain ⟨s', happ, hholds'⟩ := hholds.append hspace
        rw [happ] at hstep
        cases hstep
        exact .stored i _ s' rfl (List.getElem?_eq_getElem hi) hholds' (Segment.append_path happ)
      · cases hstep
        exact .moved _ rfl trivial
  | waiting =>
      simp only [Phase.step] at hstep
      cases hlocked : sm.locked with
      | true => rw [hlocked] at hstep; cases hstep
      | false =>
          rw [hlocked] at hstep
          cases hstep
          exact .acquired _ rfl rfl hlocked trivial
  | checking =>
      simp only [Phase.step] at hstep
      split at hstep
      · cases hstep
        have hreleased : Effect cap data sm stored .checking
            (.inl .looking, ⟨{ sm.manager with currentSegment := some i₀ }, false⟩) :=
          .released i₀ rfl hlt
        rwa [← hcur] at hreleased
      · cases hstep
        exact .moved _ rfl trivial
  | counting =>
      cases hstep
      exact .moved _ rfl rfl
  | creating segmentId =>
      have hid : segmentId = sm.manager.segments.length := hfine
      cases hnew : Segment.new fs (sm.manager.segmentPath segmentId) sm.manager.segmentSize with
      | error message =>
          obtain ⟨e, rfl⟩ := Segment.new_error hnew
          simp only [Phase.step, hnew] at hstep
          cases hstep
          exact .refused e rfl
      | ok segment =>
          simp only [Phase.step, hnew] at hstep
          cases hstep
          refine .moved _ rfl ⟨?_, hid ▸ Segment.new_path hnew⟩
          rw [h.segmentSize] at hnew
          exact Segment.new_holds hnew
  | pushing segment =>
      cases hstep
      exact .pushed segment rfl hfine.1 hfine.2
  | switching i =>
      cases hstep
      exact .released i rfl hfine

/-! ### Each step keeps the invariant

What a call counts on stays where segments stay, and outside the lock it does not care
how many there are; while one call is inside no other is.  What is kept stays so when a
segment is pushed, in which nothing is stored, and when a payload is stored behind the
others of its segment. -/

theorem bytesIn_append (i : Nat) (xs ys : List Stored) :
    bytesIn i (xs ++ ys) = bytesIn i xs ++ bytesIn i ys := by
  rw [bytesIn, List.filter_append, List.map_append, List.flatten_append]
  rfl

theorem bytesIn_same (x : Stored) : bytesIn x.segment [x] = x.data := by
  simp only [bytesIn, List.filter_cons_of_pos, decide_true, List.filter_nil, List.map_cons,
    List.map_nil, List.flatten_singleton]

theorem bytesIn_other {i : Nat} {x : Stored} (h : x.segment ≠ i) : bytesIn i [x] = [] := by
  rw [bytesIn, List.filter_cons_of_neg (by simpa using h)]
  rfl

theorem Phase.Fine.congr (h : p.Fine cap m) (hlen : m'.segments.length = m.segments.length)
    (hpath : m'.segmentPath = m.segmentPath) : p.Fine cap m' := by
  cases p with
  | looking | waiting | checking | counting => trivial
  | trying i => exact Nat.lt_of_lt_of_eq h hlen.symm
  | switching i => exact Nat.lt_of_lt_of_eq h hlen.symm
  | creating segmentId => exact Eq.trans h hlen.symm
  | pushing segment => exact ⟨h.1, by rw [hpath, hlen]; exact h.2⟩

theorem Phase.Fine.grown (h : p.Fine cap m) (hout : p.inside = false)
    (hlen : m.segments.length ≤ m'.segments.length) : p.Fine cap m' := by
  cases p with
  | looking | waiting => trivial
  | trying i => exact Nat.lt_of_lt_of_le h hlen
  | checking | counting | creating | pushing | switching => cases hout

theorem Kept.others_outside (h : Kept cap sm (pre ++ c :: post) stored)
    (hc : c.phase.inside = true) :
    sm.locked = true ∧ ∀ c' ∈ pre ++ post, c'.phase.inside = false := by
  have hlock := h.lock
  rw [List.countP_append, List.countP_cons, if_pos hc] at hlock
  have hlocked : sm.locked = true := by
    cases hl : sm.locked with
    | true => rfl
    | false => rw [hl] at hlock; cases hlock
  rw [hlocked, if_pos rfl] at hlock
  refine ⟨hlocked, ?_⟩
  intro c' hc'
  have hnone : (pre ++ post).countP (fun c => c.phase.inside) = 0 := by
    rw [List.countP_append]
    omega
  exact Bool.eq_false_iff.mpr (List.countP_eq_zero.mp hnone c' hc')

theorem Kept.bytesIn_new (h : Kept cap sm calls stored) :
    bytesIn sm.manager.segments.length stored = [] := by
  have hnone : stored.filter (fun x => x.segment = sm.manager.segments.length) = [] := by
    rw [List.filter_eq_nil_iff]
    intro x hx heq
    obtain ⟨before, after, hsplit⟩ := List.append_of_mem hx
    have hlt := (h.placed before x after hsplit).1
    rw [of_decide_eq_true heq] at hlt
    exact Nat.lt_irrefl _ hlt
  rw [bytesIn, hnone]
  rfl

theorem Kept.pushed (h : Kept cap sm (pre ++ c :: post) stored) (hin : c.phase.inside = true)
    {segment : Segment} (hholds : segment.Holds cap [])
    (hpath : segment.path = sm.manager.segmentPath sm.manager.segments.length) :
    Kept cap { sm with manager := { sm.manager with segments := sm.manager.segments ++ [segment] } }
      (pre ++ ⟨c.data, .switching sm.manager.segments.length⟩ :: post) stored := by
  have hlen : (sm.manager.segments ++ [segment]).length = sm.manager.segments.length + 1 :=
    List.length_append
  obtain ⟨hlocked, hothers⟩ := h.others_outside hin
  refine { h with segments := ?_, current := ?_, placed := ?_, fits := ?_, fine := ?_, lock := ?_ }
  · intro i s hs
    have hs : (sm.manager.segments ++ [segment])[i]? = some s := hs
    rcases Lts.getElem?_of_concat hs with hs | ⟨rfl, rfl⟩
    · exact h.segments i s hs
    · exact ⟨h.bytesIn_new.symm ▸ hholds, hpath⟩
  · obtain ⟨i, hcur, hlt⟩ := h.current
    exact ⟨i, hcur, hlen ▸ Nat.lt_succ_of_lt hlt⟩
  · intro before x after hsplit
    obtain ⟨hlt, hoff⟩ := h.placed before x after hsplit
    exact ⟨hlen ▸ Nat.lt_succ_of_lt hlt, hoff⟩
  · exact Lts.forall_moved (Lts.forall_others h.fits)
      (h.fits c (List.mem_append_right _ List.mem_cons_self))
  · refine Lts.forall_moved ?_ ?_
    · intro c' hc'
      exact (Lts.forall_others h.fine c' hc').grown (hothers c' hc') (hlen ▸ Nat.le_succ _)
    · exact Nat.lt_of_lt_of_eq (Nat.lt_succ_self _) hlen.symm
  · have hlock := h.lock
    rw [List.countP_append, List.countP_cons, if_pos hin] at hlock
    rw [List.countP_append, List.countP_cons]
    exact hlock

theorem Kept.appended (h : Kept cap sm (pre ++ c :: post) stored) (hout : c.phase.inside = false)
    {i : Nat} {s s' : Segment} (hget : sm.manager.segments[i]? = some s)
    (hholds : s'.Holds cap (bytesIn i stored ++ c.data)) (hpath : s'.path = s.path) :
    Kept cap { sm with manager := sm.manager.put i s' } (pre ++ post)
      (stored ++ [⟨i, (bytesIn i stored).length, c.data⟩]) := by
  have hlen : (sm.manager.segments.set i s').length = sm.manager.segments.length :=
    List.length_set
  have hi : i < sm.manager.segments.length := (List.getElem?_eq_some_iff.mp hget).1
  refine { h with segments := ?_, current := ?_, placed := ?_, fits := ?_, fine := ?_, lock := ?_ }
  · intro j t ht
    have ht : (sm.manager.segments.set i s')[j]? = some t := ht
    rw [bytesIn_append]
    by_cases hj : i = j
    · subst hj
      rw [List.getElem?_set_self hi] at ht
      cases ht
      have hsame := bytesIn_same ⟨i, (bytesIn i stored).length, c.data⟩
      exact ⟨hsame.symm ▸ hholds, hpath.trans (h.segments i s hget).2⟩
    · rw [List.getElem?_set_ne hj] at ht
      rw [bytesIn_other hj, List.append_nil]
      exact h.segments j t ht
  · obtain ⟨j, hcur, hlt⟩ := h.current
    exact ⟨j, hcur, hlen.symm ▸ hlt⟩
  · intro before x after hsplit
    rcases List.eq_nil_or_concat after with rfl | ⟨after, last, rfl⟩
    · obtain ⟨rfl, hlast⟩ := List.append_inj' hsplit rfl
      cases hlast
      exact ⟨hlen.symm ▸ hi, rfl⟩
    · rw [List.concat_eq_append, ← List.cons_append, ← List.append_assoc] at hsplit
      obtain ⟨rfl, -⟩ := List.append_inj' hsplit rfl
      obtain ⟨hlt, hoff⟩ := h.placed before x after rfl
      exact ⟨hlen.symm ▸ hlt, hoff⟩
  · exact Lts.forall_others h.fits
  · exact fun c' hc' => (Lts.forall_others h.fine c' hc').congr hlen rfl
  · have hlock := h.lock
    rw [List.countP_append, List.countP_cons, hout] at hlock
    rw [List.countP_append]
    exact hlock

/-- **The step lemma**: a call that moves on or returns leaves what is kept, with
what it stored. -/
theorem Kept.step (h : Kept cap sm (pre ++ c :: post) stored) {x : (Phase ⊕ Answer) × SharedManager}
    (hstep : c.phase.step fs c.data sm = some x) :
    (∃ p, x.1 = .inl p ∧ Kept cap x.2 (pre ++ ⟨c.data, p⟩ :: post) stored) ∨
    ∃ a, x.1 = .inr a ∧ a.Good ∧ Kept cap x.2 (pre ++ post) (stored ++ a.stored c.data) := by
  have hmem : c ∈ pre ++ c :: post := List.mem_append_right _ List.mem_cons_self
  have hfits : ∀ p : Phase, ∀ c' ∈ pre ++ ⟨c.data, p⟩ :: post, c'.data.length ≤ isizeMax :=
    fun p => Lts.forall_moved (Lts.forall_others h.fits) (h.fits c hmem)
  have hfine := Lts.forall_others h.fine
  have hlock := h.lock
  rw [List.countP_append, List.countP_cons] at hlock
  have hcount : ∀ p : Phase, (pre ++ ⟨c.data, p⟩ :: post).countP (fun c => c.phase.inside)
      = pre.countP (fun c => c.phase.inside) +
        (post.countP (fun c => c.phase.inside) + if p.inside = true then 1 else 0) := by
    intro p
    rw [List.countP_append, List.countP_cons]
  cases h.effect hmem hstep with
  | moved p hsame hp =>
      refine Or.inl ⟨p, rfl, { h with fits := hfits p, fine := ?_, lock := ?_ }⟩
      · exact Lts.forall_moved hfine hp
      · rw [hcount, hsame]
        exact hlock
  | acquired p hout hin hfree hp =>
      refine Or.inl ⟨p, rfl, { h with fits := hfits p, fine := ?_, lock := ?_ }⟩
      · exact Lts.forall_moved hfine hp
      · rw [hfree, hout] at hlock
        rw [hcount, hin]
        simp only [Bool.false_eq_true, if_false, if_true] at hlock ⊢
        omega
  | pushed segment hin hholds hpath =>
      exact Or.inl ⟨_, rfl, h.pushed hin hholds hpath⟩
  | released i hin hlt =>
      obtain ⟨hlocked, -⟩ := h.others_outside hin
      refine Or.inl ⟨_, rfl, { h with
        current := ⟨i, rfl, hlt⟩, fits := hfits _, fine := ?_, lock := ?_ }⟩
      · exact Lts.forall_moved (fun c' hc' => (hfine c' hc').congr rfl rfl) trivial
      · rw [hlocked, hin] at hlock
        rw [hcount]
        simp only [Phase.inside, Bool.false_eq_true, if_false, if_true] at hlock ⊢
        omega
  | stored i s s' hout hget hholds hpath =>
      exact Or.inr ⟨_, rfl, .stored i _, h.appended hout hget hholds hpath⟩
  | refused e hin =>
      obtain ⟨hlocked, -⟩ := h.others_outside hin
      refine Or.inr ⟨_, rfl, .refused e, ?_⟩
      rw [Answer.stored, List.append_nil]
      · refine { h with fits := Lts.forall_others h.fits, fine := hfine, lock := ?_ }
        rw [hlocked, hin] at hlock
        rw [List.countP_append]
        simp only [Bool.false_eq_true, if_false, if_true] at hlock ⊢
        omega
      · rintro segment offset ⟨⟩

/-! ### Where the payloads are

In a segment the payloads stand one behind the other in the order in which they went in,
so each is at the sum of the lengths before it, which is the offset that was answered
for it. -/

/-- From position `a` on, the payloads fill the segment up to its write position,
one behind the other. -/
def TilesFrom (s : Segment) : Nat → List Stored → Prop
  | a, [] => a = s.writePos
  | a, x :: xs =>
      x.offset = a ∧ window s.mmap a x.data.length = x.data ∧ TilesFrom s (a + x.data.length) xs

/-- A payload is at the offset answered for it. -/
theorem Kept.stored_at (h : Kept cap sm calls stored) {before after : List Stored} {x : Stored}
    (hstored : stored = before ++ x :: after) : ∃ s, sm.manager.segments[x.segment]? = some s ∧
      x.offset + x.data.length ≤ s.writePos ∧ window s.mmap x.offset x.data.length = x.data := by
  obtain ⟨hlt, hoff⟩ := h.placed before x after hstored
  obtain ⟨hholds, -⟩ := h.segments x.segment _ (List.getElem?_eq_getElem hlt)
  have hbytes : bytesIn x.segment stored =
      bytesIn x.segment before ++ (x.data ++ bytesIn x.segment after) := by
    rw [hstored, bytesIn_append, ← List.singleton_append, bytesIn_append, bytesIn_same]
  have hfilled := hholds.filled
  rw [hbytes] at hfilled
  refine ⟨_, List.getElem?_eq_getElem hlt, ?_, hoff ▸ hfilled.window_eq⟩
  rw [hfilled.writePos, hoff, List.length_append, List.length_append]
  omega

theorem Kept.tilesFrom (h : Kept cap sm calls stored) {i : Nat} {s : Segment}
    (hs : sm.manager.segments[i]? = some s) {after before : List Stored}
    (hstored : stored = before ++ after) :
    TilesFrom s (bytesIn i before).length (after.filter (fun x => x.segment = i)) := by
  induction after generalizing before with
  | nil =>
      rw [List.append_nil] at hstored
      subst hstored
      exact (h.segments i s hs).1.filled.writePos.symm
  | cons x after ih =>
      have hrest : stored = (before ++ [x]) ++ after := by
        rw [hstored, List.append_assoc, List.singleton_append]
      have ih := ih hrest
      rw [bytesIn_append] at ih
      by_cases hx : x.segment = i
      · subst hx
        obtain ⟨s', hs', -, hwindow⟩ := h.stored_at hstored
        cases hs.symm.trans hs'
        have hoff := (h.placed before x after hstored).2
        rw [bytesIn_same, List.length_append] at ih
        have htile : TilesFrom s (bytesIn x.segment before).length
            (x :: after.filter (fun y => y.segment = x.segment)) := ⟨hoff, hoff ▸ hwindow, ih⟩
        rwa [List.filter_cons_of_pos (by simp)]
      · rw [bytesIn_other hx, List.append_nil] at ih
        rwa [List.filter_cons_of_neg (by simpa using hx)]

theorem Kept.started (h : Kept cap sm (pre ++ post) stored) (hdata : data.length ≤ isizeMax) :
    Kept cap sm (pre ++ ⟨data, .looking⟩ :: post) stored := by
  have hlock := h.lock
  refine { h with fits := ?_, fine := ?_, lock := ?_ }
  · exact Lts.forall_moved h.fits hdata
  · exact Lts.forall_moved h.fine trivial
  · rw [List.countP_append] at hlock ⊢
    exact hlock

theorem Kept.new {partitionId : Nat} {storageDir : String}
    (hnew : SegmentManager.new fs partitionId cap storageDir = .ok m) :
    Kept cap ⟨m, false⟩ [] [] := by
  have hcap := (SegmentManager.new_holds hnew).cap_le
  simp only [SegmentManager.new] at hnew
  split at hnew
  · cases hnew
  simp only [SegmentManager.createNewSegment] at hnew
  split at hnew
  · cases hnew
  rename_i segment hsegment
  cases hnew
  refine ⟨rfl, hcap, ?_, ⟨0, rfl, Nat.zero_lt_one⟩, ?_, ?_, ?_, rfl⟩
  · intro i s hs
    cases i with
    | zero =>
        cases hs
        exact ⟨Segment.new_holds hsegment, Segment.new_path hsegment⟩
    | succ i => cases hs
  · intro before x after hnil
    cases List.append_ne_nil_of_right_ne_nil before (List.cons_ne_nil x after) hnil.symm
  · intro c hc
    cases hc
  · intro c hc
    cases hc

theorem fileMessage_head (e : FileError) : (fileMessage e).toList.head? = some 'F' := by
  cases e with
  | opening e | settingLen e | mapping e =>
      show (_ ++ e).toList.head? = _
      rw [String.toList_append, List.head?_append]
      rfl

theorem fileMessage_ne_full (e : FileError) : fileMessage e ≠ "Segment full" := by
  intro h
  have hhead := fileMessage_head e
  rw [h] at hhead
  simp at hhead

theorem Answer.Good.returns {a : Answer} (h : a.Good) : a.result ≠ none := by
  intro hnone
  cases h with
  | stored segment offset => cases hnone
  | refused e => cases hnone

theorem Answer.Good.not_full {a : Answer} (h : a.Good) :
    a.result ≠ some (.error "Segment full") := by
  intro hfull
  cases h with
  | stored segment offset => cases hfull
  | refused e => exact fileMessage_ne_full e (Except.error.inj (Option.some.inj hfull))

end

/-! ## Many calls

Each call keeps what the segments hold, and no call in flight stands in another's way:
what one counts on, the others leave.  A call outside of the lock may have seen a segment
that is not the current one any more, and then it tries again. -/

namespace SegmentManager

/-- A shared manager, the calls in flight, and the others' payloads and answers. -/
structure World where
  shared : SharedManager
  calls : List Call
  returned : List (List UInt8 × Answer)

/-- A new call, or a step of the `i`-th in flight. -/
inductive Act where
  | start (data : List UInt8)
  | advance (i : Nat) (fs : Files)

namespace World

def ofManager (m : SegmentManager) : World := ⟨⟨m, false⟩, [], []⟩

def step (w : World) : Act → Option World
  | .start data => some { w with calls := w.calls ++ [⟨data, .looking⟩] }
  | .advance i fs =>
      match w.calls[i]? with
      | none => none
      | some c =>
          match c.phase.step fs c.data w.shared with
          | none => none
          | some (.inl phase, shared) =>
              some { w with shared, calls := w.calls.set i { c with phase } }
          | some (.inr answer, shared) =>
              some ⟨shared, w.calls.eraseIdx i, w.returned ++ [(c.data, answer)]⟩

/-- The payloads whose appends returned `Ok`, in that order. -/
def stored (w : World) : List Stored := w.returned.flatMap (fun x => x.2.stored x.1)

/-- What holds in every state. -/
structure Sound (w : World) : Prop where
  inside : ∀ s ∈ w.shared.manager.segments, s.writePos ≤ s.maxSize
  there : ∀ x ∈ w.stored, x.segment < w.shared.manager.segments.length
  tiled : ∀ i s, w.shared.manager.segments[i]? = some s →
    TilesFrom s 0 (w.stored.filter (fun x => x.segment = i))
  neverFull : ∀ x ∈ w.returned, x.2.result ≠ some (.error "Segment full")
  returns : ∀ x ∈ w.returned, x.2.result ≠ none
  files : ∀ (i j : Nat) (s t : Segment), w.shared.manager.segments[i]? = some s →
    w.shared.manager.segments[j]? = some t → s.path = t.path → i = j

/-- The calls keep the segments, and what has returned is good. -/
structure Settled (cap : Nat) (w : World) : Prop where
  kept : Kept cap w.shared w.calls w.stored
  good : ∀ x ∈ w.returned, x.2.Good

section
variable {cap : Nat} {w w' : World} {a : Act}

theorem Settled.step (h : Settled cap w)
    (hok : ∀ data, a = .start data → data.length ≤ isizeMax) (hstep : w.step a = some w') :
    Settled cap w' := by
  cases a with
  | start data =>
      cases hstep
      have hkept := h.kept
      rw [← List.append_nil w.calls] at hkept
      exact ⟨hkept.started (hok data rfl), h.good⟩
  | advance i fs =>
      cases hcall : w.calls[i]? with
      | none =>
          simp only [World.step, hcall] at hstep
          cases hstep
      | some c =>
          obtain ⟨pre, post, hcalls, hset, herase⟩ := Lts.exists_split hcall
          have hkept := h.kept
          rw [hcalls] at hkept
          cases hphase : c.phase.step fs c.data w.shared with
          | none =>
              simp only [World.step, hcall, hphase] at hstep
              cases hstep
          | some x =>
              obtain ⟨next, shared⟩ := x
              rcases hkept.step hphase with ⟨p, rfl, hmoved⟩ | ⟨answer, rfl, hgood, hreturned⟩
              · simp only [World.step, hcall, hphase, hset] at hstep
                cases hstep
                exact ⟨hmoved, h.good⟩
              · simp only [World.step, hcall, hphase, herase] at hstep
                cases hstep
                refine ⟨?_, List.forall_mem_append.mpr ⟨h.good, List.forall_mem_singleton.mpr hgood⟩⟩
                have hstored : (w.returned ++ [(c.data, answer)]).flatMap (fun x => x.2.stored x.1)
                    = w.stored ++ answer.stored c.data := by
                  rw [List.flatMap_append, List.flatMap_singleton]
                  rfl
                rw [World.stored, hstored]
                exact hreturned

theorem Settled.sound (h : Settled cap w) : w.Sound where
  inside := by
    intro s hs
    obtain ⟨i, hi⟩ := List.mem_iff_getElem?.mp hs
    exact (h.kept.segments i s hi).1.filled.inside
  there := by
    intro x hx
    obtain ⟨before, after, hsplit⟩ := List.append_of_mem hx
    exact (h.kept.placed before x after hsplit).1
  tiled := fun i s hs => h.kept.tilesFrom hs (List.nil_append w.stored).symm
  neverFull := fun x hx => (h.good x hx).not_full
  returns := fun x hx => (h.good x hx).returns
  files := by
    intro i j s t hi hj hpath
    rw [(h.kept.segments i s hi).2, (h.kept.segments j t hj).2] at hpath
    exact segmentPath_injective hpath

end

end World

/-- **Concurrent appends to a partition.**  Any interleaving of any number of
appends of payloads no longer than a segment leaves every segment inside its size
and tiled by the payloads stored there; no append ever finds a segment full. -/
theorem concurrent_appends_tile (fs : Files) (partitionId segmentSize : Nat) (storageDir : String)
    (m : SegmentManager) (hnew : SegmentManager.new fs partitionId segmentSize storageDir = .ok m)
    (acts : List Act) (hfit : ∀ data, Act.start data ∈ acts → data.length ≤ segmentSize)
    (w : World) (hrun : Lts.run World.step (World.ofManager m) acts = some w) : w.Sound := by
  have hinit : World.Settled segmentSize (World.ofManager m) := ⟨Kept.new hnew, nofun⟩
  have hok : Lts.Guarded World.step
      (fun _ a => True ∧ ∀ data, a = .start data → data.length ≤ isizeMax)
      (World.ofManager m) acts := by
    refine (Lts.Guarded.of_forall (fun _ _ => trivial) acts _).and_forall ?_
    rintro a ha data rfl
    exact (hfit data ha).trans (SegmentManager.new_holds hnew).cap_le
  have hsettled : World.Settled segmentSize w := by
    refine Lts.Guarded.invariant (World.Settled segmentSize) ?_ hinit hok hrun
    intro w a w' h ha hstep
    exact h.step ha.2 hstep
  exact hsettled.sound

/-- Two appends that both find space in a segment with room for one of them; the
other creates a segment. -/
theorem concurrent_appends_tile_two : ∃ m w,
    SegmentManager.new Files.fresh 1 4 "data" = .ok m ∧
    Lts.run World.step (World.ofManager m)
      ([.start [1, 2, 3], .start [4, 5], .advance 0 Files.fresh, .advance 1 Files.fresh,
        .advance 0 Files.fresh] ++ List.replicate 9 (.advance 0 Files.fresh)) = some w ∧
    w.calls = [] ∧ w.stored = [⟨0, 0, [1, 2, 3]⟩, ⟨1, 0, [4, 5]⟩] ∧ w.Sound := by
  refine ⟨_, _, rfl, rfl, rfl, rfl, ?_⟩
  refine concurrent_appends_tile Files.fresh 1 4 "data" _ rfl
    ([.start [1, 2, 3], .start [4, 5], .advance 0 Files.fresh, .advance 1 Files.fresh,
      .advance 0 Files.fresh] ++ List.replicate 9 (.advance 0 Files.fresh)) ?_ _ rfl
  intro data hmem
  simp at hmem
  rcases hmem with rfl | rfl
  · decide
  · decide

end SegmentManager

end Dolda.PersistQ
