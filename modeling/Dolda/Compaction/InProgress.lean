/-
# `Dolda.Compaction.InProgress` — one compaction at a time

Any number of tasks may call `compact_segment` on one manager.  What they share
is the in-progress flag and the statistics; a state is those, the calls in
flight and what has been returned (`World`), and an interleaving is a list of
labels.  A label that advances a call brings along what the call meets there:
what the file system answers and what its source segment holds by then.

**The flag** is set in one place and cleared in one place, by the last piece of
a call that comes to its end.  A call that leaves between the two, by an error or
a panic, leaves the flag set, and then no call ever gets past the check again.
So the flag means what it says exactly in the runs in which no call leaves early
(`in_progress_iff`).
-/
import Dolda.Lib.Lts
import Dolda.Compaction.Copy

namespace Dolda.Compaction

open Storage

/-! ## The system -/

namespace CompactCall

/-- Past the check-and-set and not yet returned. -/
def active (c : CompactCall) : Bool :=
  match c.phase with
  | .checking => false
  | .creating | .copying _ _ _ _ | .counting _ _ _ | .clearing _ => true

/-- In the copy loop. -/
def isCopying (c : CompactCall) : Bool :=
  match c.phase with
  | .copying _ _ _ _ => true
  | .checking | .creating | .counting _ _ _ | .clearing _ => false

/-- The next piece of the call does not leave it early: the output is created,
reading the source does not panic, and the record read fits the output. -/
def Proceeds (H : Hasher) (fs : Files) (segment : RecordSegment) (m : CompactionManager)
    (c : CompactCall) : Prop :=
  match c.phase with
  | .creating => ∃ newSegment, RecordSegment.new fs c.outputPath m.policy.targetSegmentSize
      segment.indexEnabled = .ok newSegment
  | .copying it newSegment _ _ =>
      match it.next H segment with
      | none => False
      | some (some (.ok (_, record)), _) => newSegment.hasSpace record.serializedSize = true
      | some (none, _) | some (some (.error _), _) => True
  | .checking | .counting _ _ _ | .clearing _ => True

end CompactCall

structure World where
  manager : CompactionManager
  calls : List CompactCall
  returned : List CompactResult

/-- A label: a task calls `compact_segment`, or the `i`-th call in flight takes
its next piece. -/
inductive Act where
  | start (outputPath : String)
  | advance (i : Nat) (fs : Files) (segment : RecordSegment)

namespace World

def ofManager (m : CompactionManager) : World := ⟨m, [], []⟩

def step (H : Hasher) (w : World) : Act → Option World
  | .start outputPath => some { w with calls := w.calls ++ [⟨outputPath, .checking⟩] }
  | .advance i fs segment =>
      match w.calls[i]? with
      | none => none
      | some c =>
          match c.step H fs segment w.manager with
          | (.inl c, manager) => some { w with manager, calls := w.calls.set i c }
          | (.inr result, manager) =>
              some { manager, calls := w.calls.eraseIdx i, returned := w.returned ++ [result] }

/-- No call leaves early. -/
def Proceeds (H : Hasher) (w : World) : Act → Prop
  | .start _ => True
  | .advance i fs segment => ∀ c, w.calls[i]? = some c → c.Proceeds H fs segment w.manager

/-- What the flag is for. -/
structure Exclusive (H : Hasher) (w : World) : Prop where
  /-- It is set while a call is between setting it and returning. -/
  flag : w.manager.inProgress = true ↔ ∃ c ∈ w.calls, c.active = true
  oneActive : (w.calls.filter CompactCall.active).length ≤ 1
  oneCopying : (w.calls.filter CompactCall.isCopying).length ≤ 1
  /-- A call refused changes nothing. -/
  refused : ∀ {i fs segment w'}, w.step H (.advance i fs segment) = some w' →
    w'.returned = w.returned ++ [some (.error .inProgress)] →
      w'.manager = w.manager ∧ w'.calls = w.calls.eraseIdx i
  /-- With no call in flight the next is let in. -/
  letsIn : w.calls = [] → ∀ outputPath fs segment, ∃ c m,
    CompactCall.step H fs segment ⟨outputPath, .checking⟩ w.manager = (.inl c, m)

end World

/-! ## What one piece of a call can do -/

/-- The output of a call in its copy loop has its write position inside. -/
def CompactCall.OutputInside (c : CompactCall) : Prop :=
  match c.phase with
  | .copying _ newSegment _ _ => newSegment.writePos ≤ newSegment.maxSize
  | .checking | .creating | .counting _ _ _ | .clearing _ => True

/-- A piece of a call, as the flag sees it; `proceeds` says whether the call
stays. -/
inductive Effect (m : CompactionManager) (active proceeds : Prop) :
    (CompactCall ⊕ CompactResult) × CompactionManager → Prop where
  | refused : ¬ active → proceeds → m.inProgress = true →
      Effect m active proceeds (.inr (some (.error .inProgress)), m)
  | entered (c : CompactCall) : ¬ active → proceeds → m.inProgress = false → c.active = true →
      c.OutputInside → Effect m active proceeds (.inl c, { m with inProgress := true })
  | wentOn (c : CompactCall) (stats : CompactionStats) : active → proceeds → c.active = true →
      c.OutputInside → Effect m active proceeds (.inl c, { m with stats := stats })
  | finished (newSegment : RecordSegment) : active → proceeds →
      Effect m active proceeds (.inr (some (.ok newSegment)), { m with inProgress := false })
  | left (result : CompactResult) : active → ¬ proceeds → result ≠ some (.error .inProgress) →
      Effect m active proceeds (.inr result, m)

section
variable {H : Hasher} {fs : Files} {segment : RecordSegment} {m : CompactionManager}
  {c : CompactCall}

/-- **The spec of a piece.** -/
theorem CompactCall.step_effect (H : Hasher) (fs : Files) (segment : RecordSegment)
    (m : CompactionManager) (hout : c.OutputInside) :
    Effect m (c.active = true) (c.Proceeds H fs segment m) (c.step H fs segment m) := by
  obtain ⟨outputPath, phase⟩ := c
  cases phase with
  | checking =>
      cases hbusy : m.inProgress with
      | true =>
          simp only [CompactCall.step, hbusy, if_true]
          exact .refused Bool.false_ne_true trivial hbusy
      | false =>
          simp only [CompactCall.step, hbusy, Bool.false_eq_true, if_false]
          exact .entered _ Bool.false_ne_true trivial hbusy rfl trivial
  | creating =>
      cases hnew : RecordSegment.new fs outputPath m.policy.targetSegmentSize
          segment.indexEnabled with
      | error e =>
          simp only [CompactCall.step, hnew]
          refine .left _ rfl ?_ (fun h => by cases h)
          rintro ⟨newSegment, hok⟩
          cases hnew.symm.trans hok
      | ok newSegment =>
          simp only [CompactCall.step, hnew]
          have hfilled := (RecordSegment.new_ok hnew).1
          exact .wentOn _ m.stats rfl ⟨newSegment, hnew⟩ rfl hfilled.inside
  | copying it newSegment skipped saved =>
      rcases hnext : it.next H segment with _ | ⟨_ | e | ⟨offset, record⟩, it'⟩
      · simp only [CompactCall.step, hnext]
        refine .left _ rfl ?_ (fun h => by cases h)
        intro h
        simp only [Proceeds, hnext] at h
      · simp only [CompactCall.step, hnext]
        refine .wentOn _ m.stats rfl ?_ rfl trivial
        simp only [Proceeds, hnext]
      · simp only [CompactCall.step, hnext]
        refine .wentOn _ m.stats rfl ?_ rfl hout
        simp only [Proceeds, hnext]
      · have hsize : record.serializedSize ≤ isizeMax := (next_valid hnext).size_le
        simp only [CompactCall.step, hnext, shouldKeepRecord, if_true]
        rcases RecordSegment.appendRecord_cases H hout hsize with
          ⟨hfit, hspace, happ⟩ | ⟨hspace, happ⟩
        · rw [happ]
          refine .wentOn _ m.stats rfl ?_ rfl ?_
          · simpa only [Proceeds, hnext] using hspace
          · show (newSegment.appended H record hfit).writePos ≤ newSegment.maxSize
            rw [RecordSegment.appended_writePos]
            exact hfit
        · rw [happ]
          refine .left _ rfl ?_ (fun h => by cases h)
          intro h
          simp only [Proceeds, hnext, hspace] at h
          cases h
  | counting newSegment skipped saved => exact .wentOn _ _ rfl trivial rfl trivial
  | clearing newSegment => exact .finished newSegment rfl trivial

/-- A call that is not active is not in its copy loop. -/
theorem CompactCall.OutputInside.of_inactive (h : c.active = false) : c.OutputInside := by
  obtain ⟨outputPath, phase⟩ := c
  cases phase with
  | checking => exact trivial
  | creating | copying | counting | clearing => cases h

theorem CompactCall.active_of_isCopying (h : c.isCopying = true) : c.active = true := by
  obtain ⟨outputPath, phase⟩ := c
  cases phase with
  | checking | creating | counting | clearing => cases h
  | copying => rfl

end

/-! ## What a step can do

The invariant counts: as many calls are active as the flag says.  The calls around the
one that moves keep their count, so a step is judged by what its own call does to the
flag and to its being active.  Only a call that leaves early takes itself off the count
and leaves the flag; from then on no call is left that could clear it, and nothing any
other does changes that. -/

namespace World

section
variable {H : Hasher} {w w' : World} {a : Act}

theorem step_cases (h : w.step H a = some w') :
    (∃ outputPath, a = .start outputPath ∧
      w' = ⟨w.manager, w.calls ++ [⟨outputPath, .checking⟩], w.returned⟩) ∨
    ∃ i fs segment pre c post, a = .advance i fs segment ∧ w.calls[i]? = some c ∧
      w.calls = pre ++ c :: post ∧ w.calls.eraseIdx i = pre ++ post ∧
      ((∃ c' m, c.step H fs segment w.manager = (.inl c', m) ∧
          w' = ⟨m, pre ++ c' :: post, w.returned⟩) ∨
        ∃ result m, c.step H fs segment w.manager = (.inr result, m) ∧
          w' = ⟨m, pre ++ post, w.returned ++ [result]⟩) := by
  cases a with
  | start outputPath =>
      cases h
      exact Or.inl ⟨outputPath, rfl, rfl⟩
  | advance i fs segment =>
      refine Or.inr ?_
      cases hi : w.calls[i]? with
      | none => simp only [step, hi] at h; cases h
      | some c =>
          obtain ⟨pre, post, hcalls, hset, herase⟩ := Lts.exists_split hi
          refine ⟨i, fs, segment, pre, c, post, rfl, hi, hcalls, herase, ?_⟩
          simp only [step, hi, hset, herase] at h
          rcases hstep : c.step H fs segment w.manager with ⟨c' | result, m⟩
          · rw [hstep] at h
            exact Or.inl ⟨c', m, rfl, by cases h; rfl⟩
          · rw [hstep] at h
            exact Or.inr ⟨result, m, rfl, by cases h; rfl⟩

/-- As many calls are active as the flag says. -/
structure Orderly (w : World) : Prop where
  counted : (w.calls.filter CompactCall.active).length = if w.manager.inProgress then 1 else 0
  outputs : ∀ c ∈ w.calls, c.OutputInside

/-- The flag is set and no call is left to clear it. -/
structure Stuck (w : World) : Prop where
  flag : w.manager.inProgress = true
  inactive : ∀ c ∈ w.calls, c.active = false

/-- The active calls around the one that moves. -/
def others (pre post : List CompactCall) : Nat :=
  (pre.filter CompactCall.active).length + (post.filter CompactCall.active).length

theorem count_split (pre post : List CompactCall) (c : CompactCall) :
    ((pre ++ c :: post).filter CompactCall.active).length
      = others pre post + if c.active then 1 else 0 := by
  rw [List.filter_append, List.filter_cons, List.length_append, others]
  split
  · rw [List.length_cons, Nat.add_assoc]
  · rw [Nat.add_zero]

theorem count_join (pre post : List CompactCall) :
    ((pre ++ post).filter CompactCall.active).length = others pre post := by
  rw [List.filter_append, List.length_append, others]

theorem Orderly.start (outputPath : String) (h : w.Orderly) :
    Orderly ⟨w.manager, w.calls ++ [⟨outputPath, .checking⟩], w.returned⟩ where
  counted := by
    rw [List.filter_append, List.length_append]
    exact h.counted
  outputs c hc := by
    rcases List.mem_append.mp hc with hc | hc
    · exact h.outputs c hc
    · rw [List.mem_singleton.mp hc]
      exact trivial

theorem outputs_of_split {pre post : List CompactCall} {c : CompactCall}
    (h : ∀ x ∈ pre ++ c :: post, x.OutputInside) : ∀ x ∈ pre ++ post, x.OutputInside := by
  intro x hx
  refine h x ?_
  rcases List.mem_append.mp hx with hx | hx
  · exact List.mem_append_left _ hx
  · exact List.mem_append_right _ (List.mem_cons_of_mem _ hx)

theorem outputs_join {pre post : List CompactCall} {c : CompactCall}
    (h : ∀ x ∈ pre ++ post, x.OutputInside) (hc : c.OutputInside) :
    ∀ x ∈ pre ++ c :: post, x.OutputInside := by
  intro x hx
  rcases List.mem_append.mp hx with hx | hx
  · exact h x (List.mem_append_left _ hx)
  · rcases List.mem_cons.mp hx with rfl | hx
    · exact hc
    · exact h x (List.mem_append_right _ hx)

/-- **Steps of calls that stay** keep the flag in step with the calls. -/
theorem Orderly.keep (h : w.Orderly) (hok : w.Proceeds H a) (hstep : w.step H a = some w') :
    w'.Orderly := by
  rcases step_cases hstep with ⟨outputPath, rfl, rfl⟩ |
    ⟨i, fs, segment, pre, c, post, rfl, hi, hcalls, -, hmove⟩
  · exact h.start outputPath
  obtain ⟨hcounted, houtputs⟩ := h
  rw [hcalls, count_split] at hcounted
  rw [hcalls] at houtputs
  have hrest := outputs_of_split houtputs
  have hproceeds := hok c hi
  have heff := c.step_effect H fs segment w.manager (houtputs c (by simp))
  rcases hmove with ⟨c', m, hpiece, rfl⟩ | ⟨result, m, hpiece, rfl⟩
  · rw [hpiece] at heff
    cases heff with
    | entered _ hinactive _ hidle hactive hout =>
        refine ⟨?_, outputs_join hrest hout⟩
        rw [if_neg hinactive, hidle] at hcounted
        rw [count_split, if_pos hactive]
        exact congrArg (· + 1) hcounted
    | wentOn _ stats hwas _ hactive hout =>
        refine ⟨?_, outputs_join hrest hout⟩
        rw [if_pos hwas] at hcounted
        rw [count_split, if_pos hactive]
        exact hcounted
  · rw [hpiece] at heff
    cases heff with
    | refused hinactive _ _ =>
        refine ⟨?_, hrest⟩
        rw [if_neg hinactive] at hcounted
        rw [count_join]
        exact hcounted
    | finished newSegment hwas _ =>
        refine ⟨?_, hrest⟩
        rw [if_pos hwas] at hcounted
        rw [count_join]
        show others pre post = 0
        split at hcounted <;> omega
    | left _ _ hleft _ => exact absurd hproceeds hleft

/-- **A call that leaves early** leaves the flag set behind it. -/
theorem Orderly.break (h : w.Orderly) (hnot : ¬ w.Proceeds H a)
    (hstep : w.step H a = some w') : w'.Stuck := by
  rcases step_cases hstep with ⟨outputPath, rfl, rfl⟩ |
    ⟨i, fs, segment, pre, c, post, rfl, hi, hcalls, -, hmove⟩
  · exact absurd trivial hnot
  obtain ⟨hcounted, houtputs⟩ := h
  rw [hcalls, count_split] at hcounted
  rw [hcalls] at houtputs
  have hleft : ¬ c.Proceeds H fs segment w.manager := by
    intro hc
    refine hnot ?_
    intro c' hc'
    cases hi.symm.trans hc'
    exact hc
  have heff := c.step_effect H fs segment w.manager (houtputs c (by simp))
  rcases hmove with ⟨c', m, hpiece, rfl⟩ | ⟨result, m, hpiece, rfl⟩
  · rw [hpiece] at heff
    cases heff with
    | entered _ _ hc => exact absurd hc hleft
    | wentOn _ _ _ hc => exact absurd hc hleft
  · rw [hpiece] at heff
    cases heff with
    | refused _ hc => exact absurd hc hleft
    | finished _ _ hc => exact absurd hc hleft
    | left _ hwas _ _ =>
        rw [if_pos hwas] at hcounted
        have hnone : ((pre ++ post).filter CompactCall.active).length = 0 := by
          rw [count_join]
          split at hcounted <;> omega
        refine ⟨?_, ?_⟩
        · show w.manager.inProgress = true
          by_contra hidle
          rw [if_neg hidle] at hcounted
          omega
        · intro x hx
          have hnil := List.length_eq_zero_iff.mp hnone
          rw [List.filter_eq_nil_iff] at hnil
          simpa using hnil x hx

theorem Stuck.stay (h : w.Stuck) (hstep : w.step H a = some w') : w'.Stuck := by
  rcases step_cases hstep with ⟨outputPath, rfl, rfl⟩ |
    ⟨i, fs, segment, pre, c, post, rfl, hi, hcalls, -, hmove⟩
  · refine ⟨h.flag, ?_⟩
    intro c hc
    rcases List.mem_append.mp hc with hc | hc
    · exact h.inactive c hc
    · rw [List.mem_singleton.mp hc]
      rfl
  have hinactive : c.active = false := h.inactive c (by rw [hcalls]; simp)
  have hother : ∀ x ∈ pre ++ post, x.active = false := by
    intro x hx
    refine h.inactive x ?_
    rw [hcalls]
    rcases List.mem_append.mp hx with hx | hx
    · exact List.mem_append_left _ hx
    · exact List.mem_append_right _ (List.mem_cons_of_mem _ hx)
  have heff := c.step_effect H fs segment w.manager (.of_inactive hinactive)
  rw [hinactive] at heff
  rcases hmove with ⟨c', m, hpiece, rfl⟩ | ⟨result, m, hpiece, rfl⟩
  · rw [hpiece] at heff
    cases heff with
    | entered _ _ _ hidle => exact absurd h.flag (by rw [hidle]; exact Bool.false_ne_true)
    | wentOn _ _ hwas => cases hwas
  · rw [hpiece] at heff
    cases heff with
    | refused => exact ⟨h.flag, hother⟩
    | finished _ hwas => cases hwas
    | left _ hwas => cases hwas

/-! ## What the flag is worth

In step with the calls, the flag admits one at a time.  Stuck, it is set with no call
active, which is not what it says; so the condition is also necessary. -/

theorem Orderly.exclusive (h : w.Orderly) : w.Exclusive H := by
  obtain ⟨hcounted, houtputs⟩ := h
  have hle : (w.calls.filter CompactCall.active).length ≤ 1 := by
    rw [hcounted]
    split <;> omega
  refine ⟨?_, hle, ?_, ?_, ?_⟩
  · constructor
    · intro hflag
      rw [if_pos hflag] at hcounted
      obtain ⟨c, hc⟩ := List.exists_mem_of_length_pos (by rw [hcounted]; exact Nat.one_pos)
      exact ⟨c, (List.mem_filter.mp hc).1, (List.mem_filter.mp hc).2⟩
    · rintro ⟨c, hc, hactive⟩
      by_contra hidle
      rw [if_neg hidle] at hcounted
      have hpos := List.length_pos_of_mem (List.mem_filter.mpr ⟨hc, hactive⟩)
      omega
  · refine Nat.le_trans ?_ hle
    rw [← List.countP_eq_length_filter, ← List.countP_eq_length_filter]
    exact List.countP_mono_left (fun c _ => CompactCall.active_of_isCopying)
  · intro i fs segment w' hstep hrefused
    rcases step_cases hstep with ⟨outputPath, ha, -⟩ |
      ⟨i, fs, segment, pre, c, post, ha, hi, hcalls, herase, hmove⟩
    · cases ha
    cases ha
    have heff := c.step_effect H fs segment w.manager (houtputs c (by rw [hcalls]; simp))
    rcases hmove with ⟨c', m, hpiece, rfl⟩ | ⟨result, m, hpiece, rfl⟩
    · simp at hrefused
    · obtain rfl : result = some (.error .inProgress) := by simpa using hrefused
      rw [hpiece] at heff
      cases heff with
      | refused => exact ⟨rfl, herase.symm⟩
      | left _ _ _ hne => exact absurd rfl hne
  · intro hcalls outputPath fs segment
    have hidle : w.manager.inProgress = false := by
      rw [hcalls] at hcounted
      by_contra hflag
      rw [if_pos (by simpa using hflag)] at hcounted
      cases hcounted
    refine ⟨⟨outputPath, .creating⟩, { w.manager with inProgress := true }, ?_⟩
    simp only [CompactCall.step, hidle, Bool.false_eq_true, if_false]

theorem Stuck.not_exclusive (h : w.Stuck) : ¬ w.Exclusive H := by
  intro hex
  obtain ⟨c, hc, hactive⟩ := hex.flag.mp h.flag
  rw [h.inactive c hc] at hactive
  cases hactive

end

end World

/-- **The in-progress flag.**  In the state any interleaving of compactions
reaches, the flag is set exactly while one call is between setting it and
returning, at most one call copies, a refused call has changed nothing and an
idle manager lets the next call in, iff no call left early on the way: every
output could be created, no read panicked and every record copied fitted. -/
theorem in_progress_iff (H : Hasher) (policy : CompactionPolicy) (acts : List Act) (w : World)
    (hrun : Lts.run (World.step H) (World.ofManager (.new policy)) acts = some w) :
    w.Exclusive H ↔
      Lts.Guarded (World.step H) (World.Proceeds H) (World.ofManager (.new policy)) acts := by
  have hstart : (World.ofManager (.new policy)).Orderly := by
    refine ⟨rfl, ?_⟩
    intro c hc
    cases hc
  rcases Lts.guarded_or_broken World.Orderly World.Stuck World.Orderly.keep World.Orderly.break
      World.Stuck.stay hstart hrun with ⟨hok, horderly⟩ | ⟨hnot, hstuck⟩
  · exact iff_of_true horderly.exclusive hok
  · exact iff_of_false hstuck.not_exclusive hnot

/-- Two compactions of a segment with nothing in it, the second refused while
the first copies. -/
theorem in_progress_iff_two : ∃ w,
    Lts.run (World.step crc32Hasher) (World.ofManager (.new ⟨64⟩))
      [.start "a.dat", .advance 0 Files.fresh { storedSegment with writePos := 0 },
        .advance 0 Files.fresh { storedSegment with writePos := 0 }, .start "b.dat",
        .advance 1 Files.fresh storedSegment,
        .advance 0 Files.fresh { storedSegment with writePos := 0 },
        .advance 0 Files.fresh storedSegment, .advance 0 Files.fresh storedSegment] = some w ∧
    (w.Exclusive crc32Hasher ↔
      Lts.Guarded (World.step crc32Hasher) (World.Proceeds crc32Hasher)
        (World.ofManager (.new ⟨64⟩))
        [.start "a.dat", .advance 0 Files.fresh { storedSegment with writePos := 0 },
          .advance 0 Files.fresh { storedSegment with writePos := 0 }, .start "b.dat",
          .advance 1 Files.fresh storedSegment,
          .advance 0 Files.fresh { storedSegment with writePos := 0 },
          .advance 0 Files.fresh storedSegment, .advance 0 Files.fresh storedSegment]) :=
  ⟨_, rfl, in_progress_iff crc32Hasher ⟨64⟩ _ _ rfl⟩

/-- A file system that lets no file be created. -/
def deniedFiles : Files := { Files.fresh with openFile := fun _ => .error "Permission denied" }

/-- **One output that cannot be created ends all compaction**: the call returns
its error with the flag set, and the next call, made on an idle manager with a
file system that is whole again, is refused. -/
theorem failed_creation_blocks : ∃ w,
    Lts.run (World.step crc32Hasher) (World.ofManager (.new ⟨64⟩))
      [.start "a.dat", .advance 0 deniedFiles storedSegment,
        .advance 0 deniedFiles storedSegment, .start "a.dat",
        .advance 0 Files.fresh storedSegment] = some w ∧
    w.calls = [] ∧ w.manager.inProgress = true ∧
    w.returned = [some (.error (.storage (.io "Permission denied"))), some (.error .inProgress)] ∧
    ¬ w.Exclusive crc32Hasher := by
  refine ⟨_, rfl, rfl, rfl, rfl, ?_⟩
  intro h
  obtain ⟨c, hc, -⟩ := h.flag.mp rfl
  cases hc

end Dolda.Compaction
