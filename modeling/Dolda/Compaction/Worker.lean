/-
# `Dolda.Compaction.Worker` — compaction in the background

`start_background_worker` of `src/compaction.rs`: at each tick the worker is given
segments with their ages, compacts those that need it one after another, and stops at so
many successes.  It shares its manager with any number of other tasks that compact, so a
state is the worker beside a world of calls (`Background`).

All calls together are a world (`Background.whole`), in which a move of the worker is a
step like any other (`whole_step`).  So what holds of every interleaving of calls holds
with the worker among them: the statistics count the successes, and never a byte
(`compaction_tally`); and after one call has left early nothing is ever compacted again,
neither by the worker at any tick nor by anyone else (`worker_blocked`).

The utilization is an `f64`; what is done with it stands behind `Ratios`.
-/
import Dolda.Compaction.InProgress

namespace Dolda.Compaction

open Storage

/-- What is done with utilizations. -/
structure Ratios (F : Type) where
  /-- `a as f64 / b as f64`. -/
  div : Nat → Nat → F
  one : F
  lt : F → F → Bool

/-- What the worker reads of the policy. -/
structure WorkerPolicy (F : Type) extends CompactionPolicy where
  minUtilization : F
  minAge : Nat
  maxSegmentsPerRun : Nat
  autoCompact : Bool

def needsCompaction {F : Type} (R : Ratios F) (policy : WorkerPolicy F) (stats : SegmentStats)
    (age : Nat) : Bool :=
  let utilization := if 0 < stats.maxSize then R.div stats.usedBytes stats.maxSize else R.one
  R.lt utilization policy.minUtilization && decide (policy.minAge ≤ age)

/-! ## The worker -/

structure Worker where
  /-- Its task has neither returned at once nor panicked. -/
  running : Bool
  /-- The ages of the candidates of this tick still to be looked at. -/
  ages : List Nat
  compacted : Nat
  call : Option CompactCall

def CompactResult.isOk (result : CompactResult) : Bool :=
  match result with
  | some (.ok _) => true
  | some (.error _) | none => false

/-- The worker with the result of its call; a panic ends its task. -/
def Worker.took (maxSegmentsPerRun : Nat) (result : CompactResult) (w : Worker) : Worker :=
  match result with
  | none => { w with running := false, ages := [], call := none }
  | some _ =>
      let compacted := if CompactResult.isOk result then w.compacted + 1 else w.compacted
      { w with
        ages := if maxSegmentsPerRun ≤ compacted then [] else w.ages
        compacted, call := none }

structure Background where
  world : World
  worker : Worker

/-- A label: something happens among the other tasks, or the worker is given the
candidates of a tick, looks at the next one, or takes the next piece of its call.  A label
brings along what the segment holds by then. -/
inductive Move where
  | other (a : Act)
  | tick (ages : List Nat)
  | look (segment : RecordSegment)
  | advance (fs : Files) (segment : RecordSegment)

namespace Background

variable {F : Type}

def start (policy : WorkerPolicy F) : Background where
  world := .ofManager (.new policy.toCompactionPolicy)
  worker := { running := policy.autoCompact, ages := [], compacted := 0, call := none }

def step (H : Hasher) (R : Ratios F) (policy : WorkerPolicy F) (b : Background) :
    Move → Option Background
  | .other a =>
      match b.world.step H a with
      | none => none
      | some world => some { b with world }
  | .tick ages =>
      match b.worker.running, b.worker.ages, b.worker.call with
      | true, [], none => some { b with worker := { b.worker with ages, compacted := 0 } }
      | _, _, _ => none
  | .look segment =>
      match b.worker.ages, b.worker.call with
      | age :: ages, none =>
          let stats := segment.stats
          let call :=
            if needsCompaction R policy stats age then
              some (CompactCall.mk (stats.path ++ ".compacted") .checking)
            else none
          some { b with worker := { b.worker with ages, call } }
      | _, _ => none
  | .advance fs segment =>
      match b.worker.call with
      | none => none
      | some c =>
          match c.step H fs segment b.world.manager with
          | (.inl c, manager) =>
              some
                { world := { b.world with manager }
                  worker := { b.worker with call := some c } }
          | (.inr result, manager) =>
              some
                { world := { b.world with manager, returned := b.world.returned ++ [result] }
                  worker := b.worker.took policy.maxSegmentsPerRun result }

/-- No call leaves early. -/
def Proceeds (H : Hasher) (b : Background) : Move → Prop
  | .other a => b.world.Proceeds H a
  | .tick _ | .look _ => True
  | .advance fs segment =>
      ∀ c, b.worker.call = some c → c.Proceeds H fs segment b.world.manager

/-! ## The worker is one of the callers -/

/-- All calls, the worker's first. -/
def whole (b : Background) : World :=
  { b.world with calls := b.worker.call.toList ++ b.world.calls }

section
variable {H : Hasher} {R : Ratios F} {policy : WorkerPolicy F} {b b' : Background} {mv : Move}

/-- The calls of the others, one of them having moved, beside the worker's. -/
theorem whole_step_other (w : World) (worker : Worker) (a : Act) : ∃ a',
    ((Background.mk w worker).whole.Proceeds H a' ↔ w.Proceeds H a) ∧
      (Background.mk w worker).whole.step H a' =
        (w.step H a).map (fun w' => (Background.mk w' worker).whole) := by
  obtain ⟨running, ages, compacted, call⟩ := worker
  cases a with
  | start outputPath =>
      refine ⟨.start outputPath, Iff.rfl, ?_⟩
      simp only [World.step, whole, Option.map_some, List.append_assoc]
  | advance i fs segment =>
      cases call with
      | none =>
          refine ⟨.advance i fs segment, Iff.rfl, ?_⟩
          have hwhole : ∀ w : World, (Background.mk w ⟨running, ages, compacted, none⟩).whole = w :=
            fun _ => rfl
          simp only [hwhole, Option.map_id']
      | some c =>
          refine ⟨.advance (i + 1) fs segment, ?_, ?_⟩
          · simp only [World.Proceeds, whole, Option.toList_some, List.singleton_append,
              List.getElem?_cons_succ]
          · simp only [World.step, whole, Option.toList_some, List.singleton_append,
              List.getElem?_cons_succ, List.set_cons_succ, List.eraseIdx_cons_succ]
            cases w.calls[i]? with
            | none => rfl
            | some c' =>
                dsimp only
                rcases c'.step H fs segment w.manager with ⟨c' | result, manager⟩ <;> rfl

/-- **A move among all calls**: nothing for them, a call that begins, or a step. -/
theorem whole_step (h : b.step H R policy mv = some b') :
    (b.Proceeds H mv ∧ b'.whole = b.whole) ∨
    (b.Proceeds H mv ∧ ∃ outputPath, b'.whole =
      { b.whole with calls := ⟨outputPath, .checking⟩ :: b.whole.calls }) ∨
    ∃ a, b.whole.step H a = some b'.whole ∧ (b.whole.Proceeds H a ↔ b.Proceeds H mv) := by
  obtain ⟨w, running, ages, compacted, call⟩ := b
  cases mv with
  | other a =>
      refine .inr (.inr ?_)
      obtain ⟨a', hproceeds, hstep⟩ := whole_step_other (H := H) w ⟨running, ages, compacted, call⟩ a
      refine ⟨a', ?_, hproceeds⟩
      rw [hstep]
      simp only [step] at h
      split at h
      · cases h
      · rename_i w' hw
        cases h
        rw [hw]
        rfl
  | tick ages' =>
      simp only [step] at h
      split at h
      · cases h
        exact .inl ⟨trivial, rfl⟩
      · cases h
  | look segment =>
      simp only [step] at h
      split at h
      · cases h
        split
        · exact .inr (.inl ⟨trivial, _, rfl⟩)
        · exact .inl ⟨trivial, rfl⟩
      · cases h
  | advance fs segment =>
      cases call with
      | none => cases h
      | some c =>
          refine .inr (.inr ⟨.advance 0 fs segment, ?_, Iff.rfl⟩)
          simp only [step] at h
          simp only [World.step, whole, Option.toList_some, List.singleton_append,
            List.getElem?_cons_zero, List.set_cons_zero, List.eraseIdx_cons_zero]
          rcases hpiece : c.step H fs segment w.manager with ⟨c' | result, manager⟩
          · rw [hpiece] at h
            cases h
            rfl
          · rw [hpiece] at h
            cases h
            rcases result with _ | result <;> rfl

/-! ## The flag -/

theorem begins_orderly {w : World} (h : w.Orderly) (outputPath : String) :
    World.Orderly { w with calls := ⟨outputPath, .checking⟩ :: w.calls } where
  counted := h.counted
  outputs := List.forall_mem_cons.mpr ⟨trivial, h.outputs⟩

theorem begins_stuck {w : World} (h : w.Stuck) (outputPath : String) :
    World.Stuck { w with calls := ⟨outputPath, .checking⟩ :: w.calls } where
  flag := h.flag
  inactive := List.forall_mem_cons.mpr ⟨rfl, h.inactive⟩

theorem orderly_keep (h : b.whole.Orderly) (hok : b.Proceeds H mv)
    (hstep : b.step H R policy mv = some b') : b'.whole.Orderly := by
  rcases whole_step hstep with ⟨-, hsame⟩ | ⟨-, outputPath, hbegun⟩ | ⟨a, ha, hproceeds⟩
  · rwa [hsame]
  · rw [hbegun]
    exact begins_orderly h outputPath
  · exact h.keep (hproceeds.mpr hok) ha

theorem orderly_break (h : b.whole.Orderly) (hnot : ¬ b.Proceeds H mv)
    (hstep : b.step H R policy mv = some b') : b'.whole.Stuck := by
  rcases whole_step hstep with ⟨hok, -⟩ | ⟨hok, -⟩ | ⟨a, ha, hproceeds⟩
  · exact absurd hok hnot
  · exact absurd hok hnot
  · exact h.break (fun hok => hnot (hproceeds.mp hok)) ha

/-- With the flag set for good a step returns at most a refusal. -/
theorem stuck_refuses {w w' : World} {a : Act} (h : w.Stuck) (hstep : w.step H a = some w') :
    w'.manager = w.manager ∧
      ∃ k, w'.returned = w.returned ++ List.replicate k (some (.error .inProgress)) := by
  rcases World.step_cases hstep with ⟨outputPath, rfl, rfl⟩ |
    ⟨i, fs, segment, pre, c, post, rfl, hi, hcalls, -, hmove⟩
  · exact ⟨rfl, 0, (List.append_nil _).symm⟩
  have hinactive : c.active = false := h.inactive c (by rw [hcalls]; simp)
  have heff := c.step_effect H fs segment w.manager (.of_inactive hinactive)
  rw [hinactive] at heff
  rcases hmove with ⟨c', m, hpiece, rfl⟩ | ⟨result, m, hpiece, rfl⟩
  · rw [hpiece] at heff
    cases heff with
    | entered _ _ _ hidle => exact absurd h.flag (by rw [hidle]; exact Bool.false_ne_true)
    | wentOn _ _ hwas => cases hwas
  · rw [hpiece] at heff
    cases heff with
    | refused => exact ⟨rfl, 1, rfl⟩
    | finished _ hwas => cases hwas
    | left _ hwas => cases hwas

/-- What the calls can still do once the flag is set for good. -/
structure Blocked (w w' : World) : Prop where
  stuck : w'.Stuck
  manager : w'.manager = w.manager
  refused : ∃ k, w'.returned = w.returned ++ List.replicate k (some (.error .inProgress))

theorem blocked_step {w : World} (h : Blocked w b.whole) (hstep : b.step H R policy mv = some b') :
    Blocked w b'.whole := by
  rcases whole_step hstep with ⟨-, hsame⟩ | ⟨-, outputPath, hbegun⟩ | ⟨a, ha, -⟩
  · rwa [hsame]
  · rw [hbegun]
    exact ⟨begins_stuck h.stuck outputPath, h.manager, h.refused⟩
  · obtain ⟨hmanager, n, hreturned⟩ := stuck_refuses h.stuck ha
    obtain ⟨k, hrefused⟩ := h.refused
    refine ⟨h.stuck.stay ha, hmanager.trans h.manager, k + n, ?_⟩
    rw [hreturned, hrefused, List.append_assoc, List.replicate_append_replicate]

theorem start_orderly (policy : WorkerPolicy F) : (start policy).whole.Orderly where
  counted := rfl
  outputs := List.forall_mem_nil _

end

end Background

/-! ## The statistics

Every piece of a call is one of a few as the statistics see it, and none of them saves a
byte: the output is as long as what was copied, which is all there was.  What the worker
has compacted in a tick is bounded by the loop's own `break`, which comes after a
compaction, so the bound for a limit of zero is one. -/

/-- The statistics count the call, and it has not returned. -/
def CompactCall.counted (c : CompactCall) : Bool :=
  match c.phase with
  | .clearing _ => true
  | .checking | .creating | .copying _ _ _ _ | .counting _ _ _ => false

def CompactCall.bytesSaved (c : CompactCall) : Nat :=
  match c.phase with
  | .copying _ _ _ bytesSaved | .counting _ _ bytesSaved => bytesSaved
  | .checking | .creating | .clearing _ => 0

/-- A piece of a call, as the statistics see it. -/
inductive Counts (m : CompactionManager) (c : CompactCall) :
    (CompactCall ⊕ CompactResult) × CompactionManager → Prop where
  | wentOn (c' : CompactCall) (inProgress : Bool) : c.counted = false → c'.counted = false →
      c'.bytesSaved = 0 → Counts m c (.inl c', { m with inProgress := inProgress })
  | counted (c' : CompactCall) (recordsRemoved : Nat) : c.counted = false → c'.counted = true →
      c'.bytesSaved = 0 →
      Counts m c
        (.inl c',
          { m with
            stats := ⟨U64.add m.stats.totalCompactions 1, U64.add m.stats.bytesReclaimed 0,
              recordsRemoved⟩ })
  | returned (result : CompactResult) (inProgress : Bool) : CompactResult.isOk result = c.counted →
      Counts m c (.inr result, { m with inProgress := inProgress })

/-- **No piece saves a byte**: every record is kept. -/
theorem CompactCall.step_counts (H : Hasher) (fs : Files) (segment : RecordSegment)
    (m : CompactionManager) {c : CompactCall} (hsaved : c.bytesSaved = 0) :
    Counts m c (c.step H fs segment m) := by
  obtain ⟨outputPath, phase⟩ := c
  cases phase with
  | checking =>
      cases hbusy : m.inProgress with
      | true =>
          simp only [CompactCall.step, hbusy, if_true]
          exact .returned _ m.inProgress rfl
      | false =>
          simp only [CompactCall.step, hbusy, Bool.false_eq_true, if_false]
          exact .wentOn _ true rfl rfl rfl
  | creating =>
      cases hnew : RecordSegment.new fs outputPath m.policy.targetSegmentSize
          segment.indexEnabled with
      | error e =>
          simp only [CompactCall.step, hnew]
          exact .returned _ m.inProgress rfl
      | ok newSegment =>
          simp only [CompactCall.step, hnew]
          exact .wentOn _ m.inProgress rfl rfl rfl
  | copying it newSegment skipped saved =>
      rcases hnext : it.next H segment with _ | ⟨_ | e | ⟨offset, record⟩, it'⟩
      · simp only [CompactCall.step, hnext]
        exact .returned _ m.inProgress rfl
      · simp only [CompactCall.step, hnext]
        exact .wentOn _ m.inProgress rfl rfl hsaved
      · simp only [CompactCall.step, hnext]
        exact .wentOn _ m.inProgress rfl rfl hsaved
      · simp only [CompactCall.step, hnext, shouldKeepRecord, if_true]
        rcases newSegment.appendRecord H record with _ | ⟨e | offset', newSegment'⟩
        · exact .returned _ m.inProgress rfl
        · exact .returned _ m.inProgress rfl
        · exact .wentOn _ m.inProgress rfl rfl hsaved
  | counting newSegment skipped saved =>
      obtain rfl : saved = 0 := hsaved
      exact .counted _ _ rfl rfl rfl
  | clearing newSegment => exact .returned _ false rfl

/-- The compactions that the statistics count. -/
def World.succeeded (w : World) : Nat :=
  w.returned.countP CompactResult.isOk + w.calls.countP CompactCall.counted

/-- The statistics are right. -/
structure World.Tallied (w : World) : Prop where
  total : w.manager.stats.totalCompactions = w.succeeded % 2 ^ 64
  reclaimed : w.manager.stats.bytesReclaimed = 0
  saved : ∀ c ∈ w.calls, c.bytesSaved = 0

theorem World.Tallied.begins {w : World} (h : w.Tallied) {pre post : List CompactCall}
    (hcalls : w.calls = pre ++ post) (outputPath : String) :
    World.Tallied { w with calls := pre ++ ⟨outputPath, .checking⟩ :: post } := by
  obtain ⟨htotal, hreclaimed, hsaved⟩ := h
  rw [hcalls] at hsaved
  refine ⟨?_, hreclaimed, Lts.forall_moved hsaved rfl⟩
  rw [htotal, World.succeeded, World.succeeded, hcalls, List.countP_append, List.countP_append,
    List.countP_cons_of_neg Bool.false_ne_true]

theorem World.Tallied.step {H : Hasher} {w w' : World} {a : Act} (h : w.Tallied)
    (hstep : w.step H a = some w') : w'.Tallied := by
  rcases World.step_cases hstep with ⟨outputPath, rfl, rfl⟩ |
    ⟨i, fs, segment, pre, c, post, rfl, hi, hcalls, -, hmove⟩
  · exact h.begins (List.append_nil _).symm outputPath
  obtain ⟨htotal, hreclaimed, hsaved⟩ := h
  rw [World.succeeded, hcalls, List.countP_append, List.countP_cons] at htotal
  rw [hcalls] at hsaved
  have hothers := Lts.forall_others hsaved
  have hcounts := c.step_counts H fs segment w.manager (hsaved c (by simp))
  rcases hmove with ⟨c', m, hpiece, rfl⟩ | ⟨result, m, hpiece, rfl⟩
  · rw [hpiece] at hcounts
    cases hcounts with
    | wentOn _ _ hwas hnot hkept =>
        refine ⟨?_, hreclaimed, Lts.forall_moved hothers hkept⟩
        rw [hwas] at htotal
        simp only [World.succeeded, List.countP_append, List.countP_cons, hnot]
        exact htotal
    | counted _ removed hwas hnow hkept =>
        refine ⟨?_, ?_, Lts.forall_moved hothers hkept⟩
        · rw [hwas, if_neg Bool.false_ne_true] at htotal
          simp only [World.succeeded, List.countP_append, List.countP_cons, hnow, if_true, U64.add,
            htotal]
          omega
        · simp only [hreclaimed, U64.add]
          rfl
  · rw [hpiece] at hcounts
    cases hcounts with
    | returned _ _ hok =>
        refine ⟨?_, hreclaimed, hothers⟩
        simp only [World.succeeded, List.countP_append, List.countP_singleton, hok]
        refine htotal.trans (congrArg (· % 2 ^ 64) ?_)
        omega

/-- The worker has not gone beyond what it may compact in a tick. -/
structure Worker.Within (maxSegmentsPerRun : Nat) (w : Worker) : Prop where
  most : w.compacted ≤ max 1 maxSegmentsPerRun
  going : w.call.isSome ∨ w.ages ≠ [] → w.compacted < max 1 maxSegmentsPerRun

theorem Worker.Within.took {n : Nat} {w : Worker} (h : w.Within n) (hcall : w.call.isSome)
    (result : CompactResult) : (w.took n result).Within n := by
  have hlt := h.going (.inl hcall)
  cases result with
  | none =>
      refine ⟨h.most, ?_⟩
      rintro (hgoing | hgoing)
      · cases hgoing
      · exact absurd rfl hgoing
  | some result =>
      simp only [Worker.took]
      generalize hcompacted :
        (if CompactResult.isOk (some result) then w.compacted + 1 else w.compacted) = compacted
      have hle : compacted ≤ max 1 n := by split at hcompacted <;> omega
      refine ⟨hle, ?_⟩
      rintro (hgoing | hgoing)
      · cases hgoing
      · show compacted < max 1 n
        split at hgoing
        · exact absurd rfl hgoing
        · omega

theorem Background.within_step {F : Type} {H : Hasher} {R : Ratios F} {policy : WorkerPolicy F}
    {b b' : Background} {mv : Move} (h : b.worker.Within policy.maxSegmentsPerRun)
    (hstep : b.step H R policy mv = some b') : b'.worker.Within policy.maxSegmentsPerRun := by
  obtain ⟨w, running, ages, compacted, call⟩ := b
  cases mv with
  | other a =>
      simp only [step] at hstep
      split at hstep
      · cases hstep
      · cases hstep
        exact h
  | tick ages' =>
      simp only [step] at hstep
      split at hstep
      · cases hstep
        exact ⟨Nat.zero_le _, fun _ => Nat.lt_of_lt_of_le Nat.one_pos (Nat.le_max_left _ _)⟩
      · cases hstep
  | look segment =>
      simp only [step] at hstep
      split at hstep
      · cases hstep
        have hlt := h.going (.inr (List.cons_ne_nil _ _))
        exact ⟨h.most, fun _ => hlt⟩
      · cases hstep
  | advance fs segment =>
      cases call with
      | none => cases hstep
      | some c =>
          simp only [step] at hstep
          rcases hpiece : c.step H fs segment w.manager with ⟨c' | result, manager⟩
          · rw [hpiece] at hstep
            cases hstep
            exact ⟨h.most, fun _ => h.going (.inl rfl)⟩
          · rw [hpiece] at hstep
            cases hstep
            exact h.took rfl result

theorem Background.tallied_step {F : Type} {H : Hasher} {R : Ratios F} {policy : WorkerPolicy F}
    {b b' : Background} {mv : Move} (h : b.whole.Tallied)
    (hstep : b.step H R policy mv = some b') : b'.whole.Tallied := by
  rcases whole_step hstep with ⟨-, hsame⟩ | ⟨-, outputPath, hbegun⟩ | ⟨a, ha, -⟩
  · rwa [hsame]
  · rw [hbegun]
    exact h.begins (List.nil_append _).symm outputPath
  · exact h.step ha

/-- **The statistics.**  In every run of the worker and the other tasks, whichever of the
calls fail, no byte is ever counted as reclaimed; the compactions counted are those that
have succeeded and those about to; and the worker compacts at most as many segments in a
tick as its policy says, but one if that is none. -/
theorem compaction_tally {F : Type} (H : Hasher) (R : Ratios F) (policy : WorkerPolicy F)
    (moves : List Move) (b : Background)
    (hrun : Lts.run (Background.step H R policy) (.start policy) moves = some b) :
    b.world.manager.stats.bytesReclaimed = 0 ∧
      b.world.manager.stats.totalCompactions = b.whole.succeeded % 2 ^ 64 ∧
      b.worker.compacted ≤ max 1 policy.maxSegmentsPerRun := by
  have htallied : b.whole.Tallied :=
    Lts.run_invariant (fun b => b.whole.Tallied) Background.tallied_step
      ⟨rfl, rfl, List.forall_mem_nil _⟩ hrun
  have hwithin : b.worker.Within policy.maxSegmentsPerRun := by
    refine Lts.run_invariant (fun b => b.worker.Within policy.maxSegmentsPerRun)
      Background.within_step ⟨Nat.zero_le _, ?_⟩ hrun
    rintro (hgoing | hgoing)
    · cases hgoing
    · exact absurd rfl hgoing
  exact ⟨htallied.reclaimed, htallied.total, hwithin.most⟩

/-- Utilizations as fractions. -/
def fractions : Ratios (Nat × Nat) :=
  { div := Prod.mk, one := (1, 1), lt := fun x y => decide (x.1 * y.2 < y.1 * x.2) }

/-- At least five minutes old and less than half full, one a tick. -/
def oneATick : WorkerPolicy (Nat × Nat) :=
  { targetSegmentSize := 64, minUtilization := (1, 2), minAge := 300, maxSegmentsPerRun := 1
    autoCompact := true }

/-- A segment in which nothing is used. -/
def unusedSegment : RecordSegment where
  maxSize := 48
  writePos := 0
  mmap := List.replicate 48 0
  mmap_length := List.length_replicate
  maxSize_le := by decide
  path := "segment.dat"
  recordCount := 0
  index := []
  indexEnabled := false

/-- Of two candidates the first is compacted, and the tick is over. -/
theorem compaction_tally_one : ∃ b,
    Lts.run (Background.step crc32Hasher fractions oneATick) (.start oneATick)
      [.tick [400, 400], .look unusedSegment, .advance Files.fresh unusedSegment,
        .advance Files.fresh unusedSegment, .advance Files.fresh unusedSegment,
        .advance Files.fresh unusedSegment, .advance Files.fresh unusedSegment] = some b ∧
    b.worker.compacted = 1 ∧ b.worker.ages = [] ∧
    b.world.manager.stats.totalCompactions = b.whole.succeeded % 2 ^ 64 := by
  refine ⟨_, rfl, rfl, rfl, ?_⟩
  exact (compaction_tally crc32Hasher fractions oneATick
    [.tick [400, 400], .look unusedSegment, .advance Files.fresh unusedSegment,
      .advance Files.fresh unusedSegment, .advance Files.fresh unusedSegment,
      .advance Files.fresh unusedSegment, .advance Files.fresh unusedSegment] _ rfl).2.1

/-- **One call that leaves early ends all compaction.**  Take any run of the worker and
the other tasks in which one call left early: its output could not be created, the read
panicked or a record did not fit.  Whatever ticks and calls come after, all they return
is that a compaction is in progress, and the manager is never changed again. -/
theorem worker_blocked {F : Type} (H : Hasher) (R : Ratios F) (policy : WorkerPolicy F)
    (moves later : List Move) (b b' : Background)
    (hrun : Lts.run (Background.step H R policy) (.start policy) moves = some b)
    (hleft : ¬ Lts.Guarded (Background.step H R policy) (Background.Proceeds H) (.start policy) moves)
    (hlater : Lts.run (Background.step H R policy) b later = some b') :
    b'.world.manager = b.world.manager ∧ ∃ k,
      b'.world.returned = b.world.returned ++ List.replicate k (some (.error .inProgress)) := by
  have hstuck : b.whole.Stuck := by
    rcases Lts.guarded_or_broken (fun b => b.whole.Orderly) (fun b => b.whole.Stuck)
        Background.orderly_keep Background.orderly_break
        (fun h hstep => (Background.blocked_step ⟨h, rfl, 0, (List.append_nil _).symm⟩ hstep).stuck)
        (Background.start_orderly policy) hrun with ⟨hok, -⟩ | ⟨-, hstuck⟩
    · exact absurd hok hleft
    · exact hstuck
  have hblocked : Background.Blocked b.whole b'.whole :=
    Lts.run_invariant (fun b' => Background.Blocked b.whole b'.whole) Background.blocked_step
      ⟨hstuck, rfl, 0, (List.append_nil _).symm⟩ hlater
  exact ⟨hblocked.manager, hblocked.refused⟩

/-- The output of the first compaction cannot be created; two ticks later the worker is
still refused. -/
theorem worker_blocked_denied : ∃ b b',
    Lts.run (Background.step crc32Hasher fractions oneATick) (.start oneATick)
      [.tick [400], .look unusedSegment, .advance deniedFiles unusedSegment,
        .advance deniedFiles unusedSegment] = some b ∧
    Lts.run (Background.step crc32Hasher fractions oneATick) b
      [.tick [400], .look unusedSegment, .advance Files.fresh unusedSegment, .tick [400],
        .look unusedSegment, .advance Files.fresh unusedSegment] = some b' ∧
    b'.world.manager = b.world.manager ∧ ∃ k,
      b'.world.returned = b.world.returned ++ List.replicate k (some (.error .inProgress)) := by
  refine ⟨_, _, rfl, rfl, ?_⟩
  refine worker_blocked crc32Hasher fractions oneATick
    [.tick [400], .look unusedSegment, .advance deniedFiles unusedSegment,
      .advance deniedFiles unusedSegment]
    [.tick [400], .look unusedSegment, .advance Files.fresh unusedSegment, .tick [400],
      .look unusedSegment, .advance Files.fresh unusedSegment] _ _ rfl ?_ rfl
  rintro ⟨-, -, -, hcreated, -⟩
  obtain ⟨newSegment, hnew⟩ := hcreated _ rfl
  cases hnew

end Dolda.Compaction
