/-
# `Dolda.Resilience.Threads` — the circuit breaker among threads

`CircuitBreaker` of `src/resilience.rs` called by many threads.  A call reads the
state under its lock, gives the lock back, and decides on what it read; if it
decides to change the state it takes the lock again, to write, and keeps it while
it sets the time and the counters.  Each lock taken and each operation on a counter
is one step (`Phase.step`), and a thread that is inside a call is the phase it is in.

**The gap.**  Between the read and the write others may have moved the breaker, and
the write does not look again: a success counted in a breaker that was half-open
closes one that has been opened since.  Whether a run has such a change is told by
its steps, each of which takes the lock in time or too late (`Timely`); a thread
on its own is always in time, and then a call is what it is in
`Dolda.Resilience.Breaker` (`call_alone`).
-/
import Dolda.Lib.Lts
import Dolda.Resilience.Breaker

namespace Dolda.Resilience

/-- Why a call is about to change the state. -/
inductive Decision where
  /-- The breaker was open, and the timeout had passed. -/
  | timedOut
  /-- It was half-open, and there were successes enough. -/
  | recovered
  /-- It was closed, and there were failures enough. -/
  | failed
  /-- It was half-open, and there was a failure. -/
  | relapsed
deriving DecidableEq, Repr

namespace Decision

/-- The state that was read. -/
def found : Decision → CircuitState
  | .timedOut => .open_
  | .recovered => .halfOpen
  | .failed => .closed
  | .relapsed => .halfOpen

/-- The state that is going to be written. -/
def target : Decision → CircuitState
  | .timedOut => .halfOpen
  | .recovered => .closed
  | .failed => .open_
  | .relapsed => .open_

/-- What the call returns in the end, if it returns anything. -/
def answer : Decision → Option (Except ResilienceError Unit)
  | .timedOut => some (.ok ())
  | _ => none

end Decision

/-- Where a thread is. -/
inductive Phase where
  /-- Between calls, with what the last one returned. -/
  | returned (answer : Option (Except ResilienceError Unit))
  /-- `can_proceed`, before it looks how long ago the state changed. -/
  | asking
  /-- `record_success` in a closed breaker, before it resets the failures. -/
  | resetting
  /-- `record_success` in a half-open breaker, before it counts. -/
  | succeeding
  /-- `record_failure` in a closed breaker, before it counts. -/
  | failing
  /-- Before the lock is taken to change the state. -/
  | deciding (d : Decision)
  /-- Inside the lock, before the time, the successes and the failures are set. -/
  | dating (d : Decision)
  | clearingSuccesses (d : Decision)
  | clearingFailures (d : Decision)
  /-- Before the lock is given back. -/
  | leaving (d : Decision)
deriving DecidableEq, Repr

inductive Operation where
  | canProceed
  | recordSuccess
  | recordFailure
deriving DecidableEq, Repr

/-- A breaker that threads share, and whether its lock is taken to write. -/
structure SharedBreaker where
  breaker : CircuitBreaker
  locked : Bool
deriving DecidableEq, Repr

/-- A call reads the state. -/
def Phase.begin (operation : Operation) (state : CircuitState) : Phase :=
  match operation, state with
  | .canProceed, .open_ => .asking
  | .canProceed, _ => .returned (some (.ok ()))
  | .recordSuccess, .closed => .resetting
  | .recordSuccess, .halfOpen => .succeeding
  | .recordSuccess, .open_ => .returned none
  | .recordFailure, .closed => .failing
  | .recordFailure, .halfOpen => .deciding .relapsed
  | .recordFailure, .open_ => .returned none

/-- The next step of a thread; `operation` is the call it begins if it is between
calls, and `now` what the clock reads. -/
def Phase.step (operation : Operation) (now : Nat) (s : SharedBreaker) :
    Phase → Option (Phase × SharedBreaker)
  | .returned _ =>
      if s.locked then none else some (Phase.begin operation s.breaker.state, s)
  | .asking =>
      if s.breaker.config.timeout ≤ s.breaker.elapsed now then some (.deciding .timedOut, s)
      else some (.returned (some (.error .circuitBreakerOpen)), s)
  | .resetting => some (.returned none, { s with breaker := { s.breaker with failureCount := 0 } })
  | .succeeding =>
      let successes := s.breaker.successCount + 1
      let s := { s with breaker := { s.breaker with successCount := successes } }
      if s.breaker.config.successThreshold ≤ successes then some (.deciding .recovered, s)
      else some (.returned none, s)
  | .failing =>
      let failures := s.breaker.failureCount + 1
      let s := { s with breaker := { s.breaker with failureCount := failures } }
      if s.breaker.config.failureThreshold ≤ failures then some (.deciding .failed, s)
      else some (.returned none, s)
  | .deciding d =>
      if s.locked then none
      else some (.dating d, ⟨{ s.breaker with state := d.target }, true⟩)
  | .dating d =>
      some (.clearingSuccesses d, { s with breaker := { s.breaker with lastStateChange := now } })
  | .clearingSuccesses d =>
      let s := { s with breaker := { s.breaker with successCount := 0 } }
      match d.target with
      | .open_ => some (.leaving d, s)
      | _ => some (.clearingFailures d, s)
  | .clearingFailures d =>
      some (.leaving d, { s with breaker := { s.breaker with failureCount := 0 } })
  | .leaving d => some (.returned d.answer, { s with locked := false })

namespace Phase

/-- Only a thread that takes the lock to write changes the state. -/
theorem step_state {phase phase' : Phase} {s s' : SharedBreaker} {operation : Operation}
    {now : Nat} (h : phase.step operation now s = some (phase', s')) :
    s'.breaker.state = s.breaker.state ∨
      ∃ d, phase = .deciding d ∧ s.locked = false ∧ s'.breaker.state = d.target := by
  cases phase with
  | returned answer =>
      simp only [step] at h
      split at h <;> cases h
      exact Or.inl rfl
  | asking =>
      simp only [step] at h
      split at h <;> cases h <;> exact Or.inl rfl
  | resetting =>
      cases h
      exact Or.inl rfl
  | succeeding =>
      simp only [step] at h
      split at h <;> cases h <;> exact Or.inl rfl
  | failing =>
      simp only [step] at h
      split at h <;> cases h <;> exact Or.inl rfl
  | deciding d =>
      simp only [step] at h
      split at h
      · cases h
      · rename_i hfree
        cases h
        exact Or.inr ⟨d, rfl, Bool.eq_false_iff.mpr hfree, rfl⟩
  | dating d =>
      cases h
      exact Or.inl rfl
  | clearingSuccesses d =>
      simp only [step] at h
      split at h <;> cases h <;> exact Or.inl rfl
  | clearingFailures d =>
      cases h
      exact Or.inl rfl
  | leaving d =>
      cases h
      exact Or.inl rfl

end Phase

/-! ## All threads

Only the step that takes the lock to write changes the state, and a decision to open may
be made in any state.  A decision to half-open or to close is one of the four changes
only from the state the thread had read; what comes in between makes it late. -/

structure World where
  shared : SharedBreaker
  threads : List Phase
deriving DecidableEq, Repr

/-- Which thread moves. -/
structure Turn where
  thread : Nat
  operation : Operation
  now : Nat
deriving DecidableEq, Repr

namespace World

def start (config : CircuitBreakerConfig) (now : Nat) (threads : Nat) : World where
  shared := ⟨CircuitBreaker.new config now, false⟩
  threads := List.replicate threads (.returned none)

def step (w : World) (turn : Turn) : Option World :=
  match w.threads[turn.thread]? with
  | none => none
  | some phase =>
      match phase.step turn.operation turn.now w.shared with
      | none => none
      | some (phase, shared) => some ⟨shared, w.threads.set turn.thread phase⟩

def state (w : World) : CircuitState := w.shared.breaker.state

/-- The four changes of a circuit breaker. -/
inductive Change : CircuitState → CircuitState → Prop where
  | opens : Change .closed .open_
  | halfOpens : Change .open_ .halfOpen
  | closes : Change .halfOpen .closed
  | reopens : Change .halfOpen .open_

/-- If the step changes the state, it is one of the four changes. -/
def Lawful (w : World) (turn : Turn) : Prop :=
  ∀ w', w.step turn = some w' → w'.state = w.state ∨ Change w.state w'.state

/-- A thread that takes the lock to half-open or to close the breaker finds it as it
read it, or as it is going to leave it. -/
def Timely (w : World) (turn : Turn) : Prop :=
  ∀ d, w.threads[turn.thread]? = some (.deciding d) → w.shared.locked = false →
    d.target = .open_ ∨ w.state = d.found ∨ w.state = d.target

/-- The change a decision makes is one of the four, or none, iff it is in time. -/
theorem change_iff (state : CircuitState) (d : Decision) :
    d.target = state ∨ Change state d.target ↔
      d.target = .open_ ∨ state = d.found ∨ state = d.target := by
  cases d <;> cases state <;> simp [Decision.target, Decision.found] <;>
    first | constructor | (intro h; cases h)

section
variable {w w' : World} {turn : Turn} {d : Decision}

theorem step_deciding (hthread : w.threads[turn.thread]? = some (.deciding d))
    (hfree : w.shared.locked = false) :
    w.step turn = some ⟨⟨{ w.shared.breaker with state := d.target }, true⟩,
      w.threads.set turn.thread (.dating d)⟩ := by
  simp only [step, hthread, Phase.step, hfree, Bool.false_eq_true, if_false]

theorem step_state (h : w.step turn = some w') :
    w'.state = w.state ∨
      ∃ d, w.threads[turn.thread]? = some (.deciding d) ∧ w.shared.locked = false := by
  simp only [step] at h
  split at h
  · cases h
  rename_i phase hthread
  split at h
  · cases h
  rename_i phase' shared hphase
  cases h
  rcases Phase.step_state hphase with hsame | ⟨d, rfl, hfree, -⟩
  · exact Or.inl hsame
  · exact Or.inr ⟨d, hthread, hfree⟩

theorem lawful_iff_timely (w : World) (turn : Turn) : Lawful w turn ↔ Timely w turn := by
  constructor
  · intro h d hthread hfree
    have hlawful := h _ (step_deciding hthread hfree)
    exact (change_iff w.state d).mp hlawful
  · intro h w' hstep
    rcases step_state hstep with hsame | ⟨d, hthread, hfree⟩
    · exact Or.inl hsame
    · rw [step_deciding hthread hfree] at hstep
      cases hstep
      exact (change_iff w.state d).mpr (h d hthread hfree)

/-- **When the changes of a breaker are in order.**  In a run of any number of threads
every change of the state is one of the four exactly if no thread takes the lock too
late: to half-open a breaker that is closed by now, or to close one that is open. -/
theorem changes_lawful_iff (config : CircuitBreakerConfig) (now threads : Nat)
    (turns : List Turn) :
    Lts.Guarded step Lawful (start config now threads) turns ↔
      Lts.Guarded step Timely (start config now threads) turns :=
  Lts.guarded_congr lawful_iff_timely

end

/-- One failure opens, one success closes, and there is nothing to wait for. -/
def touchy : CircuitBreakerConfig := { failureThreshold := 1, successThreshold := 1, timeout := 0 }

/-- A thread opens the breaker, half-opens it and counts a success; before it takes the
lock to close it another thread records a failure. -/
def lateSuccess : List Turn :=
  -- the first thread records a failure
  [⟨0, .recordFailure, 1⟩, ⟨0, .recordFailure, 1⟩, ⟨0, .recordFailure, 1⟩, ⟨0, .recordFailure, 1⟩,
   ⟨0, .recordFailure, 1⟩, ⟨0, .recordFailure, 1⟩,
   -- it asks whether it may proceed
   ⟨0, .canProceed, 2⟩, ⟨0, .canProceed, 2⟩, ⟨0, .canProceed, 2⟩, ⟨0, .canProceed, 2⟩,
   ⟨0, .canProceed, 2⟩, ⟨0, .canProceed, 2⟩, ⟨0, .canProceed, 2⟩,
   -- it counts a success
   ⟨0, .recordSuccess, 3⟩, ⟨0, .recordSuccess, 3⟩,
   -- the second thread records a failure
   ⟨1, .recordFailure, 4⟩, ⟨1, .recordFailure, 4⟩, ⟨1, .recordFailure, 4⟩, ⟨1, .recordFailure, 4⟩,
   ⟨1, .recordFailure, 4⟩]

/-- An open breaker is closed. -/
theorem closed_while_open :
    ∃ w w', Lts.run step (start touchy 0 2) lateSuccess = some w ∧
      w.step ⟨0, .recordSuccess, 5⟩ = some w' ∧ w.state = .open_ ∧ w'.state = .closed ∧
      ¬ Lts.Guarded step Lawful (start touchy 0 2) (lateSuccess ++ [⟨0, .recordSuccess, 5⟩]) := by
  refine ⟨_, _, rfl, rfl, rfl, rfl, ?_⟩
  intro hlawful
  rcases hlawful.last rfl _ rfl with hsame | hchange
  · cases hsame
  · cases hchange

/-! ## A thread on its own

A call reads the state first; then come the steps up to a decision, and those of the
transition it leads to. -/

/-- A single thread. -/
def single (b : CircuitBreaker) (phase : Phase) : World := ⟨⟨b, false⟩, [phase]⟩

def operationOf : CircuitBreaker.Call → Operation
  | .canProceed _ _ => .canProceed
  | .recordSuccess _ => .recordSuccess
  | .recordFailure _ => .recordFailure

def answerOf (b : CircuitBreaker) : CircuitBreaker.Call → Option (Except ResilienceError Unit)
  | .canProceed checked changed => some (b.canProceed checked changed).1
  | .recordSuccess _ => none
  | .recordFailure _ => none

/-- The transition a decision leads to. -/
def transition (now : Nat) (b : CircuitBreaker) : Decision → CircuitBreaker
  | .timedOut => b.transitionToHalfOpen now
  | .recovered => b.transitionToClosed now
  | .failed | .relapsed => b.transitionToOpen now

section
variable {b : CircuitBreaker} {phase : Phase}

theorem transition_alone (operation : Operation) (now : Nat) (b : CircuitBreaker) (d : Decision) :
    ∃ n, Lts.run step (single b (.deciding d)) (List.replicate n ⟨0, operation, now⟩) =
      some (single (transition now b d) (.returned d.answer)) := by
  cases d with
  | timedOut => exact ⟨5, rfl⟩
  | recovered => exact ⟨5, rfl⟩
  | failed => exact ⟨4, rfl⟩
  | relapsed => exact ⟨4, rfl⟩

theorem decided (operation : Operation) {b' : CircuitBreaker} (turns : List Turn) (d : Decision)
    (now : Nat) (hrun : Lts.run step (single b phase) turns = some (single b' (.deciding d)))
    (hturns : ∀ t ∈ turns, t.operation = operation) :
    ∃ turns, (∀ t ∈ turns, t.operation = operation) ∧ Lts.run step (single b phase) turns =
      some (single (transition now b' d) (.returned d.answer)) := by
  obtain ⟨n, hn⟩ := transition_alone operation now b' d
  refine ⟨turns ++ List.replicate n ⟨0, operation, now⟩, ?_, ?_⟩
  · intro t ht
    rcases List.mem_append.mp ht with ht | ht
    · exact hturns t ht
    · rw [(List.mem_replicate.mp ht).2]
  · rw [Lts.run_append, hrun]
    exact hn

theorem begin_alone (b : CircuitBreaker) (last : Option (Except ResilienceError Unit))
    (operation : Operation) (now : Nat) (turns : List Turn) :
    Lts.run step (single b (.returned last)) (⟨0, operation, now⟩ :: turns) =
      Lts.run step (single b (Phase.begin operation b.state)) turns := rfl

theorem canProceed_alone (b : CircuitBreaker) (last : Option (Except ResilienceError Unit))
    (checked changed : Nat) :
    ∃ turns, (∀ t ∈ turns, t.operation = .canProceed) ∧
      Lts.run step (single b (.returned last)) turns =
        some (single (b.step (.canProceed checked changed))
          (.returned (answerOf b (.canProceed checked changed)))) := by
  have hbegin := begin_alone b last .canProceed
  cases hstate : b.state with
  | open_ =>
      rw [hstate] at hbegin
      rw [CircuitBreaker.step_open hstate]
      by_cases hpassed : b.config.timeout ≤ b.elapsed checked
      · have hrun : Lts.run step (single b (.returned last))
            [⟨0, .canProceed, checked⟩, ⟨0, .canProceed, checked⟩]
            = some (single b (.deciding .timedOut)) := by
          rw [hbegin]
          simp [Lts.run, step, single, Phase.begin, Phase.step, hpassed]
        have hdecide := decided .canProceed _ .timedOut changed hrun (by simp)
        have hanswer : answerOf b (.canProceed checked changed) = some (.ok ()) := by
          simp only [answerOf, CircuitBreaker.canProceed, hstate, if_pos hpassed]
        rw [hanswer]
        dsimp only
        rw [if_pos hpassed]
        exact hdecide
      · refine ⟨[⟨0, .canProceed, checked⟩, ⟨0, .canProceed, checked⟩], by simp, ?_⟩
        rw [hbegin]
        simp [Lts.run, step, single, Phase.begin, Phase.step, hpassed, answerOf,
          CircuitBreaker.canProceed, hstate]
  | closed | halfOpen =>
      rw [hstate] at hbegin
      refine ⟨[⟨0, .canProceed, checked⟩], by simp, ?_⟩
      rw [hbegin]
      simp [Lts.run, single, Phase.begin, answerOf, CircuitBreaker.step,
        CircuitBreaker.canProceed, hstate]

theorem recordSuccess_alone (b : CircuitBreaker) (last : Option (Except ResilienceError Unit))
    (now : Nat) :
    ∃ turns, (∀ t ∈ turns, t.operation = .recordSuccess) ∧
      Lts.run step (single b (.returned last)) turns =
        some (single (b.step (.recordSuccess now)) (.returned none)) := by
  have hbegin := begin_alone b last .recordSuccess
  cases hstate : b.state with
  | open_ =>
      rw [hstate] at hbegin
      refine ⟨[⟨0, .recordSuccess, now⟩], by simp, ?_⟩
      rw [hbegin, CircuitBreaker.step_open hstate]
      rfl
  | closed =>
      rw [hstate] at hbegin
      refine ⟨[⟨0, .recordSuccess, now⟩, ⟨0, .recordSuccess, now⟩], by simp, ?_⟩
      rw [hbegin, CircuitBreaker.step_closed hstate]
      rfl
  | halfOpen =>
      rw [hstate] at hbegin
      rw [CircuitBreaker.step_halfOpen hstate]
      by_cases henough : b.config.successThreshold ≤ b.successCount + 1
      · have hrun : Lts.run step (single b (.returned last))
            [⟨0, .recordSuccess, now⟩, ⟨0, .recordSuccess, now⟩]
            = some (single { b with successCount := b.successCount + 1 }
              (.deciding .recovered)) := by
          rw [hbegin]
          simp [Lts.run, step, single, Phase.begin, Phase.step, henough]
        dsimp only
        rw [if_pos henough]
        exact decided .recordSuccess _ .recovered now hrun (by simp)
      · refine ⟨[⟨0, .recordSuccess, now⟩, ⟨0, .recordSuccess, now⟩], by simp, ?_⟩
        rw [hbegin]
        simp [Lts.run, step, single, Phase.begin, Phase.step, henough]

theorem recordFailure_alone (b : CircuitBreaker) (last : Option (Except ResilienceError Unit))
    (now : Nat) :
    ∃ turns, (∀ t ∈ turns, t.operation = .recordFailure) ∧
      Lts.run step (single b (.returned last)) turns =
        some (single (b.step (.recordFailure now)) (.returned none)) := by
  have hbegin := begin_alone b last .recordFailure
  cases hstate : b.state with
  | open_ =>
      rw [hstate] at hbegin
      refine ⟨[⟨0, .recordFailure, now⟩], by simp, ?_⟩
      rw [hbegin, CircuitBreaker.step_open hstate]
      rfl
  | halfOpen =>
      rw [hstate] at hbegin
      rw [CircuitBreaker.step_halfOpen hstate]
      have hrun : Lts.run step (single b (.returned last)) [⟨0, .recordFailure, now⟩]
          = some (single b (.deciding .relapsed)) := by
        rw [hbegin]
        rfl
      exact decided .recordFailure _ .relapsed now hrun (by simp)
  | closed =>
      rw [hstate] at hbegin
      rw [CircuitBreaker.step_closed hstate]
      by_cases henough : b.config.failureThreshold ≤ b.failureCount + 1
      · have hrun : Lts.run step (single b (.returned last))
            [⟨0, .recordFailure, now⟩, ⟨0, .recordFailure, now⟩]
            = some (single { b with failureCount := b.failureCount + 1 }
              (.deciding .failed)) := by
          rw [hbegin]
          simp [Lts.run, step, single, Phase.begin, Phase.step, henough]
        dsimp only
        rw [if_pos henough]
        exact decided .recordFailure _ .failed now hrun (by simp)
      · refine ⟨[⟨0, .recordFailure, now⟩, ⟨0, .recordFailure, now⟩], by simp, ?_⟩
        rw [hbegin]
        simp [Lts.run, step, single, Phase.begin, Phase.step, henough]

/-- **On its own a thread does what the calls do** when they are made one after
another. -/
theorem call_alone (b : CircuitBreaker) (last : Option (Except ResilienceError Unit))
    (c : CircuitBreaker.Call) :
    ∃ turns, (∀ t ∈ turns, t.operation = operationOf c) ∧
      Lts.run step (single b (.returned last)) turns =
        some (single (b.step c) (.returned (answerOf b c))) := by
  cases c with
  | canProceed checked changed => exact canProceed_alone b last checked changed
  | recordSuccess now => exact recordSuccess_alone b last now
  | recordFailure now => exact recordFailure_alone b last now

end

end World

end Dolda.Resilience
