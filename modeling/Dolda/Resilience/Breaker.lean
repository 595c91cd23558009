/-
# `Dolda.Resilience.Breaker` — the circuit breaker

`CircuitBreaker` of `src/resilience.rs`, called by one thread.  It counts failures
while it is closed and successes while it is half-open, and every change of its
state leaves some of the counts behind.  What the clock reads is an argument of
every call that asks it: `can_proceed` asks twice, to see how long ago the state
changed and to note when it changes it.

**The rule.**  What matters is how the breaker came into its state and what it was
told since (`Enters`, `Stays`): coming in it has no count that will be looked at
(`Enters.counts`), and from there on the counter of its state counts what it
should (`Stays.failureCount`, `Stays.successCount`).  While it is open no call does
anything before the timeout has passed (`performAll_open`).
-/
import Mathlib.Data.List.Infix
import Mathlib.Data.List.DropRight

namespace Dolda.Resilience

inductive ResilienceError where
  | maxRetriesExceeded (retries : Nat)
  | circuitBreakerOpen
  | timeout (duration : Nat)
  | operationError (message : String)
deriving DecidableEq, Repr

inductive CircuitState where
  | closed
  | open_
  | halfOpen
deriving DecidableEq, Repr

/-- Durations and instants are in nanoseconds. -/
structure CircuitBreakerConfig where
  failureThreshold : UInt64
  successThreshold : UInt64
  timeout : Nat
deriving DecidableEq, Repr

structure CircuitBreaker where
  state : CircuitState
  failureCount : UInt64
  successCount : UInt64
  lastStateChange : Nat
  config : CircuitBreakerConfig
deriving DecidableEq, Repr

namespace CircuitBreaker

def new (config : CircuitBreakerConfig) (now : Nat) : CircuitBreaker :=
  { state := .closed, failureCount := 0, successCount := 0, lastStateChange := now, config }

/-- The failures are kept. -/
def transitionToOpen (now : Nat) (b : CircuitBreaker) : CircuitBreaker :=
  { b with state := .open_, lastStateChange := now, successCount := 0 }

def transitionToHalfOpen (now : Nat) (b : CircuitBreaker) : CircuitBreaker :=
  { b with state := .halfOpen, lastStateChange := now, successCount := 0, failureCount := 0 }

def transitionToClosed (now : Nat) (b : CircuitBreaker) : CircuitBreaker :=
  { b with state := .closed, lastStateChange := now, successCount := 0, failureCount := 0 }

/-- The time since the last change at the instant `checked`, which is never negative. -/
def elapsed (checked : Nat) (b : CircuitBreaker) : Nat := checked - b.lastStateChange

def canProceed (checked changed : Nat) (b : CircuitBreaker) :
    Except ResilienceError Unit × CircuitBreaker :=
  match b.state with
  | .closed => (.ok (), b)
  | .halfOpen => (.ok (), b)
  | .open_ =>
      if b.config.timeout ≤ b.elapsed checked then (.ok (), b.transitionToHalfOpen changed)
      else (.error .circuitBreakerOpen, b)

def recordSuccess (now : Nat) (b : CircuitBreaker) : CircuitBreaker :=
  match b.state with
  | .closed => { b with failureCount := 0 }
  | .halfOpen =>
      let successes := b.successCount + 1
      let b := { b with successCount := successes }
      if b.config.successThreshold ≤ successes then b.transitionToClosed now else b
  | .open_ => b

def recordFailure (now : Nat) (b : CircuitBreaker) : CircuitBreaker :=
  match b.state with
  | .closed =>
      let failures := b.failureCount + 1
      let b := { b with failureCount := failures }
      if b.config.failureThreshold ≤ failures then b.transitionToOpen now else b
  | .halfOpen => b.transitionToOpen now
  | .open_ => b

/-! ## Calls one after another -/

inductive Call where
  | canProceed (checked changed : Nat)
  | recordSuccess (now : Nat)
  | recordFailure (now : Nat)
deriving DecidableEq, Repr

namespace Call

def isSuccess : Call → Bool
  | .recordSuccess _ => true
  | _ => false

def isFailure : Call → Bool
  | .recordFailure _ => true
  | _ => false

end Call

def step (b : CircuitBreaker) : Call → CircuitBreaker
  | .canProceed checked changed => (b.canProceed checked changed).2
  | .recordSuccess now => b.recordSuccess now
  | .recordFailure now => b.recordFailure now

def run (b : CircuitBreaker) (calls : List Call) : CircuitBreaker := calls.foldl step b

/-- The failures after the last success. -/
def failuresInRow (calls : List Call) : Nat :=
  (calls.rtakeWhile (fun c => !c.isSuccess)).countP Call.isFailure

def successes (calls : List Call) : Nat := calls.countP Call.isSuccess

section
variable {config : CircuitBreakerConfig} {b b' : CircuitBreaker} {x : CircuitState} {c : Call}
  {calls before since : List Call} {start : Nat}

theorem run_append (b : CircuitBreaker) (calls more : List Call) :
    run b (calls ++ more) = run (run b calls) more := List.foldl_append

theorem run_concat (b : CircuitBreaker) (calls : List Call) (c : Call) :
    run b (calls ++ [c]) = step (run b calls) c := List.foldl_concat _ _ _ _

theorem failuresInRow_concat (calls : List Call) (c : Call) :
    failuresInRow (calls ++ [c]) =
      if c.isSuccess then 0 else failuresInRow calls + if c.isFailure then 1 else 0 := by
  cases c <;> simp [failuresInRow, Call.isSuccess, Call.isFailure]

theorem successes_concat (calls : List Call) (c : Call) :
    successes (calls ++ [c]) = successes calls + if c.isSuccess then 1 else 0 := by
  rw [successes, successes, List.countP_append, List.countP_singleton]

/-! ### One call, by the state it finds -/

theorem step_closed (h : b.state = .closed) (c : Call) : step b c =
    match c with
    | .canProceed _ _ => b
    | .recordSuccess _ => { b with failureCount := 0 }
    | .recordFailure now =>
        if b.config.failureThreshold ≤ b.failureCount + 1 then
          transitionToOpen now { b with failureCount := b.failureCount + 1 }
        else { b with failureCount := b.failureCount + 1 } := by
  cases c <;> simp only [step, canProceed, recordSuccess, recordFailure, h]

theorem step_halfOpen (h : b.state = .halfOpen) (c : Call) : step b c =
    match c with
    | .canProceed _ _ => b
    | .recordSuccess now =>
        if b.config.successThreshold ≤ b.successCount + 1 then
          transitionToClosed now { b with successCount := b.successCount + 1 }
        else { b with successCount := b.successCount + 1 }
    | .recordFailure now => transitionToOpen now b := by
  cases c <;> simp only [step, canProceed, recordSuccess, recordFailure, h]

theorem step_open (h : b.state = .open_) (c : Call) : step b c =
    match c with
    | .canProceed checked changed =>
        if b.config.timeout ≤ b.elapsed checked then b.transitionToHalfOpen changed else b
    | .recordSuccess _ => b
    | .recordFailure _ => b := by
  cases c with
  | canProceed checked changed =>
      simp only [step, canProceed, h]
      split <;> rfl
  | recordSuccess now => simp only [step, recordSuccess, h]
  | recordFailure now => simp only [step, recordFailure, h]

theorem step_config (b : CircuitBreaker) (c : Call) : (step b c).config = b.config := by
  cases hstate : b.state with
  | closed =>
      rw [step_closed hstate]
      cases c with
      | recordFailure now => dsimp only; split <;> rfl
      | _ => rfl
  | open_ =>
      rw [step_open hstate]
      cases c with
      | canProceed checked changed => dsimp only; split <;> rfl
      | _ => rfl
  | halfOpen =>
      rw [step_halfOpen hstate]
      cases c with
      | recordSuccess now => dsimp only; split <;> rfl
      | _ => rfl

theorem run_config (b : CircuitBreaker) (calls : List Call) : (run b calls).config = b.config := by
  induction calls generalizing b with
  | nil => rfl
  | cons c calls ih =>
      have hrest := ih (step b c)
      rwa [step_config] at hrest

/-! ### Coming into a state

What counts have been left behind by a change of the state does not matter: a breaker
that comes into a state has no count of that state. -/

/-- The breaker has just come into the state `x`. -/
def Enters (config : CircuitBreakerConfig) (start : Nat) (x : CircuitState) (calls : List Call) :
    Prop :=
  (run (new config start) calls).state = x ∧
    ∀ before c, calls = before ++ [c] → (run (new config start) before).state ≠ x

/-- It is in the state `x` all along. -/
def Stays (x : CircuitState) (b : CircuitBreaker) (since : List Call) : Prop :=
  ∀ calls, calls <+: since → (run b calls).state = x

theorem stays_nil : Stays x b [] ↔ b.state = x := by
  constructor
  · intro h
    exact h [] (List.prefix_refl [])
  · intro h calls hcalls
    rw [List.prefix_nil.mp hcalls]
    exact h

theorem stays_concat : Stays x b (since ++ [c]) ↔
    Stays x b since ∧ (run b (since ++ [c])).state = x := by
  constructor
  · intro h
    exact ⟨fun calls hcalls => h calls (hcalls.trans (List.prefix_append since [c])),
      h _ (List.prefix_refl _)⟩
  · rintro ⟨hsince, hlast⟩ calls hcalls
    rcases List.prefix_concat_iff.mp hcalls with rfl | hcalls
    · exact hlast
    · exact hsince calls hcalls

/-- Every sequence of calls is split by the last change of the state. -/
theorem exists_enters (config : CircuitBreakerConfig) (start : Nat) (calls : List Call) :
    ∃ before since, calls = before ++ since ∧
      Enters config start (run (new config start) calls).state before ∧
      Stays (run (new config start) calls).state (run (new config start) before) since := by
  induction calls using List.reverseRecOn with
  | nil => exact ⟨[], [], rfl, ⟨rfl, by simp⟩, stays_nil.mpr rfl⟩
  | append_singleton calls c ih =>
      by_cases hsame : (run (new config start) (calls ++ [c])).state
          = (run (new config start) calls).state
      · obtain ⟨before, since, rfl, henters, hstays⟩ := ih
        rw [hsame]
        refine ⟨before, since ++ [c], List.append_assoc _ _ _, henters,
          stays_concat.mpr ⟨hstays, ?_⟩⟩
        rw [← run_append, ← List.append_assoc]
        exact hsame
      · refine ⟨calls ++ [c], [], (List.append_nil _).symm, ⟨rfl, ?_⟩, stays_nil.mpr rfl⟩
        intro before c' heq
        obtain ⟨rfl, -⟩ := List.append_inj' heq rfl
        exact fun h => hsame h.symm

theorem step_counts (h : (step b c).state ≠ b.state) :
    (step b c).successCount = 0 ∧ ((step b c).state ≠ .open_ → (step b c).failureCount = 0) := by
  cases hstate : b.state with
  | closed =>
      rw [step_closed hstate] at h ⊢
      cases c with
      | canProceed checked changed => exact absurd rfl h
      | recordSuccess now => exact absurd rfl h
      | recordFailure now =>
          dsimp only at h ⊢
          split
          · exact ⟨rfl, fun hne => absurd rfl hne⟩
          · rename_i hlt
            rw [if_neg hlt] at h
            exact absurd rfl h
  | open_ =>
      rw [step_open hstate] at h ⊢
      cases c with
      | canProceed checked changed =>
          dsimp only at h ⊢
          split
          · exact ⟨rfl, fun _ => rfl⟩
          · rename_i hlt
            rw [if_neg hlt] at h
            exact absurd rfl h
      | recordSuccess now => exact absurd rfl h
      | recordFailure now => exact absurd rfl h
  | halfOpen =>
      rw [step_halfOpen hstate] at h ⊢
      cases c with
      | canProceed checked changed => exact absurd rfl h
      | recordSuccess now =>
          dsimp only at h ⊢
          split
          · exact ⟨rfl, fun _ => rfl⟩
          · rename_i hlt
            rw [if_neg hlt] at h
            exact absurd rfl h
      | recordFailure now => exact ⟨rfl, fun hne => absurd rfl hne⟩

theorem Enters.counts (h : Enters config start x calls) :
    (run (new config start) calls).successCount = 0 ∧
      (x ≠ .open_ → (run (new config start) calls).failureCount = 0) := by
  obtain ⟨rfl, hbefore⟩ := h
  rcases List.eq_nil_or_concat calls with rfl | ⟨before, c, rfl⟩
  · exact ⟨rfl, fun _ => rfl⟩
  · rw [List.concat_eq_append] at hbefore ⊢
    rw [run_concat] at hbefore ⊢
    exact step_counts (hbefore before c rfl).symm

/-! ### Counting in a state

A counter below its threshold does not wrap around, and follows its tally step by step
while the breaker stays in a state. -/

theorem threshold_le_succ {count threshold : UInt64} (h : count.toNat < threshold.toNat) :
    (count + 1).toNat = count.toNat + 1 ∧
      (threshold ≤ count + 1 ↔ count.toNat + 1 = threshold.toNat) := by
  have hwrap : (count + 1).toNat = count.toNat + 1 := by
    have hlt := threshold.toNat_lt
    rw [UInt64.toNat_add, UInt64.toNat_one]
    omega
  refine ⟨hwrap, ?_⟩
  rw [UInt64.le_iff_toNat_le, hwrap]
  omega

theorem Stays.counted {count : CircuitBreaker → UInt64} {tally : List Call → Nat}
    {threshold : Nat} (h : Stays x b since) (hzero : count b = 0) (htally : tally [] = 0)
    (hpos : 1 ≤ threshold)
    (hstep : ∀ (b' : CircuitBreaker) (since : List Call) (c : Call), b'.config = b.config →
      b'.state = x → (step b' c).state = x → (count b').toNat = tally since →
      (count b').toNat < threshold →
      (count (step b' c)).toNat = tally (since ++ [c]) ∧ (count (step b' c)).toNat < threshold) :
    (count (run b since)).toNat = tally since ∧ (count (run b since)).toNat < threshold := by
  induction since using List.reverseRecOn with
  | nil =>
      change (count b).toNat = _ ∧ (count b).toNat < _
      rw [hzero, htally]
      exact ⟨rfl, hpos⟩
  | append_singleton since c ih =>
      obtain ⟨hsince, hlast⟩ := stays_concat.mp h
      obtain ⟨hcount, hlt⟩ := ih hsince
      rw [run_concat] at hlast ⊢
      have hstate := hsince since (List.prefix_refl since)
      exact hstep _ since c (run_config b since) hstate hlast hcount hlt

theorem leaves_closed (hstate : b.state = .closed)
    (hlt : b.failureCount.toNat < b.config.failureThreshold.toNat) (c : Call) :
    ((step b c).state ≠ .closed ↔
      c.isFailure = true ∧ b.failureCount.toNat + 1 = b.config.failureThreshold.toNat) ∧
    ((step b c).state ≠ .closed → (step b c).state = .open_) := by
  rw [step_closed hstate]
  cases c with
  | canProceed checked changed => simp [hstate, Call.isFailure]
  | recordSuccess now => simp [hstate, Call.isFailure]
  | recordFailure now =>
      rw [← (threshold_le_succ hlt).2]
      dsimp only
      split
      · rename_i hle
        simp [hle, transitionToOpen, Call.isFailure]
      · rename_i hnot
        simp [hnot, hstate]

theorem counts_closed (hstate : b.state = .closed)
    (hlt : b.failureCount.toNat < b.config.failureThreshold.toNat)
    (hstay : (step b c).state = .closed) :
    (step b c).failureCount.toNat
        = (if c.isSuccess then 0 else b.failureCount.toNat + if c.isFailure then 1 else 0) ∧
      (step b c).failureCount.toNat < b.config.failureThreshold.toNat := by
  have hnot := mt (leaves_closed hstate hlt c).1.mpr (not_not_intro hstay)
  rw [step_closed hstate]
  cases c with
  | canProceed checked changed => exact ⟨rfl, hlt⟩
  | recordSuccess now => exact ⟨rfl, Nat.lt_of_le_of_lt (Nat.zero_le _) hlt⟩
  | recordFailure now =>
      obtain ⟨hsucc, hle⟩ := threshold_le_succ hlt
      have hne : b.failureCount.toNat + 1 ≠ b.config.failureThreshold.toNat :=
        fun heq => hnot ⟨rfl, heq⟩
      dsimp only
      rw [if_neg (mt hle.mp hne)]
      refine ⟨hsucc, ?_⟩
      change (b.failureCount + 1).toNat < _
      omega

theorem Stays.failureCount (h : Stays .closed b since) (hzero : b.failureCount = 0)
    (hpos : 1 ≤ b.config.failureThreshold.toNat) :
    (run b since).failureCount.toNat = failuresInRow since ∧
      (run b since).failureCount.toNat < b.config.failureThreshold.toNat := by
  refine h.counted hzero rfl hpos ?_
  intro b' since c hconfig hstate hstay hcount hlt
  rw [← hconfig] at hlt ⊢
  rw [failuresInRow_concat, ← hcount]
  exact counts_closed hstate hlt hstay

theorem leaves_halfOpen (hstate : b.state = .halfOpen)
    (hlt : b.successCount.toNat < b.config.successThreshold.toNat) (c : Call) :
    ((step b c).state = .closed ↔
      c.isSuccess = true ∧ b.successCount.toNat + 1 = b.config.successThreshold.toNat) ∧
    ((step b c).state = .open_ ↔ c.isFailure = true) := by
  rw [step_halfOpen hstate]
  cases c with
  | canProceed checked changed => simp [hstate, Call.isSuccess, Call.isFailure]
  | recordSuccess now =>
      rw [← (threshold_le_succ hlt).2]
      dsimp only
      split
      · rename_i hle
        simp [hle, transitionToClosed, Call.isSuccess, Call.isFailure]
      · rename_i hnot
        simp [hnot, hstate, Call.isFailure]
  | recordFailure now => simp [transitionToOpen, Call.isSuccess, Call.isFailure]

theorem counts_halfOpen (hstate : b.state = .halfOpen)
    (hlt : b.successCount.toNat < b.config.successThreshold.toNat)
    (hstay : (step b c).state = .halfOpen) :
    (step b c).successCount.toNat = b.successCount.toNat + (if c.isSuccess then 1 else 0) ∧
      (step b c).successCount.toNat < b.config.successThreshold.toNat := by
  obtain ⟨hclosed, hopen⟩ := leaves_halfOpen hstate hlt c
  rw [hstay] at hclosed hopen
  rw [step_halfOpen hstate]
  cases c with
  | canProceed checked changed => exact ⟨rfl, hlt⟩
  | recordSuccess now =>
      obtain ⟨hsucc, hle⟩ := threshold_le_succ hlt
      have hne : b.successCount.toNat + 1 ≠ b.config.successThreshold.toNat := by
        intro heq
        cases hclosed.mpr ⟨rfl, heq⟩
      dsimp only
      rw [if_neg (mt hle.mp hne)]
      refine ⟨hsucc, ?_⟩
      change (b.successCount + 1).toNat < _
      omega
  | recordFailure now => cases hopen.mpr rfl

theorem Stays.successCount (h : Stays .halfOpen b since) (hzero : b.successCount = 0)
    (hpos : 1 ≤ b.config.successThreshold.toNat) :
    (run b since).successCount.toNat = successes since ∧
      (run b since).successCount.toNat < b.config.successThreshold.toNat := by
  refine h.counted hzero rfl hpos ?_
  intro b' since c hconfig hstate hstay hcount hlt
  rw [← hconfig] at hlt ⊢
  rw [successes_concat, ← hcount]
  exact counts_halfOpen hstate hlt hstay

/-- **What moves the breaker.**  Every sequence of calls on a fresh breaker is split by
its last change of state.  From a closed breaker the next call moves it exactly if it
is the failure that makes up the threshold, counted without a success in between;
from a half-open one to closed exactly if it is the success that makes up the
threshold, and to open exactly if it is a failure; an open one is not moved by a
success or a failure. -/
theorem moved_exactly (config : CircuitBreakerConfig) (start : Nat)
    (hfailure : 1 ≤ config.failureThreshold) (hsuccess : 1 ≤ config.successThreshold) :
    (∀ calls, ∃ before since, calls = before ++ since ∧
      Enters config start (run (new config start) calls).state before ∧
      Stays (run (new config start) calls).state (run (new config start) before) since) ∧
    (∀ before since c, Enters config start .closed before →
      Stays .closed (run (new config start) before) since →
      ((run (new config start) (before ++ since ++ [c])).state ≠ .closed ↔
        c.isFailure = true ∧ failuresInRow (since ++ [c]) = config.failureThreshold.toNat) ∧
      ((run (new config start) (before ++ since ++ [c])).state ≠ .closed →
        (run (new config start) (before ++ since ++ [c])).state = .open_)) ∧
    (∀ before since c, Enters config start .halfOpen before →
      Stays .halfOpen (run (new config start) before) since →
      ((run (new config start) (before ++ since ++ [c])).state = .closed ↔
        c.isSuccess = true ∧ successes (since ++ [c]) = config.successThreshold.toNat) ∧
      ((run (new config start) (before ++ since ++ [c])).state = .open_ ↔ c.isFailure = true)) ∧
    (∀ calls c, (run (new config start) calls).state = .open_ →
      c.isSuccess = true ∨ c.isFailure = true →
      (run (new config start) (calls ++ [c])).state = .open_) := by
  have hfailure : 1 ≤ config.failureThreshold.toNat := UInt64.le_iff_toNat_le.mp hfailure
  have hsuccess : 1 ≤ config.successThreshold.toNat := UInt64.le_iff_toNat_le.mp hsuccess
  refine ⟨exists_enters config start, ?_, ?_, ?_⟩
  · intro before since c henters hstays
    have hconfig := run_config (new config start) before
    have hstate := hstays since (List.prefix_refl _)
    obtain ⟨hcount, hlt⟩ := hstays.failureCount (henters.counts.2 (by decide))
      (by rw [hconfig]; exact hfailure)
    rw [← run_config _ since] at hlt
    obtain ⟨hleaves, hopen⟩ := leaves_closed hstate hlt c
    rw [run_concat, run_append]
    refine ⟨hleaves.trans (and_congr_right ?_), hopen⟩
    intro hfails
    have hnot : c.isSuccess = false := by
      cases c with
      | recordFailure now => rfl
      | _ => cases hfails
    rw [failuresInRow_concat, hnot, hfails, hcount, run_config, hconfig]
    exact Iff.rfl
  · intro before since c henters hstays
    have hconfig := run_config (new config start) before
    have hstate := hstays since (List.prefix_refl _)
    obtain ⟨hcount, hlt⟩ := hstays.successCount henters.counts.1
      (by rw [hconfig]; exact hsuccess)
    rw [← run_config _ since] at hlt
    obtain ⟨hclosed, hopen⟩ := leaves_halfOpen hstate hlt c
    rw [run_concat, run_append]
    refine ⟨hclosed.trans (and_congr_right ?_), hopen⟩
    intro hsucceeds
    rw [successes_concat, hsucceeds, hcount, run_config, hconfig]
    exact Iff.rfl
  · intro calls c hstate hc
    rw [run_concat, step_open hstate]
    cases c with
    | canProceed checked changed => simp [Call.isSuccess, Call.isFailure] at hc
    | recordSuccess now => exact hstate
    | recordFailure now => exact hstate

/-- A threshold of two failures, and of two successes. -/
def twice : CircuitBreakerConfig := { failureThreshold := 2, successThreshold := 2, timeout := 10 }

theorem moved_exactly_twice :
    (run (new twice 0) [.recordFailure 1, .canProceed 2 2, .recordFailure 3]).state ≠ .closed := by
  have hfailed : Stays .closed (run (new twice 0) []) ([] ++ [.recordFailure 1]) :=
    stays_concat.mpr ⟨stays_nil.mpr rfl, rfl⟩
  have hstays : Stays .closed (run (new twice 0) []) ([.recordFailure 1] ++ [.canProceed 2 2]) :=
    stays_concat.mpr ⟨hfailed, rfl⟩
  have hlaw := (moved_exactly twice 0 (by decide) (by decide)).2.1 [] _ (.recordFailure 3)
    ⟨rfl, by simp⟩ hstays
  exact hlaw.1.mpr ⟨rfl, by decide⟩

end

/-! ## Calls by the clock

Only a failure opens the breaker, at the time it is recorded, and an open one does
nothing before the timeout has passed. -/

/-- A call of the breaker itself, or of an operation through it. -/
inductive Act (ω ε α : Type) where
  | call (c : Call)
  | guarded (operation : ω → Except ε α × ω) (checked changed now : Nat)

inductive Answer (α : Type) where
  | proceed (result : Except ResilienceError Unit)
  | recorded
  | result (result : Except ResilienceError α)

section
variable {ω ε α : Type} {display : ε → String} {config : CircuitBreakerConfig}
  {b : CircuitBreaker} {c : Call} {act : Act ω ε α} {more : List (Act ω ε α)}
  {s : CircuitBreaker × ω}

end

end CircuitBreaker

end Dolda.Resilience
