/-
# `Dolda.Resilience.Retry` — retrying an operation

`retry_with_backoff` of `src/resilience.rs`: call the operation, sleep if it failed,
call it again, until it succeeds or has failed once more than `max_retries` times.
The operation is a closure: each call may change what it has captured, so from call to
call it gives a stream of results, of which nothing is assumed (`resultOf`).

The backoffs are computed in double precision, which is a parameter: the three
operations the code calls, the last of which panics where a number is no duration.

**The rule.**  While every call fails, a turn adds one call, one sleep and one attempt
(`Failed.again`), so after `n` of them the loop is where `Failed` says
(`retried`); the turn that does not fail, or fails once too often, returns.
-/
import Dolda.Lib.Loop
import Dolda.Resilience.Breaker

namespace Dolda.Resilience

/-- The numbers of type `f64`, as far as a backoff is computed with them. -/
structure Doubles where
  F64 : Type
  /-- `Duration::as_secs_f64`. -/
  asSecs : Nat → F64
  mul : F64 → F64 → F64
  /-- `Duration::from_secs_f64`; `none` where it panics. -/
  fromSecs : F64 → Option Nat

/-- Durations are in nanoseconds. -/
structure RetryConfig (D : Doubles) where
  maxRetries : Nat
  initialBackoff : Nat
  maxBackoff : Nat
  backoffMultiplier : D.F64

/-- The variables of the loop and what the operation has captured, with the calls and
the sleeps there have been. -/
structure Retrying (σ : Type*) where
  captured : σ
  attempt : Nat
  backoff : Nat
  calls : Nat
  sleeps : List Nat
deriving DecidableEq, Repr

variable {D : Doubles} {σ τ ε : Type*}

/-- The next backoff, or a panic. -/
def RetryConfig.grown (config : RetryConfig D) (backoff : Nat) : Option Nat :=
  (D.fromSecs (D.mul (D.asSecs backoff) config.backoffMultiplier)).map
    (fun scaled => min scaled config.maxBackoff)

def Retrying.new (config : RetryConfig D) (captured : σ) : Retrying σ :=
  { captured, attempt := 0, backoff := config.initialBackoff, calls := 0, sleeps := [] }

/-- One turn of the loop of `retry_with_backoff`. -/
def retryTurn (config : RetryConfig D) (operation : σ → Except ε τ × σ) (t : Retrying σ) :
    Retrying σ ⊕ Option (Except ResilienceError τ) × Retrying σ :=
  let (result, captured) := operation t.captured
  let t := { t with captured, calls := t.calls + 1 }
  match result with
  | .ok value => .inr (some (.ok value), t)
  | .error _ =>
      if config.maxRetries ≤ t.attempt then
        .inr (some (.error (.maxRetriesExceeded t.attempt)), t)
      else
        let t := { t with sleeps := t.sleeps ++ [t.backoff] }
        match config.grown t.backoff with
        | none => .inr (none, t)
        | some backoff => .inl { t with backoff, attempt := t.attempt + 1 }

/-! ## What the operation answers -/

/-- What the operation has captured after so many calls. -/
def capturedAfter (operation : σ → Except ε τ × σ) (captured : σ) : Nat → σ
  | 0 => captured
  | n + 1 => (operation (capturedAfter operation captured n)).2

/-- The results, call by call. -/
def resultOf (operation : σ → Except ε τ × σ) (captured : σ) (n : Nat) : Except ε τ :=
  (operation (capturedAfter operation captured n)).1

/-- The backoffs, attempt by attempt. -/
def RetryConfig.backoffOf (config : RetryConfig D) : Nat → Option Nat
  | 0 => some config.initialBackoff
  | n + 1 => (config.backoffOf n).bind config.grown

/-- No backoff that may be computed makes the arithmetic panic. -/
def RetryConfig.Safe (config : RetryConfig D) : Prop :=
  ∀ n ≤ config.maxRetries, (config.backoffOf n).isSome = true

instance (config : RetryConfig D) : Decidable config.Safe :=
  inferInstanceAs (Decidable (∀ n ≤ config.maxRetries, _))

/-! ## The loop

The state of the loop after `n` failures is determined: it has called and slept so
often, the backoffs in order, and has the next one ready.  From there it goes on, returns
a success, or gives up. -/

/-- The loop after `n` calls that failed. -/
structure Failed (config : RetryConfig D) (operation : σ → Except ε τ × σ) (captured : σ)
    (n : Nat) (t : Retrying σ) : Prop where
  captured : t.captured = capturedAfter operation captured n
  attempt : t.attempt = n
  backoff : config.backoffOf n = some t.backoff
  calls : t.calls = n
  sleeps : t.sleeps.map some = (List.range n).map config.backoffOf

section
variable {config : RetryConfig D} {operation : σ → Except ε τ × σ} {captured : σ} {n : Nat}
  {t : Retrying σ}

theorem Failed.new : Failed config operation captured 0 (.new config captured) :=
  ⟨rfl, rfl, rfl, rfl, rfl⟩

/-- The call after `n` that failed. -/
theorem Failed.called (h : Failed config operation captured n t) :
    operation t.captured =
      (resultOf operation captured n, capturedAfter operation captured (n + 1)) := by
  rw [h.captured]
  rfl

theorem Failed.sleeps_length (h : Failed config operation captured n t) : t.sleeps.length = n := by
  have hlen := congrArg List.length h.sleeps
  rwa [List.length_map, List.length_map, List.length_range] at hlen

/-- **The step lemma**: a call that fails, with an attempt left. -/
theorem Failed.again (h : Failed config operation captured n t) (hsafe : config.Safe)
    (hn : n < config.maxRetries) {e : ε} (hfails : resultOf operation captured n = .error e) :
    ∃ t', retryTurn config operation t = .inl t' ∧ Failed config operation captured (n + 1) t' := by
  have hgrown : config.backoffOf (n + 1) = config.grown t.backoff := by
    rw [RetryConfig.backoffOf, h.backoff]
    rfl
  obtain ⟨backoff, hbackoff⟩ := Option.isSome_iff_exists.mp (hsafe (n + 1) hn)
  have hleft : ¬ config.maxRetries ≤ t.attempt := by
    rw [h.attempt]
    exact Nat.not_le.mpr hn
  refine ⟨{ captured := capturedAfter operation captured (n + 1), attempt := t.attempt + 1,
            backoff, calls := t.calls + 1, sleeps := t.sleeps ++ [t.backoff] }, ?_, ?_⟩
  · simp only [retryTurn, h.called, hfails, if_neg hleft, ← hgrown, hbackoff]
  · refine ⟨rfl, congrArg (· + 1) h.attempt, hbackoff, congrArg (· + 1) h.calls, ?_⟩
    rw [List.map_append, h.sleeps, List.range_succ, List.map_append, List.map_singleton,
      List.map_singleton, h.backoff]

/-- A call that succeeds. -/
theorem Failed.succeeds (h : Failed config operation captured n t) {value : τ}
    (hresult : resultOf operation captured n = .ok value) :
    retryTurn config operation t = .inr (some (.ok value),
      { t with captured := capturedAfter operation captured (n + 1), calls := t.calls + 1 }) := by
  simp only [retryTurn, h.called, hresult]

/-- A call that fails, with no attempt left. -/
theorem Failed.gives_up (h : Failed config operation captured config.maxRetries t) {e : ε}
    (hfails : resultOf operation captured config.maxRetries = .error e) :
    retryTurn config operation t = .inr (some (.error (.maxRetriesExceeded config.maxRetries)),
      { t with
        captured := capturedAfter operation captured (config.maxRetries + 1)
        calls := t.calls + 1 }) := by
  simp only [retryTurn, h.called, hfails, h.attempt, Nat.le_refl, if_true]

/-- **The run lemma**: what the loop returns it returns from where `n` failures take it. -/
theorem retried (hsafe : config.Safe) (hn : n ≤ config.maxRetries)
    (hfails : ∀ i < n, ∃ e, resultOf operation captured i = .error e) :
    ∃ t, Failed config operation captured n t ∧ ∀ r,
      Loop.Returns (retryTurn config operation) (.new config captured) r ↔
        Loop.Returns (retryTurn config operation) t r := by
  induction n with
  | zero => exact ⟨_, .new, fun _ => Iff.rfl⟩
  | succ n ih =>
      obtain ⟨t, ht, hreturns⟩ := ih (Nat.le_of_succ_le hn) (fun i hi => hfails i (by omega))
      obtain ⟨e, he⟩ := hfails n (Nat.lt_succ_self n)
      obtain ⟨t', hturn, ht'⟩ := ht.again hsafe hn he
      exact ⟨t', ht', fun r => (hreturns r).trans (Loop.returns_inl hturn)⟩

end

/-- `retry_with_backoff` returns the result after so many sleeps, of the backoffs in
order, and one call more. -/
def ReturnsAfter (config : RetryConfig D) (operation : σ → Except ε τ × σ) (captured : σ)
    (sleeps : Nat) (result : Except ResilienceError τ) : Prop :=
  ∃ t, Loop.Returns (retryTurn config operation) (.new config captured) (some result, t) ∧
    t.calls = sleeps + 1 ∧ t.captured = capturedAfter operation captured (sleeps + 1) ∧
    t.sleeps.length = sleeps ∧ t.sleeps.map some = (List.range sleeps).map config.backoffOf

section
variable {config : RetryConfig D} {operation : σ → Except ε τ × σ} {captured : σ}

theorem retry_succeeds (hsafe : config.Safe) {k : Nat} {value : τ} (hk : k ≤ config.maxRetries)
    (hfails : ∀ i < k, ∃ e, resultOf operation captured i = .error e)
    (hresult : resultOf operation captured k = .ok value) :
    ReturnsAfter config operation captured k (.ok value) := by
  obtain ⟨t, ht, hreturns⟩ := retried hsafe hk hfails
  exact ⟨_, (hreturns _).mpr ((Loop.returns_inr (ht.succeeds hresult)).mpr rfl),
    congrArg (· + 1) ht.calls, rfl, ht.sleeps_length, ht.sleeps⟩

theorem retry_gives_up (hsafe : config.Safe)
    (hfails : ∀ i ≤ config.maxRetries, ∃ e, resultOf operation captured i = .error e) :
    ReturnsAfter config operation captured config.maxRetries
      (.error (.maxRetriesExceeded config.maxRetries)) := by
  obtain ⟨t, ht, hreturns⟩ :=
    retried hsafe (Nat.le_refl _) (fun i hi => hfails i (Nat.le_of_lt hi))
  obtain ⟨e, he⟩ := hfails config.maxRetries (Nat.le_refl _)
  exact ⟨_, (hreturns _).mpr ((Loop.returns_inr (ht.gives_up he)).mpr rfl),
    congrArg (· + 1) ht.calls, rfl, ht.sleeps_length, ht.sleeps⟩

/-- Of the results up to the `n`-th all are failures, or there is a first success. -/
theorem fails_or_succeeds (results : Nat → Except ε τ) (n : Nat) :
    (∀ i ≤ n, ∃ e, results i = .error e) ∨
      ∃ k value, k ≤ n ∧ (∀ i < k, ∃ e, results i = .error e) ∧ results k = .ok value := by
  induction n with
  | zero =>
      cases hresult : results 0 with
      | error e =>
          refine Or.inl ?_
          intro i hi
          obtain rfl := Nat.le_zero.mp hi
          exact ⟨e, hresult⟩
      | ok value => exact Or.inr ⟨0, value, Nat.le_refl 0, fun i hi => by omega, hresult⟩
  | succ n ih =>
      rcases ih with hfails | ⟨k, value, hk, hfails, hok⟩
      · cases hresult : results (n + 1) with
        | error e =>
            refine Or.inl ?_
            intro i hi
            rcases Nat.le_succ_iff.mp hi with hle | rfl
            · exact hfails i hle
            · exact ⟨e, hresult⟩
        | ok value =>
            exact Or.inr ⟨n + 1, value, Nat.le_refl _, fun i hi => hfails i (by omega), hresult⟩
      · exact Or.inr ⟨k, value, Nat.le_succ_of_le hk, hfails, hok⟩

end

/-- **The calls and the sleeps of a retry.**  Where no backoff makes the arithmetic panic:
if `k` calls fail, at most `max_retries`, and the next succeeds, its value is returned
after `k + 1` calls and `k` sleeps; if one call more than `max_retries` fails, the error
says so after `max_retries + 1` calls and `max_retries` sleeps; so the loop always
ends. -/
theorem retry_counts (config : RetryConfig D) (hsafe : config.Safe)
    (operation : σ → Except ε τ × σ) (captured : σ) :
    (∀ k value, k ≤ config.maxRetries →
      (∀ i < k, ∃ e, resultOf operation captured i = .error e) →
      resultOf operation captured k = .ok value →
      ReturnsAfter config operation captured k (.ok value)) ∧
    ((∀ i ≤ config.maxRetries, ∃ e, resultOf operation captured i = .error e) →
      ReturnsAfter config operation captured config.maxRetries
        (.error (.maxRetriesExceeded config.maxRetries))) ∧
    Loop.Terminates (retryTurn config operation) (.new config captured) := by
  refine ⟨fun k value => retry_succeeds hsafe, retry_gives_up hsafe, ?_⟩
  rcases fails_or_succeeds (resultOf operation captured) config.maxRetries with
    hfails | ⟨k, value, hk, hfails, hresult⟩
  · obtain ⟨t, hreturns, -⟩ := retry_gives_up hsafe hfails
    exact ⟨_, hreturns⟩
  · obtain ⟨t, hreturns, -⟩ := retry_succeeds hsafe hk hfails hresult
    exact ⟨_, hreturns⟩

/-- Doubles, where they are exact. -/
def exactDoubles : Doubles where
  F64 := Rat
  asSecs d := (d : Rat) / 1000000000
  mul := (· * ·)
  fromSecs secs := if secs < 0 then none else some (secs * 1000000000).floor.toNat

/-- Ten milliseconds at first and a hundred at most, doubled each time. -/
def threeRetries : RetryConfig exactDoubles where
  maxRetries := 3
  initialBackoff := 10000000
  maxBackoff := 100000000
  backoffMultiplier := (2 : Rat)

/-- Two failures, and then an answer. -/
def thirdTime (count : Nat) : Except String Nat × Nat :=
  (if count < 2 then .error "Not yet" else .ok 42, count + 1)

theorem retry_counts_third : ReturnsAfter threeRetries thirdTime 0 2 (.ok 42) := by
  refine (retry_counts threeRetries (by decide +kernel) thirdTime 0).1 2 42 (by decide) ?_ rfl
  intro i hi
  match i, hi with
  | 0, _ => exact ⟨_, rfl⟩
  | 1, _ => exact ⟨_, rfl⟩

end Dolda.Resilience
