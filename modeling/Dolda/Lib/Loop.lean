/-
# `Dolda.Lib.Loop` — loops that need not end

A loop is its body: one turn either goes on with a new state or returns.  `run`
takes at most so many turns, so it is total whatever the loop does, and what the
loop itself does is said over all bounds:

    `Returns body s r`     some number of turns returns `r`
    `Terminates body s`    some number of turns returns something

**The rules.**

    turns keep `Inv` and return inside `Post`   ⟹  every result meets `Post`  (`Returns.post`)
    turns match those of a related loop         ⟹  so do the results          (`Returns.simulates`)
    every turn goes on inside `Inv`             ⟹  the loop does not end     (`not_terminates`)
    every turn of a loop that does not end is
      matched by a turn                         ⟹  the loop does not end     (`not_terminates_of_follows`)
    every turn that goes on follows a turn of a
      loop that ends, or leaves for one         ⟹  the loop ends             (`Terminates.of_follows`)
    every round that goes on does something and
      gets smaller                              ⟹  the loop ends, having done some
                                                   things in order         (`exists_returns`)
    every turn that goes on grows a size by one ⟹  the loop stays within `n`
                                                   of it iff `n + 1` turns do (`Grows.run_iff`)
    a loop that tries, makes room, tries again  ⟹  when it ends in two turns, and
                                                   when never                 (`Retries`)
-/
import Mathlib.Tactic.Common

namespace Loop

variable {σ τ ρ ρ' ε : Type*} {body : σ → σ ⊕ ρ} {s s' : σ} {r r' : ρ}

/-- The result after at most so many turns. -/
def run (body : σ → σ ⊕ ρ) : Nat → σ → Option ρ
  | 0, _ => none
  | n + 1, s =>
      match body s with
      | .inl s => run body n s
      | .inr r => some r

def Returns (body : σ → σ ⊕ ρ) (s : σ) (r : ρ) : Prop := ∃ n, run body n s = some r

def Terminates (body : σ → σ ⊕ ρ) (s : σ) : Prop := ∃ r, Returns body s r

/-! ## One turn

More turns do not change a result, so a loop returns one; and two loops whose turns are
the same inside what the turns keep run alike. -/

theorem run_inl (h : body s = .inl s') (n : Nat) : run body (n + 1) s = run body n s' := by
  rw [run, h]

theorem run_inr (h : body s = .inr r) (n : Nat) : run body (n + 1) s = some r := by
  rw [run, h]

theorem returns_inl (h : body s = .inl s') : Returns body s r ↔ Returns body s' r := by
  constructor
  · rintro ⟨_ | n, hn⟩
    · cases hn
    · exact ⟨n, by rwa [run_inl h] at hn⟩
  · rintro ⟨n, hn⟩
    exact ⟨n + 1, by rwa [run_inl h]⟩

theorem returns_inr (h : body s = .inr r) : Returns body s r' ↔ r' = r := by
  constructor
  · rintro ⟨_ | n, hn⟩
    · cases hn
    · rw [run_inr h] at hn
      exact (Option.some.inj hn).symm
  · rintro rfl
    exact ⟨1, run_inr h 0⟩

theorem exists_returns_some {body : σ → σ ⊕ Option ρ × τ} {P : τ → Prop} :
    (∃ result t, Returns body s (some result, t) ∧ P t) ↔
      ∃ x, Returns body s x ∧ x.1.isSome = true ∧ P x.2 := by
  constructor
  · rintro ⟨result, t, hreturns, ht⟩
    exact ⟨_, hreturns, rfl, ht⟩
  · rintro ⟨⟨_ | result, t⟩, hreturns, hsome, ht⟩
    · cases hsome
    · exact ⟨result, t, hreturns, ht⟩

theorem terminates_inl (h : body s = .inl s') : Terminates body s ↔ Terminates body s' :=
  exists_congr (fun _ => returns_inl h)

theorem terminates_inr (h : body s = .inr r) : Terminates body s := ⟨r, (returns_inr h).mpr rfl⟩

theorem run_mono {n m : Nat} (h : run body n s = some r) (hm : n ≤ m) :
    run body m s = some r := by
  induction n generalizing m s with
  | zero => cases h
  | succ n ih =>
      obtain ⟨m, rfl⟩ := Nat.exists_eq_add_of_le' hm
      cases hbody : body s with
      | inl s' =>
          rw [run_inl hbody] at h
          rw [← Nat.add_assoc, run_inl hbody]
          exact ih h (Nat.le_add_left n m)
      | inr r' =>
          rw [run_inr hbody] at h
          rw [← Nat.add_assoc, run_inr hbody, h]

theorem Returns.unique (h : Returns body s r) (h' : Returns body s r') : r = r' := by
  obtain ⟨n, hn⟩ := h
  obtain ⟨m, hm⟩ := h'
  have hsum := (run_mono hn (Nat.le_add_right n m)).symm.trans (run_mono hm (Nat.le_add_left m n))
  exact Option.some.inj hsum

/-- **The loop rule**: what turns that go on keep, and turns that return turn
into `Post`, makes every result meet `Post`. -/
theorem Returns.post (Inv : σ → Prop) (Post : ρ → Prop)
    (hgo : ∀ {s s'}, Inv s → body s = .inl s' → Inv s')
    (hret : ∀ {s r}, Inv s → body s = .inr r → Post r) (hs : Inv s) (h : Returns body s r) :
    Post r := by
  obtain ⟨n, hn⟩ := h
  induction n generalizing s with
  | zero => cases hn
  | succ n ih =>
      cases hbody : body s with
      | inl s' =>
          rw [run_inl hbody] at hn
          exact ih (hgo hs hbody) hn
      | inr r' =>
          rw [run_inr hbody] at hn
          obtain rfl := Option.some.inj hn
          exact hret hs hbody

theorem run_congr {body' : σ → σ ⊕ ρ} (Inv : σ → Prop) (hsame : ∀ {s}, Inv s → body s = body' s)
    (hgo : ∀ {s s'}, Inv s → body s = .inl s' → Inv s') (n : Nat) {s : σ} (hs : Inv s) :
    run body n s = run body' n s := by
  induction n generalizing s with
  | zero => rfl
  | succ n ih =>
      cases hbody : body s with
      | inl s' =>
          rw [run_inl hbody, run_inl ((hsame hs).symm.trans hbody)]
          exact ih (hgo hs hbody)
      | inr r => rw [run_inr hbody, run_inr ((hsame hs).symm.trans hbody)]

/-- **The simulation rule.**  `R` relates the states of two loops whose turns match:
then so do their results. -/
theorem Returns.simulates {body' : τ → τ ⊕ ρ'} {t : τ} (R : τ → σ → Prop) (Q : ρ' → ρ → Prop)
    (hgo : ∀ {t s s'}, R t s → body s = .inl s' → ∃ t', body' t = .inl t' ∧ R t' s')
    (hret : ∀ {t s r}, R t s → body s = .inr r → ∃ r', body' t = .inr r' ∧ Q r' r)
    (ht : R t s) (h : Returns body s r) : ∃ r', Returns body' t r' ∧ Q r' r := by
  obtain ⟨n, hn⟩ := h
  induction n generalizing s t with
  | zero => cases hn
  | succ n ih =>
      cases hbody : body s with
      | inl s' =>
          rw [run_inl hbody] at hn
          obtain ⟨t', hbody', ht'⟩ := hgo ht hbody
          obtain ⟨r', hr', hq⟩ := ih ht' hn
          exact ⟨r', (returns_inl hbody').mpr hr', hq⟩
      | inr r₀ =>
          rw [run_inr hbody] at hn
          obtain rfl := Option.some.inj hn
          obtain ⟨r', hbody', hq⟩ := hret ht hbody
          exact ⟨r', (returns_inr hbody').mpr rfl, hq⟩

/-! ## Loops that do not end -/

theorem run_eq_none {Inv : σ → Prop} (h : ∀ s, Inv s → ∃ s', body s = .inl s' ∧ Inv s')
    (n : Nat) {s : σ} (hs : Inv s) : run body n s = none := by
  induction n generalizing s with
  | zero => rfl
  | succ n ih =>
      obtain ⟨s', hbody, hs'⟩ := h s hs
      rw [run_inl hbody]
      exact ih hs'

/-- A loop whose every turn goes on never ends. -/
theorem not_terminates (Inv : σ → Prop) (h : ∀ s, Inv s → ∃ s', body s = .inl s' ∧ Inv s')
    (hs : Inv s) : ¬ Terminates body s := by
  rintro ⟨r, n, hn⟩
  rw [run_eq_none h n hs] at hn
  cases hn

/-- **Following for ever.**  `π` shows, inside each state of a loop, a state of
another that does not end, and every turn of the other is matched by a turn. -/
theorem not_terminates_of_follows {body' : τ → τ ⊕ ρ'} {t : τ} {π : τ → σ}
    (hnot : ¬ Terminates body (π t)) (Inv : τ → Prop)
    (h : ∀ t u, Inv t → body (π t) = .inl u → ∃ t', body' t = .inl t' ∧ Inv t' ∧ π t' = u)
    (ht : Inv t) : ¬ Terminates body' t := by
  refine not_terminates (fun t => Inv t ∧ ¬ Terminates body (π t)) ?_ ⟨ht, hnot⟩
  rintro t ⟨ht, hnot⟩
  cases hbody : body (π t) with
  | inr r => exact absurd (terminates_inr hbody) hnot
  | inl u =>
      obtain ⟨t', hbody', ht', rfl⟩ := h t u ht hbody
      exact ⟨t', hbody', ht', fun hterm => hnot ((terminates_inl hbody).mpr hterm)⟩

/-! ## Loops that end -/

/-- **Following.**  `π` shows, inside each state of a loop, a state of another
that ends.  Each turn that goes on either makes a turn of the other, or leaves
for a state from which the loop ends. -/
theorem Terminates.of_follows {body' : τ → τ ⊕ ρ'} {t : τ} {π : τ → σ}
    (hterm : Terminates body (π t)) (Inv : τ → Prop)
    (h : ∀ t t', Inv t → body' t = .inl t' →
      (Inv t' ∧ body (π t) = .inl (π t')) ∨ Terminates body' t')
    (ht : Inv t) : Terminates body' t := by
  obtain ⟨r, n, hn⟩ := hterm
  induction n generalizing t with
  | zero => cases hn
  | succ n ih =>
      cases hbody : body' t with
      | inr r' => exact terminates_inr hbody
      | inl t' =>
          refine (terminates_inl hbody).mpr ?_
          rcases h t t' ht hbody with ⟨ht', hturn⟩ | hterm
          · rw [run_inl hturn] at hn
            exact ih ht' hn
          · exact hterm

/-- What the rounds of a loop do, one after another. -/
inductive Rounds {χ : Type*} (Does : σ → χ → σ → Prop) : σ → List χ → σ → Prop where
  | nil (s : σ) : Rounds Does s [] s
  | cons {s s₁ s₂ : σ} {x : χ} {xs : List χ} : Does s x s₁ → Rounds Does s₁ xs s₂ →
      Rounds Does s (x :: xs) s₂

/-- **A loop that gets smaller** each round ends; a round takes one turn or several. -/
theorem exists_returns {χ : Type*} (body : σ → σ ⊕ ρ) (Inv : σ → Prop) (size : σ → Nat)
    (Does : σ → χ → σ → Prop) (Last : σ → ρ → Prop)
    (h : ∀ {s}, Inv s →
      (∃ x s', (∀ r, Returns body s' r → Returns body s r) ∧ Inv s' ∧ Does s x s' ∧
        size s' < size s) ∨ ∃ r, Returns body s r ∧ Last s r)
    {s : σ} (hs : Inv s) : ∃ xs s' r, Rounds Does s xs s' ∧ Last s' r ∧ Returns body s r := by
  induction hsize : size s using Nat.strongRecOn generalizing s with
  | _ n ih =>
    rcases h hs with ⟨x, s₁, hgoes, hs₁, hdoes, hlt⟩ | ⟨r, hreturns, hlast⟩
    · obtain ⟨xs, s', r, hrounds, hlast, hreturns⟩ := ih _ (hsize ▸ hlt) hs₁ rfl
      exact ⟨x :: xs, s', r, .cons hdoes hrounds, hlast, hgoes r hreturns⟩
    · exact ⟨[], s, r, .nil s, hlast, hreturns⟩

/-! ## Loops that grow -/

/-- Every turn that goes on grows the size by one; a turn that returns does not
grow it. -/
structure Grows (body : σ → σ ⊕ ρ) (size : σ → Nat) (sizeOf : ρ → Nat) (Inv : σ → Prop) :
    Prop where
  goesOn : ∀ {s s'}, Inv s → body s = .inl s' → Inv s' ∧ size s' = size s + 1
  returns : ∀ {s r}, Inv s → body s = .inr r → sizeOf r = size s

section
variable {size : σ → Nat} {sizeOf : ρ → Nat} {Inv : σ → Prop}

theorem Grows.size_le (h : Grows body size sizeOf Inv) {n : Nat} {s : σ} (hs : Inv s)
    (hr : run body n s = some r) : size s ≤ sizeOf r := by
  induction n generalizing s with
  | zero => cases hr
  | succ n ih =>
      cases hbody : body s with
      | inr r' =>
          rw [run_inr hbody] at hr
          obtain rfl := Option.some.inj hr
          exact Nat.le_of_eq (h.returns hs hbody).symm
      | inl s' =>
          obtain ⟨hs', hsize⟩ := h.goesOn hs hbody
          rw [run_inl hbody] at hr
          have hle := ih hs' hr
          omega

/-- **Growth counts turns**: a loop returns with a growth of at most `n` iff it
returns within `n + 1` turns. -/
theorem Grows.run_iff (h : Grows body size sizeOf Inv) : ∀ {n : Nat} {s : σ}, Inv s →
    (run body (n + 1) s = some r ↔ Returns body s r ∧ sizeOf r ≤ size s + n)
  | n, s, hs => by
      cases hbody : body s with
      | inr r' =>
          rw [run_inr hbody, returns_inr hbody]
          constructor
          · intro hr
            obtain rfl := Option.some.inj hr
            exact ⟨rfl, (h.returns hs hbody).symm ▸ Nat.le_add_right _ _⟩
          · rintro ⟨rfl, -⟩
            rfl
      | inl s' =>
          obtain ⟨hs', hsize⟩ := h.goesOn hs hbody
          rw [run_inl hbody, returns_inl hbody]
          cases n with
          | zero =>
              constructor
              · intro hr
                cases hr
              · rintro ⟨⟨m, hm⟩, hle⟩
                have hle' := h.size_le hs' hm
                omega
          | succ n =>
              rw [h.run_iff hs', hsize, Nat.add_right_comm, Nat.add_assoc]

end

/-! ## Try, make room, try again

In its first turn such a loop returns iff the state fits or cannot grow.  Where no state
just grown has room and every state can be grown it never ends. -/

/-- A loop that returns where the state has room (`fits`) and otherwise has to
`grow` it, giving up when it cannot.  `small` says that a state just grown has
room, `Good` what is asked of the results. -/
structure Retries (body : σ → σ ⊕ ρ) (fits : σ → Prop) (grow : σ → Except ε σ) (small : Prop)
    (Good : ρ → Prop) (size : σ → Nat) (sizeOf : ρ → Nat) (Inv : σ → Prop) : Prop where
  done : ∀ {s}, Inv s → fits s → ∃ r, body s = .inr r ∧ Good r ∧ sizeOf r = size s
  failed : ∀ {s e}, Inv s → ¬ fits s → grow s = .error e →
    ∃ r, body s = .inr r ∧ Good r ∧ sizeOf r = size s
  goesOn : ∀ {s s'}, Inv s → ¬ fits s → grow s = .ok s' → body s = .inl s'
  grown : ∀ {s s'}, Inv s → grow s = .ok s' → Inv s' ∧ size s' = size s + 1 ∧ (fits s' ↔ small)
  fits_small : ∀ {s}, Inv s → fits s → small

section
variable {fits : σ → Prop} {grow : σ → Except ε σ} {small : Prop} {Good : ρ → Prop}
  {size : σ → Nat} {sizeOf : ρ → Nat} {Inv : σ → Prop}

theorem Retries.turn (h : Retries body fits grow small Good size sizeOf Inv) (hs : Inv s) :
    ((fits s ∨ ∃ e, grow s = .error e) ∧ ∃ r, body s = .inr r ∧ Good r ∧ sizeOf r = size s) ∨
      ¬ fits s ∧ ∃ s', grow s = .ok s' ∧ body s = .inl s' := by
  by_cases hfits : fits s
  · exact Or.inl ⟨Or.inl hfits, h.done hs hfits⟩
  cases hgrow : grow s with
  | error e => exact Or.inl ⟨Or.inr ⟨e, rfl⟩, h.failed hs hfits hgrow⟩
  | ok s' => exact Or.inr ⟨hfits, s', rfl, h.goesOn hs hfits hgrow⟩

theorem Retries.grows (h : Retries body fits grow small Good size sizeOf Inv) :
    Grows body size sizeOf Inv where
  goesOn {s s'} hs hbody := by
    rcases h.turn hs with ⟨-, r, hbody', -⟩ | ⟨-, s₁, hgrow, hbody'⟩
    · cases hbody.symm.trans hbody'
    · cases hbody.symm.trans hbody'
      obtain ⟨hinv, hsize, -⟩ := h.grown hs hgrow
      exact ⟨hinv, hsize⟩
  returns {s r} hs hbody := by
    rcases h.turn hs with ⟨-, r', hbody', -, hsize⟩ | ⟨-, s₁, -, hbody'⟩
    · cases hbody.symm.trans hbody'
      exact hsize
    · cases hbody.symm.trans hbody'

theorem Retries.run_one_iff (h : Retries body fits grow small Good size sizeOf Inv)
    (hs : Inv s) : (∃ r, run body 1 s = some r ∧ Good r) ↔
      fits s ∨ ∃ e, grow s = .error e := by
  rcases h.turn hs with ⟨hor, r, hbody, hgood, -⟩ | ⟨hfits, s', hgrow, hbody⟩
  · exact iff_of_true ⟨r, run_inr hbody 0, hgood⟩ hor
  · refine iff_of_false ?_ (by simp [hfits, hgrow])
    rintro ⟨r, hrun, -⟩
    rw [run_inl hbody] at hrun
    cases hrun

/-- **Bounded retries.**  It returns a good result within one growth iff a state
just grown has room, or the state cannot be grown twice. -/
theorem Retries.bounded_iff (h : Retries body fits grow small Good size sizeOf Inv)
    (hs : Inv s) : (∃ r, Returns body s r ∧ Good r ∧ sizeOf r ≤ size s + 1) ↔
      small ∨ (∃ e, grow s = .error e) ∨ ∃ s' e, grow s = .ok s' ∧ grow s' = .error e := by
  have hrun : (∃ r, Returns body s r ∧ Good r ∧ sizeOf r ≤ size s + 1) ↔
      ∃ r, run body 2 s = some r ∧ Good r := by
    constructor
    · rintro ⟨r, hr, hgood, hle⟩
      exact ⟨r, (h.grows.run_iff hs).mpr ⟨hr, hle⟩, hgood⟩
    · rintro ⟨r, hrun, hgood⟩
      obtain ⟨hr, hle⟩ := (h.grows.run_iff hs).mp hrun
      exact ⟨r, hr, hgood, hle⟩
  rw [hrun]
  rcases h.turn hs with ⟨hor, r, hbody, hgood, -⟩ | ⟨hfits, s', hgrow, hbody⟩
  · refine iff_of_true ⟨r, run_inr hbody 1, hgood⟩ ?_
    rcases hor with hfits | hnone
    · exact Or.inl (h.fits_small hs hfits)
    · exact Or.inr (Or.inl hnone)
  · obtain ⟨hs', -, hsmall⟩ := h.grown hs hgrow
    rw [run_inl hbody, h.run_one_iff hs', hsmall]
    simp [hgrow]

theorem Retries.not_terminates (h : Retries body fits grow small Good size sizeOf Inv)
    (hsmall : ¬ small) (hgrow : ∀ s, Inv s → ∃ s', grow s = .ok s') (hs : Inv s) :
    ¬ Terminates body s := by
  refine Loop.not_terminates Inv ?_ hs
  intro s hs
  obtain ⟨s', hs'⟩ := hgrow s hs
  exact ⟨s', h.goesOn hs (fun hfits => hsmall (h.fits_small hs hfits)) hs', (h.grown hs hs').1⟩

end

end Loop
