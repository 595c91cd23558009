/-
# `Dolda.Lib.Lts` — runs of a labelled step function

A system is a step function `step : σ → α → Option σ`: the label says which
party moves and with what, `none` that this move is not open in the state.  A
**run** takes the labels of a list one after another, so a statement about every
list is one about every interleaving.

    step keeps `Inv`                      ⟹  every run keeps it     (`run_invariant`)
    step keeps `Inv` where `ok` holds     ⟹  every run all of whose
                                             steps meet `ok` does   (`Guarded.invariant`)
    also if `Inv` is of the state and
      what the steps put out              ⟹  the same               (`Guarded.collects`)
    and a step that misses `ok` breaks
      `Inv` for good                      ⟹  a run keeps `Inv` iff
                                             its steps meet `ok`    (`guarded_or_broken`)
    a state has `P` iff the one before it
      did and the step met `ok`           ⟹  so has the last state of a run,
                                             for its first and its steps (`Guarded.last_iff`)
    and a step that misses `ok` breaks
      `P`, which `Inv` gives, at once     ⟹  every state of a run has `P`
                                             iff its steps meet `ok` (`Guarded.always_iff`)
    a hidden step keeps `R`, and any other
      is matched by one that keeps it     ⟹  so does a run without its
                                             hidden steps            (`Guarded.purge`)
    steps that meet `ok` keep `Inv`       ⟹  it holds of every state
                                             they reach              (`Reaches.invariant`)
    a step is one of another system       ⟹  so is a run, under the labels
                                             as that one takes them  (`StepsOf.run_eq`)
-/
import Mathlib.Algebra.GroupWithZero.Nat
import Mathlib.Data.List.Basic

namespace Lts

variable {σ α : Type*} {step : σ → α → Option σ} {ok : σ → α → Prop}

/-- The state after the labels of a list. -/
def run (step : σ → α → Option σ) : σ → List α → Option σ
  | s, [] => some s
  | s, a :: as =>
      match step s a with
      | none => none
      | some s' => run step s' as

/-- Every step the run takes meets `ok`, which sees the state before it. -/
def Guarded (step : σ → α → Option σ) (ok : σ → α → Prop) : σ → List α → Prop
  | _, [] => True
  | s, a :: as =>
      ok s a ∧
        match step s a with
        | none => True
        | some s' => Guarded step ok s' as

instance Guarded.decidable [∀ s a, Decidable (ok s a)] :
    ∀ (s : σ) (as : List α), Decidable (Guarded step ok s as)
  | _, [] => isTrue trivial
  | s, a :: as =>
      let _rest : Decidable (match step s a with
          | none => True
          | some s' => Guarded step ok s' as) :=
        match step s a with
        | none => isTrue trivial
        | some s' => Guarded.decidable s' as
      inferInstanceAs (Decidable (_ ∧ _))

/-- A run is a step and a run. -/
theorem run_cons_some {s s' : σ} {a : α} {as : List α} (h : run step s (a :: as) = some s') :
    ∃ s₁, step s a = some s₁ ∧ run step s₁ as = some s' := by
  cases hs : step s a with
  | none => simp only [run, hs] at h; cases h
  | some s₁ => exact ⟨s₁, rfl, by simpa only [run, hs] using h⟩

/-- **The invariant rule**, for the runs whose steps meet `ok`. -/
theorem Guarded.invariant (Inv : σ → Prop)
    (hstep : ∀ {s a s'}, Inv s → ok s a → step s a = some s' → Inv s') {as : List α} {s s' : σ}
    (hs : Inv s) (hok : Guarded step ok s as) (hrun : run step s as = some s') : Inv s' := by
  induction as generalizing s with
  | nil =>
      cases hrun
      exact hs
  | cons a as ih =>
      obtain ⟨s₁, hs₁, hrun⟩ := run_cons_some hrun
      obtain ⟨ha, hrest⟩ := hok
      rw [hs₁] at hrest
      exact ih (hstep hs ha hs₁) hrest hrun

/-- **The unwinding rule**: a run and the run without its hidden labels stay
related. -/
theorem Guarded.purge (hidden : α → Bool) (R : σ → σ → Prop)
    (hhidden : ∀ {s t a s'}, R s t → ok s a → hidden a = true → step s a = some s' → R s' t)
    (hshown : ∀ {s t a s'}, R s t → ok s a → hidden a = false → step s a = some s' →
      ∃ t', step t a = some t' ∧ R s' t')
    {as : List α} {s t s' : σ} (hR : R s t) (hok : Guarded step ok s as)
    (hrun : run step s as = some s') :
    ∃ t', run step t (as.filter (fun a => !hidden a)) = some t' ∧ R s' t' := by
  induction as generalizing s t with
  | nil =>
      cases hrun
      exact ⟨t, rfl, hR⟩
  | cons a as ih =>
      obtain ⟨s₁, hs₁, hrun⟩ := run_cons_some hrun
      obtain ⟨ha, hrest⟩ := hok
      rw [hs₁] at hrest
      cases hhid : hidden a with
      | true =>
          rw [List.filter_cons_of_neg (by rw [hhid]; decide)]
          exact ih (hhidden hR ha hhid hs₁) hrest hrun
      | false =>
          obtain ⟨t₁, ht₁, hR₁⟩ := hshown hR ha hhid hs₁
          rw [List.filter_cons_of_pos (by rw [hhid]; rfl), run, ht₁]
          exact ih hR₁ hrest hrun

/-! ### One run after another

A condition on the labels alone may be joined to one on the steps (`and_forall`), a
condition may be weakened (`imp`), and it may be put for another that is the same in the
states that have `Inv` (`guarded_congr_of`).  A potential that every step lowers, but for
what its label adds, bounds the length of a run (`run_length_le`). -/

theorem run_append (as bs : List α) (s : σ) :
    run step s (as ++ bs) = (run step s as).bind (fun s' => run step s' bs) := by
  induction as generalizing s with
  | nil => rfl
  | cons a as ih =>
      rw [List.cons_append, run, run]
      cases step s a with
      | none => rfl
      | some s₁ => exact ih s₁

theorem Guarded.append {as bs : List α} {s s' : σ} (has : Guarded step ok s as)
    (hrun : run step s as = some s') (hbs : Guarded step ok s' bs) :
    Guarded step ok s (as ++ bs) := by
  induction as generalizing s with
  | nil =>
      cases hrun
      exact hbs
  | cons a as ih =>
      obtain ⟨s₁, hs₁, hrun⟩ := run_cons_some hrun
      obtain ⟨ha, hrest⟩ := has
      rw [hs₁] at hrest
      refine ⟨ha, ?_⟩
      rw [hs₁]
      exact ih hrest hrun

theorem Guarded.last {as : List α} {a : α} {s s' : σ} (h : Guarded step ok s (as ++ [a]))
    (hrun : run step s as = some s') : ok s' a := by
  induction as generalizing s with
  | nil =>
      cases hrun
      exact h.1
  | cons b as ih =>
      obtain ⟨s₁, hs₁, hrun⟩ := run_cons_some hrun
      obtain ⟨-, hrest⟩ := h
      rw [hs₁] at hrest
      exact ih hrest hrun

theorem Guarded.of_forall (h : ∀ s a, ok s a) (as : List α) (s : σ) : Guarded step ok s as := by
  induction as generalizing s with
  | nil => trivial
  | cons a as ih =>
      refine ⟨h s a, ?_⟩
      split
      · trivial
      · exact ih _

theorem Guarded.and_forall {p : α → Prop} {as : List α} {s : σ} (h : Guarded step ok s as)
    (hp : ∀ a ∈ as, p a) : Guarded step (fun s a => ok s a ∧ p a) s as := by
  induction as generalizing s with
  | nil => trivial
  | cons a as ih =>
      obtain ⟨ha, hrest⟩ := h
      refine ⟨⟨ha, hp a List.mem_cons_self⟩, ?_⟩
      cases hs : step s a with
      | none => trivial
      | some s' =>
          rw [hs] at hrest
          exact ih hrest (fun b hb => hp b (List.mem_cons_of_mem a hb))

theorem run_invariant (Inv : σ → Prop)
    (hstep : ∀ {s a s'}, Inv s → step s a = some s' → Inv s')
    {as : List α} {s s' : σ} (hs : Inv s) (hrun : run step s as = some s') : Inv s' := by
  have hok : Guarded step (fun _ _ => True) s as := Guarded.of_forall (fun _ _ => trivial) as s
  exact Guarded.invariant Inv (fun hs _ h => hstep hs h) hs hok hrun

/-- What the steps of a run put out, one after another. -/
def outputs {β : Type*} (step : σ → α → Option σ) (out : σ → α → List β) : σ → List α → List β
  | _, [] => []
  | s, a :: as =>
      match step s a with
      | none => []
      | some s' => out s a ++ outputs step out s' as

/-- **The invariant rule with what was put out**, which each step adds to. -/
theorem Guarded.collects {β : Type*} {out : σ → α → List β} (Inv : σ → List β → Prop)
    (hstep : ∀ {s a s' bs}, Inv s bs → ok s a → step s a = some s' → Inv s' (bs ++ out s a))
    {as : List α} {s s' : σ} {bs : List β} (hs : Inv s bs) (hok : Guarded step ok s as)
    (hrun : run step s as = some s') : Inv s' (bs ++ outputs step out s as) := by
  induction as generalizing s bs with
  | nil =>
      cases hrun
      rwa [outputs, List.append_nil]
  | cons a as ih =>
      obtain ⟨s₁, hs₁, hrun⟩ := run_cons_some hrun
      obtain ⟨ha, hrest⟩ := hok
      rw [hs₁] at hrest
      have hcollected := ih (hstep hs ha hs₁) hrest hrun
      rw [List.append_assoc] at hcollected
      simpa only [outputs, hs₁] using hcollected

theorem run_length_le (Inv : σ → Prop) (potential : σ → Nat) (gain : α → Nat)
    (hstep : ∀ {s a s'}, Inv s → ok s a → step s a = some s' →
      Inv s' ∧ potential s' < potential s + gain a)
    {as : List α} {s s' : σ} (hs : Inv s) (hok : Guarded step ok s as)
    (hrun : run step s as = some s') :
    as.length + potential s' ≤ potential s + (as.map gain).sum := by
  induction as generalizing s with
  | nil =>
      cases hrun
      simp
  | cons a as ih =>
      obtain ⟨s₁, hs₁, hrun⟩ := run_cons_some hrun
      obtain ⟨ha, hrest⟩ := hok
      rw [hs₁] at hrest
      obtain ⟨hinv, hlt⟩ := hstep hs ha hs₁
      have hle := ih hinv hrest hrun
      rw [List.length_cons, List.map_cons, List.sum_cons]
      omega

/-- **The rule for a guard that matters.**  Steps that meet `ok` keep `Inv`, a step
that does not breaks it into `Broken`, and no step mends that.  So the state a run
reaches tells whether all its steps met `ok`. -/
theorem guarded_or_broken (Inv Broken : σ → Prop)
    (hkeep : ∀ {s a s'}, Inv s → ok s a → step s a = some s' → Inv s')
    (hbreak : ∀ {s a s'}, Inv s → ¬ ok s a → step s a = some s' → Broken s')
    (hstay : ∀ {s a s'}, Broken s → step s a = some s' → Broken s') {as : List α} {s s' : σ}
    (hs : Inv s) (hrun : run step s as = some s') :
    (Guarded step ok s as ∧ Inv s') ∨ (¬ Guarded step ok s as ∧ Broken s') := by
  induction as generalizing s with
  | nil =>
      cases hrun
      exact Or.inl ⟨trivial, hs⟩
  | cons a as ih =>
      obtain ⟨s₁, hs₁, hrun⟩ := run_cons_some hrun
      by_cases ha : ok s a
      · rcases ih (hkeep hs ha hs₁) hrun with ⟨hok, hs'⟩ | ⟨hnot, hs'⟩
        · exact Or.inl ⟨⟨ha, by rw [hs₁]; exact hok⟩, hs'⟩
        · refine Or.inr ⟨?_, hs'⟩
          rintro ⟨-, hrest⟩
          rw [hs₁] at hrest
          exact hnot hrest
      · refine Or.inr ⟨fun h => ha h.1, ?_⟩
        exact run_invariant Broken hstay (hbreak hs ha hs₁) hrun

/-- **The rule for an order that is never restored.**  Under `Base` a state has `P`
iff the one before it did and the step between them met `ok`; so the last state of
a run has `P` iff the first did and every step met `ok`. -/
theorem Guarded.last_iff {pre : σ → α → Prop} {Base P : σ → Prop}
    (hstep : ∀ {s a s'}, Base s → pre s a → step s a = some s' →
      Base s' ∧ (P s' ↔ P s ∧ ok s a))
    {as : List α} {s s' : σ} (hs : Base s) (hpre : Guarded step pre s as)
    (hrun : run step s as = some s') : Base s' ∧ (P s' ↔ P s ∧ Guarded step ok s as) := by
  induction as generalizing s with
  | nil =>
      cases hrun
      exact ⟨hs, (and_iff_left trivial).symm⟩
  | cons a as ih =>
      obtain ⟨s₁, hs₁, hrun⟩ := run_cons_some hrun
      obtain ⟨hpa, hrest⟩ := hpre
      rw [hs₁] at hrest
      obtain ⟨hbase, hP₁⟩ := hstep hs hpa hs₁
      obtain ⟨hbase', hP'⟩ := ih hbase hrest hrun
      refine ⟨hbase', ?_⟩
      rw [hP', hP₁, Guarded, hs₁, and_assoc]

theorem Guarded.imp {ok' : σ → α → Prop} (h : ∀ {s a}, ok s a → ok' s a) {as : List α} {s : σ}
    (hok : Guarded step ok s as) : Guarded step ok' s as := by
  induction as generalizing s with
  | nil => trivial
  | cons a as ih =>
      obtain ⟨ha, hrest⟩ := hok
      refine ⟨h ha, ?_⟩
      cases hs : step s a with
      | none => trivial
      | some s' =>
          rw [hs] at hrest
          exact ih hrest

theorem guarded_congr_of {ok' : σ → α → Prop} (Inv : σ → Prop)
    (hkeep : ∀ {s a s'}, Inv s → step s a = some s' → Inv s')
    (h : ∀ {s} a, Inv s → (ok s a ↔ ok' s a)) {s : σ} (hs : Inv s) (as : List α) :
    Guarded step ok s as ↔ Guarded step ok' s as := by
  induction as generalizing s with
  | nil => exact Iff.rfl
  | cons a as ih =>
      rw [Guarded, Guarded]
      refine and_congr (h a hs) ?_
      cases hs' : step s a with
      | none => exact Iff.rfl
      | some s' => exact ih (hkeep hs hs')

theorem guarded_congr {ok' : σ → α → Prop} (h : ∀ s a, ok s a ↔ ok' s a) {s : σ} {as : List α} :
    Guarded step ok s as ↔ Guarded step ok' s as :=
  guarded_congr_of (fun _ => True) (fun _ _ => trivial) (fun {s} a _ => h s a) trivial as

/-! ### What a system reaches -/

/-- Some run whose steps meet `ok` leads from the one state to the other. -/
def Reaches (step : σ → α → Option σ) (ok : σ → α → Prop) (s s' : σ) : Prop :=
  ∃ as, Guarded step ok s as ∧ run step s as = some s'

theorem Reaches.refl (s : σ) : Reaches step ok s s := ⟨[], trivial, rfl⟩

theorem Reaches.snoc {s s' s'' : σ} {a : α} (h : Reaches step ok s s') (ha : ok s' a)
    (hstep : step s' a = some s'') : Reaches step ok s s'' := by
  obtain ⟨as, has, hrun⟩ := h
  refine ⟨as ++ [a], has.append hrun ⟨ha, ?_⟩, ?_⟩
  · rw [hstep]
    trivial
  · rw [run_append, hrun, Option.bind_some, run, hstep]
    rfl

theorem Reaches.invariant (Inv : σ → Prop)
    (hkeep : ∀ {s a s'}, Inv s → ok s a → step s a = some s' → Inv s') {s s' : σ} (hs : Inv s)
    (h : Reaches step ok s s') : Inv s' := by
  obtain ⟨as, has, hrun⟩ := h
  exact Guarded.invariant Inv hkeep hs has hrun

/-! ## Every state of a run

What holds in every state holds before every step; where `P` itself is kept, or the step
is open in every state, the rules hold of all runs. -/

/-- `P` holds in every state the run goes through, the first and the last among
them. -/
def Always (step : σ → α → Option σ) (P : σ → Prop) : σ → List α → Prop
  | s, [] => P s
  | s, a :: as =>
      P s ∧
        match step s a with
        | none => True
        | some s' => Always step P s' as

instance Always.decidable {P : σ → Prop} [∀ s, Decidable (P s)] :
    ∀ (s : σ) (as : List α), Decidable (Always step P s as)
  | s, [] => inferInstanceAs (Decidable (P s))
  | s, a :: as =>
      let _rest : Decidable (match step s a with
          | none => True
          | some s' => Always step P s' as) :=
        match step s a with
        | none => isTrue trivial
        | some s' => Always.decidable s' as
      inferInstanceAs (Decidable (_ ∧ _))

theorem Always.head {P : σ → Prop} {as : List α} {s : σ} (h : Always step P s as) : P s := by
  cases as with
  | nil => exact h
  | cons a as => exact h.1

theorem Always.guarded {P : σ → Prop} {as : List α} {s : σ} (h : Always step P s as) :
    Guarded step (fun s _ => P s) s as := by
  induction as generalizing s with
  | nil => trivial
  | cons a as ih =>
      obtain ⟨hs, hrest⟩ := h
      refine ⟨hs, ?_⟩
      cases hstep : step s a with
      | none => trivial
      | some s' =>
          rw [hstep] at hrest
          exact ih hrest

/-- **Every state of a run has `P` iff its steps meet `ok`**, the run being one
whose steps meet `pre`, where `Inv` gives `P`, steps that meet `ok` keep `Inv`,
and every other step leads out of `P`. -/
theorem Guarded.always_iff {pre : σ → α → Prop} {Inv P : σ → Prop} (hP : ∀ {s}, Inv s → P s)
    (hkeep : ∀ {s a s'}, Inv s → pre s a → ok s a → step s a = some s' → Inv s')
    (hbreak : ∀ {s a}, Inv s → pre s a → ¬ ok s a → ∃ s', step s a = some s' ∧ ¬ P s')
    {as : List α} {s : σ} (hs : Inv s) (hpre : Guarded step pre s as) :
    Always step P s as ↔ Guarded step ok s as := by
  induction as generalizing s with
  | nil => exact iff_of_true (hP hs) trivial
  | cons a as ih =>
      obtain ⟨hpa, hrest⟩ := hpre
      by_cases ha : ok s a
      · simp only [Always, Guarded, and_iff_right (hP hs), and_iff_right ha]
        cases hstep : step s a with
        | none => exact Iff.rfl
        | some s' =>
            rw [hstep] at hrest
            exact ih (hkeep hs hpa ha hstep) hrest
      · obtain ⟨s', hstep, hs'⟩ := hbreak hs hpa ha
        refine iff_of_false ?_ (fun h => ha h.1)
        rintro ⟨-, hrest⟩
        rw [hstep] at hrest
        exact hs' hrest.head

theorem always_iff_guarded {P : σ → Prop}
    (hkeep : ∀ {s a s'}, P s → ok s a → step s a = some s' → P s')
    (hbreak : ∀ {s a}, P s → ¬ ok s a → ∃ s', step s a = some s' ∧ ¬ P s')
    {as : List α} {s : σ} (hs : P s) : Always step P s as ↔ Guarded step ok s as := by
  have hpre : Guarded step (fun _ _ => True) s as := Guarded.of_forall (fun _ _ => trivial) as s
  exact Guarded.always_iff (fun h => h) (fun h _ => hkeep h) (fun h _ => hbreak h) hs hpre

theorem always_iff_of_next {next : σ → α → σ} {P : σ → Prop}
    (h : ∀ {s a}, P s → (P (next s a) ↔ ok s a)) {as : List α} {s : σ} (hs : P s) :
    Always (fun s a => some (next s a)) P s as ↔
      Guarded (fun s a => some (next s a)) ok s as := by
  refine always_iff_guarded ?_ (fun hs hnot => ⟨_, rfl, mt (h hs).mp hnot⟩) hs
  intro s a s' hs hok hstep
  cases hstep
  exact (h hs).mpr hok

/-! ## The steps of another system -/

section
variable {τ β γ : Type*} {step' : τ → β → Option τ} {R : σ → Prop} {f : σ → τ} {label : σ → α → β}

/-- The labels of a run, each as the other system takes it where it is taken. -/
def relabel (step : σ → α → Option σ) (label : σ → α → β) : σ → List α → List β
  | _, [] => []
  | s, a :: as =>
      label s a ::
        match step s a with
        | none => []
        | some s' => relabel step label s' as

/-- A step that meets `ok` is one of the other system, where a state with `R` is
taken for its image. -/
structure StepsOf (step : σ → α → Option σ) (step' : τ → β → Option τ) (ok : σ → α → Prop)
    (R : σ → Prop) (f : σ → τ) (label : σ → α → β) : Prop where
  step_eq : ∀ {s a}, R s → ok s a → step' (f s) (label s a) = (step s a).map f
  keeps : ∀ {s a s'}, R s → ok s a → step s a = some s' → R s'

/-- **A run of the other system.** -/
theorem StepsOf.run_eq (h : StepsOf step step' ok R f label) {as : List α} {s : σ} (hs : R s)
    (hok : Guarded step ok s as) :
    run step' (f s) (relabel step label s as) = (run step s as).map f := by
  induction as generalizing s with
  | nil => rfl
  | cons a as ih =>
      obtain ⟨ha, hrest⟩ := hok
      have hstep := h.step_eq hs ha
      rw [relabel, run, run, hstep]
      cases hs₁ : step s a with
      | none => rfl
      | some s₁ =>
          rw [hs₁] at hrest
          exact ih (h.keeps hs ha hs₁) hrest

/-- What is asked of the steps is asked of those of the other system. -/
theorem StepsOf.guarded_iff (h : StepsOf step step' ok R f label) {p : σ → α → Prop}
    {q : τ → β → Prop} (hiff : ∀ {s a}, R s → (q (f s) (label s a) ↔ p s a)) {as : List α} {s : σ}
    (hs : R s) (hok : Guarded step ok s as) :
    Guarded step' q (f s) (relabel step label s as) ↔ Guarded step p s as := by
  induction as generalizing s with
  | nil => exact Iff.rfl
  | cons a as ih =>
      obtain ⟨ha, hrest⟩ := hok
      have hstep := h.step_eq hs ha
      rw [relabel, Guarded, Guarded, hstep, hiff hs]
      cases hs₁ : step s a with
      | none => exact Iff.rfl
      | some s₁ =>
          rw [hs₁] at hrest
          exact and_congr_right (fun _ => ih (h.keeps hs ha hs₁) hrest)

theorem StepsOf.outputs_eq (h : StepsOf step step' ok R f label) (out : σ → α → List γ)
    (out' : τ → β → List γ) (hout : ∀ {s a}, R s → out' (f s) (label s a) = out s a)
    {as : List α} {s : σ} (hs : R s) (hok : Guarded step ok s as) :
    outputs step' out' (f s) (relabel step label s as) = outputs step out s as := by
  induction as generalizing s with
  | nil => rfl
  | cons a as ih =>
      obtain ⟨ha, hrest⟩ := hok
      have hstep := h.step_eq hs ha
      rw [relabel, outputs, outputs, hstep]
      cases hs₁ : step s a with
      | none => rfl
      | some s₁ =>
          rw [hs₁] at hrest
          show out' (f s) (label s a) ++ _ = out s a ++ _
          rw [hout hs, ← ih (h.keeps hs ha hs₁) hrest]

theorem StepsOf.run_keeps (h : StepsOf step step' ok R f label) {as : List α} {s s' : σ}
    (hs : R s) (hok : Guarded step ok s as) (hrun : run step s as = some s') : R s' :=
  Guarded.invariant R h.keeps hs hok hrun

end

/-! ## Parties in a list

A step of one party replaces one entry of a list or takes it out.  What is said of all
parties, of the others, or of what they show is carried over here once. -/

theorem exists_split {τ : Type*} {l : List τ} {i : Nat} {x : τ} (h : l[i]? = some x) :
    ∃ pre post, l = pre ++ x :: post ∧ (∀ y, l.set i y = pre ++ y :: post) ∧
      l.eraseIdx i = pre ++ post := by
  obtain ⟨hlt, hget⟩ := List.getElem?_eq_some_iff.mp h
  refine ⟨l.take i, l.drop (i + 1), ?_, ?_, List.eraseIdx_eq_take_drop_succ l i⟩
  · rw [← hget, List.getElem_cons_drop, List.take_append_drop]
  · intro y
    rw [List.set_eq_take_append_cons_drop, if_pos hlt]

theorem getElem?_of_concat {τ : Type*} {l : List τ} {i : Nat} {x y : τ}
    (h : (l ++ [x])[i]? = some y) : l[i]? = some y ∨ i = l.length ∧ y = x := by
  rcases Nat.lt_or_ge i l.length with hlt | hge
  · rw [List.getElem?_append_left hlt] at h
    exact Or.inl h
  · obtain ⟨hlt, -⟩ := List.getElem?_eq_some_iff.mp h
    rw [List.length_append, List.length_singleton] at hlt
    obtain rfl : i = l.length := by omega
    rw [List.getElem?_concat_length] at h
    exact Or.inr ⟨rfl, (Option.some.inj h).symm⟩

theorem getElem?_of_set {τ : Type*} {l : List τ} {i j : Nat} {x y : τ}
    (h : (l.set i x)[j]? = some y) : l[j]? = some y ∨ j = i ∧ y = x := by
  by_cases hij : i = j
  · subst hij
    obtain ⟨hlt, -⟩ := List.getElem?_eq_some_iff.mp h
    rw [List.length_set] at hlt
    rw [List.getElem?_set_self hlt] at h
    exact Or.inr ⟨rfl, (Option.some.inj h).symm⟩
  · rw [List.getElem?_set_ne hij] at h
    exact Or.inl h

section
variable {τ : Type*} {P Q : τ → Prop} {pre post : List τ} {x y : τ}

theorem mem_split {z : τ} (h : z ∈ pre ++ x :: post) : z = x ∨ z ∈ pre ++ post := by
  rcases List.mem_append.mp h with hz | hz
  · exact Or.inr (List.mem_append_left _ hz)
  · exact (List.mem_cons.mp hz).imp_right (List.mem_append_right _)

theorem mem_moved {z : τ} (h : z ∈ pre ++ post) : z ∈ pre ++ y :: post := by
  rcases List.mem_append.mp h with hz | hz
  · exact List.mem_append_left _ hz
  · exact List.mem_append_right _ (List.mem_cons_of_mem _ hz)

theorem mem_replaced {z : τ} {next : Option τ} (h : z ∈ pre ++ (next.toList ++ post)) :
    next = some z ∨ z ∈ pre ++ post := by
  rcases List.mem_append.mp h with hz | hz
  · exact Or.inr (List.mem_append_left _ hz)
  · exact (List.mem_append.mp hz).imp Option.mem_toList.mp (List.mem_append_right _)

theorem forall_others (h : ∀ z ∈ pre ++ x :: post, P z) : ∀ z ∈ pre ++ post, P z :=
  fun z hz => h z (mem_moved hz)

theorem forall_moved (hothers : ∀ z ∈ pre ++ post, Q z) (hy : Q y) :
    ∀ z ∈ pre ++ y :: post, Q z := by
  intro z hz
  rcases mem_split hz with rfl | hz
  · exact hy
  · exact hothers z hz

variable {β : Type*} {f : τ → Option β} {b : β}

theorem filterMap_replaced (next : Option τ) :
    (pre ++ (next.toList ++ post)).filterMap f
      = pre.filterMap f ++ ((next.bind f).toList ++ post.filterMap f) := by
  cases next with
  | none => rw [Option.toList_none, List.nil_append, List.filterMap_append]; rfl
  | some y =>
      rw [List.filterMap_append, Option.toList_some, List.singleton_append, Option.bind_some]
      cases hy : f y with
      | none => rw [List.filterMap_cons_none hy]; rfl
      | some b => rw [List.filterMap_cons_some hy]; rfl

theorem filterMap_here (h : f x = some b) :
    (pre ++ x :: post).filterMap f = pre.filterMap f ++ b :: post.filterMap f := by
  rw [List.filterMap_append, List.filterMap_cons_some h]

theorem filterMap_left (h : f x = none) :
    (pre ++ x :: post).filterMap f = pre.filterMap f ++ post.filterMap f := by
  rw [List.filterMap_append, List.filterMap_cons_none h]

/-! ### A lock that parties take

A party takes the lock that is free, stays where it is, or gives the lock back; the lock
is taken iff one party is inside it, and then no other is. -/

/-- The lock is taken iff one party is inside it, and then no other is. -/
def Locked (inside : τ → Bool) (parties : List τ) (locked : Bool) : Prop :=
  parties.countP inside = if locked then 1 else 0

variable {inside : τ → Bool} {locked : Bool} {next : Option τ}

theorem countP_replaced (inside : τ → Bool) (pre post : List τ) (next : Option τ) :
    (pre ++ (next.toList ++ post)).countP inside
    = (pre ++ post).countP inside + if next.any inside then 1 else 0 := by
  cases next with
  | none => rw [Option.toList_none, List.nil_append]; rfl
  | some y =>
      rw [Option.toList_some, List.singleton_append, List.countP_append, List.countP_append,
        List.countP_cons, Option.any_some]
      omega

theorem Locked.others_outside (h : Locked inside (pre ++ x :: post) locked)
    (hx : inside x = true) : locked = true ∧ ∀ y ∈ pre ++ post, inside y = false := by
  have hcount := countP_replaced inside pre post (some x)
  rw [Option.toList_some, List.singleton_append, h, Option.any_some, if_pos hx] at hcount
  cases locked with
  | false => rw [if_neg Bool.false_ne_true] at hcount; omega
  | true =>
      rw [if_pos rfl] at hcount
      refine ⟨rfl, fun y hy => Bool.eq_false_iff.mpr ?_⟩
      exact List.countP_eq_zero.mp (by omega) y hy

theorem Locked.stays (h : Locked inside (pre ++ x :: post) locked)
    (hnext : next.any inside = inside x) : Locked inside (pre ++ (next.toList ++ post)) locked := by
  have hcount := countP_replaced inside pre post (some x)
  rw [Option.toList_some, List.singleton_append, h, Option.any_some] at hcount
  rw [Locked, countP_replaced, hnext]
  exact hcount.symm

theorem Locked.acquired (h : Locked inside (pre ++ x :: post) false)
    (hnext : next.any inside = true) : Locked inside (pre ++ (next.toList ++ post)) true := by
  have hcount := countP_replaced inside pre post (some x)
  rw [Option.toList_some, List.singleton_append, h, if_neg Bool.false_ne_true] at hcount
  rw [Locked, countP_replaced, hnext, if_pos rfl]
  show _ + 1 = 1
  omega

theorem Locked.released (h : Locked inside (pre ++ x :: post) locked) (hx : inside x = true)
    (hnext : next.any inside = false) : Locked inside (pre ++ (next.toList ++ post)) false := by
  obtain ⟨-, hothers⟩ := h.others_outside hx
  rw [Locked, countP_replaced, hnext, if_neg Bool.false_ne_true]
  refine List.countP_eq_zero.mpr (fun y hy => ?_)
  rw [hothers y hy]
  exact Bool.false_ne_true

end

end Lts
