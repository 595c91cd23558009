/-
# `Dolda.Lib.Ballot` — one choice per round

A voter goes through rounds of a growing number, has at most one choice on record
for the round it is in, and keeps a journal of the choices it announced, each with
its round.  `Sound now choice journal` is what such a voter maintains:

    a later round, any choice on record     keeps it     (`Sound.advance`)
    the choice on record announced          keeps it     (`Sound.cast`)
    a first choice, recorded and announced  keeps it     (`Sound.cast`)

So a voter announces at most one choice for a round (`Sound.single`), whatever it
does with rounds that are over, and two choices for one round that are each
announced by more than half of the voters are the same (`quorums_agree`).
-/
import Mathlib.Data.Finset.Card
import Mathlib.Data.Fintype.Card

namespace Ballot

/-! ## One voter -/

section Voter
variable {T C : Type*} [LE T]

structure Sound (now : T) (choice : Option C) (journal : List (T × C)) : Prop where
  past : ∀ {t c}, (t, c) ∈ journal → t ≤ now
  onRecord : ∀ {c}, (now, c) ∈ journal → choice = some c
  single : ∀ {t c c'}, (t, c) ∈ journal → (t, c') ∈ journal → c = c'

variable {now now' : T} {choice : Option C} {journal : List (T × C)}

theorem Sound.fresh (now : T) (choice : Option C) : Sound now choice [] where
  past h := absurd h List.not_mem_nil
  onRecord h := absurd h List.not_mem_nil
  single h := absurd h List.not_mem_nil

/-- Nothing has been announced for a round to come. -/
theorem Sound.advance [LT T] [Std.IsPreorder T] [Std.LawfulOrderLT T]
    (h : Sound now choice journal) (hlt : now < now') (choice' : Option C) :
    Sound now' choice' journal where
  past hmem := Std.le_trans (h.past hmem) (Std.le_of_lt hlt)
  onRecord hmem :=
    absurd (Std.lt_of_le_of_lt (h.past hmem) hlt) Std.lt_irrefl
  single := h.single

theorem Sound.cast [Std.Refl (α := T) (· ≤ ·)] (h : Sound now choice journal) {c : C}
    (hc : choice = none ∨ choice = some c) : Sound now (some c) (journal ++ [(now, c)]) := by
  have hnow : ∀ {c'}, (now, c') ∈ journal ++ [(now, c)] → c' = c := by
    intro c' hmem
    rcases List.mem_append.mp hmem with hmem | hmem
    · have hchoice := h.onRecord hmem
      rcases hc with hc | hc
      · cases hc.symm.trans hchoice
      · cases hc.symm.trans hchoice
        rfl
    · cases List.mem_singleton.mp hmem
      rfl
  have hpast : ∀ {t c'}, (t, c') ∈ journal ++ [(now, c)] → (t, c') ∈ journal ∨ t = now := by
    intro t c' hmem
    refine (List.mem_append.mp hmem).imp_right ?_
    intro hmem
    cases List.mem_singleton.mp hmem
    rfl
  refine ⟨fun hmem => ?_, fun hmem => congrArg some (hnow hmem).symm, fun hmem hmem' => ?_⟩
  · rcases hpast hmem with hold | rfl
    · exact h.past hold
    · exact Std.Refl.refl _
  · rcases hpast hmem with hold | rfl
    · rcases hpast hmem' with hold' | rfl
      · exact h.single hold hold'
      · rw [hnow hmem, hnow hmem']
    · rw [hnow hmem, hnow hmem']

end Voter

/-! ## Quorums -/

/-- **Two quorums agree.**  Sets of voters that are together more than all voters
share one, and it announced one choice. -/
theorem quorums_agree {V C : Type*} [Fintype V] [DecidableEq V] {announced : V → C → Prop}
    (single : ∀ v c c', announced v c → announced v c' → c = c') {A B : Finset V} {c c' : C}
    (hA : ∀ v ∈ A, announced v c) (hB : ∀ v ∈ B, announced v c')
    (hcard : Fintype.card V < A.card + B.card) : c = c' := by
  obtain ⟨v, hv⟩ := Finset.inter_nonempty_of_card_lt_card_add_card
    (Finset.subset_univ A) (Finset.subset_univ B) hcard
  obtain ⟨hvA, hvB⟩ := Finset.mem_inter.mp hv
  exact single v c c' (hA v hvA) (hB v hvB)

end Ballot
