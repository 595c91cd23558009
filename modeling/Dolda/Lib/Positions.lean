/-
# `Dolda.Lib.Positions` — items taken from a log by position

Readers of a log that only grows take its items by position.  `Taken log at_ items`
is what they have taken from where:

    the log grows                     keeps it   (`Taken.grow`)
    the item at a position is taken   extends it (`Taken.snoc`)

If no position was taken twice, no item was taken more often than it is in the log
(`Taken.count_le`).
-/
import Mathlib.Data.List.Forall2
import Mathlib.Data.List.Perm.Subperm

namespace Positions

variable {β : Type*} {log items : List β} {at_ : List Nat}

/-- The items taken, with the positions in the log they were taken from. -/
def Taken (log : List β) (at_ : List Nat) (items : List β) : Prop :=
  List.Forall₂ (fun k x => log[k]? = some x) at_ items

theorem Taken.nil (log : List β) : Taken log [] [] :=
  List.Forall₂.nil

theorem Taken.grow (h : Taken log at_ items) (more : List β) :
    Taken (log ++ more) at_ items := by
  refine List.Forall₂.imp ?_ h
  intro k x hk
  obtain ⟨hlt, -⟩ := List.getElem?_eq_some_iff.mp hk
  rw [List.getElem?_append_left hlt, hk]

theorem Taken.snoc (h : Taken log at_ items) {k : Nat} {x : β} (hk : log[k]? = some x) :
    Taken log (at_ ++ [k]) (items ++ [x]) :=
  List.rel_append h (.cons hk .nil)

/-- Only positions of the log are taken. -/
theorem Taken.lt_length (h : Taken log at_ items) : ∀ k ∈ at_, k < log.length := by
  induction h with
  | nil => intro k hk; cases hk
  | cons hget _ ih =>
      intro k hk
      rcases List.mem_cons.mp hk with rfl | hk
      · exact (List.getElem?_eq_some_iff.mp hget).1
      · exact ih k hk

section Count
variable [DecidableEq β]

/-- An item was taken as often as it is at the positions taken. -/
theorem Taken.count_eq (h : Taken log at_ items) (x : β) :
    items.count x = at_.countP (fun k => log[k]? = some x) := by
  induction h with
  | nil => rfl
  | @cons k y at_ items hget _ ih =>
      rw [List.count_cons, List.countP_cons, ih, hget]
      simp only [beq_iff_eq, decide_eq_true_eq, Option.some.injEq]

theorem count_eq_range (log : List β) (x : β) :
    log.count x = (List.range log.length).countP (fun k => log[k]? = some x) := by
  have hlog : Taken log (List.range log.length) log := by
    rw [Taken, List.forall₂_iff_get]
    refine ⟨List.length_range, ?_⟩
    intro i hi _
    simp only [List.get_eq_getElem, List.getElem_range]
    exact List.getElem?_eq_getElem _
  exact hlog.count_eq x

/-- **No item is taken more often than it is there**, if no position is taken
twice. -/
theorem Taken.count_le (h : Taken log at_ items) (hnodup : at_.Nodup) (x : β) :
    items.count x ≤ log.count x := by
  have hsub : at_ ⊆ List.range log.length :=
    fun k hk => List.mem_range.mpr (h.lt_length k hk)
  rw [h.count_eq, count_eq_range log x]
  exact (hnodup.subperm hsub).countP_le _

theorem Taken.subperm (h : Taken log at_ items) (hnodup : at_.Nodup) : items.Subperm log :=
  List.subperm_ext_iff.mpr (fun x _ => h.count_le hnodup x)

end Count

end Positions
