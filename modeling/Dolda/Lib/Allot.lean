/-
# `Dolda.Lib.Allot` — a demand served from a queue

A demand is served by the items of a queue in their order, each giving what it has
until the demand is met.  `given` says what each item gives, and `left` what is in
the queue afterwards, an item that gave all it had being gone.

Both go over an append (`given_append`, `left_append`), so a queue that is kept in
pieces is served piece by piece.  What is given is the demand or all there is,
whichever is less (`sum_given`), and the rest is still there (`total_left`).  First come
is first served: the items that give are the front of the queue (`given_front`), and
each of them gives all it has, but for the last (`given_full`).
-/
import Mathlib.Algebra.BigOperators.Group.List.Basic
import Mathlib.Algebra.GroupWithZero.Nat
import Mathlib.Data.List.Basic

namespace Allot

variable {α : Type*} (size : α → Nat) (reduce : Nat → α → α)

/-- The items that give something, with what they give. -/
def given : Nat → List α → List (α × Nat)
  | _, [] => []
  | n, a :: as => if n = 0 then [] else (a, min n (size a)) :: given (n - min n (size a)) as

/-- The queue afterwards; an item that has something left is reduced. -/
def left : Nat → List α → List α
  | _, [] => []
  | n, a :: as =>
      if n = 0 then a :: as
      else if size a ≤ n then left (n - size a) as
      else reduce n a :: as

def total (as : List α) : Nat := (as.map size).sum

section
variable {size reduce} {n : Nat} {a : α} {as bs : List α}

@[simp] theorem total_nil : total size [] = 0 := rfl

@[simp] theorem total_cons : total size (a :: as) = size a + total size as := rfl

@[simp] theorem total_append : total size (as ++ bs) = total size as + total size bs := by
  rw [total, List.map_append, List.sum_append]
  rfl

@[simp] theorem given_zero (as : List α) : given size 0 as = [] := by
  cases as with
  | nil => rfl
  | cons a as => exact if_pos rfl

@[simp] theorem left_zero (as : List α) : left size reduce 0 as = as := by
  cases as with
  | nil => rfl
  | cons a as => exact if_pos rfl

theorem given_cons (h : n ≠ 0) :
    given size n (a :: as) = (a, min n (size a)) :: given size (n - min n (size a)) as := if_neg h

theorem left_cons_le (h : n ≠ 0) (hle : size a ≤ n) :
    left size reduce n (a :: as) = left size reduce (n - size a) as := by
  rw [left, if_neg h, if_pos hle]

theorem left_cons_gt (h : n ≠ 0) (hgt : n < size a) :
    left size reduce n (a :: as) = reduce n a :: as := by
  rw [left, if_neg h, if_neg (Nat.not_le.mpr hgt)]

/-- **What is given** is the demand, or all there is. -/
theorem sum_given (n : Nat) (as : List α) :
    ((given size n as).map Prod.snd).sum = min n (total size as) := by
  induction as generalizing n with
  | nil => rw [given, total_nil, Nat.min_zero]; rfl
  | cons a as ih =>
      by_cases hn : n = 0
      · rw [hn, given_zero, Nat.zero_min]
        rfl
      · rw [given_cons hn, List.map_cons, List.sum_cons, ih, total_cons]
        dsimp only
        omega

/-- **What is left** is the rest. -/
theorem total_left (hreduce : ∀ n a, n < size a → size (reduce n a) = size a - n) (n : Nat)
    (as : List α) : total size (left size reduce n as) = total size as - n := by
  induction as generalizing n with
  | nil => rw [left, total_nil, Nat.zero_sub]
  | cons a as ih =>
      by_cases hn : n = 0
      · rw [hn, left_zero, Nat.sub_zero]
      by_cases hle : size a ≤ n
      · rw [left_cons_le hn hle, ih, total_cons]
        omega
      · have hgt := Nat.lt_of_not_le hle
        rw [left_cons_gt hn hgt, total_cons, total_cons, hreduce n a hgt]
        omega

theorem given_append (n : Nat) (as bs : List α) :
    given size n (as ++ bs) = given size n as ++ given size (n - total size as) bs := by
  induction as generalizing n with
  | nil => rfl
  | cons a as ih =>
      by_cases hn : n = 0
      · rw [hn, given_zero, given_zero, Nat.zero_sub, given_zero]
        rfl
      · have hrest : n - min n (size a) - total size as = n - total size (a :: as) := by
          rw [total_cons]
          omega
        rw [List.cons_append, given_cons hn, given_cons hn, ih, hrest, List.cons_append]

theorem left_append (n : Nat) (as bs : List α) :
    left size reduce n (as ++ bs) =
      left size reduce n as ++ left size reduce (n - total size as) bs := by
  induction as generalizing n with
  | nil => rfl
  | cons a as ih =>
      by_cases hn : n = 0
      · rw [hn, left_zero, left_zero, Nat.zero_sub, left_zero]
      by_cases hle : size a ≤ n
      · rw [List.cons_append, left_cons_le hn hle, left_cons_le hn hle, ih, total_cons,
          Nat.sub_sub]
      · have hgt := Nat.lt_of_not_le hle
        have hmet : n - total size (a :: as) = 0 := by
          rw [total_cons]
          omega
        rw [List.cons_append, left_cons_gt hn hgt, left_cons_gt hn hgt, hmet, left_zero,
          List.cons_append]

/-! Items that are shown under other names. -/

theorem given_map {β : Type*} {size' : β → Nat} (f : α → β) (hsize : ∀ a, size' (f a) = size a)
    (n : Nat) (as : List α) :
    given size' n (as.map f) = (given size n as).map (fun x => (f x.1, x.2)) := by
  induction as generalizing n with
  | nil => rfl
  | cons a as ih =>
      by_cases hn : n = 0
      · rw [hn, given_zero, given_zero]
        rfl
      · rw [List.map_cons, given_cons hn, given_cons hn, ih, hsize, List.map_cons]

theorem left_map {β : Type*} {size' : β → Nat} {reduce' : Nat → β → β} (f : α → β)
    (hsize : ∀ a, size' (f a) = size a) (hreduce : ∀ n a, reduce' n (f a) = f (reduce n a)) (n : Nat)
    (as : List α) : left size' reduce' n (as.map f) = (left size reduce n as).map f := by
  induction as generalizing n with
  | nil => rfl
  | cons a as ih =>
      by_cases hn : n = 0
      · rw [hn, left_zero, left_zero]
      by_cases hle : size a ≤ n
      · rw [List.map_cons, left_cons_le hn (by rw [hsize]; exact hle), hsize, ih, left_cons_le hn hle]
      · have hgt := Nat.lt_of_not_le hle
        rw [List.map_cons, left_cons_gt hn (by rw [hsize]; exact hgt), hreduce, left_cons_gt hn hgt,
          List.map_cons]

/-- An item that is left was there, or is what is left of one that was. -/
theorem mem_left {b : α} (h : b ∈ left size reduce n as) :
    b ∈ as ∨ ∃ a ∈ as, ∃ k, k ≠ 0 ∧ k < size a ∧ b = reduce k a := by
  induction as generalizing n with
  | nil => cases h
  | cons a as ih =>
      by_cases hn : n = 0
      · rw [hn, left_zero] at h
        exact .inl h
      by_cases hle : size a ≤ n
      · rw [left_cons_le hn hle] at h
        rcases ih h with hold | ⟨a', ha', hreduced⟩
        · exact .inl (List.mem_cons_of_mem _ hold)
        · exact .inr ⟨a', List.mem_cons_of_mem _ ha', hreduced⟩
      · have hgt := Nat.lt_of_not_le hle
        rw [left_cons_gt hn hgt] at h
        rcases List.mem_cons.mp h with rfl | hold
        · exact .inr ⟨a, List.mem_cons_self, n, hn, hgt, rfl⟩
        · exact .inl (List.mem_cons_of_mem _ hold)

/-- What the items show that a reduction does not change is, of those left, part of
what it was. -/
theorem left_map_sublist {β : Type*} {f : α → β} (hreduce : ∀ n a, f (reduce n a) = f a) (n : Nat)
    (as : List α) : ((left size reduce n as).map f).Sublist (as.map f) := by
  induction as generalizing n with
  | nil => exact List.Sublist.refl _
  | cons a as ih =>
      by_cases hn : n = 0
      · rw [hn, left_zero]
      by_cases hle : size a ≤ n
      · rw [left_cons_le hn hle, List.map_cons]
        exact (ih _).cons _
      · rw [left_cons_gt hn (Nat.lt_of_not_le hle), List.map_cons, List.map_cons, hreduce]

/-- **The items that give** are the first ones; each gives all it has, but for the last. -/
theorem given_front (n : Nat) (as : List α) : (given size n as).map Prod.fst <+: as := by
  induction as generalizing n with
  | nil => exact List.prefix_refl _
  | cons a as ih =>
      by_cases hn : n = 0
      · rw [hn, given_zero]
        exact List.nil_prefix
      · rw [given_cons hn, List.map_cons]
        exact (List.prefix_cons_inj _).mpr (ih _)

theorem given_pos (hpos : ∀ a ∈ as, 0 < size a) {x : α × Nat} (h : x ∈ given size n as) :
    0 < x.2 := by
  induction as generalizing n with
  | nil => cases h
  | cons a as ih =>
      obtain ⟨ha, has⟩ := List.forall_mem_cons.mp hpos
      by_cases hn : n = 0
      · rw [hn, given_zero] at h
        cases h
      rw [given_cons hn] at h
      rcases List.mem_cons.mp h with rfl | h
      · exact Nat.lt_min.mpr ⟨Nat.pos_of_ne_zero hn, ha⟩
      · exact ih has h

theorem given_full {pre post : List (α × Nat)} {x : α × Nat}
    (h : given size n as = pre ++ x :: post) (hpost : post ≠ []) : x.2 = size x.1 := by
  induction as generalizing n pre with
  | nil => exact absurd (congrArg List.length h) (by simp [given])
  | cons a as ih =>
      by_cases hn : n = 0
      · rw [hn, given_zero] at h
        exact absurd (congrArg List.length h) (by simp)
      rw [given_cons hn] at h
      cases pre with
      | cons p pre => exact ih (List.cons.inj h).2
      | nil =>
          obtain ⟨rfl, hrest⟩ := List.cons.inj h
          -- something is given after the item, so it did not meet the demand
          by_contra hne
          have hmet : n - min n (size a) = 0 := by
            dsimp only at hne
            omega
          rw [hmet, given_zero] at hrest
          exact hpost hrest.symm

end

end Allot
