/-
# `Dolda.Lib.SortedMap` — a sorted map as an association list

An ordered map with natural-number keys, kept as the list of its entries in key
order.  `insert` puts an entry in its place, replacing the value of a key that
is already there.
-/
import Mathlib.Data.List.Basic

namespace SortedMap
variable {ν : Type*}

/-- Insert in key order; the value of a present key is replaced. -/
def insert (k : Nat) (v : ν) : List (Nat × ν) → List (Nat × ν)
  | [] => [(k, v)]
  | (j, w) :: m =>
      if j < k then (j, w) :: insert k v m
      else if j = k then (k, v) :: m
      else (k, v) :: (j, w) :: m

/-- A key beyond all present ones goes to the end. -/
theorem insert_of_lt {k : Nat} {v : ν} {m : List (Nat × ν)} (h : ∀ p ∈ m, p.1 < k) :
    insert k v m = m ++ [(k, v)] := by
  induction m with
  | nil => rfl
  | cons q m ih =>
      rw [insert, if_pos (h q List.mem_cons_self), ih (fun p hp => h p (List.mem_cons_of_mem _ hp))]
      rfl

theorem mem_insert {k : Nat} {v : ν} {p : Nat × ν} {m : List (Nat × ν)}
    (h : p ∈ insert k v m) : p = (k, v) ∨ p ∈ m := by
  induction m with
  | nil => exact Or.inl (List.mem_singleton.mp h)
  | cons q m ih =>
      rw [insert] at h
      split at h
      · rcases List.mem_cons.mp h with rfl | h
        · exact Or.inr List.mem_cons_self
        · exact (ih h).imp_right (List.mem_cons_of_mem _)
      split at h
      · exact (List.mem_cons.mp h).imp_right (List.mem_cons_of_mem _)
      · exact List.mem_cons.mp h

/-- A new key adds its entry and keeps the others. -/
theorem insert_perm {k : Nat} {v : ν} {m : List (Nat × ν)} (h : ∀ p ∈ m, p.1 ≠ k) :
    (insert k v m).Perm ((k, v) :: m) := by
  induction m with
  | nil => exact List.Perm.refl _
  | cons q m ih =>
      have ih := ih (fun p hp => h p (List.mem_cons_of_mem q hp))
      rw [insert, if_neg (h q List.mem_cons_self)]
      split
      · exact (ih.cons _).trans (List.Perm.swap _ _ _)
      · exact List.Perm.refl _

/-- The keys stay in order. -/
theorem insert_sorted {k : Nat} {v : ν} {m : List (Nat × ν)}
    (h : m.Pairwise (fun p q => p.1 < q.1)) :
    (insert k v m).Pairwise (fun p q => p.1 < q.1) := by
  induction m with
  | nil => exact List.pairwise_singleton _ _
  | cons q m ih =>
      obtain ⟨hj, hm⟩ := List.pairwise_cons.mp h
      rw [insert]
      split
      · rename_i hjk
        refine List.pairwise_cons.mpr ⟨?_, ih hm⟩
        intro p hp
        rcases mem_insert hp with rfl | hp
        · exact hjk
        · exact hj p hp
      split
      · rename_i hjk
        exact List.pairwise_cons.mpr ⟨fun p hp => hjk ▸ hj p hp, hm⟩
      · have hkj : k < q.1 := by omega
        refine List.pairwise_cons.mpr ⟨?_, h⟩
        intro p hp
        rcases List.mem_cons.mp hp with rfl | hp
        · exact hkj
        · exact Nat.lt_trans hkj (hj p hp)

end SortedMap
