/-
# `Dolda.Lib.NextFit` — packing into bins, never looking back

Items are strings of cells, and a bin holds up to `cap` of them, one item behind
the other.  An item goes behind the last one if it fits there, and otherwise
opens a new bin; a bin once left is never returned to.  A packing is the bins
left and the bin being filled.

The first bin is what a reader sees that knows of no other.  It holds the items up
to the first that does not fit (`first_of_fits`); an item among them lies at its
slot, followed by the others (`drop_first`), and the one that does not fit has the
slot 0 (`overflow`).
-/
import Mathlib.Data.List.Basic

namespace NextFit

variable {β : Type*} {cap : Nat}

structure Packing (β : Type*) where
  full : List (List β)
  last : List β

def Packing.empty : Packing β := ⟨[], []⟩

/-- The bin opened first. -/
def Packing.first (p : Packing β) : List β := p.full.headD p.last

/-- The packing with a new bin opened. -/
def Packing.opened (p : Packing β) : Packing β := ⟨p.full ++ [p.last], []⟩

/-- The packing with an item put behind the last one. -/
def Packing.extended (p : Packing β) (d : List β) : Packing β := ⟨p.full, p.last ++ d⟩

/-- The item fits the bin being filled. -/
def Packing.Fits (cap : Nat) (p : Packing β) (d : List β) : Prop := p.last.length + d.length ≤ cap

instance (cap : Nat) (p : Packing β) (d : List β) : Decidable (p.Fits cap d) :=
  inferInstanceAs (Decidable (_ ≤ _))

/-- The bin an item goes into, before it does. -/
def Packing.target (cap : Nat) (p : Packing β) (d : List β) : Packing β :=
  if p.Fits cap d then p else p.opened

def add (cap : Nat) (p : Packing β) (d : List β) : Packing β := (p.target cap d).extended d

/-- Where in its bin an item goes. -/
def slot (cap : Nat) (p : Packing β) (d : List β) : Nat := (p.target cap d).last.length

def pack (cap : Nat) (p : Packing β) (ds : List (List β)) : Packing β := ds.foldl (add cap) p

@[simp] theorem pack_nil (p : Packing β) : pack cap p [] = p := rfl

@[simp] theorem pack_cons (p : Packing β) (d : List β) (ds : List (List β)) :
    pack cap p (d :: ds) = pack cap (add cap p d) ds := rfl

theorem pack_append (p : Packing β) (ds es : List (List β)) :
    pack cap p (ds ++ es) = pack cap (pack cap p ds) es := List.foldl_append

theorem pack_snoc (p : Packing β) (ds : List (List β)) (d : List β) :
    pack cap p (ds ++ [d]) = add cap (pack cap p ds) d := pack_append p ds [d]

/-! ## The bins by their numbers -/

/-- What is in the `i`-th bin; nothing, if it was not opened. -/
def Packing.bin (p : Packing β) (i : Nat) : List β := ((p.full ++ [p.last])[i]?).getD []

theorem Packing.bin_zero (p : Packing β) : p.bin 0 = p.first := by
  obtain ⟨_ | ⟨b, full⟩, last⟩ := p
  · rfl
  · rfl

theorem Packing.bin_last (p : Packing β) : p.bin p.full.length = p.last := by
  rw [bin, List.getElem?_concat_length, Option.getD_some]

@[simp] theorem Packing.bin_opened (p : Packing β) (i : Nat) : p.opened.bin i = p.bin i := by
  rw [bin, opened, bin]
  rcases Nat.lt_trichotomy i (p.full ++ [p.last]).length with hlt | rfl | hgt
  · rw [List.getElem?_append_left hlt]
  · rw [List.getElem?_concat_length, List.getElem?_eq_none (Nat.le_refl _)]
    rfl
  · rw [List.getElem?_eq_none (Nat.le_of_lt hgt), List.getElem?_eq_none]
    rw [List.length_append, List.length_singleton]
    exact hgt

theorem Packing.bin_extended (p : Packing β) (d : List β) (i : Nat) :
    (p.extended d).bin i = p.bin i ++ if i = p.full.length then d else [] := by
  split
  · rename_i hi
    subst hi
    rw [bin_last]
    exact bin_last (p.extended d)
  · rename_i hi
    rw [List.append_nil, bin, bin, extended]
    rcases Nat.lt_or_ge i p.full.length with hlt | hge
    · rw [List.getElem?_append_left hlt, List.getElem?_append_left hlt]
    · have hgt : p.full.length + 1 ≤ i := by omega
      rw [List.getElem?_eq_none, List.getElem?_eq_none]
      · rwa [List.length_append, List.length_singleton]
      · rwa [List.length_append, List.length_singleton]

/-! ## The first bin

Once the first bin has been left nothing goes there again, so it holds the items up to
the first that did not fit.  That is a condition on the sizes alone, and what the bin
holds behind a given item follows from it. -/

/-- Items that fit one bin together are all in it. -/
theorem pack_of_le (last : List β) (ds : List (List β))
    (h : last.length + ds.flatten.length ≤ cap) :
    pack cap ⟨[], last⟩ ds = ⟨[], last ++ ds.flatten⟩ := by
  induction ds generalizing last with
  | nil => rw [pack_nil, List.flatten_nil, List.append_nil]
  | cons d ds ih =>
      rw [List.flatten_cons, List.length_append] at h
      have hfits : Packing.Fits cap ⟨[], last⟩ d := by
        show last.length + d.length ≤ cap
        omega
      have hadd : add cap ⟨[], last⟩ d = ⟨[], last ++ d⟩ := by
        rw [add, Packing.target, if_pos hfits]
        rfl
      rw [pack_cons, hadd, ih (last ++ d) (by rw [List.length_append]; omega),
        List.flatten_cons, List.append_assoc]

theorem slot_of_fits {before : List (List β)} {d : List β}
    (h : before.flatten.length + d.length ≤ cap) :
    slot cap (pack cap .empty before) d = before.flatten.length := by
  have hbefore : pack cap .empty before = ⟨[], before.flatten⟩ :=
    pack_of_le [] before (by rw [List.length_nil]; omega)
  rw [slot, Packing.target, if_pos (by rwa [hbefore]), hbefore]

/-- Once it has been left the first bin stays as it is. -/
theorem first_of_left {p : Packing β} (ds : List (List β)) (h : p.full ≠ []) :
    (pack cap p ds).first = p.first := by
  induction ds generalizing p with
  | nil => rfl
  | cons d ds ih =>
      obtain ⟨full, last⟩ := p
      cases full with
      | nil => exact absurd rfl h
      | cons b full =>
          have hadd : ∃ full' last', add cap ⟨b :: full, last⟩ d = ⟨b :: full', last'⟩ := by
            rw [add, Packing.target]
            split
            · exact ⟨_, _, rfl⟩
            · exact ⟨_, _, rfl⟩
          obtain ⟨full', last', hadd⟩ := hadd
          rw [pack_cons, hadd, ih (List.cons_ne_nil b full')]
          rfl

/-- An item that does not fit one bin together with those before it, which do,
goes to the start of the second bin and leaves the first to them. -/
theorem overflow (before : List (List β)) {d : List β} (after : List (List β))
    (hbefore : before.flatten.length ≤ cap) (h : cap < before.flatten.length + d.length) :
    (pack cap .empty (before ++ d :: after)).first = before.flatten ∧
      slot cap (pack cap .empty before) d = 0 := by
  have hpack : pack cap .empty before = ⟨[], before.flatten⟩ :=
    pack_of_le [] before (by rwa [List.length_nil, Nat.zero_add])
  have hfull : ¬ (pack cap .empty before).Fits cap d := by
    rw [hpack]
    exact Nat.not_le.mpr h
  have hadd : add cap (pack cap .empty before) d = ⟨[before.flatten], d⟩ := by
    rw [add, Packing.target, if_neg hfull, hpack]
    rfl
  constructor
  · rw [pack_append, pack_cons, hadd, first_of_left after (List.cons_ne_nil _ _)]
    rfl
  · rw [slot, Packing.target, if_neg hfull]
    rfl

/-- Items that fit one bin together, and not with the next, are what the first
bin holds. -/
theorem first_of_fits {ds rest : List (List β)} (hfit : ds.flatten.length ≤ cap)
    (hnext : ∀ e es, rest = e :: es → cap < ds.flatten.length + e.length) :
    (pack cap .empty (ds ++ rest)).first = ds.flatten := by
  cases rest with
  | nil =>
      have hpack : pack cap .empty ds = ⟨[], ds.flatten⟩ :=
        pack_of_le [] ds (by rwa [List.length_nil, Nat.zero_add])
      rw [List.append_nil, hpack]
      rfl
  | cons e es => exact (overflow ds es hfit (hnext e es rfl)).1

/-- A list of items, cut where the first bin is left. -/
theorem exists_fitting {base : List (List β)} (ds : List (List β))
    (h : base.flatten.length ≤ cap) : ∃ mid rest, ds = mid ++ rest ∧
      (base ++ mid).flatten.length ≤ cap ∧
      ∀ e es, rest = e :: es → cap < (base ++ mid).flatten.length + e.length := by
  induction ds generalizing base with
  | nil =>
      refine ⟨[], [], rfl, by rwa [List.append_nil], ?_⟩
      rintro e es ⟨⟩
  | cons d ds ih =>
      have hlen : (base ++ [d]).flatten.length = base.flatten.length + d.length := by
        rw [List.flatten_append, List.flatten_singleton, List.length_append]
      by_cases hd : base.flatten.length + d.length ≤ cap
      · obtain ⟨mid, rest, rfl, hfit, hnext⟩ := ih (hlen ▸ hd)
        rw [List.append_assoc, List.singleton_append] at hfit hnext
        exact ⟨d :: mid, rest, rfl, hfit, hnext⟩
      · refine ⟨[], d :: ds, rfl, by rwa [List.append_nil], ?_⟩
        rintro e es ⟨⟩
        rw [List.append_nil]
        exact Nat.lt_of_not_le hd

/-- **What the first bin holds from the slot of an item on**, if the item is in it:
the item and those after it, up to the first that does not fit. -/
theorem drop_first {before : List (List β)} {d : List β} (after : List (List β))
    (h : before.flatten.length + d.length ≤ cap) :
    ∃ mid rest, after = mid ++ rest ∧
      (pack cap .empty (before ++ d :: after)).first.drop (slot cap (pack cap .empty before) d) =
        d ++ mid.flatten ∧
      (before ++ d :: mid).flatten.length ≤ cap ∧
      ∀ e es, rest = e :: es → cap < (before ++ d :: mid).flatten.length + e.length := by
  have hlen : (before ++ [d]).flatten.length = before.flatten.length + d.length := by
    rw [List.flatten_append, List.flatten_singleton, List.length_append]
  obtain ⟨mid, rest, rfl, hfit, hnext⟩ := exists_fitting after (hlen ▸ h)
  rw [List.append_assoc, List.singleton_append] at hfit hnext
  refine ⟨mid, rest, rfl, ?_, hfit, hnext⟩
  have hfirst := first_of_fits hfit hnext
  rw [List.append_assoc, List.cons_append] at hfirst
  rw [hfirst, slot_of_fits h, List.flatten_append, List.flatten_cons, List.drop_left]

end NextFit
