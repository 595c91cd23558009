/-
# `Dolda.Storage.Iterate` — what an iteration hands out

`for item in segment.iter_records()` takes items until the iterator is at its
end.  `collectTurn` is one turn of that loop, the items handed out so far being
kept, and `Yields H s items` says that the loop ends and has handed out `items`.

    the segment holds `rs`      ⟹  it yields `rs` with their places, and
                                   nothing else                      (`Holds.yields_iff`)
    a record is among the items ⟹  its payload is one the
                                   constructors allow                (`Yields.valid`)
-/
import Dolda.Storage.History
import Dolda.Storage.Scan

namespace Dolda.Storage

/-- What one call of `next` hands out. -/
abbrev ScanItem := Except StorageError (RecordOffset × Record)

/-- One turn of the loop, with the items before it; nothing when a read
panics. -/
def collectTurn (H : Hasher) (s : RecordSegment) :
    RecordIterator × List ScanItem → (RecordIterator × List ScanItem) ⊕ Option (List ScanItem)
  | (it, items) =>
      match it.next H s with
      | none => .inr none
      | some (none, _) => .inr (some items)
      | some (some item, it) => .inl (it, items ++ [item])

/-- Iterating over the segment hands out `items` and ends. -/
def Yields (H : Hasher) (s : RecordSegment) (items : List ScanItem) : Prop :=
  Loop.Returns (collectTurn H s) (s.iterRecords, []) (some items)

section
variable {H : Hasher} {s : RecordSegment} {rs : List Record} {items items' : List ScanItem}

theorem Yields.unique (h : Yields H s items) (h' : Yields H s items') : items = items' :=
  Option.some.inj (Loop.Returns.unique h h')

/-- From its `k`-th record on an iteration hands out the rest. -/
theorem Holds.collect (h : Holds H s rs) (left : Nat) : ∀ (k : Nat) (items : List ScanItem),
    rs.length - k = left → Loop.Returns (collectTurn H s) (scanAt H rs k, items)
      (some (items ++ ((placed H rs).drop k).map Except.ok)) := by
  induction left with
  | zero =>
      intro k items hleft
      have hk : (placed H rs)[k]? = none := by
        rw [placed_getElem?, List.getElem?_eq_none (by omega), Option.map_none]
      have hnext := next_of_held h k
      rw [hk] at hnext
      have hturn : collectTurn H s (scanAt H rs k, items) = .inr (some items) := by
        simp only [collectTurn, hnext, Option.map_none]
      rw [Loop.returns_inr hturn, List.drop_eq_nil_of_le (List.getElem?_eq_none_iff.mp hk),
        List.map_nil, List.append_nil]
  | succ left ih =>
      intro k items hleft
      have hlen : k < rs.length := by omega
      obtain ⟨p, hp⟩ : ∃ p, (placed H rs)[k]? = some p := by
        rw [placed_getElem?, List.getElem?_eq_getElem hlen]
        exact ⟨_, rfl⟩
      have hnext := next_of_held h k
      rw [hp, if_pos hlen] at hnext
      have hturn : collectTurn H s (scanAt H rs k, items)
          = .inl (scanAt H rs (k + 1), items ++ [.ok p]) := by
        simp only [collectTurn, hnext, Option.map_some]
      have hrest := ih (k + 1) (items ++ [.ok p]) (by omega)
      obtain ⟨hlt, hget⟩ := List.getElem?_eq_some_iff.mp hp
      rw [Loop.returns_inl hturn, List.drop_eq_getElem_cons hlt, hget, List.map_cons]
      rwa [List.append_assoc, List.singleton_append] at hrest

theorem Holds.yields (h : Holds H s rs) : Yields H s ((placed H rs).map Except.ok) := by
  rw [Yields, scanAt_zero h]
  exact h.collect rs.length 0 [] rfl

/-- **An iteration over what a segment holds** hands out exactly that. -/
theorem Holds.yields_iff (h : Holds H s rs) :
    Yields H s items ↔ items = (placed H rs).map Except.ok := by
  constructor
  · exact fun hyields => hyields.unique h.yields
  · rintro rfl
    exact h.yields

/-- What an iteration hands out as a record is one. -/
theorem Yields.valid (h : Yields H s items) {p : RecordOffset × Record} (hp : .ok p ∈ items) :
    p.2.Valid := by
  let Good (items : List ScanItem) : Prop := ∀ p, .ok p ∈ items → p.2.Valid
  have hpost : ∀ items', some items = some items' → Good items' := by
    refine Loop.Returns.post (fun t => Good t.2) (fun x => ∀ items', x = some items' → Good items')
      ?_ ?_ (fun p hp => absurd hp List.not_mem_nil) h
    · rintro ⟨it, items⟩ t hgood hturn
      cases hnext : it.next H s with
      | none => simp only [collectTurn, hnext] at hturn; cases hturn
      | some x =>
          obtain ⟨_ | item, it'⟩ := x
          · simp only [collectTurn, hnext] at hturn; cases hturn
          · simp only [collectTurn, hnext] at hturn
            cases hturn
            intro p hp
            rcases List.mem_append.mp hp with hp | hp
            · exact hgood p hp
            · cases List.mem_singleton.mp hp
              exact next_valid hnext
    · rintro ⟨it, items⟩ x hgood hturn items' rfl
      cases hnext : it.next H s with
      | none => simp only [collectTurn, hnext] at hturn; cases hturn
      | some x =>
          obtain ⟨_ | item, it'⟩ := x
          · simp only [collectTurn, hnext] at hturn
            cases hturn
            exact hgood
          · simp only [collectTurn, hnext] at hturn; cases hturn
  exact hpost items rfl p hp

end

end Dolda.Storage
