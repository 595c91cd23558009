/-
# `Dolda.Trading.Book` — what the order book keeps

What an order does to the book is done to two lists of levels: on the other side what
it accepts is served from (`taken`), and on its own side the part of a limit order
that is not filled is added (`matchOrder_effect`).  All else about the engine stays.

**The invariant.**  In every engine that orders and market prices can lead to, the
levels of a symbol ascend; what rests at a level is a limit order of that symbol, side
and price with something open; the orders of a level stand in the order they came; and
no order rests in two places (`book_sound`).
-/
import Dolda.Trading.Engine
import Mathlib.Data.List.Induction

namespace Dolda.Trading

section
variable {F : Type} {P : Prices F} {clock : Nat → Nat} {e e' : MatchingEngine F}

/-! ## The levels of a symbol

What serves an order is the front of the queue.  No level comes or goes, and the orders
of a level that is left are among those it had, in their order. -/

namespace MatchingEngine

/-- None, if the symbol is not in the book. -/
def levelsOf (e : MatchingEngine F) (side : OrderSide) (symbol : String) : Levels F :=
  ((e.book side).lookup symbol).getD []

theorem levelsOf_putLevels (side : OrderSide) (symbol : String) (levels : Levels F)
    (e : MatchingEngine F) (side' : OrderSide) (symbol' : String) :
    (e.putLevels side symbol levels).levelsOf side' symbol' =
      if side' = side ∧ symbol' = symbol then levels else e.levelsOf side' symbol' := by
  have hinsert : ∀ book : Book F, ((book.insert symbol levels).lookup symbol').getD [] =
      if symbol' = symbol then levels else (book.lookup symbol').getD [] := by
    intro book
    by_cases hsymbol : symbol' = symbol
    · rw [if_pos hsymbol, hsymbol, AList.lookup_insert]
      rfl
    · rw [if_neg hsymbol, AList.lookup_insert_ne hsymbol]
  cases side with
  | buy =>
      cases side' with
      | buy => simpa only [levelsOf, putLevels, book, true_and] using hinsert e.buyBook
      | sell => rw [if_neg (by rintro ⟨h, -⟩; cases h)]; rfl
  | sell =>
      cases side' with
      | buy => rw [if_neg (by rintro ⟨h, -⟩; cases h)]; rfl
      | sell => simpa only [levelsOf, putLevels, book, true_and] using hinsert e.sellBook

end MatchingEngine

/-- The levels when the acceptable ones have served a demand. -/
def taken (acceptable : Nat → Bool) (n : Nat) (levels : Levels F) : Levels F :=
  leftLevels n (levels.takeWhile (fun level => acceptable level.1)) ++
    levels.dropWhile (fun level => acceptable level.1)

/-- The part of a resting order that is left, at its level. -/
def reduceSupply (k : Nat) (x : Nat × Order F) : Nat × Order F := (x.1, x.2.reduced k)

theorem queue_append (levels levels' : Levels F) :
    queue (levels ++ levels') = queue levels ++ queue levels' := List.flatMap_append

theorem queue_leftLevels (n : Nat) (levels : Levels F) :
    queue (leftLevels n levels) = Allot.left supply reduceSupply n (queue levels) := by
  induction levels generalizing n with
  | nil => rfl
  | cons level levels ih =>
      obtain ⟨priceLevel, orders⟩ := level
      have hleft : Allot.left supply reduceSupply n (orders.map (fun o => (priceLevel, o))) =
          (Allot.left Order.openQuantity Order.reduced n orders).map (fun o => (priceLevel, o)) :=
        Allot.left_map (fun o => (priceLevel, o)) (fun _ => rfl) (fun _ _ => rfl) n orders
      rw [leftLevels, queue_cons, queue_cons, Allot.left_append, hleft, total_supply, ih]

theorem queue_taken (acceptable : Nat → Bool) (n : Nat) (levels : Levels F) :
    queue (taken acceptable n levels) =
      Allot.left supply reduceSupply n
          (queue (levels.takeWhile (fun level => acceptable level.1))) ++
        queue (levels.dropWhile (fun level => acceptable level.1)) := by
  rw [taken, queue_append, queue_leftLevels]

theorem queue_split (acceptable : Nat → Bool) (levels : Levels F) :
    queue (levels.takeWhile (fun level => acceptable level.1)) ++
      queue (levels.dropWhile (fun level => acceptable level.1)) = queue levels := by
  rw [← queue_append, List.takeWhile_append_dropWhile]

theorem taken_keys (acceptable : Nat → Bool) (n : Nat) (levels : Levels F) :
    (taken acceptable n levels).map Prod.fst = levels.map Prod.fst := by
  have hleft : ∀ (n : Nat) (levels : Levels F),
      (leftLevels n levels).map Prod.fst = levels.map Prod.fst := by
    intro n levels
    induction levels generalizing n with
    | nil => rfl
    | cons level levels ih => rw [leftLevels, List.map_cons, ih, List.map_cons]
  rw [taken, List.map_append, hleft, ← List.map_append, List.takeWhile_append_dropWhile]

theorem mem_queue_taken {acceptable : Nat → Bool} {n : Nat} {levels : Levels F} {x : Nat × Order F}
    (h : x ∈ queue (taken acceptable n levels)) :
    x ∈ queue levels ∨
      ∃ y ∈ queue levels, ∃ k, k < y.2.openQuantity ∧ x = (y.1, y.2.reduced k) := by
  rw [queue_taken] at h
  rw [← queue_split acceptable levels]
  rcases List.mem_append.mp h with hleft | hback
  · rcases Allot.mem_left hleft with hold | ⟨y, hy, k, -, hk, rfl⟩
    · exact .inl (List.mem_append_left _ hold)
    · exact .inr ⟨y, List.mem_append_left _ hy, k, hk, rfl⟩
  · exact .inl (List.mem_append_right _ hback)

theorem ids_taken (acceptable : Nat → Bool) (n : Nat) (levels : Levels F) :
    ((queue (taken acceptable n levels)).map (fun x => x.2.orderId)).Sublist
      ((queue levels).map (fun x => x.2.orderId)) := by
  have hsame : ∀ k (x : Nat × Order F), (reduceSupply k x).2.orderId = x.2.orderId := fun _ _ => rfl
  rw [queue_taken, ← queue_split acceptable levels, List.map_append, List.map_append]
  exact (Allot.left_map_sublist hsame n _).append (List.Sublist.refl _)

theorem mem_taken {acceptable : Nat → Bool} {n : Nat} {levels : Levels F} {l : Nat × List (Order F)}
    (h : l ∈ taken acceptable n levels) : ∃ l' ∈ levels, l'.1 = l.1 ∧
      (l.2.map Order.orderId).Sublist (l'.2.map Order.orderId) := by
  have hsame : ∀ k (o : Order F), (o.reduced k).orderId = o.orderId := fun _ _ => rfl
  have hleft : ∀ (n : Nat) (levels : Levels F), l ∈ leftLevels n levels → ∃ l' ∈ levels,
      l'.1 = l.1 ∧ (l.2.map Order.orderId).Sublist (l'.2.map Order.orderId) := by
    intro n levels hl
    induction levels generalizing n with
    | nil => cases hl
    | cons level levels ih =>
        rcases List.mem_cons.mp hl with rfl | hl
        · exact ⟨level, List.mem_cons_self, rfl,
            Allot.left_map_sublist hsame n level.2⟩
        · obtain ⟨l', hl', hkept⟩ := ih _ hl
          exact ⟨l', List.mem_cons_of_mem _ hl', hkept⟩
  rcases List.mem_append.mp h with hfront | hback
  · obtain ⟨l', hl', hkept⟩ := hleft _ _ hfront
    exact ⟨l', (List.takeWhile_prefix _).subset hl', hkept⟩
  · exact ⟨l, (List.dropWhile_suffix _).subset hback, rfl, List.Sublist.refl _⟩

/-! ### An order that is added

An order goes behind those at its price, at a level of its own if there is none, and the
levels stay in order.  What is left of the orders that serve is at the levels where they
were. -/

theorem pushOrder_perm (limitCents : Nat) (order : Order F) (levels : Levels F) :
    (queue (pushOrder limitCents order levels)).Perm ((limitCents, order) :: queue levels) := by
  induction levels with
  | nil => exact List.Perm.refl _
  | cons level levels ih =>
      obtain ⟨priceLevel, orders⟩ := level
      rw [pushOrder]
      split
      · rw [queue_cons, queue_cons]
        exact (ih.append_left _).trans List.perm_middle
      split
      · rename_i heq
        rw [queue_cons, queue_cons, List.map_append, List.map_singleton, List.append_assoc, heq]
        exact List.perm_middle
      · exact List.Perm.refl _

theorem mem_pushOrder {limitCents : Nat} {order : Order F} {levels : Levels F}
    {l : Nat × List (Order F)} (h : l ∈ pushOrder limitCents order levels) :
    l ∈ levels ∨ l = (limitCents, [order]) ∨
      ∃ orders, (limitCents, orders) ∈ levels ∧ l = (limitCents, orders ++ [order]) := by
  induction levels with
  | nil => exact .inr (.inl (List.mem_singleton.mp h))
  | cons level levels ih =>
      obtain ⟨priceLevel, orders⟩ := level
      rw [pushOrder] at h
      split at h
      · rcases List.mem_cons.mp h with rfl | h
        · exact .inl List.mem_cons_self
        · rcases ih h with hold | hnew | ⟨orders', horders, hl⟩
          · exact .inl (List.mem_cons_of_mem _ hold)
          · exact .inr (.inl hnew)
          · exact .inr (.inr ⟨orders', List.mem_cons_of_mem _ horders, hl⟩)
      split at h
      · rename_i heq
        rcases List.mem_cons.mp h with rfl | h
        · exact .inr (.inr ⟨orders, heq ▸ List.mem_cons_self, by rw [heq]⟩)
        · exact .inl (List.mem_cons_of_mem _ h)
      · rcases List.mem_cons.mp h with rfl | h
        · exact .inr (.inl rfl)
        · exact .inl h

/-- The levels of the book ascend. -/
def Ascending (levels : Levels F) : Prop := levels.Pairwise (fun l l' => l.1 < l'.1)

theorem Ascending.taken {levels : Levels F} (h : Ascending levels) (acceptable : Nat → Bool)
    (n : Nat) : Ascending (taken acceptable n levels) := by
  have hkeys : (levels.map Prod.fst).Pairwise (· < ·) := List.pairwise_map.mpr h
  rw [← taken_keys acceptable n levels] at hkeys
  exact List.pairwise_map.mp hkeys

theorem Ascending.pushOrder {levels : Levels F} (h : Ascending levels) (limitCents : Nat)
    (order : Order F) : Ascending (pushOrder limitCents order levels) := by
  induction levels with
  | nil => exact List.pairwise_singleton _ _
  | cons level levels ih =>
      obtain ⟨priceLevel, orders⟩ := level
      obtain ⟨hbelow, hlevels⟩ := List.pairwise_cons.mp h
      rw [Trading.pushOrder]
      split
      · rename_i hlt
        refine List.pairwise_cons.mpr ⟨?_, ih hlevels⟩
        intro l hl
        rcases mem_pushOrder hl with hold | rfl | ⟨orders', -, rfl⟩
        · exact hbelow l hold
        · exact hlt
        · exact hlt
      split
      · exact List.pairwise_cons.mpr ⟨hbelow, hlevels⟩
      · have hlt : limitCents < priceLevel := by omega
        refine List.pairwise_cons.mpr ⟨?_, h⟩
        intro l hl
        rcases List.mem_cons.mp hl with rfl | hl
        · exact hlt
        · exact Nat.lt_trans hlt (hbelow l hl)

namespace MatchingEngine

/-- No order in the book has more filled than its quantity. -/
def BoundedBook (e : MatchingEngine F) : Prop :=
  ∀ side symbol, BoundedLevels (e.levelsOf side symbol)

/-- The orders an order meets. -/
def met (acceptable : Nat → Bool) (order : Order F) (e : MatchingEngine F) :
    List (Nat × Order F) :=
  queue ((e.levelsOf order.side.opposite order.symbol).takeWhile (fun l => acceptable l.1))

/-- What they give. -/
def fills (acceptable : Nat → Bool) (order : Order F) (e : MatchingEngine F) :
    List ((Nat × Order F) × Nat) :=
  Allot.given supply order.openQuantity (e.met acceptable order)

/-- The variables of the loops at their start. -/
def started (order : Order F) (e : MatchingEngine F) : Matching F :=
  { order, executions := [], remainingQty := order.openQuantity
    executionCounter := e.executionCounter }

/-- A change to the books alone. -/
structure SameRest (e e' : MatchingEngine F) : Prop where
  orderCounter : e'.orderCounter = e.orderCounter
  currentPrices : e'.currentPrices = e.currentPrices

theorem putLevels_rest (side : OrderSide) (symbol : String) (levels : Levels F)
    (e : MatchingEngine F) : SameRest e (e.putLevels side symbol levels) ∧
      (e.putLevels side symbol levels).executionCounter = e.executionCounter := by
  cases side with
  | buy => exact ⟨⟨rfl, rfl⟩, rfl⟩
  | sell => exact ⟨⟨rfl, rfl⟩, rfl⟩

/-- **Matching against the book.** -/
theorem matchBook_spec (P : Prices F) (clock : Nat → Nat) (acceptable : Nat → Bool)
    (order : Order F) (h : BoundedBook e) :
    (e.matchBook P clock acceptable order).1 =
        (e.started order).executeAll P clock (e.fills acceptable order) ∧
      SameRest e (e.matchBook P clock acceptable order).2 ∧
      (e.matchBook P clock acceptable order).2.executionCounter =
        e.executionCounter + (e.fills acceptable order).length ∧
      ∀ side symbol, (e.matchBook P clock acceptable order).2.levelsOf side symbol =
        if side = order.side.opposite ∧ symbol = order.symbol then
          taken acceptable order.openQuantity (e.levelsOf side symbol)
        else e.levelsOf side symbol := by
  cases hlookup : (e.book order.side.opposite).lookup order.symbol with
  | none =>
      have hnil : e.levelsOf order.side.opposite order.symbol = [] := by
        rw [levelsOf, hlookup]
        rfl
      have hfills : e.fills acceptable order = [] := by
        rw [fills, met, hnil]
        rfl
      simp only [matchBook, hlookup, hfills]
      refine ⟨rfl, ⟨rfl, rfl⟩, rfl, fun side symbol => ?_⟩
      split
      · rename_i hhere
        rw [hhere.1, hhere.2, hnil]
        rfl
      · rfl
  | some levels =>
      have hlevels : e.levelsOf order.side.opposite order.symbol = levels := by
        rw [levelsOf, hlookup]
        rfl
      have hbounded : BoundedLevels levels := hlevels ▸ h _ _
      have hfills : Allot.given supply order.openQuantity
          (queue (levels.takeWhile (fun l => acceptable l.1))) = e.fills acceptable order := by
        rw [fills, met, hlevels]
      have hsweep := sweep_eq P clock acceptable hbounded (e.started order)
      have hremaining : (e.started order).remainingQty = order.openQuantity := rfl
      rw [hremaining, hfills] at hsweep
      obtain ⟨-, -, hcounter⟩ := Matching.executeAll_spec P clock (e.fills acceptable order)
        (e.started order)
      generalize (e.started order).executeAll P clock (e.fills acceptable order) = s at *
      have hbook : e.matchBook P clock acceptable order =
          (s, putLevels order.side.opposite order.symbol (taken acceptable order.openQuantity levels)
            { e with executionCounter := s.executionCounter }) := by
        have hstart : sweep P clock acceptable
            { order, executions := [], remainingQty := order.quantity - order.filledQuantity
              executionCounter := e.executionCounter } levels =
            (s, taken acceptable order.openQuantity levels) := hsweep
        simp only [matchBook, hlookup, hstart]
      rw [hbook]
      obtain ⟨hrest, hsame⟩ := putLevels_rest order.side.opposite order.symbol
        (taken acceptable order.openQuantity levels)
        { e with executionCounter := s.executionCounter }
      refine ⟨rfl, ⟨hrest.orderCounter, hrest.currentPrices⟩, hsame.trans hcounter, fun side symbol => ?_⟩
      rw [levelsOf_putLevels]
      split
      · rename_i hhere
        rw [hhere.1, hhere.2, hlevels]
      · rfl

end MatchingEngine

/-! ## What an order does

A market order is matched with the whole of the opposite book, and a limit order with
the levels it accepts; of an order that is converted only the type changes. -/

namespace Order

/-- The levels an order accepts; `none` if it is not matched. -/
def accepts (P : Prices F) (o : Order F) : Option (Nat → Bool) :=
  match o.orderType with
  | .market => some (fun _ => true)
  | .limit | .ioc | .fok =>
      o.price.map (fun price => MatchingEngine.acceptable o.side (P.toCents price))
  | .stop | .stopLimit => none

/-- The level at which the unfilled part is added to the book. -/
def restsAt (P : Prices F) (o : Order F) : Option Nat :=
  if o.orderType = .limit then o.price.map P.toCents else none

end Order

namespace MatchingEngine

def fillsOf (P : Prices F) (o : Order F) (e : MatchingEngine F) : List ((Nat × Order F) × Nat) :=
  match o.accepts P with
  | none => []
  | some acceptable => e.fills acceptable o

def filledBy (P : Prices F) (o : Order F) (e : MatchingEngine F) : Nat :=
  ((e.fillsOf P o).map Prod.snd).sum

/-- The levels of its symbol on the other side, after an order. -/
def levelsTaken (P : Prices F) (o : Order F) (levels : Levels F) : Levels F :=
  match o.accepts P with
  | none => levels
  | some acceptable => taken acceptable o.openQuantity levels

/-- The levels of its symbol on its own side. -/
def levelsAdded (P : Prices F) (o : Order F) (e : MatchingEngine F) (levels : Levels F) :
    Levels F :=
  match o.restsAt P with
  | none => levels
  | some limitCents =>
      if e.filledBy P o < o.openQuantity then
        pushOrder limitCents { o with filledQuantity := o.filledQuantity + e.filledBy P o } levels
      else levels

def levelsAfter (P : Prices F) (o : Order F) (e : MatchingEngine F) (side : OrderSide)
    (symbol : String) : Levels F :=
  if symbol = o.symbol then
    if side = o.side then levelsAdded P o e (e.levelsOf side symbol)
    else levelsTaken P o (e.levelsOf side symbol)
  else e.levelsOf side symbol

/-- What comes of an order that is matched. -/
structure Matched (P : Prices F) (clock : Nat → Nat) (e : MatchingEngine F) (o : Order F)
    (x : (Order F × List (Execution F)) × MatchingEngine F) : Prop where
  rest : SameRest e x.2
  counter : x.2.executionCounter = e.executionCounter + (e.fillsOf P o).length
  levels : ∀ side symbol, x.2.levelsOf side symbol = e.levelsAfter P o side symbol
  filled : x.1.1.filledQuantity = o.filledQuantity + e.filledBy P o
  executions : x.1.2 = ((e.started o).executeAll P clock (e.fillsOf P o)).executions

theorem opposite_iff {side side' : OrderSide} : side' = side.opposite ↔ side' ≠ side := by
  cases side <;> cases side' <;> decide

theorem settled_filledQuantity (o : Order F) : o.settled.filledQuantity = o.filledQuantity := by
  rw [Order.settled]
  split
  · rfl
  split
  · rfl
  · rfl

theorem addToBook_spec (limitCents : Nat) (order : Order F) (e : MatchingEngine F) :
    SameRest e (e.addToBook limitCents order) ∧
      (e.addToBook limitCents order).executionCounter = e.executionCounter ∧
      ∀ side symbol, (e.addToBook limitCents order).levelsOf side symbol =
        if side = order.side ∧ symbol = order.symbol then
          pushOrder limitCents order (e.levelsOf side symbol)
        else e.levelsOf side symbol := by
  obtain ⟨hrest, hcounter⟩ := putLevels_rest order.side order.symbol
    (pushOrder limitCents order (e.levelsOf order.side order.symbol)) e
  refine ⟨hrest, hcounter, fun side symbol => ?_⟩
  rw [addToBook, levelsOf_putLevels]
  split
  · rename_i hhere
    rw [hhere.1, hhere.2]
    rfl
  · rfl

theorem matchMarketOrder_matched (h : BoundedBook e) {o : Order F} (htype : o.orderType = .market) :
    Matched P clock e o (e.matchMarketOrder P clock o) := by
  obtain ⟨horder, hrest, hcounter, hlevels⟩ :=
    matchBook_spec P clock (fun _ => true) o h
  have hfills : e.fillsOf P o = e.fills (fun _ => true) o := by
    simp only [fillsOf, Order.accepts, htype]
  have htaken : ∀ levels : Levels F,
      levelsTaken P o levels = taken (fun _ => true) o.openQuantity levels := by
    intro levels
    simp only [levelsTaken, Order.accepts, htype]
  have hadded : ∀ levels : Levels F, levelsAdded P o e levels = levels := by
    intro levels
    simp only [levelsAdded, Order.restsAt, htype, reduceCtorEq, if_false]
  obtain ⟨hspec, -, -⟩ := Matching.executeAll_spec P clock (e.fillsOf P o) (e.started o)
  have heq : e.matchMarketOrder P clock o =
      (((e.matchBook P clock (fun _ => true) o).1.order.settled,
        (e.matchBook P clock (fun _ => true) o).1.executions),
        (e.matchBook P clock (fun _ => true) o).2) := rfl
  rw [heq]
  refine ⟨hrest, by rw [hfills]; exact hcounter, fun side symbol => ?_, ?_, ?_⟩
  · refine (hlevels side symbol).trans ?_
    rw [levelsAfter, hadded, htaken]
    simp only [opposite_iff]
    by_cases hsymbol : symbol = o.symbol
    · by_cases hside : side = o.side
      · simp only [hsymbol, hside, ne_eq, not_true, false_and, if_false, if_true]
      · simp only [hsymbol, hside, ne_eq, not_false_eq_true, true_and, if_true, if_false]
    · simp only [hsymbol, and_false, if_false]
  · rw [settled_filledQuantity, horder, ← hfills, hspec]
    rfl
  · rw [horder, hfills]

theorem matchLimitOrder_matched (h : BoundedBook e) {o : Order F}
    (htype : o.orderType = .limit ∨ o.orderType = .ioc ∨ o.orderType = .fok) :
    Matched P clock e o (e.matchLimitOrder P clock o) := by
  have haccepts : o.accepts P =
      o.price.map (fun price => acceptable o.side (P.toCents price)) := by
    rcases htype with htype | htype | htype <;> simp only [Order.accepts, htype]
  cases hprice : o.price with
  | none =>
      have heq : e.matchLimitOrder P clock o = ((o, []), e) := by
        rw [matchLimitOrder, hprice]
      rw [hprice] at haccepts
      have hfills : e.fillsOf P o = [] := by simp only [fillsOf, haccepts, Option.map_none]
      rw [heq]
      refine ⟨⟨rfl, rfl⟩, by rw [hfills]; rfl, fun side symbol => ?_, ?_, by rw [hfills]; rfl⟩
      · have hrests : o.restsAt P = none := by
          rw [Order.restsAt, hprice]
          split <;> rfl
        rw [levelsAfter]
        simp only [levelsAdded, levelsTaken, hrests, haccepts, Option.map_none, ite_self]
      · rw [filledBy, hfills]
        rfl
  | some limitPrice =>
      obtain ⟨horder, hrest, hcounter, hlevels⟩ :=
        matchBook_spec P clock (acceptable o.side (P.toCents limitPrice)) o h
      have heq : e.matchLimitOrder P clock o =
          (((e.matchBook P clock (acceptable o.side (P.toCents limitPrice)) o).1.order.settled,
            (e.matchBook P clock (acceptable o.side (P.toCents limitPrice)) o).1.executions),
            if 0 < (e.matchBook P clock (acceptable o.side (P.toCents limitPrice)) o).1.remainingQty ∧
                (e.matchBook P clock (acceptable o.side (P.toCents limitPrice)) o).1.order.orderType
                  = .limit then
              (e.matchBook P clock (acceptable o.side (P.toCents limitPrice)) o).2.addToBook
                (P.toCents limitPrice)
                (e.matchBook P clock (acceptable o.side (P.toCents limitPrice)) o).1.order
            else (e.matchBook P clock (acceptable o.side (P.toCents limitPrice)) o).2) := by
        simp only [matchLimitOrder, hprice]
      rw [hprice, Option.map_some] at haccepts
      have hfills : e.fillsOf P o = e.fills (acceptable o.side (P.toCents limitPrice)) o := by
        simp only [fillsOf, haccepts]
      obtain ⟨hspec, hremaining, -⟩ := Matching.executeAll_spec P clock (e.fillsOf P o) (e.started o)
      have hs : (e.started o).order = o := rfl
      have hopenQty : (e.started o).remainingQty = o.openQuantity := rfl
      rw [← hfills] at horder hcounter
      rw [heq, horder]
      generalize (e.matchBook P clock (acceptable o.side (P.toCents limitPrice)) o).2 = e' at *
      rw [hs] at hspec
      rw [hopenQty] at hremaining
      refine ⟨?_, ?_, fun side symbol => ?_, ?_, rfl⟩
      · split
        · obtain ⟨hrest', -, -⟩ := addToBook_spec (P.toCents limitPrice)
            ((e.started o).executeAll P clock (e.fillsOf P o)).order e'
          exact ⟨hrest'.orderCounter.trans hrest.orderCounter,
            hrest'.currentPrices.trans hrest.currentPrices⟩
        · exact hrest
      · split
        · obtain ⟨-, hcounter', -⟩ := addToBook_spec (P.toCents limitPrice)
            ((e.started o).executeAll P clock (e.fillsOf P o)).order e'
          exact hcounter'.trans hcounter
        · exact hcounter
      · have hadded : ∀ levels : Levels F, levelsAdded P o e levels =
            if 0 < o.openQuantity - e.filledBy P o ∧ o.orderType = .limit then
              pushOrder (P.toCents limitPrice)
                { o with filledQuantity := o.filledQuantity + e.filledBy P o } levels
            else levels := by
          intro levels
          by_cases hlimit : o.orderType = .limit
          · simp only [levelsAdded, Order.restsAt, hlimit, if_true, hprice, Option.map_some,
              and_true, Nat.sub_pos_iff_lt]
          · simp only [levelsAdded, Order.restsAt, hlimit, if_false, and_false]
        have htaken : ∀ levels : Levels F, levelsTaken P o levels =
            taken (acceptable o.side (P.toCents limitPrice)) o.openQuantity levels := by
          intro levels
          simp only [levelsTaken, haccepts]
        have hsum : ((e.fillsOf P o).map Prod.snd).sum = e.filledBy P o := rfl
        have hthere := hlevels side symbol
        simp only [opposite_iff] at hthere
        rw [hremaining, hspec, hsum, levelsAfter, hadded, htaken]
        by_cases hrests : 0 < o.openQuantity - e.filledBy P o ∧ o.orderType = .limit
        · obtain ⟨-, -, hbook⟩ := addToBook_spec (P.toCents limitPrice)
            { o with filledQuantity := o.filledQuantity + e.filledBy P o } e'
          rw [if_pos hrests, if_pos hrests]
          refine (hbook side symbol).trans ?_
          rw [hthere]
          by_cases hsymbol : symbol = o.symbol
          · by_cases hside : side = o.side <;>
              simp only [hsymbol, hside, ne_eq, not_true, not_false_eq_true, false_and, true_and,
                if_true, if_false]
          · simp only [hsymbol, and_false, if_false]
        · rw [if_neg hrests, if_neg hrests, hthere]
          by_cases hsymbol : symbol = o.symbol
          · by_cases hside : side = o.side <;>
              simp only [hsymbol, hside, ne_eq, not_true, not_false_eq_true, false_and, true_and,
                if_true, if_false]
          · simp only [hsymbol, and_false, if_false]
      · rw [settled_filledQuantity, hspec]
        rfl

/-- An order that is not matched. -/
theorem matched_none {o : Order F} (haccepts : o.accepts P = none) (hrests : o.restsAt P = none) :
    Matched P clock e o ((o, []), e) := by
  have hfills : e.fillsOf P o = [] := by simp only [fillsOf, haccepts]
  refine ⟨⟨rfl, rfl⟩, by rw [hfills]; rfl, fun side symbol => ?_, by rw [filledBy, hfills]; rfl,
    by rw [hfills]; rfl⟩
  simp only [levelsAfter, levelsAdded, levelsTaken, hrests, haccepts, ite_self]

/-- A fill-or-kill order that could not be filled. -/
def Killed (P : Prices F) (o : Order F) (e : MatchingEngine F) : Prop :=
  o.orderType = .fok ∧ o.filledQuantity + e.filledBy P o ≠ o.quantity

instance (P : Prices F) (o : Order F) (e : MatchingEngine F) : Decidable (e.Killed P o) :=
  inferInstanceAs (Decidable (_ ∧ _))

theorem not_killed {o : Order F} (h : o.orderType ≠ .fok) : ¬ e.Killed P o :=
  fun hkilled => h hkilled.1

theorem convertStop_some {o o' : Order F} (h : e.convertStop P o = some o') :
    o' = { o with orderType := o'.orderType } := by
  rw [convertStop] at h
  split at h
  · split at h
    · cases h
      rfl
    · dsimp only at h
      split at h
      · split at h
        · cases h
          rfl
        · cases h
      · split at h
        · cases h
          rfl
        · cases h
  · cases h
    rfl

/-- **The spec of `match_order`.** -/
theorem matchOrder_effect (P : Prices F) (clock : Nat → Nat) (h : BoundedBook e) (o : Order F) :
    (e.convertStop P o = none ∧ e.matchOrder P clock o = ((o, []), e)) ∨
    ∃ o', e.convertStop P o = some o' ∧ ∃ x, Matched P clock e o' x ∧
      (e.matchOrder P clock o).2 = x.2 ∧
      ((e.Killed P o' ∧ (e.matchOrder P clock o).1 = ({ o' with status := .cancelled }, [])) ∨
        (¬ e.Killed P o' ∧ (e.matchOrder P clock o).1.2 = x.1.2 ∧
          (e.matchOrder P clock o).1.1.filledQuantity = x.1.1.filledQuantity)) := by
  cases hconvert : e.convertStop P o with
  | none => exact .inl ⟨rfl, by rw [matchOrder, hconvert]⟩
  | some o' =>
      refine .inr ⟨o', rfl, ?_⟩
      cases htype : o'.orderType with
      | market =>
          have hlives := (not_killed (e := e) (P := P) (htype ▸ by decide) : ¬ e.Killed P o')
          have heq : e.matchOrder P clock o = e.matchMarketOrder P clock o' := by
            simp only [matchOrder, hconvert, htype]
          rw [heq]
          exact ⟨_, matchMarketOrder_matched h htype, rfl, .inr ⟨hlives, rfl, rfl⟩⟩
      | limit =>
          have hlives := (not_killed (e := e) (P := P) (htype ▸ by decide) : ¬ e.Killed P o')
          have heq : e.matchOrder P clock o = e.matchLimitOrder P clock o' := by
            simp only [matchOrder, hconvert, htype]
          rw [heq]
          exact ⟨_, matchLimitOrder_matched h (.inl htype), rfl, .inr ⟨hlives, rfl, rfl⟩⟩
      | ioc =>
          have hlives := (not_killed (e := e) (P := P) (htype ▸ by decide) : ¬ e.Killed P o')
          refine ⟨_, matchLimitOrder_matched h (.inr (.inl htype)), ?_⟩
          simp only [matchOrder, hconvert, htype]
          split
          · exact ⟨rfl, .inr ⟨hlives, rfl, rfl⟩⟩
          · exact ⟨rfl, .inr ⟨hlives, rfl, rfl⟩⟩
      | fok =>
          have hmatched : Matched P clock e o' (e.matchLimitOrder P clock o') :=
            matchLimitOrder_matched h (.inr (.inr htype))
          have hfilled := hmatched.filled
          refine ⟨_, hmatched, ?_⟩
          simp only [matchOrder, hconvert, htype]
          by_cases hall : (e.matchLimitOrder P clock o').1.1.filledQuantity = o'.quantity
          · rw [if_pos hall]
            exact ⟨rfl, .inr ⟨fun hkilled => hkilled.2 (hfilled.symm.trans hall), rfl, rfl⟩⟩
          · rw [if_neg hall]
            exact ⟨rfl, .inl ⟨⟨htype, fun heq => hall (hfilled.trans heq)⟩, rfl⟩⟩
      | stop | stopLimit =>
          have hlives := (not_killed (e := e) (P := P) (htype ▸ by decide) : ¬ e.Killed P o')
          have heq : e.matchOrder P clock o = ((o', []), e) := by
            simp only [matchOrder, hconvert, htype]
          rw [heq]
          exact ⟨_, matched_none (by simp only [Order.accepts, htype])
            (by simp only [Order.restsAt, htype, reduceCtorEq, if_false]), rfl,
            .inr ⟨hlives, rfl, rfl⟩⟩

end MatchingEngine

/-! ## The invariant

Part of a resting order may be executed; no id comes in with that. -/

/-- What may rest in the book. -/
structure Resting (P : Prices F) (side : OrderSide) (symbol : String) (priceLevel : Nat)
    (o : Order F) : Prop where
  side : o.side = side
  symbol : o.symbol = symbol
  limit : o.orderType = .limit
  price : o.price.map P.toCents = some priceLevel
  unfilled : o.filledQuantity < o.quantity

/-- The books hold what they should, with the ids up to a number. -/
structure Filed (P : Prices F) (n : Nat) (levels : OrderSide → String → Levels F) : Prop where
  ascending : ∀ side symbol, Ascending (levels side symbol)
  resting : ∀ side symbol, ∀ x ∈ queue (levels side symbol), Resting P side symbol x.1 x.2
  /-- The orders of a level stand in the order they came. -/
  inTime : ∀ side symbol, ∀ l ∈ levels side symbol,
    (l.2.map Order.orderId).Pairwise (· < ·)
  numbered : ∀ side symbol, ∀ x ∈ queue (levels side symbol), x.2.orderId ≤ n
  /-- No order rests twice in one book. -/
  once : ∀ side symbol, ((queue (levels side symbol)).map (fun x => x.2.orderId)).Nodup
  /-- Nor in two books. -/
  apart : ∀ side symbol side' symbol', ∀ x ∈ queue (levels side symbol),
    ∀ x' ∈ queue (levels side' symbol'), x.2.orderId = x'.2.orderId →
      side = side' ∧ symbol = symbol'

def MatchingEngine.Sound (P : Prices F) (e : MatchingEngine F) : Prop :=
  Filed P e.orderCounter e.levelsOf

theorem mem_queue {levels : Levels F} {x : Nat × Order F} :
    x ∈ queue levels ↔ ∃ l ∈ levels, l.1 = x.1 ∧ x.2 ∈ l.2 := by
  rw [queue, List.mem_flatMap]
  constructor
  · rintro ⟨l, hl, hx⟩
    obtain ⟨o, ho, rfl⟩ := List.mem_map.mp hx
    exact ⟨l, hl, rfl, ho⟩
  · rintro ⟨l, hl, hprice, hx⟩
    exact ⟨l, hl, List.mem_map.mpr ⟨x.2, hx, by rw [hprice]⟩⟩

theorem MatchingEngine.Sound.bounded (h : e.Sound P) : e.BoundedBook := by
  intro side symbol l hl o ho
  have hx : (l.1, o) ∈ queue (e.levelsOf side symbol) := mem_queue.mpr ⟨l, hl, rfl, ho⟩
  exact Nat.le_of_lt (h.resting side symbol _ hx).unfilled

theorem Resting.reduced {side : OrderSide} {symbol : String} {priceLevel k : Nat} {o : Order F}
    (h : Resting P side symbol priceLevel o) (hk : k < o.openQuantity) :
    Resting P side symbol priceLevel (o.reduced k) where
  side := h.side
  symbol := h.symbol
  limit := h.limit
  price := h.price
  unfilled := by
    have hopen : o.openQuantity = o.quantity - o.filledQuantity := rfl
    show o.filledQuantity + k < o.quantity
    omega

section
variable {n : Nat} {levels : OrderSide → String → Levels F}

/-- The levels of one symbol on one side change, and what is there afterwards was there
before, or is part of what was. -/
structure Served (levels levels' : Levels F) : Prop where
  ascending : Ascending levels → Ascending levels'
  mem : ∀ x ∈ queue levels', x ∈ queue levels ∨
    ∃ y ∈ queue levels, ∃ k, k < y.2.openQuantity ∧ x = (y.1, y.2.reduced k)
  ids : ((queue levels').map (fun x => x.2.orderId)).Sublist
    ((queue levels).map (fun x => x.2.orderId))
  inTime : ∀ l ∈ levels', ∃ l' ∈ levels, l'.1 = l.1 ∧
    (l.2.map Order.orderId).Sublist (l'.2.map Order.orderId)

theorem Served.refl (levels : Levels F) : Served levels levels where
  ascending := id
  mem := fun _ hx => .inl hx
  ids := List.Sublist.refl _
  inTime := fun l hl => ⟨l, hl, rfl, List.Sublist.refl _⟩

theorem served_taken (acceptable : Nat → Bool) (k : Nat) (levels : Levels F) :
    Served levels (taken acceptable k levels) where
  ascending := fun h => h.taken acceptable k
  mem := fun _ hx => mem_queue_taken hx
  ids := ids_taken acceptable k levels
  inTime := fun _ hl => mem_taken hl

theorem Served.id_mem {levels levels' : Levels F} (h : Served levels levels') {x : Nat × Order F}
    (hx : x ∈ queue levels') : ∃ y ∈ queue levels, y.2.orderId = x.2.orderId := by
  rcases h.mem x hx with hold | ⟨y, hy, k, -, rfl⟩
  · exact ⟨x, hold, rfl⟩
  · exact ⟨y, hy, rfl⟩

/-- **Serving** keeps the books in order. -/
theorem Filed.served (h : Filed P n levels) {levels' : OrderSide → String → Levels F}
    (hserved : ∀ side symbol, Served (levels side symbol) (levels' side symbol)) :
    Filed P n levels' where
  ascending side symbol := (hserved side symbol).ascending (h.ascending side symbol)
  resting side symbol x hx := by
    rcases (hserved side symbol).mem x hx with hold | ⟨y, hy, k, hk, rfl⟩
    · exact h.resting side symbol x hold
    · exact (h.resting side symbol y hy).reduced hk
  inTime side symbol l hl := by
    obtain ⟨l', hl', -, hsub⟩ := (hserved side symbol).inTime l hl
    exact (h.inTime side symbol l' hl').sublist hsub
  numbered side symbol x hx := by
    obtain ⟨y, hy, hid⟩ := (hserved side symbol).id_mem hx
    exact hid ▸ h.numbered side symbol y hy
  once side symbol := (h.once side symbol).sublist (hserved side symbol).ids
  apart side symbol side' symbol' x hx x' hx' heq := by
    obtain ⟨y, hy, hid⟩ := (hserved side symbol).id_mem hx
    obtain ⟨y', hy', hid'⟩ := (hserved side' symbol').id_mem hx'
    exact h.apart side symbol side' symbol' y hy y' hy' (hid.trans (heq.trans hid'.symm))

/-- **Adding an order** with a new id keeps them in order. -/
theorem Filed.added (h : Filed P n levels) {o : Order F} (hid : o.orderId = n + 1)
    {limitCents : Nat} (hresting : Resting P o.side o.symbol limitCents o) :
    Filed P (n + 1) (fun side symbol =>
      if side = o.side ∧ symbol = o.symbol then pushOrder limitCents o (levels side symbol)
      else levels side symbol) := by
  have hmem : ∀ {side symbol x}, x ∈ queue (if side = o.side ∧ symbol = o.symbol then
      pushOrder limitCents o (levels side symbol) else levels side symbol) →
        x ∈ queue (levels side symbol) ∨
          (x = (limitCents, o) ∧ side = o.side ∧ symbol = o.symbol) := by
    intro side symbol x hx
    split at hx
    · rename_i hhere
      rcases List.mem_cons.mp ((pushOrder_perm _ _ _).mem_iff.mp hx) with rfl | hold
      · exact .inr ⟨rfl, hhere⟩
      · exact .inl hold
    · exact .inl hx
  refine ⟨?_, ?_, ?_, ?_, ?_, ?_⟩
  · intro side symbol
    split
    · exact (h.ascending side symbol).pushOrder limitCents o
    · exact h.ascending side symbol
  · intro side symbol x hx
    rcases hmem hx with hold | ⟨rfl, rfl, rfl⟩
    · exact h.resting side symbol x hold
    · exact hresting
  · intro side symbol l hl
    split at hl
    · rcases mem_pushOrder hl with hold | rfl | ⟨orders, horders, rfl⟩
      · exact h.inTime side symbol l hold
      · exact List.pairwise_singleton _ _
      · rw [List.map_append]
        refine List.pairwise_append.mpr ⟨h.inTime side symbol _ horders,
          List.pairwise_singleton _ _, ?_⟩
        intro i hi j hj
        obtain ⟨o', ho', rfl⟩ := List.mem_map.mp hi
        rw [List.mem_singleton.mp hj, hid]
        exact Nat.lt_succ_of_le
          (h.numbered side symbol (limitCents, o') (mem_queue.mpr ⟨_, horders, rfl, ho'⟩))
    · exact h.inTime side symbol l hl
  · intro side symbol x hx
    rcases hmem hx with hold | ⟨rfl, -, -⟩
    · exact Nat.le_succ_of_le (h.numbered side symbol x hold)
    · exact Nat.le_of_eq hid
  · intro side symbol
    split
    · have hperm := (pushOrder_perm limitCents o (levels side symbol)).map (fun x => x.2.orderId)
      refine hperm.nodup_iff.mpr (List.nodup_cons.mpr ⟨?_, h.once side symbol⟩)
      intro hmem
      obtain ⟨x, hx, heq⟩ := List.mem_map.mp hmem
      have hle := h.numbered side symbol x hx
      dsimp only at heq
      omega
    · exact h.once side symbol
  · intro side symbol side' symbol' x hx x' hx' heq
    rcases hmem hx with hold | ⟨rfl, rfl, rfl⟩
    · rcases hmem hx' with hold' | ⟨rfl, rfl, rfl⟩
      · exact h.apart side symbol side' symbol' x hold x' hold' heq
      · have hle := h.numbered side symbol x hold
        dsimp only at heq
        omega
    · rcases hmem hx' with hold' | ⟨rfl, rfl, rfl⟩
      · have hle := h.numbered side' symbol' x' hold'
        dsimp only at heq
        omega
      · exact ⟨rfl, rfl⟩

theorem Filed.mono (h : Filed P n levels) : Filed P (n + 1) levels :=
  ⟨h.ascending, h.resting, h.inTime,
    fun side symbol x hx => Nat.le_succ_of_le (h.numbered side symbol x hx), h.once, h.apart⟩

end

/-! ## Orders and market prices

Matching an order keeps the books: the orders that serve have a part executed or are
gone, and what a limit order has left rests at its price, under an id that is new.
Market prices leave the books alone. -/

namespace MatchingEngine

theorem filledBy_le (P : Prices F) (o : Order F) (e : MatchingEngine F) :
    e.filledBy P o ≤ o.openQuantity := by
  rw [filledBy, fillsOf]
  split
  · exact Nat.zero_le _
  · rw [fills, Allot.sum_given]
    exact Nat.min_le_left _ _

theorem levelsTaken_served (P : Prices F) (o : Order F) (levels : Levels F) :
    Served levels (levelsTaken P o levels) := by
  rw [levelsTaken]
  split
  · exact .refl levels
  · exact served_taken _ _ levels

/-- The books when the other side has served an order, before it is added to its own. -/
def levelsServed (P : Prices F) (o : Order F) (e : MatchingEngine F) (side : OrderSide)
    (symbol : String) : Levels F :=
  if symbol = o.symbol ∧ side ≠ o.side then levelsTaken P o (e.levelsOf side symbol)
  else e.levelsOf side symbol

theorem levelsAfter_eq (P : Prices F) (o : Order F) (e : MatchingEngine F) :
    e.levelsAfter P o = fun side symbol =>
      if side = o.side ∧ symbol = o.symbol then levelsAdded P o e (e.levelsServed P o side symbol)
      else e.levelsServed P o side symbol := by
  funext side symbol
  rw [levelsAfter, levelsServed]
  by_cases hsymbol : symbol = o.symbol <;> by_cases hside : side = o.side <;>
    simp only [hsymbol, hside, ne_eq, not_true, not_false_eq_true, and_false, and_true, and_self,
      if_true, if_false]

theorem restsAt_some {o : Order F} {limitCents : Nat} (h : o.restsAt P = some limitCents) :
    o.orderType = .limit ∧ o.price.map P.toCents = some limitCents := by
  rw [Order.restsAt] at h
  split at h
  · exact ⟨‹_›, h⟩
  · cases h

/-- **An order** keeps the books in order. -/
theorem Filed.matched {n : Nat} (h : Filed P n e.levelsOf) {o : Order F}
    (hid : o.orderId = n + 1) : Filed P (n + 1) (e.levelsAfter P o) := by
  have hserved : Filed P n (e.levelsServed P o) := by
    refine h.served (fun side symbol => ?_)
    rw [levelsServed]
    split
    · exact levelsTaken_served P o _
    · exact .refl _
  rw [levelsAfter_eq]
  cases hrests : o.restsAt P with
  | none =>
      simp only [levelsAdded, hrests, ite_self]
      exact hserved.mono
  | some limitCents =>
      by_cases hpart : e.filledBy P o < o.openQuantity
      · simp only [levelsAdded, hrests, if_pos hpart]
        obtain ⟨hlimit, hprice⟩ := restsAt_some hrests
        have hopen : o.openQuantity = o.quantity - o.filledQuantity := rfl
        refine hserved.added (o := { o with filledQuantity := o.filledQuantity + e.filledBy P o })
          hid ⟨rfl, rfl, hlimit, hprice, ?_⟩
        show o.filledQuantity + e.filledBy P o < o.quantity
        omega
      · simp only [levelsAdded, hrests, if_neg hpart, ite_self]
        exact hserved.mono

end MatchingEngine

/-- What reaches the engine: an order, if one could be read from the message, with what the
sends that follow are answered, or a market price. -/
inductive Event (F : Type) where
  | order (parsed : Option (Order F)) (answers : Nat → Except String Unit)
  | marketPrice (symbol : String) (price : F)

namespace MatchingEngine

variable (P clock) in
def next (maxOrderSize : Nat) (e : MatchingEngine F) : Event F → MatchingEngine F
  | .order parsed answers => (OrderProcessor.process P clock maxOrderSize parsed answers e).2
  | .marketPrice symbol price => e.updateMarketPrice symbol price

variable (P clock) in
/-- The engine after some events. -/
def after (maxOrderSize : Nat) (events : List (Event F)) : MatchingEngine F :=
  events.foldl (next P clock maxOrderSize) new

theorem after_concat (maxOrderSize : Nat) (events : List (Event F)) (event : Event F) :
    after P clock maxOrderSize (events ++ [event]) =
      next P clock maxOrderSize (after P clock maxOrderSize events) event := by
  rw [after, List.foldl_concat]
  rfl

/-- The engine has drawn the id of an order. -/
def numbered (e : MatchingEngine F) : MatchingEngine F := { e with orderCounter := e.orderCounter + 1 }

/-- An order that is not too large is matched with a new id. -/
theorem process_eq {maxOrderSize : Nat} {order : Order F} (hsize : order.quantity ≤ maxOrderSize)
    (answers : Nat → Except String Unit) (e : MatchingEngine F) :
    OrderProcessor.process P clock maxOrderSize (some order) answers e =
      (sendAll answers 0
        ((e.numbered.matchOrder P clock (order.accepted (e.orderCounter + 1))).1.2.map .execution ++
          [.orderStatus (e.numbered.matchOrder P clock (order.accepted (e.orderCounter + 1))).1.1]),
        (e.numbered.matchOrder P clock (order.accepted (e.orderCounter + 1))).2) := by
  have hnot : ¬ maxOrderSize < (order.accepted (e.orderCounter + 1)).quantity := Nat.not_lt.mpr hsize
  simp only [OrderProcessor.process]
  rw [if_neg hnot]
  rfl

theorem process_large {maxOrderSize : Nat} {order : Order F} (hsize : maxOrderSize < order.quantity)
    (answers : Nat → Except String Unit) (e : MatchingEngine F) :
    OrderProcessor.process P clock maxOrderSize (some order) answers e =
      ((.ok (), []), e.numbered) := by
  simp only [OrderProcessor.process]
  exact if_pos hsize

theorem Sound.next (h : e.Sound P) (maxOrderSize : Nat) (event : Event F) :
    (e.next P clock maxOrderSize event).Sound P := by
  cases event with
  | marketPrice symbol price => exact h
  | order parsed answers =>
      cases parsed with
      | none => exact h
      | some order =>
          rw [MatchingEngine.next]
          rcases Nat.lt_or_ge maxOrderSize order.quantity with hlarge | hsize
          · rw [process_large hlarge]
            exact Filed.mono h
          · rw [process_eq hsize]
            have hbounded : e.numbered.BoundedBook := h.bounded
            rcases matchOrder_effect P clock hbounded (order.accepted (e.orderCounter + 1)) with
              ⟨-, heq⟩ | ⟨o', hconvert, x, hmatched, heq, -⟩
            · rw [heq]
              exact Filed.mono h
            · rw [heq]
              have hid : o'.orderId = e.orderCounter + 1 := by
                rw [convertStop_some hconvert]
                rfl
              have hfiled : Filed P (e.orderCounter + 1) (e.numbered.levelsAfter P o') :=
                Filed.matched (e := e.numbered) h hid
              have hlevels : x.2.levelsOf = e.numbered.levelsAfter P o' :=
                funext fun side => funext (hmatched.levels side)
              rw [Sound, hlevels, hmatched.rest.orderCounter]
              exact hfiled

theorem new_sound : (new : MatchingEngine F).Sound P := by
  have hnone : ∀ side symbol, (new : MatchingEngine F).levelsOf side symbol = [] := by
    intro side symbol
    cases side <;> rfl
  have hempty : ∀ side symbol, ∀ x : Nat × Order F,
      x ∉ queue ((new : MatchingEngine F).levelsOf side symbol) := by
    intro side symbol x hx
    rw [hnone] at hx
    cases hx
  refine ⟨?_, ?_, ?_, ?_, ?_, ?_⟩
  · intro side symbol
    rw [hnone]
    exact List.Pairwise.nil
  · exact fun side symbol x hx => absurd hx (hempty side symbol x)
  · intro side symbol l hl
    rw [hnone] at hl
    cases hl
  · exact fun side symbol x hx => absurd hx (hempty side symbol x)
  · intro side symbol
    rw [hnone]
    exact List.Pairwise.nil
  · exact fun side symbol _ _ x hx => absurd hx (hempty side symbol x)

theorem after_sound (P : Prices F) (clock : Nat → Nat) (maxOrderSize : Nat)
    (events : List (Event F)) : (after P clock maxOrderSize events).Sound P := by
  induction events using List.reverseRecOn with
  | nil => exact new_sound
  | append_singleton events event ih =>
      rw [after_concat]
      exact ih.next maxOrderSize event

end MatchingEngine

end

/-- **The order book.**  Whatever orders and market prices have come, the levels of every
symbol ascend; at each level rest limit orders of that symbol, side and price, none of
them filled, in the order they came; and no order rests twice. -/
theorem book_sound {F : Type} (P : Prices F) (clock : Nat → Nat) (maxOrderSize : Nat)
    (events : List (Event F)) :
    (MatchingEngine.after P clock maxOrderSize events).Sound P :=
  MatchingEngine.after_sound P clock maxOrderSize events

end Dolda.Trading
