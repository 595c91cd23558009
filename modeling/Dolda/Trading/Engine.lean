/-
# `Dolda.Trading.Engine` — the matching engine of the trading server

`MatchingEngine` and `OrderProcessor` of `examples/hft_trading_server.rs`.  A book
has, for each symbol, the price levels in ascending order, and at each level the
resting orders in the order they came.  `match_order` goes through the book of the
other side level by level and order by order.

Prices are `f64` and stand behind `Prices`: the two conversions to and from cents,
and the comparison with a stop price.  The clock is read once for each execution.
Quantities are 32-bit words; an order never has more filled than its quantity
(`Resting`), so nothing over- or underflows.

The processor changes the engine first and sends afterwards: what a send is answered
decides what is sent after it, never what is in the books.

**The loops.**  The two loops over levels and orders are one pass over the queue of
the acceptable orders (`sweep_eq`): what is executed is what `Allot.given` says, and
what stays in the book is what `Allot.left` says.  No proof opens the loops again.
-/
import Dolda.Lib.Allot
import Dolda.Lib.Lts
import Mathlib.Data.List.AList

namespace Dolda.Trading

/-- What the engine does with prices. -/
structure Prices (F : Type) where
  /-- `price_to_cents`. -/
  toCents : F → Nat
  /-- `cents_to_price`. -/
  ofCents : Nat → F
  le : F → F → Bool
  zero : F

inductive OrderType where
  | market
  | limit
  | ioc
  | fok
  | stop
  | stopLimit
deriving DecidableEq, Repr

inductive OrderSide where
  | buy
  | sell
deriving DecidableEq, Repr

def OrderSide.opposite : OrderSide → OrderSide
  | .buy => .sell
  | .sell => .buy

inductive OrderStatus where
  | new
  | partiallyFilled
  | filled
  | cancelled
  | rejected
deriving DecidableEq, Repr

structure Order (F : Type) where
  orderId : Nat
  symbol : String
  side : OrderSide
  orderType : OrderType
  quantity : Nat
  price : Option F
  stopPrice : Option F
  filledQuantity : Nat
  status : OrderStatus
  timestamp : Nat
  strategyId : String
deriving DecidableEq, Repr

structure Execution (F : Type) where
  executionId : Nat
  orderId : Nat
  symbol : String
  side : OrderSide
  price : F
  quantity : Nat
  timestamp : Nat
deriving DecidableEq, Repr

/-- The levels of a symbol, by their price in cents, which ascends on either side. -/
abbrev Levels (F : Type) := List (Nat × List (Order F))

abbrev Book (F : Type) := AList (fun _ : String => Levels F)

/-- The two counters are 64-bit words of the code: fewer than `2^64` orders and executions
are counted. -/
structure MatchingEngine (F : Type) where
  buyBook : Book F
  sellBook : Book F
  orderCounter : Nat
  executionCounter : Nat
  currentPrices : AList (fun _ : String => F)

namespace Order

variable {F : Type}

def openQuantity (o : Order F) : Nat := o.quantity - o.filledQuantity

/-- A resting order of which so much is executed, and not all. -/
def reduced (k : Nat) (o : Order F) : Order F :=
  { o with filledQuantity := o.filledQuantity + k, status := .partiallyFilled }

/-- The status when the matching is over. -/
def settled (o : Order F) : Order F :=
  if o.filledQuantity = o.quantity then { o with status := .filled }
  else if 0 < o.filledQuantity then { o with status := .partiallyFilled }
  else o

end Order

/-! ## Matching

The two loops of the source work on the variables of `Matching`; the one over the orders
at a price runs inside the one over the levels, which stops at the first level that is
not acceptable or where nothing remains to be filled.  The levels of either book ascend. -/

/-- The variables of the matching loops. -/
structure Matching (F : Type) where
  order : Order F
  executions : List (Execution F)
  remainingQty : Nat
  executionCounter : Nat

section
variable {F : Type} (P : Prices F) (clock : Nat → Nat)

/-- One execution against a resting order. -/
def Matching.execute (priceLevel fillQty : Nat) (s : Matching F) : Matching F :=
  let executionId := s.executionCounter + 1
  let execution :=
    { executionId, orderId := s.order.orderId, symbol := s.order.symbol, side := s.order.side
      price := P.ofCents priceLevel, quantity := fillQty, timestamp := clock executionId }
  { order := { s.order with filledQuantity := s.order.filledQuantity + fillQty }
    executions := s.executions ++ [execution]
    remainingQty := s.remainingQty - fillQty
    executionCounter := executionId }

/-- The loop over the orders at a price. -/
def fillLevel (priceLevel : Nat) : Matching F → List (Order F) → Matching F × List (Order F)
  | s, [] => (s, [])
  | s, restingOrder :: orders =>
      if s.remainingQty = 0 then (s, restingOrder :: orders)
      else
        let availableQty := restingOrder.quantity - restingOrder.filledQuantity
        let fillQty := min s.remainingQty availableQty
        let (s', orders) := fillLevel priceLevel (s.execute P clock priceLevel fillQty) orders
        if restingOrder.filledQuantity + fillQty = restingOrder.quantity then (s', orders)
        else (s', restingOrder.reduced fillQty :: orders)

/-- The loop over the price levels. -/
def sweep (acceptable : Nat → Bool) : Matching F → Levels F → Matching F × Levels F
  | s, [] => (s, [])
  | s, (priceLevel, orders) :: levels =>
      if acceptable priceLevel = false ∨ s.remainingQty = 0 then (s, (priceLevel, orders) :: levels)
      else
        let (s, orders) := fillLevel P clock priceLevel s orders
        let (s, levels) := sweep acceptable s levels
        (s, (priceLevel, orders) :: levels)

/-- Put an order behind those at its price. -/
def pushOrder (limitCents : Nat) (order : Order F) : Levels F → Levels F
  | [] => [(limitCents, [order])]
  | (priceLevel, orders) :: levels =>
      if priceLevel < limitCents then (priceLevel, orders) :: pushOrder limitCents order levels
      else if priceLevel = limitCents then (priceLevel, orders ++ [order]) :: levels
      else (limitCents, [order]) :: (priceLevel, orders) :: levels

namespace MatchingEngine

def new : MatchingEngine F :=
  { buyBook := ∅, sellBook := ∅, orderCounter := 0, executionCounter := 0, currentPrices := ∅ }

def book (side : OrderSide) (e : MatchingEngine F) : Book F :=
  match side with
  | .buy => e.buyBook
  | .sell => e.sellBook

def putLevels (side : OrderSide) (symbol : String) (levels : Levels F) (e : MatchingEngine F) :
    MatchingEngine F :=
  match side with
  | .buy => { e with buyBook := e.buyBook.insert symbol levels }
  | .sell => { e with sellBook := e.sellBook.insert symbol levels }

def updateMarketPrice (symbol : String) (price : F) (e : MatchingEngine F) : MatchingEngine F :=
  { e with currentPrices := e.currentPrices.insert symbol price }

/-- The part that `match_market_order` and `match_limit_order` have in common: match
against the opposite book. -/
def matchBook (acceptable : Nat → Bool) (order : Order F) (e : MatchingEngine F) :
    Matching F × MatchingEngine F :=
  let s : Matching F :=
    { order, executions := [], remainingQty := order.quantity - order.filledQuantity
      executionCounter := e.executionCounter }
  match (e.book order.side.opposite).lookup order.symbol with
  | none => (s, e)
  | some levels =>
      let (s, levels) := sweep P clock acceptable s levels
      let e := { e with executionCounter := s.executionCounter }
      (s, e.putLevels order.side.opposite order.symbol levels)

def matchMarketOrder (order : Order F) (e : MatchingEngine F) :
    (Order F × List (Execution F)) × MatchingEngine F :=
  let (s, e) := e.matchBook P clock (fun _ => true) order
  ((s.order.settled, s.executions), e)

/-- Whether a level is at the limit or better. -/
def acceptable (side : OrderSide) (limitCents priceLevel : Nat) : Bool :=
  match side with
  | .buy => priceLevel ≤ limitCents
  | .sell => limitCents ≤ priceLevel

/-- Add an order to the book of its side. -/
def addToBook (limitCents : Nat) (order : Order F) (e : MatchingEngine F) : MatchingEngine F :=
  let levels := ((e.book order.side).lookup order.symbol).getD []
  e.putLevels order.side order.symbol (pushOrder limitCents order levels)

def matchLimitOrder (order : Order F) (e : MatchingEngine F) :
    (Order F × List (Execution F)) × MatchingEngine F :=
  match order.price with
  | none => ((order, []), e)
  | some limitPrice =>
      let limitCents := P.toCents limitPrice
      let (s, e) := e.matchBook P clock (acceptable order.side limitCents) order
      -- the unfilled part is added as it is, before its status is settled
      let e :=
        if 0 < s.remainingQty ∧ s.order.orderType = .limit then e.addToBook limitCents s.order
        else e
      ((s.order.settled, s.executions), e)

/-- A stop order that is triggered becomes a market or limit order; `none` if it is not
triggered.  With no market price it stays what it is. -/
def convertStop (order : Order F) (e : MatchingEngine F) : Option (Order F) :=
  if order.orderType = .stop ∨ order.orderType = .stopLimit then
    match e.currentPrices.lookup order.symbol with
    | none => some order
    | some marketPrice =>
        let stopPrice := order.stopPrice.getD P.zero
        let triggered :=
          match order.side with
          | .buy => P.le stopPrice marketPrice
          | .sell => P.le marketPrice stopPrice
        if triggered then
          some { order with orderType := if order.orderType = .stop then .market else .limit }
        else none
  else some order

def matchOrder (order : Order F) (e : MatchingEngine F) :
    (Order F × List (Execution F)) × MatchingEngine F :=
  match e.convertStop P order with
  | none => ((order, []), e)
  | some order =>
      match order.orderType with
      | .market => e.matchMarketOrder P clock order
      | .limit => e.matchLimitOrder P clock order
      | .ioc =>
          let ((updatedOrder, execs), e) := e.matchLimitOrder P clock order
          if updatedOrder.filledQuantity < order.quantity then
            (({ updatedOrder with status := .cancelled }, execs), e)
          else ((updatedOrder, execs), e)
      | .fok =>
          let ((updatedOrder, execs), e) := e.matchLimitOrder P clock order
          if updatedOrder.filledQuantity = order.quantity then ((updatedOrder, execs), e)
          -- the executions are dropped, and the book stays as they have left it
          else (({ order with status := .cancelled }, []), e)
      | .stop | .stopLimit => ((order, []), e)

end MatchingEngine

/-! ## The processor -/

/-- What the processor sends, to `executions@hft` and to `order-status@hft`. -/
inductive Report (F : Type) where
  | execution (e : Execution F)
  | orderStatus (o : Order F)
deriving DecidableEq, Repr

/-- The order as the processor takes it: with an id of its own, and nothing filled. -/
def Order.accepted (orderId : Nat) (o : Order F) : Order F :=
  { o with orderId, status := .new, filledQuantity := 0 }

/-- The sends of `process` from the `n`-th on, with what each is answered: the result, and the
reports whose send succeeded. -/
def sendAll (answers : Nat → Except String Unit) :
    Nat → List (Report F) → Except String Unit × List (Report F)
  | _, [] => (.ok (), [])
  | n, report :: reports =>
      match answers n with
      -- `send_to(..)?`: the first send that fails is the last one
      | .error err => (.error err, [])
      | .ok () =>
          let (result, sent) := sendAll answers (n + 1) reports
          (result, report :: sent)

/-- `process` of the order processor, on a message from which `parsed` was read: its result,
and what it has sent. -/
def OrderProcessor.process (maxOrderSize : Nat) (parsed : Option (Order F))
    (answers : Nat → Except String Unit) (e : MatchingEngine F) :
    (Except String Unit × List (Report F)) × MatchingEngine F :=
  match parsed with
  | none => ((.ok (), []), e)
  | some order =>
      let e := { e with orderCounter := e.orderCounter + 1 }
      let order := order.accepted e.orderCounter
      if maxOrderSize < order.quantity then ((.ok (), []), e)
      else
        let ((matchedOrder, executions), e) := e.matchOrder P clock order
        (sendAll answers 0 (executions.map .execution ++ [.orderStatus matchedOrder]), e)

end

section
variable {F : Type} {P : Prices F} {clock : Nat → Nat}

theorem sendAll_front (answers : Nat → Except String Unit) (n : Nat) (reports : List (Report F)) :
    (sendAll answers n reports).2 <+: reports := by
  induction reports generalizing n with
  | nil => exact List.prefix_refl _
  | cons report reports ih =>
      rw [sendAll]
      split
      · exact List.nil_prefix
      · exact List.cons_prefix_cons.mpr ⟨rfl, ih (n + 1)⟩

/-! ## The loops

Levels in their order are a queue of orders, and the loops give from its front, so that
they are an allotment: what each order gives, and what it has left, is a function of the
queue and of the quantity asked for. -/

/-- The resting orders, cheapest level first and at each level in the order they came. -/
def queue (levels : Levels F) : List (Nat × Order F) :=
  levels.flatMap (fun level => level.2.map (fun o => (level.1, o)))

/-- What a resting order of the queue has to give. -/
def supply (x : Nat × Order F) : Nat := x.2.openQuantity

/-- The levels when a demand has been served; a level stays where it is, also with no
orders left. -/
def leftLevels : Nat → Levels F → Levels F
  | _, [] => []
  | n, (priceLevel, orders) :: levels =>
      (priceLevel, Allot.left Order.openQuantity Order.reduced n orders) ::
        leftLevels (n - Allot.total Order.openQuantity orders) levels

theorem leftLevels_zero (levels : Levels F) : leftLevels 0 levels = levels := by
  induction levels with
  | nil => rfl
  | cons level levels ih =>
      obtain ⟨priceLevel, orders⟩ := level
      rw [leftLevels, Allot.left_zero, Nat.zero_sub, ih]

/-- The executions of a pass. -/
def Matching.executeAll (P : Prices F) (clock : Nat → Nat) (fills : List ((Nat × Order F) × Nat))
    (s : Matching F) : Matching F :=
  fills.foldl (fun s x => s.execute P clock x.1.1 x.2) s

theorem Matching.executeAll_append (fills fills' : List ((Nat × Order F) × Nat)) (s : Matching F) :
    s.executeAll P clock (fills ++ fills') =
      (s.executeAll P clock fills).executeAll P clock fills' := List.foldl_append

/-- What the executions do to the quantities and the counter. -/
theorem Matching.executeAll_spec (P : Prices F) (clock : Nat → Nat)
    (fills : List ((Nat × Order F) × Nat)) (s : Matching F) :
    (s.executeAll P clock fills).order =
        { s.order with
          filledQuantity := s.order.filledQuantity + (fills.map Prod.snd).sum } ∧
      (s.executeAll P clock fills).remainingQty = s.remainingQty - (fills.map Prod.snd).sum ∧
      (s.executeAll P clock fills).executionCounter = s.executionCounter + fills.length := by
  induction fills generalizing s with
  | nil => exact ⟨rfl, rfl, rfl⟩
  | cons x fills ih =>
      obtain ⟨horder, hremaining, hcounter⟩ := ih (s.execute P clock x.1.1 x.2)
      have hcons : s.executeAll P clock (x :: fills) =
          (s.execute P clock x.1.1 x.2).executeAll P clock fills := rfl
      rw [hcons, horder, hremaining, hcounter, List.map_cons, List.sum_cons, List.length_cons]
      refine ⟨?_, Nat.sub_sub _ _ _, ?_⟩
      · simp only [execute, Nat.add_assoc]
      · simp only [execute]
        omega

/-- No order has more filled than its quantity. -/
def Bounded (orders : List (Order F)) : Prop := ∀ o ∈ orders, o.filledQuantity ≤ o.quantity

/-- **The loop over the orders** serves what remains from them. -/
theorem fillLevel_eq (priceLevel : Nat) {orders : List (Order F)} (h : Bounded orders)
    (s : Matching F) :
    fillLevel P clock priceLevel s orders =
      (s.executeAll P clock
        ((Allot.given Order.openQuantity s.remainingQty orders).map
          (fun x => ((priceLevel, x.1), x.2))),
        Allot.left Order.openQuantity Order.reduced s.remainingQty orders) := by
  induction orders generalizing s with
  | nil => rfl
  | cons o orders ih =>
      obtain ⟨ho, horders⟩ := List.forall_mem_cons.mp h
      by_cases hn : s.remainingQty = 0
      · rw [fillLevel, if_pos hn, hn, Allot.given_zero, Allot.left_zero]
        rfl
      rw [Allot.given_cons hn]
      simp only [fillLevel, if_neg hn, ih horders]
      have hopen : o.quantity - o.filledQuantity = o.openQuantity := rfl
      simp only [hopen]
      by_cases hle : o.openQuantity ≤ s.remainingQty
      · have hfilled : o.filledQuantity + o.openQuantity = o.quantity := by omega
        rw [Allot.left_cons_le hn hle, Nat.min_eq_right hle, if_pos hfilled]
        rfl
      · have hgt := Nat.lt_of_not_le hle
        have hpart : ¬ o.filledQuantity + s.remainingQty = o.quantity := by omega
        rw [Allot.left_cons_gt hn hgt, Nat.min_eq_left (Nat.le_of_lt hgt), if_neg hpart,
          Nat.sub_self, Allot.given_zero]
        have hmet : (s.execute P clock priceLevel s.remainingQty).remainingQty = 0 := Nat.sub_self _
        rw [hmet, Allot.left_zero, Allot.given_zero]
        rfl

theorem queue_cons (priceLevel : Nat) (orders : List (Order F)) (levels : Levels F) :
    queue ((priceLevel, orders) :: levels) =
      orders.map (fun o => (priceLevel, o)) ++ queue levels := List.flatMap_cons

theorem total_supply (priceLevel : Nat) (orders : List (Order F)) :
    Allot.total supply (orders.map (fun o => (priceLevel, o))) =
      Allot.total Order.openQuantity orders := by
  rw [Allot.total, List.map_map]
  rfl

/-- No order in the levels has more filled than its quantity. -/
def BoundedLevels (levels : Levels F) : Prop := ∀ level ∈ levels, Bounded level.2

/-- **The loop over the levels** serves what remains from the queue of the acceptable
ones. -/
theorem sweep_eq (P : Prices F) (clock : Nat → Nat) (acceptable : Nat → Bool) {levels : Levels F}
    (h : BoundedLevels levels) (s : Matching F) :
    sweep P clock acceptable s levels =
      (s.executeAll P clock (Allot.given supply s.remainingQty
          (queue (levels.takeWhile (fun level => acceptable level.1)))),
        leftLevels s.remainingQty (levels.takeWhile (fun level => acceptable level.1)) ++
          levels.dropWhile (fun level => acceptable level.1)) := by
  induction levels generalizing s with
  | nil => rfl
  | cons level levels ih =>
      obtain ⟨priceLevel, orders⟩ := level
      obtain ⟨horders, hlevels⟩ := List.forall_mem_cons.mp h
      cases haccept : acceptable priceLevel with
      | false =>
          simp only [sweep, haccept, true_or, if_true, List.takeWhile_cons, List.dropWhile_cons,
            Bool.false_eq_true, if_false]
          rfl
      | true =>
          simp only [List.takeWhile_cons, List.dropWhile_cons, haccept, if_true]
          by_cases hn : s.remainingQty = 0
          · rw [sweep, if_pos (.inr hn), hn, Allot.given_zero, leftLevels_zero, List.cons_append,
              List.takeWhile_append_dropWhile]
            rfl
          · have hgo : ¬ (acceptable priceLevel = false ∨ s.remainingQty = 0) := by
              rw [haccept]
              exact fun h => h.elim Bool.noConfusion hn
            obtain ⟨-, hremaining, -⟩ := Matching.executeAll_spec P clock
              ((Allot.given Order.openQuantity s.remainingQty orders).map
                (fun x => ((priceLevel, x.1), x.2))) s
            have hsum : (((Allot.given Order.openQuantity s.remainingQty orders).map
                (fun x => ((priceLevel, x.1), x.2))).map Prod.snd).sum =
                min s.remainingQty (Allot.total Order.openQuantity orders) := by
              rw [List.map_map, ← Allot.sum_given]
              rfl
            have hrest : s.remainingQty -
                min s.remainingQty (Allot.total Order.openQuantity orders) =
                s.remainingQty - Allot.total Order.openQuantity orders := by omega
            rw [hsum, hrest] at hremaining
            have hgiven : Allot.given supply s.remainingQty
                (orders.map (fun o => (priceLevel, o))) = _ :=
              Allot.given_map (fun o => (priceLevel, o)) (fun _ => rfl) s.remainingQty orders
            simp only [sweep, if_neg hgo, fillLevel_eq priceLevel horders, ih hlevels, hremaining]
            rw [queue_cons, Allot.given_append, total_supply, hgiven, Matching.executeAll_append]
            rfl

end

end Dolda.Trading
