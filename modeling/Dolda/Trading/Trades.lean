/-
# `Dolda.Trading.Trades` — what is traded

The history of an engine is the orders that were matched, each as what `match_order` has
returned of it and what it has dropped (`Deal`).  Four things hold in every history.

    an order trades with the cheapest level first, at each level
      with the order that came first, and with nobody out of turn      (`cheapest_first`)
    what rests in a book is what was added to it, less what the orders
      of the other side took, returned or dropped                      (`open_interest`)
    executions are numbered upwards, and each is part of its order      (`execution_feed`)
    a level, once there, keeps every sell order with a higher limit
      from trading when it comes                                       (`low_bid_blocks`)

What is returned is then sent, up to the first send that fails (`sendAll`).

The cheapest level is the best one for a buyer and the worst one for a seller: both
books ascend, while the levels an order accepts are taken from the front of the book as
long as they are acceptable.
-/
import Dolda.Trading.Book
import Mathlib.Data.List.TakeWhile

namespace Dolda.Trading

section
variable {F : Type} {P : Prices F} {clock : Nat → Nat} {e : MatchingEngine F} {o : Order F}

/-! ## The executions of an order

What is executed comes from the front of the queue of the opposite book, which is in
order of price, and at a price in order of arrival; what that front does not give is
left. -/

/-- The executions of some fills, numbered upwards. -/
def executionsOf (P : Prices F) (clock : Nat → Nat) (o : Order F) :
    Nat → List ((Nat × Order F) × Nat) → List (Execution F)
  | _, [] => []
  | n, x :: fills =>
      { executionId := n + 1, orderId := o.orderId, symbol := o.symbol, side := o.side
        price := P.ofCents x.1.1, quantity := x.2, timestamp := clock (n + 1) } ::
        executionsOf P clock o (n + 1) fills

/-- What is filled does not show in the executions. -/
theorem executionsOf_filled (k n : Nat) (fills : List ((Nat × Order F) × Nat)) :
    executionsOf P clock { o with filledQuantity := k } n fills = executionsOf P clock o n fills := by
  induction fills generalizing n with
  | nil => rfl
  | cons x fills ih => rw [executionsOf, executionsOf, ih]

theorem executeAll_executions (fills : List ((Nat × Order F) × Nat)) (s : Matching F) :
    (s.executeAll P clock fills).executions =
      s.executions ++ executionsOf P clock s.order s.executionCounter fills := by
  induction fills generalizing s with
  | nil => exact (List.append_nil _).symm
  | cons x fills ih =>
      have hcons : s.executeAll P clock (x :: fills) =
          (s.execute P clock x.1.1 x.2).executeAll P clock fills := rfl
      rw [hcons, ih, Matching.execute, executionsOf_filled, List.append_assoc]
      rfl

theorem executionsOf_quantity (n : Nat) (fills : List ((Nat × Order F) × Nat)) :
    (executionsOf P clock o n fills).map Execution.quantity = fills.map Prod.snd := by
  induction fills generalizing n with
  | nil => rfl
  | cons x fills ih => rw [executionsOf, List.map_cons, ih, List.map_cons]

namespace MatchingEngine

/-- The resting orders that an order meets. -/
def offers (P : Prices F) (o : Order F) (e : MatchingEngine F) : List (Nat × Order F) :=
  match o.accepts P with
  | none => []
  | some acceptable => e.met acceptable o

theorem fillsOf_eq (P : Prices F) (o : Order F) (e : MatchingEngine F) :
    e.fillsOf P o = Allot.given supply o.openQuantity (e.offers P o) := by
  cases haccepts : o.accepts P with
  | none => simp only [fillsOf, offers, haccepts]; rfl
  | some acceptable => simp only [fillsOf, offers, haccepts]; rfl

theorem filledBy_eq (P : Prices F) (o : Order F) (e : MatchingEngine F) :
    e.filledBy P o = min o.openQuantity (Allot.total supply (e.offers P o)) := by
  rw [filledBy, fillsOf_eq, Allot.sum_given]

theorem queue_levelsTaken (P : Prices F) (o : Order F) (e : MatchingEngine F) : ∃ rest,
    queue (e.levelsOf o.side.opposite o.symbol) = e.offers P o ++ rest ∧
      queue (levelsTaken P o (e.levelsOf o.side.opposite o.symbol)) =
        Allot.left supply reduceSupply o.openQuantity (e.offers P o) ++ rest := by
  cases haccepts : o.accepts P with
  | none =>
      simp only [offers, levelsTaken, haccepts]
      exact ⟨queue (e.levelsOf o.side.opposite o.symbol), rfl, rfl⟩
  | some acceptable =>
      simp only [offers, levelsTaken, haccepts]
      exact ⟨_, (queue_split acceptable _).symm, queue_taken acceptable _ _⟩

theorem Sound.queue_ordered (h : e.Sound P) (side : OrderSide) (symbol : String) :
    (queue (e.levelsOf side symbol)).Pairwise (fun x y =>
      x.1 < y.1 ∨ x.1 = y.1 ∧ x.2.orderId < y.2.orderId) := by
  have hascending := h.ascending side symbol
  have htime := h.inTime side symbol
  generalize e.levelsOf side symbol = levels at hascending htime
  induction levels with
  | nil => exact List.Pairwise.nil
  | cons level levels ih =>
      obtain ⟨priceLevel, orders⟩ := level
      obtain ⟨hbelow, hlevels⟩ := List.pairwise_cons.mp hascending
      obtain ⟨horders, hothers⟩ := List.forall_mem_cons.mp htime
      rw [queue_cons]
      refine List.pairwise_append.mpr ⟨?_, ih hlevels hothers, ?_⟩
      · refine List.pairwise_map.mpr ((List.pairwise_map.mp horders).imp ?_)
        exact fun hlt => .inr ⟨rfl, hlt⟩
      · intro x hx y hy
        obtain ⟨o, -, rfl⟩ := List.mem_map.mp hx
        obtain ⟨l, hl, hprice, -⟩ := mem_queue.mp hy
        exact .inl (hprice ▸ hbelow l hl)

theorem levelsAfter_opposite (P : Prices F) (o : Order F) (e : MatchingEngine F) :
    e.levelsAfter P o o.side.opposite o.symbol =
      levelsTaken P o (e.levelsOf o.side.opposite o.symbol) := by
  rw [levelsAfter, if_pos rfl, if_neg (opposite_iff.mp rfl)]

end MatchingEngine

/-! ## Whom an order trades with

The queue that an order meets is that of the levels it accepts, up to the first it does
not.  It is served as an allotment serves, so only the last that gives may keep
something. -/

/-- An order of size `n` is served by those it meets, in their order: the first ones give,
each all it has but for the last, and all give as much as is wanted or there is. -/
structure Serves (n : Nat) (offers : List (Nat × Order F)) (fills : List ((Nat × Order F) × Nat)) :
    Prop where
  ordered : offers.Pairwise (fun x y => x.1 < y.1 ∨ x.1 = y.1 ∧ x.2.orderId < y.2.orderId)
  front : fills.map Prod.fst <+: offers
  positive : ∀ x ∈ fills, 0 < x.2
  all : ∀ pre x post, fills = pre ++ x :: post → post ≠ [] → x.2 = supply x.1
  amount : (fills.map Prod.snd).sum = min n (Allot.total supply offers)

theorem MatchingEngine.Sound.serves (h : e.Sound P) (o : Order F) :
    Serves o.openQuantity (e.offers P o) (e.fillsOf P o) := by
  obtain ⟨rest, hqueue, -⟩ := e.queue_levelsTaken P o
  have hmem : ∀ x ∈ e.offers P o, x ∈ queue (e.levelsOf o.side.opposite o.symbol) :=
    fun x hx => hqueue ▸ List.mem_append_left _ hx
  have hordered := h.queue_ordered o.side.opposite o.symbol
  rw [hqueue] at hordered
  rw [MatchingEngine.fillsOf_eq]
  refine ⟨(List.pairwise_append.mp hordered).1, Allot.given_front _ _, ?_, ?_,
    Allot.sum_given _ _⟩
  · intro x hx
    refine Allot.given_pos (fun y hy => ?_) hx
    have hunfilled := (h.resting _ _ y (hmem y hy)).unfilled
    have hopen : supply y = y.2.quantity - y.2.filledQuantity := rfl
    omega
  · exact fun pre x post heq hpost => Allot.given_full heq hpost

end

/-- **Cheapest first.**  Whatever has come before, an order that is matched is served by
the resting orders it meets, those of the levels before the first one that it does not
accept, in the order of their price, cheapest first on either side, and of their arrival.
Each is one execution to be sent, at its level's price, unless the order is fill-or-kill
and not filled; and what they have left stays in the book. -/
theorem cheapest_first {F : Type} (P : Prices F) (clock : Nat → Nat) (maxOrderSize : Nat)
    (events : List (Event F)) (e : MatchingEngine F)
    (he : MatchingEngine.after P clock maxOrderSize events = e) (order o : Order F)
    (answers : Nat → Except String Unit) (hsize : order.quantity ≤ maxOrderSize)
    (hconvert : e.convertStop P (order.accepted (e.orderCounter + 1)) = some o) :
    ∃ fills rest matchedOrder e', Serves o.quantity (e.offers P o) fills ∧
      OrderProcessor.process P clock maxOrderSize (some order) answers e =
        (sendAll answers 0 (if e.Killed P o then [.orderStatus matchedOrder]
          else (executionsOf P clock o e.executionCounter fills).map .execution ++
            [.orderStatus matchedOrder]), e') ∧
      matchedOrder.filledQuantity = (if e.Killed P o then 0 else (fills.map Prod.snd).sum) ∧
      queue (e.levelsOf o.side.opposite o.symbol) = e.offers P o ++ rest ∧
      queue (e'.levelsOf o.side.opposite o.symbol) =
        Allot.left supply reduceSupply o.quantity (e.offers P o) ++ rest := by
  subst he
  have hsound := MatchingEngine.after_sound P clock maxOrderSize events
  generalize MatchingEngine.after P clock maxOrderSize events = e at *
  have hunfilled : o.filledQuantity = 0 := by
    rw [MatchingEngine.convertStop_some hconvert]
    rfl
  have hopen : o.openQuantity = o.quantity := by rw [Order.openQuantity, hunfilled, Nat.sub_zero]
  have hserves := hsound.serves o
  obtain ⟨rest, hbefore, hafter⟩ := e.queue_levelsTaken P o
  rw [hopen] at hserves hafter
  have hbounded : e.numbered.BoundedBook := hsound.bounded
  rcases MatchingEngine.matchOrder_effect P clock hbounded (order.accepted (e.orderCounter + 1))
    with ⟨hnone, -⟩ | ⟨o', hconvert', x, hmatched, hengine, hresult⟩
  · cases hconvert.symm.trans hnone
  cases hconvert.symm.trans hconvert'
  have hlevels : x.2.levelsOf o.side.opposite o.symbol =
      MatchingEngine.levelsTaken P o (e.levelsOf o.side.opposite o.symbol) :=
    (hmatched.levels _ _).trans (MatchingEngine.levelsAfter_opposite P o e.numbered)
  have hexecutions : x.1.2 = executionsOf P clock o e.executionCounter (e.fillsOf P o) := by
    rw [hmatched.executions, executeAll_executions]
    rfl
  refine ⟨e.fillsOf P o, rest,
    (e.numbered.matchOrder P clock (order.accepted (e.orderCounter + 1))).1.1, x.2, hserves,
    ?_, ?_, hbefore, by rw [hlevels, hafter]⟩
  · rw [MatchingEngine.process_eq hsize, hengine]
    rcases hresult with ⟨hkilled, hresult⟩ | ⟨hlives, hreturned, -⟩
    · have hkilled' : e.Killed P o := hkilled
      rw [if_pos hkilled', hresult]
      rfl
    · have hlives' : ¬ e.Killed P o := hlives
      rw [if_neg hlives', hreturned, hexecutions]
  · rcases hresult with ⟨hkilled, hresult⟩ | ⟨hlives, -, hfilled⟩
    · have hkilled' : e.Killed P o := hkilled
      rw [if_pos hkilled', hresult]
      exact hunfilled
    · have hlives' : ¬ e.Killed P o := hlives
      rw [if_neg hlives', hfilled, hmatched.filled, hunfilled, Nat.zero_add]
      rfl

/-- Prices that are whole cents. -/
def wholeCents : Prices Nat :=
  { toCents := id, ofCents := id, le := fun price price' => decide (price ≤ price'), zero := 0 }

/-- A limit order as a client sends it. -/
def limitOrder (side : OrderSide) (price quantity : Nat) : Order Nat :=
  { orderId := 0, symbol := "AAPL", side, orderType := .limit, quantity, price := some price
    stopPrice := none, filledQuantity := 0, status := .new, timestamp := 0, strategyId := "manual" }

/-- The order comes, and every send succeeds. -/
def comes (order : Order Nat) : Event Nat := .order (some order) (fun _ => .ok ())

/-- A sell order of 8 meets bids of 5 at 90 and of 5 at 110, and takes the one at 90 first. -/
theorem cheapest_first_bids : ∃ fills matchedOrder e',
    Serves 8 [(90, { limitOrder .buy 90 5 with orderId := 2 }),
      (110, { limitOrder .buy 110 5 with orderId := 1 })] fills ∧
    OrderProcessor.process wholeCents id 1000 (some (limitOrder .sell 80 8)) (fun _ => .ok ())
        (.after wholeCents id 1000
          [comes (limitOrder .buy 110 5), comes (limitOrder .buy 90 5)]) =
      (sendAll (fun _ => .ok ()) 0
        ((executionsOf wholeCents id { limitOrder .sell 80 8 with orderId := 3 } 0 fills).map
          .execution ++ [.orderStatus matchedOrder]), e') := by
  let events : List (Event Nat) := [comes (limitOrder .buy 110 5), comes (limitOrder .buy 90 5)]
  obtain ⟨fills, -, matchedOrder, e', hserves, hprocess, -⟩ :=
    cheapest_first wholeCents id 1000 events (.after wholeCents id 1000 events) rfl
      (limitOrder .sell 80 8) { limitOrder .sell 80 8 with orderId := 3 } (fun _ => .ok ())
      (by decide) (by decide +kernel)
  exact ⟨fills, matchedOrder, e', hserves, hprocess⟩

/-! ## The history

An event makes a deal if an order comes and is matched, and what the deal says of the
engine before and after is all that the results use.  What holds of the empty market and
is kept by every event holds of every market. -/

/-- What came of an order that was matched. -/
structure Deal (F : Type) where
  /-- The order as it was matched, with its id. -/
  order : Order F
  /-- What `match_order` returned. -/
  executions : List (Execution F)
  /-- Executed against the book, and not returned. -/
  lost : Nat
  /-- Added to the book. -/
  rested : Nat

def Deal.returned {F : Type} (d : Deal F) : Nat := (d.executions.map Execution.quantity).sum

section
variable {F : Type} (P : Prices F) (clock : Nat → Nat) (maxOrderSize : Nat)

/-- What a fill-or-kill order that is not filled has executed all the same. -/
def lostBy (o : Order F) (e : MatchingEngine F) : Nat :=
  let updatedOrder := (e.matchLimitOrder P clock o).1.1
  if o.orderType = .fok ∧ updatedOrder.filledQuantity ≠ o.quantity then updatedOrder.filledQuantity
  else 0

/-- The deal an event makes. -/
def dealOf (e : MatchingEngine F) : Event F → List (Deal F)
  | .order (some order) _ =>
      if maxOrderSize < order.quantity then []
      else
        let order := order.accepted (e.orderCounter + 1)
        match e.convertStop P order with
        | none => []
        | some o =>
            let (matchedOrder, executions) := (e.numbered.matchOrder P clock order).1
            let rested :=
              if o.orderType = .limit ∧ o.price.isSome then
                o.quantity - matchedOrder.filledQuantity
              else 0
            [{ order := o, executions, lost := lostBy P clock o e.numbered, rested }]
  | .order none _ | .marketPrice _ _ => []

/-- An engine and the deals it has made. -/
structure Market (F : Type) where
  engine : MatchingEngine F
  deals : List (Deal F)

def Market.next (m : Market F) (event : Event F) : Market F :=
  { engine := m.engine.next P clock maxOrderSize event
    deals := m.deals ++ dealOf P clock maxOrderSize m.engine event }

/-- The market after some events. -/
def market (events : List (Event F)) : Market F :=
  events.foldl (Market.next P clock maxOrderSize) { engine := .new, deals := [] }

end

section
variable {F : Type} {P : Prices F} {clock : Nat → Nat} {maxOrderSize : Nat}
  {e : MatchingEngine F} {m : Market F}

theorem market_engine (events : List (Event F)) :
    (market P clock maxOrderSize events).engine = .after P clock maxOrderSize events := by
  induction events using List.reverseRecOn with
  | nil => rfl
  | append_singleton events event ih =>
      rw [market, List.foldl_concat, MatchingEngine.after_concat, ← ih]
      rfl

/-- **What holds of every market.** -/
theorem market_invariant (Inv : Market F → Prop) (hnew : Inv { engine := .new, deals := [] })
    (hnext : ∀ m event, m.engine.Sound P → Inv m → Inv (m.next P clock maxOrderSize event))
    (events : List (Event F)) : Inv (market P clock maxOrderSize events) := by
  induction events using List.reverseRecOn with
  | nil => exact hnew
  | append_singleton events event ih =>
      have hsound := MatchingEngine.after_sound P clock maxOrderSize events
      rw [← market_engine] at hsound
      rw [market, List.foldl_concat]
      exact hnext _ event hsound ih

/-- What a deal says of the engine before and after. -/
structure Dealt (P : Prices F) (clock : Nat → Nat) (e : MatchingEngine F) (d : Deal F)
    (e' : MatchingEngine F) : Prop where
  unfilled : d.order.filledQuantity = 0
  orderId : d.order.orderId = e.orderCounter + 1
  executions : d.executions =
    if e.Killed P d.order then []
    else executionsOf P clock d.order e.executionCounter (e.fillsOf P d.order)
  lost : d.lost = if e.Killed P d.order then e.filledBy P d.order else 0
  rested : d.rested =
    if (d.order.restsAt P).isSome then d.order.quantity - e.filledBy P d.order else 0
  orderCounter : e'.orderCounter = e.orderCounter + 1
  executionCounter : e'.executionCounter = e.executionCounter + (e.fillsOf P d.order).length
  levels : ∀ side symbol, e'.levelsOf side symbol = e.levelsAfter P d.order side symbol

theorem lostBy_eq (h : e.BoundedBook) {o : Order F} (hunfilled : o.filledQuantity = 0) :
    lostBy P clock o e = if e.Killed P o then e.filledBy P o else 0 := by
  have hkilled : e.Killed P o ↔ o.orderType = .fok ∧ o.filledQuantity + e.filledBy P o ≠ o.quantity :=
    Iff.rfl
  by_cases hfok : o.orderType = .fok
  · have hmatched : MatchingEngine.Matched P clock e o (e.matchLimitOrder P clock o) :=
      MatchingEngine.matchLimitOrder_matched h (.inr (.inr hfok))
    have hfilled := hmatched.filled
    simp only [lostBy, hfok, true_and, hkilled, hfilled, hunfilled, Nat.zero_add]
  · simp only [lostBy, hfok, hkilled, false_and, if_false]

theorem restsAt_isSome {o : Order F} :
    (o.restsAt P).isSome ↔ o.orderType = .limit ∧ o.price.isSome := by
  rw [Order.restsAt]
  split
  · rename_i hlimit
    rw [Option.isSome_map]
    exact ⟨fun h => ⟨hlimit, h⟩, fun h => h.2⟩
  · rename_i hother
    exact iff_of_false (by simp) (fun h => hother h.1)

/-- An event makes no deal and leaves the books as they are, or makes one. -/
theorem dealOf_cases (clock : Nat → Nat) (maxOrderSize : Nat) (h : e.Sound P) (event : Event F) :
    (dealOf P clock maxOrderSize e event = [] ∧
      (e.next P clock maxOrderSize event).levelsOf = e.levelsOf ∧
      e.orderCounter ≤ (e.next P clock maxOrderSize event).orderCounter ∧
      (e.next P clock maxOrderSize event).executionCounter = e.executionCounter) ∨
    ∃ d, dealOf P clock maxOrderSize e event = [d] ∧
      Dealt P clock e d (e.next P clock maxOrderSize event) := by
  cases event with
  | marketPrice symbol price => exact .inl ⟨rfl, rfl, Nat.le_refl _, rfl⟩
  | order parsed answers =>
  cases parsed with
  | none => exact .inl ⟨rfl, rfl, Nat.le_refl _, rfl⟩
  | some order =>
  rw [MatchingEngine.next]
  rcases Nat.lt_or_ge maxOrderSize order.quantity with hlarge | hsize
  · rw [MatchingEngine.process_large hlarge, dealOf, if_pos hlarge]
    exact .inl ⟨rfl, rfl, Nat.le_succ _, rfl⟩
  have hbounded : e.numbered.BoundedBook := h.bounded
  rw [MatchingEngine.process_eq hsize]
  simp only [dealOf, if_neg (Nat.not_lt.mpr hsize)]
  rcases MatchingEngine.matchOrder_effect P clock hbounded (order.accepted (e.orderCounter + 1))
    with ⟨hnone, heq⟩ | ⟨o, hconvert, x, hmatched, hengine, hresult⟩
  · have hnone' : e.convertStop P (order.accepted (e.orderCounter + 1)) = none := hnone
    rw [hnone', heq]
    exact .inl ⟨rfl, rfl, Nat.le_succ _, rfl⟩
  have hconvert' : e.convertStop P (order.accepted (e.orderCounter + 1)) = some o := hconvert
  have hkept := MatchingEngine.convertStop_some hconvert
  have hunfilled : o.filledQuantity = 0 := by
    rw [hkept]
    rfl
  rw [hconvert', hengine]
  refine .inr ⟨_, rfl, ?_⟩
  constructor
  · exact hunfilled
  · show o.orderId = _
    rw [hkept]
    rfl
  · show (e.numbered.matchOrder P clock _).1.2 = _
    rcases hresult with ⟨hkilled, hresult⟩ | ⟨hlives, hreturned, -⟩
    · rw [hresult]
      exact (if_pos (show e.Killed P o from hkilled)).symm
    · rw [hreturned, hmatched.executions, executeAll_executions]
      exact (if_neg (show ¬ e.Killed P o from hlives)).symm
  · exact lostBy_eq (e := e.numbered) hbounded hunfilled
  · show (if o.orderType = .limit ∧ o.price.isSome then
      o.quantity - (e.numbered.matchOrder P clock _).1.1.filledQuantity else 0) = _
    by_cases hrests : (o.restsAt P).isSome
    · have hlimit := (restsAt_isSome.mp hrests).1
      rw [if_pos (restsAt_isSome.mp hrests), if_pos hrests]
      rcases hresult with ⟨hkilled, -⟩ | ⟨-, -, hfilled⟩
      · cases hlimit.symm.trans hkilled.1
      · rw [hfilled, hmatched.filled, hunfilled, Nat.zero_add]
        rfl
    · rw [if_neg (mt restsAt_isSome.mpr hrests), if_neg hrests]
  · exact hmatched.rest.orderCounter
  · exact hmatched.counter
  · exact hmatched.levels

/-! ## What rests

What is executed is returned or lost, and the other side's book gives what is executed. -/

/-- What is open in a book. -/
def openInterest (e : MatchingEngine F) (side : OrderSide) (symbol : String) : Nat :=
  Allot.total supply (queue (e.levelsOf side symbol))

def Deal.on (side : OrderSide) (symbol : String) (d : Deal F) : Bool :=
  d.order.side = side ∧ d.order.symbol = symbol

/-- What the orders of the other side have taken from a book. -/
def takenFrom (side : OrderSide) (symbol : String) (deals : List (Deal F)) : Nat :=
  ((deals.filter (Deal.on side.opposite symbol)).map (fun d => d.returned + d.lost)).sum

/-- What the orders of a side have added to its book. -/
def addedTo (side : OrderSide) (symbol : String) (deals : List (Deal F)) : Nat :=
  ((deals.filter (Deal.on side symbol)).map Deal.rested).sum

theorem takenFrom_concat (side : OrderSide) (symbol : String) (deals : List (Deal F)) (d : Deal F) :
    takenFrom side symbol (deals ++ [d]) =
      takenFrom side symbol deals + if d.on side.opposite symbol then d.returned + d.lost else 0 := by
  rw [takenFrom, List.filter_append, List.map_append, List.sum_append, ← takenFrom]
  cases hon : d.on side.opposite symbol with
  | true => simp [hon]
  | false => simp [hon]

theorem addedTo_concat (side : OrderSide) (symbol : String) (deals : List (Deal F)) (d : Deal F) :
    addedTo side symbol (deals ++ [d]) =
      addedTo side symbol deals + if d.on side symbol then d.rested else 0 := by
  rw [addedTo, List.filter_append, List.map_append, List.sum_append, ← addedTo]
  cases hon : d.on side symbol with
  | true => simp [hon]
  | false => simp [hon]

theorem Dealt.taken {e' : MatchingEngine F} {d : Deal F} (h : Dealt P clock e d e') :
    d.returned + d.lost = e.filledBy P d.order := by
  rw [Deal.returned, h.executions, h.lost]
  split
  · exact Nat.zero_add _
  · rw [executionsOf_quantity]
    exact Nat.add_zero _

theorem total_perm {xs ys : List (Nat × Order F)} (h : xs.Perm ys) :
    Allot.total supply xs = Allot.total supply ys := (h.map supply).sum_nat

theorem total_levelsTaken (P : Prices F) (o : Order F) (e : MatchingEngine F) :
    Allot.total supply
        (queue (MatchingEngine.levelsTaken P o (e.levelsOf o.side.opposite o.symbol))) +
      e.filledBy P o = openInterest e o.side.opposite o.symbol := by
  obtain ⟨rest, hbefore, hafter⟩ := e.queue_levelsTaken P o
  have hreduce : ∀ n (x : Nat × Order F), n < supply x → supply (reduceSupply n x) = supply x - n := by
    intro n x hn
    show x.2.quantity - (x.2.filledQuantity + n) = x.2.quantity - x.2.filledQuantity - n
    omega
  rw [openInterest, hbefore, hafter, Allot.total_append, Allot.total_append,
    Allot.total_left hreduce, MatchingEngine.filledBy_eq]
  omega

/-- **A deal** moves what is open as it says. -/
theorem Dealt.balance {e' : MatchingEngine F} {d : Deal F} (h : Dealt P clock e d e')
    (side : OrderSide) (symbol : String) :
    openInterest e' side symbol + (if d.on side.opposite symbol then d.returned + d.lost else 0) =
      openInterest e side symbol + (if d.on side symbol then d.rested else 0) := by
  have hon : ∀ side, d.on side symbol = true ↔ d.order.side = side ∧ d.order.symbol = symbol :=
    fun side => decide_eq_true_iff
  have hlevels := h.levels side symbol
  by_cases hsymbol : symbol = d.order.symbol
  · subst hsymbol
    by_cases hside : side = d.order.side
    · subst hside
      have hother : ¬ d.on d.order.side.opposite d.order.symbol = true := by
        rw [hon]
        rintro ⟨hsame, -⟩
        exact MatchingEngine.opposite_iff.mp hsame rfl
      rw [if_neg hother, if_pos ((hon _).mpr ⟨rfl, rfl⟩), Nat.add_zero, h.rested]
      have hadded : openInterest e' d.order.side d.order.symbol = Allot.total supply
          (queue (MatchingEngine.levelsAdded P d.order e
            (e.levelsOf d.order.side d.order.symbol))) := by
        rw [openInterest, hlevels, MatchingEngine.levelsAfter, if_pos rfl, if_pos rfl]
      rw [hadded, MatchingEngine.levelsAdded]
      cases hrests : d.order.restsAt P with
      | none => exact (Nat.add_zero _).symm
      | some limitCents =>
          have hopen : d.order.openQuantity = d.order.quantity := by
            rw [Order.openQuantity, h.unfilled, Nat.sub_zero]
          rw [Option.isSome_some, if_pos rfl]
          dsimp only
          by_cases hpart : e.filledBy P d.order < d.order.openQuantity
          · rw [if_pos hpart, total_perm (pushOrder_perm _ _ _), Allot.total_cons, Nat.add_comm,
              h.unfilled, Nat.zero_add]
            rfl
          · rw [if_neg hpart]
            show openInterest e d.order.side d.order.symbol = _
            omega
    · have hopposite := MatchingEngine.opposite_iff.mpr hside
      subst hopposite
      have htwice : d.order.side.opposite.opposite = d.order.side := by
        cases d.order.side <;> rfl
      have hother : ¬ d.on d.order.side.opposite d.order.symbol = true := by
        rw [hon]
        rintro ⟨hsame, -⟩
        exact hside hsame.symm
      rw [htwice, if_pos ((hon _).mpr ⟨rfl, rfl⟩), if_neg hother, Nat.add_zero, h.taken,
        openInterest, hlevels, MatchingEngine.levelsAfter_opposite]
      exact total_levelsTaken P d.order e
  · have hnone : ∀ side, ¬ d.on side symbol = true := by
      intro side
      rw [hon]
      exact fun hhere => hsymbol hhere.2.symm
    rw [if_neg (hnone _), if_neg (hnone _), openInterest, hlevels,
      MatchingEngine.levelsAfter, if_neg hsymbol]
    rfl

end

/-- **What rests in a book** is what the limit orders of its side have added to it, less
what the orders of the other side have taken: the executions that `match_order` returned,
and what fill-or-kill orders executed that were then cancelled. -/
theorem open_interest {F : Type} (P : Prices F) (clock : Nat → Nat) (maxOrderSize : Nat)
    (events : List (Event F)) (side : OrderSide) (symbol : String) :
    openInterest (market P clock maxOrderSize events).engine side symbol +
        takenFrom side symbol (market P clock maxOrderSize events).deals =
      addedTo side symbol (market P clock maxOrderSize events).deals := by
  refine market_invariant (fun m => openInterest m.engine side symbol +
    takenFrom side symbol m.deals = addedTo side symbol m.deals) ?_ ?_ events
  · cases side <;> rfl
  · intro m event hsound hm
    simp only [Market.next]
    rcases dealOf_cases clock maxOrderSize hsound event with
      ⟨hnone, hsame, -, -⟩ | ⟨d, hdeal, hdealt⟩
    · rw [hnone, List.append_nil, openInterest, hsame]
      exact hm
    · have hmoved := hdealt.balance side symbol
      rw [hdeal, takenFrom_concat, addedTo_concat]
      omega

section
variable {F : Type} {P : Prices F} {clock : Nat → Nat} {e e' : MatchingEngine F} {d : Deal F}

/-! ## What is returned

Execution ids are drawn in order, also for executions that are not returned, so those
returned go upwards with gaps.  A fill-or-kill order that is not filled has executed what
it could, and of that nothing is returned. -/

theorem executionsOf_ids (o : Order F) (n : Nat) (fills : List ((Nat × Order F) × Nat)) :
    (executionsOf P clock o n fills).map Execution.executionId = List.range' (n + 1) fills.length := by
  induction fills generalizing n with
  | nil => rfl
  | cons x fills ih => rw [executionsOf, List.map_cons, ih, List.length_cons, List.range'_succ]

theorem mem_executionsOf {o : Order F} {n : Nat} {fills : List ((Nat × Order F) × Nat)}
    {x : Execution F} (h : x ∈ executionsOf P clock o n fills) :
    x.orderId = o.orderId ∧ x.symbol = o.symbol ∧ x.side = o.side ∧
      ∃ fill ∈ fills, x.price = P.ofCents fill.1.1 ∧ x.quantity = fill.2 := by
  induction fills generalizing n with
  | nil => cases h
  | cons fill fills ih =>
      rcases List.mem_cons.mp h with rfl | h
      · exact ⟨rfl, rfl, rfl, fill, List.mem_cons_self, rfl, rfl⟩
      · obtain ⟨hid, hsymbol, hside, fill', hfill', hexecuted⟩ := ih h
        exact ⟨hid, hsymbol, hside, fill', List.mem_cons_of_mem _ hfill', hexecuted⟩

/-- An order meets the levels it accepts. -/
theorem MatchingEngine.offers_accepted {o : Order F} {x : Nat × Order F} (h : x ∈ e.offers P o) :
    ∃ acceptable, o.accepts P = some acceptable ∧ acceptable x.1 = true := by
  cases haccepts : o.accepts P with
  | none =>
      simp only [offers, haccepts] at h
      cases h
  | some acceptable =>
      simp only [offers, haccepts, met] at h
      obtain ⟨l, hl, hprice, -⟩ := mem_queue.mp h
      exact ⟨acceptable, rfl, hprice ▸ List.mem_takeWhile_imp (p := fun l : Nat × List (Order F) => acceptable l.1) hl⟩

/-- The executions of a deal are parts of its order, at levels it accepts; if some of it
is lost, none of it is returned. -/
structure Deal.Returns (P : Prices F) (d : Deal F) : Prop where
  parts : ∀ x ∈ d.executions, x.orderId = d.order.orderId ∧ x.symbol = d.order.symbol ∧
    x.side = d.order.side ∧ 0 < x.quantity ∧ ∃ level acceptable, x.price = P.ofCents level ∧
      d.order.accepts P = some acceptable ∧ acceptable level = true
  within : d.returned + d.lost ≤ d.order.quantity
  lost : d.lost = 0 ∨ d.executions = [] ∧ d.order.orderType = .fok ∧ d.lost < d.order.quantity

theorem Dealt.returns (hsound : e.Sound P) (h : Dealt P clock e d e') : d.Returns P := by
  have hserves := hsound.serves d.order
  have hopen : d.order.openQuantity = d.order.quantity := by
    rw [Order.openQuantity, h.unfilled, Nat.sub_zero]
  have hle := hopen ▸ e.filledBy_le P d.order
  refine ⟨?_, h.taken ▸ hle, ?_⟩
  · intro x hx
    rw [h.executions] at hx
    split at hx
    · cases hx
    obtain ⟨hid, hsymbol, hside, fill, hfill, hprice, hquantity⟩ := mem_executionsOf hx
    obtain ⟨acceptable, haccepts, haccepted⟩ := MatchingEngine.offers_accepted
      (hserves.front.subset (List.mem_map_of_mem hfill))
    exact ⟨hid, hsymbol, hside, hquantity ▸ hserves.positive fill hfill, fill.1.1, acceptable,
      hprice, haccepts, haccepted⟩
  · by_cases hkilled : e.Killed P d.order
    · rw [h.lost, h.executions, if_pos hkilled, if_pos hkilled]
      have hne := hkilled.2
      rw [h.unfilled, Nat.zero_add] at hne
      exact .inr ⟨rfl, hkilled.1, Nat.lt_of_le_of_ne hle hne⟩
    · exact .inl (h.lost.trans (if_neg hkilled))

/-- The deals of a market, and the executions among them, are numbered upwards. -/
structure Feed (P : Prices F) (m : Market F) : Prop where
  returns : ∀ d ∈ m.deals, d.Returns P
  orderIds : (m.deals.map (fun d => d.order.orderId)).Pairwise (· < ·)
  orderId_le : ∀ d ∈ m.deals, d.order.orderId ≤ m.engine.orderCounter
  executionIds : ((m.deals.flatMap Deal.executions).map Execution.executionId).Pairwise (· < ·)
  executionId_le : ∀ d ∈ m.deals, ∀ x ∈ d.executions, x.executionId ≤ m.engine.executionCounter

theorem Dealt.executionIds (h : Dealt P clock e d e') {x : Execution F} (hx : x ∈ d.executions) :
    e.executionCounter < x.executionId ∧ x.executionId ≤ e'.executionCounter := by
  rw [h.executions] at hx
  split at hx
  · cases hx
  have hid := List.mem_map_of_mem (f := Execution.executionId) hx
  rw [executionsOf_ids, List.mem_range'_1] at hid
  rw [h.executionCounter]
  omega

theorem Dealt.executions_ascending (h : Dealt P clock e d e') :
    (d.executions.map Execution.executionId).Pairwise (· < ·) := by
  rw [h.executions]
  split
  · exact List.Pairwise.nil
  · rw [executionsOf_ids]
    exact List.pairwise_lt_range'

end

/-- **The executions returned** are numbered upwards over all orders, and so are the orders
that are matched; each execution is part of its order, at a price the order accepts; when
it comes an order has no more executed than its quantity, and what is then not returned is
of a fill-or-kill order that is not filled, of which nothing is returned. -/
theorem execution_feed {F : Type} (P : Prices F) (clock : Nat → Nat) (maxOrderSize : Nat)
    (events : List (Event F)) : Feed P (market P clock maxOrderSize events) := by
  refine market_invariant (Feed P) ?_ ?_ events
  · exact ⟨List.forall_mem_nil _, List.Pairwise.nil, List.forall_mem_nil _, List.Pairwise.nil,
      List.forall_mem_nil _⟩
  intro m event hsound hm
  rcases dealOf_cases clock maxOrderSize hsound event with
    ⟨hnone, -, horder, hcounter⟩ | ⟨d, hdeal, hdealt⟩
  · simp only [Market.next, hnone, List.append_nil]
    exact ⟨hm.returns, hm.orderIds, fun d hd => Nat.le_trans (hm.orderId_le d hd) horder,
      hm.executionIds, fun d hd x hx => hcounter ▸ hm.executionId_le d hd x hx⟩
  · simp only [Market.next, hdeal]
    refine ⟨?_, ?_, ?_, ?_, ?_⟩
    · exact List.forall_mem_append.mpr
        ⟨hm.returns, List.forall_mem_singleton.mpr (hdealt.returns hsound)⟩
    · rw [List.map_append]
      refine List.pairwise_append.mpr ⟨hm.orderIds, List.pairwise_singleton _ _, ?_⟩
      intro i hi j hj
      obtain ⟨d', hd', rfl⟩ := List.mem_map.mp hi
      have hnew : j = d.order.orderId := List.mem_singleton.mp hj
      rw [hnew, hdealt.orderId]
      exact Nat.lt_succ_of_le (hm.orderId_le d' hd')
    · refine List.forall_mem_append.mpr ⟨fun d' hd' => ?_, List.forall_mem_singleton.mpr ?_⟩
      · exact Nat.le_trans (hm.orderId_le d' hd') (hdealt.orderCounter ▸ Nat.le_succ _)
      · rw [hdealt.orderId, hdealt.orderCounter]
    · rw [List.flatMap_append, List.map_append]
      refine List.pairwise_append.mpr ⟨hm.executionIds, ?_, ?_⟩
      · rw [List.flatMap_singleton]
        exact hdealt.executions_ascending
      · intro i hi j hj
        obtain ⟨x, hx, rfl⟩ := List.mem_map.mp hi
        obtain ⟨d', hd', hx'⟩ := List.mem_flatMap.mp hx
        rw [List.flatMap_singleton] at hj
        obtain ⟨y, hy, rfl⟩ := List.mem_map.mp hj
        exact Nat.lt_of_le_of_lt (hm.executionId_le d' hd' x hx') (hdealt.executionIds hy).1
    · refine List.forall_mem_append.mpr ⟨fun d' hd' x hx => ?_, List.forall_mem_singleton.mpr ?_⟩
      · refine Nat.le_trans (hm.executionId_le d' hd' x hx) ?_
        rw [hdealt.executionCounter]
        exact Nat.le_add_right _ _
      · exact fun x hx => (hdealt.executionIds hx).2

section
variable {F : Type} {P : Prices F} {clock : Nat → Nat} {maxOrderSize : Nat} {e : MatchingEngine F}

/-! ## Levels stay

Only stop orders become market orders; and a sell order whose limit lies above some
level of bids stops there, so it meets nobody above it either. -/

/-- There is such a level, with orders or without. -/
def HasLevel (side : OrderSide) (symbol : String) (priceLevel : Nat) (e : MatchingEngine F) : Prop :=
  priceLevel ∈ (e.levelsOf side symbol).map Prod.fst

theorem pushOrder_keys (limitCents : Nat) (order : Order F) {levels : Levels F} {priceLevel : Nat}
    (h : priceLevel ∈ levels.map Prod.fst) :
    priceLevel ∈ (pushOrder limitCents order levels).map Prod.fst := by
  induction levels with
  | nil => cases h
  | cons level levels ih =>
      obtain ⟨level, orders⟩ := level
      rw [pushOrder]
      split
      · rcases List.mem_cons.mp h with rfl | h
        · exact List.mem_cons_self
        · exact List.mem_cons_of_mem _ (ih h)
      split
      · exact h
      · exact List.mem_cons_of_mem _ h

/-- **No order removes a level.** -/
theorem HasLevel.next {side : OrderSide} {symbol : String} {priceLevel : Nat} (hsound : e.Sound P)
    (h : HasLevel side symbol priceLevel e) (event : Event F) :
    HasLevel side symbol priceLevel (e.next P clock maxOrderSize event) := by
  rcases dealOf_cases clock maxOrderSize hsound event with ⟨-, hsame, -, -⟩ | ⟨d, -, hdealt⟩
  · rw [HasLevel, hsame]
    exact h
  · rw [HasLevel, hdealt.levels, MatchingEngine.levelsAfter]
    split
    · split
      · rw [MatchingEngine.levelsAdded]
        split
        · exact h
        · split
          · exact pushOrder_keys _ _ h
          · exact h
      · rw [MatchingEngine.levelsTaken]
        split
        · exact h
        · rw [taken_keys]
          exact h
    · exact h

theorem HasLevel.after {side : OrderSide} {symbol : String} {priceLevel : Nat}
    {events : List (Event F)} (h : HasLevel side symbol priceLevel (.after P clock maxOrderSize events))
    (later : List (Event F)) :
    HasLevel side symbol priceLevel (.after P clock maxOrderSize (events ++ later)) := by
  induction later using List.reverseRecOn with
  | nil => rwa [List.append_nil]
  | append_singleton later event ih =>
      rw [← List.append_assoc, MatchingEngine.after_concat]
      exact ih.next (MatchingEngine.after_sound P clock maxOrderSize _) event

theorem MatchingEngine.convertStop_market {o o' : Order F} (h : e.convertStop P o = some o')
    (hmarket : o'.orderType = .market) : o.orderType = .market ∨ o.orderType = .stop := by
  by_contra hnot
  obtain ⟨hlimit, hstop⟩ := not_or.mp hnot
  rw [convertStop] at h
  split at h
  · split at h
    · cases h
      exact hlimit hmarket
    · dsimp only at h
      split at h <;> split at h <;> cases h <;> cases hmarket
  · cases h
    exact hlimit hmarket

theorem Order.accepts_limit {o : Order F} {price : F} (htype : o.orderType ≠ .market)
    (hprice : o.price = some price) :
    o.accepts P = none ∨
      o.accepts P = some (MatchingEngine.acceptable o.side (P.toCents price)) := by
  cases hcase : o.orderType with
  | market => exact absurd hcase htype
  | limit | ioc | fok => exact .inr (by simp only [accepts, hcase, hprice, Option.map_some])
  | stop | stopLimit => exact .inl (by simp only [accepts, hcase])

theorem Ascending.takeWhile_nil {levels : Levels F} (h : Ascending levels) {limitCents priceLevel : Nat}
    (hlevel : priceLevel ∈ levels.map Prod.fst) (hlimit : priceLevel < limitCents) :
    levels.takeWhile (fun l => MatchingEngine.acceptable .sell limitCents l.1) = [] := by
  cases levels with
  | nil => rfl
  | cons level levels =>
      have hle : level.1 ≤ priceLevel := by
        rcases List.mem_cons.mp hlevel with rfl | hlevel
        · exact Nat.le_refl _
        · obtain ⟨l, hl, rfl⟩ := List.mem_map.mp hlevel
          exact Nat.le_of_lt ((List.pairwise_cons.mp h).1 l hl)
      have hnot : MatchingEngine.acceptable .sell limitCents level.1 = false :=
        decide_eq_false (by omega)
      rw [List.takeWhile_cons, hnot]
      rfl

theorem taken_nil {acceptable : Nat → Bool} (n : Nat) {levels : Levels F}
    (h : levels.takeWhile (fun l => acceptable l.1) = []) : taken acceptable n levels = levels := by
  have hsplit := List.takeWhile_append_dropWhile (p := fun l => acceptable l.1) (l := levels)
  rw [h] at hsplit
  rw [taken, h]
  exact hsplit

namespace MatchingEngine

/-- A sell order with a limit above some level meets nobody, and leaves the bids. -/
theorem sell_above (hsound : e.Sound P) {symbol : String} {priceLevel : Nat}
    (hlevel : HasLevel .buy symbol priceLevel e) {o : Order F} {price : F}
    (hlimit : priceLevel < P.toCents price) (hside : o.side = .sell) (hsymbol : o.symbol = symbol)
    (hprice : o.price = some price) (htype : o.orderType ≠ .market) :
    e.offers P o = [] ∧
      levelsTaken P o (e.levelsOf .buy symbol) = e.levelsOf .buy symbol := by
  rcases Order.accepts_limit (P := P) htype hprice with haccepts | haccepts
  · simp only [offers, levelsTaken, haccepts, and_self]
  · have hnone := Ascending.takeWhile_nil (hsound.ascending .buy symbol) hlevel hlimit
    simp only [offers, levelsTaken, haccepts, met, hsymbol, hside]
    exact ⟨congrArg queue hnone, taken_nil _ hnone⟩

end MatchingEngine

end

/-- **A low bid blocks its symbol for good.**  Once there has been a bid at a level, a sell
order with a limit above it takes nothing when it comes, whatever is bid by then, and
whether or not anything is left at that level: no bid changes, no execution is counted or
sent, and if its status is sent then with nothing filled. -/
theorem low_bid_blocks {F : Type} (P : Prices F) (clock : Nat → Nat) (maxOrderSize : Nat)
    (events later : List (Event F)) (symbol : String) (priceLevel : Nat)
    (hbid : HasLevel .buy symbol priceLevel (.after P clock maxOrderSize events)) (order : Order F)
    (answers : Nat → Except String Unit) (hside : order.side = .sell)
    (hsymbol : order.symbol = symbol)
    (htype : order.orderType ≠ .market ∧ order.orderType ≠ .stop) (price : F)
    (hprice : order.price = some price) (hlimit : priceLevel < P.toCents price)
    (e : MatchingEngine F) (he : .after P clock maxOrderSize (events ++ later) = e) :
    let x := OrderProcessor.process P clock maxOrderSize (some order) answers e
    (∀ s, x.2.levelsOf .buy s = e.levelsOf .buy s) ∧
      x.2.executionCounter = e.executionCounter ∧
      ∀ report ∈ x.1.2, ∃ o, report = .orderStatus o ∧ o.filledQuantity = 0 := by
  have hlevel := hbid.after later
  have hsound := MatchingEngine.after_sound P clock maxOrderSize (events ++ later)
  rw [he] at hlevel hsound
  rcases Nat.lt_or_ge maxOrderSize order.quantity with hlarge | hsize
  · simp only [MatchingEngine.process_large hlarge]
    exact ⟨fun _ => rfl, rfl, List.forall_mem_nil _⟩
  have hbounded : e.numbered.BoundedBook := hsound.bounded
  simp only [MatchingEngine.process_eq hsize]
  rcases MatchingEngine.matchOrder_effect P clock hbounded (order.accepted (e.orderCounter + 1))
    with ⟨-, heq⟩ | ⟨o, hconvert, y, hmatched, hengine, hresult⟩
  · -- a stop order that is not triggered
    rw [heq]
    refine ⟨fun _ => rfl, rfl, fun report hreport => ?_⟩
    exact ⟨_, List.mem_singleton.mp ((sendAll_front answers 0 _).subset hreport), rfl⟩
  have ho := MatchingEngine.convertStop_some hconvert
  have hsell : o.side = .sell := by rw [ho]; exact hside
  have hsame : o.symbol = symbol := by rw [ho]; exact hsymbol
  have hasked : o.price = some price := by rw [ho]; exact hprice
  have hunfilled : o.filledQuantity = 0 := by rw [ho]; rfl
  have hlimited : o.orderType ≠ .market :=
    fun hmarket => (MatchingEngine.convertStop_market hconvert hmarket).elim htype.1 htype.2
  obtain ⟨hnone, hbids⟩ := e.sell_above hsound hlevel hlimit hsell hsame hasked hlimited
  have hfills : e.fillsOf P o = [] := by rw [MatchingEngine.fillsOf_eq, hnone]; rfl
  have hfilled : y.1.1.filledQuantity = 0 := by
    rw [hmatched.filled, hunfilled, MatchingEngine.filledBy, show e.numbered.fillsOf P o = [] from hfills]
    rfl
  refine ⟨fun s => ?_, ?_, fun report hreport => ?_⟩
  · rw [hengine, hmatched.levels, MatchingEngine.levelsAfter]
    split
    · rename_i hhere
      rw [hsell, if_neg (by decide), hhere, hsame]
      exact hbids
    · rfl
  · rw [hengine, hmatched.counter]
    exact congrArg (e.executionCounter + ·) (congrArg List.length hfills)
  have hmem := (sendAll_front answers 0 _).subset hreport
  rcases hresult with ⟨-, heq⟩ | ⟨-, hreturned, hquantity⟩
  · rw [heq] at hmem
    exact ⟨_, List.mem_singleton.mp hmem, hunfilled⟩
  · rw [hreturned, hmatched.executions, show e.numbered.fillsOf P o = [] from hfills] at hmem
    exact ⟨_, List.mem_singleton.mp hmem, hquantity.trans hfilled⟩

/-- A bid of 10 at 90 is filled; then an offer of 5 at 100 leaves a bid of 5 at 110 as it is. -/
theorem low_bid_blocks_crossed :
    let events : List (Event Nat) :=
      [comes (limitOrder .buy 90 10), comes (limitOrder .sell 90 10),
        comes (limitOrder .buy 110 5)]
    let e := MatchingEngine.after wholeCents id 1000 events
    let x := OrderProcessor.process wholeCents id 1000 (some (limitOrder .sell 100 5))
      (fun _ => .ok ()) e
    openInterest e .buy "AAPL" = 5 ∧ (∀ s, x.2.levelsOf .buy s = e.levelsOf .buy s) ∧
      x.2.executionCounter = e.executionCounter ∧
      ∀ report ∈ x.1.2, ∃ o, report = .orderStatus o ∧ o.filledQuantity = 0 := by
  intro events e x
  refine ⟨by decide +kernel, ?_⟩
  exact low_bid_blocks wholeCents id 1000 [comes (limitOrder .buy 90 10)]
    [comes (limitOrder .sell 90 10), comes (limitOrder .buy 110 5)] "AAPL" 90
    (by unfold HasLevel; decide +kernel) (limitOrder .sell 100 5) (fun _ => .ok ()) rfl rfl
    (by decide) 100 rfl (by decide) e rfl

end Dolda.Trading
