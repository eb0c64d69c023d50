import FlowManager.Lib.Dict
import FlowManager.Lib.OrderedMap
import FlowManager.Lib.Proc
import FlowManager.Book.Order

/-!
# The order book, as the C++ class computes it

`OrderBook` (`order_book.hpp`, `order_book.cpp`) with its three containers: two `std::map`s from a
price to a `std::list` of shared order pointers, and an `std::unordered_map` from an order id to
the pointer and the list iterator of that order.

* Order objects are shared between a list node, the id map and the caller, and `Order::Fill`
  writes through the pointer. So they live in a `heap`, and an `OrderPointer` is an index into it.
* A list iterator is the address of a node. `std::list::erase` through an iterator that is not in
  the list, `front()` of an empty list and a dangling reference to a level are undefined
  behaviour and make the procedure `stuck`; `std::map::at` on a missing key and `Order::Fill`
  beyond the remaining quantity raise.
* The two nested `while` loops of `MatchOrders` are `Proc.collect` loops. Their fuel is a count of
  what a pass can remove; that it never runs out is part of what is proved about them.

Logging is left out.
-/

namespace FlowManager.Book

open FlowManager.Lib

/-- A `std::shared_ptr<Order>`: the index of the object in the heap. -/
abbrev OrderPointer : Type := ℕ

/-- The address of a list node, which is what a `std::list` iterator holds. -/
abbrev NodeAddress : Type := ℕ

/-- A node of an `OrderPointers` list. -/
structure Node where
  addr : NodeAddress
  order : OrderPointer
  deriving DecidableEq, Repr

/-- Source: `order.hpp`, `using OrderPointers = std::list<OrderPointer>`. -/
abbrev OrderPointers : Type := List Node

/-- Source: `order_book.hpp`, `struct OrderEntry`. -/
structure OrderEntry where
  order : OrderPointer
  location : NodeAddress
  deriving DecidableEq, Repr

/-- What the C++ code throws. -/
inductive Fault where
  /-- `std::logic_error` of `Order::Fill`, with the order it names. -/
  | logicError (orderId : OrderId)
  /-- `std::out_of_range` of a container's `at`. -/
  | outOfRange
  deriving DecidableEq, Repr

/-- The private members of `OrderBook`.
Source: `order_book.hpp`, `class OrderBook` -/
structure OrderBook where
  bids : OrderedMap Price OrderPointers (· > ·)
  asks : OrderedMap Price OrderPointers (· < ·)
  ordersMap : Dict OrderId OrderEntry

/-- The book and the objects it points to. -/
structure Store where
  book : OrderBook
  /-- The order objects. -/
  heap : OrderPointer → Order
  /-- How many order objects have been made. -/
  nextOrder : OrderPointer
  /-- How many list nodes have been made. -/
  nextNode : NodeAddress

/-- An empty book and no order objects.
Source: `order_book.cpp`, `OrderBook::OrderBook` -/
def Store.empty : Store where
  book := ⟨OrderedMap.empty, OrderedMap.empty, ∅⟩
  heap := fun _ => Order.new .GoodTillCancel 0 .Buy 0 0
  nextOrder := 0
  nextNode := 0

/-- A procedure of the order book. -/
abbrev BookProc : Type → Type := Proc Fault Store

/-! ## Objects and references -/

/-- The object behind a pointer. -/
def deref (p : OrderPointer) : BookProc Order := do
  let s ← Proc.get
  pure (s.heap p)

/-- `std::make_shared<Order>`: a new object. -/
def makeShared (o : Order) : BookProc OrderPointer := do
  let s ← Proc.get
  Proc.modify fun s => { s with heap := Function.update s.heap s.nextOrder o,
                                nextOrder := s.nextOrder + 1 }
  pure s.nextOrder

/-- Source: `order.cpp`, `Order::Fill`. -/
def fill (p : OrderPointer) (quantity : Quantity) : BookProc Unit := do
  let o ← deref p
  if quantity > o.remainingQuantity then Proc.raise (.logicError o.orderId)
  else Proc.modify fun s => { s with heap := Function.update s.heap p (o.reduce quantity) }

/-- Read through a reference to the list at a bid level. -/
def bidLevel (price : Price) : BookProc OrderPointers := do
  let s ← Proc.get
  match s.book.bids.find? price with
  | some level => pure level
  | none => Proc.stuck

/-- Read through a reference to the list at an ask level. -/
def askLevel (price : Price) : BookProc OrderPointers := do
  let s ← Proc.get
  match s.book.asks.find? price with
  | some level => pure level
  | none => Proc.stuck

/-- Write through a reference to the list at a bid level. -/
def setBidLevel (price : Price) (level : OrderPointers) : BookProc Unit :=
  Proc.modify fun s => { s with book.bids := s.book.bids.insert price level }

/-- Write through a reference to the list at an ask level. -/
def setAskLevel (price : Price) (level : OrderPointers) : BookProc Unit :=
  Proc.modify fun s => { s with book.asks := s.book.asks.insert price level }

/-- `bids_.erase(price)`. -/
def eraseBidLevel (price : Price) : BookProc Unit :=
  Proc.modify fun s => { s with book.bids := s.book.bids.erase price }

/-- `asks_.erase(price)`. -/
def eraseAskLevel (price : Price) : BookProc Unit :=
  Proc.modify fun s => { s with book.asks := s.book.asks.erase price }

/-- `orders_map_.erase(orderId)`. -/
def eraseEntry (orderId : OrderId) : BookProc Unit :=
  Proc.modify fun s => { s with book.ordersMap := s.book.ordersMap.erase orderId }

/-- `std::list::erase` through an iterator. -/
def eraseNode (location : NodeAddress) (level : OrderPointers) : BookProc OrderPointers :=
  if level.any (fun n => n.addr == location) then
    pure (level.eraseP fun n => n.addr == location)
  else Proc.stuck

/-! ## Matching -/

/-- Source: `order_book.cpp`, `OrderBook::CanMatch`. -/
def OrderBook.canMatch (b : OrderBook) (side : Side) (price : Price) : Bool :=
  match side with
  | .Buy =>
      match b.asks.begin? with
      | none => false
      | some (bestAskPrice, _) => decide (price ≥ bestAskPrice)
  | .Sell =>
      match b.bids.begin? with
      | none => false
      | some (bestBidPrice, _) => decide (price ≤ bestBidPrice)

/-- One pass of the inner loop of `MatchOrders`: trade the two fronts of the two levels and pop
the ones that are filled.
Source: `order_book.cpp`, `OrderBook::MatchOrders`, lines 38-62 -/
def matchFronts (bidPrice askPrice : Price) : BookProc (Option Trades) := do
  let currentBidsAtLevel ← bidLevel bidPrice
  let currentAsksAtLevel ← askLevel askPrice
  match currentBidsAtLevel, currentAsksAtLevel with
  | bidNode :: restBids, askNode :: restAsks => do
      let bid ← deref bidNode.order
      let ask ← deref askNode.order
      let matchQuantity := stdMin bid.remainingQuantity ask.remainingQuantity
      fill bidNode.order matchQuantity
      fill askNode.order matchQuantity
      let bid ← deref bidNode.order
      let ask ← deref askNode.order
      let trade := Trade.of bid.toOrderTerms ask.toOrderTerms matchQuantity
      if bid.isFilled then do
        eraseEntry bid.orderId
        setBidLevel bidPrice restBids
      if ask.isFilled then do
        eraseEntry ask.orderId
        setAskLevel askPrice restAsks
      pure (some [trade])
  | _, _ => pure none

/-- One pass of the outer loop of `MatchOrders`: match the two best levels, if they cross, and
drop the levels that are empty afterwards.
Source: `order_book.cpp`, `OrderBook::MatchOrders`, lines 25-66 -/
def matchLevels : BookProc (Option Trades) := do
  let s ← Proc.get
  match s.book.bids.begin?, s.book.asks.begin? with
  | some (bidPrice, bids), some (askPrice, asks) =>
      if bidPrice < askPrice then pure none
      else do
        let trades ← Proc.collect (bids.length + asks.length + 1) (matchFronts bidPrice askPrice)
        let bids ← bidLevel bidPrice
        let asks ← askLevel askPrice
        if bids.isEmpty then eraseBidLevel bidPrice
        if asks.isEmpty then eraseAskLevel askPrice
        pure (some trades)
  | _, _ => pure none

/-- Source: `order_book.cpp`, `OrderBook::MatchOrders`. -/
def matchOrders : BookProc Trades := do
  let s ← Proc.get
  Proc.collect (s.book.bids.entries.length + s.book.asks.entries.length + 1) matchLevels

/-! ## The public interface -/

/-- Source: `order_book.cpp`, `OrderBook::CancelOrderInternal`. -/
def cancelOrderInternal (orderId : OrderId) : BookProc Unit := do
  let s ← Proc.get
  match s.book.ordersMap.lookup orderId with
  | none => Proc.raise .outOfRange
  | some entry => do
      let orderToCancel ← deref entry.order
      match orderToCancel.side with
      | .Sell =>
          match s.book.asks.find? orderToCancel.price with
          | none => Proc.raise .outOfRange
          | some levelOrders => do
              let levelOrders ← eraseNode entry.location levelOrders
              setAskLevel orderToCancel.price levelOrders
              if levelOrders.isEmpty then eraseAskLevel orderToCancel.price
      | .Buy =>
          match s.book.bids.find? orderToCancel.price with
          | none => Proc.raise .outOfRange
          | some levelOrders => do
              let levelOrders ← eraseNode entry.location levelOrders
              setBidLevel orderToCancel.price levelOrders
              if levelOrders.isEmpty then eraseBidLevel orderToCancel.price
      eraseEntry orderId

/-- Append the order to its level and index it: `push_back`, `std::prev(end())` and the entry.
Source: `order_book.cpp`, `OrderBook::AddOrder`, lines 100-110 -/
def insertOrder (order : OrderPointer) : BookProc Unit := do
  let o ← deref order
  match o.side with
  | .Buy => Proc.modify fun s =>
      { s with book.bids := s.book.bids.push o.price ⟨s.nextNode, order⟩ }
  | .Sell => Proc.modify fun s =>
      { s with book.asks := s.book.asks.push o.price ⟨s.nextNode, order⟩ }
  Proc.modify fun s =>
    { s with book.ordersMap := s.book.ordersMap.insert o.orderId ⟨order, s.nextNode⟩,
             nextNode := s.nextNode + 1 }

/-- The trades and the submitted order, or no order if the id is taken.
Source: `order_book.cpp`, `OrderBook::AddOrder` -/
def addOrder (order : OrderPointer) : BookProc (Trades × Option OrderPointer) := do
  let s ← Proc.get
  let o ← deref order
  if o.orderId ∈ s.book.ordersMap then pure ([], none)
  else if o.orderType = .FillAndKill ∧ ¬ s.book.canMatch o.side o.price then
    pure ([], some order)
  else do
    insertOrder order
    let trades ← matchOrders
    let o ← deref order
    let s ← Proc.get
    if o.orderType = .FillAndKill ∧ ¬ o.isFilled then
      if o.orderId ∈ s.book.ordersMap then
        cancelOrderInternal o.orderId
    pure (trades, some order)

/-- Source: `order_book.cpp`, `OrderBook::CancelOrder`. -/
def cancelOrder (orderId : OrderId) : BookProc Bool := do
  let s ← Proc.get
  if orderId ∈ s.book.ordersMap then do
    cancelOrderInternal orderId
    pure true
  else pure false

/-- Source: `order_book.cpp`, `OrderBook::Size`. -/
def OrderBook.size (b : OrderBook) : ℕ := b.ordersMap.keys.card

/-! ## Calls and runs -/

/-- A call on the public interface. `addOrder` hands over a new object with any contents. -/
inductive Call where
  | addOrder (order : Order)
  | cancelOrder (orderId : OrderId)
  deriving DecidableEq, Repr

/-- What a call answers: the pair of `AddOrder`, or the flag of `CancelOrder`. -/
inductive Answer where
  | added (trades : Trades) (submitted : Option OrderPointer)
  | cancelled (success : Bool)
  deriving DecidableEq, Repr

/-- Make one call. -/
def call : Call → BookProc Answer
  | .addOrder o => do
      let order ← makeShared o
      let (trades, submitted) ← addOrder order
      pure (.added trades submitted)
  | .cancelOrder orderId => do
      let success ← cancelOrder orderId
      pure (.cancelled success)

/-- Make a sequence of calls and collect the answers. -/
def calls : List Call → BookProc (List Answer)
  | [] => pure []
  | c :: cs => do
      let answer ← call c
      let answers ← calls cs
      pure (answer :: answers)

end FlowManager.Book
