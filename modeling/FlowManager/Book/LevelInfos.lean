import FlowManager.Book.OrderBook

/-!
# The snapshot of the book

`OrderBook::GetOrderInfos` (`order_book.cpp`, `level_info.hpp`): per price level the sum of the
remaining quantities, in the type of quantities, so modulo `2 ^ 32`.
-/

namespace FlowManager.Book

open FlowManager.Lib

/-- Source: `level_info.hpp`, `struct LevelInfo`. -/
structure LevelInfo where
  price : Price
  quantity : Quantity
  deriving DecidableEq, Repr

/-- Source: `level_info.hpp`, `class OrderBookLevelInfos`. -/
structure OrderBookLevelInfos where
  bids : List LevelInfo
  asks : List LevelInfo
  deriving DecidableEq, Repr

/-- Source: `order_book.cpp`, `OrderBook::GetOrderInfos`, `create_level_info_from_orders`. -/
def createLevelInfoFromOrders (heap : OrderPointer → Order) (price : Price)
    (ordersAtLevel : OrderPointers) : LevelInfo where
  price := price
  quantity := ordersAtLevel.foldl (fun total n => total + (heap n.order).remainingQuantity) 0

/-- The levels of one side that are not empty. -/
def levelInfos {r : Price → Price → Prop} (heap : OrderPointer → Order)
    (levels : OrderedMap Price OrderPointers r) : List LevelInfo :=
  (levels.entries.filter fun e => !e.2.isEmpty).map fun e => createLevelInfoFromOrders heap e.1 e.2

/-- Source: `order_book.cpp`, `OrderBook::GetOrderInfos`. -/
def getOrderInfos : BookProc OrderBookLevelInfos := do
  let s ← Proc.get
  pure ⟨levelInfos s.heap s.book.bids, levelInfos s.heap s.book.asks⟩

end FlowManager.Book
