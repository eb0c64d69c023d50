import FlowManager.Lib.PriceTime
import Mathlib.Data.UInt
import Mathlib.Order.Defs.Unbundled

/-!
# Orders and trades

The value types of the C++ order book: `types.hpp`, `order.hpp`/`order.cpp` and `trade.hpp`.
Prices and quantities are `std::uint32_t` and order ids `std::uint64_t`, so they are Lean's
`UInt32` and `UInt64` with the same wrap-around arithmetic.

`Order` is split in two: `OrderTerms` are the fields the constructor fixes for good,
`remainingQuantity` is the one field that `Order::Fill` changes. `Order.resting` reads an order
as a `PriceTime.Resting` of the general matching library.
-/

namespace FlowManager.Book

open FlowManager.Lib FlowManager.Lib.PriceTime

/-- Source: `types.hpp`, `enum class OrderType`. -/
inductive OrderType where
  | GoodTillCancel
  | FillAndKill
  deriving DecidableEq, Repr

/-- Source: `types.hpp`, `enum class Side`. -/
inductive Side where
  | Buy
  | Sell
  deriving DecidableEq, Repr

/-- Source: `types.hpp`, `using Price = std::uint32_t`. -/
abbrev Price : Type := UInt32

/-- Source: `types.hpp`, `using Quantity = std::uint32_t`. -/
abbrev Quantity : Type := UInt32

/-- Source: `types.hpp`, `using OrderId = std::uint64_t`. -/
abbrev OrderId : Type := UInt64

/-- The fields of an `Order` that never change after construction.
Source: `order.hpp`, `class Order` -/
structure OrderTerms where
  orderType : OrderType
  orderId : OrderId
  side : Side
  price : Price
  initialQuantity : Quantity
  deriving DecidableEq, Repr

/-- An order object: its terms and what is still open.
Source: `order.hpp`, `class Order` -/
structure Order extends OrderTerms where
  remainingQuantity : Quantity
  deriving DecidableEq, Repr

namespace Order

/-- The constructor: a fresh order has its whole quantity open.
Source: `order.cpp`, `Order::Order` -/
def new (orderType : OrderType) (orderId : OrderId) (side : Side) (price : Price)
    (quantity : Quantity) : Order where
  orderType := orderType
  orderId := orderId
  side := side
  price := price
  initialQuantity := quantity
  remainingQuantity := quantity

/-- Source: `order.cpp`, `Order::IsFilled`. -/
def isFilled (o : Order) : Bool := o.remainingQuantity == 0

/-- What `Order::Fill` leaves when it does not throw.
Source: `order.cpp`, `Order::Fill` (`remainingQuantity_ -= quantity`) -/
def reduce (o : Order) (quantity : Quantity) : Order :=
  { o with remainingQuantity := o.remainingQuantity - quantity }

/-- The order as the matching library sees it. -/
def resting (o : Order) : Resting OrderTerms := ⟨o.toOrderTerms, o.remainingQuantity.toNat⟩

/-- A new order has all of its quantity open. -/
@[simp] theorem new_remainingQuantity (t : OrderType) (i : OrderId) (s : Side) (p : Price)
    (q : Quantity) : (new t i s p q).remainingQuantity = (new t i s p q).initialQuantity := rfl

/-- A fill leaves the terms. -/
@[simp] theorem reduce_toOrderTerms (o : Order) (q : Quantity) :
    (o.reduce q).toOrderTerms = o.toOrderTerms := rfl

/-- A resting order has the order's terms. -/
@[simp] theorem resting_terms (o : Order) : o.resting.terms = o.toOrderTerms := rfl

/-- A resting order has open what the order has. -/
@[simp] theorem resting_qty (o : Order) : o.resting.qty = o.remainingQuantity.toNat := rfl

/-- An order is filled exactly if nothing of it is open. -/
theorem isFilled_iff (o : Order) : o.isFilled = true ↔ o.remainingQuantity.toNat = 0 := by
  simp only [isFilled, beq_iff_eq]
  exact UInt32.toNat_inj.symm

/-- Filling at most what remains does not wrap. -/
theorem toNat_reduce {o : Order} {q : Quantity} (h : q ≤ o.remainingQuantity) :
    (o.reduce q).remainingQuantity.toNat = o.remainingQuantity.toNat - q.toNat :=
  UInt32.toNat_sub_of_le _ _ h

end Order

/-- One leg of a trade.
Source: `trade.hpp`, `struct TradeInfo` -/
structure TradeInfo where
  orderId : OrderId
  price : Price
  tradedQuantity : Quantity
  deriving DecidableEq, Repr

/-- A trade: what the bid and what the ask got.
Source: `trade.hpp`, `class Trade` -/
structure Trade where
  bidTrade : TradeInfo
  askTrade : TradeInfo
  deriving DecidableEq, Repr

/-- Source: `trade.hpp`, `using Trades = std::vector<Trade>`. -/
abbrev Trades : Type := List Trade

/-- The trade that `MatchOrders` writes down for two orders and a quantity.
Source: `order_book.cpp`, `OrderBook::MatchOrders` (`trades.push_back`) -/
def Trade.of (bid ask : OrderTerms) (quantity : Quantity) : Trade where
  bidTrade := ⟨bid.orderId, bid.price, quantity⟩
  askTrade := ⟨ask.orderId, ask.price, quantity⟩

/-! ## The orders on prices -/

/-- Prices from the lowest. -/
instance : IsStrictTotalOrder Price (· < ·) where
  trichotomous _ _ h₁ h₂ := UInt32.le_antisymm (UInt32.not_lt.mp h₂) (UInt32.not_lt.mp h₁)
  irrefl a := UInt32.lt_irrefl a
  trans _ _ _ := UInt32.lt_trans

/-- Prices from the highest. -/
instance : IsStrictTotalOrder Price (· > ·) where
  trichotomous _ _ h₁ h₂ := UInt32.le_antisymm (UInt32.not_lt.mp h₁) (UInt32.not_lt.mp h₂)
  irrefl a := UInt32.lt_irrefl a
  trans _ _ _ h₁ h₂ := UInt32.lt_trans h₂ h₁

/-! ## The smaller of two quantities -/

/-- `std::min` on quantities. -/
def stdMin (a b : Quantity) : Quantity := if b < a then b else a

/-- `std::min` is the minimum. -/
theorem toNat_stdMin (a b : Quantity) : (stdMin a b).toNat = min a.toNat b.toNat := by
  unfold stdMin
  split_ifs with h <;> rw [UInt32.lt_iff_toNat_lt] at h <;> omega

/-- `std::min` is at most its first argument. -/
theorem stdMin_le_left (a b : Quantity) : stdMin a b ≤ a := by
  rw [UInt32.le_iff_toNat_le, toNat_stdMin]
  exact Nat.min_le_left _ _

/-- `std::min` is at most its second argument. -/
theorem stdMin_le_right (a b : Quantity) : stdMin a b ≤ b := by
  rw [UInt32.le_iff_toNat_le, toNat_stdMin]
  exact Nat.min_le_right _ _

end FlowManager.Book
