import FlowManager.Lib.Dict
import FlowManager.Lib.Proc
import Mathlib.Algebra.BigOperators.Group.List.Basic
import Mathlib.Algebra.Ring.Int.Defs
import Mathlib.Data.Rat.Defs

/-!
# The broker interface

The message types that the position manager and the brokers share (`broker_interface.py`), with
the helper `bs_int` and what the Python code around them can raise.

Python's `int` is `ℤ`. A `float` is a rational number or one of the values that are not finite,
which is all that the code distinguishes. A status is a string; the ones the code writes or tests
are named and every other string is `other`.
-/

namespace FlowManager.Broker

open FlowManager.Lib

/-- The statuses of orders and confirmations. -/
inductive Status where
  | PENDING_NEW
  | PENDING_ACK
  | ACKNOWLEDGED
  | WORKING
  | PARTIALLY_FILLED
  | PENDING_CANCEL
  | FILLED
  | CANCELLED
  | REJECTED
  | other (name : String)
  deriving DecidableEq, Repr

/-- The list `["FILLED", "CANCELLED", "REJECTED"]` that the position manager tests. -/
def Status.isTerminal (status : Status) : Bool := status ∈ [.FILLED, .CANCELLED, .REJECTED]

/-- A Python `float`. -/
inductive PyFloat where
  | finite (value : ℚ)
  | infinite (positive : Bool)
  | nan
  deriving DecidableEq

/-- Source: `broker_interface.py`, `class TradeConfirmationMessage`. -/
structure TradeConfirmationMessage where
  orderId : ℤ
  clientOrderId : String
  symbol : String
  filledQuantity : ℤ
  sideIsBuy : Bool
  price : PyFloat
  status : Status
  deriving DecidableEq

/-- Source: `broker_interface.py`, `class OrderDetails`. -/
structure OrderDetails where
  clientOrderId : String
  brokerOrderId : Option ℤ
  symbol : String
  quantity : ℤ
  sideIsBuy : Bool
  type : String
  price : Option PyFloat
  status : Status
  filledQuantity : ℤ
  deriving DecidableEq

/-- Source: `position_manager.py`, `bs_int`. -/
def bsInt (buySell : Bool) : ℤ := if buySell then 1 else -1

/-- Buying counts up. -/
@[simp] theorem bsInt_true : bsInt true = 1 := rfl

/-- Selling counts down. -/
@[simp] theorem bsInt_false : bsInt false = -1 := rfl

/-! ## What confirmations fill -/

/-- What a confirmation adds to the position of its symbol. -/
def signedFill (conf : TradeConfirmationMessage) : ℤ := conf.filledQuantity * bsInt conf.sideIsBuy

/-- What a queue of confirmations adds to the position of a symbol. -/
def filledOf (s : String) (q : List TradeConfirmationMessage) : ℤ :=
  ((q.filter fun conf => decide (conf.symbol = s)).map signedFill).sum

/-- An empty queue fills nothing. -/
@[simp] theorem filledOf_nil (s : String) : filledOf s [] = 0 := rfl

/-- The fills of a confirmation and of those behind it. -/
@[simp] theorem filledOf_cons (s : String) (conf : TradeConfirmationMessage)
    (q : List TradeConfirmationMessage) :
    filledOf s (conf :: q) = (if conf.symbol = s then signedFill conf else 0) + filledOf s q := by
  unfold filledOf
  by_cases h : conf.symbol = s <;> simp [h]

/-- The fills of a queue in two parts. -/
@[simp] theorem filledOf_append (s : String) (q q' : List TradeConfirmationMessage) :
    filledOf s (q ++ q') = filledOf s q + filledOf s q' := by
  simp [filledOf]

/-! ## Exceptions -/

/-- The exceptions that the modelled Python code can raise. -/
inductive PyError where
  | keyError (key : String)
  | valueError
  | overflowError
  deriving DecidableEq, Repr

end FlowManager.Broker
