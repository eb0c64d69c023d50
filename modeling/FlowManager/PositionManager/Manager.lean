import FlowManager.Broker.Interface
import Mathlib.Algebra.Order.Group.Unbundled.Int

/-!
# The position manager, as the Python class computes it

`PositionManager` (`position_manager.py`): positions, targets and live orders per symbol, two
queues that other threads put into, and the loop body that drains the queues and reconciles the
affected symbols.

* `positions`, `target_positions` and `total_traded_by_symbol` are `defaultdict(int)`, and
  `live_orders_by_symbol` is a `defaultdict(list)`: writing through a missing key starts from the
  default, reading with `get` does not insert.
* The broker is a parameter: `Broker β` has a state of its own, answers `cancel_order` and
  `submit_order`, and may call back, which puts a confirmation into the queue. It may also raise
  or never return.
* The value that `_generate_client_order_id` would answer is an argument of the step that calls it.

Logging and the start and stop of the broker are left out. So is the lock: only the loop's own
thread writes what it protects.
-/

namespace FlowManager.Position

open FlowManager.Lib FlowManager.Broker

/-- The attributes of a `PositionManager`.
Source: `position_manager.py`, `PositionManager.__init__` -/
structure PositionManager where
  positions : Dict String ℤ
  targetPositions : Dict String ℤ
  liveOrders : Dict String OrderDetails
  liveOrdersBySymbol : Dict String (List String)
  totalTradedBySymbol : Dict String ℤ
  targetUpdatesQ : List (String × ℤ)
  tradeConfirmationsQ : List TradeConfirmationMessage

/-- Source: `position_manager.py`, `PositionManager.__init__`. -/
def PositionManager.init : PositionManager := ⟨∅, ∅, ∅, ∅, ∅, [], []⟩

/-! ## Callbacks and queue processors -/

/-- Source: `position_manager.py`, `PositionManager._trade_confirmation_callback`. -/
def tradeConfirmationCallback (confirmation : TradeConfirmationMessage) (pm : PositionManager) :
    PositionManager :=
  { pm with tradeConfirmationsQ := pm.tradeConfirmationsQ ++ [confirmation] }

/-- Source: `position_manager.py`, `PositionManager.update_target_position`. -/
def updateTargetPosition (symbol : String) (targetAmount : ℤ) (pm : PositionManager) :
    PositionManager :=
  { pm with targetUpdatesQ := pm.targetUpdatesQ ++ [(symbol, targetAmount)] }

/-- The ids listed for a symbol: `live_orders_by_symbol.get(symbol, [])`. -/
def PositionManager.index (pm : PositionManager) (symbol : String) : List String :=
  pm.liveOrdersBySymbol.getD symbol []

/-- Take an order that has ended out of both containers.
Source: `position_manager.py`, `PositionManager._process_trade_confirmations`, lines 80-84 -/
def removeLiveOrder (conf : TradeConfirmationMessage) (pm : PositionManager) : PositionManager :=
  let pm := { pm with liveOrders := pm.liveOrders.erase conf.clientOrderId }
  if conf.clientOrderId ∈ pm.index conf.symbol then
    let ids := (pm.index conf.symbol).erase conf.clientOrderId
    if ids = [] then { pm with liveOrdersBySymbol := pm.liveOrdersBySymbol.erase conf.symbol }
    else { pm with liveOrdersBySymbol := pm.liveOrdersBySymbol.insert conf.symbol ids }
  else pm

/-- Book what a confirmation filled.
Source: `position_manager.py`, `PositionManager._process_trade_confirmations`, lines 69-71 -/
def addFill (conf : TradeConfirmationMessage) (pm : PositionManager) : PositionManager :=
  let position := pm.positions.getD conf.symbol 0 + conf.filledQuantity * bsInt conf.sideIsBuy
  let traded := pm.totalTradedBySymbol.getD conf.symbol 0 + conf.filledQuantity
  { pm with positions := pm.positions.insert conf.symbol position,
            totalTradedBySymbol := pm.totalTradedBySymbol.insert conf.symbol traded }

/-- Write an order under its id: a new entry, or the object of the entry changed in place. -/
def PositionManager.setLiveOrder (pm : PositionManager) (clientOrdId : String)
    (order : OrderDetails) : PositionManager :=
  { pm with liveOrders := pm.liveOrders.insert clientOrdId order }

/-- One pass of the confirmation loop, on a confirmation taken from the queue. The object of an
order that has ended is written to before it is dropped; nothing holds it afterwards.
Source: `position_manager.py`, `PositionManager._process_trade_confirmations`, lines 66-88 -/
def processConfirmation (conf : TradeConfirmationMessage) (pm : PositionManager) :
    PositionManager :=
  match pm.liveOrders.lookup conf.clientOrderId with
  | some liveOrder =>
      if conf.status.isTerminal then removeLiveOrder conf (addFill conf pm)
      else (addFill conf pm).setLiveOrder conf.clientOrderId
        { liveOrder with
          filledQuantity := liveOrder.filledQuantity + conf.filledQuantity,
          status := conf.status }
  | none => addFill conf pm

/-- One pass of the target loop, on an update taken from the queue.
Source: `position_manager.py`, `PositionManager._process_target_updates`, lines 101-102 -/
def processTargetUpdate (update : String × ℤ) (pm : PositionManager) : PositionManager :=
  { pm with targetPositions := pm.targetPositions.insert update.1 update.2 }

/-- The confirmation loop over what its queue holds, with nothing put into it meanwhile: the set of
affected symbols and the state it leaves.
Source: `position_manager.py`, `PositionManager._process_trade_confirmations` -/
def drainConfirmations : List TradeConfirmationMessage → Finset String → PositionManager →
    Finset String × PositionManager
  | [], affected, pm => (affected, pm)
  | conf :: rest, affected, pm =>
      drainConfirmations rest (insert conf.symbol affected)
        (processConfirmation conf { pm with tradeConfirmationsQ := rest })

/-- Source: `position_manager.py`, `PositionManager._process_trade_confirmations`. -/
def processTradeConfirmations (pm : PositionManager) : Finset String × PositionManager :=
  drainConfirmations pm.tradeConfirmationsQ ∅ pm

/-- The target loop over what its queue holds, with nothing put into it meanwhile.
Source: `position_manager.py`, `PositionManager._process_target_updates` -/
def drainTargets : List (String × ℤ) → Finset String → PositionManager →
    Finset String × PositionManager
  | [], affected, pm => (affected, pm)
  | update :: rest, affected, pm =>
      drainTargets rest (insert update.1 affected)
        (processTargetUpdate update { pm with targetUpdatesQ := rest })

/-- Source: `position_manager.py`, `PositionManager._process_target_updates`. -/
def processTargetUpdates (pm : PositionManager) : Finset String × PositionManager :=
  drainTargets pm.targetUpdatesQ ∅ pm

/-- The symbols that an iteration of the loop reconciles.
Source: `position_manager.py`, `PositionManager.run`, `symbols_to_reconcile` -/
def symbolsToReconcile (pm : PositionManager) : Finset String :=
  (processTradeConfirmations pm).1 ∪ (processTargetUpdates (processTradeConfirmations pm).2).1

/-- The position manager with both queues drained.
Source: `position_manager.py`, `PositionManager.run` -/
def drained (pm : PositionManager) : PositionManager :=
  (processTargetUpdates (processTradeConfirmations pm).2).2

/-! ## The snapshot -/

/-- What the snapshot holds. The order in which the live orders are listed is left out.
Source: `position_manager.py`, `PositionManager.get_current_state_snapshot` -/
structure StateSnapshot where
  positions : Dict String ℤ
  targets : Dict String ℤ
  liveOrdersCountBySymbol : String → Option ℕ
  liveOrdersDetails : Multiset OrderDetails
  totalTradedBySymbol : Dict String ℤ

/-- Source: `position_manager.py`, `PositionManager.get_current_state_snapshot`. -/
def getCurrentStateSnapshot (pm : PositionManager) : StateSnapshot :=
  { positions := pm.positions
    targets := pm.targetPositions
    liveOrdersCountBySymbol := fun s => (pm.liveOrdersBySymbol.lookup s).map List.length
    liveOrdersDetails := pm.liveOrders.entries.map Sigma.snd
    totalTradedBySymbol := pm.totalTradedBySymbol }

/-! ## Reconciliation -/

/-- The signed quantity that is still open in a live order, as the working position counts it.
Source: `position_manager.py`, `PositionManager._calculate_working_position`, lines 129-132 -/
def openQuantity (order : OrderDetails) : ℤ :=
  if order.status.isTerminal then 0
  else if order.quantity - order.filledQuantity > 0 then
    (order.quantity - order.filledQuantity) * bsInt order.sideIsBuy
  else 0

/-- What an id of the list adds to the working position. -/
def PositionManager.openOf (pm : PositionManager) (clientOrdId : String) : ℤ :=
  match pm.liveOrders.lookup clientOrdId with
  | some order => openQuantity order
  | none => 0

/-- Source: `position_manager.py`, `PositionManager._calculate_working_position`. -/
def calculateWorkingPosition (pm : PositionManager) (symbol : String) : ℤ :=
  (pm.index symbol).foldl (fun workingPos clientOrdId => workingPos + pm.openOf clientOrdId)
    (pm.positions.getD symbol 0)

/-- A broker with a state of its own. Its methods run on the queue that its callback puts into,
and on that state.
Source: `broker_interface.py`, `class BrokerInterface` -/
structure Broker (β : Type) where
  cancelOrder : (clientOrderId : String) → Proc PyError (List TradeConfirmationMessage × β) Bool
  submitOrder : (clientOrderId symbol : String) → (quantity : ℤ) → (sideIsBuy : Bool) →
    (orderType : String) → (price : Option PyFloat) →
    Proc PyError (List TradeConfirmationMessage × β) (Option ℤ)

/-- The position manager and its broker. -/
structure World (β : Type) where
  pm : PositionManager
  broker : β

section reconcile

variable {β : Type} (B : Broker β)

/-- Call a method of the broker. -/
def callBroker {α : Type} (method : Proc PyError (List TradeConfirmationMessage × β) α) :
    Proc PyError (World β) α :=
  Proc.focus (fun w => (w.pm.tradeConfirmationsQ, w.broker))
    (fun t w => ⟨{ w.pm with tradeConfirmationsQ := t.1 }, t.2⟩) id method

/-- Change the position manager alone. -/
def modifyPm (f : PositionManager → PositionManager) : Proc PyError (World β) Unit :=
  Proc.modify fun w => { w with pm := f w.pm }

/-- An order that reconciliation asks to cancel: live, not being cancelled, and of the side it does
not want. -/
def opposes (buying : Bool) (order : OrderDetails) : Bool :=
  order.sideIsBuy != buying && !order.status.isTerminal && order.status != .PENDING_CANCEL

/-- The body of the loops that cancel the live orders of the other side.
Source: `position_manager.py`, `PositionManager._reconcile_positions`, lines 156-162, 180-186 -/
def cancelIfOpposing (buying : Bool) (clientOrdId : String) : Proc PyError (World β) Unit := do
  let w ← Proc.get
  match w.pm.liveOrders.lookup clientOrdId with
  | some order =>
      if opposes buying order then do
        let accepted ← callBroker (B.cancelOrder clientOrdId)
        if accepted then
          modifyPm (·.setLiveOrder clientOrdId { order with status := .PENDING_CANCEL })
  | none => pure ()

/-- Cancel the live orders of the other side, over a copy of the list.
Source: `position_manager.py`, `PositionManager._reconcile_positions`, lines 155-162, 179-186 -/
def cancelOpposing (buying : Bool) : List String → Proc PyError (World β) Unit
  | [] => pure ()
  | clientOrdId :: rest => do
      cancelIfOpposing B buying clientOrdId
      cancelOpposing buying rest

/-- The order that reconciliation creates. -/
def newOrder (newId symbol : String) (quantity : ℤ) (buying : Bool) : OrderDetails :=
  { clientOrderId := newId, brokerOrderId := none, symbol := symbol, quantity := quantity,
    sideIsBuy := buying, type := "MARKET", price := none, status := .PENDING_NEW,
    filledQuantity := 0 }

/-- Put an order into both containers. -/
def PositionManager.track (pm : PositionManager) (order : OrderDetails) : PositionManager :=
  let ids := pm.index order.symbol ++ [order.clientOrderId]
  { pm with liveOrders := pm.liveOrders.insert order.clientOrderId order,
            liveOrdersBySymbol := pm.liveOrdersBySymbol.insert order.symbol ids }

/-- Track a new order and submit it.
Source: `position_manager.py`, `PositionManager._reconcile_positions`, lines 164-174, 188-197 -/
def placeNew (symbol newId : String) (quantity : ℤ) (buying : Bool) :
    Proc PyError (World β) Unit := do
  modifyPm (·.track (newOrder newId symbol quantity buying))
  let bOrdId ← callBroker (B.submitOrder newId symbol quantity buying "MARKET" none)
  if bOrdId.isSome then do
    let w ← Proc.get
    match w.pm.liveOrders.lookup newId with
    | some order => modifyPm (·.setLiveOrder newId { order with brokerOrderId := bOrdId })
    | none => Proc.raise (.keyError newId)

/-- The body of the loop over symbols; `newId` is what `_generate_client_order_id` answers.
Source: `position_manager.py`, `PositionManager._reconcile_positions`, lines 142-197 -/
def reconcileSymbol (symbol newId : String) : Proc PyError (World β) Unit := do
  let w ← Proc.get
  let targetPos := w.pm.targetPositions.getD symbol 0
  let workingPos := calculateWorkingPosition w.pm symbol
  let delta := targetPos - workingPos
  if delta = 0 then pure ()
  else if delta > 0 then do
    cancelOpposing B true (w.pm.index symbol)
    placeNew B symbol newId |delta| true
  else do
    cancelOpposing B false (w.pm.index symbol)
    placeNew B symbol newId |delta| false

/-- Reconcile the symbols in the order in which the set is iterated, each with the id that
`_generate_client_order_id` answers for it.
Source: `position_manager.py`, `PositionManager._reconcile_positions` -/
def reconcilePositions : List (String × String) → Proc PyError (World β) Unit
  | [] => pure ()
  | (symbol, newId) :: rest => do
      reconcileSymbol B symbol newId
      reconcilePositions rest

end reconcile

end FlowManager.Position
