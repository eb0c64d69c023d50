import FlowManager.Broker.Interface

/-!
# The simulated broker, as the Python classes compute it

`SimulatedBroker` (`simulated_broker.py`) runs a thread for each order. The thread fills its order
in random steps until it is filled or being cancelled, decides how it has ended, takes it out of
`live_orders` and passes one confirmation on.

* `orders` are the order objects made so far, each with the place where its thread is. The
  generator of broker ids counts them, so an order stands at its own id.
* `SimEvent` is one atomic step of any thread but the one that looks on: an order thread, a timer,
  or a thread that calls the broker. A call holds the broker's lock throughout. What `randint`
  answers is a part of the step.
* A method runs on the queue that the callback puts into, and on the broker. `confirmations` is
  what has been passed to `trade_confirmation_callback` so far.

The callback is given to the constructor, so the branches for a missing one are left out. So are
logging and sleeping.
-/

namespace FlowManager.Broker.Simulated

open FlowManager.Lib FlowManager.Broker

/-! ## An order and its thread -/

/-- Where the thread of an order is: the step that it takes next.
Source: `simulated_broker.py`, `SimulatedOrder.execute_order_thread` -/
inductive Place where
  /-- The test of the loop. -/
  | testing
  /-- The body of the loop. -/
  | filling
  /-- Behind the loop, the choice of the final status. -/
  | finishing
  /-- The final status is written, and the confirmation made. -/
  | writing (finalStatus : Status)
  /-- In the broker's callback, the order is taken out of `live_orders`. -/
  | removing (confirmation : TradeConfirmationMessage)
  /-- The confirmation is passed on. -/
  | queueing (confirmation : TradeConfirmationMessage)
  | finished
  deriving DecidableEq

/-- Source: `simulated_broker.py`, `class SimulatedOrder`. -/
structure SimulatedOrder where
  brokerOrderId : ℕ
  clientOrderId : String
  symbol : String
  amount : ℤ
  buySell : Bool
  amountFilled : ℤ
  cancelling : Bool
  status : Status
  thread : Place
  deriving DecidableEq

namespace SimulatedOrder

variable (o : SimulatedOrder)

/-- Source: `simulated_broker.py`, `SimulatedOrder.__init__`. -/
def init (brokerOrderId : ℕ) (clientOrderId symbol : String) (amount : ℤ) (buySell : Bool) :
    SimulatedOrder :=
  { brokerOrderId := brokerOrderId, clientOrderId := clientOrderId, symbol := symbol,
    amount := amount, buySell := buySell, amountFilled := 0, cancelling := false,
    status := .WORKING, thread := .testing }

/-- Source: `simulated_broker.py`, `SimulatedOrder.cancel_order`. -/
def cancelOrder : SimulatedOrder := { o with cancelling := true, status := .PENDING_CANCEL }

/-- The confirmation of an order that has ended.
Source: `simulated_broker.py`, `SimulatedOrder.execute_order_thread`, lines 51-59 -/
def confirmation (finalStatus : Status) : TradeConfirmationMessage :=
  { orderId := o.brokerOrderId, clientOrderId := o.clientOrderId, symbol := o.symbol,
    filledQuantity := o.amountFilled, sideIsBuy := o.buySell, price := .finite 100,
    status := finalStatus }

/-- Python's `randint(1, hi)`: every value of the range is the answer to some draw. -/
def randint (hi : ℤ) (draw : ℕ) : ℤ := 1 + draw % hi

/-- What a pass of the loop fills.
Source: `simulated_broker.py`, `SimulatedOrder.execute_order_thread`, line 42 -/
def filledThisStep (draw : ℕ) : ℤ :=
  min (randint (max 1 (o.amount / 10)) draw) (o.amount - o.amountFilled)

/-- One step of the thread, as far as it concerns its own order.
Source: `simulated_broker.py`, `SimulatedOrder.execute_order_thread` -/
def move (draw : ℕ) : SimulatedOrder :=
  match o.thread with
  | .testing =>
      { o with thread :=
          if !o.cancelling ∧ o.amountFilled < o.amount then .filling else .finishing }
  | .filling => { o with amountFilled := o.amountFilled + o.filledThisStep draw, thread := .testing }
  | .finishing => { o with thread := .writing (if o.cancelling then .CANCELLED else .FILLED) }
  | .writing finalStatus =>
      { o with status := finalStatus, thread := .removing (o.confirmation finalStatus) }
  | .removing confirmation => { o with thread := .queueing confirmation }
  | .queueing _ => { o with thread := .finished }
  | .finished => o

end SimulatedOrder

/-! ## The broker -/

/-- The attributes of a `SimulatedBroker`, the rejections that its timers hold back, and what it
has passed to the callback.
Source: `simulated_broker.py`, `SimulatedBroker.__init__` -/
structure SimulatedBroker where
  orders : List SimulatedOrder
  liveOrders : Dict String ℕ
  timers : List TradeConfirmationMessage
  confirmations : List TradeConfirmationMessage

/-- Source: `simulated_broker.py`, `SimulatedBroker.__init__`. -/
def SimulatedBroker.init : SimulatedBroker := ⟨[], ∅, [], []⟩

/-- The queue of the position manager, and the broker. -/
abbrev Shared : Type := List TradeConfirmationMessage × SimulatedBroker

/-- `self.trade_confirmation_callback(confirmation)`. -/
def callback (confirmation : TradeConfirmationMessage) (t : Shared) : Shared :=
  (t.1 ++ [confirmation], { t.2 with confirmations := t.2.confirmations ++ [confirmation] })

/-- Write to the order object at a place. -/
def SimulatedBroker.write (b : SimulatedBroker) (i : ℕ) (f : SimulatedOrder → SimulatedOrder) :
    SimulatedBroker :=
  { b with orders := b.orders.modify i f }

/-- What a duplicate id is answered.
Source: `simulated_broker.py`, `SimulatedBroker.submit_order`, `reject_msg` -/
def rejectMsg (clientOrderId symbol : String) (sideIsBuy : Bool) : TradeConfirmationMessage :=
  { orderId := -1, clientOrderId := clientOrderId, symbol := symbol, filledQuantity := 0,
    sideIsBuy := sideIsBuy, price := .finite 0, status := .REJECTED }

/-- Make the order, and start its thread.
Source: `simulated_broker.py`, `SimulatedBroker.submit_order`, lines 114-128 -/
def SimulatedBroker.accept (b : SimulatedBroker) (clientOrderId symbol : String) (quantity : ℤ)
    (sideIsBuy : Bool) : SimulatedBroker :=
  let brokerOrderId := b.orders.length
  { b with
    orders := b.orders ++ [.init brokerOrderId clientOrderId symbol quantity sideIsBuy],
    liveOrders := b.liveOrders.insert clientOrderId brokerOrderId }

/-- Source: `simulated_broker.py`, `SimulatedBroker.submit_order`. -/
def submitOrder (clientOrderId symbol : String) (quantity : ℤ) (sideIsBuy : Bool)
    (_orderType : String) (_price : Option PyFloat) : Proc PyError Shared (Option ℤ) := do
  let t ← Proc.get
  match t.2.liveOrders.lookup clientOrderId with
  | some _ => do
      let message := rejectMsg clientOrderId symbol sideIsBuy
      Proc.modify fun t => (t.1, { t.2 with timers := t.2.timers ++ [message] })
      pure none
  | none => do
      Proc.modify fun t => (t.1, t.2.accept clientOrderId symbol quantity sideIsBuy)
      pure (some t.2.orders.length)

/-- Source: `simulated_broker.py`, `SimulatedBroker.cancel_order`. -/
def cancelOrder (clientOrderId : String) : Proc PyError Shared Bool := do
  let t ← Proc.get
  match t.2.liveOrders.lookup clientOrderId with
  | some i => do
      Proc.modify fun t => (t.1, t.2.write i SimulatedOrder.cancelOrder)
      pure true
  | none => pure false

/-- The copy of an order that is handed out.
Source: `simulated_broker.py`, `SimulatedBroker.get_order_details`, lines 152-162 -/
def SimulatedOrder.details (o : SimulatedOrder) : OrderDetails :=
  { clientOrderId := o.clientOrderId, brokerOrderId := some o.brokerOrderId, symbol := o.symbol,
    quantity := o.amount, sideIsBuy := o.buySell, type := "MARKET", price := none,
    status := o.status, filledQuantity := o.amountFilled }

/-- Source: `simulated_broker.py`, `SimulatedBroker.get_order_details`. -/
def getOrderDetails (clientOrderId : String) (b : SimulatedBroker) : Option OrderDetails := do
  let i ← b.liveOrders.lookup clientOrderId
  let simOrder ← b.orders[i]?
  return simOrder.details

/-- Cancel every order of `live_orders`.
Source: `simulated_broker.py`, `SimulatedBroker.stop` -/
def SimulatedBroker.stop (b : SimulatedBroker) : SimulatedBroker :=
  { b with
    orders := b.orders.map fun o =>
      if b.liveOrders.lookup o.clientOrderId = some o.brokerOrderId then o.cancelOrder else o }

/-! ## Steps of other threads -/

/-- One step of the thread of an order.
Source: `simulated_broker.py`, `SimulatedOrder.execute_order_thread` and
`SimulatedBroker._internal_sim_trade_callback` -/
def threadStep (i draw : ℕ) (t : Shared) : Shared :=
  match t.2.orders[i]? with
  | none => t
  | some o =>
      let b := t.2.write i (·.move draw)
      match o.thread with
      | .removing confirmation =>
          (t.1, { b with liveOrders := b.liveOrders.erase confirmation.clientOrderId })
      | .queueing confirmation => callback confirmation (t.1, b)
      | _ => (t.1, b)

/-- A timer ends, and its thread passes the rejection on. -/
def timerStep (k : ℕ) (t : Shared) : Shared :=
  match t.2.timers[k]? with
  | none => t
  | some message => callback message (t.1, { t.2 with timers := t.2.timers.eraseIdx k })

/-- A step of a thread. -/
inductive SimEvent where
  | thread (i draw : ℕ)
  | timer (k : ℕ)
  | submitOrder (clientOrderId symbol : String) (quantity : ℤ) (sideIsBuy : Bool)
  | cancelOrder (clientOrderId : String)
  | stop

/-- What a step does. -/
def SimEvent.apply (e : SimEvent) (t : Shared) : Shared :=
  match e with
  | .thread i draw => threadStep i draw t
  | .timer k => timerStep k t
  | .submitOrder clientOrderId symbol quantity sideIsBuy =>
      ((Simulated.submitOrder clientOrderId symbol quantity sideIsBuy "MARKET" none).run t).state
  | .cancelOrder clientOrderId => ((Simulated.cancelOrder clientOrderId).run t).state
  | .stop => (t.1, t.2.stop)

/-- Steps of other threads, one after the other. -/
def applyEvents (es : List SimEvent) (t : Shared) : Shared := es.foldl (fun t e => e.apply t) t

end FlowManager.Broker.Simulated
