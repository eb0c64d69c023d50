import FlowManager.Broker.Interface
import FlowManager.Server.Messages

/-!
# The broker for the C++ order book, as the Python class computes it

`CppOrderBookBroker` (`cpp_ob_broker.py`): a counter of broker ids, two maps between client and
broker ids, the details of the tracked orders, and a lock around all four.

* `threading.Lock` is not reentrant: `Proc.withLock` on a held lock is the stuck outcome.
* `_send_request_to_ob` is a parameter: a function of the request and of the state of whatever is
  at the other end, which answers a reply or `None`.
* `confirmations` is what has been passed to `trade_confirmation_callback` so far.
* An `OrderDetails` object is reached through `broker_id_to_order_details` and through local
  variables of one call; a write to an object that the map holds is a write to the map, and nothing
  reads an object after it has been taken out of the map.

Logging is left out. `str.upper` is the one on ASCII letters, which decides whether the result is
`"GTC"`.
-/

namespace FlowManager.Broker

open FlowManager.Lib FlowManager.Server

/-- The attributes of a `CppOrderBookBroker`, what it has passed to the callback, and the state `ε`
of the other end of its socket.
Source: `cpp_ob_broker.py`, `CppOrderBookBroker.__init__` -/
structure CppOrderBookBroker (ε : Type) where
  brokerOrderIdCounter : ℤ
  lockHeld : Bool
  clientToBrokerIdMap : Dict String ℤ
  brokerToClientIdMap : Dict ℤ String
  brokerIdToOrderDetails : Dict ℤ OrderDetails
  confirmations : List TradeConfirmationMessage
  orderBook : ε

/-- Source: `cpp_ob_broker.py`, `CppOrderBookBroker.__init__`. -/
def CppOrderBookBroker.init {ε : Type} (orderBook : ε) : CppOrderBookBroker ε :=
  ⟨0, false, ∅, ∅, ∅, [], orderBook⟩

/-- A method of the broker. -/
abbrev BrokerProc (ε : Type) : Type → Type := Proc PyError (CppOrderBookBroker ε)

section broker

variable {ε : Type}

/-- `self._lock`. -/
def brokerLock : Proc.LockField (CppOrderBookBroker ε) where
  held s := s.lockHeld
  setHeld b s := { s with lockHeld := b }
  held_setHeld _ _ := rfl

/-- Write the details of an order: a new entry, or the object of the entry changed in place. -/
def CppOrderBookBroker.setDetails (s : CppOrderBookBroker ε) (brokerOrdId : ℤ)
    (details : OrderDetails) : CppOrderBookBroker ε :=
  { s with brokerIdToOrderDetails := s.brokerIdToOrderDetails.insert brokerOrdId details }

/-- Pass a confirmation on. -/
def CppOrderBookBroker.confirm (s : CppOrderBookBroker ε)
    (confirmation : TradeConfirmationMessage) : CppOrderBookBroker ε :=
  { s with confirmations := s.confirmations ++ [confirmation] }

/-- `self.trade_confirmation_callback(confirmation)`. -/
def callback (confirmation : TradeConfirmationMessage) : BrokerProc ε Unit :=
  Proc.modify (·.confirm confirmation)

/-- Source: `cpp_ob_broker.py`, `CppOrderBookBroker._get_next_broker_id`. -/
def getNextBrokerId : BrokerProc ε ℤ :=
  Proc.withLock brokerLock do
    Proc.modify fun s => { s with brokerOrderIdCounter := s.brokerOrderIdCounter + 1 }
    let s ← Proc.get
    pure s.brokerOrderIdCounter

/-- Source: `cpp_ob_broker.py`, `CppOrderBookBroker._dispatch_rejection`. -/
def dispatchRejection (clientOrderId symbol : String) (sideIsBuy : Bool) : BrokerProc ε Unit :=
  callback
    { orderId := -1, clientOrderId := clientOrderId, symbol := symbol, filledQuantity := 0,
      sideIsBuy := sideIsBuy, price := .finite 0, status := .REJECTED }

/-- Take an order out of the three maps.
Source: `cpp_ob_broker.py`, `CppOrderBookBroker._cleanup_order_maps`, lines 287-292 -/
def CppOrderBookBroker.forget (s : CppOrderBookBroker ε) (clientOrderId : String)
    (brokerOrderId : ℤ) : CppOrderBookBroker ε :=
  { s with clientToBrokerIdMap := s.clientToBrokerIdMap.erase clientOrderId,
           brokerToClientIdMap := s.brokerToClientIdMap.erase brokerOrderId,
           brokerIdToOrderDetails := s.brokerIdToOrderDetails.erase brokerOrderId }

/-- Source: `cpp_ob_broker.py`, `CppOrderBookBroker._cleanup_order_maps`. -/
def cleanupOrderMaps (clientOrderId : String) (brokerOrderId : ℤ) : BrokerProc ε Unit :=
  Proc.withLock brokerLock (Proc.modify fun s => s.forget clientOrderId brokerOrderId)

/-- Python's `int` on a `float`: truncation, which raises on the values that are not finite. -/
def pyInt : PyFloat → Except PyError ℤ
  | .finite value => .ok (if 0 ≤ value then value.floor else value.ceil)
  | .infinite _ => .error .overflowError
  | .nan => .error .valueError

/-- `str.upper`. -/
def pyUpper (s : String) : String := String.ofList (s.toList.map Char.toUpper)

/-- Whether a string is true: it is not empty. -/
def pyTruthy (s : String) : Bool := s ≠ ""

/-! ## submit_order -/

/-- Source: `cpp_ob_broker.py`, `CppOrderBookBroker.submit_order`, `request_msg`. -/
def addOrderRequest (clientOrderId : String) (brokerOrdId : ℤ) (symbol : String)
    (sideIsBuy : Bool) (price quantity : ℤ) (orderTypeStr : String) : Json :=
  .object [
    ("command", .string "ADD_ORDER"),
    ("client_order_id", .string clientOrderId),
    ("broker_order_id", .integer brokerOrdId),
    ("symbol", .string symbol),
    ("side", .string (if sideIsBuy then "Buy" else "Sell")),
    ("price", .integer price),
    ("quantity", .integer quantity),
    ("type", .string (if pyUpper orderTypeStr = "GTC" then "GoodTillCancel" else "FillAndKill"))]

/-- Write the new order into the three maps.
Source: `cpp_ob_broker.py`, `CppOrderBookBroker.submit_order`, lines 113-122 -/
def storeOrder (brokerOrdId : ℤ) (details : OrderDetails) : BrokerProc ε Unit :=
  Proc.withLock brokerLock (Proc.modify fun s =>
    { s with
      clientToBrokerIdMap := s.clientToBrokerIdMap.insert details.clientOrderId brokerOrdId,
      brokerToClientIdMap := s.brokerToClientIdMap.insert brokerOrdId details.clientOrderId,
      brokerIdToOrderDetails := s.brokerIdToOrderDetails.insert brokerOrdId details })

/-- The details and the status after one more fill.
Source: `cpp_ob_broker.py`, `CppOrderBookBroker.submit_order`, lines 165-175 -/
def afterFill (order : OrderDetails) (tradedQty : ℤ) : OrderDetails × Status :=
  let order := { order with filledQuantity := order.filledQuantity + tradedQty }
  if order.filledQuantity ≥ order.quantity then ({ order with status := .FILLED }, .FILLED)
  else if order.status ≠ .FILLED then ({ order with status := .WORKING }, .PARTIALLY_FILLED)
  else (order, .PARTIALLY_FILLED)

/-- No fill makes an order `REJECTED`. -/
theorem afterFill_ne_rejected (order : OrderDetails) (tradedQty : ℤ) :
    (afterFill order tradedQty).2 ≠ .REJECTED := by
  unfold afterFill
  dsimp only
  split_ifs <;> simp

/-- The body of the loop over the trades of the reply.
Source: `cpp_ob_broker.py`, `CppOrderBookBroker.submit_order`, lines 151-191 -/
def processFill (fill : FillInfo) : BrokerProc ε Unit := do
  let (originalClientId, originalOrder) ← Proc.withLock brokerLock do
    let s ← Proc.get
    pure (s.brokerToClientIdMap.lookup fill.orderIdFilled,
      s.brokerIdToOrderDetails.lookup fill.orderIdFilled)
  match originalClientId, originalOrder with
  | some originalClientId, some originalOrder =>
      if pyTruthy originalClientId ∧ fill.tradedQuantity > 0 then do
        let (order, confStatus) := afterFill originalOrder fill.tradedQuantity
        Proc.modify (·.setDetails fill.orderIdFilled order)
        callback
          { orderId := fill.orderIdFilled, clientOrderId := originalClientId,
            symbol := order.symbol, filledQuantity := fill.tradedQuantity,
            sideIsBuy := order.sideIsBuy, price := .finite fill.price, status := confStatus }
        if confStatus = .FILLED then cleanupOrderMaps originalClientId fill.orderIdFilled
  | _, _ => pure ()

/-- The loop over the trades of the reply.
Source: `cpp_ob_broker.py`, `CppOrderBookBroker.submit_order`, lines 151-191 -/
def processFills : List FillInfo → BrokerProc ε Unit
  | [] => pure ()
  | fill :: fills => do
      processFill fill
      processFills fills

/-- What the final status in the book does to the new order. Unlike after a fill, the maps are
cleaned up here with the lock held.
Source: `cpp_ob_broker.py`, `CppOrderBookBroker.submit_order`, lines 196-228 -/
def handleFinalStatus (clientOrderId symbol : String) (sideIsBuy : Bool) (price : PyFloat)
    (brokerOrdId : ℤ) (finalStatus : Option BookStatus) : BrokerProc ε Unit :=
  Proc.withLock brokerLock do
    let s ← Proc.get
    match s.brokerIdToOrderDetails.lookup brokerOrdId with
    | none => pure ()
    | some current =>
        if finalStatus = some .FILLED then do
          if current.status ≠ .FILLED then do
            Proc.modify (·.setDetails brokerOrdId { current with status := .FILLED })
            cleanupOrderMaps clientOrderId brokerOrdId
        else if finalStatus = some .REJECTED_BY_BOOK then do
          callback
            { orderId := brokerOrdId, clientOrderId := clientOrderId, symbol := symbol,
              filledQuantity := 0, sideIsBuy := sideIsBuy, price := price, status := .CANCELLED }
          Proc.modify (·.setDetails brokerOrdId { current with status := .CANCELLED })
          cleanupOrderMaps clientOrderId brokerOrdId
        else if current.status = .ACKNOWLEDGED then
          Proc.modify (·.setDetails brokerOrdId { current with status := .WORKING })

section send

variable (sendRequestToOb : Json → ε → Option Reply × ε)

/-- Send a request and wait for the reply.
Source: `cpp_ob_broker.py`, `CppOrderBookBroker._send_request_to_ob` -/
def send (request : Json) : BrokerProc ε (Option Reply) := do
  let s ← Proc.get
  Proc.modify fun s => { s with orderBook := (sendRequestToOb request s.orderBook).2 }
  pure (sendRequestToOb request s.orderBook).1

/-- Use a value that Python computes, or raise what it raises. -/
def ofPy {α : Type} : Except PyError α → BrokerProc ε α
  | .ok a => pure a
  | .error e => Proc.raise e

/-- The details that `submit_order` stores for a new order.
Source: `cpp_ob_broker.py`, `CppOrderBookBroker.submit_order`, lines 114-118 -/
def newDetails (clientOrderId symbol : String) (quantity : ℤ) (sideIsBuy : Bool)
    (orderTypeStr : String) (price : PyFloat) (brokerOrdId : ℤ) : OrderDetails :=
  { clientOrderId := clientOrderId, brokerOrderId := some brokerOrdId, symbol := symbol,
    quantity := quantity, sideIsBuy := sideIsBuy, type := pyUpper orderTypeStr,
    price := some price, status := .PENDING_ACK, filledQuantity := 0 }

/-- Source: `cpp_ob_broker.py`, `CppOrderBookBroker.submit_order`. -/
def submitOrder (clientOrderId symbol : String) (quantity : ℤ) (sideIsBuy : Bool)
    (orderTypeStr : String) (price : Option PyFloat) : BrokerProc ε (Option ℤ) := do
  match price with
  | none => do
      dispatchRejection clientOrderId symbol sideIsBuy
      pure none
  | some price => do
      let brokerOrdId ← getNextBrokerId
      let details := newDetails clientOrderId symbol quantity sideIsBuy orderTypeStr price
        brokerOrdId
      storeOrder brokerOrdId details
      let intPrice ← ofPy (pyInt price)
      let response ← send sendRequestToOb (addOrderRequest clientOrderId brokerOrdId symbol
        sideIsBuy intPrice quantity orderTypeStr)
      match response with
      | none => do
          dispatchRejection clientOrderId symbol sideIsBuy
          cleanupOrderMaps clientOrderId brokerOrdId
          pure none
      | some response =>
          if response.status ≠ some .OK then do
            dispatchRejection clientOrderId symbol sideIsBuy
            cleanupOrderMaps clientOrderId brokerOrdId
            pure none
          else do
            Proc.modify (·.setDetails brokerOrdId { details with status := .ACKNOWLEDGED })
            processFills (response.trades.getD [])
            handleFinalStatus clientOrderId symbol sideIsBuy price brokerOrdId
              response.orderFinalStatusInBook
            pure (some brokerOrdId)

/-! ## cancel_order -/

/-- Source: `cpp_ob_broker.py`, `CppOrderBookBroker.cancel_order`, `request_msg`. -/
def cancelOrderRequest (brokerOrdId : ℤ) : Json :=
  .object [("command", .string "CANCEL_ORDER"), ("broker_order_id", .integer brokerOrdId)]

/-- The order of a client id, if it is tracked. Broker ids start at 1, and 0 counts as missing.
Source: `cpp_ob_broker.py`, `CppOrderBookBroker.cancel_order`, lines 236-243 -/
def CppOrderBookBroker.tracked (s : CppOrderBookBroker ε) (clientOrderId : String) :
    Option (ℤ × OrderDetails) := do
  let brokerOrdId ← s.clientToBrokerIdMap.lookup clientOrderId
  if brokerOrdId = 0 then none
  else do
    let details ← s.brokerIdToOrderDetails.lookup brokerOrdId
    pure (brokerOrdId, details)

/-- The statuses in which an order is not cancelled. -/
def Status.isDone (status : Status) : Bool :=
  status ∈ [.FILLED, .CANCELLED, .REJECTED, .PENDING_CANCEL]

/-- Source: `cpp_ob_broker.py`, `CppOrderBookBroker.cancel_order`. -/
def cancelOrder (clientOrderId : String) : BrokerProc ε Bool := do
  let tracked ← Proc.withLock brokerLock do
    let s ← Proc.get
    pure (s.tracked clientOrderId)
  match tracked with
  | none => pure false
  | some (brokerOrdId, details) =>
      if details.status.isDone then pure false
      else do
        Proc.modify (·.setDetails brokerOrdId { details with status := .PENDING_CANCEL })
        let response ← send sendRequestToOb (cancelOrderRequest brokerOrdId)
        if (response.bind fun r => r.status) = some .OK ∧
            (response.bind fun r => r.finalStatus) = some .CANCELLED then do
          Proc.modify (·.setDetails brokerOrdId { details with status := .CANCELLED })
          callback
            { orderId := brokerOrdId, clientOrderId := clientOrderId, symbol := details.symbol,
              filledQuantity := 0, sideIsBuy := details.sideIsBuy,
              price := details.price.getD (.finite 0), status := .CANCELLED }
          cleanupOrderMaps clientOrderId brokerOrdId
          pure true
        else do
          Proc.modify (·.setDetails brokerOrdId { details with status := .WORKING })
          pure false

/-! ## get_market_data_snapshot -/

/-- Source: `cpp_ob_broker.py`, `CppOrderBookBroker.get_market_data_snapshot`, `request_msg`. -/
def getBookInfoRequest (symbol : String) : Json :=
  .object [("command", .string "GET_BOOK_INFO"), ("symbol", .string symbol)]

/-- Source: `cpp_ob_broker.py`, `CppOrderBookBroker.get_market_data_snapshot`. -/
def getMarketDataSnapshot (symbol : String) :
    BrokerProc ε (Option (List LevelReply × List LevelReply)) := do
  let response ← send sendRequestToOb (getBookInfoRequest symbol)
  match response with
  | none => pure none
  | some response =>
      if response.status = some .OK then
        pure (some (response.bids.getD [], response.asks.getD []))
      else pure none

end send

end broker

end FlowManager.Broker
