import FlowManager.Book.LevelInfos
import FlowManager.Server.Messages

/-!
# The order book server

The request loop of `order_book_server.cpp`, from a parsed request to the reply. The reply is
written field by field into `res_json`, so an exception leaves what was written before it; the
handlers at the end of the `try` block overwrite `status` and `message`. The reading of `command`
and the log line come before the `try` block, and what they throw leaves `main`.

Line 118 assigns a variable that is declared only later, in another block. It is read as having
no effect.

`ServerState.bookings` is a history variable: what every
`AddOrder` that handed an order back was asked for and answered. Nothing reads it.
-/

namespace FlowManager.Server

open FlowManager.Lib FlowManager.Book

/-- An `AddOrder` that handed the order back: whose order it is, its terms and the trades. -/
structure Booking where
  clientOrderId : String
  terms : OrderTerms
  trades : Trades
  deriving DecidableEq

/-- The state of the server between two requests. -/
structure ServerState where
  store : Store
  bookings : List Booking

/-- The server as it starts. -/
def ServerState.init : ServerState := ⟨Store.empty, []⟩

/-- The state while a request is handled. -/
structure Session where
  server : ServerState
  resJson : Reply

/-- An exception of the request handler. -/
inductive Exception where
  /-- `json::exception`. -/
  | json (what : String)
  /-- Another `std::exception`. -/
  | std (what : String)
  deriving DecidableEq, Repr

/-- A procedure of the request handler. -/
abbrev ServerProc : Type → Type := Proc Exception Session

section handler

variable (L : Libraries)

/-- The text of an exception of the book.
Source: `order.cpp`, `Order::Fill` -/
def what : Fault → String
  | .logicError orderId => "Order (" ++ toString orderId ++
      ") cannot be filled for more than its remaining quantity."
  | .outOfRange => L.containerOutOfRange

/-- Call the order book. -/
def callBook {α : Type} (procedure : BookProc α) : ServerProc α :=
  Proc.focus (fun s => s.server.store) (fun t s => { s with server.store := t })
    (fun fault => .std (what L fault)) procedure

/-- Use the result of a function of the JSON library. -/
def ofJson {α : Type} : Except String α → ServerProc α
  | .ok a => pure a
  | .error text => Proc.raise (.json text)

/-- Write fields of `res_json`. -/
def setReply (f : Reply → Reply) : ServerProc Unit :=
  Proc.modify fun s => { s with resJson := f s.resJson }

/-- Write a booking down. -/
def record (booking : Booking) : ServerProc Unit :=
  Proc.modify fun s => { s with server.bookings := s.server.bookings ++ [booking] }

/-! ## The commands -/

/-- Source: `order_book_server.cpp`, lines 124-136. -/
def fillInfo (side : Side) (leg : TradeInfo) : FillInfo :=
  ⟨leg.orderId.toNat, leg.price.toNat, leg.tradedQuantity.toNat, side⟩

/-- Source: `order_book_server.cpp`, lines 123-137. -/
def fillInfos (trades : Trades) : List FillInfo :=
  trades.flatMap fun trade => [fillInfo .Buy trade.bidTrade, fillInfo .Sell trade.askTrade]

/-- Source: `order_book_server.cpp`, lines 139-150. -/
def finalStatusInBook : Option Order → BookStatus
  | some submitted =>
      if submitted.isFilled then .FILLED
      else if submitted.orderType = .FillAndKill then .REJECTED_BY_BOOK
      else .WORKING
  | none => .REJECTED_BY_BOOK

/-- The object behind a pointer that may be null. -/
def derefOption : Option OrderPointer → BookProc (Option Order)
  | some p => do
      let o ← deref p
      pure (some o)
  | none => pure none

/-- The side that the field `side` names: `"Buy"`, or else a sell. -/
def sideOf (name : String) : Side := if name = "Buy" then .Buy else .Sell

/-- The type that the field `type` names: `"GoodTillCancel"`, or else fill-and-kill. -/
def orderTypeOf (name : String) : Book.OrderType :=
  if name = "GoodTillCancel" then .GoodTillCancel else .FillAndKill

/-- The fields that `ADD_ORDER` requires. -/
def requiredFields : List String :=
  ["side", "price", "quantity", "broker_order_id", "type", "client_order_id"]

/-- `at(key).get<T>()`. -/
def fieldAt {α : Type} (get : Json → Except String α) (req : Json) (key : String) : ServerProc α := do
  let field ← ofJson (L.at_ req key)
  ofJson (get field)

/-- The order that the request describes.
Source: `order_book_server.cpp`, lines 106-112 -/
def decodeOrder (req : Json) : ServerProc Order := do
  let side ← fieldAt L L.getString req "side"
  let price ← fieldAt L L.getUInt32 req "price"
  let quantity ← fieldAt L L.getUInt32 req "quantity"
  let brokerOrderId ← fieldAt L L.getUInt64 req "broker_order_id"
  let type ← fieldAt L L.getString req "type"
  pure (Order.new (orderTypeOf type) brokerOrderId (sideOf side) price quantity)

/-- Source: `order_book_server.cpp`, lines 115-152. -/
def writeAnswer (trades : Trades) (submitted : Option OrderPointer) : ServerProc Unit :=
  if submitted = none ∧ trades = [] then
    setReply fun r => { r with
      status := some .ERROR,
      message := some "Order rejected by book (e.g., duplicate Order ID or invalid params)." }
  else do
    let submittedOrder ← callBook L (derefOption submitted)
    setReply fun r => { r with
      status := some .OK,
      trades := some (fillInfos trades),
      orderFinalStatusInBook := some (finalStatusInBook submittedOrder) }

/-- Source: `order_book_server.cpp`, lines 154-155. -/
def echoIds (req : Json) : ServerProc Unit := do
  let clientOrderId ← ofJson (L.value L.getString req "client_order_id" "N/A")
  setReply fun r => { r with clientOrderId := some clientOrderId }
  let brokerOrderId ← ofJson (L.value L.getInt req "broker_order_id" 0)
  setReply fun r => { r with brokerOrderId := some brokerOrderId }

/-- Write down what `AddOrder` has done with an order that it handed back. -/
def recordBooking (clientOrderId : String) (order : Order) (trades : Trades)
    (submitted : Option OrderPointer) : ServerProc Unit :=
  if submitted.isSome then record ⟨clientOrderId, order.toOrderTerms, trades⟩ else pure ()

/-- Source: `order_book_server.cpp`, lines 98-155; `clientOrderId` is the id that was logged. -/
def addOrderCommand (req : Json) (clientOrderId : String) : ServerProc Unit :=
  if requiredFields.all req.contains = false then
    Proc.raise (.std "Missing one or more required fields for ADD_ORDER.")
  else do
    let order ← decodeOrder L req
    let orderPtr ← callBook L (makeShared order)
    let (trades, submitted) ← callBook L (Book.addOrder orderPtr)
    recordBooking clientOrderId order trades submitted
    writeAnswer L trades submitted
    echoIds L req

/-- Source: `order_book_server.cpp`, lines 158-172. -/
def cancelOrderCommand (req : Json) : ServerProc Unit :=
  if req.contains "broker_order_id" = false then
    Proc.raise (.std "Missing 'broker_order_id' for CANCEL_ORDER.")
  else do
    let orderIdToCancel ← fieldAt L L.getUInt64 req "broker_order_id"
    let success ← callBook L (Book.cancelOrder orderIdToCancel)
    setReply fun r =>
      if success then { r with status := some .OK, finalStatus := some .CANCELLED }
      else { r with
        status := some .ERROR,
        message := some "Cancel failed (e.g. order not found or already completed)",
        finalStatus := some .CANCEL_REJECTED }
    setReply fun r => { r with brokerOrderId := some orderIdToCancel.toNat }

/-- Source: `order_book_server.cpp`, line 179. -/
def levelReply (level : LevelInfo) : LevelReply := ⟨level.price.toNat, level.quantity.toNat⟩

/-- Source: `order_book_server.cpp`, lines 174-184. -/
def getBookInfoCommand : ServerProc Unit := do
  let infos ← callBook L getOrderInfos
  setReply fun r => { r with
    status := some .OK,
    bids := some (infos.bids.map levelReply),
    asks := some (infos.asks.map levelReply) }

/-- Source: `order_book_server.cpp`, lines 97-192. -/
def dispatch (req : Json) (command clientOrderId : String) : ServerProc Unit :=
  if command = "ADD_ORDER" then addOrderCommand L req clientOrderId
  else if command = "CANCEL_ORDER" then cancelOrderCommand L req
  else if command = "GET_BOOK_INFO" then getBookInfoCommand L
  else if command = "PING" then
    setReply fun r => { r with status := some .OK, reply := some "PONG" }
  else
    setReply fun r => { r with
      status := some .ERROR,
      message := some ("Unknown command: " ++ command) }

/-- Source: `order_book_server.cpp`, lines 193-201. -/
def catchException : Exception → ServerProc Unit
  | .json text => setReply fun r => { r with
      status := some .ERROR,
      message := some ("Invalid or missing field in JSON request: " ++ text) }
  | .std text => setReply fun r => { r with
      status := some .ERROR,
      message := some ("Internal server error: " ++ text) }

/-- The log line of a request, before the `try` block: what it reads may throw.
Source: `order_book_server.cpp`, lines 85-94 -/
def logRequest (req : Json) : ServerProc (String × String) := do
  let command ← ofJson (L.value L.getString req "command" "")
  let clientOrderId ← ofJson (L.value L.getString req "client_order_id" "N/A")
  match req.field? "broker_order_id" with
  | some id =>
      if id.isNumber then do
        let _ ← ofJson (L.getUInt64 id)
        pure (command, clientOrderId)
      else pure (command, clientOrderId)
  | none => pure (command, clientOrderId)

/-- From a parsed request to the reply.
Source: `order_book_server.cpp`, lines 84-201 -/
def handleRequest (req : Json) : ServerProc Unit := do
  let (command, clientOrderId) ← logRequest L req
  Proc.tryCatch (dispatch L req command clientOrderId) catchException

/-- One iteration of the server loop for a request that parses: the reply and the state. An
exception that leaves `main` ends the server, and a call that does not return hangs it: there is
no reply then, and no server afterwards.
Source: `order_book_server.cpp`, `main` -/
def serve (req : Json) (server : ServerState) : Option (Reply × ServerState) :=
  match (handleRequest L req).run ⟨server, {}⟩ with
  | .returned _ s => some (s.resJson, s.server)
  | .raised _ _ => none
  | .stuck _ => none

end handler

end FlowManager.Server
