import FlowManager.Broker.CppOrderBookBroker
import FlowManager.Server.Handler

/-!
# The requests of the broker at the server

What the server does with the three requests that the broker builds. The values of a request fit
the JSON library (`Json.Fits`), and what the server hands to the order book are their conversions.
`serve_addOrder`, `serve_cancelOrder` and `serve_getBookInfo` read the reply and the new state off
the call on the book; no such request makes an exception.
-/

namespace FlowManager.System

open FlowManager.Lib FlowManager.Book FlowManager.Broker FlowManager.Server

/-! ## ADD_ORDER -/

section add

variable (L : Libraries) (clientOrderId symbol : String) (brokerOrdId price quantity : ℤ)
  (sideIsBuy : Bool) (orderTypeStr : String)

/-- The order that the server makes of the request. -/
def bookedOrder : Order :=
  Order.new (if pyUpper orderTypeStr = "GTC" then .GoodTillCancel else .FillAndKill)
    (UInt64.ofInt brokerOrdId) (if sideIsBuy then .Buy else .Sell) (UInt32.ofInt price)
    (UInt32.ofInt quantity)

/-- The type in the request is read as it was meant. -/
theorem orderTypeOf_request : orderTypeOf (if pyUpper orderTypeStr = "GTC" then "GoodTillCancel"
    else "FillAndKill") =
      if pyUpper orderTypeStr = "GTC" then .GoodTillCancel else .FillAndKill := by
  split_ifs <;> rfl

/-- The side in the request is read as it was meant. -/
theorem sideOf_request :
    sideOf (if sideIsBuy then "Buy" else "Sell") = if sideIsBuy then .Buy else .Sell := by
  cases sideIsBuy <;> rfl

variable {server : ServerState}

/-- The request for an order is logged. -/
theorem run_logRequest_addOrder (hb : Json.Fits brokerOrdId) {session : Session} :
    (logRequest L (addOrderRequest clientOrderId brokerOrdId symbol sideIsBuy price quantity
      orderTypeStr)).run session = .returned ("ADD_ORDER", clientOrderId) session := by
  have hvalue : ∀ key v, (addOrderRequest clientOrderId brokerOrdId symbol sideIsBuy price quantity
      orderTypeStr).field? key = some (.string v) →
      ∀ fallback, L.value L.getString (addOrderRequest clientOrderId brokerOrdId symbol sideIsBuy
        price quantity orderTypeStr) key fallback = .ok v := by
    intro key v h fallback
    unfold addOrderRequest Json.field? at h
    unfold Libraries.value addOrderRequest
    dsimp only at h ⊢
    rw [h]
    exact L.getString_string v
  have hid : (addOrderRequest clientOrderId brokerOrdId symbol sideIsBuy price quantity
      orderTypeStr).field? "broker_order_id" = some (.integer brokerOrdId) := rfl
  unfold logRequest
  rw [Proc.run_bind, hvalue "command" "ADD_ORDER" rfl, hvalue "client_order_id" clientOrderId rfl]
  simp only [ofJson, Proc.run_pure, Outcome.bind_returned, Proc.run_bind, hid, Json.isNumber,
    if_true, L.getUInt64_integer _ hb]

/-- The reply to a request whose order the book has refused. -/
def refusedReply : Reply where
  status := some .ERROR
  message := some "Order rejected by book (e.g., duplicate Order ID or invalid params)."
  clientOrderId := some clientOrderId
  brokerOrderId := some (Int.bmod brokerOrdId (2 ^ 32))

/-- The reply to a request whose order the book has handed back. -/
def takenReply (trades : Trades) (submitted : Order) : Reply where
  status := some .OK
  trades := some (fillInfos trades)
  orderFinalStatusInBook := some (finalStatusInBook (some submitted))
  clientOrderId := some clientOrderId
  brokerOrderId := some (Int.bmod brokerOrdId (2 ^ 32))

/-- The fields that the server decodes before it calls the book, and the echo after it. -/
structure Decodes (L : Libraries) (req : Json) (clientOrderId : String) (brokerOrdId : ℤ)
    (o : Order) : Prop where
  required : requiredFields.all req.contains = true
  side : ∃ name, req.field? "side" = some (.string name) ∧ sideOf name = o.side
  price : ∃ n, req.field? "price" = some (.integer n) ∧ Json.Fits n ∧ UInt32.ofInt n = o.price
  quantity : ∃ n, req.field? "quantity" = some (.integer n) ∧ Json.Fits n ∧
    UInt32.ofInt n = o.initialQuantity
  id : req.field? "broker_order_id" = some (.integer brokerOrdId) ∧ Json.Fits brokerOrdId ∧
    UInt64.ofInt brokerOrdId = o.orderId
  type : ∃ name, req.field? "type" = some (.string name) ∧ orderTypeOf name = o.orderType
  unfilled : o.remainingQuantity = o.initialQuantity
  client : L.value L.getString req "client_order_id" "N/A" = .ok clientOrderId
  echo : L.value L.getInt req "broker_order_id" 0 = .ok (Int.bmod brokerOrdId (2 ^ 32))

/-- The request for an order decodes to the booked order. -/
theorem decodes_addOrderRequest (hb : Json.Fits brokerOrdId) (hp : Json.Fits price)
    (hq : Json.Fits quantity) :
    Decodes L (addOrderRequest clientOrderId brokerOrdId symbol sideIsBuy price quantity
      orderTypeStr) clientOrderId brokerOrdId
      (bookedOrder brokerOrdId price quantity sideIsBuy orderTypeStr) where
  required := rfl
  side := ⟨_, rfl, sideOf_request sideIsBuy⟩
  price := ⟨_, rfl, hp, rfl⟩
  quantity := ⟨_, rfl, hq, rfl⟩
  id := ⟨rfl, hb, rfl⟩
  type := ⟨_, rfl, orderTypeOf_request orderTypeStr⟩
  unfilled := rfl
  client := L.getString_string clientOrderId
  echo := L.getInt_integer _ hb

variable {L clientOrderId brokerOrdId}

/-- The server converts the fields to the order. -/
theorem Decodes.decoded {req : Json} {o : Order} (h : Decodes L req clientOrderId brokerOrdId o) :
    decoded L req = .ok o := by
  obtain ⟨side, hside, hside'⟩ := h.side
  obtain ⟨price, hprice, hpriceFits, hprice'⟩ := h.price
  obtain ⟨quantity, hquantity, hquantityFits, hquantity'⟩ := h.quantity
  obtain ⟨hid, hidFits, hid'⟩ := h.id
  obtain ⟨type, htype, htype'⟩ := h.type
  have ho : Order.new (orderTypeOf type) (UInt64.ofInt brokerOrdId) (sideOf side)
      (UInt32.ofInt price) (UInt32.ofInt quantity) = o := by
    rw [hside', hprice', hquantity', hid', htype']
    have hunfilled := h.unfilled
    cases o
    simp only [Order.new, Order.mk.injEq, true_and]
    exact hunfilled.symm
  unfold Server.decoded
  rw [(at_eq_ok L).mpr hside, (at_eq_ok L).mpr hprice, (at_eq_ok L).mpr hquantity,
    (at_eq_ok L).mpr hid, (at_eq_ok L).mpr htype]
  simp only [bind, Except.bind, L.getString_string, L.getUInt32_integer _ hpriceFits,
    L.getUInt32_integer _ hquantityFits, L.getUInt64_integer _ hidFits]
  exact congrArg Except.ok ho

variable (L clientOrderId brokerOrdId)

/-- What the handler returns is what is served. -/
theorem serve_of_command {req : Json} {command clientId : String} {server server' : ServerState}
    {reply : Reply}
    (hlog : (logRequest L req).run ⟨server, {}⟩ = .returned (command, clientId) ⟨server, {}⟩)
    (hrun : (dispatch L req command clientId).run ⟨server, {}⟩ =
      .returned () ⟨server', reply⟩) :
    serve L req server = some (reply, server') := by
  unfold serve handleRequest
  rw [Proc.run_bind, hlog, Outcome.bind_returned]
  unfold Proc.tryCatch
  dsimp only
  rw [hrun]

/-- **`ADD_ORDER` at the server, refused by the book.** -/
theorem serve_addOrder_of_refused (hb : Json.Fits brokerOrdId) (hp : Json.Fits price)
    (hq : Json.Fits quantity) {store : Store}
    (hcall : (call (.addOrder (bookedOrder brokerOrdId price quantity sideIsBuy orderTypeStr))).run
      server.store = .returned (.added [] none) store) :
    serve L (addOrderRequest clientOrderId brokerOrdId symbol sideIsBuy price quantity
        orderTypeStr) server =
      some (refusedReply clientOrderId brokerOrdId, { server with store := store }) := by
  have h := decodes_addOrderRequest L clientOrderId symbol brokerOrdId price quantity sideIsBuy
    orderTypeStr hb hp hq
  exact serve_of_command L
    (run_logRequest_addOrder L clientOrderId symbol brokerOrdId price quantity sideIsBuy
      orderTypeStr hb)
    (run_addOrderCommand_of_refused h.required h.decoded h.client h.echo hcall)

/-- **`ADD_ORDER` at the server, taken by the book**: the reply and the state, from the call on the
book. -/
theorem serve_addOrder_of_taken (hb : Json.Fits brokerOrdId) (hp : Json.Fits price)
    (hq : Json.Fits quantity) {ts : Trades} {p : OrderPointer} {store : Store}
    (hcall : (call (.addOrder (bookedOrder brokerOrdId price quantity sideIsBuy orderTypeStr))).run
      server.store = .returned (.added ts (some p)) store) :
    serve L (addOrderRequest clientOrderId brokerOrdId symbol sideIsBuy price quantity
        orderTypeStr) server =
      some (takenReply clientOrderId brokerOrdId ts (store.heap p),
        ⟨store, server.bookings ++ [⟨clientOrderId,
          (bookedOrder brokerOrdId price quantity sideIsBuy orderTypeStr).toOrderTerms, ts⟩]⟩) := by
  have h := decodes_addOrderRequest L clientOrderId symbol brokerOrdId price quantity sideIsBuy
    orderTypeStr hb hp hq
  exact serve_of_command L
    (run_logRequest_addOrder L clientOrderId symbol brokerOrdId price quantity sideIsBuy
      orderTypeStr hb)
    (run_addOrderCommand_of_taken h.required h.decoded h.client h.echo hcall)

end add

/-! ## CANCEL_ORDER -/

section cancel

variable (L : Libraries) {brokerOrdId : ℤ} {server : ServerState}

/-- The reply to a cancel. -/
def cancelReply (brokerOrdId : ℤ) (success : Bool) : Reply where
  status := some (if success then .OK else .ERROR)
  message := if success then none
    else some "Cancel failed (e.g. order not found or already completed)"
  finalStatus := some (if success then .CANCELLED else .CANCEL_REJECTED)
  brokerOrderId := some (UInt64.ofInt brokerOrdId).toNat

/-- **`CANCEL_ORDER` at the server.** -/
theorem serve_cancelOrder (hb : Json.Fits brokerOrdId) {success : Bool} {store : Store}
    (hcall : (call (.cancelOrder (UInt64.ofInt brokerOrdId))).run server.store =
      .returned (.cancelled success) store) :
    serve L (cancelOrderRequest brokerOrdId) server =
      some (cancelReply brokerOrdId success, { server with store := store }) := by
  have hid : (cancelOrderRequest brokerOrdId).field? "broker_order_id" =
      some (.integer brokerOrdId) := rfl
  have hcancel := run_cancelOrder_of_call hcall
  have hlog : (logRequest L (cancelOrderRequest brokerOrdId)).run ⟨server, {}⟩ =
      .returned ("CANCEL_ORDER", "N/A") ⟨server, {}⟩ := by
    have hcommand : L.value L.getString (cancelOrderRequest brokerOrdId) "command" "" =
        .ok "CANCEL_ORDER" := L.getString_string _
    have hclient : L.value L.getString (cancelOrderRequest brokerOrdId) "client_order_id" "N/A" =
        .ok "N/A" := rfl
    unfold logRequest
    simp only [hcommand, hclient, ofJson, Proc.run_pure, Outcome.bind_returned, Proc.run_bind, hid,
      Json.isNumber, if_true, L.getUInt64_integer _ hb]
  apply serve_of_command L hlog
  have hcontains : (cancelOrderRequest brokerOrdId).contains "broker_order_id" = true := rfl
  unfold dispatch
  rw [if_neg (by decide), if_pos rfl]
  unfold cancelOrderCommand
  rw [hcontains, if_neg (show ¬true = false by decide), Proc.run_bind,
    run_fieldAt L hid (L.getUInt64_integer _ hb), Outcome.bind_returned, Proc.run_bind,
    run_callBook L hcancel, Outcome.bind_returned]
  cases success with
  | true => rfl
  | false => rfl

end cancel

/-! ## GET_BOOK_INFO -/

section info

variable (L : Libraries) (symbol : String) (server : ServerState)

/-- The reply with a snapshot. -/
def bookInfoReply (infos : OrderBookLevelInfos) : Reply where
  status := some .OK
  bids := some (infos.bids.map levelReply)
  asks := some (infos.asks.map levelReply)

/-- **`GET_BOOK_INFO` at the server**: the whole book, whatever the symbol. -/
theorem serve_getBookInfo : serve L (getBookInfoRequest symbol) server =
    some (bookInfoReply ⟨levelInfos server.store.heap server.store.book.bids,
      levelInfos server.store.heap server.store.book.asks⟩, server) := by
  have hlog : (logRequest L (getBookInfoRequest symbol)).run ⟨server, {}⟩ =
      .returned ("GET_BOOK_INFO", "N/A") ⟨server, {}⟩ := by
    have hcommand : L.value L.getString (getBookInfoRequest symbol) "command" "" =
        .ok "GET_BOOK_INFO" := L.getString_string _
    have hclient : L.value L.getString (getBookInfoRequest symbol) "client_order_id" "N/A" =
        .ok "N/A" := rfl
    have hid : (getBookInfoRequest symbol).field? "broker_order_id" = none := rfl
    unfold logRequest
    simp only [hcommand, hclient, ofJson, Proc.run_pure, Outcome.bind_returned, Proc.run_bind, hid]
  exact serve_of_command L hlog rfl

end info

end FlowManager.System
