import FlowManager.Broker.CppOrderBookBroker

/-!
# What the broker's methods do

Each method from a state in which the lock is free, as a change of the state. `applyFill` is one
pass of the loop over the trades of a reply and `registerOrder` is all that `submit_order` does
before it sends; `submitOrder_run` and `cancelOrder_run` put a whole call together from the reply
it gets. A call gets stuck in one place only: `handleFinalStatus` on an order that is still
tracked (`handleFinalStatus_stuck`).
-/

namespace FlowManager.Broker

open FlowManager.Lib FlowManager.Server

section effects

variable {ε : Type} {s : CppOrderBookBroker ε}

/-! ## The locked helpers -/

/-- The next id, where the lock is free. -/
theorem run_getNextBrokerId (hfree : s.lockHeld = false) :
    getNextBrokerId.run s = .returned (s.brokerOrderIdCounter + 1)
      { s with brokerOrderIdCounter := s.brokerOrderIdCounter + 1 } := by
  obtain ⟨_, _, _, _, _, _, _⟩ := s
  obtain rfl : _ = false := hfree
  rfl

/-- Cleaning up the maps, where the lock is free. -/
theorem run_cleanupOrderMaps (hfree : s.lockHeld = false) (clientOrderId : String)
    (brokerOrderId : ℤ) : (cleanupOrderMaps clientOrderId brokerOrderId).run s =
      .returned () (s.forget clientOrderId brokerOrderId) := by
  obtain ⟨_, _, _, _, _, _, _⟩ := s
  obtain rfl : _ = false := hfree
  rfl

/-- A reader that holds the lock gives it back and has changed nothing. -/
theorem run_locked_read (hfree : s.lockHeld = false) {α : Type} (read : CppOrderBookBroker ε → α)
    (hread : read { s with lockHeld := true } = read s) :
    (Proc.withLock brokerLock (do
      let s ← Proc.get
      pure (read s) : BrokerProc ε α)).run s = .returned (read s) s := by
  obtain ⟨_, _, _, _, _, _, _⟩ := s
  obtain rfl : _ = false := hfree
  simp only [Proc.withLock, brokerLock, Bool.false_eq_true, if_false, Proc.run_bind,
    Proc.run_get, Outcome.bind_returned, Proc.run_pure, hread]

/-- The state in which the new order has been written into the three maps. -/
def CppOrderBookBroker.store (s : CppOrderBookBroker ε) (brokerOrdId : ℤ)
    (details : OrderDetails) : CppOrderBookBroker ε :=
  { s with
    clientToBrokerIdMap := s.clientToBrokerIdMap.insert details.clientOrderId brokerOrdId,
    brokerToClientIdMap := s.brokerToClientIdMap.insert brokerOrdId details.clientOrderId,
    brokerIdToOrderDetails := s.brokerIdToOrderDetails.insert brokerOrdId details }

/-- Storing an order, where the lock is free. -/
theorem run_storeOrder (hfree : s.lockHeld = false) (brokerOrdId : ℤ) (details : OrderDetails) :
    (storeOrder brokerOrdId details).run s = .returned () (s.store brokerOrdId details) := by
  obtain ⟨_, _, _, _, _, _, _⟩ := s
  obtain rfl : _ = false := hfree
  rfl

/-! ## The loop over the trades of a reply -/

/-- The confirmation of a fill. -/
def fillConfirmation (clientOrderId : String) (order : OrderDetails) (fill : FillInfo)
    (status : Status) : TradeConfirmationMessage :=
  { orderId := fill.orderIdFilled, clientOrderId := clientOrderId, symbol := order.symbol,
    filledQuantity := fill.tradedQuantity, sideIsBuy := order.sideIsBuy,
    price := .finite fill.price, status := status }

/-- A fill of a tracked order. -/
def CppOrderBookBroker.fillTracked (s : CppOrderBookBroker ε) (clientOrderId : String)
    (order : OrderDetails) (fill : FillInfo) : CppOrderBookBroker ε :=
  let (order, status) := afterFill order fill.tradedQuantity
  let s := (s.setDetails fill.orderIdFilled order).confirm
    (fillConfirmation clientOrderId order fill status)
  if status = .FILLED then s.forget clientOrderId fill.orderIdFilled else s

/-- One pass of the loop over the trades. -/
def CppOrderBookBroker.applyFill (s : CppOrderBookBroker ε) (fill : FillInfo) :
    CppOrderBookBroker ε :=
  match s.brokerToClientIdMap.lookup fill.orderIdFilled,
      s.brokerIdToOrderDetails.lookup fill.orderIdFilled with
  | some clientOrderId, some order =>
      if pyTruthy clientOrderId ∧ fill.tradedQuantity > 0 then s.fillTracked clientOrderId order fill
      else s
  | _, _ => s

/-- A fill of a tracked order leaves the lock. -/
theorem fillTracked_lockHeld (clientOrderId : String) (order : OrderDetails) (fill : FillInfo) :
    (s.fillTracked clientOrderId order fill).lockHeld = s.lockHeld := by
  simp only [CppOrderBookBroker.fillTracked]
  split_ifs <;> rfl

/-- A fill leaves the lock. -/
theorem applyFill_lockHeld (fill : FillInfo) : (s.applyFill fill).lockHeld = s.lockHeld := by
  unfold CppOrderBookBroker.applyFill
  split
  · split_ifs
    · exact fillTracked_lockHeld _ _ fill
    · rfl
  · rfl

/-- Processing a fill, where the lock is free. -/
theorem run_processFill (hfree : s.lockHeld = false) (fill : FillInfo) :
    (processFill fill).run s = .returned () (s.applyFill fill) := by
  rw [processFill, Proc.run_bind, run_locked_read hfree (fun s =>
    (s.brokerToClientIdMap.lookup fill.orderIdFilled,
      s.brokerIdToOrderDetails.lookup fill.orderIdFilled)) rfl, Outcome.bind_returned]
  unfold CppOrderBookBroker.applyFill
  cases hclient : s.brokerToClientIdMap.lookup fill.orderIdFilled with
  | none => simp only [Proc.run_pure]
  | some clientOrderId =>
      cases horder : s.brokerIdToOrderDetails.lookup fill.orderIdFilled with
      | none => simp only [Proc.run_pure]
      | some order =>
          dsimp only
          by_cases hfill : pyTruthy clientOrderId ∧ fill.tradedQuantity > 0
          · rw [if_pos hfill, if_pos hfill]
            simp only [Proc.run_bind, Proc.run_modify, Outcome.bind_returned, callback,
              CppOrderBookBroker.fillTracked]
            split_ifs with hstatus
            · apply run_cleanupOrderMaps
              exact hfree
            · rfl
          · rw [if_neg hfill, if_neg hfill]
            rfl

/-- The loop over the trades. -/
def CppOrderBookBroker.applyFills (s : CppOrderBookBroker ε) (fills : List FillInfo) :
    CppOrderBookBroker ε := fills.foldl CppOrderBookBroker.applyFill s

/-- Fills leave the lock. -/
theorem applyFills_lockHeld (fills : List FillInfo) :
    (s.applyFills fills).lockHeld = s.lockHeld := by
  induction fills generalizing s with
  | nil => rfl
  | cons fill fills ih => exact (ih (s := s.applyFill fill)).trans (applyFill_lockHeld fill)

/-- The loop touches neither the counter nor the other end of the socket. -/
theorem applyFills_frame (fills : List FillInfo) :
    (s.applyFills fills).brokerOrderIdCounter = s.brokerOrderIdCounter ∧
      (s.applyFills fills).orderBook = s.orderBook := by
  induction fills generalizing s with
  | nil => exact ⟨rfl, rfl⟩
  | cons fill fills ih =>
      have hfill : (s.applyFill fill).brokerOrderIdCounter = s.brokerOrderIdCounter ∧
          (s.applyFill fill).orderBook = s.orderBook := by
        unfold CppOrderBookBroker.applyFill
        split
        · split_ifs
          · simp only [CppOrderBookBroker.fillTracked]
            split_ifs <;> exact ⟨rfl, rfl⟩
          · exact ⟨rfl, rfl⟩
        · exact ⟨rfl, rfl⟩
      obtain ⟨hcounter, hbook⟩ := ih (s := s.applyFill fill)
      exact ⟨hcounter.trans hfill.1, hbook.trans hfill.2⟩

/-- Processing the fills, where the lock is free. -/
theorem run_processFills (hfree : s.lockHeld = false) (fills : List FillInfo) :
    (processFills fills).run s = .returned () (s.applyFills fills) := by
  induction fills generalizing s with
  | nil => rfl
  | cons fill fills ih =>
      rw [processFills, Proc.run_bind, run_processFill hfree, Outcome.bind_returned]
      exact ih ((applyFill_lockHeld fill).trans hfree)

/-! ## The final status -/

/-- What is left to do for an order that the book has not finished. -/
def CppOrderBookBroker.markWorking (s : CppOrderBookBroker ε) (brokerOrdId : ℤ) :
    CppOrderBookBroker ε :=
  match s.brokerIdToOrderDetails.lookup brokerOrdId with
  | some current =>
      if current.status = .ACKNOWLEDGED then
        s.setDetails brokerOrdId { current with status := .WORKING }
      else s
  | none => s

/-- Marking an order as working does nothing, or it changes the status of an order. -/
theorem markWorking_cases (s : CppOrderBookBroker ε) (brokerOrdId : ℤ) :
    s.markWorking brokerOrdId = s ∨
      ∃ current, s.brokerIdToOrderDetails.lookup brokerOrdId = some current ∧
        s.markWorking brokerOrdId =
          s.setDetails brokerOrdId { current with status := .WORKING } := by
  unfold CppOrderBookBroker.markWorking
  split
  · rename_i current hcurrent
    split_ifs
    · exact Or.inr ⟨current, hcurrent, rfl⟩
    · exact Or.inl rfl
  · exact Or.inl rfl

/-- The final statuses on which the order's bookkeeping is cleaned up. -/
def finishes (finalStatus : Option BookStatus) : Bool :=
  finalStatus = some .FILLED ∨ finalStatus = some .REJECTED_BY_BOOK

variable (clientOrderId symbol : String) (sideIsBuy : Bool) (price : PyFloat) {brokerOrdId : ℤ}
  {finalStatus : Option BookStatus}

/-- An order that the fills have finished is left alone. -/
theorem run_handleFinalStatus_of_not_tracked (hfree : s.lockHeld = false)
    (hnone : s.brokerIdToOrderDetails.lookup brokerOrdId = none) :
    (handleFinalStatus clientOrderId symbol sideIsBuy price brokerOrdId finalStatus).run s =
      .returned () s := by
  obtain ⟨_, _, _, _, _, _, _⟩ := s
  obtain rfl : _ = false := hfree
  simp only at hnone
  simp [handleFinalStatus, Proc.withLock, brokerLock, hnone]

/-- An order that the book has not finished is working. -/
theorem run_handleFinalStatus_of_working (hfree : s.lockHeld = false)
    (hfinal : finishes finalStatus = false) :
    (handleFinalStatus clientOrderId symbol sideIsBuy price brokerOrdId finalStatus).run s =
      .returned () (s.markWorking brokerOrdId) := by
  obtain ⟨_, _, _, _, details, _, _⟩ := s
  obtain rfl : _ = false := hfree
  simp only [finishes, decide_eq_false_iff_not, not_or] at hfinal
  cases hlookup : details.lookup brokerOrdId with
  | none =>
      simp [handleFinalStatus, Proc.withLock, brokerLock, CppOrderBookBroker.markWorking, hlookup]
  | some current =>
      by_cases hack : current.status = .ACKNOWLEDGED
      · simp [handleFinalStatus, Proc.withLock, brokerLock, CppOrderBookBroker.markWorking, hlookup,
          hfinal, hack, CppOrderBookBroker.setDetails]
      · simp [handleFinalStatus, Proc.withLock, brokerLock, CppOrderBookBroker.markWorking, hlookup,
          hfinal, hack]

/-- **The deadlock**: to clean up after an order that is still tracked, `_cleanup_order_maps` waits
for the lock that the caller holds. -/
theorem handleFinalStatus_stuck (hfree : s.lockHeld = false) {current : OrderDetails}
    (htracked : s.brokerIdToOrderDetails.lookup brokerOrdId = some current)
    (hstatus : current.status ≠ .FILLED) (hfinal : finishes finalStatus = true) :
    ∃ s', (handleFinalStatus clientOrderId symbol sideIsBuy price brokerOrdId finalStatus).run s =
      .stuck s' := by
  obtain ⟨_, _, _, _, details, _, _⟩ := s
  obtain rfl : _ = false := hfree
  simp only at htracked
  simp only [finishes, decide_eq_true_eq] at hfinal
  rcases hfinal with rfl | rfl
  · simp [handleFinalStatus, Proc.withLock, brokerLock, htracked, hstatus, cleanupOrderMaps,
      CppOrderBookBroker.setDetails]
  · simp [handleFinalStatus, Proc.withLock, brokerLock, htracked, cleanupOrderMaps, callback,
      CppOrderBookBroker.setDetails, CppOrderBookBroker.confirm]

/-- Where the handling of the final status returns, it has made the order a working one at most, and
an order that the book has finished is not tracked. -/
theorem handleFinalStatus_returned (hfree : s.lockHeld = false)
    (hstatus : ∀ current, s.brokerIdToOrderDetails.lookup brokerOrdId = some current →
      current.status ≠ .FILLED) {s' : CppOrderBookBroker ε}
    (hrun : (handleFinalStatus clientOrderId symbol sideIsBuy price brokerOrdId finalStatus).run s =
      .returned () s') :
    s' = s.markWorking brokerOrdId ∧
      (finishes finalStatus = true → s.brokerIdToOrderDetails.lookup brokerOrdId = none) := by
  cases htracked : s.brokerIdToOrderDetails.lookup brokerOrdId with
  | none =>
      rw [run_handleFinalStatus_of_not_tracked _ _ _ _ hfree htracked] at hrun
      cases hrun
      refine ⟨?_, fun _ => rfl⟩
      unfold CppOrderBookBroker.markWorking
      rw [htracked]
  | some current =>
      by_cases hfinal : finishes finalStatus = true
      · obtain ⟨s'', hstuck⟩ := handleFinalStatus_stuck clientOrderId symbol sideIsBuy price hfree
          htracked (hstatus current htracked) hfinal
        rw [hstuck] at hrun
        cases hrun
      · rw [run_handleFinalStatus_of_working _ _ _ _ hfree (by simpa using hfinal)] at hrun
        cases hrun
        exact ⟨rfl, fun h => absurd h hfinal⟩

/-- Marking an order as working does not touch the lock, -/
theorem markWorking_lockHeld (brokerOrdId : ℤ) :
    (s.markWorking brokerOrdId).lockHeld = s.lockHeld := by
  rcases markWorking_cases s brokerOrdId with heq | ⟨_, -, heq⟩ <;> rw [heq]
  rfl

/-- nor the counter and the other end of the socket. -/
theorem markWorking_frame (brokerOrdId : ℤ) :
    (s.markWorking brokerOrdId).brokerOrderIdCounter = s.brokerOrderIdCounter ∧
      (s.markWorking brokerOrdId).orderBook = s.orderBook := by
  rcases markWorking_cases s brokerOrdId with heq | ⟨_, -, heq⟩ <;> rw [heq] <;>
    exact ⟨rfl, rfl⟩

end effects

/-! ## The calls -/

section calls

variable {ε : Type} {s : CppOrderBookBroker ε} {sendRequestToOb : Json → ε → Option Reply × ε}

/-- Sending asks the server and keeps its answer. -/
theorem run_send (request : Json) : (send sendRequestToOb request).run s =
    .returned (sendRequestToOb request s.orderBook).1
      { s with orderBook := (sendRequestToOb request s.orderBook).2 } := rfl

/-- The rejection that `_dispatch_rejection` passes on. -/
def rejection (clientOrderId symbol : String) (sideIsBuy : Bool) : TradeConfirmationMessage :=
  { orderId := -1, clientOrderId := clientOrderId, symbol := symbol, filledQuantity := 0,
    sideIsBuy := sideIsBuy, price := .finite 0, status := .REJECTED }

section submit

variable (clientOrderId symbol : String) (quantity : ℤ) (sideIsBuy : Bool) (orderTypeStr : String)
  (price : PyFloat)

/-- The details of the next order. -/
def CppOrderBookBroker.nextDetails (s : CppOrderBookBroker ε) : OrderDetails :=
  newDetails clientOrderId symbol quantity sideIsBuy orderTypeStr price (s.brokerOrderIdCounter + 1)

/-- What `submit_order` has done before it sends: the order has the next broker id and is in the
three maps. -/
def CppOrderBookBroker.registerOrder (s : CppOrderBookBroker ε) : CppOrderBookBroker ε :=
  { s with brokerOrderIdCounter := s.brokerOrderIdCounter + 1 }.store (s.brokerOrderIdCounter + 1)
    (s.nextDetails clientOrderId symbol quantity sideIsBuy orderTypeStr price)

/-- The request that `submit_order` sends. -/
def CppOrderBookBroker.nextRequest (s : CppOrderBookBroker ε) (intPrice : ℤ) : Json :=
  addOrderRequest clientOrderId (s.brokerOrderIdCounter + 1) symbol sideIsBuy intPrice quantity
    orderTypeStr

/-- The state in which the reply to the new order arrives. -/
def CppOrderBookBroker.sentOrder (s : CppOrderBookBroker ε) (orderBook : ε) :
    CppOrderBookBroker ε :=
  { s.registerOrder clientOrderId symbol quantity sideIsBuy orderTypeStr price with
    orderBook := orderBook }

/-- The state in which the loop over the trades of the reply starts. -/
def CppOrderBookBroker.acknowledged (s : CppOrderBookBroker ε) (orderBook : ε) :
    CppOrderBookBroker ε :=
  (s.sentOrder clientOrderId symbol quantity sideIsBuy orderTypeStr price orderBook).setDetails
    (s.brokerOrderIdCounter + 1)
    { s.nextDetails clientOrderId symbol quantity sideIsBuy orderTypeStr price with
      status := .ACKNOWLEDGED }

/-- An order without a price is rejected. -/
theorem run_submitOrder_of_no_price :
    (submitOrder sendRequestToOb clientOrderId symbol quantity sideIsBuy orderTypeStr none).run s =
      .returned none (s.confirm (rejection clientOrderId symbol sideIsBuy)) := rfl

/-- Without the lock no broker id is given out. -/
theorem run_submitOrder_of_locked (hheld : s.lockHeld = true) :
    (submitOrder sendRequestToOb clientOrderId symbol quantity sideIsBuy orderTypeStr
      (some price)).run s = .stuck s := by
  simp [submitOrder, getNextBrokerId, Proc.withLock, brokerLock, hheld]

/-- An order whose price `int` refuses raises behind the maps. -/
theorem run_submitOrder_of_raise (hfree : s.lockHeld = false) {e : PyError}
    (hprice : pyInt price = .error e) :
    (submitOrder sendRequestToOb clientOrderId symbol quantity sideIsBuy orderTypeStr
        (some price)).run s =
      .raised e (s.registerOrder clientOrderId symbol quantity sideIsBuy orderTypeStr price) := by
  simp only [submitOrder, Proc.run_bind, run_getNextBrokerId hfree, Outcome.bind_returned]
  rw [run_storeOrder (s := { s with brokerOrderIdCounter := s.brokerOrderIdCounter + 1 }) hfree,
    Outcome.bind_returned, hprice]
  rfl

/-- Up to the reply a submission with a price that converts is the same. -/
theorem run_submitOrder (hfree : s.lockHeld = false) {intPrice : ℤ}
    (hprice : pyInt price = .ok intPrice) {response : Option Reply} {orderBook : ε}
    (hsend : sendRequestToOb (s.nextRequest clientOrderId symbol quantity sideIsBuy orderTypeStr
      intPrice) s.orderBook = (response, orderBook)) :
    (submitOrder sendRequestToOb clientOrderId symbol quantity sideIsBuy orderTypeStr
        (some price)).run s =
      match response with
      | some reply =>
          if reply.status = some .OK then
            ((handleFinalStatus clientOrderId symbol sideIsBuy price (s.brokerOrderIdCounter + 1)
                reply.orderFinalStatusInBook).run
              ((s.acknowledged clientOrderId symbol quantity sideIsBuy orderTypeStr price
                orderBook).applyFills (reply.trades.getD []))).bind
              fun _ s' => .returned (some (s.brokerOrderIdCounter + 1)) s'
          else .returned none
            (((s.sentOrder clientOrderId symbol quantity sideIsBuy orderTypeStr price
              orderBook).confirm (rejection clientOrderId symbol sideIsBuy)).forget clientOrderId
                (s.brokerOrderIdCounter + 1))
      | none => .returned none
            (((s.sentOrder clientOrderId symbol quantity sideIsBuy orderTypeStr price
              orderBook).confirm (rejection clientOrderId symbol sideIsBuy)).forget clientOrderId
                (s.brokerOrderIdCounter + 1)) := by
  have hfailed : ∀ s' : CppOrderBookBroker ε, s'.lockHeld = false →
      ((do
        dispatchRejection clientOrderId symbol sideIsBuy
        cleanupOrderMaps clientOrderId (s.brokerOrderIdCounter + 1)
        pure none : BrokerProc ε (Option ℤ)).run s') =
      .returned none ((s'.confirm (rejection clientOrderId symbol sideIsBuy)).forget clientOrderId
        (s.brokerOrderIdCounter + 1)) := by
    intro s' hfree'
    simp only [Proc.run_bind, dispatchRejection, callback, Proc.run_modify, Outcome.bind_returned]
    rw [run_cleanupOrderMaps]
    · rfl
    · exact hfree'
  simp only [submitOrder, Proc.run_bind, run_getNextBrokerId hfree, Outcome.bind_returned]
  rw [run_storeOrder (s := { s with brokerOrderIdCounter := s.brokerOrderIdCounter + 1 }) hfree,
    Outcome.bind_returned, hprice]
  simp only [ofPy, Proc.run_pure, Outcome.bind_returned, run_send]
  have hsent : sendRequestToOb (addOrderRequest clientOrderId (s.brokerOrderIdCounter + 1) symbol
      sideIsBuy intPrice quantity orderTypeStr) s.orderBook = (response, orderBook) := hsend
  simp only [CppOrderBookBroker.store, hsent]
  cases response with
  | none => exact hfailed _ hfree
  | some reply =>
      dsimp only
      by_cases hok : reply.status = some .OK
      · rw [if_pos hok, if_neg (not_not.mpr hok)]
        simp only [Proc.run_bind, Proc.run_modify, Outcome.bind_returned]
        rw [run_processFills]
        · rfl
        · exact hfree
      · rw [if_neg hok, if_pos hok]
        exact hfailed _ hfree

end submit

section cancel

variable (clientOrderId : String)

/-- The confirmation of a cancel. -/
def cancellation (clientOrderId : String) (brokerOrdId : ℤ) (details : OrderDetails) :
    TradeConfirmationMessage :=
  { orderId := brokerOrdId, clientOrderId := clientOrderId, symbol := details.symbol,
    filledQuantity := 0, sideIsBuy := details.sideIsBuy,
    price := details.price.getD (.finite 0), status := .CANCELLED }

/-- The server has cancelled the order. -/
def cancels (response : Option Reply) : Prop :=
  (response.bind fun r => r.status) = some .OK ∧
    (response.bind fun r => r.finalStatus) = some .CANCELLED

/-- Whether a response confirms a cancel is decided. -/
instance (response : Option Reply) : Decidable (cancels response) :=
  inferInstanceAs (Decidable (_ ∧ _))

/-- What `cancel_order` looks up. -/
theorem tracked_eq_some {brokerOrdId : ℤ} {details : OrderDetails} {clientOrderId : String}
    (h : s.tracked clientOrderId = some (brokerOrdId, details)) :
    s.clientToBrokerIdMap.lookup clientOrderId = some brokerOrdId ∧
      s.brokerIdToOrderDetails.lookup brokerOrdId = some details := by
  unfold CppOrderBookBroker.tracked at h
  rcases hclient : s.clientToBrokerIdMap.lookup clientOrderId with _ | b
  · simp [hclient] at h
  · simp only [hclient, Option.bind_eq_bind, Option.bind_some] at h
    split_ifs at h
    rcases hdetails : s.brokerIdToOrderDetails.lookup b with _ | order
    · simp [hdetails] at h
    · simp only [hdetails, Option.bind_some, Option.pure_def, Option.some.injEq,
        Prod.mk.injEq] at h
      obtain ⟨rfl, rfl⟩ := h
      exact ⟨rfl, hdetails⟩

/-- Looking an order up, where the lock is free. -/
theorem run_tracked (hfree : s.lockHeld = false) :
    (Proc.withLock brokerLock (do
      let s ← Proc.get
      pure (s.tracked clientOrderId) : BrokerProc ε _)).run s =
      .returned (s.tracked clientOrderId) s :=
  run_locked_read hfree (fun s => s.tracked clientOrderId) rfl

/-- Without the lock no order is looked up. -/
theorem run_cancelOrder_of_locked (hheld : s.lockHeld = true) :
    (cancelOrder sendRequestToOb clientOrderId).run s = .stuck s := by
  simp [cancelOrder, Proc.withLock, brokerLock, hheld]

/-- The cancel of an order that is not tracked is refused. -/
theorem run_cancelOrder_of_not_tracked (hfree : s.lockHeld = false)
    (hnone : s.tracked clientOrderId = none) :
    (cancelOrder sendRequestToOb clientOrderId).run s = .returned false s := by
  rw [cancelOrder, Proc.run_bind, run_tracked clientOrderId hfree, Outcome.bind_returned, hnone,
    Proc.run_pure]

variable {brokerOrdId : ℤ} {details : OrderDetails}

/-- The cancel of an order that is done is refused. -/
theorem run_cancelOrder_of_done (hfree : s.lockHeld = false)
    (htracked : s.tracked clientOrderId = some (brokerOrdId, details))
    (hdone : details.status.isDone = true) :
    (cancelOrder sendRequestToOb clientOrderId).run s = .returned false s := by
  rw [cancelOrder, Proc.run_bind, run_tracked clientOrderId hfree, Outcome.bind_returned, htracked]
  dsimp only
  rw [if_pos hdone, Proc.run_pure]

/-- The state in which the reply to a cancel request arrives. -/
def CppOrderBookBroker.sentCancel (s : CppOrderBookBroker ε) (brokerOrdId : ℤ)
    (details : OrderDetails) (orderBook : ε) : CppOrderBookBroker ε :=
  { s.setDetails brokerOrdId { details with status := .PENDING_CANCEL } with
    orderBook := orderBook }

/-- The cancel of an order that is going on: it is sent, and the response decides. -/
theorem run_cancelOrder (hfree : s.lockHeld = false)
    (htracked : s.tracked clientOrderId = some (brokerOrdId, details))
    (hdone : details.status.isDone = false) {response : Option Reply} {orderBook : ε}
    (hsend : sendRequestToOb (cancelOrderRequest brokerOrdId) s.orderBook = (response, orderBook)) :
    (cancelOrder sendRequestToOb clientOrderId).run s =
      if cancels response then .returned true
        ((((s.sentCancel brokerOrdId details orderBook).setDetails brokerOrdId
          { details with status := .CANCELLED }).confirm
            (cancellation clientOrderId brokerOrdId details)).forget clientOrderId brokerOrdId)
      else .returned false
        ((s.sentCancel brokerOrdId details orderBook).setDetails brokerOrdId
          { details with status := .WORKING }) := by
  rw [cancelOrder, Proc.run_bind, run_tracked clientOrderId hfree, Outcome.bind_returned, htracked]
  have hsent : sendRequestToOb (cancelOrderRequest brokerOrdId)
      (s.setDetails brokerOrdId { details with status := .PENDING_CANCEL }).orderBook =
      (response, orderBook) := hsend
  simp only [hdone, Bool.false_eq_true, if_false, Proc.run_bind, Proc.run_modify,
    Outcome.bind_returned, run_send, hsent]
  by_cases hcancels : cancels response
  · rw [if_pos hcancels]
    unfold cancels at hcancels
    rw [if_pos hcancels]
    simp only [Proc.run_bind, Proc.run_modify, Outcome.bind_returned, callback]
    rw [run_cleanupOrderMaps]
    · rfl
    · exact hfree
  · rw [if_neg hcancels]
    unfold cancels at hcancels
    rw [if_neg hcancels]
    rfl

end cancel

end calls

end FlowManager.Broker
