import FlowManager.Broker.SharedSocket

/-!
# Which calls dispatch a rejection

`Proc.Keeps (NoRejection before)` says of a method that it dispatches no rejection, however it ends.
Every method keeps it but `submit_order`, which keeps it if the reply is `OK`. So a call that gets an
`OK` does not dispatch a rejection (`SocketCall.not_dispatchesRejection`).
-/

namespace FlowManager.Broker

open FlowManager.Lib FlowManager.Server

/-! ## Rejections -/

section rejections

variable {ε : Type} {before : List TradeConfirmationMessage}

/-- What has been dispatched since then holds no rejection. -/
def NoRejection (before : List TradeConfirmationMessage) (s : CppOrderBookBroker ε) : Prop :=
  ∃ new, s.confirmations = before ++ new ∧ ∀ conf ∈ new, conf.status ≠ .REJECTED

/-- A confirmation with another status rejects nothing. -/
theorem NoRejection.confirm {s : CppOrderBookBroker ε} (h : NoRejection before s)
    {conf : TradeConfirmationMessage} (hconf : conf.status ≠ .REJECTED) :
    NoRejection before (s.confirm conf) := by
  obtain ⟨new, hnew, hstatus⟩ := h
  refine ⟨new ++ [conf], ?_, ?_⟩
  · rw [← List.append_assoc, ← hnew]
    rfl
  · intro conf' hconf'
    rcases List.mem_append.mp hconf' with hconf' | hconf'
    · exact hstatus conf' hconf'
    · rw [List.mem_singleton.mp hconf']
      exact hconf

/-- Passing on a confirmation with another status rejects nothing. -/
theorem keeps_callback {conf : TradeConfirmationMessage} (hconf : conf.status ≠ .REJECTED) :
    Proc.Keeps (NoRejection before) (callback conf : BrokerProc ε Unit) :=
  Proc.keeps_modify fun _ h => h.confirm hconf

/-- Nothing else that a method does dispatches anything. -/
theorem keeps_silent {f : CppOrderBookBroker ε → CppOrderBookBroker ε}
    (hf : ∀ s, (f s).confirmations = s.confirmations) :
    Proc.Keeps (NoRejection before) (Proc.modify f : BrokerProc ε Unit) := by
  refine Proc.keeps_modify fun s h => ?_
  obtain ⟨new, hnew, hstatus⟩ := h
  exact ⟨new, (hf s).trans hnew, hstatus⟩

/-- Storing details rejects nothing. -/
theorem keeps_setDetails (brokerOrdId : ℤ) (details : OrderDetails) :
    Proc.Keeps (NoRejection before)
      (Proc.modify (·.setDetails brokerOrdId details) : BrokerProc ε Unit) :=
  keeps_silent fun _ => rfl

/-- A body under the lock rejects what it rejects without it. -/
theorem keeps_withBrokerLock {α : Type} {body : BrokerProc ε α}
    (hbody : Proc.Keeps (NoRejection before) body) :
    Proc.Keeps (NoRejection before) (Proc.withLock brokerLock body) :=
  Proc.Keeps.withLock (fun _ _ h => h) hbody

/-- Cleaning up the maps rejects nothing. -/
theorem keeps_cleanupOrderMaps (clientOrderId : String) (brokerOrderId : ℤ) :
    Proc.Keeps (NoRejection before)
      (cleanupOrderMaps clientOrderId brokerOrderId : BrokerProc ε Unit) :=
  keeps_withBrokerLock (keeps_silent fun _ => rfl)

/-- Processing a fill rejects nothing. -/
theorem keeps_processFill (fill : FillInfo) :
    Proc.Keeps (NoRejection before) (processFill fill : BrokerProc ε Unit) := by
  unfold processFill
  refine Proc.Keeps.bind (keeps_withBrokerLock (Proc.keeps_get.bind fun _ => Proc.keeps_pure _)) ?_
  rintro ⟨originalClientId, originalOrder⟩
  cases originalClientId with
  | none => exact Proc.keeps_pure _
  | some originalClientId =>
      cases originalOrder with
      | none => exact Proc.keeps_pure _
      | some originalOrder =>
          dsimp only
          split_ifs
          · exact (keeps_setDetails _ _).bind fun _ =>
              (keeps_callback (afterFill_ne_rejected _ _)).bind fun _ => keeps_cleanupOrderMaps _ _
          · exact (keeps_setDetails _ _).bind fun _ =>
              (keeps_callback (afterFill_ne_rejected _ _)).bind fun _ => Proc.keeps_pure _
          · exact Proc.keeps_pure _

/-- Processing the fills rejects nothing. -/
theorem keeps_processFills : ∀ fills : List FillInfo,
    Proc.Keeps (NoRejection before) (processFills fills : BrokerProc ε Unit)
  | [] => Proc.keeps_pure _
  | fill :: fills => (keeps_processFill fill).bind fun _ => keeps_processFills fills

/-- What follows from the final status rejects nothing. -/
theorem keeps_handleFinalStatus (clientOrderId symbol : String) (sideIsBuy : Bool)
    (price : PyFloat) (brokerOrdId : ℤ) (finalStatus : Option BookStatus) :
    Proc.Keeps (NoRejection before) (handleFinalStatus clientOrderId symbol sideIsBuy price
      brokerOrdId finalStatus : BrokerProc ε Unit) := by
  refine keeps_withBrokerLock (Proc.keeps_get.bind fun s => ?_)
  cases s.brokerIdToOrderDetails.lookup brokerOrdId with
  | none => exact Proc.keeps_pure _
  | some current =>
      dsimp only
      split_ifs
      · exact (keeps_setDetails _ _).bind fun _ => keeps_cleanupOrderMaps _ _
      · exact Proc.keeps_pure _
      · exact (keeps_callback (by simp)).bind fun _ =>
          (keeps_setDetails _ _).bind fun _ => keeps_cleanupOrderMaps _ _
      · exact keeps_setDetails _ _
      · exact Proc.keeps_pure _

/-- Giving out an id rejects nothing. -/
theorem keeps_getNextBrokerId :
    Proc.Keeps (NoRejection before) (getNextBrokerId : BrokerProc ε ℤ) := by
  refine keeps_withBrokerLock (Proc.Keeps.bind ?_ fun _ => ?_)
  · exact keeps_silent fun _ => rfl
  · exact Proc.keeps_get.bind fun _ => Proc.keeps_pure _

/-- A Python value rejects nothing. -/
theorem keeps_ofPy {α : Type} (value : Except PyError α) :
    Proc.Keeps (NoRejection before) (ofPy value : BrokerProc ε α) := by
  cases value with
  | ok a => exact Proc.keeps_pure a
  | error e => exact Proc.keeps_raise e

/-- Sending rejects nothing. -/
theorem keeps_send (sendRequestToOb : Json → ε → Option Reply × ε) (request : Json) :
    Proc.Keeps (NoRejection before) (send sendRequestToOb request) :=
  Proc.keeps_get.bind fun _ => Proc.Keeps.bind (keeps_silent fun _ => rfl) fun _ =>
    Proc.keeps_pure _

/-- An order that the book has accepted is not rejected. -/
theorem keeps_submitOrder {reply : Reply} (hok : reply.status = some .OK)
    (clientOrderId symbol : String) (quantity : ℤ) (sideIsBuy : Bool) (orderTypeStr : String)
    (price : PyFloat) : Proc.Keeps (NoRejection before)
      (submitOrder (answering (some reply)) clientOrderId symbol quantity sideIsBuy orderTypeStr
        (some price)) := by
  refine keeps_getNextBrokerId.bind fun brokerOrdId => ?_
  refine Proc.Keeps.bind (keeps_withBrokerLock (keeps_silent fun _ => rfl)) fun _ => ?_
  refine (keeps_ofPy _).bind fun intPrice => ?_
  -- the reply is the one that the server gives
  intro s h
  rw [Proc.wp_bind, send, Proc.wp_bind, Proc.wp_get, Proc.wp_bind, Proc.wp_modify, Proc.wp_pure]
  dsimp only [answering]
  rw [if_neg (not_not.mpr hok)]
  refine Proc.Keeps.bind (keeps_setDetails _ _) (fun _ => ?_) _ h
  exact (keeps_processFills _).bind fun _ =>
    (keeps_handleFinalStatus _ _ _ _ _ _).bind fun _ => Proc.keeps_pure _

/-- `cancel_order` rejects nothing. -/
theorem keeps_cancelOrder (response : Option Reply) (clientOrderId : String) :
    Proc.Keeps (NoRejection before) (cancelOrder (answering response) clientOrderId) := by
  refine Proc.Keeps.bind (keeps_withBrokerLock (Proc.keeps_get.bind fun _ => Proc.keeps_pure _)) ?_
  intro tracked
  cases tracked with
  | none => exact Proc.keeps_pure _
  | some tracked =>
      obtain ⟨brokerOrdId, details⟩ := tracked
      dsimp only
      split_ifs
      · exact Proc.keeps_pure _
      · refine (keeps_setDetails _ _).bind fun _ => ?_
        refine Proc.Keeps.bind (keeps_send _ _) fun response => ?_
        split_ifs
        · exact (keeps_setDetails _ _).bind fun _ => (keeps_callback (by simp)).bind fun _ =>
            (keeps_cleanupOrderMaps _ _).bind fun _ => Proc.keeps_pure _
        · exact (keeps_setDetails _ _).bind fun _ => Proc.keeps_pure _

/-- `get_market_data_snapshot` rejects nothing. -/
theorem keeps_getMarketDataSnapshot (response : Option Reply) (symbol : String) :
    Proc.Keeps (NoRejection before) (getMarketDataSnapshot (answering response) symbol) := by
  refine (keeps_send _ _).bind fun response => ?_
  cases response with
  | none => exact Proc.keeps_pure _
  | some reply =>
      dsimp only
      split_ifs
      · exact Proc.keeps_pure _
      · exact Proc.keeps_pure _

/-- A submission has a price. -/
def SocketCall.Priced : SocketCall → Prop
  | .positionManager (.submitOrder _ _ _ _ _ price) => price.isSome = true
  | _ => True

/-- Without a price no request is sent. -/
theorem SocketCall.priced_of_request {c : SocketCall} {s : CppOrderBookBroker Unit}
    {request : Json} (h : c.request s = some request) : c.Priced := by
  cases c with
  | api symbol => trivial
  | positionManager call =>
      cases call with
      | cancelOrder id => trivial
      | submitOrder id symbol quantity sideIsBuy orderTypeStr price =>
          cases price with
          | some price => rfl
          | none =>
              have hnone : SocketCall.request (.positionManager
                  (.submitOrder id symbol quantity sideIsBuy orderTypeStr none)) s = none := rfl
              rw [hnone] at h
              cases h

/-- **A call that gets an `OK` does not dispatch a rejection.** -/
theorem SocketCall.not_dispatchesRejection {c : SocketCall} (hpriced : c.Priced) {reply : Reply}
    (hok : reply.status = some .OK) (s : CppOrderBookBroker Unit) :
    dispatchesRejection s (c.after (some reply) s) = false := by
  have hkept : NoRejection s.confirmations (c.after (some reply) s) := by
    have hstart : NoRejection s.confirmations s := ⟨[], by simp, by simp⟩
    cases c with
    | api symbol => exact (keeps_getMarketDataSnapshot (some reply) symbol s hstart).state
    | positionManager call =>
        refine Proc.wp.state (x := call.run (answering (some reply))) ?_
        cases call with
        | cancelOrder id =>
            exact Proc.Keeps.bind (keeps_cancelOrder (some reply) id)
              (fun _ => Proc.keeps_pure _) s hstart
        | submitOrder id symbol quantity sideIsBuy orderTypeStr price =>
            obtain ⟨price, rfl⟩ := Option.isSome_iff_exists.mp hpriced
            exact Proc.Keeps.bind (keeps_submitOrder hok id symbol quantity sideIsBuy orderTypeStr
              price) (fun _ => Proc.keeps_pure _) s hstart
  obtain ⟨new, hnew, hstatus⟩ := hkept
  unfold dispatchesRejection
  rw [hnew, List.drop_left, List.any_eq_false]
  intro conf hconf
  simpa using hstatus conf hconf

end rejections

end FlowManager.Broker
