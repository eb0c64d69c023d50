import FlowManager.Broker.Maps

/-!
# The prices that a submission reports

The confirmation of a leg carries the broker id that the leg names and the price of the leg, and a
leg of an order that the broker tracks under a client id is confirmed (`applyFills_confirmations`,
`exists_report`). An order that no leg fills stays tracked, and with the details its price is kept.
The final status adds the confirmation of a cancel at most, with the price of the submission,
whether the call returns or is stuck (`handleFinalStatus_concludes`).
-/

namespace FlowManager.Broker

open FlowManager.Lib FlowManager.Server

section reports

variable {ε : Type} {s : CppOrderBookBroker ε} {b : ℤ} {clientOrderId : String}
  {order : OrderDetails} {fill : FillInfo} {fills : List FillInfo} {c : TradeConfirmationMessage}

/-! ## Which prices are reported -/

/-- The confirmation is that of the leg. -/
structure Confirms (c : TradeConfirmationMessage) (fill : FillInfo) : Prop where
  orderId : c.orderId = fill.orderIdFilled
  price : c.price = .finite fill.price
  moved : 0 < fill.tradedQuantity
  status : c.status ≠ .REJECTED

/-- A fill passes one confirmation on. -/
theorem fillTracked_confirmations (clientOrderId : String) (order : OrderDetails)
    (fill : FillInfo) : (s.fillTracked clientOrderId order fill).confirmations =
      s.confirmations ++ [fillConfirmation clientOrderId (afterFill order fill.tradedQuantity).1 fill
        (afterFill order fill.tradedQuantity).2] := by
  unfold CppOrderBookBroker.fillTracked
  dsimp only
  split_ifs <;> rfl

/-- What a leg makes the broker pass on is its confirmation, for an order that it tracks under a
client id. -/
theorem applyFill_confirmations (s : CppOrderBookBroker ε) (fill : FillInfo) : ∃ cs,
    (s.applyFill fill).confirmations = s.confirmations ++ cs ∧
      ∀ c ∈ cs, Confirms c fill ∧
        s.brokerToClientIdMap.lookup c.orderId = some c.clientOrderId ∧ c.clientOrderId ≠ "" := by
  rcases applyFill_cases s fill with heq | ⟨clientOrderId, order, htracks, hname, hpos, heq⟩
  · exact ⟨[], by rw [heq, List.append_nil], fun _ hc => absurd hc List.not_mem_nil⟩
  · refine ⟨[_], by rw [heq, fillTracked_confirmations], List.forall_mem_singleton.mpr ?_⟩
    exact ⟨⟨rfl, rfl, hpos, afterFill_ne_rejected _ _⟩, htracks.client, hname⟩

/-- **What the loop passes on** are confirmations of its legs, for orders that the broker tracks under
a client id. -/
theorem applyFills_confirmations (s : CppOrderBookBroker ε) (fills : List FillInfo) : ∃ cs,
    (s.applyFills fills).confirmations = s.confirmations ++ cs ∧
      ∀ c ∈ cs, (∃ fill ∈ fills, Confirms c fill) ∧
        s.brokerToClientIdMap.lookup c.orderId = some c.clientOrderId ∧ c.clientOrderId ≠ "" := by
  induction fills generalizing s with
  | nil => exact ⟨[], (List.append_nil _).symm, fun _ hc => absurd hc List.not_mem_nil⟩
  | cons fill fills ih =>
      obtain ⟨cs, hcs, hfirst⟩ := applyFill_confirmations s fill
      obtain ⟨cs', hcs', hrest⟩ := ih (s.applyFill fill)
      refine ⟨cs ++ cs', ?_, List.forall_mem_append.mpr ⟨fun c hc => ?_, fun c hc => ?_⟩⟩
      · rw [applyFills_cons, hcs', hcs, List.append_assoc]
      · obtain ⟨hconfirms, htracked⟩ := hfirst c hc
        exact ⟨⟨fill, List.mem_cons_self, hconfirms⟩, htracked⟩
      · obtain ⟨⟨fill', hfill', hconfirms⟩, hclient, hname⟩ := hrest c hc
        exact ⟨⟨fill', List.mem_cons_of_mem _ hfill', hconfirms⟩, applyFill_client_lookup hclient,
          hname⟩

/-- Nothing that has been passed on is taken back. -/
theorem subset_applyFills (fills : List FillInfo) (hc : c ∈ s.confirmations) :
    c ∈ (s.applyFills fills).confirmations := by
  obtain ⟨cs, hcs, -⟩ := applyFills_confirmations s fills
  rw [hcs]
  exact List.mem_append_left _ hc

/-- **A leg of an order that the broker tracks under a client id is passed on**: it or an earlier one
that has finished the order. -/
theorem exists_report (hi : s.Keyed)
    (hclient : s.brokerToClientIdMap.lookup b = some clientOrderId) (hnamed : clientOrderId ≠ "")
    (hfill : ∃ fill ∈ fills, fill.orderIdFilled = b ∧ 0 < fill.tradedQuantity) :
    ∃ fill ∈ fills, fill.orderIdFilled = b ∧
      ∃ c ∈ (s.applyFills fills).confirmations, Confirms c fill := by
  induction fills generalizing s with
  | nil =>
      obtain ⟨_, hnil, -⟩ := hfill
      exact absurd hnil List.not_mem_nil
  | cons fill fills ih =>
      obtain ⟨order, htracks⟩ := hi.exists_tracks hclient
      by_cases hown : fill.orderIdFilled = b ∧ 0 < fill.tradedQuantity
      · obtain ⟨rfl, hpos⟩ := hown
        refine ⟨fill, List.mem_cons_self, rfl, fillConfirmation clientOrderId
          (afterFill order fill.tradedQuantity).1 fill (afterFill order fill.tradedQuantity).2,
          ?_, rfl, rfl, hpos, afterFill_ne_rejected _ _⟩
        rw [applyFills_cons]
        apply subset_applyFills
        rw [applyFill_of_tracks htracks hnamed hpos, fillTracked_confirmations]
        exact List.mem_append_right _ (List.mem_singleton_self _)
      · have hrest : ∃ fill' ∈ fills, fill'.orderIdFilled = b ∧ 0 < fill'.tradedQuantity := by
          obtain ⟨fill', hfill', hown'⟩ := hfill
          rcases List.mem_cons.mp hfill' with rfl | hfill'
          · exact absurd hown' hown
          · exact ⟨fill', hfill', hown'⟩
        have hclient' : (s.applyFill fill).brokerToClientIdMap.lookup b = some clientOrderId := by
          rcases applyFill_cases s fill with heq | ⟨_, _, -, -, hpos, -⟩
          · rwa [heq]
          · rw [(applyFill_lookup_of_ne fun hb => hown ⟨hb.symm, hpos⟩).1]
            exact hclient
        obtain ⟨fill', hfill', hreport⟩ := ih (hi.applyFill fill) hclient' hrest
        exact ⟨fill', List.mem_cons_of_mem _ hfill', hreport⟩

/-! ## What the loop keeps -/

/-- An order that no leg fills stays as it was in the maps. -/
theorem applyFills_client_of_not_filled
    (hnot : ∀ fill ∈ fills, fill.orderIdFilled = b → ¬0 < fill.tradedQuantity) :
    (s.applyFills fills).brokerToClientIdMap.lookup b = s.brokerToClientIdMap.lookup b := by
  induction fills generalizing s with
  | nil => rfl
  | cons fill fills ih =>
      rw [applyFills_cons, ih fun fill' hfill' => hnot fill' (List.mem_cons_of_mem _ hfill')]
      rcases applyFill_cases s fill with heq | ⟨_, _, -, -, hpos, -⟩
      · rw [heq]
      · exact (applyFill_lookup_of_ne fun hb => hnot fill List.mem_cons_self hb.symm hpos).1

/-- A leg leaves the price of an order that stays tracked. -/
theorem applyFill_price (h : (s.applyFill fill).brokerIdToOrderDetails.lookup b = some order) :
    ∃ order', s.brokerIdToOrderDetails.lookup b = some order' ∧ order.price = order'.price := by
  rcases applyFill_cases s fill with heq | ⟨clientOrderId, order', htracks, -, -, heq⟩
  · rw [heq] at h
    exact ⟨order, h, rfl⟩
  · by_cases hb : b = fill.orderIdFilled
    · subst hb
      have hprice : (afterFill order' fill.tradedQuantity).1.price = order'.price := by
        unfold afterFill
        dsimp only
        split_ifs <;> rfl
      refine ⟨order', htracks.details, ?_⟩
      rw [heq] at h
      unfold CppOrderBookBroker.fillTracked at h
      dsimp only at h
      split_ifs at h
      · rw [forget_details_lookup, if_pos rfl] at h
        cases h
      · have hset := (setDetails_lookup (s := s) _ _ _).symm.trans h
        rw [if_pos rfl] at hset
        rw [← Option.some.inj hset, hprice]
    · rw [(applyFill_lookup_of_ne hb).2] at h
      exact ⟨order, h, rfl⟩

/-- The loop leaves the price of an order that stays tracked. -/
theorem applyFills_price (h : (s.applyFills fills).brokerIdToOrderDetails.lookup b = some order) :
    ∃ order', s.brokerIdToOrderDetails.lookup b = some order' ∧ order.price = order'.price := by
  induction fills generalizing s with
  | nil => exact ⟨order, h, rfl⟩
  | cons fill fills ih =>
      rw [applyFills_cons] at h
      obtain ⟨order₁, horder₁, hprice₁⟩ := ih h
      obtain ⟨order₂, horder₂, hprice₂⟩ := applyFill_price horder₁
      exact ⟨order₂, horder₂, hprice₁.trans hprice₂⟩

/-! ## The final status -/

/-- What the handling of the final status can have changed: the status of orders, and the
confirmation of a cancel. -/
structure Concludes (b : ℤ) (price : PyFloat) (s s' : CppOrderBookBroker ε) : Prop where
  ids : s'.clientToBrokerIdMap = s.clientToBrokerIdMap
  clients : s'.brokerToClientIdMap = s.brokerToClientIdMap
  counter : s'.brokerOrderIdCounter = s.brokerOrderIdCounter
  orderBook : s'.orderBook = s.orderBook
  details : ∀ b', ∃ status, s'.brokerIdToOrderDetails.lookup b' =
    (s.brokerIdToOrderDetails.lookup b').map fun order => { order with status := status }
  confirmations : ∃ cs, s'.confirmations = s.confirmations ++ cs ∧
    ∀ c ∈ cs, c.orderId = b ∧ c.status = .CANCELLED ∧ c.price = price

/-- No status is like the status that an order has. -/
theorem exists_status (d : Option OrderDetails) :
    ∃ status, d = d.map fun order => { order with status := status } := by
  rcases d with _ | order
  · exact ⟨.FILLED, rfl⟩
  · exact ⟨order.status, rfl⟩

/-- Nothing dispatched concludes nothing. -/
theorem Concludes.refl (b : ℤ) (price : PyFloat) (s : CppOrderBookBroker ε) :
    Concludes b price s s :=
  ⟨rfl, rfl, rfl, rfl, fun _ => exists_status _, [], (List.append_nil _).symm,
    fun _ hc => absurd hc List.not_mem_nil⟩

/-- A status of an order can change, -/
theorem Concludes.setStatus {current : OrderDetails}
    (hcurrent : s.brokerIdToOrderDetails.lookup b = some current) (price : PyFloat)
    (status : Status) :
    Concludes b price s (s.setDetails b { current with status := status }) := by
  refine ⟨rfl, rfl, rfl, rfl, fun b' => ?_, [], (List.append_nil _).symm,
    fun _ hc => absurd hc List.not_mem_nil⟩
  rw [setDetails_lookup]
  split_ifs with hb
  · exact ⟨status, by rw [hb, hcurrent]; rfl⟩
  · exact exists_status _

/-- and with it a cancel can be confirmed. -/
theorem Concludes.cancel {s' : CppOrderBookBroker ε} {price : PyFloat} (h : Concludes b price s s')
    (hc : c.orderId = b ∧ c.status = .CANCELLED ∧ c.price = price) :
    Concludes b price s (s'.confirm c) := by
  obtain ⟨cs, hcs, hall⟩ := h.confirmations
  refine ⟨h.ids, h.clients, h.counter, h.orderBook, h.details, cs ++ [c], ?_,
    List.forall_mem_append.mpr ⟨hall, List.forall_mem_singleton.mpr hc⟩⟩
  show s'.confirmations ++ [c] = _
  rw [hcs, List.append_assoc]

/-- The lock does not matter. -/
theorem Concludes.locked {s' : CppOrderBookBroker ε} {price : PyFloat} (h : Concludes b price s s')
    (lockHeld : Bool) : Concludes b price s { s' with lockHeld := lockHeld } :=
  ⟨h.ids, h.clients, h.counter, h.orderBook, h.details, h.confirmations⟩

/-- **The state that the final status leaves**, also where the call does not return. -/
theorem handleFinalStatus_concludes (hfree : s.lockHeld = false) (clientOrderId symbol : String)
    (sideIsBuy : Bool) (price : PyFloat) (finalStatus : Option BookStatus) :
    Concludes b price s
      ((handleFinalStatus clientOrderId symbol sideIsBuy price b finalStatus).run s).state := by
  rcases htracked : s.brokerIdToOrderDetails.lookup b with _ | current
  · rw [run_handleFinalStatus_of_not_tracked _ _ _ _ hfree htracked]
    exact .refl b price s
  by_cases hfinal : finishes finalStatus = true
  · simp only [finishes, decide_eq_true_eq] at hfinal
    rcases hfinal with rfl | rfl
    · by_cases hstatus : current.status = .FILLED
      · have hrun : ((handleFinalStatus clientOrderId symbol sideIsBuy price b
            (some .FILLED)).run s).state = s := by
          obtain ⟨_, _, _, _, details, _, _⟩ := s
          obtain rfl : _ = false := hfree
          simp only at htracked
          simp [handleFinalStatus, Proc.withLock, brokerLock, htracked, hstatus, Outcome.state]
        rw [hrun]
        exact .refl b price s
      · have hrun : ((handleFinalStatus clientOrderId symbol sideIsBuy price b
            (some .FILLED)).run s).state =
              { s.setDetails b { current with status := .FILLED } with lockHeld := true } := by
          obtain ⟨_, _, _, _, details, _, _⟩ := s
          obtain rfl : _ = false := hfree
          simp only at htracked
          simp [handleFinalStatus, Proc.withLock, brokerLock, htracked, hstatus, cleanupOrderMaps,
            CppOrderBookBroker.setDetails, Outcome.state]
        rw [hrun]
        exact (Concludes.setStatus htracked price .FILLED).locked true
    · have hrun : ((handleFinalStatus clientOrderId symbol sideIsBuy price b
          (some .REJECTED_BY_BOOK)).run s).state =
            { (s.setDetails b { current with status := .CANCELLED }).confirm
              ⟨b, clientOrderId, symbol, 0, sideIsBuy, price, .CANCELLED⟩ with lockHeld := true } := by
        obtain ⟨_, _, _, _, details, _, _⟩ := s
        obtain rfl : _ = false := hfree
        simp only at htracked
        simp [handleFinalStatus, Proc.withLock, brokerLock, htracked, cleanupOrderMaps, callback,
          CppOrderBookBroker.setDetails, CppOrderBookBroker.confirm, Outcome.state]
      rw [hrun]
      exact ((Concludes.setStatus htracked price .CANCELLED).cancel ⟨rfl, rfl, rfl⟩).locked true
  · rw [run_handleFinalStatus_of_working _ _ _ _ hfree (by simpa using hfinal)]
    rcases markWorking_cases s b with heq | ⟨current', hcurrent', heq⟩
    · show Concludes b price s (s.markWorking b)
      rw [heq]
      exact .refl b price s
    · show Concludes b price s (s.markWorking b)
      rw [heq]
      exact .setStatus hcurrent' price .WORKING

/-- What has been concluded keeps the maps in agreement, -/
theorem Concludes.keyed {s' : CppOrderBookBroker ε} {price : PyFloat} (h : Concludes b price s s')
    (hkeyed : s.Keyed) : s'.Keyed := by
  constructor
  · intro clientOrderId b' hb'
    rw [h.ids] at hb'
    rw [h.clients]
    exact hkeyed.owned hb'
  · intro b'
    obtain ⟨status, hdetails⟩ := h.details b'
    rw [h.clients, hdetails, Option.isSome_map]
    exact hkeyed.detailed b'

/-- and the price of every order. -/
theorem Concludes.price_eq {s' : CppOrderBookBroker ε} {price : PyFloat} (h : Concludes b price s s')
    {b' : ℤ} (hdetails : s'.brokerIdToOrderDetails.lookup b' = some order) :
    ∃ order', s.brokerIdToOrderDetails.lookup b' = some order' ∧ order.price = order'.price := by
  obtain ⟨status, hstatus⟩ := h.details b'
  rw [hstatus, Option.map_eq_some_iff] at hdetails
  obtain ⟨order', horder', rfl⟩ := hdetails
  exact ⟨order', horder', rfl⟩

end reports

end FlowManager.Broker
