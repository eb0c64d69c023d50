import FlowManager.Broker.Fills

/-!
# The three maps of the broker

`client_to_broker_id_map`, `broker_to_client_id_map` and `broker_id_to_order_details` are written
and erased together. `Indexed` says that they agree: the first two are inverse to each other, and
the third has the keys of the second. Every change that the methods make keeps it, under the
conditions that hold where they make it: a new order comes under ids that are not in use, and an
order is forgotten under the two ids that belong together. `Keyed` is what is left of it where
client ids are used again: an order that is tracked under a client id may not be what the id stands
for.
-/

namespace FlowManager.Broker

open FlowManager.Lib FlowManager.Server

section maps

variable {ε : Type} {s : CppOrderBookBroker ε} {b : ℤ} {clientOrderId : String}
  {order : OrderDetails}

/-- What a client id stands for is tracked for it, and the details have the keys of the tracked
orders. -/
structure CppOrderBookBroker.Keyed (s : CppOrderBookBroker ε) : Prop where
  owned : ∀ {clientOrderId b}, s.clientToBrokerIdMap.lookup clientOrderId = some b →
    s.brokerToClientIdMap.lookup b = some clientOrderId
  detailed : ∀ b, (s.brokerIdToOrderDetails.lookup b).isSome ↔
    (s.brokerToClientIdMap.lookup b).isSome

/-- The three maps agree: the client id of a tracked order stands for it. -/
structure CppOrderBookBroker.Indexed (s : CppOrderBookBroker ε) : Prop extends s.Keyed where
  listed : ∀ {clientOrderId b}, s.brokerToClientIdMap.lookup b = some clientOrderId →
    s.clientToBrokerIdMap.lookup clientOrderId = some b

namespace CppOrderBookBroker.Keyed

/-- A client id that has a broker id has details under it. -/
theorem exists_tracks (h : s.Keyed) (hb : s.brokerToClientIdMap.lookup b = some clientOrderId) :
    ∃ order, s.Tracks b clientOrderId order := by
  have hsome := (h.detailed b).mpr (by rw [hb]; rfl)
  obtain ⟨order, horder⟩ := Option.isSome_iff_exists.mp hsome
  exact ⟨order, hb, horder⟩

/-- Details are those of some client's order. -/
theorem exists_tracks_of_details (h : s.Keyed)
    (hb : s.brokerIdToOrderDetails.lookup b = some order) :
    ∃ clientOrderId, s.Tracks b clientOrderId order := by
  have hsome := (h.detailed b).mp (by rw [hb]; rfl)
  obtain ⟨clientOrderId, hclient⟩ := Option.isSome_iff_exists.mp hsome
  exact ⟨clientOrderId, hclient, hb⟩

/-- A new order, under a broker id that is not in use. -/
theorem store (h : s.Keyed) (hb : s.brokerToClientIdMap.lookup b = none) :
    (s.store b order).Keyed where
  owned := by
    intro clientOrderId b' hb'
    replace hb' : (s.clientToBrokerIdMap.insert order.clientOrderId b).lookup clientOrderId =
      some b' := hb'
    show (s.brokerToClientIdMap.insert b order.clientOrderId).lookup b' = some clientOrderId
    rw [Dict.lookup_insert_ite] at hb' ⊢
    split_ifs at hb' with hclient
    · obtain rfl := Option.some.inj hb'
      rw [if_pos rfl, hclient]
    · have hold := h.owned hb'
      rw [if_neg, hold]
      rintro rfl
      rw [hb] at hold
      cases hold
  detailed := by
    intro b'
    show ((s.brokerIdToOrderDetails.insert _ _).lookup _).isSome ↔
      ((s.brokerToClientIdMap.insert _ _).lookup _).isSome
    rw [Dict.lookup_insert_ite, Dict.lookup_insert_ite]
    split_ifs
    · simp
    · exact h.detailed b'

/-- New details for an order that is tracked. -/
theorem setDetails (h : s.Keyed) (hb : s.brokerToClientIdMap.lookup b = some clientOrderId)
    (order : OrderDetails) : (s.setDetails b order).Keyed where
  owned := h.owned
  detailed := by
    intro b'
    rw [setDetails_lookup]
    show _ ↔ (s.brokerToClientIdMap.lookup b').isSome
    split_ifs with hb'
    · subst hb'
      simp [hb]
    · exact h.detailed b'

/-- An order is forgotten under its own two ids. -/
theorem forget (h : s.Keyed) (hb : s.brokerToClientIdMap.lookup b = some clientOrderId) :
    (s.forget clientOrderId b).Keyed where
  owned := by
    intro clientOrderId' b' hb'
    rw [forget_client_lookup]
    replace hb' : (s.clientToBrokerIdMap.erase clientOrderId).lookup clientOrderId' = some b' := hb'
    rw [Dict.lookup_erase_ite] at hb'
    split_ifs at hb' with hclient
    have hold := h.owned hb'
    rw [if_neg, hold]
    rintro rfl
    exact hclient (Option.some.inj (hold.symm.trans hb))
  detailed := by
    intro b'
    rw [forget_client_lookup, forget_details_lookup]
    split_ifs
    · simp
    · exact h.detailed b'

/-- A confirmation leaves the maps. -/
theorem confirm (h : s.Keyed) (confirmation : TradeConfirmationMessage) :
    (s.confirm confirmation).Keyed :=
  ⟨h.owned, h.detailed⟩

/-- The fill of a tracked order keeps the maps in agreement. -/
theorem fillTracked (h : s.Keyed) {fill : FillInfo}
    (htracks : s.Tracks fill.orderIdFilled clientOrderId order) :
    (s.fillTracked clientOrderId order fill).Keyed := by
  have hset := (h.setDetails htracks.client (afterFill order fill.tradedQuantity).1).confirm
    (fillConfirmation clientOrderId (afterFill order fill.tradedQuantity).1 fill
      (afterFill order fill.tradedQuantity).2)
  simp only [CppOrderBookBroker.fillTracked]
  split_ifs
  · exact hset.forget htracks.client
  · exact hset

/-- A leg keeps the maps in agreement. -/
theorem applyFill (h : s.Keyed) (fill : FillInfo) : (s.applyFill fill).Keyed := by
  rcases applyFill_cases s fill with heq | ⟨clientOrderId, order, htracks, -, -, heq⟩
  · rwa [heq]
  · rw [heq]
    exact h.fillTracked htracks

/-- The loop over the trades keeps the maps in agreement. -/
theorem applyFills (h : s.Keyed) (fills : List FillInfo) : (s.applyFills fills).Keyed :=
  applyFills_keeps (fun htracks _ h => h.fillTracked htracks) h fills

/-- Marking an order as working keeps the maps in agreement. -/
theorem markWorking (h : s.Keyed) (b : ℤ) : (s.markWorking b).Keyed := by
  rcases markWorking_cases s b with heq | ⟨order, hdetails, heq⟩
  · rwa [heq]
  · obtain ⟨clientOrderId, htracks⟩ := h.exists_tracks_of_details hdetails
    rw [heq]
    exact h.setDetails htracks.client _

end CppOrderBookBroker.Keyed

/-- A new broker has no orders. -/
theorem indexed_init (orderBook : ε) : (CppOrderBookBroker.init orderBook).Indexed where
  owned := by
    intro clientOrderId b hb
    simp [CppOrderBookBroker.init] at hb
  detailed := by
    intro b
    simp [CppOrderBookBroker.init]
  listed := by
    intro clientOrderId b hb
    simp [CppOrderBookBroker.init] at hb

namespace CppOrderBookBroker.Indexed

/-- The two id maps are inverse to each other. -/
theorem inverse (h : s.Indexed) (clientOrderId : String) (b : ℤ) :
    s.clientToBrokerIdMap.lookup clientOrderId = some b ↔
      s.brokerToClientIdMap.lookup b = some clientOrderId :=
  ⟨h.owned, h.listed⟩

/-- A client id has one broker id. -/
theorem eq_of_client (h : s.Indexed) {b' : ℤ}
    (hb : s.brokerToClientIdMap.lookup b = some clientOrderId)
    (hb' : s.brokerToClientIdMap.lookup b' = some clientOrderId) : b = b' :=
  Option.some.inj ((h.listed hb).symm.trans (h.listed hb'))

/-- A client id has no broker id if no order is tracked for it. -/
theorem client_eq_none_iff (h : s.Indexed) :
    s.clientToBrokerIdMap.lookup clientOrderId = none ↔
      ∀ b, s.brokerToClientIdMap.lookup b ≠ some clientOrderId := by
  rw [Option.eq_none_iff_forall_ne_some]
  exact forall_congr' fun b => not_congr (h.inverse clientOrderId b)

/-- Other maps with the same entries agree as well. -/
theorem congr (h : s.Indexed) {s' : CppOrderBookBroker ε}
    (hids : ∀ clientOrderId, s'.clientToBrokerIdMap.lookup clientOrderId =
      s.clientToBrokerIdMap.lookup clientOrderId)
    (hclient : ∀ b, s'.brokerToClientIdMap.lookup b = s.brokerToClientIdMap.lookup b)
    (hdetails : ∀ b, s'.brokerIdToOrderDetails.lookup b = s.brokerIdToOrderDetails.lookup b) :
    s'.Indexed := by
  refine ⟨⟨fun {clientOrderId b} hb => ?_, fun b => ?_⟩, fun {clientOrderId b} hb => ?_⟩
  · rw [hids] at hb
    rw [hclient]
    exact h.owned hb
  · rw [hclient, hdetails]
    exact h.detailed b
  · rw [hclient] at hb
    rw [hids]
    exact h.listed hb

/-- A new order, under ids that are not in use. -/
theorem store (h : s.Indexed) (hb : s.brokerToClientIdMap.lookup b = none)
    (hclient : ∀ b', s.brokerToClientIdMap.lookup b' ≠ some order.clientOrderId) :
    (s.store b order).Indexed := by
  refine ⟨h.toKeyed.store hb, fun {clientOrderId b'} hb' => ?_⟩
  replace hb' : (s.brokerToClientIdMap.insert b order.clientOrderId).lookup b' =
    some clientOrderId := hb'
  show (s.clientToBrokerIdMap.insert order.clientOrderId b).lookup clientOrderId = some b'
  rw [Dict.lookup_insert_ite] at hb' ⊢
  split_ifs at hb' with hnew
  · rw [if_pos (Option.some.inj hb').symm, hnew]
  · rw [if_neg, h.listed hb']
    rintro rfl
    exact hclient b' hb'

/-- New details for an order that is tracked. -/
theorem setDetails (h : s.Indexed) (hb : s.brokerToClientIdMap.lookup b = some clientOrderId)
    (order : OrderDetails) : (s.setDetails b order).Indexed :=
  ⟨h.toKeyed.setDetails hb order, h.listed⟩

/-- An order is forgotten under its own two ids. -/
theorem forget (h : s.Indexed) (hb : s.brokerToClientIdMap.lookup b = some clientOrderId) :
    (s.forget clientOrderId b).Indexed := by
  refine ⟨h.toKeyed.forget hb, fun {clientOrderId' b'} hb' => ?_⟩
  rw [forget_client_lookup] at hb'
  split_ifs at hb' with hne
  show (s.clientToBrokerIdMap.erase clientOrderId).lookup clientOrderId' = some b'
  rw [Dict.lookup_erase_ite, if_neg, h.listed hb']
  rintro rfl
  exact hne (h.eq_of_client hb' hb)

/-- A confirmation leaves the maps. -/
theorem confirm (h : s.Indexed) (confirmation : TradeConfirmationMessage) :
    (s.confirm confirmation).Indexed :=
  ⟨h.toKeyed.confirm confirmation, h.listed⟩

/-- The fill of a tracked order keeps the maps in agreement. -/
theorem fillTracked (h : s.Indexed) {fill : FillInfo}
    (htracks : s.Tracks fill.orderIdFilled clientOrderId order) :
    (s.fillTracked clientOrderId order fill).Indexed := by
  have hset := (h.setDetails htracks.client (afterFill order fill.tradedQuantity).1).confirm
    (fillConfirmation clientOrderId (afterFill order fill.tradedQuantity).1 fill
      (afterFill order fill.tradedQuantity).2)
  simp only [CppOrderBookBroker.fillTracked]
  split_ifs
  · exact hset.forget htracks.client
  · exact hset

/-- A leg keeps the maps in agreement. -/
theorem applyFill (h : s.Indexed) (fill : FillInfo) : (s.applyFill fill).Indexed := by
  rcases applyFill_cases s fill with heq | ⟨clientOrderId, order, htracks, -, -, heq⟩
  · rwa [heq]
  · rw [heq]
    exact h.fillTracked htracks

/-- The loop over the trades keeps the maps in agreement. -/
theorem applyFills (h : s.Indexed) (fills : List FillInfo) : (s.applyFills fills).Indexed :=
  applyFills_keeps (fun htracks _ h => h.fillTracked htracks) h fills

/-- Marking an order as working keeps the maps in agreement. -/
theorem markWorking (h : s.Indexed) (b : ℤ) : (s.markWorking b).Indexed := by
  rcases markWorking_cases s b with heq | ⟨order, hdetails, heq⟩
  · rwa [heq]
  · obtain ⟨clientOrderId, htracks⟩ := h.exists_tracks_of_details hdetails
    rw [heq]
    exact h.setDetails htracks.client _

end CppOrderBookBroker.Indexed

/-! ## What the loop over the trades keeps -/

/-- A leg adds no order to the maps. -/
theorem applyFill_client_lookup {fill : FillInfo}
    (h : (s.applyFill fill).brokerToClientIdMap.lookup b = some clientOrderId) :
    s.brokerToClientIdMap.lookup b = some clientOrderId := by
  unfold CppOrderBookBroker.applyFill at h
  split at h
  · split_ifs at h
    · simp only [CppOrderBookBroker.fillTracked] at h
      split_ifs at h
      · rw [forget_client_lookup] at h
        split_ifs at h
        exact h
      · exact h
    · exact h
  · exact h

/-- The loop adds no order to the maps. -/
theorem applyFills_client_lookup {fills : List FillInfo}
    (h : (s.applyFills fills).brokerToClientIdMap.lookup b = some clientOrderId) :
    s.brokerToClientIdMap.lookup b = some clientOrderId := by
  induction fills generalizing s with
  | nil => exact h
  | cons fill fills ih =>
      rw [applyFills_cons] at h
      exact applyFill_client_lookup (ih h)

/-! ## What marking an order as working keeps -/

/-- The same orders are tracked. -/
theorem markWorking_client (b : ℤ) :
    (s.markWorking b).brokerToClientIdMap = s.brokerToClientIdMap := by
  rcases markWorking_cases s b with heq | ⟨_, -, heq⟩ <;> rw [heq]
  rfl

/-- Only a status changes. -/
theorem markWorking_tracks (h : s.Tracks b clientOrderId order) (b' : ℤ) :
    ∃ status, (s.markWorking b').Tracks b clientOrderId { order with status := status } := by
  rcases markWorking_cases s b' with heq | ⟨current, hcurrent, heq⟩ <;> rw [heq]
  · exact ⟨order.status, h⟩
  · by_cases hb : b = b'
    · subst hb
      obtain rfl := Option.some.inj (h.details.symm.trans hcurrent)
      exact ⟨.WORKING, h.client, (setDetails_lookup _ _ _).trans (if_pos rfl)⟩
    · exact ⟨order.status, h.client,
        ((setDetails_lookup _ _ _).trans (if_neg hb)).trans h.details⟩

end maps

end FlowManager.Broker
