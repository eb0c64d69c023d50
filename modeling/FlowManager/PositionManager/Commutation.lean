import FlowManager.Lib.Interleaving
import FlowManager.PositionManager.Consistency

/-!
# Confirmations of different orders commute

Order threads and replies of the broker deliver in an order that nothing determines. A confirmation
adds to the position and the traded total of its symbol, changes the entry of its own order, and
takes its id out of the list of its symbol if it ends the order. Each of these is a change of one
entry of one map, and for different orders they commute (`keysCommute_confirmationStep`): additions
do, removals from one list do, also where they empty and delete it, and whether a confirmation finds
its order live does not depend on the others. So what a list of confirmations leaves depends on the
sequence of each order only, however they are interleaved and cut into calls
(`confirmations_commute`). Nothing is asked of the state.
-/

namespace FlowManager.Position

open FlowManager.Lib FlowManager.Broker

variable {pm pm' : PositionManager}

/-- Two states with the same entries and queues are the same. -/
theorem PositionManager.ext_lookup
    (hpositions : ∀ s, pm.positions.lookup s = pm'.positions.lookup s)
    (htotal : ∀ s, pm.totalTradedBySymbol.lookup s = pm'.totalTradedBySymbol.lookup s)
    (horders : ∀ id, pm.liveOrders.lookup id = pm'.liveOrders.lookup id)
    (hlists : ∀ s, pm.liveOrdersBySymbol.lookup s = pm'.liveOrdersBySymbol.lookup s)
    (htargets : pm.targetPositions = pm'.targetPositions)
    (hupdates : pm.targetUpdatesQ = pm'.targetUpdatesQ)
    (hconfs : pm.tradeConfirmationsQ = pm'.tradeConfirmationsQ) : pm = pm' := by
  rcases pm with ⟨positions, targets, orders, lists, total, updates, confs⟩
  rcases pm' with ⟨positions', targets', orders', lists', total', updates', confs'⟩
  have h₁ : positions = positions' := Finmap.ext_lookup hpositions
  have h₂ : total = total' := Finmap.ext_lookup htotal
  have h₃ : orders = orders' := Finmap.ext_lookup horders
  have h₄ : lists = lists' := Finmap.ext_lookup hlists
  simp_all

/-! ## What a confirmation does to each entry -/

/-- What a confirmation adds to the entry of its symbol. -/
def addTo (amount : ℤ) (entry : Option ℤ) : Option ℤ := some (entry.getD 0 + amount)

/-- Two amounts are added to an entry in either order. -/
theorem addTo_comm (amount amount' : ℤ) (entry : Option ℤ) :
    addTo amount (addTo amount' entry) = addTo amount' (addTo amount entry) := by
  simp [addTo, add_right_comm]

/-- What the end of an order does to the list of a symbol: an emptied list is deleted. -/
def dropFrom (id : String) (ids : Option (List String)) : Option (List String) :=
  ids.bind fun ids =>
    if id ∈ ids then if ids.erase id = [] then none else some (ids.erase id) else some ids

/-- A list that an id is dropped from goes once it is empty. -/
theorem dropFrom_of_mem {id : String} {ids : List String} (h : id ∈ ids) :
    dropFrom id (some ids) = if ids.erase id = [] then none else some (ids.erase id) := by
  simp [dropFrom, h]

/-- A list without the id keeps what it has. -/
theorem dropFrom_of_not_mem {id : String} {ids : List String} (h : id ∉ ids) :
    dropFrom id (some ids) = some ids := by
  simp [dropFrom, h]

/-- An id that the list does not have is not there after a removal either. -/
theorem dropFrom_dropFrom_of_not_mem {id id' : String} {ids : List String} (h : id ∉ ids) :
    dropFrom id (dropFrom id' (some ids)) = dropFrom id' (some ids) := by
  have herase : id ∉ ids.erase id' := fun hid => h (List.mem_of_mem_erase hid)
  by_cases h' : id' ∈ ids
  · rw [dropFrom_of_mem h']
    split_ifs
    · rfl
    · exact dropFrom_of_not_mem herase
  · rw [dropFrom_of_not_mem h', dropFrom_of_not_mem h]

/-- Two ids that the list has: the first removal leaves the other one in it. -/
theorem dropFrom_dropFrom_of_mem {id id' : String} {ids : List String} (hne : id ≠ id')
    (h : id ∈ ids) (h' : id' ∈ ids) :
    dropFrom id (dropFrom id' (some ids)) =
      if (ids.erase id').erase id = [] then none else some ((ids.erase id').erase id) := by
  have hleft : id ∈ ids.erase id' := (List.mem_erase_of_ne hne).mpr h
  rw [dropFrom_of_mem h', if_neg (List.ne_nil_of_mem hleft), dropFrom_of_mem hleft]

/-- Removals from one list commute, with the deletion of the list. -/
theorem dropFrom_comm (id id' : String) (ids : Option (List String)) :
    dropFrom id (dropFrom id' ids) = dropFrom id' (dropFrom id ids) := by
  rcases ids with _ | ids
  · rfl
  by_cases hne : id = id'
  · rw [hne]
  by_cases h : id ∈ ids
  · by_cases h' : id' ∈ ids
    · rw [dropFrom_dropFrom_of_mem hne h h', dropFrom_dropFrom_of_mem (Ne.symm hne) h' h,
        List.erase_comm]
    · rw [dropFrom_dropFrom_of_not_mem h', dropFrom_of_not_mem h']
  · rw [dropFrom_dropFrom_of_not_mem h, dropFrom_of_not_mem h]

/-- What a confirmation does to the entry of its order. -/
def orderAfter (conf : TradeConfirmationMessage) (entry : Option OrderDetails) :
    Option OrderDetails :=
  entry.bind fun order =>
    if conf.status.isTerminal then none
    else some { order with
      filledQuantity := order.filledQuantity + conf.filledQuantity, status := conf.status }

/-- The confirmation ends the order whose entry it finds. -/
def ends (conf : TradeConfirmationMessage) (entry : Option OrderDetails) : Bool :=
  entry.isSome && conf.status.isTerminal

section entries

variable (conf : TradeConfirmationMessage) (pm : PositionManager)

/-- The positions after a confirmation, entry by entry. -/
theorem processConfirmation_positions_lookup (s : String) :
    (processConfirmation conf pm).positions.lookup s =
      if s = conf.symbol then addTo (signedFill conf) (pm.positions.lookup s)
      else pm.positions.lookup s := by
  have hread : (processConfirmation conf pm).positions = (addFill conf pm).positions :=
    processConfirmation_read conf (·.positions) (fun _ => by simp) fun _ _ => rfl
  rw [hread, addFill, Dict.lookup_insert_ite]
  by_cases hs : s = conf.symbol
  · subst hs
    simp [addTo, Dict.getD, signedFill]
  · simp [hs]

/-- The total traded after a confirmation, entry by entry. -/
theorem processConfirmation_totalTraded_lookup (s : String) :
    (processConfirmation conf pm).totalTradedBySymbol.lookup s =
      if s = conf.symbol then addTo conf.filledQuantity (pm.totalTradedBySymbol.lookup s)
      else pm.totalTradedBySymbol.lookup s := by
  have hread : (processConfirmation conf pm).totalTradedBySymbol =
      (addFill conf pm).totalTradedBySymbol :=
    processConfirmation_read conf (·.totalTradedBySymbol)
      (fun _ => by simp only [removeLiveOrder]; split_ifs <;> rfl) fun _ _ => rfl
  rw [hread, addFill, Dict.lookup_insert_ite]
  by_cases hs : s = conf.symbol
  · subst hs
    simp [addTo, Dict.getD]
  · simp [hs]

/-- The live orders after a confirmation, entry by entry. -/
theorem processConfirmation_liveOrders_lookup (id : String) :
    (processConfirmation conf pm).liveOrders.lookup id =
      if id = conf.clientOrderId then orderAfter conf (pm.liveOrders.lookup id)
      else pm.liveOrders.lookup id := by
  by_cases hid : id = conf.clientOrderId
  · subst hid
    rcases horder : pm.liveOrders.lookup conf.clientOrderId with _ | order
    · simp [processConfirmation, horder, orderAfter]
    · by_cases hterminal : conf.status.isTerminal
      · simp [processConfirmation, horder, orderAfter, hterminal]
      · simp [processConfirmation, horder, orderAfter, hterminal, setLiveOrder_lookup]
  · rw [if_neg hid]
    rcases horder : pm.liveOrders.lookup conf.clientOrderId with _ | order
    · simp [processConfirmation, horder]
    · by_cases hterminal : conf.status.isTerminal
      · simp [processConfirmation, horder, hterminal, hid]
      · simp [processConfirmation, horder, hterminal, setLiveOrder_lookup, hid]

/-- The list of the symbol loses the id; no other list is touched. -/
theorem removeLiveOrder_lists_lookup (s : String) :
    (removeLiveOrder conf pm).liveOrdersBySymbol.lookup s =
      if s = conf.symbol then dropFrom conf.clientOrderId (pm.liveOrdersBySymbol.lookup s)
      else pm.liveOrdersBySymbol.lookup s := by
  by_cases hs : s = conf.symbol
  · subst hs
    rw [if_pos rfl]
    rcases hids : pm.liveOrdersBySymbol.lookup conf.symbol with _ | ids
    · simp [removeLiveOrder, PositionManager.index, Dict.getD, hids, dropFrom]
    · simp only [removeLiveOrder, PositionManager.index, Dict.getD, hids, Option.getD_some]
      by_cases hid : conf.clientOrderId ∈ ids
      · rw [dropFrom_of_mem hid, if_pos hid]
        split_ifs <;> simp
      · rw [dropFrom_of_not_mem hid, if_neg hid, hids]
  · simp only [removeLiveOrder]
    split_ifs <;> simp [hs]

/-- The lists of the symbols after a confirmation, entry by entry. -/
theorem processConfirmation_lists_lookup (s : String) :
    (processConfirmation conf pm).liveOrdersBySymbol.lookup s =
      if s = conf.symbol ∧ ends conf (pm.liveOrders.lookup conf.clientOrderId) then
        dropFrom conf.clientOrderId (pm.liveOrdersBySymbol.lookup s)
      else pm.liveOrdersBySymbol.lookup s := by
  rcases horder : pm.liveOrders.lookup conf.clientOrderId with _ | order
  · simp [processConfirmation, horder, ends, addFill]
  · by_cases hterminal : conf.status.isTerminal
    · simp [processConfirmation, horder, ends, hterminal, removeLiveOrder_lists_lookup, addFill]
    · simp [processConfirmation, horder, ends, hterminal, PositionManager.setLiveOrder, addFill]

end entries

/-! ## Two confirmations -/

/-- **Confirmations of different orders commute**, in any state. -/
theorem processConfirmation_comm {conf conf' : TradeConfirmationMessage}
    (hne : conf.clientOrderId ≠ conf'.clientOrderId) (pm : PositionManager) :
    processConfirmation conf' (processConfirmation conf pm) =
      processConfirmation conf (processConfirmation conf' pm) := by
  apply PositionManager.ext_lookup
  · intro s
    simp only [processConfirmation_positions_lookup]
    split_ifs
    · exact addTo_comm _ _ _
    all_goals rfl
  · intro s
    simp only [processConfirmation_totalTraded_lookup]
    split_ifs
    · exact addTo_comm _ _ _
    all_goals rfl
  · intro id
    simp only [processConfirmation_liveOrders_lookup]
    split_ifs with h h'
    · exact absurd (h'.symm.trans h) hne
    all_goals rfl
  · intro s
    -- whether one order is live does not depend on the other's confirmation
    simp only [processConfirmation_lists_lookup, processConfirmation_liveOrders_lookup,
      if_neg hne, if_neg (Ne.symm hne)]
    split_ifs
    · exact dropFrom_comm _ _ _
    all_goals rfl
  all_goals simp

/-! ## Batches and calls -/

/-- What the loop does with a confirmation: its symbol is affected, and it is processed. -/
def confirmationStep (p : Finset String × PositionManager) (conf : TradeConfirmationMessage) :
    Finset String × PositionManager :=
  (insert conf.symbol p.1, processConfirmation conf p.2)

/-- **Confirmations of different orders change places.** -/
theorem keysCommute_confirmationStep :
    KeysCommute TradeConfirmationMessage.clientOrderId confirmationStep := by
  intro conf conf' p hne
  unfold confirmationStep
  rw [Finset.insert_comm, processConfirmation_comm hne]

/-- Processing a confirmation does not read the queue. -/
theorem processConfirmation_setQueue (conf : TradeConfirmationMessage)
    (q : List TradeConfirmationMessage) (pm : PositionManager) :
    processConfirmation conf { pm with tradeConfirmationsQ := q } =
      { processConfirmation conf pm with tradeConfirmationsQ := q } := by
  apply PositionManager.ext_lookup
  · intro s
    simp [processConfirmation_positions_lookup]
  · intro s
    simp [processConfirmation_totalTraded_lookup]
  · intro id
    simp [processConfirmation_liveOrders_lookup]
  · intro s
    simp [processConfirmation_lists_lookup]
  all_goals simp

/-- The loop over a queue is a fold of its steps. -/
theorem drainConfirmations_eq_foldl (q : List TradeConfirmationMessage) (affected : Finset String)
    (pm : PositionManager) :
    drainConfirmations q affected { pm with tradeConfirmationsQ := q } =
      q.foldl confirmationStep (affected, { pm with tradeConfirmationsQ := [] }) := by
  induction q generalizing affected pm with
  | nil => rfl
  | cons conf rest ih =>
      rw [drainConfirmations, processConfirmation_setQueue, ih, List.foldl_cons]
      simp only [confirmationStep, processConfirmation_setQueue]

/-- Draining the queue of confirmations is a fold over it. -/
theorem processTradeConfirmations_eq_foldl (pm : PositionManager) :
    processTradeConfirmations pm =
      pm.tradeConfirmationsQ.foldl confirmationStep (∅, { pm with tradeConfirmationsQ := [] }) :=
  drainConfirmations_eq_foldl pm.tradeConfirmationsQ ∅ pm

/-- The broker's threads deliver confirmations, one after the other. -/
def deliver (batch : List TradeConfirmationMessage) (pm : PositionManager) : PositionManager :=
  batch.foldl (fun pm conf => tradeConfirmationCallback conf pm) pm

/-- Delivering a batch puts it behind what is in the queue. -/
theorem deliver_eq (batch : List TradeConfirmationMessage) (pm : PositionManager) :
    deliver batch pm =
      { pm with tradeConfirmationsQ := pm.tradeConfirmationsQ ++ batch } := by
  induction batch generalizing pm with
  | nil => simp [deliver]
  | cons conf rest ih =>
      calc deliver (conf :: rest) pm
          = deliver rest (tradeConfirmationCallback conf pm) := rfl
        _ = { pm with tradeConfirmationsQ := pm.tradeConfirmationsQ ++ conf :: rest } := by
            simp [ih, tradeConfirmationCallback]

/-- A batch is delivered and processed; the affected symbols are added to those of before. -/
def processBatch (p : Finset String × PositionManager) (batch : List TradeConfirmationMessage) :
    Finset String × PositionManager :=
  let processed := processTradeConfirmations (deliver batch p.2)
  (p.1 ∪ processed.1, processed.2)

/-- Consecutive calls of `_process_trade_confirmations`, each after a batch has been delivered: the
union of the affected symbols, and the state. -/
def processBatches (batches : List (List TradeConfirmationMessage)) (pm : PositionManager) :
    Finset String × PositionManager :=
  batches.foldl processBatch (∅, pm)

/-- What is affected is collected, and changes nothing else. -/
theorem foldl_confirmationStep_union (A A' : Finset String) (pm : PositionManager)
    (q : List TradeConfirmationMessage) :
    q.foldl confirmationStep (A ∪ A', pm) =
      (A ∪ (q.foldl confirmationStep (A', pm)).1, (q.foldl confirmationStep (A', pm)).2) := by
  induction q generalizing A' pm with
  | nil => rfl
  | cons conf rest ih =>
      simp only [List.foldl_cons, confirmationStep, ← Finset.union_insert, ih]

/-- A call is a fold over what its queue holds. -/
theorem processBatch_eq (A : Finset String) (pm : PositionManager)
    (batch : List TradeConfirmationMessage) :
    processBatch (A, pm) batch = (pm.tradeConfirmationsQ ++ batch).foldl confirmationStep
      (A, { pm with tradeConfirmationsQ := [] }) := by
  have hunion := foldl_confirmationStep_union A ∅ { pm with tradeConfirmationsQ := [] }
    (pm.tradeConfirmationsQ ++ batch)
  rw [Finset.union_empty] at hunion
  rw [processBatch, deliver_eq, processTradeConfirmations_eq_foldl, hunion]

/-- Processing confirmations leaves the queue. -/
theorem foldl_confirmationStep_queue (A : Finset String) (pm : PositionManager)
    (q : List TradeConfirmationMessage) :
    (q.foldl confirmationStep (A, pm)).2.tradeConfirmationsQ = pm.tradeConfirmationsQ := by
  induction q generalizing A pm with
  | nil => rfl
  | cons conf rest ih => simp [confirmationStep, ih]

/-- How the confirmations are cut into calls makes no difference. -/
theorem foldl_processBatch_eq (batches : List (List TradeConfirmationMessage))
    (p : Finset String × PositionManager) (hp : p.2.tradeConfirmationsQ = []) :
    batches.foldl processBatch p = batches.flatten.foldl confirmationStep p := by
  induction batches generalizing p with
  | nil => rfl
  | cons batch rest ih =>
      rcases p with ⟨A, pm⟩
      have hfirst : processBatch (A, pm) batch = batch.foldl confirmationStep (A, pm) := by
        rw [processBatch_eq, hp, List.nil_append, ← hp]
      rw [List.foldl_cons, hfirst, List.flatten_cons, List.foldl_append]
      apply ih
      rw [foldl_confirmationStep_queue]
      exact hp

/-- Calls process what the queue held and what was delivered, in that order. -/
theorem processBatches_eq {batches : List (List TradeConfirmationMessage)} (hne : batches ≠ [])
    (pm : PositionManager) :
    processBatches batches pm = (pm.tradeConfirmationsQ ++ batches.flatten).foldl confirmationStep
      (∅, { pm with tradeConfirmationsQ := [] }) := by
  rcases batches with _ | ⟨batch, rest⟩
  · exact absurd rfl hne
  · rw [processBatches, List.foldl_cons, processBatch_eq, foldl_processBatch_eq, ← List.foldl_append,
      List.append_assoc, List.flatten_cons]
    exact foldl_confirmationStep_queue ∅ { pm with tradeConfirmationsQ := [] } _

/-- **Confirmations of different orders commute.** In any state, two interleavings of one family of
sequences, one for each client id, leave the same state and the same affected symbols, however each
is cut into calls. What the queue holds at the start comes first. -/
theorem confirmations_commute (pm : PositionManager)
    (family : String → List TradeConfirmationMessage)
    {batches batches' : List (List TradeConfirmationMessage)}
    (hne : batches ≠ []) (hne' : batches' ≠ [])
    (h : Interleaves TradeConfirmationMessage.clientOrderId family
      (pm.tradeConfirmationsQ ++ batches.flatten))
    (h' : Interleaves TradeConfirmationMessage.clientOrderId family
      (pm.tradeConfirmationsQ ++ batches'.flatten)) :
    processBatches batches pm = processBatches batches' pm := by
  rw [processBatches_eq hne, processBatches_eq hne']
  exact h.foldl_eq keysCommute_confirmationStep h' _

/-- A report about the order of an id, of 5 `AMD` bought. -/
def reportOf (id : String) (status : Status) : TradeConfirmationMessage where
  orderId := 1
  clientOrderId := id
  symbol := "AMD"
  filledQuantity := 5
  sideIsBuy := true
  price := .finite 0
  status := status

/-- Two orders of one symbol. -/
def twoOrders : PositionManager :=
  (PositionManager.init.track (newOrder "a" "AMD" 10 true)).track (newOrder "b" "AMD" 5 true)

/-- The confirmations of two orders, interleaved and cut into calls in two ways. -/
theorem confirmations_commute_two_orders :
    processBatches [[reportOf "a" .PARTIALLY_FILLED, reportOf "a" .FILLED, reportOf "b" .FILLED]]
        twoOrders =
      processBatches [[reportOf "b" .FILLED, reportOf "a" .PARTIALLY_FILLED], [reportOf "a" .FILLED]]
        twoOrders := by
  refine confirmations_commute twoOrders _ (by simp) (by simp) (fun _ => rfl) fun k => ?_
  by_cases ha : "a" = k
  · subst ha
    decide
  · by_cases hb : "b" = k
    · subst hb
      decide
    · simp [strand, reportOf, twoOrders, PositionManager.track, PositionManager.init, ha, hb]

end FlowManager.Position
