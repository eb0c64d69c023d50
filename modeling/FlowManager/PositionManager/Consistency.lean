import FlowManager.PositionManager.Manager
import Mathlib.Algebra.BigOperators.Group.List.Basic
import Mathlib.Algebra.Order.Ring.Int

/-!
# The two containers of live orders, and what a step of the loop does to them

`live_orders` maps ids to orders and `live_orders_by_symbol` lists ids per symbol. `Consistent` is
how the two stay in step; a terminal confirmation that carries a wrong symbol may leave a stale id
in a list, so a listed id need not be live. Every step of the loop keeps `Consistent`
(`Consistent.processConfirmation`, `Reconciled.consistent`) and the effect of each on the working
position is one equation: a confirmation moves the working position of its own symbol only, and
reconciling a symbol puts that symbol's working position on its target and leaves the others.
-/

namespace FlowManager.Position

open FlowManager.Lib FlowManager.Broker

variable {pm pm' : PositionManager}

/-- How the two containers of live orders stay in step. -/
structure PositionManager.Consistent (pm : PositionManager) : Prop where
  /-- A live order is listed under its symbol. -/
  listed : ∀ {id o}, pm.liveOrders.lookup id = some o → id ∈ pm.index o.symbol
  /-- A listed id that is live is listed under its own symbol. -/
  symbol : ∀ {s id o}, id ∈ pm.index s → pm.liveOrders.lookup id = some o → o.symbol = s
  /-- No id is listed twice for a symbol. -/
  nodup : ∀ s, (pm.index s).Nodup
  /-- An order that has ended is not live. -/
  notTerminal : ∀ {id o}, pm.liveOrders.lookup id = some o → o.status.isTerminal = false

/-- A new position manager is consistent. -/
theorem consistent_init : PositionManager.init.Consistent := by
  constructor <;> simp [PositionManager.init, PositionManager.index, Dict.getD]

/-- An id that `_generate_client_order_id` may answer: the containers do not hold it. -/
def Fresh (pm : PositionManager) (newId : String) : Prop :=
  pm.liveOrders.lookup newId = none ∧ ∀ s, newId ∉ pm.index s

/-! ## The working position -/

/-- The working position is the position and what is open. -/
theorem calculateWorkingPosition_eq (pm : PositionManager) (s : String) :
    calculateWorkingPosition pm s = pm.positions.getD s 0 + ((pm.index s).map pm.openOf).sum := by
  have hfold : ∀ (ids : List String) (start : ℤ),
      ids.foldl (fun workingPos id => workingPos + pm.openOf id) start =
        start + (ids.map pm.openOf).sum := by
    intro ids
    induction ids with
    | nil => simp
    | cons id ids ih =>
        intro start
        rw [List.foldl_cons, ih, List.map_cons, List.sum_cons, add_assoc]
  exact hfold _ _

/-- The working position of a symbol reads its position, its list and the orders listed. -/
theorem calculateWorkingPosition_congr {s : String}
    (hposition : pm'.positions.getD s 0 = pm.positions.getD s 0)
    (hindex : pm'.index s = pm.index s)
    (hopen : ∀ id ∈ pm.index s, pm'.openOf id = pm.openOf id) :
    calculateWorkingPosition pm' s = calculateWorkingPosition pm s := by
  rw [calculateWorkingPosition_eq, calculateWorkingPosition_eq, hposition, hindex,
    List.map_congr_left hopen]

/-- With no order of its list live, the working position of a symbol is its position. -/
theorem calculateWorkingPosition_of_none {s : String}
    (hnone : ∀ id ∈ pm.index s, pm.liveOrders.lookup id = none) :
    calculateWorkingPosition pm s = pm.positions.getD s 0 := by
  have hzero : ∀ id ∈ pm.index s, pm.openOf id = 0 := by
    intro id hid
    unfold PositionManager.openOf
    rw [hnone id hid]
  rw [calculateWorkingPosition_eq, List.map_congr_left hzero]
  simp

/-- With no live order of the symbol the working position is the position. -/
theorem calculateWorkingPosition_of_not_live (hpm : pm.Consistent) {s : String}
    (hlive : ∀ id o, pm.liveOrders.lookup id = some o → o.symbol ≠ s) :
    calculateWorkingPosition pm s = pm.positions.getD s 0 := by
  apply calculateWorkingPosition_of_none
  intro id hid
  cases hlookup : pm.liveOrders.lookup id with
  | none => rfl
  | some o => exact absurd (hpm.symbol hid hlookup) (hlive id o hlookup)

/-! ## Confirmations -/

section confirmation

variable (conf : TradeConfirmationMessage)

/-- A confirmation for a tracked order carries that order's symbol. -/
def CarriesSymbol (conf : TradeConfirmationMessage) (pm : PositionManager) : Prop :=
  ∀ o, pm.liveOrders.lookup conf.clientOrderId = some o → o.symbol = conf.symbol

/-- Adding a fill leaves the live orders. -/
@[simp] theorem addFill_liveOrders : (addFill conf pm).liveOrders = pm.liveOrders := rfl

/-- Adding a fill leaves the lists of the symbols. -/
@[simp] theorem addFill_index (s : String) : (addFill conf pm).index s = pm.index s := rfl

/-- Removing an order takes it out of the live orders. -/
@[simp] theorem removeLiveOrder_liveOrders :
    (removeLiveOrder conf pm).liveOrders = pm.liveOrders.erase conf.clientOrderId := by
  simp only [removeLiveOrder]
  split_ifs <;> rfl

/-- Removing an order leaves the positions. -/
@[simp] theorem removeLiveOrder_positions :
    (removeLiveOrder conf pm).positions = pm.positions := by
  simp only [removeLiveOrder]
  split_ifs <;> rfl

/-- Removing an order leaves the targets. -/
@[simp] theorem removeLiveOrder_targetPositions :
    (removeLiveOrder conf pm).targetPositions = pm.targetPositions := by
  simp only [removeLiveOrder]
  split_ifs <;> rfl

/-- Removing an order leaves the queue of confirmations. -/
@[simp] theorem removeLiveOrder_tradeConfirmationsQ :
    (removeLiveOrder conf pm).tradeConfirmationsQ = pm.tradeConfirmationsQ := by
  simp only [removeLiveOrder]
  split_ifs <;> rfl

/-- Removing an order leaves the queue of targets. -/
@[simp] theorem removeLiveOrder_targetUpdatesQ :
    (removeLiveOrder conf pm).targetUpdatesQ = pm.targetUpdatesQ := by
  simp only [removeLiveOrder]
  split_ifs <;> rfl

/-- An emptied list is deleted, which reads like an empty one. -/
theorem removeLiveOrder_index (s : String) : (removeLiveOrder conf pm).index s =
    if s = conf.symbol then (pm.index s).erase conf.clientOrderId else pm.index s := by
  by_cases hs : s = conf.symbol
  · subst hs
    rw [if_pos rfl]
    simp only [removeLiveOrder]
    split_ifs with hmem hids
    · change Dict.getD _ _ _ = _
      rw [Dict.getD, Dict.lookup_erase_ite, if_pos rfl, Option.getD_none]
      exact hids.symm
    · exact (Dict.getD_insert_ite _ _ _ _ _).trans (if_pos rfl)
    · exact (List.erase_of_not_mem hmem).symm
  · rw [if_neg hs]
    simp only [removeLiveOrder]
    split_ifs with hmem hids
    · change Dict.getD _ _ _ = Dict.getD _ _ _
      rw [Dict.getD, Dict.lookup_erase_ite, if_neg hs, Dict.getD]
    · exact (Dict.getD_insert_ite _ _ _ _ _).trans (if_neg hs)
    · rfl

/-- Writing a live order leaves the lists of the symbols. -/
@[simp] theorem setLiveOrder_index (id s : String) (o : OrderDetails) :
    (pm.setLiveOrder id o).index s = pm.index s := rfl

/-- The live orders after one has been written. -/
theorem setLiveOrder_lookup (id id' : String) (o : OrderDetails) :
    (pm.setLiveOrder id o).liveOrders.lookup id' =
      if id' = id then some o else pm.liveOrders.lookup id' :=
  Dict.lookup_insert_ite _ _ _ _

/-- Rewriting a live order, not into a terminal status, keeps the containers in step. -/
theorem PositionManager.Consistent.setLiveOrder (hpm : pm.Consistent) {id : String}
    {o o' : OrderDetails} (hid : pm.liveOrders.lookup id = some o) (hsymbol : o'.symbol = o.symbol)
    (hstatus : o'.status.isTerminal = false) : (pm.setLiveOrder id o').Consistent where
  listed := by
    intro id' o'' h
    rw [setLiveOrder_lookup] at h
    split_ifs at h with heq
    · obtain rfl := Option.some.inj h
      subst heq
      rw [setLiveOrder_index, hsymbol]
      exact hpm.listed hid
    · exact hpm.listed h
  symbol := by
    intro s id' o'' hmem h
    rw [setLiveOrder_lookup] at h
    split_ifs at h with heq
    · obtain rfl := Option.some.inj h
      subst heq
      rw [hsymbol]
      exact hpm.symbol hmem hid
    · exact hpm.symbol hmem h
  nodup := hpm.nodup
  notTerminal := by
    intro id' o'' h
    rw [setLiveOrder_lookup] at h
    split_ifs at h with heq
    · obtain rfl := Option.some.inj h
      exact hstatus
    · exact hpm.notTerminal h

/-- Adding a fill keeps the books consistent. -/
theorem PositionManager.Consistent.addFill (hpm : pm.Consistent) :
    (addFill conf pm).Consistent :=
  ⟨hpm.listed, hpm.symbol, hpm.nodup, hpm.notTerminal⟩

/-- Removing an order keeps the books consistent. -/
theorem PositionManager.Consistent.removeLiveOrder (hpm : pm.Consistent) :
    (removeLiveOrder conf pm).Consistent where
  listed := by
    intro id o h
    rw [removeLiveOrder_liveOrders, Dict.lookup_erase_ite] at h
    split_ifs at h with hid
    rw [removeLiveOrder_index]
    split_ifs
    · exact (List.mem_erase_of_ne hid).2 (hpm.listed h)
    · exact hpm.listed h
  symbol := by
    intro s id o hmem h
    rw [removeLiveOrder_liveOrders, Dict.lookup_erase_ite] at h
    split_ifs at h with hid
    rw [removeLiveOrder_index] at hmem
    split_ifs at hmem
    · exact hpm.symbol (List.mem_of_mem_erase hmem) h
    · exact hpm.symbol hmem h
  nodup := by
    intro s
    rw [removeLiveOrder_index]
    split_ifs
    · exact (hpm.nodup s).erase _
    · exact hpm.nodup s
  notTerminal := by
    intro id o h
    rw [removeLiveOrder_liveOrders, Dict.lookup_erase_ite] at h
    split_ifs at h with hid
    exact hpm.notTerminal h

/-- Any confirmation keeps the containers in step, also one with a wrong symbol. -/
theorem PositionManager.Consistent.processConfirmation (hpm : pm.Consistent) :
    (processConfirmation conf pm).Consistent := by
  unfold FlowManager.Position.processConfirmation
  cases hlive : pm.liveOrders.lookup conf.clientOrderId with
  | none => exact hpm.addFill conf
  | some liveOrder =>
      dsimp only
      split_ifs with hstatus
      · exact (hpm.addFill conf).removeLiveOrder conf
      · refine PositionManager.Consistent.setLiveOrder (hpm.addFill conf) hlive rfl ?_
        simpa using hstatus

/-- What a confirmation leaves of a part of the state that no change of a live order touches. -/
theorem processConfirmation_read {γ : Type} (f : PositionManager → γ)
    (hremove : ∀ pm, f (removeLiveOrder conf pm) = f pm)
    (hset : ∀ pm o, f (pm.setLiveOrder conf.clientOrderId o) = f pm) :
    f (processConfirmation conf pm) = f (addFill conf pm) := by
  unfold processConfirmation
  cases pm.liveOrders.lookup conf.clientOrderId with
  | none => rfl
  | some liveOrder =>
      dsimp only
      split_ifs
      · exact hremove _
      · exact hset _ _

/-- A confirmation leaves the targets. -/
@[simp] theorem processConfirmation_targetPositions :
    (processConfirmation conf pm).targetPositions = pm.targetPositions :=
  processConfirmation_read conf (·.targetPositions) (fun _ => removeLiveOrder_targetPositions conf)
    fun _ _ => rfl

/-- A confirmation leaves the queue of confirmations. -/
@[simp] theorem processConfirmation_tradeConfirmationsQ :
    (processConfirmation conf pm).tradeConfirmationsQ = pm.tradeConfirmationsQ :=
  processConfirmation_read conf (·.tradeConfirmationsQ)
    (fun _ => removeLiveOrder_tradeConfirmationsQ conf) fun _ _ => rfl

/-- A confirmation leaves the queue of targets. -/
@[simp] theorem processConfirmation_targetUpdatesQ :
    (processConfirmation conf pm).targetUpdatesQ = pm.targetUpdatesQ :=
  processConfirmation_read conf (·.targetUpdatesQ) (fun _ => removeLiveOrder_targetUpdatesQ conf)
    fun _ _ => rfl

/-- The position after a fill has been added. -/
theorem addFill_positions (s : String) : (addFill conf pm).positions.getD s 0 =
    pm.positions.getD s 0 + if conf.symbol = s then signedFill conf else 0 := by
  unfold addFill
  dsimp only
  rw [Dict.getD_insert_ite]
  split_ifs with h h' h'
  · rw [h]
    rfl
  · exact absurd h.symm h'
  · exact absurd h'.symm h
  · rw [add_zero]

/-- The position after a confirmation: it moves by the signed fill. -/
theorem processConfirmation_positions (s : String) :
    (processConfirmation conf pm).positions.getD s 0 =
      pm.positions.getD s 0 + if conf.symbol = s then signedFill conf else 0 := by
  rw [← addFill_positions]
  refine processConfirmation_read conf (·.positions.getD s 0) (fun pm => ?_) fun _ _ => rfl
  rw [removeLiveOrder_positions]

/-- A confirmation leaves the lists of the other symbols. -/
theorem processConfirmation_index_of_ne {s : String} (hs : s ≠ conf.symbol) :
    (processConfirmation conf pm).index s = pm.index s := by
  refine processConfirmation_read conf (·.index s) (fun pm => ?_) fun _ _ => rfl
  rw [removeLiveOrder_index, if_neg hs]

/-- A confirmation touches the order it names and no other. -/
theorem processConfirmation_openOf_of_ne {id : String}
    (hid : pm.liveOrders.lookup conf.clientOrderId = none ∨ id ≠ conf.clientOrderId) :
    (processConfirmation conf pm).openOf id = pm.openOf id := by
  unfold processConfirmation
  cases hlive : pm.liveOrders.lookup conf.clientOrderId with
  | none => rfl
  | some liveOrder =>
      have hne : id ≠ conf.clientOrderId := by
        rcases hid with h | h
        · rw [hlive] at h
          cases h
        · exact h
      dsimp only
      split_ifs
      · simp only [PositionManager.openOf, removeLiveOrder_liveOrders, addFill_liveOrders,
          Dict.lookup_erase_ite, if_neg hne]
      · simp only [PositionManager.openOf, setLiveOrder_lookup, addFill_liveOrders, if_neg hne]

/-- **A confirmation moves the working position of its own symbol only.** -/
theorem calculateWorkingPosition_processConfirmation (hpm : pm.Consistent)
    (hconf : CarriesSymbol conf pm) {s : String} (hs : s ≠ conf.symbol) :
    calculateWorkingPosition (processConfirmation conf pm) s = calculateWorkingPosition pm s := by
  apply calculateWorkingPosition_congr
  · rw [processConfirmation_positions, if_neg (Ne.symm hs), add_zero]
  · exact processConfirmation_index_of_ne conf hs
  · intro id hid
    apply processConfirmation_openOf_of_ne
    cases hlive : pm.liveOrders.lookup conf.clientOrderId with
    | none => exact .inl rfl
    | some o =>
        right
        rintro rfl
        exact hs ((hpm.symbol hid hlive).symm.trans (hconf o hlive))

end confirmation

/-! ## Target updates -/

/-- A target moves no working position. -/
theorem calculateWorkingPosition_processTargetUpdate (update : String × ℤ) (s : String) :
    calculateWorkingPosition (processTargetUpdate update pm) s = calculateWorkingPosition pm s :=
  rfl

/-! ## Cancelling the other side -/

/-- What asking for cancels can change: orders that oppose go to `PENDING_CANCEL`. -/
structure Cancelling (buying : Bool) (pm pm' : PositionManager) : Prop where
  positions : pm'.positions = pm.positions
  targetPositions : pm'.targetPositions = pm.targetPositions
  liveOrdersBySymbol : pm'.liveOrdersBySymbol = pm.liveOrdersBySymbol
  orders : ∀ id, pm'.liveOrders.lookup id = pm.liveOrders.lookup id ∨
    ∃ o, pm.liveOrders.lookup id = some o ∧ opposes buying o = true ∧
      pm'.liveOrders.lookup id = some { o with status := .PENDING_CANCEL }

/-- An order that is pending cancel opposes nothing. -/
theorem opposes_pendingCancel (buying : Bool) (o : OrderDetails) :
    opposes buying { o with status := .PENDING_CANCEL } = false := by
  simp [opposes]

/-- An order that opposes is not at its end. -/
theorem not_isTerminal_of_opposes {buying : Bool} {o : OrderDetails}
    (h : opposes buying o = true) : o.status.isTerminal = false := by
  simp only [opposes, Bool.and_eq_true, Bool.not_eq_true'] at h
  exact h.1.2

namespace Cancelling

variable {buying : Bool} {mid : PositionManager}

/-- Nothing marked is a cancelling. -/
theorem refl (buying : Bool) (pm : PositionManager) : Cancelling buying pm pm :=
  ⟨rfl, rfl, rfl, fun _ => .inl rfl⟩

/-- One cancelling after another is a cancelling. -/
theorem trans (h : Cancelling buying pm mid) (h' : Cancelling buying mid pm') :
    Cancelling buying pm pm' where
  positions := h'.positions.trans h.positions
  targetPositions := h'.targetPositions.trans h.targetPositions
  liveOrdersBySymbol := h'.liveOrdersBySymbol.trans h.liveOrdersBySymbol
  orders := by
    intro id
    rcases h.orders id with heq | ⟨o, ho, hopp, heq⟩
    · rw [← heq]
      exact h'.orders id
    · right
      refine ⟨o, ho, hopp, ?_⟩
      rcases h'.orders id with heq' | ⟨o', ho', hopp', _⟩
      · rw [heq', heq]
      · -- an order that is pending cancel is not asked for again
        obtain rfl := Option.some.inj (ho'.symm.trans heq)
        rw [opposes_pendingCancel] at hopp'
        cases hopp'

/-- Cancelling leaves the lists of the symbols. -/
theorem index (h : Cancelling buying pm pm') (s : String) : pm'.index s = pm.index s := by
  simp only [PositionManager.index, h.liveOrdersBySymbol]

/-- Cancelling leaves what is open of every order. -/
theorem openOf (h : Cancelling buying pm pm') (id : String) : pm'.openOf id = pm.openOf id := by
  unfold PositionManager.openOf
  rcases h.orders id with heq | ⟨o, ho, hopp, heq⟩
  · rw [heq]
  · rw [ho, heq]
    -- `PENDING_CANCEL` still counts as working
    have hpending : Status.isTerminal .PENDING_CANCEL = false := rfl
    simp [openQuantity, hpending, not_isTerminal_of_opposes hopp]

/-- Cancelling moves no working position. -/
theorem calculateWorkingPosition (h : Cancelling buying pm pm') (s : String) :
    calculateWorkingPosition pm' s = calculateWorkingPosition pm s :=
  calculateWorkingPosition_congr (by rw [h.positions]) (h.index s) fun id _ => h.openOf id

/-- Cancelling keeps the books consistent. -/
theorem consistent (h : Cancelling buying pm pm') (hpm : pm.Consistent) : pm'.Consistent where
  listed := by
    intro id o ho
    rw [h.index]
    rcases h.orders id with heq | ⟨o', ho', _, heq⟩
    · exact hpm.listed (heq ▸ ho)
    · obtain rfl := Option.some.inj (ho.symm.trans heq)
      exact hpm.listed (o := o') ho'
  symbol := by
    intro s id o hmem ho
    rw [h.index] at hmem
    rcases h.orders id with heq | ⟨o', ho', _, heq⟩
    · exact hpm.symbol hmem (heq ▸ ho)
    · obtain rfl := Option.some.inj (ho.symm.trans heq)
      exact hpm.symbol (o := o') hmem ho'
  nodup := by
    intro s
    rw [h.index]
    exact hpm.nodup s
  notTerminal := by
    intro id o ho
    rcases h.orders id with heq | ⟨o', _, _, heq⟩
    · exact hpm.notTerminal (heq ▸ ho)
    · obtain rfl := Option.some.inj (ho.symm.trans heq)
      rfl

/-- An id that is fresh is so after a cancelling. -/
theorem fresh (h : Cancelling buying pm pm') {newId : String} (hnew : Fresh pm newId) :
    Fresh pm' newId := by
  refine ⟨?_, fun s => h.index s ▸ hnew.2 s⟩
  rcases h.orders newId with heq | ⟨o, ho, _⟩
  · rw [heq, hnew.1]
  · rw [hnew.1] at ho
    cases ho

end Cancelling

/-- Marking an opposing order is one step of cancelling. -/
theorem cancelling_setLiveOrder {buying : Bool} {id : String} {o : OrderDetails}
    (hid : pm.liveOrders.lookup id = some o) (hopp : opposes buying o = true) :
    Cancelling buying pm (pm.setLiveOrder id { o with status := .PENDING_CANCEL }) where
  positions := rfl
  targetPositions := rfl
  liveOrdersBySymbol := rfl
  orders := by
    intro id'
    rw [setLiveOrder_lookup]
    by_cases h : id' = id
    · subst h
      right
      exact ⟨o, hid, hopp, if_pos rfl⟩
    · left
      exact if_neg h

/-! ## Placing a new order -/

/-- What placing an order does: it is live and listed last, and carries the broker's id if the
broker answered one. -/
structure Placed (order : OrderDetails) (pm pm' : PositionManager) : Prop where
  positions : pm'.positions = pm.positions
  targetPositions : pm'.targetPositions = pm.targetPositions
  lists : pm'.liveOrdersBySymbol =
    pm.liveOrdersBySymbol.insert order.symbol (pm.index order.symbol ++ [order.clientOrderId])
  orders : ∃ bOrdId, ∀ id, pm'.liveOrders.lookup id =
    if id = order.clientOrderId then some { order with brokerOrderId := bOrdId }
    else pm.liveOrders.lookup id

namespace Placed

variable {order : OrderDetails}

/-- The list of the order's symbol has the new order last, the others are as before. -/
theorem index (h : Placed order pm pm') (s : String) : pm'.index s =
    if s = order.symbol then pm.index s ++ [order.clientOrderId] else pm.index s := by
  unfold PositionManager.index
  rw [h.lists, Dict.getD_insert_ite]
  split_ifs with hs
  · rw [hs]
    rfl
  · rfl

/-- Another id that is fresh stays fresh. -/
theorem fresh_of_ne (h : Placed order pm pm') {id : String} (hid : Fresh pm id)
    (hne : id ≠ order.clientOrderId) : Fresh pm' id := by
  obtain ⟨_, horders⟩ := h.orders
  refine ⟨(horders id).trans ((if_neg hne).trans hid.1), fun s hmem => ?_⟩
  rw [h.index] at hmem
  split_ifs at hmem
  · rcases List.mem_append.1 hmem with hmem | hmem
    · exact hid.2 s hmem
    · exact hne (List.mem_singleton.1 hmem)
  · exact hid.2 s hmem

/-- Placing an order leaves what is open of the others. -/
theorem openOf_of_ne (h : Placed order pm pm') {id : String} (hid : id ≠ order.clientOrderId) :
    pm'.openOf id = pm.openOf id := by
  obtain ⟨bOrdId, horders⟩ := h.orders
  simp only [PositionManager.openOf, horders, if_neg hid]

/-- The order that has been placed is all open. -/
theorem openOf_self (h : Placed order pm pm') :
    pm'.openOf order.clientOrderId = openQuantity order := by
  obtain ⟨bOrdId, horders⟩ := h.orders
  simp only [PositionManager.openOf, horders]
  rfl

/-- Placing an order leaves what is open of the orders that were listed. -/
theorem openOf_of_mem (h : Placed order pm pm') (hnew : Fresh pm order.clientOrderId) {s id : String}
    (hid : id ∈ pm.index s) : pm'.openOf id = pm.openOf id := by
  apply h.openOf_of_ne
  rintro rfl
  exact hnew.2 s hid

/-- Placing an order moves the working position of its symbol by what is open of it. -/
theorem calculateWorkingPosition_self (h : Placed order pm pm')
    (hnew : Fresh pm order.clientOrderId) :
    calculateWorkingPosition pm' order.symbol =
      calculateWorkingPosition pm order.symbol + openQuantity order := by
  have hopen : ∀ id ∈ pm.index order.symbol, pm'.openOf id = pm.openOf id :=
    fun id hid => h.openOf_of_mem hnew hid
  rw [calculateWorkingPosition_eq, calculateWorkingPosition_eq, h.positions, h.index, if_pos rfl,
    List.map_append, List.sum_append, List.map_congr_left hopen, List.map_singleton,
    List.sum_singleton, h.openOf_self, add_assoc]

/-- Placing an order leaves the working positions of the other symbols. -/
theorem calculateWorkingPosition_of_ne (h : Placed order pm pm')
    (hnew : Fresh pm order.clientOrderId) {s : String} (hs : s ≠ order.symbol) :
    calculateWorkingPosition pm' s = calculateWorkingPosition pm s :=
  calculateWorkingPosition_congr (by rw [h.positions]) (by rw [h.index, if_neg hs])
    fun _ hid => h.openOf_of_mem hnew hid

/-- Placing a fresh order keeps the books consistent. -/
theorem consistent (h : Placed order pm pm') (hnew : Fresh pm order.clientOrderId)
    (hstatus : order.status.isTerminal = false) (hpm : pm.Consistent) : pm'.Consistent := by
  obtain ⟨bOrdId, horders⟩ := h.orders
  constructor
  case listed =>
    intro id o ho
    rw [horders] at ho
    rw [h.index]
    split_ifs at ho with hid
    · obtain rfl := Option.some.inj ho
      rw [if_pos rfl, hid]
      exact List.mem_append_right _ (List.mem_singleton_self _)
    · split_ifs
      · exact List.mem_append_left _ (hpm.listed ho)
      · exact hpm.listed ho
  case symbol =>
    intro s id o hmem ho
    rw [horders] at ho
    rw [h.index] at hmem
    split_ifs at ho with hid
    · obtain rfl := Option.some.inj ho
      subst hid
      split_ifs at hmem with hs
      · exact hs.symm
      · exact absurd hmem (hnew.2 s)
    · split_ifs at hmem
      · rcases List.mem_append.1 hmem with hmem | hmem
        · exact hpm.symbol hmem ho
        · exact absurd (List.mem_singleton.1 hmem) hid
      · exact hpm.symbol hmem ho
  case nodup =>
    intro s
    rw [h.index]
    split_ifs
    · refine List.Nodup.append (hpm.nodup s) (List.nodup_singleton _) ?_
      intro id hid hid'
      rw [List.mem_singleton.1 hid'] at hid
      exact hnew.2 s hid
    · exact hpm.nodup s
  case notTerminal =>
    intro id o ho
    rw [horders] at ho
    split_ifs at ho with hid
    · obtain rfl := Option.some.inj ho
      exact hstatus
    · exact hpm.notTerminal ho

end Placed

/-! ## Reconciling a symbol -/

section reconcile

variable {β : Type} {B : Broker β} {w w' : World β}

/-- An exception that comes out of a method of the broker. -/
def RaisedBy (B : Broker β) (e : PyError) : Prop :=
  (∃ id t t', (B.cancelOrder id).run t = .raised e t') ∨
    ∃ id symbol quantity sideIsBuy orderType price t t',
      (B.submitOrder id symbol quantity sideIsBuy orderType price).run t = .raised e t'

/-- However the procedure ends, the position manager is left so, and an exception is the
broker's. -/
def Leaves (B : Broker β) (post : PositionManager → Prop) (x : Proc PyError (World β) Unit)
    (w : World β) : Prop :=
  Proc.wp x (fun _ w' => post w'.pm) (fun e w' => RaisedBy B e ∧ post w'.pm)
    (fun w' => post w'.pm) w

/-- A call of the broker leaves all of the position manager but its queue, however it ends. -/
theorem wp_callBroker {α : Type} {method : Proc PyError (List TradeConfirmationMessage × β) α}
    {Q : α → World β → Prop} {R : PyError → World β → Prop} {S : World β → Prop}
    (hQ : ∀ a q b, Q a ⟨{ w.pm with tradeConfirmationsQ := q }, b⟩)
    (hR : ∀ e q b, (∃ t t', method.run t = .raised e t') →
      R e ⟨{ w.pm with tradeConfirmationsQ := q }, b⟩)
    (hS : ∀ q b, S ⟨{ w.pm with tradeConfirmationsQ := q }, b⟩) :
    Proc.wp (callBroker method) Q R S w := by
  unfold callBroker
  rw [Proc.wp_focus]
  unfold Proc.wp
  cases hrun : method.run (w.pm.tradeConfirmationsQ, w.broker) with
  | returned a t => exact hQ a t.1 t.2
  | raised e t => exact hR e t.1 t.2 ⟨_, t, hrun⟩
  | stuck t => exact hS t.1 t.2

/-- The queue of confirmations does not count for a cancelling. -/
theorem cancelling_queue (buying : Bool) (pm : PositionManager)
    (q : List TradeConfirmationMessage) :
    Cancelling buying pm { pm with tradeConfirmationsQ := q } :=
  ⟨rfl, rfl, rfl, fun _ => .inl rfl⟩

/-- One id of `cancelOpposing`, whatever the broker does. -/
theorem leaves_cancelIfOpposing (B : Broker β) (buying : Bool) (id : String) (w : World β) :
    Leaves B (Cancelling buying w.pm) (cancelIfOpposing B buying id) w := by
  unfold Leaves cancelIfOpposing
  rw [Proc.wp_bind, Proc.wp_get]
  cases hid : w.pm.liveOrders.lookup id with
  | none => exact .refl buying _
  | some order =>
      dsimp only
      by_cases hopp : opposes buying order = true
      · rw [if_pos hopp, Proc.wp_bind]
        apply wp_callBroker
        · intro accepted q b
          cases accepted with
          | false => exact cancelling_queue buying w.pm q
          | true => exact (cancelling_queue buying w.pm q).trans (cancelling_setLiveOrder hid hopp)
        · intro e q b hraised
          exact ⟨Or.inl ⟨id, hraised⟩, cancelling_queue buying w.pm q⟩
        · intro q b
          exact cancelling_queue buying w.pm q
      · rw [if_neg hopp]
        exact .refl buying _

/-- **The cancels before an order** mark what they mark and leave the rest, however the broker
answers. -/
theorem leaves_cancelOpposing (B : Broker β) (buying : Bool) (ids : List String) (w : World β) :
    Leaves B (Cancelling buying w.pm) (cancelOpposing B buying ids) w := by
  induction ids generalizing w with
  | nil => exact .refl buying _
  | cons id ids ih =>
      unfold Leaves cancelOpposing
      rw [Proc.wp_bind]
      refine Proc.wp_mono (leaves_cancelIfOpposing B buying id w) ?_ (fun _ _ h => h) fun _ h => h
      intro _ wc hone
      exact Proc.wp_mono (ih wc) (fun _ _ h => hone.trans h)
        (fun _ _ h => ⟨h.1, hone.trans h.2⟩) fun _ h => hone.trans h

/-- Where the cancels return, they have done no more than mark. -/
theorem cancelOpposing_returned {buying : Bool} {ids : List String}
    (h : (cancelOpposing B buying ids).run w = .returned () w') :
    Cancelling buying w.pm w'.pm := Proc.wp.returned (leaves_cancelOpposing B buying ids w) h

/-- Tracking an order places it. -/
theorem placed_track (order : OrderDetails) : Placed order pm (pm.track order) where
  positions := rfl
  targetPositions := rfl
  lists := rfl
  orders := ⟨order.brokerOrderId, fun _ => Dict.lookup_insert_ite _ _ _ _⟩

/-- The queue and the broker's id of the new order are all that submitting it changes. -/
theorem Placed.of_submit {order : OrderDetails} {mid : PositionManager}
    (h : Placed order pm mid) (q : List TradeConfirmationMessage) (bOrdId : Option ℤ)
    {o : OrderDetails} (hmid : mid.liveOrders.lookup order.clientOrderId = some o)
    (hpm' : pm' = { mid with tradeConfirmationsQ := q } ∨
      pm' = { mid with tradeConfirmationsQ := q }.setLiveOrder order.clientOrderId
        { o with brokerOrderId := bOrdId }) : Placed order pm pm' := by
  rcases hpm' with rfl | rfl
  · exact ⟨h.positions, h.targetPositions, h.lists, h.orders⟩
  · refine ⟨h.positions, h.targetPositions, h.lists, bOrdId, fun id => ?_⟩
    obtain ⟨_, horders⟩ := h.orders
    rw [setLiveOrder_lookup]
    split_ifs with hid
    · rw [horders, if_pos rfl] at hmid
      obtain rfl := Option.some.inj hmid
      rfl
    · exact (horders id).trans (if_neg hid)

/-- Placing an order, whatever the broker does. The order is still there when the broker has
answered, so the access to it does not fail. -/
theorem leaves_placeNew (B : Broker β) (symbol newId : String) (quantity : ℤ) (buying : Bool)
    (w : World β) : Leaves B (Placed (newOrder newId symbol quantity buying) w.pm)
      (placeNew B symbol newId quantity buying) w := by
  have htrack : Placed _ w.pm _ := placed_track (newOrder newId symbol quantity buying)
  have hid : (w.pm.track (newOrder newId symbol quantity buying)).liveOrders.lookup newId =
      some (newOrder newId symbol quantity buying) :=
    (Dict.lookup_insert_ite _ _ _ _).trans (if_pos rfl)
  have hqueue := fun q => htrack.of_submit q none hid (.inl rfl)
  unfold Leaves placeNew modifyPm
  rw [Proc.wp_bind, Proc.wp_modify, Proc.wp_bind]
  apply wp_callBroker
  · intro bOrdId q b
    by_cases hsome : bOrdId.isSome = true
    · rw [if_pos hsome, Proc.wp_bind, Proc.wp_get]
      dsimp only
      rw [hid]
      exact htrack.of_submit q bOrdId hid (.inr rfl)
    · rw [if_neg hsome]
      exact hqueue q
  · intro e q b hraised
    exact ⟨Or.inr ⟨_, _, _, _, _, _, hraised⟩, hqueue q⟩
  · intro q b
    exact hqueue q

/-- Where the placing returns, the order has been placed. -/
theorem placeNew_returned {symbol newId : String} {quantity : ℤ} {buying : Bool}
    (h : (placeNew B symbol newId quantity buying).run w = .returned () w') :
    Placed (newOrder newId symbol quantity buying) w.pm w'.pm :=
  Proc.wp.returned (leaves_placeNew B symbol newId quantity buying w) h

/-- What reconciling a symbol does: nothing on target, else cancels of the other side and one new
order for the whole difference. -/
inductive Reconciled (symbol newId : String) (pm : PositionManager) : PositionManager → Prop
  | onTarget :
      pm.targetPositions.getD symbol 0 = calculateWorkingPosition pm symbol →
      Reconciled symbol newId pm pm
  | placed {mid pm' : PositionManager} (delta : ℤ) (buying : Bool) :
      delta = pm.targetPositions.getD symbol 0 - calculateWorkingPosition pm symbol →
      0 < delta * bsInt buying →
      Cancelling buying pm mid →
      Placed (newOrder newId symbol |delta| buying) mid pm' →
      Reconciled symbol newId pm pm'

/-- What a broker that does not answer can leave of it. -/
def Interrupted (symbol newId : String) (pm pm' : PositionManager) : Prop :=
  (∃ buying, Cancelling buying pm pm') ∨ Reconciled symbol newId pm pm'

/-- **Reconciling a symbol**, whatever the broker does. -/
theorem wp_reconcileSymbol (B : Broker β) (symbol newId : String) (w : World β) :
    Proc.wp (reconcileSymbol B symbol newId) (fun _ w' => Reconciled symbol newId w.pm w'.pm)
      (fun e w' => RaisedBy B e ∧ Interrupted symbol newId w.pm w'.pm)
      (fun w' => Interrupted symbol newId w.pm w'.pm) w := by
  have hside : ∀ (delta : ℤ) (buying : Bool),
      delta = w.pm.targetPositions.getD symbol 0 - calculateWorkingPosition w.pm symbol →
      0 < delta * bsInt buying →
      Proc.wp (do
        cancelOpposing B buying (w.pm.index symbol)
        placeNew B symbol newId |delta| buying)
        (fun _ w' => Reconciled symbol newId w.pm w'.pm)
        (fun e w' => RaisedBy B e ∧ Interrupted symbol newId w.pm w'.pm)
        (fun w' => Interrupted symbol newId w.pm w'.pm) w := by
    intro delta buying hdelta hsign
    rw [Proc.wp_bind]
    refine Proc.wp_mono (leaves_cancelOpposing B buying _ w) ?_
      (fun _ _ h => ⟨h.1, Or.inl ⟨buying, h.2⟩⟩) fun _ h => Or.inl ⟨buying, h⟩
    intro _ wc hcancel
    have hplaced : ∀ pm', Placed (newOrder newId symbol |delta| buying) wc.pm pm' →
        Reconciled symbol newId w.pm pm' := fun _ => .placed delta buying hdelta hsign hcancel
    exact Proc.wp_mono (leaves_placeNew B symbol newId |delta| buying wc)
      (fun _ w' h => hplaced w'.pm h) (fun _ w' h => ⟨h.1, Or.inr (hplaced w'.pm h.2)⟩)
      fun w' h => Or.inr (hplaced w'.pm h)
  unfold reconcileSymbol
  rw [Proc.wp_bind, Proc.wp_get]
  dsimp only
  split_ifs with hzero hpos
  · exact .onTarget (sub_eq_zero.1 hzero)
  · apply hside _ true rfl
    rw [bsInt_true]
    omega
  · apply hside _ false rfl
    rw [bsInt_false]
    omega

/-- Where reconciling a symbol returns, the symbol has been reconciled. -/
theorem reconcileSymbol_returned {symbol newId : String}
    (h : (reconcileSymbol B symbol newId).run w = .returned () w') :
    Reconciled symbol newId w.pm w'.pm := (wp_reconcileSymbol B symbol newId w).returned h

section shared

variable {I J : List TradeConfirmationMessage × β → Prop}

/-- However the procedure ends, the queue and the broker are left so. -/
def LeavesShared (J : List TradeConfirmationMessage × β → Prop) {α : Type}
    (x : Proc PyError (World β) α) (w : World β) : Prop :=
  Proc.wp x (fun _ w' => J (w'.pm.tradeConfirmationsQ, w'.broker))
    (fun _ w' => J (w'.pm.tradeConfirmationsQ, w'.broker))
    (fun w' => J (w'.pm.tradeConfirmationsQ, w'.broker)) w

/-- A call of the broker leaves what its method leaves. -/
theorem leavesShared_callBroker {α : Type}
    {method : Proc PyError (List TradeConfirmationMessage × β) α}
    (h : Proc.wp method (fun _ => J) (fun _ => J) J (w.pm.tradeConfirmationsQ, w.broker)) :
    LeavesShared J (callBroker method) w := by
  unfold LeavesShared callBroker
  rw [Proc.wp_focus]
  exact h

/-- The cancels before an order leave what every cancel leaves. -/
theorem leavesShared_cancelOpposing
    (hcancel : ∀ id t, I t → Proc.wp (B.cancelOrder id) (fun _ => I) (fun _ => I) I t)
    (buying : Bool) (ids : List String) (h : I (w.pm.tradeConfirmationsQ, w.broker)) :
    LeavesShared I (cancelOpposing B buying ids) w := by
  induction ids generalizing w with
  | nil => exact h
  | cons id ids ih =>
      unfold LeavesShared cancelOpposing
      rw [Proc.wp_bind]
      refine Proc.wp_mono ?_ (fun _ _ h => ih h) (fun _ _ h => h) fun _ h => h
      unfold cancelIfOpposing
      rw [Proc.wp_bind, Proc.wp_get]
      cases w.pm.liveOrders.lookup id with
      | none => exact h
      | some order =>
          dsimp only
          split_ifs
          · rw [Proc.wp_bind]
            refine Proc.wp_mono (leavesShared_callBroker (hcancel id _ h)) ?_ (fun _ _ h => h)
              fun _ h => h
            intro accepted wc hc
            cases accepted <;> exact hc
          · exact h

/-- **What the calls of the broker keep, reconciling a symbol keeps.** Cancels come first, and the
one submission is of a positive quantity. -/
theorem leavesShared_reconcileSymbol {symbol newId : String}
    (hcancel : ∀ id t, I t → Proc.wp (B.cancelOrder id) (fun _ => I) (fun _ => I) I t)
    (hsubmit : ∀ quantity buying t, 0 < quantity → I t →
      Proc.wp (B.submitOrder newId symbol quantity buying "MARKET" none)
        (fun _ => J) (fun _ => J) J t)
    (hIJ : ∀ t, I t → J t) (h : I (w.pm.tradeConfirmationsQ, w.broker)) :
    LeavesShared J (reconcileSymbol B symbol newId) w := by
  have hside : ∀ (delta : ℤ) (buying : Bool), delta ≠ 0 →
      LeavesShared J (do
        cancelOpposing B buying (w.pm.index symbol)
        placeNew B symbol newId |delta| buying) w := by
    intro delta buying hdelta
    unfold LeavesShared
    rw [Proc.wp_bind]
    refine Proc.wp_mono (leavesShared_cancelOpposing hcancel buying _ h) ?_
      (fun _ _ h => hIJ _ h) fun _ h => hIJ _ h
    intro _ wc hc
    unfold placeNew modifyPm
    rw [Proc.wp_bind, Proc.wp_modify, Proc.wp_bind]
    refine Proc.wp_mono (leavesShared_callBroker (J := J) (hsubmit _ _ _ (abs_pos.mpr hdelta) hc))
      ?_ (fun _ _ h => h) fun _ h => h
    intro bOrdId wp hp
    split_ifs
    · rw [Proc.wp_bind, Proc.wp_get]
      cases wp.pm.liveOrders.lookup newId <;> exact hp
    · exact hp
  unfold LeavesShared reconcileSymbol
  rw [Proc.wp_bind, Proc.wp_get]
  dsimp only
  split_ifs with hzero
  · exact hIJ _ h
  · exact hside _ true hzero
  · exact hside _ false hzero

end shared

/-- The new order covers the whole difference. -/
theorem openQuantity_newOrder {newId symbol : String} {delta : ℤ} {buying : Bool}
    (h : 0 < delta * bsInt buying) : openQuantity (newOrder newId symbol |delta| buying) = delta := by
  have hpending : Status.isTerminal .PENDING_NEW = false := rfl
  cases buying with
  | true =>
      rw [bsInt_true, mul_one] at h
      simp [openQuantity, newOrder, hpending, abs_of_pos h, h]
  | false =>
      have hneg : delta < 0 := by rw [bsInt_false] at h; omega
      simp [openQuantity, newOrder, hpending, abs_of_neg hneg, hneg]

namespace Reconciled

variable {symbol newId : String}

/-- Reconciling leaves the positions. -/
theorem positions (h : Reconciled symbol newId pm pm') : pm'.positions = pm.positions := by
  cases h with
  | onTarget => rfl
  | placed _ _ _ _ hcancel hplace => rw [hplace.positions, hcancel.positions]

/-- Reconciling leaves the targets. -/
theorem targetPositions (h : Reconciled symbol newId pm pm') :
    pm'.targetPositions = pm.targetPositions := by
  cases h with
  | onTarget => rfl
  | placed _ _ _ _ hcancel hplace => rw [hplace.targetPositions, hcancel.targetPositions]

/-- Reconciling with a fresh id keeps the books consistent. -/
theorem consistent (h : Reconciled symbol newId pm pm') (hnew : Fresh pm newId)
    (hpm : pm.Consistent) : pm'.Consistent := by
  cases h with
  | onTarget => exact hpm
  | placed _ _ _ _ hcancel hplace =>
      exact hplace.consistent (hcancel.fresh hnew) rfl (hcancel.consistent hpm)

/-- Another id that is fresh stays fresh. -/
theorem fresh_of_ne (h : Reconciled symbol newId pm pm') {id : String} (hid : Fresh pm id)
    (hne : id ≠ newId) : Fresh pm' id := by
  cases h with
  | onTarget => exact hid
  | placed delta buying _ _ hcancel hplace => exact hplace.fresh_of_ne (hcancel.fresh hid) hne

/-- The ids that the rest of the symbols take stay fresh. -/
theorem fresh_rest (h : Reconciled symbol newId pm pm') {rest : List (String × String)}
    (hnew : newId ∉ rest.map Prod.snd) (hfresh : ∀ x ∈ rest, Fresh pm x.2) :
    ∀ x ∈ rest, Fresh pm' x.2 := by
  intro x hx
  refine h.fresh_of_ne (hfresh x hx) fun heq => hnew ?_
  rw [← heq]
  exact List.mem_map_of_mem hx

/-- **Reconciling a symbol puts its working position on its target**, whatever the broker
answers. -/
theorem calculateWorkingPosition_self (h : Reconciled symbol newId pm pm')
    (hnew : Fresh pm newId) :
    calculateWorkingPosition pm' symbol = pm'.targetPositions.getD symbol 0 := by
  rw [h.targetPositions]
  cases h with
  | onTarget heq => exact heq.symm
  | placed delta buying hdelta hsign hcancel hplace =>
      calc calculateWorkingPosition pm' symbol
          = calculateWorkingPosition _ symbol + openQuantity (newOrder newId symbol |delta| buying) :=
            hplace.calculateWorkingPosition_self (hcancel.fresh hnew)
        _ = calculateWorkingPosition pm symbol + delta := by
            rw [hcancel.calculateWorkingPosition, openQuantity_newOrder hsign]
        _ = pm.targetPositions.getD symbol 0 := by rw [hdelta]; omega

/-- It leaves the working position of every other symbol. -/
theorem calculateWorkingPosition_of_ne (h : Reconciled symbol newId pm pm')
    (hnew : Fresh pm newId) {s : String} (hs : s ≠ symbol) :
    calculateWorkingPosition pm' s = calculateWorkingPosition pm s := by
  cases h with
  | onTarget => rfl
  | placed _ _ _ _ hcancel hplace =>
      rw [hplace.calculateWorkingPosition_of_ne (hcancel.fresh hnew) hs,
        hcancel.calculateWorkingPosition]

end Reconciled

end reconcile

end FlowManager.Position
