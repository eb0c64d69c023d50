import FlowManager.PositionManager.Loop
import Mathlib.Algebra.Order.BigOperators.Group.List
import Mathlib.Tactic.Ring

/-!
# Fills cause no trading

A fill moves the position and shrinks or ends the order that it fills, in two separate updates.
For a genuine fill the two cancel in the working position (`calculateWorkingPosition_genuine`): a
partial fill leaves less open by what the position gains, and the fill that completes an order
removes what was still open. So a batch of genuine fills leaves every working position, and what
was on target is left alone by the reconciliation that follows (`fills_cause_no_trading`).
-/

namespace FlowManager.Position

open FlowManager.Lib FlowManager.Broker

variable {pm : PositionManager} {conf : TradeConfirmationMessage}

/-- What a list of confirmations fills of an order. -/
def filledFor (id : String) (confs : List TradeConfirmationMessage) : ℤ :=
  ((confs.filter fun c => decide (c.clientOrderId = id)).map (·.filledQuantity)).sum

/-- No confirmations have filled nothing of an order. -/
@[simp] theorem filledFor_nil (id : String) : filledFor id [] = 0 := rfl

/-- What a confirmation and those behind it have filled of an order. -/
theorem filledFor_cons (id : String) (c : TradeConfirmationMessage)
    (confs : List TradeConfirmationMessage) :
    filledFor id (c :: confs) =
      (if c.clientOrderId = id then c.filledQuantity else 0) + filledFor id confs := by
  unfold filledFor
  by_cases h : c.clientOrderId = id <;> simp [h]

/-- Positive fills have filled nothing negative. -/
theorem filledFor_nonneg (id : String) {confs : List TradeConfirmationMessage}
    (h : ∀ c ∈ confs, 0 < c.filledQuantity) : 0 ≤ filledFor id confs := by
  apply List.sum_nonneg
  simp only [List.mem_map, List.mem_filter, forall_exists_index, and_imp]
  rintro _ c hc - rfl
  exact (h c hc).le

/-! ## Genuine fills -/

/-- A fill of an order that is tracked, after other fills: of the order's own symbol and side, of a
positive quantity, within the order's quantity, and `FILLED` exactly when it completes the
order. -/
structure GenuineFill (live : Dict String OrderDetails) (before : List TradeConfirmationMessage)
    (conf : TradeConfirmationMessage) (order : OrderDetails) : Prop where
  tracked : live.lookup conf.clientOrderId = some order
  symbol : conf.symbol = order.symbol
  side : conf.sideIsBuy = order.sideIsBuy
  positive : 0 < conf.filledQuantity
  within : order.filledQuantity + filledFor conf.clientOrderId before + conf.filledQuantity ≤
    order.quantity
  status : conf.status =
    if order.filledQuantity + filledFor conf.clientOrderId before + conf.filledQuantity =
      order.quantity then .FILLED else .PARTIALLY_FILLED

/-- A batch of genuine fills of orders that are tracked at its start. -/
def GenuineBatch (live : Dict String OrderDetails) :
    List TradeConfirmationMessage → List TradeConfirmationMessage → Prop
  | _, [] => True
  | before, conf :: rest =>
      (∃ order, GenuineFill live before conf order) ∧ GenuineBatch live (before ++ [conf]) rest

/-! ## One fill -/

/-- A sum over a symbol's list, with one of its orders taken out. -/
theorem sum_index_erase {f : String → ℤ} {s id : String} (hid : id ∈ pm.index s) :
    ((pm.index s).map f).sum = f id + (((pm.index s).erase id).map f).sum := by
  have hperm := (List.perm_cons_erase hid).map f
  rw [hperm.sum_eq, List.map_cons, List.sum_cons]

/-- The ids of the list, without an order, are not affected by its confirmations. -/
theorem sum_openOf_erase (hpm : pm.Consistent) (s : String) :
    (((pm.index s).erase conf.clientOrderId).map (processConfirmation conf pm).openOf).sum =
      (((pm.index s).erase conf.clientOrderId).map pm.openOf).sum := by
  congr 1
  apply List.map_congr_left
  intro id hid
  apply processConfirmation_openOf_of_ne
  exact Or.inr ((hpm.nodup s).mem_erase_iff.mp hid).1

/-- What is open of an order that is not filled. -/
theorem openQuantity_of_le {order : OrderDetails} (hstatus : order.status.isTerminal = false)
    (hle : order.filledQuantity ≤ order.quantity) :
    openQuantity order = (order.quantity - order.filledQuantity) * bsInt order.sideIsBuy := by
  unfold openQuantity
  rw [hstatus, if_neg Bool.false_ne_true]
  split_ifs with hpos
  · rfl
  · have hzero : order.quantity - order.filledQuantity = 0 := by omega
    rw [hzero, zero_mul]

namespace GenuineFill

variable {order : OrderDetails}

/-- A genuine fill carries the symbol of its order. -/
theorem carriesSymbol (h : GenuineFill pm.liveOrders [] conf order) : CarriesSymbol conf pm := by
  intro o ho
  obtain rfl := Option.some.inj (h.tracked.symm.trans ho)
  exact h.symbol.symm

/-- The fill completes the order, or leaves it partially filled. -/
theorem status_cases (h : GenuineFill pm.liveOrders [] conf order) :
    conf.status = .FILLED ∧ order.filledQuantity + conf.filledQuantity = order.quantity ∨
      conf.status = .PARTIALLY_FILLED ∧
        order.filledQuantity + conf.filledQuantity < order.quantity := by
  have hwithin := h.within
  have hstatus := h.status
  simp only [filledFor_nil, add_zero] at hwithin hstatus
  by_cases heq : order.filledQuantity + conf.filledQuantity = order.quantity
  · rw [if_pos heq] at hstatus
    exact Or.inl ⟨hstatus, heq⟩
  · rw [if_neg heq] at hstatus
    exact Or.inr ⟨hstatus, lt_of_le_of_ne hwithin heq⟩

/-- A fill that completes its order takes it out. -/
theorem processConfirmation_filled (h : GenuineFill pm.liveOrders [] conf order)
    (hstatus : conf.status = .FILLED) :
    processConfirmation conf pm = removeLiveOrder conf (addFill conf pm) := by
  have hterminal : conf.status.isTerminal = true := by simp [hstatus, Status.isTerminal]
  simp [processConfirmation, h.tracked, hterminal]

/-- A partial fill is added up in its order. -/
theorem processConfirmation_partlyFilled (h : GenuineFill pm.liveOrders [] conf order)
    (hstatus : conf.status = .PARTIALLY_FILLED) :
    processConfirmation conf pm = (addFill conf pm).setLiveOrder conf.clientOrderId
      { order with
        filledQuantity := order.filledQuantity + conf.filledQuantity,
        status := .PARTIALLY_FILLED } := by
  have hterminal : Status.isTerminal .PARTIALLY_FILLED = false := rfl
  simp [processConfirmation, h.tracked, hstatus, hterminal]

/-- **A genuine fill leaves the working position of its symbol**: what the position gains is what
the order has open no more. -/
theorem calculateWorkingPosition_self (h : GenuineFill pm.liveOrders [] conf order) (hpm : pm.Consistent) :
    calculateWorkingPosition (processConfirmation conf pm) conf.symbol =
      calculateWorkingPosition pm conf.symbol := by
  have hlisted : conf.clientOrderId ∈ pm.index conf.symbol := by
    rw [h.symbol]
    exact hpm.listed h.tracked
  have hpositive := h.positive
  have hopen : pm.openOf conf.clientOrderId =
      (order.quantity - order.filledQuantity) * bsInt order.sideIsBuy := by
    have hle : order.filledQuantity ≤ order.quantity := by
      rcases h.status_cases with ⟨-, heq⟩ | ⟨-, hlt⟩ <;> omega
    simp only [PositionManager.openOf, h.tracked]
    exact openQuantity_of_le (hpm.notTerminal h.tracked) hle
  rw [calculateWorkingPosition_eq, calculateWorkingPosition_eq, processConfirmation_positions,
    if_pos rfl, sum_index_erase hlisted, hopen, signedFill, h.side]
  rcases h.status_cases with ⟨hstatus, heq⟩ | ⟨hstatus, hlt⟩
  · -- the order goes with all that it had open
    have hindex : (processConfirmation conf pm).index conf.symbol =
        (pm.index conf.symbol).erase conf.clientOrderId := by
      rw [h.processConfirmation_filled hstatus, removeLiveOrder_index, if_pos rfl, addFill_index]
    have hrest : order.quantity - order.filledQuantity = conf.filledQuantity := by omega
    rw [hindex, sum_openOf_erase hpm, hrest]
    ring
  · -- the order stays with less open
    have hindex : (processConfirmation conf pm).index conf.symbol = pm.index conf.symbol := by
      rw [h.processConfirmation_partlyFilled hstatus, setLiveOrder_index, addFill_index]
    have hopen' : (processConfirmation conf pm).openOf conf.clientOrderId =
        (order.quantity - (order.filledQuantity + conf.filledQuantity)) *
          bsInt order.sideIsBuy := by
      rw [h.processConfirmation_partlyFilled hstatus]
      simp only [PositionManager.openOf, setLiveOrder_lookup, if_true]
      exact openQuantity_of_le rfl hlt.le
    have hlisted' : conf.clientOrderId ∈ (processConfirmation conf pm).index conf.symbol := by
      rw [hindex]
      exact hlisted
    rw [sum_index_erase hlisted', hopen', hindex, sum_openOf_erase hpm]
    ring

/-- **A genuine fill leaves every working position.** -/
theorem calculateWorkingPosition_eq (h : GenuineFill pm.liveOrders [] conf order) (hpm : pm.Consistent)
    (s : String) :
    calculateWorkingPosition (processConfirmation conf pm) s = calculateWorkingPosition pm s := by
  by_cases hs : s = conf.symbol
  · rw [hs]
    exact h.calculateWorkingPosition_self hpm
  · exact calculateWorkingPosition_processConfirmation conf hpm h.carriesSymbol hs

/-! ## A batch -/

/-- A later fill is as genuine after the first has been booked. -/
theorem shift (h : GenuineFill pm.liveOrders [] conf order) {before : List TradeConfirmationMessage}
    (hbefore : ∀ c ∈ before, 0 < c.filledQuantity) {conf' : TradeConfirmationMessage}
    {order' : OrderDetails} (h' : GenuineFill pm.liveOrders (conf :: before) conf' order') :
    ∃ o, GenuineFill (processConfirmation conf pm).liveOrders before conf' o := by
  have hwithin := h'.within
  have hstatus := h'.status
  rw [filledFor_cons] at hwithin hstatus
  by_cases hid : conf.clientOrderId = conf'.clientOrderId
  · obtain rfl : order = order' := by
      have htracked := h'.tracked
      rw [← hid, h.tracked] at htracked
      exact Option.some.inj htracked
    rw [if_pos hid, ← add_assoc] at hwithin hstatus
    have hlater := h'.positive
    have hmore := filledFor_nonneg conf'.clientOrderId hbefore
    -- the order was not completed, or this fill would be too much
    have hpart : conf.status = .PARTIALLY_FILLED := by
      rcases h.status_cases with ⟨-, heq⟩ | ⟨hpart, -⟩
      · omega
      · exact hpart
    refine ⟨{ order with
      filledQuantity := order.filledQuantity + conf.filledQuantity,
      status := .PARTIALLY_FILLED }, ?_, h'.symbol, h'.side, hlater, hwithin, hstatus⟩
    rw [h.processConfirmation_partlyFilled hpart, setLiveOrder_lookup, if_pos hid.symm]
  · rw [if_neg hid, zero_add] at hwithin hstatus
    refine ⟨order', ?_, h'.symbol, h'.side, h'.positive, hwithin, hstatus⟩
    rcases h.status_cases with ⟨hfilled, -⟩ | ⟨hpart, -⟩
    · rw [h.processConfirmation_filled hfilled, removeLiveOrder_liveOrders, addFill_liveOrders,
        Dict.lookup_erase_ite, if_neg (Ne.symm hid), h'.tracked]
    · rw [h.processConfirmation_partlyFilled hpart, setLiveOrder_lookup, if_neg (Ne.symm hid),
        addFill_liveOrders, h'.tracked]

end GenuineFill

/-- What is genuine behind a confirmation is genuine once that has been processed. -/
theorem GenuineBatch.shift {order : OrderDetails} (h : GenuineFill pm.liveOrders [] conf order) :
    ∀ {rest before : List TradeConfirmationMessage}, (∀ c ∈ before, 0 < c.filledQuantity) →
      GenuineBatch pm.liveOrders (conf :: before) rest →
      GenuineBatch (processConfirmation conf pm).liveOrders before rest
  | [], _, _, _ => trivial
  | conf' :: rest, before, hbefore, hbatch => by
      obtain ⟨⟨order', h'⟩, hrest⟩ := hbatch
      refine ⟨h.shift hbefore h', GenuineBatch.shift h ?_ hrest⟩
      intro c hc
      rcases List.mem_append.mp hc with hc | hc
      · exact hbefore c hc
      · rw [List.mem_singleton.mp hc]
        exact h'.positive

/-- **A batch of genuine fills leaves every working position and every target**, and the containers
in step. -/
theorem drainConfirmations_genuine : ∀ (q : List TradeConfirmationMessage)
    (affected : Finset String) (pm : PositionManager), pm.Consistent → GenuineBatch pm.liveOrders [] q →
    (drainConfirmations q affected pm).2.targetPositions = pm.targetPositions ∧
      ∀ s, calculateWorkingPosition (drainConfirmations q affected pm).2 s =
        calculateWorkingPosition pm s
  | [], _, _, _, _ => ⟨rfl, fun _ => rfl⟩
  | conf :: rest, affected, pm, hpm, hbatch => by
      obtain ⟨⟨order, hfill⟩, hrest⟩ := hbatch
      obtain ⟨taken, htaken⟩ : ∃ taken, taken = { pm with tradeConfirmationsQ := rest } := ⟨_, rfl⟩
      have hpm' : taken.Consistent := by
        rw [htaken]
        exact ⟨hpm.listed, hpm.symbol, hpm.nodup, hpm.notTerminal⟩
      have hlive : taken.liveOrders = pm.liveOrders := by rw [htaken]
      rw [← hlive] at hfill hrest
      obtain ⟨htargets, hworking⟩ := drainConfirmations_genuine rest (insert conf.symbol affected)
        (processConfirmation conf taken) (hpm'.processConfirmation conf)
        (GenuineBatch.shift hfill (fun _ hc => absurd hc List.not_mem_nil) hrest)
      rw [drainConfirmations, ← htaken]
      refine ⟨?_, fun s => ?_⟩
      · rw [htargets, processConfirmation_targetPositions, htaken]
      · rw [hworking, hfill.calculateWorkingPosition_eq hpm', htaken]
        rfl

/-! ## The reconciliation that follows -/

/-- **On target, reconciling makes no call**: whatever the broker would do, it is not asked, and
nothing changes. -/
theorem reconcilePositions_of_onTarget {β : Type} (B : Broker β) {w : World β}
    (hon : ∀ s, w.pm.OnTarget s) (xs : List (String × String)) :
    (reconcilePositions B xs).run w = .returned () w := by
  induction xs with
  | nil => rfl
  | cons x xs ih =>
      obtain ⟨symbol, newId⟩ := x
      have hdelta : w.pm.targetPositions.getD symbol 0 - calculateWorkingPosition w.pm symbol = 0 :=
        sub_eq_zero.mpr (hon symbol).symm
      have hone : (reconcileSymbol B symbol newId).run w = .returned () w := by
        simp [reconcileSymbol, hdelta]
      rw [reconcilePositions, Proc.run_bind, hone, Outcome.bind_returned, ih]

/-- **Fills cause no trading.** At a loop boundary, with the containers in step and every symbol on
target, any batch of genuine fills of tracked orders leaves every working position, and the
reconciliation that follows makes no call on the broker, whichever broker it is and in whichever
order it goes through the symbols. -/
theorem fills_cause_no_trading {pm : PositionManager} (hpm : pm.Consistent)
    (hon : ∀ s, calculateWorkingPosition pm s = pm.targetPositions.getD s 0)
    (hbatch : GenuineBatch pm.liveOrders [] pm.tradeConfirmationsQ) :
    (∀ s, calculateWorkingPosition (processTradeConfirmations pm).2 s =
        calculateWorkingPosition pm s) ∧
      ∀ (β : Type) (B : Broker β) (b : β) (xs : List (String × String)),
        (reconcilePositions B xs).run ⟨(processTradeConfirmations pm).2, b⟩ =
          .returned () ⟨(processTradeConfirmations pm).2, b⟩ := by
  obtain ⟨htargets, hworking⟩ := drainConfirmations_genuine pm.tradeConfirmationsQ ∅ pm hpm hbatch
  refine ⟨hworking, fun β B b xs => reconcilePositions_of_onTarget B (fun s => ?_) xs⟩
  have hsame : (processTradeConfirmations pm).2.targetPositions = pm.targetPositions := htargets
  show calculateWorkingPosition _ s = (processTradeConfirmations pm).2.targetPositions.getD s 0
  rw [hsame]
  exact (hworking s).trans (hon s)

/-- A report of a fill of the buy order of `bought`. -/
def fillOfBuy (quantity : ℤ) (status : Status) : TradeConfirmationMessage where
  orderId := 1
  clientOrderId := "buy"
  symbol := "AMD"
  filledQuantity := quantity
  sideIsBuy := true
  price := .finite 0
  status := status

/-- Two fills of the order, of 5 and of the other 15, wait in the queue. -/
def filling : PositionManager :=
  { bought.pm with
    tradeConfirmationsQ := [fillOfBuy 5 .PARTIALLY_FILLED, fillOfBuy 15 .FILLED] }

/-- Two fills of an order leave the working position of `AMD` on its target of 20. -/
theorem fills_cause_no_trading_two_fills :
    calculateWorkingPosition (processTradeConfirmations filling).2 "AMD" = 20 := by
  have hreach : Reachable acceptingBroker CarriesSymbol 0 ⟨.reconciling ∅, bought⟩ :=
    reachable_bought
  have hpm := hreach.consistent
  have hfilling : filling.Consistent := ⟨hpm.listed, hpm.symbol, hpm.nodup, hpm.notTerminal⟩
  have hbatch : GenuineBatch filling.liveOrders [] filling.tradeConfirmationsQ :=
    ⟨⟨_, rfl, rfl, rfl, by decide, by decide, by decide⟩,
      ⟨_, rfl, rfl, rfl, by decide, by decide, by decide⟩, trivial⟩
  obtain ⟨hworking, -⟩ := fills_cause_no_trading hfilling
    (fun s => hreach.settled s (Finset.notMem_empty s)) hbatch
  exact (hworking "AMD").trans (by decide)

end FlowManager.Position
