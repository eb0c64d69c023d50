import FlowManager.System.Settling

/-!
# A changed target may keep the system from settling

The hypothesis of `undisturbed_settles`, that no outstanding order is being cancelled, cannot be
dropped. A target is set and an order placed for it, and before anything of it is filled the target
is set back. Reconciliation cancels the order and places one the other way, for the full difference.
When the thread of the first order ends with nothing filled, the working position counts on too much
of the second order; that one is cancelled and the first placed again, and so on: each confirmation
starts the next swing (`Swinging.next`).

Every thread finishes and the loop takes every confirmation, so the run is fair; but it submits orders
without end, and nothing is ever filled (`retargeting_may_not_settle`).
-/

namespace FlowManager.System

open FlowManager.Lib FlowManager.Broker FlowManager.Position FlowManager.Broker.Simulated

variable {c c' : SimConfig}

/-! ## Runs in which nothing is filled -/

/-- Nothing has been filled. -/
structure Unfilled (c : SimConfig) : Prop where
  positions : ∀ s, c.pm.positions.getD s 0 = 0
  orders : ∀ o ∈ c.broker.orders, o.amountFilled = 0
  queue : ∀ conf ∈ c.pm.tradeConfirmationsQ, conf.filledQuantity = 0

/-- What a run reaches in which the targets arrive one after the other and nothing is filled. The other
steps are of the loop and of order threads. -/
inductive Targeted : List (String × ℤ) → SimConfig → Prop
  | init : Targeted [] .init
  | arrives {targets : List (String × ℤ)} {c : SimConfig} (symbol : String) (target : ℤ) :
      Targeted targets c →
      Targeted (targets ++ [(symbol, target)])
        { c with pm := updateTargetPosition symbol target c.pm }
  | step {targets : List (String × ℤ)} {c c' : SimConfig} :
      Targeted targets c → SimStep Internal c c' →
      c'.pm.targetUpdatesQ <:+ c.pm.targetUpdatesQ → c'.terminateFlag = c.terminateFlag →
      Unfilled c' → Targeted targets c'

/-- At the start nothing has been filled. -/
theorem unfilled_init : Unfilled .init :=
  ⟨fun _ => rfl, fun _ ho => absurd ho List.not_mem_nil, fun _ hconf => absurd hconf List.not_mem_nil⟩

/-- Nothing has been filled on the way. -/
theorem Targeted.unfilled {targets : List (String × ℤ)} (h : Targeted targets c) : Unfilled c := by
  induction h with
  | init => exact unfilled_init
  | arrives symbol target _ ih => exact ⟨ih.positions, ih.orders, ih.queue⟩
  | step _ _ _ _ hunfilled _ => exact hunfilled

/-- Such a run is a run. -/
theorem Targeted.reached {targets : List (String × ℤ)} (h : Targeted targets c) :
    SimReaches NotSubmit .init c := by
  induction h with
  | init => exact .refl
  | arrives symbol target _ ih => exact ih.tail (.targetArrives _ symbol target)
  | step _ hstep _ _ _ ih => exact ih.tail (hstep.mono fun _ he => he.notSubmit)

/-! ## Runs on known states -/

/-- What a step of an order thread does besides moving on.
Source: `simulated_broker.py`, `SimulatedBroker._internal_sim_trade_callback` -/
def passOn (place : Place) (t : Shared) : Shared :=
  match place with
  | .removing confirmation =>
      (t.1, { t.2 with liveOrders := t.2.liveOrders.erase confirmation.clientOrderId })
  | .queueing confirmation => callback confirmation t
  | _ => t

/-- A step of the thread of the order behind some others. -/
theorem threadStep_split {q : List TradeConfirmationMessage} {b : SimulatedBroker}
    {before after : List SimulatedOrder} {o : SimulatedOrder} (draw : ℕ)
    (h : b.orders = before ++ o :: after) :
    threadStep before.length draw (q, b) =
      passOn o.thread (q, { b with orders := before ++ o.move draw :: after }) := by
  have hmodify : b.orders.modify before.length (·.move draw) = before ++ o.move draw :: after := by
    rw [h]
    exact modify_length_append _ o after before
  have ho : b.orders[before.length]? = some o := by simp [h]
  simp only [threadStep, ho, SimulatedBroker.write, hmodify]
  cases o.thread <;> rfl

/-- A call of the loop before which no other thread makes a step. -/
theorem run_callBroker {α : Type} {method : Proc PyError Shared α} {pm : PositionManager}
    {b b' : SimulatedBroker} {a : α}
    (h : method.run (pm.tradeConfirmationsQ, b) = .returned a (pm.tradeConfirmationsQ, b')) :
    (callBroker (afterEvents method)).run ⟨pm, ⟨b, []⟩⟩ = .returned a ⟨pm, ⟨b', []⟩⟩ := by
  have hafter : (afterEvents method).run (pm.tradeConfirmationsQ, ⟨b, []⟩) =
      .returned a (pm.tradeConfirmationsQ, ⟨b', []⟩) := by
    unfold afterEvents
    refine (Proc.run_focus_of_returned (t := (pm.tradeConfirmationsQ, b')) ?_).trans rfl
    exact h
  unfold callBroker
  refine (Proc.run_focus_of_returned (t := (pm.tradeConfirmationsQ, ⟨b', []⟩)) ?_).trans rfl
  exact hafter

/-- Placing an order with an id that is not in use. -/
theorem run_placeNew {pm : PositionManager} {b : SimulatedBroker} {newId : String}
    (hnew : b.liveOrders.lookup newId = none) (symbol : String) (quantity : ℤ) (buying : Bool) :
    (placeNew scheduled symbol newId quantity buying).run ⟨pm, ⟨b, []⟩⟩ = .returned ()
      ⟨(pm.track (newOrder newId symbol quantity buying)).setLiveOrder newId
        { newOrder newId symbol quantity buying with brokerOrderId := some (b.orders.length : ℤ) },
        ⟨b.accept newId symbol quantity buying, []⟩⟩ := by
  have hsubmit : (Simulated.submitOrder newId symbol quantity buying "MARKET" none).run
      (pm.tradeConfirmationsQ, b) = .returned (some (b.orders.length : ℤ))
        (pm.tradeConfirmationsQ, b.accept newId symbol quantity buying) := by
    simp [Simulated.submitOrder, hnew]
  have hlookup : (pm.track (newOrder newId symbol quantity buying)).liveOrders.lookup newId =
      some (newOrder newId symbol quantity buying) := Finmap.lookup_insert _
  have hcall : (callBroker (scheduled.submitOrder newId symbol quantity buying "MARKET" none)).run
      ⟨pm.track (newOrder newId symbol quantity buying), ⟨b, []⟩⟩ =
      .returned (some (b.orders.length : ℤ))
        ⟨pm.track (newOrder newId symbol quantity buying), ⟨b.accept newId symbol quantity buying, []⟩⟩ :=
    run_callBroker hsubmit
  rw [placeNew, Proc.run_bind, modifyPm, Proc.run_modify, Outcome.bind_returned, Proc.run_bind, hcall]
  simp [hlookup, modifyPm]

/-- Reconciling a symbol that is off target. -/
theorem run_reconcileSymbol {pm pm₁ : PositionManager} {b b₁ : SimulatedBroker}
    {symbol newId : String} {x : ℤ}
    (hdelta : pm.targetPositions.getD symbol 0 - calculateWorkingPosition pm symbol = x) (hx : x ≠ 0)
    (hcancel : (cancelOpposing scheduled (decide (0 < x)) (pm.index symbol)).run ⟨pm, ⟨b, []⟩⟩ =
      .returned () ⟨pm₁, ⟨b₁, []⟩⟩)
    (hnew : b₁.liveOrders.lookup newId = none) :
    (reconcileSymbol scheduled symbol newId).run ⟨pm, ⟨b, []⟩⟩ = .returned ()
      ⟨(pm₁.track (newOrder newId symbol |x| (decide (0 < x)))).setLiveOrder newId
        { newOrder newId symbol |x| (decide (0 < x)) with
          brokerOrderId := some (b₁.orders.length : ℤ) },
        ⟨b₁.accept newId symbol |x| (decide (0 < x)), []⟩⟩ := by
  rw [reconcileSymbol, Proc.run_bind, Proc.run_get, Outcome.bind_returned]
  dsimp only
  rw [hdelta, if_neg hx]
  split_ifs with hpos
  · rw [decide_eq_true hpos] at hcancel ⊢
    rw [Proc.run_bind, hcancel, Outcome.bind_returned, run_placeNew hnew]
  · rw [decide_eq_false hpos] at hcancel ⊢
    rw [Proc.run_bind, hcancel, Outcome.bind_returned, run_placeNew hnew]

/-- The live order of the other side is cancelled. -/
theorem run_cancelOpposing_one {pm : PositionManager} {b : SimulatedBroker} {buying : Bool}
    {id : String} {d : OrderDetails} {i : ℕ} (hd : pm.liveOrders.lookup id = some d)
    (hopp : opposes buying d = true) (hlive : b.liveOrders.lookup id = some i) :
    (cancelOpposing scheduled buying [id]).run ⟨pm, ⟨b, []⟩⟩ = .returned ()
      ⟨pm.setLiveOrder id { d with status := .PENDING_CANCEL },
        ⟨b.write i SimulatedOrder.cancelOrder, []⟩⟩ := by
  have hcancel : (Simulated.cancelOrder id).run (pm.tradeConfirmationsQ, b) =
      .returned true (pm.tradeConfirmationsQ, b.write i SimulatedOrder.cancelOrder) := by
    simp [Simulated.cancelOrder, hlive]
  have hcall : (callBroker (scheduled.cancelOrder id)).run ⟨pm, ⟨b, []⟩⟩ =
      .returned true ⟨pm, ⟨b.write i SimulatedOrder.cancelOrder, []⟩⟩ :=
    run_callBroker hcancel
  simp [cancelOpposing, cancelIfOpposing, hd, hopp, hcall, modifyPm]

/-! ## One order at work -/

/-- The order that is placed for a signed quantity. -/
def orderFor (id symbol : String) (x : ℤ) (r : Option ℤ) : OrderDetails :=
  { newOrder id symbol |x| (decide (0 < x)) with brokerOrderId := r }

/-- The order of the broker for a signed quantity. -/
def simulatedFor (i : ℕ) (id symbol : String) (x : ℤ) : SimulatedOrder :=
  .init i id symbol |x| (decide (0 < x))

/-- A number that is not 0 is positive in its own direction. -/
theorem mul_bsInt_pos {x : ℤ} (h : x ≠ 0) : 0 < x * bsInt (decide (0 < x)) := by
  by_cases hpos : 0 < x
  · simp [hpos]
  · have hneg : x < 0 := by omega
    simp [hpos]
    omega

/-- All of a new order is open. -/
theorem openQuantity_orderFor {id symbol : String} {x : ℤ} (h : x ≠ 0) (r : Option ℤ) :
    openQuantity (orderFor id symbol x r) = x :=
  have hnew : openQuantity (newOrder id symbol |x| (decide (0 < x))) = x :=
    openQuantity_newOrder (mul_bsInt_pos h)
  hnew

/-- An order of the one side opposes the other. -/
theorem opposes_orderFor {id symbol : String} {x y : ℤ} (h : x * y < 0) (r : Option ℤ) :
    opposes (decide (0 < x)) (orderFor id symbol y r) = true := by
  have hsides : decide (0 < y) ≠ decide (0 < x) := by
    rw [Ne, decide_eq_decide]
    rcases mul_neg_iff.mp h with ⟨hx, hy⟩ | ⟨hx, hy⟩ <;> omega
  simpa [opposes, orderFor, newOrder, Status.isTerminal] using hsides

/-- The order has ended without a fill. -/
structure Ended (o : SimulatedOrder) : Prop where
  finished : o.isFinished = true
  status : o.status = .CANCELLED
  unfilled : o.amountFilled = 0

/-- The broker has confirmed the first orders, each as cancelled with nothing filled. -/
def Confirmed (k : ℕ) (b : SimulatedBroker) : Prop :=
  b.confirmations.map (fun conf => (conf.orderId, conf.status, conf.filledQuantity)) =
    (List.range k).map fun i : ℕ => ((i : ℤ), Status.CANCELLED, (0 : ℤ))

/-- The only live order of the symbol has nothing filled yet, and all orders before it have
ended. -/
structure Working (symbol id : String) (y : ℤ) (k : ℕ) (pm : PositionManager)
    (b : SimulatedBroker) : Prop where
  index : pm.index symbol = [id]
  live : ∃ r, pm.liveOrders.lookup id = some (orderFor id symbol y r)
  positions : ∀ s, pm.positions.getD s 0 = 0
  orders : ∃ done, b.orders = done ++ [simulatedFor k id symbol y] ∧ done.length = k ∧
    ∀ o ∈ done, Ended o
  liveOrders : b.liveOrders.lookup id = some k
  confirmed : Confirmed k b

/-- Two live orders of the symbol, the first of which is being cancelled; nothing is filled, and all
orders before them have ended. -/
structure Swung (symbol old new : String) (x y : ℤ) (k : ℕ) (pm : PositionManager)
    (b : SimulatedBroker) : Prop where
  index : pm.index symbol = [old, new]
  liveOld : ∃ d, pm.liveOrders.lookup old = some d
  liveNew : ∃ r, pm.liveOrders.lookup new = some (orderFor new symbol y r)
  positions : ∀ s, pm.positions.getD s 0 = 0
  target : pm.targetPositions.getD symbol 0 = x + y
  orders : ∃ done, b.orders =
    done ++ [(simulatedFor k old symbol x).cancelOrder, simulatedFor (k + 1) new symbol y] ∧
    done.length = k ∧ ∀ o ∈ done, Ended o
  confirmed : Confirmed k b
  liveOrdersOld : b.liveOrders.lookup old = some k
  liveOrdersNew : b.liveOrders.lookup new = some (k + 1)

/-- While an order works alone nothing has been filled. -/
theorem Working.unfilled {symbol id : String} {y : ℤ} {k : ℕ} {pm : PositionManager}
    {b : SimulatedBroker} (h : Working symbol id y k pm b) : ∀ o ∈ b.orders, o.amountFilled = 0 := by
  obtain ⟨done, horders, -, hdone⟩ := h.orders
  intro o ho
  rw [horders] at ho
  rcases List.mem_append.mp ho with ho | ho
  · exact (hdone o ho).unfilled
  · rw [List.mem_singleton.mp ho]
    rfl

/-- Between two swings nothing has been filled. -/
theorem Swung.unfilled {symbol old new : String} {x y : ℤ} {k : ℕ} {phase : RunPhase} {flag : Bool}
    {pm : PositionManager} {b : SimulatedBroker} (h : Swung symbol old new x y k pm b)
    (hq : pm.tradeConfirmationsQ = []) : Unfilled ⟨phase, flag, pm, b⟩ := by
  obtain ⟨done, horders, -, hdone⟩ := h.orders
  refine ⟨h.positions, fun o ho => ?_, fun conf hconf => ?_⟩
  · replace ho : o ∈ b.orders := ho
    rw [horders] at ho
    rcases List.mem_append.mp ho with ho | ho
    · exact (hdone o ho).unfilled
    · rcases List.mem_pair.mp ho with rfl | rfl <;> rfl
  · replace hconf : conf ∈ pm.tradeConfirmationsQ := hconf
    rw [hq] at hconf
    exact absurd hconf List.not_mem_nil

section turn

variable {symbol id newId : String} {x y : ℤ} {k : ℕ} {pm : PositionManager}
  {b : SimulatedBroker}

/-- The working position of the symbol is what is on its way. -/
theorem Working.calculateWorkingPosition_eq (h : Working symbol id y k pm b) (hy : y ≠ 0) :
    calculateWorkingPosition pm symbol = y := by
  obtain ⟨r, hr⟩ := h.live
  rw [Position.calculateWorkingPosition_eq, h.index, h.positions]
  simp [PositionManager.openOf, hr, openQuantity_orderFor hy]

/-- **The order is cancelled, and one the other way placed.** -/
theorem Working.turn (h : Working symbol id y k pm b)
    (htarget : pm.targetPositions.getD symbol 0 = x + y) (hxy : x * y < 0)
    (hq : pm.tradeConfirmationsQ = []) (htargets : pm.targetUpdatesQ = [])
    (hnew : b.liveOrders.lookup newId = none) (hne : newId ≠ id) :
    ∃ w', (reconcileSymbol scheduled symbol newId).run ⟨pm, ⟨b, []⟩⟩ = .returned () w' ∧
      w'.pm.tradeConfirmationsQ = [] ∧ w'.pm.targetUpdatesQ = [] ∧
      Swung symbol id newId y x k w'.pm w'.broker.broker := by
  obtain ⟨hx, hy⟩ : x ≠ 0 ∧ y ≠ 0 := by
    constructor <;> rintro rfl <;> simp at hxy
  obtain ⟨r, hr⟩ := h.live
  obtain ⟨done, horders, hlength, hdone⟩ := h.orders
  have hdelta : pm.targetPositions.getD symbol 0 - calculateWorkingPosition pm symbol = x := by
    rw [htarget, h.calculateWorkingPosition_eq hy, add_sub_cancel_right]
  have hcancel := run_cancelOpposing_one (b := b) hr (opposes_orderFor hxy r) h.liveOrders
  rw [← h.index] at hcancel
  have hwrite : (b.write k SimulatedOrder.cancelOrder).orders =
      done ++ [(simulatedFor k id symbol y).cancelOrder] := by
    rw [SimulatedBroker.write, horders, ← hlength]
    exact modify_length_append _ _ [] done
  refine ⟨_, run_reconcileSymbol hdelta hx hcancel hnew, hq, htargets, ?_, ?_, ?_, ?_, ?_, ?_,
    h.confirmed, ?_, ?_⟩
  · rw [setLiveOrder_index]
    refine ((placed_track _).index symbol).trans ((if_pos rfl).trans ?_)
    rw [setLiveOrder_index, h.index]
    rfl
  · refine ⟨{ orderFor id symbol y r with status := .PENDING_CANCEL }, ?_⟩
    rw [setLiveOrder_lookup, if_neg hne.symm]
    refine (Dict.lookup_insert_ite _ _ _ _).trans ((if_neg hne.symm).trans ?_)
    rw [setLiveOrder_lookup, if_pos rfl]
  · exact ⟨_, (setLiveOrder_lookup newId newId _).trans (if_pos rfl)⟩
  · exact h.positions
  · exact htarget.trans (add_comm x y)
  · refine ⟨done, ?_, hlength, hdone⟩
    dsimp only [SimulatedBroker.accept]
    rw [hwrite, List.append_assoc, List.length_append, hlength]
    rfl
  · exact (Dict.lookup_insert_ite _ _ _ _).trans ((if_neg hne.symm).trans h.liveOrders)
  · refine (Dict.lookup_insert_ite _ _ _ _).trans ((if_pos rfl).trans ?_)
    rw [hwrite, List.length_append, hlength]
    rfl

/-- The first order. -/
theorem working_placed (hindex : pm.index symbol = []) (hpositions : ∀ s, pm.positions.getD s 0 = 0)
    (htarget : pm.targetPositions.getD symbol 0 = y) (hy : y ≠ 0) (horders : b.orders = [])
    (hconfirmed : b.confirmations = []) (hnew : b.liveOrders.lookup id = none)
    (hq : pm.tradeConfirmationsQ = []) (htargets : pm.targetUpdatesQ = []) :
    ∃ w', (reconcileSymbol scheduled symbol id).run ⟨pm, ⟨b, []⟩⟩ = .returned () w' ∧
      w'.pm.tradeConfirmationsQ = [] ∧ w'.pm.targetUpdatesQ = [] ∧
      Working symbol id y 0 w'.pm w'.broker.broker := by
  have hdelta : pm.targetPositions.getD symbol 0 - calculateWorkingPosition pm symbol = y := by
    rw [Position.calculateWorkingPosition_eq, hindex, hpositions, htarget]
    simp
  have hcancel : (cancelOpposing scheduled (decide (0 < y)) (pm.index symbol)).run ⟨pm, ⟨b, []⟩⟩ =
      .returned () ⟨pm, ⟨b, []⟩⟩ := by rw [hindex]; rfl
  refine ⟨_, run_reconcileSymbol hdelta hy hcancel hnew, hq, htargets, ?_, ?_, hpositions, ?_, ?_,
    ?_⟩
  · rw [setLiveOrder_index]
    refine ((placed_track _).index symbol).trans ((if_pos rfl).trans ?_)
    rw [hindex]
    rfl
  · exact ⟨_, (setLiveOrder_lookup id id _).trans (if_pos rfl)⟩
  · refine ⟨[], ?_, rfl, by simp⟩
    dsimp only [SimulatedBroker.accept]
    rw [horders]
    rfl
  · refine (Dict.lookup_insert_ite _ _ _ _).trans ((if_pos rfl).trans ?_)
    rw [horders]
    rfl
  · show List.map _ b.confirmations = _
    rw [hconfirmed]
    rfl

/-! ## The thread of the cancelled order -/

/-- What the cancelled order reports. -/
def nothingFilled (i : ℕ) (id symbol : String) (x : ℤ) : TradeConfirmationMessage :=
  (simulatedFor i id symbol x).confirmation .CANCELLED

/-- The cancelled order once its thread has finished. -/
def endedFor (i : ℕ) (id symbol : String) (x : ℤ) : SimulatedOrder :=
  { (simulatedFor i id symbol x).cancelOrder with status := .CANCELLED, thread := .finished }

/-- The thread of a cancelled order goes to its end with nothing filled. -/
theorem applyEvents_cancelled {q : List TradeConfirmationMessage} {done after : List SimulatedOrder}
    (horders : b.orders = done ++ (simulatedFor k id symbol x).cancelOrder :: after)
    (hlength : done.length = k) :
    applyEvents (List.replicate 5 (.thread k 0)) (q, b) =
      (q ++ [nothingFilled k id symbol x],
        { b with
          orders := done ++ endedFor k id symbol x :: after,
          liveOrders := b.liveOrders.erase id,
          confirmations := b.confirmations ++ [nothingFilled k id symbol x] }) := by
  subst hlength
  obtain ⟨o, ho⟩ : ∃ o, o = (simulatedFor done.length id symbol x).cancelOrder := ⟨_, rfl⟩
  have hcancelling : o.cancelling = true := by rw [ho]; rfl
  have htesting : o.thread = .testing := by rw [ho]; rfl
  have hstep : ∀ (o' : SimulatedOrder) (live : Dict String ℕ),
      threadStep done.length 0 (q, ⟨done ++ o' :: after, live, b.timers, b.confirmations⟩) =
        passOn o'.thread (q, ⟨done ++ o'.move 0 :: after, live, b.timers, b.confirmations⟩) :=
    fun o' live => threadStep_split 0 rfl
  have hmoves : o.move 0 = { o with thread := .finishing } ∧
      ({ o with thread := .finishing } : SimulatedOrder).move 0 =
        { o with thread := .writing .CANCELLED } := by
    simp [SimulatedOrder.move, htesting, hcancelling]
  have hb : b = ⟨done ++ o :: after, b.liveOrders, b.timers, b.confirmations⟩ := by
    rw [ho, ← horders]
  simp only [applyEvents, List.replicate, List.foldl_cons, List.foldl_nil, SimEvent.apply]
  rw [hb, hstep, htesting, hmoves.1]
  dsimp only [passOn]
  rw [hstep, hmoves.2]
  dsimp only [passOn]
  rw [hstep]
  dsimp only [passOn, SimulatedOrder.move]
  rw [hstep]
  dsimp only [passOn, SimulatedOrder.move]
  rw [hstep]
  dsimp only [passOn, SimulatedOrder.move, Simulated.callback]
  rw [ho]
  rfl

end turn

/-! ## From one swing to the next -/

/-- A step that nobody disturbs and that fills nothing. -/
structure CalmStep (c c' : SimConfig) : Prop where
  step : SimStep Internal c c'
  undisturbed : c'.Undisturbed
  unfilled : Unfilled c'

/-- The order is being cancelled, and its thread goes to the end with nothing filled. -/
structure CancelledUnfilled (o : SimulatedOrder) : Prop where
  cancelling : o.cancelling = true
  unfilled : o.amountFilled = 0
  place : o.thread ≠ .filling
  message : ∀ conf, o.thread = .removing conf ∨ o.thread = .queueing conf → conf.filledQuantity = 0

/-- Every step of its thread is such a step. -/
theorem CancelledUnfilled.move {o : SimulatedOrder} (h : CancelledUnfilled o) (draw : ℕ) : CancelledUnfilled (o.move draw) := by
  obtain ⟨hcancelling, hunfilled, hplace, hmessage⟩ := h
  unfold SimulatedOrder.move
  cases hthread : o.thread with
  | testing => exact ⟨hcancelling, hunfilled, by simp [hcancelling], by simp [hcancelling]⟩
  | filling => exact absurd hthread hplace
  | finishing => exact ⟨hcancelling, hunfilled, by simp, by simp⟩
  | writing finalStatus =>
      refine ⟨hcancelling, hunfilled, by simp, ?_⟩
      rintro conf (hconf | hconf)
      · cases hconf
        exact hunfilled
      · cases hconf
  | removing confirmation =>
      refine ⟨hcancelling, hunfilled, by simp, ?_⟩
      rintro conf (hconf | hconf)
      · cases hconf
      · cases hconf
        exact hmessage _ (Or.inl hthread)
  | queueing confirmation => exact ⟨hcancelling, hunfilled, by simp, by simp⟩
  | finished => exact ⟨hcancelling, hunfilled, hplace, hmessage⟩

/-- Nothing has been filled or reported as filled, and the order at a place is ending. -/
structure EndsUnfilled (k : ℕ) (t : Shared) : Prop where
  orders : ∀ o ∈ t.2.orders, o.amountFilled = 0
  queue : ∀ conf ∈ t.1, conf.filledQuantity = 0
  ending : ∀ o, t.2.orders[k]? = some o → CancelledUnfilled o

/-- The thread of the order keeps it so. -/
theorem EndsUnfilled.threadStep {k : ℕ} {t : Shared} (h : EndsUnfilled k t) (draw : ℕ) :
    EndsUnfilled k (Simulated.threadStep k draw t) := by
  refine ⟨fun o ho => ?_, fun conf hconf => ?_, fun o ho => ?_⟩
  · rw [orders_threadStep] at ho
    obtain ⟨j, hj⟩ := List.mem_iff_getElem?.mp ho
    rcases getElem?_modify_cases hj with ⟨rfl, o', ho', rfl⟩ | ⟨-, hj⟩
    · exact ((h.ending o' ho').move draw).unfilled
    · exact h.orders o (List.mem_of_getElem? hj)
  · unfold Simulated.threadStep at hconf
    cases ho : t.2.orders[k]? with
    | none =>
        rw [ho] at hconf
        exact h.queue conf hconf
    | some o =>
        rw [ho] at hconf
        cases hthread : o.thread with
        | queueing confirmation =>
            simp only [hthread, Simulated.callback] at hconf
            rcases List.mem_append.mp hconf with hold | hnew
            · exact h.queue conf hold
            · rw [List.mem_singleton.mp hnew]
              exact (h.ending o ho).message _ (Or.inr hthread)
        | testing | filling | finishing | writing | removing | finished =>
            simp only [hthread] at hconf
            exact h.queue conf hconf
  · rw [orders_threadStep] at ho
    rcases getElem?_modify_cases ho with ⟨-, o', ho', rfl⟩ | ⟨hne, -⟩
    · exact (h.ending o' ho').move draw
    · exact absurd rfl hne

/-- So nothing is filled while the thread of an order that is ending goes on. -/
theorem calm_threadSteps {k : ℕ} (n : ℕ) (hd : c.Undisturbed)
    (hpositions : ∀ s, c.pm.positions.getD s 0 = 0) (h : EndsUnfilled k c.shared) :
    Relation.ReflTransGen CalmStep c
      (c.setShared (applyEvents (List.replicate n (.thread k 0)) c.shared)) := by
  induction n generalizing c with
  | zero => exact .refl
  | succ n ih =>
      have hnext : EndsUnfilled k (Simulated.threadStep k 0 c.shared) := h.threadStep 0
      have hstep : CalmStep c (c.setShared ((SimEvent.thread k 0).apply c.shared)) :=
        ⟨.event c _ (by simp [Internal]), hd, hpositions, hnext.orders, hnext.queue⟩
      exact .head hstep (ih hstep.undisturbed hpositions hnext)

/-- Calm steps are steps of a run. -/
theorem calm_reaches (h : Relation.ReflTransGen CalmStep c c') : SimReaches NotSubmit c c' :=
  Relation.ReflTransGen.mono (fun _ _ hstep => hstep.step.mono fun _ he => he.notSubmit) _ _ h

/-- Between two iterations, with two live orders of which the first is being cancelled. Each order
before them was cancelled, and each confirmation of a cancel was taken. -/
structure Swinging (symbol : String) (x y : ℤ) (k : ℕ) (c : SimConfig) : Prop where
  reached : SimReaches NotSubmit .init c
  phase : c.phase = .testing
  undisturbed : c.Undisturbed
  queue : c.pm.tradeConfirmationsQ = []
  swung : ∃ old new, Swung symbol old new x y k c.pm c.broker

/-- An id that no order has had. -/
theorem exists_unplaced (b : SimulatedBroker) : ∃ newId, Unplaced newId b := by
  obtain ⟨newId, hnew⟩ := Infinite.exists_notMem_finset (clientIds b).toFinset
  refine ⟨newId, unplaced_iff.mpr ?_⟩
  simpa using hnew

/-- The broker has no live order under an id without an order. -/
theorem not_live_of_unplaced (h : SimReaches NotSubmit .init c) {newId : String}
    (hnew : Unplaced newId c.broker) : c.broker.liveOrders.lookup newId = none := by
  rw [Option.eq_none_iff_forall_ne_some]
  intro i hi
  exact unplaced_iff.mp hnew (h.unduplicated.live hi)

/-- Once the cancelled order is taken out, the other one is at work alone. -/
theorem Swung.working {symbol old new : String} {x y : ℤ} {k : ℕ} {pm : PositionManager}
    {b : SimulatedBroker} (h : Swung symbol old new x y k pm b)
    {done : List SimulatedOrder} (hlength : done.length = k) (hdone : ∀ o ∈ done, Ended o) :
    Working symbol new y (k + 1)
      (processConfirmation (nothingFilled k old symbol x) { pm with tradeConfirmationsQ := [] })
      ⟨done ++ endedFor k old symbol x :: [simulatedFor (k + 1) new symbol y],
        b.liveOrders.erase old, b.timers,
        b.confirmations ++ [nothingFilled k old symbol x]⟩ := by
  obtain ⟨d, hd⟩ := h.liveOld
  obtain ⟨r, hr⟩ := h.liveNew
  have hne : new ≠ old := by
    rintro rfl
    have hsame := h.liveOrdersOld.symm.trans h.liveOrdersNew
    simp at hsame
  have hprocess : processConfirmation (nothingFilled k old symbol x)
      { pm with tradeConfirmationsQ := [] } =
      removeLiveOrder (nothingFilled k old symbol x) (addFill (nothingFilled k old symbol x)
        { pm with tradeConfirmationsQ := [] }) := by
    have hd' : pm.liveOrders.lookup (nothingFilled k old symbol x).clientOrderId = some d := hd
    have hterminal : (nothingFilled k old symbol x).status.isTerminal = true := rfl
    simp [processConfirmation, hd', hterminal]
  refine ⟨?_, ⟨r, ?_⟩, fun s => ?_, ⟨done ++ [endedFor k old symbol x], by simp, by simp [hlength],
    ?_⟩, ?_, ?_⟩
  · rw [hprocess, removeLiveOrder_index]
    refine (if_pos rfl).trans ?_
    have hindex : PositionManager.index { pm with tradeConfirmationsQ := [] } symbol = [old, new] :=
      h.index
    rw [addFill_index, hindex]
    exact List.erase_cons_head _ _
  · rw [hprocess, removeLiveOrder_liveOrders, Dict.lookup_erase_ite]
    exact (if_neg hne).trans hr
  · have hnone : signedFill (nothingFilled k old symbol x) = 0 := zero_mul _
    rw [processConfirmation_positions, hnone, ite_self, add_zero]
    exact h.positions s
  · intro o ho
    rcases List.mem_append.mp ho with ho | ho
    · exact hdone o ho
    · rw [List.mem_singleton.mp ho]
      exact ⟨rfl, rfl, rfl⟩
  · exact (Dict.lookup_erase_ite _ _ _).trans ((if_neg hne).trans h.liveOrdersNew)
  · have hbefore := h.confirmed
    unfold Confirmed at hbefore ⊢
    rw [List.map_append, hbefore, List.range_succ, List.map_append]
    rfl

/-- The cancelled order of a swing is ending. -/
theorem Swung.endsUnfilled {symbol old new : String} {x y : ℤ} {k : ℕ} {pm : PositionManager}
    {b : SimulatedBroker} (h : Swung symbol old new x y k pm b) (hq : pm.tradeConfirmationsQ = []) :
    EndsUnfilled k (pm.tradeConfirmationsQ, b) := by
  have hunfilled : Unfilled ⟨.testing, false, pm, b⟩ := h.unfilled hq
  refine ⟨hunfilled.orders, hunfilled.queue, fun o ho => ?_⟩
  obtain ⟨done, horders, hlength, -⟩ := h.orders
  replace ho : b.orders[k]? = some o := ho
  rw [horders, ← hlength, List.getElem?_append_right le_rfl, Nat.sub_self] at ho
  obtain rfl := Option.some.inj ho
  exact ⟨rfl, rfl, by rintro ⟨⟩, by rintro conf (hconf | hconf) <;> cases hconf⟩

/-- **One swing leads to the next**: the confirmation of the cancelled order makes the loop cancel the
other order, and place one more. -/
theorem Swinging.next {symbol : String} {x y : ℤ} {k : ℕ} (h : Swinging symbol x y k c)
    (hxy : x * y < 0) :
    ∃ c', Swinging symbol y x (k + 1) c' ∧ Relation.TransGen CalmStep c c' := by
  obtain ⟨phase, flag, pm, b⟩ := c
  obtain ⟨hreached, rfl, ⟨htargets, rfl⟩, hq, old, new, hswung⟩ := h
  obtain ⟨done, horders, hlength, hdone⟩ := hswung.orders
  -- the thread of the cancelled order ends
  have hthread : Relation.ReflTransGen CalmStep ⟨.testing, false, pm, b⟩
      (SimConfig.setShared ⟨.testing, false, pm, b⟩
        (applyEvents (List.replicate 5 (.thread k 0)) (pm.tradeConfirmationsQ, b))) :=
    calm_threadSteps 5 ⟨htargets, rfl⟩ hswung.positions (hswung.endsUnfilled hq)
  rw [applyEvents_cancelled horders hlength, hq, List.nil_append] at hthread
  obtain ⟨b', hb'⟩ : ∃ b' : SimulatedBroker,
      b' = ⟨done ++ endedFor k old symbol x :: [simulatedFor (k + 1) new symbol y],
        b.liveOrders.erase old, b.timers, b.confirmations ++ [nothingFilled k old symbol x]⟩ :=
    ⟨_, rfl⟩
  have hended : Relation.ReflTransGen CalmStep ⟨.testing, false, pm, b⟩
      ⟨.testing, false, { pm with tradeConfirmationsQ := [nothingFilled k old symbol x] }, b'⟩ := by
    rw [hb']
    exact hthread
  obtain ⟨newId, hnew⟩ := exists_unplaced b'
  have hlive : b'.liveOrders.lookup newId = none :=
    not_live_of_unplaced (hreached.trans (calm_reaches hended)) hnew
  -- the loop takes its confirmation
  obtain ⟨taken, htaken⟩ : ∃ taken : PositionManager, taken = processConfirmation
      (nothingFilled k old symbol x) { pm with tradeConfirmationsQ := [] } := ⟨_, rfl⟩
  have hworking : Working symbol new y (k + 1) taken b' := by
    rw [htaken, hb']
    exact hswung.working hlength hdone
  have hne : newId ≠ new := by
    rintro rfl
    refine hnew (simulatedFor (k + 1) newId symbol y) ?_ rfl
    rw [hb']
    simp
  have htargets' : taken.targetUpdatesQ = [] := by
    rw [htaken, processConfirmation_targetUpdatesQ]
    exact htargets
  have hq' : taken.tradeConfirmationsQ = [] := by
    rw [htaken, processConfirmation_tradeConfirmationsQ]
  have htarget : taken.targetPositions.getD symbol 0 = x + y := by
    rw [htaken, processConfirmation_targetPositions]
    exact hswung.target
  have hunfilled : ∀ phase, Unfilled
      ⟨phase, false, { pm with tradeConfirmationsQ := [nothingFilled k old symbol x] }, b'⟩ :=
    fun _ => ⟨hswung.positions, hworking.unfilled, List.forall_mem_singleton.mpr rfl⟩
  have hunfilled' : ∀ phase, Unfilled ⟨phase, false, taken, b'⟩ := by
    refine fun _ => ⟨hworking.positions, hworking.unfilled, fun conf hconf => ?_⟩
    replace hconf : conf ∈ taken.tradeConfirmationsQ := hconf
    rw [hq'] at hconf
    exact absurd hconf List.not_mem_nil
  -- and reconciles
  obtain ⟨w', hrun, hq'', htargets'', hswung'⟩ :=
    hworking.turn htarget hxy hq' htargets' hlive hne
  have hloop : Relation.TransGen CalmStep
      ⟨.testing, false, { pm with tradeConfirmationsQ := [nothingFilled k old symbol x] }, b'⟩
      ⟨.testing, false, w'.pm, w'.broker.broker⟩ := by
    have htake : CalmStep
        ⟨.looping (.confirmations ∅), false,
          { pm with tradeConfirmationsQ := [nothingFilled k old symbol x] }, b'⟩
        ⟨.looping (.confirmations (insert symbol ∅)), false, taken, b'⟩ := by
      refine ⟨?_, ⟨htargets', rfl⟩, hunfilled' _⟩
      rw [htaken]
      exact @SimStep.takeConfirmation _ (nothingFilled k old symbol x) [] _ _ _ _ rfl
    have hreconcile : CalmStep ⟨.looping (.reconciling (insert symbol ∅ ∪ ∅)), false, taken, b'⟩
        ⟨.looping (.reconciling ∅), false, w'.pm, w'.broker.broker⟩ := by
      have herase : (insert symbol ∅ ∪ ∅ : Finset String).erase symbol = ∅ := by simp
      have hstep : SimStep Internal ⟨.looping (.reconciling (insert symbol ∅ ∪ ∅)), false, taken, b'⟩
          ⟨.looping (.reconciling ((insert symbol ∅ ∪ ∅ : Finset String).erase symbol)), false,
            w'.pm, w'.broker.broker⟩ :=
        .reconcile false symbol newId [] (by simp) hnew (by simp) hrun
      rw [herase] at hstep
      exact ⟨hstep, ⟨htargets'', rfl⟩, hswung'.unfilled hq''⟩
    exact (((((Relation.TransGen.single ⟨.enterLoop _ _, ⟨htargets, rfl⟩, hunfilled _⟩).tail
      htake).tail ⟨.confirmationsDone _ _ _ _ hq', ⟨htargets', rfl⟩, hunfilled' _⟩).tail
      ⟨.targetsDone _ _ _ _ _ htargets', ⟨htargets', rfl⟩, hunfilled' _⟩).tail hreconcile).tail
      ⟨.iterationDone _ _ _, ⟨htargets'', rfl⟩, hswung'.unfilled hq''⟩
  have hall := Relation.TransGen.trans_right hended hloop
  exact ⟨_, ⟨hreached.trans (calm_reaches hall.to_reflTransGen), rfl, ⟨htargets'', rfl⟩, hq'',
    new, newId, hswung'⟩, hall⟩

/-! ## How it starts -/

/-- A target is set and the symbol reconciled. -/
theorem Targeted.retarget {targets : List (String × ℤ)} {pm : PositionManager} {b : SimulatedBroker}
    {symbol newId : String} {target : ℤ} {w' : World Scheduled}
    (h : Targeted targets ⟨.testing, false, pm, b⟩) (hq : pm.tradeConfirmationsQ = [])
    (htargets : pm.targetUpdatesQ = []) (hnew : Unplaced newId b)
    (hrun : (reconcileSymbol scheduled symbol newId).run
      ⟨processTargetUpdate (symbol, target) pm, ⟨b, []⟩⟩ = .returned () w')
    (hunfilled' : ∀ phase, Unfilled ⟨phase, false, w'.pm, w'.broker.broker⟩)
    (htargets' : w'.pm.targetUpdatesQ = []) :
    Targeted (targets ++ [(symbol, target)]) ⟨.testing, false, w'.pm, w'.broker.broker⟩ := by
  obtain ⟨queued, hqueued⟩ : ∃ queued, queued = updateTargetPosition symbol target pm := ⟨_, rfl⟩
  have htaken : { queued with targetUpdatesQ := [] } = pm := by
    rw [hqueued, ← htargets]
    rfl
  have hunfilled := h.unfilled
  have hqueuedUnfilled : ∀ phase, Unfilled ⟨phase, false, queued, b⟩ := by
    rw [hqueued]
    exact fun _ => ⟨hunfilled.positions, hunfilled.orders, hunfilled.queue⟩
  have htakenUnfilled : ∀ phase,
      Unfilled ⟨phase, false, processTargetUpdate (symbol, target) pm, b⟩ :=
    fun _ => ⟨hunfilled.positions, hunfilled.orders, hunfilled.queue⟩
  have htake : SimStep Internal ⟨.looping (.targets ∅ ∅), false, queued, b⟩
      ⟨.looping (.targets ∅ (insert symbol ∅)), false, processTargetUpdate (symbol, target) pm, b⟩ := by
    rw [← htaken]
    refine @SimStep.takeTarget _ (symbol, target) [] _ _ _ _ _ ?_
    rw [hqueued, updateTargetPosition, htargets]
    rfl
  have hreconcile : SimStep Internal
      ⟨.looping (.reconciling (∅ ∪ insert symbol ∅)), false,
        processTargetUpdate (symbol, target) pm, b⟩
      ⟨.looping (.reconciling ∅), false, w'.pm, w'.broker.broker⟩ := by
    have herase : (∅ ∪ insert symbol ∅ : Finset String).erase symbol = ∅ := by simp
    have hstep : SimStep Internal
        ⟨.looping (.reconciling (∅ ∪ insert symbol ∅)), false,
          processTargetUpdate (symbol, target) pm, b⟩
        ⟨.looping (.reconciling ((∅ ∪ insert symbol ∅ : Finset String).erase symbol)), false,
          w'.pm, w'.broker.broker⟩ :=
      .reconcile false symbol newId [] (by simp) hnew (by simp) hrun
    rwa [herase] at hstep
  have harrived : Targeted (targets ++ [(symbol, target)]) ⟨.testing, false, queued, b⟩ := by
    rw [hqueued]
    exact .arrives symbol target h
  have hq' : queued.tradeConfirmationsQ = [] := by
    rw [hqueued]
    exact hq
  have htakenTargets : (processTargetUpdate (symbol, target) pm).targetUpdatesQ = [] := htargets
  have hin := ((harrived.step (.enterLoop _ _) List.suffix_rfl rfl (hqueuedUnfilled _)).step
    (.confirmationsDone _ _ _ _ hq') List.suffix_rfl rfl (hqueuedUnfilled _)).step htake
    (by rw [htakenTargets]; exact List.nil_suffix) rfl (htakenUnfilled _)
  have hreconciled := (hin.step (.targetsDone _ _ _ _ _ htargets) List.suffix_rfl rfl
    (htakenUnfilled _)).step hreconcile (by rw [htargets']; exact List.nil_suffix) rfl
    (hunfilled' _)
  exact hreconciled.step (.iterationDone _ _ _) List.suffix_rfl rfl (hunfilled' _)

/-- **Two targets start the swing**: the second lies on the other side of the first order. -/
theorem exists_swinging (symbol : String) {a b : ℤ} (h : (b - a) * a < 0) :
    ∃ c, Targeted [(symbol, a), (symbol, b)] c ∧ Swinging symbol a (b - a) 0 c := by
  have ha : a ≠ 0 := by
    rintro rfl
    simp at h
  have hinit : (processTargetUpdate (symbol, a) .init).targetPositions.getD symbol 0 = a :=
    (Dict.getD_insert_ite _ _ _ _ _).trans (if_pos rfl)
  obtain ⟨w, hrun, hq, htargets, hworking⟩ := working_placed (b := .init)
    (show (processTargetUpdate (symbol, a) .init).index symbol = [] from rfl) (fun _ => rfl) hinit ha
    rfl rfl (show SimulatedBroker.init.liveOrders.lookup "first" = none from rfl) rfl rfl
  have hunfilled : ∀ phase, Unfilled ⟨phase, false, w.pm, w.broker.broker⟩ := by
    refine fun _ => ⟨hworking.positions, hworking.unfilled, fun conf hconf => ?_⟩
    replace hconf : conf ∈ w.pm.tradeConfirmationsQ := hconf
    rw [hq] at hconf
    exact absurd hconf List.not_mem_nil
  have hplaced : Targeted [(symbol, a)] ⟨.testing, false, w.pm, w.broker.broker⟩ :=
    Targeted.init.retarget rfl rfl (by simp [Unplaced, SimulatedBroker.init]) hrun hunfilled htargets
  obtain ⟨newId, hnew⟩ := exists_unplaced w.broker.broker
  have hne : newId ≠ "first" := by
    rintro rfl
    obtain ⟨done, horders, -⟩ := hworking.orders
    refine hnew (simulatedFor 0 "first" symbol a) ?_ rfl
    rw [horders]
    simp
  have hset : Working symbol "first" a 0 (processTargetUpdate (symbol, b) w.pm) w.broker.broker :=
    ⟨hworking.index, hworking.live, hworking.positions, hworking.orders, hworking.liveOrders,
      hworking.confirmed⟩
  have htarget : (processTargetUpdate (symbol, b) w.pm).targetPositions.getD symbol 0 =
      b - a + a := by
    rw [sub_add_cancel]
    exact (Dict.getD_insert_ite _ _ _ _ _).trans (if_pos rfl)
  obtain ⟨w', hrun', hq', htargets', hswung⟩ := hset.turn htarget h hq htargets
    (not_live_of_unplaced hplaced.reached hnew) hne
  have htwo : Targeted [(symbol, a), (symbol, b)] ⟨.testing, false, w'.pm, w'.broker.broker⟩ :=
    hplaced.retarget hq htargets hnew hrun' (fun _ => hswung.unfilled hq') htargets'
  exact ⟨_, htwo, htwo.reached, rfl, ⟨htargets', rfl⟩, hq', _, _, hswung⟩

/-! ## A fair run without end -/

/-- The number of orders changes only while the loop reconciles. -/
theorem length_orders_of_testing (h : SimStep Internal c c') (hphase : c.phase = .testing)
    (hphase' : c'.phase = .testing) : c'.broker.orders.length = c.broker.orders.length := by
  cases h with
  | event _ e he =>
      have hids := congrArg List.length (tends_apply he.notSubmit c.shared).clientIds
      simp only [clientIds, List.length_map] at hids
      exact hids
  | targetArrives | terminate => rfl
  | enterLoop | takeConfirmation | confirmationsDone | takeTarget | targetsDone | reconcile
  | iterationDone | leaveLoop | stop => simp at hphase hphase'

/-- What the orders of the run are for, one after the other: the first target, and from there to the
second, and so on. -/
def amountOf (a b : ℤ) (k : ℕ) : ℤ := if Even k then a else b - a

/-- Each order is for the other amount than the one before. -/
theorem amountOf_succ_succ (a b : ℤ) (k : ℕ) : amountOf a b (k + 2) = amountOf a b k := by
  unfold amountOf
  simp [Nat.even_add]

/-- One after the other they oppose each other. -/
theorem amountOf_mul_succ {a b : ℤ} (h : (b - a) * a < 0) (k : ℕ) :
    amountOf a b k * amountOf a b (k + 1) < 0 := by
  unfold amountOf
  by_cases hk : Even k
  · rw [if_pos hk, if_neg (by simpa [Nat.even_add_one] using hk), mul_comm]
    exact h
  · rw [if_neg hk, if_pos (by simpa [Nat.even_add_one] using hk)]
    exact h

/-- What every milestone of the run is. -/
def Milestone (symbol : String) (a b : ℤ) (k : ℕ) (c : SimConfig) : Prop :=
  Swinging symbol (amountOf a b k) (amountOf a b (k + 1)) k c

/-- From one milestone the run gets to the next. -/
theorem Milestone.next {symbol : String} {a b : ℤ} (h : (b - a) * a < 0) {k : ℕ}
    (hswinging : Milestone symbol a b k c) :
    ∃ c', Milestone symbol a b (k + 1) c' ∧ Relation.TransGen CalmStep c c' := by
  obtain ⟨c', hnext, hpath⟩ := Swinging.next hswinging (amountOf_mul_succ h k)
  refine ⟨c', ?_, hpath⟩
  unfold Milestone
  rw [amountOf_succ_succ]
  exact hnext

/-- At the milestone two orders more have been made than have ended. -/
theorem Swinging.length_orders {symbol : String} {x y : ℤ} {k : ℕ} (h : Swinging symbol x y k c) :
    c.broker.orders.length = k + 2 := by
  obtain ⟨old, new, hswung⟩ := h.swung
  obtain ⟨done, horders, hlength, -⟩ := hswung.orders
  rw [horders, List.length_append, hlength]
  rfl

/-- All orders but the last two have finished. -/
theorem Swinging.finished {symbol : String} {x y : ℤ} {k : ℕ} (h : Swinging symbol x y k c) {i : ℕ}
    (hi : i < k) {o : SimulatedOrder} (ho : c.broker.orders[i]? = some o) : o.isFinished = true := by
  obtain ⟨old, new, hswung⟩ := h.swung
  obtain ⟨done, horders, hlength, hdone⟩ := hswung.orders
  rw [horders, List.getElem?_append_left (by omega)] at ho
  exact (hdone o (List.mem_of_getElem? ho)).finished

/-- **A changed target may keep the system from settling.** For every symbol, and every two targets
of which the second lies on the other side of the first order, there is a run that sets the one and
then the other, and goes on fairly with nobody disturbing it. Nothing is ever filled, and orders are
submitted without end: when the `k`-th has been confirmed as cancelled, and all before it, the loop
has cancelled the next and placed one more, for the two amounts in turn. -/
theorem retargeting_may_not_settle (symbol : String) (a b : ℤ) (h : (b - a) * a < 0) :
    ∃ ω, Targeted [(symbol, a), (symbol, b)] (ω 0) ∧ FairRun ω ∧ (∀ n, Unfilled (ω n)) ∧
      ∃ t : ℕ → ℕ, StrictMono t ∧
        ∀ k, Swinging symbol (amountOf a b k) (amountOf a b (k + 1)) k (ω (t k)) := by
  obtain ⟨c, htargeted, hc⟩ := exists_swinging symbol h
  have hstart : Milestone symbol a b 0 c := hc
  obtain ⟨ω, rfl, hstep, t, hmono, hvisits⟩ :=
    exists_run_of_segments (fun _ _ hk => Milestone.next h hk) hstart
  have hle : ∀ k, k ≤ t k := fun k => hmono.le_apply
  refine ⟨ω, htargeted, ⟨fun n => (hstep n).step, ?_, ?_, ?_⟩, ?_, t, hmono, hvisits⟩
  · intro n
    cases n with
    | zero => exact hc.undisturbed
    | succ n => exact (hstep n).undisturbed
  · intro n i o _ hunfinished
    refine ⟨t (max n (i + 1)), (le_max_left _ _).trans (hle _), fun ho => ?_⟩
    have hfinished := (hvisits (max n (i + 1))).finished
      (lt_of_lt_of_le (Nat.lt_succ_self i) (le_max_right _ _)) ho
    rw [hunfinished] at hfinished
    cases hfinished
  · -- a loop that stayed where it is would place no more orders
    intro n
    by_contra hnever
    push Not at hnever
    have htesting : ∀ m', n ≤ m' → (ω m').phase = .testing := by
      intro m' hm'
      rw [hnever m' hm', ← hnever (t n) (hle n), (hvisits n).phase]
    have hlength : ∀ m', n ≤ m' → (ω m').broker.orders.length = (ω n).broker.orders.length := by
      intro m' hm'
      induction m', hm' using Nat.le_induction with
      | base => rfl
      | succ m' hm' ih =>
          exact (length_orders_of_testing (hstep m').step (htesting m' hm')
            (htesting (m' + 1) (hm'.trans (Nat.le_succ m')))).trans ih
    have hone := hlength (t n) (hle n)
    have htwo := hlength (t (n + 1)) ((Nat.le_succ n).trans (hle _))
    rw [(hvisits n).length_orders] at hone
    rw [(hvisits (n + 1)).length_orders] at htwo
    omega
  · intro n
    cases n with
    | zero => exact htargeted.unfilled
    | succ n => exact (hstep n).unfilled

/-- A target of 20 that is set back to 5. -/
theorem retargeting_may_not_settle_setBack : ∃ ω,
    Targeted [("AMD", 20), ("AMD", 5)] (ω 0) ∧ FairRun ω ∧ (∀ n, Unfilled (ω n)) ∧
      ∀ k, ∃ n, (ω n).broker.orders.length = k + 2 := by
  obtain ⟨ω, htargeted, hfair, hunfilled, t, -, hvisits⟩ :=
    retargeting_may_not_settle "AMD" 20 5 (by decide)
  exact ⟨ω, htargeted, hfair, hunfilled, fun k => ⟨t k, (hvisits k).length_orders⟩⟩

end FlowManager.System
