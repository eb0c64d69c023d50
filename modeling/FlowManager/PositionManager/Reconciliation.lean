import FlowManager.PositionManager.Loop
import Mathlib.Algebra.Order.BigOperators.Group.Finset

/-!
# Where reconciliation aims

What a call of `_reconcile_positions` for one symbol leaves, from any reachable state and with any
confirmations before it. The working position counts an order that is pending cancel as still
open, so the call aims at the target for the case that such an order fills after all: the position
plus what the other live orders still have to fill misses the target by exactly what is open in
the orders that are pending cancel (`reconcilePositions_aim`). `remaining` states these sums over
`live_orders` itself, without the lists per symbol.
-/

namespace FlowManager.Position

open FlowManager.Lib FlowManager.Broker

variable {pm pm' : PositionManager}

/-- The quantity an order still has to fill, positive for a buy; none once it is filled or
overfilled. -/
def signedRemaining (order : OrderDetails) : ℤ :=
  max 0 (order.quantity - order.filledQuantity) * bsInt order.sideIsBuy

/-- What a live order contributes to the remaining quantities of a symbol, if `counts` selects
it. -/
def PositionManager.remainingOf (pm : PositionManager) (s : String) (counts : OrderDetails → Bool)
    (id : String) : ℤ :=
  (pm.liveOrders.lookup id).elim 0 fun o =>
    if o.symbol = s ∧ counts o then signedRemaining o else 0

/-- The signed remaining quantities of the live orders of a symbol that `counts` selects. -/
def PositionManager.remaining (pm : PositionManager) (s : String)
    (counts : OrderDetails → Bool) : ℤ :=
  ∑ id ∈ pm.liveOrders.keys, pm.remainingOf s counts id

/-- The order is pending cancel. -/
def isPendingCancel (order : OrderDetails) : Bool := order.status = .PENDING_CANCEL

/-- What is open of an order that goes on is what remains of it. -/
theorem openQuantity_eq_signedRemaining {order : OrderDetails}
    (h : order.status.isTerminal = false) : openQuantity order = signedRemaining order := by
  unfold openQuantity signedRemaining
  rw [h, if_neg Bool.false_ne_true]
  split_ifs with hpos
  · rw [max_eq_right hpos.le]
  · rw [max_eq_left (not_lt.1 hpos), zero_mul]

/-- The selected and the other orders make up all of them. -/
theorem remaining_add_not (pm : PositionManager) (s : String) (counts : OrderDetails → Bool) :
    pm.remaining s (fun o => !counts o) + pm.remaining s counts = pm.remaining s fun _ => true := by
  unfold PositionManager.remaining
  rw [← Finset.sum_add_distrib]
  apply Finset.sum_congr rfl
  intro id _
  unfold PositionManager.remainingOf
  cases pm.liveOrders.lookup id with
  | none => rfl
  | some o =>
      by_cases hs : o.symbol = s <;> cases hcounts : counts o <;> simp [hs, hcounts]

/-- What is open of a listed order is what remains of it. -/
theorem openOf_eq_remainingOf (hpm : pm.Consistent) {s id : String} (hid : id ∈ pm.index s) :
    pm.openOf id = pm.remainingOf s (fun _ => true) id := by
  unfold PositionManager.openOf PositionManager.remainingOf
  cases hlive : pm.liveOrders.lookup id with
  | none => rfl
  | some o =>
      have hs : o.symbol = s := hpm.symbol hid hlive
      simp [hs, openQuantity_eq_signedRemaining (hpm.notTerminal hlive)]

/-- The list of a symbol sums up the live orders of the symbol: stale ids add nothing. -/
theorem sum_index_eq_remaining (hpm : pm.Consistent) (s : String) :
    ((pm.index s).map pm.openOf).sum = pm.remaining s fun _ => true := by
  have hstale : ∀ id ∈ (pm.index s).toFinset, id ∉ (pm.index s).toFinset ∩ pm.liveOrders.keys →
      pm.remainingOf s (fun _ => true) id = 0 := by
    intro id hid hnot
    have hnone : pm.liveOrders.lookup id = none := by
      rw [Finmap.lookup_eq_none]
      intro hmem
      exact hnot (Finset.mem_inter.2 ⟨hid, Finmap.mem_keys.2 hmem⟩)
    unfold PositionManager.remainingOf
    rw [hnone]
    rfl
  have hother : ∀ id ∈ pm.liveOrders.keys, id ∉ (pm.index s).toFinset ∩ pm.liveOrders.keys →
      pm.remainingOf s (fun _ => true) id = 0 := by
    intro id hkey hnot
    unfold PositionManager.remainingOf
    cases hlive : pm.liveOrders.lookup id with
    | none => rfl
    | some o =>
        have hs : o.symbol ≠ s := by
          rintro rfl
          exact hnot (Finset.mem_inter.2 ⟨List.mem_toFinset.2 (hpm.listed hlive), hkey⟩)
        simp [hs]
  calc ((pm.index s).map pm.openOf).sum
      = ∑ id ∈ (pm.index s).toFinset, pm.openOf id := (List.sum_toFinset _ (hpm.nodup s)).symm
    _ = ∑ id ∈ (pm.index s).toFinset, pm.remainingOf s (fun _ => true) id :=
        Finset.sum_congr rfl fun id hid => openOf_eq_remainingOf hpm (List.mem_toFinset.1 hid)
    _ = ∑ id ∈ (pm.index s).toFinset ∩ pm.liveOrders.keys, pm.remainingOf s (fun _ => true) id :=
        (Finset.sum_subset Finset.inter_subset_left hstale).symm
    _ = pm.remaining s fun _ => true := Finset.sum_subset Finset.inter_subset_right hother

/-- The working position is the position with all that is still open. -/
theorem calculateWorkingPosition_eq_remaining (hpm : pm.Consistent) (s : String) :
    calculateWorkingPosition pm s = pm.positions.getD s 0 + pm.remaining s fun _ => true := by
  rw [calculateWorkingPosition_eq, sum_index_eq_remaining hpm]

/-! ## One call for one symbol -/

section reconcile

variable {β : Type} {B : Broker β} {w w' : World β}

/-- The broker answers `True` to the cancels it answers. -/
def AcceptsCancels (B : Broker β) : Prop :=
  ∀ id t t' accepted, (B.cancelOrder id).run t = .returned accepted t' → accepted = true

/-- Once the broker has accepted, the order no longer opposes. -/
theorem not_opposes_of_cancelIfOpposing (hB : AcceptsCancels B) {buying : Bool} {id : String}
    (h : (cancelIfOpposing B buying id).run w = .returned () w') {o : OrderDetails}
    (ho : w'.pm.liveOrders.lookup id = some o) : opposes buying o = false := by
  rw [cancelIfOpposing, Proc.run_bind, Proc.run_get, Outcome.bind_returned] at h
  cases hid : w.pm.liveOrders.lookup id with
  | none =>
      simp only [hid, Proc.run_pure, Outcome.returned.injEq, true_and] at h
      rw [← h, hid] at ho
      cases ho
  | some order =>
      simp only [hid] at h
      by_cases hopp : opposes buying order = true
      · rw [if_pos hopp, Proc.run_bind, Outcome.bind_eq_returned] at h
        obtain ⟨accepted, wc, hcall, hrest⟩ := h
        obtain ⟨t, hanswer, _⟩ := Proc.run_focus_eq_returned hcall
        obtain rfl : accepted = true := hB _ _ _ _ hanswer
        simp only [if_true, modifyPm, Proc.run_modify, Outcome.returned.injEq, true_and] at hrest
        rw [← hrest, setLiveOrder_lookup, if_pos rfl] at ho
        obtain rfl := Option.some.inj ho
        exact opposes_pendingCancel buying order
      · rw [if_neg hopp, Proc.run_pure, Outcome.returned.injEq] at h
        rw [← h.2, hid] at ho
        obtain rfl := Option.some.inj ho
        simpa using hopp

/-- Further requests leave an order that does not oppose so. -/
theorem Cancelling.not_opposes {buying : Bool} (h : Cancelling buying pm pm') {id : String}
    (hbefore : ∀ o, pm.liveOrders.lookup id = some o → opposes buying o = false) {o : OrderDetails}
    (ho : pm'.liveOrders.lookup id = some o) : opposes buying o = false := by
  rcases h.orders id with heq | ⟨_, _, _, heq⟩
  · exact hbefore o (heq ▸ ho)
  · obtain rfl := Option.some.inj (ho.symm.trans heq)
    exact opposes_pendingCancel buying _

/-- No order of the list opposes once the cancels have been accepted. -/
theorem not_opposes_of_cancelOpposing (hB : AcceptsCancels B) {buying : Bool} {ids : List String}
    (h : (cancelOpposing B buying ids).run w = .returned () w') {id : String} (hmem : id ∈ ids)
    {o : OrderDetails} (ho : w'.pm.liveOrders.lookup id = some o) : opposes buying o = false := by
  induction ids generalizing w with
  | nil => cases hmem
  | cons id' ids ih =>
      rw [cancelOpposing, Proc.run_bind, Outcome.bind_eq_returned] at h
      obtain ⟨_, wc, hone, hrest⟩ := h
      rcases List.mem_cons.1 hmem with rfl | hmem
      · -- the first id: what follows changes only orders that oppose
        exact (cancelOpposing_returned hrest).not_opposes
          (fun _ h' => not_opposes_of_cancelIfOpposing hB hone h') ho
      · exact ih hrest hmem

/-- Where no order of a symbol opposes any more and an order of the wanted side is placed, what is
not pending cancel is of that side. -/
theorem side_of_placed {buying : Bool} {symbol newId : String} {quantity : ℤ}
    {mid : PositionManager} (hmid : mid.Consistent)
    (hnot : ∀ id ∈ mid.index symbol, ∀ o, mid.liveOrders.lookup id = some o →
      opposes buying o = false)
    (hplaced : Placed (newOrder newId symbol quantity buying) mid pm')
    {id : String} {o : OrderDetails} (ho : pm'.liveOrders.lookup id = some o)
    (hsymbol : o.symbol = symbol) : isPendingCancel o = true ∨ o.sideIsBuy = buying := by
  obtain ⟨_, horders⟩ := hplaced.orders
  rw [horders] at ho
  split_ifs at ho with hid
  · obtain rfl := Option.some.inj ho
    exact .inr rfl
  · have hopp := hnot id (hsymbol ▸ hmid.listed ho) o ho
    have hlive := hmid.notTerminal ho
    by_cases hside : o.sideIsBuy = buying
    · exact .inr hside
    · left
      simpa [opposes, hside, hlive, isPendingCancel] using hopp

/-- Accepted cancels of one side and a new order of the other leave no order of the first side
that is not pending cancel. -/
theorem side_of_cancelled_placed (hB : AcceptsCancels B) (hpm : w.pm.Consistent) {buying : Bool}
    {symbol newId : String} {quantity : ℤ} {mid : World β}
    (hcancel : (cancelOpposing B buying (w.pm.index symbol)).run w = .returned () mid)
    (hplace : (placeNew B symbol newId quantity buying).run mid = .returned () w')
    {id : String} {o : OrderDetails} (ho : w'.pm.liveOrders.lookup id = some o)
    (hsymbol : o.symbol = symbol) : isPendingCancel o = true ∨ o.sideIsBuy = buying := by
  have hcancelling := cancelOpposing_returned hcancel
  refine side_of_placed (hcancelling.consistent hpm) (fun id' hid' o' ho' => ?_)
    (placeNew_returned hplace) ho hsymbol
  rw [hcancelling.index] at hid'
  exact not_opposes_of_cancelOpposing hB hcancel hid' ho'

/-- What reconciling a symbol runs: nothing on target, else cancels of the other side and then one
new order. -/
theorem reconcileSymbol_cases {symbol newId : String}
    (h : (reconcileSymbol B symbol newId).run w = .returned () w') :
    (w.pm.OnTarget symbol ∧ w' = w) ∨ ∃ (delta : ℤ) (buying : Bool) (mid : World β),
      delta = w.pm.targetPositions.getD symbol 0 - calculateWorkingPosition w.pm symbol ∧
      0 < delta * bsInt buying ∧
      (cancelOpposing B buying (w.pm.index symbol)).run w = .returned () mid ∧
      (placeNew B symbol newId |delta| buying).run mid = .returned () w' := by
  rw [reconcileSymbol, Proc.run_bind, Proc.run_get, Outcome.bind_returned] at h
  dsimp only at h
  split_ifs at h with hzero hpos
  · left
    rw [Proc.run_pure, Outcome.returned.injEq] at h
    exact ⟨(sub_eq_zero.1 hzero).symm, h.2.symm⟩
  · right
    rw [Proc.run_bind, Outcome.bind_eq_returned] at h
    obtain ⟨_, mid, hcancel, hplace⟩ := h
    refine ⟨_, true, mid, rfl, ?_, hcancel, hplace⟩
    rw [bsInt_true]
    omega
  · right
    rw [Proc.run_bind, Outcome.bind_eq_returned] at h
    obtain ⟨_, mid, hcancel, hplace⟩ := h
    refine ⟨_, false, mid, rfl, ?_, hcancel, hplace⟩
    rw [bsInt_false]
    omega

/-- With every cancel accepted, what is open and not pending cancel is on the side of the
difference. -/
theorem side_of_reconcileSymbol (hB : AcceptsCancels B) (hpm : w.pm.Consistent)
    {symbol newId : String} (h : (reconcileSymbol B symbol newId).run w = .returned () w')
    (hoff : ¬w.pm.OnTarget symbol) {id : String} {o : OrderDetails}
    (ho : w'.pm.liveOrders.lookup id = some o) (hsymbol : o.symbol = symbol) :
    isPendingCancel o = true ∨ 0 < (w.pm.targetPositions.getD symbol 0 -
      calculateWorkingPosition w.pm symbol) * bsInt o.sideIsBuy := by
  rcases reconcileSymbol_cases h with ⟨hon, -⟩ | ⟨_, buying, mid, rfl, hpos, hcancel, hplace⟩
  · exact absurd hon hoff
  · rcases side_of_cancelled_placed hB hpm hcancel hplace ho hsymbol with hpending | hside
    · exact .inl hpending
    · rw [hside]
      exact .inr hpos

/-- Reconciling one symbol is all that reconciling it alone does. -/
theorem reconcilePositions_singleton_returned {symbol newId : String}
    (h : (reconcilePositions B [(symbol, newId)]).run w = .returned () w') :
    (reconcileSymbol B symbol newId).run w = .returned () w' := by
  rw [reconcilePositions, Proc.run_bind, Outcome.bind_eq_returned] at h
  obtain ⟨_, mid, hone, hrest⟩ := h
  rw [reconcilePositions, Proc.run_pure, Outcome.returned.injEq] at hrest
  rw [← hrest.2]
  exact hone

end reconcile

/-- **Where reconciliation aims.** After `_reconcile_positions({s})`, from any reachable state, the
position with what is still open in the orders that are not pending cancel misses the target by
exactly what is still open in the orders that are. If the broker accepts every cancel request and
`s` was off target, the orders of `s` that are not pending cancel are all of the side of the
difference. -/
theorem reconcilePositions_aim {β : Type} (B : Broker β) (b₀ : β) {c : Config β}
    (hc : Reachable B (fun _ _ => True) b₀ c) {s newId : String} (hnew : Fresh c.world.pm newId)
    {w' : World β} (h : (reconcilePositions B [(s, newId)]).run c.world = .returned () w') :
    w'.pm.positions.getD s 0 + w'.pm.remaining s (fun o => !isPendingCancel o) =
        w'.pm.targetPositions.getD s 0 - w'.pm.remaining s isPendingCancel ∧
      (AcceptsCancels B → ¬c.world.pm.OnTarget s → ∀ id o,
        w'.pm.liveOrders.lookup id = some o → o.symbol = s → isPendingCancel o = true ∨
          0 < (c.world.pm.targetPositions.getD s 0 - calculateWorkingPosition c.world.pm s) *
            bsInt o.sideIsBuy) := by
  have hone := reconcilePositions_singleton_returned h
  have hrec := reconcileSymbol_returned hone
  have hpm' : w'.pm.Consistent := hrec.consistent hnew hc.consistent
  constructor
  · have hon := hrec.calculateWorkingPosition_self hnew
    rw [calculateWorkingPosition_eq_remaining hpm', ← remaining_add_not _ s isPendingCancel] at hon
    omega
  · intro hB hoff id o ho hsymbol
    exact side_of_reconcileSymbol hB hc.consistent hone hoff ho hsymbol

/-- The position manager after a partial fill of the buy order and a new target of -30. -/
def reduced : PositionManager :=
  updateTargetPosition "AMD" (-30) (tradeConfirmationCallback
    { orderId := 1, clientOrderId := "buy", symbol := "AMD", filledQuantity := 5,
      sideIsBuy := true, price := .finite 0, status := .PARTIALLY_FILLED } bought.pm)

/-- The state in which the loop reconciles the symbol. -/
def beforeSell : World ℤ := ⟨drained reduced, bought.broker⟩

/-- A run reaches the reconciliation of the symbol. -/
theorem reachable_beforeSell :
    Reachable acceptingBroker (fun _ _ => True) 0 ⟨.reconciling {"AMD"}, beforeSell⟩ := by
  have harrive : Reachable acceptingBroker (fun _ _ => True) 0
      ⟨.confirmations ∅, reduced, bought.broker⟩ :=
    ((reachable_bought.tail (.nextIteration _)).tail
      (.confirmationArrives _ _ _ bought.broker _)).tail (.targetArrives _ _ _ "AMD" (-30))
  refine Relation.ReflTransGen.trans harrive ?_
  exact (steps_drainConfirmations bought.broker _ ∅ reduced rfl ⟨trivial, trivial⟩).trans
    (steps_drainTargets bought.broker _ _ ∅ _ rfl)

/-- The broker accepts every cancel. -/
theorem acceptsCancels_acceptingBroker : AcceptsCancels acceptingBroker := by
  rintro id t t' accepted h
  cases h
  rfl

/-- No order has been made with the id. -/
theorem fresh_sell : Fresh beforeSell.pm "sell" := by
  refine ⟨by decide, fun s => ?_⟩
  by_cases hs : s = "AMD"
  · rw [hs]
    decide
  · have hindex : beforeSell.pm.index s = [] :=
      (Dict.getD_insert_ite _ _ _ _ _).trans (if_neg hs)
    rw [hindex]
    exact List.not_mem_nil

/-- What `_reconcile_positions` leaves there. -/
def sold : World ℤ :=
  ((reconcilePositions acceptingBroker [("AMD", "sell")]).run beforeSell).state

/-- The buy order still has 15 to go, so the position aims 15 below the target of -30. -/
theorem reconcilePositions_aim_sell :
    sold.pm.remaining "AMD" isPendingCancel = 15 ∧
      sold.pm.positions.getD "AMD" 0 + sold.pm.remaining "AMD" (fun o => !isPendingCancel o) =
        -30 - 15 := by
  have hpending : sold.pm.remaining "AMD" isPendingCancel = 15 := by decide
  obtain ⟨haim, -⟩ := reconcilePositions_aim acceptingBroker 0 reachable_beforeSell fresh_sell
    (show (reconcilePositions acceptingBroker [("AMD", "sell")]).run beforeSell =
      .returned () sold from rfl)
  refine ⟨hpending, ?_⟩
  rw [haim, hpending]
  rfl

/-- With 5 of 20 bought and a target of -30 the call sells 50: once the cancel completes, the
position ends at -45. -/
theorem reconcilePositions_overshoots :
    ¬∀ (β : Type) (B : Broker β) (b₀ : β) (c : Config β) (s newId : String) (w' : World β),
      Reachable B (fun _ _ => True) b₀ c → AcceptsCancels B → Fresh c.world.pm newId →
      (reconcilePositions B [(s, newId)]).run c.world = .returned () w' →
      w'.pm.positions.getD s 0 + w'.pm.remaining s (fun o => !isPendingCancel o) =
        w'.pm.targetPositions.getD s 0 := by
  intro h
  have haim := h ℤ acceptingBroker 0 _ "AMD" "sell" sold reachable_beforeSell
    acceptsCancels_acceptingBroker fresh_sell rfl
  revert haim
  decide

end FlowManager.Position
