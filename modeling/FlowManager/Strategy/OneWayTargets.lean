import FlowManager.Strategy.StrategyRunner
import FlowManager.System.Settling

/-!
# Logs whose targets do not turn back

Setting a target back cancels orders, and may keep the position manager from ever settling
(`System/Retargeting.lean`). Here the targets that come for a symbol lie one behind the other in one
direction. Then reconciling it cancels nothing and orders what is missing (`asked_reconcile`),
whatever the order threads do before the call, and the working position, the target and the targets
to come stay one behind the other (`Directed.step`). No target that has been sent is lost
(`Sent.step`).
-/

namespace FlowManager.Strategy

open FlowManager.Lib FlowManager.Broker FlowManager.Position FlowManager.System
open FlowManager.Broker.Simulated

/-! ## Runs of the program -/

/-- A step of the loop or of the thread of an order: it sets no target, and leaves the flag. -/
structure SystemStep (c c' : SimConfig) : Prop where
  step : SimStep Internal c c'
  targets : c'.pm.targetUpdatesQ <:+ c.pm.targetUpdatesQ
  flag : c'.terminateFlag = c.terminateFlag

/-- A step of the program. No thread goes on when the main thread has raised an exception. -/
inductive RunnerStep : Runner → Runner → Prop
  | main (c : Runner) : RunnerStep c c.mainStep
  | system {main : MainPlace} {sim sim' : SimConfig} :
      (∀ e, main ≠ .raised e) → SystemStep sim sim' → RunnerStep ⟨main, sim⟩ ⟨main, sim'⟩

/-- What a run of the program on a log reaches. -/
def RunnerReaches (log : List EventData) : Runner → Prop :=
  Relation.ReflTransGen RunnerStep (.init log)

variable {log : List EventData} {c c' : Runner} {s : String}

/-! ## What has been asked of the broker -/

/-- The orders that have been submitted, and which of them have been cancelled. -/
def asked (b : SimulatedBroker) : List (Ticket × Bool) :=
  b.orders.map fun o => (ticket o, o.cancelling)

/-- The orders that have been submitted. -/
def tickets (b : SimulatedBroker) : List Ticket := b.orders.map ticket

/-- What some orders of a symbol come to, sales counted negative. -/
def orderedOf (s : String) (ks : List Ticket) : ℤ :=
  (ks.map fun k => if k.symbol = s then k.signed else 0).sum

/-- What has been ordered in two parts. -/
theorem orderedOf_append (ks ks' : List Ticket) :
    orderedOf s (ks ++ ks') = orderedOf s ks + orderedOf s ks' := by
  unfold orderedOf
  rw [List.map_append, List.sum_append]

/-- What is asked for, without who is cancelled, are the tickets. -/
theorem asked_map_fst (b : SimulatedBroker) : (asked b).map Prod.fst = tickets b := by
  unfold asked tickets
  rw [List.map_map]
  rfl

/-- With the same requests the orders are the same. -/
theorem tickets_congr {b b' : SimulatedBroker} (h : asked b' = asked b) :
    tickets b' = tickets b := by
  rw [← asked_map_fst, h, asked_map_fst]

/-- A step of an order's thread asks for nothing. -/
theorem asked_threadStep (i draw : ℕ) (t : Shared) :
    asked (threadStep i draw t).2 = asked t.2 := by
  unfold asked
  rw [orders_threadStep]
  refine map_eq_of_forall₂ (forall₂_modify (R := fun o o' : SimulatedOrder =>
    (ticket o', o'.cancelling) = (ticket o, o.cancelling)) (fun _ => rfl) _ _ _ fun o _ => ?_)
    fun _ _ heq => heq
  rw [ticket_move, move_cancelling]

/-- A timer asks for nothing. -/
theorem asked_timerStep (k : ℕ) (t : Shared) : asked (timerStep k t).2 = asked t.2 := by
  unfold timerStep
  split <;> rfl

/-- The threads of orders and timers ask nothing. -/
theorem asked_apply {e : SimEvent} (he : Internal e) (t : Shared) :
    asked (e.apply t).2 = asked t.2 := by
  cases e with
  | thread i draw => exact asked_threadStep i draw t
  | timer k => exact asked_timerStep k t
  | submitOrder | cancelOrder | stop => exact he.elim

/-- A submission with an id that is not in use asks for one order. -/
theorem wp_asked_submitOrder {t : Shared} (h : Orderly t) {newId symbol : String} {quantity : ℤ}
    {buying : Bool} (hnew : Unplaced newId t.2) {J : Shared → Prop}
    (hJ : ∀ t', asked t'.2 = asked t.2 ++ [(⟨newId, symbol, quantity, buying⟩, false)] → J t') :
    Proc.wp (Simulated.submitOrder newId symbol quantity buying "MARKET" none)
      (fun _ => J) (fun _ => J) J t := by
  unfold Simulated.submitOrder
  rw [Proc.wp_bind, Proc.wp_get]
  cases hlive : t.2.liveOrders.lookup newId with
  | some i => exact absurd (h.unduplicated.live hlive) (unplaced_iff.mp hnew)
  | none => exact hJ _ (by simp [asked, SimulatedBroker.accept, SimulatedOrder.init, ticket])

/-- Where no live order is on the other side, nothing is cancelled. -/
theorem cancelOpposing_of_not_opposes {β : Type} (B : Position.Broker β) {buying : Bool}
    (w : World β) : ∀ (ids : List String),
    (∀ id ∈ ids, ∀ d, w.pm.liveOrders.lookup id = some d → opposes buying d = false) →
    (cancelOpposing B buying ids).run w = .returned () w
  | [], _ => rfl
  | id :: rest, h => by
      have hone : (cancelIfOpposing B buying id).run w = .returned () w := by
        unfold cancelIfOpposing
        rw [Proc.run_bind, Proc.run_get, Outcome.bind_returned]
        cases hlive : w.pm.liveOrders.lookup id with
        | none => rfl
        | some d => simp [h id List.mem_cons_self d hlive]
      rw [cancelOpposing, Proc.run_bind, hone, Outcome.bind_returned]
      exact cancelOpposing_of_not_opposes B w rest fun id hid => h id (List.mem_cons_of_mem _ hid)

/-! ## The queue of targets -/

section queue

variable {β : Type} {q : List (String × ℤ)}

/-- The targets in the queue. -/
def Queued (q : List (String × ℤ)) (w : World β) : Prop := w.pm.targetUpdatesQ = q

/-- A call of the broker leaves the queue of targets. -/
theorem keeps_callBroker {α : Type} (method : Proc PyError (List TradeConfirmationMessage × β) α) :
    Proc.Keeps (Queued q) (callBroker method) := by
  intro w h
  unfold callBroker
  rw [Proc.wp_focus]
  unfold Proc.wp
  split <;> exact h

/-- A write that leaves the queue of targets. -/
theorem keeps_modifyPm {f : PositionManager → PositionManager}
    (hf : ∀ pm, (f pm).targetUpdatesQ = pm.targetUpdatesQ) :
    Proc.Keeps (Queued q) (modifyPm f : Proc PyError (World β) Unit) :=
  Proc.keeps_modify fun w h => (hf w.pm).trans h

/-- The cancels before an order leave the queue of targets. -/
theorem keeps_cancelOpposing (B : Position.Broker β) (buying : Bool) : ∀ ids : List String,
    Proc.Keeps (Queued q) (cancelOpposing B buying ids)
  | [] => Proc.keeps_pure _
  | id :: rest => by
      refine Proc.Keeps.bind (Proc.keeps_get.bind fun w => ?_)
        fun _ => keeps_cancelOpposing B buying rest
      cases w.pm.liveOrders.lookup id with
      | none => exact Proc.keeps_pure _
      | some order =>
          dsimp only
          split_ifs
          · refine (keeps_callBroker _).bind fun accepted => ?_
            split_ifs
            · exact keeps_modifyPm fun _ => rfl
            · exact Proc.keeps_pure _
          · exact Proc.keeps_pure _

/-- Placing an order leaves the queue of targets. -/
theorem keeps_placeNew (B : Position.Broker β) (symbol newId : String) (quantity : ℤ)
    (buying : Bool) : Proc.Keeps (Queued q) (placeNew B symbol newId quantity buying) := by
  refine Proc.Keeps.bind (keeps_modifyPm fun _ => rfl) fun _ =>
    Proc.Keeps.bind (keeps_callBroker _) fun bOrdId => ?_
  split_ifs
  · refine Proc.keeps_get.bind fun w => ?_
    cases w.pm.liveOrders.lookup newId with
    | none => exact Proc.keeps_raise _
    | some order => exact keeps_modifyPm fun _ => rfl
  · exact Proc.keeps_pure _

/-- Reconciling a symbol leaves the queue of targets. -/
theorem keeps_reconcileSymbol (B : Position.Broker β) (symbol newId : String) :
    Proc.Keeps (Queued q) (reconcileSymbol B symbol newId) := by
  refine Proc.keeps_get.bind fun w => ?_
  dsimp only
  split_ifs
  · exact Proc.keeps_pure _
  · exact (keeps_cancelOpposing B _ _).bind fun _ => keeps_placeNew B _ _ _ _
  · exact (keeps_cancelOpposing B _ _).bind fun _ => keeps_placeNew B _ _ _ _

end queue

/-! ## One direction -/

/-- From the one position to the other there is nothing to do but to buy, or to sell. -/
def Toward (buying : Bool) (x y : ℤ) : Prop := 0 ≤ (y - x) * bsInt buying

/-- Whether a number lies on the way is decided. -/
instance (buying : Bool) (x y : ℤ) : Decidable (Toward buying x y) :=
  inferInstanceAs (Decidable (0 ≤ (y - x) * bsInt buying))

/-- A number lies on the way to itself. -/
theorem Toward.refl (buying : Bool) (x : ℤ) : Toward buying x x := by
  unfold Toward
  rw [sub_self, zero_mul]

/-- What lies on the way to what lies on the way, lies on the way. -/
theorem Toward.trans {buying : Bool} {x y z : ℤ} (h : Toward buying x y) (h' : Toward buying y z) :
    Toward buying x z := by
  unfold Toward at *
  cases buying <;> simp only [bsInt_true, bsInt_false] at * <;> omega

/-- What has to be done is of the direction. -/
theorem Toward.side_eq {buying buying' : Bool} {x y : ℤ} (h : Toward buying x y)
    (hpos : 0 < (y - x) * bsInt buying') : buying' = buying := by
  unfold Toward at h
  cases buying <;> cases buying' <;> simp only [bsInt_true, bsInt_false] at * <;> omega

/-- A number is its size with its sign. -/
theorem abs_mul_bsInt {buying : Bool} {x : ℤ} (h : 0 < x * bsInt buying) :
    |x| * bsInt buying = x := by
  cases buying with
  | true =>
      simp only [bsInt_true, mul_one] at h ⊢
      exact abs_of_pos h
  | false =>
      simp only [bsInt_false, mul_neg, mul_one] at h ⊢
      rw [abs_of_neg (by omega), neg_neg]

/-- Placing an order asks for it, whatever the order threads do before the call. -/
theorem asked_placeNew {pm : PositionManager} {b : SimulatedBroker}
    {schedule : List (List SimEvent)} {symbol newId : String} {quantity : ℤ} {buying : Bool}
    {w' : World Scheduled} (hallowed : ∀ es ∈ schedule, ∀ e ∈ es, Internal e)
    (hrun : (placeNew scheduled symbol newId quantity buying).run ⟨pm, ⟨b, schedule⟩⟩ =
      .returned () w') (h : Orderly (pm.tradeConfirmationsQ, b)) (hnew : Unplaced newId b) :
    asked w'.broker.broker = asked b ++ [(⟨newId, symbol, quantity, buying⟩, false)] := by
  let asks := asked b ++ [((⟨newId, symbol, quantity, buying⟩ : Ticket), false)]
  have hbefore : ∀ e, Internal e → ∀ t : Shared,
      Continues (pm.tradeConfirmationsQ, b) t ∧ asked t.2 = asked b →
      Continues (pm.tradeConfirmationsQ, b) (e.apply t) ∧ asked (e.apply t).2 = asked b :=
    fun e he t ht => ⟨ht.1.trans (continues_apply he.notSubmit ht.1.orderly),
      (asked_apply he t).trans ht.2⟩
  have hsubmit : ∀ t : Shared, Continues (pm.tradeConfirmationsQ, b) t ∧ asked t.2 = asked b →
      Proc.wp (Simulated.submitOrder newId symbol quantity buying "MARKET" none)
        (fun _ t' => asked t'.2 = asks) (fun _ t' => asked t'.2 = asks)
        (fun t' => asked t'.2 = asks) t := by
    intro t ht
    have hunplaced : Unplaced newId t.2 := by
      rw [unplaced_iff, ht.1.clientIds]
      exact unplaced_iff.mp hnew
    exact wp_asked_submitOrder ht.1.orderly hunplaced fun t' ht' => ht'.trans (ht.2 ▸ rfl)
  have hplace := leavesShared_placeNew (B := scheduled) (w := ⟨pm, ⟨b, schedule⟩⟩)
    (J := fun u => asked u.2.broker = asks ∧ ∀ es ∈ u.2.schedule, ∀ e ∈ es, Internal e)
    (wp_afterEvents (keeps_advanced hbefore hallowed) hsubmit hallowed ⟨Continues.refl h, rfl⟩)
  exact (Proc.wp.returned hplace hrun).1

/-- **Reconciling a symbol in its direction** cancels nothing, and orders what is missing. -/
theorem asked_reconcile {pm : PositionManager} {b : SimulatedBroker}
    {schedule : List (List SimEvent)} {symbol newId : String} {w' : World Scheduled}
    (hallowed : ∀ es ∈ schedule, ∀ e ∈ es, Internal e)
    (hrun : (reconcileSymbol scheduled symbol newId).run ⟨pm, ⟨b, schedule⟩⟩ = .returned () w')
    (h : Orderly (pm.tradeConfirmationsQ, b)) (hnew : Unplaced newId b) {buying : Bool}
    (hside : ∀ id ∈ pm.index symbol, ∀ d, pm.liveOrders.lookup id = some d → d.sideIsBuy = buying)
    (htoward : Toward buying (calculateWorkingPosition pm symbol)
      (pm.targetPositions.getD symbol 0)) :
    asked w'.broker.broker = asked b ∧ pm.OnTarget symbol ∨ ∃ quantity, 0 < quantity ∧
      quantity * bsInt buying =
        pm.targetPositions.getD symbol 0 - calculateWorkingPosition pm symbol ∧
      asked w'.broker.broker = asked b ++ [(⟨newId, symbol, quantity, buying⟩, false)] := by
  rcases reconcileSymbol_cases hrun with
    ⟨hon, rfl⟩ | ⟨delta, buying', mid, rfl, hpos, hcancel, hplace⟩
  · exact Or.inl ⟨rfl, hon⟩
  · obtain rfl := htoward.side_eq hpos
    have hnone : (cancelOpposing scheduled buying' (pm.index symbol)).run ⟨pm, ⟨b, schedule⟩⟩ =
        .returned () ⟨pm, ⟨b, schedule⟩⟩ :=
      cancelOpposing_of_not_opposes scheduled _ _ fun id hid d hd => by
        simp [opposes, hside id hid d hd]
    rw [hnone, Outcome.returned.injEq] at hcancel
    obtain ⟨-, rfl⟩ := hcancel
    refine Or.inr ⟨_, ?_, abs_mul_bsInt hpos, asked_placeNew hallowed hplace h hnew⟩
    rw [abs_pos]
    rintro hzero
    rw [hzero, zero_mul] at hpos
    exact lt_irrefl 0 hpos

/-! ## The invariant -/

/-- The targets that a list of updates sets for a symbol. -/
def targetsFor (s : String) (updates : List (String × ℤ)) : List ℤ :=
  (updates.filter fun update => update.1 = s).map Prod.snd

/-- The targets of a symbol, with one more update. -/
theorem targetsFor_cons (s : String) (update : String × ℤ) (updates : List (String × ℤ)) :
    targetsFor s (update :: updates) =
      if update.1 = s then update.2 :: targetsFor s updates else targetsFor s updates := by
  unfold targetsFor
  rw [List.filter_cons]
  by_cases h : update.1 = s <;> simp [h]

/-- All that has been asked is orders of the direction of their symbol, none of them cancelled; they
make up the working positions; and these, the targets and the targets to come lie one behind the
other in that direction. -/
structure Directed (up : String → Bool) (unsent : List (String × ℤ)) (c : SimConfig) : Prop where
  sides : ∀ a ∈ asked c.broker, a.1.sideIsBuy = up a.1.symbol ∧ 0 < a.1.quantity ∧ a.2 = false
  ordered : ∀ s, orderedOf s (tickets c.broker) = calculateWorkingPosition c.pm s
  path : ∀ s, (calculateWorkingPosition c.pm s :: c.pm.targetPositions.getD s 0 ::
    targetsFor s (c.pm.targetUpdatesQ ++ unsent)).Pairwise (Toward (up s))

section directed

variable {up : String → Bool} {unsent : List (String × ℤ)} {sim sim' : SimConfig}

namespace Directed

/-- The working position moves toward the target. -/
theorem toward (h : Directed up unsent sim) (s : String) :
    Toward (up s) (calculateWorkingPosition sim.pm s) (sim.pm.targetPositions.getD s 0) :=
  (List.pairwise_cons.mp (h.path s)).1 _ List.mem_cons_self

/-- The orders of the broker, by themselves. -/
theorem order (h : Directed up unsent sim) {o : SimulatedOrder} (ho : o ∈ sim.broker.orders) :
    o.buySell = up o.symbol ∧ o.cancelling = false := by
  obtain ⟨hside, -, hcancelling⟩ := h.sides (ticket o, o.cancelling) (List.mem_map_of_mem ho)
  exact ⟨hside, hcancelling⟩

/-- A live order is of the direction of its symbol. -/
theorem live (h : Directed up unsent sim) (hc : sim.Tracked) {s id : String}
    (hid : id ∈ sim.pm.index s) {d : OrderDetails} (hd : sim.pm.liveOrders.lookup id = some d) :
    d.sideIsBuy = up s := by
  obtain ⟨hticket, -, -⟩ := hc.tracks.live hd
  obtain ⟨o, ho, heq⟩ := List.mem_map.mp hticket
  have hside := (h.order (List.mem_of_mem_filter ho)).1
  have hsymbol : o.symbol = s :=
    (congrArg Ticket.symbol heq).trans (hc.consistent.symbol hid hd)
  rw [hsymbol] at hside
  exact (congrArg Ticket.sideIsBuy heq).symm.trans hside

/-- Nothing has been ordered, and the working positions, the targets and the queue are as before. -/
theorem of_same (h : Directed up unsent sim) (hasked : asked sim'.broker = asked sim.broker)
    (hworking : ∀ s, calculateWorkingPosition sim'.pm s = calculateWorkingPosition sim.pm s)
    (htargets : sim'.pm.targetPositions = sim.pm.targetPositions)
    (hqueue : sim'.pm.targetUpdatesQ = sim.pm.targetUpdatesQ) : Directed up unsent sim' := by
  refine ⟨hasked ▸ h.sides, fun s => ?_, fun s => ?_⟩
  · rw [tickets_congr hasked, hworking]
    exact h.ordered s
  · rw [hworking, htargets, hqueue]
    exact h.path s

/-- A target is taken from the queue. -/
theorem takeTarget {phase phase' : RunPhase} {flag : Bool} {pm : PositionManager}
    {b : SimulatedBroker} (h : Directed up unsent ⟨phase, flag, pm, b⟩) {update : String × ℤ}
    {rest : List (String × ℤ)} (hq : pm.targetUpdatesQ = update :: rest) :
    Directed up unsent
      ⟨phase', flag, processTargetUpdate update { pm with targetUpdatesQ := rest }, b⟩ := by
  have hworking : ∀ s, calculateWorkingPosition
      (processTargetUpdate update { pm with targetUpdatesQ := rest }) s =
        calculateWorkingPosition pm s :=
    fun s => calculateWorkingPosition_processTargetUpdate update s
  refine ⟨h.sides, fun s => (h.ordered s).trans (hworking s).symm, fun s => ?_⟩
  have hpath := h.path s
  dsimp only at hpath ⊢
  rw [hq, List.cons_append, targetsFor_cons] at hpath
  rw [hworking]
  unfold processTargetUpdate
  dsimp only
  rw [Dict.getD_insert_ite]
  by_cases hs : update.1 = s
  · rw [if_pos hs] at hpath
    rw [if_pos hs.symm]
    exact hpath.sublist ((List.sublist_cons_self _ _).cons_cons _)
  · rw [if_neg hs] at hpath
    rw [if_neg (Ne.symm hs)]
    exact hpath

/-- A symbol is reconciled. -/
theorem reconcile {phase phase' : RunPhase} {flag : Bool} {pm : PositionManager}
    {b : SimulatedBroker} (h : Directed up unsent ⟨phase, flag, pm, b⟩)
    (hc : SimConfig.Tracked ⟨phase, flag, pm, b⟩) {schedule : List (List SimEvent)}
    {symbol newId : String} {w' : World Scheduled} (hnew : Unplaced newId b)
    (hallowed : ∀ es ∈ schedule, ∀ e ∈ es, Internal e)
    (hrun : (reconcileSymbol scheduled symbol newId).run ⟨pm, ⟨b, schedule⟩⟩ = .returned () w') :
    Directed up unsent ⟨phase', flag, w'.pm, w'.broker.broker⟩ := by
  have hreconciled := reconcileSymbol_returned hrun
  have hfresh : Fresh pm newId := hc.tracks.fresh (t := (pm.tradeConfirmationsQ, b)) hnew
  have hqueue : w'.pm.targetUpdatesQ = pm.targetUpdatesQ :=
    Proc.wp.returned (keeps_reconcileSymbol scheduled symbol newId _ rfl) hrun
  have hself : calculateWorkingPosition w'.pm symbol = pm.targetPositions.getD symbol 0 :=
    (hreconciled.calculateWorkingPosition_self hfresh).trans (by rw [hreconciled.targetPositions])
  rcases asked_reconcile hallowed hrun hc.orderly hnew (fun id hid d hd => h.live hc hid hd)
    (h.toward symbol) with ⟨hasked, hon⟩ | ⟨quantity, hpos, hquantity, hasked⟩
  · refine h.of_same hasked (fun s => ?_) hreconciled.targetPositions hqueue
    by_cases hs : s = symbol
    · rw [hs, hself]
      exact hon.symm
    · exact hreconciled.calculateWorkingPosition_of_ne hfresh hs
  · refine ⟨?_, fun s => ?_, fun s => ?_⟩
    · intro a ha
      rcases List.mem_append.mp (hasked ▸ ha) with ha | ha
      · exact h.sides a ha
      · rw [List.mem_singleton.mp ha]
        exact ⟨rfl, hpos, rfl⟩
    · have hadded : orderedOf s [⟨newId, symbol, quantity, up symbol⟩] =
          if symbol = s then quantity * bsInt (up symbol) else 0 := by
        simp [orderedOf, Ticket.signed]
      have htickets : tickets w'.broker.broker =
          tickets b ++ [⟨newId, symbol, quantity, up symbol⟩] := by
        rw [← asked_map_fst, hasked, List.map_append, asked_map_fst]
        rfl
      have hordered := h.ordered s
      dsimp only at hordered ⊢
      rw [htickets, orderedOf_append, hadded, hordered]
      by_cases hs : s = symbol
      · rw [if_pos hs.symm, hquantity, hs, hself]
        exact add_sub_cancel _ _
      · rw [if_neg (Ne.symm hs), add_zero, hreconciled.calculateWorkingPosition_of_ne hfresh hs]
    · have hpath := h.path s
      dsimp only at hpath ⊢
      rw [hreconciled.targetPositions, hqueue]
      by_cases hs : s = symbol
      · rw [hs, hself]
        rw [hs] at hpath
        have htail := (List.pairwise_cons.mp hpath).2
        refine List.pairwise_cons.mpr ⟨fun x hx => ?_, htail⟩
        rcases List.mem_cons.mp hx with rfl | hx
        · exact Toward.refl _ _
        · exact (List.pairwise_cons.mp htail).1 x hx
      · rw [hreconciled.calculateWorkingPosition_of_ne hfresh hs]
        exact hpath

/-- Nothing has been cancelled. -/
theorem uncancelled (h : Directed up unsent sim) : Uncancelled sim.shared :=
  fun _ ho _ => (h.order ho).2

/-- **A step of the loop or of an order thread** keeps to the direction, as long as the broker has
not been stopped. -/
theorem step (h : Directed up unsent sim) (hc : sim.Tracked) (hstep : SystemStep sim sim')
    (hphase : sim'.phase ≠ .returned) : Directed up unsent sim' := by
  obtain ⟨hstep, htargets, -⟩ := hstep
  cases hstep with
  | event _ e he => exact h.of_same (asked_apply he sim.shared) (fun _ => rfl) rfl rfl
  | targetArrives _ symbol targetAmount =>
      have hlength := htargets.length_le
      simp [updateTargetPosition] at hlength
  | terminate | enterLoop | confirmationsDone | targetsDone | iterationDone | leaveLoop =>
      exact h.of_same rfl (fun _ => rfl) rfl rfl
  | @takeConfirmation conf rest affected flag pm b hconfs =>
      have hmem : conf ∈ pm.tradeConfirmationsQ := by simp [hconfs]
      obtain ⟨d, hfill⟩ := hc.genuine h.uncancelled hmem
      have hpm : PositionManager.Consistent { pm with tradeConfirmationsQ := rest } :=
        ⟨hc.consistent.listed, hc.consistent.symbol, hc.consistent.nodup,
          hc.consistent.notTerminal⟩
      have hfill' : GenuineFill { pm with tradeConfirmationsQ := rest }.liveOrders [] conf d :=
        hfill
      exact h.of_same rfl (hfill'.calculateWorkingPosition_eq hpm)
        (processConfirmation_targetPositions _) (processConfirmation_targetUpdatesQ _)
  | takeTarget fromTrades affected flag pm b hq => exact h.takeTarget hq
  | reconcile flag symbol newId schedule _ hnew hallowed hrun =>
      exact h.reconcile hc hnew hallowed hrun
  | stop => exact absurd rfl hphase

/-- An update that was to come has been sent. -/
theorem send {symbol : String} {target : ℤ} (h : Directed up ((symbol, target) :: unsent) sim) :
    Directed up unsent { sim with pm := updateTargetPosition symbol target sim.pm } := by
  refine ⟨h.sides, h.ordered, fun s => ?_⟩
  have hpath := h.path s
  rwa [List.append_cons] at hpath

end Directed

end directed

/-! ## Targets that have been sent -/

/-- The last target of a symbol, 0 if there is none. -/
def lastTarget (updates : List (String × ℤ)) (s : String) : ℤ := queuedTarget s updates 0

/-- Once the updates in the queue and those to come have been taken, the targets are the last
ones. -/
def Sent (updates unsent : List (String × ℤ)) (c : SimConfig) : Prop :=
  ∀ s, queuedTarget s (c.pm.targetUpdatesQ ++ unsent) (c.pm.targetPositions.getD s 0) =
    lastTarget updates s

section sent

variable {sim sim' : SimConfig} {updates unsent : List (String × ℤ)}

/-- A step of the system leaves the targets and their queue, or takes the first of the queue. -/
theorem SystemStep.targets_cases (h : SystemStep sim sim') :
    (sim'.pm.targetUpdatesQ = sim.pm.targetUpdatesQ ∧
      sim'.pm.targetPositions = sim.pm.targetPositions) ∨
    ∃ update, sim.pm.targetUpdatesQ = update :: sim'.pm.targetUpdatesQ ∧
      sim'.pm.targetPositions = sim.pm.targetPositions.insert update.1 update.2 := by
  obtain ⟨hstep, htargets, -⟩ := h
  cases hstep with
  | event | terminate | enterLoop | confirmationsDone | targetsDone | iterationDone | leaveLoop
  | stop => exact Or.inl ⟨rfl, rfl⟩
  | targetArrives _ symbol targetAmount =>
      have hlength := htargets.length_le
      simp [updateTargetPosition] at hlength
  | takeConfirmation affected flag pm b hconfs =>
      exact Or.inl ⟨processConfirmation_targetUpdatesQ _, processConfirmation_targetPositions _⟩
  | takeTarget fromTrades affected flag pm b hq => exact Or.inr ⟨_, hq, rfl⟩
  | @reconcile pm b w' left flag symbol newId schedule _ _ _ hrun =>
      have hqueue : w'.pm.targetUpdatesQ = pm.targetUpdatesQ :=
        Proc.wp.returned (keeps_reconcileSymbol scheduled symbol newId _ rfl) hrun
      exact Or.inl ⟨hqueue, (reconcileSymbol_returned hrun).targetPositions⟩

/-- A step of the system leaves what is sent, booked and still to be sent. -/
theorem Sent.step (h : Sent updates unsent sim) (hstep : SystemStep sim sim') :
    Sent updates unsent sim' := by
  intro s
  rw [← h s]
  rcases hstep.targets_cases with ⟨hq, htargets⟩ | ⟨update, hq, htargets⟩
  · rw [hq, htargets]
  · rw [hq, htargets, Dict.getD_insert_ite, List.cons_append, queuedTarget]
    simp only [eq_comm]

/-- Sending a target takes it off those still to be sent. -/
theorem Sent.send {symbol : String} {target : ℤ}
    (h : Sent updates ((symbol, target) :: unsent) sim) :
    Sent updates unsent { sim with pm := updateTargetPosition symbol target sim.pm } := by
  intro s
  rw [← h s, List.append_cons]
  rfl

/-- Once the broker has been stopped the loop does not go on. -/
theorem SystemStep.returned (h : SystemStep sim sim') (hphase : sim.phase = .returned) :
    sim'.phase = .returned := by
  obtain ⟨hstep, -, -⟩ := h
  cases hstep with
  | event | terminate | targetArrives => exact hphase
  | stop => rfl
  | enterLoop | takeConfirmation | confirmationsDone | takeTarget | targetsDone | reconcile
  | iterationDone | leaveLoop => cases hphase

end sent

end FlowManager.Strategy
