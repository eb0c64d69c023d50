import FlowManager.Broker.SimulatedFills
import FlowManager.PositionManager.Loop
import FlowManager.PositionManager.Queues

/-!
# The position manager on the simulated broker

`strategy_runner.py` runs `PositionManager.run` on a `SimulatedBroker`. `SimStep` is one step of
the two: of the loop, of an order thread or a timer, or of a thread that sets a target, sets the
terminate flag or calls the broker. Reconciling a symbol is a step of the loop in which the other
threads go on before each call of the broker (`Scheduled`).

No fill is lost or counted twice (`fills_accounted`): what the position manager has booked and what
its queue holds are what the callback has been passed, and that is what the finished threads have
filled.
-/

namespace FlowManager.System

open FlowManager.Lib FlowManager.Broker FlowManager.Position FlowManager.Broker.Simulated

/-! ## The broker that a call of the loop meets -/

/-- The broker, with what the other threads do before each of the calls to come. -/
structure Scheduled where
  broker : SimulatedBroker
  schedule : List (List SimEvent)

/-- What the next call of the broker meets. -/
def Scheduled.advanced (t : List TradeConfirmationMessage × Scheduled) : Shared :=
  applyEvents (t.2.schedule.headD []) (t.1, t.2.broker)

/-- Call a method of the broker once the other threads have made their steps. -/
def afterEvents {α : Type} (method : Proc PyError Shared α) :
    Proc PyError (List TradeConfirmationMessage × Scheduled) α :=
  Proc.focus Scheduled.advanced (fun t' t => (t'.1, ⟨t'.2, t.2.schedule.tail⟩)) id method

/-- The simulated broker, as the loop calls it. -/
def scheduled : Position.Broker Scheduled where
  cancelOrder clientOrderId := afterEvents (Simulated.cancelOrder clientOrderId)
  submitOrder clientOrderId symbol quantity sideIsBuy orderType price :=
    afterEvents (Simulated.submitOrder clientOrderId symbol quantity sideIsBuy orderType price)

/-! ## Runs -/

/-- Where `PositionManager.run` is.
Source: `position_manager.py`, `PositionManager.run` -/
inductive RunPhase where
  /-- At the test of the terminate flag. -/
  | testing
  | looping (phase : Phase)
  /-- Behind the loop, at `self.broker.stop()`. -/
  | stopping
  | returned

/-- The position manager, the broker, and where the loop is. -/
structure SimConfig where
  phase : RunPhase
  terminateFlag : Bool
  pm : PositionManager
  broker : SimulatedBroker

namespace SimConfig

/-- Both at their start.
Source: `strategy_runner.py`, `__main__` -/
def init : SimConfig := ⟨.testing, false, .init, .init⟩

/-- What the threads share with the loop. -/
def shared (c : SimConfig) : Shared := (c.pm.tradeConfirmationsQ, c.broker)

/-- Change what the threads share with the loop. -/
def setShared (c : SimConfig) (t : Shared) : SimConfig :=
  { c with pm := { c.pm with tradeConfirmationsQ := t.1 }, broker := t.2 }

end SimConfig

/-- No order has been made with the id. -/
def Unplaced (clientOrderId : String) (b : SimulatedBroker) : Prop :=
  ∀ o ∈ b.orders, o.clientOrderId ≠ clientOrderId

/-- One step of the loop or of another thread. `Allowed` are the steps that the threads of orders
and timers, and the threads that call the broker, may make.
Source: `position_manager.py`, `PositionManager.run` and `terminate` -/
inductive SimStep (Allowed : SimEvent → Prop) : SimConfig → SimConfig → Prop
  | event (c : SimConfig) (e : SimEvent) :
      Allowed e → SimStep Allowed c (c.setShared (e.apply c.shared))
  | targetArrives (c : SimConfig) (symbol : String) (targetAmount : ℤ) :
      SimStep Allowed c { c with pm := updateTargetPosition symbol targetAmount c.pm }
  | terminate (c : SimConfig) : SimStep Allowed c { c with terminateFlag := true }
  | enterLoop (pm : PositionManager) (b : SimulatedBroker) :
      SimStep Allowed ⟨.testing, false, pm, b⟩ ⟨.looping (.confirmations ∅), false, pm, b⟩
  | takeConfirmation {conf : TradeConfirmationMessage} {rest : List TradeConfirmationMessage}
      (affected : Finset String) (flag : Bool) (pm : PositionManager) (b : SimulatedBroker) :
      pm.tradeConfirmationsQ = conf :: rest →
      SimStep Allowed ⟨.looping (.confirmations affected), flag, pm, b⟩
        ⟨.looping (.confirmations (insert conf.symbol affected)), flag,
          processConfirmation conf { pm with tradeConfirmationsQ := rest }, b⟩
  | confirmationsDone (affected : Finset String) (flag : Bool) (pm : PositionManager)
      (b : SimulatedBroker) :
      pm.tradeConfirmationsQ = [] →
      SimStep Allowed ⟨.looping (.confirmations affected), flag, pm, b⟩
        ⟨.looping (.targets affected ∅), flag, pm, b⟩
  | takeTarget {update : String × ℤ} {rest : List (String × ℤ)}
      (fromTrades affected : Finset String) (flag : Bool) (pm : PositionManager)
      (b : SimulatedBroker) :
      pm.targetUpdatesQ = update :: rest →
      SimStep Allowed ⟨.looping (.targets fromTrades affected), flag, pm, b⟩
        ⟨.looping (.targets fromTrades (insert update.1 affected)), flag,
          processTargetUpdate update { pm with targetUpdatesQ := rest }, b⟩
  | targetsDone (fromTrades affected : Finset String) (flag : Bool) (pm : PositionManager)
      (b : SimulatedBroker) :
      pm.targetUpdatesQ = [] →
      SimStep Allowed ⟨.looping (.targets fromTrades affected), flag, pm, b⟩
        ⟨.looping (.reconciling (fromTrades ∪ affected)), flag, pm, b⟩
  | reconcile {pm : PositionManager} {b : SimulatedBroker} {w' : World Scheduled}
      {left : Finset String} (flag : Bool) (symbol newId : String)
      (schedule : List (List SimEvent)) :
      symbol ∈ left → Unplaced newId b → (∀ es ∈ schedule, ∀ e ∈ es, Allowed e) →
      (reconcileSymbol scheduled symbol newId).run ⟨pm, ⟨b, schedule⟩⟩ = .returned () w' →
      SimStep Allowed ⟨.looping (.reconciling left), flag, pm, b⟩
        ⟨.looping (.reconciling (left.erase symbol)), flag, w'.pm, w'.broker.broker⟩
  | iterationDone (flag : Bool) (pm : PositionManager) (b : SimulatedBroker) :
      SimStep Allowed ⟨.looping (.reconciling ∅), flag, pm, b⟩ ⟨.testing, flag, pm, b⟩
  | leaveLoop (pm : PositionManager) (b : SimulatedBroker) :
      SimStep Allowed ⟨.testing, true, pm, b⟩ ⟨.stopping, true, pm, b⟩
  | stop (flag : Bool) (pm : PositionManager) (b : SimulatedBroker) :
      SimStep Allowed ⟨.stopping, flag, pm, b⟩ ⟨.returned, flag, pm, b.stop⟩

/-- What a run reaches. -/
def SimReaches (Allowed : SimEvent → Prop) : SimConfig → SimConfig → Prop :=
  Relation.ReflTransGen (SimStep Allowed)

/-! ## The invariant -/

variable {Allowed : SimEvent → Prop} {c c' : SimConfig}

/-- A call of the broker keeps what its method and the steps before it keep. -/
theorem wp_afterEvents {α : Type} {method : Proc PyError Shared α} {I J : Shared → Prop}
    {t : List TradeConfirmationMessage × Scheduled}
    (hevents : I (t.1, t.2.broker) → I (Scheduled.advanced t))
    (hmethod : ∀ t, I t → Proc.wp method (fun _ => J) (fun _ => J) J t)
    (hallowed : ∀ es ∈ t.2.schedule, ∀ e ∈ es, Allowed e) (h : I (t.1, t.2.broker)) :
    Proc.wp (afterEvents method)
      (fun _ t' => J (t'.1, t'.2.broker) ∧ ∀ es ∈ t'.2.schedule, ∀ e ∈ es, Allowed e)
      (fun _ t' => J (t'.1, t'.2.broker) ∧ ∀ es ∈ t'.2.schedule, ∀ e ∈ es, Allowed e)
      (fun t' => J (t'.1, t'.2.broker) ∧ ∀ es ∈ t'.2.schedule, ∀ e ∈ es, Allowed e) t := by
  have htail : ∀ es ∈ t.2.schedule.tail, ∀ e ∈ es, Allowed e :=
    fun es hes => hallowed es (List.mem_of_mem_tail hes)
  unfold afterEvents
  rw [Proc.wp_focus]
  exact Proc.wp_mono (hmethod _ (hevents h)) (fun _ _ h => ⟨h, htail⟩) (fun _ _ h => ⟨h, htail⟩)
    fun _ h => ⟨h, htail⟩

/-- What the allowed steps keep, a list of them keeps. -/
theorem keeps_applyEvents {I : Shared → Prop}
    (hevent : ∀ e, Allowed e → ∀ t, I t → I (e.apply t)) :
    ∀ (es : List SimEvent) (t : Shared), (∀ e ∈ es, Allowed e) → I t → I (applyEvents es t)
  | [], _, _, h => h
  | e :: es, t, hes, h =>
      keeps_applyEvents hevent es _ (fun e he => hes e (List.mem_cons_of_mem _ he))
        (hevent e (hes e List.mem_cons_self) t h)

/-- What the allowed steps keep, the steps before a call of the loop keep. -/
theorem keeps_advanced {I : Shared → Prop}
    (hevent : ∀ e, Allowed e → ∀ t, I t → I (e.apply t))
    {u : List TradeConfirmationMessage × Scheduled}
    (hallowed : ∀ es ∈ u.2.schedule, ∀ e ∈ es, Allowed e) (h : I (u.1, u.2.broker)) :
    I (Scheduled.advanced u) := by
  refine keeps_applyEvents hevent _ _ ?_ h
  cases hschedule : u.2.schedule with
  | nil => simp
  | cons es rest => exact hallowed es (hschedule ▸ List.mem_cons_self)

/-- **What every step of a thread keeps, reconciling a symbol keeps**: `I` is kept by the allowed
steps and by cancels, and a submission of the new order takes it to `J`. -/
theorem reconcile_keeps {I J : Shared → Prop} {pm : PositionManager} {b : SimulatedBroker}
    {schedule : List (List SimEvent)} {symbol newId : String} {w' : World Scheduled}
    (hevent : ∀ e, Allowed e → ∀ t, I t → I (e.apply t))
    (hcancel : ∀ id t, I t → Proc.wp (Simulated.cancelOrder id) (fun _ => I) (fun _ => I) I t)
    (hsubmit : ∀ quantity buying t, 0 < quantity → I t →
      Proc.wp (Simulated.submitOrder newId symbol quantity buying "MARKET" none)
        (fun _ => J) (fun _ => J) J t)
    (hIJ : ∀ t, I t → J t) (hallowed : ∀ es ∈ schedule, ∀ e ∈ es, Allowed e)
    (hrun : (reconcileSymbol scheduled symbol newId).run ⟨pm, ⟨b, schedule⟩⟩ = .returned () w')
    (h : I (pm.tradeConfirmationsQ, b)) :
    J (w'.pm.tradeConfirmationsQ, w'.broker.broker) := by
  have hleaves := leavesShared_reconcileSymbol (B := scheduled) (w := ⟨pm, ⟨b, schedule⟩⟩)
    (I := fun t => I (t.1, t.2.broker) ∧ ∀ es ∈ t.2.schedule, ∀ e ∈ es, Allowed e)
    (J := fun t => J (t.1, t.2.broker) ∧ ∀ es ∈ t.2.schedule, ∀ e ∈ es, Allowed e)
    (fun id t ht => wp_afterEvents (keeps_advanced hevent ht.2) (hcancel id) ht.2 ht.1)
    (fun quantity buying t hquantity ht => wp_afterEvents (keeps_advanced hevent ht.2)
      (fun t ht => hsubmit quantity buying t hquantity ht) ht.2 ht.1)
    (fun t ht => ⟨hIJ _ ht.1, ht.2⟩) ⟨h, hallowed⟩
  exact (Proc.wp.returned hleaves hrun).1

/-- The invariant of a run: the threads and their orders are in order, and what has been passed to
the callback is booked or in the queue. -/
structure SimConfig.Accounted (c : SimConfig) : Prop where
  sound : c.broker.Sound
  booked : ∀ s, c.pm.positions.getD s 0 + filledOf s c.pm.tradeConfirmationsQ =
    filledOf s c.broker.confirmations

/-- The account is in order at the start. -/
theorem accounted_init : SimConfig.init.Accounted :=
  ⟨SimulatedBroker.sound_init, fun _ => rfl⟩

/-- What a thread puts into the queue is what it passes to the callback. -/
theorem SimConfig.Accounted.advances (hc : c.Accounted) {t' : Shared}
    (h : Advances c.shared t') (hpositions : c'.pm.positions = c.pm.positions)
    (hshared : c'.shared = t') : c'.Accounted := by
  obtain ⟨hsound, new, hq, hconfs⟩ := h
  rw [← hshared] at hsound hq hconfs
  have hq' : c'.pm.tradeConfirmationsQ = c.pm.tradeConfirmationsQ ++ new := hq
  have hconfs' : c'.broker.confirmations = c.broker.confirmations ++ new := hconfs
  refine ⟨hsound, fun s => ?_⟩
  rw [hpositions, hq', hconfs', filledOf_append, filledOf_append, ← hc.booked s, add_assoc]

/-- **Every step keeps the account.** -/
theorem SimStep.accounted (h : SimStep SimEvent.Positive c c') (hc : c.Accounted) :
    c'.Accounted := by
  cases h with
  | event _ e he => exact hc.advances (e.advances he hc.sound) rfl rfl
  | targetArrives | terminate | enterLoop | confirmationsDone | takeTarget | targetsDone
  | iterationDone | leaveLoop => exact ⟨hc.sound, hc.booked⟩
  | takeConfirmation affected flag pm b hq =>
      refine ⟨hc.sound, fun s => ?_⟩
      have hbooked := hc.booked s
      rw [hq, filledOf_cons] at hbooked
      dsimp only at hbooked ⊢
      rw [processConfirmation_positions, processConfirmation_tradeConfirmationsQ, ← hbooked,
        add_assoc]
  | @reconcile pm b w' left flag symbol newId schedule _ _ hallowed hrun =>
      have hstart : Advances (pm.tradeConfirmationsQ, b) (pm.tradeConfirmationsQ, b) :=
        ⟨hc.sound, Grows.refl _⟩
      have hkept := reconcile_keeps (I := Advances (pm.tradeConfirmationsQ, b))
        (J := Advances (pm.tradeConfirmationsQ, b))
        (fun e he t ht => ht.trans (e.advances he ht.1))
        (fun id t ht => Proc.wp_mono (advances_cancelOrder ht.1 id) (fun _ _ h => ht.trans h)
          (fun _ _ h => ht.trans h) fun _ h => ht.trans h)
        (fun quantity buying t hquantity ht => Proc.wp_mono (advances_submitOrder ht.1 hquantity)
          (fun _ _ h => ht.trans h) (fun _ _ h => ht.trans h) fun _ h => ht.trans h)
        (fun _ ht => ht) hallowed hrun hstart
      exact hc.advances hkept (reconcileSymbol_returned hrun).positions rfl
  | stop flag pm b =>
      exact hc.advances (SimEvent.advances .stop trivial hc.sound) rfl rfl

/-- **In every state that a run reaches** the account is in order. -/
theorem SimReaches.accounted (h : SimReaches SimEvent.Positive .init c) : c.Accounted := by
  induction h with
  | refl => exact accounted_init
  | tail _ hstep ih => exact hstep.accounted ih

/-- **No fill is lost or counted twice.** In every state that a run reaches, whatever the threads
have done, the position of a symbol with the fills in the queue and those that have not been
reported yet are all fills of the symbol. An order is reported at most once, fills no more than its
amount, and all of it if it is reported with `FILLED`. -/
theorem fills_accounted (h : SimReaches SimEvent.Positive .init c) :
    (∀ s, c.pm.positions.getD s 0 + filledOf s c.pm.tradeConfirmationsQ +
        c.broker.filledBy s (fun o => !o.isFinished) = c.broker.filledBy s fun _ => true) ∧
      (∀ (i : ℕ) (o : SimulatedOrder), c.broker.orders[i]? = some o →
        (c.broker.reportsOf i).length ≤ 1 ∧ 0 ≤ o.amountFilled ∧ o.amountFilled ≤ o.amount) ∧
      ∀ conf ∈ c.broker.confirmations, conf.status = .FILLED →
        ∃ (i : ℕ) (o : SimulatedOrder), c.broker.orders[i]? = some o ∧ conf.orderId = i ∧
          conf.filledQuantity = o.amount := by
  have hc := h.accounted
  refine ⟨?_, ?_, ?_⟩
  · intro s
    rw [hc.booked, hc.sound.fills, SimulatedBroker.filledBy_add_not]
  · intro i o ho
    refine ⟨?_, (hc.sound.order ho).nonneg, (hc.sound.order ho).le⟩
    cases hfinished : o.isFinished with
    | false => rw [hc.sound.pending ho hfinished]; exact Nat.zero_le 1
    | true =>
        obtain ⟨finalStatus, hreports, -⟩ := hc.sound.reported ho hfinished
        rw [hreports]
        exact le_rfl
  · intro conf hconf hfilled
    exact hc.sound.exists_order hconf hfilled

/-- A target of 20 is set, and the loop has taken it. -/
def targetTaken : PositionManager :=
  (processTargetUpdates (updateTargetPosition "AMD" 20 .init)).2

/-- The loop has submitted an order for it. -/
def submitted : World Scheduled :=
  ((reconcileSymbol scheduled "AMD" "buy").run ⟨targetTaken, ⟨.init, []⟩⟩).state

/-- The thread of the order has filled 1 of 20. -/
def partlyFilled : SimConfig :=
  SimConfig.setShared ⟨.testing, false, submitted.pm, submitted.broker.broker⟩
    (applyEvents [.thread 0 0, .thread 0 0]
      (submitted.pm.tradeConfirmationsQ, submitted.broker.broker))

/-- A run reaches the partial fill, whatever else is allowed. -/
theorem reaches_partlyFilled (hthread : ∀ i draw, Allowed (.thread i draw)) :
    SimReaches Allowed .init partlyFilled := by
  have hqueued : SimReaches Allowed .init
      ⟨.looping (.targets ∅ ∅), false, updateTargetPosition "AMD" 20 .init, .init⟩ :=
    ((Relation.ReflTransGen.single (.targetArrives _ "AMD" 20)).tail (.enterLoop _ _)).tail
      (.confirmationsDone _ _ _ _ rfl)
  have htaken : SimReaches Allowed .init
      ⟨.looping (.reconciling (∅ ∪ insert "AMD" ∅)), false, targetTaken, .init⟩ :=
    (hqueued.tail (@SimStep.takeTarget _ ("AMD", 20) [] _ _ _ _ _ rfl)).tail
      (.targetsDone _ _ _ _ _ rfl)
  have hsubmitted : SimReaches Allowed .init
      ⟨.looping (.reconciling ∅), false, submitted.pm, submitted.broker.broker⟩ :=
    htaken.tail (.reconcile false "AMD" "buy" [] (by decide) (by simp [Unplaced, SimulatedBroker.init])
      (by simp) rfl)
  exact ((hsubmitted.tail (.iterationDone _ _ _)).tail (.event _ (.thread 0 0) (hthread 0 0))).tail
    (.event _ (.thread 0 0) (hthread 0 0))

/-- The fill of 1 is neither booked nor in the queue, but of an order that has not finished. -/
theorem fills_accounted_partlyFilled :
    partlyFilled.pm.positions.getD "AMD" 0 + filledOf "AMD" partlyFilled.pm.tradeConfirmationsQ +
        partlyFilled.broker.filledBy "AMD" (fun o => !o.isFinished) = 1 ∧
      partlyFilled.broker.filledBy "AMD" (fun _ => true) = 1 := by
  have hreaches : SimReaches SimEvent.Positive .init partlyFilled :=
    reaches_partlyFilled fun _ _ => trivial
  have hall : partlyFilled.broker.filledBy "AMD" (fun _ => true) = 1 := by decide
  exact ⟨((fills_accounted hreaches).1 "AMD").trans hall, hall⟩

end FlowManager.System
