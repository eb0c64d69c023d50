import FlowManager.PositionManager.Consistency

/-!
# A broker that records its calls

`recording B` is the broker `B` with a list of the calls that have returned, each with its answer.
The position manager runs on it as on `B` (`runsAs_reconcilePositions`), so what is proved of the
list is a fact about the calls that the position manager makes on `B`.
-/

namespace FlowManager.Position

open FlowManager.Lib FlowManager.Broker

/-- A call of a method of the broker, with its answer. -/
inductive RecordedCall where
  | cancelOrder (clientOrderId : String) (accepted : Bool)
  | submitOrder (clientOrderId symbol : String) (quantity : ℤ) (sideIsBuy : Bool)
      (orderType : String) (price : Option PyFloat) (brokerOrderId : Option ℤ)
  deriving DecidableEq

variable {β : Type}

/-- Run a method of the broker and add the call to the list, once it has returned. -/
def record {α : Type} (call : α → RecordedCall)
    (method : Proc PyError (List TradeConfirmationMessage × β) α) :
    Proc PyError (List TradeConfirmationMessage × β × List RecordedCall) α := do
  let answer ← Proc.focus (fun t => (t.1, t.2.1)) (fun t u => (t.1, t.2, u.2.2)) id method
  Proc.modify fun t => (t.1, t.2.1, t.2.2 ++ [call answer])
  pure answer

/-- The broker, with a list of the calls it has answered. -/
def recording (B : Broker β) : Broker (β × List RecordedCall) where
  cancelOrder clientOrderId := record (.cancelOrder clientOrderId) (B.cancelOrder clientOrderId)
  submitOrder clientOrderId symbol quantity sideIsBuy orderType price :=
    record (.submitOrder clientOrderId symbol quantity sideIsBuy orderType price)
      (B.submitOrder clientOrderId symbol quantity sideIsBuy orderType price)

/-- The list of calls left out. -/
def forgetCalls (w : World (β × List RecordedCall)) : World β := ⟨w.pm, w.broker.1⟩

/-- Forgetting the calls leaves the position manager. -/
@[simp]
theorem pm_forgetCalls (w : World (β × List RecordedCall)) : (forgetCalls w).pm = w.pm := rfl

/-- A call that returns is recorded. -/
theorem run_record_of_returned {α : Type} {call : α → RecordedCall}
    {method : Proc PyError (List TradeConfirmationMessage × β) α}
    {q q' : List TradeConfirmationMessage} {b b' : β} {calls : List RecordedCall} {answer : α}
    (h : method.run (q, b) = .returned answer (q', b')) :
    (record call method).run (q, b, calls) = .returned answer (q', b', calls ++ [call answer]) := by
  simp [record, Proc.focus, h]

/-- What a recorded call that has returned can have changed. -/
theorem callBroker_record_returned {α : Type} {call : α → RecordedCall}
    {method : Proc PyError (List TradeConfirmationMessage × β) α} {answer : α}
    {w w' : World (β × List RecordedCall)}
    (h : (callBroker (record call method)).run w = .returned answer w') :
    ∃ q b, w' = ⟨{ w.pm with tradeConfirmationsQ := q }, b, w.broker.2 ++ [call answer]⟩ := by
  unfold callBroker at h
  obtain ⟨t, hrecord, rfl⟩ := Proc.run_focus_eq_returned h
  rw [record, Proc.run_bind, Outcome.bind_eq_returned] at hrecord
  obtain ⟨answer', t', hmethod, hrest⟩ := hrecord
  obtain ⟨u, -, rfl⟩ := Proc.run_focus_eq_returned hmethod
  cases hrest
  exact ⟨u.1, u.2, rfl⟩

/-! ## The recorded runs are the runs -/

/-- A call that is recorded runs as the call. -/
theorem runsAs_callBroker_record {α : Type} (call : α → RecordedCall)
    (method : Proc PyError (List TradeConfirmationMessage × β) α) :
    Proc.RunsAs forgetCalls (callBroker (record call method)) (callBroker method) := by
  intro w
  rcases hrun : method.run (w.pm.tradeConfirmationsQ, w.broker.1) with ⟨a, t⟩ | ⟨e, t⟩ | t
  all_goals simp [callBroker, record, Proc.focus, forgetCalls, Outcome.map, hrun]

/-- A write runs as itself. -/
theorem runsAs_modifyPm (f : PositionManager → PositionManager) :
    Proc.RunsAs (forgetCalls (β := β)) (modifyPm f) (modifyPm f) :=
  Proc.runsAs_modify fun _ => rfl

variable (B : Broker β)

/-- Cancelling an order runs as without the record. -/
theorem runsAs_cancelIfOpposing (buying : Bool) (clientOrdId : String) :
    Proc.RunsAs forgetCalls (cancelIfOpposing (recording B) buying clientOrdId)
      (cancelIfOpposing B buying clientOrdId) := by
  apply Proc.runsAs_get_bind
  intro w
  rw [pm_forgetCalls]
  rcases w.pm.liveOrders.lookup clientOrdId with _ | order
  · exact Proc.runsAs_pure ()
  · refine Proc.RunsAs.ite ?_ (Proc.runsAs_pure ())
    refine (runsAs_callBroker_record _ _).bind fun accepted => ?_
    exact Proc.RunsAs.ite (runsAs_modifyPm _) (Proc.runsAs_pure ())

/-- The cancels before an order run as without the record. -/
theorem runsAs_cancelOpposing (buying : Bool) (ids : List String) :
    Proc.RunsAs forgetCalls (cancelOpposing (recording B) buying ids) (cancelOpposing B buying ids) := by
  induction ids with
  | nil => exact Proc.runsAs_pure ()
  | cons id rest ih => exact (runsAs_cancelIfOpposing B buying id).bind fun _ => ih

/-- Placing an order runs as without the record. -/
theorem runsAs_placeNew (symbol newId : String) (quantity : ℤ) (buying : Bool) :
    Proc.RunsAs forgetCalls (placeNew (recording B) symbol newId quantity buying)
      (placeNew B symbol newId quantity buying) := by
  refine (runsAs_modifyPm _).bind fun _ => ?_
  refine (runsAs_callBroker_record _ _).bind fun bOrdId => ?_
  refine Proc.RunsAs.ite ?_ (Proc.runsAs_pure ())
  apply Proc.runsAs_get_bind
  intro w
  rw [pm_forgetCalls]
  rcases w.pm.liveOrders.lookup newId with _ | order
  · exact Proc.runsAs_raise _
  · exact runsAs_modifyPm _

/-- **Reconciling a symbol** runs as without the record. -/
theorem runsAs_reconcileSymbol (symbol newId : String) :
    Proc.RunsAs forgetCalls (reconcileSymbol (recording B) symbol newId)
      (reconcileSymbol B symbol newId) := by
  apply Proc.runsAs_get_bind
  intro w
  have hpart : ∀ (buying : Bool) (quantity : ℤ), Proc.RunsAs forgetCalls
      (do cancelOpposing (recording B) buying (w.pm.index symbol)
          placeNew (recording B) symbol newId quantity buying)
      (do cancelOpposing B buying (w.pm.index symbol)
          placeNew B symbol newId quantity buying) := fun buying quantity =>
    (runsAs_cancelOpposing B buying _).bind fun _ => runsAs_placeNew B symbol newId quantity buying
  exact Proc.RunsAs.ite (Proc.runsAs_pure ()) (Proc.RunsAs.ite (hpart true _) (hpart false _))

/-- **Reconciling on the recording broker is reconciling**, with the list of calls left out. -/
theorem runsAs_reconcilePositions (xs : List (String × String)) :
    Proc.RunsAs forgetCalls (reconcilePositions (recording B) xs) (reconcilePositions B xs) := by
  induction xs with
  | nil => exact Proc.runsAs_pure ()
  | cons x rest ih => exact (runsAs_reconcileSymbol B x.1 x.2).bind fun _ => ih

end FlowManager.Position
