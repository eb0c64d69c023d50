import FlowManager.Lib.LocalSteps
import FlowManager.PositionManager.Recording
import Mathlib.Logic.Function.Basic

/-!
# Reconciliation, one symbol at a time

`SymbolState` is what the position manager holds of one symbol, together with the calls that the
broker has had for it, and `SymbolState.reconcile` is reconciliation on that alone, for a broker
whose answers depend on the calls for the same symbol (`AnswersBySymbol`). `_reconcile_positions`
refines it: its step for a symbol changes the state of that symbol so, and of no other
(`reconcileSymbol_step`).

The broker's method that cancels is not given a symbol. `symbolOf` says for which symbol an order
is, as a convention about ids: the symbol of the order that is live under the id, or that is about
to be placed under it.
-/

namespace FlowManager.Position

open FlowManager.Lib FlowManager.Broker

/-! ## The state of a symbol -/

/-- What the position manager holds of a symbol, with the calls for it. -/
structure SymbolState where
  position : ℤ
  targetPosition : ℤ
  ids : Option (List String)
  orders : String → Option OrderDetails
  calls : List RecordedCall

/-- What a broker answers, given the calls for the same symbol so far. -/
structure Answers where
  cancelOrder : List RecordedCall → (clientOrderId : String) → Bool
  submitOrder : List RecordedCall → (clientOrderId symbol : String) → (quantity : ℤ) →
    (sideIsBuy : Bool) → (orderType : String) → (price : Option PyFloat) → Option ℤ

namespace SymbolState

/-- The ids listed. -/
def index (v : SymbolState) : List String := v.ids.getD []

/-- Write an order. -/
def setOrder (v : SymbolState) (clientOrdId : String) (order : OrderDetails) : SymbolState :=
  { v with orders := Function.update v.orders clientOrdId (some order) }

/-- Add a call. -/
def addCall (v : SymbolState) (call : RecordedCall) : SymbolState :=
  { v with calls := v.calls ++ [call] }

/-- What an id of the list adds to the working position. -/
def openOf (v : SymbolState) (clientOrdId : String) : ℤ := (v.orders clientOrdId).elim 0 openQuantity

/-- The working position of the symbol. -/
def workingPosition (v : SymbolState) : ℤ := v.position + (v.index.map v.openOf).sum

variable (A : Answers)

/-- Ask to cancel an order if it is of the side that is not wanted. -/
def cancelIfOpposing (buying : Bool) (v : SymbolState) (clientOrdId : String) : SymbolState :=
  match v.orders clientOrdId with
  | some order =>
      if opposes buying order then
        let accepted := A.cancelOrder v.calls clientOrdId
        let asked := v.addCall (.cancelOrder clientOrdId accepted)
        if accepted then asked.setOrder clientOrdId { order with status := .PENDING_CANCEL }
        else asked
      else v
  | none => v

/-- Ask to cancel the orders of the other side. -/
def cancelOpposing (buying : Bool) (ids : List String) (v : SymbolState) : SymbolState :=
  ids.foldl (cancelIfOpposing A buying) v

/-- Track a new order and submit it. -/
def placeNew (symbol newId : String) (quantity : ℤ) (buying : Bool) (v : SymbolState) :
    SymbolState :=
  let bOrdId := A.submitOrder v.calls newId symbol quantity buying "MARKET" none
  let tracked := { v with ids := some (v.index ++ [newId]) }
  (tracked.addCall (.submitOrder newId symbol quantity buying "MARKET" none bOrdId)).setOrder newId
    { newOrder newId symbol quantity buying with brokerOrderId := bOrdId }

/-- Reconcile the symbol. -/
def reconcile (symbol newId : String) (v : SymbolState) : SymbolState :=
  let delta := v.targetPosition - v.workingPosition
  if delta = 0 then v
  else if delta > 0 then placeNew A symbol newId |delta| true (cancelOpposing A true v.index v)
  else placeNew A symbol newId |delta| false (cancelOpposing A false v.index v)

end SymbolState

/-! ## What the position manager holds of each symbol -/

section refinement

variable {β : Type} {B : Broker β} {symbolOf : String → String} {A : Answers}
  {After : List RecordedCall → β → Prop} {w w' mid : World (β × List RecordedCall)} {s : String}

/-- The symbol that a call is for. -/
def RecordedCall.symbol (symbolOf : String → String) : RecordedCall → String
  | .cancelOrder clientOrderId _ => symbolOf clientOrderId
  | .submitOrder _ symbol _ _ _ _ _ => symbol

/-- The calls for a symbol. -/
def callsFor (symbolOf : String → String) (s : String) (calls : List RecordedCall) :
    List RecordedCall :=
  calls.filter fun call => decide (call.symbol symbolOf = s)

/-- One more call for the symbol. -/
theorem callsFor_append_self {calls : List RecordedCall} {call : RecordedCall}
    (h : call.symbol symbolOf = s) :
    callsFor symbolOf s (calls ++ [call]) = callsFor symbolOf s calls ++ [call] := by
  simp [callsFor, h]

/-- A call for another symbol. -/
theorem callsFor_append_of_ne {calls : List RecordedCall} {call : RecordedCall}
    (h : call.symbol symbolOf ≠ s) :
    callsFor symbolOf s (calls ++ [call]) = callsFor symbolOf s calls := by
  simp [callsFor, h]

/-- **The answers of the broker depend on the calls for the same symbol only.** `After calls b`
says that `b` may be the state of the broker after the calls; besides its answer, a call may put
any confirmations into the queue. -/
structure AnswersBySymbol (B : Broker β) (symbolOf : String → String) (A : Answers)
    (After : List RecordedCall → β → Prop) : Prop where
  cancelOrder : ∀ {calls b} (q : List TradeConfirmationMessage) (clientOrderId : String),
    After calls b → ∃ accepted q' b',
      accepted = A.cancelOrder (callsFor symbolOf (symbolOf clientOrderId) calls) clientOrderId ∧
      (B.cancelOrder clientOrderId).run (q, b) = .returned accepted (q', b') ∧
      After (calls ++ [.cancelOrder clientOrderId accepted]) b'
  submitOrder : ∀ {calls b} (q : List TradeConfirmationMessage) (clientOrderId symbol : String)
      (quantity : ℤ) (sideIsBuy : Bool) (orderType : String) (price : Option PyFloat),
    After calls b → ∃ bOrdId q' b',
      bOrdId = A.submitOrder (callsFor symbolOf symbol calls) clientOrderId symbol quantity
        sideIsBuy orderType price ∧
      (B.submitOrder clientOrderId symbol quantity sideIsBuy orderType price).run (q, b) =
        .returned bOrdId (q', b') ∧
      After (calls ++ [.submitOrder clientOrderId symbol quantity sideIsBuy orderType price bOrdId]) b'

/-- What the position manager holds of a symbol. -/
def stateOf (symbolOf : String → String) (s : String) (w : World (β × List RecordedCall)) :
    SymbolState where
  position := w.pm.positions.getD s 0
  targetPosition := w.pm.targetPositions.getD s 0
  ids := w.pm.liveOrdersBySymbol.lookup s
  orders := fun id => (w.pm.liveOrders.lookup id).filter fun o => decide (o.symbol = s)
  calls := callsFor symbolOf s w.broker.2

/-- The containers are in step, the ids of live orders follow the convention, and the broker has
had the calls recorded. -/
structure Sound (symbolOf : String → String) (After : List RecordedCall → β → Prop)
    (w : World (β × List RecordedCall)) : Prop where
  consistent : w.pm.Consistent
  symbolOf : ∀ {id o}, w.pm.liveOrders.lookup id = some o → symbolOf id = o.symbol
  after : After w.broker.2 w.broker.1

/-- The dictionaries that reconciliation reads or leaves alone are as they were. -/
structure SameBooks (pm pm' : PositionManager) : Prop where
  positions : pm'.positions = pm.positions
  targetPositions : pm'.targetPositions = pm.targetPositions
  totalTradedBySymbol : pm'.totalTradedBySymbol = pm.totalTradedBySymbol

/-- Books are the same as themselves. -/
theorem SameBooks.refl (pm : PositionManager) : SameBooks pm pm := ⟨rfl, rfl, rfl⟩

/-- Books that are the same are so both ways. -/
theorem SameBooks.symm {pm pm' : PositionManager} (h : SameBooks pm pm') : SameBooks pm' pm :=
  ⟨h.1.symm, h.2.symm, h.3.symm⟩

/-- Books that are the same as the same are the same. -/
theorem SameBooks.trans {pm pm' pm'' : PositionManager} (h : SameBooks pm pm')
    (h' : SameBooks pm' pm'') : SameBooks pm pm'' :=
  ⟨h'.1.trans h.1, h'.2.trans h.2, h'.3.trans h.3⟩

/-- The state of the symbol has changed so, and of no other. -/
structure SymbolStep (symbolOf : String → String) (After : List RecordedCall → β → Prop)
    (s : String) (change : SymbolState → SymbolState) (w w' : World (β × List RecordedCall)) :
    Prop where
  sound : Sound symbolOf After w'
  books : SameBooks w.pm w'.pm
  changes : ChangesOnly (stateOf symbolOf) (fun _ => change) s w w'

/-- Nothing done is a step of every symbol. -/
theorem SymbolStep.refl (h : Sound symbolOf After w) :
    SymbolStep symbolOf After s (fun v => v) w w where
  sound := h
  books := .refl w.pm
  changes := .refl s w

/-- One step of a symbol after another is a step of it. -/
theorem SymbolStep.trans {change change' : SymbolState → SymbolState}
    (h : SymbolStep symbolOf After s change w mid)
    (h' : SymbolStep symbolOf After s change' mid w') :
    SymbolStep symbolOf After s (fun v => change' (change v)) w w' where
  sound := h'.sound
  books := h.books.trans h'.books
  changes := h.changes.trans h'.changes

/-- A step whose change is another one on the state of the symbol. -/
theorem SymbolStep.congr {change change' : SymbolState → SymbolState}
    (h : SymbolStep symbolOf After s change w w')
    (heq : change (stateOf symbolOf s w) = change' (stateOf symbolOf s w)) :
    SymbolStep symbolOf After s change' w w' where
  sound := h.sound
  books := h.books
  changes := by
    intro k
    rw [h.changes k]
    show (if k = s then change _ else _) = if k = s then change' _ else _
    rw [heq]

/-! ## The parts of a step -/

/-- A listed id has its order in the state of its symbol. -/
theorem orders_of_mem (hw : w.pm.Consistent) {id : String} (hid : id ∈ w.pm.index s) :
    (stateOf symbolOf s w).orders id = w.pm.liveOrders.lookup id := by
  rcases hlookup : w.pm.liveOrders.lookup id with _ | o
  · simp [stateOf, hlookup]
  · simp [stateOf, hlookup, hw.symbol hid hlookup]

/-- The working position shows in the state of the symbol. -/
theorem workingPosition_stateOf (hw : w.pm.Consistent) :
    (stateOf symbolOf s w).workingPosition = calculateWorkingPosition w.pm s := by
  rw [calculateWorkingPosition_eq]
  have hopen : ∀ id ∈ w.pm.index s, (stateOf symbolOf s w).openOf id = w.pm.openOf id := by
    intro id hid
    rw [SymbolState.openOf, orders_of_mem hw hid, PositionManager.openOf]
    rcases w.pm.liveOrders.lookup id with _ | o <;> rfl
  exact congrArg (fun l => w.pm.positions.getD s 0 + l.sum) (List.map_congr_left hopen)

/-- A call for a symbol is added to the calls of that symbol. -/
theorem changesOnly_call {call : RecordedCall} (hcall : call.symbol symbolOf = s)
    (q : List TradeConfirmationMessage) (b : β) :
    ChangesOnly (stateOf symbolOf) (fun _ v => v.addCall call) s w
      ⟨{ w.pm with tradeConfirmationsQ := q }, b, w.broker.2 ++ [call]⟩ := by
  intro k
  by_cases hk : k = s
  · subst hk
    simp [stateOf, SymbolState.addCall, callsFor_append_self hcall]
  · have hne : call.symbol symbolOf ≠ k := fun h => hk (h.symm.trans hcall)
    simp [stateOf, callsFor_append_of_ne hne, hk]

variable (w) in
/-- An order of the symbol is written, where none or one of the symbol was. -/
theorem changesOnly_setLiveOrder {id : String} {order : OrderDetails} (hsymbol : order.symbol = s)
    (hbefore : ∀ o, w.pm.liveOrders.lookup id = some o → o.symbol = s) :
    ChangesOnly (stateOf symbolOf) (fun _ v => v.setOrder id order) s w
      ⟨w.pm.setLiveOrder id order, w.broker⟩ := by
  intro k
  by_cases hk : k = s
  · subst hk
    rw [if_pos rfl]
    simp only [stateOf, SymbolState.setOrder, PositionManager.setLiveOrder,
      Dict.lookup_insert_ite, SymbolState.mk.injEq, and_true, true_and]
    funext id'
    by_cases hid : id' = id
    · subst hid
      simp [hsymbol]
    · simp [hid]
  · simp only [stateOf, PositionManager.setLiveOrder, if_neg hk, Dict.lookup_insert_ite,
      SymbolState.mk.injEq, and_true, true_and]
    funext id'
    by_cases hid : id' = id
    · subst hid
      have hnone : (w.pm.liveOrders.lookup id').filter (fun o => decide (o.symbol = k)) = none := by
        rw [Option.filter_eq_none_iff]
        intro o ho
        simp [hbefore o ho, Ne.symm hk]
      simp [hnone, hsymbol, Ne.symm hk]
    · simp [hid]

variable (w s) in
/-- The list of the symbol is written. -/
theorem changesOnly_list (ids : List String) :
    ChangesOnly (stateOf symbolOf) (fun _ v => { v with ids := some ids }) s w
      ⟨{ w.pm with liveOrdersBySymbol := w.pm.liveOrdersBySymbol.insert s ids }, w.broker⟩ := by
  intro k
  by_cases hk : k = s
  · subst hk
    simp [stateOf]
  · simp [stateOf, hk]

/-- A call of the broker that returns. -/
theorem callBroker_step {α : Type} {method : Proc PyError (List TradeConfirmationMessage × β) α}
    {call : α → RecordedCall} {answer : α} {q : List TradeConfirmationMessage} {b : β}
    (hw : Sound symbolOf After w)
    (hrun : method.run (w.pm.tradeConfirmationsQ, w.broker.1) = .returned answer (q, b))
    (hafter : After (w.broker.2 ++ [call answer]) b) (hcall : (call answer).symbol symbolOf = s) :
    ∃ w', w' = ⟨{ w.pm with tradeConfirmationsQ := q }, b, w.broker.2 ++ [call answer]⟩ ∧
      (callBroker (record call method)).run w = .returned answer w' ∧
      SymbolStep symbolOf After s (fun v => v.addCall (call answer)) w w' := by
  have hrecord : (record call method).run (w.pm.tradeConfirmationsQ, w.broker) =
      .returned answer (q, b, w.broker.2 ++ [call answer]) := run_record_of_returned hrun
  refine ⟨_, rfl, ?_, ?_⟩
  · simp [callBroker, Proc.focus, hrecord]
  · exact ⟨⟨⟨hw.consistent.listed, hw.consistent.symbol, hw.consistent.nodup,
      hw.consistent.notTerminal⟩, hw.symbolOf, hafter⟩, ⟨rfl, rfl, rfl⟩, changesOnly_call hcall q b⟩

/-- A live order of the symbol is written again, not into a terminal status. -/
theorem setLiveOrder_step (order : OrderDetails) {id : String} {o : OrderDetails}
    (hw : Sound symbolOf After w) (hid : w.pm.liveOrders.lookup id = some o) (ho : o.symbol = s) (hsymbol : order.symbol = s)
    (hstatus : order.status.isTerminal = false) :
    SymbolStep symbolOf After s (fun v => v.setOrder id order) w
      ⟨w.pm.setLiveOrder id order, w.broker⟩ where
  sound :=
    { consistent := hw.consistent.setLiveOrder hid (hsymbol.trans ho.symm) hstatus
      symbolOf := by
        intro id' o' hlookup
        rw [setLiveOrder_lookup] at hlookup
        split_ifs at hlookup with heq
        · obtain rfl := Option.some.inj hlookup
          rw [heq, hw.symbolOf hid, ho, hsymbol]
        · exact hw.symbolOf hlookup
      after := hw.after }
  books := ⟨rfl, rfl, rfl⟩
  changes := changesOnly_setLiveOrder w hsymbol fun o' ho' => by
    rw [hid, Option.some.injEq] at ho'
    rw [← ho', ho]

/-- One id of `cancelOpposing`. -/
theorem cancelIfOpposing_step (hB : AnswersBySymbol B symbolOf A After)
    (hw : Sound symbolOf After w) (buying : Bool) {id : String} (hid : id ∈ w.pm.index s) :
    ∃ w', (cancelIfOpposing (recording B) buying id).run w = .returned () w' ∧
      SymbolStep symbolOf After s (fun v => v.cancelIfOpposing A buying id) w w' := by
  have horders : (stateOf symbolOf s w).orders id = w.pm.liveOrders.lookup id :=
    orders_of_mem hw.consistent hid
  rcases hlookup : w.pm.liveOrders.lookup id with _ | order
  · refine ⟨w, by simp [cancelIfOpposing, hlookup], (SymbolStep.refl hw).congr ?_⟩
    simp [SymbolState.cancelIfOpposing, horders, hlookup]
  by_cases hopp : opposes buying order = true
  · have hsymbol : order.symbol = s := hw.consistent.symbol hid hlookup
    have hsymbolOf : symbolOf id = s := (hw.symbolOf hlookup).trans hsymbol
    obtain ⟨accepted, q, b, haccepted, hmethod, hafter⟩ :=
      hB.cancelOrder w.pm.tradeConfirmationsQ id hw.after
    rw [hsymbolOf] at haccepted
    have hanswer : A.cancelOrder (stateOf symbolOf s w).calls id = accepted := haccepted.symm
    have hcall : RecordedCall.symbol symbolOf (.cancelOrder id accepted) = s := hsymbolOf
    obtain ⟨w₁, rfl, hrun, hasked⟩ := callBroker_step hw hmethod hafter hcall
    rcases accepted with _ | _
    · refine ⟨_, ?_, hasked.congr ?_⟩
      · simp [cancelIfOpposing, recording, hlookup, hopp, hrun]
      · simp [SymbolState.cancelIfOpposing, horders, hlookup, hopp, hanswer]
    · have hmark := setLiveOrder_step { order with status := .PENDING_CANCEL } hasked.sound
        hlookup hsymbol hsymbol rfl
      refine ⟨_, ?_, (hasked.trans hmark).congr ?_⟩
      · simp [cancelIfOpposing, recording, hlookup, hopp, hrun, modifyPm]
      · simp [SymbolState.cancelIfOpposing, horders, hlookup, hopp, hanswer]
  · refine ⟨w, by simp [cancelIfOpposing, hlookup, hopp], (SymbolStep.refl hw).congr ?_⟩
    simp [SymbolState.cancelIfOpposing, horders, hlookup, hopp]

/-- **The cancels of a symbol** are a step of it. -/
theorem cancelOpposing_step (hB : AnswersBySymbol B symbolOf A After) (buying : Bool)
    (ids : List String) (hw : Sound symbolOf After w) (hids : ∀ id ∈ ids, id ∈ w.pm.index s) :
    ∃ w', (cancelOpposing (recording B) buying ids).run w = .returned () w' ∧
      SymbolStep symbolOf After s (fun v => v.cancelOpposing A buying ids) w w' := by
  induction ids generalizing w with
  | nil => exact ⟨w, rfl, SymbolStep.refl hw⟩
  | cons id rest ih =>
      obtain ⟨w₁, hrun₁, hstep₁⟩ := cancelIfOpposing_step hB hw buying (hids id List.mem_cons_self)
      have hindex := (Proc.wp.returned (leaves_cancelIfOpposing (recording B) buying id w) hrun₁).index s
      obtain ⟨w₂, hrun₂, hstep₂⟩ := ih hstep₁.sound fun id' hid' => by
        rw [hindex]
        exact hids id' (List.mem_cons_of_mem _ hid')
      refine ⟨w₂, ?_, hstep₁.trans hstep₂⟩
      simp [cancelOpposing, hrun₁, hrun₂]

/-- A new order of the symbol is put into both containers. -/
theorem track_step (hw : Sound symbolOf After w) {newId : String} (hnew : Fresh w.pm newId)
    (hsymbolOf : symbolOf newId = s) (quantity : ℤ) (buying : Bool) :
    SymbolStep symbolOf After s
      (fun v => { v with ids := some (v.index ++ [newId]) }.setOrder newId
        (newOrder newId s quantity buying)) w
      ⟨w.pm.track (newOrder newId s quantity buying), w.broker⟩ where
  sound :=
    { consistent := (placed_track _).consistent hnew rfl hw.consistent
      symbolOf := by
        intro id o hlookup
        rw [PositionManager.track, Dict.lookup_insert_ite] at hlookup
        split_ifs at hlookup with heq
        · obtain rfl := Option.some.inj hlookup
          rw [heq]
          exact hsymbolOf
        · exact hw.symbolOf hlookup
      after := hw.after }
  books := ⟨rfl, rfl, rfl⟩
  changes := by
    let listed : World (β × List RecordedCall) := ⟨{ w.pm with
      liveOrdersBySymbol := w.pm.liveOrdersBySymbol.insert s (w.pm.index s ++ [newId]) }, w.broker⟩
    have horder : ∀ o, listed.pm.liveOrders.lookup newId = some o → o.symbol = s := by
      intro o ho
      exact absurd (hnew.1.symm.trans ho) (by simp)
    exact (changesOnly_list w s (w.pm.index s ++ [newId])).trans
      (changesOnly_setLiveOrder listed rfl horder)

/-- The new order is submitted, and carries the broker's id if the broker answers one. -/
theorem placeNew_step (hB : AnswersBySymbol B symbolOf A After) (hw : Sound symbolOf After w)
    {newId : String} (hnew : Fresh w.pm newId) (hsymbolOf : symbolOf newId = s) (quantity : ℤ)
    (buying : Bool) :
    ∃ w', (placeNew (recording B) s newId quantity buying).run w = .returned () w' ∧
      SymbolStep symbolOf After s (fun v => v.placeNew A s newId quantity buying) w w' := by
  have htrack := track_step hw hnew hsymbolOf quantity buying
  obtain ⟨bOrdId, q, b, hanswer, hmethod, hafter⟩ := hB.submitOrder w.pm.tradeConfirmationsQ newId s
    quantity buying "MARKET" none hw.after
  have hcall : RecordedCall.symbol symbolOf
    (.submitOrder newId s quantity buying "MARKET" none bOrdId) = s := rfl
  obtain ⟨w₁, rfl, hrun, hasked⟩ := callBroker_step htrack.sound hmethod hafter hcall
  have hlookup : (w.pm.track (newOrder newId s quantity buying)).liveOrders.lookup newId =
      some (newOrder newId s quantity buying) :=
    (Dict.lookup_insert_ite _ _ _ _).trans (if_pos rfl)
  have hanswer' : A.submitOrder (stateOf symbolOf s w).calls newId s quantity buying "MARKET" none =
    bOrdId := hanswer.symm
  rcases bOrdId with _ | bOrdId
  · refine ⟨_, ?_, (htrack.trans hasked).congr ?_⟩
    · simp [placeNew, recording, modifyPm, hrun]
    · simp [SymbolState.placeNew, hanswer', SymbolState.addCall, SymbolState.setOrder, newOrder,
        SymbolState.index]
  · have hset := setLiveOrder_step { newOrder newId s quantity buying with brokerOrderId := bOrdId }
      hasked.sound hlookup rfl rfl rfl
    refine ⟨_, ?_, ((htrack.trans hasked).trans hset).congr ?_⟩
    · simp [placeNew, recording, modifyPm, hrun, hlookup]
    · simp [SymbolState.placeNew, hanswer', SymbolState.addCall, SymbolState.setOrder, newOrder,
        SymbolState.index]

/-- **Reconciling a symbol is a step of that symbol**: it returns, changes the state of the symbol
as `SymbolState.reconcile` says, and leaves every other symbol. -/
theorem reconcileSymbol_step (hB : AnswersBySymbol B symbolOf A After) (hw : Sound symbolOf After w)
    {newId : String} (hnew : Fresh w.pm newId) (hsymbolOf : symbolOf newId = s) :
    ∃ w', (reconcileSymbol (recording B) s newId).run w = .returned () w' ∧
      SymbolStep symbolOf After s (fun v => v.reconcile A s newId) w w' := by
  have hworking : (stateOf symbolOf s w).workingPosition = calculateWorkingPosition w.pm s :=
    workingPosition_stateOf hw.consistent
  have hpart : ∀ (buying : Bool) (quantity : ℤ), ∃ w',
      (do cancelOpposing (recording B) buying (w.pm.index s)
          placeNew (recording B) s newId quantity buying).run w = .returned () w' ∧
      SymbolStep symbolOf After s (fun v => (v.cancelOpposing A buying v.index).placeNew A s newId
        quantity buying) w w' := by
    intro buying quantity
    obtain ⟨w₁, hrun₁, hstep₁⟩ := cancelOpposing_step hB buying (w.pm.index s) hw fun _ h => h
    have hfresh : Fresh w₁.pm newId := (cancelOpposing_returned hrun₁).fresh hnew
    obtain ⟨w₂, hrun₂, hstep₂⟩ := placeNew_step hB hstep₁.sound hfresh hsymbolOf quantity buying
    refine ⟨w₂, ?_, (hstep₁.trans hstep₂).congr rfl⟩
    simp [hrun₁, hrun₂]
  obtain ⟨delta, hdelta⟩ : ∃ delta, delta =
    w.pm.targetPositions.getD s 0 - calculateWorkingPosition w.pm s := ⟨_, rfl⟩
  have hdelta' : (stateOf symbolOf s w).targetPosition - (stateOf symbolOf s w).workingPosition =
      delta := by
    rw [hworking, hdelta]
    rfl
  by_cases hzero : delta = 0
  · refine ⟨w, ?_, (SymbolStep.refl hw).congr ?_⟩
    · simp [reconcileSymbol, ← hdelta, hzero]
    · simp [SymbolState.reconcile, hdelta', hzero]
  by_cases hpos : 0 < delta
  · obtain ⟨w', hrun, hstep⟩ := hpart true |delta|
    refine ⟨w', ?_, hstep.congr ?_⟩
    · simpa [reconcileSymbol, -Int.sub_pos, -sub_pos, ← hdelta, hzero, hpos] using hrun
    · simp [SymbolState.reconcile, hdelta', hzero, hpos]
  · obtain ⟨w', hrun, hstep⟩ := hpart false |delta|
    refine ⟨w', ?_, hstep.congr ?_⟩
    · simpa [reconcileSymbol, -Int.sub_pos, -sub_pos, ← hdelta, hzero, hpos] using hrun
    · simp [SymbolState.reconcile, hdelta', hzero, hpos]

end refinement

end FlowManager.Position
