import FlowManager.PositionManager.PerSymbol

/-!
# Reconciliation is independent per symbol

Python iterates a set of strings in an order that differs from process to process. For a broker
whose answers depend on the calls for the same symbol only, the order makes no difference to what
`_reconcile_positions` leaves, nor to the calls for any symbol, and neither does cutting the set
into several calls (`reconcileCalls_independent`): each symbol takes one step of its own, which no
other symbol sees. The id that is generated for a symbol is taken to be the same in both runs.
-/

namespace FlowManager.Position

open FlowManager.Lib FlowManager.Broker

variable {β : Type} {B : Broker β} {symbolOf : String → String} {A : Answers}
  {After : List RecordedCall → β → Prop} {w w₁ w₂ : World (β × List RecordedCall)}

/-- `_reconcile_positions` for the symbols of a list, each with the id that is generated for it. -/
def reconcileSymbols (B : Broker β) (newId : String → String) (symbols : List String) :
    Proc PyError (World β) Unit :=
  reconcilePositions B (symbols.map fun s => (s, newId s))

/-- Successive calls of `_reconcile_positions`. -/
def reconcileCalls (B : Broker β) (newId : String → String) :
    List (List String) → Proc PyError (World β) Unit
  | [] => pure ()
  | symbols :: rest => do
      reconcileSymbols B newId symbols
      reconcileCalls B newId rest

/-- On the recording broker the calls run as on the broker. -/
theorem runsAs_reconcileCalls (B : Broker β) (newId : String → String)
    (calls : List (List String)) :
    Proc.RunsAs forgetCalls (reconcileCalls (recording B) newId calls)
      (reconcileCalls B newId calls) := by
  induction calls with
  | nil => exact Proc.runsAs_pure ()
  | cons symbols rest ih => exact (runsAs_reconcilePositions B _).bind fun _ => ih

/-- The ids that will be generated: new, and of the symbol they are for. -/
def NewIds (symbolOf newId : String → String) (symbols : List String) (pm : PositionManager) :
    Prop :=
  ∀ s ∈ symbols, Fresh pm (newId s) ∧ symbolOf (newId s) = s

/-- One step for each symbol of a list. -/
def SymbolSteps (symbolOf : String → String) (After : List RecordedCall → β → Prop) (A : Answers)
    (newId : String → String) : List String → World (β × List RecordedCall) →
      World (β × List RecordedCall) → Prop :=
  Steps fun s => SymbolStep symbolOf After s fun v => v.reconcile A s (newId s)

section steps

variable {newId : String → String} {symbols symbols' : List String}

/-- Reconciling symbols leaves the positions and the targets. -/
theorem SymbolSteps.books (h : SymbolSteps symbolOf After A newId symbols w w₁) :
    SameBooks w.pm w₁.pm := by
  induction h with
  | nil w => exact .refl w.pm
  | cons hstep _ ih => exact hstep.books.trans ih

/-- A step of a symbol changes its state and no other. -/
theorem changesOnly_of_symbolStep (s : String) (w w' : World (β × List RecordedCall))
    (h : SymbolStep symbolOf After s (fun v => v.reconcile A s (newId s)) w w') :
    ChangesOnly (stateOf symbolOf) (fun s v => v.reconcile A s (newId s)) s w w' :=
  fun s' => h.changes s'

/-- The order of the symbols makes no difference to the state of any symbol. -/
theorem SymbolSteps.stateOf_congr (h : SymbolSteps symbolOf After A newId symbols w w₁)
    (h' : SymbolSteps symbolOf After A newId symbols' w w₂) (hnodup : symbols.Nodup)
    (hnodup' : symbols'.Nodup) (hmem : ∀ s, s ∈ symbols ↔ s ∈ symbols') (s : String) :
    stateOf symbolOf s w₁ = stateOf symbolOf s w₂ :=
  Steps.view_congr changesOnly_of_symbolStep h h' hnodup hnodup' hmem s

/-- A symbol that is not reconciled keeps its state. -/
theorem SymbolSteps.stateOf_of_notMem (h : SymbolSteps symbolOf After A newId symbols w w₁)
    (hnodup : symbols.Nodup) {s : String} (hs : s ∉ symbols) :
    stateOf symbolOf s w₁ = stateOf symbolOf s w :=
  (Steps.view_eq changesOnly_of_symbolStep h hnodup s).trans (if_neg hs)

end steps

/-- A call does the steps of its symbols, one after the other. -/
theorem reconcileSymbols_steps (hB : AnswersBySymbol B symbolOf A After) {newId : String → String}
    (symbols later : List String) (hw : Sound symbolOf After w)
    (hnodup : (symbols ++ later).Nodup) (hnew : NewIds symbolOf newId (symbols ++ later) w.pm) :
    ∃ w', (reconcileSymbols (recording B) newId symbols).run w = .returned () w' ∧
      Sound symbolOf After w' ∧ NewIds symbolOf newId later w'.pm ∧
      SymbolSteps symbolOf After A newId symbols w w' := by
  induction symbols generalizing w with
  | nil => exact ⟨w, rfl, hw, hnew, .nil w⟩
  | cons s rest ih =>
      obtain ⟨hnot, hrest⟩ := List.nodup_cons.mp hnodup
      obtain ⟨hfresh, hsymbolOf⟩ := hnew s List.mem_cons_self
      obtain ⟨w₁, hrun₁, hstep₁⟩ := reconcileSymbol_step hB hw hfresh hsymbolOf
      have hnew₁ : NewIds symbolOf newId (rest ++ later) w₁.pm := by
        intro s' hs'
        obtain ⟨hfresh', hsymbolOf'⟩ := hnew s' (List.mem_cons_of_mem _ hs')
        refine ⟨(reconcileSymbol_returned hrun₁).fresh_of_ne hfresh' ?_, hsymbolOf'⟩
        rintro heq
        rw [heq, hsymbolOf] at hsymbolOf'
        exact hnot (hsymbolOf' ▸ hs')
      obtain ⟨w₂, hrun₂, hsound₂, hnew₂, hsteps₂⟩ := ih hstep₁.sound hrest hnew₁
      refine ⟨w₂, ?_, hsound₂, hnew₂, .cons hstep₁ hsteps₂⟩
      rw [reconcileSymbols, List.map_cons, reconcilePositions, Proc.run_bind, hrun₁]
      exact hrun₂

/-- So do successive calls: they are one call for all the symbols. -/
theorem reconcileCalls_steps (hB : AnswersBySymbol B symbolOf A After) {newId : String → String}
    (calls : List (List String)) (hw : Sound symbolOf After w) (hnodup : calls.flatten.Nodup)
    (hnew : NewIds symbolOf newId calls.flatten w.pm) :
    ∃ w', (reconcileCalls (recording B) newId calls).run w = .returned () w' ∧
      SymbolSteps symbolOf After A newId calls.flatten w w' := by
  induction calls generalizing w with
  | nil => exact ⟨w, rfl, .nil w⟩
  | cons symbols rest ih =>
      rw [List.flatten_cons] at hnodup hnew
      obtain ⟨w₁, hrun₁, hsound₁, hnew₁, hsteps₁⟩ :=
        reconcileSymbols_steps hB symbols rest.flatten hw hnodup hnew
      obtain ⟨w₂, hrun₂, hsteps₂⟩ := ih hsound₁ (List.nodup_append.mp hnodup).2.1 hnew₁
      refine ⟨w₂, ?_, hsteps₁.append hsteps₂⟩
      simp [reconcileCalls, hrun₁, hrun₂]

/-! ## The result -/

/-- An order of iteration of the set, cut into calls. -/
def Partitions (S : Finset String) (calls : List (List String)) : Prop :=
  calls.flatten.Nodup ∧ ∀ s, s ∈ calls.flatten ↔ s ∈ S

/-- A live order is in the state of its symbol. -/
theorem lookup_eq_some_iff {id : String} {o : OrderDetails} :
    w.pm.liveOrders.lookup id = some o ↔ (stateOf symbolOf o.symbol w).orders id = some o := by
  simp [stateOf, Option.filter_eq_some_iff]

/-- The states of the symbols determine the live orders. -/
theorem liveOrders_eq (h : ∀ s, stateOf symbolOf s w₁ = stateOf symbolOf s w₂) :
    w₁.pm.liveOrders = w₂.pm.liveOrders := by
  apply Finmap.ext_lookup
  intro id
  apply Option.ext
  intro o
  rw [lookup_eq_some_iff, lookup_eq_some_iff, h]

/-- The states of the symbols determine their lists. -/
theorem liveOrdersBySymbol_eq (h : ∀ s, stateOf symbolOf s w₁ = stateOf symbolOf s w₂) :
    w₁.pm.liveOrdersBySymbol = w₂.pm.liveOrdersBySymbol :=
  Finmap.ext_lookup fun s => congrArg SymbolState.ids (h s)

/-- Every dictionary of the position manager is the same. -/
structure SameMaps (pm pm' : PositionManager) : Prop where
  books : SameBooks pm pm'
  liveOrders : pm'.liveOrders = pm.liveOrders
  liveOrdersBySymbol : pm'.liveOrdersBySymbol = pm.liveOrdersBySymbol

/-- **Reconciliation is independent per symbol.** For a broker whose answers depend on the calls for
the same symbol only, and from any state with the containers in step, every order in which the set
is iterated, cut into calls in any way, leaves the same dictionaries and makes the same calls for
each symbol. Positions, targets and traded totals stay, and of a symbol outside the set everything
does. -/
theorem reconcileCalls_independent (hB : AnswersBySymbol B symbolOf A After)
    (hw : Sound symbolOf After w) {newId : String → String} {S : Finset String}
    (hnew : ∀ s ∈ S, Fresh w.pm (newId s) ∧ symbolOf (newId s) = s)
    {calls calls' : List (List String)} (hcalls : Partitions S calls) (hcalls' : Partitions S calls') :
    ∃ w₁ w₂, (reconcileCalls (recording B) newId calls).run w = .returned () w₁ ∧
      (reconcileCalls (recording B) newId calls').run w = .returned () w₂ ∧
      SameMaps w₁.pm w₂.pm ∧
      (∀ s, callsFor symbolOf s w₁.broker.2 = callsFor symbolOf s w₂.broker.2) ∧
      SameBooks w.pm w₁.pm ∧
      ∀ s ∉ S, w₁.pm.liveOrdersBySymbol.lookup s = w.pm.liveOrdersBySymbol.lookup s ∧
        (∀ id o, o.symbol = s →
          (w₁.pm.liveOrders.lookup id = some o ↔ w.pm.liveOrders.lookup id = some o)) ∧
        callsFor symbolOf s w₁.broker.2 = callsFor symbolOf s w.broker.2 := by
  obtain ⟨hnodup, hmem⟩ := hcalls
  obtain ⟨hnodup', hmem'⟩ := hcalls'
  obtain ⟨w₁, hrun₁, hsteps₁⟩ :=
    reconcileCalls_steps hB calls hw hnodup fun s hs => hnew s ((hmem s).mp hs)
  obtain ⟨w₂, hrun₂, hsteps₂⟩ :=
    reconcileCalls_steps hB calls' hw hnodup' fun s hs => hnew s ((hmem' s).mp hs)
  have hsame : ∀ s, stateOf symbolOf s w₁ = stateOf symbolOf s w₂ :=
    hsteps₁.stateOf_congr hsteps₂ hnodup hnodup' fun s => (hmem s).trans (hmem' s).symm
  have hbooks : SameBooks w₁.pm w₂.pm := hsteps₁.books.symm.trans hsteps₂.books
  have hmaps : SameMaps w₁.pm w₂.pm :=
    ⟨hbooks, (liveOrders_eq hsame).symm, (liveOrdersBySymbol_eq hsame).symm⟩
  refine ⟨w₁, w₂, hrun₁, hrun₂, hmaps, fun s => congrArg SymbolState.calls (hsame s),
    hsteps₁.books, ?_⟩
  intro s hs
  have hstate : stateOf symbolOf s w₁ = stateOf symbolOf s w :=
    hsteps₁.stateOf_of_notMem hnodup fun h => hs ((hmem s).mp h)
  refine ⟨congrArg SymbolState.ids hstate, ?_, congrArg SymbolState.calls hstate⟩
  rintro id o rfl
  rw [lookup_eq_some_iff, lookup_eq_some_iff, hstate]

/-- A broker that accepts every request and numbers the orders of each symbol. -/
def numberingBroker : Broker (String → ℤ) where
  cancelOrder _ := pure true
  submitOrder _ symbol _ _ _ _ := do
    let (_, last) ← Proc.get
    Proc.modify fun (q, _) => (q, Function.update last symbol (last symbol + 1))
    pure (some (last symbol + 1))

/-- The call submits an order. -/
def RecordedCall.submits : RecordedCall → Bool
  | .cancelOrder _ _ => false
  | .submitOrder _ _ _ _ _ _ _ => true

/-- What it answers: the number of orders submitted for the symbol. -/
def numberingAnswers : Answers where
  cancelOrder _ _ := true
  submitOrder calls _ _ _ _ _ _ := some ((calls.filter RecordedCall.submits).length + 1)

/-- Its state is the number of orders submitted for each symbol. -/
def NumberedAfter (symbolOf : String → String) (calls : List RecordedCall) (last : String → ℤ) :
    Prop :=
  ∀ s, last s = ((callsFor symbolOf s calls).filter RecordedCall.submits).length

/-- How many submissions for a symbol there are after one more call. -/
theorem length_submits_append (symbolOf : String → String) (s : String)
    (calls : List RecordedCall) (call : RecordedCall) :
    ((callsFor symbolOf s (calls ++ [call])).filter RecordedCall.submits).length =
      ((callsFor symbolOf s calls).filter RecordedCall.submits).length +
        if call.symbol symbolOf = s ∧ call.submits then 1 else 0 := by
  by_cases hs : call.symbol symbolOf = s
  · by_cases hsubmits : call.submits
    · simp [callsFor_append_self hs, hs, hsubmits]
    · simp [callsFor_append_self hs, hsubmits]
  · simp [callsFor_append_of_ne hs, hs]

/-- The broker that numbers the orders of each symbol answers by the symbol. -/
theorem answersBySymbol_numberingBroker (symbolOf : String → String) :
    AnswersBySymbol numberingBroker symbolOf numberingAnswers (NumberedAfter symbolOf) where
  cancelOrder {calls last} q id hafter := by
    refine ⟨true, q, last, rfl, rfl, fun s => ?_⟩
    simp [hafter s, length_submits_append, RecordedCall.submits]
  submitOrder {calls last} q id symbol quantity sideIsBuy orderType price hafter := by
    refine ⟨some (last symbol + 1), q, Function.update last symbol (last symbol + 1), ?_, rfl,
      fun s => ?_⟩
    · simp [numberingAnswers, hafter symbol]
    · rw [length_submits_append]
      by_cases hs : s = symbol
      · simp [hs, hafter symbol, RecordedCall.symbol, RecordedCall.submits]
      · simp [hs, hafter s, RecordedCall.symbol, Ne.symm hs]

/-- A sell order of `AMD` is live, and both symbols are off their targets. -/
def offTarget : PositionManager :=
  { PositionManager.init.track (newOrder "old" "AMD" 10 false) with
    targetPositions := (Finmap.singleton "AMD" 20).insert "IBM" (-5) }

/-- The ids that are generated. -/
def idFor (symbol : String) : String := if symbol = "AMD" then "amd" else "ibm"

/-- The symbols of the ids. -/
def symbolOfId (clientOrdId : String) : String := if clientOrdId = "ibm" then "IBM" else "AMD"

/-- Two symbols are off target and nothing has been asked for. -/
theorem sound_offTarget :
    Sound symbolOfId (NumberedAfter symbolOfId) ⟨offTarget, fun _ => 0, []⟩ where
  consistent := by
    have htracked : (PositionManager.init.track (newOrder "old" "AMD" 10 false)).Consistent :=
      (placed_track _).consistent ⟨rfl, fun _ => List.not_mem_nil⟩ rfl consistent_init
    exact ⟨htracked.listed, htracked.symbol, htracked.nodup, htracked.notTerminal⟩
  symbolOf := by
    intro id o hlookup
    have hlookup' : (if id = "old" then some (newOrder "old" "AMD" 10 false) else none) = some o :=
      (Dict.lookup_insert_ite _ _ _ _).symm.trans hlookup
    split_ifs at hlookup' with hid
    obtain rfl := Option.some.inj hlookup'
    rw [hid]
    rfl
  after := fun _ => rfl

/-- The ids of the witness are new, and of the symbols they are for. -/
theorem newIds_offTarget {s : String} (hs : s ∈ ({"AMD", "IBM"} : Finset String)) :
    Fresh offTarget (idFor s) ∧ symbolOfId (idFor s) = s := by
  have hindex : ∀ k, offTarget.index k = if k = "AMD" then ["old"] else [] := fun k =>
    Dict.getD_insert_ite _ _ _ _ _
  rw [Finset.mem_insert, Finset.mem_singleton] at hs
  rcases hs with rfl | rfl
  · refine ⟨⟨by decide, fun k => ?_⟩, rfl⟩
    rw [hindex]
    split_ifs <;> decide
  · refine ⟨⟨by decide, fun k => ?_⟩, rfl⟩
    rw [hindex]
    split_ifs <;> decide

/-- Two symbols in one call, or in two calls the other way round. -/
theorem reconcileCalls_independent_two_symbols :
    ∃ w₁ w₂, (reconcileCalls (recording numberingBroker) idFor [["AMD", "IBM"]]).run
        ⟨offTarget, fun _ => 0, []⟩ = .returned () w₁ ∧
      (reconcileCalls (recording numberingBroker) idFor [["IBM"], ["AMD"]]).run
        ⟨offTarget, fun _ => 0, []⟩ = .returned () w₂ ∧
      SameMaps w₁.pm w₂.pm := by
  have hone : Partitions {"AMD", "IBM"} [["AMD", "IBM"]] := ⟨by decide, by simp⟩
  have htwo : Partitions {"AMD", "IBM"} [["IBM"], ["AMD"]] := ⟨by decide, by simp [or_comm]⟩
  obtain ⟨w₁, w₂, hrun₁, hrun₂, hmaps, -⟩ := reconcileCalls_independent
    (answersBySymbol_numberingBroker symbolOfId) sound_offTarget (fun _ => newIds_offTarget) hone htwo
  exact ⟨w₁, w₂, hrun₁, hrun₂, hmaps⟩

end FlowManager.Position
