import FlowManager.PositionManager.Consistency
import Mathlib.Logic.Relation

/-!
# The loop of the position manager

`PositionManager.run` repeats three phases: take confirmations until their queue is empty, take
target updates until theirs is empty, reconcile the affected symbols. `LoopStep` is one step of
it: something arrives in a queue, in any phase; one element is taken; a phase ends; one symbol is
reconciled. The broker `B` answers what it likes, a call may put confirmations into the queue, and
a call that raises or never returns is a step the loop does not make.

`Allowed` is what is assumed of a confirmation when it is taken. The loop invariant is that the
containers are consistent and that every symbol which is not waiting to be reconciled has its
working position on its target; a phase ends with the set the next one needs.
-/

namespace FlowManager.Position

open FlowManager.Lib FlowManager.Broker

/-- Where the loop is, with the symbols it has collected or has left.
Source: `position_manager.py`, `PositionManager.run` -/
inductive Phase where
  /-- In `_process_trade_confirmations`. -/
  | confirmations (symbolsAffected : Finset String)
  /-- In `_process_target_updates`. -/
  | targets (symbolsFromTrades symbolsAffected : Finset String)
  /-- In `_reconcile_positions`. -/
  | reconciling (symbolsLeft : Finset String)

/-- The symbols that are waiting to be reconciled. -/
def Phase.waiting : Phase → Finset String
  | .confirmations symbolsAffected => symbolsAffected
  | .targets symbolsFromTrades symbolsAffected => symbolsFromTrades ∪ symbolsAffected
  | .reconciling symbolsLeft => symbolsLeft

/-- The loop with the states it runs on. -/
structure Config (β : Type) where
  phase : Phase
  world : World β

/-- One step of the loop, or of the threads that put into its queues.
Source: `position_manager.py`, `PositionManager.run` -/
inductive LoopStep {β : Type} (B : Broker β)
    (Allowed : TradeConfirmationMessage → PositionManager → Prop) : Config β → Config β → Prop
  /-- The broker reports a confirmation, on a thread of its own. -/
  | confirmationArrives (phase : Phase) (pm : PositionManager) (b b' : β)
      (conf : TradeConfirmationMessage) :
      LoopStep B Allowed ⟨phase, pm, b⟩ ⟨phase, tradeConfirmationCallback conf pm, b'⟩
  /-- A target is set. -/
  | targetArrives (phase : Phase) (pm : PositionManager) (b : β) (symbol : String)
      (targetAmount : ℤ) :
      LoopStep B Allowed ⟨phase, pm, b⟩ ⟨phase, updateTargetPosition symbol targetAmount pm, b⟩
  | takeConfirmation {conf : TradeConfirmationMessage} {rest : List TradeConfirmationMessage}
      (affected : Finset String) (pm : PositionManager) (b : β) :
      pm.tradeConfirmationsQ = conf :: rest → Allowed conf pm →
      LoopStep B Allowed ⟨.confirmations affected, pm, b⟩
        ⟨.confirmations (insert conf.symbol affected),
          processConfirmation conf { pm with tradeConfirmationsQ := rest }, b⟩
  | confirmationsDone (affected : Finset String) (pm : PositionManager) (b : β) :
      pm.tradeConfirmationsQ = [] →
      LoopStep B Allowed ⟨.confirmations affected, pm, b⟩ ⟨.targets affected ∅, pm, b⟩
  | takeTarget {update : String × ℤ} {rest : List (String × ℤ)} (fromTrades affected : Finset String)
      (pm : PositionManager) (b : β) :
      pm.targetUpdatesQ = update :: rest →
      LoopStep B Allowed ⟨.targets fromTrades affected, pm, b⟩
        ⟨.targets fromTrades (insert update.1 affected),
          processTargetUpdate update { pm with targetUpdatesQ := rest }, b⟩
  | targetsDone (fromTrades affected : Finset String) (pm : PositionManager) (b : β) :
      pm.targetUpdatesQ = [] →
      LoopStep B Allowed ⟨.targets fromTrades affected, pm, b⟩
        ⟨.reconciling (fromTrades ∪ affected), pm, b⟩
  | reconcile {w w' : World β} {left : Finset String} (symbol newId : String) :
      symbol ∈ left → Fresh w.pm newId →
      (reconcileSymbol B symbol newId).run w = .returned () w' →
      LoopStep B Allowed ⟨.reconciling left, w⟩ ⟨.reconciling (left.erase symbol), w'⟩
  | nextIteration (w : World β) : LoopStep B Allowed ⟨.reconciling ∅, w⟩ ⟨.confirmations ∅, w⟩

/-- What a run of the loop reaches from the empty position manager. -/
def Reachable {β : Type} (B : Broker β)
    (Allowed : TradeConfirmationMessage → PositionManager → Prop) (b₀ : β) (c : Config β) : Prop :=
  Relation.ReflTransGen (LoopStep B Allowed) ⟨.confirmations ∅, .init, b₀⟩ c

/-! ## The invariant of the loop -/

/-- The working position of the symbol is its target. -/
def PositionManager.OnTarget (pm : PositionManager) (s : String) : Prop :=
  calculateWorkingPosition pm s = pm.targetPositions.getD s 0

/-- A confirmation for another symbol leaves a symbol on target. -/
theorem PositionManager.OnTarget.processConfirmation {pm : PositionManager} {s : String}
    (hon : pm.OnTarget s) (hpm : pm.Consistent) {conf : TradeConfirmationMessage}
    (hconf : CarriesSymbol conf pm) (hs : s ≠ conf.symbol) :
    (processConfirmation conf pm).OnTarget s := by
  rw [PositionManager.OnTarget, processConfirmation_targetPositions,
    calculateWorkingPosition_processConfirmation conf hpm hconf hs]
  exact hon

/-- A target for another symbol leaves a symbol on target. -/
theorem PositionManager.OnTarget.processTargetUpdate {pm : PositionManager} {s : String}
    (hon : pm.OnTarget s) {update : String × ℤ} (hs : s ≠ update.1) :
    (processTargetUpdate update pm).OnTarget s := by
  rw [PositionManager.OnTarget, calculateWorkingPosition_processTargetUpdate]
  exact hon.trans ((Dict.getD_insert_ite _ _ _ _ _).trans (if_neg hs)).symm

section run

variable {β : Type} {B : Broker β} {Allowed : TradeConfirmationMessage → PositionManager → Prop}
  {c c' : Config β} {b₀ : β}

/-- Every step keeps the containers in step, whatever confirmations are allowed. -/
theorem LoopStep.consistent (h : LoopStep B Allowed c c') (hc : c.world.pm.Consistent) :
    c'.world.pm.Consistent := by
  cases h with
  | confirmationArrives | targetArrives | confirmationsDone | targetsDone | nextIteration =>
      exact ⟨hc.listed, hc.symbol, hc.nodup, hc.notTerminal⟩
  | takeConfirmation _ pm _ _ _ =>
      exact PositionManager.Consistent.processConfirmation _
        ⟨hc.listed, hc.symbol, hc.nodup, hc.notTerminal⟩
  | takeTarget =>
      exact ⟨hc.listed, hc.symbol, hc.nodup, hc.notTerminal⟩
  | reconcile symbol newId _ hfresh hrun =>
      exact (reconcileSymbol_returned hrun).consistent hfresh hc

/-- In every state that a run reaches the books are consistent. -/
theorem Reachable.consistent (h : Reachable B Allowed b₀ c) : c.world.pm.Consistent := by
  induction h with
  | refl => exact consistent_init
  | tail _ hstep ih => exact hstep.consistent ih

/-- The loop invariant: every symbol that is not waiting is on target. -/
def Config.Settled (c : Config β) : Prop := ∀ s ∉ c.phase.waiting, c.world.pm.OnTarget s

/-- A confirmation that carries the symbol of its order makes exactly that symbol wait; so does a
target update; reconciling a symbol settles it. -/
theorem LoopStep.settled (h : LoopStep B CarriesSymbol c c') (hc : c.world.pm.Consistent)
    (hsettled : c.Settled) : c'.Settled := by
  intro s hs
  cases h with
  | confirmationArrives | targetArrives | nextIteration => exact hsettled s hs
  | takeConfirmation affected pm b _ hallowed =>
      rw [Phase.waiting, Finset.mem_insert, not_or] at hs
      have hon : pm.OnTarget s := hsettled s hs.2
      apply PositionManager.OnTarget.processConfirmation
      · exact hon
      · exact ⟨hc.listed, hc.symbol, hc.nodup, hc.notTerminal⟩
      · exact hallowed
      · exact hs.1
  | confirmationsDone affected =>
      rw [Phase.waiting, Finset.union_empty] at hs
      exact hsettled s hs
  | takeTarget fromTrades affected pm b _ =>
      rw [Phase.waiting, Finset.union_insert, Finset.mem_insert, not_or] at hs
      have hon : pm.OnTarget s := hsettled s hs.2
      apply PositionManager.OnTarget.processTargetUpdate
      · exact hon
      · exact hs.1
  | targetsDone => exact hsettled s hs
  | reconcile symbol newId hmem hfresh hrun =>
      have hrec := reconcileSymbol_returned hrun
      by_cases heq : s = symbol
      · rw [heq]
        exact hrec.calculateWorkingPosition_self hfresh
      · have hon := hsettled s fun hleft => hs (Finset.mem_erase.2 ⟨heq, hleft⟩)
        rw [PositionManager.OnTarget, hrec.targetPositions,
          hrec.calculateWorkingPosition_of_ne hfresh heq]
        exact hon

/-- **In every state that a run reaches** the symbols that are not to be reconciled are on target.
-/
theorem Reachable.settled (h : Reachable B CarriesSymbol b₀ c) : c.Settled := by
  induction h with
  | refl => exact fun s _ => rfl
  | tail hreach hstep ih => exact hstep.settled (Reachable.consistent hreach) ih

end run

/-! ## The methods of the loop as runs of steps -/

section iteration

variable {β : Type} {B : Broker β} {Allowed : TradeConfirmationMessage → PositionManager → Prop}

/-- Every confirmation of the queue is allowed when it is taken. -/
def AllowedAlong (Allowed : TradeConfirmationMessage → PositionManager → Prop) :
    List TradeConfirmationMessage → PositionManager → Prop
  | [], _ => True
  | conf :: rest, pm => Allowed conf pm ∧
      AllowedAlong Allowed rest (processConfirmation conf { pm with tradeConfirmationsQ := rest })

section drain

variable {R : Config β → Config β → Prop}

/-- Taking what the queue of confirmations holds, in any relation that has the steps of the loop
which leave the broker alone. -/
theorem drainConfirmations_rel
    (hR : ∀ {c c'}, LoopStep B Allowed c c' → c'.world.broker = c.world.broker → R c c') (b : β) :
    ∀ (q : List TradeConfirmationMessage) (affected : Finset String) (pm : PositionManager),
      pm.tradeConfirmationsQ = q → AllowedAlong Allowed q pm →
      Relation.ReflTransGen R ⟨.confirmations affected, pm, b⟩
        ⟨.targets (drainConfirmations q affected pm).1 ∅, (drainConfirmations q affected pm).2, b⟩
  | [], affected, pm, hq, _ => .single (hR (.confirmationsDone affected pm b hq) rfl)
  | conf :: rest, affected, pm, hq, hallowed => by
      apply Relation.ReflTransGen.head
      · exact hR (.takeConfirmation affected pm b hq hallowed.1) rfl
      · apply drainConfirmations_rel hR b rest
        · rw [processConfirmation_tradeConfirmationsQ]
        · exact hallowed.2

/-- The loop over the targets, as steps of any relation that has the quiet ones. -/
theorem drainTargets_rel
    (hR : ∀ {c c'}, LoopStep B Allowed c c' → c'.world.broker = c.world.broker → R c c') (b : β)
    (fromTrades : Finset String) : ∀ (q : List (String × ℤ)) (affected : Finset String)
      (pm : PositionManager), pm.targetUpdatesQ = q →
      Relation.ReflTransGen R ⟨.targets fromTrades affected, pm, b⟩
        ⟨.reconciling (fromTrades ∪ (drainTargets q affected pm).1),
          (drainTargets q affected pm).2, b⟩
  | [], affected, pm, hq => .single (hR (.targetsDone fromTrades affected pm b hq) rfl)
  | update :: rest, affected, pm, hq => by
      apply Relation.ReflTransGen.head
      · exact hR (.takeTarget fromTrades affected pm b hq) rfl
      · apply drainTargets_rel hR b fromTrades rest
        rfl

end drain

/-- The loop over the confirmations, as steps. -/
theorem steps_drainConfirmations (b : β) : ∀ (q : List TradeConfirmationMessage)
    (affected : Finset String) (pm : PositionManager), pm.tradeConfirmationsQ = q →
    AllowedAlong Allowed q pm →
    Relation.ReflTransGen (LoopStep B Allowed) ⟨.confirmations affected, pm, b⟩
      ⟨.targets (drainConfirmations q affected pm).1 ∅, (drainConfirmations q affected pm).2, b⟩ :=
  drainConfirmations_rel (fun h _ => h) b

/-- The loop over the targets, as steps. -/
theorem steps_drainTargets (b : β) (fromTrades : Finset String) : ∀ (q : List (String × ℤ))
    (affected : Finset String) (pm : PositionManager), pm.targetUpdatesQ = q →
    Relation.ReflTransGen (LoopStep B Allowed) ⟨.targets fromTrades affected, pm, b⟩
      ⟨.reconciling (fromTrades ∪ (drainTargets q affected pm).1), (drainTargets q affected pm).2, b⟩ :=
  drainTargets_rel (fun h _ => h) b fromTrades

/-- `_reconcile_positions` over any order of the set, with different fresh ids. -/
theorem steps_reconcilePositions : ∀ (xs : List (String × String)) {w w' : World β},
    (xs.map Prod.fst).Nodup → (xs.map Prod.snd).Nodup → (∀ x ∈ xs, Fresh w.pm x.2) →
    (reconcilePositions B xs).run w = .returned () w' →
    Relation.ReflTransGen (LoopStep B Allowed) ⟨.reconciling (xs.map Prod.fst).toFinset, w⟩
      ⟨.reconciling ∅, w'⟩
  | [], w, w', _, _, _, hrun => by
      rw [reconcilePositions, Proc.run_pure, Outcome.returned.injEq] at hrun
      rw [hrun.2]
      exact .refl
  | (symbol, newId) :: rest, w, w', hsymbols, hids, hfresh, hrun => by
      rw [reconcilePositions, Proc.run_bind, Outcome.bind_eq_returned] at hrun
      obtain ⟨_, mid, hone, hrest⟩ := hrun
      rw [List.map_cons, List.nodup_cons] at hsymbols hids
      have hleft : (((symbol, newId) :: rest).map Prod.fst).toFinset.erase symbol =
          (rest.map Prod.fst).toFinset := by
        rw [List.map_cons, List.toFinset_cons, Finset.erase_insert]
        rw [List.mem_toFinset]
        exact hsymbols.1
      have hnew : Fresh w.pm newId := hfresh _ (List.mem_cons_self)
      apply Relation.ReflTransGen.head
      · exact .reconcile symbol newId (by simp) hnew hone
      · rw [hleft]
        apply steps_reconcilePositions rest hsymbols.2 hids.2 _ hrest
        exact (reconcileSymbol_returned hone).fresh_rest hids.1 fun x hx =>
          hfresh x (List.mem_cons_of_mem _ hx)

/-- **One pass of `run`**, with nothing arriving meanwhile, is a run of steps from one loop
boundary to the next. -/
theorem steps_iteration {pm : PositionManager} {b : β} {w' : World β}
    (xs : List (String × String)) (hallowed : AllowedAlong Allowed pm.tradeConfirmationsQ pm)
    (hsymbols : (xs.map Prod.fst).Nodup)
    (hset : (xs.map Prod.fst).toFinset = symbolsToReconcile pm)
    (hids : (xs.map Prod.snd).Nodup) (hfresh : ∀ x ∈ xs, Fresh (drained pm) x.2)
    (hrun : (reconcilePositions B xs).run ⟨drained pm, b⟩ = .returned () w') :
    Relation.ReflTransGen (LoopStep B Allowed) ⟨.confirmations ∅, pm, b⟩ ⟨.reconciling ∅, w'⟩ := by
  have hreconcile : Relation.ReflTransGen (LoopStep B Allowed) _ _ :=
    steps_reconcilePositions xs hsymbols hids hfresh hrun
  rw [hset] at hreconcile
  exact (steps_drainConfirmations b _ ∅ pm rfl hallowed).trans
    ((steps_drainTargets b _ _ ∅ _ rfl).trans hreconcile)

end iteration

/-! ## At the loop boundary -/

/-- **At the end of every iteration the working position of every symbol is its target.** So a
symbol without a live order holds exactly its target. -/
theorem workingPosition_eq_target {β : Type} (B : Broker β) (b₀ : β) {c : Config β}
    (h : Reachable B CarriesSymbol b₀ c) (hend : c.phase = .reconciling ∅) (s : String) :
    calculateWorkingPosition c.world.pm s = c.world.pm.targetPositions.getD s 0 ∧
      ((∀ id o, c.world.pm.liveOrders.lookup id = some o → o.symbol ≠ s) →
        c.world.pm.positions.getD s 0 = c.world.pm.targetPositions.getD s 0) := by
  have hon : c.world.pm.OnTarget s := by
    apply h.settled
    rw [hend]
    exact Finset.notMem_empty s
  refine ⟨hon, fun hlive => ?_⟩
  rw [← calculateWorkingPosition_of_not_live h.consistent hlive]
  exact hon

/-- A broker that accepts every request and numbers the orders. -/
def acceptingBroker : Broker ℤ where
  cancelOrder _ := pure true
  submitOrder _ _ _ _ _ _ := do
    let (_, last) ← Proc.get
    Proc.modify fun (q, _) => (q, last + 1)
    pure (some (last + 1))

/-- The position manager once a target of 20 has been set. -/
def targeted : PositionManager := updateTargetPosition "AMD" 20 .init

/-- The end of the iteration that follows: a buy order is live. -/
def bought : World ℤ :=
  ((reconcilePositions acceptingBroker [("AMD", "buy")]).run ⟨drained targeted, 0⟩).state

/-- A run reaches the end of the first iteration. -/
theorem reachable_bought {Allowed : TradeConfirmationMessage → PositionManager → Prop} :
    Reachable acceptingBroker Allowed 0 ⟨.reconciling ∅, bought⟩ := by
  apply Relation.ReflTransGen.head (.targetArrives _ _ _ "AMD" 20)
  apply steps_iteration [("AMD", "buy")]
  · trivial
  · decide
  · decide
  · decide
  · intro x hx
    rw [List.mem_singleton.1 hx]
    exact ⟨by decide, fun _ => List.not_mem_nil⟩
  · rfl

/-- At the end of that iteration 20 are on their way, and none is held. -/
theorem workingPosition_eq_target_bought :
    calculateWorkingPosition bought.pm "AMD" = 20 ∧ bought.pm.positions.getD "AMD" 0 = 0 := by
  obtain ⟨hworking, -⟩ :=
    workingPosition_eq_target acceptingBroker 0 reachable_bought rfl "AMD"
  exact ⟨hworking.trans (by decide), by decide⟩

end FlowManager.Position
