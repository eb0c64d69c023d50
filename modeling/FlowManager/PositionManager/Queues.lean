import FlowManager.PositionManager.Consistency

/-!
# What draining the queues does

`_process_trade_confirmations` and `_process_target_updates` as equations: the positions after a
queue of confirmations are the positions before with the signed fills of the queue (`filledOf`),
the targets after a queue of updates are the last ones queued (`queuedTarget`), and an order whose
end is in the queue is not live afterwards.
-/

namespace FlowManager.Position

open FlowManager.Lib FlowManager.Broker

variable {pm : PositionManager}

/-- A symbol is affected if it was before, or something in the queue is about it. -/
theorem affected_cons {μ : Type} {symbolOf : μ → String} {message : μ} {rest : List μ}
    {affected : Finset String} {s : String} :
    (s ∈ insert (symbolOf message) affected ∨ ∃ m ∈ rest, symbolOf m = s) ↔
      s ∈ affected ∨ ∃ m ∈ message :: rest, symbolOf m = s := by
  rw [Finset.mem_insert, List.exists_mem_cons_iff, or_left_comm, or_assoc, @eq_comm _ s]

/-! ## Confirmations -/

section confirmation

variable (conf : TradeConfirmationMessage)

/-- What is live after a confirmation was live before, and the confirmation has not ended it. -/
theorem live_of_processConfirmation {id : String} {o : OrderDetails}
    (h : (processConfirmation conf pm).liveOrders.lookup id = some o) :
    (∃ o', pm.liveOrders.lookup id = some o') ∧
      ¬ (conf.clientOrderId = id ∧ conf.status.isTerminal = true) := by
  unfold processConfirmation at h
  cases hlive : pm.liveOrders.lookup conf.clientOrderId with
  | none =>
      rw [hlive] at h
      refine ⟨⟨o, h⟩, ?_⟩
      rintro ⟨rfl, -⟩
      have h' : pm.liveOrders.lookup conf.clientOrderId = some o := h
      rw [hlive] at h'
      cases h'
  | some liveOrder =>
      simp only [hlive] at h
      split_ifs at h with hterminal
      · rw [removeLiveOrder_liveOrders, addFill_liveOrders, Dict.lookup_erase_ite] at h
        split_ifs at h with hid
        exact ⟨⟨o, h⟩, fun hboth => hid hboth.1.symm⟩
      · refine ⟨?_, fun hboth => hterminal hboth.2⟩
        rw [setLiveOrder_lookup, addFill_liveOrders] at h
        split_ifs at h with hid
        · exact ⟨liveOrder, hid ▸ hlive⟩
        · exact ⟨o, h⟩

end confirmation

/-- What a drained queue of confirmations has done. -/
structure DrainedConfirmations (q : List TradeConfirmationMessage) (affected : Finset String)
    (pm : PositionManager) (result : Finset String × PositionManager) : Prop where
  affected : ∀ s, s ∈ result.1 ↔ s ∈ affected ∨ ∃ conf ∈ q, conf.symbol = s
  positions : ∀ s, result.2.positions.getD s 0 = pm.positions.getD s 0 + filledOf s q
  targetPositions : result.2.targetPositions = pm.targetPositions
  targetUpdatesQ : result.2.targetUpdatesQ = pm.targetUpdatesQ
  tradeConfirmationsQ : result.2.tradeConfirmationsQ = []
  live : ∀ {id o}, result.2.liveOrders.lookup id = some o →
    (∃ o', pm.liveOrders.lookup id = some o') ∧
      ∀ conf ∈ q, conf.clientOrderId = id → conf.status.isTerminal = false

/-- **What draining the queue of confirmations does.** -/
theorem drainedConfirmations : ∀ (q : List TradeConfirmationMessage) (affected : Finset String)
    (pm : PositionManager), pm.tradeConfirmationsQ = q →
    DrainedConfirmations q affected pm (drainConfirmations q affected pm)
  | [], affected, pm, hq => by
      refine ⟨?_, ?_, rfl, rfl, hq, ?_⟩
      · intro s
        simp [drainConfirmations]
      · intro s
        simp [drainConfirmations]
      · intro id o h
        exact ⟨⟨o, h⟩, by simp⟩
  | conf :: rest, affected, pm, _ => by
      obtain ⟨haffected, hpositions, htargets, htargetsQ, hconfQ, hlive⟩ :=
        drainedConfirmations rest (insert conf.symbol affected)
          (processConfirmation conf { pm with tradeConfirmationsQ := rest }) (by simp)
      refine ⟨?_, ?_, ?_, ?_, hconfQ, ?_⟩
      · intro s
        rw [drainConfirmations, haffected, affected_cons]
      · intro s
        rw [drainConfirmations, hpositions, processConfirmation_positions, filledOf_cons, add_assoc]
      · rw [drainConfirmations, htargets, processConfirmation_targetPositions]
      · rw [drainConfirmations, htargetsQ, processConfirmation_targetUpdatesQ]
      · intro id o h
        obtain ⟨⟨o', ho'⟩, hrest⟩ := hlive h
        obtain ⟨hbefore, hnot⟩ := live_of_processConfirmation conf ho'
        refine ⟨hbefore, ?_⟩
        intro conf' hconf' hid
        rcases List.mem_cons.mp hconf' with rfl | hconf'
        · exact Bool.eq_false_iff.mpr fun hterminal => hnot ⟨hid, hterminal⟩
        · exact hrest conf' hconf' hid

/-! ## Targets -/

/-- The target that a queue of updates leaves for a symbol. -/
def queuedTarget (s : String) : List (String × ℤ) → ℤ → ℤ
  | [], target => target
  | update :: rest, target => queuedTarget s rest (if update.1 = s then update.2 else target)

/-- What a drained queue of target updates has done. -/
structure DrainedTargets (q : List (String × ℤ)) (affected : Finset String)
    (pm : PositionManager) (result : Finset String × PositionManager) : Prop where
  affected : ∀ s, s ∈ result.1 ↔ s ∈ affected ∨ ∃ update ∈ q, update.1 = s
  targetPositions : ∀ s, result.2.targetPositions.getD s 0 =
    queuedTarget s q (pm.targetPositions.getD s 0)
  targetUpdatesQ : result.2.targetUpdatesQ = []
  positions : result.2.positions = pm.positions
  liveOrders : result.2.liveOrders = pm.liveOrders
  tradeConfirmationsQ : result.2.tradeConfirmationsQ = pm.tradeConfirmationsQ

/-- **What draining the queue of targets does.** -/
theorem drainedTargets : ∀ (q : List (String × ℤ)) (affected : Finset String)
    (pm : PositionManager), pm.targetUpdatesQ = q →
    DrainedTargets q affected pm (drainTargets q affected pm)
  | [], affected, pm, hq => by
      refine ⟨?_, fun _ => rfl, hq, rfl, rfl, rfl⟩
      intro s
      simp [drainTargets]
  | update :: rest, affected, pm, _ => by
      obtain ⟨haffected, htargets, hq, hpositions, hlive, hconfQ⟩ :=
        drainedTargets rest (insert update.1 affected)
          (processTargetUpdate update { pm with targetUpdatesQ := rest }) rfl
      refine ⟨?_, ?_, hq, hpositions, hlive, hconfQ⟩
      · intro s
        rw [drainTargets, haffected, affected_cons]
      · intro s
        rw [drainTargets, htargets]
        unfold processTargetUpdate
        dsimp only
        rw [Dict.getD_insert_ite]
        simp only [queuedTarget, eq_comm]

/-! ## Both queues -/

/-- What an iteration of the loop has before it reconciles. -/
structure Drained (pm : PositionManager) : Prop where
  symbols : ∀ s, s ∈ symbolsToReconcile pm ↔
    (∃ conf ∈ pm.tradeConfirmationsQ, conf.symbol = s) ∨ ∃ update ∈ pm.targetUpdatesQ, update.1 = s
  positions : ∀ s, (drained pm).positions.getD s 0 =
    pm.positions.getD s 0 + filledOf s pm.tradeConfirmationsQ
  targetPositions : ∀ s, (drained pm).targetPositions.getD s 0 =
    queuedTarget s pm.targetUpdatesQ (pm.targetPositions.getD s 0)
  tradeConfirmationsQ : (drained pm).tradeConfirmationsQ = []
  targetUpdatesQ : (drained pm).targetUpdatesQ = []
  live : ∀ {id o}, (drained pm).liveOrders.lookup id = some o →
    (∃ o', pm.liveOrders.lookup id = some o') ∧
      ∀ conf ∈ pm.tradeConfirmationsQ, conf.clientOrderId = id → conf.status.isTerminal = false

/-- **What an iteration has before it reconciles.** -/
theorem drained_spec (pm : PositionManager) : Drained pm := by
  have hconfs := drainedConfirmations pm.tradeConfirmationsQ ∅ pm rfl
  have htargets := drainedTargets (processTradeConfirmations pm).2.targetUpdatesQ ∅
    (processTradeConfirmations pm).2 rfl
  have hq : (processTradeConfirmations pm).2.targetUpdatesQ = pm.targetUpdatesQ :=
    hconfs.targetUpdatesQ
  have hbefore : (processTradeConfirmations pm).2.targetPositions = pm.targetPositions :=
    hconfs.targetPositions
  have hpositions : (drained pm).positions = (processTradeConfirmations pm).2.positions :=
    htargets.positions
  have hlive : (drained pm).liveOrders = (processTradeConfirmations pm).2.liveOrders :=
    htargets.liveOrders
  refine ⟨?_, ?_, ?_, ?_, htargets.targetUpdatesQ, ?_⟩
  · intro s
    unfold symbolsToReconcile
    rw [Finset.mem_union]
    refine or_congr ((hconfs.affected s).trans ?_) ((htargets.affected s).trans ?_)
    · simp
    · simp [hq]
  · intro s
    rw [hpositions]
    exact hconfs.positions s
  · intro s
    refine (htargets.targetPositions s).trans ?_
    rw [hq, hbefore]
  · exact htargets.tradeConfirmationsQ.trans hconfs.tradeConfirmationsQ
  · intro id o h
    rw [hlive] at h
    exact hconfs.live h

end FlowManager.Position
