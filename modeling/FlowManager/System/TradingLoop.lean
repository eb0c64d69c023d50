import FlowManager.Broker.Effects
import FlowManager.PositionManager.Queues
import FlowManager.System.Run
import Mathlib.Data.Set.Finite.Lattice

/-!
# The trading loop on the order book broker

`main_api.py` wires the position manager to `CppOrderBookBroker`. The loop submits market orders,
which carry no price, and this broker rejects an order without a price before it sends anything.
The rejection is a confirmation, a confirmation makes its symbol be reconciled, and the symbol is
as far from its target as before: the loop submits the order again, forever. It settles exactly if
there is nothing to trade (`loop_settles_iff`).

`LoopRun` are the runs of the loop with nothing put into its queues from outside. The set of
symbols is iterated in any order and the ids of new orders are any that are not in use. The other
end of the socket is arbitrary.
-/

namespace FlowManager.System

open FlowManager.Lib FlowManager.Broker FlowManager.Position FlowManager.Server

/-! ## The loop -/

section loop

variable {β : Type} (B : Position.Broker β)

/-- The body of the loop, with the order in which it iterates the symbols.
Source: `position_manager.py`, `PositionManager.run`, lines 206-223 -/
def loopBody (order : List (String × String)) : Proc PyError (World β) Unit := do
  modifyPm drained
  reconcilePositions B order

/-- An order in which the loop can iterate the symbols, with the ids it can answer for them. -/
structure IterationOrder (pm : PositionManager) (order : List (String × String)) : Prop where
  symbols_nodup : (order.map Prod.fst).Nodup
  symbols : ∀ s, s ∈ order.map Prod.fst ↔ s ∈ symbolsToReconcile pm
  ids_nodup : (order.map Prod.snd).Nodup
  fresh : ∀ id ∈ order.map Prod.snd, Fresh (drained pm) id

/-- A run of the loop with no input from outside, iteration by iteration. -/
structure LoopRun (ω : ℕ → World β) (order : ℕ → List (String × String)) : Prop where
  iterates : ∀ n, IterationOrder (ω n).pm (order n)
  next : ∀ n, ω (n + 1) = ((loopBody B (order n)).run (ω n)).state

/-- There are always fresh ids. -/
theorem infinite_fresh (pm : PositionManager) : {id | Fresh pm id}.Infinite := by
  have hlisted : {id | ∃ s, id ∈ pm.index s}.Finite := by
    have hsub : {id | ∃ s, id ∈ pm.index s} ⊆
        ⋃ s ∈ pm.liveOrdersBySymbol.keys, {id | id ∈ pm.index s} := by
      rintro id ⟨s, hid⟩
      refine Set.mem_biUnion ?_ hid
      rw [Finset.mem_coe, Finmap.mem_keys, ← Finmap.lookup_isSome]
      unfold PositionManager.index Dict.getD at hid
      cases hlookup : pm.liveOrdersBySymbol.lookup s with
      | none => simp [hlookup] at hid
      | some ids => rfl
    exact (Set.Finite.biUnion (Finset.finite_toSet _) fun s _ => List.finite_toSet _).subset hsub
  have hused : ({id | id ∈ pm.liveOrders} ∪ {id | ∃ s, id ∈ pm.index s}).Finite := by
    refine Set.Finite.union ?_ hlisted
    exact (Finset.finite_toSet pm.liveOrders.keys).subset fun id hid => Finmap.mem_keys.mpr hid
  refine hused.infinite_compl.mono ?_
  intro id hid
  rw [Set.mem_compl_iff, Set.mem_union, not_or] at hid
  exact ⟨Finmap.lookup_eq_none.mpr hid.1, fun s hmem => hid.2 ⟨s, hmem⟩⟩

/-- There is an order in which an iteration can reconcile its symbols, with ids for them. -/
theorem exists_iterationOrder (pm : PositionManager) : ∃ order, IterationOrder pm order := by
  obtain ⟨ids, hids, hcard⟩ :=
    (infinite_fresh (drained pm)).exists_subset_card_eq (symbolsToReconcile pm).card
  have hlength : (symbolsToReconcile pm).toList.length = ids.toList.length := by
    rw [Finset.length_toList, Finset.length_toList, hcard]
  refine ⟨(symbolsToReconcile pm).toList.zip ids.toList, ?_, ?_, ?_, ?_⟩
  · rw [List.map_fst_zip hlength.le]
    exact Finset.nodup_toList _
  · intro s
    rw [List.map_fst_zip hlength.le, Finset.mem_toList]
  · rw [List.map_snd_zip hlength.ge]
    exact Finset.nodup_toList _
  · intro id hid
    rw [List.map_snd_zip hlength.ge, Finset.mem_toList] at hid
    exact hids hid

/-- The run from a state, with an order for each state. -/
def loopFrom (order : World β → List (String × String)) (w : World β) : ℕ → World β
  | 0 => w
  | n + 1 => ((loopBody B (order (loopFrom order w n))).run (loopFrom order w n)).state

/-- Every state starts a run. -/
theorem exists_loopRun (w : World β) : ∃ ω order, ω 0 = w ∧ LoopRun B ω order := by
  choose order horder using fun w : World β => exists_iterationOrder w.pm
  exact ⟨loopFrom B order w, fun n => order (loopFrom B order w n), rfl,
    fun n => horder (loopFrom B order w n), fun _ => rfl⟩

end loop

/-! ## The wiring -/

section wired

variable {ε : Type} (sendRequestToOb : Json → ε → Option Reply × ε)

/-- A method of the broker, with the queue of the position manager behind its callback.
Source: `main_api.py`, `lifespan_startup` -/
def wire {α : Type} (method : BrokerProc ε α) :
    Proc PyError (List TradeConfirmationMessage × CppOrderBookBroker ε) α :=
  Proc.focus (fun t => { t.2 with confirmations := t.1 }) (fun s _ => (s.confirmations, s)) id
    method

/-- The broker that the position manager is wired to.
Source: `main_api.py`, `lifespan_startup` -/
def wired : Position.Broker (CppOrderBookBroker ε) where
  cancelOrder clientOrderId := wire (cancelOrder sendRequestToOb clientOrderId)
  submitOrder clientOrderId symbol quantity sideIsBuy orderType price :=
    wire (submitOrder sendRequestToOb clientOrderId symbol quantity sideIsBuy orderType price)

/-! ## An iteration -/

/-- The position of the symbol is not its target. -/
def OffTarget (pm : PositionManager) (s : String) : Prop :=
  pm.positions.getD s 0 ≠ pm.targetPositions.getD s 0

/-- Whether a symbol is off target is decided. -/
instance (pm : PositionManager) (s : String) : Decidable (OffTarget pm s) :=
  inferInstanceAs (Decidable (_ ≠ _))

/-- The rejections of an iteration: one for each symbol that is off target. -/
def rejections (pm : PositionManager) (order : List (String × String)) :
    List TradeConfirmationMessage :=
  (order.filter fun entry => OffTarget pm entry.1).map fun entry =>
    rejection entry.2 entry.1 (decide (pm.positions.getD entry.1 0 < pm.targetPositions.getD entry.1 0))

/-- Rejections fill nothing. -/
theorem filledOf_rejections (pm : PositionManager) (order : List (String × String)) (s : String) :
    filledOf s (rejections pm order) = 0 := by
  unfold rejections filledOf
  apply List.sum_eq_zero
  simp only [List.filter_map, List.map_map, List.mem_map]
  rintro _ ⟨entry, -, rfl⟩
  exact zero_mul _

/-- The rejections are for the symbols that are off target. -/
theorem exists_rejections {pm : PositionManager} {order : List (String × String)} {s : String} :
    (∃ conf ∈ rejections pm order, conf.symbol = s) ↔ s ∈ order.map Prod.fst ∧ OffTarget pm s := by
  unfold rejections
  constructor
  · rintro ⟨conf, hconf, rfl⟩
    obtain ⟨entry, hentry, rfl⟩ := List.mem_map.mp hconf
    rw [List.mem_filter, decide_eq_true_iff] at hentry
    exact ⟨List.mem_map_of_mem hentry.1, hentry.2⟩
  · rintro ⟨hs, hoff⟩
    obtain ⟨entry, hentry, rfl⟩ := List.mem_map.mp hs
    refine ⟨_, List.mem_map_of_mem (List.mem_filter.mpr ⟨hentry, ?_⟩), rfl⟩
    exact decide_eq_true hoff

/-- No order in the list of the symbol is live. -/
def Quiet (pm : PositionManager) (s : String) : Prop :=
  ∀ id ∈ pm.index s, pm.liveOrders.lookup id = none

/-- What the iteration leaves of the position manager: rejections in the queue, and no live order
that they do not end. -/
structure Rejected (order : List (String × String)) (pm pm' : PositionManager) : Prop where
  positions : pm'.positions = pm.positions
  targetPositions : pm'.targetPositions = pm.targetPositions
  targetUpdatesQ : pm'.targetUpdatesQ = pm.targetUpdatesQ
  tradeConfirmationsQ : pm'.tradeConfirmationsQ = pm.tradeConfirmationsQ ++ rejections pm order
  live : ∀ id o, pm'.liveOrders.lookup id = some o → pm.liveOrders.lookup id = some o ∨
    ∃ conf ∈ rejections pm order, conf.clientOrderId = id

section body

variable {w : World (CppOrderBookBroker ε)}

/-- Nothing is cancelled if nothing is live. -/
theorem cancelOpposing_quiet {β : Type} (B : Position.Broker β) (buying : Bool) {w : World β} :
    ∀ {ids : List String}, (∀ id ∈ ids, w.pm.liveOrders.lookup id = none) →
      (cancelOpposing B buying ids).run w = .returned () w
  | [], _ => rfl
  | id :: rest, hquiet => by
      have hone : (cancelIfOpposing B buying id).run w = .returned () w := by
        unfold cancelIfOpposing
        rw [Proc.run_bind, Proc.run_get, Outcome.bind_returned, hquiet id List.mem_cons_self]
        rfl
      rw [cancelOpposing, Proc.run_bind, hone, Outcome.bind_returned]
      exact cancelOpposing_quiet B buying fun id hid => hquiet id (List.mem_cons_of_mem _ hid)

/-- **A market order is rejected at once**: it is tracked, and its rejection is in the queue. -/
theorem placeNew_wired (symbol newId : String) (quantity : ℤ) (buying : Bool) :
    ∃ b, (placeNew (wired sendRequestToOb) symbol newId quantity buying).run w = .returned ()
      ⟨tradeConfirmationCallback (rejection newId symbol buying)
        (w.pm.track (newOrder newId symbol quantity buying)), b⟩ :=
  ⟨_, rfl⟩

/-- Reconciling a symbol with no live orders: nothing on target, else one rejected order. -/
theorem reconcileSymbol_wired {symbol : String} (newId : String) (hquiet : Quiet w.pm symbol) :
    ∃ w', (reconcileSymbol (wired sendRequestToOb) symbol newId).run w = .returned () w' ∧
      (¬OffTarget w.pm symbol ∧ w' = w ∨ OffTarget w.pm symbol ∧ ∃ quantity buying,
        buying = decide (w.pm.positions.getD symbol 0 < w.pm.targetPositions.getD symbol 0) ∧
        w'.pm = tradeConfirmationCallback (rejection newId symbol buying)
          (w.pm.track (newOrder newId symbol quantity buying))) := by
  have hside : ∀ (quantity : ℤ) (buying : Bool), ∃ b, (do
      cancelOpposing (wired sendRequestToOb) buying (w.pm.index symbol)
      placeNew (wired sendRequestToOb) symbol newId quantity buying).run w = .returned ()
        ⟨tradeConfirmationCallback (rejection newId symbol buying)
          (w.pm.track (newOrder newId symbol quantity buying)), b⟩ := by
    intro quantity buying
    obtain ⟨b, hplace⟩ :=
      placeNew_wired sendRequestToOb (w := w) symbol newId quantity buying
    refine ⟨b, ?_⟩
    rw [Proc.run_bind, cancelOpposing_quiet _ buying hquiet, Outcome.bind_returned, hplace]
  unfold reconcileSymbol OffTarget
  rw [Proc.run_bind, Proc.run_get, Outcome.bind_returned, calculateWorkingPosition_of_none hquiet]
  dsimp only
  split_ifs with hzero hpos
  · refine ⟨w, rfl, Or.inl ⟨?_, rfl⟩⟩
    rw [not_ne_iff]
    omega
  · obtain ⟨b, hrun⟩ := hside _ true
    refine ⟨_, hrun, Or.inr ⟨by omega, _, true, ?_, rfl⟩⟩
    symm
    rw [decide_eq_true_iff]
    omega
  · obtain ⟨b, hrun⟩ := hside _ false
    refine ⟨_, hrun, Or.inr ⟨by omega, _, false, ?_, rfl⟩⟩
    symm
    rw [decide_eq_false_iff_not]
    omega

/-- A rejected order leaves the lists of the other symbols, and their orders. -/
theorem quiet_of_rejected {pm : PositionManager} {conf : TradeConfirmationMessage} {s symbol : String}
    {order : OrderDetails} (hsymbol : order.symbol = symbol) (hne : s ≠ symbol)
    (hnew : Fresh pm order.clientOrderId) (hquiet : Quiet pm s) :
    Quiet (tradeConfirmationCallback conf (pm.track order)) s := by
  have htrack : Placed order pm (pm.track order) := placed_track order
  intro id hid
  have hindex : id ∈ pm.index s := by
    have hid' : id ∈ (pm.track order).index s := hid
    rwa [htrack.index, if_neg (hsymbol ▸ hne)] at hid'
  have hid : id ≠ order.clientOrderId := by
    rintro rfl
    exact hnew.2 s hindex
  exact (Dict.lookup_insert_ite _ _ _ _).trans ((if_neg hid).trans (hquiet id hindex))

/-- A symbol on target adds no rejection. -/
theorem rejections_cons_of_onTarget {pm : PositionManager} {symbol : String} (newId : String)
    (rest : List (String × String)) (hon : ¬OffTarget pm symbol) :
    rejections pm ((symbol, newId) :: rest) = rejections pm rest := by
  unfold rejections
  rw [List.filter_cons_of_neg (by simpa using hon)]

/-- A symbol that is off target is rejected. -/
theorem rejections_cons_of_offTarget {pm : PositionManager} {symbol : String} (newId : String)
    (rest : List (String × String)) (hoff : OffTarget pm symbol) :
    rejections pm ((symbol, newId) :: rest) =
      rejection newId symbol (decide (pm.positions.getD symbol 0 < pm.targetPositions.getD symbol 0))
        :: rejections pm rest := by
  unfold rejections
  rw [List.filter_cons_of_pos (by simpa using hoff), List.map_cons]

/-- A symbol that is on target is passed over. -/
theorem Rejected.cons_onTarget {pm pm' : PositionManager} {symbol : String} (newId : String)
    {rest : List (String × String)} (h : Rejected rest pm pm') (hon : ¬OffTarget pm symbol) :
    Rejected ((symbol, newId) :: rest) pm pm' := by
  have hsame := rejections_cons_of_onTarget newId rest hon
  refine ⟨h.positions, h.targetPositions, h.targetUpdatesQ, ?_, ?_⟩
  · rw [hsame]
    exact h.tradeConfirmationsQ
  · rw [hsame]
    exact h.live

/-- One more order is tracked and rejected before the rest. -/
theorem Rejected.cons_offTarget {pm pm' : PositionManager} {symbol newId : String} {quantity : ℤ}
    {buying : Bool} {rest : List (String × String)}
    (h : Rejected rest (tradeConfirmationCallback (rejection newId symbol buying)
      (pm.track (newOrder newId symbol quantity buying))) pm') (hoff : OffTarget pm symbol)
    (hbuying : buying =
      decide (pm.positions.getD symbol 0 < pm.targetPositions.getD symbol 0)) :
    Rejected ((symbol, newId) :: rest) pm pm' := by
  have hmore : rejections pm ((symbol, newId) :: rest) =
      rejection newId symbol buying :: rejections pm rest := by
    rw [hbuying]
    exact rejections_cons_of_offTarget newId rest hoff
  refine ⟨h.positions, h.targetPositions, h.targetUpdatesQ, ?_, ?_⟩
  · rw [h.tradeConfirmationsQ, hmore]
    exact List.append_assoc _ _ _
  · intro id o ho
    rw [hmore]
    rcases h.live id o ho with hbefore | ⟨conf, hconf, hid⟩
    · by_cases hid : id = newId
      · exact Or.inr ⟨_, List.mem_cons_self, hid.symm⟩
      · exact Or.inl (((Dict.lookup_insert_ite _ _ _ _).trans (if_neg hid)).symm.trans hbefore)
    · exact Or.inr ⟨conf, List.mem_cons_of_mem _ hconf, hid⟩

/-- Reconciling symbols with no live orders rejects an order for each that is off target. -/
theorem reconcilePositions_wired : ∀ {order : List (String × String)}
    {w : World (CppOrderBookBroker ε)}, (order.map Prod.fst).Nodup → (order.map Prod.snd).Nodup →
    (∀ s ∈ order.map Prod.fst, Quiet w.pm s) → (∀ id ∈ order.map Prod.snd, Fresh w.pm id) →
    ∃ w', (reconcilePositions (wired sendRequestToOb) order).run w = .returned () w' ∧
      Rejected order w.pm w'.pm
  | [], w, _, _, _, _ =>
      ⟨w, rfl, rfl, rfl, rfl, (List.append_nil _).symm, fun _ _ h => Or.inl h⟩
  | (symbol, newId) :: rest, w, hsymbols, hids, hquiet, hfresh => by
      rw [List.map_cons, List.nodup_cons] at hsymbols hids
      have hrest : ∀ s ∈ rest.map Prod.fst, s ≠ symbol ∧ Quiet w.pm s := by
        intro s hs
        refine ⟨?_, hquiet s (List.mem_cons_of_mem _ hs)⟩
        rintro rfl
        exact hsymbols.1 hs
      have hothers : ∀ id ∈ rest.map Prod.snd, id ≠ newId ∧ Fresh w.pm id := by
        intro id hid
        refine ⟨?_, hfresh id (List.mem_cons_of_mem _ hid)⟩
        rintro rfl
        exact hids.1 hid
      have hnew : Fresh w.pm newId := hfresh newId List.mem_cons_self
      obtain ⟨wc, hone, hcase⟩ := reconcileSymbol_wired sendRequestToOb newId
        (hquiet symbol List.mem_cons_self)
      rcases hcase with ⟨hon, rfl⟩ | ⟨hoff, quantity, buying, hbuying, hpm⟩
      · obtain ⟨w', hrun, hend⟩ := reconcilePositions_wired hsymbols.2 hids.2
          (fun s hs => (hrest s hs).2) fun id hid => (hothers id hid).2
        refine ⟨w', ?_, hend.cons_onTarget newId hon⟩
        rw [reconcilePositions, Proc.run_bind, hone, Outcome.bind_returned, hrun]
      · have hquietc : ∀ s ∈ rest.map Prod.fst, Quiet wc.pm s := by
          intro s hs
          rw [hpm]
          exact quiet_of_rejected rfl (hrest s hs).1 hnew (hrest s hs).2
        have hfreshc : ∀ id ∈ rest.map Prod.snd, Fresh wc.pm id := by
          intro id hid
          rw [hpm]
          exact (placed_track _).fresh_of_ne (hothers id hid).2 (hothers id hid).1
        obtain ⟨w', hrun, hend⟩ := reconcilePositions_wired hsymbols.2 hids.2 hquietc hfreshc
        refine ⟨w', ?_, (hpm ▸ hend).cons_offTarget hoff hbuying⟩
        rw [reconcilePositions, Proc.run_bind, hone, Outcome.bind_returned, hrun]

end body

/-! ## A run -/

/-- Every live order has a confirmation in the queue that ends it. -/
def AllEnded (pm : PositionManager) : Prop :=
  ∀ id o, pm.liveOrders.lookup id = some o →
    ∃ conf ∈ pm.tradeConfirmationsQ, conf.clientOrderId = id ∧ conf.status.isTerminal = true

/-- Draining the queues ends every live order. -/
theorem AllEnded.not_live {pm : PositionManager} (h : AllEnded pm) (id : String) :
    (drained pm).liveOrders.lookup id = none := by
  cases hlookup : (drained pm).liveOrders.lookup id with
  | none => rfl
  | some o =>
      obtain ⟨⟨o', ho'⟩, hnot⟩ := (drained_spec pm).live hlookup
      obtain ⟨conf, hconf, hid, hterminal⟩ := h id o' ho'
      rw [hnot conf hconf hid] at hterminal
      cases hterminal

section iteration

variable {w : World (CppOrderBookBroker ε)} {order : List (String × String)}
  {pm pm' : PositionManager}

/-- The body returns, and all it has done is to have orders rejected. -/
theorem loopBody_wired (hended : AllEnded w.pm) (horder : IterationOrder w.pm order) :
    ∃ w', (loopBody (wired sendRequestToOb) order).run w = .returned () w' ∧
      Rejected order (drained w.pm) w'.pm := by
  obtain ⟨w', hrun, hrejected⟩ := reconcilePositions_wired sendRequestToOb
    (w := { w with pm := drained w.pm }) horder.symbols_nodup horder.ids_nodup
    (fun _ _ id _ => hended.not_live id) horder.fresh
  exact ⟨w', hrun, hrejected⟩

namespace Rejected

/-- The queue behind an iteration holds its rejections. -/
theorem queue (h : Rejected order (drained pm) pm') :
    pm'.tradeConfirmationsQ = rejections (drained pm) order := by
  rw [h.tradeConfirmationsQ, (drained_spec pm).tradeConfirmationsQ, List.nil_append]

/-- An iteration whose orders have been rejected leaves no order live. -/
theorem allEnded (h : Rejected order (drained pm) pm') (hended : AllEnded pm) : AllEnded pm' := by
  intro id o ho
  rcases h.live id o ho with hbefore | ⟨conf, hconf, hid⟩
  · rw [hended.not_live id] at hbefore
    cases hbefore
  · refine ⟨conf, h.queue ▸ hconf, hid, ?_⟩
    obtain ⟨entry, -, rfl⟩ := List.mem_map.mp hconf
    rfl

/-- A rejection fills nothing, so the next iteration finds the positions and the targets as they
were. -/
theorem offTarget_drained (h : Rejected order (drained pm) pm') (s : String) :
    OffTarget (drained pm') s ↔ OffTarget (drained pm) s := by
  have htargetsQ : pm'.targetUpdatesQ = [] := by
    rw [h.targetUpdatesQ, (drained_spec pm).targetUpdatesQ]
  unfold OffTarget
  rw [(drained_spec pm').positions, (drained_spec pm').targetPositions, htargetsQ, h.queue,
    filledOf_rejections, h.positions, h.targetPositions, add_zero]
  rfl

/-- A symbol that is off target is reconciled again. -/
theorem mem_symbolsToReconcile (h : Rejected order (drained pm) pm')
    (horder : IterationOrder pm order) {s : String} :
    s ∈ symbolsToReconcile pm' ↔ s ∈ symbolsToReconcile pm ∧ OffTarget (drained pm) s := by
  have htargetsQ : pm'.targetUpdatesQ = [] := by
    rw [h.targetUpdatesQ, (drained_spec pm).targetUpdatesQ]
  rw [(drained_spec pm').symbols, htargetsQ, h.queue, exists_rejections, horder.symbols]
  simp

end Rejected

end iteration

/-- There is nothing to trade: the last target queued for each symbol that the queues name is its
position. -/
def NothingToTrade (pm : PositionManager) : Prop :=
  ∀ s, (∃ update ∈ pm.targetUpdatesQ, update.1 = s) ∨
      (∃ conf ∈ pm.tradeConfirmationsQ, conf.symbol = s) →
    queuedTarget s pm.targetUpdatesQ (pm.targetPositions.getD s 0) =
      pm.positions.getD s 0 + filledOf s pm.tradeConfirmationsQ

/-- There is nothing to trade exactly if all symbols to reconcile are on target. -/
theorem nothingToTrade_iff (pm : PositionManager) :
    NothingToTrade pm ↔ ∀ s ∈ symbolsToReconcile pm, ¬OffTarget (drained pm) s := by
  unfold NothingToTrade
  refine forall_congr' fun s => ?_
  rw [(drained_spec pm).symbols, or_comm]
  unfold OffTarget
  rw [(drained_spec pm).positions, (drained_spec pm).targetPositions, not_ne_iff, eq_comm]

section run

variable {sendRequestToOb} {ω : ℕ → World (CppOrderBookBroker ε)}
  {order : ℕ → List (String × String)}

/-- One iteration of a run. -/
theorem LoopRun.rejected (h : LoopRun (wired sendRequestToOb) ω order) {n : ℕ}
    (hended : AllEnded (ω n).pm) :
    (loopBody (wired sendRequestToOb) (order n)).run (ω n) = .returned () (ω (n + 1)) ∧
      Rejected (order n) (drained (ω n).pm) (ω (n + 1)).pm := by
  obtain ⟨w', hrun, hrejected⟩ :=
    loopBody_wired sendRequestToOb hended (h.iterates n)
  obtain rfl : ω (n + 1) = w' := by
    rw [h.next n, hrun]
    rfl
  exact ⟨hrun, hrejected⟩

/-- **At every loop boundary** no order is live. -/
theorem LoopRun.allEnded (h : LoopRun (wired sendRequestToOb) ω order) (h₀ : AllEnded (ω 0).pm) :
    ∀ n, AllEnded (ω n).pm
  | 0 => h₀
  | n + 1 => (h.rejected (h.allEnded h₀ n)).2.allEnded (h.allEnded h₀ n)

/-- **At every loop boundary** the same symbols are off target. -/
theorem LoopRun.offTarget (h : LoopRun (wired sendRequestToOb) ω order) (h₀ : AllEnded (ω 0).pm)
    (s : String) : ∀ n, OffTarget (drained (ω n).pm) s ↔ OffTarget (drained (ω 0).pm) s
  | 0 => Iff.rfl
  | n + 1 => ((h.rejected (h.allEnded h₀ n)).2.offTarget_drained s).trans (h.offTarget h₀ s n)

/-- A symbol that starts off target is reconciled by every iteration. -/
theorem LoopRun.mem_symbolsToReconcile (h : LoopRun (wired sendRequestToOb) ω order)
    (h₀ : AllEnded (ω 0).pm) {s : String} (hs : s ∈ symbolsToReconcile (ω 0).pm)
    (hoff : OffTarget (drained (ω 0).pm) s) : ∀ n, s ∈ symbolsToReconcile (ω n).pm
  | 0 => hs
  | n + 1 => ((h.rejected (h.allEnded h₀ n)).2.mem_symbolsToReconcile (h.iterates n)).mpr
      ⟨h.mem_symbolsToReconcile h₀ hs hoff n, (h.offTarget h₀ s n).mpr hoff⟩

end run

/-- **The loop settles exactly if there is nothing to trade.** From any state without live orders,
whatever the broker holds and the other end of its socket answers, every iteration returns; one
with no symbol to reconcile is reached if and only if every symbol that the queues name is on
target already. -/
theorem loop_settles_iff (sendRequestToOb : Json → ε → Option Reply × ε)
    (ω : ℕ → World (CppOrderBookBroker ε)) (order : ℕ → List (String × String))
    (h : LoopRun (wired sendRequestToOb) ω order) (hlive : (ω 0).pm.liveOrders = ∅) :
    (∀ n, (loopBody (wired sendRequestToOb) (order n)).run (ω n) = .returned () (ω (n + 1))) ∧
      ((∃ n, symbolsToReconcile (ω n).pm = ∅) ↔ NothingToTrade (ω 0).pm) := by
  have h₀ : AllEnded (ω 0).pm := by
    intro id o ho
    simp [hlive] at ho
  refine ⟨fun n => (h.rejected (h.allEnded h₀ n)).1, ?_⟩
  rw [nothingToTrade_iff]
  constructor
  · rintro ⟨n, hn⟩ s hs hoff
    have hmem := h.mem_symbolsToReconcile h₀ hs hoff n
    simp [hn] at hmem
  · intro hnothing
    refine ⟨1, Finset.eq_empty_of_forall_notMem fun s hs => ?_⟩
    obtain ⟨hs, hoff⟩ := ((h.rejected h₀).2.mem_symbolsToReconcile (h.iterates 0)).mp hs
    exact hnothing s hs hoff

end wired

/-- A position manager with one target queued, on a fresh broker and an empty book. -/
def oneTarget : World BrokerAndServer :=
  ⟨updateTargetPosition "AMD" 20 .init, .init (some ServerState.init)⟩

/-- A run that a target of 20 starts: every iteration returns, and none is the last. -/
theorem loop_settles_iff_oneTarget : ∃ ω order,
    ω 0 = oneTarget ∧ LoopRun (wired (transport .nlohmann .delivered)) ω order ∧
      ∀ n, symbolsToReconcile (ω n).pm ≠ ∅ := by
  obtain ⟨ω, order, hstart, h⟩ :=
    exists_loopRun (wired (transport .nlohmann .delivered)) oneTarget
  refine ⟨ω, order, hstart, h, fun n hn => ?_⟩
  have hnothing := (loop_settles_iff _ ω order h (by rw [hstart]; rfl)).2.mp ⟨n, hn⟩
  rw [hstart] at hnothing
  have htarget := hnothing "AMD" (Or.inl ⟨("AMD", 20), List.mem_singleton_self _, rfl⟩)
  revert htarget
  decide

/-- One queued target is enough: the loop never stops submitting the order. -/
theorem loop_does_not_settle : ¬∀ ω order, ω 0 = oneTarget →
    LoopRun (wired (transport .nlohmann .delivered)) ω order →
    ∃ n, symbolsToReconcile (ω n).pm = ∅ := by
  intro hsettles
  obtain ⟨ω, order, hstart, h⟩ :=
    exists_loopRun (wired (transport .nlohmann .delivered)) oneTarget
  obtain ⟨n, hn⟩ := hsettles ω order hstart h
  have h₀ : AllEnded (ω 0).pm := by
    intro id o ho
    simp [hstart, oneTarget, updateTargetPosition, PositionManager.init] at ho
  have hmem : "AMD" ∈ symbolsToReconcile (ω n).pm := by
    refine h.mem_symbolsToReconcile h₀ ?_ ?_ n
    · rw [hstart]
      decide
    · rw [hstart]
      decide
  simp [hn] at hmem

end FlowManager.System
