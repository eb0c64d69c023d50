import FlowManager.PositionManager.Loop

/-!
# The representation invariant of the position manager

`Consistent` is what any confirmations leave of the two containers. `Represents` is stronger: the
lists name exactly the live orders, each once, and no list is empty. It needs that a confirmation
for a tracked order carries the order's symbol, since a terminal confirmation with another symbol
leaves a stale id behind.

The steps are those of the three methods of the loop in any order, with anything arriving in the
queues in between. Reconciling a symbol is a step however it ends: also after an exception, or in
front of a broker that never answers, the containers are in order. The exception is always the
broker's: `live_orders[new_id]` finds the order that has just been submitted, whatever the broker
has reported meanwhile (`representation_invariant`).
-/

namespace FlowManager.Position

open FlowManager.Lib FlowManager.Broker

variable {pm pm' : PositionManager}

/-- The two containers of live orders name the same orders. -/
structure PositionManager.Represents (pm : PositionManager) : Prop where
  /-- A live order is listed once under its symbol. -/
  once : ∀ {id o}, pm.liveOrders.lookup id = some o → (pm.index o.symbol).count id = 1
  /-- It is listed nowhere else. -/
  elsewhere : ∀ {id o}, pm.liveOrders.lookup id = some o → ∀ s ≠ o.symbol, id ∉ pm.index s
  /-- Every listed id is live. -/
  live : ∀ {s id}, id ∈ pm.index s → ∃ o, pm.liveOrders.lookup id = some o
  /-- No list is empty. -/
  nonempty : ∀ {s ids}, pm.liveOrdersBySymbol.lookup s = some ids → ids ≠ []
  /-- No live order has ended. -/
  notTerminal : ∀ {id o}, pm.liveOrders.lookup id = some o → o.status.isTerminal = false

namespace PositionManager.Represents

/-- A listed order is of the symbol that lists it. -/
theorem symbol (h : pm.Represents) {s id : String} {o : OrderDetails} (hid : id ∈ pm.index s)
    (ho : pm.liveOrders.lookup id = some o) : o.symbol = s := by
  by_contra hne
  exact h.elsewhere ho s (Ne.symm hne) hid

/-- No id is listed twice. -/
theorem nodup (h : pm.Represents) (s : String) : (pm.index s).Nodup := by
  rw [List.nodup_iff_count_le_one]
  intro id
  by_cases hid : id ∈ pm.index s
  · obtain ⟨o, ho⟩ := h.live hid
    obtain rfl := h.symbol hid ho
    exact (h.once ho).le
  · rw [List.count_eq_zero_of_not_mem hid]
    exact Nat.zero_le 1

/-- What represents its orders is consistent. -/
theorem consistent (h : pm.Represents) : pm.Consistent where
  listed ho := List.count_pos_iff.mp (by rw [h.once ho]; exact Nat.one_pos)
  symbol := h.symbol
  nodup := h.nodup
  notTerminal := h.notTerminal

end PositionManager.Represents

/-- What consistent containers lack. -/
theorem PositionManager.Consistent.represents (h : pm.Consistent)
    (live : ∀ {s id}, id ∈ pm.index s → ∃ o, pm.liveOrders.lookup id = some o)
    (nonempty : ∀ {s ids}, pm.liveOrdersBySymbol.lookup s = some ids → ids ≠ []) :
    pm.Represents where
  once ho := List.count_eq_one_of_mem (h.nodup _) (h.listed ho)
  elsewhere ho _ hne hmem := hne (h.symbol hmem ho).symm
  live := live
  nonempty := nonempty
  notTerminal := h.notTerminal

/-- A new position manager represents its orders. -/
theorem represents_init : PositionManager.init.Represents := by
  constructor <;> simp [PositionManager.init, PositionManager.index, Dict.getD]

/-! ## Confirmations -/

section confirmation

variable {conf : TradeConfirmationMessage}

/-- Adding a fill keeps the representation. -/
theorem PositionManager.Represents.addFill (h : pm.Represents) : (addFill conf pm).Represents :=
  ⟨h.once, h.elsewhere, h.live, h.nonempty, h.notTerminal⟩

/-- A confirmation that ends an order takes it out of both containers. -/
theorem PositionManager.Represents.removeLiveOrder (h : pm.Represents) {o : OrderDetails}
    (ho : pm.liveOrders.lookup conf.clientOrderId = some o) (hsymbol : o.symbol = conf.symbol) :
    (removeLiveOrder conf pm).Represents := by
  apply (h.consistent.removeLiveOrder conf).represents
  · intro s id hid
    have hindex : id ∈ pm.index s ∧ id ≠ conf.clientOrderId := by
      rw [removeLiveOrder_index] at hid
      split_ifs at hid with hs
      · exact ((h.nodup s).mem_erase_iff.mp hid).symm
      · refine ⟨hid, ?_⟩
        rintro rfl
        exact hs ((h.symbol hid ho).symm.trans hsymbol)
    obtain ⟨o', ho'⟩ := h.live hindex.1
    refine ⟨o', ?_⟩
    rw [removeLiveOrder_liveOrders, Dict.lookup_erase_ite, if_neg hindex.2, ho']
  · intro s ids hids
    simp only [FlowManager.Position.removeLiveOrder] at hids
    split_ifs at hids with hmem hnil
    · rw [Dict.lookup_erase_ite] at hids
      split_ifs at hids
      exact h.nonempty hids
    · rw [Dict.lookup_insert_ite] at hids
      split_ifs at hids
      · obtain rfl := Option.some.inj hids
        exact hnil
      · exact h.nonempty hids
    · exact h.nonempty hids

/-- Writing a live order of the same symbol keeps the representation. -/
theorem PositionManager.Represents.setLiveOrder (h : pm.Represents) {id : String}
    {o o' : OrderDetails} (hid : pm.liveOrders.lookup id = some o) (hsymbol : o'.symbol = o.symbol)
    (hstatus : o'.status.isTerminal = false) : (pm.setLiveOrder id o').Represents := by
  apply (h.consistent.setLiveOrder hid hsymbol hstatus).represents
  · intro s id' hid'
    rw [setLiveOrder_lookup]
    split_ifs
    · exact ⟨o', rfl⟩
    · exact h.live hid'
  · exact h.nonempty

/-- **A confirmation that carries the symbol of its order keeps the invariant.** -/
theorem PositionManager.Represents.processConfirmation (h : pm.Represents)
    (hconf : CarriesSymbol conf pm) : (processConfirmation conf pm).Represents := by
  unfold FlowManager.Position.processConfirmation
  cases hlive : pm.liveOrders.lookup conf.clientOrderId with
  | none => exact h.addFill
  | some liveOrder =>
      dsimp only
      split_ifs with hstatus
      · exact h.addFill.removeLiveOrder hlive (hconf liveOrder hlive)
      · exact h.addFill.setLiveOrder hlive rfl (by simpa using hstatus)

end confirmation

/-! ## Reconciliation -/

/-- Cancelling keeps the representation. -/
theorem Cancelling.represents {buying : Bool} (h : Cancelling buying pm pm')
    (hpm : pm.Represents) : pm'.Represents := by
  apply (h.consistent hpm.consistent).represents
  · intro s id hid
    rw [h.index] at hid
    obtain ⟨o, ho⟩ := hpm.live hid
    rcases h.orders id with heq | ⟨o', -, -, heq⟩
    · exact ⟨o, heq.trans ho⟩
    · exact ⟨_, heq⟩
  · intro s ids hids
    rw [h.liveOrdersBySymbol] at hids
    exact hpm.nonempty hids

/-- A new order is listed, so the list of its symbol is not empty. -/
theorem Placed.represents {order : OrderDetails} (h : Placed order pm pm')
    (hnew : Fresh pm order.clientOrderId) (hstatus : order.status.isTerminal = false)
    (hpm : pm.Represents) : pm'.Represents := by
  apply (h.consistent hnew hstatus hpm.consistent).represents
  · intro s id hid
    obtain ⟨bOrdId, horders⟩ := h.orders
    rw [horders]
    split_ifs with heq
    · exact ⟨_, rfl⟩
    · rw [h.index] at hid
      split_ifs at hid
      · rcases List.mem_append.mp hid with hid | hid
        · exact hpm.live hid
        · exact absurd (List.mem_singleton.mp hid) heq
      · exact hpm.live hid
  · intro s ids hids
    rw [h.lists, Dict.lookup_insert_ite] at hids
    split_ifs at hids
    · rw [← Option.some.inj hids]
      simp
    · exact hpm.nonempty hids

/-- Reconciling with a fresh id keeps the representation. -/
theorem Reconciled.represents {symbol newId : String} (h : Reconciled symbol newId pm pm')
    (hnew : Fresh pm newId) (hpm : pm.Represents) : pm'.Represents := by
  cases h with
  | onTarget => exact hpm
  | placed _ _ _ _ hcancel hplace =>
      exact hplace.represents (hcancel.fresh hnew) rfl (hcancel.represents hpm)

/-- Reconciling that the broker has interrupted keeps the representation. -/
theorem Interrupted.represents {symbol newId : String} (h : Interrupted symbol newId pm pm')
    (hnew : Fresh pm newId) (hpm : pm.Represents) : pm'.Represents := by
  rcases h with ⟨buying, hcancel⟩ | hreconciled
  · exact hcancel.represents hpm
  · exact hreconciled.represents hnew hpm

/-! ## Runs -/

section run

variable {β : Type} {B : Broker β} {w w' : World β} {b₀ : β}

/-- A step of one of the methods of the loop, or something that arrives. -/
inductive MethodStep (B : Broker β) : World β → World β → Prop
  /-- The broker reports a confirmation. -/
  | confirmationArrives (pm : PositionManager) (b b' : β) (conf : TradeConfirmationMessage) :
      MethodStep B ⟨pm, b⟩ ⟨tradeConfirmationCallback conf pm, b'⟩
  /-- A target is set. -/
  | targetArrives (pm : PositionManager) (b : β) (symbol : String) (targetAmount : ℤ) :
      MethodStep B ⟨pm, b⟩ ⟨updateTargetPosition symbol targetAmount pm, b⟩
  | takeConfirmation {conf : TradeConfirmationMessage} {rest : List TradeConfirmationMessage}
      (pm : PositionManager) (b : β) :
      pm.tradeConfirmationsQ = conf :: rest → CarriesSymbol conf pm →
      MethodStep B ⟨pm, b⟩ ⟨processConfirmation conf { pm with tradeConfirmationsQ := rest }, b⟩
  | takeTarget {update : String × ℤ} {rest : List (String × ℤ)} (pm : PositionManager) (b : β) :
      pm.targetUpdatesQ = update :: rest →
      MethodStep B ⟨pm, b⟩ ⟨processTargetUpdate update { pm with targetUpdatesQ := rest }, b⟩
  /-- A symbol is reconciled, however that ends. -/
  | reconcile (w : World β) (symbol newId : String) : Fresh w.pm newId →
      MethodStep B w ((reconcileSymbol B symbol newId).run w).state

/-- **Every step keeps the invariant.** -/
theorem MethodStep.represents (h : MethodStep B w w') (hw : w.pm.Represents) :
    w'.pm.Represents := by
  cases h with
  | confirmationArrives | targetArrives | takeTarget =>
      exact ⟨hw.once, hw.elsewhere, hw.live, hw.nonempty, hw.notTerminal⟩
  | takeConfirmation pm b _ hconf =>
      apply PositionManager.Represents.processConfirmation
      · exact ⟨hw.once, hw.elsewhere, hw.live, hw.nonempty, hw.notTerminal⟩
      · exact hconf
  | reconcile _ symbol newId hnew =>
      have hends : Proc.wp (reconcileSymbol B symbol newId) (fun _ w' => w'.pm.Represents)
          (fun _ w' => w'.pm.Represents) (fun w' => w'.pm.Represents) w :=
        Proc.wp_mono (wp_reconcileSymbol B symbol newId w)
          (fun _ _ hrec => hrec.represents hnew hw) (fun _ _ hint => hint.2.represents hnew hw)
          fun _ hint => hint.represents hnew hw
      exact Proc.wp.state hends

/-- What a run of such steps reaches from the empty position manager. -/
def Reaches (B : Broker β) (b₀ : β) (w : World β) : Prop :=
  Relation.ReflTransGen (MethodStep B) ⟨.init, b₀⟩ w

/-- Every state that calls reach represents its orders. -/
theorem Reaches.represents (h : Reaches B b₀ w) : w.pm.Represents := by
  induction h with
  | refl => exact represents_init
  | tail _ hstep ih => exact hstep.represents ih

/-- **The representation invariant** holds after every step, and what reconciliation raises is
what the broker raises. -/
theorem representation_invariant (B : Broker β) (b₀ : β) (w : World β) (h : Reaches B b₀ w) :
    w.pm.Represents ∧ ∀ symbol newId e w', Fresh w.pm newId →
      (reconcileSymbol B symbol newId).run w = .raised e w' → RaisedBy B e :=
  ⟨h.represents, fun symbol newId _ _ _ hrun =>
    ((wp_reconcileSymbol B symbol newId w).raised hrun).1⟩

end run

/-! ## The methods as runs of steps -/

section methods

variable {β : Type} {B : Broker β}

/-- `_process_trade_confirmations`. -/
theorem steps_processTradeConfirmations (b : β) (pm : PositionManager)
    (hallowed : AllowedAlong CarriesSymbol pm.tradeConfirmationsQ pm) :
    Relation.ReflTransGen (MethodStep B) ⟨pm, b⟩ ⟨(processTradeConfirmations pm).2, b⟩ := by
  have hdrain : ∀ (q : List TradeConfirmationMessage) (affected : Finset String)
      (pm : PositionManager), pm.tradeConfirmationsQ = q → AllowedAlong CarriesSymbol q pm →
      Relation.ReflTransGen (MethodStep B) ⟨pm, b⟩ ⟨(drainConfirmations q affected pm).2, b⟩ := by
    intro q
    induction q with
    | nil => exact fun _ _ _ _ => .refl
    | cons conf rest ih =>
        intro affected pm hq hallowed
        refine .head (.takeConfirmation pm b hq hallowed.1) (ih _ _ ?_ hallowed.2)
        rw [processConfirmation_tradeConfirmationsQ]
  exact hdrain _ ∅ pm rfl hallowed

/-- `_process_target_updates`. -/
theorem steps_processTargetUpdates (b : β) (pm : PositionManager) :
    Relation.ReflTransGen (MethodStep B) ⟨pm, b⟩ ⟨(processTargetUpdates pm).2, b⟩ := by
  have hdrain : ∀ (q : List (String × ℤ)) (affected : Finset String) (pm : PositionManager),
      pm.targetUpdatesQ = q →
      Relation.ReflTransGen (MethodStep B) ⟨pm, b⟩ ⟨(drainTargets q affected pm).2, b⟩ := by
    intro q
    induction q with
    | nil => exact fun _ _ _ => .refl
    | cons update rest ih =>
        intro affected pm hq
        exact .head (.takeTarget pm b hq) (ih _ _ rfl)
  exact hdrain _ ∅ pm rfl

/-- `_reconcile_positions` over any symbols, however it ends. -/
theorem steps_reconcileAll : ∀ (xs : List (String × String)) (w : World β),
    (xs.map Prod.snd).Nodup → (∀ x ∈ xs, Fresh w.pm x.2) →
    Relation.ReflTransGen (MethodStep B) w ((reconcilePositions B xs).run w).state
  | [], w, _, _ => .refl
  | (symbol, newId) :: rest, w, hids, hfresh => by
      have hnew : Fresh w.pm newId := hfresh _ List.mem_cons_self
      have hstep := MethodStep.reconcile (B := B) w symbol newId hnew
      rw [List.map_cons, List.nodup_cons] at hids
      rw [reconcilePositions, Proc.run_bind]
      cases hone : (reconcileSymbol B symbol newId).run w with
      | returned _ mid =>
          rw [hone] at hstep
          refine .head hstep (steps_reconcileAll rest mid hids.2 ?_)
          exact (reconcileSymbol_returned hone).fresh_rest hids.1 fun x hx =>
            hfresh x (List.mem_cons_of_mem _ hx)
      | raised e mid =>
          rw [hone] at hstep
          exact .single hstep
      | stuck mid =>
          rw [hone] at hstep
          exact .single hstep

end methods

/-- A target is set and reconciled: one order is live. -/
theorem representation_invariant_bought :
    ∃ w : World ℤ, Reaches acceptingBroker 0 w ∧ w.pm.liveOrders.lookup "buy" ≠ none ∧
      w.pm.Represents ∧ ∀ symbol newId e w', Fresh w.pm newId →
        (reconcileSymbol acceptingBroker symbol newId).run w = .raised e w' →
        RaisedBy acceptingBroker e := by
  have hreach : Reaches acceptingBroker 0 bought := by
    apply Relation.ReflTransGen.head (.targetArrives _ _ "AMD" 20)
    apply (steps_processTargetUpdates 0 targeted).trans
    apply steps_reconcileAll [("AMD", "buy")]
    · decide
    · intro x hx
      rw [List.mem_singleton.1 hx]
      exact ⟨by decide, fun _ => List.not_mem_nil⟩
  exact ⟨bought, hreach, by decide, representation_invariant acceptingBroker 0 bought hreach⟩

end FlowManager.Position
