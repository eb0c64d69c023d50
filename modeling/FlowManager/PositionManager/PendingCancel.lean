import FlowManager.PositionManager.Commutation
import FlowManager.PositionManager.Reconciliation
import FlowManager.PositionManager.Recording

/-!
# Orders that are pending cancel

`_reconcile_positions` writes `PENDING_CANCEL` into an order when the broker has accepted the
request to cancel it, and asks again only for orders of another status. `_process_trade_confirmations`
writes the status of every confirmation into the order, also over `PENDING_CANCEL`: a partial fill
that comes in before the cancellation makes the manager forget its request. It then cancels the
order a second time, and meanwhile an order of each side is live (`pending_cancel_forgotten`).

In a run in which no confirmation that leaves the order open is taken for an order that is pending
cancel, the mark stays until a terminal confirmation removes the order, the broker accepts at most
one cancel for each client id, and, if it refuses none, the live orders of a symbol that are not
pending cancel are on one side; and a step that does take such a confirmation loses the mark
(`pending_cancel_kept_iff`). The runs record the calls of the broker, and take for a new order an id
that none has been submitted with.
-/

namespace FlowManager.Position

open FlowManager.Lib FlowManager.Broker

variable {β : Type} {B : Broker β}
  {Allowed : TradeConfirmationMessage → PositionManager → Prop}

/-! ## Recorded runs -/

/-- The calls recorded so far. -/
def Config.calls (c : Config (β × List RecordedCall)) : List RecordedCall := c.world.broker.2

/-- The list of calls left out. -/
def Config.forgetCalls (c : Config (β × List RecordedCall)) : Config β :=
  ⟨c.phase, Position.forgetCalls c.world⟩

/-- The client ids that orders have been submitted with. -/
def submittedIds (calls : List RecordedCall) : List String :=
  calls.filterMap fun
    | .cancelOrder _ _ => none
    | .submitOrder clientOrderId _ _ _ _ _ _ => some clientOrderId

/-- One step of the loop, or of the threads that put into its queues, with the calls of the broker
recorded: one that makes no call, or the reconciliation of a symbol with an id that is new. -/
inductive RecordedStep (B : Broker β)
    (Allowed : TradeConfirmationMessage → PositionManager → Prop) :
    Config (β × List RecordedCall) → Config (β × List RecordedCall) → Prop
  | quiet {c c' : Config (β × List RecordedCall)} :
      LoopStep (recording B) Allowed c c' → c'.calls = c.calls → RecordedStep B Allowed c c'
  | reconcile {w w' : World (β × List RecordedCall)} {left : Finset String}
      (symbol newId : String) :
      symbol ∈ left → Fresh w.pm newId → newId ∉ submittedIds w.broker.2 →
      (reconcileSymbol (recording B) symbol newId).run w = .returned () w' →
      RecordedStep B Allowed ⟨.reconciling left, w⟩ ⟨.reconciling (left.erase symbol), w'⟩

/-- What a recorded run reaches from the empty position manager. -/
def RecordedReachable (B : Broker β)
    (Allowed : TradeConfirmationMessage → PositionManager → Prop) (b₀ : β)
    (c : Config (β × List RecordedCall)) : Prop :=
  Relation.ReflTransGen (RecordedStep B Allowed) ⟨.confirmations ∅, .init, b₀, []⟩ c

section steps

variable {c c' : Config (β × List RecordedCall)} {b₀ : β}

/-- A step that is recorded is a step. -/
theorem RecordedStep.loopStep (h : RecordedStep B Allowed c c') :
    LoopStep (recording B) Allowed c c' := by
  rcases h with ⟨hstep, -⟩ | ⟨symbol, newId, hmem, hfresh, -, hrun⟩
  · exact hstep
  · exact .reconcile symbol newId hmem hfresh hrun

/-- In every state that a recorded run reaches the books are consistent. -/
theorem RecordedReachable.consistent (h : RecordedReachable B Allowed b₀ c) :
    c.world.pm.Consistent :=
  Reachable.consistent (Relation.ReflTransGen.mono (fun _ _ => RecordedStep.loopStep) _ _ h)

end steps

/-! ## The calls that reconciling a symbol makes -/

section calls

variable {w w' : World (β × List RecordedCall)} {buying : Bool}

/-- One id of `cancelOpposing`, with its call: nothing, or a request for an order that opposes,
which is marked if the broker accepts. -/
theorem cancelIfOpposing_recorded {id : String}
    (h : (cancelIfOpposing (recording B) buying id).run w = .returned () w') :
    (w' = w ∧ ∀ o, w.pm.liveOrders.lookup id = some o → opposes buying o = false) ∨
      ∃ order accepted, w.pm.liveOrders.lookup id = some order ∧ opposes buying order = true ∧
        w'.broker.2 = w.broker.2 ++ [.cancelOrder id accepted] ∧
        ∀ id', w'.pm.liveOrders.lookup id' = if id' = id ∧ accepted = true then
          some { order with status := .PENDING_CANCEL } else w.pm.liveOrders.lookup id' := by
  rw [cancelIfOpposing, Proc.run_bind, Proc.run_get, Outcome.bind_returned] at h
  rcases hid : w.pm.liveOrders.lookup id with _ | order
  · simp only [hid, Proc.run_pure, Outcome.returned.injEq, true_and] at h
    exact .inl ⟨h.symm, by simp⟩
  simp only [hid] at h
  by_cases hopp : opposes buying order = true
  · rw [if_pos hopp, Proc.run_bind, Outcome.bind_eq_returned] at h
    obtain ⟨accepted, mid, hcall, hrest⟩ := h
    obtain ⟨q, b, rfl⟩ := callBroker_record_returned hcall
    refine .inr ⟨order, accepted, rfl, hopp, ?_⟩
    rcases accepted with _ | _
    · rw [if_neg Bool.false_ne_true, Proc.run_pure, Outcome.returned.injEq] at hrest
      obtain ⟨-, rfl⟩ := hrest
      exact ⟨rfl, by simp⟩
    · rw [if_pos rfl, modifyPm, Proc.run_modify, Outcome.returned.injEq] at hrest
      obtain ⟨-, rfl⟩ := hrest
      exact ⟨rfl, fun id' => by simp [setLiveOrder_lookup]⟩
  · rw [if_neg hopp, Proc.run_pure, Outcome.returned.injEq] at h
    refine .inl ⟨h.2.symm, fun o ho => ?_⟩
    obtain rfl := Option.some.inj ho
    simpa using hopp

/-- The one call of `placeNew`. -/
theorem placeNew_recorded {symbol newId : String} {quantity : ℤ}
    (h : (placeNew (recording B) symbol newId quantity buying).run w = .returned () w') :
    ∃ bOrdId, w'.broker.2 =
      w.broker.2 ++ [.submitOrder newId symbol quantity buying "MARKET" none bOrdId] := by
  rw [placeNew, modifyPm, Proc.run_bind, Proc.run_modify, Outcome.bind_returned, Proc.run_bind,
    Outcome.bind_eq_returned] at h
  obtain ⟨bOrdId, mid, hcall, hrest⟩ := h
  obtain ⟨q, b, rfl⟩ := callBroker_record_returned hcall
  refine ⟨bOrdId, ?_⟩
  have hlookup : (w.pm.track (newOrder newId symbol quantity buying)).liveOrders.lookup newId =
      some (newOrder newId symbol quantity buying) :=
    (Dict.lookup_insert_ite _ _ _ _).trans (if_pos rfl)
  rcases bOrdId with _ | bOrdId
  · simp only [Option.isSome_none, Bool.false_eq_true, if_false, Proc.run_pure,
      Outcome.returned.injEq, true_and] at hrest
    rw [← hrest]
  · simp only [Option.isSome_some, if_true, Proc.run_bind, Proc.run_get, Outcome.bind_returned,
      hlookup, modifyPm, Proc.run_modify, Outcome.returned.injEq, true_and] at hrest
    rw [← hrest]

/-- Requests to cancel only add to the calls. -/
theorem cancelOpposing_calls {ids : List String}
    (h : (cancelOpposing (recording B) buying ids).run w = .returned () w') :
    w.broker.2 <+: w'.broker.2 := by
  induction ids generalizing w with
  | nil =>
      cases h
      exact List.prefix_rfl
  | cons id ids ih =>
      rw [cancelOpposing, Proc.run_bind, Outcome.bind_eq_returned] at h
      obtain ⟨_, mid, hone, hrest⟩ := h
      rcases cancelIfOpposing_recorded hone with ⟨rfl, -⟩ | ⟨_, _, _, _, hcalls, _⟩
      · exact ih hrest
      · exact (hcalls ▸ List.prefix_append _ _).trans (ih hrest)

/-- Reconciling a symbol without a call does nothing. -/
theorem reconcileSymbol_of_calls_eq {symbol newId : String}
    (h : (reconcileSymbol (recording B) symbol newId).run w = .returned () w')
    (hcalls : w'.broker.2 = w.broker.2) : w' = w := by
  rcases reconcileSymbol_cases h with ⟨-, rfl⟩ | ⟨_, _, mid, _, _, hcancel, hplace⟩
  · rfl
  · obtain ⟨_, hplaced⟩ := placeNew_recorded hplace
    have hlength := (cancelOpposing_calls hcancel).length_le
    rw [hplaced] at hcalls
    have hsame := congrArg List.length hcalls
    rw [List.length_append, List.length_singleton] at hsame
    omega

/-- A recorded step is a step of the loop on the broker itself. -/
theorem LoopStep.forgetCalls {c c' : Config (β × List RecordedCall)}
    (h : LoopStep (recording B) Allowed c c') : LoopStep B Allowed c.forgetCalls c'.forgetCalls := by
  rcases h with _ | _ | ⟨_, _, _, hq, hallowed⟩ | ⟨_, _, _, hq⟩ | ⟨_, _, _, _, hq⟩ |
    ⟨_, _, _, _, hq⟩ | ⟨symbol, newId, hmem, hfresh, hrun⟩ | _
  · exact .confirmationArrives ..
  · exact .targetArrives ..
  · exact .takeConfirmation _ _ _ hq hallowed
  · exact .confirmationsDone _ _ _ hq
  · exact .takeTarget _ _ _ _ hq
  · exact .targetsDone _ _ _ _ hq
  · exact .reconcile symbol newId hmem hfresh ((runsAs_reconcileSymbol B symbol newId).returned hrun)
  · exact .nextIteration _

/-- A reconciliation on the broker itself, recorded. -/
theorem reconcile_recorded {symbol newId : String} {left : Finset String} {v : World β}
    (hmem : symbol ∈ left) (hfresh : Fresh w.pm newId)
    (hrun : (reconcileSymbol B symbol newId).run (forgetCalls w) = .returned () v)
    (hnew : ∀ id ∈ submittedIds w.broker.2, w.pm.liveOrders.lookup id = none →
      v.pm.liveOrders.lookup id = none) :
    ∃ w', RecordedStep B Allowed ⟨.reconciling left, w⟩ ⟨.reconciling (left.erase symbol), w'⟩ ∧
      forgetCalls w' = v := by
  have hmap := (runsAs_reconcileSymbol B symbol newId w).trans hrun
  obtain ⟨w', hrecorded, rfl⟩ :
      ∃ w', (reconcileSymbol (recording B) symbol newId).run w = .returned () w' ∧
        forgetCalls w' = v := by
    rcases hcase : (reconcileSymbol (recording B) symbol newId).run w with ⟨_, w'⟩ | ⟨_, _⟩ | _
    · rw [hcase] at hmap
      exact ⟨w', rfl, (Outcome.returned.inj hmap).2⟩
    · rw [hcase] at hmap
      cases hmap
    · rw [hcase] at hmap
      cases hmap
  refine ⟨w', ?_, rfl⟩
  rcases reconcileSymbol_cases hrecorded with ⟨-, rfl⟩ | ⟨_, _, mid, _, _, _, hplace⟩
  · exact .quiet (.reconcile symbol newId hmem hfresh hrecorded) rfl
  · refine .reconcile symbol newId hmem hfresh (fun hsubmitted => ?_) hrecorded
    obtain ⟨_, hlookup⟩ := (placeNew_returned hplace).orders
    have hnone : w'.pm.liveOrders.lookup newId = none := hnew newId hsubmitted hfresh.1
    exact absurd (((hlookup newId).trans (if_pos rfl)).symm.trans hnone) (by simp)

/-- **Every step of the loop can be recorded**, unless it makes an id live again that an order has
been submitted with before. -/
theorem LoopStep.recorded {c : Config (β × List RecordedCall)} {d : Config β}
    (h : LoopStep B Allowed c.forgetCalls d)
    (hnew : ∀ id ∈ submittedIds c.calls, c.world.pm.liveOrders.lookup id = none →
      d.world.pm.liveOrders.lookup id = none) :
    ∃ c', RecordedStep B Allowed c c' ∧ c'.forgetCalls = d := by
  rcases c with ⟨phase, pm, b, calls⟩
  rcases h with ⟨_, _, _, b', conf⟩ | ⟨_, _, _, symbol, targetAmount⟩ | ⟨_, _, _, hq, hallowed⟩ |
    ⟨_, _, _, hq⟩ | ⟨_, _, _, _, hq⟩ | ⟨_, _, _, _, hq⟩ | ⟨symbol, newId, hmem, hfresh, hrun⟩ | _
  · exact ⟨_, .quiet (.confirmationArrives phase pm (b, calls) (b', calls) conf) rfl, rfl⟩
  · exact ⟨_, .quiet (.targetArrives phase pm (b, calls) symbol targetAmount) rfl, rfl⟩
  · exact ⟨_, .quiet (.takeConfirmation _ pm (b, calls) hq hallowed) rfl, rfl⟩
  · exact ⟨_, .quiet (.confirmationsDone _ pm (b, calls) hq) rfl, rfl⟩
  · exact ⟨_, .quiet (.takeTarget _ _ pm (b, calls) hq) rfl, rfl⟩
  · exact ⟨_, .quiet (.targetsDone _ _ pm (b, calls) hq) rfl, rfl⟩
  · obtain ⟨w', hstep, rfl⟩ := reconcile_recorded (w := ⟨pm, b, calls⟩) hmem hfresh hrun hnew
    exact ⟨_, hstep, rfl⟩
  · exact ⟨⟨.confirmations ∅, pm, b, calls⟩, .quiet (.nextIteration _) rfl, rfl⟩

/-- No request to cancel has been refused. -/
def NoneRefused (calls : List RecordedCall) : Prop := ∀ id, .cancelOrder id false ∉ calls

/-- What has not been refused in the end was not refused before. -/
theorem NoneRefused.of_prefix {calls calls' : List RecordedCall} (h : NoneRefused calls')
    (hstart : calls <+: calls') : NoneRefused calls := fun id hid => h id (hstart.subset hid)

/-- An order that has been asked for opposes no more, unless a request was refused. -/
theorem not_opposes_of_cancelIfOpposing_recorded {id : String}
    (h : (cancelIfOpposing (recording B) buying id).run w = .returned () w')
    (hnone : NoneRefused w'.broker.2) {o : OrderDetails}
    (ho : w'.pm.liveOrders.lookup id = some o) : opposes buying o = false := by
  rcases cancelIfOpposing_recorded h with ⟨rfl, hnot⟩ | ⟨order, accepted, _, _, hcalls, hlookup⟩
  · exact hnot o ho
  · rcases accepted with _ | _
    · exact absurd (hcalls ▸ List.mem_append_right _ List.mem_cons_self) (hnone id)
    · rw [hlookup, if_pos ⟨rfl, rfl⟩] at ho
      obtain rfl := Option.some.inj ho
      exact opposes_pendingCancel buying order

/-- Orders that have been asked for oppose no more, unless a request was refused. -/
theorem not_opposes_of_cancelOpposing_recorded {ids : List String}
    (h : (cancelOpposing (recording B) buying ids).run w = .returned () w')
    (hnone : NoneRefused w'.broker.2) {id : String} (hmem : id ∈ ids) {o : OrderDetails}
    (ho : w'.pm.liveOrders.lookup id = some o) : opposes buying o = false := by
  induction ids generalizing w with
  | nil => cases hmem
  | cons id' ids ih =>
      rw [cancelOpposing, Proc.run_bind, Outcome.bind_eq_returned] at h
      obtain ⟨_, mid, hone, hrest⟩ := h
      rcases List.mem_cons.1 hmem with rfl | hmem
      · have hmid := hnone.of_prefix (cancelOpposing_calls hrest)
        exact (cancelOpposing_returned hrest).not_opposes
          (fun _ ho' => not_opposes_of_cancelIfOpposing_recorded hone hmid ho') ho
      · exact ih hrest hmem

end calls

/-! ## At most one accepted cancel for each id -/

/-- The broker has accepted at most one cancel for each id, of an order that it was asked to
submit; while the order is live, it is pending cancel. Every live order was submitted. -/
structure CancelledOnce (pm : PositionManager) (calls : List RecordedCall) : Prop where
  count_le : ∀ id, calls.count (.cancelOrder id true) ≤ 1
  submitted : ∀ {id}, .cancelOrder id true ∈ calls → id ∈ submittedIds calls
  pending : ∀ {id o}, .cancelOrder id true ∈ calls → pm.liveOrders.lookup id = some o →
    o.status = .PENDING_CANCEL
  live : ∀ {id o}, pm.liveOrders.lookup id = some o → id ∈ submittedIds calls

/-- Nothing has been cancelled at the start. -/
theorem cancelledOnce_init : CancelledOnce .init [] where
  count_le := by simp
  submitted := by simp
  pending := by simp
  live h := by cases h

/-- A cancel submits nothing. -/
@[simp] theorem submittedIds_append_cancelOrder (calls : List RecordedCall) (id : String)
    (accepted : Bool) : submittedIds (calls ++ [.cancelOrder id accepted]) = submittedIds calls := by
  simp [submittedIds]

/-- A submission adds its id. -/
@[simp] theorem submittedIds_append_submitOrder (calls : List RecordedCall) (id symbol : String)
    (quantity : ℤ) (sideIsBuy : Bool) (orderType : String) (price : Option PyFloat)
    (bOrdId : Option ℤ) :
    submittedIds (calls ++ [.submitOrder id symbol quantity sideIsBuy orderType price bOrdId]) =
      submittedIds calls ++ [id] := by
  simp [submittedIds]

/-- An order that opposes is not pending cancel. -/
theorem status_ne_of_opposes {buying : Bool} {o : OrderDetails} (h : opposes buying o = true) :
    o.status ≠ .PENDING_CANCEL := by
  simp only [opposes, Bool.and_eq_true, bne_iff_ne] at h
  exact h.2

namespace CancelledOnce

variable {pm pm' : PositionManager} {calls : List RecordedCall}

/-- A change of the live orders that keeps what is pending cancel and adds none. -/
theorem of_lookup (h : CancelledOnce pm calls)
    (hlookup : ∀ id o', pm'.liveOrders.lookup id = some o' →
      ∃ o, pm.liveOrders.lookup id = some o ∧
        (o.status = .PENDING_CANCEL → o'.status = .PENDING_CANCEL)) :
    CancelledOnce pm' calls where
  count_le := h.count_le
  submitted := h.submitted
  pending := by
    intro id o' hmem ho'
    obtain ⟨o, ho, hkeep⟩ := hlookup id o' ho'
    exact hkeep (h.pending hmem ho)
  live := by
    intro id o' ho'
    obtain ⟨o, ho, -⟩ := hlookup id o' ho'
    exact h.live ho

/-- A request for a live order that is not pending cancel is the first that is accepted. -/
theorem ask {id : String} {order : OrderDetails} {accepted : Bool} (h : CancelledOnce pm calls)
    (hid : pm.liveOrders.lookup id = some order) (hstatus : order.status ≠ .PENDING_CANCEL)
    (hlookup : ∀ id', pm'.liveOrders.lookup id' = if id' = id ∧ accepted = true then
      some { order with status := .PENDING_CANCEL } else pm.liveOrders.lookup id') :
    CancelledOnce pm' (calls ++ [.cancelOrder id accepted]) := by
  have hfirst : .cancelOrder id true ∉ calls := fun hmem => hstatus (h.pending hmem hid)
  refine ⟨fun id' => ?_, ?_, ?_, ?_⟩
  · by_cases hid' : id = id'
    · subst hid'
      rw [List.count_append, List.count_eq_zero.mpr hfirst, zero_add]
      exact List.count_le_length
    · simpa [List.count_append, List.count_cons, hid'] using h.count_le id'
  · intro id' hmem
    rw [submittedIds_append_cancelOrder]
    rcases List.mem_append.mp hmem with hmem | hmem
    · exact h.submitted hmem
    · obtain ⟨rfl, -⟩ : id' = id ∧ true = accepted := by simpa using hmem
      exact h.live hid
  · intro id' o hmem ho
    rw [hlookup] at ho
    split_ifs at ho with hmarked
    · obtain rfl := Option.some.inj ho
      rfl
    · rcases List.mem_append.mp hmem with hmem | hmem
      · exact h.pending hmem ho
      · obtain ⟨rfl, rfl⟩ : id' = id ∧ true = accepted := by simpa using hmem
        exact absurd ⟨rfl, rfl⟩ hmarked
  · intro id' o ho
    rw [submittedIds_append_cancelOrder]
    rw [hlookup] at ho
    split_ifs at ho with hmarked
    · obtain ⟨rfl, -⟩ := hmarked
      exact h.live hid
    · exact h.live ho

/-- A new order, under an id that none has been submitted with. -/
theorem place {symbol newId : String} {quantity : ℤ} {buying : Bool} {bOrdId : Option ℤ}
    (h : CancelledOnce pm calls) (hnew : newId ∉ submittedIds calls)
    (hplaced : Placed (newOrder newId symbol quantity buying) pm pm') :
    CancelledOnce pm' (calls ++ [.submitOrder newId symbol quantity buying "MARKET" none bOrdId]) := by
  obtain ⟨_, hlookup⟩ := hplaced.orders
  have hmem_iff : ∀ {id}, .cancelOrder id true ∈ calls ++
      [.submitOrder newId symbol quantity buying "MARKET" none bOrdId] →
      .cancelOrder id true ∈ calls := by
    intro id hmem
    simpa using hmem
  refine ⟨fun id => ?_, ?_, ?_, ?_⟩
  · simpa [List.count_append, List.count_cons] using h.count_le id
  · intro id hmem
    rw [submittedIds_append_submitOrder]
    exact List.mem_append_left _ (h.submitted (hmem_iff hmem))
  · intro id o hmem ho
    have hsubmitted := h.submitted (hmem_iff hmem)
    have hne : id ≠ newId := fun heq => hnew (heq ▸ hsubmitted)
    rw [hlookup] at ho
    split_ifs at ho with hid
    · exact absurd hid hne
    · exact h.pending (hmem_iff hmem) ho
  · intro id o ho
    rw [submittedIds_append_submitOrder]
    rw [hlookup] at ho
    split_ifs at ho with hid
    · rw [hid]
      exact List.mem_append_right _ List.mem_cons_self
    · exact List.mem_append_left _ (h.live ho)

end CancelledOnce

section reconcile

variable {w w' : World (β × List RecordedCall)} {buying : Bool}

/-- **The cancels before an order** ask once for each. -/
theorem cancelledOnce_cancelOpposing {ids : List String}
    (h : (cancelOpposing (recording B) buying ids).run w = .returned () w')
    (hw : CancelledOnce w.pm w.broker.2) :
    CancelledOnce w'.pm w'.broker.2 ∧ submittedIds w'.broker.2 = submittedIds w.broker.2 := by
  induction ids generalizing w with
  | nil =>
      cases h
      exact ⟨hw, rfl⟩
  | cons id ids ih =>
      rw [cancelOpposing, Proc.run_bind, Outcome.bind_eq_returned] at h
      obtain ⟨_, mid, hone, hrest⟩ := h
      rcases cancelIfOpposing_recorded hone with ⟨rfl, -⟩ | ⟨order, accepted, hid, hopp, hcalls, hlookup⟩
      · exact ih hrest hw
      · have hmid : CancelledOnce mid.pm mid.broker.2 := by
          rw [hcalls]
          exact hw.ask hid (status_ne_of_opposes hopp) hlookup
        obtain ⟨hw', hids⟩ := ih hrest hmid
        rw [hids, hcalls, submittedIds_append_cancelOrder]
        exact ⟨hw', rfl⟩

/-- **Reconciling a symbol asks for each order once.** -/
theorem cancelledOnce_reconcileSymbol {symbol newId : String}
    (h : (reconcileSymbol (recording B) symbol newId).run w = .returned () w')
    (hnew : newId ∉ submittedIds w.broker.2) (hw : CancelledOnce w.pm w.broker.2) :
    CancelledOnce w'.pm w'.broker.2 := by
  rcases reconcileSymbol_cases h with ⟨-, rfl⟩ | ⟨delta, buying, mid, _, _, hcancel, hplace⟩
  · exact hw
  · obtain ⟨hmid, hids⟩ := cancelledOnce_cancelOpposing hcancel hw
    obtain ⟨bOrdId, hcalls⟩ := placeNew_recorded hplace
    rw [hcalls]
    exact hmid.place (hids ▸ hnew) (placeNew_returned hplace)

end reconcile

/-! ## One side of each symbol -/

/-- The live orders of a symbol that are not pending cancel are on the same side. -/
def OneSided (pm : PositionManager) : Prop :=
  ∀ id id' o o', pm.liveOrders.lookup id = some o → pm.liveOrders.lookup id' = some o' →
    o.symbol = o'.symbol → o.status ≠ .PENDING_CANCEL → o'.status ≠ .PENDING_CANCEL →
    o.sideIsBuy = o'.sideIsBuy

/-- Nothing is live at the start. -/
theorem oneSided_init : OneSided .init := fun _ _ _ _ h => by cases h

/-- A change of the live orders that keeps sides, symbols and what is pending cancel. -/
theorem OneSided.of_lookup {pm pm' : PositionManager} (h : OneSided pm)
    (hlookup : ∀ id o', pm'.liveOrders.lookup id = some o' →
      ∃ o, pm.liveOrders.lookup id = some o ∧ o'.symbol = o.symbol ∧ o'.sideIsBuy = o.sideIsBuy ∧
        (o.status = .PENDING_CANCEL → o'.status = .PENDING_CANCEL)) : OneSided pm' := by
  intro id₁ id₂ o₁' o₂' h₁ h₂ hsymbol hstatus₁ hstatus₂
  obtain ⟨o₁, ho₁, hsymbol₁, hside₁, hkeep₁⟩ := hlookup id₁ o₁' h₁
  obtain ⟨o₂, ho₂, hsymbol₂, hside₂, hkeep₂⟩ := hlookup id₂ o₂' h₂
  rw [hsymbol₁, hsymbol₂] at hsymbol
  rw [hside₁, hside₂]
  exact h _ _ _ _ ho₁ ho₂ hsymbol (fun heq => hstatus₁ (hkeep₁ heq)) fun heq => hstatus₂ (hkeep₂ heq)

section reconcile

variable {w w' : World (β × List RecordedCall)}

/-- An order of another symbol that is not pending cancel was there before. -/
theorem lookup_of_symbol_ne {pm mid pm' : PositionManager} {buying : Bool}
    {symbol newId : String} {quantity : ℤ} (hcancelling : Cancelling buying pm mid)
    (hplaced : Placed (newOrder newId symbol quantity buying) mid pm') {id : String}
    {o : OrderDetails} (ho : pm'.liveOrders.lookup id = some o) (hsymbol : o.symbol ≠ symbol)
    (hstatus : o.status ≠ .PENDING_CANCEL) : pm.liveOrders.lookup id = some o := by
  obtain ⟨_, hlookup⟩ := hplaced.orders
  rw [hlookup] at ho
  split_ifs at ho with hid
  · obtain rfl := Option.some.inj ho
    exact absurd rfl hsymbol
  · rcases hcancelling.orders id with heq | ⟨_, _, _, heq⟩
    · rw [← heq, ho]
    · obtain rfl := Option.some.inj (ho.symm.trans heq)
      exact absurd rfl hstatus

/-- **Reconciling a symbol leaves one side of it**, if no request is refused. -/
theorem oneSided_reconcileSymbol {symbol newId : String}
    (h : (reconcileSymbol (recording B) symbol newId).run w = .returned () w')
    (hpm : w.pm.Consistent) (hw : NoneRefused w.broker.2 → OneSided w.pm)
    (hnone : NoneRefused w'.broker.2) : OneSided w'.pm := by
  rcases reconcileSymbol_cases h with ⟨-, rfl⟩ | ⟨delta, buying, mid, _, _, hcancel, hplace⟩
  · exact hw hnone
  obtain ⟨bOrdId, hcalls⟩ := placeNew_recorded hplace
  have hmid : NoneRefused mid.broker.2 := hnone.of_prefix (hcalls ▸ List.prefix_append _ _)
  have hcancelling := cancelOpposing_returned hcancel
  have hplaced := placeNew_returned hplace
  have hside : ∀ {id o}, w'.pm.liveOrders.lookup id = some o → o.symbol = symbol →
      o.status ≠ .PENDING_CANCEL → o.sideIsBuy = buying := by
    intro id o ho hsymbol hstatus
    have hnot : ∀ id ∈ mid.pm.index symbol, ∀ o, mid.pm.liveOrders.lookup id = some o →
        opposes buying o = false := by
      intro id' hid' o' ho'
      rw [hcancelling.index] at hid'
      exact not_opposes_of_cancelOpposing_recorded hcancel hmid hid' ho'
    rcases side_of_placed (hcancelling.consistent hpm) hnot hplaced ho hsymbol with hpending | hbuying
    · exact absurd (by simpa [isPendingCancel] using hpending) hstatus
    · exact hbuying
  intro id id' o o' ho ho' hsymbol hstatus hstatus'
  by_cases heq : o.symbol = symbol
  · rw [hside ho heq hstatus, hside ho' (hsymbol ▸ heq) hstatus']
  · have hbefore := lookup_of_symbol_ne hcancelling hplaced ho heq hstatus
    have hbefore' := lookup_of_symbol_ne hcancelling hplaced ho' (hsymbol ▸ heq) hstatus'
    exact hw (hmid.of_prefix (cancelOpposing_calls hcancel)) _ _ _ _ hbefore hbefore' hsymbol hstatus
      hstatus'

end reconcile

/-! ## The mark of an order that is pending cancel -/

/-- The order of the id is pending cancel. -/
def PositionManager.PendingCancel (pm : PositionManager) (id : String) : Prop :=
  ∃ o, pm.liveOrders.lookup id = some o ∧ o.status = .PENDING_CANCEL

/-- The confirmation does not overwrite the mark of an order that is pending cancel: it ends the
order, or says that it is pending cancel. -/
def SparesPendingCancel (conf : TradeConfirmationMessage) (pm : PositionManager) : Prop :=
  pm.PendingCancel conf.clientOrderId → conf.status.isTerminal = true ∨ conf.status = .PENDING_CANCEL

/-- What is pending cancel stays so, or the step takes a terminal confirmation for it from the queue
and removes it. -/
def KeepsPendingCancel (c c' : Config β) : Prop :=
  ∀ id, c.world.pm.PendingCancel id → c'.world.pm.PendingCancel id ∨
    c'.world.pm.liveOrders.lookup id = none ∧ ∃ conf, conf.clientOrderId = id ∧
      conf.status.isTerminal = true ∧
      c.world.pm.tradeConfirmationsQ = conf :: c'.world.pm.tradeConfirmationsQ

/-- A step that leaves the live orders keeps every mark. -/
theorem keepsPendingCancel_of_liveOrders {c c' : Config β}
    (h : c'.world.pm.liveOrders = c.world.pm.liveOrders) : KeepsPendingCancel c c' := by
  rintro id ⟨o, ho, hstatus⟩
  exact .inl ⟨o, by rw [h, ho], hstatus⟩

/-- **A confirmation keeps the marks exactly when it spares them.** -/
theorem keepsPendingCancel_takeConfirmation_iff {pm : PositionManager}
    {conf : TradeConfirmationMessage} {rest : List TradeConfirmationMessage} {phase phase' : Phase}
    {b b' : β} (hq : pm.tradeConfirmationsQ = conf :: rest) :
    KeepsPendingCancel ⟨phase, pm, b⟩
        ⟨phase', processConfirmation conf { pm with tradeConfirmationsQ := rest }, b'⟩ ↔
      SparesPendingCancel conf pm := by
  have hafter : ∀ {o}, pm.liveOrders.lookup conf.clientOrderId = some o →
      (processConfirmation conf { pm with tradeConfirmationsQ := rest }).liveOrders.lookup
        conf.clientOrderId = orderAfter conf (some o) := by
    intro o ho
    rw [processConfirmation_liveOrders_lookup, if_pos rfl]
    exact congrArg (orderAfter conf) ho
  constructor
  · rintro hkeeps ⟨o, ho, hstatus⟩
    by_cases hterminal : conf.status.isTerminal = true
    · exact .inl hterminal
    · right
      have hlookup := hafter ho
      simp only [orderAfter, Option.bind_some, hterminal] at hlookup
      rcases hkeeps _ ⟨o, ho, hstatus⟩ with ⟨o', ho', hstatus'⟩ | ⟨hnone, -⟩
      · obtain rfl := Option.some.inj (hlookup.symm.trans ho')
        exact hstatus'
      · exact absurd (hlookup.symm.trans hnone) (by simp)
  · rintro hspares id ⟨o, ho, hstatus⟩
    by_cases hid : id = conf.clientOrderId
    · subst hid
      rcases hspares ⟨o, ho, hstatus⟩ with hterminal | hpending
      · right
        refine ⟨?_, conf, rfl, hterminal, ?_⟩
        · rw [hafter ho]
          simp [orderAfter, hterminal]
        · rw [processConfirmation_tradeConfirmationsQ, hq]
      · left
        have hlive : conf.status.isTerminal = false := by rw [hpending]; rfl
        refine ⟨{ o with
          filledQuantity := o.filledQuantity + conf.filledQuantity, status := conf.status },
          (hafter ho).trans ?_, hpending⟩
        simp [orderAfter, hlive]
    · left
      refine ⟨o, ?_, hstatus⟩
      rw [processConfirmation_liveOrders_lookup, if_neg hid]
      exact ho

/-- Reconciling a symbol keeps the marks: a request is for an order without one, and a new order
has a new id. -/
theorem PositionManager.PendingCancel.reconciled {pm pm' : PositionManager} {symbol newId id : String}
    (hid : pm.PendingCancel id) (h : Reconciled symbol newId pm pm') (hnew : Fresh pm newId) :
    pm'.PendingCancel id := by
  obtain ⟨o, ho, hstatus⟩ := hid
  rcases h with _ | ⟨delta, buying, _, _, hcancelling, hplaced⟩
  · exact ⟨o, ho, hstatus⟩
  · have hne : ¬ id = newId := by
      rintro rfl
      exact absurd (hnew.1.symm.trans ho) (by simp)
    obtain ⟨_, hlookup⟩ := hplaced.orders
    refine ⟨o, ?_, hstatus⟩
    refine (hlookup id).trans ((if_neg hne).trans ?_)
    rcases hcancelling.orders id with heq | ⟨o', ho', hopp, -⟩
    · rw [heq, ho]
    · obtain rfl := Option.some.inj (ho.symm.trans ho')
      exact absurd hstatus (status_ne_of_opposes hopp)

/-! ## Steps and runs -/

/-- Any confirmation is taken. -/
def anyConfirmation : TradeConfirmationMessage → PositionManager → Prop := fun _ _ => True

/-- What a step can do to the live orders: it takes a confirmation, reconciles a symbol, or leaves
them; the last two whatever confirmations are allowed. -/
theorem LoopStep.liveOrders_cases {c c' : Config β} (h : LoopStep B Allowed c c') :
    (∃ conf rest affected pm b, pm.tradeConfirmationsQ = conf :: rest ∧ Allowed conf pm ∧
      c = ⟨.confirmations affected, pm, b⟩ ∧
      c' = ⟨.confirmations (insert conf.symbol affected),
        processConfirmation conf { pm with tradeConfirmationsQ := rest }, b⟩) ∨
      (∃ symbol newId, Fresh c.world.pm newId ∧
        (reconcileSymbol B symbol newId).run c.world = .returned () c'.world ∧
        ∀ Allowed', LoopStep B Allowed' c c') ∨
      c'.world.pm.liveOrders = c.world.pm.liveOrders ∧ ∀ Allowed', LoopStep B Allowed' c c' := by
  rcases h with _ | _ | ⟨affected, pm, b, hq, hallowed⟩ | ⟨_, _, _, hq⟩ | ⟨_, _, _, _, hq⟩ |
    ⟨_, _, _, _, hq⟩ | ⟨symbol, newId, hmem, hfresh, hrun⟩ | _
  · exact .inr (.inr ⟨rfl, fun _ => .confirmationArrives ..⟩)
  · exact .inr (.inr ⟨rfl, fun _ => .targetArrives ..⟩)
  · exact .inl ⟨_, _, affected, pm, b, hq, hallowed, rfl, rfl⟩
  · exact .inr (.inr ⟨rfl, fun _ => .confirmationsDone _ _ _ hq⟩)
  · exact .inr (.inr ⟨rfl, fun _ => .takeTarget _ _ _ _ hq⟩)
  · exact .inr (.inr ⟨rfl, fun _ => .targetsDone _ _ _ _ hq⟩)
  · exact .inr (.inl ⟨symbol, newId, hfresh, hrun, fun _ => .reconcile symbol newId hmem hfresh hrun⟩)
  · exact .inr (.inr ⟨rfl, fun _ => .nextIteration _⟩)

/-- **A step keeps the marks, unless it takes a confirmation that overwrites one.** -/
theorem LoopStep.keepsPendingCancel {c c' : Config β} (h : LoopStep B SparesPendingCancel c c') :
    KeepsPendingCancel c c' := by
  rcases h.liveOrders_cases with ⟨conf, rest, _, pm, _, hq, hspares, rfl, rfl⟩ |
    ⟨_, _, hfresh, hrun, -⟩ | ⟨hsame, -⟩
  · exact (keepsPendingCancel_takeConfirmation_iff hq).mpr hspares
  · exact fun id hid => .inl (hid.reconciled (reconcileSymbol_returned hrun) hfresh)
  · exact keepsPendingCancel_of_liveOrders hsame

/-- **A step that keeps the marks takes no confirmation that overwrites one.** -/
theorem LoopStep.spares {c c' : Config β} (h : LoopStep B Allowed c c')
    (hkeeps : KeepsPendingCancel c c') : LoopStep B SparesPendingCancel c c' := by
  rcases h.liveOrders_cases with ⟨conf, rest, affected, pm, b, hq, -, rfl, rfl⟩ |
    ⟨_, _, _, _, hany⟩ | ⟨-, hany⟩
  · exact .takeConfirmation affected pm b hq
      ((keepsPendingCancel_takeConfirmation_iff hq).mp hkeeps)
  · exact hany _
  · exact hany _

section steps

variable {c c' : Config (β × List RecordedCall)} {b₀ : β}

/-- A step that keeps every mark takes only confirmations that spare them. -/
theorem RecordedStep.spares (h : RecordedStep B Allowed c c')
    (hkeeps : KeepsPendingCancel c c') : RecordedStep B SparesPendingCancel c c' := by
  rcases h with ⟨hstep, hcalls⟩ | ⟨symbol, newId, hmem, hfresh, hnew, hrun⟩
  · exact .quiet (hstep.spares hkeeps) hcalls
  · exact .reconcile symbol newId hmem hfresh hnew hrun

/-- What the marks keep in step: the calls are those of one request for each order, and the orders
without a mark are on one side. -/
structure MarksHold (c : Config (β × List RecordedCall)) : Prop where
  cancelledOnce : CancelledOnce c.world.pm c.calls
  oneSided : NoneRefused c.calls → OneSided c.world.pm

/-- A confirmation that spares the marks leaves no order that was not there, and keeps sides,
symbols and marks. -/
theorem lookup_processConfirmation {pm : PositionManager} {conf : TradeConfirmationMessage}
    (hspares : SparesPendingCancel conf pm) {id : String} {o' : OrderDetails}
    (ho' : (processConfirmation conf pm).liveOrders.lookup id = some o') :
    ∃ o, pm.liveOrders.lookup id = some o ∧ o'.symbol = o.symbol ∧ o'.sideIsBuy = o.sideIsBuy ∧
      (o.status = .PENDING_CANCEL → o'.status = .PENDING_CANCEL) := by
  rw [processConfirmation_liveOrders_lookup] at ho'
  split_ifs at ho' with hid
  · subst hid
    rcases horder : pm.liveOrders.lookup conf.clientOrderId with _ | o
    · simp [horder, orderAfter] at ho'
    · simp only [horder, orderAfter, Option.bind_some] at ho'
      split_ifs at ho' with hterminal
      obtain rfl := Option.some.inj ho'
      refine ⟨o, rfl, rfl, rfl, fun hstatus => ?_⟩
      exact (hspares ⟨o, horder, hstatus⟩).resolve_left hterminal
  · exact ⟨o', ho', rfl, rfl, fun h => h⟩

/-- What keeps sides, symbols and marks keeps the marks in step. -/
theorem MarksHold.of_lookup (h : MarksHold c) (hcalls : c'.calls = c.calls)
    (hlookup : ∀ id o', c'.world.pm.liveOrders.lookup id = some o' →
      ∃ o, c.world.pm.liveOrders.lookup id = some o ∧ o'.symbol = o.symbol ∧
        o'.sideIsBuy = o.sideIsBuy ∧ (o.status = .PENDING_CANCEL → o'.status = .PENDING_CANCEL)) :
    MarksHold c' where
  cancelledOnce := by
    rw [hcalls]
    refine h.cancelledOnce.of_lookup fun id o' ho' => ?_
    obtain ⟨o, ho, -, -, hkeep⟩ := hlookup id o' ho'
    exact ⟨o, ho, hkeep⟩
  oneSided := by
    rw [hcalls]
    exact fun hnone => (h.oneSided hnone).of_lookup hlookup

/-- What leaves the live orders and the calls keeps the marks in step. -/
theorem MarksHold.of_liveOrders (h : MarksHold c) (hcalls : c'.calls = c.calls)
    (hsame : c'.world.pm.liveOrders = c.world.pm.liveOrders) : MarksHold c' :=
  h.of_lookup hcalls fun _ o' ho' => ⟨o', hsame ▸ ho', rfl, rfl, fun hstatus => hstatus⟩

/-- **A step whose confirmation spares the marks** keeps them in step. -/
theorem MarksHold.step (h : MarksHold c) (hc : c.world.pm.Consistent)
    (hstep : RecordedStep B SparesPendingCancel c c') : MarksHold c' := by
  rcases hstep with ⟨hloop, hcalls⟩ | ⟨symbol, newId, -, -, hnew, hrun⟩
  · rcases hloop.liveOrders_cases with ⟨conf, rest, _, pm, _, hq, hspares, rfl, rfl⟩ |
      ⟨_, _, -, hrun, -⟩ | ⟨hsame, -⟩
    · have hspares' : SparesPendingCancel conf { pm with tradeConfirmationsQ := rest } := hspares
      exact h.of_lookup hcalls fun _ _ ho' => lookup_processConfirmation hspares' ho'
    · exact h.of_liveOrders hcalls (by rw [reconcileSymbol_of_calls_eq hrun hcalls])
    · exact h.of_liveOrders hcalls hsame
  · exact ⟨cancelledOnce_reconcileSymbol hrun hnew h.cancelledOnce,
      oneSided_reconcileSymbol hrun hc h.oneSided⟩

/-- **In a run that overwrites no mark, the marks hold.** -/
theorem RecordedReachable.marksHold (h : RecordedReachable B SparesPendingCancel b₀ c) :
    MarksHold c := by
  induction h with
  | refl => exact ⟨cancelledOnce_init, fun _ => oneSided_init⟩
  | tail hreach hstep ih => exact ih.step (RecordedReachable.consistent hreach) hstep

end steps

/-- **Pending cancels are kept exactly as long as no confirmation overwrites one.** In a state that a
run without such a confirmation reaches, the broker has accepted at most one cancel for each client
id, and if it has refused none, the live orders of a symbol that are not pending cancel are on one
side. A further step keeps every order that is pending cancel so until a terminal confirmation
removes it exactly if it takes no such confirmation either. -/
theorem pending_cancel_kept_iff {β : Type} {B : Broker β} {b₀ : β}
    {c : Config (β × List RecordedCall)} (h : RecordedReachable B SparesPendingCancel b₀ c) :
    (∀ id, c.calls.count (.cancelOrder id true) ≤ 1) ∧
      ((∀ id, .cancelOrder id false ∉ c.calls) → ∀ id id' o o',
        c.world.pm.liveOrders.lookup id = some o → c.world.pm.liveOrders.lookup id' = some o' →
        o.symbol = o'.symbol → o.status ≠ .PENDING_CANCEL → o'.status ≠ .PENDING_CANCEL →
        o.sideIsBuy = o'.sideIsBuy) ∧
      ∀ c', RecordedStep B anyConfirmation c c' →
        (KeepsPendingCancel c c' ↔ RecordedStep B SparesPendingCancel c c') := by
  refine ⟨h.marksHold.cancelledOnce.count_le, h.marksHold.oneSided, fun c' hstep => ?_⟩
  exact ⟨hstep.spares, fun hspares => hspares.loopStep.keepsPendingCancel⟩

/-! ## A mark that is lost -/

/-- From the start of an iteration to its reconciliation, in a recorded run. -/
theorem recordedSteps_toReconciling {pm : PositionManager} (b : β × List RecordedCall)
    (hallowed : AllowedAlong Allowed pm.tradeConfirmationsQ pm) :
    Relation.ReflTransGen (RecordedStep B Allowed) ⟨.confirmations ∅, pm, b⟩
      ⟨.reconciling (symbolsToReconcile pm), drained pm, b⟩ :=
  have hquiet : ∀ {c c' : Config (β × List RecordedCall)}, LoopStep (recording B) Allowed c c' →
      c'.world.broker = c.world.broker → RecordedStep B Allowed c c' :=
    fun h hb => .quiet h (congrArg Prod.snd hb)
  (drainConfirmations_rel hquiet b _ ∅ pm rfl hallowed).trans (drainTargets_rel hquiet b _ _ ∅ _ rfl)

/-- What reconciling `AMD` leaves, on the broker that accepts every request. -/
def reconciledAmd (newId : String) (w : World (ℤ × List RecordedCall)) :
    World (ℤ × List RecordedCall) :=
  ((reconcileSymbol (recording acceptingBroker) "AMD" newId).run ⟨drained w.pm, w.broker⟩).state

/-- A target of 20 is set, and a buy order placed. -/
def boughtFirst : World (ℤ × List RecordedCall) :=
  reconciledAmd "buy" ⟨updateTargetPosition "AMD" 20 .init, 0, []⟩

/-- A target of 5 is set: the buy order is pending cancel, and a sell order placed. -/
def soldThen : World (ℤ × List RecordedCall) :=
  reconciledAmd "sell" ⟨updateTargetPosition "AMD" 5 boughtFirst.pm, boughtFirst.broker⟩

/-- A partial fill of the buy order comes in. -/
def fillArrived : PositionManager :=
  tradeConfirmationCallback (reportOf "buy" .PARTIALLY_FILLED) soldThen.pm

/-- It leaves the symbol on target, and the mark is lost. -/
def markLost : World (ℤ × List RecordedCall) := reconciledAmd "unused" ⟨fillArrived, soldThen.broker⟩

/-- A target of 0 is set: the buy order is cancelled again. -/
def cancelledTwice : World (ℤ × List RecordedCall) :=
  reconciledAmd "sell again" ⟨updateTargetPosition "AMD" 0 markLost.pm, markLost.broker⟩

/-- An iteration of the loop that reconciles `AMD`, from one loop boundary to the next, once
something has arrived. -/
theorem recordedSteps_iteration {w : World (ℤ × List RecordedCall)} {newId : String}
    (hallowed : AllowedAlong Allowed w.pm.tradeConfirmationsQ w.pm)
    (haffected : symbolsToReconcile w.pm = {"AMD"})
    (hfresh : Fresh (drained w.pm) newId) (hnew : newId ∉ submittedIds w.broker.2)
    (hrun : (reconcileSymbol (recording acceptingBroker) "AMD" newId).run ⟨drained w.pm, w.broker⟩ =
      .returned () (reconciledAmd newId w)) :
    Relation.ReflTransGen (RecordedStep acceptingBroker Allowed) ⟨.confirmations ∅, w⟩
      ⟨.reconciling ∅, reconciledAmd newId w⟩ := by
  have hstart : Relation.ReflTransGen (RecordedStep acceptingBroker Allowed) ⟨.confirmations ∅, w⟩ _ :=
    recordedSteps_toReconciling w.broker hallowed
  rw [haffected] at hstart
  have hlast : RecordedStep acceptingBroker Allowed ⟨.reconciling {"AMD"}, drained w.pm, w.broker⟩
      ⟨.reconciling (({"AMD"} : Finset String).erase "AMD"), reconciledAmd newId w⟩ :=
    .reconcile "AMD" newId (Finset.mem_singleton_self _) hfresh hnew hrun
  rw [Finset.erase_singleton] at hlast
  exact hstart.tail hlast

/-- The ids of `AMD` are all that is listed. -/
theorem fresh_of_amd {pm : PositionManager} {newId : String} (hlive : pm.liveOrders.lookup newId = none)
    (hlisted : newId ∉ pm.index "AMD") (hkeys : pm.liveOrdersBySymbol.keys ⊆ {"AMD"}) :
    Fresh pm newId := by
  refine ⟨hlive, fun s hs => ?_⟩
  by_cases hkey : s = "AMD"
  · rw [hkey] at hs
    exact hlisted hs
  · have hnone : pm.liveOrdersBySymbol.lookup s = none := by
      rw [Finmap.lookup_eq_none]
      intro hmem
      exact hkey (by simpa using hkeys (Finmap.mem_keys.2 hmem))
    simp [PositionManager.index, Dict.getD, hnone] at hs

/-- From a loop boundary, another target is set. -/
theorem RecordedReachable.target {w : World (ℤ × List RecordedCall)} {targetAmount : ℤ}
    (h : RecordedReachable acceptingBroker Allowed 0 ⟨.reconciling ∅, w⟩) :
    RecordedReachable acceptingBroker Allowed 0
      ⟨.confirmations ∅, updateTargetPosition "AMD" targetAmount w.pm, w.broker⟩ :=
  (h.tail (.quiet (.nextIteration _) rfl)).tail (.quiet (.targetArrives _ _ _ "AMD" targetAmount) rfl)

/-- A recorded run places the buy order. -/
theorem reachable_boughtFirst :
    RecordedReachable acceptingBroker Allowed 0 ⟨.reconciling ∅, boughtFirst⟩ := by
  have htarget : RecordedReachable acceptingBroker Allowed 0
      ⟨.confirmations ∅, updateTargetPosition "AMD" 20 .init, 0, []⟩ :=
    .single (.quiet (.targetArrives _ _ _ "AMD" 20) rfl)
  exact htarget.trans (recordedSteps_iteration trivial (by decide)
    (fresh_of_amd (by decide) (by decide) (by decide)) (by decide) rfl)

/-- A recorded run cancels it and places the sell order. -/
theorem reachable_soldThen :
    RecordedReachable acceptingBroker Allowed 0 ⟨.reconciling ∅, soldThen⟩ :=
  reachable_boughtFirst.target.trans (recordedSteps_iteration trivial (by decide)
    (fresh_of_amd (by decide) (by decide) (by decide)) (by decide) rfl)

/-- The partial fill waits in the queue. -/
theorem reachable_fillArrived : RecordedReachable acceptingBroker Allowed 0
    ⟨.confirmations ∅, fillArrived, soldThen.broker⟩ :=
  (reachable_soldThen.tail (.quiet (.nextIteration _) rfl)).tail
    (.quiet (.confirmationArrives _ _ _ soldThen.broker (reportOf "buy" .PARTIALLY_FILLED)) rfl)

/-- A recorded run loses the mark. -/
theorem reachable_markLost :
    RecordedReachable acceptingBroker anyConfirmation 0 ⟨.reconciling ∅, markLost⟩ :=
  reachable_fillArrived.trans (recordedSteps_iteration ⟨trivial, trivial⟩ (by decide)
    (fresh_of_amd (by decide) (by decide) (by decide)) (by decide) rfl)

/-- A recorded run cancels the buy order twice. -/
theorem reachable_cancelledTwice :
    RecordedReachable acceptingBroker anyConfirmation 0 ⟨.reconciling ∅, cancelledTwice⟩ :=
  reachable_markLost.target.trans (recordedSteps_iteration trivial (by decide)
    (fresh_of_amd (by decide) (by decide) (by decide)) (by decide) rfl)

/-- The fill is taken. -/
def fillTaken : PositionManager :=
  processConfirmation (reportOf "buy" .PARTIALLY_FILLED) { fillArrived with tradeConfirmationsQ := [] }

/-- The step that takes the partial fill. -/
theorem step_fillTaken : RecordedStep acceptingBroker anyConfirmation
    ⟨.confirmations ∅, fillArrived, soldThen.broker⟩
    ⟨.confirmations {"AMD"}, fillTaken, soldThen.broker⟩ :=
  .quiet (.takeConfirmation ∅ fillArrived soldThen.broker rfl trivial) rfl

/-- The fill overwrites the mark. -/
theorem not_keepsPendingCancel_fillTaken : ¬ KeepsPendingCancel
    (⟨.confirmations ∅, fillArrived, soldThen.broker⟩ : Config (ℤ × List RecordedCall))
    ⟨.confirmations {"AMD"}, fillTaken, soldThen.broker⟩ := by
  intro h
  have hafter : (fillTaken.liveOrders.lookup "buy").map (·.status) = some .PARTIALLY_FILLED := by
    decide
  rcases h "buy" ⟨_, rfl, rfl⟩ with ⟨o, ho, hstatus⟩ | ⟨hnone, -⟩
  · have hsame : fillTaken.liveOrders.lookup "buy" = some o := ho
    rw [hsame, Option.map_some, hstatus] at hafter
    cases hafter
  · have hsame : fillTaken.liveOrders.lookup "buy" = none := hnone
    rw [hsame] at hafter
    cases hafter

/-- Up to the partial fill one cancel has been accepted, and the fill does not spare the mark. -/
theorem pending_cancel_kept_iff_fillArrived :
    soldThen.broker.2.count (.cancelOrder "buy" true) ≤ 1 ∧
      ¬ RecordedStep acceptingBroker SparesPendingCancel
        ⟨.confirmations ∅, fillArrived, soldThen.broker⟩
        ⟨.confirmations {"AMD"}, fillTaken, soldThen.broker⟩ := by
  obtain ⟨hcount, -, hiff⟩ := pending_cancel_kept_iff (B := acceptingBroker) reachable_fillArrived
  exact ⟨hcount "buy", fun hspares =>
    not_keepsPendingCancel_fillTaken ((hiff _ step_fillTaken).mpr hspares)⟩

/-- **A partial fill makes the manager forget a cancel.** The mark is lost, two orders of opposite
sides are live at a loop boundary though no cancel was refused, and the broker then accepts a second
cancel for the same client id. -/
theorem pending_cancel_forgotten :
    (¬ ∀ (c c' : Config (ℤ × List RecordedCall)),
      RecordedReachable acceptingBroker anyConfirmation 0 c →
      RecordedStep acceptingBroker anyConfirmation c c' → KeepsPendingCancel c c') ∧
    (¬ ∀ (c : Config (ℤ × List RecordedCall)) (id : String),
      RecordedReachable acceptingBroker anyConfirmation 0 c →
      c.calls.count (.cancelOrder id true) ≤ 1) ∧
    ¬ ∀ c : Config (ℤ × List RecordedCall),
      RecordedReachable acceptingBroker anyConfirmation 0 c → c.phase = .reconciling ∅ →
      (∀ id, .cancelOrder id false ∉ c.calls) → ∀ id id' o o',
        c.world.pm.liveOrders.lookup id = some o → c.world.pm.liveOrders.lookup id' = some o' →
        o.symbol = o'.symbol → o.status ≠ .PENDING_CANCEL → o'.status ≠ .PENDING_CANCEL →
        o.sideIsBuy = o'.sideIsBuy := by
  refine ⟨fun h => ?_, fun h => ?_, fun h => ?_⟩
  · exact not_keepsPendingCancel_fillTaken (h _ _ reachable_fillArrived step_fillTaken)
  · exact absurd (h _ "buy" reachable_cancelledTwice) (by decide)
  · have hcalls : markLost.broker.2 =
        [.submitOrder "buy" "AMD" 20 true "MARKET" none (some 1), .cancelOrder "buy" true,
          .submitOrder "sell" "AMD" 15 false "MARKET" none (some 2)] := rfl
    have hnone : ∀ id, .cancelOrder id false ∉ markLost.broker.2 := by
      intro id hmem
      simp [hcalls] at hmem
    have hsides := h _ reachable_markLost rfl hnone "buy" "sell" _ _ rfl rfl rfl (by decide) (by decide)
    cases hsides

end FlowManager.Position
