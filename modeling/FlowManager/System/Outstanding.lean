import FlowManager.PositionManager.Reconciliation
import FlowManager.System.Shutdown

/-!
# What the working position counts on

An order is outstanding from its submission until the loop has taken its confirmation out of the
queue: while its thread runs, and while the confirmation waits. Other threads never change what is
outstanding (`continues_apply`), a taken confirmation removes one order and a submission adds one, so
the live orders of the position manager are exactly the outstanding ones (`Tracks`).

The working position therefore counts on every outstanding order being filled in full
(`position_add_outstanding`). A symbol that is not waiting to be reconciled misses its target by what
is outstanding, and at rest it holds its target, whatever has been cancelled on the way.
-/

namespace FlowManager.System

open FlowManager.Lib FlowManager.Broker FlowManager.Position FlowManager.Broker.Simulated

variable {t t' : Shared} {c c' : SimConfig}

/-! ## Outstanding orders -/

/-- What an order has been submitted for. -/
structure Ticket where
  clientOrderId : String
  symbol : String
  quantity : ℤ
  sideIsBuy : Bool

/-- What the order adds to the position of its symbol if it is filled. -/
def Ticket.signed (k : Ticket) : ℤ := k.quantity * bsInt k.sideIsBuy

/-- The ticket of an order of the broker. -/
def ticket (o : SimulatedOrder) : Ticket := ⟨o.clientOrderId, o.symbol, o.amount, o.buySell⟩

/-- The ticket of a live order of the position manager. -/
def ticketOf (d : OrderDetails) : Ticket := ⟨d.clientOrderId, d.symbol, d.quantity, d.sideIsBuy⟩

/-- The confirmation of the order has not been taken from the queue yet. -/
def isOutstanding (q : List TradeConfirmationMessage) (o : SimulatedOrder) : Bool :=
  !o.isFinished || q.any fun conf => conf.orderId = (o.brokerOrderId : ℤ)

/-- The outstanding orders. -/
def outstanding (t : Shared) : List Ticket :=
  (t.2.orders.filter (isOutstanding t.1)).map ticket

/-- What the outstanding orders of a symbol add to its position if all of them are filled. -/
def outstandingOf (s : String) (t : Shared) : ℤ :=
  ((outstanding t).map fun k => if k.symbol = s then k.signed else 0).sum

/-! ## The final status -/

/-- The final status that the thread of an order may choose. -/
def Decides (o : SimulatedOrder) (finalStatus : Status) : Prop :=
  finalStatus = .FILLED ∨ finalStatus = .CANCELLED ∧ o.cancelling = true

/-- The status that the thread has chosen, if it is past the choice, is a final one. -/
def Decided (o : SimulatedOrder) : Place → Prop
  | .writing finalStatus => Decides o finalStatus
  | .removing conf | .queueing conf => Decides o conf.status
  | .testing | .filling | .finishing | .finished => True

/-- What is decided on is an end. -/
theorem Decides.isTerminal {o : SimulatedOrder} {finalStatus : Status}
    (h : Decides o finalStatus) : finalStatus.isTerminal = true := by
  rcases h with rfl | ⟨rfl, -⟩ <;> rfl

/-- What a write to an order leaves of its ticket and of the choice. -/
structure Carries (o o' : SimulatedOrder) : Prop extends SimulatedOrder.Keeps o o' where
  ticket : ticket o' = ticket o
  decides : ∀ finalStatus, Decides o finalStatus → Decides o' finalStatus
  decided : Decided o o.thread → Decided o' o'.thread

/-- An order that is left carries what it has. -/
theorem Carries.refl (o : SimulatedOrder) : Carries o o :=
  ⟨SimulatedOrder.Keeps.refl o, rfl, fun _ => id, id⟩

/-- A cancel leaves what the order carries. -/
theorem carries_cancelOrder (o : SimulatedOrder) : Carries o o.cancelOrder := by
  have hdecides : ∀ finalStatus, Decides o finalStatus → Decides o.cancelOrder finalStatus :=
    fun _ h => h.imp_right fun h => ⟨h.1, rfl⟩
  refine ⟨SimulatedOrder.keeps_cancelOrder o, rfl, hdecides, ?_⟩
  unfold SimulatedOrder.cancelOrder
  dsimp only
  cases o.thread with
  | writing | removing | queueing => exact hdecides _
  | testing | filling | finishing | finished => exact id

/-- A step of the thread leaves the ticket. -/
theorem ticket_move (o : SimulatedOrder) (draw : ℕ) : ticket (o.move draw) = ticket o := by
  unfold SimulatedOrder.move
  split <;> rfl

/-- A step of the thread does not cancel the order. -/
theorem move_cancelling (o : SimulatedOrder) (draw : ℕ) :
    (o.move draw).cancelling = o.cancelling := by
  unfold SimulatedOrder.move
  split <;> rfl

/-- A step of the thread leaves what may be decided. -/
theorem decides_move {o : SimulatedOrder} (draw : ℕ) (finalStatus : Status) :
    Decides (o.move draw) finalStatus ↔ Decides o finalStatus := by
  unfold Decides
  rw [move_cancelling]

/-- A step of the thread keeps to what is decided. -/
theorem decided_move {o : SimulatedOrder} (draw : ℕ) (h : Decided o o.thread) :
    Decided (o.move draw) (o.move draw).thread := by
  cases hthread : o.thread with
  | testing =>
      have hmove : (o.move draw).thread = .filling ∨ (o.move draw).thread = .finishing := by
        simp only [SimulatedOrder.move, hthread]
        split_ifs <;> simp
      rcases hmove with hmove | hmove <;> rw [hmove] <;> trivial
  | filling =>
      have hmove : (o.move draw).thread = .testing := by simp [SimulatedOrder.move, hthread]
      rw [hmove]
      trivial
  | finishing =>
      have hmove : (o.move draw).thread = .writing (if o.cancelling then .CANCELLED else .FILLED) := by
        simp [SimulatedOrder.move, hthread]
      rw [hmove]
      refine (decides_move draw _).mpr ?_
      split_ifs with hcancelling
      · exact Or.inr ⟨rfl, hcancelling⟩
      · exact Or.inl rfl
  | writing finalStatus =>
      have hmove : (o.move draw).thread = .removing (o.confirmation finalStatus) := by
        simp [SimulatedOrder.move, hthread]
      rw [hmove]
      rw [hthread] at h
      exact (decides_move draw finalStatus).mpr h
  | removing conf =>
      have hmove : (o.move draw).thread = .queueing conf := by simp [SimulatedOrder.move, hthread]
      rw [hmove]
      rw [hthread] at h
      exact (decides_move draw conf.status).mpr h
  | queueing conf =>
      have hmove : (o.move draw).thread = .finished := by simp [SimulatedOrder.move, hthread]
      rw [hmove]
      trivial
  | finished =>
      have hmove : (o.move draw).thread = .finished := by simp [SimulatedOrder.move, hthread]
      rw [hmove]
      trivial

/-- A step that does not pass on the confirmation leaves what the order carries. -/
theorem carries_move {o : SimulatedOrder} (h : ∀ conf, o.thread ≠ .queueing conf) (draw : ℕ) :
    Carries o (o.move draw) := by
  refine ⟨SimulatedOrder.keeps_move h, ticket_move o draw, ?_, decided_move draw⟩
  intro finalStatus hdecides
  rw [Decides, move_cancelling]
  exact hdecides

/-! ## What other threads leave -/

/-- The confirmation is the one of a finished order. -/
def ConfirmationOf (conf : TradeConfirmationMessage) (o : SimulatedOrder) : Prop :=
  o.isFinished = true ∧ ∃ finalStatus, conf = o.confirmation finalStatus ∧ o.Ends finalStatus ∧
    Decides o finalStatus

/-- The invariant of the queue and the broker: every order has an id of its own and is of a positive
amount, and the queue holds confirmations of finished orders, one of each at most. -/
structure Orderly (t : Shared) : Prop where
  sound : t.2.Sound
  unduplicated : Unduplicated t
  nodup : (clientIds t.2).Nodup
  positive : ∀ o ∈ t.2.orders, 0 < o.amount
  decided : ∀ o ∈ t.2.orders, Decided o o.thread
  queued : ∀ conf ∈ t.1, ∃ o ∈ t.2.orders, ConfirmationOf conf o
  once : (t.1.map (·.orderId)).Nodup

/-- What a step that submits nothing leaves. -/
structure Continues (t t' : Shared) : Prop where
  orderly : Orderly t'
  clientIds : clientIds t'.2 = clientIds t.2
  outstanding : outstanding t' = outstanding t

/-- Nothing done is a continuation. -/
theorem Continues.refl (h : Orderly t) : Continues t t := ⟨h, rfl, rfl⟩

/-- One continuation after another is a continuation. -/
theorem Continues.trans {t'' : Shared} (h : Continues t t') (h' : Continues t' t'') :
    Continues t t'' :=
  ⟨h'.orderly, h'.clientIds.trans h.clientIds, h'.outstanding.trans h.outstanding⟩

/-- A confirmation is still the order's when that has gone on. -/
theorem ConfirmationOf.carries {conf : TradeConfirmationMessage} {o o' : SimulatedOrder}
    (h : ConfirmationOf conf o) (hcarries : Carries o o') : ConfirmationOf conf o' := by
  obtain ⟨hfinished, finalStatus, hconf, hends, hdecides⟩ := h
  obtain ⟨hamount, hsame⟩ := hcarries.ended hfinished
  refine ⟨hcarries.isFinished.trans hfinished, finalStatus, hconf.trans (hsame finalStatus).symm, ?_,
    hcarries.decides _ hdecides⟩
  have hfilled : o'.amountFilled = o.amountFilled :=
    congrArg TradeConfirmationMessage.filledQuantity (hsame finalStatus)
  unfold SimulatedOrder.Ends
  rw [hamount, hfilled]
  exact hends

/-- What is outstanding is kept if it is kept of each order. -/
theorem outstanding_congr (h : List.Forall₂
    (fun o o' => isOutstanding t'.1 o' = isOutstanding t.1 o ∧ ticket o' = ticket o)
    t.2.orders t'.2.orders) : outstanding t' = outstanding t := by
  unfold outstanding
  revert h
  generalize t.2.orders = os, t'.2.orders = os'
  intro h
  induction h with
  | nil => rfl
  | cons hsame _ ih =>
      rw [List.filter_cons, List.filter_cons, hsame.1]
      split_ifs
      · rw [List.map_cons, List.map_cons, hsame.2, ih]
      · exact ih

/-- Writes to the orders, with nothing put into the queue. -/
theorem Orderly.continues (h : Orderly t) (hq : t'.1 = t.1)
    (horders : List.Forall₂ Carries t.2.orders t'.2.orders) (hsound : t'.2.Sound)
    (htends : Tends t t') : Continues t t' := by
  refine ⟨⟨hsound, htends.unduplicated h.unduplicated, ?_, ?_, ?_, ?_, hq ▸ h.once⟩,
    htends.clientIds, ?_⟩
  · rw [htends.clientIds]
    exact h.nodup
  · intro o' ho'
    obtain ⟨o, ho, hcarries⟩ := exists_mem_of_forall₂ horders ho'
    have hamount : o'.amount = o.amount := congrArg Ticket.quantity hcarries.ticket
    rw [hamount]
    exact h.positive o ho
  · intro o' ho'
    obtain ⟨o, ho, hcarries⟩ := exists_mem_of_forall₂ horders ho'
    exact hcarries.decided (h.decided o ho)
  · intro conf hconf
    obtain ⟨o, ho, hof⟩ := h.queued conf (hq ▸ hconf)
    obtain ⟨o', ho', hcarries⟩ := exists_mem_of_forall₂ horders.flip ho
    exact ⟨o', ho', hof.carries hcarries⟩
  · refine outstanding_congr (horders.imp fun o o' hcarries => ⟨?_, hcarries.ticket⟩)
    unfold isOutstanding
    rw [hq, hcarries.isFinished, hcarries.brokerOrderId]

/-- The thread of an order puts its confirmation into the queue. -/
theorem Orderly.queued_ne (h : Orderly t) {i : ℕ} {o : SimulatedOrder} (ho : t.2.orders[i]? = some o)
    (hunfinished : o.isFinished = false) : ∀ conf ∈ t.1, conf.orderId ≠ (i : ℤ) := by
  intro conf hconf heq
  obtain ⟨o', ho', hfinished, finalStatus, hof, -⟩ := h.queued conf hconf
  obtain ⟨j, hj⟩ := List.mem_iff_getElem?.mp ho'
  simp only [hof, SimulatedOrder.confirmation, h.sound.brokerOrderId hj, Nat.cast_inj] at heq
  obtain rfl : j = i := heq
  obtain rfl := Option.some.inj (ho.symm.trans hj)
  rw [hunfinished] at hfinished
  exact Bool.false_ne_true hfinished

/-- An order stays outstanding when its confirmation goes into the queue. -/
theorem Orderly.queueing (h : Orderly t) {i draw : ℕ} {o : SimulatedOrder}
    {conf : TradeConfirmationMessage} (ho : t.2.orders[i]? = some o)
    (hthread : o.thread = .queueing conf)
    (hsound : (threadStep i draw t).2.Sound) (htends : Tends t (threadStep i draw t)) :
    Continues t (threadStep i draw t) := by
  have hmove : o.move draw = { o with thread := .finished } := by
    unfold SimulatedOrder.move
    rw [hthread]
  have hq : (threadStep i draw t).1 = t.1 ++ [conf] := by
    simp [threadStep, ho, hthread, Simulated.callback]
  have horders : (threadStep i draw t).2.orders = t.2.orders.modify i (·.move draw) := by
    simp [threadStep, ho, hthread, Simulated.callback, SimulatedBroker.write]
  have hunfinished : o.isFinished = false := by simp [SimulatedOrder.isFinished, hthread]
  have hid : o.brokerOrderId = i := h.sound.brokerOrderId ho
  obtain ⟨finalStatus, hconf, hends⟩ : o.Knows (.queueing conf) :=
    hthread ▸ (h.sound.order ho).knows
  have hdecides : Decides o conf.status := by
    have hdecided := h.decided o (List.mem_of_getElem? ho)
    rwa [hthread] at hdecided
  have horderId : conf.orderId = (i : ℤ) := by rw [hconf, SimulatedOrder.confirmation, hid]
  have hne := h.queued_ne ho hunfinished
  refine ⟨⟨hsound, htends.unduplicated h.unduplicated, ?_, ?_, ?_, ?_, ?_⟩, htends.clientIds, ?_⟩
  · rw [htends.clientIds]
    exact h.nodup
  · intro o' ho'
    rw [horders] at ho'
    obtain ⟨j, hj⟩ := List.mem_iff_getElem?.mp ho'
    rcases getElem?_modify_cases hj with ⟨-, o'', ho'', rfl⟩ | ⟨-, hj⟩
    · have hamount : (o''.move draw).amount = o''.amount :=
        congrArg Ticket.quantity (ticket_move o'' draw)
      rw [hamount]
      exact h.positive o'' (List.mem_of_getElem? ho'')
    · exact h.positive o' (List.mem_of_getElem? hj)
  · intro o' ho'
    rw [horders] at ho'
    obtain ⟨j, hj⟩ := List.mem_iff_getElem?.mp ho'
    rcases getElem?_modify_cases hj with ⟨-, o'', ho'', rfl⟩ | ⟨-, hj⟩
    · exact decided_move draw (h.decided o'' (List.mem_of_getElem? ho''))
    · exact h.decided o' (List.mem_of_getElem? hj)
  · intro conf' hconf'
    rw [horders]
    rw [hq] at hconf'
    rcases List.mem_append.mp hconf' with hconf' | hconf'
    · obtain ⟨o', ho', hof⟩ := h.queued conf' hconf'
      obtain ⟨j, hj⟩ := List.mem_iff_getElem?.mp ho'
      have hj' : i ≠ j := by
        rintro rfl
        obtain rfl := Option.some.inj (ho.symm.trans hj)
        have hfinished := hof.1
        rw [hunfinished] at hfinished
        exact Bool.false_ne_true hfinished
      exact ⟨o', List.mem_of_getElem? ((List.getElem?_modify_ne _ _ hj').trans hj), hof⟩
    · obtain rfl := List.mem_singleton.mp hconf'
      refine ⟨o.move draw, List.mem_of_getElem? (getElem?_modify_of_some _ ho), ?_⟩
      rw [hmove]
      refine ⟨rfl, finalStatus, hconf, hends, ?_⟩
      rw [hconf] at hdecides
      exact hdecides
  · rw [hq, List.map_append, List.nodup_append]
    refine ⟨h.once, List.nodup_singleton _, ?_⟩
    intro id hid' id' hid''
    obtain rfl := List.mem_singleton.mp hid''
    obtain ⟨conf', hconf', rfl⟩ := List.mem_map.mp hid'
    dsimp only
    rw [horderId]
    exact hne conf' hconf'
  · apply outstanding_congr
    rw [horders, hq]
    apply forall₂_modify_of_ne
    · intro j o' ho' hj
      have hnot : ¬conf.orderId = (o'.brokerOrderId : ℤ) := by
        rw [horderId, h.sound.brokerOrderId ho']
        exact_mod_cast hj.symm
      simp [isOutstanding, hnot]
    · intro o' ho'
      obtain rfl := Option.some.inj (ho.symm.trans ho')
      refine ⟨?_, ticket_move o draw⟩
      simp [isOutstanding, hunfinished, hmove, horderId, hid]

/-- A cancel changes no ticket. -/
theorem continues_cancelOrder (h : Orderly t) (clientOrderId : String) :
    Proc.wp (Simulated.cancelOrder clientOrderId)
      (fun _ => Continues t) (fun _ => Continues t) (Continues t) t := by
  have hsound := advances_cancelOrder h.sound clientOrderId
  have htends := tends_cancelOrder clientOrderId t
  unfold Simulated.cancelOrder at hsound htends ⊢
  rw [Proc.wp_bind, Proc.wp_get] at hsound htends ⊢
  cases hlive : t.2.liveOrders.lookup clientOrderId with
  | none => exact Continues.refl h
  | some i =>
      simp only [hlive] at hsound htends
      exact h.continues rfl
        (forall₂_modify Carries.refl _ _ _ fun o _ => carries_cancelOrder o) hsound.1 htends

/-- **Other threads leave what is outstanding.** -/
theorem continues_apply {e : SimEvent} (he : NotSubmit e) (h : Orderly t) :
    Continues t (e.apply t) := by
  have hsound := (e.advances (positive_of_notSubmit he) h.sound).1
  have htends := tends_apply he t
  cases e with
  | submitOrder => exact he.elim
  | cancelOrder id => exact (continues_cancelOrder h id).state
  | timer k =>
      have hsame : timerStep k t = t := by simp [timerStep, h.unduplicated.timers]
      change Continues t (timerStep k t)
      rw [hsame]
      exact Continues.refl h
  | stop =>
      refine h.continues rfl (forall₂_map _ fun o _ => ?_) hsound htends
      split_ifs
      · exact carries_cancelOrder o
      · exact Carries.refl o
  | thread i draw =>
      change Continues t (threadStep i draw t)
      cases ho : t.2.orders[i]? with
      | none =>
          have hsame : threadStep i draw t = t := by simp [threadStep, ho]
          rw [hsame]
          exact Continues.refl h
      | some o =>
          have hmoves : (∀ conf, o.thread ≠ .queueing conf) →
              List.Forall₂ Carries t.2.orders (t.2.orders.modify i (·.move draw)) := by
            intro hthread
            refine forall₂_modify Carries.refl _ _ _ fun o' ho' => ?_
            obtain rfl := Option.some.inj (ho.symm.trans ho')
            exact carries_move hthread draw
          cases hthread : o.thread with
          | queueing conf => exact h.queueing ho hthread hsound htends
          | testing | filling | finishing | writing | removing | finished =>
              refine h.continues ?_ ?_ hsound htends
              · simp [threadStep, ho, hthread]
              · simpa [threadStep, ho, hthread, SimulatedBroker.write] using
                  hmoves (by simp [hthread])

/-! ## Taking a confirmation -/

/-- The ticket of an outstanding order is outstanding. -/
theorem ticket_mem_outstanding {o : SimulatedOrder} (ho : o ∈ t.2.orders)
    (hout : isOutstanding t.1 o = true) : ticket o ∈ outstanding t :=
  List.mem_map_of_mem (List.mem_filter.mpr ⟨ho, hout⟩)

/-- The id of an outstanding ticket has been given out. -/
theorem clientOrderId_mem_clientIds {k : Ticket} (hk : k ∈ outstanding t) :
    k.clientOrderId ∈ clientIds t.2 := by
  obtain ⟨o, ho, rfl⟩ := List.mem_map.mp hk
  exact List.mem_map_of_mem (List.mem_of_mem_filter ho)

/-- Two orders with one client id are one order. -/
theorem Orderly.eq_of_clientOrderId (h : Orderly t) {o o' : SimulatedOrder} (ho : o ∈ t.2.orders)
    (ho' : o' ∈ t.2.orders) (hid : o.clientOrderId = o'.clientOrderId) : o = o' :=
  List.inj_on_of_nodup_map h.nodup ho ho' hid

/-- Different outstanding orders have different ids. -/
theorem Orderly.nodup_outstanding (h : Orderly t) :
    ((outstanding t).map Ticket.clientOrderId).Nodup := by
  have hsub : List.Sublist ((outstanding t).map Ticket.clientOrderId) (clientIds t.2) := by
    unfold outstanding clientIds
    rw [List.map_map]
    exact List.Sublist.map _ List.filter_sublist
  exact h.nodup.sublist hsub

section take

variable {conf : TradeConfirmationMessage} {rest : List TradeConfirmationMessage}
  {b : SimulatedBroker}

/-- The rest of the queue is in order. -/
theorem Orderly.taken (h : Orderly (conf :: rest, b)) : Orderly (rest, b) where
  sound := h.sound
  unduplicated := ⟨h.unduplicated.timers, h.unduplicated.live⟩
  nodup := h.nodup
  positive := h.positive
  decided := h.decided
  queued conf' hconf' := h.queued conf' (List.mem_cons_of_mem _ hconf')
  once := (List.nodup_cons.mp h.once).2

/-- A confirmation that is taken removes its order from the outstanding ones. -/
theorem Orderly.outstanding_taken (h : Orderly (conf :: rest, b)) :
    outstanding (rest, b) = (outstanding (conf :: rest, b)).filter
      fun k => k.clientOrderId ≠ conf.clientOrderId := by
  obtain ⟨o, ho, hfinished, finalStatus, hconf, -⟩ := h.queued conf List.mem_cons_self
  have honce := (List.nodup_cons.mp h.once).1
  unfold outstanding
  rw [List.filter_map, List.filter_filter]
  congr 1
  refine List.filter_congr fun o' ho' => ?_
  have hbroker : ∀ o'' ∈ b.orders, (conf.orderId = (o''.brokerOrderId : ℤ)) ↔ o'' = o := by
    intro o'' ho''
    obtain ⟨i, hi⟩ := List.mem_iff_getElem?.mp ho
    obtain ⟨j, hj⟩ := List.mem_iff_getElem?.mp ho''
    have hi' := h.sound.brokerOrderId hi
    have hj' := h.sound.brokerOrderId hj
    rw [hconf, SimulatedOrder.confirmation, hi', hj', Nat.cast_inj]
    constructor
    · rintro rfl
      exact Option.some.inj (hj.symm.trans hi)
    · rintro rfl
      exact hi'.symm.trans hj'
  by_cases heq : o' = o
  · -- its own order: finished, and not in the rest of the queue
    subst heq
    have hnot : rest.any (fun conf' => conf'.orderId = (o'.brokerOrderId : ℤ)) = false := by
      rw [List.any_eq_false]
      intro conf' hconf'
      rw [decide_eq_true_iff, ← (hbroker o' ho').mpr rfl]
      intro heq
      exact honce (List.mem_map.mpr ⟨conf', hconf', heq⟩)
    simp [isOutstanding, hfinished, hnot, hconf, ticket, SimulatedOrder.confirmation]
  · have hid : o'.clientOrderId ≠ o.clientOrderId := by
      intro hid
      exact heq (h.eq_of_clientOrderId ho' ho hid)
    have hother : ¬conf.orderId = (o'.brokerOrderId : ℤ) := fun h' => heq ((hbroker o' ho').mp h')
    have hsame : isOutstanding (conf :: rest) o' = isOutstanding rest o' := by
      simp [isOutstanding, hother]
    have hkeep : (decide ((ticket o').clientOrderId ≠ conf.clientOrderId)) = true := by
      rw [decide_eq_true_iff, hconf]
      exact hid
    rw [hsame]
    simp only [Function.comp_apply, hkeep, Bool.true_and]

/-- The order of a confirmation in the queue is outstanding. -/
theorem Orderly.outstanding_of_queued (h : Orderly t) {conf : TradeConfirmationMessage}
    (hconf : conf ∈ t.1) : ∃ k ∈ outstanding t, k.clientOrderId = conf.clientOrderId ∧
      k.symbol = conf.symbol := by
  obtain ⟨o, ho, hfinished, finalStatus, rfl, -⟩ := h.queued conf hconf
  refine ⟨ticket o, ticket_mem_outstanding ho ?_, rfl, rfl⟩
  unfold isOutstanding
  rw [Bool.or_eq_true, List.any_eq_true]
  exact Or.inr ⟨_, hconf, decide_eq_true rfl⟩

end take

/-! ## The live orders are the outstanding ones -/

/-- The live orders of the position manager are the outstanding ones, each with its ticket and
nothing filled yet, and the lists per symbol hold no other id. -/
structure Tracks (pm : PositionManager) (ks : List Ticket) : Prop where
  live : ∀ {id d}, pm.liveOrders.lookup id = some d →
    ticketOf d ∈ ks ∧ d.clientOrderId = id ∧ d.filledQuantity = 0
  tracked : ∀ k ∈ ks, ∃ d, pm.liveOrders.lookup k.clientOrderId = some d ∧ ticketOf d = k
  listed : ∀ {s id}, id ∈ pm.index s → ∃ d, pm.liveOrders.lookup id = some d

section tracks

variable {pm pm' : PositionManager} {ks : List Ticket}

/-- What is tracked depends on the live orders and their lists. -/
theorem Tracks.congr (h : Tracks pm ks) (hlive : pm'.liveOrders = pm.liveOrders)
    (hlists : pm'.liveOrdersBySymbol = pm.liveOrdersBySymbol) : Tracks pm' ks := by
  refine ⟨?_, ?_, ?_⟩
  · rw [hlive]
    exact h.live
  · rw [hlive]
    exact h.tracked
  · unfold PositionManager.index
    rw [hlive, hlists]
    exact h.listed

/-- An id that no order has is fresh for the position manager. -/
theorem Tracks.fresh (h : Tracks pm (outstanding t)) {newId : String} (hnew : Unplaced newId t.2) :
    Fresh pm newId := by
  rw [unplaced_iff] at hnew
  have hnone : ∀ d, pm.liveOrders.lookup newId ≠ some d := by
    intro d hd
    obtain ⟨hk, hid, -⟩ := h.live hd
    have hplaced : d.clientOrderId ∈ clientIds t.2 := clientOrderId_mem_clientIds hk
    exact hnew (hid ▸ hplaced)
  refine ⟨Option.eq_none_iff_forall_ne_some.mpr hnone, fun s hlisted => ?_⟩
  obtain ⟨d, hd⟩ := h.listed hlisted
  exact hnone d hd

/-- The final confirmation of a tracked order takes it out. -/
theorem Tracks.processConfirmation {conf : TradeConfirmationMessage} (h : Tracks pm ks)
    (hpm : pm.Consistent) {d : OrderDetails}
    (hd : pm.liveOrders.lookup conf.clientOrderId = some d) (hsymbol : d.symbol = conf.symbol)
    (hterminal : conf.status.isTerminal = true) :
    Tracks (processConfirmation conf pm)
      (ks.filter fun k => k.clientOrderId ≠ conf.clientOrderId) := by
  have hprocess : Position.processConfirmation conf pm = removeLiveOrder conf (addFill conf pm) := by
    simp [Position.processConfirmation, hd, hterminal]
  have hlookup : ∀ id, (Position.processConfirmation conf pm).liveOrders.lookup id =
      if id = conf.clientOrderId then none else pm.liveOrders.lookup id := by
    intro id
    rw [hprocess, removeLiveOrder_liveOrders, Dict.lookup_erase_ite, addFill_liveOrders]
  refine ⟨?_, ?_, ?_⟩
  · intro id d' hd'
    rw [hlookup] at hd'
    split_ifs at hd' with hid
    obtain ⟨hk, hid', hfilled⟩ := h.live hd'
    refine ⟨List.mem_filter.mpr ⟨hk, ?_⟩, hid', hfilled⟩
    rw [decide_eq_true_iff]
    intro heq
    exact hid (hid'.symm.trans heq)
  · intro k hk
    obtain ⟨hk, hne⟩ := List.mem_filter.mp hk
    rw [hlookup, if_neg (of_decide_eq_true hne)]
    exact h.tracked k hk
  · intro s id hid
    have hid' : id ≠ conf.clientOrderId ∧ id ∈ pm.index s := by
      rw [hprocess, removeLiveOrder_index, addFill_index] at hid
      split_ifs at hid with hs
      · exact (hpm.nodup s).mem_erase_iff.mp hid
      · refine ⟨?_, hid⟩
        rintro rfl
        exact hs ((hpm.symbol hid hd).symm.trans hsymbol)
    rw [hlookup, if_neg hid'.1]
    exact h.listed hid'.2

/-- Cancel requests change no ticket. -/
theorem Tracks.cancelling (h : Tracks pm ks) {buying : Bool} (hcancel : Cancelling buying pm pm') :
    Tracks pm' ks := by
  refine ⟨?_, ?_, ?_⟩
  · intro id d' hd'
    rcases hcancel.orders id with heq | ⟨d, hd, -, heq⟩
    · exact h.live (heq ▸ hd')
    · obtain rfl := Option.some.inj (hd'.symm.trans heq)
      obtain ⟨hk, hid, hfilled⟩ := h.live hd
      exact ⟨hk, hid, hfilled⟩
  · intro k hk
    obtain ⟨d, hd, hticket⟩ := h.tracked k hk
    rcases hcancel.orders k.clientOrderId with heq | ⟨d', hd', -, heq⟩
    · exact ⟨d, heq.trans hd, hticket⟩
    · obtain rfl := Option.some.inj (hd.symm.trans hd')
      exact ⟨_, heq, hticket⟩
  · intro s id hid
    rw [hcancel.index] at hid
    obtain ⟨d, hd⟩ := h.listed hid
    rcases hcancel.orders id with heq | ⟨d', -, -, heq⟩
    · exact ⟨d, heq.trans hd⟩
    · exact ⟨_, heq⟩

/-- A new order is tracked with its ticket. -/
theorem Tracks.placed (h : Tracks pm ks) {symbol newId : String} {quantity : ℤ} {buying : Bool}
    (hplaced : Placed (newOrder newId symbol quantity buying) pm pm')
    (hnew : Fresh pm newId) :
    Tracks pm' (ks ++ [⟨newId, symbol, quantity, buying⟩]) := by
  obtain ⟨bOrdId, horders⟩ := hplaced.orders
  have hself : pm'.liveOrders.lookup newId =
      some { newOrder newId symbol quantity buying with brokerOrderId := bOrdId } :=
    (horders newId).trans (if_pos rfl)
  have hother : ∀ {id}, id ≠ newId → pm'.liveOrders.lookup id = pm.liveOrders.lookup id :=
    fun hid => (horders _).trans (if_neg hid)
  refine ⟨?_, ?_, ?_⟩
  · intro id d hd
    by_cases hid : id = newId
    · subst hid
      obtain rfl := Option.some.inj (hd.symm.trans hself)
      exact ⟨List.mem_append_right _ (List.mem_singleton_self _), rfl, rfl⟩
    · rw [hother hid] at hd
      obtain ⟨hk, hid', hfilled⟩ := h.live hd
      exact ⟨List.mem_append_left _ hk, hid', hfilled⟩
  · intro k hk
    rcases List.mem_append.mp hk with hk | hk
    · obtain ⟨d, hd, hticket⟩ := h.tracked k hk
      have hid : k.clientOrderId ≠ newId := by
        rintro heq
        rw [heq, hnew.1] at hd
        cases hd
      exact ⟨d, (hother hid).trans hd, hticket⟩
    · obtain rfl := List.mem_singleton.mp hk
      exact ⟨_, hself, rfl⟩
  · intro s id hid
    by_cases heq : id = newId
    · exact ⟨_, heq ▸ hself⟩
    · rw [hother heq]
      have hindex : id ∈ pm.index s := by
        rw [hplaced.index] at hid
        split_ifs at hid
        · rcases List.mem_append.mp hid with hid | hid
          · exact hid
          · exact absurd (List.mem_singleton.mp hid) heq
        · exact hid
      exact h.listed hindex

/-- **The working position is the position with all that is outstanding.** -/
theorem Tracks.workingPosition_eq (h : Tracks pm ks) (hpm : pm.Consistent)
    (hnodup : (ks.map Ticket.clientOrderId).Nodup) (hpos : ∀ k ∈ ks, 0 ≤ k.quantity) (s : String) :
    calculateWorkingPosition pm s = pm.positions.getD s 0 +
      (ks.map fun k => if k.symbol = s then k.signed else 0).sum := by
  have hkeys : pm.liveOrders.keys = (ks.map Ticket.clientOrderId).toFinset := by
    ext id
    rw [Finmap.mem_keys, List.mem_toFinset, List.mem_map, ← Finmap.lookup_isSome,
      Option.isSome_iff_exists]
    constructor
    · rintro ⟨d, hd⟩
      obtain ⟨hk, hid, -⟩ := h.live hd
      exact ⟨_, hk, hid⟩
    · rintro ⟨k, hk, rfl⟩
      obtain ⟨d, hd, -⟩ := h.tracked k hk
      exact ⟨d, hd⟩
  rw [calculateWorkingPosition_eq_remaining hpm, PositionManager.remaining, hkeys,
    List.sum_toFinset _ hnodup, List.map_map]
  congr 2
  refine List.map_congr_left fun k hk => ?_
  obtain ⟨d, hd, hticket⟩ := h.tracked k hk
  obtain ⟨-, -, hfilled⟩ := h.live hd
  have hquantity := hpos k hk
  subst hticket
  have hsigned : signedRemaining d = (ticketOf d).signed := by
    unfold signedRemaining Ticket.signed
    rw [hfilled, sub_zero, max_eq_right]
    · rfl
    · exact hquantity
  simp only [Function.comp_apply, PositionManager.remainingOf, hd, Option.elim_some, and_true,
    hsigned]
  rfl

end tracks

/-! ## Reconciling a symbol -/

/-- A submission adds its ticket to what is outstanding. -/
def Submits (k : Ticket) (t t' : Shared) : Prop :=
  Orderly t' ∧ outstanding t' = outstanding t ++ [k]

/-- **`submit_order`** adds the ticket of the order to the outstanding ones. -/
theorem submits_submitOrder (h : Orderly t) {newId symbol : String} {quantity : ℤ}
    {buying : Bool} (hquantity : 0 < quantity) (hnew : Unplaced newId t.2) :
    Proc.wp (Simulated.submitOrder newId symbol quantity buying "MARKET" none)
      (fun _ => Submits ⟨newId, symbol, quantity, buying⟩ t)
      (fun _ => Submits ⟨newId, symbol, quantity, buying⟩ t)
      (Submits ⟨newId, symbol, quantity, buying⟩ t) t := by
  have hunduplicated : Proc.wp (Simulated.submitOrder newId symbol quantity buying "MARKET" none)
      (fun _ => Unduplicated) (fun _ => Unduplicated) Unduplicated t :=
    unduplicated_submitOrder h.unduplicated hnew
  have hfresh := unplaced_iff.mp hnew
  unfold Simulated.submitOrder at hunduplicated ⊢
  rw [Proc.wp_bind, Proc.wp_get] at hunduplicated ⊢
  cases hlive : t.2.liveOrders.lookup newId with
  | some i => exact absurd (h.unduplicated.live hlive) hfresh
  | none =>
      simp only [hlive] at hunduplicated
      have horders : (t.2.accept newId symbol quantity buying).orders =
          t.2.orders ++ [.init t.2.orders.length newId symbol quantity buying] := rfl
      refine ⟨⟨h.sound.accept hquantity, hunduplicated, ?_, ?_, ?_, ?_, h.once⟩, ?_⟩
      · unfold clientIds
        rw [horders, List.map_append, List.nodup_append]
        refine ⟨h.nodup, List.nodup_singleton _, ?_⟩
        intro id hid id' hid' heq
        obtain rfl : id' = newId := List.mem_singleton.mp hid'
        exact hfresh (heq ▸ hid)
      · intro o ho
        rw [horders] at ho
        rcases List.mem_append.mp ho with ho | ho
        · exact h.positive o ho
        · rw [List.mem_singleton.mp ho]
          exact hquantity
      · intro o ho
        rw [horders] at ho
        rcases List.mem_append.mp ho with ho | ho
        · exact h.decided o ho
        · rw [List.mem_singleton.mp ho]
          trivial
      · intro conf hconf
        obtain ⟨o, ho, hof⟩ := h.queued conf hconf
        exact ⟨o, horders ▸ List.mem_append_left _ ho, hof⟩
      · unfold outstanding
        rw [horders, List.filter_append, List.map_append]
        rfl

/-- What the submission leaves, placing an order leaves. -/
theorem leavesShared_placeNew {β : Type} {B : Position.Broker β} {w : World β}
    {J : List TradeConfirmationMessage × β → Prop} {symbol newId : String} {quantity : ℤ}
    {buying : Bool}
    (h : Proc.wp (B.submitOrder newId symbol quantity buying "MARKET" none)
      (fun _ => J) (fun _ => J) J (w.pm.tradeConfirmationsQ, w.broker)) :
    LeavesShared J (placeNew B symbol newId quantity buying) w := by
  unfold LeavesShared placeNew modifyPm
  rw [Proc.wp_bind, Proc.wp_modify, Proc.wp_bind]
  refine Proc.wp_mono (leavesShared_callBroker (J := J) h) ?_ (fun _ _ h => h) fun _ h => h
  intro bOrdId w' h'
  split_ifs
  · rw [Proc.wp_bind, Proc.wp_get]
    cases w'.pm.liveOrders.lookup newId <;> exact h'
  · exact h'

/-- **Reconciling a symbol, with steps of other threads before each call**, keeps the live orders
the outstanding ones. -/
theorem reconcile_tracks {pm : PositionManager} {b : SimulatedBroker}
    {schedule : List (List SimEvent)} {symbol newId : String} {w' : World Scheduled}
    (hallowed : ∀ es ∈ schedule, ∀ e ∈ es, NotSubmit e)
    (hrun : (reconcileSymbol scheduled symbol newId).run ⟨pm, ⟨b, schedule⟩⟩ = .returned () w')
    (h : Orderly (pm.tradeConfirmationsQ, b)) (hnew : Unplaced newId b)
    (htracks : Tracks pm (outstanding (pm.tradeConfirmationsQ, b))) :
    Orderly (w'.pm.tradeConfirmationsQ, w'.broker.broker) ∧
      Tracks w'.pm (outstanding (w'.pm.tradeConfirmationsQ, w'.broker.broker)) := by
  have hfresh : Fresh pm newId := htracks.fresh (t := (pm.tradeConfirmationsQ, b)) hnew
  rcases reconcileSymbol_cases hrun with
    ⟨-, rfl⟩ | ⟨delta, buying, mid, rfl, hpos, hcancel, hplace⟩
  · exact ⟨h, htracks⟩
  · -- the cancels
    obtain ⟨hmid, hallowed'⟩ := Proc.wp.returned (leavesShared_cancelOpposing
      (B := scheduled) (w := ⟨pm, ⟨b, schedule⟩⟩)
      (I := fun u => Continues (pm.tradeConfirmationsQ, b) (u.1, u.2.broker) ∧
        ∀ es ∈ u.2.schedule, ∀ e ∈ es, NotSubmit e)
      (fun id u hu => wp_afterEvents
        (keeps_advanced (fun e he t ht => ht.trans (continues_apply he ht.orderly)) hu.2)
        (fun t ht => Proc.wp_mono (continues_cancelOrder ht.orderly id)
          (fun _ _ h => ht.trans h) (fun _ _ h => ht.trans h) fun _ h => ht.trans h)
        hu.2 hu.1)
      buying _ ⟨Continues.refl h, hallowed⟩) hcancel
    -- the submission
    have hquantity : 0 < |pm.targetPositions.getD symbol 0 - calculateWorkingPosition pm symbol| := by
      rw [abs_pos]
      rintro hzero
      rw [hzero, zero_mul] at hpos
      exact lt_irrefl 0 hpos
    obtain ⟨⟨horderly, hadded⟩, -⟩ := Proc.wp.returned (leavesShared_placeNew
      (J := fun u => Submits ⟨newId, symbol,
          |pm.targetPositions.getD symbol 0 - calculateWorkingPosition pm symbol|, buying⟩
          (pm.tradeConfirmationsQ, b) (u.1, u.2.broker) ∧
        ∀ es ∈ u.2.schedule, ∀ e ∈ es, NotSubmit e)
      (wp_afterEvents (I := Continues (pm.tradeConfirmationsQ, b))
        (keeps_advanced (fun e he t ht => ht.trans (continues_apply he ht.orderly)) hallowed')
        (fun t ht => by
          have hunplaced : Unplaced newId t.2 := by
            rw [unplaced_iff, ht.clientIds]
            exact unplaced_iff.mp hnew
          refine Proc.wp_mono (submits_submitOrder ht.orderly hquantity hunplaced) ?_ ?_ ?_
          · exact fun _ _ h => ⟨h.1, h.2.trans (by rw [ht.outstanding])⟩
          · exact fun _ _ h => ⟨h.1, h.2.trans (by rw [ht.outstanding])⟩
          · exact fun _ h => ⟨h.1, h.2.trans (by rw [ht.outstanding])⟩)
        hallowed' hmid)) hplace
    refine ⟨horderly, ?_⟩
    have hcancelling := cancelOpposing_returned hcancel
    rw [hadded]
    exact (htracks.cancelling hcancelling).placed (placeNew_returned hplace)
      (hcancelling.fresh hfresh)

/-! ## The invariant of a run -/

/-- The symbols that are waiting to be reconciled. -/
def RunPhase.waiting : RunPhase → Finset String
  | .looping phase => phase.waiting
  | .testing | .stopping | .returned => ∅

/-- The invariant of a run: the live orders are the outstanding ones, and a symbol that is not
waiting has its working position on its target. -/
structure SimConfig.Tracked (c : SimConfig) : Prop where
  orderly : Orderly c.shared
  consistent : c.pm.Consistent
  tracks : Tracks c.pm (outstanding c.shared)
  settled : ∀ s ∉ c.phase.waiting, c.pm.OnTarget s

/-- Nothing is outstanding at the start. -/
theorem tracked_init : SimConfig.init.Tracked where
  orderly := by
    have hunduplicated : Unduplicated SimConfig.init.shared :=
      SimReaches.unduplicated Relation.ReflTransGen.refl
    exact ⟨SimulatedBroker.sound_init, hunduplicated, List.nodup_nil, fun _ => nofun, fun _ => nofun,
      fun _ => nofun, List.nodup_nil⟩
  consistent := consistent_init
  tracks := ⟨nofun, fun _ => nofun, nofun⟩
  settled _ _ := rfl

/-- What a step of another thread leaves of the invariant. -/
theorem SimConfig.Tracked.continues (hc : c.Tracked) {t' : Shared} (h : Continues c.shared t') :
    (c.setShared t').Tracked where
  orderly := h.orderly
  consistent := ⟨hc.consistent.listed, hc.consistent.symbol, hc.consistent.nodup,
    hc.consistent.notTerminal⟩
  tracks := by
    have hsame : outstanding (c.setShared t').shared = outstanding c.shared := h.outstanding
    rw [hsame]
    exact hc.tracks.congr rfl rfl
  settled := hc.settled

/-- The live order that a confirmation in the queue is about. -/
theorem SimConfig.Tracked.live_of_queued (hc : c.Tracked) {conf : TradeConfirmationMessage}
    (hconf : conf ∈ c.pm.tradeConfirmationsQ) : ∃ d,
      c.pm.liveOrders.lookup conf.clientOrderId = some d ∧ d.symbol = conf.symbol ∧
        conf.status.isTerminal = true := by
  obtain ⟨k, hk, hid, hsymbol⟩ := hc.orderly.outstanding_of_queued hconf
  obtain ⟨d, hd, hticket⟩ := hc.tracks.tracked k hk
  obtain ⟨o, -, -, finalStatus, hof, -, hdecides⟩ := hc.orderly.queued conf hconf
  refine ⟨d, hid ▸ hd, ?_, ?_⟩
  · rw [← hsymbol, ← hticket]
    rfl
  · rw [hof]
    exact hdecides.isTerminal

/-- **Every step keeps the live orders the outstanding ones**, and the symbols that do not wait on
target. -/
theorem SimStep.tracked (h : SimStep NotSubmit c c') (hc : c.Tracked) : c'.Tracked := by
  have hpm := hc.consistent
  cases h with
  | event _ e he => exact hc.continues (continues_apply he hc.orderly)
  | targetArrives | terminate =>
      exact ⟨hc.orderly, ⟨hpm.listed, hpm.symbol, hpm.nodup, hpm.notTerminal⟩,
        hc.tracks.congr rfl rfl, hc.settled⟩
  | enterLoop | leaveLoop | iterationDone =>
      exact ⟨hc.orderly, hpm, hc.tracks, fun s _ => hc.settled s (Finset.notMem_empty s)⟩
  | confirmationsDone affected =>
      refine ⟨hc.orderly, hpm, hc.tracks, fun s hs => hc.settled s ?_⟩
      rwa [RunPhase.waiting, Phase.waiting, Finset.union_empty] at hs
  | targetsDone => exact ⟨hc.orderly, hpm, hc.tracks, hc.settled⟩
  | @takeConfirmation conf rest affected flag pm b hq =>
      have hmem : conf ∈ pm.tradeConfirmationsQ := by simp [hq]
      obtain ⟨d, hd, hsymbol, hterminal⟩ := hc.live_of_queued hmem
      have hpm' : PositionManager.Consistent { pm with tradeConfirmationsQ := rest } :=
        ⟨hpm.listed, hpm.symbol, hpm.nodup, hpm.notTerminal⟩
      have horderly : Orderly (conf :: rest, b) := by
        have horderly := hc.orderly
        rwa [SimConfig.shared, hq] at horderly
      have htracks : Tracks { pm with tradeConfirmationsQ := rest }
          (outstanding (conf :: rest, b)) := by
        have htracks := hc.tracks
        rw [SimConfig.shared, hq] at htracks
        exact htracks.congr rfl rfl
      refine ⟨?_, hpm'.processConfirmation conf, ?_, ?_⟩
      · rw [SimConfig.shared, processConfirmation_tradeConfirmationsQ]
        exact horderly.taken
      · rw [SimConfig.shared, processConfirmation_tradeConfirmationsQ,
          horderly.outstanding_taken]
        exact htracks.processConfirmation hpm' hd hsymbol hterminal
      · intro s hs
        rw [RunPhase.waiting, Phase.waiting, Finset.mem_insert, not_or] at hs
        have hon : PositionManager.OnTarget { pm with tradeConfirmationsQ := rest } s :=
          hc.settled s hs.2
        refine hon.processConfirmation hpm' ?_ hs.1
        intro o ho
        obtain rfl := Option.some.inj (hd.symm.trans ho)
        exact hsymbol
  | @takeTarget update rest fromTrades affected flag pm b hq =>
      refine ⟨hc.orderly, ⟨hpm.listed, hpm.symbol, hpm.nodup, hpm.notTerminal⟩,
        hc.tracks.congr rfl rfl, ?_⟩
      intro s hs
      rw [RunPhase.waiting, Phase.waiting, Finset.union_insert, Finset.mem_insert, not_or] at hs
      have hon : PositionManager.OnTarget { pm with targetUpdatesQ := rest } s := hc.settled s hs.2
      exact hon.processTargetUpdate hs.1
  | @reconcile pm b w' left flag symbol newId schedule hmem hnew hallowed hrun =>
      have hrec := reconcileSymbol_returned hrun
      have hfresh : Fresh pm newId := hc.tracks.fresh (t := (pm.tradeConfirmationsQ, b)) hnew
      obtain ⟨horderly, htracks⟩ := reconcile_tracks hallowed hrun hc.orderly hnew hc.tracks
      refine ⟨horderly, hrec.consistent hfresh hpm, htracks, ?_⟩
      intro s hs
      by_cases heq : s = symbol
      · rw [heq]
        exact hrec.calculateWorkingPosition_self hfresh
      · have hon := hc.settled s fun hleft => hs (Finset.mem_erase.mpr ⟨heq, hleft⟩)
        rw [PositionManager.OnTarget, hrec.targetPositions,
          hrec.calculateWorkingPosition_of_ne hfresh heq]
        exact hon
  | stop flag pm b =>
      have hstop := hc.continues (continues_apply (e := .stop) trivial hc.orderly)
      exact ⟨hstop.orderly, hstop.consistent, hstop.tracks, hstop.settled⟩

/-- In every state that a run reaches the live orders are the outstanding ones. -/
theorem SimReaches.tracked (h : SimReaches NotSubmit .init c) : c.Tracked := by
  induction h with
  | refl => exact tracked_init
  | tail _ hstep ih => exact hstep.tracked ih

/-- The working position is the position and what is outstanding. -/
theorem SimConfig.Tracked.workingPosition_eq (hc : c.Tracked) (s : String) :
    calculateWorkingPosition c.pm s = c.pm.positions.getD s 0 + outstandingOf s c.shared := by
  refine hc.tracks.workingPosition_eq hc.consistent hc.orderly.nodup_outstanding ?_ s
  intro k hk
  obtain ⟨o, ho, rfl⟩ := List.mem_map.mp hk
  exact (hc.orderly.positive o (List.mem_of_mem_filter ho)).le

/-- Where the queue is empty and every order finished, nothing is outstanding. -/
theorem outstanding_eq_nil (hq : t.1 = []) (hfinished : ∀ o ∈ t.2.orders, o.isFinished = true) :
    outstanding t = [] := by
  unfold outstanding
  rw [List.map_eq_nil_iff, List.filter_eq_nil_iff]
  intro o ho
  simp [isOutstanding, hq, hfinished o ho]

/-- With nothing outstanding there is no live order, and the working position is the position. -/
theorem SimConfig.Tracked.of_nil (hc : c.Tracked) (hnone : outstanding c.shared = []) :
    c.pm.liveOrders = ∅ ∧ ∀ s, calculateWorkingPosition c.pm s = c.pm.positions.getD s 0 := by
  constructor
  · refine Finmap.ext_lookup fun id => ?_
    rw [Finmap.lookup_empty, Option.eq_none_iff_forall_ne_some]
    intro d hd
    have hk := (hc.tracks.live hd).1
    rw [hnone] at hk
    exact List.not_mem_nil hk
  · intro s
    rw [hc.workingPosition_eq, outstandingOf, hnone, List.map_nil, List.sum_nil, add_zero]

/-- **What the working position counts on.** In every state that a run reaches, whoever cancels
orders meanwhile, the working position of a symbol is its position with all that its outstanding
orders can fill. A symbol that is not waiting to be reconciled misses its target by exactly that;
once every thread has finished and the queue is empty it holds its target and has no live order,
whatever of the orders has been cancelled. -/
theorem position_add_outstanding (h : SimReaches NotSubmit .init c) (s : String) :
    calculateWorkingPosition c.pm s = c.pm.positions.getD s 0 + outstandingOf s c.shared ∧
      (s ∉ c.phase.waiting →
        c.pm.positions.getD s 0 + outstandingOf s c.shared = c.pm.targetPositions.getD s 0 ∧
        (c.pm.tradeConfirmationsQ = [] → (∀ o ∈ c.broker.orders, o.isFinished = true) →
          c.pm.positions.getD s 0 = c.pm.targetPositions.getD s 0 ∧ c.pm.liveOrders = ∅)) := by
  have hc := h.tracked
  refine ⟨hc.workingPosition_eq s, fun hs => ?_⟩
  have hon : calculateWorkingPosition c.pm s = c.pm.targetPositions.getD s 0 := hc.settled s hs
  refine ⟨(hc.workingPosition_eq s).symm.trans hon, fun hq hfinished => ?_⟩
  obtain ⟨hlive, hposition⟩ := hc.of_nil (outstanding_eq_nil hq hfinished)
  exact ⟨(hposition s).symm.trans hon, hlive⟩

/-- An order of 20 is outstanding, and 1 of it is filled already. -/
theorem position_add_outstanding_partlyFilled :
    outstandingOf "AMD" partlyFilled.shared = 20 ∧
      calculateWorkingPosition partlyFilled.pm "AMD" = 20 ∧
      partlyFilled.pm.positions.getD "AMD" 0 + 20 = partlyFilled.pm.targetPositions.getD "AMD" 0 := by
  have hreaches : SimReaches NotSubmit .init partlyFilled :=
    reaches_partlyFilled fun _ _ => trivial
  have hout : outstandingOf "AMD" partlyFilled.shared = 20 := by decide
  obtain ⟨hworking, hon⟩ := position_add_outstanding hreaches "AMD"
  have hsum := (hon (Finset.notMem_empty "AMD")).1
  rw [hout] at hworking hsum
  exact ⟨hout, hworking, hsum⟩

end FlowManager.System
