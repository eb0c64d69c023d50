import FlowManager.System.Settling

/-!
# Two views of an order

`get_current_state_snapshot` shows the orders that the position manager holds for live, and
`get_order_details` an order that the simulated broker holds for live. Whatever the interleaving,
the two differ in nothing but the status and the filled quantity (`views_agree`): the position
manager hears of a fill when all of the order has ended, and of a status when it has asked for a
cancel. An order that only the position manager shows has ended, and its confirmation is on its way.
-/

namespace FlowManager.System

open FlowManager.Lib FlowManager.Broker FlowManager.Position FlowManager.Broker.Simulated

variable {t t' : Shared} {c c' : SimConfig}

/-! ## The live orders of the broker -/

/-- The thread of the order has not taken it out of `live_orders` yet. -/
def isListed (o : SimulatedOrder) : Bool :=
  match o.thread with
  | .testing | .filling | .finishing | .writing _ | .removing _ => true
  | .queueing _ | .finished => false

/-- The broker's dictionary holds the orders whose threads have not taken them out. -/
def Listed (b : SimulatedBroker) : Prop :=
  ∀ id i, b.liveOrders.lookup id = some i ↔
    ∃ o, b.orders[i]? = some o ∧ o.clientOrderId = id ∧ isListed o = true

/-- What a step of another thread leaves of an order. -/
structure Later (o o' : SimulatedOrder) : Prop where
  ticket : ticket o' = ticket o
  brokerOrderId : o'.brokerOrderId = o.brokerOrderId
  cancelling : o.cancelling = true → o'.cancelling = true

/-- An order that is left is as it was. -/
theorem Later.refl (o : SimulatedOrder) : Later o o := ⟨rfl, rfl, id⟩

/-- A step of the thread leaves what others see of the order. -/
theorem later_move (o : SimulatedOrder) (draw : ℕ) : Later o (o.move draw) :=
  ⟨ticket_move o draw, SimulatedOrder.move_brokerOrderId, fun h => (move_cancelling o draw).trans h⟩

/-- A cancel leaves what others see of the order, but that it is being cancelled. -/
theorem later_cancelOrder (o : SimulatedOrder) : Later o o.cancelOrder := ⟨rfl, rfl, fun _ => rfl⟩

/-- Other threads leave the orders. -/
theorem later_apply {e : SimEvent} (he : NotSubmit e) (t : Shared) :
    List.Forall₂ Later t.2.orders (e.apply t).2.orders := by
  have hrefl : List.Forall₂ Later t.2.orders t.2.orders := List.forall₂_same.mpr fun o _ => Later.refl o
  cases e with
  | submitOrder => exact he.elim
  | thread i draw =>
      change List.Forall₂ Later t.2.orders (threadStep i draw t).2.orders
      rw [orders_threadStep]
      exact forall₂_modify Later.refl _ _ _ fun o _ => later_move o draw
  | timer k =>
      change List.Forall₂ Later t.2.orders (timerStep k t).2.orders
      unfold timerStep
      cases t.2.timers[k]? <;> exact hrefl
  | cancelOrder id =>
      have hwp : Proc.wp (Simulated.cancelOrder id)
          (fun _ t' => List.Forall₂ Later t.2.orders t'.2.orders)
          (fun _ t' => List.Forall₂ Later t.2.orders t'.2.orders)
          (fun t' => List.Forall₂ Later t.2.orders t'.2.orders) t := by
        unfold Simulated.cancelOrder
        rw [Proc.wp_bind, Proc.wp_get]
        cases t.2.liveOrders.lookup id with
        | none => exact hrefl
        | some i => exact forall₂_modify Later.refl _ _ _ fun o _ => later_cancelOrder o
      exact hwp.state
  | stop =>
      refine forall₂_map _ fun o _ => ?_
      split_ifs
      · exact later_cancelOrder o
      · exact Later.refl o

/-- Two places with one client id are one. -/
theorem Orderly.place_eq (h : Orderly t) {i j : ℕ} {o o' : SimulatedOrder}
    (ho : t.2.orders[i]? = some o) (ho' : t.2.orders[j]? = some o')
    (hid : o.clientOrderId = o'.clientOrderId) : i = j := by
  have heq := h.eq_of_clientOrderId (List.mem_of_getElem? ho) (List.mem_of_getElem? ho') hid
  rw [← h.sound.brokerOrderId ho, heq, h.sound.brokerOrderId ho']

/-- Writes that leave which orders are listed. -/
theorem Listed.of_forall₂ {b b' : SimulatedBroker} (h : Listed b)
    (horders : List.Forall₂ (fun o o' => o'.clientOrderId = o.clientOrderId ∧
      isListed o' = isListed o) b.orders b'.orders) (hlive : b'.liveOrders = b.liveOrders) :
    Listed b' := by
  intro id i
  rw [hlive, h id i]
  constructor
  · rintro ⟨o, ho, rfl, hlisted⟩
    obtain ⟨o', ho', hid, hsame⟩ := exists_of_forall₂ horders.flip ho
    exact ⟨o', ho', hid, hsame.trans hlisted⟩
  · rintro ⟨o', ho', rfl, hlisted⟩
    obtain ⟨o, ho, hid, hsame⟩ := exists_of_forall₂ horders ho'
    exact ⟨o, ho, hid.symm, hsame.symm.trans hlisted⟩

/-- The thread of an order moves on, other than by taking the order out. -/
theorem isListed_move {o : SimulatedOrder} (h : ∀ conf, o.thread ≠ .removing conf) (draw : ℕ) :
    isListed (o.move draw) = isListed o := by
  cases hthread : o.thread with
  | testing =>
      simp only [SimulatedOrder.move, isListed, hthread]
      split_ifs <;> rfl
  | removing conf => exact absurd hthread (h conf)
  | filling | finishing | writing | queueing | finished =>
      simp [SimulatedOrder.move, isListed, hthread]

/-- The thread of an order takes it out. -/
theorem Listed.removing (h : Listed t.2) (horderly : Orderly t) {i draw : ℕ} {o : SimulatedOrder}
    {conf : TradeConfirmationMessage} (ho : t.2.orders[i]? = some o)
    (hthread : o.thread = .removing conf) : Listed (threadStep i draw t).2 := by
  have hconf : conf.clientOrderId = o.clientOrderId := by
    have hknows := (horderly.sound.order ho).knows
    rw [hthread] at hknows
    obtain ⟨finalStatus, rfl, -⟩ := hknows
    rfl
  have hlive : (threadStep i draw t).2.liveOrders = t.2.liveOrders.erase o.clientOrderId := by
    simp [threadStep, ho, hthread, SimulatedBroker.write, hconf]
  have hmoved : isListed (o.move draw) = false := by simp [SimulatedOrder.move, isListed, hthread]
  intro id j
  rw [hlive, Dict.lookup_erase_ite, orders_threadStep]
  constructor
  · intro hj
    split_ifs at hj with hid
    obtain ⟨o', ho', rfl, hlisted⟩ := (h id j).mp hj
    have hne : i ≠ j := by
      rintro rfl
      exact hid (congrArg SimulatedOrder.clientOrderId (Option.some.inj (ho'.symm.trans ho)))
    exact ⟨o', by rwa [List.getElem?_modify_ne _ _ hne], rfl, hlisted⟩
  · rintro ⟨o', ho', rfl, hlisted⟩
    rcases getElem?_modify_cases ho' with ⟨-, o'', ho'', rfl⟩ | ⟨hne, ho'⟩
    · obtain rfl := Option.some.inj (ho''.symm.trans ho)
      rw [hmoved] at hlisted
      exact absurd hlisted Bool.false_ne_true
    · rw [if_neg fun hid => hne (horderly.place_eq ho' ho hid)]
      exact (h _ j).mpr ⟨o', ho', rfl, hlisted⟩

/-- **Other threads keep the dictionary right.** -/
theorem listed_apply {e : SimEvent} (he : NotSubmit e) (h : Listed t.2) (horderly : Orderly t) :
    Listed (e.apply t).2 := by
  cases e with
  | submitOrder => exact he.elim
  | thread i draw =>
      change Listed (threadStep i draw t).2
      cases ho : t.2.orders[i]? with
      | none =>
          have hsame : threadStep i draw t = t := by simp [threadStep, ho]
          rw [hsame]
          exact h
      | some o =>
          by_cases hremoving : ∃ conf, o.thread = .removing conf
          · obtain ⟨conf, hthread⟩ := hremoving
            exact h.removing horderly ho hthread
          · rw [not_exists] at hremoving
            refine h.of_forall₂ ?_ ?_
            · rw [orders_threadStep]
              refine forall₂_modify (fun _ => ⟨rfl, rfl⟩) _ _ _ fun o' ho' => ?_
              obtain rfl := Option.some.inj (ho.symm.trans ho')
              exact ⟨SimulatedOrder.move_clientOrderId, isListed_move hremoving draw⟩
            · cases hthread : o.thread with
              | removing conf => exact absurd hthread (hremoving conf)
              | testing | filling | finishing | writing | queueing | finished =>
                  simp [threadStep, ho, hthread, SimulatedBroker.write, Simulated.callback]
  | timer k =>
      change Listed (timerStep k t).2
      unfold timerStep
      cases t.2.timers[k]? <;> exact h
  | cancelOrder id =>
      have hwp : Proc.wp (Simulated.cancelOrder id) (fun _ t' => Listed t'.2)
          (fun _ t' => Listed t'.2) (fun t' => Listed t'.2) t := by
        unfold Simulated.cancelOrder
        rw [Proc.wp_bind, Proc.wp_get]
        cases t.2.liveOrders.lookup id with
        | none => exact h
        | some i =>
            exact h.of_forall₂ (forall₂_modify (fun _ => ⟨rfl, rfl⟩) _ _ _ fun _ _ => ⟨rfl, rfl⟩)
              rfl
      exact hwp.state
  | stop =>
      refine h.of_forall₂ (forall₂_map _ fun o _ => ?_) rfl
      split_ifs <;> exact ⟨rfl, rfl⟩

/-- A new order is listed. -/
theorem Listed.accept (h : Listed t.2) (horderly : Orderly t) {newId symbol : String}
    {quantity : ℤ} {buying : Bool} (hnew : Unplaced newId t.2) :
    Listed (t.2.accept newId symbol quantity buying) := by
  intro id i
  simp only [SimulatedBroker.accept, Dict.lookup_insert_ite]
  by_cases hi : i < t.2.orders.length
  · rw [List.getElem?_append_left hi, ← h id i]
    split_ifs with hid
    · rw [hid]
      refine ⟨fun heq => absurd (Option.some.inj heq).symm (Nat.ne_of_lt hi), fun hlive => ?_⟩
      exact absurd (horderly.unduplicated.live hlive) (unplaced_iff.mp hnew)
    · exact Iff.rfl
  · have hnone : t.2.liveOrders.lookup id ≠ some i := by
      intro hlive
      obtain ⟨o, ho, -⟩ := (h id i).mp hlive
      exact hi (List.getElem?_eq_some_iff.mp ho).1
    rw [List.getElem?_append_right (not_lt.mp hi), List.getElem?_singleton]
    constructor
    · intro hlive
      split_ifs at hlive with hid
      · obtain rfl := Option.some.inj hlive
        exact ⟨.init t.2.orders.length newId symbol quantity buying, by simp, hid.symm, rfl⟩
      · exact absurd hlive hnone
    · rintro ⟨o, ho, rfl, -⟩
      split_ifs at ho with hzero
      obtain rfl := Option.some.inj ho
      have hlast : t.2.orders.length = i := le_antisymm (not_lt.mp hi) (Nat.sub_eq_zero_iff_le.mp hzero)
      rw [← hlast]
      exact if_pos rfl

/-! ## The records of the position manager -/

/-- The position manager's record of an order of the broker: nothing filled, and no other status
than its own. -/
structure Shows (o : SimulatedOrder) (p : OrderDetails) : Prop where
  same : p = { o.details with status := p.status, filledQuantity := 0 }
  cancelling : p.status = .PENDING_CANCEL → o.cancelling = true

/-- A record is of the order when that has gone on. -/
theorem Shows.later {o o' : SimulatedOrder} {p : OrderDetails} (h : Shows o p) (hlater : Later o o') :
    Shows o' p := by
  refine ⟨h.same.trans ?_, fun hstatus => hlater.cancelling (h.cancelling hstatus)⟩
  have hid : o'.clientOrderId = o.clientOrderId := congrArg Ticket.clientOrderId hlater.ticket
  have hsymbol : o'.symbol = o.symbol := congrArg Ticket.symbol hlater.ticket
  have hamount : o'.amount = o.amount := congrArg Ticket.quantity hlater.ticket
  have hside : o'.buySell = o.buySell := congrArg Ticket.sideIsBuy hlater.ticket
  simp only [SimulatedOrder.details, hid, hsymbol, hamount, hside, hlater.brokerOrderId]

/-- Every record is of an order of the broker with its id. -/
def Shown (live : Dict String OrderDetails) (b : SimulatedBroker) : Prop :=
  ∀ id p, live.lookup id = some p → ∃ o ∈ b.orders, o.clientOrderId = id ∧ Shows o p

/-- The records are of the orders when those have gone on. -/
theorem Shown.later {live : Dict String OrderDetails} {b b' : SimulatedBroker} (h : Shown live b)
    (horders : List.Forall₂ Later b.orders b'.orders) : Shown live b' := by
  intro id p hp
  obtain ⟨o, ho, rfl, hshows⟩ := h id p hp
  obtain ⟨o', ho', hlater⟩ := exists_mem_of_forall₂ horders.flip ho
  exact ⟨o', ho', congrArg Ticket.clientOrderId hlater.ticket, hshows.later hlater⟩

/-- The invariant of the records while the loop reconciles. -/
structure Agreed (live : Dict String OrderDetails) (t : Shared) : Prop where
  orderly : Orderly t
  listed : Listed t.2
  shown : Shown live t.2

section reconcile

variable {live : Dict String OrderDetails} {pm : PositionManager} {b : SimulatedBroker}
  {schedule : List (List SimEvent)}

/-- **A step of any other thread** keeps the records. -/
theorem Agreed.apply (h : Agreed live t) {e : SimEvent} (he : NotSubmit e) :
    Agreed live (e.apply t) :=
  ⟨(continues_apply he h.orderly).orderly, listed_apply he h.listed h.orderly,
    h.shown.later (later_apply he t)⟩

/-- What the other threads do before a call of the loop. -/
theorem Agreed.advanced (h : Agreed live (pm.tradeConfirmationsQ, b))
    (hallowed : ∀ es ∈ schedule, ∀ e ∈ es, NotSubmit e) :
    Agreed live (Scheduled.advanced (pm.tradeConfirmationsQ, ⟨b, schedule⟩)) ∧
      clientIds (Scheduled.advanced (pm.tradeConfirmationsQ, ⟨b, schedule⟩)).2 = clientIds b :=
  keeps_advanced (I := fun t => Agreed live t ∧ clientIds t.2 = clientIds b)
    (fun _ he _ ht => ⟨ht.1.apply he, (continues_apply he ht.1.orderly).clientIds.trans ht.2⟩)
    hallowed ⟨h, rfl⟩

/-- A call of the loop, once the other threads have made their steps. -/
theorem run_callBroker_advanced {α : Type} {method : Proc PyError Shared α} {t' : Shared} {a : α}
    (h : method.run (Scheduled.advanced (pm.tradeConfirmationsQ, ⟨b, schedule⟩)) =
      .returned a t') :
    (callBroker (afterEvents method)).run ⟨pm, ⟨b, schedule⟩⟩ =
      .returned a ⟨{ pm with tradeConfirmationsQ := t'.1 }, ⟨t'.2, schedule.tail⟩⟩ := by
  have hafter : (afterEvents method).run (pm.tradeConfirmationsQ, ⟨b, schedule⟩) =
      .returned a (t'.1, ⟨t'.2, schedule.tail⟩) := by
    unfold afterEvents
    exact Proc.run_focus_of_returned h
  unfold callBroker
  refine (Proc.run_focus_of_returned (t := (t'.1, ⟨t'.2, schedule.tail⟩)) ?_).trans rfl
  exact hafter

/-- The state of the loop between two calls. -/
structure Ready (w : World Scheduled) : Prop where
  agreed : Agreed w.pm.liveOrders (w.pm.tradeConfirmationsQ, w.broker.broker)
  allowed : ∀ es ∈ w.broker.schedule, ∀ e ∈ es, NotSubmit e

/-- What is allowed in a schedule is allowed in what is left of it. -/
theorem allowed_tail (h : ∀ es ∈ schedule, ∀ e ∈ es, NotSubmit e) :
    ∀ es ∈ schedule.tail, ∀ e ∈ es, NotSubmit e :=
  fun es hes => h es (List.mem_of_mem_tail hes)

/-- A cancel that is accepted is of an order that is being cancelled from then on. -/
theorem exists_run_cancelOrder (hlisted : Listed t.2) (id : String) : ∃ accepted,
    (Simulated.cancelOrder id).run t = .returned accepted (SimEvent.apply (.cancelOrder id) t) ∧
      (accepted = true → ∃ o ∈ (SimEvent.apply (.cancelOrder id) t).2.orders,
        o.clientOrderId = id ∧ o.cancelling = true) := by
  cases hlive : t.2.liveOrders.lookup id with
  | none => exact ⟨false, by simp [SimEvent.apply, Simulated.cancelOrder, hlive, Outcome.state], nofun⟩
  | some i =>
      obtain ⟨o, ho, rfl, -⟩ := (hlisted id i).mp hlive
      have hafter : SimEvent.apply (.cancelOrder o.clientOrderId) t =
          (t.1, t.2.write i SimulatedOrder.cancelOrder) := by
        simp [SimEvent.apply, Simulated.cancelOrder, hlive, Outcome.state]
      rw [hafter]
      refine ⟨true, by simp [Simulated.cancelOrder, hlive], fun _ => ⟨o.cancelOrder, ?_, rfl, rfl⟩⟩
      refine List.mem_of_getElem? (i := i) ?_
      rw [SimulatedBroker.write, List.getElem?_modify_eq, ho]
      rfl

/-- A record is marked. -/
theorem Agreed.mark (h : Agreed live t) {id : String} {order : OrderDetails}
    (horder : live.lookup id = some order)
    (hcancelling : ∃ o ∈ t.2.orders, o.clientOrderId = id ∧ o.cancelling = true) :
    Agreed (live.insert id { order with status := .PENDING_CANCEL }) t := by
  refine ⟨h.orderly, h.listed, fun id' p hp => ?_⟩
  rw [Dict.lookup_insert_ite] at hp
  split_ifs at hp with hid
  · subst hid
    obtain rfl := Option.some.inj hp
    obtain ⟨o, ho, hoid, hshows⟩ := h.shown id' order horder
    obtain ⟨o', ho', hoid', hcancelling'⟩ := hcancelling
    obtain rfl := h.orderly.eq_of_clientOrderId ho' ho (hoid'.trans hoid.symm)
    refine ⟨o', ho, hoid, ?_, fun _ => hcancelling'⟩
    rw [hshows.same]
  · exact h.shown id' p hp

/-- A cancel of the loop marks the record of an order that is being cancelled. -/
theorem exists_cancelIfOpposing {w : World Scheduled} (h : Ready w) (buying : Bool) (id : String) :
    ∃ w', (cancelIfOpposing scheduled buying id).run w = .returned () w' ∧ Ready w' ∧
      clientIds w'.broker.broker = clientIds w.broker.broker := by
  obtain ⟨pm, b, schedule⟩ := w
  obtain ⟨hagreed, hallowed⟩ := h
  unfold cancelIfOpposing
  rw [Proc.run_bind, Proc.run_get, Outcome.bind_returned]
  dsimp only
  cases hlive : pm.liveOrders.lookup id with
  | none => exact ⟨_, rfl, ⟨hagreed, hallowed⟩, rfl⟩
  | some order =>
      dsimp only
      split_ifs with hopposes
      · obtain ⟨hadvanced, hids⟩ := hagreed.advanced hallowed
        have hnext := hadvanced.apply (e := .cancelOrder id) trivial
        have hids' := (continues_apply (e := .cancelOrder id) trivial hadvanced.orderly).clientIds
        obtain ⟨accepted, hrun, hcancelling⟩ := exists_run_cancelOrder hadvanced.listed id
        have hcall : (callBroker (scheduled.cancelOrder id)).run ⟨pm, ⟨b, schedule⟩⟩ = _ :=
          run_callBroker_advanced hrun
        rw [Proc.run_bind, hcall, Outcome.bind_returned]
        cases accepted with
        | false => exact ⟨_, rfl, ⟨hnext, allowed_tail hallowed⟩, hids'.trans hids⟩
        | true =>
            exact ⟨_, rfl, ⟨hnext.mark hlive (hcancelling rfl), allowed_tail hallowed⟩,
              hids'.trans hids⟩
      · exact ⟨_, rfl, ⟨hagreed, hallowed⟩, rfl⟩

/-- **The cancels before an order** keep the records. -/
theorem exists_cancelOpposing (buying : Bool) : ∀ (ids : List String) {w : World Scheduled},
    Ready w → ∃ w', (cancelOpposing scheduled buying ids).run w = .returned () w' ∧ Ready w' ∧
      clientIds w'.broker.broker = clientIds w.broker.broker
  | [], w, h => ⟨w, rfl, h, rfl⟩
  | id :: rest, w, h => by
      obtain ⟨w₁, hrun, hready, hids⟩ := exists_cancelIfOpposing h buying id
      obtain ⟨w₂, hrest, hready', hids'⟩ := exists_cancelOpposing buying rest hready
      refine ⟨w₂, ?_, hready', hids'.trans hids⟩
      rw [cancelOpposing, Proc.run_bind, hrun, Outcome.bind_returned, hrest]

/-- A submission with an id that is not in use makes an order, and a record of it. -/
theorem Agreed.place (h : Agreed live t) {newId : String} {quantity : ℤ} (hquantity : 0 < quantity)
    (hnew : Unplaced newId t.2) (symbol : String) (buying : Bool) :
    (Simulated.submitOrder newId symbol quantity buying "MARKET" none).run t =
        .returned (some (t.2.orders.length : ℤ)) (t.1, t.2.accept newId symbol quantity buying) ∧
      Agreed (live.insert newId { newOrder newId symbol quantity buying with
          brokerOrderId := some (t.2.orders.length : ℤ) })
        (t.1, t.2.accept newId symbol quantity buying) := by
  have hlive : t.2.liveOrders.lookup newId = none := by
    rw [Option.eq_none_iff_forall_ne_some]
    exact fun i hi => unplaced_iff.mp hnew (h.orderly.unduplicated.live hi)
  have hrun : (Simulated.submitOrder newId symbol quantity buying "MARKET" none).run t =
      .returned (some (t.2.orders.length : ℤ)) (t.1, t.2.accept newId symbol quantity buying) := by
    simp [Simulated.submitOrder, hlive]
  refine ⟨hrun, ?_, h.listed.accept h.orderly hnew, fun id p hp => ?_⟩
  · exact (Proc.wp.returned (submits_submitOrder h.orderly hquantity hnew) hrun).1
  · rw [Dict.lookup_insert_ite] at hp
    split_ifs at hp with hid
    · obtain rfl := Option.some.inj hp
      refine ⟨.init t.2.orders.length newId symbol quantity buying, ?_, hid.symm, rfl, nofun⟩
      exact List.mem_append_right _ (List.mem_singleton.mpr rfl)
    · obtain ⟨o, ho, hoid, hshows⟩ := h.shown id p hp
      exact ⟨o, List.mem_append_left _ ho, hoid, hshows⟩

/-- **Placing an order** keeps the records. -/
theorem exists_placeNew {w : World Scheduled} (h : Ready w) {newId : String} {quantity : ℤ}
    (hquantity : 0 < quantity) (hnew : Unplaced newId w.broker.broker) (symbol : String)
    (buying : Bool) : ∃ w', (placeNew scheduled symbol newId quantity buying).run w = .returned () w' ∧ Ready w' := by
  obtain ⟨pm, b, schedule⟩ := w
  obtain ⟨hagreed, hallowed⟩ := h
  obtain ⟨hadvanced, hids⟩ := hagreed.advanced hallowed
  have hnew' : Unplaced newId
      (Scheduled.advanced (pm.tradeConfirmationsQ, ⟨b, schedule⟩)).2 := by
    rw [unplaced_iff, hids]
    exact unplaced_iff.mp hnew
  obtain ⟨hrun, hplaced⟩ := hadvanced.place hquantity hnew' symbol buying
  have hcall : (callBroker (scheduled.submitOrder newId symbol quantity buying "MARKET" none)).run
      ⟨pm.track (newOrder newId symbol quantity buying), ⟨b, schedule⟩⟩ = _ :=
    run_callBroker_advanced hrun
  have hlookup : (pm.track (newOrder newId symbol quantity buying)).liveOrders.lookup newId =
      some (newOrder newId symbol quantity buying) := Finmap.lookup_insert _
  generalize Scheduled.advanced (pm.tradeConfirmationsQ, ⟨b, schedule⟩) = t at hcall hplaced
  refine ⟨⟨{ (pm.track (newOrder newId symbol quantity buying)).setLiveOrder newId
      { newOrder newId symbol quantity buying with
        brokerOrderId := some (t.2.orders.length : ℤ) } with tradeConfirmationsQ := t.1 },
    ⟨t.2.accept newId symbol quantity buying, schedule.tail⟩⟩, ?_, ?_, allowed_tail hallowed⟩
  · rw [placeNew, Proc.run_bind, modifyPm, Proc.run_modify, Outcome.bind_returned, Proc.run_bind,
      hcall]
    simp [hlookup, modifyPm, PositionManager.setLiveOrder]
  · have htwice : (pm.track (newOrder newId symbol quantity buying)).liveOrders.insert newId
        { newOrder newId symbol quantity buying with
          brokerOrderId := some (t.2.orders.length : ℤ) } =
        pm.liveOrders.insert newId { newOrder newId symbol quantity buying with
          brokerOrderId := some (t.2.orders.length : ℤ) } := Finmap.insert_insert _
    dsimp only [PositionManager.setLiveOrder]
    rw [htwice]
    exact hplaced

/-- **Reconciling a symbol** keeps the records. -/
theorem reconcile_agreed {symbol newId : String} {w' : World Scheduled}
    (h : Agreed pm.liveOrders (pm.tradeConfirmationsQ, b))
    (hallowed : ∀ es ∈ schedule, ∀ e ∈ es, NotSubmit e) (hnew : Unplaced newId b)
    (hrun : (reconcileSymbol scheduled symbol newId).run ⟨pm, ⟨b, schedule⟩⟩ = .returned () w') :
    Agreed w'.pm.liveOrders (w'.pm.tradeConfirmationsQ, w'.broker.broker) := by
  rcases reconcileSymbol_cases hrun with
    ⟨-, rfl⟩ | ⟨delta, buying, mid, rfl, hpos, hcancel, hplace⟩
  · exact h
  · obtain ⟨mid', hcancel', hready, hids⟩ :=
      exists_cancelOpposing buying (pm.index symbol) (w := ⟨pm, ⟨b, schedule⟩⟩) ⟨h, hallowed⟩
    rw [hcancel', Outcome.returned.injEq] at hcancel
    obtain ⟨-, rfl⟩ := hcancel
    have hnew' : Unplaced newId mid'.broker.broker := by
      rw [unplaced_iff, hids]
      exact unplaced_iff.mp hnew
    have hquantity : 0 < |pm.targetPositions.getD symbol 0 - calculateWorkingPosition pm symbol| := by
      rw [abs_pos]
      rintro hzero
      rw [hzero, zero_mul] at hpos
      exact lt_irrefl 0 hpos
    obtain ⟨w'', hplace', hready'⟩ :=
      exists_placeNew hready hquantity hnew' symbol buying
    rw [hplace', Outcome.returned.injEq] at hplace
    obtain ⟨-, rfl⟩ := hplace
    exact hready'.agreed

end reconcile

/-! ## Every run -/

/-- **Every step keeps the records.** -/
theorem SimStep.agreed (h : SimStep NotSubmit c c') (hc : c.Tracked)
    (hagreed : Agreed c.pm.liveOrders c.shared) : Agreed c'.pm.liveOrders c'.shared := by
  have horderly := (h.tracked hc).orderly
  cases h with
  | event _ e he => exact hagreed.apply he
  | targetArrives | terminate | enterLoop | confirmationsDone | takeTarget | targetsDone
  | iterationDone | leaveLoop => exact hagreed
  | @takeConfirmation conf rest affected flag pm b hq =>
      have hmem : conf ∈ pm.tradeConfirmationsQ := by simp [hq]
      obtain ⟨d, hd, -, hterminal⟩ := hc.live_of_queued hmem
      refine ⟨horderly, hagreed.listed, fun id p hp => hagreed.shown id p ?_⟩
      have herased : (processConfirmation conf { pm with tradeConfirmationsQ := rest }).liveOrders =
          pm.liveOrders.erase conf.clientOrderId := by
        have hd' : { pm with tradeConfirmationsQ := rest }.liveOrders.lookup conf.clientOrderId =
            some d := hd
        unfold processConfirmation
        rw [hd']
        dsimp only
        rw [if_pos hterminal, removeLiveOrder_liveOrders]
        rfl
      dsimp only at hp
      rw [herased, Dict.lookup_erase_ite] at hp
      split_ifs at hp
      exact hp
  | reconcile flag symbol newId schedule _ hnew hallowed hrun =>
      exact reconcile_agreed hagreed hallowed hnew hrun
  | stop => exact hagreed.apply (e := .stop) trivial

/-- **In every state that a run reaches** the records are of the broker's orders. -/
theorem SimReaches.agreed (h : SimReaches NotSubmit .init c) :
    Agreed c.pm.liveOrders c.shared := by
  induction h with
  | refl =>
      refine ⟨tracked_init.orderly, fun id i => ?_, nofun⟩
      simp [SimConfig.init, SimConfig.shared, SimulatedBroker.init]
  | tail hreaches hstep ih => exact hstep.agreed (SimReaches.tracked hreaches) ih

/-! ## What is shown -/

/-- The broker shows the orders that are listed. -/
theorem getOrderDetails_eq_some {b : SimulatedBroker} (h : Listed b) {id : String}
    {d : OrderDetails} : getOrderDetails id b = some d ↔
      ∃ o ∈ b.orders, o.clientOrderId = id ∧ isListed o = true ∧ o.details = d := by
  have hunfold : getOrderDetails id b = some d ↔ ∃ i, b.liveOrders.lookup id = some i ∧
      ∃ o, b.orders[i]? = some o ∧ o.details = d := by
    simp [getOrderDetails, Option.bind_eq_some_iff]
  rw [hunfold]
  constructor
  · rintro ⟨i, hlive, o, ho, rfl⟩
    obtain ⟨o', ho', hid, hlisted⟩ := (h id i).mp hlive
    obtain rfl := Option.some.inj (ho'.symm.trans ho)
    exact ⟨o', List.mem_of_getElem? ho, hid, hlisted, rfl⟩
  · rintro ⟨o, ho, hid, hlisted, rfl⟩
    obtain ⟨i, hi⟩ := List.mem_iff_getElem?.mp ho
    exact ⟨i, (h id i).mpr ⟨o, hi, hid, hlisted⟩, o, hi, rfl⟩

/-- The snapshot lists the live orders. -/
theorem mem_liveOrdersDetails {pm : PositionManager} {p : OrderDetails} :
    p ∈ (getCurrentStateSnapshot pm).liveOrdersDetails ↔
      ∃ id, pm.liveOrders.lookup id = some p := by
  simp only [getCurrentStateSnapshot, Multiset.mem_map, Sigma.exists, exists_eq_right]
  exact exists_congr fun id => Finmap.mem_lookup_iff.symm

/-- The count of a symbol is the number of the records that name it. -/
theorem liveOrdersCountBySymbol_eq {pm : PositionManager} {ks : List Ticket} (hpm : pm.Consistent)
    (htracks : Tracks pm ks) (s : String) :
    ((getCurrentStateSnapshot pm).liveOrdersCountBySymbol s).getD 0 =
      ((getCurrentStateSnapshot pm).liveOrdersDetails.filter fun p => p.symbol = s).card := by
  have hcount : ((getCurrentStateSnapshot pm).liveOrdersCountBySymbol s).getD 0 =
      (pm.index s).length := by
    cases hlist : pm.liveOrdersBySymbol.lookup s <;>
      simp [getCurrentStateSnapshot, PositionManager.index, Dict.getD, hlist]
  have hids : ((pm.index s : List String) : Multiset String) =
      (pm.liveOrders.entries.filter fun entry => entry.2.symbol = s).map Sigma.fst := by
    have hnodup : ((pm.liveOrders.entries.filter fun entry => entry.2.symbol = s).map
        Sigma.fst).Nodup :=
      Multiset.nodup_of_le (Multiset.map_le_map (Multiset.filter_le _ _))
        pm.liveOrders.nodupKeys.nodup_keys
    refine (Multiset.Nodup.ext (Multiset.coe_nodup.mpr (hpm.nodup s)) hnodup).mpr fun id => ?_
    have hlive : id ∈ (pm.liveOrders.entries.filter fun entry => entry.2.symbol = s).map
        Sigma.fst ↔ ∃ p, pm.liveOrders.lookup id = some p ∧ p.symbol = s := by
      simp [Finmap.lookup_eq_some_iff]
    rw [Multiset.mem_coe, hlive]
    constructor
    · intro hid
      obtain ⟨p, hp⟩ := htracks.listed hid
      exact ⟨p, hp, hpm.symbol hid hp⟩
    · rintro ⟨p, hp, rfl⟩
      exact hpm.listed hp
  rw [hcount, ← Multiset.coe_card, hids, Multiset.card_map, getCurrentStateSnapshot,
    Multiset.filter_map, Multiset.card_map]
  rfl

/-- An order that is not listed but outstanding has a confirmation on its way. -/
theorem Orderly.onItsWay (h : Orderly t) {o : SimulatedOrder} (ho : o ∈ t.2.orders)
    (hunlisted : isListed o = false) (hout : isOutstanding t.1 o = true) :
    (∃ conf, o.thread = .queueing conf) ∨ ∃ conf ∈ t.1, conf.clientOrderId = o.clientOrderId := by
  cases hthread : o.thread with
  | testing | filling | finishing | writing | removing => simp [isListed, hthread] at hunlisted
  | queueing conf => exact Or.inl ⟨conf, rfl⟩
  | finished =>
      right
      have hfinished : o.isFinished = true := by simp [SimulatedOrder.isFinished, hthread]
      rw [isOutstanding, hfinished, Bool.not_true, Bool.false_or, List.any_eq_true] at hout
      obtain ⟨conf, hconf, horder⟩ := hout
      obtain ⟨o', ho', -, finalStatus, rfl, -⟩ := h.queued conf hconf
      refine ⟨_, hconf, ?_⟩
      obtain ⟨i, hi⟩ := List.mem_iff_getElem?.mp ho
      obtain ⟨j, hj⟩ := List.mem_iff_getElem?.mp ho'
      have hid := of_decide_eq_true horder
      rw [SimulatedOrder.confirmation, h.sound.brokerOrderId hi, h.sound.brokerOrderId hj,
        Nat.cast_inj] at hid
      rw [hid, hi] at hj
      obtain rfl := Option.some.inj hj
      rfl

/-- **The two views agree.** In every state that a run reaches, the counts of the snapshot are those
of its records; every record is of an order of the broker, and the same as the broker's but for the
status and for what has been filled; where it says that the order is being cancelled, it is; and the
broker shows the order, or its confirmation is about to be passed on or in the queue. What the broker
shows, the snapshot shows. -/
theorem views_agree (h : SimReaches NotSubmit .init c) :
    (∀ s, ((getCurrentStateSnapshot c.pm).liveOrdersCountBySymbol s).getD 0 =
      ((getCurrentStateSnapshot c.pm).liveOrdersDetails.filter fun p => p.symbol = s).card) ∧
    (∀ p ∈ (getCurrentStateSnapshot c.pm).liveOrdersDetails, ∃ o ∈ c.broker.orders,
      p = { o.details with status := p.status, filledQuantity := 0 } ∧
      (p.status = .PENDING_CANCEL → o.cancelling = true) ∧
      (getOrderDetails p.clientOrderId c.broker = some o.details ∨
        getOrderDetails p.clientOrderId c.broker = none ∧
          ((∃ conf, o.thread = .queueing conf) ∨
            ∃ conf ∈ c.pm.tradeConfirmationsQ, conf.clientOrderId = p.clientOrderId))) ∧
    ∀ id d, getOrderDetails id c.broker = some d →
      ∃ p ∈ (getCurrentStateSnapshot c.pm).liveOrdersDetails,
        p = { d with status := p.status, filledQuantity := 0 } ∧ p.clientOrderId = id ∧
        0 ≤ d.filledQuantity ∧ d.filledQuantity ≤ d.quantity := by
  have hc := h.tracked
  obtain ⟨horderly, hlisted, hshown⟩ := h.agreed
  refine ⟨liveOrdersCountBySymbol_eq hc.consistent hc.tracks, fun p hp => ?_, fun id d hd => ?_⟩
  · obtain ⟨id, hlive⟩ := mem_liveOrdersDetails.mp hp
    obtain ⟨o, ho, rfl, hshows⟩ := hshown id p hlive
    have hid : p.clientOrderId = o.clientOrderId := by rw [hshows.same]; rfl
    refine ⟨o, ho, hshows.same, hshows.cancelling, ?_⟩
    rw [hid]
    cases hlistedo : isListed o with
    | true => exact Or.inl ((getOrderDetails_eq_some hlisted).mpr ⟨o, ho, rfl, hlistedo, rfl⟩)
    | false =>
        right
        constructor
        · rw [Option.eq_none_iff_forall_ne_some]
          intro d hd
          obtain ⟨o', ho', hid', hlisted', -⟩ := (getOrderDetails_eq_some hlisted).mp hd
          obtain rfl := horderly.eq_of_clientOrderId ho' ho hid'
          rw [hlistedo] at hlisted'
          exact absurd hlisted' Bool.false_ne_true
        · refine horderly.onItsWay ho hlistedo ?_
          obtain ⟨hticket, -, -⟩ := hc.tracks.live hlive
          obtain ⟨o', ho', heq⟩ := List.mem_map.mp hticket
          obtain ⟨hmem, hout⟩ := List.mem_filter.mp ho'
          have hid' : o'.clientOrderId = o.clientOrderId :=
            (congrArg Ticket.clientOrderId heq).trans hid
          rwa [horderly.eq_of_clientOrderId hmem ho hid'] at hout
  · obtain ⟨o, ho, rfl, hlistedo, rfl⟩ := (getOrderDetails_eq_some hlisted).mp hd
    have hunfinished : o.isFinished = false := by
      cases hthread : o.thread with
      | finished => simp [isListed, hthread] at hlistedo
      | testing | filling | finishing | writing | removing | queueing =>
          simp [SimulatedOrder.isFinished, hthread]
    have hout : isOutstanding c.pm.tradeConfirmationsQ o = true := by
      simp [isOutstanding, hunfinished]
    obtain ⟨p, hlive, -⟩ := hc.tracks.tracked _ (ticket_mem_outstanding (t := c.shared) ho hout)
    obtain ⟨o', ho', hid', hshows⟩ := hshown _ p hlive
    obtain rfl := horderly.eq_of_clientOrderId ho' ho hid'
    obtain ⟨i, hi⟩ := List.mem_iff_getElem?.mp ho
    refine ⟨p, mem_liveOrdersDetails.mpr ⟨_, hlive⟩, hshows.same, ?_,
      (horderly.sound.order hi).nonneg, (horderly.sound.order hi).le⟩
    rw [hshows.same]
    rfl

/-- The broker shows 1 of 20 filled, the position manager nothing. -/
theorem views_agree_partlyFilled :
    ∃ p ∈ (getCurrentStateSnapshot partlyFilled.pm).liveOrdersDetails, p.clientOrderId = "buy" ∧
      ∃ d, getOrderDetails "buy" partlyFilled.broker = some d ∧ d.filledQuantity = 1 ∧
        p = { d with status := p.status, filledQuantity := 0 } := by
  obtain ⟨-, -, hshown⟩ := views_agree (reaches_partlyFilled fun _ _ => trivial)
  have hd : getOrderDetails "buy" partlyFilled.broker = some
      { clientOrderId := "buy", brokerOrderId := some 0, symbol := "AMD", quantity := 20,
        sideIsBuy := true, type := "MARKET", price := none, status := .WORKING,
        filledQuantity := 1 } := by decide
  obtain ⟨p, hp, hsame, hid, -⟩ := hshown "buy" _ hd
  exact ⟨p, hp, hid, _, hd, rfl, hsame⟩

end FlowManager.System
