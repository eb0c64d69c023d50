import FlowManager.System.SimulatedRun

/-!
# What a shutdown loses

`PositionManager.run` leaves its loop as soon as the test sees the terminate flag. It does not drain
its queue again, and `broker.stop()` lets the threads of the live orders end afterwards, each with a
confirmation that nobody takes. So the final state is the real position exactly if nothing is under
way when the test sees the flag (`shutdown_accounts_iff`): the queue is empty and every order has
been reported.

In these runs only the loop submits orders, with ids that no order has had. Then no id is a
duplicate and no timer is ever started.
-/

namespace FlowManager.System

open FlowManager.Lib FlowManager.Broker FlowManager.Position FlowManager.Broker.Simulated

variable {t : Shared} {c c' : SimConfig}

/-- The step is not a submission. -/
def NotSubmit : SimEvent → Prop
  | .submitOrder _ _ _ _ => False
  | _ => True

/-- A step that submits nothing submits no negative quantity. -/
theorem positive_of_notSubmit {e : SimEvent} (he : NotSubmit e) : e.Positive := by
  cases e with
  | submitOrder => exact he.elim
  | thread | timer | cancelOrder | stop => trivial

/-- A run in which less is allowed is a run in which more is. -/
theorem SimStep.mono {Allowed Allowed' : SimEvent → Prop} (himp : ∀ e, Allowed e → Allowed' e)
    (h : SimStep Allowed c c') : SimStep Allowed' c c' := by
  cases h with
  | event _ e he => exact .event _ e (himp e he)
  | targetArrives => exact .targetArrives _ _ _
  | terminate => exact .terminate _
  | enterLoop => exact .enterLoop _ _
  | takeConfirmation _ _ _ _ hq => exact .takeConfirmation _ _ _ _ hq
  | confirmationsDone _ _ _ _ hq => exact .confirmationsDone _ _ _ _ hq
  | takeTarget _ _ _ _ _ hq => exact .takeTarget _ _ _ _ _ hq
  | targetsDone _ _ _ _ _ hq => exact .targetsDone _ _ _ _ _ hq
  | reconcile flag symbol newId schedule hmem hnew hallowed hrun =>
      exact .reconcile flag symbol newId schedule hmem hnew
        (fun es hes e he => himp e (hallowed es hes e he)) hrun
  | iterationDone => exact .iterationDone _ _ _
  | leaveLoop => exact .leaveLoop _ _
  | stop => exact .stop _ _ _

/-- In every state that a run reaches the account is in order. -/
theorem SimReaches.accounted_of_notSubmit (h : SimReaches NotSubmit .init c) : c.Accounted :=
  SimReaches.accounted (Relation.ReflTransGen.mono
    (fun _ _ => SimStep.mono fun _ => positive_of_notSubmit) _ _ h)

/-! ## No duplicate ids -/

/-- The client ids of the orders made so far. -/
def clientIds (b : SimulatedBroker) : List String := b.orders.map SimulatedOrder.clientOrderId

/-- An id without an order has not been given out. -/
theorem unplaced_iff {id : String} {b : SimulatedBroker} : Unplaced id b ↔ id ∉ clientIds b := by
  simp [Unplaced, clientIds]

/-- Every id of `live_orders` is of an order, and no timer runs. -/
structure Unduplicated (t : Shared) : Prop where
  timers : t.2.timers = []
  live : ∀ {id i}, t.2.liveOrders.lookup id = some i → id ∈ clientIds t.2

/-- What a step that submits nothing leaves. -/
structure Tends (t t' : Shared) : Prop where
  clientIds : clientIds t'.2 = clientIds t.2
  timers : t.2.timers = [] → t'.2.timers = []
  live : ∀ {id i}, t'.2.liveOrders.lookup id = some i → t.2.liveOrders.lookup id = some i

namespace Tends

/-- Nothing done leaves ids and timers. -/
theorem refl (t : Shared) : Tends t t := ⟨rfl, id, id⟩

/-- Where no timer ran and the live ids were of orders, it is still so. -/
theorem unduplicated {t' : Shared} (h : Tends t t') (ht : Unduplicated t) : Unduplicated t' where
  timers := h.timers ht.timers
  live := by
    intro id i hlookup
    rw [h.clientIds]
    exact ht.live (h.live hlookup)

/-- An id without an order is still without one. -/
theorem unplaced {t' : Shared} (h : Tends t t') {id : String} (hid : Unplaced id t.2) :
    Unplaced id t'.2 := by
  rw [unplaced_iff] at hid ⊢
  rwa [h.clientIds]

end Tends

/-- A write that leaves the id of an order leaves all ids. -/
theorem clientIds_write (b : SimulatedBroker) (i : ℕ) {f : SimulatedOrder → SimulatedOrder}
    (hf : ∀ o, (f o).clientOrderId = o.clientOrderId) : clientIds (b.write i f) = clientIds b :=
  map_eq_of_forall₂ (forall₂_modify (R := fun o o' => o'.clientOrderId = o.clientOrderId)
    (fun _ => rfl) f _ i fun o _ => hf o) fun _ _ h => h

/-- **`cancel_order`** leaves the ids and starts no timer. -/
theorem tends_cancelOrder (clientOrderId : String) (t : Shared) :
    Proc.wp (Simulated.cancelOrder clientOrderId)
      (fun _ => Tends t) (fun _ => Tends t) (Tends t) t := by
  unfold Simulated.cancelOrder
  rw [Proc.wp_bind, Proc.wp_get]
  cases t.2.liveOrders.lookup clientOrderId with
  | some i => exact ⟨clientIds_write t.2 i fun _ => rfl, id, id⟩
  | none => exact Tends.refl t

/-- **A step of an order's thread** leaves the ids and starts no timer. -/
theorem tends_threadStep (i draw : ℕ) (t : Shared) : Tends t (threadStep i draw t) := by
  have hids : clientIds (t.2.write i (·.move draw)) = clientIds t.2 :=
    clientIds_write t.2 i fun _ => SimulatedOrder.move_clientOrderId
  unfold threadStep
  cases t.2.orders[i]? with
  | none => exact Tends.refl t
  | some o =>
      dsimp only
      cases o.thread with
      | removing conf =>
          refine ⟨hids, id, fun h => ?_⟩
          rw [Dict.lookup_erase_ite] at h
          split_ifs at h
          exact h
      | testing | filling | finishing | writing | queueing | finished => exact ⟨hids, id, id⟩

/-- **A timer that goes off** leaves the ids and starts no other. -/
theorem tends_timerStep (k : ℕ) (t : Shared) : Tends t (timerStep k t) := by
  unfold timerStep
  cases t.2.timers[k]? with
  | none => exact Tends.refl t
  | some message =>
      refine ⟨rfl, fun h => ?_, id⟩
      simp [Simulated.callback, h]

/-- **`stop`** leaves the ids and starts no timer. -/
theorem tends_stop (t : Shared) : Tends t (t.1, t.2.stop) := by
  refine ⟨?_, id, id⟩
  simp only [clientIds, SimulatedBroker.stop, List.map_map]
  refine List.map_congr_left fun o _ => ?_
  simp only [Function.comp_apply]
  split_ifs <;> rfl

/-- **A step of any other thread** leaves the ids and starts no timer. -/
theorem tends_apply {e : SimEvent} (he : NotSubmit e) (t : Shared) : Tends t (e.apply t) := by
  cases e with
  | thread i draw => exact tends_threadStep i draw t
  | timer k => exact tends_timerStep k t
  | submitOrder => exact he.elim
  | cancelOrder id => exact (tends_cancelOrder id t).state
  | stop => exact tends_stop t

/-- A submission under an id without an order starts no timer. -/
theorem unduplicated_submitOrder {newId symbol : String} {quantity : ℤ} {sideIsBuy : Bool}
    {orderType : String} {price : Option PyFloat} (ht : Unduplicated t) (hnew : Unplaced newId t.2) :
    Proc.wp (Simulated.submitOrder newId symbol quantity sideIsBuy orderType price)
      (fun _ => Unduplicated) (fun _ => Unduplicated) Unduplicated t := by
  unfold Simulated.submitOrder
  rw [Proc.wp_bind, Proc.wp_get]
  cases hlive : t.2.liveOrders.lookup newId with
  | some i => exact absurd (ht.live hlive) (unplaced_iff.mp hnew)
  | none =>
      refine ⟨ht.timers, ?_⟩
      intro id i h
      simp only [SimulatedBroker.accept, Dict.lookup_insert_ite] at h
      simp only [clientIds, SimulatedBroker.accept, List.map_append, List.mem_append]
      split_ifs at h with hid
      · right
        simp [hid, SimulatedOrder.init]
      · exact Or.inl (ht.live h)

/-- With ids that are not in use no submission is a duplicate. -/
theorem SimStep.unduplicated (h : SimStep NotSubmit c c') (hc : Unduplicated c.shared) :
    Unduplicated c'.shared := by
  cases h with
  | event _ e he => exact (tends_apply he c.shared).unduplicated hc
  | targetArrives | terminate | enterLoop | takeConfirmation | confirmationsDone | takeTarget
  | targetsDone | iterationDone | leaveLoop => exact ⟨hc.timers, hc.live⟩
  | @reconcile pm b w' left flag symbol newId schedule _ hnew hallowed hrun =>
      exact reconcile_keeps (I := fun t => Unduplicated t ∧ Unplaced newId t.2) (J := Unduplicated)
        (fun e he t ht => ⟨(tends_apply he t).unduplicated ht.1, (tends_apply he t).unplaced ht.2⟩)
        (fun id t ht => Proc.wp_mono (tends_cancelOrder id t)
          (fun _ _ h => ⟨h.unduplicated ht.1, h.unplaced ht.2⟩)
          (fun _ _ h => ⟨h.unduplicated ht.1, h.unplaced ht.2⟩)
          fun _ h => ⟨h.unduplicated ht.1, h.unplaced ht.2⟩)
        (fun quantity buying t _ ht => unduplicated_submitOrder ht.1 ht.2)
        (fun _ ht => ht.1) hallowed hrun ⟨hc, hnew⟩
  | stop flag pm b => exact (tends_stop (pm.tradeConfirmationsQ, b)).unduplicated hc

/-- In every state that a run reaches no timer runs, and the live ids are of orders. -/
theorem SimReaches.unduplicated (h : SimReaches NotSubmit .init c) : Unduplicated c.shared := by
  induction h with
  | refl => exact ⟨rfl, fun h => by simp [SimConfig.init, SimConfig.shared,
      SimulatedBroker.init] at h⟩
  | tail _ hstep ih => exact hstep.unduplicated ih

/-! ## Behind the loop -/

/-- The run of the position manager from the test that sees the flag to its return. -/
structure Shutdown (pm : PositionManager) (b : SimulatedBroker) (final : SimConfig) : Prop where
  reached : SimReaches NotSubmit .init ⟨.testing, true, pm, b⟩
  ends : SimReaches NotSubmit ⟨.stopping, true, pm, b⟩ final
  returned : final.phase = .returned

/-- Every run that has returned has left its loop so. -/
theorem exists_shutdown (h : SimReaches NotSubmit .init c) (hphase : c.phase = .returned) :
    ∃ pm b, Shutdown pm b c := by
  have hleft : c.phase = .stopping ∨ c.phase = .returned →
      ∃ pm b, SimReaches NotSubmit .init ⟨.testing, true, pm, b⟩ ∧
        SimReaches NotSubmit ⟨.stopping, true, pm, b⟩ c := by
    clear hphase
    induction h with
    | refl => simp [SimConfig.init]
    | @tail c c' hreach hstep ih =>
        intro hphase
        have hbefore : (c.phase = .stopping ∨ c.phase = .returned) →
            ∃ pm b, SimReaches NotSubmit .init ⟨.testing, true, pm, b⟩ ∧
              SimReaches NotSubmit ⟨.stopping, true, pm, b⟩ c' := by
          intro hc
          obtain ⟨pm, b, htest, hends⟩ := ih hc
          exact ⟨pm, b, htest, hends.tail hstep⟩
        cases hstep with
        | event | targetArrives | terminate => exact hbefore hphase
        | leaveLoop pm b => exact ⟨pm, b, hreach, .refl⟩
        | stop => exact hbefore (Or.inl rfl)
        | enterLoop | takeConfirmation | confirmationsDone | takeTarget | targetsDone | reconcile
        | iterationDone => simp at hphase
  obtain ⟨pm, b, htest, hends⟩ := hleft (Or.inr hphase)
  exact ⟨pm, b, htest, hends, hphase⟩

/-- A step behind the loop is one of another thread, or stops the broker: the position manager
takes nothing from its queue. -/
theorem SimStep.behind (h : SimStep NotSubmit c c')
    (hc : c.phase = .stopping ∨ c.phase = .returned) :
    (c'.phase = .stopping ∨ c'.phase = .returned) ∧
      (c'.shared = c.shared ∨ ∃ e, NotSubmit e ∧ c'.shared = e.apply c.shared) := by
  cases h with
  | event _ e he => exact ⟨hc, Or.inr ⟨e, he, rfl⟩⟩
  | targetArrives | terminate => exact ⟨hc, Or.inl rfl⟩
  | stop => exact ⟨Or.inr rfl, Or.inr ⟨.stop, trivial, rfl⟩⟩
  | enterLoop | takeConfirmation | confirmationsDone | takeTarget | targetsDone | reconcile
  | iterationDone | leaveLoop => simp at hc

/-- **What every step of a thread keeps, the run behind the loop keeps.** -/
theorem SimReaches.behind {I : Shared → Prop} (hI : ∀ e t, NotSubmit e → I t → I (e.apply t))
    (h : SimReaches NotSubmit c c') (hc : c.phase = .stopping) (h₀ : I c.shared) :
    I c'.shared := by
  have hboth : (c'.phase = .stopping ∨ c'.phase = .returned) ∧ I c'.shared := by
    induction h with
    | refl => exact ⟨Or.inl hc, h₀⟩
    | tail _ hstep ih =>
        obtain ⟨hphase, hshared | ⟨e, he, hshared⟩⟩ := hstep.behind ih.1
        · exact ⟨hphase, hshared ▸ ih.2⟩
        · exact ⟨hphase, hshared ▸ hI e _ he ih.2⟩
  exact hboth.2

/-- No order thread and no timer has anything left to do, and the queue is `q`. -/
structure AllDone (q : List TradeConfirmationMessage) (t : Shared) : Prop where
  queue : t.1 = q
  timers : t.2.timers = []
  finished : ∀ o ∈ t.2.orders, o.isFinished = true

/-- Then nothing more is reported. -/
theorem AllDone.apply {q : List TradeConfirmationMessage} (h : AllDone q t) {e : SimEvent}
    (he : NotSubmit e) : AllDone q (e.apply t) := by
  have hwrite : ∀ {b' : SimulatedBroker}, t.2.Keeps b' → AllDone q (t.1, b') :=
    fun hkeeps => ⟨h.queue, hkeeps.timers.trans h.timers, hkeeps.isFinished h.finished⟩
  cases e with
  | thread i draw =>
      change AllDone q (threadStep i draw t)
      unfold threadStep
      cases ho : t.2.orders[i]? with
      | none => exact h
      | some o =>
          have hthread : o.thread = .finished :=
            of_decide_eq_true (h.finished o (List.mem_of_getElem? ho))
          simp only [hthread]
          exact hwrite (keeps_writeMove ho (by simp [hthread]) draw)
  | timer k =>
      change AllDone q (timerStep k t)
      unfold timerStep
      simp [h.timers, h]
  | submitOrder => exact he.elim
  | cancelOrder id =>
      apply Proc.wp.state (x := Simulated.cancelOrder id)
      unfold Simulated.cancelOrder
      rw [Proc.wp_bind, Proc.wp_get]
      cases t.2.liveOrders.lookup id with
      | none => exact h
      | some i => exact hwrite (keeps_cancelAt t.2 i)
  | stop => exact hwrite (keeps_stop t.2)

/-- Where the ids are the same, an order is where one was. -/
theorem exists_order_of_clientIds {b b' : SimulatedBroker} (hids : clientIds b' = clientIds b)
    {i : ℕ} {o : SimulatedOrder} (ho : b.orders[i]? = some o) : ∃ o', b'.orders[i]? = some o' := by
  have hi : (clientIds b')[i]? = some o.clientOrderId := by
    rw [hids, clientIds, List.getElem?_map, ho]
    rfl
  rw [clientIds, List.getElem?_map] at hi
  obtain ⟨o', ho', -⟩ := Option.map_eq_some_iff.mp hi
  exact ⟨o', ho'⟩

/-- **What a shutdown loses.** Once `run` has returned and every order thread has finished, the
positions are the fills of all orders and no confirmation is left in the queue if and only if, when
the test of the loop saw the flag, the queue was empty and every order had been reported. -/
theorem shutdown_accounts_iff {pm : PositionManager} {b : SimulatedBroker} {final : SimConfig}
    (h : Shutdown pm b final) (hthreads : ∀ o ∈ final.broker.orders, o.isFinished = true) :
    ((∀ s, final.pm.positions.getD s 0 = final.broker.filledBy s fun _ => true) ∧
        final.pm.tradeConfirmationsQ = []) ↔
      pm.tradeConfirmationsQ = [] ∧ ∀ o ∈ b.orders, o.isFinished = true := by
  have hleft : SimReaches NotSubmit .init ⟨.stopping, true, pm, b⟩ :=
    h.reached.tail (.leaveLoop pm b)
  have hsound : b.Sound := hleft.accounted_of_notSubmit.sound
  have hfinal : final.Accounted := SimReaches.accounted_of_notSubmit (hleft.trans h.ends)
  constructor
  · rintro ⟨-, hq⟩
    obtain ⟨hids, -, new, hnew, hconfs⟩ := h.ends.behind
      (I := fun t => clientIds t.2 = clientIds b ∧ Advances (pm.tradeConfirmationsQ, b) t)
      (fun e t he ht => ⟨(tends_apply he t).clientIds.trans ht.1,
        ht.2.trans (e.advances (positive_of_notSubmit he) ht.2.1)⟩)
      rfl ⟨rfl, hsound, Grows.refl _⟩
    obtain ⟨hbefore, rfl⟩ := List.append_eq_nil_iff.mp (hnew.symm.trans hq)
    refine ⟨hbefore, fun o ho => ?_⟩
    obtain ⟨i, hi⟩ := List.mem_iff_getElem?.mp ho
    obtain ⟨o', ho'⟩ := exists_order_of_clientIds hids hi
    by_contra hnot
    -- a thread that finishes behind the loop reports then
    obtain ⟨finalStatus, hreports, -⟩ :=
      hfinal.sound.reported ho' (hthreads o' (List.mem_of_getElem? ho'))
    have hsame : final.broker.reportsOf i = b.reportsOf i := by
      have hconfs' : final.broker.confirmations = b.confirmations :=
        hconfs.trans (List.append_nil _)
      unfold SimulatedBroker.reportsOf
      rw [hconfs']
    rw [hsame, hsound.pending hi (by simpa using hnot)] at hreports
    cases hreports
  · rintro ⟨hq, hdone⟩
    have hend := h.ends.behind (I := AllDone pm.tradeConfirmationsQ)
      (fun e t he ht => ht.apply he) rfl ⟨rfl, hleft.unduplicated.timers, hdone⟩
    have hempty : final.pm.tradeConfirmationsQ = [] := hend.queue.trans hq
    refine ⟨fun s => ?_, hempty⟩
    have hbooked := hfinal.booked s
    rw [hempty, filledOf_nil, add_zero, hfinal.sound.fills] at hbooked
    rw [hbooked]
    exact SimulatedBroker.filledBy_of_forall hthreads s

/-- The flag is set once 1 of 20 is filled: the broker is stopped, and the thread of the order
ends. -/
def shutDown : SimConfig :=
  SimConfig.setShared ⟨.returned, true, partlyFilled.pm, partlyFilled.broker.stop⟩
    (applyEvents (List.replicate 5 (.thread 0 0))
      (partlyFilled.pm.tradeConfirmationsQ, partlyFilled.broker.stop))

/-- The run is shut down with 1 of 20 in the position. -/
theorem shutdown_shutDown : Shutdown partlyFilled.pm partlyFilled.broker shutDown where
  reached := (reaches_partlyFilled fun _ _ => trivial).tail (.terminate _)
  ends := by
    have hthread : NotSubmit (.thread 0 0) := trivial
    exact (((((Relation.ReflTransGen.single (.stop _ _ _)).tail (.event _ _ hthread)).tail
      (.event _ _ hthread)).tail (.event _ _ hthread)).tail (.event _ _ hthread)).tail
        (.event _ _ hthread)
  returned := rfl

/-- Every thread has finished there. -/
theorem finished_shutDown : ∀ o ∈ shutDown.broker.orders, o.isFinished = true := by
  decide

/-- A fill is left in the queue, and the position lacks it. -/
theorem shutdown_accounts_iff_shutDown :
    ¬((∀ s, shutDown.pm.positions.getD s 0 = shutDown.broker.filledBy s fun _ => true) ∧
      shutDown.pm.tradeConfirmationsQ = []) := by
  intro haccounts
  have hdone := ((shutdown_accounts_iff shutdown_shutDown finished_shutDown).mp haccounts).2
  revert hdone
  decide

/-- The confirmation of the cancelled order stays in the queue, and its fill is not booked. -/
theorem shutdown_accounts_fails : ¬∀ pm b final, Shutdown pm b final →
    (∀ o ∈ final.broker.orders, o.isFinished = true) →
    (∀ s, final.pm.positions.getD s 0 = final.broker.filledBy s fun _ => true) ∧
      final.pm.tradeConfirmationsQ = [] := by
  intro h
  have hposition := (h _ _ _ shutdown_shutDown finished_shutDown).1 "AMD"
  revert hposition
  decide

end FlowManager.System
