import FlowManager.Broker.LockDiscipline

/-!
# Failed calls of the broker

`submit_order` writes the new order into the three maps before it sends, and `cancel_order` its
status; both undo this when the exchange fails. The undoing restores what was there: a broker id is
new when it is given out, and between calls every stored order is `WORKING` (`AllWorking`), which is
the status that a failed cancel writes. One failure is not undone: `int(price)` is computed between
the write and the exchange, and raises on a price that is infinite or not a number. So a submission
that fails leaves no trace exactly if it has no price or a finite one, and a cancel that fails
never leaves one (`failed_calls_leave_no_trace_iff`).
-/

namespace FlowManager.Broker

open FlowManager.Lib FlowManager.Server

/-! ## Orders between and during calls -/

section stored

variable {ε : Type} {s : CppOrderBookBroker ε} {P : ℤ → Status → Prop}

/-- The broker ids that are stored have been given out, and the statuses are as `P` says. -/
structure CppOrderBookBroker.Stores (P : ℤ → Status → Prop) (s : CppOrderBookBroker ε) :
    Prop where
  client_le : ∀ {b clientOrderId}, s.brokerToClientIdMap.lookup b = some clientOrderId →
    b ≤ s.brokerOrderIdCounter
  details_le : ∀ {b order}, s.brokerIdToOrderDetails.lookup b = some order →
    b ≤ s.brokerOrderIdCounter
  status : ∀ {b order}, s.brokerIdToOrderDetails.lookup b = some order → P b order.status

/-- Between calls every stored order is working. -/
def CppOrderBookBroker.AllWorking (s : CppOrderBookBroker ε) : Prop :=
  s.Stores fun _ status => status = .WORKING

/-- While the reply to an order is worked off, that order may be acknowledged. -/
def CppOrderBookBroker.WorkingExcept (b : ℤ) (s : CppOrderBookBroker ε) : Prop :=
  s.Stores fun b' status => status = .WORKING ∨ b' = b ∧ status = .ACKNOWLEDGED

/-- A new broker has no orders that do not work. -/
theorem allWorking_init (orderBook : ε) : (CppOrderBookBroker.init orderBook).AllWorking where
  client_le h := by cases h
  details_le h := by cases h
  status h := by cases h

namespace CppOrderBookBroker.Stores

/-- No order is stored under the next broker id. -/
theorem next_not_stored (h : s.Stores P) :
    s.brokerToClientIdMap.lookup (s.brokerOrderIdCounter + 1) = none ∧
      s.brokerIdToOrderDetails.lookup (s.brokerOrderIdCounter + 1) = none := by
  constructor
  · by_contra hb
    obtain ⟨_, hb⟩ := Option.ne_none_iff_exists'.mp hb
    have hle := h.client_le hb
    omega
  · by_contra hb
    obtain ⟨_, hb⟩ := Option.ne_none_iff_exists'.mp hb
    have hle := h.details_le hb
    omega

/-- A confirmation leaves what is stored. -/
theorem confirm (h : s.Stores P) (confirmation : TradeConfirmationMessage) :
    (s.confirm confirmation).Stores P := ⟨h.client_le, h.details_le, h.status⟩

/-- Details of an id that has been given out may be stored. -/
theorem setDetails (h : s.Stores P) {b : ℤ} {order : OrderDetails} (hb : b ≤ s.brokerOrderIdCounter)
    (hstatus : P b order.status) : (s.setDetails b order).Stores P where
  client_le := h.client_le
  details_le := by
    intro b' order' hlookup
    rw [setDetails_lookup] at hlookup
    split_ifs at hlookup with heq
    · exact heq ▸ hb
    · exact h.details_le hlookup
  status := by
    intro b' order' hlookup
    rw [setDetails_lookup] at hlookup
    split_ifs at hlookup with heq
    · obtain rfl := Option.some.inj hlookup
      exact heq ▸ hstatus
    · exact h.status hlookup

/-- What is written under a broker id does not matter once its order is forgotten. -/
theorem forget (h : s.Stores P) {s' : CppOrderBookBroker ε} {b : ℤ} (clientOrderId : String)
    (hcounter : s'.brokerOrderIdCounter = s.brokerOrderIdCounter)
    (hclient : s'.brokerToClientIdMap = s.brokerToClientIdMap)
    (hdetails : ∀ b', b' ≠ b →
      s'.brokerIdToOrderDetails.lookup b' = s.brokerIdToOrderDetails.lookup b') :
    (s'.forget clientOrderId b).Stores P := by
  have hbefore : ∀ {b' order}, (s'.forget clientOrderId b).brokerIdToOrderDetails.lookup b' =
      some order → s.brokerIdToOrderDetails.lookup b' = some order := by
    intro b' order hlookup
    rw [forget_details_lookup] at hlookup
    split_ifs at hlookup with hb
    rw [← hdetails b' hb, hlookup]
  refine ⟨fun hlookup => ?_, fun hlookup => ?_, fun hlookup => h.status (hbefore hlookup)⟩
  · rw [forget_client_lookup, hclient] at hlookup
    split_ifs at hlookup
    exact hcounter ▸ h.client_le hlookup
  · exact hcounter ▸ h.details_le (hbefore hlookup)

/-! ## What the loop over the trades keeps -/

/-- A fill leaves a tracked order working, or takes it out. -/
theorem fillTracked (h : s.Stores P) (hworking : ∀ b, P b .WORKING) {fill : FillInfo}
    {order : OrderDetails} (clientOrderId : String)
    (hlookup : s.brokerIdToOrderDetails.lookup fill.orderIdFilled = some order)
    (hstatus : order.status ≠ .FILLED) : (s.fillTracked clientOrderId order fill).Stores P := by
  unfold CppOrderBookBroker.fillTracked
  rcases le_or_gt order.quantity (order.filledQuantity + fill.tradedQuantity) with hdone | hmore
  · rw [afterFill_done hdone]
    exact h.forget clientOrderId rfl rfl fun b' hb => (setDetails_lookup _ b' _).trans (if_neg hb)
  · rw [afterFill_working hmore hstatus]
    exact (h.setDetails (h.details_le hlookup) (hworking _)).confirm _

/-- A fill leaves what is stored working. -/
theorem applyFill (h : s.Stores P) (hworking : ∀ b, P b .WORKING) (hfilled : ∀ b, ¬ P b .FILLED)
    (fill : FillInfo) : (s.applyFill fill).Stores P := by
  unfold CppOrderBookBroker.applyFill
  rcases hclient : s.brokerToClientIdMap.lookup fill.orderIdFilled with _ | clientOrderId
  · exact h
  rcases horder : s.brokerIdToOrderDetails.lookup fill.orderIdFilled with _ | order
  · exact h
  dsimp only
  split_ifs
  · apply h.fillTracked hworking _ horder
    intro heq
    exact hfilled _ (heq ▸ h.status horder)
  · exact h

/-- Fills leave what is stored working. -/
theorem applyFills (h : s.Stores P) (hworking : ∀ b, P b .WORKING) (hfilled : ∀ b, ¬ P b .FILLED)
    (fills : List FillInfo) : (s.applyFills fills).Stores P := by
  induction fills generalizing s with
  | nil => exact h
  | cons fill fills ih => exact ih (h.applyFill hworking hfilled fill)

end CppOrderBookBroker.Stores

/-- Once the final status has been handled, every stored order is working. -/
theorem CppOrderBookBroker.WorkingExcept.markWorking {b : ℤ} (h : s.WorkingExcept b) :
    (s.markWorking b).AllWorking := by
  have hother : (∀ order, s.brokerIdToOrderDetails.lookup b = some order →
      order.status ≠ .ACKNOWLEDGED) → s.AllWorking := fun hnot =>
    { client_le := h.client_le
      details_le := h.details_le
      status := by
        intro b' order hlookup
        rcases h.status hlookup with hworking | ⟨rfl, hack⟩
        · exact hworking
        · exact absurd hack (hnot order hlookup) }
  unfold CppOrderBookBroker.markWorking
  rcases hlookup : s.brokerIdToOrderDetails.lookup b with _ | current
  · exact hother (by simp [hlookup])
  dsimp only
  split_ifs with hack
  · refine ⟨h.client_le, fun hb' => ?_, fun hb' => ?_⟩
    · rw [setDetails_lookup] at hb'
      split_ifs at hb' with heq
      · rw [heq]
        exact h.details_le hlookup
      · exact h.details_le hb'
    · rw [setDetails_lookup] at hb'
      split_ifs at hb' with heq
      · obtain rfl := Option.some.inj hb'
        rfl
      · rcases h.status hb' with hworking | ⟨rfl, -⟩
        · exact hworking
        · exact absurd rfl heq
  · apply hother
    intro order horder
    rw [hlookup, Option.some.injEq] at horder
    exact horder ▸ hack

end stored

/-! ## The calls -/

section calls

variable {s s' : CppOrderBookBroker Unit}

/-- The three maps are as they were. -/
structure SameOrders (s s' : CppOrderBookBroker Unit) : Prop where
  clientToBrokerIdMap : s'.clientToBrokerIdMap = s.clientToBrokerIdMap
  brokerToClientIdMap : s'.brokerToClientIdMap = s.brokerToClientIdMap
  brokerIdToOrderDetails : s'.brokerIdToOrderDetails = s.brokerIdToOrderDetails

section submit

variable (clientOrderId symbol : String) (quantity : ℤ) (sideIsBuy : Bool) (orderTypeStr : String)
  (price : PyFloat)

/-- The state after a submission that the broker has rejected. -/
def CppOrderBookBroker.rejected (s : CppOrderBookBroker Unit) : CppOrderBookBroker Unit :=
  ((s.sentOrder clientOrderId symbol quantity sideIsBuy orderTypeStr price ()).confirm
    (rejection clientOrderId symbol sideIsBuy)).forget clientOrderId (s.brokerOrderIdCounter + 1)

/-- The rejected order is in no map, and the other orders are as they were. -/
theorem rejected_lookup {P : ℤ → Status → Prop} (h : s.Stores P) :
    (∀ c, (s.rejected clientOrderId symbol quantity sideIsBuy orderTypeStr
        price).clientToBrokerIdMap.lookup c =
      if c = clientOrderId then none else s.clientToBrokerIdMap.lookup c) ∧
    (s.rejected clientOrderId symbol quantity sideIsBuy orderTypeStr price).brokerToClientIdMap =
      s.brokerToClientIdMap ∧
    (s.rejected clientOrderId symbol quantity sideIsBuy orderTypeStr price).brokerIdToOrderDetails =
      s.brokerIdToOrderDetails := by
  obtain ⟨hclient, hdetails⟩ := h.next_not_stored
  refine ⟨fun c => ?_, Finmap.ext_lookup fun b => ?_, Finmap.ext_lookup fun b => ?_⟩
  · show ((s.clientToBrokerIdMap.insert clientOrderId (s.brokerOrderIdCounter + 1)).erase
      clientOrderId).lookup c = _
    rw [Dict.lookup_erase_ite, Dict.lookup_insert_ite]
    split_ifs <;> rfl
  · show ((s.brokerToClientIdMap.insert (s.brokerOrderIdCounter + 1) clientOrderId).erase
      (s.brokerOrderIdCounter + 1)).lookup b = _
    rw [Dict.lookup_erase_ite, Dict.lookup_insert_ite]
    split_ifs with hb
    · rw [hb, hclient]
    · rfl
  · show ((s.brokerIdToOrderDetails.insert (s.brokerOrderIdCounter + 1) _).erase
      (s.brokerOrderIdCounter + 1)).lookup b = _
    rw [Dict.lookup_erase_ite, Dict.lookup_insert_ite]
    split_ifs with hb
    · rw [hb, hdetails]
    · rfl

/-- With a client id that is not in use, rejecting undoes all. -/
theorem sameOrders_rejected {P : ℤ → Status → Prop} (h : s.Stores P)
    (hfresh : s.clientToBrokerIdMap.lookup clientOrderId = none) :
    SameOrders s (s.rejected clientOrderId symbol quantity sideIsBuy orderTypeStr price) := by
  obtain ⟨hclient, hbroker, hdetails⟩ :=
    rejected_lookup clientOrderId symbol quantity sideIsBuy orderTypeStr price h
  refine ⟨Finmap.ext_lookup fun c => ?_, hbroker, hdetails⟩
  rw [hclient]
  split_ifs with hc
  · rw [hc, hfresh]
  · rfl

/-- A rejected order leaves only working orders. -/
theorem allWorking_rejected (h : s.AllWorking) :
    (s.rejected clientOrderId symbol quantity sideIsBuy orderTypeStr price).AllWorking := by
  obtain ⟨-, hbroker, hdetails⟩ :=
    rejected_lookup clientOrderId symbol quantity sideIsBuy orderTypeStr price h
  refine ⟨fun hb => ?_, fun hb => ?_, fun hb => ?_⟩
  · rw [hbroker] at hb
    exact (h.client_le hb).trans (Int.le_add_one le_rfl)
  · rw [hdetails] at hb
    exact (h.details_le hb).trans (Int.le_add_one le_rfl)
  · rw [hdetails] at hb
    exact h.status hb

/-- While the reply is worked off, the new order is acknowledged. -/
theorem workingExcept_acknowledged (h : s.AllWorking) :
    (s.acknowledged clientOrderId symbol quantity sideIsBuy orderTypeStr price ()).WorkingExcept
      (s.brokerOrderIdCounter + 1) := by
  have hnext : ∀ {b : ℤ}, b ≤ s.brokerOrderIdCounter → b ≤ s.brokerOrderIdCounter + 1 :=
    fun hb => hb.trans (Int.le_add_one le_rfl)
  have hlookup : ∀ {b order}, (s.acknowledged clientOrderId symbol quantity sideIsBuy orderTypeStr
      price ()).brokerIdToOrderDetails.lookup b = some order →
      b = s.brokerOrderIdCounter + 1 ∧ order.status = .ACKNOWLEDGED ∨
        s.brokerIdToOrderDetails.lookup b = some order := by
    intro b order hb
    rw [CppOrderBookBroker.acknowledged, setDetails_lookup] at hb
    split_ifs at hb with heq
    · obtain rfl := Option.some.inj hb
      exact .inl ⟨heq, rfl⟩
    · have hstored : (s.brokerIdToOrderDetails.insert (s.brokerOrderIdCounter + 1) _).lookup b =
        some order := hb
      rw [Dict.lookup_insert_ite, if_neg heq] at hstored
      exact .inr hstored
  refine ⟨fun {b _} hb => ?_, fun hb => ?_, fun hb => ?_⟩
  · have hstored : (s.brokerToClientIdMap.insert (s.brokerOrderIdCounter + 1) clientOrderId).lookup
      b = some _ := hb
    rw [Dict.lookup_insert_ite] at hstored
    split_ifs at hstored with heq
    · exact le_of_eq heq
    · exact hnext (h.client_le hstored)
  · rcases hlookup hb with ⟨heq, -⟩ | hb
    · exact le_of_eq heq
    · exact hnext (h.details_le hb)
  · rcases hlookup hb with hack | hb
    · exact .inr hack
    · exact .inl (h.status hb)

/-- The final status is handled once the loop over the trades is done: the call returns the broker
id and leaves working orders only, or never returns. -/
theorem handleFinalStatus_cases {b : ℤ} (h : s.WorkingExcept b) (hfree : s.lockHeld = false)
    (finalStatus : Option BookStatus) :
    (∃ s', (handleFinalStatus clientOrderId symbol sideIsBuy price b finalStatus).run s =
        .returned () s' ∧ s'.AllWorking) ∨
      ∃ s', (handleFinalStatus clientOrderId symbol sideIsBuy price b finalStatus).run s =
        .stuck s' := by
  rcases htracked : s.brokerIdToOrderDetails.lookup b with _ | current
  · left
    refine ⟨s, run_handleFinalStatus_of_not_tracked _ _ _ _ hfree htracked, ?_⟩
    have hsame : s.markWorking b = s := by simp [CppOrderBookBroker.markWorking, htracked]
    rw [← hsame]
    exact h.markWorking
  · by_cases hfinal : finishes finalStatus = true
    · right
      refine handleFinalStatus_stuck _ _ _ _ hfree htracked ?_ hfinal
      intro heq
      rcases h.status htracked with hworking | ⟨-, hack⟩
      · exact absurd (heq.symm.trans hworking) (by decide)
      · exact absurd (heq.symm.trans hack) (by decide)
    · left
      exact ⟨_, run_handleFinalStatus_of_working _ _ _ _ hfree (by simpa using hfinal),
        h.markWorking⟩

/-- **How a submission ends.** Without a price it is rejected; with one that does not convert it
raises and leaves the order registered; otherwise it is rejected and undone, or accepted and worked
off, or never returns. -/
theorem submitOrder_cases (h : s.AllWorking) (hfree : s.lockHeld = false) (price : Option PyFloat)
    (response : Option Reply) {o : Outcome PyError (CppOrderBookBroker Unit) (Option ℤ)}
    (ho : (submitOrder (answering response) clientOrderId symbol quantity sideIsBuy orderTypeStr
      price).run s = o) :
    (price = none ∧ o = .returned none (s.confirm (rejection clientOrderId symbol sideIsBuy))) ∨
      (∃ p e, price = some p ∧ pyInt p = .error e ∧
        o = .raised e (s.registerOrder clientOrderId symbol quantity sideIsBuy orderTypeStr p)) ∨
      ∃ p i, price = some p ∧ pyInt p = .ok i ∧
        (o = .returned none (s.rejected clientOrderId symbol quantity sideIsBuy orderTypeStr p) ∨
          (∃ b s', o = .returned (some b) s' ∧ s'.AllWorking) ∨ ∃ s', o = .stuck s') := by
  subst ho
  rcases price with _ | price
  · exact .inl ⟨rfl, run_submitOrder_of_no_price ..⟩
  right
  rcases hprice : pyInt price with e | i
  · exact .inl ⟨price, e, rfl, hprice, run_submitOrder_of_raise _ _ _ _ _ _ hfree hprice⟩
  right
  refine ⟨price, i, rfl, hprice, ?_⟩
  rw [run_submitOrder clientOrderId symbol quantity sideIsBuy orderTypeStr price hfree hprice
    (show answering response _ _ = (response, ()) from rfl)]
  rcases response with _ | reply
  · exact .inl rfl
  dsimp only
  by_cases hok : reply.status = some .OK
  · right
    have hexcept := (workingExcept_acknowledged clientOrderId symbol quantity sideIsBuy orderTypeStr
      price h).applyFills (fun _ => .inl rfl) (by simp) (reply.trades.getD [])
    rcases handleFinalStatus_cases clientOrderId symbol sideIsBuy price hexcept
      ((applyFills_lockHeld _).trans hfree) reply.orderFinalStatusInBook with
      ⟨s', hrun, hs'⟩ | ⟨s', hrun⟩
    · left
      exact ⟨_, s', by rw [if_pos hok, hrun]; rfl, hs'⟩
    · right
      exact ⟨s', by rw [if_pos hok, hrun]; rfl⟩
  · left
    rw [if_neg hok]
    rfl

end submit

section cancel

variable {clientOrderId : String} {b : ℤ} {order : OrderDetails}

/-- Writing back the status that the order had. -/
theorem setDetails_setDetails_working {order' : OrderDetails}
    (hlookup : s.brokerIdToOrderDetails.lookup b = some order)
    (hstatus : order.status = .WORKING) :
    ((s.sentCancel b order' ()).setDetails b { order with status := .WORKING }) = s := by
  have hsame : { order with status := .WORKING } = order := by rw [← hstatus]
  have hmap : (s.sentCancel b order' ()).brokerIdToOrderDetails.insert b order =
      s.brokerIdToOrderDetails := by
    apply Finmap.ext_lookup
    intro b'
    show ((s.brokerIdToOrderDetails.insert b _).insert b order).lookup b' = _
    rw [Dict.lookup_insert_ite, Dict.lookup_insert_ite]
    split_ifs with hb
    · rw [hb, hlookup]
    · rfl
  rw [hsame]
  show ({ s with brokerIdToOrderDetails := _, orderBook := () } : CppOrderBookBroker Unit) = s
  rw [hmap]

/-- **A cancel that returns false leaves the broker as it was**: the status that it writes back is
the one that the order had. One that returns true forgets the order. -/
theorem cancelOrder_returned (h : s.AllWorking) (hfree : s.lockHeld = false) (clientOrderId : String)
    (response : Option Reply) {accepted : Bool}
    (hrun : (cancelOrder (answering response) clientOrderId).run s = .returned accepted s') :
    s'.AllWorking ∧ (accepted = false → s' = s) := by
  rcases htracked : s.tracked clientOrderId with _ | ⟨b, order⟩
  · rw [run_cancelOrder_of_not_tracked clientOrderId hfree htracked, Outcome.returned.injEq] at hrun
    obtain ⟨-, rfl⟩ := hrun
    exact ⟨h, fun _ => rfl⟩
  have hlookup := (tracked_eq_some htracked).2
  by_cases hdone : order.status.isDone = true
  · rw [run_cancelOrder_of_done clientOrderId hfree htracked hdone, Outcome.returned.injEq] at hrun
    obtain ⟨-, rfl⟩ := hrun
    exact ⟨h, fun _ => rfl⟩
  · rw [run_cancelOrder clientOrderId hfree htracked (by simpa using hdone)
      (show answering response _ _ = (response, ()) from rfl)] at hrun
    split_ifs at hrun
    · obtain ⟨rfl, rfl⟩ := Outcome.returned.inj hrun
      refine ⟨?_, fun hfalse => by cases hfalse⟩
      refine h.forget clientOrderId rfl rfl fun b' hb => ?_
      show ((s.brokerIdToOrderDetails.insert b _).insert b _).lookup b' = _
      rw [Dict.lookup_insert_ite, Dict.lookup_insert_ite, if_neg hb, if_neg hb]
    · obtain ⟨rfl, rfl⟩ := Outcome.returned.inj hrun
      rw [setDetails_setDetails_working hlookup (h.status hlookup)]
      exact ⟨h, fun _ => rfl⟩

end cancel

/-! ## Runs of calls that return -/

/-- The states of the broker after calls that have returned, whatever the replies to them, and
whether or not they have come in. -/
inductive ReachableByReturns : CppOrderBookBroker Unit → Prop
  | init : ReachableByReturns (.init ())
  | call {s s' : CppOrderBookBroker Unit} {result : CallResult} (call : BrokerCall)
      (response : Option Reply) :
      ReachableByReturns s → (call.run (answering response)).run s = .returned result s' →
      ReachableByReturns s'

/-- What calls that return reach, calls reach. -/
theorem ReachableByReturns.reachable (h : ReachableByReturns s) : Reachable s := by
  induction h with
  | init => exact .init
  | call call response _ hrun ih => exact .call call response ih (.inl ⟨_, hrun⟩)

/-- **After calls that have returned, every stored order is working.** -/
theorem ReachableByReturns.allWorking (h : ReachableByReturns s) : s.AllWorking := by
  induction h with
  | init => exact allWorking_init ()
  | @call s s' result call response hs hrun ih =>
      have hfree := hs.reachable.lockHeld
      rcases call with ⟨clientOrderId, symbol, quantity, sideIsBuy, orderTypeStr, price⟩ | clientOrderId
      · rw [BrokerCall.run, Proc.run_bind, Outcome.bind_eq_returned] at hrun
        obtain ⟨r, s'', hsubmit, hpure⟩ := hrun
        rw [Proc.run_pure, Outcome.returned.injEq] at hpure
        obtain ⟨-, rfl⟩ := hpure
        rcases submitOrder_cases clientOrderId symbol quantity sideIsBuy orderTypeStr ih hfree price
          response hsubmit with ⟨-, ho⟩ | ⟨_, _, -, -, ho⟩ | ⟨p, _, -, -, ho | ⟨_, _, ho, hs'⟩ | ⟨_, ho⟩⟩
        · obtain ⟨-, rfl⟩ := Outcome.returned.inj ho
          exact ih.confirm _
        · cases ho
        · obtain ⟨-, rfl⟩ := Outcome.returned.inj ho
          exact allWorking_rejected clientOrderId symbol quantity sideIsBuy orderTypeStr p ih
        · obtain ⟨-, rfl⟩ := Outcome.returned.inj ho
          exact hs'
        · cases ho
      · rw [BrokerCall.run, Proc.run_bind, Outcome.bind_eq_returned] at hrun
        obtain ⟨accepted, s'', hcancel, hpure⟩ := hrun
        rw [Proc.run_pure, Outcome.returned.injEq] at hpure
        obtain ⟨-, rfl⟩ := hpure
        exact (cancelOrder_returned ih hfree clientOrderId response hcancel).1

/-! ## The result -/

/-- The submission does not return a broker id: it returns `None` or raises. -/
def FailsToSubmit (o : Outcome PyError (CppOrderBookBroker Unit) (Option ℤ)) : Prop :=
  (∃ s', o = .returned none s') ∨ ∃ e s', o = .raised e s'

/-- The failed submission leaves the maps as they were and, if it returns, has dispatched one
confirmation, a rejection of the order. -/
def LeavesNoTrace (s : CppOrderBookBroker Unit) (clientOrderId : String) :
    Outcome PyError (CppOrderBookBroker Unit) (Option ℤ) → Prop
  | .returned _ s' => SameOrders s s' ∧ ∃ conf, s'.confirmations = s.confirmations ++ [conf] ∧
      conf.clientOrderId = clientOrderId ∧ conf.status = .REJECTED ∧ conf.filledQuantity = 0
  | .raised _ s' => SameOrders s s'
  | .stuck _ => True

/-- There is no price, or it is a finite one. -/
def NoneOrFinite : Option PyFloat → Prop
  | none => True
  | some (.finite _) => True
  | some (.infinite _) => False
  | some .nan => False

/-- A price may be sent exactly if `int` takes it. -/
theorem noneOrFinite_some_iff {p : PyFloat} : NoneOrFinite (some p) ↔ ∃ i, pyInt p = .ok i := by
  rcases p with value | _ | _
  · exact iff_of_true trivial ⟨_, rfl⟩
  · exact iff_of_false id fun ⟨_, h⟩ => by cases h
  · exact iff_of_false id fun ⟨_, h⟩ => by cases h

/-- **Failed calls leave no trace, unless a price is not finite.** After calls that have returned, a
submission under a client id that is not in use, with any price and any reply or none, that does not
return a broker id leaves the maps as they were, and if it returns has dispatched one rejection,
exactly if it has no price or a finite one; a cancel that returns false leaves the maps, the
details and the confirmations. -/
theorem failed_calls_leave_no_trace_iff (h : ReachableByReturns s) :
    (∀ (clientOrderId symbol : String) (quantity : ℤ) (sideIsBuy : Bool) (orderTypeStr : String)
        (price : Option PyFloat) (response : Option Reply),
      s.clientToBrokerIdMap.lookup clientOrderId = none →
      FailsToSubmit ((submitOrder (answering response) clientOrderId symbol quantity sideIsBuy
        orderTypeStr price).run s) →
      (LeavesNoTrace s clientOrderId ((submitOrder (answering response) clientOrderId symbol quantity
        sideIsBuy orderTypeStr price).run s) ↔ NoneOrFinite price)) ∧
    ∀ (clientOrderId : String) (response : Option Reply) (s' : CppOrderBookBroker Unit),
      (cancelOrder (answering response) clientOrderId).run s = .returned false s' →
      SameOrders s s' ∧ s'.confirmations = s.confirmations := by
  have hfree := h.reachable.lockHeld
  constructor
  · intro clientOrderId symbol quantity sideIsBuy orderTypeStr price response hfresh hfails
    rcases submitOrder_cases clientOrderId symbol quantity sideIsBuy orderTypeStr h.allWorking hfree
      price response rfl with ⟨rfl, ho⟩ | ⟨p, e, rfl, hprice, ho⟩ |
        ⟨p, i, rfl, hprice, ho | ⟨_, _, ho, -⟩ | ⟨_, ho⟩⟩
    · rw [ho]
      exact iff_of_true ⟨⟨rfl, rfl, rfl⟩, _, rfl, rfl, rfl, rfl⟩ trivial
    · rw [ho]
      refine iff_of_false (fun hsame => ?_) fun hfinite => ?_
      · have hregistered : (s.clientToBrokerIdMap.insert clientOrderId
            (s.brokerOrderIdCounter + 1)).lookup clientOrderId = none := by
          rw [← hfresh]
          exact congrArg (·.lookup clientOrderId) hsame.clientToBrokerIdMap
        rw [Finmap.lookup_insert] at hregistered
        cases hregistered
      · obtain ⟨i, hi⟩ := noneOrFinite_some_iff.mp hfinite
        rw [hprice] at hi
        cases hi
    · rw [ho]
      refine iff_of_true ⟨?_, _, rfl, rfl, rfl, rfl⟩ (noneOrFinite_some_iff.mpr ⟨i, hprice⟩)
      exact sameOrders_rejected clientOrderId symbol quantity sideIsBuy orderTypeStr p h.allWorking hfresh
    · rw [ho] at hfails
      rcases hfails with ⟨_, hfails⟩ | ⟨_, _, hfails⟩ <;> cases hfails
    · rw [ho] at hfails
      rcases hfails with ⟨_, hfails⟩ | ⟨_, _, hfails⟩ <;> cases hfails
  · intro clientOrderId response s' hrun
    obtain ⟨-, hsame⟩ := cancelOrder_returned h.allWorking hfree clientOrderId response hrun
    rw [hsame rfl]
    exact ⟨⟨rfl, rfl, rfl⟩, rfl⟩

/-- The server does not answer. -/
theorem failed_calls_leave_no_trace_iff_lost :
    LeavesNoTrace (.init ()) "a" ((submitOrder (answering none) "a" "AMD" 5 true "GTC"
      (some (.finite 100))).run (.init ())) :=
  ((failed_calls_leave_no_trace_iff .init).1 "a" "AMD" 5 true "GTC" (some (.finite 100)) none rfl
    (.inl ⟨_, rfl⟩)).mpr trivial

/-- **A price that is infinite leaves the order in the maps.** -/
theorem failed_calls_leave_a_trace :
    ¬ ∀ (s : CppOrderBookBroker Unit), ReachableByReturns s →
      ∀ (clientOrderId symbol : String) (quantity : ℤ) (sideIsBuy : Bool) (orderTypeStr : String)
        (price : Option PyFloat) (response : Option Reply),
      s.clientToBrokerIdMap.lookup clientOrderId = none →
      FailsToSubmit ((submitOrder (answering response) clientOrderId symbol quantity sideIsBuy
        orderTypeStr price).run s) →
      LeavesNoTrace s clientOrderId ((submitOrder (answering response) clientOrderId symbol quantity
        sideIsBuy orderTypeStr price).run s) := by
  intro h
  have hsame : SameOrders (.init ()) _ := h (.init ()) .init "a" "AMD" 5 true "GTC"
    (some (.infinite true)) none rfl (.inr ⟨_, _, rfl⟩)
  have hregistered : (none : Option ℤ) = some 1 :=
    congrArg (·.lookup "a") hsame.clientToBrokerIdMap.symm
  cases hregistered

end calls

end FlowManager.Broker
