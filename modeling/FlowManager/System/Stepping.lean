import FlowManager.System.Submitting

/-!
# Every call keeps broker and book in step

The other steps of a run (an order that is given up, a cancel) and the run itself.
`Synced.step` is one call, for any delivery of replies under which a lost order leaves no trace;
`Run.synced` and `Run.mirrored` are the runs.
-/

namespace FlowManager.System

open FlowManager.Lib FlowManager.Book FlowManager.Broker FlowManager.Server

section steps

variable {subs : List Submission} {s s' : BrokerAndServer} {server : ServerState} {σ : Submission}
  {price : PyFloat} {n : ℤ} {ts : Trades} {store' : Store}

/-! ## Orders that are given up -/

/-- A submission without a price is rejected and not sent. -/
theorem Synced.unpriced (h : Synced subs s server)
    (hadm : σ.Admissible subs (s.brokerOrderIdCounter + 1)) :
    Synced (subs ++ [σ]) (s.confirm (rejection σ.clientOrderId σ.symbol σ.sideIsBuy)) server where
  connected := h.connected
  free := h.free
  counter := h.counter
  consistent := h.consistent
  allOpen := h.allOpen
  issued := h.issued
  tracked := by
    intro id o ho
    obtain ⟨clientOrderId, order, htracks, hagrees⟩ := h.tracked id o ho
    exact ⟨clientOrderId, order, ⟨htracks.client, htracks.details⟩, hagrees⟩
  accounts := by
    have hsame : bookAlso (bookedIds server) σ.clientOrderId [] = bookedIds server := by
      funext clientOrderId
      simp [bookAlso]
    rw [← hsame]
    exact h.accounts.reject hadm.fresh [] (by simp)

/-- The state in which an order has been given up: it has been registered and forgotten. -/
def gaveUp (s : BrokerAndServer) (σ : Submission) (price : PyFloat) (server' : ServerState) :
    BrokerAndServer :=
  ((s.sentOrder σ.clientOrderId σ.symbol σ.quantity σ.sideIsBuy σ.orderTypeStr price
    (some server')).confirm (rejection σ.clientOrderId σ.symbol σ.sideIsBuy)).forget σ.clientOrderId
      (s.brokerOrderIdCounter + 1)

section gaveUp

variable {server' : ServerState}

/-- Forgetting a new order leaves the maps as they were. -/
theorem gaveUp_lookups (price : PyFloat) (server' : ServerState) (h : s.Indexed)
    (hclient : ∀ b, s.brokerToClientIdMap.lookup b ≠ some σ.clientOrderId)
    (hb : s.brokerToClientIdMap.lookup (s.brokerOrderIdCounter + 1) = none) :
    (∀ clientOrderId, (gaveUp s σ price server').clientToBrokerIdMap.lookup clientOrderId =
        s.clientToBrokerIdMap.lookup clientOrderId) ∧
      (∀ b, (gaveUp s σ price server').brokerToClientIdMap.lookup b =
        s.brokerToClientIdMap.lookup b) ∧
      ∀ b, (gaveUp s σ price server').brokerIdToOrderDetails.lookup b =
        s.brokerIdToOrderDetails.lookup b := by
  refine ⟨Dict.lookup_erase_insert (h.client_eq_none_iff.mpr hclient) _,
    Dict.lookup_erase_insert hb _, Dict.lookup_erase_insert ?_ _⟩
  have hdetailed := h.detailed (s.brokerOrderIdCounter + 1)
  rw [hb] at hdetailed
  exact Option.not_isSome_iff_eq_none.mp fun hsome => by simpa using hdetailed.mp hsome

/-- **The step of a submission whose reply is lost**, if the book keeps no trace of the order. -/
theorem Synced.rejected (h : Synced subs s server)
    (hadm : σ.Admissible subs (s.brokerOrderIdCounter + 1)) {o : Order}
    (ho : o = σ.order (s.brokerOrderIdCounter + 1) n) {p : OrderPointer}
    (hcall : CallStep server.store (.addOrder o) (.added ts (some p)) store')
    (hserver' : server' = booking server store' σ.clientOrderId o ts)
    (htrace : LeavesNoTrace server.store o) :
    Synced (subs ++ [σ]) (gaveUp s σ price server') server' := by
  have hid := order_id h.inService.toConnected hadm.carried n
  rw [← ho] at hid
  obtain ⟨-, htaken⟩ := hcall.taken h.consistent h.allOpen
  obtain ⟨hopen, hsame, hzero⟩ := hcall.traceless h.consistent h.allOpen htrace
  obtain ⟨hids, hclient, hdetails⟩ := gaveUp_lookups price server' h.accounts.indexed
    (h.accounts.untracked_of_unknown hadm.fresh) (h.next_untracked hid)
  have hstore : server'.store = store' := by rw [hserver']; rfl
  refine ⟨rfl, h.free, ?_, ?_, ?_, ?_, ?_, ?_⟩
  · have hcounter := h.counter
    show 0 ≤ s.brokerOrderIdCounter + 1
    omega
  · rw [hstore]
    exact htaken.invariant
  · rw [hstore]
    exact hopen
  · rw [hserver']
    apply h.issued.append hid
    intro t ht id hname
    exact (htaken.named t ht id hname).imp_right h.booked_of_resting
  · intro id o' ho'
    rw [hstore, hsame] at ho'
    obtain ⟨clientOrderId, order, htracks, hagrees⟩ := h.tracked id o' ho'
    exact ⟨clientOrderId, order, ⟨(hclient _).trans htracks.client,
      (hdetails _).trans htracks.details⟩, hagrees⟩
  · have hreject := h.accounts.reject hadm.fresh [o.orderId] (by
      intro id hid'
      rw [List.mem_singleton.mp hid']
      exact h.inService.next_not_traded hid)
    rw [hserver', bookedIds_booking, tapeOf_booking]
    rw [← hserver']
    exact (hreject.silent hzero).frame hids hclient hdetails rfl

end gaveUp

/-! ## Cancels -/

section cancelling

variable {b : ℤ} {clientOrderId : String} {order : OrderDetails} {server' : ServerState}

/-- What `cancel_order` looks up is tracked. -/
theorem tracks_of_tracked (h : s.Keyed) (htracked : s.tracked clientOrderId = some (b, order)) :
    s.Tracks b clientOrderId order := by
  obtain ⟨hclient, hdetails⟩ := tracked_eq_some htracked
  exact ⟨h.owned hclient, hdetails⟩

/-- The state after a cancel that the server has confirmed. -/
def cancelledState (s : BrokerAndServer) (clientOrderId : String) (b : ℤ) (order : OrderDetails)
    (server' : ServerState) : BrokerAndServer :=
  (((s.sentCancel b order (some server')).setDetails b { order with status := .CANCELLED }).confirm
    (cancellation clientOrderId b order)).forget clientOrderId b

/-- The state after a cancel that the server has not confirmed. -/
def restoredState (s : BrokerAndServer) (b : ℤ) (order : OrderDetails) (server' : ServerState) :
    BrokerAndServer :=
  (s.sentCancel b order (some server')).setDetails b { order with status := .WORKING }

/-- The details once an order has been cancelled. -/
theorem cancelledState_details (b' : ℤ) :
    (cancelledState s clientOrderId b order server').brokerIdToOrderDetails.lookup b' =
      if b' = b then none else s.brokerIdToOrderDetails.lookup b' := by
  refine (forget_details_lookup _ _ _).trans ?_
  split_ifs with hb
  · rfl
  · refine (setDetails_lookup _ _ _).trans ((if_neg hb).trans ?_)
    exact (setDetails_lookup _ _ _).trans (if_neg hb)

/-- The details once a refused cancel has been undone. -/
theorem restoredState_details (b' : ℤ) :
    (restoredState s b order server').brokerIdToOrderDetails.lookup b' =
      if b' = b then some { order with status := .WORKING }
      else s.brokerIdToOrderDetails.lookup b' := by
  refine (setDetails_lookup _ _ _).trans ?_
  split_ifs with hb
  · rfl
  · exact (setDetails_lookup _ _ _).trans (if_neg hb)

/-- **The step of a confirmed cancel.** -/
theorem Synced.cancelled (h : Synced subs s server) (htracks : s.Tracks b clientOrderId order)
    {node : Node} (hnode : node ∈ server.store.nodes)
    (hb : ((server.store.idAt node).toNat : ℤ) = b) (hremoved : Removed server.store node store') :
    Synced subs (cancelledState s clientOrderId b order { server with store := store' })
        { server with store := store' } ∧
      (Mirrored s server →
        Mirrored (cancelledState s clientOrderId b order { server with store := store' })
          { server with store := store' }) := by
  have hresting := hremoved.resting? h.consistent hnode
  have hclient : ∀ b', (cancelledState s clientOrderId b order
      { server with store := store' }).brokerToClientIdMap.lookup b' =
        if b' = b then none else s.brokerToClientIdMap.lookup b' :=
    fun b' => Dict.lookup_erase_ite _ _ _
  constructor
  · refine ⟨rfl, h.free, h.counter, hremoved.invariant h.consistent hnode,
      hremoved.allOpen h.consistent h.allOpen, ⟨h.issued.le, h.issued.distinct, h.issued.named⟩,
      ?_, ?_⟩
    · intro id o ho
      rw [hresting] at ho
      split_ifs at ho with hid
      obtain ⟨clientOrderId', order', htracks', hagrees⟩ := h.tracked id o ho
      have hne : (id.toNat : ℤ) ≠ b := by
        rw [← hb]
        intro heq
        exact hid (UInt64.toNat_inj.mp (by exact_mod_cast heq))
      refine ⟨clientOrderId', order', ⟨?_, ?_⟩, hagrees⟩
      · rw [hclient, if_neg hne]
        exact htracks'.client
      · rw [cancelledState_details, if_neg hne]
        exact htracks'.details
    · refine (h.accounts.cancel htracks).frame (fun _ => rfl) (fun _ => rfl) ?_ rfl
      intro b'
      rw [cancelledState_details]
      exact (forget_details_lookup clientOrderId b b').symm
  · intro hmirrored b' clientOrderId' hb'
    rw [hclient] at hb'
    split_ifs at hb' with hne
    obtain ⟨id, rfl, hrests⟩ := hmirrored b' clientOrderId' hb'
    refine ⟨id, rfl, ?_⟩
    show store'.resting? id ≠ none
    rw [hresting, if_neg]
    · exact hrests
    · rintro rfl
      exact hne hb

/-- **The step of a cancel that fails, or whose reply is lost**: what the book has lost, if
anything, the broker does not learn. -/
theorem Synced.restored (h : Synced subs s server) (htracks : s.Tracks b clientOrderId order)
    (hconsistent : Invariant store') (hopen : AllOpen store')
    (hsub : ∀ id o, store'.resting? id = some o → server.store.resting? id = some o) :
    Synced subs (restoredState s b order { server with store := store' })
      { server with store := store' } := by
  refine ⟨rfl, h.free, h.counter, hconsistent, hopen,
    ⟨h.issued.le, h.issued.distinct, h.issued.named⟩, ?_, ?_⟩
  · intro id o ho
    obtain ⟨clientOrderId', order', htracks', hagrees⟩ := h.tracked id o (hsub id o ho)
    by_cases hid : (id.toNat : ℤ) = b
    · rw [hid] at htracks' ⊢
      obtain rfl := Option.some.inj (htracks.details.symm.trans htracks'.details)
      exact ⟨clientOrderId', _, ⟨htracks'.client, (restoredState_details b).trans (if_pos rfl)⟩,
        hagrees.setStatus .WORKING⟩
    · exact ⟨clientOrderId', order', ⟨htracks'.client,
        ((restoredState_details _).trans (if_neg hid)).trans htracks'.details⟩, hagrees⟩
  · refine (h.accounts.setStatus htracks (show Status.isDone .WORKING = false by decide)).frame
      (fun _ => rfl) (fun _ => rfl) ?_ rfl
    intro b'
    rw [restoredState_details]
    exact (setDetails_lookup _ _ _).symm

end cancelling

/-! ## A call -/

/-- The reply to the order is not lost, or the book keeps no trace of the order. -/
def LossLeavesNoTrace (s : BrokerAndServer) (e : Event) : Prop :=
  e.delivery = .lost → ∀ σ price n server, submission? e.call = some σ → σ.price = some price →
    pyInt price = .ok n → s.orderBook = some server →
      LeavesNoTrace server.store (σ.order (s.brokerOrderIdCounter + 1) n)

/-- A submission whose reply is lost: the book has had the order, and the broker gives it up. -/
theorem InService.run_submit_lost (h : InService s server) (L : Libraries)
    (hcarried : σ.Carried (s.brokerOrderIdCounter + 1)) (hprice : σ.price = some price)
    (hn : pyInt price = .ok n) :
    ∃ ts store', CallStep server.store (.addOrder (σ.order (s.brokerOrderIdCounter + 1) n))
        (.added ts (some server.store.nextOrder)) store' ∧
      (submitOrder (transport L .lost) σ.clientOrderId σ.symbol σ.quantity σ.sideIsBuy
        σ.orderTypeStr σ.price).run s = .returned none (gaveUp s σ price
          (booking server store' σ.clientOrderId (σ.order (s.brokerOrderIdCounter + 1) n) ts)) := by
  obtain ⟨ts, store', hcall, hserve⟩ := h.exists_taken L hcarried hprice hn
  have hsend := transport_lost hserve
  rw [← h.connected] at hsend
  refine ⟨ts, store', hcall, ?_⟩
  rw [hprice, run_submitOrder _ _ _ _ _ _ h.free hn hsend]
  rfl

/-- A submission whose reply arrives: the broker has replayed the trades and turns to the final
status of the order. -/
theorem InService.run_submit_delivered (h : InService s server) (L : Libraries)
    (hcarried : σ.Carried (s.brokerOrderIdCounter + 1)) (hprice : σ.price = some price)
    (hn : pyInt price = .ok n) :
    ∃ ts store', CallStep server.store (.addOrder (σ.order (s.brokerOrderIdCounter + 1) n))
        (.added ts (some server.store.nextOrder)) store' ∧
      (submitOrder (transport L .delivered) σ.clientOrderId σ.symbol σ.quantity σ.sideIsBuy
        σ.orderTypeStr σ.price).run s =
        ((handleFinalStatus σ.clientOrderId σ.symbol σ.sideIsBuy price (s.brokerOrderIdCounter + 1)
          (some (finalStatusInBook (some (store'.heap server.store.nextOrder))))).run
            ((acknowledgedFor s σ price (booking server store' σ.clientOrderId
              (σ.order (s.brokerOrderIdCounter + 1) n) ts)).applyFills (fillInfos ts))).bind
          fun _ s' => .returned (some (s.brokerOrderIdCounter + 1)) s' := by
  obtain ⟨ts, store', hcall, hserve⟩ := h.exists_taken L hcarried hprice hn
  have hsend := transport_delivered hserve
  rw [← h.connected] at hsend
  refine ⟨ts, store', hcall, ?_⟩
  rw [hprice, run_submitOrder _ _ _ _ _ _ h.free hn hsend]
  rfl

/-- Where a submission returns whose reply is lost, the broker has given the order up. -/
theorem InService.submit_lost (h : InService s server) {L : Libraries}
    (hcarried : σ.Carried (s.brokerOrderIdCounter + 1)) (hprice : σ.price = some price)
    (hn : pyInt price = .ok n) {result : Option ℤ}
    (hrun : (submitOrder (transport L .lost) σ.clientOrderId σ.symbol σ.quantity σ.sideIsBuy
      σ.orderTypeStr σ.price).run s = .returned result s') :
    ∃ ts store', CallStep server.store (.addOrder (σ.order (s.brokerOrderIdCounter + 1) n))
        (.added ts (some server.store.nextOrder)) store' ∧
      s' = gaveUp s σ price
        (booking server store' σ.clientOrderId (σ.order (s.brokerOrderIdCounter + 1) n) ts) := by
  obtain ⟨ts, store', hcall, hrun'⟩ := h.run_submit_lost L hcarried hprice hn
  rw [hrun'] at hrun
  cases hrun
  exact ⟨ts, store', hcall, rfl⟩

/-- Where a submission returns whose reply arrives, the broker has replayed the trades, and an order
that the book has finished is not tracked any more. -/
theorem InService.submit_delivered (h : InService s server) {L : Libraries}
    (hcarried : σ.Carried (s.brokerOrderIdCounter + 1)) (hprice : σ.price = some price)
    (hn : pyInt price = .ok n) {result : Option ℤ}
    (hrun : (submitOrder (transport L .delivered) σ.clientOrderId σ.symbol σ.quantity σ.sideIsBuy
      σ.orderTypeStr σ.price).run s = .returned result s') :
    ∃ ts store' server', CallStep server.store
        (.addOrder (σ.order (s.brokerOrderIdCounter + 1) n))
        (.added ts (some server.store.nextOrder)) store' ∧
      server' =
        booking server store' σ.clientOrderId (σ.order (s.brokerOrderIdCounter + 1) n) ts ∧
      s' = replayed s σ price server' ts ∧
      (finishes (some (finalStatusInBook (some (store'.heap server.store.nextOrder)))) = true →
        ((acknowledgedFor s σ price server').applyFills
          (fillInfos ts)).brokerIdToOrderDetails.lookup (s.brokerOrderIdCounter + 1) = none) := by
  obtain ⟨ts, store', hcall, hrun'⟩ := h.run_submit_delivered L hcarried hprice hn
  rw [hrun', Outcome.bind_eq_returned] at hrun
  obtain ⟨_, s'', hfinal, hret⟩ := hrun
  cases hret
  have hfree : ((acknowledgedFor s σ price (booking server store' σ.clientOrderId
      (σ.order (s.brokerOrderIdCounter + 1) n) ts)).applyFills (fillInfos ts)).lockHeld = false :=
    (applyFills_lockHeld _).trans h.free
  obtain ⟨rfl, hdone⟩ := handleFinalStatus_returned _ _ _ _ hfree
    (acknowledgedFor_applyFills_status _) hfinal
  exact ⟨ts, store', _, hcall, rfl, rfl, hdone⟩

/-- **A submission that returns, and whose reply arrives**, in step. -/
theorem Synced.exists_answered (h : Synced subs s server) {L : Libraries}
    (hadm : σ.Admissible subs (s.brokerOrderIdCounter + 1)) (hprice : σ.price = some price)
    {result : Option ℤ}
    (hrun : (submitOrder (transport L .delivered) σ.clientOrderId σ.symbol σ.quantity σ.sideIsBuy
      σ.orderTypeStr σ.price).run s = .returned result s') :
    ∃ n o ts p store' server', Answered subs s server σ price n o ts p store' server' ∧
      s' = replayed s σ price server' ts ∧
      (finishes (some (finalStatusInBook (some (store'.heap p)))) = true →
        ((acknowledgedFor s σ price server').applyFills
          (fillInfos ts)).brokerIdToOrderDetails.lookup (s.brokerOrderIdCounter + 1) = none) := by
  have hfits := hadm.price
  rw [hprice] at hfits
  obtain ⟨n, hn, hn0, hn32⟩ := hfits.exists_pyInt
  obtain ⟨ts, store', server', hcall, hserver', rfl, hdone⟩ :=
    h.inService.submit_delivered hadm.carried hprice hn hrun
  exact ⟨n, _, ts, _, store', server',
    h.answered hadm hprice hn hn0 hn32 rfl hcall hserver' hdone, rfl, hdone⟩

/-- **A submission that returns.** -/
theorem Synced.submit (h : Synced subs s server) {L : Libraries} {delivery : Delivery}
    (hadm : σ.Admissible subs (s.brokerOrderIdCounter + 1))
    (htrace : delivery = .lost → ∀ price n, σ.price = some price → pyInt price = .ok n →
      LeavesNoTrace server.store (σ.order (s.brokerOrderIdCounter + 1) n))
    (hnamed : σ.FillsNoUnnamed s) {result : Option ℤ}
    (hrun : (submitOrder (transport L delivery) σ.clientOrderId σ.symbol σ.quantity σ.sideIsBuy
      σ.orderTypeStr σ.price).run s = .returned result s') :
    ∃ server', Synced (subs ++ [σ]) s' server' ∧
      (delivery = .delivered → Mirrored s server → Mirrored s' server') := by
  have hfits := hadm.price
  cases hprice : σ.price with
  | none =>
      rw [hprice, run_submitOrder_of_no_price] at hrun
      cases hrun
      exact ⟨server, h.unpriced hadm, fun _ hmirrored => hmirrored⟩
  | some price =>
      rw [hprice] at hfits
      obtain ⟨n, hn, hn0, hn32⟩ := hfits.exists_pyInt
      cases delivery with
      | lost =>
          obtain ⟨ts, store', hcall, rfl⟩ := h.inService.submit_lost hadm.carried hprice hn hrun
          refine ⟨_, h.rejected hadm rfl hcall rfl (htrace rfl price n hprice hn), ?_⟩
          rintro ⟨⟩
      | delivered =>
          obtain ⟨_, _, ts, _, _, server', hanswered, rfl, hdone⟩ :=
            h.exists_answered hadm hprice hrun
          exact ⟨server', hanswered.synced_replayed hnamed,
            fun _ => hanswered.mirrored_replayed hnamed hdone⟩

/-- What a cancel can do. -/
inductive CancelStep (s : BrokerAndServer) (server : ServerState) (delivery : Delivery)
    (clientOrderId : String) : BrokerAndServer → Prop
  /-- The order is not tracked, or it is done. -/
  | refused : CancelStep s server delivery clientOrderId s
  /-- The book does not have the order. -/
  | notFound (b : ℤ) (order : OrderDetails) : s.Tracks b clientOrderId order →
      CancelStep s server delivery clientOrderId (restoredState s b order server)
  /-- The book removes the order, and the reply is lost. -/
  | lost (b : ℤ) (order : OrderDetails) (node : Node) (store' : Store) : delivery = .lost →
      s.Tracks b clientOrderId order → node ∈ server.store.nodes →
      Removed server.store node store' →
      CancelStep s server delivery clientOrderId
        (restoredState s b order { server with store := store' })
  /-- The book removes the order, and says so. -/
  | cancelled (b : ℤ) (order : OrderDetails) (node : Node) (store' : Store) :
      s.Tracks b clientOrderId order → node ∈ server.store.nodes →
      ((server.store.idAt node).toNat : ℤ) = b → Removed server.store node store' →
      CancelStep s server delivery clientOrderId
        (cancelledState s clientOrderId b order { server with store := store' })

/-- **Every cancel returns**, and does one of the things a cancel can do. -/
theorem InService.run_cancel (h : InService s server) (hkeyed : s.Keyed) {clientOrderId : String}
    (hbooked : ∀ b, s.brokerToClientIdMap.lookup b = some clientOrderId →
      ∃ id : OrderId, (id.toNat : ℤ) = b) (L : Libraries) (delivery : Delivery) :
    ∃ result s', (cancelOrder (transport L delivery) clientOrderId).run s = .returned result s' ∧
      CancelStep s server delivery clientOrderId s' := by
  rcases htracked : s.tracked clientOrderId with _ | ⟨b, order⟩
  · exact ⟨_, _, run_cancelOrder_of_not_tracked _ h.free htracked, .refused⟩
  by_cases hdone : order.status.isDone = true
  · exact ⟨_, _, run_cancelOrder_of_done _ h.free htracked hdone, .refused⟩
  have htracks := tracks_of_tracked hkeyed htracked
  obtain ⟨id, rfl⟩ := hbooked b htracks.client
  have hlt : (id.toNat : ℤ) < 2 ^ 64 := by exact_mod_cast id.toNat_lt
  have hid : UInt64.ofInt (id.toNat : ℤ) = id :=
    UInt64.toNat_inj.mp (by exact_mod_cast toNat_ofInt64 (by omega) hlt)
  have hfits : Json.Fits (id.toNat : ℤ) := fits_of_nonneg (by omega) hlt
  obtain ⟨a, store', hcall, hstep⟩ := call_steps h.consistent (.cancelOrder id)
  rw [← hid] at hcall
  have hdone' : order.status.isDone = false := by simpa using hdone
  -- whatever the book has done, a reply that is no success restores the order
  have hrestored : ∀ {response : Option Reply}, ¬cancels response →
      transport L delivery (cancelOrderRequest id.toNat) s.orderBook =
        (response, some { server with store := store' }) →
      (cancelOrder (transport L delivery) clientOrderId).run s =
        .returned false (restoredState s id.toNat order { server with store := store' }) := by
    intro response hnot hsend
    rw [run_cancelOrder _ h.free htracked hdone' hsend, if_neg hnot]
    rfl
  cases hstep with
  | notFound _ hnone =>
      have hserve := serve_cancelOrder L hfits hcall
      refine ⟨false, _, ?_, .notFound _ order htracks⟩
      cases delivery with
      | lost =>
          apply hrestored (show ¬cancels none by decide)
          rw [h.connected]
          exact transport_lost hserve
      | delivered =>
          apply hrestored (show ¬cancels (some (cancelReply id.toNat false)) from fun hc => ?_)
          · rw [h.connected]
            exact transport_delivered hserve
          · cases hc.1
  | cancelled node _ hnode hremoved =>
      have hserve := serve_cancelOrder L hfits hcall
      cases delivery with
      | lost =>
          have hsend := transport_lost hserve
          rw [← h.connected] at hsend
          exact ⟨false, _, hrestored (show ¬cancels none by decide) hsend,
            .lost _ order node store' rfl htracks hnode hremoved⟩
      | delivered =>
          have hsend := transport_delivered hserve
          rw [← h.connected] at hsend
          have hcancels : cancels (some (cancelReply (server.store.idAt node).toNat true)) :=
            ⟨rfl, rfl⟩
          refine ⟨true, _, ?_, .cancelled _ order node store' htracks hnode rfl hremoved⟩
          rw [run_cancelOrder _ h.free htracked hdone' hsend, if_pos hcancels]
          rfl

/-- **A cancel that returns.** -/
theorem Synced.cancelCall (h : Synced subs s server) {L : Libraries} {delivery : Delivery}
    {clientOrderId : String} {result : Bool}
    (hrun : (cancelOrder (transport L delivery) clientOrderId).run s = .returned result s') :
    ∃ server', Synced subs s' server' ∧
      (delivery = .delivered → Mirrored s server → Mirrored s' server') := by
  obtain ⟨result', s'', hrun', hstep⟩ := h.inService.run_cancel h.accounts.indexed.toKeyed
    (fun b hb => (h.booked hb).imp fun _ hid => hid.1) L delivery
  rw [hrun'] at hrun
  cases hrun
  cases hstep with
  | refused => exact ⟨server, h, fun _ hmirrored => hmirrored⟩
  | notFound b order htracks =>
      exact ⟨server, h.restored htracks h.consistent h.allOpen fun _ _ ho => ho,
        fun _ hmirrored => hmirrored⟩
  | lost b order node store' hlost htracks hnode hremoved =>
      refine ⟨_, h.restored htracks (hremoved.invariant h.consistent hnode)
        (hremoved.allOpen h.consistent h.allOpen) ?_, ?_⟩
      · intro id o ho
        rw [hremoved.resting? h.consistent hnode] at ho
        split_ifs at ho
        exact ho
      · rw [hlost]
        rintro ⟨⟩
  | cancelled b order node store' htracks hnode hb hremoved =>
      obtain ⟨hsynced, hmirrored⟩ := h.cancelled htracks hnode hb hremoved
      exact ⟨_, hsynced, fun _ => hmirrored⟩

/-! ## Runs -/

variable {L : Libraries} {es : List Event} {e : Event}

/-- The call keeps what is reported right: an order whose reply is lost leaves no trace, and no
order that is tracked under the empty client id is filled. -/
structure KeepsReports (s : BrokerAndServer) (e : Event) : Prop where
  trace : LossLeavesNoTrace s e
  named : FillsNoUnnamed s e

/-- No reply is lost. -/
def Delivered (_ : BrokerAndServer) (e : Event) : Prop := e.delivery = .delivered

/-- The call keeps the broker a mirror of the book: its reply arrives, and no order that is tracked
under the empty client id is filled. -/
structure KeepsMirror (s : BrokerAndServer) (e : Event) : Prop where
  delivered : Delivered s e
  named : FillsNoUnnamed s e

/-- A reply that is delivered is not lost. -/
theorem Delivered.lossLeavesNoTrace (h : Delivered s e) : LossLeavesNoTrace s e := by
  intro hlost
  rw [h] at hlost
  cases hlost

/-- What keeps the mirror keeps the reports. -/
theorem KeepsMirror.keepsReports (h : KeepsMirror s e) : KeepsReports s e :=
  ⟨h.delivered.lossLeavesNoTrace, h.named⟩

/-- **Every call keeps broker and book in step.** -/
theorem Synced.step (h : Synced (submissions es) s server)
    (hadm : ∀ σ ∈ submission? e.call,
      σ.Admissible (submissions es) (s.brokerOrderIdCounter + 1))
    (hkeeps : KeepsReports s e) {result : CallResult}
    (hrun : (e.call.run (transport L e.delivery)).run s = .returned result s') :
    ∃ server', Synced (submissions (es ++ [e])) s' server' ∧
      (e.delivery = .delivered → Mirrored s server → Mirrored s' server') := by
  rw [submissions_append]
  rcases returned_cases hrun with ⟨σ, brokerOrdId, hcall, hsubmit⟩ |
    ⟨clientOrderId, accepted, hcall, hcancel⟩
  · rw [hcall]
    refine h.submit (hadm σ hcall) ?_ (hkeeps.named σ hcall) hsubmit
    intro hlost price n hprice hn
    exact hkeeps.trace hlost σ price n server hcall hprice hn h.connected
  · rw [hcall, Option.toList_none, List.append_nil]
    exact h.cancelCall hcancel

/-- **Broker and book stay in step** on every run whose calls keep the reports right. -/
theorem Run.synced (h : Run L KeepsReports es s) :
    ∃ server, Synced (submissions es) s server := by
  induction h with
  | init => exact ⟨_, synced_init⟩
  | call _ hadm hkeeps hrun ih =>
      obtain ⟨server, hsynced⟩ := ih
      obtain ⟨server', hsynced', -⟩ := hsynced.step hadm hkeeps hrun
      exact ⟨server', hsynced'⟩

/-- **Broker and book are mirrors** on every run whose calls keep them so. -/
theorem Run.mirrored (h : Run L KeepsMirror es s) :
    ∃ server, Synced (submissions es) s server ∧ Mirrored s server := by
  induction h with
  | init => exact ⟨_, synced_init, mirrored_init⟩
  | call _ hadm hkeeps hrun ih =>
      obtain ⟨server, hsynced, hmirrored⟩ := ih
      obtain ⟨server', hsynced', hstep⟩ := hsynced.step hadm hkeeps.keepsReports hrun
      exact ⟨server', hsynced', hstep hkeeps.delivered hmirrored⟩

/-- **A call that returns, and whose reply arrives, has filled no order under the empty client id if
its loop has skipped none.** -/
theorem Synced.fillsNoUnnamed_of_not_skipped (h : Synced (submissions es) s server)
    (hadm : ∀ σ ∈ submission? e.call,
      σ.Admissible (submissions es) (s.brokerOrderIdCounter + 1)) {result : CallResult}
    (hrun : (e.call.run (transport L e.delivery)).run s = .returned result s')
    (hdelivered : Delivered s e)
    (hnone : ∀ σ price n o ts p store' server',
      Answered (submissions es) s server σ price n o ts p store' server' →
      submission? e.call = some σ → s' = replayed s σ price server' ts →
        ∀ id order, ¬Skipped (acknowledgedFor s σ price server') ts id order) :
    FillsNoUnnamed s e := by
  intro σ hσ
  rcases returned_cases hrun with ⟨σ', brokerOrdId, hcall, hsubmit⟩ | ⟨_, _, hcall, -⟩
  · obtain rfl := Option.some.inj (hσ.symm.trans hcall)
    rcases hprice : σ.price with _ | price
    · rintro server' o r ⟨-, -, price, n, hsome, -⟩
      rw [hprice] at hsome
      cases hsome
    · rw [show e.delivery = .delivered from hdelivered] at hsubmit
      obtain ⟨n, o, ts, p, store', server', hanswered, hs', -⟩ :=
        h.exists_answered (hadm σ hσ) hprice hsubmit
      rw [hanswered.fillsNoUnnamed_iff]
      exact hnone σ price n o ts p store' server' hanswered hσ hs'
  · cases hcall.symm.trans hσ

/-- In step, no order under the empty client id is filled as long as none has been submitted. -/
theorem Synced.fillsNoUnnamed (h : Synced (submissions es) s server)
    (hnamed : ∀ σ ∈ submissions (es ++ [e]), σ.clientOrderId ≠ "") : FillsNoUnnamed s e := by
  rw [submissions_append] at hnamed
  intro σ hσ
  apply Submission.fillsNoUnnamed_of_named
  · exact hnamed σ (List.mem_append_right _ (Option.mem_toList.mpr hσ))
  · exact h.accounts.untracked_of_unknown fun σ' hσ' => hnamed σ' (List.mem_append_left _ hσ')

/-- **Where no client id is empty**, no order under an empty one is filled. -/
theorem Run.keepsMirror (h : Run L Delivered es s)
    (hnamed : ∀ σ ∈ submissions es, σ.clientOrderId ≠ "") : Run L KeepsMirror es s := by
  induction h with
  | init => exact .init
  | @call es e s _ _ _ hadm hdelivered hrun ih =>
      have hbefore : ∀ σ ∈ submissions es, σ.clientOrderId ≠ "" := by
        intro σ hσ
        apply hnamed
        rw [submissions_append]
        exact List.mem_append_left _ hσ
      obtain ⟨server, hsynced, -⟩ := (ih hbefore).mirrored
      exact .call (ih hbefore) hadm ⟨hdelivered, hsynced.fillsNoUnnamed hnamed⟩ hrun

end steps

end FlowManager.System
