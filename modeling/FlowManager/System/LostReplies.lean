import FlowManager.System.Stepping

/-!
# Lost replies

When the reply to a request is lost, the server has executed it and the broker does not know what
came of it. A lost cancel does no harm to what has been reported: the order is gone, and trades no
more. A lost submission does: the broker reports a rejection and forgets the order, while the book
has traded it or keeps it. `fills_reported_iff` says when the reports of a run stay right: exactly
if every lost order left no trace in the book (`LeavesNoTrace`), because it could not trade and was
not kept, and if no order was filled that the broker tracks under the empty client id, whose fills
it ignores.
-/

namespace FlowManager.System

open FlowManager.Lib FlowManager.Lib.PriceTime FlowManager.Book FlowManager.Broker
  FlowManager.Server

/-- Every fill in the book has been reported once, and an order that was reported as rejected has
neither traded nor rests. -/
def ReportsFills (s : BrokerAndServer) : Prop :=
  ∃ server, s.orderBook = some server ∧ ∀ clientOrderId,
    filledTotal (s.confirmationsOf clientOrderId) = tradedFor server clientOrderId ∧
      ((∃ c ∈ s.confirmationsOf clientOrderId, c.status = .REJECTED) →
        tradedFor server clientOrderId = 0 ∧ ¬RestsInBook server clientOrderId)

section lost

variable {L : Libraries} {es : List Event} {subs : List Submission} {s s' : BrokerAndServer}
  {server : ServerState} {σ : Submission} {price : PyFloat} {n : ℤ}

/-- In step, the reports are right. -/
theorem Synced.reportsFills (h : Synced subs s server) : ReportsFills s := by
  refine ⟨server, h.connected, fun clientOrderId => ⟨h.accounts.balanced clientOrderId, ?_⟩⟩
  rintro ⟨c, hc, hrejected⟩
  obtain ⟨σ, hσ, rfl⟩ : ∃ σ ∈ subs, σ.clientOrderId = clientOrderId := by
    by_contra hnone
    rw [(h.accounts.unknown clientOrderId fun σ hσ heq => hnone ⟨σ, hσ, heq⟩).1] at hc
    cases hc
  have hbalanced := h.accounts.balanced σ.clientOrderId
  rcases h.accounts.stages σ hσ with ⟨b, order, -, hworks⟩ | hsettled
  · rw [hworks.partials c hc] at hrejected
    cases hrejected
  · refine ⟨?_, h.not_rests_of_untracked hsettled.untracked⟩
    obtain ⟨status, -, ⟨partials, last, hconf, hpartials, hlast⟩, -, hzero⟩ := hsettled.ends
    rw [hconf] at hc
    rcases List.mem_append.mp hc with hc | hc
    · rw [hpartials c hc] at hrejected
      cases hrejected
    · rw [List.mem_singleton.mp hc, hlast] at hrejected
      rw [hzero hrejected] at hbalanced
      exact_mod_cast hbalanced.symm

/-- **A lost order that leaves a trace makes the reports wrong.** -/
theorem Synced.not_reportsFills (h : Synced subs s server)
    (hadm : σ.Admissible subs (s.brokerOrderIdCounter + 1)) (hprice : σ.price = some price)
    (hn : pyInt price = .ok n)
    (htrace : ¬LeavesNoTrace server.store (σ.order (s.brokerOrderIdCounter + 1) n))
    {result : Option ℤ}
    (hrun : (submitOrder (transport L .lost) σ.clientOrderId σ.symbol σ.quantity σ.sideIsBuy
      σ.orderTypeStr σ.price).run s = .returned result s') : ¬ReportsFills s' := by
  obtain ⟨ts, store', hcall, rfl⟩ := h.inService.submit_lost hadm.carried hprice hn hrun
  rintro ⟨server', hserver', hreports⟩
  obtain rfl := Option.some.inj hserver'
  obtain ⟨-, hrejected⟩ := hreports σ.clientOrderId
  have hid := order_id h.inService.toConnected hadm.carried n
  have hmem : rejection σ.clientOrderId σ.symbol σ.sideIsBuy ∈
      (gaveUp s σ price (booking server store' σ.clientOrderId
        (σ.order (s.brokerOrderIdCounter + 1) n) ts)).confirmationsOf σ.clientOrderId := by
    have hconf : (gaveUp s σ price (booking server store' σ.clientOrderId
        (σ.order (s.brokerOrderIdCounter + 1) n) ts)).confirmationsOf σ.clientOrderId =
          s.confirmationsOf σ.clientOrderId ++ [rejection σ.clientOrderId σ.symbol σ.sideIsBuy] :=
      confirmationsOf_confirm_self rfl
    rw [hconf]
    exact List.mem_append_right _ (List.mem_singleton_self _)
  obtain ⟨hzero, hgone⟩ := hrejected ⟨_, hmem, rfl⟩
  have hids : bookedIds (booking server store' σ.clientOrderId
      (σ.order (s.brokerOrderIdCounter + 1) n) ts) σ.clientOrderId =
        [(σ.order (s.brokerOrderIdCounter + 1) n).orderId] := by
    rw [bookedIds_booking, bookAlso_self, (h.accounts.unknown _ hadm.fresh).2, List.nil_append]
  apply htrace
  apply (hcall.traceless_iff h.consistent h.allOpen).mp
  constructor
  · by_contra hrests
    refine hgone ⟨_, ?_, hrests⟩
    rw [hids]
    exact List.mem_singleton_self _
  · unfold tradedFor at hzero
    rw [hids, tapeOf_booking, List.map_singleton, List.sum_singleton, traded_append,
      h.inService.next_not_traded hid, zero_add] at hzero
    exact hzero

/-- An order that leaves no trace trades nothing. -/
theorem Synced.movesNothing (h : Synced subs s server) (L : Libraries)
    (hadm : σ.Admissible subs (s.brokerOrderIdCounter + 1)) (hprice : σ.price = some price)
    (hn : pyInt price = .ok n)
    (htrace : LeavesNoTrace server.store (σ.order (s.brokerOrderIdCounter + 1) n))
    {r : Resting OrderTerms} (hr : ReachesNow server (σ.order (s.brokerOrderIdCounter + 1) n) r) :
    MovesNothing (σ.order (s.brokerOrderIdCounter + 1) n) r := by
  obtain ⟨ts, store', hcall, -⟩ := h.inService.exists_taken L hadm.carried hprice hn
  obtain ⟨-, -, hzero⟩ := hcall.traceless h.consistent h.allOpen htrace
  by_contra hmoves
  exact ((hcall.handled h.consistent).traded_ne_zero_iff h.consistent).mpr
    ⟨r, hr, hmoves, Or.inl rfl⟩ (hzero _)

/-- Where the reports are right after a call, it has lost no order that left a trace, -/
theorem Synced.lossLeavesNoTrace {e : Event} (h : Synced (submissions es) s server)
    (hadm : ∀ σ ∈ submission? e.call,
      σ.Admissible (submissions es) (s.brokerOrderIdCounter + 1)) {result : CallResult}
    (hrun : (e.call.run (transport L e.delivery)).run s = .returned result s')
    (hreports : ReportsFills s') : LossLeavesNoTrace s e := by
  intro hlost σ price n server' hσ hprice hn hconnected
  obtain rfl := Option.some.inj (h.connected.symm.trans hconnected)
  by_contra htrace
  rcases returned_cases hrun with ⟨σ', brokerOrdId, hcall, hsubmit⟩ | ⟨_, _, hcall, -⟩
  · obtain rfl := Option.some.inj (hσ.symm.trans hcall)
    rw [hlost] at hsubmit
    exact h.not_reportsFills (hadm σ hσ) hprice hn htrace hsubmit hreports
  · cases hcall.symm.trans hσ

/-- and it has filled no order under the empty client id. -/
theorem Synced.keepsReports {e : Event} (h : Synced (submissions es) s server)
    (hadm : ∀ σ ∈ submission? e.call,
      σ.Admissible (submissions es) (s.brokerOrderIdCounter + 1)) {result : CallResult}
    (hrun : (e.call.run (transport L e.delivery)).run s = .returned result s')
    (hreports : ReportsFills s') : KeepsReports s e := by
  have htrace := h.lossLeavesNoTrace hadm hrun hreports
  refine ⟨htrace, ?_⟩
  cases hdelivery : e.delivery with
  | lost =>
      rintro σ hσ server' o r ⟨-, hconnected, price, n, hprice, hn, rfl⟩ hr -
      obtain rfl := Option.some.inj (h.connected.symm.trans hconnected)
      exact h.movesNothing L (hadm σ hσ) hprice hn
        (htrace hdelivery σ price n _ hσ hprice hn hconnected) hr
  | delivered =>
      apply h.fillsNoUnnamed_of_not_skipped hadm hrun hdelivery
      rintro σ price n o ts p store' server' hanswered - rfl id order hskipped
      obtain ⟨server'', hconnected, hreported⟩ := hreports
      obtain rfl := Option.some.inj (hconnected.symm.trans (replayed_orderBook _ _ _ _ _))
      exact hanswered.filledTotal_ne_of_skipped hskipped (hreported "").1

/-- **When the reports of a run stay right.** The runs in all of whose states every fill has been
reported once and no rejected order has traded or rests are the runs on which every order whose
reply was lost left no trace in the book (where no resting order crossed its price it was
fill-and-kill, and where one did it had no quantity), and no order was filled that the broker
tracks under the empty client id. -/
theorem fills_reported_iff (L : Libraries) (es : List Event) (s : BrokerAndServer) :
    (Run L (fun s _ => ReportsFills s) es s ∧ ReportsFills s) ↔ Run L KeepsReports es s := by
  constructor
  · rintro ⟨hrun, hreports⟩
    induction hrun with
    | init => exact .init
    | call _ hadm hbefore hcall ih =>
        have hrun := ih hbefore
        obtain ⟨server, hsynced⟩ := hrun.synced
        exact .call hrun hadm (hsynced.keepsReports hadm hcall hreports) hcall
  · intro hrun
    refine ⟨?_, ?_⟩
    · induction hrun with
      | init => exact .init
      | call hrun hadm _ hcall ih =>
          obtain ⟨server, hsynced⟩ := hrun.synced
          exact .call ih hadm hsynced.reportsFills hcall
    · obtain ⟨server, hsynced⟩ := hrun.synced
      exact hsynced.reportsFills

/-- A good-till-cancel order whose reply is lost. -/
def lostOrder : List Event :=
  [⟨.submitOrder "a" "AMD" 5 true "GTC" (some (.finite 100)), .lost⟩]

/-- The order is reported as rejected and rests in the book. -/
theorem fills_reported_fails : ¬∀ L es s, Run L (fun _ _ => True) es s → ReportsFills s := by
  intro h
  have hrun := (run_nil .nlohmann fun _ _ => True).extend lostOrder[0] (by decide) trivial rfl
  obtain ⟨server, hserver, hreports⟩ := h _ _ _ hrun
  have hrejected := (hreports "a").2 ⟨rejection "a" "AMD" true, by decide, rfl⟩
  apply hrejected.2
  obtain rfl := Option.some.inj hserver
  exact ⟨1, by decide, by decide⟩

end lost

end FlowManager.System
