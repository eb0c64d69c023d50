import FlowManager.System.Mirror

/-!
# The confirmation stream of an order

What the position manager is told about one order, over all calls that touch it: its own
submission, the submissions that trade with it, and a cancel. With every reply delivered the
confirmations are partial fills and then at most one terminal message, they add up to what the
order has traded in the book, and after the terminal message nothing is left of the order.
-/

namespace FlowManager.System

open FlowManager.Lib FlowManager.Book FlowManager.Broker FlowManager.Server

section protocol

variable {L : Libraries} {es : List Event} {s s' : BrokerAndServer} {server : ServerState}
  {σ : Submission}

/-- The broker has no entry for an order. -/
structure Untracked (s : BrokerAndServer) (server : ServerState) (clientOrderId : String) :
    Prop where
  ids : s.clientToBrokerIdMap.lookup clientOrderId = none
  clients : ∀ b, s.brokerToClientIdMap.lookup b ≠ some clientOrderId
  details : ∀ id ∈ bookedIds server clientOrderId,
    s.brokerIdToOrderDetails.lookup (id.toNat : ℤ) = none

/-- An id under which nothing is tracked is untracked. -/
theorem Synced.untracked {subs : List Submission} (h : Synced subs s server)
    {clientOrderId : String} (hnone : ∀ b, s.brokerToClientIdMap.lookup b ≠ some clientOrderId) :
    Untracked s server clientOrderId where
  ids := h.accounts.indexed.client_eq_none_iff.mpr hnone
  clients := hnone
  details := by
    intro id hid
    rw [Option.eq_none_iff_forall_ne_some]
    intro details hdetails
    obtain ⟨clientOrderId', htracks⟩ := h.accounts.indexed.exists_tracks_of_details hdetails
    obtain ⟨id', hid', hbooked⟩ := h.booked htracks.client
    obtain rfl : id' = id := UInt64.toNat_inj.mp (by exact_mod_cast hid')
    obtain rfl := h.issued.client_eq hid hbooked
    exact hnone _ htracks.client

/-- A last message about an order says how it ended. -/
structure Ending (s : BrokerAndServer) (server : ServerState) (σ : Submission)
    (last : TradeConfirmationMessage) : Prop where
  terminal : last.status = .FILLED ∨ last.status = .CANCELLED ∨ last.status = .REJECTED
  filled : last.status = .FILLED ↔
    filledTotal (s.confirmationsOf σ.clientOrderId) = σ.quantity
  rejected : last.status = .REJECTED → filledTotal (s.confirmationsOf σ.clientOrderId) = 0
  untracked : Untracked s server σ.clientOrderId
  gone : ¬RestsInBook server σ.clientOrderId

/-- The confirmations of an order follow the protocol. -/
structure FollowsProtocol (s : BrokerAndServer) (server : ServerState) (σ : Submission) :
    Prop where
  stream : ∃ (partials : List TradeConfirmationMessage) (last : Option TradeConfirmationMessage),
    s.confirmationsOf σ.clientOrderId = partials ++ last.toList ∧ AllPartial partials ∧
      ∀ message ∈ last, Ending s server σ message
  terms : ∀ c ∈ s.confirmationsOf σ.clientOrderId, c.symbol = σ.symbol ∧ c.sideIsBuy = σ.sideIsBuy
  traded : filledTotal (s.confirmationsOf σ.clientOrderId) = tradedFor server σ.clientOrderId
  /-- Once the quantity has traded, a message has said so. -/
  completed : filledTotal (s.confirmationsOf σ.clientOrderId) = σ.quantity →
    ∃ c ∈ s.confirmationsOf σ.clientOrderId, c.status = .FILLED

/-- The ends of an order. -/
theorem isTerminal_iff (status : Status) : status.isTerminal = true ↔
    status = .FILLED ∨ status = .CANCELLED ∨ status = .REJECTED := by
  simp [Status.isTerminal]

/-- What has been confirmed as filled is what has traded. -/
theorem Accounts.filledTotal_eq {subs : List Submission}
    (h : Accounts subs (bookedIds server) (tapeOf server) s) (clientOrderId : String) :
    filledTotal (s.confirmationsOf clientOrderId) = tradedFor server clientOrderId := by
  rw [h.balanced]
  rfl

/-- An order in one of its two stages follows the protocol. -/
theorem Synced.followsProtocol {subs : List Submission} (h : Synced subs s server) (hσ : σ ∈ subs)
    (hpos : 0 < σ.quantity) : FollowsProtocol s server σ := by
  rcases h.accounts.stages σ hσ with ⟨b, order, hdescribes, hworks⟩ | hsettled
  · refine ⟨⟨_, none, (List.append_nil _).symm, hworks.partials, ?_⟩, ?_,
      h.accounts.filledTotal_eq _, ?_⟩
    · rintro message ⟨⟩
    · rw [← hdescribes.symbol, ← hdescribes.sideIsBuy]
      exact hworks.terms
    · intro hall
      have hunfinished := hworks.unfinished
      rw [hworks.filled, ← hdescribes.quantity] at hall
      omega
  · obtain ⟨status, hterminal, ⟨partials, last, hconf, hpartials, rfl⟩, hfilled, hrejected⟩ :=
      hsettled.ends
    refine ⟨⟨partials, some last, hconf, hpartials, ?_⟩, hsettled.terms,
      h.accounts.filledTotal_eq _, ?_⟩
    · rintro message ⟨⟩
      exact ⟨(isTerminal_iff _).mp hterminal, hfilled hpos, hrejected,
        h.untracked hsettled.untracked, h.not_rests_of_untracked hsettled.untracked⟩
    · intro hall
      refine ⟨last, ?_, (hfilled hpos).mpr hall⟩
      rw [hconf]
      exact List.mem_append_right _ (List.mem_singleton_self last)

/-- The confirmations of all orders of a run follow the protocol. -/
def AllFollowProtocol (es : List Event) (s : BrokerAndServer) : Prop :=
  ∃ server, s.orderBook = some server ∧ ∀ σ ∈ submissions es, FollowsProtocol s server σ

/-- **Every run that keeps the mirror**, with positive quantities, follows the protocol. -/
theorem Run.allFollowProtocol (h : Run L KeepsMirror es s)
    (hpos : ∀ σ ∈ submissions es, 0 < σ.quantity) : AllFollowProtocol es s := by
  obtain ⟨server, hsynced, -⟩ := h.mirrored
  exact ⟨server, hsynced.connected, fun σ hσ => hsynced.followsProtocol hσ (hpos σ hσ)⟩

/-- Where the confirmations follow the protocol after a call, it has filled no order under the empty
client id. -/
theorem Synced.fillsNoUnnamed_of_follow {e : Event} (h : Synced (submissions es) s server)
    (hadm : ∀ σ ∈ submission? e.call,
      σ.Admissible (submissions es) (s.brokerOrderIdCounter + 1)) {result : CallResult}
    (hrun : (e.call.run (transport L e.delivery)).run s = .returned result s')
    (hdelivered : Delivered s e) (hfollow : AllFollowProtocol (es ++ [e]) s') :
    FillsNoUnnamed s e := by
  apply h.fillsNoUnnamed_of_not_skipped hadm hrun hdelivered
  rintro σ price n o ts p store' server' hanswered hσ rfl id order hskipped
  obtain ⟨server'', hconnected, hall⟩ := hfollow
  obtain rfl := Option.some.inj (hconnected.symm.trans (replayed_orderBook _ _ _ _ _))
  rw [submissions_append, hσ] at hall
  obtain ⟨σ₀, hσ₀, hempty, -⟩ := hanswered.registered.works hskipped.tracks
  have htraded := (hall σ₀ hσ₀).traded
  rw [hempty] at htraded
  exact hanswered.filledTotal_ne_of_skipped hskipped htraded

/-- **When the confirmations follow the protocol.** In a run of calls on which every reply arrives,
for orders of a positive quantity, they follow it after every call if and only if no order is
filled that the broker tracks under the empty client id. To follow it is this, for each order: its
confirmations are partial fills and then at most one terminal message, all with the order's symbol
and side; they add up to what it has traded in the book; there is a terminal `FILLED` exactly if
that is its quantity and a terminal `REJECTED` only if it is nothing; and after it the order is
neither tracked nor resting. -/
theorem confirmations_follow_protocol_iff (h : Run L Delivered es s)
    (hpos : ∀ σ ∈ submissions es, 0 < σ.quantity) :
    (∀ es', es' <+: es → AllFollowProtocol es' (afterAll L es')) ↔ Run L KeepsMirror es s := by
  constructor
  · intro hfollow
    induction h with
    | init => exact .init
    | @call es e s s' result hbefore hadm hdelivered hcall ih =>
        have hposBefore : ∀ σ ∈ submissions es, 0 < σ.quantity := by
          intro σ hσ
          apply hpos
          rw [submissions_append]
          exact List.mem_append_left _ hσ
        have hrun := ih hposBefore fun es' hstart =>
          hfollow es' (hstart.trans (List.prefix_append es [e]))
        obtain ⟨server, hsynced, -⟩ := hrun.mirrored
        have hlast := hfollow (es ++ [e]) (List.prefix_refl _)
        rw [afterAll_append, ← hbefore.eq_afterAll, after_of_returned hcall] at hlast
        exact .call hrun hadm
          ⟨hdelivered, hsynced.fillsNoUnnamed_of_follow hadm hcall hdelivered hlast⟩ hcall
  · intro hrun es' hstart
    apply (hrun.of_prefix hstart).allFollowProtocol
    intro σ hσ
    exact hpos σ ((hstart.filterMap _).subset hσ)

/-- Four calls follow the protocol. -/
theorem confirmations_follow_protocol_iff_four_calls :
    AllFollowProtocol fourCalls (afterAll .nlohmann fourCalls) :=
  (confirmations_follow_protocol_iff run_fourCalls (by decide)).mpr keepsMirror_fourCalls fourCalls
    (List.prefix_refl _)

/-- Five units of the buy with the empty client id trade, and no confirmation says so. -/
theorem confirmations_follow_protocol_fails : ¬∀ L es s, Run L Delivered es s →
    (∀ σ ∈ submissions es, 0 < σ.quantity) → AllFollowProtocol es s := by
  intro h
  obtain ⟨server, hserver, hall⟩ := h _ _ _ run_unnamedBuy (by decide)
  obtain rfl := Option.some.inj hserver
  have htraded := (hall ⟨"", "AMD", 5, true, "GTC", some (.finite 100)⟩ (by decide)).traded
  revert htraded
  decide

end protocol

end FlowManager.System
