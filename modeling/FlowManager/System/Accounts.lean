import FlowManager.System.Run

/-!
# The broker's accounts and the tape of the book

`Accounts` is what ties the broker to the trades of the book, whatever rests in it: for every
client id, the quantity that the confirmations report is the quantity that the tape has traded
under the ids the order was booked with, and every submitted order is in one of the two stages of
`Broker.Stream`. It takes the booked ids and the tape as parameters, so that the steps of one call
(register the order, replay the trades, clean up) can be looked at one by one.

`totalFilled_ownFills_fillInfos` is where the two sides meet: the legs of a reply that name a
broker id add up to what the trades move for the order with that id.
-/

namespace FlowManager.System

open FlowManager.Lib FlowManager.Book FlowManager.Broker FlowManager.Server

/-! ## The legs of a reply -/

/-- The order's own fills, with one more. -/
theorem totalFilled_ownFills_cons (b : ℤ) (fill : FillInfo) (fills : List FillInfo) :
    totalFilled (ownFills b (fill :: fills)) =
      (if fill.orderIdFilled = b ∧ 0 < fill.tradedQuantity then fill.tradedQuantity else 0) +
        totalFilled (ownFills b fills) := by
  split_ifs with hown
  · rw [ownFills_cons_of_own fills hown, totalFilled_cons]
  · rw [ownFills_cons_of_not_own fills hown, zero_add]

/-- What a leg moves for an order. -/
theorem fillInfo_own (side : Side) (leg : TradeInfo) (id : OrderId) :
    (if (fillInfo side leg).orderIdFilled = (id.toNat : ℤ) ∧ 0 < (fillInfo side leg).tradedQuantity
      then (fillInfo side leg).tradedQuantity else 0) =
      ((if leg.orderId = id then leg.tradedQuantity.toNat else 0 : ℕ) : ℤ) := by
  have hid : (fillInfo side leg).orderIdFilled = (id.toNat : ℤ) ↔ leg.orderId = id := by
    show (leg.orderId.toNat : ℤ) = id.toNat ↔ _
    rw [Nat.cast_inj, UInt64.toNat_inj]
  have hquantity : (fillInfo side leg).tradedQuantity = (leg.tradedQuantity.toNat : ℤ) := rfl
  simp only [hid, hquantity]
  by_cases h : leg.orderId = id
  · rw [if_pos h]
    split_ifs with hpos
    · rfl
    · have hzero : ¬(0 : ℤ) < leg.tradedQuantity.toNat := fun hp => hpos ⟨h, hp⟩
      omega
  · rw [if_neg h, if_neg fun hand => h hand.1]
    rfl

/-- **The legs of a reply that name an order are what the trades move for it.** -/
theorem totalFilled_ownFills_fillInfos (ts : Trades) (id : OrderId) :
    totalFilled (ownFills id.toNat (fillInfos ts)) = traded ts id := by
  induction ts with
  | nil => rfl
  | cons t ts ih =>
      have hfills : fillInfos (t :: ts) =
          fillInfo .Buy t.bidTrade :: fillInfo .Sell t.askTrade :: fillInfos ts := rfl
      have hlegs : legs (t :: ts) = t.bidTrade :: t.askTrade :: legs ts := rfl
      rw [hfills, totalFilled_ownFills_cons, totalFilled_ownFills_cons, ih, fillInfo_own,
        fillInfo_own]
      unfold traded
      rw [hlegs, legsTotal_cons, legsTotal_cons]
      push_cast
      rfl

/-! ## Stages -/

/-- The details of a submission. -/
structure Submission.Describes (σ : Submission) (order : OrderDetails) : Prop where
  symbol : order.symbol = σ.symbol
  quantity : order.quantity = σ.quantity
  sideIsBuy : order.sideIsBuy = σ.sideIsBuy
  price : order.price = σ.price

/-- The broker works the order or has settled it. -/
def Stage (s : BrokerAndServer) (σ : Submission) : Prop :=
  (∃ b order, σ.Describes order ∧ s.Works b σ.clientOrderId order) ∨
    s.Settled σ.clientOrderId σ.symbol σ.quantity σ.sideIsBuy

section stage

variable {s s' : BrokerAndServer} {σ : Submission}

/-- A change elsewhere leaves the stage of an order. -/
theorem Stage.frame (h : Stage s σ)
    (hclient : ∀ b, s'.brokerToClientIdMap.lookup b = some σ.clientOrderId ↔
      s.brokerToClientIdMap.lookup b = some σ.clientOrderId)
    (hdetails : ∀ b, s.brokerToClientIdMap.lookup b = some σ.clientOrderId →
      s'.brokerIdToOrderDetails.lookup b = s.brokerIdToOrderDetails.lookup b)
    (hconf : s'.confirmationsOf σ.clientOrderId = s.confirmationsOf σ.clientOrderId) :
    Stage s' σ := by
  rcases h with ⟨b, order, hdescribes, hworks⟩ | hsettled
  · left
    refine ⟨b, order, hdescribes, hworks.frame ?_ (hdetails b hworks.client) hconf⟩
    rw [hworks.client, hclient, hworks.client]
  · right
    exact hsettled.frame (fun b => (hclient b).mp) hconf

end stage

/-! ## The new order -/

section acknowledged

variable {s : BrokerAndServer} {σ : Submission} {price : PyFloat} {server : ServerState} {b : ℤ}
  {clientOrderId : String} {order : OrderDetails}

/-- The state in which the loop over the trades starts: the order is registered and acknowledged. -/
def acknowledgedFor (s : BrokerAndServer) (σ : Submission) (price : PyFloat)
    (server : ServerState) : BrokerAndServer :=
  s.acknowledged σ.clientOrderId σ.symbol σ.quantity σ.sideIsBuy σ.orderTypeStr price (some server)

/-- The details of the order then. -/
def acknowledgedDetails (s : BrokerAndServer) (σ : Submission) (price : PyFloat) : OrderDetails :=
  { s.nextDetails σ.clientOrderId σ.symbol σ.quantity σ.sideIsBuy σ.orderTypeStr price with
    status := .ACKNOWLEDGED }

/-- The client ids once the order has been acknowledged. -/
theorem acknowledgedFor_client_lookup (b : ℤ) :
    (acknowledgedFor s σ price server).brokerToClientIdMap.lookup b =
      if b = s.brokerOrderIdCounter + 1 then some σ.clientOrderId
      else s.brokerToClientIdMap.lookup b :=
  Dict.lookup_insert_ite _ _ _ _

/-- The details once the order has been acknowledged. -/
theorem acknowledgedFor_details_lookup (b : ℤ) :
    (acknowledgedFor s σ price server).brokerIdToOrderDetails.lookup b =
      if b = s.brokerOrderIdCounter + 1 then some (acknowledgedDetails s σ price)
      else s.brokerIdToOrderDetails.lookup b := by
  have hset := setDetails_lookup (s := s.sentOrder σ.clientOrderId σ.symbol σ.quantity σ.sideIsBuy
    σ.orderTypeStr price (some server)) (s.brokerOrderIdCounter + 1) b
    (acknowledgedDetails s σ price)
  refine hset.trans ?_
  split_ifs with hb
  · rfl
  · exact (Dict.lookup_insert_ite _ _ _ _).trans (if_neg hb)

/-- Orders other than the new one are tracked as before. -/
theorem acknowledgedFor_tracks_of_ne (hb : b ≠ s.brokerOrderIdCounter + 1) :
    (acknowledgedFor s σ price server).Tracks b clientOrderId order ↔
      s.Tracks b clientOrderId order := by
  have hclient : (acknowledgedFor s σ price server).brokerToClientIdMap.lookup b =
      s.brokerToClientIdMap.lookup b := (acknowledgedFor_client_lookup b).trans (if_neg hb)
  have hdetails : (acknowledgedFor s σ price server).brokerIdToOrderDetails.lookup b =
      s.brokerIdToOrderDetails.lookup b := (acknowledgedFor_details_lookup b).trans (if_neg hb)
  constructor
  · rintro ⟨hc, hd⟩
    exact ⟨hclient.symm.trans hc, hdetails.symm.trans hd⟩
  · rintro ⟨hc, hd⟩
    exact ⟨hclient.trans hc, hdetails.trans hd⟩

/-- The new order is tracked. -/
theorem acknowledgedFor_tracks : (acknowledgedFor s σ price server).Tracks
    (s.brokerOrderIdCounter + 1) σ.clientOrderId (acknowledgedDetails s σ price) :=
  ⟨(acknowledgedFor_client_lookup _).trans (if_pos rfl),
    (acknowledgedFor_details_lookup _).trans (if_pos rfl)⟩

/-- A new order keeps the maps in agreement, -/
theorem acknowledgedFor_keyed (h : s.Keyed)
    (hb : s.brokerToClientIdMap.lookup (s.brokerOrderIdCounter + 1) = none) :
    (acknowledgedFor s σ price server).Keyed := by
  have hstored : (s.store (s.brokerOrderIdCounter + 1) (s.nextDetails σ.clientOrderId σ.symbol
      σ.quantity σ.sideIsBuy σ.orderTypeStr price)).Keyed := h.store hb
  have hsent : (s.sentOrder σ.clientOrderId σ.symbol σ.quantity σ.sideIsBuy σ.orderTypeStr price
      (some server)).Keyed := ⟨hstored.owned, hstored.detailed⟩
  have hnew : (s.sentOrder σ.clientOrderId σ.symbol σ.quantity σ.sideIsBuy σ.orderTypeStr price
      (some server)).brokerToClientIdMap.lookup (s.brokerOrderIdCounter + 1) =
        some σ.clientOrderId := (Dict.lookup_insert_ite _ _ _ _).trans (if_pos rfl)
  exact hsent.setDetails hnew _

/-- under a new client id also both ways. -/
theorem acknowledgedFor_indexed (h : s.Indexed)
    (hb : s.brokerToClientIdMap.lookup (s.brokerOrderIdCounter + 1) = none)
    (huntracked : ∀ b, s.brokerToClientIdMap.lookup b ≠ some σ.clientOrderId) :
    (acknowledgedFor s σ price server).Indexed := by
  have hstored : (s.store (s.brokerOrderIdCounter + 1) (s.nextDetails σ.clientOrderId σ.symbol
      σ.quantity σ.sideIsBuy σ.orderTypeStr price)).Indexed := h.store hb huntracked
  exact ⟨acknowledgedFor_keyed h.toKeyed hb, hstored.listed⟩

end acknowledged

/-! ## The accounts -/

/-- The ids with which one more order is booked. -/
def bookAlso (ids : String → List OrderId) (clientOrderId : String) (more : List OrderId) :
    String → List OrderId :=
  fun clientOrderId' => ids clientOrderId' ++ if clientOrderId = clientOrderId' then more else []

/-- The ids of the client's order, with those that have just been booked. -/
theorem bookAlso_self (ids : String → List OrderId) (clientOrderId : String)
    (more : List OrderId) :
    bookAlso ids clientOrderId more clientOrderId = ids clientOrderId ++ more := by
  unfold bookAlso
  rw [if_pos rfl]

/-- The ids of the other orders stay. -/
theorem bookAlso_of_ne (ids : String → List OrderId) {clientOrderId clientOrderId' : String}
    (more : List OrderId) (hne : clientOrderId ≠ clientOrderId') :
    bookAlso ids clientOrderId more clientOrderId' = ids clientOrderId' := by
  unfold bookAlso
  rw [if_neg hne, List.append_nil]

/-- The broker's accounts of the submissions agree with the tape. -/
structure Accounts (subs : List Submission) (ids : String → List OrderId) (tape : Trades)
    (s : BrokerAndServer) : Prop where
  indexed : s.Indexed
  unknown : ∀ clientOrderId, (∀ σ ∈ subs, σ.clientOrderId ≠ clientOrderId) →
    s.confirmationsOf clientOrderId = [] ∧ ids clientOrderId = []
  tracked : ∀ b clientOrderId, s.brokerToClientIdMap.lookup b = some clientOrderId →
    ∃ id : OrderId, (id.toNat : ℤ) = b ∧ ids clientOrderId = [id]
  balanced : ∀ clientOrderId, filledTotal (s.confirmationsOf clientOrderId) =
    ((ids clientOrderId).map (traded tape)).sum
  stages : ∀ σ ∈ subs, Stage s σ

namespace Accounts

variable {subs : List Submission} {ids : String → List OrderId} {tape : Trades}
  {s s' : BrokerAndServer} {σ : Submission} {b : ℤ} {clientOrderId : String}
  {order : OrderDetails}

/-- What the broker tracks is a submitted order that it works. -/
theorem works (h : Accounts subs ids tape s) (htracks : s.Tracks b clientOrderId order) :
    ∃ σ ∈ subs, σ.clientOrderId = clientOrderId ∧ σ.Describes order ∧
      s.Works b clientOrderId order := by
  obtain ⟨id, -, hids⟩ := h.tracked b clientOrderId htracks.client
  obtain ⟨σ, hσ, rfl⟩ : ∃ σ ∈ subs, σ.clientOrderId = clientOrderId := by
    by_contra hnone
    have hempty := (h.unknown clientOrderId fun σ hσ heq => hnone ⟨σ, hσ, heq⟩).2
    rw [hids] at hempty
    cases hempty
  refine ⟨σ, hσ, rfl, ?_⟩
  rcases h.stages σ hσ with ⟨b', order', hdescribes, hworks⟩ | hsettled
  · obtain rfl := h.indexed.eq_of_client htracks.client hworks.client
    obtain rfl := Option.some.inj (htracks.details.symm.trans hworks.details)
    exact ⟨hdescribes, hworks⟩
  · exact absurd htracks.client (hsettled.untracked b)

/-- An unknown client id is in none of the maps. -/
theorem untracked_of_unknown (h : Accounts subs ids tape s)
    (hunknown : ∀ σ ∈ subs, σ.clientOrderId ≠ clientOrderId) :
    ∀ b, s.brokerToClientIdMap.lookup b ≠ some clientOrderId := by
  intro b hb
  obtain ⟨id, -, hids⟩ := h.tracked b clientOrderId hb
  rw [(h.unknown clientOrderId hunknown).2] at hids
  cases hids

/-- Only the maps and the confirmations matter. -/
theorem frame (h : Accounts subs ids tape s)
    (hids : ∀ clientOrderId, s'.clientToBrokerIdMap.lookup clientOrderId =
      s.clientToBrokerIdMap.lookup clientOrderId)
    (hclient : ∀ b, s'.brokerToClientIdMap.lookup b = s.brokerToClientIdMap.lookup b)
    (hdetails : ∀ b, s'.brokerIdToOrderDetails.lookup b = s.brokerIdToOrderDetails.lookup b)
    (hconf : s'.confirmations = s.confirmations) : Accounts subs ids tape s' := by
  have hconf' : ∀ clientOrderId, s'.confirmationsOf clientOrderId =
      s.confirmationsOf clientOrderId := by
    intro clientOrderId
    unfold CppOrderBookBroker.confirmationsOf
    rw [hconf]
  refine ⟨h.indexed.congr hids hclient hdetails, ?_, ?_, ?_, ?_⟩
  · intro clientOrderId hunknown
    rw [hconf']
    exact h.unknown clientOrderId hunknown
  · intro b clientOrderId hb
    rw [hclient] at hb
    exact h.tracked b clientOrderId hb
  · intro clientOrderId
    rw [hconf']
    exact h.balanced clientOrderId
  · intro σ hσ
    apply (h.stages σ hσ).frame
    · intro b
      rw [hclient]
    · intro b _
      exact hdetails b
    · exact hconf' _

/-- Trades that move nothing do not matter. -/
theorem silent (h : Accounts subs ids tape s) {ts : Trades} (hzero : ∀ id, traded ts id = 0) :
    Accounts subs ids (tape ++ ts) s := by
  refine ⟨h.indexed, h.unknown, h.tracked, ?_, h.stages⟩
  intro clientOrderId
  have hsame : traded (tape ++ ts) = traded tape := by
    funext id
    rw [traded_append, hzero, add_zero]
  rw [hsame]
  exact h.balanced clientOrderId

/-- The status of a tracked order can change as long as the order stays open. -/
theorem setStatus (h : Accounts subs ids tape s) (htracks : s.Tracks b clientOrderId order)
    {status : Status} (hgoing : status.isDone = false) :
    Accounts subs ids tape (s.setDetails b { order with status := status }) := by
  obtain ⟨σ, hσ, rfl, hdescribes, hworks⟩ := h.works htracks
  refine ⟨h.indexed.setDetails htracks.client _, h.unknown, h.tracked, h.balanced, ?_⟩
  intro σ' hσ'
  by_cases heq : σ'.clientOrderId = σ.clientOrderId
  · rcases h.stages σ' hσ' with ⟨b', order', hdescribes', hworks'⟩ | hsettled
    · rw [heq] at hworks'
      obtain rfl := h.indexed.eq_of_client htracks.client hworks'.client
      obtain rfl := Option.some.inj (htracks.details.symm.trans hworks'.details)
      left
      refine ⟨b, { order with status := status }, ?_, ?_⟩
      · exact ⟨hdescribes'.symbol, hdescribes'.quantity, hdescribes'.sideIsBuy, hdescribes'.price⟩
      · rw [heq]
        exact hworks'.setStatus hgoing
    · refine absurd ?_ (hsettled.untracked b)
      rw [heq]
      exact htracks.client
  · apply (h.stages σ' hσ').frame
    · intro b'
      exact Iff.rfl
    · intro b' hb'
      refine (setDetails_lookup _ _ _).trans (if_neg ?_)
      rintro rfl
      rw [htracks.client] at hb'
      exact heq (Option.some.inj hb').symm
    · rfl

/-- The new order becomes a working one. -/
theorem markWorking (h : Accounts subs ids tape s) (b : ℤ) :
    Accounts subs ids tape (s.markWorking b) := by
  unfold CppOrderBookBroker.markWorking
  cases hlookup : s.brokerIdToOrderDetails.lookup b with
  | none => exact h
  | some current =>
      obtain ⟨clientOrderId, htracks⟩ := h.indexed.exists_tracks_of_details hlookup
      dsimp only
      split_ifs
      · exact h.setStatus htracks rfl
      · exact h

/-- **The loop over the trades of a reply**, where no order is filled beyond its quantity, none with
an empty client id is filled, and no trade is with an order that the broker does not track. -/
theorem applyFills (h : Accounts subs ids tape s) (ts : Trades)
    (hbound : ∀ b clientOrderId order (id : OrderId), s.Tracks b clientOrderId order →
      (id.toNat : ℤ) = b → order.filledQuantity + traded ts id ≤ order.quantity)
    (hunnamed : ∀ id : OrderId, s.brokerToClientIdMap.lookup (id.toNat : ℤ) = some "" →
      traded ts id = 0)
    (huntracked : ∀ clientOrderId, (∀ b, s.brokerToClientIdMap.lookup b ≠ some clientOrderId) →
      ∀ id ∈ ids clientOrderId, traded ts id = 0) :
    Accounts subs ids (tape ++ ts) (s.applyFills (fillInfos ts)) := by
  have hclient : ∀ {clientOrderId : String} {id : OrderId},
      s.brokerToClientIdMap.lookup (id.toNat : ℤ) = some clientOrderId → clientOrderId = "" →
        ownFills (id.toNat : ℤ) (fillInfos ts) = [] := by
    rintro clientOrderId id hb rfl
    rw [ownFills_eq_nil_iff, totalFilled_ownFills_fillInfos, hunnamed id hb]
    rfl
  refine ⟨h.indexed.applyFills _, ?_, ?_, ?_, ?_⟩
  · intro clientOrderId hunknown
    rw [applyFills_confirmationsOf_of_untracked (h.untracked_of_unknown hunknown)]
    exact h.unknown clientOrderId hunknown
  · intro b clientOrderId hb
    exact h.tracked b clientOrderId (applyFills_client_lookup hb)
  · intro clientOrderId
    have hbalanced := h.balanced clientOrderId
    by_cases htracked : ∃ b, s.brokerToClientIdMap.lookup b = some clientOrderId
    · obtain ⟨b, hb⟩ := htracked
      obtain ⟨order, htracks⟩ := h.indexed.exists_tracks hb
      obtain ⟨σ, hσ, rfl, -, hworks⟩ := h.works htracks
      obtain ⟨id, rfl, hids⟩ := h.tracked b _ hb
      have hle := hbound _ _ order id htracks rfl
      rw [← totalFilled_ownFills_fillInfos] at hle
      rw [hworks.filledTotal_applyFills h.indexed (hclient hb) hle,
        totalFilled_ownFills_fillInfos, hbalanced, hids]
      simp
    · have hnone : ∀ b, s.brokerToClientIdMap.lookup b ≠ some clientOrderId :=
        fun b hb => htracked ⟨b, hb⟩
      have hsame : (ids clientOrderId).map (traded (tape ++ ts)) =
          (ids clientOrderId).map (traded tape) := by
        apply List.map_congr_left
        intro id hid
        rw [traded_append, huntracked clientOrderId hnone id hid, add_zero]
      rw [applyFills_confirmationsOf_of_untracked hnone, hbalanced, hsame]
  · intro σ hσ
    rcases h.stages σ hσ with ⟨b, order, hdescribes, hworks⟩ | hsettled
    · obtain ⟨id, rfl, -⟩ := h.tracked b _ hworks.client
      have hle := hbound _ _ order id hworks.toTracks rfl
      rw [← totalFilled_ownFills_fillInfos] at hle
      rcases hle.lt_or_eq with hlt | heq
      · left
        refine ⟨_, _, ?_, hworks.works_applyFills h.indexed (hclient hworks.client) hlt⟩
        unfold filledBy
        split_ifs
        · exact hdescribes
        · exact ⟨hdescribes.symbol, hdescribes.quantity, hdescribes.sideIsBuy, hdescribes.price⟩
      · right
        have hsettled := hworks.settled_applyFills h.indexed (hclient hworks.client) heq
        rwa [hdescribes.symbol, hdescribes.quantity, hdescribes.sideIsBuy] at hsettled
    · right
      exact hsettled.applyFills _

/-- A last message settles a new order that is in none of the maps. -/
theorem reject (h : Accounts subs ids tape s)
    (hfresh : ∀ σ' ∈ subs, σ'.clientOrderId ≠ σ.clientOrderId) (more : List OrderId)
    (hmore : ∀ id ∈ more, traded tape id = 0) :
    Accounts (subs ++ [σ]) (bookAlso ids σ.clientOrderId more) tape
      (s.confirm (rejection σ.clientOrderId σ.symbol σ.sideIsBuy)) := by
  obtain ⟨hnone, hids⟩ := h.unknown σ.clientOrderId hfresh
  have huntracked := h.untracked_of_unknown hfresh
  have hself : (s.confirm (rejection σ.clientOrderId σ.symbol σ.sideIsBuy)).confirmationsOf
      σ.clientOrderId = s.confirmationsOf σ.clientOrderId ++
        [rejection σ.clientOrderId σ.symbol σ.sideIsBuy] := confirmationsOf_confirm_self rfl
  have hother : ∀ clientOrderId, σ.clientOrderId ≠ clientOrderId →
      (s.confirm (rejection σ.clientOrderId σ.symbol σ.sideIsBuy)).confirmationsOf clientOrderId =
        s.confirmationsOf clientOrderId := fun _ hne => confirmationsOf_confirm_of_ne hne
  refine ⟨h.indexed.confirm _, ?_, ?_, ?_, ?_⟩
  · intro clientOrderId hunknown
    have hne := hunknown σ (List.mem_append_right _ (List.mem_singleton_self σ))
    rw [hother _ hne, bookAlso_of_ne ids more hne]
    exact h.unknown clientOrderId fun σ' hσ' => hunknown σ' (List.mem_append_left _ hσ')
  · intro b clientOrderId hb
    have hne : σ.clientOrderId ≠ clientOrderId := by
      rintro rfl
      exact huntracked b hb
    rw [bookAlso_of_ne ids more hne]
    exact h.tracked b clientOrderId hb
  · intro clientOrderId
    by_cases hc : σ.clientOrderId = clientOrderId
    · obtain rfl := hc
      have hzero : (more.map (traded tape)).sum = 0 := by
        apply List.sum_eq_zero
        intro q hq
        obtain ⟨id, hid, rfl⟩ := List.mem_map.mp hq
        exact hmore id hid
      rw [hself, bookAlso_self, hnone, hids, List.nil_append, List.nil_append, hzero]
      rfl
    · rw [hother _ hc, bookAlso_of_ne ids more hc]
      exact h.balanced clientOrderId
  · intro σ' hσ'
    rcases List.mem_append.mp hσ' with hσ' | hσ'
    · apply (h.stages σ' hσ').frame
      · intro b
        exact Iff.rfl
      · intro b _
        rfl
      · exact hother _ (hfresh σ' hσ').symm
    · rw [List.mem_singleton.mp hσ']
      right
      have hgone : ∀ b, (s.confirm (rejection σ.clientOrderId σ.symbol
          σ.sideIsBuy)).brokerToClientIdMap.lookup b ≠ some σ.clientOrderId := huntracked
      apply CppOrderBookBroker.Settled.of_message hgone hself
      · rw [hnone]
        intro c hc
        cases hc
      · rw [hnone]
        intro c hc
        cases hc
      · exact ⟨rfl, rfl⟩
      · rfl
      · show Status.REJECTED ≠ .FILLED
        decide
      · rfl
      · rw [hnone]
        exact id
      · rw [hnone]
        intro _
        rfl

section register

variable {price : PyFloat} {server : ServerState}

/-- A new order is registered, with an id that the tape does not know. -/
theorem register (h : Accounts subs ids tape s)
    (hfresh : ∀ σ' ∈ subs, σ'.clientOrderId ≠ σ.clientOrderId)
    (hb : s.brokerToClientIdMap.lookup (s.brokerOrderIdCounter + 1) = none)
    (hprice : σ.price = some price) (hpos : 0 < σ.quantity) {id : OrderId}
    (hid : (id.toNat : ℤ) = s.brokerOrderIdCounter + 1) (hnew : traded tape id = 0) :
    Accounts (subs ++ [σ]) (bookAlso ids σ.clientOrderId [id]) tape
      (acknowledgedFor s σ price server) := by
  obtain ⟨hnone, hids⟩ := h.unknown σ.clientOrderId hfresh
  have huntracked := h.untracked_of_unknown hfresh
  have hclient : ∀ b, (acknowledgedFor s σ price server).brokerToClientIdMap.lookup b =
      if b = s.brokerOrderIdCounter + 1 then some σ.clientOrderId
      else s.brokerToClientIdMap.lookup b := acknowledgedFor_client_lookup
  have hconf : ∀ clientOrderId, (acknowledgedFor s σ price server).confirmationsOf clientOrderId =
      s.confirmationsOf clientOrderId := fun _ => rfl
  refine ⟨acknowledgedFor_indexed h.indexed hb huntracked, ?_, ?_, ?_, ?_⟩
  · intro clientOrderId hunknown
    rw [hconf, bookAlso_of_ne ids _ (hunknown σ (List.mem_append_right _ (List.mem_singleton_self σ)))]
    exact h.unknown clientOrderId fun σ' hσ' => hunknown σ' (List.mem_append_left _ hσ')
  · intro b clientOrderId hb'
    rw [hclient] at hb'
    split_ifs at hb' with heq
    · obtain rfl := Option.some.inj hb'
      refine ⟨id, hid.trans heq.symm, ?_⟩
      rw [bookAlso_self, hids, List.nil_append]
    · have hne : σ.clientOrderId ≠ clientOrderId := by
        rintro rfl
        exact huntracked b hb'
      rw [bookAlso_of_ne ids _ hne]
      exact h.tracked b clientOrderId hb'
  · intro clientOrderId
    rw [hconf]
    by_cases hc : σ.clientOrderId = clientOrderId
    · obtain rfl := hc
      rw [bookAlso_self, hnone, hids, List.nil_append, List.map_singleton, List.sum_singleton, hnew]
      rfl
    · rw [bookAlso_of_ne ids _ hc]
      exact h.balanced clientOrderId
  · intro σ' hσ'
    rcases List.mem_append.mp hσ' with hσ' | hσ'
    · have hne := hfresh σ' hσ'
      apply (h.stages σ' hσ').frame
      · intro b
        rw [hclient]
        split_ifs with heq
        · subst heq
          rw [hb]
          constructor
          · intro hsame
            exact absurd (Option.some.inj hsame).symm hne
          · rintro ⟨⟩
        · exact Iff.rfl
      · intro b hb'
        refine (acknowledgedFor_details_lookup b).trans (if_neg ?_)
        rintro rfl
        rw [hb] at hb'
        cases hb'
      · exact hconf _
    · rw [List.mem_singleton.mp hσ']
      left
      refine ⟨_, _, ⟨rfl, rfl, rfl, hprice.symm⟩, acknowledgedFor_tracks, rfl, hpos, ?_, ?_, ?_⟩
      · rw [hconf, hnone]
        intro c hc
        cases hc
      · rw [hconf, hnone]
        intro c hc
        cases hc
      · rw [hconf, hnone]
        rfl

end register

/-- A cancel settles a tracked order. -/
theorem cancel (h : Accounts subs ids tape s) (htracks : s.Tracks b clientOrderId order) :
    Accounts subs ids tape
      ((s.confirm (cancellation clientOrderId b order)).forget clientOrderId b) := by
  obtain ⟨σ, hσ, rfl, -, hworks⟩ := h.works htracks
  have hself : ((s.confirm (cancellation σ.clientOrderId b order)).forget σ.clientOrderId
      b).confirmationsOf σ.clientOrderId = s.confirmationsOf σ.clientOrderId ++
        [cancellation σ.clientOrderId b order] := confirmationsOf_confirm_self rfl
  have hother : ∀ clientOrderId, σ.clientOrderId ≠ clientOrderId →
      ((s.confirm (cancellation σ.clientOrderId b order)).forget σ.clientOrderId
        b).confirmationsOf clientOrderId = s.confirmationsOf clientOrderId :=
    fun _ hne => confirmationsOf_confirm_of_ne hne
  have hclient : ∀ b', ((s.confirm (cancellation σ.clientOrderId b order)).forget σ.clientOrderId
      b).brokerToClientIdMap.lookup b' = if b' = b then none else s.brokerToClientIdMap.lookup b' :=
    fun b' => forget_client_lookup _ _ _
  have hgone : ∀ b', ((s.confirm (cancellation σ.clientOrderId b order)).forget σ.clientOrderId
      b).brokerToClientIdMap.lookup b' ≠ some σ.clientOrderId := by
    intro b' hb'
    rw [hclient] at hb'
    split_ifs at hb' with hne
    exact hne (h.indexed.eq_of_client hb' htracks.client)
  refine ⟨(h.indexed.confirm _).forget htracks.client, ?_, ?_, ?_, ?_⟩
  · intro clientOrderId hunknown
    rw [hother _ (hunknown σ hσ)]
    exact h.unknown clientOrderId hunknown
  · intro b' clientOrderId hb'
    rw [hclient] at hb'
    split_ifs at hb'
    exact h.tracked b' clientOrderId hb'
  · intro clientOrderId
    by_cases hc : σ.clientOrderId = clientOrderId
    · obtain rfl := hc
      rw [hself, filledTotal_append, h.balanced]
      exact add_zero _
    · rw [hother _ hc]
      exact h.balanced clientOrderId
  · intro σ' hσ'
    by_cases heq : σ'.clientOrderId = σ.clientOrderId
    · right
      rcases h.stages σ' hσ' with ⟨b', order', hdescribes', hworks'⟩ | hsettled
      · rw [heq] at hworks' ⊢
        obtain rfl := h.indexed.eq_of_client htracks.client hworks'.client
        obtain rfl := Option.some.inj (htracks.details.symm.trans hworks'.details)
        have hunfinished := hworks.unfinished
        rw [← hdescribes'.symbol, ← hdescribes'.quantity, ← hdescribes'.sideIsBuy]
        refine CppOrderBookBroker.Settled.of_message hgone hself hworks.partials hworks.terms
          ⟨rfl, rfl⟩ rfl ?_ rfl ?_ ?_
        · show Status.CANCELLED ≠ .FILLED
          decide
        · intro _
          rw [hworks.filled]
          exact hunfinished
        · rintro ⟨⟩
      · refine absurd ?_ (hsettled.untracked b)
        rw [heq]
        exact htracks.client
    · apply (h.stages σ' hσ').frame
      · intro b'
        rw [hclient]
        split_ifs with hb'
        · subst hb'
          rw [htracks.client]
          constructor
          · rintro ⟨⟩
          · intro hsame
            exact absurd (Option.some.inj hsame).symm heq
        · exact Iff.rfl
      · intro b' hb'
        refine (forget_details_lookup _ _ _).trans (if_neg ?_)
        rintro rfl
        rw [htracks.client] at hb'
        exact heq (Option.some.inj hb').symm
      · exact hother _ (Ne.symm heq)

end Accounts

end FlowManager.System
