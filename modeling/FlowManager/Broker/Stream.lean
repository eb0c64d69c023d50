import FlowManager.Broker.Maps

/-!
# What the broker passes on about an order

`confirmationsOf` are the confirmations that carry a client id. The legs of a reply add the
confirmations of `fillStream` to those of the order they name and none to those of another
(`applyFills_confirmationsOf`, `applyFills_confirmationsOf_of_untracked`).

Between two calls an order is in one of two stages. While the broker works it (`Works`), what has
been passed on are partial fills that add up to `filled_quantity`. Once it is `Settled`, one
terminal message has followed and the order is in none of the maps. Legs that do not fill an order
beyond its quantity take it from the first stage to one of the two (`Works.applyFills`).
-/

namespace FlowManager.Broker

open FlowManager.Lib FlowManager.Server

section stream

variable {ε : Type} {s : CppOrderBookBroker ε} {b : ℤ} {clientOrderId : String}
  {order : OrderDetails}

/-- What has been passed on about an order. -/
def CppOrderBookBroker.confirmationsOf (s : CppOrderBookBroker ε) (clientOrderId : String) :
    List TradeConfirmationMessage :=
  s.confirmations.filter fun c => c.clientOrderId = clientOrderId

/-- The quantity that confirmations report as filled. -/
def filledTotal (cs : List TradeConfirmationMessage) : ℤ := (cs.map (·.filledQuantity)).sum

/-- No confirmations have filled nothing. -/
@[simp] theorem filledTotal_nil : filledTotal [] = 0 := rfl

/-- What a confirmation and those behind it have filled. -/
@[simp] theorem filledTotal_cons (c : TradeConfirmationMessage)
    (cs : List TradeConfirmationMessage) :
    filledTotal (c :: cs) = c.filledQuantity + filledTotal cs := by
  simp [filledTotal]

/-- What confirmations in two parts have filled. -/
@[simp] theorem filledTotal_append (cs cs' : List TradeConfirmationMessage) :
    filledTotal (cs ++ cs') = filledTotal cs + filledTotal cs' := by
  simp [filledTotal]

/-- The confirmations of an order after one more. -/
theorem confirmationsOf_confirm (c : TradeConfirmationMessage) (clientOrderId : String) :
    (s.confirm c).confirmationsOf clientOrderId =
      s.confirmationsOf clientOrderId ++ if c.clientOrderId = clientOrderId then [c] else [] := by
  unfold CppOrderBookBroker.confirmationsOf CppOrderBookBroker.confirm
  rw [List.filter_append, List.filter_singleton]
  simp

/-- One more confirmation of the order. -/
theorem confirmationsOf_confirm_self {c : TradeConfirmationMessage}
    (hc : c.clientOrderId = clientOrderId) :
    (s.confirm c).confirmationsOf clientOrderId = s.confirmationsOf clientOrderId ++ [c] := by
  rw [confirmationsOf_confirm, if_pos hc]

/-- A confirmation of another order. -/
theorem confirmationsOf_confirm_of_ne {c : TradeConfirmationMessage}
    (hc : c.clientOrderId ≠ clientOrderId) :
    (s.confirm c).confirmationsOf clientOrderId = s.confirmationsOf clientOrderId := by
  rw [confirmationsOf_confirm, if_neg hc, List.append_nil]

/-! ## The confirmations of a loop -/

/-- What the legs of an order make the loop pass on, up to the one that fills it. -/
def fillStream (clientOrderId : String) : OrderDetails → List FillInfo →
    List TradeConfirmationMessage
  | _, [] => []
  | order, fill :: fills =>
      fillConfirmation clientOrderId (afterFill order fill.tradedQuantity).1 fill
          (afterFill order fill.tradedQuantity).2 ::
        if (afterFill order fill.tradedQuantity).2 = .FILLED then []
        else fillStream clientOrderId (afterFill order fill.tradedQuantity).1 fills

/-- The confirmations of an order after a fill. -/
theorem fillTracked_confirmationsOf (clientOrderId : String) (order : OrderDetails)
    (fill : FillInfo) (clientOrderId' : String) :
    (s.fillTracked clientOrderId order fill).confirmationsOf clientOrderId' =
      s.confirmationsOf clientOrderId' ++
        if clientOrderId = clientOrderId' then
          [fillConfirmation clientOrderId (afterFill order fill.tradedQuantity).1 fill
            (afterFill order fill.tradedQuantity).2]
        else [] := by
  have hconfirm := confirmationsOf_confirm (s := s.setDetails fill.orderIdFilled
    (afterFill order fill.tradedQuantity).1)
    (fillConfirmation clientOrderId (afterFill order fill.tradedQuantity).1 fill
      (afterFill order fill.tradedQuantity).2) clientOrderId'
  unfold CppOrderBookBroker.fillTracked
  dsimp only
  by_cases hstatus : (afterFill order fill.tradedQuantity).2 = .FILLED
  · rw [if_pos hstatus]
    exact hconfirm
  · rw [if_neg hstatus]
    exact hconfirm

/-- A leg passes nothing on about an order that it does not name. -/
theorem applyFill_confirmationsOf_of_ne {fill : FillInfo}
    (hne : s.brokerToClientIdMap.lookup fill.orderIdFilled ≠ some clientOrderId) :
    (s.applyFill fill).confirmationsOf clientOrderId = s.confirmationsOf clientOrderId := by
  unfold CppOrderBookBroker.applyFill
  split
  · rename_i clientOrderId' order hclient _
    split_ifs
    · rw [fillTracked_confirmationsOf, if_neg, List.append_nil]
      rintro rfl
      exact hne hclient
    · rfl
  · rfl

/-- The loop passes nothing on about an order that is not tracked. -/
theorem applyFills_confirmationsOf_of_untracked
    (hnone : ∀ b, s.brokerToClientIdMap.lookup b ≠ some clientOrderId) (fills : List FillInfo) :
    (s.applyFills fills).confirmationsOf clientOrderId = s.confirmationsOf clientOrderId := by
  induction fills generalizing s with
  | nil => rfl
  | cons fill fills ih =>
      rw [applyFills_cons, ih, applyFill_confirmationsOf_of_ne (hnone _)]
      intro b hb
      exact hnone b (applyFill_client_lookup hb)

/-- The loop passes nothing on under the empty client id. -/
theorem applyFills_confirmationsOf_of_empty (fills : List FillInfo) :
    (s.applyFills fills).confirmationsOf "" = s.confirmationsOf "" := by
  refine applyFills_keeps (P := fun s' => s'.confirmationsOf "" = s.confirmationsOf "") ?_ rfl fills
  intro s' clientOrderId order fill _ hname hsame
  rw [fillTracked_confirmationsOf, if_neg hname, List.append_nil, hsame]

/-- **What the loop passes on about a tracked order**: one with a client id, or that no leg
names. -/
theorem applyFills_confirmationsOf (hi : s.Indexed) (htracks : s.Tracks b clientOrderId order)
    (hstatus : order.status ≠ .FILLED) (fills : List FillInfo)
    (hclient : clientOrderId = "" → ownFills b fills = []) :
    (s.applyFills fills).confirmationsOf clientOrderId =
      s.confirmationsOf clientOrderId ++ fillStream clientOrderId order (ownFills b fills) := by
  induction fills generalizing s order with
  | nil => exact (List.append_nil _).symm
  | cons fill fills ih =>
      rw [applyFills_cons]
      by_cases hown : fill.orderIdFilled = b ∧ 0 < fill.tradedQuantity
      · rw [ownFills_cons_of_own fills hown] at hclient
        have hname : clientOrderId ≠ "" := fun heq => List.cons_ne_nil _ _ (hclient heq)
        obtain ⟨rfl, hpos⟩ := hown
        have hconf := fillTracked_confirmationsOf (s := s) clientOrderId order fill clientOrderId
        rw [← applyFill_of_tracks htracks hname hpos, if_pos rfl] at hconf
        rw [ownFills_cons_of_own fills ⟨rfl, hpos⟩, fillStream]
        rcases applyFill_own htracks hname hpos hstatus with ⟨hle, hgone⟩ | ⟨hlt, htracks'⟩
        · -- the order is forgotten, and later legs of it are ignored
          rw [afterFill_done hle] at hconf ⊢
          rw [if_pos rfl, applyFills_confirmationsOf_of_untracked, hconf]
          intro b' hb'
          obtain rfl := hi.eq_of_client htracks.client (applyFill_client_lookup hb')
          obtain ⟨_, htracks'⟩ := (hi.applyFill fill).exists_tracks hb'
          rw [htracks'.details] at hgone
          cases hgone
        · rw [afterFill_working hlt hstatus] at hconf ⊢
          rw [if_neg (show Status.PARTIALLY_FILLED ≠ .FILLED by decide),
            ih (hi.applyFill fill) htracks' (show Status.WORKING ≠ .FILLED by decide)
              (fun heq => absurd heq hname), hconf, List.append_assoc, List.singleton_append]
      · rw [ownFills_cons_of_not_own fills hown] at hclient ⊢
        by_cases hb : b = fill.orderIdFilled
        · -- a leg of the order that moves nothing
          rw [applyFill_of_ignored (hb ▸ htracks)]
          · exact ih hi htracks hstatus hclient
          · rintro ⟨-, hpos⟩
            exact hown ⟨hb.symm, hpos⟩
        · obtain ⟨hc, hd⟩ := applyFill_lookup_of_ne (s := s) hb
          rw [ih (hi.applyFill fill) ⟨hc.trans htracks.client, hd.trans htracks.details⟩ hstatus
            hclient, applyFill_confirmationsOf_of_ne]
          intro heq
          exact hb (hi.eq_of_client htracks.client heq)

/-- Marking an order as working passes nothing on. -/
theorem markWorking_confirmationsOf (b : ℤ) (clientOrderId : String) :
    (s.markWorking b).confirmationsOf clientOrderId = s.confirmationsOf clientOrderId := by
  rcases markWorking_cases s b with heq | ⟨_, -, heq⟩ <;> rw [heq]
  rfl

/-! ## Partial fills and the one that completes -/

/-- The confirmations of fills carry the symbol and the side of the order. -/
theorem fillStream_terms (clientOrderId : String) (order : OrderDetails) (own : List FillInfo) :
    ∀ c ∈ fillStream clientOrderId order own,
      c.symbol = order.symbol ∧ c.sideIsBuy = order.sideIsBuy := by
  induction own generalizing order with
  | nil => simp [fillStream]
  | cons fill own ih =>
      have hterms : (afterFill order fill.tradedQuantity).1.symbol = order.symbol ∧
          (afterFill order fill.tradedQuantity).1.sideIsBuy = order.sideIsBuy := by
        unfold afterFill
        dsimp only
        split_ifs <;> exact ⟨rfl, rfl⟩
      intro c hc
      rw [fillStream, List.mem_cons] at hc
      rcases hc with rfl | hc
      · exact hterms
      · split_ifs at hc
        · cases hc
        · obtain ⟨hsymbol, hside⟩ := ih _ c hc
          exact ⟨hsymbol.trans hterms.1, hside.trans hterms.2⟩

/-- Partial fills and nothing else. -/
def AllPartial (cs : List TradeConfirmationMessage) : Prop :=
  ∀ c ∈ cs, c.status = .PARTIALLY_FILLED

/-- Partial fills and then a last message. -/
def EndsWith (status : Status) (cs : List TradeConfirmationMessage) : Prop :=
  ∃ partials last, cs = partials ++ [last] ∧ AllPartial partials ∧ last.status = status

/-- Partial fills in two parts. -/
theorem AllPartial.append {cs cs' : List TradeConfirmationMessage} (h : AllPartial cs)
    (h' : AllPartial cs') : AllPartial (cs ++ cs') := by
  intro c hc
  rcases List.mem_append.mp hc with hc | hc
  · exact h c hc
  · exact h' c hc

/-- Partial fills and one confirmation end with that. -/
theorem AllPartial.endsWith {cs : List TradeConfirmationMessage} (h : AllPartial cs)
    (c : TradeConfirmationMessage) : EndsWith c.status (cs ++ [c]) :=
  ⟨cs, c, rfl, h, rfl⟩

/-- Partial fills and confirmations that end with a status end with it. -/
theorem AllPartial.append_endsWith {cs cs' : List TradeConfirmationMessage} {status : Status}
    (h : AllPartial cs) (h' : EndsWith status cs') : EndsWith status (cs ++ cs') := by
  obtain ⟨partials, last, rfl, hpartials, hlast⟩ := h'
  exact ⟨cs ++ partials, last, by rw [List.append_assoc], h.append hpartials, hlast⟩

/-- Legs that do not fill an order beyond its quantity are passed on in full. -/
theorem filledTotal_fillStream (hstatus : order.status ≠ .FILLED) (fills : List FillInfo)
    (hbound : order.filledQuantity + totalFilled (ownFills b fills) ≤ order.quantity) :
    filledTotal (fillStream clientOrderId order (ownFills b fills)) =
      totalFilled (ownFills b fills) := by
  induction fills generalizing order with
  | nil => rfl
  | cons fill fills ih =>
      by_cases hown : fill.orderIdFilled = b ∧ 0 < fill.tradedQuantity
      · rw [ownFills_cons_of_own fills hown, totalFilled_cons] at hbound ⊢
        rw [fillStream]
        rcases lt_or_ge (order.filledQuantity + fill.tradedQuantity) order.quantity with hlt | hle
        · rw [afterFill_working hlt hstatus, if_neg (show Status.PARTIALLY_FILLED ≠ .FILLED by decide),
            filledTotal_cons, ih (show Status.WORKING ≠ .FILLED by decide)]
          · rfl
          · show order.filledQuantity + fill.tradedQuantity + _ ≤ order.quantity
            omega
        · -- the order is filled, so nothing of it is left for a later leg
          have hrest := totalFilled_ownFills_nonneg b fills
          rw [afterFill_done hle, if_pos rfl, filledTotal_cons, filledTotal_nil]
          show fill.tradedQuantity + 0 = _
          omega
      · rw [ownFills_cons_of_not_own fills hown] at hbound ⊢
        exact ih hstatus hbound

/-- Short of the quantity every fill is a partial one. -/
theorem fillStream_allPartial (hstatus : order.status ≠ .FILLED) (fills : List FillInfo)
    (hnot : ¬Done order (ownFills b fills)) :
    AllPartial (fillStream clientOrderId order (ownFills b fills)) := by
  induction fills generalizing order with
  | nil =>
      intro c hc
      cases hc
  | cons fill fills ih =>
      by_cases hown : fill.orderIdFilled = b ∧ 0 < fill.tradedQuantity
      · rw [ownFills_cons_of_own fills hown] at hnot ⊢
        rw [done_cons_iff, not_or, not_le] at hnot
        rw [fillStream, afterFill_working hnot.1 hstatus,
          if_neg (show Status.PARTIALLY_FILLED ≠ .FILLED by decide)]
        intro c hc
        rcases List.mem_cons.mp hc with rfl | hc
        · rfl
        · exact ih (show Status.WORKING ≠ .FILLED by decide) hnot.2 c hc
      · rw [ownFills_cons_of_not_own fills hown] at hnot ⊢
        exact ih hstatus hnot

/-- Once the quantity is reached the last fill says so. -/
theorem fillStream_endsWith (hstatus : order.status ≠ .FILLED) (fills : List FillInfo)
    (hdone : Done order (ownFills b fills)) :
    EndsWith .FILLED (fillStream clientOrderId order (ownFills b fills)) := by
  induction fills generalizing order with
  | nil => exact absurd rfl hdone.1
  | cons fill fills ih =>
      by_cases hown : fill.orderIdFilled = b ∧ 0 < fill.tradedQuantity
      · rw [ownFills_cons_of_own fills hown] at hdone ⊢
        rw [fillStream]
        rcases lt_or_ge (order.filledQuantity + fill.tradedQuantity) order.quantity with hlt | hle
        · rw [afterFill_working hlt hstatus,
            if_neg (show Status.PARTIALLY_FILLED ≠ .FILLED by decide)]
          have hrest := (done_cons_iff.mp hdone).resolve_left (not_le.mpr hlt)
          have hpartial : AllPartial [fillConfirmation clientOrderId
              { order with filledQuantity := order.filledQuantity + fill.tradedQuantity,
                           status := .WORKING } fill .PARTIALLY_FILLED] := by
            intro c hc
            rw [List.mem_singleton.mp hc]
            rfl
          exact hpartial.append_endsWith (ih (show Status.WORKING ≠ .FILLED by decide) hrest)
        · rw [afterFill_done hle, if_pos rfl]
          exact ⟨[], _, rfl, fun c hc => (List.not_mem_nil hc).elim, rfl⟩
      · rw [ownFills_cons_of_not_own fills hown] at hdone ⊢
        exact ih hstatus hdone

/-! ## The two stages of an order -/

/-- The broker works the order, and what it has passed on are the partial fills so far. -/
structure CppOrderBookBroker.Works (s : CppOrderBookBroker ε) (b : ℤ) (clientOrderId : String)
    (order : OrderDetails) : Prop extends s.Tracks b clientOrderId order where
  going : order.status.isDone = false
  unfinished : order.filledQuantity < order.quantity
  partials : AllPartial (s.confirmationsOf clientOrderId)
  terms : ∀ c ∈ s.confirmationsOf clientOrderId,
    c.symbol = order.symbol ∧ c.sideIsBuy = order.sideIsBuy
  filled : filledTotal (s.confirmationsOf clientOrderId) = order.filledQuantity

/-- The broker has no entry for the order, and has passed on a terminal message that says how it
ended. -/
structure CppOrderBookBroker.Settled (s : CppOrderBookBroker ε) (clientOrderId symbol : String)
    (quantity : ℤ) (sideIsBuy : Bool) : Prop where
  untracked : ∀ b, s.brokerToClientIdMap.lookup b ≠ some clientOrderId
  ends : ∃ status, status.isTerminal = true ∧ EndsWith status (s.confirmationsOf clientOrderId) ∧
    (0 < quantity →
      (status = .FILLED ↔ filledTotal (s.confirmationsOf clientOrderId) = quantity)) ∧
    (status = .REJECTED → filledTotal (s.confirmationsOf clientOrderId) = 0)
  terms : ∀ c ∈ s.confirmationsOf clientOrderId, c.symbol = symbol ∧ c.sideIsBuy = sideIsBuy

/-- An order that goes on is not filled. -/
theorem status_ne_of_going (h : order.status.isDone = false) : order.status ≠ .FILLED := by
  intro heq
  rw [heq] at h
  cases h

section stages

variable {s' : CppOrderBookBroker ε} {symbol : String} {quantity : ℤ} {sideIsBuy : Bool}

/-- A change elsewhere leaves the stage of an order. -/
theorem CppOrderBookBroker.Works.frame (h : s.Works b clientOrderId order)
    (hclient : s'.brokerToClientIdMap.lookup b = s.brokerToClientIdMap.lookup b)
    (hdetails : s'.brokerIdToOrderDetails.lookup b = s.brokerIdToOrderDetails.lookup b)
    (hconf : s'.confirmationsOf clientOrderId = s.confirmationsOf clientOrderId) :
    s'.Works b clientOrderId order := by
  refine ⟨⟨hclient.trans h.client, hdetails.trans h.details⟩, h.going, h.unfinished, ?_, ?_, ?_⟩
  · rw [hconf]
    exact h.partials
  · rw [hconf]
    exact h.terms
  · rw [hconf]
    exact h.filled

/-- The status of an order that stays open can change. -/
theorem CppOrderBookBroker.Works.setStatus (h : s.Works b clientOrderId order) {status : Status}
    (hgoing : status.isDone = false) :
    (s.setDetails b { order with status := status }).Works b clientOrderId
      { order with status := status } where
  client := h.client
  details := (setDetails_lookup _ _ _).trans (if_pos rfl)
  going := hgoing
  unfinished := h.unfinished
  partials := h.partials
  terms := h.terms
  filled := h.filled

/-- What is settled stays so while its id and its confirmations do. -/
theorem CppOrderBookBroker.Settled.frame (h : s.Settled clientOrderId symbol quantity sideIsBuy)
    (hclient : ∀ b, s'.brokerToClientIdMap.lookup b = some clientOrderId →
      s.brokerToClientIdMap.lookup b = some clientOrderId)
    (hconf : s'.confirmationsOf clientOrderId = s.confirmationsOf clientOrderId) :
    s'.Settled clientOrderId symbol quantity sideIsBuy := by
  refine ⟨fun b hb => h.untracked b (hclient b hb), ?_, ?_⟩
  · rw [hconf]
    exact h.ends
  · rw [hconf]
    exact h.terms

/-- A last message settles an order that is in none of the maps. -/
theorem CppOrderBookBroker.Settled.of_message {c : TradeConfirmationMessage}
    (hclient : ∀ b, s'.brokerToClientIdMap.lookup b ≠ some clientOrderId)
    (hconf : s'.confirmationsOf clientOrderId = s.confirmationsOf clientOrderId ++ [c])
    (hpartials : AllPartial (s.confirmationsOf clientOrderId))
    (hterms : ∀ c ∈ s.confirmationsOf clientOrderId, c.symbol = symbol ∧ c.sideIsBuy = sideIsBuy)
    (hc : c.symbol = symbol ∧ c.sideIsBuy = sideIsBuy) (hterminal : c.status.isTerminal = true)
    (hnot : c.status ≠ .FILLED) (hzero : c.filledQuantity = 0)
    (hbelow : 0 < quantity → filledTotal (s.confirmationsOf clientOrderId) < quantity)
    (hrejected : c.status = .REJECTED → filledTotal (s.confirmationsOf clientOrderId) = 0) :
    s'.Settled clientOrderId symbol quantity sideIsBuy := by
  have htotal : filledTotal (s'.confirmationsOf clientOrderId) =
      filledTotal (s.confirmationsOf clientOrderId) := by
    rw [hconf, filledTotal_append, filledTotal_cons, filledTotal_nil, hzero]
    omega
  refine ⟨hclient, ⟨c.status, hterminal, ?_, ?_, ?_⟩, ?_⟩
  · rw [hconf]
    exact hpartials.endsWith c
  · intro hpos
    rw [htotal]
    have := hbelow hpos
    exact ⟨fun h => absurd h hnot, fun h => by omega⟩
  · rw [htotal]
    exact hrejected
  · intro c' hc'
    rw [hconf] at hc'
    rcases List.mem_append.mp hc' with hc' | hc'
    · exact hterms c' hc'
    · rw [List.mem_singleton.mp hc']
      exact hc

/-- The loop leaves a settled order. -/
theorem CppOrderBookBroker.Settled.applyFills (h : s.Settled clientOrderId symbol quantity sideIsBuy)
    (fills : List FillInfo) :
    (s.applyFills fills).Settled clientOrderId symbol quantity sideIsBuy :=
  h.frame (fun _ => applyFills_client_lookup)
    (applyFills_confirmationsOf_of_untracked h.untracked fills)

/-- The loop passes on the legs of an order that the broker works. -/
theorem CppOrderBookBroker.Works.filledTotal_applyFills (h : s.Works b clientOrderId order)
    (hi : s.Indexed) {fills : List FillInfo} (hclient : clientOrderId = "" → ownFills b fills = [])
    (hbound : order.filledQuantity + totalFilled (ownFills b fills) ≤ order.quantity) :
    filledTotal ((s.applyFills fills).confirmationsOf clientOrderId) =
      filledTotal (s.confirmationsOf clientOrderId) + totalFilled (ownFills b fills) := by
  have hstatus := status_ne_of_going h.going
  rw [applyFills_confirmationsOf hi h.toTracks hstatus fills hclient, filledTotal_append,
    filledTotal_fillStream hstatus fills hbound]

/-- The legs reach the quantity: the order is settled as filled. -/
theorem CppOrderBookBroker.Works.settled_applyFills (h : s.Works b clientOrderId order)
    (hi : s.Indexed) {fills : List FillInfo} (hclient : clientOrderId = "" → ownFills b fills = [])
    (hbound : order.filledQuantity + totalFilled (ownFills b fills) = order.quantity) :
    (s.applyFills fills).Settled clientOrderId order.symbol order.quantity order.sideIsBuy := by
  have hstatus := status_ne_of_going h.going
  have hconf := applyFills_confirmationsOf hi h.toTracks hstatus fills hclient
  have htotal := h.filledTotal_applyFills hi hclient hbound.le
  have hunfinished := h.unfinished
  have hdone : Done order (ownFills b fills) := by
    refine ⟨fun hnil => ?_, hbound.ge⟩
    rw [hnil, totalFilled_nil] at hbound
    omega
  rcases applyFills_tracks h.toTracks hstatus fills hclient with ⟨-, hgone⟩ | ⟨hnot, -⟩
  · refine ⟨?_, ⟨.FILLED, rfl, ?_, ?_, ?_⟩, ?_⟩
    · intro b' hb'
      obtain rfl := hi.eq_of_client h.client (applyFills_client_lookup hb')
      obtain ⟨_, htracks'⟩ := (hi.applyFills fills).exists_tracks hb'
      rw [htracks'.details] at hgone
      cases hgone
    · rw [hconf]
      exact h.partials.append_endsWith (fillStream_endsWith hstatus fills hdone)
    · intro _
      rw [htotal, h.filled]
      exact ⟨fun _ => hbound, fun _ => rfl⟩
    · rintro ⟨⟩
    · intro c hc
      rw [hconf] at hc
      rcases List.mem_append.mp hc with hc | hc
      · exact h.terms c hc
      · exact fillStream_terms _ _ _ c hc
  · exact absurd hdone hnot

/-- The legs fall short of the quantity: the broker goes on working the order. -/
theorem CppOrderBookBroker.Works.works_applyFills (h : s.Works b clientOrderId order)
    (hi : s.Indexed) {fills : List FillInfo} (hclient : clientOrderId = "" → ownFills b fills = [])
    (hbound : order.filledQuantity + totalFilled (ownFills b fills) < order.quantity) :
    (s.applyFills fills).Works b clientOrderId (filledBy order (ownFills b fills)) := by
  have hstatus := status_ne_of_going h.going
  have hconf := applyFills_confirmationsOf hi h.toTracks hstatus fills hclient
  have htotal := h.filledTotal_applyFills hi hclient hbound.le
  have hnot : ¬Done order (ownFills b fills) := fun hdone => absurd hdone.2 (not_le.mpr hbound)
  have hnil := (ownFills_eq_nil_iff b fills).mp
  rcases applyFills_tracks h.toTracks hstatus fills hclient with ⟨hdone, -⟩ | ⟨-, htracks⟩
  · exact absurd hdone hnot
  refine ⟨htracks, ?_, ?_, ?_, ?_, ?_⟩
  · unfold filledBy
    split_ifs
    · exact h.going
    · rfl
  · unfold filledBy
    split_ifs
    · exact h.unfinished
    · exact hbound
  · rw [hconf]
    exact h.partials.append (fillStream_allPartial hstatus fills hnot)
  · intro c hc
    have hterms : (filledBy order (ownFills b fills)).symbol = order.symbol ∧
        (filledBy order (ownFills b fills)).sideIsBuy = order.sideIsBuy := by
      unfold filledBy
      split_ifs <;> exact ⟨rfl, rfl⟩
    rw [hterms.1, hterms.2]
    rw [hconf] at hc
    rcases List.mem_append.mp hc with hc | hc
    · exact h.terms c hc
    · exact fillStream_terms _ _ _ c hc
  · rw [htotal, h.filled]
    unfold filledBy
    split_ifs with hown
    · rw [hnil hown, add_zero]
    · rfl

end stages

end stream

end FlowManager.Broker
