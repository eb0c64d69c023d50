import FlowManager.Broker.Effects
import Mathlib.Algebra.BigOperators.Group.List.Basic
import Mathlib.Algebra.Order.BigOperators.Group.List
import Mathlib.Algebra.Order.Ring.Int

/-!
# The loop over the trades, per order

The legs of a reply name orders in any mix, and what the loop does to one order depends on the
legs that name it and on nothing else: `ownFills` are those legs. An order that is tracked when
the loop starts ends in one of two ways (`applyFills_done`, `applyFills_tracks`): its legs reach
its quantity and it is forgotten, or it stays tracked with the legs added to what was filled. An
order that is not tracked stays so.
-/

namespace FlowManager.Broker

open FlowManager.Lib FlowManager.Server

section fills

variable {ε : Type} {s : CppOrderBookBroker ε} {b : ℤ} {clientOrderId : String}
  {order : OrderDetails}

/-- The legs that fill an order. -/
def ownFills (b : ℤ) (fills : List FillInfo) : List FillInfo :=
  fills.filter fun fill => fill.orderIdFilled = b ∧ 0 < fill.tradedQuantity

/-- The quantity that legs trade. -/
def totalFilled (fills : List FillInfo) : ℤ := (fills.map FillInfo.tradedQuantity).sum

/-- No fills fill nothing. -/
@[simp] theorem totalFilled_nil : totalFilled [] = 0 := rfl

/-- The total of a fill and of those after it. -/
@[simp] theorem totalFilled_cons (fill : FillInfo) (fills : List FillInfo) :
    totalFilled (fill :: fills) = fill.tradedQuantity + totalFilled fills := by
  simp [totalFilled]

/-- A fill of the order is one of its own. -/
theorem ownFills_cons_of_own {fill : FillInfo} (fills : List FillInfo)
    (h : fill.orderIdFilled = b ∧ 0 < fill.tradedQuantity) :
    ownFills b (fill :: fills) = fill :: ownFills b fills :=
  List.filter_cons_of_pos (by simpa using h)

/-- Any other fill is not. -/
theorem ownFills_cons_of_not_own {fill : FillInfo} (fills : List FillInfo)
    (h : ¬(fill.orderIdFilled = b ∧ 0 < fill.tradedQuantity)) :
    ownFills b (fill :: fills) = ownFills b fills :=
  List.filter_cons_of_neg (by simpa using h)

/-- The order's own fills have no negative total. -/
theorem totalFilled_ownFills_nonneg (b : ℤ) (fills : List FillInfo) :
    0 ≤ totalFilled (ownFills b fills) := by
  apply List.sum_nonneg
  intro q hq
  obtain ⟨fill, hfill, rfl⟩ := List.mem_map.mp hq
  have hown := (List.mem_filter.mp hfill).2
  simp only [decide_eq_true_eq] at hown
  exact hown.2.le

/-- Without a leg of its own nothing is filled; with one, something is. -/
theorem ownFills_eq_nil_iff (b : ℤ) (fills : List FillInfo) :
    ownFills b fills = [] ↔ totalFilled (ownFills b fills) = 0 := by
  constructor
  · intro h
    rw [h, totalFilled_nil]
  · intro h
    cases hown : ownFills b fills with
    | nil => rfl
    | cons fill rest =>
        have hmem : fill ∈ ownFills b fills := by
          rw [hown]
          exact List.mem_cons_self
        have hpos := (List.mem_filter.mp hmem).2
        simp only [decide_eq_true_eq] at hpos
        have hrest : ownFills b rest = rest := by
          apply List.filter_eq_self.mpr
          intro fill' hfill'
          have hmem' : fill' ∈ ownFills b fills := by
            rw [hown]
            exact List.mem_cons_of_mem _ hfill'
          exact (List.mem_filter.mp hmem').2
        have hnonneg := totalFilled_ownFills_nonneg b rest
        rw [hrest] at hnonneg
        rw [hown, totalFilled_cons] at h
        omega

/-! ## One leg -/

/-- The broker tracks the order under its broker id. -/
structure CppOrderBookBroker.Tracks (s : CppOrderBookBroker ε) (b : ℤ) (clientOrderId : String)
    (order : OrderDetails) : Prop where
  client : s.brokerToClientIdMap.lookup b = some clientOrderId
  details : s.brokerIdToOrderDetails.lookup b = some order

/-- The details after a write. -/
theorem setDetails_lookup (b b' : ℤ) (o : OrderDetails) :
    (s.setDetails b o).brokerIdToOrderDetails.lookup b' =
      if b' = b then some o else s.brokerIdToOrderDetails.lookup b' :=
  Dict.lookup_insert_ite _ _ _ _

/-- The details after an order has been forgotten. -/
theorem forget_details_lookup (clientOrderId : String) (b b' : ℤ) :
    (s.forget clientOrderId b).brokerIdToOrderDetails.lookup b' =
      if b' = b then none else s.brokerIdToOrderDetails.lookup b' :=
  Dict.lookup_erase_ite _ _ _

/-- The client ids after an order has been forgotten. -/
theorem forget_client_lookup (clientOrderId : String) (b b' : ℤ) :
    (s.forget clientOrderId b).brokerToClientIdMap.lookup b' =
      if b' = b then none else s.brokerToClientIdMap.lookup b' :=
  Dict.lookup_erase_ite _ _ _

/-- A fill of an order without details is ignored. -/
theorem applyFill_of_not_details {fill : FillInfo}
    (h : s.brokerIdToOrderDetails.lookup fill.orderIdFilled = none) : s.applyFill fill = s := by
  unfold CppOrderBookBroker.applyFill
  rw [h]
  cases s.brokerToClientIdMap.lookup fill.orderIdFilled <;> rfl

/-- A leg that moves nothing, or of an order whose client id is empty, is ignored. -/
theorem applyFill_of_ignored {fill : FillInfo}
    (htracks : s.Tracks fill.orderIdFilled clientOrderId order)
    (h : ¬(pyTruthy clientOrderId = true ∧ fill.tradedQuantity > 0)) : s.applyFill fill = s := by
  unfold CppOrderBookBroker.applyFill
  rw [htracks.client, htracks.details]
  exact if_neg h

/-- A fill of a tracked order with a client id is booked. -/
theorem applyFill_of_tracks {fill : FillInfo}
    (htracks : s.Tracks fill.orderIdFilled clientOrderId order) (hclient : clientOrderId ≠ "")
    (hpos : 0 < fill.tradedQuantity) :
    s.applyFill fill = s.fillTracked clientOrderId order fill := by
  unfold CppOrderBookBroker.applyFill
  rw [htracks.client, htracks.details]
  exact if_pos ⟨by simpa [pyTruthy] using hclient, hpos⟩

/-- What a leg can do: nothing, or it fills an order that the broker tracks. -/
theorem applyFill_cases (s : CppOrderBookBroker ε) (fill : FillInfo) :
    s.applyFill fill = s ∨
      ∃ clientOrderId order, s.Tracks fill.orderIdFilled clientOrderId order ∧
        clientOrderId ≠ "" ∧ 0 < fill.tradedQuantity ∧
          s.applyFill fill = s.fillTracked clientOrderId order fill := by
  unfold CppOrderBookBroker.applyFill
  split
  · rename_i clientOrderId order hclient hdetails
    split_ifs with hfills
    · exact Or.inr ⟨clientOrderId, order, ⟨hclient, hdetails⟩, by simpa [pyTruthy] using hfills.1,
        hfills.2, rfl⟩
    · exact Or.inl rfl
  · exact Or.inl rfl

/-- The fill that reaches the quantity. -/
theorem afterFill_done {q : ℤ} (h : order.quantity ≤ order.filledQuantity + q) :
    afterFill order q =
      ({ order with filledQuantity := order.filledQuantity + q, status := .FILLED }, .FILLED) :=
  if_pos h

/-- A fill that does not reach the quantity. -/
theorem afterFill_working {q : ℤ} (h : order.filledQuantity + q < order.quantity)
    (hstatus : order.status ≠ .FILLED) :
    afterFill order q = ({ order with filledQuantity := order.filledQuantity + q,
                                      status := .WORKING }, .PARTIALLY_FILLED) := by
  unfold afterFill
  dsimp only
  rw [if_neg (not_le.mpr h), if_pos hstatus]

/-- A leg leaves the entries of the orders that it does not name. -/
theorem fillTracked_lookup_of_ne {fill : FillInfo} (clientOrderId : String) (order : OrderDetails)
    (hne : b ≠ fill.orderIdFilled) :
    (s.fillTracked clientOrderId order fill).brokerToClientIdMap.lookup b =
        s.brokerToClientIdMap.lookup b ∧
      (s.fillTracked clientOrderId order fill).brokerIdToOrderDetails.lookup b =
        s.brokerIdToOrderDetails.lookup b := by
  simp only [CppOrderBookBroker.fillTracked]
  split_ifs
  · constructor
    · exact (forget_client_lookup _ _ _).trans (if_neg hne)
    · refine (forget_details_lookup _ _ _).trans ((if_neg hne).trans ?_)
      exact (setDetails_lookup _ _ _).trans (if_neg hne)
  · exact ⟨rfl, (setDetails_lookup _ _ _).trans (if_neg hne)⟩

/-- A fill leaves the other orders. -/
theorem applyFill_lookup_of_ne {fill : FillInfo} (hne : b ≠ fill.orderIdFilled) :
    (s.applyFill fill).brokerToClientIdMap.lookup b = s.brokerToClientIdMap.lookup b ∧
      (s.applyFill fill).brokerIdToOrderDetails.lookup b = s.brokerIdToOrderDetails.lookup b := by
  unfold CppOrderBookBroker.applyFill
  split
  · split_ifs
    · exact fillTracked_lookup_of_ne _ _ hne
    · exact ⟨rfl, rfl⟩
  · exact ⟨rfl, rfl⟩

/-! ## All legs -/

/-- Fills are booked one after another. -/
theorem applyFills_cons (fill : FillInfo) (fills : List FillInfo) :
    s.applyFills (fill :: fills) = (s.applyFill fill).applyFills fills := rfl

/-- What every fill of a tracked order keeps, the loop keeps. -/
theorem applyFills_keeps {P : CppOrderBookBroker ε → Prop}
    (hfill : ∀ {s : CppOrderBookBroker ε} {clientOrderId order fill},
      s.Tracks fill.orderIdFilled clientOrderId order → clientOrderId ≠ "" → P s →
        P (s.fillTracked clientOrderId order fill))
    (h : P s) (fills : List FillInfo) : P (s.applyFills fills) := by
  induction fills generalizing s with
  | nil => exact h
  | cons fill fills ih =>
      rw [applyFills_cons]
      apply ih
      rcases applyFill_cases s fill with heq | ⟨clientOrderId, order, htracks, hname, -, heq⟩
      · rwa [heq]
      · rw [heq]
        exact hfill htracks hname h

/-- An order that is not tracked stays so. -/
theorem applyFills_not_details (hnone : s.brokerIdToOrderDetails.lookup b = none)
    (fills : List FillInfo) : (s.applyFills fills).brokerIdToOrderDetails.lookup b = none := by
  induction fills generalizing s with
  | nil => exact hnone
  | cons fill fills ih =>
      rw [applyFills_cons]
      apply ih
      by_cases hb : b = fill.orderIdFilled
      · rw [applyFill_of_not_details (hb ▸ hnone)]
        exact hnone
      · rw [(applyFill_lookup_of_ne hb).2]
        exact hnone

/-- The legs of the order reach its quantity. -/
def Done (order : OrderDetails) (own : List FillInfo) : Prop :=
  own ≠ [] ∧ order.quantity ≤ order.filledQuantity + totalFilled own

/-- Whether fills complete an order is decided. -/
instance (order : OrderDetails) (own : List FillInfo) : Decidable (Done order own) :=
  inferInstanceAs (Decidable (_ ∧ _))

/-- The order with its legs added. -/
def filledBy (order : OrderDetails) (own : List FillInfo) : OrderDetails :=
  if own = [] then order
  else { order with filledQuantity := order.filledQuantity + totalFilled own, status := .WORKING }

/-- A first leg that reaches the quantity, or the other legs on top of it do. -/
theorem done_cons_iff {fill : FillInfo} {fills : List FillInfo} :
    Done order (fill :: ownFills b fills) ↔
      order.quantity ≤ order.filledQuantity + fill.tradedQuantity ∨
        Done { order with filledQuantity := order.filledQuantity + fill.tradedQuantity,
                          status := .WORKING } (ownFills b fills) := by
  have hnonneg := totalFilled_ownFills_nonneg b fills
  have hnil := ownFills_eq_nil_iff b fills
  unfold Done
  rw [totalFilled_cons]
  dsimp only
  constructor
  · rintro ⟨-, hle⟩
    by_cases hnow : order.quantity ≤ order.filledQuantity + fill.tradedQuantity
    · exact .inl hnow
    · right
      refine ⟨fun heq => ?_, by omega⟩
      have := hnil.mp heq
      omega
  · intro h
    refine ⟨List.cons_ne_nil _ _, ?_⟩
    rcases h with h | ⟨-, h⟩ <;> omega

/-- What an order has filled after a fill and those behind it. -/
theorem filledBy_cons (fill : FillInfo) (fills : List FillInfo) :
    filledBy { order with filledQuantity := order.filledQuantity + fill.tradedQuantity,
                          status := .WORKING } fills = filledBy order (fill :: fills) := by
  unfold filledBy
  rw [if_neg (List.cons_ne_nil fill fills), totalFilled_cons]
  split_ifs with hnil
  · rw [hnil, totalFilled_nil, add_zero]
  · rw [← add_assoc]

/-- What a leg of a tracked order does: the order is forgotten, or has the leg added. -/
theorem applyFill_own {fill : FillInfo}
    (htracks : s.Tracks fill.orderIdFilled clientOrderId order) (hclient : clientOrderId ≠ "")
    (hpos : 0 < fill.tradedQuantity) (hstatus : order.status ≠ .FILLED) :
    (order.quantity ≤ order.filledQuantity + fill.tradedQuantity ∧
        (s.applyFill fill).brokerIdToOrderDetails.lookup fill.orderIdFilled = none) ∨
      (order.filledQuantity + fill.tradedQuantity < order.quantity ∧
        (s.applyFill fill).Tracks fill.orderIdFilled clientOrderId
          { order with filledQuantity := order.filledQuantity + fill.tradedQuantity,
                       status := .WORKING }) := by
  rw [applyFill_of_tracks htracks hclient hpos]
  unfold CppOrderBookBroker.fillTracked
  rcases lt_or_ge (order.filledQuantity + fill.tradedQuantity) order.quantity with hlt | hle
  · right
    rw [afterFill_working hlt hstatus]
    exact ⟨hlt, htracks.client, (setDetails_lookup _ _ _).trans (if_pos rfl)⟩
  · left
    rw [afterFill_done hle]
    exact ⟨hle, (forget_details_lookup _ _ _).trans (if_pos rfl)⟩

/-- **What the loop does to a tracked order**: one with a client id, or that no leg names. -/
theorem applyFills_tracks (htracks : s.Tracks b clientOrderId order)
    (hstatus : order.status ≠ .FILLED) (fills : List FillInfo)
    (hclient : clientOrderId = "" → ownFills b fills = []) :
    (Done order (ownFills b fills) ∧
        (s.applyFills fills).brokerIdToOrderDetails.lookup b = none) ∨
      (¬Done order (ownFills b fills) ∧
        (s.applyFills fills).Tracks b clientOrderId (filledBy order (ownFills b fills))) := by
  induction fills generalizing s order with
  | nil =>
      right
      exact ⟨fun h => h.1 rfl, htracks⟩
  | cons fill fills ih =>
      rw [applyFills_cons]
      by_cases hown : fill.orderIdFilled = b ∧ 0 < fill.tradedQuantity
      · rw [ownFills_cons_of_own fills hown] at hclient
        rw [ownFills_cons_of_own fills hown, done_cons_iff, ← filledBy_cons]
        have hname : clientOrderId ≠ "" := fun heq => List.cons_ne_nil _ _ (hclient heq)
        obtain ⟨rfl, hpos⟩ := hown
        rcases applyFill_own htracks hname hpos hstatus with ⟨hle, hgone⟩ | ⟨hlt, htracks'⟩
        · left
          exact ⟨.inl hle, applyFills_not_details hgone fills⟩
        · rcases ih htracks' (show Status.WORKING ≠ .FILLED by decide)
              (fun heq => absurd heq hname) with ⟨hdone, hgone⟩ | ⟨hnot, htracks''⟩
          · exact .inl ⟨.inr hdone, hgone⟩
          · right
            refine ⟨?_, htracks''⟩
            rintro (h | h)
            · omega
            · exact hnot h
      · rw [ownFills_cons_of_not_own fills hown] at hclient ⊢
        by_cases hb : b = fill.orderIdFilled
        · -- a leg of the order that moves nothing
          rw [applyFill_of_ignored (hb ▸ htracks)]
          · exact ih htracks hstatus hclient
          · rintro ⟨-, hpos⟩
            exact hown ⟨hb.symm, hpos⟩
        · refine ih ?_ hstatus hclient
          obtain ⟨hc, hd⟩ := applyFill_lookup_of_ne (s := s) hb
          exact ⟨hc.trans htracks.client, hd.trans htracks.details⟩

/-- With an empty client id the loop does nothing to the order. -/
theorem applyFills_tracks_of_empty (htracks : s.Tracks b "" order) (fills : List FillInfo) :
    (s.applyFills fills).Tracks b "" order := by
  induction fills generalizing s with
  | nil => exact htracks
  | cons fill fills ih =>
      rw [applyFills_cons]
      apply ih
      by_cases hb : b = fill.orderIdFilled
      · rw [applyFill_of_ignored (hb ▸ htracks)]
        · exact htracks
        · rintro ⟨h, -⟩
          cases h
      · obtain ⟨hc, hd⟩ := applyFill_lookup_of_ne (s := s) hb
        exact ⟨hc.trans htracks.client, hd.trans htracks.details⟩

end fills

end FlowManager.Broker
