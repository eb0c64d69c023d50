import FlowManager.Book.Levels

/-!
# Fill-and-kill is good-till-cancel with a cancel at once

`AddOrder` asks `CanMatch` before it takes a fill-and-kill order, and cancels what is left of one
that it took. `fillAndKill_eq_goodTillCancel` says that both together are what a client gets who
submits the same order good till cancel and cancels it at once.

Both ways lead to the same two queues (`acceptOrder_fak_eq`), and the queues determine the book.
-/

namespace FlowManager.Book

open FlowManager.Lib FlowManager.Lib.PriceTime

/-! ## One order, two types -/

/-- The order with another type. -/
def Order.withType (o : Order) (type : OrderType) : Order := { o with orderType := type }

section types

variable {o : Order} {type : OrderType} {s : Sides OrderTerms} {q : ℕ}

/-- The type of an order plays no part in a trade. -/
theorem records_withType (type' : OrderType) {t : Trade} {p : OrderTerms × ℕ}
    (h : t.Records (fillOf (o.withType type).toOrderTerms p)) :
    t.Records (fillOf (o.withType type').toOrderTerms p) := by
  obtain ⟨q, rfl, hq⟩ := h
  refine ⟨q, ?_, ?_⟩
  · unfold fillOf Order.withType
    cases o.side <;> rfl
  · rw [hq]
    unfold fillOf Order.withType
    cases o.side <;> rfl

/-- The sweep of an order does not depend on its type. -/
theorem placeOrder_withType (type type' : OrderType) :
    (placeOrder (o.withType type).toOrderTerms q s).left =
        (placeOrder (o.withType type').toOrderTerms q s).left ∧
      queueOf (placeOrder (o.withType type).toOrderTerms q s).sides o.side.opposite =
        queueOf (placeOrder (o.withType type').toOrderTerms q s).sides o.side.opposite := by
  obtain ⟨-, hleft, hopp, -⟩ := placeOrder_queues (o.withType type).toOrderTerms q s
  obtain ⟨-, hleft', hopp', -⟩ := placeOrder_queues (o.withType type').toOrderTerms q s
  exact ⟨hleft.trans hleft'.symm, hopp.trans hopp'.symm⟩

/-- The trades of an order do not show its type. -/
theorem records_acceptOrder_withType (type' : OrderType) {ts : Trades}
    (h : List.Forall₂ Trade.Records ts (acceptOrder (o.withType type).toOrderTerms q s).fills) :
    List.Forall₂ Trade.Records ts (acceptOrder (o.withType type').toOrderTerms q s).fills := by
  obtain ⟨hfills, -⟩ := placeOrder_queues (o.withType type).toOrderTerms q s
  obtain ⟨hfills', -⟩ := placeOrder_queues (o.withType type').toOrderTerms q s
  rw [acceptOrder_fills, hfills, List.forall₂_map_right_iff] at h
  rw [acceptOrder_fills, hfills', List.forall₂_map_right_iff]
  exact h.imp fun _ _ hrec => records_withType type' hrec

/-- Both ways lead to the same queues. -/
theorem acceptOrder_fak_eq (hunused : Unused s o.orderId) :
    (acceptOrder (o.withType .FillAndKill).toOrderTerms q s).sides =
      withdraw o.orderId (acceptOrder (o.withType .GoodTillCancel).toOrderTerms q s).sides := by
  have hside : ∀ side,
      queueOf (acceptOrder (o.withType .FillAndKill).toOrderTerms q s).sides side =
        queueOf (withdraw o.orderId
          (acceptOrder (o.withType .GoodTillCancel).toOrderTerms q s).sides) side := by
    intro side
    have hfak : Unused s (o.withType .FillAndKill).orderId := hunused
    have hgtc : Unused s (o.withType .GoodTillCancel).orderId := hunused
    rw [queueOf_withdraw]
    rcases side_eq_or side o.side with rfl | rfl
    · -- what is left of the order is taken back
      obtain ⟨-, -, -, hown⟩ := placeOrder_queues (o.withType .GoodTillCancel).toOrderTerms q s
      have hkill := acceptOrder_own (q := q) hfak
      have hrest := acceptOrder_own (q := q) hgtc
      rw [if_neg (by simp [Order.withType])] at hkill
      rw [if_pos (by simp [Order.withType]), hown] at hrest
      refine hkill.trans (Eq.trans ?_ (congrArg _ hrest.symm))
      exact (filter_file (o := (o.withType .GoodTillCancel).toOrderTerms) (hunused o.side)).symm
    · have hkill := acceptOrder_opposite (q := q) hfak
      have hrest := acceptOrder_opposite (q := q) hgtc
      obtain ⟨-, -, hopp, -⟩ := placeOrder_queues (o.withType .GoodTillCancel).toOrderTerms q s
      have hsame := (placeOrder_withType (o := o) (q := q) (s := s) .FillAndKill .GoodTillCancel).2
      refine (hkill.trans hsame).trans (Eq.trans ?_ (congrArg _ hrest.symm))
      symm
      apply List.filter_eq_self.mpr
      intro r hr
      have hr' : r ∈ (sweep _ q (queueOf s o.side.opposite)).queue := hopp ▸ hr
      obtain ⟨r', hmem, hterms, -⟩ := mem_sweep_queue hr'
      rw [← hterms]
      exact decide_eq_true (hunused _ r' hmem)
  exact congrArg₂ Sides.mk (hside .Buy) (hside .Sell)

end types

/-! ## The two ways -/

/-- **Fill-and-kill is good-till-cancel with a cancel at once**: the same trades, the same book
after them, and the same open quantity left in the order. And `CanMatch` says before what an
order does: it will trade or not. -/
theorem fillAndKill_eq_goodTillCancel (cs : List Call) (as : List Answer) (s : Store)
    (hrun : (calls cs).run Store.empty = .returned as s) (o : Order)
    (hid : o.orderId ∉ s.book.ordersMap) :
    ∃ ts pF pG sF sG live sC,
      (call (.addOrder (o.withType .FillAndKill))).run s = .returned (.added ts (some pF)) sF ∧
      (call (.addOrder (o.withType .GoodTillCancel))).run s = .returned (.added ts (some pG)) sG ∧
      (call (.cancelOrder o.orderId)).run sG = .returned (.cancelled live) sC ∧
      SameBook sF sC ∧
      (sF.heap pF).remainingQuantity = (sC.heap pG).remainingQuantity ∧
      (s.book.canMatch o.side o.price = true ↔ ts ≠ []) := by
  obtain ⟨as', s', hrun', hsteps⟩ := calls_steps invariant_empty cs
  obtain ⟨rfl, rfl⟩ : as = as' ∧ s = s' := by
    rw [hrun] at hrun'
    cases hrun'
    exact ⟨rfl, rfl⟩
  have hi := hsteps.invariant invariant_empty
  have hunused := hi.toWellIndexed.unused_iff.mpr hid
  obtain ⟨ts, pF, sF, hrunF, hiF, hF⟩ := call_addOrder hi (o.withType .FillAndKill) hunused
  obtain ⟨ts', pG, sG, hrunG, hiG, hG⟩ := call_addOrder hi (o.withType .GoodTillCancel) hunused
  obtain ⟨sC, hrunC, hiC, hsidesC, hheapC⟩ := call_cancelOrder hiG o.orderId
  obtain rfl : ts = ts' := records_unique (records_acceptOrder_withType _ hF.records) hG.records
  refine ⟨ts, pF, pG, sF, sG, _, sC, hrunF, hrunG, hrunC, ?_, ?_, ?_⟩
  · apply sameBook_of_sides hiF hiC
    rw [hF.sides, hsidesC, hG.sides]
    exact acceptOrder_fak_eq hunused
  · apply UInt32.toNat_inj.mp
    rw [hheapC, hF.remaining, hG.remaining, acceptOrder_left, acceptOrder_left]
    exact congrArg (Option.getD · 0) (placeOrder_withType _ _).1
  · have hnil : ts = [] ↔
        (acceptOrder (o.withType .FillAndKill).toOrderTerms o.remainingQuantity.toNat
          s.sides).fills = [] := by
      rw [← List.length_eq_zero_iff, ← List.length_eq_zero_iff, hF.records.length_eq]
      exact Iff.rfl
    rw [Ne, hnil, acceptOrder_fills_eq_nil_iff]
    refine (canMatch_iff_queue hi (o.withType .FillAndKill).toOrderTerms).trans ?_
    simp only [not_forall, not_not, exists_prop]

/-- A buy that takes the only ask in reach and has a rest to kill. -/
theorem fillAndKill_eq_goodTillCancel_two_asks :
    let o := Order.new .FillAndKill 3 .Buy 100 9
    let cs : List Call := [.addOrder (Order.new .GoodTillCancel 1 .Sell 100 4),
      .addOrder (Order.new .GoodTillCancel 2 .Sell 101 5)]
    ∃ as s, (calls cs).run Store.empty = .returned as s ∧
      o.orderId ∉ s.book.ordersMap ∧
      ∃ ts pF pG sF sG live sC,
        (call (.addOrder (o.withType .FillAndKill))).run s = .returned (.added ts (some pF)) sF ∧
        (call (.addOrder (o.withType .GoodTillCancel))).run s = .returned (.added ts (some pG)) sG ∧
        (call (.cancelOrder o.orderId)).run sG = .returned (.cancelled live) sC ∧
        SameBook sF sC ∧
        (sF.heap pF).remainingQuantity = (sC.heap pG).remainingQuantity ∧
        (s.book.canMatch o.side o.price = true ↔ ts ≠ []) := by
  intro o cs
  exact ⟨_, _, rfl, by decide, fillAndKill_eq_goodTillCancel cs _ _ rfl o (by decide)⟩

end FlowManager.Book
