import FlowManager.Book.FlatBook
import FlowManager.Lib.Reach

/-!
# The two queues of a book, said once for both sides

`placeOrder` and `acceptOrder` treat a bid and an ask in two branches that mirror each other.
`queueOf` names a queue by its side, so that what an order does to the opposite queue and to its
own is one statement (`placeOrder_queues`, `acceptOrder_opposite`, `acceptOrder_own`).

`Handled` is what `AddOrder` has done with an order that it handed back, as far as the queues show:
it is the same whether the order was turned away or taken (`CallStep.handled`).
-/

namespace FlowManager.Book

open FlowManager.Lib FlowManager.Lib.PriceTime

/-- One of the two queues. -/
def queueOf (s : Sides OrderTerms) : Side → List (Resting OrderTerms)
  | .Buy => s.bids
  | .Sell => s.asks

/-- The id is not in the queues. -/
def Unused (s : Sides OrderTerms) (id : OrderId) : Prop :=
  ∀ side, ∀ r ∈ queueOf s side, r.terms.orderId ≠ id

/-- A side is the side of an order or the other one. -/
theorem side_eq_or (side side' : Side) : side = side' ∨ side = side'.opposite := by
  cases side <;> cases side' <;> simp [Side.opposite]

section sides

variable {s : Sides OrderTerms} {o : OrderTerms} {q : ℕ}

/-- An order rests exactly if it is in one of the two queues. -/
theorem mem_restingOrders_iff_queueOf {r : Resting OrderTerms} :
    r ∈ restingOrders s ↔ ∃ side, r ∈ queueOf s side := by
  unfold restingOrders
  rw [List.mem_append]
  constructor
  · rintro (h | h)
    · exact ⟨.Buy, h⟩
    · exact ⟨.Sell, h⟩
  · rintro ⟨_ | _, h⟩
    · exact Or.inl h
    · exact Or.inr h

/-- A withdrawal takes the id out of each queue. -/
theorem queueOf_withdraw (id : OrderId) (s : Sides OrderTerms) (side : Side) :
    queueOf (FlowManager.Book.withdraw id s) side =
      (queueOf s side).filter fun r => decide (r.terms.orderId ≠ id) := by
  rcases side <;> rfl

/-- What rests after a withdrawal are the other orders. -/
theorem mem_restingOrders_withdraw {id : OrderId} {r : Resting OrderTerms} :
    r ∈ restingOrders (FlowManager.Book.withdraw id s) ↔
      r ∈ restingOrders s ∧ r.terms.orderId ≠ id := by
  simp only [mem_restingOrders_iff_queueOf, queueOf_withdraw, List.mem_filter, decide_eq_true_iff,
    exists_and_right]

/-- Withdrawing an id that is not there changes nothing. -/
theorem withdraw_of_unused {id : OrderId} (h : Unused s id) : FlowManager.Book.withdraw id s = s := by
  have hkeep : ∀ side, (queueOf s side).filter (fun r => decide (r.terms.orderId ≠ id)) =
      queueOf s side := by
    intro side
    apply List.filter_eq_self.mpr
    intro r hr
    simpa using h side r hr
  exact congrArg₂ Sides.mk (hkeep .Buy) (hkeep .Sell)

/-! ## Placing and accepting an order -/

/-- The fill of an incoming order with a resting one. -/
def fillOf (o : OrderTerms) (p : OrderTerms × ℕ) : Fill OrderTerms :=
  match o.side with
  | .Buy => ⟨o, p.1, p.2⟩
  | .Sell => ⟨p.1, o, p.2⟩

/-- Placing an order, said once for both sides. -/
theorem placeOrder_queues (o : OrderTerms) (q : ℕ) (s : Sides OrderTerms) :
    (placeOrder o q s).fills =
        (sweep (PriceCrosses o) q (queueOf s o.side.opposite)).fills.map (fillOf o) ∧
      (placeOrder o q s).left = (sweep (PriceCrosses o) q (queueOf s o.side.opposite)).left ∧
      queueOf (placeOrder o q s).sides o.side.opposite =
        (sweep (PriceCrosses o) q (queueOf s o.side.opposite)).queue ∧
      queueOf (placeOrder o q s).sides o.side =
        file (fun x y => BetterPrice o.side x.price y.price) o
          (sweep (PriceCrosses o) q (queueOf s o.side.opposite)).left (queueOf s o.side) := by
  rcases hside : o.side with _ | _
  · have hhits : ∀ x, PriceCrosses o x ↔ Crosses o x := by
      intro x
      unfold PriceCrosses Crosses
      rw [hside]
      exact UInt32.not_lt.symm
    have hfill : fillOf o = fun p => ⟨o, p.1, p.2⟩ := by
      funext p
      simp only [fillOf, hside]
    rw [placeOrder_buy hside, sweep_congr hhits, hfill]
    exact ⟨rfl, rfl, rfl, rfl⟩
  · have hhits : ∀ x, PriceCrosses o x ↔ Crosses x o := by
      intro x
      unfold PriceCrosses Crosses
      rw [hside]
      exact UInt32.not_lt.symm
    have hfill : fillOf o = fun p => ⟨p.1, o, p.2⟩ := by
      funext p
      simp only [fillOf, hside]
    rw [placeOrder_sell hside, sweep_congr hhits, hfill]
    exact ⟨rfl, rfl, rfl, rfl⟩

/-- Taking back what is left of a fill-and-kill order leaves its queue as it was. -/
theorem filter_file {before : OrderTerms → OrderTerms → Prop} [DecidableRel before]
    {left : Option ℕ} {own : List (Resting OrderTerms)}
    (hown : ∀ r ∈ own, r.terms.orderId ≠ o.orderId) :
    (file before o left own).filter (fun r => decide (r.terms.orderId ≠ o.orderId)) = own := by
  rw [filter_file_of_not (by simp)]
  apply List.filter_eq_self.mpr
  intro r hr
  simpa using hown r hr

/-- The fills of an order do not depend on whether its rest stays. -/
theorem acceptOrder_fills : (acceptOrder o q s).fills = (placeOrder o q s).fills := by
  unfold acceptOrder
  split <;> rfl

/-- An accepted `GoodTillCancel` order stays where it is placed. -/
theorem acceptOrder_sides_of_gtc (htype : o.orderType = .GoodTillCancel) :
    (acceptOrder o q s).sides = (placeOrder o q s).sides := by
  simp only [acceptOrder, htype]

/-- What is left of an accepted `FillAndKill` order is withdrawn. -/
theorem acceptOrder_sides_of_fak (htype : o.orderType = .FillAndKill) :
    (acceptOrder o q s).sides =
      FlowManager.Book.withdraw o.orderId (placeOrder o q s).sides := by
  simp only [acceptOrder, htype]

/-- What rests once an order has been accepted is the order, or rested before. -/
theorem mem_acceptOrder_imp {r : Resting OrderTerms}
    (h : r ∈ restingOrders (acceptOrder o q s).sides) :
    r.terms = o ∨ ∃ r' ∈ restingOrders s, r'.terms = r.terms := by
  have hplaced : r ∈ restingOrders (placeOrder o q s).sides := by
    rcases htype : o.orderType with _ | _
    · rwa [acceptOrder_sides_of_gtc htype] at h
    · rw [acceptOrder_sides_of_fak htype] at h
      exact (mem_restingOrders_withdraw.mp h).1
  rcases mem_placeOrder_imp hplaced with ⟨q', -, rfl⟩ | hr
  · exact Or.inl rfl
  · exact Or.inr hr

/-- The order trades with the other side whatever its type. -/
theorem acceptOrder_opposite (hunused : Unused s o.orderId) :
    queueOf (acceptOrder o q s).sides o.side.opposite =
      queueOf (placeOrder o q s).sides o.side.opposite := by
  rcases htype : o.orderType with _ | _
  · rw [acceptOrder_sides_of_gtc htype]
  · obtain ⟨-, -, hopp, -⟩ := placeOrder_queues o q s
    rw [acceptOrder_sides_of_fak htype, queueOf_withdraw, List.filter_eq_self]
    intro r hr
    rw [hopp] at hr
    obtain ⟨r', hr', hterms, -⟩ := mem_sweep_queue hr
    simpa [← hterms] using hunused _ r' hr'

/-- What is left of it rests if it is good till cancel. -/
theorem acceptOrder_own (hunused : Unused s o.orderId) :
    queueOf (acceptOrder o q s).sides o.side =
      if o.orderType = .GoodTillCancel then queueOf (placeOrder o q s).sides o.side
      else queueOf s o.side := by
  rcases htype : o.orderType with _ | _
  · rw [acceptOrder_sides_of_gtc htype, if_pos rfl]
  · obtain ⟨-, -, -, hown⟩ := placeOrder_queues o q s
    rw [acceptOrder_sides_of_fak htype, queueOf_withdraw, if_neg (by simp), hown]
    exact filter_file (hunused _)

/-- What is left of an accepted order is what is left where it is placed. -/
theorem acceptOrder_left : (acceptOrder o q s).left = (placeOrder o q s).left := by
  unfold acceptOrder
  split <;> rfl

/-- A fill-and-kill order that hits nothing leaves the queues alone. -/
theorem acceptOrder_of_not_hits
    (hunused : Unused s o.orderId) (htype : o.orderType = .FillAndKill)
    (hhits : ∀ r ∈ (queueOf s o.side.opposite).head?, ¬ PriceCrosses o r.terms) :
    (acceptOrder o q s).fills = [] ∧ (acceptOrder o q s).sides = s := by
  obtain ⟨hfills, -, hopp, -⟩ := placeOrder_queues o q s
  rw [sweep_of_not_hits hhits] at hfills hopp
  have hopp' := (acceptOrder_opposite (q := q) hunused).trans hopp
  have hown' := acceptOrder_own (q := q) hunused
  rw [if_neg (by simp [htype])] at hown'
  refine ⟨acceptOrder_fills.trans hfills, ?_⟩
  rcases hside : o.side with _ | _
  · rw [hside] at hown' hopp'
    exact congrArg₂ Sides.mk hown' hopp'
  · rw [hside] at hown' hopp'
    exact congrArg₂ Sides.mk hopp' hown'

/-- A sweep trades if and only if it hits the front order. -/
theorem acceptOrder_fills_eq_nil_iff :
    (acceptOrder o q s).fills = [] ↔
      ∀ r ∈ (queueOf s o.side.opposite).head?, ¬ PriceCrosses o r.terms := by
  obtain ⟨hfills, -, -, -⟩ := placeOrder_queues o q s
  rw [acceptOrder_fills, hfills, List.map_eq_nil_iff]
  refine ⟨?_, fun hstop => by rw [sweep_of_not_hits hstop]⟩
  intro hnil r hr hcross
  obtain ⟨rs, hrs⟩ := List.head?_eq_some_iff.mp hr
  rw [hrs] at hnil
  rcases Nat.lt_or_ge r.qty q with hlt | hle
  · rw [sweep_cons_of_lt hcross hlt] at hnil
    cases hnil
  · rw [sweep_cons_of_le hcross hle] at hnil
    cases hnil

end sides

/-! ## Queues in priority order -/

/-- No order stands behind one that it beats in price. -/
def InOrder (s : Sides OrderTerms) : Prop :=
  ∀ side, (queueOf s side).Pairwise fun r r' =>
    ¬ BetterPrice side r'.terms.price r.terms.price

/-- The queues of a book are in their order. -/
theorem WellIndexed.inOrder {s : Store} (h : WellIndexed s) : InOrder s.sides := by
  have hbids : s.bidNodes.Pairwise fun n m => ¬ (s.heap m.order).price > (s.heap n.order).price :=
    OrderedMap.flat_pairwise h.bids.keyed
  have hasks : s.askNodes.Pairwise fun n m => ¬ (s.heap m.order).price < (s.heap n.order).price :=
    OrderedMap.flat_pairwise h.asks.keyed
  intro side
  cases side with
  | Buy => exact List.pairwise_map.mpr hbids
  | Sell => exact List.pairwise_map.mpr hasks

section order

variable {s : Sides OrderTerms} {o : OrderTerms}

/-- Who is behind an order that does not cross does not cross. -/
theorem InOrder.inPriority (h : InOrder s) (o : OrderTerms) :
    InPriority (PriceCrosses o) (queueOf s o.side.opposite) := by
  apply (h o.side.opposite).imp
  intro r r' hnot hcross
  unfold PriceCrosses at hcross ⊢
  cases hside : o.side with
  | Buy =>
      rw [hside] at hnot hcross
      exact UInt32.le_trans (UInt32.not_lt.mp hnot) hcross
  | Sell =>
      rw [hside] at hnot hcross
      exact UInt32.le_trans hcross (UInt32.not_lt.mp hnot)

/-- Who beats an order in price beats those behind it. -/
theorem InOrder.beats (h : InOrder s) (o : OrderTerms) :
    (queueOf s o.side).Pairwise fun r r' =>
      BetterPrice o.side o.price r.terms.price → BetterPrice o.side o.price r'.terms.price := by
  apply (h o.side).imp
  intro r r' hnot hbetter
  rcases BetterPrice.eq_or_of_not hnot with heq | hworse
  · rwa [heq]
  · exact hbetter.trans hworse

end order

/-! ## What the calls do to the queues -/

section calls

variable {s s' : Store} {o : Order} {ts : Trades} {p : OrderPointer}

/-- A trade is recorded one way. -/
theorem Trade.Records.unique {t t' : Trade} {f : Fill OrderTerms} (h : t.Records f)
    (h' : t'.Records f) : t = t' := by
  obtain ⟨q, rfl, hq⟩ := h
  obtain ⟨q', rfl, hq'⟩ := h'
  rw [UInt32.toNat_inj.mp (hq.trans hq'.symm)]

/-- The fills determine the trades that record them. -/
theorem records_unique {ts ts' : Trades} {fs : List (Fill OrderTerms)}
    (h : List.Forall₂ Trade.Records ts fs) (h' : List.Forall₂ Trade.Records ts' fs) :
    ts = ts' := by
  induction h generalizing ts' with
  | nil =>
      cases h'
      rfl
  | cons hrec _ ih =>
      cases h' with
      | cons hrec' hrest => rw [hrec.unique hrec', ih hrest]

/-- `CanMatch`, said once for both sides. -/
theorem canMatch_iff_queue (hi : Invariant s) (o : OrderTerms) :
    s.book.canMatch o.side o.price = true ↔
      ∃ r ∈ (queueOf s.sides o.side.opposite).head?, PriceCrosses o r.terms := by
  rw [canMatch_iff_hits hi]
  unfold PriceCrosses Crosses
  cases o.side with
  | Buy =>
      simp only [UInt32.not_lt]
      exact Iff.rfl
  | Sell =>
      simp only [UInt32.not_lt]
      exact Iff.rfl

/-- The ids that are not in the queues are those that are not indexed. -/
theorem WellIndexed.unused_iff (h : WellIndexed s) {id : OrderId} :
    Unused s.sides id ↔ id ∉ s.book.ordersMap := by
  rw [h.mem_ordersMap_iff]
  constructor
  · rintro hunused ⟨n, hn, hid⟩
    obtain ⟨side, hside⟩ := mem_restingOrders_iff_queueOf.mp (mem_restingOrders.mpr ⟨n, hn, rfl⟩)
    exact hunused side _ hside hid
  · rintro hnone side r hr hid
    obtain ⟨n, hn, rfl⟩ := mem_restingOrders.mp (mem_restingOrders_iff_queueOf.mpr ⟨side, hr⟩)
    exact hnone ⟨n, hn, hid⟩

/-- Every id that rests is one of the queues. -/
theorem WellIndexed.exists_restingOrder (h : WellIndexed s) {id : OrderId}
    (hid : id ∈ s.book.ordersMap) : ∃ r ∈ restingOrders s.sides, r.terms.orderId = id := by
  obtain ⟨n, hn, rfl⟩ := h.mem_ordersMap_iff.mp hid
  exact ⟨_, mem_restingOrders.mpr ⟨n, hn, rfl⟩, rfl⟩

/-- Removing a node takes the orders with its id out of the queues. -/
theorem Removed.mem_restingOrders {n : Node} (h : Removed s n s') (hw : WellIndexed s)
    (hn : n ∈ s.nodes) {r : Resting OrderTerms} :
    r ∈ restingOrders s'.sides ↔ r ∈ restingOrders s.sides ∧ r.terms.orderId ≠ s.idAt n := by
  rw [h.sides hw hn]
  exact mem_restingOrders_withdraw

/-- What `AddOrder` has done with an order that it handed back, as far as the queues show. -/
structure Handled (s : Store) (o : Order) (ts : Trades) (p : OrderPointer) (s' : Store) : Prop where
  unused : Unused s.sides o.orderId
  records : List.Forall₂ Trade.Records ts
    (acceptOrder o.toOrderTerms o.remainingQuantity.toNat s.sides).fills
  sides : s'.sides = (acceptOrder o.toOrderTerms o.remainingQuantity.toNat s.sides).sides
  terms : (s'.heap p).toOrderTerms = o.toOrderTerms
  remaining : (s'.heap p).remainingQuantity.toNat =
    (acceptOrder o.toOrderTerms o.remainingQuantity.toNat s.sides).left.getD 0

/-- **An order that is handed back has been placed in the queues**, also when it was turned away. -/
theorem CallStep.handled (h : CallStep s (.addOrder o) (.added ts (some p)) s') (hi : Invariant s) :
    Handled s o ts p s' := by
  cases h with
  | turnedAway _ hid hfak hcan =>
      have hunused := hi.toWellIndexed.unused_iff.mpr hid
      have hstop : ∀ r ∈ (queueOf s.sides o.side.opposite).head?,
          ¬PriceCrosses o.toOrderTerms r.terms := by
        intro r hr hcross
        rw [(canMatch_iff_queue hi o.toOrderTerms).mpr ⟨r, hr, hcross⟩] at hcan
        cases hcan
      obtain ⟨hfills, hsides⟩ :=
        acceptOrder_of_not_hits (q := o.remainingQuantity.toNat) hunused hfak hstop
      obtain ⟨-, hleft, -, -⟩ :=
        placeOrder_queues o.toOrderTerms o.remainingQuantity.toNat s.sides
      rw [sweep_of_not_hits hstop] at hleft
      refine ⟨hunused, ?_, ?_, ?_, ?_⟩
      · rw [hfills]
        exact .nil
      · rw [hsides, hi.alloc_sides]
      · rw [alloc_heap_self]
      · rw [alloc_heap_self, acceptOrder_left, hleft]
        rfl
  | accepted _ _ _ hid _ hacc =>
      obtain ⟨s₂, hmatched, hheap, -⟩ := hacc.matched
      have hrecords := hacc.records
      have hsides := hacc.sides
      have hremaining := hacc.remaining
      rw [alloc_heap_self, hi.alloc_sides] at hrecords hsides hremaining
      refine ⟨hi.toWellIndexed.unused_iff.mpr hid, hrecords, hsides, ?_, hremaining⟩
      rw [hheap, hmatched.terms, pushOrder_heap, alloc_heap_self]

/-- A new id is taken. -/
theorem call_addOrder (hi : Invariant s) (o : Order) (hunused : Unused s.sides o.orderId) :
    ∃ ts p s', (call (.addOrder o)).run s = .returned (.added ts (some p)) s' ∧ Invariant s' ∧
      Handled s o ts p s' := by
  obtain ⟨a, s', hrun, hstep⟩ := call_steps hi (.addOrder o)
  have hi' := hstep.invariant hi
  have hid := hi.toWellIndexed.unused_iff.mp hunused
  cases hstep with
  | refused _ hmem => exact absurd hmem hid
  | turnedAway _ hid hfak hcan =>
      exact ⟨_, _, _, hrun, hi', (CallStep.turnedAway o hid hfak hcan).handled hi⟩
  | accepted _ ts _ hid hcan hacc =>
      exact ⟨_, _, _, hrun, hi', (CallStep.accepted o ts s' hid hcan hacc).handled hi⟩

/-- A cancel withdraws the id, and answers whether it was there. -/
theorem call_cancelOrder (hi : Invariant s) (id : OrderId) :
    ∃ s', (call (.cancelOrder id)).run s =
        .returned (.cancelled (decide (id ∈ s.book.ordersMap))) s' ∧
      Invariant s' ∧ s'.sides = withdraw id s.sides ∧ s'.heap = s.heap := by
  obtain ⟨a, s', hrun, hstep⟩ := call_steps hi (.cancelOrder id)
  have hi' := hstep.invariant hi
  cases hstep with
  | notFound _ hid =>
      rw [decide_eq_false hid]
      exact ⟨s, hrun, hi, (withdraw_of_unused (hi.toWellIndexed.unused_iff.mpr hid)).symm, rfl⟩
  | cancelled n _ hn hremoved =>
      rw [decide_eq_true (hi.toWellIndexed.mem_ordersMap_iff.mpr ⟨n, hn, rfl⟩)]
      exact ⟨s', hrun, hi', hremoved.sides hi.toWellIndexed hn, hremoved.heap⟩

end calls

end FlowManager.Book
