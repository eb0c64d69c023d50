import FlowManager.Book.ExactSnapshot
import FlowManager.Book.TradePrices
import FlowManager.Book.Traceless
import FlowManager.Lib.Aggregate

/-!
# The book by price

A reader of the snapshot sees what is open at each price and not the orders. `Depth` is such a
book: levels instead of orders. An order trades with it as if each level were one order and files
its rest into its own level (`Depth.add`); an order that is cancelled takes its open quantity out of
its level (`Depth.withdraw`).

The book by price follows the book: over every run of calls the depth is what these two make of the
orders that were taken and of those that were cancelled (`depth_follows_feed`), and what an order
trades at each price can be told from the depth alone. As long as no level gets to `2 ^ 32` the
depth is what `GetOrderInfos` shows.
-/

namespace FlowManager.Book

open FlowManager.Lib FlowManager.Lib.PriceTime

/-! ## The abstract book -/

/-- What is open at each price, best price first. -/
abbrev Depth : Type := Sides Price

namespace Depth

/-- The levels of a side. -/
def levels (d : Depth) : Side → List (Resting Price)
  | .Buy => d.bids
  | .Sell => d.asks

/-- Other levels for a side. -/
def setLevels (d : Depth) (ls : List (Resting Price)) : Side → Depth
  | .Buy => ⟨ls, d.asks⟩
  | .Sell => ⟨d.bids, ls⟩

/-- The limit of an order lets it trade at a price. -/
def Reaches (o : OrderTerms) (p : Price) : Prop :=
  match o.side with
  | .Buy => p ≤ o.price
  | .Sell => o.price ≤ p

/-- Which prices an order reaches is decided. -/
instance (o : OrderTerms) : DecidablePred (Reaches o) := fun p =>
  inferInstanceAs (Decidable (PriceCrosses o { o with price := p }))

/-- File what is left of an order into its level, unless it is fill-and-kill. -/
def fileRest (o : OrderTerms) (left : Option ℕ) (own : List (Resting Price)) :
    List (Resting Price) :=
  match left with
  | none => own
  | some q =>
      if o.orderType = .GoodTillCancel then deepen (BetterPrice o.side) o.price q own else own

/-- What an order does to a book by price: what it trades at each price, what is left of it, and
the book. -/
structure Adding where
  fills : List (Resting Price)
  left : ℕ
  depth : Depth
  deriving DecidableEq

/-- Trade an order with a book by price, each level for one order. -/
def add (d : Depth) (o : OrderTerms) (q : ℕ) : Adding :=
  let w := sweep (Reaches o) q (d.levels o.side.opposite)
  let own := fileRest o w.left (d.levels o.side)
  ⟨PriceTime.filled w.fills, w.left.getD 0,
    (d.setLevels w.queue o.side.opposite).setLevels own o.side⟩

/-- Take the open quantity of an order out of its level. -/
def withdraw (d : Depth) (side : Side) (p : Price) (q : ℕ) : Depth :=
  d.setLevels (thin p q (d.levels side)) side

/-- What happens to a book by price. -/
inductive Change where
  | added (o : OrderTerms) (q : ℕ)
  | withdrawn (side : Side) (p : Price) (q : ℕ)

/-- Make a change. -/
def apply (d : Depth) : Change → Depth
  | .added o q => (d.add o q).depth
  | .withdrawn side p q => d.withdraw side p q

section levels

variable {d d' : Depth}

/-- A depth is its two sides. -/
theorem ext_levels (h : ∀ side, d.levels side = d'.levels side) : d = d' :=
  congrArg₂ Sides.mk (h .Buy) (h .Sell)

/-- The side that is written. -/
theorem levels_setLevels_self (d : Depth) (ls : List (Resting Price)) (side : Side) :
    (d.setLevels ls side).levels side = ls := by
  cases side <;> rfl

/-- Writing one side leaves the other. -/
theorem levels_setLevels_of_ne (d : Depth) (ls : List (Resting Price)) {side side' : Side}
    (h : side' ≠ side) : (d.setLevels ls side).levels side' = d.levels side' := by
  cases side <;> cases side' <;> first | rfl | exact absurd rfl h

end levels

end Depth

/-- The depth of two queues of orders. -/
def depthOf (s : Sides OrderTerms) : Depth :=
  ⟨aggregate OrderTerms.price s.bids, aggregate OrderTerms.price s.asks⟩

/-- A side of the depth of two queues. -/
@[simp] theorem levels_depthOf (s : Sides OrderTerms) (side : Side) :
    (depthOf s).levels side = aggregate OrderTerms.price (queueOf s side) := by
  cases side <;> rfl

/-! ## What the calls do to the depth -/

/-- The leg of a trade for a side. -/
def Trade.legOf (t : Trade) : Side → TradeInfo
  | .Buy => t.bidTrade
  | .Sell => t.askTrade

/-- What trades move at each price of a side. -/
def movedAt (side : Side) (ts : Trades) : List (Resting Price) :=
  aggregate id (ts.map fun t => ⟨(t.legOf side).price, (t.legOf side).tradedQuantity.toNat⟩)

section calls

variable {s s' : Store} {o : Order} {ts : Trades} {p : OrderPointer}

/-- Where every order is open, a queue has open orders only. -/
theorem AllOpen.positive (hopen : AllOpen s) (side : Side) :
    Positive (Book.queueOf s.sides side) :=
  fun _ hr => Nat.pos_of_ne_zero (hopen.queueOf hr)

/-- The leg of a side is one of the two. -/
theorem Trade.legOf_mem (t : Trade) (side : Side) : t.legOf side ∈ t.legs := by
  cases side with
  | Buy => exact List.mem_cons_self
  | Sell => exact List.mem_cons_of_mem _ (List.mem_singleton_self _)

/-- The leg of the order that rested carries its limit. -/
theorem Trade.Pairs.legOf_opposite {t : Trade} {o x : OrderTerms} (h : t.Pairs o x) :
    (t.legOf o.side.opposite).price = x.price := by
  obtain ⟨q, rfl⟩ := h
  cases o.side <;> rfl

/-- Trades that record fills of an order move what the fills say. -/
theorem movedAt_of_records {o : OrderTerms} {fills : List (OrderTerms × ℕ)} {ts : Trades}
    (h : List.Forall₂ Trade.Records ts (fills.map (fillOf o))) :
    movedAt o.side.opposite ts = aggregate OrderTerms.price (filled fills) := by
  induction fills generalizing ts with
  | nil =>
      cases h
      rfl
  | cons fill fills ih =>
      cases h with
      | @cons t _ ts _ hrec hrest =>
          obtain ⟨hpairs, hqty⟩ := hrec.pairs
          show push _ _ (movedAt o.side.opposite ts) = push _ _ (aggregate OrderTerms.price _)
          rw [ih hrest]
          exact congrArg₂ (fun p q => push p q _) hpairs.legOf_opposite
            (hqty _ (t.legOf_mem o.side.opposite))

/-- **An order that is handed back has been added to the depth.** -/
theorem Handled.depth (h : Handled s o ts p s') (hi : Invariant s) (hopen : AllOpen s) :
    let added := (depthOf s.sides).add o.toOrderTerms o.remainingQuantity.toNat
    movedAt o.side.opposite ts = added.fills ∧
      (s'.heap p).remainingQuantity.toNat = added.left ∧ depthOf s'.sides = added.depth := by
  obtain ⟨hfills, hleft, hopposite, hown⟩ :=
    placeOrder_queues o.toOrderTerms o.remainingQuantity.toNat s.sides
  have hsweep := sweep_aggregate (Depth.Reaches o.toOrderTerms) OrderTerms.price
    o.remainingQuantity.toNat (hopen.positive o.side.opposite)
  have hcongr : ∀ q rs, sweep (fun x => Depth.Reaches o.toOrderTerms x.price) q rs =
      sweep (PriceCrosses o.toOrderTerms) q rs := sweep_congr fun _ => Iff.rfl
  rw [hcongr] at hsweep
  obtain ⟨hleft', hqueue, hfills'⟩ := hsweep
  refine ⟨?_, ?_, Depth.ext_levels fun side => ?_⟩
  · have hrec := h.records
    rw [acceptOrder_fills, hfills] at hrec
    rw [movedAt_of_records hrec, ← hfills', ← levels_depthOf]
    rfl
  · rw [h.remaining, acceptOrder_left, hleft, ← hleft', ← levels_depthOf]
    rfl
  · rw [levels_depthOf, h.sides]
    rcases side_eq_or side o.side with rfl | rfl
    · rw [acceptOrder_own h.unused, hown]
      refine Eq.trans ?_ (Depth.levels_setLevels_self _ _ _).symm
      rw [levels_depthOf, levels_depthOf, hleft']
      rcases hrest : (sweep (PriceCrosses o.toOrderTerms) o.remainingQuantity.toNat
        (queueOf s.sides o.side.opposite)).left with _ | q
      · exact congrArg _ (ite_self _)
      · unfold Depth.fileRest
        dsimp only
        split_ifs
        · exact aggregate_orderedInsert OrderTerms.price (fun _ => BetterPrice.irrefl)
            (fun _ _ => BetterPrice.eq_or_of_not) (hi.toWellIndexed.inOrder o.side)
        · rfl
    · rw [acceptOrder_opposite h.unused, hopposite, ← hqueue, ← levels_depthOf]
      refine Eq.trans ?_ (Depth.levels_setLevels_of_ne _ _ (opposite_ne _)).symm
      exact (Depth.levels_setLevels_self _ _ _).symm

/-- Taking a node out of a queue takes its open quantity out of its level. -/
theorem aggregate_erase {side : Side} {nodes : List Node} {n : Node} (hn : n ∈ nodes)
    (hnodup : nodes.Nodup)
    (hsorted : (nodes.map fun m => (s.orderAt m).resting).Pairwise fun r r' =>
      ¬ BetterPrice side r'.terms.price r.terms.price)
    (hpos : Positive (nodes.map fun m => (s.orderAt m).resting)) :
    aggregate OrderTerms.price ((nodes.erase n).map fun m => (s.orderAt m).resting) =
      thin (s.orderAt n).price (s.orderAt n).remainingQuantity.toNat
        (aggregate OrderTerms.price (nodes.map fun m => (s.orderAt m).resting)) := by
  obtain ⟨pre, post, rfl⟩ := List.append_of_mem hn
  rw [List.map_append, List.map_cons] at hsorted hpos
  rw [erase_of_split hnodup, List.map_append, List.map_append, List.map_cons]
  exact aggregate_remove (fun _ _ => BetterPrice.eq_or_of_not) hsorted hpos

/-- The nodes of a side. -/
def Store.nodesOf (s : Store) : Side → List Node
  | .Buy => s.bidNodes
  | .Sell => s.askNodes

/-- A queue is the orders of its nodes. -/
theorem queueOf_eq_map (s : Store) (side : Side) :
    queueOf s.sides side = (s.nodesOf side).map fun n => (s.orderAt n).resting := by
  cases side <;> rfl

/-- A node is on the side of its order. -/
theorem WellIndexed.mem_nodesOf (h : WellIndexed s) {n : Node} (hn : n ∈ s.nodes) :
    n ∈ s.nodesOf (s.orderAt n).side := by
  cases hside : (s.orderAt n).side with
  | Buy => exact h.mem_bidNodes hn hside
  | Sell => exact h.mem_askNodes hn hside

/-- The orders of a side's nodes are of that side. -/
theorem WellIndexed.side_of_mem_nodesOf (h : WellIndexed s) {n : Node} {side : Side}
    (hn : n ∈ s.nodesOf side) : (s.orderAt n).side = side := by
  cases side with
  | Buy => exact h.bids.side_eq n hn
  | Sell => exact h.asks.side_eq n hn

/-- No node is twice on a side. -/
theorem WellIndexed.nodesOf_nodup (h : WellIndexed s) (side : Side) : (s.nodesOf side).Nodup := by
  obtain ⟨hbids, hasks, -⟩ := List.nodup_append.mp h.nodes_nodup
  cases side with
  | Buy => exact hbids
  | Sell => exact hasks

/-- A removal takes the node off its side. -/
theorem Removed.nodesOf {n : Node} (h : Removed s n s') (side : Side) :
    s'.nodesOf side = (s.nodesOf side).erase n := by
  cases side with
  | Buy => exact h.bids
  | Sell => exact h.asks

/-- **An order that is taken out has been withdrawn from the depth.** -/
theorem Removed.depth {n : Node} (h : Removed s n s') (hi : Invariant s) (hopen : AllOpen s)
    (hn : n ∈ s.nodes) :
    depthOf s'.sides = (depthOf s.sides).withdraw (s.orderAt n).side (s.orderAt n).price
      (s.orderAt n).remainingQuantity.toNat := by
  have hqueue : ∀ side, queueOf s'.sides side =
      ((s.nodesOf side).erase n).map fun m => (s.orderAt m).resting := by
    intro side
    rw [queueOf_eq_map, h.nodesOf]
    exact List.map_congr_left fun m _ => congrArg Order.resting (congrFun h.heap m.order)
  have hsorted := hi.toWellIndexed.inOrder
  have hpos := hopen.positive
  apply Depth.ext_levels
  intro side
  rw [levels_depthOf, hqueue]
  by_cases hside : side = (s.orderAt n).side
  · subst hside
    refine Eq.trans ?_ (Depth.levels_setLevels_self _ _ _).symm
    have hown := hsorted (s.orderAt n).side
    have hopenOwn := hpos (s.orderAt n).side
    rw [levels_depthOf, queueOf_eq_map]
    rw [queueOf_eq_map] at hown hopenOwn
    exact aggregate_erase (hi.toWellIndexed.mem_nodesOf hn) (hi.toWellIndexed.nodesOf_nodup _) hown
      hopenOwn
  · refine Eq.trans ?_ (Depth.levels_setLevels_of_ne _ _ hside).symm
    rw [List.erase_of_not_mem, levels_depthOf, queueOf_eq_map]
    exact fun hmem => hside (hi.toWellIndexed.side_of_mem_nodesOf hmem).symm

end calls

/-! ## Runs -/

/-- What a call changes in the depth. -/
def Store.change? (s : Store) : Call → Option Depth.Change
  | .addOrder o =>
      if o.orderId ∈ s.book.ordersMap then none
      else some (.added o.toOrderTerms o.remainingQuantity.toNat)
  | .cancelOrder id =>
      (s.resting? id).map fun o => .withdrawn o.side o.price o.remainingQuantity.toNat

/-- The changes of a run: the orders that were taken, and what was open in those that were
cancelled. -/
def feed : Store → List Call → List Depth.Change
  | _, [] => []
  | s, c :: cs => (s.change? c).toList ++ feed ((call c).run s).state cs

section runs

variable {s s' : Store} {c : Call} {a : Answer}

/-- **One call changes the depth as told.** -/
theorem CallStep.depth (h : CallStep s c a s') (hi : Invariant s) (hopen : AllOpen s)
    (hfresh : c.Fresh) :
    depthOf s'.sides = (s.change? c).toList.foldl Depth.apply (depthOf s.sides) ∧ AllOpen s' := by
  have htaken : ∀ {o ts p}, c = .addOrder o → a = .added ts (some p) →
      depthOf s'.sides = (s.change? c).toList.foldl Depth.apply (depthOf s.sides) ∧ AllOpen s' := by
    rintro o ts p rfl rfl
    have hhandled := h.handled hi
    obtain ⟨-, hdone⟩ := h.taken hi hopen
    have hpos : o.remainingQuantity.toNat ≠ 0 := by
      rw [hfresh.1]
      exact hfresh.2.ne'
    refine ⟨?_, (hdone.positive hpos).2⟩
    rw [Store.change?, if_neg h.not_mem_of_added]
    exact (hhandled.depth hi hopen).2.2
  cases h with
  | refused o hmem =>
      rw [Store.change?, if_pos hmem, hi.alloc_sides]
      exact ⟨rfl, hi.toWellIndexed.allOpen_alloc hopen o⟩
  | turnedAway => exact htaken rfl rfl
  | accepted => exact htaken rfl rfl
  | notFound id hid =>
      rw [Store.change?, resting?_eq_none_iff.mpr hid]
      exact ⟨rfl, hopen⟩
  | cancelled n _ hn hremoved =>
      rw [Store.change?, hi.toWellIndexed.resting?_idAt hn]
      exact ⟨hremoved.depth hi hopen hn, hremoved.allOpen hi hopen⟩

/-- **The depth follows the feed.** -/
theorem calls_depth (hi : Invariant s) (hopen : AllOpen s) (cs : List Call)
    (hfresh : ∀ c ∈ cs, c.Fresh) :
    ∃ as s', (calls cs).run s = .returned as s' ∧ Invariant s' ∧ AllOpen s' ∧
      depthOf s'.sides = (feed s cs).foldl Depth.apply (depthOf s.sides) := by
  induction cs generalizing s with
  | nil => exact ⟨[], s, rfl, hi, hopen, rfl⟩
  | cons c cs ih =>
      obtain ⟨a, s₁, hrun, hstep⟩ := call_steps hi c
      obtain ⟨hdepth, hopen₁⟩ := hstep.depth hi hopen (hfresh c List.mem_cons_self)
      obtain ⟨as, s₂, hruns, hi₂, hopen₂, hrest⟩ := ih (hstep.invariant hi) hopen₁
        fun c' hc' => hfresh c' (List.mem_cons_of_mem _ hc')
      refine ⟨a :: as, s₂, ?_, hi₂, hopen₂, ?_⟩
      · simp [calls, hrun, hruns]
      · rw [feed, hrun, List.foldl_append, ← hdepth]
        exact hrest

end runs

/-! ## The snapshot -/

/-- The levels that a snapshot shows. -/
def shown (infos : List LevelInfo) : List (Resting Price) :=
  infos.map fun level => ⟨level.price, level.quantity.toNat⟩

/-- The depth that a snapshot shows. -/
def OrderBookLevelInfos.depth (infos : OrderBookLevelInfos) : Depth :=
  ⟨shown infos.bids, shown infos.asks⟩

section snapshot

variable {r : Price → Price → Prop} [IsStrictTotalOrder Price r] {heap : OrderPointer → Order}
  {side : Side} {levels : OrderedMap Price OrderPointers r}

/-- What is open at the price of a level is what its orders have open. -/
theorem openAt_queueIn (h : SideOk heap side levels) {p : Price} {ns : OrderPointers}
    (he : (p, ns) ∈ levels.entries) : openAt (queueIn heap levels) p =
      (ns.map fun n => (heap n.order).remainingQuantity.toNat).sum := by
  have hns := OrderedMap.filter_flat_of_mem h.keyed he
  unfold openAt queueIn
  rw [List.filter_map, List.map_map]
  show ((levels.flat.filter fun n => decide ((heap n.order).price = p)).map _).sum = _
  rw [hns]
  rfl

/-- Levels that are grouped are themselves. -/
theorem aggregate_entries : ∀ {entries : List (Price × OrderPointers)},
    entries.Pairwise (fun x y => r x.1 y.1) →
    (∀ e ∈ entries, ∀ n ∈ e.2, (heap n.order).price = e.1) → (∀ e ∈ entries, e.2 ≠ []) →
    aggregate OrderTerms.price
        ((entries.flatMap Prod.snd).map fun n => (heap n.order).resting) =
      entries.map fun e => ⟨e.1, (e.2.map fun n => (heap n.order).remainingQuantity.toNat).sum⟩
  | [], _, _, _ => rfl
  | e :: entries, hsorted, hkeyed, hne => by
      obtain ⟨hhead, htail⟩ := List.pairwise_cons.mp hsorted
      have ih := aggregate_entries htail (fun e' he' => hkeyed e' (List.mem_cons_of_mem _ he'))
        fun e' he' => hne e' (List.mem_cons_of_mem _ he')
      rw [List.flatMap_cons, List.map_append, aggregate_append, ih, List.map_cons, List.map_map]
      · rfl
      · rw [ih]
        intro l hl heq
        obtain ⟨e', he', rfl⟩ := List.mem_map.mp (List.mem_of_mem_head? hl)
        have hlt := hhead e' he'
        rw [show e'.1 = e.1 from heq] at hlt
        exact irrefl_of r _ hlt
      · exact fun hnil => hne e List.mem_cons_self (List.map_eq_nil_iff.mp hnil)
      · intro x hx
        obtain ⟨n, hn, rfl⟩ := List.mem_map.mp hx
        exact hkeyed e List.mem_cons_self n hn

/-- **A side of the snapshot shows the levels of its queue**, if none gets to `2 ^ 32`. -/
theorem shown_levelInfos (h : SideOk heap side levels) (hne : NoEmptyLevel levels)
    (hopen : ∀ p, openAt (queueIn heap levels) p < 2 ^ 32) :
    shown (levelInfos heap levels) = aggregate OrderTerms.price (queueIn heap levels) := by
  have hall : levels.entries.filter (fun e => !e.2.isEmpty) = levels.entries := by
    apply List.filter_eq_self.mpr
    intro e he
    simpa using hne e he
  unfold queueIn OrderedMap.flat
  rw [aggregate_entries levels.sorted h.keyed hne]
  unfold shown levelInfos
  rw [hall, List.map_map]
  apply List.map_congr_left
  rintro ⟨p, ns⟩ he
  have hsum := openAt_queueIn h he
  have hlevel := createLevelInfoFromOrders_eq h he
  have hlt := hopen p
  rw [hsum] at hlevel hlt
  simp only [Function.comp_apply, hlevel]
  rw [UInt32.toNat_ofNat_of_lt' hlt]

/-- Where no price has `2 ^ 32` open, the snapshot is the depth. -/
theorem Invariant.depth_snapshot {s : Store} (hi : Invariant s)
    (hopen : ∀ side p, openAt (queueOf s.sides side) p < 2 ^ 32) :
    (OrderBookLevelInfos.mk (levelInfos s.heap s.book.bids)
      (levelInfos s.heap s.book.asks)).depth = depthOf s.sides :=
  congrArg₂ Sides.mk (shown_levelInfos hi.bids hi.bids_nonempty (hopen .Buy))
    (shown_levelInfos hi.asks hi.asks_nonempty (hopen .Sell))

end snapshot

/-- **The book by price follows the book.** Over every run of calls with new orders of positive
quantities, the depth is what adding the orders that were taken and withdrawing those that were
cancelled make of nothing; the snapshot shows it if no level gets to `2 ^ 32`; and the next order
trades at each price what the depth says, and has left what the depth says. -/
theorem depth_follows_feed (cs : List Call) (hfresh : ∀ c ∈ cs, c.Fresh) :
    ∃ as s infos, (calls cs).run Store.empty = .returned as s ∧
      depthOf s.sides = (feed Store.empty cs).foldl Depth.apply ⟨[], []⟩ ∧
      getOrderInfos.run s = .returned infos s ∧
      ((∀ side p, openAt (queueOf s.sides side) p < 2 ^ 32) → infos.depth = depthOf s.sides) ∧
      ∀ o : Order, o.orderId ∉ s.book.ordersMap →
        ∃ ts p s', (call (.addOrder o)).run s = .returned (.added ts (some p)) s' ∧
          movedAt o.side.opposite ts =
            ((depthOf s.sides).add o.toOrderTerms o.remainingQuantity.toNat).fills ∧
          (s'.heap p).remainingQuantity.toNat =
            ((depthOf s.sides).add o.toOrderTerms o.remainingQuantity.toNat).left := by
  have hempty : AllOpen Store.empty := fun _ h => absurd h List.not_mem_nil
  obtain ⟨as, s, hrun, hi, hopen, hdepth⟩ := calls_depth invariant_empty hempty cs hfresh
  refine ⟨as, s, _, hrun, hdepth, rfl, hi.depth_snapshot, ?_⟩
  intro o hid
  obtain ⟨ts, p, s', hcall, -, hhandled⟩ :=
    call_addOrder hi o (hi.toWellIndexed.unused_iff.mpr hid)
  obtain ⟨hmoved, hleft, -⟩ := hhandled.depth hi hopen
  exact ⟨ts, p, s', hcall, hmoved, hleft⟩

/-- Two asks at one price and one above it; the first is cancelled. -/
def threeAsks : List Call :=
  [.addOrder (Order.new .GoodTillCancel 1 .Sell 100 5),
    .addOrder (Order.new .GoodTillCancel 2 .Sell 101 4),
    .addOrder (Order.new .GoodTillCancel 3 .Sell 100 2), .cancelOrder 1]

/-- Three asks and a deal: the feed, and what the next order is going to get. -/
theorem depth_follows_feed_threeAsks :
    ∃ as s, (calls threeAsks).run Store.empty = .returned as s ∧
      depthOf s.sides = ⟨[], [⟨100, 2⟩, ⟨101, 4⟩]⟩ ∧
      ∀ o : Order, o.orderId ∉ s.book.ordersMap →
        ∃ ts p s', (call (.addOrder o)).run s = .returned (.added ts (some p)) s' ∧
          movedAt o.side.opposite ts =
            (Depth.add ⟨[], [⟨100, 2⟩, ⟨101, 4⟩]⟩ o.toOrderTerms o.remainingQuantity.toNat).fills := by
  obtain ⟨as, s, infos, hrun, hdepth, -, -, hadd⟩ := depth_follows_feed threeAsks (by decide)
  have hfeed : depthOf s.sides = ⟨[], [⟨100, 2⟩, ⟨101, 4⟩]⟩ := hdepth.trans (by decide)
  refine ⟨as, s, hrun, hfeed, fun o hid => ?_⟩
  obtain ⟨ts, p, s', hcall, hmoved, -⟩ := hadd o hid
  exact ⟨ts, p, s', hcall, hmoved.trans (by rw [hfeed])⟩

end FlowManager.Book
