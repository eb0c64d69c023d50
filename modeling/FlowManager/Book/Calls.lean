import FlowManager.Book.Matching

/-!
# What the calls on the book do

One lemma for each of the two calls. `CancelOrder` removes the node of the named order and nothing
else (`Removed`). `AddOrder` refuses a live id, turns away a fill-and-kill order that cannot
match, and otherwise appends the order (`Placed`), matches (`Matched`) and takes back what is left
of a fill-and-kill order (`Removed`).

The book is uncrossed between two calls, so after the append only the new order can trade, and
matching the two sides is sweeping the opposite side with it: `place` is that one-sided view, and
`addOrder_returns` says that `AddOrder` computes it.
-/

namespace FlowManager.Book

open FlowManager.Lib FlowManager.Lib.PriceTime

variable {s s' : Store} {n : Node}

/-! ## Removing an order -/

/-- What `CancelOrderInternal` does. -/
structure Removed (s : Store) (n : Node) (s' : Store) : Prop where
  wellIndexed : WellIndexed s'
  bids : s'.bidNodes = s.bidNodes.erase n
  asks : s'.askNodes = s.askNodes.erase n
  heap : s'.heap = s.heap
  bids_nonempty : NoEmptyLevel s.book.bids → NoEmptyLevel s'.book.bids
  asks_nonempty : NoEmptyLevel s.book.asks → NoEmptyLevel s'.book.asks
  nextOrder : s'.nextOrder = s.nextOrder
  nextNode : s'.nextNode = s.nextNode

/-- No node is listed twice. -/
theorem WellIndexed.nodes_nodup (h : WellIndexed s) : s.nodes.Nodup :=
  List.Nodup.of_map _ h.nodes.ids_nodup

/-- A node is on the side of its order. -/
theorem WellIndexed.mem_bidNodes (h : WellIndexed s) {n : Node} (hn : n ∈ s.nodes)
    (hside : (s.orderAt n).side = .Buy) : n ∈ s.bidNodes := by
  rcases List.mem_append.mp hn with hn | hn
  · exact hn
  · have hsell := h.asks.side_eq n hn
    unfold Store.orderAt at hside
    rw [hside] at hsell
    cases hsell

/-- A node of a sell order is on the ask side. -/
theorem WellIndexed.mem_askNodes (h : WellIndexed s) {n : Node} (hn : n ∈ s.nodes)
    (hside : (s.orderAt n).side = .Sell) : n ∈ s.askNodes := by
  rcases List.mem_append.mp hn with hn | hn
  · have hbuy := h.bids.side_eq n hn
    unfold Store.orderAt at hside
    rw [hside] at hbuy
    cases hbuy
  · exact hn

/-- The id map leads from the id of a node to the node. -/
theorem WellIndexed.lookup_idAt (h : WellIndexed s) {n : Node} (hn : n ∈ s.nodes) :
    s.book.ordersMap.lookup (s.idAt n) = some ⟨n.order, n.addr⟩ :=
  (h.nodes.index _ _).mpr ⟨n, hn, rfl, rfl⟩

/-- An id is in the index exactly if a resting order has it. -/
theorem WellIndexed.mem_ordersMap_iff (h : WellIndexed s) {id : OrderId} :
    id ∈ s.book.ordersMap ↔ ∃ n ∈ s.nodes, s.idAt n = id :=
  h.nodes.mem_ordersMap

/-- A filed node sits in the level of its price, and the level sits in the map. -/
theorem exists_level_split {r : Price → Price → Prop} {heap : OrderPointer → Order} {side : Side}
    {levels : OrderedMap Price OrderPointers r} (h : SideOk heap side levels) {n : Node}
    (hn : n ∈ levels.flat) :
    ∃ l₁ pre post l₂, levels.entries = l₁ ++ ((heap n.order).price, pre ++ n :: post) :: l₂ := by
  obtain ⟨⟨price, level⟩, he, hlevel⟩ := OrderedMap.mem_flat.mp hn
  have hprice : (heap n.order).price = price := h.keyed _ he n hlevel
  obtain ⟨l₁, l₂, hsplit⟩ := List.append_of_mem he
  obtain ⟨pre, post, hlist⟩ := List.append_of_mem hlevel
  refine ⟨l₁, pre, post, l₂, ?_⟩
  rw [hsplit, hprice, ← hlist]

/-- Erasing through the iterator of a node takes that node out of its level. -/
theorem run_eraseNode {n : Node} {pre post : OrderPointers}
    (hnodup : ((pre ++ n :: post).map Node.addr).Nodup) :
    (eraseNode n.addr (pre ++ n :: post)).run s = .returned (pre ++ post) s := by
  have hpre : ∀ m ∈ pre, ¬ (m.addr == n.addr) = true := by
    intro m hm heq
    rw [List.map_append, List.map_cons, List.nodup_append] at hnodup
    exact hnodup.2.2 m.addr (List.mem_map_of_mem hm) n.addr List.mem_cons_self (beq_iff_eq.mp heq)
  have hany : (pre ++ n :: post).any (fun m => m.addr == n.addr) = true := by simp
  have herase : (pre ++ n :: post).eraseP (fun m => m.addr == n.addr) = pre ++ post := by
    rw [List.eraseP_append_right _ hpre, List.eraseP_cons_of_pos (by simp)]
  simp [eraseNode, hany, herase]

/-- A level that has been shortened but not emptied leaves no empty level. -/
theorem noEmptyLevel_of_drop {r : Price → Price → Prop}
    {levels levels' : OrderedMap Price OrderPointers r} {price : Price}
    {level level' : OrderPointers} {l₁ l₂ : List (Price × OrderPointers)}
    (hm : levels.entries = l₁ ++ (price, level) :: l₂)
    (hm' : levels'.entries = l₁ ++ (price, level') :: l₂) (hne : level' ≠ [])
    (h : NoEmptyLevel levels) : NoEmptyLevel levels' := by
  intro e he
  rw [hm', List.mem_append, List.mem_cons] at he
  rcases he with he | rfl | he
  · exact h e (by simp [hm, he])
  · exact hne
  · exact h e (by simp [hm, he])

/-- A level that has been erased leaves no empty level. -/
theorem noEmptyLevel_of_close {r : Price → Price → Prop}
    {levels levels' : OrderedMap Price OrderPointers r} {price : Price} {level : OrderPointers}
    {l₁ l₂ : List (Price × OrderPointers)} (hm : levels.entries = l₁ ++ (price, level) :: l₂)
    (hm' : levels'.entries = l₁ ++ l₂) (h : NoEmptyLevel levels) : NoEmptyLevel levels' := by
  intro e he
  rw [hm', List.mem_append] at he
  rcases he with he | he <;> exact h e (by simp [hm, he])

/-- Erasing a node that is listed once joins what is before and behind it. -/
theorem erase_of_split {before after : List Node} {n : Node}
    (hnodup : (before ++ n :: after).Nodup) : (before ++ n :: after).erase n = before ++ after := by
  have hnot : n ∉ before := fun hmem => by
    rw [List.nodup_append] at hnodup
    exact hnodup.2.2 n hmem n List.mem_cons_self rfl
  rw [List.erase_append_right _ hnot, List.erase_cons_head]

/-- **Cancelling an order that is in the book removes its node.** -/
theorem cancelOrderInternal_returns (hw : WellIndexed s) {n : Node} (hn : n ∈ s.nodes) :
    ∃ s', (cancelOrderInternal (s.idAt n)).run s = .returned () s' ∧ Removed s n s' := by
  have haddrs := hw.nodes.addrs_nodup
  have hnodup := hw.nodes_nodup
  rw [Store.nodes, List.nodup_append] at hnodup
  obtain ⟨hbnodup, hanodup, hdisj⟩ := hnodup
  rcases hside : (s.orderAt n).side with _ | _
  · -- a bid
    have hnb := hw.mem_bidNodes hn hside
    obtain ⟨l₁, pre, post, l₂, hm⟩ := exists_level_split hw.bids hnb
    obtain ⟨before, after, hb, hb'⟩ := dropBid_bidNodes hm
    have hlevel : ((pre ++ n :: post).map Node.addr).Nodup := by
      rw [Store.nodes, bidNodes_of_split hm] at haddrs
      refine List.Nodup.sublist ?_ haddrs
      apply List.Sublist.map
      exact ((List.sublist_append_left _ _).trans (List.sublist_append_right _ _)).trans
        (List.sublist_append_left _ _)
    have hna : n ∉ s.askNodes := fun hna => hdisj n hnb n hna rfl
    have hbids : before ++ after = s.bidNodes.erase n := by
      rw [hb] at hbnodup ⊢
      exact (erase_of_split hbnodup).symm
    have hasks : s.askNodes = s.askNodes.erase n := (List.erase_of_not_mem hna).symm
    have hd := hw.dropBid hm
    have he := dropBid_entries hm
    have hrun := run_eraseNode (s := s) hlevel
    have hlookup := hw.lookup_idAt hn
    have hfind := OrderedMap.find?_of_split hm
    unfold Store.orderAt at hside
    generalize pre ++ post = rest at hd he hb' hrun
    rcases rest with _ | ⟨m, rest⟩
    · -- the level is empty now
      refine ⟨(s.dropBid (s.heap n.order).price n []).closeBid (s.heap n.order).price, ?_,
        hd.closeBid he, (closeBid_bidNodes he).trans (hb'.trans hbids), hasks, rfl,
        noEmptyLevel_of_close hm (OrderedMap.entries_erase_of_split he), id, rfl, rfl⟩
      simp [cancelOrderInternal, hlookup, deref, hside, hfind, hrun, setBidLevel, eraseEntry,
        eraseBidLevel, Store.dropBid, Store.closeBid]
    · refine ⟨s.dropBid (s.heap n.order).price n (m :: rest), ?_, hd, hb'.trans hbids, hasks, rfl,
        noEmptyLevel_of_drop hm he (List.cons_ne_nil _ _), id, rfl, rfl⟩
      simp [cancelOrderInternal, hlookup, deref, hside, hfind, hrun, setBidLevel, eraseEntry,
        Store.dropBid]
  · -- an ask
    have hna := hw.mem_askNodes hn hside
    obtain ⟨l₁, pre, post, l₂, hm⟩ := exists_level_split hw.asks hna
    obtain ⟨before, after, ha, ha'⟩ := dropAsk_askNodes hm
    have hlevel : ((pre ++ n :: post).map Node.addr).Nodup := by
      rw [Store.nodes, askNodes_of_split hm] at haddrs
      refine List.Nodup.sublist ?_ haddrs
      apply List.Sublist.map
      exact ((List.sublist_append_left _ _).trans (List.sublist_append_right _ _)).trans
        (List.sublist_append_right _ _)
    have hnb : n ∉ s.bidNodes := fun hnb => hdisj n hnb n hna rfl
    have hasks : before ++ after = s.askNodes.erase n := by
      rw [ha] at hanodup ⊢
      exact (erase_of_split hanodup).symm
    have hbids : s.bidNodes = s.bidNodes.erase n := (List.erase_of_not_mem hnb).symm
    have hd := hw.dropAsk hm
    have he := dropAsk_entries hm
    have hrun := run_eraseNode (s := s) hlevel
    have hlookup := hw.lookup_idAt hn
    have hfind := OrderedMap.find?_of_split hm
    unfold Store.orderAt at hside
    generalize pre ++ post = rest at hd he ha' hrun
    rcases rest with _ | ⟨m, rest⟩
    · -- the level is empty now
      refine ⟨(s.dropAsk (s.heap n.order).price n []).closeAsk (s.heap n.order).price, ?_,
        hd.closeAsk he, hbids, (closeAsk_askNodes he).trans (ha'.trans hasks), rfl, id,
        noEmptyLevel_of_close hm (OrderedMap.entries_erase_of_split he), rfl, rfl⟩
      simp [cancelOrderInternal, hlookup, deref, hside, hfind, hrun, setAskLevel, eraseEntry,
        eraseAskLevel, Store.dropAsk, Store.closeAsk]
    · refine ⟨s.dropAsk (s.heap n.order).price n (m :: rest), ?_, hd, hbids, ha'.trans hasks, rfl,
        id, noEmptyLevel_of_drop hm he (List.cons_ne_nil _ _), rfl, rfl⟩
      simp [cancelOrderInternal, hlookup, deref, hside, hfind, hrun, setAskLevel, eraseEntry,
        Store.dropAsk]

/-! ## The one-sided view of a call -/

/-- Among bids the higher price goes first: the comparator of `bids_`. -/
def BetterBid (x y : OrderTerms) : Prop := x.price > y.price

/-- Among asks the lower price goes first: the comparator of `asks_`. -/
def BetterAsk (x y : OrderTerms) : Prop := x.price < y.price

/-- Which of two bids is better is decided. -/
instance : DecidableRel BetterBid := fun x y => inferInstanceAs (Decidable (x.price > y.price))

/-- Which of two asks is better is decided. -/
instance : DecidableRel BetterAsk := fun x y => inferInstanceAs (Decidable (x.price < y.price))

/-- What an accepted order does to the two queues. -/
structure Placing where
  fills : List (Fill OrderTerms)
  left : Option ℕ
  sides : Sides OrderTerms

/-- Append a resting order to its side. -/
def fileOrder (o : OrderTerms) (q : ℕ) (s : Sides OrderTerms) : Sides OrderTerms :=
  match o.side with
  | .Buy => ⟨file BetterBid o (some q) s.bids, s.asks⟩
  | .Sell => ⟨s.bids, file BetterAsk o (some q) s.asks⟩

/-- Sweep the other side with an order and file what is left. -/
def placeOrder (o : OrderTerms) (q : ℕ) (s : Sides OrderTerms) : Placing :=
  match o.side with
  | .Buy =>
      let w := place BetterBid (Crosses o) o q s.bids s.asks
      ⟨w.fills.map fun p => ⟨o, p.1, p.2⟩, w.left, ⟨w.own, w.opposite⟩⟩
  | .Sell =>
      let w := place BetterAsk (fun b => Crosses b o) o q s.asks s.bids
      ⟨w.fills.map fun p => ⟨p.1, o, p.2⟩, w.left, ⟨w.opposite, w.own⟩⟩

/-- The queues without the orders of an id. -/
def withdraw (id : OrderId) (s : Sides OrderTerms) : Sides OrderTerms where
  bids := s.bids.filter fun r => decide (r.terms.orderId ≠ id)
  asks := s.asks.filter fun r => decide (r.terms.orderId ≠ id)

/-- Place an order, and take back what is left of it if it is fill-and-kill. -/
def acceptOrder (o : OrderTerms) (q : ℕ) (s : Sides OrderTerms) : Placing :=
  match o.orderType with
  | .GoodTillCancel => placeOrder o q s
  | .FillAndKill =>
      { placeOrder o q s with sides := withdraw o.orderId (placeOrder o q s).sides }

/-! ### Cancelling -/

/-- Erasing the node of an id takes the order with that id out of the queue. -/
theorem map_erase_eq_filter {heap : OrderPointer → Order} {nodes : List Node} {n : Node}
    (hnodup : (nodes.map fun m => (heap m.order).orderId).Nodup) (hn : n ∈ nodes) :
    (nodes.erase n).map (fun m => (heap m.order).resting) =
      (nodes.map fun m => (heap m.order).resting).filter
        fun r => decide (r.terms.orderId ≠ (heap n.order).orderId) := by
  obtain ⟨before, after, rfl⟩ := List.append_of_mem hn
  rw [erase_of_split (List.Nodup.of_map _ hnodup)]
  rw [List.map_append, List.map_cons, List.nodup_append, List.nodup_cons] at hnodup
  obtain ⟨-, ⟨hafter, -⟩, hbefore⟩ := hnodup
  have hb : ∀ m ∈ before, (heap m.order).orderId ≠ (heap n.order).orderId := fun m hm =>
    hbefore _ (List.mem_map_of_mem hm) _ List.mem_cons_self
  have ha : ∀ m ∈ after, (heap m.order).orderId ≠ (heap n.order).orderId := fun m hm heq =>
    hafter (List.mem_map.mpr ⟨m, hm, heq⟩)
  rw [List.map_append, List.map_append, List.map_cons, List.filter_append,
    List.filter_cons_of_neg (by simp), List.filter_eq_self.mpr, List.filter_eq_self.mpr]
  · simpa using ha
  · simpa using hb

/-- An id that no node has is taken out of nothing. -/
theorem filter_of_not_mem {heap : OrderPointer → Order} {nodes : List Node} {id : OrderId}
    (h : ∀ m ∈ nodes, (heap m.order).orderId ≠ id) :
    (nodes.map fun m => (heap m.order).resting).filter
        (fun r => decide (r.terms.orderId ≠ id)) =
      nodes.map fun m => (heap m.order).resting := by
  rw [List.filter_eq_self]
  simpa using h

/-- Removing a node withdraws its order from the queues. -/
theorem Removed.sides (h : Removed s n s') (hw : WellIndexed s) (hn : n ∈ s.nodes) :
    s'.sides = withdraw (s.idAt n) s.sides := by
  have hids := hw.nodes.ids_nodup
  rw [Store.nodes, List.map_append, List.nodup_append] at hids
  obtain ⟨hbids, hasks, hdisj⟩ := hids
  unfold Store.sides withdraw Store.orderAt
  rw [h.bids, h.asks, h.heap]
  congr 1
  · by_cases hnb : n ∈ s.bidNodes
    · exact map_erase_eq_filter hbids hnb
    · rw [List.erase_of_not_mem hnb]
      have hna : n ∈ s.askNodes := by
        rcases List.mem_append.mp hn with h | h
        · exact absurd h hnb
        · exact h
      exact (filter_of_not_mem fun m hm heq =>
        hdisj _ (List.mem_map_of_mem hm) _ (List.mem_map_of_mem hna) heq).symm
  · by_cases hna : n ∈ s.askNodes
    · exact map_erase_eq_filter hasks hna
    · rw [List.erase_of_not_mem hna]
      have hnb : n ∈ s.bidNodes := by
        rcases List.mem_append.mp hn with h | h
        · exact h
        · exact absurd h hna
      exact (filter_of_not_mem fun m hm heq =>
        hdisj _ (List.mem_map_of_mem hnb) _ (List.mem_map_of_mem hm) heq.symm).symm

/-- The nodes after a removal are the others. -/
theorem Removed.mem_nodes_iff (h : Removed s n s') (hw : WellIndexed s) {m : Node} :
    m ∈ s'.nodes ↔ m ∈ s.nodes ∧ m ≠ n := by
  have hnodup := hw.nodes_nodup
  rw [Store.nodes, List.nodup_append] at hnodup
  rw [Store.nodes, h.bids, h.asks, List.mem_append, hnodup.1.mem_erase_iff,
    hnodup.2.1.mem_erase_iff, Store.nodes, List.mem_append]
  tauto

/-- Removing an order keeps the invariant. -/
theorem Removed.invariant (h : Removed s n s') (hi : Invariant s) (hn : n ∈ s.nodes) :
    Invariant s' := by
  refine ⟨h.wellIndexed, h.bids_nonempty hi.bids_nonempty, h.asks_nonempty hi.asks_nonempty, ?_,
    ?_⟩
  · rw [h.sides hi.toWellIndexed hn]
    intro b hb a ha
    exact hi.uncrossed b (List.mem_of_mem_filter hb) a (List.mem_of_mem_filter ha)
  · intro m hm
    unfold Store.orderAt
    rw [h.heap]
    exact hi.goodTillCancel m ((h.mem_nodes_iff hi.toWellIndexed).mp hm).1

/-- **`CancelOrder`** answers whether the id is live, and withdraws that order. -/
theorem cancelOrder_returns (hi : Invariant s) (id : OrderId) :
    (id ∉ s.book.ordersMap ∧ (cancelOrder id).run s = .returned false s) ∨
      ∃ n ∈ s.nodes, s.idAt n = id ∧ ∃ s', (cancelOrder id).run s = .returned true s' ∧
        Removed s n s' := by
  by_cases hmem : id ∈ s.book.ordersMap
  · right
    obtain ⟨n, hn, rfl⟩ := hi.mem_ordersMap_iff.mp hmem
    obtain ⟨s', hrun, hremoved⟩ := cancelOrderInternal_returns hi.toWellIndexed hn
    refine ⟨n, hn, rfl, s', ?_, hremoved⟩
    simp [cancelOrder, hmem, hrun]
  · left
    exact ⟨hmem, by simp [cancelOrder, hmem]⟩

/-! ### Adding -/

/-- The store with an order appended to its level and indexed. -/
def Store.pushOrder (s : Store) (p : OrderPointer) : Store :=
  match (s.heap p).side with
  | .Buy => s.pushBid p
  | .Sell => s.pushAsk p

section adding

variable {p : OrderPointer}

/-- Inserting an order writes `pushOrder`. -/
theorem run_insertOrder : (insertOrder p).run s = .returned () (s.pushOrder p) := by
  unfold Store.pushOrder
  rcases hside : (s.heap p).side with _ | _ <;>
    simp [insertOrder, deref, hside, Store.pushBid, Store.pushAsk]

/-- An insertion writes no order. -/
@[simp] theorem pushOrder_heap : (s.pushOrder p).heap = s.heap := by
  unfold Store.pushOrder
  split <;> rfl

/-- An insertion makes no order. -/
@[simp] theorem pushOrder_nextOrder : (s.pushOrder p).nextOrder = s.nextOrder := by
  unfold Store.pushOrder
  split <;> rfl

/-- An insertion makes one node. -/
@[simp] theorem pushOrder_nextNode : (s.pushOrder p).nextNode = s.nextNode + 1 := by
  unfold Store.pushOrder
  split <;> rfl

/-- The nodes after an insertion, but for their order. -/
theorem pushOrder_nodes_perm (h : WellIndexed s) :
    (s.pushOrder p).nodes.Perm (⟨s.nextNode, p⟩ :: s.nodes) := by
  unfold Store.pushOrder
  split
  · exact pushBid_nodes_perm h
  · exact pushAsk_nodes_perm h

/-- A node after an insertion is the new one or was there. -/
theorem mem_pushOrder_nodes (h : WellIndexed s) {n : Node} :
    n ∈ (s.pushOrder p).nodes ↔ n = ⟨s.nextNode, p⟩ ∨ n ∈ s.nodes := by
  rw [(pushOrder_nodes_perm h).mem_iff, List.mem_cons]

/-- An insertion of a fresh order keeps the index. -/
theorem WellIndexed.pushOrder (h : WellIndexed s)
    (hid : (s.heap p).orderId ∉ s.book.ordersMap) (hp : p < s.nextOrder) :
    WellIndexed (s.pushOrder p) := by
  unfold Store.pushOrder
  split
  · exact h.pushBid ‹_› hid hp
  · exact h.pushAsk ‹_› hid hp

/-- An insertion leaves no level empty. -/
theorem pushOrder_nonempty (hb : NoEmptyLevel s.book.bids) (ha : NoEmptyLevel s.book.asks) :
    NoEmptyLevel (s.pushOrder p).book.bids ∧ NoEmptyLevel (s.pushOrder p).book.asks := by
  unfold Store.pushOrder
  split
  · exact ⟨OrderedMap.push_ne_nil hb, ha⟩
  · exact ⟨hb, OrderedMap.push_ne_nil ha⟩

/-- Appending an order to its level files it into its queue. -/
theorem pushOrder_sides (h : WellIndexed s) :
    (s.pushOrder p).sides =
      fileOrder (s.heap p).toOrderTerms (s.heap p).remainingQuantity.toNat s.sides := by
  unfold Store.pushOrder fileOrder
  rcases hside : (s.heap p).side with _ | _
  · have hmap := List.map_orderedInsert
      (r := fun n m : Node => (s.heap n.order).price > (s.heap m.order).price)
      (fun r r' : Resting OrderTerms => BetterBid r.terms r'.terms)
      (fun n => (s.heap n.order).resting) s.bidNodes ⟨s.nextNode, p⟩ (fun _ _ => Iff.rfl)
      (fun _ _ => Iff.rfl)
    simp only [Store.sides]
    rw [pushBid_bidNodes h]
    exact congrArg (Sides.mk · _) hmap
  · have hmap := List.map_orderedInsert
      (r := fun n m : Node => (s.heap n.order).price < (s.heap m.order).price)
      (fun r r' : Resting OrderTerms => BetterAsk r.terms r'.terms)
      (fun n => (s.heap n.order).resting) s.askNodes ⟨s.nextNode, p⟩ (fun _ _ => Iff.rfl)
      (fun _ _ => Iff.rfl)
    simp only [Store.sides]
    rw [pushAsk_askNodes h]
    exact congrArg (Sides.mk _) hmap

end adding

/-- **Matching after filing an order is placing it**, in an uncrossed book. -/
theorem placeOrder_runs (o : OrderTerms) (q : ℕ) {sides : Sides OrderTerms}
    (h : Uncrossed sides) :
    Runs Crosses (fileOrder o q sides) (placeOrder o q sides).fills (placeOrder o q sides).sides ∧
      crossStep Crosses (placeOrder o q sides).sides = none := by
  have huncrossed : ∀ b ∈ sides.bids, ∀ a ∈ sides.asks, ¬ Crosses b.terms a.terms :=
    fun b hb a ha => not_not_intro (h b hb a ha)
  unfold fileOrder placeOrder
  rcases o.side with _ | _
  · apply place_runs_bid huncrossed
    intro b hb a ha hc
    exact UInt32.lt_of_lt_of_le (h b hb a ha) (UInt32.not_lt.mp hc)
  · apply place_runs_ask huncrossed
    intro a ha b hb hc
    exact UInt32.lt_of_le_of_lt (UInt32.not_lt.mp hc) (h b hb a ha)

/-! ### The order that came in -/

/-- All resting orders of two queues. -/
def restingOrders (s : Sides OrderTerms) : List (Resting OrderTerms) := s.bids ++ s.asks

/-- The resting orders are those of the nodes. -/
theorem mem_restingOrders {r : Resting OrderTerms} :
    r ∈ restingOrders s.sides ↔ ∃ n ∈ s.nodes, (s.orderAt n).resting = r := by
  simp [restingOrders, Store.sides, Store.nodes, ← List.map_append]

/-- Who is in a queue after the order has been filed is the order or was there. -/
theorem mem_file_imp {before : OrderTerms → OrderTerms → Prop} [DecidableRel before]
    {o : OrderTerms} {left : Option ℕ} {own : List (Resting OrderTerms)} {r : Resting OrderTerms}
    (h : r ∈ file before o left own) : (∃ q, left = some q ∧ r = ⟨o, q⟩) ∨ r ∈ own := by
  rcases left with _ | q
  · exact Or.inr h
  · rcases (List.mem_orderedInsert _).mp h with rfl | h
    · exact Or.inl ⟨q, rfl, rfl⟩
    · exact Or.inr h

/-- An order of which something is left is in its queue. -/
theorem mem_file_self {before : OrderTerms → OrderTerms → Prop} [DecidableRel before]
    {o : OrderTerms} {q : ℕ} {own : List (Resting OrderTerms)} :
    ⟨o, q⟩ ∈ file before o (some q) own :=
  (List.mem_orderedInsert _).mpr (Or.inl rfl)

/-- Placing a buy order sweeps the asks and files what is left among the bids. -/
theorem placeOrder_buy {o : OrderTerms} (h : o.side = .Buy) (q : ℕ) (sides : Sides OrderTerms) :
    placeOrder o q sides =
      ⟨(sweep (Crosses o) q sides.asks).fills.map fun p => ⟨o, p.1, p.2⟩,
        (sweep (Crosses o) q sides.asks).left,
        ⟨file BetterBid o (sweep (Crosses o) q sides.asks).left sides.bids,
          (sweep (Crosses o) q sides.asks).queue⟩⟩ := by
  simp only [placeOrder, h]
  rfl

/-- Placing a sell order sweeps the bids and files what is left among the asks. -/
theorem placeOrder_sell {o : OrderTerms} (h : o.side = .Sell) (q : ℕ) (sides : Sides OrderTerms) :
    placeOrder o q sides =
      ⟨(sweep (fun b => Crosses b o) q sides.bids).fills.map fun p => ⟨p.1, o, p.2⟩,
        (sweep (fun b => Crosses b o) q sides.bids).left,
        ⟨(sweep (fun b => Crosses b o) q sides.bids).queue,
          file BetterAsk o (sweep (fun b => Crosses b o) q sides.bids).left sides.asks⟩⟩ := by
  simp only [placeOrder, h]
  rfl

/-- What rests after placing an order is what is left of it, or rested before. -/
theorem mem_placeOrder_imp {o : OrderTerms} {q : ℕ} {sides : Sides OrderTerms}
    {r : Resting OrderTerms} (h : r ∈ restingOrders (placeOrder o q sides).sides) :
    (∃ q', (placeOrder o q sides).left = some q' ∧ r = ⟨o, q'⟩) ∨
      ∃ r' ∈ restingOrders sides, r'.terms = r.terms := by
  rcases hside : o.side with _ | _
  · rw [placeOrder_buy hside] at h ⊢
    rcases List.mem_append.mp h with h | h
    · rcases mem_file_imp h with h | h
      · exact Or.inl h
      · exact Or.inr ⟨r, List.mem_append_left _ h, rfl⟩
    · obtain ⟨r', hr', hterms, -⟩ := mem_sweep_queue h
      exact Or.inr ⟨r', List.mem_append_right _ hr', hterms⟩
  · rw [placeOrder_sell hside] at h ⊢
    rcases List.mem_append.mp h with h | h
    · obtain ⟨r', hr', hterms, -⟩ := mem_sweep_queue h
      exact Or.inr ⟨r', List.mem_append_left _ hr', hterms⟩
    · rcases mem_file_imp h with h | h
      · exact Or.inl h
      · exact Or.inr ⟨r, List.mem_append_right _ h, rfl⟩

/-- What is left of a placed order rests. -/
theorem left_mem_placeOrder {o : OrderTerms} {q q' : ℕ} {sides : Sides OrderTerms}
    (h : (placeOrder o q sides).left = some q') :
    ⟨o, q'⟩ ∈ restingOrders (placeOrder o q sides).sides := by
  rcases hside : o.side with _ | _
  · rw [placeOrder_buy hside] at h ⊢
    apply List.mem_append_left
    simp only at h ⊢
    rw [h]
    exact mem_file_self
  · rw [placeOrder_sell hside] at h ⊢
    apply List.mem_append_right
    simp only at h ⊢
    rw [h]
    exact mem_file_self

/-- What `AddOrder` does with an order that it takes, and answers `ts`. -/
structure Accepted (s : Store) (p : OrderPointer) (ts : Trades) (s' : Store) : Prop where
  invariant : Invariant s'
  records : List.Forall₂ Trade.Records ts
    (acceptOrder (s.heap p).toOrderTerms (s.heap p).remainingQuantity.toNat s.sides).fills
  sides : s'.sides =
    (acceptOrder (s.heap p).toOrderTerms (s.heap p).remainingQuantity.toNat s.sides).sides
  remaining : (s'.heap p).remainingQuantity.toNat =
    (acceptOrder (s.heap p).toOrderTerms (s.heap p).remainingQuantity.toNat s.sides).left.getD 0
  /-- The matching that took place, before a fill-and-kill remainder was removed. -/
  matched : ∃ s₂, Matched (s.pushOrder p) ts s₂ ∧ s'.heap = s₂.heap ∧
    ∀ n, n ∈ s'.nodes ↔
      n ∈ s₂.nodes ∧ ((s.heap p).orderType = .FillAndKill → n ≠ ⟨s.nextNode, p⟩)
  nextOrder : s'.nextOrder = s.nextOrder
  nextNode : s'.nextNode = s.nextNode + 1

section accepted

variable {p : OrderPointer} {ts : Trades}

/-- The order that came in, after matching. -/
theorem Matched.incoming {s₂ : Store} (h : Matched (s.pushOrder p) ts s₂) (hw : WellIndexed s)
    (hid : (s.heap p).orderId ∉ s.book.ordersMap) (hp : p < s.nextOrder)
    (hsides : s₂.sides =
      (placeOrder (s.heap p).toOrderTerms (s.heap p).remainingQuantity.toNat s.sides).sides) :
    (⟨s.nextNode, p⟩ ∈ s₂.nodes ↔
      (placeOrder (s.heap p).toOrderTerms (s.heap p).remainingQuantity.toNat
        s.sides).left.isSome) ∧
    (s₂.heap p).remainingQuantity.toNat =
      (placeOrder (s.heap p).toOrderTerms (s.heap p).remainingQuantity.toNat
        s.sides).left.getD 0 := by
  have hpush := hw.pushOrder hid hp
  have hown : (⟨s.nextNode, p⟩ : Node) ∈ (s.pushOrder p).nodes :=
    (mem_pushOrder_nodes hw).mpr (Or.inl rfl)
  have hterms : (s₂.heap p).toOrderTerms = (s.heap p).toOrderTerms := by
    rw [h.terms p, pushOrder_heap]
  rcases hleft : (placeOrder (s.heap p).toOrderTerms (s.heap p).remainingQuantity.toNat
      s.sides).left with _ | q'
  · have hnot : (⟨s.nextNode, p⟩ : Node) ∉ s₂.nodes := by
      intro hmem
      have hrest : (s₂.heap p).resting ∈ restingOrders s₂.sides :=
        mem_restingOrders.mpr ⟨_, hmem, rfl⟩
      rw [hsides] at hrest
      rcases mem_placeOrder_imp hrest with ⟨q', hq', -⟩ | ⟨r', hr', heq⟩
      · rw [hleft] at hq'
        cases hq'
      · obtain ⟨n, hn, rfl⟩ := mem_restingOrders.mp hr'
        apply hid
        refine hw.mem_ordersMap_iff.mpr ⟨n, hn, ?_⟩
        rw [Order.resting_terms, Order.resting_terms, hterms] at heq
        exact congrArg OrderTerms.orderId heq
    exact ⟨by simp [hnot], h.popped _ hown hnot⟩
  · have hrest := left_mem_placeOrder hleft
    rw [← hsides] at hrest
    obtain ⟨n, hn, hr⟩ := mem_restingOrders.mp hrest
    have hn₀ : n = ⟨s.nextNode, p⟩ := by
      apply hpush.nodes.eq_of_id (h.mem_nodes hn) hown
      have hid' := congrArg (fun r : Resting OrderTerms => r.terms.orderId) hr
      rw [pushOrder_heap]
      have hn' := congrArg OrderTerms.orderId (h.terms n.order)
      rw [pushOrder_heap] at hn'
      exact hn'.symm.trans hid'
    subst hn₀
    exact ⟨by simp [hn], congrArg Resting.qty hr⟩

/-- `CanMatch` tells whether the front of the other side is hit. -/
theorem canMatch_iff_hits (hi : Invariant s) (o : OrderTerms) :
    s.book.canMatch o.side o.price = true ↔
      match o.side with
      | .Buy => ∃ a ∈ s.sides.asks.head?, Crosses o a.terms
      | .Sell => ∃ b ∈ s.sides.bids.head?, Crosses b.terms o := by
  rcases hside : o.side with _ | _
  · rcases ha : s.book.asks.entries with _ | ⟨⟨pa, la⟩, ea⟩
    · have hnil : s.askNodes = [] := by simp [Store.askNodes, OrderedMap.flat, ha]
      simp [OrderBook.canMatch, OrderedMap.begin?, ha, Store.sides, hnil]
    · rcases la with _ | ⟨a, la⟩
      · exact absurd rfl ((noEmptyLevel_cons ha).mp hi.asks_nonempty).1
      have hpa : (s.orderAt a).price = pa :=
        hi.asks.keyed (pa, a :: la) (by simp [ha]) a (by simp)
      simp [OrderBook.canMatch, OrderedMap.begin?, ha, Store.sides,
        askNodes_of_split (head_split ha), Crosses, hpa]
  · rcases hb : s.book.bids.entries with _ | ⟨⟨pb, lb⟩, eb⟩
    · have hnil : s.bidNodes = [] := by simp [Store.bidNodes, OrderedMap.flat, hb]
      simp [OrderBook.canMatch, OrderedMap.begin?, hb, Store.sides, hnil]
    · rcases lb with _ | ⟨b, lb⟩
      · exact absurd rfl ((noEmptyLevel_cons hb).mp hi.bids_nonempty).1
      have hpb : (s.orderAt b).price = pb :=
        hi.bids.keyed (pb, b :: lb) (by simp [hb]) b (by simp)
      simp [OrderBook.canMatch, OrderedMap.begin?, hb, Store.sides,
        bidNodes_of_split (head_split hb), Crosses, hpb]

/-- An order that hits the front of a queue and has something left has a positive quantity left. -/
theorem left_pos_of_hits {hits : OrderTerms → Prop} [DecidablePred hits] {q q' : ℕ}
    {rs : List (Resting OrderTerms)} (hhit : ∃ r ∈ rs.head?, hits r.terms)
    (h : (sweep hits q rs).left = some q') : 0 < q' := by
  obtain ⟨pre, rest, rfl, -, -, -, -, hrest, hpos⟩ := sweep_of_left h
  apply hpos
  rintro rfl
  obtain ⟨r, hr, hhr⟩ := hhit
  exact hrest r hr hhr

/-- An order that crosses something does not end up with nothing open in its queue. -/
theorem left_pos_of_canMatch (hi : Invariant s) {o : OrderTerms} {q q' : ℕ}
    (hcan : s.book.canMatch o.side o.price = true)
    (h : (placeOrder o q s.sides).left = some q') : 0 < q' := by
  have hhit := (canMatch_iff_hits hi o).mp hcan
  rcases hside : o.side with _ | _
  · rw [placeOrder_buy hside] at h
    rw [hside] at hhit
    exact left_pos_of_hits hhit h
  · rw [placeOrder_sell hside] at h
    rw [hside] at hhit
    exact left_pos_of_hits hhit h

/-- Two sorted queues whose fronts do not cross are uncrossed. -/
theorem WellIndexed.uncrossed_of_crossStep (h : WellIndexed s)
    (hstop : crossStep Crosses s.sides = none) : Uncrossed s.sides := by
  have hbids : s.bidNodes.Pairwise fun n m => ¬ (s.heap m.order).price > (s.heap n.order).price :=
    OrderedMap.flat_pairwise h.bids.keyed
  have hasks : s.askNodes.Pairwise fun n m => ¬ (s.heap m.order).price < (s.heap n.order).price :=
    OrderedMap.flat_pairwise h.asks.keyed
  intro rb hrb ra hra
  obtain ⟨b', hb', rfl⟩ := List.mem_map.mp hrb
  obtain ⟨a', ha', rfl⟩ := List.mem_map.mp hra
  rcases hbn : s.bidNodes with _ | ⟨b, bs⟩
  · simp [hbn] at hb'
  rcases han : s.askNodes with _ | ⟨a, as⟩
  · simp [han] at ha'
  have hnot : ¬ Crosses (s.orderAt b).toOrderTerms (s.orderAt a).toOrderTerms := by
    intro hc
    simp [crossStep, Store.sides, hbn, han, hc] at hstop
  have hlt : (s.heap b.order).price < (s.heap a.order).price := not_not.mp hnot
  have hb : (s.heap b'.order).price ≤ (s.heap b.order).price := by
    rw [hbn] at hb' hbids
    rcases List.mem_cons.mp hb' with rfl | hb'
    · exact UInt32.le_refl _
    · exact UInt32.not_lt.mp ((List.pairwise_cons.mp hbids).1 b' hb')
  have ha : (s.heap a.order).price ≤ (s.heap a'.order).price := by
    rw [han] at ha' hasks
    rcases List.mem_cons.mp ha' with rfl | ha'
    · exact UInt32.le_refl _
    · exact UInt32.not_lt.mp ((List.pairwise_cons.mp hasks).1 a' ha')
  exact UInt32.lt_of_le_of_lt hb (UInt32.lt_of_lt_of_le hlt ha)

/-- An order has been filed in the book `s` and matched. -/
structure Entered (s : Store) (p : OrderPointer) (ts : Trades) (s₂ : Store) : Prop where
  before : Invariant s
  fresh : (s.heap p).orderId ∉ s.book.ordersMap
  allocated : p < s.nextOrder
  matched : Matched (s.pushOrder p) ts s₂
  bids_nonempty : NoEmptyLevel s₂.book.bids
  asks_nonempty : NoEmptyLevel s₂.book.asks
  uncrossed : Uncrossed s₂.sides
  records : List.Forall₂ Trade.Records ts
    (placeOrder (s.heap p).toOrderTerms (s.heap p).remainingQuantity.toNat s.sides).fills
  sides : s₂.sides =
    (placeOrder (s.heap p).toOrderTerms (s.heap p).remainingQuantity.toNat s.sides).sides

/-- Appending and matching places the order. -/
theorem matchOrders_places (hi : Invariant s) (hid : (s.heap p).orderId ∉ s.book.ordersMap)
    (hp : p < s.nextOrder) :
    ∃ ts s₂, matchOrders.run (s.pushOrder p) = .returned ts s₂ ∧ Entered s p ts s₂ := by
  have hw := hi.toWellIndexed
  obtain ⟨hb, ha⟩ := pushOrder_nonempty (p := p) hi.bids_nonempty hi.asks_nonempty
  obtain ⟨ts, s₂, hrun, hm, hb₂, ha₂, hstop⟩ := matchOrders_returns (hw.pushOrder hid hp) hb ha
  obtain ⟨fs, hruns, hrec⟩ := hm.runs
  obtain ⟨hplace, hpstop⟩ := placeOrder_runs (s.heap p).toOrderTerms
    (s.heap p).remainingQuantity.toNat hi.uncrossed
  rw [pushOrder_sides hw] at hruns
  obtain ⟨rfl, hsides⟩ := hruns.unique hstop hplace hpstop
  exact ⟨ts, s₂, hrun, hi, hid, hp, hm, hb₂, ha₂,
    hm.wellIndexed.uncrossed_of_crossStep hstop, hrec, hsides⟩

/-- The book after matching, with a fill-and-kill remainder taken back, is in order. -/
theorem Matched.goodTillCancel {s₂ : Store} (h : Matched (s.pushOrder p) ts s₂) (hi : Invariant s)
    {n : Node} (hn : n ∈ s₂.nodes)
    (hown : (s.heap p).orderType = .FillAndKill → n ≠ ⟨s.nextNode, p⟩) :
    (s₂.orderAt n).orderType = .GoodTillCancel := by
  have hterms : (s₂.orderAt n).toOrderTerms = (s.orderAt n).toOrderTerms := by
    have hn' := h.terms n.order
    rw [pushOrder_heap] at hn'
    exact hn'
  rw [hterms]
  rcases (mem_pushOrder_nodes hi.toWellIndexed).mp (h.mem_nodes hn) with rfl | hmem
  · rcases htype : (s.heap p).orderType with _ | _
    · exact htype
    · exact absurd rfl (hown htype)
  · exact hi.goodTillCancel n hmem

/-- Withdrawing an id that does not rest changes nothing. -/
theorem withdraw_of_not_mem {id : OrderId} {sides : Sides OrderTerms}
    (h : ∀ r ∈ restingOrders sides, r.terms.orderId ≠ id) : withdraw id sides = sides := by
  have hb : sides.bids.filter (fun r => decide (r.terms.orderId ≠ id)) = sides.bids := by
    rw [List.filter_eq_self]
    intro r hr
    simpa using h r (List.mem_append_left _ hr)
  have ha : sides.asks.filter (fun r => decide (r.terms.orderId ≠ id)) = sides.asks := by
    rw [List.filter_eq_self]
    intro r hr
    simpa using h r (List.mem_append_right _ hr)
  unfold withdraw
  rw [hb, ha]

namespace Entered

variable {s₂ s₃ : Store}

/-- The order that has come in keeps its terms. -/
theorem terms (h : Entered s p ts s₂) : (s₂.heap p).toOrderTerms = (s.heap p).toOrderTerms := by
  rw [h.matched.terms p, pushOrder_heap]

/-- The node of the order that has come in has its id. -/
theorem idAt (h : Entered s p ts s₂) : s₂.idAt ⟨s.nextNode, p⟩ = (s.heap p).orderId :=
  congrArg OrderTerms.orderId h.terms

/-- Entering makes no further order. -/
theorem nextOrder (h : Entered s p ts s₂) : s₂.nextOrder = s.nextOrder := by
  rw [h.matched.nextOrder, pushOrder_nextOrder]

/-- Entering makes one node. -/
theorem nextNode (h : Entered s p ts s₂) : s₂.nextNode = s.nextNode + 1 := by
  rw [h.matched.nextNode, pushOrder_nextNode]

/-- The order that has come in rests exactly if something is left of it, and with so much open. -/
theorem incoming (h : Entered s p ts s₂) :
    (⟨s.nextNode, p⟩ ∈ s₂.nodes ↔
      (placeOrder (s.heap p).toOrderTerms (s.heap p).remainingQuantity.toNat
        s.sides).left.isSome) ∧
    (s₂.heap p).remainingQuantity.toNat =
      (placeOrder (s.heap p).toOrderTerms (s.heap p).remainingQuantity.toNat
        s.sides).left.getD 0 :=
  h.matched.incoming h.before.toWellIndexed h.fresh h.allocated h.sides

/-- A good-till-cancel order stays as it has been matched. -/
theorem accepted_of_goodTillCancel (h : Entered s p ts s₂)
    (htype : (s.heap p).orderType = .GoodTillCancel) : Accepted s p ts s₂ := by
  have hacc : acceptOrder (s.heap p).toOrderTerms (s.heap p).remainingQuantity.toNat s.sides =
      placeOrder (s.heap p).toOrderTerms (s.heap p).remainingQuantity.toNat s.sides := by
    simp only [acceptOrder, htype]
  refine ⟨⟨h.matched.wellIndexed, h.bids_nonempty, h.asks_nonempty, h.uncrossed, ?_⟩, ?_, ?_, ?_,
    ⟨s₂, h.matched, rfl, ?_⟩, h.nextOrder, h.nextNode⟩
  · intro n hn
    exact h.matched.goodTillCancel h.before hn (by simp [htype])
  · rw [hacc]
    exact h.records
  · rw [hacc]
    exact h.sides
  · rw [hacc]
    exact h.incoming.2
  · simp [htype]

/-- Of a `FillAndKill` order what is left is withdrawn. -/
theorem acceptOrder_of_fillAndKill (h : Entered s p ts s₂)
    (htype : (s.heap p).orderType = .FillAndKill) :
    acceptOrder (s.heap p).toOrderTerms (s.heap p).remainingQuantity.toNat s.sides =
      { placeOrder (s.heap p).toOrderTerms (s.heap p).remainingQuantity.toNat s.sides with
        sides := withdraw (s.heap p).orderId s₂.sides } := by
  simp only [acceptOrder, htype, h.sides]

/-- A node with the id of the order is the order's. -/
theorem eq_of_idAt (h : Entered s p ts s₂) {n : Node} (hn : n ∈ s₂.nodes)
    (heq : s₂.idAt n = (s.heap p).orderId) : n = ⟨s.nextNode, p⟩ := by
  have hw := h.before.toWellIndexed
  apply (hw.pushOrder h.fresh h.allocated).nodes.eq_of_id (h.matched.mem_nodes hn)
    ((mem_pushOrder_nodes hw).mpr (Or.inl rfl))
  have hid : ((s.pushOrder p).heap n.order).orderId = (s.heap p).orderId :=
    (h.matched.idAt n).symm.trans heq
  rw [hid, pushOrder_heap]

/-- Of a fill-and-kill order that is filled nothing rests. -/
theorem not_mem_of_filled (h : Entered s p ts s₂)
    (hcan : s.book.canMatch (s.heap p).side (s.heap p).price = true)
    (hfilled : (s₂.heap p).isFilled = true) : (⟨s.nextNode, p⟩ : Node) ∉ s₂.nodes := by
  have hzero := (Order.isFilled_iff _).mp hfilled
  intro hmem
  obtain ⟨q', hleft⟩ := Option.isSome_iff_exists.mp (h.incoming.1.mp hmem)
  have hpos := left_pos_of_canMatch h.before hcan hleft
  rw [h.incoming.2, hleft, Option.getD_some] at hzero
  omega

/-- A fill-and-kill order of which nothing rests needs no cancel. -/
theorem accepted_of_not_mem (h : Entered s p ts s₂)
    (htype : (s.heap p).orderType = .FillAndKill)
    (hnot : (⟨s.nextNode, p⟩ : Node) ∉ s₂.nodes) : Accepted s p ts s₂ := by
  have hacc := h.acceptOrder_of_fillAndKill htype
  refine ⟨⟨h.matched.wellIndexed, h.bids_nonempty, h.asks_nonempty, h.uncrossed, ?_⟩, ?_, ?_, ?_,
    ⟨s₂, h.matched, rfl, ?_⟩, h.nextOrder, h.nextNode⟩
  · intro n hn
    exact h.matched.goodTillCancel h.before hn fun _ heq => hnot (heq ▸ hn)
  · rw [hacc]
    exact h.records
  · rw [hacc]
    symm
    apply withdraw_of_not_mem
    intro r hr heq
    obtain ⟨n, hn, rfl⟩ := mem_restingOrders.mp hr
    exact hnot (h.eq_of_idAt hn heq ▸ hn)
  · rw [hacc]
    exact h.incoming.2
  · intro n
    exact ⟨fun hn => ⟨hn, fun _ heq => hnot (heq ▸ hn)⟩, fun hn => hn.1⟩

/-- The rest of a fill-and-kill order is cancelled. -/
theorem accepted_of_removed (h : Entered s p ts s₂)
    (htype : (s.heap p).orderType = .FillAndKill) (hmem : (⟨s.nextNode, p⟩ : Node) ∈ s₂.nodes)
    (hremoved : Removed s₂ ⟨s.nextNode, p⟩ s₃) : Accepted s p ts s₃ := by
  have hacc := h.acceptOrder_of_fillAndKill htype
  have hiff := fun n => hremoved.mem_nodes_iff h.matched.wellIndexed (m := n)
  have hsides := hremoved.sides h.matched.wellIndexed hmem
  rw [h.idAt] at hsides
  refine ⟨⟨hremoved.wellIndexed, hremoved.bids_nonempty h.bids_nonempty,
    hremoved.asks_nonempty h.asks_nonempty, ?_, ?_⟩, ?_, ?_, ?_,
    ⟨s₂, h.matched, hremoved.heap, ?_⟩, hremoved.nextOrder.trans h.nextOrder,
    hremoved.nextNode.trans h.nextNode⟩
  · rw [hsides]
    intro b hb a ha
    exact h.uncrossed b (List.mem_of_mem_filter hb) a (List.mem_of_mem_filter ha)
  · intro n hn
    unfold Store.orderAt
    rw [hremoved.heap]
    obtain ⟨hn₂, hne⟩ := (hiff n).mp hn
    exact h.matched.goodTillCancel h.before hn₂ fun _ => hne
  · rw [hacc]
    exact h.records
  · rw [hacc]
    exact hsides
  · rw [hremoved.heap, hacc]
    exact h.incoming.2
  · intro n
    rw [hiff n]
    simp [htype]

end Entered

/-- **`AddOrder` of an order that it takes.** -/
theorem addOrder_accepts (hi : Invariant s) (hid : (s.heap p).orderId ∉ s.book.ordersMap)
    (hp : p < s.nextOrder)
    (hcan : (s.heap p).orderType = .FillAndKill →
      s.book.canMatch (s.heap p).side (s.heap p).price = true) :
    ∃ ts s', (addOrder p).run s = .returned (ts, some p) s' ∧ Accepted s p ts s' := by
  obtain ⟨ts, s₂, hrun, h⟩ := matchOrders_places hi hid hp
  have hterms := h.terms
  rcases htype : (s.heap p).orderType with _ | _
  · -- good till cancel
    refine ⟨ts, s₂, ?_, h.accepted_of_goodTillCancel htype⟩
    simp [addOrder, deref, hid, htype, run_insertOrder, hrun, hterms]
  · -- fill and kill
    by_cases hfilled : (s₂.heap p).isFilled = true
    · refine ⟨ts, s₂, ?_, h.accepted_of_not_mem htype (h.not_mem_of_filled (hcan htype) hfilled)⟩
      simp [addOrder, deref, hid, htype, hcan htype, run_insertOrder, hrun, hterms, hfilled]
    · -- the remainder is found through the id map and cancelled
      have hmem : (⟨s.nextNode, p⟩ : Node) ∈ s₂.nodes := by
        by_contra hnot
        apply hfilled
        apply (Order.isFilled_iff _).mpr
        exact h.matched.popped _ ((mem_pushOrder_nodes hi.toWellIndexed).mpr (Or.inl rfl)) hnot
      have hmap : (s.heap p).orderId ∈ s₂.book.ordersMap :=
        h.matched.wellIndexed.mem_ordersMap_iff.mpr ⟨_, hmem, h.idAt⟩
      obtain ⟨s₃, hcancel, hremoved⟩ := cancelOrderInternal_returns h.matched.wellIndexed hmem
      rw [h.idAt] at hcancel
      refine ⟨ts, s₃, ?_, h.accepted_of_removed htype hmem hremoved⟩
      simp [addOrder, deref, hid, htype, hcan htype, run_insertOrder, hrun, hterms, hfilled,
        hmap, hcancel]

end accepted

end FlowManager.Book
