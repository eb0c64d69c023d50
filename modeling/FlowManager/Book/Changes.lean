import FlowManager.Book.Representation

/-!
# The elementary changes of the book

Everything `AddOrder`, `CancelOrder` and `MatchOrders` do to the book is a sequence of four
changes: rewriting an order object through its pointer, removing a node from its level together
with its entry, erasing a level that has become empty, and appending a node to its level together
with its entry. For each: it keeps `WellIndexed`, and its effect on the node lists.

The bid and the ask side are stored in maps of different types, so each change on a level comes
twice; the arguments are shared through `SideOk` and `NodesOk`.
-/

namespace FlowManager.Book

open FlowManager.Lib FlowManager.Lib.PriceTime

variable {s : Store}

/-! ## Rewriting an object -/

/-- The store after `Order::Fill` through a pointer. -/
def Store.reduceAt (s : Store) (p : OrderPointer) (q : Quantity) : Store :=
  { s with heap := Function.update s.heap p ((s.heap p).reduce q) }

/-- A fill leaves the book. -/
@[simp] theorem reduceAt_book (p : OrderPointer) (q : Quantity) :
    (s.reduceAt p q).book = s.book := rfl

/-- A fill makes no order. -/
@[simp] theorem reduceAt_nextOrder (p : OrderPointer) (q : Quantity) :
    (s.reduceAt p q).nextOrder = s.nextOrder := rfl

/-- A fill makes no node. -/
@[simp] theorem reduceAt_nextNode (p : OrderPointer) (q : Quantity) :
    (s.reduceAt p q).nextNode = s.nextNode := rfl

/-- The order that is filled. -/
theorem reduceAt_heap_self (p : OrderPointer) (q : Quantity) :
    (s.reduceAt p q).heap p = (s.heap p).reduce q := Function.update_self ..

/-- A fill leaves the other orders. -/
theorem reduceAt_heap_of_ne {p p' : OrderPointer} (q : Quantity) (h : p' ≠ p) :
    (s.reduceAt p q).heap p' = s.heap p' := Function.update_of_ne h ..

/-- A fill leaves the terms of every order. -/
@[simp] theorem reduceAt_terms (p p' : OrderPointer) (q : Quantity) :
    ((s.reduceAt p q).heap p').toOrderTerms = (s.heap p').toOrderTerms := by
  by_cases h : p' = p
  · subst h
    rw [reduceAt_heap_self, Order.reduce_toOrderTerms]
  · rw [reduceAt_heap_of_ne q h]

/-- The invariant reads only the terms of the orders. -/
theorem WellIndexed.of_heap (h : WellIndexed s) {heap : OrderPointer → Order}
    (hterms : ∀ n ∈ s.nodes, (heap n.order).toOrderTerms = (s.heap n.order).toOrderTerms) :
    WellIndexed { s with heap := heap } where
  bids := h.bids.of_terms fun n hn => hterms n (List.mem_append_left _ hn)
  asks := h.asks.of_terms fun n hn => hterms n (List.mem_append_right _ hn)
  nodes := h.nodes.of_terms hterms
  order_lt := h.order_lt
  addr_lt := h.addr_lt

/-- A fill keeps the index. -/
theorem WellIndexed.reduceAt (h : WellIndexed s) (p : OrderPointer) (q : Quantity) :
    WellIndexed (s.reduceAt p q) :=
  h.of_heap fun n _ => reduceAt_terms p n.order q

/-! ## Removing a node -/

/-- A bid level without one of its nodes, and the id map without its entry. -/
def Store.dropBid (s : Store) (price : Price) (n : Node) (rest : OrderPointers) : Store :=
  { s with book.bids := s.book.bids.insert price rest,
           book.ordersMap := s.book.ordersMap.erase (s.idAt n) }

/-- An ask level without one of its nodes, and the id map without its entry. -/
def Store.dropAsk (s : Store) (price : Price) (n : Node) (rest : OrderPointers) : Store :=
  { s with book.asks := s.book.asks.insert price rest,
           book.ordersMap := s.book.ordersMap.erase (s.idAt n) }

section drop

variable {price : Price} {n : Node} {pre post : OrderPointers}
  {l₁ l₂ : List (Price × OrderPointers)}

/-- The bids, split at a level. -/
theorem bidNodes_of_split {level : OrderPointers}
    (hm : s.book.bids.entries = l₁ ++ (price, level) :: l₂) :
    s.bidNodes = l₁.flatMap Prod.snd ++ (level ++ l₂.flatMap Prod.snd) :=
  OrderedMap.flat_of_split hm

/-- The asks, split at a level. -/
theorem askNodes_of_split {level : OrderPointers}
    (hm : s.book.asks.entries = l₁ ++ (price, level) :: l₂) :
    s.askNodes = l₁.flatMap Prod.snd ++ (level ++ l₂.flatMap Prod.snd) :=
  OrderedMap.flat_of_split hm

/-- The levels once a bid has been taken out of its own. -/
theorem dropBid_entries (hm : s.book.bids.entries = l₁ ++ (price, pre ++ n :: post) :: l₂) :
    (s.dropBid price n (pre ++ post)).book.bids.entries = l₁ ++ (price, pre ++ post) :: l₂ :=
  OrderedMap.entries_insert_of_split hm

/-- The levels once an ask has been taken out of its own. -/
theorem dropAsk_entries (hm : s.book.asks.entries = l₁ ++ (price, pre ++ n :: post) :: l₂) :
    (s.dropAsk price n (pre ++ post)).book.asks.entries = l₁ ++ (price, pre ++ post) :: l₂ :=
  OrderedMap.entries_insert_of_split hm

/-- The bids once one has been taken out of its level. -/
theorem dropBid_bidNodes (hm : s.book.bids.entries = l₁ ++ (price, pre ++ n :: post) :: l₂) :
    ∃ before after, s.bidNodes = before ++ n :: after ∧
      (s.dropBid price n (pre ++ post)).bidNodes = before ++ after := by
  refine ⟨l₁.flatMap Prod.snd ++ pre, post ++ l₂.flatMap Prod.snd, ?_, ?_⟩
  · rw [bidNodes_of_split hm]
    simp
  · rw [bidNodes_of_split (dropBid_entries hm)]
    simp

/-- The asks once one has been taken out of its level. -/
theorem dropAsk_askNodes (hm : s.book.asks.entries = l₁ ++ (price, pre ++ n :: post) :: l₂) :
    ∃ before after, s.askNodes = before ++ n :: after ∧
      (s.dropAsk price n (pre ++ post)).askNodes = before ++ after := by
  refine ⟨l₁.flatMap Prod.snd ++ pre, post ++ l₂.flatMap Prod.snd, ?_, ?_⟩
  · rw [askNodes_of_split hm]
    simp
  · rw [askNodes_of_split (dropAsk_entries hm)]
    simp

/-- The levels of a side with one node removed are parts of the old levels. -/
theorem drop_subset {r : Price → Price → Prop}
    {levels levels' : OrderedMap Price OrderPointers r}
    (hm : levels.entries = l₁ ++ (price, pre ++ n :: post) :: l₂)
    (hm' : levels'.entries = l₁ ++ (price, pre ++ post) :: l₂) :
    ∀ e' ∈ levels'.entries, ∀ m ∈ e'.2, ∃ e ∈ levels.entries, e.1 = e'.1 ∧ m ∈ e.2 := by
  intro e' he' m hm₁
  rw [hm', List.mem_append, List.mem_cons] at he'
  rcases he' with he' | rfl | he'
  · exact ⟨e', by simp [hm, he'], rfl, hm₁⟩
  · refine ⟨(price, pre ++ n :: post), by simp [hm], rfl, ?_⟩
    rcases List.mem_append.mp hm₁ with h | h
    · exact List.mem_append_left _ h
    · exact List.mem_append_right _ (List.mem_cons_of_mem _ h)
  · exact ⟨e', by simp [hm, he'], rfl, hm₁⟩

/-- Taking out a bid keeps the index. -/
theorem WellIndexed.dropBid (h : WellIndexed s)
    (hm : s.book.bids.entries = l₁ ++ (price, pre ++ n :: post) :: l₂) :
    WellIndexed (s.dropBid price n (pre ++ post)) := by
  obtain ⟨before, after, hs, hs'⟩ := dropBid_bidNodes hm
  have hperm : s.nodes.Perm (n :: (before ++ after ++ s.askNodes)) := by
    unfold Store.nodes
    rw [hs, List.append_assoc, List.append_assoc]
    exact List.perm_middle
  have hnodes : (s.dropBid price n (pre ++ post)).nodes = before ++ after ++ s.askNodes := by
    unfold Store.nodes
    rw [hs']
    rfl
  have hsub : ∀ m ∈ (s.dropBid price n (pre ++ post)).nodes, m ∈ s.nodes := by
    intro m hm₁
    rw [hnodes] at hm₁
    exact hperm.mem_iff.mpr (List.mem_cons_of_mem _ hm₁)
  refine ⟨h.bids.of_subset (drop_subset hm (dropBid_entries hm)), h.asks, ?_,
    fun m hm₁ => h.order_lt m (hsub m hm₁), fun m hm₁ => h.addr_lt m (hsub m hm₁)⟩
  rw [hnodes]
  exact (h.nodes.perm hperm).remove

/-- Taking out an ask keeps the index. -/
theorem WellIndexed.dropAsk (h : WellIndexed s)
    (hm : s.book.asks.entries = l₁ ++ (price, pre ++ n :: post) :: l₂) :
    WellIndexed (s.dropAsk price n (pre ++ post)) := by
  obtain ⟨before, after, hs, hs'⟩ := dropAsk_askNodes hm
  have hperm : s.nodes.Perm (n :: (s.bidNodes ++ (before ++ after))) := by
    unfold Store.nodes
    rw [hs, ← List.append_assoc, ← List.append_assoc]
    exact List.perm_middle
  have hnodes : (s.dropAsk price n (pre ++ post)).nodes = s.bidNodes ++ (before ++ after) := by
    unfold Store.nodes
    rw [hs']
    rfl
  have hsub : ∀ m ∈ (s.dropAsk price n (pre ++ post)).nodes, m ∈ s.nodes := by
    intro m hm₁
    rw [hnodes] at hm₁
    exact hperm.mem_iff.mpr (List.mem_cons_of_mem _ hm₁)
  refine ⟨h.bids, h.asks.of_subset (drop_subset hm (dropAsk_entries hm)), ?_,
    fun m hm₁ => h.order_lt m (hsub m hm₁), fun m hm₁ => h.addr_lt m (hsub m hm₁)⟩
  rw [hnodes]
  exact (h.nodes.perm hperm).remove

end drop

/-! ## Erasing an empty level -/

/-- The store without a bid level. -/
def Store.closeBid (s : Store) (price : Price) : Store :=
  { s with book.bids := s.book.bids.erase price }

/-- The store without an ask level. -/
def Store.closeAsk (s : Store) (price : Price) : Store :=
  { s with book.asks := s.book.asks.erase price }

section close

variable {price : Price} {l₁ l₂ : List (Price × OrderPointers)}

/-- Erasing an empty level takes no bid out. -/
theorem closeBid_bidNodes (hm : s.book.bids.entries = l₁ ++ (price, []) :: l₂) :
    (s.closeBid price).bidNodes = s.bidNodes := by
  have he : (s.closeBid price).book.bids.entries = l₁ ++ l₂ :=
    OrderedMap.entries_erase_of_split hm
  rw [bidNodes_of_split hm]
  simp [Store.bidNodes, OrderedMap.flat, he]

/-- Erasing an empty level takes no ask out. -/
theorem closeAsk_askNodes (hm : s.book.asks.entries = l₁ ++ (price, []) :: l₂) :
    (s.closeAsk price).askNodes = s.askNodes := by
  have he : (s.closeAsk price).book.asks.entries = l₁ ++ l₂ :=
    OrderedMap.entries_erase_of_split hm
  rw [askNodes_of_split hm]
  simp [Store.askNodes, OrderedMap.flat, he]

/-- The nodes of what is left when a level is erased were there, at the same price. -/
theorem close_subset {r : Price → Price → Prop} (levels : OrderedMap Price OrderPointers r) :
    ∀ e' ∈ (levels.erase price).entries, ∀ m ∈ e'.2,
      ∃ e ∈ levels.entries, e.1 = e'.1 ∧ m ∈ e.2 :=
  fun e' he' _ hm => ⟨e', List.mem_of_mem_filter he', rfl, hm⟩

/-- Erasing an empty level of bids keeps the index. -/
theorem WellIndexed.closeBid (h : WellIndexed s)
    (hm : s.book.bids.entries = l₁ ++ (price, []) :: l₂) : WellIndexed (s.closeBid price) := by
  have hnodes : (s.closeBid price).nodes = s.nodes := by
    unfold Store.nodes
    rw [closeBid_bidNodes hm]
    rfl
  refine ⟨h.bids.of_subset (close_subset _), h.asks, ?_, ?_, ?_⟩
  · rw [hnodes]
    exact h.nodes
  · rw [hnodes]
    exact h.order_lt
  · rw [hnodes]
    exact h.addr_lt

/-- Erasing an empty level of asks keeps the index. -/
theorem WellIndexed.closeAsk (h : WellIndexed s)
    (hm : s.book.asks.entries = l₁ ++ (price, []) :: l₂) : WellIndexed (s.closeAsk price) := by
  have hnodes : (s.closeAsk price).nodes = s.nodes := by
    unfold Store.nodes
    rw [closeAsk_askNodes hm]
    rfl
  refine ⟨h.bids, h.asks.of_subset (close_subset _), ?_, ?_, ?_⟩
  · rw [hnodes]
    exact h.nodes
  · rw [hnodes]
    exact h.order_lt
  · rw [hnodes]
    exact h.addr_lt

end close

/-! ## Appending a node -/

/-- The store with an order appended to its bid level and indexed. -/
def Store.pushBid (s : Store) (p : OrderPointer) : Store :=
  { s with book.bids := s.book.bids.push (s.heap p).price ⟨s.nextNode, p⟩,
           book.ordersMap := s.book.ordersMap.insert (s.heap p).orderId ⟨p, s.nextNode⟩,
           nextNode := s.nextNode + 1 }

/-- The store with an order appended to its ask level and indexed. -/
def Store.pushAsk (s : Store) (p : OrderPointer) : Store :=
  { s with book.asks := s.book.asks.push (s.heap p).price ⟨s.nextNode, p⟩,
           book.ordersMap := s.book.ordersMap.insert (s.heap p).orderId ⟨p, s.nextNode⟩,
           nextNode := s.nextNode + 1 }

section push

variable {p : OrderPointer}

/-- Appending an order of a side under its price keeps that side in order. -/
theorem SideOk.push {r : Price → Price → Prop} [DecidableRel r] [IsStrictTotalOrder Price r]
    {heap : OrderPointer → Order} {side : Side} {levels : OrderedMap Price OrderPointers r}
    (h : SideOk heap side levels) {n : Node} (hside : (heap n.order).side = side) :
    SideOk heap side (levels.push (heap n.order).price n) where
  side_eq m hm := by
    obtain ⟨e, he, hme⟩ := OrderedMap.mem_flat.mp hm
    rcases OrderedMap.mem_push_imp he hme with ⟨-, rfl⟩ | ⟨e', he', -, hme'⟩
    · exact hside
    · exact h.side_eq m (OrderedMap.mem_flat.mpr ⟨e', he', hme'⟩)
  keyed e he m hm := by
    rcases OrderedMap.mem_push_imp he hm with ⟨hk, rfl⟩ | ⟨e', he', hk, hme'⟩
    · exact hk.symm
    · rw [← hk]
      exact h.keyed e' he' m hme'

/-- Appending is an ordered insertion by price into the node list. -/
theorem pushBid_bidNodes (h : WellIndexed s) :
    (s.pushBid p).bidNodes =
      s.bidNodes.orderedInsert (fun n m => (s.heap n.order).price > (s.heap m.order).price)
        ⟨s.nextNode, p⟩ :=
  OrderedMap.flat_push h.bids.keyed ⟨s.nextNode, p⟩

/-- A new ask goes behind the asks that are as cheap. -/
theorem pushAsk_askNodes (h : WellIndexed s) :
    (s.pushAsk p).askNodes =
      s.askNodes.orderedInsert (fun n m => (s.heap n.order).price < (s.heap m.order).price)
        ⟨s.nextNode, p⟩ :=
  OrderedMap.flat_push h.asks.keyed ⟨s.nextNode, p⟩

/-- The nodes with a new bid, but for their order. -/
theorem pushBid_nodes_perm (h : WellIndexed s) :
    (s.pushBid p).nodes.Perm (⟨s.nextNode, p⟩ :: s.nodes) := by
  unfold Store.nodes
  rw [pushBid_bidNodes h]
  exact (List.perm_orderedInsert _ _ _).append_right _

/-- The nodes with a new ask, but for their order. -/
theorem pushAsk_nodes_perm (h : WellIndexed s) :
    (s.pushAsk p).nodes.Perm (⟨s.nextNode, p⟩ :: s.nodes) := by
  unfold Store.nodes
  rw [pushAsk_askNodes h]
  exact ((List.perm_orderedInsert _ _ _).append_left _).trans List.perm_middle

/-- What a store needs so that a node can be added to its index. -/
theorem WellIndexed.of_perm_cons {s' : Store} (h : WellIndexed s)
    (hperm : s'.nodes.Perm (⟨s.nextNode, p⟩ :: s.nodes)) (hheap : s'.heap = s.heap)
    (hmap : s'.book.ordersMap =
      s.book.ordersMap.insert (s.heap p).orderId ⟨p, s.nextNode⟩)
    (hbids : SideOk s.heap .Buy s'.book.bids) (hasks : SideOk s.heap .Sell s'.book.asks)
    (hid : (s.heap p).orderId ∉ s.book.ordersMap) (hp : p < s.nextOrder)
    (horder : s'.nextOrder = s.nextOrder) (hnode : s'.nextNode = s.nextNode + 1) :
    WellIndexed s' := by
  have haddr : ∀ m ∈ s.nodes, m.addr ≠ s.nextNode := fun m hm => (h.addr_lt m hm).ne
  have hmem : ∀ n ∈ s'.nodes, n = ⟨s.nextNode, p⟩ ∨ n ∈ s.nodes := by
    intro n hn
    exact List.mem_cons.mp (hperm.mem_iff.mp hn)
  refine ⟨hheap ▸ hbids, hheap ▸ hasks, ?_, ?_, ?_⟩
  · rw [hheap, hmap]
    exact (h.nodes.add (n := ⟨s.nextNode, p⟩) hid haddr).perm hperm.symm
  · intro n hn
    rw [horder]
    rcases hmem n hn with rfl | hn
    · exact hp
    · exact h.order_lt n hn
  · intro n hn
    rw [hnode]
    rcases hmem n hn with rfl | hn
    · exact Nat.lt_succ_self _
    · exact Nat.lt_succ_of_lt (h.addr_lt n hn)

/-- A new bid keeps the index. -/
theorem WellIndexed.pushBid (h : WellIndexed s) (hside : (s.heap p).side = .Buy)
    (hid : (s.heap p).orderId ∉ s.book.ordersMap) (hp : p < s.nextOrder) :
    WellIndexed (s.pushBid p) :=
  h.of_perm_cons (pushBid_nodes_perm h) rfl rfl (h.bids.push (n := ⟨s.nextNode, p⟩) hside)
    h.asks hid hp rfl rfl

/-- A new ask keeps the index. -/
theorem WellIndexed.pushAsk (h : WellIndexed s) (hside : (s.heap p).side = .Sell)
    (hid : (s.heap p).orderId ∉ s.book.ordersMap) (hp : p < s.nextOrder) :
    WellIndexed (s.pushAsk p) :=
  h.of_perm_cons (pushAsk_nodes_perm h) rfl rfl h.bids
    (h.asks.push (n := ⟨s.nextNode, p⟩) hside) hid hp rfl rfl

end push

end FlowManager.Book
