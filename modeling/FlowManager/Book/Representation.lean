import FlowManager.Book.OrderBook
import Mathlib.Data.List.Perm.Basic
import Mathlib.Data.List.Nodup

/-!
# The representation invariant of the order book

`WellIndexed s` says that the three containers of the book tell one story: every list node sits on
its own side under its own price, the ids and the node addresses are distinct, and the id map
holds exactly the pointer and the address of every node. It does *not* say that levels are
non-empty or that the book is uncrossed, because both are broken for a while inside
`MatchOrders`; `Invariant` adds them.

`Store.sides` reads the book as two queues of the matching library. The elementary changes of the
book are here, each with what it does to the invariant and to the queues: rewriting an order
object without changing its terms, removing a node from its level, dropping an empty level, and
appending a node.
-/

namespace FlowManager.Book

open FlowManager.Lib FlowManager.Lib.PriceTime

/-! ## Reading the book -/

/-- The bid nodes in priority order. -/
def Store.bidNodes (s : Store) : List Node := s.book.bids.flat

/-- The ask nodes in priority order. -/
def Store.askNodes (s : Store) : List Node := s.book.asks.flat

/-- All list nodes. -/
def Store.nodes (s : Store) : List Node := s.bidNodes ++ s.askNodes

/-- The order a node points to. -/
def Store.orderAt (s : Store) (n : Node) : Order := s.heap n.order

/-- The id of the order a node points to. -/
def Store.idAt (s : Store) (n : Node) : OrderId := (s.orderAt n).orderId

/-- The book as two facing queues. -/
def Store.sides (s : Store) : Sides OrderTerms where
  bids := s.bidNodes.map fun n => (s.orderAt n).resting
  asks := s.askNodes.map fun n => (s.orderAt n).resting

/-- A bid and an ask can trade: the negation of the test `bidPrice < askPrice` on which
`MatchOrders` stops. -/
def Crosses (bid ask : OrderTerms) : Prop := ¬ bid.price < ask.price

/-- Whether a bid and an ask cross is decided. -/
instance : DecidableRel Crosses := fun _ _ => inferInstanceAs (Decidable (¬ _))

/-! ## The invariant -/

/-- The levels of one side hold orders of that side under their own prices. -/
structure SideOk {r : Price → Price → Prop} (heap : OrderPointer → Order) (side : Side)
    (levels : OrderedMap Price OrderPointers r) : Prop where
  side_eq : ∀ n ∈ levels.flat, (heap n.order).side = side
  keyed : levels.Keyed fun n => (heap n.order).price

/-- A list of nodes has distinct ids and addresses, and the id map is exactly its index. -/
structure NodesOk (heap : OrderPointer → Order) (ordersMap : Dict OrderId OrderEntry)
    (nodes : List Node) : Prop where
  ids_nodup : (nodes.map fun n => (heap n.order).orderId).Nodup
  addrs_nodup : (nodes.map Node.addr).Nodup
  index : ∀ id entry, ordersMap.lookup id = some entry ↔
    ∃ n ∈ nodes, (heap n.order).orderId = id ∧ entry = ⟨n.order, n.addr⟩

/-- The three containers agree. -/
structure WellIndexed (s : Store) : Prop where
  bids : SideOk s.heap .Buy s.book.bids
  asks : SideOk s.heap .Sell s.book.asks
  nodes : NodesOk s.heap s.book.ordersMap s.nodes
  order_lt : ∀ n ∈ s.nodes, n.order < s.nextOrder
  addr_lt : ∀ n ∈ s.nodes, n.addr < s.nextNode

/-- No level of a side is an empty list. -/
def NoEmptyLevel {r : Price → Price → Prop} (levels : OrderedMap Price OrderPointers r) : Prop :=
  ∀ e ∈ levels.entries, e.2 ≠ []

/-- Every bid is below every ask. -/
def Uncrossed (sides : Sides OrderTerms) : Prop :=
  ∀ b ∈ sides.bids, ∀ a ∈ sides.asks, b.terms.price < a.terms.price

/-- The invariant between two calls. -/
structure Invariant (s : Store) : Prop extends WellIndexed s where
  bids_nonempty : NoEmptyLevel s.book.bids
  asks_nonempty : NoEmptyLevel s.book.asks
  uncrossed : Uncrossed s.sides
  goodTillCancel : ∀ n ∈ s.nodes, (s.orderAt n).orderType = .GoodTillCancel

/-! ## Consequences -/

section consequences

variable {heap : OrderPointer → Order} {ordersMap : Dict OrderId OrderEntry} {nodes : List Node}

/-- Nodes with one id are one node. -/
theorem NodesOk.eq_of_id (h : NodesOk heap ordersMap nodes) {n m : Node} (hn : n ∈ nodes)
    (hm : m ∈ nodes) (heq : (heap n.order).orderId = (heap m.order).orderId) : n = m :=
  List.inj_on_of_nodup_map h.ids_nodup hn hm heq

/-- Nodes with one pointer are one node. -/
theorem NodesOk.eq_of_order (h : NodesOk heap ordersMap nodes) {n m : Node} (hn : n ∈ nodes)
    (hm : m ∈ nodes) (heq : n.order = m.order) : n = m :=
  h.eq_of_id hn hm (by rw [heq])

/-- An id is in the index exactly if a node has it. -/
theorem NodesOk.mem_ordersMap (h : NodesOk heap ordersMap nodes) {id : OrderId} :
    id ∈ ordersMap ↔ ∃ n ∈ nodes, (heap n.order).orderId = id := by
  rw [Finmap.mem_iff]
  constructor
  · rintro ⟨entry, hentry⟩
    obtain ⟨n, hn, hid, -⟩ := (h.index id entry).mp hentry
    exact ⟨n, hn, hid⟩
  · rintro ⟨n, hn, hid⟩
    exact ⟨⟨n.order, n.addr⟩, (h.index id _).mpr ⟨n, hn, hid, rfl⟩⟩

/-- The index does not depend on the order of the nodes. -/
theorem NodesOk.perm (h : NodesOk heap ordersMap nodes) {nodes' : List Node}
    (hp : nodes.Perm nodes') : NodesOk heap ordersMap nodes' where
  ids_nodup := (hp.map _).nodup_iff.mp h.ids_nodup
  addrs_nodup := (hp.map _).nodup_iff.mp h.addrs_nodup
  index id entry := by
    rw [h.index]
    simp only [hp.mem_iff]

/-- Removing a node and its entry. -/
theorem NodesOk.remove {n : Node} (h : NodesOk heap ordersMap (n :: nodes)) :
    NodesOk heap (ordersMap.erase (heap n.order).orderId) nodes where
  ids_nodup := (List.nodup_cons.mp h.ids_nodup).2
  addrs_nodup := (List.nodup_cons.mp h.addrs_nodup).2
  index id entry := by
    have hfresh : ∀ m ∈ nodes, (heap m.order).orderId ≠ (heap n.order).orderId := by
      intro m hm heq
      apply (List.nodup_cons.mp h.ids_nodup).1
      exact List.mem_map.mpr ⟨m, hm, heq⟩
    rw [Dict.lookup_erase_ite]
    split_ifs with hid
    · subst hid
      constructor
      · intro hnone
        cases hnone
      · rintro ⟨m, hm, heq, -⟩
        exact absurd heq (hfresh m hm)
    · rw [h.index]
      constructor
      · rintro ⟨m, hm, hmid, rfl⟩
        rcases List.mem_cons.mp hm with rfl | hm
        · exact absurd hmid.symm hid
        · exact ⟨m, hm, hmid, rfl⟩
      · rintro ⟨m, hm, hmid, rfl⟩
        exact ⟨m, List.mem_cons_of_mem _ hm, hmid, rfl⟩

/-- Adding a node with a new id and a new address, and its entry. -/
theorem NodesOk.add {n : Node} (h : NodesOk heap ordersMap nodes)
    (hid : (heap n.order).orderId ∉ ordersMap) (haddr : ∀ m ∈ nodes, m.addr ≠ n.addr) :
    NodesOk heap (ordersMap.insert (heap n.order).orderId ⟨n.order, n.addr⟩) (n :: nodes) where
  ids_nodup := by
    rw [List.map_cons, List.nodup_cons]
    refine ⟨?_, h.ids_nodup⟩
    intro hmem
    apply hid
    exact h.mem_ordersMap.mpr (List.mem_map.mp hmem)
  addrs_nodup := by
    rw [List.map_cons, List.nodup_cons]
    refine ⟨?_, h.addrs_nodup⟩
    intro hmem
    obtain ⟨m, hm, heq⟩ := List.mem_map.mp hmem
    exact haddr m hm heq
  index id entry := by
    rw [Dict.lookup_insert_ite]
    split_ifs with heq
    · subst heq
      constructor
      · intro hentry
        cases hentry
        exact ⟨n, List.mem_cons_self, rfl, rfl⟩
      · rintro ⟨m, hm, hmid, rfl⟩
        rcases List.mem_cons.mp hm with rfl | hm
        · rfl
        · exact absurd (h.mem_ordersMap.mpr ⟨m, hm, hmid⟩) hid
    · rw [h.index]
      constructor
      · rintro ⟨m, hm, hmid, rfl⟩
        exact ⟨m, List.mem_cons_of_mem _ hm, hmid, rfl⟩
      · rintro ⟨m, hm, hmid, rfl⟩
        rcases List.mem_cons.mp hm with rfl | hm
        · exact absurd hmid.symm heq
        · exact ⟨m, hm, hmid, rfl⟩

end consequences

section side

variable {r : Price → Price → Prop} {heap : OrderPointer → Order} {side : Side}
  {levels levels' : OrderedMap Price OrderPointers r}

/-- A side whose levels are parts of the old levels is still in order. -/
theorem SideOk.of_subset (h : SideOk heap side levels)
    (hsub : ∀ e' ∈ levels'.entries, ∀ n ∈ e'.2, ∃ e ∈ levels.entries, e.1 = e'.1 ∧ n ∈ e.2) :
    SideOk heap side levels' where
  side_eq n hn := by
    obtain ⟨e', he', hne'⟩ := OrderedMap.mem_flat.mp hn
    obtain ⟨e, he, -, hne⟩ := hsub e' he' n hne'
    exact h.side_eq n (OrderedMap.mem_flat.mpr ⟨e, he, hne⟩)
  keyed e' he' n hn := by
    obtain ⟨e, he, hkey, hne⟩ := hsub e' he' n hn
    rw [← hkey]
    exact h.keyed e he n hne

/-- The invariant of a side reads only the terms of the orders. -/
theorem SideOk.of_terms {heap' : OrderPointer → Order} (h : SideOk heap side levels)
    (hterms : ∀ n ∈ levels.flat, (heap' n.order).toOrderTerms = (heap n.order).toOrderTerms) :
    SideOk heap' side levels where
  side_eq n hn := by
    rw [hterms n hn]
    exact h.side_eq n hn
  keyed e he n hn := by
    show (heap' n.order).price = e.1
    rw [hterms n (OrderedMap.mem_flat.mpr ⟨e, he, hn⟩)]
    exact h.keyed e he n hn

end side

/-- The index depends on the terms of the orders and on nothing else. -/
theorem NodesOk.of_terms {heap heap' : OrderPointer → Order}
    {ordersMap : Dict OrderId OrderEntry} {nodes : List Node}
    (h : NodesOk heap ordersMap nodes)
    (hterms : ∀ n ∈ nodes, (heap' n.order).toOrderTerms = (heap n.order).toOrderTerms) :
    NodesOk heap' ordersMap nodes := by
  have hids : ∀ n ∈ nodes, (heap' n.order).orderId = (heap n.order).orderId := by
    intro n hn
    rw [hterms n hn]
  refine ⟨?_, h.addrs_nodup, ?_⟩
  · rw [List.map_congr_left hids]
    exact h.ids_nodup
  · intro id entry
    rw [h.index]
    constructor
    · rintro ⟨n, hn, hid, he⟩
      exact ⟨n, hn, (hids n hn).trans hid, he⟩
    · rintro ⟨n, hn, hid, he⟩
      exact ⟨n, hn, (hids n hn).symm.trans hid, he⟩

end FlowManager.Book
