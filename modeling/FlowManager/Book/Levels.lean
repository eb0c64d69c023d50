import FlowManager.Book.Queues

/-!
# The levels of a book

What there is to see of a book: the levels of both sides, each a price and the orders that rest
there, and the ids of the index. The levels are determined by the queues, since a level is what
rests at its price (`sameBook_of_sides`), so what has been proved of queues holds of levels.

`Untouched` and `Withdrawn` are the two things that a request other than an order may have done.
-/

namespace FlowManager.Book

open FlowManager.Lib FlowManager.Lib.PriceTime

/-- The levels of a side: each price with the orders that rest there, first come first. -/
def Store.bidLevels (s : Store) : List (Price × List (Resting OrderTerms)) :=
  s.book.bids.view fun n => (s.orderAt n).resting

/-- The levels of the other side. -/
def Store.askLevels (s : Store) : List (Price × List (Resting OrderTerms)) :=
  s.book.asks.view fun n => (s.orderAt n).resting

/-- Two books look the same: the same levels with the same orders and open quantities in the same
order, and the same ids in the index. -/
structure SameBook (s t : Store) : Prop where
  bids : s.bidLevels = t.bidLevels
  asks : s.askLevels = t.askLevels
  ids : ∀ id, id ∈ s.book.ordersMap ↔ id ∈ t.book.ordersMap

/-- **The queues determine the book.** -/
theorem sameBook_of_sides {s t : Store} (hs : Invariant s) (ht : Invariant t)
    (hsides : s.sides = t.sides) : SameBook s t where
  bids := OrderedMap.view_eq_of_flat (fun x => x.terms.price) hs.bids.keyed ht.bids.keyed
    hs.bids_nonempty ht.bids_nonempty (congrArg Sides.bids hsides)
  asks := OrderedMap.view_eq_of_flat (fun x => x.terms.price) hs.asks.keyed ht.asks.keyed
    hs.asks_nonempty ht.asks_nonempty (congrArg Sides.asks hsides)
  ids id := by
    rw [← not_iff_not, ← hs.toWellIndexed.unused_iff, ← ht.toWellIndexed.unused_iff, hsides]

/-! ## What a request may have done -/

/-- Nothing has happened: the same book, with the same orders in it. -/
structure Untouched (s s' : Store) : Prop where
  book : s'.book = s.book
  orders : ∀ n ∈ s.nodes, s'.orderAt n = s.orderAt n

/-- Nothing changed is nothing touched. -/
theorem Untouched.refl (s : Store) : Untouched s s := ⟨rfl, fun _ _ => rfl⟩

/-- An order object that does not get into the book is nothing to it. -/
theorem WellIndexed.untouched_alloc {s : Store} (h : WellIndexed s) (o : Order) :
    Untouched s (s.alloc o) := ⟨rfl, fun _ hn => h.alloc_orderAt hn⟩

/-- One order has been taken out: the levels are what they were without it. -/
structure Withdrawn (s : Store) (id : OrderId) (s' : Store) : Prop where
  was : id ∈ s.book.ordersMap
  bids : s'.bidLevels =
    (s.book.bids.keep fun n => decide (s.idAt n ≠ id)).view fun n => (s.orderAt n).resting
  asks : s'.askLevels =
    (s.book.asks.keep fun n => decide (s.idAt n ≠ id)).view fun n => (s.orderAt n).resting
  ids : ∀ i, i ∈ s'.book.ordersMap ↔ i ∈ s.book.ordersMap ∧ i ≠ id

/-- A cancel takes one order out. -/
theorem Removed.withdrawn {s s' : Store} {n : Node} (h : Removed s n s') (hi : Invariant s)
    (hn : n ∈ s.nodes) : Withdrawn s (s.idAt n) s' := by
  have hi' := h.invariant hi hn
  have hsides := h.sides hi.toWellIndexed hn
  refine ⟨hi.toWellIndexed.mem_ordersMap_iff.mpr ⟨n, hn, rfl⟩, ?_, ?_, ?_⟩
  · refine OrderedMap.view_eq_of_flat (fun x => x.terms.price) hi'.bids.keyed hi.bids.keyed.keep
      hi'.bids_nonempty OrderedMap.keep_ne_nil ?_
    rw [OrderedMap.flat_keep]
    refine (congrArg Sides.bids hsides).trans ?_
    exact List.filter_map
  · refine OrderedMap.view_eq_of_flat (fun x => x.terms.price) hi'.asks.keyed hi.asks.keyed.keep
      hi'.asks_nonempty OrderedMap.keep_ne_nil ?_
    rw [OrderedMap.flat_keep]
    refine (congrArg Sides.asks hsides).trans ?_
    exact List.filter_map
  · have hidAt : ∀ m, s'.idAt m = s.idAt m := by
      intro m
      unfold Store.idAt Store.orderAt
      rw [h.heap]
    have hnodes := fun m => h.mem_nodes_iff hi.toWellIndexed (m := m)
    intro i
    rw [hi'.toWellIndexed.mem_ordersMap_iff, hi.toWellIndexed.mem_ordersMap_iff]
    constructor
    · rintro ⟨m, hm, rfl⟩
      obtain ⟨hm', hne⟩ := (hnodes m).mp hm
      rw [hidAt]
      exact ⟨⟨m, hm', rfl⟩, fun heq => hne (hi.nodes.eq_of_id hm' hn heq)⟩
    · rintro ⟨⟨m, hm, rfl⟩, hne⟩
      exact ⟨m, (hnodes m).mpr ⟨hm, fun heq => hne (heq ▸ rfl)⟩, hidAt m⟩

end FlowManager.Book
