import FlowManager.Book.Calls

/-!
# Runs of calls on the book

`CallStep` lists what one call can do, guards included, and `call_steps` says that from a book in
order every call returns and does one of these things. `CallSteps` is a run of calls with their
answers. Everything about runs is proved from the two: the step lemma by the cases of `CallStep`,
the run lemma by the cases of `CallSteps`.

`orderBook_consistent` is the first result: after any run of calls the three containers of the
book tell one story, so no lookup, no list erasure and no front access ever fails.
-/

namespace FlowManager.Book

open FlowManager.Lib FlowManager.Lib.PriceTime

variable {s s' : Store}

/-! ## One call -/

/-- The store after the caller has made an order object. -/
def Store.alloc (s : Store) (o : Order) : Store :=
  { s with heap := Function.update s.heap s.nextOrder o, nextOrder := s.nextOrder + 1 }

/-- What a call can do. -/
inductive CallStep (s : Store) : Call → Answer → Store → Prop
  /-- `AddOrder` refuses a live id. -/
  | refused (o : Order) : o.orderId ∈ s.book.ordersMap →
      CallStep s (.addOrder o) (.added [] none) (s.alloc o)
  /-- `AddOrder` gives back a fill-and-kill order that cannot match. -/
  | turnedAway (o : Order) : o.orderId ∉ s.book.ordersMap → o.orderType = .FillAndKill →
      s.book.canMatch o.side o.price = false →
      CallStep s (.addOrder o) (.added [] (some s.nextOrder)) (s.alloc o)
  /-- `AddOrder` takes the order. -/
  | accepted (o : Order) (ts : Trades) (s' : Store) : o.orderId ∉ s.book.ordersMap →
      (o.orderType = .FillAndKill → s.book.canMatch o.side o.price = true) →
      Accepted (s.alloc o) s.nextOrder ts s' →
      CallStep s (.addOrder o) (.added ts (some s.nextOrder)) s'
  /-- `CancelOrder` finds no such order. -/
  | notFound (id : OrderId) : id ∉ s.book.ordersMap →
      CallStep s (.cancelOrder id) (.cancelled false) s
  /-- `CancelOrder` removes the order. -/
  | cancelled (n : Node) (s' : Store) : n ∈ s.nodes → Removed s n s' →
      CallStep s (.cancelOrder (s.idAt n)) (.cancelled true) s'

section alloc

variable {o : Order}

/-- Making an order leaves the book. -/
@[simp] theorem alloc_book : (s.alloc o).book = s.book := rfl

/-- Making an order leaves the nodes. -/
@[simp] theorem alloc_nodes : (s.alloc o).nodes = s.nodes := rfl

/-- Making an order takes one pointer. -/
@[simp] theorem alloc_nextOrder : (s.alloc o).nextOrder = s.nextOrder + 1 := rfl

/-- Making an order makes no node. -/
@[simp] theorem alloc_nextNode : (s.alloc o).nextNode = s.nextNode := rfl

/-- The order that has been made. -/
@[simp] theorem alloc_heap_self : (s.alloc o).heap s.nextOrder = o := Function.update_self ..

/-- Making an order leaves the others. -/
theorem alloc_heap_of_ne {p : OrderPointer} (h : p ≠ s.nextOrder) :
    (s.alloc o).heap p = s.heap p := Function.update_of_ne h ..

/-- The new object is not in the book. -/
theorem WellIndexed.alloc_orderAt (h : WellIndexed s) {n : Node} (hn : n ∈ s.nodes) :
    (s.alloc o).orderAt n = s.orderAt n :=
  alloc_heap_of_ne (h.order_lt n hn).ne

/-- Making an order leaves the queues. -/
theorem WellIndexed.alloc_sides (h : WellIndexed s) : (s.alloc o).sides = s.sides := by
  have hb : ∀ n ∈ s.bidNodes, ((s.alloc o).orderAt n).resting = (s.orderAt n).resting := by
    intro n hn
    rw [h.alloc_orderAt (List.mem_append_left _ hn)]
  have ha : ∀ n ∈ s.askNodes, ((s.alloc o).orderAt n).resting = (s.orderAt n).resting := by
    intro n hn
    rw [h.alloc_orderAt (List.mem_append_right _ hn)]
  exact congrArg₂ Sides.mk (List.map_congr_left hb) (List.map_congr_left ha)

/-- Making an order keeps the index. -/
theorem WellIndexed.alloc (h : WellIndexed s) (o : Order) : WellIndexed (s.alloc o) := by
  have hheap : WellIndexed { s with heap := (s.alloc o).heap } := h.of_heap fun n hn =>
    congrArg Order.toOrderTerms (h.alloc_orderAt (o := o) hn)
  exact ⟨hheap.bids, hheap.asks, hheap.nodes, fun n hn => Nat.lt_succ_of_lt (h.order_lt n hn),
    h.addr_lt⟩

/-- Making an order keeps the invariant. -/
theorem Invariant.alloc (h : Invariant s) (o : Order) : Invariant (s.alloc o) := by
  refine ⟨h.toWellIndexed.alloc o, h.bids_nonempty, h.asks_nonempty, ?_, ?_⟩
  · rw [h.alloc_sides]
    exact h.uncrossed
  · intro n hn
    rw [h.alloc_orderAt hn]
    exact h.goodTillCancel n hn

end alloc

/-- **Every call returns**, and does one of the things a call can do. -/
theorem call_steps (hi : Invariant s) (c : Call) :
    ∃ a s', (call c).run s = .returned a s' ∧ CallStep s c a s' := by
  rcases c with o | id
  · have hmake : (makeShared o).run s = .returned s.nextOrder (s.alloc o) := rfl
    have hterms : (s.alloc o).heap s.nextOrder = o := alloc_heap_self
    by_cases hid : o.orderId ∈ s.book.ordersMap
    · refine ⟨_, _, ?_, .refused o hid⟩
      simp [call, hmake, addOrder, deref, hid]
    by_cases hcan : o.orderType = .FillAndKill ∧ s.book.canMatch o.side o.price = false
    · refine ⟨_, _, ?_, .turnedAway o hid hcan.1 hcan.2⟩
      simp [call, hmake, addOrder, deref, hid, hcan]
    · have hcan' : o.orderType = .FillAndKill → s.book.canMatch o.side o.price = true := by
        intro hfak
        by_contra hno
        exact hcan ⟨hfak, by simpa using hno⟩
      obtain ⟨ts, s', hrun, hacc⟩ := addOrder_accepts (p := s.nextOrder) (hi.alloc o)
        (by rwa [hterms]) (Nat.lt_succ_self _) (by rwa [hterms])
      refine ⟨_, _, ?_, .accepted o ts s' hid hcan' hacc⟩
      simp [call, hmake, hrun]
  · rcases cancelOrder_returns hi id with ⟨hid, hrun⟩ | ⟨n, hn, rfl, s', hrun, hremoved⟩
    · refine ⟨_, _, ?_, .notFound id hid⟩
      simp [call, hrun]
    · refine ⟨_, _, ?_, .cancelled n s' hn hremoved⟩
      simp [call, hrun]

/-- A call keeps the invariant. -/
theorem CallStep.invariant {c : Call} {a : Answer} (h : CallStep s c a s') (hi : Invariant s) :
    Invariant s' := by
  cases h with
  | refused o _ => exact hi.alloc o
  | turnedAway o _ _ _ => exact hi.alloc o
  | accepted o ts s' _ _ hacc => exact hacc.invariant
  | notFound id _ => exact hi
  | cancelled n s' hn hremoved => exact hremoved.invariant hi hn

/-- An order that is handed back had a new id. -/
theorem CallStep.not_mem_of_added {o : Order} {ts : Trades} {p : OrderPointer}
    (h : CallStep s (.addOrder o) (.added ts (some p)) s') : o.orderId ∉ s.book.ordersMap := by
  cases h with
  | turnedAway _ hid _ _ => exact hid
  | accepted _ _ _ hid _ _ => exact hid

/-! ## Runs -/

/-- A run of calls with their answers. -/
inductive CallSteps : Store → List Call → List Answer → Store → Prop
  | nil (s : Store) : CallSteps s [] [] s
  | cons {s s' s'' : Store} {c : Call} {a : Answer} {cs : List Call} {as : List Answer} :
      CallStep s c a s' → CallSteps s' cs as s'' → CallSteps s (c :: cs) (a :: as) s''

/-- **Every run of calls returns.** -/
theorem calls_steps (hi : Invariant s) (cs : List Call) :
    ∃ as s', (calls cs).run s = .returned as s' ∧ CallSteps s cs as s' := by
  induction cs generalizing s with
  | nil => exact ⟨[], s, rfl, .nil s⟩
  | cons c cs ih =>
      obtain ⟨a, s₁, hrun, hstep⟩ := call_steps hi c
      obtain ⟨as, s₂, hruns, hsteps⟩ := ih (hstep.invariant hi)
      refine ⟨a :: as, s₂, ?_, .cons hstep hsteps⟩
      simp [calls, hrun, hruns]

/-- A run keeps the invariant. -/
theorem CallSteps.invariant {cs : List Call} {as : List Answer} (h : CallSteps s cs as s')
    (hi : Invariant s) : Invariant s' := by
  induction h with
  | nil s => exact hi
  | cons hstep _ ih => exact ih (hstep.invariant hi)

/-- The empty book has the invariant. -/
theorem invariant_empty : Invariant Store.empty where
  bids := ⟨by simp [Store.empty, OrderedMap.flat, OrderedMap.empty],
    by simp [OrderedMap.Keyed, Store.empty, OrderedMap.empty]⟩
  asks := ⟨by simp [Store.empty, OrderedMap.flat, OrderedMap.empty],
    by simp [OrderedMap.Keyed, Store.empty, OrderedMap.empty]⟩
  nodes := by
    have hnil : Store.empty.nodes = [] := rfl
    rw [hnil]
    exact ⟨List.nodup_nil, List.nodup_nil, by simp [Store.empty]⟩
  order_lt := by
    have hnil : Store.empty.nodes = [] := rfl
    simp [hnil]
  addr_lt := by
    have hnil : Store.empty.nodes = [] := rfl
    simp [hnil]
  bids_nonempty := by simp [NoEmptyLevel, Store.empty, OrderedMap.empty]
  asks_nonempty := by simp [NoEmptyLevel, Store.empty, OrderedMap.empty]
  uncrossed := by
    intro b hb
    cases hb
  goodTillCancel := by
    have hnil : Store.empty.nodes = [] := rfl
    simp [hnil]

/-! ## The containers agree -/

/-- How many list nodes, over all levels of both sides, hold an order with the id. -/
def Store.occurrences (s : Store) (id : OrderId) : ℕ :=
  s.nodes.countP fun n => decide (s.idAt n = id)

/-- An id occurs once if it is indexed, and otherwise not at all. -/
theorem WellIndexed.occurrences_eq (h : WellIndexed s) (id : OrderId) :
    s.occurrences id = if id ∈ s.book.ordersMap then 1 else 0 := by
  have hcount : s.occurrences id = (s.nodes.map s.idAt).count id := by
    unfold Store.occurrences List.count
    rw [List.countP_map]
    rfl
  have hnodup : (s.nodes.map s.idAt).Nodup := h.nodes.ids_nodup
  rw [hcount, hnodup.count]
  congr 1
  rw [h.mem_ordersMap_iff, List.mem_map]

/-- **The representation invariant of the order book.** After any run of calls from the empty
book: the run has returned, so no `at`, no `erase` through an iterator and no `front` has failed;
an id is indexed exactly when one list node in one level holds its order, and its entry designates
that node; a node is on the side and under the price of its order; no level is empty; the book is
not crossed; no fill-and-kill order rests. -/
theorem orderBook_consistent (cs : List Call) :
    ∃ as s, (calls cs).run Store.empty = .returned as s ∧
      (∀ id, s.occurrences id = if id ∈ s.book.ordersMap then 1 else 0) ∧
      (∀ id entry, s.book.ordersMap.lookup id = some entry →
        ∃ n ∈ s.nodes, s.idAt n = id ∧ n.order = entry.order ∧
          ∀ m ∈ s.nodes, m.addr = entry.location ↔ m = n) ∧
      (∀ e ∈ s.book.bids.entries, ∀ n ∈ e.2,
        (s.orderAt n).side = .Buy ∧ (s.orderAt n).price = e.1) ∧
      (∀ e ∈ s.book.asks.entries, ∀ n ∈ e.2,
        (s.orderAt n).side = .Sell ∧ (s.orderAt n).price = e.1) ∧
      (∀ e ∈ s.book.bids.entries, e.2 ≠ []) ∧ (∀ e ∈ s.book.asks.entries, e.2 ≠ []) ∧
      (∀ eb ∈ s.book.bids.begin?, ∀ ea ∈ s.book.asks.begin?, eb.1 < ea.1) ∧
      ∀ n ∈ s.nodes, (s.orderAt n).orderType ≠ .FillAndKill := by
  obtain ⟨as, s, hrun, hsteps⟩ := calls_steps invariant_empty cs
  have hi : Invariant s := hsteps.invariant invariant_empty
  refine ⟨as, s, hrun, hi.occurrences_eq, ?_, ?_, ?_, hi.bids_nonempty, hi.asks_nonempty, ?_, ?_⟩
  · intro id entry hentry
    obtain ⟨n, hn, hid, rfl⟩ := (hi.nodes.index id entry).mp hentry
    refine ⟨n, hn, hid, rfl, ?_⟩
    intro m hm
    constructor
    · intro haddr
      exact List.inj_on_of_nodup_map hi.nodes.addrs_nodup hm hn haddr
    · rintro rfl
      rfl
  · intro e he n hn
    exact ⟨hi.bids.side_eq n (OrderedMap.mem_flat.mpr ⟨e, he, hn⟩), hi.bids.keyed e he n hn⟩
  · intro e he n hn
    exact ⟨hi.asks.side_eq n (OrderedMap.mem_flat.mpr ⟨e, he, hn⟩), hi.asks.keyed e he n hn⟩
  · intro eb heb ea hea
    have hb := List.mem_of_mem_head? heb
    have ha := List.mem_of_mem_head? hea
    obtain ⟨b, hbn⟩ := List.exists_mem_of_ne_nil _ (hi.bids_nonempty eb hb)
    obtain ⟨a, han⟩ := List.exists_mem_of_ne_nil _ (hi.asks_nonempty ea ha)
    have hlt := hi.uncrossed (s.orderAt b).resting
      (List.mem_map_of_mem (OrderedMap.mem_flat.mpr ⟨eb, hb, hbn⟩)) (s.orderAt a).resting
      (List.mem_map_of_mem (OrderedMap.mem_flat.mpr ⟨ea, ha, han⟩))
    have hpb : (s.orderAt b).price = eb.1 := hi.bids.keyed eb hb b hbn
    have hpa : (s.orderAt a).price = ea.1 := hi.asks.keyed ea ha a han
    rw [← hpb, ← hpa]
    exact hlt
  · intro n hn hfak
    rw [hi.goodTillCancel n hn] at hfak
    cases hfak

end FlowManager.Book
