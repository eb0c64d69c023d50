import FlowManager.Book.Steps

/-!
# The book, order by order

What a client of the book sees of it: per id the resting order, if any (`Store.resting?`). `Taken`
is what `AddOrder` does in these terms with an order whose id is new, whether it is matched,
filed or turned away: every other order has lost what the trades name it for and is out of the
book once nothing is left, and the order itself rests with what is left of it if it is
good-till-cancel. A cancel takes its order out and nothing else (`CallStep.cancelled_view`).
-/

namespace FlowManager.Book

open FlowManager.Lib FlowManager.Lib.PriceTime

variable {s s' : Store}

/-- The order that rests under an id. -/
def Store.resting? (s : Store) (id : OrderId) : Option Order :=
  (s.book.ordersMap.lookup id).map fun entry => s.heap entry.order

/-- Every order of the book has something open. -/
def AllOpen (s : Store) : Prop := ∀ n ∈ s.nodes, (s.orderAt n).remainingQuantity.toNat ≠ 0

/-- The order that rests under an id is that of the node with the id. -/
theorem WellIndexed.resting?_eq_some (h : WellIndexed s) {id : OrderId} {o : Order} :
    s.resting? id = some o ↔ ∃ n ∈ s.nodes, s.idAt n = id ∧ s.orderAt n = o := by
  unfold Store.resting?
  rw [Option.map_eq_some_iff]
  constructor
  · rintro ⟨entry, hentry, rfl⟩
    obtain ⟨n, hn, hid, rfl⟩ := (h.nodes.index _ _).mp hentry
    exact ⟨n, hn, hid, rfl⟩
  · rintro ⟨n, hn, rfl, rfl⟩
    exact ⟨_, h.lookup_idAt hn, rfl⟩

/-- The order of a node rests under its id. -/
theorem WellIndexed.resting?_idAt (h : WellIndexed s) {n : Node} (hn : n ∈ s.nodes) :
    s.resting? (s.idAt n) = some (s.orderAt n) :=
  h.resting?_eq_some.mpr ⟨n, hn, rfl, rfl⟩

/-- Nothing rests under an id that the index does not have. -/
theorem resting?_eq_none_iff {id : OrderId} :
    s.resting? id = none ↔ id ∉ s.book.ordersMap := by
  unfold Store.resting?
  rw [Option.map_eq_none_iff, Finmap.lookup_eq_none]

/-- Making an order makes nothing rest. -/
theorem WellIndexed.resting?_alloc (h : WellIndexed s) (o : Order) (id : OrderId) :
    (s.alloc o).resting? id = s.resting? id := by
  cases ho : s.resting? id with
  | none =>
      rw [resting?_eq_none_iff] at ho ⊢
      exact ho
  | some x =>
      obtain ⟨n, hn, rfl, rfl⟩ := h.resting?_eq_some.mp ho
      apply (h.alloc o).resting?_eq_some.mpr
      exact ⟨n, hn, congrArg (fun o : Order => o.orderId) (h.alloc_orderAt hn), h.alloc_orderAt hn⟩

/-- Making an order leaves every resting order open. -/
theorem WellIndexed.allOpen_alloc (h : WellIndexed s) (hopen : AllOpen s) (o : Order) :
    AllOpen (s.alloc o) := by
  intro n hn
  rw [h.alloc_orderAt hn]
  exact hopen n hn

/-- An order of the book has something open. -/
theorem AllOpen.resting? (hopen : AllOpen s) (h : WellIndexed s) {id : OrderId} {o : Order}
    (ho : s.resting? id = some o) : o.remainingQuantity.toNat ≠ 0 := by
  obtain ⟨n, hn, _, rfl⟩ := h.resting?_eq_some.mp ho
  exact hopen n hn

/-- What trades leave of an order that rests: nothing, or the same order with less open. -/
def Loses (before after : Option Order) (quantity : ℕ) : Prop :=
  match before with
  | none => after = none ∧ quantity = 0
  | some x =>
      (quantity = x.remainingQuantity.toNat ∧ after = none) ∨
        ∃ x', after = some x' ∧ x'.toOrderTerms = x.toOrderTerms ∧
          x'.remainingQuantity.toNat + quantity = x.remainingQuantity.toNat

/-- What `AddOrder` does with an order whose id is new, and answers `ts` and the pointer `p`. -/
structure Taken (s : Store) (o : Order) (ts : Trades) (p : OrderPointer) (s' : Store) : Prop where
  invariant : Invariant s'
  others : ∀ id ≠ o.orderId, Loses (s.resting? id) (s'.resting? id) (traded ts id)
  /-- The object of the order. -/
  terms : (s'.heap p).toOrderTerms = o.toOrderTerms
  remaining : (s'.heap p).remainingQuantity.toNat + traded ts o.orderId =
    o.remainingQuantity.toNat
  /-- The order rests, with the object as it is. -/
  rests : ∀ x, s'.resting? o.orderId = some x →
    x = s'.heap p ∧ o.orderType = .GoodTillCancel
  /-- What is left of a good-till-cancel order rests. -/
  stays : o.orderType = .GoodTillCancel → (s'.heap p).remainingQuantity.toNat ≠ 0 →
    s'.resting? o.orderId = some (s'.heap p)
  /-- A trade is with the order. -/
  party : ∀ t ∈ ts, t.Names o.orderId ∧ t.bidTrade.tradedQuantity = t.askTrade.tradedQuantity
  /-- If the order has something open, every trade moves something, and at the end everything in
  the book has something open. -/
  positive : o.remainingQuantity.toNat ≠ 0 →
    (∀ t ∈ ts, ∀ l ∈ t.legs, 0 < l.tradedQuantity.toNat) ∧ AllOpen s'
  named : ∀ t ∈ ts, ∀ id, t.Names id → id = o.orderId ∨ s.resting? id ≠ none

section matched

variable {o : Order} {ts : Trades} {p : OrderPointer} {s₂ : Store}

/-- Where everything was open, an order that is not filled has stayed, and what has stayed is not
filled. -/
theorem Matched.mem_iff (h : Matched s ts s₂) {n : Node} (hn : n ∈ s.nodes)
    (hopen : (s.orderAt n).remainingQuantity.toNat ≠ 0) :
    n ∈ s₂.nodes ↔ (s₂.orderAt n).remainingQuantity.toNat ≠ 0 := by
  constructor
  · intro hmem
    by_cases hnamed : ∃ t ∈ ts, t.Names (s.idAt n)
    · exact h.stays n hmem hnamed
    · have hzero : traded ts (s.idAt n) = 0 :=
        traded_eq_zero_of_not_named fun t ht hname => hnamed ⟨t, ht, hname⟩
      have hledger := h.ledger n hn
      omega
  · intro hne
    by_contra hnot
    exact hne (h.popped n hn hnot)

/-- A trade is made with the order that came in: the others do not cross. -/
theorem Matched.party (h : Matched (s.pushOrder p) ts s₂) (hi : Invariant s)
    (hid : (s.heap p).orderId ∉ s.book.ordersMap) (hp : p < s.nextOrder) {t : Trade}
    (ht : t ∈ ts) : t.Names (s.heap p).orderId ∧
      t.bidTrade.tradedQuantity = t.askTrade.tradedQuantity := by
  obtain ⟨b, hb, a, ha, q, rfl, hcross⟩ := h.parties t ht
  have hpush := hi.pushOrder hid hp
  have hbuy := hpush.bids.side_eq b hb
  have hsell := hpush.asks.side_eq a ha
  unfold Store.orderAt at hcross ⊢
  rw [pushOrder_heap] at hbuy hsell hcross ⊢
  refine ⟨?_, rfl⟩
  rw [Trade.names_of]
  rcases (mem_pushOrder_nodes hi.toWellIndexed).mp (List.mem_append_left _ hb) with rfl | hbs
  · exact .inl rfl
  · rcases (mem_pushOrder_nodes hi.toWellIndexed).mp (List.mem_append_right _ ha) with rfl | has
    · exact .inr rfl
    · refine absurd ?_ hcross
      exact hi.uncrossed _ (List.mem_map_of_mem (hi.mem_bidNodes hbs hbuy)) _
        (List.mem_map_of_mem (hi.mem_askNodes has hsell))

end matched

section taken

variable {o : Order} {ts : Trades}

/-- The node of the order that comes in. -/
def Store.incoming (s : Store) : Node := ⟨s.nextNode, s.nextOrder⟩

/-- The book that is matched: the order has been filed. -/
abbrev Store.filed (s : Store) (o : Order) : Store := (s.alloc o).pushOrder s.nextOrder

/-- The nodes once an order has been filed. -/
theorem mem_filed_nodes (hi : Invariant s) {n : Node} :
    n ∈ (s.filed o).nodes ↔ n = s.incoming ∨ n ∈ s.nodes :=
  mem_pushOrder_nodes (hi.alloc o).toWellIndexed

/-- The order at the node that has been filed. -/
theorem filed_orderAt_incoming : (s.filed o).orderAt s.incoming = o := by
  unfold Store.orderAt
  rw [pushOrder_heap]
  exact alloc_heap_self

/-- The id of the node that has been filed. -/
theorem filed_idAt_incoming : (s.filed o).idAt s.incoming = o.orderId :=
  congrArg (fun o : Order => o.orderId) filed_orderAt_incoming

/-- Filing an order leaves the others. -/
theorem filed_orderAt (hi : Invariant s) {n : Node} (hn : n ∈ s.nodes) :
    (s.filed o).orderAt n = s.orderAt n := by
  unfold Store.orderAt
  rw [pushOrder_heap]
  exact hi.alloc_orderAt hn

/-- Filing an order leaves the ids of the others. -/
theorem filed_idAt (hi : Invariant s) {n : Node} (hn : n ∈ s.nodes) :
    (s.filed o).idAt n = s.idAt n :=
  congrArg (fun o : Order => o.orderId) (filed_orderAt hi hn)

/-- A node with another id was in the book before. -/
theorem mem_of_filed_idAt_ne (hi : Invariant s) {n : Node} (hn : n ∈ (s.filed o).nodes)
    (hne : (s.filed o).idAt n ≠ o.orderId) : n ∈ s.nodes := by
  rcases (mem_filed_nodes hi).mp hn with rfl | hn
  · exact absurd filed_idAt_incoming hne
  · exact hn

/-- A node with the id of the order is the order's. -/
theorem eq_incoming_of_filed_idAt (hi : Invariant s) (hid : o.orderId ∉ s.book.ordersMap) {n : Node}
    (hn : n ∈ (s.filed o).nodes) (heq : (s.filed o).idAt n = o.orderId) : n = s.incoming := by
  rcases (mem_filed_nodes hi).mp hn with rfl | hn
  · rfl
  · rw [filed_idAt hi hn] at heq
    exact absurd (hi.mem_ordersMap_iff.mpr ⟨n, hn, heq⟩) hid

/-- Filing an open order leaves every resting order open. -/
theorem AllOpen.filed (hopen : AllOpen s) (hi : Invariant s)
    (hpos : o.remainingQuantity.toNat ≠ 0) : AllOpen (s.filed o) := by
  intro n hn
  rcases (mem_filed_nodes hi).mp hn with rfl | hn
  · rw [filed_orderAt_incoming]
    exact hpos
  · rw [filed_orderAt hi hn]
    exact hopen n hn

/-- An order whose id is new has been filed and matched; `s₂` is the book before the rest of a
fill-and-kill order is taken out. -/
structure Admitted (s : Store) (o : Order) (ts : Trades) (s₂ s' : Store) : Prop where
  before : Invariant s
  fresh : o.orderId ∉ s.book.ordersMap
  matched : Matched (s.filed o) ts s₂
  heap : s'.heap = s₂.heap
  nodes : ∀ n, n ∈ s'.nodes ↔ n ∈ s₂.nodes ∧ (o.orderType = .FillAndKill → n ≠ s.incoming)
  invariant : Invariant s'

/-- An accepted order of a fresh id is admitted: filed, matched, and taken out if it has to be. -/
theorem Accepted.admitted (h : Accepted (s.alloc o) s.nextOrder ts s') (hi : Invariant s)
    (hid : o.orderId ∉ s.book.ordersMap) : ∃ s₂, Admitted s o ts s₂ s' := by
  obtain ⟨s₂, hm, hheap, hnodes⟩ := h.matched
  refine ⟨s₂, hi, hid, hm, hheap, fun n => ?_, h.invariant⟩
  rw [hnodes, alloc_heap_self]
  exact Iff.rfl

namespace Admitted

variable {s₂ : Store}

/-- What follows the matching leaves the orders. -/
theorem orderAt (h : Admitted s o ts s₂ s') (n : Node) : s'.orderAt n = s₂.orderAt n := by
  unfold Store.orderAt
  rw [h.heap]

/-- Admitting an order leaves the ids of the nodes. -/
theorem idAt (h : Admitted s o ts s₂ s') (n : Node) : s'.idAt n = (s.filed o).idAt n := by
  unfold Store.idAt
  rw [h.orderAt]
  exact h.matched.idAt n

/-- What rests in the end had been filed. -/
theorem mem_filed (h : Admitted s o ts s₂ s') {n : Node} (hn : n ∈ s'.nodes) :
    n ∈ (s.filed o).nodes :=
  h.matched.mem_nodes ((h.nodes n).mp hn).1

/-- Whom a trade names was live, or is the order. -/
theorem named (h : Admitted s o ts s₂ s') {t : Trade} (ht : t ∈ ts) {id : OrderId}
    (hname : t.Names id) : id = o.orderId ∨ s.resting? id ≠ none := by
  obtain ⟨n, hn, rfl⟩ := h.matched.exists_node_of_names ht hname
  by_cases heq : (s.filed o).idAt n = o.orderId
  · exact .inl heq
  · right
    have hn' := mem_of_filed_idAt_ne h.before hn heq
    rw [filed_idAt h.before hn', h.before.resting?_idAt hn']
    simp

/-- An id that was not live is not live afterwards, and does not trade. -/
theorem loses_none (h : Admitted s o ts s₂ s') {id : OrderId} (hne : id ≠ o.orderId)
    (hx : s.resting? id = none) : s'.resting? id = none ∧ traded ts id = 0 := by
  constructor
  · rw [resting?_eq_none_iff, h.invariant.mem_ordersMap_iff]
    rintro ⟨n, hn, rfl⟩
    rw [h.idAt] at hne hx
    have hn' := mem_of_filed_idAt_ne h.before (h.mem_filed hn) hne
    rw [filed_idAt h.before hn', h.before.resting?_idAt hn'] at hx
    cases hx
  · apply traded_eq_zero_of_not_named
    intro t ht hname
    rcases h.named ht hname with heq | hlive
    · exact hne heq
    · exact hlive hx

/-- Where everything was open, an order of the book is gone if and only if it is filled. -/
theorem mem_iff (h : Admitted s o ts s₂ s') (hopen : AllOpen s) {n : Node} (hn : n ∈ s.nodes)
    (hne : s.idAt n ≠ o.orderId) :
    n ∈ s'.nodes ↔ (s'.orderAt n).remainingQuantity.toNat ≠ 0 := by
  have hn' := (mem_filed_nodes (o := o) h.before).mpr (.inr hn)
  have hstays : n ∈ s'.nodes ↔ n ∈ s₂.nodes := by
    rw [h.nodes]
    refine ⟨fun hmem => hmem.1, fun hmem => ⟨hmem, fun _ => ?_⟩⟩
    rintro rfl
    exact hne ((filed_idAt h.before hn).symm.trans filed_idAt_incoming)
  rw [hstays, h.orderAt]
  exact h.matched.mem_iff hn' (by rw [filed_orderAt h.before hn]; exact hopen n hn)

/-- An order of the book loses what the trades name it for. -/
theorem loses_some (h : Admitted s o ts s₂ s') (hopen : AllOpen s) {n : Node} (hn : n ∈ s.nodes)
    (hne : s.idAt n ≠ o.orderId) :
    Loses (some (s.orderAt n)) (s'.resting? (s.idAt n)) (traded ts (s.idAt n)) := by
  have hn' := (mem_filed_nodes (o := o) h.before).mpr (.inr hn)
  have hid : s'.idAt n = s.idAt n := (h.idAt n).trans (filed_idAt h.before hn)
  have hledger := h.matched.ledger n hn'
  rw [filed_idAt h.before hn, filed_orderAt h.before hn, ← h.orderAt] at hledger
  by_cases hzero : (s'.orderAt n).remainingQuantity.toNat = 0
  · left
    refine ⟨by omega, ?_⟩
    rw [resting?_eq_none_iff, h.invariant.mem_ordersMap_iff]
    rintro ⟨m, hm, heq⟩
    have hfiled : WellIndexed (s.filed o) := (h.before.alloc o).toWellIndexed.pushOrder
      (by rw [alloc_heap_self]; exact h.fresh) (Nat.lt_succ_self _)
    have hmn : m = n := by
      apply hfiled.nodes.eq_of_id (h.mem_filed hm) hn'
      exact (h.idAt m).symm.trans (heq.trans (filed_idAt h.before hn).symm)
    rw [hmn] at hm
    exact (h.mem_iff hopen hn hne).mp hm hzero
  · right
    refine ⟨s'.orderAt n, ?_, ?_, hledger⟩
    · rw [← hid]
      exact h.invariant.resting?_idAt ((h.mem_iff hopen hn hne).mpr hzero)
    · rw [h.orderAt, ← filed_orderAt (o := o) h.before hn]
      exact h.matched.terms n.order

/-- If the order rests, it does so with its own object, and is good-till-cancel. -/
theorem rests (h : Admitted s o ts s₂ s') {x : Order} (hx : s'.resting? o.orderId = some x) :
    x = s'.heap s.nextOrder ∧ o.orderType = .GoodTillCancel := by
  obtain ⟨n, hn, hnid, rfl⟩ := h.invariant.resting?_eq_some.mp hx
  rw [h.idAt] at hnid
  obtain rfl := eq_incoming_of_filed_idAt h.before h.fresh (h.mem_filed hn) hnid
  refine ⟨rfl, ?_⟩
  cases htype : o.orderType with
  | GoodTillCancel => rfl
  | FillAndKill => exact absurd rfl (((h.nodes _).mp hn).2 htype)

/-- A good-till-cancel order that is not filled rests. -/
theorem stays (h : Admitted s o ts s₂ s') (htype : o.orderType = .GoodTillCancel)
    (hopen : (s'.heap s.nextOrder).remainingQuantity.toNat ≠ 0) :
    s'.resting? o.orderId = some (s'.heap s.nextOrder) := by
  have hn : s.incoming ∈ s'.nodes := by
    rw [h.nodes]
    refine ⟨?_, fun hfak => ?_⟩
    · by_contra hnot
      apply hopen
      rw [h.heap]
      exact h.matched.popped _ ((mem_filed_nodes h.before).mpr (.inl rfl)) hnot
    · rw [htype] at hfak
      cases hfak
  rw [← filed_idAt_incoming (s := s) (o := o), ← h.idAt]
  exact h.invariant.resting?_idAt hn

/-- Where the order has something open, so has everything afterwards. -/
theorem allOpen (h : Admitted s o ts s₂ s') (hopen : AllOpen (s.filed o)) : AllOpen s' := by
  intro n hn
  rw [h.orderAt]
  exact h.matched.allOpen hopen n ((h.nodes n).mp hn).1

end Admitted

/-- **An accepted order is taken.** -/
theorem taken_of_accepted (hi : Invariant s) (hopen : AllOpen s)
    (hid : o.orderId ∉ s.book.ordersMap) (hacc : Accepted (s.alloc o) s.nextOrder ts s') :
    Taken s o ts s.nextOrder s' := by
  obtain ⟨s₂, h⟩ := hacc.admitted hi hid
  refine ⟨h.invariant, ?_, ?_, ?_, fun x hx => h.rests hx, h.stays, ?_, ?_,
    fun t ht id hname => h.named ht hname⟩
  · intro id hne
    cases hx : s.resting? id with
    | none => exact h.loses_none hne hx
    | some x =>
        obtain ⟨n, hn, rfl, rfl⟩ := hi.resting?_eq_some.mp hx
        exact h.loses_some hopen hn hne
  · rw [h.heap, h.matched.terms, pushOrder_heap, alloc_heap_self]
  · have hledger := h.matched.ledger s.incoming ((mem_filed_nodes hi).mpr (.inl rfl))
    rw [filed_orderAt_incoming, filed_idAt_incoming] at hledger
    rw [h.heap]
    exact hledger
  · intro t ht
    have hparty := h.matched.party (hi.alloc o) (by rwa [alloc_heap_self]) (Nat.lt_succ_self _) ht
    rwa [alloc_heap_self] at hparty
  · intro hpos
    have hfiled := hopen.filed hi hpos
    exact ⟨h.matched.positive hfiled, h.allOpen hfiled⟩

/-- A fill-and-kill order that cannot match leaves nothing. -/
theorem taken_of_turnedAway (hi : Invariant s) (hopen : AllOpen s)
    (hid : o.orderId ∉ s.book.ordersMap) (hfak : o.orderType = .FillAndKill) :
    Taken s o [] s.nextOrder (s.alloc o) where
  invariant := hi.alloc o
  others := by
    intro id _
    rw [hi.resting?_alloc]
    cases s.resting? id with
    | none => exact ⟨rfl, rfl⟩
    | some x => exact .inr ⟨x, rfl, rfl, rfl⟩
  terms := by rw [alloc_heap_self]
  remaining := by rw [alloc_heap_self, traded_nil, add_zero]
  rests := by
    intro x hx
    rw [hi.resting?_alloc, resting?_eq_none_iff.mpr hid] at hx
    cases hx
  stays := by
    intro htype
    rw [hfak] at htype
    cases htype
  party := by simp
  positive := fun _ => ⟨by simp, hi.allOpen_alloc hopen o⟩
  named := by simp

/-- **What `AddOrder` does with an order whose id is new.** -/
theorem CallStep.taken {p : OrderPointer} (h : CallStep s (.addOrder o) (.added ts (some p)) s')
    (hi : Invariant s) (hopen : AllOpen s) : p = s.nextOrder ∧ Taken s o ts p s' := by
  cases h with
  | turnedAway _ hid hfak _ => exact ⟨rfl, taken_of_turnedAway hi hopen hid hfak⟩
  | accepted _ _ _ hid _ hacc => exact ⟨rfl, taken_of_accepted hi hopen hid hacc⟩

end taken

/-! ## Cancelling -/

section removed

variable {n : Node}

/-- A cancel takes its order out of the book and leaves the others. -/
theorem Removed.resting? (h : Removed s n s') (hi : Invariant s) (hn : n ∈ s.nodes) (id : OrderId) :
    s'.resting? id = if id = s.idAt n then none else s.resting? id := by
  have hi' := h.invariant hi hn
  have hidAt : ∀ m, s'.idAt m = s.idAt m := by
    intro m
    unfold Store.idAt Store.orderAt
    rw [h.heap]
  split_ifs with hid
  · rw [resting?_eq_none_iff, hi'.mem_ordersMap_iff]
    rintro ⟨m, hm, hmid⟩
    obtain ⟨hm', hne⟩ := (h.mem_nodes_iff hi.toWellIndexed).mp hm
    rw [hidAt, hid] at hmid
    exact hne (hi.nodes.eq_of_id hm' hn hmid)
  · cases hx : s.resting? id with
    | none =>
        rw [resting?_eq_none_iff, hi'.mem_ordersMap_iff]
        rintro ⟨m, hm, rfl⟩
        have hm' := ((h.mem_nodes_iff hi.toWellIndexed).mp hm).1
        rw [hidAt, hi.resting?_idAt hm'] at hx
        cases hx
    | some x =>
        obtain ⟨m, hm, rfl, rfl⟩ := hi.resting?_eq_some.mp hx
        apply hi'.resting?_eq_some.mpr
        refine ⟨m, (h.mem_nodes_iff hi.toWellIndexed).mpr ⟨hm, ?_⟩, hidAt m, ?_⟩
        · rintro rfl
          exact hid rfl
        · unfold Store.orderAt
          rw [h.heap]

/-- A removal leaves every resting order open. -/
theorem Removed.allOpen (h : Removed s n s') (hi : Invariant s) (hopen : AllOpen s) :
    AllOpen s' := by
  intro m hm
  have hopen' := hopen m ((h.mem_nodes_iff hi.toWellIndexed).mp hm).1
  unfold Store.orderAt at hopen' ⊢
  rwa [h.heap]

end removed

end FlowManager.Book
