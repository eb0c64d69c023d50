import FlowManager.Book.Changes
import Mathlib.Algebra.BigOperators.Group.List.Basic

/-!
# What matching does

`MatchOrders` is two nested loops over shared objects. Here each of its passes is computed once
(`run_matchFronts`) and everything a pass does is said once, as the relation `Matched`:

* the trades are the fills of a run of the matching library between the two queues;
* the terms of an order never change, and objects outside the book are not touched;
* the ledger: what an order had open is what it has open now and what the trades moved for it;
* a node leaves the book exactly when a trade takes the last of its quantity, and no trade names
  an order after that.

`Matched` is reflexive and transitive, so the two loops are the same kind of step, and
`matchOrders_returns` is their total correctness: they end, without an exception, in a book whose
fronts do not cross.
-/

namespace FlowManager.Book

open FlowManager.Lib FlowManager.Lib.PriceTime

/-! ## What trades say about an order -/

/-- The two legs of a trade, in the order in which the server reports them. -/
def Trade.legs (t : Trade) : List TradeInfo := [t.bidTrade, t.askTrade]

/-- All legs of a list of trades. -/
def legs (ts : Trades) : List TradeInfo := ts.flatMap Trade.legs

/-- The quantity that legs move for an order. -/
def legsTotal (ls : List TradeInfo) (id : OrderId) : ℕ :=
  ((ls.filter fun l => decide (l.orderId = id)).map fun l => l.tradedQuantity.toNat).sum

/-- The quantity that trades move for an order: `tradedQuantity_` over all legs with its id. -/
def traded (ts : Trades) (id : OrderId) : ℕ := legsTotal (legs ts) id

/-- The trade has a leg for the order. -/
def Trade.Names (t : Trade) (id : OrderId) : Prop := ∃ l ∈ t.legs, l.orderId = id

/-- The trade is what `MatchOrders` writes down for a fill. -/
def Trade.Records (t : Trade) (f : Fill OrderTerms) : Prop :=
  ∃ q : Quantity, t = Trade.of f.bid f.ask q ∧ q.toNat = f.qty

/-- The legs of trades in two parts. -/
@[simp] theorem legs_append (ts us : Trades) : legs (ts ++ us) = legs ts ++ legs us :=
  List.flatMap_append

/-- No legs have no total. -/
@[simp] theorem legsTotal_nil (id : OrderId) : legsTotal [] id = 0 := rfl

/-- The total of legs in two parts. -/
@[simp] theorem legsTotal_append (ls ks : List TradeInfo) (id : OrderId) :
    legsTotal (ls ++ ks) id = legsTotal ls id + legsTotal ks id := by
  simp [legsTotal]

/-- The total of a leg and of those after it. -/
theorem legsTotal_cons (l : TradeInfo) (ls : List TradeInfo) (id : OrderId) :
    legsTotal (l :: ls) id =
      (if l.orderId = id then l.tradedQuantity.toNat else 0) + legsTotal ls id := by
  unfold legsTotal
  rw [List.filter_cons]
  by_cases h : l.orderId = id <;> simp [h]

/-- No trades trade nothing. -/
@[simp] theorem traded_nil (id : OrderId) : traded [] id = 0 := rfl

/-- What is traded in two parts. -/
@[simp] theorem traded_append (ts us : Trades) (id : OrderId) :
    traded (ts ++ us) id = traded ts id + traded us id := by
  simp [traded]

/-- A trade names the two orders that it is between. -/
theorem Trade.names_of {b a : OrderTerms} {q : Quantity} {id : OrderId} :
    (Trade.of b a q).Names id ↔ b.orderId = id ∨ a.orderId = id := by
  simp [Trade.Names, Trade.legs, Trade.of]

/-- What one trade trades of an order. -/
theorem traded_of {b a : OrderTerms} (q : Quantity) (id : OrderId) (hne : b.orderId ≠ a.orderId) :
    traded [Trade.of b a q] id =
      if b.orderId = id ∨ a.orderId = id then q.toNat else 0 := by
  have hlegs : legs [Trade.of b a q] = [⟨b.orderId, b.price, q⟩, ⟨a.orderId, a.price, q⟩] := rfl
  unfold traded
  rw [hlegs, legsTotal_cons, legsTotal_cons, legsTotal_nil]
  by_cases hb : b.orderId = id
  · have ha : a.orderId ≠ id := fun h => hne (hb.trans h.symm)
    simp [hb, ha]
  · by_cases ha : a.orderId = id <;> simp [hb, ha]

/-- Legs that do not name an order move nothing for it. -/
theorem legsTotal_eq_zero_of_not_mem {ls : List TradeInfo} {id : OrderId}
    (h : ∀ l ∈ ls, l.orderId ≠ id) : legsTotal ls id = 0 := by
  unfold legsTotal
  rw [List.filter_eq_nil_iff.mpr fun l hl => by simpa using h l hl]
  rfl

/-- Trades that do not name an order move nothing for it. -/
theorem traded_eq_zero_of_not_named {ts : Trades} {id : OrderId}
    (h : ∀ t ∈ ts, ¬ t.Names id) : traded ts id = 0 := by
  apply legsTotal_eq_zero_of_not_mem
  intro l hl heq
  obtain ⟨t, ht, hlt⟩ := List.mem_flatMap.mp hl
  exact h t ht ⟨l, hlt, heq⟩

/-- Trades move nothing for an order exactly if none of its legs does. -/
theorem traded_eq_zero_iff {ts : Trades} {id : OrderId} : traded ts id = 0 ↔
    ∀ t ∈ ts, ∀ l ∈ t.legs, l.orderId = id → l.tradedQuantity.toNat = 0 := by
  unfold traded legsTotal
  rw [List.sum_eq_zero_iff_forall_eq_nat]
  constructor
  · intro h t ht l hl hid
    apply h
    apply List.mem_map_of_mem
    exact List.mem_filter.mpr ⟨List.mem_flatMap.mpr ⟨t, ht, hl⟩, by simpa using hid⟩
  · intro h q hq
    obtain ⟨l, hl, rfl⟩ := List.mem_map.mp hq
    obtain ⟨hl, hid⟩ := List.mem_filter.mp hl
    obtain ⟨t, ht, hlt⟩ := List.mem_flatMap.mp hl
    exact h t ht l hlt (by simpa using hid)

/-- An order that a history names is named in its second part, or trades in the first part only. -/
theorem named_append {ts us : Trades} {id : OrderId} {t : Trade} (ht : t ∈ ts ++ us)
    (hname : t.Names id) :
    (∃ t ∈ us, t.Names id) ∨ traded us id = 0 ∧ ∃ t ∈ ts, t.Names id := by
  by_cases hlater : ∃ t ∈ us, t.Names id
  · exact Or.inl hlater
  · refine Or.inr ⟨traded_eq_zero_of_not_named fun t ht hname => hlater ⟨t, ht, hname⟩, t, ?_, hname⟩
    rcases List.mem_append.mp ht with ht | ht
    · exact ht
    · exact absurd ⟨t, ht, hname⟩ hlater

/-- A trade of two histories is of the second or of the first. -/
theorem split_of_append {ts us before after : Trades} {t : Trade}
    (h : ts ++ us = before ++ t :: after) :
    (∃ c, before = ts ++ c ∧ us = c ++ t :: after) ∨ ∃ c, ts = before ++ t :: c := by
  rcases List.append_eq_append_iff.mp h with ⟨c, hc, hus⟩ | ⟨c, hts, hc⟩
  · exact Or.inl ⟨c, hc, hus⟩
  · rcases c with _ | ⟨t', c⟩
    · exact Or.inl ⟨[], by simpa using hts.symm, by simpa using hc.symm⟩
    · obtain ⟨rfl, -⟩ := List.cons.inj hc
      exact Or.inr ⟨c, hts⟩

/-! ## The relation -/

/-- Everything a part of `MatchOrders` does between two stores. -/
structure Matched (s : Store) (ts : Trades) (s' : Store) : Prop where
  wellIndexed : WellIndexed s'
  runs : ∃ fs, Runs Crosses s.sides fs s'.sides ∧ List.Forall₂ Trade.Records ts fs
  terms : ∀ p, (s'.heap p).toOrderTerms = (s.heap p).toOrderTerms
  frame : ∀ p, (∀ n ∈ s.nodes, n.order ≠ p) → s'.heap p = s.heap p
  bids : s'.bidNodes.Sublist s.bidNodes
  asks : s'.askNodes.Sublist s.askNodes
  /-- What was open is what is open and what was traded. -/
  ledger : ∀ n ∈ s.nodes, (s'.orderAt n).remainingQuantity.toNat + traded ts (s.idAt n) =
    (s.orderAt n).remainingQuantity.toNat
  /-- An order leaves the book only filled. -/
  popped : ∀ n ∈ s.nodes, n ∉ s'.nodes → (s'.orderAt n).remainingQuantity.toNat = 0
  /-- An order that was traded and stays has something open. -/
  stays : ∀ n ∈ s'.nodes, (∃ t ∈ ts, t.Names (s.idAt n)) →
    (s'.orderAt n).remainingQuantity.toNat ≠ 0
  /-- The parties of a trade are in the book, and they cross. -/
  parties : ∀ t ∈ ts, ∃ b ∈ s.bidNodes, ∃ a ∈ s.askNodes, ∃ q,
    t = Trade.of (s.orderAt b).toOrderTerms (s.orderAt a).toOrderTerms q ∧
      Crosses (s.orderAt b).toOrderTerms (s.orderAt a).toOrderTerms
  /-- An order that was traded is traded again only with something open. -/
  retires : ∀ n ∈ s.nodes, ∀ before t after, ts = before ++ t :: after → t.Names (s.idAt n) →
    (∃ t' ∈ before, t'.Names (s.idAt n)) →
      traded before (s.idAt n) < (s.orderAt n).remainingQuantity.toNat
  /-- Where every order has something open, every trade moves something. -/
  positive : (∀ n ∈ s.nodes, (s.orderAt n).remainingQuantity.toNat ≠ 0) →
    ∀ t ∈ ts, ∀ l ∈ t.legs, 0 < l.tradedQuantity.toNat
  nextOrder : s'.nextOrder = s.nextOrder
  nextNode : s'.nextNode = s.nextNode

namespace Matched

variable {s s' s'' : Store} {ts us : Trades}

/-- Matching takes nodes out and leaves the others in their order. -/
theorem nodes_sublist (h : Matched s ts s') : s'.nodes.Sublist s.nodes :=
  h.bids.append h.asks

/-- A node after matching was there. -/
theorem mem_nodes (h : Matched s ts s') {n : Node} (hn : n ∈ s'.nodes) : n ∈ s.nodes :=
  h.nodes_sublist.subset hn

/-- Matching leaves the ids of the nodes. -/
theorem idAt (h : Matched s ts s') (n : Node) : s'.idAt n = s.idAt n :=
  congrArg OrderTerms.orderId (h.terms n.order)

/-- Nothing is traded when only the shape of the levels changes. -/
theorem of_eq (hw : WellIndexed s') (hbids : s'.bidNodes = s.bidNodes)
    (hasks : s'.askNodes = s.askNodes) (hheap : s'.heap = s.heap)
    (hOrder : s'.nextOrder = s.nextOrder) (hNode : s'.nextNode = s.nextNode) :
    Matched s [] s' where
  wellIndexed := hw
  runs := by
    refine ⟨[], ?_, .nil⟩
    have hsides : s'.sides = s.sides := by
      simp only [Store.sides, hbids, hasks, Store.orderAt, hheap]
    rw [hsides]
    exact .nil _
  terms p := by rw [hheap]
  frame p _ := by rw [hheap]
  bids := by rw [hbids]
  asks := by rw [hasks]
  ledger n _ := by simp [Store.orderAt, hheap]
  popped n hn hnot := by
    rw [Store.nodes, hbids, hasks] at hnot
    exact absurd hn hnot
  stays := by simp
  parties := by simp
  retires := by simp
  positive := by simp
  nextOrder := hOrder
  nextNode := hNode

/-- Nothing matched is a matching without trades. -/
theorem refl (h : WellIndexed s) : Matched s [] s := of_eq h rfl rfl rfl rfl rfl

/-- If every order has something open before, every order has something open after. -/
theorem allOpen (h : Matched s ts s')
    (hopen : ∀ n ∈ s.nodes, (s.orderAt n).remainingQuantity.toNat ≠ 0) :
    ∀ n ∈ s'.nodes, (s'.orderAt n).remainingQuantity.toNat ≠ 0 := by
  intro n hn
  by_cases hnamed : ∃ t ∈ ts, t.Names (s.idAt n)
  · exact h.stays n hn hnamed
  · have hzero : traded ts (s.idAt n) = 0 :=
      traded_eq_zero_of_not_named fun t ht hname => hnamed ⟨t, ht, hname⟩
    have hledger := h.ledger n (h.mem_nodes hn)
    have := hopen n (h.mem_nodes hn)
    omega

/-- The node a trade names is in the book when the trade is made. -/
theorem exists_node_of_names (h : Matched s ts s') {t : Trade} (ht : t ∈ ts) {id : OrderId}
    (hname : t.Names id) : ∃ n ∈ s.nodes, s.idAt n = id := by
  obtain ⟨b, hb, a, ha, q, rfl, -⟩ := h.parties t ht
  rcases Trade.names_of.mp hname with hid | hid
  · exact ⟨b, List.mem_append_left _ hb, hid⟩
  · exact ⟨a, List.mem_append_right _ ha, hid⟩

/-- A node whose id a later trade names has not left the book. -/
theorem mem_of_names (hs : WellIndexed s) (h₁ : Matched s ts s') (h₂ : Matched s' us s'')
    {n : Node} (hn : n ∈ s.nodes) {t : Trade} (ht : t ∈ us) (hname : t.Names (s.idAt n)) :
    n ∈ s'.nodes := by
  obtain ⟨m, hm, hid⟩ := h₂.exists_node_of_names ht hname
  rw [h₁.idAt] at hid
  have hmn : m = n := hs.nodes.eq_of_id (h₁.mem_nodes hm) hn hid
  exact hmn ▸ hm

/-- A node that has left keeps its object. -/
theorem orderAt_of_not_mem (hs : WellIndexed s) (h₁ : Matched s ts s') (h₂ : Matched s' us s'')
    {n : Node} (hn : n ∈ s.nodes) (hnot : n ∉ s'.nodes) : s''.orderAt n = s'.orderAt n := by
  apply h₂.frame
  intro m hm hmn
  exact hnot (hs.nodes.eq_of_order (h₁.mem_nodes hm) hn hmn ▸ hm)

/-- **One part of the matching after another.** -/
theorem trans (hs : WellIndexed s) (h₁ : Matched s ts s') (h₂ : Matched s' us s'') :
    Matched s (ts ++ us) s'' where
  wellIndexed := h₂.wellIndexed
  runs := by
    obtain ⟨fs, hfs, hrec⟩ := h₁.runs
    obtain ⟨gs, hgs, hrec'⟩ := h₂.runs
    exact ⟨fs ++ gs, hfs.append hgs, List.rel_append hrec hrec'⟩
  terms p := (h₂.terms p).trans (h₁.terms p)
  frame p hp := (h₂.frame p fun n hn => hp n (h₁.mem_nodes hn)).trans (h₁.frame p hp)
  bids := h₂.bids.trans h₁.bids
  asks := h₂.asks.trans h₁.asks
  ledger n hn := by
    have hl₁ := h₁.ledger n hn
    rw [traded_append]
    by_cases hn' : n ∈ s'.nodes
    · have hl₂ := h₂.ledger n hn'
      rw [h₁.idAt] at hl₂
      omega
    · have hzero : traded us (s.idAt n) = 0 :=
        traded_eq_zero_of_not_named fun t ht hname => hn' (mem_of_names hs h₁ h₂ hn ht hname)
      rw [orderAt_of_not_mem hs h₁ h₂ hn hn', hzero]
      omega
  popped n hn hnot := by
    by_cases hn' : n ∈ s'.nodes
    · exact h₂.popped n hn' hnot
    · rw [orderAt_of_not_mem hs h₁ h₂ hn hn']
      exact h₁.popped n hn hn'
  stays n hn := by
    have hn' : n ∈ s'.nodes := h₂.mem_nodes hn
    rintro ⟨t, ht, hname⟩
    rcases named_append ht hname with hlater | ⟨hzero, hearlier⟩
    · exact h₂.stays n hn (by rwa [h₁.idAt])
    · have hl₂ := h₂.ledger n hn'
      rw [h₁.idAt] at hl₂
      have hopen := h₁.stays n hn' hearlier
      omega
  parties t ht := by
    rcases List.mem_append.mp ht with ht | ht
    · exact h₁.parties t ht
    · obtain ⟨b, hb, a, ha, q, heq, hc⟩ := h₂.parties t ht
      have hbt : (s'.orderAt b).toOrderTerms = (s.orderAt b).toOrderTerms := h₁.terms b.order
      have hat : (s'.orderAt a).toOrderTerms = (s.orderAt a).toOrderTerms := h₁.terms a.order
      rw [hbt, hat] at heq hc
      exact ⟨b, h₁.bids.subset hb, a, h₁.asks.subset ha, q, heq, hc⟩
  retires n hn before t after heq hname hbefore := by
    rcases split_of_append heq with ⟨c, rfl, hus⟩ | ⟨c, rfl⟩
    · -- the trade is of the second part
      have htu : t ∈ us := by rw [hus]; simp
      have hn' : n ∈ s'.nodes := mem_of_names hs h₁ h₂ hn htu hname
      have hl₁ := h₁.ledger n hn
      rw [traded_append]
      obtain ⟨t', ht', hname'⟩ := hbefore
      rcases named_append ht' hname' with hlater | ⟨hzero, hearlier⟩
      · have hretires := h₂.retires n hn' c t after hus (by rwa [h₁.idAt]) (by rwa [h₁.idAt])
        rw [h₁.idAt] at hretires
        omega
      · have hopen := h₁.stays n hn' hearlier
        omega
    · exact h₁.retires n hn before t c rfl hname hbefore
  positive hopen t ht := by
    rcases List.mem_append.mp ht with ht | ht
    · exact h₁.positive hopen t ht
    · exact h₂.positive (h₁.allOpen hopen) t ht
  nextOrder := h₂.nextOrder.trans h₁.nextOrder
  nextNode := h₂.nextNode.trans h₁.nextNode

/-- A sequence of parts. -/
theorem of_trace (h : Proc.Trace Matched s ts s') (hs : WellIndexed s) : Matched s ts s' := by
  induction h with
  | nil s => exact refl hs
  | cons hstep _ ih => exact hstep.trans hs (ih hstep.wellIndexed)

end Matched

/-! ## One pass of the inner loop -/

/-- The first level, as a place where the entries are cut in two. -/
theorem head_split {r : Price → Price → Prop} {m : OrderedMap Price OrderPointers r}
    {price : Price} {level : OrderPointers} {es : List (Price × OrderPointers)}
    (hm : m.entries = (price, level) :: es) : m.entries = [] ++ (price, level) :: es := hm

/-- The front node of the first level, as a place where the level is cut in two. -/
theorem front_split {r : Price → Price → Prop} {m : OrderedMap Price OrderPointers r}
    {price : Price} {n : Node} {rest : OrderPointers} {es : List (Price × OrderPointers)}
    (hm : m.entries = (price, n :: rest) :: es) :
    m.entries = [] ++ (price, [] ++ n :: rest) :: es := hm

section passes

variable {s : Store}

/-- A fill that fits is taken off the order. -/
theorem run_fill {p : OrderPointer} {q : Quantity} (h : q ≤ (s.heap p).remainingQuantity) :
    (fill p q).run s = .returned () (s.reduceAt p q) := by
  have hnot : ¬ q > (s.heap p).remainingQuantity := UInt32.not_lt.mpr h
  simp [fill, deref, hnot, Store.reduceAt]

/-- A level of bids that is there is found. -/
theorem run_bidLevel {price : Price} {level : OrderPointers}
    (h : s.book.bids.find? price = some level) :
    (bidLevel price).run s = .returned level s := by
  simp [bidLevel, h]

/-- A level of asks that is there is found. -/
theorem run_askLevel {price : Price} {level : OrderPointers}
    (h : s.book.asks.find? price = some level) :
    (askLevel price).run s = .returned level s := by
  simp [askLevel, h]

/-- Drop the front of a bid level if its order is filled. -/
def Store.settleBid (s : Store) (price : Price) (n : Node) (rest : OrderPointers) : Store :=
  if (s.orderAt n).isFilled then s.dropBid price n rest else s

/-- Drop the front of an ask level if its order is filled. -/
def Store.settleAsk (s : Store) (price : Price) (n : Node) (rest : OrderPointers) : Store :=
  if (s.orderAt n).isFilled then s.dropAsk price n rest else s

/-- The store after the two fronts of two levels have traded `q`. -/
def Store.tradeFronts (s : Store) (bidPrice askPrice : Price) (b a : Node)
    (restBids restAsks : OrderPointers) (q : Quantity) : Store :=
  (((s.reduceAt b.order q).reduceAt a.order q).settleBid bidPrice b restBids).settleAsk
    askPrice a restAsks

section settle

variable {price : Price} {n : Node} {rest : OrderPointers}

/-- Settling a bid writes no order. -/
@[simp] theorem settleBid_heap : (s.settleBid price n rest).heap = s.heap := by
  unfold Store.settleBid
  split_ifs <;> rfl

/-- Settling an ask writes no order. -/
@[simp] theorem settleAsk_heap : (s.settleAsk price n rest).heap = s.heap := by
  unfold Store.settleAsk
  split_ifs <;> rfl

/-- Settling a bid leaves the asks. -/
@[simp] theorem settleBid_asks : (s.settleBid price n rest).book.asks = s.book.asks := by
  unfold Store.settleBid
  split_ifs <;> rfl

/-- Settling an ask leaves the bids. -/
@[simp] theorem settleAsk_bids : (s.settleAsk price n rest).book.bids = s.book.bids := by
  unfold Store.settleAsk
  split_ifs <;> rfl

/-- Settling a bid makes no order. -/
@[simp] theorem settleBid_nextOrder : (s.settleBid price n rest).nextOrder = s.nextOrder := by
  unfold Store.settleBid
  split_ifs <;> rfl

/-- Settling an ask makes no order. -/
@[simp] theorem settleAsk_nextOrder : (s.settleAsk price n rest).nextOrder = s.nextOrder := by
  unfold Store.settleAsk
  split_ifs <;> rfl

/-- Settling a bid makes no node. -/
@[simp] theorem settleBid_nextNode : (s.settleBid price n rest).nextNode = s.nextNode := by
  unfold Store.settleBid
  split_ifs <;> rfl

/-- Settling an ask makes no node. -/
@[simp] theorem settleAsk_nextNode : (s.settleAsk price n rest).nextNode = s.nextNode := by
  unfold Store.settleAsk
  split_ifs <;> rfl

variable {es : List (Price × OrderPointers)}

/-- The bids once the first has been settled. -/
theorem settleBid_entries (hm : s.book.bids.entries = (price, n :: rest) :: es) :
    (s.settleBid price n rest).book.bids.entries =
      (price, if (s.orderAt n).isFilled then rest else n :: rest) :: es := by
  unfold Store.settleBid
  split_ifs
  · exact dropBid_entries (front_split hm)
  · exact hm

/-- The asks once the first has been settled. -/
theorem settleAsk_entries (hm : s.book.asks.entries = (price, n :: rest) :: es) :
    (s.settleAsk price n rest).book.asks.entries =
      (price, if (s.orderAt n).isFilled then rest else n :: rest) :: es := by
  unfold Store.settleAsk
  split_ifs
  · exact dropAsk_entries (front_split hm)
  · exact hm

/-- Settling a bid keeps the index. -/
theorem WellIndexed.settleBid (h : WellIndexed s)
    (hm : s.book.bids.entries = (price, n :: rest) :: es) :
    WellIndexed (s.settleBid price n rest) := by
  unfold Store.settleBid
  split_ifs
  · exact h.dropBid (front_split hm)
  · exact h

/-- Settling an ask keeps the index. -/
theorem WellIndexed.settleAsk (h : WellIndexed s)
    (hm : s.book.asks.entries = (price, n :: rest) :: es) :
    WellIndexed (s.settleAsk price n rest) := by
  unfold Store.settleAsk
  split_ifs
  · exact h.dropAsk (front_split hm)
  · exact h

end settle

variable {pb pa : Price} {b a : Node} {lb la : OrderPointers}

/-- One pass, computed. -/
theorem run_matchFronts (hb : s.book.bids.find? pb = some (b :: lb))
    (ha : s.book.asks.find? pa = some (a :: la)) (hne : b.order ≠ a.order) {q : Quantity}
    (hq : q = stdMin (s.orderAt b).remainingQuantity (s.orderAt a).remainingQuantity) :
    (matchFronts pb pa).run s =
      .returned (some [Trade.of (s.orderAt b).toOrderTerms (s.orderAt a).toOrderTerms q])
        (s.tradeFronts pb pa b a lb la q) := by
  have h₁ : q ≤ (s.heap b.order).remainingQuantity := by
    rw [hq]
    exact stdMin_le_left _ _
  have h₂ : q ≤ ((s.reduceAt b.order q).heap a.order).remainingQuantity := by
    rw [reduceAt_heap_of_ne q hne.symm, hq]
    exact stdMin_le_right _ _
  have hq' : stdMin (s.heap b.order).remainingQuantity (s.heap a.order).remainingQuantity = q :=
    hq.symm
  simp only [matchFronts, Proc.run_bind, run_bidLevel hb, run_askLevel ha,
    Outcome.bind_returned, deref, Proc.run_get, Proc.run_pure, hq', run_fill h₁, run_fill h₂]
  unfold Store.tradeFronts
  generalize hs : (s.reduceAt b.order q).reduceAt a.order q = s₁
  have hterms : ∀ p, (s₁.heap p).toOrderTerms = (s.heap p).toOrderTerms := by
    intro p
    rw [← hs, reduceAt_terms, reduceAt_terms]
  rcases hfb : (s₁.heap b.order).isFilled <;> rcases hfa : (s₁.heap a.order).isFilled <;>
    simp [hfb, hfa, Store.orderAt, hterms, eraseEntry, setBidLevel, setAskLevel,
      Store.settleBid, Store.settleAsk, Store.dropBid, Store.dropAsk, Store.idAt]

/-- What the two fronts have to do with the rest of the book. -/
theorem WellIndexed.order_ne (h : WellIndexed s) (hb : b ∈ s.bidNodes) (ha : a ∈ s.askNodes) :
    b.order ≠ a.order := by
  intro heq
  have hbs := h.bids.side_eq b hb
  have has := h.asks.side_eq a ha
  rw [heq, has] at hbs
  cases hbs

/-- A queue whose front order has been filled by `q`, read through the new objects. -/
theorem map_settle {heap heap' : OrderPointer → Order} {n : Node} {rest : List Node}
    {q : Quantity} (hn : heap' n.order = (heap n.order).reduce q)
    (hq : q ≤ (heap n.order).remainingQuantity)
    (hrest : ∀ m ∈ rest, heap' m.order = heap m.order) :
    ((if (heap' n.order).isFilled then rest else n :: rest).map
        fun m => (heap' m.order).resting) =
      settle q.toNat (heap n.order).resting (rest.map fun m => (heap m.order).resting) := by
  have hmap : rest.map (fun m => (heap' m.order).resting) =
      rest.map fun m => (heap m.order).resting :=
    List.map_congr_left fun m hm => by rw [hrest m hm]
  have hqty : (heap' n.order).remainingQuantity.toNat =
      (heap n.order).resting.qty - q.toNat := by
    rw [hn, Order.toNat_reduce hq, Order.resting_qty]
  unfold settle
  by_cases hf : (heap' n.order).isFilled = true
  · have hzero := (Order.isFilled_iff _).mp hf
    rw [if_pos hf, if_pos (by omega), hmap]
  · have hpos : (heap' n.order).remainingQuantity.toNat ≠ 0 := fun hzero =>
      hf ((Order.isFilled_iff _).mpr hzero)
    rw [if_neg hf, if_neg (by omega), List.map_cons, hmap, ← hqty]
    congr 1
    rw [hn]
    rfl

/-- What one pass of the inner loop did, read on the queues and the objects. -/
structure FrontsTraded (s s' : Store) (b a : Node) (bs as : List Node) (q : Quantity) : Prop where
  wellIndexed : WellIndexed s'
  bids : s.bidNodes = b :: bs
  asks : s.askNodes = a :: as
  quantity : q = stdMin (s.orderAt b).remainingQuantity (s.orderAt a).remainingQuantity
  bid : s'.orderAt b = (s.orderAt b).reduce q
  ask : s'.orderAt a = (s.orderAt a).reduce q
  others : ∀ p, p ≠ b.order → p ≠ a.order → s'.heap p = s.heap p
  bids' : s'.bidNodes = if (s'.orderAt b).isFilled then bs else b :: bs
  asks' : s'.askNodes = if (s'.orderAt a).isFilled then as else a :: as
  nextOrder : s'.nextOrder = s.nextOrder
  nextNode : s'.nextNode = s.nextNode

/-- A trade of the fronts fills both orders. -/
theorem tradeFronts_heap {q : Quantity} : (s.tradeFronts pb pa b a lb la q).heap =
    ((s.reduceAt b.order q).reduceAt a.order q).heap := by
  simp [Store.tradeFronts]

section entries

variable {eb ea : List (Price × OrderPointers)} {q : Quantity}

/-- The bids after a trade of the fronts. -/
theorem tradeFronts_bids (hb : s.book.bids.entries = (pb, b :: lb) :: eb) :
    (s.tradeFronts pb pa b a lb la q).book.bids.entries =
      (pb, if ((s.tradeFronts pb pa b a lb la q).orderAt b).isFilled then lb else b :: lb) ::
        eb := by
  have hb₁ : ((s.reduceAt b.order q).reduceAt a.order q).book.bids.entries =
      (pb, b :: lb) :: eb := hb
  unfold Store.orderAt
  rw [tradeFronts_heap, Store.tradeFronts, settleAsk_bids]
  exact settleBid_entries hb₁

/-- The asks after a trade of the fronts. -/
theorem tradeFronts_asks (ha : s.book.asks.entries = (pa, a :: la) :: ea) :
    (s.tradeFronts pb pa b a lb la q).book.asks.entries =
      (pa, if ((s.tradeFronts pb pa b a lb la q).orderAt a).isFilled then la else a :: la) ::
        ea := by
  have ha₁ : (((s.reduceAt b.order q).reduceAt a.order q).settleBid pb b lb).book.asks.entries =
      (pa, a :: la) :: ea := by
    rw [settleBid_asks]
    exact ha
  have hset := settleAsk_entries ha₁
  unfold Store.orderAt at hset ⊢
  rw [settleBid_heap] at hset
  rw [tradeFronts_heap]
  exact hset

/-- **What a trade of the fronts does.** -/
theorem frontsTraded_tradeFronts (h : WellIndexed s)
    (hb : s.book.bids.entries = (pb, b :: lb) :: eb)
    (ha : s.book.asks.entries = (pa, a :: la) :: ea) (hne : b.order ≠ a.order)
    (hq : q = stdMin (s.orderAt b).remainingQuantity (s.orderAt a).remainingQuantity) :
    FrontsTraded s (s.tradeFronts pb pa b a lb la q) b a (lb ++ eb.flatMap Prod.snd)
      (la ++ ea.flatMap Prod.snd) q := by
  have hw : WellIndexed ((s.reduceAt b.order q).reduceAt a.order q) :=
    (h.reduceAt _ _).reduceAt _ _
  have hb₁ : ((s.reduceAt b.order q).reduceAt a.order q).book.bids.entries =
      (pb, b :: lb) :: eb := hb
  have ha₁ : (((s.reduceAt b.order q).reduceAt a.order q).settleBid pb b lb).book.asks.entries =
      (pa, a :: la) :: ea := by
    rw [settleBid_asks]
    exact ha
  refine ⟨(hw.settleBid hb₁).settleAsk ha₁, bidNodes_of_split (head_split hb),
    askNodes_of_split (head_split ha), hq, ?_, ?_, ?_, ?_, ?_, ?_, ?_⟩
  · unfold Store.orderAt
    rw [tradeFronts_heap, reduceAt_heap_of_ne q hne, reduceAt_heap_self]
  · unfold Store.orderAt
    rw [tradeFronts_heap, reduceAt_heap_self, reduceAt_heap_of_ne q hne.symm]
  · intro p hpb hpa
    rw [tradeFronts_heap, reduceAt_heap_of_ne q hpa, reduceAt_heap_of_ne q hpb]
  · rw [bidNodes_of_split (head_split (tradeFronts_bids hb))]
    split_ifs <;> simp
  · rw [askNodes_of_split (head_split (tradeFronts_asks ha))]
    split_ifs <;> simp
  · simp [Store.tradeFronts]
  · simp [Store.tradeFronts]

end entries

namespace FrontsTraded

variable {s' : Store} {bs as : List Node} {q : Quantity}

/-- The bid that trades rests. -/
theorem bid_mem (h : FrontsTraded s s' b a bs as q) : b ∈ s.bidNodes := by
  rw [h.bids]
  exact List.mem_cons_self

/-- The ask that trades rests. -/
theorem ask_mem (h : FrontsTraded s s' b a bs as q) : a ∈ s.askNodes := by
  rw [h.asks]
  exact List.mem_cons_self

/-- No more is traded than the bid has open. -/
theorem le_bid (h : FrontsTraded s s' b a bs as q) : q ≤ (s.orderAt b).remainingQuantity :=
  h.quantity ▸ stdMin_le_left _ _

/-- No more is traded than the ask has open. -/
theorem le_ask (h : FrontsTraded s s' b a bs as q) : q ≤ (s.orderAt a).remainingQuantity :=
  h.quantity ▸ stdMin_le_right _ _

/-- What a node of the book has open afterwards. -/
theorem remaining (h : FrontsTraded s s' b a bs as q) (hw : WellIndexed s) {n : Node}
    (hn : n ∈ s.nodes) :
    (s'.orderAt n).remainingQuantity.toNat + (if n = b ∨ n = a then q.toNat else 0) =
      (s.orderAt n).remainingQuantity.toNat := by
  have hqb := UInt32.le_iff_toNat_le.mp h.le_bid
  have hqa := UInt32.le_iff_toNat_le.mp h.le_ask
  by_cases hnb : n = b
  · subst hnb
    rw [h.bid, Order.toNat_reduce h.le_bid, if_pos (Or.inl rfl)]
    omega
  by_cases hna : n = a
  · subst hna
    rw [h.ask, Order.toNat_reduce h.le_ask, if_pos (Or.inr rfl)]
    omega
  have hbs : b ∈ s.nodes := List.mem_append_left _ h.bid_mem
  have has : a ∈ s.nodes := List.mem_append_right _ h.ask_mem
  have hsame : s'.orderAt n = s.orderAt n :=
    h.others _ (fun heq => hnb (hw.nodes.eq_of_order hn hbs heq))
      fun heq => hna (hw.nodes.eq_of_order hn has heq)
  rw [hsame, if_neg (by simp [hnb, hna]), Nat.add_zero]

/-- Which of the two is filled is out of the book. -/
theorem filled_iff_not_mem (h : FrontsTraded s s' b a bs as q) (hw : WellIndexed s) {n : Node}
    (hn : n = b ∨ n = a) : (s'.orderAt n).isFilled = true ↔ n ∉ s'.nodes := by
  have hnodup : s.nodes.Nodup := List.Nodup.of_map _ hw.nodes.ids_nodup
  rw [Store.nodes, h.bids, h.asks, List.nodup_append] at hnodup
  obtain ⟨hbs, has, hdisj⟩ := hnodup
  have hba : b ≠ a := hdisj b List.mem_cons_self a List.mem_cons_self
  have hb_as : b ∉ as := fun hmem =>
    hdisj b List.mem_cons_self b (List.mem_cons_of_mem _ hmem) rfl
  have ha_bs : a ∉ bs := fun hmem =>
    hdisj a (List.mem_cons_of_mem _ hmem) a List.mem_cons_self rfl
  have hb_bs : b ∉ bs := (List.nodup_cons.mp hbs).1
  have ha_as : a ∉ as := (List.nodup_cons.mp has).1
  rw [Store.nodes, h.bids', h.asks']
  rcases hn with rfl | rfl
  · constructor
    · intro hf
      rw [if_pos hf]
      split_ifs <;> simp [hb_bs, hb_as, hba]
    · intro hmem
      by_contra hf
      rw [if_neg hf] at hmem
      simp at hmem
  · constructor
    · intro hf
      rw [if_pos hf]
      split_ifs <;> simp [ha_bs, ha_as, hba.symm]
    · intro hmem
      by_contra hf
      rw [if_neg hf] at hmem
      simp at hmem

/-- The two queues have made one step of the matching. -/
theorem crossStep_eq (h : FrontsTraded s s' b a bs as q) (hw : WellIndexed s)
    (hcross : Crosses (s.orderAt b).toOrderTerms (s.orderAt a).toOrderTerms) :
    crossStep Crosses s.sides =
      some (⟨(s.orderAt b).toOrderTerms, (s.orderAt a).toOrderTerms, q.toNat⟩, s'.sides) := by
  have hmin : min (s.orderAt b).resting.qty (s.orderAt a).resting.qty = q.toNat := by
    rw [h.quantity, toNat_stdMin]
    rfl
  have hrest : ∀ n ∈ s.nodes, n ≠ b → n ≠ a → s'.heap n.order = s.heap n.order := by
    intro n hn hnb hna
    exact h.others _
      (fun heq => hnb (hw.nodes.eq_of_order hn (List.mem_append_left _ h.bid_mem) heq))
      fun heq => hna (hw.nodes.eq_of_order hn (List.mem_append_right _ h.ask_mem) heq)
  have hnodup : s.nodes.Nodup := List.Nodup.of_map _ hw.nodes.ids_nodup
  rw [Store.nodes, h.bids, h.asks, List.nodup_append] at hnodup
  obtain ⟨hbs, has, hdisj⟩ := hnodup
  have hbids : s'.sides.bids =
      settle q.toNat (s.orderAt b).resting (bs.map fun n => (s.orderAt n).resting) := by
    unfold Store.sides
    rw [h.bids']
    apply map_settle h.bid h.le_bid
    intro n hn
    refine hrest n ?_ ?_ ?_
    · rw [Store.nodes, h.bids]
      exact List.mem_append_left _ (List.mem_cons_of_mem _ hn)
    · rintro rfl
      exact (List.nodup_cons.mp hbs).1 hn
    · exact hdisj n (List.mem_cons_of_mem _ hn) a List.mem_cons_self
  have hasks : s'.sides.asks =
      settle q.toNat (s.orderAt a).resting (as.map fun n => (s.orderAt n).resting) := by
    unfold Store.sides
    rw [h.asks']
    apply map_settle h.ask h.le_ask
    intro n hn
    refine hrest n ?_ ?_ ?_
    · rw [Store.nodes, h.asks]
      exact List.mem_append_right _ (List.mem_cons_of_mem _ hn)
    · exact (hdisj b List.mem_cons_self n (List.mem_cons_of_mem _ hn)).symm
    · rintro rfl
      exact (List.nodup_cons.mp has).1 hn
  have hsides : s'.sides = ⟨s'.sides.bids, s'.sides.asks⟩ := rfl
  rw [hsides, hbids, hasks]
  simp only [Store.sides, h.bids, h.asks, List.map_cons, crossStep, Order.resting_terms,
    if_pos hcross, hmin]

/-- The legs of the trade name the two fronts. -/
theorem names_iff (h : FrontsTraded s s' b a bs as q) (hw : WellIndexed s) {n : Node}
    (hn : n ∈ s.nodes) :
    ((s.orderAt b).orderId = s.idAt n ∨ (s.orderAt a).orderId = s.idAt n) ↔ n = b ∨ n = a := by
  constructor
  · rintro (heq | heq)
    · exact Or.inl (hw.nodes.eq_of_id hn (List.mem_append_left _ h.bid_mem) heq.symm)
    · exact Or.inr (hw.nodes.eq_of_id hn (List.mem_append_right _ h.ask_mem) heq.symm)
  · rintro (rfl | rfl)
    · exact Or.inl rfl
    · exact Or.inr rfl

/-- The bids that are left are in their order. -/
theorem bidNodes_sublist (h : FrontsTraded s s' b a bs as q) :
    s'.bidNodes.Sublist s.bidNodes := by
  rw [h.bids, h.bids']
  split_ifs
  · exact List.sublist_cons_self _ _
  · exact List.Sublist.refl _

/-- The asks that are left are in their order. -/
theorem askNodes_sublist (h : FrontsTraded s s' b a bs as q) :
    s'.askNodes.Sublist s.askNodes := by
  rw [h.asks, h.asks']
  split_ifs
  · exact List.sublist_cons_self _ _
  · exact List.Sublist.refl _

/-- A trade leaves the terms of every order. -/
theorem terms (h : FrontsTraded s s' b a bs as q) (p : OrderPointer) :
    (s'.heap p).toOrderTerms = (s.heap p).toOrderTerms := by
  by_cases hpb : p = b.order
  · subst hpb
    have hb := congrArg Order.toOrderTerms h.bid
    exact hb
  by_cases hpa : p = a.order
  · subst hpa
    have ha := congrArg Order.toOrderTerms h.ask
    exact ha
  rw [h.others p hpb hpa]

/-- Only the fronts can be popped. -/
theorem eq_of_not_mem (h : FrontsTraded s s' b a bs as q) {n : Node} (hn : n ∈ s.nodes)
    (hnot : n ∉ s'.nodes) : n = b ∨ n = a := by
  by_contra hfront
  rw [not_or] at hfront
  apply hnot
  rw [Store.nodes, h.bids, h.asks] at hn
  rw [Store.nodes, h.bids', h.asks']
  have hn' : n ∈ bs ∨ n ∈ as := by simpa [hfront.1, hfront.2] using hn
  rcases hn' with hn' | hn'
  · apply List.mem_append_left
    split_ifs <;> simp [hn']
  · apply List.mem_append_right
    split_ifs <;> simp [hn']

/-- Where both fronts have something open, the trade moves something. -/
theorem quantity_pos (h : FrontsTraded s s' b a bs as q)
    (hb : (s.orderAt b).remainingQuantity.toNat ≠ 0)
    (ha : (s.orderAt a).remainingQuantity.toNat ≠ 0) : 0 < q.toNat := by
  have hq : q.toNat = min (s.orderAt b).remainingQuantity.toNat
      (s.orderAt a).remainingQuantity.toNat := by
    rw [h.quantity, toNat_stdMin]
  omega

/-- **One pass of the inner loop, as a `Matched`.** -/
theorem matched (h : FrontsTraded s s' b a bs as q) (hw : WellIndexed s)
    (hcross : Crosses (s.orderAt b).toOrderTerms (s.orderAt a).toOrderTerms) :
    Matched s [Trade.of (s.orderAt b).toOrderTerms (s.orderAt a).toOrderTerms q] s' := by
  have hbs : b ∈ s.nodes := List.mem_append_left _ h.bid_mem
  have has : a ∈ s.nodes := List.mem_append_right _ h.ask_mem
  have hid : (s.orderAt b).orderId ≠ (s.orderAt a).orderId := fun heq =>
    hw.order_ne h.bid_mem h.ask_mem (congrArg Node.order (hw.nodes.eq_of_id hbs has heq))
  refine ⟨h.wellIndexed, ?_, h.terms, ?_, h.bidNodes_sublist, h.askNodes_sublist, ?_, ?_, ?_, ?_,
    ?_, ?_, h.nextOrder, h.nextNode⟩
  · exact ⟨[_], .cons (h.crossStep_eq hw hcross) (.nil _), .cons ⟨q, rfl, rfl⟩ .nil⟩
  · intro p hp
    exact h.others p (hp b hbs).symm (hp a has).symm
  · intro n hn
    rw [traded_of q _ hid]
    simp only [h.names_iff hw hn]
    exact h.remaining hw hn
  · intro n hn hnot
    exact (Order.isFilled_iff _).mp ((h.filled_iff_not_mem hw (h.eq_of_not_mem hn hnot)).mpr hnot)
  · rintro n hn ⟨t, ht, hname⟩ hzero
    have hn' := (h.bidNodes_sublist.append h.askNodes_sublist).subset hn
    rw [List.mem_singleton.mp ht, Trade.names_of, h.names_iff hw hn'] at hname
    exact (h.filled_iff_not_mem hw hname).mp ((Order.isFilled_iff _).mpr hzero) hn
  · intro t ht
    exact ⟨b, h.bid_mem, a, h.ask_mem, q, List.mem_singleton.mp ht, hcross⟩
  · rintro n hn before t after heq hname ⟨t', ht', -⟩
    cases before with
    | nil => cases ht'
    | cons _ before =>
        obtain ⟨-, hnil⟩ := List.cons.inj heq
        simp at hnil
  · intro hopen t ht l hl
    have htraded : l.tradedQuantity = q := by
      rw [List.mem_singleton.mp ht] at hl
      rcases List.mem_cons.mp hl with rfl | hl
      · rfl
      · rw [List.mem_singleton.mp hl]
        rfl
    rw [htraded]
    exact h.quantity_pos (hopen b hbs) (hopen a has)

end FrontsTraded

end passes

/-! ## The loops -/

section loops

variable {s : Store} {pb pa : Price}

/-- The queue at a level of a side that is the first. -/
theorem find?_of_head {r : Price → Price → Prop} [IsStrictTotalOrder Price r]
    {m : OrderedMap Price OrderPointers r} {k : Price} {level : OrderPointers}
    {es : List (Price × OrderPointers)} (hm : m.entries = (k, level) :: es) :
    m.find? k = some level :=
  OrderedMap.find?_of_split (head_split hm)

/-- The invariant of the inner loop: only the two best levels change. -/
def BestLevels (pb pa : Price) (eb ea : List (Price × OrderPointers)) (s : Store) : Prop :=
  WellIndexed s ∧
    ∃ lb la, s.book.bids.entries = (pb, lb) :: eb ∧ s.book.asks.entries = (pa, la) :: ea

/-- Where the inner loop ends. -/
def BestEmpty (pb pa : Price) (s : Store) : Prop :=
  s.book.bids.find? pb = some [] ∨ s.book.asks.find? pa = some []

/-- The number of orders at the two best levels. -/
def bestCount (pb pa : Price) (s : Store) : ℕ :=
  ((s.book.bids.find? pb).getD []).length + ((s.book.asks.find? pa).getD []).length

/-- **A pass of the inner loop that finds two fronts** trades them once and pops the smaller
one. -/
theorem matchFronts_trades {b a : Node} {lb la : OrderPointers}
    {eb ea : List (Price × OrderPointers)} (hw : WellIndexed s)
    (hb : s.book.bids.entries = (pb, b :: lb) :: eb)
    (ha : s.book.asks.entries = (pa, a :: la) :: ea) (hcross : ¬ pb < pa) :
    ∃ t s', (matchFronts pb pa).run s = .returned (some [t]) s' ∧ Matched s [t] s' ∧
      s'.book.bids.entries = (pb, if (s'.orderAt b).isFilled then lb else b :: lb) :: eb ∧
      s'.book.asks.entries = (pa, if (s'.orderAt a).isFilled then la else a :: la) :: ea ∧
      ((s'.orderAt b).isFilled ∨ (s'.orderAt a).isFilled) := by
  have hbm : b ∈ s.bidNodes := by simp [bidNodes_of_split (head_split hb)]
  have ham : a ∈ s.askNodes := by simp [askNodes_of_split (head_split ha)]
  have hne := hw.order_ne hbm ham
  have hpb : (s.orderAt b).price = pb := hw.bids.keyed (pb, b :: lb) (by simp [hb]) b (by simp)
  have hpa : (s.orderAt a).price = pa := hw.asks.keyed (pa, a :: la) (by simp [ha]) a (by simp)
  have hc : Crosses (s.orderAt b).toOrderTerms (s.orderAt a).toOrderTerms := by
    unfold Crosses
    rwa [hpb, hpa]
  have htraded := frontsTraded_tradeFronts hw hb ha hne rfl
  refine ⟨_, _, run_matchFronts (find?_of_head hb) (find?_of_head ha) hne rfl,
    htraded.matched hw hc, tradeFronts_bids hb, tradeFronts_asks ha, ?_⟩
  -- the smaller of the two quantities is gone
  have hrb := htraded.remaining hw (List.mem_append_left _ hbm)
  have hra := htraded.remaining hw (List.mem_append_right _ ham)
  rw [if_pos (Or.inl rfl)] at hrb
  rw [if_pos (Or.inr rfl)] at hra
  rw [toNat_stdMin] at hrb hra
  by_cases hle : (s.orderAt b).remainingQuantity.toNat ≤ (s.orderAt a).remainingQuantity.toNat
  · left
    exact (Order.isFilled_iff _).mpr (by omega)
  · right
    exact (Order.isFilled_iff _).mpr (by omega)

/-- A pass of the inner loop that finds a level empty ends the loop. -/
theorem matchFronts_ends {lb la : OrderPointers} (hb : s.book.bids.find? pb = some lb)
    (ha : s.book.asks.find? pa = some la) (hempty : lb = [] ∨ la = []) :
    (matchFronts pb pa).run s = .returned none s := by
  rcases hempty with rfl | rfl
  · simp [matchFronts, run_bidLevel hb, run_askLevel ha]
  · cases lb <;> simp [matchFronts, run_bidLevel hb, run_askLevel ha]

/-- **A pass of the inner loop** ends it, or trades the two fronts and pops the smaller one. -/
theorem matchFronts_pass {eb ea : List (Price × OrderPointers)} (hcross : ¬ pb < pa) (s : Store)
    (hinv : BestLevels pb pa eb ea s) :
    ((matchFronts pb pa).run s = .returned none s ∧ BestEmpty pb pa s) ∨
      ∃ ts s', (matchFronts pb pa).run s = .returned (some ts) s' ∧ BestLevels pb pa eb ea s' ∧
        bestCount pb pa s' < bestCount pb pa s ∧ Matched s ts s' := by
  obtain ⟨hw, lb, la, hb, ha⟩ := hinv
  have hfb := find?_of_head hb
  have hfa := find?_of_head ha
  rcases lb with _ | ⟨b, lb⟩
  · exact Or.inl ⟨matchFronts_ends hfb hfa (Or.inl rfl), Or.inl hfb⟩
  rcases la with _ | ⟨a, la⟩
  · exact Or.inl ⟨matchFronts_ends hfb hfa (Or.inr rfl), Or.inr hfa⟩
  right
  obtain ⟨t, s', hrun, hmatched, hb', ha', hfilled⟩ := matchFronts_trades hw hb ha hcross
  refine ⟨[t], s', hrun, ⟨hmatched.wellIndexed, _, _, hb', ha'⟩, ?_, hmatched⟩
  simp only [bestCount, find?_of_head hb', find?_of_head ha', hfb, hfa, Option.getD_some,
    List.length_cons]
  rcases hfilled with hfilled | hfilled
  · rw [if_pos hfilled]
    split_ifs
    · omega
    · rw [List.length_cons]
      omega
  · rw [if_pos (c := ((s'.orderAt a).isFilled = true)) hfilled]
    split_ifs
    · omega
    · rw [List.length_cons]
      omega

/-- **The inner loop.** Started on the two best levels, when these cross, it ends with one of
them empty and the other levels as they were. -/
theorem matchFronts_returns {lb la : OrderPointers} {eb ea : List (Price × OrderPointers)}
    (hw : WellIndexed s) (hb : s.book.bids.entries = (pb, lb) :: eb)
    (ha : s.book.asks.entries = (pa, la) :: ea) (hcross : ¬ pb < pa) :
    ∃ ts s', (Proc.collect (lb.length + la.length + 1) (matchFronts pb pa)).run s =
        .returned ts s' ∧ Matched s ts s' ∧
      ∃ lb' la', s'.book.bids.entries = (pb, lb') :: eb ∧ s'.book.asks.entries = (pa, la') :: ea ∧
        (lb' = [] ∨ la' = []) := by
  have hcount : bestCount pb pa s < lb.length + la.length + 1 := by
    simp [bestCount, find?_of_head hb, find?_of_head ha]
  obtain ⟨ts, s', hrun, ⟨-, lb', la', hb', ha'⟩, hexit, htrace⟩ :=
    Proc.collect_returns (matchFronts_pass hcross) _ s ⟨hw, lb, la, hb, ha⟩ hcount
  refine ⟨ts, s', hrun, Matched.of_trace htrace hw, lb', la', hb', ha', ?_⟩
  rcases hexit with h | h
  · rw [find?_of_head hb'] at h
    exact Or.inl (Option.some.inj h)
  · rw [find?_of_head ha'] at h
    exact Or.inr (Option.some.inj h)

/-- No level is empty: not the first, nor one behind it. -/
theorem noEmptyLevel_cons {r : Price → Price → Prop} {m : OrderedMap Price OrderPointers r}
    {k : Price} {level : OrderPointers} {es : List (Price × OrderPointers)}
    (hm : m.entries = (k, level) :: es) :
    NoEmptyLevel m ↔ level ≠ [] ∧ ∀ e ∈ es, e.2 ≠ [] := by
  unfold NoEmptyLevel
  rw [hm, List.forall_mem_cons]

/-- The bid level is dropped if it is empty. -/
theorem WellIndexed.closeBid_of_isEmpty {level : OrderPointers} {es : List (Price × OrderPointers)}
    (h : WellIndexed s) (hb : s.book.bids.entries = (pb, level) :: es)
    (hes : ∀ e ∈ es, e.2 ≠ []) {s' : Store}
    (hs' : s' = if level.isEmpty then s.closeBid pb else s) :
    Matched s [] s' ∧ NoEmptyLevel s'.book.bids ∧ s'.book.asks = s.book.asks ∧
      s'.book.bids.entries = if level.isEmpty then es else (pb, level) :: es := by
  subst hs'
  rcases level with _ | ⟨b, level⟩
  · have he : (s.closeBid pb).book.bids.entries = [] ++ es :=
      OrderedMap.entries_erase_of_split (head_split hb)
    refine ⟨Matched.of_eq (h.closeBid (head_split hb)) (closeBid_bidNodes (head_split hb)) rfl rfl
      rfl rfl, ?_, rfl, he⟩
    intro e hmem
    simp only [List.isEmpty_nil, if_true, he, List.nil_append] at hmem
    exact hes e hmem
  · refine ⟨Matched.refl h, ?_, rfl, hb⟩
    exact (noEmptyLevel_cons hb).mpr ⟨List.cons_ne_nil _ _, hes⟩

/-- The ask level is dropped if it is empty. -/
theorem WellIndexed.closeAsk_of_isEmpty {level : OrderPointers} {es : List (Price × OrderPointers)}
    (h : WellIndexed s) (ha : s.book.asks.entries = (pa, level) :: es)
    (hes : ∀ e ∈ es, e.2 ≠ []) {s' : Store}
    (hs' : s' = if level.isEmpty then s.closeAsk pa else s) :
    Matched s [] s' ∧ NoEmptyLevel s'.book.asks ∧ s'.book.bids = s.book.bids ∧
      s'.book.asks.entries = if level.isEmpty then es else (pa, level) :: es := by
  subst hs'
  rcases level with _ | ⟨a, level⟩
  · have he : (s.closeAsk pa).book.asks.entries = [] ++ es :=
      OrderedMap.entries_erase_of_split (head_split ha)
    refine ⟨Matched.of_eq (h.closeAsk (head_split ha)) rfl (closeAsk_askNodes (head_split ha)) rfl
      rfl rfl, ?_, rfl, he⟩
    intro e hmem
    simp only [List.isEmpty_nil, if_true, he, List.nil_append] at hmem
    exact hes e hmem
  · refine ⟨Matched.refl h, ?_, rfl, ha⟩
    exact (noEmptyLevel_cons ha).mpr ⟨List.cons_ne_nil _ _, hes⟩

/-- **One pass of the outer loop that finds a cross**: the inner loop between the two best levels,
and then the levels that it has emptied are dropped, at least one. -/
theorem matchLevels_returns {lb la : OrderPointers} {eb ea : List (Price × OrderPointers)}
    (hw : WellIndexed s) (hb : s.book.bids.entries = (pb, lb) :: eb)
    (ha : s.book.asks.entries = (pa, la) :: ea) (hcross : ¬ pb < pa)
    (hbids : NoEmptyLevel s.book.bids) (hasks : NoEmptyLevel s.book.asks) :
    ∃ ts s₁ s', (Proc.collect (lb.length + la.length + 1) (matchFronts pb pa)).run s =
        .returned ts s₁ ∧
      matchLevels.run s = .returned (some ts) s' ∧ Matched s ts s₁ ∧ Matched s₁ [] s' ∧
      NoEmptyLevel s'.book.bids ∧ NoEmptyLevel s'.book.asks ∧
      (s'.book.bids.entries = eb ∨ s'.book.asks.entries = ea) ∧
      s'.book.bids.entries.length + s'.book.asks.entries.length <
        s.book.bids.entries.length + s.book.asks.entries.length := by
  obtain ⟨ts, s₁, hrun, hmatched, lb', la', hb', ha', hempty⟩ :=
    matchFronts_returns hw hb ha hcross
  obtain ⟨s₂, hs₂⟩ : ∃ s₂, s₂ = if lb'.isEmpty then s₁.closeBid pb else s₁ := ⟨_, rfl⟩
  obtain ⟨hm₂, hbids₂, hsame₂, he₂⟩ :=
    hmatched.wellIndexed.closeBid_of_isEmpty hb' ((noEmptyLevel_cons hb).mp hbids).2 hs₂
  obtain ⟨s₃, hs₃⟩ : ∃ s₃, s₃ = if la'.isEmpty then s₂.closeAsk pa else s₂ := ⟨_, rfl⟩
  obtain ⟨hm₃, hasks₃, hsame₃, he₃⟩ :=
    hm₂.wellIndexed.closeAsk_of_isEmpty (hsame₂ ▸ ha') ((noEmptyLevel_cons ha).mp hasks).2 hs₃
  refine ⟨ts, s₁, s₃, hrun, ?_, hmatched, hm₂.trans hmatched.wellIndexed hm₃, hsame₃ ▸ hbids₂,
    hasks₃, ?_, ?_⟩
  · have hfb : s.book.bids.begin? = some (pb, lb) := by simp [OrderedMap.begin?, hb]
    have hfa : s.book.asks.begin? = some (pa, la) := by simp [OrderedMap.begin?, ha]
    simp only [matchLevels, Proc.run_bind, Proc.run_get, Outcome.bind_returned, hfb, hfa,
      if_neg hcross, hrun, run_bidLevel (find?_of_head hb'), run_askLevel (find?_of_head ha')]
    rcases lb' with _ | ⟨b, lb'⟩ <;> rcases la' with _ | ⟨a, la'⟩ <;>
      simp [hs₃, hs₂, eraseBidLevel, eraseAskLevel, Store.closeBid, Store.closeAsk]
  · rcases hempty with rfl | rfl
    · exact Or.inl (by rw [hsame₃]; exact he₂)
    · exact Or.inr he₃
  · rw [hsame₃, he₂, he₃, hb, ha, List.length_cons, List.length_cons]
    rcases hempty with rfl | rfl
    · rw [if_pos List.isEmpty_nil]
      split_ifs
      · omega
      · rw [List.length_cons]
        omega
    · rw [if_pos (c := (([] : List Node).isEmpty = true)) List.isEmpty_nil]
      split_ifs
      · omega
      · rw [List.length_cons]
        omega

/-- Where `MatchOrders` stops, the fronts do not cross. -/
theorem crossStep_eq_none_of_levels (hw : WellIndexed s) (hbids : NoEmptyLevel s.book.bids)
    (hasks : NoEmptyLevel s.book.asks)
    (hstop : ∀ eb ∈ s.book.bids.begin?, ∀ ea ∈ s.book.asks.begin?, eb.1 < ea.1) :
    crossStep Crosses s.sides = none := by
  rcases hb : s.book.bids.entries with _ | ⟨⟨pb, lb⟩, eb⟩
  · have hnil : s.bidNodes = [] := by simp [Store.bidNodes, OrderedMap.flat, hb]
    simp [crossStep, Store.sides, hnil]
  rcases ha : s.book.asks.entries with _ | ⟨⟨pa, la⟩, ea⟩
  · have hnil : s.askNodes = [] := by simp [Store.askNodes, OrderedMap.flat, ha]
    simp [crossStep, Store.sides, hnil]
  rcases lb with _ | ⟨b, lb⟩
  · exact absurd rfl ((noEmptyLevel_cons hb).mp hbids).1
  rcases la with _ | ⟨a, la⟩
  · exact absurd rfl ((noEmptyLevel_cons ha).mp hasks).1
  have hlt : pb < pa := hstop (pb, b :: lb) (by simp [OrderedMap.begin?, hb]) (pa, a :: la)
    (by simp [OrderedMap.begin?, ha])
  have hpb : (s.orderAt b).price = pb := hw.bids.keyed (pb, b :: lb) (by simp [hb]) b (by simp)
  have hpa : (s.orderAt a).price = pa := hw.asks.keyed (pa, a :: la) (by simp [ha]) a (by simp)
  have hnot : ¬ Crosses (s.orderAt b).toOrderTerms (s.orderAt a).toOrderTerms := by
    unfold Crosses
    rw [hpb, hpa]
    exact not_not_intro hlt
  simp [crossStep, Store.sides, bidNodes_of_split (head_split hb), askNodes_of_split (head_split ha),
    hnot]

/-- The invariant of the outer loop. -/
def LevelsFilled (s : Store) : Prop :=
  WellIndexed s ∧ NoEmptyLevel s.book.bids ∧ NoEmptyLevel s.book.asks

/-- Where the outer loop ends. -/
def LevelsApart (s : Store) : Prop :=
  ∀ eb ∈ s.book.bids.begin?, ∀ ea ∈ s.book.asks.begin?, eb.1 < ea.1

/-- The number of levels. -/
def levelCount (s : Store) : ℕ := s.book.bids.entries.length + s.book.asks.entries.length

/-- **A pass of the outer loop** ends it, or matches the two best levels and drops one. -/
theorem matchLevels_pass (s : Store) (hinv : LevelsFilled s) :
    (matchLevels.run s = .returned none s ∧ LevelsApart s) ∨
      ∃ ts s', matchLevels.run s = .returned (some ts) s' ∧ LevelsFilled s' ∧
        levelCount s' < levelCount s ∧ Matched s ts s' := by
  obtain ⟨hw, hbids, hasks⟩ := hinv
  rcases hb : s.book.bids.entries with _ | ⟨⟨pb, lb⟩, eb⟩
  · left
    have hfb : s.book.bids.begin? = none := by simp [OrderedMap.begin?, hb]
    simp [matchLevels, LevelsApart, hfb]
  rcases ha : s.book.asks.entries with _ | ⟨⟨pa, la⟩, ea⟩
  · left
    have hfa : s.book.asks.begin? = none := by simp [OrderedMap.begin?, ha]
    rcases hfb : s.book.bids.begin? <;> simp [matchLevels, LevelsApart, hfa, hfb]
  by_cases hlt : pb < pa
  · left
    have hfb : s.book.bids.begin? = some (pb, lb) := by simp [OrderedMap.begin?, hb]
    have hfa : s.book.asks.begin? = some (pa, la) := by simp [OrderedMap.begin?, ha]
    simp [matchLevels, LevelsApart, hfb, hfa, hlt]
  · right
    obtain ⟨ts, s₁, s', -, hrun, hmatched, hclosed, hbids', hasks', -, hlt'⟩ :=
      matchLevels_returns hw hb ha hlt hbids hasks
    have hpass : Matched s ts s' := by simpa using hmatched.trans hw hclosed
    exact ⟨ts, s', hrun, ⟨hpass.wellIndexed, hbids', hasks'⟩, hlt', hpass⟩

/-- **`MatchOrders` is total and does nothing but match**: from levels that are not empty it
returns, without an exception, a book whose fronts do not cross and whose levels are not empty. -/
theorem matchOrders_returns (hw : WellIndexed s) (hbids : NoEmptyLevel s.book.bids)
    (hasks : NoEmptyLevel s.book.asks) :
    ∃ ts s', matchOrders.run s = .returned ts s' ∧ Matched s ts s' ∧
      NoEmptyLevel s'.book.bids ∧ NoEmptyLevel s'.book.asks ∧
      crossStep Crosses s'.sides = none := by
  obtain ⟨ts, s', hrun, ⟨hw', hbids', hasks'⟩, hexit, htrace⟩ :=
    Proc.collect_returns matchLevels_pass _ s ⟨hw, hbids, hasks⟩ (Nat.lt_succ_self _)
  exact ⟨ts, s', hrun, Matched.of_trace htrace hw, hbids', hasks',
    crossStep_eq_none_of_levels hw' hbids' hasks' hexit⟩

end loops

end FlowManager.Book
