import FlowManager.Book.Steps

/-!
# Conservation of quantity

Every unit of an accepted order is open or traded, over whole runs. The run is read through two
histories: the *tape*, all trades that the calls have answered, and the *register*, the ids and
objects of the orders that `AddOrder` has taken. `Ledger` is the invariant between them and the
store:

* per order, what is open and what the tape says was traded make up the initial quantity;
* every trade on the tape is between two registered orders of opposite sides whose limits cross;
* an order that has been traded is traded again only with something open.

`Ledger.step` keeps it over one call, as long as no id is accepted twice, and
`orderBook_conserves` reads it after a run.
-/

namespace FlowManager.Book

open FlowManager.Lib FlowManager.Lib.PriceTime

/-! ## What a run answers -/

/-- The trades of an answer. -/
def Answer.trades : Answer → Trades
  | .added ts _ => ts
  | .cancelled _ => []

/-- All trades of a run. -/
def tape (as : List Answer) : Trades := as.flatMap Answer.trades

/-- An order that `AddOrder` has taken: its terms as they were submitted, and its object. -/
structure Entry where
  terms : OrderTerms
  order : OrderPointer
  deriving DecidableEq

/-- What a call adds to the register: `AddOrder` hands the pointer back unless it refuses. -/
def registered : Call → Answer → List Entry
  | .addOrder o, .added _ (some p) => [⟨o.toOrderTerms, p⟩]
  | _, _ => []

/-- All orders that a run has taken. -/
def register (cs : List Call) (as : List Answer) : List Entry :=
  (List.zipWith registered cs as).flatten

/-- No id is accepted twice. -/
def AcceptedOnce (register : List Entry) : Prop :=
  (register.map fun e => e.terms.orderId).Nodup

/-- Whether ids are accepted once is decided. -/
instance (register : List Entry) : Decidable (AcceptedOnce register) :=
  inferInstanceAs (Decidable (List.Nodup _))

/-- An order with nothing filled yet. -/
def Call.Unfilled : Call → Prop
  | .addOrder o => o.remainingQuantity = o.initialQuantity
  | .cancelOrder _ => True

/-- Whether a call brings an order of which nothing has been filled is decided. -/
instance (c : Call) : Decidable c.Unfilled := by
  cases c <;> unfold Call.Unfilled <;> infer_instance

/-! ## The invariant -/

/-- The tape may name the order now, or it has been traded and is not exhausted. -/
def InTurn (ts : Trades) (id : OrderId) (quantity : ℕ) : Prop :=
  ∀ before t after, ts = before ++ t :: after → t.Names id → (∃ t' ∈ before, t'.Names id) →
    traded before id < quantity

/-- A trade between two orders of opposite sides whose limits cross. -/
structure Trade.Between (t : Trade) (bid ask : OrderTerms) : Prop where
  bid_id : t.bidTrade.orderId = bid.orderId
  ask_id : t.askTrade.orderId = ask.orderId
  quantity : t.bidTrade.tradedQuantity = t.askTrade.tradedQuantity
  bid_side : bid.side = .Buy
  ask_side : ask.side = .Sell
  limits : ask.price ≤ bid.price

/-- What the store, the tape and the register have to do with each other. -/
structure Ledger (s : Store) (ts : Trades) (reg : List Entry) : Prop where
  known : ∀ e ∈ reg, e.order < s.nextOrder
  terms : ∀ e ∈ reg, (s.heap e.order).toOrderTerms = e.terms
  /-- What is open and what was traded make up the initial quantity. -/
  balance : ∀ e ∈ reg, (s.heap e.order).remainingQuantity.toNat + traded ts e.terms.orderId =
    e.terms.initialQuantity.toNat
  resting : ∀ n ∈ s.nodes, ∃ e ∈ reg, e.order = n.order
  parties : ∀ t ∈ ts, ∃ b ∈ reg, ∃ a ∈ reg, t.Between b.terms a.terms
  inTurn : ∀ e ∈ reg, InTurn ts e.terms.orderId e.terms.initialQuantity.toNat
  stays : ∀ n ∈ s.nodes, (∃ t ∈ ts, t.Names (s.idAt n)) →
    (s.orderAt n).remainingQuantity.toNat ≠ 0

namespace Ledger

variable {s s' : Store} {ts us : Trades} {reg : List Entry}

/-- The empty book has no accounts. -/
theorem empty : Ledger Store.empty [] [] := by
  have hnil : Store.empty.nodes = [] := rfl
  constructor <;> simp [hnil]

/-- Two entries with one id are one. -/
theorem eq_of_orderId (hreg : AcceptedOnce reg) {e e' : Entry} (he : e ∈ reg) (he' : e' ∈ reg)
    (h : e.terms.orderId = e'.terms.orderId) : e = e' :=
  List.inj_on_of_nodup_map hreg he he' h

/-- The id of the order a node holds is that of its entry. -/
theorem idAt_eq (h : Ledger s ts reg) {e : Entry} (he : e ∈ reg) {n : Node}
    (hn : e.order = n.order) : s.idAt n = e.terms.orderId := by
  rw [← h.terms e he, hn]
  rfl

/-- The tape names registered orders only. -/
theorem mem_of_names (h : Ledger s ts reg) {t : Trade} (ht : t ∈ ts) {id : OrderId}
    (hname : t.Names id) : ∃ e ∈ reg, e.terms.orderId = id := by
  obtain ⟨b, hb, a, ha, hbetween⟩ := h.parties t ht
  obtain ⟨l, hl, hid⟩ := hname
  rcases List.mem_cons.mp hl with rfl | hl
  · exact ⟨b, hb, hbetween.bid_id.symm.trans hid⟩
  · rw [List.mem_singleton.mp hl] at hid
    exact ⟨a, ha, hbetween.ask_id.symm.trans hid⟩

/-- The ledger depends on the heap at the registered objects and on what rests. -/
theorem of_frame (h : Ledger s ts reg) (hheap : ∀ e ∈ reg, s'.heap e.order = s.heap e.order)
    (hnodes : ∀ n ∈ s'.nodes, n ∈ s.nodes) (hnext : s.nextOrder ≤ s'.nextOrder) :
    Ledger s' ts reg := by
  have hat : ∀ n ∈ s'.nodes, s'.orderAt n = s.orderAt n := by
    intro n hn
    obtain ⟨e, he, heq⟩ := h.resting n (hnodes n hn)
    unfold Store.orderAt
    rw [← heq]
    exact hheap e he
  refine ⟨fun e he => (h.known e he).trans_le hnext, ?_, ?_, fun n hn => h.resting n (hnodes n hn),
    h.parties, h.inTurn, ?_⟩
  · intro e he
    rw [hheap e he]
    exact h.terms e he
  · intro e he
    rw [hheap e he]
    exact h.balance e he
  · intro n hn
    unfold Store.idAt
    rw [hat n hn]
    exact h.stays n (hnodes n hn)

/-- An id that is accepted for the first time has not been traded. -/
theorem not_named_of_new (h : Ledger s ts reg) {e : Entry} (hreg : AcceptedOnce (reg ++ [e])) :
    ∀ t ∈ ts, ¬ t.Names e.terms.orderId := by
  intro t ht hname
  obtain ⟨e', he', hid⟩ := h.mem_of_names ht hname
  unfold AcceptedOnce at hreg
  rw [List.map_append, List.nodup_append] at hreg
  exact hreg.2.2 _ (List.mem_map_of_mem he') _ (by simp) hid

/-- Registering a new order. -/
theorem register_new (h : Ledger s ts reg) {o : Order}
    (hunfilled : o.remainingQuantity = o.initialQuantity)
    (hreg : AcceptedOnce (reg ++ [⟨o.toOrderTerms, s.nextOrder⟩])) :
    Ledger (s.alloc o) ts (reg ++ [⟨o.toOrderTerms, s.nextOrder⟩]) := by
  have hheap : ∀ e ∈ reg, (s.alloc o).heap e.order = s.heap e.order := fun e he =>
    alloc_heap_of_ne (h.known e he).ne
  have h' : Ledger (s.alloc o) ts reg := h.of_frame hheap (fun n hn => hn) (Nat.le_succ _)
  have hunnamed : ∀ t ∈ ts, ¬ t.Names o.orderId := h.not_named_of_new hreg
  refine ⟨?_, ?_, ?_, ?_, ?_, ?_, h'.stays⟩
  · intro e he
    rcases List.mem_append.mp he with he | he
    · exact h'.known e he
    · rw [List.mem_singleton.mp he]
      exact Nat.lt_succ_self _
  · intro e he
    rcases List.mem_append.mp he with he | he
    · exact h'.terms e he
    · rw [List.mem_singleton.mp he, alloc_heap_self]
  · intro e he
    rcases List.mem_append.mp he with he | he
    · exact h'.balance e he
    · rw [List.mem_singleton.mp he, alloc_heap_self, traded_eq_zero_of_not_named hunnamed,
        hunfilled]
      rfl
  · intro n hn
    obtain ⟨e, he, heq⟩ := h'.resting n hn
    exact ⟨e, List.mem_append_left _ he, heq⟩
  · intro t ht
    obtain ⟨b, hb, a, ha, hbetween⟩ := h'.parties t ht
    exact ⟨b, List.mem_append_left _ hb, a, List.mem_append_left _ ha, hbetween⟩
  · intro e he
    rcases List.mem_append.mp he with he | he
    · exact h'.inTurn e he
    · rw [List.mem_singleton.mp he]
      intro before t after heq hname
      exact absurd hname (hunnamed t (by rw [heq]; simp))

/-- The entry of an order that a new trade names is that of a node. -/
theorem exists_node (h : Ledger s ts reg) (hreg : AcceptedOnce reg) (hm : Matched s us s')
    {e : Entry} (he : e ∈ reg) {t : Trade} (ht : t ∈ us) (hname : t.Names e.terms.orderId) :
    ∃ n ∈ s.nodes, n.order = e.order ∧ s.idAt n = e.terms.orderId := by
  obtain ⟨n, hn, hid⟩ := hm.exists_node_of_names ht hname
  obtain ⟨e', he', heq⟩ := h.resting n hn
  have hee' : e' = e := eq_of_orderId hreg he' he ((h.idAt_eq he' heq).symm.trans hid)
  exact ⟨n, hn, hee' ▸ heq.symm, hid⟩

/-- Matching keeps the balance of every order. -/
theorem balance_matched (h : Ledger s ts reg) (hreg : AcceptedOnce reg) (hm : Matched s us s')
    {e : Entry} (he : e ∈ reg) :
    (s'.heap e.order).remainingQuantity.toNat + traded (ts ++ us) e.terms.orderId =
      e.terms.initialQuantity.toNat := by
  rw [traded_append]
  have hbalance := h.balance e he
  by_cases hrest : ∃ n ∈ s.nodes, n.order = e.order
  · obtain ⟨n, hn, horder⟩ := hrest
    have hledger := hm.ledger n hn
    unfold Store.orderAt at hledger
    rw [h.idAt_eq he horder.symm, horder] at hledger
    omega
  · have hzero : traded us e.terms.orderId = 0 := by
      apply traded_eq_zero_of_not_named
      intro t ht hname
      obtain ⟨n, hn, horder, -⟩ := h.exists_node hreg hm he ht hname
      exact hrest ⟨n, hn, horder⟩
    rw [hm.frame _ fun n hn horder => hrest ⟨n, hn, horder⟩, hzero]
    exact hbalance

/-- The parties of a new trade have entries. -/
theorem parties_matched (h : Ledger s ts reg) (hw : WellIndexed s) (hm : Matched s us s')
    {t : Trade} (ht : t ∈ us) : ∃ b ∈ reg, ∃ a ∈ reg, t.Between b.terms a.terms := by
  obtain ⟨b, hb, a, ha, q, rfl, hc⟩ := hm.parties t ht
  obtain ⟨eb, heb, hbeq⟩ := h.resting b (List.mem_append_left _ hb)
  obtain ⟨ea, hea, haeq⟩ := h.resting a (List.mem_append_right _ ha)
  have hbt : eb.terms = (s.orderAt b).toOrderTerms := by
    rw [← h.terms eb heb, hbeq]
    rfl
  have hat : ea.terms = (s.orderAt a).toOrderTerms := by
    rw [← h.terms ea hea, haeq]
    rfl
  refine ⟨eb, heb, ea, hea, ?_⟩
  rw [hbt, hat]
  exact ⟨rfl, rfl, rfl, hw.bids.side_eq b hb, hw.asks.side_eq a ha, UInt32.not_lt.mp hc⟩

/-- Matching keeps the trades of every order in turn. -/
theorem inTurn_matched (h : Ledger s ts reg) (hreg : AcceptedOnce reg) (hm : Matched s us s')
    {e : Entry} (he : e ∈ reg) :
    InTurn (ts ++ us) e.terms.orderId e.terms.initialQuantity.toNat := by
  intro before t after heq hname hearlier
  rcases split_of_append heq with ⟨c, rfl, hus⟩ | ⟨c, rfl⟩
  · obtain ⟨n, hn, horder, hid⟩ := h.exists_node hreg hm he (by rw [hus]; simp) hname
    have hbalance := h.balance e he
    rw [← horder] at hbalance
    rw [traded_append]
    obtain ⟨t', ht', hname'⟩ := hearlier
    rcases named_append ht' hname' with hlater | ⟨hzero, hbefore⟩
    · have hretires := hm.retires n hn c t after hus (by rwa [hid]) (by rwa [hid])
      rw [hid] at hretires
      unfold Store.orderAt at hretires
      omega
    · have hopen := h.stays n hn (by rwa [hid])
      unfold Store.orderAt at hopen
      omega
  · exact h.inTurn e he before t c rfl hname hearlier

/-- **Matching keeps the ledger.** -/
theorem matched (h : Ledger s ts reg) (hw : WellIndexed s) (hreg : AcceptedOnce reg)
    (hm : Matched s us s') : Ledger s' (ts ++ us) reg := by
  refine ⟨?_, ?_, fun e he => h.balance_matched hreg hm he, ?_, ?_,
    fun e he => h.inTurn_matched hreg hm he, ?_⟩
  · intro e he
    rw [hm.nextOrder]
    exact h.known e he
  · intro e he
    rw [hm.terms]
    exact h.terms e he
  · intro n hn
    exact h.resting n (hm.mem_nodes hn)
  · intro t ht
    rcases List.mem_append.mp ht with ht | ht
    · exact h.parties t ht
    · exact h.parties_matched hw hm ht
  · intro n hn
    rw [hm.idAt]
    rintro ⟨t, ht, hname⟩
    rcases named_append ht hname with hlater | ⟨hzero, hearlier⟩
    · exact hm.stays n hn hlater
    · have hledger := hm.ledger n (hm.mem_nodes hn)
      have hopen := h.stays n (hm.mem_nodes hn) hearlier
      omega

/-- Appending a registered order that has not been traded keeps the ledger. -/
theorem pushOrder (h : Ledger s ts reg) (hw : WellIndexed s) {p : OrderPointer}
    (hp : ∃ e ∈ reg, e.order = p) (hunnamed : ∀ t ∈ ts, ¬ t.Names (s.heap p).orderId) :
    Ledger (s.pushOrder p) ts reg := by
  have hmem : ∀ n, n ∈ (s.pushOrder p).nodes ↔ n = ⟨s.nextNode, p⟩ ∨ n ∈ s.nodes := fun _ =>
    mem_pushOrder_nodes hw
  refine ⟨?_, ?_, ?_, ?_, h.parties, h.inTurn, ?_⟩
  · rw [pushOrder_nextOrder]
    exact h.known
  · rw [pushOrder_heap]
    exact h.terms
  · rw [pushOrder_heap]
    exact h.balance
  · intro n hn
    rcases (hmem n).mp hn with rfl | hn
    · exact hp
    · exact h.resting n hn
  · intro n hn
    unfold Store.idAt Store.orderAt
    rw [pushOrder_heap]
    rintro ⟨t, ht, hname⟩
    rcases (hmem n).mp hn with rfl | hn
    · exact absurd hname (hunnamed t ht)
    · exact h.stays n hn ⟨t, ht, hname⟩

/-- **One call keeps the ledger**, as long as no id is accepted twice. -/
theorem step {c : Call} {a : Answer} (h : Ledger s ts reg) (hi : Invariant s)
    (hstep : CallStep s c a s') (hunfilled : c.Unfilled)
    (hreg : AcceptedOnce (reg ++ registered c a)) :
    Ledger s' (ts ++ a.trades) (reg ++ registered c a) := by
  cases hstep with
  | refused o hid =>
      have hframe : Ledger (s.alloc o) ts reg :=
        h.of_frame (fun e he => alloc_heap_of_ne (h.known e he).ne) (fun n hn => hn)
          (Nat.le_succ _)
      simpa [registered, Answer.trades] using hframe
  | turnedAway o hid hfak hcan =>
      simpa [registered, Answer.trades] using h.register_new hunfilled hreg
  | accepted o ts' s' hid hcan hacc =>
      have hnew := h.register_new hunfilled hreg
      obtain ⟨s₂, hm, hheap, hnodes⟩ := hacc.matched
      have hheap₀ : (s.alloc o).heap s.nextOrder = o := alloc_heap_self
      have hunnamed : ∀ t ∈ ts, ¬ t.Names o.orderId := h.not_named_of_new hreg
      have hpush := hnew.pushOrder (p := s.nextOrder) (hi.alloc o).toWellIndexed
        ⟨_, List.mem_append_right _ (List.mem_singleton.mpr rfl), rfl⟩ (by rwa [hheap₀])
      have hmatched := hpush.matched ((hi.alloc o).toWellIndexed.pushOrder (by rwa [hheap₀])
        (Nat.lt_succ_self _)) hreg hm
      have hle : s₂.nextOrder ≤ s'.nextOrder := by
        rw [hacc.nextOrder, hm.nextOrder, pushOrder_nextOrder]
      exact hmatched.of_frame (fun e _ => by rw [hheap]) (fun n hn => ((hnodes n).mp hn).1) hle
  | notFound id hid => simpa [registered, Answer.trades] using h
  | cancelled n s' hn hremoved =>
      have hframe : Ledger s' ts reg :=
        h.of_frame (fun e _ => by rw [hremoved.heap])
          (fun m hm => ((hremoved.mem_nodes_iff hi.toWellIndexed).mp hm).1)
          hremoved.nextOrder.symm.le
      simpa [registered, Answer.trades] using hframe

end Ledger

/-! ## Orders that are out of the book -/

section out

variable {s s' : Store} {c : Call} {a : Answer} {cs : List Call} {as : List Answer}
  {id : OrderId}

/-- A call names, and leaves in the book, only ids that were live or that it registers. -/
theorem CallStep.live_imp (hstep : CallStep s c a s') (hi : Invariant s)
    (h : (∃ t ∈ a.trades, t.Names id) ∨ id ∈ s'.book.ordersMap) :
    id ∈ s.book.ordersMap ∨ ∃ e ∈ registered c a, e.terms.orderId = id := by
  cases hstep with
  | refused o hid =>
      left
      simpa [Answer.trades] using h
  | turnedAway o hid hfak hcan =>
      left
      simpa [Answer.trades] using h
  | accepted o ts s' hid hcan hacc =>
      obtain ⟨s₂, hm, hheap, hnodes⟩ := hacc.matched
      have hw := (hi.alloc o).toWellIndexed
      -- either way there is a node of the book that was matched
      obtain ⟨n, hn, hnid⟩ : ∃ n ∈ ((s.alloc o).pushOrder s.nextOrder).nodes,
          ((s.alloc o).pushOrder s.nextOrder).idAt n = id := by
        rcases h with ⟨t, ht, hname⟩ | hmem
        · exact hm.exists_node_of_names ht hname
        · obtain ⟨n, hn, hnid⟩ := hacc.invariant.mem_ordersMap_iff.mp hmem
          refine ⟨n, hm.mem_nodes ((hnodes n).mp hn).1, ?_⟩
          rw [← hm.idAt n, ← hnid]
          unfold Store.idAt Store.orderAt
          rw [hheap]
      unfold Store.idAt Store.orderAt at hnid
      rw [pushOrder_heap] at hnid
      rcases (mem_pushOrder_nodes hw).mp hn with rfl | hn
      · right
        refine ⟨_, List.mem_singleton.mpr rfl, ?_⟩
        simpa using hnid
      · left
        refine hi.mem_ordersMap_iff.mpr ⟨n, hn, ?_⟩
        rw [← hnid]
        exact congrArg (fun o : Order => o.orderId) (hi.alloc_orderAt (o := o) hn).symm
  | notFound id' hid =>
      left
      simpa [Answer.trades] using h
  | cancelled n s' hn hremoved =>
      left
      rcases h with ⟨t, ht, -⟩ | hmem
      · cases ht
      · obtain ⟨m, hm, hid⟩ := hremoved.wellIndexed.mem_ordersMap_iff.mp hmem
        refine hi.mem_ordersMap_iff.mpr
          ⟨m, ((hremoved.mem_nodes_iff hi.toWellIndexed).mp hm).1, ?_⟩
        rw [← hid]
        unfold Store.idAt Store.orderAt
        rw [hremoved.heap]

/-- **An id that is out of the book and is not accepted again is not named again.** -/
theorem CallSteps.not_named (hsteps : CallSteps s cs as s') (hi : Invariant s)
    (hout : id ∉ s.book.ordersMap) (hnew : ∀ e ∈ register cs as, e.terms.orderId ≠ id) :
    ∀ t ∈ tape as, ¬ t.Names id := by
  induction hsteps with
  | nil s => simp [tape]
  | @cons s s' s'' c a cs as hstep hrest ih =>
      have hsplit : register (c :: cs) (a :: as) = registered c a ++ register cs as := by
        simp [register]
      rw [hsplit] at hnew
      have hnot : ¬ ((∃ t ∈ a.trades, t.Names id) ∨ id ∈ s'.book.ordersMap) := by
        intro h
        rcases hstep.live_imp hi h with hlive | ⟨e, he, hid⟩
        · exact hout hlive
        · exact hnew e (List.mem_append_left _ he) hid
      intro t ht hname
      have ht' : t ∈ a.trades ++ tape as := ht
      rcases List.mem_append.mp ht' with ht' | ht'
      · exact hnot (Or.inl ⟨t, ht', hname⟩)
      · exact ih (hstep.invariant hi) (fun h => hnot (Or.inr h))
          (fun e he => hnew e (List.mem_append_right _ he)) t ht' hname

end out

/-! ## Runs -/

section runs

variable {s s' : Store} {cs : List Call} {as : List Answer}

/-- The register of a call and of those after it. -/
theorem register_cons (c : Call) (a : Answer) (cs : List Call) (as : List Answer) :
    register (c :: cs) (a :: as) = registered c a ++ register cs as := by
  simp [register]

/-- The register of calls in two parts. -/
theorem register_append {cs₁ cs₂ : List Call} {as₁ as₂ : List Answer}
    (hlen : as₁.length = cs₁.length) :
    register (cs₁ ++ cs₂) (as₁ ++ as₂) = register cs₁ as₁ ++ register cs₂ as₂ := by
  unfold register
  rw [List.zipWith_append hlen.symm, List.flatten_append]

/-- What is accepted later has another id. -/
theorem AcceptedOnce.disjoint {r₁ r₂ : List Entry} (h : AcceptedOnce (r₁ ++ r₂)) {e₁ e₂ : Entry}
    (h₁ : e₁ ∈ r₁) (h₂ : e₂ ∈ r₂) : e₁.terms.orderId ≠ e₂.terms.orderId := by
  unfold AcceptedOnce at h
  rw [List.map_append, List.nodup_append] at h
  exact h.2.2 _ (List.mem_map_of_mem h₁) _ (List.mem_map_of_mem h₂)

/-- What is accepted once in a run is so in its first part. -/
theorem AcceptedOnce.left {r₁ r₂ : List Entry} (h : AcceptedOnce (r₁ ++ r₂)) :
    AcceptedOnce r₁ := by
  unfold AcceptedOnce at h ⊢
  rw [List.map_append] at h
  exact (List.nodup_append.mp h).1

/-- **A run keeps the ledger.** -/
theorem Ledger.steps {ts : Trades} {reg : List Entry} (hsteps : CallSteps s cs as s')
    (h : Ledger s ts reg) (hi : Invariant s) (hunfilled : ∀ c ∈ cs, c.Unfilled)
    (hreg : AcceptedOnce (reg ++ register cs as)) :
    Ledger s' (ts ++ tape as) (reg ++ register cs as) := by
  induction hsteps generalizing ts reg with
  | nil s => simpa [tape, register] using h
  | @cons s s' s'' c a cs as hstep hrest ih =>
      obtain ⟨hfirst, hlater⟩ := List.forall_mem_cons.mp hunfilled
      rw [register_cons, ← List.append_assoc] at hreg ⊢
      have htape : ts ++ tape (a :: as) = ts ++ a.trades ++ tape as := by simp [tape]
      rw [htape]
      exact ih (h.step hi hstep hfirst hreg.left) (hstep.invariant hi) hlater hreg

/-- Every call has an answer. -/
theorem CallSteps.length_eq (hsteps : CallSteps s cs as s') : as.length = cs.length := by
  induction hsteps with
  | nil s => rfl
  | cons _ _ ih => simp [ih]

/-- A run can be cut anywhere. -/
theorem CallSteps.split {cs₁ cs₂ : List Call} (hsteps : CallSteps s (cs₁ ++ cs₂) as s') :
    ∃ as₁ as₂ s₁, as = as₁ ++ as₂ ∧ as₁.length = cs₁.length ∧ CallSteps s cs₁ as₁ s₁ ∧
      CallSteps s₁ cs₂ as₂ s' := by
  induction cs₁ generalizing s as with
  | nil => exact ⟨[], as, s, rfl, rfl, .nil s, hsteps⟩
  | cons c cs₁ ih =>
      cases hsteps with
      | @cons _ s₀ _ _ a _ as hstep hrest =>
          obtain ⟨as₁, as₂, s₁, rfl, hlen, h₁, h₂⟩ := ih hrest
          exact ⟨a :: as₁, as₂, s₁, rfl, by simp [hlen], .cons hstep h₁, h₂⟩

end runs

/-- The call takes the order of an id out of the book for good: a cancel that found it, or a
fill-and-kill order, whose rest does not stay. -/
def Retires (c : Call) (a : Answer) (id : OrderId) : Prop :=
  (c = .cancelOrder id ∧ a = .cancelled true) ∨
    ∃ o ts p, c = .addOrder o ∧ o.orderType = .FillAndKill ∧ o.orderId = id ∧
      a = .added ts (some p)

/-- After a call that retires an id, the id is registered and out of the book. -/
theorem CallStep.retires {s s' : Store} {c : Call} {a : Answer} {id : OrderId}
    (hstep : CallStep s c a s') (hi : Invariant s) (h : Retires c a id) :
    id ∉ s'.book.ordersMap ∧
      (id ∈ s.book.ordersMap ∨ ∃ e ∈ registered c a, e.terms.orderId = id) := by
  have hi' := hstep.invariant hi
  rcases h with ⟨rfl, rfl⟩ | ⟨o, ts, p, rfl, hfak, rfl, rfl⟩
  · generalize hc : Call.cancelOrder id = c at hstep
    cases hstep with
    | cancelled n s' hn hremoved =>
        obtain rfl := Call.cancelOrder.inj hc
        refine ⟨?_, Or.inl (hi.mem_ordersMap_iff.mpr ⟨n, hn, rfl⟩)⟩
        intro hmem
        obtain ⟨m, hm, hid⟩ := hi'.mem_ordersMap_iff.mp hmem
        obtain ⟨hm, hne⟩ := (hremoved.mem_nodes_iff hi.toWellIndexed).mp hm
        apply hne
        apply hi.nodes.eq_of_id hm hn
        unfold Store.idAt Store.orderAt at hid
        rw [hremoved.heap] at hid
        exact hid
  · refine ⟨?_, Or.inr ⟨_, List.mem_singleton.mpr rfl, rfl⟩⟩
    cases hstep with
    | turnedAway _ hid _ _ => exact hid
    | accepted _ _ s' hid hcan hacc =>
        obtain ⟨s₂, hm, hheap, hnodes⟩ := hacc.matched
        intro hmem
        obtain ⟨n, hn, hnid⟩ := hi'.mem_ordersMap_iff.mp hmem
        obtain ⟨hn₂, hne⟩ := (hnodes n).mp hn
        rcases (mem_pushOrder_nodes (hi.alloc o).toWellIndexed).mp (hm.mem_nodes hn₂) with
          rfl | hold
        · exact hne (by rwa [alloc_heap_self]) rfl
        · apply hid
          refine hi.mem_ordersMap_iff.mpr ⟨n, hold, ?_⟩
          rw [← hnid]
          unfold Store.idAt Store.orderAt
          rw [hheap, hm.terms, pushOrder_heap]
          exact congrArg (fun o : Order => o.orderId) (hi.alloc_orderAt (o := o) hold).symm

/-- Quantity is conserved in a run. -/
structure Conserved (cs : List Call) (as : List Answer) (s : Store) : Prop where
  /-- The terms of an accepted order are as submitted, and what it has open and what all trades
  with its id moved make up its initial quantity. -/
  balance : ∀ e ∈ register cs as, (s.heap e.order).toOrderTerms = e.terms ∧
    e.terms.initialQuantity.toNat =
      (s.heap e.order).remainingQuantity.toNat + traded (tape as) e.terms.orderId
  /-- A trade has equal legs, between an accepted bid and an accepted ask whose limits cross. -/
  parties : ∀ t ∈ tape as, ∃ b ∈ register cs as, ∃ a ∈ register cs as,
    t.Between b.terms a.terms
  /-- No trade names an order that earlier trades have traded down to nothing. -/
  inTurn : ∀ e ∈ register cs as,
    InTurn (tape as) e.terms.orderId e.terms.initialQuantity.toNat
  /-- No trade names an order that an earlier call has cancelled. -/
  retired : ∀ id cs₁ c cs₂ as₁ a as₂, cs = cs₁ ++ c :: cs₂ → as = as₁ ++ a :: as₂ →
    as₁.length = cs₁.length → Retires c a id → ∀ t ∈ tape as₂, ¬ t.Names id

/-- **Conservation of quantity.** Every run of calls with new orders returns, so `Order::Fill` has
neither thrown nor wrapped; and if no id is accepted twice, quantity is conserved. -/
theorem orderBook_conserves (cs : List Call) (hunfilled : ∀ c ∈ cs, c.Unfilled) :
    ∃ as s, (calls cs).run Store.empty = .returned as s ∧
      (AcceptedOnce (register cs as) → Conserved cs as s) := by
  obtain ⟨as, s, hrun, hsteps⟩ := calls_steps invariant_empty cs
  refine ⟨as, s, hrun, ?_⟩
  intro hreg
  have hledger : Ledger s (tape as) (register cs as) := by
    simpa using Ledger.empty.steps hsteps invariant_empty hunfilled (by simpa using hreg)
  refine ⟨?_, hledger.parties, hledger.inTurn, ?_⟩
  · intro e he
    exact ⟨hledger.terms e he, (hledger.balance e he).symm⟩
  · rintro id cs₁ c cs₂ as₁ a as₂ rfl rfl hlen hretires t ht hname
    obtain ⟨as₁', as₂', s₁, has, hlen', h₁, h₂⟩ := hsteps.split
    obtain ⟨rfl, rfl⟩ := List.append_inj has (hlen.trans hlen'.symm)
    cases h₂ with
    | cons hstep hrest =>
        have hi₁ := h₁.invariant invariant_empty
        obtain ⟨hout, hin⟩ := hstep.retires hi₁ hretires
        refine hrest.not_named (hstep.invariant hi₁) hout ?_ t ht hname
        intro e he hid
        rw [register_append hlen, register_cons] at hreg
        rcases hin with hlive | ⟨e', he', hid'⟩
        · -- it was accepted before the call
          obtain ⟨n, hn, hnid⟩ := hi₁.mem_ordersMap_iff.mp hlive
          have hledger₁ : Ledger s₁ (tape as₁) (register cs₁ as₁) := by
            simpa using Ledger.empty.steps h₁ invariant_empty
              (fun c hc => hunfilled c (List.mem_append_left _ hc)) (by simpa using hreg.left)
          obtain ⟨e', he', heq⟩ := hledger₁.resting n hn
          refine hreg.disjoint he' (List.mem_append_right _ he) ?_
          rw [hid, ← hledger₁.idAt_eq he' heq]
          exact hnid
        · -- it was accepted by the call
          rw [← List.append_assoc] at hreg
          exact hreg.disjoint (List.mem_append_right _ he') he (hid'.trans hid.symm)

/-- A bid is hit twice, its id is tried again while it is live, and its rest is cancelled. -/
theorem orderBook_conserves_partial_fills :
    let cs : List Call := [.addOrder (Order.new .GoodTillCancel 1 .Buy 100 10),
      .addOrder (Order.new .GoodTillCancel 2 .Sell 100 4),
      .addOrder (Order.new .GoodTillCancel 1 .Buy 90 3),
      .addOrder (Order.new .FillAndKill 3 .Sell 95 2), .cancelOrder 1]
    ∃ as s, (calls cs).run Store.empty = .returned as s ∧ Conserved cs as s := by
  intro cs
  obtain ⟨as, s, hrun, h⟩ := orderBook_conserves cs (by decide)
  have honce : (match (calls cs).run Store.empty with
      | .returned as _ => decide (AcceptedOnce (register cs as))
      | _ => false) = true := by decide
  rw [hrun] at honce
  exact ⟨as, s, hrun, h (of_decide_eq_true honce)⟩

end FlowManager.Book
