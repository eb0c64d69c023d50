import FlowManager.Book.Conservation
import FlowManager.Book.Part

/-!
# The prices of a trade

Each leg of a trade carries the limit of its own order. The order that comes in crosses the one it
trades with, so what the buyer is told is at least what the seller is told; the two are one price
exactly when the limits are equal. So the trades of an order have one price each exactly when
every order that it reaches rests at its own limit (`one_price_iff`), and over a run in which this
holds of every order the buyers pay what the sellers get.
-/

namespace FlowManager.Book

open FlowManager.Lib FlowManager.Lib.PriceTime

/-! ## The two orders of a trade -/

/-- A trade of the order `o` that came in with the order `x`. -/
def Trade.Pairs (t : Trade) (o x : OrderTerms) : Prop :=
  ∃ q, t = match o.side with
    | .Buy => Trade.of o x q
    | .Sell => Trade.of x o q

/-- The order came in with the trade, or rested before. -/
def Party (s : Store) (o : Order) (x : OrderTerms) : Prop :=
  x = o.toOrderTerms ∨ ∃ r ∈ restingOrders s.sides, r.terms = x

/-- One of the two orders has nothing open. -/
def MovesNothing (o : Order) (r : Resting OrderTerms) : Prop :=
  o.remainingQuantity.toNat = 0 ∨ r.qty = 0

/-- One price for both legs, between the limits of the seller and of the buyer. -/
structure OnePrice (s : Store) (o : Order) (t : Trade) : Prop where
  same : t.bidTrade.price = t.askTrade.price
  limits : ∃ b a, Party s o b ∧ Party s o a ∧ t.Between b a ∧
    a.price ≤ t.bidTrade.price ∧ t.bidTrade.price ≤ b.price

/-- A recorded trade is between the two orders, both legs for the quantity of the fill. -/
theorem Trade.Records.pairs {t : Trade} {o x : OrderTerms} {n : ℕ}
    (h : t.Records (fillOf o (x, n))) :
    t.Pairs o x ∧ ∀ l ∈ t.legs, l.tradedQuantity.toNat = n := by
  obtain ⟨q, rfl, hq⟩ := h
  have hqn : q.toNat = n := by
    rw [hq]
    unfold fillOf
    cases o.side <;> rfl
  refine ⟨⟨q, ?_⟩, ?_⟩
  · unfold fillOf
    cases o.side <;> rfl
  · intro l hl
    rcases List.mem_cons.mp hl with rfl | hl
    · exact hqn
    · rw [List.mem_singleton.mp hl]
      exact hqn

/-- The legs of a trade have one price exactly where the limits are equal. -/
theorem Trade.Pairs.same_iff {t : Trade} {o x : OrderTerms} (h : t.Pairs o x) :
    t.bidTrade.price = t.askTrade.price ↔ x.price = o.price := by
  obtain ⟨q, rfl⟩ := h
  cases o.side with
  | Buy => exact eq_comm
  | Sell => exact Iff.rfl

/-- **Each leg carries the limit of its own order**, and the limits cross. -/
theorem Trade.Pairs.legs {t : Trade} {o x : OrderTerms} (h : t.Pairs o x)
    (hside : x.side = o.side.opposite) (hcross : PriceCrosses o x) :
    ∃ b a, (b = o ∧ a = x ∨ b = x ∧ a = o) ∧ t.Between b a ∧
      t.bidTrade.price = b.price ∧ t.askTrade.price = a.price := by
  obtain ⟨q, rfl⟩ := h
  unfold PriceCrosses at hcross
  cases ho : o.side with
  | Buy =>
      rw [ho] at hside hcross
      exact ⟨o, x, Or.inl ⟨rfl, rfl⟩, ⟨rfl, rfl, rfl, ho, hside, hcross⟩, rfl, rfl⟩
  | Sell =>
      rw [ho] at hside hcross
      exact ⟨x, o, Or.inr ⟨rfl, rfl⟩, ⟨rfl, rfl, rfl, hside, ho, hcross⟩, rfl, rfl⟩

/-- Both legs of a trade are for one quantity. -/
theorem Trade.Pairs.quantity {t : Trade} {o x : OrderTerms} (h : t.Pairs o x) :
    t.bidTrade.tradedQuantity = t.askTrade.tradedQuantity := by
  obtain ⟨q, rfl⟩ := h
  cases o.side <;> rfl

section handled

variable {s s' : Store} {o : Order} {ts : Trades} {p : OrderPointer}

/-- **A trade is with an order that the incoming order reaches.** -/
theorem Handled.pairs (h : Handled s o ts p s') (hi : Invariant s) {t : Trade} (ht : t ∈ ts) :
    ∃ r, ReachedBy o.toOrderTerms o.remainingQuantity.toNat s.sides r ∧
      t.Pairs o.toOrderTerms r.terms ∧
      ∀ l ∈ t.legs, l.tradedQuantity.toNat = 0 ↔ MovesNothing o r := by
  obtain ⟨f, hf, hrec⟩ := exists_mem_of_forall₂ h.records.flip ht
  obtain ⟨r, n, hr, rfl, hzero⟩ := exists_reachedBy_of_mem_fills hi.toWellIndexed.inOrder hf
  obtain ⟨hpairs, hlegs⟩ := Trade.Records.pairs hrec
  refine ⟨r, hr, hpairs, fun l hl => ?_⟩
  rw [hlegs l hl]
  exact hzero

/-- **It trades with every order that it reaches.** -/
theorem Handled.exists_pairs (h : Handled s o ts p s') (hi : Invariant s)
    {r : Resting OrderTerms}
    (hr : ReachedBy o.toOrderTerms o.remainingQuantity.toNat s.sides r) :
    ∃ t ∈ ts, t.Pairs o.toOrderTerms r.terms ∧
      ∀ l ∈ t.legs, l.tradedQuantity.toNat = 0 ↔ MovesNothing o r := by
  obtain ⟨n, hn, hzero⟩ := hr.exists_mem_fills hi.toWellIndexed.inOrder
  obtain ⟨t, ht, hrec⟩ := exists_mem_of_forall₂ h.records hn
  obtain ⟨hpairs, hlegs⟩ := hrec.pairs
  refine ⟨t, ht, hpairs, fun l hl => ?_⟩
  rw [hlegs l hl]
  exact hzero

/-- **The trades move something for an order** exactly if it is one of two that trade and that have
both something open: the one that came in and one that it reaches. -/
theorem Handled.traded_ne_zero_iff (h : Handled s o ts p s') (hi : Invariant s) {id : OrderId} :
    traded ts id ≠ 0 ↔
      ∃ r, ReachedBy o.toOrderTerms o.remainingQuantity.toNat s.sides r ∧ ¬MovesNothing o r ∧
        (id = o.orderId ∨ id = r.terms.orderId) := by
  have hids : ∀ {t : Trade} {r : Resting OrderTerms}, t.Pairs o.toOrderTerms r.terms →
      ((∃ l ∈ t.legs, l.orderId = id) ↔ id = o.orderId ∨ id = r.terms.orderId) := by
    rintro t r ⟨q, rfl⟩
    have hname : (Trade.of o.toOrderTerms r.terms q).Names id ↔ _ := Trade.names_of
    have hname' : (Trade.of r.terms o.toOrderTerms q).Names id ↔ _ := Trade.names_of
    cases o.side with
    | Buy => exact hname.trans (or_congr eq_comm eq_comm)
    | Sell => exact hname'.trans (or_comm.trans (or_congr eq_comm eq_comm))
  rw [Ne, traded_eq_zero_iff]
  push Not
  constructor
  · rintro ⟨t, ht, l, hl, hid, hmoved⟩
    obtain ⟨r, hr, hpairs, hzero⟩ := h.pairs hi ht
    exact ⟨r, hr, fun hnothing => hmoved ((hzero l hl).mpr hnothing),
      (hids hpairs).mp ⟨l, hl, hid⟩⟩
  · rintro ⟨r, hr, hmoves, hid⟩
    obtain ⟨t, ht, hpairs, hzero⟩ := h.exists_pairs hi hr
    obtain ⟨l, hl, hlid⟩ := (hids hpairs).mpr hid
    exact ⟨t, ht, l, hl, hlid, fun hnone => hmoves ((hzero l hl).mp hnone)⟩

/-- An order that is reached rests on the other side, at a limit that crosses. -/
theorem ReachedBy.opposite {o : OrderTerms} {q : ℕ} {r : Resting OrderTerms}
    (h : ReachedBy o q s.sides r) (hw : WellIndexed s) :
    r ∈ restingOrders s.sides ∧ r.terms.side = o.side.opposite ∧ PriceCrosses o r.terms := by
  have hmem := Reached.mem h
  refine ⟨mem_restingOrders_iff_queueOf.mpr ⟨_, hmem⟩, ?_, h.1⟩
  cases ho : o.side with
  | Buy =>
      rw [ho] at hmem
      obtain ⟨n, hn, rfl⟩ := List.mem_map.mp hmem
      exact hw.asks.side_eq n hn
  | Sell =>
      rw [ho] at hmem
      obtain ⟨n, hn, rfl⟩ := List.mem_map.mp hmem
      exact hw.bids.side_eq n hn

/-- Every order that the order reaches rests at its own limit. -/
def Order.MeetsOwnLimit (o : Order) (s : Store) : Prop :=
  ∀ r, ReachedBy o.toOrderTerms o.remainingQuantity.toNat s.sides r → r.terms.price = o.price

/-- An order meets only its own limit if the other side has no other. -/
theorem Order.MeetsOwnLimit.of_queue {s : Store} {o : Order}
    (h : ∀ r ∈ queueOf s.sides o.side.opposite, r.terms.price = o.price) : o.MeetsOwnLimit s :=
  fun r hr => h r (Reached.mem hr)

/-- **The trades of an order have one price each** if and only if every order that it reaches
rests at its own limit. -/
theorem Handled.onePrice_iff (h : Handled s o ts p s') (hi : Invariant s) :
    (∀ t ∈ ts, OnePrice s o t) ↔ o.MeetsOwnLimit s := by
  constructor
  · intro hone r hr
    obtain ⟨t, ht, hpairs, -⟩ := h.exists_pairs hi hr
    exact hpairs.same_iff.mp (hone t ht).same
  · intro hlimit t ht
    obtain ⟨r, hr, hpairs, -⟩ := h.pairs hi ht
    obtain ⟨hrests, hside, hcross⟩ := hr.opposite hi.toWellIndexed
    have hparty : Party s o r.terms := Or.inr ⟨r, hrests, rfl⟩
    obtain ⟨b, a, hba, hbetween, hbid, -⟩ := hpairs.legs hside hcross
    refine ⟨hpairs.same_iff.mpr (hlimit r hr), b, a, ?_, ?_, hbetween, ?_, ?_⟩
    · rcases hba with ⟨rfl, -⟩ | ⟨rfl, -⟩
      · exact Or.inl rfl
      · exact hparty
    · rcases hba with ⟨-, rfl⟩ | ⟨-, rfl⟩
      · exact hparty
      · exact Or.inl rfl
    · rw [hbid]
      exact hbetween.limits
    · rw [hbid]
      exact UInt32.le_refl _

end handled

/-! ## Runs -/

/-- The order's id is taken, so that it makes no trades, or it meets only its own limit. -/
def Call.MeetsOwnLimit : Call → Store → Prop
  | .addOrder o, s => o.orderId ∈ s.book.ordersMap ∨ o.MeetsOwnLimit s
  | .cancelOrder _, _ => True

/-- Every call of a run finds the book so. -/
def EachCall (P : Call → Store → Prop) : List Call → Store → Prop
  | [], _ => True
  | c :: cs, s => P c s ∧ EachCall P cs ((call c).run s).state

/-- The cash that buyers pay: price times quantity over the bid legs. -/
def cashPaid (ts : Trades) : ℕ :=
  (ts.map fun t => t.bidTrade.price.toNat * t.bidTrade.tradedQuantity.toNat).sum

/-- The cash that sellers get: price times quantity over the ask legs. -/
def cashReceived (ts : Trades) : ℕ :=
  (ts.map fun t => t.askTrade.price.toNat * t.askTrade.tradedQuantity.toNat).sum

section runs

variable {s : Store}

/-- **`AddOrder` of any order**: its trades have one price each exactly where its id is taken or
every order that it reaches rests at its own limit. -/
theorem call_addOrder_onePrice_iff (hi : Invariant s) (o : Order) :
    ∃ ts p s', (call (.addOrder o)).run s = .returned (.added ts p) s' ∧
      ((∀ t ∈ ts, OnePrice s o t) ↔ Call.MeetsOwnLimit (.addOrder o) s) := by
  by_cases hid : o.orderId ∈ s.book.ordersMap
  · obtain ⟨a, s', hrun, hstep⟩ := call_steps hi (.addOrder o)
    cases hstep with
    | refused _ _ =>
        exact ⟨[], none, _, hrun, fun _ => Or.inl hid, fun _ _ ht => absurd ht List.not_mem_nil⟩
    | turnedAway _ hfresh => exact absurd hid hfresh
    | accepted _ _ _ hfresh => exact absurd hid hfresh
  · obtain ⟨ts, p, s', hrun, -, hhandled⟩ :=
      call_addOrder hi o (hi.toWellIndexed.unused_iff.mpr hid)
    refine ⟨ts, some p, s', hrun, ?_⟩
    rw [hhandled.onePrice_iff hi]
    exact ⟨Or.inr, fun h => h.resolve_left hid⟩

/-- One price and one quantity for both legs of every trade of the run. -/
theorem tape_same_of_eachCall (hi : Invariant s) {cs : List Call}
    (h : EachCall Call.MeetsOwnLimit cs s) :
    ∃ as s', (calls cs).run s = .returned as s' ∧ ∀ t ∈ tape as,
      t.bidTrade.price = t.askTrade.price ∧
        t.bidTrade.tradedQuantity = t.askTrade.tradedQuantity := by
  induction cs generalizing s with
  | nil => exact ⟨[], s, rfl, fun _ ht => absurd ht List.not_mem_nil⟩
  | cons c cs ih =>
      obtain ⟨a, s₁, hrun, hstep⟩ := call_steps hi c
      have hrest := h.2
      rw [hrun] at hrest
      obtain ⟨as, s', hruns, htape⟩ := ih (hstep.invariant hi) hrest
      refine ⟨a :: as, s', ?_, ?_⟩
      · simp [calls, hrun, hruns]
      · intro t ht
        rcases List.mem_append.mp ht with ht | ht
        · cases c with
          | addOrder o =>
              obtain ⟨ts, p, s₂, hrun₂, hiff⟩ := call_addOrder_onePrice_iff hi o
              rw [hrun] at hrun₂
              cases hrun₂
              obtain ⟨-, b, a, -, -, hbetween, -⟩ := hiff.mpr h.1 t ht
              exact ⟨(hiff.mpr h.1 t ht).same, hbetween.quantity⟩
          | cancelOrder id =>
              cases hstep <;> cases ht
        · exact htape t ht

end runs

/-- **When every trade has one price.** In every book that a run of calls leaves, the trades of any
order have one price each, between the limits of the two orders, if and only if the order's id is
taken or every order that it reaches rests at its own limit. Over a run in which this holds of
every order the buyers pay what the sellers get. -/
theorem one_price_iff (cs : List Call) :
    ∃ as s, (calls cs).run Store.empty = .returned as s ∧
      (∀ o, ∃ ts p s', (call (.addOrder o)).run s = .returned (.added ts p) s' ∧
        ((∀ t ∈ ts, OnePrice s o t) ↔ Call.MeetsOwnLimit (.addOrder o) s)) ∧
      (EachCall Call.MeetsOwnLimit cs Store.empty →
        cashPaid (tape as) = cashReceived (tape as)) := by
  obtain ⟨as, s, hrun, hsteps⟩ := calls_steps invariant_empty cs
  refine ⟨as, s, hrun, call_addOrder_onePrice_iff (hsteps.invariant invariant_empty), ?_⟩
  intro heach
  obtain ⟨as', s', hrun', hsame⟩ := tape_same_of_eachCall invariant_empty heach
  rw [hrun] at hrun'
  cases hrun'
  unfold cashPaid cashReceived
  congr 1
  apply List.map_congr_left
  intro t ht
  rw [(hsame t ht).1, (hsame t ht).2]

/-- Two sell orders at one limit, and a buy order at the same limit that fills the first and part of
the second. -/
def atOneLimit : List Call :=
  [.addOrder (Order.new .GoodTillCancel 1 .Sell 100 5),
    .addOrder (Order.new .GoodTillCancel 2 .Sell 100 4),
    .addOrder (Order.new .GoodTillCancel 3 .Buy 100 7)]

/-- The buyer pays 700 for 7 units, and the two sellers get 700. -/
theorem one_price_iff_atOneLimit :
    ∃ as s, (calls atOneLimit).run Store.empty = .returned as s ∧
      cashPaid (tape as) = 700 ∧ cashReceived (tape as) = 700 := by
  have heach : EachCall Call.MeetsOwnLimit atOneLimit Store.empty :=
    ⟨Or.inr (.of_queue (by decide)), Or.inr (.of_queue (by decide)),
      Or.inr (.of_queue (by decide)), trivial⟩
  obtain ⟨as, s, hrun, -, hsame⟩ := one_price_iff atOneLimit
  have hpaid : cashPaid (tape as) = 700 := by
    cases hrun
    decide
  exact ⟨as, s, hrun, hpaid, (hsame heach).symm.trans hpaid⟩

/-- A sell order with the limit 100. -/
def restingBelow : List Call := [.addOrder (Order.new .GoodTillCancel 1 .Sell 100 5)]

/-- A buy order with the limit 101 meets it: the buyer is told 101 and the seller 100. -/
theorem one_price_fails :
    ¬ ∀ (cs : List Call) (as : List Answer) (s : Store), (calls cs).run Store.empty =
      .returned as s → ∀ o ts p s', (call (.addOrder o)).run s = .returned (.added ts p) s' →
        ∀ t ∈ ts, OnePrice s o t := by
  intro h
  have hsame := (h restingBelow _ _ rfl (Order.new .GoodTillCancel 2 .Buy 101 5) _ _ _ rfl
    (Trade.of (Order.new .GoodTillCancel 2 .Buy 101 5).toOrderTerms
      (Order.new .GoodTillCancel 1 .Sell 100 5).toOrderTerms 5) (by decide)).same
  revert hsame
  decide

end FlowManager.Book
