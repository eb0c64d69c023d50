import FlowManager.Book.OnQueues
import FlowManager.Lib.Renaming

/-!
# What the book does not look at

Ids are names, of two prices only which is the lower one counts, and bids and asks are treated
alike. A `Relabelling` gives the orders other ids and other prices and may exchange the two sides,
which turns the order of prices round. Where it keeps apart what the calls of a run keep apart
(`Relabelling.Keeps`), the book answers the relabelled calls with the relabelled answers, call by
call, and shows the relabelled snapshot (`orderBook_relabelled`).
-/

namespace FlowManager.Book

open FlowManager.Lib FlowManager.Lib.PriceTime

/-- Other ids and prices, and perhaps the two sides exchanged. -/
structure Relabelling where
  id : OrderId → OrderId
  price : Price → Price
  mirrored : Bool

namespace Relabelling

variable (ρ : Relabelling)

/-- The side, mirrored or not. -/
def side (s : Side) : Side := if ρ.mirrored then s.opposite else s

/-- The terms under their new names. -/
def terms (o : OrderTerms) : OrderTerms :=
  { o with orderId := ρ.id o.orderId, side := ρ.side o.side, price := ρ.price o.price }

/-- The order under its new names. -/
def order (o : Order) : Order := { o with toOrderTerms := ρ.terms o.toOrderTerms }

/-- The call under its new names. -/
def call : Call → Call
  | .addOrder o => .addOrder (ρ.order o)
  | .cancelOrder orderId => .cancelOrder (ρ.id orderId)

/-- The leg under its new names. -/
def leg (l : TradeInfo) : TradeInfo := ⟨ρ.id l.orderId, ρ.price l.price, l.tradedQuantity⟩

/-- The pair of what a bid and an ask have, read on the sides on which they are now. -/
def pair {β γ : Type} (mk : β → β → γ) (bid ask : β) : γ :=
  if ρ.mirrored then mk ask bid else mk bid ask

/-- The trade under its new names: a mirrored one has its legs exchanged. -/
def trade (t : Trade) : Trade := ρ.pair Trade.mk (ρ.leg t.bidTrade) (ρ.leg t.askTrade)

/-- The trades are relabelled; the object that is handed back is the same. -/
def answer : Answer → Answer
  | .added ts submitted => .added (ts.map ρ.trade) submitted
  | .cancelled success => .cancelled success

/-- The queue under its new names. -/
def queue (rs : List (Resting OrderTerms)) : List (Resting OrderTerms) :=
  rs.map (Resting.map ρ.terms)

/-- The queues under their new names: mirrored ones are exchanged. -/
def queues (q : Sides OrderTerms) : Sides OrderTerms :=
  ρ.pair Sides.mk (ρ.queue q.bids) (ρ.queue q.asks)

/-- The levels under their new prices. -/
def levels (infos : List LevelInfo) : List LevelInfo :=
  infos.map fun l => ⟨ρ.price l.price, l.quantity⟩

/-- The snapshot under its new names: the sides of a mirrored one are exchanged. -/
def snapshot (infos : OrderBookLevelInfos) : OrderBookLevelInfos :=
  ρ.pair OrderBookLevelInfos.mk (ρ.levels infos.bids) (ρ.levels infos.asks)

end Relabelling

/-- The order that a call hands over. -/
def Call.order? : Call → Option Order
  | .addOrder o => some o
  | .cancelOrder _ => none

/-- The price that a call names. -/
def Call.price? (c : Call) : Option Price := c.order?.map fun o => o.price

/-- Different ids stay different, and the better of two prices stays better, on the side on which it
is now. -/
structure Relabelling.Keeps (ρ : Relabelling) (cs : List Call) : Prop where
  ids : ∀ c ∈ cs, ∀ c' ∈ cs, ρ.id c.orderId = ρ.id c'.orderId → c.orderId = c'.orderId
  prices : ∀ o ∈ cs.filterMap Call.order?, ∀ o' ∈ cs.filterMap Call.order?, o.price < o'.price →
    BetterPrice (ρ.side .Sell) (ρ.price o.price) (ρ.price o'.price)

/-- What is in the queues comes from calls. -/
def KnownTo (cs : List Call) (q : Sides OrderTerms) : Prop :=
  ∀ r ∈ restingOrders q, ∃ c ∈ cs, c.orderId = r.terms.orderId ∧ c.price? = some r.terms.price

section side

variable (ρ : Relabelling) {q : Sides OrderTerms} {side : Side}

/-- On the other side the order of prices is the other way round. -/
theorem betterPrice_opposite {p p' : Price} :
    BetterPrice side.opposite p p' ↔ BetterPrice side p' p := by
  cases side <;> exact Iff.rfl

/-- An order crosses another unless that has a price that is worse for it. -/
theorem priceCrosses_iff {o x : OrderTerms} :
    PriceCrosses o x ↔ ¬ BetterPrice o.side x.price o.price := by
  unfold PriceCrosses BetterPrice
  cases o.side <;> exact UInt32.not_lt.symm

namespace Relabelling

/-- The opposite side, relabelled. -/
theorem side_opposite (side : Side) : ρ.side side.opposite = (ρ.side side).opposite := by
  unfold Relabelling.side
  split_ifs <;> rfl

/-- Every side is the one on which some side is now. -/
theorem exists_side (side : Side) : ∃ side', ρ.side side' = side := by
  cases hm : ρ.mirrored with
  | true =>
      refine ⟨side.opposite, ?_⟩
      simp only [Relabelling.side, hm]
      cases side <;> rfl
  | false => exact ⟨side, by simp only [Relabelling.side, hm, Bool.false_eq_true, if_false]⟩

/-- A queue of the relabelled queues. -/
@[simp] theorem queueOf_queues (q : Sides OrderTerms) (side : Side) :
    queueOf (ρ.queues q) (ρ.side side) = ρ.queue (queueOf q side) := by
  unfold queues pair Relabelling.side
  cases side <;> split_ifs <;> rfl

/-- Queues are relabelled if each is. -/
theorem eq_queues {q q' : Sides OrderTerms}
    (h : ∀ side, queueOf q' (ρ.side side) = ρ.queue (queueOf q side)) : q' = ρ.queues q := by
  apply queues_ext
  intro side
  obtain ⟨side', rfl⟩ := ρ.exists_side side
  rw [h, queueOf_queues]

/-- What rests in the relabelled queues. -/
theorem mem_restingOrders_queues {r : Resting OrderTerms} :
    r ∈ restingOrders (ρ.queues q) ↔ ∃ r' ∈ restingOrders q, r'.map ρ.terms = r := by
  simp only [mem_restingOrders_iff_queueOf]
  constructor
  · rintro ⟨side, hr⟩
    obtain ⟨side', rfl⟩ := ρ.exists_side side
    rw [queueOf_queues] at hr
    obtain ⟨r', hr', rfl⟩ := List.mem_map.mp hr
    exact ⟨r', ⟨side', hr'⟩, rfl⟩
  · rintro ⟨r', ⟨side, hr'⟩, rfl⟩
    refine ⟨ρ.side side, ?_⟩
    rw [queueOf_queues]
    exact List.mem_map_of_mem hr'

end Relabelling

end side

/-! ## What is kept -/

namespace Relabelling.Keeps

variable {ρ : Relabelling} {cs : List Call} {q : Sides OrderTerms} {c c' : Call} {p p' : Price}
  {side : Side}

/-- A cheaper ask is still the better one. -/
theorem better_sell (h : ρ.Keeps cs) (hc : c ∈ cs) (hc' : c' ∈ cs) (hp : c.price? = some p)
    (hp' : c'.price? = some p') (hlt : p < p') :
    BetterPrice (ρ.side .Sell) (ρ.price p) (ρ.price p') := by
  obtain ⟨o, ho, rfl⟩ := Option.map_eq_some_iff.mp hp
  obtain ⟨o', ho', rfl⟩ := Option.map_eq_some_iff.mp hp'
  exact h.prices o (List.mem_filterMap.mpr ⟨c, hc, ho⟩) o' (List.mem_filterMap.mpr ⟨c', hc', ho'⟩)
    hlt

/-- The better price is still the better one. -/
theorem better_of (h : ρ.Keeps cs) (hc : c ∈ cs) (hc' : c' ∈ cs) (hp : c.price? = some p)
    (hp' : c'.price? = some p') (hbetter : BetterPrice side p p') :
    BetterPrice (ρ.side side) (ρ.price p) (ρ.price p') := by
  cases side with
  | Sell => exact h.better_sell hc hc' hp hp' hbetter
  | Buy =>
      have hmirror := h.better_sell hc' hc hp' hp hbetter
      have hopp : ρ.side .Buy = (ρ.side .Sell).opposite := ρ.side_opposite .Sell
      rw [hopp, betterPrice_opposite]
      exact hmirror

/-- **The better price is the better one after it.** -/
theorem better_iff (h : ρ.Keeps cs) (hc : c ∈ cs) (hc' : c' ∈ cs) (hp : c.price? = some p)
    (hp' : c'.price? = some p') :
    BetterPrice (ρ.side side) (ρ.price p) (ρ.price p') ↔ BetterPrice side p p' := by
  refine ⟨fun hlabel => ?_, h.better_of hc hc' hp hp'⟩
  by_contra hnot
  rcases BetterPrice.eq_or_of_not hnot with rfl | hworse
  · exact BetterPrice.irrefl hlabel
  · exact hlabel.asymm (h.better_of hc' hc hp' hp hworse)

/-- Prices that are different are still different. -/
theorem price_eq (h : ρ.Keeps cs) (hc : c ∈ cs) (hc' : c' ∈ cs) (hp : c.price? = some p)
    (hp' : c'.price? = some p') (heq : ρ.price p = ρ.price p') : p = p' := by
  have hirrefl : ∀ {x y}, x = y → ¬ BetterPrice (ρ.side .Sell) x y := by
    rintro x _ rfl
    exact BetterPrice.irrefl
  have hiff : BetterPrice (ρ.side .Sell) (ρ.price p) (ρ.price p') ↔ BetterPrice .Sell p p' :=
    h.better_iff hc hc' hp hp'
  have hnot := mt hiff.mpr (hirrefl heq)
  rcases BetterPrice.eq_or_of_not hnot with rfl | hlower
  · rfl
  · exact absurd (h.better_of hc' hc hp' hp hlower) (hirrefl heq.symm)

/-- Orders cross exactly as before. -/
theorem priceCrosses_iff (h : ρ.Keeps cs) {o : OrderTerms} {r : Resting OrderTerms} (hc : c ∈ cs)
    (hp : c.price? = some o.price) (hknown : KnownTo cs q) (hr : r ∈ restingOrders q) :
    PriceCrosses (ρ.terms o) (ρ.terms r.terms) ↔ PriceCrosses o r.terms := by
  obtain ⟨c', hc', -, hp'⟩ := hknown r hr
  rw [Book.priceCrosses_iff, Book.priceCrosses_iff]
  exact not_congr (h.better_iff hc' hc hp' hp)

/-- An id is in the queues if and only if its name is in the relabelled ones. -/
theorem unused_iff (h : ρ.Keeps cs) (hc : c ∈ cs) (hknown : KnownTo cs q) :
    Unused (ρ.queues q) (ρ.id c.orderId) ↔ Unused q c.orderId := by
  have hall : ∀ (q : Sides OrderTerms) (id : OrderId),
      Unused q id ↔ ∀ r ∈ restingOrders q, r.terms.orderId ≠ id := by
    intro q id
    simp only [mem_restingOrders_iff_queueOf]
    exact ⟨fun hunused r ⟨side, hr⟩ => hunused side r hr, fun hunused side r hr =>
      hunused r ⟨side, hr⟩⟩
  rw [hall, hall]
  constructor
  · intro hunused r hr heq
    refine hunused (r.map ρ.terms) (ρ.mem_restingOrders_queues.mpr ⟨r, hr, rfl⟩) ?_
    exact congrArg ρ.id heq
  · intro hunused r hr heq
    obtain ⟨r', hr', rfl⟩ := ρ.mem_restingOrders_queues.mp hr
    obtain ⟨c', hc', hid, -⟩ := hknown r' hr'
    refine hunused r' hr' ?_
    rw [← hid]
    refine h.ids c' hc' c hc ?_
    rw [hid]
    exact heq

end Relabelling.Keeps

/-! ## The calls -/

section calls

variable {ρ : Relabelling} {cs : List Call} {q : Sides OrderTerms} {c : Call} {o : OrderTerms}
  {n : ℕ}

/-- A fill, relabelled. -/
def Relabelling.fill (ρ : Relabelling) (f : Fill OrderTerms) : Fill OrderTerms :=
  ρ.pair (fun bid ask => ⟨bid, ask, f.qty⟩) (ρ.terms f.bid) (ρ.terms f.ask)

/-- The fill of relabelled orders is the relabelled fill. -/
theorem fillOf_relabelled (o : OrderTerms) (x : OrderTerms × ℕ) :
    fillOf (ρ.terms o) (ρ.terms x.1, x.2) = ρ.fill (fillOf o x) := by
  cases hmirrored : ρ.mirrored <;> cases hside : o.side <;>
    simp [fillOf, Relabelling.fill, Relabelling.pair, Relabelling.terms, Relabelling.side, hmirrored,
      hside, Side.opposite]

/-- The relabelled trade records the relabelled fill. -/
theorem records_relabelled {t : Trade} {f : Fill OrderTerms} (h : t.Records f) :
    (ρ.trade t).Records (ρ.fill f) := by
  obtain ⟨quantity, rfl, hq⟩ := h
  refine ⟨quantity, ?_, ?_⟩
  · unfold Relabelling.trade Relabelling.fill Relabelling.pair
    cases ρ.mirrored <;> rfl
  · rw [hq]
    unfold Relabelling.fill Relabelling.pair
    cases ρ.mirrored <;> rfl

/-- **Sweeping relabelled queues** gives the relabelled fills and leaves the relabelled queue. -/
theorem Relabelling.Keeps.sweep (h : ρ.Keeps cs) (hc : c ∈ cs) (hp : c.price? = some o.price)
    (hknown : KnownTo cs q) :
    PriceTime.sweep (PriceCrosses (ρ.terms o)) n
        (queueOf (ρ.queues q) (ρ.terms o).side.opposite) =
      ⟨(PriceTime.sweep (PriceCrosses o) n (queueOf q o.side.opposite)).fills.map
          fun x => (ρ.terms x.1, x.2),
        (PriceTime.sweep (PriceCrosses o) n (queueOf q o.side.opposite)).left,
        ρ.queue (PriceTime.sweep (PriceCrosses o) n (queueOf q o.side.opposite)).queue⟩ := by
  have hopposite : (ρ.terms o).side.opposite = ρ.side o.side.opposite :=
    (ρ.side_opposite o.side).symm
  rw [hopposite, ρ.queueOf_queues]
  refine sweep_rename fun r hr => h.priceCrosses_iff hc hp hknown ?_
  exact mem_restingOrders_iff_queueOf.mpr ⟨_, hr⟩

/-- **Placing an order, relabelled.** -/
theorem Relabelling.Keeps.acceptOrder (h : ρ.Keeps cs) (hc : c ∈ cs) (hid : c.orderId = o.orderId)
    (hp : c.price? = some o.price) (hknown : KnownTo cs q) (hunused : Unused q o.orderId) :
    (Book.acceptOrder (ρ.terms o) n (ρ.queues q)).fills =
        (Book.acceptOrder o n q).fills.map ρ.fill ∧
      (Book.acceptOrder (ρ.terms o) n (ρ.queues q)).sides =
        ρ.queues (Book.acceptOrder o n q).sides := by
  have hunused' : Unused (ρ.queues q) (ρ.terms o).orderId := by
    have hiff := h.unused_iff hc hknown
    rw [hid] at hiff
    exact hiff.mpr hunused
  obtain ⟨hfills, -, hopp, hown⟩ := placeOrder_queues o n q
  obtain ⟨hfills', -, hopp', hown'⟩ := placeOrder_queues (ρ.terms o) n (ρ.queues q)
  rw [h.sweep hc hp hknown] at hfills' hopp' hown'
  refine ⟨?_, ρ.eq_queues fun side => ?_⟩
  · rw [acceptOrder_fills, acceptOrder_fills, hfills, hfills', List.map_map, List.map_map]
    exact List.map_congr_left fun x _ => fillOf_relabelled o x
  · rcases side_eq_or side o.side with rfl | rfl
    · have haccept := acceptOrder_own (q := n) hunused'
      rw [hown'] at haccept
      refine haccept.trans ?_
      rw [acceptOrder_own hunused, hown]
      show (if o.orderType = .GoodTillCancel then _ else _) = _
      split_ifs
      · show file _ _ _ (queueOf (ρ.queues q) (ρ.side o.side)) = _
        rw [ρ.queueOf_queues]
        refine file_rename fun r hr => ?_
        obtain ⟨c', hc', -, hp'⟩ := hknown r (mem_restingOrders_iff_queueOf.mpr ⟨_, hr⟩)
        exact h.better_iff hc hc' hp hp'
      · exact ρ.queueOf_queues q o.side
    · have haccept := acceptOrder_opposite (q := n) hunused'
      have hopposite : (ρ.terms o).side.opposite = ρ.side o.side.opposite :=
        (ρ.side_opposite o.side).symm
      rw [hopp', hopposite] at haccept
      rw [haccept, acceptOrder_opposite hunused, hopp]

/-- Withdrawing a relabelled id. -/
theorem Relabelling.Keeps.withdraw (h : ρ.Keeps cs) (hc : c ∈ cs) (hknown : KnownTo cs q) :
    Book.withdraw (ρ.id c.orderId) (ρ.queues q) = ρ.queues (Book.withdraw c.orderId q) := by
  refine ρ.eq_queues fun side => ?_
  rw [queueOf_withdraw, queueOf_withdraw, ρ.queueOf_queues]
  unfold Relabelling.queue
  rw [List.filter_map]
  refine congrArg _ (List.filter_congr fun r hr => decide_eq_decide.mpr (not_congr ?_))
  obtain ⟨c', hc', hid, -⟩ := hknown r (mem_restingOrders_iff_queueOf.mpr ⟨_, hr⟩)
  rw [← hid]
  constructor
  · intro heq
    refine h.ids c' hc' c hc ?_
    rw [hid]
    exact heq
  · intro heq
    show ρ.id r.terms.orderId = ρ.id c.orderId
    rw [← hid, heq]

end calls

/-! ## Runs -/

section runs

variable {ρ : Relabelling} {all cs : List Call} {q q' : QueueState} {c : Call} {a : Answer}
  {as : List Answer}

/-- The state over queues under its new names. -/
def Relabelling.state (ρ : Relabelling) (q : QueueState) : QueueState :=
  ⟨ρ.queues q.queues, q.nextOrder⟩

/-- A step brings in only what the calls name. -/
theorem KnownTo.step (hknown : KnownTo all q.queues) (h : OnQueues q c a q') (hc : c ∈ all) :
    KnownTo all q'.queues := by
  intro r hr
  rcases h.mem_imp hr with ⟨o, rfl, hterms⟩ | ⟨r', hr', hterms⟩
  · exact ⟨_, hc, by rw [hterms]; rfl, by rw [hterms]; rfl⟩
  · rw [← hterms]
    exact hknown r' hr'

/-- **One call, relabelled.** -/
theorem OnQueues.relabelled (h : OnQueues q c a q') (hρ : ρ.Keeps all)
    (hknown : KnownTo all q.queues) (hc : c ∈ all) :
    OnQueues (ρ.state q) (ρ.call c) (ρ.answer a) (ρ.state q') := by
  have hunused := hρ.unused_iff hc hknown
  cases h with
  | refused o hused => exact .refused (ρ.order o) (mt hunused.mp hused)
  | taken o ts hnew hrec =>
      obtain ⟨hfills, hsides⟩ :=
        hρ.acceptOrder (n := o.remainingQuantity.toNat) hc rfl rfl hknown hnew
      have hrec' : List.Forall₂ Trade.Records (ts.map ρ.trade)
          (acceptOrder (ρ.terms o.toOrderTerms) o.remainingQuantity.toNat
            (ρ.queues q.queues)).fills := by
        rw [hfills, List.forall₂_map_left_iff, List.forall₂_map_right_iff]
        exact hrec.imp fun _ _ => records_relabelled
      have hstate : ρ.state ⟨(acceptOrder o.toOrderTerms o.remainingQuantity.toNat q.queues).sides,
          q.nextOrder + 1⟩ = ⟨(acceptOrder (ρ.terms o.toOrderTerms) o.remainingQuantity.toNat
            (ρ.queues q.queues)).sides, q.nextOrder + 1⟩ :=
        congrArg₂ QueueState.mk hsides.symm rfl
      rw [hstate]
      exact .taken (ρ.order o) _ (hunused.mpr hnew) hrec'
  | notFound id hnew => exact .notFound (ρ.id id) (hunused.mpr hnew)
  | withdrawn id hused =>
      have hstate : ρ.state ⟨withdraw id q.queues, q.nextOrder⟩ =
          ⟨withdraw (ρ.id id) (ρ.queues q.queues), q.nextOrder⟩ :=
        congrArg₂ QueueState.mk (hρ.withdraw hc hknown).symm rfl
      rw [hstate]
      exact .withdrawn (ρ.id id) (mt hunused.mp hused)

/-- **A run over relabelled queues** is the relabelled run. -/
theorem QueueRun.relabelled (h : QueueRun q cs as q') (hρ : ρ.Keeps all)
    (hknown : KnownTo all q.queues) (hcs : ∀ c ∈ cs, c ∈ all) :
    QueueRun (ρ.state q) (cs.map ρ.call) (as.map ρ.answer) (ρ.state q') ∧
      KnownTo all q'.queues := by
  induction h with
  | nil q => exact ⟨.nil _, hknown⟩
  | cons hstep _ ih =>
      obtain ⟨hc, hcs⟩ := List.forall_mem_cons.mp hcs
      obtain ⟨hrest, hknown'⟩ := ih (hknown.step hstep hc) hcs
      exact ⟨.cons (hstep.relabelled hρ hknown hc) hrest, hknown'⟩

/-- **The snapshot, relabelled.** -/
theorem Relabelling.Keeps.snapshotOf (hρ : ρ.Keeps all) {q : Sides OrderTerms}
    (hknown : KnownTo all q) : Book.snapshotOf (ρ.queues q) = ρ.snapshot (Book.snapshotOf q) := by
  have hlevels : ∀ side, levelsShown (ρ.queue (queueOf q side)) =
      ρ.levels (levelsShown (queueOf q side)) := by
    intro side
    have hprice : ∀ r ∈ queueOf q side, ∃ c ∈ all, c.price? = some r.terms.price := by
      intro r hr
      obtain ⟨c, hc, -, hp⟩ := hknown r (mem_restingOrders_iff_queueOf.mpr ⟨_, hr⟩)
      exact ⟨c, hc, hp⟩
    have hgroups : aggregate OrderTerms.price (ρ.queue (queueOf q side)) =
        (aggregate OrderTerms.price (queueOf q side)).map (Resting.map ρ.price) := by
      refine aggregate_rename (fun _ _ => rfl) ?_
      intro r hr r' hr' heq
      obtain ⟨c, hc, hp⟩ := hprice r hr
      obtain ⟨c', hc', hp'⟩ := hprice r' hr'
      exact hρ.price_eq hc hc' hp hp' heq
    unfold levelsShown Relabelling.levels
    rw [hgroups, List.map_map, List.map_map]
    rfl
  unfold Book.snapshotOf Relabelling.queues Relabelling.snapshot Relabelling.pair
  split_ifs
  · exact congrArg₂ OrderBookLevelInfos.mk (hlevels .Sell) (hlevels .Buy)
  · exact congrArg₂ OrderBookLevelInfos.mk (hlevels .Buy) (hlevels .Sell)

/-- **What the book does not look at.** Give the calls of any run other ids, which keep different
orders apart, and other prices, which keep the order of any two, or turn it round and exchange the
sides: the answers are those of the run with the same change, trade by trade, and so are the queues
and the snapshot after it. -/
theorem orderBook_relabelled (ρ : Relabelling) (cs : List Call) (hρ : ρ.Keeps cs) :
    ∃ as s s' infos, (calls cs).run Store.empty = .returned as s ∧
      (calls (cs.map ρ.call)).run Store.empty = .returned (as.map ρ.answer) s' ∧
      s'.sides = ρ.queues s.sides ∧ getOrderInfos.run s = .returned infos s ∧
      getOrderInfos.run s' = .returned (ρ.snapshot infos) s' := by
  obtain ⟨as, s, hrun, hi, hqueue⟩ := calls_queueRun invariant_empty cs
  obtain ⟨as', s', hrun', hi', hqueue'⟩ := calls_queueRun invariant_empty (cs.map ρ.call)
  have hempty : KnownTo cs Store.empty.queueState.queues := fun _ hr => by cases hr
  obtain ⟨hlabel, hknown⟩ := hqueue.relabelled hρ hempty fun _ hc => hc
  have hstart : ρ.state Store.empty.queueState = Store.empty.queueState := by
    unfold Relabelling.state Relabelling.queues Relabelling.pair
    split_ifs <;> rfl
  rw [hstart] at hlabel
  obtain ⟨rfl, hstate⟩ := hqueue'.unique hlabel
  have hsides : s'.sides = ρ.queues s.sides := congrArg QueueState.queues hstate
  have hsnapshot : snapshotOf (ρ.queues s.sides) = ρ.snapshot (snapshotOf s.sides) :=
    hρ.snapshotOf hknown
  refine ⟨as, s, s', _, hrun, hrun', hsides, hi.getOrderInfos, ?_⟩
  rw [hi'.getOrderInfos, hsides, hsnapshot]

/-- Two bids hit by an ask, and the same with the sides exchanged. -/
theorem orderBook_relabelled_mirrored :
    let ρ : Relabelling := ⟨fun id => id + 10, fun p => 1000 - p, true⟩
    let cs : List Call := [.addOrder (Order.new .GoodTillCancel 1 .Buy 100 5),
      .addOrder (Order.new .GoodTillCancel 2 .Buy 101 7),
      .addOrder (Order.new .FillAndKill 3 .Sell 100 20), .cancelOrder 1]
    let cs' : List Call := [.addOrder (Order.new .GoodTillCancel 11 .Sell 900 5),
      .addOrder (Order.new .GoodTillCancel 12 .Sell 899 7),
      .addOrder (Order.new .FillAndKill 13 .Buy 900 20), .cancelOrder 11]
    ∃ as s s', (calls cs).run Store.empty = .returned as s ∧
      (calls cs').run Store.empty = .returned (as.map ρ.answer) s' ∧
      s'.sides = ρ.queues s.sides := by
  intro ρ cs cs'
  have hcs' : cs.map ρ.call = cs' := by decide
  obtain ⟨as, s, s', -, hrun, hrun', hsides, -, -⟩ :=
    orderBook_relabelled ρ cs ⟨by decide, by decide⟩
  rw [hcs'] at hrun'
  exact ⟨as, s, s', hrun, hrun', hsides⟩

end runs

end FlowManager.Book
