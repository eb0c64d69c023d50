import FlowManager.Book.Depth
import FlowManager.System.Mirror

/-!
# Market data

`get_market_data_snapshot` asks the server for the levels of the book. It leaves the broker and the
book as they are, and what it answers is the depth of the book as long as no level gets to
`2 ^ 32`. So market data tell what an order will do. An order that is submitted next is filled with
all that the levels which its limit reaches hold, up to its quantity, and the snapshot after it
shows what the order leaves of the levels (`market_data_predicts`).
-/

namespace FlowManager.System

open FlowManager.Lib FlowManager.Lib.PriceTime FlowManager.Book FlowManager.Broker
  FlowManager.Server

/-- A level of market data. -/
def levelOf (level : LevelReply) : Resting Price := ⟨UInt32.ofInt level.price, level.quantity.toNat⟩

/-- The depth that market data show. -/
def depthShown (data : List LevelReply × List LevelReply) : Depth :=
  ⟨data.1.map levelOf, data.2.map levelOf⟩

/-- What is open at a price is no more than what is open. -/
theorem openAt_le (rs : List (Resting OrderTerms)) (p : Price) :
    openAt rs p ≤ (rs.map Resting.qty).sum :=
  (List.filter_sublist.map _).sum_le_sum fun _ _ => Nat.zero_le _

/-- No level of the book gets to `2 ^ 32`. -/
def SmallLevels (server : ServerState) : Prop :=
  ∀ side p, openAt (queueOf server.store.sides side) p < 2 ^ 32

/-- Few orders cannot make a large level. -/
theorem smallLevels_of_sum {server : ServerState}
    (h : ∀ side, ((queueOf server.store.sides side).map Resting.qty).sum < 2 ^ 32) :
    SmallLevels server :=
  fun side p => (openAt_le _ p).trans_lt (h side)

section snapshot

variable {L : Libraries} {s : BrokerAndServer} {server : ServerState}

/-- The levels of the book, as market data. -/
def marketData (server : ServerState) : List LevelReply × List LevelReply :=
  ((levelInfos server.store.heap server.store.book.bids).map levelReply,
    (levelInfos server.store.heap server.store.book.asks).map levelReply)

/-- **Market data are the levels of the book**, and reading them changes nothing. -/
theorem run_getMarketDataSnapshot (h : s.orderBook = some server) (symbol : String) :
    (getMarketDataSnapshot (transport L .delivered) symbol).run s =
      .returned (some (marketData server)) s := by
  have hsend := transport_delivered (serve_getBookInfo L symbol server)
  rw [← h] at hsend
  unfold getMarketDataSnapshot Broker.send
  simp only [Proc.run_bind, Proc.run_get, Proc.run_modify, Proc.run_pure, Outcome.bind_returned,
    hsend]
  rfl

/-- A level is read back from its reply. -/
theorem levelOf_levelReply (level : LevelInfo) :
    levelOf (levelReply level) = ⟨level.price, level.quantity.toNat⟩ := by
  unfold levelOf levelReply
  dsimp only
  congr 1
  apply UInt32.toNat_inj.mp
  exact_mod_cast toNat_ofInt32 (Int.natCast_nonneg _) (by exact_mod_cast level.price.toNat_lt)

/-- Where no level wraps, the data shows the depth of the book. -/
theorem depthShown_marketData (hi : Invariant server.store) (hsmall : SmallLevels server) :
    depthShown (marketData server) = depthOf server.store.sides := by
  rw [← hi.depth_snapshot hsmall]
  unfold depthShown marketData
  simp only [List.map_map, Function.comp_def, levelOf_levelReply]
  rfl

/-- The best levels come first. -/
theorem inPriority_levels (hi : Invariant server.store) (o : OrderTerms) :
    InPriority (Depth.Reaches o) ((depthOf server.store.sides).levels o.side.opposite) := by
  rw [levels_depthOf]
  exact aggregate_pairwise (R := fun p p' => Depth.Reaches o p' → Depth.Reaches o p)
    (hi.inOrder.inPriority o)

end snapshot

/-! ## An order after a snapshot -/

section submitting

variable {L : Libraries} {subs : List Submission} {s s' : BrokerAndServer} {server : ServerState}
  {σ : Submission} {price : PyFloat} {n : ℤ}

/-- **A submission that returns adds its order to the depth**, and what the order has left there is
what it has left at the broker. -/
theorem Answered.depth {o : Order} {ts : Trades} {p : OrderPointer} {store' : Store}
    {server' : ServerState} (h : Answered subs s server σ price n o ts p store' server')
    (hnamed : σ.FillsNoUnnamed s) :
    let added := (depthOf server.store.sides).add o.toOrderTerms σ.quantity.toNat
    filledTotal ((replayed s σ price server' ts).confirmationsOf σ.clientOrderId) =
        σ.quantity - added.left ∧ depthOf server'.store.sides = added.depth := by
  obtain ⟨-, hleft, hdepth⟩ := h.handled.depth h.synced.consistent h.synced.allOpen
  have hquantity := order_quantity h.admissible (s.brokerOrderIdCounter + 1) n
  have hnat : o.remainingQuantity.toNat = σ.quantity.toNat := by
    rw [h.order]
    omega
  rw [hnat] at hleft hdepth
  constructor
  · have hnew := h.synced.inService.next_not_traded h.id_eq
    have htotal : filledTotal ((replayed s σ price server' ts).confirmationsOf σ.clientOrderId) =
        traded ts o.orderId := by
      rw [(h.synced_replayed hnamed).accounts.balanced, h.server, bookedIds_booking,
        tapeOf_booking, bookAlso_self, (h.synced.accounts.unknown _ h.admissible.fresh).2]
      simp only [List.nil_append, List.map_cons, List.map_nil, List.sum_singleton, traded_append,
        hnew, Nat.zero_add]
    have hremaining := h.taken.remaining
    have hpos := h.positive
    omega
  · rw [h.store]
    exact hdepth

/-- **Market data tell what an order will do.** In every run of admissible submissions and cancels on
which every reply arrives and no order under the empty client id is filled, a snapshot followed by
one more such order that returns: the order has been filled with what the levels of the snapshot
that its limit reaches have open, up to its quantity; and the next snapshot shows what the order
leaves of the levels. -/
theorem market_data_predicts {es : List Event} (h : Run L KeepsMirror es s)
    (hadm : σ.Admissible (submissions es) (s.brokerOrderIdCounter + 1))
    (hprice : σ.price = some price) (hnamed : σ.FillsNoUnnamed s) {result : Option ℤ}
    (hrun : (submitOrder (transport L .delivered) σ.clientOrderId σ.symbol σ.quantity σ.sideIsBuy
      σ.orderTypeStr σ.price).run s = .returned result s') (symbol symbol' : String) :
    ∃ server server' data data' n,
      s.orderBook = some server ∧ s'.orderBook = some server' ∧ pyInt price = .ok n ∧
      (getMarketDataSnapshot (transport L .delivered) symbol).run s = .returned (some data) s ∧
      (getMarketDataSnapshot (transport L .delivered) symbol').run s' =
        .returned (some data') s' ∧
      (SmallLevels server →
        let o := (σ.order (s.brokerOrderIdCounter + 1) n).toOrderTerms
        filledTotal (s'.confirmationsOf σ.clientOrderId) = min σ.quantity.toNat
            (hitQty (Depth.Reaches o) ((depthShown data).levels o.side.opposite)) ∧
          (SmallLevels server' →
            depthShown data' = ((depthShown data).add o σ.quantity.toNat).depth)) := by
  obtain ⟨server, hsynced, -⟩ := h.mirrored
  obtain ⟨n, o, ts, p, store', server', hanswered, rfl, -⟩ :=
    hsynced.exists_answered hadm hprice hrun
  have hsynced' := hanswered.synced_replayed hnamed
  obtain ⟨hfilled, hdepth⟩ := hanswered.depth hnamed
  refine ⟨server, server', marketData server, marketData server', n, hsynced.connected,
    hsynced'.connected, hanswered.truncated, run_getMarketDataSnapshot hsynced.connected symbol,
    run_getMarketDataSnapshot hsynced'.connected symbol', fun hsmall => ?_⟩
  rw [← hanswered.order]
  have hquantity := hadm.quantity
  dsimp only
  rw [depthShown_marketData hsynced.consistent hsmall]
  refine ⟨?_, fun hsmall' => ?_⟩
  · have hsum := sum_sweep_fills σ.quantity.toNat
      (inPriority_levels hsynced.consistent o.toOrderTerms)
    have hrest := sweep_left_add (Depth.Reaches o.toOrderTerms) σ.quantity.toNat
      ((depthOf server.store.sides).levels o.side.opposite)
    rw [hfilled, ← hsum]
    unfold Depth.add
    dsimp only
    omega
  · rw [depthShown_marketData hsynced'.consistent hsmall', hdepth]

end submitting

/-- A sale that follows the four calls. -/
def saleOfTen : Submission := ⟨"d", "AMD", 10, false, "GTC", some (.finite 100)⟩

/-- The state after the sale. -/
def afterSale : BrokerAndServer :=
  ((submitOrder (transport .nlohmann .delivered) saleOfTen.clientOrderId saleOfTen.symbol
    saleOfTen.quantity saleOfTen.sideIsBuy saleOfTen.orderTypeStr saleOfTen.price).run
      (afterAll .nlohmann fourCalls)).state

/-- The data before a sale, what it predicts of the sale, and the data after it. -/
theorem market_data_predicts_sale : ∃ data data',
    (getMarketDataSnapshot (transport .nlohmann .delivered) "AMD").run
        (afterAll .nlohmann fourCalls) = .returned (some data) (afterAll .nlohmann fourCalls) ∧
      depthShown data = ⟨[⟨101, 2⟩], []⟩ ∧
      filledTotal (afterSale.confirmationsOf "d") = 2 ∧
      (getMarketDataSnapshot (transport .nlohmann .delivered) "AMD").run afterSale =
        .returned (some data') afterSale ∧
      depthShown data' = ⟨[], [⟨100, 8⟩]⟩ := by
  have hadm : saleOfTen.Admissible (submissions fourCalls)
      ((afterAll .nlohmann fourCalls).brokerOrderIdCounter + 1) := by decide
  have hnamed : saleOfTen.FillsNoUnnamed (afterAll .nlohmann fourCalls) := by
    obtain ⟨server, hsynced, -⟩ := keepsMirror_fourCalls.mirrored
    exact Submission.fillsNoUnnamed_of_named (by decide)
      (hsynced.accounts.untracked_of_unknown (by decide))
  have hrun : (submitOrder (transport .nlohmann .delivered) saleOfTen.clientOrderId
      saleOfTen.symbol saleOfTen.quantity saleOfTen.sideIsBuy saleOfTen.orderTypeStr
      saleOfTen.price).run (afterAll .nlohmann fourCalls) = .returned (some 4) afterSale := rfl
  obtain ⟨server, server', data, data', n, hserver, hserver', hn, hdata, hdata', hpredicts⟩ :=
    market_data_predicts keepsMirror_fourCalls hadm rfl hnamed hrun "AMD" "AMD"
  obtain rfl := Option.some.inj hserver
  obtain rfl := Option.some.inj hserver'
  obtain rfl := Except.ok.inj hn
  cases hdata
  cases hdata'
  obtain ⟨hfilled, hnext⟩ := hpredicts (smallLevels_of_sum fun side => by cases side <;> decide)
  refine ⟨_, _, rfl, by decide, by exact_mod_cast hfilled.trans (by decide), rfl, ?_⟩
  refine (hnext (smallLevels_of_sum fun side => ?_)).trans (by decide)
  cases side <;> decide

end FlowManager.System
