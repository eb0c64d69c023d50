import FlowManager.Book.TradePrices
import FlowManager.Broker.FillReports
import FlowManager.System.Stepping

/-!
# What holds after any calls

`Synced` is about runs: its calls return, client ids are fresh, and a lost order leaves no trace.
`OnFile` is about any list of calls. Client ids can be used again and be empty, a price can be
negative or no number, replies are lost at will, and a call can raise an exception or never return,
and with it every later one that needs the lock. What is left is that broker ids are given out once:
what the broker tracks and what it has reported on has an id up to the counter, and what rests or
has traded in the book has been booked under one.

`CallEffect` is what one call can do to such a state, and `Sending` is a submission up to the trades
of the book: a leg of its reply carries the id and the price of the order that came in or of one
that it reaches (`Sending.exists_party`).
-/

namespace FlowManager.System

open FlowManager.Lib FlowManager.Lib.PriceTime FlowManager.Book FlowManager.Broker
  FlowManager.Server

/-! ## The invariant -/

/-- Broker and server after any calls. -/
structure OnFile (s : BrokerAndServer) (server : ServerState) : Prop
    extends Connected s server where
  keyed : s.Keyed
  tracked : ∀ b clientOrderId, s.brokerToClientIdMap.lookup b = some clientOrderId →
    0 < b ∧ b ≤ s.brokerOrderIdCounter
  resting : ∀ r ∈ restingOrders server.store.sides, ∃ k ∈ server.bookings, k.terms = r.terms
  reported : ∀ c ∈ s.confirmations, c.orderId ≤ s.brokerOrderIdCounter
  between : ∀ t ∈ tapeOf server, ∃ bid ∈ server.bookings, ∃ ask ∈ server.bookings,
    t.Between bid.terms ask.terms

/-- Nothing has happened yet. -/
theorem onFile_init : OnFile (.init (some .init)) .init where
  toConnected := synced_init.inService.toConnected
  keyed := (indexed_init _).toKeyed
  tracked := by
    intro b clientOrderId hb
    simp [CppOrderBookBroker.init] at hb
  resting := by
    intro r hr
    exact absurd hr List.not_mem_nil
  reported := by
    intro c hc
    exact absurd hc List.not_mem_nil
  between := by
    intro t ht
    exact absurd ht List.not_mem_nil

namespace OnFile

variable {s s' : BrokerAndServer} {server : ServerState}

/-- The next broker id is not in use. -/
theorem next_untracked (h : OnFile s server) :
    s.brokerToClientIdMap.lookup (s.brokerOrderIdCounter + 1) = none := by
  rw [Option.eq_none_iff_forall_ne_some]
  intro clientOrderId hb
  have := (h.tracked _ _ hb).2
  omega

/-- A broker id in use is one that the server can read. -/
theorem exists_id (h : OnFile s server) (hcounter : s.brokerOrderIdCounter < 2 ^ 64) {b : ℤ}
    {clientOrderId : String} (hb : s.brokerToClientIdMap.lookup b = some clientOrderId) :
    ∃ id : OrderId, (id.toNat : ℤ) = b := by
  obtain ⟨hpos, hle⟩ := h.tracked b clientOrderId hb
  exact ⟨UInt64.ofInt b, toNat_ofInt64 hpos.le (by omega)⟩

/-- A change of the broker alone that keeps its maps in agreement. -/
theorem changed (h : OnFile s server) (hbook : s'.orderBook = s.orderBook)
    (hcounter : s'.brokerOrderIdCounter = s.brokerOrderIdCounter) (hkeyed : s'.Keyed)
    (hclients : ∀ b clientOrderId, s'.brokerToClientIdMap.lookup b = some clientOrderId →
      s.brokerToClientIdMap.lookup b = some clientOrderId)
    (hreported : ∀ c ∈ s'.confirmations, c ∈ s.confirmations ∨
      c.orderId ≤ s.brokerOrderIdCounter) : OnFile s' server where
  connected := hbook.trans h.connected
  counter := by
    rw [hcounter]
    exact h.counter
  consistent := h.consistent
  issued := by
    rw [hcounter]
    exact h.issued
  booked := h.booked
  keyed := hkeyed
  tracked := by
    intro b clientOrderId hb
    rw [hcounter]
    exact h.tracked b clientOrderId (hclients b clientOrderId hb)
  resting := h.resting
  reported := by
    intro c hc
    rw [hcounter]
    exact (hreported c hc).elim (h.reported c) id
  between := h.between

/-- A rejection carries no broker id. -/
theorem confirm_rejection (h : OnFile s server) (clientOrderId symbol : String) (sideIsBuy : Bool) :
    OnFile (s.confirm (rejection clientOrderId symbol sideIsBuy)) server := by
  refine h.changed rfl rfl (h.keyed.confirm _) (fun _ _ hb => hb) fun c hc => ?_
  refine (List.mem_append.mp hc).imp_right fun hnew => ?_
  rw [List.mem_singleton.mp hnew]
  have := h.counter
  show (-1 : ℤ) ≤ _
  omega

end OnFile

/-! ## One submission -/

/-- A submission that is sent, and what the book has made of its order. -/
structure Sending (s : BrokerAndServer) (server : ServerState) (σ : Submission) (price : PyFloat)
    (n : ℤ) (o : Order) (ts : Trades) (p : OrderPointer) (store' : Store) (server' : ServerState) :
    Prop where
  onFile : OnFile s server
  free : s.lockHeld = false
  carried : σ.Carried (s.brokerOrderIdCounter + 1)
  priced : σ.price = some price
  truncated : pyInt price = .ok n
  order : o = σ.order (s.brokerOrderIdCounter + 1) n
  call : CallStep server.store (.addOrder o) (.added ts (some p)) store'
  server : server' = booking server store' σ.clientOrderId o ts

namespace Sending

variable {s s' : BrokerAndServer} {server server' : ServerState} {σ : Submission} {price : PyFloat}
  {n : ℤ} {o : Order} {ts : Trades} {p : OrderPointer} {store' : Store} {clientOrderId : String}
  {fill : FillInfo} {r : Resting OrderTerms} {k : Booking} {t : Trade} {id : OrderId}

/-- The booking of the order. -/
def newBooking (σ : Submission) (o : Order) (ts : Trades) : Booking :=
  ⟨σ.clientOrderId, o.toOrderTerms, ts⟩

/-- While an order is sent, broker and server are in service. -/
theorem inService (h : Sending s server σ price n o ts p store' server') : InService s server :=
  ⟨h.onFile.toConnected, h.free⟩

/-- The book behind the reply. -/
theorem store (h : Sending s server σ price n o ts p store' server') : server'.store = store' := by
  rw [h.server]
  rfl

/-- The book has handled the order. -/
theorem handled (h : Sending s server σ price n o ts p store' server') :
    Handled server.store o ts p store' :=
  h.call.handled h.onFile.consistent

/-- The bookings of before, and the new one. -/
theorem mem_bookings (h : Sending s server σ price n o ts p store' server') :
    k ∈ server'.bookings ↔ k ∈ server.bookings ∨ k = newBooking σ o ts := by
  rw [h.server]
  exact List.mem_append.trans (or_congr_right List.mem_singleton)

/-- The order is booked. -/
theorem new_mem (h : Sending s server σ price n o ts p store' server') :
    newBooking σ o ts ∈ server'.bookings :=
  h.mem_bookings.mpr (Or.inr rfl)

/-- What has been booked stays booked. -/
theorem mem_of_mem (h : Sending s server σ price n o ts p store' server')
    (hk : k ∈ server.bookings) : k ∈ server'.bookings :=
  h.mem_bookings.mpr (Or.inl hk)

/-- The trades of before, and those of the call. -/
theorem mem_tape (h : Sending s server σ price n o ts p store' server') :
    t ∈ tapeOf server' ↔ t ∈ tapeOf server ∨ t ∈ ts := by
  rw [h.server, tapeOf_booking, List.mem_append]

/-- The order is sent under the next broker id. -/
theorem id_eq (h : Sending s server σ price n o ts p store' server') :
    (o.orderId.toNat : ℤ) = s.brokerOrderIdCounter + 1 := by
  rw [h.order]
  exact order_id h.onFile.toConnected h.carried n

/-- The order is the one that the broker sends, and no other is sent. -/
theorem sends_iff (h : Sending s server σ price n o ts p store' server') {server₁ : ServerState}
    {o₁ : Order} : σ.Sends s server₁ o₁ ↔ server₁ = server ∧ o₁ = o := by
  rw [h.order]
  exact h.inService.sends_iff h.priced h.truncated

/-- Who is reached has been booked. -/
theorem booking_of_reached (h : Sending s server σ price n o ts p store' server')
    (hr : ReachesNow server o r) : ∃ k ∈ server.bookings, k.terms = r.terms :=
  h.onFile.resting r (ReachedBy.opposite hr h.onFile.consistent.toWellIndexed).1

/-- And under an earlier id. -/
theorem reached_le (h : Sending s server σ price n o ts p store' server')
    (hr : ReachesNow server o r) :
    (r.terms.orderId.toNat : ℤ) ≤ s.brokerOrderIdCounter := by
  obtain ⟨k, hk, hterms⟩ := h.booking_of_reached hr
  rw [← hterms]
  exact h.onFile.issued.le k hk

/-- What rests afterwards is the order that came in, or rested before. -/
theorem of_resting (h : Sending s server σ price n o ts p store' server')
    (hr : r ∈ restingOrders server'.store.sides) :
    r.terms = o.toOrderTerms ∨ ∃ r' ∈ restingOrders server.store.sides, r'.terms = r.terms := by
  rw [h.store, h.handled.sides] at hr
  exact mem_acceptOrder_imp hr

/-- A trade of the call with an order that it reaches is between the two. -/
theorem between (h : Sending s server σ price n o ts p store' server') (hr : ReachesNow server o r)
    (ht : t.Pairs o.toOrderTerms r.terms) :
    t.Between o.toOrderTerms r.terms ∨ t.Between r.terms o.toOrderTerms := by
  obtain ⟨-, hside, hcross⟩ := ReachedBy.opposite hr h.onFile.consistent.toWellIndexed
  obtain ⟨b, a, hba, hbetween, -⟩ := ht.legs hside hcross
  rcases hba with ⟨rfl, rfl⟩ | ⟨rfl, rfl⟩
  · exact Or.inl hbetween
  · exact Or.inr hbetween

/-- A trade of the call is between two booked orders. -/
theorem exists_between (h : Sending s server σ price n o ts p store' server') (ht : t ∈ ts) :
    ∃ bid ∈ server'.bookings, ∃ ask ∈ server'.bookings, t.Between bid.terms ask.terms := by
  obtain ⟨r, hr, hpairs, -⟩ := h.handled.pairs h.onFile.consistent ht
  obtain ⟨k, hk, hterms⟩ := h.booking_of_reached hr
  rcases h.between hr hpairs with hbetween | hbetween <;> rw [← hterms] at hbetween
  · exact ⟨_, h.new_mem, k, h.mem_of_mem hk, hbetween⟩
  · exact ⟨k, h.mem_of_mem hk, _, h.new_mem, hbetween⟩

/-- A trade names the order that came in, or one that has been booked. -/
theorem named (h : Sending s server σ price n o ts p store' server') (ht : t ∈ ts)
    (hname : t.Names id) : id = o.orderId ∨ ∃ k ∈ server.bookings, k.terms.orderId = id := by
  obtain ⟨bid, hbid, ask, hask, hbetween⟩ := h.exists_between ht
  have hparty : ∀ k ∈ server'.bookings, k.terms.orderId = id →
      id = o.orderId ∨ ∃ k ∈ server.bookings, k.terms.orderId = id := by
    rintro k hk rfl
    rcases h.mem_bookings.mp hk with hk | rfl
    · exact Or.inr ⟨k, hk, rfl⟩
    · exact Or.inl rfl
  obtain ⟨l, hl, rfl⟩ := hname
  rcases List.mem_pair.mp hl with rfl | rfl
  · exact hparty bid hbid hbetween.bid_id.symm
  · exact hparty ask hask hbetween.ask_id.symm

/-- **A leg of the reply carries the id and the price of an order**: the one that came in, or one
that it reaches. It moves something only where both have something open. -/
theorem exists_party (h : Sending s server σ price n o ts p store' server') (hfill : fill ∈ fillInfos ts) :
    ∃ r, ReachesNow server o r ∧ (0 < fill.tradedQuantity → ¬MovesNothing o r) ∧
      ∃ x : OrderTerms, (x = o.toOrderTerms ∨ x = r.terms) ∧
        fill.orderIdFilled = x.orderId.toNat ∧ fill.price = x.price.toNat := by
  obtain ⟨t, ht, hfill⟩ := List.mem_flatMap.mp hfill
  obtain ⟨r, hr, hpairs, hmoves⟩ := h.handled.pairs h.onFile.consistent ht
  refine ⟨r, hr, fun hpos hnothing => ?_, ?_⟩
  · have hleg : ∀ l ∈ t.legs, ¬0 < ((l.tradedQuantity.toNat : ℕ) : ℤ) := by
      intro l hl
      have hzero := (hmoves l hl).mpr hnothing
      omega
    rcases List.mem_pair.mp hfill with rfl | rfl
    · exact hleg t.bidTrade List.mem_cons_self hpos
    · exact hleg t.askTrade (List.mem_cons_of_mem _ (List.mem_singleton_self _)) hpos
  · obtain ⟨q, rfl⟩ := hpairs
    cases hside : o.side with
    | Buy =>
        rw [hside] at hfill
        rcases List.mem_pair.mp hfill with rfl | rfl
        · exact ⟨_, Or.inl rfl, rfl, rfl⟩
        · exact ⟨_, Or.inr rfl, rfl, rfl⟩
    | Sell =>
        rw [hside] at hfill
        rcases List.mem_pair.mp hfill with rfl | rfl
        · exact ⟨_, Or.inr rfl, rfl, rfl⟩
        · exact ⟨_, Or.inl rfl, rfl, rfl⟩

/-- **A trade that moves something has a leg** for each of its two orders. -/
theorem exists_fill (h : Sending s server σ price n o ts p store' server')
    (hr : ReachesNow server o r) (hmoves : ¬MovesNothing o r) {x : OrderTerms}
    (hx : x = o.toOrderTerms ∨ x = r.terms) :
    ∃ fill ∈ fillInfos ts, fill.orderIdFilled = x.orderId.toNat ∧ 0 < fill.tradedQuantity := by
  obtain ⟨t, ht, hpairs, hzero⟩ := h.handled.exists_pairs h.onFile.consistent hr
  have hpos : ∀ l ∈ t.legs, 0 < l.tradedQuantity.toNat := fun l hl =>
    Nat.pos_of_ne_zero fun heq => hmoves ((hzero l hl).mp heq)
  have hbid := hpos t.bidTrade List.mem_cons_self
  have hask := hpos t.askTrade (List.mem_cons_of_mem _ (List.mem_singleton_self _))
  have hlegs : ∀ id, t.bidTrade.orderId = id ∨ t.askTrade.orderId = id →
      ∃ fill ∈ fillInfos ts, fill.orderIdFilled = id.toNat ∧ 0 < fill.tradedQuantity := by
    intro id hid
    rcases hid with rfl | rfl
    · exact ⟨fillInfo .Buy t.bidTrade, List.mem_flatMap.mpr ⟨t, ht, List.mem_cons_self⟩, rfl,
        Int.natCast_pos.mpr hbid⟩
    · exact ⟨fillInfo .Sell t.askTrade, List.mem_flatMap.mpr
        ⟨t, ht, List.mem_cons_of_mem _ (List.mem_singleton_self _)⟩, rfl, Int.natCast_pos.mpr hask⟩
  apply hlegs
  rcases hx with rfl | rfl <;> rcases h.between hr hpairs with hbetween | hbetween
  · exact Or.inl hbetween.bid_id
  · exact Or.inr hbetween.ask_id
  · exact Or.inr hbetween.ask_id
  · exact Or.inl hbetween.bid_id

/-- **The invariant after the call**, whatever the broker makes of the reply. -/
theorem onFile_after (h : Sending s server σ price n o ts p store' server')
    (hbook : s'.orderBook = some server')
    (hcounter : s'.brokerOrderIdCounter = s.brokerOrderIdCounter + 1) (hkeyed : s'.Keyed)
    (hclients : ∀ b clientOrderId, s'.brokerToClientIdMap.lookup b = some clientOrderId →
      b ≠ s.brokerOrderIdCounter + 1 → s.brokerToClientIdMap.lookup b = some clientOrderId)
    (hreported : ∀ c ∈ s'.confirmations, c ∈ s.confirmations ∨
      c.orderId ≤ s.brokerOrderIdCounter + 1) : OnFile s' server' := by
  have hnonneg := h.onFile.counter
  have hconsistent := h.call.invariant h.onFile.consistent
  have hresting : ∀ r ∈ restingOrders server'.store.sides,
      ∃ k ∈ server'.bookings, k.terms = r.terms := by
    intro r hr
    rcases h.of_resting hr with hterms | ⟨r', hr', hterms⟩
    · exact ⟨_, h.new_mem, hterms.symm⟩
    · obtain ⟨k, hk, hkterms⟩ := h.onFile.resting r' hr'
      exact ⟨k, h.mem_of_mem hk, hkterms.trans hterms⟩
  refine ⟨⟨hbook, by omega, ?_, ?_, ?_⟩, hkeyed, ?_, hresting, ?_, ?_⟩
  · rw [h.store]
    exact hconsistent
  · rw [hcounter, h.server]
    exact h.onFile.issued.append h.id_eq fun t ht id hname => h.named ht hname
  · intro id hrests
    rw [Ne, resting?_eq_none_iff, not_not, h.store] at hrests
    obtain ⟨r, hr, rfl⟩ := hconsistent.toWellIndexed.exists_restingOrder hrests
    rw [← h.store] at hr
    obtain ⟨k, hk, hterms⟩ := hresting r hr
    exact ⟨k, hk, congrArg OrderTerms.orderId hterms⟩
  · intro b clientOrderId hb
    rw [hcounter]
    by_cases hnew : b = s.brokerOrderIdCounter + 1
    · omega
    · have := h.onFile.tracked b clientOrderId (hclients b clientOrderId hb hnew)
      omega
  · intro c hc
    rw [hcounter]
    rcases hreported c hc with hold | hnew
    · have := h.onFile.reported c hold
      omega
    · exact hnew
  · intro t ht
    rcases h.mem_tape.mp ht with ht | ht
    · obtain ⟨bid, hbid, ask, hask, hbetween⟩ := h.onFile.between t ht
      exact ⟨bid, h.mem_of_mem hbid, ask, h.mem_of_mem hask, hbetween⟩
    · exact h.exists_between ht

/-- The maps agree when the loop starts. -/
theorem acknowledged_keyed (h : Sending s server σ price n o ts p store' server') :
    (acknowledgedFor s σ price server').Keyed :=
  acknowledgedFor_keyed h.onFile.keyed h.onFile.next_untracked

end Sending

/-! ## What one call can do -/

section calls

variable {s s' : BrokerAndServer} {server server' : ServerState} {σ : Submission}
  {price : PyFloat} {n : ℤ} {o : Order} {ts : Trades} {p : OrderPointer} {store' : Store}
  {clientOrderId : String} {b : ℤ} {order : OrderDetails} {e : Event} {L : Libraries}

/-- An order under the next broker id that is not in the book. -/
def registeredFor (s : BrokerAndServer) (σ : Submission) (price : PyFloat) : BrokerAndServer :=
  s.registerOrder σ.clientOrderId σ.symbol σ.quantity σ.sideIsBuy σ.orderTypeStr price

/-- The maps of an order that has been registered, -/
theorem registeredFor_keyed (h : OnFile s server) (σ : Submission) (price : PyFloat) :
    (registeredFor s σ price).Keyed := by
  have hkeyed : { s with brokerOrderIdCounter := s.brokerOrderIdCounter + 1 : BrokerAndServer
      }.Keyed := ⟨h.keyed.owned, h.keyed.detailed⟩
  exact hkeyed.store h.next_untracked

/-- where it is tracked, -/
theorem registeredFor_client (b : ℤ) : (registeredFor s σ price).brokerToClientIdMap.lookup b =
    if b = s.brokerOrderIdCounter + 1 then some σ.clientOrderId
    else s.brokerToClientIdMap.lookup b :=
  Dict.lookup_insert_ite _ _ _ _

/-- with its price. -/
theorem registeredFor_details (b : ℤ) :
    (registeredFor s σ price).brokerIdToOrderDetails.lookup b =
      if b = s.brokerOrderIdCounter + 1 then
        some (s.nextDetails σ.clientOrderId σ.symbol σ.quantity σ.sideIsBuy σ.orderTypeStr price)
      else s.brokerIdToOrderDetails.lookup b :=
  Dict.lookup_insert_ite _ _ _ _

/-- What the broker tracks of an order that it has given up: nothing. -/
theorem gaveUp_client (b : ℤ) : (gaveUp s σ price server').brokerToClientIdMap.lookup b =
    if b = s.brokerOrderIdCounter + 1 then none else s.brokerToClientIdMap.lookup b := by
  refine (forget_client_lookup _ _ _).trans ?_
  split_ifs with hb
  · rfl
  · exact (registeredFor_client b).trans (if_neg hb)

/-- And no details of it. -/
theorem gaveUp_details (b : ℤ) : (gaveUp s σ price server').brokerIdToOrderDetails.lookup b =
    if b = s.brokerOrderIdCounter + 1 then none else s.brokerIdToOrderDetails.lookup b := by
  refine (forget_details_lookup _ _ _).trans ?_
  split_ifs with hb
  · rfl
  · exact (registeredFor_details b).trans (if_neg hb)

/-- Giving an order up keeps the maps in agreement, also under a client id in use. -/
theorem gaveUp_keyed (h : OnFile s server) (σ : Submission) (price : PyFloat)
    (server' : ServerState) : (gaveUp s σ price server').Keyed := by
  have hkeyed := registeredFor_keyed h σ price
  have hsent : (s.sentOrder σ.clientOrderId σ.symbol σ.quantity σ.sideIsBuy σ.orderTypeStr price
      (some server')).Keyed := ⟨hkeyed.owned, hkeyed.detailed⟩
  exact (hsent.confirm _).forget ((registeredFor_client _).trans (if_pos rfl))

/-- What a call can do, to the state that it leaves however it ends. -/
inductive CallEffect (s : BrokerAndServer) (server : ServerState) (e : Event) :
    BrokerAndServer → Prop
  /-- A submission without a price. -/
  | unpriced (σ : Submission) : submission? e.call = some σ → σ.price = none →
      CallEffect s server e (s.confirm (rejection σ.clientOrderId σ.symbol σ.sideIsBuy))
  /-- A call that waits for the lock for ever. -/
  | blocked : s.lockHeld = true → CallEffect s server e s
  /-- A submission with a price that is no number: it is registered, and not sent. -/
  | raised (σ : Submission) (price : PyFloat) : submission? e.call = some σ →
      σ.price = some price → (∀ n, pyInt price ≠ .ok n) → s.lockHeld = false →
      CallEffect s server e (registeredFor s σ price)
  /-- A submission whose reply is lost. -/
  | lost {σ : Submission} {price : PyFloat} {n : ℤ} {o : Order} {ts : Trades} {p : OrderPointer}
      {store' : Store} {server' : ServerState} : submission? e.call = some σ →
      e.delivery = .lost → Sending s server σ price n o ts p store' server' →
      CallEffect s server e (gaveUp s σ price server')
  /-- A submission whose reply arrives: the trades are replayed, and a cancel may follow. -/
  | answered {σ : Submission} {price : PyFloat} {n : ℤ} {o : Order} {ts : Trades}
      {p : OrderPointer} {store' : Store} {server' : ServerState} {s' : BrokerAndServer} :
      submission? e.call = some σ → e.delivery = .delivered →
      Sending s server σ price n o ts p store' server' →
      Concludes (s.brokerOrderIdCounter + 1) price
        ((acknowledgedFor s σ price server').applyFills (fillInfos ts)) s' →
      CallEffect s server e s'
  /-- A cancel. -/
  | cancel (clientOrderId : String) {s' : BrokerAndServer} : submission? e.call = none →
      s.lockHeld = false → CancelStep s server e.delivery clientOrderId s' →
      CallEffect s server e s'

/-- What is done with the result of a computation does not change the state. -/
theorem state_bind_returned {ε σ α β : Type} (o : Outcome ε σ α) (f : α → β) :
    (o.bind fun a s => .returned (f a) s).state = o.state := by
  cases o <;> rfl

/-- **A submission** does one of the things a call can do. -/
theorem OnFile.submit_effect (h : OnFile s server) (L : Libraries)
    (hcounter : s.brokerOrderIdCounter + 1 < 2 ^ 64) (hcall : submission? e.call = some σ)
    (hfits : σ.Fits) : CallEffect s server e
      ((submitOrder (transport L e.delivery) σ.clientOrderId σ.symbol σ.quantity σ.sideIsBuy
        σ.orderTypeStr σ.price).run s).state := by
  rcases hprice : σ.price with _ | price
  · rw [run_submitOrder_of_no_price]
    exact .unpriced σ hcall hprice
  by_cases hheld : s.lockHeld = true
  · rw [run_submitOrder_of_locked _ _ _ _ _ _ hheld]
    exact .blocked hheld
  replace hheld : s.lockHeld = false := by simpa using hheld
  cases hn : pyInt price with
  | error err =>
      rw [run_submitOrder_of_raise _ _ _ _ _ _ hheld hn]
      refine .raised σ price hcall hprice (fun n hok => ?_) hheld
      cases hn.symm.trans hok
  | ok n =>
      have hservice : InService s server := ⟨h.toConnected, hheld⟩
      have hcarried : σ.Carried (s.brokerOrderIdCounter + 1) := ⟨hfits, hcounter⟩
      rw [← hprice]
      cases hdelivery : e.delivery with
      | lost =>
          obtain ⟨ts, store', hadd, hrun⟩ := hservice.run_submit_lost L hcarried hprice hn
          rw [hrun]
          exact .lost hcall hdelivery ⟨h, hheld, hcarried, hprice, hn, rfl, hadd, rfl⟩
      | delivered =>
          obtain ⟨ts, store', hadd, hrun⟩ := hservice.run_submit_delivered L hcarried hprice hn
          rw [hrun, state_bind_returned]
          refine .answered hcall hdelivery ⟨h, hheld, hcarried, hprice, hn, rfl, hadd, rfl⟩ ?_
          apply handleFinalStatus_concludes
          exact (applyFills_lockHeld _).trans hheld

/-- **A cancel** does one of the things a call can do. -/
theorem OnFile.cancel_effect (h : OnFile s server) (L : Libraries)
    (hcounter : s.brokerOrderIdCounter < 2 ^ 64) (hcall : submission? e.call = none)
    (clientOrderId : String) : CallEffect s server e
      ((cancelOrder (transport L e.delivery) clientOrderId).run s).state := by
  by_cases hheld : s.lockHeld = true
  · rw [run_cancelOrder_of_locked _ hheld]
    exact .blocked hheld
  replace hheld : s.lockHeld = false := by simpa using hheld
  have hservice : InService s server := ⟨h.toConnected, hheld⟩
  obtain ⟨result, s', hrun, hstep⟩ :=
    hservice.run_cancel h.keyed (fun b hb => h.exists_id hcounter hb) L e.delivery
  rw [hrun]
  exact .cancel clientOrderId hcall hheld hstep

/-- **Every call does one of the things a call can do.** -/
theorem OnFile.effect (h : OnFile s server) (L : Libraries)
    (hcounter : s.brokerOrderIdCounter + 1 < 2 ^ 64)
    (hfits : ∀ σ ∈ submission? e.call, σ.Fits) : CallEffect s server e (after L s e) := by
  obtain ⟨call, delivery⟩ := e
  cases call with
  | submitOrder clientOrderId symbol quantity sideIsBuy orderTypeStr price =>
      have hafter : after L s ⟨.submitOrder clientOrderId symbol quantity sideIsBuy orderTypeStr
          price, delivery⟩ = ((submitOrder (transport L delivery) clientOrderId symbol quantity
            sideIsBuy orderTypeStr price).run s).state := state_bind_returned _ _
      rw [hafter]
      exact h.submit_effect L hcounter rfl (hfits _ rfl)
  | cancelOrder clientOrderId =>
      have hafter : after L s ⟨.cancelOrder clientOrderId, delivery⟩ =
          ((cancelOrder (transport L delivery) clientOrderId).run s).state :=
        state_bind_returned _ _
      rw [hafter]
      exact h.cancel_effect L (by omega) rfl clientOrderId

/-! ## What every call keeps -/

/-- The maps agree after a cancel has been sent. -/
theorem keyed_sentCancel (h : s.Keyed) (htracks : s.Tracks b clientOrderId order)
    (orderBook : Option ServerState) : (s.sentCancel b order orderBook).Keyed := by
  have hset := h.setDetails htracks.client { order with status := .PENDING_CANCEL }
  exact ⟨hset.owned, hset.detailed⟩

/-- The book loses orders at most, and the broker changes as it does for a cancel. -/
theorem OnFile.reduced (h : OnFile s server)
    (hbook : s'.orderBook = some { server with store := store' })
    (hcounter : s'.brokerOrderIdCounter = s.brokerOrderIdCounter) (hkeyed : s'.Keyed)
    (hclients : ∀ b clientOrderId, s'.brokerToClientIdMap.lookup b = some clientOrderId →
      s.brokerToClientIdMap.lookup b = some clientOrderId)
    (hreported : ∀ c ∈ s'.confirmations, c ∈ s.confirmations ∨
      c.orderId ≤ s.brokerOrderIdCounter)
    (hconsistent : Invariant store')
    (hsub : ∀ r ∈ restingOrders store'.sides, r ∈ restingOrders server.store.sides) :
    OnFile s' { server with store := store' } := by
  have hbooked : ∀ id, store'.resting? id ≠ none → ∃ k ∈ server.bookings, k.terms.orderId = id := by
    intro id hrests
    rw [Ne, resting?_eq_none_iff, not_not] at hrests
    obtain ⟨r, hr, rfl⟩ := hconsistent.toWellIndexed.exists_restingOrder hrests
    obtain ⟨k, hk, hterms⟩ := h.resting r (hsub r hr)
    exact ⟨k, hk, congrArg OrderTerms.orderId hterms⟩
  have hserver : OnFile { s with orderBook := some { server with store := store' } }
      { server with store := store' } :=
    ⟨⟨rfl, h.counter, hconsistent, ⟨h.issued.le, h.issued.distinct, h.issued.named⟩, hbooked⟩,
      ⟨h.keyed.owned, h.keyed.detailed⟩, h.tracked, fun r hr => h.resting r (hsub r hr),
      h.reported, h.between⟩
  exact hserver.changed hbook hcounter hkeyed hclients hreported

/-- **A cancel keeps the invariant.** -/
theorem OnFile.cancelStep (h : OnFile s server) {delivery : Delivery}
    (hstep : CancelStep s server delivery clientOrderId s') :
    ∃ server', OnFile s' server' ∧ server'.bookings = server.bookings ∧
      (∀ r ∈ restingOrders server'.store.sides, r ∈ restingOrders server.store.sides) ∧
      s'.brokerOrderIdCounter = s.brokerOrderIdCounter := by
  have hrestored : ∀ {b order}, s.Tracks b clientOrderId order → ∀ server',
      (restoredState s b order server').Keyed := fun htracks server' =>
    (keyed_sentCancel h.keyed htracks _).setDetails htracks.client _
  rcases hstep with _ | ⟨b, order, htracks⟩ | ⟨b, order, node, store', -, htracks, hnode, hremoved⟩ |
    ⟨b, order, node, store', htracks, hnode, hb, hremoved⟩
  · exact ⟨server, h, rfl, fun _ hr => hr, rfl⟩
  · exact ⟨server, h.changed h.connected.symm rfl (hrestored htracks server) (fun _ _ hb => hb)
      fun _ hc => Or.inl hc, rfl, fun _ hr => hr, rfl⟩
  · have hsub : ∀ r ∈ restingOrders store'.sides, r ∈ restingOrders server.store.sides :=
      fun r hr => ((hremoved.mem_restingOrders h.consistent.toWellIndexed hnode).mp hr).1
    exact ⟨_, h.reduced rfl rfl (hrestored htracks _) (fun _ _ hb => hb) (fun _ hc => Or.inl hc)
      (hremoved.invariant h.consistent hnode) hsub, rfl, hsub, rfl⟩
  · have hsub : ∀ r ∈ restingOrders store'.sides, r ∈ restingOrders server.store.sides :=
      fun r hr => ((hremoved.mem_restingOrders h.consistent.toWellIndexed hnode).mp hr).1
    refine ⟨_, h.reduced rfl rfl ?_ ?_ ?_ (hremoved.invariant h.consistent hnode) hsub, rfl, hsub,
      rfl⟩
    · exact (((keyed_sentCancel h.keyed htracks _).setDetails htracks.client _).confirm _).forget
        htracks.client
    · intro b' clientOrderId' hb'
      have hclient := (Dict.lookup_erase_ite _ _ _).symm.trans hb'
      split_ifs at hclient
      exact hclient
    · intro c hc
      refine (List.mem_append.mp hc).imp_right fun hnew => ?_
      rw [List.mem_singleton.mp hnew]
      exact (h.tracked _ _ htracks.client).2

/-- **A submission whose reply is lost keeps the invariant**, -/
theorem Sending.onFile_gaveUp (h : Sending s server σ price n o ts p store' server') :
    OnFile (gaveUp s σ price server') server' := by
  have hcounter := h.onFile.counter
  refine h.onFile_after rfl rfl (gaveUp_keyed h.onFile σ price server') ?_ fun c hc => ?_
  · intro b clientOrderId hb hne
    rwa [gaveUp_client, if_neg hne] at hb
  · refine (List.mem_append.mp hc).imp_right fun hnew => ?_
    rw [List.mem_singleton.mp hnew]
    show (-1 : ℤ) ≤ _
    omega

/-- **and so does one whose reply arrives**, also if the call never returns. -/
theorem Sending.onFile_concluded (h : Sending s server σ price n o ts p store' server')
    (hconcludes : Concludes (s.brokerOrderIdCounter + 1) price
      ((acknowledgedFor s σ price server').applyFills (fillInfos ts)) s') : OnFile s' server' := by
  refine h.onFile_after ?_ ?_ ?_ ?_ ?_
  · exact hconcludes.orderBook.trans (applyFills_frame _).2
  · exact hconcludes.counter.trans (applyFills_frame _).1
  · exact hconcludes.keyed (h.acknowledged_keyed.applyFills _)
  · intro b clientOrderId hb hne
    rw [hconcludes.clients] at hb
    have hb' := applyFills_client_lookup hb
    rwa [acknowledgedFor_client_lookup, if_neg hne] at hb'
  · intro c hc
    obtain ⟨cs, hcs, hcancels⟩ := hconcludes.confirmations
    obtain ⟨cs', hcs', hfills⟩ :=
      applyFills_confirmations (acknowledgedFor s σ price server') (fillInfos ts)
    rw [hcs, hcs'] at hc
    rcases List.mem_append.mp hc with hc | hc
    · rcases List.mem_append.mp hc with hc | hc
      · exact Or.inl hc
      · right
        have hclient := (hfills c hc).2.1
        rw [acknowledgedFor_client_lookup] at hclient
        split_ifs at hclient with hb
        · omega
        · have := (h.onFile.tracked _ _ hclient).2
          omega
    · exact Or.inr (hcancels c hc).1.le

/-- **Every call keeps the invariant**, and gives out one broker id at most. -/
theorem CallEffect.onFile (heffect : CallEffect s server e s') (h : OnFile s server) :
    ∃ server', OnFile s' server' ∧ s'.brokerOrderIdCounter ≤ s.brokerOrderIdCounter + 1 := by
  rcases heffect with ⟨σ, -, -⟩ | - | ⟨σ, price, -, -, -, -⟩ | ⟨-, -, hsending⟩ |
    ⟨-, -, hsending, hconcludes⟩ | ⟨clientOrderId, -, -, hstep⟩
  · exact ⟨server, h.confirm_rejection _ _ _, by
      show s.brokerOrderIdCounter ≤ _
      omega⟩
  · exact ⟨server, h, by omega⟩
  · have hnonneg := h.counter
    have hle : ∀ k ∈ server.bookings, (k.terms.orderId.toNat : ℤ) ≤ s.brokerOrderIdCounter + 1 :=
      fun k hk => (h.issued.le k hk).trans (by omega)
    refine ⟨server, ⟨⟨h.connected, ?_, h.consistent, ⟨hle, h.issued.distinct, h.issued.named⟩,
      h.booked⟩, registeredFor_keyed h σ price, ?_, h.resting, ?_, h.between⟩, le_refl _⟩
    · show 0 ≤ s.brokerOrderIdCounter + 1
      omega
    · intro b clientOrderId hb
      show 0 < b ∧ b ≤ s.brokerOrderIdCounter + 1
      rw [registeredFor_client] at hb
      split_ifs at hb with hnew
      · omega
      · have := h.tracked _ _ hb
        omega
    · intro c hc
      have := h.reported c hc
      show c.orderId ≤ s.brokerOrderIdCounter + 1
      omega
  · exact ⟨_, hsending.onFile_gaveUp, le_refl _⟩
  · exact ⟨_, hsending.onFile_concluded hconcludes,
      (hconcludes.counter.trans (applyFills_frame _).1).le⟩
  · obtain ⟨server', honFile, -, -, hcounter⟩ := h.cancelStep hstep
    exact ⟨server', honFile, by omega⟩

/-- Every integer of the orders fits in 64 bits, also the broker ids. -/
structure FitsAll (es : List Event) : Prop where
  orders : ∀ σ ∈ submissions es, σ.Fits
  length : es.length < 2 ^ 64

/-- What fits in a run fits in its first part. -/
theorem FitsAll.of_prefix {es es' : List Event} (h : FitsAll es) (hstart : es' <+: es) :
    FitsAll es' := by
  obtain ⟨es'', rfl⟩ := hstart
  refine ⟨fun σ hσ => h.orders σ ?_, ?_⟩
  · unfold submissions
    rw [List.filterMap_append]
    exact List.mem_append_left _ hσ
  · have := h.length
    rw [List.length_append] at this
    omega

/-- The order of the last call is one of them. -/
theorem FitsAll.last {es : List Event} (h : FitsAll (es ++ [e])) :
    ∀ σ ∈ submission? e.call, σ.Fits := by
  intro σ hσ
  apply h.orders
  rw [submissions_append]
  exact List.mem_append_right _ (Option.mem_toList.mpr hσ)

/-- **The invariant holds after any calls**, and no more ids have been given out than there were
calls. -/
theorem onFile_afterAll (L : Libraries) {es : List Event} (hfits : FitsAll es) :
    (∃ server, OnFile (afterAll L es) server) ∧
      (afterAll L es).brokerOrderIdCounter ≤ es.length := by
  induction es using List.reverseRecOn with
  | nil => exact ⟨⟨_, onFile_init⟩, le_refl _⟩
  | append_singleton es e ih =>
      obtain ⟨⟨server, honFile⟩, hle⟩ := ih (hfits.of_prefix (List.prefix_append _ _))
      have hlength := hfits.length
      rw [List.length_append, List.length_singleton] at hlength ⊢
      rw [afterAll_append]
      obtain ⟨server', honFile', hcounter⟩ :=
        (honFile.effect L (by omega) hfits.last).onFile honFile
      exact ⟨⟨server', honFile'⟩, by push_cast; omega⟩

/-- **What the next call can do.** -/
theorem exists_effect (L : Libraries) {es : List Event} (hfits : FitsAll (es ++ [e])) :
    ∃ server, OnFile (afterAll L es) server ∧
      CallEffect (afterAll L es) server e (afterAll L (es ++ [e])) := by
  obtain ⟨⟨server, honFile⟩, hle⟩ :=
    onFile_afterAll L (hfits.of_prefix (List.prefix_append es [e]))
  have hlength := hfits.length
  rw [List.length_append, List.length_singleton] at hlength
  rw [afterAll_append]
  exact ⟨server, honFile, honFile.effect L (by omega) hfits.last⟩

end calls

end FlowManager.System
