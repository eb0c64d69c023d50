import FlowManager.Book.TradePrices
import FlowManager.System.Synced

/-!
# Submitting an order

What a `submit_order` that returns does to the broker and the book in step. `AddOrder` takes the
order under its new id (`Connected.exists_taken`). If the reply arrives, the broker registers the
order, replays the trades and marks what is left as working: every leg of the reply names the new
order or one that rests, so each is a fill of an order that the broker tracks, and the order that
the book has emptied is the one whose `filled_quantity` reaches its quantity
(`Synced.submitted`). If the reply is lost, the broker reports a rejection, which is right if the
book keeps no trace of the order (`Synced.rejected`).

The loop skips the legs of an order whose client id is empty. `FillsNoUnnamed` says of a call,
before it, that no leg of its reply would be one.
-/

namespace FlowManager.System

open FlowManager.Lib FlowManager.Lib.PriceTime FlowManager.Book FlowManager.Broker
  FlowManager.Server

section submitting

variable {subs : List Submission} {s : BrokerAndServer} {server : ServerState} {σ : Submission}
  {price : PyFloat} {n : ℤ} {ts : Trades} {store' : Store}

/-! ## The order at the book -/

/-- The order that the book gets for a submission under the broker id `b`. -/
def Submission.order (σ : Submission) (b n : ℤ) : Order :=
  bookedOrder b n σ.quantity σ.sideIsBuy σ.orderTypeStr

/-- The server after `AddOrder` has handed an order back. -/
def booking (server : ServerState) (store' : Store) (clientOrderId : String) (o : Order)
    (ts : Trades) : ServerState :=
  ⟨store', server.bookings ++ [⟨clientOrderId, o.toOrderTerms, ts⟩]⟩

/-- The ids of the client's order with a new booking. -/
theorem bookedIds_booking (o : Order) : bookedIds (booking server store' σ.clientOrderId o ts) =
    bookAlso (bookedIds server) σ.clientOrderId [o.orderId] := by
  funext clientOrderId
  exact bookedIds_append server.store store' server.bookings _ clientOrderId

/-- The tape with a new booking. -/
theorem tapeOf_booking (clientOrderId : String) (o : Order) :
    tapeOf (booking server store' clientOrderId o ts) = tapeOf server ++ ts :=
  tapeOf_append server.store store' server.bookings _

/-- The quantity of the order is that of the submission. -/
theorem order_quantity (hadm : σ.Admissible subs (s.brokerOrderIdCounter + 1)) (b n : ℤ) :
    (((σ.order b n).remainingQuantity.toNat : ℕ) : ℤ) = σ.quantity :=
  toNat_ofInt32 hadm.quantity.1 hadm.quantity.2

/-- The id of the order is the broker id. -/
theorem order_id (h : Connected s server) (hcarried : σ.Carried (s.brokerOrderIdCounter + 1))
    (n : ℤ) :
    ((σ.order (s.brokerOrderIdCounter + 1) n).orderId.toNat : ℤ) = s.brokerOrderIdCounter + 1 := by
  have hcounter := h.counter
  apply toNat_ofInt64
  · omega
  · exact hcarried.id

/-- The details that the broker stores agree with the order. -/
theorem agrees_order (hadm : σ.Admissible subs (s.brokerOrderIdCounter + 1)) (hn : pyInt price = .ok n)
    (hn0 : 0 ≤ n) (hn32 : n < 2 ^ 32) :
    Agrees (acknowledgedDetails s σ price) (σ.order (s.brokerOrderIdCounter + 1) n) where
  side := rfl
  price := by
    refine ⟨price, rfl, ?_⟩
    have hprice : ((σ.order (s.brokerOrderIdCounter + 1) n).price.toNat : ℤ) = n :=
      toNat_ofInt32 hn0 hn32
    rw [hn, hprice]
  quantity := (order_quantity hadm (s.brokerOrderIdCounter + 1) n).symm
  filled := zero_add _

/-- **`AddOrder` takes the order**, and the server says so. -/
theorem Connected.exists_taken (h : Connected s server) (L : Libraries)
    (hcarried : σ.Carried (s.brokerOrderIdCounter + 1)) (hprice : σ.price = some price)
    (hn : pyInt price = .ok n) :
    ∃ ts store', CallStep server.store
        (.addOrder (σ.order (s.brokerOrderIdCounter + 1) n))
        (.added ts (some server.store.nextOrder)) store' ∧
      serve L (s.nextRequest σ.clientOrderId σ.symbol σ.quantity σ.sideIsBuy σ.orderTypeStr n)
          server =
        some (takenReply σ.clientOrderId (s.brokerOrderIdCounter + 1) ts
            (store'.heap server.store.nextOrder),
          booking server store' σ.clientOrderId (σ.order (s.brokerOrderIdCounter + 1) n) ts) := by
  have hcounter := h.counter
  have hnew := h.next_not_resting (order_id h hcarried n)
  rw [resting?_eq_none_iff] at hnew
  obtain ⟨a, store', hrun, hstep⟩ := call_steps h.consistent
    (.addOrder (σ.order (s.brokerOrderIdCounter + 1) n))
  have hb : Json.Fits (s.brokerOrderIdCounter + 1) := fits_of_nonneg (by omega) hcarried.id
  have hp : Json.Fits n := hcarried.price_of hprice hn
  have hq : Json.Fits σ.quantity := hcarried.quantity
  cases hstep with
  | refused _ hlive => exact absurd hlive hnew
  | turnedAway _ hid hfak hcan =>
      exact ⟨[], _, .turnedAway _ hid hfak hcan, serve_addOrder_of_taken L _ _ _ _ _ _ _ hb hp hq hrun⟩
  | accepted _ ts _ hid hcan hacc =>
      exact ⟨ts, _, .accepted _ ts _ hid hcan hacc,
        serve_addOrder_of_taken L _ _ _ _ _ _ _ hb hp hq hrun⟩

/-! ## The orders that it gets to -/

/-- The order, sent to the server now, gets to the resting order. -/
def ReachesNow (server : ServerState) (o : Order) (r : Resting OrderTerms) : Prop :=
  ReachedBy o.toOrderTerms o.remainingQuantity.toNat server.store.sides r

/-- A call with the submission would send the order to the server now. -/
structure Submission.Sends (σ : Submission) (s : BrokerAndServer) (server : ServerState)
    (o : Order) : Prop where
  free : s.lockHeld = false
  connected : s.orderBook = some server
  order : ∃ price n, σ.price = some price ∧ pyInt price = .ok n ∧
    o = σ.order (s.brokerOrderIdCounter + 1) n

/-- A broker in service sends the order of a submission with a price that converts, and no other. -/
theorem InService.sends_iff (h : InService s server) (hprice : σ.price = some price)
    (hn : pyInt price = .ok n) {server' : ServerState} {o : Order} :
    σ.Sends s server' o ↔ server' = server ∧ o = σ.order (s.brokerOrderIdCounter + 1) n := by
  constructor
  · rintro ⟨-, hconnected, price', n', hprice', hn', ho⟩
    obtain rfl := Option.some.inj (h.connected.symm.trans hconnected)
    obtain rfl := Option.some.inj (hprice.symm.trans hprice')
    obtain rfl := Except.ok.inj (hn.symm.trans hn')
    exact ⟨rfl, ho⟩
  · rintro ⟨rfl, ho⟩
    exact ⟨h.free, h.connected, price, n, hprice, hn, ho⟩

/-- The order of the submission has the empty client id, or the broker tracks the resting order
under it. -/
def Submission.Unnamed (σ : Submission) (s : BrokerAndServer) (r : Resting OrderTerms) : Prop :=
  σ.clientOrderId = "" ∨ s.brokerToClientIdMap.lookup (r.terms.orderId.toNat : ℤ) = some ""

/-- No order that the broker tracks under the empty client id is filled by the submission: neither
its own order, nor one that it gets to. -/
def Submission.FillsNoUnnamed (σ : Submission) (s : BrokerAndServer) : Prop :=
  ∀ server o r, σ.Sends s server o → ReachesNow server o r → σ.Unnamed s r → MovesNothing o r

/-- No order that the broker tracks under the empty client id is filled by the call. -/
def FillsNoUnnamed (s : BrokerAndServer) (e : Event) : Prop :=
  ∀ σ ∈ submission? e.call, σ.FillsNoUnnamed s

/-- Orders with client ids are filled at will. -/
theorem Submission.fillsNoUnnamed_of_named (hname : σ.clientOrderId ≠ "")
    (htracked : ∀ b, s.brokerToClientIdMap.lookup b ≠ some "") : σ.FillsNoUnnamed s := by
  rintro server o r - - (hown | hrests)
  · exact absurd hown hname
  · exact absurd hrests (htracked _)

/-! ## The orders that the loop finds -/

/-- What an order that is tracked when the loop starts is for the book before `o` came in. -/
inductive KnownAs (store : Store) (o : Order) (order : OrderDetails) (id : OrderId) : Prop
  /-- The order that comes in. -/
  | incoming : id = o.orderId → Agrees order o → KnownAs store o order id
  /-- An order that rests. -/
  | resting (x : Order) : id ≠ o.orderId → store.resting? id = some x → Agrees order x →
      KnownAs store o order id
  /-- An order that has left the book. -/
  | gone : id ≠ o.orderId → store.resting? id = none → order.filledQuantity < order.quantity →
      KnownAs store o order id

section known

variable {store : Store} {o : Order} {order : OrderDetails} {id : OrderId} {p : OrderPointer}

/-- The trades do not fill an order beyond its quantity. -/
theorem KnownAs.add_le (h : KnownAs store o order id) (htaken : Taken store o ts p store') :
    order.filledQuantity + traded ts id ≤ order.quantity := by
  cases h with
  | incoming hid hagrees =>
      subst hid
      exact hagrees.add_le htaken.remaining
  | resting x hne hx hagrees =>
      have hloses := htaken.others id hne
      rw [hx] at hloses
      rcases hloses with ⟨hall, -⟩ | ⟨x', -, -, hrem⟩
      · exact hagrees.add_le (r := 0) (by omega)
      · exact hagrees.add_le hrem
  | gone hne hnone hlt =>
      have hloses := htaken.others id hne
      rw [hnone] at hloses
      have hzero : traded ts id = 0 := hloses.2
      omega

/-- An order that rests after the trades was known with details that agree, and has become what the
trades leave of it. -/
theorem KnownAs.of_resting (h : KnownAs store o order id) (htaken : Taken store o ts p store')
    {o' : Order} (ho' : store'.resting? id = some o') :
    ∃ x, Agrees order x ∧ o'.toOrderTerms = x.toOrderTerms ∧
      o'.remainingQuantity.toNat + traded ts id = x.remainingQuantity.toNat := by
  cases h with
  | incoming hid hagrees =>
      subst hid
      obtain ⟨rfl, -⟩ := htaken.rests o' ho'
      exact ⟨o, hagrees, htaken.terms, htaken.remaining⟩
  | resting x hne hx hagrees =>
      have hloses := htaken.others id hne
      rw [hx, ho'] at hloses
      rcases hloses with ⟨-, hnone⟩ | ⟨x', hx', hterms, hrem⟩
      · cases hnone
      · cases hx'
        exact ⟨x, hagrees, hterms, hrem⟩
  | gone hne hnone hlt =>
      have hloses := htaken.others id hne
      rw [hnone, ho'] at hloses
      cases hloses.1

/-- An order in the book that the trades do not finish rests afterwards, if it is kept. -/
theorem KnownAs.rests (h : KnownAs store o order id) (htaken : Taken store o ts p store')
    (hlt : order.filledQuantity + traded ts id < order.quantity)
    (hgone : id ≠ o.orderId → store.resting? id ≠ none)
    (hkept : id = o.orderId → o.orderType = .GoodTillCancel) : store'.resting? id ≠ none := by
  cases h with
  | incoming hid hagrees =>
      subst hid
      have hopen := (hagrees.add_lt_iff htaken.remaining).mp hlt
      rw [htaken.stays (hkept rfl) hopen]
      exact Option.some_ne_none _
  | resting x hne hx hagrees =>
      have hloses := htaken.others id hne
      rw [hx] at hloses
      rcases hloses with ⟨hall, -⟩ | ⟨x', hx', -, -⟩
      · exact absurd rfl ((hagrees.add_lt_iff (r := 0) (by omega)).mp hlt)
      · rw [hx']
        exact Option.some_ne_none x'
  | gone hne hnone _ => exact absurd hnone (hgone hne)

end known

section loop

variable {b : ℤ} {clientOrderId : String} {order : OrderDetails} {server' : ServerState}
  {id : OrderId}

/-- **The loop finds what the book knew**: the order that came in, or an order of before. -/
theorem Synced.knownAs (h : Synced subs s server)
    (hadm : σ.Admissible subs (s.brokerOrderIdCounter + 1)) (hn : pyInt price = .ok n)
    (hn0 : 0 ≤ n) (hn32 : n < 2 ^ 32)
    (htracks : (acknowledgedFor s σ price server').Tracks id.toNat clientOrderId order) :
    KnownAs server.store (σ.order (s.brokerOrderIdCounter + 1) n) order id := by
  have hid := order_id h.inService.toConnected hadm.carried n
  by_cases hb : (id.toNat : ℤ) = s.brokerOrderIdCounter + 1
  · apply KnownAs.incoming
    · exact UInt64.toNat_inj.mp (by exact_mod_cast hb.trans hid.symm)
    · rw [hb] at htracks
      obtain rfl := Option.some.inj (htracks.details.symm.trans acknowledgedFor_tracks.details)
      exact agrees_order hadm hn hn0 hn32
  · rw [acknowledgedFor_tracks_of_ne hb] at htracks
    have hne : id ≠ (σ.order (s.brokerOrderIdCounter + 1) n).orderId := by
      rintro rfl
      exact hb hid
    obtain ⟨id', hid', hbooked⟩ := h.booked htracks.client
    obtain rfl : id' = id := UInt64.toNat_inj.mp (by exact_mod_cast hid')
    cases ho : server.store.resting? id' with
    | none =>
        obtain ⟨_, _, _, _, hworks⟩ := h.accounts.works htracks
        exact .gone hne ho hworks.unfinished
    | some x =>
        obtain ⟨order', htracks', hagrees⟩ := h.tracked_of_booked hbooked ho
        obtain rfl := Option.some.inj (htracks.details.symm.trans htracks'.details)
        exact .resting x hne ho hagrees

/-- The trades are with orders that the broker tracks. -/
theorem Synced.traded_eq_zero (h : Synced subs s server)
    (hadm : σ.Admissible subs (s.brokerOrderIdCounter + 1)) {p : OrderPointer}
    (htaken : Taken server.store (σ.order (s.brokerOrderIdCounter + 1) n) ts p store')
    (hnone : ∀ b, (acknowledgedFor s σ price server').brokerToClientIdMap.lookup b ≠
      some clientOrderId)
    (hbooked : id ∈ bookAlso (bookedIds server) σ.clientOrderId
      [(σ.order (s.brokerOrderIdCounter + 1) n).orderId] clientOrderId) : traded ts id = 0 := by
  have hid := order_id h.inService.toConnected hadm.carried n
  have hne : σ.clientOrderId ≠ clientOrderId := by
    rintro rfl
    exact hnone _ acknowledgedFor_tracks.client
  rw [bookAlso_of_ne _ _ hne] at hbooked
  have hold : id ≠ (σ.order (s.brokerOrderIdCounter + 1) n).orderId := by
    rintro rfl
    exact h.inService.next_not_booked hid clientOrderId hbooked
  have hloses := htaken.others id hold
  cases ho : server.store.resting? id with
  | none =>
      rw [ho] at hloses
      exact hloses.2
  | some o =>
      obtain ⟨order, htracks, -⟩ := h.tracked_of_booked hbooked ho
      have hb : (id.toNat : ℤ) ≠ s.brokerOrderIdCounter + 1 := by
        intro heq
        exact hold (UInt64.toNat_inj.mp (by exact_mod_cast heq.trans hid.symm))
      exact absurd ((acknowledgedFor_tracks_of_ne hb).mpr htracks).client (hnone _)

end loop

/-! ## The reply arrives -/

/-- The state at the end of a call whose reply has arrived. -/
def replayed (s : BrokerAndServer) (σ : Submission) (price : PyFloat) (server' : ServerState)
    (ts : Trades) : BrokerAndServer :=
  ((acknowledgedFor s σ price server').applyFills (fillInfos ts)).markWorking
    (s.brokerOrderIdCounter + 1)

/-- The book is what the server has left. -/
theorem replayed_orderBook (s : BrokerAndServer) (σ : Submission) (price : PyFloat)
    (server' : ServerState) (ts : Trades) :
    (replayed s σ price server' ts).orderBook = some server' :=
  (markWorking_frame _).2.trans (applyFills_frame _).2

section replayed

variable {p : OrderPointer} {server' : ServerState}

/-- After the loop the new order is not marked as filled: a filled one has been forgotten. -/
theorem acknowledgedFor_applyFills_status (fills : List FillInfo) (current : OrderDetails)
    (hcurrent : ((acknowledgedFor s σ price server').applyFills fills).brokerIdToOrderDetails.lookup
      (s.brokerOrderIdCounter + 1) = some current) : current.status ≠ .FILLED := by
  rcases acknowledged_applyFills (s := s) σ.clientOrderId σ.symbol σ.quantity σ.sideIsBuy
      σ.orderTypeStr price (some server') fills with ⟨-, hgone⟩ | ⟨-, current', hcurrent', hnot⟩
  · exact absurd (hgone.symm.trans hcurrent) (Option.some_ne_none current).symm
  · obtain rfl := Option.some.inj (hcurrent.symm.trans hcurrent')
    exact hnot

/-- What the loop leaves of the new order, if no leg names it: all. -/
theorem acknowledgedFor_applyFills_of_nil
    (hown : ownFills (s.brokerOrderIdCounter + 1) (fillInfos ts) = []) :
    ((acknowledgedFor s σ price server').applyFills (fillInfos ts)).Tracks
      (s.brokerOrderIdCounter + 1) σ.clientOrderId (acknowledgedDetails s σ price) := by
  rcases applyFills_tracks acknowledgedFor_tracks (show Status.ACKNOWLEDGED ≠ .FILLED by decide)
      (fillInfos ts) (fun _ => hown) with ⟨hdone, -⟩ | ⟨-, htracks⟩
  · exact absurd hown hdone.1
  · rwa [hown] at htracks

/-- A submission of nothing is never finished in time: the book reports it as filled, and no fill
takes it out of the maps. -/
theorem quantity_pos (h : Synced subs s server)
    (hadm : σ.Admissible subs (s.brokerOrderIdCounter + 1)) {o : Order}
    (ho : o = σ.order (s.brokerOrderIdCounter + 1) n)
    (htaken : Taken server.store o ts p store')
    (hdone : finishes (some (finalStatusInBook (some (store'.heap p)))) = true →
      ((acknowledgedFor s σ price server').applyFills (fillInfos ts)).brokerIdToOrderDetails.lookup
        (s.brokerOrderIdCounter + 1) = none) : 0 < σ.quantity := by
  subst ho
  rcases hadm.quantity.1.lt_or_eq with hpos | hzero
  · exact hpos
  · have hquantity := order_quantity hadm (s.brokerOrderIdCounter + 1) n
    have hremaining := htaken.remaining
    have hfilled : (store'.heap p).isFilled = true := (Order.isFilled_iff _).mpr (by omega)
    have hgone := hdone (by simp [finishes, finalStatusInBook, hfilled])
    have hown : ownFills (s.brokerOrderIdCounter + 1) (fillInfos ts) = [] := by
      rw [← order_id h.inService.toConnected hadm.carried n, ownFills_eq_nil_iff,
        totalFilled_ownFills_fillInfos]
      omega
    rw [(acknowledgedFor_applyFills_of_nil hown).details] at hgone
    cases hgone

/-- A submission whose reply arrives: the call, and what the book has done with its order. -/
structure Answered (subs : List Submission) (s : BrokerAndServer) (server : ServerState)
    (σ : Submission) (price : PyFloat) (n : ℤ) (o : Order) (ts : Trades) (p : OrderPointer)
    (store' : Store) (server' : ServerState) : Prop where
  synced : Synced subs s server
  admissible : σ.Admissible subs (s.brokerOrderIdCounter + 1)
  priced : σ.price = some price
  truncated : pyInt price = .ok n
  nonneg : 0 ≤ n
  bounded : n < 2 ^ 32
  order : o = σ.order (s.brokerOrderIdCounter + 1) n
  taken : Taken server.store o ts p store'
  handled : Handled server.store o ts p store'
  server : server' = booking server store' σ.clientOrderId o ts
  positive : 0 < σ.quantity

/-- The trades fill an order that is tracked under the empty client id: the loop skips its legs. -/
structure Skipped (s : BrokerAndServer) (ts : Trades) (id : OrderId) (order : OrderDetails) :
    Prop where
  tracks : s.Tracks id.toNat "" order
  moved : traded ts id ≠ 0

namespace Answered

variable {o : Order} {clientOrderId : String} {order : OrderDetails} {id : OrderId}

/-- The book behind the reply. -/
theorem store (h : Answered subs s server σ price n o ts p store' server') :
    server'.store = store' := by
  rw [h.server]
  rfl

/-- The order is booked under the next id of the broker. -/
theorem id_eq (h : Answered subs s server σ price n o ts p store' server') :
    (o.orderId.toNat : ℤ) = s.brokerOrderIdCounter + 1 := by
  rw [h.order]
  exact order_id h.synced.inService.toConnected h.admissible.carried n

/-- Another id has another broker id. -/
theorem ne_of_ne (h : Answered subs s server σ price n o ts p store' server')
    (hne : id ≠ o.orderId) : (id.toNat : ℤ) ≠ s.brokerOrderIdCounter + 1 := by
  intro heq
  exact hne (UInt64.toNat_inj.mp (by exact_mod_cast heq.trans h.id_eq.symm))

/-- Behind the reply every resting order is open. -/
theorem allOpen (h : Answered subs s server σ price n o ts p store' server') : AllOpen store' := by
  have hquantity := order_quantity h.admissible (s.brokerOrderIdCounter + 1) n
  rw [← h.order] at hquantity
  have hpos := h.positive
  exact (h.taken.positive (by omega)).2

/-- The accounts with the order registered. -/
theorem registered (h : Answered subs s server σ price n o ts p store' server') :
    Accounts (subs ++ [σ]) (bookedIds server') (tapeOf server)
      (acknowledgedFor s σ price server') := by
  rw [h.server, bookedIds_booking]
  exact h.synced.accounts.register h.admissible.fresh (h.synced.next_untracked h.id_eq) h.priced
    h.positive h.id_eq (h.synced.inService.next_not_traded h.id_eq)

/-- What is tracked when the loop starts was known to the book. -/
theorem knownAs (h : Answered subs s server σ price n o ts p store' server')
    (htracks : (acknowledgedFor s σ price server').Tracks id.toNat clientOrderId order) :
    KnownAs server.store o order id := by
  rw [h.order]
  exact h.synced.knownAs h.admissible h.truncated h.nonneg h.bounded htracks

/-- What rests afterwards was tracked when the loop started. -/
theorem exists_tracks (h : Answered subs s server σ price n o ts p store' server') {o' : Order}
    (ho' : store'.resting? id = some o') : ∃ clientOrderId order,
      (acknowledgedFor s σ price server').Tracks id.toNat clientOrderId order := by
  by_cases hnew : id = o.orderId
  · rw [hnew, h.id_eq]
    exact ⟨_, _, acknowledgedFor_tracks⟩
  · have hloses := h.taken.others id hnew
    cases hx : server.store.resting? id with
    | none =>
        rw [hx, ho'] at hloses
        cases hloses.1
    | some x =>
        obtain ⟨clientOrderId, order, htracks, -⟩ := h.synced.tracked id x hx
        exact ⟨clientOrderId, order,
          (acknowledgedFor_tracks_of_ne (h.ne_of_ne hnew)).mpr htracks⟩

/-- **The loop skips legs** exactly if the call fills an order under the empty client id. -/
theorem fillsNoUnnamed_iff (h : Answered subs s server σ price n o ts p store' server') :
    σ.FillsNoUnnamed s ↔ ∀ id order, ¬Skipped (acknowledgedFor s σ price server') ts id order := by
  have hservice := h.synced.inService
  constructor
  · rintro hnamed id order ⟨htracks, hmoved⟩
    obtain ⟨r, hr, hmoves, hid⟩ := (h.handled.traded_ne_zero_iff h.synced.consistent).mp hmoved
    have hb := htracks.client
    have hsent := (hservice.sends_iff h.priced h.truncated).mpr ⟨rfl, h.order⟩
    refine hmoves (hnamed server o r hsent hr ?_)
    by_cases hnew : id = o.orderId
    · left
      rw [hnew, h.id_eq, acknowledgedFor_tracks.client] at hb
      exact Option.some.inj hb
    · right
      rw [acknowledgedFor_client_lookup, if_neg (h.ne_of_ne hnew)] at hb
      rw [← hid.resolve_left hnew]
      exact hb
  · intro hnone server₁ o₁ r hsent hr hunnamed
    obtain ⟨rfl, ho₁⟩ := (hservice.sends_iff h.priced h.truncated).mp hsent
    obtain rfl := ho₁.trans h.order.symm
    by_contra hmoves
    have hmoved : ∀ {id}, id = o₁.orderId ∨ id = r.terms.orderId → traded ts id ≠ 0 := fun hid =>
      (h.handled.traded_ne_zero_iff h.synced.consistent).mpr ⟨r, hr, hmoves, hid⟩
    rcases hunnamed with hown | hrests
    · refine hnone o₁.orderId (acknowledgedDetails s σ price) ⟨?_, hmoved (Or.inl rfl)⟩
      rw [h.id_eq, ← hown]
      exact acknowledgedFor_tracks
    · obtain ⟨order, htracks⟩ := h.synced.accounts.indexed.exists_tracks hrests
      refine hnone r.terms.orderId order ⟨?_, hmoved (Or.inr rfl)⟩
      refine (acknowledgedFor_tracks_of_ne ?_).mpr htracks
      intro hnext
      have huntracked := h.synced.next_untracked h.id_eq
      rw [← hnext, hrests] at huntracked
      cases huntracked

section skipped

variable {order : OrderDetails}

/-- An order whose legs are skipped is tracked afterwards as it was, up to its status, -/
theorem tracks_skipped (hskipped : Skipped (acknowledgedFor s σ price server') ts id order) :
    ∃ status, (replayed s σ price server' ts).Tracks id.toNat "" { order with status := status } :=
  markWorking_tracks (applyFills_tracks_of_empty hskipped.tracks _) _

/-- **and its fills are not reported.** -/
theorem filledTotal_ne_of_skipped (h : Answered subs s server σ price n o ts p store' server')
    (hskipped : Skipped (acknowledgedFor s σ price server') ts id order) :
    filledTotal ((replayed s σ price server' ts).confirmationsOf "") ≠ tradedFor server' "" := by
  have hsame : (replayed s σ price server' ts).confirmationsOf "" =
      (acknowledgedFor s σ price server').confirmationsOf "" := by
    unfold replayed
    rw [markWorking_confirmationsOf, applyFills_confirmationsOf_of_empty]
  obtain ⟨id', hid', hbooked⟩ := h.registered.tracked _ _ hskipped.tracks.client
  obtain rfl : id' = id := UInt64.toNat_inj.mp (by exact_mod_cast hid')
  have htape : tapeOf server' = tapeOf server ++ ts := by rw [h.server, tapeOf_booking]
  have hmoved := hskipped.moved
  unfold tradedFor
  rw [hsame, h.registered.balanced, hbooked, htape]
  simp only [List.map_cons, List.map_nil, List.sum_singleton, traded_append]
  omega

end skipped

section named

variable (h : Answered subs s server σ price n o ts p store' server')
  (hnamed : σ.FillsNoUnnamed s)

include h hnamed

/-- No leg names an order that is tracked under the empty client id. -/
theorem traded_eq_zero_of_unnamed
    (hb : (acknowledgedFor s σ price server').brokerToClientIdMap.lookup (id.toNat : ℤ) = some "") :
    traded ts id = 0 := by
  obtain ⟨order, htracks⟩ := h.registered.indexed.exists_tracks hb
  by_contra hmoved
  exact h.fillsNoUnnamed_iff.mp hnamed id order ⟨htracks, hmoved⟩

/-- So no leg is skipped. -/
theorem ownFills_eq_nil
    (htracks : (acknowledgedFor s σ price server').Tracks id.toNat clientOrderId order)
    (hclient : clientOrderId = "") : ownFills (id.toNat : ℤ) (fillInfos ts) = [] := by
  rw [ownFills_eq_nil_iff, totalFilled_ownFills_fillInfos,
    h.traded_eq_zero_of_unnamed hnamed (hclient ▸ htracks.client)]
  rfl

/-- The accounts after the loop over the trades. -/
theorem looped :
    Accounts (subs ++ [σ]) (bookedIds server') (tapeOf server')
      ((acknowledgedFor s σ price server').applyFills (fillInfos ts)) := by
  have htape : tapeOf server' = tapeOf server ++ ts := by rw [h.server, tapeOf_booking]
  rw [htape]
  apply h.registered.applyFills ts
  · rintro b clientOrderId order id htracks rfl
    exact (h.knownAs htracks).add_le h.taken
  · exact fun id => h.traded_eq_zero_of_unnamed hnamed
  · intro clientOrderId hnone id hbooked
    have htaken := h.taken
    rw [h.server, bookedIds_booking, h.order] at hbooked
    rw [h.order] at htaken
    exact h.synced.traded_eq_zero h.admissible htaken hnone hbooked

/-- An order that the loop leaves is tracked with the trades added. -/
theorem tracks_applyFills
    (htracks : (acknowledgedFor s σ price server').Tracks id.toNat clientOrderId order)
    (hlt : order.filledQuantity + traded ts id < order.quantity) :
    ((acknowledgedFor s σ price server').applyFills (fillInfos ts)).Tracks id.toNat clientOrderId
      (filledBy order (ownFills id.toNat (fillInfos ts))) := by
  obtain ⟨σ', hσ', rfl, -, hworks⟩ := h.registered.works htracks
  apply (hworks.works_applyFills h.registered.indexed (h.ownFills_eq_nil hnamed htracks) ?_).toTracks
  rw [totalFilled_ownFills_fillInfos]
  exact hlt

/-- An order that the loop fills is not tracked any more. -/
theorem untracked_applyFills
    (htracks : (acknowledgedFor s σ price server').Tracks id.toNat clientOrderId order)
    (heq : order.filledQuantity + traded ts id = order.quantity) (b : ℤ) :
    ((acknowledgedFor s σ price server').applyFills (fillInfos ts)).brokerToClientIdMap.lookup b ≠
      some clientOrderId := by
  obtain ⟨σ', hσ', rfl, -, hworks⟩ := h.registered.works htracks
  rw [← totalFilled_ownFills_fillInfos] at heq
  exact (hworks.settled_applyFills h.registered.indexed (h.ownFills_eq_nil hnamed htracks) heq).untracked b

/-- What rests afterwards is tracked, with details that agree. -/
theorem tracked {o' : Order}
    (ho' : store'.resting? id = some o') : ∃ clientOrderId order,
      (replayed s σ price server' ts).Tracks id.toNat clientOrderId order ∧ Agrees order o' := by
  obtain ⟨clientOrderId, order, htracks⟩ := h.exists_tracks ho'
  obtain ⟨x, hagrees, hterms, hrem⟩ := (h.knownAs htracks).of_resting h.taken ho'
  have hopen := h.allOpen.resting? h.taken.invariant.toWellIndexed ho'
  have hlt := (hagrees.add_lt_iff hrem).mpr hopen
  obtain ⟨status, htracks'⟩ :=
    markWorking_tracks (h.tracks_applyFills hnamed htracks hlt) (s.brokerOrderIdCounter + 1)
  exact ⟨clientOrderId, _, htracks', (hagrees.filledBy hterms hrem).setStatus status⟩

/-- The broker and the server are in step again. -/
theorem synced_replayed :
    Synced (subs ++ [σ]) (replayed s σ price server' ts) server' := by
  have hcount : (replayed s σ price server' ts).brokerOrderIdCounter =
      s.brokerOrderIdCounter + 1 := (markWorking_frame _).1.trans (applyFills_frame _).1
  refine ⟨?_, ?_, ?_, ?_, ?_, ?_, ?_, (h.looped hnamed).markWorking _⟩
  · exact (markWorking_frame _).2.trans (applyFills_frame _).2
  · exact (markWorking_lockHeld _).trans ((applyFills_lockHeld _).trans h.synced.free)
  · have hcounter := h.synced.counter
    rw [hcount]
    omega
  · rw [h.store]
    exact h.taken.invariant
  · rw [h.store]
    exact h.allOpen
  · rw [hcount, h.server]
    apply h.synced.issued.append h.id_eq
    intro t ht id hname
    exact (h.taken.named t ht id hname).imp_right h.synced.booked_of_resting
  · intro id o' ho'
    rw [h.store] at ho'
    exact h.tracked hnamed ho'

/-- The order that came in is good-till-cancel if it is still tracked: a fill-and-kill remainder
would have kept the call from returning. -/
theorem goodTillCancel
    (hdone : finishes (some (finalStatusInBook (some (store'.heap p)))) = true →
      ((acknowledgedFor s σ price server').applyFills (fillInfos ts)).brokerIdToOrderDetails.lookup
        (s.brokerOrderIdCounter + 1) = none)
    (htracks : (acknowledgedFor s σ price server').Tracks o.orderId.toNat clientOrderId order)
    (hlt : order.filledQuantity + traded ts o.orderId < order.quantity) :
    o.orderType = .GoodTillCancel := by
  by_contra htype
  have hagrees : Agrees order o := by
    cases h.knownAs htracks with
    | incoming _ hagrees => exact hagrees
    | resting _ hne _ _ => exact absurd rfl hne
    | gone hne _ _ => exact absurd rfl hne
  have hleft := (hagrees.add_lt_iff h.taken.remaining).mp hlt
  have hnot : (store'.heap p).isFilled = false := by
    rw [← Bool.not_eq_true, Order.isFilled_iff]
    exact hleft
  have hfak : (store'.heap p).orderType = .FillAndKill := by
    rw [h.taken.terms]
    cases hcase : o.orderType with
    | GoodTillCancel => exact absurd hcase htype
    | FillAndKill => rfl
  have hgone := hdone (by simp [finishes, finalStatusInBook, hnot, hfak])
  rw [← h.id_eq, (h.tracks_applyFills hnamed htracks hlt).details] at hgone
  cases hgone

/-- What the broker tracks afterwards rests in the book, if it did before. -/
theorem mirrored_replayed
    (hdone : finishes (some (finalStatusInBook (some (store'.heap p)))) = true →
      ((acknowledgedFor s σ price server').applyFills (fillInfos ts)).brokerIdToOrderDetails.lookup
        (s.brokerOrderIdCounter + 1) = none)
    (hmirrored : Mirrored s server) : Mirrored (replayed s σ price server' ts) server' := by
  intro b clientOrderId hb
  have hb' : ((acknowledgedFor s σ price server').applyFills
      (fillInfos ts)).brokerToClientIdMap.lookup b = some clientOrderId := by
    rwa [replayed, markWorking_client] at hb
  obtain ⟨id, rfl, -⟩ := h.registered.tracked b _ (applyFills_client_lookup hb')
  obtain ⟨order, htracks⟩ := h.registered.indexed.exists_tracks (applyFills_client_lookup hb')
  refine ⟨id, rfl, ?_⟩
  rw [h.store]
  rcases ((h.knownAs htracks).add_le h.taken).lt_or_eq with hlt | heq
  · apply (h.knownAs htracks).rests h.taken hlt
    · intro hnew
      have htracks' := (acknowledgedFor_tracks_of_ne (h.ne_of_ne hnew)).mp htracks
      obtain ⟨id', hid', hrests⟩ := hmirrored _ _ htracks'.client
      obtain rfl : id' = id := UInt64.toNat_inj.mp (by exact_mod_cast hid')
      exact hrests
    · rintro rfl
      exact h.goodTillCancel hnamed hdone htracks hlt
  · exact absurd hb' (h.untracked_applyFills hnamed htracks heq _)

end named

end Answered

/-- A submission whose reply arrives and that returns. -/
theorem Synced.answered (h : Synced subs s server)
    (hadm : σ.Admissible subs (s.brokerOrderIdCounter + 1)) (hprice : σ.price = some price)
    (hn : pyInt price = .ok n) (hn0 : 0 ≤ n) (hn32 : n < 2 ^ 32) {o : Order}
    (ho : o = σ.order (s.brokerOrderIdCounter + 1) n)
    (hcall : CallStep server.store (.addOrder o) (.added ts (some p)) store')
    (hserver' : server' = booking server store' σ.clientOrderId o ts)
    (hdone : finishes (some (finalStatusInBook (some (store'.heap p)))) = true →
      ((acknowledgedFor s σ price server').applyFills (fillInfos ts)).brokerIdToOrderDetails.lookup
        (s.brokerOrderIdCounter + 1) = none) :
    Answered subs s server σ price n o ts p store' server' := by
  obtain ⟨-, htaken⟩ := hcall.taken h.consistent h.allOpen
  exact ⟨h, hadm, hprice, hn, hn0, hn32, ho, htaken, hcall.handled h.consistent, hserver',
    quantity_pos h hadm ho htaken hdone⟩

end replayed

end submitting

end FlowManager.System
